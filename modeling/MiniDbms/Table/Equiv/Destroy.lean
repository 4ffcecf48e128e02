import MiniDbms.Table.Equiv.Agreement

/-!
# Destroying the table

`table_destroy` frees the record of every row once.  A pointer that occurred twice, or to a record
that was freed before, would make it undefined; in a table that holds its rows there is none
(`tableDestroy_spec`).
-/

namespace MiniDbms

open CArray TableMemory

theorem TableMemory.freeRecord_spec {m : TableMemory} {p : RecordPtr} {r : Record}
    (h : m.record p = some r) :
    ∃ m', m.freeRecord p = some m' ∧ m'.buckets = m.buckets ∧ m'.record p = none ∧
      ∀ q, q ≠ p → m'.record q = m.record q := by
  refine ⟨{ m with records := m.records.set p none }, ?_, rfl, ?_, fun q hq => ?_⟩
  · rw [freeRecord, h, Option.isSome_some, if_pos rfl]
  · rw [record]
    dsimp only
    rw [List.getElem?_set, if_pos rfl]
    split_ifs <;> rfl
  · rw [record, record]
    dsimp only
    rw [List.getElem?_set_ne (Ne.symm hq)]

/-- The rows of one bucket. -/
theorem tableFreeRows_spec {m : TableMemory} {rows : List RecordPtr} (hnodup : rows.Nodup)
    (hrows : ∀ p ∈ rows, ∃ r, m.record p = some r) :
    ∃ m', tableFreeRows m rows = some m' ∧ m'.buckets = m.buckets ∧
      (∀ p ∈ rows, m'.record p = none) ∧ ∀ q ∉ rows, m'.record q = m.record q := by
  induction rows generalizing m with
  | nil => exact ⟨m, rfl, rfl, nofun, fun _ _ => rfl⟩
  | cons p rows ih =>
    obtain ⟨hp, hnodup⟩ := List.nodup_cons.mp hnodup
    obtain ⟨r, hr⟩ := hrows p List.mem_cons_self
    obtain ⟨m₁, hfree, hbuckets, hnone, hother⟩ := freeRecord_spec hr
    have hne : ∀ q ∈ rows, q ≠ p := by
      rintro q hq rfl
      exact hp hq
    obtain ⟨m', hrun, hbuckets', hfreed, hkept⟩ := ih hnodup fun q hq => by
      rw [hother q (hne q hq)]
      exact hrows q (List.mem_cons_of_mem _ hq)
    refine ⟨m', bind_eq_of_eq_some hfree hrun, hbuckets'.trans hbuckets, fun q hq => ?_,
      fun q hq => ?_⟩
    · rcases List.mem_cons.mp hq with rfl | hq
      · exact (hkept q hp).trans hnone
      · exact hfreed q hq
    · rw [List.mem_cons, not_or] at hq
      exact (hkept q hq.2).trans (hother q hq.1)

/-- The rows of several buckets. -/
theorem tableDestroyBuckets_spec {m : TableMemory} {bs : List (Fin tableBucketCount)}
    (hbs : bs.Nodup) (hnodup : (bs.flatMap fun b => (m.buckets b).rows).Nodup)
    (hrows : ∀ b ∈ bs, ∀ p ∈ (m.buckets b).rows, ∃ r, m.record p = some r) :
    ∃ m', tableDestroyBuckets m bs = some m' ∧
      (∀ b ∈ bs, ∀ p ∈ (m.buckets b).rows, m'.record p = none) ∧
      ∀ q ∉ bs.flatMap fun b => (m.buckets b).rows, m'.record q = m.record q := by
  induction bs generalizing m with
  | nil => exact ⟨m, rfl, nofun, fun _ _ => rfl⟩
  | cons b bs ih =>
    obtain ⟨hb, hbs⟩ := List.nodup_cons.mp hbs
    rw [List.flatMap_cons, List.nodup_append] at hnodup
    obtain ⟨hnodup₁, hnodup₂, hdisjoint⟩ := hnodup
    obtain ⟨m₁, hfree, hbuckets, hfreed, hkept⟩ :=
      tableFreeRows_spec hnodup₁ (hrows b List.mem_cons_self)
    set m₂ := m₁.setBucket b ⟨[], 0, bptreeCreate⟩ with hm₂
    have hsame : ∀ b' ∈ bs, m₂.buckets b' = m.buckets b' := by
      intro b' hb'
      have hne : b' ≠ b := by
        rintro rfl
        exact hb hb'
      rw [← hbuckets]
      exact Function.update_of_ne hne _ _
    have hflat : bs.flatMap (fun b => (m₂.buckets b).rows) =
        bs.flatMap fun b => (m.buckets b).rows :=
      List.flatMap_congr fun b' hb' => by rw [hsame b' hb']
    have hlater : ∀ b' ∈ bs, ∀ p ∈ (m.buckets b').rows, p ∉ (m.buckets b).rows := by
      intro b' hb' p hp hp'
      exact hdisjoint p hp' p (List.mem_flatMap.mpr ⟨b', hb', hp⟩) rfl
    obtain ⟨m', hrun, hfreed', hkept'⟩ := ih (m := m₂) hbs (hflat ▸ hnodup₂) fun b' hb' p hp => by
      rw [hsame b' hb'] at hp
      obtain ⟨r, hr⟩ := hrows b' (List.mem_cons_of_mem _ hb') p hp
      exact ⟨r, (hkept p (hlater b' hb' p hp)).trans hr⟩
    refine ⟨m', bind_eq_of_eq_some hfree hrun, fun b' hb' p hp => ?_, fun q hq => ?_⟩
    · rcases List.mem_cons.mp hb' with rfl | hb'
      · -- what is freed stays freed, whatever the other buckets are
        refine (hkept' p ?_).trans (hfreed p hp)
        rw [hflat]
        intro hp'
        exact hdisjoint p hp p hp' rfl
      · exact hfreed' b' hb' p (by rwa [hsame b' hb'])
    · rw [List.flatMap_cons, List.mem_append, not_or] at hq
      exact (hkept' q (hflat ▸ hq.2)).trans (hkept q hq.1)

/-- No pointer occurs twice in the table. -/
theorem TableMemory.Stores.nodup_rows {m : TableMemory} {rs : Rows} (hs : m.Stores rs) :
    m.rows.Nodup := by
  apply List.Nodup.of_map fun p => (m.record p).map Record.id
  have hids : m.rows.map (fun p => (m.record p).map Record.id) =
      (rs.all.map fun e => e.2.id).map some := by
    rw [hs.rows_eq, List.map_map, List.map_map]
    refine List.map_congr_left fun e he => ?_
    show (m.record e.1).map Record.id = some e.2.id
    rw [hs.record_all he]
    rfl
  rw [hids]
  exact hs.nodup_all.map (Option.some_injective _)

/-- **`table_destroy` frees every record once.** -/
theorem tableDestroy_spec {m : TableMemory} {rs : Rows} (hs : m.Stores rs) :
    ∃ m', tableDestroy m = some m' ∧ ∀ b, ∀ p ∈ (m.buckets b).rows, m'.record p = none := by
  obtain ⟨m', hrun, hfreed, -⟩ := tableDestroyBuckets_spec (List.nodup_finRange tableBucketCount)
    hs.nodup_rows fun b _ p hp => by
      rw [hs.rows b] at hp
      obtain ⟨e, he, rfl⟩ := List.mem_map.mp hp
      exact ⟨e.2, hs.record b e he⟩
  exact ⟨m', hrun, fun b => hfreed b (List.mem_finRange b)⟩

end MiniDbms
