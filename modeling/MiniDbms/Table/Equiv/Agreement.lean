import MiniDbms.Table.Equiv.Insert

/-!
# The index and the rows agree

`TableMemory.Consistent` says what the arrays and the indexes of the buckets have to do with each
other, in terms of the memory alone.  It holds in every state that insertions reach
(`reachable_consistent`), and there the lookups through the index and those that read every row give
the same answers.
-/

namespace MiniDbms

open SortedAssoc CArray TableMemory

/-! ### Rows of all buckets -/

/-- No ID occurs twice in the table. -/
theorem TableMemory.Stores.nodup_all {m : TableMemory} {rs : Rows} (hs : m.Stores rs) :
    (rs.all.map fun e => e.2.id).Nodup := by
  unfold Rows.all
  rw [List.map_flatMap, List.nodup_flatMap]
  refine ⟨fun b _ => hs.nodup_ids b, ?_⟩
  refine (List.nodup_finRange _).imp fun {b b'} hne id hid hid' => hne ?_
  obtain ⟨e, he, rfl⟩ := List.mem_map.mp hid
  obtain ⟨e', he', hsame⟩ := List.mem_map.mp hid'
  rw [← hs.bucket b e he, ← hs.bucket b' e' he', hsame]

/-- The rows have an order. -/
theorem TableMemory.Stores.exists_ordered {m : TableMemory} {rs : Rows} (hs : m.Stores rs) :
    ∃ rows, rs.Ordered rows := by
  have hsort : (sortRows rs.all).Perm rs.all := List.perm_insertionSort _ _
  have hne : (sortRows rs.all).Pairwise fun left right => left.2.id ≠ right.2.id := by
    have hnodup := (hsort.map fun e => e.2.id).nodup_iff.mpr hs.nodup_all
    rwa [List.Nodup, List.pairwise_map] at hnodup
  refine ⟨(sortRows rs.all).map Prod.snd, (hsort.map _).symm, ?_⟩
  rw [List.pairwise_map]
  exact (pairwise_sortRows _).imp₂ (fun _ _ hle hne => lt_of_le_of_ne hle hne) hne

/-! ### Arrays and indexes -/

/-- The record at a pointer has the ID `id`. -/
def TableMemory.HasId (m : TableMemory) (p : RecordPtr) (id : ℤ) : Prop :=
  ∃ r, m.record p = some r ∧ r.id = id

/-- The rows of all buckets, bucket by bucket. -/
def Table.rows (table : Table) : List RecordPtr :=
  (List.finRange tableBucketCount).flatMap fun b => (table.buckets b).rows

/-- What the arrays and the indexes of the buckets have to do with each other. -/
structure TableMemory.Consistent (m : TableMemory) : Prop where
  /-- The index of a bucket maps exactly the IDs of its rows, to these rows. -/
  index : ∀ b id, ∃ found, bptreeSearch (m.buckets b).pkIndex id = some found ∧
    ∀ p, found = some p ↔ p ∈ (m.buckets b).rows ∧ m.HasId p id
  /-- Every row is in the bucket of its ID. -/
  bucket : ∀ b, ∀ p ∈ (m.buckets b).rows, ∃ id, m.HasId p id ∧ id % 16 = (b : ℤ)
  /-- No ID occurs twice. -/
  nodup : (m.rows.map fun p => (m.record p).map Record.id).Nodup
  /-- The IDs were issued before. -/
  issued : ∀ p ∈ m.rows, ∀ id, m.HasId p id → 1 ≤ id ∧ id < m.nextId

theorem TableMemory.HoldsRows.rows_eq {m : TableMemory} {rs : Rows} (hs : m.HoldsRows rs) :
    m.rows = rs.all.map Prod.fst := by
  unfold Table.rows Rows.all
  rw [List.map_flatMap]
  exact List.flatMap_congr fun b _ => hs.rows b

theorem TableMemory.HoldsRows.record_all {m : TableMemory} {rs : Rows} (hs : m.HoldsRows rs)
    {e : Row} (he : e ∈ rs.all) : m.record e.1 = some e.2 := by
  obtain ⟨b, hb⟩ := Rows.mem_all.mp he
  exact hs.record b e hb

theorem TableMemory.Stores.rows_eq {m : TableMemory} {rs : Rows} (hs : m.Stores rs) :
    m.rows = rs.all.map Prod.fst := hs.holdsRows.rows_eq

theorem TableMemory.Stores.record_all {m : TableMemory} {rs : Rows} (hs : m.Stores rs) {e : Row}
    (he : e ∈ rs.all) : m.record e.1 = some e.2 := hs.holdsRows.record_all he

/-- A memory that stores rows whose IDs were issued is consistent. -/
theorem TableMemory.Stores.consistent {m : TableMemory} {rs : Rows} (hs : m.Stores rs)
    (hissued : ∀ e ∈ rs.all, 1 ≤ e.2.id ∧ e.2.id < m.nextId) : m.Consistent := by
  refine ⟨fun b id => ?_, fun b p hp => ?_, ?_, fun p hp id hid => ?_⟩
  · obtain ⟨found, hfound, hiff⟩ := hs.search b id
    refine ⟨found, hfound, fun p => ?_⟩
    rw [hiff, hs.rows]
    constructor
    · rintro ⟨r, hr, hid⟩
      exact ⟨List.mem_map.mpr ⟨_, hr, rfl⟩, r, hs.record b _ hr, hid⟩
    · rintro ⟨hp, r, hr, hid⟩
      obtain ⟨e, he, rfl⟩ := List.mem_map.mp hp
      rw [hs.record b e he, Option.some_inj] at hr
      exact ⟨r, hr ▸ he, hid⟩
  · rw [hs.rows] at hp
    obtain ⟨e, he, rfl⟩ := List.mem_map.mp hp
    refine ⟨e.2.id, ⟨e.2, hs.record b e he, rfl⟩, ?_⟩
    rw [← tableBucketIndexForId_eq, hs.bucket b e he]
  · have hids : (m.rows.map fun p => (m.record p).map Record.id) =
        (rs.all.map fun e => e.2.id).map some := by
      rw [hs.rows_eq, List.map_map, List.map_map]
      apply List.map_congr_left
      intro e he
      show (m.record e.1).map Record.id = some e.2.id
      rw [hs.record_all he]
      rfl
    rw [hids]
    exact hs.nodup_all.map (Option.some_injective _)
  · rw [hs.rows_eq] at hp
    obtain ⟨e, he, rfl⟩ := List.mem_map.mp hp
    obtain ⟨r, hr, rfl⟩ := hid
    rw [hs.record_all he, Option.some_inj] at hr
    rw [← hr]
    exact hissued e he

/-! ### The scan -/

/-- The scan of one bucket: the first row with the ID. -/
theorem tableScanRows_spec {m : TableMemory} {es : List Row}
    (hm : ∀ e ∈ es, m.record e.1 = some e.2) (id : ℤ) :
    tableScanRows m id (es.map Prod.fst) =
      some ((es.find? fun e => e.2.id = id).map Prod.fst) := by
  induction es with
  | nil => rfl
  | cons e es ih =>
    rw [List.map_cons, tableScanRows]
    refine bind_eq_of_eq_some (hm e List.mem_cons_self) ?_
    split_ifs with hid
    · rw [List.find?_cons_of_pos (by simpa using hid)]
      rfl
    · rw [List.find?_cons_of_neg (by simpa using hid)]
      exact ih fun e' he' => hm e' (List.mem_cons_of_mem _ he')

/-- The scan of several buckets. -/
theorem tableScanBuckets_spec {m : TableMemory} {rs : Rows} (hu : m.Unlocked) (hs : m.Stores rs)
    (id : ℤ) (bs : List (Fin tableBucketCount)) :
    tableScanBuckets m id bs =
      some (m, ((bs.flatMap rs).find? fun e => e.2.id = id).map Prod.fst) := by
  induction bs with
  | nil => rfl
  | cons b bs ih =>
    have hunlock : ({ m with held := [.bucket b] } : TableMemory).unlock (.bucket b) = some m := by
      rw [unlock_single rfl, ← hu.held]
    have hscan := tableScanRows_spec (m := { m with held := [.bucket b] }) (hs.record b) id
    rw [← hs.rows] at hscan
    rw [tableScanBuckets, hu.lock, List.flatMap_cons, List.find?_append]
    refine bind_eq_of_eq_some hscan ?_
    cases hfind : (rs b).find? fun e => decide (e.2.id = id) with
    | some e => exact bind_eq_of_eq_some hunlock rfl
    | none => exact bind_eq_of_eq_some hunlock ih

/-! ### The lookups -/

/-- When no ID repeats, the rows with one ID are the first such row. -/
theorem filter_id_eq_toList {es : List Row} (hnodup : (es.map fun e => e.2.id).Nodup) (id : ℤ) :
    (es.filter fun e => e.2.id = id) = (es.find? fun e => e.2.id = id).toList := by
  induction es with
  | nil => rfl
  | cons e es ih =>
    rw [List.map_cons, List.nodup_cons] at hnodup
    by_cases hid : e.2.id = id
    · have hnone : (es.filter fun e => decide (e.2.id = id)) = [] := by
        rw [List.filter_eq_nil_iff]
        intro e' he' hid'
        rw [decide_eq_true_eq] at hid'
        exact hnodup.1 (List.mem_map.mpr ⟨e', he', hid'.trans hid.symm⟩)
      rw [List.filter_cons_of_pos (by simpa using hid), List.find?_cons_of_pos (by simpa using hid),
        hnone]
      rfl
    · rw [List.filter_cons_of_neg (by simpa using hid),
        List.find?_cons_of_neg (by simpa using hid), ih hnodup.2]

/-- What the index finds is what a scan of all rows finds. -/
theorem TableMemory.Stores.find_eq {m : TableMemory} {rs : Rows} (hs : m.Stores rs) {id : ℤ}
    {found : Option RecordPtr}
    (hfound : ∀ q, found = some q ↔ ∃ r, (q, r) ∈ rs (tableBucketIndexForId id) ∧ r.id = id) :
    found = (rs.all.find? fun e => e.2.id = id).map Prod.fst := by
  cases hfind : rs.all.find? fun e => decide (e.2.id = id) with
  | none =>
    rw [List.find?_eq_none] at hfind
    cases found with
    | none => rfl
    | some q =>
      obtain ⟨r, hr, hid⟩ := (hfound q).mp rfl
      exact absurd (decide_eq_true hid) (hfind _ (Rows.mem_all.mpr ⟨_, hr⟩))
  | some e =>
    have hid : e.2.id = id := by simpa using List.find?_some hfind
    obtain ⟨b, hb⟩ := Rows.mem_all.mp (List.mem_of_find?_eq_some hfind)
    -- the bucket in which the scan found the row is the one that the index looks into
    have hbucket : tableBucketIndexForId id = b := by
      rw [← hid]
      exact hs.bucket b e hb
    exact (hfound e.1).mpr ⟨e.2, by rw [hbucket]; exact hb, hid⟩

/-- The lookups through the index give the same answers as those that read every row. -/
structure TableMemory.LookupsAgree (m : TableMemory) (id : ℤ) : Prop where
  find : ∃ found, tableFindById m id = some (m, found) ∧ tableScanById m id = some (m, found)
  filter : ∃ m₁ all m₂ records, tableCollectAll m = some (true, m₁, all) ∧
    tableFindByIdCondition m .eq id = some (true, m₂, records) ∧
    records.rows = all.rows.filter fun p => (m.record p).any fun r => r.id = id

theorem TableMemory.Stores.lookupsAgree {m : TableMemory} {rs : Rows} (hq : m.Quiet)
    (hs : m.Stores rs) (id : ℤ) : m.LookupsAgree id := by
  obtain ⟨found, hrun, hiff⟩ := tableFindById_spec hq.unlocked hs id
  have hfound := hs.find_eq hiff
  refine ⟨⟨found, hrun, ?_⟩, ?_⟩
  · rw [tableScanById, tableScanBuckets_spec hq.unlocked hs, hfound]
    rfl
  · obtain ⟨m₁, all, hall, -, hrows⟩ := tableCollectAllSorted_spec hq hs
    -- the matching rows, at most one, in the order of the collection
    have hperm : ((sortRows rs.all).filter fun e => decide (e.2.id = id)).Perm
        (rs.all.find? fun e => decide (e.2.id = id)).toList := by
      rw [← filter_id_eq_toList hs.nodup_all]
      exact (List.perm_insertionSort _ _).filter _
    have hfilter : (all.rows.filter fun p => (m.record p).any fun r => decide (r.id = id)) =
        found.toList := by
      have hmatch : (all.rows.filter fun p => (m.record p).any fun r => decide (r.id = id)) =
          ((sortRows rs.all).filter fun e => decide (e.2.id = id)).map Prod.fst := by
        rw [hrows, List.filter_map]
        congr 1
        apply List.filter_congr
        intro e he
        rw [Function.comp_apply, hs.record_all ((List.mem_insertionSort _).mp he)]
        rfl
      rw [hmatch, hfound]
      cases hfind : rs.all.find? fun e => decide (e.2.id = id) with
      | none =>
        rw [hfind] at hperm
        rw [List.perm_nil.mp hperm]
        rfl
      | some e =>
        rw [hfind] at hperm
        rw [List.perm_singleton.mp hperm]
        rfl
    cases found with
    | none => exact ⟨m₁, all, m, .empty, hall, bind_eq_of_eq_some hrun rfl, hfilter.symm⟩
    | some q =>
      obtain ⟨m₂, records, happ, -, hrecords⟩ := tableAppendRecord_spec hq.allocs .empty q
      exact ⟨m₁, all, m₂, records, hall, bind_eq_of_eq_some hrun (congrArg some happ),
        hrecords.trans hfilter.symm⟩

/-! ### Reachable states -/

open SharedTable

/-- The IDs in the table were issued. -/
theorem SharedTable.Counted.issued_range {n : ℕ} {s : SharedTable n} (hc : s.Counted) {x : Stored}
    (hx : x ∈ s.stored) : 1 ≤ x.record.id ∧ x.record.id < s.memory.nextId := by
  have hmem : x.record.id ∈ s.issued.map Prod.snd :=
    hc.stored.mem (List.mem_map.mpr ⟨x, hx, rfl⟩)
  rw [hc.ids] at hmem
  obtain ⟨i, hi, hid⟩ := List.mem_map.mp hmem
  rw [List.mem_range] at hi
  rw [hc.nextId, ← hid]
  constructor <;> omega

/-- **The index and the rows agree in every reachable state.** -/
theorem reachable_consistent {n : ℕ} {actions : List (Action n)} {s : SharedTable n}
    (h : (start n).run actions = some s)
    (hcalls : actions.countP Action.isInsert < 2 ^ 31 - 1) :
    s.memory.Consistent ∧ ∀ id, s.memory.LookupsAgree id := by
  have hi := (inv_start n).run h
  have hc := counted_of_run h hcalls
  refine ⟨hi.stores.consistent fun e he => ?_, hi.stores.lookupsAgree hi.quiet⟩
  obtain ⟨b, hb⟩ := Rows.mem_all.mp he
  obtain ⟨x, hx, -, -, rfl⟩ := History.mem_rowsBefore.mp hb
  exact hc.issued_range hx

theorem reachable_consistent_crossing :
    ∃ s, (start 2).run crossingInserts = some s ∧ s.memory.Consistent ∧
      ∀ id, s.memory.LookupsAgree id := by
  have hrun : ((start 2).run crossingInserts).isSome = true := by decide
  obtain ⟨s, hs⟩ := Option.isSome_iff_exists.mp hrun
  exact ⟨s, hs, reachable_consistent hs (by decide)⟩

end MiniDbms
