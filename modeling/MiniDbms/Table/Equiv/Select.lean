import MiniDbms.Table.Equiv.Interleaving

/-!
# What a concurrent lookup guarantees

Whatever other threads do in between, a lookup returns complete rows in order, misses no row that
was stored before it began, and no row that an earlier lookup returned (`select_guarantees`).

It is not a snapshot: rows are read bucket by bucket, and a row may be stored in a bucket that was
already read while a later one is stored in a bucket that was not (`select_is_no_snapshot`).  Every
bucket is read at one instant, and if no matching row is stored while the lookup reads, its answer
is a snapshot (`select_reads_buckets`).
-/

namespace MiniDbms

open SortedAssoc CArray TableMemory SharedTable

variable {n : ℕ} {s : SharedTable n}

/-- Every state that a run reaches from the start has the invariant. -/
theorem inv_of_run {actions : List (Action n)} (h : (start n).run actions = some s) : s.Inv :=
  (inv_start n).run h

/-! ### The rows of an answer -/

/-- A row is returned when it was in its bucket at the section of that bucket. -/
theorem SelectOk.mem_rows {h : History} {e : SelectAnswer} (he : SelectOk h e) {r : Record} :
    r ∈ e.rows ↔ e.call.query.test r = true ∧ ∃ x ∈ h.stored, x.record = r ∧
      ∃ time, (tableBucketIndexForId r.id, time) ∈ e.scans ∧ x.time < time := by
  rw [he.rows, List.mem_map]
  constructor
  · rintro ⟨row, hrow, rfl⟩
    obtain ⟨hscanned, htest⟩ := History.mem_selection.mp hrow
    obtain ⟨x, hx, htime, rfl⟩ := History.mem_scanned.mp hscanned
    exact ⟨htest, x, hx, rfl, htime⟩
  · rintro ⟨htest, x, hx, rfl, htime⟩
    exact ⟨(x.ptr, x.record), History.mem_selection.mpr ⟨History.mem_scanned.mpr
      ⟨x, hx, htime, rfl⟩, htest⟩, rfl⟩

/-- A matching row is returned when it was stored before the lookup began. -/
theorem SelectOk.mem_of_lt_began {h : History} {e : SelectAnswer} (he : SelectOk h e) {x : Stored}
    (hx : x ∈ h.stored) (htest : e.call.query.test x.record = true)
    (htime : x.time < e.call.began) : x.record ∈ e.rows := by
  have hbucket := Query.bucket_mem htest
  rw [← he.buckets] at hbucket
  obtain ⟨⟨b, time⟩, hscan, heq⟩ := List.mem_map.mp hbucket
  dsimp only at heq
  subst heq
  exact he.mem_rows.mpr ⟨htest, x, hx, rfl, time, hscan, htime.trans (he.scanned.after _ hscan)⟩

/-- A returned row was stored before the lookup ended. -/
theorem SelectOk.lt_ended {h : History} {e : SelectAnswer} (he : SelectOk h e) {r : Record}
    (hr : r ∈ e.rows) : ∃ x ∈ h.stored, x.time < e.ended ∧ x.record = r := by
  obtain ⟨-, x, hx, hrecord, time, hscan, htime⟩ := he.mem_rows.mp hr
  exact ⟨x, hx, htime.trans (he.scanned.before _ hscan), hrecord⟩

/-- IDs do not repeat in the table. -/
theorem SharedTable.Inv.eq_of_id (hi : s.Inv) {x x' : Stored} (hx : x ∈ s.stored)
    (hx' : x' ∈ s.stored)
    (hid : x.record.id = x'.record.id) : (x.ptr, x.record) = (x'.ptr, x'.record) := by
  have hmem : ∀ y ∈ s.stored, (y.ptr, y.record) ∈
      s.rowsBefore (tableBucketIndexForId y.record.id) s.clock := by
    intro y hy
    exact History.mem_rowsBefore.mpr ⟨y, hy, hi.past y hy, rfl, rfl⟩
  have hmem' := hmem x' hx'
  rw [← hid] at hmem'
  exact List.inj_on_of_nodup_map (hi.stores.nodup_ids _) (hmem x hx) hmem' hid

/-- No row is scanned twice. -/
theorem SharedTable.Inv.nodup_scanned (hi : s.Inv) {scans : List Scan}
    (hbuckets : (scans.map Prod.fst).Nodup) (htimes : ∀ scan ∈ scans, scan.2 ≤ s.clock) :
    ((s.scanned scans).map fun e => e.2.id).Nodup := by
  have hsub : ∀ scan ∈ scans,
      (s.rowsBefore scan.1 scan.2).Sublist (s.rowsBefore scan.1 s.clock) := by
    intro scan hscan
    unfold History.rowsBefore
    apply List.Sublist.map
    apply List.monotone_filter_right
    intro x hx
    simp only [decide_eq_true_eq] at hx ⊢
    exact ⟨hx.1.trans_le (htimes scan hscan), hx.2⟩
  have hnodup : (s.scanned scans).Nodup := by
    unfold History.scanned
    rw [List.nodup_flatMap]
    refine ⟨fun scan hscan => ?_, ?_⟩
    · exact (List.Nodup.of_map _ (hi.stores.nodup_ids scan.1)).sublist (hsub scan hscan)
    · rw [List.Nodup, List.pairwise_map] at hbuckets
      refine hbuckets.imp fun hne => ?_
      rw [Function.onFun_apply, List.disjoint_left]
      intro e he he'
      obtain ⟨x, -, -, hb, rfl⟩ := History.mem_rowsBefore.mp he
      obtain ⟨x', -, -, hb', heq⟩ := History.mem_rowsBefore.mp he'
      rw [Prod.mk.injEq] at heq
      rw [heq.2] at hb'
      exact hne (hb.symm.trans hb')
  refine hnodup.map_on ?_
  intro e he e' he' hid
  obtain ⟨x, hx, -, rfl⟩ := History.mem_scanned.mp he
  obtain ⟨x', hx', -, rfl⟩ := History.mem_scanned.mp he'
  exact hi.eq_of_id hx hx' hid

/-- Rows are returned in ascending order of their IDs, none twice. -/
theorem SharedTable.Inv.rows_sorted (hi : s.Inv) {e : SelectAnswer} (he : e ∈ s.selects) :
    e.rows.Pairwise fun left right => left.id < right.id := by
  have hok := hi.selects e he
  have hbuckets : (e.scans.map Prod.fst).Nodup := by
    rw [hok.buckets]
    unfold Query.buckets
    split
    · exact List.nodup_singleton _
    · exact List.nodup_finRange _
  have htimes : ∀ scan ∈ e.scans, scan.2 ≤ s.clock := fun scan hscan =>
    ((hok.scanned.before scan hscan).trans hok.ended).le
  have hids := hi.nodup_scanned hbuckets htimes
  have hle := pairwise_sortRows (s.scanned e.scans)
  have hne : (sortRows (s.scanned e.scans)).Pairwise fun left right => left.2.id ≠ right.2.id := by
    rw [← List.pairwise_map (f := fun e : Row => e.2.id) (R := fun x y : ℤ => x ≠ y)]
    exact ((List.perm_insertionSort _ _).map _).nodup_iff.mpr hids
  rw [hok.rows, List.pairwise_map]
  exact ((hle.and hne).imp fun h => lt_of_le_of_ne h.1 h.2).filter _

/-! ### The guarantees -/

/-- **What a lookup guarantees**: its rows are in ascending order, none twice; each is the complete
row of an insertion that has stored it; a matching row is among them when it was stored before the
lookup began, in particular when its insertion was answered before, and when an earlier lookup with
the same condition returned it. -/
theorem select_guarantees {actions : List (Action n)} (h : (start n).run actions = some s)
    {e : SelectAnswer} (he : e ∈ s.selects) :
    e.rows.Pairwise (fun left right => left.id < right.id) ∧
    (∀ r ∈ e.rows, e.call.query.test r = true ∧
      (∃ x ∈ s.stored, x.time < e.ended ∧ x.record = r) ∧
      ∃ call, (call, r.id) ∈ s.issued ∧ r = storedRecord r.id call.name call.age) ∧
    (∀ x ∈ s.stored, e.call.query.test x.record = true → x.time < e.call.began →
      x.record ∈ e.rows) ∧
    (∀ a ∈ s.inserts, e.call.query.test (storedRecord a.id a.call.name a.call.age) = true →
      a.ended < e.call.began → storedRecord a.id a.call.name a.call.age ∈ e.rows) ∧
    ∀ e' ∈ s.selects, e'.call.query = e.call.query → e'.ended < e.call.began →
      ∀ r ∈ e'.rows, r ∈ e.rows := by
  have hi := inv_of_run h
  have hok := hi.selects e he
  refine ⟨hi.rows_sorted he, ?_, ?_, ?_, ?_⟩
  · intro r hr
    obtain ⟨x, hx, htime, rfl⟩ := hok.lt_ended hr
    exact ⟨(hok.mem_rows.mp hr).1, ⟨x, hx, htime, rfl⟩, hi.issued x hx⟩
  · intro x hx htest htime
    exact hok.mem_of_lt_began hx htest htime
  · intro a ha htest hended
    obtain ⟨-, -, x, hx, htime, hrecord⟩ := hi.inserts a ha
    rw [← hrecord] at htest ⊢
    exact hok.mem_of_lt_began hx htest (htime.trans hended)
  · intro e' he' hquery hended r hr
    have hok' := hi.selects e' he'
    obtain ⟨x, hx, htime, rfl⟩ := hok'.lt_ended hr
    have htest := (hok'.mem_rows.mp hr).1
    rw [hquery] at htest
    exact hok.mem_of_lt_began hx htest (htime.trans hended)

/-! ### Snapshots -/

/-- The answer is the set of matching rows that were stored at one instant of the call. -/
def Snapshot (h : History) (e : SelectAnswer) : Prop :=
  ∃ time, e.call.began ≤ time ∧ time ≤ e.ended ∧
    ∀ r, r ∈ e.rows ↔ e.call.query.test r = true ∧ ∃ x ∈ h.stored, x.time < time ∧ x.record = r

/-- **A scanning lookup reads every bucket at one instant**: it reads the buckets one behind the
other, and returns the matching rows that were in each bucket when it was read.  If no matching row
is stored between its first and its last section, the answer is a snapshot. -/
theorem select_reads_buckets {actions : List (Action n)} (h : (start n).run actions = some s)
    {e : SelectAnswer} (he : e ∈ s.selects) (hquery : ∀ key, e.call.query ≠ .id .eq key) :
    (e.scans.map Prod.fst = List.finRange tableBucketCount ∧
      (e.scans.map Prod.snd).Pairwise (· < ·) ∧
      ∀ scan ∈ e.scans, e.call.began < scan.2 ∧ scan.2 < e.ended) ∧
    (∀ r, r ∈ e.rows ↔ e.call.query.test r = true ∧ ∃ x ∈ s.stored, x.record = r ∧
      ∃ time, (tableBucketIndexForId r.id, time) ∈ e.scans ∧ x.time < time) ∧
    ((∀ x ∈ s.stored, e.call.query.test x.record = true →
        (∀ scan ∈ e.scans, x.time < scan.2) ∨ ∀ scan ∈ e.scans, scan.2 ≤ x.time) →
      Snapshot s.toHistory e) := by
  have hok := (inv_of_run h).selects e he
  have hbuckets : e.scans.map Prod.fst = List.finRange tableBucketCount := by
    rw [hok.buckets]
    unfold Query.buckets
    split
    · rename_i key heq
      exact absurd heq (hquery key)
    · rfl
  refine ⟨⟨hbuckets, hok.scanned.times, fun scan hscan =>
    ⟨hok.scanned.after scan hscan, hok.scanned.before scan hscan⟩⟩, fun r => hok.mem_rows, ?_⟩
  intro hquiet
  -- the time of any of the scans will do
  obtain ⟨⟨b, time⟩, hscan⟩ : ∃ scan, scan ∈ e.scans := by
    have hne : e.scans ≠ [] := by
      intro hnil
      rw [hnil] at hbuckets
      exact absurd hbuckets (by decide)
    exact List.exists_mem_of_ne_nil _ hne
  refine ⟨time, (hok.scanned.after _ hscan).le, (hok.scanned.before _ hscan).le, fun r => ?_⟩
  rw [hok.mem_rows]
  constructor
  · rintro ⟨htest, x, hx, rfl, time', hscan', htime'⟩
    refine ⟨htest, x, hx, ?_, rfl⟩
    rcases hquiet x hx htest with hall | hall
    · exact hall _ hscan
    · exact absurd htime' (not_lt.mpr (hall _ hscan'))
  · rintro ⟨htest, x, hx, htime, rfl⟩
    have hbucket : tableBucketIndexForId x.record.id ∈ e.scans.map Prod.fst := by
      rw [hbuckets]
      exact List.mem_finRange _
    obtain ⟨⟨b', time'⟩, hscan', heq⟩ := List.mem_map.mp hbucket
    dsimp only at heq
    subst heq
    refine ⟨htest, x, hx, rfl, time', hscan', ?_⟩
    rcases hquiet x hx htest with hall | hall
    · exact hall _ hscan'
    · exact absurd htime (not_lt.mpr (hall _ hscan))

/-- A lookup reads the buckets 0 and 1; then one row after the other is stored, in the buckets 1 and
2, the second by a call that begins when the first one has been answered; then the lookup goes
on. -/
def overtakingRun : List (Action 2) :=
  let first : Fin 2 := ⟨0, Nat.zero_lt_two⟩
  let second : Fin 2 := ⟨1, Nat.one_lt_two⟩
  [.call first (.select .all), .advance first, .advance first,
    .call second (.insert [97] 1), .advance second, .advance second, .advance second,
    .call second (.insert [98] 2), .advance second, .advance second, .advance second] ++
  List.replicate 16 (.advance first)

theorem overtakingRun_spec :
    ∃ s, (start 2).run overtakingRun = some s ∧
      s.stored = [⟨5, 0, ⟨1, [97], 1⟩⟩, ⟨9, 1, ⟨2, [98], 2⟩⟩] ∧
      s.inserts = [⟨⟨[97], 1, 3⟩, 1, 6⟩, ⟨⟨[98], 2, 7⟩, 2, 10⟩] ∧
      ∃ e, s.selects = [e] ∧ e.call = ⟨.all, 0⟩ ∧ e.rows = [⟨2, [98], 2⟩] := by
  have hrun : ((start 2).run overtakingRun).map (fun s => (s.stored, s.inserts,
      s.selects.map fun e => (e.call, e.rows))) = some
      ([⟨5, 0, ⟨1, [97], 1⟩⟩, ⟨9, 1, ⟨2, [98], 2⟩⟩], [⟨⟨[97], 1, 3⟩, 1, 6⟩, ⟨⟨[98], 2, 7⟩, 2, 10⟩],
        [(⟨.all, 0⟩, [⟨2, [98], 2⟩])]) := by
    decide
  obtain ⟨s, hs, heq⟩ := Option.map_eq_some_iff.mp hrun
  simp only [Prod.mk.injEq] at heq
  obtain ⟨hstored, hinserts, hselects⟩ := heq
  obtain ⟨e, hsel, hcall⟩ := List.map_eq_singleton_iff.mp hselects
  obtain ⟨hquery, hrows⟩ := Prod.mk.inj hcall
  exact ⟨s, hs, hstored, hinserts, e, hsel, hquery, hrows⟩

/-- The answer has the second row without the first, so that it is no snapshot. -/
theorem select_is_no_snapshot :
    ∃ s, (start 2).run overtakingRun = some s ∧ ∃ e ∈ s.selects, e.call.query = .all ∧
      ¬ Snapshot s.toHistory e ∧
      ∃ a ∈ s.inserts, ∃ a' ∈ s.inserts, a.ended < a'.call.began ∧
        storedRecord a'.id a'.call.name a'.call.age ∈ e.rows ∧
        storedRecord a.id a.call.name a.call.age ∉ e.rows := by
  obtain ⟨s, hs, hstored, hinserts, e, hsel, hcall, hrows⟩ := overtakingRun_spec
  refine ⟨s, hs, e, by rw [hsel]; exact List.mem_singleton_self e, by rw [hcall], ?_,
    ⟨⟨[97], 1, 3⟩, 1, 6⟩, by rw [hinserts]; simp, ⟨⟨[98], 2, 7⟩, 2, 10⟩, by rw [hinserts]; simp,
    by decide, by rw [hrows]; decide, by rw [hrows]; decide⟩
  rintro ⟨time, -, -, hiff⟩
  have hsecond : (⟨2, [98], 2⟩ : Record) ∈ e.rows := by rw [hrows]; decide
  have hfirst : (⟨1, [97], 1⟩ : Record) ∉ e.rows := by rw [hrows]; decide
  obtain ⟨-, x, hx, htime, hrecord⟩ := (hiff _).mp hsecond
  have hlate : 9 < time := by
    rw [hstored] at hx
    simp only [List.mem_cons, List.not_mem_nil, or_false] at hx
    rcases hx with rfl | rfl
    · cases hrecord
    · exact htime
  refine hfirst ((hiff _).mpr ⟨by rw [hcall]; rfl, ⟨5, 0, ⟨1, [97], 1⟩⟩, ?_, ?_, rfl⟩)
  · rw [hstored]
    simp
  · exact lt_trans (by decide) hlate

/-- The instants of that lookup. -/
theorem select_reads_buckets_overtaking :
    ∃ s, (start 2).run overtakingRun = some s ∧ ∃ e ∈ s.selects,
      e.scans.map Prod.fst = List.finRange tableBucketCount ∧
      (e.scans.map Prod.snd).Pairwise (· < ·) := by
  obtain ⟨s, hs, -, -, e, hsel, hcall, -⟩ := overtakingRun_spec
  have he : e ∈ s.selects := by
    rw [hsel]
    exact List.mem_singleton_self e
  have hquery : ∀ key, e.call.query ≠ .id .eq key := by
    intro key
    rw [hcall]
    exact nofun
  obtain ⟨⟨hbuckets, htimes, -⟩, -, -⟩ := select_reads_buckets hs he hquery
  exact ⟨s, hs, e, he, hbuckets, htimes⟩

/-- Its row is complete. -/
theorem select_guarantees_overtaking :
    ∃ s, (start 2).run overtakingRun = some s ∧ ∃ e ∈ s.selects, ∃ r ∈ e.rows,
      ∃ call, (call, r.id) ∈ s.issued ∧ r = storedRecord r.id call.name call.age := by
  obtain ⟨s, hs, -, -, e, hsel, -, hrows⟩ := overtakingRun_spec
  have he : e ∈ s.selects := by
    rw [hsel]
    exact List.mem_singleton_self e
  have hr : (⟨2, [98], 2⟩ : Record) ∈ e.rows := by rw [hrows]; decide
  obtain ⟨-, hcomplete, -⟩ := select_guarantees hs he
  obtain ⟨-, -, call, hcall, heq⟩ := hcomplete _ hr
  exact ⟨s, hs, e, he, _, hr, call, hcall, heq⟩

end MiniDbms
