import MiniDbms.Sql.Equiv.Select

/-!
# The answer to a SELECT, whatever fails

When memory runs out, a SELECT is all or nothing (`sqlExecutePlan_allOrNothing_iff`): it gives the
complete answer or none, and every array that it takes is freed once.  When a lock call fails it is
an error, but for `WHERE id = k`, which then reports that there is no such row
(`sqlExecutePlan_notFound_iff`).

Both need that the index of a bucket leads to its rows.  It does as long as no INSERT has cut an
index (`IndexFinds`); an index that has lost a row makes `WHERE id = k` overlook it.
-/

namespace MiniDbms

open CString ListDatabase TableMemory

/-! ### Stored rows -/

/-- The stored rows that a command asks for. -/
def TableMemory.matching (m : TableMemory) (command : SQLCommand) : List RecordPtr :=
  m.rows.filter fun p => (m.record p).any fun r => Selects command r

/-- The stored rows with an ID. -/
def TableMemory.withId (m : TableMemory) (id : ℤ) : List RecordPtr :=
  m.rows.filter fun p => (m.record p).any fun r => r.id = id

/-- What the index of its bucket has under an ID. -/
def TableMemory.indexed (m : TableMemory) (id : ℤ) : Option (Option RecordPtr) :=
  bptreeSearch (m.buckets (tableBucketIndexForId id)).pkIndex id

/-- The index leads to the stored row with the ID, or to none when there is none. -/
def TableMemory.IndexFinds (m : TableMemory) (id : ℤ) : Prop :=
  ∃ p, m.indexed id = some p ∧ p.toList = m.withId id

/-- The index has lost the stored row with the ID. -/
def TableMemory.Overlooks (m : TableMemory) (id : ℤ) : Prop :=
  m.indexed id = some none ∧ m.withId id ≠ []

section Stored

variable {m : TableMemory} {command : SQLCommand} {rs : Rows}

theorem matching_of_testsId (htest : command.TestsId) :
    m.matching command = m.withId command.intValue := by
  unfold matching withId
  simp only [Selects, htest.1, htest.2, TableComparison.Holds]

theorem TableMemory.HoldsRows.filter_rows (hs : m.HoldsRows rs) (test : Record → Bool) :
    (m.rows.filter fun p => (m.record p).any test) =
      (rs.all.filter fun e => test e.2).map Prod.fst := by
  rw [hs.rows_eq]
  exact filter_record (fun e he => hs.record_all he) test

/-- A scan has the matching rows, in ascending order of their IDs. -/
theorem TableMemory.HoldsRows.scan (hs : m.HoldsRows rs) (test : Record → Bool) :
    (((sortRows rs.all).filter fun e => test e.2).map Prod.fst).Perm
        (m.rows.filter fun p => (m.record p).any test) ∧
      ∃ records, m.recordsAt (((sortRows rs.all).filter fun e => test e.2).map Prod.fst) =
        some records ∧ records.Pairwise fun left right => left.id ≤ right.id := by
  constructor
  · rw [hs.filter_rows]
    exact ((List.perm_insertionSort _ _).filter _).map _
  · refine ⟨_, recordsAt_map fun e he => ?_, ?_⟩
    · exact hs.record_all ((List.mem_insertionSort _).mp (List.mem_of_mem_filter he))
    · rw [List.pairwise_map]
      exact (pairwise_sortRows _).filter _

/-- An index that has all the rows finds them. -/
theorem TableMemory.Stores.indexFinds (hs : m.Stores rs) (id : ℤ) : m.IndexFinds id := by
  obtain ⟨p, hp, hiff⟩ := hs.search (tableBucketIndexForId id) id
  refine ⟨p, hp, ?_⟩
  have hmem : ∀ q, q ∈ m.withId id ↔ p = some q := by
    intro q
    rw [withId, hs.holdsRows.filter_rows, List.mem_map, hiff]
    constructor
    · rintro ⟨⟨q, r⟩, he, rfl⟩
      obtain ⟨he, hid⟩ := List.mem_filter.mp he
      obtain ⟨b, hb⟩ := Rows.mem_all.mp he
      have hid := of_decide_eq_true hid
      refine ⟨r, ?_, hid⟩
      rwa [← hid, hs.bucket b _ hb]
    · rintro ⟨r, hr, hid⟩
      exact ⟨(q, r), List.mem_filter.mpr ⟨Rows.mem_all.mpr ⟨_, hr⟩, decide_eq_true hid⟩, rfl⟩
  have hnodup : (m.withId id).Nodup := by
    have hids : (m.rows.map fun q => (m.record q).map Record.id).Nodup := by
      have hrows : m.rows.map (fun q => (m.record q).map Record.id) =
          (rs.all.map fun e => e.2.id).map some := by
        rw [hs.rows_eq, List.map_map, List.map_map]
        exact List.map_congr_left fun e he => by rw [Function.comp_apply, hs.record_all he]; rfl
      rw [hrows]
      exact hs.nodup_all.map (Option.some_injective ℤ)
    exact (List.Nodup.of_map _ hids).filter _
  cases p with
  | none =>
    rw [List.eq_nil_iff_forall_not_mem.mpr fun q hq => Option.some_ne_none q ((hmem q).mp hq).symm]
    rfl
  | some q =>
    refine (List.perm_singleton.mp ((List.perm_ext_iff_of_nodup hnodup ?_).mpr fun q' => ?_)).symm
    · exact List.nodup_singleton q
    · rw [hmem, Option.some_inj, List.mem_singleton, eq_comm]

end Stored

/-! ### All or nothing -/

/-- The complete answer: every matching row, in ascending order of the IDs. -/
structure Complete (m : TableMemory) (command : SQLCommand) (result : SQLResult) : Prop where
  rows : result.records.rows.Perm (m.matching command)
  sorted : ∃ records, m.recordsAt result.records.rows = some records ∧
    records.Pairwise fun left right => left.id ≤ right.id
  record : result.record = result.records.rows.head?
  rowCount : result.rowCount = result.records.rows.length
  status : result.status = if m.matching command = [] then .notFound else .ok
  action : result.action = .selectRows

/-- An error, without any row. -/
structure NoAnswer (result : SQLResult) : Prop where
  status : result.status = .error
  records : result.records = .empty
  record : result.record = none
  rowCount : result.rowCount = 0

/-- What a SELECT leaves behind, before and after its result is destroyed. -/
structure CleanedUp (m m' : TableMemory) (result : SQLResult) : Prop where
  table : m'.toTable = m.toTable
  records : m'.records = m.records
  held : m'.held = []
  /-- Every array was freed once, or belongs to the result. -/
  owns : m'.Owns result.records.ptr.toList
  /-- Then every array was freed once. -/
  destroyed : (sqlResultDestroy m' result).1.Owns []
  /-- Nothing is left to be freed. -/
  again : sqlResultDestroy (sqlResultDestroy m' result).1 (sqlResultDestroy m' result).2 =
    sqlResultDestroy m' result

/-- The command gives the complete answer or none, and cleans up. -/
def AllOrNothing (m : TableMemory) (command : SQLCommand) : Prop :=
  ∃ m' result, sqlExecutePlan m command = some (m', result) ∧
    (Complete m command result ∨ NoAnswer result) ∧ CleanedUp m m' result

section AllOrNothing

variable {m m' : TableMemory} {command : SQLCommand}

theorem complete_selectResult {records : RecordArray}
    (hrows : records.rows.Perm (m.matching command))
    (hsorted : ∃ rs, m.recordsAt records.rows = some rs ∧
      rs.Pairwise fun left right => left.id ≤ right.id) :
    Complete m command (selectResult true records) := by
  refine ⟨hrows, hsorted, rfl, rfl, ?_, rfl⟩
  have hempty : records.rows.length = 0 ↔ m.matching command = [] := by
    rw [hrows.length_eq, List.length_eq_zero_iff]
  rw [status_selectResult, if_pos rfl]
  simp only [hempty]

theorem noAnswer_selectResult : NoAnswer (selectResult false .empty) := ⟨rfl, rfl, rfl, rfl⟩

theorem cleanedUp (hm : Kept m) (hselect : command.IsSelect) {result : SQLResult}
    (h : sqlExecutePlan m command = some (m', result)) : CleanedUp m m' result := by
  have htype : command.type ≠ .insert := by
    intro htype
    rcases hselect with h | h | h | h <;> rw [htype] at h <;> cases h
  obtain ⟨⟨used, honly⟩, howns⟩ := sqlExecutePlan_leaves htype h
  have howned := howns [] hm.owns
  refine ⟨honly.toTable, honly.records, honly.held.trans hm.unlocked.held, ?_, howned.free, rfl⟩
  rwa [List.append_nil] at howned

/-- With rows in the arrays, a SELECT is all or nothing when it scans or the index finds the row. -/
theorem allOrNothing_of_finds (hm : Kept m) (hselect : command.IsSelect)
    (hfinds : command.TestsId → m.IndexFinds command.intValue) : AllOrNothing m command := by
  obtain ⟨rs, hs⟩ := hm.formed
  obtain ⟨ok, m', records, hrows, hrun⟩ := sqlExecutePlan_selects hs hselect
  refine ⟨m', _, hrun, ?_, cleanedUp hm hselect hrun⟩
  by_cases htest : command.TestsId
  · have hindex := sqlSelectRows_indexScanned htest hrows
    have hnext : m.nextLock = [] := by rw [nextLock, hm.unlocked.lockResults]; rfl
    obtain ⟨p, hp, hcases⟩ := hindex.granted (by simp [hnext])
    obtain ⟨p', hp', hfound⟩ := hfinds htest
    obtain rfl : p' = p := Option.some.inj (hp'.symm.trans hp)
    rcases hcases with ⟨rfl, hrecords⟩ | ⟨rfl, rfl, -⟩
    · left
      have hmatching : records.rows = m.matching command := by
        rw [hrecords, hfound, matching_of_testsId htest]
      refine complete_selectResult (List.Perm.of_eq hmatching) ?_
      have hrecord : ∀ q ∈ records.rows, ∃ r, m.record q = some r := by
        intro q hq
        rw [hmatching] at hq
        exact Option.isSome_iff_exists.mp (Option.isSome_of_any (List.mem_filter.mp hq).2)
      obtain ⟨found, hfound'⟩ := exists_recordsAt hrecord
      refine ⟨found, hfound', ?_⟩
      -- one row at most
      have hlength : found.length ≤ 1 := by
        rw [← length_recordsAt hfound', hrecords]
        exact Option.length_toList_le
      rcases found with _ | ⟨r, _ | ⟨r', found⟩⟩
      · exact .nil
      · exact List.pairwise_singleton _ r
      · simp at hlength
    · exact Or.inr noAnswer_selectResult
  · have hscanned := sqlSelectRows_scanned hselect htest hrows
    cases ok with
    | true =>
      obtain ⟨hperm, hsorted⟩ := hs.toHoldsRows.scan fun r => Selects command r
      rw [← hscanned.rows rfl rs hs.toHoldsRows] at hperm hsorted
      exact Or.inl (complete_selectResult hperm hsorted)
    | false =>
      rw [hscanned.empty rfl]
      exact Or.inr noAnswer_selectResult

/-- With memory, an equality test of the ID is complete only when the index finds the row. -/
theorem AllOrNothing.indexFinds (hm : Kept m) (hallocs : m.allocs = []) (htest : command.TestsId)
    (h : AllOrNothing m command) : m.IndexFinds command.intValue := by
  obtain ⟨m', result, hrun, hanswer, -⟩ := h
  rw [sqlExecutePlan_select (Or.inr (Or.inl htest.1))] at hrun
  obtain ⟨⟨ok, m₁, records⟩, hrows, hrun⟩ := Option.map_eq_some_iff.mp hrun
  cases hrun
  have hindex := sqlSelectRows_indexScanned htest hrows
  have hnext : m.nextLock = [] := by rw [nextLock, hm.unlocked.lockResults]; rfl
  obtain ⟨p, hp, hcases⟩ := hindex.granted (by simp [hnext])
  rcases hcases with ⟨rfl, hrecords⟩ | ⟨rfl, rfl, -, hrefused⟩
  · rcases hanswer with hcomplete | hnone
    · refine ⟨p, hp, ?_⟩
      have hperm : p.toList.Perm (m.withId command.intValue) := by
        rw [← matching_of_testsId htest, ← hrecords]
        exact hcomplete.rows
      cases p with
      | none => exact hperm.nil_eq
      | some q => exact (List.perm_singleton.mp hperm.symm).symm
    · have hstatus := hnone.status
      rw [status_selectResult, if_pos rfl] at hstatus
      split_ifs at hstatus
  · rw [hallocs] at hrefused
    cases hrefused

/-- **A SELECT is all or nothing**, on every reachable table and whatever allocations fail, except
that `WHERE id = k` needs an index that leads to the row with the ID `k`.  The index does unless an
INSERT has cut it. -/
theorem sqlExecutePlan_allOrNothing_iff (h : ReachedBy AnyStatement m)
    (hselect : command.IsSelect) :
    ((∀ allocs, AllOrNothing { m with allocs := allocs } command) ↔
        (command.TestsId → m.IndexFinds command.intValue)) ∧
      (ReachedBy NeverCuts m → ∀ id, m.IndexFinds id) := by
  refine ⟨⟨fun hall htest => ?_, fun hfinds allocs => ?_⟩, fun hnever id => ?_⟩
  · exact AllOrNothing.indexFinds (m := { m with allocs := [] }) (h.allocs []).kept rfl htest
      (hall [])
  · exact allOrNothing_of_finds (h.allocs allocs).kept hselect hfinds
  · obtain ⟨rs, hs⟩ := hnever.stores
    exact hs.indexFinds id

/-- A new table with one row. -/
theorem exists_reachedBy_row : ∃ m, ReachedBy NeverCuts m ∧ m.rows = [0] ∧ m.withId 1 = [0] := by
  have hruns : ((sqlExecutePlan (.start [] [])
      (sqlParse (ascii "INSERT INTO users VALUES ('kim', 30)")).2.command).bind fun r =>
        some ((sqlResultDestroy r.1 r.2).1.rows, (sqlResultDestroy r.1 r.2).1.withId 1)) =
      some ([0], [0]) := by
    decide
  obtain ⟨⟨m, result⟩, hrun, hrows⟩ := Option.bind_eq_some_iff.mp hruns
  obtain ⟨hrows, hwith⟩ := Prod.mk.inj (Option.some.inj hrows)
  have hnever : NeverCuts (.start [] []) (sqlParse
      (ascii "INSERT INTO users VALUES ('kim', 30)")).2.command := by
    rintro ⟨-, -, i, -, hrefused⟩
    exact hrefused rfl
  exact ⟨_, .execute .start hnever hrun, hrows, hwith⟩

/-- A row is found by its ID, or the answer is an error. -/
theorem allOrNothing_row : ∃ m : TableMemory, m.withId 1 = [0] ∧
    ∀ allocs, AllOrNothing { m with allocs := allocs }
      (sqlParse (ascii "SELECT * FROM users WHERE id = 1")).2.command := by
  obtain ⟨m, hnever, -, hwith⟩ := exists_reachedBy_row
  have hm : ReachedBy AnyStatement m := hnever.mono fun _ _ _ => trivial
  have hselect : (sqlParse (ascii "SELECT * FROM users WHERE id = 1")).2.command.IsSelect :=
    Or.inr (Or.inl (by decide))
  obtain ⟨hiff, hfinds⟩ := sqlExecutePlan_allOrNothing_iff hm hselect
  exact ⟨m, hwith, hiff.mpr fun _ => hfinds hnever _⟩

/-- Three rows in one bucket, and a fourth whose INSERT gets the first node for the index of the
bucket and not the second: the third is stored, but not found by its ID. -/
theorem not_allOrNothing_cut : ∃ m m' result, ReachedBy AnyStatement m ∧ m.withId 33 = [2] ∧
    sqlExecutePlan m (sqlParse (ascii "SELECT * FROM users WHERE id = 33")).2.command =
      some (m', result) ∧ result.status = .notFound ∧
    ¬ AllOrNothing m (sqlParse (ascii "SELECT * FROM users WHERE id = 33")).2.command := by
  have hruns : (do
      let m ← insertAll (sqlParse (ascii "INSERT INTO users VALUES ('kim', 30)")).2.command
        (.start [] []) ((List.range 49).map fun i =>
          if i = 48 then [true, true, false] else if i % 16 = 0 then [] else [false])
      let answer ← sqlExecutePlan m
        (sqlParse (ascii "SELECT * FROM users WHERE id = 33")).2.command
      some (m.withId 33, m.indexed 33, m.allocs, answer.2.status)) =
        some ([2], some none, [], .notFound) := by
    decide +kernel
  obtain ⟨m, hinsert, hruns⟩ := Option.bind_eq_some_iff.mp hruns
  obtain ⟨⟨m', result⟩, hrun, hruns⟩ := Option.bind_eq_some_iff.mp hruns
  simp only [Option.some_inj, Prod.mk.injEq] at hruns
  obtain ⟨hwith, hindexed, hallocs, hstatus⟩ := hruns
  have hm := ReachedBy.start.insertAll hinsert
  refine ⟨m, m', result, hm, hwith, hrun, hstatus, fun hall => ?_⟩
  have htest : (sqlParse (ascii "SELECT * FROM users WHERE id = 33")).2.command.TestsId :=
    ⟨by decide, by decide⟩
  have hid : (sqlParse (ascii "SELECT * FROM users WHERE id = 33")).2.command.intValue = 33 := by
    decide
  obtain ⟨p, hp, hfound⟩ := hall.indexFinds hm.kept hallocs htest
  rw [hid] at hp hfound
  rw [hindexed] at hp
  cases hp
  rw [hwith] at hfound
  cases hfound

end AllOrNothing

/-! ### Not found -/

/-- A lock call between `m` and `m'` has failed. -/
def LockFailed (m m' : TableMemory) : Prop :=
  ∃ used, m.lockResults = used ++ m'.lockResults ∧ false ∈ used

/-- The command reports that nothing was found only when nothing matches, and a failed lock call is
an error. -/
def ToldNotFound (m : TableMemory) (command : SQLCommand) : Prop :=
  ∃ m' result, sqlExecutePlan m command = some (m', result) ∧
    (result.status = .notFound → m.matching command = []) ∧
    (LockFailed m m' → result.status = .error)

section NotFound

variable {m m' : TableMemory} {command : SQLCommand}

/-- The lock calls that were made are those whose outcomes are gone. -/
theorem TableMemory.LookupOnly.lockFailed_iff {used : List Bool} (h : m.LookupOnly used m') :
    LockFailed m m' ↔ false ∈ used := by
  constructor
  · rintro ⟨used', hused, hmem⟩
    rwa [List.append_cancel_right (h.1.symm.trans hused)]
  · exact fun hmem => ⟨used, h.1, hmem⟩

theorem nextLock_refused : false ∈ m.nextLock ↔ m.lockResults.head? = some false := by
  unfold nextLock
  cases m.lockResults with
  | nil => simp
  | cons outcome rest => simp [eq_comm]

/-- A scan never takes a failed lock call for rows that are not there. -/
theorem toldNotFound_of_scan {rs : Rows} (hs : m.Formed rs) (hselect : command.IsSelect)
    (htest : ¬ command.TestsId) : ToldNotFound m command := by
  obtain ⟨ok, m', records, hrows, hrun⟩ := sqlExecutePlan_selects hs hselect
  have hscanned := sqlSelectRows_scanned hselect htest hrows
  obtain ⟨used, honly, hgranted⟩ := hscanned.only
  refine ⟨m', _, hrun, fun hstatus => ?_, fun hfailed => ?_⟩
  · cases ok with
    | false => cases hstatus
    | true =>
      obtain ⟨hperm, -⟩ := hs.toHoldsRows.scan fun r => Selects command r
      rw [← hscanned.rows rfl rs hs.toHoldsRows] at hperm
      rw [status_selectResult, if_pos rfl] at hstatus
      split_ifs at hstatus with hempty
      rw [List.length_eq_zero_iff.mp hempty] at hperm
      exact hperm.nil_eq.symm
  · cases ok with
    | false => rfl
    | true => cases hgranted rfl false (honly.lockFailed_iff.mp hfailed)

/-- An equality test of the ID takes a failed lock call, and a row that the index has lost, for a
row that is not there. -/
theorem toldNotFound_testsId_iff {rs : Rows} (hs : m.Formed rs) (htest : command.TestsId) :
    ToldNotFound m command ↔
      ¬ (m.lockResults.head? = some false ∨ m.Overlooks command.intValue) := by
  obtain ⟨⟨ok, m', records⟩, hrows⟩ := sqlSelectRows_total hs command
  have hrun : sqlExecutePlan m command = some (m', selectResult ok records) := by
    rw [sqlExecutePlan_select (Or.inr (Or.inl htest.1)), hrows]
    rfl
  have hindex := sqlSelectRows_indexScanned htest hrows
  have htold : ToldNotFound m command ↔
      ((selectResult ok records).status = .notFound → m.matching command = []) ∧
        (LockFailed m m' → (selectResult ok records).status = .error) := by
    constructor
    · rintro ⟨m₁, result, hrun', h⟩
      rw [hrun] at hrun'
      cases hrun'
      exact h
    · exact fun h => ⟨m', _, hrun, h⟩
  rw [htold, hindex.only.lockFailed_iff, nextLock_refused, status_selectResult]
  by_cases hrefused : m.lockResults.head? = some false
  · obtain ⟨rfl, rfl⟩ := hindex.overlooked (nextLock_refused.mpr hrefused)
    refine iff_of_false (fun h => ?_) fun h => h (Or.inl hrefused)
    cases h.2 hrefused
  · have hgranted : ∀ outcome ∈ m.nextLock, outcome = true := by
      intro outcome hmem
      cases outcome with
      | true => rfl
      | false => exact absurd (nextLock_refused.mp hmem) hrefused
    obtain ⟨p, hp, hcases⟩ := hindex.granted hgranted
    have hindexed : m.indexed command.intValue = some p := hp
    simp only [hrefused, false_or, false_implies, and_true, Overlooks, hindexed, Option.some_inj,
      matching_of_testsId htest]
    rcases hcases with ⟨rfl, hrecords⟩ | ⟨rfl, -, hne, -⟩
    · cases p with
      | none => simp [hrecords]
      | some q => simp [hrecords]
    · simp [hne]

/-- **A SELECT says that it has found nothing only when nothing matches, and a failed lock call is
an error**, on every reachable table, except for `WHERE id = k` when its lock call fails or the
index has lost the row; the latter only after an INSERT has cut the index. -/
theorem sqlExecutePlan_notFound_iff (h : ReachedBy AnyStatement m) (hselect : command.IsSelect)
    (lockResults : List Bool) :
    (ToldNotFound { m with lockResults := lockResults } command ↔
        ¬ (command.TestsId ∧ (lockResults.head? = some false ∨ m.Overlooks command.intValue))) ∧
      (ReachedBy NeverCuts m → ∀ id, ¬ m.Overlooks id) := by
  constructor
  · obtain ⟨rs, hs⟩ := h.kept.formed
    have hs' : ({ m with lockResults := lockResults } : TableMemory).Formed rs :=
      ⟨⟨hs.rows, hs.capacity, hs.record, hs.bucket⟩, hs.index⟩
    by_cases htest : command.TestsId
    · rw [toldNotFound_testsId_iff hs' htest]
      exact not_congr ⟨fun h => ⟨htest, h⟩, And.right⟩
    · exact iff_of_true (toldNotFound_of_scan hs' hselect htest) fun h => htest h.1
  · rintro hnever id ⟨hnone, hsome⟩
    obtain ⟨rs, hs⟩ := hnever.stores
    obtain ⟨p, hp, hfound⟩ := hs.indexFinds id
    rw [hp] at hnone
    cases hnone
    exact hsome hfound.symm

/-- With its lock, the lookup of an ID reports no stored row as not found. -/
theorem toldNotFound_row : ∃ m : TableMemory, m.withId 1 = [0] ∧
    ToldNotFound { m with lockResults := [true] }
      (sqlParse (ascii "SELECT * FROM users WHERE id = 1")).2.command := by
  obtain ⟨m, hnever, -, hwith⟩ := exists_reachedBy_row
  have hm : ReachedBy AnyStatement m := hnever.mono fun _ _ _ => trivial
  have hselect : (sqlParse (ascii "SELECT * FROM users WHERE id = 1")).2.command.IsSelect :=
    Or.inr (Or.inl (by decide))
  obtain ⟨hiff, hfinds⟩ := sqlExecutePlan_notFound_iff hm hselect [true]
  refine ⟨m, hwith, hiff.mpr ?_⟩
  rintro ⟨-, hrefused | hover⟩
  · cases hrefused
  · exact hfinds hnever _ hover

/-- Without its lock, the lookup of an ID reports a stored row as not found. -/
theorem not_toldNotFound_row : ∃ m m' result, ReachedBy NeverCuts m ∧ m.withId 1 = [0] ∧
    sqlExecutePlan { m with lockResults := [false] }
      (sqlParse (ascii "SELECT * FROM users WHERE id = 1")).2.command = some (m', result) ∧
    result.status = .notFound ∧ ¬ ToldNotFound { m with lockResults := [false] }
      (sqlParse (ascii "SELECT * FROM users WHERE id = 1")).2.command := by
  obtain ⟨m, hm, -, hwith⟩ := exists_reachedBy_row
  obtain ⟨rs, hs⟩ := hm.kept.formed
  have htest : (sqlParse (ascii "SELECT * FROM users WHERE id = 1")).2.command.TestsId :=
    ⟨by decide, by decide⟩
  set m₁ : TableMemory := { m with lockResults := [false] } with hm₁
  have hs₁ : m₁.Formed rs := ⟨⟨hs.rows, hs.capacity, hs.record, hs.bucket⟩, hs.index⟩
  obtain ⟨⟨ok, m', records⟩, hrows⟩ := sqlSelectRows_total hs₁
    (sqlParse (ascii "SELECT * FROM users WHERE id = 1")).2.command
  obtain ⟨rfl, rfl⟩ := (sqlSelectRows_indexScanned htest hrows).overlooked
    (nextLock_refused.mpr rfl)
  refine ⟨m, m', selectResult true .empty, hm, hwith, ?_, rfl, ?_⟩
  · rw [sqlExecutePlan_select (Or.inr (Or.inl htest.1)), hrows]
    rfl
  · exact fun htold => (toldNotFound_testsId_iff hs₁ htest).mp htold (Or.inl rfl)

end NotFound

end MiniDbms
