import MiniDbms.Sql.Equiv.Execute
import MiniDbms.Table.Equiv.Ownership

/-!
# A SELECT, whatever fails

Every lock call and every request for memory of a SELECT can fail.  It changes nothing in the table
(`sqlExecutePlan_leaves`).  A SELECT that scans finds all rows that match, or there is no array
(`sqlSelectRows_scanned`); `WHERE id = k` has what the index leads to, and a failed lock call passes
for a row that is not there (`sqlSelectRows_indexScanned`).

`ReachedBy` are the tables that statements reach, whatever allocations fail; the index of a bucket
may have lost rows there.
-/

namespace MiniDbms

open CArray ListDatabase TableMemory

/-! ### How the lookup of a SELECT ends -/

/-- `SELECT` -/
def SQLCommand.IsSelect (command : SQLCommand) : Prop :=
  command.type = .selectAll ∨ command.type = .selectById ∨ command.type = .selectByName ∨
    command.type = .selectByAge

/-- The other commands. -/
theorem SQLCommand.type_of_not_isSelect {command : SQLCommand} (h : ¬ command.IsSelect) :
    command.type = .none ∨ command.type = .exit ∨ command.type = .insert := by
  unfold SQLCommand.IsSelect at h
  cases htype : command.type <;> simp_all

/-- `WHERE id = k`, the one condition that is answered from the index. -/
def SQLCommand.TestsId (command : SQLCommand) : Prop :=
  command.type = .selectById ∧ command.comparison = .eq

section Lookups

variable {m m' : TableMemory} {command : SQLCommand} {ok : Bool} {records : RecordArray}

theorem sqlSelectRows_scanned (hselect : command.IsSelect) (hscan : ¬ command.TestsId)
    (h : sqlSelectRows m command = some (ok, m', records)) :
    Scanned m (fun rs => (sortRows rs.all).filter fun e => Selects command e.2) ok m' records := by
  have hmatches : ∀ {test : Record → Bool}, (∀ r, decide (Selects command r) = test r) →
      tableFindMatches m test = some (ok, m', records) →
      Scanned m (fun rs => (sortRows rs.all).filter fun e => Selects command e.2) ok m'
        records := by
    intro test htest h
    simp only [htest]
    exact tableFindMatches_scanned h
  unfold sqlSelectRows at h
  rcases hselect with htype | htype | htype | htype <;> rw [htype] at h <;> dsimp only at h
  · have hall : ∀ es : List Row, (es.filter fun e => Selects command e.2) = es := fun es =>
      List.filter_eq_self.mpr fun e _ => by simp [Selects, htype]
    simp only [hall]
    exact tableCollectAllSorted_scanned h
  · rw [tableFindByIdCondition, if_neg fun heq => hscan ⟨htype, heq⟩] at h
    refine hmatches (fun r => ?_) h
    simp only [Selects, htype, tableCompareInt_eq]
  · refine hmatches (fun r => ?_) h
    simp only [Selects, htype]
  · refine hmatches (fun r => ?_) h
    simp only [Selects, htype, tableCompareInt_eq]

theorem sqlSelectRows_indexScanned (htest : command.TestsId)
    (h : sqlSelectRows m command = some (ok, m', records)) :
    IndexScanned m command.intValue ok m' records := by
  unfold sqlSelectRows at h
  rw [htest.1] at h
  dsimp only at h
  rw [htest.2] at h
  exact tableFindByIdCondition_indexScanned h

/-- The lookup of a SELECT ends. -/
theorem sqlSelectRows_total {rs : Rows} (hs : m.Formed rs) (command : SQLCommand) :
    ∃ found, sqlSelectRows m command = some found := by
  obtain ⟨t, ht⟩ := hs.index (tableBucketIndexForId command.intValue)
  unfold sqlSelectRows
  cases command.type with
  | selectAll => exact tableCollectAllSorted_total hs.toHoldsRows
  | selectById => exact tableFindByIdCondition_total hs.toHoldsRows _ (bptreeSearch_eq ht _)
  | selectByName => exact tableFindMatches_total hs.toHoldsRows _
  | selectByAge => exact tableFindMatches_total hs.toHoldsRows _
  | none => exact ⟨_, rfl⟩
  | insert => exact ⟨_, rfl⟩
  | exit => exact ⟨_, rfl⟩

/-- Other statements look nothing up. -/
theorem sqlSelectRows_of_not (hselect : ¬ command.IsSelect) (m : TableMemory) :
    sqlSelectRows m command = some (false, m, .empty) := by
  unfold sqlSelectRows
  rcases SQLCommand.type_of_not_isSelect hselect with htype | htype | htype
  all_goals rw [htype]

/-- What a lookup leaves: the table as it was, and one array at most. -/
theorem sqlSelectRows_leaves (h : sqlSelectRows m command = some (ok, m', records)) :
    (∃ used, m.LookupOnly used m') ∧
      ∀ owned, m.Owns owned → m'.Owns (records.ptr.toList ++ owned) := by
  by_cases hselect : command.IsSelect
  · by_cases htest : command.TestsId
    · have hindex := sqlSelectRows_indexScanned htest h
      exact ⟨⟨_, hindex.only⟩, hindex.owns⟩
    · have hscanned := sqlSelectRows_scanned hselect htest h
      obtain ⟨used, honly, -⟩ := hscanned.only
      exact ⟨⟨used, honly⟩, hscanned.owns⟩
  · rw [sqlSelectRows_of_not hselect] at h
    cases h
    exact ⟨⟨[], (MemoryOnly.refl _).lookupOnly⟩, fun _ howned => howned⟩

/-- What is looked up are records of the table. -/
theorem sqlSelectRows_holds (h : sqlSelectRows m command = some (ok, m', records)) :
    ∀ p ∈ records.rows, m.HoldsRecord p := by
  by_cases htest : command.TestsId
  · exact (sqlSelectRows_indexScanned htest h).holds
  unfold sqlSelectRows at h
  cases htype : command.type <;> rw [htype] at h <;> dsimp only at h
  case selectAll => exact tableCollectAllSorted_holds h
  case selectById =>
    rw [tableFindByIdCondition, if_neg fun heq => htest ⟨htype, heq⟩] at h
    exact tableFindMatches_holds h
  case selectByName => exact tableFindMatches_holds h
  case selectByAge => exact tableFindMatches_holds h
  all_goals
    cases h
    simp [RecordArray.empty]

/-- The result of a SELECT, from how its lookup ended. -/
def selectResult (ok : Bool) (records : RecordArray) : SQLResult :=
  let result := { sqlMakeResult .error .none with
    records := records, rowCount := records.rows.length }
  if ok then { result with
    record := records.rows.head?
    status := if result.rowCount = 0 then .notFound else .ok
    action := .selectRows }
  else result

theorem status_selectResult (ok : Bool) (records : RecordArray) :
    (selectResult ok records).status =
      if ok then if records.rows.length = 0 then .notFound else .ok else .error := by
  cases ok <;> rfl

theorem sqlExecuteSelectPlan_eq (m : TableMemory) (command : SQLCommand) :
    sqlExecuteSelectPlan m command =
      (sqlSelectRows m command).map fun found => (found.2.1, selectResult found.1 found.2.2) := by
  unfold sqlExecuteSelectPlan selectResult
  cases sqlSelectRows m command with
  | none => rfl
  | some found =>
    obtain ⟨_ | _, m', records⟩ := found <;> rfl

theorem sqlExecutePlan_select (hselect : command.IsSelect) (m : TableMemory) :
    sqlExecutePlan m command =
      (sqlSelectRows m command).map fun found => (found.2.1, selectResult found.1 found.2.2) := by
  rw [← sqlExecuteSelectPlan_eq, sqlExecutePlan]
  rcases hselect with htype | htype | htype | htype <;> rw [htype]

/-- A SELECT ends with its lookup. -/
theorem sqlExecutePlan_selects {rs : Rows} (hs : m.Formed rs) (hselect : command.IsSelect) :
    ∃ ok m' records, sqlSelectRows m command = some (ok, m', records) ∧
      sqlExecutePlan m command = some (m', selectResult ok records) := by
  obtain ⟨⟨ok, m', records⟩, hrows⟩ := sqlSelectRows_total hs command
  refine ⟨ok, m', records, hrows, ?_⟩
  rw [sqlExecutePlan_select hselect, hrows]
  rfl

/-- A statement that neither inserts nor selects does nothing. -/
theorem sqlExecutePlan_of_not (htype : command.type ≠ .insert) (hselect : ¬ command.IsSelect)
    {result : SQLResult} (h : sqlExecutePlan m command = some (m', result)) :
    m' = m ∧ result.records = .empty := by
  unfold sqlExecutePlan at h
  rcases SQLCommand.type_of_not_isSelect hselect with hcase | hcase | hcase
  · rw [hcase] at h
    cases h
    exact ⟨rfl, rfl⟩
  · rw [hcase] at h
    cases h
    exact ⟨rfl, rfl⟩
  · exact absurd hcase htype

/-- **A statement that does not insert** leaves the table as it is, and its array to its result. -/
theorem sqlExecutePlan_leaves (htype : command.type ≠ .insert) {result : SQLResult}
    (h : sqlExecutePlan m command = some (m', result)) :
    (∃ used, m.LookupOnly used m') ∧
      ∀ owned, m.Owns owned → m'.Owns (result.records.ptr.toList ++ owned) := by
  by_cases hselect : command.IsSelect
  · rw [sqlExecutePlan_select hselect] at h
    obtain ⟨⟨ok, m₁, records⟩, hrows, h⟩ := Option.map_eq_some_iff.mp h
    have hleaves := sqlSelectRows_leaves hrows
    cases ok <;> cases h <;> exact hleaves
  · obtain ⟨rfl, hrecords⟩ := sqlExecutePlan_of_not htype hselect h
    rw [hrecords]
    exact ⟨⟨[], (MemoryOnly.refl _).lookupOnly⟩, fun _ howned => howned⟩

end Lookups

/-! ### Tables that statements reach -/

/-- The tables that statements make of a new one, each of which is `allowed` on the table before it
and has its result destroyed behind it; before each of them, any outcomes of the coming
allocations. -/
inductive ReachedBy (allowed : TableMemory → SQLCommand → Prop) : TableMemory → Prop
  | start : ReachedBy allowed (.start [] [])
  | allocs {m : TableMemory} (allocs : List Bool) (h : ReachedBy allowed m) :
      ReachedBy allowed { m with allocs := allocs }
  | execute {m m' : TableMemory} {command : SQLCommand} {result : SQLResult}
      (h : ReachedBy allowed m) (permitted : allowed m command)
      (run : sqlExecutePlan m command = some (m', result)) :
      ReachedBy allowed (sqlResultDestroy m' result).1

/-- Any statement, whatever allocations fail. -/
def AnyStatement (_ : TableMemory) (_ : SQLCommand) : Prop := True

/-- No INSERT for which the index gets its first node but not every one it needs. -/
def NeverCuts (m : TableMemory) (command : SQLCommand) : Prop :=
  ¬ (command.type = .insert ∧ m.CutsIndex)

/-- One row inserted again and again, each time with other outcomes of the coming allocations. -/
def insertAll (command : SQLCommand) (m : TableMemory) : List (List Bool) → Option TableMemory
  | [] => some m
  | allocs :: rest => do
    let (m, result) ← sqlExecutePlan { m with allocs := allocs } command
    insertAll command (sqlResultDestroy m result).1 rest

section Reached

variable {allowed : TableMemory → SQLCommand → Prop} {m m' : TableMemory} {command : SQLCommand}
  {result : SQLResult}

/-- An INSERT is the insertion, and has no array. -/
theorem sqlExecutePlan_insert (htype : command.type = .insert)
    (h : sqlExecutePlan m command = some (m', result)) :
    (∃ found, tableInsert m command.name command.intValue = some (m', found)) ∧
      result.records = .empty := by
  rw [sqlExecutePlan, htype] at h
  dsimp only at h
  rw [sqlExecuteInsertPlan, if_neg (not_not.mpr htype)] at h
  obtain ⟨⟨m₁, found⟩, hinsert, h⟩ := Option.bind_eq_some_iff.mp h
  cases found with
  | none =>
    cases h
    exact ⟨⟨_, hinsert⟩, rfl⟩
  | some p =>
    obtain ⟨r, -, h⟩ := Option.bind_eq_some_iff.mp h
    cases h
    exact ⟨⟨_, hinsert⟩, rfl⟩

/-- The rows of a result are records of the table, and still the same ones. -/
theorem sqlExecutePlan_holds (h : sqlExecutePlan m command = some (m', result)) :
    ∀ p ∈ result.records.rows, m.HoldsRecord p ∧ m'.record p = m.record p := by
  intro p hp
  by_cases htype : command.type = .insert
  · rw [(sqlExecutePlan_insert htype h).2] at hp
    cases hp
  obtain ⟨⟨used, honly⟩, -⟩ := sqlExecutePlan_leaves htype h
  refine ⟨?_, honly.record p⟩
  by_cases hselect : command.IsSelect
  · rw [sqlExecutePlan_select hselect] at h
    obtain ⟨⟨ok, m₁, records⟩, hrows, h⟩ := Option.map_eq_some_iff.mp h
    have hrecords : result.records = records := by cases ok <;> cases h <;> rfl
    rw [hrecords] at hp
    exact sqlSelectRows_holds hrows p hp
  · rw [(sqlExecutePlan_of_not htype hselect h).2] at hp
    cases hp

/-- What every statement keeps, whatever allocations fail. -/
structure Kept (m : TableMemory) : Prop where
  formed : ∃ rs, m.Formed rs
  unlocked : m.Unlocked
  owns : m.Owns []
  records : m.OwnsRecords

theorem Kept.execute (hm : Kept m) (h : sqlExecutePlan m command = some (m', result)) :
    Kept (sqlResultDestroy m' result).1 := by
  obtain ⟨rs, hs⟩ := hm.formed
  by_cases htype : command.type = .insert
  · obtain ⟨⟨found, hinsert⟩, hrecords⟩ := sqlExecutePlan_insert htype h
    have hrecords' := tableInsert_ownsRecords hm.records hm.unlocked hs hinsert
    obtain ⟨m₁, found₁, rs', hrun, hu, hs', -, howns⟩ :=
      tableInsert_formed hm.unlocked hs command.name command.intValue
    rw [hinsert] at hrun
    cases hrun
    have hdestroy : (sqlResultDestroy m' result).1 = m' := by rw [sqlResultDestroy, hrecords]; rfl
    rw [hdestroy]
    exact ⟨⟨rs', hs'⟩, hu, howns [] hm.owns, hrecords'⟩
  · obtain ⟨⟨used, honly⟩, howns⟩ := sqlExecutePlan_leaves htype h
    have hmemory := (honly.memoryOnly hm.unlocked.lockResults).trans
      (memoryOnly_freeArray m' result.records)
    exact ⟨⟨rs, hmemory.lookupOnly.formed hs⟩, hmemory.unlocked hm.unlocked,
      Owns.free (howns [] hm.owns), hmemory.ownsRecords hm.records⟩

/-- **Every statement ends**, and the rows of its result can be read, when no record that the table
holds was freed. -/
theorem Kept.sqlExecutePlan_total (hm : Kept m)
    (hread : ∀ p, m.HoldsRecord p → ∃ r, m.record p = some r) (command : SQLCommand) :
    ∃ m' result rows, sqlExecutePlan m command = some (m', result) ∧
      m'.recordsAt result.records.rows = some rows := by
  obtain ⟨rs, hs⟩ := hm.formed
  have hends : ∃ res, sqlExecutePlan m command = some res := by
    by_cases hinsert : command.type = .insert
    · obtain ⟨m', found, -, hrun, -, -, hfound, -⟩ :=
        tableInsert_formed hm.unlocked hs command.name command.intValue
      rw [sqlExecutePlan, hinsert]
      dsimp only
      rw [sqlExecuteInsertPlan, if_neg (not_not.mpr hinsert)]
      cases found with
      | none => exact ⟨_, bind_eq_of_eq_some hrun rfl⟩
      | some p =>
        obtain ⟨r, hr⟩ := hfound p rfl
        exact ⟨_, bind_eq_of_eq_some hrun (bind_eq_of_eq_some hr rfl)⟩
    by_cases hselect : command.IsSelect
    · obtain ⟨ok, m', records, -, hrun⟩ := sqlExecutePlan_selects hs hselect
      exact ⟨_, hrun⟩
    · unfold sqlExecutePlan
      rcases SQLCommand.type_of_not_isSelect hselect with htype | htype | htype
      · exact ⟨_, by rw [htype]⟩
      · exact ⟨_, by rw [htype]⟩
      · exact absurd htype hinsert
  obtain ⟨⟨m', result⟩, hrun⟩ := hends
  obtain ⟨rows, hrows⟩ := exists_recordsAt (m := m') fun p hp => by
    obtain ⟨hholds, hsame⟩ := sqlExecutePlan_holds hrun p hp
    rw [hsame]
    exact hread p hholds
  exact ⟨m', result, rows, hrun, hrows⟩

/-- **Every reachable table** has its rows in the arrays, holds no lock, and has freed every result
array once; every record belongs to one row. -/
theorem ReachedBy.kept (h : ReachedBy allowed m) : Kept m := by
  induction h with
  | start =>
    obtain ⟨rs, hs, -⟩ := refines_start.stores
    exact ⟨⟨rs, hs.formed⟩, ⟨rfl, rfl⟩, .refl _, ownsRecords_start [] []⟩
  | @allocs m allocs _ ih =>
    obtain ⟨⟨rs, hs⟩, hu, howns, hrecords⟩ := ih
    have hmemory := memoryOnly_allocs m allocs
    exact ⟨⟨rs, hmemory.lookupOnly.formed hs⟩, hmemory.unlocked hu, howns,
      hmemory.ownsRecords hrecords⟩
  | execute _ _ run ih => exact ih.execute run

theorem ReachedBy.mono {allowed' : TableMemory → SQLCommand → Prop}
    (hmono : ∀ m command, allowed m command → allowed' m command) (h : ReachedBy allowed m) :
    ReachedBy allowed' m := by
  induction h with
  | start => exact .start
  | allocs allocs _ ih => exact ih.allocs allocs
  | execute _ permitted run ih => exact ih.execute (hmono _ _ permitted) run

theorem ReachedBy.insertAll {outcomes : List (List Bool)} (h : ReachedBy AnyStatement m)
    (hrun : insertAll command m outcomes = some m') : ReachedBy AnyStatement m' := by
  induction outcomes generalizing m with
  | nil =>
    cases hrun
    exact h
  | cons allocs outcomes ih =>
    obtain ⟨⟨m₁, result⟩, hplan, hrest⟩ := Option.bind_eq_some_iff.mp hrun
    exact ih (.execute (h.allocs allocs) trivial hplan) hrest

/-- When no index was cut, the indexes have all the rows. -/
theorem ReachedBy.stores (h : ReachedBy NeverCuts m) : ∃ rs, m.Stores rs := by
  induction h with
  | start =>
    obtain ⟨rs, hs, -⟩ := refines_start.stores
    exact ⟨rs, hs⟩
  | allocs allocs _ ih =>
    obtain ⟨rs, hs⟩ := ih
    exact ⟨rs, (memoryOnly_allocs _ allocs).stores hs⟩
  | @execute m m' command result h permitted run ih =>
    obtain ⟨rs, hs⟩ := ih
    have hmemory := memoryOnly_freeArray m' result.records
    by_cases htype : command.type = .insert
    · obtain ⟨⟨found, hinsert⟩, -⟩ := sqlExecutePlan_insert htype run
      obtain ⟨m₁, found₁, hrun, -, -, houtcome⟩ :=
        tableInsert_outcome h.kept.unlocked hs command.name command.intValue
      rw [hinsert] at hrun
      cases hrun
      cases houtcome with
      | stored stores not_cuts id_eq record allocs holds => exact ⟨_, hmemory.stores holds⟩
      | kept not_stores not_cuts holds => exact ⟨_, hmemory.stores holds⟩
      | cut not_stores cuts mem index lost => exact absurd ⟨htype, cuts⟩ permitted
    · obtain ⟨⟨used, honly⟩, -⟩ := sqlExecutePlan_leaves htype run
      exact ⟨rs, hmemory.stores (honly.stores hs)⟩

end Reached

end MiniDbms
