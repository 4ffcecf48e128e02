import MiniDbms.Sql.Equiv.Parse
import MiniDbms.Sql.ListDatabase
import MiniDbms.Table.Equiv.Lookups

/-!
# The SQL engine refines a database that is one list

`TableMemory.Refines m rows` relates the table to the list of its rows.  One statement keeps the
relation and gives the answer of the list database (`sqlExecute_refines`); so does every sequence of
statements (`sqlExecuteAll_eq`).
-/

namespace MiniDbms

open SortedAssoc CArray CString TableMemory ListDatabase

/-! ### What a client sees -/

/-- The result with the rows that its pointers point to. -/
def SQLResult.answer (result : SQLResult) (m : TableMemory) : Option Answer := do
  let rows ← m.recordsAt result.records.rows
  some ⟨result.status, result.action, result.insertedId, result.rowCount, rows⟩

/-- Runs statements one after another; each answer is read right after its statement. -/
def sqlExecuteAll (m : TableMemory) : List CBytes → Option (TableMemory × List Answer)
  | [] => some (m, [])
  | input :: inputs => do
    let (m, result) ← sqlExecute m input
    let answer ← result.answer m
    let (m, answers) ← sqlExecuteAll m inputs
    some (m, answer :: answers)

/-- The table of a quiet memory holds the rows of a list database. -/
structure TableMemory.Refines (m : TableMemory) (rows : List Record) : Prop where
  quiet : m.Quiet
  stores : ∃ rs, m.Stores rs ∧ rs.Ordered rows
  nextId : m.nextId = rows.length + 1
  le_length : ∀ r ∈ rows, r.id ≤ rows.length

/-- A new table is an empty list. -/
theorem refines_start : (TableMemory.start [] []).Refines [] := by
  refine ⟨⟨rfl, rfl, rfl⟩, ⟨fun _ => [], ⟨fun b => rfl, fun b => Nat.zero_le _, nofun, nofun,
    fun b => ⟨[], ?_, .refl _⟩⟩, ⟨?_, .nil⟩⟩, rfl, nofun⟩
  · exact bptreeCreate_holds
  · simp [Rows.all]

theorem TableMemory.Refines.arraysOnly {m m' : TableMemory} {rows : List Record}
    (h : m.Refines rows) (hm' : m.ArraysOnly m') : m'.Refines rows := by
  obtain ⟨rs, hs, ho⟩ := h.stores
  refine ⟨hm'.quiet h.quiet, ⟨rs, hm'.stores hs, ho⟩, ?_, h.le_length⟩
  obtain ⟨a, f, rfl⟩ := hm'
  exact h.nextId

/-! ### Insertions -/

/-- An insertion appends a row with the next ID. -/
theorem tableInsert_refines {m : TableMemory} {rows : List Record} (h : m.Refines rows)
    (hlen : rows.length + 2 < 2 ^ 31) {name : CBytes} (hname : name.length < recordNameSize)
    (age : ℤ) :
    ∃ m' record, tableInsert m name age = some (m', some record) ∧
      m'.record record = some ⟨rows.length + 1, name, age⟩ ∧
      m'.Refines (rows ++ [⟨rows.length + 1, name, age⟩]) := by
  obtain ⟨rs, hs, ho⟩ := h.stores
  have hstored := storedRecord_eq hname (rows.length + 1) age
  set m₁ : TableMemory := { m with nextId := intWrap (m.nextId + 1) } with hm₁
  have hissue : tableIssueId m = some (m₁, some ((rows.length : ℤ) + 1)) := by
    rw [tableIssueId_eq h.quiet.unlocked, ← h.nextId]
  have hquiet₁ : m₁.Quiet := ⟨h.quiet.allocs, h.quiet.lockResults, h.quiet.held⟩
  have hstores₁ : m₁.Stores rs := ⟨hs.rows, hs.capacity, hs.record, hs.bucket, hs.index⟩
  have hfresh : ∀ e ∈ rs (tableBucketIndexForId ((rows.length : ℤ) + 1)),
      e.2.id ≠ (rows.length : ℤ) + 1 := by
    intro e he heq
    have hle := h.le_length e.2 (ho.mem_iff.mpr ⟨_, e, he, rfl⟩)
    omega
  obtain ⟨m', hrun, hquiet', hstores', hnext', hrecords'⟩ :=
    tableStoreRow_spec hquiet₁ hstores₁ _ name age hfresh
  rw [hstored] at hstores' hrecords'
  have hadd := Rows.all_add rs (m₁.records.length, ⟨rows.length + 1, name, age⟩)
  refine ⟨m', m₁.records.length, bind_eq_of_eq_some hissue hrun, ?_, hquiet',
    ⟨_, hstores', ?_, ?_⟩, ?_, ?_⟩
  · rw [TableMemory.record, hrecords', List.getElem?_concat_length]
    rfl
  · refine (hadd.map Prod.snd).trans ?_
    exact ((ho.perm.cons _)).trans (List.perm_append_singleton _ rows).symm
  · rw [List.pairwise_append]
    refine ⟨ho.sorted, List.pairwise_singleton _ _, fun r hr r' hr' => ?_⟩
    rw [List.mem_singleton.mp hr']
    exact Int.lt_add_one_of_le (h.le_length r hr)
  · rw [hnext', hm₁, List.length_append, List.length_singleton, h.nextId]
    dsimp only
    rw [intWrap_eq] <;> push_cast <;> omega
  · intro r hr
    rw [List.length_append, List.length_singleton]
    rcases List.mem_append.mp hr with hr | hr
    · have := h.le_length r hr
      omega
    · rw [List.mem_singleton.mp hr]
      push_cast
      omega

/-! ### Lookups -/

theorem tableCompareInt_eq (left right : ℤ) (comparison : TableComparison) :
    tableCompareInt left comparison right = decide (comparison.Holds left right) := by
  cases comparison <;> rfl

/-- The lookup of a SELECT finds the rows that the command asks for. -/
theorem sqlSelectRows_returns {m : TableMemory} {rs : Rows} {rows : List Record} (hq : m.Quiet)
    (hs : m.Stores rs) (ho : rs.Ordered rows) {command : SQLCommand}
    (htype : command.type = .selectAll ∨ command.type = .selectById ∨
      command.type = .selectByName ∨ command.type = .selectByAge) :
    Returns m (rows.filter fun row => Selects command row) (sqlSelectRows m command) := by
  unfold sqlSelectRows Selects
  rcases htype with htype | htype | htype | htype <;> simp only [htype]
  · rw [List.filter_eq_self.mpr (by simp)]
    exact tableCollectAll_returns hq hs ho
  · simp only [← tableCompareInt_eq]
    exact tableFindByIdCondition_returns hq hs ho _ _
  · exact tableFindMatches_returns hq hs ho _
  · simp only [← tableCompareInt_eq]
    exact tableFindMatches_returns hq hs ho _

/-- A SELECT answers with those rows and changes nothing. -/
theorem sqlExecuteSelectPlan_refines {m : TableMemory} {rows : List Record} (h : m.Refines rows)
    {command : SQLCommand} (htype : command.type = .selectAll ∨ command.type = .selectById ∨
      command.type = .selectByName ∨ command.type = .selectByAge) :
    ∃ m' result, sqlExecuteSelectPlan m command = some (m', result) ∧
      result.answer m' = some (selected (rows.filter fun row => Selects command row)) ∧
      m'.Refines rows := by
  obtain ⟨rs, hs, ho⟩ := h.stores
  obtain ⟨m', records, hrun, hm', hrecords⟩ := sqlSelectRows_returns h.quiet hs ho htype
  set found := rows.filter fun row => decide (Selects command row)
  have hlen : records.rows.length = found.length := length_recordsAt hrecords
  refine ⟨m', _, bind_eq_of_eq_some hrun rfl, ?_, h.arraysOnly hm'⟩
  refine bind_eq_of_eq_some hrecords ?_
  dsimp only
  simp only [selected, hlen, List.length_eq_zero_iff]
  rfl

/-! ### Statements -/

/-- The strings of a parsed command fit into a record. -/
theorem sqlParse_name_length {s : CBytes} {r : SQLParseResult} (h : sqlParse s = (true, r)) :
    r.command.name.length < recordNameSize := by
  have hcommand : ∀ (l : Layout) (statement : Statement IntLiteral),
      (statement.command l).name.length < recordNameSize := by
    intro l statement
    cases statement with
    | insert name age => exact name.length_lt
    | exit => exact Nat.zero_lt_succ _
    | select => exact Nat.zero_lt_succ _
    | selectWhere condition => exact Nat.zero_lt_succ _
  rcases sqlParse_eq_iff.mp h with ⟨g, l, -, rfl⟩ | ⟨l, statement, -, -, rfl⟩ |
    ⟨l, g, g', condition, -, rfl⟩
  · exact hcommand l _
  · exact hcommand l _
  · exact hcommand l _

/-- What the execution of a statement can end with, whatever the memory is. -/
theorem sqlExecutePlan_cases {m m' : TableMemory} {command : SQLCommand} {result : SQLResult}
    (h : sqlExecutePlan m command = some (m', result)) (hexit : command.type ≠ .exit) :
    result.status = .error ∨
      (result.action = .insert ∧ result.status = .ok ∧ result.rowCount = 1) ∨
      (result.action = .selectRows ∧ (result.status = .ok ∨ result.status = .notFound) ∧
        result.rowCount = result.records.rows.length) := by
  have hinsert : sqlExecuteInsertPlan m command = some (m', result) → result.status = .error ∨
      (result.action = .insert ∧ result.status = .ok ∧ result.rowCount = 1) := by
    intro h
    rw [sqlExecuteInsertPlan] at h
    split_ifs at h
    · cases h
      exact Or.inl rfl
    · obtain ⟨⟨m₁, record⟩, -, h⟩ := Option.bind_eq_some_iff.mp h
      cases record with
      | none =>
        cases h
        exact Or.inl rfl
      | some record =>
        obtain ⟨r, -, h⟩ := Option.bind_eq_some_iff.mp h
        cases h
        exact Or.inr ⟨rfl, rfl, rfl⟩
  have hselect : sqlExecuteSelectPlan m command = some (m', result) → result.status = .error ∨
      (result.action = .selectRows ∧ (result.status = .ok ∨ result.status = .notFound) ∧
        result.rowCount = result.records.rows.length) := by
    intro h
    obtain ⟨⟨ok, m₁, records⟩, -, h⟩ := Option.bind_eq_some_iff.mp h
    dsimp only at h
    split_ifs at h with hok hempty
    · cases h
      exact Or.inr ⟨rfl, Or.inr rfl, rfl⟩
    · cases h
      exact Or.inr ⟨rfl, Or.inl rfl, rfl⟩
    · cases h
      exact Or.inl rfl
  unfold sqlExecutePlan at h
  split at h
  · exact (hinsert h).imp_right Or.inl
  · exact (hselect h).imp_right Or.inr
  · exact (hselect h).imp_right Or.inr
  · exact (hselect h).imp_right Or.inr
  · exact (hselect h).imp_right Or.inr
  · rename_i htype
    exact absurd htype hexit
  · cases h
    exact Or.inl rfl

/-- The text is parsed to an INSERT. -/
def IsInsert (input : CBytes) : Prop := (sqlParse input).2.command.type = .insert

instance (input : CBytes) : Decidable (IsInsert input) := by
  unfold IsInsert
  infer_instance

/-- One command answers as the list database does. -/
theorem sqlExecutePlan_refines {m : TableMemory} {rows : List Record} (h : m.Refines rows)
    {command : SQLCommand} (hname : command.name.length < recordNameSize)
    (hlen : command.type = .insert → rows.length + 2 < 2 ^ 31) :
    ∃ m' result, sqlExecutePlan m command = some (m', result) ∧
      result.answer m' = some (apply rows command).2 ∧ m'.Refines (apply rows command).1 ∧
      (command.type = .exit → result.status = .exit) := by
  have hselect : (command.type = .selectAll ∨ command.type = .selectById ∨
      command.type = .selectByName ∨ command.type = .selectByAge) →
      ∃ m' result, sqlExecutePlan m command = some (m', result) ∧
        result.answer m' = some (selected (rows.filter fun row => Selects command row)) ∧
        m'.Refines rows := by
    intro htype
    obtain ⟨m', result, hrun, hanswer, hrefines⟩ := sqlExecuteSelectPlan_refines h htype
    refine ⟨m', result, ?_, hanswer, hrefines⟩
    rw [← hrun]
    unfold sqlExecutePlan
    rcases htype with htype | htype | htype | htype <;> rw [htype]
  unfold ListDatabase.apply
  cases htype : command.type with
  | insert =>
    obtain ⟨m', record, hrun, hrecord, hrefines⟩ :=
      tableInsert_refines h (hlen htype) hname command.intValue
    have hplan : sqlExecutePlan m command = some (m',
        { sqlMakeResult .ok .insert with
          record := some record, insertedId := rows.length + 1, rowCount := 1 }) := by
      unfold sqlExecutePlan sqlExecuteInsertPlan
      simp only [htype]
      rw [if_neg (not_not.mpr rfl)]
      exact bind_eq_of_eq_some hrun (bind_eq_of_eq_some hrecord rfl)
    exact ⟨m', _, hplan, rfl, hrefines, nofun⟩
  | exit =>
    have hplan : sqlExecutePlan m command = some (m, sqlMakeResult .exit .none) := by
      unfold sqlExecutePlan
      rw [htype]
    exact ⟨m, _, hplan, rfl, h, fun _ => rfl⟩
  | none =>
    have hplan : sqlExecutePlan m command = some (m, sqlMakeResult .error .none) := by
      unfold sqlExecutePlan
      rw [htype]
    exact ⟨m, _, hplan, rfl, h, nofun⟩
  | selectAll | selectById | selectByName | selectByAge =>
    obtain ⟨m', result, hrun, hanswer, hrefines⟩ := hselect (by simp [htype])
    exact ⟨m', result, hrun, hanswer, hrefines, nofun⟩

/-- **One statement** answers as the list database does. -/
theorem sqlExecute_refines {m : TableMemory} {rows : List Record} (h : m.Refines rows)
    {input : CBytes} (hlen : IsInsert input → rows.length + 2 < 2 ^ 31) :
    ∃ m' result, sqlExecute m input = some (m', result) ∧
      result.answer m' = some (execute rows input).2 ∧ m'.Refines (execute rows input).1 := by
  unfold sqlExecute ListDatabase.execute
  unfold IsInsert at hlen
  cases hparse : sqlParse input with
  | mk accepted parseResult =>
    rw [hparse] at hlen
    cases accepted with
    | false => exact ⟨m, _, rfl, rfl, h⟩
    | true =>
      obtain ⟨m', result, hrun, hanswer, hrefines, hexit⟩ :=
        sqlExecutePlan_refines h (sqlParse_name_length hparse) hlen
      refine ⟨m', result, bind_eq_of_eq_some hrun ?_, hanswer, hrefines⟩
      dsimp only
      split_ifs with htype
      · rw [← hexit htype]
      · rfl

/-- The list grows by insertions only. -/
theorem ListDatabase.length_execute_le (rows : List Record) (input : CBytes) :
    (execute rows input).1.length ≤ rows.length + if IsInsert input then 1 else 0 := by
  by_cases hinsert : IsInsert input
  · rw [if_pos hinsert]
    unfold ListDatabase.execute ListDatabase.apply
    repeat' split
    all_goals simp
  · rw [if_neg hinsert]
    unfold IsInsert at hinsert
    unfold ListDatabase.execute
    cases hparse : sqlParse input with
    | mk accepted parseResult =>
      rw [hparse] at hinsert
      cases accepted with
      | false => exact le_rfl
      | true =>
        unfold ListDatabase.apply
        cases htype : parseResult.command.type with
        | insert => exact absurd htype hinsert
        | _ => simp only [htype, Nat.add_zero, le_refl]

/-- Sequences of statements, from any table of a list database. -/
theorem sqlExecuteAll_refines {m : TableMemory} {rows : List Record} (h : m.Refines rows)
    (inputs : List CBytes)
    (hlen : rows.length + (inputs.filter fun input => IsInsert input).length < 2 ^ 31 - 1) :
    ∃ m', sqlExecuteAll m inputs = some (m', (run rows inputs).2) ∧
      m'.Refines (run rows inputs).1 := by
  induction inputs generalizing m rows with
  | nil => exact ⟨m, rfl, h⟩
  | cons input inputs ih =>
    have hone : IsInsert input → rows.length + 2 < 2 ^ 31 := by
      intro hins
      rw [List.filter_cons_of_pos (by simpa using hins), List.length_cons] at hlen
      omega
    obtain ⟨m₁, result, hrun, hanswer, h₁⟩ := sqlExecute_refines h hone
    have hrest : (execute rows input).1.length +
        (inputs.filter fun input => IsInsert input).length < 2 ^ 31 - 1 := by
      have hle := ListDatabase.length_execute_le rows input
      by_cases hins : IsInsert input
      · rw [List.filter_cons_of_pos (by simpa using hins), List.length_cons] at hlen
        rw [if_pos hins] at hle
        omega
      · rw [List.filter_cons_of_neg (by simpa using hins)] at hlen
        rw [if_neg hins] at hle
        omega
    obtain ⟨m', hrest, h'⟩ := ih h₁ hrest
    exact ⟨m', bind_eq_of_eq_some hrun (bind_eq_of_eq_some hanswer (bind_eq_of_eq_some hrest rfl)),
      h'⟩

/-- **The SQL engine refines a database that is one list**: every sequence of statements, from the
empty table on, is answered as the list database answers it. -/
theorem sqlExecuteAll_eq (inputs : List CBytes)
    (hlen : (inputs.filter fun input => IsInsert input).length < 2 ^ 31 - 1) :
    ∃ m', sqlExecuteAll (TableMemory.start [] []) inputs = some (m', (run [] inputs).2) ∧
      m'.Refines (run [] inputs).1 :=
  sqlExecuteAll_refines refines_start inputs (by simpa using hlen)

/-- Two statements and their answers. -/
theorem sqlExecuteAll_insert_select :
    ∃ m', sqlExecuteAll (TableMemory.start [] [])
      [ascii "INSERT INTO users VALUES ('kim', 30)", ascii "SELECT * FROM users"] =
      some (m', [⟨.ok, .insert, 1, 1, []⟩, ⟨.ok, .selectRows, 0, 1, [⟨1, ascii "kim", 30⟩]⟩]) := by
  obtain ⟨m', h, -⟩ := sqlExecuteAll_eq
    [ascii "INSERT INTO users VALUES ('kim', 30)", ascii "SELECT * FROM users"]
    (by decide)
  refine ⟨m', h.trans ?_⟩
  have hrun : (run [] [ascii "INSERT INTO users VALUES ('kim', 30)",
      ascii "SELECT * FROM users"]).2 =
      [⟨.ok, .insert, 1, 1, []⟩, ⟨.ok, .selectRows, 0, 1, [⟨1, ascii "kim", 30⟩]⟩] := by
    decide
  rw [hrun]

end MiniDbms
