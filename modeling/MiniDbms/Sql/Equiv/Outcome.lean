import MiniDbms.Sql.Equiv.Errors
import MiniDbms.Sql.Equiv.Execute

/-!
# How a parse ends

`sql_parse` ends in a command or in an error, and each has one shape (`sqlParse_outcome`).  The plan
of a command fails exactly when the table does: the branches of `sql_execute_plan` for other types
are never taken.
-/

namespace MiniDbms

open CString

/-! ### The two shapes -/

/-- A string of a command: it fits into its array with its `NUL`, and its bytes are those of the
text, without a quote. -/
structure StringFits (input : CBytes) (size : ℕ) (s : CBytes) : Prop where
  length_lt : s.length < size
  no_quote : 39 ∉ s
  subset : s ⊆ input

/-- The table function that a command calls stores no row, or finds none because it fails. -/
def TableFails (m : TableMemory) (command : SQLCommand) : Prop :=
  match command.type with
  | .insert => ∃ m', tableInsert m command.name command.intValue = some (m', none)
  | .selectAll => ∃ m' records, tableCollectAll m = some (false, m', records)
  | .selectById => ∃ m' records,
    tableFindByIdCondition m command.comparison command.intValue = some (false, m', records)
  | .selectByName => ∃ m' records,
    tableFindByNameMatches m command.textValue = some (false, m', records)
  | .selectByAge => ∃ m' records,
    tableFindByAgeCondition m command.comparison command.intValue = some (false, m', records)
  | .exit | .none => False

/-- A command that was parsed from the text. -/
structure SQLCommand.WellFormed (input : CBytes) (command : SQLCommand) : Prop where
  type : command.type ≠ .none
  tableName : StringFits input identifierSize command.tableName
  name : StringFits input recordNameSize command.name
  selectedColumn : StringFits input identifierSize command.selectedColumn
  whereColumn : StringFits input identifierSize command.whereColumn
  textValue : StringFits input recordNameSize command.textValue
  hasWhere : command.hasWhere = true ↔ command.type = .selectById ∨
    command.type = .selectByName ∨ command.type = .selectByAge
  comparison : command.type = .insert ∨ command.type = .selectAll ∨
    command.type = .selectByName → command.comparison = .eq

/-- A text that was parsed.  No branch of the plan is for another type: it fails only with the
table. -/
structure SQLParseResult.Accepted (input : CBytes) (r : SQLParseResult) : Prop where
  parsed : r.parsed = true
  status : r.status = if r.command.type = .exit then .exit else .ok
  exit_iff : r.command.type = .exit ↔
    ∃ (g : Gap) (l : ExitLayout), input = g.text ++ l.text
  errorMessage : r.errorMessage = []
  command : r.command.WellFormed input
  plan : ∀ m m' result, sqlExecutePlan m r.command = some (m', result) →
    (result.status = .error ↔ TableFails m r.command)

/-- A text that was not parsed. -/
structure SQLParseResult.Rejected (input : CBytes) (r : SQLParseResult) : Prop where
  parsed : r.parsed = false
  type : r.command.type = .none
  errorMessage : r.errorMessage ≠ []
  error : r.status = .syntaxError ∧ r.errorCode = 1064 ∧ r.sqlState = ascii "42000" ∨
    r.status = .queryError ∧ r.errorCode = 1054 ∧ r.sqlState = ascii "42S22" ∧
      ∃ (column : Identifier) (clauseName : CBytes), SelectsColumn column input clauseName ∧
        sqlIsKnownColumn column.bytes = false

/-! ### Strings -/

variable {input : CBytes}

theorem StringFits.nil {size : ℕ} (h : 0 < size) : StringFits input size [] :=
  ⟨h, List.not_mem_nil, List.nil_subset input⟩

/-- A spelling of a word has its length and no quote. -/
theorem StringFits.spelling {size : ℕ} {word : CBytes} (hword : IsWord word)
    (hlen : word.length < size) (w : Spelling word) (hsubset : w.text ⊆ input) :
    StringFits input size w.text := by
  refine ⟨?_, fun hquote => ?_, hsubset⟩
  · have hsame := congrArg List.length (casecmpEq_iff.mp w.same)
    rw [List.length_map, List.length_map] at hsame
    omega
  · have halpha := (hword.spelling w).isalpha 39 hquote
    cases halpha

theorem StringFits.operand (s : StringOperand) (hsubset : s.bytes ⊆ input) :
    StringFits input recordNameSize s.bytes :=
  ⟨s.length_lt, s.no_quote, hsubset⟩

/-! ### Plans -/

theorem sqlExecuteInsertPlan_error_iff {m m' : TableMemory} {command : SQLCommand}
    {result : SQLResult} (htype : command.type = .insert)
    (h : sqlExecuteInsertPlan m command = some (m', result)) :
    result.status = .error ↔
      ∃ m', tableInsert m command.name command.intValue = some (m', none) := by
  rw [sqlExecuteInsertPlan, if_neg (not_not.mpr htype)] at h
  obtain ⟨⟨m₁, record⟩, hinsert, h⟩ := Option.bind_eq_some_iff.mp h
  rw [hinsert]
  cases record with
  | none =>
    cases h
    exact iff_of_true rfl ⟨_, rfl⟩
  | some record =>
    obtain ⟨r, -, h⟩ := Option.bind_eq_some_iff.mp h
    cases h
    exact iff_of_false (by simp) (by simp)

theorem sqlExecuteSelectPlan_error_iff {m m' : TableMemory} {command : SQLCommand}
    {result : SQLResult} (h : sqlExecuteSelectPlan m command = some (m', result)) :
    result.status = .error ↔ ∃ m' records, sqlSelectRows m command = some (false, m', records) := by
  obtain ⟨⟨ok, m₁, records⟩, hrows, h⟩ := Option.bind_eq_some_iff.mp h
  rw [hrows]
  cases ok with
  | true =>
    cases h
    refine iff_of_false ?_ (by simp)
    dsimp only
    split_ifs <;> nofun
  | false =>
    cases h
    exact iff_of_true rfl ⟨_, _, rfl⟩

/-- Except without a command, the plan fails exactly when the table does. -/
theorem sqlExecutePlan_error_iff {m m' : TableMemory} {command : SQLCommand} {result : SQLResult}
    (htype : command.type ≠ .none) (h : sqlExecutePlan m command = some (m', result)) :
    result.status = .error ↔ TableFails m command := by
  unfold sqlExecutePlan at h
  unfold TableFails
  have hselect := @sqlExecuteSelectPlan_error_iff m m' command result
  unfold sqlSelectRows at hselect
  cases hcommand : command.type with
  | none => exact absurd hcommand htype
  | exit =>
    rw [hcommand] at h
    cases h
    exact iff_of_false nofun not_false
  | insert =>
    rw [hcommand] at h
    exact sqlExecuteInsertPlan_error_iff hcommand h
  | _ =>
    rw [hcommand] at h hselect
    exact hselect h

/-! ### Outcomes -/

/-- The column of a condition, as it is spelled. -/
theorem WhereLayout.column_fits (l : WhereLayout) (condition : Condition IntLiteral)
    (hsubset : l.column condition ⊆ input) :
    StringFits input identifierSize (l.column condition) := by
  obtain ⟨-, -, -, -, -, -, -, hid, hname, hage, -⟩ := isWord_keyword
  cases condition with
  | id _ _ => exact StringFits.spelling hid (by decide) l.id hsubset
  | name _ => exact StringFits.spelling hname (by decide) l.name hsubset
  | age _ _ => exact StringFits.spelling hage (by decide) l.age hsubset

theorem wellFormed_exit (l : Layout) : ((Statement.exit).command l).WellFormed input where
  type := nofun
  tableName := StringFits.nil (by decide)
  name := StringFits.nil (by decide)
  selectedColumn := StringFits.nil (by decide)
  whereColumn := StringFits.nil (by decide)
  textValue := StringFits.nil (by decide)
  hasWhere := by simp [Statement.command]
  comparison := by simp [Statement.command]

theorem wellFormed_insert (l : Layout) (name : StringOperand) (age : IntLiteral) :
    ((Statement.insert name age).command l).WellFormed ((Statement.insert name age).text l) where
  type := nofun
  tableName := by
    apply StringFits.spelling isWord_keyword.2.2.1 (by decide)
    intro c hc
    simp [Statement.text, InsertLayout.text, hc]
  name := by
    apply StringFits.operand
    intro c hc
    simp [Statement.text, InsertLayout.text, StringOperand.textBefore, hc]
  selectedColumn := StringFits.nil (by decide)
  whereColumn := StringFits.nil (by decide)
  textValue := StringFits.nil (by decide)
  hasWhere := by simp [Statement.command]
  comparison _ := rfl

/-- The name of the table is part of the text. -/
theorem SelectLayout.table_fits (l : SelectLayout) (rest : CBytes) :
    StringFits (l.textBefore rest) identifierSize l.table.text := by
  apply StringFits.spelling isWord_keyword.2.2.1 (by decide)
  intro c hc
  simp [SelectLayout.textBefore, hc]

theorem wellFormed_select (l : Layout) :
    ((Statement.select).command l).WellFormed ((Statement.select).text l) where
  type := nofun
  tableName := l.select.table_fits _
  name := StringFits.nil (by decide)
  selectedColumn := StringFits.nil (by decide)
  whereColumn := StringFits.nil (by decide)
  textValue := StringFits.nil (by decide)
  hasWhere := by simp [Statement.command]
  comparison _ := rfl

/-- A condition, whatever stands between it and the name of the table. -/
theorem wellFormed_selectWhere (l : Layout) (condition : Condition IntLiteral) (front : CBytes) :
    ((Statement.selectWhere condition).command l).WellFormed
      (l.select.textBefore (front ++ l.condition.text condition)) := by
  have hcondition : l.condition.text condition ⊆
      l.select.textBefore (front ++ l.condition.text condition) := by
    intro c hc
    simp [SelectLayout.textBefore, hc]
  have hcolumn : l.condition.column condition ⊆ l.condition.text condition := by
    intro c hc
    simp [WhereLayout.text, hc]
  refine ⟨?_, l.select.table_fits _, StringFits.nil (by decide), StringFits.nil (by decide),
    l.condition.column_fits condition (List.Subset.trans hcolumn hcondition), ?_, ?_, ?_⟩
  · cases condition <;> simp [Statement.command, Condition.type]
  · cases condition with
    | name text =>
      apply StringFits.operand
      refine List.Subset.trans ?_ hcondition
      intro c hc
      simp [WhereLayout.text, Condition.operandBefore, StringOperand.textBefore, hc]
    | _ => exact StringFits.nil (by decide)
  · cases condition <;> simp [Statement.command, Condition.type]
  · cases condition <;> simp [Statement.command, Condition.type, Condition.comparison]

/-- `EXIT` and `QUIT` make the command for the end. -/
theorem sqlParse_exit_iff {r : SQLParseResult} (h : sqlParse input = (true, r)) :
    r.command.type = .exit ↔ ∃ (g : Gap) (l : ExitLayout), input = g.text ++ l.text := by
  constructor
  · intro htype
    rcases sqlParse_eq_iff.mp h with ⟨g, l, rfl, -⟩ | ⟨l, statement, hne, -, rfl⟩ |
      ⟨l, -, -, condition, -, rfl⟩
    · exact ⟨g, l.exit, rfl⟩
    · cases statement with
      | exit => exact absurd rfl hne
      | insert name age => cases htype
      | select => cases htype
      | selectWhere condition => cases condition <;> cases htype
    · cases condition <;> cases htype
  · rintro ⟨g, l, rfl⟩
    have hexit := sqlParse_exit g { (default : Layout) with exit := l }
    have heq := Prod.mk.inj (h.symm.trans hexit)
    rw [heq.2]
    rfl

theorem sqlParse_accepted {r : SQLParseResult} (h : sqlParse input = (true, r)) :
    r.Accepted input := by
  obtain ⟨hparsed, hstatus, hmessage, hcommand⟩ : r.parsed = true ∧
      (r.status = if r.command.type = .exit then .exit else .ok) ∧ r.errorMessage = [] ∧
      r.command.WellFormed input := by
    rcases sqlParse_eq_iff.mp h with ⟨g, l, rfl, rfl⟩ | ⟨l, statement, hne, rfl, rfl⟩ |
      ⟨l, g, g', condition, rfl, rfl⟩
    · exact ⟨rfl, rfl, rfl, wellFormed_exit l⟩
    · cases statement with
      | exit => exact absurd rfl hne
      | insert name age => exact ⟨rfl, rfl, rfl, wellFormed_insert l name age⟩
      | select => exact ⟨rfl, rfl, rfl, wellFormed_select l⟩
      | selectWhere condition =>
        refine ⟨rfl, ?_, rfl, wellFormed_selectWhere l condition _⟩
        cases condition <;> rfl
    · refine ⟨rfl, ?_, rfl, ?_⟩
      · cases condition <;> rfl
      · rw [SelectLayout.whereText, ← List.append_assoc]
        exact wellFormed_selectWhere l condition _
  exact ⟨hparsed, hstatus, sqlParse_exit_iff h, hmessage, hcommand,
    fun m m' result hplan => sqlExecutePlan_error_iff hcommand.type hplan⟩

/-- Every error that the parser sets has one of the two shapes. -/
theorem sqlParse_rejected {r : SQLParseResult} (h : sqlParse input = (false, r)) :
    r.Rejected input := by
  apply sqlParse_of (P := SQLParseResult.Rejected input) _ _ h
  · intro result cursor _
    refine ⟨rfl, rfl, sqlParseSetSyntaxError_errorMessage result cursor, Or.inl ⟨rfl, rfl, ?_⟩⟩
    exact snprintf_eq (by decide)
  · intro result column clauseName hselects hknown
    refine ⟨rfl, rfl, sqlParseSetUnknownColumnError_errorMessage result column.bytes clauseName,
      Or.inr ⟨rfl, rfl, ?_, column, clauseName, hselects, hknown⟩⟩
    exact snprintf_eq (by decide)

/-- **How a parse ends**: with a command, or with an error. -/
theorem sqlParse_outcome (input : CBytes) :
    (∃ r, sqlParse input = (true, r) ∧ r.Accepted input) ∨
      ∃ r, sqlParse input = (false, r) ∧ r.Rejected input := by
  rcases hparse : sqlParse input with ⟨_ | _, r⟩
  · exact Or.inr ⟨r, rfl, sqlParse_rejected hparse⟩
  · exact Or.inl ⟨r, rfl, sqlParse_accepted hparse⟩

end MiniDbms
