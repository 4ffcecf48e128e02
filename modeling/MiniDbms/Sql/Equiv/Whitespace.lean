import MiniDbms.Sql.Equiv.Parse

/-!
# Whitespace in front of a statement

`sql_parse` skips leading whitespace in front of `EXIT` and `QUIT` only: `sql_parse_insert` and
`sql_parse_select` start at the first byte of the input.  A statement behind whitespace is therefore
a syntax error, with the command as `sql_parse_result_init` left it.  So leading whitespace makes a
difference exactly for the texts in which the parser, started at their first byte, gets far enough
to change the status or the command: `LeavesTrace`.
-/

namespace MiniDbms

open CString

/-! ### Results without a trace -/

/-- The command did not parse, with a syntax error, and nothing was written into the command. -/
def SQLParseResult.Blank (r : SQLParseResult) : Prop :=
  r.parsed = false ∧ r.status = .syntaxError ∧ r.command = sqlParseResultInit.command

theorem blank_init : sqlParseResultInit.Blank := ⟨rfl, rfl, rfl⟩

theorem blank_syntaxError (cursor : Cursor) :
    (sqlParseSetSyntaxError sqlParseResultInit cursor).Blank := ⟨rfl, rfl, rfl⟩

/-- As long as the command is empty, a step leaves a trace only when its token is there. -/
theorem not_blank_sqlExpect_iff {α : Type} {read : Option α × Cursor} {result : SQLParseResult}
    (hresult : ∀ cursor, (sqlParseSetSyntaxError result cursor).Blank)
    {next : α → Cursor → SQLParseResult} :
    ¬ (sqlExpect read result next).Blank ↔
      ∃ a cursor, read = (some a, cursor) ∧ ¬ (next a cursor).Blank := by
  unfold sqlExpect
  constructor
  · intro h
    split at h
    · exact absurd (hresult _) h
    · exact ⟨_, _, rfl, h⟩
  · rintro ⟨a, cursor, rfl, h⟩
    exact h

/-- The check of the table name. -/
theorem not_blank_ite_casecmpEq_iff {name word cursor : CBytes} {next : SQLParseResult} :
    ¬ (if ¬ casecmpEq name word then sqlParseSetSyntaxError sqlParseResultInit cursor
      else next).Blank ↔ casecmpEq name word = true ∧ ¬ next.Blank := by
  split_ifs with h
  · rw [and_iff_right h]
  · exact iff_of_false (not_not.mpr (blank_syntaxError _)) fun h' => h h'.1

/-! ### Gaps and strings -/

/-- Something is written when a byte other than the closing quote follows the opening one. -/
theorem sqlStringBuffer_ne_nil_iff {cursor : Cursor} :
    sqlStringBuffer cursor recordNameSize ≠ [] ↔
      ∃ (g : Gap) (c : UInt8) (rest : CBytes), cursor = g.text ++ 39 :: c :: rest ∧ c ≠ 39 := by
  have htake : ∀ s : CBytes, (s.takeWhile (· ≠ 39)).take (recordNameSize - 1) ≠ [] ↔
      ∃ c rest, s = c :: rest ∧ c ≠ 39 := by
    intro s
    cases s with
    | nil => simp
    | cons c rest =>
      by_cases hc : c = 39
      · subst hc
        simp
      · rw [List.takeWhile_cons_of_pos (by simpa using hc)]
        simp [recordNameSize, hc]
  unfold sqlStringBuffer
  constructor
  · intro h
    obtain ⟨g, hg⟩ := exists_gap_sqlSkipSpaces cursor
    split at h
    · exact absurd rfl h
    · rename_i q s heq
      split_ifs at h with hq
      · exact absurd rfl h
      · obtain ⟨c, rest, rfl, hc⟩ := (htake s).mp h
        rw [heq, not_not.mp hq] at hg
        exact ⟨g, c, rest, hg, hc⟩
  · rintro ⟨g, c, rest, rfl, hc⟩
    rw [sqlSkipSpaces_gap g (stopsAt_cons.mpr (by decide))]
    show (if (39 : UInt8) ≠ 39 then [] else _) ≠ []
    rw [if_neg (not_not.mpr rfl)]
    exact (htake _).mpr ⟨c, rest, rfl, hc⟩

/-- The buffer holds what a successful read gives. -/
theorem sqlStringBuffer_eq {cursor rest s : CBytes}
    (h : sqlParseString cursor recordNameSize = (some s, rest)) :
    sqlStringBuffer cursor recordNameSize = s := by
  obtain ⟨g, text, rfl, rfl⟩ := sqlParseString_eq_iff.mp h
  unfold sqlStringBuffer StringOperand.textBefore
  rw [sqlSkipSpaces_gap g (stopsAt_cons.mpr (by decide))]
  show (if (39 : UInt8) ≠ 39 then [] else _) = _
  have hlt := text.length_lt
  rw [if_neg (not_not.mpr rfl), takeWhile_eq_of_stopsAt]
  · exact List.take_of_length_le (by simp only [recordNameSize] at hlt ⊢; omega)
  · intro c hc
    rw [decide_eq_true_eq]
    rintro rfl
    exact text.no_quote hc
  · rw [stopsAt_cons]
    decide

/-! ### The texts that leave a trace -/

/-- `INSERT INTO users VALUES ('`, followed by `rest`. -/
def InsertLayout.openText (l : InsertLayout) (rest : CBytes) : CBytes :=
  l.insert.text ++ (l.beforeInto.text ++ (l.into.text ++ (l.beforeTable.text ++ (l.table.text ++
    (l.beforeValues.text ++ (l.values.text ++ (l.beforeOpen.text ++ 40 :: (l.beforeName.text ++
    39 :: rest))))))))

/-- The texts that begin with an `INSERT` whose name or age is read and not zero, or which are
one. -/
inductive InsertTrace : CBytes → Prop
  | name (l : InsertLayout) (c : UInt8) (rest : CBytes) : c ≠ 39 →
    InsertTrace (l.openText (c :: rest))
  | age (l : InsertLayout) (n : IntLiteral) (rest : CBytes) : StopsAt isdigit rest →
    n.parsed ≠ 0 →
    InsertTrace (l.openText (39 :: (l.beforeComma.text ++ 44 :: (l.beforeAge.text ++
      (n.text ++ rest)))))
  | statement (l : InsertLayout) (name : StringOperand) (age : IntLiteral) :
    InsertTrace (l.text name age)

/-- The texts that begin with a `SELECT` of an unknown column, are a `SELECT` of all rows, or begin
with a `SELECT` whose condition is read up to its operator. -/
inductive SelectTrace : CBytes → Prop
  | column (select : Spelling (ascii "SELECT")) (g : Sep) (column : Identifier) (rest : CBytes) :
    StopsAt isWordByte rest → sqlIsKnownColumn column.bytes = false →
    SelectTrace (select.text ++ (g.text ++ (column.bytes ++ rest)))
  | statement (l : SelectLayout) (e : Ending) : SelectTrace (l.textBefore e.text)
  | condition (l : SelectLayout) (g : Gap) (semicolon : Option Gap)
    (whereWord : Spelling (ascii "WHERE"))
      (beforeColumn : Sep) (column : Identifier) (beforeOperator : Gap) (op : TableComparison)
      (rest : CBytes) : (semicolon = none → g.text ≠ []) → op.EndsBefore rest →
    SelectTrace (l.textBefore (g.text ++ (semicolonText semicolon ++ (whereWord.text ++
      (beforeColumn.text ++ (column.bytes ++ (beforeOperator.text ++ (op.text ++ rest))))))))

/-- The texts in which the parser, started at their first byte, changes the status or the
command. -/
def LeavesTrace (s : CBytes) : Prop := InsertTrace s ∨ SelectTrace s

/-! ### INSERT -/

/-- A name stays in the command. -/
theorem not_blank_of_name {r : SQLParseResult} (h : r.command.name ≠ []) : ¬ r.Blank := by
  rintro ⟨-, -, hcommand⟩
  rw [hcommand] at h
  exact h rfl

theorem not_blank_of_intValue {r : SQLParseResult} (h : r.command.intValue ≠ 0) : ¬ r.Blank := by
  rintro ⟨-, -, hcommand⟩
  rw [hcommand] at h
  exact h rfl

/-- Name and age are not touched any more. -/
theorem sqlParseInsertEnd_command (tableName : CBytes) (result : SQLParseResult) (cursor : Cursor) :
    (sqlParseInsertEnd tableName result cursor).command.name = result.command.name ∧
      (sqlParseInsertEnd tableName result cursor).command.intValue = result.command.intValue := by
  unfold sqlParseInsertEnd
  refine sqlExpect_of (P := fun r => r.command.name = result.command.name ∧
    r.command.intValue = result.command.intValue) (fun _ => ⟨rfl, rfl⟩) fun _ _ => ?_
  exact sqlExpect_of (P := fun r => r.command.name = result.command.name ∧
    r.command.intValue = result.command.intValue) (fun _ => ⟨rfl, rfl⟩) fun _ _ => ⟨rfl, rfl⟩

theorem sqlParseInsertAge_name (tableName : CBytes) (result : SQLParseResult) (cursor : Cursor) :
    (sqlParseInsertAge tableName result cursor).command.name = result.command.name := by
  unfold sqlParseInsertAge
  refine sqlExpect_of (P := fun r => r.command.name = result.command.name) (fun _ => rfl) ?_
  intro _ _
  refine sqlExpect_of (P := fun r => r.command.name = result.command.name) (fun _ => rfl) ?_
  intro age cursor
  exact (sqlParseInsertEnd_command tableName _ cursor).1

/-- An age that is not 0 is a trace, and so is the end of the statement. -/
theorem not_blank_insertEnd_iff {tableName : CBytes} {age : ℤ} {cursor : Cursor} :
    ¬ (sqlParseInsertEnd tableName { sqlParseResultInit with
        command := { sqlParseResultInit.command with intValue := age } } cursor).Blank ↔
      age ≠ 0 ∨ ∃ (beforeClose : Gap) (e : Ending), cursor = beforeClose.text ++ 41 :: e.text := by
  by_cases h0 : age = 0
  · subst h0
    rw [or_iff_right (not_not.mpr rfl), sqlParseInsertEnd,
      not_blank_sqlExpect_iff fun _ => ⟨rfl, rfl, rfl⟩]
    constructor
    · rintro ⟨_, c₁, hc₁, h₁⟩
      obtain ⟨beforeClose, rfl⟩ := (sqlMatchChar_eq_iff (by decide)).mp hc₁
      obtain ⟨_, c₂, hc₂, -⟩ := (not_blank_sqlExpect_iff fun _ => ⟨rfl, rfl, rfl⟩).mp h₁
      obtain ⟨⟨e, rfl⟩, -⟩ := sqlMatchStatementEnd_eq_some_iff.mp hc₂
      exact ⟨beforeClose, e, rfl⟩
    · rintro ⟨beforeClose, e, rfl⟩
      refine ⟨(), _, (sqlMatchChar_eq_iff (by decide)).mpr ⟨_, rfl⟩, ?_⟩
      refine (not_blank_sqlExpect_iff fun _ => ⟨rfl, rfl, rfl⟩).mpr
        ⟨(), _, sqlMatchStatementEnd_eq_some_iff.mpr ⟨⟨e, rfl⟩, rfl⟩, ?_⟩
      rintro ⟨hparsed, -⟩
      cases hparsed
  · refine iff_of_true (not_blank_of_intValue ?_) (Or.inl h0)
    rw [(sqlParseInsertEnd_command _ _ _).2]
    exact h0

/-- Behind an empty name. -/
theorem not_blank_insertAge_iff {tableName : CBytes} {cursor : Cursor} :
    ¬ (sqlParseInsertAge tableName sqlParseResultInit cursor).Blank ↔
      ∃ (beforeComma beforeAge : Gap) (age : IntLiteral) (rest : CBytes),
        cursor = beforeComma.text ++ 44 :: (beforeAge.text ++ (age.text ++ rest)) ∧
        StopsAt isdigit rest ∧
        (age.parsed ≠ 0 ∨ ∃ (beforeClose : Gap) (e : Ending),
          rest = beforeClose.text ++ 41 :: e.text) := by
  rw [sqlParseInsertAge, not_blank_sqlExpect_iff fun _ => blank_syntaxError _]
  constructor
  · rintro ⟨_, c₁, hc₁, h₁⟩
    obtain ⟨beforeComma, rfl⟩ := (sqlMatchChar_eq_iff (by decide)).mp hc₁
    obtain ⟨value, c₂, hc₂, h₂⟩ := (not_blank_sqlExpect_iff fun _ => blank_syntaxError _).mp h₁
    obtain ⟨beforeAge, age, rfl, rfl, hstop⟩ := sqlParseInt_eq_iff.mp hc₂
    exact ⟨beforeComma, beforeAge, age, c₂, rfl, hstop, not_blank_insertEnd_iff.mp h₂⟩
  · rintro ⟨beforeComma, beforeAge, age, rest, rfl, hstop, h⟩
    refine ⟨(), _, (sqlMatchChar_eq_iff (by decide)).mpr ⟨_, rfl⟩, ?_⟩
    refine (not_blank_sqlExpect_iff fun _ => blank_syntaxError _).mpr
      ⟨_, _, sqlParseInt_eq_iff.mpr ⟨beforeAge, age, rfl, rfl, hstop⟩, ?_⟩
    exact not_blank_insertEnd_iff.mpr h

/-- The bytes of a name that are read are a trace, and behind an empty name the age and the end. -/
theorem not_blank_insertName_iff {tableName : CBytes} {cursor : Cursor} :
    ¬ (sqlParseInsertName tableName sqlParseResultInit cursor).Blank ↔
      (∃ (g : Gap) (c : UInt8) (rest : CBytes), cursor = g.text ++ 39 :: c :: rest ∧ c ≠ 39) ∨
      ∃ (g : Gap) (rest : CBytes), cursor = g.text ++ 39 :: 39 :: rest ∧
        ¬ (sqlParseInsertAge tableName sqlParseResultInit rest).Blank := by
  rw [← sqlStringBuffer_ne_nil_iff]
  by_cases hbuffer : sqlStringBuffer cursor recordNameSize = []
  · rw [or_iff_right (not_not.mpr hbuffer), sqlParseInsertName, hbuffer,
      not_blank_sqlExpect_iff fun _ => ⟨rfl, rfl, rfl⟩]
    constructor
    · rintro ⟨name, rest, hname, h⟩
      rw [sqlStringBuffer_eq hname] at hbuffer
      subst hbuffer
      obtain ⟨g, ⟨bytes, -, -⟩, rfl, rfl⟩ := sqlParseString_eq_iff.mp hname
      exact ⟨g, rest, rfl, h⟩
    · rintro ⟨g, rest, rfl, h⟩
      exact ⟨[], rest, sqlParseString_eq_iff.mpr ⟨g, ⟨[], by simp, by decide⟩, rfl, rfl⟩, h⟩
  · refine iff_of_true ?_ (Or.inl hbuffer)
    -- what has been read stays in the command, whether the read fails or not
    apply not_blank_of_name
    rw [sqlParseInsertName]
    cases hread : sqlParseString cursor recordNameSize with
    | mk name rest =>
      cases name with
      | none => exact hbuffer
      | some name =>
        show (sqlParseInsertAge tableName _ rest).command.name ≠ []
        rw [sqlParseInsertAge_name]
        show name ≠ []
        rw [← sqlStringBuffer_eq hread]
        exact hbuffer

/-- The row behind `INSERT INTO users VALUES (`. -/
theorem not_blank_insert_iff_row {s : CBytes} :
    ¬ (sqlParseInsert s sqlParseResultInit).Blank ↔
      ∃ (l : InsertLayout) (row : CBytes), s = l.insert.text ++ (l.beforeInto.text ++
        (l.into.text ++ (l.beforeTable.text ++ (l.table.text ++ (l.beforeValues.text ++
        (l.values.text ++ (l.beforeOpen.text ++ 40 :: row))))))) ∧
        ¬ (sqlParseInsertName l.table.text sqlParseResultInit row).Blank := by
  obtain ⟨-, hinto, husers, hvalues, -⟩ := isWord_keyword
  constructor
  · intro h
    unfold sqlParseInsert at h
    split at h
    · exact absurd blank_init h
    · rename_i u c hinsert
      obtain ⟨insert, rfl, h0⟩ := sqlMatchKeyword_eq_iff.mp hinsert
      obtain ⟨_, c₁, hc₁, h₁⟩ := (not_blank_sqlExpect_iff blank_syntaxError).mp h
      obtain ⟨beforeInto, into, rfl, h1⟩ := (sqlMatchKeyword_gap_eq_iff hinto).mp hc₁
      obtain ⟨w, c₂, hc₂, h₂⟩ := (not_blank_sqlExpect_iff blank_syntaxError).mp h₁
      obtain ⟨hw, h₃⟩ := not_blank_ite_casecmpEq_iff.mp h₂
      obtain ⟨beforeTable, table, rfl, rfl, h2⟩ :=
        (sqlParseIdentifier_spelling_iff husers (by decide)).mp ⟨hc₂, hw⟩
      obtain ⟨_, c₃, hc₃, h₄⟩ := (not_blank_sqlExpect_iff blank_syntaxError).mp h₃
      obtain ⟨beforeValues, values, rfl, -⟩ := (sqlMatchKeyword_gap_eq_iff hvalues).mp hc₃
      obtain ⟨_, c₄, hc₄, h₅⟩ := (not_blank_sqlExpect_iff blank_syntaxError).mp h₄
      obtain ⟨beforeOpen, rfl⟩ := (sqlMatchChar_eq_iff (by decide)).mp hc₄
      rw [(hinto.spelling into).stopsAt_gap] at h0
      rw [(husers.spelling table).stopsAt_gap] at h1
      rw [(hvalues.spelling values).stopsAt_gap] at h2
      exact ⟨{ (default : InsertLayout) with
        insert := insert, beforeInto := ⟨beforeInto, h0⟩, into := into
        beforeTable := ⟨beforeTable, h1⟩, table := table, beforeValues := ⟨beforeValues, h2⟩
        values := values, beforeOpen := beforeOpen }, c₄, rfl, h₅⟩
  · rintro ⟨l, row, rfl, h⟩
    rw [sqlParseInsert_row]
    exact h

/-- **Where `sql_parse_insert` leaves a trace.** -/
theorem not_blank_insert_iff {s : CBytes} :
    ¬ (sqlParseInsert s sqlParseResultInit).Blank ↔ InsertTrace s := by
  rw [not_blank_insert_iff_row]
  constructor
  · rintro ⟨l, row, rfl, h⟩
    rcases not_blank_insertName_iff.mp h with ⟨g, c, rest, rfl, hc⟩ | ⟨g, rest, rfl, hage⟩
    · exact .name { l with beforeName := g } c rest hc
    · obtain ⟨beforeComma, beforeAge, age, rest, rfl, hstop, hzero | ⟨beforeClose, e, rfl⟩⟩ :=
        not_blank_insertAge_iff.mp hage
      · exact .age { l with beforeName := g, beforeComma := beforeComma, beforeAge := beforeAge }
          age rest hstop hzero
      · exact .statement { l with
          beforeName := g, beforeComma := beforeComma, beforeAge := beforeAge
          beforeClose := beforeClose, ending := e } ⟨[], by simp, by decide⟩ age
  · intro h
    cases h with
    | name l c rest hc =>
      exact ⟨l, _, rfl, not_blank_insertName_iff.mpr (Or.inl ⟨l.beforeName, c, rest, rfl, hc⟩)⟩
    | age l n rest hstop hn =>
      refine ⟨l, _, rfl, not_blank_insertName_iff.mpr (Or.inr ⟨l.beforeName, _, rfl, ?_⟩)⟩
      exact not_blank_insertAge_iff.mpr ⟨_, _, n, rest, rfl, hstop, Or.inl hn⟩
    | statement l name age =>
      refine ⟨l, _, rfl, not_blank_insertName_iff.mpr ?_⟩
      obtain ⟨bytes, hquote, hlen⟩ := name
      cases bytes with
      | nil =>
        refine Or.inr ⟨l.beforeName, _, rfl, not_blank_insertAge_iff.mpr ?_⟩
        exact ⟨_, _, age, _, rfl, stopsAt_gap_cons (fun _ => isdigit_of_isspace) _ (by decide) _,
          Or.inr ⟨_, _, rfl⟩⟩
      | cons c bytes =>
        refine Or.inl ⟨l.beforeName, c, _, rfl, ?_⟩
        rintro rfl
        exact hquote List.mem_cons_self

/-! ### SELECT -/

/-- Behind `SELECT` without a `*`, an unknown column is a trace. -/
theorem not_blank_selectColumn_iff {cursor : Cursor} :
    ¬ (sqlParseSelectColumn cursor sqlParseResultInit).Blank ↔
      ∃ (g : Gap) (column : Identifier) (rest : CBytes), cursor = g.text ++ (column.bytes ++ rest) ∧
        StopsAt isWordByte rest ∧ sqlIsKnownColumn column.bytes = false := by
  rw [sqlParseSelectColumn, not_blank_sqlExpect_iff blank_syntaxError]
  constructor
  · rintro ⟨w, rest, hread, h⟩
    obtain ⟨g, column, rfl, rfl, hstop⟩ := sqlParseIdentifier_eq_iff.mp hread
    split_ifs at h with hknown
    · exact absurd (blank_syntaxError _) h
    · exact ⟨g, column, rest, rfl, hstop, Bool.eq_false_of_not_eq_true hknown⟩
  · rintro ⟨g, column, rest, rfl, hstop, hknown⟩
    refine ⟨_, _, sqlParseIdentifier_eq_iff.mpr ⟨g, column, rfl, rfl, hstop⟩, ?_⟩
    rw [if_pos (by rw [hknown]; exact Bool.false_ne_true)]
    rintro ⟨-, hstatus, -⟩
    cases hstatus

/-- A condition stays in the command. -/
theorem not_blank_of_hasWhere {r : SQLParseResult} (h : r.command.hasWhere = true) : ¬ r.Blank := by
  rintro ⟨-, -, hcommand⟩
  rw [hcommand] at h
  cases h

theorem sqlParseIntOperand_hasWhere (cursor : Cursor) (result : SQLParseResult)
    (type : SQLCommandType) :
    (sqlParseIntOperand cursor result type).command.hasWhere = result.command.hasWhere := by
  unfold sqlParseIntOperand
  refine sqlExpect_of (P := fun r => r.command.hasWhere = result.command.hasWhere) (fun _ => rfl) ?_
  intro _ _
  exact sqlExpect_of (P := fun r => r.command.hasWhere = result.command.hasWhere) (fun _ => rfl)
    fun _ _ => rfl

/-- Behind a `WHERE`, a trace is left from the operator on. -/
theorem not_blank_where_iff {cursor : Cursor} {tableName : CBytes} :
    ¬ (sqlParseWhere cursor sqlParseResultInit tableName).Blank ↔
      ∃ (whereWord : Spelling (ascii "WHERE")) (beforeColumn : Sep) (column : Identifier)
        (beforeOperator : Gap) (op : TableComparison) (rest : CBytes),
        cursor = whereWord.text ++ (beforeColumn.text ++ (column.bytes ++ (beforeOperator.text ++
          (op.text ++ rest)))) ∧ op.EndsBefore rest := by
  rw [sqlParseWhere, not_blank_sqlExpect_iff blank_syntaxError]
  constructor
  · rintro ⟨_, c₁, hc₁, h₁⟩
    obtain ⟨whereWord, rfl, hstop⟩ := sqlMatchKeyword_eq_iff.mp hc₁
    obtain ⟨w, c₂, hc₂, h₂⟩ := (not_blank_sqlExpect_iff blank_syntaxError).mp h₁
    obtain ⟨g, column, rfl, -, -⟩ := sqlParseIdentifier_eq_iff.mp hc₂
    obtain ⟨op, c₃, hc₃, -⟩ := (not_blank_sqlExpect_iff blank_syntaxError).mp h₂
    obtain ⟨beforeOperator, rfl, hop⟩ := sqlParseComparison_eq_iff.mp hc₃
    rw [column.stopsAt_gap] at hstop
    exact ⟨whereWord, ⟨g, hstop⟩, column, beforeOperator, op, c₃, rfl, hop⟩
  · rintro ⟨whereWord, beforeColumn, column, beforeOperator, op, rest, rfl, hop⟩
    refine ⟨(), _, sqlMatchKeyword_eq_iff.mpr ⟨whereWord, rfl,
      (stopsAt_gap (fun _ => isWordByte_of_isspace) _).mpr (Or.inl beforeColumn.ne_nil)⟩, ?_⟩
    refine (not_blank_sqlExpect_iff blank_syntaxError).mpr ⟨_, _, sqlParseIdentifier_eq_iff.mpr
      ⟨beforeColumn.toGap, column, rfl, rfl, stopsAt_comparison beforeOperator op rest⟩, ?_⟩
    refine (not_blank_sqlExpect_iff blank_syntaxError).mpr
      ⟨op, rest, sqlParseComparison_eq_iff.mpr ⟨beforeOperator, rfl, hop⟩, ?_⟩
    dsimp only
    apply not_blank_of_hasWhere
    split_ifs
    · exact sqlParseIntOperand_hasWhere _ _ _
    · rfl
    · refine sqlExpect_of (P := fun r => r.command.hasWhere = true) (fun _ => rfl) fun _ _ => ?_
      exact sqlExpect_of (P := fun r => r.command.hasWhere = true) (fun _ => rfl) fun _ _ => rfl
    · exact sqlParseIntOperand_hasWhere _ _ _
    · rfl

/-- The end of the statement is a trace, and so is a condition with its operator. -/
theorem not_blank_selectRest_iff {tableName cursor : CBytes} :
    ¬ (sqlParseSelectRest tableName cursor).Blank ↔
      (∃ e : Ending, cursor = e.text) ∨
      ∃ (g : Gap) (semicolon : Option Gap) (whereWord : Spelling (ascii "WHERE"))
        (beforeColumn : Sep) (column : Identifier) (beforeOperator : Gap) (op : TableComparison)
        (rest : CBytes), cursor = g.text ++ (semicolonText semicolon ++ (whereWord.text ++
          (beforeColumn.text ++ (column.bytes ++ (beforeOperator.text ++ (op.text ++ rest)))))) ∧
        op.EndsBefore rest := by
  have hword : IsWord (ascii "WHERE") := isWord_keyword.2.2.2.2.2.2.1
  unfold sqlParseSelectRest
  constructor
  · intro h
    split at h
    · rename_i hend
      obtain ⟨⟨e, rfl⟩, -⟩ := sqlMatchStatementEnd_eq_some_iff.mp hend
      exact Or.inl ⟨e, rfl⟩
    · rename_i c hend
      obtain ⟨whereWord, beforeColumn, column, beforeOperator, op, rest, rfl, hop⟩ :=
        not_blank_where_iff.mp h
      obtain ⟨g, semicolon, rfl⟩ :=
        (sqlMatchStatementEnd_word (hword.spelling whereWord) ⟨_, rfl⟩).mp hend
      exact Or.inr ⟨g, semicolon, whereWord, beforeColumn, column, beforeOperator, op, rest, rfl,
        hop⟩
  · rintro (⟨e, rfl⟩ | ⟨g, semicolon, whereWord, beforeColumn, column, beforeOperator, op, rest,
      rfl, hop⟩)
    · rw [(sqlMatchStatementEnd_eq_some_iff (u := ())).mpr ⟨⟨e, rfl⟩, rfl⟩]
      rintro ⟨hparsed, -⟩
      cases hparsed
    · rw [(sqlMatchStatementEnd_word (hword.spelling whereWord) ⟨_, rfl⟩).mpr ⟨g, semicolon, rfl⟩]
      exact not_blank_where_iff.mpr
        ⟨whereWord, beforeColumn, column, beforeOperator, op, rest, rfl, hop⟩

/-- The text behind `SELECT * FROM users`. -/
theorem not_blank_select_iff_rest {s : CBytes} :
    ¬ (sqlParseSelect s sqlParseResultInit).Blank ↔
      (∃ (select : Spelling (ascii "SELECT")) (g : Sep) (column : Identifier) (rest : CBytes),
        s = select.text ++ (g.text ++ (column.bytes ++ rest)) ∧ StopsAt isWordByte rest ∧
        sqlIsKnownColumn column.bytes = false) ∨
      ∃ (l : SelectLayout) (rest : CBytes), s = l.textBefore rest ∧ StopsAt isWordByte rest ∧
        ¬ (sqlParseSelectRest l.table.text rest).Blank := by
  obtain ⟨-, -, husers, -, -, hfrom, -⟩ := isWord_keyword
  constructor
  · intro h
    unfold sqlParseSelect at h
    split at h
    · exact absurd blank_init h
    · rename_i u c hselect
      split at h
      · rename_i c' hstar
        rw [sqlMatchChar_sqlSkipSpaces] at hstar
        obtain ⟨select, rfl, hboundary⟩ := sqlMatchKeyword_eq_iff.mp hselect
        obtain ⟨g, column, rest, rfl, hstop, hknown⟩ := not_blank_selectColumn_iff.mp h
        obtain ⟨g', hg'⟩ := exists_gap_sqlSkipSpaces c
        rw [← sqlMatchChar_none hstar] at hg'
        subst hg'
        -- what stands between the keyword and the column is not empty
        have hgap : g'.text ++ (g.text ++ (column.bytes ++ rest)) =
            (g'.append g).text ++ (column.bytes ++ rest) := (List.append_assoc _ _ _).symm
        rw [hgap, column.stopsAt_gap] at hboundary
        refine Or.inl ⟨select, ⟨g'.append g, hboundary⟩, column, rest, ?_, hstop, hknown⟩
        rw [hgap]
      · rename_i c₀ hstar
        obtain ⟨_, c₁, hc₁, h₁⟩ := (not_blank_sqlExpect_iff blank_syntaxError).mp h
        obtain ⟨w, c₂, hc₂, h₂⟩ := (not_blank_sqlExpect_iff blank_syntaxError).mp h₁
        obtain ⟨hw, h₃⟩ := not_blank_ite_casecmpEq_iff.mp h₂
        obtain ⟨l, htext, rfl, hstop⟩ := exists_selectLayout hselect hstar hc₁ hc₂ hw
        rw [sqlMatchStatementEnd_sqlSkipSpaces] at h₃
        exact Or.inr ⟨l, c₂, htext, hstop, h₃⟩
  · rintro (⟨select, g, column, rest, rfl, hstop, hknown⟩ | ⟨l, rest, rfl, hstop, h⟩)
    · unfold sqlParseSelect
      obtain ⟨k, tail, hcons, hk⟩ := column.exists_cons
      have hword := isWordByte_of_first hk
      rw [(sqlMatchKeyword_eq_iff (u := ())).mpr ⟨select, rfl,
        (stopsAt_gap (fun _ => isWordByte_of_isspace) _).mpr (Or.inl g.ne_nil)⟩]
      -- the column does not begin with a star
      have hstar : sqlMatchChar (sqlSkipSpaces (g.text ++ (column.bytes ++ rest))) 42 =
          (none, column.bytes ++ rest) := by
        rw [sqlSkipSpaces_gap g.toGap (by
          rw [hcons, List.cons_append, stopsAt_cons]; exact isspace_of_isWordByte hword), hcons]
        unfold sqlMatchChar
        rw [List.cons_append, sqlSkipSpaces, List.dropWhile_cons_of_neg (by
          rw [isspace_of_isWordByte hword]; exact Bool.noConfusion)]
        show (if k ≠ 42 then _ else _) = _
        rw [if_pos]
        rintro rfl
        cases hword
      dsimp only
      rw [hstar]
      exact not_blank_selectColumn_iff.mpr ⟨default, column, rest, rfl, hstop, hknown⟩
    · rw [sqlParseSelect_textBefore l hstop]
      exact h

/-- **Where `sql_parse_select` leaves a trace.** -/
theorem not_blank_select_iff {s : CBytes} :
    ¬ (sqlParseSelect s sqlParseResultInit).Blank ↔ SelectTrace s := by
  have hwhere : IsWord (ascii "WHERE") := isWord_keyword.2.2.2.2.2.2.1
  rw [not_blank_select_iff_rest]
  constructor
  · rintro (⟨select, g, column, rest, rfl, hstop, hknown⟩ | ⟨l, rest, rfl, hstop, h⟩)
    · exact .column select g column rest hstop hknown
    · rcases not_blank_selectRest_iff.mp h with ⟨e, rfl⟩ | ⟨g, semicolon, whereWord, beforeColumn,
        column, beforeOperator, op, rest, rfl, hop⟩
      · exact .statement l e
      · refine .condition l g semicolon whereWord beforeColumn column beforeOperator op rest ?_ hop
        rintro rfl
        exact ((hwhere.spelling whereWord).stopsAt_gap g _).mp hstop
  · intro h
    cases h with
    | column select g column rest hstop hknown =>
      exact Or.inl ⟨select, g, column, rest, rfl, hstop, hknown⟩
    | statement l e =>
      exact Or.inr ⟨l, e.text, rfl, e.stopsAt (fun _ => isWordByte_of_isspace) (by decide),
        not_blank_selectRest_iff.mpr (Or.inl ⟨e, rfl⟩)⟩
    | condition l g semicolon whereWord beforeColumn column beforeOperator op rest hg hop =>
      refine Or.inr ⟨l, _, rfl, ?_, not_blank_selectRest_iff.mpr (Or.inr
        ⟨g, semicolon, whereWord, beforeColumn, column, beforeOperator, op, rest, rfl, hop⟩)⟩
      cases semicolon with
      | none => exact ((hwhere.spelling whereWord).stopsAt_gap g _).mpr (hg rfl)
      | some g' => exact stopsAt_gap_cons (fun _ => isWordByte_of_isspace) g (by decide) _

/-! ### Whole inputs -/

/-- No keyword stands behind whitespace. -/
theorem sqlMatchKeyword_sep {word : CBytes} (hword : IsWord word) (g : Sep) (s : CBytes) :
    sqlMatchKeyword (g.text ++ s) word = (none, g.text ++ s) := by
  cases hmatch : sqlMatchKeyword (g.text ++ s) word with
  | mk matched rest =>
    cases matched with
    | none => rw [sqlMatchKeyword_none hmatch]
    | some u =>
      obtain ⟨w, hw, -⟩ := sqlMatchKeyword_eq_iff.mp hmatch
      have hstop := (hword.spelling w).stopsAt_isspace rest
      obtain ⟨c, tail, hcons⟩ := List.exists_cons_of_ne_nil g.ne_nil
      rw [← hw, hcons, List.cons_append, stopsAt_cons,
        g.space c (hcons ▸ List.mem_cons_self)] at hstop
      cases hstop

/-- Behind whitespace, the two statement parsers leave the result alone. -/
theorem sqlParse_sep (g : Sep) {s : CBytes}
    (hexit : sqlMatchExit (sqlSkipSpaces s) = (none, sqlSkipSpaces s)) :
    sqlParse (g.text ++ s) =
      (false, sqlParseSetSyntaxError sqlParseResultInit (sqlSkipSpaces s)) := by
  obtain ⟨hinsert, -, -, -, hselect, -⟩ := isWord_keyword
  have hskip : sqlSkipSpaces (g.text ++ s) = sqlSkipSpaces s :=
    List.dropWhile_append_of_pos g.space
  have h1 : sqlParseInsert (g.text ++ s) sqlParseResultInit = sqlParseResultInit := by
    unfold sqlParseInsert
    rw [sqlMatchKeyword_sep hinsert]
  have h2 : sqlParseSelect (g.text ++ s) sqlParseResultInit = sqlParseResultInit := by
    unfold sqlParseSelect
    rw [sqlMatchKeyword_sep hselect]
  unfold sqlParse
  dsimp only
  rw [hskip, hexit]
  dsimp only
  rw [h1, h2]
  rfl

/-- A text that leaves a trace begins with `INSERT` or `SELECT`. -/
theorem LeavesTrace.sqlMatchExit {s : CBytes} (h : LeavesTrace s) :
    sqlMatchExit (sqlSkipSpaces s) = (none, sqlSkipSpaces s) := by
  obtain ⟨hinsert, -, -, -, hselect, -⟩ := isWord_keyword
  have hspelling : ∀ {word : CBytes} {k : UInt8}, IsWord word → word.head? = some k →
      tolower k ≠ tolower 69 → tolower k ≠ tolower 81 → ∀ (w : Spelling word) (rest : CBytes),
      MiniDbms.sqlMatchExit (sqlSkipSpaces (w.text ++ rest)) =
        (none, sqlSkipSpaces (w.text ++ rest)) := by
    intro word k hword hk h69 h81 w rest
    have hskip : sqlSkipSpaces (w.text ++ rest) = w.text ++ rest :=
      sqlSkipSpaces_eq_iff.mpr ⟨⟨default, rfl⟩, (hword.spelling w).stopsAt_isspace rest⟩
    rw [hskip]
    exact sqlMatchExit_spelling hk h69 h81 w rest
  have hI : (ascii "INSERT").head? = some 73 := by decide
  have hS : (ascii "SELECT").head? = some 83 := by decide
  rcases h with h | h
  · cases h with
    | name l => exact hspelling hinsert hI (by decide) (by decide) l.insert _
    | age l => exact hspelling hinsert hI (by decide) (by decide) l.insert _
    | statement l => exact hspelling hinsert hI (by decide) (by decide) l.insert _
  · cases h with
    | column select => exact hspelling hselect hS (by decide) (by decide) select _
    | statement l => exact hspelling hselect hS (by decide) (by decide) l.select _
    | condition l => exact hspelling hselect hS (by decide) (by decide) l.select _

/-- Without `EXIT` and `QUIT`, the result is blank exactly when no trace is left. -/
theorem blank_sqlParse_iff {s : CBytes}
    (hexit : MiniDbms.sqlMatchExit (sqlSkipSpaces s) = (none, sqlSkipSpaces s)) :
    (sqlParse s).2.Blank ↔ ¬ LeavesTrace s := by
  have hinit : ¬ ((sqlParseResultInit.parsed || decide (sqlParseResultInit.errorMessage ≠ [])) =
      true) := by decide
  rw [LeavesTrace, ← not_blank_insert_iff, ← not_blank_select_iff, not_or, not_not, not_not]
  unfold sqlParse
  dsimp only
  rw [hexit]
  dsimp only
  by_cases hkeyword : sqlParseInsert s sqlParseResultInit = sqlParseResultInit
  · -- `sql_parse_insert` has done nothing, and `sql_parse_select` decides
    rw [hkeyword, if_neg hinit, and_iff_right blank_init]
    split_ifs with hsettled
    · rfl
    · rw [Bool.or_eq_true, decide_eq_true_eq] at hsettled
      rw [(sqlParseSelect_settled s).resolve_right hsettled]
      exact iff_of_true (blank_syntaxError _) blank_init
  · -- a text that begins with `INSERT` is no `SELECT`
    have hsettled := (sqlParseInsert_settled s).resolve_left hkeyword
    rw [if_pos (by rw [Bool.or_eq_true, decide_eq_true_eq]; exact hsettled)]
    have hselect : sqlParseSelect s sqlParseResultInit = sqlParseResultInit := by
      cases hinsert : sqlMatchKeyword s (ascii "INSERT") with
      | mk matched rest =>
        cases matched with
        | none =>
          unfold sqlParseInsert at hkeyword
          rw [hinsert] at hkeyword
          exact absurd rfl hkeyword
        | some u =>
          obtain ⟨w, rfl, -⟩ := sqlMatchKeyword_eq_iff.mp hinsert
          have hno := sqlMatchKeyword_spelling (by decide : (ascii "INSERT").head? = some 73)
            (by decide : (ascii "SELECT").head? = some 83) (by decide) w rest
          unfold sqlParseSelect
          rw [hno]
    rw [hselect, and_iff_left blank_init]

/-- Two texts with the same answer: return value, status, whole command, and lock mode. -/
structure SameParse (s t : CBytes) : Prop where
  parsed : (sqlParse s).1 = (sqlParse t).1
  status : (sqlParse s).2.status = (sqlParse t).2.status
  command : (sqlParse s).2.command = (sqlParse t).2.command
  lockMode : sqlDetermineLockMode s = sqlDetermineLockMode t

/-- **Leading whitespace makes no difference exactly when the text behind it, read from its first
byte, would leave no trace.** -/
theorem sqlParse_leading_whitespace_iff (w : Gap) (s : CBytes) :
    SameParse (w.text ++ s) s ↔ w.text = [] ∨ ¬ LeavesTrace s := by
  by_cases hw : w.text = []
  · rw [hw, List.nil_append]
    exact iff_of_true ⟨rfl, rfl, rfl, rfl⟩ (Or.inl rfl)
  rw [or_iff_right hw]
  cases hexit : MiniDbms.sqlMatchExit (sqlSkipSpaces s) with
  | mk matched rest =>
    cases matched with
    | some u =>
      -- EXIT and QUIT are looked for behind the whitespace of both texts
      have hsame : sqlParse (w.text ++ s) = sqlParse s := by
        unfold sqlParse
        rw [show sqlSkipSpaces (w.text ++ s) = sqlSkipSpaces s from
          List.dropWhile_append_of_pos w.space]
        dsimp only
        rw [hexit]
      refine iff_of_true ⟨by rw [hsame], by rw [hsame], by rw [hsame],
        sqlDetermineLockMode_gap w s⟩ fun htrace => ?_
      rw [htrace.sqlMatchExit] at hexit
      cases hexit
    | none =>
      have hrest := sqlMatchExit_none hexit
      subst hrest
      have hsep : sqlParse (w.text ++ s) = _ := sqlParse_sep ⟨w, hw⟩ hexit
      rw [← blank_sqlParse_iff hexit]
      constructor
      · rintro ⟨hparsed, hstatus, hcommand, -⟩
        rw [hsep] at hparsed hstatus hcommand
        exact ⟨(sqlParse_fst s).symm.trans hparsed.symm, hstatus.symm, hcommand.symm⟩
      · rintro ⟨hparsed, hstatus, hcommand⟩
        refine ⟨?_, ?_, ?_, sqlDetermineLockMode_gap w s⟩
        · rw [hsep, sqlParse_fst, hparsed]
        · rw [hsep, hstatus]
          rfl
        · rw [hsep, hcommand]
          rfl

/-- A newline in front of a `SELECT`. -/
theorem sqlParse_leading_newline :
    ¬ SameParse (10 :: ascii "SELECT * FROM users") (ascii "SELECT * FROM users") := by
  rintro ⟨hparsed, -⟩
  exact absurd hparsed (by decide)

end MiniDbms
