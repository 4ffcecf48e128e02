import MiniDbms.Sql.Equiv.Tokens

/-!
# The texts that the parser accepts

`sqlParse_eq_iff` says exactly which texts `sql_parse` accepts, and with which command: the
statements of the grammar, `EXIT` and `QUIT` also behind whitespace, and `SELECT * FROM users; WHERE
...` with a semicolon in front of the `WHERE`, because the attempt to match the end of the statement
moves the cursor over it.
-/

namespace MiniDbms

open CString

/-! ### The results of the statements -/

/-- The number operand of a condition as the parser reads it, 0 when there is none. -/
def Condition.intValue (condition : Condition IntLiteral) : ℤ :=
  (condition.number.map IntLiteral.parsed).getD 0

/-- The command that the parser makes of a statement. -/
def Statement.command (l : Layout) : Statement IntLiteral → SQLCommand
  | .exit => ⟨.exit, .eq, [], [], [], [], [], 0, false⟩
  | .insert name age =>
    ⟨.insert, .eq, l.insert.table.text, name.bytes, [], [], [], age.parsed, false⟩
  | .select => ⟨.selectAll, .eq, l.select.table.text, [], [], [], [], 0, false⟩
  | .selectWhere condition =>
    ⟨condition.type, condition.comparison, l.select.table.text, [], [],
      l.condition.column condition, condition.textValue, condition.intValue, true⟩

/-- The result of parsing a statement. -/
def Statement.result (l : Layout) (statement : Statement IntLiteral) : SQLParseResult where
  parsed := true
  command := statement.command l
  status := match statement with
    | .exit => .exit
    | _ => .ok
  errorCode := 0
  sqlState := []
  errorMessage := []

/-! ### Steps -/

theorem sqlParseSetSyntaxError_parsed (result : SQLParseResult) (cursor : Cursor) :
    (sqlParseSetSyntaxError result cursor).parsed = false := rfl

theorem snprintf_append_ne_nil {size : ℕ} {s t : CBytes} (hsize : 1 < size) (hs : s ≠ []) :
    snprintf size (s ++ t) ≠ [] := by
  have hpos : 0 < s.length := List.length_pos_iff.mpr hs
  apply List.length_pos_iff.mp
  rw [snprintf, List.length_take, List.length_append]
  omega

/-- An error message is not empty. -/
theorem sqlParseSetSyntaxError_errorMessage (result : SQLParseResult) (cursor : Cursor) :
    (sqlParseSetSyntaxError result cursor).errorMessage ≠ [] := by
  simp only [sqlParseSetSyntaxError, List.append_assoc]
  exact snprintf_append_ne_nil (by decide) (ascii_ne_nil (by decide))

theorem sqlParseSetUnknownColumnError_errorMessage (result : SQLParseResult)
    (column clauseName : CBytes) :
    (sqlParseSetUnknownColumnError result column clauseName).errorMessage ≠ [] := by
  simp only [sqlParseSetUnknownColumnError, List.append_assoc]
  exact snprintf_append_ne_nil (by decide) (ascii_ne_nil (by decide))

/-- A command was parsed, or there is an error message. -/
def SQLParseResult.Settled (r : SQLParseResult) : Prop := r.parsed = true ∨ r.errorMessage ≠ []

/-- What holds of the syntax error and of everything behind a step holds behind the step. -/
theorem sqlExpect_of {P : SQLParseResult → Prop} {α : Type} {read : Option α × Cursor}
    {result : SQLParseResult} {next : α → Cursor → SQLParseResult}
    (herror : ∀ cursor, P (sqlParseSetSyntaxError result cursor))
    (hnext : ∀ a cursor, P (next a cursor)) : P (sqlExpect read result next) := by
  unfold sqlExpect
  split
  · exact herror _
  · exact hnext _ _

/-- A step ends in a parsed command exactly when its token is there and the rest does. -/
theorem sqlExpect_eq_iff {α : Type} {read : Option α × Cursor} {result r : SQLParseResult}
    {next : α → Cursor → SQLParseResult} (hr : r.parsed = true) :
    sqlExpect read result next = r ↔ ∃ a cursor, read = (some a, cursor) ∧ next a cursor = r := by
  unfold sqlExpect
  constructor
  · intro h
    split at h
    · rw [← h, sqlParseSetSyntaxError_parsed] at hr
      cases hr
    · exact ⟨_, _, rfl, h⟩
  · rintro ⟨a, cursor, rfl, h⟩
    exact h

/-- The check of the table name. -/
theorem ite_casecmpEq_eq_iff {result r : SQLParseResult} (hr : r.parsed = true) {word name : CBytes}
    {next : SQLParseResult} :
    (if ¬ casecmpEq name word then sqlParseSetSyntaxError result name else next) = r ↔
      casecmpEq name word = true ∧ next = r := by
  split_ifs with h
  · rw [and_iff_right h]
  · refine iff_of_false ?_ fun h' => h h'.1
    intro heq
    rw [← heq, sqlParseSetSyntaxError_parsed] at hr
    cases hr

/-! ### Boundaries -/

theorem isWord_keyword : IsWord (ascii "INSERT") ∧ IsWord (ascii "INTO") ∧ IsWord (ascii "users") ∧
    IsWord (ascii "VALUES") ∧ IsWord (ascii "SELECT") ∧ IsWord (ascii "FROM") ∧
    IsWord (ascii "WHERE") ∧ IsWord (ascii "id") ∧ IsWord (ascii "name") ∧ IsWord (ascii "age") ∧
    IsWord (ascii "EXIT") ∧ IsWord (ascii "QUIT") := by
  decide

/-- Behind a gap, a byte of another class ends a class without whitespace. -/
theorem stopsAt_gap_cons {p : UInt8 → Bool} (hp : ∀ c, isspace c = true → p c = false) (g : Gap)
    {c : UInt8} (hc : p c = false) (rest : CBytes) : StopsAt p (g.text ++ c :: rest) :=
  (stopsAt_gap hp g).mpr (Or.inr (stopsAt_cons.mpr hc))

theorem Ending.stopsAt {p : UInt8 → Bool} (hp : ∀ c, isspace c = true → p c = false)
    (h59 : p 59 = false) (e : Ending) : StopsAt p e.text := by
  have htrailing : StopsAt p (e.trailing.text ++ []) :=
    (stopsAt_gap hp e.trailing).mpr (Or.inr (stopsAt_nil p))
  rw [List.append_nil] at htrailing
  apply (stopsAt_gap hp e.gap).mpr
  cases e.semicolon with
  | true => exact Or.inr (stopsAt_cons.mpr h59)
  | false => exact Or.inr htrailing

/-! ### INSERT -/

/-- The part of `sql_parse_insert` behind the age. -/
def sqlParseInsertEnd (tableName : CBytes) (result : SQLParseResult) (cursor : Cursor) :
    SQLParseResult :=
  sqlExpect (sqlMatchChar cursor 41) result fun _ cursor =>
  sqlExpect (sqlMatchStatementEnd cursor) result fun _ _ =>
  { result with
    command := { result.command with tableName := tableName, type := .insert }
    parsed := true
    status := .ok }

/-- The part of `sql_parse_insert` behind the name. -/
def sqlParseInsertAge (tableName : CBytes) (result : SQLParseResult) (cursor : Cursor) :
    SQLParseResult :=
  sqlExpect (sqlMatchChar cursor 44) result fun _ cursor =>
  sqlExpect (sqlParseInt cursor) result fun age cursor =>
  sqlParseInsertEnd tableName
    { result with command := { result.command with intValue := age } } cursor

/-- The part of `sql_parse_insert` at the name. -/
def sqlParseInsertName (tableName : CBytes) (result : SQLParseResult) (cursor : Cursor) :
    SQLParseResult :=
  let read := { result with
    command := { result.command with name := sqlStringBuffer cursor recordNameSize } }
  sqlExpect (sqlParseString cursor recordNameSize) read fun name cursor =>
  sqlParseInsertAge tableName
    { result with command := { result.command with name := name } } cursor

/-- The words in front of the row are read. -/
theorem sqlParseInsert_row (l : InsertLayout) (row : CBytes) :
    sqlParseInsert (l.insert.text ++ (l.beforeInto.text ++ (l.into.text ++ (l.beforeTable.text ++
        (l.table.text ++ (l.beforeValues.text ++ (l.values.text ++
          (l.beforeOpen.text ++ 40 :: row)))))))) sqlParseResultInit =
      sqlParseInsertName l.table.text sqlParseResultInit row := by
  obtain ⟨-, hinto, husers, hvalues, -⟩ := isWord_keyword
  have hinsert : sqlMatchKeyword (l.insert.text ++ (l.beforeInto.text ++ (l.into.text ++
      (l.beforeTable.text ++ (l.table.text ++ (l.beforeValues.text ++ (l.values.text ++
        (l.beforeOpen.text ++ 40 :: row)))))))) (ascii "INSERT") = (some (), _) :=
    sqlMatchKeyword_eq_iff.mpr
      ⟨l.insert, rfl, ((hinto.spelling l.into).stopsAt_gap _ _).mpr l.beforeInto.ne_nil⟩
  have hinto' : sqlMatchKeyword (sqlSkipSpaces (l.beforeInto.text ++ (l.into.text ++
      (l.beforeTable.text ++ (l.table.text ++ (l.beforeValues.text ++ (l.values.text ++
        (l.beforeOpen.text ++ 40 :: row)))))))) (ascii "INTO") = (some (), _) :=
    (sqlMatchKeyword_gap_eq_iff hinto).mpr
      ⟨_, l.into, rfl, ((husers.spelling l.table).stopsAt_gap _ _).mpr l.beforeTable.ne_nil⟩
  obtain ⟨htable, hsame⟩ := (sqlParseIdentifier_spelling_iff husers (by decide)).mpr
    ⟨l.beforeTable.toGap, l.table, rfl, rfl,
      ((hvalues.spelling l.values).stopsAt_gap _ (l.beforeOpen.text ++ 40 :: row)).mpr
        l.beforeValues.ne_nil⟩
  have hvalues' : sqlMatchKeyword (sqlSkipSpaces (l.beforeValues.text ++ (l.values.text ++
      (l.beforeOpen.text ++ 40 :: row)))) (ascii "VALUES") = (some (), _) :=
    (sqlMatchKeyword_gap_eq_iff hvalues).mpr
      ⟨_, l.values, rfl, stopsAt_gap_cons (fun _ => isWordByte_of_isspace) _ (by decide) _⟩
  have hopen : sqlMatchChar (l.beforeOpen.text ++ 40 :: row) 40 = (some (), row) :=
    (sqlMatchChar_eq_iff (by decide)).mpr ⟨_, rfl⟩
  unfold sqlParseInsert
  rw [hinsert]
  dsimp only
  rw [hinto', sqlExpect, htable, sqlExpect, if_neg (not_not.mpr hsame), hvalues', sqlExpect, hopen,
    sqlExpect]
  rfl

/-- **The texts that `sql_parse_insert` accepts.** -/
theorem sqlParseInsert_eq_iff {s : CBytes} {r : SQLParseResult} (hr : r.parsed = true) :
    sqlParseInsert s sqlParseResultInit = r ↔
      ∃ (l : InsertLayout) (name : StringOperand) (age : IntLiteral), s = l.text name age ∧
        r = ⟨true, ⟨.insert, .eq, l.table.text, name.bytes, [], [], [], age.parsed, false⟩, .ok, 0,
          [], []⟩ := by
  obtain ⟨-, hinto, husers, hvalues, -⟩ := isWord_keyword
  constructor
  · intro h
    unfold sqlParseInsert at h
    split at h
    · rw [← h] at hr
      cases hr
    · rename_i u c hinsert
      obtain ⟨insert, rfl, h0⟩ := sqlMatchKeyword_eq_iff.mp hinsert
      obtain ⟨_, c₁, hc₁, h₁⟩ := (sqlExpect_eq_iff hr).mp h
      obtain ⟨beforeInto, into, rfl, h1⟩ := (sqlMatchKeyword_gap_eq_iff hinto).mp hc₁
      obtain ⟨w, c₂, hc₂, h₂⟩ := (sqlExpect_eq_iff hr).mp h₁
      obtain ⟨hw, h₃⟩ := (ite_casecmpEq_eq_iff hr).mp h₂
      obtain ⟨beforeTable, table, rfl, rfl, h2⟩ :=
        (sqlParseIdentifier_spelling_iff husers (by decide)).mp ⟨hc₂, hw⟩
      obtain ⟨_, c₃, hc₃, h₄⟩ := (sqlExpect_eq_iff hr).mp h₃
      obtain ⟨beforeValues, values, rfl, -⟩ := (sqlMatchKeyword_gap_eq_iff hvalues).mp hc₃
      obtain ⟨_, c₄, hc₄, h₅⟩ := (sqlExpect_eq_iff hr).mp h₄
      obtain ⟨beforeOpen, rfl⟩ := (sqlMatchChar_eq_iff (by decide)).mp hc₄
      obtain ⟨name, c₅, hc₅, h₆⟩ := (sqlExpect_eq_iff hr).mp h₅
      obtain ⟨beforeName, text, rfl, rfl⟩ := sqlParseString_eq_iff.mp hc₅
      obtain ⟨_, c₆, hc₆, h₇⟩ := (sqlExpect_eq_iff hr).mp h₆
      obtain ⟨beforeComma, rfl⟩ := (sqlMatchChar_eq_iff (by decide)).mp hc₆
      obtain ⟨value, c₇, hc₇, h₈⟩ := (sqlExpect_eq_iff hr).mp h₇
      obtain ⟨beforeAge, age, rfl, rfl, -⟩ := sqlParseInt_eq_iff.mp hc₇
      obtain ⟨_, c₈, hc₈, h₉⟩ := (sqlExpect_eq_iff hr).mp h₈
      obtain ⟨beforeClose, rfl⟩ := (sqlMatchChar_eq_iff (by decide)).mp hc₈
      obtain ⟨_, c₉, hc₉, hdone⟩ := (sqlExpect_eq_iff hr).mp h₉
      obtain ⟨⟨ending, rfl⟩, -⟩ := sqlMatchStatementEnd_eq_some_iff.mp hc₉
      -- between two words there is a gap
      rw [(hinto.spelling into).stopsAt_gap] at h0
      rw [(husers.spelling table).stopsAt_gap] at h1
      rw [(hvalues.spelling values).stopsAt_gap] at h2
      exact ⟨⟨insert, ⟨beforeInto, h0⟩, into, ⟨beforeTable, h1⟩, table, ⟨beforeValues, h2⟩, values,
        beforeOpen, beforeName, beforeComma, beforeAge, beforeClose, ending⟩, text, age, rfl,
        hdone.symm⟩
  · rintro ⟨l, name, age, rfl, rfl⟩
    refine (sqlParseInsert_row l _).trans ?_
    refine (sqlExpect_eq_iff rfl).mpr ⟨_, _, sqlParseString_eq_iff.mpr ⟨_, name, rfl, rfl⟩, ?_⟩
    refine (sqlExpect_eq_iff rfl).mpr ⟨(), _, (sqlMatchChar_eq_iff (by decide)).mpr ⟨_, rfl⟩, ?_⟩
    refine (sqlExpect_eq_iff rfl).mpr ⟨_, _, sqlParseInt_eq_iff.mpr
      ⟨_, age, rfl, rfl, stopsAt_gap_cons (fun _ => isdigit_of_isspace) _ (by decide) _⟩, ?_⟩
    refine (sqlExpect_eq_iff rfl).mpr ⟨(), _, (sqlMatchChar_eq_iff (by decide)).mpr ⟨_, rfl⟩, ?_⟩
    exact (sqlExpect_eq_iff rfl).mpr
      ⟨(), _, sqlMatchStatementEnd_eq_some_iff.mpr ⟨⟨l.ending, rfl⟩, rfl⟩, rfl⟩

/-! ### SELECT -/

/-- Where an integer condition ends. -/
theorem sqlParseIntOperand_eq_iff {cursor : Cursor} {result r : SQLParseResult}
    {type : SQLCommandType} (hr : r.parsed = true) :
    sqlParseIntOperand cursor result type = r ↔
      ∃ (g : Gap) (n : IntLiteral) (e : Ending), cursor = g.text ++ (n.text ++ e.text) ∧
        r = { result with
          command := { result.command with intValue := n.parsed, type := type }
          parsed := true
          status := .ok } := by
  unfold sqlParseIntOperand
  constructor
  · intro h
    obtain ⟨value, c₁, hc₁, h₁⟩ := (sqlExpect_eq_iff hr).mp h
    obtain ⟨g, n, rfl, rfl, -⟩ := sqlParseInt_eq_iff.mp hc₁
    obtain ⟨_, c₂, hc₂, h₂⟩ := (sqlExpect_eq_iff hr).mp h₁
    obtain ⟨⟨e, rfl⟩, -⟩ := sqlMatchStatementEnd_eq_some_iff.mp hc₂
    exact ⟨g, n, e, rfl, h₂.symm⟩
  · rintro ⟨g, n, e, rfl, rfl⟩
    refine (sqlExpect_eq_iff rfl).mpr ⟨_, _, sqlParseInt_eq_iff.mpr
      ⟨g, n, rfl, rfl, e.stopsAt (fun _ => isdigit_of_isspace) (by decide)⟩, ?_⟩
    exact (sqlExpect_eq_iff rfl).mpr
      ⟨(), _, sqlMatchStatementEnd_eq_some_iff.mpr ⟨⟨e, rfl⟩, rfl⟩, rfl⟩

/-- The spellings of two different words are different. -/
theorem Spelling.casecmpEq_of_ne {word word' : CBytes} (w : Spelling word)
    (h : casecmpEq word word' = false) : casecmpEq w.text word' = false := by
  have hsame := casecmpEq_iff.mp w.same
  unfold casecmpEq at h ⊢
  rw [hsame]
  exact h

/-- Behind a gap, an operator is not followed by `=`. -/
theorem endsBefore_gap (op : TableComparison) (g : Gap) {rest : CBytes}
    (hrest : rest.head? ≠ some 61) : op.EndsBefore (g.text ++ rest) := by
  intro _
  apply stopsAt_beq_iff.mp
  refine (stopsAt_gap (fun c hc => ?_) g).mpr (Or.inr (stopsAt_beq_iff.mpr hrest))
  rw [beq_eq_false_iff_ne]
  rintro rfl
  cases hc

/-- An operand does not begin with `=`. -/
theorem Condition.head?_operandBefore (condition : Condition IntLiteral) (rest : CBytes) :
    (condition.operandBefore rest).head? ≠ some 61 := by
  have hnumber : ∀ n : IntLiteral, (n.text ++ rest).head? ≠ some 61 := by
    intro n
    obtain ⟨c, tail, hcons, hc⟩ := n.exists_cons
    rw [hcons, List.cons_append, List.head?_cons]
    intro h
    cases h
    rcases hc with hc | hc <;> cases hc
  cases condition with
  | id _ n => exact hnumber n
  | name text => simp [Condition.operandBefore, StringOperand.textBefore]
  | age _ n => exact hnumber n

/-- Behind an identifier there is a gap and an operator. -/
theorem stopsAt_comparison (g : Gap) (op : TableComparison) (rest : CBytes) :
    StopsAt isWordByte (g.text ++ (op.text ++ rest)) := by
  cases op <;> exact stopsAt_gap_cons (fun _ => isWordByte_of_isspace) g (by decide) _

/-- **The conditions that `sql_parse_select` accepts.** -/
theorem sqlParseWhere_eq_iff {cursor : Cursor} {r : SQLParseResult} (hr : r.parsed = true)
    {tableName : CBytes} :
    sqlParseWhere cursor sqlParseResultInit tableName = r ↔
      ∃ (l : WhereLayout) (condition : Condition IntLiteral), cursor = l.text condition ∧
        r = ⟨true, ⟨condition.type, condition.comparison, tableName, [], [], l.column condition,
          condition.textValue, condition.intValue, true⟩, .ok, 0, [], []⟩ := by
  obtain ⟨-, -, -, -, -, -, -, hid, hname, hage, -⟩ := isWord_keyword
  unfold sqlParseWhere
  constructor
  · intro h
    obtain ⟨_, c₁, hc₁, h₁⟩ := (sqlExpect_eq_iff hr).mp h
    obtain ⟨whereWord, rfl, hstop⟩ := sqlMatchKeyword_eq_iff.mp hc₁
    obtain ⟨w, c₂, hc₂, h₂⟩ := (sqlExpect_eq_iff hr).mp h₁
    obtain ⟨op, c₃, hc₃, h₃⟩ := (sqlExpect_eq_iff hr).mp h₂
    obtain ⟨beforeOperator, rfl, -⟩ := sqlParseComparison_eq_iff.mp hc₃
    dsimp only at h₃
    split_ifs at h₃ with hw hw' hop hw''
    · obtain ⟨beforeColumn, column, rfl, rfl, -⟩ :=
        (sqlParseIdentifier_spelling_iff hid (by decide)).mp ⟨hc₂, hw⟩
      obtain ⟨g, n, e, rfl, rfl⟩ := (sqlParseIntOperand_eq_iff hr).mp h₃
      rw [(hid.spelling column).stopsAt_gap] at hstop
      exact ⟨⟨whereWord, ⟨beforeColumn, hstop⟩, column, default, default, beforeOperator, g, e⟩,
        .id op n, rfl, rfl⟩
    · rw [← h₃] at hr
      cases hr
    · obtain ⟨beforeColumn, column, rfl, rfl, -⟩ :=
        (sqlParseIdentifier_spelling_iff hname (by decide)).mp ⟨hc₂, hw'⟩
      obtain ⟨s, c₄, hc₄, h₄⟩ := (sqlExpect_eq_iff hr).mp h₃
      obtain ⟨g, text, rfl, rfl⟩ := sqlParseString_eq_iff.mp hc₄
      obtain ⟨_, c₅, hc₅, h₅⟩ := (sqlExpect_eq_iff hr).mp h₄
      obtain ⟨⟨e, rfl⟩, -⟩ := sqlMatchStatementEnd_eq_some_iff.mp hc₅
      obtain rfl : op = .eq := not_not.mp hop
      rw [(hname.spelling column).stopsAt_gap] at hstop
      exact ⟨⟨whereWord, ⟨beforeColumn, hstop⟩, default, column, default, beforeOperator, g, e⟩,
        .name text, rfl, h₅.symm⟩
    · obtain ⟨beforeColumn, column, rfl, rfl, -⟩ :=
        (sqlParseIdentifier_spelling_iff hage (by decide)).mp ⟨hc₂, hw''⟩
      obtain ⟨g, n, e, rfl, rfl⟩ := (sqlParseIntOperand_eq_iff hr).mp h₃
      rw [(hage.spelling column).stopsAt_gap] at hstop
      exact ⟨⟨whereWord, ⟨beforeColumn, hstop⟩, default, default, column, beforeOperator, g, e⟩,
        .age op n, rfl, rfl⟩
    · rw [← h₃] at hr
      cases hr
  · rintro ⟨l, condition, rfl, rfl⟩
    -- the column, in its spelling, is a word of the condition
    obtain ⟨word, w, hword, hlen, hw⟩ : ∃ (word : CBytes) (w : Spelling word), IsWord word ∧
        word.length < identifierSize ∧ w.text = l.column condition := by
      cases condition with
      | id => exact ⟨_, l.id, hid, by decide, rfl⟩
      | name => exact ⟨_, l.name, hname, by decide, rfl⟩
      | age => exact ⟨_, l.age, hage, by decide, rfl⟩
    have hstart : StopsAt isWordByte (l.beforeColumn.text ++ (l.column condition ++
        (l.beforeOperator.text ++ (condition.comparison.text ++ (l.beforeOperand.text ++
        condition.operandBefore l.ending.text))))) := by
      rw [← hw]
      exact ((hword.spelling w).stopsAt_gap l.beforeColumn.toGap _).mpr l.beforeColumn.ne_nil
    refine (sqlExpect_eq_iff rfl).mpr
      ⟨(), _, sqlMatchKeyword_eq_iff.mpr ⟨l.whereWord, rfl, hstart⟩, ?_⟩
    obtain ⟨hident, -⟩ := (sqlParseIdentifier_spelling_iff hword hlen).mpr
      ⟨l.beforeColumn.toGap, w, rfl, hw,
        stopsAt_comparison l.beforeOperator condition.comparison (l.beforeOperand.text ++
          condition.operandBefore l.ending.text)⟩
    rw [hw] at hident
    refine (sqlExpect_eq_iff rfl).mpr ⟨_, _, hident, ?_⟩
    refine (sqlExpect_eq_iff rfl).mpr ⟨_, _, sqlParseComparison_eq_iff.mpr
      ⟨l.beforeOperator, rfl, endsBefore_gap _ _ (condition.head?_operandBefore _)⟩, ?_⟩
    dsimp only
    cases condition with
    | id op n =>
      have hcol : casecmpEq (l.column (.id op n)) (ascii "id") = true := l.id.same
      rw [if_pos hcol]
      exact (sqlParseIntOperand_eq_iff rfl).mpr ⟨l.beforeOperand, n, l.ending, rfl, rfl⟩
    | name text =>
      have hcol : casecmpEq (l.column (.name text : Condition IntLiteral)) (ascii "name") = true :=
        l.name.same
      have hne : casecmpEq (l.column (.name text : Condition IntLiteral)) (ascii "id") = false :=
        l.name.casecmpEq_of_ne (by decide)
      have hop : ¬ (.name text : Condition IntLiteral).comparison ≠ .eq := not_not.mpr rfl
      rw [if_neg (Bool.eq_false_iff.mp hne), if_pos hcol, if_neg hop]
      refine (sqlExpect_eq_iff rfl).mpr
        ⟨_, _, sqlParseString_eq_iff.mpr ⟨l.beforeOperand, text, rfl, rfl⟩, ?_⟩
      exact (sqlExpect_eq_iff rfl).mpr
        ⟨(), _, sqlMatchStatementEnd_eq_some_iff.mpr ⟨⟨l.ending, rfl⟩, rfl⟩, rfl⟩
    | age op n =>
      have hcol : casecmpEq (l.column (.age op n)) (ascii "age") = true := l.age.same
      have hne : casecmpEq (l.column (.age op n)) (ascii "id") = false :=
        l.age.casecmpEq_of_ne (by decide)
      have hne' : casecmpEq (l.column (.age op n)) (ascii "name") = false :=
        l.age.casecmpEq_of_ne (by decide)
      rw [if_neg (Bool.eq_false_iff.mp hne), if_neg (Bool.eq_false_iff.mp hne'), if_pos hcol]
      exact (sqlParseIntOperand_eq_iff rfl).mpr ⟨l.beforeOperand, n, l.ending, rfl, rfl⟩

/-- `SELECT * FROM users`, then, behind a gap and perhaps a semicolon, a condition. -/
def SelectLayout.whereText (l : SelectLayout) (g : Gap) (semicolon : Option Gap)
    (lw : WhereLayout) (condition : Condition IntLiteral) : CBytes :=
  l.textBefore (g.text ++ (semicolonText semicolon ++ lw.text condition))

theorem sqlParseSelectColumn_parsed (cursor : Cursor) (result : SQLParseResult) :
    (sqlParseSelectColumn cursor result).parsed = false := by
  unfold sqlParseSelectColumn sqlExpect
  split
  · rfl
  · dsimp only
    split_ifs <;> rfl

/-- The end of a statement is looked for behind the same whitespace. -/
theorem sqlMatchStatementEnd_sqlSkipSpaces (cursor : Cursor) :
    sqlMatchStatementEnd (sqlSkipSpaces cursor) = sqlMatchStatementEnd cursor := by
  unfold sqlMatchStatementEnd
  rw [sqlSkipSpaces_idem]

/-- When a word stands where the statement could end, the failed attempt is behind a gap and perhaps
a semicolon. -/
theorem sqlMatchStatementEnd_word {cursor word rest : Cursor} (hword : IsWord word)
    (hrest : word <+: rest) :
    sqlMatchStatementEnd cursor = (none, rest) ↔
      ∃ (g : Gap) (semicolon : Option Gap),
        cursor = g.text ++ (semicolonText semicolon ++ rest) := by
  obtain ⟨c, tail, hcons, hc⟩ := hword.exists_cons
  obtain ⟨behind, rfl⟩ := hrest
  have hsnd : sqlMatchStatementEnd cursor = (none, word ++ behind) ↔
      (sqlMatchStatementEnd cursor).2 = word ++ behind := by
    constructor
    · intro h
      rw [h]
    · intro h
      rw [sqlMatchStatementEnd_eq, h, if_neg]
      rw [hcons]
      exact List.cons_ne_nil _ _
  rw [hsnd, sqlMatchStatementEnd_snd_eq_iff]
  constructor
  · rintro ⟨g, semicolon, h, -, -⟩
    exact ⟨g, semicolon, h⟩
  · rintro ⟨g, semicolon, h⟩
    refine ⟨g, semicolon, h, hword.stopsAt_isspace _, fun _ => ?_⟩
    rw [hcons, List.cons_append, List.head?_cons]
    intro h59
    cases h59
    cases hc

/-- What is read up to the name of the table. -/
theorem exists_selectLayout {s c₀ c₁ c₂ c₃ w : CBytes} {u u' u'' : Unit}
    (hselect : sqlMatchKeyword s (ascii "SELECT") = (some u, c₀))
    (hstar : sqlMatchChar (sqlSkipSpaces c₀) 42 = (some u', c₁))
    (hfrom : sqlMatchKeyword (sqlSkipSpaces c₁) (ascii "FROM") = (some u'', c₂))
    (htable : sqlParseIdentifier c₂ identifierSize = (some w, c₃))
    (husers : casecmpEq w (ascii "users") = true) :
    ∃ l : SelectLayout, s = l.textBefore c₃ ∧ l.table.text = w ∧ StopsAt isWordByte c₃ := by
  obtain ⟨-, -, husers', -, -, hfrom', -⟩ := isWord_keyword
  obtain ⟨select, rfl, -⟩ := sqlMatchKeyword_eq_iff.mp hselect
  obtain ⟨beforeStar, hc₀⟩ := (sqlMatchChar_eq_iff (by decide)).mp hstar
  obtain ⟨g₀, hg₀⟩ := exists_gap_sqlSkipSpaces c₀
  obtain ⟨beforeFrom, fromWord, rfl, hstop⟩ := (sqlMatchKeyword_gap_eq_iff hfrom').mp hfrom
  obtain ⟨beforeTable, table, rfl, rfl, hstop'⟩ :=
    (sqlParseIdentifier_spelling_iff husers' (by decide)).mp ⟨htable, husers⟩
  rw [(husers'.spelling table).stopsAt_gap] at hstop
  -- the blanks in front of the `*`, skipped twice, are one gap
  refine ⟨⟨select, g₀.append beforeStar, beforeFrom, fromWord, ⟨beforeTable, hstop⟩, table⟩, ?_,
    rfl, hstop'⟩
  rw [hg₀, hc₀]
  simp only [SelectLayout.textBefore, Gap.append, List.append_assoc]

/-- What `sql_parse_select` does behind the table name. -/
def sqlParseSelectRest (tableName : CBytes) (cursor : Cursor) : SQLParseResult :=
  match sqlMatchStatementEnd cursor with
  | (some _, _) =>
    { sqlParseResultInit with
      command := { sqlParseResultInit.command with tableName := tableName, type := .selectAll }
      parsed := true
      status := .ok }
  | (none, cursor) => sqlParseWhere cursor sqlParseResultInit tableName

/-- The words in front of what follows the table name are read. -/
theorem sqlParseSelect_textBefore (l : SelectLayout) {rest : CBytes}
    (hstop : StopsAt isWordByte rest) :
    sqlParseSelect (l.textBefore rest) sqlParseResultInit =
      sqlParseSelectRest l.table.text rest := by
  obtain ⟨-, -, husers, -, -, hfrom, -⟩ := isWord_keyword
  have hselect : sqlMatchKeyword (l.textBefore rest) (ascii "SELECT") = (some (), _) :=
    sqlMatchKeyword_eq_iff.mpr ⟨l.select, rfl,
      stopsAt_gap_cons (fun _ => isWordByte_of_isspace) l.beforeStar (by decide) _⟩
  have hstar : sqlMatchChar (sqlSkipSpaces (l.beforeStar.text ++ 42 :: (l.beforeFrom.text ++
      (l.fromWord.text ++ (l.beforeTable.text ++ (l.table.text ++ rest)))))) 42 =
      (some (), l.beforeFrom.text ++ (l.fromWord.text ++ (l.beforeTable.text ++
        (l.table.text ++ rest)))) := by
    rw [sqlSkipSpaces_gap l.beforeStar (stopsAt_cons.mpr (by decide))]
    exact (sqlMatchChar_eq_iff (by decide)).mpr ⟨default, rfl⟩
  have hfrom' : sqlMatchKeyword (sqlSkipSpaces (l.beforeFrom.text ++ (l.fromWord.text ++
      (l.beforeTable.text ++ (l.table.text ++ rest))))) (ascii "FROM") = (some (), _) :=
    (sqlMatchKeyword_gap_eq_iff hfrom).mpr ⟨_, l.fromWord, rfl,
      ((husers.spelling l.table).stopsAt_gap _ _).mpr l.beforeTable.ne_nil⟩
  obtain ⟨htable, hsame⟩ := (sqlParseIdentifier_spelling_iff husers (by decide)).mpr
    ⟨l.beforeTable.toGap, l.table, rfl, rfl, hstop⟩
  unfold sqlParseSelect
  rw [hselect]
  dsimp only
  rw [hstar]
  dsimp only
  rw [hfrom', sqlExpect, htable, sqlExpect, if_neg (not_not.mpr hsame),
    sqlMatchStatementEnd_sqlSkipSpaces]
  rfl

/-- **The texts that `sql_parse_select` accepts.** -/
theorem sqlParseSelect_eq_iff {s : CBytes} {r : SQLParseResult} (hr : r.parsed = true) :
    sqlParseSelect s sqlParseResultInit = r ↔
      (∃ (l : SelectLayout) (e : Ending), s = l.textBefore e.text ∧
        r = ⟨true, ⟨.selectAll, .eq, l.table.text, [], [], [], [], 0, false⟩, .ok, 0, [], []⟩) ∨
      ∃ (l : SelectLayout) (g : Gap) (semicolon : Option Gap) (lw : WhereLayout)
        (condition : Condition IntLiteral), s = l.whereText g semicolon lw condition ∧
        (semicolon = none → g.text ≠ []) ∧
        r = ⟨true, ⟨condition.type, condition.comparison, l.table.text, [], [],
          lw.column condition, condition.textValue, condition.intValue, true⟩, .ok, 0, [], []⟩ := by
  obtain ⟨-, -, husers, -, -, hfrom, hwhere, -⟩ := isWord_keyword
  constructor
  · intro h
    unfold sqlParseSelect at h
    split at h
    · rw [← h] at hr
      cases hr
    · rename_i u c hselect
      split at h
      · rw [← h, sqlParseSelectColumn_parsed] at hr
        cases hr
      · rename_i c₀ hstar
        obtain ⟨_, c₁, hc₁, h₁⟩ := (sqlExpect_eq_iff hr).mp h
        obtain ⟨w, c₂, hc₂, h₂⟩ := (sqlExpect_eq_iff hr).mp h₁
        obtain ⟨hw, h₃⟩ := (ite_casecmpEq_eq_iff hr).mp h₂
        obtain ⟨l, htext, rfl, hstop'⟩ := exists_selectLayout hselect hstar hc₁ hc₂ hw
        rw [sqlMatchStatementEnd_sqlSkipSpaces] at h₃
        split at h₃
        · rename_i hend
          obtain ⟨⟨e, rfl⟩, -⟩ := sqlMatchStatementEnd_eq_some_iff.mp hend
          exact Or.inl ⟨l, e, htext, h₃.symm⟩
        · rename_i hend
          obtain ⟨lw, condition, rfl, rfl⟩ := (sqlParseWhere_eq_iff hr).mp h₃
          obtain ⟨g, semicolon, rfl⟩ :=
            (sqlMatchStatementEnd_word (hwhere.spelling lw.whereWord) ⟨_, rfl⟩).mp hend
          refine Or.inr ⟨l, g, semicolon, lw, condition, htext, ?_, rfl⟩
          rintro rfl
          exact ((hwhere.spelling lw.whereWord).stopsAt_gap g _).mp hstop'
  · -- what stands behind the table name: the end, or a condition
    intro h
    obtain ⟨l, rest, hs, hstop, hr'⟩ : ∃ (l : SelectLayout) (rest : CBytes),
        s = l.textBefore rest ∧ StopsAt isWordByte rest ∧
        sqlParseSelectRest l.table.text rest = r := by
      unfold sqlParseSelectRest
      rcases h with ⟨l, e, rfl, rfl⟩ | ⟨l, g, semicolon, lw, condition, rfl, hg, rfl⟩
      · refine ⟨l, e.text, rfl, e.stopsAt (fun _ => isWordByte_of_isspace) (by decide), ?_⟩
        rw [(sqlMatchStatementEnd_eq_some_iff (u := ())).mpr ⟨⟨e, rfl⟩, rfl⟩]
        rfl
      · refine ⟨l, _, rfl, ?_, ?_⟩
        · cases semicolon with
          | none => exact ((hwhere.spelling lw.whereWord).stopsAt_gap g _).mpr (hg rfl)
          | some g' => exact stopsAt_gap_cons (fun _ => isWordByte_of_isspace) g (by decide) _
        · have hprefix : lw.whereWord.text <+: lw.text condition := ⟨_, rfl⟩
          rw [(sqlMatchStatementEnd_word (hwhere.spelling lw.whereWord) hprefix).mpr
            ⟨g, semicolon, rfl⟩]
          exact (sqlParseWhere_eq_iff rfl).mpr ⟨lw, condition, rfl, rfl⟩
    rw [hs, sqlParseSelect_textBefore l hstop]
    exact hr'

/-! ### What the statement parsers end with -/

/-- The same for a step in the text `s`, which leaves its cursor in the text. -/
theorem sqlExpect_of_suffix {P : SQLParseResult → Prop} {α : Type} {read : Option α × Cursor}
    {result : SQLParseResult} {next : α → Cursor → SQLParseResult} {s : CBytes}
    (hread : read.2 <:+ s)
    (herror : ∀ cursor, cursor <:+ s → P (sqlParseSetSyntaxError result cursor))
    (hnext : ∀ a cursor, read = (some a, cursor) → cursor <:+ s → P (next a cursor)) :
    P (sqlExpect read result next) := by
  unfold sqlExpect
  split
  · exact herror _ hread
  · exact hnext _ _ rfl hread

/-- What a syntax error in the text `s` is at: a position of the text, or the name that stands in
the place of the table. -/
def Quoted (s cursor : CBytes) : Prop := cursor <:+ s ∨ ∀ c ∈ cursor, isWordByte c = true

/-- A text that starts with `SELECT` and reads this column, in the clause of this name. -/
inductive SelectsColumn (column : Identifier) : CBytes → CBytes → Prop
  | field (select : Spelling (ascii "SELECT")) (beforeColumn : Sep) (rest : CBytes) :
    StopsAt isWordByte rest →
    SelectsColumn column (select.text ++ (beforeColumn.text ++ (column.bytes ++ rest)))
      (ascii "field list")
  | condition (l : SelectLayout) (g : Gap) (semicolon : Option Gap)
    (whereWord : Spelling (ascii "WHERE")) (beforeColumn : Sep) (rest : CBytes) :
    StopsAt isWordByte rest →
    SelectsColumn column (l.textBefore (g.text ++ (semicolonText semicolon ++
      (whereWord.text ++ (beforeColumn.text ++ (column.bytes ++ rest)))))) (ascii "where clause")

/-- Two words are told apart by a gap that is not empty. -/
theorem Identifier.stopsAt_gap (column : Identifier) (g : Gap) (rest : CBytes) :
    StopsAt MiniDbms.isWordByte (g.text ++ (column.bytes ++ rest)) ↔ g.text ≠ [] := by
  obtain ⟨c, tail, hcons, hc⟩ := column.exists_cons
  have hnot : ¬ StopsAt MiniDbms.isWordByte (column.bytes ++ rest) := by
    rw [hcons, List.cons_append, stopsAt_cons, isWordByte_of_first hc]
    exact Bool.noConfusion
  rw [MiniDbms.stopsAt_gap fun _ => isWordByte_of_isspace, or_iff_left hnot]

/-- Behind `INSERT` there is a command or a syntax error. -/
theorem sqlParseInsert_of {P : SQLParseResult → Prop} {s : CBytes}
    (hrefuse : ∀ result cursor, Quoted s cursor → P (sqlParseSetSyntaxError result cursor))
    (hparsed : ∀ r : SQLParseResult, r.parsed = true → P r) (result : SQLParseResult) :
    sqlParseInsert s result = result ∨ P (sqlParseInsert s result) := by
  have herror : ∀ result cursor, cursor <:+ s → P (sqlParseSetSyntaxError result cursor) :=
    fun result cursor h => hrefuse result cursor (Or.inl h)
  have hinsert := sqlMatchKeyword_suffix s (ascii "INSERT")
  unfold sqlParseInsert
  split
  · exact Or.inl rfl
  · rename_i c₀ hc₀
    rw [hc₀] at hinsert
    apply Or.inr
    refine sqlExpect_of_suffix (((sqlMatchKeyword_suffix _ _).trans (sqlSkipSpaces_suffix _)).trans
      hinsert) (herror _) fun _ c₁ _ h₁ => ?_
    refine sqlExpect_of_suffix ((sqlParseIdentifier_suffix _ _).trans h₁) (herror _)
      fun table c₂ htable h₂ => ?_
    split_ifs
    · refine sqlExpect_of_suffix (((sqlMatchKeyword_suffix _ _).trans
        (sqlSkipSpaces_suffix _)).trans h₂) (herror _) fun _ c₃ _ h₃ => ?_
      refine sqlExpect_of_suffix ((sqlMatchChar_suffix _ _).trans h₃) (herror _) fun _ c₄ _ h₄ => ?_
      refine sqlExpect_of_suffix ((sqlParseString_suffix _ _).trans h₄) (herror _)
        fun _ c₅ _ h₅ => ?_
      refine sqlExpect_of_suffix ((sqlMatchChar_suffix _ _).trans h₅) (herror _) fun _ c₆ _ h₆ => ?_
      refine sqlExpect_of_suffix ((sqlParseInt_suffix _).trans h₆) (herror _) fun _ c₇ _ h₇ => ?_
      refine sqlExpect_of_suffix ((sqlMatchChar_suffix _ _).trans h₇) (herror _) fun _ c₈ _ h₈ => ?_
      exact sqlExpect_of_suffix ((sqlMatchStatementEnd_suffix _).trans h₈) (herror _)
        fun _ _ _ _ => hparsed _ rfl
    · obtain ⟨g, name, -, rfl, -⟩ := sqlParseIdentifier_eq_iff.mp htable
      exact hrefuse _ _ (Or.inr name.isWordByte)

theorem sqlParseIntOperand_of {P : SQLParseResult → Prop} {s cursor : CBytes}
    (herror : ∀ result cursor, cursor <:+ s → P (sqlParseSetSyntaxError result cursor))
    (hparsed : ∀ r : SQLParseResult, r.parsed = true → P r) (h : cursor <:+ s)
    (result : SQLParseResult) (type : SQLCommandType) :
    P (sqlParseIntOperand cursor result type) := by
  refine sqlExpect_of_suffix ((sqlParseInt_suffix _).trans h) (herror _) fun _ c₁ _ h₁ => ?_
  exact sqlExpect_of_suffix ((sqlMatchStatementEnd_suffix _).trans h₁) (herror _)
    fun _ _ _ _ => hparsed _ rfl

/-- Behind `WHERE` there is a command, a syntax error or an unknown column. -/
theorem sqlParseWhere_of {P : SQLParseResult → Prop} {s cursor : CBytes}
    (herror : ∀ result cursor, cursor <:+ s → P (sqlParseSetSyntaxError result cursor))
    (hcolumn : ∀ result (column : Identifier) (whereWord : Spelling (ascii "WHERE"))
      (beforeColumn : Sep) (rest : CBytes),
      cursor = whereWord.text ++ (beforeColumn.text ++ (column.bytes ++ rest)) →
      StopsAt isWordByte rest → sqlIsKnownColumn column.bytes = false →
      P (sqlParseSetUnknownColumnError result column.bytes (ascii "where clause")))
    (hparsed : ∀ r : SQLParseResult, r.parsed = true → P r) (h : cursor <:+ s)
    (result : SQLParseResult) (tableName : CBytes) : P (sqlParseWhere cursor result tableName) := by
  refine sqlExpect_of_suffix ((sqlMatchKeyword_suffix _ _).trans h) (herror _) fun _ c₁ hwhere h₁ =>
    ?_
  refine sqlExpect_of_suffix ((sqlParseIdentifier_suffix _ _).trans h₁) (herror _)
    fun w c₂ hread h₂ => ?_
  refine sqlExpect_of_suffix ((sqlParseComparison_suffix _).trans h₂) (herror _) fun _ c₃ _ h₃ => ?_
  dsimp only
  split_ifs with hid hname _ hage
  · exact sqlParseIntOperand_of herror hparsed h₃ _ _
  · exact herror _ _ h₂
  · refine sqlExpect_of_suffix ((sqlParseString_suffix _ _).trans h₃) (herror _) fun _ c₄ _ h₄ => ?_
    exact sqlExpect_of_suffix ((sqlMatchStatementEnd_suffix _).trans h₄) (herror _)
      fun _ _ _ _ => hparsed _ rfl
  · exact sqlParseIntOperand_of herror hparsed h₃ _ _
  · obtain ⟨whereWord, rfl, hstop⟩ := sqlMatchKeyword_eq_iff.mp hwhere
    obtain ⟨g, column, rfl, rfl, hrest⟩ := sqlParseIdentifier_eq_iff.mp hread
    rw [column.stopsAt_gap] at hstop
    refine hcolumn _ column whereWord ⟨g, hstop⟩ c₂ rfl hrest ?_
    simp [sqlIsKnownColumn, hid, hname, hage]

/-- Behind `SELECT` there is a command, a syntax error or an unknown column. -/
theorem sqlParseSelect_of {P : SQLParseResult → Prop} {s : CBytes}
    (hrefuse : ∀ result cursor, Quoted s cursor → P (sqlParseSetSyntaxError result cursor))
    (hcolumn : ∀ result (column : Identifier) clauseName, SelectsColumn column s clauseName →
      sqlIsKnownColumn column.bytes = false →
      P (sqlParseSetUnknownColumnError result column.bytes clauseName))
    (hparsed : ∀ r : SQLParseResult, r.parsed = true → P r) (result : SQLParseResult) :
    sqlParseSelect s result = result ∨ P (sqlParseSelect s result) := by
  have herror : ∀ result cursor, cursor <:+ s → P (sqlParseSetSyntaxError result cursor) :=
    fun result cursor h => hrefuse result cursor (Or.inl h)
  have hwhere : IsWord (ascii "WHERE") := isWord_keyword.2.2.2.2.2.2.1
  have hselect := sqlMatchKeyword_suffix s (ascii "SELECT")
  unfold sqlParseSelect
  split
  · exact Or.inl rfl
  · rename_i c₀ hc₀
    rw [hc₀] at hselect
    have hstar :=
      ((sqlMatchChar_suffix (sqlSkipSpaces c₀) 42).trans (sqlSkipSpaces_suffix c₀)).trans
      hselect
    apply Or.inr
    split
    · -- no `*`: a column, and an error whether it is known or not
      rename_i c₁ hc₁
      rw [hc₁] at hstar
      refine sqlExpect_of_suffix ((sqlParseIdentifier_suffix _ _).trans hstar) (herror _)
        fun w c₂ hread h₂ => ?_
      split_ifs with hknown
      · exact herror _ _ h₂
      · obtain ⟨g, column, hcursor, rfl, hrest⟩ := sqlParseIdentifier_eq_iff.mp hread
        obtain ⟨select, rfl, hstop⟩ := sqlMatchKeyword_eq_iff.mp hc₀
        obtain ⟨gap, hgap⟩ := exists_gap_sqlSkipSpaces c₀
        have hc₀' : c₀ = (gap.append g).text ++ (column.bytes ++ c₂) := by
          rw [hgap, ← sqlSkipSpaces_idem, ← sqlMatchChar_none hc₁, hcursor, Gap.append,
            List.append_assoc]
        rw [hc₀', column.stopsAt_gap] at hstop
        rw [hc₀'] at hcolumn
        exact hcolumn _ column _ (SelectsColumn.field select ⟨gap.append g, hstop⟩ c₂ hrest)
          (Bool.eq_false_of_not_eq_true hknown)
    · rename_i c₁ hc₁
      rw [hc₁] at hstar
      refine sqlExpect_of_suffix (((sqlMatchKeyword_suffix _ _).trans
        (sqlSkipSpaces_suffix _)).trans hstar) (herror _) fun _ c₂ hfrom h₂ => ?_
      refine sqlExpect_of_suffix ((sqlParseIdentifier_suffix _ _).trans h₂) (herror _)
        fun table c₃ htable h₃ => ?_
      split_ifs with husers
      · have hend := ((sqlMatchStatementEnd_suffix _).trans (sqlSkipSpaces_suffix _)).trans h₃
        split
        · exact hparsed _ rfl
        · rename_i c₄ hc₄
          rw [hc₄] at hend
          refine sqlParseWhere_of herror ?_ hparsed hend _ _
          rintro result column whereWord beforeColumn rest rfl hrest hknown
          obtain ⟨l, hl, -, -⟩ := exists_selectLayout hc₀ hc₁ hfrom htable husers
          rw [sqlMatchStatementEnd_sqlSkipSpaces,
            sqlMatchStatementEnd_word (hwhere.spelling whereWord) ⟨_, rfl⟩] at hc₄
          obtain ⟨g, semicolon, rfl⟩ := hc₄
          rw [hl] at hcolumn
          exact hcolumn _ column _ (SelectsColumn.condition l g semicolon whereWord beforeColumn
            rest hrest) hknown
      · obtain ⟨g, name, -, rfl, -⟩ := sqlParseIdentifier_eq_iff.mp htable
        exact hrefuse _ _ (Or.inr name.isWordByte)

/-- Behind `INSERT` there is a command or an error message. -/
theorem sqlParseInsert_settled (s : CBytes) :
    sqlParseInsert s sqlParseResultInit = sqlParseResultInit ∨
      (sqlParseInsert s sqlParseResultInit).Settled :=
  sqlParseInsert_of (P := SQLParseResult.Settled)
    (fun _ _ _ => Or.inr (sqlParseSetSyntaxError_errorMessage _ _)) (fun _ h => Or.inl h) _

/-- Behind `SELECT` there is a command or an error message. -/
theorem sqlParseSelect_settled (s : CBytes) :
    sqlParseSelect s sqlParseResultInit = sqlParseResultInit ∨
      (sqlParseSelect s sqlParseResultInit).Settled :=
  sqlParseSelect_of (P := SQLParseResult.Settled)
    (fun _ _ _ => Or.inr (sqlParseSetSyntaxError_errorMessage _ _))
    (fun _ _ _ _ _ => Or.inr (sqlParseSetUnknownColumnError_errorMessage _ _ _))
    (fun _ h => Or.inl h) _

/-! ### Whole inputs -/

/-- A text that begins with a spelling of a word. -/
theorem head?_spelling {word : CBytes} {k : UInt8} (hk : word.head? = some k) (w : Spelling word)
    (rest : CBytes) : ∃ c, (w.text ++ rest).head? = some c ∧ tolower c = tolower k := by
  obtain ⟨tail, rfl⟩ := List.head?_eq_some_iff.mp hk
  have hsame := casecmpEq_iff.mp w.same
  obtain ⟨text, same⟩ := w
  cases text with
  | nil => simp at hsame
  | cons c text =>
    rw [List.map_cons, List.map_cons, List.cons.injEq] at hsame
    exact ⟨c, rfl, hsame.1⟩

/-- A text that begins with one word does not match another one. -/
theorem sqlMatchKeyword_spelling {word keyword : CBytes} {k k' : UInt8} (hk : word.head? = some k)
    (hk' : keyword.head? = some k') (hne : tolower k ≠ tolower k') (w : Spelling word)
    (rest : CBytes) :
    sqlMatchKeyword (w.text ++ rest) keyword = (none, w.text ++ rest) := by
  obtain ⟨c, hc, heq⟩ := head?_spelling hk w rest
  exact sqlMatchKeyword_of_head_ne hc hk' (by rw [heq]; exact hne)

/-- `EXIT` or `QUIT` -/
theorem sqlMatchExit_eq_iff {cursor rest : Cursor} {u : Unit} :
    sqlMatchExit cursor = (some u, rest) ↔
      ∃ w : CBytes, (casecmpEq w (ascii "EXIT") = true ∨ casecmpEq w (ascii "QUIT") = true) ∧
        cursor = w ++ rest ∧ StopsAt isWordByte rest := by
  unfold sqlMatchExit
  constructor
  · intro h
    split at h
    · rename_i c hexit
      cases h
      obtain ⟨w, rfl, hstop⟩ := sqlMatchKeyword_eq_iff.mp hexit
      exact ⟨w.text, Or.inl w.same, rfl, hstop⟩
    · rename_i c hexit
      obtain ⟨w, hw, hstop⟩ := sqlMatchKeyword_eq_iff.mp h
      rw [sqlMatchKeyword_none hexit] at hw
      exact ⟨w.text, Or.inr w.same, hw, hstop⟩
  · rintro ⟨w, hw | hw, rfl, hstop⟩
    · rw [(sqlMatchKeyword_eq_iff (u := ())).mpr ⟨⟨w, hw⟩, rfl, hstop⟩]
    · have hexit := sqlMatchKeyword_spelling (by decide : (ascii "QUIT").head? = some 81)
        (by decide : (ascii "EXIT").head? = some 69) (by decide) ⟨w, hw⟩ rest
      dsimp only at hexit
      rw [hexit]
      exact sqlMatchKeyword_eq_iff.mpr ⟨⟨w, hw⟩, rfl, hstop⟩

/-- A text that begins with `INSERT` or `SELECT` is neither `EXIT` nor `QUIT`. -/
theorem sqlMatchExit_spelling {word : CBytes} {k : UInt8} (hk : word.head? = some k)
    (hexit : tolower k ≠ tolower 69) (hquit : tolower k ≠ tolower 81) (w : Spelling word)
    (rest : CBytes) : sqlMatchExit (w.text ++ rest) = (none, w.text ++ rest) := by
  have h := sqlMatchKeyword_spelling hk (by decide : (ascii "EXIT").head? = some 69) hexit w rest
  have h' := sqlMatchKeyword_spelling hk (by decide : (ascii "QUIT").head? = some 81) hquit w rest
  unfold sqlMatchExit
  rw [h]
  exact h'

/-- Where neither matches, the cursor stays. -/
theorem sqlMatchExit_none {cursor rest : Cursor} (h : sqlMatchExit cursor = (none, rest)) :
    rest = cursor := by
  unfold sqlMatchExit at h
  split at h
  · cases h
  · rename_i c hexit
    rw [sqlMatchKeyword_none h, sqlMatchKeyword_none hexit]

/-- Behind whitespace, `EXIT` or `QUIT`. -/
theorem sqlParse_exit (g : Gap) (l : Layout) :
    sqlParse (g.text ++ Statement.text l .exit) = (true, Statement.result l .exit) := by
  set w := l.exit.word
  set e := l.exit.ending
  obtain ⟨word, hword, hsame⟩ : ∃ word, IsWord word ∧ casecmpEq w word = true := by
    obtain ⟨-, -, -, -, -, -, -, -, -, -, hexit, hquit⟩ := isWord_keyword
    rcases l.exit.same with hw | hw
    · exact ⟨_, hexit, hw⟩
    · exact ⟨_, hquit, hw⟩
  have hskip : sqlSkipSpaces (g.text ++ Statement.text l .exit) = w ++ e.text :=
    sqlSkipSpaces_gap g ((hword.spelling ⟨w, hsame⟩).stopsAt_isspace _)
  have hmatch : sqlMatchExit (w ++ e.text) = (some (), e.text) :=
    sqlMatchExit_eq_iff.mpr
      ⟨w, l.exit.same, rfl, e.stopsAt (fun _ => isWordByte_of_isspace) (by decide)⟩
  have hend : sqlMatchStatementEnd e.text = (some (), []) :=
    sqlMatchStatementEnd_eq_some_iff.mpr ⟨⟨e, rfl⟩, rfl⟩
  unfold sqlParse
  dsimp only
  rw [hskip, hmatch]
  dsimp only
  rw [hend]
  rfl

/-- The return value is the field `parsed`. -/
theorem sqlParse_fst (s : CBytes) : (sqlParse s).1 = (sqlParse s).2.parsed := by
  unfold sqlParse
  dsimp only
  split
  · split <;> rfl
  · split_ifs <;> rfl

/-- A text that begins with `INSERT` or `SELECT` goes to the two statement parsers. -/
theorem sqlParse_statement {s : CBytes} {r : SQLParseResult} (hr : r.parsed = true)
    (hexit : sqlMatchExit (sqlSkipSpaces s) = (none, sqlSkipSpaces s)) :
    sqlParse s = (true, r) ↔
      sqlParseInsert s sqlParseResultInit = r ∨
        sqlParseInsert s sqlParseResultInit = sqlParseResultInit ∧
          sqlParseSelect s sqlParseResultInit = r := by
  have hinit : ¬ ((sqlParseResultInit.parsed || decide (sqlParseResultInit.errorMessage ≠ [])) =
      true) := by decide
  unfold sqlParse
  dsimp only
  rw [hexit]
  dsimp only
  rcases sqlParseInsert_settled s with hins | hins
  · have hne : sqlParseInsert s sqlParseResultInit ≠ r := by
      intro h
      rw [← h, hins] at hr
      cases hr
    rw [or_iff_right hne, hins, and_iff_right rfl, if_neg hinit]
    constructor
    · intro h
      split_ifs at h
      · exact (Prod.mk.inj h).2
      · exact absurd (Prod.mk.inj h).1 Bool.noConfusion
    · intro h
      rw [h, hr]
      rfl
  · have hsettled : ((sqlParseInsert s sqlParseResultInit).parsed ||
        decide ((sqlParseInsert s sqlParseResultInit).errorMessage ≠ [])) = true := by
      rw [Bool.or_eq_true, decide_eq_true_eq]
      exact hins
    have hne : sqlParseInsert s sqlParseResultInit ≠ sqlParseResultInit := by
      intro h
      rw [h] at hsettled
      exact hinit hsettled
    rw [if_pos hsettled, or_iff_left fun h => hne h.1]
    constructor
    · intro h
      exact (Prod.mk.inj h).2
    · intro h
      rw [h, hr]

/-- A text that does not begin with `INSERT` is left to the other parser. -/
theorem sqlParseInsert_spelling {word : CBytes} {k : UInt8} (hk : word.head? = some k)
    (hne : tolower k ≠ tolower 73) (w : Spelling word) (rest : CBytes) (result : SQLParseResult) :
    sqlParseInsert (w.text ++ rest) result = result := by
  have h := sqlMatchKeyword_spelling hk (by decide : (ascii "INSERT").head? = some 73) hne w rest
  unfold sqlParseInsert
  rw [h]

/-- What `sql_parse_select` accepts, `sql_parse` does. -/
theorem sqlParse_select {l : SelectLayout} {rest : CBytes} {r : SQLParseResult}
    (hr : r.parsed = true) (h : sqlParseSelect (l.textBefore rest) sqlParseResultInit = r) :
    sqlParse (l.textBefore rest) = (true, r) := by
  have hselect : IsWord (ascii "SELECT") := isWord_keyword.2.2.2.2.1
  have hhead : (ascii "SELECT").head? = some 83 := by decide
  have hskip : sqlSkipSpaces (l.textBefore rest) = l.textBefore rest :=
    sqlSkipSpaces_eq_iff.mpr ⟨⟨default, rfl⟩, (hselect.spelling l.select).stopsAt_isspace _⟩
  apply (sqlParse_statement hr _).mpr
  · exact Or.inr ⟨sqlParseInsert_spelling hhead (by decide) l.select _ _, h⟩
  · rw [hskip]
    exact sqlMatchExit_spelling hhead (by decide) (by decide) l.select _

/-- **What `sql_parse` accepts**: a statement of the grammar, `EXIT` and `QUIT` also behind
whitespace, or a condition behind a semicolon. -/
theorem sqlParse_eq_iff {s : CBytes} {r : SQLParseResult} :
    sqlParse s = (true, r) ↔
      (∃ (g : Gap) (l : Layout), s = g.text ++ Statement.text l .exit ∧
        r = Statement.result l .exit) ∨
      (∃ (l : Layout) (statement : Statement IntLiteral), statement ≠ .exit ∧
        s = statement.text l ∧ r = statement.result l) ∨
      ∃ (l : Layout) (g g' : Gap) (condition : Condition IntLiteral),
        s = l.select.whereText g (some g') l.condition condition ∧
        r = (Statement.selectWhere condition).result l := by
  constructor
  · intro h
    have hr : r.parsed = true := by
      have := sqlParse_fst s
      rw [h] at this
      exact this.symm
    cases hexit : sqlMatchExit (sqlSkipSpaces s) with
    | mk matched c =>
      cases matched with
      | some u =>
        unfold sqlParse at h
        dsimp only at h
        rw [hexit] at h
        dsimp only at h
        obtain ⟨w, hw, hskip, -⟩ := sqlMatchExit_eq_iff.mp hexit
        obtain ⟨g, hg⟩ := exists_gap_sqlSkipSpaces s
        split at h
        · rename_i hend
          obtain ⟨⟨e, rfl⟩, -⟩ := sqlMatchStatementEnd_eq_some_iff.mp hend
          refine Or.inl ⟨g, { (default : Layout) with exit := ⟨w, hw, e⟩ }, ?_, ?_⟩
          · rw [hg, hskip]
            rfl
          · exact (Prod.mk.inj h).2.symm
        · exact absurd (Prod.mk.inj h).1 Bool.noConfusion
      | none =>
        -- `INSERT` is tried first, then `SELECT`
        rw [sqlMatchExit_none hexit] at hexit
        rcases (sqlParse_statement hr hexit).mp h with hins | ⟨-, hsel⟩
        · obtain ⟨l, name, age, rfl, rfl⟩ := (sqlParseInsert_eq_iff hr).mp hins
          exact Or.inr (Or.inl ⟨{ (default : Layout) with insert := l }, .insert name age, nofun,
            rfl, rfl⟩)
        · rcases (sqlParseSelect_eq_iff hr).mp hsel with ⟨l, e, rfl, rfl⟩ |
            ⟨l, g, semicolon, lw, condition, rfl, hg, rfl⟩
          · exact Or.inr (Or.inl ⟨{ (default : Layout) with select := l, selectEnding := e },
              .select, nofun, rfl, rfl⟩)
          · -- the code accepts a `;` in front of `WHERE`, the grammar does not
            cases semicolon with
            | none =>
              exact Or.inr (Or.inl ⟨{ (default : Layout) with
                select := l, beforeWhere := ⟨g, hg rfl⟩, condition := lw },
                .selectWhere condition, nofun, rfl, rfl⟩)
            | some g' =>
              exact Or.inr (Or.inr ⟨{ (default : Layout) with select := l, condition := lw },
                g, g', condition, rfl, rfl⟩)
  · rintro (⟨g, l, rfl, rfl⟩ | ⟨l, statement, hne, rfl, rfl⟩ | ⟨l, g, g', condition, rfl, rfl⟩)
    · exact sqlParse_exit g l
    · cases statement with
      | exit => exact absurd rfl hne
      | insert name age =>
        have hinsert : IsWord (ascii "INSERT") := isWord_keyword.1
        have hskip : sqlSkipSpaces (l.insert.text name age) = l.insert.text name age :=
          sqlSkipSpaces_eq_iff.mpr
            ⟨⟨default, rfl⟩, (hinsert.spelling l.insert.insert).stopsAt_isspace _⟩
        apply (sqlParse_statement rfl _).mpr
        · exact Or.inl ((sqlParseInsert_eq_iff rfl).mpr ⟨l.insert, name, age, rfl, rfl⟩)
        · show sqlMatchExit (sqlSkipSpaces (l.insert.text name age)) =
            (none, sqlSkipSpaces (l.insert.text name age))
          rw [hskip]
          exact sqlMatchExit_spelling (by decide : (ascii "INSERT").head? = some 73) (by decide)
            (by decide) l.insert.insert _
      | select =>
        exact sqlParse_select rfl ((sqlParseSelect_eq_iff rfl).mpr
          (Or.inl ⟨l.select, l.selectEnding, rfl, rfl⟩))
      | selectWhere condition =>
        exact sqlParse_select rfl ((sqlParseSelect_eq_iff rfl).mpr
          (Or.inr ⟨l.select, l.beforeWhere.toGap, none, l.condition, condition, rfl,
            fun _ => l.beforeWhere.ne_nil, rfl⟩))
    · exact sqlParse_select rfl ((sqlParseSelect_eq_iff rfl).mpr
        (Or.inr ⟨l.select, g, some g', l.condition, condition, rfl, nofun, rfl⟩))

end MiniDbms
