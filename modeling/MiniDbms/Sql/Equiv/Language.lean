import MiniDbms.Sql.Equiv.Parse

/-!
# Rendering and soundness of the parser

`sqlParse_render`: a command written out in any layout is parsed back.

`sqlParse_single_statement_iff`: an accepted text is one statement of the grammar, with no semicolon
before its end, unless it is a `SELECT` with a semicolon in front of its `WHERE`.
-/

namespace MiniDbms

open CString

/-! ### Commands and statements -/

section Statement

variable {Number : Type}

def Statement.type : Statement Number → SQLCommandType
  | .exit => .exit
  | .insert _ _ => .insert
  | .select => .selectAll
  | .selectWhere condition => condition.type

/-- The comparison of a statement, `=` when there is none. -/
def Statement.comparison : Statement Number → TableComparison
  | .selectWhere condition => condition.comparison
  | _ => .eq

/-- The operand column of a statement, empty when there is none. -/
def Statement.column : Statement Number → CBytes
  | .selectWhere condition => condition.column
  | _ => []

/-- The name that a statement inserts, empty when it inserts none. -/
def Statement.name : Statement Number → CBytes
  | .insert name _ => name.bytes
  | _ => []

/-- The string that a statement compares names with, empty when there is none. -/
def Statement.textValue : Statement Number → CBytes
  | .selectWhere condition => condition.textValue
  | _ => []

/-- The number in a statement. -/
def Statement.number : Statement Number → Option Number
  | .insert _ age => some age
  | .selectWhere condition => condition.number
  | _ => none

/-- The type, comparison, operand column and string operand of the command are those of the
statement. -/
structure SQLCommand.Matches (command : SQLCommand) (statement : Statement Number) : Prop where
  type : command.type = statement.type
  comparison : command.comparison = statement.comparison
  column : casecmpEq command.whereColumn statement.column = true
  name : command.name = statement.name
  textValue : command.textValue = statement.textValue

/-- Numbers do not matter there. -/
theorem SQLCommand.Matches.map {Number' : Type} {command : SQLCommand} {f : Number → Number'}
    {statement : Statement Number} (h : command.Matches (statement.map f)) :
    command.Matches statement := by
  cases statement with
  | selectWhere condition => cases condition <;> exact ⟨h.type, h.comparison, h.column, h.name,
      h.textValue⟩
  | _ => exact ⟨h.type, h.comparison, h.column, h.name, h.textValue⟩

end Statement

/-- The parser's command says what the statement says. -/
theorem Statement.command_matches (l : Layout) (statement : Statement IntLiteral) :
    (statement.command l).Matches statement := by
  cases statement with
  | exit => exact ⟨rfl, rfl, rfl, rfl, rfl⟩
  | insert name age => exact ⟨rfl, rfl, rfl, rfl, rfl⟩
  | select => exact ⟨rfl, rfl, rfl, rfl, rfl⟩
  | selectWhere condition =>
    refine ⟨rfl, rfl, ?_, rfl, rfl⟩
    cases condition with
    | id => exact l.condition.id.same
    | name => exact l.condition.name.same
    | age => exact l.condition.age.same

/-- The number of a statement, as the parser reads it. -/
theorem Statement.command_intValue (l : Layout) {statement : Statement IntLiteral} {n : IntLiteral}
    (hn : statement.number = some n) : (statement.command l).intValue = n.parsed := by
  cases statement with
  | exit => cases hn
  | insert name age =>
    cases hn
    rfl
  | select => cases hn
  | selectWhere condition =>
    cases condition with
    | id comparison value =>
      cases hn
      rfl
    | name text => cases hn
    | age comparison value =>
      cases hn
      rfl

/-! ### Rendering -/

/-- A statement in a layout is accepted. -/
theorem sqlParse_text (l : Layout) (statement : Statement IntLiteral) :
    sqlParse (statement.text l) = (true, statement.result l) := by
  apply sqlParse_eq_iff.mpr
  by_cases h : statement = .exit
  · subst h
    exact Or.inl ⟨default, l, rfl, rfl⟩
  · exact Or.inr (Or.inl ⟨l, statement, h, rfl, rfl⟩)

theorem Statement.number_map {Number Number' : Type} (f : Number → Number')
    (statement : Statement Number) : (statement.map f).number = statement.number.map f := by
  cases statement with
  | selectWhere condition => cases condition <;> rfl
  | _ => rfl

/-- **Rendering then parsing gives the command back**: its type, comparison, column, strings and
number. -/
theorem sqlParse_render (l : Layout) (command : Statement CInt) :
    (sqlParse (render l command)).1 = true ∧
      (sqlParse (render l command)).2.command.Matches command ∧
      ∀ n, command.number = some n → (sqlParse (render l command)).2.command.intValue = n.val := by
  rw [render, sqlParse_text]
  refine ⟨rfl, (Statement.command_matches l _).map, ?_⟩
  intro n hn
  have hnumber : (command.map CInt.literal).number = some n.literal := by
    rw [Statement.number_map, hn]
    rfl
  have hvalue := n.value_literal
  show ((command.map CInt.literal).command l).intValue = n.val
  rw [Statement.command_intValue l hnumber, IntLiteral.parsed_eq] <;> rw [hvalue]
  · exact n.le_val
  · exact n.val_lt

/-! ### Semicolons -/

/-- The bytes of a text that are not part of a string literal; `inside` says whether the text begins
inside one. -/
def outsideLiterals (inside : Bool) : CBytes → CBytes
  | [] => []
  | c :: s =>
    if c = 39 then outsideLiterals (!inside) s
    else if inside then outsideLiterals inside s
    else c :: outsideLiterals inside s

/-- Bytes without quotes are outside. -/
theorem outsideLiterals_append {w : CBytes} (hw : 39 ∉ w) (rest : CBytes) :
    outsideLiterals false (w ++ rest) = w ++ outsideLiterals false rest := by
  induction w with
  | nil => rfl
  | cons c w ih =>
    rw [List.mem_cons, not_or] at hw
    rw [List.cons_append, outsideLiterals, if_neg (Ne.symm hw.1), if_neg Bool.false_ne_true,
      ih hw.2, List.cons_append]

/-- A string literal is not. -/
theorem outsideLiterals_textBefore (text : StringOperand) (rest : CBytes) :
    outsideLiterals false (text.textBefore rest) = outsideLiterals false rest := by
  have hinside : ∀ w : CBytes, 39 ∉ w →
      outsideLiterals true (w ++ 39 :: rest) = outsideLiterals false rest := by
    intro w hw
    induction w with
    | nil => rfl
    | cons c w ih =>
      rw [List.mem_cons, not_or] at hw
      rw [List.cons_append, outsideLiterals, if_neg (Ne.symm hw.1), if_pos rfl, ih hw.2]
  exact hinside text.bytes text.no_quote

/-- A text without quotes and semicolons. -/
def Plain (w : CBytes) : Prop := ∀ c ∈ w, c ≠ 39 ∧ c ≠ 59

theorem Gap.plain (g : Gap) : Plain g.text := by
  intro c hc
  have hspace := g.space c hc
  constructor <;> rintro rfl <;> cases hspace

theorem IsWord.plain {word : CBytes} (h : IsWord word) : Plain word := by
  intro c hc
  have halpha := h.isalpha c hc
  constructor <;> rintro rfl <;> cases halpha

theorem IntLiteral.plain (n : IntLiteral) : Plain n.text := by
  intro c hc
  unfold IntLiteral.text at hc
  rcases List.mem_append.mp hc with hc | hc
  · split_ifs at hc
    · rw [List.mem_singleton] at hc
      subst hc
      decide
    · cases hc
  · have hdigit := n.isdigit c hc
    constructor <;> rintro rfl <;> cases hdigit

theorem TableComparison.plain (op : TableComparison) : Plain op.text := by
  cases op <;> simp [TableComparison.text, Plain]

/-- A text that ends in `e`, without a semicolon before that. -/
def EndsIn (s : CBytes) (e : Ending) : Prop :=
  ∃ body, s = body ++ e.text ∧ 59 ∉ outsideLiterals false body

theorem EndsIn.ending (e : Ending) : EndsIn e.text e := ⟨[], rfl, List.not_mem_nil⟩

theorem EndsIn.append {w s : CBytes} {e : Ending} (hw : Plain w) (h : EndsIn s e) :
    EndsIn (w ++ s) e := by
  obtain ⟨body, rfl, hbody⟩ := h
  refine ⟨w ++ body, (List.append_assoc _ _ _).symm, ?_⟩
  rw [outsideLiterals_append fun hc => (hw 39 hc).1 rfl, List.mem_append, not_or]
  exact ⟨fun hc => (hw 59 hc).2 rfl, hbody⟩

theorem EndsIn.cons {c : UInt8} {s : CBytes} {e : Ending} (hc : Plain [c]) (h : EndsIn s e) :
    EndsIn (c :: s) e := h.append hc

theorem EndsIn.textBefore {s : CBytes} {e : Ending} (text : StringOperand) (h : EndsIn s e) :
    EndsIn (text.textBefore s) e := by
  obtain ⟨body, rfl, hbody⟩ := h
  refine ⟨text.textBefore body, ?_, ?_⟩
  · simp [StringOperand.textBefore]
  · rw [outsideLiterals_textBefore]
    exact hbody

theorem EndsIn.select {s : CBytes} {e : Ending} (l : SelectLayout) (h : EndsIn s e) :
    EndsIn (l.textBefore s) e := by
  obtain ⟨-, -, husers, -, hselect, hfrom, -⟩ := isWord_keyword
  unfold SelectLayout.textBefore
  apply EndsIn.append (hselect.spelling _).plain
  apply EndsIn.append (Gap.plain _)
  apply EndsIn.cons (by simp [Plain])
  apply EndsIn.append (Gap.plain _)
  apply EndsIn.append (hfrom.spelling _).plain
  apply EndsIn.append (Gap.plain _)
  exact h.append (husers.spelling _).plain

/-- A statement of the grammar has no semicolon before its end. -/
theorem Statement.endsIn (l : Layout) (statement : Statement IntLiteral) :
    ∃ e, EndsIn (statement.text l) e := by
  obtain ⟨hinsert, hinto, husers, hvalues, -, -, hwhere, hid, hname, hage, hexit, hquit⟩ :=
    isWord_keyword
  cases statement with
  | exit =>
    have hword : IsWord l.exit.word := by
      rcases l.exit.same with h | h
      · exact hexit.spelling ⟨_, h⟩
      · exact hquit.spelling ⟨_, h⟩
    exact ⟨_, (EndsIn.ending l.exit.ending).append hword.plain⟩
  | insert name age =>
    refine ⟨l.insert.ending, ?_⟩
    show EndsIn (l.insert.text name age) _
    unfold InsertLayout.text
    apply EndsIn.append (hinsert.spelling _).plain
    apply EndsIn.append (Gap.plain _)
    apply EndsIn.append (hinto.spelling _).plain
    apply EndsIn.append (Gap.plain _)
    apply EndsIn.append (husers.spelling _).plain
    apply EndsIn.append (Gap.plain _)
    apply EndsIn.append (hvalues.spelling _).plain
    apply EndsIn.append (Gap.plain _)
    apply EndsIn.cons (by simp [Plain])
    apply EndsIn.append (Gap.plain _)
    apply EndsIn.textBefore
    apply EndsIn.append (Gap.plain _)
    apply EndsIn.cons (by simp [Plain])
    apply EndsIn.append (Gap.plain _)
    apply EndsIn.append age.plain
    apply EndsIn.append (Gap.plain _)
    apply EndsIn.cons (by simp [Plain])
    exact EndsIn.ending _
  | select => exact ⟨_, (EndsIn.ending l.selectEnding).select l.select⟩
  | selectWhere condition =>
    refine ⟨l.condition.ending, EndsIn.select l.select (EndsIn.append (Gap.plain _) ?_)⟩
    have hcolumn : Plain (l.condition.column condition) := by
      cases condition with
      | id => exact (hid.spelling _).plain
      | name => exact (hname.spelling _).plain
      | age => exact (hage.spelling _).plain
    have hoperand :
        EndsIn (condition.operandBefore l.condition.ending.text) l.condition.ending := by
      cases condition with
      | id _ n => exact (EndsIn.ending _).append n.plain
      | name text => exact (EndsIn.ending _).textBefore text
      | age _ n => exact (EndsIn.ending _).append n.plain
    unfold WhereLayout.text
    apply EndsIn.append (hwhere.spelling _).plain
    apply EndsIn.append (Gap.plain _)
    apply EndsIn.append hcolumn
    apply EndsIn.append (Gap.plain _)
    apply EndsIn.append (TableComparison.plain _)
    exact hoperand.append (Gap.plain _)

/-! ### Soundness -/

/-- The text is, behind whitespace, one statement of the grammar, the command says what the
statement says, and no semicolon outside a string literal comes before the end. -/
def SingleStatement (s : CBytes) (command : SQLCommand) : Prop :=
  (∃ (g : Gap) (l : Layout) (statement : Statement IntLiteral),
    s = g.text ++ statement.text l ∧ command.Matches statement) ∧
  ∃ e, EndsIn s e

/-- `SELECT * FROM users ; WHERE ...` -/
def SemicolonBeforeWhere (s : CBytes) : Prop :=
  ∃ (l : SelectLayout) (g g' : Gap) (lw : WhereLayout) (condition : Condition IntLiteral),
    s = l.whereText g (some g') lw condition

/-- An ending is whitespace and semicolons. -/
theorem Ending.mem_text {e : Ending} {c : UInt8} (hc : c ∈ e.text) : isspace c = true ∨ c = 59 := by
  unfold Ending.text at hc
  rcases List.mem_append.mp hc with hc | hc
  · exact Or.inl (e.gap.space c hc)
  · rcases List.mem_append.mp hc with hc | hc
    · split_ifs at hc
      · exact Or.inr (List.mem_singleton.mp hc)
      · cases hc
    · exact Or.inl (e.trailing.space c hc)

/-- A semicolon in front of a word is not at the end. -/
theorem not_endsIn {w word rest : CBytes} (hw : Plain w) (hword : IsWord word) (g : Gap)
    (e : Ending) : ¬ EndsIn (w ++ 59 :: (g.text ++ (word ++ rest))) e := by
  obtain ⟨c, tail, rfl, hc⟩ := hword.exists_cons
  have hletter : ¬ (isspace c = true ∨ c = 59) := by
    rintro (hspace | rfl)
    · rw [isspace_of_isWordByte (isWordByte_of_isalpha hc)] at hspace
      cases hspace
    · cases hc
  rintro ⟨body, heq, hbody⟩
  rcases List.append_eq_append_iff.mp heq with ⟨a, rfl, ha⟩ | ⟨a, rfl, ha⟩
  · cases a with
    | nil =>
      refine hletter (e.mem_text ?_)
      rw [List.nil_append] at ha
      rw [← ha]
      simp
    | cons b a =>
      obtain ⟨rfl, -⟩ := List.cons.inj ha
      rw [outsideLiterals_append fun h => (hw 39 h).1 rfl] at hbody
      refine hbody (List.mem_append_right _ ?_)
      rw [outsideLiterals, if_neg (by decide), if_neg Bool.false_ne_true]
      exact List.mem_cons_self
  · refine hletter (e.mem_text ?_)
    rw [ha]
    simp

/-- A semicolon before the `WHERE` comes before the end. -/
theorem SemicolonBeforeWhere.not_singleStatement {s : CBytes} (h : SemicolonBeforeWhere s)
    (command : SQLCommand) : ¬ SingleStatement s command := by
  obtain ⟨l, g, g', lw, condition, rfl⟩ := h
  obtain ⟨-, -, husers, -, hselect, hfrom, hwhere, -⟩ := isWord_keyword
  rintro ⟨-, e, hend⟩
  have hplain : Plain (l.textBefore g.text) := by
    unfold SelectLayout.textBefore Plain
    intro c hc
    simp only [List.mem_append, List.mem_cons] at hc
    rcases hc with hc | hc | rfl | hc | hc | hc | hc | hc
    · exact (hselect.spelling _).plain c hc
    · exact Gap.plain _ c hc
    · decide
    · exact Gap.plain _ c hc
    · exact (hfrom.spelling _).plain c hc
    · exact Gap.plain _ c hc
    · exact (husers.spelling _).plain c hc
    · exact Gap.plain _ c hc
  obtain ⟨rest, hrest⟩ : ∃ rest, lw.text condition = lw.whereWord.text ++ rest := ⟨_, rfl⟩
  have htext : l.whereText g (some g') lw condition =
      l.textBefore g.text ++ 59 :: (g'.text ++ (lw.whereWord.text ++ rest)) := by
    simp only [SelectLayout.whereText, SelectLayout.textBefore, semicolonText, hrest,
      List.append_assoc, List.cons_append]
  rw [htext] at hend
  exact not_endsIn hplain (hwhere.spelling lw.whereWord) g' e hend

/-- **What the parser accepts is one statement of its grammar, except for a semicolon in front of
a `WHERE`.** -/
theorem sqlParse_single_statement_iff (s : CBytes) :
    ((sqlParse s).1 = true → SingleStatement s (sqlParse s).2.command) ↔
      ¬ SemicolonBeforeWhere s := by
  constructor
  · intro h hwhere
    obtain ⟨l, g, g', lw, condition, rfl⟩ := hwhere
    have hacc : sqlParse (l.whereText g (some g') lw condition) = (true, _) :=
      sqlParse_eq_iff.mpr (Or.inr (Or.inr
        ⟨{ (default : Layout) with select := l, condition := lw }, g, g', condition, rfl, rfl⟩))
    refine SemicolonBeforeWhere.not_singleStatement ⟨l, g, g', lw, condition, rfl⟩ _ (h ?_)
    rw [hacc]
  · intro hwhere haccepted
    have hacc : sqlParse s = (true, (sqlParse s).2) := by
      rw [← haccepted]
    rcases sqlParse_eq_iff.mp hacc with ⟨g, l, hs, hr⟩ | ⟨l, statement, -, hs, hr⟩ |
      ⟨l, g, g', condition, hs, -⟩
    · rw [hr]
      obtain ⟨e, he⟩ := Statement.endsIn l .exit
      refine ⟨⟨g, l, .exit, hs, Statement.command_matches l .exit⟩, e, ?_⟩
      rw [hs]
      exact he.append g.plain
    · rw [hr]
      obtain ⟨e, he⟩ := statement.endsIn l
      refine ⟨⟨default, l, statement, hs, statement.command_matches l⟩, e, ?_⟩
      rw [hs]
      exact he
    · exact absurd ⟨l.select, g, g', l.condition, condition, hs⟩ hwhere

/-- A statement that breaks off at a semicolon and goes on with a condition. -/
theorem sqlParse_accepts_semicolon_before_where :
    ¬ ((sqlParse (ascii "SELECT * FROM users; WHERE id = 1")).1 = true →
      SingleStatement (ascii "SELECT * FROM users; WHERE id = 1")
        (sqlParse (ascii "SELECT * FROM users; WHERE id = 1")).2.command) := by
  have hwhere : SemicolonBeforeWhere (ascii "SELECT * FROM users; WHERE id = 1") := by
    let blank : Gap := ⟨[32], by decide +kernel⟩
    refine ⟨{ (default : SelectLayout) with beforeStar := blank, beforeFrom := blank }, default,
      blank, { (default : WhereLayout) with beforeOperator := blank, beforeOperand := blank },
      .id .eq ⟨false, [49], by decide, by decide +kernel⟩, ?_⟩
    decide
  intro h
  exact hwhere.not_singleStatement _ (h (by decide))

end MiniDbms
