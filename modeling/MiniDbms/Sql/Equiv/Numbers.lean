import MiniDbms.Sql.Equiv.Language

/-!
# What an integer literal is read as

`strtol` saturates to the range of `long`, and the cast to `int` keeps the low 32 bits.  A literal
in the range of `int` is read as its value; any other literal is read as another number, and
accepted: `sqlParse_intValue_iff`.
-/

namespace MiniDbms

open CString

/-! ### The statement in a text -/

/-- The texts that `sql_parse` accepts, with what they say. -/
inductive StatementText : CBytes → Statement IntLiteral → Prop
  | exit (g : Gap) (l : Layout) : StatementText (g.text ++ Statement.text l .exit) .exit
  | statement (l : Layout) (statement : Statement IntLiteral) :
    StatementText (statement.text l) statement
  | semicolon (l : Layout) (g g' : Gap) (condition : Condition IntLiteral) :
    StatementText (l.select.whereText g (some g') l.condition condition) (.selectWhere condition)

/-- The parser accepts these texts, and its command holds the number as it was parsed. -/
theorem StatementText.sqlParse {s : CBytes} {statement : Statement IntLiteral}
    (h : StatementText s statement) :
    ∃ l, sqlParse s = (true, statement.result l) := by
  cases h with
  | exit g l => exact ⟨l, sqlParse_exit g l⟩
  | statement l => exact ⟨l, sqlParse_text l statement⟩
  | semicolon l g g' condition =>
    exact ⟨l, sqlParse_eq_iff.mpr (Or.inr (Or.inr ⟨l, g, g', condition, rfl, rfl⟩))⟩

/-- It accepts no other text. -/
theorem exists_statementText {s : CBytes} (h : (sqlParse s).1 = true) :
    ∃ statement, StatementText s statement := by
  have hacc : sqlParse s = (true, (sqlParse s).2) := by
    rw [← h]
  rcases sqlParse_eq_iff.mp hacc with ⟨g, l, hs, -⟩ | ⟨l, statement, -, hs, -⟩ |
    ⟨l, g, g', condition, hs, -⟩
  · exact ⟨.exit, hs ▸ .exit g l⟩
  · exact ⟨statement, hs ▸ .statement l statement⟩
  · exact ⟨.selectWhere condition, hs ▸ .semicolon l g g' condition⟩

/-! ### Literals -/

/-- A literal is read as its value exactly in the range of `int`. -/
theorem IntLiteral.parsed_eq_iff (n : IntLiteral) : n.parsed = n.value ↔ IsInt n.value := by
  constructor
  · intro h
    rw [← h]
    exact isInt_intWrap _
  · intro h
    exact n.parsed_eq h.1 h.2

/-- **An accepted integer literal means its value exactly when an `int` can hold it.** -/
theorem sqlParse_intValue_iff (s : CBytes) (hs : (sqlParse s).1 = true) :
    (∃ statement, StatementText s statement) ∧
      ∀ (statement : Statement IntLiteral) (n : IntLiteral), StatementText s statement →
        statement.number = some n →
        ((sqlParse s).2.command.intValue = n.value ↔ IsInt n.value) := by
  refine ⟨exists_statementText hs, fun statement n h hn => ?_⟩
  obtain ⟨l, hl⟩ := h.sqlParse
  rw [hl]
  show (statement.command l).intValue = n.value ↔ IsInt n.value
  rw [Statement.command_intValue l hn, n.parsed_eq_iff]

/-- A layout with single blanks. -/
def blankLayout : Layout :=
  let blank : Gap := ⟨[32], isspace_blank⟩
  { (default : Layout) with
    select := { (default : SelectLayout) with beforeStar := blank, beforeFrom := blank }
    condition := { (default : WhereLayout) with beforeOperator := blank, beforeOperand := blank } }

/-- `SELECT * FROM users WHERE id = n` -/
def selectById (n : IntLiteral) : CBytes :=
  Statement.text blankLayout (.selectWhere (.id .eq n))

/-- The literals -1 and 4294967297. -/
def literalMinusOne : IntLiteral := ⟨true, ascii "1", by decide, by decide +kernel⟩
def literalPastInt : IntLiteral := ⟨false, ascii "4294967297", by decide, by decide +kernel⟩

theorem sqlParse_intValue_iff_minus_one :
    (∃ statement, StatementText (selectById literalMinusOne) statement) ∧
      ∀ (statement : Statement IntLiteral) (n : IntLiteral),
        StatementText (selectById literalMinusOne) statement → statement.number = some n →
        ((sqlParse (selectById literalMinusOne)).2.command.intValue = n.value ↔ IsInt n.value) :=
  sqlParse_intValue_iff _ (by decide)

/-- `WHERE id = 4294967297` looks for the row 1. -/
theorem sqlParse_reads_another_number :
    ¬ ∀ (s : CBytes) (statement : Statement IntLiteral) (n : IntLiteral), (sqlParse s).1 = true →
      StatementText s statement → statement.number = some n →
      (sqlParse s).2.command.intValue = n.value := by
  intro h
  have htext : selectById literalPastInt = ascii "SELECT * FROM users WHERE id = 4294967297" := by
    decide
  have hvalue := h (selectById literalPastInt) (.selectWhere (.id .eq literalPastInt))
    literalPastInt (by decide) (.statement blankLayout _) rfl
  rw [htext] at hvalue
  have hone : (sqlParse (ascii "SELECT * FROM users WHERE id = 4294967297")).2.command.intValue =
      1 :=
    by decide
  have hliteral : literalPastInt.value = 4294967297 := by decide
  rw [hone, hliteral] at hvalue
  exact absurd hvalue (by decide)

end MiniDbms
