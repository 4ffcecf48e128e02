import MiniDbms.Sql.Basic

/-!
# The grammar of the statements

A `Statement` is what a statement says; a `Layout` is everything about its text that does not change
what it says: the case of the letters, the whitespace at the gaps between the tokens, and the
ending. `Statement.text` writes a statement in a layout.

The numbers of a statement are of any type: `IntLiteral` for a statement as it is written, `CInt`
for a command, which `render` writes out in decimal.
-/

namespace MiniDbms

open CString

/-! ### The pieces of a text -/

/-- A run of whitespace. -/
structure Gap where
  text : CBytes
  space : ∀ c ∈ text, isspace c = true

/-- A gap that separates two words. -/
structure Sep extends Gap where
  ne_nil : text ≠ []

/-- A word, in any case. -/
structure Spelling (word : CBytes) where
  text : CBytes
  same : casecmpEq text word = true

/-- The text behind a statement: an optional semicolon, and whitespace. -/
structure Ending where
  gap : Gap
  semicolon : Bool
  trailing : Gap

def Ending.text (e : Ending) : CBytes :=
  e.gap.text ++ ((if e.semicolon then [59] else []) ++ e.trailing.text)

/-- A decimal integer literal. -/
structure IntLiteral where
  negative : Bool
  digits : CBytes
  ne_nil : digits ≠ []
  isdigit : ∀ c ∈ digits, isdigit c = true

def IntLiteral.text (n : IntLiteral) : CBytes := (if n.negative then [45] else []) ++ n.digits

def IntLiteral.value (n : IntLiteral) : ℤ :=
  if n.negative then -(digitsValue n.digits : ℤ) else digitsValue n.digits

/-- What can stand between the quotes of a string literal. -/
structure StringOperand where
  bytes : CBytes
  no_quote : 39 ∉ bytes
  length_lt : bytes.length < recordNameSize

/-- A string literal, followed by `rest`. -/
def StringOperand.textBefore (s : StringOperand) (rest : CBytes) : CBytes :=
  39 :: (s.bytes ++ 39 :: rest)

/-- The text of a comparison operator. -/
def TableComparison.text : TableComparison → CBytes
  | .eq => [61]
  | .lt => [60]
  | .le => [60, 61]
  | .gt => [62]
  | .ge => [62, 61]

instance : Inhabited Gap := ⟨⟨[], by simp⟩⟩

theorem isspace_blank : ∀ c ∈ [32], isspace c = true :=
  List.forall_mem_singleton.mpr rfl

/-- A single blank. -/
instance : Inhabited Sep := ⟨⟨⟨[32], isspace_blank⟩, by simp⟩⟩

instance (word : CBytes) : Inhabited (Spelling word) := ⟨⟨word, casecmpEq_iff.mpr rfl⟩⟩

instance : Inhabited Ending := ⟨⟨default, false, default⟩⟩

/-! ### Statements -/

/-- The three columns with their conditions. -/
inductive Condition (Number : Type)
  | id (comparison : TableComparison) (value : Number)
  | name (text : StringOperand)
  | age (comparison : TableComparison) (value : Number)

/-- What a statement says. -/
inductive Statement (Number : Type)
  | exit
  | insert (name : StringOperand) (age : Number)
  | select
  | selectWhere (condition : Condition Number)

variable {Number : Type}

def Condition.column : Condition Number → CBytes
  | .id _ _ => ascii "id"
  | .name _ => ascii "name"
  | .age _ _ => ascii "age"

def Condition.comparison : Condition Number → TableComparison
  | .id comparison _ => comparison
  | .name _ => .eq
  | .age comparison _ => comparison

def Condition.type : Condition Number → SQLCommandType
  | .id _ _ => .selectById
  | .name _ => .selectByName
  | .age _ _ => .selectByAge

/-- The string operand of a condition, empty when there is none. -/
def Condition.textValue : Condition Number → CBytes
  | .name text => text.bytes
  | _ => []

/-- The number operand of a condition. -/
def Condition.number : Condition Number → Option Number
  | .id _ value => some value
  | .name _ => none
  | .age _ value => some value

def Condition.map {Number' : Type} (f : Number → Number') : Condition Number → Condition Number'
  | .id comparison value => .id comparison (f value)
  | .name text => .name text
  | .age comparison value => .age comparison (f value)

def Statement.map {Number' : Type} (f : Number → Number') : Statement Number → Statement Number'
  | .exit => .exit
  | .insert name age => .insert name (f age)
  | .select => .select
  | .selectWhere condition => .selectWhere (condition.map f)

/-! ### Layouts -/

structure ExitLayout where
  word : CBytes
  same : casecmpEq word (ascii "EXIT") = true ∨ casecmpEq word (ascii "QUIT") = true
  ending : Ending

structure InsertLayout where
  insert : Spelling (ascii "INSERT")
  beforeInto : Sep
  into : Spelling (ascii "INTO")
  beforeTable : Sep
  table : Spelling (ascii "users")
  beforeValues : Sep
  values : Spelling (ascii "VALUES")
  beforeOpen : Gap
  beforeName : Gap
  beforeComma : Gap
  beforeAge : Gap
  beforeClose : Gap
  ending : Ending
  deriving Inhabited

/-- `SELECT * FROM users` -/
structure SelectLayout where
  select : Spelling (ascii "SELECT")
  beforeStar : Gap
  beforeFrom : Gap
  fromWord : Spelling (ascii "FROM")
  beforeTable : Sep
  table : Spelling (ascii "users")
  deriving Inhabited

/-- `WHERE column op operand`; the column is spelled as in the condition. -/
structure WhereLayout where
  whereWord : Spelling (ascii "WHERE")
  beforeColumn : Sep
  id : Spelling (ascii "id")
  name : Spelling (ascii "name")
  age : Spelling (ascii "age")
  beforeOperator : Gap
  beforeOperand : Gap
  ending : Ending
  deriving Inhabited

instance : Inhabited ExitLayout := ⟨⟨ascii "EXIT", Or.inl (casecmpEq_iff.mpr rfl), default⟩⟩

structure Layout where
  exit : ExitLayout
  insert : InsertLayout
  select : SelectLayout
  selectEnding : Ending
  beforeWhere : Sep
  condition : WhereLayout
  deriving Inhabited

def ExitLayout.text (l : ExitLayout) : CBytes := l.word ++ l.ending.text

def InsertLayout.text (l : InsertLayout) (name : StringOperand) (age : IntLiteral) : CBytes :=
  l.insert.text ++ (l.beforeInto.text ++ (l.into.text ++ (l.beforeTable.text ++ (l.table.text ++
    (l.beforeValues.text ++ (l.values.text ++ (l.beforeOpen.text ++ 40 :: (l.beforeName.text ++
    name.textBefore (l.beforeComma.text ++ 44 :: (l.beforeAge.text ++ (age.text ++
    (l.beforeClose.text ++ 41 :: l.ending.text))))))))))))

/-- `SELECT * FROM users`, followed by `rest`. -/
def SelectLayout.textBefore (l : SelectLayout) (rest : CBytes) : CBytes :=
  l.select.text ++ (l.beforeStar.text ++ 42 :: (l.beforeFrom.text ++ (l.fromWord.text ++
    (l.beforeTable.text ++ (l.table.text ++ rest)))))

def WhereLayout.column (l : WhereLayout) : Condition Number → CBytes
  | .id _ _ => l.id.text
  | .name _ => l.name.text
  | .age _ _ => l.age.text

/-- The operand of a condition, followed by `rest`. -/
def Condition.operandBefore (rest : CBytes) : Condition IntLiteral → CBytes
  | .id _ value => value.text ++ rest
  | .name text => text.textBefore rest
  | .age _ value => value.text ++ rest

def WhereLayout.text (l : WhereLayout) (condition : Condition IntLiteral) : CBytes :=
  l.whereWord.text ++ (l.beforeColumn.text ++ (l.column condition ++ (l.beforeOperator.text ++
    (condition.comparison.text ++ (l.beforeOperand.text ++
    condition.operandBefore l.ending.text)))))

/-- A statement in a layout. -/
def Statement.text (l : Layout) : Statement IntLiteral → CBytes
  | .exit => l.exit.text
  | .insert name age => l.insert.text name age
  | .select => l.select.textBefore l.selectEnding.text
  | .selectWhere condition =>
    l.select.textBefore (l.beforeWhere.text ++ l.condition.text condition)

/-! ### Numbers -/

/-- The values of an `int`. -/
structure CInt where
  val : ℤ
  le_val : -2 ^ 31 ≤ val
  val_lt : val < 2 ^ 31

/-- An `int` in decimal. -/
def CInt.literal (n : CInt) : IntLiteral where
  negative := n.val < 0
  digits := decimalDigits n.val.natAbs
  ne_nil := decimalDigits_ne_nil _
  isdigit := isdigit_decimalDigits

theorem CInt.value_literal (n : CInt) : n.literal.value = n.val := by
  unfold IntLiteral.value CInt.literal
  simp only [digitsValue_decimalDigits, decide_eq_true_eq]
  split_ifs <;> omega

/-- **A command written out** in a layout. -/
def render (l : Layout) (command : Statement CInt) : CBytes := (command.map CInt.literal).text l

end MiniDbms
