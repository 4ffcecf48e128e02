import MiniDbms.Sql.Execute

/-!
# A database that is one list

The purpose of the SQL engine, without buckets, pointers and indexes: the database is the list of
its rows in the order of their insertion, and a statement does what its parsed command says.
-/

namespace MiniDbms

/-- `left op right` -/
def TableComparison.Holds (left right : ℤ) : TableComparison → Prop
  | .eq => left = right
  | .lt => left < right
  | .le => left ≤ right
  | .gt => right < left
  | .ge => right ≤ left

instance (left right : ℤ) (comparison : TableComparison) :
    Decidable (comparison.Holds left right) := by
  unfold TableComparison.Holds
  cases comparison <;> infer_instance

/-- What a client sees of a result. -/
structure Answer where
  status : SQLStatus
  action : SQLAction
  insertedId : ℤ
  rowCount : ℕ
  rows : List Record
  deriving DecidableEq

namespace ListDatabase

/-- The rows that a command asks for. -/
def Selects (command : SQLCommand) (row : Record) : Prop :=
  match command.type with
  | .selectAll => True
  | .selectById => command.comparison.Holds row.id command.intValue
  | .selectByName => row.name = command.textValue
  | .selectByAge => command.comparison.Holds row.age command.intValue
  | .none | .insert | .exit => False

instance (command : SQLCommand) (row : Record) : Decidable (Selects command row) := by
  unfold Selects
  cases command.type <;> infer_instance

/-- The answer to a SELECT that found some rows. -/
def selected (found : List Record) : Answer :=
  ⟨if found = [] then .notFound else .ok, .selectRows, 0, found.length, found⟩

/-- The effect of a command, and its answer. -/
def apply (rows : List Record) (command : SQLCommand) : List Record × Answer :=
  match command.type with
  | .insert =>
    (rows ++ [⟨rows.length + 1, command.name, command.intValue⟩],
      ⟨.ok, .insert, rows.length + 1, 1, []⟩)
  | .selectAll | .selectById | .selectByName | .selectByAge =>
    (rows, selected (rows.filter fun row => Selects command row))
  | .exit => (rows, ⟨.exit, .none, 0, 0, []⟩)
  | .none => (rows, ⟨.error, .none, 0, 0, []⟩)

/-- The effect of a statement, and its answer. -/
def execute (rows : List Record) (input : CBytes) : List Record × Answer :=
  match sqlParse input with
  | (true, parseResult) => apply rows parseResult.command
  | (false, parseResult) => (rows, ⟨parseResult.status, .none, 0, 0, []⟩)

/-- The statements one after another, with all answers. -/
def run (rows : List Record) : List CBytes → List Record × List Answer
  | [] => (rows, [])
  | input :: inputs =>
    let (rows, answer) := execute rows input
    let (rows, answers) := run rows inputs
    (rows, answer :: answers)

end ListDatabase

end MiniDbms
