import MiniDbms.Sql.Basic

/-!
# Executing statements (`sql_processor/sql.c`)
-/

namespace MiniDbms

/-- `enum SQLAction` -/
inductive SQLAction
  | none | insert | selectRows
  deriving DecidableEq

/-- `struct SQLResult`; `records` carries the array with its length, which is `row_count` except
after an insertion. -/
structure SQLResult where
  status : SQLStatus
  action : SQLAction
  record : Option RecordPtr
  records : RecordArray
  insertedId : ℤ
  rowCount : ℕ
  errorCode : ℤ
  sqlState : CBytes
  errorMessage : CBytes
  deriving DecidableEq

/-- Builds a zero-initialized SQL result with the requested defaults. -/
def sqlMakeResult (status : SQLStatus) (action : SQLAction) : SQLResult where
  status := status
  action := action
  record := none
  records := .empty
  insertedId := 0
  rowCount := 0
  errorCode := 0
  sqlState := []
  errorMessage := []

def sqlExecuteInsertPlan (m : TableMemory) (command : SQLCommand) :
    Option (TableMemory × SQLResult) :=
  let result := sqlMakeResult .error .none
  if command.type ≠ .insert then some (m, result)
  else do
    match ← tableInsert m command.name command.intValue with
    | (m, none) => some (m, result)
    | (m, some record) =>
      let r ← m.record record
      some (m, { result with
        status := .ok
        action := .insert
        record := some record
        insertedId := r.id
        rowCount := 1 })

/-- The lookup of a SELECT. -/
def sqlSelectRows (m : TableMemory) (command : SQLCommand) :
    Option (Bool × TableMemory × RecordArray) :=
  match command.type with
  | .selectAll => tableCollectAll m
  | .selectById => tableFindByIdCondition m command.comparison command.intValue
  | .selectByName => tableFindByNameMatches m command.textValue
  | .selectByAge => tableFindByAgeCondition m command.comparison command.intValue
  | .none | .insert | .exit => some (false, m, .empty)

def sqlExecuteSelectPlan (m : TableMemory) (command : SQLCommand) :
    Option (TableMemory × SQLResult) := do
  let (ok, m, records) ← sqlSelectRows m command
  let result := { sqlMakeResult .error .none with
    records := records, rowCount := records.rows.length }
  if ok then
    some (m, { result with
      record := records.rows.head?
      status := if result.rowCount = 0 then .notFound else .ok
      action := .selectRows })
  else some (m, result)

/-- Executes a parsed SQL command against the table. -/
def sqlExecutePlan (m : TableMemory) (command : SQLCommand) : Option (TableMemory × SQLResult) :=
  match command.type with
  | .insert => sqlExecuteInsertPlan m command
  | .selectAll | .selectById | .selectByName | .selectByAge => sqlExecuteSelectPlan m command
  | .exit => some (m, sqlMakeResult .exit .none)
  | .none => some (m, sqlMakeResult .error .none)

/-- Parses one SQL statement and executes it against the table. -/
def sqlExecute (m : TableMemory) (input : CBytes) : Option (TableMemory × SQLResult) :=
  match sqlParse input with
  | (false, parseResult) =>
    some (m, { sqlMakeResult parseResult.status .none with
      errorCode := parseResult.errorCode
      sqlState := snprintf sqlStateSize parseResult.sqlState
      errorMessage := snprintf sqlErrorMessageSize parseResult.errorMessage })
  | (true, parseResult) => do
    let (m, result) ← sqlExecutePlan m parseResult.command
    if parseResult.command.type = .exit then some (m, { result with status := .exit })
    else some (m, result)

/-- Releases any heap memory owned by a SQL result. -/
def sqlResultDestroy (m : TableMemory) (result : SQLResult) : TableMemory × SQLResult :=
  (tableFreeArray m result.records, sqlMakeResult .ok .none)

end MiniDbms
