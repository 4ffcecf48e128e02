import MiniDbms.Lib.LineReader
import MiniDbms.Sql.Execute

/-!
# The REPL (`sql_processor/main.c`)

It reads standard input through a buffer of 256 bytes, executes what `fgets` put into it as one
statement, and prints the result.  `executed` are the texts that `sql_execute` was called with so
far; the source does not keep them.
-/

namespace MiniDbms

open CString

/-- `INPUT_BUFFER_SIZE` -/
abbrev inputBufferSize : ℕ := 256

/-! ### Printing (`table_print_record`, `table_print_records`) -/

def tablePrintRecord (record : Record) : CBytes :=
  ascii "id=" ++ intText record.id ++ ascii ", name='" ++ record.name ++ ascii "', age=" ++
    intText record.age ++ ascii "\n"

/-- Prints an already collected record pointer array: what is printed, and the row count. -/
def tablePrintRecords (m : TableMemory) (records : RecordArray) : Option (CBytes × ℕ) :=
  match records.ptr with
  | none => some ([], 0)
  | some _ => do
    let rows ← records.rows.mapM m.record
    some (rows.flatMap tablePrintRecord, records.rows.length)

/-- What the REPL prints of a result. -/
def replAnswer (m : TableMemory) (result : SQLResult) : Option CBytes :=
  if result.status = .ok then
    match result.action with
    | .insert =>
      some (ascii "Inserted row with id = " ++ intText result.insertedId ++ ascii "\n")
    | .selectRows => do
      let (text, rowCount) ← tablePrintRecords m result.records
      some (if rowCount = 0 then text ++ ascii "No rows\n" else text)
    | .none => some (ascii "Done\n")
  else if result.status = .notFound then some (ascii "Not found\n")
  else if result.errorMessage ≠ [] then some (result.errorMessage ++ ascii "\n")
  else if result.status = .syntaxError then some (ascii "Syntax error\n")
  else some (ascii "Execution error\n")

/-! ### The loop -/

structure Repl where
  memory : TableMemory
  stdin : List UInt8
  stdout : CBytes
  executed : List CBytes

/-- `printf` -/
def Repl.print (s : Repl) (text : CBytes) : Repl := { s with stdout := s.stdout ++ text }

/-- What `main` prints first. -/
def replBanner : CBytes :=
  ascii "Simple SQL Processor with B+ Tree Index\n" ++
    ascii "Supported statements:\n" ++
    ascii "  INSERT INTO users VALUES ('Alice', 20);\n" ++
    ascii "  SELECT * FROM users;\n" ++
    ascii "  SELECT * FROM users WHERE id = 1;\n" ++
    ascii "  SELECT * FROM users WHERE id >= 10;\n" ++
    ascii "  SELECT * FROM users WHERE name = 'Alice';\n" ++
    ascii "  SELECT * FROM users WHERE age = 20;\n" ++
    ascii "  SELECT * FROM users WHERE age > 20;\n" ++
    ascii "  SELECT * FROM users WHERE age <= 20;\n" ++
    ascii "Type EXIT or QUIT to leave.\n"

/-- `main` behind a successful `table_create`, up to the loop. -/
def Repl.start (m : TableMemory) (stdin : List UInt8) : Repl := ⟨m, stdin, replBanner, []⟩

/-- One round of the loop, and whether there is another one. -/
def replRound (s : Repl) : Option (Bool × Repl) :=
  let s := s.print (ascii "sql> ")
  match fgets inputBufferSize s.stdin with
  | none => some (false, s)
  | some (buffer, stdin) => do
    -- `sql_execute` reads the buffer up to its first `NUL`
    let input := buffer.takeWhile (· ≠ 0)
    let (m, result) ← sqlExecute s.memory input
    let s := { s with
      memory := (sqlResultDestroy m result).1
      stdin := stdin
      executed := s.executed ++ [input] }
    if result.status = .exit then some (false, s)
    else some (true, s.print (← replAnswer m result))

/-- The loop, for so many rounds; without an end until then there is no result. -/
def replLoop : ℕ → Repl → Option Repl
  | 0, _ => none
  | rounds + 1, s => do
    match ← replRound s with
    | (false, s) => some s
    | (true, s) => replLoop rounds s

/-- `main` behind a successful `table_create`.  Every round but the last reads a byte. -/
def replMain (m : TableMemory) (stdin : List UInt8) : Option Repl := do
  let s ← replLoop (stdin.length + 1) (.start m stdin)
  some { s with memory := ← tableDestroy s.memory }

end MiniDbms
