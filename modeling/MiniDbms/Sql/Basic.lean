import Mathlib.Data.List.DropRight
import MiniDbms.Lib.CString
import MiniDbms.Table.Basic

/-!
# The SQL parser (`sql_processor/sql.c`)

A cursor is the rest of the input, `[]` at its end.  A helper that reads a token gives the token, or
`none` when it fails, together with the cursor it leaves behind: several helpers move the cursor
before they fail, and `sql_parse_select` goes on with such a cursor.

`sqlExpect` is the guard `if (!helper(&cursor, ...)) { sql_parse_set_syntax_error(result, cursor);
return; }` with the code behind it.  A `sql_parse_string` that fails leaves the bytes it has read in
the field of the command, without a `NUL`; the field is then these bytes (`sqlStringBuffer`).
-/

namespace MiniDbms

open CString

/-- A position in the input: the bytes from there to its end. -/
abbrev Cursor := CBytes

/-- `enum SQLStatus` -/
inductive SQLStatus
  | ok | notFound | syntaxError | queryError | exit | error
  deriving DecidableEq

/-- `enum SQLLockMode` -/
inductive SQLLockMode
  | none | read | write
  deriving DecidableEq

/-- `enum SQLCommandType` -/
inductive SQLCommandType
  | none | insert | selectAll | selectById | selectByName | selectByAge | exit
  deriving DecidableEq

/-- `struct SQLCommand` -/
structure SQLCommand where
  type : SQLCommandType
  comparison : TableComparison
  tableName : CBytes
  name : CBytes
  selectedColumn : CBytes
  whereColumn : CBytes
  textValue : CBytes
  intValue : ℤ
  hasWhere : Bool
  deriving DecidableEq

/-- `struct SQLParseResult` -/
structure SQLParseResult where
  parsed : Bool
  command : SQLCommand
  status : SQLStatus
  errorCode : ℤ
  sqlState : CBytes
  errorMessage : CBytes
  deriving DecidableEq

/-- The sizes of the buffers of the parser. -/
abbrev identifierSize : ℕ := 32
abbrev nearExcerptSize : ℕ := 64
abbrev sqlStateSize : ℕ := 6
abbrev sqlErrorMessageSize : ℕ := 256

/-- `snprintf(buffer, size, ...)` -/
def snprintf (size : ℕ) (text : CBytes) : CBytes := text.take (size - 1)

/-! ### Tokens -/

def sqlIsKnownColumn (column : CBytes) : Bool :=
  casecmpEq column (ascii "id") || casecmpEq column (ascii "name") || casecmpEq column (ascii "age")

/-- A byte that continues a keyword or an identifier. -/
def isWordByte (c : UInt8) : Bool := isalnum c || c == 95

/-- Skips whitespace characters in the parser cursor. -/
def sqlSkipSpaces (cursor : Cursor) : Cursor := cursor.dropWhile isspace

/-- The comparison loop of `sql_match_keyword`: the rest behind the keyword. -/
def sqlKeywordLoop : Cursor → CBytes → Option Cursor
  | start, [] => some start
  | [], _ :: _ => none
  | c :: start, k :: word => if tolower c ≠ tolower k then none else sqlKeywordLoop start word

/-- Matches a keyword case-insensitively and requires a token boundary. -/
def sqlMatchKeyword (cursor : Cursor) (keyword : CBytes) : Option Unit × Cursor :=
  match sqlKeywordLoop cursor keyword with
  | none => (none, cursor)
  | some start => if isWordByte (peek start) then (none, cursor) else (some (), start)

/-- Matches a single expected punctuation character. -/
def sqlMatchChar (cursor : Cursor) (expected : UInt8) : Option Unit × Cursor :=
  match sqlSkipSpaces cursor with
  | [] => (none, [])
  | c :: rest => if c ≠ expected then (none, c :: rest) else (some (), rest)

/-- Parses an identifier such as users, id, name, or age. -/
def sqlParseIdentifier (cursor : Cursor) (bufferSize : ℕ) : Option CBytes × Cursor :=
  let cursor := sqlSkipSpaces cursor
  if ¬ (isalpha (peek cursor) || peek cursor == 95) then (none, cursor)
  else
    let word := cursor.takeWhile isWordByte
    let buffer := word.take (bufferSize - 1)
    if buffer.length = 0 then (none, cursor)
    else
      let cursor := cursor.dropWhile isWordByte
      if word.length ≥ bufferSize then (none, cursor) else (some buffer, cursor)

/-- The loop of `sql_parse_string`, with the bytes read so far. -/
def sqlStringLoop (bufferSize : ℕ) (buffer : CBytes) : Cursor → Option CBytes × Cursor
  | [] => (none, [])
  | c :: cursor =>
    if c = 39 then (some buffer, cursor)
    else if buffer.length + 1 ≥ bufferSize then (none, c :: cursor)
    else sqlStringLoop bufferSize (buffer ++ [c]) cursor

/-- Parses a single-quoted string literal. -/
def sqlParseString (cursor : Cursor) (bufferSize : ℕ) : Option CBytes × Cursor :=
  match sqlSkipSpaces cursor with
  | [] => (none, [])
  | c :: cursor => if c ≠ 39 then (none, c :: cursor) else sqlStringLoop bufferSize [] cursor

/-- What `sql_parse_string` has written into an empty buffer when it stops: what it has read up to a
quote, as far as it fits. -/
def sqlStringBuffer (cursor : Cursor) (bufferSize : ℕ) : CBytes :=
  match sqlSkipSpaces cursor with
  | [] => []
  | c :: cursor => if c ≠ 39 then [] else (cursor.takeWhile (· ≠ 39)).take (bufferSize - 1)

/-- Parses a signed integer literal; the `long` is cut down to an `int`. -/
def sqlParseInt (cursor : Cursor) : Option ℤ × Cursor :=
  let cursor := sqlSkipSpaces cursor
  if ¬ (isdigit (peek cursor) || peek cursor == 45) then (none, cursor)
  else
    let (parsed, endPtr) := strtol cursor
    if endPtr = cursor then (none, cursor) else (some (intWrap parsed), endPtr)

/-- Parses one of =, <, <=, >, >= into a comparison enum. -/
def sqlParseComparison (cursor : Cursor) : Option TableComparison × Cursor :=
  match sqlSkipSpaces cursor with
  | 62 :: 61 :: rest => (some .ge, rest)
  | 60 :: 61 :: rest => (some .le, rest)
  | 62 :: rest => (some .gt, rest)
  | 60 :: rest => (some .lt, rest)
  | 61 :: rest => (some .eq, rest)
  | cursor => (none, cursor)

/-- Accepts an optional semicolon and trailing whitespace at the end. -/
def sqlMatchStatementEnd (cursor : Cursor) : Option Unit × Cursor :=
  let cursor := sqlSkipSpaces cursor
  let cursor := if peek cursor = 59 then cursor.tail else cursor
  let cursor := sqlSkipSpaces cursor
  (if cursor = [] then some () else none, cursor)

/-! ### Results -/

/-- The state that `sql_parse_result_init` sets up. -/
def sqlParseResultInit : SQLParseResult where
  parsed := false
  command := ⟨.none, .eq, [], [], [], [], [], 0, false⟩
  status := .syntaxError
  errorCode := 0
  sqlState := []
  errorMessage := []

def sqlParseResultSetError (result : SQLParseResult) (status : SQLStatus) (errorCode : ℤ)
    (sqlState message : CBytes) : SQLParseResult where
  parsed := false
  command := { result.command with type := .none }
  status := status
  errorCode := errorCode
  sqlState := snprintf sqlStateSize sqlState
  errorMessage := snprintf sqlErrorMessageSize message

/-- The text that an error message quotes. -/
def sqlBuildNearExcerpt (cursor : Cursor) (bufferSize : ℕ) : CBytes :=
  let cursor := cursor.dropWhile isspace
  let buffer := (cursor.takeWhile fun c => c ≠ 10 ∧ c ≠ 13 ∧ c ≠ 59).take (bufferSize - 1)
  let buffer := buffer.rdropWhile isspace
  if buffer = [] then snprintf bufferSize (ascii "end of input") else buffer

def sqlParseSetSyntaxError (result : SQLParseResult) (cursor : Cursor) : SQLParseResult :=
  let nearExcerpt := sqlBuildNearExcerpt cursor nearExcerptSize
  { sqlParseResultSetError result .syntaxError 1064 (ascii "42000") [] with
    errorMessage := snprintf sqlErrorMessageSize
      (ascii ("ERROR 1064 (42000): You have an error in your SQL syntax; check the manual that " ++
        "corresponds to your sql processor2 version for the right syntax to use near '") ++
        nearExcerpt ++ ascii "' at line 1") }

def sqlParseSetUnknownColumnError (result : SQLParseResult) (column clauseName : CBytes) :
    SQLParseResult :=
  { sqlParseResultSetError result .queryError 1054 (ascii "42S22") [] with
    errorMessage := snprintf sqlErrorMessageSize (ascii "ERROR 1054 (42S22): Unknown column '" ++
      column ++ ascii "' in '" ++ clauseName ++ ascii "'") }

/-- Goes on with what a helper read, or sets a syntax error at the cursor it left. -/
def sqlExpect {α : Type} (read : Option α × Cursor) (result : SQLParseResult)
    (next : α → Cursor → SQLParseResult) : SQLParseResult :=
  match read with
  | (none, cursor) => sqlParseSetSyntaxError result cursor
  | (some a, cursor) => next a cursor

/-! ### Statements -/

def sqlParseInsert (input : Cursor) (result : SQLParseResult) : SQLParseResult :=
  match sqlMatchKeyword input (ascii "INSERT") with
  | (none, _) => result
  | (some _, cursor) =>
  sqlExpect (sqlMatchKeyword (sqlSkipSpaces cursor) (ascii "INTO")) result fun _ cursor =>
  sqlExpect (sqlParseIdentifier cursor identifierSize) result fun tableName cursor =>
  if ¬ casecmpEq tableName (ascii "users") then sqlParseSetSyntaxError result tableName else
  sqlExpect (sqlMatchKeyword (sqlSkipSpaces cursor) (ascii "VALUES")) result fun _ cursor =>
  sqlExpect (sqlMatchChar cursor 40) result fun _ cursor =>
  let read := { result with
    command := { result.command with name := sqlStringBuffer cursor recordNameSize } }
  sqlExpect (sqlParseString cursor recordNameSize) read fun name cursor =>
  let result := { result with command := { result.command with name := name } }
  sqlExpect (sqlMatchChar cursor 44) result fun _ cursor =>
  sqlExpect (sqlParseInt cursor) result fun age cursor =>
  let result := { result with command := { result.command with intValue := age } }
  sqlExpect (sqlMatchChar cursor 41) result fun _ cursor =>
  sqlExpect (sqlMatchStatementEnd cursor) result fun _ _ =>
  { result with
    command := { result.command with tableName := tableName, type := .insert }
    parsed := true
    status := .ok }

/-- What `sql_parse_select` does behind `SELECT` when no `*` follows. -/
def sqlParseSelectColumn (cursor : Cursor) (result : SQLParseResult) : SQLParseResult :=
  sqlExpect (sqlParseIdentifier cursor identifierSize) result fun selectedColumn cursor =>
  if ¬ sqlIsKnownColumn selectedColumn then
    sqlParseSetUnknownColumnError result selectedColumn (ascii "field list")
  else sqlParseSetSyntaxError result cursor

/-- The conditions `id op n` and `age op n` behind their operator. -/
def sqlParseIntOperand (cursor : Cursor) (result : SQLParseResult) (type : SQLCommandType) :
    SQLParseResult :=
  sqlExpect (sqlParseInt cursor) result fun value cursor =>
  let result := { result with command := { result.command with intValue := value } }
  sqlExpect (sqlMatchStatementEnd cursor) result fun _ _ =>
  { result with command := { result.command with type := type }, parsed := true, status := .ok }

/-- What `sql_parse_select` does behind the table name when the statement does not end there. -/
def sqlParseWhere (cursor : Cursor) (result : SQLParseResult) (tableName : CBytes) :
    SQLParseResult :=
  sqlExpect (sqlMatchKeyword cursor (ascii "WHERE")) result fun _ cursor =>
  sqlExpect (sqlParseIdentifier cursor identifierSize) result fun column comparisonCursor =>
  sqlExpect (sqlParseComparison comparisonCursor) result fun comparison cursor =>
  let result := { result with command := { result.command with
    comparison := comparison, tableName := tableName, whereColumn := column, hasWhere := true } }
  if casecmpEq column (ascii "id") then sqlParseIntOperand cursor result .selectById
  else if casecmpEq column (ascii "name") then
    if comparison ≠ .eq then sqlParseSetSyntaxError result comparisonCursor else
    let read := { result with
      command := { result.command with textValue := sqlStringBuffer cursor recordNameSize } }
    sqlExpect (sqlParseString cursor recordNameSize) read fun text cursor =>
    let result := { result with command := { result.command with textValue := text } }
    sqlExpect (sqlMatchStatementEnd cursor) result fun _ _ =>
    { result with
      command := { result.command with type := .selectByName }, parsed := true, status := .ok }
  else if casecmpEq column (ascii "age") then sqlParseIntOperand cursor result .selectByAge
  else sqlParseSetUnknownColumnError result column (ascii "where clause")

def sqlParseSelect (input : Cursor) (result : SQLParseResult) : SQLParseResult :=
  match sqlMatchKeyword input (ascii "SELECT") with
  | (none, _) => result
  | (some _, cursor) =>
  match sqlMatchChar (sqlSkipSpaces cursor) 42 with
  | (none, cursor) => sqlParseSelectColumn cursor result
  | (some _, cursor) =>
  sqlExpect (sqlMatchKeyword (sqlSkipSpaces cursor) (ascii "FROM")) result fun _ cursor =>
  sqlExpect (sqlParseIdentifier cursor identifierSize) result fun tableName cursor =>
  if ¬ casecmpEq tableName (ascii "users") then sqlParseSetSyntaxError result tableName else
  match sqlMatchStatementEnd (sqlSkipSpaces cursor) with
  | (some _, _) =>
    { result with
      command := { result.command with tableName := tableName, type := .selectAll }
      parsed := true
      status := .ok }
  | (none, cursor) => sqlParseWhere cursor result tableName

/-- `sql_match_keyword(&cursor, "EXIT") || sql_match_keyword(&cursor, "QUIT")` -/
def sqlMatchExit (cursor : Cursor) : Option Unit × Cursor :=
  match sqlMatchKeyword cursor (ascii "EXIT") with
  | (some _, cursor) => (some (), cursor)
  | (none, cursor) => sqlMatchKeyword cursor (ascii "QUIT")

/-- Parses one SQL statement into a command object. -/
def sqlParse (input : CBytes) : Bool × SQLParseResult :=
  let result := sqlParseResultInit
  let cursor := sqlSkipSpaces input
  match sqlMatchExit cursor with
  | (some _, cursor) =>
    match sqlMatchStatementEnd cursor with
    | (some _, _) =>
      (true, { result with
        command := { result.command with type := .exit }, parsed := true, status := .exit })
    | (none, cursor) => (false, sqlParseSetSyntaxError result cursor)
  | (none, cursor) =>
    -- the two statement parsers start at `input`, in front of leading whitespace
    let result := sqlParseInsert input result
    if result.parsed || result.errorMessage ≠ [] then (result.parsed, result)
    else
      let result := sqlParseSelect input result
      if result.parsed || result.errorMessage ≠ [] then (result.parsed, result)
      else (false, sqlParseSetSyntaxError result cursor)

/-! ### Lock modes -/

/-- Returns the lock mode implied by the first SQL keyword. -/
def sqlDetermineLockMode (input : CBytes) : SQLLockMode :=
  let cursor := sqlSkipSpaces input
  if (sqlMatchKeyword cursor (ascii "SELECT")).1 = some () then .read
  else if (sqlMatchKeyword cursor (ascii "INSERT")).1 = some () then .write
  else .none

/-- Returns the lock mode required for a parsed SQL command. -/
def sqlCommandLockMode (command : SQLCommand) : SQLLockMode :=
  match command.type with
  | .insert => .write
  | .selectAll | .selectById | .selectByName | .selectByAge => .read
  | .exit | .none => .none

end MiniDbms
