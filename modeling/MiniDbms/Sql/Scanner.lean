import MiniDbms.Lib.CPointer
import MiniDbms.Sql.Basic

/-!
# The SQL parser over checked memory (`sql_processor/sql.c`)

The parser of `MiniDbms.Sql.Basic` once more, with the memory it works on.  A cursor is a pointer
into the array that holds the input or, for a table name that is reported, into a local array; the
buffers are arrays of the sizes they have in the source, and what a buffer holds is read back from
it.  Every loop is the loop of the source.  A result `none` means that a byte was read that is
outside its array or was never written, that a byte was written outside its array, or that a loop
has taken more than `turns` turns.

A helper that returns 1 or 0 gives `some` or `none`, together with the cursor; so does
`sqlParseIdentifier` with its buffer, since the local array of a call that fails is not used any
more.  Every caller of `sql_parse` passes the address of a variable for the result, which may hold
anything.
-/

namespace MiniDbms.Scanner

open Checked CString

/-- `struct SQLCommand` -/
structure SQLCommand where
  type : SQLCommandType
  comparison : TableComparison
  tableName : CArray UInt8 identifierSize
  name : CArray UInt8 recordNameSize
  selectedColumn : CArray UInt8 identifierSize
  whereColumn : CArray UInt8 identifierSize
  textValue : CArray UInt8 recordNameSize
  intValue : ℤ
  hasWhere : Bool

/-- `struct SQLParseResult`.  The last field is a ghost that no function reads: the cursor of the
last call of `sql_parse_set_syntax_error`. -/
structure SQLParseResult where
  parsed : Bool
  command : SQLCommand
  status : SQLStatus
  errorCode : ℤ
  sqlState : CArray UInt8 sqlStateSize
  errorMessage : CArray UInt8 sqlErrorMessageSize
  reported : Option CPointer

variable {n : ℕ} (turns : ℕ)

/-! ### Tokens -/

def sqlIsKnownColumn (column : CPointer) : Option Bool := do
  let isId ← column.strcasecmpEq turns (.ofString (ascii "id"))
  if isId then return true else
  let isName ← column.strcasecmpEq turns (.ofString (ascii "name"))
  if isName then return true else
  column.strcasecmpEq turns (.ofString (ascii "age"))

/-- Skips whitespace characters in the parser cursor. -/
def sqlSkipSpaces (cursor : CPointer) : Option CPointer := cursor.skipWhile isspace turns

/-- The comparison loop of `sql_match_keyword`: the cursor behind the keyword. -/
def sqlKeywordLoop (start word : CPointer) : Option (Option CPointer) :=
  loop (fun (start, word) => do
    let k ← word.read
    if k = 0 then return .leave (some start) else
    let c ← start.read
    return if tolower c ≠ tolower k then .leave none else .again (start.add 1, word.add 1))
    turns (start, word)

/-- Matches a keyword case-insensitively and requires a token boundary. -/
def sqlMatchKeyword (cursor : CPointer) (keyword : CBytes) : Option (Option Unit × CPointer) := do
  match ← sqlKeywordLoop turns cursor (.ofString keyword) with
  | none => return (none, cursor)
  | some start =>
    let c ← start.read
    return if isWordByte c then (none, cursor) else (some (), start)

/-- Matches a single expected punctuation character. -/
def sqlMatchChar (cursor : CPointer) (expected : UInt8) : Option (Option Unit × CPointer) := do
  let cursor ← sqlSkipSpaces turns cursor
  let c ← cursor.read
  return if c ≠ expected then (none, cursor) else (some (), cursor.add 1)

/-- The loop of `sql_parse_identifier` that fills the buffer. -/
def sqlIdentifierLoop (bufferSize length : ℕ) (cursor : CPointer) (buffer : CArray UInt8 n) :
    Option (ℕ × CPointer × CArray UInt8 n) :=
  loop (fun (length, cursor, buffer) => do
    let c ← cursor.read
    if isWordByte c ∧ length + 1 < bufferSize then
      let buffer ← buffer.write length c
      return .again (length + 1, cursor.add 1, buffer)
    else return .leave (length, cursor, buffer)) turns (length, cursor, buffer)

/-- The loop of `sql_parse_identifier` that goes on counting behind a full buffer. -/
def sqlIdentifierRestLoop (length : ℕ) (cursor : CPointer) : Option (ℕ × CPointer) :=
  loop (fun (length, cursor) => do
    let c ← cursor.read
    return if isWordByte c then .again (length + 1, cursor.add 1) else .leave (length, cursor))
    turns (length, cursor)

/-- Parses an identifier such as users, id, name, or age. -/
def sqlParseIdentifier (cursor : CPointer) (buffer : CArray UInt8 n) (bufferSize : ℕ) :
    Option (Option (CArray UInt8 n) × CPointer) := do
  let cursor ← sqlSkipSpaces turns cursor
  let c ← cursor.read
  if ¬ (isalpha c || c == 95) then return (none, cursor) else
  let (length, cursor, buffer) ← sqlIdentifierLoop turns bufferSize 0 cursor buffer
  if length = 0 then return (none, cursor) else
  let (length, cursor) ← sqlIdentifierRestLoop turns length cursor
  if length ≥ bufferSize then return (none, cursor) else
  let buffer ← buffer.write length 0
  return (some buffer, cursor)

/-- The loop of `sql_parse_string`: the length of the literal, or `none` when the function returns
from inside the loop, since the buffer is full. -/
def sqlStringLoop (bufferSize length : ℕ) (cursor : CPointer) (buffer : CArray UInt8 n) :
    Option (Option ℕ × CPointer × CArray UInt8 n) :=
  loop (fun (length, cursor, buffer) => do
    let c ← cursor.read
    if c ≠ 0 ∧ c ≠ 39 then
      if length + 1 ≥ bufferSize then return .leave (none, cursor, buffer) else
      let buffer ← buffer.write length c
      return .again (length + 1, cursor.add 1, buffer)
    else return .leave (some length, cursor, buffer)) turns (length, cursor, buffer)

/-- Parses a single-quoted string literal. -/
def sqlParseString (cursor : CPointer) (buffer : CArray UInt8 n) (bufferSize : ℕ) :
    Option (Option Unit × CPointer × CArray UInt8 n) := do
  let cursor ← sqlSkipSpaces turns cursor
  let c ← cursor.read
  if c ≠ 39 then return (none, cursor, buffer) else
  match ← sqlStringLoop turns bufferSize 0 (cursor.add 1) buffer with
  | (none, cursor, buffer) => return (none, cursor, buffer)
  | (some length, cursor, buffer) =>
    let c ← cursor.read
    if c ≠ 39 then return (none, cursor, buffer) else
    let buffer ← buffer.write length 0
    return (some (), cursor.add 1, buffer)

/-- Parses a signed integer literal. -/
def sqlParseInt (cursor : CPointer) : Option (Option ℤ × CPointer) := do
  let cursor ← sqlSkipSpaces turns cursor
  let c ← cursor.read
  if ¬ (isdigit c || c == 45) then return (none, cursor) else
  let (parsed, endPtr) ← cursor.strtol turns
  return if endPtr.offset = cursor.offset then (none, cursor) else (some (intWrap parsed), endPtr)

/-- `(*cursor)[0] == first && (*cursor)[1] == '='` -/
def sqlLookAhead (cursor : CPointer) (first : UInt8) : Option Bool := do
  let c ← cursor.read
  if c ≠ first then return false else
  let d ← (cursor.add 1).read
  return d == 61

/-- Parses one of =, <, <=, >, >= into a comparison enum. -/
def sqlParseComparison (cursor : CPointer) : Option (Option TableComparison × CPointer) := do
  let cursor ← sqlSkipSpaces turns cursor
  let isGe ← sqlLookAhead cursor 62
  if isGe then return (some .ge, cursor.add 2) else
  let isLe ← sqlLookAhead cursor 60
  if isLe then return (some .le, cursor.add 2) else
  let c ← cursor.read
  return if c = 62 then (some .gt, cursor.add 1)
    else if c = 60 then (some .lt, cursor.add 1)
    else if c = 61 then (some .eq, cursor.add 1)
    else (none, cursor)

/-- Accepts an optional semicolon and trailing whitespace at the end. -/
def sqlMatchStatementEnd (cursor : CPointer) : Option (Option Unit × CPointer) := do
  let cursor ← sqlSkipSpaces turns cursor
  let c ← cursor.read
  let cursor := if c = 59 then cursor.add 1 else cursor
  let cursor ← sqlSkipSpaces turns cursor
  let c ← cursor.read
  return (if c = 0 then some () else none, cursor)

/-! ### Results -/

def sqlParseResultInit (result : SQLParseResult) : Option SQLParseResult := do
  let tableName ← result.command.tableName.write 0 0
  let name ← result.command.name.write 0 0
  let selectedColumn ← result.command.selectedColumn.write 0 0
  let whereColumn ← result.command.whereColumn.write 0 0
  let textValue ← result.command.textValue.write 0 0
  let sqlState ← result.sqlState.write 0 0
  let errorMessage ← result.errorMessage.write 0 0
  return {
    parsed := false
    command := ⟨.none, .eq, tableName, name, selectedColumn, whereColumn, textValue, 0, false⟩
    status := .syntaxError
    errorCode := 0
    sqlState := sqlState
    errorMessage := errorMessage
    reported := none }

def sqlParseResultSetError (result : SQLParseResult) (status : SQLStatus) (errorCode : ℤ)
    (sqlState message : CBytes) : Option SQLParseResult := do
  let sqlState ← result.sqlState.snprintf sqlStateSize sqlState
  let errorMessage ← result.errorMessage.snprintf sqlErrorMessageSize message
  return { result with
    parsed := false
    command := { result.command with type := .none }
    status := status
    errorCode := errorCode
    sqlState := sqlState
    errorMessage := errorMessage }

/-- The loop of `sql_build_near_excerpt` that copies a line. -/
def sqlExcerptLoop (cursor : CPointer) (bufferSize length : ℕ) (buffer : CArray UInt8 n) :
    Option (ℕ × CArray UInt8 n) :=
  loop (fun (length, buffer) => do
    let c ← (cursor.add length).read
    if c ≠ 0 ∧ c ≠ 10 ∧ c ≠ 13 ∧ c ≠ 59 ∧ length + 1 < bufferSize then
      let buffer ← buffer.write length c
      return .again (length + 1, buffer)
    else return .leave (length, buffer)) turns (length, buffer)

/-- The loop of `sql_build_near_excerpt` that trims the copy. -/
def sqlTrimLoop (buffer : CArray UInt8 n) (length : ℕ) : Option ℕ :=
  loop (fun length => do
    if length = 0 then return .leave length else
    let c ← buffer.read (length - 1)
    return if isspace c then .again (length - 1) else .leave length) turns length

def sqlBuildNearExcerpt (cursor : CPointer) (buffer : CArray UInt8 n) (bufferSize : ℕ) :
    Option (CArray UInt8 n) := do
  let cursor ← cursor.skipWhile isspace turns
  let c ← cursor.read
  if c = 0 then buffer.snprintf bufferSize (ascii "end of input") else
  let (length, buffer) ← sqlExcerptLoop turns cursor bufferSize 0 buffer
  let length ← sqlTrimLoop turns buffer length
  let buffer ← buffer.write length 0
  if length = 0 then buffer.snprintf bufferSize (ascii "end of input") else return buffer

def sqlParseSetSyntaxError (result : SQLParseResult) (cursor : CPointer) :
    Option SQLParseResult := do
  let nearExcerpt ← sqlBuildNearExcerpt turns cursor (.uninit UInt8 nearExcerptSize) nearExcerptSize
  let result ← sqlParseResultSetError result .syntaxError 1064 (ascii "42000") []
  let near ← (CPointer.ofArray nearExcerpt).readString turns
  let errorMessage ← result.errorMessage.snprintf sqlErrorMessageSize
    (ascii ("ERROR 1064 (42000): You have an error in your SQL syntax; check the manual that " ++
      "corresponds to your sql processor2 version for the right syntax to use near '") ++
      near ++ ascii "' at line 1")
  return { result with errorMessage := errorMessage, reported := some cursor }

def sqlParseSetUnknownColumnError (result : SQLParseResult) (column : CPointer)
    (clauseName : CBytes) : Option SQLParseResult := do
  let result ← sqlParseResultSetError result .queryError 1054 (ascii "42S22") []
  let column ← column.readString turns
  let errorMessage ← result.errorMessage.snprintf sqlErrorMessageSize
    (ascii "ERROR 1054 (42S22): Unknown column '" ++ column ++ ascii "' in '" ++ clauseName ++
      ascii "'")
  return { result with errorMessage := errorMessage }

/-- Goes on with what a helper read, or sets a syntax error at the cursor it left. -/
def sqlExpect {α : Type} (read : Option α × CPointer) (result : SQLParseResult)
    (next : α → CPointer → Option SQLParseResult) : Option SQLParseResult :=
  match read with
  | (none, cursor) => sqlParseSetSyntaxError turns result cursor
  | (some a, cursor) => next a cursor

/-- `snprintf(buffer, size, "%s", text)` -/
def snprintfString (buffer : CArray UInt8 n) (size : ℕ) (text : CPointer) :
    Option (CArray UInt8 n) := do
  let text ← text.readString turns
  buffer.snprintf size text

/-! ### Statements -/

def sqlParseInsert (input : CPointer) (result : SQLParseResult) : Option SQLParseResult := do
  match ← sqlMatchKeyword turns input (ascii "INSERT") with
  | (none, _) => return result
  | (some _, cursor) =>
  let cursor ← sqlSkipSpaces turns cursor
  let read ← sqlMatchKeyword turns cursor (ascii "INTO")
  sqlExpect turns read result fun _ cursor => do
  let read ← sqlParseIdentifier turns cursor (.uninit UInt8 identifierSize) identifierSize
  sqlExpect turns read result fun tableName cursor => do
  let isUsers ← (CPointer.ofArray tableName).strcasecmpEq turns (.ofString (ascii "users"))
  if ¬ isUsers then sqlParseSetSyntaxError turns result (.ofArray tableName) else
  let cursor ← sqlSkipSpaces turns cursor
  let read ← sqlMatchKeyword turns cursor (ascii "VALUES")
  sqlExpect turns read result fun _ cursor => do
  let read ← sqlMatchChar turns cursor 40
  sqlExpect turns read result fun _ cursor => do
  let (read, cursor, name) ← sqlParseString turns cursor result.command.name recordNameSize
  let result := { result with command := { result.command with name := name } }
  sqlExpect turns (read, cursor) result fun _ cursor => do
  let read ← sqlMatchChar turns cursor 44
  sqlExpect turns read result fun _ cursor => do
  let read ← sqlParseInt turns cursor
  sqlExpect turns read result fun age cursor => do
  let result := { result with command := { result.command with intValue := age } }
  let read ← sqlMatchChar turns cursor 41
  sqlExpect turns read result fun _ cursor => do
  let read ← sqlMatchStatementEnd turns cursor
  sqlExpect turns read result fun _ _ => do
  let tableName ← snprintfString turns result.command.tableName identifierSize (.ofArray tableName)
  return { result with
    command := { result.command with tableName := tableName, type := .insert }
    parsed := true
    status := .ok }

/-- What `sql_parse_select` does behind `SELECT` when no `*` follows. -/
def sqlParseSelectColumn (cursor : CPointer) (result : SQLParseResult) :
    Option SQLParseResult := do
  let read ← sqlParseIdentifier turns cursor (.uninit UInt8 identifierSize) identifierSize
  sqlExpect turns read result fun selectedColumn cursor => do
  let isKnown ← sqlIsKnownColumn turns (.ofArray selectedColumn)
  if ¬ isKnown then
    sqlParseSetUnknownColumnError turns result (.ofArray selectedColumn) (ascii "field list")
  else sqlParseSetSyntaxError turns result cursor

/-- The conditions `id op n` and `age op n` behind their operator. -/
def sqlParseIntOperand (cursor : CPointer) (result : SQLParseResult) (type : SQLCommandType) :
    Option SQLParseResult := do
  let read ← sqlParseInt turns cursor
  sqlExpect turns read result fun value cursor => do
  let result := { result with command := { result.command with intValue := value } }
  let read ← sqlMatchStatementEnd turns cursor
  sqlExpect turns read result fun _ _ =>
  return { result with
    command := { result.command with type := type }, parsed := true, status := .ok }

/-- The condition `name = 'text'` behind its operator. -/
def sqlParseTextOperand (cursor : CPointer) (result : SQLParseResult) :
    Option SQLParseResult := do
  let (read, cursor, text) ← sqlParseString turns cursor result.command.textValue recordNameSize
  let result := { result with command := { result.command with textValue := text } }
  sqlExpect turns (read, cursor) result fun _ cursor => do
  let read ← sqlMatchStatementEnd turns cursor
  sqlExpect turns read result fun _ _ =>
  return { result with
    command := { result.command with type := .selectByName }, parsed := true, status := .ok }

/-- What `sql_parse_select` does behind the table name when the statement does not end there. -/
def sqlParseWhere (cursor : CPointer) (result : SQLParseResult)
    (tableName : CArray UInt8 identifierSize) : Option SQLParseResult := do
  let read ← sqlMatchKeyword turns cursor (ascii "WHERE")
  sqlExpect turns read result fun _ cursor => do
  let read ← sqlParseIdentifier turns cursor (.uninit UInt8 identifierSize) identifierSize
  sqlExpect turns read result fun column comparisonCursor => do
  let read ← sqlParseComparison turns comparisonCursor
  sqlExpect turns read result fun comparison cursor => do
  let tableName ← snprintfString turns result.command.tableName identifierSize (.ofArray tableName)
  let whereColumn ←
    snprintfString turns result.command.whereColumn identifierSize (.ofArray column)
  let result := { result with command := { result.command with
    comparison := comparison, tableName := tableName, whereColumn := whereColumn
    hasWhere := true } }
  let isId ← (CPointer.ofArray column).strcasecmpEq turns (.ofString (ascii "id"))
  if isId then sqlParseIntOperand turns cursor result .selectById else
  let isName ← (CPointer.ofArray column).strcasecmpEq turns (.ofString (ascii "name"))
  if isName then
    if comparison ≠ .eq then sqlParseSetSyntaxError turns result comparisonCursor
    else sqlParseTextOperand turns cursor result
  else
  let isAge ← (CPointer.ofArray column).strcasecmpEq turns (.ofString (ascii "age"))
  if isAge then sqlParseIntOperand turns cursor result .selectByAge
  else sqlParseSetUnknownColumnError turns result (.ofArray column) (ascii "where clause")

def sqlParseSelect (input : CPointer) (result : SQLParseResult) : Option SQLParseResult := do
  match ← sqlMatchKeyword turns input (ascii "SELECT") with
  | (none, _) => return result
  | (some _, cursor) =>
  let cursor ← sqlSkipSpaces turns cursor
  match ← sqlMatchChar turns cursor 42 with
  | (none, cursor) => sqlParseSelectColumn turns cursor result
  | (some _, cursor) =>
  let cursor ← sqlSkipSpaces turns cursor
  let read ← sqlMatchKeyword turns cursor (ascii "FROM")
  sqlExpect turns read result fun _ cursor => do
  let read ← sqlParseIdentifier turns cursor (.uninit UInt8 identifierSize) identifierSize
  sqlExpect turns read result fun tableName cursor => do
  let isUsers ← (CPointer.ofArray tableName).strcasecmpEq turns (.ofString (ascii "users"))
  if ¬ isUsers then sqlParseSetSyntaxError turns result (.ofArray tableName) else
  let cursor ← sqlSkipSpaces turns cursor
  match ← sqlMatchStatementEnd turns cursor with
  | (some _, _) =>
    let tableName ←
      snprintfString turns result.command.tableName identifierSize (.ofArray tableName)
    return { result with
      command := { result.command with tableName := tableName, type := .selectAll }
      parsed := true
      status := .ok }
  | (none, cursor) => sqlParseWhere turns cursor result tableName

/-- `sql_match_keyword(&cursor, "EXIT") || sql_match_keyword(&cursor, "QUIT")` -/
def sqlMatchExit (cursor : CPointer) : Option (Option Unit × CPointer) := do
  match ← sqlMatchKeyword turns cursor (ascii "EXIT") with
  | (some _, cursor) => return (some (), cursor)
  | (none, cursor) => sqlMatchKeyword turns cursor (ascii "QUIT")

/-- `result->parsed || result->error_message[0] != '\0'` -/
def sqlSettled (result : SQLParseResult) : Option Bool := do
  if result.parsed then return true else
  let c ← result.errorMessage.read 0
  return c ≠ 0

/-- Parses one SQL statement into a command object. -/
def sqlParse (input : Option CPointer) (result : SQLParseResult) :
    Option (Bool × SQLParseResult) := do
  let result ← sqlParseResultInit result
  match input with
  | none =>
    let result ← sqlParseResultSetError result .error 0 [] (ascii "Internal database error")
    return (false, result)
  | some input =>
  let cursor ← sqlSkipSpaces turns input
  match ← sqlMatchExit turns cursor with
  | (some _, cursor) =>
    match ← sqlMatchStatementEnd turns cursor with
    | (some _, _) =>
      return (true, { result with
        command := { result.command with type := .exit }, parsed := true, status := .exit })
    | (none, cursor) =>
      let result ← sqlParseSetSyntaxError turns result cursor
      return (false, result)
  | (none, cursor) =>
    let result ← sqlParseInsert turns input result
    let isSettled ← sqlSettled result
    if isSettled then return (result.parsed, result) else
    let result ← sqlParseSelect turns input result
    let isSettled ← sqlSettled result
    if isSettled then return (result.parsed, result) else
    let result ← sqlParseSetSyntaxError turns result cursor
    return (false, result)

/-! ### Lock modes -/

/-- Returns the lock mode implied by the first SQL keyword. -/
def sqlDetermineLockMode (input : Option CPointer) : Option SQLLockMode := do
  match input with
  | none => return .none
  | some input =>
  let cursor ← sqlSkipSpaces turns input
  match ← sqlMatchKeyword turns cursor (ascii "SELECT") with
  | (some _, _) => return .read
  | (none, cursor) =>
  match ← sqlMatchKeyword turns cursor (ascii "INSERT") with
  | (some _, _) => return .write
  | (none, _) => return .none

/-! ### Inputs -/

/-- The bytes of an input in front of its `NUL`. -/
structure Input where
  bytes : CBytes
  no_nul : 0 ∉ bytes

/-- The input in memory; behind its `NUL` nothing can be read. -/
def Input.pointer (input : Input) : CPointer := .ofString input.bytes

end MiniDbms.Scanner
