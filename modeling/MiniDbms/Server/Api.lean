import MiniDbms.Server.JsonUtil
import MiniDbms.Sql.Execute

/-!
# Answering a query (`server/api.c`)

The buffer takes its memory where the table does: the outcomes of the allocations are handed from
`TableMemory.allocs` to the buffer and back.  The pointers `api_handle_query` is given are never
`NULL`.
-/

namespace MiniDbms

open CString

/-- `struct ApiResult`; the body is `none` for `NULL`. -/
structure ApiResult where
  httpStatus : ℤ
  body : Option CBytes
  deriving DecidableEq

def apiActionName (action : SQLAction) : CBytes :=
  match action with
  | .insert => ascii "insert"
  | .selectRows => ascii "select"
  | .none => ascii "none"

def apiStatusName (status : SQLStatus) : CBytes :=
  match status with
  | .syntaxError => ascii "syntax_error"
  | .queryError => ascii "query_error"
  | .notFound => ascii "not_found"
  | .error => ascii "internal_error"
  | .exit => ascii "exit_not_supported"
  | .ok => ascii "ok"

def apiAppendRecord (record : Record) : JsonCall :=
  jsonCalls [
    jsonBufferAppendf (ascii "\x7b\"id\":" ++ intText record.id ++ ascii ",\"name\":"),
    jsonBufferAppendJsonString record.name,
    jsonBufferAppendf (ascii ",\"age\":" ++ intText record.age ++ ascii "\x7d")]

/-- One round of the loop of `api_build_success_response`. -/
def apiAppendRow (m : TableMemory) (sqlResult : SQLResult) (index : ℕ) : JsonCall :=
  jsonCalls [
    if index > 0 then jsonBufferAppend (ascii ",") else fun s => some (true, s),
    fun s => do apiAppendRecord (← m.record (← sqlResult.records.rows[index]?)) s]

def apiBuildSuccessResponse (m : TableMemory) (sqlResult : SQLResult) : JsonCall :=
  jsonCalls ([
    jsonBufferAppend (ascii "\x7b\"ok\":true,\"action\":"),
    jsonBufferAppendJsonString (apiActionName sqlResult.action)] ++
    if sqlResult.action = .insert then [
      jsonBufferAppendf (ascii ",\"inserted_id\":" ++ intText sqlResult.insertedId ++
        ascii ",\"row_count\":" ++ decimalDigits sqlResult.rowCount ++ ascii "\x7d")]
    else
      jsonBufferAppendf (ascii ",\"row_count\":" ++ decimalDigits sqlResult.rowCount ++
        ascii ",\"rows\":[") ::
      (List.range sqlResult.rowCount).map (apiAppendRow m sqlResult) ++
      [jsonBufferAppend (ascii "]\x7d")])

def apiBuildErrorResponse (sqlResult : SQLResult) : JsonCall :=
  jsonCalls [
    jsonBufferAppend (ascii "\x7b\"ok\":false,\"status\":"),
    jsonBufferAppendJsonString (apiStatusName sqlResult.status),
    jsonBufferAppendf (ascii ",\"error_code\":" ++ intText sqlResult.errorCode ++
      ascii ",\"sql_state\":"),
    jsonBufferAppendJsonString sqlResult.sqlState,
    jsonBufferAppend (ascii ",\"message\":"),
    jsonBufferAppendJsonString
      (if sqlResult.errorMessage ≠ [] then sqlResult.errorMessage else ascii "Unknown SQL error"),
    jsonBufferAppend (ascii "\x7d")]

/-- The two fixed bodies. -/
def apiInternalError : CBytes :=
  ascii "\x7b\"ok\":false,\"status\":\"internal_error\",\"message\":\"Internal database error\"\x7d"

def apiExitNotSupported : CBytes :=
  ascii ("\x7b\"ok\":false,\"status\":\"exit_not_supported\"," ++
    "\"message\":\"EXIT and QUIT are not supported over HTTP\"\x7d")

/-- What `api_handle_query` does from `json_buffer_init` on, with the response that `build`
writes. -/
def apiRespond (m : TableMemory) (httpStatus : ℤ) (build : JsonCall) :
    Option (Bool × TableMemory × ApiResult) := do
  match ← jsonBufferInit m.allocs 256 with
  | (false, s) => some (false, { m with allocs := s.allocs }, ⟨500, none⟩)
  | (true, s) =>
    match ← build s with
    | (false, s) => some (false, { m with allocs := (jsonBufferDestroy s).allocs },
      ⟨httpStatus, none⟩)
    | (true, s) => do
      let (body, s) ← jsonBufferDetach s
      some (body.isSome, { m with allocs := (jsonBufferDestroy s).allocs }, ⟨httpStatus, body⟩)

/-- The response to a statement that was executed. -/
def apiRespondResult (m : TableMemory) (sqlResult : SQLResult) :
    Option (Bool × TableMemory × ApiResult) :=
  match sqlResult.status with
  | .ok | .notFound => apiRespond m 200 (apiBuildSuccessResponse m sqlResult)
  | .error => apiRespond m 500 (jsonBufferAppend apiInternalError)
  | .syntaxError | .queryError | .exit => apiRespond m 200 (apiBuildErrorResponse sqlResult)

/-- Whether it returns 1, and `result`. -/
def apiHandleQuery (m : TableMemory) (sql : CBytes) : Option (Bool × TableMemory × ApiResult) :=
  match sqlParse sql with
  | (false, parseResult) =>
    if parseResult.status = .error then apiRespond m 500 (jsonBufferAppend apiInternalError)
    else
      let errorResult := { sqlMakeResult parseResult.status .none with
        errorCode := parseResult.errorCode
        sqlState := snprintf sqlStateSize parseResult.sqlState
        errorMessage := snprintf sqlErrorMessageSize parseResult.errorMessage }
      apiRespond m 200 (apiBuildErrorResponse errorResult)
  | (true, parseResult) =>
    if parseResult.command.type = .exit then apiRespond m 400 (jsonBufferAppend apiExitNotSupported)
    else do
      let (m, sqlResult) ← sqlExecutePlan m parseResult.command
      let (ok, m, result) ← apiRespondResult m sqlResult
      -- `sql_result_destroy`
      some (ok, tableFreeArray m sqlResult.records, result)

end MiniDbms
