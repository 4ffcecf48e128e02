import MiniDbms.Server.Api
import MiniDbms.Server.Http
import MiniDbms.Server.Send
import MiniDbms.Server.ThreadPool

/-!
# The server process (`server/server.c`)

`ServerProcess` is the thread pool with the handler of the server: the workers run
`server_handle_client`, and the callers are the accept loop of `server_run`, which answers a refused
connection itself.  A step of a thread that sends is made with the behaviour of its client
(`Client`): what it sends, what becomes of the calls of `send` to it, the outcomes of the
allocations for the answer, and what `api_handle_query` returns, which depends on what the other
threads do with the table meanwhile.

A signal whose action is to terminate ends the process: it makes no steps any more.
-/

namespace MiniDbms

open CString

def serverHttpErrorStatusName (statusCode : ℤ) : CBytes :=
  match statusCode with
  | 404 => ascii "not_found"
  | 405 => ascii "method_not_allowed"
  | 408 => ascii "request_timeout"
  | 413 => ascii "payload_too_large"
  | 500 => ascii "internal_error"
  | 503 => ascii "queue_full"
  | _ => ascii "bad_request"

/-- The body, or `none` for `NULL`. -/
def serverBuildErrorBody (allocs : List Bool) (status message : CBytes) :
    Option (Option CBytes) := do
  match ← jsonBufferInit allocs 128 with
  | (false, _) => some none
  | (true, s) =>
    match ← jsonCalls [
      jsonBufferAppend (ascii "\x7b\"ok\":false,\"status\":"),
      jsonBufferAppendJsonString status,
      jsonBufferAppend (ascii ",\"message\":"),
      jsonBufferAppendJsonString message,
      jsonBufferAppend (ascii "\x7d")] s with
    | (false, _) => some none
    | (true, s) => do
      let (body, _) ← jsonBufferDetach s
      some body

/-- A status and a body for `http_send_response`. -/
structure ServerReply where
  statusCode : ℤ
  body : Option CBytes
  deriving DecidableEq

/-- `char *body = server_build_error_body(...); if (body != NULL) http_send_response(...);` -/
def serverErrorReply (allocs : List Bool) (statusCode : ℤ) (status message : CBytes) :
    Option (Option ServerReply) := do
  match ← serverBuildErrorBody allocs status message with
  | none => some none
  | some body => some (some ⟨statusCode, some body⟩)

/-- What a client does to the thread that serves it.  `query` is `api_handle_query` on the table:
whether it returns 1, and its result. -/
structure Client where
  request : Socket
  outcomes : List SendOutcome
  allocs : List Bool
  query : CBytes → Bool × ApiResult

/-- The response that ends every branch of `server_handle_client`; there is none when there is no
memory for the text of an error. -/
def serverHandleClient (fuel : ℕ) (client : Client) : Option (Option ServerReply) := do
  match ← httpReadRequest fuel client.request with
  | .error error =>
    serverErrorReply client.allocs error.status (serverHttpErrorStatusName error.status)
      (if error.message ≠ [] then error.message else ascii "Bad request")
  | .ok request =>
    match client.query (← request.body.readString 0 (httpMaxBodySize + 1)) with
    | (false, _) =>
      serverErrorReply client.allocs 500 (ascii "internal_error") (ascii "Failed to execute SQL")
    | (true, result) => some (some ⟨result.httpStatus, result.body⟩)

/-- The response of `server_run` to a connection that the pool did not take. -/
def serverRefuseClient (client : Client) : Option (Option ServerReply) :=
  serverErrorReply client.allocs 503 (ascii "queue_full") (ascii "Server is busy")

/-- Sends a response, if there is one.  Nothing looks at what `http_send_response` returns. -/
def serverSend (dispositions : Dispositions) (fuel : ℕ) (wire : Wire) :
    Option ServerReply → Option (Except Signal Wire)
  | none => some (.ok wire)
  | some reply => do
    match ← httpSendResponse dispositions fuel wire reply.statusCode
      (some (ascii "application/json; charset=utf-8")) reply.body with
    | .error signal => some (.error signal)
    | .ok (_, wire) => some (.ok wire)

/-- A bound for the loops around `recv` and `send`. -/
def Client.fuel (client : Client) : ℕ :=
  client.request.cuts.length + client.request.stream.length + httpMaxBodySize +
    client.outcomes.length + 2

/-! ### The process -/

/-- The threads, and the signals: `terminated` is the one that ended the process. -/
structure ServerProcess (n k capacity : ℕ) where
  pool : SharedPool n k capacity
  dispositions : Dispositions
  terminated : Option Signal

namespace ServerProcess

variable {n k capacity : ℕ}

/-- The process before `server_create`: `main` has installed its handlers. -/
def start (n k capacity : ℕ) : ServerProcess n k capacity where
  pool := .start n k capacity
  dispositions := installSignalHandlers fun _ => .default
  terminated := none

/-- What the thread of a step sends in it. -/
def reply (s : ServerProcess n k capacity) (action : PoolAction n k) (client : Client) :
    Option (Option ServerReply) :=
  match action with
  | .worker i =>
    match s.pool.workers i with
    | .handling _ _ =>
      if s.pool.pool.handler then serverHandleClient client.fuel client else some none
    | _ => some none
  | .caller j _ =>
    match s.pool.callers j with
    | .refused _ _ => serverRefuseClient client
    | _ => some none
  | _ => some none

/-- One step. -/
def step (s : ServerProcess n k capacity) (action : PoolAction n k) (client : Client) :
    Option (ServerProcess n k capacity) :=
  if s.terminated ≠ none then none
  else do
    match ← serverSend s.dispositions client.fuel ⟨[], client.outcomes⟩
      (← s.reply action client) with
    | .error signal => some { s with terminated := some signal }
    | .ok _ => do some { s with pool := ← s.pool.step action }

/-- A run. -/
def run (s : ServerProcess n k capacity) :
    List (PoolAction n k × Client) → Option (ServerProcess n k capacity)
  | [] => some s
  | (action, client) :: steps => do (← s.step action client).run steps

end ServerProcess

end MiniDbms
