import MiniDbms.Lib.HttpMessage
import MiniDbms.Server.Equiv.Api
import MiniDbms.Server.Server

/-!
# A database on the network that is one list

The purpose of the server, without sockets, buffers and threads: a client asks with a statement, or
sends bytes that are no request, and is told a status and a JSON value; the database is the list of
its rows.
-/

namespace MiniDbms

open CString Json

/-- What a client asks: a statement, or what is wrong with its request. -/
abbrev Question := Except HttpError CBytes

/-- What a client is told: a status, and a JSON value. -/
abbrev Reply := ℕ × Value

namespace ListDatabase

/-- What a client is told about an answer. -/
def told (answer : Answer) : Reply :=
  match answer.status with
  | .exit =>
    (400, refusalValue (ascii "exit_not_supported")
      (ascii "EXIT and QUIT are not supported over HTTP"))
  | .error => (500, refusalValue (ascii "internal_error") (ascii "Internal database error"))
  | _ =>
    if answer.action = .insert then (200, insertedValue answer.insertedId answer.rowCount)
    else (200, selectedValue answer.rows)

/-- The reply to a question. -/
def reply (rows : List Record) : Question → Reply
  | .error error =>
    (error.status, refusalValue (serverHttpErrorStatusName error.status) error.message)
  | .ok statement =>
    match sqlParse statement with
    | (true, parseResult) => told (apply rows parseResult.command).2
    | (false, parseResult) =>
      (200, errorValue (apiStatusName parseResult.status) parseResult.errorCode
        parseResult.sqlState parseResult.errorMessage)

/-- The rows behind a question. -/
def rowsBehind (rows : List Record) : Question → List Record
  | .error _ => rows
  | .ok statement => (execute rows statement).1

/-- The questions one after another, with all replies. -/
def serve (rows : List Record) : List Question → List Record × List Reply
  | [] => (rows, [])
  | question :: questions =>
    let (rows', replies) := serve (rowsBehind rows question) questions
    (rows', reply rows question :: replies)

end ListDatabase

/-- **What a client reads** in the bytes it receives: a response, its body is JSON, and nothing is
left behind either. -/
def readReply (received : List UInt8) : Option Reply := do
  let (response, rest) ← Http.readResponse received
  let (value, rest') ← Json.read response.body
  if rest = [] ∧ rest' = [] then some (response.statusCode, value) else none

end MiniDbms
