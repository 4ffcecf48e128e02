import MiniDbms.Lib.CString

/-!
# Sending a response (`server/http.c`), and the signals of the process (`server_main.c`)

A connection takes the bytes that are sent on it, or refuses them, as `outcomes` has it (`Wire`).
`send` is called without `MSG_NOSIGNAL`: on a connection that its peer has closed it raises
`SIGPIPE`. A function returns `.error` when the signal terminates the process, and `none` when
`fuel` runs out, which bounds the loop around `send`.
-/

namespace MiniDbms

open CString

/-! ### Signals -/

/-- The signals `SIGINT`, `SIGTERM` and `SIGPIPE`. -/
inductive Signal
  | int | term | pipe
  deriving DecidableEq

/-- What the process does at a signal.  The default action of the three is to terminate. -/
inductive Disposition
  | default | ignore | handler
  deriving DecidableEq

/-- The dispositions of the process. -/
abbrev Dispositions := Signal → Disposition

/-- `install_signal_handlers`, when `sigaction` succeeds. -/
def installSignalHandlers (dispositions : Dispositions) : Dispositions
  | .int => .handler
  | .term => .handler
  | .pipe => dispositions .pipe

/-! ### The connection -/

/-- What becomes of a call of `send`: bytes are taken, `more + 1` at most; 0 is returned; -1 with
`errno` `EINTR`, or another one; or the peer has closed the connection. -/
inductive SendOutcome
  | take (more : ℕ)
  | zero
  | interrupted
  | failed
  | closed
  deriving DecidableEq

/-- The sending end of a connection: the bytes it has taken, and what becomes of the coming calls;
behind the end of `outcomes` a call takes everything. -/
structure Wire where
  sent : List UInt8
  outcomes : List SendOutcome
  deriving DecidableEq

/-- What `send` returns: a count, or -1 with `errno` `EINTR` or another one. -/
inductive SendReturn
  | count (n : ℕ)
  | interrupted
  | failed

/-- `send(client_fd, …, length, 0)` of `data`.  A signal that does not terminate leaves `EPIPE`. -/
def Wire.send (dispositions : Dispositions) (wire : Wire) (data : List UInt8) :
    Except Signal (SendReturn × Wire) :=
  match wire.outcomes with
  | [] => .ok (.count data.length, ⟨wire.sent ++ data, []⟩)
  | .take more :: outcomes =>
    .ok (.count (min (more + 1) data.length), ⟨wire.sent ++ data.take (more + 1), outcomes⟩)
  | .zero :: outcomes => .ok (.count 0, { wire with outcomes })
  | .interrupted :: outcomes => .ok (.interrupted, { wire with outcomes })
  | .failed :: outcomes => .ok (.failed, { wire with outcomes })
  | .closed :: outcomes =>
    if dispositions .pipe = .default then .error .pipe else .ok (.failed, { wire with outcomes })

/-! ### The response -/

/-- The loop of `send_all`, when `sent` bytes of `data` are sent. -/
def sendAll (dispositions : Dispositions) (data : List UInt8) :
    ℕ → Wire → ℕ → Option (Except Signal (Bool × Wire))
  | 0, _, _ => none
  | fuel + 1, wire, sent =>
    if sent < data.length then
      match wire.send dispositions (data.drop sent) with
      | .error signal => some (.error signal)
      | .ok (.interrupted, wire) => sendAll dispositions data fuel wire sent
      | .ok (.failed, wire) => some (.ok (false, wire))
      | .ok (.count n, wire) =>
        if n = 0 then some (.ok (false, wire)) else sendAll dispositions data fuel wire (sent + n)
    else some (.ok (true, wire))

def httpStatusReason (statusCode : ℤ) : List UInt8 :=
  match statusCode with
  | 200 => ascii "OK"
  | 400 => ascii "Bad Request"
  | 404 => ascii "Not Found"
  | 405 => ascii "Method Not Allowed"
  | 408 => ascii "Request Timeout"
  | 413 => ascii "Payload Too Large"
  | 500 => ascii "Internal Server Error"
  | 503 => ascii "Service Unavailable"
  | _ => ascii "OK"

/-- What `snprintf` makes of the format of `http_send_response`. -/
def httpHeader (statusCode : ℤ) (contentType : List UInt8) (bodyLength : ℕ) : List UInt8 :=
  ascii "HTTP/1.1 " ++ intText statusCode ++ ascii " " ++ httpStatusReason statusCode ++
    ascii "\r\nContent-Type: " ++ contentType ++
    ascii "\r\nContent-Length: " ++ decimalDigits bodyLength ++
    ascii "\r\nConnection: close\r\n\r\n"

/-- Whether it returns 1; `contentType` and `body` are `none` for `NULL`.  A header for which
`snprintf` fails is longer than the 512 bytes, too. -/
def httpSendResponse (dispositions : Dispositions) (fuel : ℕ) (wire : Wire) (statusCode : ℤ)
    (contentType body : Option (List UInt8)) : Option (Except Signal (Bool × Wire)) :=
  let body := body.getD []
  let contentType := contentType.getD (ascii "text/plain; charset=utf-8")
  let header := httpHeader statusCode contentType body.length
  if header.length ≥ 512 then some (.ok (false, wire))
  else do
    match ← sendAll dispositions header fuel wire 0 with
    | .error signal => some (.error signal)
    | .ok (false, wire) => some (.ok (false, wire))
    | .ok (true, wire) => sendAll dispositions body fuel wire 0

end MiniDbms
