import MiniDbms.Lib.CArray
import MiniDbms.Lib.CString

/-!
# Reading an HTTP request (`server/http.c`)

A connection is the bytes that the client sends and what comes behind them (`Socket`); each call of
`recv` hands out some of the bytes, as `cuts` has it, or is interrupted.

`buffer` and `body` are checked arrays: a function returns `none` when the code would read or write
outside of them or read a cell that was not written, or when `fuel` runs out, which bounds the loops
around `recv`.  The string functions work on the C string in `buffer`, which ends at the first
`NUL`: at `header_end` at the latest, where the code stores one.

The pointers `http_read_request` is given are never `NULL`, and the 128 bytes for the error message
hold each of its texts.
-/

namespace MiniDbms

open CString

/-- `HTTP_MAX_BODY_SIZE` -/
abbrev httpMaxBodySize : ℕ := 4096

/-- `HTTP_MAX_REQUEST_SIZE` -/
abbrev httpMaxRequestSize : ℕ := 8192

/-! ### The connection -/

/-- How a `recv` that returns no bytes ends: -1 with `errno` `EINTR`, `EAGAIN` or `EWOULDBLOCK`, or
another one; or 0. -/
inductive RecvEnd
  | interrupted | timedOut | failed | closed
  deriving DecidableEq

/-- What `recv` returns. -/
inductive Received
  | bytes (data : List UInt8)
  | noBytes (reason : RecvEnd)

/-- What comes behind the last byte of a client. -/
inductive StreamEnd
  | timedOut | failed | closed
  deriving DecidableEq

def StreamEnd.toRecvEnd : StreamEnd → RecvEnd
  | .timedOut => .timedOut
  | .failed => .failed
  | .closed => .closed

/-- What one call of `recv` does: it is interrupted, or hands out at most `more + 1` bytes. -/
inductive Cut
  | interrupt
  | take (more : ℕ)

/-- The receiving end of a connection: the bytes that are still to come, and what the coming calls
do; behind the end of `cuts` a call hands out as much as it can. -/
structure Socket where
  stream : List UInt8
  ending : StreamEnd
  cuts : List Cut

/-- `recv(client_fd, …, size, 0)`, for a positive `size`. -/
def Socket.recv (sock : Socket) (size : ℕ) : Received × Socket :=
  match sock.cuts with
  | .interrupt :: cuts => (.noBytes .interrupted, { sock with cuts })
  | .take more :: cuts => recvUpTo (min (more + 1) size) cuts
  | [] => recvUpTo size []
where
  recvUpTo (limit : ℕ) (cuts : List Cut) : Received × Socket :=
    if sock.stream = [] then (.noBytes sock.ending.toRecvEnd, { sock with cuts })
    else (.bytes (sock.stream.take limit), { sock with stream := sock.stream.drop limit, cuts })

/-! ### The head of a request -/

/-- The test for `\r\n\r\n` at an index. -/
def isHeaderEnd {n : ℕ} (buffer : CArray UInt8 n) (index : ℕ) : Option Bool := do
  if (← buffer.read index) ≠ 13 then some false
  else if (← buffer.read (index + 1)) ≠ 10 then some false
  else if (← buffer.read (index + 2)) ≠ 13 then some false
  else some ((← buffer.read (index + 3)) = 10)

/-- The loop of `read_until_header_end` over the bytes that were received. -/
def findHeaderEnd {n : ℕ} (buffer : CArray UInt8 n) (used : ℕ) : Option (Option ℕ) := do
  let index ← CArray.scanUp (fun index => (isHeaderEnd buffer index).map (!·)) 0 (used - 3)
  some (if index + 3 < used then some index else none)

/-- How `read_until_header_end` returns. -/
inductive HeadRead
  /-- 1, with the contents of the buffer and `used` and `header_end` -/
  | found (buffer : CArray UInt8 httpMaxRequestSize) (used headerEnd : ℕ) (sock : Socket)
  /-- -1, with `errno` `EAGAIN` or `EWOULDBLOCK` -/
  | timedOut
  /-- 0 -/
  | failed

/-- `header_end` is 0 until the function returns. -/
def readUntilHeaderEnd : ℕ → Socket → CArray UInt8 httpMaxRequestSize → ℕ → Option HeadRead
  | 0, _, _, _ => none
  | fuel + 1, sock, buffer, used =>
    if used = httpMaxRequestSize then some .failed
    else
      match sock.recv (httpMaxRequestSize - used) with
      | (.noBytes .interrupted, sock) => readUntilHeaderEnd fuel sock buffer used
      | (.noBytes .timedOut, _) => some .timedOut
      | (.noBytes .failed, _) => some .failed
      | (.noBytes .closed, _) => some .failed
      | (.bytes data, sock) => do
        let buffer ← CArray.writeAll data used buffer
        let used := used + data.length
        match ← findHeaderEnd buffer used with
        | some index => some (.found buffer used index sock)
        | none => readUntilHeaderEnd fuel sock buffer used

/-- `error_status` and `error_message` when `http_read_request` returns -1. -/
structure HttpError where
  status : ℕ
  message : List UInt8
  deriving DecidableEq

/-- `struct HttpRequest` -/
structure HttpRequest where
  method : List UInt8
  path : List UInt8
  version : List UInt8
  contentLength : ℕ
  body : CArray UInt8 (httpMaxBodySize + 1)

/-- One header line; the `Content-Length` seen so far, and what it is afterwards. -/
def httpHeaderLine (line : List UInt8) (contentLength : Option ℕ) :
    Except HttpError (Option ℕ) :=
  match strchr line 58 with
  | none => .error ⟨400, ascii "Malformed HTTP header"⟩
  | some (name, colon) =>
    let value := (colon.drop 1).dropWhile isspace
    if casecmpEq name (ascii "Content-Length") then
      let (parsed, rest) := strtoul value
      if rest = value ∨ rest ≠ [] then .error ⟨400, ascii "Invalid Content-Length"⟩
      else .ok (some parsed)
    else .ok contentLength

/-- The loop over the header lines. -/
def httpHeaders : ℕ → List UInt8 → Option ℕ → Option (Except HttpError (Option ℕ))
  | 0, _, _ => none
  | fuel + 1, headers, contentLength =>
    match strtok (fun c => c == 13 || c == 10) headers with
    | none => some (.ok contentLength)
    | some (line, headers) =>
      match httpHeaderLine line contentLength with
      | .error error => some (.error error)
      | .ok contentLength => httpHeaders fuel headers contentLength

/-- What the head says. -/
structure HttpHead where
  method : List UInt8
  path : List UInt8
  version : List UInt8
  contentLength : ℕ

/-- The part of `http_read_request` that looks at the head only. -/
def httpParseHead (head : List UInt8) : Option (Except HttpError HttpHead) :=
  match strstr (ascii "\r\n") head with
  | none => some (.error ⟨400, ascii "Malformed HTTP request line"⟩)
  | some suffix =>
    let requestLine := head.take (head.length - suffix.length)
    let headers := suffix.drop 2
    match (scanWord 15 requestLine).bind fun (method, rest) =>
        (scanWord 63 rest).bind fun (path, rest) =>
          (scanWord 15 rest).map fun (version, _) => (method, path, version) with
    | none => some (.error ⟨400, ascii "Malformed HTTP request line"⟩)
    | some (method, path, version) =>
      if method ≠ ascii "POST" then some (.error ⟨405, ascii "Only POST is supported"⟩)
      else if path ≠ ascii "/query" then some (.error ⟨404, ascii "Only /query is supported"⟩)
      else
        (httpHeaders (headers.length + 1) headers none).map fun
        | .error error => .error error
        | .ok none => .error ⟨400, ascii "Missing Content-Length"⟩
        | .ok (some contentLength) =>
          if contentLength > httpMaxBodySize then .error ⟨413, ascii "Request body is too large"⟩
          else .ok ⟨method, path, version, contentLength⟩

/-! ### The whole request -/

/-- The loop that receives the rest of the body. -/
def readBody (contentLength : ℕ) : ℕ → Socket → CArray UInt8 (httpMaxBodySize + 1) → ℕ →
    Option (Except HttpError (CArray UInt8 (httpMaxBodySize + 1)))
  | 0, _, _, _ => none
  | fuel + 1, sock, body, bodyAvailable =>
    if bodyAvailable < contentLength then
      match sock.recv (contentLength - bodyAvailable) with
      | (.noBytes .interrupted, sock) => readBody contentLength fuel sock body bodyAvailable
      | (.noBytes .timedOut, _) => some (.error ⟨408, ascii "Request timed out"⟩)
      | (.noBytes .failed, _) => some (.error ⟨400, ascii "Failed to read request body"⟩)
      | (.noBytes .closed, _) => some (.error ⟨400, ascii "Incomplete request body"⟩)
      | (.bytes data, sock) => do
        let body ← CArray.writeAll data bodyAvailable body
        readBody contentLength fuel sock body (bodyAvailable + data.length)
    else some (.ok body)

/-- Reads one request: -1 with an error, or 0 with the request. -/
def httpReadRequest (fuel : ℕ) (sock : Socket) : Option (Except HttpError HttpRequest) := do
  match ← readUntilHeaderEnd fuel sock (.uninit _ _) 0 with
  | .timedOut => some (.error ⟨408, ascii "Request timed out"⟩)
  | .failed => some (.error ⟨400, ascii "Malformed HTTP request"⟩)
  | .found buffer used headerEnd sock =>
    let buffer ← buffer.write headerEnd 0
    match ← httpParseHead (← buffer.readString 0 httpMaxRequestSize) with
    | .error error => some (.error error)
    | .ok head =>
      let bodyOffset := headerEnd + 4
      let bodyAvailable := min (if used > bodyOffset then used - bodyOffset else 0)
        head.contentLength
      let body ← CArray.writeAll (← buffer.readAll bodyOffset bodyAvailable) 0 (.filled _ 0)
      match ← readBody head.contentLength fuel sock body bodyAvailable with
      | .error error => some (.error error)
      | .ok body =>
        let body ← body.write head.contentLength 0
        some (.ok ⟨head.method, head.path, head.version, head.contentLength, body⟩)

end MiniDbms
