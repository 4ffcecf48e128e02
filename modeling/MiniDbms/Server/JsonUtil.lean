import MiniDbms.Lib.CArray
import MiniDbms.Lib.CString

/-!
# The JSON buffer (`server/json_util.c`)

A `JsonCall` is a call on a buffer, with the outcomes of the coming allocations (past the end of the
list they succeed): 1 or 0, and the buffer behind it.  It returns `none` when the code would write
outside of `data` or loops for ever, which `json_buffer_reserve` does when `new_cap` wraps to 0.
`jsonCalls` is a chain `if (!call(buffer)) return 0; ...; return 1;`.

The pointers that the functions are given are never `NULL`.  `json_buffer_appendf` is given the text
that its format and arguments make.
-/

namespace MiniDbms

open CString

/-- A `size_t`. -/
def sizeWrap (x : ℕ) : ℕ := x % 2 ^ 64

/-- `struct JsonBuffer`; `data` is `none` for `NULL`. -/
structure JsonBuffer where
  cap : ℕ
  data : Option (CArray UInt8 cap)
  len : ℕ

/-- A buffer, and the outcomes of the coming allocations. -/
structure JsonState extends JsonBuffer where
  allocs : List Bool

/-- What a call returns and leaves behind. -/
abbrev JsonCall := JsonState → Option (Bool × JsonState)

/-- `if (!call(buffer)) return 0;`, one call after the other, and `return 1;` -/
def jsonCalls : List JsonCall → JsonCall
  | [], s => some (true, s)
  | call :: calls, s => do
    match ← call s with
    | (true, s) => jsonCalls calls s
    | (false, s) => some (false, s)

/-! ### Growing -/

/-- The loop of `json_buffer_reserve`; 64 doublings reach every `size_t` or wrap to 0. -/
def jsonGrow (required : ℕ) : ℕ → ℕ → Option ℕ
  | 0, _ => none
  | fuel + 1, newCap =>
    if newCap < required then jsonGrow required fuel (sizeWrap (newCap * 2)) else some newCap

/-- `realloc(buffer->data, size)` when there is memory. -/
def JsonBuffer.realloc (buffer : JsonBuffer) (size : ℕ) : CArray UInt8 size :=
  match buffer.data with
  | none => .uninit UInt8 size
  | some data => data.resize size

def jsonBufferReserve (extra : ℕ) : JsonCall := fun s =>
  let required := sizeWrap (s.len + extra + 1)
  if required ≤ s.cap then some (true, s)
  else do
    let newCap ← jsonGrow required 65 (if s.cap = 0 then 128 else s.cap)
    if s.allocs.headD true then
      some (true, ⟨⟨newCap, some (s.realloc newCap), s.len⟩, s.allocs.tail⟩)
    else some (false, { s with allocs := s.allocs.tail })

def jsonBufferInit (allocs : List Bool) (initialCapacity : ℕ) : Option (Bool × JsonState) :=
  let initialCapacity := if initialCapacity = 0 then 128 else initialCapacity
  if allocs.headD true then do
    let data ← (CArray.uninit UInt8 initialCapacity).write 0 0
    some (true, ⟨⟨initialCapacity, some data, 0⟩, allocs.tail⟩)
  else some (false, ⟨⟨0, none, 0⟩, allocs.tail⟩)

/-! ### Appending -/

/-- Copies `bytes` to the end of the buffer, with a `NUL` behind them. -/
def JsonState.store (s : JsonState) (bytes : List UInt8) : Option JsonState := do
  let data ← CArray.writeAll bytes s.len (← s.data)
  let data ← data.write (s.len + bytes.length) 0
  some ⟨⟨s.cap, some data, s.len + bytes.length⟩, s.allocs⟩

def jsonBufferAppend (text : List UInt8) : JsonCall := fun s => do
  match ← jsonBufferReserve text.length s with
  | (false, s) => some (false, s)
  | (true, s) => do some (true, ← s.store text)

/-- `vsnprintf(buffer->data + buffer->len, size, ...)` -/
def JsonBuffer.vsnprintf (buffer : JsonBuffer) (size : ℕ) (text : List UInt8) :
    Option (CArray UInt8 buffer.cap) := do
  let data ← buffer.data
  if size = 0 then some data
  else CArray.writeAll (text.take (size - 1) ++ [0]) buffer.len data

/-- `vsnprintf` returns a negative number when the text is longer than `INT_MAX`. -/
def jsonBufferAppendf (text : List UInt8) : JsonCall := fun s =>
  if 2 ^ 31 ≤ text.length then some (false, s)
  else do
    match ← jsonBufferReserve text.length s with
    | (false, s) => some (false, s)
    | (true, s) => do
      let data ← s.vsnprintf (sizeWrap (s.cap + 2 ^ 64 - s.len)) text
      some (true, ⟨⟨s.cap, some data, s.len + text.length⟩, s.allocs⟩)

/-- One round of the loop of `json_buffer_append_json_string`. -/
def jsonAppendEscaped (c : UInt8) : JsonCall :=
  if c = 92 then jsonBufferAppend (ascii "\\\\")
  else if c = 34 then jsonBufferAppend (ascii "\\\"")
  else if c = 8 then jsonBufferAppend (ascii "\\b")
  else if c = 12 then jsonBufferAppend (ascii "\\f")
  else if c = 10 then jsonBufferAppend (ascii "\\n")
  else if c = 13 then jsonBufferAppend (ascii "\\r")
  else if c = 9 then jsonBufferAppend (ascii "\\t")
  else if c < 32 then jsonBufferAppendf (ascii "\\u" ++ hex4 c.toNat)
  else fun s => do
    match ← jsonBufferReserve 1 s with
    | (false, s) => some (false, s)
    | (true, s) => do some (true, ← s.store [c])

def jsonBufferAppendJsonString (text : List UInt8) : JsonCall :=
  jsonCalls ((jsonBufferAppend (ascii "\"") :: text.map jsonAppendEscaped) ++
    [jsonBufferAppend (ascii "\"")])

/-! ### Giving the text away -/

/-- The pointer that `json_buffer_detach` returns is given by the string it points to. -/
def jsonBufferDetach (s : JsonState) : Option (Option (List UInt8) × JsonState) :=
  match s.data with
  | none => some (none, ⟨⟨0, none, 0⟩, s.allocs⟩)
  | some data => do some (some (← data.readString 0 s.cap), ⟨⟨0, none, 0⟩, s.allocs⟩)

def jsonBufferDestroy (s : JsonState) : JsonState := ⟨⟨0, none, 0⟩, s.allocs⟩

end MiniDbms
