import MiniDbms.Lib.CString

/-!
# Reading JSON

A reader for the grammar of RFC 8259, over bytes: a byte from 128 on is an ordinary character of a
string, and an escape `\uXXXX` stands for the UTF-8 bytes of its code point.  `readValue` reads one
value and gives the position behind it; `fuel` bounds the nesting and the number of members, and the
length of the text is enough.
-/

namespace Json

open CString

/-- A JSON value.  The number is `mantissa * 10 ^ exponent`. -/
inductive Value
  | null
  | bool (b : Bool)
  | number (mantissa exponent : ℤ)
  | string (bytes : List UInt8)
  | array (elements : List Value)
  | object (members : List (List UInt8 × Value))

/-- Insignificant whitespace. -/
def isSpace (c : UInt8) : Bool := c == 32 || c == 9 || c == 10 || c == 13

def skipSpaces (s : List UInt8) : List UInt8 := s.dropWhile isSpace

/-! ### Strings -/

/-- The value of a hexadecimal digit. -/
def hexValue (c : UInt8) : Option ℕ :=
  if 48 ≤ c && c ≤ 57 then some (c.toNat - 48)
  else if 97 ≤ c && c ≤ 102 then some (c.toNat - 87)
  else if 65 ≤ c && c ≤ 70 then some (c.toNat - 55)
  else none

/-- The value of four hexadecimal digits. -/
def hexValue4 (a b c d : UInt8) : Option ℕ := do
  some (4096 * (← hexValue a) + 256 * (← hexValue b) + 16 * (← hexValue c) + (← hexValue d))

/-- The UTF-8 bytes of a code point. -/
def utf8 (code : ℕ) : List UInt8 :=
  if code < 0x80 then [code.toUInt8]
  else if code < 0x800 then [(0xC0 + code / 64).toUInt8, (0x80 + code % 64).toUInt8]
  else if code < 0x10000 then
    [(0xE0 + code / 4096).toUInt8, (0x80 + code / 64 % 64).toUInt8, (0x80 + code % 64).toUInt8]
  else
    [(0xF0 + code / 262144).toUInt8, (0x80 + code / 4096 % 64).toUInt8,
      (0x80 + code / 64 % 64).toUInt8, (0x80 + code % 64).toUInt8]

/-- The byte that a two-character escape stands for. -/
def simpleEscape (c : UInt8) : Option UInt8 :=
  if c = 34 || c = 92 || c = 47 then some c
  else if c = 98 then some 8
  else if c = 102 then some 12
  else if c = 110 then some 10
  else if c = 114 then some 13
  else if c = 116 then some 9
  else none

/-- Two UTF-16 surrogates that stand for one code point. -/
def isPair (high low : ℕ) : Bool := 0xD800 ≤ high && high < 0xDC00 && 0xDC00 ≤ low && low < 0xE000

/-- What a string is made of: bytes that stand for themselves, and UTF-16 code units. -/
inductive Piece
  | byte (c : UInt8)
  | unit (code : ℕ)

/-- The bytes of a string. -/
def bytesOf : List Piece → List UInt8
  | [] => []
  | .byte c :: ps => c :: bytesOf ps
  | .unit high :: .unit low :: ps =>
    if isPair high low then
      utf8 (0x10000 + 1024 * (high - 0xD800) + (low - 0xDC00)) ++ bytesOf ps
    else utf8 high ++ bytesOf (.unit low :: ps)
  | .unit code :: ps => utf8 code ++ bytesOf ps

/-- The rest of a string behind its opening quote, and the position behind the string. -/
def readPieces : List UInt8 → Option (List Piece × List UInt8)
  | [] => none
  | c :: s =>
    if c = 34 then some ([], s)
    else if c = 92 then
      match s with
      | [] => none
      | e :: s =>
        if e = 117 then
          match s with
          | x₃ :: x₂ :: x₁ :: x₀ :: s => do
            let code ← hexValue4 x₃ x₂ x₁ x₀
            let (ps, rest) ← readPieces s
            some (.unit code :: ps, rest)
          | _ => none
        else do
          let c ← simpleEscape e
          let (ps, rest) ← readPieces s
          some (.byte c :: ps, rest)
    else if c < 32 then none
    else do
      let (ps, rest) ← readPieces s
      some (.byte c :: ps, rest)

/-- The rest of a string behind its opening quote: its bytes, and the position behind it. -/
def readString (s : List UInt8) : Option (List UInt8 × List UInt8) :=
  (readPieces s).map fun (ps, rest) => (bytesOf ps, rest)

/-! ### Numbers -/

/-- At least one digit, and the position behind the digits. -/
def readDigits (s : List UInt8) : Option (List UInt8 × List UInt8) :=
  let digits := s.takeWhile isdigit
  if digits = [] then none else some (digits, s.dropWhile isdigit)

/-- `.` and digits, if they are there. -/
def readFraction (s : List UInt8) : Option (List UInt8 × List UInt8) :=
  match s with
  | 46 :: s => readDigits s
  | s => some ([], s)

/-- `e` or `E`, a sign, and digits, if they are there. -/
def readExponent (s : List UInt8) : Option (ℤ × List UInt8) :=
  match s with
  | [] => some (0, [])
  | c :: s =>
    if c = 101 || c = 69 then
      match s with
      | 45 :: s => (readDigits s).map fun (ds, rest) => (-(digitsValue ds : ℤ), rest)
      | 43 :: s => (readDigits s).map fun (ds, rest) => ((digitsValue ds : ℤ), rest)
      | s => (readDigits s).map fun (ds, rest) => ((digitsValue ds : ℤ), rest)
    else some (0, c :: s)

/-- A number without its sign; the first digit of several is not 0. -/
def readUnsigned (s : List UInt8) : Option ((ℕ × ℤ) × List UInt8) := do
  let (digits, s) ← readDigits s
  if digits.head? = some 48 ∧ digits ≠ [48] then none
  else do
    let (fraction, s) ← readFraction s
    let (exponent, s) ← readExponent s
    some ((digitsValue (digits ++ fraction), exponent - fraction.length), s)

def readNumber (s : List UInt8) : Option (Value × List UInt8) :=
  match s with
  | 45 :: s => (readUnsigned s).map fun ((m, e), rest) => (.number (-(m : ℤ)) e, rest)
  | s => (readUnsigned s).map fun ((m, e), rest) => (.number m e, rest)

/-! ### Values -/

/-- `text`, and the position behind it. -/
def readLiteral (text : List UInt8) (value : Value) (s : List UInt8) :
    Option (Value × List UInt8) :=
  if text.isPrefixOf s then some (value, s.drop text.length) else none

mutual

/-- The value at a position, and the position behind it. -/
def readValue : ℕ → List UInt8 → Option (Value × List UInt8)
  | 0, _ => none
  | _ + 1, [] => none
  | fuel + 1, c :: s =>
    if c = 123 then
      match skipSpaces s with
      | 125 :: s => some (.object [], s)
      | s => (readMembers fuel s).map fun (members, rest) => (.object members, rest)
    else if c = 91 then
      match skipSpaces s with
      | 93 :: s => some (.array [], s)
      | s => (readElements fuel s).map fun (elements, rest) => (.array elements, rest)
    else if c = 34 then (readString s).map fun (bytes, rest) => (.string bytes, rest)
    else if c = 116 then readLiteral (ascii "true") (.bool true) (c :: s)
    else if c = 102 then readLiteral (ascii "false") (.bool false) (c :: s)
    else if c = 110 then readLiteral (ascii "null") .null (c :: s)
    else readNumber (c :: s)

/-- The elements of an array, from the first one to the closing bracket. -/
def readElements : ℕ → List UInt8 → Option (List Value × List UInt8)
  | 0, _ => none
  | fuel + 1, s => do
    let (element, s) ← readValue fuel s
    match skipSpaces s with
    | [] => none
    | c :: s =>
      if c = 44 then do
        let (elements, rest) ← readElements fuel (skipSpaces s)
        some (element :: elements, rest)
      else if c = 93 then some ([element], s)
      else none

/-- The members of an object, from the first one to the closing brace. -/
def readMembers : ℕ → List UInt8 → Option (List (List UInt8 × Value) × List UInt8)
  | 0, _ => none
  | _ + 1, [] => none
  | fuel + 1, quote :: s =>
    if quote ≠ 34 then none
    else do
      let (name, s) ← readString s
      match skipSpaces s with
      | [] => none
      | colon :: s =>
        if colon ≠ 58 then none
        else do
          let (value, s) ← readValue fuel (skipSpaces s)
          match skipSpaces s with
          | [] => none
          | c :: s =>
            if c = 44 then do
              let (members, rest) ← readMembers fuel (skipSpaces s)
              some ((name, value) :: members, rest)
            else if c = 125 then some ([(name, value)], s)
            else none

end

/-- The value at the start of a text, and what comes behind it. -/
def read (s : List UInt8) : Option (Value × List UInt8) := readValue (s.length + 1) s

end Json
