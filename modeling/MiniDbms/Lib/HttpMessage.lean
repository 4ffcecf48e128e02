import MiniDbms.Lib.Lines

/-!
# Messages of HTTP

A message is a head of lines that end with `\r\n`, an empty line, and a body.  A line is a `Line`:
it is not empty and has no byte of a line end, so no head can hold an empty line of its own
(`strstr_message`), and its lines are read back as they were written (`crlfLines_head`).

`readResponse` is the reader of a client: it takes the status from the first line, and as many bytes
of the body as the one `Content-Length` says (`readResponse_message`).
-/

namespace Http

open CString

/-! ### Lines -/

/-- A line of a head. -/
structure Line where
  bytes : List UInt8
  ne_nil : bytes ≠ []
  isCrlf : ∀ c ∈ bytes, isCrlf c = false

/-- A line has no line end. -/
theorem Line.ne_cr (line : Line) : ∀ c ∈ line.bytes, c ≠ 13 := by
  rintro c hc rfl
  exact absurd (line.isCrlf 13 hc) (by decide)

/-- What a test says of a whole text. -/
theorem forall_eq_false {p : UInt8 → Bool} {s : List UInt8} (h : s.any p = false) :
    ∀ c ∈ s, p c = false :=
  fun c hc => Bool.eq_false_iff.mpr (List.any_eq_false.mp h c hc)

/-- A line end is whitespace, -/
theorem isCrlf_of_isspace {c : UInt8} (h : isspace c = false) : CString.isCrlf c = false := by
  by_contra hcrlf
  rw [Bool.not_eq_false, CString.isCrlf, Bool.or_eq_true, beq_iff_eq, beq_iff_eq] at hcrlf
  rcases hcrlf with rfl | rfl <;> exact absurd h (by decide)

/-- and no digit. -/
theorem isCrlf_decimalDigits {n : ℕ} : ∀ c ∈ decimalDigits n, CString.isCrlf c = false :=
  fun c hc => isCrlf_of_isspace (isspace_of_isdigit (isdigit_decimalDigits c hc))

/-- The lines of a head, without the last line end. -/
def head (first : Line) (fields : List Line) : List UInt8 :=
  first.bytes ++ fields.flatMap fun field => 13 :: 10 :: field.bytes

/-- A message. -/
def message (first : Line) (fields : List Line) (body : List UInt8) : List UInt8 :=
  head first fields ++ 13 :: 10 :: 13 :: 10 :: body

theorem head_cons (first field : Line) (fields : List Line) :
    head first (field :: fields) = first.bytes ++ 13 :: 10 :: head field fields := by
  simp [head]

/-- A text without `\r` is in one line with what comes behind it. -/
theorem crlfLines_append {text : List UInt8} (h : ∀ c ∈ text, c ≠ 13) (rest : List UInt8) :
    crlfLines (text ++ rest) = (crlfLines rest).modifyHead (text ++ ·) := by
  induction text with
  | nil => cases hrest : crlfLines rest <;> simp [hrest]
  | cons c text ih =>
    obtain ⟨hc, htext⟩ := List.forall_mem_cons.mp h
    have hline : crlfLines (c :: (text ++ rest)) =
        (crlfLines (text ++ rest)).modifyHead (c :: ·) := by
      rw [crlfLines]
      rintro s rfl -
      exact hc rfl
    rw [List.cons_append, hline, ih htext, List.modifyHead_modifyHead]
    rfl

/-- **The lines of a head** are read back. -/
theorem crlfLines_head (first : Line) (fields : List Line) :
    crlfLines (head first fields) = first.bytes :: fields.map Line.bytes := by
  induction fields generalizing first with
  | nil =>
    rw [head, List.flatMap_nil, crlfLines_append first.ne_cr]
    simp [crlfLines]
  | cons field fields ih =>
    rw [head_cons, crlfLines_append first.ne_cr, crlfLines, ih]
    simp

/-- A text without `\r` in front does not end a head. -/
theorem strstr_append {text : List UInt8} (h : ∀ c ∈ text, c ≠ 13) (rest : List UInt8) :
    strstr [13, 10, 13, 10] (text ++ rest) = strstr [13, 10, 13, 10] rest := by
  induction text with
  | nil => rfl
  | cons c text ih =>
    obtain ⟨hc, htext⟩ := List.forall_mem_cons.mp h
    have hno : [13, 10, 13, 10].isPrefixOf (c :: (text ++ rest)) = false := by
      rw [List.isPrefixOf, beq_eq_false_iff_ne.mpr hc.symm, Bool.false_and]
    rw [List.cons_append, strstr, hno, if_neg Bool.false_ne_true, ih htext]

/-- **The head ends at its empty line**, whatever the body is. -/
theorem strstr_message (first : Line) (fields : List Line) (body : List UInt8) :
    strstr [13, 10, 13, 10] (message first fields body) = some (13 :: 10 :: 13 :: 10 :: body) := by
  unfold message
  induction fields generalizing first with
  | nil =>
    rw [head, List.flatMap_nil, List.append_nil, strstr_append first.ne_cr]
    rfl
  | cons field fields ih =>
    -- a line end inside the head is followed by a line, and that does not begin with `\r`
    obtain ⟨c, text, hfield⟩ := List.exists_cons_of_ne_nil field.ne_nil
    have hc : c ≠ 13 := field.ne_cr c (by rw [hfield]; exact List.mem_cons_self)
    have hfeed : ∀ d ∈ ([10] : List UInt8), d ≠ 13 := by simp
    have hskip : ∀ rest, strstr [13, 10, 13, 10] (13 :: 10 :: (c :: rest)) =
        strstr [13, 10, 13, 10] (c :: rest) := by
      intro rest
      have hno : ([13, 10, 13, 10] : List UInt8).isPrefixOf (13 :: 10 :: (c :: rest)) = false := by
        simp only [List.isPrefixOf, beq_self_eq_true, Bool.true_and,
          beq_eq_false_iff_ne.mpr hc.symm, Bool.false_and]
      rw [strstr, hno, if_neg Bool.false_ne_true]
      exact strstr_append hfeed (c :: rest)
    have hhead : head field fields = c :: (text ++ fields.flatMap fun field =>
        13 :: 10 :: field.bytes) := by
      rw [head, hfield, List.cons_append]
    have hrest := ih field
    rw [hhead, List.cons_append] at hrest
    rw [head_cons, List.append_assoc, strstr_append first.ne_cr, hhead, List.cons_append,
      List.cons_append, List.cons_append, hskip, hrest]

/-! ### Fields -/

/-- What stands behind the colon and the blanks, in a field of this name. -/
def fieldValue (name line : List UInt8) : Option (List UInt8) :=
  (strchr line 58).bind fun (name', colon) =>
    if casecmpEq name' name then some ((colon.drop 1).dropWhile isspace) else none

/-- A line `name: value`, with any blanks. -/
theorem fieldValue_eq {name name' blanks value : List UInt8} (hname : casecmpEq name' name = true)
    (hcolon : 58 ∉ name') (hblanks : ∀ c ∈ blanks, isspace c = true)
    (hvalue : StopsAt isspace value) :
    fieldValue name (name' ++ 58 :: (blanks ++ value)) = some value := by
  have hout : ∀ c ∈ name', decide (c ≠ 58) = true := by
    intro c hc
    rw [decide_eq_true_eq]
    rintro rfl
    exact hcolon hc
  have hdrop : (name' ++ 58 :: (blanks ++ value)).dropWhile (· ≠ 58) = 58 :: (blanks ++ value) :=
    dropWhile_eq_iff.mpr ⟨⟨name', hout, rfl⟩, by simp⟩
  have htake : (name' ++ 58 :: (blanks ++ value)).takeWhile (· ≠ 58) = name' :=
    takeWhile_eq_of_stopsAt hout (by simp)
  have hskip : (blanks ++ value).dropWhile isspace = value :=
    dropWhile_eq_iff.mpr ⟨⟨blanks, hblanks, rfl⟩, hvalue⟩
  rw [fieldValue, strchr, hdrop, htake, Option.bind_some]
  simp only [hname, if_true, List.drop_succ_cons, List.drop_zero, hskip]

/-- A number without anything else. -/
def readNumber (text : List UInt8) : Option ℕ :=
  if text ≠ [] ∧ text.all isdigit = true then some (digitsValue text) else none

theorem readNumber_decimalDigits (n : ℕ) : readNumber (decimalDigits n) = some n := by
  rw [readNumber, if_pos ⟨decimalDigits_ne_nil n, List.all_eq_true.mpr isdigit_decimalDigits⟩,
    digitsValue_decimalDigits]

/-- Digits are not skipped as blanks. -/
theorem stopsAt_isspace_decimalDigits (n : ℕ) : StopsAt isspace (decimalDigits n) :=
  fun _ hc => isspace_of_isdigit (isdigit_decimalDigits _ (List.mem_of_mem_head? hc))

/-! ### Responses -/

/-- A response, with the lines of its fields. -/
structure Response where
  statusCode : ℕ
  fields : List (List UInt8)
  body : List UInt8
  deriving DecidableEq

/-- The lines of a head, and what comes behind its empty line. -/
def splitHead (s : List UInt8) : Option (List (List UInt8) × List UInt8) :=
  (strstr [13, 10, 13, 10] s).map fun rest =>
    (crlfLines (s.take (s.length - rest.length)), rest.drop 4)

/-- Reads a response; what is left are the bytes behind its body. -/
def readResponse (s : List UInt8) : Option (Response × List UInt8) := do
  let (lines, rest) ← splitHead s
  let statusCode ← (tokens (· == 32) (lines.headD []))[1]? >>= readNumber
  match lines.tail.filterMap (fieldValue (ascii "Content-Length")) with
  | [value] => do
    let length ← readNumber value
    if rest.length < length then none
    else some (⟨statusCode, lines.tail, rest.take length⟩, rest.drop length)
  | _ => none

theorem splitHead_message (first : Line) (fields : List Line) (body : List UInt8) :
    splitHead (message first fields body) = some (first.bytes :: fields.map Line.bytes, body) := by
  have hlength : (message first fields body).length - (13 :: 10 :: 13 :: 10 :: body).length =
      (head first fields).length := by
    rw [message, List.length_append, Nat.add_sub_cancel]
  rw [splitHead, strstr_message, Option.map_some, hlength, message, List.take_left,
    crlfLines_head]
  rfl

/-- **A response is read back**: its status, its fields and its body, and what comes behind it is
left. -/
theorem readResponse_message {first : Line} {fields : List Line} {body : List UInt8}
    {statusCode : ℕ}
    (hstatus : (tokens (· == 32) first.bytes)[1]? = some (decimalDigits statusCode))
    (hlength : (fields.map Line.bytes).filterMap (fieldValue (ascii "Content-Length")) =
      [decimalDigits body.length]) (more : List UInt8) :
    readResponse (message first fields (body ++ more)) =
      some (⟨statusCode, fields.map Line.bytes, body⟩, more) := by
  rw [readResponse, splitHead_message, Option.bind_eq_bind, Option.bind_some]
  dsimp only [List.headD_cons, List.tail_cons]
  rw [hstatus, hlength]
  simp only [Option.bind_eq_bind, Option.bind_some, readNumber_decimalDigits, List.length_append]
  rw [if_neg (by omega), List.take_left, List.drop_left]

end Http
