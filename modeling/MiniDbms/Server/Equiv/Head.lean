import MiniDbms.Lib.Lines
import MiniDbms.Server.Equiv.Http

/-!
# What the head of a request is read as

The head is a text with a request line and header lines.  `http_read_request` reads the request line
with bounded `sscanf` conversions and the header lines with `strtok_r`, which separates them at
every `\r` and every `\n`.  `HeadAnswer` says what it makes of a text in terms of its words and
lines (`httpParseHead_answer`); a text that it goes on with is a `QueryHead`.
-/

namespace MiniDbms

open CString

/-! ### Words, lines and fields -/

/-- The words of the request line. -/
def requestWords (text : List UInt8) : List (List UInt8) :=
  tokens isspace ((crlfLines text).headD [])

/-- The lines behind the request line, as `strtok_r` separates them. -/
def readLines (text : List UInt8) : List (List UInt8) :=
  tokens isCrlf (text.drop ((crlfLines text).headD []).length)

/-- The value of a `Content-Length` field, behind leading blanks. -/
def contentLengthValue (line : List UInt8) : Option (List UInt8) :=
  (strchr line 58).bind fun (name, colon) =>
    if casecmpEq name (ascii "Content-Length") then some ((colon.drop 1).dropWhile isspace)
    else none

/-- The values of the `Content-Length` fields. -/
def contentLengths (lines : List (List UInt8)) : List (List UInt8) :=
  lines.filterMap contentLengthValue

/-- `strtoul` reads a number, and nothing stands behind it. -/
def Consumed (value : List UInt8) : Prop := (strtoul value).2 = [] ∧ value ≠ []

instance (value : List UInt8) : Decidable (Consumed value) :=
  inferInstanceAs (Decidable (_ ∧ _))

/-- Every line has a colon, and every `Content-Length` is a number. -/
def LinesOk (lines : List (List UInt8)) : Prop :=
  (∀ line ∈ lines, 58 ∈ line) ∧ ∀ value ∈ contentLengths lines, Consumed value

instance (lines : List (List UInt8)) : Decidable (LinesOk lines) :=
  inferInstanceAs (Decidable (_ ∧ _))

/-- The number of the last `Content-Length`. -/
def lastLength (lines : List (List UInt8)) : Option ℕ :=
  (contentLengths lines).getLast?.map fun value => (strtoul value).1

/-- A head that asks for a body of `n` bytes on `/query`. -/
structure QueryHead (text : List UInt8) (n : ℕ) : Prop where
  words : ∃ version more, requestWords text = ascii "POST" :: ascii "/query" :: version :: more
  lines : LinesOk (readLines text)
  last : lastLength (readLines text) = some n

/-- There is one number. -/
theorem QueryHead.unique {text : List UInt8} {n n' : ℕ} (h : QueryHead text n)
    (h' : QueryHead text n') : n = n' :=
  Option.some_inj.mp (h.last.symm.trans h'.last)

/-! ### Header lines -/

theorem strchr_eq_none_iff {s : List UInt8} {c : UInt8} : strchr s c = none ↔ c ∉ s := by
  unfold strchr
  constructor
  · intro h
    split at h
    · rename_i hs
      intro hc
      have := List.dropWhile_eq_nil_iff.mp hs c hc
      simp at this
    · cases h
  · intro h
    have hs : s.dropWhile (· ≠ c) = [] := List.dropWhile_eq_nil_iff.mpr fun c' hc' => by
      simp only [ne_eq, decide_not, Bool.not_eq_true', decide_eq_false_iff_not]
      rintro rfl
      exact h hc'
    rw [hs]

/-- One line of a head whose lines are well formed. -/
theorem httpHeaderLine_ok {line : List UInt8} (hcolon : 58 ∈ line)
    (hvalue : ∀ value, contentLengthValue line = some value → Consumed value)
    (contentLength : Option ℕ) :
    httpHeaderLine line contentLength =
      .ok (((contentLengthValue line).map fun value => (strtoul value).1).or contentLength) := by
  unfold httpHeaderLine
  unfold contentLengthValue at hvalue ⊢
  cases hchr : strchr line 58 with
  | none => exact absurd hcolon (strchr_eq_none_iff.mp hchr)
  | some field =>
    obtain ⟨name, colon⟩ := field
    rw [hchr] at hvalue
    dsimp only [Option.bind_some] at hvalue ⊢
    split_ifs at hvalue ⊢ with hname hbad
    · obtain ⟨hrest, hne⟩ := hvalue _ rfl
      rcases hbad with hbad | hbad
      · rw [hrest] at hbad
        exact absurd hbad.symm hne
      · exact absurd hrest hbad
    · rfl
    · rfl

theorem httpHeaderLine_error {line : List UInt8}
    (h : 58 ∉ line ∨ ∃ value, contentLengthValue line = some value ∧ ¬ Consumed value)
    (contentLength : Option ℕ) :
    ∃ error, httpHeaderLine line contentLength = .error error ∧ error.status = 400 := by
  unfold httpHeaderLine
  unfold contentLengthValue at h
  cases hchr : strchr line 58 with
  | none => exact ⟨_, rfl, rfl⟩
  | some field =>
    obtain ⟨name, colon⟩ := field
    have hcolon : 58 ∈ line := by
      by_contra hcolon
      rw [strchr_eq_none_iff.mpr hcolon] at hchr
      cases hchr
    obtain ⟨value, hvalue, hconsumed⟩ := h.resolve_left (not_not.mpr hcolon)
    rw [hchr] at hvalue
    dsimp only [Option.bind_some] at hvalue ⊢
    split_ifs at hvalue ⊢ with hname hbad
    · exact ⟨_, rfl, rfl⟩
    · cases hvalue
      rw [not_or, not_not] at hbad
      refine absurd ⟨hbad.2, fun hnil => hbad.1 ?_⟩ hconsumed
      rw [hbad.2, hnil]

/-- What the lines of a head say, one after the other. -/
def readHeaderLines (lines : List (List UInt8)) (contentLength : Option ℕ) :
    Except HttpError (Option ℕ) :=
  lines.foldlM (fun contentLength line => httpHeaderLine line contentLength) contentLength

theorem httpHeaders_eq {fuel : ℕ} {headers : List UInt8} (h : headers.length < fuel)
    (contentLength : Option ℕ) :
    httpHeaders fuel headers contentLength =
      some (readHeaderLines (tokens isCrlf headers) contentLength) := by
  induction fuel generalizing headers contentLength with
  | zero => exact absurd h (Nat.not_lt_zero _)
  | succ fuel ih =>
    rw [httpHeaders]
    cases htok : strtok (fun c => c == 13 || c == 10) headers with
    | none =>
      rw [show tokens isCrlf headers = [] from strtok_eq_none_iff.mp htok]
      rfl
    | some token =>
      obtain ⟨line, rest⟩ := token
      have hlt := length_strtok_lt htok
      rw [show tokens isCrlf headers = line :: tokens isCrlf rest from tokens_of_strtok htok,
        readHeaderLines, List.foldlM_cons]
      dsimp only
      cases hline : httpHeaderLine line contentLength with
      | error error => rfl
      | ok contentLength' => exact ih (show rest.length < fuel by omega) contentLength'

/-- **The header lines** give the last `Content-Length`, or an error 400. -/
theorem readHeaderLines_spec (lines : List (List UInt8)) (contentLength : Option ℕ) :
    (LinesOk lines ∧ readHeaderLines lines contentLength =
        .ok ((lastLength lines).or contentLength)) ∨
      (¬ LinesOk lines ∧ ∃ error, readHeaderLines lines contentLength = .error error ∧
        error.status = 400) := by
  induction lines generalizing contentLength with
  | nil => exact Or.inl ⟨⟨nofun, nofun⟩, rfl⟩
  | cons line lines ih =>
    have hvalues : contentLengths (line :: lines) =
        (contentLengthValue line).toList ++ contentLengths lines := by
      rw [contentLengths, List.filterMap_cons]
      cases contentLengthValue line <;> rfl
    by_cases hline : 58 ∈ line ∧ ∀ value, contentLengthValue line = some value → Consumed value
    · -- the line is accepted, and a length in it replaces the one from before
      obtain ⟨hcolon, hvalue⟩ := hline
      have hstep := httpHeaderLine_ok hcolon hvalue contentLength
      have hok : LinesOk (line :: lines) ↔ LinesOk lines := by
        unfold LinesOk
        rw [hvalues]
        simp only [List.mem_cons, forall_eq_or_imp, List.mem_append, Option.mem_toList]
        constructor
        · rintro ⟨⟨-, h⟩, h'⟩
          exact ⟨h, fun value hv => h' value (Or.inr hv)⟩
        · rintro ⟨h, h'⟩
          exact ⟨⟨hcolon, h⟩, fun value hv => hv.elim (hvalue value) (h' value)⟩
      have hlast : (lastLength (line :: lines)).or contentLength = (lastLength lines).or
          (((contentLengthValue line).map fun value => (strtoul value).1).or contentLength) := by
        rw [lastLength, lastLength, hvalues, List.getLast?_append]
        cases (contentLengths lines).getLast? <;> cases contentLengthValue line <;> rfl
      rw [hok, hlast]
      unfold readHeaderLines
      rw [List.foldlM_cons, hstep]
      exact ih _
    · refine Or.inr ⟨fun h => hline ⟨h.1 line List.mem_cons_self, fun value hv => ?_⟩, ?_⟩
      · apply h.2
        rw [hvalues, hv]
        exact List.mem_append_left _ (List.mem_singleton_self value)
      · have hbad : 58 ∉ line ∨ ∃ value, contentLengthValue line = some value ∧
            ¬ Consumed value := by
          by_contra hnot
          rw [not_or, not_not] at hnot
          refine hline ⟨hnot.1, fun value hv => ?_⟩
          by_contra hconsumed
          exact hnot.2 ⟨value, hv, hconsumed⟩
        obtain ⟨error, hstep, hstatus⟩ := httpHeaderLine_error hbad contentLength
        refine ⟨error, ?_, hstatus⟩
        unfold readHeaderLines
        rw [List.foldlM_cons, hstep]
        rfl

/-! ### The request line -/

/-- `sscanf(buffer, "%15s %63s %15s", ...)` -/
def scanRequestLine (line : List UInt8) : Option (List UInt8 × List UInt8 × List UInt8) :=
  (scanWord 15 line).bind fun (method, rest) =>
    (scanWord 63 rest).bind fun (path, rest) =>
      (scanWord 15 rest).map fun (version, _) => (method, path, version)

/-- A bounded word is a short word exactly when the whole word is. -/
theorem take_eq_iff_of_length_lt {w word : List UInt8} {width : ℕ} (hlt : word.length < width) :
    w.take width = word ↔ w = word := by
  constructor
  · intro h
    have hlen := congrArg List.length h
    rw [List.length_take] at hlen
    rwa [List.take_of_length_le (by omega)] at h
  · rintro rfl
    exact List.take_of_length_le hlt.le

/-- **The request line**: the conversions find the method and the path that the words are, whatever
a word that is too long leaves for the next conversion. -/
theorem scanRequestLine_spec (line : List UInt8) :
    (scanRequestLine line = none ∧ (tokens isspace line).length < 3) ∨
      ∃ method path version, scanRequestLine line = some (method, path, version) ∧
        (method = ascii "POST" ↔ (tokens isspace line)[0]? = some (ascii "POST")) ∧
        (method = ascii "POST" → (path = ascii "/query" ↔
          (tokens isspace line)[1]? = some (ascii "/query"))) ∧
        (method = ascii "POST" → path = ascii "/query" → 3 ≤ (tokens isspace line).length) := by
  cases hline : tokens isspace line with
  | nil =>
    refine Or.inl ⟨?_, by decide⟩
    rw [scanRequestLine, scanWord_eq_none hline]
    rfl
  | cons w ws =>
    obtain ⟨rest₁, hmethod, hrest₁, hle₁⟩ := exists_scanWord (by decide : 0 < 15) hline
    cases hpath : tokens isspace rest₁ with
    | nil =>
      rw [hpath, List.length_nil] at hle₁
      refine Or.inl ⟨?_, by rw [List.length_cons]; omega⟩
      simp only [scanRequestLine, hmethod, Option.bind_some, scanWord_eq_none hpath,
        Option.bind_none]
    | cons w₁ ws₁ =>
      obtain ⟨rest₂, hpath', hrest₂, hle₂⟩ := exists_scanWord (by decide : 0 < 63) hpath
      rw [hpath, List.length_cons] at hle₁
      cases hversion : tokens isspace rest₂ with
      | nil =>
        rw [hversion, List.length_nil] at hle₂
        refine Or.inl ⟨?_, by rw [List.length_cons]; omega⟩
        simp only [scanRequestLine, hmethod, hpath', Option.bind_some, scanWord_eq_none hversion,
          Option.map_none]
      | cons w₂ ws₂ =>
        obtain ⟨rest₃, hversion', -⟩ := exists_scanWord (by decide : 0 < 15) hversion
        have hpost : w.take 15 = ascii "POST" ↔ w = ascii "POST" :=
          take_eq_iff_of_length_lt (by decide)
        have hquery : w₁.take 63 = ascii "/query" ↔ w₁ = ascii "/query" :=
          take_eq_iff_of_length_lt (by decide)
        -- behind `POST` the second conversion reads the second word
        have hsecond : w = ascii "POST" → ws = w₁ :: ws₁ := by
          rintro rfl
          rw [← hrest₁ (by decide), hpath]
        refine Or.inr ⟨w.take 15, w₁.take 63, w₂.take 15, ?_, ?_, fun h => ?_, fun h h' => ?_⟩
        · simp only [scanRequestLine, hmethod, hpath', hversion', Option.bind_some, Option.map_some]
        · rw [hpost, List.getElem?_cons_zero, Option.some_inj]
        · rw [hsecond (hpost.mp h), hquery, List.getElem?_cons_succ, List.getElem?_cons_zero,
            Option.some_inj]
        · rw [hquery] at h'
          subst h'
          have hthird : ws₁ = w₂ :: ws₂ := by
            rw [← hrest₂ (by decide), hversion]
          rw [hsecond (hpost.mp h), hthird]
          simp

/-! ### The whole head -/

/-- What `http_read_request` makes of the text of a head. -/
inductive HeadAnswer (text : List UInt8) : Except HttpError HttpHead → Prop
  /-- `strstr` finds no line end. -/
  | noLines (lines : (crlfLines text).length = 1) :
    HeadAnswer text (.error ⟨400, ascii "Malformed HTTP request line"⟩)
  | noWords (lines : 2 ≤ (crlfLines text).length) (words : (requestWords text).length < 3) :
    HeadAnswer text (.error ⟨400, ascii "Malformed HTTP request line"⟩)
  | method (lines : 2 ≤ (crlfLines text).length)
    (first : (requestWords text)[0]? ≠ some (ascii "POST")) :
    HeadAnswer text (.error ⟨405, ascii "Only POST is supported"⟩)
  | path (lines : 2 ≤ (crlfLines text).length)
    (first : (requestWords text)[0]? = some (ascii "POST"))
    (second : (requestWords text)[1]? ≠ some (ascii "/query")) :
    HeadAnswer text (.error ⟨404, ascii "Only /query is supported"⟩)
  | headers (lines : 2 ≤ (crlfLines text).length)
    (words : ∃ version more, requestWords text =
      ascii "POST" :: ascii "/query" :: version :: more)
    (bad : ¬ LinesOk (readLines text) ∨ lastLength (readLines text) = none) {error : HttpError}
    (status : error.status = 400) : HeadAnswer text (.error error)
  | tooLarge {n : ℕ} (lines : 2 ≤ (crlfLines text).length) (head : QueryHead text n)
    (large : httpMaxBodySize < n) :
    HeadAnswer text (.error ⟨413, ascii "Request body is too large"⟩)
  | query {head : HttpHead} (lines : 2 ≤ (crlfLines text).length)
    (asks : QueryHead text head.contentLength) (fits : head.contentLength ≤ httpMaxBodySize)
    (method : head.method = ascii "POST") (path : head.path = ascii "/query") :
    HeadAnswer text (.ok head)

/-- **What the code makes of a head.** -/
theorem httpParseHead_answer (text : List UInt8) :
    ∃ r, httpParseHead text = some r ∧ HeadAnswer text r := by
  unfold httpParseHead
  rcases crlfLines_of_strstr text with ⟨hstrstr, hlines⟩ | ⟨line, rest, hstrstr, htext, hlines⟩
  · rw [hstrstr]
    exact ⟨_, rfl, .noLines (by rw [hlines]; rfl)⟩
  · -- there is a line, so there is one behind it
    have htwo : 2 ≤ (crlfLines text).length := by
      have hpos : 0 < (crlfLines rest).length := by
        rcases crlfLines_of_strstr rest with ⟨-, h⟩ | ⟨_, _, -, -, h⟩ <;> simp [h]
      rw [hlines, List.length_cons]
      omega
    have hfirst : (crlfLines text).headD [] = line := by rw [hlines]; rfl
    have hline : text.take (text.length - (13 :: 10 :: rest).length) = line := by
      rw [htext, List.length_append, Nat.add_sub_cancel, List.take_left]
    have hread : readLines text = tokens isCrlf rest := by
      rw [readLines, hfirst, htext, List.drop_left, tokens_cons_of_pos rfl, tokens_cons_of_pos rfl]
    have hscan := scanRequestLine_spec line
    rw [← hfirst] at hscan
    rw [hstrstr]
    dsimp only
    rw [hline, show (13 :: 10 :: rest : List UInt8).drop 2 = rest from rfl, ← hfirst]
    change ∃ r, (match scanRequestLine ((crlfLines text).headD []) with
      | none => _
      | some (method, path, version) => _) = some r ∧ _
    rcases hscan with ⟨hnone, hwords⟩ | ⟨method, path, version, hsome, hmethod, hpath, hthree⟩
    · rw [hnone]
      exact ⟨_, rfl, .noWords htwo hwords⟩
    · rw [hsome]
      dsimp only
      by_cases hpost : method = ascii "POST"
      · by_cases hquery : path = ascii "/query"
        · obtain ⟨version', more, hwords⟩ : ∃ version' more, requestWords text =
              ascii "POST" :: ascii "/query" :: version' :: more := by
            have h0 := hmethod.mp hpost
            have h1 := (hpath hpost).mp hquery
            have h3 := hthree hpost hquery
            -- `sscanf` has read three words
            unfold requestWords
            generalize tokens isspace ((crlfLines text).headD []) = words at *
            match words, h3 with
            | w :: w' :: w'' :: more, _ =>
              cases h0
              cases h1
              exact ⟨w'', more, rfl⟩
          rw [if_neg (not_not.mpr hpost), if_neg (not_not.mpr hquery),
            httpHeaders_eq (Nat.lt_succ_self _), ← hread, Option.map_some]
          refine ⟨_, rfl, ?_⟩
          rcases readHeaderLines_spec (readLines text) none with ⟨hok, hrun⟩ |
            ⟨hbad, error, hrun, hstatus⟩
          · rw [hrun, Option.or_none]
            cases hlast : lastLength (readLines text) with
            | none => exact .headers htwo ⟨_, _, hwords⟩ (Or.inr hlast) rfl
            | some n =>
              have hhead : QueryHead text n := ⟨⟨_, _, hwords⟩, hok, hlast⟩
              dsimp only
              split_ifs with hlarge
              · exact .tooLarge htwo hhead hlarge
              · exact .query htwo hhead (not_lt.mp hlarge) hpost hquery
          · rw [hrun]
            exact .headers htwo ⟨_, _, hwords⟩ (Or.inl hbad) hstatus
        · rw [if_neg (not_not.mpr hpost), if_pos hquery]
          exact ⟨_, rfl, .path htwo (hmethod.mp hpost) (mt (hpath hpost).mpr hquery)⟩
      · rw [if_pos hpost]
        exact ⟨_, rfl, .method htwo (mt hmethod.mpr hpost)⟩

/-- A text of one line asks for nothing. -/
theorem QueryHead.two_le_lines {text : List UInt8} {n : ℕ} (h : QueryHead text n) :
    2 ≤ (crlfLines text).length := by
  rcases crlfLines_of_strstr text with ⟨-, hlines⟩ | ⟨line, rest, -, -, hlines⟩
  · have hlast := h.last
    rw [readLines, hlines, List.headD_cons, List.drop_length] at hlast
    cases hlast
  · have hpos : 0 < (crlfLines rest).length := by
      rcases crlfLines_of_strstr rest with ⟨-, h⟩ | ⟨_, _, -, -, h⟩ <;> simp [h]
    rw [hlines, List.length_cons]
    omega

/-- **A head that asks for a body** is read as such, or the body is too large. -/
theorem QueryHead.answer {text : List UInt8} {n : ℕ} (h : QueryHead text n)
    {r : Except HttpError HttpHead} (hr : HeadAnswer text r) :
    (n ≤ httpMaxBodySize ∧ ∃ head, r = .ok head ∧ head.contentLength = n) ∨
      (httpMaxBodySize < n ∧ r = .error ⟨413, ascii "Request body is too large"⟩) := by
  obtain ⟨version, more, hwords⟩ := h.words
  have hlines := h.two_le_lines
  cases hr with
  | noLines lines =>
    rw [lines] at hlines
    exact absurd hlines (by decide)
  | noWords lines words =>
    rw [hwords] at words
    simp only [List.length_cons] at words
    omega
  | method lines first =>
    rw [hwords] at first
    exact absurd rfl first
  | path lines first second =>
    rw [hwords] at second
    exact absurd rfl second
  | headers lines words bad status =>
    rcases bad with bad | bad
    · exact absurd h.lines bad
    · rw [h.last] at bad
      cases bad
  | tooLarge lines head large =>
    rw [h.unique head]
    exact Or.inr ⟨large, rfl⟩
  | query lines asks fits method path =>
    rw [h.unique asks]
    exact Or.inl ⟨fits, _, rfl, rfl⟩

end MiniDbms
