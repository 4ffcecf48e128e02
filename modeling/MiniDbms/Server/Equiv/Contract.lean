import MiniDbms.Server.Equiv.Request

/-!
# The head of a request and the API contract

`contractStatus` is the status that the API contract gives for a head, read line by line.
`http_read_request` answers with it (`contractStatus_iff`), except that a head without header lines
is malformed for it before it looks at the method.  The `Content-Length` that it reads can be
another one than that of the lines (`Misread`): `strtoul` takes signs, and `strtok_r` separates
lines at every `\r` and every `\n` (`lengthUnambiguous_iff`).
-/

namespace MiniDbms

open CString

/-! ### The lines of a head -/

/-- A head without a line end is one line. -/
theorem crlfLines_eq_singleton {text : List UInt8} (h : (crlfLines text).length = 1) :
    crlfLines text = [text] := by
  rcases crlfLines_of_strstr text with ⟨-, hlines⟩ | ⟨line, rest, -, -, hlines⟩
  · exact hlines
  · have hpos : 0 < (crlfLines rest).length := by
      rcases crlfLines_of_strstr rest with ⟨-, h⟩ | ⟨_, _, -, -, h⟩ <;> simp [h]
    rw [hlines, List.length_cons] at h
    omega

/-- A complete line stays as it is when more text follows. -/
theorem crlfLines_headD_append {s : List UInt8} (h : 2 ≤ (crlfLines s).length) (t : List UInt8) :
    (crlfLines (s ++ t)).headD [] = (crlfLines s).headD [] := by
  fun_induction crlfLines s with
  | case1 => exact absurd h (by decide)
  | case2 s ih => rfl
  | case3 c s hc ih =>
    rw [List.length_modifyHead] at h
    have hlines : crlfLines (c :: s ++ t) = (crlfLines (s ++ t)).modifyHead (c :: ·) := by
      rw [List.cons_append, crlfLines]
      rintro t' rfl ht'
      cases s with
      | nil => exact absurd h (by decide)
      | cons c' s =>
        rw [List.cons_append, List.cons.injEq] at ht'
        exact hc s rfl (by rw [ht'.1])
    have hne : ∀ {s : List UInt8}, crlfLines s ≠ [] := by
      intro s
      rcases crlfLines_of_strstr s with ⟨-, h⟩ | ⟨_, _, -, -, h⟩ <;> simp [h]
    obtain ⟨first, others, hs⟩ := List.exists_cons_of_ne_nil (hne (s := s))
    obtain ⟨first', others', hs'⟩ := List.exists_cons_of_ne_nil (hne (s := s ++ t))
    have heq := ih h
    rw [hs, hs', List.headD_cons, List.headD_cons] at heq
    rw [hlines, hs, hs', heq]
    rfl

/-- **The lines that are read** are those of the head, when no `\r` or `\n` stands alone. -/
theorem readLines_eq_tail {text : List UInt8}
    (hlines : ∀ line ∈ crlfLines text, ∀ c ∈ line, isCrlf c = false)
    (hnil : [] ∉ (crlfLines text).tail) : readLines text = (crlfLines text).tail := by
  unfold readLines
  rcases crlfLines_of_strstr text with ⟨-, htext⟩ | ⟨line, rest, -, heq, htext⟩
  · rw [htext, List.headD_cons, List.drop_length]
    rfl
  · rw [htext, List.tail_cons] at hnil
    have hrest : ∀ line ∈ crlfLines rest, ∀ c ∈ line, isCrlf c = false := by
      intro line' hline'
      apply hlines
      rw [htext]
      exact List.mem_cons_of_mem _ hline'
    rw [htext, List.headD_cons, List.tail_cons, heq, List.drop_left, tokens_cons_of_pos rfl,
      tokens_cons_of_pos rfl, tokens_isCrlf hrest, List.filter_eq_self]
    intro line' hline'
    rw [decide_eq_true_eq]
    rintro rfl
    exact hnil hline'

/-- The head ends at the first `\r\n\r\n`, so no line in it is empty. -/
theorem nil_notMem_tail_crlfLines {stream : List UInt8} {i : ℕ} (h : headerEnd stream = some i) :
    [] ∉ (crlfLines (stream.take i)).tail := by
  intro hnil
  obtain ⟨hat, hfirst⟩ := headerEnd_eq_some_iff.mp h
  obtain ⟨before, behind, heq⟩ := exists_blankLine_of_nil_mem hnil
  have hstream : stream = stream.take i ++ [13, 10] ++ (13 :: 10 :: stream.drop (i + 4)) := by
    conv_lhs => rw [← List.take_append_drop i stream,
      ← List.take_append_drop 4 (stream.drop i), hat,
      List.drop_drop]
    simp [blankLine]
  have hlen := congrArg List.length heq
  have hi := le_of_blankLine hat
  simp only [List.length_append, List.length_take, List.length_cons, List.length_nil] at hlen
  refine hfirst before.length (by omega) ?_
  rw [hstream, heq, List.append_assoc, List.drop_left]
  rfl

/-! ### The contract -/

/-- The status that the API contract gives for a head, the bytes behind it and their end; `none` for
success. -/
def contractStatus (head rest : List UInt8) (ending : StreamEnd) : Option ℕ :=
  if (requestWords head)[0]? ≠ some (ascii "POST") then some 405
  else if (requestWords head)[1]? ≠ some (ascii "/query") then some 404
  else if ¬ LinesOk (crlfLines head).tail then some 400
  else
    match lastLength (crlfLines head).tail with
    | none => some 400
    | some n =>
      if httpMaxBodySize < n then some 413
      else if rest.length < n then some (if ending = .timedOut then 408 else 400)
      else none

/-- The status of an outcome; `none` for success. -/
def outcomeStatus : Except HttpError HttpRequest → Option ℕ
  | .error error => some error.status
  | .ok _ => none

/-- What the text of the head is answered with. -/
theorem HttpOutcome.headAnswer {stream : List UInt8} {ending : StreamEnd}
    {outcome : Except HttpError HttpRequest} (h : HttpOutcome stream ending outcome) {i : ℕ}
    (hend : headerEnd (stream.take httpMaxRequestSize) = some i) :
    ∃ r, HeadAnswer (headText stream i) r ∧ ∀ error, r = .error error → outcome = .error error := by
  obtain ⟨r, hrun, hanswer⟩ := httpParseHead_answer (headText stream i)
  refine ⟨r, hanswer, ?_⟩
  rintro error rfl
  cases h with
  | noHead noEnd =>
    rw [hend] at noEnd
    cases noEnd
  | badHead head_end parse =>
    rw [hend] at head_end
    cases head_end
    rw [hrun] at parse
    cases parse
    rfl
  | shortBody head_end parse short =>
    rw [hend] at head_end
    cases head_end
    rw [hrun] at parse
    cases parse
  | request head_end parse length holds =>
    rw [hend] at head_end
    cases head_end
    rw [hrun] at parse
    cases parse

theorem StreamEnd.bodyError_status (ending : StreamEnd) :
    ending.bodyError.status = if ending = .timedOut then 408 else 400 := by
  cases ending <;> rfl

/-- The contract for a head that asks for a body. -/
theorem contractStatus_query {head rest : List UInt8} {ending : StreamEnd} {n : ℕ}
    (hhead : QueryHead head n) (hlines : readLines head = (crlfLines head).tail) :
    contractStatus head rest ending = if httpMaxBodySize < n then some 413
      else if rest.length < n then some (if ending = .timedOut then 408 else 400) else none := by
  obtain ⟨⟨version, more, hwords⟩, hok, hlast⟩ := hhead
  rw [hlines] at hok hlast
  rw [contractStatus, hwords, if_neg (by simp), if_neg (by simp), if_neg (not_not.mpr hok), hlast]

/-- The contract for a `POST /query` whose header lines do not say how long the body is. -/
theorem contractStatus_malformed {head rest : List UInt8} {ending : StreamEnd}
    (hpost : (requestWords head)[0]? = some (ascii "POST"))
    (hquery : (requestWords head)[1]? = some (ascii "/query"))
    (hbad : ¬ LinesOk (crlfLines head).tail ∨ lastLength (crlfLines head).tail = none) :
    contractStatus head rest ending = some 400 := by
  rw [contractStatus, if_neg (not_not.mpr hpost), if_neg (not_not.mpr hquery)]
  by_cases hok : LinesOk (crlfLines head).tail
  · rw [if_neg (not_not.mpr hok), hbad.resolve_left (not_not.mpr hok)]
  · rw [if_pos hok]

/-- **The answers follow the contract** for every complete head without stray bytes, as soon as it
has a header line, or asks for `POST /query`. -/
theorem contractStatus_iff {stream : List UInt8} {ending : StreamEnd} {i : ℕ}
    (hend : headerEnd (stream.take httpMaxRequestSize) = some i) (hnul : 0 ∉ stream.take i)
    (hstray : ∀ line ∈ crlfLines (stream.take i), ∀ c ∈ line, isCrlf c = false)
    (hthree : 3 ≤ (requestWords (stream.take i)).length) :
    (∃ outcome, HttpReads stream ending outcome ∧
      outcomeStatus outcome = contractStatus (stream.take i) (stream.drop (i + 4)) ending) ↔
      (crlfLines (stream.take i)).tail ≠ [] ∨
        (requestWords (stream.take i))[0]? = some (ascii "POST") ∧
          (requestWords (stream.take i))[1]? = some (ascii "/query") := by
  obtain ⟨outcome, houtcome⟩ := exists_httpOutcome stream ending
  have hone : ∀ status,
      (∃ outcome, HttpReads stream ending outcome ∧ outcomeStatus outcome = status) ↔
      outcomeStatus outcome = status := fun status =>
    ⟨fun ⟨outcome', hreads, h⟩ => houtcome.unique hreads.outcome ▸ h,
      fun h => ⟨outcome, houtcome.reads, h⟩⟩
  rw [hone]
  have hlines := readLines_eq_tail hstray (nil_notMem_tail_crlfLines (headerEnd_of_take hend).1)
  have htext : headText stream i = stream.take i := takeWhile_ne_zero_eq_iff.mpr hnul
  have hquery : ∀ n, QueryHead (stream.take i) n → outcomeStatus outcome =
      contractStatus (stream.take i) (stream.drop (i + 4)) ending := by
    intro n hhead
    have hspec := QueryHead.outcome hend (htext.symm ▸ hhead) houtcome
    rw [contractStatus_query hhead hlines]
    split_ifs at hspec ⊢ with hlarge hshort htimed
    · rw [hspec, outcomeStatus]
    · rw [hspec, outcomeStatus, ending.bodyError_status, if_pos htimed]
    · rw [hspec, outcomeStatus, ending.bodyError_status, if_neg htimed]
    · obtain ⟨request, rfl, -⟩ := hspec
      rfl
  obtain ⟨r, hanswer, herror⟩ := houtcome.headAnswer hend
  rw [htext] at hanswer
  generalize hhead : stream.take i = head at *
  have htail : 2 ≤ (crlfLines head).length → (crlfLines head).tail ≠ [] := fun h hnil => by
    have hlen := congrArg List.length hnil
    rw [List.length_tail, List.length_nil] at hlen
    omega
  cases hanswer with
  | noLines lines =>
    -- without a line end, the code does not look at the words
    have hnil : (crlfLines head).tail = [] := by
      rw [crlfLines_eq_singleton lines]
      rfl
    rw [or_iff_right (not_not.mpr hnil), herror _ rfl, outcomeStatus]
    by_cases hpost : (requestWords head)[0]? = some (ascii "POST")
    · by_cases hpath : (requestWords head)[1]? = some (ascii "/query")
      · refine iff_of_true ?_ ⟨hpost, hpath⟩
        rw [contractStatus_malformed hpost hpath (Or.inr (by rw [hnil]; rfl))]
      · refine iff_of_false ?_ fun h => hpath h.2
        rw [contractStatus, if_neg (not_not.mpr hpost), if_pos hpath]
        decide
    · refine iff_of_false ?_ fun h => hpost h.1
      rw [contractStatus, if_pos hpost]
      decide
  | noWords lines words => exact absurd hthree (not_le.mpr words)
  | method lines first =>
    refine iff_of_true ?_ (Or.inl (htail lines))
    rw [herror _ rfl, outcomeStatus, contractStatus, if_pos first]
  | path lines first second =>
    refine iff_of_true ?_ (Or.inl (htail lines))
    rw [herror _ rfl, outcomeStatus, contractStatus, if_neg (not_not.mpr first), if_pos second]
  | headers lines words bad status =>
    refine iff_of_true ?_ (Or.inl (htail lines))
    obtain ⟨version, more, hwords⟩ := words
    rw [hlines] at bad
    rw [herror _ rfl, outcomeStatus, status, contractStatus_malformed (by rw [hwords]; rfl)
      (by rw [hwords]; rfl) bad]
  | tooLarge lines asks large => exact iff_of_true (hquery _ asks) (Or.inl (htail lines))
  | query lines asks fits method path => exact iff_of_true (hquery _ asks) (Or.inl (htail lines))

theorem contractStatus_tooLarge : ∃ outcome, HttpReads
    (ascii "POST /query HTTP/1.1\r\nContent-Length: 5000\r\n\r\n") .timedOut outcome ∧
    outcomeStatus outcome = some 413 := by
  set stream := ascii "POST /query HTTP/1.1\r\nContent-Length: 5000\r\n\r\n" with hstream
  obtain ⟨hend, hnul, hstray, hthree, htail, hstatus⟩ :
      headerEnd (stream.take httpMaxRequestSize) = some 42 ∧ 0 ∉ stream.take 42 ∧
      (∀ line ∈ crlfLines (stream.take 42), ∀ c ∈ line, isCrlf c = false) ∧
      3 ≤ (requestWords (stream.take 42)).length ∧ (crlfLines (stream.take 42)).tail ≠ [] ∧
      contractStatus (stream.take 42) (stream.drop 46) .timedOut = some 413 := by
    decide +kernel
  rw [← hstatus]
  exact (contractStatus_iff hend hnul hstray hthree).mpr (Or.inl htail)

/-- A `GET` without header lines is malformed for the code. -/
theorem contractStatus_noLines : ¬ ∃ outcome,
    HttpReads (ascii "GET /query HTTP/1.1\r\n\r\n") .closed outcome ∧
      outcomeStatus outcome = contractStatus (ascii "GET /query HTTP/1.1") [] .closed := by
  set stream := ascii "GET /query HTTP/1.1\r\n\r\n" with hstream
  obtain ⟨hend, hone, hstatus⟩ : headerEnd (stream.take httpMaxRequestSize) = some 19 ∧
      (crlfLines (headText stream 19)).length = 1 ∧
      contractStatus (ascii "GET /query HTTP/1.1") [] .closed = some 405 := by
    decide
  rintro ⟨outcome, hreads, hanswer⟩
  obtain ⟨r, hr, herror⟩ := hreads.outcome.headAnswer hend
  have hlines : ¬ 2 ≤ (crlfLines (headText stream 19)).length := by
    rw [hone]
    decide
  cases hr with
  | noLines =>
    rw [herror _ rfl, hstatus] at hanswer
    exact absurd hanswer (by decide)
  | noWords lines => exact absurd lines hlines
  | method lines => exact absurd lines hlines
  | path lines => exact absurd lines hlines
  | headers lines => exact absurd lines hlines
  | tooLarge lines => exact absurd lines hlines
  | query lines => exact absurd lines hlines

/-! ### Content-Length -/

/-- A decimal number, and nothing else. -/
structure PlainDecimal (value : List UInt8) : Prop where
  ne_nil : value ≠ []
  isdigit : ∀ c ∈ value, isdigit c = true

instance (value : List UInt8) : Decidable (PlainDecimal value) :=
  letI := List.decidableBAll (isdigit · = true) value
  decidable_of_iff (value ≠ [] ∧ ∀ c ∈ value, isdigit c = true)
    ⟨fun ⟨h, h'⟩ => ⟨h, h'⟩, fun ⟨h, h'⟩ => ⟨h, h'⟩⟩

/-- The values of the `Content-Length` fields among the header lines. -/
def fields (head : List UInt8) : List (List UInt8) := contentLengths (crlfLines head).tail

/-- `Content-Length` is accepted only when it is valid and unambiguous. -/
def LengthUnambiguous (head : List UInt8) : Prop :=
  ∀ rest ending, ∃ outcome, HttpReads (head ++ blankLine ++ rest) ending outcome ∧
    (∀ request, outcome = .ok request → request.contentLength ≤ httpMaxBodySize ∧
      fields head ≠ [] ∧ ∀ value ∈ fields head,
        PlainDecimal value ∧ digitsValue value = request.contentLength) ∧
    ((∃ version more, requestWords head = ascii "POST" :: ascii "/query" :: version :: more) →
      (∃ value ∈ fields head, ¬ PlainDecimal value) →
      ∃ error, outcome = .error error ∧ error.status = 400)

/-- How the length `n` that is read is not what the lines of the head say. -/
inductive Misread (head : List UInt8) (n : ℕ) : Prop
  /-- `strtoul` reads the sign. -/
  | signed {value : List UInt8} (mem : value ∈ fields head)
    (sign : value.head? = some 43 ∨ value.head? = some 45)
  /-- There is a stray `\r`, `\n` or `NUL` in the line, or it stands behind a `NUL`. -/
  | unread {line value : List UInt8} (mem : line ∈ (crlfLines head).tail)
    (field : contentLengthValue line = some value)
    (unread : line ∉ readLines (head.takeWhile (· ≠ 0))) (digits : ¬ PlainDecimal value)
  /-- Another field denotes another number. -/
  | differs {value : List UInt8} (mem : value ∈ fields head) (digits : PlainDecimal value)
    (other : digitsValue value ≠ n) (fits : n ≤ httpMaxBodySize)
  /-- The field that is read stands behind a stray `\r` or `\n`. -/
  | hidden (none : fields head = []) (fits : n ≤ httpMaxBodySize)

/-- A field has no blanks in front. -/
theorem stopsAt_contentLengthValue {line value : List UInt8}
    (h : contentLengthValue line = some value) : StopsAt isspace value := by
  obtain ⟨⟨name, colon⟩, -, h⟩ := Option.bind_eq_some_iff.mp h
  dsimp only at h
  split_ifs at h
  cases h
  exact stopsAt_dropWhile isspace _

/-- Without a sign, `strtoul` consumes a plain number only. -/
theorem Consumed.plainDecimal {value : List UInt8} (h : Consumed value)
    (hspace : StopsAt isspace value) (hplus : value.head? ≠ some 43)
    (hminus : value.head? ≠ some 45) : PlainDecimal value := by
  obtain ⟨hrest, hne⟩ := h
  have hskip : value.dropWhile isspace = value :=
    dropWhile_eq_iff.mpr ⟨⟨[], by simp, rfl⟩, hspace⟩
  obtain ⟨c, tail, rfl⟩ := List.exists_cons_of_ne_nil hne
  unfold strtoul at hrest
  dsimp only at hrest
  rw [hskip] at hrest
  split at hrest
  · rename_i heq
    rw [heq] at hminus
    exact absurd rfl hminus
  · rename_i heq
    rw [heq] at hplus
    exact absurd rfl hplus
  · dsimp only at hrest
    split_ifs at hrest
    all_goals exact ⟨hne, List.dropWhile_eq_nil_iff.mp hrest⟩

/-- A sign is no digit. -/
theorem PlainDecimal.no_sign {value : List UInt8} (h : PlainDecimal value) :
    ¬ (value.head? = some 43 ∨ value.head? = some 45) := by
  obtain ⟨c, tail, rfl⟩ := List.exists_cons_of_ne_nil h.ne_nil
  have hc := h.isdigit c List.mem_cons_self
  rintro (heq | heq)
  · cases heq
    cases hc
  · cases heq
    cases hc

/-- When nothing is misread, the fields are plain numbers. -/
theorem plainDecimal_of_not_misread {head : List UInt8} {n : ℕ}
    (hhead : QueryHead (head.takeWhile (· ≠ 0)) n) (h : ¬ Misread head n) {value : List UInt8}
    (hvalue : value ∈ fields head) : PlainDecimal value := by
  by_contra hplain
  obtain ⟨line, hline, hfield⟩ := List.mem_filterMap.mp hvalue
  refine h (.unread hline hfield (fun hread => ?_) hplain)
  have hconsumed := hhead.lines.2 value (List.mem_filterMap.mpr ⟨line, hread, hfield⟩)
  by_cases hplus : value.head? = some 43
  · exact h (.signed hvalue (Or.inl hplus))
  · by_cases hminus : value.head? = some 45
    · exact h (.signed hvalue (Or.inr hminus))
    · exact hplain (hconsumed.plainDecimal (stopsAt_contentLengthValue hfield) hplus hminus)

/-- A stream with this head. -/
theorem headerEnd_append {head : List UInt8}
    (hhead : headerEnd (head ++ blankLine) = some head.length)
    (hlen : head.length + 4 ≤ httpMaxRequestSize) (rest : List UInt8) :
    headerEnd ((head ++ blankLine ++ rest).take httpMaxRequestSize) = some head.length := by
  refine headerEnd_take (k := (head ++ blankLine).length) ?_ ?_
  · rw [List.take_left]
    exact hhead
  · rw [List.length_append]
    exact hlen

theorem headText_append (head rest : List UInt8) :
    headText (head ++ blankLine ++ rest) head.length = head.takeWhile (· ≠ 0) := by
  rw [headText, List.append_assoc, List.take_left]

theorem drop_append_blankLine (head rest : List UInt8) :
    (head ++ blankLine ++ rest).drop (head.length + 4) = rest := by
  have hlen : head.length + 4 = (head ++ blankLine).length := by
    rw [List.length_append]
    rfl
  rw [hlen, List.drop_left]

/-- The request line is in front of the first `NUL`, if its line end is. -/
theorem requestWords_takeWhile {head : List UInt8}
    (h : 2 ≤ (crlfLines (head.takeWhile (· ≠ 0))).length) :
    requestWords (head.takeWhile (· ≠ 0)) = requestWords head := by
  have hfirst := crlfLines_headD_append h (head.dropWhile (· ≠ 0))
  rw [List.takeWhile_append_dropWhile] at hfirst
  rw [requestWords, requestWords, hfirst]

/-- **`Content-Length` is valid and unambiguous** exactly for the heads of which the code reads no
other length than the lines say. -/
theorem lengthUnambiguous_iff {head : List UInt8}
    (hhead : headerEnd (head ++ blankLine) = some head.length)
    (hlen : head.length + 4 ≤ httpMaxRequestSize) :
    LengthUnambiguous head ↔
      ∀ n, QueryHead (head.takeWhile (· ≠ 0)) n → ¬ Misread head n := by
  constructor
  · intro h n hquery hmisread
    -- a misread length shows on a stream with just the body it stands for
    obtain ⟨outcome, hreads, haccept, hreject⟩ := h (List.replicate n 0) .closed
    have hspec := QueryHead.outcome (headerEnd_append hhead hlen (List.replicate n 0))
      ((headText_append head _).symm ▸ hquery) hreads.outcome
    rw [drop_append_blankLine, List.length_replicate] at hspec
    by_cases hlarge : httpMaxBodySize < n
    · -- 413, whatever the fields are
      rw [if_pos hlarge] at hspec
      obtain ⟨value, hvalue, hplain⟩ : ∃ value ∈ fields head, ¬ PlainDecimal value := by
        cases hmisread with
        | @signed value mem sign => exact ⟨value, mem, fun hplain => hplain.no_sign sign⟩
        | @unread line value mem field unread digits =>
          exact ⟨value, List.mem_filterMap.mpr ⟨line, mem, field⟩, digits⟩
        | differs mem digits other fits => omega
        | hidden none fits => omega
      have hwords := hquery.words
      rw [requestWords_takeWhile hquery.two_le_lines] at hwords
      obtain ⟨error, herror, hstatus⟩ := hreject hwords ⟨value, hvalue, hplain⟩
      rw [hspec] at herror
      cases herror
      cases hstatus
    · rw [if_neg hlarge, if_neg (lt_irrefl n)] at hspec
      obtain ⟨request, hok, hn, -⟩ := hspec
      obtain ⟨-, hne, hall⟩ := haccept request hok
      cases hmisread with
      | @signed value mem sign => exact (hall value mem).1.no_sign sign
      | @unread line value mem field unread digits =>
        exact digits (hall value (List.mem_filterMap.mpr ⟨line, mem, field⟩)).1
      | @differs value mem digits other fits =>
        exact other ((hall value mem).2.trans hn)
      | hidden none fits => exact hne none
  · intro h rest ending
    -- the server answers every stream somehow
    obtain ⟨outcome, houtcome⟩ := exists_httpOutcome (head ++ blankLine ++ rest) ending
    have hend := headerEnd_append hhead hlen rest
    refine ⟨outcome, houtcome.reads, ?_, ?_⟩
    · rintro request rfl
      -- an accepted request: its length was not misread
      obtain ⟨i, hi, hquery, hmax, -⟩ := houtcome.accepted
      rw [hend] at hi
      cases hi
      rw [headText_append] at hquery
      have hnot := h _ hquery
      refine ⟨hmax, fun hnil => hnot (.hidden hnil hmax), fun value hvalue => ?_⟩
      have hplain := plainDecimal_of_not_misread hquery hnot hvalue
      refine ⟨hplain, ?_⟩
      by_contra hother
      exact hnot (.differs hvalue hplain hother hmax)
    · rintro ⟨version, more, hwords⟩ ⟨value, hvalue, hplain⟩
      -- a field that is no plain number: every other answer is a 400
      obtain ⟨r, hanswer, herror⟩ := houtcome.headAnswer hend
      rw [headText_append] at hanswer
      cases hanswer with
      | noLines lines => exact ⟨_, herror _ rfl, rfl⟩
      | noWords lines words => exact ⟨_, herror _ rfl, rfl⟩
      | method lines first =>
        rw [requestWords_takeWhile lines, hwords] at first
        exact absurd rfl first
      | path lines first second =>
        rw [requestWords_takeWhile lines, hwords] at second
        exact absurd rfl second
      | headers lines words bad status => exact ⟨_, herror _ rfl, status⟩
      | tooLarge lines asks large =>
        exact absurd (plainDecimal_of_not_misread asks (h _ asks) hvalue) hplain
      | query lines asks fits method path =>
        exact absurd (plainDecimal_of_not_misread asks (h _ asks) hvalue) hplain

theorem lengthUnambiguous_plain :
    LengthUnambiguous (ascii "POST /query HTTP/1.1\r\nContent-Length: 4") := by
  set head := ascii "POST /query HTTP/1.1\r\nContent-Length: 4" with hdef
  obtain ⟨hhead, hlen, hlast, hfields, hread⟩ : headerEnd (head ++ blankLine) = some head.length ∧
      head.length + 4 ≤ httpMaxRequestSize ∧
      lastLength (readLines (head.takeWhile (· ≠ 0))) = some 4 ∧ fields head = [[52]] ∧
      (crlfLines head).tail = readLines (head.takeWhile (· ≠ 0)) := by
    decide
  refine (lengthUnambiguous_iff hhead hlen).mpr fun n hquery hmisread => ?_
  obtain rfl : n = 4 := Option.some_inj.mp (hquery.last.symm.trans hlast)
  have hfour : ∀ {value}, value ∈ fields head → value = [52] := fun h => by
    rw [hfields] at h
    exact List.mem_singleton.mp h
  cases hmisread with
  | signed mem sign =>
    rw [hfour mem] at sign
    exact absurd sign (by decide)
  | unread mem field unread digits =>
    rw [hread] at mem
    exact unread mem
  | differs mem digits other fits =>
    rw [hfour mem] at other
    exact other rfl
  | hidden none fits =>
    rw [hfields] at none
    cases none

/-- `strtoul` takes a `+`. -/
theorem not_lengthUnambiguous_signed :
    ¬ LengthUnambiguous (ascii "POST /query HTTP/1.1\r\nContent-Length: +4") := by
  set head := ascii "POST /query HTTP/1.1\r\nContent-Length: +4" with hdef
  obtain ⟨hhead, hlen, hwords, hlines, hlast, hfields⟩ :
      headerEnd (head ++ blankLine) = some head.length ∧
      head.length + 4 ≤ httpMaxRequestSize ∧ requestWords (head.takeWhile (· ≠ 0)) =
        [ascii "POST", ascii "/query", ascii "HTTP/1.1"] ∧
      LinesOk (readLines (head.takeWhile (· ≠ 0))) ∧
      lastLength (readLines (head.takeWhile (· ≠ 0))) = some 4 ∧ fields head = [[43, 52]] := by
    decide
  have hquery : QueryHead (headText (head ++ blankLine ++ ascii "EXIT") head.length) 4 := by
    rw [headText_append]
    exact ⟨⟨_, _, hwords⟩, hlines, hlast⟩
  intro h
  obtain ⟨outcome, hreads, haccept, -⟩ := h (ascii "EXIT") .closed
  have hspec := QueryHead.outcome (headerEnd_append hhead hlen (ascii "EXIT")) hquery hreads.outcome
  rw [if_neg (by decide), drop_append_blankLine, if_neg (by decide)] at hspec
  obtain ⟨request, hok, -⟩ := hspec
  obtain ⟨-, -, hall⟩ := haccept request hok
  have hplain := (hall [43, 52] (by rw [hfields]; exact List.mem_singleton_self _)).1
  exact absurd hplain (by decide)

end MiniDbms
