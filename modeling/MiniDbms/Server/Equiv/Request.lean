import MiniDbms.Server.Equiv.Head
import MiniDbms.Server.Equiv.Server

/-!
# What becomes of the body of a request

`HttpReads stream ending outcome`: this is what `http_read_request` ends with, however `recv` cuts
the bytes.  The body of an accepted request is framed by `Content-Length` alone
(`httpReadRequest_framed`): a body that is too short is refused, and bytes behind it are ignored
(`http_read_request_length`).  `api_handle_query` gets it as a C string, so a `NUL` in it hides what
follows (`sqlText_eq_body_iff`).
-/

namespace MiniDbms

open CString CArray

/-! ### Outcomes -/

/-- What `http_read_request` ends with, wherever `recv` cuts the bytes and is interrupted. -/
def HttpReads (stream : List UInt8) (ending : StreamEnd) (outcome : Except HttpError HttpRequest) :
    Prop :=
  ∀ cuts, ∃ enough, ∀ more, httpReadRequest (enough + more) ⟨stream, ending, cuts⟩ = some outcome

theorem HttpOutcome.reads {stream : List UInt8} {ending : StreamEnd}
    {outcome : Except HttpError HttpRequest} (h : HttpOutcome stream ending outcome) :
    HttpReads stream ending outcome := by
  intro cuts
  refine ⟨cuts.length + stream.length + httpMaxBodySize + 1, fun more => ?_⟩
  obtain ⟨r, hrun, hr⟩ := httpReadRequest_eq stream ending cuts
    (show _ < cuts.length + stream.length + httpMaxBodySize + 1 + more by omega)
  rw [hrun, hr.unique h]

theorem exists_httpOutcome (stream : List UInt8) (ending : StreamEnd) :
    ∃ outcome, HttpOutcome stream ending outcome := by
  obtain ⟨outcome, -, h⟩ := httpReadRequest_eq stream ending [] (Nat.lt_succ_self _)
  exact ⟨outcome, h⟩

/-- There is one outcome. -/
theorem HttpReads.outcome {stream : List UInt8} {ending : StreamEnd}
    {outcome : Except HttpError HttpRequest} (h : HttpReads stream ending outcome) :
    HttpOutcome stream ending outcome := by
  obtain ⟨outcome', houtcome⟩ := exists_httpOutcome stream ending
  obtain ⟨enough, hrun⟩ := h []
  obtain ⟨enough', hrun'⟩ := houtcome.reads []
  have heq := (hrun enough').symm.trans ((Nat.add_comm enough enough') ▸ hrun' enough)
  rw [Option.some_inj.mp heq]
  exact houtcome

/-- The text with which `server_handle_client` calls `api_handle_query`. -/
def HttpRequest.sqlText (request : HttpRequest) : Option (List UInt8) :=
  request.body.readString 0 (httpMaxBodySize + 1)

/-- The reply to a request is that of `api_handle_query` to this text. -/
theorem serverHandleClient_sqlText {client : Client} {request : HttpRequest} {text : List UInt8}
    (hreads : HttpReads client.request.stream client.request.ending (.ok request))
    (htext : request.sqlText = some text) :
    ∃ enough, ∀ more, serverHandleClient (enough + more) client =
      match client.query text with
      | (false, _) =>
        serverErrorReply client.allocs 500 (ascii "internal_error") (ascii "Failed to execute SQL")
      | (true, result) => some (some ⟨result.httpStatus, result.body⟩) := by
  obtain ⟨enough, hrun⟩ := hreads client.request.cuts
  refine ⟨enough, fun more => ?_⟩
  rw [HttpRequest.sqlText] at htext
  rw [serverHandleClient, hrun more]
  exact bind_eq_of_eq_some rfl (bind_eq_of_eq_some htext rfl)

/-! ### Frames -/

theorem headerEnd_take_eq_none_iff {stream : List UInt8} {k : ℕ} :
    headerEnd (stream.take k) = none ↔ ¬ blankLine <:+: stream.take k := by
  rw [headerEnd_eq_none_iff]
  constructor
  · rintro h ⟨before, behind, heq⟩
    apply h before.length
    rw [← heq, List.append_assoc, List.drop_left]
    rfl
  · intro h i hi
    refine h ⟨(stream.take k).take i, (stream.take k).drop (i + 4), ?_⟩
    rw [← hi, List.append_assoc, ← List.drop_drop, List.take_append_drop, List.take_append_drop]

/-- A request that was read from the stream: its body are the bytes behind the head. -/
structure HttpRequest.Framed (stream : List UInt8) (request : HttpRequest) : Prop where
  method : request.method = ascii "POST"
  path : request.path = ascii "/query"
  contentLength : request.contentLength ≤ httpMaxBodySize
  body : ∃ i, headerEnd stream = some i ∧ i + 4 ≤ httpMaxRequestSize ∧
    i + 4 + request.contentLength ≤ stream.length ∧
    ∀ k < request.contentLength, request.body.read k = stream[i + 4 + k]?
  terminator : request.body.read request.contentLength = some 0

/-- What the outcome says about an accepted request. -/
theorem HttpOutcome.accepted {stream : List UInt8} {ending : StreamEnd} {request : HttpRequest}
    (h : HttpOutcome stream ending (.ok request)) :
    ∃ i, headerEnd (stream.take httpMaxRequestSize) = some i ∧
      QueryHead (headText stream i) request.contentLength ∧
      request.contentLength ≤ httpMaxBodySize ∧ request.method = ascii "POST" ∧
      request.path = ascii "/query" ∧
      (bodyBytes stream i request.contentLength).length = request.contentLength ∧
      BodyHolds request.body (bodyBytes stream i request.contentLength) := by
  obtain ⟨i, head, head_end, parse, hrequest, length, holds⟩ := h.complete
  obtain ⟨r, hrun, hanswer⟩ := httpParseHead_answer (headText stream i)
  rw [parse] at hrun
  cases hrun
  rw [hrequest]
  cases hanswer with
  | query lines asks fits method path =>
    exact ⟨i, head_end, asks, fits, method, path, length, holds⟩

/-- The first end of a head among the first bytes is the first one of all. -/
theorem headerEnd_of_take {stream : List UInt8} {i k : ℕ} (h : headerEnd (stream.take k) = some i) :
    headerEnd stream = some i ∧ i + 4 ≤ k := by
  constructor
  · have hmore := headerEnd_take h (Nat.le_max_left k stream.length)
    rwa [List.take_of_length_le (Nat.le_max_right k stream.length)] at hmore
  · have hle := le_of_blankLine (headerEnd_eq_some_iff.mp h).1
    rw [List.length_take] at hle
    omega

theorem HttpOutcome.framed {stream : List UInt8} {ending : StreamEnd} {request : HttpRequest}
    (h : HttpOutcome stream ending (.ok request)) : request.Framed stream := by
  obtain ⟨i, hend, -, hmax, hmethod, hpath, hlength, hbody⟩ := h.accepted
  obtain ⟨hfirst, hle⟩ := headerEnd_of_take hend
  have hstream : i + 4 + request.contentLength ≤ stream.length := by
    have hi := le_of_blankLine (headerEnd_eq_some_iff.mp hfirst).1
    rw [bodyBytes, List.length_take, List.length_drop] at hlength
    omega
  refine ⟨hmethod, hpath, hmax, ⟨i, hfirst, hle, hstream, fun k hk => ?_⟩, ?_⟩
  · rw [hbody, hlength, if_pos hk, bodyBytes, List.getElem?_take, if_pos hk, List.getElem?_drop]
  · rw [hbody, hlength, if_neg (lt_irrefl _), if_pos (by omega)]

/-- **How the body is framed.**  Reading ends, inside the two arrays; the body of a request that is
accepted are the `Content-Length` bytes behind the first `\r\n\r\n`, which is among the first 8192
bytes. -/
theorem httpReadRequest_framed (stream : List UInt8) (ending : StreamEnd) :
    ∃ outcome, HttpReads stream ending outcome ∧
      (∀ request, outcome = .ok request → request.Framed stream) ∧
      (¬ blankLine <:+: stream.take httpMaxRequestSize → ∀ request, outcome ≠ .ok request) := by
  obtain ⟨outcome, houtcome⟩ := exists_httpOutcome stream ending
  refine ⟨outcome, houtcome.reads, ?_, ?_⟩
  · rintro request rfl
    exact houtcome.framed
  · rintro hnone request rfl
    obtain ⟨i, hend, -⟩ := houtcome.accepted
    rw [headerEnd_take_eq_none_iff.mpr hnone] at hend
    cases hend

/-! ### Lengths -/

/-- The outcome behind a head that asks for a body. -/
theorem QueryHead.outcome {stream : List UInt8} {i n : ℕ}
    (hend : headerEnd (stream.take httpMaxRequestSize) = some i)
    (hhead : QueryHead (headText stream i) n) {ending : StreamEnd}
    {outcome : Except HttpError HttpRequest} (h : HttpOutcome stream ending outcome) :
    if httpMaxBodySize < n then outcome = .error ⟨413, ascii "Request body is too large"⟩
    else if (stream.drop (i + 4)).length < n then outcome = .error ending.bodyError
    else ∃ request, outcome = .ok request ∧ request.contentLength = n ∧
      BodyHolds request.body ((stream.drop (i + 4)).take n) := by
  obtain ⟨r, hrun, hanswer⟩ := httpParseHead_answer (headText stream i)
  have hr := hhead.answer hanswer
  cases h with
  | noHead noEnd =>
    rw [hend] at noEnd
    cases noEnd
  | @badHead j error head_end parse =>
    rw [hend] at head_end
    cases head_end
    rw [hrun] at parse
    cases parse
    rcases hr with ⟨-, head, hhead', -⟩ | ⟨hlarge, herror⟩
    · cases hhead'
    · rw [if_pos hlarge, Except.error.inj herror]
  | @shortBody j head head_end parse short =>
    rw [hend] at head_end
    cases head_end
    rw [hrun] at parse
    cases parse
    rcases hr with ⟨hle, head, hhead', rfl⟩ | ⟨-, herror⟩
    · cases hhead'
      rw [bodyBytes, List.length_take] at short
      rw [if_neg (not_lt.mpr hle), if_pos (by omega)]
    · cases herror
  | @request j head body head_end parse length holds =>
    rw [hend] at head_end
    cases head_end
    rw [hrun] at parse
    cases parse
    rcases hr with ⟨hle, head, hhead', rfl⟩ | ⟨-, herror⟩
    · cases hhead'
      rw [bodyBytes, List.length_take] at length
      rw [if_neg (not_lt.mpr hle), if_neg (by omega)]
      exact ⟨_, rfl, rfl, holds⟩
    · cases herror

/-- The string in a body: what it holds up to a `NUL`. -/
theorem BodyHolds.sqlText {request : HttpRequest} {received : List UInt8}
    (h : BodyHolds request.body received) (hle : received.length ≤ httpMaxBodySize) :
    request.sqlText = some (received.takeWhile (· ≠ 0)) :=
  h.readString hle

theorem takeWhile_ne_zero_eq_iff {s : List UInt8} : s.takeWhile (· ≠ 0) = s ↔ 0 ∉ s := by
  rw [List.takeWhile_eq_self_iff]
  constructor
  · intro h hzero
    simpa using h 0 hzero
  · intro h c hc
    simp only [ne_eq, decide_not, Bool.not_eq_true', decide_eq_false_iff_not]
    rintro rfl
    exact h hc

/-- **How the length of a body is checked**: a request is refused when the client sends fewer bytes
than its head asks for.  When it sends more, the body ends where the head says, and the bytes behind
it are ignored. -/
theorem http_read_request_length {stream : List UInt8} {ending : StreamEnd} {i n : ℕ}
    (hend : headerEnd (stream.take httpMaxRequestSize) = some i)
    (hhead : QueryHead (headText stream i) n) (hmax : n ≤ httpMaxBodySize)
    (hending : ending ≠ .timedOut) :
    ∃ outcome, HttpReads stream ending outcome ∧
      ((stream.drop (i + 4)).length < n → ∃ error, outcome = .error error ∧ error.status = 400) ∧
      (n ≤ (stream.drop (i + 4)).length → ∃ request, outcome = .ok request ∧
        request.contentLength = n ∧ BodyHolds request.body ((stream.drop (i + 4)).take n)) := by
  obtain ⟨outcome, houtcome⟩ := exists_httpOutcome stream ending
  have hspec := hhead.outcome hend houtcome
  rw [if_neg (not_lt.mpr hmax)] at hspec
  refine ⟨outcome, houtcome.reads, fun hshort => ?_, fun hlong => ?_⟩
  · rw [if_pos hshort] at hspec
    refine ⟨_, hspec, ?_⟩
    cases ending with
    | timedOut => exact absurd rfl hending
    | _ => rfl
  · rwa [if_neg (not_lt.mpr hlong)] at hspec

/-- One byte is missing. -/
theorem http_read_request_length_short : ∃ error, HttpReads
    (ascii "POST /query HTTP/1.1\r\nContent-Length: 5\r\n\r\nEXIT") .closed (.error error) ∧
      error.status = 400 := by
  set stream := ascii "POST /query HTTP/1.1\r\nContent-Length: 5\r\n\r\nEXIT" with hstream
  obtain ⟨hend, hwords, hlines, hlast, hrest⟩ : headerEnd (stream.take httpMaxRequestSize) =
      some 39 ∧
      requestWords (headText stream 39) = [ascii "POST", ascii "/query", ascii "HTTP/1.1"] ∧
      LinesOk (readLines (headText stream 39)) ∧
      lastLength (readLines (headText stream 39)) = some 5 ∧
      (stream.drop 43).length = 4 := by
    decide
  obtain ⟨outcome, hreads, hshort, -⟩ := http_read_request_length hend
    ⟨⟨_, _, hwords⟩, hlines, hlast⟩ (by decide) (by decide : StreamEnd.closed ≠ .timedOut)
  obtain ⟨error, rfl, hstatus⟩ := hshort (by rw [hrest]; decide)
  exact ⟨error, hreads, hstatus⟩

/-- A head that asks for `n` bytes is followed by `rest`, and the client ends: another number of
bytes is answered 400, and no text is executed that is a strict prefix of what the client sent. -/
def LengthAgrees (stream : List UInt8) (ending : StreamEnd) (rest : List UInt8) (n : ℕ) : Prop :=
  ∃ outcome, HttpReads stream ending outcome ∧
    (rest.length ≠ n → ∃ error, outcome = .error error ∧ error.status = 400) ∧
    ∀ request text, outcome = .ok request → request.sqlText = some text →
      ¬ (text <+: rest ∧ text ≠ rest)

/-- When the whole of what the client sent is executed, or nothing: without bytes behind the body,
and without a `NUL` in it. -/
theorem lengthAgrees_iff {stream : List UInt8} {ending : StreamEnd} {i n : ℕ}
    (hend : headerEnd (stream.take httpMaxRequestSize) = some i)
    (hhead : QueryHead (headText stream i) n) (hmax : n ≤ httpMaxBodySize)
    (hending : ending ≠ .timedOut) :
    LengthAgrees stream ending (stream.drop (i + 4)) n ↔
      (stream.drop (i + 4)).length ≤ n ∧
        ((stream.drop (i + 4)).length = n → 0 ∉ stream.drop (i + 4)) := by
  obtain ⟨outcome, houtcome⟩ := exists_httpOutcome stream ending
  have hspec := hhead.outcome hend houtcome
  generalize stream.drop (i + 4) = rest at *
  rw [if_neg (not_lt.mpr hmax)] at hspec
  have hstatus : ending.bodyError.status = 400 := by
    cases ending with
    | timedOut => exact absurd rfl hending
    | _ => rfl
  constructor
  · rintro ⟨outcome', hreads, hlength, hprefix⟩
    rw [hreads.outcome.unique houtcome] at hlength hprefix
    -- a longer body would be accepted, without its end
    have hle : rest.length ≤ n := by
      by_contra hlong
      rw [if_neg (by omega)] at hspec
      obtain ⟨request, rfl, -⟩ := hspec
      obtain ⟨error, herror, -⟩ := hlength (by omega)
      cases herror
    refine ⟨hle, fun heq => ?_⟩
    rw [if_neg (by omega)] at hspec
    obtain ⟨request, rfl, -, hbody⟩ := hspec
    rw [List.take_of_length_le hle] at hbody
    have hnot := hprefix request _ rfl (hbody.sqlText (by omega))
    rw [← takeWhile_ne_zero_eq_iff]
    by_contra hne
    exact hnot ⟨List.takeWhile_prefix _, hne⟩
  · rintro ⟨hle, hnul⟩
    refine ⟨outcome, houtcome.reads, fun hne => ?_, fun request text hok htext => ?_⟩
    · rw [if_pos (by omega)] at hspec
      exact ⟨_, hspec, hstatus⟩
    · split_ifs at hspec with hshort
      · rw [hspec] at hok
        cases hok
      · obtain ⟨request', hok', -, hbody⟩ := hspec
        rw [hok'] at hok
        cases hok
        rw [List.take_of_length_le hle] at hbody
        rw [hbody.sqlText (by omega), Option.some_inj,
          takeWhile_ne_zero_eq_iff.mpr (hnul (by omega))] at htext
        rintro ⟨-, hne⟩
        exact hne htext.symm

/-- `WHERE id = 12` is cut down to `WHERE id = 1`. -/
theorem not_lengthAgrees_surplus : ¬ LengthAgrees
    (ascii ("POST /query HTTP/1.1\r\nContent-Length: 32\r\n\r\n" ++
      "SELECT * FROM users WHERE id = 12")) .closed
    (ascii "SELECT * FROM users WHERE id = 12") 32 := by
  set stream := ascii ("POST /query HTTP/1.1\r\nContent-Length: 32\r\n\r\n" ++
    "SELECT * FROM users WHERE id = 12") with hstream
  obtain ⟨hend, hwords, hlines, hlast, hlong⟩ :
      headerEnd (stream.take httpMaxRequestSize) = some 40 ∧
      requestWords (headText stream 40) = [ascii "POST", ascii "/query", ascii "HTTP/1.1"] ∧
      LinesOk (readLines (headText stream 40)) ∧
      lastLength (readLines (headText stream 40)) = some 32 ∧
      (stream.drop 44).length = 33 := by
    decide
  rintro ⟨outcome, hreads, hlength, -⟩
  have hspec := QueryHead.outcome hend ⟨⟨_, _, hwords⟩, hlines, hlast⟩ hreads.outcome
  rw [if_neg (by decide), hlong, if_neg (by decide)] at hspec
  obtain ⟨request, rfl, -⟩ := hspec
  obtain ⟨error, herror, -⟩ := hlength (by decide)
  cases herror

/-! ### Texts -/

/-- **The text that is executed** is the whole body of an accepted request, unless there is a `NUL`
in it. -/
theorem sqlText_eq_body_iff (stream : List UInt8) (ending : StreamEnd) :
    ∃ outcome, HttpReads stream ending outcome ∧ ∀ request, outcome = .ok request →
      ∃ i text, headerEnd stream = some i ∧ request.sqlText = some text ∧
        (text = bodyBytes stream i request.contentLength ↔
          0 ∉ bodyBytes stream i request.contentLength) := by
  obtain ⟨outcome, houtcome⟩ := exists_httpOutcome stream ending
  refine ⟨outcome, houtcome.reads, ?_⟩
  rintro request rfl
  obtain ⟨i, hend, -, hmax, -, -, hlength, hbody⟩ := houtcome.accepted
  exact ⟨i, _, (headerEnd_of_take hend).1, hbody.sqlText (by omega), takeWhile_ne_zero_eq_iff⟩

/-- What stands behind a `NUL` is not looked at. -/
theorem sqlText_ne_body : ¬ ∃ outcome, HttpReads
    (ascii "POST /query HTTP/1.1\r\nContent-Length: 7\r\n\r\nEXIT\x00no") .closed outcome ∧
    ∀ request, outcome = .ok request → ∃ i text,
      headerEnd (ascii "POST /query HTTP/1.1\r\nContent-Length: 7\r\n\r\nEXIT\x00no") = some i ∧
        request.sqlText = some text ∧ text = bodyBytes
          (ascii "POST /query HTTP/1.1\r\nContent-Length: 7\r\n\r\nEXIT\x00no") i
          request.contentLength := by
  set stream := ascii "POST /query HTTP/1.1\r\nContent-Length: 7\r\n\r\nEXIT\x00no" with hstream
  obtain ⟨hend, hwords, hlines, hlast, hrest⟩ : headerEnd (stream.take httpMaxRequestSize) =
      some 39 ∧
      requestWords (headText stream 39) = [ascii "POST", ascii "/query", ascii "HTTP/1.1"] ∧
      LinesOk (readLines (headText stream 39)) ∧
      lastLength (readLines (headText stream 39)) = some 7 ∧
      stream.drop 43 = ascii "EXIT\x00no" := by
    decide
  rintro ⟨outcome, hreads, hwhole⟩
  have hspec := QueryHead.outcome hend ⟨⟨_, _, hwords⟩, hlines, hlast⟩ hreads.outcome
  rw [if_neg (by decide), hrest, if_neg (by decide)] at hspec
  obtain ⟨request, rfl, hlength, hbody⟩ := hspec
  obtain ⟨i, text, hi, htext, heq⟩ := hwhole request rfl
  rw [(headerEnd_of_take hend).1] at hi
  cases hi
  rw [hbody.sqlText (by decide), heq, hlength, bodyBytes, hrest] at htext
  exact absurd htext (by decide)

end MiniDbms
