import MiniDbms.Server.Http

/-!
# What an HTTP request is read as

`httpOutcome stream ending` says what `http_read_request` makes of the bytes of a client and of what
comes behind them, without a word on how `recv` hands them out: the head ends at the first
`\r\n\r\n` among the first 8192 bytes, and the body is the bytes right behind it.
`readUntilHeaderEnd_spec` and `readBody_spec` say what the two loops around `recv` have when they
are left, `httpReadRequest_eq` that the code computes `httpOutcome` for every segmentation.
-/

namespace MiniDbms

open CString CArray

/-! ### The end of the head -/

/-- `\r\n\r\n` -/
def blankLine : List UInt8 := [13, 10, 13, 10]

/-- Where the first `\r\n\r\n` starts. -/
def headerEnd (s : List UInt8) : Option ℕ :=
  (List.range s.length).find? fun i => (s.drop i).take 4 = blankLine

/-- A `\r\n\r\n` is four bytes long. -/
theorem le_of_blankLine {s : List UInt8} {i : ℕ} (h : (s.drop i).take 4 = blankLine) :
    i + 4 ≤ s.length := by
  have hlen := congrArg List.length h
  rw [List.length_take, List.length_drop, blankLine] at hlen
  simp only [List.length_cons, List.length_nil] at hlen
  omega

theorem headerEnd_eq_some_iff {s : List UInt8} {i : ℕ} :
    headerEnd s = some i ↔
      (s.drop i).take 4 = blankLine ∧ ∀ j < i, (s.drop j).take 4 ≠ blankLine := by
  rw [headerEnd, List.find?_range_eq_some]
  simp only [decide_eq_true_eq, List.mem_range, Bool.not_eq_true', decide_eq_false_iff_not]
  constructor
  · rintro ⟨h, -, hj⟩
    exact ⟨h, hj⟩
  · rintro ⟨h, hj⟩
    have hle := le_of_blankLine h
    exact ⟨h, by omega, hj⟩

theorem headerEnd_eq_none_iff {s : List UInt8} :
    headerEnd s = none ↔ ∀ i, (s.drop i).take 4 ≠ blankLine := by
  rw [headerEnd, List.find?_range_eq_none]
  simp only [Bool.not_eq_true', decide_eq_false_iff_not]
  refine ⟨fun h i hi => h i ?_ hi, fun h i _ => h i⟩
  have hle := le_of_blankLine hi
  omega

/-- A `\r\n\r\n` among the first bytes. -/
theorem blankLine_take_iff {s : List UInt8} {i k : ℕ} :
    ((s.take k).drop i).take 4 = blankLine ↔ (s.drop i).take 4 = blankLine ∧ i + 4 ≤ k := by
  constructor
  · intro h
    have hle := le_of_blankLine h
    rw [List.length_take] at hle
    rw [List.drop_take, List.take_take, min_eq_left (by omega)] at h
    exact ⟨h, by omega⟩
  · rintro ⟨h, hle⟩
    rwa [List.drop_take, List.take_take, min_eq_left (by omega)]

/-- More bytes do not move the end of the head. -/
theorem headerEnd_take {s : List UInt8} {i k : ℕ} (h : headerEnd (s.take k) = some i) {m : ℕ}
    (hkm : k ≤ m) : headerEnd (s.take m) = some i := by
  rw [headerEnd_eq_some_iff] at h ⊢
  obtain ⟨hi, hj⟩ := h
  rw [blankLine_take_iff] at hi
  refine ⟨blankLine_take_iff.mpr ⟨hi.1, by omega⟩, fun j hji hj' => hj j hji ?_⟩
  rw [blankLine_take_iff] at hj' ⊢
  exact ⟨hj'.1, by omega⟩

/-- The test at one index. -/
theorem isHeaderEnd_eq {n : ℕ} {buffer : CArray UInt8 n} {s : List UInt8} (h : buffer.Holds s)
    {i : ℕ} (hi : i + 3 < s.length) :
    isHeaderEnd buffer i = some (decide ((s.drop i).take 4 = blankLine)) := by
  have hdrop : (s.drop i).take 4 = [s[i], s[i + 1], s[i + 2], s[i + 3]] := by
    rw [List.drop_eq_getElem_cons (by omega), List.drop_eq_getElem_cons (by omega),
      List.drop_eq_getElem_cons (by omega), List.drop_eq_getElem_cons (by omega)]
    rfl
  have h0 := h.read (i := i) (by omega)
  have h1 := h.read (i := i + 1) (by omega)
  have h2 := h.read (i := i + 2) (by omega)
  have h3 := h.read (i := i + 3) (by omega)
  rw [hdrop, blankLine]
  simp only [isHeaderEnd, h0, h1, h2, h3, Option.bind_eq_bind, Option.bind_some, List.cons.injEq,
    and_true]
  split_ifs <;> simp_all

/-- **The loop over the bytes that were received** finds the end of the head. -/
theorem findHeaderEnd_eq {n : ℕ} {buffer : CArray UInt8 n} {s : List UInt8} (h : buffer.Holds s) :
    findHeaderEnd buffer s.length = some (headerEnd s) := by
  have htest : ∀ i, 0 ≤ i → i < 0 + (s.length - 3) → (isHeaderEnd buffer i).map (!·) =
      some (!decide ((s.drop i).take 4 = blankLine)) := fun i _ hi => by
    rw [isHeaderEnd_eq h (by omega), Option.map_some]
  obtain ⟨i, hrun, hle, hbefore, hat⟩ := scanUp_first
    (p := fun i => !decide ((s.drop i).take 4 = blankLine)) 0 (s.length - 3) htest
  unfold findHeaderEnd
  refine bind_eq_of_eq_some hrun ?_
  congr 1
  rw [Nat.zero_add] at hle hat
  have hbefore' : ∀ j < i, (s.drop j).take 4 ≠ blankLine := fun j hj => by
    simpa using hbefore j (Nat.zero_le j) hj
  split_ifs with hi
  · rw [eq_comm, headerEnd_eq_some_iff]
    exact ⟨by simpa using hat (by omega), hbefore'⟩
  · rw [eq_comm, headerEnd_eq_none_iff]
    intro j hj
    have hle' := le_of_blankLine hj
    exact hbefore' j (by omega) hj

/-! ### Receiving -/

/-- What a call of `recv` can do to a connection. -/
inductive Socket.RecvSpec (sock : Socket) (size : ℕ) : Received × Socket → Prop
  /-- It was interrupted. -/
  | interrupted {sock' : Socket} (stream : sock'.stream = sock.stream)
      (ending : sock'.ending = sock.ending) (cuts : sock'.cuts.length < sock.cuts.length) :
      RecvSpec sock size (.noBytes .interrupted, sock')
  /-- There were no bytes left. -/
  | ended {sock' : Socket} (stream : sock.stream = []) :
      RecvSpec sock size (.noBytes sock.ending.toRecvEnd, sock')
  /-- Some of the bytes were handed out. -/
  | bytes {sock' : Socket} {k : ℕ} (pos : 0 < k) (le : k ≤ size)
    (le_length : k ≤ sock.stream.length)
      (stream : sock'.stream = sock.stream.drop k) (ending : sock'.ending = sock.ending)
      (cuts : sock'.cuts.length ≤ sock.cuts.length) :
      RecvSpec sock size (.bytes (sock.stream.take k), sock')

theorem Socket.recvUpTo_spec (sock : Socket) {size limit : ℕ} (hpos : 0 < limit)
    (hle : limit ≤ size) {cuts : List Cut} (hcuts : cuts.length ≤ sock.cuts.length) :
    sock.RecvSpec size (Socket.recv.recvUpTo sock limit cuts) := by
  unfold Socket.recv.recvUpTo
  split_ifs with hs
  · exact .ended hs
  · have hlen := List.length_pos_iff.mpr hs
    have htake : sock.stream.take limit = sock.stream.take (min limit sock.stream.length) := by
      rw [List.take_eq_take_min]
    have hdrop : sock.stream.drop limit = sock.stream.drop (min limit sock.stream.length) := by
      rcases Nat.le_total limit sock.stream.length with h | h
      · rw [min_eq_left h]
      · rw [min_eq_right h, List.drop_eq_nil_of_le h, List.drop_length]
    rw [htake]
    exact .bytes (by omega) (by omega) (Nat.min_le_right _ _) hdrop rfl hcuts

theorem Socket.recv_spec (sock : Socket) {size : ℕ} (hsize : 0 < size) :
    sock.RecvSpec size (sock.recv size) := by
  unfold Socket.recv
  split
  · rename_i cuts hcuts
    exact .interrupted rfl rfl (by simp [hcuts])
  · rename_i more cuts hcuts
    exact sock.recvUpTo_spec (by omega) (Nat.min_le_right _ _) (by simp [hcuts])
  · exact sock.recvUpTo_spec hsize le_rfl (Nat.zero_le _)

/-! ### The loop that receives the head -/

/-- What `read_until_header_end` returns when there is no end of the head. -/
def StreamEnd.headRead (full : Prop) [Decidable full] : StreamEnd → HeadRead
  | .timedOut => if full then .failed else .timedOut
  | _ => .failed

/-- What `read_until_header_end` returns for the bytes `s` of a client. -/
def HeadReadSpec (s : List UInt8) (ending : StreamEnd) (cuts : List Cut) (r : HeadRead) : Prop :=
  match headerEnd (s.take httpMaxRequestSize) with
  | none => r = ending.headRead (httpMaxRequestSize ≤ s.length)
  | some i => ∃ buffer used sock, r = .found buffer used i sock ∧ buffer.Holds (s.take used) ∧
      i + 4 ≤ used ∧ used ≤ httpMaxRequestSize ∧ used ≤ s.length ∧ sock.stream = s.drop used ∧
      sock.ending = ending ∧ sock.cuts.length ≤ cuts.length

theorem HeadReadSpec.mono {s : List UInt8} {ending : StreamEnd} {cuts cuts' : List Cut}
    {r : HeadRead} (h : HeadReadSpec s ending cuts r) (hle : cuts.length ≤ cuts'.length) :
    HeadReadSpec s ending cuts' r := by
  unfold HeadReadSpec at h ⊢
  split at h
  · exact h
  · obtain ⟨buffer, used, sock, hr, hbuffer, hi, hused, hlen, hstream, hending, hcuts⟩ := h
    exact ⟨buffer, used, sock, hr, hbuffer, hi, hused, hlen, hstream, hending, hcuts.trans hle⟩

/-- **The loop around `recv`** ends, with the end of the head among the first 8192 bytes. -/
theorem readUntilHeaderEnd_spec (s : List UInt8) (ending : StreamEnd) (fuel : ℕ) {sock : Socket}
    {buffer : CArray UInt8 httpMaxRequestSize} {used : ℕ} (hstream : sock.stream = s.drop used)
    (hending : sock.ending = ending) (hbuffer : buffer.Holds (s.take used))
    (hused : used ≤ httpMaxRequestSize) (hle : used ≤ s.length)
    (hnone : headerEnd (s.take used) = none)
    (hfuel : sock.cuts.length + (s.length - used) < fuel) :
    ∃ r, readUntilHeaderEnd fuel sock buffer used = some r ∧
      HeadReadSpec s ending sock.cuts r := by
  induction fuel generalizing sock buffer used with
  | zero => exact absurd hfuel (Nat.not_lt_zero _)
  | succ fuel ih =>
    rw [readUntilHeaderEnd]
    by_cases hfull : used = httpMaxRequestSize
    · -- the buffer is full
      subst hfull
      refine ⟨.failed, if_pos rfl, ?_⟩
      rw [HeadReadSpec, hnone]
      cases ending <;> simp [StreamEnd.headRead, hle]
    rw [if_neg hfull]
    have hspec := sock.recv_spec (show 0 < httpMaxRequestSize - used by omega)
    generalize sock.recv (httpMaxRequestSize - used) = res at hspec
    cases hspec with
    | @interrupted sock' stream ending' cuts =>
      obtain ⟨r, hrun, hr⟩ := ih (stream.trans hstream) (ending'.trans hending) hbuffer hused hle
        hnone (by omega)
      exact ⟨r, hrun, hr.mono cuts.le⟩
    | ended stream =>
      -- all bytes of the client are in the buffer
      have hall : used = s.length := by
        rw [hstream, List.drop_eq_nil_iff] at stream
        omega
      have hshort : ¬ httpMaxRequestSize ≤ s.length := by omega
      refine ⟨ending.headRead (httpMaxRequestSize ≤ s.length), ?_, ?_⟩
      · rw [hending]
        cases ending <;> simp [StreamEnd.headRead, StreamEnd.toRecvEnd, hshort]
      · rw [HeadReadSpec, List.take_of_length_le (by omega),
          ← List.take_of_length_le (show s.length ≤ used by omega), hnone]
    | @bytes sock' k pos le le_length stream ending' cuts =>
      rw [hstream, List.length_drop] at le_length
      have hdata : (sock.stream.take k).length = k := by
        rw [hstream, List.length_take, List.length_drop]
        omega
      have happend : s.take used ++ sock.stream.take k = s.take (used + k) := by
        rw [hstream, ← List.take_add]
      have hlen : (s.take used).length = used := by
        rw [List.length_take]
        omega
      obtain ⟨buffer', hwrite, hbuffer'⟩ := hbuffer.writeAll (sock.stream.take k)
        (by rw [hlen, hdata]; omega)
      rw [hlen] at hwrite
      rw [happend] at hbuffer'
      have hlen' : (s.take (used + k)).length = used + k := by
        rw [List.length_take]
        omega
      have hfind := findHeaderEnd_eq hbuffer'
      rw [hlen'] at hfind
      simp only [hwrite, Option.bind_eq_bind, Option.bind_some, hdata, hfind]
      cases hend : headerEnd (s.take (used + k)) with
      | none =>
        have hrest : sock'.stream = s.drop (used + k) := by rw [stream, hstream, List.drop_drop]
        obtain ⟨r, hrun, hr⟩ := ih hrest (ending'.trans hending) hbuffer' (by omega) (by omega)
          hend (by omega)
        exact ⟨r, hrun, hr.mono cuts⟩
      | some i =>
        refine ⟨_, rfl, ?_⟩
        have hi : i + 4 ≤ used + k := by
          have h := le_of_blankLine (headerEnd_eq_some_iff.mp hend).1
          omega
        rw [HeadReadSpec, headerEnd_take hend (by omega)]
        exact ⟨buffer', used + k, sock', rfl, hbuffer', hi, by omega, by omega,
          by rw [stream, hstream, List.drop_drop], ending'.trans hending, cuts⟩

/-! ### The head -/

/-- A token takes bytes away. -/
theorem length_strtok_lt {isDelim : UInt8 → Bool} {s token rest : List UInt8}
    (h : strtok isDelim s = some (token, rest)) : rest.length < s.length := by
  unfold strtok at h
  have hle := (List.dropWhile_sublist isDelim (l := s)).length_le
  split at h
  · cases h
  · rename_i t ht
    cases h
    have hpos := List.length_pos_iff.mpr ht
    have hle' := (List.dropWhile_sublist (!isDelim ·) (l := s.dropWhile isDelim)).length_le
    rw [List.length_drop]
    omega

theorem httpHeaders_total {fuel : ℕ} {headers : List UInt8} (h : headers.length < fuel)
    (contentLength : Option ℕ) : ∃ r, httpHeaders fuel headers contentLength = some r := by
  induction fuel generalizing headers contentLength with
  | zero => exact absurd h (Nat.not_lt_zero _)
  | succ fuel ih =>
    rw [httpHeaders]
    cases htok : strtok (fun c => c == 13 || c == 10) headers with
    | none => exact ⟨_, rfl⟩
    | some token =>
      obtain ⟨line, rest⟩ := token
      have hlt := length_strtok_lt htok
      cases hline : httpHeaderLine line contentLength with
      | error error => exact ⟨.error error, by simp [hline]⟩
      | ok contentLength' =>
        obtain ⟨r, hr⟩ := ih (show rest.length < fuel by omega) contentLength'
        exact ⟨r, by simpa [hline] using hr⟩

/-- Every head is read to an end. -/
theorem httpParseHead_total (head : List UInt8) : ∃ r, httpParseHead head = some r := by
  unfold httpParseHead
  split
  · exact ⟨_, rfl⟩
  · rename_i suffix hs
    dsimp only
    split
    · exact ⟨_, rfl⟩
    · split_ifs
      · exact ⟨_, rfl⟩
      · exact ⟨_, rfl⟩
      · obtain ⟨r, hr⟩ := httpHeaders_total (Nat.lt_succ_self (suffix.drop 2).length) none
        rw [hr]
        exact ⟨_, rfl⟩

/-! ### The loop that receives the body -/

/-- A body of which these bytes were received. -/
def BodyHolds (body : CArray UInt8 (httpMaxBodySize + 1)) (received : List UInt8) : Prop :=
  ∀ i, body.read i = if i < received.length then received[i]?
    else if i < httpMaxBodySize + 1 then some 0 else none

theorem bodyHolds_nil : BodyHolds (.filled _ 0) [] := by
  intro i
  simp [CArray.filled, CArray.read, List.getElem?_replicate]
  split_ifs <;> rfl

/-- The next bytes are put behind those that were received. -/
theorem BodyHolds.writeAll {body : CArray UInt8 (httpMaxBodySize + 1)} {received : List UInt8}
    (h : BodyHolds body received) (data : List UInt8)
    (hle : received.length + data.length ≤ httpMaxBodySize) :
    ∃ body', CArray.writeAll data received.length body = some body' ∧
      BodyHolds body' (received ++ data) := by
  obtain ⟨body', hrun, hr⟩ := writeAll_spec (i := received.length) data body (by omega)
  refine ⟨body', hrun, fun i => ?_⟩
  rw [hr, h i, List.length_append]
  rcases Nat.lt_or_ge i received.length with hlt | hge
  · rw [if_neg (by omega), if_pos hlt, if_pos (by omega), List.getElem?_append_left hlt]
  · rw [List.getElem?_append_right hge, if_neg (not_lt.mpr hge)]
    exact if_congr (by omega) rfl rfl

/-- The byte behind the body is `NUL` already. -/
theorem BodyHolds.write_end {body : CArray UInt8 (httpMaxBodySize + 1)} {received : List UInt8}
    (h : BodyHolds body received) (hle : received.length ≤ httpMaxBodySize) :
    body.write received.length 0 = some body := by
  obtain ⟨body', hrun, hr⟩ := body.write_spec 0 (i := received.length) (by omega)
  rw [hrun]
  congr 1
  refine ext_read fun i => ?_
  rw [hr]
  split_ifs with hi
  · rw [h i, if_neg (by omega), if_pos (by omega)]
  · rfl

theorem BodyHolds.unique {body body' : CArray UInt8 (httpMaxBodySize + 1)} {received : List UInt8}
    (h : BodyHolds body received) (h' : BodyHolds body' received) : body = body' :=
  ext_read fun i => (h i).trans (h' i).symm

/-- The answer when the bytes of a client end before its body does. -/
def StreamEnd.bodyError : StreamEnd → HttpError
  | .timedOut => ⟨408, ascii "Request timed out"⟩
  | .failed => ⟨400, ascii "Failed to read request body"⟩
  | .closed => ⟨400, ascii "Incomplete request body"⟩

/-- **The loop around `recv`** ends, with the bytes of the body if there are enough. -/
theorem readBody_spec (contentLength : ℕ) (want : List UInt8) (ending : StreamEnd) (fuel : ℕ)
    (hmax : contentLength ≤ httpMaxBodySize) (hwant : want.length ≤ contentLength) {sock : Socket}
    {body : CArray UInt8 (httpMaxBodySize + 1)} {available : ℕ} (havail : available ≤ want.length)
    (hbody : BodyHolds body (want.take available))
    (hstream : sock.stream.take (contentLength - available) = want.drop available)
    (hending : sock.ending = ending)
    (hfuel : sock.cuts.length + (contentLength - available) < fuel) :
    ∃ r, readBody contentLength fuel sock body available = some r ∧
      if want.length = contentLength then ∃ body', r = .ok body' ∧ BodyHolds body' want
      else r = .error ending.bodyError := by
  induction fuel generalizing sock body available with
  | zero => exact absurd hfuel (Nat.not_lt_zero _)
  | succ fuel ih =>
    rw [readBody]
    by_cases hfull : available < contentLength
    · rw [if_pos hfull]
      have hspec := sock.recv_spec (show 0 < contentLength - available by omega)
      generalize sock.recv (contentLength - available) = res at hspec
      cases hspec with
      | @interrupted sock' stream ending' cuts =>
        exact ih havail hbody (stream ▸ hstream) (ending'.trans hending) (by omega)
      | ended stream =>
        -- the bytes of the client end here
        rw [stream, List.take_nil, eq_comm, List.drop_eq_nil_iff] at hstream
        refine ⟨.error ending.bodyError, ?_, by rw [if_neg (by omega)]⟩
        rw [hending]
        cases ending <;> rfl
      | @bytes sock' k pos le le_length stream ending' cuts =>
        have hdata : (sock.stream.take k).length = k := by
          rw [List.length_take]
          omega
        have hnext : sock.stream.take k = (want.drop available).take k := by
          rw [← hstream, List.take_take, min_eq_left le]
        have hk : available + k ≤ want.length := by
          have h := congrArg List.length hnext
          rw [hdata, List.length_take, List.length_drop] at h
          omega
        have hlen : (want.take available).length = available := by
          rw [List.length_take]
          omega
        obtain ⟨body', hwrite, hbody'⟩ := hbody.writeAll (sock.stream.take k)
          (by rw [hlen, hdata]; omega)
        rw [hlen] at hwrite
        rw [hnext, ← List.take_add] at hbody'
        simp only [hwrite, Option.bind_eq_bind, Option.bind_some, hdata]
        refine ih hk hbody' ?_ (ending'.trans hending) (by omega)
        rw [stream, ← List.drop_drop, ← hstream, List.drop_take]
        congr 1
        omega
    · have hall : available = want.length := by omega
      subst hall
      rw [List.take_length] at hbody
      exact ⟨.ok body, if_neg hfull, by rw [if_pos (by omega)]; exact ⟨body, rfl, hbody⟩⟩

/-! ### The whole request -/

/-- The string in the buffer: the head up to its end, or to a `NUL` in it. -/
def headText (s : List UInt8) (i : ℕ) : List UInt8 := (s.take i).takeWhile (· ≠ 0)

/-- The bytes of the body, behind a head that ends at `i`. -/
def bodyBytes (s : List UInt8) (i contentLength : ℕ) : List UInt8 :=
  (s.drop (i + 4)).take contentLength

/-- The answer when the head of a request does not end. -/
def StreamEnd.headError (full : Prop) [Decidable full] : StreamEnd → HttpError
  | .timedOut => if full then ⟨400, ascii "Malformed HTTP request"⟩
      else ⟨408, ascii "Request timed out"⟩
  | _ => ⟨400, ascii "Malformed HTTP request"⟩

/-- What `http_read_request` makes of the bytes `s` of a client and of their end. -/
inductive HttpOutcome (s : List UInt8) (ending : StreamEnd) : Except HttpError HttpRequest → Prop
  | noHead (noEnd : headerEnd (s.take httpMaxRequestSize) = none) :
    HttpOutcome s ending (.error (ending.headError (httpMaxRequestSize ≤ s.length)))
  | badHead {i : ℕ} {error : HttpError} (head_end : headerEnd (s.take httpMaxRequestSize) = some i)
    (parse : httpParseHead (headText s i) = some (.error error)) :
    HttpOutcome s ending (.error error)
  | shortBody {i : ℕ} {head : HttpHead}
    (head_end : headerEnd (s.take httpMaxRequestSize) = some i)
    (parse : httpParseHead (headText s i) = some (.ok head))
    (short : (bodyBytes s i head.contentLength).length ≠ head.contentLength) :
    HttpOutcome s ending (.error ending.bodyError)
  | request {i : ℕ} {head : HttpHead} {body : CArray UInt8 (httpMaxBodySize + 1)}
    (head_end : headerEnd (s.take httpMaxRequestSize) = some i)
    (parse : httpParseHead (headText s i) = some (.ok head))
    (length : (bodyBytes s i head.contentLength).length = head.contentLength)
    (holds : BodyHolds body (bodyBytes s i head.contentLength)) :
    HttpOutcome s ending (.ok ⟨head.method, head.path, head.version, head.contentLength, body⟩)

/-- A request has a complete head and a complete body. -/
theorem HttpOutcome.complete {s : List UInt8} {ending : StreamEnd} {request : HttpRequest}
    (h : HttpOutcome s ending (.ok request)) :
    ∃ (i : ℕ) (head : HttpHead), headerEnd (s.take httpMaxRequestSize) = some i ∧
      httpParseHead (headText s i) = some (.ok head) ∧
      request = ⟨head.method, head.path, head.version, head.contentLength, request.body⟩ ∧
      (bodyBytes s i head.contentLength).length = head.contentLength ∧
      BodyHolds request.body (bodyBytes s i head.contentLength) := by
  generalize hr : Except.ok request = r at h
  cases h with
  | noHead noEnd => cases hr
  | badHead head_end parse => cases hr
  | shortBody head_end parse short => cases hr
  | @request i head body head_end parse length holds =>
    cases hr
    exact ⟨i, head, head_end, parse, rfl, length, holds⟩

/-- There is one outcome. -/
theorem HttpOutcome.unique {s : List UInt8} {ending : StreamEnd}
    {r r' : Except HttpError HttpRequest} (h : HttpOutcome s ending r)
    (h' : HttpOutcome s ending r') : r = r' := by
  cases h <;> cases h' <;> simp_all
  exact BodyHolds.unique ‹_› ‹_›

/-- The head that the parser accepts announces a body that fits. -/
theorem httpParseHead_contentLength {s : List UInt8} {head : HttpHead}
    (h : httpParseHead s = some (.ok head)) : head.contentLength ≤ httpMaxBodySize := by
  unfold httpParseHead at h
  split at h
  · cases h
  · dsimp only at h
    split at h
    · cases h
    · split_ifs at h
      · cases h
      · cases h
      · obtain ⟨r, hr, h⟩ := Option.map_eq_some_iff.mp h
        split at h
        · cases h
        · cases h
        · split_ifs at h with hlen
          cases h
          exact not_lt.mp hlen

/-- The text of the head, as the string functions see it. -/
theorem readString_head {buffer : CArray UInt8 httpMaxRequestSize} {s : List UInt8} {used i : ℕ}
    (h : buffer.Holds (s.take used)) (hi : i + 4 ≤ used) (hused : used ≤ httpMaxRequestSize)
    (hle : used ≤ s.length) :
    ∃ buffer', buffer.write i 0 = some buffer' ∧
      buffer'.readString 0 httpMaxRequestSize = some (headText s i) ∧
      ∀ count, i + 4 + count ≤ used →
        buffer'.readAll (i + 4) count = some ((s.drop (i + 4)).take count) := by
  obtain ⟨buffer', hwrite, hr⟩ := buffer.write_spec 0 (i := i) (by omega)
  have hlen : (s.take i).length = i := by
    rw [List.length_take]
    omega
  have hold : ∀ j, j < used → buffer.read j = s[j]? := fun j hj => by
    rw [List.getElem?_eq_getElem (by omega)]
    refine h j _ ?_
    rw [List.getElem?_take, if_pos hj, List.getElem?_eq_getElem (by omega)]
  refine ⟨buffer', hwrite, readString_eq (s.take i) (fun j c hc => ?_) (by omega),
    fun count hcount => ?_⟩
  · rw [Nat.zero_add, hr]
    rcases lt_trichotomy j i with hj | rfl | hj
    · rw [List.getElem?_append_left (by omega), List.getElem?_take, if_pos hj] at hc
      rw [if_neg hj.ne, hold j (by omega), hc]
    · rw [List.getElem?_append_right hlen.le, hlen, Nat.sub_self] at hc
      rw [if_pos rfl]
      exact hc
    · rw [List.getElem?_eq_none (by simp; omega)] at hc
      cases hc
  · -- the `NUL` is not among the bytes behind the head
    have hset : buffer'.Holds ((s.take used).set i 0) := fun j x hx => by
      rw [hr]
      rcases eq_or_ne j i with rfl | hj
      · rw [List.getElem?_set_self (by rw [List.length_take]; omega)] at hx
        rw [if_pos rfl, hx]
      · rw [List.getElem?_set_ne hj.symm] at hx
        rw [if_neg hj, h j x hx]
    rw [hset.readAll (by rw [List.length_set, List.length_take]; omega),
      List.drop_set_of_lt (by omega), List.drop_take, List.take_take, min_eq_left (by omega)]

/-- **Reading a request** ends, and has the outcome that the bytes of the client determine. -/
theorem httpReadRequest_eq (s : List UInt8) (ending : StreamEnd) (cuts : List Cut) {fuel : ℕ}
    (hfuel : cuts.length + s.length + httpMaxBodySize < fuel) :
    ∃ r, httpReadRequest fuel ⟨s, ending, cuts⟩ = some r ∧ HttpOutcome s ending r := by
  have hstart : headerEnd (s.take 0) = none := rfl
  obtain ⟨read, hread, hspec⟩ := readUntilHeaderEnd_spec s ending fuel
    (show (⟨s, ending, cuts⟩ : Socket).stream = s.drop 0 from rfl) rfl
    (holds_nil (CArray.uninit UInt8 httpMaxRequestSize)) (Nat.zero_le _) (Nat.zero_le _) hstart
    (show cuts.length + (s.length - 0) < fuel by omega)
  unfold httpReadRequest
  rw [hread, Option.bind_eq_bind, Option.bind_some]
  unfold HeadReadSpec at hspec
  split at hspec
  · rename_i hend
    subst hspec
    refine ⟨_, ?_, .noHead hend⟩
    cases ending <;> simp only [StreamEnd.headRead, StreamEnd.headError]
    split_ifs <;> rfl
  · rename_i i hend
    obtain ⟨buffer, used, sock, rfl, hbuffer, hi, hused, hle, hstream, hending, hcuts⟩ := hspec
    obtain ⟨buffer', hwrite, hstring, hblock⟩ := readString_head hbuffer hi hused hle
    obtain ⟨parsed, hparse⟩ := httpParseHead_total (headText s i)
    simp only [hwrite, hstring, hparse, Option.bind_eq_bind, Option.bind_some]
    cases parsed with
    | error error => exact ⟨_, rfl, .badHead hend hparse⟩
    | ok head =>
      have hmax := httpParseHead_contentLength hparse
      dsimp only
      generalize havail : min (if used > i + 4 then used - (i + 4) else 0) head.contentLength =
        available
      have havail' : available ≤ head.contentLength ∧ i + 4 + available ≤ used := by
        rw [← havail]
        split_ifs <;> omega
      have hlen : (bodyBytes s i head.contentLength).length =
          min head.contentLength (s.length - (i + 4)) := by
        rw [bodyBytes, List.length_take, List.length_drop]
      have htake : (s.drop (i + 4)).take available =
          (bodyBytes s i head.contentLength).take available := by
        rw [bodyBytes, List.take_take, min_eq_left havail'.1]
      rw [hblock available havail'.2, htake, Option.bind_some]
      obtain ⟨body, hcopy, hbody⟩ := bodyHolds_nil.writeAll
        ((bodyBytes s i head.contentLength).take available)
        (by rw [List.length_nil, List.length_take]; omega)
      rw [List.nil_append] at hbody
      rw [List.length_nil] at hcopy
      rw [hcopy, Option.bind_some]
      -- the socket goes on where the buffer ends, or the body is complete
      have hrest : sock.stream.take (head.contentLength - available) =
          (bodyBytes s i head.contentLength).drop available := by
        rw [bodyBytes, hstream, List.drop_take, List.drop_drop]
        rcases Nat.lt_or_ge available head.contentLength with hlt | hge
        · rw [show i + 4 + available = used by split_ifs at havail <;> omega]
        · rw [Nat.sub_eq_zero_of_le hge, List.take_zero, List.take_zero]
      obtain ⟨r, hrun, hr⟩ := readBody_spec head.contentLength (bodyBytes s i head.contentLength)
        ending fuel hmax (by omega) (by omega) hbody hrest hending (by
          have : sock.cuts.length ≤ cuts.length := hcuts
          omega)
      rw [hrun, Option.bind_some]
      split_ifs at hr with hfull
      · obtain ⟨body', rfl, hbody'⟩ := hr
        have hend' := hbody'.write_end (by omega)
        rw [hfull] at hend'
        exact ⟨_, bind_eq_of_eq_some hend' rfl, .request hend hparse hfull hbody'⟩
      · subst hr
        exact ⟨_, rfl, .shortBody hend hparse hfull⟩

/-- **Segmentation**: for all bytes of a client and every end of them, there is one outcome that
`http_read_request` has in the end, however `recv` cuts the bytes and wherever it is interrupted. -/
theorem httpReadRequest_segmentation (stream : List UInt8) (ending : StreamEnd) :
    ∃ outcome, ∀ cuts, ∃ enough, ∀ more,
      httpReadRequest (enough + more) ⟨stream, ending, cuts⟩ = some outcome := by
  obtain ⟨outcome, -, houtcome⟩ := httpReadRequest_eq stream ending [] (Nat.lt_succ_self _)
  refine ⟨outcome, fun cuts =>
    ⟨cuts.length + stream.length + httpMaxBodySize + 1, fun more => ?_⟩⟩
  obtain ⟨r, hrun, hr⟩ := httpReadRequest_eq stream ending cuts
    (show _ < cuts.length + stream.length + httpMaxBodySize + 1 + more by omega)
  rw [hrun, hr.unique houtcome]

end MiniDbms
