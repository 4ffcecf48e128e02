import MiniDbms.Server.Equiv.Send

/-!
# Responses are delivered whole or as a prefix

However the connection takes its bytes, a response arrives without gap or repetition, and whole if
and only if `http_send_response` returns 1 (`http_send_response_delivers`).

What was sent when `SIGPIPE` ended the process is what is sent when the signal is ignored: `send`
fails then, and the function returns 0 at once (`sendAll_ignoring`).
-/

namespace MiniDbms

open CString

/-! ### Without `SIGPIPE` -/

/-- The dispositions of a process that ignores `SIGPIPE`. -/
def ignoring (dispositions : Dispositions) : Dispositions :=
  Function.update dispositions .pipe .ignore

variable {dispositions : Dispositions}

theorem ignoring_pipe (dispositions : Dispositions) :
    ignoring dispositions .pipe ≠ .default := by
  rw [ignoring, Function.update_self]
  exact nofun

/-- `r'` is what happens when the signal is ignored, if `r` happens when it may not be. -/
inductive Ignoring (dispositions : Dispositions) (outcomes : List SendOutcome) :
    Except Signal (Bool × Wire) → Except Signal (Bool × Wire) → Prop
  | same (r : Bool × Wire) : Ignoring dispositions outcomes (.ok r) (.ok r)
  | terminated {wire : Wire} (default : dispositions .pipe = .default)
    (closed : .closed ∈ outcomes) :
    Ignoring dispositions outcomes (.error .pipe) (.ok (false, wire))

theorem Ignoring.mono {outcomes outcomes' : List SendOutcome}
    {r r' : Except Signal (Bool × Wire)} (h : Ignoring dispositions outcomes r r')
    (hmem : ∀ outcome ∈ outcomes, outcome ∈ outcomes') : Ignoring dispositions outcomes' r r' := by
  cases h with
  | same r => exact .same r
  | terminated hdefault hclosed => exact .terminated hdefault (hmem _ hclosed)

/-! ### The loop -/

/-- The bytes `data` arrived, or a prefix of them when the function returns 0. -/
def Delivers (wire : Wire) (data : List UInt8) (r : Bool × Wire) : Prop :=
  ∃ sent, r.2.sent = wire.sent ++ sent ∧ sent <+: data ∧ (r.1 = true ↔ sent = data)

variable {wire wire' : Wire} {data : List UInt8}

theorem delivers_nothing (hne : data ≠ []) (hsent : wire'.sent = wire.sent) :
    Delivers wire data (false, wire') :=
  ⟨[], by rw [hsent, List.append_nil], List.nil_prefix, iff_of_false nofun (Ne.symm hne)⟩

/-- A first piece is sent, and then the rest. -/
theorem Delivers.cons {piece rest : List UInt8} {r : Bool × Wire}
    (hsent : wire'.sent = wire.sent ++ piece) (h : Delivers wire' rest r) :
    Delivers wire (piece ++ rest) r := by
  obtain ⟨sent, heq, hprefix, hiff⟩ := h
  refine ⟨piece ++ sent, ?_, (List.prefix_append_right_inj piece).mpr hprefix, ?_⟩
  · rw [heq, hsent, List.append_assoc]
  · rw [hiff, List.append_cancel_left_eq]

/-- Sending stopped in the first piece. -/
theorem Delivers.stopped {piece : List UInt8} (h : Delivers wire piece (false, wire'))
    (rest : List UInt8) : Delivers wire (piece ++ rest) (false, wire') := by
  obtain ⟨sent, heq, hprefix, hiff⟩ := h
  refine ⟨sent, heq, hprefix.trans (List.prefix_append piece rest), iff_of_false nofun ?_⟩
  rintro rfl
  -- a prefix of the piece that is at least as long is the piece
  have hle := hprefix.length_le
  rw [List.length_append] at hle
  have hrest : rest = [] := List.eq_nil_of_length_eq_zero (by omega)
  rw [hrest, List.append_nil] at hiff
  cases hiff.mpr rfl

/-- What is left behind the first `m` bytes that are not sent yet. -/
theorem drop_drop_min (data : List UInt8) (sent m : ℕ) :
    (data.drop sent).drop m = data.drop (sent + min m (data.drop sent).length) := by
  rcases Nat.le_total m (data.drop sent).length with hle | hle
  · rw [min_eq_left hle, List.drop_drop]
  · have hlength : (data.drop sent).length = data.length - sent := List.length_drop
    rw [min_eq_right hle, List.drop_eq_nil_of_le hle, List.drop_eq_nil_of_le (by omega)]

/-- **The loop of `send_all` sends the bytes in order**, however they are taken. -/
theorem sendAll_delivers (dispositions : Dispositions) (data : List UInt8) (fuel : ℕ) (wire : Wire)
    (sent : ℕ) (hfuel : wire.outcomes.length + 1 < fuel) :
    ∃ r, sendAll (ignoring dispositions) data fuel wire sent = some (.ok r) ∧
      r.2.outcomes <:+ wire.outcomes ∧ Delivers wire (data.drop sent) r := by
  induction fuel generalizing wire sent with
  | zero => omega
  | succ fuel ih =>
    rw [sendAll]
    by_cases hlt : sent < data.length
    · rw [if_pos hlt]
      have hlength : (data.drop sent).length = data.length - sent := List.length_drop
      have hne : data.drop sent ≠ [] := List.ne_nil_of_length_pos (by omega)
      obtain ⟨bytes, outcomes⟩ := wire
      cases outcomes with
      | nil =>
        -- `send` takes everything, and the next test ends the loop
        obtain ⟨fuel, rfl⟩ := Nat.exists_eq_add_one.mpr (show 0 < fuel from by
          rw [List.length_nil] at hfuel
          omega)
        refine ⟨(true, ⟨bytes ++ data.drop sent, []⟩), ?_, List.suffix_rfl, data.drop sent, rfl,
          List.prefix_rfl, iff_of_true rfl rfl⟩
        rw [Wire.send]
        dsimp only
        rw [hlength, if_neg (by omega), sendAll, if_neg (by omega)]
      | cons outcome outcomes =>
        rw [List.length_cons] at hfuel
        have hsuffix : outcomes <:+ outcome :: outcomes := List.suffix_cons outcome outcomes
        cases outcome with
        | take more =>
          have hcount : min (more + 1) (data.drop sent).length ≠ 0 := by omega
          obtain ⟨r, hrun, hle, hr⟩ := ih ⟨bytes ++ (data.drop sent).take (more + 1), outcomes⟩
            (sent + min (more + 1) (data.drop sent).length) (by dsimp only; omega)
          refine ⟨r, (if_neg hcount).trans hrun, hle.trans hsuffix, ?_⟩
          -- what is left behind the bytes that were taken
          have hsplit : data.drop sent = (data.drop sent).take (more + 1) ++
              data.drop (sent + min (more + 1) (data.drop sent).length) := by
            rw [← drop_drop_min, List.take_append_drop]
          rw [hsplit]
          exact hr.cons rfl
        | zero => exact ⟨_, if_pos rfl, hsuffix, delivers_nothing hne rfl⟩
        | interrupted =>
          -- `continue`
          obtain ⟨r, hrun, hle, hr⟩ := ih ⟨bytes, outcomes⟩ sent (by dsimp only; omega)
          exact ⟨r, hrun, hle.trans hsuffix, hr⟩
        | failed => exact ⟨_, rfl, hsuffix, delivers_nothing hne rfl⟩
        | closed =>
          -- without the signal it is an error like the others
          have hsend : (⟨bytes, .closed :: outcomes⟩ : Wire).send (ignoring dispositions)
              (data.drop sent) = .ok (.failed, ⟨bytes, outcomes⟩) := by
            rw [Wire.send]
            exact if_neg (ignoring_pipe dispositions)
          rw [hsend]
          exact ⟨_, rfl, hsuffix, delivers_nothing hne rfl⟩
    · rw [if_neg hlt, List.drop_eq_nil_of_le (by omega)]
      exact ⟨_, rfl, List.suffix_rfl, [], (List.append_nil _).symm, List.prefix_rfl,
        iff_of_true rfl rfl⟩

/-- The signal changes nothing before it ends the process. -/
theorem sendAll_ignoring {fuel : ℕ} {sent : ℕ} {r' : Except Signal (Bool × Wire)}
    (h : sendAll (ignoring dispositions) data fuel wire sent = some r') :
    ∃ r, sendAll dispositions data fuel wire sent = some r ∧
      Ignoring dispositions wire.outcomes r r' := by
  induction fuel generalizing wire sent with
  | zero => cases h
  | succ fuel ih =>
    rw [sendAll] at h ⊢
    by_cases hlt : sent < data.length
    · rw [if_pos hlt] at h ⊢
      obtain ⟨bytes, outcomes⟩ := wire
      cases outcomes with
      | nil =>
        dsimp only [Wire.send] at h ⊢
        split at h
        · rename_i hzero
          cases h
          exact ⟨_, if_pos hzero, .same _⟩
        · rename_i hne
          obtain ⟨r, hrun, hr⟩ := ih h
          exact ⟨r, (if_neg hne).trans hrun, hr⟩
      | cons outcome outcomes =>
        have hcons : ∀ o ∈ outcomes, o ∈ outcome :: outcomes := fun o => List.mem_cons_of_mem _
        cases outcome with
        | take more =>
          dsimp only [Wire.send] at h ⊢
          split at h
          · rename_i hzero
            cases h
            exact ⟨_, if_pos hzero, .same _⟩
          · rename_i hne
            obtain ⟨r, hrun, hr⟩ := ih h
            exact ⟨r, (if_neg hne).trans hrun, hr.mono hcons⟩
        | zero =>
          cases h
          exact ⟨_, rfl, .same _⟩
        | interrupted =>
          obtain ⟨r, hrun, hr⟩ := ih h
          exact ⟨r, hrun, hr.mono hcons⟩
        | failed =>
          cases h
          exact ⟨_, rfl, .same _⟩
        | closed =>
          -- the only outcome on which the two differ
          dsimp only [Wire.send] at h ⊢
          rw [if_neg (ignoring_pipe dispositions)] at h
          cases h
          by_cases hpipe : dispositions .pipe = .default
          · rw [if_pos hpipe]
            exact ⟨_, rfl, .terminated hpipe List.mem_cons_self⟩
          · rw [if_neg hpipe]
            exact ⟨_, rfl, .same _⟩
    · rw [if_neg hlt] at h ⊢
      cases h
      exact ⟨_, rfl, .same _⟩

/-! ### The response -/

/-- The bytes of a response. -/
def httpResponse (statusCode : ℤ) (contentType body : Option (List UInt8)) : List UInt8 :=
  httpHeader statusCode (contentType.getD (ascii "text/plain; charset=utf-8"))
    (body.getD []).length ++ body.getD []

theorem httpHeader_ne_nil (statusCode : ℤ) (contentType : List UInt8) (n : ℕ) :
    httpHeader statusCode contentType n ≠ [] := by
  unfold httpHeader
  simp only [List.append_assoc]
  exact fun h => ascii_ne_nil (by decide) (List.append_eq_nil_iff.mp h).1

/-- The response when `SIGPIPE` is ignored. -/
theorem httpSendResponse_delivers (dispositions : Dispositions) {fuel : ℕ}
    (hfuel : wire.outcomes.length + 1 < fuel) (statusCode : ℤ)
    (contentType body : Option (List UInt8)) :
    ∃ r, httpSendResponse (ignoring dispositions) fuel wire statusCode contentType body =
        some (.ok r) ∧
      Delivers wire (httpResponse statusCode contentType body) r := by
  unfold httpSendResponse httpResponse
  dsimp only
  generalize hheader : httpHeader statusCode (contentType.getD (ascii "text/plain; charset=utf-8"))
    (body.getD []).length = header
  have hne : header ≠ [] := hheader ▸ httpHeader_ne_nil _ _ _
  split
  · -- `snprintf` had no room for the header
    exact ⟨_, rfl, delivers_nothing (fun h => hne (List.append_eq_nil_iff.mp h).1) rfl⟩
  · obtain ⟨⟨ok, wire₁⟩, hrun₁, hsuffix, hdelivers₁⟩ :=
      sendAll_delivers dispositions header fuel wire 0 hfuel
    rw [hrun₁, Option.bind_eq_bind, Option.bind_some]
    cases ok with
    | false => exact ⟨_, rfl, hdelivers₁.stopped _⟩
    | true =>
      -- the header is sent, and the body follows on the same connection
      have hle : wire₁.outcomes.length ≤ wire.outcomes.length := hsuffix.length_le
      obtain ⟨r, hrun₂, -, hdelivers₂⟩ :=
        sendAll_delivers dispositions (body.getD []) fuel wire₁ 0 (by omega)
      obtain ⟨sent, hsent, -, hall⟩ := hdelivers₁
      rw [hall.mp rfl] at hsent
      exact ⟨r, hrun₂, hdelivers₂.cons hsent⟩

/-- The response when the signal may end the process. -/
theorem httpSendResponse_ignoring {fuel : ℕ} (hfuel : wire.outcomes.length + 1 < fuel)
    {statusCode : ℤ} {contentType body : Option (List UInt8)} {r' : Except Signal (Bool × Wire)}
    (h : httpSendResponse (ignoring dispositions) fuel wire statusCode contentType body = some r') :
    ∃ r, httpSendResponse dispositions fuel wire statusCode contentType body = some r ∧
      Ignoring dispositions wire.outcomes r r' := by
  unfold httpSendResponse at h ⊢
  dsimp only at h ⊢
  generalize httpHeader statusCode (contentType.getD (ascii "text/plain; charset=utf-8"))
    (body.getD []).length = header at h ⊢
  split at h
  · rename_i hlong
    rw [if_pos hlong]
    cases h
    exact ⟨_, rfl, .same _⟩
  · rename_i hlong
    rw [if_neg hlong]
    obtain ⟨⟨ok, wire₁⟩, hrun₁', hsuffix, -⟩ :=
      sendAll_delivers dispositions header fuel wire 0 hfuel
    rw [hrun₁', Option.bind_eq_bind, Option.bind_some] at h
    obtain ⟨r₁, hrun₁, hr₁⟩ := sendAll_ignoring hrun₁'
    rw [hrun₁, Option.bind_eq_bind, Option.bind_some]
    cases hr₁ with
    | terminated hdefault hclosed =>
      cases h
      exact ⟨_, rfl, .terminated hdefault hclosed⟩
    | same =>
      cases ok with
      | false =>
        cases h
        exact ⟨_, rfl, .same _⟩
      | true =>
        obtain ⟨r, hrun₂, hr₂⟩ := sendAll_ignoring h
        exact ⟨r, hrun₂, hr₂.mono fun _ hmem => hsuffix.subset hmem⟩

/-! ### Whole, or a prefix -/

/-- For every sequence of results of `send`: the function returns, or `SIGPIPE` ends the process;
the bytes sent are a prefix of the response, and the whole response if and only if the result is 1;
and the header says how many bytes the body has. -/
theorem http_send_response_whole_or_prefix (dispositions : Dispositions) {fuel : ℕ} {wire : Wire}
    (hfuel : wire.outcomes.length + 1 < fuel) (statusCode : ℤ)
    (contentType body : Option (List UInt8)) :
    (∃ r r', httpSendResponse dispositions fuel wire statusCode contentType body = some r ∧
      httpSendResponse (ignoring dispositions) fuel wire statusCode contentType body =
        some (.ok r') ∧
      Ignoring dispositions wire.outcomes r (.ok r') ∧
      Delivers wire (httpResponse statusCode contentType body) r') ∧
    ∃ digits, httpResponse statusCode contentType body =
        ascii "HTTP/1.1 " ++ intText statusCode ++ ascii " " ++ httpStatusReason statusCode ++
          ascii "\r\nContent-Type: " ++
          contentType.getD (ascii "text/plain; charset=utf-8") ++
          ascii "\r\nContent-Length: " ++ digits ++
          ascii "\r\nConnection: close\r\n\r\n" ++ body.getD [] ∧
      (∀ c ∈ digits, isdigit c = true) ∧ digitsValue digits = (body.getD []).length := by
  obtain ⟨r', hrun', hdelivers⟩ := httpSendResponse_delivers dispositions hfuel
    statusCode contentType body
  obtain ⟨r, hrun, hr⟩ := httpSendResponse_ignoring hfuel hrun'
  exact ⟨⟨r, r', hrun, hrun', hr, hdelivers⟩, decimalDigits (body.getD []).length, rfl,
    isdigit_decimalDigits, digitsValue_decimalDigits _⟩

/-- The connection takes ten bytes, is interrupted, and takes the rest. -/
def piecesWire : Wire := ⟨[], [.take 9, .interrupted]⟩

theorem http_send_response_whole_or_prefix_pieces :
    ∃ wire, httpSendResponse (installSignalHandlers fun _ => .default) 5 piecesWire 200 none
        (some (ascii "ok")) = some (.ok (true, wire)) ∧
      wire.sent = httpResponse 200 none (some (ascii "ok")) := by
  obtain ⟨⟨r, r', hrun, -, hr, sent, hsent, -, hall⟩, -⟩ := http_send_response_whole_or_prefix
    (installSignalHandlers fun _ => .default) (show piecesWire.outcomes.length + 1 < 5 by decide)
    200 none (some (ascii "ok"))
  have hok : (httpSendResponse (installSignalHandlers fun _ => .default) 5 piecesWire 200 none
      (some (ascii "ok"))).map (fun r => r.map Prod.fst) = some (.ok true) := by
    decide
  rw [hrun, Option.map_some, Option.some.injEq] at hok
  cases hr with
  | terminated => cases hok
  | same =>
    obtain ⟨ok, wire⟩ := r'
    cases Except.ok.inj hok
    exact ⟨wire, hrun, by rw [hsent, hall.mp rfl]; rfl⟩

end MiniDbms
