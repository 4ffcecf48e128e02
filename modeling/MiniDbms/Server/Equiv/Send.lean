import MiniDbms.Server.Send

/-!
# Which responses end the process

A response is sent in two pieces, and each may take several calls of `send`.  `MeetsClosed` says of
the behaviour of a client that one of these calls finds the connection closed; with the default
action of `SIGPIPE` this is when the process ends (`httpSendResponse_spec`).
-/

namespace MiniDbms

open CString

/-- When pieces of the given lengths are sent, a call of `send` finds the connection closed. -/
inductive MeetsClosed : List SendOutcome → List ℕ → Prop
  | closed {outcomes : List SendOutcome} {n : ℕ} {lengths : List ℕ} (pos : 0 < n) :
    MeetsClosed (.closed :: outcomes) (n :: lengths)
  | interrupted {outcomes : List SendOutcome} {n : ℕ} {lengths : List ℕ} (pos : 0 < n)
      (later : MeetsClosed outcomes (n :: lengths)) :
    MeetsClosed (.interrupted :: outcomes) (n :: lengths)
  | take {outcomes : List SendOutcome} {more n : ℕ} {lengths : List ℕ} (pos : 0 < n)
      (later : MeetsClosed outcomes ((n - (more + 1)) :: lengths)) :
    MeetsClosed (.take more :: outcomes) (n :: lengths)
  | next {outcomes : List SendOutcome} {lengths : List ℕ} (later : MeetsClosed outcomes lengths) :
    MeetsClosed outcomes (0 :: lengths)

section MeetsClosed

variable {outcomes : List SendOutcome} {n more : ℕ} {lengths : List ℕ}

theorem meetsClosed_zero : MeetsClosed outcomes (0 :: lengths) ↔ MeetsClosed outcomes lengths := by
  refine ⟨fun h => ?_, .next⟩
  cases h with
  | closed pos => cases pos
  | interrupted pos later => cases pos
  | take pos later => cases pos
  | next later => exact later

theorem meetsClosed_interrupted (hn : 0 < n) :
    MeetsClosed (.interrupted :: outcomes) (n :: lengths) ↔
      MeetsClosed outcomes (n :: lengths) := by
  refine ⟨fun h => ?_, .interrupted hn⟩
  cases h with
  | interrupted pos later => exact later
  | next later => cases hn

theorem meetsClosed_take (hn : 0 < n) : MeetsClosed (.take more :: outcomes) (n :: lengths) ↔
    MeetsClosed outcomes ((n - (more + 1)) :: lengths) := by
  refine ⟨fun h => ?_, .take hn⟩
  cases h with
  | take pos later => exact later
  | next later => cases hn

/-- A call that fails for another reason is the last one. -/
theorem not_meetsClosed (hn : 0 < n) {outcome : SendOutcome}
    (houtcome : outcome = .zero ∨ outcome = .failed) :
    ¬ MeetsClosed (outcome :: outcomes) (n :: lengths) := by
  intro h
  rcases houtcome with rfl | rfl
  all_goals
    cases h
    cases hn

theorem not_meetsClosed_lengths : ¬ MeetsClosed outcomes [] := nofun

theorem MeetsClosed.closed_mem (h : MeetsClosed outcomes lengths) : .closed ∈ outcomes := by
  induction h with
  | closed pos => exact List.mem_cons_self
  | interrupted pos later ih => exact List.mem_cons_of_mem _ ih
  | take pos later ih => exact List.mem_cons_of_mem _ ih
  | next later ih => exact ih

/-- A client that takes everything does not close. -/
theorem not_meetsClosed_outcomes : ¬ MeetsClosed [] lengths :=
  fun h => List.not_mem_nil h.closed_mem

end MeetsClosed

/-! ### The loop -/

variable {dispositions : Dispositions}

/-- What `send_all` can end with, for `n` bytes. -/
inductive SendResult (outcomes : List SendOutcome) (n : ℕ) : Except Signal (Bool × Wire) → Prop
  /-- A call found the connection closed. -/
  | terminated (closed : ∀ lengths, MeetsClosed outcomes (n :: lengths)) :
    SendResult outcomes n (.error .pipe)
  /-- Everything was sent. -/
  | sent {wire : Wire} (le : wire.outcomes.length ≤ outcomes.length)
      (closed_iff : ∀ lengths,
        MeetsClosed outcomes (n :: lengths) ↔ MeetsClosed wire.outcomes lengths) :
    SendResult outcomes n (.ok (true, wire))
  /-- A call failed. -/
  | failed {wire : Wire} (not_closed : ∀ lengths, ¬ MeetsClosed outcomes (n :: lengths)) :
    SendResult outcomes n (.ok (false, wire))

/-- The calls behind the first one. -/
theorem SendResult.cons {outcome : SendOutcome} {outcomes : List SendOutcome} {n n' : ℕ}
    {r : Except Signal (Bool × Wire)} (h : SendResult outcomes n' r)
    (hiff : ∀ lengths, MeetsClosed (outcome :: outcomes) (n :: lengths) ↔
      MeetsClosed outcomes (n' :: lengths)) : SendResult (outcome :: outcomes) n r := by
  cases h with
  | terminated closed => exact .terminated fun lengths => (hiff lengths).mpr (closed lengths)
  | sent le closed_iff =>
    exact .sent (Nat.le_succ_of_le le) fun lengths => (hiff lengths).trans (closed_iff lengths)
  | failed not_closed => exact .failed fun lengths h => not_closed lengths ((hiff lengths).mp h)

/-- **`send_all` ends**, and when a call finds the connection closed the process ends with it. -/
theorem sendAll_spec (hpipe : dispositions .pipe = .default) (data : List UInt8) (fuel : ℕ)
    (wire : Wire) (sent : ℕ) (hfuel : wire.outcomes.length + 1 < fuel) :
    ∃ r, sendAll dispositions data fuel wire sent = some r ∧
      SendResult wire.outcomes (data.length - sent) r := by
  induction fuel generalizing wire sent with
  | zero => omega
  | succ fuel ih =>
    by_cases hlt : sent < data.length
    · have hpos : 0 < data.length - sent := by omega
      have hlength : (data.drop sent).length = data.length - sent := List.length_drop
      obtain ⟨bytes, outcomes⟩ := wire
      rw [sendAll, if_pos hlt]
      cases outcomes with
      | nil =>
        -- everything is taken at once, and the next round is the last one
        obtain ⟨fuel, rfl⟩ := Nat.exists_eq_add_one.mpr (show 0 < fuel from by
          rw [List.length_nil] at hfuel
          omega)
        have hsend : (⟨bytes, []⟩ : Wire).send dispositions (data.drop sent) =
            .ok (.count (data.length - sent), ⟨bytes ++ data.drop sent, []⟩) := by
          rw [Wire.send, hlength]
        rw [hsend]
        dsimp only
        rw [if_neg (by omega), sendAll, if_neg (by omega)]
        refine ⟨_, rfl, .sent le_rfl fun lengths => ?_⟩
        exact iff_of_false not_meetsClosed_outcomes not_meetsClosed_outcomes
      | cons outcome outcomes =>
        rw [List.length_cons] at hfuel
        cases outcome with
        | take more =>
          have hcount : min (more + 1) (data.drop sent).length ≠ 0 := by omega
          obtain ⟨r, hrun, hr⟩ := ih ⟨bytes ++ (data.drop sent).take (more + 1), outcomes⟩
            (sent + min (more + 1) (data.drop sent).length) (by dsimp only; omega)
          refine ⟨r, (if_neg hcount).trans hrun, hr.cons fun lengths => ?_⟩
          rw [meetsClosed_take hpos, show data.length - (sent + min (more + 1)
            (data.drop sent).length) = data.length - sent - (more + 1) by omega]
        | zero => exact ⟨_, if_pos rfl, .failed fun _ => not_meetsClosed hpos (Or.inl rfl)⟩
        | interrupted =>
          obtain ⟨r, hrun, hr⟩ := ih ⟨bytes, outcomes⟩ sent (by dsimp only; omega)
          exact ⟨r, hrun, hr.cons fun lengths => meetsClosed_interrupted hpos⟩
        | failed => exact ⟨_, rfl, .failed fun _ => not_meetsClosed hpos (Or.inr rfl)⟩
        | closed =>
          have hsend : (⟨bytes, .closed :: outcomes⟩ : Wire).send dispositions (data.drop sent) =
              .error .pipe := if_pos hpipe
          rw [hsend]
          exact ⟨_, rfl, .terminated fun _ => .closed hpos⟩
    · rw [sendAll, if_neg hlt, show data.length - sent = 0 by omega]
      exact ⟨_, rfl, .sent le_rfl fun lengths => meetsClosed_zero⟩

/-! ### The response -/

/-- The lengths of the pieces of a response; nothing is sent when the header does not fit. -/
def responseLengths (statusCode : ℤ) (contentType body : Option (List UInt8)) : List ℕ :=
  let body := body.getD []
  let header := httpHeader statusCode (contentType.getD (ascii "text/plain; charset=utf-8"))
    body.length
  if header.length ≥ 512 then [] else [header.length, body.length]

/-- **A response ends the process exactly when** a call of `send` finds the connection closed. -/
theorem httpSendResponse_spec (hpipe : dispositions .pipe = .default) {fuel : ℕ} {wire : Wire}
    (hfuel : wire.outcomes.length + 1 < fuel) (statusCode : ℤ)
    (contentType body : Option (List UInt8)) :
    MeetsClosed wire.outcomes (responseLengths statusCode contentType body) ∧
        httpSendResponse dispositions fuel wire statusCode contentType body = some (.error .pipe) ∨
      ¬ MeetsClosed wire.outcomes (responseLengths statusCode contentType body) ∧
        ∃ r, httpSendResponse dispositions fuel wire statusCode contentType body =
          some (.ok r) := by
  unfold httpSendResponse responseLengths
  dsimp only
  split_ifs
  · exact Or.inr ⟨not_meetsClosed_lengths, _, rfl⟩
  · obtain ⟨r, hheader, hr⟩ := sendAll_spec hpipe (httpHeader statusCode
      (contentType.getD (ascii "text/plain; charset=utf-8")) (body.getD []).length)
      fuel wire 0 hfuel
    rw [Nat.sub_zero] at hr
    rw [hheader, Option.bind_eq_bind, Option.bind_some]
    cases hr with
    | terminated closed => exact Or.inl ⟨closed _, rfl⟩
    | failed not_closed => exact Or.inr ⟨not_closed _, _, rfl⟩
    | @sent wire' le closed_iff =>
      obtain ⟨r, hbody, hr⟩ := sendAll_spec hpipe (body.getD []) fuel wire' 0 (by omega)
      rw [Nat.sub_zero] at hr
      dsimp only
      rw [hbody, closed_iff]
      cases hr with
      | terminated closed => exact Or.inl ⟨closed _, rfl⟩
      | sent le' closed_iff' =>
        exact Or.inr ⟨fun h => not_meetsClosed_lengths ((closed_iff' _).mp h), _, rfl⟩
      | failed not_closed => exact Or.inr ⟨not_closed _, _, rfl⟩

end MiniDbms
