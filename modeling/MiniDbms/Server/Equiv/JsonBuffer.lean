import MiniDbms.Server.Equiv.JsonUtil

/-!
# The JSON buffer over any sequence of calls

A buffer of any capacity, with allocations that may fail.  `WritesPiece` is a call that appends one
piece, or fails and changes nothing; `Writes` is a call that appends several pieces one by one, and
stops at the first that fails.  Both return as long as the text is shorter than `2 ^ 62`: the
capacity is doubled without wrapping (`jsonGrow_double`).

* `json_buffer_append_only`: what the buffer holds after any calls.
* `json_string_read_back`: a reader of JSON finds the string again, whatever comes behind it.
-/

namespace MiniDbms

open CString

/-! ### Growing -/

/-- The loop doubles the capacity, as often as it needs to, and does not wrap. -/
theorem jsonGrow_double {required : ℕ} (hrequired : required ≤ 2 ^ 63) (newCap fuel : ℕ)
    (hfuel : required ≤ newCap * 2 ^ fuel) :
    ∃ k, jsonGrow required (fuel + 1) newCap = some (newCap * 2 ^ k) ∧
      required ≤ newCap * 2 ^ k ∧ (k = 0 ∨ newCap * 2 ^ k < 2 * required) := by
  induction fuel generalizing newCap with
  | zero =>
    rw [pow_zero, mul_one] at hfuel
    refine ⟨0, ?_, ?_, Or.inl rfl⟩
    · rw [jsonGrow, if_neg (by omega), pow_zero, mul_one]
    · rwa [pow_zero, mul_one]
  | succ fuel ih =>
    rw [jsonGrow]
    by_cases hlt : newCap < required
    · have hwrap : sizeWrap (newCap * 2) = newCap * 2 := sizeWrap_of_lt (by omega)
      rw [if_pos hlt, hwrap]
      obtain ⟨k, hgrow, hle, hbound⟩ := ih (newCap * 2)
        (by rwa [mul_assoc, ← pow_succ'])
      have hpow : newCap * 2 * 2 ^ k = newCap * 2 ^ (k + 1) := by rw [mul_assoc, ← pow_succ']
      refine ⟨k + 1, by rwa [← hpow], by rwa [← hpow], Or.inr ?_⟩
      rcases hbound with rfl | hbound
      · rw [zero_add, pow_one]
        omega
      · rwa [← hpow]
    · rw [if_neg hlt]
      exact ⟨0, by rw [pow_zero, mul_one], by rw [pow_zero, mul_one]; omega, Or.inl rfl⟩

theorem jsonGrow_lt {required fuel newCap cap : ℕ} (hlt : newCap < 2 ^ 64)
    (h : jsonGrow required fuel newCap = some cap) : cap < 2 ^ 64 := by
  induction fuel generalizing newCap with
  | zero => cases h
  | succ fuel ih =>
    rw [jsonGrow] at h
    split_ifs at h
    · exact ih (Nat.mod_lt _ (by decide)) h
    · cases h
      exact hlt

/-! ### A buffer -/

/-- The buffer holds `text`, and its capacity is a `size_t`. -/
structure JsonState.Sized (s : JsonState) (text : List UInt8) : Prop extends s.Built text where
  cap_lt : s.cap < 2 ^ 64

namespace JsonState.Sized

variable {s s' : JsonState} {text : List UInt8}

/-- What a buffer holds does not depend on the coming allocations. -/
theorem of_eq (h : s.Sized text) (heq : s'.toJsonBuffer = s.toJsonBuffer) : s'.Sized text := by
  obtain ⟨buffer, allocs⟩ := s
  obtain ⟨buffer', allocs'⟩ := s'
  obtain rfl : buffer' = buffer := heq
  exact ⟨⟨h.len_eq, h.holds⟩, h.cap_lt⟩

theorem reserve (h : s.Sized text) {extra : ℕ}
    (hrun : jsonBufferReserve extra s = some (true, s')) :
    s'.Sized text ∧ sizeWrap (text.length + extra + 1) ≤ s'.cap := by
  obtain ⟨hbuilt, hcap, -⟩ := h.toBuilt.reserve hrun
  refine ⟨⟨hbuilt, ?_⟩, hcap rfl⟩
  have hpos := h.lt_cap
  rw [jsonBufferReserve, if_neg (show ¬s.cap = 0 by omega)] at hrun
  split_ifs at hrun
  · cases hrun
    exact h.cap_lt
  · obtain ⟨newCap, hgrow, hrun⟩ := Option.bind_eq_some_iff.mp hrun
    cases hrun
    exact jsonGrow_lt h.cap_lt hgrow
  · obtain ⟨newCap, -, hrun⟩ := Option.bind_eq_some_iff.mp hrun
    cases hrun

/-- When there is no memory the buffer stays as it is. -/
theorem reserve_failed {extra : ℕ} (hrun : jsonBufferReserve extra s = some (false, s')) :
    s'.toJsonBuffer = s.toJsonBuffer := by
  rw [jsonBufferReserve] at hrun
  split at hrun
  · cases hrun
  · obtain ⟨newCap, -, hrun⟩ := Option.bind_eq_some_iff.mp hrun
    split at hrun
    · cases hrun
    · cases hrun
      rfl

/-- The capacity that the loop finds for `extra` more bytes. -/
theorem grow (h : s.Sized text) {extra : ℕ} (hlength : text.length + extra < 2 ^ 62) :
    ∃ k, jsonGrow (sizeWrap (text.length + extra + 1)) 65 s.cap = some (s.cap * 2 ^ k) ∧
      text.length + extra + 1 ≤ s.cap * 2 ^ k ∧ s.cap * 2 ^ k < 2 ^ 64 := by
  have hpos := h.lt_cap
  have hlt := h.cap_lt
  rw [sizeWrap_of_lt (by omega)]
  obtain ⟨k, hgrow, hle, hbound⟩ := jsonGrow_double
    (show text.length + extra + 1 ≤ 2 ^ 63 by omega) s.cap 64 (by omega)
  refine ⟨k, hgrow, hle, ?_⟩
  rcases hbound with rfl | hbound
  · rwa [pow_zero, mul_one]
  · omega

theorem reserve_returns (h : s.Sized text) {extra : ℕ} (hlength : text.length + extra < 2 ^ 62) :
    ∃ ok s', jsonBufferReserve extra s = some (ok, s') := by
  obtain ⟨k, hgrow, -, -⟩ := h.grow hlength
  have hpos := h.lt_cap
  rw [jsonBufferReserve, h.len_eq, if_neg (show ¬s.cap = 0 by omega), hgrow]
  split_ifs
  · exact ⟨_, _, rfl⟩
  · exact ⟨_, _, rfl⟩
  · exact ⟨_, _, rfl⟩

end JsonState.Sized

/-! ### Calls that write -/

/-- `call` appends `piece`, or fails and changes nothing. -/
structure WritesPiece (call : JsonCall) (piece : List UInt8) : Prop where
  written : ∀ {s s' : JsonState} {text : List UInt8}, s.Sized text →
    text.length + piece.length + 1 < 2 ^ 64 → call s = some (true, s') → s'.Sized (text ++ piece)
  failed : ∀ {s s' : JsonState}, call s = some (false, s') → s'.toJsonBuffer = s.toJsonBuffer
  returns : ∀ {s : JsonState} {text : List UInt8}, s.Sized text →
    text.length + piece.length < 2 ^ 62 → ∃ ok s', call s = some (ok, s')

/-- A call that reserves room for the piece, and then writes it. -/
theorem writes_reserved {piece : List UInt8} {write : JsonCall}
    (hwrite : ∀ {s : JsonState} {text : List UInt8}, s.Sized text →
      text.length + piece.length < s.cap →
      ∃ s', write s = some (true, s') ∧ s'.Sized (text ++ piece))
    (hnever : ∀ {s s' : JsonState}, write s ≠ some (false, s')) :
    WritesPiece (fun s => (jsonBufferReserve piece.length s).bind fun
      | (false, s) => some (false, s)
      | (true, s) => write s) piece where
  written := by
    intro s s' text h hlength hrun
    obtain ⟨⟨ok, s₁⟩, hreserve, hrun⟩ := Option.bind_eq_some_iff.mp hrun
    cases ok with
    | false => cases hrun
    | true =>
      obtain ⟨h₁, hfit⟩ := h.reserve hreserve
      rw [sizeWrap_of_lt hlength] at hfit
      obtain ⟨s₂, hwritten, h₂⟩ := hwrite h₁ hfit
      cases hwritten.symm.trans hrun
      exact h₂
  failed := by
    intro s s' hrun
    obtain ⟨⟨ok, s₁⟩, hreserve, hrun⟩ := Option.bind_eq_some_iff.mp hrun
    cases ok with
    | false =>
      cases hrun
      exact JsonState.Sized.reserve_failed hreserve
    | true => exact absurd hrun hnever
  returns := by
    intro s text h hlength
    obtain ⟨ok, s₁, hreserve⟩ := h.reserve_returns hlength
    cases ok with
    | false => exact ⟨false, s₁, CArray.bind_eq_of_eq_some hreserve rfl⟩
    | true =>
      obtain ⟨h₁, hfit⟩ := h.reserve hreserve
      rw [sizeWrap_of_lt (by omega)] at hfit
      obtain ⟨s₂, hwritten, -⟩ := hwrite h₁ hfit
      exact ⟨true, s₂, CArray.bind_eq_of_eq_some hreserve hwritten⟩

theorem writes_append (text : List UInt8) : WritesPiece (jsonBufferAppend text) text := by
  refine writes_reserved (fun {s before} h hfit => ?_) fun {s s'} h => ?_
  · obtain ⟨s', hstore, hbuilt, hcap, -⟩ := h.store_fits hfit
    exact ⟨s', CArray.bind_eq_of_eq_some hstore rfl, hbuilt, hcap ▸ h.cap_lt⟩
  · obtain ⟨s₁, -, h⟩ := Option.bind_eq_some_iff.mp h
    cases h

/-- A call that always fails. -/
theorem writes_failed (piece : List UInt8) : WritesPiece (fun s => some (false, s)) piece where
  written _ _ h := nomatch h
  failed h := by
    cases h
    rfl
  returns {s} _ _ _ := ⟨false, s, rfl⟩

theorem writes_appendf (piece : List UInt8) : WritesPiece (jsonBufferAppendf piece) piece := by
  unfold jsonBufferAppendf
  by_cases hlong : 2 ^ 31 ≤ piece.length
  · simp only [if_pos hlong]
    exact writes_failed piece
  · simp only [if_neg hlong]
    refine writes_reserved (fun {s text} h hfit => ?_) fun {s s'} h => ?_
    · obtain ⟨data, hvsnprintf, hholds⟩ := h.vsnprintf h.cap_lt piece hfit
      refine ⟨_, CArray.bind_eq_of_eq_some hvsnprintf rfl, ⟨?_, data, rfl, hholds⟩, h.cap_lt⟩
      rw [List.length_append, h.len_eq]
    · obtain ⟨data, -, h⟩ := Option.bind_eq_some_iff.mp h
      cases h

/-- `call` appends `pieces` one behind the other, up to the first that fails. -/
structure Writes (call : JsonCall) (pieces : List (List UInt8)) : Prop where
  written : ∀ {s s' : JsonState} {text : List UInt8} {ok : Bool}, s.Sized text →
    text.length + pieces.flatten.length + 1 < 2 ^ 64 → call s = some (ok, s') →
    ∃ j, s'.Sized (text ++ (pieces.take j).flatten) ∧ (ok = true → j = pieces.length) ∧
      (ok = false → j < pieces.length)
  returns : ∀ {s : JsonState} {text : List UInt8}, s.Sized text →
    text.length + pieces.flatten.length < 2 ^ 62 → ∃ ok s', call s = some (ok, s')

theorem WritesPiece.writes {call : JsonCall} {piece : List UInt8} (h : WritesPiece call piece) :
    Writes call [piece] where
  written := by
    intro s s' text ok hs hlength hrun
    rw [List.flatten_singleton] at hlength
    cases ok with
    | true =>
      refine ⟨1, ?_, fun _ => rfl, nofun⟩
      rw [List.take_one, List.head?_cons, Option.toList_some, List.flatten_singleton]
      exact h.written hs hlength hrun
    | false =>
      refine ⟨0, ?_, nofun, fun _ => Nat.one_pos⟩
      rw [List.take_zero, List.flatten_nil, List.append_nil]
      exact hs.of_eq (h.failed hrun)
  returns := by
    intro s text hs hlength
    rw [List.flatten_singleton] at hlength
    exact h.returns hs hlength

theorem writes_nil : Writes (fun s => some (true, s)) [] where
  written := by
    intro s s' text ok hs hlength hrun
    cases hrun
    refine ⟨0, ?_, fun _ => rfl, nofun⟩
    rwa [List.take_nil, List.flatten_nil, List.append_nil]
  returns := fun {s} _ _ _ => ⟨true, s, rfl⟩

theorem WritesPiece.cons {call : JsonCall} {calls : List JsonCall} {piece : List UInt8}
    {pieces : List (List UInt8)} (hcall : WritesPiece call piece)
    (hcalls : Writes (jsonCalls calls) pieces) :
    Writes (jsonCalls (call :: calls)) (piece :: pieces) where
  written := by
    intro s s' text ok hs hlength hrun
    rw [List.flatten_cons, List.length_append] at hlength
    obtain ⟨⟨ok₁, s₁⟩, hfirst, hrun⟩ := Option.bind_eq_some_iff.mp hrun
    cases ok₁ with
    | false =>
      cases hrun
      refine ⟨0, ?_, nofun, fun _ => Nat.succ_pos _⟩
      rw [List.take_zero, List.flatten_nil, List.append_nil]
      exact hs.of_eq (hcall.failed hfirst)
    | true =>
      have hs₁ := hcall.written hs (by omega) hfirst
      obtain ⟨j, hs', hall, hpart⟩ := hcalls.written hs₁
        (by rw [List.length_append]; omega) hrun
      refine ⟨j + 1, ?_, fun hok => ?_, fun hok => ?_⟩
      · rwa [List.take_succ_cons, List.flatten_cons, ← List.append_assoc]
      · rw [List.length_cons, hall hok]
      · rw [List.length_cons]
        exact Nat.succ_lt_succ (hpart hok)
  returns := by
    intro s text hs hlength
    rw [List.flatten_cons, List.length_append] at hlength
    obtain ⟨ok, s₁, hfirst⟩ := hcall.returns hs (by omega)
    cases ok with
    | false => exact ⟨false, s₁, CArray.bind_eq_of_eq_some hfirst rfl⟩
    | true =>
      have hs₁ := hcall.written hs (by omega) hfirst
      obtain ⟨ok, s', hrest⟩ := hcalls.returns hs₁ (by rw [List.length_append]; omega)
      exact ⟨ok, s', CArray.bind_eq_of_eq_some hfirst hrest⟩

/-- A chain of calls. -/
theorem writes_calls {calls : List JsonCall} {pieces : List (List UInt8)}
    (h : List.Forall₂ WritesPiece calls pieces) : Writes (jsonCalls calls) pieces := by
  induction h with
  | nil => exact writes_nil
  | cons hcall _ ih => exact hcall.cons ih

theorem writes_escaped (c : UInt8) : WritesPiece (jsonAppendEscaped c) (Json.escapeByte c) := by
  rcases jsonAppendEscaped_eq c with h | h <;> rw [h]
  · exact writes_append _
  · exact writes_appendf _

theorem writes_jsonString (text : List UInt8) :
    Writes (jsonBufferAppendJsonString text) (stringPieces text) :=
  writes_calls (forall₂_stringPieces writes_append writes_escaped text)

/-! ### Sequences of calls -/

/-- A call of one of the three functions, with its text. -/
inductive JsonOp
  | append (text : List UInt8)
  | appendf (text : List UInt8)
  | appendJsonString (text : List UInt8)

namespace JsonOp

def call : JsonOp → JsonCall
  | .append text => jsonBufferAppend text
  | .appendf text => jsonBufferAppendf text
  | .appendJsonString text => jsonBufferAppendJsonString text

/-- What the call appends, piece by piece. -/
def pieces : JsonOp → List (List UInt8)
  | .append text => [text]
  | .appendf text => [text]
  | .appendJsonString text => stringPieces text

def isString : JsonOp → Bool
  | .appendJsonString _ => true
  | _ => false

/-- What a call has appended that returned `ok`: all of its pieces, or those before the one that
failed. -/
def Appended (op : JsonOp) (ok : Bool) (piece : List UInt8) : Prop :=
  ∃ j, piece = (op.pieces.take j).flatten ∧ (ok = true → j = op.pieces.length) ∧
    (ok = false → j < op.pieces.length)

theorem writes (op : JsonOp) : Writes op.call op.pieces := by
  cases op with
  | append text => exact (writes_append text).writes
  | appendf text => exact (writes_appendf text).writes
  | appendJsonString text => exact writes_jsonString text

/-- `json_buffer_append` and `json_buffer_appendf` change nothing when they fail. -/
theorem call_failed {op : JsonOp} (hop : op.isString = false) {s s' : JsonState}
    (hrun : op.call s = some (false, s')) : s'.toJsonBuffer = s.toJsonBuffer := by
  cases op with
  | append text => exact (writes_append text).failed hrun
  | appendf text => exact (writes_appendf text).failed hrun
  | appendJsonString text => cases hop

/-- A call that returned 1. -/
theorem Appended.whole {op : JsonOp} {piece : List UInt8} (h : op.Appended true piece) :
    piece = op.pieces.flatten := by
  obtain ⟨j, rfl, hall, -⟩ := h
  rw [hall rfl, List.take_length]

/-- A failed call of `json_buffer_append` or `json_buffer_appendf`. -/
theorem Appended.nothing {op : JsonOp} (hop : op.isString = false) {piece : List UInt8}
    (h : op.Appended false piece) : piece = [] := by
  obtain ⟨j, rfl, -, hpart⟩ := h
  have hj := hpart rfl
  cases op with
  | append text => rw [Nat.lt_one_iff.mp hj, List.take_zero, List.flatten_nil]
  | appendf text => rw [Nat.lt_one_iff.mp hj, List.take_zero, List.flatten_nil]
  | appendJsonString text => cases hop

/-- No more than the pieces is appended. -/
theorem Appended.length_le {op : JsonOp} {ok : Bool} {piece : List UInt8}
    (h : op.Appended ok piece) : piece.length ≤ op.pieces.flatten.length := by
  obtain ⟨j, rfl, -⟩ := h
  conv_rhs => rw [← List.take_append_drop j op.pieces, List.flatten_append, List.length_append]
  exact Nat.le_add_right _ _

end JsonOp

/-- The calls one after the other, whatever they return. -/
def jsonRun : List JsonOp → JsonState → Option (List Bool × JsonState)
  | [], s => some ([], s)
  | op :: ops, s => do
    let (ok, s) ← op.call s
    let (oks, s) ← jsonRun ops s
    some (ok :: oks, s)

/-- Each call appends its pieces to what the calls before it have appended. -/
theorem jsonRun_spec {ops : List JsonOp} {s : JsonState} {text : List UInt8} (hs : s.Sized text)
    (hlength : text.length + (ops.flatMap fun op => op.pieces.flatten).length < 2 ^ 62) :
    ∃ results s', jsonRun ops s = some (results.map Prod.fst, s') ∧
      List.Forall₂ (fun op result => op.Appended result.1 result.2) ops results ∧
      s'.Sized (text ++ (results.map Prod.snd).flatten) := by
  induction ops generalizing s text with
  | nil =>
    refine ⟨[], s, rfl, .nil, ?_⟩
    rwa [List.map_nil, List.flatten_nil, List.append_nil]
  | cons op ops ih =>
    rw [List.flatMap_cons, List.length_append] at hlength
    obtain ⟨ok, s₁, hcall⟩ := op.writes.returns hs (by omega)
    obtain ⟨j, hs₁, hall, hpart⟩ := op.writes.written hs (by omega) hcall
    have happended : op.Appended ok (op.pieces.take j).flatten := ⟨j, rfl, hall, hpart⟩
    have hle := happended.length_le
    obtain ⟨results, s', hrun, hresults, hs'⟩ := ih hs₁ (by rw [List.length_append]; omega)
    refine ⟨(ok, (op.pieces.take j).flatten) :: results, s', ?_, .cons happended hresults, ?_⟩
    · exact CArray.bind_eq_of_eq_some hcall (CArray.bind_eq_of_eq_some hrun rfl)
    · rwa [List.map_cons, List.flatten_cons, ← List.append_assoc]

/-- An initialised buffer is empty. -/
theorem JsonState.sized_of_init {allocs : List Bool} {initialCapacity : ℕ} {s : JsonState}
    (hlt : initialCapacity < 2 ^ 64) (h : jsonBufferInit allocs initialCapacity = some (true, s)) :
    s.Sized [] := by
  have hinit : ∀ capacity, 0 < capacity → capacity < 2 ^ 64 →
      jsonBufferInit allocs capacity = some (true, s) → s.Sized [] := by
    intro capacity hpos hlt h
    obtain ⟨s₁, hbuilt, hcap, -, hrun⟩ := jsonBufferInit_spec allocs hpos
    rw [hrun] at h
    split at h
    · cases h
      exact ⟨hbuilt, hcap ▸ hlt⟩
    · cases h
  rcases Nat.eq_zero_or_pos initialCapacity with rfl | hpos
  · exact hinit 128 (by decide) (by decide) h
  · exact hinit initialCapacity hpos hlt h

/-! ### The buffer is an append-only string -/

/-- For every sequence of calls on an initialised buffer, whatever allocations fail: all of them
return, and the buffer holds what they have appended, with a `NUL` behind it.  The next call of
`json_buffer_append` or `json_buffer_appendf` changes nothing if it fails, and the loop of
`json_buffer_reserve` finds a capacity for it without wrapping. -/
theorem json_buffer_append_only {allocs : List Bool} {initialCapacity : ℕ} {s : JsonState}
    {ops : List JsonOp} (hlt : initialCapacity < 2 ^ 64)
    (hinit : jsonBufferInit allocs initialCapacity = some (true, s))
    (hlength : (ops.flatMap fun op => op.pieces.flatten).length < 2 ^ 62) :
    ∃ results s', jsonRun ops s = some (results.map Prod.fst, s') ∧
      List.Forall₂ (fun op result => op.Appended result.1 result.2) ops results ∧
      s'.Built (results.map Prod.snd).flatten ∧ s'.len + 1 ≤ s'.cap ∧
      (∀ op : JsonOp, op.isString = false → ∀ s'', op.call s' = some (false, s'') →
        s''.toJsonBuffer = s'.toJsonBuffer) ∧
      ∀ extra, s'.len + extra < 2 ^ 62 →
        ∃ k, jsonGrow (sizeWrap (s'.len + extra + 1)) 65 s'.cap = some (s'.cap * 2 ^ k) ∧
          s'.len + extra + 1 ≤ s'.cap * 2 ^ k ∧ s'.cap * 2 ^ k < 2 ^ 64 := by
  have hs := JsonState.sized_of_init hlt hinit
  obtain ⟨results, s', hrun, hresults, hs'⟩ := jsonRun_spec hs
    (show [].length + (ops.flatMap fun op => op.pieces.flatten).length < 2 ^ 62 by
      rwa [List.length_nil, Nat.zero_add])
  rw [List.nil_append] at hs'
  refine ⟨results, s', hrun, hresults, hs'.toBuilt, ?_, fun op hop s'' => op.call_failed hop,
    fun extra hextra => ?_⟩
  · rw [hs'.len_eq]
    exact hs'.lt_cap
  · rw [hs'.len_eq] at hextra ⊢
    exact hs'.grow hextra

/-- A text, a string for which the buffer grows, and a text for which there is no memory. -/
def growingOps : List JsonOp :=
  [.append (ascii "ab"), .appendJsonString [10], .append (ascii "cd")]

theorem json_buffer_append_only_no_memory :
    ∃ s s', jsonBufferInit [true, true, false] 4 = some (true, s) ∧
      jsonRun growingOps s = some ([true, true, false], s') ∧
      s'.Built (ascii "ab\"\\n\"") := by
  have hoks : (jsonBufferInit [true, true, false] 4).bind (fun r => (jsonRun growingOps r.2).map
      fun r' => (r.1, r'.1)) = some (true, [true, true, false]) := by
    decide
  obtain ⟨⟨ok, s⟩, hinit, hoks⟩ := Option.bind_eq_some_iff.mp hoks
  obtain ⟨⟨oks, s'⟩, hrun, heq⟩ := Option.map_eq_some_iff.mp hoks
  cases heq
  obtain ⟨results, s'', hrun', hresults, hbuilt, -⟩ := json_buffer_append_only
    (by decide) hinit (show (growingOps.flatMap fun op => op.pieces.flatten).length < 2 ^ 62 by
      decide)
  obtain ⟨hoks, rfl⟩ := Prod.mk.inj (Option.some.inj (hrun'.symm.trans hrun))
  refine ⟨s, s'', hinit, hrun, ?_⟩
  obtain ⟨⟨ok₁, piece₁⟩, _, h₁, hresults₁, rfl⟩ := List.forall₂_cons_left_iff.mp hresults
  obtain ⟨⟨ok₂, piece₂⟩, _, h₂, hresults₂, rfl⟩ := List.forall₂_cons_left_iff.mp hresults₁
  obtain ⟨⟨ok₃, piece₃⟩, _, h₃, hresults₃, rfl⟩ := List.forall₂_cons_left_iff.mp hresults₂
  cases hresults₃
  cases hoks
  have hpiece₁ : piece₁ = ascii "ab" := h₁.whole
  have hpiece₂ : piece₂ = ascii "\"\\n\"" := h₂.whole
  have hpiece₃ : piece₃ = [] := h₃.nothing rfl
  subst hpiece₁ hpiece₂ hpiece₃
  exact hbuilt

/-! ### A string is read back -/

/-- When `json_buffer_append_json_string` returns 1 it has appended a literal: a reader of JSON
finds the string again and stops behind the literal, whatever comes there; no byte of the literal is
a control character; and no literal is the beginning of another one. -/
theorem json_string_read_back {s s' : JsonState} {text string : List UInt8} (hs : s.Built text)
    (hlt : s.cap < 2 ^ 64) (hlength : text.length + (Json.quote string).length + 1 < 2 ^ 64)
    (hrun : jsonBufferAppendJsonString string s = some (true, s')) :
    s'.Built (text ++ Json.quote string) ∧
      (∀ rest, Json.read (Json.quote string ++ rest) = some (.string string, rest)) ∧
      (∀ c ∈ Json.quote string, 32 ≤ c) ∧
      ∀ string', Json.quote string <+: Json.quote string' → string = string' := by
  obtain ⟨j, hs', hall, -⟩ := (writes_jsonString string).written ⟨hs, hlt⟩
    (by rwa [flatten_stringPieces]) hrun
  rw [hall rfl, List.take_length, flatten_stringPieces] at hs'
  exact ⟨hs'.toBuilt, Json.read_quote string, Json.printable_quote string,
    fun _ => Json.eq_of_quote_prefix⟩

/-- A quotation mark, a newline and a control character, with a buffer that has to grow. -/
theorem json_string_read_back_escapes :
    ∃ s s', jsonBufferInit [] 4 = some (true, s) ∧
      jsonBufferAppendJsonString [34, 10, 1] s = some (true, s') ∧
      s'.Built (ascii "\"\\\"\\n\\u0001\"") := by
  have hok : (jsonBufferInit [] 4).bind (fun r =>
      (jsonBufferAppendJsonString [34, 10, 1] r.2).map fun r' => (r.1, r'.1)) =
      some (true, true) := by
    decide
  obtain ⟨⟨ok, s⟩, hinit, hok⟩ := Option.bind_eq_some_iff.mp hok
  obtain ⟨⟨ok', s'⟩, hrun, heq⟩ := Option.map_eq_some_iff.mp hok
  cases heq
  have hs := JsonState.sized_of_init (by decide) hinit
  obtain ⟨hbuilt, -⟩ := json_string_read_back hs.toBuilt hs.cap_lt (by decide) hrun
  exact ⟨s, s', hinit, hrun, hbuilt⟩

end MiniDbms
