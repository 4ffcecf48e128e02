import Mathlib.Data.Nat.Prime.Basic
import MiniDbms.Lib.Json.Text
import MiniDbms.Server.JsonUtil

/-!
# The JSON buffer holds what was appended

`JsonState.Built` says that the buffer holds a text and a `NUL` behind it.  A call `Appends` a piece
when the buffer holds the text and the piece behind it after the call returned 1; a piece that fits
into the buffer is appended without an allocation, and with memory every call returns 1.
`Appends.calls` puts the calls of a chain together.

A buffer that begins with a power of two keeps one: `json_buffer_reserve` does not wrap `new_cap`,
and `json_buffer_appendf` never cuts its text off.
-/

namespace MiniDbms

open CString

/-! ### Growing -/

theorem sizeWrap_of_lt {x : ℕ} (h : x < 2 ^ 64) : sizeWrap x = x := Nat.mod_eq_of_lt h

theorem le_jsonGrow {required fuel newCap cap : ℕ} (h : jsonGrow required fuel newCap = some cap) :
    required ≤ cap := by
  induction fuel generalizing newCap with
  | zero => cases h
  | succ fuel ih =>
    rw [jsonGrow] at h
    split_ifs at h with hlt
    · exact ih h
    · cases h
      exact Nat.not_lt.mp hlt

/-- The loop never ends once `new_cap` has wrapped to 0. -/
theorem jsonGrow_zero {required : ℕ} (hpos : 0 < required) (fuel : ℕ) :
    jsonGrow required fuel 0 = none := by
  induction fuel with
  | zero => rfl
  | succ fuel ih =>
    rw [jsonGrow, if_pos hpos]
    exact ih

/-- Doubling keeps powers of two. -/
theorem jsonGrow_dvd {required fuel newCap cap : ℕ} (hdvd : newCap ∣ 2 ^ 63)
    (h : jsonGrow required fuel newCap = some cap) : cap ∣ 2 ^ 63 := by
  induction fuel generalizing newCap with
  | zero => cases h
  | succ fuel ih =>
    rw [jsonGrow] at h
    split_ifs at h with hlt
    · obtain ⟨k, hk, rfl⟩ := (Nat.dvd_prime_pow Nat.prime_two).mp hdvd
      rcases Nat.eq_or_lt_of_le hk with rfl | hk'
      · rw [show sizeWrap (2 ^ 63 * 2) = 0 from rfl, jsonGrow_zero (Nat.zero_lt_of_lt hlt)] at h
        cases h
      · rw [← Nat.pow_succ, sizeWrap_of_lt (Nat.pow_lt_pow_right (by omega) (by omega))] at h
        exact ih (Nat.pow_dvd_pow 2 hk') h
    · cases h
      exact hdvd

/-- 64 rounds are enough: the loop ends before `new_cap` wraps. -/
theorem jsonGrow_total {required fuel k : ℕ} (hrequired : required ≤ 2 ^ 63) (hk : k ≤ 63)
    (hfuel : 63 < fuel + k) : ∃ cap, jsonGrow required fuel (2 ^ k) = some cap := by
  induction fuel generalizing k with
  | zero => omega
  | succ fuel ih =>
    rw [jsonGrow]
    split_ifs with hlt
    · have hk' : k < 63 := by
        rcases Nat.lt_or_eq_of_le hk with hk' | rfl
        · exact hk'
        · omega
      rw [← Nat.pow_succ, sizeWrap_of_lt (Nat.pow_lt_pow_right (by omega) (by omega))]
      exact ih hk' (by omega)
    · exact ⟨_, rfl⟩

/-! ### What a buffer holds -/

/-- The buffer holds `text`, with a `NUL` behind it. -/
structure JsonState.Built (s : JsonState) (text : List UInt8) : Prop where
  len_eq : s.len = text.length
  holds : ∃ data, s.data = some data ∧ data.Holds (text ++ [0])

namespace JsonState.Built

variable {s s' : JsonState} {text : List UInt8}

theorem lt_cap (h : s.Built text) : text.length < s.cap := by
  obtain ⟨data, -, hdata⟩ := h.holds
  have hle := hdata.length_le
  rwa [List.length_append, List.length_singleton] at hle

/-- Memory that was grown holds the same text. -/
theorem reserve (h : s.Built text) {extra : ℕ} {ok : Bool}
    (hrun : jsonBufferReserve extra s = some (ok, s')) :
    s'.Built text ∧ (ok = true → sizeWrap (text.length + extra + 1) ≤ s'.cap) ∧
      (s.cap ∣ 2 ^ 63 → s'.cap ∣ 2 ^ 63) := by
  have hcap := h.lt_cap
  obtain ⟨data, hdata, hholds⟩ := h.holds
  simp only [jsonBufferReserve, h.len_eq, if_neg (show ¬ s.cap = 0 by omega)] at hrun
  split_ifs at hrun with hfit halloc
  · cases hrun
    exact ⟨h, fun _ => hfit, id⟩
  · obtain ⟨newCap, hgrow, hrun⟩ := Option.bind_eq_some_iff.mp hrun
    have hle := le_jsonGrow hgrow
    cases hrun
    refine ⟨⟨rfl, data.resize newCap, ?_, hholds.resize ?_⟩, fun _ => hle, (jsonGrow_dvd · hgrow)⟩
    · simp only [JsonBuffer.realloc, hdata]
    · rw [List.length_append, List.length_singleton]
      show text.length + 1 ≤ newCap
      omega
  · obtain ⟨newCap, -, hrun⟩ := Option.bind_eq_some_iff.mp hrun
    cases hrun
    exact ⟨⟨h.len_eq, data, hdata, hholds⟩, fun hok => (by cases hok), id⟩

/-- Nothing is allocated for what fits. -/
theorem reserve_fits {extra : ℕ} (h : s.Built text) (hfit : text.length + extra + 1 ≤ s.cap) :
    jsonBufferReserve extra s = some (true, s) := by
  rw [jsonBufferReserve, h.len_eq]
  exact if_pos ((Nat.mod_le _ _).trans hfit)

/-- With memory, the buffer grows. -/
theorem reserve_granted (h : s.Built text) (extra : ℕ) (hdvd : s.cap ∣ 2 ^ 63)
    (hallocs : s.allocs = []) (hlength : text.length + extra < 2 ^ 63) :
    ∃ s', jsonBufferReserve extra s = some (true, s') ∧ s'.allocs = [] := by
  have hcap := h.lt_cap
  have hrequired : sizeWrap (text.length + extra + 1) = text.length + extra + 1 :=
    sizeWrap_of_lt (by omega)
  obtain ⟨k, hk, hcap_eq⟩ := (Nat.dvd_prime_pow Nat.prime_two).mp hdvd
  obtain ⟨newCap, hgrow⟩ : ∃ newCap, jsonGrow (text.length + extra + 1) 65 (2 ^ k) = some newCap :=
    jsonGrow_total (by omega) hk (by omega)
  rw [← hcap_eq] at hgrow
  simp only [jsonBufferReserve, h.len_eq, if_neg (show ¬ s.cap = 0 by omega), hrequired]
  split_ifs with hfit halloc
  · exact ⟨s, rfl, hallocs⟩
  · refine ⟨_, CArray.bind_eq_of_eq_some hgrow rfl, ?_⟩
    simp only [hallocs, List.tail_nil]
  · rw [hallocs] at halloc
    exact absurd rfl halloc

theorem store_fits (h : s.Built text) {bytes : List UInt8}
    (hfit : text.length + bytes.length < s.cap) :
    ∃ s', s.store bytes = some s' ∧ s'.Built (text ++ bytes) ∧ s'.cap = s.cap ∧
      s'.allocs = s.allocs := by
  obtain ⟨data, hdata, hholds⟩ := h.holds
  have htext : data.Holds text := by
    have htake := hholds.take text.length
    rwa [List.take_left] at htake
  obtain ⟨data₁, hwrite, hdata₁⟩ := htext.writeAll bytes hfit.le
  obtain ⟨data₂, hnul, hdata₂⟩ := hdata₁.write_end 0 (by rw [List.length_append]; exact hfit)
  rw [List.length_append] at hnul
  refine ⟨⟨⟨s.cap, some data₂, s.len + bytes.length⟩, s.allocs⟩, ?_, ⟨?_, data₂, rfl, hdata₂⟩, rfl,
    rfl⟩
  · rw [store, hdata, h.len_eq]
    exact CArray.bind_eq_of_eq_some rfl (CArray.bind_eq_of_eq_some hwrite
      (CArray.bind_eq_of_eq_some hnul rfl))
  · rw [List.length_append, h.len_eq]

/-- What is stored fits, with its `NUL`. -/
theorem store (h : s.Built text) {bytes : List UInt8} (hrun : s.store bytes = some s') :
    s'.Built (text ++ bytes) ∧ s'.cap = s.cap := by
  rcases Nat.lt_or_ge (text.length + bytes.length) s.cap with hfit | hover
  · obtain ⟨s₁, hstore, hbuilt, hcap, -⟩ := h.store_fits hfit
    rw [hstore] at hrun
    cases hrun
    exact ⟨hbuilt, hcap⟩
  · rw [JsonState.store] at hrun
    obtain ⟨data, -, hrun⟩ := Option.bind_eq_some_iff.mp hrun
    obtain ⟨data₁, -, hrun⟩ := Option.bind_eq_some_iff.mp hrun
    obtain ⟨data₂, hnul, -⟩ := Option.bind_eq_some_iff.mp hrun
    rw [h.len_eq, CArray.write, if_neg (Nat.not_lt.mpr hover)] at hnul
    cases hnul

/-- The size given to `vsnprintf` is the room that is left. -/
theorem vsnprintf (h : s.Built text) (hlt : s.cap < 2 ^ 64) (piece : List UInt8)
    (hfit : text.length + piece.length < s.cap) :
    ∃ data, s.vsnprintf (sizeWrap (s.cap + 2 ^ 64 - s.len)) piece = some data ∧
      data.Holds (text ++ piece ++ [0]) := by
  obtain ⟨data, hdata, hholds⟩ := h.holds
  have htext : data.Holds text := by
    have htake := hholds.take text.length
    rwa [List.take_left] at htake
  obtain ⟨data₁, hwrite, hdata₁⟩ := htext.writeAll (piece ++ [0]) (by
    rw [List.length_append, List.length_singleton]
    omega)
  have hroom : sizeWrap (s.cap + 2 ^ 64 - text.length) = s.cap - text.length := by
    rw [sizeWrap]
    omega
  refine ⟨data₁, ?_, by rwa [List.append_assoc]⟩
  rw [JsonBuffer.vsnprintf, hdata, h.len_eq, hroom, List.take_of_length_le (by omega)]
  exact CArray.bind_eq_of_eq_some rfl (by rw [if_neg (by omega), hwrite])

end JsonState.Built

/-- The capacity is a `size_t`. -/
theorem cap_lt_of_dvd {cap : ℕ} (hdvd : cap ∣ 2 ^ 63) : cap < 2 ^ 64 :=
  Nat.lt_of_le_of_lt (Nat.le_of_dvd (by decide) hdvd) (by decide)

/-! ### Calls that append -/

/-- `call` appends `piece` to a buffer whose capacity is a power of two. -/
structure Appends (call : JsonCall) (piece : List UInt8) : Prop where
  built : ∀ {s s' : JsonState} {text : List UInt8}, s.Built text → s.cap ∣ 2 ^ 63 →
    call s = some (true, s') → s'.Built (text ++ piece) ∧ s'.cap ∣ 2 ^ 63
  fits : ∀ {s : JsonState} {text : List UInt8}, s.Built text → s.cap ∣ 2 ^ 63 →
    piece.length < 2 ^ 31 → text.length + piece.length < s.cap →
    ∃ s', call s = some (true, s') ∧ s'.Built (text ++ piece) ∧ s'.cap = s.cap ∧
      s'.allocs = s.allocs
  granted : ∀ {s : JsonState} {text : List UInt8}, s.Built text → s.cap ∣ 2 ^ 63 → s.allocs = [] →
    text.length + piece.length < 2 ^ 31 → ∃ s', call s = some (true, s') ∧ s'.allocs = []

/-- What reserves memory for bytes and stores them. -/
theorem appends_store (bytes : List UInt8) :
    Appends (fun s => (jsonBufferReserve bytes.length s).bind fun
      | (false, s) => some (false, s)
      | (true, s) => (s.store bytes).bind fun s => some (true, s)) bytes where
  built := by
    intro s s' text h hdvd hrun
    obtain ⟨⟨ok, s₁⟩, hreserve, hrun⟩ := Option.bind_eq_some_iff.mp hrun
    obtain ⟨h₁, -, hdvd₁⟩ := h.reserve hreserve
    cases ok with
    | false => cases hrun
    | true =>
      obtain ⟨s₂, hstore, hrun⟩ := Option.bind_eq_some_iff.mp hrun
      cases hrun
      obtain ⟨h₂, hcap⟩ := h₁.store hstore
      exact ⟨h₂, hcap ▸ hdvd₁ hdvd⟩
  fits := by
    intro s text h _ _ hfit
    obtain ⟨s', hstore, hbuilt, hcap⟩ := h.store_fits hfit
    exact ⟨s', CArray.bind_eq_of_eq_some (h.reserve_fits hfit) (by simp only [hstore]; rfl),
      hbuilt, hcap⟩
  granted := by
    intro s text h hdvd hallocs hlength
    obtain ⟨s₁, hreserve, hallocs₁⟩ := h.reserve_granted bytes.length hdvd hallocs
      (by omega)
    obtain ⟨h₁, hcap₁, -⟩ := h.reserve hreserve
    have hfit := hcap₁ rfl
    rw [sizeWrap_of_lt (by omega)] at hfit
    obtain ⟨s₂, hstore, -, -, hallocs₂⟩ := h₁.store_fits hfit
    exact ⟨s₂, CArray.bind_eq_of_eq_some hreserve (CArray.bind_eq_of_eq_some hstore rfl),
      hallocs₂.trans hallocs₁⟩

theorem appends_append (text : List UInt8) : Appends (jsonBufferAppend text) text :=
  appends_store text

theorem appends_appendf (piece : List UInt8) : Appends (jsonBufferAppendf piece) piece where
  built := by
    intro s s' text h hdvd hrun
    rw [jsonBufferAppendf] at hrun
    split_ifs at hrun with hlength
    · cases hrun
    obtain ⟨⟨ok, s₁⟩, hreserve, hrun⟩ := Option.bind_eq_some_iff.mp hrun
    obtain ⟨h₁, hcap₁, hdvd₁⟩ := h.reserve hreserve
    cases ok with
    | false => cases hrun
    | true =>
      -- `required` has not wrapped
      have hle := Nat.le_of_dvd (by decide) hdvd
      have hlt := h.lt_cap
      have hfit := hcap₁ rfl
      rw [sizeWrap_of_lt (by omega)] at hfit
      obtain ⟨data, hvsnprintf, hholds⟩ := h₁.vsnprintf (cap_lt_of_dvd (hdvd₁ hdvd)) piece
        (by omega)
      simp only [hvsnprintf] at hrun
      cases hrun
      refine ⟨⟨?_, data, rfl, hholds⟩, hdvd₁ hdvd⟩
      rw [List.length_append, h₁.len_eq]
  fits := by
    intro s text h hdvd hlength hfit
    obtain ⟨data, hvsnprintf, hholds⟩ := h.vsnprintf (cap_lt_of_dvd hdvd) piece hfit
    refine ⟨⟨⟨s.cap, some data, s.len + piece.length⟩, s.allocs⟩, ?_, ⟨?_, data, rfl, hholds⟩, rfl,
      rfl⟩
    · rw [jsonBufferAppendf, if_neg (by omega), h.reserve_fits hfit]
      exact CArray.bind_eq_of_eq_some rfl (CArray.bind_eq_of_eq_some hvsnprintf rfl)
    · rw [List.length_append, h.len_eq]
  granted := by
    intro s text h hdvd hallocs hlength
    obtain ⟨s₁, hreserve, hallocs₁⟩ := h.reserve_granted piece.length hdvd hallocs (by omega)
    obtain ⟨h₁, hcap₁, hdvd₁⟩ := h.reserve hreserve
    have hfit := hcap₁ rfl
    rw [sizeWrap_of_lt (by omega)] at hfit
    obtain ⟨data, hvsnprintf, -⟩ := h₁.vsnprintf (cap_lt_of_dvd (hdvd₁ hdvd)) piece
        (by omega)
    refine ⟨⟨⟨s₁.cap, some data, s₁.len + piece.length⟩, s₁.allocs⟩, ?_, hallocs₁⟩
    rw [jsonBufferAppendf, if_neg (by omega)]
    exact CArray.bind_eq_of_eq_some hreserve (CArray.bind_eq_of_eq_some hvsnprintf rfl)

/-- A call that does nothing. -/
theorem appends_nil : Appends (fun s => some (true, s)) [] where
  built := by
    intro s s' text h hdvd hrun
    cases hrun
    rw [List.append_nil]
    exact ⟨h, hdvd⟩
  fits := by
    intro s text h _ _ _
    rw [List.append_nil]
    exact ⟨s, rfl, h, rfl, rfl⟩
  granted := fun {s} _ _ _ hallocs _ => ⟨s, rfl, hallocs⟩

/-- A chain that returns 1 has made all its calls, and they have returned 1. -/
theorem jsonCalls_all {calls : List JsonCall} {s s' : JsonState}
    (h : jsonCalls calls s = some (true, s')) {call : JsonCall} (hcall : call ∈ calls) :
    ∃ s₁ s₂, call s₁ = some (true, s₂) := by
  induction calls generalizing s with
  | nil => cases hcall
  | cons first calls ih =>
    obtain ⟨⟨ok, s₁⟩, hfirst, h⟩ := Option.bind_eq_some_iff.mp h
    cases ok with
    | false => cases h
    | true =>
      rcases List.mem_cons.mp hcall with rfl | hcall
      · exact ⟨s, s₁, hfirst⟩
      · exact ih h hcall

theorem Appends.cons {call : JsonCall} {calls : List JsonCall} {piece pieces : List UInt8}
    (hcall : Appends call piece) (hcalls : Appends (jsonCalls calls) pieces) :
    Appends (jsonCalls (call :: calls)) (piece ++ pieces) where
  built := by
    intro s s' text h hdvd hrun
    obtain ⟨⟨ok, s₁⟩, hfirst, hrun⟩ := Option.bind_eq_some_iff.mp hrun
    cases ok with
    | false => cases hrun
    | true =>
      obtain ⟨h₁, hdvd₁⟩ := hcall.built h hdvd hfirst
      rw [← List.append_assoc]
      exact hcalls.built h₁ hdvd₁ hrun
  fits := by
    intro s text h hdvd hlength hfit
    rw [List.length_append] at hlength hfit
    obtain ⟨s₁, hfirst, h₁, hcap₁, hallocs₁⟩ := hcall.fits h hdvd (by omega) (by omega)
    obtain ⟨s₂, hrest, h₂, hcap₂, hallocs₂⟩ := hcalls.fits h₁ (hcap₁ ▸ hdvd) (by omega) (by
      rw [List.length_append, hcap₁]
      omega)
    rw [← List.append_assoc]
    exact ⟨s₂, CArray.bind_eq_of_eq_some hfirst hrest, h₂, hcap₂.trans hcap₁,
      hallocs₂.trans hallocs₁⟩
  granted := by
    intro s text h hdvd hallocs hlength
    rw [List.length_append] at hlength
    obtain ⟨s₁, hfirst, hallocs₁⟩ := hcall.granted h hdvd hallocs (by omega)
    obtain ⟨h₁, hdvd₁⟩ := hcall.built h hdvd hfirst
    obtain ⟨s₂, hrest, hallocs₂⟩ := hcalls.granted h₁ hdvd₁ hallocs₁ (by
      rw [List.length_append]
      omega)
    exact ⟨s₂, CArray.bind_eq_of_eq_some hfirst hrest, hallocs₂⟩

/-- **A chain appends what its calls append**, one behind the other. -/
theorem Appends.calls {calls : List JsonCall} {pieces : List (List UInt8)}
    (h : List.Forall₂ Appends calls pieces) : Appends (jsonCalls calls) pieces.flatten := by
  induction h with
  | nil => exact appends_nil
  | cons hcall _ ih => exact hcall.cons ih

/-! ### The ends -/

/-- A buffer that was initialised is empty. -/
theorem jsonBufferInit_spec (allocs : List Bool) {initialCapacity : ℕ}
    (hpos : 0 < initialCapacity) :
    ∃ s, s.Built [] ∧ s.cap = initialCapacity ∧ s.allocs = allocs.tail ∧
      jsonBufferInit allocs initialCapacity =
        if allocs.headD true then some (true, s)
        else some (false, ⟨⟨0, none, 0⟩, allocs.tail⟩) := by
  obtain ⟨data, hwrite, hdata⟩ := (CArray.holds_nil (CArray.uninit UInt8 initialCapacity)).write_end
    0 hpos
  refine ⟨⟨⟨initialCapacity, some data, 0⟩, allocs.tail⟩, ⟨rfl, data, rfl, hdata⟩, rfl, rfl, ?_⟩
  rw [List.length_nil] at hwrite
  unfold jsonBufferInit
  dsimp only
  rw [if_neg (show ¬ initialCapacity = 0 by omega), hwrite]
  rfl

/-- What is detached is the text. -/
theorem JsonState.Built.detach {s : JsonState} {text : List UInt8} (h : s.Built text)
    (h0 : 0 ∉ text) :
    jsonBufferDetach s = some (some text, ⟨⟨0, none, 0⟩, s.allocs⟩) := by
  obtain ⟨data, hdata, hholds⟩ := h.holds
  have hread := CArray.readString_eq (a := data) text (i := 0)
    (fun j c hc => by rw [Nat.zero_add]; exact hholds j c hc) h.lt_cap
  have htext : text.takeWhile (· ≠ 0) = text :=
    List.takeWhile_eq_self_iff.mpr fun c hc => by
      have hne : c ≠ 0 := by
        rintro rfl
        exact h0 hc
      simpa using hne
  rw [htext] at hread
  simp only [jsonBufferDetach, hdata, hread]
  rfl

/-! ### Strings -/

/-- One round of the loop is a call of one of the two functions. -/
theorem jsonAppendEscaped_eq (c : UInt8) :
    jsonAppendEscaped c = jsonBufferAppend (Json.escapeByte c) ∨
      jsonAppendEscaped c = jsonBufferAppendf (Json.escapeByte c) := by
  by_cases hshort : c = 92 ∨ c = 34 ∨ c = 8 ∨ c = 12 ∨ c = 10 ∨ c = 13 ∨ c = 9
  · rcases hshort with rfl | rfl | rfl | rfl | rfl | rfl | rfl <;> exact Or.inl rfl
  · simp only [not_or] at hshort
    obtain ⟨h92, h34, h8, h12, h10, h13, h9⟩ := hshort
    have hescape : Json.shortEscape c = none := by
      rw [Json.shortEscape, if_neg h92, if_neg h34, if_neg h8, if_neg h12, if_neg h10, if_neg h13,
        if_neg h9]
    rw [jsonAppendEscaped, if_neg h92, if_neg h34, if_neg h8, if_neg h12, if_neg h10, if_neg h13,
      if_neg h9, Json.escapeByte, hescape]
    by_cases hcontrol : c < 32
    · simp only [if_pos hcontrol]
      exact Or.inr rfl
    · simp only [if_neg hcontrol]
      exact Or.inl rfl

theorem appends_escaped (c : UInt8) : Appends (jsonAppendEscaped c) (Json.escapeByte c) := by
  rcases jsonAppendEscaped_eq c with h | h <;> rw [h]
  · exact appends_append _
  · exact appends_appendf _

/-- What the calls of `json_buffer_append_json_string` append. -/
def stringPieces (text : List UInt8) : List (List UInt8) :=
  (ascii "\"" :: text.map Json.escapeByte) ++ [ascii "\""]

theorem flatten_stringPieces (text : List UInt8) :
    (stringPieces text).flatten = Json.quote text := by
  rw [stringPieces, List.flatten_append, List.flatten_cons, ← List.flatMap_def]
  rfl

/-- What holds of the calls holds of the chain of `json_buffer_append_json_string`. -/
theorem forall₂_stringPieces {P : JsonCall → List UInt8 → Prop}
    (happend : ∀ text, P (jsonBufferAppend text) text)
    (hescaped : ∀ c, P (jsonAppendEscaped c) (Json.escapeByte c)) (text : List UInt8) :
    List.Forall₂ P ((jsonBufferAppend (ascii "\"") :: text.map jsonAppendEscaped) ++
      [jsonBufferAppend (ascii "\"")]) (stringPieces text) := by
  have hbytes : List.Forall₂ P (text.map jsonAppendEscaped) (text.map Json.escapeByte) := by
    rw [List.forall₂_map_left_iff, List.forall₂_map_right_iff, List.forall₂_same]
    exact fun c _ => hescaped c
  exact List.rel_append (.cons (happend _) hbytes) (.cons (happend _) .nil)

/-- **A string is written with its escapes**, between quotes. -/
theorem appends_jsonString (text : List UInt8) :
    Appends (jsonBufferAppendJsonString text) (Json.quote text) := by
  rw [← flatten_stringPieces]
  exact Appends.calls (forall₂_stringPieces appends_append appends_escaped text)

end MiniDbms
