import Mathlib.Data.List.DropRight
import Mathlib.Data.List.TakeWhile
import Mathlib.Tactic.Common

/-!
# UTF-8 in byte strings

`Valid s` says that the bytes `s` encode some characters.  Such a text may be cut where a character
begins and nowhere else (`Valid.left_iff`, `Valid.right_iff`).  ASCII bytes are characters of their
own: cuts next to one are harmless, and a text stays valid, or not, when each is written as several
others (`valid_flatMap_iff`).
-/

namespace Utf8

/-- The bytes are the encoding of some characters. -/
def Valid (s : List UInt8) : Prop := s.toByteArray.IsValidUTF8

/-- The position in front of `rest` is not within a character: no continuation byte follows. -/
def AtBoundary (rest : List UInt8) : Prop := ∀ c ∈ rest.head?, c.IsUTF8FirstByte

/-- Bytes that are characters. -/
def Ascii (s : List UInt8) : Prop := ∀ c ∈ s, c < 128

instance (s : List UInt8) : Decidable (Ascii s) := List.decidableBAll (· < 128) s

instance (rest : List UInt8) : Decidable (AtBoundary rest) :=
  Option.decidableForallMem rest.head?

theorem valid_iff {s : List UInt8} :
    Valid s ↔ ∃ chars : List Char, s = chars.flatMap String.utf8EncodeChar := by
  constructor
  · rintro ⟨chars, h⟩
    exact ⟨chars, List.toByteArray_inj.mp h⟩
  · rintro ⟨chars, rfl⟩
    exact ⟨chars, rfl⟩

theorem valid_nil : Valid [] := valid_iff.mpr ⟨[], rfl⟩

theorem Valid.append {a b : List UInt8} (ha : Valid a) (hb : Valid b) : Valid (a ++ b) := by
  unfold Valid
  rw [List.toByteArray_append]
  exact ByteArray.IsValidUTF8.append ha hb

theorem Valid.flatMap {α : Type} {f : α → List UInt8} {as : List α} (h : ∀ a ∈ as, Valid (f a)) :
    Valid (as.flatMap f) := by
  induction as with
  | nil => exact valid_nil
  | cons a as ih =>
    rw [List.flatMap_cons]
    exact (h a List.mem_cons_self).append (ih fun a' ha => h a' (List.mem_cons_of_mem a ha))

/-! ### Boundaries -/

theorem atBoundary_nil : AtBoundary [] := nofun

@[simp] theorem atBoundary_cons {c : UInt8} {rest : List UInt8} :
    AtBoundary (c :: rest) ↔ c.IsUTF8FirstByte := by
  simp [AtBoundary]

/-- Behind the first byte of a character there is no boundary before its end. -/
theorem eq_nil_of_atBoundary {c : Char} {a b : List UInt8} (h : String.utf8EncodeChar c = a ++ b)
    (ha : a ≠ []) {rest : List UInt8} (hb : AtBoundary (b ++ rest)) : b = [] := by
  cases b with
  | nil => rfl
  | cons x b =>
    have hlt : a.length < (String.utf8EncodeChar c).length := by
      rw [h, List.length_append, List.length_cons]
      omega
    have hget : (String.utf8EncodeChar c)[a.length] = x := by
      simp only [h, List.getElem_append_right (le_refl a.length), Nat.sub_self]
      rfl
    rw [List.cons_append, atBoundary_cons, ← hget, UInt8.isUTF8FirstByte_getElem_utf8EncodeChar,
      List.length_eq_zero_iff] at hb
    exact absurd hb ha

/-- A text begins with a character. -/
theorem Valid.atBoundary {s : List UInt8} (h : Valid s) : AtBoundary s := by
  obtain ⟨chars, rfl⟩ := valid_iff.mp h
  cases chars with
  | nil => exact atBoundary_nil
  | cons c chars =>
    have hpos : 0 < (String.utf8EncodeChar c).length := by
      rw [String.length_utf8EncodeChar]
      exact c.utf8Size_pos
    obtain ⟨x, xs, hx⟩ := List.exists_cons_of_length_pos hpos
    have hfirst : (String.utf8EncodeChar c)[0].IsUTF8FirstByte :=
      UInt8.isUTF8FirstByte_getElem_utf8EncodeChar.mpr rfl
    rw [List.flatMap_cons, hx, List.cons_append, atBoundary_cons]
    simpa only [hx, List.getElem_cons_zero] using hfirst

/-- Both parts of a text that is cut in front of a character are texts. -/
theorem Valid.split {a b : List UInt8} (h : Valid (a ++ b)) (hb : AtBoundary b) :
    Valid a ∧ Valid b := by
  obtain ⟨chars, hchars⟩ := valid_iff.mp h
  induction chars generalizing a with
  | nil =>
    obtain ⟨rfl, rfl⟩ := List.append_eq_nil_iff.mp hchars
    exact ⟨valid_nil, valid_nil⟩
  | cons c chars ih =>
    by_cases ha : a = []
    · subst ha
      exact ⟨valid_nil, h⟩
    · rw [List.flatMap_cons] at hchars
      rcases List.append_eq_append_iff.mp hchars with ⟨t, hc, hb'⟩ | ⟨t, rfl, hrest⟩
      · -- the cut would be within the first character
        rw [hb'] at hb
        obtain rfl := eq_nil_of_atBoundary hc ha hb
        rw [List.append_nil] at hc
        exact ⟨valid_iff.mpr ⟨[c], by rw [← hc, List.flatMap_singleton]⟩,
          valid_iff.mpr ⟨chars, hb'⟩⟩
      · obtain ⟨ht, hb'⟩ := ih (valid_iff.mpr ⟨chars, hrest.symm⟩) hrest.symm
        have hc : Valid (String.utf8EncodeChar c) :=
          valid_iff.mpr ⟨[c], (List.flatMap_singleton ..).symm⟩
        exact ⟨hc.append ht, hb'⟩

/-- What follows a text in a text is one. -/
theorem Valid.of_append {a b : List UInt8} (h : Valid (a ++ b)) (ha : Valid a) : Valid b := by
  obtain ⟨chars, rfl⟩ := valid_iff.mp ha
  clear ha
  induction chars with
  | nil => exact h
  | cons c chars ih =>
    apply ih
    rw [List.flatMap_cons, List.append_assoc] at h
    unfold Valid at h ⊢
    rw [List.toByteArray_append] at h
    rw [← ByteArray.isValidUTF8_utf8Encode_singleton_append_iff (c := c), List.utf8Encode_singleton]
    exact h

/-- **The first part of a text** is one exactly when the cut is in front of a character. -/
theorem Valid.left_iff {a b : List UInt8} (h : Valid (a ++ b)) : Valid a ↔ AtBoundary b :=
  ⟨fun ha => (h.of_append ha).atBoundary, fun hb => (h.split hb).1⟩

/-- **The rest of a text** is one exactly when the cut is in front of a character. -/
theorem Valid.right_iff {a b : List UInt8} (h : Valid (a ++ b)) : Valid b ↔ AtBoundary b :=
  ⟨Valid.atBoundary, fun hb => (h.split hb).2⟩

/-! ### ASCII -/

/-- What holds of the numbers below 128 holds of the ASCII bytes. -/
theorem of_lt {P : UInt8 → Prop} (hP : ∀ n < 128, P (UInt8.ofNat n)) {c : UInt8} (h : c < 128) :
    P c := by
  have hc := hP c.toNat (UInt8.lt_iff_toNat_lt.mp h)
  rwa [UInt8.ofNat_toNat] at hc

theorem isUTF8FirstByte_of_lt {c : UInt8} (h : c < 128) : c.IsUTF8FirstByte :=
  of_lt (by decide) h

@[simp] theorem ascii_nil : Ascii [] := nofun

@[simp] theorem ascii_cons {c : UInt8} {s : List UInt8} : Ascii (c :: s) ↔ c < 128 ∧ Ascii s := by
  simp [Ascii]

@[simp] theorem ascii_append {s t : List UInt8} : Ascii (s ++ t) ↔ Ascii s ∧ Ascii t := by
  simp [Ascii, or_imp, forall_and]

theorem Ascii.of_subset {s t : List UInt8} (h : s ⊆ t) (ht : Ascii t) : Ascii s :=
  fun c hc => ht c (h hc)

theorem Ascii.atBoundary {s rest : List UInt8} (h : Ascii s) (hne : s ≠ []) :
    AtBoundary (s ++ rest) := by
  obtain ⟨c, s, rfl⟩ := List.exists_cons_of_ne_nil hne
  exact atBoundary_cons.mpr (isUTF8FirstByte_of_lt (ascii_cons.mp h).1)

theorem valid_singleton {c : UInt8} (h : c < 128) : Valid [c] := by
  have hsize : (Char.ofNat c.toNat).utf8Size = 1 ∧ (Char.ofNat c.toNat).val.toUInt8 = c :=
    of_lt (P := fun c => (Char.ofNat c.toNat).utf8Size = 1 ∧ (Char.ofNat c.toNat).val.toUInt8 = c)
      (by decide) h
  refine valid_iff.mpr ⟨[Char.ofNat c.toNat], ?_⟩
  rw [List.flatMap_singleton, String.utf8EncodeChar_eq_singleton hsize.1, hsize.2]

theorem Ascii.valid {s : List UInt8} (h : Ascii s) : Valid s := by
  have hbytes := Valid.flatMap (f := fun c => [c]) fun c hc => valid_singleton (h c hc)
  rwa [List.flatMap_singleton'] at hbytes

/-- A cut in front of ASCII bytes. -/
theorem valid_append_ascii_iff {a w b : List UInt8} (hw : Ascii w) (hne : w ≠ []) :
    Valid (a ++ (w ++ b)) ↔ Valid a ∧ Valid b := by
  constructor
  · intro h
    obtain ⟨ha, hb⟩ := h.split (hw.atBoundary hne)
    exact ⟨ha, hb.of_append hw.valid⟩
  · rintro ⟨ha, hb⟩
    exact ha.append (hw.valid.append hb)

theorem valid_ascii_append {w s : List UInt8} (hw : Ascii w) : Valid (w ++ s) ↔ Valid s :=
  ⟨fun h => h.of_append hw.valid, hw.valid.append⟩

theorem valid_append_ascii {s w : List UInt8} (hw : Ascii w) : Valid (s ++ w) ↔ Valid s := by
  refine ⟨fun h => (h.split ?_).1, fun h => h.append hw.valid⟩
  cases w with
  | nil => exact atBoundary_nil
  | cons c w => exact atBoundary_cons.mpr (isUTF8FirstByte_of_lt (ascii_cons.mp hw).1)

/-- **Escapes.**  When ASCII bytes become ASCII bytes, and the others are kept, a text stays valid
and an invalid one invalid. -/
theorem valid_flatMap_iff {f : UInt8 → List UInt8} (hascii : ∀ c < 128, Ascii (f c) ∧ f c ≠ [])
    (hkept : ∀ c, ¬ c < 128 → f c = [c]) (s : List UInt8) : Valid (s.flatMap f) ↔ Valid s := by
  -- bytes of a character that has begun are kept in `a`
  suffices h : ∀ a, Valid (a ++ s.flatMap f) ↔ Valid (a ++ s) from h []
  induction s with
  | nil => exact fun _ => Iff.rfl
  | cons c s ih =>
    intro a
    rw [List.flatMap_cons]
    by_cases hc : c < 128
    · obtain ⟨hf, hne⟩ := hascii c hc
      have hsingle := valid_append_ascii_iff (a := a) (b := s)
        (ascii_cons.mpr ⟨hc, ascii_nil⟩) (List.cons_ne_nil c [])
      rw [valid_append_ascii_iff hf hne, ← List.singleton_append, hsingle]
      exact and_congr_right fun _ => ih []
    · rw [hkept c hc, ← List.append_assoc, ih, List.append_assoc, List.singleton_append]

/-! ### Skipping and stopping -/

/-- Skipping ASCII bytes. -/
theorem valid_dropWhile_iff {p : UInt8 → Bool} (hp : ∀ c, p c = true → c < 128) (s : List UInt8) :
    Valid (s.dropWhile p) ↔ Valid s := by
  have hw : Ascii (s.takeWhile p) := fun c hc => hp c (List.mem_takeWhile_imp hc)
  have h := valid_ascii_append (s := s.dropWhile p) hw
  rwa [List.takeWhile_append_dropWhile, iff_comm] at h

/-- Stopping at an ASCII byte. -/
theorem Valid.takeWhile {p : UInt8 → Bool} (hp : ∀ c, p c = false → c < 128) {s : List UInt8}
    (h : Valid s) : Valid (s.takeWhile p) := by
  rw [← List.takeWhile_append_dropWhile (p := p) (l := s)] at h
  refine (h.split ?_).1
  cases hs : s.dropWhile p with
  | nil => exact atBoundary_nil
  | cons c rest =>
    have hstop := List.head_dropWhile_not p (l := s) (by rw [hs]; exact List.cons_ne_nil _ _)
    simp only [hs, List.head_cons] at hstop
    exact atBoundary_cons.mpr (isUTF8FirstByte_of_lt (hp c hstop))

/-- Dropping ASCII bytes at the end. -/
theorem valid_rdropWhile_iff {p : UInt8 → Bool} (hp : ∀ c, p c = true → c < 128) (s : List UInt8) :
    Valid (s.rdropWhile p) ↔ Valid s := by
  have hw : Ascii (s.rtakeWhile p) := fun c hc => hp c (List.mem_rtakeWhile_imp hc)
  have h := valid_append_ascii (s := s.rdropWhile p) hw
  rwa [List.rdropWhile_append_rtakeWhile, iff_comm] at h

end Utf8
