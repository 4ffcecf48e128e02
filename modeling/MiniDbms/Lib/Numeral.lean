import MiniDbms.Lib.CString

/-!
# Numerals

The texts that `strtoul` reads from the first byte to the last: blanks, a sign, and digits
(`strtoul_eq_iff`).  A minus sign is part of them; the value then wraps around.
-/

namespace CString

/-- The sign in front of the digits. -/
inductive Sign
  | none | plus | minus
  deriving DecidableEq

def Sign.text : Sign → List UInt8
  | none => []
  | plus => [43]
  | minus => [45]

/-- A text of a number. -/
structure Numeral where
  blanks : List UInt8
  sign : Sign
  digits : List UInt8
  isspace_blanks : blanks.all isspace = true
  isdigit_digits : digits.all isdigit = true
  digits_ne_nil : digits ≠ []

namespace Numeral

def text (n : Numeral) : List UInt8 := n.blanks ++ (n.sign.text ++ n.digits)

theorem text_ne_nil (n : Numeral) : n.text ≠ [] := by
  intro h
  exact n.digits_ne_nil (List.append_eq_nil_iff.mp (List.append_eq_nil_iff.mp h).2).2

/-- The value as an `unsigned long`: too large ones saturate, and a minus sign negates. -/
def value (n : Numeral) : ℕ :=
  if ulongMax < digitsValue n.digits then ulongMax
  else if n.sign = .minus then (2 ^ 64 - digitsValue n.digits) % 2 ^ 64
  else digitsValue n.digits

end Numeral

/-- The sign that a text begins with, and the text behind it. -/
def splitSign : List UInt8 → Sign × List UInt8
  | 45 :: t => (.minus, t)
  | 43 :: t => (.plus, t)
  | t => (.none, t)

theorem splitSign_text (t : List UInt8) : (splitSign t).1.text ++ (splitSign t).2 = t := by
  unfold splitSign
  split <;> rfl

/-- Digits are not a sign. -/
theorem splitSign_eq (sign : Sign) {digits : List UInt8} (hdigits : digits.all isdigit = true) :
    splitSign (sign.text ++ digits) = (sign, digits) := by
  cases sign with
  | plus => rfl
  | minus => rfl
  | none =>
    rw [Sign.text, List.nil_append]
    unfold splitSign
    split
    · cases hdigits
    · cases hdigits
    · rfl

/-- `strtoul` reads blanks, a sign and digits. -/
theorem strtoul_eq_ite (s : List UInt8) :
    strtoul s =
      let sign := (splitSign (s.dropWhile isspace)).1
      let t := (splitSign (s.dropWhile isspace)).2
      if t.takeWhile isdigit = [] then (0, s)
      else
        (if ulongMax < digitsValue (t.takeWhile isdigit) then ulongMax
          else if sign = .minus then (2 ^ 64 - digitsValue (t.takeWhile isdigit)) % 2 ^ 64
          else digitsValue (t.takeWhile isdigit), t.dropWhile isdigit) := by
  unfold strtoul
  dsimp only
  generalize s.dropWhile isspace = u
  unfold splitSign
  split <;> simp

theorem strtoul_numeral (n : Numeral) : strtoul n.text = (n.value, []) := by
  have hspace : n.text.dropWhile isspace = n.sign.text ++ n.digits := by
    unfold Numeral.text
    rw [dropWhile_eq_iff]
    refine ⟨⟨n.blanks, List.all_eq_true.mp n.isspace_blanks, rfl⟩, ?_⟩
    obtain ⟨c, tail, hcons⟩ := List.exists_cons_of_ne_nil n.digits_ne_nil
    have hc : isdigit c = true :=
      List.all_eq_true.mp n.isdigit_digits c (by rw [hcons]; exact List.mem_cons_self)
    cases n.sign with
    | plus => exact stopsAt_cons.mpr rfl
    | minus => exact stopsAt_cons.mpr rfl
    | none =>
      rw [Sign.text, List.nil_append, hcons]
      exact stopsAt_cons.mpr (isspace_of_isdigit hc)
  have htake : n.digits.takeWhile isdigit = n.digits :=
    List.takeWhile_eq_self_iff.mpr (List.all_eq_true.mp n.isdigit_digits)
  have hdrop : n.digits.dropWhile isdigit = [] :=
    List.dropWhile_eq_nil_iff.mpr (List.all_eq_true.mp n.isdigit_digits)
  rw [strtoul_eq_ite, hspace, splitSign_eq n.sign n.isdigit_digits]
  dsimp only
  rw [htake, hdrop, if_neg n.digits_ne_nil]
  rfl

/-- **The texts that `strtoul` reads to the end** are the numerals. -/
theorem strtoul_eq_iff {s : List UInt8} (hs : s ≠ []) {v : ℕ} :
    strtoul s = (v, []) ↔ ∃ n : Numeral, n.text = s ∧ n.value = v := by
  constructor
  · intro h
    rw [strtoul_eq_ite] at h
    set t := s.dropWhile isspace with ht
    dsimp only at h
    by_cases hnil : (splitSign t).2.takeWhile isdigit = []
    · rw [if_pos hnil] at h
      exact absurd (Prod.mk.inj h).2 hs
    · rw [if_neg hnil] at h
      obtain ⟨hvalue, hrest⟩ := Prod.mk.inj h
      have hall : (splitSign t).2.all isdigit = true :=
        List.all_eq_true.mpr (List.dropWhile_eq_nil_iff.mp hrest)
      have hdigits : (splitSign t).2.takeWhile isdigit = (splitSign t).2 :=
        List.takeWhile_eq_self_iff.mpr (List.all_eq_true.mp hall)
      rw [hdigits] at hvalue hnil
      refine ⟨⟨s.takeWhile isspace, (splitSign t).1, (splitSign t).2,
        List.all_eq_true.mpr fun c hc => List.mem_takeWhile_imp hc, hall, hnil⟩, ?_, hvalue⟩
      show s.takeWhile isspace ++ ((splitSign t).1.text ++ (splitSign t).2) = s
      rw [splitSign_text, ht, List.takeWhile_append_dropWhile]
  · rintro ⟨n, rfl, rfl⟩
    exact strtoul_numeral n

end CString
