import Mathlib.Data.Nat.Digits.Lemmas
import MiniDbms.Lib.Json.Basic
import MiniDbms.Lib.Utf8

/-!
# Writing JSON

`quote` writes a string: `readString_quote` says that a reader stops at the closing quote, whatever
comes behind it, and finds the bytes that were written.

`Spells text value` says that `text` is read as `value`, whatever comes behind it that may follow a
value (`Follows`).  The lemmas `spells_*` put texts together: strings, numbers, arrays and objects;
`SpellsElements` and `SpellsMembers` are what stands between the brackets.
-/

namespace Json

open CString

/-! ### Strings -/

/-- The letter of the two-character escape that a byte has. -/
def shortEscape (c : UInt8) : Option UInt8 :=
  if c = 92 then some 92
  else if c = 34 then some 34
  else if c = 8 then some 98
  else if c = 12 then some 102
  else if c = 10 then some 110
  else if c = 13 then some 114
  else if c = 9 then some 116
  else none

/-- A byte of a string. -/
def escapeByte (c : UInt8) : List UInt8 :=
  match shortEscape c with
  | some e => [92, e]
  | none => if c < 32 then 92 :: 117 :: hex4 c.toNat else [c]

/-- A string, with its quotes. -/
def quote (text : List UInt8) : List UInt8 := 34 :: (text.flatMap escapeByte ++ [34])

theorem length_escapeByte_le (c : UInt8) : (escapeByte c).length ≤ 6 := by
  unfold escapeByte
  cases shortEscape c with
  | some e => exact (by decide : 2 ≤ 6)
  | none =>
    dsimp only
    split_ifs
    · exact le_refl 6
    · exact (by decide : 1 ≤ 6)

theorem length_quote_le (text : List UInt8) : (quote text).length ≤ 6 * text.length + 2 := by
  have hbytes : (text.flatMap escapeByte).length ≤ 6 * text.length := by
    induction text with
    | nil => exact le_refl 0
    | cons c text ih =>
      have hc := length_escapeByte_le c
      rw [List.flatMap_cons, List.length_append, List.length_cons]
      omega
  rw [quote, List.length_cons, List.length_append, List.length_singleton]
  omega

/-- What a reader makes of the text of one byte. -/
def pieceOf (c : UInt8) : Piece :=
  match shortEscape c with
  | some _ => .byte c
  | none => if c < 32 then .unit c.toNat else .byte c

/-- The two-character escapes are read back. -/
theorem simpleEscape_shortEscape {c e : UInt8} (h : shortEscape c = some e) :
    simpleEscape e = some c ∧ e ≠ 117 := by
  unfold shortEscape at h
  split_ifs at h with h1 h2 h3 h4 h5 h6 h7 <;> cases h <;> subst c <;> exact ⟨rfl, by decide⟩

/-- A byte that stands for itself is no quote and no backslash. -/
theorem shortEscape_none {c : UInt8} (h : shortEscape c = none) : c ≠ 92 ∧ c ≠ 34 := by
  unfold shortEscape at h
  split_ifs at h with h1 h2
  exact ⟨h1, h2⟩

/-- The four digits of a control character are read back. -/
theorem hexValue4_control {c : UInt8} (h : c < 32) :
    ∃ x₃ x₂ x₁ x₀, hex4 c.toNat = [x₃, x₂, x₁, x₀] ∧ hexValue4 x₃ x₂ x₁ x₀ = some c.toNat := by
  have hall : ∀ n < 32, hexValue4 (hexDigit (n / 4096 % 16)) (hexDigit (n / 256 % 16))
      (hexDigit (n / 16 % 16)) (hexDigit (n % 16)) = some n := by decide
  exact ⟨_, _, _, _, rfl, hall _ (UInt8.lt_iff_toNat_lt.mp h)⟩

/-- The closing quote. -/
theorem readPieces_quote (s : List UInt8) : readPieces (34 :: s) = some ([], s) := by
  rw [readPieces.eq_def]
  rfl

/-- A two-character escape. -/
theorem readPieces_short {e c : UInt8} (h : simpleEscape e = some c) (hne : e ≠ 117)
    (s : List UInt8) :
    readPieces (92 :: e :: s) = (readPieces s).map fun (ps, rest) => (.byte c :: ps, rest) := by
  rw [readPieces.eq_def]
  simp only [if_neg hne, h, if_neg (show (92 : UInt8) ≠ 34 by decide), if_true]
  cases readPieces s <;> rfl

/-- An escape with four digits. -/
theorem readPieces_unit {x₃ x₂ x₁ x₀ : UInt8} {n : ℕ} (h : hexValue4 x₃ x₂ x₁ x₀ = some n)
    (s : List UInt8) :
    readPieces (92 :: 117 :: x₃ :: x₂ :: x₁ :: x₀ :: s) =
      (readPieces s).map fun (ps, rest) => (.unit n :: ps, rest) := by
  rw [readPieces.eq_def]
  simp only [h, if_neg (show (92 : UInt8) ≠ 34 by decide), if_true]
  cases readPieces s <;> rfl

/-- A byte that stands for itself. -/
theorem readPieces_plain {c : UInt8} (hquote : c ≠ 34) (hback : c ≠ 92) (hcontrol : ¬ c < 32)
    (s : List UInt8) :
    readPieces (c :: s) = (readPieces s).map fun (ps, rest) => (.byte c :: ps, rest) := by
  rw [readPieces.eq_def]
  simp only [if_neg hquote, if_neg hback, if_neg hcontrol]
  cases readPieces s <;> rfl

/-- One byte of a string is read as one piece. -/
theorem readPieces_escapeByte (c : UInt8) (s : List UInt8) :
    readPieces (escapeByte c ++ s) =
      (readPieces s).map fun (ps, rest) => (pieceOf c :: ps, rest) := by
  unfold escapeByte pieceOf
  cases hshort : shortEscape c with
  | some e =>
    obtain ⟨hread, hne⟩ := simpleEscape_shortEscape hshort
    exact readPieces_short hread hne s
  | none =>
    obtain ⟨hback, hquote⟩ := shortEscape_none hshort
    by_cases hcontrol : c < 32
    · obtain ⟨x₃, x₂, x₁, x₀, hhex, hvalue⟩ := hexValue4_control hcontrol
      simp only [if_pos hcontrol, hhex]
      exact readPieces_unit hvalue s
    · simp only [if_neg hcontrol]
      exact readPieces_plain hquote hback hcontrol s

/-- A code unit that is no surrogate stands for itself. -/
theorem bytesOf_unit {code : ℕ} (h : code < 0xD800) (ps : List Piece) :
    bytesOf (.unit code :: ps) = utf8 code ++ bytesOf ps := by
  rw [bytesOf.eq_def]
  cases ps with
  | nil => rfl
  | cons p ps =>
    cases p with
    | byte d => rfl
    | unit low =>
      have hpair : isPair code low = false := by
        simp only [isPair, Bool.and_eq_false_iff, decide_eq_false_iff_not]
        omega
      simp only [hpair]
      rfl

/-- The piece of a byte stands for that byte, whatever comes behind it. -/
theorem bytesOf_pieceOf (c : UInt8) (ps : List Piece) :
    bytesOf (pieceOf c :: ps) = c :: bytesOf ps := by
  unfold pieceOf
  cases shortEscape c with
  | some e => rfl
  | none =>
    by_cases hcontrol : c < 32
    · have hlt : c.toNat < 32 := UInt8.lt_iff_toNat_lt.mp hcontrol
      simp only [if_pos hcontrol]
      rw [bytesOf_unit (by omega), utf8, if_pos (by omega), Nat.toUInt8, UInt8.ofNat_toNat]
      rfl
    · simp only [if_neg hcontrol]
      rfl

theorem readPieces_escape (text rest : List UInt8) :
    readPieces (text.flatMap escapeByte ++ 34 :: rest) = some (text.map pieceOf, rest) := by
  induction text with
  | nil => exact readPieces_quote rest
  | cons c text ih =>
    rw [List.flatMap_cons, List.append_assoc, readPieces_escapeByte, ih]
    rfl

/-- **Strings are read back**, and the reader stops at the closing quote. -/
theorem readString_quote (text rest : List UInt8) :
    readString (text.flatMap escapeByte ++ 34 :: rest) = some (text, rest) := by
  have hbytes : bytesOf (text.map pieceOf) = text := by
    induction text with
    | nil => rfl
    | cons c text ih => rw [List.map_cons, bytesOf_pieceOf, ih]
  rw [readString, readPieces_escape, Option.map_some]
  simp only [hbytes]

/-! ### No control characters -/

/-- No byte of `text` is a control character; there is no `NUL` in it either. -/
def Printable (text : List UInt8) : Prop := ∀ c ∈ text, 32 ≤ c

instance (text : List UInt8) : Decidable (Printable text) :=
  List.decidableBAll (32 ≤ ·) text

@[simp] theorem printable_append {s t : List UInt8} :
    Printable (s ++ t) ↔ Printable s ∧ Printable t := by
  simp only [Printable, List.mem_append, or_imp, forall_and]

@[simp] theorem printable_cons {c : UInt8} {t : List UInt8} :
    Printable (c :: t) ↔ 32 ≤ c ∧ Printable t := by
  simp only [Printable, List.mem_cons, or_imp, forall_and, forall_eq]

@[simp] theorem printable_nil : Printable [] := by
  simp [Printable]

theorem Printable.zero_notMem {text : List UInt8} (h : Printable text) : 0 ∉ text :=
  fun h0 => absurd (h 0 h0) (by decide)

theorem printable_decimalDigits (n : ℕ) : Printable (decimalDigits n) := by
  intro c hc
  have hdigit := isdigit_decimalDigits c hc
  simp only [isdigit, Bool.and_eq_true, decide_eq_true_eq] at hdigit
  exact UInt8.le_trans (by decide) hdigit.1

theorem printable_intText (n : ℤ) : Printable (intText n) := by
  rw [intText, printable_append]
  refine ⟨?_, printable_decimalDigits _⟩
  split_ifs <;> decide

/-- A control character is written with an escape. -/
theorem printable_escapeByte (c : UInt8) : Printable (escapeByte c) := by
  unfold escapeByte
  cases hshort : shortEscape c with
  | some e =>
    have he : 32 ≤ e := by
      unfold shortEscape at hshort
      split_ifs at hshort <;> cases hshort <;> decide
    simp only [printable_cons, printable_nil, and_true]
    exact ⟨by decide, he⟩
  | none =>
    have hhex : ∀ n < 32, Printable (hex4 n) := by decide
    by_cases hcontrol : c < 32
    · simp only [if_pos hcontrol, printable_cons]
      exact ⟨by decide, by decide, hhex _ (UInt8.lt_iff_toNat_lt.mp hcontrol)⟩
    · simp only [if_neg hcontrol, printable_cons, printable_nil, and_true]
      exact UInt8.not_lt.mp hcontrol

theorem printable_quote (text : List UInt8) : Printable (quote text) := by
  have hescape : Printable (text.flatMap escapeByte) := by
    intro c hc
    obtain ⟨d, -, hd⟩ := List.mem_flatMap.mp hc
    exact printable_escapeByte d c hd
  rw [quote, printable_cons, printable_append]
  exact ⟨by decide, hescape, by decide⟩

/-! ### UTF-8 -/

theorem ascii_decimalDigits (n : ℕ) : Utf8.Ascii (decimalDigits n) := by
  intro c hc
  have hdigit := isdigit_decimalDigits c hc
  simp only [isdigit, Bool.and_eq_true, decide_eq_true_eq] at hdigit
  exact UInt8.lt_of_le_of_lt hdigit.2 (by decide)

theorem ascii_intText (n : ℤ) : Utf8.Ascii (intText n) := by
  rw [intText, Utf8.ascii_append]
  refine ⟨?_, ascii_decimalDigits _⟩
  split_ifs <;> decide

/-- Escapes are ASCII, and every byte that is not stands for itself. -/
theorem ascii_escapeByte {c : UInt8} (h : c < 128) :
    Utf8.Ascii (escapeByte c) ∧ escapeByte c ≠ [] :=
  Utf8.of_lt (P := fun c => Utf8.Ascii (escapeByte c) ∧ escapeByte c ≠ []) (by decide) h

theorem escapeByte_of_not_lt {c : UInt8} (h : ¬ c < 128) : escapeByte c = [c] := by
  have hne : ∀ d : UInt8, d < 128 → c ≠ d := by
    rintro d hd rfl
    exact h hd
  have hcontrol : ¬ c < 32 := fun hlt => h (UInt8.lt_trans hlt (by decide))
  have hshort : shortEscape c = none := by
    unfold shortEscape
    simp only [if_neg (hne 92 (by decide)), if_neg (hne 34 (by decide)), if_neg (hne 8 (by decide)),
      if_neg (hne 12 (by decide)), if_neg (hne 10 (by decide)), if_neg (hne 13 (by decide)),
      if_neg (hne 9 (by decide))]
  rw [escapeByte, hshort]
  exact if_neg hcontrol

/-- **A written string is UTF-8 exactly when the string is.** -/
theorem valid_quote_iff (text : List UInt8) : Utf8.Valid (quote text) ↔ Utf8.Valid text := by
  rw [quote, ← List.singleton_append, Utf8.valid_ascii_append (by decide),
    Utf8.valid_append_ascii (by decide)]
  exact Utf8.valid_flatMap_iff (fun _ h => ascii_escapeByte h)
    (fun _ h => escapeByte_of_not_lt h) text

theorem ascii_quote {text : List UInt8} (h : Utf8.Ascii text) : Utf8.Ascii (quote text) := by
  rw [quote, Utf8.ascii_cons, Utf8.ascii_append]
  refine ⟨by decide, fun c hc => ?_, by decide⟩
  obtain ⟨d, hd, hc⟩ := List.mem_flatMap.mp hc
  exact (ascii_escapeByte (h d hd)).1 c hc

/-! ### Values -/

/-- What may come behind a value: the end, or a byte that goes on with an array or an object. -/
def Follows (rest : List UInt8) : Prop := ∀ c ∈ rest.head?, c = 44 ∨ c = 93 ∨ c = 125

theorem follows_nil : Follows [] := by
  simp [Follows]

@[simp] theorem follows_cons {c : UInt8} {rest : List UInt8} :
    Follows (c :: rest) ↔ c = 44 ∨ c = 93 ∨ c = 125 := by
  simp [Follows]

/-- `text` is read as `value`. -/
def Spells (text : List UInt8) (value : Value) : Prop :=
  ∀ fuel rest, text.length < fuel → Follows rest →
    readValue fuel (text ++ rest) = some (value, rest)

/-- A text that spells a value is read as this value, with nothing behind it. -/
theorem Spells.read {text : List UInt8} {value : Value} (h : Spells text value) :
    read text = some (value, []) := by
  have hread := h (text.length + 1) [] (Nat.lt_succ_self _) follows_nil
  rwa [List.append_nil] at hread

/-- A string is read whatever comes behind it. -/
theorem readValue_quote (fuel : ℕ) (text rest : List UInt8) :
    readValue (fuel + 1) (quote text ++ rest) = some (.string text, rest) := by
  rw [quote, List.cons_append, List.append_assoc, readValue, if_neg (by decide),
    if_neg (by decide), if_pos rfl, List.singleton_append, readString_quote, Option.map_some]

theorem read_quote (text rest : List UInt8) :
    read (quote text ++ rest) = some (.string text, rest) :=
  readValue_quote _ text rest

/-- No literal is the beginning of another one. -/
theorem eq_of_quote_prefix {text text' : List UInt8} (h : quote text <+: quote text') :
    text = text' := by
  obtain ⟨rest, hrest⟩ := h
  have hread := read_quote text' []
  rw [List.append_nil, ← hrest, read_quote] at hread
  cases hread
  rfl

theorem spells_string (text : List UInt8) : Spells (quote text) (.string text) := by
  intro fuel rest hfuel _
  obtain ⟨fuel, rfl⟩ := Nat.exists_eq_add_one.mpr (Nat.zero_lt_of_lt hfuel)
  exact readValue_quote fuel text rest

theorem spells_true : Spells (ascii "true") (.bool true) := by
  intro fuel rest hfuel _
  obtain ⟨fuel, rfl⟩ := Nat.exists_eq_add_one.mpr (Nat.zero_lt_of_lt hfuel)
  show readValue (fuel + 1) (116 :: 114 :: 117 :: 101 :: rest) = some (.bool true, rest)
  rw [readValue]
  rfl

theorem spells_false : Spells (ascii "false") (.bool false) := by
  intro fuel rest hfuel _
  obtain ⟨fuel, rfl⟩ := Nat.exists_eq_add_one.mpr (Nat.zero_lt_of_lt hfuel)
  show readValue (fuel + 1) (102 :: 97 :: 108 :: 115 :: 101 :: rest) = some (.bool false, rest)
  rw [readValue]
  rfl

/-! ### Integers -/

/-- No number begins with a digit 0 that is followed by others. -/
theorem decimalDigits_head {n : ℕ} (h : (decimalDigits n).head? = some 48) :
    decimalDigits n = [48] := by
  unfold decimalDigits at h ⊢
  split_ifs at h ⊢ with hn
  · rfl
  · exfalso
    have hne : Nat.digits 10 n ≠ [] := Nat.digits_ne_nil_iff_ne_zero.mpr hn
    rw [List.head?_map, List.head?_reverse, List.getLast?_eq_some_getLast hne, Option.map_some] at h
    have hlast := Nat.getLast_digit_ne_zero 10 hn
    have hlt := Nat.digits_lt_base (by omega : 1 < 10) (List.getLast_mem hne)
    have hvalue := congrArg UInt8.toNat (Option.some.inj h)
    rw [toNat_decimalDigit hlt] at hvalue
    exact hlast (by simpa using hvalue)

theorem readUnsigned_decimalDigits (n : ℕ) {rest : List UInt8} (hrest : Follows rest) :
    readUnsigned (decimalDigits n ++ rest) = some ((n, 0), rest) := by
  have hstop : StopsAt isdigit rest := by
    intro c hc
    rcases hrest c hc with rfl | rfl | rfl <;> rfl
  have hdigits : readDigits (decimalDigits n ++ rest) = some (decimalDigits n, rest) := by
    rw [readDigits, takeWhile_eq_of_stopsAt isdigit_decimalDigits hstop,
      dropWhile_eq_iff.mpr ⟨⟨_, isdigit_decimalDigits, rfl⟩, hstop⟩]
    exact if_neg (decimalDigits_ne_nil n)
  have hfraction : readFraction rest = some ([], rest) := by
    cases rest with
    | nil => rfl
    | cons c rest => rcases follows_cons.mp hrest with rfl | rfl | rfl <;> rfl
  have hexponent : readExponent rest = some (0, rest) := by
    cases rest with
    | nil => rfl
    | cons c rest => rcases follows_cons.mp hrest with rfl | rfl | rfl <;> rfl
  have hzero : ¬ ((decimalDigits n).head? = some 48 ∧ decimalDigits n ≠ [48]) :=
    fun ⟨hhead, hne⟩ => hne (decimalDigits_head hhead)
  simp only [readUnsigned, hdigits, Option.bind_eq_bind, Option.bind_some, if_neg hzero, hfraction,
    hexponent, List.append_nil, digitsValue_decimalDigits, List.length_nil]
  rfl

/-- A number begins with its sign or a digit. -/
theorem readValue_number {fuel : ℕ} {c : UInt8} (hc : c = 45 ∨ isdigit c = true) (s : List UInt8) :
    readValue (fuel + 1) (c :: s) = readNumber (c :: s) := by
  have hne : ∀ d : UInt8, ¬ (d = 45 ∨ isdigit d = true) → c ≠ d := by
    rintro d hd rfl
    exact hd hc
  rw [readValue.eq_def]
  simp only [if_neg (hne 123 (by decide)), if_neg (hne 91 (by decide)), if_neg (hne 34 (by decide)),
    if_neg (hne 116 (by decide)), if_neg (hne 102 (by decide)), if_neg (hne 110 (by decide))]

theorem spells_int (n : ℤ) : Spells (intText n) (.number n 0) := by
  intro fuel rest hfuel hrest
  obtain ⟨fuel, rfl⟩ := Nat.exists_eq_add_one.mpr (Nat.zero_lt_of_lt hfuel)
  by_cases hn : n < 0
  · rw [intText, if_pos hn, List.append_assoc, List.singleton_append,
      readValue_number (Or.inl rfl), readNumber, readUnsigned_decimalDigits _ hrest,
      Option.map_some]
    simp only [show -(n.natAbs : ℤ) = n by omega]
  · cases hdigits : decimalDigits n.natAbs with
    | nil => exact absurd hdigits (decimalDigits_ne_nil _)
    | cons c digits =>
      have hc : isdigit c = true :=
        isdigit_decimalDigits c (by rw [hdigits]; exact List.mem_cons_self)
      have h45 : c ≠ 45 := by
        rintro rfl
        exact absurd hc (by decide)
      have hread := readUnsigned_decimalDigits n.natAbs hrest
      rw [hdigits, List.cons_append] at hread
      rw [intText, if_neg hn, List.nil_append, hdigits, List.cons_append,
        readValue_number (Or.inr hc), readNumber.eq_def]
      split
      · rename_i s heq
        exact absurd (List.cons.inj heq).1 h45
      · rw [hread, Option.map_some]
        simp only [show (n.natAbs : ℤ) = n by omega]

/-! ### Arrays and objects -/

/-- A value begins with a byte that is neither whitespace nor a closing bracket. -/
theorem readValue_first {fuel : ℕ} {c : UInt8} {s : List UInt8} {r : Value × List UInt8}
    (h : readValue fuel (c :: s) = some r) : isSpace c = false ∧ c ≠ 93 := by
  cases fuel with
  | zero => cases h
  | succ fuel =>
    have hnone : ∀ d ∈ [32, 9, 10, 13, 93], readValue (fuel + 1) (d :: s) = none := by
      intro d hd
      simp only [List.mem_cons, List.not_mem_nil, or_false] at hd
      rcases hd with rfl | rfl | rfl | rfl | rfl <;> rfl
    have hne : ∀ d ∈ [32, 9, 10, 13, 93], c ≠ d := by
      rintro d hd rfl
      rw [hnone c hd] at h
      cases h
    refine ⟨?_, hne 93 (by decide)⟩
    simp only [isSpace, Bool.or_eq_false_iff, beq_eq_false_iff_ne]
    exact ⟨⟨⟨hne 32 (by decide), hne 9 (by decide)⟩, hne 10 (by decide)⟩, hne 13 (by decide)⟩

theorem skipSpaces_cons {c : UInt8} (h : isSpace c = false) (s : List UInt8) :
    skipSpaces (c :: s) = c :: s := by
  rw [skipSpaces, List.dropWhile_cons_of_neg (by rw [h]; exact Bool.noConfusion)]

theorem Spells.exists_cons {text : List UInt8} {value : Value} (h : Spells text value) :
    ∃ c t, text = c :: t ∧ isSpace c = false ∧ c ≠ 93 := by
  have hread := h (text.length + 1) [] (Nat.lt_succ_self _) follows_nil
  rw [List.append_nil] at hread
  cases text with
  | nil => cases hread
  | cons c t => exact ⟨c, t, rfl, readValue_first hread⟩

/-- A string or another value behind which the text goes on with `c`. -/
theorem Spells.before {text : List UInt8} {value : Value} (h : Spells text value) (fuel : ℕ)
    (hfuel : text.length < fuel) {c : UInt8} (hc : c = 44 ∨ c = 93 ∨ c = 125) (s : List UInt8) :
    readValue fuel (text ++ c :: s) = some (value, c :: s) ∧ skipSpaces (c :: s) = c :: s ∧
      skipSpaces (text ++ c :: s) = text ++ c :: s := by
  obtain ⟨d, t, rfl, hd, -⟩ := h.exists_cons
  refine ⟨h fuel _ hfuel (follows_cons.mpr hc), skipSpaces_cons ?_ s, skipSpaces_cons hd _⟩
  rcases hc with rfl | rfl | rfl <;> rfl

/-- `text` is read as the elements of an array, up to its closing bracket. -/
structure SpellsElements (text : List UInt8) (elements : List Value) : Prop where
  first : ∃ c t, text = c :: t ∧ isSpace c = false ∧ c ≠ 93
  read : ∀ fuel rest, text.length + 1 < fuel →
    readElements fuel (text ++ 93 :: rest) = some (elements, rest)

theorem Spells.element {text : List UInt8} {value : Value} (h : Spells text value) :
    SpellsElements text [value] := by
  refine ⟨h.exists_cons, fun fuel rest hfuel => ?_⟩
  obtain ⟨fuel, rfl⟩ := Nat.exists_eq_add_one.mpr (Nat.zero_lt_of_lt hfuel)
  obtain ⟨hread, hskip, -⟩ := h.before _ (Nat.lt_of_succ_lt_succ hfuel) (Or.inr (Or.inl rfl)) rest
  simp only [readElements, hread, hskip, Option.bind_eq_bind, Option.bind_some]
  rfl

theorem Spells.elements {text text' : List UInt8} {value : Value} {elements : List Value}
    (h : Spells text value) (h' : SpellsElements text' elements) :
    SpellsElements (text ++ 44 :: text') (value :: elements) := by
  obtain ⟨c, t, htext, hc⟩ := h.exists_cons
  obtain ⟨d, t', htext', hd, -⟩ := h'.first
  refine ⟨⟨c, t ++ 44 :: text', by rw [htext, List.cons_append], hc⟩, fun fuel rest hfuel => ?_⟩
  obtain ⟨fuel, rfl⟩ := Nat.exists_eq_add_one.mpr (Nat.zero_lt_of_lt hfuel)
  rw [List.length_append, List.length_cons] at hfuel
  obtain ⟨hread, hskip, -⟩ := h.before fuel (by omega) (Or.inl rfl) (text' ++ 93 :: rest)
  have hskip' : skipSpaces (text' ++ 93 :: rest) = text' ++ 93 :: rest := by
    rw [htext']
    exact skipSpaces_cons hd _
  rw [List.append_assoc, List.cons_append]
  simp only [readElements, hread, hskip, hskip', Option.bind_eq_bind, Option.bind_some, if_true,
    h'.read fuel rest (by omega)]

theorem spells_empty : Spells [91, 93] (.array []) := by
  intro fuel rest hfuel _
  obtain ⟨fuel, rfl⟩ := Nat.exists_eq_add_one.mpr (Nat.zero_lt_of_lt hfuel)
  rfl

/-- **Arrays are read back.** -/
theorem SpellsElements.array {text : List UInt8} {elements : List Value}
    (h : SpellsElements text elements) : Spells (91 :: (text ++ [93])) (.array elements) := by
  intro fuel rest hfuel _
  obtain ⟨fuel, rfl⟩ := Nat.exists_eq_add_one.mpr (Nat.zero_lt_of_lt hfuel)
  rw [List.length_cons, List.length_append, List.length_singleton] at hfuel
  have hread := h.read fuel rest (by omega)
  obtain ⟨c, t, rfl, hc, h93⟩ := h.first
  rw [List.cons_append, List.append_assoc, List.singleton_append, readValue, if_neg (by decide),
    if_pos rfl, List.cons_append, skipSpaces_cons hc]
  split
  · rename_i s heq
    exact absurd (List.cons.inj heq).1 h93
  · rw [← List.cons_append, hread]
    rfl

/-- `text` is read as the members of an object, up to its closing brace. -/
structure SpellsMembers (text : List UInt8) (members : List (List UInt8 × Value)) : Prop where
  first : ∃ t, text = 34 :: t
  read : ∀ fuel rest, text.length + 1 < fuel →
    readMembers fuel (text ++ 125 :: rest) = some (members, rest)

theorem Spells.member {text : List UInt8} {value : Value} (h : Spells text value)
    (name : List UInt8) : SpellsMembers (quote name ++ 58 :: text) [(name, value)] := by
  refine ⟨⟨_, rfl⟩, fun fuel rest hfuel => ?_⟩
  obtain ⟨fuel, rfl⟩ := Nat.exists_eq_add_one.mpr (Nat.zero_lt_of_lt hfuel)
  rw [List.length_append, List.length_cons] at hfuel
  obtain ⟨hread, hskip, hskip'⟩ := h.before fuel (by omega) (Or.inr (Or.inr rfl)) rest
  have hcolon : skipSpaces (58 :: (text ++ 125 :: rest)) = 58 :: (text ++ 125 :: rest) :=
    skipSpaces_cons rfl _
  rw [quote, List.append_assoc, List.cons_append, List.append_assoc]
  simp only [readMembers, List.nil_append, List.cons_append, readString_quote, hcolon, hskip',
    hread, hskip, Option.bind_eq_bind, Option.bind_some, ne_eq, not_true_eq_false, if_false]
  rfl

theorem Spells.members {text text' : List UInt8} {value : Value}
    {members : List (List UInt8 × Value)} (h : Spells text value) (name : List UInt8)
    (h' : SpellsMembers text' members) :
    SpellsMembers (quote name ++ 58 :: (text ++ 44 :: text')) ((name, value) :: members) := by
  refine ⟨⟨_, rfl⟩, fun fuel rest hfuel => ?_⟩
  obtain ⟨fuel, rfl⟩ := Nat.exists_eq_add_one.mpr (Nat.zero_lt_of_lt hfuel)
  rw [List.length_append, List.length_cons, List.length_append, List.length_cons] at hfuel
  obtain ⟨hread, hskip, hskip'⟩ := h.before fuel (by omega) (Or.inl rfl)
    (text' ++ 125 :: rest)
  have hmembers := h'.read fuel rest (by omega)
  obtain ⟨t', rfl⟩ := h'.first
  have hname : skipSpaces (34 :: (t' ++ 125 :: rest)) = 34 :: (t' ++ 125 :: rest) :=
    skipSpaces_cons rfl _
  have hcolon : skipSpaces (58 :: (text ++ 44 :: (34 :: (t' ++ 125 :: rest)))) =
      58 :: (text ++ 44 :: (34 :: (t' ++ 125 :: rest))) := skipSpaces_cons rfl _
  rw [List.cons_append] at hmembers hread hskip hskip'
  rw [quote, List.append_assoc, List.cons_append, List.append_assoc]
  simp only [readMembers, List.nil_append, List.cons_append, List.append_assoc,
    readString_quote, hcolon, hskip', hread, hskip, hname, hmembers, Option.bind_eq_bind,
    Option.bind_some, ne_eq, not_true_eq_false, if_false, if_true]

/-- **Objects are read back.** -/
theorem SpellsMembers.object {text : List UInt8} {members : List (List UInt8 × Value)}
    (h : SpellsMembers text members) : Spells (123 :: (text ++ [125])) (.object members) := by
  intro fuel rest hfuel _
  obtain ⟨fuel, rfl⟩ := Nat.exists_eq_add_one.mpr (Nat.zero_lt_of_lt hfuel)
  rw [List.length_cons, List.length_append, List.length_singleton] at hfuel
  have hread := h.read fuel rest (by omega)
  obtain ⟨t, rfl⟩ := h.first
  rw [List.cons_append, List.append_assoc, List.singleton_append, readValue, if_pos rfl,
    List.cons_append, skipSpaces_cons rfl]
  show (readMembers fuel (34 :: t ++ 125 :: rest)).map _ = _
  rw [hread]
  rfl

end Json
