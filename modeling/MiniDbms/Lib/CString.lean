import Mathlib.Data.List.Basic
import Mathlib.Data.List.TakeWhile
import Mathlib.Data.Nat.Digits.Lemmas
import Mathlib.Tactic.Common

/-!
# C strings: character classes, comparison, searching, numbers

A C string is the list of its bytes without the terminating `NUL`; a position in it is the list of
the bytes from there on, and `[]` is the position of the `NUL`.  The character classes are those of
the "C" locale.

`CString.dropWhile_eq_iff` reads a loop that skips a class of bytes as a decomposition of the
string: what was skipped, and a rest that does not go on with that class.
-/

namespace CString

/-- The bytes of an ASCII literal. -/
def ascii (s : String) : List UInt8 := s.toList.map fun c => c.toNat.toUInt8

theorem ascii_append (s t : String) : ascii (s ++ t) = ascii s ++ ascii t := by
  rw [ascii, String.toList_append, List.map_append]
  rfl

/-- A literal is the list of its characters: rewriting with this one is faster than evaluating
it. -/
theorem ascii_ofList (chars : List Char) :
    ascii (String.ofList chars) = chars.map fun c => c.toNat.toUInt8 := by
  rw [ascii, String.toList_ofList]

theorem ascii_ne_nil {s : String} (h : s ≠ "") : ascii s ≠ [] := by
  apply mt List.map_eq_nil_iff.mp
  exact mt String.toList_eq_nil_iff.mp h

/-- The byte at a position. -/
def peek (s : List UInt8) : UInt8 := s.headD 0

theorem peek_cons (c : UInt8) (s : List UInt8) : peek (c :: s) = c := rfl

theorem peek_ne {c : UInt8} (hc : c ≠ 0) {s : List UInt8} (h : ∀ rest, s = c :: rest → False) :
    peek s ≠ c := by
  cases s with
  | nil => exact hc.symm
  | cons d rest =>
    intro hd
    exact h rest (by rw [← hd, peek_cons])

/-- `isspace` -/
def isspace (c : UInt8) : Bool := c == 32 || 9 ≤ c && c ≤ 13

/-- `isdigit` -/
def isdigit (c : UInt8) : Bool := 48 ≤ c && c ≤ 57

/-- `isalpha` -/
def isalpha (c : UInt8) : Bool := 65 ≤ c && c ≤ 90 || 97 ≤ c && c ≤ 122

/-- `isalnum` -/
def isalnum (c : UInt8) : Bool := isalpha c || isdigit c

/-- `tolower` -/
def tolower (c : UInt8) : UInt8 := if 65 ≤ c && c ≤ 90 then c + 32 else c

/-- `strcasecmp(s, t) == 0` -/
def casecmpEq (s t : List UInt8) : Bool := s.map tolower == t.map tolower

/-! ### Skipping -/

/-- A rest that does not go on with a class of bytes. -/
def StopsAt (p : UInt8 → Bool) (rest : List UInt8) : Prop := ∀ c ∈ rest.head?, p c = false

theorem stopsAt_nil (p : UInt8 → Bool) : StopsAt p [] := by
  simp [StopsAt]

@[simp] theorem stopsAt_cons {p : UInt8 → Bool} {c : UInt8} {rest : List UInt8} :
    StopsAt p (c :: rest) ↔ p c = false := by
  simp [StopsAt]

theorem stopsAt_iff_peek {p : UInt8 → Bool} (h0 : p 0 = false) {rest : List UInt8} :
    StopsAt p rest ↔ p (peek rest) = false := by
  cases rest with
  | nil => simp [StopsAt, peek, h0]
  | cons c rest => rw [stopsAt_cons, peek, List.headD_cons]

/-- The class of a single byte. -/
theorem stopsAt_beq_iff {k : UInt8} {rest : List UInt8} :
    StopsAt (· == k) rest ↔ rest.head? ≠ some k := by
  cases rest with
  | nil => simp [StopsAt]
  | cons c rest => simp

/-- Skipping a class of bytes. -/
theorem dropWhile_eq_iff {p : UInt8 → Bool} {s rest : List UInt8} :
    s.dropWhile p = rest ↔ (∃ w, (∀ c ∈ w, p c = true) ∧ s = w ++ rest) ∧ StopsAt p rest := by
  constructor
  · rintro rfl
    refine ⟨⟨s.takeWhile p, fun c hc => List.mem_takeWhile_imp hc,
      (List.takeWhile_append_dropWhile).symm⟩, ?_⟩
    cases hs : s.dropWhile p with
    | nil => exact stopsAt_nil p
    | cons c rest =>
      rw [stopsAt_cons]
      have h := List.head_dropWhile_not p (l := s) (by rw [hs]; exact List.cons_ne_nil _ _)
      simpa [hs] using h
  · rintro ⟨⟨w, hw, rfl⟩, hstop⟩
    rw [List.dropWhile_append_of_pos hw]
    cases rest with
    | nil => rfl
    | cons c rest =>
      rw [List.dropWhile_cons_of_neg]
      simpa using hstop

theorem takeWhile_eq_of_stopsAt {p : UInt8 → Bool} {w rest : List UInt8}
    (hw : ∀ c ∈ w, p c = true) (hstop : StopsAt p rest) : (w ++ rest).takeWhile p = w := by
  rw [List.takeWhile_append_of_pos hw]
  cases rest with
  | nil => simp
  | cons c rest =>
    rw [List.takeWhile_cons_of_neg (by simpa using hstop), List.append_nil]

/-! ### Comparison without case -/

theorem casecmpEq_iff {s t : List UInt8} :
    casecmpEq s t = true ↔ s.map tolower = t.map tolower := by
  rw [casecmpEq, beq_iff_eq]

/-- Case does not matter for the classes used in names. -/
theorem isalpha_tolower (c : UInt8) : isalpha (tolower c) = isalpha c := by
  simp only [isalpha, tolower]
  split_ifs with h
  · simp only [Bool.and_eq_true, decide_eq_true_eq, UInt8.le_iff_toNat_le] at h
    have h32 : (c + 32).toNat = c.toNat + 32 := by
      rw [UInt8.toNat_add]
      have : (32 : UInt8).toNat = 32 := rfl
      have h90 : (90 : UInt8).toNat = 90 := rfl
      omega
    have h65 : (65 : UInt8).toNat = 65 := rfl
    have h90 : (90 : UInt8).toNat = 90 := rfl
    have h97 : (97 : UInt8).toNat = 97 := rfl
    have h122 : (122 : UInt8).toNat = 122 := rfl
    simp only [UInt8.le_iff_toNat_le, h32, h65, h90, h97, h122]
    grind
  · rfl

/-! ### Searching -/

/-- `strstr(s, t)`: the position of the first occurrence. -/
def strstr (t : List UInt8) : List UInt8 → Option (List UInt8)
  | [] => if t = [] then some [] else none
  | c :: s => if t.isPrefixOf (c :: s) then some (c :: s) else strstr t s

/-- `strchr(s, c)`, for a byte other than `NUL`: what is in front of it, and its position. -/
def strchr (s : List UInt8) (c : UInt8) : Option (List UInt8 × List UInt8) :=
  match s.dropWhile (· ≠ c) with
  | [] => none
  | rest => some (s.takeWhile (· ≠ c), rest)

/-- `strtok_r`: the next token, and the position where the search for the one after it starts. -/
def strtok (isDelim : UInt8 → Bool) (s : List UInt8) : Option (List UInt8 × List UInt8) :=
  match s.dropWhile isDelim with
  | [] => none
  | t => some (t.takeWhile (!isDelim ·), (t.dropWhile (!isDelim ·)).drop 1)

/-- The conversion `%<width>s` of `sscanf`: a word, and the position behind it. -/
def scanWord (width : ℕ) (s : List UInt8) : Option (List UInt8 × List UInt8) :=
  let t := s.dropWhile isspace
  match (t.takeWhile (!isspace ·)).take width with
  | [] => none
  | word => some (word, t.drop word.length)

/-! ### Numbers -/

/-- The value of a sequence of decimal digits. -/
def digitsValue (digits : List UInt8) : ℕ :=
  digits.foldl (fun n c => 10 * n + (c.toNat - 48)) 0

/-- `LONG_MAX` and `LONG_MIN` of a 64-bit `long`. -/
def longMax : ℤ := 2 ^ 63 - 1
def longMin : ℤ := -2 ^ 63

/-- `strtol(s, &end, 10)`: the value, and the position of `end`.  Out-of-range values saturate;
without digits nothing is consumed. -/
def strtol (s : List UInt8) : ℤ × List UInt8 :=
  let t := s.dropWhile isspace
  let (negative, t) :=
    match t with
    | 45 :: t => (true, t)
    | 43 :: t => (false, t)
    | t => (false, t)
  let digits := t.takeWhile isdigit
  if digits = [] then (0, s)
  else
    let value : ℤ := digitsValue digits
    (max longMin (min longMax (if negative then -value else value)), t.dropWhile isdigit)

/-- `ULONG_MAX` of a 64-bit `unsigned long`. -/
def ulongMax : ℕ := 2 ^ 64 - 1

/-- `strtoul(s, &end, 10)`: the value, and the position of `end`.  Out-of-range values saturate, a
`-` negates modulo `2 ^ 64`; without digits nothing is consumed. -/
def strtoul (s : List UInt8) : ℕ × List UInt8 :=
  let t := s.dropWhile isspace
  let (negative, t) :=
    match t with
    | 45 :: t => (true, t)
    | 43 :: t => (false, t)
    | t => (false, t)
  let digits := t.takeWhile isdigit
  if digits = [] then (0, s)
  else
    let value := digitsValue digits
    (if ulongMax < value then ulongMax
      else if negative then (2 ^ 64 - value) % 2 ^ 64 else value, t.dropWhile isdigit)

/-- `strtol` from the position behind the spaces, and from the one behind the sign. -/
theorem strtol_eq_ite {s t u : List UInt8} (ht : s.dropWhile isspace = t)
    (hu : (if peek t = 45 ∨ peek t = 43 then t.tail else t) = u) :
    strtol s = if u.takeWhile isdigit = [] then (0, s)
      else (max longMin (min longMax (if peek t = 45 then -(digitsValue (u.takeWhile isdigit) : ℤ)
        else digitsValue (u.takeWhile isdigit))), u.dropWhile isdigit) := by
  have hsign : ∀ t : List UInt8, (match t with
      | 45 :: t => (true, t)
      | 43 :: t => (false, t)
      | t => (false, t)) =
      (decide (peek t = 45), if peek t = 45 ∨ peek t = 43 then t.tail else t) := by
    intro t
    split
    · rfl
    · rfl
    · rename_i h45 h43
      cases t with
      | nil => rfl
      | cons c t =>
        have hc45 : peek (c :: t) ≠ 45 := fun h : c = 45 => h45 t (by rw [h])
        have hc43 : peek (c :: t) ≠ 43 := fun h : c = 43 => h43 t (by rw [h])
        rw [if_neg (not_or.mpr ⟨hc45, hc43⟩), decide_eq_false hc45]
  simp only [strtol, ht, hsign, hu, decide_eq_true_eq]

/-- `strtol` on a text that begins with a digit or with `-`. -/
theorem strtol_eq {negative : Bool} {digits rest : List UInt8}
    (hdigits : ∀ c ∈ digits, isdigit c = true) (hstop : StopsAt isdigit rest)
    (hsign : negative = true ∨ digits ≠ []) :
    strtol ((if negative then [45] else []) ++ (digits ++ rest)) =
      if digits = [] then (0, (if negative then [45] else []) ++ (digits ++ rest))
      else (max longMin (min longMax (if negative then -(digitsValue digits : ℤ)
        else digitsValue digits)), rest) := by
  have htake := takeWhile_eq_of_stopsAt hdigits hstop
  have hdrop := dropWhile_eq_iff.mpr ⟨⟨digits, hdigits, rfl⟩, hstop⟩
  cases negative with
  | true =>
    rw [if_pos rfl, List.singleton_append, strtol_eq_ite (u := digits ++ rest) rfl rfl, htake,
      hdrop]
    rfl
  | false =>
    cases digits with
    | nil => simp at hsign
    | cons c digits =>
      have hc := hdigits c List.mem_cons_self
      -- a digit is neither space nor sign, so nothing is skipped
      have hspace : isspace c = false := by
        simp only [isdigit, isspace, Bool.and_eq_true, decide_eq_true_eq, Bool.or_eq_false_iff,
          beq_eq_false_iff_ne, Bool.and_eq_false_iff, decide_eq_false_iff_not,
          UInt8.le_iff_toNat_le] at hc ⊢
        have h48 : (48 : UInt8).toNat = 48 := rfl
        have h13 : (13 : UInt8).toNat = 13 := rfl
        refine ⟨?_, Or.inr (by omega)⟩
        rintro rfl
        exact absurd hc.1 (by decide)
      have h45 : c ≠ 45 := by
        rintro rfl
        exact absurd hc (by decide)
      have h43 : c ≠ 43 := by
        rintro rfl
        exact absurd hc (by decide)
      have hskip : (c :: digits ++ rest).dropWhile isspace = c :: digits ++ rest := by
        rw [List.cons_append, List.dropWhile_cons_of_neg (by rw [hspace]; exact Bool.noConfusion)]
      have hsign : (if peek (c :: digits ++ rest) = 45 ∨ peek (c :: digits ++ rest) = 43
          then (c :: digits ++ rest).tail else c :: digits ++ rest) = c :: digits ++ rest :=
        if_neg (not_or.mpr ⟨h45, h43⟩)
      rw [if_neg Bool.false_ne_true, List.nil_append, strtol_eq_ite hskip hsign, htake, hdrop,
        if_neg (show peek (c :: digits ++ rest) ≠ 45 from h45), if_neg Bool.false_ne_true]

/-! ### Numbers as text -/

/-- The decimal digits of a number. -/
def decimalDigits (n : ℕ) : List UInt8 :=
  if n = 0 then [48] else (Nat.digits 10 n).reverse.map fun d => (48 + d).toUInt8

theorem toNat_decimalDigit {d : ℕ} (hd : d < 10) : ((48 + d).toUInt8).toNat = 48 + d := by
  rw [Nat.toUInt8, UInt8.toNat_ofNat']
  omega

theorem isdigit_decimalDigits {n : ℕ} : ∀ c ∈ decimalDigits n, isdigit c = true := by
  intro c hc
  unfold decimalDigits at hc
  split_ifs at hc with hn
  · rw [List.mem_singleton] at hc
    subst hc
    rfl
  · obtain ⟨d, hd, rfl⟩ := List.mem_map.mp hc
    have hd10 := toNat_decimalDigit (Nat.digits_lt_base (by omega) (List.mem_reverse.mp hd))
    have hlt := Nat.digits_lt_base (by omega : 1 < 10) (List.mem_reverse.mp hd)
    simp only [isdigit, UInt8.le_iff_toNat_le, hd10, Bool.and_eq_true, decide_eq_true_eq]
    exact ⟨by simp, by show 48 + d ≤ 57; omega⟩

theorem decimalDigits_ne_nil (n : ℕ) : decimalDigits n ≠ [] := by
  unfold decimalDigits
  split_ifs with hn
  · simp
  · simpa using Nat.digits_ne_nil_iff_ne_zero.mpr hn

/-- The digits of a number, least significant first, read by `digitsValue`. -/
theorem foldr_decimalDigit {ds : List ℕ} (hds : ∀ d ∈ ds, d < 10) :
    ds.foldr (fun d n => 10 * n + ((48 + d).toUInt8.toNat - 48)) 0 = Nat.ofDigits 10 ds := by
  induction ds with
  | nil => rfl
  | cons d ds ih =>
    rw [List.foldr_cons, ih fun d hd => hds d (List.mem_cons_of_mem _ hd),
      toNat_decimalDigit (hds d List.mem_cons_self), Nat.ofDigits_cons]
    omega

theorem digitsValue_decimalDigits (n : ℕ) : digitsValue (decimalDigits n) = n := by
  unfold decimalDigits digitsValue
  split_ifs with hn
  · subst hn
    rfl
  · rw [List.foldl_map, List.foldl_reverse,
      foldr_decimalDigit fun d hd => Nat.digits_lt_base (by omega) hd, Nat.ofDigits_digits]

/-- A number below `10 ^ k` has at most `k` digits. -/
theorem length_decimalDigits_le {n k : ℕ} (hk : 0 < k) (h : n < 10 ^ k) :
    (decimalDigits n).length ≤ k := by
  unfold decimalDigits
  split_ifs with hn
  · exact hk
  · rw [List.length_map, List.length_reverse]
    exact (Nat.digits_length_le_iff (by omega) n).mpr h

/-- A digit is no space. -/
theorem isspace_of_isdigit {c : UInt8} (h : isdigit c = true) : isspace c = false := by
  simp only [isdigit, isspace, Bool.and_eq_true, decide_eq_true_eq, Bool.or_eq_false_iff,
    beq_eq_false_iff_ne, Bool.and_eq_false_iff, decide_eq_false_iff_not,
    UInt8.le_iff_toNat_le] at h ⊢
  have h48 : (48 : UInt8).toNat = 48 := rfl
  have h13 : (13 : UInt8).toNat = 13 := rfl
  refine ⟨?_, Or.inr (by omega)⟩
  rintro rfl
  exact absurd h.1 (by decide)

/-- `strtoul` reads back what is printed. -/
theorem strtoul_decimalDigits {n : ℕ} (h : n ≤ ulongMax) : strtoul (decimalDigits n) = (n, []) := by
  obtain ⟨c, tail, hcons⟩ := List.exists_cons_of_ne_nil (decimalDigits_ne_nil n)
  have hc : isdigit c = true :=
    isdigit_decimalDigits c (by rw [hcons]; exact List.mem_cons_self)
  have hskip : (decimalDigits n).dropWhile isspace = decimalDigits n := by
    rw [hcons, List.dropWhile_cons_of_neg (by rw [isspace_of_isdigit hc]; exact Bool.noConfusion)]
  have hdigits : (decimalDigits n).takeWhile isdigit = decimalDigits n :=
    List.takeWhile_eq_self_iff.mpr isdigit_decimalDigits
  have hrest : (decimalDigits n).dropWhile isdigit = [] :=
    List.dropWhile_eq_nil_iff.mpr isdigit_decimalDigits
  unfold strtoul
  dsimp only
  rw [hskip]
  -- a digit is no sign
  split
  · rename_i heq
    rw [heq] at hcons
    cases hcons
    cases hc
  · rename_i heq
    rw [heq] at hcons
    cases hcons
    cases hc
  · dsimp only
    rw [hdigits, hrest, if_neg (decimalDigits_ne_nil n), digitsValue_decimalDigits,
      if_neg (not_lt.mpr h), if_neg Bool.false_ne_true]

/-- A hexadecimal digit, in lower case. -/
def hexDigit (n : ℕ) : UInt8 := if n < 10 then (48 + n).toUInt8 else (87 + n).toUInt8

/-- What `%04x` prints, for a number below `2 ^ 16`. -/
def hex4 (n : ℕ) : List UInt8 :=
  [hexDigit (n / 4096 % 16), hexDigit (n / 256 % 16), hexDigit (n / 16 % 16), hexDigit (n % 16)]

/-- What `%d` prints. -/
def intText (n : ℤ) : List UInt8 := (if n < 0 then [45] else []) ++ decimalDigits n.natAbs

/-- An `int` is printed in at most 11 characters. -/
theorem length_intText_le {n : ℤ} (hle : -2 ^ 31 ≤ n) (hlt : n < 2 ^ 31) :
    (intText n).length ≤ 11 := by
  have hdigits : (decimalDigits n.natAbs).length ≤ 10 :=
    length_decimalDigits_le (by omega) (by omega)
  rw [intText, List.length_append]
  split_ifs
  · rw [List.length_singleton]
    omega
  · rw [List.length_nil]
    omega

end CString
