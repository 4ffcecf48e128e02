import Mathlib.Data.List.TakeWhile
import Mathlib.Tactic.Common

/-!
# Reading lines into a buffer of fixed size

`fgets size s` reads a line, or as much of it as the buffer holds.  A line that fits comes whole
(`fgets_line`); a longer one is cut, and what is left of it is where the next call goes on
(`fgets_cut`).  `fgetsAll size s` are the pieces that call after call gives to the end of the input:
line by line, the pieces of each line (`fgetsAll_lines`).
-/

namespace CString

/-! ### One call -/

/-- The loop of `fgets`, with room for so many bytes: what it stores, and what it leaves.  It stops
behind a newline. -/
def fgetsLoop : ℕ → List UInt8 → List UInt8 × List UInt8
  | 0, s => ([], s)
  | _ + 1, [] => ([], [])
  | room + 1, c :: s =>
    if c = 10 then ([c], s)
    else
      let (piece, rest) := fgetsLoop room s
      (c :: piece, rest)

/-- `fgets(buffer, size, stream)`; one byte of the buffer is for the `NUL`. -/
def fgets (size : ℕ) (s : List UInt8) : Option (List UInt8 × List UInt8) :=
  if s = [] then none else some (fgetsLoop (size - 1) s)

/-- A line that fits. -/
theorem fgetsLoop_line {room : ℕ} {text : List UInt8} (htext : 10 ∉ text)
    (hlt : text.length < room) (rest : List UInt8) :
    fgetsLoop room (text ++ 10 :: rest) = (text ++ [10], rest) := by
  induction text generalizing room with
  | nil =>
    obtain ⟨room, rfl⟩ := Nat.exists_eq_add_one_of_ne_zero (Nat.ne_zero_of_lt hlt)
    rfl
  | cons c text ih =>
    obtain ⟨room, rfl⟩ := Nat.exists_eq_add_one_of_ne_zero (Nat.ne_zero_of_lt hlt)
    rw [List.mem_cons, not_or] at htext
    rw [List.length_cons, Nat.add_lt_add_iff_right] at hlt
    rw [List.cons_append, fgetsLoop, if_neg (Ne.symm htext.1), ih htext.2 hlt]
    rfl

/-- A line that does not. -/
theorem fgetsLoop_cut {room : ℕ} {text : List UInt8} (htext : 10 ∉ text)
    (hle : room ≤ text.length) (rest : List UInt8) :
    fgetsLoop room (text ++ rest) = (text.take room, text.drop room ++ rest) := by
  induction room generalizing text with
  | zero => rfl
  | succ room ih =>
    cases text with
    | nil => exact absurd hle (Nat.not_succ_le_zero room)
    | cons c text =>
      rw [List.mem_cons, not_or] at htext
      rw [List.cons_append, fgetsLoop, if_neg (Ne.symm htext.1),
        ih htext.2 (Nat.le_of_succ_le_succ hle)]
      rfl

/-- The loop loses nothing. -/
theorem fgetsLoop_append (room : ℕ) (s : List UInt8) :
    (fgetsLoop room s).1 ++ (fgetsLoop room s).2 = s := by
  fun_induction fgetsLoop room s with
  | case1 s => rfl
  | case2 room => rfl
  | case3 room s => rfl
  | case4 room c s hc piece rest hrun ih =>
    rw [hrun] at ih
    rw [List.cons_append, ih]

theorem fgetsLoop_ne_nil {room : ℕ} (hroom : 0 < room) {s : List UInt8} (hs : s ≠ []) :
    (fgetsLoop room s).1 ≠ [] := by
  obtain ⟨room, rfl⟩ := Nat.exists_eq_add_one_of_ne_zero hroom.ne'
  obtain ⟨c, s, rfl⟩ := List.exists_cons_of_ne_nil hs
  rw [fgetsLoop]
  split_ifs <;> exact List.cons_ne_nil _ _

section Call

variable {size : ℕ} {s text rest piece : List UInt8}

theorem fgets_nil (size : ℕ) : fgets size [] = none := if_pos rfl

/-- A line that fits comes whole. -/
theorem fgets_line (htext : 10 ∉ text) (hlt : text.length + 1 < size) :
    fgets size (text ++ 10 :: rest) = some (text ++ [10], rest) := by
  rw [fgets, if_neg (List.append_ne_nil_of_right_ne_nil _ (List.cons_ne_nil _ _)),
    fgetsLoop_line htext (by omega)]

/-- A longer one is cut. -/
theorem fgets_cut (htext : 10 ∉ text) (hle : size ≤ text.length + 1) :
    fgets size (text ++ 10 :: rest) =
      some (text.take (size - 1), text.drop (size - 1) ++ 10 :: rest) := by
  rw [fgets, if_neg (List.append_ne_nil_of_right_ne_nil _ (List.cons_ne_nil _ _)),
    fgetsLoop_cut htext (by omega)]

/-- Every call that gives something shortens the input. -/
theorem fgets_length_lt (hsize : 1 < size) (h : fgets size s = some (piece, rest)) :
    rest.length < s.length := by
  unfold fgets at h
  split_ifs at h with hs
  have happend := fgetsLoop_append (size - 1) s
  have hpiece := List.length_pos_iff.mpr (fgetsLoop_ne_nil (Nat.sub_pos_of_lt hsize) hs)
  rw [Option.some_inj] at h
  rw [h] at happend hpiece
  rw [← happend, List.length_append]
  exact Nat.lt_add_of_pos_left hpiece

end Call

/-! ### Call after call -/

/-- What the calls give, up to the end of the input. -/
def fgetsAll (size : ℕ) (s : List UInt8) : List (List UInt8) :=
  match fgets size s with
  | none => []
  | some (piece, rest) =>
    if rest.length < s.length then piece :: fgetsAll size rest else []
termination_by s.length

theorem fgetsAll_nil (size : ℕ) : fgetsAll size [] = [] := by
  rw [fgetsAll, fgets_nil]

theorem fgetsAll_cons {size : ℕ} (hsize : 1 < size) {s piece rest : List UInt8}
    (h : fgets size s = some (piece, rest)) :
    fgetsAll size s = piece :: fgetsAll size rest := by
  rw [fgetsAll, h]
  exact if_pos (fgets_length_lt hsize h)

/-- The pieces of one line: as many full buffers as it fills, and what is left with the newline. -/
def linePieces (size : ℕ) (text : List UInt8) : List (List UInt8) :=
  if text.length + 1 < size ∨ size ≤ 1 then [text ++ [10]]
  else text.take (size - 1) :: linePieces size (text.drop (size - 1))
termination_by text.length
decreasing_by
  rw [List.length_drop]
  omega

theorem linePieces_short {size : ℕ} {text : List UInt8} (hlt : text.length + 1 < size) :
    linePieces size text = [text ++ [10]] := by
  rw [linePieces, if_pos (Or.inl hlt)]

theorem linePieces_long {size : ℕ} (hsize : 1 < size) {text : List UInt8}
    (hle : size ≤ text.length + 1) :
    linePieces size text = text.take (size - 1) :: linePieces size (text.drop (size - 1)) := by
  rw [linePieces, if_neg (by omega)]

/-- The pieces of a line make up the line. -/
theorem flatten_linePieces (size : ℕ) (text : List UInt8) :
    (linePieces size text).flatten = text ++ [10] := by
  fun_induction linePieces size text with
  | case1 text hshort => exact List.append_nil _
  | case2 text hlong ih =>
    rw [List.flatten_cons, ih, ← List.append_assoc, List.take_append_drop]

/-- A line is read in its pieces, and the calls go on behind it. -/
theorem fgetsAll_line {size : ℕ} (hsize : 1 < size) {text : List UInt8} (htext : 10 ∉ text)
    (rest : List UInt8) :
    fgetsAll size (text ++ 10 :: rest) = linePieces size text ++ fgetsAll size rest := by
  induction hlen : text.length using Nat.strong_induction_on generalizing text with
  | _ n ih =>
    by_cases hlt : text.length + 1 < size
    · rw [fgetsAll_cons hsize (fgets_line htext hlt), linePieces_short hlt]
      rfl
    · rw [not_lt] at hlt
      have hrest : 10 ∉ text.drop (size - 1) := fun h => htext (List.mem_of_mem_drop h)
      rw [fgetsAll_cons hsize (fgets_cut htext hlt), linePieces_long hsize hlt,
        ih (text.drop (size - 1)).length (by rw [List.length_drop]; omega) hrest rfl]
      rfl

/-- **`fgets` never joins two lines**: the pieces of an input are the pieces of its lines. -/
theorem fgetsAll_lines {size : ℕ} (hsize : 1 < size) {texts : List (List UInt8)}
    (htexts : ∀ text ∈ texts, 10 ∉ text) :
    fgetsAll size (texts.flatMap (· ++ [10])) = texts.flatMap (linePieces size) := by
  induction texts with
  | nil => exact fgetsAll_nil size
  | cons text texts ih =>
    have hline := fgetsAll_line hsize (htexts text List.mem_cons_self)
      (texts.flatMap (· ++ [10]))
    rw [List.flatMap_cons, List.flatMap_cons, List.append_assoc, List.singleton_append, hline,
      ih fun text h => htexts text (List.mem_cons_of_mem _ h)]

/-! ### Up to a last one -/

/-- A list up to its first element that stops, and with it. -/
def cutBehind {α : Type*} (stop : α → Bool) : List α → List α
  | [] => []
  | x :: xs => x :: if stop x then [] else cutBehind stop xs

/-- The pieces of a line that are read before one of them stops. -/
theorem cutBehind_linePieces_append {size : ℕ} (hsize : 1 < size) {text : List UInt8}
    (hle : size ≤ text.length + 1) (stop : List UInt8 → Bool) (rest : List (List UInt8)) :
    ∃ others, cutBehind stop (linePieces size text ++ rest) = text.take (size - 1) :: others := by
  rw [linePieces_long hsize hle]
  exact ⟨_, rfl⟩

/-- **The lines come whole exactly when all of them fit** that are read before one stops. -/
theorem cutBehind_linePieces_iff {size : ℕ} (hsize : 1 < size) (stop : List UInt8 → Bool)
    (texts : List (List UInt8)) :
    cutBehind stop (texts.flatMap (linePieces size)) = cutBehind stop (texts.map (· ++ [10])) ↔
      ∀ line ∈ cutBehind stop (texts.map (· ++ [10])), line.length < size := by
  induction texts with
  | nil => simp [cutBehind]
  | cons text texts ih =>
    rw [List.map_cons, List.flatMap_cons]
    by_cases hlt : text.length + 1 < size
    · rw [linePieces_short hlt, List.singleton_append, cutBehind, cutBehind, List.cons_inj_right,
        List.forall_mem_cons, List.length_append, List.length_singleton]
      cases stop (text ++ [10]) with
      | true => simpa using hlt
      | false => simpa [hlt] using ih
    · rw [not_lt] at hlt
      obtain ⟨others, hothers⟩ := cutBehind_linePieces_append hsize hlt stop
        (texts.flatMap (linePieces size))
      rw [hothers, cutBehind]
      constructor
      · intro heq
        -- the first piece is shorter than the line
        have hlen := congrArg List.length (List.cons.inj heq).1
        rw [List.length_take, List.length_append, List.length_singleton] at hlen
        omega
      · intro hall
        have hfits := hall (text ++ [10]) List.mem_cons_self
        rw [List.length_append, List.length_singleton] at hfits
        omega

end CString
