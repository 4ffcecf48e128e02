import Mathlib.Data.List.Basic
import Mathlib.Data.List.TakeWhile
import Mathlib.Tactic.Common

/-!
# Checked C arrays and counted loops

`CArray α n` is a C array of `n` elements whose cells are `none` until they are written.  Reading a
cell that is out of range or was never written, and writing out of range, yield `none`: a program
over these arrays returns `some` exactly when it stays inside them.

`forUp`, `forDown` and `scanUp` are the counted loops `for (i = lo; …; i++)`, `for (i = hi; i > lo;
i--)` and `while (i < hi && test(i)) i++`.  `forUp_spec` is the invariant rule; `scanUp_eq` reads a
scan as a `takeWhile`; `shiftInsert_holds` says that the shift-then-write idiom is
`List.insertIdx`.
-/

/-- A C array of `n` elements; a cell is `none` until it is written. -/
structure CArray (α : Type*) (n : ℕ) where
  /-- The cells, in index order. -/
  cells : List (Option α)
  /-- The length never changes. -/
  length_cells : cells.length = n

namespace CArray

variable {α β σ : Type*} {n : ℕ}

/-- An automatic array: no cell has been written. -/
def uninit (α : Type*) (n : ℕ) : CArray α n := ⟨List.replicate n none, by simp⟩

/-- An array whose cells all hold `x` (what `calloc` makes of it). -/
def filled (n : ℕ) (x : α) : CArray α n := ⟨List.replicate n (some x), by simp⟩

/-- `a[i]`; `none` out of range or before the first write. -/
def read (a : CArray α n) (i : ℕ) : Option α := a.cells[i]?.join

/-- `a[i] = x`; `none` out of range. -/
def write (a : CArray α n) (i : ℕ) (x : α) : Option (CArray α n) :=
  if i < n then some ⟨a.cells.set i (some x), by simp [a.length_cells]⟩ else none

/-- A write inside the array succeeds, changes that cell and no other. -/
theorem write_spec (a : CArray α n) {i : ℕ} (x : α) (hi : i < n) :
    ∃ a', a.write i x = some a' ∧ ∀ j, a'.read j = if j = i then some x else a.read j := by
  refine ⟨_, if_pos hi, fun j => ?_⟩
  have hlen : i < a.cells.length := by rw [a.length_cells]; exact hi
  by_cases hj : j = i
  · subst hj
    simp [read, List.getElem?_set_self hlen]
  · rw [if_neg hj]
    simp [read, List.getElem?_set_ne (Ne.symm hj)]

/-! ### What an array holds -/

/-- The first cells of `a` hold `xs`, in order. -/
def Holds (a : CArray α n) (xs : List α) : Prop :=
  ∀ i x, xs[i]? = some x → a.read i = some x

theorem read_lt {a : CArray α n} {i : ℕ} {x : α} (h : a.read i = some x) : i < n := by
  by_contra hge
  rw [read, List.getElem?_eq_none (by rw [a.length_cells]; omega)] at h
  cases h

theorem Holds.read {a : CArray α n} {xs : List α} (h : a.Holds xs) {i : ℕ} (hi : i < xs.length) :
    a.read i = some xs[i] :=
  h i _ (List.getElem?_eq_getElem hi)

theorem Holds.length_le {a : CArray α n} {xs : List α} (h : a.Holds xs) : xs.length ≤ n := by
  rcases Nat.eq_zero_or_pos xs.length with h0 | hpos
  · omega
  · have := read_lt (h.read (i := xs.length - 1) (by omega))
    omega

theorem holds_nil (a : CArray α n) : a.Holds [] := by
  intro i x h
  simp at h

/-- An array that holds `xs` holds every prefix of it. -/
theorem Holds.take {a : CArray α n} {xs : List α} (h : a.Holds xs) (k : ℕ) :
    a.Holds (xs.take k) := by
  intro i x hx
  rw [List.getElem?_take] at hx
  split_ifs at hx
  exact h i x hx

/-- Writing just behind a held prefix extends it. -/
theorem Holds.write_end {a : CArray α n} {xs : List α} (h : a.Holds xs) (x : α)
    (hlt : xs.length < n) :
    ∃ a', a.write xs.length x = some a' ∧ a'.Holds (xs ++ [x]) := by
  obtain ⟨a', hw, hr⟩ := a.write_spec x hlt
  refine ⟨a', hw, fun i y hy => ?_⟩
  rw [hr]
  by_cases hi : i = xs.length
  · subst hi
    rw [if_pos rfl]
    simpa using hy
  · rw [if_neg hi]
    have hi' : i < xs.length := by
      have := (List.getElem?_eq_some_iff.mp hy).1
      simp only [List.length_append, List.length_singleton] at this
      omega
    rw [List.getElem?_append_left hi'] at hy
    exact h i y hy

/-- Writing the next of the elements to be held. -/
theorem Holds.write_next {a : CArray α n} {xs : List α} {j : ℕ} {x : α} (h : a.Holds (xs.take j))
    (hx : xs[j]? = some x) (hn : xs.length ≤ n) :
    ∃ a', a.write j x = some a' ∧ a'.Holds (xs.take (j + 1)) := by
  have hj : j < xs.length := (List.getElem?_eq_some_iff.mp hx).1
  obtain ⟨a', hw, ha'⟩ := h.write_end x (by rw [List.length_take]; omega)
  rw [List.length_take, min_eq_left hj.le] at hw
  refine ⟨a', hw, ?_⟩
  rwa [List.take_add_one, hx]

/-- Writing inside or just behind a held prefix cuts it off there. -/
theorem Holds.write_cut {a : CArray α n} {xs : List α} (h : a.Holds xs) {k : ℕ}
    (hk : k ≤ xs.length) (hlt : k < n) (x : α) :
    ∃ a', a.write k x = some a' ∧ a'.Holds (xs.take k ++ [x]) := by
  have hlen : (xs.take k).length = k := by
    rw [List.length_take]
    omega
  obtain ⟨a', hw, ha'⟩ := (h.take k).write_end x (by omega)
  rw [hlen] at hw
  exact ⟨a', hw, ha'⟩

/-! ### Counted loops -/

/-- A checked step that succeeds hands its result on. -/
theorem bind_eq_of_eq_some {α β : Type*} {o : Option α} {a : α} {f : α → Option β} {r : Option β}
    (ho : o = some a) (hf : f a = r) : o.bind f = r := by
  rw [ho, Option.bind_some, hf]

/-- `for (i = lo; count times; i++) s = body(i, s);` -/
def forUp (body : ℕ → σ → Option σ) : ℕ → ℕ → σ → Option σ
  | _, 0, s => some s
  | lo, count + 1, s => (body lo s).bind (forUp body (lo + 1) count)

/-- `for (i = hi; i > lo; i--) s = body(i, s);` -/
def forDown (body : ℕ → σ → Option σ) (lo : ℕ) : ℕ → σ → Option σ
  | 0, s => some s
  | i + 1, s => if lo < i + 1 then (body (i + 1) s).bind (forDown body lo i) else some s

/-- `while (i < lo + count && test(i)) i++;`, the index where the loop stops. -/
def scanUp (test : ℕ → Option Bool) : ℕ → ℕ → Option ℕ
  | i, 0 => some i
  | i, count + 1 => (test i).bind fun b => if b then scanUp test (i + 1) count else some i

/-- The invariant rule of `forUp`. -/
theorem forUp_spec (body : ℕ → σ → Option σ) (P : ℕ → σ → Prop) (lo count : ℕ) {s : σ}
    (h0 : P lo s)
    (hstep : ∀ i s, lo ≤ i → i < lo + count → P i s → ∃ s', body i s = some s' ∧ P (i + 1) s') :
    ∃ s', forUp body lo count s = some s' ∧ P (lo + count) s' := by
  induction count generalizing lo s with
  | zero => exact ⟨s, rfl, h0⟩
  | succ count ih =>
    obtain ⟨s₁, hb, h1⟩ := hstep lo s le_rfl (by omega) h0
    obtain ⟨s', hrun, hP⟩ := ih (lo + 1) h1 fun i s hlo hhi => hstep i s (by omega) (by omega)
    refine ⟨s', by rw [forUp, hb, Option.bind_some, hrun], ?_⟩
    rwa [show lo + (count + 1) = lo + 1 + count by omega]

/-- The invariant rule of `forDown`. -/
theorem forDown_spec (body : ℕ → σ → Option σ) (P : ℕ → σ → Prop) {lo hi : ℕ} {s : σ}
    (hle : lo ≤ hi) (h0 : P hi s)
    (hstep : ∀ i s, lo ≤ i → i < hi → P (i + 1) s → ∃ s', body (i + 1) s = some s' ∧ P i s') :
    ∃ s', forDown body lo hi s = some s' ∧ P lo s' := by
  induction hi generalizing s with
  | zero => exact ⟨s, rfl, by rwa [show lo = 0 by omega]⟩
  | succ hi ih =>
    by_cases hlt : lo < hi + 1
    · obtain ⟨s₁, hb, h1⟩ := hstep hi s (by omega) (by omega) h0
      obtain ⟨s', hrun, hP⟩ := ih (by omega) h1 fun i s hlo hhi => hstep i s hlo (by omega)
      exact ⟨s', by rw [forDown, if_pos hlt, hb, Option.bind_some, hrun], hP⟩
    · exact ⟨s, by rw [forDown, if_neg hlt], by rwa [show lo = hi + 1 by omega]⟩

/-- A scan of a list's cells stops after the longest prefix that passes the test. -/
theorem scanUp_eq {test : ℕ → Option Bool} (p : α → Bool) (xs : List α) (lo : ℕ)
    (htest : ∀ i x, xs[i]? = some x → test (lo + i) = some (p x)) :
    scanUp test lo xs.length = some (lo + (xs.takeWhile p).length) := by
  induction xs generalizing lo with
  | nil => rfl
  | cons x xs ih =>
    rw [List.length_cons, scanUp, show lo = lo + 0 from rfl, htest 0 x rfl, Option.bind_some,
      List.takeWhile_cons]
    cases hp : p x with
    | false => simp
    | true =>
      simp only [ite_true, List.length_cons, Nat.add_zero]
      rw [ih (lo + 1) fun i y hy => by
        rw [show lo + 1 + i = lo + (i + 1) by omega]
        exact htest (i + 1) y hy]
      congr 1
      omega

/-- A scan stops at the first index that fails the test. -/
theorem scanUp_first {test : ℕ → Option Bool} {p : ℕ → Bool} (lo count : ℕ)
    (htest : ∀ i, lo ≤ i → i < lo + count → test i = some (p i)) :
    ∃ i, scanUp test lo count = some i ∧ i ≤ lo + count ∧ (∀ j, lo ≤ j → j < i → p j = true) ∧
      (i < lo + count → p i = false) := by
  induction count generalizing lo with
  | zero => exact ⟨lo, rfl, le_rfl, fun j h h' => by omega, fun h => by omega⟩
  | succ count ih =>
    rw [scanUp, htest lo le_rfl (by omega), Option.bind_some]
    cases hp : p lo with
    | false => exact ⟨lo, rfl, by omega, fun j h h' => by omega, fun _ => hp⟩
    | true =>
      obtain ⟨i, hrun, hle, hbefore, hat⟩ := ih (lo + 1) fun i h h' => htest i (by omega) (by omega)
      refine ⟨i, hrun, by omega, fun j h h' => ?_, fun h => hat (by omega)⟩
      rcases Nat.eq_or_lt_of_le h with rfl | hlt
      · exact hp
      · exact hbefore j hlt h'

/-- Copying an array. -/
theorem forUp_copy {m : ℕ} {src : CArray α m} {xs : List α} (h : src.Holds xs)
    (hn : xs.length ≤ n) (a : CArray α n) :
    ∃ a', forUp (fun i (a : CArray α n) => (src.read i).bind (a.write i)) 0 xs.length a = some a' ∧
      a'.Holds xs := by
  obtain ⟨a', hrun, ha'⟩ := forUp_spec
    (fun i (a : CArray α n) => (src.read i).bind (a.write i))
    (fun i (a : CArray α n) => a.Holds (xs.take i)) 0 xs.length
    (show a.Holds (xs.take 0) by simpa using holds_nil a)
    (fun i a _ hi ha => by
      have hx : xs[i]? = some xs[i] := List.getElem?_eq_getElem (by omega)
      obtain ⟨a', hw, ha'⟩ := ha.write_next hx hn
      exact ⟨a', by rw [h i _ hx, Option.bind_some, hw], ha'⟩)
  exact ⟨a', hrun, by simpa using ha'⟩

/-! ### Shift and insert -/

/-- `for (i = hi; i > pos; i--) a[i] = a[i - 1];` -/
def shiftBody (i : ℕ) (a : CArray α n) : Option (CArray α n) :=
  (a.read (i - 1)).bind (a.write i)

/-- Shifting the cells from `pos` on up by one keeps the cells below and moves the others. -/
theorem forDown_shift {a : CArray α n} {xs : List α} (h : a.Holds xs) (hlt : xs.length < n)
    {pos : ℕ} (hpos : pos ≤ xs.length) :
    ∃ a', forDown shiftBody pos xs.length a = some a' ∧
      (∀ i < pos, a'.read i = xs[i]?) ∧
        ∀ i, pos ≤ i → i < xs.length → a'.read (i + 1) = xs[i]? := by
  obtain ⟨a', hrun, hlow, hhigh⟩ := forDown_spec shiftBody
    (fun k (b : CArray α n) => (∀ i < k, b.read i = xs[i]?) ∧
      ∀ i, k ≤ i → i < xs.length → b.read (i + 1) = xs[i]?)
    hpos (s := a)
    ⟨fun i hi => by rw [h.read hi, List.getElem?_eq_getElem hi], fun i h1 h2 => by omega⟩
    (fun i b hlo hhi hb => by
      obtain ⟨hbl, hbh⟩ := hb
      obtain ⟨b', hw, hr⟩ := b.write_spec xs[i] (i := i + 1) (by omega)
      refine ⟨b', ?_, fun j hj => ?_, fun j h1 h2 => ?_⟩
      · rw [shiftBody, Nat.add_sub_cancel, hbl i (by omega), List.getElem?_eq_getElem hhi,
          Option.bind_some, hw]
      · rw [hr, if_neg (by omega), hbl j (by omega)]
      · rw [hr]
        by_cases hji : j = i
        · subst hji
          rw [if_pos rfl, List.getElem?_eq_getElem h2]
        · rw [if_neg (by omega), hbh j (by omega) h2])
  exact ⟨a', hrun, hlow, hhigh⟩

/-- **Shift and insert**: making room at `pos` and writing there inserts at `pos`. -/
theorem shiftInsert_holds {a : CArray α n} {xs : List α} (h : a.Holds xs) (hlt : xs.length < n)
    {pos : ℕ} (hpos : pos ≤ xs.length) (x : α) :
    ∃ a' a'', forDown shiftBody pos xs.length a = some a' ∧ a'.write pos x = some a'' ∧
      a''.Holds (xs.insertIdx pos x) := by
  obtain ⟨a', hrun, hlow, hhigh⟩ := forDown_shift h hlt hpos
  obtain ⟨a'', hw, hr⟩ := a'.write_spec x (i := pos) (by omega)
  refine ⟨a', a'', hrun, hw, fun i y hy => ?_⟩
  rw [hr]
  rcases lt_trichotomy i pos with hi | hi | hi
  · rw [if_neg (by omega), hlow i hi, ← hy, List.getElem?_insertIdx_of_lt hi]
  · subst hi
    rw [List.getElem?_insertIdx_self, if_pos hpos] at hy
    rw [if_pos rfl]
    exact hy
  · rw [List.getElem?_insertIdx_of_gt hi] at hy
    obtain ⟨j, rfl⟩ : ∃ j, i = j + 1 := ⟨i - 1, by omega⟩
    rw [Nat.add_sub_cancel] at hy
    rw [if_neg (by omega), hhigh j (by omega) (List.getElem?_eq_some_iff.mp hy).1, hy]

/-! ### Blocks and strings -/

/-- What `realloc` makes of an array: the cells that fit are kept, new ones are not written. -/
def resize (a : CArray α n) (m : ℕ) : CArray α m :=
  ⟨a.cells.take m ++ List.replicate (m - n) none, by simp [a.length_cells]; omega⟩

theorem Holds.resize {a : CArray α n} {xs : List α} (h : a.Holds xs) {m : ℕ} (hle : xs.length ≤ m) :
    (a.resize m).Holds xs := by
  intro i x hx
  have hi := (List.getElem?_eq_some_iff.mp hx).1
  have hn := h.length_le
  have hlen : i < (a.cells.take m).length := by
    rw [List.length_take, a.length_cells]
    omega
  show (a.cells.take m ++ List.replicate (m - n) none)[i]?.join = some x
  rw [List.getElem?_append_left hlen, List.getElem?_take_of_lt (by omega)]
  exact h i x hx

/-- `memcpy(a + i, xs, …)` -/
def writeAll : List α → ℕ → CArray α n → Option (CArray α n)
  | [], _, a => some a
  | x :: xs, i, a => (a.write i x).bind (writeAll xs (i + 1))

/-- The `count` cells from `i` on. -/
def readAll (a : CArray α n) : ℕ → ℕ → Option (List α)
  | _, 0 => some []
  | i, count + 1 => (a.read i).bind fun x => (a.readAll (i + 1) count).map (x :: ·)

/-- The C string at `a + i`, when its `NUL` is among the next `count` cells. -/
def readString (a : CArray UInt8 n) : ℕ → ℕ → Option (List UInt8)
  | _, 0 => none
  | i, count + 1 => (a.read i).bind fun c =>
      if c = 0 then some [] else (a.readString (i + 1) count).map (c :: ·)

/-- Two arrays with the same cells. -/
theorem ext_read {a b : CArray α n} (h : ∀ i, a.read i = b.read i) : a = b := by
  obtain ⟨cells, hcells⟩ := a
  obtain ⟨cells', hcells'⟩ := b
  congr
  ext i x
  have hi := h i
  simp only [read] at hi
  rcases Nat.lt_or_ge i n with hlt | hge
  · rw [List.getElem?_eq_getElem (by omega), List.getElem?_eq_getElem (by omega), Option.join_some,
      Option.join_some] at hi
    rw [List.getElem?_eq_getElem (by omega), List.getElem?_eq_getElem (by omega), hi]
  · rw [List.getElem?_eq_none (by omega), List.getElem?_eq_none (by omega)]

/-- Copying a block into an array. -/
theorem writeAll_spec (xs : List α) {i : ℕ} (a : CArray α n) (hle : i + xs.length ≤ n) :
    ∃ a', writeAll xs i a = some a' ∧
      ∀ j, a'.read j = if i ≤ j ∧ j < i + xs.length then xs[j - i]? else a.read j := by
  induction xs generalizing i a with
  | nil => exact ⟨a, rfl, fun j => by rw [if_neg (by simp)]⟩
  | cons x xs ih =>
    rw [List.length_cons] at hle
    obtain ⟨a₁, hw, hr₁⟩ := a.write_spec x (i := i) (by omega)
    obtain ⟨a', hrun, hr⟩ := ih (i := i + 1) a₁ (by omega)
    refine ⟨a', bind_eq_of_eq_some hw hrun, fun j => ?_⟩
    rw [hr, hr₁, List.length_cons]
    rcases lt_trichotomy j i with hj | rfl | hj
    · rw [if_neg (by omega), if_neg (by omega), if_neg (by omega)]
    · rw [if_neg (by omega), if_pos rfl, if_pos (by omega), Nat.sub_self, List.getElem?_cons_zero]
    · obtain ⟨k, rfl⟩ : ∃ k, j = i + 1 + k := ⟨j - (i + 1), by omega⟩
      rw [if_neg (show i + 1 + k ≠ i by omega), Nat.add_sub_cancel_left,
        show i + 1 + k - i = k + 1 by omega, List.getElem?_cons_succ]
      exact if_congr (by omega) rfl rfl

/-- Copying a block behind what an array holds. -/
theorem Holds.writeAll {a : CArray α n} {xs : List α} (h : a.Holds xs) (ys : List α)
    (hle : xs.length + ys.length ≤ n) :
    ∃ a', CArray.writeAll ys xs.length a = some a' ∧ a'.Holds (xs ++ ys) := by
  obtain ⟨a', hrun, hr⟩ := writeAll_spec ys a hle
  refine ⟨a', hrun, fun i x hx => ?_⟩
  have hi := (List.getElem?_eq_some_iff.mp hx).1
  rw [List.length_append] at hi
  rw [hr]
  rcases Nat.lt_or_ge i xs.length with hlt | hge
  · rw [List.getElem?_append_left hlt] at hx
    rw [if_neg (by omega), h i x hx]
  · rw [List.getElem?_append_right hge] at hx
    rw [if_pos ⟨hge, hi⟩, hx]

theorem Holds.readAll {a : CArray α n} {xs : List α} (h : a.Holds xs) {i count : ℕ}
    (hle : i + count ≤ xs.length) : a.readAll i count = some ((xs.drop i).take count) := by
  induction count generalizing i with
  | zero => simp [CArray.readAll]
  | succ count ih =>
    rw [CArray.readAll, h.read (i := i) (by omega), Option.bind_some, ih (by omega),
      List.drop_eq_getElem_cons (show i < xs.length by omega), List.take_succ_cons]
    rfl

/-- Reading a string whose `NUL` is there. -/
theorem readString_eq {a : CArray UInt8 n} (s : List UInt8) {i count : ℕ}
    (h : ∀ j c, (s ++ [0])[j]? = some c → a.read (i + j) = some c) (hlt : s.length < count) :
    a.readString i count = some (s.takeWhile (· ≠ 0)) := by
  obtain ⟨count, rfl⟩ : ∃ k, count = k + 1 := Nat.exists_eq_add_one.mpr (Nat.zero_lt_of_lt hlt)
  induction s generalizing i count with
  | nil =>
    rw [CArray.readString, show i = i + 0 from rfl, h 0 0 rfl]
    rfl
  | cons c s ih =>
    rw [List.length_cons, Nat.succ_lt_succ_iff] at hlt
    have hrest : a.readString (i + 1) count = some (s.takeWhile (· ≠ 0)) := by
      obtain ⟨k, rfl⟩ := Nat.exists_eq_add_one.mpr (Nat.zero_lt_of_lt hlt)
      refine ih (fun j d hd => ?_) k hlt
      rw [show i + 1 + j = i + (j + 1) by omega]
      exact h (j + 1) d hd
    rw [CArray.readString, show i = i + 0 from rfl, h 0 c rfl, Nat.add_zero, hrest,
      Option.bind_some, List.takeWhile_cons]
    by_cases hc : c = 0
    · simp [hc]
    · simp [hc]

/-- `snprintf(a, size, ...)` of a text without a `NUL`. -/
def snprintf (a : CArray UInt8 n) (size : ℕ) (text : List UInt8) : Option (CArray UInt8 n) :=
  if size = 0 then some a else writeAll (text.take (size - 1) ++ [0]) 0 a

/-- What `snprintf` writes stays inside the array when the size does. -/
theorem snprintf_spec (a : CArray UInt8 n) {size : ℕ} (hpos : 0 < size) (hle : size ≤ n)
    (text : List UInt8) :
    ∃ a', a.snprintf size text = some a' ∧ a'.Holds (text.take (size - 1) ++ [0]) := by
  rw [snprintf, if_neg (by omega)]
  have hlen : (text.take (size - 1) ++ [0]).length ≤ n := by
    rw [List.length_append, List.length_take, List.length_singleton]
    omega
  obtain ⟨a', hw, ha'⟩ := (holds_nil a).writeAll (text.take (size - 1) ++ [0])
    (by rw [List.length_nil]; omega)
  exact ⟨a', hw, ha'⟩

/-- A loop whose body treats two states side by side runs the two loops side by side. -/
theorem forDown_prod {τ : Type*} {f : ℕ → σ → Option σ} {g : ℕ → τ → Option τ} {lo hi : ℕ}
    {s s' : σ} {t t' : τ} (hs : forDown f lo hi s = some s') (ht : forDown g lo hi t = some t') :
    forDown (fun i (st : σ × τ) => (f i st.1).bind fun s => (g i st.2).map fun t => (s, t)) lo hi
      (s, t) = some (s', t') := by
  induction hi generalizing s t with
  | zero =>
    cases hs
    cases ht
    rfl
  | succ hi ih =>
    rw [forDown] at hs ht ⊢
    split_ifs at hs ht ⊢
    · obtain ⟨s₁, hf, hs⟩ := Option.bind_eq_some_iff.mp hs
      obtain ⟨t₁, hg, ht⟩ := Option.bind_eq_some_iff.mp ht
      rw [hf, hg]
      exact ih hs ht
    · cases hs
      cases ht
      rfl

end CArray
