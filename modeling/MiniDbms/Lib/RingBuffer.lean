import Mathlib.Data.Nat.ModEq
import MiniDbms.Lib.CArray

/-!
# Ring buffers

An array of `n` cells holds a queue as a ring: the queue starts in cell `head` and goes on around
the end of the array, and `tail` is the cell behind it.  `RingHolds.push` and `RingHolds.pop` are
the two operations; both move one index by one, modulo `n`.
-/

namespace CArray

variable {α : Type*} {n : ℕ}

/-- The array holds the queue `xs` between `head` and `tail`. -/
structure RingHolds (a : CArray α n) (head tail : ℕ) (xs : List α) : Prop where
  head_lt : head < n
  length_le : xs.length ≤ n
  tail_eq : tail = (head + xs.length) % n
  cell : ∀ i x, xs[i]? = some x → a.read ((head + i) % n) = some x

/-- The empty ring. -/
theorem ringHolds_nil (a : CArray α n) (hn : 0 < n) : a.RingHolds 0 0 [] :=
  ⟨hn, Nat.zero_le n, (Nat.zero_mod n).symm, nofun⟩

/-- Two places of a ring are different cells. -/
theorem ring_ne {head i j : ℕ} (hij : i < j) (hj : j < n) : (head + i) % n ≠ (head + j) % n := by
  intro heq
  have hmod : i ≡ j [MOD n] := Nat.ModEq.add_left_cancel' head heq
  exact hij.ne (hmod.eq_of_lt_of_lt (hij.trans hj) hj)

/-- A queue that does not fill the ring takes one more element at `tail`. -/
theorem RingHolds.push {a : CArray α n} {head tail : ℕ} {xs : List α}
    (h : a.RingHolds head tail xs) (hlt : xs.length < n) (x : α) :
    ∃ a', a.write tail x = some a' ∧ a'.RingHolds head ((tail + 1) % n) (xs ++ [x]) := by
  have htail : tail < n := by
    rw [h.tail_eq]
    exact Nat.mod_lt _ (Nat.zero_lt_of_lt hlt)
  obtain ⟨a', hwrite, hread⟩ := a.write_spec x htail
  have hlength : (xs ++ [x]).length = xs.length + 1 := by
    rw [List.length_append, List.length_singleton]
  refine ⟨a', hwrite, h.head_lt, by omega, ?_, fun i y hy => ?_⟩
  · rw [h.tail_eq, hlength, Nat.mod_add_mod, Nat.add_assoc]
  · rw [hread]
    rcases Nat.lt_or_ge i xs.length with hi | hi
    · rw [List.getElem?_append_left hi] at hy
      have hne : (head + i) % n ≠ tail := by
        rw [h.tail_eq]
        exact ring_ne hi hlt
      rw [if_neg hne]
      exact h.cell i y hy
    · have hi' : i < (xs ++ [x]).length := List.getElem?_eq_some_iff.mp hy |>.1
      have hlast : i = xs.length := by omega
      subst hlast
      rw [List.getElem?_concat_length] at hy
      rw [if_pos h.tail_eq.symm]
      exact hy

/-- A queue that is not empty gives its first element at `head`. -/
theorem RingHolds.pop {a : CArray α n} {head tail : ℕ} {x : α} {xs : List α}
    (h : a.RingHolds head tail (x :: xs)) :
    a.read head = some x ∧ a.RingHolds ((head + 1) % n) tail xs := by
  have hn : 0 < n := Nat.zero_lt_of_lt h.head_lt
  have hlength : (x :: xs).length = xs.length + 1 := List.length_cons
  have hle := h.length_le
  constructor
  · have hfirst := h.cell 0 x rfl
    rw [Nat.add_zero, Nat.mod_eq_of_lt h.head_lt] at hfirst
    exact hfirst
  · refine ⟨Nat.mod_lt _ hn, by omega, ?_, fun i y hy => ?_⟩
    · rw [h.tail_eq, Nat.mod_add_mod]
      congr 1
      omega
    · have hnext := h.cell (i + 1) y hy
      rw [Nat.mod_add_mod]
      have heq : head + 1 + i = head + (i + 1) := by omega
      rw [heq]
      exact hnext

end CArray
