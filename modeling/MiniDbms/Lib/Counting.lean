import Mathlib.Algebra.BigOperators.Group.Finset.Piecewise
import Mathlib.Data.Fintype.BigOperators

/-!
# Counting threads

`countOf p g` is the number of threads whose place `g t` is of a kind `p`.  A step moves one thread:
`countOf_update` says how the number changes.

`Balanced p g xs ys` is the invariant of work that threads take from one list to another: what `xs`
lists is with a thread or in `ys`, each as often as `xs` lists it.  A thread takes something in hand
(`Balanced.take`), or lays it down (`Balanced.give`); when no thread has anything in hand, the lists
agree (`Balanced.perm`).
-/

namespace Counting

section CountOf

variable {ι α : Type*} [Fintype ι]

/-- The number of threads in places of a kind. -/
def countOf (p : α → Bool) (g : ι → α) : ℕ := (Finset.univ.filter fun t => p (g t) = true).card

theorem countOf_eq_sum (p : α → Bool) (g : ι → α) : countOf p g = ∑ t, (p (g t)).toNat := by
  unfold countOf
  rw [Finset.card_filter]
  apply Finset.sum_congr rfl
  intro t _
  cases p (g t) <;> rfl

/-- One thread moves. -/
theorem countOf_update [DecidableEq ι] (p : α → Bool) (g : ι → α) (t : ι) (a : α) :
    countOf p (Function.update g t a) + (p (g t)).toNat = countOf p g + (p a).toNat := by
  have hrest : ∑ t' ∈ Finset.univ.erase t, (p (Function.update g t a t')).toNat =
      ∑ t' ∈ Finset.univ.erase t, (p (g t')).toNat := by
    apply Finset.sum_congr rfl
    intro t' ht'
    rw [Function.update_of_ne (Finset.ne_of_mem_erase ht')]
  rw [countOf_eq_sum, countOf_eq_sum, ← Finset.add_sum_erase _ _ (Finset.mem_univ t),
    ← Finset.add_sum_erase Finset.univ (fun t' => (p (g t')).toNat) (Finset.mem_univ t), hrest,
    Function.update_self]
  omega

/-- One thread moves between places of a kind, or between others. -/
theorem countOf_keep [DecidableEq ι] {p : α → Bool} {g : ι → α} {t : ι} {a : α}
    (h : p a = p (g t)) : countOf p (Function.update g t a) = countOf p g := by
  have hcount := countOf_update p g t a
  rw [h] at hcount
  exact Nat.add_right_cancel hcount

theorem countOf_pos_of {p : α → Bool} {g : ι → α} {t : ι} (h : p (g t) = true) :
    0 < countOf p g :=
  Finset.card_pos.mpr ⟨t, Finset.mem_filter.mpr ⟨Finset.mem_univ t, h⟩⟩

theorem countOf_eq_zero {p : α → Bool} {g : ι → α} (h : ∀ t, p (g t) = false) :
    countOf p g = 0 := by
  unfold countOf
  rw [Finset.card_eq_zero, Finset.filter_eq_empty_iff]
  intro t _
  rw [h t]
  exact Bool.noConfusion

theorem countOf_congr {p : α → Bool} {g g' : ι → α} (h : ∀ t, p (g' t) = p (g t)) :
    countOf p g' = countOf p g := by
  unfold countOf
  congr 1
  ext t
  rw [Finset.mem_filter, Finset.mem_filter, h t]

theorem countOf_mono {p q : α → Bool} {g g' : ι → α} (h : ∀ t, p (g t) = true → q (g' t) = true) :
    countOf p g ≤ countOf q g' := by
  apply Finset.card_le_card
  intro t ht
  rw [Finset.mem_filter] at ht ⊢
  exact ⟨ht.1, h t ht.2⟩

/-- More threads in places of a kind. -/
theorem countOf_lt {p : α → Bool} {g g' : ι → α} (h : ∀ t, p (g t) = true → p (g' t) = true)
    {t : ι} (hold : p (g t) = false) (hnew : p (g' t) = true) : countOf p g < countOf p g' := by
  apply Finset.card_lt_card
  rw [Finset.ssubset_iff_of_subset]
  · refine ⟨t, Finset.mem_filter.mpr ⟨Finset.mem_univ t, hnew⟩, fun ht => ?_⟩
    rw [Finset.mem_filter, hold] at ht
    exact Bool.false_ne_true ht.2
  · intro t' ht'
    rw [Finset.mem_filter] at ht' ⊢
    exact ⟨ht'.1, h t' ht'.2⟩

end CountOf

/-! ### Lists that threads move things between -/

/-- One more element. -/
theorem count_concat {α : Type*} [DecidableEq α] (xs : List α) (a b : α) :
    (xs ++ [a]).count b = xs.count b + (decide (a = b)).toNat := by
  rw [List.count_append, List.count_singleton]
  by_cases h : a = b <;> simp [h]

section Balanced

variable {ι α β : Type*} [Fintype ι] [DecidableEq β]

/-- What `xs` lists is in `ys` or with a thread; `p x (g t)` says that thread `t` has `x` in
hand. -/
def Balanced (p : β → α → Bool) (g : ι → α) (xs ys : List β) : Prop :=
  ∀ x, countOf (p x) g + ys.count x = xs.count x

variable {p : β → α → Bool} {g g' : ι → α} {xs ys : List β}

theorem balanced_nil (h : ∀ x t, p x (g t) = false) : Balanced p g [] [] := by
  intro x
  rw [countOf_eq_zero (h x)]
  rfl

theorem Balanced.congr (hb : Balanced p g xs ys) (h : ∀ x t, p x (g' t) = p x (g t)) :
    Balanced p g' xs ys := by
  intro x
  rw [countOf_congr (h x)]
  exact hb x

section Update

variable [DecidableEq ι] {t : ι} {a : α}

/-- A thread moves with nothing in hand, or with what it has. -/
theorem Balanced.keep (hb : Balanced p g xs ys) (h : ∀ x, p x a = p x (g t)) :
    Balanced p (Function.update g t a) xs ys := by
  apply hb.congr
  intro x t'
  by_cases ht : t' = t
  · subst ht
    rw [Function.update_self, h x]
  · rw [Function.update_of_ne ht]

/-- A thread takes `x` in hand. -/
theorem Balanced.take (hb : Balanced p g xs ys) {x : β} (hold : ∀ y, p y (g t) = false)
    (hnew : ∀ y, p y a = decide (x = y)) : Balanced p (Function.update g t a) (xs ++ [x]) ys := by
  intro y
  have hcount := countOf_update (p y) g t a
  have hy := hb y
  rw [hold y, hnew y, Bool.toNat_false] at hcount
  rw [count_concat]
  omega

/-- A thread lays `x` down. -/
theorem Balanced.give (hb : Balanced p g xs ys) {x : β} (hold : ∀ y, p y (g t) = decide (x = y))
    (hnew : ∀ y, p y a = false) : Balanced p (Function.update g t a) xs (ys ++ [x]) := by
  intro y
  have hcount := countOf_update (p y) g t a
  have hy := hb y
  rw [hold y, hnew y, Bool.toNat_false] at hcount
  rw [count_concat]
  omega

end Update

theorem Balanced.count_le (hb : Balanced p g xs ys) (x : β) : ys.count x ≤ xs.count x := by
  have := hb x
  omega

/-- What was given was taken before. -/
theorem Balanced.mem (hb : Balanced p g xs ys) {x : β} (hx : x ∈ ys) : x ∈ xs := by
  have hpos := List.count_pos_iff.mpr hx
  have hle := hb.count_le x
  exact List.count_pos_iff.mp (by omega)

theorem Balanced.nodup (hb : Balanced p g xs ys) (hxs : xs.Nodup) : ys.Nodup := by
  rw [List.nodup_iff_count_le_one] at hxs ⊢
  exact fun x => (hb.count_le x).trans (hxs x)

/-- What a thread has in hand is not in `ys`, when `xs` lists it once. -/
theorem Balanced.notMem (hb : Balanced p g xs ys) (hxs : xs.Nodup) {x : β} {t : ι}
    (h : p x (g t) = true) : x ∉ ys := by
  intro hx
  have hpos : 0 < countOf (p x) g := countOf_pos_of h
  have hcount := List.count_pos_iff.mpr hx
  have hle := List.nodup_iff_count_le_one.mp hxs x
  have := hb x
  omega

/-- No thread has anything in hand. -/
theorem Balanced.perm (hb : Balanced p g xs ys) (h : ∀ x t, p x (g t) = false) : ys.Perm xs := by
  rw [List.perm_iff_count]
  intro x
  have hx := hb x
  rw [countOf_eq_zero (h x), Nat.zero_add] at hx
  exact hx

end Balanced

theorem countP_cons_eq {α : Type*} (p : α → Bool) (a : α) (xs : List α) :
    (a :: xs).countP p = (p a).toNat + xs.countP p := by
  rw [List.countP_cons]
  cases p a <;> simp [Nat.add_comm]

end Counting
