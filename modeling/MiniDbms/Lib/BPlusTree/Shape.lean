import Mathlib.Algebra.Group.Nat.Defs
import Mathlib.Data.Nat.Log
import MiniDbms.Lib.BPlusTree.Root

/-!
# The shape of a B+ tree

What `Tree.Separated`, the order of the entries and `Tree.Filled` say about the nodes of a tree: the
separators of a branch ascend, the keys below its `i`-th child lie between two neighbouring
separators (`Separated.range`), and a tree of order at least 4 holds at least `2 ^ (n + 1)` entries
at height `n` (`Filled.pow_le_length`), so that its height is logarithmic (`Wf.height_le_log`).
-/

namespace BPlus

open SortedAssoc

universe u

variable {κ ν : Type u} [LinearOrder κ]

namespace Tree

/-! ### Children and separators -/

/-- The keys of a child are less than those of a later one. -/
theorem key_lt_key {n : ℕ} {b : Branch κ (Tree κ ν n)} (hsort : Sorted (toList (n := n + 1) b))
    {i j : ℕ} (hij : i < j) {c d : Tree κ ν n} (hc : b.children[i]? = some c)
    (hd : b.children[j]? = some d) {k l : κ} (hk : k ∈ SortedAssoc.keys c.toList)
    (hl : l ∈ SortedAssoc.keys d.toList) : k < l := by
  rw [toList_branch, Sorted, List.pairwise_flatMap] at hsort
  obtain ⟨hi, rfl⟩ := List.getElem?_eq_some_iff.mp hc
  obtain ⟨hj, rfl⟩ := List.getElem?_eq_some_iff.mp hd
  obtain ⟨e, he, rfl⟩ := List.mem_map.mp hk
  obtain ⟨f, hf, rfl⟩ := List.mem_map.mp hl
  exact List.pairwise_iff_getElem.mp hsort.2 i j hi hj hij e he f hf

/-- The least key is a key, and no other one is less. -/
theorem minKey?_spec {n : ℕ} {t : Tree κ ν n} (hsort : Sorted t.toList) {s : κ}
    (hs : t.minKey? = some s) :
    s ∈ SortedAssoc.keys t.toList ∧ ∀ k ∈ SortedAssoc.keys t.toList, s ≤ k := by
  obtain ⟨v, rest, hl⟩ := minKey?_eq_some_iff.mp hs
  rw [hl] at hsort ⊢
  refine ⟨List.mem_cons_self, fun k hk => ?_⟩
  rcases List.mem_cons.mp hk with rfl | hk
  · exact le_rfl
  · obtain ⟨e, he, rfl⟩ := List.mem_map.mp hk
    exact ((List.pairwise_cons.mp hsort).1 e he).le

theorem sorted_child {n : ℕ} {b : Branch κ (Tree κ ν n)} (hsort : Sorted (toList (n := n + 1) b))
    {c : Tree κ ν n} (hc : c ∈ b.children) : Sorted c.toList := by
  rw [toList_branch, Sorted, List.pairwise_flatMap] at hsort
  exact hsort.1 c hc

omit [LinearOrder κ] in
/-- The child behind a separator, whose least key it is. -/
theorem Separated.exists_child {n : ℕ} {b : Branch κ (Tree κ ν n)}
    (hsep : Separated (n := n + 1) b) {i : ℕ} {s : κ} (hs : b.keys[i]? = some s) :
    ∃ c, b.children[i + 1]? = some c ∧ c.minKey? = some s := by
  have hlt := (List.getElem?_eq_some_iff.mp hs).1
  have hlen := hsep.length_children
  obtain ⟨c, hc⟩ : ∃ c, b.children[i + 1]? = some c :=
    ⟨_, List.getElem?_eq_getElem (by omega)⟩
  obtain ⟨s', hs', hmin⟩ := hsep.minKey?_getElem hc
  rw [hs] at hs'
  cases hs'
  exact ⟨c, hc, hmin⟩

/-- The separators ascend. -/
theorem Separated.keys_lt {n : ℕ} {b : Branch κ (Tree κ ν n)} (hsep : Separated (n := n + 1) b)
    (hsort : Sorted (toList (n := n + 1) b)) {i j : ℕ} (hij : i < j) {s s' : κ}
    (hs : b.keys[i]? = some s) (hs' : b.keys[j]? = some s') : s < s' := by
  obtain ⟨c, hc, hmin⟩ := hsep.exists_child hs
  obtain ⟨c', hc', hmin'⟩ := hsep.exists_child hs'
  have hk := (minKey?_spec (sorted_child hsort (List.mem_of_getElem? hc)) hmin).1
  have hk' := (minKey?_spec (sorted_child hsort (List.mem_of_getElem? hc')) hmin').1
  exact key_lt_key hsort (Nat.succ_lt_succ hij) hc hc' hk hk'

/-- The keys below a child lie between the separators in front of it and behind it. -/
theorem Separated.range {n : ℕ} {b : Branch κ (Tree κ ν n)} (hsep : Separated (n := n + 1) b)
    (hsort : Sorted (toList (n := n + 1) b)) {i : ℕ} {c : Tree κ ν n}
    (hc : b.children[i]? = some c) {k : κ} (hk : k ∈ SortedAssoc.keys c.toList) {j : ℕ} {s : κ}
    (hs : b.keys[j]? = some s) : (j < i → s ≤ k) ∧ (i ≤ j → k < s) := by
  obtain ⟨d, hd, hmin⟩ := hsep.exists_child hs
  obtain ⟨hmem, hle⟩ := minKey?_spec (sorted_child hsort (List.mem_of_getElem? hd)) hmin
  constructor
  · intro hji
    rcases Nat.lt_or_ge (j + 1) i with hlt | hge
    · exact (key_lt_key hsort hlt hd hc hmem hk).le
    · -- the child is the one right behind the separator
      obtain rfl : i = j + 1 := by omega
      rw [hc] at hd
      cases hd
      exact hle k hk
  · intro hij
    exact key_lt_key hsort (Nat.lt_succ_of_le hij) hc hd hk hmem

/-! ### Height and size -/

/-- Lists that are not shorter than a bound, one behind the other. -/
theorem length_flatMap_ge {α β : Type*} {f : α → List β} {bound : ℕ} {as : List α}
    (h : ∀ a ∈ as, bound ≤ (f a).length) : as.length * bound ≤ (as.flatMap f).length := by
  induction as with
  | nil => simp
  | cons a as ih =>
    have ha := h a List.mem_cons_self
    have has := ih fun a' ha' => h a' (List.mem_cons_of_mem _ ha')
    rw [List.flatMap_cons, List.length_append, List.length_cons, Nat.succ_mul]
    omega

omit [LinearOrder κ] in
/-- A node with two children, at least, below which nodes are half full. -/
theorem Filled.pow_le_length_branch {order n : ℕ} {lo : ℕ × ℕ} {b : Branch κ (Tree κ ν n)}
    (hlo : 1 ≤ lo.2) (hsep : Separated (n := n + 1) b) (hfill : Filled order lo (n := n + 1) b)
    (hchild : ∀ c ∈ b.children, 2 ^ (n + 1) ≤ c.toList.length) :
    2 ^ (n + 2) ≤ (toList (n := n + 1) b).length := by
  have hlen := hsep.length_children
  have hkeys : 1 ≤ b.keys.length := hlo.trans hfill.1
  calc 2 ^ (n + 2) = 2 * 2 ^ (n + 1) := by rw [Nat.pow_succ, Nat.mul_comm]
    _ ≤ b.children.length * 2 ^ (n + 1) := Nat.mul_le_mul_right _ (by omega)
    _ ≤ (b.children.flatMap toList).length := length_flatMap_ge hchild

omit [LinearOrder κ] in
/-- A half-full tree of height `n` holds `2 ^ (n + 1)` entries. -/
theorem Filled.pow_le_length {order : ℕ} (ho : 4 ≤ order) : {n : ℕ} → {t : Tree κ ν n} →
    t.Separated → t.Filled order (half order) → 2 ^ (n + 1) ≤ t.toList.length
  | 0, l, _, hfill => by
    have hle := hfill.1
    rw [half] at hle
    show 2 ^ (0 + 1) ≤ (Leaf.entries l).length
    omega
  | n + 1, b, hsep, hfill => by
    refine hfill.pow_le_length_branch (by rw [half]; omega) hsep fun c hc => ?_
    exact Filled.pow_le_length ho (hsep.2.2 c hc) (hfill.2.2 c hc)

end Tree

open BPlus.Tree

/-- A tree with a branch at the top holds `2 ^ (n + 1)` entries. -/
theorem Wf.pow_le_length {order : ℕ} (ho : 4 ≤ order) {t : AnyTree κ ν} (h : Wf order t)
    (hn : 1 ≤ t.1) : 2 ^ (t.1 + 1) ≤ t.2.toList.length := by
  obtain ⟨n, t⟩ := t
  cases n with
  | zero => exact absurd hn (Nat.not_succ_le_zero 0)
  | succ n =>
    refine h.filled.pow_le_length_branch le_rfl h.separated fun c hc => ?_
    exact Filled.pow_le_length ho (h.separated.2.2 c hc) (h.filled.2.2 c hc)

/-- The height is logarithmic. -/
theorem Wf.height_le_log {order : ℕ} (ho : 4 ≤ order) {t : AnyTree κ ν} (h : Wf order t) :
    t.1 ≤ Nat.log 2 t.2.toList.length := by
  rcases Nat.eq_zero_or_pos t.1 with h0 | hpos
  · exact h0.le.trans (Nat.zero_le _)
  · have hpow := h.pow_le_length ho hpos
    have hle : 2 ^ t.1 ≤ t.2.toList.length :=
      (Nat.pow_le_pow_right (by decide) (Nat.le_succ _)).trans hpow
    exact Nat.le_log_of_pow_le (by decide) hle

end BPlus
