import MiniDbms.Lib.SortedAssoc

/-!
# B+ trees of fixed height

`Tree κ ν n` is a B+ tree whose leaves all lie `n` levels below its root: the height is part of the
type, so an unbalanced tree cannot be written down.  Every node carries a label, its identity in
whatever memory the tree is kept in.

`Tree.toList` is the sorted association list a tree stands for, `Tree.Separated` says that each
separator is the least key to its right, `Tree.Filled` bounds the number of keys of a node for trees
of a given `order` (the maximal number of children).  `Tree.lookup` descends along the separators,
and `Tree.lookup_eq` says that it finds what the list finds.
-/

namespace BPlus

open SortedAssoc

universe u

/-- A leaf: the entries, in key order. -/
structure Leaf (κ ν : Type u) where
  label : ℕ
  entries : List (κ × ν)

/-- An inner node: separators and children. -/
structure Branch (κ τ : Type u) where
  label : ℕ
  keys : List κ
  children : List τ

/-- B+ trees of height `n`. -/
def Tree (κ ν : Type u) : ℕ → Type u
  | 0 => Leaf κ ν
  | n + 1 => Branch κ (Tree κ ν n)

/-- The child whose segment may hold `k`: behind the separators `≤ k`. -/
def route {κ : Type u} [LinearOrder κ] (ks : List κ) (k : κ) : ℕ := (ks.takeWhile (· ≤ k)).length

variable {κ ν : Type u}

namespace Tree

/-- The identity of the root node. -/
def label : {n : ℕ} → Tree κ ν n → ℕ
  | 0, t => Leaf.label t
  | _ + 1, t => Branch.label t

/-- The entries, leaf by leaf. -/
def toList : {n : ℕ} → Tree κ ν n → List (κ × ν)
  | 0, t => Leaf.entries t
  | _ + 1, t => (Branch.children t).flatMap toList

/-- The identities of all nodes. -/
def labels : {n : ℕ} → Tree κ ν n → List ℕ
  | 0, t => [Leaf.label t]
  | _ + 1, t => Branch.label t :: (Branch.children t).flatMap labels

/-- The least key. -/
def minKey? {n : ℕ} (t : Tree κ ν n) : Option κ := (SortedAssoc.keys t.toList).head?

/-- Each separator is the least key of the child to its right. -/
def Separated : {n : ℕ} → Tree κ ν n → Prop
  | 0, _ => True
  | _ + 1, b => (Branch.children b).tail.map minKey? = (Branch.keys b).map some ∧
      Branch.children b ≠ [] ∧ ∀ c ∈ Branch.children b, Separated c

/-- The least numbers of entries of a leaf and of separators of a branch, below the root. -/
def half (order : ℕ) : ℕ × ℕ := (order / 2, order - order / 2 - 1)

/-- The occupancy of the nodes: the top node holds at least `lo.1` entries or `lo.2` separators, the
nodes below it half of what `order` allows. -/
def Filled (order : ℕ) : ℕ × ℕ → {n : ℕ} → Tree κ ν n → Prop
  | lo, 0, l => lo.1 ≤ (Leaf.entries l).length ∧ (Leaf.entries l).length < order
  | lo, _ + 1, b => lo.2 ≤ (Branch.keys b).length ∧ (Branch.keys b).length < order ∧
      ∀ c ∈ Branch.children b, Filled order (half order) c

@[simp] theorem toList_leaf (l : Leaf κ ν) : toList (n := 0) l = l.entries := rfl

@[simp] theorem toList_branch {n : ℕ} (b : Branch κ (Tree κ ν n)) :
    toList (n := n + 1) b = b.children.flatMap toList := rfl

theorem minKey?_leaf (l : Leaf κ ν) : minKey? (n := 0) l = (SortedAssoc.keys l.entries).head? := rfl

@[simp] theorem label_leaf (l : Leaf κ ν) : label (n := 0) l = l.label := rfl

@[simp] theorem label_branch {n : ℕ} (b : Branch κ (Tree κ ν n)) :
    label (n := n + 1) b = b.label := rfl

@[simp] theorem labels_leaf (l : Leaf κ ν) : labels (n := 0) l = [l.label] := rfl

@[simp] theorem labels_branch {n : ℕ} (b : Branch κ (Tree κ ν n)) :
    labels (n := n + 1) b = b.label :: b.children.flatMap labels := rfl

theorem label_mem_labels : {n : ℕ} → (t : Tree κ ν n) → t.label ∈ t.labels
  | 0, _ => List.mem_singleton_self _
  | _ + 1, _ => List.mem_cons_self

/-- A separated branch has one child more than separators. -/
theorem Separated.length_children {n : ℕ} {b : Branch κ (Tree κ ν n)}
    (h : Separated (n := n + 1) b) : b.children.length = b.keys.length + 1 := by
  obtain ⟨hmap, hne, -⟩ := h
  have hlen := congrArg List.length hmap
  rw [List.length_map, List.length_map, List.length_tail] at hlen
  have := List.length_pos_iff.mpr hne
  omega

theorem Filled.mono {order : ℕ} {lo lo' : ℕ × ℕ} (h₁ : lo'.1 ≤ lo.1) (h₂ : lo'.2 ≤ lo.2) :
    {n : ℕ} → {t : Tree κ ν n} → Filled order lo t → Filled order lo' t
  | 0, _, h => ⟨h₁.trans h.1, h.2⟩
  | _ + 1, _, h => ⟨h₂.trans h.1, h.2⟩

/-- A filled tree is not empty. -/
theorem Filled.toList_ne_nil {order : ℕ} (ho : 2 ≤ order) : {n : ℕ} → {lo : ℕ × ℕ} →
    {t : Tree κ ν n} → 1 ≤ lo.1 → Filled order lo t → Separated t → t.toList ≠ []
  | 0, lo, l, hlo, h, _ => by
    intro h0
    have := h.1
    rw [show Leaf.entries l = [] from h0] at this
    simp at this
    omega
  | n + 1, lo, b, _, h, hs => by
    obtain ⟨c, cs, hcs⟩ := List.exists_cons_of_ne_nil hs.2.1
    have hc : c ∈ Branch.children b := by rw [hcs]; exact List.mem_cons_self
    have := Filled.toList_ne_nil ho (by rw [half]; omega) (h.2.2 c hc) (hs.2.2 c hc)
    simp only [toList, hcs, List.flatMap_cons]
    exact fun h0 => this (List.append_eq_nil_iff.mp h0).1

theorem minKey?_eq_some_iff {n : ℕ} {t : Tree κ ν n} {k : κ} :
    t.minKey? = some k ↔ ∃ v rest, t.toList = (k, v) :: rest := by
  rw [minKey?]
  rcases t.toList with _ | ⟨⟨k', v⟩, rest⟩
  · simp
  · simp only [List.map_cons, List.head?_cons, Option.some.injEq, List.cons.injEq, Prod.mk.injEq]
    exact ⟨fun h => ⟨v, rest, ⟨h, rfl⟩, rfl⟩, fun ⟨_, _, h, _⟩ => h.1⟩

theorem Separated.minKey?_getElem {n : ℕ} {b : Branch κ (Tree κ ν n)}
    (h : Separated (n := n + 1) b) {i : ℕ} {c : Tree κ ν n} (hc : b.children[i + 1]? = some c) :
    ∃ s, b.keys[i]? = some s ∧ c.minKey? = some s := by
  have hmap := congrArg (fun l => l[i]?) h.1
  simp only [List.getElem?_map, List.getElem?_tail] at hmap
  rw [show (Branch.children b)[i + 1]? = some c from hc, Option.map_some] at hmap
  obtain ⟨s, hs, hcs⟩ := Option.map_eq_some_iff.mp hmap.symm
  exact ⟨s, hs, hcs.symm⟩

/-! ### Descending -/

variable [LinearOrder κ]

/-- Lookup along the separators. -/
def lookup (k : κ) : {n : ℕ} → Tree κ ν n → Option ν
  | 0, t => (Leaf.entries t).lookup k
  | _ + 1, t => ((Branch.children t)[route (Branch.keys t) k]?).bind (lookup k)

theorem route_cons (k₀ : κ) (ks : List κ) (k : κ) :
    route (k₀ :: ks) k = if k₀ ≤ k then route ks k + 1 else 0 := by
  rw [route, List.takeWhile_cons]
  by_cases h : k₀ ≤ k <;> simp [h, route]

theorem route_le_length (ks : List κ) (k : κ) : route ks k ≤ ks.length :=
  (List.takeWhile_sublist _).length_le

/-- The separators in front of the routed child are `≤ k`. -/
theorem le_of_lt_route {ks : List κ} {k s : κ} {i : ℕ} (hs : ks[i]? = some s)
    (hi : i < route ks k) : s ≤ k := by
  induction ks generalizing i with
  | nil => simp at hs
  | cons k₀ ks ih =>
    rw [route_cons] at hi
    split_ifs at hi with h
    · cases i with
      | zero =>
        cases hs
        exact h
      | succ i => exact ih hs (by omega)
    · omega

/-- The separator behind the routed child is greater than `k`. -/
theorem lt_of_route_eq {ks : List κ} {k s : κ} (hs : ks[route ks k]? = some s) : k < s := by
  induction ks with
  | nil => simp at hs
  | cons k₀ ks ih =>
    rw [route_cons] at hs
    split_ifs at hs with h
    · exact ih hs
    · cases hs
      exact not_le.mp h

/-- The children around the routed one: `A` holds smaller keys, `C` greater ones. -/
structure Routed {n : ℕ} (b : Branch κ (Tree κ ν n)) (k : κ) (A : List (Tree κ ν n))
    (c : Tree κ ν n) (C : List (Tree κ ν n)) : Prop where
  children_eq : b.children = A ++ c :: C
  length_left : A.length = route b.keys k
  lt_of_mem_left : ∀ e ∈ A.flatMap toList, e.1 < k
  lt_of_mem_right : ∀ e ∈ C.flatMap toList, k < e.1
  minKey?_le : A ≠ [] → ∃ s, c.minKey? = some s ∧ s ≤ k

/-- **Descending is sound**: the routed child is the one whose segment may hold the key. -/
theorem exists_routed {n : ℕ} {b : Branch κ (Tree κ ν n)} (hsep : Separated (n := n + 1) b)
    (hsort : Sorted (toList (n := n + 1) b)) (k : κ) : ∃ A c C, Routed b k A c C := by
  have hlen := hsep.length_children
  have hle := route_le_length b.keys k
  set i := route b.keys k with hi
  obtain ⟨c, hc⟩ : ∃ c, b.children[i]? = some c :=
    ⟨_, List.getElem?_eq_getElem (by omega : i < b.children.length)⟩
  have hsplit : b.children = b.children.take i ++ c :: b.children.drop (i + 1) := by
    conv_lhs => rw [← List.take_append_drop i b.children]
    rw [List.drop_eq_getElem_cons (by omega)]
    congr 2
    exact (List.getElem_eq_iff _).mpr hc
  rw [toList_branch, hsplit, List.flatMap_append, List.flatMap_cons] at hsort
  obtain ⟨-, hright, hcross⟩ := List.pairwise_append.mp hsort
  obtain ⟨-, hC, -⟩ := List.pairwise_append.mp hright
  -- a child before the routed one puts its separator below the key
  have hmin : b.children.take i ≠ [] → ∃ s, c.minKey? = some s ∧ s ≤ k := by
    intro hne
    obtain ⟨j, hj⟩ : ∃ j, i = j + 1 := Nat.exists_eq_add_one.mpr (by
      rcases Nat.eq_zero_or_pos i with h0 | h0
      · simp [h0] at hne
      · exact h0)
    obtain ⟨s, hs, hcs⟩ := hsep.minKey?_getElem (i := j) (by rw [← hj]; exact hc)
    exact ⟨s, hcs, le_of_lt_route hs (by omega)⟩
  refine ⟨_, c, _, hsplit, by rw [List.length_take]; omega, fun e he => ?_, fun e he => ?_, hmin⟩
  · -- everything on the left is below the least key of the routed child
    obtain ⟨s, hcs, hsk⟩ := hmin (by rintro h0; simp [h0] at he)
    obtain ⟨v, rest, hl⟩ := minKey?_eq_some_iff.mp hcs
    have hmem : (s, v) ∈ c.toList ++ (b.children.drop (i + 1)).flatMap toList := by
      rw [hl]
      simp
    exact lt_of_lt_of_le (hcross e he _ hmem) hsk
  · -- everything on the right is at least the separator behind the routed child
    obtain ⟨d, ds, hds⟩ := List.exists_cons_of_ne_nil
      (show b.children.drop (i + 1) ≠ [] by rintro h0; simp [h0] at he)
    have hd : b.children[i + 1]? = some d := by
      rw [← List.head?_drop, hds]
      rfl
    obtain ⟨s, hs, hcs⟩ := hsep.minKey?_getElem hd
    obtain ⟨v, rest, hl⟩ := minKey?_eq_some_iff.mp hcs
    have hks : k < s := lt_of_route_eq hs
    rw [hds, List.flatMap_cons, hl] at he hC
    rcases List.mem_cons.mp he with rfl | he
    · exact hks
    · exact hks.trans ((List.pairwise_cons.mp hC).1 e he)

theorem Routed.getElem? {n : ℕ} {b : Branch κ (Tree κ ν n)} {k : κ} {A C : List (Tree κ ν n)}
    {c : Tree κ ν n} (h : Routed b k A c C) : b.children[route b.keys k]? = some c := by
  rw [h.children_eq, ← h.length_left]
  simp

theorem Routed.toList_eq {n : ℕ} {b : Branch κ (Tree κ ν n)} {k : κ} {A C : List (Tree κ ν n)}
    {c : Tree κ ν n} (h : Routed b k A c C) :
    toList (n := n + 1) b = A.flatMap toList ++ c.toList ++ C.flatMap toList := by
  rw [toList_branch, h.children_eq, List.flatMap_append, List.flatMap_cons, List.append_assoc]

theorem Routed.mem {n : ℕ} {b : Branch κ (Tree κ ν n)} {k : κ} {A C : List (Tree κ ν n)}
    {c : Tree κ ν n} (h : Routed b k A c C) : c ∈ b.children := by
  rw [h.children_eq]
  simp

/-- The segment of the routed child is sorted. -/
theorem Routed.sorted {n : ℕ} {b : Branch κ (Tree κ ν n)} {k : κ} {A C : List (Tree κ ν n)}
    {c : Tree κ ν n} (h : Routed b k A c C) (hsort : Sorted (toList (n := n + 1) b)) :
    Sorted c.toList := by
  rw [h.toList_eq] at hsort
  exact hsort.sublist ((List.sublist_append_right _ _).trans (List.sublist_append_left _ _))

/-- **Lookup**: descending along the separators finds what the list of entries holds. -/
theorem lookup_eq (k : κ) : {n : ℕ} → (t : Tree κ ν n) → t.Separated → Sorted t.toList →
    t.lookup k = t.toList.lookup k
  | 0, _, _, _ => rfl
  | n + 1, b, hsep, hsort => by
    obtain ⟨A, c, C, h⟩ := exists_routed hsep hsort k
    rw [lookup, h.getElem?, Option.bind_some, h.toList_eq,
      lookup_middle h.lt_of_mem_left h.lt_of_mem_right]
    exact lookup_eq k c (hsep.2.2 c h.mem) (h.sorted hsort)

end Tree

end BPlus
