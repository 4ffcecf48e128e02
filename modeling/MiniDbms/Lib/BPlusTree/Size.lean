import Mathlib.Data.List.Perm.Basic
import MiniDbms.Lib.BPlusTree.Root

/-!
# The number of nodes

An insertion gives the tree all nodes that it takes from the supply, unless it is cut off on its way
(`Sized`): then the part that was cut off is lost.  For the whole tree, `insertRoot_sized` says in
terms of the grants when no node is lost.

A node below the root is half full, so a tree has no more nodes than entries
(`Wf.length_labels_le`).  `Tree.postorder` lists the nodes with the children in front of their
parent.
-/

namespace BPlus

open SortedAssoc

universe u

variable {κ ν : Type u}

namespace Tree

/-! ### Children first -/

/-- The identities of all nodes, children first. -/
def postorder : {n : ℕ} → Tree κ ν n → List ℕ
  | 0, t => [Leaf.label t]
  | _ + 1, t => (Branch.children t).flatMap postorder ++ [Branch.label t]

@[simp] theorem postorder_leaf (l : Leaf κ ν) : postorder (n := 0) l = [l.label] := rfl

@[simp] theorem postorder_branch {n : ℕ} (b : Branch κ (Tree κ ν n)) :
    postorder (n := n + 1) b = b.children.flatMap postorder ++ [b.label] := rfl

theorem postorder_perm : {n : ℕ} → (t : Tree κ ν n) → t.postorder.Perm t.labels
  | 0, _ => .refl _
  | _ + 1, b => by
    refine List.perm_append_comm.trans (List.Perm.cons _ ?_)
    exact List.Perm.flatMap_left _ fun c _ => postorder_perm c

theorem labels_ne_nil {n : ℕ} (t : Tree κ ν n) : t.labels ≠ [] :=
  List.ne_nil_of_mem t.label_mem_labels

/-! ### Nodes and entries -/

/-- Parts with fewer nodes than entries. -/
theorem length_flatMap_labels_le {n : ℕ} {cs : List (Tree κ ν n)}
    (h : ∀ c ∈ cs, c.labels.length + 1 ≤ c.toList.length) :
    (cs.flatMap labels).length + cs.length ≤ (cs.flatMap toList).length := by
  induction cs with
  | nil => exact Nat.le_refl 0
  | cons c cs ih =>
    have hc := h c List.mem_cons_self
    have hcs := ih fun c hc => h c (List.mem_cons_of_mem _ hc)
    rw [List.flatMap_cons, List.flatMap_cons, List.length_append, List.length_append,
      List.length_cons]
    omega

/-- A branch with at least two children, whose nodes are half full. -/
theorem Filled.length_labels_branch {order n : ℕ} {lo : ℕ × ℕ} {b : Branch κ (Tree κ ν n)}
    (hlo : 1 ≤ lo.2) (hsep : Separated (n := n + 1) b) (hfill : Filled order lo (n := n + 1) b)
    (hchild : ∀ c ∈ b.children, c.labels.length + 1 ≤ c.toList.length) :
    (labels (n := n + 1) b).length + 1 ≤ (toList (n := n + 1) b).length := by
  have hlen := hsep.length_children
  have hkeys : 1 ≤ b.keys.length := hlo.trans hfill.1
  have hsum := length_flatMap_labels_le hchild
  rw [labels_branch, toList_branch, List.length_cons]
  omega

/-- A half-full tree has fewer nodes than entries. -/
theorem Filled.length_labels_lt {order : ℕ} (ho : 4 ≤ order) : {n : ℕ} → {t : Tree κ ν n} →
    t.Separated → t.Filled order (half order) → t.labels.length + 1 ≤ t.toList.length
  | 0, l, _, hfill => by
    have hle := hfill.1
    rw [half] at hle
    show 1 + 1 ≤ (Leaf.entries l).length
    omega
  | n + 1, b, hsep, hfill => by
    refine hfill.length_labels_branch (by rw [half]; omega) hsep fun c hc => ?_
    exact Filled.length_labels_lt ho (hsep.2.2 c hc) (hfill.2.2 c hc)

/-! ### The nodes of an insertion -/

/-- What an outcome does to the number of nodes. -/
def Sized {n : ℕ} (t : Tree κ ν n) (s s' : Supply) : Outcome κ (Tree κ ν n) → Prop
  | .duplicate | .refused => s'.fresh = s.fresh
  | .fits t' => t'.labels.length + s.fresh = t.labels.length + s'.fresh
  | .truncated t' => t'.labels.length + s.fresh < t.labels.length + s'.fresh
  | .splits l _ r => l.labels.length + r.labels.length + s.fresh = t.labels.length + s'.fresh

variable [LinearOrder κ]

theorem leaf_insert_sized {order : ℕ} (x : κ × ν) (l : Leaf κ ν) (s : Supply) :
    Sized (n := 0) l s (l.insert order x s).2 (l.insert order x s).1 := by
  unfold Leaf.insert
  split_ifs with hdup hroom
  · exact rfl
  · exact rfl
  · by_cases hg : s.Granted 0
    · rw [Supply.take_granted hg]
      show 1 + 1 + s.fresh = 1 + (s.fresh + 1)
      omega
    · rw [Supply.take_refused hg]
      exact rfl

omit [LinearOrder κ] in
/-- The number of nodes of a branch, with the children at one place set apart. -/
theorem length_labels_branch {n : ℕ} {b : Branch κ (Tree κ ν n)} {A M C : List (Tree κ ν n)}
    (h : b.children = A ++ (M ++ C)) :
    (labels (n := n + 1) b).length =
      (A.flatMap labels).length + (C.flatMap labels).length + 1 + (M.flatMap labels).length := by
  rw [labels_branch, h, List.length_cons, List.flatMap_append, List.flatMap_append,
    List.length_append, List.length_append]
  omega

omit [LinearOrder κ] in
theorem length_labels_cut (order : ℕ) {n : ℕ} (w : Branch κ (Tree κ ν n)) (p : ℕ) :
    (labels (n := n + 1) (w.left order)).length + (labels (n := n + 1) (w.right order p)).length =
      (labels (n := n + 1) w).length + 1 := by
  have h : (w.children.flatMap labels).length =
      ((w.children.take (order / 2 + 1)).flatMap labels).length +
        ((w.children.drop (order / 2 + 1)).flatMap labels).length := by
    rw [← List.length_append, ← List.flatMap_append, List.take_append_drop]
  rw [labels_branch, labels_branch, labels_branch, List.length_cons, List.length_cons,
    List.length_cons, h]
  simp only [Branch.left, Branch.right]
  omega

/-- **Nodes**: an insertion below a node gives the tree every node it takes, unless it is cut
off. -/
theorem insert_sized (order : ℕ) (x : κ × ν) : {n : ℕ} → (t : Tree κ ν n) → (s : Supply) →
    t.Separated → Sorted t.toList → t.Sized s (t.insert order x s).2 (t.insert order x s).1
  | 0, l, s, _, _ => leaf_insert_sized x l s
  | n + 1, b, s, hsep, hsort => by
    obtain ⟨A, c, C, h⟩ := exists_routed hsep hsort x.1
    have ih := insert_sized order x c s (hsep.2.2 c h.mem) (h.sorted hsort)
    have hb := length_labels_branch (M := [c]) h.children_eq
    have hrep := fun l => length_labels_branch (M := [l]) (h.replace_children l)
    simp only [List.flatMap_cons, List.flatMap_nil, List.append_nil] at hb hrep
    simp only [insert, h.getElem?]
    rcases hins : c.insert order x s with ⟨_ | _ | t' | t' | ⟨l, k, r⟩, s'⟩ <;>
      rw [hins] at ih <;> simp only [Sized] at ih ⊢
    · exact ih
    · exact ih
    · rw [hrep t', hb]
      omega
    · rw [hrep t', hb]
      omega
    · have hw := length_labels_branch (M := [l, r]) (h.widen_children l k r)
      simp only [List.flatMap_cons, List.flatMap_nil, List.append_nil, List.length_append] at hw
      unfold Branch.absorb
      dsimp only
      split_ifs with hroom
      · dsimp only
        rw [hw, hb]
        omega
      · by_cases hg : s'.Granted 0
        · rw [Supply.take_granted hg]
          have hcut := length_labels_cut order (b.widen (route b.keys x.1) l k r) s'.fresh
          dsimp only
          rw [hcut, hw, hb]
          omega
        · -- the right half of the child is lost
          rw [Supply.take_refused hg]
          have hr := List.length_pos_iff.mpr r.labels_ne_nil
          dsimp only
          rw [hrep l, hb]
          omega

end Tree

/-! ### The whole tree -/

variable [LinearOrder κ]

section Root

variable {order : ℕ} {t : AnyTree κ ν}

/-- The requests of an insertion: the first is refused, or none that is needed is. -/
def Supply.Whole (s : Supply) (needed : ℕ) : Prop :=
  ¬ s.Granted 0 ∨ ∀ i < needed, s.Granted i

/-- **Nodes of the whole tree**: none is lost if and only if the first request is refused, or all
that are needed are granted. -/
theorem insertRoot_sized (h : Wf order t) (x : κ × ν) (s : Supply) :
    (insertRoot order x t s).2.1.2.labels.length + s.fresh ≤
      t.2.labels.length + (insertRoot order x t s).2.2.fresh ∧
    ((insertRoot order x t s).2.1.2.labels.length + s.fresh =
      t.2.labels.length + (insertRoot order x t s).2.2.fresh ↔
      s.Whole (neededRoot order x.1 t)) := by
  obtain ⟨n, t⟩ := t
  have hsized := Tree.insert_sized order x t s h.separated h.sorted
  have hpaid := Tree.insert_paid order x t s h.separated h.sorted
  unfold insertRoot neededRoot
  rcases hins : t.insert order x s with ⟨_ | _ | t' | t' | ⟨l, k, r⟩, s'⟩ <;>
    rw [hins] at hsized hpaid <;> simp only [Tree.Sized] at hsized ⊢
  · obtain ⟨hov, hn, -⟩ := hpaid
    refine ⟨by omega, iff_of_true (by omega) (.inr fun i hi => ?_)⟩
    rw [hn, hov] at hi
    exact absurd hi (Nat.not_lt_zero i)
  · exact ⟨by omega, iff_of_true (by omega) (.inl hpaid.1)⟩
  · obtain ⟨hov, hg, -⟩ := hpaid
    refine ⟨hsized.le, iff_of_true hsized (.inr ?_)⟩
    rw [hov]
    exact hg
  · obtain ⟨h0, i, hi, hg⟩ := hpaid
    refine ⟨hsized.le, iff_of_false hsized.ne ?_⟩
    rintro (hfirst | hall)
    · exact hfirst h0
    · exact hg (hall i (Nat.lt_add_right _ hi))
  · obtain ⟨hov, hpos, hg, hd⟩ := hpaid
    have hlast := Supply.granted_drop hd 0
    rw [Nat.add_zero] at hlast
    rw [hov, if_pos rfl]
    by_cases hg' : s'.Granted 0
    · rw [Supply.take_granted hg']
      have hroot : (Tree.labels (n := n + 1) (⟨s'.fresh, [k], [l, r]⟩ :
          Branch κ (Tree κ ν n))).length = l.labels.length + r.labels.length + 1 := by
        simp
      dsimp only
      rw [hroot]
      refine ⟨by omega, iff_of_true (by omega) (.inr fun i hi => ?_)⟩
      rcases Nat.lt_or_ge i (t.needed order x.1) with hlt | hge
      · exact hg i hlt
      · rw [show i = t.needed order x.1 by omega]
        exact hlast.mp hg'
    · -- the root was cut, and its right half is lost
      rw [Supply.take_refused hg']
      have hr := List.length_pos_iff.mpr r.labels_ne_nil
      dsimp only
      refine ⟨by omega, iff_of_false (by omega) ?_⟩
      rintro (hfirst | hall)
      · exact hfirst (hg 0 hpos)
      · exact hg' (hlast.mpr (hall _ (Nat.lt_succ_self _)))

/-- A tree has no more nodes than entries. -/
theorem Wf.length_labels_le (ho : 4 ≤ order) (h : Wf order t) :
    t.2.labels.length ≤ t.2.toList.length := by
  obtain ⟨n, t⟩ := t
  cases n with
  | zero => exact h.filled.1
  | succ n =>
    refine Nat.le_of_succ_le (h.filled.length_labels_branch le_rfl h.separated fun c hc => ?_)
    exact Tree.Filled.length_labels_lt ho (h.separated.2.2 c hc) (h.filled.2.2 c hc)

end Root

end BPlus
