import MiniDbms.Lib.BPlusTree.Root

/-!
# The leaves of a B+ tree

`Tree.leafLabels` lists the leaves from left to right, `Tree.leafOf` is the leaf that a key is
routed to.  An insertion changes the list at one place only: when the leaf of the key is cut in two,
the fresh node comes right behind it (`Tree.insert_leafLabels`, `insertRoot_leafLabels`).
-/

namespace BPlus

open SortedAssoc

universe u

variable {κ ν : Type u}

namespace Tree

/-- The identities of the leaves, from left to right. -/
def leafLabels : {n : ℕ} → Tree κ ν n → List ℕ
  | 0, t => [Leaf.label t]
  | _ + 1, t => (Branch.children t).flatMap leafLabels

@[simp] theorem leafLabels_leaf (l : Leaf κ ν) : leafLabels (n := 0) l = [l.label] := rfl

@[simp] theorem leafLabels_branch {n : ℕ} (b : Branch κ (Tree κ ν n)) :
    leafLabels (n := n + 1) b = b.children.flatMap leafLabels := rfl

/-- The leaves are among the nodes. -/
theorem leafLabels_sublist : {n : ℕ} → (t : Tree κ ν n) → t.leafLabels.Sublist t.labels
  | 0, _ => List.Sublist.refl _
  | n + 1, b => by
    refine List.Sublist.cons _ ?_
    show ((Branch.children b).flatMap leafLabels).Sublist ((Branch.children b).flatMap labels)
    induction Branch.children b with
    | nil => exact List.Sublist.refl _
    | cons c cs ih =>
      rw [List.flatMap_cons, List.flatMap_cons]
      exact (leafLabels_sublist c).append ih

variable [LinearOrder κ]

/-- The leaf that a key is routed to. -/
def leafOf (k : κ) : {n : ℕ} → Tree κ ν n → Option ℕ
  | 0, t => some (Leaf.label t)
  | _ + 1, b => ((Branch.children b)[route (Branch.keys b) k]?).bind (leafOf k)

/-- The leaves an insertion leaves behind, when nothing is lost. -/
def leavesAfter {n : ℕ} : Outcome κ (Tree κ ν n) → Option (List ℕ)
  | .fits t => some t.leafLabels
  | .splits l _ r => some (l.leafLabels ++ r.leafLabels)
  | _ => none

/-- What an insertion does to a list of leaves: nothing, or the fresh node comes behind `p`. -/
def Extended (s s' : Supply) (p : Option ℕ) (ls ls' : List ℕ) : Prop :=
  s'.fresh = s.fresh ∧ ls' = ls ∨
    s.fresh < s'.fresh ∧ ∃ q A C, p = some q ∧ ls = A ++ q :: C ∧ ls' = A ++ q :: s.fresh :: C

/-- A longer list, and a further node from the supply. -/
theorem Extended.append {s s' s'' : Supply} {p : Option ℕ} {ls ls' : List ℕ}
    (h : Extended s s' p ls ls') (hle : s'.fresh ≤ s''.fresh)
    (heq : s'.fresh = s.fresh → s''.fresh = s.fresh) (A C : List ℕ) :
    Extended s s'' p (A ++ ls ++ C) (A ++ ls' ++ C) := by
  rcases h with ⟨hs, rfl⟩ | ⟨hs, q, A', C', hp, rfl, rfl⟩
  · exact .inl ⟨heq hs, rfl⟩
  · exact .inr ⟨lt_of_lt_of_le hs hle, q, A ++ A', C' ++ C, hp, by simp, by simp⟩

theorem leaf_insert_leafLabels {order : ℕ} (x : κ × ν) (l : Leaf κ ν) (s : Supply) {ls : List ℕ}
    (hls : leavesAfter (n := 0) (l.insert order x s).1 = some ls) :
    Extended s (l.insert order x s).2 (leafOf x.1 (n := 0) l) (leafLabels (n := 0) l) ls := by
  unfold Leaf.insert at hls ⊢
  split_ifs at hls ⊢ with hdup hroom
  · cases hls
  · cases hls
    exact .inl ⟨rfl, rfl⟩
  · by_cases hg : s.Granted 0
    · simp only [Supply.take_granted hg] at hls ⊢
      cases hls
      exact .inr ⟨Nat.lt_succ_self _, _, [], [], rfl, rfl, rfl⟩
    · simp only [Supply.take_refused hg] at hls
      cases hls

/-- **The leaves below a node** after an insertion. -/
theorem insert_leafLabels (order : ℕ) (x : κ × ν) : {n : ℕ} → (t : Tree κ ν n) → (s : Supply) →
    t.Separated → Sorted t.toList → {ls : List ℕ} →
    leavesAfter (t.insert order x s).1 = some ls →
    Extended s (t.insert order x s).2 (t.leafOf x.1) t.leafLabels ls ∧
      (∀ l k r, (t.insert order x s).1 = .splits l k r → s.fresh < (t.insert order x s).2.fresh)
  | 0, l, s, _, _, ls, hls => by
    refine ⟨leaf_insert_leafLabels x l s hls, fun l' k r h => ?_⟩
    simp only [insert, Leaf.insert] at h ⊢
    split_ifs at h ⊢ with hdup hroom
    by_cases hg : s.Granted 0
    · simp only [Supply.take_granted hg]
      exact Nat.lt_succ_self _
    · simp only [Supply.take_refused hg] at h
      cases h
  | n + 1, b, s, hsep, hsort, ls, hls => by
    obtain ⟨A, c, C, h⟩ := exists_routed hsep hsort x.1
    have ih := @insert_leafLabels order x n c s (hsep.2.2 c h.mem) (h.sorted hsort)
    have hleaf : leafOf x.1 (n := n + 1) b = leafOf x.1 c := by
      rw [leafOf, h.getElem?, Option.bind_some]
    have hb : leafLabels (n := n + 1) b =
        A.flatMap leafLabels ++ c.leafLabels ++ C.flatMap leafLabels := by
      show (Branch.children b).flatMap leafLabels = _
      rw [h.children_eq, List.flatMap_append, List.flatMap_cons, List.append_assoc]
    rw [hleaf, hb]
    simp only [insert, h.getElem?] at hls ⊢
    rcases hins : c.insert order x s with ⟨_ | _ | t' | t' | ⟨l, k, r⟩, s'⟩ <;>
      rw [hins] at ih hls <;> simp only [leavesAfter] at ih hls ⊢
    · cases hls
    · cases hls
    · cases hls
      refine ⟨?_, fun l k r h => by cases h⟩
      rw [leafLabels_branch, h.replace_children, List.flatMap_append, List.flatMap_cons,
        ← List.append_assoc]
      exact (ih rfl).1.append le_rfl id _ _
    · cases hls
    · obtain ⟨hext, hlt⟩ := ih rfl
      have hlt := hlt l k r rfl
      have hw : (b.widen (route b.keys x.1) l k r).children.flatMap leafLabels =
          A.flatMap leafLabels ++ (l.leafLabels ++ r.leafLabels) ++ C.flatMap leafLabels := by
        rw [h.widen_children]
        simp
      unfold Branch.absorb at hls ⊢
      dsimp only at hls ⊢
      split_ifs at hls ⊢ with hroom
      · cases hls
        refine ⟨?_, fun l k r h => by cases h⟩
        rw [leafLabels_branch, hw]
        exact hext.append le_rfl id _ _
      · by_cases hg : s'.Granted 0
        · rw [Supply.take_granted hg] at hls ⊢
          cases hls
          refine ⟨?_, fun l k r _ => hlt.trans (Nat.lt_succ_self _)⟩
          -- the two parts list the leaves of the widened branch
          rw [leafLabels_branch, leafLabels_branch, Branch.left, Branch.right,
            ← List.flatMap_append, List.take_append_drop, hw]
          exact hext.append (Nat.le_succ _) (fun h0 => absurd h0 hlt.ne') _ _
        · rw [Supply.take_refused hg] at hls
          cases hls

end Tree

variable [LinearOrder κ] {order : ℕ} {t : AnyTree κ ν}

/-- **The leaves of the tree** after an insertion that succeeds. -/
theorem insertRoot_leafLabels (h : Wf order t) (x : κ × ν) (s : Supply)
    (hok : (insertRoot order x t s).1 = true) :
    Tree.Extended s (insertRoot order x t s).2.2 (t.2.leafOf x.1) t.2.leafLabels
      (insertRoot order x t s).2.1.2.leafLabels := by
  obtain ⟨n, t⟩ := t
  have hext := @Tree.insert_leafLabels κ ν _ order x n t s h.separated h.sorted
  unfold insertRoot at hok ⊢
  rcases hins : t.insert order x s with ⟨_ | _ | t' | t' | ⟨l, k, r⟩, s'⟩ <;>
    rw [hins] at hext <;> simp only [hins] at hok ⊢
  · cases hok
  · cases hok
  · exact (hext rfl).1
  · cases hok
  · obtain ⟨hleaf, hlt⟩ := hext rfl
    have hlt : s.fresh < s'.fresh := hlt l k r rfl
    replace hleaf : Tree.Extended s s' (t.leafOf x.1) t.leafLabels
      (l.leafLabels ++ r.leafLabels) := hleaf
    by_cases hg : s'.Granted 0
    · rw [Supply.take_granted hg]
      have := hleaf.append (show s'.fresh ≤ (⟨s'.fresh + 1, s'.allocs.tail⟩ : Supply).fresh from
        Nat.le_succ _) (fun h0 => absurd h0 hlt.ne') [] []
      simpa using this
    · rw [Supply.take_refused hg] at hok
      cases hok

end BPlus
