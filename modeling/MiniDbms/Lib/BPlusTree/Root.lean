import MiniDbms.Lib.BPlusTree.Insert

/-!
# Insertion into a whole B+ tree

`insertRoot` inserts at the root and lets the tree grow by one level when the root was cut in two.
`Tree.needed` counts the nodes an insertion asks for; `insertRoot_spec` says, in these terms, which
of the three possible results a supply leads to, and `Wf.insertRoot` that the tree stays well formed
in every one of them, also when memory ran out on the way.
-/

namespace BPlus

open SortedAssoc

universe u

variable {κ ν : Type u} [LinearOrder κ]

/-- The `i`-th coming request is granted. -/
def Supply.Granted (s : Supply) (i : ℕ) : Prop := s.allocs.getD i true = true

theorem Supply.take_granted {s : Supply} (h : s.Granted 0) :
    s.take = (some s.fresh, ⟨s.fresh + 1, s.allocs.drop 1⟩) := by
  rw [Supply.Granted, List.getD_eq_getElem?_getD, ← List.head?_eq_getElem?,
    ← List.headD_eq_head?_getD] at h
  rw [Supply.take, if_pos h, List.drop_one]

theorem Supply.take_refused {s : Supply} (h : ¬ s.Granted 0) :
    s.take = (none, ⟨s.fresh, s.allocs.drop 1⟩) := by
  rw [Supply.Granted, List.getD_eq_getElem?_getD, ← List.head?_eq_getElem?,
    ← List.headD_eq_head?_getD] at h
  rw [Supply.take, if_neg h, List.drop_one]

theorem Supply.granted_drop {s s' : Supply} {j : ℕ} (h : s'.allocs = s.allocs.drop j) (i : ℕ) :
    s'.Granted i ↔ s.Granted (j + i) := by
  rw [Supply.Granted, Supply.Granted, h, List.getD_eq_getElem?_getD, List.getD_eq_getElem?_getD,
    List.getElem?_drop]

namespace Tree

/-- The insertion of `k` would cut the node in two. -/
def overflows (order : ℕ) (k : κ) : {n : ℕ} → Tree κ ν n → Bool
  | 0, l => k ∉ SortedAssoc.keys (Leaf.entries l) ∧ order ≤ (Leaf.entries l).length + 1
  | _ + 1, b => (match (Branch.children b)[route (Branch.keys b) k]? with
      | none => false
      | some c => overflows order k c) && order ≤ (Branch.keys b).length + 1

/-- How many nodes the insertion of `k` asks for. -/
def needed (order : ℕ) (k : κ) : {n : ℕ} → Tree κ ν n → ℕ
  | 0, l => if overflows (n := 0) order k l then 1 else 0
  | n + 1, b => (match (Branch.children b)[route (Branch.keys b) k]? with
      | none => 0
      | some c => needed order k c) + if overflows (n := n + 1) order k b then 1 else 0

theorem Routed.overflows_eq {order n : ℕ} {b : Branch κ (Tree κ ν n)} {k : κ}
    {A C : List (Tree κ ν n)} {c : Tree κ ν n} (h : Routed b k A c C) :
    overflows (n := n + 1) order k b = (c.overflows order k && order ≤ b.keys.length + 1) := by
  have hb : overflows (n := n + 1) order k b = ((match b.children[route b.keys k]? with
      | none => false
      | some c => overflows order k c) && order ≤ b.keys.length + 1) := rfl
  rw [hb, h.getElem?]

theorem Routed.needed_eq {order n : ℕ} {b : Branch κ (Tree κ ν n)} {k : κ}
    {A C : List (Tree κ ν n)} {c : Tree κ ν n} (h : Routed b k A c C) :
    needed (n := n + 1) order k b =
      c.needed order k + if overflows (n := n + 1) order k b then 1 else 0 := by
  have hb : needed (n := n + 1) order k b = (match b.children[route b.keys k]? with
      | none => 0
      | some c => needed order k c) + if overflows (n := n + 1) order k b then 1 else 0 := rfl
  rw [hb, h.getElem?]

/-- What an outcome says about the requests that were made. -/
def Paid (order : ℕ) (k : κ) {n : ℕ} (t : Tree κ ν n) (s : Supply) :
    Outcome κ (Tree κ ν n) × Supply → Prop
  | (.duplicate, s') => t.overflows order k = false ∧ t.needed order k = 0 ∧ s' = s
  | (.refused, _) => ¬ s.Granted 0 ∧ 0 < t.needed order k
  | (.fits _, s') => t.overflows order k = false ∧ (∀ i < t.needed order k, s.Granted i) ∧
      s'.allocs = s.allocs.drop (t.needed order k)
  | (.truncated _, _) => s.Granted 0 ∧ ∃ i < t.needed order k, ¬ s.Granted i
  | (.splits _ _ _, s') => t.overflows order k = true ∧ 0 < t.needed order k ∧
      (∀ i < t.needed order k, s.Granted i) ∧ s'.allocs = s.allocs.drop (t.needed order k)

theorem leaf_insert_paid {order : ℕ} (x : κ × ν) (l : Leaf κ ν) (s : Supply) :
    Paid order x.1 (n := 0) l s (l.insert order x s) := by
  unfold Leaf.insert
  split_ifs with hdup hroom
  · have hov : overflows (n := 0) order x.1 l = false := by simp [overflows, hdup]
    exact ⟨hov, by simp [needed, hov], rfl⟩
  · have hov : overflows (n := 0) order x.1 l = false := by
      simp only [overflows, decide_eq_false_iff_not]
      omega
    exact ⟨hov, by simp [needed, hov], by simp [needed, hov]⟩
  · have hov : overflows (n := 0) order x.1 l = true := by
      simp only [overflows, decide_eq_true_eq]
      exact ⟨hdup, not_lt.mp hroom⟩
    have hn : needed (n := 0) order x.1 l = 1 := by simp [needed, hov]
    by_cases hg : s.Granted 0
    · rw [Supply.take_granted hg]
      refine ⟨hov, by omega, fun i hi => ?_, by rw [hn]⟩
      rwa [show i = 0 by omega]
    · rw [Supply.take_refused hg]
      exact ⟨hg, by omega⟩

/-- **Requests**: the outcome of an insertion below a node is settled by the grants for the nodes
it needs. -/
theorem insert_paid (order : ℕ) (x : κ × ν) : {n : ℕ} → (t : Tree κ ν n) → (s : Supply) →
    t.Separated → Sorted t.toList → Paid order x.1 t s (t.insert order x s)
  | 0, l, s, _, _ => leaf_insert_paid x l s
  | n + 1, b, s, hsep, hsort => by
    obtain ⟨A, c, C, h⟩ := exists_routed hsep hsort x.1
    have ih := insert_paid order x c s (hsep.2.2 c h.mem) (h.sorted hsort)
    simp only [insert, h.getElem?]
    rcases hins : c.insert order x s with ⟨_ | _ | t' | t' | ⟨l, k, r⟩, s'⟩ <;>
      rw [hins] at ih <;> simp only
    · -- duplicate: nothing was asked for
      obtain ⟨hov, hn, rfl⟩ := ih
      have hov' : overflows (n := n + 1) order x.1 b = false := by simp [h.overflows_eq, hov]
      exact ⟨hov', by simp [h.needed_eq, hn, hov'], rfl⟩
    · -- refused
      obtain ⟨h0, hpos⟩ := ih
      refine ⟨h0, ?_⟩
      rw [h.needed_eq]
      exact Nat.add_pos_left hpos _
    · -- fits: this node needs what the child needs
      obtain ⟨hov, hg, hd⟩ := ih
      have hov' : overflows (n := n + 1) order x.1 b = false := by simp [h.overflows_eq, hov]
      have hn' : needed (n := n + 1) order x.1 b = c.needed order x.1 := by
        simp [h.needed_eq, hov']
      exact ⟨hov', by rwa [hn'], by rwa [hn']⟩
    · -- truncated: the refusal is one of the requests below
      obtain ⟨h0, i, hi, hg⟩ := ih
      exact ⟨h0, i, by rw [h.needed_eq]; omega, hg⟩
    · obtain ⟨hov, hpos, hg, hd⟩ := ih
      unfold Branch.absorb
      dsimp only
      split_ifs with hroom
      · -- there is room for the second half of the child
        have hov' : overflows (n := n + 1) order x.1 b = false := by
          rw [h.overflows_eq, decide_eq_false (not_le.mpr hroom), Bool.and_false]
        have hn' : needed (n := n + 1) order x.1 b = c.needed order x.1 := by
          simp [h.needed_eq, hov']
        exact ⟨hov', by rwa [hn'], by rwa [hn']⟩
      · -- this node is cut too: it needs one more node than its child
        have hov' : overflows (n := n + 1) order x.1 b = true := by
          rw [h.overflows_eq, decide_eq_true (not_lt.mp hroom), hov, Bool.and_true]
        have hn' : needed (n := n + 1) order x.1 b = c.needed order x.1 + 1 := by
          simp [h.needed_eq, hov']
        have hlast := Supply.granted_drop hd 0
        rw [Nat.add_zero] at hlast
        by_cases hg' : s'.Granted 0
        · rw [Supply.take_granted hg']
          refine ⟨hov', by omega, fun i hi => ?_, ?_⟩
          · rcases Nat.lt_or_ge i (c.needed order x.1) with hlt | hge
            · exact hg i hlt
            · rw [show i = c.needed order x.1 by omega]
              exact hlast.mp hg'
          · rw [hn', hd, List.drop_drop]
        · rw [Supply.take_refused hg']
          exact ⟨hg 0 hpos, _, by omega, fun hg'' => hg' (hlast.mpr hg'')⟩

/-! ### Labels -/

/-- How often a label occurs in what an insertion leaves behind. -/
def countLabel (q : ℕ) {n : ℕ} : Outcome κ (Tree κ ν n) → ℕ
  | .duplicate => 0
  | .refused => 0
  | .fits t => t.labels.count q
  | .truncated t => t.labels.count q
  | .splits l _ r => l.labels.count q + r.labels.count q

/-- The labels handed out between two states of the supply. -/
def issued (s s' : Supply) (q : ℕ) : ℕ := if s.fresh ≤ q ∧ q < s'.fresh then 1 else 0

theorem leaf_insert_count {order : ℕ} (x : κ × ν) (l : Leaf κ ν) (s : Supply) (q : ℕ) :
    s.fresh ≤ (l.insert order x s).2.fresh ∧
      countLabel (n := 0) q (l.insert order x s).1 ≤
        (labels (n := 0) l).count q + issued s (l.insert order x s).2 q := by
  unfold Leaf.insert
  split_ifs with hdup hroom
  · exact ⟨le_rfl, Nat.zero_le _⟩
  · exact ⟨le_rfl, Nat.le_add_right _ _⟩
  · by_cases hg : s.Granted 0
    · rw [Supply.take_granted hg]
      refine ⟨Nat.le_succ _, ?_⟩
      simp only [countLabel, labels_leaf, issued, List.count_singleton, beq_iff_eq]
      split_ifs <;> omega
    · rw [Supply.take_refused hg]
      exact ⟨le_rfl, Nat.zero_le _⟩

/-- The labels of a branch outside the children at one place. -/
def outside (q p : ℕ) {n : ℕ} (A C : List (Tree κ ν n)) : ℕ :=
  (A.flatMap labels).count q + (C.flatMap labels).count q + if p = q then 1 else 0

omit [LinearOrder κ] in
theorem count_labels_branch {n : ℕ} {b : Branch κ (Tree κ ν n)} {A M C : List (Tree κ ν n)}
    (h : b.children = A ++ (M ++ C)) (q : ℕ) :
    (labels (n := n + 1) b).count q = outside q b.label A C + (M.flatMap labels).count q := by
  rw [labels_branch, h, List.count_cons, List.flatMap_append, List.flatMap_append,
    List.count_append, List.count_append, outside]
  simp only [beq_iff_eq]
  omega

omit [LinearOrder κ] in
theorem count_labels_cut (order : ℕ) {n : ℕ} (w : Branch κ (Tree κ ν n)) (p q : ℕ) :
    (labels (n := n + 1) (w.left order)).count q + (labels (n := n + 1) (w.right order p)).count q =
      (labels (n := n + 1) w).count q + if p = q then 1 else 0 := by
  have h : (w.children.flatMap labels).count q =
      ((w.children.take (order / 2 + 1)).flatMap labels).count q +
        ((w.children.drop (order / 2 + 1)).flatMap labels).count q := by
    rw [← List.count_append, ← List.flatMap_append, List.take_append_drop]
  rw [labels_branch, labels_branch, labels_branch, List.count_cons, List.count_cons,
    List.count_cons, h]
  simp only [beq_iff_eq, Branch.left, Branch.right]
  omega

/-- **Labels**: an insertion uses each old label at most as often as before, and each label it took
from the supply once. -/
theorem insert_count (order : ℕ) (x : κ × ν) (q : ℕ) : {n : ℕ} → (t : Tree κ ν n) → (s : Supply) →
    t.Separated → Sorted t.toList → s.fresh ≤ (t.insert order x s).2.fresh ∧
      countLabel q (t.insert order x s).1 ≤ t.labels.count q + issued s (t.insert order x s).2 q
  | 0, l, s, _, _ => leaf_insert_count x l s q
  | n + 1, b, s, hsep, hsort => by
    obtain ⟨A, c, C, h⟩ := exists_routed hsep hsort x.1
    have ih := insert_count order x q c s (hsep.2.2 c h.mem) (h.sorted hsort)
    have hb := count_labels_branch (M := [c]) h.children_eq q
    have hrep := fun l => count_labels_branch (M := [l]) (h.replace_children l) q
    simp only [insert, h.getElem?]
    rcases hins : c.insert order x s with ⟨_ | _ | t' | t' | ⟨l, k, r⟩, s'⟩ <;>
      rw [hins] at ih <;> simp only [countLabel] at ih ⊢
    · exact ⟨ih.1, Nat.zero_le _⟩
    · exact ⟨ih.1, Nat.zero_le _⟩
    · -- the child is put back under its label
      refine ⟨ih.1, ?_⟩
      have := hrep t'
      simp only [List.flatMap_singleton, Branch.replace] at hb this ⊢
      omega
    · refine ⟨ih.1, ?_⟩
      have := hrep t'
      simp only [List.flatMap_singleton, Branch.replace] at hb this ⊢
      omega
    · -- the child was cut: its halves are here instead of it
      have hw := count_labels_branch (M := [l, r]) (h.widen_children l k r) q
      have hl := hrep l
      simp only [List.flatMap_cons, List.flatMap_nil, List.append_nil, List.count_append]
        at hb hw hl
      unfold Branch.absorb
      dsimp only
      split_ifs with hroom
      · refine ⟨ih.1, ?_⟩
        simp only [Branch.widen] at hw ⊢
        omega
      · by_cases hg : s'.Granted 0
        · rw [Supply.take_granted hg]
          have hcut := count_labels_cut order (b.widen (route b.keys x.1) l k r) s'.fresh q
          refine ⟨Nat.le_succ_of_le ih.1, ?_⟩
          simp only [issued, Branch.widen] at hw hcut ih ⊢
          split_ifs at hcut ih ⊢ <;> omega
        · rw [Supply.take_refused hg]
          refine ⟨ih.1, ?_⟩
          simp only [issued, Branch.replace] at hl ih ⊢
          omega

omit [LinearOrder κ] in
/-- Labels that occur at most once more than issued, next to old ones, stay distinct. -/
theorem nodup_of_count_le {old new : List ℕ} {s s' : Supply} (hnd : old.Nodup)
    (hlt : ∀ q ∈ old, q < s.fresh)
    (hcount : ∀ q, new.count q ≤ old.count q + issued s s' q) :
    new.Nodup ∧ ∀ q ∈ new, q ∈ old ∨ s.fresh ≤ q ∧ q < s'.fresh := by
  have hold : ∀ q, s.fresh ≤ q → old.count q = 0 := fun q hq =>
    List.count_eq_zero.mpr fun hmem => absurd (hlt q hmem) (not_lt.mpr hq)
  rw [List.nodup_iff_count_le_one] at hnd ⊢
  refine ⟨fun q => ?_, fun q hq => ?_⟩
  · have hc := hcount q
    have h1 := hnd q
    have h2 := hold q
    simp only [issued] at hc
    split_ifs at hc <;> omega
  · have hc := hcount q
    have hpos := List.count_pos_iff.mpr hq
    by_cases hmem : q ∈ old
    · exact .inl hmem
    · have h0 := List.count_eq_zero.mpr hmem
      simp only [issued] at hc
      split_ifs at hc with hi
      · exact .inr hi
      · omega

/-- The labels of a branch whose routed child was cut in two. -/
theorem Routed.labels_widen {n : ℕ} {b : Branch κ (Tree κ ν n)} {x : κ × ν}
    {A C : List (Tree κ ν n)} {c l r : Tree κ ν n} {k : κ} (h : Routed b x.1 A c C)
    {s s' : Supply} (hnd : (labels (n := n + 1) b).Nodup)
    (hlt : ∀ q ∈ labels (n := n + 1) b, q < s.fresh)
    (hcount : ∀ q, l.labels.count q + r.labels.count q ≤ c.labels.count q + issued s s' q) :
    (labels (n := n + 1) (b.widen (route b.keys x.1) l k r)).Nodup ∧
      ∀ q ∈ labels (n := n + 1) (b.widen (route b.keys x.1) l k r),
        q ∈ labels (n := n + 1) b ∨ s.fresh ≤ q ∧ q < s'.fresh := by
  refine nodup_of_count_le hnd hlt fun q => ?_
  have hb := count_labels_branch (M := [c]) h.children_eq q
  have hw := count_labels_branch (M := [l, r]) (h.widen_children l k r) q
  have hc := hcount q
  simp only [List.flatMap_cons, List.flatMap_nil, List.append_nil, List.count_append,
    Branch.widen] at hb hw ⊢
  omega

end Tree

/-! ### The whole tree -/

/-- A tree of some height. -/
abbrev AnyTree (κ ν : Type u) := Σ n, Tree κ ν n

/-- Insertion at the root: the answer, the tree afterwards, and what is left of the supply. -/
def insertRoot (order : ℕ) (x : κ × ν) (t : AnyTree κ ν) (s : Supply) :
    Bool × AnyTree κ ν × Supply :=
  match t.2.insert order x s with
  | (.duplicate, s) => (false, t, s)
  | (.refused, s) => (false, t, s)
  | (.fits t', s) => (true, ⟨_, t'⟩, s)
  | (.truncated t', s) => (false, ⟨_, t'⟩, s)
  | (.splits l k r, s) =>
    match s.take with
    | (none, s) => (false, ⟨_, l⟩, s)
    | (some p, s) => (true, ⟨t.1 + 1, (⟨p, [k], [l, r]⟩ : Branch κ (Tree κ ν t.1))⟩, s)

/-- How many nodes an insertion at the root asks for. -/
def neededRoot (order : ℕ) (k : κ) (t : AnyTree κ ν) : ℕ :=
  t.2.needed order k + if t.2.overflows order k then 1 else 0

/-- A well-formed B+ tree. -/
structure Wf (order : ℕ) (t : AnyTree κ ν) : Prop where
  separated : t.2.Separated
  sorted : Sorted t.2.toList
  filled : t.2.Filled order (1, 1)

/-- What an insertion at the root can lead to. -/
inductive RootResult (order : ℕ) (x : κ × ν) (t : AnyTree κ ν) (s : Supply) :
    Bool × AnyTree κ ν × Supply → Prop
  /-- The entry was added. -/
  | added {t' : AnyTree κ ν} {s' : Supply} (fresh : x.1 ∉ SortedAssoc.keys t.2.toList)
      (granted : ∀ i < neededRoot order x.1 t, s.Granted i)
      (allocs : s'.allocs = s.allocs.drop (neededRoot order x.1 t))
      (toList_eq : t'.2.toList = insertEntry x t.2.toList) :
      RootResult order x t s (true, t', s')
  /-- The key was there. -/
  | duplicate (mem : x.1 ∈ SortedAssoc.keys t.2.toList) (needed_eq : neededRoot order x.1 t = 0) :
      RootResult order x t s (false, t, s)
  /-- The first node was refused. -/
  | refused {s' : Supply} (fresh : x.1 ∉ SortedAssoc.keys t.2.toList) (refused : ¬ s.Granted 0)
      (needed_pos : 0 < neededRoot order x.1 t) : RootResult order x t s (false, t, s')
  /-- A later node was refused, and at least one old entry is lost; the new one is not right of what
  was lost. -/
  | truncated {t' : AnyTree κ ν} {s' : Supply} {a lost b : List (κ × ν)}
      (fresh : x.1 ∉ SortedAssoc.keys t.2.toList) (granted : s.Granted 0)
      (refused : ∃ i < neededRoot order x.1 t, ¬ s.Granted i)
      (insert_eq : insertEntry x t.2.toList = a ++ lost ++ b) (toList_eq : t'.2.toList = a ++ b)
      (two_le : 2 ≤ lost.length) (lt : ∀ y ∈ b, x.1 < y.1) :
      RootResult order x t s (false, t', s')

section Root

variable {order : ℕ} {t : AnyTree κ ν}

/-- **Insertion at the root**: the four results, and the grants that lead to them. -/
theorem insertRoot_spec (ho : 3 ≤ order) (h : Wf order t) (x : κ × ν) (s : Supply) :
    RootResult order x t s (insertRoot order x t s) := by
  obtain ⟨n, t⟩ := t
  have hgood := Tree.insert_spec ho x t s h.separated h.sorted h.filled
  have hpaid := Tree.insert_paid order x t s h.separated h.sorted
  unfold insertRoot
  rcases hins : t.insert order x s with ⟨_ | _ | t' | t' | ⟨l, k, r⟩, s'⟩ <;>
    rw [hins] at hgood hpaid <;> simp only
  · obtain ⟨hov, hn, rfl⟩ := hpaid
    exact .duplicate hgood (by simp [neededRoot, hov, hn])
  · exact .refused hgood hpaid.1 (Nat.add_pos_left hpaid.2 _)
  · obtain ⟨hov, hg, hd⟩ := hpaid
    have hN : neededRoot order x.1 ⟨n, t⟩ = t.needed order x.1 := by simp [neededRoot, hov]
    exact .added hgood.1 (by rwa [hN]) (by rwa [hN]) hgood.2.1
  · obtain ⟨h0, i, hi, hg⟩ := hpaid
    obtain ⟨hx, ⟨a, lost, b, heq, hlist, -, hlost, hright⟩, -⟩ := hgood
    exact .truncated hx h0 ⟨i, Nat.lt_add_right _ hi, hg⟩ heq hlist hlost hright
  · obtain ⟨hov, hpos, hg, hd⟩ := hpaid
    obtain ⟨hx, hlist, -, hlost, -⟩ := hgood
    have hN : neededRoot order x.1 ⟨n, t⟩ = t.needed order x.1 + 1 := by simp [neededRoot, hov]
    -- the root was cut, and a new root is the last node asked for
    have hlast := Supply.granted_drop hd 0
    rw [Nat.add_zero] at hlast
    by_cases hg' : s'.Granted 0
    · rw [Supply.take_granted hg']
      refine .added hx (fun i hi => ?_) ?_ ?_
      · rcases Nat.lt_or_ge i (t.needed order x.1) with hlt | hge
        · exact hg i hlt
        · rw [show i = t.needed order x.1 by omega]
          exact hlast.mp hg'
      · rw [hN, hd, List.drop_drop]
      · rw [← hlist]
        simp [Tree.toList]
    · rw [Supply.take_refused hg']
      have heq : insertEntry x t.toList = l.toList ++ r.toList ++ [] := by
        rw [List.append_nil, hlist]
      exact .truncated hx (hg 0 hpos) ⟨_, by omega, fun hg'' => hg' (hlast.mpr hg'')⟩ heq (by simp)
        hlost (by simp)

/-- Inserting keeps the tree well formed, whether or not memory ran out. -/
theorem Wf.insertRoot (ho : 3 ≤ order) (h : Wf order t) (x : κ × ν) (s : Supply) :
    Wf order (insertRoot order x t s).2.1 := by
  have hsorted : Sorted (BPlus.insertRoot order x t s).2.1.2.toList := by
    have hspec := insertRoot_spec ho h x s
    generalize BPlus.insertRoot order x t s = res at hspec
    cases hspec with
    | added hx hg ha heq =>
      rw [heq]
      exact h.sorted.insertEntry hx
    | duplicate => exact h.sorted
    | refused => exact h.sorted
    | truncated hx hg hr heq hlist hlost hright =>
      -- a truncated insertion leaves a piece out of a sorted list
      have := h.sorted.insertEntry hx
      rw [heq] at this
      rw [hlist]
      refine this.sublist ?_
      rw [List.append_assoc]
      exact List.Sublist.append_left (List.sublist_append_right _ _) _
  obtain ⟨n, t⟩ := t
  have hgood := Tree.insert_spec ho x t s h.separated h.sorted h.filled
  -- a root is filled enough if half a node is
  have hhalf : 1 ≤ (Tree.half order).1 ∧ 1 ≤ (Tree.half order).2 := by
    simp only [Tree.half]
    omega
  refine ⟨?_, hsorted, ?_⟩ <;> clear hsorted <;> unfold BPlus.insertRoot <;>
    rcases hins : t.insert order x s with ⟨_ | _ | t' | t' | ⟨l, k, r⟩, s'⟩ <;>
    rw [hins] at hgood <;> simp only
  · exact h.separated
  · exact h.separated
  · exact hgood.2.2.1
  · exact hgood.2.2.1
  · obtain ⟨-, -, -, -, hk, hl, hr, -⟩ := hgood
    by_cases hg : s'.Granted 0
    · rw [Supply.take_granted hg]
      exact ⟨by simp [hk], by simp, by simp [hl, hr]⟩
    · rw [Supply.take_refused hg]
      exact hl
  · exact h.filled
  · exact h.filled
  · exact hgood.2.2.2.1
  · exact hgood.2.2.2.1
  · obtain ⟨-, -, -, -, -, -, -, hl, hr, -⟩ := hgood
    by_cases hg : s'.Granted 0
    · rw [Supply.take_granted hg]
      exact ⟨by simp, by simp only [List.length_singleton]; omega, by simp [hl, hr]⟩
    · rw [Supply.take_refused hg]
      exact hl.mono hhalf.1 hhalf.2

/-- The labels of the whole tree after an insertion. -/
theorem insertRoot_count (h : Wf order t) (x : κ × ν) (s : Supply) (q : ℕ) :
    s.fresh ≤ (insertRoot order x t s).2.2.fresh ∧
      (insertRoot order x t s).2.1.2.labels.count q ≤
        t.2.labels.count q + Tree.issued s (insertRoot order x t s).2.2 q := by
  obtain ⟨n, t⟩ := t
  have hcount := Tree.insert_count order x q t s h.separated h.sorted
  unfold insertRoot
  rcases hins : t.insert order x s with ⟨_ | _ | t' | t' | ⟨l, k, r⟩, s'⟩ <;>
    rw [hins] at hcount <;> simp only [Tree.countLabel] at hcount ⊢
  · exact ⟨hcount.1, Nat.le_add_right _ _⟩
  · exact ⟨hcount.1, Nat.le_add_right _ _⟩
  · exact hcount
  · exact hcount
  · by_cases hg : s'.Granted 0
    · rw [Supply.take_granted hg]
      have hroot := Tree.count_labels_branch (κ := κ) (A := []) (M := [l, r]) (C := [])
        (b := ⟨s'.fresh, [k], [l, r]⟩) rfl q
      refine ⟨Nat.le_succ_of_le hcount.1, ?_⟩
      simp only [Tree.outside, Tree.issued, List.flatMap_cons, List.flatMap_nil, List.append_nil,
        List.count_append, List.count_nil] at hroot hcount ⊢
      split_ifs at hroot hcount ⊢ <;> omega
    · rw [Supply.take_refused hg]
      refine ⟨hcount.1, ?_⟩
      simp only [Tree.issued] at hcount ⊢
      omega

/-- Labels stay distinct and below the supply's next one. -/
theorem insertRoot_labels (h : Wf order t) (x : κ × ν) (s : Supply) (hnd : t.2.labels.Nodup)
    (hlt : ∀ q ∈ t.2.labels, q < s.fresh) :
    (insertRoot order x t s).2.1.2.labels.Nodup ∧
      ∀ q ∈ (insertRoot order x t s).2.1.2.labels, q < (insertRoot order x t s).2.2.fresh := by
  obtain ⟨hnd', hmem⟩ :=
    Tree.nodup_of_count_le hnd hlt fun q => (insertRoot_count h x s q).2
  refine ⟨hnd', fun q hq => ?_⟩
  rcases hmem q hq with hq' | hq'
  · exact lt_of_lt_of_le (hlt q hq') (insertRoot_count h x s q).1
  · exact hq'.2

end Root

end BPlus
