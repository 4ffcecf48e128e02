import Mathlib.Data.List.Pairwise
import MiniDbms.BPTree.Equiv.Node

/-!
# The nodes of the index as a B+ tree

`Repr t tree parent` says that the nodes of `t` below the node with the label of `tree` are laid out
as `tree`: the labels are the node references, and every node points back to its parent.

`Rewired h h' p cs` says what a call did to the nodes other than `p`: those in `cs` have `p` as
their parent now, the others are as they were.  The steps that write an inner node are described by
it, and `Repr.rewire` carries the layout of a child across such a step.
-/

namespace MiniDbms

open SortedAssoc CArray BPlus

variable {ρ : Type}

/-! ### Reading and writing nodes -/

namespace BPHeap

/-- The heap with another node at `p`. -/
def put (h : BPHeap ρ) (p : NodeRef) (node : BPTreeNode ρ) : BPHeap ρ :=
  { h with nodes := h.nodes.set p node }

/-- The place of the next node, and the outcomes of the coming `calloc` calls. -/
def supply (h : BPHeap ρ) : Supply := ⟨h.nodes.length, h.allocs⟩

@[simp] theorem put_root (h : BPHeap ρ) (p : NodeRef) (node : BPTreeNode ρ) :
    (h.put p node).root = h.root := rfl

@[simp] theorem put_length (h : BPHeap ρ) (p : NodeRef) (node : BPTreeNode ρ) :
    (h.put p node).nodes.length = h.nodes.length := List.length_set

@[simp] theorem put_supply (h : BPHeap ρ) (p : NodeRef) (node : BPTreeNode ρ) :
    (h.put p node).supply = h.supply := by
  rw [supply, put_length]
  rfl

theorem lt_of_load {t : BPTree ρ} {p : NodeRef} {node : BPTreeNode ρ} (h : t.load p = some node) :
    p < t.nodes.length :=
  (List.getElem?_eq_some_iff.mp h).1

/-- The next node is none of those there are. -/
theorem ne_of_load {t : BPTree ρ} {p q : NodeRef} {node : BPTreeNode ρ} (h : t.load p = some node)
    (hq : q = t.nodes.length) : p ≠ q := by
  rw [hq]
  exact (lt_of_load h).ne

theorem load_put {h : BPHeap ρ} {p : NodeRef} {old : BPTreeNode ρ} (hp : h.load p = some old)
    (node : BPTreeNode ρ) (q : NodeRef) :
    (h.put p node).load q = if q = p then some node else h.load q := by
  by_cases hq : q = p
  · subst hq
    rw [if_pos rfl, BPTree.load, put]
    exact List.getElem?_set_self (lt_of_load hp)
  · rw [if_neg hq, BPTree.load, put]
    exact List.getElem?_set_ne (Ne.symm hq)

theorem modify_eq {h : BPHeap ρ} {p : NodeRef} {f : BPTreeNode ρ → Option (BPTreeNode ρ)}
    {node node' : BPTreeNode ρ} (hp : h.load p = some node) (hf : f node = some node') :
    h.modify p f = some (h.put p node') := by
  simp only [modify, hp, hf, Option.bind_eq_bind, Option.bind_some, store]
  exact if_pos (lt_of_load hp)

end BPHeap

/-- A granted node is put behind the others. -/
theorem bptreeCreateNode_granted {h : BPHeap ρ} {p : NodeRef} {s : Supply}
    (hs : h.supply.take = (some p, s)) (isLeaf : Bool) :
    ∃ h', bptreeCreateNode h isLeaf = (some p, h') ∧ p = h.nodes.length ∧ h'.root = h.root ∧
      h'.supply = s ∧ h'.load p = some (.zeroed isLeaf) ∧ ∀ q ≠ p, h'.load q = h.load q := by
  have hg : h.allocs.headD true = true := by
    by_contra hg
    rw [Supply.take, if_neg (by exact hg)] at hs
    cases hs
  rw [Supply.take, if_pos (by exact hg)] at hs
  cases hs
  rw [bptreeCreateNode, if_pos hg]
  refine ⟨_, rfl, rfl, rfl, ?_, ?_, fun q hq => ?_⟩
  · simp [BPHeap.supply]
  · exact List.getElem?_concat_length
  · rcases Nat.lt_or_ge q h.nodes.length with hlt | hge
    · exact List.getElem?_append_left hlt
    · have hq' : h.nodes.length < q := lt_of_le_of_ne hge (Ne.symm hq)
      rw [BPTree.load, BPTree.load, List.getElem?_eq_none hge, List.getElem?_eq_none]
      rw [List.length_append, List.length_singleton]
      exact hq'

theorem bptreeCreateNode_refused {h : BPHeap ρ} {s : Supply} (hs : h.supply.take = (none, s))
    (isLeaf : Bool) :
    ∃ h', bptreeCreateNode h isLeaf = (none, h') ∧ h'.toBPTree = h.toBPTree ∧ h'.supply = s := by
  have hg : ¬ h.allocs.headD true = true := by
    intro hg
    rw [Supply.take, if_pos (by exact hg)] at hs
    cases hs
  rw [Supply.take, if_neg (by exact hg)] at hs
  cases hs
  rw [bptreeCreateNode, if_neg hg]
  exact ⟨_, rfl, rfl, rfl⟩

/-! ### The layout -/

/-- The nodes below a node are laid out as `tree`, and it points to `parent`. -/
def Repr (t : BPTree ρ) : {n : ℕ} → Tree ℤ (Option ρ) n → Option NodeRef → Prop
  | 0, l, parent => ∃ node, t.load (Leaf.label l) = some node ∧
      node.IsLeafOf (Leaf.entries l) parent
  | _ + 1, b, parent => (∃ node, t.load (Branch.label b) = some node ∧
      node.IsBranchOf (Branch.keys b) ((Branch.children b).map Tree.label) parent) ∧
      ∀ c ∈ Branch.children b, Repr t c (some (Branch.label b))

theorem repr_leaf {t : BPTree ρ} {l : Leaf ℤ (Option ρ)} {parent : Option NodeRef} :
    Repr t (n := 0) l parent ↔
      ∃ node, t.load l.label = some node ∧ node.IsLeafOf l.entries parent := Iff.rfl

theorem repr_branch {t : BPTree ρ} {n : ℕ} {b : Branch ℤ (Tree ℤ (Option ρ) n)}
    {parent : Option NodeRef} :
    Repr t (n := n + 1) b parent ↔
      (∃ node, t.load b.label = some node ∧
        node.IsBranchOf b.keys (b.children.map Tree.label) parent) ∧
      ∀ c ∈ b.children, Repr t c (some b.label) := Iff.rfl

theorem Repr.load_label {t : BPTree ρ} : {n : ℕ} → {tree : Tree ℤ (Option ρ) n} →
    {parent : Option NodeRef} → Repr t tree parent →
    ∃ node, t.load tree.label = some node ∧ node.parent = parent
  | 0, _, _, ⟨node, hl, hnode⟩ => ⟨node, hl, hnode.parent⟩
  | _ + 1, _, _, ⟨⟨node, hl, hnode⟩, _⟩ => ⟨node, hl, hnode.parent⟩

/-- Every label is the place of a node. -/
theorem Repr.lt_length {t : BPTree ρ} : {n : ℕ} → {tree : Tree ℤ (Option ρ) n} →
    {parent : Option NodeRef} → Repr t tree parent → ∀ q ∈ tree.labels, q < t.nodes.length
  | 0, l, _, ⟨node, hl, _⟩ => by
    intro q hq
    obtain rfl : q = l.label := List.mem_singleton.mp hq
    exact BPHeap.lt_of_load hl
  | n + 1, b, _, ⟨⟨node, hl, _⟩, hcs⟩ => by
    intro q hq
    rcases List.mem_cons.mp hq with rfl | hq
    · exact BPHeap.lt_of_load hl
    · obtain ⟨c, hc, hq⟩ := List.mem_flatMap.mp hq
      exact (hcs c hc).lt_length q hq

/-- The layout depends on the nodes it names only. -/
theorem Repr.congr {t t' : BPTree ρ} : {n : ℕ} → {tree : Tree ℤ (Option ρ) n} →
    {parent : Option NodeRef} → Repr t tree parent →
    (∀ q ∈ tree.labels, t'.load q = t.load q) → Repr t' tree parent
  | 0, l, _, ⟨node, hl, hnode⟩, heq =>
    ⟨node, (heq _ (Tree.label_mem_labels (n := 0) l)).trans hl, hnode⟩
  | n + 1, b, _, ⟨⟨node, hl, hnode⟩, hcs⟩, heq =>
    ⟨⟨node, (heq _ (Tree.label_mem_labels (n := n + 1) b)).trans hl, hnode⟩, fun c hc =>
      (hcs c hc).congr fun q hq =>
        heq q (List.mem_cons_of_mem _ (List.mem_flatMap.mpr ⟨c, hc, hq⟩))⟩

/-- Exchanging the parent pointer of the topmost node. -/
theorem Repr.setParent {t t' : BPTree ρ} {parent parent' : Option NodeRef} : {n : ℕ} →
    {tree : Tree ℤ (Option ρ) n} → Repr t tree parent → tree.labels.Nodup →
    t'.load tree.label = (t.load tree.label).map (fun node => { node with parent := parent' }) →
    (∀ q ∈ tree.labels, q ≠ tree.label → t'.load q = t.load q) → Repr t' tree parent'
  | 0, l, ⟨node, hl, hnode⟩, _, htop, _ => by
    have hl' : t.load (Tree.label (n := 0) l) = some node := hl
    rw [hl', Option.map_some] at htop
    exact ⟨_, htop, ⟨hnode.isLeaf, hnode.numKeys, hnode.keys, hnode.values, rfl⟩⟩
  | n + 1, b, ⟨⟨node, hl, hnode⟩, hcs⟩, hnd, htop, hrest => by
    have hl' : t.load (Tree.label (n := n + 1) b) = some node := hl
    rw [hl', Option.map_some] at htop
    refine ⟨⟨_, htop, ⟨hnode.isLeaf, hnode.numKeys, hnode.keys, hnode.children, rfl⟩⟩,
      fun c hc => (hcs c hc).congr fun q hq => ?_⟩
    have hmem : q ∈ (Branch.children b).flatMap Tree.labels := List.mem_flatMap.mpr ⟨c, hc, hq⟩
    refine hrest q (List.mem_cons_of_mem _ hmem) ?_
    rintro rfl
    exact (List.nodup_cons.mp hnd).1 hmem

/-! ### Rewiring -/

/-- The nodes in `cs` were given the parent `p`; of the others only `p` itself may have changed. -/
structure Rewired (h h' : BPHeap ρ) (p : NodeRef) (cs : List NodeRef) : Prop where
  root : h'.root = h.root
  supply : h'.supply = h.supply
  load : ∀ q ≠ p, h'.load q =
    (h.load q).map fun node => if q ∈ cs then { node with parent := some p } else node

theorem Rewired.load_of_notMem {h h' : BPHeap ρ} {p : NodeRef} {cs : List NodeRef}
    (hw : Rewired h h' p cs) {q : NodeRef} (hp : q ≠ p) (hq : q ∉ cs) : h'.load q = h.load q := by
  rw [hw.load q hp]
  simp [hq]

theorem Rewired.load_of_mem {h h' : BPHeap ρ} {p : NodeRef} {cs : List NodeRef}
    (hw : Rewired h h' p cs) {q : NodeRef} (hp : q ≠ p) (hq : q ∈ cs) :
    h'.load q = (h.load q).map fun node => { node with parent := some p } := by
  rw [hw.load q hp]
  simp [hq]

/-- A subtree away from the rewired nodes. -/
theorem Rewired.repr_of_notMem {h h' : BPHeap ρ} {p : NodeRef} {cs : List NodeRef}
    (hw : Rewired h h' p cs) {n : ℕ} {tree : Tree ℤ (Option ρ) n} {parent : Option NodeRef}
    (hr : Repr h.toBPTree tree parent) (hp : p ∉ tree.labels) (hcs : ∀ q ∈ cs, q ∉ tree.labels) :
    Repr h'.toBPTree tree parent :=
  hr.congr fun _ hq => hw.load_of_notMem (fun h0 => hp (h0 ▸ hq)) fun hmem => hcs _ hmem hq

/-- A subtree whose topmost node was rewired. -/
theorem Rewired.repr_of_mem {h h' : BPHeap ρ} {p : NodeRef} {cs : List NodeRef}
    (hw : Rewired h h' p cs) {n : ℕ} {tree : Tree ℤ (Option ρ) n} {parent : Option NodeRef}
    (hr : Repr h.toBPTree tree parent) (hnd : tree.labels.Nodup) (hp : p ∉ tree.labels)
    (htop : tree.label ∈ cs) (hcs : ∀ q ∈ cs, q ∈ tree.labels → q = tree.label) :
    Repr h'.toBPTree tree (some p) := by
  have hne : ∀ q ∈ tree.labels, q ≠ p := fun q hq h0 => hp (h0 ▸ hq)
  refine hr.setParent hnd (hw.load_of_mem (hne _ tree.label_mem_labels) htop) fun q hq hq' => ?_
  exact hw.load_of_notMem (hne q hq) fun hmem => hq' (hcs q hmem hq)

/-- In a list of subtrees without common labels, a top label occurs in its own subtree only. -/
theorem label_eq_of_mem_labels {n : ℕ} {ts : List (Tree ℤ (Option ρ) n)}
    (hnd : (ts.flatMap Tree.labels).Nodup) {t : Tree ℤ (Option ρ) n} (ht : t ∈ ts) {q : ℕ}
    (hq : q ∈ ts.map Tree.label) (hmem : q ∈ t.labels) : q = t.label := by
  obtain ⟨t', ht', rfl⟩ := List.mem_map.mp hq
  by_cases h : t' = t
  · rw [h]
  · have hdisj := (List.nodup_flatMap.mp hnd).2
    have : Std.Symm
        (Function.onFun List.Disjoint (Tree.labels (κ := ℤ) (ν := Option ρ) (n := n))) :=
      ⟨fun _ _ h _ ha hb => h hb ha⟩
    have := hdisj.forall ht' ht h
    exact absurd hmem (List.disjoint_left.mp this t'.label_mem_labels)

end MiniDbms
