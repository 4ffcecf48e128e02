import Mathlib.Data.List.Flatten
import MiniDbms.BPTree.Destroy
import MiniDbms.BPTree.Equiv.Chain
import MiniDbms.Lib.BPlusTree.Size

/-!
# Releasing the index

`bptree_destroy` frees the nodes that are reached from the root, each of them once, and reads none
that is freed (`BPTree.Lays.destroy`).  These are all nodes of the index, unless an insertion was
cut off for want of memory (`bptree_destroy_frees_all_iff`): a node that such an insertion cuts off
the tree is never freed.

The index has no more nodes than keys (`bptree_nodes_le`).
-/

namespace MiniDbms

open SortedAssoc CArray BPlus

variable {ρ : Type} {t : BPTree ρ}

/-! ### One subtree -/

theorem loadUnfreed_eq {freed : List NodeRef} {p : NodeRef} {node : BPTreeNode ρ}
    (hl : t.load p = some node) (hp : p ∉ freed) : t.loadUnfreed freed p = some node :=
  (if_neg hp).trans hl

theorem freeNode_eq {freed : List NodeRef} {p : NodeRef} (hp : p ∉ freed) :
    freeNode freed p = some (freed ++ [p]) :=
  if_neg hp

/-- What is below a node is freed, children first. -/
theorem Repr.destroyNode : {n : ℕ} → {tree : Tree ℤ (Option ρ) n} → {parent : Option NodeRef} →
    Repr t tree parent → tree.Separated → tree.labels.Nodup → {freed : List NodeRef} →
    freed.Disjoint tree.labels → (e : ℕ) →
    bptreeDestroyNode t (n + 1 + e) (some tree.label) freed = some (freed ++ tree.postorder)
  | 0, l, parent, hr, _, _, freed, hdisj, e => by
    obtain ⟨node, hl, hnode⟩ := repr_leaf.mp hr
    have hnot : Leaf.label l ∉ freed := fun h => hdisj h (List.mem_singleton_self _)
    rw [Nat.zero_add, Nat.add_comm, bptreeDestroyNode]
    refine bind_eq_of_eq_some (loadUnfreed_eq hl hnot) ?_
    rw [hnode.isLeaf, if_pos rfl]
    exact freeNode_eq hnot
  | n + 1, b, parent, hr, hsep, hnd, freed, hdisj, e => by
    obtain ⟨⟨node, hl, hnode⟩, hcs⟩ := repr_branch.mp hr
    have hlen := hsep.length_children
    obtain ⟨hnotin, hndcs⟩ := List.nodup_cons.mp hnd
    have hnot : Branch.label b ∉ freed := fun h => hdisj h List.mem_cons_self
    -- before round `i` the first `i` children are freed
    let freedAt : ℕ → List NodeRef := fun i =>
      freed ++ ((Branch.children b).take i).flatMap Tree.postorder
    have hmem : ∀ {i q}, q ∈ freedAt i →
        q ∈ freed ∨ q ∈ ((Branch.children b).take i).flatMap Tree.labels := by
      intro i q hq
      refine (List.mem_append.mp hq).imp_right fun hq => ?_
      obtain ⟨c, hc, hq⟩ := List.mem_flatMap.mp hq
      exact List.mem_flatMap.mpr ⟨c, hc, c.postorder_perm.mem_iff.mp hq⟩
    have hround : ∀ i freed', 0 ≤ i → i < 0 + (node.numKeys + 1) → freed' = freedAt i →
        ∃ freed'', ((node.children.read i).bind fun child =>
          bptreeDestroyNode t (n + 1 + e) child freed') = some freed'' ∧
          freed'' = freedAt (i + 1) := by
      rintro i freed' - hi rfl
      have hi' : i < (Branch.children b).length := by
        rw [hlen, ← hnode.numKeys]
        omega
      have hc := List.getElem_mem hi'
      have hsplit := List.take_append_getElem hi'
      -- the child is not among what is freed
      have hdisjc : (freedAt i).Disjoint (Branch.children b)[i].labels := by
        intro q hq hqc
        rcases hmem hq with hq | hq
        · exact hdisj hq (List.mem_cons_of_mem _ (List.mem_flatMap.mpr ⟨_, hc, hqc⟩))
        · have hnd' := hndcs.sublist ((List.take_sublist (i + 1) _).flatMap Tree.labels)
          rw [← hsplit, List.flatMap_append, List.flatMap_singleton] at hnd'
          exact (List.nodup_append.mp hnd').2.2 q hq q hqc rfl
      have hread := hnode.children.read (i := i) (by simpa using hi')
      rw [List.getElem_map, List.getElem_map] at hread
      refine ⟨freedAt (i + 1), bind_eq_of_eq_some hread ?_, rfl⟩
      rw [(hcs _ hc).destroyNode (hsep.2.2 _ hc) ((List.nodup_flatMap.mp hndcs).1 _ hc) hdisjc e]
      simp only [freedAt]
      rw [← hsplit, List.flatMap_append, List.flatMap_singleton, List.append_assoc]
    obtain ⟨freed', hrun, rfl⟩ := forUp_spec _ (fun i freed' => freed' = freedAt i) 0
      (node.numKeys + 1) (s := freed) (by simp [freedAt]) hround
    have hall : freedAt (0 + (node.numKeys + 1)) =
        freed ++ (Branch.children b).flatMap Tree.postorder := by
      simp only [freedAt]
      rw [List.take_of_length_le (by rw [hlen, hnode.numKeys]; omega)]
    rw [show n + 1 + 1 + e = n + 1 + e + 1 by omega, bptreeDestroyNode]
    refine bind_eq_of_eq_some (loadUnfreed_eq hl hnot) ?_
    rw [hnode.isLeaf, if_neg Bool.false_ne_true]
    refine bind_eq_of_eq_some hrun ?_
    have hlast : Branch.label b ∉ freedAt (0 + (node.numKeys + 1)) := by
      intro h
      rcases hmem h with h | h
      · exact hnot h
      · exact hnotin (((List.take_sublist _ _).flatMap Tree.labels).subset h)
    refine (freeNode_eq hlast).trans ?_
    rw [hall, List.append_assoc]
    rfl

/-! ### The whole index -/

/-- Every node of a tree is reached. -/
theorem Repr.reaches {q : NodeRef} : {n : ℕ} → {tree : Tree ℤ (Option ρ) n} →
    {parent : Option NodeRef} → Repr t tree parent → tree.Separated → {depth : ℕ} →
    t.Reaches tree.label depth → q ∈ tree.labels → ∃ depth, t.Reaches q depth
  | 0, l, parent, _, _, depth, hreach, hq => by
    obtain rfl : q = Leaf.label l := List.mem_singleton.mp hq
    exact ⟨depth, hreach⟩
  | n + 1, b, parent, hr, hsep, depth, hreach, hq => by
    rcases List.mem_cons.mp hq with rfl | hq
    · exact ⟨depth, hreach⟩
    · obtain ⟨c, hc, hq⟩ := List.mem_flatMap.mp hq
      obtain ⟨i, hi⟩ := List.getElem?_of_mem hc
      exact ((repr_branch.mp hr).2 c hc).reaches (hsep.2.2 c hc)
        (hreach.child ((hr.child_iff hsep).mpr ⟨c, hi, rfl⟩)) hq

namespace BPTree

/-- The nodes of a part of the tree are nodes of the tree. -/
theorem Lays.mem_labels {tree : AnyTree ℤ (Option ρ)} (h : t.Lays tree) {p : NodeRef} {depth : ℕ}
    (hp : t.Reaches p depth) : p ∈ tree.2.labels := by
  suffices hpart : ∃ (m : ℕ) (sub : Tree ℤ (Option ρ) m), sub.label = p ∧
      (∃ parent, Repr t sub parent) ∧ sub.Separated ∧ sub.labels ⊆ tree.2.labels by
    obtain ⟨m, sub, rfl, -, -, hsub⟩ := hpart
    exact hsub sub.label_mem_labels
  induction hp with
  | root hroot =>
    rw [h.root] at hroot
    cases hroot
    exact ⟨tree.1, tree.2, rfl, ⟨none, h.repr⟩, h.wf.separated, fun _ => id⟩
  | @child p q depth i _ hchild ih =>
    obtain ⟨m, sub, rfl, ⟨parent, hr⟩, hsep, hsub⟩ := ih
    cases m with
    | zero => exact absurd hchild hr.not_child
    | succ m =>
      obtain ⟨c, hc, rfl⟩ := (hr.child_iff hsep).mp hchild
      have hc' := List.mem_of_getElem? hc
      exact ⟨m, c, rfl, ⟨_, (repr_branch.mp hr).2 c hc'⟩, hsep.2.2 c hc', fun q hq =>
        hsub (List.mem_cons_of_mem _ (List.mem_flatMap.mpr ⟨c, hc', hq⟩))⟩

theorem Lays.mem_labels_iff {tree : AnyTree ℤ (Option ρ)} (h : t.Lays tree) {p : NodeRef} :
    p ∈ tree.2.labels ↔ ∃ depth, t.Reaches p depth :=
  ⟨h.repr.reaches h.wf.separated (.root h.root), fun ⟨_, hp⟩ => h.mem_labels hp⟩

/-- **The nodes of the tree are freed**, children first. -/
theorem Lays.destroy {tree : AnyTree ℤ (Option ρ)} (h : t.Lays tree) :
    bptreeDestroy (some t) = some tree.2.postorder := by
  have hlt := h.height_lt
  have hrun := h.repr.destroyNode h.wf.separated h.nodup (List.disjoint_nil_left _)
    (t.nodes.length - tree.1)
  rw [show tree.1 + 1 + (t.nodes.length - tree.1) = t.nodes.length + 1 by omega] at hrun
  rw [bptreeDestroy, h.root]
  exact hrun

/-! ### Nodes that are lost -/

/-- The tree has `count` nodes. -/
inductive HasNodes (t : BPTree ρ) : ℕ → Prop
  | empty (root : t.root = none) : HasNodes t 0
  | tree {tree : AnyTree ℤ (Option ρ)} (lays : t.Lays tree) : HasNodes t tree.2.labels.length

end BPTree

/-- The first insertion adds a node, or leaves the index empty. -/
theorem bptreeInsert_first_nodes {h h' : BPHeap ρ} (hroot : h.root = none) {key : ℤ}
    {value : Option ρ} {ok : Bool} (hrun : bptreeInsert h key value = some (h', ok)) :
    if ok then h'.nodes.length = h.nodes.length + 1
    else h'.root = none ∧ h'.nodes.length = h.nodes.length := by
  have hlength : ∀ h : BPHeap ρ, h.nexts.length = h.nodes.length := fun h => List.length_map _
  unfold bptreeInsert at hrun
  rw [hroot] at hrun
  rcases hc : bptreeCreateNode h true with ⟨_ | p, h₁⟩ <;> simp only [hc] at hrun
  · cases hrun
    unfold bptreeCreateNode at hc
    split at hc
    · cases hc
    · cases hc
      exact ⟨hroot, rfl⟩
  · obtain ⟨hp, hn₁⟩ := bptreeCreateNode_nexts hc
    obtain ⟨h₂, hmod, hrun⟩ := Option.bind_eq_some_iff.mp hrun
    cases hrun
    have hn₂ : h₂.nexts = h₁.nexts := BPHeap.nexts_modify_of_next (fun node node' hf => by
      simp only [Option.bind_eq_bind, Option.bind_eq_some_iff] at hf
      obtain ⟨_, _, _, _, hf⟩ := hf
      cases hf
      rfl) hmod
    show h₂.nodes.length = h.nodes.length + 1
    rw [← hlength h₂, hn₂, hn₁, List.length_append, hlength h, List.length_singleton]

/-- **A call loses nodes** if and only if it is cut off. -/
theorem BPTree.HasNodes.insert {h : BPHeap ρ} {count : ℕ} (hn : h.toBPTree.HasNodes count)
    (x : ℤ × Option ρ) :
    ∃ h' ok count', bptreeInsert h x.1 x.2 = some (h', ok) ∧ h'.toBPTree.HasNodes count' ∧
      count' + h.nodes.length ≤ count + h'.nodes.length ∧
      (count' + h.nodes.length = count + h'.nodes.length ↔ FirstFailsOrNone h x.1) := by
  cases hn with
  | empty hroot =>
    obtain ⟨⟨h', ok⟩, hrun, hres⟩ := bptreeInsert_spec (.empty hroot) x
    have hnodes := bptreeInsert_first_nodes hroot hrun
    cases hres with
    | @added h' _ granted _ holds =>
      have hlength : h'.nodes.length = h.nodes.length + 1 := hnodes
      -- a tree with one entry has one node
      have hone : ∀ m, h'.toBPTree.Holds m → m.length = 1 → h'.toBPTree.HasNodes 1 := by
        intro m hm hlen
        cases hm with
        | empty => cases hlen
        | @tree tree lays =>
          have hle := lays.wf.length_labels_le (by decide)
          have hpos := List.length_pos_iff.mpr tree.2.labels_ne_nil
          rw [show 1 = tree.2.labels.length by omega]
          exact .tree lays
      exact ⟨h', true, 1, hrun, hone _ holds rfl, by omega,
        iff_of_true (by omega) (.inr granted)⟩
    | duplicate mem => cases mem
    | @refused h' _ refused =>
      obtain ⟨hroot', hlength⟩ : h'.root = none ∧ h'.nodes.length = h.nodes.length := hnodes
      exact ⟨h', false, 0, hrun, .empty hroot', by omega,
        iff_of_true (by omega) (.inl (by simpa using refused))⟩
    | @truncated h' a lost b _ _ _ insert_eq _ two_le =>
      have hlen := congrArg List.length insert_eq
      rw [List.length_append, List.length_append] at hlen
      change 1 = _ at hlen
      omega
  | @tree tree lays =>
    obtain ⟨h', hrun, hlays', hsupply⟩ := lays.insert x
    obtain ⟨hle, hiff⟩ := insertRoot_sized lays.wf x h.supply
    rw [← hsupply] at hle hiff
    refine ⟨h', _, _, hrun, .tree hlays', hle, hiff.trans ?_⟩
    rw [FirstFailsOrNone, lays.nodesNeeded_eq]
    refine or_congr ?_ Iff.rfl
    rw [granted_zero_iff, Bool.not_eq_true]

/-- No call of a sequence is cut off. -/
def NoneCutOff (h : BPHeap ρ) : List (ℤ × Option ρ) → Prop
  | [] => True
  | x :: xs => FirstFailsOrNone h x.1 ∧
      ∀ h' ok, bptreeInsert h x.1 x.2 = some (h', ok) → NoneCutOff h' xs

/-- A sequence of calls. -/
theorem BPTree.HasNodes.insertAll (xs : List (ℤ × Option ρ)) {h : BPHeap ρ} {count : ℕ}
    (hn : h.toBPTree.HasNodes count) :
    ∃ h' oks count', bptreeInsertAll h xs = some (h', oks) ∧ h'.toBPTree.HasNodes count' ∧
      count' + h.nodes.length ≤ count + h'.nodes.length ∧
      (count' + h.nodes.length = count + h'.nodes.length ↔ NoneCutOff h xs) := by
  induction xs generalizing h count with
  | nil => exact ⟨h, [], count, rfl, hn, le_rfl, iff_of_true rfl trivial⟩
  | cons x xs ih =>
    obtain ⟨h₁, ok, count₁, hrun, hn₁, hle, hiff⟩ := hn.insert x
    obtain ⟨h', oks, count', hrun', hn', hle', hiff'⟩ := ih hn₁
    refine ⟨h', ok :: oks, count', bind_eq_of_eq_some hrun (bind_eq_of_eq_some hrun' rfl), hn',
      by omega, ?_⟩
    have hrest : (∀ h' ok, bptreeInsert h x.1 x.2 = some (h', ok) → NoneCutOff h' xs) ↔
        NoneCutOff h₁ xs := by
      refine ⟨fun hall => hall h₁ ok hrun, fun hcut h₂ ok₂ hrun₂ => ?_⟩
      rw [hrun] at hrun₂
      cases hrun₂
      exact hcut
    rw [NoneCutOff, hrest, ← hiff, ← hiff']
    omega

/-- The nodes of the tree are freed. -/
theorem BPTree.HasNodes.destroy {count : ℕ} (hn : t.HasNodes count) :
    ∃ freed, bptreeDestroy (some t) = some freed ∧ freed.Nodup ∧ freed.length = count ∧
      (∀ p, p ∈ freed ↔ ∃ depth, t.Reaches p depth) ∧ ∀ p ∈ freed, p < t.nodes.length := by
  cases hn with
  | empty hroot =>
    refine ⟨[], ?_, List.nodup_nil, rfl, fun p => ?_, nofun⟩
    · rw [bptreeDestroy, hroot, bptreeDestroyNode]
    · exact iff_of_false List.not_mem_nil fun ⟨_, hp⟩ => not_reaches_of_empty hroot hp
  | @tree tree lays =>
    have hperm := tree.2.postorder_perm
    refine ⟨_, lays.destroy, hperm.nodup_iff.mpr lays.nodup, hperm.length_eq, fun p => ?_,
      fun p hp => ?_⟩
    · rw [hperm.mem_iff]
      exact lays.mem_labels_iff
    · exact lays.repr.lt_length p (hperm.mem_iff.mp hp)

/-- A list of different numbers below a bound lists all of them if it is long enough. -/
theorem perm_range_iff {ps : List ℕ} {bound : ℕ} (hnd : ps.Nodup) (hlt : ∀ p ∈ ps, p < bound) :
    ps.Perm (List.range bound) ↔ ps.length = bound := by
  have hsub : ps ⊆ List.range bound := fun p hp => List.mem_range.mpr (hlt p hp)
  constructor
  · intro hperm
    rw [hperm.length_eq, List.length_range]
  · intro hlength
    refine (List.subperm_of_subset hnd hsub).perm_of_length_le ?_
    rw [hlength, List.length_range]

/-- **`bptree_destroy`**, for every sequence of insertions and every pattern of allocation failures:
it reads no node that is freed, and frees every node once that is reached from the root.  No node of
the index is left if and only if no insertion was cut off. -/
theorem bptree_destroy_frees_all_iff (allocs : List Bool) (xs : List (ℤ × Option ρ)) :
    ∃ h oks freed, bptreeInsertAll (bptreeStart ρ allocs) xs = some (h, oks) ∧
      bptreeDestroy (some h.toBPTree) = some freed ∧ freed.Nodup ∧
      (∀ p, p ∈ freed ↔ ∃ depth, h.toBPTree.Reaches p depth) ∧
      (freed.Perm (List.range h.nodes.length) ↔ NoneCutOff (bptreeStart ρ allocs) xs) := by
  obtain ⟨h, oks, count, hrun, hn, -, hiff⟩ :=
    (BPTree.HasNodes.empty rfl : (bptreeStart ρ allocs).toBPTree.HasNodes 0).insertAll xs
  obtain ⟨freed, hdestroy, hnd, hlength, hmem, hlt⟩ := hn.destroy
  refine ⟨h, oks, freed, hrun, hdestroy, hnd, hmem, ?_⟩
  have hstart : (bptreeStart ρ allocs).nodes.length = 0 := rfl
  rw [hstart] at hiff
  rw [perm_range_iff hnd hlt, hlength, ← hiff]
  omega

/-! ### The size of the index -/

theorem BPTree.HasNodes.le_length {count : ℕ} (hn : t.HasNodes count) :
    ∃ m, t.Holds m ∧ count ≤ m.length := by
  cases hn with
  | empty hroot => exact ⟨[], .empty hroot, Nat.le_refl 0⟩
  | tree lays => exact ⟨_, .tree lays, lays.wf.length_labels_le (by decide)⟩

/-- **The index has no more nodes than keys**, for every sequence of insertions and every pattern of
allocation failures: this holds of the nodes that are reached from the root, and of all nodes when
no insertion was cut off. -/
theorem bptree_nodes_le (allocs : List Bool) (xs : List (ℤ × Option ρ)) :
    ∃ h oks keys, bptreeInsertAll (bptreeStart ρ allocs) xs = some (h, oks) ∧
      h.toBPTree.SizeOk keys ∧
      (∀ ps : List NodeRef, ps.Nodup → (∀ p ∈ ps, ∃ depth, h.toBPTree.Reaches p depth) →
        ps.length ≤ keys.length) ∧
      (NoneCutOff (bptreeStart ρ allocs) xs → h.nodes.length ≤ keys.length) := by
  obtain ⟨h, oks, count, hrun, hn, -, hiff⟩ :=
    (BPTree.HasNodes.empty rfl : (bptreeStart ρ allocs).toBPTree.HasNodes 0).insertAll xs
  obtain ⟨freed, -, hnd, hlength, hmem, -⟩ := hn.destroy
  obtain ⟨m, hm, hle⟩ := hn.le_length
  have hkeys : (SortedAssoc.keys m).length = m.length := List.length_map _
  refine ⟨h, oks, _, hrun, hm.shape.2, fun ps hps hreach => ?_, fun hcut => ?_⟩
  · have hsub := List.subperm_of_subset hps fun p hp => (hmem p).mpr (hreach p hp)
    rw [hkeys]
    exact (hsub.length_le.trans hlength.le).trans hle
  · have heq := hiff.mpr hcut
    have hstart : (bptreeStart ρ allocs).nodes.length = 0 := rfl
    rw [hkeys]
    omega

end MiniDbms
