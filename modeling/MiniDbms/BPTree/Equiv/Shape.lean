import MiniDbms.BPTree.Equiv.Map
import MiniDbms.BPTree.Shape
import MiniDbms.Lib.BPlusTree.Leaves
import MiniDbms.Lib.BPlusTree.Shape

/-!
# The nodes of the index form a B+ tree

What is said of an index through its nodes and pointers (`BPTree.Child`, `BPTree.KeyBelow`,
`BPTree.Reaches`) is what the tree says that it is laid out as: `Repr.child_iff`,
`Repr.keyBelow_iff` and `BPTree.Lays.subtree`.  The shape of the nodes, `bptree_shape`, follows from
that of well-formed B+ trees.
-/

namespace MiniDbms

open SortedAssoc CArray BPlus

variable {ρ : Type} {t : BPTree ρ}

/-! ### Nodes, children, keys -/

/-- The children of a node that is laid out as a branch. -/
theorem Repr.child_iff {n : ℕ} {b : Branch ℤ (Tree ℤ (Option ρ) n)} {parent : Option NodeRef}
    (hr : Repr t (n := n + 1) b parent) (hsep : Tree.Separated (n := n + 1) b) {i : ℕ}
    {p : NodeRef} :
    t.Child b.label i p ↔ ∃ c, b.children[i]? = some c ∧ c.label = p := by
  obtain ⟨⟨node, hl, hnode⟩, -⟩ := repr_branch.mp hr
  have hlen := hsep.length_children
  constructor
  · rintro ⟨node', hl', -, hi, hread⟩
    rw [hl] at hl'
    cases hl'
    rw [hnode.numKeys] at hi
    have hc : b.children[i]? = some b.children[i] := List.getElem?_eq_getElem (by omega)
    refine ⟨_, hc, ?_⟩
    have hread' := hnode.children i (some b.children[i].label) (by
      rw [List.getElem?_map, List.getElem?_map, hc, Option.map_some, Option.map_some])
    rw [hread] at hread'
    exact (Option.some.inj (Option.some.inj hread')).symm
  · rintro ⟨c, hc, rfl⟩
    have hi := (List.getElem?_eq_some_iff.mp hc).1
    refine ⟨node, hl, hnode.isLeaf, by rw [hnode.numKeys]; omega, hnode.children i _ ?_⟩
    rw [List.getElem?_map, List.getElem?_map, hc, Option.map_some, Option.map_some]

/-- A leaf has no children. -/
theorem Repr.not_child {l : Leaf ℤ (Option ρ)} {parent : Option NodeRef}
    (hr : Repr t (n := 0) l parent) {i : ℕ} {p : NodeRef} : ¬ t.Child l.label i p := by
  rintro ⟨node', hl', hleaf, -⟩
  obtain ⟨node, hl, hnode⟩ := repr_leaf.mp hr
  rw [hl] at hl'
  cases hl'
  rw [hnode.isLeaf] at hleaf
  cases hleaf

/-- The keys below a node are those of the tree that it is laid out as. -/
theorem Repr.keyBelow_iff {key : ℤ} : {n : ℕ} → {tree : Tree ℤ (Option ρ) n} →
    {parent : Option NodeRef} → Repr t tree parent → tree.Separated →
    (t.KeyBelow key tree.label ↔ key ∈ SortedAssoc.keys tree.toList)
  | 0, l, parent, hr, _ => by
    obtain ⟨node, hl, hnode⟩ := repr_leaf.mp hr
    have hlen : (SortedAssoc.keys (Leaf.entries l)).length = node.numKeys := by
      rw [hnode.numKeys, List.length_map]
    constructor
    · intro h
      cases h with
      | @leaf _ node' i hl' hleaf hi hread =>
        have hl'' : t.load (Leaf.label l) = some node' := hl'
        rw [hl] at hl''
        cases hl''
        rw [hnode.keys.read (hlen ▸ hi)] at hread
        cases hread
        exact List.getElem_mem _
      | child hchild => exact absurd hchild hr.not_child
    · intro h
      obtain ⟨i, hi, rfl⟩ := List.mem_iff_getElem.mp h
      exact .leaf hl hnode.isLeaf (hlen ▸ hi) (hnode.keys.read hi)
  | n + 1, b, parent, hr, hsep => by
    obtain ⟨⟨node, hl, hnode⟩, hcs⟩ := repr_branch.mp hr
    have hmem : key ∈ SortedAssoc.keys (Tree.toList (n := n + 1) b) ↔
        ∃ c ∈ Branch.children b, key ∈ SortedAssoc.keys (Tree.toList c) := by
      simp only [Tree.toList, SortedAssoc.keys, List.map_flatMap, List.mem_flatMap]
    rw [hmem]
    constructor
    · intro h
      cases h with
      | @leaf _ node' _ hl' hleaf =>
        have hl'' : t.load (Branch.label b) = some node' := hl'
        rw [hl] at hl''
        cases hl''
        rw [hnode.isLeaf] at hleaf
        cases hleaf
      | child hchild hbelow =>
        obtain ⟨c, hc, rfl⟩ := (hr.child_iff hsep).mp hchild
        have hc' := List.mem_of_getElem? hc
        exact ⟨c, hc', ((hcs c hc').keyBelow_iff (hsep.2.2 c hc')).mp hbelow⟩
    · rintro ⟨c, hc, hkey⟩
      obtain ⟨i, hi⟩ := List.getElem?_of_mem hc
      exact .child ((hr.child_iff hsep).mpr ⟨c, hi, rfl⟩)
        (((hcs c hc).keyBelow_iff (hsep.2.2 c hc)).mpr hkey)

/-! ### The nodes that are reached -/

/-- The tree that a node `depth` levels below the root is laid out as. -/
structure BPTree.Subtree (t : BPTree ρ) (tree : AnyTree ℤ (Option ρ)) (depth : ℕ) {m : ℕ}
    (sub : Tree ℤ (Option ρ) m) : Prop where
  height : m + depth = tree.1
  repr : ∃ parent, Repr t sub parent
  separated : sub.Separated
  sorted : Sorted sub.toList
  filled : sub.Filled bptreeOrder (1, 1)
  half_filled : depth ≠ 0 → sub.Filled bptreeOrder (Tree.half bptreeOrder)
  leaves : ∀ q ∈ sub.leafLabels, q ∈ tree.2.leafLabels

/-- Every node that is reached is laid out as a part of the tree. -/
theorem BPTree.Lays.subtree {tree : AnyTree ℤ (Option ρ)} (h : t.Lays tree) {p : NodeRef}
    {depth : ℕ} (hp : t.Reaches p depth) :
    ∃ (m : ℕ) (sub : Tree ℤ (Option ρ) m), sub.label = p ∧ t.Subtree tree depth sub := by
  induction hp with
  | root hroot =>
    rw [h.root] at hroot
    cases hroot
    exact ⟨tree.1, tree.2, rfl, rfl, ⟨none, h.repr⟩, h.wf.separated, h.wf.sorted, h.wf.filled,
      fun h0 => absurd rfl h0, fun _ hq => hq⟩
  | @child p q depth i _ hchild ih =>
    obtain ⟨m, sub, rfl, hsub⟩ := ih
    obtain ⟨parent, hr⟩ := hsub.repr
    cases m with
    | zero => exact absurd hchild hr.not_child
    | succ m =>
      obtain ⟨c, hc, rfl⟩ := (hr.child_iff hsub.separated).mp hchild
      have hc' := List.mem_of_getElem? hc
      have hfill := hsub.filled.2.2 c hc'
      have hheight := hsub.height
      exact ⟨m, c, rfl, by omega, ⟨_, (repr_branch.mp hr).2 c hc'⟩, hsub.separated.2.2 c hc',
        Tree.sorted_child hsub.sorted hc', hfill.mono (by decide) (by decide), fun _ => hfill,
        fun q hq => hsub.leaves q (List.mem_flatMap.mpr ⟨c, hc', hq⟩)⟩

/-- A leaf that is reached is one of the tree, and lies as deep as the tree is high. -/
theorem BPTree.Lays.leafAt {tree : AnyTree ℤ (Option ρ)} (h : t.Lays tree) {p : NodeRef}
    {depth : ℕ} (hp : t.LeafAt p depth) : depth = tree.1 ∧ p ∈ tree.2.leafLabels := by
  obtain ⟨hreach, node, hl, hleaf⟩ := hp
  obtain ⟨m, sub, rfl, hsub⟩ := h.subtree hreach
  have hheight := hsub.height
  cases m with
  | zero => exact ⟨by omega, hsub.leaves _ List.mem_cons_self⟩
  | succ m =>
    obtain ⟨parent, ⟨node', hl', hnode'⟩, -⟩ := hsub.repr
    have hl'' : t.load (Branch.label sub) = some node := hl
    rw [hl''] at hl'
    cases hl'
    rw [hnode'.isLeaf] at hleaf
    cases hleaf

/-! ### One node -/

/-- The keys a node holds ascend. -/
theorem keys_ok {n : ℕ} {a : CArray ℤ n} {ks : List ℤ} (ha : a.Holds ks)
    (hlt : ∀ (i j : ℕ) (k l : ℤ), j < i → ks[j]? = some k → ks[i]? = some l → k < l) :
    ∀ i < ks.length, ∃ key, a.read i = some key ∧
      ∀ j < i, ∀ key', a.read j = some key' → key' < key := by
  intro i hi
  refine ⟨ks[i], ha.read hi, fun j hj key' hread => ?_⟩
  rw [ha.read (hj.trans hi)] at hread
  cases hread
  exact hlt i j _ _ hj (List.getElem?_eq_getElem _) (List.getElem?_eq_getElem hi)

/-- A leaf. -/
theorem BPTree.Subtree.leaf_ok {tree : AnyTree ℤ (Option ρ)} {depth : ℕ}
    {l : Leaf ℤ (Option ρ)} (hsub : t.Subtree tree depth (m := 0) l) :
    ∃ node, t.load l.label = some node ∧ t.NodeOk l.label depth node := by
  obtain ⟨parent, hr⟩ := hsub.repr
  obtain ⟨node, hl, hnode⟩ := repr_leaf.mp hr
  have hlen : (SortedAssoc.keys l.entries).length = node.numKeys := by
    rw [hnode.numKeys, List.length_map]
  have hfill : 1 ≤ l.entries.length ∧ l.entries.length < bptreeOrder := hsub.filled
  refine ⟨node, hl, ?_, ?_, ?_, ?_, ?_⟩
  · rw [← hlen]
    refine keys_ok hnode.keys fun i j k k' hji hj hi => ?_
    have hsort : (SortedAssoc.keys l.entries).Pairwise (· < ·) :=
      List.pairwise_map.mpr hsub.sorted
    obtain ⟨hj', rfl⟩ := List.getElem?_eq_some_iff.mp hj
    obtain ⟨hi', rfl⟩ := List.getElem?_eq_some_iff.mp hi
    exact List.pairwise_iff_getElem.mp hsort j i hj' hi' hji
  · rw [hnode.numKeys]
    refine ⟨hfill.1, Nat.le_of_lt_succ hfill.2, fun _ hdepth => ?_⟩
    exact (hsub.half_filled hdepth).1
  · intro hleaf
    rw [hnode.isLeaf] at hleaf
    cases hleaf
  · intro i c key hchild
    exact absurd hchild hr.not_child
  · intro i c s _ hchild
    exact absurd hchild hr.not_child

/-- An inner node. -/
theorem BPTree.Subtree.branch_ok {tree : AnyTree ℤ (Option ρ)} {depth m : ℕ}
    {b : Branch ℤ (Tree ℤ (Option ρ) m)} (hsub : t.Subtree tree depth (m := m + 1) b) :
    ∃ node, t.load b.label = some node ∧ t.NodeOk b.label depth node := by
  obtain ⟨parent, hr⟩ := hsub.repr
  obtain ⟨⟨node, hl, hnode⟩, hcs⟩ := repr_branch.mp hr
  have hsep : Tree.Separated (n := m + 1) b := hsub.separated
  have hsort : Sorted (Tree.toList (n := m + 1) b) := hsub.sorted
  have hlen := hsep.length_children
  have hfill : 1 ≤ b.keys.length ∧ b.keys.length < bptreeOrder := ⟨hsub.filled.1, hsub.filled.2.1⟩
  -- the keys below a child of the node are those of a child of the branch
  have hbelow : ∀ {i : ℕ} {c : Tree ℤ (Option ρ) m} {key : ℤ}, b.children[i]? = some c →
      t.KeyBelow key c.label → key ∈ SortedAssoc.keys c.toList := fun {_ c _} hc h => by
    have hc' := List.mem_of_getElem? hc
    exact ((hcs c hc').keyBelow_iff (hsep.2.2 c hc')).mp h
  have hkey : ∀ {i : ℕ} {s : ℤ}, node.keys.read i = some s → i < b.keys.length →
      b.keys[i]? = some s :=
    fun hread hi => by
      rw [hnode.keys.read hi] at hread
      rw [List.getElem?_eq_getElem hi, hread]
  refine ⟨node, hl, ?_, ?_, ?_, ?_, ?_⟩
  · rw [hnode.numKeys]
    exact keys_ok hnode.keys fun i j k k' hji hj hi => hsep.keys_lt hsort hji hj hi
  · rw [hnode.numKeys]
    refine ⟨hfill.1, Nat.le_of_lt_succ hfill.2, fun hleaf => ?_⟩
    rw [hnode.isLeaf] at hleaf
    cases hleaf
  · intro _ i hi
    rw [hnode.numKeys] at hi
    have hc : b.children[i]? = some b.children[i] := List.getElem?_eq_getElem (by omega)
    obtain ⟨child, hload, hparent⟩ := (hcs _ (List.mem_of_getElem? hc)).load_label
    exact ⟨_, child, (hr.child_iff hsep).mpr ⟨_, hc, rfl⟩, hload, hparent⟩
  · intro i p key hchild hkb
    obtain ⟨c, hc, rfl⟩ := (hr.child_iff hsep).mp hchild
    have hi := (List.getElem?_eq_some_iff.mp hc).1
    have hrange : ∀ {j : ℕ} {s : ℤ}, b.keys[j]? = some s → (j < i → s ≤ key) ∧ (i ≤ j → key < s) :=
      fun hs => hsep.range hsort hc (hbelow hc hkb) hs
    refine ⟨fun s h0 hread => ?_, fun s hlt hread => ?_⟩
    · exact (hrange (hkey hread (by omega))).1 (by omega)
    · rw [hnode.numKeys] at hlt
      exact (hrange (hkey hread hlt)).2 le_rfl
  · intro i p s hlt hchild hread
    obtain ⟨c, hc, rfl⟩ := (hr.child_iff hsep).mp hchild
    rw [hnode.numKeys] at hlt
    -- the separator is the least key of the child behind it
    obtain ⟨c', hc', hmin⟩ := hsep.exists_child (hkey hread hlt)
    rw [hc] at hc'
    cases hc'
    have hmem := List.mem_of_getElem? hc
    obtain ⟨hs, hle⟩ := Tree.minKey?_spec (Tree.sorted_child hsort hmem) hmin
    exact ⟨((hcs c hmem).keyBelow_iff (hsep.2.2 c hmem)).mpr hs, fun key hkb =>
      hle key (hbelow hc hkb)⟩

/-! ### The whole index -/

theorem BPTree.Lays.shapeOk {tree : AnyTree ℤ (Option ρ)} (h : t.Lays tree) : t.ShapeOk where
  node := by
    intro p depth hp
    obtain ⟨m, sub, rfl, hsub⟩ := h.subtree hp
    cases m with
    | zero => exact hsub.leaf_ok
    | succ m => exact hsub.branch_ok
  leaves := by
    intro p p' depth depth' hp hp'
    rw [(h.leafAt hp).1, (h.leafAt hp').1]
  root := by
    intro p node hroot hl
    obtain ⟨node', hl', hparent⟩ := h.repr.load_label
    rw [h.root] at hroot
    cases hroot
    rw [hl] at hl'
    cases hl'
    exact hparent

theorem BPTree.Lays.sizeOk {tree : AnyTree ℤ (Option ρ)} (h : t.Lays tree) :
    t.SizeOk (SortedAssoc.keys tree.2.toList) where
  nodup := h.wf.sorted.nodup_keys
  mem_iff := by
    intro key
    rw [← h.repr.keyBelow_iff h.wf.separated]
    exact ⟨fun hk => ⟨_, h.root, hk⟩, fun ⟨root, hroot, hk⟩ => by
      rw [h.root] at hroot
      cases hroot
      exact hk⟩
  pow_le := by
    intro p depth hp hdepth
    obtain ⟨rfl, -⟩ := h.leafAt hp
    rw [List.length_map]
    exact h.wf.pow_le_length (by decide) hdepth
  descent := by
    intro root key hroot
    rw [h.root] at hroot
    cases hroot
    obtain ⟨l, -, -, hfind, -⟩ := find_leaf key h.repr h.wf.separated h.wf.sorted
    have hlog := h.wf.height_le_log (by decide)
    refine ⟨l.label, ?_, h.bptreeFindLeaf_eq hfind⟩
    have hlen : (SortedAssoc.keys tree.2.toList).length = tree.2.toList.length := List.length_map _
    have := hfind (Nat.log 2 tree.2.toList.length - tree.1)
    rwa [show tree.1 + 1 + (Nat.log 2 tree.2.toList.length - tree.1) =
      Nat.log 2 tree.2.toList.length + 1 by omega, ← hlen] at this

/-- The empty index. -/
theorem BPTree.not_reaches_of_empty (hroot : t.root = none) {p : NodeRef} {depth : ℕ} :
    ¬ t.Reaches p depth := by
  intro h
  induction h with
  | root h => rw [hroot] at h; cases h
  | child _ _ ih => exact ih

theorem BPTree.Holds.shape {m : List (ℤ × Option ρ)} (h : t.Holds m) :
    t.ShapeOk ∧ t.SizeOk (SortedAssoc.keys m) := by
  cases h with
  | tree lays => exact ⟨lays.shapeOk, lays.sizeOk⟩
  | empty hroot =>
    have hno : ∀ p, t.root ≠ some p := fun p h => by
      rw [hroot] at h
      cases h
    refine ⟨⟨fun p depth hp => absurd hp (not_reaches_of_empty hroot),
      fun p _ depth _ hp => absurd hp.1 (not_reaches_of_empty hroot),
      fun p _ hp => absurd hp (hno p)⟩, List.nodup_nil, fun key => ?_,
      fun p depth hp => absurd hp.1 (not_reaches_of_empty hroot), fun p _ hp => absurd hp (hno p)⟩
    exact ⟨fun h => absurd h List.not_mem_nil, fun ⟨p, hp, _⟩ => absurd hp (hno p)⟩

/-- **The shape of the index**: after any sequence of insertions into an empty index, with memory
for every node, its nodes form a B+ tree whose leaves all lie at one depth; at depth `d ≥ 1` it
stores at least `2 ^ (d + 1)` keys, and a lookup among `n` keys visits at most `log2 n + 1`
nodes. -/
theorem bptree_shape (xs : List (ℤ × Option ρ)) :
    ∃ h oks, bptreeInsertAll (bptreeStart ρ []) xs = some (h, oks) ∧ h.toBPTree.ShapeOk ∧
      ∃ keys, h.toBPTree.SizeOk keys := by
  obtain ⟨h, oks, hrun, hm, -⟩ :=
    bptreeInsertAll_of_memory xs (h := bptreeStart ρ []) bptreeCreate_holds rfl
  exact ⟨h, oks, hrun, hm.shape.1, _, hm.shape.2⟩

end MiniDbms
