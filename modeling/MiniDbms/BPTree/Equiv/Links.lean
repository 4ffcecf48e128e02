import MiniDbms.BPTree.Equiv.Map

/-!
# Parent pointers

`BPTree.Linked t out` says that the parent pointer of every node, but for `out`, leads to a node
that has it among its children.  It holds between two insertions with `out = none`; while
`bptree_insert_into_parent` is called, `out` is the new right node, which its parent does not know
yet (`ParentCall.Ready`).  So the scan for the left node ends at its place
(`ParentCall.Ready.findsLeft`), in every call that any sequence of insertions makes
(`bptreeInsertAll_safe`).
-/

namespace MiniDbms

open SortedAssoc CArray BPlus

variable {ρ : Type}

/-! ### Children and parents -/

/-- `q` is a child of the node. -/
def BPTreeNode.HasChild (node : BPTreeNode ρ) (q : NodeRef) : Prop :=
  ∃ i ≤ node.numKeys, node.children.read i = some (some q)

/-- The record at `p` is that of an inner node whose children are other nodes. -/
structure BPTree.InnerNode (t : BPTree ρ) (p : NodeRef) (node : BPTreeNode ρ) (ks : List ℤ)
    (cs : List NodeRef) : Prop where
  branch : node.IsBranchOf ks cs node.parent
  length : cs.length = ks.length + 1
  other : ∀ c ∈ cs, c ≠ p ∧ c < t.nodes.length

/-- `p` is an inner node with the child `q`. -/
def BPTree.HasChild (t : BPTree ρ) (p q : NodeRef) : Prop :=
  ∃ node, t.load p = some node ∧ node.isLeaf = false ∧ node.HasChild q

/-- Parent pointers, but for the one of `out`, lead to a node with this child. -/
structure BPTree.Linked (t : BPTree ρ) (out : Option NodeRef) : Prop where
  inner : ∀ p node, t.load p = some node → node.isLeaf = false → ∃ ks cs, t.InnerNode p node ks cs
  parent : ∀ q node p, t.load q = some node → some q ≠ out → node.parent = some p → t.HasChild p q

theorem BPTree.exists_load {t : BPTree ρ} {p : NodeRef} (h : p < t.nodes.length) :
    ∃ node, t.load p = some node := ⟨_, List.getElem?_eq_getElem h⟩

theorem BPTree.linked_create : (bptreeCreate : BPTree ρ).Linked none := ⟨nofun, nofun⟩

/-- Only the nodes matter, not which of them is the root. -/
theorem BPTree.Linked.of_nodes {t t' : BPTree ρ} {out : Option NodeRef} (hl : t.Linked out)
    (h : t'.nodes = t.nodes) : t'.Linked out := by
  have hload : t'.load = t.load := funext fun p => by rw [load, load, h]
  refine ⟨fun p node hp hinner => ?_, fun q node p hq hne hpar => ?_⟩
  · rw [hload] at hp
    obtain ⟨ks, cs, hnode⟩ := hl.inner p node hp hinner
    exact ⟨ks, cs, hnode.branch, hnode.length, by rw [h]; exact hnode.other⟩
  · rw [hload] at hq
    obtain ⟨parent, hp, hchild⟩ := hl.parent q node p hq hne hpar
    exact ⟨parent, by rw [hload]; exact hp, hchild⟩

/-- A leaf without room holds as many entries as fit. -/
theorem BPTreeNode.IsLeafOf.length_of_full {node : BPTreeNode ρ} {es : List (ℤ × Option ρ)}
    {parent : Option NodeRef} (h : node.IsLeafOf es parent)
    (hfull : ¬ node.numKeys < bptreeMaxKeys) : es.length = bptreeMaxKeys := by
  have hnum := h.numKeys
  have hle := h.keys.length_le
  rw [SortedAssoc.keys, List.length_map] at hle
  omega

/-- An inner node without room holds as many keys as fit. -/
theorem BPTreeNode.IsBranchOf.length_of_full {node : BPTreeNode ρ} {ks : List ℤ}
    {cs : List NodeRef} {parent : Option NodeRef} (h : node.IsBranchOf ks cs parent)
    (hfull : ¬ node.numKeys < bptreeMaxKeys) : ks.length = bptreeMaxKeys := by
  have hnum := h.numKeys
  exact le_antisymm h.keys.length_le (by omega)

section Nodes

variable {t : BPTree ρ} {p q : NodeRef} {node : BPTreeNode ρ} {ks : List ℤ} {cs : List NodeRef}
  {parent out : Option NodeRef}

/-- The children that a node record counts are those it holds. -/
theorem BPTreeNode.IsBranchOf.hasChild_iff (h : node.IsBranchOf ks cs parent)
    (hlen : cs.length = ks.length + 1) : node.HasChild q ↔ q ∈ cs := by
  have hnum := h.numKeys
  constructor
  · rintro ⟨i, hi, hread⟩
    have hlt : i < cs.length := by omega
    have hchild : node.children.read i = some (some cs[i]) :=
      h.children i _ (by rw [List.getElem?_map, List.getElem?_eq_getElem hlt]; rfl)
    rw [hread, Option.some_inj, Option.some_inj] at hchild
    rw [hchild]
    exact List.getElem_mem hlt
  · intro hq
    obtain ⟨i, hlt, rfl⟩ := List.mem_iff_getElem.mp hq
    refine ⟨i, by omega, h.children i _ ?_⟩
    rw [List.getElem?_map, List.getElem?_eq_getElem hlt]
    rfl

theorem BPTreeNode.IsBranchOf.hasChild (h : node.IsBranchOf ks cs parent)
    (hlen : cs.length = ks.length + 1) (hp : t.load p = some node) (hq : q ∈ cs) :
    t.HasChild p q := ⟨node, hp, h.isLeaf, (h.hasChild_iff hlen).mpr hq⟩

/-- The children of an inner node, with another one behind that of `index`. -/
theorem BPTree.InnerNode.mem_insertIdx (h : t.InnerNode p node ks cs) {index : ℕ}
    (hle : index ≤ ks.length) {right c : NodeRef} :
    c ∈ cs.insertIdx (index + 1) right ↔ c = right ∨ c ∈ cs := by
  have hlen := h.length
  exact List.mem_insertIdx (by omega)

theorem BPTree.InnerNode.length_insertIdx (h : t.InnerNode p node ks cs) {index : ℕ}
    (hle : index ≤ ks.length) (key : ℤ) (right : NodeRef) :
    (cs.insertIdx (index + 1) right).length = (ks.insertIdx index key).length + 1 := by
  have hlen := h.length
  rw [List.length_insertIdx_of_le_length (by omega), List.length_insertIdx_of_le_length hle, hlen]

/-- A node is not its own child. -/
theorem BPTree.Linked.ne_of_hasChild (hl : t.Linked out) (h : t.HasChild p q) : q ≠ p := by
  obtain ⟨node, hp, hinner, hq⟩ := h
  obtain ⟨ks, cs, hnode⟩ := hl.inner p node hp hinner
  exact (hnode.other q ((hnode.branch.hasChild_iff hnode.length).mp hq)).1

end Nodes

/-! ### Other parents -/

/-- `t'` is `t` with other nodes at `ps`, and with the parents `adopted` for some of the nodes. -/
structure BPTree.Relinked (t t' : BPTree ρ) (ps : List NodeRef)
    (adopted : NodeRef → Option NodeRef) : Prop where
  length_le : t.nodes.length ≤ t'.nodes.length
  load : ∀ q ∉ ps, t'.load q =
    (t.load q).map fun node => { node with parent := (adopted q).or node.parent }

namespace BPTree.Relinked

variable {t t' : BPTree ρ} {ps : List NodeRef} {adopted : NodeRef → Option NodeRef}

theorem hasChild (hr : t.Relinked t' ps adopted) {p q : NodeRef} (hp : p ∉ ps)
    (h : t.HasChild p q) : t'.HasChild p q := by
  obtain ⟨node, hload, hinner, hq⟩ := h
  refine ⟨{ node with parent := (adopted p).or node.parent }, ?_, hinner, hq⟩
  rw [hr.load p hp, hload, Option.map_some]

/-- What has to be shown of a step: about the nodes it writes, and about the children that these
had before. -/
theorem linked (hr : t.Relinked t' ps adopted) {out out' : Option NodeRef} (hl : t.Linked out)
    (hinner : ∀ p ∈ ps, ∀ node, t'.load p = some node → node.isLeaf = false →
      ∃ ks cs, t'.InnerNode p node ks cs)
    (hparent : ∀ p ∈ ps, some p ≠ out' → ∀ node P, t'.load p = some node →
      node.parent = some P → t'.HasChild P p)
    (hadopted : ∀ q p, adopted q = some p → t'.HasChild p q)
    (hkept : ∀ p ∈ ps, ∀ q, t.HasChild p q → adopted q = none → t'.HasChild p q)
    (hout : ∀ q, some q = out → q ∉ ps → some q ≠ out' → adopted q ≠ none) :
    t'.Linked out' := by
  have hold : ∀ q ∉ ps, ∀ node', t'.load q = some node' → ∃ node, t.load q = some node ∧
      node' = { node with parent := (adopted q).or node.parent } := by
    intro q hq node' hload
    rw [hr.load q hq] at hload
    obtain ⟨node, hnode, rfl⟩ := Option.map_eq_some_iff.mp hload
    exact ⟨node, hnode, rfl⟩
  refine ⟨fun p node' hload hleaf => ?_, fun q node' p hload hne hpar => ?_⟩
  · by_cases hp : p ∈ ps
    · exact hinner p hp node' hload hleaf
    · obtain ⟨node, hbefore, rfl⟩ := hold p hp node' hload
      obtain ⟨ks, cs, hnode⟩ := hl.inner p node hbefore hleaf
      exact ⟨ks, cs, ⟨hnode.branch.isLeaf, hnode.branch.numKeys, hnode.branch.keys,
        hnode.branch.children, rfl⟩, hnode.length, fun c hc =>
        ⟨(hnode.other c hc).1, (hnode.other c hc).2.trans_le hr.length_le⟩⟩
  · by_cases hq : q ∈ ps
    · exact hparent q hq hne node' p hload hpar
    · obtain ⟨node, hbefore, rfl⟩ := hold q hq node' hload
      dsimp only at hpar
      -- the parent is the one that the step gives, or the one from before
      cases hadopt : adopted q with
      | some p' =>
        rw [hadopt, Option.some_or, Option.some_inj] at hpar
        exact hadopted q p (by rw [hadopt, hpar])
      | none =>
        rw [hadopt, Option.none_or] at hpar
        have hchild := hl.parent q node p hbefore (fun h => hout q h hq hne hadopt) hpar
        by_cases hp : p ∈ ps
        · exact hkept p hp q hchild hadopt
        · exact hr.hasChild hp hchild

/-- A step that gives nobody another parent. -/
theorem of_load (hlen : t.nodes.length ≤ t'.nodes.length) (h : ∀ q ∉ ps, t'.load q = t.load q) :
    t.Relinked t' ps fun _ => none := by
  refine ⟨hlen, fun q hq => ?_⟩
  rw [h q hq]
  exact Option.map_id'.symm

/-- A step that makes `p` the parent of `cs`. -/
theorem of_children {p : NodeRef} {cs : List NodeRef} (hlen : t.nodes.length ≤ t'.nodes.length)
    (h : ∀ q ≠ p, t'.load q =
      (t.load q).map fun node => if q ∈ cs then { node with parent := some p } else node) :
    t.Relinked t' [p] fun q => if q ∈ cs then some p else none := by
  refine ⟨hlen, fun q hq => ?_⟩
  rw [h q (List.ne_of_not_mem_cons hq)]
  congr 1
  funext node
  split_ifs <;> rfl

/-- What has to be shown of a step that writes only leaves. -/
theorem linked_of_leaves (hr : t.Relinked t' ps fun _ => none) {out' : Option NodeRef}
    (hl : t.Linked none) (hleaf : ∀ p ∈ ps, ∀ node, t.load p = some node → node.isLeaf = true)
    (hleaf' : ∀ p ∈ ps, ∀ node, t'.load p = some node → node.isLeaf = true)
    (hparent : ∀ p ∈ ps, some p ≠ out' → ∀ node P, t'.load p = some node →
      node.parent = some P → t.HasChild P p) : t'.Linked out' := by
  refine hr.linked hl ?_ ?_ nofun ?_ nofun
  · intro p hp node hload hinner
    exact absurd ((hleaf' p hp node hload).symm.trans hinner) nofun
  · intro p hp hne node P hload hP
    have hchild := hparent p hp hne node P hload hP
    refine hr.hasChild (fun hmem => ?_) hchild
    obtain ⟨Pnode, hPload, hinner, -⟩ := hchild
    exact absurd ((hleaf P hmem Pnode hPload).symm.trans hinner) nofun
  · rintro p hp c ⟨node, hload, hinner, -⟩ -
    exact absurd ((hleaf p hp node hload).symm.trans hinner) nofun

end BPTree.Relinked

/-- The parents that `Rewired` gives. -/
theorem Rewired.relinked {h h' : BPHeap ρ} {p : NodeRef} {cs : List NodeRef}
    (hw : Rewired h h' p cs) :
    h.toBPTree.Relinked h'.toBPTree [p] fun q => if q ∈ cs then some p else none :=
  .of_children (congrArg Supply.fresh hw.supply).ge hw.load

/-- The parents that `Parted` gives. -/
theorem Parted.relinked {h h' : BPHeap ρ} {p q : NodeRef} {left right : List NodeRef}
    (hparted : Parted h h' p q left right) (hlen : h.nodes.length ≤ h'.nodes.length) :
    h.toBPTree.Relinked h'.toBPTree [p, q]
      fun x => if x ∈ right then some q else if x ∈ left then some p else none := by
  refine ⟨hlen, fun x hx => ?_⟩
  rw [List.mem_pair, not_or] at hx
  rw [hparted.load x hx.1 hx.2]
  congr 1
  funext node
  split_ifs <;> rfl

/-! ### A call of `bptree_insert_into_parent` -/

/-- With memory, the next node is put behind the others. -/
theorem BPHeap.take_of_memory {h : BPHeap ρ} (hallocs : h.allocs = []) :
    h.supply.take = (some h.nodes.length, ⟨h.nodes.length + 1, []⟩) := by
  rw [supply, hallocs]
  rfl

namespace ParentCall

/-- What holds when `bptree_insert_into_parent(tree, left, key, right)` is called: only `right` is
not known to its parent yet, and it is not the parent of `left`. -/
structure Ready (call : ParentCall ρ) : Prop where
  linked : call.heap.Linked (some call.right)
  allocs : call.heap.allocs = []
  ne : call.left ≠ call.right
  left : call.left < call.heap.nodes.length
  right : call.right < call.heap.nodes.length
  parent_ne : call.parent ≠ some call.right

variable {call : ParentCall ρ}

/-- The parent of `left` has it as a child, and the scan ends there. -/
theorem Ready.exists_index (hc : call.Ready) {p : NodeRef} (hp : call.parent = some p) :
    ∃ node ks cs index, call.heap.load p = some node ∧ call.heap.InnerNode p node ks cs ∧
      call.left ∈ cs ∧ call.scan node = some index ∧ index ≤ ks.length ∧
      node.children.read index = some (some call.left) := by
  obtain ⟨left, hleft, hpar⟩ := Option.bind_eq_some_iff.mp hp
  have hne : some call.left ≠ some call.right := fun h => hc.ne (Option.some.inj h)
  obtain ⟨node, hload, hleaf, hchild⟩ := hc.linked.parent call.left left p hleft hne hpar
  obtain ⟨ks, cs, hnode⟩ := hc.linked.inner p node hload hleaf
  have hmem := (hnode.branch.hasChild_iff hnode.length).mp hchild
  obtain ⟨A, C, rfl, hnot⟩ := List.eq_append_cons_of_mem hmem
  have hlen := hnode.length
  have hscan := scan_child hnode.branch.children hnot
  rw [hlen, ← hnode.branch.numKeys] at hscan
  rw [List.length_append, List.length_cons] at hlen
  refine ⟨node, ks, _, A.length, hload, hnode, hmem, hscan, by omega, ?_⟩
  refine hnode.branch.children _ _ ?_
  rw [List.map_append, List.getElem?_append_right (by rw [List.length_map]), List.length_map,
    Nat.sub_self]
  rfl

/-- **The scan finds the left node.** -/
theorem Ready.findsLeft (hc : call.Ready) : call.FindsLeft := by
  intro p hp
  obtain ⟨node, ks, cs, index, hload, hnode, -, hscan, hle, hread⟩ := hc.exists_index hp
  exact ⟨node, index, hload, hscan, by rw [hnode.branch.numKeys]; exact hle, hread⟩

/-- The parent is another node than the new one and than its own parent. -/
theorem Ready.parent_parent (hc : call.Ready) {p : NodeRef} (hp : call.parent = some p)
    {node : BPTreeNode ρ} (hload : call.heap.load p = some node) {P : NodeRef}
    (hP : node.parent = some P) : call.heap.HasChild P p ∧ P ≠ p := by
  have hne : some p ≠ some call.right := fun h => hc.parent_ne (hp.trans h)
  have hchild := hc.linked.parent p node P hload hne hP
  exact ⟨hchild, (hc.linked.ne_of_hasChild hchild).symm⟩

/-- The call behind a cut: the left part keeps its place and its parent, the right part is the next
new node. -/
theorem Ready.of_split {h h' : BPHeap ρ} {p : NodeRef} {old left : BPTreeNode ρ} {separator : ℤ}
    (hlinked : h'.Linked (some h.nodes.length)) (hsupply : h'.supply = ⟨h.nodes.length + 1, []⟩)
    (hold : h.load p = some old) (hleft : h'.load p = some left)
    (hparent : ∀ P, left.parent = some P → h.HasChild P p) :
    (⟨h', p, separator, h.nodes.length⟩ : ParentCall ρ).Ready := by
  have hnodes : h'.nodes.length = h.nodes.length + 1 := congrArg Supply.fresh hsupply
  refine ⟨hlinked, congrArg Supply.allocs hsupply, BPHeap.ne_of_load hold rfl,
    BPHeap.lt_of_load hleft, ?_, fun hP => ?_⟩
  · show h.nodes.length < h'.nodes.length
    rw [hnodes]
    exact Nat.lt_succ_self _
  · obtain ⟨left', hleft', hP⟩ := Option.bind_eq_some_iff.mp hP
    cases hleft.symm.trans hleft'
    obtain ⟨Pnode, hPload, -⟩ := hparent _ hP
    exact BPHeap.ne_of_load hPload rfl rfl

/-- Above the root: both parts are children of the new one. -/
theorem Ready.newRoot (hc : call.Ready) :
    ∃ h', bptreeCreateNewRoot call.heap call.left call.key call.right = some (h', true) ∧
      h'.Linked none ∧ h'.allocs = [] := by
  obtain ⟨lnode, hleft⟩ := BPTree.exists_load hc.left
  obtain ⟨rnode, hright⟩ := BPTree.exists_load hc.right
  obtain ⟨h', node, hrun, -, hsupply, hq, hnode, hload⟩ := bptreeCreateNewRoot_granted hleft
    hright hc.ne call.key (BPHeap.take_of_memory hc.allocs)
  have hlen : h'.nodes.length = call.heap.nodes.length + 1 := congrArg Supply.fresh hsupply
  set root := call.heap.nodes.length with hroot
  -- only the two halves get a new parent
  have hrelinked : call.heap.Relinked h'.toBPTree [root]
      fun q => if q ∈ [call.left, call.right] then some root else none :=
    .of_children (by rw [hlen]; exact Nat.le_succ _) hload
  refine ⟨h', hrun, hrelinked.linked hc.linked ?_ ?_ ?_ ?_ ?_, congrArg Supply.allocs hsupply⟩
  · rintro p hp node' hp' -
    rw [List.mem_singleton.mp hp, hq, Option.some_inj] at hp'
    subst hp'
    rw [List.mem_singleton.mp hp]
    -- the new root has both halves below it
    refine ⟨[call.key], [call.left, call.right], hnode.parent.symm ▸ hnode, rfl, ?_⟩
    intro c hc'
    have hlt : c < root := by
      rcases List.mem_pair.mp hc' with rfl | rfl
      · exact hc.left
      · exact hc.right
    exact ⟨hlt.ne, by rw [hlen]; exact hlt.trans (Nat.lt_succ_self _)⟩
  · rintro p hp - node' P hp' hP
    rw [List.mem_singleton.mp hp, hq, Option.some_inj] at hp'
    rw [← hp', hnode.parent] at hP
    cases hP
  · intro q p hadopted
    split_ifs at hadopted with hmem
    cases hadopted
    exact hnode.hasChild rfl hq hmem
  · rintro p hp q ⟨node', hp', -⟩ -
    exact absurd (List.mem_singleton.mp hp) (BPHeap.ne_of_load hp' hroot)
  · rintro q ⟨⟩ - -
    rw [if_pos (by simp)]
    exact Option.some_ne_none _

section Parent

variable {p : NodeRef} {node : BPTreeNode ρ} {ks : List ℤ} {cs : List NodeRef} {index : ℕ}

/-- The parent keeps its own parent. -/
theorem Ready.keeps_parent (hc : call.Ready) (hp : call.parent = some p)
    (hload : call.heap.load p = some node) {h' : BPHeap ρ} {ps : List NodeRef}
    {adopted : NodeRef → Option NodeRef} (hr : call.heap.Relinked h'.toBPTree ps adopted)
    (hps : ∀ q ∈ ps, q = p ∨ call.heap.load q = none) {node' : BPTreeNode ρ}
    (hpar : node'.parent = node.parent) {P : NodeRef} (hP : node'.parent = some P) :
    h'.HasChild P p := by
  obtain ⟨hchild, hne⟩ := hc.parent_parent hp hload (hpar ▸ hP)
  refine hr.hasChild (fun hmem => ?_) hchild
  rcases hps P hmem with rfl | hnone
  · exact hne rfl
  · obtain ⟨Pnode, hPload, -⟩ := hchild
    exact absurd (hnone.symm.trans hPload) nofun

theorem Ready.ne_parent (hc : call.Ready) (hp : call.parent = some p) : call.right ≠ p :=
  fun h => hc.parent_ne (by rw [hp, h])

/-- The children with the new one among them are other nodes than the parent. -/
theorem Ready.other (hc : call.Ready) (hp : call.parent = some p)
    (hnode : call.heap.InnerNode p node ks cs) (hle : index ≤ ks.length) {c : NodeRef}
    (hmem : c ∈ cs.insertIdx (index + 1) call.right) : c ≠ p ∧ c < call.heap.nodes.length := by
  rcases (hnode.mem_insertIdx hle).mp hmem with rfl | hmem
  · exact ⟨hc.ne_parent hp, hc.right⟩
  · exact hnode.other c hmem

/-- A parent with room takes over the new node. -/
theorem Ready.fits (hc : call.Ready) (hp : call.parent = some p)
    (hload : call.heap.load p = some node) (hnode : call.heap.InnerNode p node ks cs)
    (hle : index ≤ ks.length) (hroom : ks.length < bptreeMaxKeys) :
    ∃ h', bptreeInsertIntoInternal call.heap p index call.key call.right = some h' ∧
      h'.Linked none ∧ h'.allocs = [] := by
  obtain ⟨rnode, hright⟩ := BPTree.exists_load hc.right
  obtain ⟨h', node', hrun, hload', hnode', hrew⟩ := bptreeInsertIntoInternal_spec hload
    hnode.branch hroom hnode.length hle call.key hright (hc.ne_parent hp)
  have hlen' := hnode.length_insertIdx hle call.key call.right
  have hrelinked := hrew.relinked
  refine ⟨h', hrun, hrelinked.linked hc.linked ?_ ?_ ?_ ?_ ?_,
    (congrArg Supply.allocs hrew.supply).trans hc.allocs⟩
  · rintro q hq node₁ hload₁ -
    rw [List.mem_singleton.mp hq] at hload₁ ⊢
    cases hload'.symm.trans hload₁
    refine ⟨_, _, hnode'.parent.symm ▸ hnode', hlen', fun c hmem => ?_⟩
    exact (hc.other hp hnode hle hmem).imp_right (·.trans_le hrelinked.length_le)
  · rintro q hq - node₁ P hload₁ hP
    rw [List.mem_singleton.mp hq] at hload₁ ⊢
    cases hload'.symm.trans hload₁
    exact hc.keeps_parent hp hload hrelinked (fun q hq => Or.inl (List.mem_singleton.mp hq))
      hnode'.parent hP
  · intro q p' hadopted
    split_ifs at hadopted with hq
    cases hadopted
    exact hnode'.hasChild hlen' hload'
      ((hnode.mem_insertIdx hle).mpr (Or.inl (List.mem_singleton.mp hq)))
  · -- the children from before are still there
    rintro q hq c ⟨node₁, hload₁, -, hchild⟩ -
    rw [List.mem_singleton.mp hq] at hload₁ ⊢
    cases hload.symm.trans hload₁
    have hmem := (hnode.branch.hasChild_iff hnode.length).mp hchild
    exact hnode'.hasChild hlen' hload' ((hnode.mem_insertIdx hle).mpr (Or.inr hmem))
  · rintro q ⟨⟩ - -
    rw [if_pos (List.mem_singleton_self _)]
    exact Option.some_ne_none _

/-- A full parent is cut in two, and its right part is the next new node. -/
theorem Ready.splits (hc : call.Ready) (hp : call.parent = some p)
    (hload : call.heap.load p = some node) (hnode : call.heap.InnerNode p node ks cs)
    (hle : index ≤ ks.length) (hfull : ks.length = bptreeMaxKeys) :
    ∃ h' promoteKey rightParent,
      bptreeSplitInternal call.heap p index call.key call.right =
        some (h', some (promoteKey, rightParent)) ∧
      (⟨h', p, promoteKey, rightParent⟩ : ParentCall ρ).Ready := by
  obtain ⟨h', left, right, hrun, hsupply, hleft, hlnode, hright, hrnode, hparted⟩ :=
    bptreeSplitInternal_granted hload hnode.branch hfull hnode.length hle call.key
      (fun c hmem => (hc.other hp hnode hle hmem).imp_right BPTree.exists_load)
      (BPHeap.take_of_memory hc.allocs)
  have hnodes : h'.nodes.length = call.heap.nodes.length + 1 := congrArg Supply.fresh hsupply
  have hklen : (ks.insertIdx index call.key).length = 4 := by
    rw [List.length_insertIdx_of_le_length hle, hfull]
    rfl
  have hclen := hnode.length_insertIdx hle call.key call.right
  rw [hklen] at hclen
  set q := call.heap.nodes.length with hq
  set ks' := ks.insertIdx index call.key
  set cs' := cs.insertIdx (index + 1) call.right
  -- the sizes of the two halves, for the four keys the full node had with the new one
  have hllen : (cs'.take 3).length = (ks'.take 2).length + 1 := by
    rw [List.length_take, List.length_take, hklen, hclen]
    rfl
  have hrlen : (cs'.drop 3).length = (ks'.drop 3).length + 1 := by
    rw [List.length_drop, List.length_drop, hklen, hclen]
  have hrelinked := hparted.relinked (by rw [hnodes]; exact Nat.le_succ _)
  have hall : ∀ x ∈ cs', x ∈ cs'.drop 3 ∨ x ∈ cs'.take 3 := by
    intro x hx
    rw [← List.take_append_drop 3 cs', List.mem_append] at hx
    exact hx.symm
  -- the left half keeps its parent
  have hparent : ∀ P, left.parent = some P → call.heap.HasChild P p := fun P hP =>
    (hc.parent_parent hp hload (hlnode.parent ▸ hP)).1
  refine ⟨h', _, q, hrun, .of_split (hrelinked.linked hc.linked ?_ ?_ ?_ ?_ ?_) hsupply hload hleft
    hparent⟩
  · -- both halves are inner nodes with children of smaller number
    intro x hx node₁ hload₁ _
    rcases List.mem_pair.mp hx with rfl | rfl
    · cases hleft.symm.trans hload₁
      refine ⟨_, _, hlnode.parent.symm ▸ hlnode, hllen, fun c hmem => ?_⟩
      have hother := hc.other hp hnode hle (List.mem_of_mem_take hmem)
      exact hother.imp_right (·.trans_le hrelinked.length_le)
    · cases hright.symm.trans hload₁
      refine ⟨_, _, hrnode.parent.symm ▸ hrnode, hrlen, fun c hmem => ?_⟩
      have hother := hc.other hp hnode hle (List.mem_of_mem_drop hmem)
      exact ⟨hother.2.ne, hother.2.trans_le hrelinked.length_le⟩
  · -- the left half is still a child of its parent, the right half is not one yet
    intro x hx hne' node₁ P hload₁ hP
    rcases List.mem_pair.mp hx with rfl | rfl
    · cases hleft.symm.trans hload₁
      refine hc.keeps_parent hp hload hrelinked (fun y hy => ?_) hlnode.parent hP
      refine (List.mem_pair.mp hy).imp_right fun hy => ?_
      rw [hy]
      exact List.getElem?_eq_none le_rfl
    · exact absurd rfl hne'
  · -- whoever got a new parent is its child
    intro x p' hadopted
    split_ifs at hadopted with hdrop htake <;> cases hadopted
    · exact hrnode.hasChild hrlen hright hdrop
    · exact hlnode.hasChild hllen hleft htake
  · -- every child from before is in one of the parts
    rintro x hx c ⟨node₁, hload₁, -, hchild⟩ hadopted
    rcases List.mem_pair.mp hx with rfl | rfl
    · cases hload.symm.trans hload₁
      have hmem := (hnode.branch.hasChild_iff hnode.length).mp hchild
      split_ifs at hadopted with hdrop htake
      exact ((hall c ((hnode.mem_insertIdx hle).mpr (Or.inr hmem))).elim hdrop htake).elim
    · exact absurd rfl (BPHeap.ne_of_load hload₁ hq)
  · rintro x ⟨⟩ - - hadopted
    split_ifs at hadopted with hdrop htake
    exact (hall call.right ((hnode.mem_insertIdx hle).mpr (Or.inl rfl))).elim hdrop htake

end Parent

/-- **The climb** links the new nodes. -/
theorem Ready.climb {fuel : ℕ} (hc : call.Ready) {h' : BPHeap ρ} {ok : Bool}
    (hrun : bptreeInsertIntoParent fuel call.heap call.left call.key call.right = some (h', ok)) :
    h'.Linked none ∧ h'.allocs = [] := by
  induction fuel using Nat.strong_induction_on generalizing call with
  | _ fuel ih =>
    cases fuel with
    | zero => cases hrun
    | succ fuel =>
      obtain ⟨left, hleft⟩ := BPTree.exists_load hc.left
      have hparent : call.parent = left.parent := by rw [ParentCall.parent, hleft]; rfl
      rw [bptreeInsertIntoParent] at hrun
      obtain ⟨left', hleft', hrun⟩ := Option.bind_eq_some_iff.mp hrun
      cases hleft.symm.trans hleft'
      cases hp : left.parent with
      | none =>
        -- `parent == NULL`: a new root
        rw [hp] at hrun
        obtain ⟨h₁, hroot, hlinked, hallocs⟩ := hc.newRoot
        cases hroot.symm.trans hrun
        exact ⟨hlinked, hallocs⟩
      | some p =>
        rw [hp] at hrun hparent
        obtain ⟨node, ks, cs, index, hload, hnode, -, hscan, hle, -⟩ := hc.exists_index hparent
        obtain ⟨node', hload', hrun⟩ := Option.bind_eq_some_iff.mp hrun
        cases hload.symm.trans hload'
        obtain ⟨index', hscan', hrun⟩ := Option.bind_eq_some_iff.mp hrun
        cases hscan.symm.trans hscan'
        split_ifs at hrun with hroom
        · rw [hnode.branch.numKeys] at hroom
          obtain ⟨h₁, hfits, hlinked, hallocs⟩ := hc.fits hparent hload hnode hle hroom
          rw [hfits] at hrun
          cases hrun
          exact ⟨hlinked, hallocs⟩
        · obtain ⟨h₁, promoteKey, rightParent, hsplit, hready⟩ :=
            hc.splits hparent hload hnode hle (hnode.branch.length_of_full hroom)
          -- the next call is for the parts of the parent
          cases fuel with
          | zero => cases hrun
          | succ fuel =>
            rw [bptreeSplitInternalAndInsert] at hrun
            obtain ⟨split, hsplit', hrun⟩ := Option.bind_eq_some_iff.mp hrun
            cases hsplit.symm.trans hsplit'
            exact ih fuel (by omega) hready hrun

end ParentCall

/-! ### Insertions -/

section Leaves

variable {h h' : BPHeap ρ} {p q : NodeRef} {node node' : BPTreeNode ρ}

/-- Another leaf in the place of a leaf. -/
theorem BPTree.Linked.put_leaf (hl : h.Linked none) (hp : h.load p = some node)
    (hleaf : node.isLeaf = true) (hleaf' : node'.isLeaf = true)
    (hpar : node'.parent = node.parent) : (h.put p node').Linked none := by
  have hload := BPHeap.load_put hp node'
  have hrelinked : h.Relinked (h.put p node').toBPTree [p] fun _ => none :=
    .of_load (BPHeap.put_length h p node').ge fun q hq => by
      rw [hload q, if_neg (List.ne_of_not_mem_cons hq)]
  refine hrelinked.linked_of_leaves hl ?_ ?_ ?_
  · intro q hq node₁ hload₁
    rw [List.mem_singleton.mp hq] at hload₁
    cases hp.symm.trans hload₁
    exact hleaf
  · intro q hq node₁ hload₁
    rw [hload q, if_pos (List.mem_singleton.mp hq)] at hload₁
    cases hload₁
    exact hleaf'
  · rintro q hq - node₁ P hload₁ hP
    rw [List.mem_singleton.mp hq] at hload₁ ⊢
    rw [hload p, if_pos rfl] at hload₁
    cases hload₁
    exact hl.parent p node P hp nofun (hpar ▸ hP)

/-- A full leaf is cut in two, and its right part is the first new node. -/
theorem BPTree.Linked.splitLeaf (hl : h.Linked none) (hallocs : h.allocs = [])
    (hp : h.load p = some node) {es : List (ℤ × Option ρ)} {parent : Option NodeRef}
    (hnode : node.IsLeafOf es parent) (hes : es.length = bptreeMaxKeys) (x : ℤ × Option ρ) :
    ∃ h' separator right, bptreeSplitLeaf h p x.1 x.2 = some (h', some (separator, right)) ∧
      (⟨h', p, separator, right⟩ : ParentCall ρ).Ready := by
  obtain ⟨h', hsplit, -, hsupply, ⟨left, hleft, hlnode⟩, ⟨right, hright, hrnode⟩, hload⟩ :=
    bptreeSplitLeaf_granted hp hnode hes x (BPHeap.take_of_memory hallocs)
  have hnodes : h'.nodes.length = h.nodes.length + 1 := congrArg Supply.fresh hsupply
  set q := h.nodes.length with hq
  have hrelinked : h.Relinked h'.toBPTree [p, q] fun _ => none := by
    refine .of_load (by rw [hnodes]; exact Nat.le_succ _) fun x hx => ?_
    rw [List.mem_pair, not_or] at hx
    exact hload x hx.1 hx.2
  have hparent : ∀ P, left.parent = some P → h.HasChild P p := fun P hP =>
    hl.parent p node P hp nofun (hnode.parent.trans (hlnode.parent.symm.trans hP))
  refine ⟨h', _, q, hsplit, .of_split (hrelinked.linked_of_leaves hl ?_ ?_ ?_) hsupply hp hleft
    hparent⟩
  · intro x hx node₁ hload₁
    rcases List.mem_pair.mp hx with rfl | rfl
    · cases hp.symm.trans hload₁
      exact hnode.isLeaf
    · exact absurd rfl (BPHeap.ne_of_load hload₁ hq)
  · intro x hx node₁ hload₁
    rcases List.mem_pair.mp hx with rfl | rfl
    · cases hleft.symm.trans hload₁
      exact hlnode.isLeaf
    · cases hright.symm.trans hload₁
      exact hrnode.isLeaf
  · intro x hx hne node₁ P hload₁ hP
    rcases List.mem_pair.mp hx with rfl | rfl
    · cases hleft.symm.trans hload₁
      exact hparent P hP
    · exact absurd rfl hne

/-- A new leaf has no parent. -/
theorem BPTree.Linked.createNode (hl : h.Linked none) (hallocs : h.allocs = []) :
    ∃ q h', bptreeCreateNode h true = (some q, h') ∧ h'.load q = some (.zeroed true) ∧
      h'.Linked none := by
  obtain ⟨h', hcreate, hq, -, hsupply, hnew, hload⟩ :=
    bptreeCreateNode_granted (BPHeap.take_of_memory hallocs) true
  have hnodes : h'.nodes.length = h.nodes.length + 1 := congrArg Supply.fresh hsupply
  have hrelinked : h.Relinked h'.toBPTree [h.nodes.length] fun _ => none :=
    .of_load (by rw [hnodes]; exact Nat.le_succ _) fun x hx =>
      hload x (List.ne_of_not_mem_cons hx)
  refine ⟨_, h', hcreate, hnew, hrelinked.linked_of_leaves hl ?_ ?_ ?_⟩
  · intro x hx node₁ hload₁
    exact absurd (List.mem_singleton.mp hx) (BPHeap.ne_of_load hload₁ hq)
  · intro x hx node₁ hload₁
    rw [List.mem_singleton.mp hx] at hload₁
    cases hnew.symm.trans hload₁
    rfl
  · rintro x hx - node₁ P hload₁ hP
    rw [List.mem_singleton.mp hx] at hload₁
    cases hnew.symm.trans hload₁
    cases hP

end Leaves

/-- The leaf that the descent finds is where the insertion goes on. -/
theorem bptreeInsert_eq_at {h : BPHeap ρ} {key : ℤ} {leaf : NodeRef}
    (hfound : bptreeFindLeaf h.toBPTree key = some (some leaf)) (value : Option ρ) :
    bptreeInsert h key value = bptreeInsertAt (2 * h.nodes.length + 3) h leaf key value := by
  unfold bptreeFindLeaf at hfound
  unfold bptreeInsert
  cases hroot : h.root with
  | none =>
    rw [hroot] at hfound
    cases hfound
  | some root =>
    rw [hroot] at hfound
    obtain ⟨leaf', hfind, hleaf⟩ := Option.map_eq_some_iff.mp hfound
    cases hleaf
    exact bind_eq_of_eq_some hfind rfl

section Insert

variable {h h' : BPHeap ρ} {m : List (ℤ × Option ρ)} {x : ℤ × Option ρ} {ok : Bool}

/-- One insertion keeps the parent pointers. -/
theorem BPTree.Linked.insert (hl : h.Linked none) (hm : h.toBPTree.Holds m)
    (hallocs : h.allocs = []) (hrun : bptreeInsert h x.1 x.2 = some (h', ok)) :
    h'.Linked none := by
  cases hm with
  | empty hroot =>
    -- the first leaf is the root
    obtain ⟨q, h₁, hcreate, hnew, hl₁⟩ := hl.createNode hallocs
    rw [bptreeInsert, hroot] at hrun
    dsimp only at hrun
    rw [hcreate] at hrun
    obtain ⟨h₂, hmodify, hrun⟩ := Option.bind_eq_some_iff.mp hrun
    cases hrun
    obtain ⟨node, hload, hmodify⟩ := Option.bind_eq_some_iff.mp hmodify
    cases hnew.symm.trans hload
    obtain ⟨node', hnode', hstore⟩ := Option.bind_eq_some_iff.mp hmodify
    obtain ⟨keys, -, hnode'⟩ := Option.bind_eq_some_iff.mp hnode'
    obtain ⟨values, -, hnode'⟩ := Option.bind_eq_some_iff.mp hnode'
    cases hnode'
    rw [BPHeap.store, if_pos (BPHeap.lt_of_load hnew)] at hstore
    cases hstore
    let node : BPTreeNode ρ :=
      { (BPTreeNode.zeroed true : BPTreeNode ρ) with keys := keys, values := values, numKeys := 1 }
    have hput : (h₁.put q node).Linked none := hl₁.put_leaf hnew rfl rfl rfl
    exact hput.of_nodes rfl
  | @tree tree lays =>
    obtain ⟨l, node, parent, hfound, hload, hnode, -, -, -⟩ := lays.findLeaf x.1
    rw [bptreeInsert_eq_at hfound] at hrun
    obtain ⟨node', hload', hrun⟩ := Option.bind_eq_some_iff.mp hrun
    cases hload.symm.trans hload'
    obtain ⟨index, -, hrun⟩ := Option.bind_eq_some_iff.mp hrun
    split_ifs at hrun with hdup hroom
    · -- the key is there already
      cases hrun
      exact hl
    · -- the leaf has room
      obtain ⟨node', hins, hnode', -⟩ :=
        bptreeInsertIntoLeaf_spec hnode (by rw [← hnode.numKeys]; exact hroom) x.1 x.2
      have hmodify : (h.modify l.label fun node => bptreeInsertIntoLeaf node x.1 x.2) =
          some (h.put l.label node') := BPHeap.modify_eq hload hins
      obtain ⟨h₁, hmodify', hrun⟩ := Option.bind_eq_some_iff.mp hrun
      cases hmodify.symm.trans hmodify'
      cases hrun
      exact hl.put_leaf hload hnode.isLeaf hnode'.isLeaf (hnode'.parent.trans hnode.parent.symm)
    · -- the leaf is cut, and its right part goes up
      obtain ⟨h₁, separator, right, hsplit, hready⟩ :=
        hl.splitLeaf hallocs hload hnode (hnode.length_of_full hroom) x
      rw [bptreeSplitLeafAndInsert_eq, hsplit] at hrun
      exact (hready.climb hrun).1

/-- What holds in every call of `bptree_insert_into_parent`. -/
theorem ParentCalls.ready (hl : h.Linked none) (hm : h.toBPTree.Holds m) (hallocs : h.allocs = [])
    {call : ParentCall ρ} (hcall : ParentCalls h x.1 x.2 call) : call.Ready := by
  induction hcall with
  | @leaf leaf node h' separator right found load absent full split =>
    cases hm with
    | empty hroot =>
      rw [bptreeFindLeaf, hroot] at found
      cases found
    | @tree tree lays =>
      obtain ⟨l, node', parent, hfound, hload, hnode, -⟩ := lays.findLeaf x.1
      cases hfound.symm.trans found
      cases hload.symm.trans load
      obtain ⟨h₁, separator', right', hsplit, hready⟩ :=
        hl.splitLeaf hallocs hload hnode (hnode.length_of_full full) x
      cases hsplit.symm.trans split
      exact hready
  | @internal call parent node index h' promoteKey rightParent called parent_eq load scan full split
      ih =>
    obtain ⟨node', ks, cs, index', hload, hnode, -, hscan, hle, -⟩ := ih.exists_index parent_eq
    cases hload.symm.trans load
    cases hscan.symm.trans scan
    obtain ⟨h₁, promoteKey', rightParent', hsplit, hready⟩ :=
      ih.splits parent_eq hload hnode hle (hnode.branch.length_of_full full)
    cases hsplit.symm.trans split
    exact hready

/-- Each of these calls is made: what it returns is what the insertion returns. -/
theorem ParentCalls.run {res : BPHeap ρ × Bool} (hrun : bptreeInsert h x.1 x.2 = some res)
    {call : ParentCall ρ} (hcall : ParentCalls h x.1 x.2 call) :
    ∃ fuel, bptreeInsertIntoParent fuel call.heap call.left call.key call.right = some res := by
  induction hcall with
  | @leaf leaf node h' separator right found load absent full split =>
    -- the first call comes from the cut of a leaf
    rw [bptreeInsert_eq_at found] at hrun
    obtain ⟨node', hload', hrun⟩ := Option.bind_eq_some_iff.mp hrun
    cases load.symm.trans hload'
    obtain ⟨index, hindex, hrun⟩ := Option.bind_eq_some_iff.mp hrun
    cases absent.symm.trans hindex
    rw [if_neg (lt_irrefl _), if_neg full, bptreeSplitLeafAndInsert_eq, split] at hrun
    exact ⟨_, hrun⟩
  | @internal call parent node index h' promoteKey rightParent called parent_eq load scan full split
      ih =>
    -- the others come from the cut of an inner node, with less fuel
    obtain ⟨fuel, hparent⟩ := ih
    obtain ⟨left, hleft, hpar⟩ := Option.bind_eq_some_iff.mp parent_eq
    cases fuel with
    | zero => cases hparent
    | succ fuel =>
      rw [bptreeInsertIntoParent] at hparent
      obtain ⟨left', hleft', hparent⟩ := Option.bind_eq_some_iff.mp hparent
      cases hleft.symm.trans hleft'
      rw [hpar] at hparent
      obtain ⟨node', hload', hparent⟩ := Option.bind_eq_some_iff.mp hparent
      cases load.symm.trans hload'
      obtain ⟨index', hindex', hparent⟩ := Option.bind_eq_some_iff.mp hparent
      cases scan.symm.trans hindex'
      rw [if_neg full] at hparent
      cases fuel with
      | zero => cases hparent
      | succ fuel =>
        rw [bptreeSplitInternalAndInsert] at hparent
        obtain ⟨split', hsplit', hparent⟩ := Option.bind_eq_some_iff.mp hparent
        cases split.symm.trans hsplit'
        exact ⟨fuel, hparent⟩

end Insert

/-- Any sequence of insertions keeps the parent pointers. -/
theorem BPTree.Linked.insertAll (xs : List (ℤ × Option ρ)) {h : BPHeap ρ}
    {m : List (ℤ × Option ρ)} (hl : h.Linked none) (hm : h.toBPTree.Holds m)
    (hallocs : h.allocs = []) :
    ∃ h' oks m', bptreeInsertAll h xs = some (h', oks) ∧ h'.Linked none ∧
      h'.toBPTree.Holds m' ∧ h'.allocs = [] := by
  induction xs generalizing h m with
  | nil => exact ⟨h, [], m, rfl, hl, hm, hallocs⟩
  | cons x xs ih =>
    obtain ⟨h₁, hrun, hallocs₁, hm₁⟩ := bptreeInsert_of_memory hm hallocs x
    obtain ⟨h', oks, m', hrun', hrest⟩ := ih (hl.insert hm hallocs hrun) hm₁ hallocs₁
    exact ⟨h', _ :: oks, m', bind_eq_of_eq_some hrun (bind_eq_of_eq_some hrun' rfl), hrest⟩

/-- **An insertion stays inside its arrays and ends**, behind any sequence of insertions: no access
fails and no loop goes on, and every call of `bptree_insert_into_parent` on the way returns and
finds the left node among the children of its parent. -/
theorem bptreeInsertAll_safe (xs : List (ℤ × Option ρ)) (x : ℤ × Option ρ) :
    ∃ h oks res, bptreeInsertAll (bptreeStart ρ []) xs = some (h, oks) ∧
      bptreeInsert h x.1 x.2 = some res ∧
      ∀ call, ParentCalls h x.1 x.2 call → call.FindsLeft ∧
        ∃ fuel, bptreeInsertIntoParent fuel call.heap call.left call.key call.right = some res := by
  have hstart : (bptreeStart ρ []).Linked none := BPTree.linked_create
  obtain ⟨h, oks, m, hrun, hl, hm, hallocs⟩ := hstart.insertAll xs bptreeCreate_holds rfl
  obtain ⟨h', hinsert, -⟩ := bptreeInsert_of_memory hm hallocs x
  refine ⟨h, oks, _, hrun, hinsert, fun call hcall => ⟨?_, hcall.run hinsert⟩⟩
  exact (hcall.ready hl hm hallocs).findsLeft

/-- The fourth key cuts the first leaf. -/
example : ∃ h oks call,
    bptreeInsertAll (bptreeStart ℕ []) [(1, none), (2, none), (3, none)] = some (h, oks) ∧
      ParentCalls h 4 none call :=
  ⟨_, _, _, rfl, .leaf rfl rfl rfl (lt_irrefl _) rfl⟩

end MiniDbms
