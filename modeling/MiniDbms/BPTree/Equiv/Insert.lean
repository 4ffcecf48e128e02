import MiniDbms.BPTree.Equiv.Steps

/-!
# Insertion into the index is insertion into a B+ tree

The code goes down to a leaf and, when nodes are cut, climbs back along the parent pointers, while
`Tree.insert` works on the way back from a recursion.  `insert_realizes` joins the two: started at
the leaf below a node, the code does what `Tree.insert` does to that node, and where the node was
cut in two the code goes on with `bptreeInsertIntoParent` on its parts.
-/

namespace MiniDbms

open SortedAssoc CArray BPlus

variable {ρ : Type}

/-- Outside the nodes in `S` nothing changed, and `s` is what is left of the supply. -/
structure Below (h h' : BPHeap ρ) (S : List ℕ) (s : Supply) : Prop where
  root : h'.root = h.root
  supply : h'.supply = s
  load : ∀ q ∉ S, q < h.nodes.length → h'.load q = h.load q

theorem Below.mono {h h' : BPHeap ρ} {S S' : List ℕ} {s : Supply} (hb : Below h h' S s)
    (hS : ∀ q ∈ S, q ∈ S') : Below h h' S' s :=
  ⟨hb.root, hb.supply, fun q hq => hb.load q fun hmem => hq (hS q hmem)⟩

/-- What the code makes of an insertion below a node with this outcome.  `res` is its result; where
the node was cut in two it still has to go up, for which it has `fuel`. -/
def Realizes (fuel : ℕ) (h : BPHeap ρ) {n : ℕ} (t : Tree ℤ (Option ρ) n) (parent : Option NodeRef)
    (res : Option (BPHeap ρ × Bool)) : Outcome ℤ (Tree ℤ (Option ρ) n) × Supply → Prop
  | (.duplicate, s) => res = some (h, false) ∧ s = h.supply
  | (.refused, s) => ∃ h', res = some (h', false) ∧ h'.toBPTree = h.toBPTree ∧ h'.supply = s
  | (.fits t', s) =>
    ∃ h', res = some (h', true) ∧ Repr h'.toBPTree t' parent ∧ Below h h' t.labels s
  | (.truncated t', s) =>
    ∃ h', res = some (h', false) ∧ Repr h'.toBPTree t' parent ∧ Below h h' t.labels s
  | (.splits l k r, s) => ∃ h', res = bptreeInsertIntoParent fuel h' l.label k r.label ∧
      Repr h'.toBPTree l parent ∧ Repr h'.toBPTree r parent ∧ Below h h' t.labels s

/-! ### Leaves -/

/-- The descent ends at a leaf, whatever fuel is left. -/
theorem bptreeFindLeafFrom_leaf {t : BPTree ρ} {l : Leaf ℤ (Option ρ)} {parent : Option NodeRef}
    (h : Repr t (n := 0) l parent) (key : ℤ) (e : ℕ) :
    bptreeFindLeafFrom t key (e + 1) l.label = some l.label := by
  obtain ⟨node, hl, hnode⟩ := h
  exact bind_eq_of_eq_some hl (if_pos hnode.isLeaf)

/-- Insertion at a leaf. -/
theorem leaf_realizes (fuel : ℕ) {h : BPHeap ρ} {l : Leaf ℤ (Option ρ)} {parent : Option NodeRef}
    (hr : Repr h.toBPTree (n := 0) l parent) (hfull : l.entries.length < bptreeOrder)
    (x : ℤ × Option ρ) :
    Realizes fuel h (n := 0) l parent (bptreeInsertAt fuel h l.label x.1 x.2)
      (l.insert bptreeOrder x h.supply) := by
  obtain ⟨node, hl, hnode⟩ := repr_leaf.mp hr
  have hlk : (SortedAssoc.keys l.entries).length = l.entries.length := List.length_map _
  have hscan := scan_read hnode.keys (· ≠ x.1)
  rw [hlk, ← hnode.numKeys] at hscan
  -- the three ways the code goes on after its search for the key
  have hat : bptreeInsertAt fuel h l.label x.1 x.2 =
      if x.1 ∈ SortedAssoc.keys l.entries then some (h, false)
      else if l.entries.length < bptreeMaxKeys then
        (h.modify l.label fun node => bptreeInsertIntoLeaf node x.1 x.2).map fun h => (h, true)
      else bptreeSplitLeafAndInsert fuel h l.label x.1 x.2 := by
    refine bind_eq_of_eq_some hl (bind_eq_of_eq_some hscan ?_)
    rw [hnode.numKeys, ← hlk]
    simp only [length_takeWhile_ne_lt_iff, Option.map_eq_bind]
    rfl
  have hmax : bptreeMaxKeys + 1 = bptreeOrder := rfl
  rw [hat]
  unfold Leaf.insert
  split_ifs with hdup hroom hroom'
  · -- the key is there, and nothing changes
    exact ⟨rfl, rfl⟩
  · -- there is room in the leaf
    obtain ⟨node', hins, hnode', -⟩ := bptreeInsertIntoLeaf_spec hnode hroom x.1 x.2
    rw [BPHeap.modify_eq hl hins, Option.map_some]
    have hput := BPHeap.load_put hl node'
    refine ⟨_, rfl, ⟨node', by rw [hput]; exact if_pos rfl, hnode'⟩, rfl, by simp,
      fun q hq _ => ?_⟩
    rw [hput, if_neg fun h0 => hq (by rw [h0]; exact List.mem_singleton_self _)]
  · omega
  · omega
  · -- the leaf is full: it is cut if memory allows
    have hes : l.entries.length = bptreeMaxKeys := by omega
    rw [bptreeSplitLeafAndInsert_eq]
    rcases hs : h.supply.take with ⟨_ | q, s⟩
    · obtain ⟨h', hsplit, ht, hs'⟩ := bptreeSplitLeaf_refused hl hnode x hs
      exact ⟨h', bind_eq_of_eq_some hsplit rfl, ht, hs'⟩
    · obtain ⟨h', hsplit, hroot, hs', hleft, hright, hload⟩ :=
        bptreeSplitLeaf_granted hl hnode hes x hs
      obtain ⟨h₁, -, hq, -⟩ := bptreeCreateNode_granted hs true
      refine ⟨h', bind_eq_of_eq_some hsplit rfl, hleft, hright, hroot, hs', fun c hc hlt =>
        hload c (fun h0 => hc (by rw [h0]; exact List.mem_singleton_self _)) ?_⟩
      rw [hq]
      exact hlt.ne

/-! ### Inner nodes -/

section Branch

variable {n : ℕ} {b : Branch ℤ (Tree ℤ (Option ρ) n)} {x : ℤ × Option ρ}
  {A C : List (Tree ℤ (Option ρ) n)} {c : Tree ℤ (Option ρ) n} {h : BPHeap ρ}
  {parent : Option NodeRef}

/-- The descent goes on at the routed child. -/
theorem bptreeFindLeafFrom_branch (hr : Repr h.toBPTree (n := n + 1) b parent)
    (hrt : Tree.Routed b x.1 A c C) (e : ℕ) :
    bptreeFindLeafFrom h.toBPTree x.1 (e + 1) b.label =
      bptreeFindLeafFrom h.toBPTree x.1 e c.label := by
  obtain ⟨⟨node, hl, hnode⟩, -⟩ := repr_branch.mp hr
  have hscan := scan_read hnode.keys (· ≤ x.1)
  rw [← hnode.numKeys] at hscan
  have hchild : node.children.read (route b.keys x.1) = some (some c.label) := by
    refine hnode.children _ _ ?_
    rw [List.getElem?_map, List.getElem?_map, hrt.getElem?]
    rfl
  refine bind_eq_of_eq_some hl ?_
  rw [hnode.isLeaf]
  exact bind_eq_of_eq_some hscan (bind_eq_of_eq_some hchild rfl)

theorem mem_labels_of_mem_children {d : Tree ℤ (Option ρ) n} (hd : d ∈ b.children) {q : ℕ}
    (hq : q ∈ d.labels) : q ∈ Tree.labels (n := n + 1) b :=
  List.mem_cons_of_mem _ (List.mem_flatMap.mpr ⟨d, hd, hq⟩)

/-- The siblings of the routed child, after a change below that child. -/
theorem repr_siblings (hr : Repr h.toBPTree (n := n + 1) b parent)
    (hrt : Tree.Routed b x.1 A c C) (hnd : (Tree.labels (n := n + 1) b).Nodup) {h' : BPHeap ρ}
    {s : Supply} (hbelow : Below h h' c.labels s) :
    ∀ d ∈ A ++ C, Repr h'.toBPTree d (some b.label) := by
  obtain ⟨-, hcs⟩ := repr_branch.mp hr
  rw [hrt.children_eq] at hcs
  have hnd' := (List.nodup_cons.mp hnd).2
  rw [show Branch.children b = A ++ c :: C from hrt.children_eq, List.flatMap_append,
    List.flatMap_cons] at hnd'
  intro d hd
  have hmem : d ∈ A ++ c :: C := by
    rcases List.mem_append.mp hd with hd | hd <;> simp [hd]
  refine (hcs d hmem).congr fun q hq => hbelow.load q (fun hqc => ?_) ((hcs d hmem).lt_length q hq)
  -- a label below a sibling does not occur below the routed child
  obtain ⟨-, hright, hcross⟩ := List.nodup_append.mp hnd'
  rcases List.mem_append.mp hd with hd | hd
  · exact hcross q (List.mem_flatMap.mpr ⟨d, hd, hq⟩) q (List.mem_append_left _ hqc) rfl
  · exact (List.nodup_append.mp hright).2.2 q hqc q (List.mem_flatMap.mpr ⟨d, hd, hq⟩) rfl

/-- The label of a branch does not occur below its children. -/
theorem label_notMem_child (hrt : Tree.Routed b x.1 A c C)
    (hnd : (Tree.labels (n := n + 1) b).Nodup) : b.label ∉ c.labels := fun hmem =>
  (List.nodup_cons.mp hnd).1 (List.mem_flatMap.mpr ⟨c, hrt.mem, hmem⟩)

/-- A branch with another tree in the place of the routed child. -/
theorem repr_replace (hr : Repr h.toBPTree (n := n + 1) b parent) (hrt : Tree.Routed b x.1 A c C)
    (hnd : (Tree.labels (n := n + 1) b).Nodup) {h' : BPHeap ρ} {s : Supply}
    (hbelow : Below h h' c.labels s) {c' : Tree ℤ (Option ρ) n}
    (hc' : Repr h'.toBPTree c' (some b.label)) (hlabel : c'.label = c.label) :
    Repr h'.toBPTree (n := n + 1) (b.replace (route b.keys x.1) c') parent ∧
      Below h h' (Tree.labels (n := n + 1) b) s := by
  obtain ⟨⟨node, hl, hnode⟩, -⟩ := repr_branch.mp hr
  refine ⟨⟨⟨node, ?_, ?_⟩, ?_⟩, hbelow.mono fun q hq => mem_labels_of_mem_children hrt.mem hq⟩
  · rw [← hl]
    exact hbelow.load b.label (label_notMem_child hrt hnd) (BPHeap.lt_of_load hl)
  · rw [hrt.children_eq] at hnode
    rw [hrt.replace_children, Branch.replace]
    simpa [hlabel] using hnode
  · rw [hrt.replace_children]
    have hsib := repr_siblings hr hrt hnd hbelow
    intro d hd
    rcases List.mem_append.mp hd with hd | hd
    · exact hsib d (List.mem_append_left _ hd)
    · rcases List.mem_cons.mp hd with rfl | hd
      · exact hc'
      · exact hsib d (List.mem_append_right _ hd)

/-- The scan for the child that was cut. -/
theorem scan_child {m : ℕ} {children : CArray (Option NodeRef) m} {A C : List NodeRef}
    {left : NodeRef} (hch : children.Holds ((A ++ left :: C).map some)) (hnot : left ∉ A) :
    scanUp (fun index => (children.read index).map (· ≠ some left)) 0 (A ++ left :: C).length =
      some A.length := by
  have htake : ((A ++ left :: C).map some).takeWhile (fun c => decide (c ≠ some left)) =
      A.map some := by
    rw [List.map_append, List.takeWhile_append_of_pos, List.map_cons, List.takeWhile_cons]
    · simp
    · intro c hc
      obtain ⟨a, ha, rfl⟩ := List.mem_map.mp hc
      have hne : a ≠ left := fun h0 => hnot (h0 ▸ ha)
      simpa using hne
  have hscan : scanUp (fun index => (children.read index).map (· ≠ some left)) 0
      ((A ++ left :: C).map some).length = _ :=
    scanUp_eq (fun c => decide (c ≠ some left)) _ 0 fun i c hc => by
      rw [Nat.zero_add, hch i c hc, Option.map_some]
  rwa [htake, List.length_map, List.length_map, Nat.zero_add] at hscan

/-- Subtrees that keep their parent when it takes over one of them again. -/
theorem Rewired.repr_same {h h' : BPHeap ρ} {p : NodeRef} {cs : List NodeRef}
    (hw : Rewired h h' p cs) {t : Tree ℤ (Option ρ) n} (hr : Repr h.toBPTree t (some p))
    (hnd : t.labels.Nodup) (hp : p ∉ t.labels)
    (hcs : ∀ q ∈ cs, q ∈ t.labels → q = t.label) : Repr h'.toBPTree t (some p) := by
  by_cases htop : t.label ∈ cs
  · exact hw.repr_of_mem hr hnd hp htop hcs
  · refine hw.repr_of_notMem hr hp fun q hq hmem => htop ?_
    rwa [← hcs q hq hmem]

/-- Subtrees after their parent was cut in two. -/
theorem Parted.repr {h h' : BPHeap ρ} {p q : NodeRef} {L R : List (Tree ℤ (Option ρ) n)}
    (hw : Parted h h' p q (L.map Tree.label) (R.map Tree.label)) {old : Option NodeRef}
    (hr : ∀ t ∈ L ++ R, Repr h.toBPTree t old) (hnd : ((L ++ R).flatMap Tree.labels).Nodup)
    (hp : p ∉ (L ++ R).flatMap Tree.labels) (hq : q ∉ (L ++ R).flatMap Tree.labels) :
    (∀ t ∈ L, Repr h'.toBPTree t (some p)) ∧ ∀ t ∈ R, Repr h'.toBPTree t (some q) := by
  have hne : ∀ t ∈ L ++ R, ∀ x ∈ t.labels, x ≠ p ∧ x ≠ q := fun t ht x hx =>
    ⟨fun h0 => hp (h0 ▸ List.mem_flatMap.mpr ⟨t, ht, hx⟩),
      fun h0 => hq (h0 ▸ List.mem_flatMap.mpr ⟨t, ht, hx⟩)⟩
  have hroot : ∀ t ∈ L ++ R, ∀ x ∈ t.labels, x ∈ L.map Tree.label ∨ x ∈ R.map Tree.label →
      x = t.label := fun t ht x hx hmem => by
    refine label_eq_of_mem_labels hnd ht ?_ hx
    rwa [List.map_append, List.mem_append]
  have hrest : ∀ t ∈ L ++ R, ∀ x ∈ t.labels, x ≠ t.label → h'.load x = h.load x :=
    fun t ht x hx hxt => by
      have hl : x ∉ L.map Tree.label := fun hmem => hxt (hroot t ht x hx (.inl hmem))
      have hr : x ∉ R.map Tree.label := fun hmem => hxt (hroot t ht x hx (.inr hmem))
      rw [hw.load x (hne t ht x hx).1 (hne t ht x hx).2]
      simp [hl, hr]
  have hndt : ∀ t ∈ L ++ R, t.labels.Nodup := fun t ht => (List.nodup_flatMap.mp hnd).1 t ht
  refine ⟨fun t ht => ?_, fun t ht => ?_⟩
  · have ht' := List.mem_append_left R ht
    refine (hr t ht').setParent (hndt t ht') ?_ (hrest t ht')
    have hR : t.label ∉ R.map Tree.label := fun hmem => by
      obtain ⟨t', ht'', heq⟩ := List.mem_map.mp hmem
      rw [List.flatMap_append] at hnd
      exact (List.nodup_append.mp hnd).2.2 t.label
        (List.mem_flatMap.mpr ⟨t, ht, t.label_mem_labels⟩) t.label
        (List.mem_flatMap.mpr ⟨t', ht'', heq ▸ t'.label_mem_labels⟩) rfl
    rw [hw.load _ (hne t ht' _ t.label_mem_labels).1 (hne t ht' _ t.label_mem_labels).2]
    simp only [if_neg hR, if_pos (List.mem_map_of_mem (f := Tree.label) ht)]
  · have ht' := List.mem_append_right L ht
    refine (hr t ht').setParent (hndt t ht') ?_ (hrest t ht')
    rw [hw.load _ (hne t ht' _ t.label_mem_labels).1 (hne t ht' _ t.label_mem_labels).2]
    simp only [if_pos (List.mem_map_of_mem (f := Tree.label) ht)]

/-- The state in which a parent has to take over its `i`-th child, which was cut into `l` and `r`:
the parent still names `l` only. -/
structure Pending (h : BPHeap ρ) (b : Branch ℤ (Tree ℤ (Option ρ) n)) (i : ℕ)
    (l : Tree ℤ (Option ρ) n) (k : ℤ) (r : Tree ℤ (Option ρ) n) (parent : Option NodeRef) :
    Prop where
  node : ∃ node, h.load b.label = some node ∧
    node.IsBranchOf b.keys ((b.replace i l).children.map Tree.label) parent
  split : ∃ A C, (b.replace i l).children = A ++ l :: C ∧
    (b.widen i l k r).children = A ++ l :: r :: C ∧ A.length = i
  length : b.children.length = b.keys.length + 1
  le : i ≤ b.keys.length
  repr : ∀ d ∈ (b.widen i l k r).children, Repr h.toBPTree d (some b.label)
  nodup : (Tree.labels (n := n + 1) (b.widen i l k r)).Nodup

namespace Pending

variable {i : ℕ} {l r : Tree ℤ (Option ρ) n} {k : ℤ}

theorem mem_right (hw : Pending h b i l k r parent) : r ∈ (b.widen i l k r).children := by
  obtain ⟨A, C, -, h2, -⟩ := hw.split
  rw [h2]
  simp

theorem mem_left (hw : Pending h b i l k r parent) : l ∈ (b.widen i l k r).children := by
  obtain ⟨A, C, -, h2, -⟩ := hw.split
  rw [h2]
  simp

theorem label_ne (hw : Pending h b i l k r parent) {d : Tree ℤ (Option ρ) n}
    (hd : d ∈ (b.widen i l k r).children) {q : ℕ} (hq : q ∈ d.labels) : q ≠ b.label := fun h0 =>
  (List.nodup_cons.mp hw.nodup).1 (List.mem_flatMap.mpr ⟨d, hd, h0 ▸ hq⟩)

theorem length_labels (hw : Pending h b i l k r parent) :
    ((b.replace i l).children.map Tree.label).length = b.keys.length + 1 := by
  rw [List.length_map, Branch.replace, List.length_set, hw.length]

theorem labels_widen (b : Branch ℤ (Tree ℤ (Option ρ) n)) (i : ℕ) (l : Tree ℤ (Option ρ) n) (k : ℤ)
    (r : Tree ℤ (Option ρ) n) :
    ((b.replace i l).children.map Tree.label).insertIdx (i + 1) r.label =
      (b.widen i l k r).children.map Tree.label :=
  (List.map_insertIdx _ _ _ _).symm

/-- The climb finds the parent and the place of the child in it. -/
theorem insertIntoParent_eq (hw : Pending h b i l k r parent) (fuel : ℕ) :
    bptreeInsertIntoParent (fuel + 1) h l.label k r.label =
      if b.keys.length < bptreeMaxKeys then
        (bptreeInsertIntoInternal h b.label i k r.label).map fun h => (h, true)
      else bptreeSplitInternalAndInsert fuel h b.label i k r.label := by
  obtain ⟨node, hp, hnode⟩ := hw.node
  obtain ⟨A, C, hrep, hwide, hA⟩ := hw.split
  obtain ⟨lnode, hl, hlpar⟩ := (hw.repr l hw.mem_left).load_label
  have hscan : scanUp (fun index => (node.children.read index).map (· ≠ some l.label)) 0
      (node.numKeys + 1) = some i := by
    have hnot : l.label ∉ A.map Tree.label := fun hmem => by
      obtain ⟨d, hd, heq⟩ := List.mem_map.mp hmem
      have hnd := (List.nodup_cons.mp hw.nodup).2
      rw [show Branch.children (b.widen i l k r) = A ++ l :: r :: C from hwide,
        List.flatMap_append] at hnd
      exact (List.nodup_append.mp hnd).2.2 l.label
        (List.mem_flatMap.mpr ⟨d, hd, heq ▸ d.label_mem_labels⟩) l.label
        (List.mem_flatMap.mpr ⟨l, List.mem_cons_self, l.label_mem_labels⟩) rfl
    have hlen := hw.length_labels
    have hholds := hnode.children
    rw [hrep, List.map_append, List.map_cons] at hlen hholds
    rw [hnode.numKeys, ← hlen, scan_child hholds hnot, List.length_map, hA]
  rw [bptreeInsertIntoParent]
  refine bind_eq_of_eq_some hl ?_
  rw [hlpar]
  refine bind_eq_of_eq_some hp (bind_eq_of_eq_some hscan ?_)
  rw [hnode.numKeys]

/-- A parent with room. -/
theorem fits (hw : Pending h b i l k r parent) (hroom : b.keys.length < bptreeMaxKeys) :
    ∃ h', bptreeInsertIntoInternal h b.label i k r.label = some h' ∧
      Repr h'.toBPTree (n := n + 1) (b.widen i l k r) parent ∧ h'.root = h.root ∧
      h'.supply = h.supply ∧
      ∀ q ∉ Tree.labels (n := n + 1) (b.widen i l k r), h'.load q = h.load q := by
  obtain ⟨node, hp, hnode⟩ := hw.node
  obtain ⟨rnode, hr, -⟩ := (hw.repr r hw.mem_right).load_label
  have hnd := (List.nodup_cons.mp hw.nodup).2
  obtain ⟨h', node', hrun, hp', hnode', hrew⟩ := bptreeInsertIntoInternal_spec hp hnode hroom
    hw.length_labels hw.le k hr (hw.label_ne hw.mem_right r.label_mem_labels)
  rw [labels_widen b i l k r] at hnode'
  refine ⟨h', hrun, ⟨⟨node', hp', hnode'⟩, fun d hd => ?_⟩, hrew.root, hrew.supply, fun q hq => ?_⟩
  · refine hrew.repr_same (hw.repr d hd) ((List.nodup_flatMap.mp hnd).1 d hd)
      (fun hmem => hw.label_ne hd hmem rfl) fun q hq hmem => ?_
    rw [List.mem_singleton.mp hq] at hmem ⊢
    exact label_eq_of_mem_labels hnd hd (List.mem_map_of_mem hw.mem_right) hmem
  · refine hrew.load_of_notMem (fun h0 => hq (h0 ▸ Tree.label_mem_labels (n := n + 1) _))
      fun hmem => hq ?_
    rw [List.mem_singleton.mp hmem]
    exact mem_labels_of_mem_children hw.mem_right r.label_mem_labels

/-- A full parent is cut in two itself. -/
theorem splits (hw : Pending h b i l k r parent) (hfull : b.keys.length = bptreeMaxKeys) {p : ℕ}
    {s : Supply} (hs : h.supply.take = (some p, s)) :
    ∃ h', bptreeSplitInternal h b.label i k r.label =
        some (h', some ((b.widen i l k r).keys.getD (bptreeOrder / 2) k, p)) ∧
      Repr h'.toBPTree (n := n + 1) ((b.widen i l k r).left bptreeOrder) parent ∧
      Repr h'.toBPTree (n := n + 1) ((b.widen i l k r).right bptreeOrder p) parent ∧
      h'.root = h.root ∧ h'.supply = s ∧
      ∀ q ∉ Tree.labels (n := n + 1) (b.widen i l k r), q ≠ p → h'.load q = h.load q := by
  obtain ⟨node, hp, hnode⟩ := hw.node
  have hnd := (List.nodup_cons.mp hw.nodup).2
  have hfresh : p = h.nodes.length := by
    obtain ⟨_, -, hp, -⟩ := bptreeCreateNode_granted hs false
    exact hp
  have hpnot : p ∉ (b.widen i l k r).children.flatMap Tree.labels := fun hmem => by
    obtain ⟨d, hd, hpd⟩ := List.mem_flatMap.mp hmem
    exact absurd ((hw.repr d hd).lt_length p hpd) (by rw [hfresh]; exact lt_irrefl _)
  -- the code reads every child, to set its parent
  have hload : ∀ c ∈ ((b.replace i l).children.map Tree.label).insertIdx (i + 1) r.label,
      c ≠ b.label ∧ ∃ child, h.load c = some child := fun c hc => by
    rw [labels_widen b i l k r] at hc
    obtain ⟨d, hd, rfl⟩ := List.mem_map.mp hc
    obtain ⟨dnode, hdl, -⟩ := (hw.repr d hd).load_label
    exact ⟨hw.label_ne hd d.label_mem_labels, dnode, hdl⟩
  obtain ⟨h', left, right, hrun, hs', hleft, hlnode, hright, hrnode, hpart⟩ :=
    bptreeSplitInternal_granted hp hnode hfull hw.length_labels hw.le k hload hs
  rw [labels_widen b i l k r, ← List.map_take] at hlnode hpart
  rw [labels_widen b i l k r, ← List.map_drop] at hrnode
  rw [← List.map_drop] at hpart
  -- the cut only moves children, so both halves still stand for their trees
  obtain ⟨hL, hR⟩ := hpart.repr
    (show ∀ t ∈ _ ++ _, Repr h.toBPTree t (some b.label) by
      rw [List.take_append_drop]
      exact hw.repr)
    (by rw [List.take_append_drop]; exact hnd)
    (by rw [List.take_append_drop]; exact (List.nodup_cons.mp hw.nodup).1)
    (by rw [List.take_append_drop]; exact hpnot)
  refine ⟨h', hrun, ⟨⟨left, hleft, hlnode⟩, hL⟩, ⟨⟨right, hright, hrnode⟩, hR⟩, hpart.root, hs',
    fun q hq hqp => ?_⟩
  -- a node outside the tree is no child, so it is as it was
  have hout : ∀ ts : List (Tree ℤ (Option ρ) n), (∀ d ∈ ts, d ∈ (b.widen i l k r).children) →
      q ∉ ts.map Tree.label := fun ts hts hmem => by
    obtain ⟨d, hd, rfl⟩ := List.mem_map.mp hmem
    exact hq (mem_labels_of_mem_children (hts d hd) d.label_mem_labels)
  rw [hpart.load q (fun h0 => hq (h0 ▸ Tree.label_mem_labels (n := n + 1) _)) hqp]
  simp only [if_neg (hout _ fun d hd => List.mem_of_mem_take hd),
    if_neg (hout _ fun d hd => List.mem_of_mem_drop hd), Option.map_id']

end Pending

/-- Going up: the parent takes over a child that was cut in two. -/
theorem absorb_realizes (fuel : ℕ) (hr : Repr h.toBPTree (n := n + 1) b parent)
    (hrt : Tree.Routed b x.1 A c C) (hsep : Tree.Separated (n := n + 1) b)
    (hfull : b.keys.length < bptreeOrder) (hnd : (Tree.labels (n := n + 1) b).Nodup)
    {h' : BPHeap ρ} {s : Supply} (hbelow : Below h h' c.labels s)
    {l r : Tree ℤ (Option ρ) n} {k : ℤ} (hl : Repr h'.toBPTree l (some b.label))
    (hrr : Repr h'.toBPTree r (some b.label)) (hlabel : l.label = c.label)
    (hfresh : h.nodes.length ≤ s.fresh)
    (hcount : ∀ q, l.labels.count q + r.labels.count q ≤
      c.labels.count q + Tree.issued h.supply s q) :
    Realizes fuel h (n := n + 1) b parent
      (bptreeInsertIntoParent (fuel + 2) h' l.label k r.label)
      (b.absorb bptreeOrder (route b.keys x.1) l k r s) := by
  obtain ⟨hrep, hbelow'⟩ := repr_replace hr hrt hnd hbelow hl hlabel
  obtain ⟨hnode, hch⟩ := repr_branch.mp hrep
  obtain ⟨hndw, hmemw⟩ := hrt.labels_widen (l := l) (r := r) (k := k) hnd hr.lt_length hcount
  have hw : Pending h' b (route b.keys x.1) l k r parent := by
    refine ⟨hnode, ⟨A, C, hrt.replace_children l, hrt.widen_children l k r, hrt.length_left⟩,
      hsep.length_children, Tree.route_le_length _ _, fun d hd => ?_, hndw⟩
    rw [hrt.widen_children] at hd
    rw [hrt.replace_children] at hch
    rcases List.mem_append.mp hd with hd | hd
    · exact hch d (List.mem_append_left _ hd)
    · rcases List.mem_cons.mp hd with rfl | hd
      · exact hl
      · rcases List.mem_cons.mp hd with rfl | hd
        · exact hrr
        · exact hch d (List.mem_append_right _ (List.mem_cons_of_mem _ hd))
  -- the labels of the widened branch are old ones of the branch, or new
  have hold : ∀ q, q ∉ Tree.labels (n := n + 1) b → q < h.nodes.length →
      q ∉ Tree.labels (n := n + 1) (b.widen (route b.keys x.1) l k r) := fun q hq hlt hmem =>
    (hmemw q hmem).elim hq fun h0 => absurd h0.1 (not_le.mpr hlt)
  have hmax : bptreeMaxKeys + 1 = bptreeOrder := rfl
  rw [hw.insertIntoParent_eq]
  unfold Branch.absorb
  dsimp only
  split_ifs with hroom hroom'
  · obtain ⟨h'', hrun, hrepr, hroot, hs', hload⟩ := hw.fits hroom
    rw [hrun]
    refine ⟨h'', rfl, hrepr, hroot.trans hbelow'.root, hs'.trans hbelow'.supply,
      fun q hq hlt => ?_⟩
    rw [hload q (hold q hq hlt), hbelow'.load q hq hlt]
  · omega
  · omega
  · have hks : b.keys.length = bptreeMaxKeys := by omega
    rw [bptreeSplitInternalAndInsert]
    rcases hs : s.take with ⟨_ | p, s'⟩ <;> rw [← hbelow'.supply] at hs
    · obtain ⟨h'', hrun, ht, hs'⟩ :=
        bptreeSplitInternal_refused b.label (route b.keys x.1) k r.label hs
      refine ⟨h'', bind_eq_of_eq_some hrun rfl, by rw [ht]; exact hrep, ?_, hs', fun q hq hlt => ?_⟩
      · rw [ht]
        exact hbelow'.root
      · rw [ht]
        exact hbelow'.load q hq hlt
    · obtain ⟨h'', hrun, hleft, hright, hroot, hs', hload⟩ := hw.splits hks hs
      have hp : p = h'.nodes.length := by
        obtain ⟨_, -, hp, -⟩ := bptreeCreateNode_granted hs false
        exact hp
      refine ⟨h'', bind_eq_of_eq_some hrun rfl, hleft, hright, hroot.trans hbelow'.root, hs',
        fun q hq hlt => ?_⟩
      rw [hload q (hold q hq hlt) ?_, hbelow'.load q hq hlt]
      have hlen : h'.nodes.length = s.fresh := by rw [← hbelow'.supply]; rfl
      rw [hp, hlen]
      exact (lt_of_lt_of_le hlt hfresh).ne

end Branch

/-- **The climb is the recursion**: from any node, the code does what `Tree.insert` does. -/
theorem insert_realizes (x : ℤ × Option ρ) {h : BPHeap ρ} : {n : ℕ} → {lo : ℕ × ℕ} →
    {t : Tree ℤ (Option ρ) n} → {parent : Option NodeRef} → (fuel : ℕ) →
    Repr h.toBPTree t parent → t.Separated → Sorted t.toList → t.Filled bptreeOrder lo →
    t.labels.Nodup →
    ∃ leaf, (∀ e, bptreeFindLeafFrom h.toBPTree x.1 (n + 1 + e) t.label = some leaf) ∧
      Realizes fuel h t parent (bptreeInsertAt (fuel + 2 * n) h leaf x.1 x.2)
        (t.insert bptreeOrder x h.supply)
  | 0, lo, l, parent, fuel, hr, _, _, hfill, _ => by
    refine ⟨Leaf.label l, fun e => ?_, leaf_realizes fuel hr hfill.2 x⟩
    rw [Nat.zero_add, Nat.add_comm]
    exact bptreeFindLeafFrom_leaf hr x.1 e
  | n + 1, lo, b, parent, fuel, hr, hsep, hsort, hfill, hnd => by
    obtain ⟨A, c, C, hrt⟩ := Tree.exists_routed hsep hsort x.1
    have hrc := (repr_branch.mp hr).2 c hrt.mem
    have hndc : c.labels.Nodup := (List.nodup_flatMap.mp (List.nodup_cons.mp hnd).2).1 c hrt.mem
    have hcsep := hsep.2.2 c hrt.mem
    have hcfill := hfill.2.2 c hrt.mem
    obtain ⟨leaf, hfind, hreal⟩ :=
      insert_realizes x (fuel + 2) hrc hcsep (hrt.sorted hsort) hcfill hndc
    refine ⟨leaf, fun e => ?_, ?_⟩
    · rw [← hfind e, show n + 1 + 1 + e = (n + 1 + e) + 1 by omega]
      exact bptreeFindLeafFrom_branch hr hrt (n + 1 + e)
    rw [show fuel + 2 * (n + 1) = fuel + 2 + 2 * n by omega]
    -- what the abstract insertion does to the child the key is routed to
    have hgood := Tree.insert_spec (show 3 ≤ bptreeOrder by decide) x c h.supply hcsep
      (hrt.sorted hsort) hcfill
    have hcount := fun q => Tree.insert_count bptreeOrder x q c h.supply hcsep
      (hrt.sorted hsort)
    simp only [Tree.insert, hrt.getElem?]
    rcases hins : c.insert bptreeOrder x h.supply with ⟨_ | _ | t' | t' | ⟨l, k, r⟩, s⟩ <;>
      rw [hins] at hreal hgood hcount <;> simp only
    · -- no record came in: a duplicate, or no memory
      exact hreal
    · exact hreal
    · -- the child stays one tree under the same label
      obtain ⟨h', hrun, hrepr, hbelow⟩ := hreal
      exact ⟨h', hrun, repr_replace hr hrt hnd hbelow hrepr hgood.2.2.2.2⟩
    · obtain ⟨h', hrun, hrepr, hbelow⟩ := hreal
      exact ⟨h', hrun, repr_replace hr hrt hnd hbelow hrepr hgood.2.2.2.2⟩
    · -- the child was cut, and the climb goes on in this node
      obtain ⟨h', hrun, hl, hrr, hbelow⟩ := hreal
      obtain ⟨-, -, -, -, -, -, -, -, -, hlabel⟩ := hgood
      rw [hrun]
      exact absorb_realizes fuel hr hrt hsep hfill.2.1 hnd hbelow hl hrr hlabel (hcount 0).1
        fun q => (hcount q).2

end MiniDbms
