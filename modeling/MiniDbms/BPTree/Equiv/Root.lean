import MiniDbms.BPTree.Equiv.Insert

/-!
# The whole index

`BPTree.Lays t tree` says that the index is laid out as a well-formed B+ tree, `BPTree.Holds t m`
that `m` is the sorted list of the entries it holds.  `bptreeInsert_spec` gives the four ways in
which an insertion can end, and `bptreeSearch_eq` says that a search is a lookup in `m`.

`bptreeNodesNeeded` reads off the nodes how many of them the insertion of a key asks for.
-/

namespace MiniDbms

open SortedAssoc CArray BPlus

variable {ρ : Type}

/-- The index is laid out as `tree`. -/
structure BPTree.Lays (t : BPTree ρ) (tree : AnyTree ℤ (Option ρ)) : Prop where
  root : t.root = some tree.2.label
  repr : Repr t tree.2 none
  nodup : tree.2.labels.Nodup
  wf : Wf bptreeOrder tree

/-- The entries of the index, in key order. -/
inductive BPTree.Holds (t : BPTree ρ) : List (ℤ × Option ρ) → Prop
  | empty (root : t.root = none) : t.Holds []
  | tree {tree : AnyTree ℤ (Option ρ)} (lays : t.Lays tree) : t.Holds tree.2.toList

theorem BPTree.Holds.sorted {t : BPTree ρ} {m : List (ℤ × Option ρ)} (h : t.Holds m) :
    Sorted m := by
  cases h with
  | empty => exact List.Pairwise.nil
  | tree lays => exact lays.wf.sorted

theorem bptreeCreate_holds : (bptreeCreate : BPTree ρ).Holds [] := .empty rfl

/-! ### Fuel -/

theorem height_lt_length_labels : {n : ℕ} → {t : Tree ℤ (Option ρ) n} → t.Separated →
    n < t.labels.length
  | 0, _, _ => Nat.one_pos
  | n + 1, b, h => by
    obtain ⟨c, cs, hcs⟩ := List.exists_cons_of_ne_nil h.2.1
    have hc : c ∈ Branch.children b := by rw [hcs]; exact List.mem_cons_self
    have := height_lt_length_labels (h.2.2 c hc)
    simp only [Tree.labels, hcs, List.flatMap_cons, List.length_cons, List.length_append]
    omega

/-- There are more nodes than levels. -/
theorem BPTree.Lays.height_lt {t : BPTree ρ} {tree : AnyTree ℤ (Option ρ)} (h : t.Lays tree) :
    tree.1 < t.nodes.length := by
  refine lt_of_lt_of_le (height_lt_length_labels h.wf.separated) ?_
  have := (List.subperm_of_subset h.nodup fun q hq =>
    List.mem_range.mpr (h.repr.lt_length q hq)).length_le
  rwa [List.length_range] at this

/-! ### Search -/

/-- The leaf below a node that a key is routed to. -/
theorem find_leaf (key : ℤ) {t : BPTree ρ} : {n : ℕ} → {tree : Tree ℤ (Option ρ) n} →
    {parent : Option NodeRef} → Repr t tree parent → tree.Separated → Sorted tree.toList →
    ∃ (l : Leaf ℤ (Option ρ)) (parent' : Option NodeRef), Repr t (n := 0) l parent' ∧
      (∀ e, bptreeFindLeafFrom t key (n + 1 + e) tree.label = some l.label) ∧
      tree.lookup key = l.entries.lookup key ∧
      (key ∈ SortedAssoc.keys tree.toList ↔ key ∈ SortedAssoc.keys l.entries)
  | 0, l, parent, hr, _, _ => by
    refine ⟨l, parent, hr, fun e => ?_, rfl, Iff.rfl⟩
    rw [Nat.zero_add, Nat.add_comm]
    exact bptreeFindLeafFrom_leaf hr key e
  | n + 1, b, parent, hr, hsep, hsort => by
    obtain ⟨A, c, C, hrt⟩ := Tree.exists_routed hsep hsort key
    obtain ⟨l, parent', hrl, hfind, hlook, hmem⟩ := find_leaf key ((repr_branch.mp hr).2 c hrt.mem)
      (hsep.2.2 c hrt.mem) (hrt.sorted hsort)
    refine ⟨l, parent', hrl, fun e => ?_, ?_, hrt.mem_keys_iff.trans hmem⟩
    · rw [← hfind e, show n + 1 + 1 + e = (n + 1 + e) + 1 by omega]
      exact bptreeFindLeafFrom_branch (h := ⟨t, []⟩) (x := (key, none)) hr hrt (n + 1 + e)
    · rw [← hlook, Tree.lookup, hrt.getElem?, Option.bind_some]

/-- The search has turns enough to reach the leaf. -/
theorem BPTree.Lays.bptreeFindLeaf_eq {t : BPTree ρ} {tree : AnyTree ℤ (Option ρ)} (h : t.Lays tree)
    {key : ℤ} {leaf : NodeRef}
    (hfind : ∀ e, bptreeFindLeafFrom t key (tree.1 + 1 + e) tree.2.label = some leaf) :
    bptreeFindLeaf t key = some (some leaf) := by
  have hlt := h.height_lt
  have hfuel := hfind (t.nodes.length - tree.1)
  rw [show tree.1 + 1 + (t.nodes.length - tree.1) = t.nodes.length + 1 by omega] at hfuel
  rw [bptreeFindLeaf, h.root]
  simp only [hfuel, Option.map_some]

/-- Whether the leaf that `bptree_search` scans holds the key (it may hold it with the value
`NULL`). -/
def bptreeContains (t : BPTree ρ) (key : ℤ) : Option Bool := do
  match ← bptreeFindLeaf t key with
  | none => some false
  | some leaf =>
    let node ← t.load leaf
    let index ← CArray.scanUp (fun index => (node.keys.read index).map (· ≠ key)) 0 node.numKeys
    some (index < node.numKeys)

/-- The leaf that `bptree_search` scans. -/
theorem BPTree.Lays.findLeaf {t : BPTree ρ} {tree : AnyTree ℤ (Option ρ)} (h : t.Lays tree)
    (key : ℤ) :
    ∃ (l : Leaf ℤ (Option ρ)) (node : BPTreeNode ρ) (parent : Option NodeRef),
      bptreeFindLeaf t key = some (some l.label) ∧ t.load l.label = some node ∧
      node.IsLeafOf l.entries parent ∧
      CArray.scanUp (fun index => (node.keys.read index).map (· ≠ key)) 0 node.numKeys =
        some ((SortedAssoc.keys l.entries).takeWhile (· ≠ key)).length ∧
      tree.2.toList.lookup key = l.entries.lookup key ∧
      (key ∈ SortedAssoc.keys tree.2.toList ↔ key ∈ SortedAssoc.keys l.entries) := by
  obtain ⟨l, parent, hrl, hfind, hlook, hmem⟩ := find_leaf key h.repr h.wf.separated h.wf.sorted
  obtain ⟨node, hl, hnode⟩ := hrl
  refine ⟨l, node, parent, h.bptreeFindLeaf_eq hfind, hl, hnode, ?_, ?_, hmem⟩
  · have := scan_read hnode.keys (· ≠ key)
    rwa [SortedAssoc.keys, List.length_map, ← hnode.numKeys] at this
  · rw [← Tree.lookup_eq key tree.2 h.wf.separated h.wf.sorted, hlook]

/-- **A search is a lookup** in the list of entries. -/
theorem bptreeSearch_eq {t : BPTree ρ} {m : List (ℤ × Option ρ)} (h : t.Holds m) (key : ℤ) :
    bptreeSearch t key = some (m.lookup key).join := by
  cases h with
  | empty hroot => simp [bptreeSearch, bptreeFindLeaf, hroot]
  | tree lays =>
    obtain ⟨l, node, parent, hfind, hl, hnode, hscan, hlook, -⟩ := lays.findLeaf key
    have hlk : (SortedAssoc.keys l.entries).length = l.entries.length := List.length_map _
    unfold bptreeSearch
    refine bind_eq_of_eq_some hfind (bind_eq_of_eq_some hl (bind_eq_of_eq_some hscan ?_))
    rw [hlook, lookup_eq_getElem?, hnode.numKeys, ← hlk]
    split_ifs with hmem
    · have hi : ((SortedAssoc.keys l.entries).takeWhile (· ≠ key)).length <
          (l.entries.map Prod.snd).length := by
        rw [List.length_map, ← hlk]
        exact hmem
      rw [hnode.values.read hi, List.getElem?_eq_getElem hi]
      rfl
    · rw [List.getElem?_eq_none]
      · rfl
      · rw [List.length_map, ← hlk]
        exact not_lt.mp hmem

theorem bptreeContains_eq {t : BPTree ρ} {m : List (ℤ × Option ρ)} (h : t.Holds m) (key : ℤ) :
    bptreeContains t key = some (decide (key ∈ SortedAssoc.keys m)) := by
  cases h with
  | empty hroot => simp [bptreeContains, bptreeFindLeaf, hroot]
  | tree lays =>
    obtain ⟨l, node, parent, hfind, hl, hnode, hscan, -, hmem⟩ := lays.findLeaf key
    have hlk : (SortedAssoc.keys l.entries).length = l.entries.length := List.length_map _
    unfold bptreeContains
    refine bind_eq_of_eq_some hfind (bind_eq_of_eq_some hl (bind_eq_of_eq_some hscan ?_))
    rw [hnode.numKeys, ← hlk]
    simp only [length_takeWhile_ne_lt_iff, hmem]

/-! ### The nodes an insertion asks for -/

/-- The nodes asked for when the node `p` takes one key more, going up as long as nodes are full. -/
def bptreeNodesNeededAt (t : BPTree ρ) : ℕ → NodeRef → ℕ
  | 0, _ => 0
  | fuel + 1, p =>
    match t.load p with
    | none => 0
    | some node =>
      if node.numKeys < bptreeMaxKeys then 0
      else
        match node.parent with
        | none => 2
        | some parent => bptreeNodesNeededAt t fuel parent + 1

/-- How many nodes the insertion of a key asks for. -/
def bptreeNodesNeeded (t : BPTree ρ) (key : ℤ) : ℕ :=
  match bptreeContains t key, bptreeFindLeaf t key with
  | some false, some none => 1
  | some false, some (some leaf) => bptreeNodesNeededAt t (t.nodes.length + 1) leaf
  | _, _ => 0

/-- The nodes asked for at the parent of a node that was cut in two. -/
def bptreeNodesNeededAbove (t : BPTree ρ) (fuel : ℕ) : Option NodeRef → ℕ
  | none => 1
  | some parent => bptreeNodesNeededAt t fuel parent

theorem nodesNeededAt_eq {t : BPTree ρ} {p : NodeRef} {node : BPTreeNode ρ}
    (hp : t.load p = some node)
    (fuel : ℕ) :
    bptreeNodesNeededAt t (fuel + 1) p =
      if node.numKeys < bptreeMaxKeys then 0
      else bptreeNodesNeededAbove t fuel node.parent + 1 := by
  rw [bptreeNodesNeededAt, hp]
  cases hpar : node.parent <;> simp only [hpar, bptreeNodesNeededAbove]

/-- Counting from the leaf up agrees with counting from the root down. -/
theorem nodesNeeded_eq {key : ℤ} {t : BPTree ρ} : {n : ℕ} → {tree : Tree ℤ (Option ρ) n} →
    {parent : Option NodeRef} → (fuel : ℕ) → Repr t tree parent → tree.Separated →
    Sorted tree.toList → key ∉ SortedAssoc.keys tree.toList →
    ∃ leaf, (∀ e, bptreeFindLeafFrom t key (n + 1 + e) tree.label = some leaf) ∧
      bptreeNodesNeededAt t (fuel + n + 1) leaf = tree.needed bptreeOrder key +
        if tree.overflows bptreeOrder key then bptreeNodesNeededAbove t fuel parent else 0
  | 0, l, parent, fuel, hr, _, _, hkey => by
    obtain ⟨node, hl, hnode⟩ := repr_leaf.mp hr
    refine ⟨Leaf.label l, fun e => ?_, ?_⟩
    · rw [Nat.zero_add, Nat.add_comm]
      exact bptreeFindLeafFrom_leaf hr key e
    · have hov : Tree.overflows (n := 0) bptreeOrder key l =
          decide (bptreeOrder ≤ (Leaf.entries l).length + 1) := by
        have hkey' : key ∉ SortedAssoc.keys (Leaf.entries l) := hkey
        simp [Tree.overflows, hkey']
      have hmax : bptreeMaxKeys + 1 = bptreeOrder := rfl
      rw [Nat.add_zero, nodesNeededAt_eq hl, hnode.numKeys, hnode.parent, Tree.needed, hov]
      simp only [decide_eq_true_eq]
      split_ifs with h1 h2 <;> omega
  | n + 1, b, parent, fuel, hr, hsep, hsort, hkey => by
    obtain ⟨A, c, C, hrt⟩ := Tree.exists_routed hsep hsort key
    obtain ⟨⟨node, hl, hnode⟩, hcs⟩ := repr_branch.mp hr
    obtain ⟨leaf, hfind, hneed⟩ := nodesNeeded_eq (fuel + 1) (hcs c hrt.mem) (hsep.2.2 c hrt.mem)
      (hrt.sorted hsort) fun hmem => hkey (hrt.mem_keys_iff.mpr hmem)
    refine ⟨leaf, fun e => ?_, ?_⟩
    · rw [← hfind e, show n + 1 + 1 + e = (n + 1 + e) + 1 by omega]
      exact bptreeFindLeafFrom_branch (h := ⟨t, []⟩) (x := (key, none)) hr hrt (n + 1 + e)
    · have hmax : bptreeMaxKeys + 1 = bptreeOrder := rfl
      rw [show fuel + (n + 1) + 1 = fuel + 1 + n + 1 by omega, hneed, hrt.needed_eq,
        hrt.overflows_eq, bptreeNodesNeededAbove, nodesNeededAt_eq hl, hnode.numKeys, hnode.parent]
      cases c.overflows bptreeOrder key
      · simp
      · simp only [Bool.true_and, decide_eq_true_eq, if_true]
        split_ifs with h1 h2 <;> omega

/-- A key that is there needs no node. -/
theorem neededRoot_of_mem {tree : AnyTree ℤ (Option ρ)} (h : Wf bptreeOrder tree) {key : ℤ}
    (hmem : key ∈ SortedAssoc.keys tree.2.toList) : neededRoot bptreeOrder key tree = 0 := by
  have hspec := insertRoot_spec (by decide) h (key, none) ⟨0, []⟩
  generalize insertRoot bptreeOrder (key, none) tree ⟨0, []⟩ = res at hspec
  cases hspec with
  | added hkey => exact absurd hmem hkey
  | duplicate _ hn => exact hn
  | refused hkey => exact absurd hmem hkey
  | truncated hkey => exact absurd hmem hkey

/-- The two ways of counting agree. -/
theorem BPTree.Lays.nodesNeeded_eq {t : BPTree ρ} {tree : AnyTree ℤ (Option ρ)} (h : t.Lays tree)
    (key : ℤ) : bptreeNodesNeeded t key = neededRoot bptreeOrder key tree := by
  rw [bptreeNodesNeeded, bptreeContains_eq (.tree h)]
  by_cases hmem : key ∈ SortedAssoc.keys tree.2.toList
  · rw [neededRoot_of_mem h.wf hmem]
    simp [hmem]
  · have hlt := h.height_lt
    obtain ⟨leaf, hfind, hneed⟩ := MiniDbms.nodesNeeded_eq (t.nodes.length - tree.1) h.repr
      h.wf.separated h.wf.sorted hmem
    have hleaf : bptreeFindLeaf t key = some (some leaf) := by
      have := hfind (t.nodes.length - tree.1)
      rw [show tree.1 + 1 + (t.nodes.length - tree.1) = t.nodes.length + 1 by omega] at this
      rw [bptreeFindLeaf, h.root]
      simp only [this, Option.map_some]
    rw [show t.nodes.length - tree.1 + tree.1 + 1 = t.nodes.length + 1 by omega] at hneed
    rw [decide_eq_false hmem, hleaf]
    exact hneed

/-! ### Insertion -/

/-- The two parts of the old root under a new one. -/
theorem repr_newRoot {n : ℕ} {h h' : BPHeap ρ} {l r : Tree ℤ (Option ρ) n} {key : ℤ} {q : NodeRef}
    {s : Supply} (hl : Repr h.toBPTree l none) (hr : Repr h.toBPTree r none)
    (hnd : (l.labels ++ r.labels).Nodup) (hs : h.supply.take = (some q, s))
    (hrun : bptreeCreateNewRoot h l.label key r.label = some (h', true)) :
    Repr h'.toBPTree (n := n + 1) (⟨q, [key], [l, r]⟩ : Branch ℤ (Tree ℤ (Option ρ) n)) none ∧
      h'.root = some q ∧ h'.supply = s := by
  obtain ⟨lnode, hll, -⟩ := hl.load_label
  obtain ⟨rnode, hrl, -⟩ := hr.load_label
  have hnd' : ([l, r].flatMap Tree.labels).Nodup := by simpa using hnd
  have hne : l.label ≠ r.label := fun h0 =>
    (List.nodup_append.mp hnd).2.2 l.label l.label_mem_labels r.label r.label_mem_labels h0
  obtain ⟨h₁, node, hrun', hroot, hs', hq, hnode, hload⟩ :=
    bptreeCreateNewRoot_granted hll hrl hne key hs
  obtain rfl : h₁ = h' := by
    rw [hrun'] at hrun
    exact (Prod.mk.inj (Option.some.inj hrun)).1
  have hfresh : q = h.nodes.length := by
    obtain ⟨_, -, hq, -⟩ := bptreeCreateNode_granted hs false
    exact hq
  refine ⟨⟨⟨node, hq, hnode⟩, fun t ht => ?_⟩, hroot, hs'⟩
  have hrt : Repr h.toBPTree t none := by
    rcases List.mem_cons.mp ht with rfl | ht
    · exact hl
    · rw [List.mem_singleton.mp ht]
      exact hr
  have hqt : ∀ x ∈ t.labels, x ≠ q := fun x hx h0 => by
    have := hrt.lt_length x hx
    rw [h0, hfresh] at this
    exact lt_irrefl _ this
  refine hrt.setParent ((List.nodup_flatMap.mp hnd').1 t ht) ?_ fun x hx hxt => ?_
  · rw [hload _ (hqt _ t.label_mem_labels)]
    simp only [if_pos (show t.label ∈ [l.label, r.label] from List.mem_map_of_mem ht)]
  · have hnot : x ∉ [l.label, r.label] := fun hmem =>
      hxt (label_eq_of_mem_labels hnd' ht hmem hx)
    rw [hload _ (hqt x hx)]
    simp only [if_neg hnot, Option.map_id']

/-- A change below the root keeps the root, under its label. -/
theorem BPTree.Lays.root_below {h h' : BPHeap ρ} {n : ℕ} {t t' : Tree ℤ (Option ρ) n} {s : Supply}
    (hlays : h.toBPTree.Lays ⟨n, t⟩) (hbelow : Below h h' t.labels s)
    (hlabel : t'.label = t.label) : h'.root = some t'.label := by
  rw [hbelow.root, hlays.root, hlabel]

/-- **Insertion** into an index with entries: the code does what `insertRoot` does. -/
theorem BPTree.Lays.insert {h : BPHeap ρ} {tree : AnyTree ℤ (Option ρ)}
    (hlays : h.toBPTree.Lays tree) (x : ℤ × Option ρ) :
    ∃ h', bptreeInsert h x.1 x.2 = some (h', (insertRoot bptreeOrder x tree h.supply).1) ∧
      h'.toBPTree.Lays (insertRoot bptreeOrder x tree h.supply).2.1 ∧
      h'.supply = (insertRoot bptreeOrder x tree h.supply).2.2 := by
  have hwf := hlays.wf.insertRoot (by decide) x h.supply
  obtain ⟨hnd, -⟩ := insertRoot_labels hlays.wf x h.supply hlays.nodup hlays.repr.lt_length
  obtain ⟨n, t⟩ := tree
  have hlt := hlays.height_lt
  -- the climb has fuel left when it reaches the root
  obtain ⟨fuel, hfuel⟩ : ∃ fuel, 2 * h.nodes.length + 3 = fuel + 1 + 2 * n :=
    ⟨2 * h.nodes.length + 2 - 2 * n, by dsimp only at hlt; omega⟩
  obtain ⟨leaf, hfind, hreal⟩ := insert_realizes x (fuel + 1) hlays.repr hlays.wf.separated
    hlays.wf.sorted hlays.wf.filled hlays.nodup
  have hgood := Tree.insert_spec (show 3 ≤ bptreeOrder by decide) x t h.supply
    hlays.wf.separated hlays.wf.sorted hlays.wf.filled
  have hcount := fun q => Tree.insert_count bptreeOrder x q t h.supply
    hlays.wf.separated hlays.wf.sorted
  have hrun : bptreeInsert h x.1 x.2 = bptreeInsertAt (fuel + 1 + 2 * n) h leaf x.1 x.2 := by
    have hfind' := hfind (h.nodes.length - n)
    rw [show n + 1 + (h.nodes.length - n) = h.nodes.length + 1 by dsimp only at hlt; omega]
      at hfind'
    rw [bptreeInsert, hlays.root, ← hfuel]
    exact bind_eq_of_eq_some hfind' rfl
  rw [hrun]
  clear hrun
  simp only [insertRoot] at hwf hnd ⊢
  rcases hins : t.insert bptreeOrder x h.supply with ⟨_ | _ | t' | t' | ⟨l, k, r⟩, s⟩ <;>
    rw [hins] at hwf hnd hreal hgood hcount <;> simp only at hwf hnd ⊢
  · obtain ⟨hrun, rfl⟩ := hreal
    exact ⟨h, hrun, hlays, rfl⟩
  · obtain ⟨h', hrun, ht, hs⟩ := hreal
    exact ⟨h', hrun, by rw [ht]; exact hlays, hs⟩
  · obtain ⟨h', hrun, hrepr, hbelow⟩ := hreal
    have hroot := hlays.root_below hbelow hgood.2.2.2.2
    exact ⟨h', hrun, ⟨hroot, hrepr, hnd, hwf⟩, hbelow.supply⟩
  · obtain ⟨h', hrun, hrepr, hbelow⟩ := hreal
    have hroot := hlays.root_below hbelow hgood.2.2.2.2
    exact ⟨h', hrun, ⟨hroot, hrepr, hnd, hwf⟩, hbelow.supply⟩
  · -- the root was cut: its halves have no parent, so the climb ends with a new root
    obtain ⟨h₁, hrun, hl, hr, hbelow⟩ := hreal
    obtain ⟨lnode, hll, hlpar⟩ := hl.load_label
    have hup : bptreeInsertIntoParent (fuel + 1) h₁ l.label k r.label =
        bptreeCreateNewRoot h₁ l.label k r.label := by
      rw [bptreeInsertIntoParent]
      refine bind_eq_of_eq_some hll ?_
      rw [hlpar]
    have hlabel : l.label = t.label := hgood.2.2.2.2.2.2.2.2.2
    rw [hrun, hup]
    rcases hs : s.take with ⟨_ | q, s'⟩ <;> rw [hs] at hwf hnd <;> simp only at hwf hnd ⊢ <;>
      rw [← hbelow.supply] at hs
    · obtain ⟨h', hrun', ht, hs'⟩ := bptreeCreateNewRoot_refused l.label k r.label hs
      exact ⟨h', hrun', ⟨by rw [ht]; exact hlays.root_below hbelow hlabel, by rw [ht]; exact hl,
        hnd, hwf⟩, hs'⟩
    · have hndlr : (l.labels ++ r.labels).Nodup := by
        have := (List.nodup_cons.mp hnd).2
        simpa using this
      obtain ⟨rnode, hrl, -⟩ := hr.load_label
      have hne : l.label ≠ r.label := fun h0 =>
        (List.nodup_append.mp hndlr).2.2 l.label l.label_mem_labels r.label r.label_mem_labels h0
      obtain ⟨h', -, hrun', -⟩ := bptreeCreateNewRoot_granted hll hrl hne k hs
      obtain ⟨hrepr, hroot, hs'⟩ := repr_newRoot hl hr hndlr hs hrun'
      exact ⟨h', hrun', ⟨hroot, hrepr, hnd, hwf⟩, hs'⟩

/-- The first node of an index. -/
theorem bptreeInsert_first {h : BPHeap ρ} (hroot : h.root = none) (x : ℤ × Option ρ) {q : NodeRef}
    {s : Supply} (hs : h.supply.take = (some q, s)) :
    ∃ h', bptreeInsert h x.1 x.2 = some (h', true) ∧ h'.toBPTree.Holds [x] ∧
      h'.allocs = s.allocs := by
  obtain ⟨h₁, hcreate, -, -, hs₁, hq₁, -⟩ := bptreeCreateNode_granted hs true
  obtain ⟨keys, hkw, hkh⟩ := (holds_nil (BPTreeNode.zeroed (ρ := ρ) true).keys).write_end x.1
    (by decide)
  obtain ⟨values, hvw, hvh⟩ := (holds_nil (BPTreeNode.zeroed (ρ := ρ) true).values).write_end x.2
    (by simp)
  let node : BPTreeNode ρ :=
    { BPTreeNode.zeroed (ρ := ρ) true with keys := keys, values := values, numKeys := 1 }
  have hl := BPHeap.load_put hq₁ node
  have hlays : BPTree.Lays { (h₁.put q node).toBPTree with root := some q }
      ⟨0, (⟨q, [x]⟩ : Leaf ℤ (Option ρ))⟩ := by
    refine ⟨rfl, ⟨node, ?_, ⟨rfl, rfl, hkh, hvh, rfl⟩⟩, by simp,
      ⟨trivial, List.pairwise_singleton _ _, ⟨le_rfl, show 1 < bptreeOrder by decide⟩⟩⟩
    exact (hl q).trans (if_pos rfl)
  refine ⟨{ h₁.put q node with root := some q }, ?_, .tree hlays, congrArg Supply.allocs hs₁⟩
  rw [bptreeInsert, hroot]
  simp only [hcreate]
  exact bind_eq_of_eq_some (BPHeap.modify_eq hq₁ (bind_eq_of_eq_some hkw
    (bind_eq_of_eq_some hvw rfl))) rfl

/-- How `bptree_insert` can end. -/
inductive InsertResult (h : BPHeap ρ) (m : List (ℤ × Option ρ)) (x : ℤ × Option ρ) :
    BPHeap ρ × Bool → Prop
  /-- The entry was added. -/
  | added {h' : BPHeap ρ} (fresh : x.1 ∉ SortedAssoc.keys m)
      (granted : ∀ i < bptreeNodesNeeded h.toBPTree x.1, h.allocs.getD i true = true)
      (allocs : h'.allocs = h.allocs.drop (bptreeNodesNeeded h.toBPTree x.1))
      (holds : h'.toBPTree.Holds (insertEntry x m)) : InsertResult h m x (h', true)
  /-- The key was there. -/
  | duplicate {h' : BPHeap ρ} (mem : x.1 ∈ SortedAssoc.keys m)
      (needed_eq : bptreeNodesNeeded h.toBPTree x.1 = 0) (allocs : h'.allocs = h.allocs)
      (holds : h'.toBPTree.Holds m) : InsertResult h m x (h', false)
  /-- There was no memory for the first node. -/
  | refused {h' : BPHeap ρ} (fresh : x.1 ∉ SortedAssoc.keys m)
      (refused : ¬ h.allocs.headD true = true)
      (needed_pos : 0 < bptreeNodesNeeded h.toBPTree x.1) (holds : h'.toBPTree.Holds m) :
      InsertResult h m x (h', false)
  /-- There was no memory for a later node, and a part of the entries is lost; the new one is not
  right of it. -/
  | truncated {h' : BPHeap ρ} {a lost b : List (ℤ × Option ρ)} (fresh : x.1 ∉ SortedAssoc.keys m)
      (granted : h.allocs.headD true = true)
      (refused : ∃ i < bptreeNodesNeeded h.toBPTree x.1, ¬ h.allocs.getD i true = true)
      (insert_eq : insertEntry x m = a ++ lost ++ b) (holds : h'.toBPTree.Holds (a ++ b))
      (two_le : 2 ≤ lost.length) (lt : ∀ y ∈ b, x.1 < y.1) : InsertResult h m x (h', false)

theorem granted_zero_iff (h : BPHeap ρ) : h.supply.Granted 0 ↔ h.allocs.headD true = true := by
  rw [Supply.Granted, BPHeap.supply, List.getD_eq_getElem?_getD, ← List.head?_eq_getElem?,
    ← List.headD_eq_head?_getD]

/-- **`bptree_insert`**, for every tree and every pattern of allocation failures. -/
theorem bptreeInsert_spec {h : BPHeap ρ} {m : List (ℤ × Option ρ)} (hm : h.toBPTree.Holds m)
    (x : ℤ × Option ρ) :
    ∃ res, bptreeInsert h x.1 x.2 = some res ∧ InsertResult h m x res := by
  cases hm with
  | empty hroot =>
    have hneed : bptreeNodesNeeded h.toBPTree x.1 = 1 := by
      simp [bptreeNodesNeeded, bptreeContains, bptreeFindLeaf, hroot]
    -- the first node of the index
    rcases hs : h.supply.take with ⟨_ | q, s⟩
    · have hg : ¬ h.allocs.headD true = true := fun hg => by
        rw [← granted_zero_iff] at hg
        rw [Supply.take_granted hg] at hs
        cases hs
      obtain ⟨h', hcreate, ht, hs'⟩ := bptreeCreateNode_refused hs true
      refine ⟨(h', false), ?_, .refused (by simp) hg (by omega)
        (.empty (by rw [ht]; exact hroot))⟩
      rw [bptreeInsert, hroot]
      simp only [hcreate]
    · have hg : h.supply.Granted 0 := by
        by_contra hg
        rw [Supply.take_refused hg] at hs
        cases hs
      obtain ⟨h', hrun, hholds, hallocs⟩ := bptreeInsert_first hroot x hs
      rw [Supply.take_granted hg] at hs
      cases hs
      refine ⟨_, hrun, .added (by simp) (fun i hi => ?_) (by rw [hneed]; exact hallocs) hholds⟩
      rw [hneed] at hi
      rwa [show i = 0 by omega]
  | @tree tree lays =>
    obtain ⟨h', hrun, hlays', hs'⟩ := lays.insert x
    have hspec := insertRoot_spec (by decide) lays.wf x h.supply
    have hneed := lays.nodesNeeded_eq x.1
    generalize insertRoot bptreeOrder x tree h.supply = res at hrun hlays' hs' hspec
    refine ⟨_, hrun, ?_⟩
    cases hspec with
    | added fresh granted allocs heq =>
      refine .added fresh (by rw [hneed]; exact granted) ?_ (heq ▸ .tree hlays')
      rw [hneed, ← congrArg Supply.allocs hs'] at *
      exact allocs
    | duplicate mem needed_eq =>
      exact .duplicate mem (hneed.trans needed_eq) (congrArg Supply.allocs hs') (.tree hlays')
    | refused fresh refused needed_pos =>
      exact .refused fresh (fun hg => refused ((granted_zero_iff h).mpr hg))
        (by rw [hneed]; exact needed_pos) (.tree hlays')
    | truncated fresh granted refused insert_eq heq two_le lt =>
      exact .truncated fresh ((granted_zero_iff h).mp granted) (by rw [hneed]; exact refused)
        insert_eq (heq ▸ .tree hlays') two_le lt

end MiniDbms
