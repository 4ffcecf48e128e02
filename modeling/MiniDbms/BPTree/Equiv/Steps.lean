import MiniDbms.BPTree.Calls
import MiniDbms.BPTree.Equiv.Heap

/-!
# The steps of an insertion

What each function of an insertion does to the nodes it writes: `bptreeInsertIntoInternal_spec`,
`bptreeSplitInternal_spec` (built from the rounds `Adopting.entry` and `Adopting.child` that fill
half a node), `bptreeSplitLeaf_granted` and `bptreeCreateNewRoot_spec`.
-/

namespace MiniDbms

open SortedAssoc CArray BPlus

variable {ρ : Type}

/-! ### A node with room -/

/-- A promoted key and its right child go into an inner node that is not full. -/
theorem bptreeInsertIntoInternal_spec {h : BPHeap ρ} {p : NodeRef} {node : BPTreeNode ρ}
    {ks : List ℤ} {cs : List NodeRef} {parent : Option NodeRef} (hp : h.load p = some node)
    (hnode : node.IsBranchOf ks cs parent) (hroom : ks.length < bptreeMaxKeys)
    (hcs : cs.length = ks.length + 1) {i : ℕ} (hi : i ≤ ks.length) (key : ℤ) {right : NodeRef}
    {child : BPTreeNode ρ} (hr : h.load right = some child) (hne : right ≠ p) :
    ∃ h' node', bptreeInsertIntoInternal h p i key right = some h' ∧ h'.load p = some node' ∧
      node'.IsBranchOf (ks.insertIdx i key) (cs.insertIdx (i + 1) right) parent ∧
      Rewired h h' p [right] := by
  have hlc : (cs.map some).length = ks.length + 1 := by rw [List.length_map, hcs]
  obtain ⟨keys, keys', hks, hkw, hkh⟩ := shiftInsert_holds hnode.keys hroom hi key
  have hfit : (cs.map some).length < bptreeOrder := by
    rw [hlc]
    exact Nat.succ_lt_succ hroom
  obtain ⟨children, children', hchs, hcw, hch⟩ :=
    shiftInsert_holds hnode.children hfit (show i + 1 ≤ _ by omega) (some right)
  rw [hlc, ← hnode.numKeys] at hchs
  rw [← hnode.numKeys] at hks
  -- the three stores: the arrays, the parent pointer of the child, the key count
  let node₁ : BPTreeNode ρ := { node with keys := keys', children := children' }
  let node₂ : BPTreeNode ρ := { node₁ with numKeys := node.numKeys + 1 }
  have h₁ : h.modify p (fun node => do
      let keys ← CArray.forDown CArray.shiftBody i node.numKeys node.keys
      let children ← CArray.forDown CArray.shiftBody (i + 1) (node.numKeys + 1) node.children
      some { node with
        keys := ← keys.write i key
        children := ← children.write (i + 1) (some right) }) = some (h.put p node₁) := by
    refine BPHeap.modify_eq hp ?_
    simp only [hks, hchs, hkw, hcw, Option.bind_eq_bind, Option.bind_some, node₁]
  have hl₁ := BPHeap.load_put hp node₁
  have hr₁ : (h.put p node₁).load right = some child := by rw [hl₁, if_neg hne, hr]
  let child' : BPTreeNode ρ := { child with parent := some p }
  have hl₂ := BPHeap.load_put hr₁ child'
  have hp₂ : ((h.put p node₁).put right child').load p = some node₁ := by
    rw [hl₂, if_neg (Ne.symm hne), hl₁, if_pos rfl]
  have hl₃ := BPHeap.load_put hp₂ node₂
  refine ⟨((h.put p node₁).put right child').put p node₂, node₂, ?_,
    by rw [hl₃, if_pos rfl], ⟨hnode.isLeaf, ?_, hkh, ?_, hnode.parent⟩,
    ⟨rfl, by simp, fun q hq => ?_⟩⟩
  · unfold bptreeInsertIntoInternal
    refine bind_eq_of_eq_some h₁ (bind_eq_of_eq_some (BPHeap.modify_eq hr₁ rfl) ?_)
    exact BPHeap.modify_eq hp₂ rfl
  · simp [node₂, hnode.numKeys, List.length_insertIdx_of_le_length hi]
  · rwa [List.map_insertIdx]
  · rw [hl₃, if_neg hq, hl₂, hl₁, if_neg hq]
    by_cases hqr : q = right
    · subst hqr
      simp [hr, child']
    · simp [hqr]

/-! ### Filling half a node -/

/-- Node `p` holds `ks` and `cs` so far, and the nodes in `cs` were given the parent `p`. -/
structure Adopting (h₀ h : BPHeap ρ) (p : NodeRef) (ks : List ℤ) (cs : List NodeRef)
    (parent : Option NodeRef) : Prop where
  node : ∃ node, h.load p = some node ∧ node.IsBranchOf ks cs parent
  rewired : Rewired h₀ h p cs

/-- Writing a further child. -/
theorem adoptChild_load {h₀ h : BPHeap ρ} {p : NodeRef} {cs : List NodeRef} {node : BPTreeNode ρ}
    (hp : h.load p = some node) (hholds : node.children.Holds (cs.map some))
    (hrew : Rewired h₀ h p cs) (hroom : cs.length < bptreeOrder) {c : NodeRef}
    {child : BPTreeNode ρ} (hc : h₀.load c = some child) (hne : c ≠ p) :
    ∃ h' children, bptreeAdoptChild h p cs.length (some c) = some h' ∧
      h'.load p = some { node with children := children } ∧
      children.Holds ((cs ++ [c]).map some) ∧ Rewired h₀ h' p (cs ++ [c]) := by
  obtain ⟨children, hcw, hch⟩ := hholds.write_end (some c) (by simpa using hroom)
  rw [List.length_map] at hcw
  let node' : BPTreeNode ρ := { node with children := children }
  have hl₁ := BPHeap.load_put hp node'
  obtain ⟨child', hc₁, hchild'⟩ : ∃ child', (h.put p node').load c = some child' ∧
      { child' with parent := some p } = { child with parent := some p } := by
    rw [hl₁, if_neg hne, hrew.load c hne, hc, Option.map_some]
    refine ⟨_, rfl, ?_⟩
    split_ifs <;> rfl
  have hl₂ := BPHeap.load_put hc₁ { child' with parent := some p }
  refine ⟨(h.put p node').put c { child' with parent := some p }, children, ?_, ?_,
    by simpa using hch, ⟨?_, ?_, fun q hq => ?_⟩⟩
  · unfold bptreeAdoptChild
    refine bind_eq_of_eq_some (BPHeap.modify_eq hp (bind_eq_of_eq_some hcw rfl)) ?_
    exact BPHeap.modify_eq hc₁ rfl
  · rw [hl₂, if_neg (Ne.symm hne), hl₁, if_pos rfl]
  · exact hrew.root
  · simpa using hrew.supply
  · rw [hl₂]
    by_cases hqc : q = c
    · subst hqc
      simp [hc, hchild']
    · rw [if_neg hqc, hl₁, if_neg hq, hrew.load q hq]
      simp [hqc]

/-- The last child of a half. -/
theorem Adopting.child {h₀ h : BPHeap ρ} {p : NodeRef} {ks : List ℤ} {cs : List NodeRef}
    {parent : Option NodeRef} (ha : Adopting h₀ h p ks cs parent) (hroom : cs.length < bptreeOrder)
    {c : NodeRef} {child : BPTreeNode ρ} (hc : h₀.load c = some child) (hne : c ≠ p) :
    ∃ h', bptreeAdoptChild h p cs.length (some c) = some h' ∧
      Adopting h₀ h' p ks (cs ++ [c]) parent := by
  obtain ⟨⟨node, hp, hnode⟩, hrew⟩ := ha
  obtain ⟨h', children, heq, hl, hch, hrew'⟩ :=
    adoptChild_load hp hnode.children hrew hroom hc hne
  exact ⟨h', heq, ⟨_, hl, ⟨hnode.isLeaf, hnode.numKeys, hnode.keys, hch, hnode.parent⟩⟩, hrew'⟩

/-- A key and the child in front of it. -/
theorem Adopting.entry {h₀ h : BPHeap ρ} {p : NodeRef} {ks : List ℤ} {cs : List NodeRef}
    {parent : Option NodeRef} (ha : Adopting h₀ h p ks cs parent) (hlen : ks.length = cs.length)
    (hroom : ks.length < bptreeMaxKeys) (k : ℤ) {c : NodeRef} {child : BPTreeNode ρ}
    (hc : h₀.load c = some child) (hne : c ≠ p) :
    ∃ h', bptreeAdoptEntry h p ks.length k (some c) = some h' ∧
      Adopting h₀ h' p (ks ++ [k]) (cs ++ [c]) parent := by
  obtain ⟨⟨node, hp, hnode⟩, hrew⟩ := ha
  obtain ⟨keys, hkw, hkh⟩ := hnode.keys.write_end k hroom
  let node₁ : BPTreeNode ρ := { node with keys := keys }
  have hl₁ := BPHeap.load_put hp node₁
  have hp₁ : (h.put p node₁).load p = some node₁ := by rw [hl₁, if_pos rfl]
  have hrew₁ : Rewired h₀ (h.put p node₁) p cs :=
    ⟨hrew.root, by simpa using hrew.supply, fun q hq => by rw [hl₁, if_neg hq, hrew.load q hq]⟩
  obtain ⟨h₂, children, heq, hp₂, hch, hrew₂⟩ :=
    adoptChild_load hp₁ hnode.children hrew₁ (lt_of_lt_of_le (hlen ▸ hroom) (by decide)) hc hne
  let node₃ : BPTreeNode ρ := { node₁ with children := children, numKeys := node.numKeys + 1 }
  have hl₃ := BPHeap.load_put hp₂ node₃
  refine ⟨h₂.put p node₃, ?_, ⟨node₃, by rw [hl₃, if_pos rfl], hnode.isLeaf, ?_, hkh, hch,
    hnode.parent⟩,
    ⟨hrew₂.root, by simpa using hrew₂.supply, fun q hq => by rw [hl₃, if_neg hq, hrew₂.load q hq]⟩⟩
  · unfold bptreeAdoptEntry
    refine bind_eq_of_eq_some (BPHeap.modify_eq hp (bind_eq_of_eq_some hkw rfl)) ?_
    rw [hlen]
    exact bind_eq_of_eq_some heq (BPHeap.modify_eq hp₂ rfl)
  · simp [node₃, hnode.numKeys]

/-- A loop that fills half a node with a segment of the temporary arrays. -/
theorem adoptEntries_spec {keys : CArray ℤ bptreeOrder}
    {children : CArray (Option NodeRef) (bptreeOrder + 1)} {ks : List ℤ} {cs : List NodeRef}
    (hk : keys.Holds ks) (hch : children.Holds (cs.map some)) (lo count : ℕ)
    (hks : lo + count ≤ ks.length) (hcs : lo + count ≤ cs.length) (hcount : count ≤ bptreeMaxKeys)
    {h₀ h : BPHeap ρ} {p : NodeRef} {parent : Option NodeRef}
    (hload : ∀ c ∈ cs, c ≠ p ∧ ∃ child, h₀.load c = some child)
    (body : ℕ → BPHeap ρ → Option (BPHeap ρ))
    (hbody : ∀ i h k c, (∃ node, h.load p = some node ∧ node.numKeys = i - lo) →
      keys.read i = some k → children.read i = some c →
        body i h = bptreeAdoptEntry h p (i - lo) k c)
    (h0 : Adopting h₀ h p [] [] parent) :
    ∃ h', forUp body lo count h = some h' ∧
      Adopting h₀ h' p ((ks.drop lo).take count) ((cs.drop lo).take count) parent := by
  -- after the rounds below `i` the node holds the segment up to `i`
  obtain ⟨h', hrun, ha⟩ := forUp_spec body
    (fun i h => Adopting h₀ h p ((ks.drop lo).take (i - lo)) ((cs.drop lo).take (i - lo)) parent)
    lo count (s := h) (by simpa using h0)
    (fun i h hlo hhi ha => by
      have hi : i < ks.length := by omega
      have hi' : i < cs.length := by omega
      have hlk : ((ks.drop lo).take (i - lo)).length = i - lo := by
        rw [List.length_take, List.length_drop]
        omega
      have hlc : ((cs.drop lo).take (i - lo)).length = i - lo := by
        rw [List.length_take, List.length_drop]
        omega
      obtain ⟨hne, child, hc⟩ := hload cs[i] (List.getElem_mem hi')
      obtain ⟨h', hentry, ha'⟩ := ha.entry (by omega) (by omega) ks[i] hc hne
      rw [hlk] at hentry
      obtain ⟨node, hp, hnode⟩ := ha.node
      refine ⟨h', ?_, ?_⟩
      · rw [hbody i h ks[i] (some cs[i]) ⟨node, hp, by rw [hnode.numKeys, hlk]⟩ (hk.read hi)
          (hch i _ (by simp [List.getElem?_eq_getElem hi'])), hentry]
      · rw [show i + 1 - lo = i - lo + 1 by omega, List.take_add_one, List.take_add_one,
          List.getElem?_drop, List.getElem?_drop, show lo + (i - lo) = i by omega,
          List.getElem?_eq_getElem hi, List.getElem?_eq_getElem hi']
        exact ha')
  exact ⟨h', hrun, by rwa [Nat.add_sub_cancel_left] at ha⟩

/-- Filling an empty node with a segment of the temporary arrays and the child behind it. -/
theorem adoptHalf_spec {keys : CArray ℤ bptreeOrder}
    {children : CArray (Option NodeRef) (bptreeOrder + 1)} {ks : List ℤ} {cs : List NodeRef}
    (hk : keys.Holds ks) (hch : children.Holds (cs.map some)) (lo count : ℕ)
    (hks : lo + count ≤ ks.length) (hcs : lo + count < cs.length) (hcount : count ≤ bptreeMaxKeys)
    {h : BPHeap ρ} {p : NodeRef} {node : BPTreeNode ρ} (hp : h.load p = some node)
    (node₀ : BPTreeNode ρ) (hleaf : node₀.isLeaf = false) (hnumKeys : node₀.numKeys = 0)
    (hload : ∀ c ∈ cs, c ≠ p ∧ ∃ child, h.load c = some child)
    (body : ℕ → BPHeap ρ → Option (BPHeap ρ))
    (hbody : ∀ i h k c, (∃ node, h.load p = some node ∧ node.numKeys = i - lo) →
      keys.read i = some k → children.read i = some c →
        body i h = bptreeAdoptEntry h p (i - lo) k c) :
    ∃ h₁ node₁ c h', forUp body lo count (h.put p node₀) = some h₁ ∧
      h₁.load p = some node₁ ∧ node₁.numKeys = count ∧
      children.read (lo + count) = some (some c) ∧
      bptreeAdoptChild h₁ p count (some c) = some h' ∧
      Adopting h h' p ((ks.drop lo).take count) ((cs.drop lo).take (count + 1)) node₀.parent := by
  have hl₀ := BPHeap.load_put hp node₀
  have hstart : Adopting h (h.put p node₀) p [] [] node₀.parent :=
    ⟨⟨node₀, by rw [hl₀, if_pos rfl], hleaf, hnumKeys, holds_nil _, holds_nil _, rfl⟩,
      ⟨rfl, by simp, fun x hx => by rw [hl₀, if_neg hx]; simp⟩⟩
  obtain ⟨h₁, hrun, ha⟩ :=
    adoptEntries_spec hk hch lo count hks hcs.le hcount hload body hbody hstart
  obtain ⟨hne, child, hc⟩ := hload cs[lo + count] (List.getElem_mem hcs)
  have hlen : ((cs.drop lo).take count).length = count := by
    rw [List.length_take, List.length_drop]
    omega
  obtain ⟨h', hchild, ha'⟩ := ha.child (by rw [hlen]; exact Nat.lt_succ_of_le hcount) hc hne
  rw [hlen] at hchild
  obtain ⟨⟨node₁, hp₁, hnode₁⟩, -⟩ := ha
  have hnext : (cs.drop lo)[count]? = some cs[lo + count] := by
    rw [List.getElem?_drop, List.getElem?_eq_getElem hcs]
  refine ⟨h₁, node₁, _, h', hrun, hp₁, ?_, ?_, hchild, ?_⟩
  · rw [hnode₁.numKeys, List.length_take, List.length_drop]
    omega
  · exact hch _ _ (by rw [List.getElem?_map, List.getElem?_eq_getElem hcs, Option.map_some])
  · rw [List.take_add_one, hnext]
    exact ha'

/-! ### Cutting an inner node in two -/

/-- The nodes in `left` were given the parent `p`, those in `right` the parent `q`; of the others
only `p` and `q` may have changed. -/
structure Parted (h h' : BPHeap ρ) (p q : NodeRef) (left right : List NodeRef) : Prop where
  root : h'.root = h.root
  load : ∀ x ≠ p, x ≠ q → h'.load x = (h.load x).map fun node =>
    if x ∈ right then { node with parent := some q }
    else if x ∈ left then { node with parent := some p } else node

/-- A full inner node that takes a further child is cut in two. -/
theorem bptreeSplitInternal_granted {h : BPHeap ρ} {p : NodeRef} {node : BPTreeNode ρ}
    {ks : List ℤ} {cs : List NodeRef} {parent : Option NodeRef} (hp : h.load p = some node)
    (hnode : node.IsBranchOf ks cs parent) (hks : ks.length = bptreeMaxKeys)
    (hcs : cs.length = ks.length + 1) {i : ℕ} (hi : i ≤ ks.length) (key : ℤ) {right : NodeRef}
    (hload : ∀ c ∈ cs.insertIdx (i + 1) right, c ≠ p ∧ ∃ child, h.load c = some child)
    {q : NodeRef} {s : Supply} (hs : h.supply.take = (some q, s)) :
    ∃ h' left rnode, bptreeSplitInternal h p i key right =
        some (h', some ((ks.insertIdx i key).getD 2 key, q)) ∧ h'.supply = s ∧
      h'.load p = some left ∧
      left.IsBranchOf ((ks.insertIdx i key).take 2) ((cs.insertIdx (i + 1) right).take 3) parent ∧
      h'.load q = some rnode ∧
      rnode.IsBranchOf ((ks.insertIdx i key).drop 3) ((cs.insertIdx (i + 1) right).drop 3) parent ∧
      Parted h h' p q ((cs.insertIdx (i + 1) right).take 3)
        ((cs.insertIdx (i + 1) right).drop 3) := by
  obtain ⟨h₁, hcreate, hq, hroot₁, hs₁, hq₁, hl₁⟩ := bptreeCreateNode_granted hs false
  have hp₁ : h₁.load p = some node := (hl₁ p (BPHeap.ne_of_load hp hq)).trans hp
  obtain ⟨keys, children, hmerge, hk, hch⟩ :=
    bptreeMergeInternal_spec hnode (by rw [hks]; decide) hcs hi key right
  set ks' := ks.insertIdx i key with hks'
  set cs' := cs.insertIdx (i + 1) right with hcs'
  have hlk : ks'.length = 4 := by
    rw [hks', List.length_insertIdx_of_le_length hi, hks]
    rfl
  have hlc : cs'.length = 5 := by
    rw [hcs', List.length_insertIdx_of_le_length (by omega), hcs, hks]
    rfl
  have hload₁ : ∀ c ∈ cs', c ≠ p ∧ ∃ child, h₁.load c = some child := fun c hc => by
    obtain ⟨hne, child, hcl⟩ := hload c hc
    exact ⟨hne, child, (hl₁ c (BPHeap.ne_of_load hcl hq)).trans hcl⟩
  -- the left half
  obtain ⟨h₂, -, c₂, h₃, hrun₂, -, -, hread₂, hrun₃, ha₃⟩ := adoptHalf_spec hk hch 0 2 (by omega)
    (by omega) (by decide) hp₁ { node with numKeys := 0 } hnode.isLeaf rfl hload₁
    (fun index h => (keys.read index).bind fun k =>
      (children.read index).bind fun c => bptreeAdoptEntry h p index k c)
    (fun j h k c _ hkj hcj => by simp [hkj, hcj])
  simp only [List.drop_zero, Nat.reduceAdd, hnode.parent] at ha₃
  obtain ⟨⟨left, hp₃, hleft⟩, hrew₃⟩ := ha₃
  -- the right half
  have hqcs : ∀ c ∈ cs', c ≠ q := fun c hc => by
    obtain ⟨-, child, hcl⟩ := hload c hc
    exact BPHeap.ne_of_load hcl hq
  have hqp : q ≠ p := (BPHeap.ne_of_load hp hq).symm
  have hq₃ : h₃.load q = some (.zeroed false) := by
    rw [hrew₃.load_of_notMem hqp fun hmem => hqcs q (List.mem_of_mem_take hmem) rfl, hq₁]
  have hload₃ : ∀ c ∈ cs', c ≠ q ∧ ∃ child, h₃.load c = some child := fun c hc => by
    obtain ⟨hne, child, hcl⟩ := hload₁ c hc
    exact ⟨hqcs c hc, _, by rw [hrew₃.load c hne, hcl, Option.map_some]⟩
  obtain ⟨h₅, nd₅, c₅, h₆, hrun₅, hq₅, hn₅, hread₅, hrun₆, ha₆⟩ := adoptHalf_spec hk hch 3 1
    (by omega) (by omega) (by decide) hq₃ { BPTreeNode.zeroed false with parent := left.parent }
    rfl rfl hload₃
    (fun index h => (h.load q).bind fun nd =>
      (keys.read index).bind fun k => (children.read index).bind fun c =>
        bptreeAdoptEntry h q nd.numKeys k c)
    (fun j h k c hnd hkj hcj => by
      obtain ⟨nd, hnd, hn⟩ := hnd
      simp [hnd, hkj, hcj, hn])
  rw [← hn₅] at hrun₆
  have hdropk : (ks'.drop 3).take 1 = ks'.drop 3 :=
    List.take_of_length_le (by rw [List.length_drop]; omega)
  have hdropc : (cs'.drop 3).take 2 = cs'.drop 3 :=
    List.take_of_length_le (by rw [List.length_drop]; omega)
  rw [hdropk, hdropc] at ha₆
  obtain ⟨⟨rnode, hq₆, hrnode⟩, hrew₆⟩ := ha₆
  rw [hleft.parent] at hrnode
  refine ⟨h₆, left, rnode, ?_, ?_, ?_, hleft, hq₆, hrnode, ?_, fun x hxp hxq => ?_⟩
  · unfold bptreeSplitInternal
    rw [hcreate]
    refine bind_eq_of_eq_some hp₁ (bind_eq_of_eq_some hmerge ?_)
    refine bind_eq_of_eq_some (BPHeap.modify_eq hp₁ rfl) (bind_eq_of_eq_some hrun₂ ?_)
    refine bind_eq_of_eq_some hread₂ (bind_eq_of_eq_some hrun₃ ?_)
    refine bind_eq_of_eq_some (hk.read (by omega : 2 < ks'.length)) ?_
    refine bind_eq_of_eq_some hp₃ (bind_eq_of_eq_some (BPHeap.modify_eq hq₃ rfl) ?_)
    refine bind_eq_of_eq_some hrun₅ (bind_eq_of_eq_some hq₅ ?_)
    refine bind_eq_of_eq_some hread₅ (bind_eq_of_eq_some hrun₆ ?_)
    rw [List.getD_eq_getElem?_getD, List.getElem?_eq_getElem (by omega), Option.getD_some]
  · rw [hrew₆.supply, hrew₃.supply, hs₁]
  · rw [hrew₆.load_of_notMem hqp.symm fun hmem => (hload p (List.mem_of_mem_drop hmem)).1 rfl, hp₃]
  · rw [hrew₆.root, hrew₃.root, hroot₁]
  · rw [hrew₆.load x hxq, hrew₃.load x hxp, hl₁ x hxq, Option.map_map]
    congr 1
    funext nd
    simp only [Function.comp_apply]
    split_ifs <;> rfl

/-- Without memory nothing happens. -/
theorem bptreeSplitInternal_refused {h : BPHeap ρ} (p : NodeRef) (i : ℕ) (key : ℤ)
    (right : NodeRef) {s : Supply} (hs : h.supply.take = (none, s)) :
    ∃ h', bptreeSplitInternal h p i key right = some (h', none) ∧ h'.toBPTree = h.toBPTree ∧
      h'.supply = s := by
  obtain ⟨h', hcreate, ht, hs'⟩ := bptreeCreateNode_refused hs false
  exact ⟨h', by rw [bptreeSplitInternal, hcreate], ht, hs'⟩

/-! ### Cutting a leaf in two -/

/-- A full leaf is cut in two, and the first key of the right part goes up. -/
theorem bptreeSplitLeaf_granted {h : BPHeap ρ} {p : NodeRef} {node : BPTreeNode ρ}
    {es : List (ℤ × Option ρ)} {parent : Option NodeRef} (hp : h.load p = some node)
    (hnode : node.IsLeafOf es parent) (hes : es.length = bptreeMaxKeys) (x : ℤ × Option ρ)
    {q : NodeRef} {s : Supply} (hs : h.supply.take = (some q, s)) :
    ∃ h', bptreeSplitLeaf h p x.1 x.2 =
        some (h', some ((SortedAssoc.keys (insertEntry x es)).getD 2 x.1, q)) ∧
      h'.root = h.root ∧ h'.supply = s ∧
      (∃ left, h'.load p = some left ∧ left.IsLeafOf ((insertEntry x es).take 2) parent) ∧
      (∃ right, h'.load q = some right ∧ right.IsLeafOf ((insertEntry x es).drop 2) parent) ∧
      ∀ c ≠ p, c ≠ q → h'.load c = h.load c := by
  obtain ⟨h₁, hcreate, hq, hroot₁, hs₁, hq₁, hl₁⟩ := bptreeCreateNode_granted hs true
  have hpq : p ≠ q := BPHeap.ne_of_load hp hq
  have hp₁ : h₁.load p = some node := (hl₁ p hpq).trans hp
  have hfind := hnode.bptreeFindInsertIndex x.1
  have hpos : ((SortedAssoc.keys es).takeWhile (· < x.1)).length ≤ es.length := by
    have := (List.takeWhile_sublist (· < x.1) (l := SortedAssoc.keys es)).length_le
    rwa [SortedAssoc.keys, List.length_map] at this
  obtain ⟨temp, hmerge, hk, hv⟩ := bptreeMergeLeaf_spec hnode (by rw [hes]; decide) hpos x
  rw [← insertEntry_eq_insertIdx] at hk hv
  have hlen : (insertEntry x es).length = 4 := by
    rw [length_insertEntry, hes]
    rfl
  set es' := insertEntry x es with hes'
  -- the left half
  obtain ⟨left, hrun, hleft, hnext⟩ := putEntries_spec hk hv 0 2 (by omega)
    (by decide) (fun index _ => index) (fun i _ _ => rfl)
    { node with numKeys := 0 }
    ⟨hnode.isLeaf, rfl, holds_nil _, holds_nil _, hnode.parent⟩
  have hl₂ := BPHeap.load_put hp₁ left
  have hp₂ : (h₁.put p left).load p = some left := by rw [hl₂, if_pos rfl]
  have hq₂ : (h₁.put p left).load q = some (.zeroed true) := by rw [hl₂, if_neg hpq.symm, hq₁]
  -- the right half
  obtain ⟨right, hrun', hright, -⟩ := putEntries_spec hk hv 2 2 (by omega)
    (by decide) (fun _ node => node.numKeys) (fun i _ h => h)
    { BPTreeNode.zeroed true with parent := left.parent }
    ⟨rfl, rfl, holds_nil _, holds_nil _, hleft.parent⟩
  rw [List.take_of_length_le (by rw [List.length_drop]; omega)] at hright
  have hl₃ := BPHeap.load_put hq₂ right
  have hp₃ : ((h₁.put p left).put q right).load p = some left := by rw [hl₃, if_neg hpq, hp₂]
  have hq₃ : ((h₁.put p left).put q right).load q = some right := by rw [hl₃, if_pos rfl]
  -- the chain of leaves
  let right' : BPTreeNode ρ := { right with next := left.next }
  let left' : BPTreeNode ρ := { left with next := some q }
  have hl₄ := BPHeap.load_put hq₃ right'
  have hp₄ : (((h₁.put p left).put q right).put q right').load p = some left := by
    rw [hl₄, if_neg hpq, hp₃]
  have hl₅ := BPHeap.load_put hp₄ left'
  have hq₅ : ((((h₁.put p left).put q right).put q right').put p left').load q = some right' := by
    rw [hl₅, if_neg hpq.symm, hl₄, if_pos rfl]
  have hsep : right'.keys.read 0 = some ((SortedAssoc.keys es').getD 2 x.1) := by
    have hlk : (es'.map Prod.fst).length = 4 := by rw [List.length_map, hlen]
    refine hright.keys 0 _ ?_
    rw [SortedAssoc.keys, List.map_drop, List.getElem?_drop, List.getD_eq_getElem?_getD,
      List.getElem?_eq_getElem (by omega), Option.getD_some]
  refine ⟨(((h₁.put p left).put q right).put q right').put p left', ?_, hroot₁, by simpa using hs₁,
    ⟨left', by rw [hl₅, if_pos rfl], ?_⟩, ⟨right', hq₅, ?_⟩, fun c hcp hcq => ?_⟩
  · unfold bptreeSplitLeaf
    refine bind_eq_of_eq_some hp (bind_eq_of_eq_some hfind ?_)
    rw [hcreate]
    refine bind_eq_of_eq_some hmerge (bind_eq_of_eq_some (BPHeap.modify_eq hp₁ hrun) ?_)
    refine bind_eq_of_eq_some hp₂ (bind_eq_of_eq_some (BPHeap.modify_eq hq₂ hrun') ?_)
    refine bind_eq_of_eq_some hp₃ (bind_eq_of_eq_some (BPHeap.modify_eq hq₃ rfl) ?_)
    refine bind_eq_of_eq_some (BPHeap.modify_eq hp₄ rfl) (bind_eq_of_eq_some hq₅ ?_)
    exact bind_eq_of_eq_some hsep rfl
  · exact ⟨hleft.isLeaf, hleft.numKeys, hleft.keys, hleft.values, hleft.parent⟩
  · exact ⟨hright.isLeaf, hright.numKeys, hright.keys, hright.values, hright.parent⟩
  · rw [hl₅, if_neg hcp, hl₄, if_neg hcq, hl₃, if_neg hcq, hl₂, if_neg hcp, hl₁ c hcq]

/-- Without memory nothing happens. -/
theorem bptreeSplitLeaf_refused {h : BPHeap ρ} {p : NodeRef} {node : BPTreeNode ρ}
    {es : List (ℤ × Option ρ)} {parent : Option NodeRef} (hp : h.load p = some node)
    (hnode : node.IsLeafOf es parent) (x : ℤ × Option ρ) {s : Supply}
    (hs : h.supply.take = (none, s)) :
    ∃ h', bptreeSplitLeaf h p x.1 x.2 = some (h', none) ∧ h'.toBPTree = h.toBPTree ∧
      h'.supply = s := by
  obtain ⟨h', hcreate, ht, hs'⟩ := bptreeCreateNode_refused hs true
  have hfind := hnode.bptreeFindInsertIndex x.1
  refine ⟨h', ?_, ht, hs'⟩
  unfold bptreeSplitLeaf
  refine bind_eq_of_eq_some hp (bind_eq_of_eq_some hfind ?_)
  rw [hcreate]

/-! ### A new root -/

/-- The tree grows by one level. -/
theorem bptreeCreateNewRoot_granted {h : BPHeap ρ} {left right : NodeRef}
    {lnode rnode : BPTreeNode ρ} (hleft : h.load left = some lnode)
    (hright : h.load right = some rnode) (hne : left ≠ right) (key : ℤ) {q : NodeRef} {s : Supply}
    (hs : h.supply.take = (some q, s)) :
    ∃ h' node, bptreeCreateNewRoot h left key right = some (h', true) ∧ h'.root = some q ∧
      h'.supply = s ∧ h'.load q = some node ∧ node.IsBranchOf [key] [left, right] none ∧
      ∀ x ≠ q, h'.load x = (h.load x).map fun node =>
        if x ∈ [left, right] then { node with parent := some q } else node := by
  obtain ⟨h₁, hcreate, hq, hroot₁, hs₁, hq₁, hl₁⟩ := bptreeCreateNode_granted hs false
  have hlq := BPHeap.ne_of_load hleft hq
  have hrq := BPHeap.ne_of_load hright hq
  obtain ⟨keys, hkw, hkh⟩ := (holds_nil (BPTreeNode.zeroed (ρ := ρ) false).keys).write_end key
    (by decide)
  obtain ⟨ch₁, hcw₁, hch₁⟩ := (holds_nil (BPTreeNode.zeroed (ρ := ρ) false).children).write_end
    (some left) (by decide)
  obtain ⟨ch₂, hcw₂, hch₂⟩ := hch₁.write_end (some right)
    (by rw [List.nil_append, List.length_singleton]; decide)
  -- the new root is stored, and then the parents of its children
  let node : BPTreeNode ρ :=
    { BPTreeNode.zeroed false with keys := keys, children := ch₂, numKeys := 1 }
  have hl₂ := BPHeap.load_put hq₁ node
  have hleft₂ : (h₁.put q node).load left = some lnode := by
    rw [hl₂, if_neg hlq, hl₁ _ hlq, hleft]
  let lnode' : BPTreeNode ρ := { lnode with parent := some q }
  let rnode' : BPTreeNode ρ := { rnode with parent := some q }
  have hl₃ := BPHeap.load_put hleft₂ lnode'
  have hright₃ : ((h₁.put q node).put left lnode').load right = some rnode := by
    rw [hl₃, if_neg hne.symm, hl₂, if_neg hrq, hl₁ _ hrq, hright]
  have hl₄ := BPHeap.load_put hright₃ rnode'
  refine ⟨{ (((h₁.put q node).put left lnode').put right rnode') with root := some q }, node, ?_,
    rfl, ?_, ?_, ⟨rfl, rfl, by simpa using hkh, by simpa using hch₂, rfl⟩,
    fun x hx => ?_⟩
  · unfold bptreeCreateNewRoot
    rw [hcreate]
    refine bind_eq_of_eq_some (BPHeap.modify_eq hq₁ (bind_eq_of_eq_some hkw
      (bind_eq_of_eq_some hcw₁ (bind_eq_of_eq_some hcw₂ rfl)))) ?_
    · refine bind_eq_of_eq_some (BPHeap.modify_eq hleft₂ rfl) ?_
      exact bind_eq_of_eq_some (BPHeap.modify_eq hright₃ rfl) rfl
  · show (((h₁.put q node).put left lnode').put right rnode').supply = s
    simpa using hs₁
  · rw [show ∀ t : BPHeap ρ, ({ t with root := some q } : BPHeap ρ).load q = t.load q from
      fun _ => rfl, hl₄, if_neg hrq.symm, hl₃, if_neg hlq.symm, hl₂, if_pos rfl]
  · rw [show ∀ t : BPHeap ρ, ({ t with root := some q } : BPHeap ρ).load x = t.load x from
      fun _ => rfl, hl₄, hl₃, hl₂, if_neg hx, hl₁ x hx]
    by_cases hxr : x = right
    · subst hxr
      simp [hright, rnode']
    · by_cases hxl : x = left
      · subst hxl
        simp [hxr, hleft, lnode']
      · simp [hxr, hxl]

/-- Without memory nothing happens. -/
theorem bptreeCreateNewRoot_refused {h : BPHeap ρ} (left : NodeRef) (key : ℤ) (right : NodeRef)
    {s : Supply} (hs : h.supply.take = (none, s)) :
    ∃ h', bptreeCreateNewRoot h left key right = some (h', false) ∧
      h'.toBPTree = h.toBPTree ∧ h'.supply = s := by
  obtain ⟨h', hcreate, ht, hs'⟩ := bptreeCreateNode_refused hs false
  exact ⟨h', by rw [bptreeCreateNewRoot, hcreate], ht, hs'⟩

end MiniDbms
