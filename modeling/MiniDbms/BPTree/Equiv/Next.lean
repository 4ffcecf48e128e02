import MiniDbms.BPTree.Equiv.Heap

/-!
# The `next` pointers during an insertion

`BPHeap.nexts` lists the `next` fields of all nodes.  A call that changes the nodes keeps them, but
for new ones (`KeepsNext`): the leaf split alone writes `next`, at the leaf that it cuts and at the
new one behind it (`bptreeSplitLeafAndInsert_nexts`).
-/

namespace MiniDbms

open CArray

variable {ρ : Type}

/-- The `next` fields of the nodes. -/
def BPHeap.nexts (h : BPHeap ρ) : List (Option NodeRef) := h.nodes.map (·.next)

/-- When the call returns, the `next` fields of the nodes in `h` are as they were. -/
def KeepsNext {α : Type} (h : BPHeap ρ) (heap : α → BPHeap ρ) (o : Option α) : Prop :=
  ∀ a, o = some a → h.nexts <+: (heap a).nexts

namespace KeepsNext

variable {α β : Type} {h h' : BPHeap ρ} {heap : α → BPHeap ρ} {heap' : β → BPHeap ρ}

theorem of_none : KeepsNext h heap none := by
  intro a ha
  cases ha

theorem ret {a : α} (ha : h.nexts <+: (heap a).nexts) : KeepsNext h heap (some a) := by
  intro a' ha'
  cases ha'
  exact ha

/-- A call after a call. -/
theorem bind {o : Option α} {f : α → Option β} (ho : KeepsNext h heap o)
    (hf : ∀ a, KeepsNext (heap a) heap' (f a)) : KeepsNext h heap' (o.bind f) := by
  intro b hb
  obtain ⟨a, ha, hfa⟩ := Option.bind_eq_some_iff.mp hb
  exact (ho a ha).trans (hf a b hfa)

theorem seq {o : Option (BPHeap ρ)} {f : BPHeap ρ → Option β} (ho : KeepsNext h id o)
    (hf : ∀ h, KeepsNext h heap' (f h)) : KeepsNext h heap' (o.bind f) := ho.bind hf

/-- A call after a step that only reads. -/
theorem bind_read {o : Option α} {f : α → Option β} (hf : ∀ a, KeepsNext h heap' (f a)) :
    KeepsNext h heap' (o.bind f) := by
  intro b hb
  obtain ⟨a, -, hfa⟩ := Option.bind_eq_some_iff.mp hb
  exact hf a b hfa

theorem map {o : Option α} {f : α → β} (ho : KeepsNext h heap o)
    (hf : ∀ a, heap' (f a) = heap a) : KeepsNext h heap' (o.map f) := by
  intro b hb
  obtain ⟨a, ha, rfl⟩ := Option.map_eq_some_iff.mp hb
  rw [hf]
  exact ho a ha

theorem of_le {o : Option α} (hh : h.nexts <+: h'.nexts) (ho : KeepsNext h' heap o) :
    KeepsNext h heap o := fun a ha => hh.trans (ho a ha)

/-- A counted loop. -/
theorem forUp {body : ℕ → BPHeap ρ → Option (BPHeap ρ)}
    (hbody : ∀ i h, KeepsNext h id (body i h)) (lo count : ℕ) (h : BPHeap ρ) :
    KeepsNext h id (CArray.forUp body lo count h) := by
  induction count generalizing lo h with
  | zero => exact ret (List.prefix_refl _)
  | succ count ih => exact (hbody lo h).bind fun h' => ih (lo + 1) h'

end KeepsNext

/-! ### Statements on one node -/

theorem BPHeap.nexts_modify {h h' : BPHeap ρ} {p : NodeRef}
    {f : BPTreeNode ρ → Option (BPTreeNode ρ)} (hrun : h.modify p f = some h') :
    ∃ node node', h.load p = some node ∧ f node = some node' ∧
      h'.nexts = h.nexts.set p node'.next := by
  obtain ⟨node, hl, hrun⟩ := Option.bind_eq_some_iff.mp hrun
  obtain ⟨node', hf, hrun⟩ := Option.bind_eq_some_iff.mp hrun
  rw [store, if_pos (BPHeap.lt_of_load hl)] at hrun
  cases hrun
  exact ⟨node, node', hl, hf, List.map_set⟩

/-- A statement that does not write `next`. -/
theorem BPHeap.nexts_modify_of_next {h h' : BPHeap ρ} {p : NodeRef}
    {f : BPTreeNode ρ → Option (BPTreeNode ρ)}
    (hf : ∀ node node', f node = some node' → node'.next = node.next)
    (hrun : h.modify p f = some h') : h'.nexts = h.nexts := by
  obtain ⟨node, node', hl, hnode, heq⟩ := nexts_modify hrun
  rw [heq, hf node node' hnode]
  obtain ⟨hlt, rfl⟩ := List.getElem?_eq_some_iff.mp hl
  rw [nexts, ← List.map_set, List.set_getElem_self]

theorem KeepsNext.modify {h : BPHeap ρ} {p : NodeRef} {f : BPTreeNode ρ → Option (BPTreeNode ρ)}
    (hf : ∀ node node', f node = some node' → node'.next = node.next) :
    KeepsNext h id (h.modify p f) := fun _ hrun => by
  rw [← BPHeap.nexts_modify_of_next hf hrun]
  exact List.prefix_refl _

/-- A fresh node points nowhere. -/
theorem bptreeCreateNode_nexts {h h' : BPHeap ρ} {isLeaf : Bool} {p : NodeRef}
    (hrun : bptreeCreateNode h isLeaf = (some p, h')) :
    p = h.nodes.length ∧ h'.nexts = h.nexts ++ [none] := by
  unfold bptreeCreateNode at hrun
  split_ifs at hrun
  · cases hrun
    exact ⟨rfl, List.map_append⟩
  · cases hrun

theorem bptreeCreateNode_nexts_refused {h h' : BPHeap ρ} {isLeaf : Bool}
    (hrun : bptreeCreateNode h isLeaf = (none, h')) : h'.nexts = h.nexts := by
  unfold bptreeCreateNode at hrun
  split_ifs at hrun
  · cases hrun
  · cases hrun
    rfl

theorem bptreeCreateNode_keepsNexts {h h' : BPHeap ρ} {isLeaf : Bool} {p : Option NodeRef}
    (hrun : bptreeCreateNode h isLeaf = (p, h')) : h.nexts <+: h'.nexts := by
  cases p with
  | none => exact (bptreeCreateNode_nexts_refused hrun) ▸ List.prefix_refl h'.nexts
  | some p =>
    rw [(bptreeCreateNode_nexts hrun).2]
    exact List.prefix_append _ _

/-! ### The calls on inner nodes -/

theorem bptreeCreateNewRoot_keepsNext (h : BPHeap ρ) (left : NodeRef) (key : ℤ) (right : NodeRef) :
    KeepsNext h Prod.fst (bptreeCreateNewRoot h left key right) := by
  unfold bptreeCreateNewRoot
  rcases hc : bptreeCreateNode h false with ⟨_ | root, h₁⟩
  · exact .ret (bptreeCreateNode_keepsNexts hc)
  · refine .of_le (bptreeCreateNode_keepsNexts hc) ?_
    refine .seq (.modify fun node node' hf => ?_) fun h₂ => ?_
    · simp only [Option.bind_eq_bind, Option.bind_eq_some_iff] at hf
      obtain ⟨_, _, _, _, _, _, hf⟩ := hf
      cases hf
      rfl
    · refine .seq (.modify fun _ _ hf => by cases hf; rfl) fun h₃ => ?_
      refine .seq (.modify fun _ _ hf => by cases hf; rfl) fun h₄ => ?_
      exact .ret (List.prefix_refl _)

theorem bptreeInsertIntoInternal_keepsNext (h : BPHeap ρ) (parent : NodeRef) (insertIndex : ℕ)
    (key : ℤ) (rightChild : NodeRef) :
    KeepsNext h id (bptreeInsertIntoInternal h parent insertIndex key rightChild) := by
  unfold bptreeInsertIntoInternal
  refine .seq (.modify fun node node' hf => ?_) fun h₁ => ?_
  · simp only [Option.bind_eq_bind, Option.bind_eq_some_iff] at hf
    obtain ⟨_, _, _, _, _, _, _, _, hf⟩ := hf
    cases hf
    rfl
  · refine .seq (.modify fun _ _ hf => by cases hf; rfl) fun h₂ => ?_
    exact .modify fun _ _ hf => by cases hf; rfl

theorem bptreeAdoptChild_keepsNext (h : BPHeap ρ) (node : NodeRef) (slot : ℕ)
    (child : Option NodeRef) : KeepsNext h id (bptreeAdoptChild h node slot child) := by
  unfold bptreeAdoptChild
  refine .seq (.modify fun nd nd' hf => ?_) fun h₁ => ?_
  · simp only [Option.bind_eq_bind, Option.bind_eq_some_iff] at hf
    obtain ⟨_, _, hf⟩ := hf
    cases hf
    rfl
  · cases child with
    | none => exact .ret (List.prefix_refl _)
    | some child => exact .modify fun _ _ hf => by cases hf; rfl

theorem bptreeAdoptEntry_keepsNext (h : BPHeap ρ) (node : NodeRef) (slot : ℕ) (key : ℤ)
    (child : Option NodeRef) : KeepsNext h id (bptreeAdoptEntry h node slot key child) := by
  unfold bptreeAdoptEntry
  refine .seq (.modify fun nd nd' hf => ?_) fun h₁ => ?_
  · simp only [Option.bind_eq_bind, Option.bind_eq_some_iff] at hf
    obtain ⟨_, _, hf⟩ := hf
    cases hf
    rfl
  · refine .seq (bptreeAdoptChild_keepsNext h₁ node slot child) fun h₂ => ?_
    exact .modify fun _ _ hf => by cases hf; rfl

theorem bptreeSplitInternal_keepsNext (h : BPHeap ρ) (parent : NodeRef) (insertIndex : ℕ)
    (key : ℤ) (rightChild : NodeRef) :
    KeepsNext h Prod.fst (bptreeSplitInternal h parent insertIndex key rightChild) := by
  unfold bptreeSplitInternal
  rcases hc : bptreeCreateNode h false with ⟨_ | rightParent, h₁⟩
  · exact .ret (bptreeCreateNode_keepsNexts hc)
  · refine .of_le (bptreeCreateNode_keepsNexts hc) ?_
    refine .bind_read fun node => .bind_read fun temp => ?_
    refine .seq (.modify fun _ _ hf => by cases hf; rfl) fun h₂ => ?_
    -- the left half stays
    refine .seq (.forUp (fun i h => ?_) _ _ _) fun h₃ => ?_
    · exact .bind_read fun _ => .bind_read fun _ => bptreeAdoptEntry_keepsNext _ _ _ _ _
    refine .bind_read fun _ => .seq (bptreeAdoptChild_keepsNext _ _ _ _) fun h₄ => ?_
    -- the right half goes to the new node
    refine .bind_read fun _ => .bind_read fun _ => ?_
    refine .seq (.modify fun _ _ hf => by cases hf; rfl) fun h₅ => ?_
    refine .seq (.forUp (fun i h => ?_) _ _ _) fun h₆ => ?_
    · exact .bind_read fun _ => .bind_read fun _ => .bind_read fun _ =>
        bptreeAdoptEntry_keepsNext _ _ _ _ _
    refine .bind_read fun _ => .bind_read fun _ =>
      .seq (bptreeAdoptChild_keepsNext _ _ _ _) fun h₇ => ?_
    exact .ret (List.prefix_refl _)

/-- The climb, from a leaf or from an inner node. -/
theorem climb_keepsNext (fuel : ℕ) :
    (∀ (h : BPHeap ρ) (left : NodeRef) (key : ℤ) (right : NodeRef),
      KeepsNext h Prod.fst (bptreeInsertIntoParent fuel h left key right)) ∧
    ∀ (h : BPHeap ρ) (parent : NodeRef) (insertIndex : ℕ) (key : ℤ) (rightChild : NodeRef),
      KeepsNext h Prod.fst
        (bptreeSplitInternalAndInsert fuel h parent insertIndex key rightChild) := by
  induction fuel with
  | zero => exact ⟨fun h left key right => .of_none, fun h parent index key right => .of_none⟩
  | succ fuel ih =>
    obtain ⟨ihParent, ihSplit⟩ := ih
    refine ⟨fun h left key right => ?_, fun h parent index key right => ?_⟩
    · rw [bptreeInsertIntoParent]
      refine .bind_read fun node => ?_
      cases node.parent with
      | none => exact bptreeCreateNewRoot_keepsNext h left key right
      | some parent =>
        refine .bind_read fun pnode => .bind_read fun index => ?_
        split_ifs
        · exact (bptreeInsertIntoInternal_keepsNext h parent index key right).map fun _ => rfl
        · exact ihSplit h parent index key right
    · rw [bptreeSplitInternalAndInsert]
      refine (bptreeSplitInternal_keepsNext h parent index key right).bind fun res => ?_
      obtain ⟨h₁, _ | ⟨promoteKey, rightParent⟩⟩ := res
      · exact .ret (List.prefix_refl _)
      · exact ihParent h₁ parent promoteKey rightParent

/-! ### The leaf split -/

theorem BPTreeNode.putEntry_next {node node' : BPTreeNode ρ} {slot : ℕ} {key : ℤ}
    {value : Option ρ} (h : node.putEntry slot key value = some node') :
    node'.next = node.next := by
  simp only [BPTreeNode.putEntry, Option.bind_eq_bind, Option.bind_eq_some_iff] at h
  obtain ⟨_, _, _, _, h⟩ := h
  cases h
  rfl

/-- A loop over one node. -/
theorem forUp_next {body : ℕ → BPTreeNode ρ → Option (BPTreeNode ρ)}
    (hbody : ∀ i node node', body i node = some node' → node'.next = node.next) {lo count : ℕ}
    {node node' : BPTreeNode ρ} (h : forUp body lo count node = some node') :
    node'.next = node.next := by
  induction count generalizing lo node with
  | zero =>
    cases h
    rfl
  | succ count ih =>
    obtain ⟨node₁, hfirst, hrest⟩ := Option.bind_eq_some_iff.mp h
    rw [ih hrest, hbody lo node node₁ hfirst]

theorem bptreeInsertIntoLeaf_next {node node' : BPTreeNode ρ} {key : ℤ} {value : Option ρ}
    (h : bptreeInsertIntoLeaf node key value = some node') : node'.next = node.next := by
  simp only [bptreeInsertIntoLeaf, Option.bind_eq_bind, Option.bind_eq_some_iff] at h
  obtain ⟨_, _, _, _, _, _, _, _, h⟩ := h
  cases h
  rfl

/-- What became of the `next` pointers: nothing, or a new node was put behind `leaf`. -/
def NextsAfter (h h' : BPHeap ρ) (leaf : NodeRef) : Prop :=
  h'.nexts = h.nexts ∨ ∃ node, h.load leaf = some node ∧
    h.nexts.set leaf (some h.nodes.length) ++ [node.next] <+: h'.nexts

/-- **The leaf split** puts the new leaf behind the one that it cuts. -/
theorem bptreeSplitLeafAndInsert_nexts {fuel : ℕ} {h h' : BPHeap ρ} {leaf : NodeRef} {key : ℤ}
    {value : Option ρ} {ok : Bool}
    (hrun : bptreeSplitLeafAndInsert fuel h leaf key value = some (h', ok)) :
    NextsAfter h h' leaf := by
  obtain ⟨node, hl, hrun⟩ := Option.bind_eq_some_iff.mp hrun
  obtain ⟨index, -, hrun⟩ := Option.bind_eq_some_iff.mp hrun
  have hlen : h.nexts.length = h.nodes.length := List.length_map _
  have hlt : leaf < h.nexts.length := hlen ▸ BPHeap.lt_of_load hl
  dsimp only at hrun
  rcases hc : bptreeCreateNode h true with ⟨_ | right, h₁⟩ <;> rw [hc] at hrun
  · -- no memory: nothing was written
    cases hrun
    exact .inl (bptreeCreateNode_nexts_refused hc)
  · obtain ⟨rfl, hn₁⟩ := bptreeCreateNode_nexts hc
    obtain ⟨temp, -, hrun⟩ := Option.bind_eq_some_iff.mp hrun
    -- the entries are written
    obtain ⟨h₂, hleft, hrun⟩ := Option.bind_eq_some_iff.mp hrun
    have hn₂ : h₂.nexts = h₁.nexts := BPHeap.nexts_modify_of_next (fun nd nd' hf => by
      refine (forUp_next (fun i nd nd' h => ?_) hf).trans rfl
      simp only [Option.bind_eq_bind, Option.bind_eq_some_iff] at h
      obtain ⟨_, _, _, _, h⟩ := h
      exact BPTreeNode.putEntry_next h) hleft
    obtain ⟨_, -, hrun⟩ := Option.bind_eq_some_iff.mp hrun
    obtain ⟨h₃, hright, hrun⟩ := Option.bind_eq_some_iff.mp hrun
    have hn₃ : h₃.nexts = h₂.nexts := BPHeap.nexts_modify_of_next (fun nd nd' hf => by
      refine (forUp_next (fun i nd nd' h => ?_) hf).trans rfl
      simp only [Option.bind_eq_bind, Option.bind_eq_some_iff] at h
      obtain ⟨_, _, _, _, h⟩ := h
      exact BPTreeNode.putEntry_next h) hright
    -- the chain is closed again
    obtain ⟨node₃, hl₃, hrun⟩ := Option.bind_eq_some_iff.mp hrun
    obtain ⟨h₄, hset, hrun⟩ := Option.bind_eq_some_iff.mp hrun
    obtain ⟨nd, nd', -, hnd, hn₄⟩ := BPHeap.nexts_modify hset
    cases hnd
    obtain ⟨h₅, hset', hrun⟩ := Option.bind_eq_some_iff.mp hrun
    obtain ⟨nd, nd', -, hnd, hn₅⟩ := BPHeap.nexts_modify hset'
    cases hnd
    obtain ⟨_, -, hrun⟩ := Option.bind_eq_some_iff.mp hrun
    obtain ⟨_, -, hrun⟩ := Option.bind_eq_some_iff.mp hrun
    have hn' : h₅.nexts <+: h'.nexts := (climb_keepsNext fuel).1 h₅ leaf _ _ (h', ok) hrun
    have hnext : node₃.next = node.next := by
      have h0 : h₃.nexts[leaf]? = some node₃.next := by
        rw [BPHeap.nexts, List.getElem?_map]
        exact congrArg _ hl₃
      rw [hn₃, hn₂, hn₁, List.getElem?_append_left hlt, BPHeap.nexts, List.getElem?_map] at h0
      have hl' : h.nodes[leaf]? = some node := hl
      rw [hl', Option.map_some] at h0
      exact (Option.some.inj h0).symm
    refine .inr ⟨node, hl, ?_⟩
    have heq : h₅.nexts = h.nexts.set leaf (some h.nodes.length) ++ [node.next] := by
      rw [hn₅, hn₄, hn₃, hn₂, hn₁, hnext, ← hlen, List.set_append_right _ _ le_rfl, Nat.sub_self,
        List.set_cons_zero, List.set_append_left _ _ hlt, hlen]
    rwa [← heq]

/-- An insertion into the leaf of the key. -/
theorem bptreeInsertAt_nexts {fuel : ℕ} {h h' : BPHeap ρ} {leaf : NodeRef} {key : ℤ}
    {value : Option ρ} {ok : Bool} (hrun : bptreeInsertAt fuel h leaf key value = some (h', ok)) :
    NextsAfter h h' leaf := by
  obtain ⟨node, -, hrun⟩ := Option.bind_eq_some_iff.mp hrun
  obtain ⟨index, -, hrun⟩ := Option.bind_eq_some_iff.mp hrun
  split_ifs at hrun
  · cases hrun
    exact .inl rfl
  · obtain ⟨h₁, hmod, hrun⟩ := Option.bind_eq_some_iff.mp hrun
    cases hrun
    exact .inl (BPHeap.nexts_modify_of_next (fun _ _ => bptreeInsertIntoLeaf_next) hmod)
  · exact bptreeSplitLeafAndInsert_nexts hrun

end MiniDbms
