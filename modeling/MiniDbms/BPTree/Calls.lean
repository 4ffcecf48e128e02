import MiniDbms.BPTree.Basic

/-!
# The calls of `bptree_insert_into_parent`

An insertion that cuts a leaf in two calls `bptree_insert_into_parent`, and that again for every
inner node that is cut on the way up.  `ParentCalls` are these calls, each with the tree as it is at
that time; both call sites are the last statement of their function (`bptreeSplitLeafAndInsert_eq`).
-/

namespace MiniDbms

open CArray

variable {ρ : Type}

/-- The part of `bptree_split_leaf_and_insert` before the call of `bptree_insert_into_parent`: the
first key of the new right leaf and that leaf, or `none` when there is no memory for it. -/
def bptreeSplitLeaf (h : BPHeap ρ) (leaf : NodeRef) (key : ℤ) (value : Option ρ) :
    Option (BPHeap ρ × Option (ℤ × NodeRef)) := do
  let node ← h.load leaf
  let insertIndex ← bptreeFindInsertIndex node.keys node.numKeys key
  let leftCount := bptreeOrder / 2
  match bptreeCreateNode h true with
  | (none, h) => some (h, none)
  | (some rightLeaf, h) =>
    let temp ← bptreeMergeLeaf node insertIndex key value
    let h ← h.modify leaf fun node =>
      CArray.forUp (fun index (node : BPTreeNode ρ) => do
        node.putEntry index (← temp.tempKeys.read index) (← temp.tempValues.read index))
        0 leftCount { node with numKeys := 0 }
    let parent := (← h.load leaf).parent
    let h ← h.modify rightLeaf fun node =>
      CArray.forUp (fun index (node : BPTreeNode ρ) => do
        node.putEntry node.numKeys (← temp.tempKeys.read index) (← temp.tempValues.read index))
        leftCount (bptreeOrder - leftCount) { node with parent := parent }
    let next := (← h.load leaf).next
    let h ← h.modify rightLeaf fun node => some { node with next := next }
    let h ← h.modify leaf fun node => some { node with next := some rightLeaf }
    some (h, some (← (← h.load rightLeaf).keys.read 0, rightLeaf))

/-- What `bptree_split_leaf_and_insert` does behind that part. -/
theorem bptreeSplitLeafAndInsert_eq (fuel : ℕ) (h : BPHeap ρ) (leaf : NodeRef) (key : ℤ)
    (value : Option ρ) : bptreeSplitLeafAndInsert fuel h leaf key value =
      (bptreeSplitLeaf h leaf key value).bind fun split => match split with
        | (h, none) => some (h, false)
        | (h, some (separator, right)) => bptreeInsertIntoParent fuel h leaf separator right := by
  unfold bptreeSplitLeafAndInsert bptreeSplitLeaf
  simp only [Option.bind_eq_bind, Option.bind_assoc]
  congr 1
  funext node
  congr 1
  funext insertIndex
  rcases bptreeCreateNode h true with ⟨_ | right, h₁⟩
  · rfl
  · simp only [Option.bind_assoc, Option.bind_some]

/-- A call `bptree_insert_into_parent(tree, left, key, right)`, with the tree at that time. -/
structure ParentCall (ρ : Type) where
  heap : BPHeap ρ
  left : NodeRef
  key : ℤ
  right : NodeRef

namespace ParentCall

/-- `left->parent` -/
def parent (call : ParentCall ρ) : Option NodeRef :=
  (call.heap.load call.left).bind BPTreeNode.parent

/-- `while (insert_index <= parent->num_keys && parent->children[insert_index] != left)
insert_index++;` -/
def scan (call : ParentCall ρ) (node : BPTreeNode ρ) : Option ℕ :=
  CArray.scanUp (fun index => (node.children.read index).map (· ≠ some call.left)) 0
    (node.numKeys + 1)

/-- If `left` has a parent, the scan ends at the place of `left` among its children. -/
def FindsLeft (call : ParentCall ρ) : Prop :=
  ∀ parent, call.parent = some parent →
    ∃ node index, call.heap.load parent = some node ∧ call.scan node = some index ∧
      index ≤ node.numKeys ∧ node.children.read index = some (some call.left)

end ParentCall

/-- The calls of `bptree_insert_into_parent` that the call `bptree_insert(tree, key, value)`
makes. -/
inductive ParentCalls (h : BPHeap ρ) (key : ℤ) (value : Option ρ) : ParentCall ρ → Prop
  /-- from `bptree_split_leaf_and_insert`, for a full leaf without the key -/
  | leaf {leaf : NodeRef} {node : BPTreeNode ρ} {h' : BPHeap ρ} {separator : ℤ} {right : NodeRef}
      (found : bptreeFindLeaf h.toBPTree key = some (some leaf)) (load : h.load leaf = some node)
      (absent : CArray.scanUp (fun index => (node.keys.read index).map (· ≠ key)) 0 node.numKeys =
        some node.numKeys)
      (full : ¬ node.numKeys < bptreeMaxKeys)
      (split : bptreeSplitLeaf h leaf key value = some (h', some (separator, right))) :
      ParentCalls h key value ⟨h', leaf, separator, right⟩
  /-- from `bptree_split_internal_and_insert`, for a full parent -/
  | internal {call : ParentCall ρ} {parent : NodeRef} {node : BPTreeNode ρ} {index : ℕ}
      {h' : BPHeap ρ} {promoteKey : ℤ} {rightParent : NodeRef}
      (called : ParentCalls h key value call) (parent_eq : call.parent = some parent)
      (load : call.heap.load parent = some node) (scan : call.scan node = some index)
      (full : ¬ node.numKeys < bptreeMaxKeys)
      (split : bptreeSplitInternal call.heap parent index call.key call.right =
        some (h', some (promoteKey, rightParent))) :
      ParentCalls h key value ⟨h', parent, promoteKey, rightParent⟩

end MiniDbms
