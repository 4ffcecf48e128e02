import MiniDbms.Lib.CArray

/-!
# The B+ tree index (`sql_processor/bptree.c`)

Nodes live in a list and are referred to by their position in it; a node is never freed while the
tree lives, so a fresh node is appended.  `NULL` is `none`.  The code keeps `void *` values: `ρ` is
the type of what they point to, a value is an `Option ρ`.

Every access is checked: a function returns `none` when the code would read or write outside an
array, read a cell that was not written, follow a `NULL` pointer, or loop without end (`fuel` bounds
the descent and the climb; any bound above the height of the tree gives the same result).
`calloc` may fail: `allocs` lists the outcomes of the coming calls (past its end they succeed).
-/

namespace MiniDbms

/-- `BPTREE_ORDER` -/
abbrev bptreeOrder : ℕ := 4

/-- `BPTREE_MAX_KEYS` -/
abbrev bptreeMaxKeys : ℕ := bptreeOrder - 1

/-- A non-`NULL` `BPTreeNode *`. -/
abbrev NodeRef := ℕ

/-- `struct BPTreeNode` -/
structure BPTreeNode (ρ : Type) where
  isLeaf : Bool
  numKeys : ℕ
  keys : CArray ℤ bptreeMaxKeys
  values : CArray (Option ρ) bptreeMaxKeys
  children : CArray (Option NodeRef) bptreeOrder
  parent : Option NodeRef
  next : Option NodeRef

/-- `struct BPTree`, with the nodes it owns. -/
structure BPTree (ρ : Type) where
  root : Option NodeRef
  nodes : List (BPTreeNode ρ)

/-- The tree during a call, with the outcomes of the coming `calloc` calls. -/
structure BPHeap (ρ : Type) extends BPTree ρ where
  allocs : List Bool

variable {ρ : Type}

namespace BPTree

/-- `*p` -/
def load (t : BPTree ρ) (p : NodeRef) : Option (BPTreeNode ρ) := t.nodes[p]?

end BPTree

namespace BPHeap

/-- `*p = node` -/
def store (h : BPHeap ρ) (p : NodeRef) (node : BPTreeNode ρ) : Option (BPHeap ρ) :=
  if p < h.nodes.length then some { h with nodes := h.nodes.set p node } else none

/-- Statements on the fields of `*p`. -/
def modify (h : BPHeap ρ) (p : NodeRef) (f : BPTreeNode ρ → Option (BPTreeNode ρ)) :
    Option (BPHeap ρ) := do
  let node ← h.load p
  h.store p (← f node)

end BPHeap

/-- What `calloc` makes of a node, but for `is_leaf`. -/
def BPTreeNode.zeroed (isLeaf : Bool) : BPTreeNode ρ where
  isLeaf := isLeaf
  numKeys := 0
  keys := .filled _ 0
  values := .filled _ none
  children := .filled _ none
  parent := none
  next := none

/-- Creates a single B+ tree node. -/
def bptreeCreateNode (h : BPHeap ρ) (isLeaf : Bool) : Option NodeRef × BPHeap ρ :=
  if h.allocs.headD true then
    (some h.nodes.length, { h with nodes := h.nodes ++ [.zeroed isLeaf], allocs := h.allocs.tail })
  else (none, { h with allocs := h.allocs.tail })

/-- Returns the array position where a key should be inserted. -/
def bptreeFindInsertIndex {n : ℕ} (keys : CArray ℤ n) (numKeys : ℕ) (key : ℤ) : Option ℕ :=
  CArray.scanUp (fun index => (keys.read index).map (· < key)) 0 numKeys

/-- The loop of `bptree_find_leaf`. -/
def bptreeFindLeafFrom (t : BPTree ρ) (key : ℤ) : ℕ → NodeRef → Option NodeRef
  | 0, _ => none
  | fuel + 1, current => do
    let node ← t.load current
    if node.isLeaf then
      some current
    else
      let index ← CArray.scanUp (fun index => (node.keys.read index).map (· ≤ key)) 0 node.numKeys
      let child ← node.children.read index
      bptreeFindLeafFrom t key fuel (← child)

/-- Walks from the root to the target leaf for a key. -/
def bptreeFindLeaf (t : BPTree ρ) (key : ℤ) : Option (Option NodeRef) :=
  match t.root with
  | none => some none
  | some root => (bptreeFindLeafFrom t key (t.nodes.length + 1) root).map some

/-- Inserts a key/value pair into a non-full leaf node. -/
def bptreeInsertIntoLeaf (leaf : BPTreeNode ρ) (key : ℤ) (value : Option ρ) :
    Option (BPTreeNode ρ) := do
  let position ← bptreeFindInsertIndex leaf.keys leaf.numKeys key
  let (keys, values) ← CArray.forDown
    (fun index (a : CArray ℤ bptreeMaxKeys × CArray (Option ρ) bptreeMaxKeys) =>
      (CArray.shiftBody index a.1).bind fun keys =>
        (CArray.shiftBody index a.2).map fun values => (keys, values))
    position leaf.numKeys (leaf.keys, leaf.values)
  some { leaf with
    keys := ← keys.write position key
    values := ← values.write position value
    numKeys := leaf.numKeys + 1 }

/-- Builds a new root after the old root split. -/
def bptreeCreateNewRoot (h : BPHeap ρ) (left : NodeRef) (key : ℤ) (right : NodeRef) :
    Option (BPHeap ρ × Bool) :=
  match bptreeCreateNode h false with
  | (none, h) => some (h, false)
  | (some root, h) => do
    let h ← h.modify root fun node => do
      some { node with
        keys := ← node.keys.write 0 key
        children := ← (← node.children.write 0 (some left)).write 1 (some right)
        numKeys := 1 }
    let h ← h.modify left fun node => some { node with parent := some root }
    let h ← h.modify right fun node => some { node with parent := some root }
    some ({ h with root := some root }, true)

/-- Inserts a promoted key and right child into a non-full internal node. -/
def bptreeInsertIntoInternal (h : BPHeap ρ) (parent : NodeRef) (insertIndex : ℕ) (key : ℤ)
    (rightChild : NodeRef) : Option (BPHeap ρ) := do
  let h ← h.modify parent fun node => do
    let keys ← CArray.forDown CArray.shiftBody insertIndex node.numKeys node.keys
    let children ← CArray.forDown CArray.shiftBody (insertIndex + 1) (node.numKeys + 1)
      node.children
    some { node with
      keys := ← keys.write insertIndex key
      children := ← children.write (insertIndex + 1) (some rightChild) }
  let h ← h.modify rightChild fun node => some { node with parent := some parent }
  h.modify parent fun node => some { node with numKeys := node.numKeys + 1 }

/-- `node->children[slot] = child; if (child != NULL) child->parent = node;` -/
def bptreeAdoptChild (h : BPHeap ρ) (node : NodeRef) (slot : ℕ) (child : Option NodeRef) :
    Option (BPHeap ρ) := do
  let h ← h.modify node fun nd => do
    some { nd with children := ← nd.children.write slot child }
  match child with
  | none => some h
  | some child => h.modify child fun nd => some { nd with parent := some node }

/-- One round of the loops that fill a half of a split internal node:
`node->keys[slot] = key; node->children[slot] = child; …; node->num_keys++;` -/
def bptreeAdoptEntry (h : BPHeap ρ) (node : NodeRef) (slot : ℕ) (key : ℤ)
    (child : Option NodeRef) : Option (BPHeap ρ) := do
  let h ← h.modify node fun nd => do
    some { nd with keys := ← nd.keys.write slot key }
  let h ← bptreeAdoptChild h node slot child
  h.modify node fun nd => some { nd with numKeys := nd.numKeys + 1 }

/-- The temporary arrays of `bptree_split_internal_and_insert`: the entries of the full node with
the new key and child among them. -/
def bptreeMergeInternal (parent : BPTreeNode ρ) (insertIndex : ℕ) (key : ℤ) (rightChild : NodeRef) :
    Option (CArray ℤ bptreeOrder × CArray (Option NodeRef) (bptreeOrder + 1)) := do
  let tempKeys ← CArray.forUp (fun index (temp : CArray ℤ bptreeOrder) =>
    (parent.keys.read index).bind (temp.write index)) 0 parent.numKeys (.uninit _ _)
  let tempChildren ← CArray.forUp
    (fun index (temp : CArray (Option NodeRef) (bptreeOrder + 1)) =>
      (parent.children.read index).bind (temp.write index)) 0 (parent.numKeys + 1) (.uninit _ _)
  let tempKeys ← CArray.forDown CArray.shiftBody insertIndex parent.numKeys tempKeys
  let tempKeys ← tempKeys.write insertIndex key
  let tempChildren ← CArray.forDown CArray.shiftBody (insertIndex + 1) (parent.numKeys + 1)
    tempChildren
  let tempChildren ← tempChildren.write (insertIndex + 1) (some rightChild)
  some (tempKeys, tempChildren)

/-- The part of `bptree_split_internal_and_insert` before the recursive call: the promoted key and
the new right node, or `none` when there is no memory for it. -/
def bptreeSplitInternal (h : BPHeap ρ) (parent : NodeRef) (insertIndex : ℕ) (key : ℤ)
    (rightChild : NodeRef) : Option (BPHeap ρ × Option (ℤ × NodeRef)) :=
  let promoteIndex := bptreeOrder / 2
  match bptreeCreateNode h false with
  | (none, h) => some (h, none)
  | (some rightParent, h) => do
    let (tempKeys, tempChildren) ← bptreeMergeInternal (← h.load parent) insertIndex key rightChild
    -- keep the left half in the original parent node
    let h ← h.modify parent fun nd => some { nd with numKeys := 0 }
    let h ← CArray.forUp (fun index h => do
      bptreeAdoptEntry h parent index (← tempKeys.read index) (← tempChildren.read index))
      0 promoteIndex h
    let h ← bptreeAdoptChild h parent promoteIndex (← tempChildren.read promoteIndex)
    let promoteKey ← tempKeys.read promoteIndex
    -- put the right half into a new internal sibling node
    let grandparent := (← h.load parent).parent
    let h ← h.modify rightParent fun nd => some { nd with parent := grandparent }
    let h ← CArray.forUp (fun index h => do
      bptreeAdoptEntry h rightParent (← h.load rightParent).numKeys (← tempKeys.read index)
        (← tempChildren.read index))
      (promoteIndex + 1) (bptreeOrder - (promoteIndex + 1)) h
    let h ← bptreeAdoptChild h rightParent (← h.load rightParent).numKeys
      (← tempChildren.read bptreeOrder)
    some (h, some (promoteKey, rightParent))

mutual

/-- Pushes a promoted key upward after a split. -/
def bptreeInsertIntoParent (fuel : ℕ) (h : BPHeap ρ) (left : NodeRef) (key : ℤ)
    (right : NodeRef) : Option (BPHeap ρ × Bool) :=
  match fuel with
  | 0 => none
  | fuel + 1 => do
    match (← h.load left).parent with
    | none => bptreeCreateNewRoot h left key right
    | some parent =>
      let node ← h.load parent
      let insertIndex ← CArray.scanUp
        (fun index => (node.children.read index).map (· ≠ some left)) 0 (node.numKeys + 1)
      if node.numKeys < bptreeMaxKeys then
        (bptreeInsertIntoInternal h parent insertIndex key right).map fun h => (h, true)
      else
        bptreeSplitInternalAndInsert fuel h parent insertIndex key right
termination_by structural fuel

/-- Splits an internal node after inserting one extra key and child. -/
def bptreeSplitInternalAndInsert (fuel : ℕ) (h : BPHeap ρ) (parent : NodeRef) (insertIndex : ℕ)
    (key : ℤ) (rightChild : NodeRef) : Option (BPHeap ρ × Bool) :=
  match fuel with
  | 0 => none
  | fuel + 1 => do
    match ← bptreeSplitInternal h parent insertIndex key rightChild with
    | (h, none) => some (h, false)
    | (h, some (promoteKey, rightParent)) =>
      bptreeInsertIntoParent fuel h parent promoteKey rightParent
termination_by structural fuel

end

/-- The locals of the merge loop of `bptree_split_leaf_and_insert`. -/
structure MergeState (ρ : Type) where
  tempKeys : CArray ℤ bptreeOrder
  tempValues : CArray (Option ρ) bptreeOrder
  tempIndex : ℕ

/-- `temp_keys[temp_index] = key; temp_values[temp_index] = value;` -/
def MergeState.put (s : MergeState ρ) (key : ℤ) (value : Option ρ) : Option (MergeState ρ) := do
  some { s with
    tempKeys := ← s.tempKeys.write s.tempIndex key
    tempValues := ← s.tempValues.write s.tempIndex value }

/-- `temp_index++;` -/
def MergeState.advance (s : MergeState ρ) : MergeState ρ := { s with tempIndex := s.tempIndex + 1 }

/-- One round of the merge loop. -/
def bptreeMergeLeafStep (leaf : BPTreeNode ρ) (insertIndex : ℕ) (key : ℤ) (value : Option ρ)
    (index : ℕ) (s : MergeState ρ) : Option (MergeState ρ) := do
  let s ← if s.tempIndex = insertIndex then (s.put key value).map .advance else some s
  (← s.put (← leaf.keys.read index) (← leaf.values.read index)).advance

/-- The merge loop: the entries of a full leaf with the new one among them. -/
def bptreeMergeLeaf (leaf : BPTreeNode ρ) (insertIndex : ℕ) (key : ℤ) (value : Option ρ) :
    Option (MergeState ρ) := do
  let s ← CArray.forUp (bptreeMergeLeafStep leaf insertIndex key value) 0 leaf.numKeys
    ⟨.uninit _ _, .uninit _ _, 0⟩
  if s.tempIndex = insertIndex then s.put key value else some s

/-- `node->keys[slot] = key; node->values[slot] = value; node->num_keys++;` -/
def BPTreeNode.putEntry (node : BPTreeNode ρ) (slot : ℕ) (key : ℤ) (value : Option ρ) :
    Option (BPTreeNode ρ) := do
  some { node with
    keys := ← node.keys.write slot key
    values := ← node.values.write slot value
    numKeys := node.numKeys + 1 }

/-- Splits a full leaf and pushes the first key of the new right leaf upward. -/
def bptreeSplitLeafAndInsert (fuel : ℕ) (h : BPHeap ρ) (leaf : NodeRef) (key : ℤ)
    (value : Option ρ) : Option (BPHeap ρ × Bool) := do
  let node ← h.load leaf
  let insertIndex ← bptreeFindInsertIndex node.keys node.numKeys key
  let leftCount := bptreeOrder / 2
  match bptreeCreateNode h true with
  | (none, h) => some (h, false)
  | (some rightLeaf, h) =>
    let temp ← bptreeMergeLeaf node insertIndex key value
    -- keep the left half in the original leaf
    let h ← h.modify leaf fun node =>
      CArray.forUp (fun index (node : BPTreeNode ρ) => do
        node.putEntry index (← temp.tempKeys.read index) (← temp.tempValues.read index))
        0 leftCount { node with numKeys := 0 }
    -- move the right half into the new sibling leaf
    let parent := (← h.load leaf).parent
    let h ← h.modify rightLeaf fun node =>
      CArray.forUp (fun index (node : BPTreeNode ρ) => do
        node.putEntry node.numKeys (← temp.tempKeys.read index) (← temp.tempValues.read index))
        leftCount (bptreeOrder - leftCount) { node with parent := parent }
    -- preserve leaf-level linked-list traversal
    let next := (← h.load leaf).next
    let h ← h.modify rightLeaf fun node => some { node with next := next }
    let h ← h.modify leaf fun node => some { node with next := some rightLeaf }
    bptreeInsertIntoParent fuel h leaf (← (← h.load rightLeaf).keys.read 0) rightLeaf

/-- The part of `bptree_insert` behind the descent. -/
def bptreeInsertAt (fuel : ℕ) (h : BPHeap ρ) (leaf : NodeRef) (key : ℤ) (value : Option ρ) :
    Option (BPHeap ρ × Bool) := do
  let node ← h.load leaf
  let index ← CArray.scanUp (fun index => (node.keys.read index).map (· ≠ key)) 0 node.numKeys
  if index < node.numKeys then
    some (h, false)
  else if node.numKeys < bptreeMaxKeys then
    let h ← h.modify leaf fun node => bptreeInsertIntoLeaf node key value
    some (h, true)
  else
    bptreeSplitLeafAndInsert fuel h leaf key value

/-- Inserts a key/value pair and returns 1 on success or 0 on duplicate key. -/
def bptreeInsert (h : BPHeap ρ) (key : ℤ) (value : Option ρ) : Option (BPHeap ρ × Bool) :=
  match h.root with
  | none =>
    match bptreeCreateNode h true with
    | (none, h) => some (h, false)
    | (some root, h) => do
      let h ← h.modify root fun node => do
        some { node with
          keys := ← node.keys.write 0 key
          values := ← node.values.write 0 value
          numKeys := 1 }
      some ({ h with root := some root }, true)
  | some root => do
    let leaf ← bptreeFindLeafFrom h.toBPTree key (h.nodes.length + 1) root
    bptreeInsertAt (2 * h.nodes.length + 3) h leaf key value

/-- Creates an empty B+ tree. -/
def bptreeCreate : BPTree ρ := ⟨none, []⟩

/-- Searches for a single key and returns the stored value pointer or NULL. -/
def bptreeSearch (t : BPTree ρ) (key : ℤ) : Option (Option ρ) := do
  match ← bptreeFindLeaf t key with
  | none => some none
  | some leaf =>
    let node ← t.load leaf
    let index ← CArray.scanUp (fun index => (node.keys.read index).map (· ≠ key)) 0 node.numKeys
    if index < node.numKeys then node.values.read index else some none

end MiniDbms
