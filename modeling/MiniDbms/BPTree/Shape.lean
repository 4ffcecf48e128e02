import Mathlib.Algebra.Group.Nat.Defs
import Mathlib.Data.Nat.Log
import MiniDbms.BPTree.Basic

/-!
# The shape of the index

What it means for the nodes of an index to form a B+ tree, in terms of the nodes and pointers alone:
which nodes are reached from the root (`BPTree.Reaches`), which keys are stored below a node
(`BPTree.KeyBelow`), and what holds of every node that is reached (`BPTree.NodeOk`,
`BPTree.ShapeOk`); and what the nodes say that are met along the `next` pointers from the leftmost
leaf (`BPTree.ChainOk`).
-/

namespace MiniDbms

variable {ρ : Type}

namespace BPTree

/-- Inner node `p` has the child `c` in slot `i`. -/
def Child (t : BPTree ρ) (p : NodeRef) (i : ℕ) (c : NodeRef) : Prop :=
  ∃ node, t.load p = some node ∧ node.isLeaf = false ∧ i ≤ node.numKeys ∧
    node.children.read i = some (some c)

/-- Node `p` lies `depth` levels below the root. -/
inductive Reaches (t : BPTree ρ) : NodeRef → ℕ → Prop
  | root {p : NodeRef} : t.root = some p → Reaches t p 0
  | child {p c : NodeRef} {depth i : ℕ} : Reaches t p depth → t.Child p i c →
    Reaches t c (depth + 1)

/-- Leaf `p` lies `depth` levels below the root. -/
def LeafAt (t : BPTree ρ) (p : NodeRef) (depth : ℕ) : Prop :=
  t.Reaches p depth ∧ ∃ node, t.load p = some node ∧ node.isLeaf = true

/-- A leaf below `p` stores `key`. -/
inductive KeyBelow (t : BPTree ρ) (key : ℤ) : NodeRef → Prop
  | leaf {p : NodeRef} {node : BPTreeNode ρ} {i : ℕ} : t.load p = some node →
    node.isLeaf = true → i < node.numKeys → node.keys.read i = some key → KeyBelow t key p
  | child {p c : NodeRef} {i : ℕ} : t.Child p i c → KeyBelow t key c → KeyBelow t key p

/-- The index stores `key`. -/
def Stores (t : BPTree ρ) (key : ℤ) : Prop := ∃ root, t.root = some root ∧ t.KeyBelow key root

/-- What holds of node `p`, `depth` levels below the root. -/
structure NodeOk (t : BPTree ρ) (p : NodeRef) (depth : ℕ) (node : BPTreeNode ρ) : Prop where
  /-- The keys can be read, and ascend strictly. -/
  keys : ∀ i < node.numKeys, ∃ key, node.keys.read i = some key ∧
    ∀ j < i, ∀ key', node.keys.read j = some key' → key' < key
  /-- A node holds 1 to 3 keys, a leaf that is not the root 2 or 3. -/
  occupancy : 1 ≤ node.numKeys ∧ node.numKeys ≤ 3 ∧
    (node.isLeaf = true → depth ≠ 0 → 2 ≤ node.numKeys)
  /-- An inner node has one child more than keys, and each points back to it. -/
  children : node.isLeaf = false → ∀ i ≤ node.numKeys, ∃ c child, t.Child p i c ∧
    t.load c = some child ∧ child.parent = some p
  /-- The keys below child `i` lie in `[keys[i-1], keys[i])`. -/
  range : ∀ i c key, t.Child p i c → t.KeyBelow key c →
    (∀ s, 0 < i → node.keys.read (i - 1) = some s → s ≤ key) ∧
    ∀ s, i < node.numKeys → node.keys.read i = some s → key < s
  /-- A separator is the least key of the subtree to its right. -/
  separator : ∀ i c s, i < node.numKeys → t.Child p (i + 1) c → node.keys.read i = some s →
    t.KeyBelow s c ∧ ∀ key, t.KeyBelow key c → s ≤ key

/-- The nodes of the index form a B+ tree. -/
structure ShapeOk (t : BPTree ρ) : Prop where
  node : ∀ p depth, t.Reaches p depth → ∃ node, t.load p = some node ∧ t.NodeOk p depth node
  /-- All leaves lie at the same depth. -/
  leaves : ∀ p p' depth depth', t.LeafAt p depth → t.LeafAt p' depth' → depth = depth'
  root : ∀ p node, t.root = some p → t.load p = some node → node.parent = none

/-- What the shape means for the number of keys: `keys` lists the keys of the index. -/
structure SizeOk (t : BPTree ρ) (keys : List ℤ) : Prop where
  nodup : keys.Nodup
  mem_iff : ∀ key, key ∈ keys ↔ t.Stores key
  /-- Leaves at a depth below the root mean many keys. -/
  pow_le : ∀ p depth, t.LeafAt p depth → 1 ≤ depth → 2 ^ (depth + 1) ≤ keys.length
  /-- The descent to the leaf of a key visits at most `log2 n + 1` nodes: it has only so much
  fuel. -/
  descent : ∀ root key, t.root = some root → ∃ leaf,
    bptreeFindLeafFrom t key (Nat.log 2 keys.length + 1) root = some leaf ∧
    bptreeFindLeaf t key = some (some leaf)

/-! ### The leaf chain -/

/-- `leaf` is the leftmost leaf below `p`. -/
inductive Leftmost (t : BPTree ρ) (leaf : NodeRef) : NodeRef → Prop
  | leaf {node : BPTreeNode ρ} : t.load leaf = some node → node.isLeaf = true → Leftmost t leaf leaf
  | child {p c : NodeRef} : t.Child p 0 c → Leftmost t leaf c → Leftmost t leaf p

/-- Following `next` from a pointer visits these nodes, and ends in `NULL`. -/
inductive NextChain (t : BPTree ρ) : Option NodeRef → List NodeRef → Prop
  | nil : NextChain t none []
  | cons {p : NodeRef} {ps : List NodeRef} {node : BPTreeNode ρ} : t.load p = some node →
    NextChain t node.next ps → NextChain t (some p) (p :: ps)

end BPTree

/-- The first entries of a leaf. -/
def BPTreeNode.entriesUpTo (node : BPTreeNode ρ) : ℕ → Option (List (ℤ × Option ρ))
  | 0 => some []
  | i + 1 => do some ((← node.entriesUpTo i) ++ [(← node.keys.read i, ← node.values.read i)])

namespace BPTree

/-- The entries of these leaves, one after the other. -/
def entriesAlong (t : BPTree ρ) : List NodeRef → Option (List (ℤ × Option ρ))
  | [] => some []
  | p :: ps => do
    let node ← t.load p
    some ((← node.entriesUpTo node.numKeys) ++ (← t.entriesAlong ps))

/-- What the nodes say that `next` leads to from `first`. -/
structure ChainOk (t : BPTree ρ) (first : Option NodeRef) (chain : List NodeRef)
    (entries : List (ℤ × Option ρ)) : Prop where
  /-- The chain starts at the leftmost leaf of the tree. -/
  leftmost : ∀ root, t.root = some root → ∃ leaf, first = some leaf ∧ t.Leftmost leaf root
  leftmost_of_empty : t.root = none → first = none
  next : t.NextChain first chain
  /-- Every leaf of the tree is visited exactly once, and no other node. -/
  nodup : chain.Nodup
  mem_iff : ∀ p, p ∈ chain ↔ ∃ depth, t.LeafAt p depth
  entries_eq : t.entriesAlong chain = some entries
  ascending : entries.Pairwise (·.1 < ·.1)
  /-- The pairs are those that a search finds. -/
  search : ∀ key value, (key, value) ∈ entries → bptreeSearch t key = some value
  mem_of_search : ∀ key r, bptreeSearch t key = some (some r) → (key, some r) ∈ entries

end BPTree

end MiniDbms
