import MiniDbms.BPTree.Basic

/-!
# Releasing the index (`bptree_destroy`)

`free` is tracked by the list of the nodes that are freed.  A function returns `none` when the code
would read a node that is freed, free a node twice, read a cell that was not written, or descend
without end; `fuel` bounds the descent.
-/

namespace MiniDbms

variable {ρ : Type}

/-- `*p`, unless it is freed. -/
def BPTree.loadUnfreed (t : BPTree ρ) (freed : List NodeRef) (p : NodeRef) :
    Option (BPTreeNode ρ) :=
  if p ∈ freed then none else t.load p

/-- `free(p)` -/
def freeNode (freed : List NodeRef) (p : NodeRef) : Option (List NodeRef) :=
  if p ∈ freed then none else some (freed ++ [p])

/-- Releases a node and what is below it. -/
def bptreeDestroyNode (t : BPTree ρ) : ℕ → Option NodeRef → List NodeRef → Option (List NodeRef)
  | 0, _, _ => none
  | _ + 1, none, freed => some freed
  | fuel + 1, some p, freed =>
    (t.loadUnfreed freed p).bind fun node =>
      -- no node is put back, so the loop has read a node that was there if it is there behind it
      (if node.isLeaf then some freed
      else
        CArray.forUp (fun index freed =>
          (node.children.read index).bind fun child => bptreeDestroyNode t fuel child freed)
          0 (node.numKeys + 1) freed).bind fun freed => freeNode freed p

/-- Releases the whole index: the nodes that are freed. -/
def bptreeDestroy : Option (BPTree ρ) → Option (List NodeRef)
  | none => some []
  | some t => bptreeDestroyNode t (t.nodes.length + 1) t.root []

end MiniDbms
