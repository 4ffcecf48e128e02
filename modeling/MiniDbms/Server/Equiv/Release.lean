import Mathlib.Algebra.BigOperators.Group.List.Basic
import MiniDbms.BPTree.Equiv.Destroy
import MiniDbms.Server.Startup

/-!
# What the server owns and what its end releases

`owns_serverDestroy`: `server_destroy` releases everything that a server owns, each thing once, but
for the nodes of an index that cannot be reached from its root (`Server.lost`, `Table.Ok.mem_lost`).
-/

namespace MiniDbms.Startup

open Ownership

/-! ### What a part owns -/

def BPTree.refs (tree : BPTree) : Multiset Ref := {tree.tree} + ↑tree.nodes

/-- What a bucket owns besides its records. -/
def TableBucket.refs (bucket : TableBucket) : Multiset Ref :=
  {bucket.lock} + given bucket.rows + bucket.pkIndex.elim 0 BPTree.refs

/-- What a table owns besides its records. -/
def Table.refs (table : Table) : Multiset Ref :=
  {table.memory} + given table.nextIdLock + (table.buckets.map TableBucket.refs).sum

def Table.records (table : Table) : Multiset Ref :=
  (table.buckets.map fun bucket => (bucket.records : Multiset Ref)).sum

def ThreadPool.refs (pool : ThreadPool) : Multiset Ref :=
  {pool.workers} + {pool.jobs} + {pool.mutex} + {pool.cond} + ↑pool.threads

/-- What a server owns besides the records of its table. -/
def Server.refs (server : Server) : Multiset Ref :=
  {server.memory} + given server.listenFd + server.table.elim 0 Table.refs +
    server.pool.elim 0 ThreadPool.refs

def MainResult.refs : MainResult → Multiset Ref
  | .exits _ => 0
  | .serves _ server | .waits server => server.refs

/-- What a start has got when it ends. -/
def Start.refs {α : Type} (refs : α → Multiset Ref) : Start α → Multiset Ref
  | .made a | .waits a => refs a
  | .failed => 0

theorem Table.refs_addBucket (table : Table) (lock : Ref) (pkIndex : Option BPTree) :
    (table.addBucket lock pkIndex).refs =
      {lock} + pkIndex.elim 0 BPTree.refs + table.refs := by
  have hsum : ((table.addBucket lock pkIndex).buckets.map TableBucket.refs).sum =
      (table.buckets.map TableBucket.refs).sum + ({lock} + pkIndex.elim 0 BPTree.refs) := by
    unfold addBucket
    rw [List.map_append, List.sum_append, List.map_singleton, List.sum_singleton]
    unfold TableBucket.refs
    rw [given_none, add_zero]
  unfold refs
  rw [hsum]
  unfold addBucket
  abel

/-! ### Nodes that are lost -/

/-- Where a node is. -/
def BPTree.block (tree : BPTree) (p : NodeRef) : Ref := tree.nodes.getD p tree.tree

/-- The nodes of an index that `bptree_destroy` does not come to. -/
def BPTree.lost (tree : BPTree) : Multiset Ref :=
  let freed := (MiniDbms.bptreeDestroy (some tree.index)).getD []
  ((List.range tree.nodes.length).filter (· ∉ freed)).map tree.block

def TableBucket.lost (bucket : TableBucket) : Multiset Ref := bucket.pkIndex.elim 0 BPTree.lost

def Table.lost (table : Table) : Multiset Ref := (table.buckets.map TableBucket.lost).sum

def Server.lost (server : Server) : Multiset Ref := server.table.elim 0 Table.lost

/-- The index is a tree, and each of its nodes is a block. -/
structure BPTree.Ok (tree : BPTree) : Prop where
  index : ∃ count, tree.index.HasNodes count
  nodes : tree.nodes.length = tree.index.nodes.length

/-- The indexes of a table are trees. -/
def Table.Ok (table : Table) : Prop := ∀ bucket ∈ table.buckets, ∀ tree ∈ bucket.pkIndex, tree.Ok

theorem BPTree.Ok.freed {tree : BPTree} (h : tree.Ok) :
    ∃ freed, MiniDbms.bptreeDestroy (some tree.index) = some freed ∧ freed.Nodup ∧
      (∀ p, p ∈ freed ↔ ∃ depth, tree.index.Reaches p depth) ∧
      ∀ p ∈ freed, p < tree.nodes.length := by
  obtain ⟨count, hcount⟩ := h.index
  obtain ⟨freed, hrun, hnodup, -, hmem, hlt⟩ := hcount.destroy
  exact ⟨freed, hrun, hnodup, hmem, by rwa [h.nodes]⟩

theorem BPTree.getElem?_block (tree : BPTree) {p : NodeRef} (h : p < tree.nodes.length) :
    tree.nodes[p]? = some (tree.block p) := by
  rw [block, List.getD_eq_getElem?_getD, List.getElem?_eq_getElem h, Option.getD_some]

theorem BPTree.map_block (tree : BPTree) :
    (List.range tree.nodes.length).map tree.block = tree.nodes := by
  apply List.ext_getElem?
  intro p
  rw [List.getElem?_map]
  by_cases hp : p < tree.nodes.length
  · rw [List.getElem?_range hp, Option.map_some, tree.getElem?_block hp]
  · simp [Nat.le_of_not_lt hp]

/-- The blocks of the nodes are those that are freed and those that are lost. -/
theorem BPTree.blocks_eq (tree : BPTree) {freed : List NodeRef}
    (hrun : MiniDbms.bptreeDestroy (some tree.index) = some freed) (hnodup : freed.Nodup)
    (hlt : ∀ p ∈ freed, p < tree.nodes.length) :
    (tree.nodes : Multiset Ref) = ↑(freed.map tree.block) + tree.lost := by
  have hperm : (freed ++ (List.range tree.nodes.length).filter (· ∉ freed)).Perm
      (List.range tree.nodes.length) := by
    have hfreed : ((List.range tree.nodes.length).filter (· ∈ freed)).Perm freed := by
      refine (List.perm_ext_iff_of_nodup (List.nodup_range.filter _) hnodup).mpr fun p => ?_
      simp only [List.mem_filter, List.mem_range, decide_eq_true_eq, and_iff_right_iff_imp]
      exact hlt p
    have hsplit := List.filter_append_perm (· ∈ freed) (List.range tree.nodes.length)
    simp only [decide_not]
    exact (hfreed.symm.append_right _).trans hsplit
  have hmap := hperm.map tree.block
  rw [tree.map_block, List.map_append] at hmap
  unfold lost
  rw [hrun, Option.getD_some, Multiset.coe_add]
  exact (Multiset.coe_eq_coe.mpr hmap).symm

/-- **A node is lost** if and only if it cannot be reached from the root. -/
theorem BPTree.Ok.mem_lost {tree : BPTree} (h : tree.Ok) {block : Ref} :
    block ∈ tree.lost ↔
      ∃ p, tree.nodes[p]? = some block ∧ ¬ ∃ depth, tree.index.Reaches p depth := by
  obtain ⟨freed, hrun, -, hmem, -⟩ := h.freed
  unfold lost
  rw [hrun, Option.getD_some]
  simp only [Multiset.mem_coe, List.mem_map, List.mem_filter, List.mem_range, decide_eq_true_eq,
    hmem]
  constructor
  · rintro ⟨p, ⟨hlt, hreach⟩, rfl⟩
    exact ⟨p, tree.getElem?_block hlt, hreach⟩
  · rintro ⟨p, hp, hreach⟩
    obtain ⟨hlt, -⟩ := List.getElem?_eq_some_iff.mp hp
    exact ⟨p, ⟨hlt, hreach⟩, Option.some.inj ((tree.getElem?_block hlt).symm.trans hp)⟩

/-- A node of the table that cannot be reached from the root of its index. -/
def Table.LosesNode (table : Table) (block : Ref) : Prop :=
  ∃ bucket ∈ table.buckets, ∃ tree ∈ bucket.pkIndex, ∃ p,
    tree.nodes[p]? = some block ∧ ¬ ∃ depth, tree.index.Reaches p depth

theorem Table.Ok.mem_lost {table : Table} (h : table.Ok) {block : Ref} :
    block ∈ table.lost ↔ table.LosesNode block := by
  unfold Ok at h
  unfold lost LosesNode
  generalize table.buckets = buckets at h ⊢
  induction buckets with
  | nil => simp
  | cons bucket buckets ih =>
    obtain ⟨hbucket, hbuckets⟩ := List.forall_mem_cons.mp h
    have hfirst : block ∈ bucket.lost ↔ ∃ tree ∈ bucket.pkIndex, ∃ p,
        tree.nodes[p]? = some block ∧ ¬ ∃ depth, tree.index.Reaches p depth := by
      unfold TableBucket.lost
      cases hpkIndex : bucket.pkIndex with
      | none => simp
      | some tree =>
        rw [Option.elim_some, (hbucket tree hpkIndex).mem_lost]
        simp
    rw [List.map_cons, List.sum_cons, Multiset.mem_add, hfirst, ih hbuckets,
      List.exists_mem_cons_iff]

/-! ### The index -/

theorem owns_bptreeFreeNodes (tree : BPTree) {freed : List NodeRef}
    (hlt : ∀ p ∈ freed, p < tree.nodes.length) :
    Owns ↑(freed.map tree.block) (bptreeFreeNodes tree.nodes freed) fun _ => 0 := by
  induction freed with
  | nil => exact Owns.pure rfl
  | cons p freed ih =>
    obtain ⟨hp, hfreed⟩ := List.forall_mem_cons.mp hlt
    refine Owns.lift (tree.getElem?_block hp) ?_
    refine (owns_release (tree.block p)).step ↑(freed.map tree.block) ?_ fun _ => ?_
    · rw [List.map_cons, Multiset.singleton_add, Multiset.cons_coe]
    · exact (ih hfreed).congr (zero_add _) fun _ => rfl

theorem owns_bptreeDestroy {tree : Option BPTree} (h : ∀ t ∈ tree, t.Ok) :
    Owns (tree.elim 0 BPTree.refs) (bptreeDestroy tree) fun _ => tree.elim 0 BPTree.lost := by
  cases tree with
  | none => exact Owns.pure rfl
  | some tree =>
    obtain ⟨freed, hrun, hnodup, -, hlt⟩ := (h tree rfl).freed
    refine Owns.lift hrun ?_
    refine (owns_bptreeFreeNodes tree hlt).step ({tree.tree} + tree.lost) ?_ fun _ => ?_
    · rw [Option.elim_some, BPTree.refs, tree.blocks_eq hrun hnodup hlt]
      abel
    · refine ((owns_release tree.tree).frame tree.lost).congr (zero_add _) fun _ => ?_
      exact zero_add _

/-! ### The table -/

theorem owns_tableDestroyBucket {bucket : TableBucket} (h : ∀ tree ∈ bucket.pkIndex, tree.Ok) :
    Owns (bucket.refs + (bucket.records : Multiset Ref)) (tableDestroyBucket bucket)
      fun _ => bucket.lost := by
  refine (owns_releaseAll bucket.records).step bucket.refs (add_comm _ _) fun _ => ?_
  unfold TableBucket.refs
  refine (owns_free bucket.rows).step ({bucket.lock} + bucket.pkIndex.elim 0 BPTree.refs)
    (by abel) fun _ => ?_
  refine (owns_bptreeDestroy h).step {bucket.lock} (by abel) fun _ => ?_
  refine ((owns_release bucket.lock).frame bucket.lost).congr (add_comm _ _) fun _ => ?_
  exact zero_add _

theorem owns_tableDestroyBuckets {buckets : List TableBucket}
    (h : ∀ bucket ∈ buckets, ∀ tree ∈ bucket.pkIndex, tree.Ok) :
    Owns ((buckets.map TableBucket.refs).sum +
        (buckets.map fun bucket => (bucket.records : Multiset Ref)).sum)
      (tableDestroyBuckets buckets) fun _ => (buckets.map TableBucket.lost).sum := by
  induction buckets with
  | nil => exact Owns.pure rfl
  | cons bucket buckets ih =>
    obtain ⟨hbucket, hbuckets⟩ := List.forall_mem_cons.mp h
    refine (owns_tableDestroyBucket hbucket).step
      ((buckets.map TableBucket.refs).sum +
        (buckets.map fun bucket => (bucket.records : Multiset Ref)).sum) ?_ fun _ => ?_
    · simp only [List.map_cons, List.sum_cons]
      abel
    · refine ((ih hbuckets).frame bucket.lost).congr (add_comm _ _) fun _ => ?_
      simp only [List.map_cons, List.sum_cons]
      exact add_comm _ _

theorem owns_tableDestroy {table : Option Table} (h : ∀ t ∈ table, t.Ok) :
    Owns (table.elim 0 fun table => table.refs + table.records) (tableDestroy table)
      fun _ => table.elim 0 Table.lost := by
  cases table with
  | none => exact Owns.pure rfl
  | some table =>
    refine (owns_tableDestroyBuckets (h table rfl)).step
      ({table.memory} + given table.nextIdLock) ?_ fun _ => ?_
    · show table.refs + table.records = _
      unfold Table.refs Table.records
      abel
    refine (owns_free table.nextIdLock).step ({table.memory} + table.lost) ?_ fun _ => ?_
    · unfold Table.lost
      abel
    refine ((owns_release table.memory).frame table.lost).congr (zero_add _) fun _ => ?_
    exact zero_add _

/-! ### The thread pool -/

theorem owns_freeAll (pool : ThreadPool) :
    Owns ({pool.workers} + {pool.jobs} + {pool.mutex} + {pool.cond}) pool.freeAll fun _ => 0 := by
  refine (owns_release pool.cond).step ({pool.workers} + {pool.jobs} + {pool.mutex})
    (add_comm _ _) fun _ => ?_
  refine (owns_release pool.mutex).step ({pool.workers} + {pool.jobs}) (by abel) fun _ => ?_
  refine (owns_release pool.workers).step {pool.jobs} (zero_add _) fun _ => ?_
  exact (owns_release pool.jobs).congr (zero_add _) fun _ => rfl

theorem owns_threadPoolDestroy (pool : Option ThreadPool) :
    Owns (pool.elim 0 ThreadPool.refs) (threadPoolDestroy pool) fun _ => 0 := by
  cases pool with
  | none => exact Owns.pure rfl
  | some pool =>
    refine (owns_releaseAll pool.threads).step _ (add_comm _ _) fun _ => ?_
    exact (owns_freeAll pool).congr (zero_add _) fun _ => rfl

/-! ### The server -/

/-- The indexes of the table are trees. -/
def Server.Ok (server : Server) : Prop := ∀ table ∈ server.table, table.Ok

def Server.records (server : Server) : Multiset Ref := server.table.elim 0 Table.records

/-- **The end of the server** releases everything that the server owns but the nodes that are
lost. -/
theorem owns_serverDestroy {server : Server} (h : server.Ok) :
    Owns (server.refs + server.records) (serverDestroy server) fun _ => server.lost := by
  have htable : server.table.elim 0 Table.refs + server.records =
      server.table.elim 0 fun table => table.refs + table.records := by
    unfold Server.records
    cases server.table with
    | none => rfl
    | some table => rfl
  refine (owns_threadPoolDestroy server.pool).step ({server.memory} + given server.listenFd +
    server.table.elim 0 fun table => table.refs + table.records) ?_ fun _ => ?_
  · rw [← htable]
    unfold Server.refs
    abel
  refine (owns_free server.listenFd).step ({server.memory} +
    server.table.elim 0 fun table => table.refs + table.records) (by abel) fun _ => ?_
  refine (owns_tableDestroy h).step {server.memory} (by abel) fun _ => ?_
  refine ((owns_release server.memory).frame server.lost).congr (add_comm _ _) fun _ => ?_
  exact zero_add _

end MiniDbms.Startup
