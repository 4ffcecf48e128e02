import MiniDbms.Server.Equiv.Release
import MiniDbms.Table.Equiv.LockSafety

/-!
# The end of a server that was used

Threads have worked on the table of the server: in the end its memory has got arrays, records and
nodes.  `server_destroy_releases` says what `server_destroy` leaves of all that: exactly the nodes
that cannot be reached from the root of their index, which an insertion without memory has cut off.
-/

namespace MiniDbms.Startup

open Locks Ownership

/-! ### The memory of a table -/

/-- The bucket has these contents; `place` says where the records are. -/
structure TableBucket.Holds (bucket : TableBucket) (contents : MiniDbms.TableBucket)
    (place : RecordPtr → Ref) : Prop where
  rows : bucket.rows.isSome = true ↔ contents.capacity ≠ 0
  records : bucket.records = contents.rows.map place
  pkIndex : ∃ tree ∈ bucket.pkIndex, tree.index = contents.pkIndex ∧
    tree.nodes.length = contents.pkIndex.nodes.length

/-- The table has these contents, bucket by bucket. -/
def Table.Holds (table : Table) (contents : MiniDbms.Table) (place : RecordPtr → Ref) : Prop :=
  List.Forall₂ (fun bucket b => bucket.Holds (contents.buckets b) place) table.buckets
    (List.finRange tableBucketCount)

section Contents

variable {table : Table} {m : TableMemory} {place : RecordPtr → Ref}

theorem Table.Holds.records_eq (h : table.Holds m.toTable place) :
    table.records = ↑(m.rows.map place) := by
  unfold Holds at h
  unfold Table.records MiniDbms.Table.rows
  generalize table.buckets = buckets at h ⊢
  generalize List.finRange tableBucketCount = bs at h ⊢
  induction h with
  | nil => rfl
  | cons hbucket _ ih =>
    rw [List.map_cons, List.sum_cons, List.flatMap_cons, List.map_append, ih, hbucket.records]
    rfl

/-- Every bucket has the contents of one of the table's. -/
theorem Table.Holds.exists_index (h : table.Holds m.toTable place) {bucket : TableBucket}
    (hbucket : bucket ∈ table.buckets) : ∃ b, bucket.Holds (m.buckets b) place := by
  unfold Holds at h
  generalize table.buckets = buckets at h hbucket
  generalize List.finRange tableBucketCount = bs at h
  induction h with
  | nil => exact absurd hbucket List.not_mem_nil
  | cons hfirst _ ih =>
    rcases List.mem_cons.mp hbucket with rfl | hbucket
    · exact ⟨_, hfirst⟩
    · exact ih hbucket

/-- The contents of every bucket are in one of the table's. -/
theorem Table.Holds.exists_bucket (h : table.Holds m.toTable place) (b : Fin tableBucketCount) :
    ∃ bucket ∈ table.buckets, bucket.Holds (m.buckets b) place := by
  have hb := List.mem_finRange b
  unfold Holds at h
  generalize table.buckets = buckets at h ⊢
  generalize List.finRange tableBucketCount = bs at h hb
  induction h with
  | nil => exact absurd hb List.not_mem_nil
  | cons hfirst _ ih =>
    rcases List.mem_cons.mp hb with rfl | hb
    · exact ⟨_, List.mem_cons_self, hfirst⟩
    · obtain ⟨bucket, hbucket, hholds⟩ := ih hb
      exact ⟨bucket, List.mem_cons_of_mem _ hbucket, hholds⟩

theorem Table.Holds.ok (h : table.Holds m.toTable place) {rs : Rows} (hm : m.Formed rs) :
    table.Ok := by
  intro bucket hbucket tree htree
  obtain ⟨b, hholds⟩ := h.exists_index hbucket
  obtain ⟨tree', htree', hindex, hnodes⟩ := hholds.pkIndex
  rw [Option.mem_unique htree htree']
  refine ⟨?_, by rw [hnodes, hindex]⟩
  obtain ⟨t, ht⟩ := hm.index b
  rw [hindex]
  cases ht with
  | empty root => exact ⟨0, .empty root⟩
  | tree lays => exact ⟨_, .tree lays⟩

/-- No node is lost if and only if every node can be reached. -/
theorem Table.Holds.lost_eq_zero_iff (h : table.Holds m.toTable place) (hok : table.Ok) :
    table.lost = 0 ↔ ∀ b p, p < (m.buckets b).pkIndex.nodes.length →
      ∃ depth, (m.buckets b).pkIndex.Reaches p depth := by
  constructor
  · intro hlost b p hp
    obtain ⟨bucket, hbucket, hholds⟩ := h.exists_bucket b
    obtain ⟨tree, htree, hindex, hnodes⟩ := hholds.pkIndex
    by_contra hreach
    rw [← hnodes] at hp
    have hmem := hok.mem_lost.mpr ⟨bucket, hbucket, tree, htree, p, tree.getElem?_block hp,
      by rwa [hindex]⟩
    rw [hlost] at hmem
    exact absurd hmem (Multiset.notMem_zero _)
  · intro hall
    refine Multiset.eq_zero_of_forall_notMem fun block hblock => ?_
    obtain ⟨bucket, hbucket, tree, htree, p, hp, hreach⟩ := hok.mem_lost.mp hblock
    obtain ⟨b, hholds⟩ := h.exists_index hbucket
    obtain ⟨tree', htree', hindex, hnodes⟩ := hholds.pkIndex
    obtain rfl := Option.mem_unique htree htree'
    rw [hindex] at hreach
    refine hreach (hall b p ?_)
    rw [← hnodes]
    exact (List.getElem?_eq_some_iff.mp hp).1

end Contents

/-! ### The end -/

variable {ι : Type} [DecidableEq ι] {allocs : List Bool} {calls : ι → List TableCall}
  {steps : List (ι × Bool)} {s : TableSystem ι}

/-- **`server_destroy` behind any use of the table.**  Threads have called the operations of the
table, in any order and with any failures.  Then `server_destroy` releases the server, the arrays of
the buckets, every record that was allocated, and the indexes, each thing once, and touches nothing
else; what it leaves are the nodes that cannot be reached from the root of their index.  So nothing
is left if and only if all nodes can be reached.  The memory of the table is freed as
`table_destroy` does it. -/
theorem server_destroy_releases (h : (TableSystem.start allocs calls).run steps = some s)
    {server : Server} {table : Table} (htable : server.table = some table)
    {place : RecordPtr → Ref} (hholds : table.Holds s.state.toTable place) {w : World Resource}
    (hok : w.Ok) {others : Multiset Ref}
    (hheld : w.held = server.refs + ↑(s.state.allocated.map place) + others) :
    ∃ w' lost m, serverDestroy server w = some ((), w') ∧ w'.Ok ∧ w'.held = lost + others ∧
      (∀ block, block ∈ lost ↔ table.LosesNode block) ∧
      (others = 0 → (w'.Clean ↔ ∀ b p, p < (s.state.buckets b).pkIndex.nodes.length →
        ∃ depth, (s.state.buckets b).pkIndex.Reaches p depth)) ∧
      MiniDbms.tableDestroy s.state.toTableMemory = some m ∧ m.allocated = [] := by
  have hstate := ((start_safeOk allocs calls).run keepsRecords_refl h).inv
  obtain ⟨rs, hformed⟩ := hstate.formed
  have htableOk := hholds.ok hformed
  have hserver : server.Ok := fun t ht => by
    rw [Option.mem_unique ht htable]
    exact htableOk
  have hrecords : server.records = ↑(s.state.allocated.map place) := by
    rw [Server.records, htable, Option.elim_some, hholds.records_eq]
    exact Multiset.coe_eq_coe.mpr
      ((hstate.owns.allocated_perm hformed.toHoldsRows).map place).symm
  have hlost : server.lost = table.lost := by
    rw [Server.lost, htable, Option.elim_some]
  obtain ⟨_, w', hrun, hok', hheld'⟩ :=
    owns_serverDestroy hserver w others hok (by rw [hheld, hrecords])
  rw [hlost] at hheld'
  obtain ⟨m, hdestroy, hfreed, -⟩ := hstate.owns.destroy hformed.toHoldsRows
  refine ⟨w', table.lost, m, hrun, hok', hheld', fun block => htableOk.mem_lost, ?_, hdestroy,
    TableMemory.allocated_eq_nil hfreed⟩
  rintro rfl
  rw [← hholds.lost_eq_zero_iff htableOk]
  rw [add_zero] at hheld'
  exact ⟨fun hclean => hheld'.symm.trans hclean.1, fun hnone => hok'.clean (hheld'.trans hnone)⟩

/-- One row has been inserted. -/
def insertedRun : List (Unit × Bool) := List.replicate 7 ((), true)

/-- The bucket with this number; the row is in the second one. -/
def insertedBucket (index : MiniDbms.BPTree RecordPtr) (b : Fin tableBucketCount) :
    TableBucket where
  lock := ⟨.bucketLock, 3 + 2 * b⟩
  rows := if b = 1 then some ⟨.rows, 41⟩ else none
  records := if b = 1 then [⟨.record, 42⟩] else []
  pkIndex := some ⟨⟨.bptree, 4 + 2 * b⟩, index, if b = 1 then [⟨.node, 43⟩] else []⟩

/-- The table with these indexes. -/
def insertedTable (table : MiniDbms.Table) : Table where
  memory := ⟨.table, 1⟩
  nextIdLock := some ⟨.nextIdLock, 2⟩
  buckets := (List.finRange tableBucketCount).map fun b =>
    insertedBucket (table.buckets b).pkIndex b

/-- The server with one worker whose table is this one. -/
def insertedServer (table : MiniDbms.Table) : Server where
  memory := ⟨.server, 0⟩
  listenFd := some ⟨.socket, 40⟩
  table := some (insertedTable table)
  pool := some ⟨⟨.workers, 35⟩, ⟨.jobs, 36⟩, ⟨.mutex, 37⟩, ⟨.cond, 38⟩, [⟨.thread, 39⟩]⟩
  config := ⟨8080, 1, 16, 32⟩

/-- What there is behind the insertion. -/
def insertedWorld (table : MiniDbms.Table) : World Resource :=
  ⟨[], 44, (insertedServer table).refs + {⟨.record, 42⟩}, 0⟩

theorem ok_insertedWorld (table : MiniDbms.Table) : (insertedWorld table).Ok := by
  have hrefs : (insertedServer table).refs = (insertedServer MiniDbms.tableCreate).refs := rfl
  unfold World.Ok insertedWorld
  rw [hrefs]
  decide

theorem server_destroy_releases_inserted : ∃ (s : TableSystem Unit) (w' : World Resource),
    (TableSystem.start [] fun _ : Unit => [.insert [] 0]).run insertedRun = some s ∧
      s.state.allocated = [0] ∧
      serverDestroy (insertedServer s.state.toTable) (insertedWorld s.state.toTable) =
        some ((), w') ∧ w'.Clean := by
  have hrun : ((TableSystem.start [] fun _ : Unit => [.insert [] 0]).run insertedRun).map
      (fun s => (s.state.allocated, (List.finRange tableBucketCount).map fun b =>
        ((s.state.buckets b).capacity, (s.state.buckets b).rows,
          (s.state.buckets b).pkIndex.nodes.length))) =
      some ([0], (List.finRange tableBucketCount).map fun b =>
        if b = 1 then (8, [0], 1) else (0, [], 0)) := by
    decide
  have hroot : ((TableSystem.start [] fun _ : Unit => [.insert [] 0]).run insertedRun).map
      (fun s => (s.state.buckets 1).pkIndex.root) = some (some 0) := by
    decide
  obtain ⟨s, hs, heq⟩ := Option.map_eq_some_iff.mp hrun
  rw [hs, Option.map_some, Option.some.injEq] at hroot
  obtain ⟨hallocated, hbuckets⟩ := Prod.mk.inj heq
  have hbucket := fun b => List.map_eq_map_iff.mp hbuckets b (List.mem_finRange b)
  have hholds : ∀ b, (insertedBucket (s.state.buckets b).pkIndex b).Holds (s.state.buckets b)
      fun _ => ⟨.record, 42⟩ := by
    intro b
    have hb := hbucket b
    by_cases hone : b = 1
    · subst hone
      rw [if_pos rfl, Prod.mk.injEq, Prod.mk.injEq] at hb
      obtain ⟨hcapacity, hrows, hnodes⟩ := hb
      refine ⟨?_, ?_, _, rfl, rfl, ?_⟩
      · simp [insertedBucket, hcapacity]
      · simp [insertedBucket, hrows]
      · simp [hnodes]
    · rw [if_neg hone, Prod.mk.injEq, Prod.mk.injEq] at hb
      obtain ⟨hcapacity, hrows, hnodes⟩ := hb
      refine ⟨?_, ?_, _, rfl, rfl, ?_⟩
      · simp [insertedBucket, hone, hcapacity]
      · simp [insertedBucket, hone, hrows]
      · simp [hone, hnodes]
  have htable : (insertedTable s.state.toTable).Holds s.state.toTable fun _ => ⟨.record, 42⟩ :=
    List.forall₂_map_left_iff.mpr (List.forall₂_same.mpr fun b _ => hholds b)
  have hheld : (insertedWorld s.state.toTable).held = (insertedServer s.state.toTable).refs +
      ↑(s.state.allocated.map fun _ => (⟨.record, 42⟩ : Ref)) + 0 := by
    rw [hallocated, add_zero]
    rfl
  obtain ⟨w', -, -, hdestroy, -, -, -, hclean, -⟩ :=
    server_destroy_releases hs rfl htable (ok_insertedWorld s.state.toTable) hheld
  refine ⟨s, w', hs, hallocated, hdestroy, (hclean rfl).mpr fun b p hp => ?_⟩
  -- the only node is the root
  have hb := hbucket b
  by_cases hone : b = 1
  · subst hone
    rw [if_pos rfl, Prod.mk.injEq, Prod.mk.injEq] at hb
    rw [hb.2.2, Nat.lt_one_iff] at hp
    exact ⟨0, .root (hp ▸ hroot)⟩
  · rw [if_neg hone, Prod.mk.injEq, Prod.mk.injEq] at hb
    rw [hb.2.2] at hp
    exact absurd hp (Nat.not_lt_zero p)

end MiniDbms.Startup
