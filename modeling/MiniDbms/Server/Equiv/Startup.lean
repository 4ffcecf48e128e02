import MiniDbms.Lib.Numeral
import MiniDbms.Server.Equiv.Release

/-!
# Correctness of starting the server

`server_main_owns`: whichever calls fail, `main` returns with everything released, each thing once,
or calls `server_run` with a server that is complete and owns what was acquired and no more, or
waits for ever for a worker of a pool that could not be started.

`server_main_serves_iff`: the configurations that the server can run with, given the arguments.  The
arguments are numerals, which may have blanks in front and a sign; a number of workers or of places
in the queue is also bounded by what `calloc` can count.
-/

namespace MiniDbms.Startup

open CString Ownership

/-! ### Arrays -/

theorem owns_calloc (kind : Resource) (count size : ℕ) :
    Owns 0 (calloc kind count size) given := by
  unfold calloc
  split_ifs
  · exact Owns.pure rfl
  · exact owns_acquire kind

/-- An array that is there is one that `calloc` can count. -/
theorem yields_calloc (kind : Resource) (count size : ℕ) :
    Yields (fun _ => True) (calloc kind count size)
      fun result _ => ∀ _h ∈ result, count * size ≤ sizeMax := by
  unfold calloc
  split_ifs with hlarge
  · exact Yields.none
  · intro w result w' _ _ _ _
    exact not_lt.mp hlarge

/-! ### The table -/

/-- Nothing has been put into the index. -/
structure BPTree.IsNew (tree : BPTree) : Prop where
  index : tree.index = MiniDbms.bptreeCreate
  nodes : tree.nodes = []

/-- No row has been stored in the bucket. -/
structure TableBucket.IsNew (bucket : TableBucket) : Prop where
  rows : bucket.rows = none
  records : bucket.records = []
  pkIndex : ∀ tree ∈ bucket.pkIndex, tree.IsNew

/-- No row has been stored in the table. -/
def Table.IsNew (table : Table) : Prop := ∀ bucket ∈ table.buckets, bucket.IsNew

/-- A new table with so many buckets, each of which has an index. -/
structure Table.Complete (count : ℕ) (table : Table) : Prop where
  nextIdLock : table.nextIdLock.isSome = true
  buckets : table.buckets.length = count
  pkIndex : ∀ bucket ∈ table.buckets, bucket.pkIndex.isSome = true
  isNew : table.IsNew

theorem BPTree.IsNew.ok {tree : BPTree} (h : tree.IsNew) : tree.Ok where
  index := ⟨0, by rw [h.index]; exact .empty rfl⟩
  nodes := by
    rw [h.index, h.nodes]
    rfl

theorem BPTree.IsNew.lost_eq {tree : BPTree} (h : tree.IsNew) : tree.lost = 0 := by
  unfold lost
  rw [h.nodes]
  rfl

theorem Table.IsNew.ok {table : Table} (h : table.IsNew) : table.Ok :=
  fun bucket hbucket tree htree => ((h bucket hbucket).pkIndex tree htree).ok

theorem Table.IsNew.lost_eq {table : Table} (h : table.IsNew) : table.lost = 0 := by
  refine List.sum_eq_zero fun lost hlost => ?_
  obtain ⟨bucket, hbucket, rfl⟩ := List.mem_map.mp hlost
  have htree := (h bucket hbucket).pkIndex
  unfold TableBucket.lost
  cases hpkIndex : bucket.pkIndex with
  | none => rfl
  | some tree => exact (htree tree hpkIndex).lost_eq

theorem Table.IsNew.records_eq {table : Table} (h : table.IsNew) : table.records = 0 := by
  refine List.sum_eq_zero fun records hrecords => ?_
  obtain ⟨bucket, hbucket, rfl⟩ := List.mem_map.mp hrecords
  rw [(h bucket hbucket).records]
  rfl

/-- A table without rows is destroyed. -/
theorem owns_tableDestroy_new {table : Table} (h : table.IsNew) :
    Owns table.refs (tableDestroy (some table)) fun _ => 0 := by
  have hok : ∀ t ∈ some table, t.Ok := by
    rintro t ⟨⟩
    exact h.ok
  refine (owns_tableDestroy hok).congr ?_ fun _ => h.lost_eq
  rw [Option.elim_some, h.records_eq, add_zero]

theorem Table.IsNew.addBucket {table : Table} (h : table.IsNew) (lock : Ref)
    {pkIndex : Option BPTree} (hnew : ∀ tree ∈ pkIndex, tree.IsNew) :
    (table.addBucket lock pkIndex).IsNew := by
  intro bucket hbucket
  rcases List.mem_append.mp hbucket with hold | hlast
  · exact h bucket hold
  · rw [List.mem_singleton.mp hlast]
    exact ⟨rfl, rfl, hnew⟩

theorem Table.Complete.addBucket {count : ℕ} {table : Table} (h : table.Complete count)
    (lock : Ref) {tree : BPTree} (hnew : tree.IsNew) :
    (table.addBucket lock (some tree)).Complete (count + 1) where
  nextIdLock := h.nextIdLock
  buckets := by
    show (table.buckets ++ [_]).length = count + 1
    rw [List.length_append, h.buckets, List.length_singleton]
  pkIndex := by
    intro bucket hbucket
    rcases List.mem_append.mp hbucket with hold | hlast
    · exact h.pkIndex bucket hold
    · rw [List.mem_singleton.mp hlast]
      rfl
  isNew := h.isNew.addBucket lock fun t ht => by
    cases ht
    exact hnew

theorem owns_bptreeCreate : Owns 0 bptreeCreate fun tree => tree.elim 0 BPTree.refs := by
  refine (owns_acquire Resource.bptree).bind fun tree => ?_
  cases tree with
  | none => exact Owns.pure rfl
  | some tree => exact Owns.pure (add_zero _).symm

theorem yields_bptreeCreate :
    Yields (fun _ => True) bptreeCreate fun result _ => ∀ tree ∈ result, tree.IsNew := by
  refine Yields.skip fun tree => ?_
  cases tree with
  | none => exact Yields.none
  | some tree => exact Yields.some ⟨rfl, rfl⟩

theorem owns_tableCreateBuckets (left : ℕ) {table : Table} (h : table.IsNew) :
    Owns table.refs (tableCreateBuckets left table) fun table => table.elim 0 Table.refs := by
  induction left generalizing table with
  | zero => exact Owns.pure rfl
  | succ left ih =>
    refine (owns_acquire Resource.bucketLock).step table.refs (zero_add _).symm fun lock => ?_
    cases lock with
    | none => exact (owns_tableDestroy_new h).thenReturn (zero_add _) rfl
    | some lock =>
      refine owns_bptreeCreate.stepOf yields_bptreeCreate ({lock} + table.refs) (zero_add _).symm
        fun tree hnew => ?_
      have hrefs := table.refs_addBucket lock tree
      cases tree with
      | none =>
        refine (owns_tableDestroy_new (h.addBucket lock hnew)).thenReturn ?_ rfl
        rw [hrefs]
        abel
      | some tree =>
        refine (ih (h.addBucket lock hnew)).congr ?_ fun _ => rfl
        rw [hrefs]
        abel

theorem owns_tableCreate : Owns 0 tableCreate fun table => table.elim 0 Table.refs := by
  refine (owns_acquire Resource.table).bind fun memory => ?_
  cases memory with
  | none => exact Owns.pure rfl
  | some memory =>
    refine (owns_acquire Resource.nextIdLock).step {memory} (zero_add _).symm fun nextIdLock => ?_
    cases nextIdLock with
    | none => exact (owns_release memory).thenReturn (zero_add _) rfl
    | some nextIdLock =>
      have hnew : (⟨memory, some nextIdLock, []⟩ : Table).IsNew :=
        fun _ hbucket => absurd hbucket List.not_mem_nil
      refine (owns_tableCreateBuckets tableBucketCount hnew).congr ?_ fun _ => rfl
      unfold Table.refs
      rw [List.map_nil, List.sum_nil, add_zero, add_comm, given_some]

theorem yields_tableCreateBuckets (left : ℕ) {count : ℕ} {table : Table}
    (h : table.Complete count) :
    Yields (fun _ => True) (tableCreateBuckets left table)
      fun result _ => ∀ table ∈ result, table.Complete (count + left) := by
  induction left generalizing count table with
  | zero => exact Yields.some h
  | succ left ih =>
    refine Yields.skip fun lock => ?_
    cases lock with
    | none => exact Yields.skip fun _ => Yields.none
    | some lock =>
      refine yields_bptreeCreate.bind fun tree => Yields.of_fact fun hnew => ?_
      cases tree with
      | none => exact Yields.skip fun _ => Yields.none
      | some tree =>
        have hnext := ih (h.addBucket lock (hnew tree rfl))
        rwa [add_assoc, add_comm 1 left] at hnext

theorem yields_tableCreate : Yields (fun _ => True) tableCreate
    fun result _ => ∀ table ∈ result, table.Complete tableBucketCount := by
  refine Yields.skip fun memory => ?_
  cases memory with
  | none => exact Yields.none
  | some memory =>
    refine Yields.skip (p := acquire Resource.nextIdLock) fun nextIdLock => ?_
    cases nextIdLock with
    | none => exact Yields.skip fun _ => Yields.none
    | some nextIdLock =>
      have hempty : (⟨memory, some nextIdLock, []⟩ : Table).Complete 0 :=
        ⟨rfl, rfl, fun _ hbucket => absurd hbucket List.not_mem_nil,
          fun _ hbucket => absurd hbucket List.not_mem_nil⟩
      have hloop := yields_tableCreateBuckets tableBucketCount hempty
      rwa [zero_add] at hloop

/-! ### The thread pool -/

/-- What is made is as `made` says, and what is there when the start waits for ever as `waits`. -/
def Start.Meets {α : Type} (made waits : α → Prop) : Start α → Prop
  | .made a => made a
  | .failed => True
  | .waits a => waits a

/-- Not all workers of the pool were started, and one that was is not joined. -/
def ThreadPool.WaitsForWorker (workerCount : ℕ) (pool : ThreadPool) : Prop :=
  pool.threads ≠ [] ∧ pool.threads.length < workerCount

theorem owns_threadPoolJoinStarted (threads : List Ref) :
    Owns ↑threads (threadPoolJoinStarted threads) fun left => (left : Multiset Ref) := by
  induction threads with
  | nil => exact Owns.pure rfl
  | cons thread threads ih =>
    refine owns_attempt.step ↑(thread :: threads) (zero_add _).symm fun returned => ?_
    cases returned with
    | false => exact Owns.pure (zero_add _)
    | true =>
      refine (owns_release thread).step ↑threads ?_ fun _ => ?_
      · rw [zero_add, Multiset.singleton_add, Multiset.cons_coe]
      · exact ih.congr (zero_add _) fun _ => rfl

theorem yields_threadPoolJoinStarted (threads : List Ref) :
    Yields (fun _ => True) (threadPoolJoinStarted threads)
      fun left _ => left.length ≤ threads.length := by
  induction threads with
  | nil => exact Yields.pure fun _ _ => Nat.le_refl 0
  | cons thread threads ih =>
    refine Yields.skip fun returned => ?_
    cases returned with
    | false => exact Yields.pure fun _ _ => Nat.le_refl _
    | true =>
      refine Yields.skip fun _ => ?_
      exact fun w left w' htrue hrun => (ih w left w' htrue hrun).trans (Nat.le_succ _)

theorem owns_threadPoolCreateWorkers (left : ℕ) (pool : ThreadPool) :
    Owns pool.refs (threadPoolCreateWorkers left pool) (Start.refs ThreadPool.refs) := by
  induction left generalizing pool with
  | zero => exact Owns.pure rfl
  | succ left ih =>
    refine (owns_acquire Resource.thread).step pool.refs (zero_add _).symm fun thread => ?_
    cases thread with
    | none =>
      refine (owns_threadPoolJoinStarted pool.threads.reverse).step
        ({pool.workers} + {pool.jobs} + {pool.mutex} + {pool.cond}) ?_ fun threads => ?_
      · rw [given_none, zero_add, Multiset.coe_eq_coe.mpr pool.threads.reverse_perm]
        exact add_comm _ _
      · cases threads with
        | nil => exact (owns_freeAll pool).thenReturn (zero_add _) rfl
        | cons thread threads =>
          refine Owns.pure ?_
          show _ = ({pool.workers} + {pool.jobs} + {pool.mutex} + {pool.cond} +
            ((thread :: threads).reverse : Multiset Ref))
          rw [Multiset.coe_eq_coe.mpr (thread :: threads).reverse_perm]
          exact add_comm _ _
    | some thread =>
      refine (ih { pool with threads := pool.threads ++ [thread] }).congr ?_ fun _ => rfl
      unfold ThreadPool.refs
      rw [← Multiset.coe_add, Multiset.coe_singleton, given_some]
      abel

theorem yields_threadPoolCreateWorkers (left : ℕ) (pool : ThreadPool) :
    Yields (fun _ => True) (threadPoolCreateWorkers left pool) fun result _ =>
      result.Meets (fun created => created.threads.length = pool.threads.length + left)
        (ThreadPool.WaitsForWorker (pool.threads.length + left)) := by
  induction left generalizing pool with
  | zero => exact Yields.pure fun _ _ => rfl
  | succ left ih =>
    refine Yields.skip fun thread => ?_
    cases thread with
    | none =>
      refine (yields_threadPoolJoinStarted pool.threads.reverse).bind fun threads =>
        Yields.of_fact fun hlength => ?_
      cases threads with
      | nil => exact Yields.skip fun _ => Yields.pure fun _ _ => trivial
      | cons thread threads =>
        refine Yields.pure fun _ _ => ⟨?_, ?_⟩
        · exact List.reverse_ne_nil_iff.mpr (List.cons_ne_nil _ _)
        · rw [List.length_reverse] at hlength ⊢
          omega
    | some thread =>
      have hnext := ih { pool with threads := pool.threads ++ [thread] }
      dsimp only at hnext
      rwa [List.length_append, List.length_singleton, add_assoc, add_comm 1 left] at hnext

theorem owns_threadPoolInit (workerCount queueCapacity : ℕ) :
    Owns 0 (threadPoolInit workerCount queueCapacity)
      (Start.refs ThreadPool.refs) := by
  unfold threadPoolInit
  split_ifs with hzero
  · exact Owns.pure rfl
  refine (owns_calloc Resource.workers workerCount sizeofPthread).bind fun workers => ?_
  refine (owns_calloc Resource.jobs queueCapacity sizeofThreadPoolJob).step (given workers)
    (zero_add _).symm fun jobs => ?_
  -- both arrays, or neither of them in the end
  have hfree : Owns (given jobs + given workers)
      (do
        free workers
        free jobs
        pure .failed) (Start.refs ThreadPool.refs) :=
    (owns_free workers).step (given jobs) (add_comm _ _) fun _ =>
      (owns_free jobs).thenReturn (zero_add _) rfl
  cases workers with
  | none => exact hfree
  | some workers =>
    cases jobs with
    | none => exact hfree
    | some jobs =>
      refine (owns_acquire Resource.mutex).step ({jobs} + {workers}) (zero_add _).symm
        fun mutex => ?_
      cases mutex with
      | none =>
        refine (owns_release workers).step {jobs} (by rw [given_none]; abel) fun _ => ?_
        exact (owns_release jobs).thenReturn (zero_add _) rfl
      | some mutex =>
        refine (owns_acquire Resource.cond).step ({mutex} + ({jobs} + {workers})) (zero_add _).symm
          fun cond => ?_
        cases cond with
        | none =>
          refine (owns_release mutex).step ({jobs} + {workers}) (zero_add _) fun _ => ?_
          refine (owns_release workers).step {jobs} (by abel) fun _ => ?_
          exact (owns_release jobs).thenReturn (zero_add _) rfl
        | some cond =>
          refine (owns_threadPoolCreateWorkers workerCount
            ⟨workers, jobs, mutex, cond, []⟩).congr ?_ fun _ => rfl
          unfold ThreadPool.refs
          rw [Multiset.coe_nil, given_some]
          abel

theorem yields_threadPoolInit (workerCount queueCapacity : ℕ) :
    Yields (fun _ => True) (threadPoolInit workerCount queueCapacity) fun result _ =>
      result.Meets (fun pool => pool.threads.length = workerCount ∧
        workerCount * sizeofPthread ≤ sizeMax ∧ queueCapacity * sizeofThreadPoolJob ≤ sizeMax)
        (ThreadPool.WaitsForWorker workerCount) := by
  have hfailed : ∀ {made waits : ThreadPool → Prop}, Yields (fun _ => True)
      (pure .failed : Proc (Start ThreadPool)) fun result _ => result.Meets made waits :=
    Yields.pure fun _ _ => trivial
  unfold threadPoolInit
  split_ifs with hzero
  · exact hfailed
  refine (yields_calloc .workers workerCount sizeofPthread).bind fun workers =>
    Yields.of_fact fun hworkers => ?_
  refine (yields_calloc .jobs queueCapacity sizeofThreadPoolJob).bind fun jobs =>
    Yields.of_fact fun hjobs => ?_
  cases workers with
  | none => exact Yields.skip fun _ => Yields.skip fun _ => hfailed
  | some workers =>
    cases jobs with
    | none => exact Yields.skip fun _ => Yields.skip fun _ => hfailed
    | some jobs =>
      refine Yields.skip fun mutex => ?_
      cases mutex with
      | none => exact Yields.skip fun _ => Yields.skip fun _ => hfailed
      | some mutex =>
        refine Yields.skip fun cond => ?_
        cases cond with
        | none => exact Yields.skip fun _ => Yields.skip fun _ => Yields.skip fun _ => hfailed
        | some cond =>
          intro w result w' hw hrun
          have hmeets := yields_threadPoolCreateWorkers workerCount
            ⟨workers, jobs, mutex, cond, []⟩ w result w' hw hrun
          rw [List.length_nil, zero_add] at hmeets
          cases result with
          | made pool => exact ⟨hmeets, hworkers workers rfl, hjobs jobs rfl⟩
          | failed => trivial
          | waits pool => exact hmeets

/-! ### The server -/

theorem owns_serverMakeListenSocket : Owns 0 serverMakeListenSocket given := by
  refine (owns_acquire Resource.socket).bind fun listenFd => ?_
  cases listenFd with
  | none => exact Owns.pure rfl
  | some listenFd =>
    -- no attempt acquires anything
    refine owns_attempt.step {listenFd} (zero_add _).symm fun _ => ?_
    refine owns_attempt.step {listenFd} rfl fun bound => ?_
    cases bound with
    | false => exact (owns_release listenFd).thenReturn (zero_add _) rfl
    | true =>
      refine owns_attempt.step {listenFd} rfl fun listening => ?_
      cases listening with
      | false => exact (owns_release listenFd).thenReturn (zero_add _) rfl
      | true => exact Owns.pure (zero_add _)

theorem owns_serverCreate (config : ServerConfig) :
    Owns 0 (serverCreate config) (Start.refs Server.refs) := by
  refine (owns_acquire Resource.server).bind fun memory => ?_
  cases memory with
  | none => exact Owns.pure rfl
  | some memory =>
    refine owns_tableCreate.stepOf yields_tableCreate {memory} (zero_add _).symm
      fun table htable => ?_
    cases table with
    | none => exact (owns_release memory).thenReturn (zero_add _) rfl
    | some table =>
      have hnew := (htable table rfl).isNew
      refine (owns_threadPoolInit config.workerCount config.queueCapacity).step
        (table.refs + {memory}) (zero_add _).symm fun pool => ?_
      cases pool with
      | failed =>
        refine (owns_tableDestroy_new hnew).step {memory} (zero_add _) fun _ => ?_
        exact (owns_release memory).thenReturn (zero_add _) rfl
      | waits pool =>
        refine Owns.pure ?_
        show pool.refs + (table.refs + {memory}) =
          {memory} + given none + table.refs + pool.refs
        rw [given_none]
        abel
      | made pool =>
        refine owns_serverMakeListenSocket.step (pool.refs + (table.refs + {memory}))
          (zero_add _).symm fun listenFd => ?_
        cases listenFd with
        | none =>
          refine (owns_threadPoolDestroy (some pool)).step (table.refs + {memory}) (zero_add _)
            fun _ => ?_
          refine (owns_tableDestroy_new hnew).step {memory} (zero_add _) fun _ => ?_
          exact (owns_release memory).thenReturn (zero_add _) rfl
        | some listenFd =>
          refine Owns.pure ?_
          show given (some listenFd) + (pool.refs + (table.refs + {memory})) =
            {memory} + given (some listenFd) + table.refs + pool.refs
          abel

theorem owns_installSignalHandlers : Owns 0 installSignalHandlers fun _ => 0 := by
  refine owns_attempt.bind fun first => ?_
  cases first with
  | false => exact Owns.pure rfl
  | true =>
    refine owns_attempt.bind fun second => ?_
    cases second with
    | false => exact Owns.pure rfl
    | true => exact Owns.pure rfl

theorem owns_serverMain (args : List (List UInt8)) :
    Owns 0 (serverMain args) MainResult.refs := by
  unfold serverMain
  cases mainPort args with
  | error message => exact Owns.pure rfl
  | ok port =>
    refine owns_installSignalHandlers.bind fun installed => ?_
    cases installed with
    | false => exact Owns.pure rfl
    | true =>
      cases mainConfig args port with
      | error message => exact Owns.pure rfl
      | ok config =>
        refine (owns_serverCreate config).bind fun server => ?_
        cases server with
        | made server => exact Owns.pure rfl
        | failed => exact Owns.pure rfl
        | waits server => exact Owns.pure rfl

/-! ### The arguments -/

/-- `argv[index + 1]` stands for this number: it is a numeral of it, and it is neither zero nor
beyond the limit; or it is missing, and the number is `default`. -/
def Argument (args : List (List UInt8)) (index default : ℕ) (limit : Option ℕ) (value : ℕ) : Prop :=
  match args[index]? with
  | none => value = default
  | some text =>
    (∃ numeral : Numeral, numeral.text = text ∧ numeral.value = value) ∧
      0 < value ∧ ∀ m ∈ limit, value ≤ m

/-- The server can run with this configuration. -/
structure Configures (args : List (List UInt8)) (config : ServerConfig) : Prop where
  port : Argument args 0 8080 (some 65535) config.port
  workerCount : Argument args 1 4 none config.workerCount
  queueCapacity : Argument args 2 16 none config.queueCapacity
  backlog : Argument args 3 32 (some 128) config.backlog
  workers_le : config.workerCount * sizeofPthread ≤ sizeMax
  jobs_le : config.queueCapacity * sizeofThreadPoolJob ≤ sizeMax

theorem mainArgument_eq_ok_iff {args : List (List UInt8)} {index default : ℕ} {limit : Option ℕ}
    {label : String} {value : ℕ} :
    mainArgument args index default limit label = .ok value ↔
      Argument args index default limit value := by
  unfold mainArgument Argument
  cases args[index]? with
  | none =>
    show Except.ok default = Except.ok value ↔ value = default
    rw [Except.ok.injEq, eq_comm]
  | some text =>
    have hlimit : ∀ v, limit.any (· < v) = false ↔ ∀ m ∈ limit, v ≤ m := by
      intro v
      cases limit with
      | none => simp
      | some m => simp
    dsimp only
    split_ifs with hbad
    · refine iff_of_false nofun ?_
      rintro ⟨⟨numeral, rfl, rfl⟩, hpos, hle⟩
      rw [strtoul_numeral] at hbad
      rcases hbad with hnil | hrest | hzero | hlarge
      · exact numeral.text_ne_nil hnil.symm
      · exact hrest rfl
      · exact absurd hzero hpos.ne'
      · rw [(hlimit _).mpr hle] at hlarge
        exact Bool.false_ne_true hlarge
    · push Not at hbad
      obtain ⟨htext, hrest, hzero, hlarge⟩ := hbad
      have hne : text ≠ [] := by
        rw [← hrest]
        exact htext.symm
      have hle := (hlimit _).mp (Bool.eq_false_iff.mpr hlarge)
      rw [Except.ok.injEq, ← strtoul_eq_iff hne, Prod.ext_iff]
      constructor
      · rintro rfl
        exact ⟨⟨rfl, hrest⟩, Nat.pos_of_ne_zero hzero, hle⟩
      · exact fun h => h.1.1

/-- The arguments that `main` accepts, whatever `calloc` says to them. -/
theorem mainConfig_eq_ok_iff {args : List (List UInt8)} {port : ℕ} {config : ServerConfig} :
    mainConfig args port = .ok config ↔ config.port = port ∧
      Argument args 1 4 none config.workerCount ∧ Argument args 2 16 none config.queueCapacity ∧
      Argument args 3 32 (some 128) config.backlog := by
  rw [← mainArgument_eq_ok_iff, ← mainArgument_eq_ok_iff, ← mainArgument_eq_ok_iff]
  show _ ↔ _ ∧ mainWorkerCount args = _ ∧ mainQueueCapacity args = _ ∧ mainBacklog args = _
  unfold mainConfig
  cases mainWorkerCount args with
  | error message => exact iff_of_false nofun fun h => nomatch h.2.1
  | ok workerCount =>
    cases mainQueueCapacity args with
    | error message => exact iff_of_false nofun fun h => nomatch h.2.2.1
    | ok queueCapacity =>
      cases mainBacklog args with
      | error message => exact iff_of_false nofun fun h => nomatch h.2.2.2
      | ok backlog =>
        obtain ⟨port', workerCount', queueCapacity', backlog'⟩ := config
        constructor
        · rintro h
          cases h
          exact ⟨rfl, rfl, rfl, rfl⟩
        · rintro ⟨rfl, hworker, hqueue, hbacklog⟩
          cases hworker
          cases hqueue
          cases hbacklog
          rfl

/-! ### What `main` comes to -/

/-- A server that `server_run` can serve with. -/
structure Server.Complete (server : Server) : Prop where
  listenFd : server.listenFd.isSome = true
  table : ∃ table ∈ server.table, table.Complete tableBucketCount
  pool : ∃ pool ∈ server.pool, pool.threads.length = server.config.workerCount

/-- The pool of the server could not be started. -/
def Server.WaitsForWorker (server : Server) : Prop :=
  ∃ pool ∈ server.pool, pool.WaitsForWorker server.config.workerCount

theorem yields_serverCreate (config : ServerConfig) :
    Yields (fun _ => True) (serverCreate config) fun result _ =>
      result.Meets (fun server => server.config = config ∧ server.Complete ∧
        config.workerCount * sizeofPthread ≤ sizeMax ∧
        config.queueCapacity * sizeofThreadPoolJob ≤ sizeMax) Server.WaitsForWorker := by
  have hfailed : ∀ {made waits : Server → Prop}, Yields (fun _ => True)
      (pure .failed : Proc (Start Server)) fun result _ => result.Meets made waits :=
    Yields.pure fun _ _ => trivial
  refine Yields.skip fun memory => ?_
  cases memory with
  | none => exact hfailed
  | some memory =>
    refine yields_tableCreate.bind fun table => Yields.of_fact fun htable => ?_
    cases table with
    | none => exact Yields.skip fun _ => hfailed
    | some table =>
      refine (yields_threadPoolInit config.workerCount config.queueCapacity).bind fun pool =>
        Yields.of_fact fun hpool => ?_
      cases pool with
      | failed => exact Yields.skip fun _ => Yields.skip fun _ => hfailed
      | waits pool => exact Yields.pure fun _ _ => ⟨pool, rfl, hpool⟩
      | made pool =>
        obtain ⟨hthreads, hworkers, hjobs⟩ := hpool
        refine Yields.skip fun listenFd => ?_
        cases listenFd with
        | none => exact Yields.skip fun _ => Yields.skip fun _ => Yields.skip fun _ => hfailed
        | some listenFd =>
          exact Yields.pure fun _ _ => ⟨rfl, ⟨rfl, ⟨table, rfl, htable table rfl⟩, pool, rfl,
            hthreads⟩, hworkers, hjobs⟩

/-- What is true of a server that `main` calls `server_run` with, and of one that it does not get
behind `server_create` with. -/
def MainResult.Meets (args : List (List UInt8)) : MainResult → Prop
  | .exits _ => True
  | .serves stdout server =>
    stdout = listeningText server.config ∧ server.Complete ∧ Configures args server.config
  | .waits server => server.WaitsForWorker

theorem yields_serverMain (args : List (List UInt8)) :
    Yields (fun _ => True) (serverMain args) fun result _ => result.Meets args := by
  have hexits : ∀ stderr, Yields (fun _ => True) (pure (.exits stderr) : Proc MainResult)
      fun result _ => result.Meets args :=
    fun stderr => Yields.pure fun _ _ => trivial
  unfold serverMain
  cases hport : mainPort args with
  | error message => exact hexits message
  | ok port =>
    refine Yields.skip fun installed => ?_
    cases installed with
    | false => exact hexits _
    | true =>
      cases hconfig : mainConfig args port with
      | error message => exact hexits message
      | ok config =>
        obtain ⟨rfl, hworkerCount, hqueueCapacity, hbacklog⟩ := mainConfig_eq_ok_iff.mp hconfig
        refine (yields_serverCreate config).bind fun server => Yields.of_fact fun hserver => ?_
        cases server with
        | failed => exact hexits _
        | waits server => exact Yields.pure fun _ _ => hserver
        | made server =>
          obtain ⟨rfl, hcomplete, hworkers, hjobs⟩ := hserver
          exact Yields.pure fun _ _ => ⟨rfl, hcomplete, mainArgument_eq_ok_iff.mp hport,
            hworkerCount, hqueueCapacity, hbacklog, hworkers, hjobs⟩

/-! ### When nothing fails -/

theorem succeeds_bptreeCreate : Succeeds bptreeCreate :=
  (succeeds_acquire Resource.bptree).bind fun tree =>
    Succeeds.pure (BPTree.mk tree MiniDbms.bptreeCreate [])

theorem succeeds_tableCreateBuckets (left : ℕ) (table : Table) :
    Succeeds (tableCreateBuckets left table) := by
  induction left generalizing table with
  | zero => exact Succeeds.pure table
  | succ left ih =>
    refine (succeeds_acquire Resource.bucketLock).bind fun lock => ?_
    exact succeeds_bptreeCreate.bind fun tree => ih (table.addBucket lock (some tree))

theorem succeeds_tableCreate : Succeeds tableCreate :=
  (succeeds_acquire Resource.table).bind fun memory =>
    (succeeds_acquire Resource.nextIdLock).bind fun nextIdLock =>
      succeeds_tableCreateBuckets tableBucketCount ⟨memory, some nextIdLock, []⟩

theorem succeeds_calloc {kind : Resource} {count size : ℕ} (h : count * size ≤ sizeMax) :
    Succeeds (calloc kind count size) := by
  unfold calloc
  rw [if_neg (not_lt.mpr h)]
  exact succeeds_acquire kind

/-- The start is made when no attempt fails. -/
def Makes {α : Type} (p : Proc (Start α)) : Prop :=
  Yields World.Lucky p fun result w => (∃ a, result = .made a) ∧ w.Lucky

theorem Makes.pure {α : Type} (a : α) : Makes (pure (.made a)) :=
  Yields.pure fun _ hlucky => ⟨⟨a, rfl⟩, hlucky⟩

theorem Makes.bind {α β : Type} {p : Proc (Start α)} {f : Start α → Proc β}
    {post : β → World Resource → Prop} (hp : Makes p)
    (hf : ∀ a, Yields World.Lucky (f (.made a)) post) : Yields World.Lucky (p >>= f) post := by
  refine Yields.bind hp fun result => Yields.of_fact_and ?_
  rintro ⟨a, rfl⟩
  exact hf a

theorem makes_threadPoolCreateWorkers (left : ℕ) (pool : ThreadPool) :
    Makes (threadPoolCreateWorkers left pool) := by
  induction left generalizing pool with
  | zero => exact Makes.pure pool
  | succ left ih => exact (succeeds_acquire Resource.thread).bind fun thread => ih _

theorem makes_threadPoolInit {workerCount queueCapacity : ℕ} (hworkerCount : 0 < workerCount)
    (hqueueCapacity : 0 < queueCapacity) (hworkers : workerCount * sizeofPthread ≤ sizeMax)
    (hjobs : queueCapacity * sizeofThreadPoolJob ≤ sizeMax) :
    Makes (threadPoolInit workerCount queueCapacity) := by
  unfold threadPoolInit
  rw [if_neg (not_or.mpr ⟨hworkerCount.ne', hqueueCapacity.ne'⟩)]
  refine (succeeds_calloc hworkers).bind fun workers => ?_
  refine (succeeds_calloc hjobs).bind fun jobs => ?_
  refine (succeeds_acquire Resource.mutex).bind fun mutex => ?_
  refine (succeeds_acquire Resource.cond).bind fun cond => ?_
  exact makes_threadPoolCreateWorkers workerCount ⟨workers, jobs, mutex, cond, []⟩

theorem succeeds_serverMakeListenSocket : Succeeds serverMakeListenSocket :=
  (succeeds_acquire Resource.socket).bind fun listenFd =>
    Succeeds.attempt (Succeeds.attempt (Succeeds.attempt (Succeeds.pure listenFd)))

/-- A number that an argument stands for is positive. -/
theorem Argument.pos {args : List (List UInt8)} {index default value : ℕ} {limit : Option ℕ}
    (h : Argument args index default limit value) (hdefault : 0 < default) : 0 < value := by
  unfold Argument at h
  cases harg : args[index]? with
  | none =>
    rw [harg] at h
    exact h.symm ▸ hdefault
  | some text =>
    rw [harg] at h
    exact h.2.1

theorem yields_installSignalHandlers :
    Yields World.Lucky installSignalHandlers fun installed w => installed = true ∧ w.Lucky :=
  Succeeds.attempt (Succeeds.attempt (Yields.pure fun _ hlucky => ⟨rfl, hlucky⟩))

theorem Configures.serves {args : List (List UInt8)} {config : ServerConfig}
    (h : Configures args config) :
    Yields World.Lucky (serverMain args) fun result _ =>
      ∃ server, result = .serves (listeningText config) server ∧ server.config = config := by
  have hport : mainPort args = .ok config.port := mainArgument_eq_ok_iff.mpr h.port
  have hconfig : mainConfig args config.port = .ok config :=
    mainConfig_eq_ok_iff.mpr ⟨rfl, h.workerCount, h.queueCapacity, h.backlog⟩
  have hpool := makes_threadPoolInit (h.workerCount.pos (by decide))
    (h.queueCapacity.pos (by decide)) h.workers_le h.jobs_le
  have hcreate : Makes (serverCreate config) :=
    (succeeds_acquire Resource.server).bind fun memory =>
      succeeds_tableCreate.bind fun table => hpool.bind fun pool =>
        succeeds_serverMakeListenSocket.bind fun listenFd =>
          Makes.pure (Server.mk memory (some listenFd) (some table) (some pool) config)
  unfold serverMain
  rw [hport]
  refine yields_installSignalHandlers.bind fun installed => Yields.of_fact_and ?_
  rintro rfl
  rw [hconfig]
  refine (Yields.and hcreate (yields_serverCreate config)).bind fun server => ?_
  rintro w result w' ⟨⟨⟨server, rfl⟩, -⟩, hserver⟩ hrun
  cases hrun
  exact ⟨server, rfl, hserver.1⟩

/-! ### The start -/

/-- A server that was just started is destroyed. -/
theorem Server.Complete.owns_serverDestroy {server : Server} (h : server.Complete) :
    Owns server.refs (serverDestroy server) fun _ => 0 := by
  obtain ⟨table, htable, hcomplete⟩ := h.table
  have hok : server.Ok := fun t ht => by
    rw [Option.mem_unique ht htable]
    exact hcomplete.isNew.ok
  refine (Startup.owns_serverDestroy hok).congr ?_ fun _ => ?_
  · rw [records, show server.table = some table from htable, Option.elim_some,
      hcomplete.isNew.records_eq, add_zero]
  · rw [lost, show server.table = some table from htable, Option.elim_some,
      hcomplete.isNew.lost_eq]

/-- **No start of the server leaks.**  Whichever calls fail, `main` returns with everything
released, each thing once; or it calls `server_run` with a complete server that owns all there is,
and `server_destroy` would release it; or it waits for ever in `pthread_join` for a worker of a pool
whose other workers could not all be started, and the server owns what is left. -/
theorem server_main_owns (args : List (List UInt8)) (outcomes : List Bool) :
    ∃ result w, serverMain args (.start outcomes) = some (result, w) ∧ w.held = result.refs ∧
      (∀ stderr, result = .exits stderr → w.Clean) ∧
      (∀ stdout server, result = .serves stdout server → server.Complete ∧
        ∃ w', serverDestroy server w = some ((), w') ∧ w'.Clean) ∧
      ∀ server, result = .waits server → server.WaitsForWorker := by
  obtain ⟨result, w, hrun, hok, hheld⟩ :=
    owns_serverMain args (.start outcomes) 0 (ok_start outcomes) rfl
  rw [add_zero] at hheld
  have hmeets := yields_serverMain args _ _ _ True.intro hrun
  refine ⟨result, w, hrun, hheld, ?_, ?_, ?_⟩
  · rintro stderr rfl
    exact hok.clean hheld
  · rintro stdout server rfl
    obtain ⟨-, hcomplete, -⟩ := hmeets
    obtain ⟨_, w', hdestroy, -, hclean⟩ := hcomplete.owns_serverDestroy.closed hok hheld
    exact ⟨hcomplete, w', hdestroy, hclean rfl⟩
  · rintro server rfl
    exact hmeets

/-- **What the server can be started with.**  The arguments decide the configuration: it can be
served with, and is announced, exactly when they stand for it and `calloc` can count its arrays. -/
theorem server_main_serves_iff (args : List (List UInt8)) (config : ServerConfig) :
    (∃ outcomes server w, serverMain args (.start outcomes) =
        some (.serves (listeningText config) server, w) ∧ server.config = config) ↔
      Configures args config := by
  constructor
  · rintro ⟨outcomes, server, w, hrun, rfl⟩
    obtain ⟨-, -, hconfigures⟩ := yields_serverMain args _ _ _ True.intro hrun
    exact hconfigures
  · intro h
    obtain ⟨result, w, hrun, -, -⟩ := (owns_serverMain args).closed (ok_start []) rfl
    obtain ⟨server, rfl, hconfig⟩ := h.serves (.start []) result w rfl hrun
    exact ⟨[], server, w, hrun, hconfig⟩

end MiniDbms.Startup
