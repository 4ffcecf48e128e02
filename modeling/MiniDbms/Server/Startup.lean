import MiniDbms.BPTree.Destroy
import MiniDbms.Lib.CString
import MiniDbms.Lib.Ownership
import MiniDbms.Table.Basic

/-!
# Starting and ending the server (`server_main.c`, `server_create`, `server_destroy`)

What the process acquires from its first statement to the accept loop, and what it releases behind
it: memory, locks, threads and the listening socket.  A call that can fail takes its outcome from
the world (`Ownership.World`); a join is the release of a thread, so that a thread is neither joined
twice nor left behind.

When `thread_pool_init` cannot start all workers, its joins may wait for ever: a worker that goes to
sleep behind the broadcast is not woken any more (`MiniDbms.thread_pool_init_cleans_up_iff`).

A table has got its rows, its records and the nodes of its indexes when it is destroyed.  A bucket
therefore has a place for all of them, although `table_create` makes none; which nodes of an index
are released is what `MiniDbms.bptreeDestroy` finds on its way through the tree.
-/

namespace MiniDbms.Startup

open CString Ownership

/-- What the process acquires. -/
inductive Resource
  | server | table | nextIdLock | bucketLock | rows | record | bptree | node
  | workers | jobs | mutex | cond | thread | socket
  deriving DecidableEq

/-- Something that was acquired. -/
abbrev Ref := Handle Resource

/-- A part of the program. -/
abbrev Proc := Prog Resource

/-! ### Arrays from `calloc` -/

/-- `SIZE_MAX` -/
def sizeMax : ℕ := 2 ^ 64 - 1

/-- `sizeof(pthread_t)` -/
def sizeofPthread : ℕ := 8

/-- `sizeof(ThreadPoolJob)` -/
def sizeofThreadPoolJob : ℕ := 4

/-- `calloc(count, size)`: it fails when the product does not fit. -/
def calloc (kind : Resource) (count size : ℕ) : Proc (Option Ref) :=
  if sizeMax < count * size then pure none else acquire kind

/-! ### `sql_processor/bptree.c` -/

/-- `struct BPTree`; node `p` of `index` is the block `nodes[p]`. -/
structure BPTree where
  tree : Ref
  index : MiniDbms.BPTree RecordPtr
  nodes : List Ref

/-- Creates an empty B+ tree. -/
def bptreeCreate : Proc (Option BPTree) := do
  let tree ← acquire .bptree
  pure (tree.map fun tree => ⟨tree, MiniDbms.bptreeCreate, []⟩)

/-- `free(node)` for these nodes. -/
def bptreeFreeNodes (nodes : List Ref) : List NodeRef → Proc Unit
  | [] => pure ()
  | p :: freed => do
    release (← nodes[p]?)
    bptreeFreeNodes nodes freed

/-- Frees all nodes in the tree, in the order in which `bptree_destroy_node` comes to them. -/
def bptreeDestroy : Option BPTree → Proc Unit
  | none => pure ()
  | some tree => do
    bptreeFreeNodes tree.nodes (← MiniDbms.bptreeDestroy (some tree.index))
    release tree.tree

/-! ### `sql_processor/table.c` -/

/-- A bucket whose lock is initialized. -/
structure TableBucket where
  lock : Ref
  rows : Option Ref
  records : List Ref
  pkIndex : Option BPTree

/-- `struct Table`: `buckets` are the first `initialized_buckets`. -/
structure Table where
  memory : Ref
  nextIdLock : Option Ref
  buckets : List TableBucket

/-- One more bucket is initialized; it has no rows. -/
def Table.addBucket (table : Table) (lock : Ref) (pkIndex : Option BPTree) : Table :=
  { table with buckets := table.buckets ++ [⟨lock, none, [], pkIndex⟩] }

def tableDestroyBucket (bucket : TableBucket) : Proc Unit := do
  releaseAll bucket.records
  free bucket.rows
  bptreeDestroy bucket.pkIndex
  release bucket.lock

/-- The loop over the buckets. -/
def tableDestroyBuckets : List TableBucket → Proc Unit
  | [] => pure ()
  | bucket :: buckets => do
    tableDestroyBucket bucket
    tableDestroyBuckets buckets

/-- Frees all bucket-owned records and the B+ tree indexes. -/
def tableDestroy : Option Table → Proc Unit
  | none => pure ()
  | some table => do
    tableDestroyBuckets table.buckets
    free table.nextIdLock
    release table.memory

/-- The loop over the buckets: so many are left. -/
def tableCreateBuckets : ℕ → Table → Proc (Option Table)
  | 0, table => pure (some table)
  | left + 1, table => do
    match ← acquire .bucketLock with
    | none =>
      tableDestroy (some table)
      pure none
    | some lock =>
      match ← bptreeCreate with
      | none =>
        tableDestroy (some (table.addBucket lock none))
        pure none
      | some tree => tableCreateBuckets left (table.addBucket lock (some tree))

/-- Creates the in-memory users table with hash-based buckets. -/
def tableCreate : Proc (Option Table) := do
  match ← acquire .table with
  | none => pure none
  | some memory =>
    match ← acquire .nextIdLock with
    | none =>
      release memory
      pure none
    | some nextIdLock => tableCreateBuckets tableBucketCount ⟨memory, some nextIdLock, []⟩

/-! ### `server/thread_pool.c` -/

/-- A pool that exists; `threads` are the workers that `pthread_create` started. -/
structure ThreadPool where
  workers : Ref
  jobs : Ref
  mutex : Ref
  cond : Ref
  threads : List Ref

/-- The end of `thread_pool_destroy`, and of `thread_pool_init` when a worker cannot be started. -/
def ThreadPool.freeAll (pool : ThreadPool) : Proc Unit := do
  release pool.cond
  release pool.mutex
  release pool.workers
  release pool.jobs

/-- How a start ends.  `waits a` is one that does not return: its thread waits in `pthread_join`,
and `a` is as it is then. -/
inductive Start (α : Type)
  | made (a : α)
  | failed
  | waits (a : α)

/-- The joins of a failed start.  One that does not return is an attempt that fails: the workers
that are left then. -/
def threadPoolJoinStarted : List Ref → Proc (List Ref)
  | [] => pure []
  | thread :: threads => do
    if !(← attempt) then pure (thread :: threads)
    else
      release thread
      threadPoolJoinStarted threads

/-- The loop of `thread_pool_init`: so many workers are left.  When one cannot be started, the ones
before it are joined, the last first. -/
def threadPoolCreateWorkers : ℕ → ThreadPool → Proc (Start ThreadPool)
  | 0, pool => pure (.made pool)
  | left + 1, pool => do
    match ← acquire .thread with
    | none =>
      match ← threadPoolJoinStarted pool.threads.reverse with
      | [] =>
        pool.freeAll
        pure .failed
      | threads => pure (.waits { pool with threads := threads.reverse })
    | some thread =>
      threadPoolCreateWorkers left { pool with threads := pool.threads ++ [thread] }

def threadPoolInit (workerCount queueCapacity : ℕ) : Proc (Start ThreadPool) :=
  if workerCount = 0 ∨ queueCapacity = 0 then pure .failed
  else do
    -- the second is called even if the first fails
    let workers ← calloc .workers workerCount sizeofPthread
    let jobs ← calloc .jobs queueCapacity sizeofThreadPoolJob
    match workers, jobs with
    | some workers, some jobs =>
      match ← acquire .mutex with
      | none =>
        release workers
        release jobs
        pure .failed
      | some mutex =>
        match ← acquire .cond with
        | none =>
          release mutex
          release workers
          release jobs
          pure .failed
        | some cond => threadPoolCreateWorkers workerCount ⟨workers, jobs, mutex, cond, []⟩
    | workers, jobs =>
      free workers
      free jobs
      pure .failed

/-- `none` is a pool whose `workers` are `NULL`. -/
def threadPoolDestroy : Option ThreadPool → Proc Unit
  | none => pure ()
  | some pool => do
    releaseAll pool.threads
    pool.freeAll

/-! ### `server/server.c` -/

structure ServerConfig where
  port : ℕ
  workerCount : ℕ
  queueCapacity : ℕ
  backlog : ℕ
  deriving DecidableEq

structure Server where
  memory : Ref
  listenFd : Option Ref
  table : Option Table
  pool : Option ThreadPool
  config : ServerConfig

def serverMakeListenSocket : Proc (Option Ref) := do
  match ← acquire .socket with
  | none => pure none
  | some listenFd =>
    -- the result of `setsockopt` is not looked at
    let _ ← attempt
    if !(← attempt) then
      release listenFd
      pure none
    else if !(← attempt) then
      release listenFd
      pure none
    else pure (some listenFd)

def serverCreate (config : ServerConfig) : Proc (Start Server) := do
  match ← acquire .server with
  | none => pure .failed
  | some memory =>
    match ← tableCreate with
    | none =>
      release memory
      pure .failed
    | some table =>
      match ← threadPoolInit config.workerCount config.queueCapacity with
      | .failed =>
        tableDestroy (some table)
        release memory
        pure .failed
      | .waits pool => pure (.waits ⟨memory, none, some table, some pool, config⟩)
      | .made pool =>
        match ← serverMakeListenSocket with
        | none =>
          threadPoolDestroy (some pool)
          tableDestroy (some table)
          release memory
          pure .failed
        | some listenFd => pure (.made ⟨memory, some listenFd, some table, some pool, config⟩)

def serverDestroy (server : Server) : Proc Unit := do
  threadPoolDestroy server.pool
  free server.listenFd
  tableDestroy server.table
  release server.memory

/-! ### `server_main.c` -/

def installSignalHandlers : Proc Bool := do
  if !(← attempt) then pure false
  else if !(← attempt) then pure false
  else pure true

/-- `argv[index + 1]` as a number, or `default` when there is none; or what is printed when it is
refused. -/
def mainArgument (args : List (List UInt8)) (index default : ℕ) (limit : Option ℕ)
    (label : String) : Except (List UInt8) ℕ :=
  match args[index]? with
  | none => .ok default
  | some text =>
    let (value, endPtr) := strtoul text
    if endPtr = text ∨ endPtr ≠ [] ∨ value = 0 ∨ limit.any (· < value) then
      .error (ascii "Invalid " ++ ascii label ++ ascii ": " ++ text ++ ascii "\n")
    else .ok value

def mainPort (args : List (List UInt8)) : Except (List UInt8) ℕ :=
  mainArgument args 0 8080 (some 65535) "port"

def mainWorkerCount (args : List (List UInt8)) : Except (List UInt8) ℕ :=
  mainArgument args 1 4 none "worker_count"

def mainQueueCapacity (args : List (List UInt8)) : Except (List UInt8) ℕ :=
  mainArgument args 2 16 none "queue_capacity"

def mainBacklog (args : List (List UInt8)) : Except (List UInt8) ℕ :=
  mainArgument args 3 32 (some 128) "backlog"

/-- The arguments behind the port. -/
def mainConfig (args : List (List UInt8)) (port : ℕ) : Except (List UInt8) ServerConfig := do
  let workerCount ← mainWorkerCount args
  let queueCapacity ← mainQueueCapacity args
  let backlog ← mainBacklog args
  pure ⟨port, workerCount, queueCapacity, backlog⟩

/-- What is printed when the server starts. -/
def listeningText (config : ServerConfig) : List UInt8 :=
  ascii "Listening on port " ++ decimalDigits config.port ++ ascii " (workers=" ++
    decimalDigits config.workerCount ++ ascii " queue=" ++ decimalDigits config.queueCapacity ++
    ascii " backlog=" ++ decimalDigits config.backlog ++ ascii ")\n"

/-- How far `main` gets: it returns 1 with a text on `stderr`, or calls `server_run` behind a text
on `stdout`, or waits for ever in `server_create`. -/
inductive MainResult
  | exits (stderr : List UInt8)
  | serves (stdout : List UInt8) (server : Server)
  | waits (server : Server)

/-- `main` up to `server_run`, with `argv[1]` and so on. -/
def serverMain (args : List (List UInt8)) : Proc MainResult :=
  match mainPort args with
  | .error message => pure (.exits message)
  | .ok port => do
    if !(← installSignalHandlers) then
      pure (.exits (ascii "Failed to install signal handlers.\n"))
    else
      match mainConfig args port with
      | .error message => pure (.exits message)
      | .ok config =>
        match ← serverCreate config with
        | .failed => pure (.exits (ascii "Failed to initialize server.\n"))
        | .waits server => pure (.waits server)
        | .made server => pure (.serves (listeningText config) server)

end MiniDbms.Startup
