import Mathlib.Data.Fintype.Basic
import MiniDbms.Lib.CArray

/-!
# The thread pool and its threads

The pool of `server/thread_pool.c`, and the threads that use it, step by step.

* The *owner* creates the pool and destroys it (`server_create`, `server_destroy`).
* The *callers* accept connections, submit them, and answer a refused one themselves; they may also
  shut the pool down.  In the server there is one, `server_run`, which runs on the thread of the
  owner; more of them only add interleavings.
* The *workers* run `thread_pool_worker_main`.

A step takes one thread from one place to the next; a thread takes the mutex in a step of its own.
What a caller does while it holds the mutex is one step.  A worker tests for work in one step and
goes to sleep in another, because the owner changes `stop_requested` without the mutex when
`pthread_create` fails.

The history records which connections were accepted, refused, handled and closed, and when the stop
was requested.  No step reads the history, but for the number that it gives to a job.
-/

namespace MiniDbms

/-! ### The pool -/

structure ThreadPoolJob where
  clientFd : ℤ
  deriving DecidableEq

/-- `worker_count` is the number of worker threads, and `queue_capacity` is the length `capacity` of
`jobs`; they do not change while the pool exists.  `workers` and `handler` say whether the pointers
are set. -/
structure ThreadPool (capacity : ℕ) where
  workers : Bool
  jobs : Option (CArray ThreadPoolJob capacity)
  head : ℕ
  tail : ℕ
  size : ℕ
  stopRequested : Bool
  handler : Bool

namespace ThreadPool

variable {capacity : ℕ}

/-- A pool in memory that `calloc` returned, and a pool that `thread_pool_destroy` left. -/
def zero (capacity : ℕ) : ThreadPool capacity := ⟨false, none, 0, 0, 0, false, false⟩

/-- What `thread_pool_init` stores before it creates the workers. -/
def init (capacity : ℕ) : ThreadPool capacity :=
  ⟨true, some (CArray.filled capacity ⟨0⟩), 0, 0, 0, false, true⟩

/-- The condition of the wait loop. -/
def mustWait (pool : ThreadPool capacity) : Bool := !pool.stopRequested && pool.size = 0

/-- The condition under which a worker leaves its loop. -/
def mustBreak (pool : ThreadPool capacity) : Bool := pool.stopRequested && pool.size = 0

/-- A worker takes the first job out of the ring. -/
def dequeue (pool : ThreadPool capacity) : Option (ℤ × ThreadPool capacity) := do
  let job ← (← pool.jobs).read pool.head
  some (job.clientFd,
    { pool with head := (pool.head + 1) % capacity, size := pool.size - 1 })

/-- The condition under which `thread_pool_submit` accepts. -/
def accepts (pool : ThreadPool capacity) : Bool := !pool.stopRequested && pool.size < capacity

/-- `thread_pool_submit` puts a job into the ring. -/
def enqueue (pool : ThreadPool capacity) (clientFd : ℤ) : Option (ThreadPool capacity) := do
  let jobs ← (← pool.jobs).write pool.tail ⟨clientFd⟩
  some { pool with jobs := some jobs, tail := (pool.tail + 1) % capacity, size := pool.size + 1 }

end ThreadPool

/-! ### The threads -/

/-- Where a worker is in `thread_pool_worker_main`. -/
inductive WorkerPc
  /-- not created -/
  | absent
  /-- at `pthread_mutex_lock` -/
  | locking
  /-- at the condition of the wait loop -/
  | testing
  /-- the condition was true: about to call `pthread_cond_wait` -/
  | waiting
  /-- asleep in `pthread_cond_wait`, without the mutex -/
  | asleep
  /-- in `pthread_cond_wait`, about to take the mutex again -/
  | waking
  /-- behind the wait loop -/
  | checking
  /-- in the handler, with the job and its file descriptor -/
  | handling (job : ℕ) (clientFd : ℤ)
  /-- at `close` -/
  | closing (job : ℕ) (clientFd : ℤ)
  | exited
  deriving DecidableEq

/-- Where a caller is. -/
inductive CallerPc
  | idle
  /-- in `thread_pool_submit`, at `pthread_mutex_lock` -/
  | submitting (clientFd : ℤ)
  /-- in `thread_pool_submit`, with the mutex -/
  | deciding (clientFd : ℤ)
  /-- `thread_pool_submit` returned 0: the 503 is sent, then the connection closed -/
  | refused (number : ℕ) (clientFd : ℤ)
  /-- in `thread_pool_shutdown`, at `pthread_mutex_lock` -/
  | stopping
  /-- in `thread_pool_shutdown`, with the mutex -/
  | stoppingLocked
  deriving DecidableEq

/-- Where the owner is. -/
inductive OwnerPc
  | starting
  /-- in the loop of `thread_pool_init` -/
  | creating (index : ℕ)
  /-- `pthread_create` failed, and the stop is requested -/
  | failing (index : ℕ)
  /-- in the loop that joins the workers `index` had counted -/
  | failJoining (index : ℕ)
  /-- `thread_pool_init` returned 0 -/
  | failed
  /-- `thread_pool_init` returned 1 -/
  | running
  /-- in `thread_pool_destroy`: in `thread_pool_shutdown`, at `pthread_mutex_lock` -/
  | stopping
  /-- in `thread_pool_destroy`: in `thread_pool_shutdown`, with the mutex -/
  | stoppingLocked
  /-- in the loop of `thread_pool_destroy` -/
  | joining (index : ℕ)
  /-- `thread_pool_destroy` returned -/
  | destroyed
  deriving DecidableEq

/-- The threads. -/
inductive ThreadId (n k : ℕ)
  | owner
  | caller (j : Fin k)
  | worker (i : Fin n)
  deriving DecidableEq

/-! ### The history -/

/-- What a worker does with a job: `job` is its number, in the order in which jobs were accepted. -/
structure Service (n : ℕ) where
  worker : Fin n
  job : ℕ
  clientFd : ℤ
  deriving DecidableEq

/-- A call of `thread_pool_submit` that returned: what it found in `size`, when, and its result.
`number` is its number among the accepted calls, or among the refused ones. -/
structure Submit where
  clientFd : ℤ
  decided : ℕ
  size : ℕ
  accepted : Bool
  number : ℕ
  deriving DecidableEq

/-- What happened so far.  Time is the number of steps. -/
structure PoolHistory (n : ℕ) where
  clock : ℕ
  submits : List Submit
  accepted : List ℤ
  refused : List ℤ
  stops : List ℕ
  dequeued : List (Service n)
  handled : List (Service n)
  closed : List (Service n)
  closedRefused : List (ℕ × ℤ)
  deriving DecidableEq

/-- The pool, `n` workers, `k` callers and the owner. -/
structure SharedPool (n k capacity : ℕ) extends PoolHistory n where
  pool : ThreadPool capacity
  mutex : Option (ThreadId n k)
  owner : OwnerPc
  callers : Fin k → CallerPc
  workers : Fin n → WorkerPc

/-! ### The condition variable -/

/-- The sleepers in `woken` wake up. -/
def condWake {n : ℕ} (workers : Fin n → WorkerPc) (woken : Finset (Fin n)) : Fin n → WorkerPc :=
  fun i => if workers i = .asleep ∧ i ∈ woken then .waking else workers i

/-- `pthread_cond_signal` wakes at least one sleeper if there is one.  Which ones is not its
caller's choice. -/
def condSignal {n : ℕ} (workers : Fin n → WorkerPc) (woken : Finset (Fin n)) :
    Option (Fin n → WorkerPc) :=
  if (∃ i, workers i = .asleep) → ∃ i ∈ woken, workers i = .asleep then
    some (condWake workers woken)
  else none

/-- `pthread_cond_broadcast` wakes all sleepers. -/
def condBroadcast {n : ℕ} (workers : Fin n → WorkerPc) : Fin n → WorkerPc :=
  condWake workers Finset.univ

/-! ### The steps -/

/-- A step of the system. -/
inductive PoolAction (n k : ℕ)
  /-- the owner goes on; `ok` is what the system calls on its way return -/
  | owner (ok : Bool)
  /-- the owner calls `thread_pool_destroy` -/
  | destroy
  /-- a caller has accepted a connection, and calls `thread_pool_submit` -/
  | accept (j : Fin k) (clientFd : ℤ)
  /-- a caller calls `thread_pool_shutdown` -/
  | shutdown (j : Fin k)
  /-- a caller goes on; `woken` are the workers that its signal wakes -/
  | caller (j : Fin k) (woken : Finset (Fin n))
  /-- a worker goes on -/
  | worker (i : Fin n)
  /-- a sleeper wakes up without a signal -/
  | wake (i : Fin n)

/-- The step calls a function of the pool. -/
def PoolAction.isCall {n k : ℕ} : PoolAction n k → Bool
  | .destroy | .accept _ _ | .shutdown _ => true
  | _ => false

namespace SharedPool

variable {n k capacity : ℕ}

/-- Before `thread_pool_init`. -/
def start (n k capacity : ℕ) : SharedPool n k capacity where
  clock := 0
  submits := []
  accepted := []
  refused := []
  stops := []
  dequeued := []
  handled := []
  closed := []
  closedRefused := []
  pool := .zero capacity
  mutex := none
  owner := .starting
  callers := fun _ => .idle
  workers := fun _ => .absent

/-- Worker `i` moves. -/
def setWorker (s : SharedPool n k capacity) (i : Fin n) (pc : WorkerPc) : SharedPool n k capacity :=
  { s with clock := s.clock + 1, workers := Function.update s.workers i pc }

/-- Caller `j` moves. -/
def setCaller (s : SharedPool n k capacity) (j : Fin k) (pc : CallerPc) : SharedPool n k capacity :=
  { s with clock := s.clock + 1, callers := Function.update s.callers j pc }

/-- The owner moves. -/
def setOwner (s : SharedPool n k capacity) (pc : OwnerPc) : SharedPool n k capacity :=
  { s with clock := s.clock + 1, owner := pc }

/-- `pthread_mutex_lock` returns to `t`, and `s'` is what follows. -/
def acquire (t : ThreadId n k) (s' : SharedPool n k capacity) : Option (SharedPool n k capacity) :=
  if s'.mutex = none then some { s' with mutex := some t } else none

/-- The worker goes on. -/
def workerStep (s : SharedPool n k capacity) (i : Fin n) : Option (SharedPool n k capacity) :=
  match s.workers i with
  | .absent => none
  | .locking => acquire (.worker i) (s.setWorker i .testing)
  | .testing => some (s.setWorker i (if s.pool.mustWait then .waiting else .checking))
  | .waiting => some { s.setWorker i .asleep with mutex := none }
  | .asleep => none
  | .waking => acquire (.worker i) (s.setWorker i .testing)
  | .checking =>
    if s.pool.mustBreak then some { s.setWorker i .exited with mutex := none }
    else do
      let (clientFd, pool) ← s.pool.dequeue
      some { s.setWorker i (.handling s.dequeued.length clientFd) with
        pool := pool
        mutex := none
        dequeued := s.dequeued ++ [⟨i, s.dequeued.length, clientFd⟩] }
  | .handling job clientFd =>
    some { s.setWorker i (.closing job clientFd) with
      handled := if s.pool.handler then s.handled ++ [⟨i, job, clientFd⟩] else s.handled }
  | .closing job clientFd =>
    some { s.setWorker i .locking with closed := s.closed ++ [⟨i, job, clientFd⟩] }
  | .exited => none

/-- What a call of `thread_pool_submit` found and what it returned. -/
def submitted (s : SharedPool n k capacity) (clientFd : ℤ) (accepted : Bool) : Submit :=
  ⟨clientFd, s.clock, s.pool.size, accepted,
    if accepted then s.accepted.length else s.refused.length⟩

/-- The caller goes on. -/
def callerStep (s : SharedPool n k capacity) (j : Fin k) (woken : Finset (Fin n)) :
    Option (SharedPool n k capacity) :=
  match s.callers j with
  | .idle => none
  | .submitting clientFd => acquire (.caller j) (s.setCaller j (.deciding clientFd))
  | .deciding clientFd =>
    if s.pool.accepts then do
      let pool ← s.pool.enqueue clientFd
      let workers ← condSignal s.workers woken
      some { s.setCaller j .idle with
        pool := pool
        workers := workers
        mutex := none
        submits := s.submits ++ [s.submitted clientFd true]
        accepted := s.accepted ++ [clientFd] }
    else
      some { s.setCaller j (.refused s.refused.length clientFd) with
        mutex := none
        submits := s.submits ++ [s.submitted clientFd false]
        refused := s.refused ++ [clientFd] }
  | .refused number clientFd =>
    some { s.setCaller j .idle with closedRefused := s.closedRefused ++ [(number, clientFd)] }
  | .stopping => acquire (.caller j) (s.setCaller j .stoppingLocked)
  | .stoppingLocked =>
    some { s.setCaller j .idle with
      pool := { s.pool with stopRequested := true }
      workers := condBroadcast s.workers
      mutex := none
      stops := s.stops ++ [s.clock] }

/-- The owner goes on. -/
def ownerStep (s : SharedPool n k capacity) (ok : Bool) : Option (SharedPool n k capacity) :=
  match s.owner with
  | .starting =>
    if n = 0 ∨ capacity = 0 ∨ ok = false then some (s.setOwner .failed)
    else some { s.setOwner (.creating 0) with pool := .init capacity }
  | .creating index =>
    if h : index < n then
      if ok then
        some { s.setOwner (.creating (index + 1)) with
          workers := Function.update s.workers ⟨index, h⟩ .locking }
      else some { s.setOwner (.failing index) with pool := { s.pool with stopRequested := true } }
    else some (s.setOwner .running)
  | .failing index =>
    some { s.setOwner (.failJoining index) with workers := condBroadcast s.workers }
  | .failJoining 0 =>
    some { s.setOwner .failed with pool := { s.pool with workers := false, jobs := none } }
  | .failJoining (index + 1) =>
    if h : index < n then
      if s.workers ⟨index, h⟩ = .exited then some (s.setOwner (.failJoining index)) else none
    else none
  | .failed => none
  | .running => none
  | .stopping => acquire .owner (s.setOwner .stoppingLocked)
  | .stoppingLocked =>
    some { s.setOwner (.joining 0) with
      pool := { s.pool with stopRequested := true }
      workers := condBroadcast s.workers
      mutex := none
      stops := s.stops ++ [s.clock] }
  | .joining index =>
    if h : index < n then
      if s.workers ⟨index, h⟩ = .exited then some (s.setOwner (.joining (index + 1))) else none
    else some { s.setOwner .destroyed with pool := .zero capacity }
  | .destroyed => none

/-- One step.  Callers use the pool only while it runs, and it is destroyed only when they do
not. -/
def step (s : SharedPool n k capacity) : PoolAction n k → Option (SharedPool n k capacity)
  | .owner ok => s.ownerStep ok
  | .destroy =>
    if s.owner = .running ∧ ∀ j, s.callers j = .idle then
      some (s.setOwner (if s.pool.workers then .stopping else .running))
    else none
  | .accept j clientFd =>
    if s.owner = .running ∧ s.callers j = .idle then some (s.setCaller j (.submitting clientFd))
    else none
  | .shutdown j =>
    if s.owner = .running ∧ s.callers j = .idle then
      some (s.setCaller j (if s.pool.workers then .stopping else .idle))
    else none
  | .caller j woken => s.callerStep j woken
  | .worker i => s.workerStep i
  | .wake i => if s.workers i = .asleep then some (s.setWorker i .waking) else none

/-- A run. -/
def run (s : SharedPool n k capacity) :
    List (PoolAction n k) → Option (SharedPool n k capacity)
  | [] => some s
  | a :: actions => do (← s.step a).run actions

end SharedPool

end MiniDbms
