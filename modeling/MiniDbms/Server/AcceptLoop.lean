import MiniDbms.Server.Server

/-!
# The accept loop (`server_run`) and the shutdown signal

`server_run`, the process with the pool that it gives the connections to (`ServerProcess`), and the
flag that the signal handler sets, step by step.  The loop runs on the thread of the owner of the
pool, and is its only caller.  A `SIGPIPE` of a response ends it together with the process.

The handler of a signal runs on any thread of the process.  When it runs on the thread of
`server_run` while that sleeps in `accept`, `accept` returns `EINTR` (`install_signal_handlers` does
not set `SA_RESTART`).  Everywhere else the handler only sets the flag.
-/

namespace MiniDbms

/-! ### System calls -/

/-- `EINTR`, the one value of `errno` that `server_run` looks for. -/
def EINTR : ℤ := 4

/-- The results of the two calls of `setsockopt`, and the result of the function. -/
def serverSetClientSocketTimeouts (receive send : Bool) : Bool :=
  if !receive then false
  else if !send then false
  else true

/-! ### The loop -/

/-- Where the main thread is. -/
inductive RunPc
  /-- in `server_create` -/
  | creating
  /-- `server_create` returned `NULL`, because there is no listening socket -/
  | failed
  /-- at the condition of the loop -/
  | testing
  /-- about to call `accept` -/
  | calling
  /-- asleep in `accept` -/
  | accepting
  /-- in `server_set_client_socket_timeouts` -/
  | configuring (number : ℕ) (clientFd : ℤ)
  /-- at `close`, because a timeout could not be set -/
  | closing (number : ℕ)
  /-- in `thread_pool_submit`, or at the response to the connection when it returned 0 -/
  | submitting
  /-- behind the loop, in `thread_pool_shutdown` -/
  | shuttingDown
  /-- `server_run` returned -/
  | returned
  deriving DecidableEq

/-- A connection that `accept` returned.  `late` says whether the flag was set before. -/
structure Connection where
  clientFd : ℤ
  late : Bool
  deriving DecidableEq

/-- The process with one caller of the pool, where its main thread is, and `g_shutdown_requested`.
The connections are numbered in the order in which they were accepted; `submitted` are the numbers
of those that `thread_pool_submit` was called with, in the order of the calls, and `closed` those
that could not be configured. -/
structure ServerRun (n capacity : ℕ) extends ServerProcess n 1 capacity where
  pc : RunPc
  shutdownRequested : Bool
  connections : List Connection
  submitted : List ℕ
  closed : List ℕ

/-- A step. -/
inductive RunAction (n : ℕ)
  /-- `server_signal_shutdown`; `interrupts` says whether it runs on the main thread -/
  | signal (interrupts : Bool)
  /-- `server_create` has the pool, and a listening socket or not -/
  | listen (ok : Bool)
  /-- the main thread goes on in the loop -/
  | run
  /-- `accept` returns a file descriptor, or -1 with `errno` -/
  | accept (result : Except ℤ ℤ)
  /-- the results of the two calls of `setsockopt` -/
  | configure (receive send : Bool)
  /-- a thread goes on in the pool; if it sends a response in this step, then to this client -/
  | pool (action : PoolAction n 1) (client : Client)
  /-- `server_destroy`, or `server_create` when it fails, calls `thread_pool_destroy` -/
  | destroy

namespace ServerRun

variable {n capacity : ℕ}

def start (n capacity : ℕ) : ServerRun n capacity where
  toServerProcess := .start n 1 capacity
  pc := .creating
  shutdownRequested := false
  connections := []
  submitted := []
  closed := []

/-- Behind the loop. -/
def endLoop (s : ServerRun n capacity) : Option (ServerRun n capacity) := do
  some { s with pool := ← s.pool.step (.shutdown 0), pc := .shuttingDown }

/-- `accept` has returned. -/
def accepted (s : ServerRun n capacity) : Except ℤ ℤ → Option (ServerRun n capacity)
  | .ok clientFd =>
    some { s with
      pc := .configuring s.connections.length clientFd
      connections := s.connections ++ [⟨clientFd, s.shutdownRequested⟩] }
  | .error errno =>
    if errno = EINTR then some { s with pc := .testing }
    else if s.shutdownRequested then s.endLoop
    else s.endLoop

/-- The two calls of `setsockopt` have returned. -/
def configured (s : ServerRun n capacity) (number : ℕ) (clientFd : ℤ) (receive send : Bool) :
    Option (ServerRun n capacity) :=
  if serverSetClientSocketTimeouts receive send then do
    some { s with
      pool := ← s.pool.step (.accept 0 clientFd)
      pc := .submitting
      submitted := s.submitted ++ [number] }
  else some { s with pc := .closing number }

/-- The main thread goes on. -/
def runStep (s : ServerRun n capacity) : Option (ServerRun n capacity) :=
  match s.pc with
  | .testing => if s.shutdownRequested then s.endLoop else some { s with pc := .calling }
  | .calling => some { s with pc := .accepting }
  | .closing number => some { s with pc := .testing, closed := s.closed ++ [number] }
  | .submitting => if s.pool.callers 0 = .idle then some { s with pc := .testing } else none
  | .shuttingDown => if s.pool.callers 0 = .idle then some { s with pc := .returned } else none
  | _ => none

/-- One step of a process that runs. -/
def act (s : ServerRun n capacity) : RunAction n → Option (ServerRun n capacity)
  | .signal interrupts =>
    some { s with
      shutdownRequested := true
      -- an interrupted `accept` returns `EINTR`, and the loop goes on to its test
      pc := if interrupts ∧ s.pc = .accepting then .testing else s.pc }
  | .listen ok =>
    if s.pc = .creating ∧ s.pool.owner = .running then
      some { s with pc := if ok then .testing else .failed }
    else none
  | .run => s.runStep
  | .accept result => if s.pc = .accepting then s.accepted result else none
  | .configure receive send =>
    match s.pc with
    | .configuring number clientFd => s.configured number clientFd receive send
    | _ => none
  | .pool action client =>
    if action.isCall then none
    else do some { s with toServerProcess := ← s.toServerProcess.step action client }
  | .destroy =>
    if s.pc = .failed ∨ s.pc = .returned then do
      some { s with pool := ← s.pool.step .destroy }
    else none

/-- One step. -/
def step (s : ServerRun n capacity) (a : RunAction n) : Option (ServerRun n capacity) :=
  if s.terminated ≠ none then none else s.act a

/-- A run. -/
def run (s : ServerRun n capacity) : List (RunAction n) → Option (ServerRun n capacity)
  | [] => some s
  | a :: actions => do (← s.step a).run actions

/-- A worker has the connection: it has dequeued the job that a call of `thread_pool_submit` made of
it. -/
def Executes (s : ServerRun n capacity) (number : ℕ) : Prop :=
  ∃ (i : ℕ) (call : Submit) (x : Service n), s.submitted[i]? = some number ∧
    s.pool.submits[i]? = some call ∧ call.accepted = true ∧ x ∈ s.pool.dequeued ∧
    x.job = call.number

end ServerRun

end MiniDbms
