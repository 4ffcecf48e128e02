import MiniDbms.Server.ThreadPool
import MiniDbms.Table.Interleaving

/-!
# The lifetime of the server (`server_create`, `server_run`, `server_destroy`)

The thread pool and the table it works on.  In its handler, worker `i` is thread `i` of the table:
it executes a statement section by section, and writes the rows of a lookup to its response one by
one, after all locks are released; the handler returns when the response is finished.
`server_destroy` destroys the table when the pool is destroyed, and `server_create` when the pool
could not be created.
-/

namespace MiniDbms

/-- The pool, the table, the rows that each worker has written to its response so far, and whether
`table_destroy` has run. -/
structure ServerLifetime (n k capacity : ℕ) where
  pool : SharedPool n k capacity
  table : SharedTable n
  written : Fin n → List Record
  destroyed : Bool

/-- A step. -/
inductive LifetimeAction (n k : ℕ)
  /-- a thread of the pool goes on -/
  | pool (action : PoolAction n k)
  /-- the handler of worker `i` executes a statement -/
  | execute (i : Fin n) (op : Op)
  /-- it goes on with it, or has finished the response to it -/
  | advance (i : Fin n)
  /-- it writes the next row to the response -/
  | write (i : Fin n)
  | destroyTable

namespace ServerLifetime

variable {n k capacity : ℕ}

/-- The state in which `server_create` calls `thread_pool_init`. -/
def start (n k capacity : ℕ) : ServerLifetime n k capacity where
  pool := .start n k capacity
  table := .start n
  written := fun _ => []
  destroyed := false

/-- Worker `i` is in its handler. -/
def inHandler (s : ServerLifetime n k capacity) (i : Fin n) : Bool :=
  match s.pool.workers i with
  | .handling _ _ => true
  | _ => false

/-- In this step a handler would return that is still at work. -/
def returnsEarly (s : ServerLifetime n k capacity) : PoolAction n k → Bool
  | .worker i =>
    s.inHandler i && match s.table.threads i with
      | .idle => false
      | _ => true
  | _ => false

/-- The next section of worker `i`, or the end of its response when all rows are written. -/
def advance (s : ServerLifetime n k capacity) (i : Fin n) : Option (ServerLifetime n k capacity) :=
  match s.table.threads i with
  | .selected _ _ records =>
    if (s.written i).length < records.rows.length then none
    else do
      some { s with
        table := ← s.table.advance i
        written := Function.update s.written i [] }
  | _ => do some { s with table := ← s.table.advance i }

/-- Worker `i` writes the next row. -/
def write (s : ServerLifetime n k capacity) (i : Fin n) : Option (ServerLifetime n k capacity) :=
  match s.table.threads i with
  | .selected _ _ records => do
    let r ← s.table.memory.record (← records.rows[(s.written i).length]?)
    some { s with written := Function.update s.written i (s.written i ++ [r]) }
  | _ => none

/-- `table_destroy` -/
def destroyTable (s : ServerLifetime n k capacity) : Option (ServerLifetime n k capacity) := do
  let m ← tableDestroy s.table.memory
  some { s with table := { s.table with memory := m }, destroyed := true }

/-- One step. -/
def step (s : ServerLifetime n k capacity) :
    LifetimeAction n k → Option (ServerLifetime n k capacity)
  | .pool action =>
    if s.returnsEarly action then none else do some { s with pool := ← s.pool.step action }
  | .execute i op => if s.inHandler i then do some { s with table := ← s.table.call i op } else none
  | .advance i => if s.inHandler i then s.advance i else none
  | .write i => if s.inHandler i then s.write i else none
  | .destroyTable =>
    if s.destroyed = false ∧ (s.pool.owner = .destroyed ∨ s.pool.owner = .failed) then
      s.destroyTable
    else none

/-- A run. -/
def run (s : ServerLifetime n k capacity) :
    List (LifetimeAction n k) → Option (ServerLifetime n k capacity)
  | [] => some s
  | action :: actions => do (← s.step action).run actions

end ServerLifetime

end MiniDbms
