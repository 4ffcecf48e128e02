import MiniDbms.Server.AcceptLoop
import MiniDbms.Server.Equiv.Progress
import MiniDbms.Server.Equiv.Server

/-!
# The accept loop

* `server_run_no_late_request_iff`: after the flag is set no new connection reaches the pool, if and
  only if the main thread is not between its test of the flag and the return of `accept`.
* `server_run_keeps_accepting_iff`: until the flag is set the loop goes on, if and only if `accept`
  has returned no error but `EINTR`, and no `send` was called on a connection that its client had
  closed.

The loop and the pool are a process as in `MiniDbms.Server.Server`, with one caller
(`ServerRun.exists_process_run`).
-/

namespace MiniDbms

/-! ### The pool while the loop runs -/

namespace SharedPool

variable {n k capacity : ℕ} {s s' : SharedPool n k capacity}

theorem workerStep_callers {i : Fin n} (h : s.workerStep i = some s') :
    s'.owner = s.owner ∧ s'.callers = s.callers := by
  unfold workerStep at h
  split at h
  · cases h
  · obtain ⟨-, rfl⟩ := acquire_eq_some h
    exact ⟨rfl, rfl⟩
  · cases h
    exact ⟨rfl, rfl⟩
  · cases h
    exact ⟨rfl, rfl⟩
  · cases h
  · obtain ⟨-, rfl⟩ := acquire_eq_some h
    exact ⟨rfl, rfl⟩
  · split at h
    · cases h
      exact ⟨rfl, rfl⟩
    · obtain ⟨⟨clientFd, pool⟩, -, h⟩ := Option.bind_eq_some_iff.mp h
      cases h
      exact ⟨rfl, rfl⟩
  · cases h
    exact ⟨rfl, rfl⟩
  · cases h
    exact ⟨rfl, rfl⟩
  · cases h

theorem callerStep_owner {j : Fin k} {woken : Finset (Fin n)} (h : s.callerStep j woken = some s') :
    s'.owner = s.owner := by
  unfold callerStep at h
  split at h
  · cases h
  · obtain ⟨-, rfl⟩ := acquire_eq_some h
    rfl
  · split at h
    · obtain ⟨pool, -, h⟩ := Option.bind_eq_some_iff.mp h
      obtain ⟨workers, -, h⟩ := Option.bind_eq_some_iff.mp h
      cases h
      rfl
    · cases h
      rfl
  · cases h
    rfl
  · obtain ⟨-, rfl⟩ := acquire_eq_some h
    rfl
  · cases h
    rfl

/-- An idle caller does nothing by itself. -/
theorem callerStep_idle {j : Fin k} (hidle : s.callers j = .idle) (woken : Finset (Fin n)) :
    s.callerStep j woken = none := by
  rw [callerStep, hidle]

/-- While the pool runs, its owner does nothing by itself. -/
theorem ownerStep_running (hrunning : s.owner = .running) (ok : Bool) : s.ownerStep ok = none := by
  rw [ownerStep, hrunning]

theorem ownerStep_callers {ok : Bool} (h : s.ownerStep ok = some s') : s'.callers = s.callers := by
  unfold ownerStep at h
  split at h
  · split at h <;> cases h <;> rfl
  · split at h
    · split at h <;> cases h <;> rfl
    · cases h
      rfl
  · cases h
    rfl
  · cases h
    rfl
  · split at h
    · split at h <;> cases h
      rfl
    · cases h
  · cases h
  · cases h
  · obtain ⟨-, rfl⟩ := acquire_eq_some h
    rfl
  · cases h
    rfl
  · split at h
    · split at h <;> cases h
      rfl
    · cases h
      rfl
  · cases h

/-- A pool that runs goes on to run when nobody destroys it. -/
theorem step_running (hrunning : s.owner = .running) {a : PoolAction n k} (ha : a.isCall = false)
    (h : s.step a = some s') : s'.owner = .running := by
  cases a with
  | owner ok =>
    rw [step, ownerStep_running hrunning] at h
    cases h
  | caller j woken => exact (callerStep_owner h).trans hrunning
  | worker i => exact (workerStep_callers h).1.trans hrunning
  | wake i =>
    rw [step] at h
    split at h
    · cases h
      exact hrunning
    · cases h
  | destroy => cases ha
  | accept => cases ha
  | shutdown => cases ha

/-- Idle callers stay idle when nobody calls a function of the pool. -/
theorem step_idle (hidle : ∀ j, s.callers j = .idle) {a : PoolAction n k} (ha : a.isCall = false)
    (h : s.step a = some s') : ∀ j, s'.callers j = .idle := by
  cases a with
  | owner ok => rwa [ownerStep_callers h]
  | caller j woken =>
    rw [step, callerStep_idle (hidle j)] at h
    cases h
  | worker i => rwa [(workerStep_callers h).2]
  | wake i =>
    rw [step] at h
    split at h
    · cases h
      exact hidle
    · cases h
  | destroy => cases ha
  | accept => cases ha
  | shutdown => cases ha

theorem accept_eq_some {j : Fin k} {clientFd : ℤ} (h : s.step (.accept j clientFd) = some s') :
    s'.owner = s.owner := by
  rw [step] at h
  split at h
  · cases h
    rfl
  · cases h

theorem shutdown_eq_some {j : Fin k} (h : s.step (.shutdown j) = some s') : s'.owner = s.owner := by
  rw [step] at h
  split at h
  · cases h
    rfl
  · cases h

theorem destroy_eq_some (h : s.step .destroy = some s') : s'.callers = s.callers := by
  rw [step] at h
  split at h
  · cases h
    rfl
  · cases h

end SharedPool

/-! ### The steps of the loop -/

/-- The main thread is in `server_run`. -/
def RunPc.isRunning : RunPc → Bool
  | .creating | .failed | .returned => false
  | _ => true

/-- The main thread is in the pool. -/
def RunPc.inPool : RunPc → Bool
  | .submitting | .shuttingDown => true
  | _ => false

/-- The loop has ended. -/
def RunPc.isOver : RunPc → Bool
  | .shuttingDown | .returned => true
  | _ => false

/-- `server_run` has not been called. -/
def RunPc.isBefore : RunPc → Bool
  | .creating | .failed => true
  | _ => false

/-- A signal changes nothing that is the same at the test and in `accept`. -/
theorem RunPc.apply_signal {β : Type} (f : RunPc → β) (hf : f .testing = f .accepting)
    (interrupts : Bool) (pc : RunPc) :
    f (if interrupts ∧ pc = .accepting then .testing else pc) = f pc := by
  split
  · rename_i hinterrupts
    rw [hinterrupts.2, hf]
  · rfl

/-- `accept` returns an error on which the loop breaks. -/
def RunAction.IsFatal {n : ℕ} (a : RunAction n) : Prop :=
  ∃ errno, a = .accept (.error errno) ∧ errno ≠ EINTR

/-- What becomes of the calls of `send` to the client of the step. -/
def RunAction.outcomes {n : ℕ} : RunAction n → List SendOutcome
  | .pool _ client => client.outcomes
  | _ => []

namespace ServerRun

variable {n capacity : ℕ} {s s' : ServerRun n capacity}

/-- The steps. -/
inductive Step (s : ServerRun n capacity) : RunAction n → ServerRun n capacity → Prop
  | signal (interrupts : Bool) :
    Step s (.signal interrupts) { s with
      shutdownRequested := true
      pc := if interrupts ∧ s.pc = .accepting then .testing else s.pc }
  | listen {ok : Bool} (pc : s.pc = .creating) (running : s.pool.owner = .running) :
    Step s (.listen ok) { s with pc := if ok then .testing else .failed }
  | test (pc : s.pc = .testing) (flag : s.shutdownRequested = false) :
    Step s .run { s with pc := .calling }
  | stop {pool : SharedPool n 1 capacity} (pc : s.pc = .testing)
    (flag : s.shutdownRequested = true) (call : s.pool.step (.shutdown 0) = some pool) :
    Step s .run { s with pool := pool, pc := .shuttingDown }
  | call (pc : s.pc = .calling) : Step s .run { s with pc := .accepting }
  | accept {clientFd : ℤ} (pc : s.pc = .accepting) :
    Step s (.accept (.ok clientFd)) { s with
      pc := .configuring s.connections.length clientFd
      connections := s.connections ++ [⟨clientFd, s.shutdownRequested⟩] }
  | interrupted (pc : s.pc = .accepting) :
    Step s (.accept (.error EINTR)) { s with pc := .testing }
  | fail {errno : ℤ} {pool : SharedPool n 1 capacity} (pc : s.pc = .accepting)
    (ne : errno ≠ EINTR) (call : s.pool.step (.shutdown 0) = some pool) :
    Step s (.accept (.error errno)) { s with pool := pool, pc := .shuttingDown }
  | submit {receive send : Bool} {number : ℕ} {clientFd : ℤ} {pool : SharedPool n 1 capacity}
    (pc : s.pc = .configuring number clientFd)
    (call : s.pool.step (.accept 0 clientFd) = some pool) :
    Step s (.configure receive send)
      { s with pool := pool, pc := .submitting, submitted := s.submitted ++ [number] }
  | refuse {receive send : Bool} {number : ℕ} {clientFd : ℤ}
    (pc : s.pc = .configuring number clientFd) :
    Step s (.configure receive send) { s with pc := .closing number }
  | close {number : ℕ} (pc : s.pc = .closing number) :
    Step s .run { s with pc := .testing, closed := s.closed ++ [number] }
  | submitted (pc : s.pc = .submitting) (idle : s.pool.callers 0 = .idle) :
    Step s .run { s with pc := .testing }
  | stopped (pc : s.pc = .shuttingDown) (idle : s.pool.callers 0 = .idle) :
    Step s .run { s with pc := .returned }
  | pool {action : PoolAction n 1} {client : Client} {pool : SharedPool n 1 capacity}
    (inner : action.isCall = false) (step : s.pool.step action = some pool) :
    Step s (.pool action client) { s with pool := pool }
  | ends {action : PoolAction n 1} {client : Client} (signal : Signal) :
    Step s (.pool action client) { s with terminated := some signal }
  | destroy {pool : SharedPool n 1 capacity} (pc : s.pc = .failed ∨ s.pc = .returned)
    (step : s.pool.step .destroy = some pool) : Step s .destroy { s with pool := pool }

theorem runStep_cases (h : s.runStep = some s') : s.Step .run s' := by
  unfold runStep at h
  split at h
  · rename_i hpc
    split at h
    · rename_i hflag
      obtain ⟨pool, hcall, h⟩ := Option.bind_eq_some_iff.mp h
      cases h
      exact .stop hpc hflag hcall
    · rename_i hflag
      cases h
      exact .test hpc (Bool.eq_false_iff.mpr hflag)
  · rename_i hpc
    cases h
    exact .call hpc
  · rename_i hpc
    cases h
    exact .close hpc
  · rename_i hpc
    split at h
    · rename_i hidle
      cases h
      exact .submitted hpc hidle
    · cases h
  · rename_i hpc
    split at h
    · rename_i hidle
      cases h
      exact .stopped hpc hidle
    · cases h
  · cases h

theorem accepted_cases (hpc : s.pc = .accepting) {result : Except ℤ ℤ}
    (h : s.accepted result = some s') : s.Step (.accept result) s' := by
  cases result with
  | ok clientFd =>
    cases h
    exact .accept hpc
  | error errno =>
    rw [accepted] at h
    split at h
    · rename_i heintr
      subst heintr
      cases h
      exact .interrupted hpc
    · rename_i hne
      -- both branches break
      rw [ite_self] at h
      obtain ⟨pool, hcall, h⟩ := Option.bind_eq_some_iff.mp h
      cases h
      exact .fail hpc hne hcall

theorem act_cases {a : RunAction n} (h : s.act a = some s') : s.Step a s' := by
  cases a with
  | signal interrupts =>
    cases h
    exact .signal interrupts
  | listen ok =>
    rw [act] at h
    split at h
    · rename_i hlisten
      cases h
      exact .listen hlisten.1 hlisten.2
    · cases h
  | run => exact runStep_cases h
  | accept result =>
    rw [act] at h
    split at h
    · rename_i hpc
      exact accepted_cases hpc h
    · cases h
  | configure receive send =>
    rw [act] at h
    split at h
    · -- a client without its time limits is closed and never becomes a job
      rename_i number clientFd hpc
      rw [configured] at h
      split at h
      · obtain ⟨pool, hcall, h⟩ := Option.bind_eq_some_iff.mp h
        cases h
        exact .submit hpc hcall
      · cases h
        exact .refuse hpc
    · cases h
  | pool action client =>
    rw [act] at h
    split at h
    · cases h
    · rename_i hinner
      obtain ⟨process, hstep, h⟩ := Option.bind_eq_some_iff.mp h
      cases h
      rcases ServerProcess.step_eq_some hstep with ⟨signal, rfl⟩ | ⟨pool, hpool, rfl⟩
      · exact .ends signal
      · exact .pool (Bool.eq_false_iff.mpr hinner) hpool
  | destroy =>
    rw [act] at h
    split at h
    · rename_i hpc
      obtain ⟨pool, hstep, h⟩ := Option.bind_eq_some_iff.mp h
      cases h
      exact .destroy hpc hstep
    · cases h

/-- A process that has ended makes no step. -/
theorem step_eq_act (h : s.terminated = none) (a : RunAction n) : s.step a = s.act a :=
  if_neg (not_not.mpr h)

theorem running_of_step {a : RunAction n} (h : s.step a = some s') : s.terminated = none := by
  by_contra hended
  rw [step, if_pos hended] at h
  cases h

theorem step_cases {a : RunAction n} (h : s.step a = some s') : s.Step a s' :=
  act_cases ((step_eq_act (running_of_step h) a).symm.trans h)

/-- What every step keeps holds after every run. -/
theorem run_keeps {P : ServerRun n capacity → Prop}
    (hstep : ∀ (s s' : ServerRun n capacity) (a : RunAction n), P s → s.Step a s' → P s')
    {actions : List (RunAction n)} (hs : P s) (h : s.run actions = some s') : P s' := by
  induction actions generalizing s with
  | nil =>
    cases h
    exact hs
  | cons a actions ih =>
    obtain ⟨s₁, hfirst, hrest⟩ := Option.bind_eq_some_iff.mp h
    exact ih (hstep _ _ _ hs (step_cases hfirst)) hrest

theorem run_append (actions actions' : List (RunAction n)) :
    s.run (actions ++ actions') = (s.run actions).bind fun s' => s'.run actions' := by
  induction actions generalizing s with
  | nil => rfl
  | cons a actions ih =>
    rw [List.cons_append, run, run]
    cases s.step a with
    | none => rfl
    | some s₁ => exact ih

/-! ### What every step keeps -/

/-- What every step keeps. -/
structure RunOk (s : ServerRun n capacity) : Prop where
  pool : s.pool.PoolOk
  held : s.pool.HeldOk
  pipe : s.dispositions .pipe = .default
  running : s.pc.isRunning = true → s.pool.owner = .running
  idle : s.pc.inPool = false → ∀ j, s.pool.callers j = .idle
  early : s.shutdownRequested = false → ∀ c ∈ s.connections, c.late = false

theorem runOk_start (n capacity : ℕ) : (start n capacity).RunOk :=
  ⟨SharedPool.poolOk_start n 1 capacity, .of_free rfl, rfl, nofun, fun _ _ => rfl, nofun⟩

/-- The pool takes a step, or stays as it is. -/
theorem Step.pool_step {a : RunAction n} (h : s.Step a s') :
    s'.pool = s.pool ∨ s.pool.Step s'.pool := by
  cases h with
  | stop _ _ hcall => exact .inr (SharedPool.step_cases hcall)
  | fail _ _ hcall => exact .inr (SharedPool.step_cases hcall)
  | submit _ hcall => exact .inr (SharedPool.step_cases hcall)
  | pool _ hstep => exact .inr (SharedPool.step_cases hstep)
  | destroy _ hstep => exact .inr (SharedPool.step_cases hstep)
  | _ => exact .inl rfl

theorem Step.dispositions {a : RunAction n} (h : s.Step a s') :
    s'.dispositions = s.dispositions := by
  cases h <;> rfl

/-- The owner of the pool is where it has to be. -/
theorem RunOk.step_running (hs : s.RunOk) {a : RunAction n} (h : s.Step a s') :
    s'.pc.isRunning = true → s'.pool.owner = .running := by
  cases h with
  | signal interrupts =>
    rw [RunPc.apply_signal RunPc.isRunning rfl]
    exact hs.running
  | listen hpc hrunning => exact fun _ => hrunning
  | stop hpc _ hcall =>
    exact fun _ => (SharedPool.shutdown_eq_some hcall).trans (hs.running (by rw [hpc]; rfl))
  | fail hpc _ hcall =>
    exact fun _ => (SharedPool.shutdown_eq_some hcall).trans (hs.running (by rw [hpc]; rfl))
  | submit hpc hcall =>
    exact fun _ => (SharedPool.accept_eq_some hcall).trans (hs.running (by rw [hpc]; rfl))
  | pool hinner hstep => exact fun hpc => SharedPool.step_running (hs.running hpc) hinner hstep
  | ends => exact hs.running
  | destroy hpc hstep =>
    intro hpc'
    dsimp only at hpc'
    rcases hpc with hpc | hpc <;> rw [hpc] at hpc' <;> cases hpc'
  | test hpc => exact fun _ => hs.running (by rw [hpc]; rfl)
  | call hpc => exact fun _ => hs.running (by rw [hpc]; rfl)
  | accept hpc => exact fun _ => hs.running (by rw [hpc]; rfl)
  | interrupted hpc => exact fun _ => hs.running (by rw [hpc]; rfl)
  | refuse hpc => exact fun _ => hs.running (by rw [hpc]; rfl)
  | close hpc => exact fun _ => hs.running (by rw [hpc]; rfl)
  | submitted hpc => exact fun _ => hs.running (by rw [hpc]; rfl)
  | stopped hpc => exact nofun

/-- Outside of the pool its caller is idle. -/
theorem RunOk.step_idle (hs : s.RunOk) {a : RunAction n} (h : s.Step a s') :
    s'.pc.inPool = false → ∀ j, s'.pool.callers j = .idle := by
  have hone : s.pool.callers 0 = .idle → ∀ j, s.pool.callers j = .idle := by
    intro hidle j
    rwa [Fin.fin_one_eq_zero j]
  cases h with
  | signal interrupts =>
    rw [RunPc.apply_signal RunPc.inPool rfl]
    exact hs.idle
  | listen hpc => exact fun _ => hs.idle (by rw [hpc]; rfl)
  | stop => exact nofun
  | fail => exact nofun
  | submit => exact nofun
  | pool hinner hstep => exact fun hpc => SharedPool.step_idle (hs.idle hpc) hinner hstep
  | ends => exact hs.idle
  | destroy hpc hstep =>
    intro hpc'
    rw [SharedPool.destroy_eq_some hstep]
    exact hs.idle hpc'
  | submitted hpc hidle => exact fun _ => hone hidle
  | stopped hpc hidle => exact fun _ => hone hidle
  | test hpc => exact fun _ => hs.idle (by rw [hpc]; rfl)
  | call hpc => exact fun _ => hs.idle (by rw [hpc]; rfl)
  | accept hpc => exact fun _ => hs.idle (by rw [hpc]; rfl)
  | interrupted hpc => exact fun _ => hs.idle (by rw [hpc]; rfl)
  | refuse hpc => exact fun _ => hs.idle (by rw [hpc]; rfl)
  | close hpc => exact fun _ => hs.idle (by rw [hpc]; rfl)

theorem RunOk.step_early (hs : s.RunOk) {a : RunAction n} (h : s.Step a s') :
    s'.shutdownRequested = false → ∀ c ∈ s'.connections, c.late = false := by
  cases h with
  | signal => exact nofun
  | accept hpc =>
    -- a connection that is accepted now is late only if the flag is set now
    intro hflag c hc
    rcases List.mem_append.mp hc with hc | hc
    · exact hs.early hflag c hc
    · rw [List.mem_singleton.mp hc]
      exact hflag
  | _ => exact hs.early

theorem RunOk.step (hs : s.RunOk) {a : RunAction n} (h : s.Step a s') : s'.RunOk where
  pool := by
    rcases h.pool_step with heq | hstep
    · rw [heq]
      exact hs.pool
    · exact hs.pool.step hstep
  held := by
    rcases h.pool_step with heq | hstep
    · rw [heq]
      exact hs.held
    · exact hs.held.step hs.pool.wake.phase hstep
  pipe := by
    rw [h.dispositions]
    exact hs.pipe
  running := hs.step_running h
  idle := hs.step_idle h
  early := hs.step_early h

theorem RunOk.run (hs : s.RunOk) {actions : List (RunAction n)} (h : s.run actions = some s') :
    s'.RunOk :=
  run_keeps (fun _ _ _ hs h => hs.step h) hs h

/-! ### Every connection has its place -/

end ServerRun

/-- The connection that the loop is at work with. -/
def RunPc.inHand : RunPc → List ℕ
  | .configuring number _ | .closing number => [number]
  | _ => []

namespace ServerRun

variable {n capacity : ℕ} {s s' : ServerRun n capacity}

/-- Every connection is submitted once, closed once, or in hand. -/
def Placed (s : ServerRun n capacity) : Prop :=
  (s.submitted ++ (s.closed ++ s.pc.inHand)).Perm (List.range s.connections.length)

/-- The loop stays with the connection, or goes on without one. -/
theorem Placed.of_inHand (hs : s.Placed) (hsubmitted : s'.submitted = s.submitted)
    (hclosed : s'.closed = s.closed) (hhand : s'.pc.inHand = s.pc.inHand)
    (hconnections : s'.connections = s.connections) : s'.Placed := by
  unfold Placed
  rwa [hsubmitted, hclosed, hhand, hconnections]

theorem Placed.step (hs : s.Placed) {a : RunAction n} (h : s.Step a s') : s'.Placed := by
  cases h with
  | signal interrupts =>
    exact hs.of_inHand rfl rfl (RunPc.apply_signal RunPc.inHand rfl interrupts s.pc) rfl
  | @listen ok hpc => cases ok <;> exact hs.of_inHand rfl rfl (by rw [hpc]; rfl) rfl
  | accept hpc =>
    -- the new connection is in hand
    unfold Placed at hs ⊢
    rw [hpc] at hs
    dsimp only [RunPc.inHand] at hs ⊢
    rw [List.append_nil] at hs
    rw [List.length_append, List.length_singleton, List.range_succ, ← List.append_assoc]
    exact hs.append_right _
  | submit hpc =>
    -- it goes to the pool, which closes it
    unfold Placed at hs ⊢
    rw [hpc] at hs
    dsimp only [RunPc.inHand] at hs ⊢
    rw [List.append_nil, List.append_assoc]
    exact (List.perm_append_comm.append_left _).trans hs
  | close hpc =>
    -- or the loop closes it
    unfold Placed at hs ⊢
    rw [hpc] at hs
    dsimp only [RunPc.inHand] at hs ⊢
    rwa [List.append_nil]
  | test hpc => exact hs.of_inHand rfl rfl (by rw [hpc]; rfl) rfl
  | stop hpc => exact hs.of_inHand rfl rfl (by rw [hpc]; rfl) rfl
  | call hpc => exact hs.of_inHand rfl rfl (by rw [hpc]; rfl) rfl
  | interrupted hpc => exact hs.of_inHand rfl rfl (by rw [hpc]; rfl) rfl
  | fail hpc => exact hs.of_inHand rfl rfl (by rw [hpc]; rfl) rfl
  | refuse hpc => exact hs.of_inHand rfl rfl (by rw [hpc]; rfl) rfl
  | submitted hpc => exact hs.of_inHand rfl rfl (by rw [hpc]; rfl) rfl
  | stopped hpc => exact hs.of_inHand rfl rfl (by rw [hpc]; rfl) rfl
  | pool => exact hs.of_inHand rfl rfl rfl rfl
  | ends => exact hs.of_inHand rfl rfl rfl rfl
  | destroy => exact hs.of_inHand rfl rfl rfl rfl

/-- **No accepted connection is lost or submitted twice**, whatever `accept` and `setsockopt`
return. -/
theorem placed_run {actions : List (RunAction n)} (h : (start n capacity).run actions = some s) :
    s.Placed := by
  have hstart : (start n capacity).Placed := List.Perm.nil
  exact run_keeps (fun _ _ _ hs h => hs.step h) hstart h

/-! ### After the signal -/

/-- Whatever happens, no connection that was accepted after the flag was set is submitted to the
pool, and no statement is executed for it. -/
def ServesNoLate (s : ServerRun n capacity) : Prop :=
  ∀ actions s', s.run actions = some s' → ∀ number c, s'.connections[number]? = some c →
    c.late = true → number ∉ s'.submitted ∧ ¬s'.Executes number

theorem ServesNoLate.step (hno : s.ServesNoLate) {a : RunAction n} (h : s.step a = some s') :
    s'.ServesNoLate :=
  fun actions s'' hrun => hno (a :: actions) s'' (CArray.bind_eq_of_eq_some h hrun)

/-- The flag is set, and `accept` is not called any more. -/
structure Stopping (s : ServerRun n capacity) : Prop where
  flag : s.shutdownRequested = true
  calling : s.pc ≠ .calling
  accepting : s.pc ≠ .accepting
  early : ∀ c ∈ s.connections, c.late = false

theorem Stopping.step (hs : s.Stopping) {a : RunAction n} (h : s.Step a s') : s'.Stopping := by
  cases h with
  | signal interrupts =>
    have hpc : ∀ pc, s.pc ≠ pc → pc ≠ .testing →
        (if interrupts ∧ s.pc = .accepting then .testing else s.pc) ≠ pc := by
      intro pc hne htesting
      split
      · exact htesting.symm
      · exact hne
    exact ⟨rfl, hpc _ hs.calling nofun, hpc _ hs.accepting nofun, hs.early⟩
  | @listen ok => cases ok <;> exact ⟨hs.flag, nofun, nofun, hs.early⟩
  | test _ hflag =>
    rw [hs.flag] at hflag
    cases hflag
  | call hpc => exact absurd hpc hs.calling
  | accept hpc => exact absurd hpc hs.accepting
  | pool => exact ⟨hs.flag, hs.calling, hs.accepting, hs.early⟩
  | ends => exact ⟨hs.flag, hs.calling, hs.accepting, hs.early⟩
  | destroy => exact ⟨hs.flag, hs.calling, hs.accepting, hs.early⟩
  | _ => exact ⟨hs.flag, nofun, nofun, hs.early⟩

theorem Stopping.servesNoLate (hs : s.Stopping) : s.ServesNoLate := by
  intro actions s' hrun number c hc hlate
  have hs' : s'.Stopping := run_keeps (fun _ _ _ hs h => hs.step h) hs hrun
  have hearly := hs'.early c (List.mem_of_getElem? hc)
  rw [hlate] at hearly
  cases hearly

/-- A connection that `accept` still returns is submitted. -/
theorem RunOk.not_servesNoLate (hs : s.RunOk) (hrunning : s.terminated = none)
    (hflag : s.shutdownRequested = true) (hpc : s.pc = .accepting) : ¬s.ServesNoLate := by
  intro hno
  have hpool := hs.running (by rw [hpc]; rfl)
  have hidle := hs.idle (by rw [hpc]; rfl) 0
  set s₁ : ServerRun n capacity := { s with
    pc := .configuring s.connections.length 0
    connections := s.connections ++ [⟨0, s.shutdownRequested⟩] } with hs₁
  have haccept : s.step (.accept (.ok 0)) = some s₁ := (step_eq_act hrunning _).trans (if_pos hpc)
  have hcall : s.pool.step (.accept 0 0) = some (s.pool.setCaller 0 (.submitting 0)) :=
    if_pos ⟨hpool, hidle⟩
  have hsubmit : s₁.step (.configure true true) = some { s₁ with
      pool := s.pool.setCaller 0 (.submitting 0)
      pc := .submitting
      submitted := s.submitted ++ [s.connections.length] } := by
    rw [step_eq_act (by exact hrunning), act]
    exact CArray.bind_eq_of_eq_some hcall rfl
  obtain ⟨hnot, -⟩ := hno [.accept (.ok 0), .configure true true] _
    (CArray.bind_eq_of_eq_some haccept (CArray.bind_eq_of_eq_some hsubmit rfl))
    s.connections.length ⟨0, s.shutdownRequested⟩ List.getElem?_concat_length hflag
  exact hnot (List.mem_append_right _ (List.mem_singleton_self _))

/-! ### The end of the loop -/

theorem Step.flag {a : RunAction n} (h : s.Step a s') (hflag : s'.shutdownRequested = false) :
    s.shutdownRequested = false := by
  cases h with
  | signal => cases hflag
  | _ => exact hflag

/-- While the flag is not set, the loop ends on an error of `accept` that is not `EINTR`, and only
then. -/
theorem Step.isOver_iff {a : RunAction n} (h : s.Step a s')
    (hflag : s'.shutdownRequested = false) :
    s'.pc.isOver = true ↔ s.pc.isOver = true ∨ a.IsFatal := by
  have hsame : ∀ {pc : RunPc}, s.pc = pc → pc.isOver = false → ¬a.IsFatal →
      ∀ {pc' : RunPc}, pc'.isOver = false →
      (pc'.isOver = true ↔ s.pc.isOver = true ∨ a.IsFatal) := by
    intro pc hpc hover hfatal pc' hover'
    rw [hpc, hover, hover']
    simp [hfatal]
  have hnot : ∀ {a : RunAction n}, (∀ errno, a ≠ .accept (.error errno)) → ¬a.IsFatal :=
    fun hne ⟨errno, ha, _⟩ => hne errno ha
  cases h with
  | signal => cases hflag
  | @listen ok hpc =>
    cases ok <;> exact hsame hpc rfl (hnot nofun) rfl
  | test hpc => exact hsame hpc rfl (hnot nofun) rfl
  | stop hpc hset =>
    -- the test fails only when the flag is set
    dsimp only at hflag
    rw [hflag] at hset
    cases hset
  | call hpc => exact hsame hpc rfl (hnot nofun) rfl
  | accept hpc => exact hsame hpc rfl (hnot nofun) rfl
  | interrupted hpc =>
    -- `continue`
    refine hsame hpc rfl ?_ rfl
    rintro ⟨errno, ha, hne⟩
    cases ha
    exact hne rfl
  | @fail errno pool hpc hne => exact iff_of_true rfl (.inr ⟨errno, rfl, hne⟩)
  | submit hpc => exact hsame hpc rfl (hnot nofun) rfl
  | refuse hpc => exact hsame hpc rfl (hnot nofun) rfl
  | close hpc => exact hsame hpc rfl (hnot nofun) rfl
  | submitted hpc => exact hsame hpc rfl (hnot nofun) rfl
  | stopped hpc => exact iff_of_true rfl (.inl (by rw [hpc]; rfl))
  | pool =>
    refine (or_iff_left ?_).symm
    exact hnot nofun
  | ends =>
    refine (or_iff_left ?_).symm
    exact hnot nofun
  | destroy =>
    refine (or_iff_left ?_).symm
    exact hnot nofun

theorem run_flag {actions : List (RunAction n)} (h : s.run actions = some s')
    (hflag : s'.shutdownRequested = false) : s.shutdownRequested = false := by
  induction actions generalizing s with
  | nil =>
    cases h
    exact hflag
  | cons a actions ih =>
    obtain ⟨s₁, hfirst, hrest⟩ := Option.bind_eq_some_iff.mp h
    exact (step_cases hfirst).flag (ih hrest)

/-- `Step.isOver_iff` over a run. -/
theorem isOver_run_iff {actions : List (RunAction n)} (h : s.run actions = some s')
    (hflag : s'.shutdownRequested = false) :
    s'.pc.isOver = true ↔ s.pc.isOver = true ∨ ∃ a ∈ actions, a.IsFatal := by
  induction actions generalizing s with
  | nil =>
    cases h
    simp only [List.not_mem_nil, false_and, exists_false, or_false]
  | cons a actions ih =>
    obtain ⟨s₁, hfirst, hrest⟩ := Option.bind_eq_some_iff.mp h
    rw [ih hrest, (step_cases hfirst).isOver_iff (run_flag hrest hflag), List.exists_mem_cons_iff,
      or_assoc]

/-- Behind the loop nothing is accepted. -/
theorem Step.over {a : RunAction n} (h : s.Step a s') (hover : s.pc.isOver = true) :
    s'.pc.isOver = true ∧ s'.connections = s.connections := by
  have hnot : ∀ {pc : RunPc}, s.pc = pc → pc.isOver = false →
      s'.pc.isOver = true ∧ s'.connections = s.connections := by
    intro pc hpc hpc'
    rw [hpc, hpc'] at hover
    cases hover
  cases h with
  | signal interrupts =>
    exact ⟨(RunPc.apply_signal RunPc.isOver rfl interrupts s.pc).trans hover, rfl⟩
  | listen hpc => exact hnot hpc rfl
  | test hpc => exact hnot hpc rfl
  | stop => exact ⟨rfl, rfl⟩
  | call hpc => exact hnot hpc rfl
  | accept hpc => exact hnot hpc rfl
  | interrupted hpc => exact hnot hpc rfl
  | fail => exact ⟨rfl, rfl⟩
  | submit hpc => exact hnot hpc rfl
  | refuse hpc => exact hnot hpc rfl
  | close hpc => exact hnot hpc rfl
  | submitted hpc => exact hnot hpc rfl
  | stopped => exact ⟨rfl, rfl⟩
  | pool => exact ⟨hover, rfl⟩
  | ends => exact ⟨hover, rfl⟩
  | destroy => exact ⟨hover, rfl⟩

theorem run_over {actions : List (RunAction n)} (h : s.run actions = some s')
    (hover : s.pc.isOver = true) : s'.connections = s.connections := by
  obtain ⟨-, heq⟩ := run_keeps (P := fun t => t.pc.isOver = true ∧ t.connections = s.connections)
    (fun _ _ _ ⟨hover, heq⟩ h => ⟨(h.over hover).1, (h.over hover).2.trans heq⟩) ⟨hover, rfl⟩ h
  exact heq

/-! ### The loop gets back to `accept` -/

/-- `s'` can be reached from `s`, without a signal or a new connection, and the process runs. -/
def Continues (s s' : ServerRun n capacity) : Prop :=
  (∃ actions, s.run actions = some s') ∧ s'.terminated = none ∧
    s'.shutdownRequested = s.shutdownRequested ∧ s'.connections = s.connections

theorem Continues.refl (hrunning : s.terminated = none) : s.Continues s :=
  ⟨⟨[], rfl⟩, hrunning, rfl, rfl⟩

theorem Continues.trans {s₁ : ServerRun n capacity} (h : s.Continues s₁) (h' : s₁.Continues s') :
    s.Continues s' := by
  obtain ⟨⟨actions, hrun⟩, -, hflag, hconnections⟩ := h
  obtain ⟨⟨actions', hrun'⟩, hrunning, hflag', hconnections'⟩ := h'
  refine ⟨⟨actions ++ actions', ?_⟩, hrunning, hflag'.trans hflag,
    hconnections'.trans hconnections⟩
  rw [run_append, hrun]
  exact hrun'

theorem Continues.single {a : RunAction n} (hrunning : s.terminated = none)
    (h : s.act a = some s') (hrunning' : s'.terminated = none)
    (hflag : s'.shutdownRequested = s.shutdownRequested)
    (hconnections : s'.connections = s.connections) : s.Continues s' :=
  ⟨⟨[a], CArray.bind_eq_of_eq_some ((step_eq_act hrunning a).trans h) rfl⟩, hrunning', hflag,
    hconnections⟩

/-- With a patient client a thread goes on as it does in the pool. -/
theorem act_patient (hrunning : s.terminated = none) (hpipe : s.dispositions .pipe = .default)
    {action : PoolAction n 1} (h : action.isCall = false) :
    s.act (.pool action .patient) =
      (s.pool.step action).map fun pool => { s with pool := pool } := by
  rw [act, if_neg (Bool.eq_false_iff.mp h), ServerProcess.step_patient hrunning hpipe]
  cases s.pool.step action <;> rfl

/-- What the threads do in the pool, when no client closes its connection. -/
theorem continues_of_leads (hrunning : s.terminated = none)
    (hpipe : s.dispositions .pipe = .default) {pool : SharedPool n 1 capacity}
    (h : s.pool.Leads pool) : s.Continues { s with pool := pool } := by
  obtain ⟨actions, hactions, hrun⟩ := h
  induction actions generalizing s with
  | nil =>
    cases hrun
    exact .refl hrunning
  | cons a actions ih =>
    obtain ⟨ha, hactions⟩ := List.forall_mem_cons.mp hactions
    obtain ⟨pool₁, hstep, hrun⟩ := Option.bind_eq_some_iff.mp hrun
    have hfirst : s.act (.pool a .patient) = some { s with pool := pool₁ } := by
      rw [act_patient hrunning hpipe ha, hstep]
      rfl
    exact (Continues.single hrunning hfirst hrunning rfl rfl).trans
      (ih (s := { s with pool := pool₁ }) hrunning hpipe hactions hrun)

theorem continues_testing (hrunning : s.terminated = none) (hflag : s.shutdownRequested = false)
    (hpc : s.pc = .testing) : ∃ s', s.Continues s' ∧ s'.pc = .accepting := by
  have hstep : s.act .run = some { s with pc := .calling } := by
    rw [act, runStep, hpc]
    simp only [hflag, Bool.false_eq_true, if_false]
  have hcall : ({ s with pc := .calling } : ServerRun n capacity).act .run =
      some { s with pc := .accepting } := rfl
  exact ⟨_, (Continues.single hrunning hstep hrunning rfl rfl).trans
    (.single hrunning hcall hrunning rfl rfl), rfl⟩

theorem continues_closing (hrunning : s.terminated = none) (hflag : s.shutdownRequested = false)
    {number : ℕ} (hpc : s.pc = .closing number) :
    ∃ s', s.Continues s' ∧ s'.pc = .accepting := by
  have hstep : s.act .run = some { s with pc := .testing, closed := s.closed ++ [number] } := by
    rw [act, runStep, hpc]
  obtain ⟨s', hcontinues, haccepting⟩ := continues_testing
    (s := { s with pc := .testing, closed := s.closed ++ [number] }) hrunning hflag rfl
  exact ⟨s', (Continues.single hrunning hstep hrunning rfl rfl).trans hcontinues, haccepting⟩

/-- `thread_pool_submit` returns, and the response to a connection that it refused is sent. -/
theorem RunOk.continues_submitting (hs : s.RunOk) (hrunning : s.terminated = none)
    (hflag : s.shutdownRequested = false) (hpc : s.pc = .submitting) :
    ∃ s', s.Continues s' ∧ s'.pc = .accepting := by
  have howner := hs.running (by rw [hpc]; rfl)
  obtain ⟨pool, hleads, -, hidle⟩ := hs.pool.returns hs.held (by rw [howner]; rfl)
  have hstep : ({ s with pool := pool } : ServerRun n capacity).act .run =
      some { s with pool := pool, pc := .testing } := by
    rw [act, runStep]
    dsimp only
    rw [hpc]
    exact if_pos hidle
  obtain ⟨s', hcontinues, haccepting⟩ := continues_testing
    (s := { s with pool := pool, pc := .testing }) hrunning hflag rfl
  exact ⟨s', ((continues_of_leads hrunning hs.pipe hleads).trans
    (.single hrunning hstep hrunning rfl rfl)).trans hcontinues, haccepting⟩

/-- From every place of the loop. -/
theorem RunOk.continues_accepting (hs : s.RunOk) (hrunning : s.terminated = none)
    (hflag : s.shutdownRequested = false) (hbefore : s.pc.isBefore = false)
    (hover : s.pc.isOver = false) : ∃ s', s.Continues s' ∧ s'.pc = .accepting := by
  cases hpc : s.pc with
  | testing => exact continues_testing hrunning hflag hpc
  | calling =>
    have hstep : s.act .run = some { s with pc := .accepting } := by
      rw [act, runStep, hpc]
    exact ⟨_, .single hrunning hstep hrunning rfl rfl, rfl⟩
  | accepting => exact ⟨s, .refl hrunning, hpc⟩
  | configuring number clientFd =>
    -- when `setsockopt` fails, the pool need not have room
    have hstep : s.act (.configure false false) = some { s with pc := .closing number } := by
      rw [act, hpc]
      rfl
    obtain ⟨s', hcontinues, haccepting⟩ := continues_closing
      (s := { s with pc := .closing number }) hrunning hflag rfl
    exact ⟨s', (Continues.single hrunning hstep hrunning rfl rfl).trans hcontinues, haccepting⟩
  | closing number => exact continues_closing hrunning hflag hpc
  | submitting => exact hs.continues_submitting hrunning hflag hpc
  | creating =>
    rw [hpc] at hbefore
    cases hbefore
  | failed =>
    rw [hpc] at hbefore
    cases hbefore
  | shuttingDown =>
    rw [hpc] at hover
    cases hover
  | returned =>
    rw [hpc] at hover
    cases hover

/-- A connection that arrives later can be accepted, whatever its descriptor is, before the flag is
set. -/
def KeepsAccepting (s : ServerRun n capacity) : Prop :=
  ∀ clientFd, ∃ actions s', s.run actions = some s' ∧ s'.shutdownRequested = false ∧
    s'.connections = s.connections ++ [⟨clientFd, false⟩]

theorem RunOk.keepsAccepting (hs : s.RunOk) (hrunning : s.terminated = none)
    (hflag : s.shutdownRequested = false) (hbefore : s.pc.isBefore = false)
    (hover : s.pc.isOver = false) : s.KeepsAccepting := by
  intro clientFd
  obtain ⟨s₁, ⟨⟨actions, hrun⟩, hrunning₁, hflag₁, hconnections⟩, hpc⟩ :=
    hs.continues_accepting hrunning hflag hbefore hover
  rw [hflag] at hflag₁
  have haccept : s₁.step (.accept (.ok clientFd)) = some { s₁ with
      pc := .configuring s₁.connections.length clientFd
      connections := s₁.connections ++ [⟨clientFd, s₁.shutdownRequested⟩] } :=
    (step_eq_act hrunning₁ _).trans (if_pos hpc)
  refine ⟨actions ++ [.accept (.ok clientFd)], { s₁ with
    pc := .configuring s₁.connections.length clientFd
    connections := s₁.connections ++ [⟨clientFd, s₁.shutdownRequested⟩] }, ?_, hflag₁, ?_⟩
  · rw [run_append, hrun, Option.bind_some]
    exact CArray.bind_eq_of_eq_some haccept rfl
  · dsimp only
    rw [hconnections, hflag₁]

theorem not_keepsAccepting (hover : s.pc.isOver = true) : ¬s.KeepsAccepting := by
  intro h
  obtain ⟨actions, s', hrun, -, hconnections⟩ := h 0
  rw [run_over hrun hover] at hconnections
  cases List.self_eq_append_right.mp hconnections

/-- A process that has ended accepts nothing. -/
theorem KeepsAccepting.running (h : s.KeepsAccepting) : s.terminated = none := by
  obtain ⟨actions, s', hrun, -, hconnections⟩ := h 0
  cases actions with
  | nil =>
    cases hrun
    cases List.self_eq_append_right.mp hconnections
  | cons a actions =>
    obtain ⟨s₁, hfirst, -⟩ := Option.bind_eq_some_iff.mp hrun
    exact running_of_step hfirst

/-! ### Responses -/

/-- The thread of a step calls `send` on a connection that its client has closed. -/
def SendsOnClosed (s : ServerRun n capacity) : RunAction n → Prop
  | .pool action client => s.toServerProcess.SendsOnClosed action client
  | _ => False

/-- No step of the run calls `send` on a connection that its client has closed. -/
def NeverSendsOnClosed (s : ServerRun n capacity) : List (RunAction n) → Prop
  | [] => True
  | a :: actions => ¬s.SendsOnClosed a ∧ ∀ s', s.step a = some s' → s'.NeverSendsOnClosed actions

/-- It is enough that no client closes its connection before it has its response. -/
theorem neverSendsOnClosed_of_outcomes {actions : List (RunAction n)}
    (h : .closed ∉ actions.flatMap RunAction.outcomes) : s.NeverSendsOnClosed actions := by
  induction actions generalizing s with
  | nil => exact trivial
  | cons a actions ih =>
    rw [List.flatMap_cons, List.mem_append, not_or] at h
    refine ⟨?_, fun s' _ => ih h.2⟩
    cases a with
    | pool action client => exact ServerProcess.not_sendsOnClosed_of_outcomes h.1
    | _ => exact id

/-- A step ends the process if and only if it calls `send` on a connection that its client has
closed. -/
theorem terminated_step_iff (hrunning : s.terminated = none)
    (hpipe : s.dispositions .pipe = .default) {a : RunAction n} (h : s.step a = some s') :
    s'.terminated = none ↔ ¬s.SendsOnClosed a := by
  cases a with
  | pool action client =>
    rw [step_eq_act hrunning, act] at h
    split at h
    · cases h
    · obtain ⟨process, hprocess, h⟩ := Option.bind_eq_some_iff.mp h
      cases h
      rcases ServerProcess.step_cases hrunning hpipe action client with
        ⟨hclosed, hstep⟩ | ⟨hopen, hstep⟩
      · cases hstep.symm.trans hprocess
        exact iff_of_false nofun (not_not.mpr hclosed)
      · obtain ⟨pool, -, rfl⟩ := Option.map_eq_some_iff.mp (hstep.symm.trans hprocess)
        exact iff_of_true hrunning hopen
  | _ =>
    refine iff_of_true ?_ id
    cases step_cases h <;> exact hrunning

/-- The process runs behind a run if and only if no connection was found closed. -/
theorem terminated_run_iff (hrunning : s.terminated = none)
    (hpipe : s.dispositions .pipe = .default) {actions : List (RunAction n)}
    (h : s.run actions = some s') : s'.terminated = none ↔ s.NeverSendsOnClosed actions := by
  induction actions generalizing s with
  | nil =>
    cases h
    exact iff_of_true hrunning trivial
  | cons a actions ih =>
    obtain ⟨s₁, hfirst, hrest⟩ := Option.bind_eq_some_iff.mp h
    have hiff := terminated_step_iff hrunning hpipe hfirst
    have hrest' : (∀ s₂, s.step a = some s₂ → s₂.NeverSendsOnClosed actions) ↔
        s₁.NeverSendsOnClosed actions := by
      simp [hfirst]
    rw [NeverSendsOnClosed, hrest']
    by_cases hrunning₁ : s₁.terminated = none
    · have hpipe₁ : s₁.dispositions .pipe = .default := by rwa [(step_cases hfirst).dispositions]
      rw [ih hrunning₁ hpipe₁ hrest]
      exact (and_iff_right (hiff.mp hrunning₁)).symm
    · refine iff_of_false (fun hrunning' => ?_) fun hnever => hrunning₁ (hiff.mpr hnever.1)
      -- nothing happens any more
      cases actions with
      | nil =>
        cases hrest
        exact hrunning₁ hrunning'
      | cons a' actions =>
        obtain ⟨s₂, hsecond, -⟩ := Option.bind_eq_some_iff.mp hrest
        exact hrunning₁ (running_of_step hsecond)

/-! ### The process -/

/-- Every step is one of the process, or leaves the process as it is. -/
theorem step_process (hpipe : s.dispositions .pipe = .default) {a : RunAction n}
    (h : s.step a = some s') :
    s'.toServerProcess = s.toServerProcess ∨
      ∃ action client, s.toServerProcess.step action client = some s'.toServerProcess := by
  have hrunning := running_of_step h
  -- no response is sent in a call of the pool
  have hcall : ∀ {action pool}, s.pool.step action = some pool →
      s.toServerProcess.step action .patient = some { s.toServerProcess with pool := pool } := by
    intro action pool hstep
    rw [ServerProcess.step_patient hrunning hpipe, hstep]
    rfl
  cases a with
  | pool action client =>
    rw [step_eq_act hrunning, act] at h
    split at h
    · cases h
    · obtain ⟨process, hprocess, h⟩ := Option.bind_eq_some_iff.mp h
      cases h
      exact .inr ⟨action, client, hprocess⟩
  | run =>
    cases step_cases h with
    | stop _ _ hstep => exact .inr ⟨_, _, hcall hstep⟩
    | _ => exact .inl rfl
  | accept result =>
    cases step_cases h with
    | fail _ _ hstep => exact .inr ⟨_, _, hcall hstep⟩
    | _ => exact .inl rfl
  | configure receive send =>
    cases step_cases h with
    | submit _ hstep => exact .inr ⟨_, _, hcall hstep⟩
    | refuse => exact .inl rfl
  | destroy =>
    cases step_cases h with
    | destroy _ hstep => exact .inr ⟨_, _, hcall hstep⟩
  | signal =>
    cases step_cases h
    exact .inl rfl
  | listen =>
    cases step_cases h
    exact .inl rfl

/-- **The loop is a caller of the process**: behind every run stands one of the process. -/
theorem exists_process_run (hpipe : s.dispositions .pipe = .default) {actions : List (RunAction n)}
    (h : s.run actions = some s') :
    ∃ steps, s.toServerProcess.run steps = some s'.toServerProcess := by
  induction actions generalizing s with
  | nil =>
    cases h
    exact ⟨[], rfl⟩
  | cons a actions ih =>
    obtain ⟨s₁, hfirst, hrest⟩ := Option.bind_eq_some_iff.mp h
    have hpipe₁ : s₁.dispositions .pipe = .default := by rwa [(step_cases hfirst).dispositions]
    obtain ⟨steps, hsteps⟩ := ih hpipe₁ hrest
    rcases step_process hpipe hfirst with heq | ⟨action, client, hstep⟩
    · exact ⟨steps, heq ▸ hsteps⟩
    · exact ⟨(action, client) :: steps, CArray.bind_eq_of_eq_some hstep hsteps⟩

end ServerRun

/-! ### No new request after the signal -/

/-- When the flag is set, no connection that is accepted later is submitted or gets a statement
executed, if and only if the main thread is not between its test of the flag and the return of
`accept`, or the signal interrupts `accept`. -/
theorem server_run_no_late_request_iff {n capacity : ℕ} {actions : List (RunAction n)}
    {s s' : ServerRun n capacity} {interrupts : Bool}
    (h : (ServerRun.start n capacity).run actions = some s) (hflag : s.shutdownRequested = false)
    (hsignal : s.step (.signal interrupts) = some s') :
    s'.ServesNoLate ↔ s.pc ≠ .calling ∧ (s.pc = .accepting → interrupts = true) := by
  have hs := (ServerRun.runOk_start n capacity).run h
  have hs' := hs.step (ServerRun.step_cases hsignal)
  have hrunning := ServerRun.running_of_step hsignal
  rw [ServerRun.step_eq_act hrunning] at hsignal
  cases hsignal
  constructor
  · intro hno
    refine ⟨fun hpc => ?_, fun hpc => ?_⟩
    · -- the handler returns, and `accept` is called
      rw [if_neg (by rw [hpc]; exact fun h => nomatch h.2)] at hno hs'
      have hcall : ({ s with shutdownRequested := true } : ServerRun n capacity).step .run =
          some { s with shutdownRequested := true, pc := .accepting } := by
        rw [ServerRun.step_eq_act (by exact hrunning), ServerRun.act, ServerRun.runStep]
        dsimp only
        rw [hpc]
      exact (hs'.step (ServerRun.step_cases hcall)).not_servesNoLate hrunning rfl rfl
        (hno.step hcall)
    · by_contra hinterrupts
      rw [if_neg (fun h => hinterrupts h.1)] at hno hs'
      exact hs'.not_servesNoLate hrunning rfl hpc hno
  · rintro ⟨hcalling, haccepting⟩
    refine ServerRun.Stopping.servesNoLate ⟨rfl, ?_, ?_, hs.early hflag⟩
    · dsimp only
      split
      · exact nofun
      · exact hcalling
    · dsimp only
      split
      · exact nofun
      · rename_i hnot
        exact fun hpc => hnot ⟨haccepting hpc, hpc⟩

/-- The pool has one worker, and the main thread is at its test. -/
def listeningRun : List (RunAction 1) :=
  [.pool (.owner true) .patient, .pool (.owner true) .patient, .pool (.owner true) .patient,
    .listen true]

/-- The signal interrupts `accept`. -/
theorem server_run_no_late_request_interrupted :
    ∃ s s', (ServerRun.start 1 1).run (listeningRun ++ [.run, .run]) = some s ∧
      s.step (.signal true) = some s' ∧ s'.ServesNoLate := by
  have hrun : ((ServerRun.start 1 1).run (listeningRun ++ [.run, .run])).map
      (fun s => (s.terminated, s.pc, s.shutdownRequested)) = some (none, .accepting, false) := rfl
  obtain ⟨s, hs, heq⟩ := Option.map_eq_some_iff.mp hrun
  simp only [Prod.mk.injEq] at heq
  obtain ⟨hrunning, hpc, hflag⟩ := heq
  have hcalling : s.pc ≠ .calling := by
    rw [hpc]
    exact nofun
  have hsignal : s.step (.signal true) = s.act (.signal true) :=
    ServerRun.step_eq_act hrunning _
  exact ⟨s, _, hs, hsignal,
    (server_run_no_late_request_iff hs hflag hsignal).mpr ⟨hcalling, fun _ => rfl⟩⟩

/-- The flag is set between the test and the call of `accept`, and a worker gets the connection. -/
def lateRequestRun : List (RunAction 1) :=
  let first : Fin 1 := ⟨0, Nat.one_pos⟩
  listeningRun.append
    [.run, .signal true, .run, .accept (.ok 5), .configure true true,
      .pool (.caller first ∅) .patient, .pool (.caller first ∅) .patient,
      .pool (.worker first) .patient, .pool (.worker first) .patient,
      .pool (.worker first) .patient]

theorem not_server_run_no_late_request :
    ¬∀ (n capacity : ℕ) (actions : List (RunAction n)) (s : ServerRun n capacity),
      (ServerRun.start n capacity).run actions = some s →
      ∀ number c, s.connections[number]? = some c → c.late = true →
        number ∉ s.submitted ∧ ¬s.Executes number := by
  intro h
  have hrun : ((ServerRun.start 1 1).run lateRequestRun).map
      (fun s => (s.connections, s.submitted, s.pool.submits, s.pool.dequeued)) =
      some ([⟨5, true⟩], [0], [⟨5, 5, 0, true, 0⟩], [⟨0, 0, 5⟩]) := by
    decide
  obtain ⟨s, hs, heq⟩ := Option.map_eq_some_iff.mp hrun
  simp only [Prod.mk.injEq] at heq
  obtain ⟨hconnections, hsubmitted, hsubmits, hdequeued⟩ := heq
  obtain ⟨-, hnot⟩ := h 1 1 lateRequestRun s hs 0 ⟨5, true⟩ (by rw [hconnections]; rfl) rfl
  refine hnot ⟨0, ⟨5, 5, 0, true, 0⟩, ⟨0, 0, 5⟩, by rw [hsubmitted]; rfl, by rw [hsubmits]; rfl,
    rfl, ?_, rfl⟩
  rw [hdequeued]
  exact List.mem_singleton_self _

/-! ### The loop goes on until the shutdown -/

/-- Until the flag is set, `server_run` can accept one more connection, if and only if `accept` has
returned no error but `EINTR`, and no response was sent to a connection that its client had closed:
by a worker, or by the loop itself to a connection that the pool refused.  Apart from that sockets
that could not be configured and a full queue make no difference. -/
theorem server_run_keeps_accepting_iff {n capacity : ℕ} {actions : List (RunAction n)}
    {s : ServerRun n capacity} (h : (ServerRun.start n capacity).run actions = some s)
    (hrun : s.pc.isBefore = false) (hflag : s.shutdownRequested = false) :
    s.KeepsAccepting ↔
      (∀ errno, RunAction.accept (.error errno) ∈ actions → errno = EINTR) ∧
        (ServerRun.start n capacity).NeverSendsOnClosed actions := by
  have hs := (ServerRun.runOk_start n capacity).run h
  have hover := ServerRun.isOver_run_iff h hflag
  rw [or_iff_right (by exact nofun)] at hover
  have hends := ServerRun.terminated_run_iff rfl rfl h
  constructor
  · intro hkeeps
    refine ⟨fun errno hmem => ?_, hends.mp hkeeps.running⟩
    by_contra hne
    exact ServerRun.not_keepsAccepting (hover.mpr ⟨_, hmem, errno, rfl, hne⟩) hkeeps
  · rintro ⟨hall, hnever⟩
    refine hs.keepsAccepting (hends.mpr hnever) hflag hrun (Bool.eq_false_iff.mpr fun hpc => ?_)
    obtain ⟨a, hmem, errno, rfl, hne⟩ := hover.mp hpc
    exact hne (hall errno hmem)

/-- A call of `accept` is interrupted, a connection cannot be configured, and a connection is
refused because the queue is full; the response to it can be sent only in part. -/
def badLuckRun : List (RunAction 1) :=
  let first : Fin 1 := ⟨0, Nat.one_pos⟩
  listeningRun.append
    [.run, .run, .accept (.error EINTR),
      .run, .run, .accept (.ok 5), .configure true false, .run,
      .run, .run, .accept (.ok 6), .configure true true, .pool (.caller first ∅) .patient,
      .pool (.caller first ∅) .patient, .run,
      .run, .run, .accept (.ok 7), .configure true true, .pool (.caller first ∅) .patient,
      .pool (.caller first ∅) .patient, .pool (.caller first ∅) failingClient, .run]

theorem server_run_keeps_accepting_bad_luck :
    ∃ s, (ServerRun.start 1 1).run badLuckRun = some s ∧ s.pool.refused = [7] ∧
      s.KeepsAccepting := by
  have hrun : ((ServerRun.start 1 1).run badLuckRun).map
      (fun s => (s.pc, s.shutdownRequested, s.pool.refused)) = some (.testing, false, [7]) := by
    decide +kernel
  obtain ⟨s, hs, heq⟩ := Option.map_eq_some_iff.mp hrun
  simp only [Prod.mk.injEq] at heq
  obtain ⟨hpc, hflag, hrefused⟩ := heq
  refine ⟨s, hs, hrefused, (server_run_keeps_accepting_iff hs (by rw [hpc]; rfl) hflag).mpr
    ⟨fun errno hmem => ?_, ServerRun.neverSendsOnClosed_of_outcomes ?_⟩⟩
  · simpa [badLuckRun, listeningRun] using hmem
  · decide

/-- A client aborts its connection before it is accepted: `accept` returns `ECONNABORTED`. -/
def abortedRun : List (RunAction 1) :=
  listeningRun.append [.run, .run, .accept (.error 103)]

theorem not_server_run_keeps_accepting :
    ¬∀ (n capacity : ℕ) (actions : List (RunAction n)) (s : ServerRun n capacity),
      (ServerRun.start n capacity).run actions = some s → s.pc.isBefore = false →
      s.shutdownRequested = false → s.KeepsAccepting := by
  intro h
  have hrun : ((ServerRun.start 1 1).run abortedRun).map
      (fun s => (s.pc, s.shutdownRequested)) = some (.shuttingDown, false) := rfl
  obtain ⟨s, hs, heq⟩ := Option.map_eq_some_iff.mp hrun
  obtain ⟨hpc, hflag⟩ := Prod.mk.inj heq
  exact ServerRun.not_keepsAccepting (by rw [hpc]; rfl)
    (h 1 1 abortedRun s hs (by rw [hpc]; rfl) hflag)

end MiniDbms
