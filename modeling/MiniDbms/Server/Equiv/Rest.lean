import MiniDbms.Lib.Potential
import MiniDbms.Server.Equiv.FailedStart

/-!
# The thread pool comes to rest

The threads of the pool do not spin.  Every place of a thread has a rank, and every job in the queue
counts; the sum is the *work* that is left.  A step of a thread takes one off the work, and only
what comes from outside adds to it: an accepted connection, a call of `thread_pool_shutdown` or
`thread_pool_destroy`, and a wake-up of `pthread_cond_wait` without a signal (`PoolAction.cost`).

So the threads come to rest, and `TeamOk.settled` says where: no thread has the mutex, every call
has returned, and every connection that was accepted or refused is closed.
-/

namespace MiniDbms

open Counting Potential

/-! ### The work that is left -/

def WorkerPc.rank : WorkerPc → ℕ
  | .absent | .asleep | .exited => 0
  | .waiting | .checking => 1
  | .testing => 2
  | .locking | .waking => 3
  | .closing _ _ => 4
  | .handling _ _ => 5

/-- A caller that signals may wake all `n` workers. -/
def CallerPc.rank (n : ℕ) : CallerPc → ℕ
  | .idle => 0
  | .refused _ _ => 1
  | .deciding _ => 3 * n + 6
  | .submitting _ => 3 * n + 7
  | .stoppingLocked => 3 * n + 1
  | .stopping => 3 * n + 2

def OwnerPc.rank (n : ℕ) : OwnerPc → ℕ
  | .failed | .running | .destroyed => 0
  | .failJoining index => min index n + 1
  | .failing index => 3 * n + min index n + 2
  | .creating index => 4 * (n - index) + 4 * n + 3
  | .starting => 8 * n + 4
  | .joining index => n - index + 1
  | .stoppingLocked => 4 * n + 2
  | .stopping => 4 * n + 3

/-- What a step brings in from outside.  The steps that cost nothing are those of the threads
themselves. -/
def PoolAction.cost {n k : ℕ} : PoolAction n k → ℕ
  | .accept _ _ => 3 * n + 8
  | .shutdown _ => 3 * n + 3
  | .destroy => 4 * n + 4
  | .wake _ => 4
  | .owner _ | .caller _ _ | .worker _ => 0

/-- One step of waking up. -/
theorem rank_condWake {n : ℕ} (workers : Fin n → WorkerPc) (woken : Finset (Fin n)) (i : Fin n) :
    (condWake workers woken i).rank ≤ (workers i).rank + 3 := by
  unfold condWake
  split
  · exact Nat.le_add_left _ _
  · exact Nat.le_add_right _ _

namespace SharedPool

variable {n k capacity : ℕ} {s s' : SharedPool n k capacity}

/-- The work that is left. -/
def work (s : SharedPool n k capacity) : ℕ :=
  s.owner.rank n + sumOf (CallerPc.rank n) s.callers + sumOf WorkerPc.rank s.workers +
    5 * s.pool.size

theorem work_start (n k capacity : ℕ) : (start n k capacity).work = 8 * n + 4 := by
  have hcallers : sumOf (CallerPc.rank n) (start n k capacity).callers = Fintype.card (Fin k) * 0 :=
    sumOf_const fun _ => rfl
  have hworkers : sumOf WorkerPc.rank (start n k capacity).workers = Fintype.card (Fin n) * 0 :=
    sumOf_const fun _ => rfl
  rw [work, hcallers, hworkers]
  rfl

/-- A worker moves from `pc` to `pc'`. -/
theorem work_worker {i : Fin n} {pc pc' : WorkerPc} {cost : ℕ} (hpc : s.workers i = pc)
    (hworkers : s'.workers = Function.update s.workers i pc') (hcallers : s'.callers = s.callers)
    (howner : s'.owner = s.owner)
    (hrank : pc'.rank + 5 * s'.pool.size + 1 ≤ pc.rank + 5 * s.pool.size + cost) :
    s'.work + 1 ≤ s.work + cost := by
  have hsum := sumOf_update WorkerPc.rank s.workers i pc'
  rw [hpc] at hsum
  unfold work
  rw [hworkers, hcallers, howner]
  omega

/-- A worker moves, and the queue stays as it is. -/
theorem work_worker_alone {i : Fin n} {pc pc' : WorkerPc} {cost : ℕ} (hpc : s.workers i = pc)
    (hworkers : s'.workers = Function.update s.workers i pc') (hcallers : s'.callers = s.callers)
    (howner : s'.owner = s.owner) (hsize : s'.pool.size = s.pool.size)
    (hrank : pc'.rank + 1 ≤ pc.rank + cost) : s'.work + 1 ≤ s.work + cost := by
  refine work_worker hpc hworkers hcallers howner ?_
  rw [hsize]
  omega

/-- A caller moves from `pc` to `pc'`, and wakes the workers in `woken`. -/
theorem work_caller {j : Fin k} {pc pc' : CallerPc} {woken : Finset (Fin n)} {cost : ℕ}
    (hpc : s.callers j = pc) (hcallers : s'.callers = Function.update s.callers j pc')
    (hworkers : s'.workers = condWake s.workers woken) (howner : s'.owner = s.owner)
    (hrank : pc'.rank n + 5 * s'.pool.size + 3 * n + 1 ≤ pc.rank n + 5 * s.pool.size + cost) :
    s'.work + 1 ≤ s.work + cost := by
  have hsum := sumOf_update (CallerPc.rank n) s.callers j pc'
  have hwoken := sumOf_le (rank_condWake s.workers woken)
  rw [hpc] at hsum
  rw [Fintype.card_fin] at hwoken
  unfold work
  rw [hworkers, hcallers, howner]
  omega

/-- A caller moves alone. -/
theorem work_caller_alone {j : Fin k} {pc pc' : CallerPc} {cost : ℕ} (hpc : s.callers j = pc)
    (hcallers : s'.callers = Function.update s.callers j pc') (hworkers : s'.workers = s.workers)
    (howner : s'.owner = s.owner) (hsize : s'.pool.size = s.pool.size)
    (hrank : pc'.rank n + 1 ≤ pc.rank n + cost) : s'.work + 1 ≤ s.work + cost := by
  have hsum := sumOf_update (CallerPc.rank n) s.callers j pc'
  rw [hpc] at hsum
  unfold work
  rw [hworkers, hcallers, howner, hsize]
  omega

/-- The owner moves from `pc` to `pc'`, and the ranks of the workers rise by `rise`. -/
theorem work_owner {pc pc' : OwnerPc} {rise cost : ℕ} (hpc : s.owner = pc) (howner : s'.owner = pc')
    (hcallers : s'.callers = s.callers)
    (hworkers : sumOf WorkerPc.rank s'.workers ≤ sumOf WorkerPc.rank s.workers + rise)
    (hsize : s'.pool.size ≤ s.pool.size) (hrank : pc'.rank n + rise + 1 ≤ pc.rank n + cost) :
    s'.work + 1 ≤ s.work + cost := by
  unfold work
  rw [hcallers, howner, hpc]
  omega

/-- The owner wakes the workers. -/
theorem sumOf_condBroadcast (workers : Fin n → WorkerPc) :
    sumOf WorkerPc.rank (condBroadcast workers) ≤ sumOf WorkerPc.rank workers + 3 * n := by
  have hwoken := sumOf_le (rank_condWake workers Finset.univ)
  rw [Fintype.card_fin, Nat.mul_comm] at hwoken
  exact hwoken

/-! ### A step of a thread takes one off the work -/

theorem PoolOk.work_worker_step (hs : s.PoolOk) {i : Fin n} (h : s.workerStep i = some s') :
    s'.work + 1 ≤ s.work + 0 := by
  unfold workerStep at h
  cases hpc : s.workers i <;> rw [hpc] at h
  case absent => cases h
  case locking =>
    obtain ⟨-, rfl⟩ := acquire_eq_some h
    exact work_worker_alone hpc rfl rfl rfl rfl (by decide)
  case testing =>
    cases h
    refine work_worker_alone hpc rfl rfl rfl rfl ?_
    cases s.pool.mustWait <;> decide
  case waiting =>
    cases h
    exact work_worker_alone hpc rfl rfl rfl rfl (by decide)
  case asleep => cases h
  case waking =>
    obtain ⟨-, rfl⟩ := acquire_eq_some h
    exact work_worker_alone hpc rfl rfl rfl rfl (by decide)
  case checking =>
    dsimp only at h
    cases htest : s.pool.mustBreak with
    | true =>
      rw [if_pos htest] at h
      cases h
      exact work_worker_alone hpc rfl rfl rfl rfl (by decide)
    | false =>
      -- the job that is taken pays for its handler
      rw [if_neg (by rw [htest]; exact Bool.false_ne_true)] at h
      obtain ⟨⟨clientFd, pool⟩, hjob, h⟩ := Option.bind_eq_some_iff.mp h
      have hsize := ThreadPool.size_ne_zero ((hs.wake.tested i).2 hpc) htest
      obtain ⟨jobs, -, -, rfl⟩ := ThreadPool.dequeue_eq_some hjob
      cases h
      refine work_worker hpc rfl rfl rfl ?_
      show 5 + 5 * (s.pool.size - 1) + 1 ≤ 1 + 5 * s.pool.size + 0
      omega
  case handling job clientFd =>
    cases h
    exact work_worker_alone hpc rfl rfl rfl rfl (by exact Nat.le_refl 5)
  case closing job clientFd =>
    cases h
    exact work_worker_alone hpc rfl rfl rfl rfl (by exact Nat.le_refl 4)
  case exited => cases h

theorem work_caller_step {j : Fin k} {woken : Finset (Fin n)}
    (h : s.callerStep j woken = some s') : s'.work + 1 ≤ s.work + 0 := by
  unfold callerStep at h
  cases hpc : s.callers j <;> rw [hpc] at h
  case idle => cases h
  case submitting clientFd =>
    obtain ⟨-, rfl⟩ := acquire_eq_some h
    exact work_caller_alone hpc rfl rfl rfl rfl (Nat.le_refl _)
  case deciding clientFd =>
    dsimp only at h
    split at h
    · obtain ⟨pool, hjob, h⟩ := Option.bind_eq_some_iff.mp h
      obtain ⟨workers, hsignal, h⟩ := Option.bind_eq_some_iff.mp h
      obtain ⟨jobs, jobs', -, -, rfl⟩ := ThreadPool.enqueue_eq_some hjob
      unfold condSignal at hsignal
      split at hsignal
      · cases hsignal
        cases h
        refine work_caller hpc rfl rfl rfl ?_
        show 0 + 5 * (s.pool.size + 1) + 3 * n + 1 ≤ 3 * n + 6 + 5 * s.pool.size + 0
        omega
      · cases hsignal
    · cases h
      refine work_caller_alone hpc rfl rfl rfl rfl ?_
      show 1 + 1 ≤ 3 * n + 6 + 0
      omega
  case refused number clientFd =>
    cases h
    exact work_caller_alone hpc rfl rfl rfl rfl (Nat.le_refl _)
  case stopping =>
    obtain ⟨-, rfl⟩ := acquire_eq_some h
    exact work_caller_alone hpc rfl rfl rfl rfl (Nat.le_refl _)
  case stoppingLocked =>
    cases h
    refine work_caller hpc rfl rfl rfl ?_
    show 0 + 5 * s.pool.size + 3 * n + 1 ≤ 3 * n + 1 + 5 * s.pool.size + 0
    omega

theorem work_owner_step {ok : Bool} (h : s.ownerStep ok = some s') : s'.work + 1 ≤ s.work + 0 := by
  have hsame : sumOf WorkerPc.rank s.workers ≤ sumOf WorkerPc.rank s.workers + 0 := le_rfl
  unfold ownerStep at h
  cases hpc : s.owner <;> rw [hpc] at h <;> dsimp only at h
  case starting =>
    split at h
    · cases h
      refine work_owner hpc rfl rfl hsame le_rfl ?_
      show 0 + 0 + 1 ≤ 8 * n + 4 + 0
      omega
    · cases h
      refine work_owner hpc rfl rfl hsame (Nat.zero_le _) ?_
      show 4 * (n - 0) + 4 * n + 3 + 0 + 1 ≤ 8 * n + 4 + 0
      omega
  case creating index =>
    split at h
    · rename_i hlt
      split at h
      · cases h
        have hnew := sumOf_update WorkerPc.rank s.workers ⟨index, hlt⟩ .locking
        refine work_owner hpc rfl rfl (le_of_add_le_left hnew.le) le_rfl ?_
        show 4 * (n - (index + 1)) + 4 * n + 3 + 3 + 1 ≤ 4 * (n - index) + 4 * n + 3 + 0
        omega
      · cases h
        refine work_owner hpc rfl rfl hsame le_rfl ?_
        show 3 * n + min index n + 2 + 0 + 1 ≤ 4 * (n - index) + 4 * n + 3 + 0
        omega
    · cases h
      refine work_owner hpc rfl rfl hsame le_rfl ?_
      show 0 + 0 + 1 ≤ 4 * (n - index) + 4 * n + 3 + 0
      omega
  case failing index =>
    cases h
    refine work_owner hpc rfl rfl (sumOf_condBroadcast s.workers) le_rfl ?_
    show min index n + 1 + 3 * n + 1 ≤ 3 * n + min index n + 2 + 0
    omega
  case failJoining index =>
    cases index with
    | zero =>
      cases h
      refine work_owner hpc rfl rfl hsame le_rfl ?_
      show 0 + 0 + 1 ≤ min 0 n + 1 + 0
      omega
    | succ index =>
      dsimp only at h
      split at h
      · split at h
        · cases h
          refine work_owner hpc rfl rfl hsame le_rfl ?_
          show min index n + 1 + 0 + 1 ≤ min (index + 1) n + 1 + 0
          omega
        · cases h
      · cases h
  case failed => cases h
  case running => cases h
  case stopping =>
    obtain ⟨-, rfl⟩ := acquire_eq_some h
    exact work_owner hpc rfl rfl hsame le_rfl (Nat.le_refl _)
  case stoppingLocked =>
    cases h
    refine work_owner hpc rfl rfl (sumOf_condBroadcast s.workers) le_rfl ?_
    show n - 0 + 1 + 3 * n + 1 ≤ 4 * n + 2 + 0
    omega
  case joining index =>
    split at h
    · split at h
      · cases h
        refine work_owner hpc rfl rfl hsame le_rfl ?_
        show n - (index + 1) + 1 + 0 + 1 ≤ n - index + 1 + 0
        omega
      · cases h
    · cases h
      refine work_owner hpc rfl rfl hsame (Nat.zero_le _) ?_
      show 0 + 0 + 1 ≤ n - index + 1 + 0
      omega
  case destroyed => cases h

/-- **Every step is paid for.** -/
theorem PoolOk.work_step (hs : s.PoolOk) {a : PoolAction n k} (h : s.step a = some s') :
    s'.work + 1 ≤ s.work + a.cost := by
  have hsame : sumOf WorkerPc.rank s.workers ≤ sumOf WorkerPc.rank s.workers + 0 := le_rfl
  cases a with
  | owner ok => exact work_owner_step h
  | caller j woken => exact work_caller_step h
  | worker i => exact hs.work_worker_step h
  | destroy =>
    rw [SharedPool.step] at h
    split at h
    · rename_i hrunning
      cases h
      refine work_owner hrunning.1 rfl rfl hsame le_rfl ?_
      show (if s.pool.workers then OwnerPc.stopping else .running).rank n + 0 + 1 ≤
        0 + (4 * n + 4)
      split
      · exact Nat.le_of_eq (Nat.zero_add _).symm
      · show 0 + 0 + 1 ≤ _
        omega
    · cases h
  | accept j clientFd =>
    rw [SharedPool.step] at h
    split at h
    · rename_i hrunning
      cases h
      refine work_caller_alone hrunning.2 rfl rfl rfl rfl ?_
      show 3 * n + 7 + 1 ≤ 0 + (3 * n + 8)
      omega
    · cases h
  | shutdown j =>
    rw [SharedPool.step] at h
    split at h
    · rename_i hrunning
      cases h
      refine work_caller_alone hrunning.2 rfl rfl rfl rfl ?_
      show (if s.pool.workers then CallerPc.stopping else .idle).rank n + 1 ≤ 0 + (3 * n + 3)
      split
      · exact Nat.le_of_eq (Nat.zero_add _).symm
      · show 0 + 1 ≤ _
        omega
    · cases h
  | wake i =>
    rw [SharedPool.step] at h
    split at h
    · rename_i hpc
      cases h
      exact work_worker_alone hpc rfl rfl rfl rfl (Nat.le_refl _)
    · cases h

/-! ### The workers are there -/

/-- Once the pool has started, every worker was created. -/
def PresentOk (s : SharedPool n k capacity) : Prop :=
  s.owner.isStarting = false → ∀ i, s.workers i ≠ .absent

/-- The pool had started already. -/
theorem PresentOk.of_workers (hp : s.PresentOk) (howner : s'.owner.isStarting = s.owner.isStarting)
    (hworkers : ∀ i, s'.workers i = .absent → s.workers i = .absent) : s'.PresentOk := by
  intro hstarted i hi
  rw [howner] at hstarted
  exact hp hstarted i (hworkers i hi)

/-- The pool has not started. -/
theorem PresentOk.of_starting (howner : s'.owner.isStarting = true) : s'.PresentOk := by
  intro hstarted
  rw [howner] at hstarted
  cases hstarted

theorem PresentOk.step (hc : s.StartOk) (hp : s.PresentOk) (h : s.Step s') : s'.PresentOk := by
  cases h with
  | lock | wait | check | sleep | exit | dequeue | handle | close | wake =>
    exact hp.of_workers rfl fun i hi => of_update hi nofun
  | submit | stop => exact hp.of_workers rfl fun i hi => of_condWake hi nofun
  | initFail | init | create | createFail | broadcast | failJoin | fail => exact .of_starting rfl
  | @created index hpc hle =>
    have hcreated := hc.created
    rw [hpc] at hcreated
    exact fun _ i => hcreated i (i.isLt.trans_le hle)
  | destroy hpc _ hnext =>
    refine hp.of_workers ?_ fun i => id
    rw [hpc]
    rcases hnext with rfl | rfl <;> rfl
  | lockDestroy hpc => exact hp.of_workers (by rw [hpc]; rfl) fun i => id
  | stopDestroy hpc => exact hp.of_workers (by rw [hpc]; rfl) fun i hi => of_condWake hi nofun
  | join hpc => exact hp.of_workers (by rw [hpc]; rfl) fun i => id
  | destroyed hpc => exact hp.of_workers (by rw [hpc]; rfl) fun i => id
  | _ => exact hp

/-! ### Where the threads rest -/

/-- What every step keeps, with the workers. -/
structure TeamOk (s : SharedPool n k capacity) : Prop extends s.CleanOk where
  present : s.PresentOk

theorem teamOk_start (n k capacity : ℕ) : (start n k capacity).TeamOk :=
  ⟨cleanOk_start n k capacity, .of_starting rfl⟩

theorem TeamOk.step (hs : s.TeamOk) (h : s.Step s') : s'.TeamOk :=
  ⟨hs.toCleanOk.step h, hs.present.step hs.start h⟩

theorem TeamOk.run (hs : s.TeamOk) {actions : List (PoolAction n k)}
    (h : s.run actions = some s') : s'.TeamOk :=
  run_keeps (fun _ _ => TeamOk.step) hs h

/-- The work pays for the steps. -/
theorem work_pays : Pays (@step n k capacity) PoolAction.cost TeamOk work :=
  ⟨fun hs h => hs.step (step_cases h), fun hs h => hs.pool.work_step h⟩

theorem run_eq_run (s : SharedPool n k capacity) (actions : List (PoolAction n k)) :
    s.run actions = Potential.run step s actions := by
  induction actions generalizing s with
  | nil => rfl
  | cons a actions ih =>
    rw [SharedPool.run, Potential.run]
    cases s.step a with
    | none => rfl
    | some s₁ => exact ih s₁

/-- No thread can go on by itself. -/
def Resting (s : SharedPool n k capacity) : Prop := AtRest step PoolAction.cost s

/-- All that was asked of the pool is done. -/
structure Settled (s : SharedPool n k capacity) : Prop where
  mutex : s.mutex = none
  /-- Every call has returned, -/
  callers : ∀ j, s.callers j = .idle
  /-- and so have `thread_pool_init` and `thread_pool_destroy`, but for a `thread_pool_init` that
  joins a worker which sleeps. -/
  owner : s.owner = .running ∨ s.owner = .failed ∨ s.owner = .destroyed ∨
    ∃ index i, s.owner = .failJoining (index + 1) ∧ i.val = index ∧ s.workers i = .asleep
  /-- The workers sleep, or have left. -/
  workers : ∀ i, s.workers i = .asleep ∨ s.workers i = .exited ∨
    s.owner.isStarting = true ∧ s.workers i = .absent
  stopped : s.stops ≠ [] → ∀ i, s.workers i = .exited
  /-- No job waits, -/
  size : s.pool.size = 0
  /-- and every connection is handled, and closed. -/
  handled : (s.handled.map Service.job).Perm (List.range s.accepted.length)
  closed : (s.closed.map Service.job).Perm (List.range s.accepted.length)
  refused : (s.closedRefused.map Prod.fst).Perm (List.range s.refused.length)

theorem TeamOk.not_holds (hs : s.TeamOk) (hrest : s.Resting) (t : ThreadId n k) :
    s.holds t = false := by
  refine Bool.eq_false_iff.mpr fun ht => ?_
  cases t with
  | owner =>
    have hstep : s.ownerStep true = none := hrest (.owner true) rfl
    change s.owner.isLocked = true at ht
    unfold ownerStep at hstep
    cases hpc : s.owner with
    | stoppingLocked =>
      rw [hpc] at hstep
      cases hstep
    | _ =>
      rw [hpc] at ht
      cases ht
  | caller j =>
    obtain ⟨woken, s', hstep⟩ := hs.pool.caller_goes_on ht
    exact absurd (hstep.symm.trans (hrest (.caller j woken) rfl)) nofun
  | worker i =>
    obtain ⟨s', hstep⟩ := hs.pool.worker_goes_on ht
    exact absurd (hstep.symm.trans (hrest (.worker i) rfl)) nofun

theorem TeamOk.mutex_free (hs : s.TeamOk) (hrest : s.Resting) : s.mutex = none := by
  cases hmutex : s.mutex with
  | none => rfl
  | some t =>
    have ht := hs.held t hmutex
    rw [hs.not_holds hrest t] at ht
    cases ht

theorem TeamOk.resting_caller (hs : s.TeamOk) (hrest : s.Resting) (j : Fin k) :
    s.callers j = .idle := by
  have hstep : s.callerStep j ∅ = none := hrest (.caller j ∅) rfl
  have hfree := hs.mutex_free hrest
  have hlocked : (s.callers j).isLocked = false := hs.not_holds hrest (.caller j)
  unfold callerStep at hstep
  cases hpc : s.callers j <;> rw [hpc] at hstep hlocked
  case submitting clientFd => exact absurd (hstep.symm.trans (if_pos hfree)) nofun
  case deciding clientFd => cases hlocked
  case refused number clientFd => cases hstep
  case stopping => exact absurd (hstep.symm.trans (if_pos hfree)) nofun
  case stoppingLocked => cases hlocked

theorem TeamOk.resting_worker (hs : s.TeamOk) (hrest : s.Resting) (i : Fin n) :
    s.workers i = .asleep ∨ s.workers i = .exited ∨
      s.owner.isStarting = true ∧ s.workers i = .absent := by
  have hstep : s.workerStep i = none := hrest (.worker i) rfl
  have hfree := hs.mutex_free hrest
  have hlocked : (s.workers i).isLocked = false := hs.not_holds hrest (.worker i)
  unfold workerStep at hstep
  cases hpc : s.workers i <;> rw [hpc] at hstep hlocked
  case absent =>
    refine .inr (.inr ⟨?_, rfl⟩)
    by_contra hstarted
    exact hs.present (Bool.eq_false_iff.mpr hstarted) i hpc
  case locking => exact absurd (hstep.symm.trans (if_pos hfree)) nofun
  case testing => cases hlocked
  case waiting => cases hlocked
  case asleep => exact .inl rfl
  case waking => exact absurd (hstep.symm.trans (if_pos hfree)) nofun
  case checking => cases hlocked
  case handling job clientFd => cases hstep
  case closing job clientFd => cases hstep
  case exited => exact .inr (.inl rfl)

/-- After the stop a worker that rests has left. -/
theorem TeamOk.resting_stopped (hs : s.TeamOk) (hrest : s.Resting) (hstops : s.stops ≠ [])
    (i : Fin n) : s.workers i = .exited := by
  rcases hs.resting_worker hrest i with hasleep | hexited | ⟨hstarting, -⟩
  · exact absurd hasleep (hs.pool.wake.stopped hstops i).1
  · exact hexited
  · -- nobody stops a pool that has not started
    have hok := hs.pool.wake.phase.owner
    cases hpc : s.owner <;> rw [hpc] at hok hstarting
    case starting => exact absurd hok.1 hstops
    case creating => exact absurd hok.2.1 hstops
    case failing => exact absurd hok.1 hstops
    case failJoining => exact absurd hok.1 hstops
    case failed => exact absurd hok.1 hstops
    all_goals cases hstarting

theorem TeamOk.resting_owner (hs : s.TeamOk) (hrest : s.Resting) :
    s.owner = .running ∨ s.owner = .failed ∨ s.owner = .destroyed ∨
      ∃ index i, s.owner = .failJoining (index + 1) ∧ i.val = index ∧ s.workers i = .asleep := by
  have hstep : s.ownerStep true = none := hrest (.owner true) rfl
  have hfree := hs.mutex_free hrest
  have hlocked : s.owner.isLocked = false := hs.not_holds hrest .owner
  have hok := hs.pool.wake.phase.owner
  unfold ownerStep at hstep
  cases hpc : s.owner <;> rw [hpc] at hstep hlocked hok <;> dsimp only at hstep
  case starting => split at hstep <;> cases hstep
  case creating index =>
    split at hstep
    · rw [if_pos rfl] at hstep
      cases hstep
    · cases hstep
  case failing index => cases hstep
  case failJoining index =>
    cases index with
    | zero => cases hstep
    | succ index =>
      have hle := hs.start.le
      have hcreated := hs.start.created
      rw [hpc] at hle hcreated
      have hlt : index < n := hle
      dsimp only at hstep
      rw [dif_pos hlt] at hstep
      -- the worker it joins was created, and has not exited
      rcases hs.resting_worker hrest ⟨index, hlt⟩ with hasleep | hexited | ⟨-, habsent⟩
      · exact .inr (.inr (.inr ⟨index, ⟨index, hlt⟩, rfl, rfl, hasleep⟩))
      · rw [if_pos hexited] at hstep
        cases hstep
      · exact absurd habsent (hcreated _ (Nat.lt_succ_self index))
  case failed => exact .inr (.inl rfl)
  case running => exact .inl rfl
  case stopping => exact absurd (hstep.symm.trans (if_pos hfree)) nofun
  case stoppingLocked => cases hlocked
  case joining index =>
    split at hstep
    · rw [if_pos (hs.resting_stopped hrest hok.1.2 _)] at hstep
      cases hstep
    · cases hstep
  case destroyed => exact .inr (.inr (.inl rfl))

/-- No job waits for a worker that rests. -/
theorem TeamOk.resting_size (hs : s.TeamOk) (hrest : s.Resting) : s.pool.size = 0 := by
  have hnone : countOf WorkerPc.isLooking s.workers = 0 := by
    apply countOf_eq_zero
    intro i
    rcases hs.resting_worker hrest i with hi | hi | ⟨-, hi⟩ <;> rw [hi] <;> rfl
  cases hstarting : s.owner.isStarting with
  | true => exact hs.start.size hstarting
  | false =>
    have hpos : 0 < n := by
      rcases hs.resting_owner hrest with hpc | hpc | hpc | ⟨index, i, -, -, -⟩
      · exact (hs.pool.wake.phase.alive (by rw [hpc]; rfl)).2.2.1
      · rw [hpc] at hstarting
        cases hstarting
      · have hok := hs.pool.wake.phase.owner
        rw [hpc] at hok
        exact hok.1
      · exact i.pos
    rcases hs.resting_worker hrest ⟨0, hpos⟩ with hasleep | hexited | ⟨-, habsent⟩
    · exact Nat.le_zero.mp (hnone ▸ hs.pool.wake.awake ⟨_, hasleep⟩)
    · exact (hs.pool.wake.exited _ hexited).1
    · exact absurd habsent (hs.present hstarting _)

/-- **Where the threads rest, all that was asked of the pool is done.** -/
theorem TeamOk.settled (hs : s.TeamOk) (hrest : s.Resting) : s.Settled := by
  have hworker : ∀ job i, WorkerPc.isHandling job (s.workers i) = false ∧
      WorkerPc.isClosing job (s.workers i) = false := by
    intro job i
    rcases hs.resting_worker hrest i with hi | hi | ⟨-, hi⟩ <;> rw [hi] <;> exact ⟨rfl, rfl⟩
  have hsize := hs.resting_size hrest
  have hlength := hs.pool.queue.size
  rw [hsize, Nat.add_zero] at hlength
  have hhandled := hs.pool.service.handled.perm fun job i => (hworker job i).1
  have hclosed := hs.pool.service.closed.perm fun job i => (hworker job i).2
  rw [hs.pool.queue.numbers, ← hlength] at hhandled
  exact ⟨hs.mutex_free hrest, hs.resting_caller hrest, hs.resting_owner hrest,
    hs.resting_worker hrest, hs.resting_stopped hrest, hsize, hhandled, hclosed.trans hhandled,
    hs.pool.refusal.closed.perm fun number j => by rw [hs.resting_caller hrest j]; rfl⟩

end SharedPool

/-! ### The calls of the owner -/

/-- `thread_pool_destroy` was called. -/
def OwnerPc.isDestroying : OwnerPc → Bool
  | .stopping | .stoppingLocked | .joining _ | .destroyed => true
  | _ => false

namespace SharedPool

variable {n k capacity : ℕ} {s s' : SharedPool n k capacity}

/-- The call goes on. -/
theorem Step.isDestroying (h : s.Step s') (hs : s.owner.isDestroying = true) :
    s'.owner.isDestroying = true := by
  cases h with
  | initFail hpc | init hpc | create hpc | createFail hpc | created hpc | broadcast hpc
  | failJoin hpc | fail hpc | destroy hpc =>
    rw [hpc] at hs
    cases hs
  | lockDestroy | stopDestroy | join | destroyed => rfl
  | _ => exact hs

theorem Settled.destroyed (hs : s.Settled) (hpc : s.owner.isDestroying = true) :
    s.owner = .destroyed := by
  rcases hs.owner with h | h | h | ⟨index, i, h, -, -⟩ <;> rw [h] at hpc ⊢ <;> cases hpc

end SharedPool

open SharedPool

/-- **The threads of the pool do not spin.**  A run is at most as long as what came in from outside
pays for: `3 n + 8` steps for a connection, `3 n + 3` for a call of `thread_pool_shutdown`,
`4 n + 4` for `thread_pool_destroy`, 4 for a wake-up without a signal, and `8 n + 4` for the
start. -/
theorem thread_pool_steps_le {n k capacity : ℕ} {actions : List (PoolAction n k)}
    {s : SharedPool n k capacity} (h : (start n k capacity).run actions = some s) :
    s.work + actions.length ≤ 8 * n + 4 + (actions.map PoolAction.cost).sum := by
  rw [run_eq_run] at h
  rw [← work_start n k capacity]
  exact work_pays.length_le (teamOk_start n k capacity) h

theorem thread_pool_steps_le_full_queue :
    ∃ s, (start 1 1 1).run fullQueueRun = some s ∧
      s.work + fullQueueRun.length ≤ 8 * 1 + 4 + (fullQueueRun.map PoolAction.cost).sum := by
  have hrun : ((start 1 1 1).run fullQueueRun).isSome = true := by decide
  obtain ⟨s, hs⟩ := Option.isSome_iff_exists.mp hrun
  exact ⟨s, hs, thread_pool_steps_le hs⟩

/-- **The pool comes to rest, with everything done.**  From every state that a run reaches, the
threads go on by themselves, in any order, for at most `work` steps; where they cannot go on, every
call has returned and every connection is closed, and `thread_pool_destroy` has returned if it was
called. -/
theorem thread_pool_comes_to_rest {n k capacity : ℕ} {actions : List (PoolAction n k)}
    {s : SharedPool n k capacity} (h : (start n k capacity).run actions = some s) :
    (∃ own s', Leads step PoolAction.cost s own s' ∧ s'.Resting) ∧
    ∀ own s', Leads step PoolAction.cost s own s' → own.length ≤ s.work ∧
      (s'.Resting → s'.Settled ∧ (s.owner.isDestroying = true → s'.owner = .destroyed)) := by
  have hs := (teamOk_start n k capacity).run h
  refine ⟨work_pays.comes_to_rest hs, fun own s' hleads => ⟨?_, fun hrest => ?_⟩⟩
  · exact le_of_add_le_right (work_pays.length_le_of_own hs hleads)
  · have hrun := (run_eq_run s own).trans hleads.run
    have hsettled := (hs.run hrun).settled hrest
    exact ⟨hsettled, fun hpc => hsettled.destroyed
      (run_keeps (fun _ _ hpc h => h.isDestroying hpc) hpc hrun)⟩

/-- A connection waits in the queue when the pool is destroyed. -/
def waitingRun : List (PoolAction 1 1) :=
  let first : Fin 1 := ⟨0, Nat.one_pos⟩
  List.replicate 3 (PoolAction.owner true) ++
  ([.accept first 5, .caller first ∅, .caller first ∅, .destroy] : List (PoolAction 1 1))

theorem thread_pool_comes_to_rest_waiting :
    ∃ s s', (start 1 1 1).run waitingRun = some s ∧ s.closed = [] ∧
      (∃ own, Leads step PoolAction.cost s own s') ∧ s'.owner = .destroyed ∧
      (s'.closed.map Service.job).Perm (List.range s'.accepted.length) := by
  have hrun : ((start 1 1 1).run waitingRun).map (fun s => (s.owner, s.closed)) =
      some (.stopping, []) := by
    decide
  obtain ⟨s, hs, heq⟩ := Option.map_eq_some_iff.mp hrun
  obtain ⟨howner, hclosed⟩ := Prod.mk.inj heq
  obtain ⟨⟨own, s', hleads, hrest⟩, hall⟩ := thread_pool_comes_to_rest hs
  obtain ⟨hsettled, hdestroyed⟩ := (hall own s' hleads).2 hrest
  exact ⟨s, s', hs, hclosed, ⟨own, hleads⟩, hdestroyed (by rw [howner]; rfl), hsettled.closed⟩

end MiniDbms
