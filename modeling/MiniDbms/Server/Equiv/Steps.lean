import MiniDbms.Server.ThreadPool

/-!
# The steps of the thread pool

`SharedPool.Step` lists what a step does, with what it relies on (`step_cases`).  The invariants of
the other modules are shown by cases on it.

Two of them are here.  One thread at a time is where it holds the mutex (`LockOk`), and it is known
what the place of the owner says about the other threads and about the flag (`PhaseOk`).
-/

namespace MiniDbms

namespace SharedPool

variable {n k capacity : ℕ}

/-- The steps. -/
inductive Step (s : SharedPool n k capacity) : SharedPool n k capacity → Prop
  | lock {i : Fin n} (pc : s.workers i = .locking ∨ s.workers i = .waking)
    (free : s.mutex = none) :
    Step s { s.setWorker i .testing with mutex := some (.worker i) }
  | wait {i : Fin n} (pc : s.workers i = .testing) (test : s.pool.mustWait = true) :
    Step s (s.setWorker i .waiting)
  | check {i : Fin n} (pc : s.workers i = .testing) (test : s.pool.mustWait = false) :
    Step s (s.setWorker i .checking)
  | sleep {i : Fin n} (pc : s.workers i = .waiting) :
    Step s { s.setWorker i .asleep with mutex := none }
  | exit {i : Fin n} (pc : s.workers i = .checking) (test : s.pool.mustBreak = true) :
    Step s { s.setWorker i .exited with mutex := none }
  | dequeue {i : Fin n} {clientFd : ℤ} {pool : ThreadPool capacity}
    (pc : s.workers i = .checking) (test : s.pool.mustBreak = false)
    (job : s.pool.dequeue = some (clientFd, pool)) :
    Step s { s.setWorker i (.handling s.dequeued.length clientFd) with
      pool := pool
      mutex := none
      dequeued := s.dequeued ++ [⟨i, s.dequeued.length, clientFd⟩] }
  | handle {i : Fin n} {job : ℕ} {clientFd : ℤ} (pc : s.workers i = .handling job clientFd) :
    Step s { s.setWorker i (.closing job clientFd) with
      handled := if s.pool.handler then s.handled ++ [⟨i, job, clientFd⟩] else s.handled }
  | close {i : Fin n} {job : ℕ} {clientFd : ℤ} (pc : s.workers i = .closing job clientFd) :
    Step s { s.setWorker i .locking with closed := s.closed ++ [⟨i, job, clientFd⟩] }
  | wake {i : Fin n} (pc : s.workers i = .asleep) : Step s (s.setWorker i .waking)
  | accept {j : Fin k} {clientFd : ℤ} (running : s.owner = .running) (pc : s.callers j = .idle) :
    Step s (s.setCaller j (.submitting clientFd))
  | shutdown {j : Fin k} {pc' : CallerPc} (running : s.owner = .running)
    (pc : s.callers j = .idle) (next : pc' = .stopping ∨ pc' = .idle) : Step s (s.setCaller j pc')
  | lockSubmit {j : Fin k} {clientFd : ℤ} (pc : s.callers j = .submitting clientFd)
    (free : s.mutex = none) :
    Step s { s.setCaller j (.deciding clientFd) with mutex := some (.caller j) }
  | submit {j : Fin k} {clientFd : ℤ} {pool : ThreadPool capacity} {woken : Finset (Fin n)}
    (pc : s.callers j = .deciding clientFd) (test : s.pool.accepts = true)
    (job : s.pool.enqueue clientFd = some pool)
    (signal : (∃ i, s.workers i = .asleep) → ∃ i ∈ woken, s.workers i = .asleep) :
    Step s { s.setCaller j .idle with
      pool := pool
      workers := condWake s.workers woken
      mutex := none
      submits := s.submits ++ [s.submitted clientFd true]
      accepted := s.accepted ++ [clientFd] }
  | refuse {j : Fin k} {clientFd : ℤ} (pc : s.callers j = .deciding clientFd)
    (test : s.pool.accepts = false) :
    Step s { s.setCaller j (.refused s.refused.length clientFd) with
      mutex := none
      submits := s.submits ++ [s.submitted clientFd false]
      refused := s.refused ++ [clientFd] }
  | closeRefused {j : Fin k} {number : ℕ} {clientFd : ℤ}
    (pc : s.callers j = .refused number clientFd) :
    Step s { s.setCaller j .idle with
      closedRefused := s.closedRefused ++ [(number, clientFd)] }
  | lockStop {j : Fin k} (pc : s.callers j = .stopping) (free : s.mutex = none) :
    Step s { s.setCaller j .stoppingLocked with mutex := some (.caller j) }
  | stop {j : Fin k} (pc : s.callers j = .stoppingLocked) :
    Step s { s.setCaller j .idle with
      pool := { s.pool with stopRequested := true }
      workers := condBroadcast s.workers
      mutex := none
      stops := s.stops ++ [s.clock] }
  | initFail (pc : s.owner = .starting) : Step s (s.setOwner .failed)
  | init (pc : s.owner = .starting) (workers_pos : 0 < n) (capacity_pos : 0 < capacity) :
    Step s { s.setOwner (.creating 0) with pool := .init capacity }
  | create {index : ℕ} (pc : s.owner = .creating index) (lt : index < n) :
    Step s { s.setOwner (.creating (index + 1)) with
      workers := Function.update s.workers ⟨index, lt⟩ .locking }
  | createFail {index : ℕ} (pc : s.owner = .creating index) :
    Step s { s.setOwner (.failing index) with pool := { s.pool with stopRequested := true } }
  | created {index : ℕ} (pc : s.owner = .creating index) (le : n ≤ index) :
    Step s (s.setOwner .running)
  | broadcast {index : ℕ} (pc : s.owner = .failing index) :
    Step s { s.setOwner (.failJoining index) with workers := condBroadcast s.workers }
  | failJoin {index : ℕ} (pc : s.owner = .failJoining (index + 1)) (lt : index < n)
    (exited : s.workers ⟨index, lt⟩ = .exited) : Step s (s.setOwner (.failJoining index))
  | fail (pc : s.owner = .failJoining 0) :
    Step s { s.setOwner .failed with pool := { s.pool with workers := false, jobs := none } }
  | destroy {pc' : OwnerPc} (pc : s.owner = .running) (idle : ∀ j, s.callers j = .idle)
    (next : pc' = .stopping ∨ pc' = .running) : Step s (s.setOwner pc')
  | lockDestroy (pc : s.owner = .stopping) (free : s.mutex = none) :
    Step s { s.setOwner .stoppingLocked with mutex := some .owner }
  | stopDestroy (pc : s.owner = .stoppingLocked) :
    Step s { s.setOwner (.joining 0) with
      pool := { s.pool with stopRequested := true }
      workers := condBroadcast s.workers
      mutex := none
      stops := s.stops ++ [s.clock] }
  | join {index : ℕ} (pc : s.owner = .joining index) (lt : index < n)
    (exited : s.workers ⟨index, lt⟩ = .exited) : Step s (s.setOwner (.joining (index + 1)))
  | destroyed {index : ℕ} (pc : s.owner = .joining index) (le : n ≤ index) :
    Step s { s.setOwner .destroyed with pool := .zero capacity }

variable {s s' : SharedPool n k capacity}

/-- The mutex is taken only when it is free. -/
theorem acquire_eq_some {t : ThreadId n k} {s₁ : SharedPool n k capacity}
    (h : acquire t s₁ = some s') : s₁.mutex = none ∧ s' = { s₁ with mutex := some t } := by
  unfold acquire at h
  split at h
  · rename_i hfree
    cases h
    exact ⟨hfree, rfl⟩
  · cases h

theorem workerStep_cases {i : Fin n} (h : s.workerStep i = some s') : s.Step s' := by
  unfold workerStep at h
  split at h
  · cases h
  · rename_i hpc
    obtain ⟨hfree, rfl⟩ := acquire_eq_some h
    exact .lock (Or.inl hpc) hfree
  · rename_i hpc
    cases h
    cases htest : s.pool.mustWait with
    | true => exact .wait hpc htest
    | false => exact .check hpc htest
  · rename_i hpc
    cases h
    exact .sleep hpc
  · cases h
  · rename_i hpc
    obtain ⟨hfree, rfl⟩ := acquire_eq_some h
    exact .lock (Or.inr hpc) hfree
  · rename_i hpc
    cases htest : s.pool.mustBreak with
    | true =>
      rw [if_pos htest] at h
      cases h
      exact .exit hpc htest
    | false =>
      rw [if_neg (by rw [htest]; exact Bool.false_ne_true)] at h
      obtain ⟨⟨clientFd, pool⟩, hjob, h⟩ := Option.bind_eq_some_iff.mp h
      cases h
      exact .dequeue hpc htest hjob
  · rename_i hpc
    cases h
    exact .handle hpc
  · rename_i hpc
    cases h
    exact .close hpc
  · cases h

theorem callerStep_cases {j : Fin k} {woken : Finset (Fin n)}
    (h : s.callerStep j woken = some s') : s.Step s' := by
  unfold callerStep at h
  split at h
  · cases h
  · rename_i hpc
    obtain ⟨hfree, rfl⟩ := acquire_eq_some h
    exact .lockSubmit hpc hfree
  · rename_i hpc
    cases htest : s.pool.accepts with
    | true =>
      rw [if_pos htest] at h
      obtain ⟨pool, hjob, h⟩ := Option.bind_eq_some_iff.mp h
      obtain ⟨workers, hsignal, h⟩ := Option.bind_eq_some_iff.mp h
      unfold condSignal at hsignal
      split at hsignal
      · rename_i hwoken
        cases hsignal
        cases h
        exact .submit hpc htest hjob hwoken
      · cases hsignal
    | false =>
      rw [if_neg (by rw [htest]; exact Bool.false_ne_true)] at h
      cases h
      exact .refuse hpc htest
  · rename_i hpc
    cases h
    exact .closeRefused hpc
  · rename_i hpc
    obtain ⟨hfree, rfl⟩ := acquire_eq_some h
    exact .lockStop hpc hfree
  · rename_i hpc
    cases h
    exact .stop hpc

theorem ownerStep_cases {ok : Bool} (h : s.ownerStep ok = some s') : s.Step s' := by
  unfold ownerStep at h
  split at h
  · rename_i hpc
    split at h
    · cases h
      exact .initFail hpc
    · rename_i hok
      cases h
      exact .init hpc (by omega) (by omega)
  · rename_i hpc
    split at h
    · rename_i hlt
      split at h
      · cases h
        exact .create hpc hlt
      · cases h
        exact .createFail hpc
    · rename_i hle
      cases h
      exact .created hpc (Nat.le_of_not_lt hle)
  · rename_i hpc
    cases h
    exact .broadcast hpc
  · rename_i hpc
    cases h
    exact .fail hpc
  · rename_i hpc
    split at h
    · rename_i hlt
      split at h
      · rename_i hexited
        cases h
        exact .failJoin hpc hlt hexited
      · cases h
    · cases h
  · cases h
  · cases h
  · rename_i hpc
    obtain ⟨hfree, rfl⟩ := acquire_eq_some h
    exact .lockDestroy hpc hfree
  · rename_i hpc
    cases h
    exact .stopDestroy hpc
  · rename_i hpc
    split at h
    · rename_i hlt
      split at h
      · rename_i hexited
        cases h
        exact .join hpc hlt hexited
      · cases h
    · rename_i hle
      cases h
      exact .destroyed hpc (Nat.le_of_not_lt hle)
  · cases h

/-- Every step is one of these. -/
theorem step_cases {a : PoolAction n k} (h : s.step a = some s') : s.Step s' := by
  cases a with
  | owner ok => exact ownerStep_cases h
  | caller j woken => exact callerStep_cases h
  | worker i => exact workerStep_cases h
  | destroy =>
    unfold step at h
    dsimp only at h
    split at h
    · rename_i hguard
      cases h
      refine .destroy hguard.1 hguard.2 ?_
      split
      · exact Or.inl rfl
      · exact Or.inr rfl
    · cases h
  | accept j clientFd =>
    unfold step at h
    dsimp only at h
    split at h
    · rename_i hguard
      cases h
      exact .accept hguard.1 hguard.2
    · cases h
  | shutdown j =>
    unfold step at h
    dsimp only at h
    split at h
    · rename_i hguard
      cases h
      refine .shutdown hguard.1 hguard.2 ?_
      split
      · exact Or.inl rfl
      · exact Or.inr rfl
    · cases h
  | wake i =>
    unfold step at h
    dsimp only at h
    split at h
    · rename_i hpc
      cases h
      exact .wake hpc
    · cases h

/-- Nothing leads back to the start. -/
theorem Step.starting (h : s.Step s') (hs : s'.owner = .starting) : s.owner = .starting := by
  cases h with
  | destroy _ _ hnext =>
    dsimp only [setOwner] at hs
    rcases hnext with rfl | rfl <;> cases hs
  | _ => first | exact hs | cases hs

/-- What every step keeps holds after every run. -/
theorem run_keeps {P : SharedPool n k capacity → Prop}
    (hstep : ∀ s s' : SharedPool n k capacity, P s → s.Step s' → P s')
    {actions : List (PoolAction n k)} (hs : P s) (h : s.run actions = some s') : P s' := by
  induction actions generalizing s with
  | nil =>
    cases h
    exact hs
  | cons a actions ih =>
    obtain ⟨s₁, hfirst, hrest⟩ := Option.bind_eq_some_iff.mp h
    exact ih (hstep _ _ hs (step_cases hfirst)) hrest

end SharedPool

/-! ### The ring under a step -/

namespace ThreadPool

variable {capacity : ℕ} {pool pool' : ThreadPool capacity}

theorem dequeue_eq_some {clientFd : ℤ} (h : pool.dequeue = some (clientFd, pool')) :
    ∃ jobs, pool.jobs = some jobs ∧ jobs.read pool.head = some ⟨clientFd⟩ ∧
      pool' = { pool with head := (pool.head + 1) % capacity, size := pool.size - 1 } := by
  obtain ⟨jobs, hjobs, h⟩ := Option.bind_eq_some_iff.mp h
  obtain ⟨job, hread, h⟩ := Option.bind_eq_some_iff.mp h
  cases h
  exact ⟨jobs, hjobs, hread, rfl⟩

theorem enqueue_eq_some {clientFd : ℤ} (h : pool.enqueue clientFd = some pool') :
    ∃ jobs jobs', pool.jobs = some jobs ∧ jobs.write pool.tail ⟨clientFd⟩ = some jobs' ∧
      pool' = { pool with
        jobs := some jobs', tail := (pool.tail + 1) % capacity, size := pool.size + 1 } := by
  obtain ⟨jobs, hjobs, h⟩ := Option.bind_eq_some_iff.mp h
  obtain ⟨jobs', hwrite, h⟩ := Option.bind_eq_some_iff.mp h
  cases h
  exact ⟨jobs, jobs', hjobs, hwrite, rfl⟩

end ThreadPool

/-- A signal changes sleepers only. -/
theorem condWake_of_ne {n : ℕ} {workers : Fin n → WorkerPc} (woken : Finset (Fin n)) {i : Fin n}
    (h : workers i ≠ .asleep) : condWake workers woken i = workers i :=
  if_neg fun hw => h hw.1

/-! ### The mutex -/

/-- The worker has the mutex. -/
def WorkerPc.isLocked : WorkerPc → Bool
  | .testing | .waiting | .checking => true
  | _ => false

/-- The caller has the mutex. -/
def CallerPc.isLocked : CallerPc → Bool
  | .deciding _ | .stoppingLocked => true
  | _ => false

/-- The owner has the mutex. -/
def OwnerPc.isLocked : OwnerPc → Bool
  | .stoppingLocked => true
  | _ => false

theorem isLocked_condWake {n : ℕ} (workers : Fin n → WorkerPc) (woken : Finset (Fin n))
    (i : Fin n) :
    (condWake workers woken i).isLocked = (workers i).isLocked := by
  unfold condWake
  split
  · rename_i hwoken
    rw [hwoken.1]
    rfl
  · rfl

namespace SharedPool

variable {n k capacity : ℕ} {s s' : SharedPool n k capacity}

/-- The thread is at a place where it has the mutex. -/
def holds (s : SharedPool n k capacity) : ThreadId n k → Bool
  | .owner => s.owner.isLocked
  | .caller j => (s.callers j).isLocked
  | .worker i => (s.workers i).isLocked

@[simp] theorem holds_owner (s : SharedPool n k capacity) : s.holds .owner = s.owner.isLocked := rfl

@[simp] theorem holds_caller (s : SharedPool n k capacity) (j : Fin k) :
    s.holds (.caller j) = (s.callers j).isLocked := rfl

@[simp] theorem holds_worker (s : SharedPool n k capacity) (i : Fin n) :
    s.holds (.worker i) = (s.workers i).isLocked := rfl

/-- Who is at such a place has the mutex. -/
def LockOk (s : SharedPool n k capacity) : Prop := ∀ t, s.holds t = true → s.mutex = some t

theorem LockOk.worker (hl : s.LockOk) {i : Fin n} (h : (s.workers i).isLocked = true) :
    s.mutex = some (.worker i) :=
  hl (.worker i) h

theorem LockOk.eq (hl : s.LockOk) {t t' : ThreadId n k} (ht : s.holds t = true)
    (ht' : s.holds t' = true) : t = t' :=
  Option.some.inj ((hl t ht).symm.trans (hl t' ht'))

/-- A step of thread `t`: what is to be shown. -/
theorem LockOk.of_step (hl : s.LockOk) (t : ThreadId n k)
    (hothers : ∀ t' ≠ t, s'.holds t' = true → s.holds t' = true)
    (hown : s'.holds t = true → s'.mutex = some t)
    (hmutex : s'.mutex = s.mutex ∨ s.mutex = none ∨ s.holds t = true) : s'.LockOk := by
  intro t' ht'
  by_cases heq : t' = t
  · subst heq
    exact hown ht'
  · have hheld := hl t' (hothers t' heq ht')
    rcases hmutex with hsame | hfree | hhad
    · rw [hsame]
      exact hheld
    · rw [hfree] at hheld
      cases hheld
    · exact absurd (hl.eq (hothers t' heq ht') hhad) heq

theorem LockOk.of_worker (hl : s.LockOk) {i : Fin n} {pc : WorkerPc}
    (hworkers : s'.workers = Function.update s.workers i pc) (hcallers : s'.callers = s.callers)
    (howner : s'.owner = s.owner) (hown : pc.isLocked = true → s'.mutex = some (.worker i))
    (hmutex : s'.mutex = s.mutex ∨ s.mutex = none ∨ (s.workers i).isLocked = true) :
    s'.LockOk := by
  apply hl.of_step (.worker i) _ _ hmutex
  · intro t ht
    cases t with
    | owner =>
      unfold holds
      rw [howner]
      exact id
    | caller j =>
      unfold holds
      rw [hcallers]
      exact id
    | worker i' =>
      have hne : i' ≠ i := fun heq => ht (by rw [heq])
      unfold holds
      rw [hworkers]
      dsimp only
      rw [Function.update_of_ne hne]
      exact id
  · unfold holds
    rw [hworkers]
    dsimp only
    rw [Function.update_self]
    exact hown

theorem LockOk.of_caller (hl : s.LockOk) {j : Fin k} {pc : CallerPc}
    (hcallers : s'.callers = Function.update s.callers j pc)
    (hworkers : ∀ i, (s'.workers i).isLocked = true → (s.workers i).isLocked = true)
    (howner : s'.owner = s.owner) (hown : pc.isLocked = true → s'.mutex = some (.caller j))
    (hmutex : s'.mutex = s.mutex ∨ s.mutex = none ∨ (s.callers j).isLocked = true) :
    s'.LockOk := by
  apply hl.of_step (.caller j) _ _ hmutex
  · intro t ht
    cases t with
    | owner =>
      unfold holds
      rw [howner]
      exact id
    | caller j' =>
      have hne : j' ≠ j := fun heq => ht (by rw [heq])
      unfold holds
      rw [hcallers]
      dsimp only
      rw [Function.update_of_ne hne]
      exact id
    | worker i => exact hworkers i
  · unfold holds
    rw [hcallers]
    dsimp only
    rw [Function.update_self]
    exact hown

theorem LockOk.of_owner (hl : s.LockOk) (hcallers : s'.callers = s.callers)
    (hworkers : ∀ i, (s'.workers i).isLocked = true → (s.workers i).isLocked = true)
    (hown : s'.owner.isLocked = true → s'.mutex = some .owner)
    (hmutex : s'.mutex = s.mutex ∨ s.mutex = none ∨ s.owner.isLocked = true) :
    s'.LockOk := by
  apply hl.of_step .owner _ hown hmutex
  intro t ht
  cases t with
  | owner => exact absurd rfl ht
  | caller j =>
    unfold holds
    rw [hcallers]
    exact id
  | worker i => exact hworkers i

/-- **Mutual exclusion.** -/
theorem LockOk.step (hl : s.LockOk) (h : s.Step s') : s'.LockOk := by
  have hwake : ∀ woken i, (condWake s.workers woken i).isLocked = true →
      (s.workers i).isLocked = true := by
    intro woken i hi
    rw [isLocked_condWake] at hi
    exact hi
  cases h with
  | lock hpc hfree => exact hl.of_worker rfl rfl rfl (fun _ => rfl) (.inr (.inl hfree))
  | wait hpc =>
    exact hl.of_worker rfl rfl rfl (fun _ => hl.worker (by rw [hpc]; rfl)) (.inl rfl)
  | check hpc =>
    exact hl.of_worker rfl rfl rfl (fun _ => hl.worker (by rw [hpc]; rfl)) (.inl rfl)
  | sleep hpc => exact hl.of_worker rfl rfl rfl nofun (.inr (.inr (by rw [hpc]; rfl)))
  | exit hpc => exact hl.of_worker rfl rfl rfl nofun (.inr (.inr (by rw [hpc]; rfl)))
  | dequeue hpc => exact hl.of_worker rfl rfl rfl nofun (.inr (.inr (by rw [hpc]; rfl)))
  | handle hpc => exact hl.of_worker rfl rfl rfl nofun (.inl rfl)
  | close hpc => exact hl.of_worker rfl rfl rfl nofun (.inl rfl)
  | wake hpc => exact hl.of_worker rfl rfl rfl nofun (.inl rfl)
  | accept _ hpc => exact hl.of_caller rfl (fun _ => id) rfl nofun (.inl rfl)
  | shutdown _ hpc hnext =>
    refine hl.of_caller rfl (fun _ => id) rfl ?_ (.inl rfl)
    rcases hnext with rfl | rfl <;> exact nofun
  | lockSubmit hpc hfree =>
    exact hl.of_caller rfl (fun _ => id) rfl (fun _ => rfl) (.inr (.inl hfree))
  | submit hpc => exact hl.of_caller rfl (hwake _) rfl nofun (.inr (.inr (by rw [hpc]; rfl)))
  | refuse hpc => exact hl.of_caller rfl (fun _ => id) rfl nofun (.inr (.inr (by rw [hpc]; rfl)))
  | closeRefused hpc => exact hl.of_caller rfl (fun _ => id) rfl nofun (.inl rfl)
  | lockStop hpc hfree =>
    exact hl.of_caller rfl (fun _ => id) rfl (fun _ => rfl) (.inr (.inl hfree))
  | stop hpc => exact hl.of_caller rfl (hwake _) rfl nofun (.inr (.inr (by rw [hpc]; rfl)))
  | create hpc hlt =>
    refine hl.of_owner rfl (fun i => ?_) nofun (.inl rfl)
    by_cases hi : i = ⟨_, hlt⟩
    · subst hi
      dsimp only
      rw [Function.update_self]
      exact nofun
    · dsimp only
      rw [Function.update_of_ne hi]
      exact id
  | broadcast hpc => exact hl.of_owner rfl (hwake _) nofun (.inl rfl)
  | destroy hpc _ hnext =>
    refine hl.of_owner rfl (fun _ => id) ?_ (.inl rfl)
    rcases hnext with rfl | rfl <;> exact nofun
  | lockDestroy hpc hfree =>
    exact hl.of_owner rfl (fun _ => id) (fun _ => rfl) (.inr (.inl hfree))
  | stopDestroy hpc => exact hl.of_owner rfl (hwake _) nofun (.inr (.inr (by rw [hpc]; rfl)))
  | _ => exact hl.of_owner rfl (fun _ => id) nofun (.inl rfl)

theorem lockOk_start (n k capacity : ℕ) : (start n k capacity).LockOk := by
  intro t ht
  cases t <;> cases ht

end SharedPool

/-! ### The place of the owner -/

/-- A worker that was not created, or that has exited. -/
def WorkerPc.isGone : WorkerPc → Bool
  | .absent | .exited => true
  | _ => false

/-- The owner is between the allocation of the pool and its release. -/
def OwnerPc.isAlive : OwnerPc → Bool
  | .starting | .failed | .destroyed => false
  | _ => true

/-- What the place of the owner says about the flag and the workers.  `stops` are the calls of
`thread_pool_shutdown`. -/
def OwnerPc.Ok {n : ℕ} (stop : Bool) (stops : List ℕ) (workers : Fin n → WorkerPc) : OwnerPc → Prop
  | .starting => stops = [] ∧ ∀ i, workers i = .absent
  | .creating index => stop = false ∧ stops = [] ∧ ∀ i : Fin n, index ≤ i → workers i = .absent
  | .failing index => stops = [] ∧ ∀ i : Fin n, index ≤ i → (workers i).isGone = true
  | .failJoining index => stops = [] ∧ ∀ i : Fin n, index ≤ i → (workers i).isGone = true
  | .failed => stops = [] ∧ ∀ i, (workers i).isGone = true
  | .running | .stopping | .stoppingLocked => stop = true ↔ stops ≠ []
  | .joining index =>
    (stop = true ∧ stops ≠ []) ∧ ∀ i : Fin n, i < index → workers i = .exited
  | .destroyed => 0 < n ∧ ∀ i, workers i = .exited

/-- Workers that are gone stay as they are. -/
theorem OwnerPc.Ok.of_workers {n : ℕ} {stop : Bool} {stops : List ℕ}
    {workers workers' : Fin n → WorkerPc} {pc : OwnerPc} (h : pc.Ok stop stops workers)
    (hgone : ∀ i, (workers i).isGone = true → workers' i = workers i) :
    pc.Ok stop stops workers' := by
  have habsent : ∀ i, workers i = .absent → workers' i = .absent := by
    intro i hi
    rw [hgone i (by rw [hi]; rfl), hi]
  have hexited : ∀ i, workers i = .exited → workers' i = .exited := by
    intro i hi
    rw [hgone i (by rw [hi]; rfl), hi]
  have hstay : ∀ i, (workers i).isGone = true → (workers' i).isGone = true := by
    intro i hi
    rw [hgone i hi]
    exact hi
  cases pc with
  | starting => exact ⟨h.1, fun i => habsent i (h.2 i)⟩
  | creating index => exact ⟨h.1, h.2.1, fun i hi => habsent i (h.2.2 i hi)⟩
  | failing index => exact ⟨h.1, fun i hi => hstay i (h.2 i hi)⟩
  | failJoining index => exact ⟨h.1, fun i hi => hstay i (h.2 i hi)⟩
  | failed => exact ⟨h.1, fun i => hstay i (h.2 i)⟩
  | running => exact h
  | stopping => exact h
  | stoppingLocked => exact h
  | joining index => exact ⟨h.1, fun i hi => hexited i (h.2 i hi)⟩
  | destroyed => exact ⟨h.1, fun i => hexited i (h.2 i)⟩

theorem isGone_condWake {n : ℕ} {workers : Fin n → WorkerPc} (woken : Finset (Fin n)) {i : Fin n}
    (h : (workers i).isGone = true) : condWake workers woken i = workers i := by
  apply condWake_of_ne
  intro hi
  rw [hi] at h
  cases h

namespace SharedPool

variable {n k capacity : ℕ} {s s' : SharedPool n k capacity}

/-- Callers are at work only while the pool runs. -/
structure PhaseOk (s : SharedPool n k capacity) : Prop where
  callers : ∀ j, s.callers j ≠ .idle → s.owner = .running
  alive : s.owner.isAlive = true →
    s.pool.handler = true ∧ s.pool.jobs.isSome = true ∧ 0 < n ∧ 0 < capacity
  owner : s.owner.Ok s.pool.stopRequested s.stops s.workers

/-- A step of a worker. -/
theorem PhaseOk.of_worker (hp : s.PhaseOk) {i : Fin n} {pc : WorkerPc}
    (hpc : (s.workers i).isGone = false) (hworkers : s'.workers = Function.update s.workers i pc)
    (hcallers : s'.callers = s.callers) (howner : s'.owner = s.owner)
    (hhandler : s'.pool.handler = s.pool.handler) (hjobs : s'.pool.jobs = s.pool.jobs)
    (hstop : s'.pool.stopRequested = s.pool.stopRequested) (hstops : s'.stops = s.stops) :
    s'.PhaseOk := by
  refine ⟨?_, ?_, ?_⟩
  · rw [hcallers, howner]
    exact hp.callers
  · rw [howner, hhandler, hjobs]
    exact hp.alive
  · rw [howner, hstop, hstops]
    apply hp.owner.of_workers
    intro i' hi'
    have hne : i' ≠ i := by
      rintro rfl
      rw [hpc] at hi'
      cases hi'
    rw [hworkers, Function.update_of_ne hne]

/-- A step of a caller that does not request the stop. -/
theorem PhaseOk.of_caller (hp : s.PhaseOk) (hrunning : s.owner = .running)
    (howner : s'.owner = s.owner) (hhandler : s'.pool.handler = s.pool.handler)
    (hjobs : s.pool.jobs.isSome = true → s'.pool.jobs.isSome = true)
    (hstop : s'.pool.stopRequested = s.pool.stopRequested) (hstops : s'.stops = s.stops) :
    s'.PhaseOk := by
  have howner' : s'.owner = .running := howner.trans hrunning
  have hok := hp.owner
  refine ⟨fun _ _ => howner', ?_, ?_⟩
  · rw [howner, hhandler]
    intro halive
    obtain ⟨hset, hsome, hpos⟩ := hp.alive halive
    exact ⟨hset, hjobs hsome, hpos⟩
  · rw [hrunning] at hok
    rw [howner', hstop, hstops]
    exact hok

/-- A step of the owner while no caller is at work. -/
theorem PhaseOk.of_owner (hp : s.PhaseOk) (hpc : s.owner ≠ .running)
    (hcallers : s'.callers = s.callers)
    (halive : s'.owner.isAlive = true →
      s'.pool.handler = true ∧ s'.pool.jobs.isSome = true ∧ 0 < n ∧ 0 < capacity)
    (hok : s'.owner.Ok s'.pool.stopRequested s'.stops s'.workers) : s'.PhaseOk := by
  refine ⟨fun j hj => ?_, halive, hok⟩
  rw [hcallers] at hj
  exact absurd (hp.callers j hj) hpc

/-- A step of the owner that leaves the pool there. -/
theorem PhaseOk.of_alive (hp : s.PhaseOk) {pc : OwnerPc} (hpc : s.owner = pc)
    (hrunning : pc ≠ .running) (halive : pc.isAlive = true) (hcallers : s'.callers = s.callers)
    (hhandler : s'.pool.handler = s.pool.handler) (hjobs : s'.pool.jobs = s.pool.jobs)
    (hok : s'.owner.Ok s'.pool.stopRequested s'.stops s'.workers) : s'.PhaseOk := by
  refine hp.of_owner (by rw [hpc]; exact hrunning) hcallers (fun _ => ?_) hok
  rw [hhandler, hjobs]
  exact hp.alive (by rw [hpc]; exact halive)

/-- One more thread is joined. -/
theorem forall_of_ne {P Q : Fin n → Prop} {index : ℕ} (hlt : index < n)
    (h : ∀ i : Fin n, (i : ℕ) ≠ index → Q i → P i) (hindex : P ⟨index, hlt⟩) (i : Fin n)
    (hi : Q i) : P i := by
  by_cases heq : (i : ℕ) = index
  · rw [show i = ⟨index, hlt⟩ from Fin.ext heq]
    exact hindex
  · exact h i heq hi

theorem PhaseOk.step (hp : s.PhaseOk) (h : s.Step s') : s'.PhaseOk := by
  have hok := hp.owner
  have hcaller : ∀ {j pc}, s.callers j = pc → pc ≠ .idle → s.owner = .running :=
    fun hpc hne => hp.callers _ (by rw [hpc]; exact hne)
  cases h with
  -- the workers: none of them is gone behind its step that was there before
  | lock hpc =>
    refine hp.of_worker ?_ rfl rfl rfl rfl rfl rfl rfl
    rcases hpc with hpc | hpc <;> rw [hpc] <;> rfl
  | wait hpc => exact hp.of_worker (by rw [hpc]; rfl) rfl rfl rfl rfl rfl rfl rfl
  | check hpc => exact hp.of_worker (by rw [hpc]; rfl) rfl rfl rfl rfl rfl rfl rfl
  | sleep hpc => exact hp.of_worker (by rw [hpc]; rfl) rfl rfl rfl rfl rfl rfl rfl
  | exit hpc => exact hp.of_worker (by rw [hpc]; rfl) rfl rfl rfl rfl rfl rfl rfl
  | dequeue hpc _ hjob =>
    obtain ⟨jobs, -, -, rfl⟩ := ThreadPool.dequeue_eq_some hjob
    exact hp.of_worker (by rw [hpc]; rfl) rfl rfl rfl rfl rfl rfl rfl
  | handle hpc => exact hp.of_worker (by rw [hpc]; rfl) rfl rfl rfl rfl rfl rfl rfl
  | close hpc => exact hp.of_worker (by rw [hpc]; rfl) rfl rfl rfl rfl rfl rfl rfl
  | wake hpc => exact hp.of_worker (by rw [hpc]; rfl) rfl rfl rfl rfl rfl rfl rfl
  | accept hrunning hpc => exact hp.of_caller hrunning rfl rfl id rfl rfl
  | shutdown hrunning hpc => exact hp.of_caller hrunning rfl rfl id rfl rfl
  | lockSubmit hpc => exact hp.of_caller (hcaller hpc nofun) rfl rfl id rfl rfl
  | submit hpc _ hjob =>
    obtain ⟨jobs, jobs', -, -, rfl⟩ := ThreadPool.enqueue_eq_some hjob
    exact hp.of_caller (hcaller hpc nofun) rfl rfl (fun _ => rfl) rfl rfl
  | refuse hpc => exact hp.of_caller (hcaller hpc nofun) rfl rfl id rfl rfl
  | closeRefused hpc => exact hp.of_caller (hcaller hpc nofun) rfl rfl id rfl rfl
  | lockStop hpc => exact hp.of_caller (hcaller hpc nofun) rfl rfl id rfl rfl
  | stop hpc =>
    have hrunning := hcaller hpc nofun
    refine ⟨fun _ _ => hrunning, hp.alive, ?_⟩
    show OwnerPc.Ok true (s.stops ++ [s.clock]) (condBroadcast s.workers) s.owner
    rw [hrunning]
    exact iff_of_true rfl (List.append_ne_nil_of_right_ne_nil _ (List.cons_ne_nil _ _))
  -- the owner: no caller is at work before the pool runs, or in its end
  | initFail hpc =>
    rw [hpc] at hok
    refine hp.of_owner (by rw [hpc]; exact nofun) rfl nofun ⟨hok.1, fun i => ?_⟩
    show (s.workers i).isGone = true
    rw [hok.2 i]
    rfl
  | init hpc hn hcapacity =>
    rw [hpc] at hok
    exact hp.of_owner (by rw [hpc]; exact nofun) rfl (fun _ => ⟨rfl, rfl, hn, hcapacity⟩)
      ⟨rfl, hok.1, fun i _ => hok.2 i⟩
  | @create index hpc hlt =>
    rw [hpc] at hok
    refine hp.of_alive hpc nofun rfl rfl rfl rfl ⟨hok.1, hok.2.1, fun i hi => ?_⟩
    have hne : i ≠ ⟨index, hlt⟩ := by
      rintro rfl
      exact absurd hi (Nat.not_succ_le_self index)
    dsimp only
    rw [Function.update_of_ne hne]
    exact hok.2.2 i (Nat.le_of_succ_le hi)
  | createFail hpc =>
    rw [hpc] at hok
    refine hp.of_alive hpc nofun rfl rfl rfl rfl ⟨hok.2.1, fun i hi => ?_⟩
    show (s.workers i).isGone = true
    rw [hok.2.2 i hi]
    rfl
  | created hpc =>
    rw [hpc] at hok
    refine hp.of_alive hpc nofun rfl rfl rfl rfl ?_
    show s.pool.stopRequested = true ↔ s.stops ≠ []
    rw [hok.1, hok.2.1]
    exact ⟨nofun, fun h => absurd rfl h⟩
  | broadcast hpc =>
    rw [hpc] at hok
    refine hp.of_alive hpc nofun rfl rfl rfl rfl ⟨hok.1, fun i hi => ?_⟩
    show (condWake s.workers Finset.univ i).isGone = true
    rw [isGone_condWake _ (hok.2 i hi)]
    exact hok.2 i hi
  | @failJoin index hpc hlt hexited =>
    rw [hpc] at hok
    -- the threads are joined from the last one on
    refine hp.of_alive hpc nofun rfl rfl rfl rfl
      ⟨hok.1, forall_of_ne hlt (fun i hne hi => hok.2 i (by omega)) ?_⟩
    show (s.workers ⟨index, hlt⟩).isGone = true
    rw [hexited]
    rfl
  | fail hpc =>
    rw [hpc] at hok
    exact hp.of_owner (by rw [hpc]; exact nofun) rfl nofun ⟨hok.1, fun i => hok.2 i (Nat.zero_le _)⟩
  | destroy hpc hidle hnext =>
    have halive := hp.alive
    rw [hpc] at hok halive
    refine ⟨fun j hj => absurd (hidle j) hj, fun _ => halive rfl, ?_⟩
    rcases hnext with rfl | rfl <;> exact hok
  | lockDestroy hpc =>
    rw [hpc] at hok
    exact hp.of_alive hpc nofun rfl rfl rfl rfl hok
  | stopDestroy hpc =>
    exact hp.of_alive hpc nofun rfl rfl rfl rfl
      ⟨⟨rfl, List.append_ne_nil_of_right_ne_nil _ (List.cons_ne_nil _ _)⟩,
        fun i hi => absurd hi (Nat.not_lt_zero _)⟩
  | @join index hpc hlt hexited =>
    rw [hpc] at hok
    exact hp.of_alive hpc nofun rfl rfl rfl rfl
      ⟨hok.1, forall_of_ne hlt (fun i hne hi => hok.2 i (by omega)) hexited⟩
  | destroyed hpc hle =>
    have halive := hp.alive
    rw [hpc] at hok halive
    exact hp.of_owner (by rw [hpc]; exact nofun) rfl nofun
      ⟨(halive rfl).2.2.1, fun i => hok.2 i (i.isLt.trans_le hle)⟩

theorem phaseOk_start (n k capacity : ℕ) : (start n k capacity).PhaseOk :=
  ⟨fun _ h => absurd rfl h, nofun, rfl, fun _ => rfl⟩

/-- While a worker is there, the owner has not released the pool. -/
theorem PhaseOk.isAlive (hp : s.PhaseOk) {i : Fin n} (hi : (s.workers i).isGone = false) :
    s.owner.isAlive = true := by
  have hok := hp.owner
  cases hpc : s.owner <;> rw [hpc] at hok
  case starting =>
    rw [hok.2 i] at hi
    cases hi
  case failed => exact absurd (hok.2 i) (by rw [hi]; exact Bool.false_ne_true)
  case destroyed =>
    rw [hok.2 i] at hi
    cases hi
  all_goals rfl

/-- Once `thread_pool_shutdown` was called, the flag is set, as long as a worker is there. -/
theorem PhaseOk.stopRequested (hp : s.PhaseOk) (hstops : s.stops ≠ []) {i : Fin n}
    (hi : (s.workers i).isGone = false) : s.pool.stopRequested = true := by
  have hok := hp.owner
  cases hpc : s.owner <;> rw [hpc] at hok
  case starting => exact absurd hok.1 hstops
  case creating => exact absurd hok.2.1 hstops
  case failing => exact absurd hok.1 hstops
  case failJoining => exact absurd hok.1 hstops
  case failed => exact absurd hok.1 hstops
  case running => exact hok.mpr hstops
  case stopping => exact hok.mpr hstops
  case stoppingLocked => exact hok.mpr hstops
  case joining => exact hok.1.1
  case destroyed =>
    rw [hok.2 i] at hi
    cases hi

end SharedPool

end MiniDbms
