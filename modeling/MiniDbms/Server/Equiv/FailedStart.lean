import MiniDbms.Server.Equiv.Progress

/-!
# A pool start that fails

When `pthread_create` fails, `thread_pool_init` sets `stop_requested` and broadcasts, both without
the mutex, and joins the workers it has started.  A worker that has tested the condition of its wait
loop before the flag was set, and is not asleep yet at the broadcast, goes to sleep after it, and
nobody wakes it.  `thread_pool_init_cleans_up_iff` says that this is the only way in which the
clean-up can fail.
-/

namespace MiniDbms

/-! ### While the pool starts -/

/-- `thread_pool_init` has not returned, or has returned 0. -/
def OwnerPc.isStarting : OwnerPc → Bool
  | .starting | .creating _ | .failing _ | .failJoining _ | .failed => true
  | _ => false

/-- How many workers `thread_pool_init` has created and not joined. -/
def OwnerPc.created : OwnerPc → ℕ
  | .creating index | .failing index | .failJoining index => index
  | _ => 0

namespace SharedPool

variable {n k capacity : ℕ} {s s' : SharedPool n k capacity}

/-- While the pool starts there is no job, and the workers that were created are there. -/
structure StartOk (s : SharedPool n k capacity) : Prop where
  size : s.owner.isStarting = true → s.pool.size = 0
  hasJob : s.owner.isStarting = true → ∀ i, (s.workers i).hasJob = false
  le : s.owner.created ≤ n
  created : ∀ i : Fin n, i < s.owner.created → s.workers i ≠ .absent

theorem startOk_start (n k capacity : ℕ) : (start n k capacity).StartOk :=
  ⟨fun _ => rfl, fun _ _ => rfl, Nat.zero_le n, nofun⟩

/-- Callers are at work only when the pool has started. -/
theorem PhaseOk.not_isStarting (hp : s.PhaseOk) {j : Fin k} (hj : s.callers j ≠ .idle) :
    s.owner.isStarting = false := by
  rw [hp.callers j hj]
  rfl

/-- Once the pool has started. -/
theorem StartOk.of_started (howner : s'.owner.isStarting = false) : s'.StartOk := by
  have hcreated : s'.owner.created = 0 := by
    cases hpc : s'.owner <;> rw [hpc] at howner <;> first | rfl | cases howner
  refine ⟨fun h => ?_, fun h => ?_, hcreated ▸ Nat.zero_le n, fun i hi => ?_⟩
  · rw [howner] at h
    cases h
  · rw [howner] at h
    cases h
  · rw [hcreated] at hi
    cases hi

/-- A step of a worker. -/
theorem StartOk.of_worker (hs : s.StartOk) {i : Fin n} {pc : WorkerPc}
    (hworkers : s'.workers = Function.update s.workers i pc) (howner : s'.owner = s.owner)
    (hpool : s.owner.isStarting = true → s'.pool.size = 0)
    (hpc : pc ≠ .absent) (hjob : s.owner.isStarting = true → pc.hasJob = false) : s'.StartOk := by
  refine ⟨by rwa [howner], ?_, howner ▸ hs.le, ?_⟩
  · rw [howner, hworkers]
    intro h
    exact (Function.forall_update_iff s.workers fun _ pc => pc.hasJob = false).mpr
      ⟨hjob h, fun i' _ => hs.hasJob h i'⟩
  · rw [howner, hworkers]
    exact (Function.forall_update_iff s.workers fun i' pc =>
      (i' : ℕ) < s.owner.created → pc ≠ .absent).mpr ⟨fun _ => hpc, fun i' _ => hs.created i'⟩

/-- A step of the owner, behind which no more workers have to be there than before. -/
theorem StartOk.of_owner (hs : s.StartOk) (hstarting : s.owner.isStarting = true)
    (hsize : s'.pool.size = s.pool.size) (hcreated : s'.owner.created ≤ s.owner.created)
    (hjob : ∀ i, (s.workers i).hasJob = false → (s'.workers i).hasJob = false)
    (habsent : ∀ i, s'.workers i = .absent → s.workers i = .absent) : s'.StartOk where
  size _ := hsize.trans (hs.size hstarting)
  hasJob _ i := hjob i (hs.hasJob hstarting i)
  le := hcreated.trans hs.le
  created i hi h := hs.created i (Nat.lt_of_lt_of_le hi hcreated) (habsent i h)

theorem hasJob_condWake {workers : Fin n → WorkerPc} (woken : Finset (Fin n)) {i : Fin n}
    (h : (workers i).hasJob = false) : (condWake workers woken i).hasJob = false := by
  unfold condWake
  split
  · rfl
  · exact h

theorem StartOk.step (hp : s.PhaseOk) (ht : s.TestedOk) (hs : s.StartOk) (h : s.Step s') :
    s'.StartOk := by
  cases h with
  | lock hpc => exact hs.of_worker rfl rfl hs.size nofun fun _ => rfl
  | wait hpc => exact hs.of_worker rfl rfl hs.size nofun fun _ => rfl
  | check hpc => exact hs.of_worker rfl rfl hs.size nofun fun _ => rfl
  | sleep hpc => exact hs.of_worker rfl rfl hs.size nofun fun _ => rfl
  | exit hpc => exact hs.of_worker rfl rfl hs.size nofun fun _ => rfl
  | @dequeue i clientFd pool hpc htest hjob =>
    -- there is nothing to dequeue while the pool starts
    have hne := ThreadPool.size_ne_zero ((ht i).2 hpc) htest
    have hnot : s.owner.isStarting ≠ true := fun h => hne (hs.size h)
    exact hs.of_worker rfl rfl (absurd · hnot) nofun (absurd · hnot)
  | @handle i job clientFd hpc =>
    -- and nobody has dequeued anything
    refine hs.of_worker rfl rfl hs.size nofun fun h => ?_
    have hjob := hs.hasJob h i
    rw [hpc] at hjob
    cases hjob
  | close hpc => exact hs.of_worker rfl rfl hs.size nofun fun _ => rfl
  | wake hpc => exact hs.of_worker rfl rfl hs.size nofun fun _ => rfl
  | accept hrunning hpc => exact .of_started (by rw [setCaller, hrunning]; rfl)
  | shutdown hrunning hpc => exact .of_started (by rw [setCaller, hrunning]; rfl)
  | lockSubmit hpc => exact .of_started (hp.not_isStarting (by rw [hpc]; exact nofun))
  | submit hpc => exact .of_started (hp.not_isStarting (by rw [hpc]; exact nofun))
  | refuse hpc => exact .of_started (hp.not_isStarting (by rw [hpc]; exact nofun))
  | closeRefused hpc => exact .of_started (hp.not_isStarting (by rw [hpc]; exact nofun))
  | lockStop hpc => exact .of_started (hp.not_isStarting (by rw [hpc]; exact nofun))
  | stop hpc => exact .of_started (hp.not_isStarting (by rw [hpc]; exact nofun))
  | initFail hpc =>
    exact hs.of_owner (by rw [hpc]; rfl) rfl (Nat.zero_le _) (fun _ => id) fun _ => id
  | init hpc =>
    exact ⟨fun _ => rfl, fun _ => hs.hasJob (by rw [hpc]; rfl), Nat.zero_le n, nofun⟩
  | @create index hpc hlt =>
    have hstarting : s.owner.isStarting = true := by rw [hpc]; rfl
    refine ⟨fun _ => hs.size hstarting, fun _ => ?_, hlt, ?_⟩
    · exact (Function.forall_update_iff s.workers fun _ pc => pc.hasJob = false).mpr
        ⟨rfl, fun i _ => hs.hasJob hstarting i⟩
    · refine (Function.forall_update_iff s.workers fun i pc =>
        (i : ℕ) < index + 1 → pc ≠ .absent).mpr ⟨fun _ => nofun, fun i heq hi => ?_⟩
      have hne : (i : ℕ) ≠ index := fun h => heq (Fin.ext h)
      refine hs.created i ?_
      rw [hpc]
      show (i : ℕ) < index
      omega
  | createFail hpc =>
    exact hs.of_owner (by rw [hpc]; rfl) rfl (by rw [hpc]; exact le_rfl) (fun _ => id) fun _ => id
  | created hpc => exact .of_started rfl
  | broadcast hpc =>
    exact hs.of_owner (by rw [hpc]; rfl) rfl (by rw [hpc]; exact le_rfl)
      (fun _ => hasJob_condWake _) fun _ hi => of_condWake hi nofun
  | failJoin hpc =>
    exact hs.of_owner (by rw [hpc]; rfl) rfl (by rw [hpc]; exact Nat.le_succ _) (fun _ => id)
      fun _ => id
  | fail hpc =>
    exact hs.of_owner (by rw [hpc]; rfl) rfl (Nat.zero_le _) (fun _ => id) fun _ => id
  | destroy hpc _ hnext =>
    refine .of_started ?_
    rcases hnext with rfl | rfl <;> rfl
  | lockDestroy hpc => exact .of_started rfl
  | stopDestroy hpc => exact .of_started rfl
  | join hpc => exact .of_started rfl
  | destroyed hpc => exact .of_started rfl

/-! ### The flag of a failed start -/

/-- At the broadcast of a failed start the stop is requested. -/
def FailingOk (s : SharedPool n k capacity) : Prop :=
  ∀ index, s.owner = .failing index → s.pool.stopRequested = true

/-- The owner stays where it is. -/
theorem FailingOk.of_owner (hf : s.FailingOk) (howner : s'.owner = s.owner)
    (hstop : s'.pool.stopRequested = s.pool.stopRequested) : s'.FailingOk := by
  intro index hpc
  rw [hstop]
  exact hf index (howner.symm.trans hpc)

/-- The owner is somewhere else. -/
theorem FailingOk.of_ne (howner : ∀ index, s'.owner ≠ .failing index) : s'.FailingOk :=
  fun index hpc => absurd hpc (howner index)

theorem PhaseOk.failingOk (hp : s.PhaseOk) {j : Fin k} (hj : s.callers j ≠ .idle)
    (howner : s'.owner = s.owner) : s'.FailingOk := by
  refine .of_ne fun index => ?_
  rw [howner, hp.callers j hj]
  exact nofun

theorem FailingOk.step (hp : s.PhaseOk) (hf : s.FailingOk) (h : s.Step s') : s'.FailingOk := by
  cases h with
  | createFail hpc => exact fun _ _ => rfl
  | dequeue hpc htest hjob =>
    obtain ⟨jobs, -, -, rfl⟩ := ThreadPool.dequeue_eq_some hjob
    exact hf.of_owner rfl rfl
  | accept hrunning hpc => exact .of_ne fun index => by rw [setCaller, hrunning]; exact nofun
  | shutdown hrunning hpc => exact .of_ne fun index => by rw [setCaller, hrunning]; exact nofun
  | lockSubmit hpc => exact hp.failingOk (by rw [hpc]; exact nofun) rfl
  | submit hpc => exact hp.failingOk (by rw [hpc]; exact nofun) rfl
  | refuse hpc => exact hp.failingOk (by rw [hpc]; exact nofun) rfl
  | closeRefused hpc => exact hp.failingOk (by rw [hpc]; exact nofun) rfl
  | lockStop hpc => exact hp.failingOk (by rw [hpc]; exact nofun) rfl
  | stop hpc => exact hp.failingOk (by rw [hpc]; exact nofun) rfl
  | destroy hpc _ hnext => rcases hnext with rfl | rfl <;> exact .of_ne nofun
  | initFail | init | create | created | broadcast | failJoin | fail | lockDestroy | stopDestroy
  | join | destroyed => exact .of_ne nofun
  | lock | wait | check | sleep | exit | handle | close | wake => exact hf.of_owner rfl rfl

/-! ### The clean-up -/

/-- What every step keeps, from the start on. -/
structure CleanOk (s : SharedPool n k capacity) : Prop where
  pool : s.PoolOk
  held : s.HeldOk
  start : s.StartOk
  failing : s.FailingOk

theorem cleanOk_start (n k capacity : ℕ) : (start n k capacity).CleanOk :=
  ⟨poolOk_start n k capacity, .of_free rfl, startOk_start n k capacity, .of_ne nofun⟩

theorem CleanOk.step (hs : s.CleanOk) (h : s.Step s') : s'.CleanOk :=
  have hwake := hs.pool.wake
  ⟨hs.pool.step h, hs.held.step hwake.phase h, hs.start.step hwake.phase hwake.tested h,
    hs.failing.step hwake.phase h⟩

theorem CleanOk.run (hs : s.CleanOk) {actions : List (PoolAction n k)}
    (h : s.run actions = some s') : s'.CleanOk :=
  run_keeps (fun _ _ hs h => hs.step h) hs h

/-- The owner joins the workers, and no worker sleeps or is about to. -/
structure Leaving (s : SharedPool n k capacity) : Prop where
  owner : (∃ index, s.owner = .failJoining index) ∨ s.owner = .failed
  stop : s.pool.stopRequested = true
  asleep : ∀ i, s.workers i ≠ .asleep
  waiting : ∀ i, s.workers i ≠ .waiting

theorem Leaving.isStarting (hl : s.Leaving) : s.owner.isStarting = true := by
  rcases hl.owner with ⟨index, h⟩ | h <;> rw [h] <;> rfl

/-- A worker leaves its loop at its next test. -/
theorem Leaving.mustWait (hl : s.Leaving) : s.pool.mustWait = false := by
  unfold ThreadPool.mustWait
  rw [hl.stop]
  rfl

theorem Leaving.mustBreak (hl : s.Leaving) (hs : s.StartOk) : s.pool.mustBreak = true :=
  ThreadPool.mustBreak_iff.mpr ⟨hl.stop, hs.size hl.isStarting⟩

theorem Leaving.of_worker (hl : s.Leaving) {i : Fin n} {pc : WorkerPc}
    (hworkers : s'.workers = Function.update s.workers i pc) (howner : s'.owner = s.owner)
    (hstop : s'.pool.stopRequested = s.pool.stopRequested) (hasleep : pc ≠ .asleep)
    (hwaiting : pc ≠ .waiting) : s'.Leaving where
  owner := by rw [howner]; exact hl.owner
  stop := hstop.trans hl.stop
  asleep i' h := by
    rw [hworkers] at h
    exact hl.asleep i' (of_update h hasleep)
  waiting i' h := by
    rw [hworkers] at h
    exact hl.waiting i' (of_update h hwaiting)

/-- The owner has nothing else to do than to join the workers, and nobody else is there. -/
theorem Leaving.step (hs : s.CleanOk) (hl : s.Leaving) (h : s.Step s') : s'.Leaving := by
  -- the owner is neither in the pool that runs nor in its end
  have howner : ∀ {pc}, s.owner = pc → pc.isStarting = false → False := by
    intro pc hpc hstarting
    have := hl.isStarting
    rw [hpc, hstarting] at this
    cases this
  -- callers are at work only in a pool that runs
  have hcaller : ∀ {j}, s.callers j ≠ .idle → False := by
    intro j hj
    have := hl.isStarting
    rw [hs.pool.wake.phase.not_isStarting hj] at this
    cases this
  have hplace : ∀ {pc}, s.owner = pc → (∀ index, pc ≠ .failJoining index) → pc ≠ .failed →
      False := by
    intro pc hpc hjoining hfailed
    rcases hl.owner with ⟨index, h⟩ | h
    · exact hjoining index (hpc.symm.trans h)
    · exact hfailed (hpc.symm.trans h)
  cases h with
  | lock hpc => exact hl.of_worker rfl rfl rfl nofun nofun
  | wait hpc htest =>
    -- the stop is requested, so no test says wait
    rw [hl.mustWait] at htest
    cases htest
  | check hpc => exact hl.of_worker rfl rfl rfl nofun nofun
  | sleep hpc => exact absurd hpc (hl.waiting _)
  | exit hpc => exact hl.of_worker rfl rfl rfl nofun nofun
  | dequeue hpc htest =>
    -- nor that there is a job
    rw [hl.mustBreak hs.start] at htest
    cases htest
  | handle hpc => exact hl.of_worker rfl rfl rfl nofun nofun
  | close hpc => exact hl.of_worker rfl rfl rfl nofun nofun
  | wake hpc => exact hl.of_worker rfl rfl rfl nofun nofun
  | accept hrunning => exact (howner hrunning rfl).elim
  | shutdown hrunning => exact (howner hrunning rfl).elim
  | lockSubmit hpc => exact (hcaller (by rw [hpc]; exact nofun)).elim
  | submit hpc => exact (hcaller (by rw [hpc]; exact nofun)).elim
  | refuse hpc => exact (hcaller (by rw [hpc]; exact nofun)).elim
  | closeRefused hpc => exact (hcaller (by rw [hpc]; exact nofun)).elim
  | lockStop hpc => exact (hcaller (by rw [hpc]; exact nofun)).elim
  | stop hpc => exact (hcaller (by rw [hpc]; exact nofun)).elim
  | initFail hpc => exact (hplace hpc nofun nofun).elim
  | init hpc => exact (hplace hpc nofun nofun).elim
  | create hpc => exact (hplace hpc nofun nofun).elim
  | createFail hpc => exact (hplace hpc nofun nofun).elim
  | created hpc => exact (hplace hpc nofun nofun).elim
  | broadcast hpc => exact (hplace hpc nofun nofun).elim
  | failJoin hpc => exact ⟨.inl ⟨_, rfl⟩, hl.stop, hl.asleep, hl.waiting⟩
  | fail hpc => exact ⟨.inr rfl, hl.stop, hl.asleep, hl.waiting⟩
  | destroy hpc => exact (hplace hpc nofun nofun).elim
  | lockDestroy hpc => exact (hplace hpc nofun nofun).elim
  | stopDestroy hpc => exact (hplace hpc nofun nofun).elim
  | join hpc => exact (hplace hpc nofun nofun).elim
  | destroyed hpc => exact (hplace hpc nofun nofun).elim

theorem Leaving.run (hs : s.CleanOk) (hl : s.Leaving) {actions : List (PoolAction n k)}
    (h : s.run actions = some s') : s'.CleanOk ∧ s'.Leaving :=
  run_keeps (P := fun s => s.CleanOk ∧ s.Leaving)
    (fun _ _ ⟨hs, hl⟩ h => ⟨hs.step h, hl.step hs h⟩) ⟨hs, hl⟩ h

theorem Leads.leaving (h : s.Leads s') (hs : s.CleanOk) (hl : s.Leaving) :
    s'.CleanOk ∧ s'.Leaving := by
  obtain ⟨actions, -, hrun⟩ := h
  exact hl.run hs hrun

/-- Behind its test a worker exits. -/
theorem Leaving.exits_checking (hs : s.CleanOk) (hl : s.Leaving) {i : Fin n}
    (hpc : s.workers i = .checking) :
    ∃ s', s.Leads s' ∧ s'.owner = s.owner ∧ s'.workers i = .exited := by
  refine ⟨{ s.setWorker i .exited with mutex := none }, .single (a := .worker i) rfl ?_, rfl,
    Function.update_self ..⟩
  rw [SharedPool.step, workerStep, hpc]
  exact if_pos (hl.mustBreak hs.start)

/-- A worker at its test exits. -/
theorem Leaving.exits_testing (hs : s.CleanOk) (hl : s.Leaving) {i : Fin n}
    (hpc : s.workers i = .testing) :
    ∃ s', s.Leads s' ∧ s'.owner = s.owner ∧ s'.workers i = .exited := by
  have hstep : s.step (.worker i) = some (s.setWorker i .checking) := by
    rw [SharedPool.step, workerStep, hpc]
    simp only [hl.mustWait, Bool.false_eq_true, if_false]
  have hleads : s.Leads (s.setWorker i .checking) := .single (a := .worker i) rfl hstep
  obtain ⟨hs₁, hl₁⟩ := hleads.leaving hs hl
  obtain ⟨s', hleads', howner, hexited⟩ := hl₁.exits_checking hs₁ (Function.update_self ..)
  exact ⟨s', hleads.trans hleads', howner, hexited⟩

/-- The mutex becomes free. -/
theorem Leaving.frees (hs : s.CleanOk) (hl : s.Leaving) :
    ∃ s', s.Leads s' ∧ s'.owner = s.owner ∧ s'.mutex = none := by
  have howner : s.owner.isLocked = false := by
    rcases hl.owner with ⟨index, h⟩ | h <;> rw [h] <;> rfl
  have hcallers : ∀ j, (s.callers j).isLocked = false := by
    intro j
    by_cases hj : s.callers j = .idle
    · rw [hj]
      rfl
    · have := hs.pool.wake.phase.not_isStarting hj
      rw [hl.isStarting] at this
      cases this
  obtain ⟨s', hleads, howner', -, hfree⟩ := hs.pool.frees hs.held howner hcallers
  exact ⟨s', hleads, howner', hfree⟩

/-- A worker that was created exits. -/
theorem Leaving.exits (hs : s.CleanOk) (hl : s.Leaving) {i : Fin n}
    (hi : (i : ℕ) < s.owner.created) :
    ∃ s', s.Leads s' ∧ s'.owner = s.owner ∧ s'.workers i = .exited := by
  obtain ⟨s₁, hleads₁, howner₁, hfree⟩ := hl.frees hs
  obtain ⟨hs₁, hl₁⟩ := hleads₁.leaving hs hl
  rw [← howner₁] at hi
  -- the worker takes the mutex
  have hlocks : s₁.workers i = .locking ∨ s₁.workers i = .waking →
      ∃ s', s₁.Leads s' ∧ s'.owner = s₁.owner ∧ s'.workers i = .exited := by
    intro hpc
    have hstep : s₁.step (.worker i) =
        some { s₁.setWorker i .testing with mutex := some (.worker i) } := by
      rcases hpc with hpc | hpc <;> rw [SharedPool.step, workerStep, hpc] <;> exact if_pos hfree
    have hleads := Leads.single rfl hstep
    obtain ⟨hs₂, hl₂⟩ := hleads.leaving hs₁ hl₁
    obtain ⟨s', hleads', howner, hexited⟩ := hl₂.exits_testing hs₂ (Function.update_self ..)
    exact ⟨s', hleads.trans hleads', howner, hexited⟩
  -- at the other places it would have the mutex, or a job
  have hnolock : (s₁.workers i).isLocked = false := by
    rw [Bool.eq_false_iff]
    intro h
    have := hs₁.pool.wake.lock.worker h
    rw [hfree] at this
    cases this
  have hnojob := hs₁.start.hasJob hl₁.isStarting i
  suffices h : ∃ s', s₁.Leads s' ∧ s'.owner = s₁.owner ∧ s'.workers i = .exited by
    obtain ⟨s', hleads, howner, hexited⟩ := h
    exact ⟨s', hleads₁.trans hleads, howner.trans howner₁, hexited⟩
  cases hpc : s₁.workers i with
  | absent => exact absurd hpc (hs₁.start.created i hi)
  | locking => exact hlocks (.inl hpc)
  | waking => exact hlocks (.inr hpc)
  | asleep => exact absurd hpc (hl₁.asleep i)
  | exited => exact ⟨s₁, .refl s₁, rfl, hpc⟩
  | testing =>
    rw [hpc] at hnolock
    cases hnolock
  | waiting =>
    rw [hpc] at hnolock
    cases hnolock
  | checking =>
    rw [hpc] at hnolock
    cases hnolock
  | handling job clientFd =>
    rw [hpc] at hnojob
    cases hnojob
  | closing job clientFd =>
    rw [hpc] at hnojob
    cases hnojob

/-- The last step of the clean-up. -/
theorem Leaving.fails (hpc : s.owner = .failJoining 0) : ∃ s', s.Leads s' ∧ s'.owner = .failed := by
  refine ⟨{ s.setOwner .failed with pool := { s.pool with workers := false, jobs := none } },
    .single (a := .owner true) rfl ?_, rfl⟩
  rw [SharedPool.step, ownerStep, hpc]

/-- The owner joins the workers that it created, the last one first. -/
theorem Leaving.joins (hs : s.CleanOk) (hl : s.Leaving) {index : ℕ}
    (hpc : s.owner = .failJoining (index + 1)) :
    ∃ s', s.Leads s' ∧ s'.owner = .failJoining index := by
  have hcreated : s.owner.created = index + 1 := by rw [hpc]; rfl
  have hlt : index < n := Nat.lt_of_lt_of_le (by omega) hs.start.le
  obtain ⟨s₁, hleads, howner, hexited⟩ := hl.exits hs (i := ⟨index, hlt⟩)
    (by rw [hcreated]; exact Nat.lt_succ_self index)
  refine ⟨s₁.setOwner (.failJoining index), hleads.trans (.single (a := .owner true) rfl ?_), rfl⟩
  rw [SharedPool.step, ownerStep, howner.trans hpc]
  exact (dif_pos hlt).trans (if_pos hexited)

/-- All joins return. -/
theorem Leaving.finishes (hs : s.CleanOk) (hl : s.Leaving) :
    ∃ s', s.Leads s' ∧ s'.owner = .failed := by
  rcases hl.owner with ⟨index, hpc⟩ | hpc
  · induction index generalizing s with
    | zero => exact fails hpc
    | succ index ih =>
      obtain ⟨s₁, hleads, hpc₁⟩ := hl.joins hs hpc
      obtain ⟨hs₁, hl₁⟩ := hleads.leaving hs hl
      obtain ⟨s', hleads', hfailed⟩ := ih hs₁ hl₁ hpc₁
      exact ⟨s', hleads.trans hleads', hfailed⟩
  · exact ⟨s, .refl s, hpc⟩

/-- Whatever happens, no worker sleeps, and the failed start can come to its end. -/
def FinishesCleanUp (s : SharedPool n k capacity) : Prop :=
  ∀ actions s', s.run actions = some s' →
    (∀ i, s'.workers i ≠ .asleep) ∧ ∃ s'', s'.Leads s'' ∧ s''.owner = .failed

theorem Leaving.finishesCleanUp (hs : s.CleanOk) (hl : s.Leaving) : s.FinishesCleanUp := by
  intro actions s' hrun
  obtain ⟨hs', hl'⟩ := hl.run hs hrun
  exact ⟨hl'.asleep, hl'.finishes hs'⟩

/-- A worker behind its test goes to sleep, whoever changed the flag. -/
theorem not_finishesCleanUp {i : Fin n} (hpc : s.workers i = .waiting) : ¬s.FinishesCleanUp := by
  intro h
  have hstep : s.step (.worker i) = some { s.setWorker i .asleep with mutex := none } := by
    rw [step, workerStep, hpc]
  obtain ⟨hasleep, -⟩ := h [.worker i] _ (CArray.bind_eq_of_eq_some hstep rfl)
  exact hasleep i (Function.update_self ..)

/-- The broadcast of a failed start leaves the workers that do not sleep where they are. -/
theorem leaving_of_broadcast (hstop : s.pool.stopRequested = true) {index : ℕ}
    (hwaiting : ∀ i, s.workers i ≠ .waiting) :
    ({ s.setOwner (.failJoining index) with
        workers := condBroadcast s.workers } : SharedPool n k capacity).Leaving where
  owner := .inl ⟨index, rfl⟩
  stop := hstop
  asleep i := condBroadcast_ne s.workers i
  waiting i h := hwaiting i (of_condWake h nofun)

end SharedPool

/-! ### A failed start cleans up when no worker is between its test and its sleep -/

/-- The broadcast of a failed start: afterwards nobody goes to sleep and all joins can return, if
and only if no worker is between its test and `pthread_cond_wait`. -/
theorem thread_pool_init_cleans_up_iff {n k capacity : ℕ} {actions : List (PoolAction n k)}
    {s s' : SharedPool n k capacity} {index : ℕ} {ok : Bool}
    (h : (SharedPool.start n k capacity).run actions = some s) (hpc : s.owner = .failing index)
    (hbroadcast : s.step (.owner ok) = some s') :
    s'.FinishesCleanUp ↔ ∀ i, s.workers i ≠ .waiting := by
  have hs := (SharedPool.cleanOk_start n k capacity).run h
  have hs' := hs.step (SharedPool.step_cases hbroadcast)
  have hstop := hs.failing index hpc
  rw [SharedPool.step, SharedPool.ownerStep, hpc] at hbroadcast
  cases hbroadcast
  refine ⟨fun hfinishes i hi => ?_, fun hwaiting => ?_⟩
  · refine SharedPool.not_finishesCleanUp (i := i) ?_ hfinishes
    show condBroadcast s.workers i = .waiting
    rw [condBroadcast, condWake_of_ne _ (by simp [hi]), hi]
  · exact (SharedPool.leaving_of_broadcast hstop hwaiting).finishesCleanUp hs'

/-- The second `pthread_create` fails, and the first worker has not taken the mutex yet. -/
def failedStartRun : List (PoolAction 2 1) := [.owner true, .owner true, .owner false]

theorem thread_pool_init_cleans_up_second_fails :
    ∃ s s', (SharedPool.start 2 1 4).run failedStartRun = some s ∧ s.owner = .failing 1 ∧
      s.step (.owner true) = some s' ∧ s'.FinishesCleanUp := by
  have hrun : ((SharedPool.start 2 1 4).run failedStartRun).map (fun s => (s.owner, s.workers)) =
      some (.failing 1, Function.update (fun _ => .absent) 0 .locking) := rfl
  obtain ⟨s, hs, heq⟩ := Option.map_eq_some_iff.mp hrun
  obtain ⟨hpc, hworkers⟩ := Prod.mk.inj heq
  obtain ⟨s', hbroadcast⟩ : ∃ s', s.step (.owner true) = some s' :=
    ⟨_, by rw [SharedPool.step, SharedPool.ownerStep, hpc]⟩
  refine ⟨s, s', hs, hpc, hbroadcast, ?_⟩
  refine (thread_pool_init_cleans_up_iff hs hpc hbroadcast).mpr fun i => ?_
  rw [hworkers]
  revert i
  decide

/-- The first worker is between its test and its sleep when the second `pthread_create` fails. -/
def lateSleeperRun : List (PoolAction 2 1) :=
  let first : Fin 2 := ⟨0, Nat.zero_lt_two⟩
  [.owner true, .owner true, .worker first, .worker first, .owner false]

/-- Behind the broadcast it goes to sleep, and the stop is requested. -/
theorem not_thread_pool_init_cleans_up :
    ¬∀ (n k capacity : ℕ) (actions : List (PoolAction n k)) (s s' : SharedPool n k capacity)
      (index : ℕ) (ok : Bool), (SharedPool.start n k capacity).run actions = some s →
      s.owner = .failing index → s.step (.owner ok) = some s' → s'.FinishesCleanUp := by
  intro h
  have hrun : ((SharedPool.start 2 1 4).run lateSleeperRun).map (fun s => (s.owner, s.workers 0)) =
      some (.failing 1, .waiting) := rfl
  obtain ⟨s, hs, heq⟩ := Option.map_eq_some_iff.mp hrun
  obtain ⟨hpc, hwaiting⟩ := Prod.mk.inj heq
  refine SharedPool.not_finishesCleanUp (i := 0) ?_
    (h 2 1 4 lateSleeperRun s _ 1 true hs hpc (by rw [SharedPool.step, SharedPool.ownerStep, hpc]))
  show condBroadcast s.workers 0 = .waiting
  rw [condBroadcast, condWake_of_ne _ (by simp [hwaiting]), hwaiting]

end MiniDbms
