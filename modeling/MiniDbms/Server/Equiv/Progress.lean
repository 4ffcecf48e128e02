import MiniDbms.Server.Equiv.Submit

/-!
# The mutex is given back

The mutex is with a thread that is in its section (`HeldOk`), and such a thread can always go on.
So the mutex can become free by steps of the thread that has it (`PoolOk.frees`), and a call of
`thread_pool_submit` or `thread_pool_shutdown` can return (`PoolOk.returns`).
-/

namespace MiniDbms

namespace SharedPool

variable {n k capacity : ℕ} {s s' : SharedPool n k capacity}

/-! ### Who has the mutex is in its section -/

/-- The mutex is only with a thread that is at a place where it has it. -/
def HeldOk (s : SharedPool n k capacity) : Prop := ∀ t, s.mutex = some t → s.holds t = true

/-- A step that leaves the mutex where it is. -/
theorem HeldOk.of_holds (hh : s.HeldOk) (hmutex : s'.mutex = s.mutex)
    (hholds : ∀ t, s.holds t = true → s'.holds t = true) : s'.HeldOk := by
  intro t ht
  rw [hmutex] at ht
  exact hholds t (hh t ht)

theorem HeldOk.of_free (hmutex : s'.mutex = none) : s'.HeldOk := by
  intro t ht
  rw [hmutex] at ht
  cases ht

theorem HeldOk.of_taken {t : ThreadId n k} (hmutex : s'.mutex = some t)
    (hholds : s'.holds t = true) : s'.HeldOk := by
  intro t' ht
  rw [hmutex] at ht
  cases ht
  exact hholds

theorem HeldOk.of_worker (hh : s.HeldOk) {i : Fin n} {pc : WorkerPc}
    (hworkers : s'.workers = Function.update s.workers i pc) (hcallers : s'.callers = s.callers)
    (howner : s'.owner = s.owner) (hmutex : s'.mutex = s.mutex)
    (hpc : (s.workers i).isLocked = true → pc.isLocked = true) : s'.HeldOk := by
  refine hh.of_holds hmutex fun t ht => ?_
  cases t with
  | owner =>
    unfold holds at *
    rwa [howner]
  | caller j =>
    unfold holds at *
    rwa [hcallers]
  | worker i' =>
    change (s.workers i').isLocked = true at ht
    show (s'.workers i').isLocked = true
    rw [hworkers]
    by_cases hi : i' = i
    · subst hi
      rw [Function.update_self]
      exact hpc ht
    · rwa [Function.update_of_ne hi]

theorem HeldOk.of_caller (hh : s.HeldOk) {j : Fin k} {pc : CallerPc}
    (hcallers : s'.callers = Function.update s.callers j pc) (hworkers : s'.workers = s.workers)
    (howner : s'.owner = s.owner) (hmutex : s'.mutex = s.mutex)
    (hpc : (s.callers j).isLocked = false) : s'.HeldOk := by
  refine hh.of_holds hmutex fun t ht => ?_
  cases t with
  | owner =>
    unfold holds at *
    rwa [howner]
  | caller j' =>
    change (s.callers j').isLocked = true at ht
    show (s'.callers j').isLocked = true
    have hj : j' ≠ j := by
      rintro rfl
      rw [hpc] at ht
      cases ht
    rwa [hcallers, Function.update_of_ne hj]
  | worker i =>
    unfold holds at *
    rwa [hworkers]

theorem HeldOk.of_owner (hh : s.HeldOk) (hcallers : s'.callers = s.callers)
    (hworkers : ∀ i, (s.workers i).isLocked = true → (s'.workers i).isLocked = true)
    (hmutex : s'.mutex = s.mutex) (hpc : s.owner.isLocked = false) : s'.HeldOk := by
  refine hh.of_holds hmutex fun t ht => ?_
  cases t with
  | owner =>
    change s.owner.isLocked = true at ht
    rw [hpc] at ht
    cases ht
  | caller j =>
    unfold holds at *
    rwa [hcallers]
  | worker i => exact hworkers i ht

theorem HeldOk.step (hp : s.PhaseOk) (hh : s.HeldOk) (h : s.Step s') : s'.HeldOk := by
  cases h with
  | @lock i hpc hfree =>
    refine .of_taken rfl ?_
    show (Function.update s.workers i .testing i).isLocked = true
    rw [Function.update_self]
    rfl
  | wait hpc => exact hh.of_worker rfl rfl rfl rfl fun _ => rfl
  | check hpc => exact hh.of_worker rfl rfl rfl rfl fun _ => rfl
  | sleep hpc => exact .of_free rfl
  | exit hpc => exact .of_free rfl
  | dequeue hpc => exact .of_free rfl
  | handle hpc => exact hh.of_worker rfl rfl rfl rfl (by rw [hpc]; exact nofun)
  | close hpc => exact hh.of_worker rfl rfl rfl rfl (by rw [hpc]; exact nofun)
  | wake hpc => exact hh.of_worker rfl rfl rfl rfl (by rw [hpc]; exact nofun)
  | accept _ hpc => exact hh.of_caller rfl rfl rfl rfl (by rw [hpc]; rfl)
  | shutdown _ hpc => exact hh.of_caller rfl rfl rfl rfl (by rw [hpc]; rfl)
  | @lockSubmit j clientFd hpc hfree =>
    refine .of_taken rfl ?_
    show (Function.update s.callers j (.deciding clientFd) j).isLocked = true
    rw [Function.update_self]
    rfl
  | submit hpc => exact .of_free rfl
  | refuse hpc => exact .of_free rfl
  | closeRefused hpc => exact hh.of_caller rfl rfl rfl rfl (by rw [hpc]; rfl)
  | @lockStop j hpc hfree =>
    refine .of_taken rfl ?_
    show (Function.update s.callers j .stoppingLocked j).isLocked = true
    rw [Function.update_self]
    rfl
  | stop hpc => exact .of_free rfl
  | @create index hpc hlt =>
    -- the new worker was not there yet, so it had no mutex
    refine hh.of_owner rfl (fun i hi => ?_) rfl (by rw [hpc]; rfl)
    have hok := hp.owner
    rw [hpc] at hok
    have hne : i ≠ ⟨index, hlt⟩ := by
      rintro rfl
      rw [hok.2.2 _ le_rfl] at hi
      cases hi
    show (Function.update s.workers ⟨index, hlt⟩ .locking i).isLocked = true
    rwa [Function.update_of_ne hne]
  | broadcast hpc =>
    refine hh.of_owner rfl (fun i hi => ?_) rfl (by rw [hpc]; rfl)
    show (condBroadcast s.workers i).isLocked = true
    rwa [condBroadcast, isLocked_condWake]
  | lockDestroy hpc hfree => exact .of_taken rfl rfl
  | stopDestroy hpc => exact .of_free rfl
  | initFail hpc => exact hh.of_owner rfl (fun _ => id) rfl (by rw [hpc]; rfl)
  | init hpc => exact hh.of_owner rfl (fun _ => id) rfl (by rw [hpc]; rfl)
  | createFail hpc => exact hh.of_owner rfl (fun _ => id) rfl (by rw [hpc]; rfl)
  | created hpc => exact hh.of_owner rfl (fun _ => id) rfl (by rw [hpc]; rfl)
  | failJoin hpc => exact hh.of_owner rfl (fun _ => id) rfl (by rw [hpc]; rfl)
  | fail hpc => exact hh.of_owner rfl (fun _ => id) rfl (by rw [hpc]; rfl)
  | destroy hpc => exact hh.of_owner rfl (fun _ => id) rfl (by rw [hpc]; rfl)
  | join hpc => exact hh.of_owner rfl (fun _ => id) rfl (by rw [hpc]; rfl)
  | destroyed hpc => exact hh.of_owner rfl (fun _ => id) rfl (by rw [hpc]; rfl)

/-! ### What can be reached -/

/-- `s'` can be reached from `s`, and nobody calls a function of the pool on the way. -/
def Leads (s s' : SharedPool n k capacity) : Prop :=
  ∃ actions : List (PoolAction n k), (∀ a ∈ actions, a.isCall = false) ∧ s.run actions = some s'

theorem Leads.refl (s : SharedPool n k capacity) : s.Leads s := ⟨[], nofun, rfl⟩

theorem Leads.head {a : PoolAction n k} (ha : a.isCall = false) {s₁ : SharedPool n k capacity}
    (h : s.step a = some s₁) (h' : s₁.Leads s') : s.Leads s' := by
  obtain ⟨actions, hactions, hrun⟩ := h'
  exact ⟨a :: actions, List.forall_mem_cons.mpr ⟨ha, hactions⟩,
    CArray.bind_eq_of_eq_some h hrun⟩

theorem Leads.single {a : PoolAction n k} (ha : a.isCall = false) (h : s.step a = some s') :
    s.Leads s' :=
  .head ha h (.refl s')

theorem Leads.trans {s₁ : SharedPool n k capacity} (h : s.Leads s₁) (h' : s₁.Leads s') :
    s.Leads s' := by
  obtain ⟨actions, hactions, hrun⟩ := h
  induction actions generalizing s with
  | nil =>
    cases hrun
    exact h'
  | cons a actions ih =>
    obtain ⟨ha, hactions⟩ := List.forall_mem_cons.mp hactions
    obtain ⟨s₂, hstep, hrun⟩ := Option.bind_eq_some_iff.mp hrun
    exact .head ha hstep (ih hactions hrun)

/-- What every step keeps. -/
theorem Leads.keeps {P : SharedPool n k capacity → Prop}
    (hstep : ∀ s s' : SharedPool n k capacity, P s → s.Step s' → P s') (h : s.Leads s') (hs : P s) :
    P s' := by
  obtain ⟨actions, -, hrun⟩ := h
  exact run_keeps hstep hs hrun

/-! ### The mutex becomes free -/

/-- A worker behind its test leaves its section. -/
theorem PoolOk.worker_frees_checking (hs : s.PoolOk) {i : Fin n} (hpc : s.workers i = .checking) :
    ∃ s', s.Leads s' ∧ s'.owner = s.owner ∧ s'.callers = s.callers ∧ s'.mutex = none := by
  cases htest : s.pool.mustBreak with
  | true =>
    refine ⟨{ s.setWorker i .exited with mutex := none }, .single (a := .worker i) rfl ?_, rfl, rfl,
      rfl⟩
    rw [SharedPool.step, workerStep, hpc]
    exact if_pos htest
  | false =>
    obtain ⟨⟨clientFd, pool⟩, hjob⟩ := hs.dequeue hpc htest
    refine ⟨{ s.setWorker i (.handling s.dequeued.length clientFd) with
      pool := pool
      mutex := none
      dequeued := s.dequeued ++ [⟨i, s.dequeued.length, clientFd⟩] },
      .single (a := .worker i) rfl ?_, rfl, rfl, rfl⟩
    rw [SharedPool.step, workerStep, hpc]
    dsimp only
    rw [htest, hjob]
    rfl

/-- A worker that has the mutex gives it back. -/
theorem PoolOk.worker_frees (hs : s.PoolOk) {i : Fin n} (hi : (s.workers i).isLocked = true) :
    ∃ s', s.Leads s' ∧ s'.owner = s.owner ∧ s'.callers = s.callers ∧ s'.mutex = none := by
  -- a worker that waits gives the mutex away
  have hwaiting : ∀ {s : SharedPool n k capacity}, s.workers i = .waiting →
      ∃ s', s.Leads s' ∧ s'.owner = s.owner ∧ s'.callers = s.callers ∧ s'.mutex = none := by
    intro s hpc
    refine ⟨{ s.setWorker i .asleep with mutex := none }, .single (a := .worker i) rfl ?_, rfl, rfl,
      rfl⟩
    rw [SharedPool.step, workerStep, hpc]
  cases hpc : s.workers i with
  | testing =>
    -- the loop test decides which way it gives the mutex away
    have hstep : s.step (.worker i) =
        some (s.setWorker i (if s.pool.mustWait then .waiting else .checking)) := by
      rw [SharedPool.step, workerStep, hpc]
    have hs₁ := hs.step (step_cases hstep)
    cases htest : s.pool.mustWait with
    | true =>
      rw [htest] at hstep
      obtain ⟨s', hleads, hkept⟩ := hwaiting (s := s.setWorker i .waiting)
        (Function.update_self i _ s.workers)
      exact ⟨s', .head rfl hstep hleads, hkept⟩
    | false =>
      rw [htest] at hstep hs₁
      obtain ⟨s', hleads, hkept⟩ := hs₁.worker_frees_checking (Function.update_self i _ s.workers)
      exact ⟨s', .head rfl hstep hleads, hkept⟩
  | waiting => exact hwaiting hpc
  | checking => exact hs.worker_frees_checking hpc
  | _ =>
    rw [hpc] at hi
    cases hi

/-- The mutex can become free when neither the owner nor a caller has it. -/
theorem PoolOk.frees (hs : s.PoolOk) (hh : s.HeldOk) (howner : s.owner.isLocked = false)
    (hcallers : ∀ j, (s.callers j).isLocked = false) :
    ∃ s', s.Leads s' ∧ s'.owner = s.owner ∧ s'.callers = s.callers ∧ s'.mutex = none := by
  cases hmutex : s.mutex with
  | none => exact ⟨s, .refl s, rfl, rfl, hmutex⟩
  | some t =>
    have hholds := hh t hmutex
    cases t with
    | owner =>
      change s.owner.isLocked = true at hholds
      rw [howner] at hholds
      cases hholds
    | caller j =>
      change (s.callers j).isLocked = true at hholds
      rw [hcallers j] at hholds
      cases hholds
    | worker i => exact hs.worker_frees hholds

/-! ### A call returns -/

theorem Leads.poolOk (h : s.Leads s') (hs : s.PoolOk) : s'.PoolOk :=
  h.keeps (fun _ _ => PoolOk.step) hs

/-- Behind the answer to a refused connection the caller is idle. -/
theorem refused_returns {j : Fin k} {number : ℕ} {clientFd : ℤ}
    (hpc : s.callers j = .refused number clientFd) :
    ∃ s', s.Leads s' ∧ s'.owner = s.owner ∧ s'.callers j = .idle := by
  refine ⟨{ s.setCaller j .idle with closedRefused := s.closedRefused ++ [(number, clientFd)] },
    .single (a := .caller j ∅) rfl ?_, rfl, Function.update_self ..⟩
  rw [SharedPool.step, callerStep, hpc]

/-- A caller that has the mutex returns. -/
theorem PoolOk.locked_returns (hs : s.PoolOk) {j : Fin k} (hj : (s.callers j).isLocked = true) :
    ∃ s', s.Leads s' ∧ s'.owner = s.owner ∧ s'.callers j = .idle := by
  obtain ⟨woken, s₁, hstep⟩ := hs.caller_goes_on hj
  have hleads : s.Leads s₁ := .single (a := .caller j woken) rfl hstep
  unfold callerStep at hstep
  split at hstep
  · cases hstep
  · rename_i hpc
    rw [hpc] at hj
    cases hj
  · split at hstep
    · obtain ⟨pool, -, hstep⟩ := Option.bind_eq_some_iff.mp hstep
      obtain ⟨workers, -, hstep⟩ := Option.bind_eq_some_iff.mp hstep
      cases hstep
      exact ⟨_, hleads, rfl, Function.update_self ..⟩
    · rename_i clientFd _ _
      have hpc : s₁.callers j = .refused s.refused.length clientFd := by
        cases hstep
        exact Function.update_self ..
      have howner₁ : s₁.owner = s.owner := by
        cases hstep
        rfl
      obtain ⟨s', hleads', howner, hidle⟩ := refused_returns hpc
      exact ⟨s', hleads.trans hleads', howner.trans howner₁, hidle⟩
  · rename_i hpc
    rw [hpc] at hj
    cases hj
  · rename_i hpc
    rw [hpc] at hj
    cases hj
  · cases hstep
    exact ⟨_, hleads, rfl, Function.update_self ..⟩

/-- When the mutex is free, a caller returns. -/
theorem PoolOk.unlocked_returns (hs : s.PoolOk) (hfree : s.mutex = none) (j : Fin k) :
    ∃ s', s.Leads s' ∧ s'.owner = s.owner ∧ s'.callers j = .idle := by
  have hlocks : ∀ pc : CallerPc, pc.isLocked = true →
      s.step (.caller j ∅) = some { s.setCaller j pc with mutex := some (.caller j) } →
      ∃ s', s.Leads s' ∧ s'.owner = s.owner ∧ s'.callers j = .idle := by
    intro pc hpc hstep
    have hs₁ := hs.step (step_cases hstep)
    obtain ⟨s', hleads, howner, hidle⟩ := hs₁.locked_returns (j := j) (by
      show (Function.update s.callers j pc j).isLocked = true
      rwa [Function.update_self])
    exact ⟨s', .head rfl hstep hleads, howner, hidle⟩
  cases hpc : s.callers j with
  | idle => exact ⟨s, .refl s, rfl, hpc⟩
  | submitting clientFd =>
    refine hlocks (.deciding clientFd) rfl ?_
    rw [SharedPool.step, callerStep, hpc]
    exact if_pos hfree
  | deciding clientFd => exact hs.locked_returns (by rw [hpc]; rfl)
  | refused number clientFd => exact refused_returns hpc
  | stopping =>
    refine hlocks .stoppingLocked rfl ?_
    rw [SharedPool.step, callerStep, hpc]
    exact if_pos hfree
  | stoppingLocked => exact hs.locked_returns (by rw [hpc]; rfl)

/-- The only caller returns from every call of the pool. -/
theorem PoolOk.returns {s : SharedPool n 1 capacity} (hs : s.PoolOk) (hh : s.HeldOk)
    (howner : s.owner.isLocked = false) :
    ∃ s', s.Leads s' ∧ s'.owner = s.owner ∧ s'.callers 0 = .idle := by
  cases hlocked : (s.callers 0).isLocked with
  | true => exact hs.locked_returns hlocked
  | false =>
    obtain ⟨s₁, hleads₁, howner₁, -, hfree⟩ := hs.frees hh howner fun j => by
      rwa [Fin.fin_one_eq_zero j]
    obtain ⟨s', hleads, howner', hidle⟩ := (hleads₁.poolOk hs).unlocked_returns hfree 0
    exact ⟨s', hleads₁.trans hleads, howner'.trans howner₁, hidle⟩

end SharedPool

end MiniDbms
