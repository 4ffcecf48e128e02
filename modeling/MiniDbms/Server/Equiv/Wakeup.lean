import MiniDbms.Lib.Counting
import MiniDbms.Server.Equiv.Steps

/-!
# No wake-up is lost

A worker goes to sleep only when it found no job and no stop, and both can change only while another
thread has the mutex (`TestedOk`); a worker that has exited found a stop and no job (`ExitedOk`).

From then on jobs are counted.  As long as a worker sleeps, there are at most as many jobs in the
queue as workers on their way to the test of the wait loop (`AwakeOk`): a job that is added wakes a
sleeper, and a worker that takes no further part took a job with it.  After `thread_pool_shutdown`
nobody sleeps (`StoppedOk`).
-/

namespace MiniDbms

open Counting

/-- The worker is on its way to the test of the wait loop, or has passed it and takes a job. -/
def WorkerPc.isLooking : WorkerPc → Bool
  | .locking | .testing | .waking | .checking | .closing _ _ => true
  | _ => false

/-- The worker is awake, and not in a handler. -/
def WorkerPc.isFree : WorkerPc → Bool
  | .absent | .asleep | .handling _ _ | .exited => false
  | _ => true

theorem WorkerPc.isFree_of_isLooking {pc : WorkerPc} (h : pc.isLooking = true) :
    pc.isFree = true := by
  cases pc <;> first | rfl | cases h

/-- A worker that is at a place was there, unless it has just moved there. -/
theorem of_update {n : ℕ} {workers : Fin n → WorkerPc} {i i' : Fin n} {pc pc' : WorkerPc}
    (h : Function.update workers i pc i' = pc') (hne : pc ≠ pc') : workers i' = pc' := by
  by_cases hi : i' = i
  · subst hi
    rw [Function.update_self] at h
    exact absurd h hne
  · rw [Function.update_of_ne hi] at h
    exact h

theorem of_condWake {n : ℕ} {workers : Fin n → WorkerPc} {woken : Finset (Fin n)} {i : Fin n}
    {pc : WorkerPc} (h : condWake workers woken i = pc) (hne : pc ≠ .waking) : workers i = pc := by
  unfold condWake at h
  split at h
  · exact absurd h.symm hne
  · exact h

theorem condBroadcast_ne {n : ℕ} (workers : Fin n → WorkerPc) (i : Fin n) :
    condBroadcast workers i ≠ .asleep := by
  intro h
  have hi : workers i = .asleep := of_condWake h nofun
  unfold condBroadcast condWake at h
  rw [if_pos ⟨hi, Finset.mem_univ i⟩] at h
  cases h

namespace ThreadPool

variable {capacity : ℕ} {pool : ThreadPool capacity}

theorem mustWait_iff : pool.mustWait = true ↔ pool.stopRequested = false ∧ pool.size = 0 := by
  unfold mustWait
  rw [Bool.and_eq_true, Bool.not_eq_true', decide_eq_true_eq]

theorem mustBreak_iff : pool.mustBreak = true ↔ pool.stopRequested = true ∧ pool.size = 0 := by
  unfold mustBreak
  rw [Bool.and_eq_true, decide_eq_true_eq]

theorem accepts_iff :
    pool.accepts = true ↔ pool.stopRequested = false ∧ pool.size < capacity := by
  unfold accepts
  rw [Bool.and_eq_true, Bool.not_eq_true', decide_eq_true_eq]

/-- Behind the wait loop, and not about to leave: there is a job. -/
theorem size_ne_zero (hwait : pool.mustWait = false) (hbreak : pool.mustBreak = false) :
    pool.size ≠ 0 := by
  intro hsize
  cases hstop : pool.stopRequested with
  | false =>
    rw [mustWait_iff.mpr ⟨hstop, hsize⟩] at hwait
    cases hwait
  | true =>
    rw [mustBreak_iff.mpr ⟨hstop, hsize⟩] at hbreak
    cases hbreak

end ThreadPool

namespace SharedPool

variable {n k capacity : ℕ} {s s' : SharedPool n k capacity}

/-! ### What a worker found -/

/-- What a worker found in its test still holds while it has the mutex. -/
def TestedOk (s : SharedPool n k capacity) : Prop :=
  ∀ i, (s.workers i = .waiting → s.pool.size = 0) ∧
    (s.workers i = .checking → s.pool.mustWait = false)

/-- No worker has the mutex at its test while another thread has it. -/
theorem testedOk_of_locked (hl : s.LockOk) {t : ThreadId n k} (ht : s.holds t = true)
    (hworkers : ∀ i pc, pc = .waiting ∨ pc = .checking → s'.workers i = pc →
      s.workers i = pc ∧ t ≠ .worker i) : s'.TestedOk := by
  have hnone : ∀ i pc, pc = .waiting ∨ pc = .checking → s'.workers i ≠ pc := by
    intro i pc hpc hi
    obtain ⟨hi', hne⟩ := hworkers i pc hpc hi
    refine hne (hl.eq ht ?_)
    rw [holds_worker, hi']
    rcases hpc with rfl | rfl <;> rfl
  exact fun i => ⟨fun hi => absurd hi (hnone i _ (Or.inl rfl)),
    fun hi => absurd hi (hnone i _ (Or.inr rfl))⟩

theorem TestedOk.of_worker (ht : s.TestedOk) {i : Fin n} {pc : WorkerPc}
    (hworkers : s'.workers = Function.update s.workers i pc) (hpool : s'.pool = s.pool)
    (hwaiting : pc = .waiting → s.pool.size = 0)
    (hchecking : pc = .checking → s.pool.mustWait = false) : s'.TestedOk := by
  intro i'
  rw [hworkers, hpool]
  by_cases hi : i' = i
  · subst hi
    rw [Function.update_self]
    exact ⟨hwaiting, hchecking⟩
  · rw [Function.update_of_ne hi]
    exact ht i'

theorem TestedOk.step (hl : s.LockOk) (hp : s.PhaseOk) (ht : s.TestedOk) (h : s.Step s') :
    s'.TestedOk := by
  have hwake : ∀ {woken i pc}, pc = .waiting ∨ pc = .checking →
      condWake s.workers woken i = pc → s.workers i = pc := by
    intro woken i pc hpc hi
    exact of_condWake hi (by rcases hpc with rfl | rfl <;> exact nofun)
  cases h with
  | lock _ => exact ht.of_worker rfl rfl nofun nofun
  | wait _ htest =>
    exact ht.of_worker rfl rfl (fun _ => (ThreadPool.mustWait_iff.mp htest).2) nofun
  | check _ htest => exact ht.of_worker rfl rfl nofun fun _ => htest
  | sleep _ => exact ht.of_worker rfl rfl nofun nofun
  | exit _ => exact ht.of_worker rfl rfl nofun nofun
  | @dequeue i _ _ hpc _ _ =>
    have hlocked : s.holds (.worker i) = true := by rw [holds_worker, hpc]; rfl
    -- whoever is at its test would have the mutex too
    refine testedOk_of_locked hl hlocked fun i' pc hpc' hi' => ⟨?_, ?_⟩
    · exact of_update hi' (by rcases hpc' with rfl | rfl <;> exact nofun)
    · intro heq
      cases heq
      dsimp only [setWorker] at hi'
      rw [Function.update_self] at hi'
      rcases hpc' with rfl | rfl <;> cases hi'
  | handle _ => exact ht.of_worker rfl rfl nofun nofun
  | close _ => exact ht.of_worker rfl rfl nofun nofun
  | wake _ => exact ht.of_worker rfl rfl nofun nofun
  | @submit j _ _ _ hpc _ _ _ =>
    have hlocked : s.holds (.caller j) = true := by rw [holds_caller, hpc]; rfl
    exact testedOk_of_locked hl hlocked fun i' pc hpc' hi' => ⟨hwake hpc' hi', nofun⟩
  | @stop j hpc =>
    have hlocked : s.holds (.caller j) = true := by rw [holds_caller, hpc]; rfl
    exact testedOk_of_locked hl hlocked fun i' pc hpc' hi' => ⟨hwake hpc' hi', nofun⟩
  | stopDestroy hpc =>
    have hlocked : s.holds .owner = true := by rw [holds_owner, hpc]; rfl
    exact testedOk_of_locked hl hlocked fun i' pc hpc' hi' => ⟨hwake hpc' hi', nofun⟩
  | init hpc _ _ =>
    -- no worker is there yet
    have hok := hp.owner
    rw [hpc] at hok
    intro i
    dsimp only [setOwner]
    rw [hok.2 i]
    exact ⟨nofun, nofun⟩
  | create _ _ => exact ht.of_worker rfl rfl nofun nofun
  | createFail _ => exact fun i => ⟨(ht i).1, fun _ => rfl⟩
  | broadcast _ =>
    exact fun i => ⟨fun hi => (ht i).1 (hwake (Or.inl rfl) hi),
      fun hi => (ht i).2 (hwake (Or.inr rfl) hi)⟩
  | destroyed hpc hle =>
    -- all workers were joined
    have hok := hp.owner
    rw [hpc] at hok
    intro i
    dsimp only [setOwner]
    rw [hok.2 i (i.isLt.trans_le hle)]
    exact ⟨nofun, nofun⟩
  | _ => exact ht

/-! ### Who has exited -/

/-- A worker exits when a stop is requested and no job is left; from then on no job is accepted. -/
def ExitedOk (s : SharedPool n k capacity) : Prop :=
  ∀ i, s.workers i = .exited →
    s.pool.size = 0 ∧ (s.pool.stopRequested = true ∨ s.owner.isAlive = false)

/-- The owner moves, and what the pool has and who has exited does not change. -/
theorem ExitedOk.of_owner (he : s.ExitedOk) (hexited : ∀ i, s'.workers i = .exited →
      s.workers i = .exited) (hsize : s'.pool.size = s.pool.size)
    (hstop : s.pool.stopRequested = true → s'.pool.stopRequested = true)
    (halive : s.owner.isAlive = false → s'.owner.isAlive = false) : s'.ExitedOk := by
  intro i hi
  obtain ⟨hnone, hstopped⟩ := he i (hexited i hi)
  rw [hsize]
  exact ⟨hnone, hstopped.imp hstop halive⟩

theorem ExitedOk.step (hp : s.PhaseOk) (he : s.ExitedOk) (h : s.Step s') : s'.ExitedOk := by
  have hwake : ∀ {woken i}, condWake s.workers woken i = .exited → s.workers i = .exited :=
    fun hi => of_condWake hi nofun
  cases h with
  | lock _ _ => exact he.of_owner (fun i hi => of_update hi nofun) rfl id id
  | wait _ _ => exact he.of_owner (fun i hi => of_update hi nofun) rfl id id
  | check _ _ => exact he.of_owner (fun i hi => of_update hi nofun) rfl id id
  | sleep _ => exact he.of_owner (fun i hi => of_update hi nofun) rfl id id
  | exit hpc htest =>
    obtain ⟨hstop, hsize⟩ := ThreadPool.mustBreak_iff.mp htest
    exact fun _ _ => ⟨hsize, Or.inl hstop⟩
  | dequeue _ _ hjob =>
    obtain ⟨jobs, -, -, rfl⟩ := ThreadPool.dequeue_eq_some hjob
    intro i hi
    obtain ⟨hsize, hstopped⟩ := he i (of_update hi nofun)
    refine ⟨?_, hstopped⟩
    dsimp only
    rw [hsize]
  | handle _ => exact he.of_owner (fun i hi => of_update hi nofun) rfl id id
  | close _ => exact he.of_owner (fun i hi => of_update hi nofun) rfl id id
  | wake _ => exact he.of_owner (fun i hi => of_update hi nofun) rfl id id
  | @submit j _ _ _ hpc htest _ _ =>
    intro i hi
    obtain ⟨-, hstopped⟩ := he i (hwake hi)
    have hrunning : s.owner = .running := hp.callers j (by rw [hpc]; exact nofun)
    rw [(ThreadPool.accepts_iff.mp htest).1, hrunning] at hstopped
    rcases hstopped with hstopped | hstopped <;> cases hstopped
  | stop _ => exact he.of_owner (fun i hi => hwake hi) rfl (fun _ => rfl) id
  | initFail _ => exact he.of_owner (fun i => id) rfl id fun _ => rfl
  | init hpc _ _ =>
    have hok := hp.owner
    rw [hpc] at hok
    intro i hi
    exact absurd ((hok.2 i).symm.trans hi) nofun
  | create hpc _ =>
    exact he.of_owner (fun i hi => of_update hi nofun) rfl id fun h => by rw [hpc] at h; cases h
  | createFail hpc =>
    exact he.of_owner (fun i => id) rfl (fun _ => rfl) fun h => by rw [hpc] at h; cases h
  | created hpc _ => exact he.of_owner (fun i => id) rfl id fun h => by rw [hpc] at h; cases h
  | broadcast hpc =>
    exact he.of_owner (fun i hi => hwake hi) rfl id fun h => by rw [hpc] at h; cases h
  | failJoin hpc _ _ => exact he.of_owner (fun i => id) rfl id fun h => by rw [hpc] at h; cases h
  | fail _ => exact he.of_owner (fun i => id) rfl id fun _ => rfl
  | destroy hpc _ _ => exact he.of_owner (fun i => id) rfl id fun h => by rw [hpc] at h; cases h
  | lockDestroy hpc _ => exact he.of_owner (fun i => id) rfl id fun h => by rw [hpc] at h; cases h
  | stopDestroy hpc =>
    exact he.of_owner (fun i hi => hwake hi) rfl (fun _ => rfl) fun h => by rw [hpc] at h; cases h
  | join hpc _ _ => exact he.of_owner (fun i => id) rfl id fun h => by rw [hpc] at h; cases h
  | destroyed _ _ => exact fun _ _ => ⟨rfl, Or.inr rfl⟩
  | _ => exact he

/-! ### Nobody sleeps after the stop -/

/-- After `thread_pool_shutdown` no worker sleeps or is about to. -/
def StoppedOk (s : SharedPool n k capacity) : Prop :=
  s.stops ≠ [] → ∀ i, s.workers i ≠ .asleep ∧ s.workers i ≠ .waiting

theorem StoppedOk.of_workers (hs : s.StoppedOk) (hstops : s'.stops = s.stops)
    (hworkers : ∀ i pc, pc = .asleep ∨ pc = .waiting → s'.workers i = pc → s.workers i = pc) :
    s'.StoppedOk := by
  intro hne i
  rw [hstops] at hne
  exact ⟨fun hi => (hs hne i).1 (hworkers i _ (Or.inl rfl) hi),
    fun hi => (hs hne i).2 (hworkers i _ (Or.inr rfl) hi)⟩

/-- The broadcast of the thread that has the mutex reaches all sleepers. -/
theorem stoppedOk_of_broadcast (hl : s.LockOk) {t : ThreadId n k} (ht : s.holds t = true)
    (hne : ∀ i, t ≠ .worker i) (hworkers : s'.workers = condBroadcast s.workers) :
    s'.StoppedOk := by
  intro _ i
  rw [hworkers]
  refine ⟨condBroadcast_ne _ _, fun hi => hne i (hl.eq ht ?_)⟩
  rw [holds_worker, of_condWake hi nofun]
  rfl

theorem StoppedOk.step (hl : s.LockOk) (hp : s.PhaseOk) (hs : s.StoppedOk) (h : s.Step s') :
    s'.StoppedOk := by
  have hupdate : ∀ {i i' pc pc'}, pc ≠ .asleep → pc ≠ .waiting → pc' = .asleep ∨ pc' = .waiting →
      Function.update s.workers i pc i' = pc' → s.workers i' = pc' := by
    intro i i' pc pc' hasleep hwaiting hpc' hi
    refine of_update hi ?_
    rcases hpc' with rfl | rfl
    · exact hasleep
    · exact hwaiting
  have hwake : ∀ {woken i pc}, pc = .asleep ∨ pc = .waiting →
      condWake s.workers woken i = pc → s.workers i = pc := by
    intro woken i pc hpc hi
    exact of_condWake hi (by rcases hpc with rfl | rfl <;> exact nofun)
  cases h with
  | lock _ _ => exact hs.of_workers rfl fun i pc hpc => hupdate nofun nofun hpc
  | @wait i hpc htest =>
    -- the test would have seen the stop
    intro hne
    have hstop : s.pool.stopRequested = true :=
      hp.stopRequested hne (by rw [hpc]; rfl : (s.workers i).isGone = false)
    rw [(ThreadPool.mustWait_iff.mp htest).1] at hstop
    cases hstop
  | check _ _ => exact hs.of_workers rfl fun i pc hpc => hupdate nofun nofun hpc
  | @sleep i hpc => exact fun hne => absurd hpc (hs hne i).2
  | exit _ _ => exact hs.of_workers rfl fun i pc hpc => hupdate nofun nofun hpc
  | dequeue _ _ _ => exact hs.of_workers rfl fun i pc hpc => hupdate nofun nofun hpc
  | handle _ => exact hs.of_workers rfl fun i pc hpc => hupdate nofun nofun hpc
  | close _ => exact hs.of_workers rfl fun i pc hpc => hupdate nofun nofun hpc
  | wake _ => exact hs.of_workers rfl fun i pc hpc => hupdate nofun nofun hpc
  | submit _ _ _ _ => exact hs.of_workers rfl fun i pc hpc => hwake hpc
  | @stop j hpc =>
    have hlocked : s.holds (.caller j) = true := by rw [holds_caller, hpc]; rfl
    exact stoppedOk_of_broadcast hl hlocked nofun rfl
  | create _ _ => exact hs.of_workers rfl fun i pc hpc => hupdate nofun nofun hpc
  | broadcast _ => exact hs.of_workers rfl fun i pc hpc => hwake hpc
  | stopDestroy hpc =>
    have hlocked : s.holds .owner = true := by rw [holds_owner, hpc]; rfl
    exact stoppedOk_of_broadcast hl hlocked nofun rfl
  | _ => exact hs

/-! ### The count of jobs and workers -/

/-- As long as a worker sleeps, there are no more jobs than workers that look for one. -/
def AwakeOk (s : SharedPool n k capacity) : Prop :=
  (∃ i, s.workers i = .asleep) → s.pool.size ≤ countOf WorkerPc.isLooking s.workers

/-- There is no job. -/
theorem awakeOk_of_size (hsize : s'.pool.size = 0) : s'.AwakeOk := by
  intro _
  rw [hsize]
  exact Nat.zero_le _

/-- A worker moves, and the queue does not change. -/
theorem AwakeOk.of_worker (ha : s.AwakeOk) {i : Fin n} {pc : WorkerPc}
    (hworkers : s'.workers = Function.update s.workers i pc) (hsize : s'.pool.size = s.pool.size)
    (hasleep : pc ≠ .asleep)
    (hlooking : (s.workers i).isLooking = true → pc.isLooking = true) : s'.AwakeOk := by
  rintro ⟨i', hi'⟩
  rw [hworkers] at hi' ⊢
  rw [hsize]
  refine (ha ⟨i', of_update hi' hasleep⟩).trans (countOf_mono fun t ht => ?_)
  by_cases heq : t = i
  · subst heq
    rw [Function.update_self]
    exact hlooking ht
  · rw [Function.update_of_ne heq]
    exact ht

theorem isLooking_condWake {workers : Fin n → WorkerPc} (woken : Finset (Fin n)) {i : Fin n}
    (h : (workers i).isLooking = true) : (condWake workers woken i).isLooking = true := by
  rw [condWake_of_ne]
  · exact h
  · intro hi
    rw [hi] at h
    cases h

/-- A job is added, and a sleeper woken. -/
theorem AwakeOk.submit (ha : s.AwakeOk) {woken : Finset (Fin n)}
    (hsignal : (∃ i, s.workers i = .asleep) → ∃ i ∈ woken, s.workers i = .asleep)
    (hworkers : s'.workers = condWake s.workers woken)
    (hsize : s'.pool.size = s.pool.size + 1) : s'.AwakeOk := by
  rintro ⟨i', hi'⟩
  rw [hworkers] at hi' ⊢
  rw [hsize]
  have hasleep : ∃ i, s.workers i = .asleep := ⟨i', of_condWake hi' nofun⟩
  obtain ⟨i, hwoken, hi⟩ := hsignal hasleep
  have hlt : countOf WorkerPc.isLooking s.workers <
      countOf WorkerPc.isLooking (condWake s.workers woken) := by
    apply countOf_lt (fun t => isLooking_condWake woken) (t := i)
    · rw [hi]
      rfl
    · unfold condWake
      rw [if_pos ⟨hi, hwoken⟩]
      rfl
  exact (ha hasleep).trans_lt hlt

/-- A worker takes a job with it. -/
theorem AwakeOk.dequeue (ha : s.AwakeOk) {i : Fin n} {pc : WorkerPc}
    (hworkers : s'.workers = Function.update s.workers i pc)
    (hsize : s'.pool.size = s.pool.size - 1) (hasleep : pc ≠ .asleep) : s'.AwakeOk := by
  rintro ⟨i', hi'⟩
  rw [hworkers] at hi' ⊢
  rw [hsize]
  have hle := ha ⟨i', of_update hi' hasleep⟩
  have hcount := countOf_update WorkerPc.isLooking s.workers i pc
  have hone : ((s.workers i).isLooking).toNat ≤ 1 := Bool.toNat_le _
  omega

theorem AwakeOk.step (ht : s.TestedOk) (ha : s.AwakeOk) (h : s.Step s') :
    s'.AwakeOk := by
  cases h with
  | lock _ _ => exact ha.of_worker rfl rfl nofun fun _ => rfl
  | wait _ htest => exact awakeOk_of_size (ThreadPool.mustWait_iff.mp htest).2
  | check _ _ => exact ha.of_worker rfl rfl nofun fun _ => rfl
  | @sleep i hpc => exact awakeOk_of_size ((ht i).1 hpc)
  | exit _ htest => exact awakeOk_of_size (ThreadPool.mustBreak_iff.mp htest).2
  | dequeue _ _ hjob =>
    obtain ⟨jobs, -, -, rfl⟩ := ThreadPool.dequeue_eq_some hjob
    exact ha.dequeue rfl rfl nofun
  | handle hpc => exact ha.of_worker rfl rfl nofun fun _ => rfl
  | close _ => exact ha.of_worker rfl rfl nofun fun _ => rfl
  | wake _ => exact ha.of_worker rfl rfl nofun fun _ => rfl
  | submit _ _ hjob hsignal =>
    obtain ⟨jobs, jobs', -, -, rfl⟩ := ThreadPool.enqueue_eq_some hjob
    exact ha.submit hsignal rfl rfl
  | stop _ => exact fun ⟨i, hi⟩ => absurd hi (condBroadcast_ne _ i)
  | init _ _ _ => exact awakeOk_of_size rfl
  | create _ _ => exact ha.of_worker rfl rfl nofun fun _ => rfl
  | broadcast _ => exact fun ⟨i, hi⟩ => absurd hi (condBroadcast_ne _ i)
  | stopDestroy _ => exact fun ⟨i, hi⟩ => absurd hi (condBroadcast_ne _ i)
  | destroyed _ _ => exact awakeOk_of_size rfl
  | _ => exact ha

/-! ### Every run -/

/-- What every step of the pool keeps. -/
structure WakeOk (s : SharedPool n k capacity) : Prop where
  lock : s.LockOk
  phase : s.PhaseOk
  tested : s.TestedOk
  exited : s.ExitedOk
  stopped : s.StoppedOk
  awake : s.AwakeOk

theorem wakeOk_start (n k capacity : ℕ) : (start n k capacity).WakeOk :=
  ⟨lockOk_start n k capacity, phaseOk_start n k capacity, fun _ => ⟨nofun, nofun⟩, fun _ => nofun,
    fun h => absurd rfl h, fun ⟨_, hi⟩ => nomatch hi⟩

theorem WakeOk.step (hw : s.WakeOk) (h : s.Step s') : s'.WakeOk :=
  ⟨hw.lock.step h, hw.phase.step h, hw.tested.step hw.lock hw.phase h, hw.exited.step hw.phase h,
    hw.stopped.step hw.lock hw.phase h, hw.awake.step hw.tested h⟩

theorem WakeOk.run (hw : s.WakeOk) {actions : List (PoolAction n k)}
    (h : s.run actions = some s') : s'.WakeOk :=
  run_keeps (fun _ _ => WakeOk.step) hw h

end SharedPool

open SharedPool

/-- **No wake-up is lost.**  While a worker sleeps, there are at most as many jobs as workers that
are awake and not in a handler, and if there is a job, one of them is on its way to take it; after
`thread_pool_shutdown` nobody sleeps. -/
theorem thread_pool_no_lost_wakeup {n k capacity : ℕ} {actions : List (PoolAction n k)}
    {s : SharedPool n k capacity} (h : (start n k capacity).run actions = some s) :
    ((∃ i, s.workers i = .asleep) →
      s.pool.size ≤ countOf WorkerPc.isFree s.workers ∧
      (0 < s.pool.size → ∃ i, (s.workers i).isLooking = true)) ∧
    (s.stops ≠ [] → ∀ i, s.workers i ≠ .asleep) ∧
    (∀ index, s.owner = .joining index → ∀ i, s.workers i ≠ .asleep) := by
  have hw := (wakeOk_start n k capacity).run h
  have hstopped : s.stops ≠ [] → ∀ i, s.workers i ≠ .asleep :=
    fun hstops i => (hw.stopped hstops i).1
  refine ⟨fun hasleep => ⟨?_, fun hpos => ?_⟩, hstopped, fun index hpc => hstopped ?_⟩
  · exact (hw.awake hasleep).trans (countOf_mono fun _ => WorkerPc.isFree_of_isLooking)
  · by_contra hnone
    have hzero : countOf WorkerPc.isLooking s.workers = 0 :=
      countOf_eq_zero fun i => Bool.eq_false_iff.mpr fun hi => hnone ⟨i, hi⟩
    have hle := hw.awake hasleep
    omega
  · have hok := hw.phase.owner
    rw [hpc] at hok
    exact hok.1.2

/-- Two workers sleep, and a job is added. -/
def sleepersRun : List (PoolAction 2 1) :=
  let main : Fin 1 := ⟨0, Nat.one_pos⟩
  let first : Fin 2 := ⟨0, Nat.zero_lt_two⟩
  let second : Fin 2 := ⟨1, Nat.one_lt_two⟩
  List.replicate 4 (.owner true) ++ List.replicate 3 (.worker first) ++
  List.replicate 3 (.worker second) ++ [.accept main 5, .caller main ∅, .caller main {first}]

theorem thread_pool_no_lost_wakeup_sleepers :
    ∃ s, (start 2 1 1).run sleepersRun = some s ∧ (∃ i, s.workers i = .asleep) ∧
      s.pool.size = 1 ∧ s.pool.size ≤ countOf WorkerPc.isFree s.workers := by
  have hrun : ((start 2 1 1).run sleepersRun).map (fun s => (s.pool.size, s.workers 1)) =
      some (1, .asleep) := by
    decide
  obtain ⟨s, hs, heq⟩ := Option.map_eq_some_iff.mp hrun
  obtain ⟨hsize, hasleep⟩ := Prod.mk.inj heq
  have hone : ∃ i, s.workers i = .asleep := ⟨1, hasleep⟩
  obtain ⟨hcount, -, -⟩ := thread_pool_no_lost_wakeup hs
  exact ⟨s, hs, hone, hsize, (hcount hone).1⟩

end MiniDbms
