import MiniDbms.Server.Equiv.Queue
import MiniDbms.Server.Equiv.Service

/-!
# Every accepted connection is served once

What `thread_pool_submit` returns depends on what it found (`SubmitOk`).  With the queue, the
workers and the callers it follows that every accepted connection is handled once and closed once,
by the same worker, that every refused one is closed once by its caller and never handled, and that
nothing is left when `thread_pool_destroy` returns (`thread_pool_serves_once`).
-/

namespace MiniDbms

open Counting

namespace SharedPool

variable {n k capacity : ℕ} {s s' : SharedPool n k capacity}

/-! ### What `thread_pool_submit` returns -/

/-- The calls of `thread_pool_submit` that returned. -/
structure SubmitOk (s : SharedPool n k capacity) : Prop where
  accepted : (s.submits.filter Submit.accepted).map Submit.clientFd = s.accepted
  accepted_numbers : (s.submits.filter Submit.accepted).map Submit.number =
    List.range s.accepted.length
  refused : (s.submits.filter fun a => !a.accepted).map Submit.clientFd = s.refused
  refused_numbers : (s.submits.filter fun a => !a.accepted).map Submit.number =
    List.range s.refused.length
  past : ∀ a ∈ s.submits, a.decided < s.clock
  stops_past : ∀ time ∈ s.stops, time < s.clock
  result : ∀ a ∈ s.submits,
    a.accepted = false ↔ a.size = capacity ∨ ∃ time ∈ s.stops, time < a.decided

/-- A step in which no call is decided and no stop requested. -/
theorem SubmitOk.of_eq (hs : s.SubmitOk) (hsubmits : s'.submits = s.submits)
    (haccepted : s'.accepted = s.accepted) (hrefused : s'.refused = s.refused)
    (hstops : s'.stops = s.stops) (hclock : s'.clock = s.clock + 1) : s'.SubmitOk := by
  refine ⟨?_, ?_, ?_, ?_, ?_, ?_, ?_⟩
  · rw [hsubmits, haccepted]
    exact hs.accepted
  · rw [hsubmits, haccepted]
    exact hs.accepted_numbers
  · rw [hsubmits, hrefused]
    exact hs.refused
  · rw [hsubmits, hrefused]
    exact hs.refused_numbers
  · intro a ha
    rw [hsubmits] at ha
    rw [hclock]
    exact (hs.past a ha).trans (Nat.lt_succ_self _)
  · intro time htime
    rw [hstops] at htime
    rw [hclock]
    exact (hs.stops_past time htime).trans (Nat.lt_succ_self _)
  · rw [hsubmits, hstops]
    exact hs.result

/-- A call is decided: it is refused when the queue is full or a stop was requested. -/
theorem SubmitOk.decide (hs : s.SubmitOk) (clientFd : ℤ) (accepted : Bool)
    (hresult : accepted = false ↔ s.pool.size = capacity ∨ s.stops ≠ [])
    (hsubmits : s'.submits = s.submits ++ [s.submitted clientFd accepted])
    (haccepted : s'.accepted = s.accepted ++ if accepted then [clientFd] else [])
    (hrefused : s'.refused = s.refused ++ if accepted then [] else [clientFd])
    (hstops : s'.stops = s.stops) (hclock : s'.clock = s.clock + 1) : s'.SubmitOk := by
  have hnew : ∀ a ∈ s'.submits, a ∈ s.submits ∨ a = s.submitted clientFd accepted := by
    intro a ha
    rw [hsubmits] at ha
    exact (List.mem_append.mp ha).imp id List.mem_singleton.mp
  refine ⟨?_, ?_, ?_, ?_, ?_, ?_, ?_⟩
  · rw [hsubmits, haccepted, List.filter_append, List.map_append, hs.accepted]
    cases accepted <;> rfl
  · rw [hsubmits, haccepted, List.filter_append, List.map_append, hs.accepted_numbers]
    cases accepted with
    | false => simp [submitted]
    | true => simp [submitted, List.range_succ]
  · rw [hsubmits, hrefused, List.filter_append, List.map_append, hs.refused]
    cases accepted <;> rfl
  · rw [hsubmits, hrefused, List.filter_append, List.map_append, hs.refused_numbers]
    cases accepted with
    | false => simp [submitted, List.range_succ]
    | true => simp [submitted]
  · intro a ha
    rw [hclock]
    rcases hnew a ha with ha | rfl
    · exact (hs.past a ha).trans (Nat.lt_succ_self _)
    · exact Nat.lt_succ_self _
  · intro time htime
    rw [hstops] at htime
    rw [hclock]
    exact (hs.stops_past time htime).trans (Nat.lt_succ_self _)
  · intro a ha
    rw [hstops]
    rcases hnew a ha with ha | rfl
    · exact hs.result a ha
    · -- every stop was before now
      have hstopped : s.stops ≠ [] ↔ ∃ time ∈ s.stops, time < s.clock := by
        constructor
        · intro hne
          obtain ⟨time, htime⟩ := List.exists_mem_of_ne_nil _ hne
          exact ⟨time, htime, hs.stops_past time htime⟩
        · rintro ⟨time, htime, -⟩
          exact List.ne_nil_of_mem htime
      exact hresult.trans (or_congr Iff.rfl hstopped)

/-- A stop is requested: the calls before were decided without it. -/
theorem SubmitOk.stop (hs : s.SubmitOk) (hsubmits : s'.submits = s.submits)
    (haccepted : s'.accepted = s.accepted) (hrefused : s'.refused = s.refused)
    (hstops : s'.stops = s.stops ++ [s.clock]) (hclock : s'.clock = s.clock + 1) :
    s'.SubmitOk := by
  refine ⟨?_, ?_, ?_, ?_, ?_, ?_, ?_⟩
  · rw [hsubmits, haccepted]
    exact hs.accepted
  · rw [hsubmits, haccepted]
    exact hs.accepted_numbers
  · rw [hsubmits, hrefused]
    exact hs.refused
  · rw [hsubmits, hrefused]
    exact hs.refused_numbers
  · intro a ha
    rw [hsubmits] at ha
    rw [hclock]
    exact (hs.past a ha).trans (Nat.lt_succ_self _)
  · intro time htime
    rw [hstops] at htime
    rw [hclock]
    rcases List.mem_append.mp htime with htime | htime
    · exact (hs.stops_past time htime).trans (Nat.lt_succ_self _)
    · rw [List.mem_singleton.mp htime]
      exact Nat.lt_succ_self _
  · intro a ha
    rw [hsubmits] at ha
    rw [hs.result a ha, hstops]
    apply or_congr Iff.rfl
    constructor
    · rintro ⟨time, htime, hlt⟩
      exact ⟨time, List.mem_append_left _ htime, hlt⟩
    · rintro ⟨time, htime, hlt⟩
      rcases List.mem_append.mp htime with htime | htime
      · exact ⟨time, htime, hlt⟩
      · rw [List.mem_singleton.mp htime] at hlt
        exact absurd (hs.past a ha) hlt.asymm

theorem SubmitOk.step (hp : s.PhaseOk) (hq : s.QueueOk) (hs : s.SubmitOk) (h : s.Step s') :
    s'.SubmitOk := by
  -- while callers are at work, the flag says whether a stop was requested
  have hflag : ∀ {j clientFd}, s.callers j = .deciding clientFd →
      (s.pool.stopRequested = true ↔ s.stops ≠ []) := by
    intro j clientFd hpc
    have hok := hp.owner
    rw [hp.callers j (by rw [hpc]; exact nofun)] at hok
    exact hok
  have hle := hq.size_le
  cases h with
  | submit hpc htest _ _ =>
    obtain ⟨hstop, hlt⟩ := ThreadPool.accepts_iff.mp htest
    refine hs.decide _ true ⟨nofun, ?_⟩ rfl rfl (List.append_nil _).symm rfl rfl
    rintro (hfull | hstops)
    · exact absurd hfull hlt.ne
    · rw [(hflag hpc).mpr hstops] at hstop
      cases hstop
  | refuse hpc htest =>
    refine hs.decide _ false ⟨fun _ => ?_, fun _ => rfl⟩ rfl (List.append_nil _).symm rfl rfl rfl
    rw [← hflag hpc]
    by_contra hnot
    rw [not_or, Bool.not_eq_true] at hnot
    rw [ThreadPool.accepts_iff.mpr ⟨hnot.2, lt_of_le_of_ne hle hnot.1⟩] at htest
    cases htest
  | stop _ => exact hs.stop rfl rfl rfl rfl rfl
  | stopDestroy _ => exact hs.stop rfl rfl rfl rfl rfl
  | _ => exact hs.of_eq rfl rfl rfl rfl rfl

/-! ### Every run -/

/-- What every step of the pool keeps. -/
structure PoolOk (s : SharedPool n k capacity) : Prop where
  wake : s.WakeOk
  fresh : s.FreshOk
  queue : s.QueueOk
  service : s.ServiceOk
  refusal : s.RefusalOk
  submit : s.SubmitOk

theorem poolOk_start (n k capacity : ℕ) : (start n k capacity).PoolOk := by
  refine ⟨wakeOk_start n k capacity, fun _ => rfl, ?_, ?_, ?_, ?_⟩
  · exact ⟨rfl, rfl, rfl, Nat.zero_le _, (Nat.zero_mod capacity).symm, nofun⟩
  · exact ⟨balanced_nil fun _ _ => rfl, balanced_nil fun _ _ => rfl, nofun, nofun, nofun, nofun⟩
  · exact ⟨balanced_nil fun _ _ => rfl, nofun, nofun⟩
  · exact ⟨rfl, rfl, rfl, rfl, nofun, nofun, nofun⟩

theorem PoolOk.step (hs : s.PoolOk) (h : s.Step s') : s'.PoolOk :=
  ⟨hs.wake.step h, hs.fresh.step hs.wake.phase h, hs.queue.step hs.wake hs.fresh h,
    hs.service.step hs.wake.phase h, hs.refusal.step h, hs.submit.step hs.wake.phase hs.queue h⟩

theorem PoolOk.run (hs : s.PoolOk) {actions : List (PoolAction n k)}
    (h : s.run actions = some s') : s'.PoolOk :=
  run_keeps (fun _ _ => PoolOk.step) hs h

/-! ### Who has the mutex can go on -/

/-- There is a job to dequeue. -/
theorem PoolOk.dequeue (hs : s.PoolOk) {i : Fin n} (hpc : s.workers i = .checking)
    (htest : s.pool.mustBreak = false) : ∃ result, s.pool.dequeue = some result := by
  have halive := hs.wake.phase.isAlive (by rw [hpc]; rfl : (s.workers i).isGone = false)
  obtain ⟨-, hsome, -⟩ := hs.wake.phase.alive halive
  obtain ⟨jobs, hjobs⟩ := Option.isSome_iff_exists.mp hsome
  have hsize := ThreadPool.size_ne_zero ((hs.wake.tested i).2 hpc) htest
  have hring := hs.queue.ring jobs hjobs
  have hlength := hs.queue.length_queue
  cases hqueue : s.queue with
  | nil =>
    rw [hqueue] at hlength
    exact absurd hlength.symm hsize
  | cons job rest =>
    rw [hqueue] at hring
    exact ⟨_, CArray.bind_eq_of_eq_some hjobs (CArray.bind_eq_of_eq_some hring.pop.1 rfl)⟩

/-- There is a place for an accepted job. -/
theorem PoolOk.enqueue (hs : s.PoolOk) {j : Fin k} {clientFd : ℤ}
    (hpc : s.callers j = .deciding clientFd) (htest : s.pool.accepts = true) :
    ∃ pool, s.pool.enqueue clientFd = some pool := by
  have hrunning := hs.wake.phase.callers j (by rw [hpc]; exact nofun)
  obtain ⟨-, hsome, -⟩ := hs.wake.phase.alive (by rw [hrunning]; rfl)
  obtain ⟨jobs, hjobs⟩ := Option.isSome_iff_exists.mp hsome
  have hlt : s.queue.length < capacity := by
    rw [hs.queue.length_queue]
    exact (ThreadPool.accepts_iff.mp htest).2
  obtain ⟨jobs', hwrite, -⟩ := (hs.queue.ring jobs hjobs).push hlt ⟨clientFd⟩
  exact ⟨_, CArray.bind_eq_of_eq_some hjobs (CArray.bind_eq_of_eq_some hwrite rfl)⟩

theorem PoolOk.caller_goes_on (hs : s.PoolOk) {j : Fin k} (ht : (s.callers j).isLocked = true) :
    ∃ woken s', s.callerStep j woken = some s' := by
  unfold callerStep
  cases hpc : s.callers j with
  | deciding clientFd =>
    refine ⟨Finset.univ, ?_⟩
    dsimp only
    cases htest : s.pool.accepts with
    | true =>
      obtain ⟨pool, hjob⟩ := hs.enqueue hpc htest
      have hsignal : condSignal s.workers Finset.univ = some (condWake s.workers Finset.univ) :=
        if_pos fun ⟨i, hi⟩ => ⟨i, Finset.mem_univ i, hi⟩
      rw [if_pos rfl, hjob, hsignal]
      exact ⟨_, rfl⟩
    | false => exact ⟨_, rfl⟩
  | stoppingLocked => exact ⟨∅, _, rfl⟩
  | _ =>
    rw [hpc] at ht
    cases ht

theorem PoolOk.worker_goes_on (hs : s.PoolOk) {i : Fin n} (ht : (s.workers i).isLocked = true) :
    ∃ s', s.workerStep i = some s' := by
  unfold workerStep
  cases hpc : s.workers i with
  | testing => exact ⟨_, rfl⟩
  | waiting => exact ⟨_, rfl⟩
  | checking =>
    dsimp only
    cases htest : s.pool.mustBreak with
    | true => exact ⟨_, rfl⟩
    | false =>
      obtain ⟨⟨clientFd, pool⟩, hjob⟩ := hs.dequeue hpc htest
      rw [hjob]
      exact ⟨_, rfl⟩
  | _ =>
    rw [hpc] at ht
    cases ht

/-- **A thread that has the mutex can always go on**, whoever is asleep: the ring is never read when
it is empty, and never written when it is full. -/
theorem PoolOk.goes_on (hs : s.PoolOk) {t : ThreadId n k} (ht : s.holds t = true) :
    ∃ a s', s.step a = some s' := by
  cases t with
  | owner =>
    have hrun : ∃ s', s.ownerStep true = some s' := by
      unfold ownerStep
      change s.owner.isLocked = true at ht
      cases hpc : s.owner with
      | stoppingLocked => exact ⟨_, rfl⟩
      | _ =>
        rw [hpc] at ht
        cases ht
    exact ⟨.owner true, hrun⟩
  | caller j =>
    obtain ⟨woken, hrun⟩ := hs.caller_goes_on ht
    exact ⟨.caller j woken, hrun⟩
  | worker i => exact ⟨.worker i, hs.worker_goes_on ht⟩

/-! ### The accepted connections -/

theorem PoolOk.nodup_dequeued (hs : s.PoolOk) : (s.dequeued.map Service.job).Nodup := by
  rw [hs.queue.numbers]
  exact List.nodup_range

theorem PoolOk.nodup_handled (hs : s.PoolOk) : (s.handled.map Service.job).Nodup :=
  hs.service.handled.nodup hs.nodup_dequeued

theorem PoolOk.dequeued_prefix (hs : s.PoolOk) :
    s.dequeued.map Service.clientFd <+: s.accepted := by
  rw [hs.queue.order]
  exact List.take_prefix _ _

/-- A dequeued job has the file descriptor that was accepted under its number. -/
theorem PoolOk.accepted_of_dequeued (hs : s.PoolOk) {x : Service n} (hx : x ∈ s.dequeued) :
    s.accepted[x.job]? = some x.clientFd := by
  obtain ⟨i, hi, rfl⟩ := List.mem_iff_getElem.mp hx
  have hnumber : s.dequeued[i].job = i := by
    have heq := congrArg (fun numbers => numbers[i]?) hs.queue.numbers
    rw [List.getElem?_map, List.getElem?_eq_getElem hi, List.getElem?_range hi] at heq
    exact Option.some.inj heq
  have hfd := congrArg (fun fds => fds[i]?) hs.queue.order
  rw [List.getElem?_map, List.getElem?_eq_getElem hi, List.getElem?_take_of_lt hi] at hfd
  rw [hnumber]
  exact hfd.symm

/-- The accepted connections: `thread_pool_submit` returned 1. -/
structure AcceptedOnce (s : SharedPool n k capacity) : Prop where
  /-- They are the accepted calls, in order, -/
  calls : (s.submits.filter Submit.accepted).map Submit.clientFd = s.accepted
  /-- and are dequeued in this order. -/
  order : s.dequeued.map Service.clientFd <+: s.accepted
  /-- A worker handles what was accepted, once, -/
  handled : ∀ x ∈ s.handled, s.accepted[x.job]? = some x.clientFd
  handled_once : (s.handled.map Service.job).Nodup
  /-- and closes what it has handled, once. -/
  closed : ∀ x ∈ s.closed, x ∈ s.handled
  closed_once : (s.closed.map Service.job).Nodup
  /-- Every one is in one place: in the queue, in a handler, about to be closed, or closed. -/
  place : ∀ job < s.accepted.length, (if s.dequeued.length ≤ job then 1 else 0) +
    countOf (WorkerPc.isHandling job) s.workers + countOf (WorkerPc.isClosing job) s.workers +
    (s.closed.map Service.job).count job = 1

theorem PoolOk.acceptedOnce (hs : s.PoolOk) : s.AcceptedOnce := by
  refine ⟨hs.submit.accepted, hs.dequeued_prefix, fun x hx => ?_, hs.nodup_handled,
    hs.service.closed_mem, hs.service.closed.nodup hs.nodup_handled, fun job hjob => ?_⟩
  · exact hs.accepted_of_dequeued (hs.service.handled_mem x hx)
  · have hhandled := hs.service.handled job
    have hclosed := hs.service.closed job
    have hcount : (s.dequeued.map Service.job).count job =
        if s.dequeued.length ≤ job then 0 else 1 := by
      rw [hs.queue.numbers]
      split_ifs with hle
      · exact List.count_eq_zero_of_not_mem fun hmem => hle.not_gt (List.mem_range.mp hmem)
      · exact List.count_eq_one_of_mem List.nodup_range (List.mem_range.mpr (Nat.lt_of_not_le hle))
    rw [hcount] at hhandled
    split_ifs at hhandled ⊢ <;> omega

/-- A worker handles a file descriptor at most as often as it was accepted; so it never handles one
that was only refused. -/
theorem PoolOk.count_handled_le (hs : s.PoolOk) (clientFd : ℤ) :
    (s.handled.map Service.clientFd).count clientFd ≤ s.accepted.count clientFd := by
  obtain ⟨services, hperm, hsub⟩ : s.handled.Subperm s.dequeued :=
    (List.Nodup.of_map _ hs.nodup_handled).subperm hs.service.handled_mem
  calc (s.handled.map Service.clientFd).count clientFd
      = (services.map Service.clientFd).count clientFd := ((hperm.map _).count_eq clientFd).symm
    _ ≤ (s.dequeued.map Service.clientFd).count clientFd := (hsub.map _).count_le clientFd
    _ ≤ s.accepted.count clientFd := hs.dequeued_prefix.sublist.count_le clientFd

/-- The refused connections: `thread_pool_submit` returned 0. -/
structure RefusedOnce (s : SharedPool n k capacity) : Prop where
  /-- They are the refused calls. -/
  calls : (s.submits.filter fun a => !a.accepted).map Submit.clientFd = s.refused
  /-- The caller closes what was refused, once. -/
  closed : ∀ x ∈ s.closedRefused, s.refused[x.1]? = some x.2
  closed_once : (s.closedRefused.map Prod.fst).Nodup
  /-- Every one is in one place: with its caller, or closed. -/
  place : ∀ number < s.refused.length, countOf (CallerPc.isRefused number) s.callers +
    (s.closedRefused.map Prod.fst).count number = 1
  /-- The workers handle accepted file descriptors only. -/
  unhandled : ∀ clientFd,
    (s.handled.map Service.clientFd).count clientFd ≤ s.accepted.count clientFd

theorem PoolOk.refusedOnce (hs : s.PoolOk) : s.RefusedOnce := by
  refine ⟨hs.submit.refused, hs.refusal.closed_mem, hs.refusal.closed.nodup List.nodup_range,
    fun number hnumber => ?_, hs.count_handled_le⟩
  rw [hs.refusal.closed number]
  exact List.count_eq_one_of_mem List.nodup_range (List.mem_range.mpr hnumber)

/-- When `thread_pool_destroy` has returned, every accepted job is handled and closed. -/
theorem PoolOk.destroyed (hs : s.PoolOk) (hpc : s.owner = .destroyed) :
    (s.handled.map Service.job).Perm (List.range s.accepted.length) ∧
      (s.closed.map Service.job).Perm (List.range s.accepted.length) := by
  have hok := hs.wake.phase.owner
  rw [hpc] at hok
  obtain ⟨hn, hexited⟩ := hok
  have hsize := hs.queue.size
  rw [(hs.wake.exited ⟨0, hn⟩ (hexited _)).1, Nat.add_zero] at hsize
  have hhandled := hs.service.handled.perm fun job i => by rw [hexited i]; rfl
  have hclosed := hs.service.closed.perm fun job i => by rw [hexited i]; rfl
  rw [hs.queue.numbers, ← hsize] at hhandled
  exact ⟨hhandled, hclosed.trans hhandled⟩

end SharedPool

open SharedPool

/-- **Every accepted connection is served once, and every refused one is closed once.** -/
theorem thread_pool_serves_once {n k capacity : ℕ} {actions : List (PoolAction n k)}
    {s : SharedPool n k capacity} (h : (start n k capacity).run actions = some s) :
    s.pool.size ≤ capacity ∧ s.pool.tail = (s.pool.head + s.pool.size) % capacity ∧
      s.AcceptedOnce ∧ s.RefusedOnce ∧
      (∀ a ∈ s.submits,
        a.accepted = false ↔ a.size = capacity ∨ ∃ time ∈ s.stops, time < a.decided) ∧
      (s.owner = .destroyed →
        (s.handled.map Service.job).Perm (List.range s.accepted.length) ∧
        (s.closed.map Service.job).Perm (List.range s.accepted.length)) := by
  have hs := (poolOk_start n k capacity).run h
  exact ⟨hs.queue.size_le, hs.queue.tail, hs.acceptedOnce, hs.refusedOnce, hs.submit.result,
    hs.destroyed⟩

/-- A pool of one worker and one place: one connection is accepted and served, the next refused, and
the pool is destroyed. -/
def fullQueueRun : List (PoolAction 1 1) :=
  let first : Fin 1 := ⟨0, Nat.one_pos⟩
  List.replicate 3 (PoolAction.owner true) ++
  ([.accept first 5, .caller first ∅, .caller first ∅, .accept first 6, .caller first ∅,
    .caller first ∅, .caller first ∅] : List (PoolAction 1 1)) ++
  List.replicate 5 (PoolAction.worker first) ++
  ([.destroy, .owner true, .owner true, .worker first, .worker first, .worker first, .owner true,
    .owner true] : List (PoolAction 1 1))

theorem thread_pool_serves_once_full_queue :
    ∃ s, (start 1 1 1).run fullQueueRun = some s ∧ s.owner = .destroyed ∧
      s.accepted = [5] ∧ s.refused = [6] ∧
      (s.handled.map Service.job).Perm (List.range s.accepted.length) ∧
      (s.closed.map Service.job).Perm (List.range s.accepted.length) := by
  have hrun : ((start 1 1 1).run fullQueueRun).map (fun s => (s.owner, s.accepted, s.refused)) =
      some (.destroyed, [5], [6]) := by
    decide
  obtain ⟨s, hs, heq⟩ := Option.map_eq_some_iff.mp hrun
  simp only [Prod.mk.injEq] at heq
  obtain ⟨howner, haccepted, hrefused⟩ := heq
  obtain ⟨-, -, -, -, -, hdestroyed⟩ := thread_pool_serves_once hs
  exact ⟨s, hs, howner, haccepted, hrefused, hdestroyed howner⟩

end MiniDbms
