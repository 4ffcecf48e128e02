import MiniDbms.Server.Equiv.Wakeup

/-!
# Who has which connection

A dequeued job is with one worker until it is handled, and then until it is closed (`ServiceOk`); a
refused connection is with its caller until it is closed (`RefusalOk`).
-/

namespace MiniDbms

open Counting

/-- The job that the worker has in its handler. -/
def WorkerPc.isHandling (job : ℕ) : WorkerPc → Bool
  | .handling job' _ => job' = job
  | _ => false

/-- The job that the worker is about to close. -/
def WorkerPc.isClosing (job : ℕ) : WorkerPc → Bool
  | .closing job' _ => job' = job
  | _ => false

/-- The worker has a job in hand. -/
def WorkerPc.hasJob : WorkerPc → Bool
  | .handling _ _ | .closing _ _ => true
  | _ => false

theorem WorkerPc.of_hasJob {pc : WorkerPc} (h : pc.hasJob = false) (job : ℕ) :
    pc.isHandling job = false ∧ pc.isClosing job = false := by
  cases pc <;> first | exact ⟨rfl, rfl⟩ | cases h

/-- The refused connection that the caller is about to close. -/
def CallerPc.isRefused (number : ℕ) : CallerPc → Bool
  | .refused number' _ => number' = number
  | _ => false

namespace SharedPool

variable {n k capacity : ℕ} {s s' : SharedPool n k capacity}

/-! ### The workers -/

/-- Every job is with one worker from the queue to its end. -/
structure ServiceOk (s : SharedPool n k capacity) : Prop where
  handled : Balanced WorkerPc.isHandling s.workers (s.dequeued.map Service.job)
    (s.handled.map Service.job)
  closed : Balanced WorkerPc.isClosing s.workers (s.handled.map Service.job)
    (s.closed.map Service.job)
  handling : ∀ i job clientFd, s.workers i = .handling job clientFd →
    ⟨i, job, clientFd⟩ ∈ s.dequeued
  closing : ∀ i job clientFd, s.workers i = .closing job clientFd → ⟨i, job, clientFd⟩ ∈ s.handled
  handled_mem : ∀ x ∈ s.handled, x ∈ s.dequeued
  closed_mem : ∀ x ∈ s.closed, x ∈ s.handled

/-- Jobs stay where they are. -/
theorem ServiceOk.of_workers (hs : s.ServiceOk) (hdequeued : s'.dequeued = s.dequeued)
    (hhandled : s'.handled = s.handled) (hclosed : s'.closed = s.closed)
    (hworkers : ∀ i, s'.workers i = s.workers i ∨
      (s'.workers i).hasJob = false ∧ (s.workers i).hasJob = false) : s'.ServiceOk := by
  have hsame : ∀ job i, (s'.workers i).isHandling job = (s.workers i).isHandling job ∧
      (s'.workers i).isClosing job = (s.workers i).isClosing job := by
    intro job i
    rcases hworkers i with hi | ⟨hnew, hold⟩
    · rw [hi]
      exact ⟨rfl, rfl⟩
    · obtain ⟨hnew1, hnew2⟩ := WorkerPc.of_hasJob hnew job
      obtain ⟨hold1, hold2⟩ := WorkerPc.of_hasJob hold job
      exact ⟨hnew1.trans hold1.symm, hnew2.trans hold2.symm⟩
  have hjob : ∀ i, (s'.workers i).hasJob = true → s'.workers i = s.workers i := by
    intro i hi
    rcases hworkers i with heq | ⟨hnew, -⟩
    · exact heq
    · rw [hnew] at hi
      cases hi
  refine ⟨?_, ?_, ?_, ?_, ?_, ?_⟩
  · rw [hdequeued, hhandled]
    exact hs.handled.congr fun job i => (hsame job i).1
  · rw [hhandled, hclosed]
    exact hs.closed.congr fun job i => (hsame job i).2
  · intro i job clientFd hi
    rw [hdequeued]
    exact hs.handling i job clientFd ((hjob i (by rw [hi]; rfl)).symm.trans hi)
  · intro i job clientFd hi
    rw [hhandled]
    exact hs.closing i job clientFd ((hjob i (by rw [hi]; rfl)).symm.trans hi)
  · rw [hhandled, hdequeued]
    exact hs.handled_mem
  · rw [hclosed, hhandled]
    exact hs.closed_mem

theorem update_or {i : Fin n} {pc : WorkerPc} (hold : (s.workers i).hasJob = false)
    (hnew : pc.hasJob = false) (i' : Fin n) :
    Function.update s.workers i pc i' = s.workers i' ∨
      (Function.update s.workers i pc i').hasJob = false ∧ (s.workers i').hasJob = false := by
  by_cases hi : i' = i
  · subst hi
    rw [Function.update_self]
    exact Or.inr ⟨hnew, hold⟩
  · exact Or.inl (Function.update_of_ne hi _ _)

theorem condWake_or (woken : Finset (Fin n)) (i : Fin n) :
    condWake s.workers woken i = s.workers i ∨
      (condWake s.workers woken i).hasJob = false ∧ (s.workers i).hasJob = false := by
  unfold condWake
  split
  · rename_i hwoken
    rw [hwoken.1]
    exact Or.inr ⟨rfl, rfl⟩
  · exact Or.inl rfl

/-- A job that a worker gets is put on record. -/
theorem mem_append_of_update {place : ℕ → ℤ → WorkerPc} {record : List (Service n)} {i : Fin n}
    {job : ℕ} {clientFd : ℤ}
    (hplace : ∀ job clientFd job' clientFd', place job clientFd = place job' clientFd' →
      job = job' ∧ clientFd = clientFd')
    (h : ∀ i job clientFd, s.workers i = place job clientFd → ⟨i, job, clientFd⟩ ∈ record)
    (i' : Fin n) (job' : ℕ) (clientFd' : ℤ)
    (hi' : Function.update s.workers i (place job clientFd) i' = place job' clientFd') :
    ⟨i', job', clientFd'⟩ ∈ record ++ [⟨i, job, clientFd⟩] := by
  by_cases heq : i' = i
  · subst heq
    rw [Function.update_self] at hi'
    obtain ⟨rfl, rfl⟩ := hplace _ _ _ _ hi'
    exact List.mem_append_right _ (List.mem_singleton_self _)
  · rw [Function.update_of_ne heq] at hi'
    exact List.mem_append_left _ (h i' job' clientFd' hi')

/-- A worker takes a job out of the queue. -/
theorem ServiceOk.dequeue (hs : s.ServiceOk) {i : Fin n} {clientFd : ℤ}
    (hpc : s.workers i = .checking)
    (hworkers : s'.workers =
      Function.update s.workers i (.handling s.dequeued.length clientFd))
    (hdequeued : s'.dequeued = s.dequeued ++ [⟨i, s.dequeued.length, clientFd⟩])
    (hhandled : s'.handled = s.handled) (hclosed : s'.closed = s.closed) : s'.ServiceOk := by
  refine ⟨?_, ?_, ?_, ?_, ?_, ?_⟩
  · rw [hworkers, hdequeued, hhandled, List.map_append, List.map_singleton]
    exact hs.handled.take (fun job => by rw [hpc]; rfl) fun job => rfl
  · rw [hworkers, hhandled, hclosed]
    exact hs.closed.keep fun job => by rw [hpc]; rfl
  · rw [hworkers, hdequeued]
    exact mem_append_of_update (fun _ _ _ _ => WorkerPc.handling.inj) hs.handling
  · intro i' job clientFd' hi'
    rw [hworkers] at hi'
    rw [hhandled]
    exact hs.closing i' job clientFd' (of_update hi' nofun)
  · intro x hx
    rw [hhandled] at hx
    rw [hdequeued]
    exact List.mem_append_left _ (hs.handled_mem x hx)
  · rw [hclosed, hhandled]
    exact hs.closed_mem

/-- The handler returns. -/
theorem ServiceOk.handle (hs : s.ServiceOk) {i : Fin n} {job : ℕ} {clientFd : ℤ}
    (hpc : s.workers i = .handling job clientFd)
    (hworkers : s'.workers = Function.update s.workers i (.closing job clientFd))
    (hdequeued : s'.dequeued = s.dequeued)
    (hhandled : s'.handled = s.handled ++ [⟨i, job, clientFd⟩]) (hclosed : s'.closed = s.closed) :
    s'.ServiceOk := by
  refine ⟨?_, ?_, ?_, ?_, ?_, ?_⟩
  · rw [hworkers, hdequeued, hhandled, List.map_append, List.map_singleton]
    exact hs.handled.give (fun job' => by rw [hpc]; rfl) fun job' => rfl
  · rw [hworkers, hclosed, hhandled, List.map_append, List.map_singleton]
    exact hs.closed.take (fun job' => by rw [hpc]; rfl) fun job' => rfl
  · intro i' job' clientFd' hi'
    rw [hworkers] at hi'
    rw [hdequeued]
    exact hs.handling i' job' clientFd' (of_update hi' nofun)
  · rw [hworkers, hhandled]
    exact mem_append_of_update (fun _ _ _ _ => WorkerPc.closing.inj) hs.closing
  · intro x hx
    rw [hhandled] at hx
    rw [hdequeued]
    rcases List.mem_append.mp hx with hx | hx
    · exact hs.handled_mem x hx
    · rw [List.mem_singleton.mp hx]
      exact hs.handling i job clientFd hpc
  · intro x hx
    rw [hclosed] at hx
    rw [hhandled]
    exact List.mem_append_left _ (hs.closed_mem x hx)

/-- The worker closes the connection. -/
theorem ServiceOk.close (hs : s.ServiceOk) {i : Fin n} {job : ℕ} {clientFd : ℤ}
    (hpc : s.workers i = .closing job clientFd)
    (hworkers : s'.workers = Function.update s.workers i .locking)
    (hdequeued : s'.dequeued = s.dequeued) (hhandled : s'.handled = s.handled)
    (hclosed : s'.closed = s.closed ++ [⟨i, job, clientFd⟩]) : s'.ServiceOk := by
  refine ⟨?_, ?_, ?_, ?_, ?_, ?_⟩
  · rw [hworkers, hdequeued, hhandled]
    exact hs.handled.keep fun job' => by rw [hpc]; rfl
  · rw [hworkers, hhandled, hclosed, List.map_append, List.map_singleton]
    exact hs.closed.give (fun job' => by rw [hpc]; rfl) fun job' => rfl
  · intro i' job' clientFd' hi'
    rw [hworkers] at hi'
    rw [hdequeued]
    exact hs.handling i' job' clientFd' (of_update hi' nofun)
  · intro i' job' clientFd' hi'
    rw [hworkers] at hi'
    rw [hhandled]
    exact hs.closing i' job' clientFd' (of_update hi' nofun)
  · rw [hhandled, hdequeued]
    exact hs.handled_mem
  · intro x hx
    rw [hclosed] at hx
    rw [hhandled]
    rcases List.mem_append.mp hx with hx | hx
    · exact hs.closed_mem x hx
    · rw [List.mem_singleton.mp hx]
      exact hs.closing i job clientFd hpc

theorem ServiceOk.step (hp : s.PhaseOk) (hs : s.ServiceOk) (h : s.Step s') : s'.ServiceOk := by
  cases h with
  | lock hpc _ =>
    refine hs.of_workers rfl rfl rfl (update_or ?_ rfl)
    rcases hpc with hpc | hpc <;> rw [hpc] <;> rfl
  | wait hpc _ => exact hs.of_workers rfl rfl rfl (update_or (by rw [hpc]; rfl) rfl)
  | check hpc _ => exact hs.of_workers rfl rfl rfl (update_or (by rw [hpc]; rfl) rfl)
  | sleep hpc => exact hs.of_workers rfl rfl rfl (update_or (by rw [hpc]; rfl) rfl)
  | exit hpc _ => exact hs.of_workers rfl rfl rfl (update_or (by rw [hpc]; rfl) rfl)
  | dequeue hpc _ _ => exact hs.dequeue hpc rfl rfl rfl rfl
  | @handle i _ _ hpc =>
    have hhandler : s.pool.handler = true := by
      apply (hp.alive _).1
      apply hp.isAlive
      rw [hpc]
      rfl
    exact hs.handle hpc rfl rfl (if_pos hhandler) rfl
  | close hpc => exact hs.close hpc rfl rfl rfl rfl
  | wake hpc => exact hs.of_workers rfl rfl rfl (update_or (by rw [hpc]; rfl) rfl)
  | submit _ _ _ _ => exact hs.of_workers rfl rfl rfl (condWake_or _)
  | stop _ => exact hs.of_workers rfl rfl rfl (condWake_or _)
  | @create index hpc hlt =>
    have hok := hp.owner
    rw [hpc] at hok
    refine hs.of_workers rfl rfl rfl (update_or ?_ rfl)
    rw [hok.2.2 ⟨index, hlt⟩ le_rfl]
    rfl
  | broadcast _ => exact hs.of_workers rfl rfl rfl (condWake_or _)
  | stopDestroy _ => exact hs.of_workers rfl rfl rfl (condWake_or _)
  | _ => exact hs.of_workers rfl rfl rfl fun _ => Or.inl rfl

/-! ### The callers -/

/-- Every refused connection is with its caller until it is closed. -/
structure RefusalOk (s : SharedPool n k capacity) : Prop where
  closed : Balanced CallerPc.isRefused s.callers (List.range s.refused.length)
    (s.closedRefused.map Prod.fst)
  refusing : ∀ j number clientFd, s.callers j = .refused number clientFd →
    s.refused[number]? = some clientFd
  closed_mem : ∀ x ∈ s.closedRefused, s.refused[x.1]? = some x.2

/-- A caller moves, and refused connections stay where they are. -/
theorem RefusalOk.of_callers (hr : s.RefusalOk) (hrefused : s'.refused = s.refused)
    (hclosed : s'.closedRefused = s.closedRefused)
    (hcallers : ∀ j, s'.callers j = s.callers j ∨
      ∀ number, (s'.callers j).isRefused number = false ∧ (s.callers j).isRefused number = false) :
    s'.RefusalOk := by
  refine ⟨?_, ?_, ?_⟩
  · rw [hrefused, hclosed]
    apply hr.closed.congr
    intro number j
    rcases hcallers j with hj | hj
    · rw [hj]
    · rw [(hj number).1, (hj number).2]
  · intro j number clientFd hj
    rw [hrefused]
    rcases hcallers j with heq | hnone
    · exact hr.refusing j number clientFd (heq.symm.trans hj)
    · have := (hnone number).1
      rw [hj] at this
      exact absurd rfl (of_decide_eq_false this)
  · rw [hclosed, hrefused]
    exact hr.closed_mem

theorem update_caller_or {j : Fin k} {pc pc' : CallerPc} (hpc : s.callers j = pc)
    (hold : ∀ number, pc.isRefused number = false) (hnew : ∀ number, pc'.isRefused number = false)
    (j' : Fin k) :
    Function.update s.callers j pc' j' = s.callers j' ∨
      ∀ number, (Function.update s.callers j pc' j').isRefused number = false ∧
        (s.callers j').isRefused number = false := by
  by_cases hj : j' = j
  · subst hj
    rw [Function.update_self, hpc]
    exact Or.inr fun number => ⟨hnew number, hold number⟩
  · exact Or.inl (Function.update_of_ne hj _ _)

/-- `thread_pool_submit` returns 0. -/
theorem RefusalOk.refuse (hr : s.RefusalOk) {j : Fin k} {clientFd : ℤ}
    (hpc : s.callers j = .deciding clientFd)
    (hcallers : s'.callers = Function.update s.callers j (.refused s.refused.length clientFd))
    (hrefused : s'.refused = s.refused ++ [clientFd])
    (hclosed : s'.closedRefused = s.closedRefused) : s'.RefusalOk := by
  have hold : ∀ {number : ℕ} {fd : ℤ}, s.refused[number]? = some fd →
      s'.refused[number]? = some fd := by
    intro number fd h
    rw [hrefused, List.getElem?_append_left (List.getElem?_eq_some_iff.mp h).1]
    exact h
  refine ⟨?_, ?_, ?_⟩
  · rw [hcallers, hrefused, hclosed, List.length_append, List.length_singleton, List.range_succ]
    exact hr.closed.take (fun number => by rw [hpc]; rfl) fun number => rfl
  · intro j' number clientFd' hj'
    rw [hcallers] at hj'
    by_cases heq : j' = j
    · subst heq
      rw [Function.update_self] at hj'
      cases hj'
      rw [hrefused]
      exact List.getElem?_concat_length
    · rw [Function.update_of_ne heq] at hj'
      exact hold (hr.refusing j' number clientFd' hj')
  · intro x hx
    rw [hclosed] at hx
    exact hold (hr.closed_mem x hx)

/-- The caller closes the connection. -/
theorem RefusalOk.close (hr : s.RefusalOk) {j : Fin k} {number : ℕ} {clientFd : ℤ}
    (hpc : s.callers j = .refused number clientFd)
    (hcallers : s'.callers = Function.update s.callers j .idle)
    (hrefused : s'.refused = s.refused)
    (hclosed : s'.closedRefused = s.closedRefused ++ [(number, clientFd)]) : s'.RefusalOk := by
  refine ⟨?_, ?_, ?_⟩
  · rw [hcallers, hrefused, hclosed, List.map_append, List.map_singleton]
    exact hr.closed.give (fun number' => by rw [hpc]; rfl) fun number' => rfl
  · intro j' number' clientFd' hj'
    rw [hcallers] at hj'
    rw [hrefused]
    by_cases heq : j' = j
    · subst heq
      rw [Function.update_self] at hj'
      cases hj'
    · rw [Function.update_of_ne heq] at hj'
      exact hr.refusing j' number' clientFd' hj'
  · intro x hx
    rw [hclosed] at hx
    rw [hrefused]
    rcases List.mem_append.mp hx with hx | hx
    · exact hr.closed_mem x hx
    · rw [List.mem_singleton.mp hx]
      exact hr.refusing j number clientFd hpc

theorem RefusalOk.step (hr : s.RefusalOk) (h : s.Step s') : s'.RefusalOk := by
  cases h with
  | accept _ hpc =>
    exact hr.of_callers rfl rfl (update_caller_or hpc (fun _ => rfl) fun _ => rfl)
  | shutdown _ hpc hnext =>
    refine hr.of_callers rfl rfl (update_caller_or hpc (fun _ => rfl) ?_)
    rcases hnext with rfl | rfl <;> exact fun _ => rfl
  | lockSubmit hpc _ =>
    exact hr.of_callers rfl rfl (update_caller_or hpc (fun _ => rfl) fun _ => rfl)
  | submit hpc _ _ _ =>
    exact hr.of_callers rfl rfl (update_caller_or hpc (fun _ => rfl) fun _ => rfl)
  | refuse hpc _ => exact hr.refuse hpc rfl rfl rfl
  | closeRefused hpc => exact hr.close hpc rfl rfl rfl
  | lockStop hpc _ =>
    exact hr.of_callers rfl rfl (update_caller_or hpc (fun _ => rfl) fun _ => rfl)
  | stop hpc => exact hr.of_callers rfl rfl (update_caller_or hpc (fun _ => rfl) fun _ => rfl)
  | _ => exact hr.of_callers rfl rfl fun _ => Or.inl rfl

end SharedPool

end MiniDbms
