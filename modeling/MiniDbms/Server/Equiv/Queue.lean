import MiniDbms.Lib.RingBuffer
import MiniDbms.Server.Equiv.Wakeup

/-!
# The ring holds the jobs that wait

The jobs that were accepted and not yet dequeued are in the ring, in the order in which they were
accepted (`QueueOk`).  A worker that is about to dequeue always finds one.
-/

namespace MiniDbms

open CArray

namespace SharedPool

variable {n k capacity : ℕ} {s s' : SharedPool n k capacity}

/-! ### The queue -/

/-- The jobs in the queue. -/
def queue (s : SharedPool n k capacity) : List ThreadPoolJob :=
  (s.accepted.drop s.dequeued.length).map ThreadPoolJob.mk

/-- The ring holds the queue. -/
structure QueueOk (s : SharedPool n k capacity) : Prop where
  size : s.accepted.length = s.dequeued.length + s.pool.size
  order : s.dequeued.map Service.clientFd = s.accepted.take s.dequeued.length
  numbers : s.dequeued.map Service.job = List.range s.dequeued.length
  size_le : s.pool.size ≤ capacity
  tail : s.pool.tail = (s.pool.head + s.pool.size) % capacity
  ring : ∀ jobs, s.pool.jobs = some jobs → jobs.RingHolds s.pool.head s.pool.tail s.queue

theorem QueueOk.length_queue (hq : s.QueueOk) : s.queue.length = s.pool.size := by
  have hsize := hq.size
  unfold queue
  rw [List.length_map, List.length_drop]
  omega

/-- A step that leaves ring and queue alone. -/
theorem QueueOk.of_eq (hq : s.QueueOk) (haccepted : s'.accepted = s.accepted)
    (hdequeued : s'.dequeued = s.dequeued) (hjobs : s'.pool.jobs = s.pool.jobs)
    (hhead : s'.pool.head = s.pool.head) (htail : s'.pool.tail = s.pool.tail)
    (hsize : s'.pool.size = s.pool.size) : s'.QueueOk := by
  have hqueue : s'.queue = s.queue := by
    unfold queue
    rw [haccepted, hdequeued]
  refine ⟨?_, ?_, ?_, ?_, ?_, ?_⟩
  · rw [haccepted, hdequeued, hsize]
    exact hq.size
  · rw [haccepted, hdequeued]
    exact hq.order
  · rw [hdequeued]
    exact hq.numbers
  · rw [hsize]
    exact hq.size_le
  · rw [htail, hhead, hsize]
    exact hq.tail
  · rw [hjobs, hhead, htail, hqueue]
    exact hq.ring

/-- The first job is the one that is dequeued. -/
theorem QueueOk.dequeue (hq : s.QueueOk) {clientFd : ℤ} {pool : ThreadPool capacity}
    (htest : s.pool.size ≠ 0) (hjob : s.pool.dequeue = some (clientFd, pool)) (i : Fin n)
    (hpool : s'.pool = pool) (haccepted : s'.accepted = s.accepted)
    (hdequeued : s'.dequeued = s.dequeued ++ [⟨i, s.dequeued.length, clientFd⟩]) : s'.QueueOk := by
  obtain ⟨jobs, hjobs, hread, rfl⟩ := ThreadPool.dequeue_eq_some hjob
  have hring := hq.ring jobs hjobs
  have hsize := hq.size
  have hlt : s.dequeued.length < s.accepted.length := by omega
  have hlength : s'.dequeued.length = s.dequeued.length + 1 := by
    rw [hdequeued, List.length_append, List.length_singleton]
  have hqueue : s.queue = ⟨s.accepted[s.dequeued.length]⟩ :: s'.queue := by
    unfold queue
    rw [haccepted, hlength, ← List.cons_getElem_drop_succ, List.map_cons]
  rw [hqueue] at hring
  obtain ⟨hfirst, hring'⟩ := hring.pop
  -- the slot that is read is that of the oldest job
  have hfd : s.accepted[s.dequeued.length] = clientFd := by
    have := Option.some.inj (hfirst.symm.trans hread)
    exact ThreadPoolJob.mk.inj this
  refine ⟨?_, ?_, ?_, ?_, ?_, ?_⟩
  · rw [haccepted, hlength, hpool]
    dsimp only
    omega
  · rw [haccepted, hlength, hdequeued, List.map_append, hq.order, List.map_singleton, ← hfd,
      List.take_concat_get']
  · rw [hlength, hdequeued, List.map_append, hq.numbers, List.range_succ]
    rfl
  · rw [hpool]
    exact (Nat.sub_le _ _).trans hq.size_le
  · rw [hpool]
    dsimp only
    rw [hq.tail, Nat.mod_add_mod]
    congr 1
    omega
  · intro jobs' hjobs'
    rw [hpool] at hjobs' ⊢
    cases hjobs.symm.trans hjobs'
    exact hring'

/-- An accepted job goes behind the others. -/
theorem QueueOk.enqueue (hq : s.QueueOk) {clientFd : ℤ} {pool : ThreadPool capacity}
    (htest : s.pool.accepts = true) (hjob : s.pool.enqueue clientFd = some pool)
    (hpool : s'.pool = pool) (haccepted : s'.accepted = s.accepted ++ [clientFd])
    (hdequeued : s'.dequeued = s.dequeued) : s'.QueueOk := by
  obtain ⟨jobs, jobs', hjobs, hwrite, rfl⟩ := ThreadPool.enqueue_eq_some hjob
  have hsize := hq.size
  -- the test before the job leaves room for it
  have hlt : s.pool.size < capacity := by
    unfold ThreadPool.accepts at htest
    rw [Bool.and_eq_true] at htest
    exact of_decide_eq_true htest.2
  -- the queue gets one job more, at its end
  have hqueue : s'.queue = s.queue ++ [⟨clientFd⟩] := by
    unfold queue
    rw [haccepted, hdequeued, List.drop_append_of_le_length (by omega), List.map_append,
      List.map_singleton]
  have hlength : s.queue.length < capacity := by
    rw [hq.length_queue]
    exact hlt
  obtain ⟨jobs'', hwrite', hring⟩ := (hq.ring jobs hjobs).push hlength ⟨clientFd⟩
  cases hwrite.symm.trans hwrite'
  refine ⟨?_, ?_, ?_, ?_, ?_, ?_⟩
  · rw [haccepted, hdequeued, hpool, List.length_append, List.length_singleton]
    dsimp only
    omega
  · rw [haccepted, hdequeued, hq.order, List.take_append_of_le_length (by omega)]
  · rw [hdequeued]
    exact hq.numbers
  · rw [hpool]
    exact hlt
  · rw [hpool]
    dsimp only
    rw [hq.tail, Nat.mod_add_mod, Nat.add_assoc]
  · intro jobs'' hjobs''
    rw [hpool] at hjobs'' ⊢
    cases hjobs''
    rw [hqueue]
    exact hring

/-- Nothing is accepted before the pool is there. -/
def FreshOk (s : SharedPool n k capacity) : Prop := s.owner = .starting → s.accepted = []

theorem FreshOk.step (hp : s.PhaseOk) (hf : s.FreshOk) (h : s.Step s') : s'.FreshOk := by
  intro hstarting
  have hold := h.starting hstarting
  cases h with
  | @submit j _ _ _ hpc _ _ _ =>
    have hrunning := hp.callers j (by rw [hpc]; exact nofun)
    cases hrunning.symm.trans hold
  | _ => exact hf hold

/-- When the owner has joined all workers, no job is left. -/
theorem WakeOk.size_eq_zero (hw : s.WakeOk) {index : ℕ} (hpc : s.owner = .joining index)
    (hle : n ≤ index) : s.pool.size = 0 := by
  have hok := hw.phase.owner
  have halive := hw.phase.alive
  rw [hpc] at hok halive
  obtain ⟨-, -, hn, -⟩ := halive rfl
  exact (hw.exited ⟨0, hn⟩ (hok.2 ⟨0, hn⟩ (hn.trans_le hle))).1

theorem QueueOk.step (hw : s.WakeOk) (hf : s.FreshOk) (hq : s.QueueOk) (h : s.Step s') :
    s'.QueueOk := by
  have hsize := hq.size
  cases h with
  | @dequeue i _ _ hpc htest hjob =>
    exact hq.dequeue (ThreadPool.size_ne_zero ((hw.tested i).2 hpc) htest) hjob i rfl rfl rfl
  | submit hpc htest hjob => exact hq.enqueue htest hjob rfl rfl rfl
  | init hpc _ hcapacity =>
    have haccepted := hf hpc
    rw [haccepted, List.length_nil] at hsize
    have hdequeued : s.dequeued = [] := List.length_eq_zero_iff.mp (by omega)
    refine ⟨?_, hq.order, hq.numbers, Nat.zero_le _, (Nat.zero_mod capacity).symm, ?_⟩
    · dsimp only [setOwner]
      rw [haccepted, hdequeued]
      rfl
    · intro jobs _
      have hqueue : s.queue = [] := by
        unfold queue
        rw [haccepted, List.drop_nil, List.map_nil]
      show jobs.RingHolds 0 0 s.queue
      rw [hqueue]
      exact ringHolds_nil jobs hcapacity
  | fail _ => exact ⟨hq.size, hq.order, hq.numbers, hq.size_le, hq.tail, nofun⟩
  | destroyed hpc hle =>
    have hnone := hw.size_eq_zero hpc hle
    rw [hnone] at hsize
    exact ⟨hsize, hq.order, hq.numbers, Nat.zero_le _, (Nat.zero_mod capacity).symm, nofun⟩
  | _ => exact hq.of_eq rfl rfl rfl rfl rfl rfl

end SharedPool

end MiniDbms
