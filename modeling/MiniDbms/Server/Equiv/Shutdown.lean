import MiniDbms.Server.Equiv.AcceptLoop
import MiniDbms.Server.Equiv.Rest

/-!
# The server shuts down

The work of the whole process: that of the pool, the place of the main thread in `server_run`, the
call of `thread_pool_destroy` that is still to come, and the signal that may end the process
(`ServerRun.work`).  Every step of the process takes one off it, so the process comes to rest.  When
no signal ended it, `ServerOk.finished` says where: asleep in `accept` with nothing left to do, or
behind `thread_pool_destroy`, or in a start that failed.

The flag does not stop an `accept` that was called before.  It returns at most one connection
(`LateOk`).
-/

namespace MiniDbms

open Potential

/-! ### The pool is set up while it is there -/

namespace SharedPool

variable {n k capacity : ℕ} {s s' : SharedPool n k capacity}

/-- While the pool is there, `workers` is set. -/
def SetOk (s : SharedPool n k capacity) : Prop :=
  s.owner.isAlive = true → s.pool.workers = true

theorem SetOk.step (hs : s.SetOk) (h : s.Step s') : s'.SetOk := by
  have hkeep : ∀ {pc : OwnerPc}, s.owner = pc → pc.isAlive = true → s.pool.workers = true :=
    fun hpc halive => hs (by rw [hpc]; exact halive)
  cases h with
  | dequeue _ _ hjob =>
    obtain ⟨jobs, -, -, rfl⟩ := ThreadPool.dequeue_eq_some hjob
    exact hs
  | submit _ _ hjob =>
    obtain ⟨jobs, jobs', -, -, rfl⟩ := ThreadPool.enqueue_eq_some hjob
    exact hs
  | initFail => exact nofun
  | init => exact fun _ => rfl
  | fail => exact nofun
  | destroyed => exact nofun
  | create hpc | createFail hpc | created hpc | broadcast hpc | failJoin hpc | destroy hpc
  | lockDestroy hpc | stopDestroy hpc | join hpc => exact fun _ => hkeep hpc rfl
  | _ => exact hs

/-- Only a call begins to destroy the pool. -/
theorem isDestroying_of_step {a : PoolAction n k} (ha : a.isCall = false)
    (h : s.step a = some s') (hs : s.owner.isDestroying = false) :
    s'.owner.isDestroying = false := by
  by_cases hrunning : s.owner = .running
  · rw [step_running hrunning ha h]
    rfl
  · cases step_cases h with
    | destroy hpc => exact absurd hpc hrunning
    | lockDestroy hpc | stopDestroy hpc | join hpc | destroyed hpc =>
      rw [hpc] at hs
      cases hs
    | initFail | init | create | createFail | created | broadcast | failJoin | fail => rfl
    | _ => exact hs

/-- The owner begins to destroy the pool. -/
theorem SetOk.destroy (hs : s.SetOk) (h : s.step .destroy = some s') :
    s.owner = .running ∧ s'.owner = .stopping := by
  rw [SharedPool.step] at h
  split at h
  · rename_i hrunning
    cases h
    have hset := hs (by rw [hrunning.1]; rfl)
    exact ⟨hrunning.1, if_pos hset⟩
  · cases h

end SharedPool

/-! ### The work of the process -/

/-- The main thread may still submit a connection, and call `thread_pool_shutdown`. -/
def RunPc.rank (n : ℕ) : RunPc → ℕ
  | .failed | .returned | .accepting => 0
  | .shuttingDown | .calling => 1
  | .testing => 3 * n + 5
  | .submitting | .closing _ | .creating => 3 * n + 6
  | .configuring _ _ => 6 * n + 14

/-- What a step brings in from outside. -/
def RunAction.cost {n : ℕ} : RunAction n → ℕ
  | .signal _ => 3 * n + 6
  | .accept _ => 6 * n + 15
  | .pool action _ => action.cost
  | .listen _ | .run | .configure _ _ | .destroy => 0

/-- `thread_pool_destroy` is still to be called. -/
def OwnerPc.credit (n : ℕ) (pc : OwnerPc) : ℕ := if pc.isDestroying then 0 else 4 * n + 4

/-- The process can still be ended by a signal. -/
def signalCredit (terminated : Option Signal) : ℕ := if terminated.isSome then 0 else 1

namespace ServerRun

variable {n capacity : ℕ} {s s' : ServerRun n capacity}

def work (s : ServerRun n capacity) : ℕ :=
  s.pool.work + s.pc.rank n + s.pool.owner.credit n + signalCredit s.terminated

theorem work_start (n capacity : ℕ) : (start n capacity).work = 15 * n + 15 := by
  rw [work]
  show (SharedPool.start n 1 capacity).work + (3 * n + 6) + (4 * n + 4) + 1 = _
  rw [SharedPool.work_start]
  omega

/-- The main thread moves, and the pool does not. -/
theorem work_alone {pc pc' : RunPc} {cost : ℕ} (hpc : s.pc = pc) (hpc' : s'.pc = pc')
    (hprocess : s'.toServerProcess = s.toServerProcess)
    (hrank : pc'.rank n + 1 ≤ pc.rank n + cost) : s'.work + 1 ≤ s.work + cost := by
  rw [work, work, hpc, hpc', hprocess]
  omega

/-- The main thread calls a function of the pool. -/
theorem work_call (hs : s.pool.PoolOk) {a : PoolAction n 1} {pc pc' : RunPc} {cost : ℕ}
    (hpc : s.pc = pc) (hpc' : s'.pc = pc') (hstep : s.pool.step a = some s'.pool)
    (howner : s'.pool.owner = s.pool.owner) (hterminated : s'.terminated = s.terminated)
    (hrank : pc'.rank n + a.cost ≤ pc.rank n + cost) : s'.work + 1 ≤ s.work + cost := by
  have hpool := hs.work_step hstep
  rw [work, work, hpc, hpc', howner, hterminated]
  omega

/-! ### What every step of the process keeps -/

end ServerRun

/-- Where the owner of the pool is. -/
def RunPc.Places (owner : OwnerPc) : RunPc → Prop
  | .creating => owner.isDestroying = false
  | .failed | .returned => owner = .running ∨ owner.isDestroying = true
  | _ => True

namespace ServerRun

variable {n capacity : ℕ} {s s' : ServerRun n capacity}

/-- What every step keeps. -/
structure ServerOk (s : ServerRun n capacity) : Prop extends s.RunOk where
  team : s.pool.TeamOk
  set : s.pool.SetOk
  place : s.pc.Places s.pool.owner

theorem serverOk_start (n capacity : ℕ) : (start n capacity).ServerOk :=
  ⟨runOk_start n capacity, SharedPool.teamOk_start n 1 capacity, nofun, rfl⟩

theorem ServerOk.place_step (hs : s.ServerOk) {a : RunAction n} (h : s.Step a s') :
    s'.pc.Places s'.pool.owner := by
  have hplace := hs.place
  cases h with
  | signal interrupts => rwa [RunPc.apply_signal (RunPc.Places s.pool.owner) rfl]
  | @listen ok hpc hrunning =>
    cases ok
    · exact .inl hrunning
    · trivial
  | stopped hpc => exact .inl (hs.running (by rw [hpc]; rfl))
  | @pool action client pool hinner hstep =>
    have hafter : s.pool.owner = .running ∨ s.pool.owner.isDestroying = true →
        pool.owner = .running ∨ pool.owner.isDestroying = true :=
      Or.imp (fun h => SharedPool.step_running h hinner hstep)
        (SharedPool.step_cases hstep).isDestroying
    dsimp only
    cases hpc : s.pc <;> rw [hpc] at hplace
    case creating => exact SharedPool.isDestroying_of_step hinner hstep hplace
    case failed => exact hafter hplace
    case returned => exact hafter hplace
    all_goals trivial
  | ends => exact hplace
  | destroy hpc hstep =>
    have hstopping : ∀ {pc}, pc = RunPc.failed ∨ pc = .returned → pc.Places .stopping := by
      rintro pc (rfl | rfl) <;> exact .inr rfl
    dsimp only
    rw [(hs.set.destroy hstep).2]
    exact hstopping hpc
  | _ => trivial

theorem ServerOk.step (hs : s.ServerOk) {a : RunAction n} (h : s.Step a s') : s'.ServerOk where
  toRunOk := hs.toRunOk.step h
  team := by
    rcases h.pool_step with heq | hstep
    · rw [heq]
      exact hs.team
    · exact hs.team.step hstep
  set := by
    rcases h.pool_step with heq | hstep
    · rw [heq]
      exact hs.set
    · exact hs.set.step hstep
  place := hs.place_step h

theorem ServerOk.run (hs : s.ServerOk) {actions : List (RunAction n)}
    (h : s.run actions = some s') : s'.ServerOk :=
  run_keeps (fun _ _ _ hs h => hs.step h) hs h

/-! ### Every step is paid for -/

theorem ServerOk.work_step (hs : s.ServerOk) (hrunning : s.terminated = none) {a : RunAction n}
    (h : s.Step a s') : s'.work + 1 ≤ s.work + a.cost := by
  cases h with
  | signal interrupts =>
    by_cases hinterrupts : interrupts ∧ s.pc = .accepting
    · refine work_alone hinterrupts.2 (if_pos hinterrupts) rfl ?_
      show 3 * n + 5 + 1 ≤ 0 + (3 * n + 6)
      omega
    · refine work_alone rfl (if_neg hinterrupts) rfl ?_
      show _ + 1 ≤ _ + (3 * n + 6)
      omega
  | @listen ok hpc =>
    cases ok
    · exact work_alone hpc rfl rfl (by show 0 + 1 ≤ 3 * n + 6 + 0; omega)
    · exact work_alone hpc rfl rfl (by show 3 * n + 5 + 1 ≤ 3 * n + 6 + 0; omega)
  | test hpc => exact work_alone hpc rfl rfl (by show 1 + 1 ≤ 3 * n + 5 + 0; omega)
  | stop hpc _ hcall =>
    refine work_call hs.pool hpc rfl hcall (SharedPool.shutdown_eq_some hcall) rfl ?_
    show 1 + (3 * n + 3) ≤ 3 * n + 5 + 0
    omega
  | call hpc => exact work_alone hpc rfl rfl (Nat.le_refl 1)
  | accept hpc =>
    refine work_alone hpc rfl rfl ?_
    show 6 * n + 14 + 1 ≤ 0 + (6 * n + 15)
    omega
  | interrupted hpc =>
    refine work_alone hpc rfl rfl ?_
    show 3 * n + 5 + 1 ≤ 0 + (6 * n + 15)
    omega
  | fail hpc _ hcall =>
    refine work_call hs.pool hpc rfl hcall (SharedPool.shutdown_eq_some hcall) rfl ?_
    show 1 + (3 * n + 3) ≤ 0 + (6 * n + 15)
    omega
  | submit hpc hcall =>
    refine work_call hs.pool hpc rfl hcall (SharedPool.accept_eq_some hcall) rfl ?_
    show 3 * n + 6 + (3 * n + 8) ≤ 6 * n + 14 + 0
    omega
  | refuse hpc => exact work_alone hpc rfl rfl (by show 3 * n + 6 + 1 ≤ 6 * n + 14 + 0; omega)
  | close hpc => exact work_alone hpc rfl rfl (Nat.le_refl _)
  | submitted hpc => exact work_alone hpc rfl rfl (Nat.le_refl _)
  | stopped hpc => exact work_alone hpc rfl rfl (Nat.le_refl _)
  | @pool action client pool hinner hstep =>
    have hpool := hs.pool.work_step hstep
    have hcredit : pool.owner.credit n ≤ s.pool.owner.credit n := by
      unfold OwnerPc.credit
      cases hpc : s.pool.owner.isDestroying with
      | true => rw [(SharedPool.step_cases hstep).isDestroying hpc]
      | false => rw [SharedPool.isDestroying_of_step hinner hstep hpc]
    unfold ServerRun.work
    show _ ≤ _ + action.cost
    dsimp only
    omega
  | @ends action client signal =>
    unfold ServerRun.work
    show _ ≤ _ + action.cost
    dsimp only
    rw [hrunning]
    show _ + 0 + 1 ≤ _ + 1 + _
    omega
  | destroy hpc hstep =>
    -- the call was paid for from the start
    have hpool := hs.pool.work_step hstep
    obtain ⟨hrunning, hstopping⟩ := hs.set.destroy hstep
    unfold ServerRun.work
    dsimp only
    have hbefore : OwnerPc.credit n .running = PoolAction.cost (.destroy : PoolAction n 1) := rfl
    have hafter : OwnerPc.credit n .stopping = 0 := rfl
    rw [hrunning, hstopping, hbefore, hafter]
    omega

theorem work_pays : Pays (@step n capacity) RunAction.cost ServerOk work :=
  ⟨fun hs h => hs.step (step_cases h),
    fun hs h => hs.work_step (running_of_step h) (step_cases h)⟩

theorem run_eq_run (s : ServerRun n capacity) (actions : List (RunAction n)) :
    s.run actions = Potential.run step s actions := by
  induction actions generalizing s with
  | nil => rfl
  | cons a actions ih =>
    rw [ServerRun.run, Potential.run]
    cases s.step a with
    | none => rfl
    | some s₁ => exact ih s₁

/-! ### Where the process rests -/

/-- No thread of the process can go on by itself. -/
def Resting (s : ServerRun n capacity) : Prop := AtRest step RunAction.cost s

/-- The process waits for a connection, has destroyed its pool, or could not create it. -/
def Waits (s : ServerRun n capacity) : Prop :=
  s.pc = .accepting ∧ s.pool.owner = .running ∨
  (s.pc = .failed ∨ s.pc = .returned) ∧ s.pool.owner = .destroyed ∨
  s.pc = .creating ∧ (s.pool.owner = .failed ∨
    ∃ index i, s.pool.owner = .failJoining (index + 1) ∧ i.val = index ∧
      s.pool.workers i = .asleep)

/-- All that was asked of the process is done. -/
structure Finished (s : ServerRun n capacity) : Prop where
  waits : s.Waits
  pool : s.pool.Settled
  /-- Every connection went to the pool, or could not be configured and is closed. -/
  placed : (s.submitted ++ s.closed).Perm (List.range s.connections.length)

/-- Calls cost something. -/
theorem isCall_of_own {action : PoolAction n 1} (h : action.cost = 0) : action.isCall = false := by
  cases action <;> first | rfl | exact absurd h (Nat.succ_ne_zero _)

theorem Resting.pool (hrunning : s.terminated = none) (hpipe : s.dispositions .pipe = .default)
    (hrest : s.Resting) : s.pool.Resting := by
  intro action haction
  have hstep : s.step (.pool action .patient) = none := hrest (.pool action .patient) haction
  rw [step_eq_act hrunning, act_patient hrunning hpipe (isCall_of_own haction)] at hstep
  exact Option.map_eq_none_iff.mp hstep

/-- At rest the caller of the pool is idle, so the main thread could call it. -/
theorem endLoop_ne_none (hsettled : s.pool.Settled)
    (hrunning : s.pool.owner = .running) : s.endLoop ≠ none := by
  have hcall : s.pool.step (.shutdown 0) =
      some (s.pool.setCaller 0 (if s.pool.pool.workers then .stopping else .idle)) :=
    if_pos ⟨hrunning, hsettled.callers 0⟩
  rw [endLoop, hcall]
  exact nofun

theorem ServerOk.resting_waits (hs : s.ServerOk) (hrunning : s.terminated = none)
    (hrest : s.Resting) : s.Waits := by
  have hsettled := hs.team.settled (hrest.pool hrunning hs.pipe)
  have hact : ∀ a : RunAction n, a.cost = 0 → s.act a = none := fun a ha =>
    (step_eq_act hrunning a).symm.trans (hrest a ha)
  have hrun : s.runStep = none := hact .run rfl
  have hlisten := hact (.listen true) rfl
  have hconfigure := hact (.configure false false) rfl
  have hdestroy := hact .destroy rfl
  have hplace := hs.place
  have hidle := hsettled.callers 0
  have hrunning := hs.running
  -- behind `server_run` the pool does not run any more
  have hover : s.pc = .failed ∨ s.pc = .returned → s.pool.owner = .destroyed := by
    intro hpc
    have hnot : s.pool.owner ≠ .running := by
      intro howner
      have hcall : s.pool.step .destroy =
          some (s.pool.setOwner (if s.pool.pool.workers then .stopping else .running)) :=
        if_pos ⟨howner, hsettled.callers⟩
      rw [act, if_pos hpc, hcall] at hdestroy
      cases hdestroy
    refine hsettled.destroyed ?_
    rcases hpc with hpc | hpc <;> rw [hpc] at hplace <;> exact hplace.resolve_left hnot
  unfold runStep at hrun
  unfold Waits
  cases hpc : s.pc <;> rw [hpc] at hrun hplace hrunning <;> dsimp only at hrun
  case creating =>
    refine .inr (.inr ⟨rfl, ?_⟩)
    rcases hsettled.owner with howner | howner | howner | howner
    · rw [act, if_pos ⟨hpc, howner⟩] at hlisten
      cases hlisten
    · exact .inl howner
    · rw [howner] at hplace
      cases hplace
    · exact .inr howner
  case failed => exact .inr (.inl ⟨.inl rfl, hover (.inl hpc)⟩)
  case testing =>
    split at hrun
    · exact absurd hrun (endLoop_ne_none hsettled (hrunning rfl))
    · cases hrun
  case calling => cases hrun
  case accepting => exact .inl ⟨rfl, hrunning rfl⟩
  case configuring number clientFd =>
    rw [act, hpc] at hconfigure
    cases hconfigure
  case closing number => cases hrun
  case submitting =>
    rw [if_pos hidle] at hrun
    cases hrun
  case shuttingDown =>
    rw [if_pos hidle] at hrun
    cases hrun
  case returned => exact .inr (.inl ⟨.inr rfl, hover (.inr hpc)⟩)

/-- **Where the process rests, all that was asked of it is done.** -/
theorem ServerOk.finished (hs : s.ServerOk) (hrunning : s.terminated = none) (hplaced : s.Placed)
    (hrest : s.Resting) : s.Finished := by
  have hwaits := hs.resting_waits hrunning hrest
  refine ⟨hwaits, hs.team.settled (hrest.pool hrunning hs.pipe), ?_⟩
  have hhand : s.pc.inHand = [] := by
    rcases hwaits with ⟨hpc, -⟩ | ⟨hpc | hpc, -⟩ | ⟨hpc, -⟩ <;> rw [hpc] <;> rfl
  unfold Placed at hplaced
  rwa [hhand, List.append_nil] at hplaced

/-! ### A way to rest -/

/-- What a thread does to the process by itself, it can do without ending it. -/
theorem RunOk.exists_own_step (hs : s.RunOk) (hrunning : s.terminated = none) {a : RunAction n}
    (ha : a.cost = 0) (h : s.step a ≠ none) :
    ∃ a' s', RunAction.cost a' = 0 ∧ s.step a' = some s' ∧ s'.terminated = none := by
  obtain ⟨s₁, hstep⟩ := Option.ne_none_iff_exists'.mp h
  cases a with
  | pool action client =>
    -- the same step, with a client that stays
    have hinner := isCall_of_own (show action.cost = 0 from ha)
    obtain ⟨pool, hpool⟩ : ∃ pool, s.pool.step action = some pool := by
      by_cases hclosed : s.SendsOnClosed (.pool action client)
      · exact hclosed.pool_step
      · cases step_cases hstep with
        | pool _ hpool => exact ⟨_, hpool⟩
        | ends =>
          have hrunning₁ := (terminated_step_iff hrunning hs.pipe hstep).mpr hclosed
          cases hrunning₁
    refine ⟨.pool action .patient, { s with pool := pool }, ha, ?_, hrunning⟩
    rw [step_eq_act hrunning, act_patient hrunning hs.pipe hinner, hpool]
    rfl
  | _ => exact ⟨_, s₁, ha, hstep, (terminated_step_iff hrunning hs.pipe hstep).mpr id⟩

/-- The process can come to rest as it is: running, or ended. -/
theorem ServerOk.comes_to_rest (hs : s.ServerOk) :
    ∃ own s', Leads ServerRun.step RunAction.cost s own s' ∧ s'.Resting ∧
      s'.terminated = s.terminated := by
  by_cases hrunning : s.terminated = none
  · obtain ⟨own, s', hleads, hrest, hrunning'⟩ := work_pays.comes_to_rest_in _
      (fun hs hrunning ha h => hs.exists_own_step hrunning ha h) hs hrunning
    exact ⟨own, s', hleads, hrest, hrunning'.trans hrunning.symm⟩
  · exact ⟨[], s, .nil s, fun a _ => if_pos hrunning, rfl⟩

/-! ### The last call of `accept` -/

/-- The flag is set, and `accept` is not called any more. -/
structure Ending (s : ServerRun n capacity) : Prop where
  flag : s.shutdownRequested = true
  calling : s.pc ≠ .calling
  accepting : s.pc ≠ .accepting

theorem Ending.step (he : s.Ending) {a : RunAction n} (h : s.Step a s') : s'.Ending := by
  cases h with
  | signal interrupts =>
    have hsame : (if interrupts ∧ s.pc = .accepting then .testing else s.pc) = s.pc :=
      if_neg fun h => he.accepting h.2
    rw [hsame]
    exact ⟨rfl, he.calling, he.accepting⟩
  | @listen ok => cases ok <;> exact ⟨he.flag, nofun, nofun⟩
  | test _ hflag =>
    rw [he.flag] at hflag
    cases hflag
  | call hpc => exact absurd hpc he.calling
  | accept hpc => exact absurd hpc he.accepting
  | pool => exact ⟨he.flag, he.calling, he.accepting⟩
  | ends => exact ⟨he.flag, he.calling, he.accepting⟩
  | destroy => exact ⟨he.flag, he.calling, he.accepting⟩
  | _ => exact ⟨he.flag, nofun, nofun⟩

/-- `server_run` is called once. -/
theorem Step.isBefore {a : RunAction n} (h : s.Step a s') (hs : s.pc.isBefore = false) :
    s'.pc.isBefore = false := by
  cases h with
  | signal interrupts => rwa [RunPc.apply_signal RunPc.isBefore rfl]
  | listen hpc =>
    rw [hpc] at hs
    cases hs
  | pool => exact hs
  | ends => exact hs
  | destroy => exact hs
  | _ => rfl

/-- Only the last connection is late, and none is while `accept` may still be called. -/
structure LateOk (s : ServerRun n capacity) : Prop where
  last : ∀ c ∈ s.connections.dropLast, c.late = false
  before : s.pc = .calling ∨ s.pc = .accepting → ∀ c ∈ s.connections, c.late = false

theorem LateOk.step (hs : s.RunOk) (hl : s.LateOk) {a : RunAction n} (h : s.Step a s') :
    s'.LateOk := by
  cases h with
  | signal interrupts =>
    refine ⟨hl.last, fun hpc => ?_⟩
    dsimp only at hpc
    split at hpc
    · rcases hpc with hpc | hpc <;> cases hpc
    · exact hl.before hpc
  | @listen ok => cases ok <;> exact ⟨hl.last, by rintro (hpc | hpc) <;> cases hpc⟩
  | test _ hflag => exact ⟨hl.last, fun _ => hs.early hflag⟩
  | call hpc => exact ⟨hl.last, fun _ => hl.before (.inl hpc)⟩
  | accept hpc =>
    refine ⟨?_, by rintro (hpc | hpc) <;> cases hpc⟩
    dsimp only
    rw [List.dropLast_concat]
    exact hl.before (.inr hpc)
  | pool => exact ⟨hl.last, hl.before⟩
  | ends => exact ⟨hl.last, hl.before⟩
  | destroy => exact ⟨hl.last, hl.before⟩
  | _ => exact ⟨hl.last, by rintro (hpc | hpc) <;> cases hpc⟩

end ServerRun

open ServerRun

/-- **Only the last connection can be late.**  Whenever the signal comes, at most one connection is
accepted after it. -/
theorem server_run_one_late {n capacity : ℕ} {actions : List (RunAction n)}
    {s : ServerRun n capacity} (h : (ServerRun.start n capacity).run actions = some s) :
    ∀ c ∈ s.connections.dropLast, c.late = false := by
  have hstart : (ServerRun.start n capacity).RunOk ∧ (ServerRun.start n capacity).LateOk :=
    ⟨runOk_start n capacity, nofun, nofun⟩
  have hrun := ServerRun.run_keeps
    (P := fun s => s.RunOk ∧ s.LateOk) (fun _ _ _ hs h => ⟨hs.1.step h, hs.2.step hs.1 h⟩) hstart h
  exact hrun.2.last

theorem server_run_one_late_request :
    ∃ s, (ServerRun.start 1 1).run (listeningRun ++ [.run, .run, .accept (.ok 4),
      .configure true false, .run, .run, .signal true, .run, .accept (.ok 5)]) = some s ∧
      s.connections = [⟨4, false⟩, ⟨5, true⟩] ∧ ∀ c ∈ s.connections.dropLast, c.late = false := by
  have hrun : ((ServerRun.start 1 1).run (listeningRun ++ [.run, .run, .accept (.ok 4),
      .configure true false, .run, .run, .signal true, .run, .accept (.ok 5)])).map
      ServerRun.connections = some [⟨4, false⟩, ⟨5, true⟩] := by
    decide
  obtain ⟨s, hs, hconnections⟩ := Option.map_eq_some_iff.mp hrun
  exact ⟨s, hs, hconnections, server_run_one_late hs⟩

/-- **The server comes to rest, with everything done.**  A run of the process is at most as long as
the connections, the signals and the wake-ups without a signal pay for.  From every state that is
reached the process goes on by itself, in any order and with any clients, for at most `work` steps.
A `SIGPIPE` ends it when a `send` was called on a connection that its client had closed, and in no
other run.  Otherwise, where it cannot go on, every connection is closed, and the process is asleep
in `accept`, or has destroyed the pool, or could not create it; and when the flag is set and
`accept` has returned, `server_run` returns and the pool is destroyed. -/
theorem server_comes_to_rest {n capacity : ℕ} {actions : List (RunAction n)}
    {s : ServerRun n capacity} (h : (ServerRun.start n capacity).run actions = some s) :
    s.work + actions.length ≤ 15 * n + 15 + (actions.map RunAction.cost).sum ∧
    (∃ own s', Leads ServerRun.step RunAction.cost s own s' ∧ s'.Resting ∧
      s'.terminated = s.terminated) ∧
    ∀ own s', Leads ServerRun.step RunAction.cost s own s' → own.length ≤ s.work ∧
      (s'.terminated = none ↔ (ServerRun.start n capacity).NeverSendsOnClosed (actions ++ own)) ∧
      (s'.Resting → s'.terminated = none → s'.Finished ∧ (s.Ending → s.pc.isBefore = false →
        s'.pc = .returned ∧ s'.pool.owner = .destroyed)) := by
  have hs := (serverOk_start n capacity).run h
  refine ⟨?_, hs.comes_to_rest, fun own s' hleads => ⟨?_, ?_, fun hrest hrunning => ?_⟩⟩
  · rw [ServerRun.run_eq_run] at h
    rw [← ServerRun.work_start n capacity]
    exact ServerRun.work_pays.length_le (serverOk_start n capacity) h
  · exact le_of_add_le_right (ServerRun.work_pays.length_le_of_own hs hleads)
  · refine ServerRun.terminated_run_iff rfl rfl ?_
    rw [ServerRun.run_append, h, Option.bind_some, ServerRun.run_eq_run]
    exact hleads.run
  · have hrun := (ServerRun.run_eq_run s own).trans hleads.run
    have hplaced := ServerRun.run_keeps (fun _ _ _ hs h => hs.step h) (placed_run h) hrun
    have hfinished := (hs.run hrun).finished hrunning hplaced hrest
    refine ⟨hfinished, fun hending hbefore => ?_⟩
    have hending' := ServerRun.run_keeps (fun _ _ _ hs h => hs.step h) hending hrun
    have hbefore' : s'.pc.isBefore = false :=
      ServerRun.run_keeps (fun _ _ _ hs h => h.isBefore hs) hbefore hrun
    rcases hfinished.waits with ⟨hpc, -⟩ | ⟨hpc | hpc, howner⟩ | ⟨hpc, -⟩
    · exact absurd hpc hending'.accepting
    · rw [hpc] at hbefore'
      cases hbefore'
    · exact ⟨hpc, howner⟩
    · rw [hpc] at hbefore'
      cases hbefore'

/-- The signal comes while a connection is in hand. -/
def stoppedRun : List (RunAction 1) :=
  listeningRun.append [.run, .run, .accept (.ok 5), .signal true]

theorem server_comes_to_rest_stopped :
    ∃ s s', (ServerRun.start 1 1).run stoppedRun = some s ∧
      (∃ own, Leads ServerRun.step RunAction.cost s own s') ∧ s'.pc = .returned ∧
      s'.pool.owner = .destroyed := by
  have hrun : ((ServerRun.start 1 1).run stoppedRun).map
      (fun s => (s.pc, s.shutdownRequested, s.terminated)) =
      some (.configuring 0 5, true, none) := by
    decide
  obtain ⟨s, hs, heq⟩ := Option.map_eq_some_iff.mp hrun
  simp only [Prod.mk.injEq] at heq
  obtain ⟨hpc, hflag, hrunning⟩ := heq
  obtain ⟨-, ⟨own, s', hleads, hrest, hrunning'⟩, hall⟩ := server_comes_to_rest hs
  have hending : s.Ending := ⟨hflag, by rw [hpc]; exact nofun, by rw [hpc]; exact nofun⟩
  obtain ⟨-, -, hdone⟩ := hall own s' hleads
  have hreturned := (hdone hrest (hrunning'.trans hrunning)).2 hending (by rw [hpc]; rfl)
  exact ⟨s, s', hs, ⟨own, hleads⟩, hreturned⟩

end MiniDbms
