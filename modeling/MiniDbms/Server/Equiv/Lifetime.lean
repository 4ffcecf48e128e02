import MiniDbms.Lib.CString
import MiniDbms.Server.Equiv.Submit
import MiniDbms.Server.Lifetime
import MiniDbms.Table.Equiv.Destroy

/-!
# Results stay valid without locks

A lookup collects pointers under the locks of the buckets, and its response is written from the
records they point to when no lock is held any more.  This is sound (`server_results_stay_valid`):
no operation frees or changes a record that was stored, and the table is destroyed only when every
worker has left its handler for good.
-/

namespace MiniDbms

open TableMemory

/-! ### The pool -/

namespace SharedPool

variable {n k capacity : ℕ} {s s' : SharedPool n k capacity}

/-- A worker moves only itself. -/
theorem workerStep_of_ne {i i' : Fin n} (h : s.workerStep i' = some s') (hi : i ≠ i') :
    s'.workers i = s.workers i := by
  have hset : ∀ pc, (s.setWorker i' pc).workers i = s.workers i := fun pc =>
    Function.update_of_ne hi _ _
  unfold workerStep at h
  split at h
  · cases h
  · obtain ⟨-, rfl⟩ := acquire_eq_some h
    exact hset _
  · cases h
    exact hset _
  · cases h
    exact hset _
  · cases h
  · obtain ⟨-, rfl⟩ := acquire_eq_some h
    exact hset _
  · split_ifs at h
    · cases h
      exact hset _
    · obtain ⟨⟨clientFd, pool⟩, -, h⟩ := Option.bind_eq_some_iff.mp h
      cases h
      exact hset _
  · cases h
    exact hset _
  · cases h
    exact hset _
  · cases h

/-- A caller moves sleepers only. -/
theorem callerStep_handling {j : Fin k} {woken : Finset (Fin n)}
    (h : s.callerStep j woken = some s')
    {i : Fin n} {job : ℕ} {clientFd : ℤ} (hi : s.workers i = .handling job clientFd) :
    s'.workers i = .handling job clientFd := by
  have hwake : ∀ woken, condWake s.workers woken i = .handling job clientFd := fun woken =>
    (condWake_of_ne woken (by rw [hi]; nofun)).trans hi
  unfold callerStep at h
  split at h
  · cases h
  · obtain ⟨-, rfl⟩ := acquire_eq_some h
    exact hi
  · split_ifs at h
    · obtain ⟨pool, -, h⟩ := Option.bind_eq_some_iff.mp h
      obtain ⟨workers, hsignal, h⟩ := Option.bind_eq_some_iff.mp h
      unfold condSignal at hsignal
      split_ifs at hsignal
      cases hsignal
      cases h
      exact hwake woken
    · cases h
      exact hi
  · cases h
    exact hi
  · obtain ⟨-, rfl⟩ := acquire_eq_some h
    exact hi
  · cases h
    exact hwake Finset.univ

/-- The owner moves sleepers, and workers that it has just created. -/
theorem ownerStep_handling (hp : s.PhaseOk) {ok : Bool} (h : s.ownerStep ok = some s') {i : Fin n}
    {job : ℕ} {clientFd : ℤ} (hi : s.workers i = .handling job clientFd) :
    s'.workers i = .handling job clientFd := by
  have hwake : condBroadcast s.workers i = .handling job clientFd :=
    (condWake_of_ne Finset.univ (by rw [hi]; nofun)).trans hi
  unfold ownerStep at h
  split at h
  · split_ifs at h <;> cases h <;> exact hi
  · rename_i index hpc
    split_ifs at h with hlt hok
    · cases h
      -- the worker that is created was not there, so it handles nothing
      have hphase := hp.owner
      rw [hpc] at hphase
      have hne : i ≠ ⟨index, hlt⟩ := by
        rintro rfl
        rw [hphase.2.2 ⟨index, hlt⟩ le_rfl] at hi
        cases hi
      exact (Function.update_of_ne hne _ _).trans hi
    · cases h
      exact hi
    · cases h
      exact hi
  · cases h
    exact hwake
  · cases h
    exact hi
  · split_ifs at h
    cases h
    exact hi
  · cases h
  · cases h
  · obtain ⟨-, rfl⟩ := acquire_eq_some h
    exact hi
  · cases h
    exact hwake
  · split_ifs at h
    · cases h
      exact hi
    · cases h
      exact hi
  · cases h

/-- A handler ends in a step of its worker only. -/
theorem step_handling (hp : s.PhaseOk) {action : PoolAction n k} (h : s.step action = some s')
    {i : Fin n} {job : ℕ} {clientFd : ℤ} (hi : s.workers i = .handling job clientFd)
    (haction : action ≠ .worker i) : s'.workers i = .handling job clientFd := by
  cases action with
  | owner ok => exact ownerStep_handling hp h hi
  | destroy =>
    rw [step] at h
    split_ifs at h <;> cases h <;> exact hi
  | accept j clientFd' =>
    rw [step] at h
    split_ifs at h
    cases h
    exact hi
  | shutdown j =>
    rw [step] at h
    split_ifs at h <;> cases h <;> exact hi
  | caller j woken => exact callerStep_handling h hi
  | worker i' =>
    have hne : i ≠ i' := by
      rintro rfl
      exact haction rfl
    exact (workerStep_of_ne h hne).trans hi
  | wake i' =>
    rw [step] at h
    split_ifs at h with hasleep
    cases h
    have hne : i ≠ i' := by
      rintro rfl
      rw [hi] at hasleep
      cases hasleep
    exact (Function.update_of_ne hne _ _).trans hi

/-- The owner is done with the pool. -/
def IsOver (s : SharedPool n k capacity) : Prop := s.owner = .destroyed ∨ s.owner = .failed

theorem IsOver.isGone (hp : s.PhaseOk) (h : s.IsOver) (i : Fin n) :
    (s.workers i).isGone = true := by
  have hok := hp.owner
  rcases h with hpc | hpc <;> rw [hpc] at hok
  · rw [hok.2 i]
    rfl
  · exact hok.2 i

/-- Then no thread moves any more. -/
theorem IsOver.step_eq_none (hp : s.PhaseOk) (h : s.IsOver) (action : PoolAction n k) :
    s.step action = none := by
  have hrunning : s.owner ≠ .running := by
    rcases h with hpc | hpc <;> rw [hpc] <;> nofun
  have hcallers : ∀ j, s.callers j = .idle := by
    intro j
    by_contra hj
    exact hrunning (hp.callers j hj)
  cases action with
  | owner ok =>
    rw [step, ownerStep]
    rcases h with hpc | hpc <;> rw [hpc]
  | destroy => exact if_neg fun hboth => hrunning hboth.1
  | accept j clientFd => exact if_neg fun hboth => hrunning hboth.1
  | shutdown j => exact if_neg fun hboth => hrunning hboth.1
  | caller j woken => rw [step, callerStep, hcallers j]
  | worker i =>
    have hgone := h.isGone hp i
    rw [step, workerStep]
    split <;> rename_i hpc <;> rw [hpc] at hgone <;> first | rfl | cases hgone
  | wake i =>
    have hgone := h.isGone hp i
    refine if_neg fun hasleep => ?_
    rw [hasleep] at hgone
    cases hgone

end SharedPool

/-! ### The table -/

/-- The pointers that a lookup has collected. -/
def Pc.collected : Pc → List RecordPtr
  | .scanning _ _ _ records => records.rows
  | .selected _ _ records => records.rows
  | _ => []

namespace SharedTable

variable {n : ℕ} {s s' : SharedTable n} {t : Fin n}

/-- A call changes the place of its thread. -/
theorem call_spec {op : Op} (h : s.call t op = some s') : s.threads t = .idle ∧
    s'.stored = s.stored ∧ s'.memory = s.memory ∧ (∀ t' ≠ t, s'.threads t' = s.threads t') ∧
    ∀ call scans records, s'.threads t ≠ .selected call scans records := by
  have hself : ∀ pc, Function.update s.threads t pc t = pc := fun pc =>
    Function.update_self t pc s.threads
  have hother : ∀ pc, ∀ t' ≠ t, Function.update s.threads t pc t' = s.threads t' :=
    fun pc t' ht => Function.update_of_ne ht _ _
  unfold call at h
  split at h
  · rename_i hidle
    refine ⟨hidle, ?_⟩
    split at h
    all_goals
      cases h
      refine ⟨rfl, rfl, hother _, fun call scans records hpc => ?_⟩
      have hpc' := (hself _).symm.trans hpc
      cases hpc'
  · cases h

theorem Progress.stored_mem (h : s.Progress t s') {x : Stored} (hx : x ∈ s.stored) :
    x ∈ s'.stored := by
  cases h with
  | store _ _ _ _ => exact List.mem_append_left _ hx
  | _ => exact hx

theorem Progress.threads_of_ne (h : s.Progress t s') {t' : Fin n} (ht : t' ≠ t) :
    s'.threads t' = s.threads t' := by
  cases h <;> exact Function.update_of_ne ht _ _

/-- What a lookup has collected was stored. -/
theorem Inv.collected_stored (hi : s.Inv) {p : RecordPtr} (hp : p ∈ (s.threads t).collected) :
    ∃ x ∈ s.stored, x.ptr = p := by
  have hok := hi.threads t
  have hscanned : ∀ {scans : List Scan} {e : Row}, e ∈ s.scanned scans →
      ∃ x ∈ s.stored, x.ptr = e.1 := by
    intro scans e he
    obtain ⟨x, hx, -, rfl⟩ := History.mem_scanned.mp he
    exact ⟨x, hx, rfl⟩
  unfold Pc.collected at hp
  split at hp
  · rename_i call scans rest records hpc
    rw [hpc] at hok
    obtain ⟨-, -, -, hrows⟩ := hok
    rw [hrows] at hp
    obtain ⟨e, he, rfl⟩ := List.mem_map.mp hp
    exact hscanned he
  · rename_i call scans records hpc
    rw [hpc] at hok
    obtain ⟨-, -, hrows⟩ := hok
    rw [hrows] at hp
    obtain ⟨e, he, rfl⟩ := List.mem_map.mp hp
    exact hscanned (History.mem_selection.mp he).1
  · cases hp

/-- A record that was stored stays as it is. -/
theorem Inv.record_eq (hi : s.Inv) (hi' : s'.Inv) (hstored : ∀ x ∈ s.stored, x ∈ s'.stored)
    {x : Stored} (hx : x ∈ s.stored) : s'.memory.record x.ptr = s.memory.record x.ptr :=
  (hi'.record (hstored x hx)).trans (hi.record hx).symm

end SharedTable

/-! ### The invariant -/

theorem TableMemory.recordsAt_congr {m m' : TableMemory} {ps : List RecordPtr}
    (h : ∀ p ∈ ps, m'.record p = m.record p) : m'.recordsAt ps = m.recordsAt ps := by
  unfold recordsAt
  induction ps with
  | nil => rfl
  | cons p ps ih =>
    rw [List.mapM_cons, List.mapM_cons, h p List.mem_cons_self,
      ih fun q hq => h q (List.mem_cons_of_mem _ hq)]

namespace ServerLifetime

variable {n k capacity : ℕ} {s s' : ServerLifetime n k capacity}

theorem inHandler_iff {i : Fin n} :
    s.inHandler i = true ↔ ∃ job clientFd, s.pool.workers i = .handling job clientFd := by
  unfold inHandler
  constructor
  · intro h
    split at h
    · exact ⟨_, _, ‹_›⟩
    · cases h
  · rintro ⟨job, clientFd, hpc⟩
    rw [hpc]

/-- What every step of the server keeps. -/
structure Ok (s : ServerLifetime n k capacity) : Prop where
  pool : s.pool.PoolOk
  table : s.destroyed = false → s.table.Inv
  ended : s.destroyed = true → s.pool.IsOver
  busy : ∀ i, s.table.threads i ≠ .idle → s.inHandler i = true
  written : s.destroyed = false → ∀ i call scans records,
    s.table.threads i = .selected call scans records →
    ∃ rows, s.table.memory.recordsAt records.rows = some rows ∧ s.written i <+: rows
  unwritten : ∀ i, (∀ call scans records, s.table.threads i ≠ .selected call scans records) →
    s.written i = []

theorem ok_start (n k capacity : ℕ) : (start n k capacity).Ok where
  pool := SharedPool.poolOk_start n k capacity
  table _ := SharedTable.inv_start n
  ended := nofun
  busy _ h := absurd rfl h
  written _ _ _ _ _ := nofun
  unwritten _ _ := rfl

/-- The table is there as long as a handler is at work. -/
theorem Ok.not_destroyed (ho : s.Ok) {i : Fin n} (hi : s.inHandler i = true) :
    s.destroyed = false := by
  obtain ⟨job, clientFd, hpc⟩ := inHandler_iff.mp hi
  rw [← Bool.not_eq_true]
  intro hdestroyed
  have hgone := (ho.ended hdestroyed).isGone ho.pool.wake.phase i
  rw [hpc] at hgone
  cases hgone

/-- A record that a lookup has collected is there. -/
theorem Ok.collected (ho : s.Ok) (hdestroyed : s.destroyed = false) {i : Fin n} {p : RecordPtr}
    (hp : p ∈ (s.table.threads i).collected) :
    ∃ x ∈ s.table.stored, x.ptr = p ∧ s.table.memory.record p = some x.record := by
  have hinv := ho.table hdestroyed
  obtain ⟨x, hx, rfl⟩ := hinv.collected_stored hp
  exact ⟨x, hx, rfl, hinv.record hx⟩

/-- The handler of worker `i` takes a step at the table, and has no response in work behind it. -/
theorem Ok.of_table (ho : s.Ok) {i : Fin n} (hi : s.inHandler i = true) {table : SharedTable n}
    (hinv : table.Inv) (hstored : ∀ x ∈ s.table.stored, x ∈ table.stored)
    (hother : ∀ i' ≠ i, table.threads i' = s.table.threads i') {written : Fin n → List Record}
    (hwritten : ∀ i' ≠ i, written i' = s.written i') (hself : written i = []) :
    Ok { s with table := table, written := written } where
  pool := ho.pool
  table _ := hinv
  ended := ho.ended
  busy i' h := by
    by_cases hne : i' = i
    · rw [hne]
      exact hi
    · exact ho.busy i' (hother i' hne ▸ h)
  written hdestroyed i' call scans records hpc := by
    have hmem : ∀ p ∈ records.rows, ∃ x ∈ table.stored, x.ptr = p := fun p hp =>
      hinv.collected_stored (t := i') (by rw [hpc]; exact hp)
    by_cases hne : i' = i
    · -- the thread of this handler has written nothing so far
      subst hne
      obtain ⟨rows, hrows⟩ := exists_recordsAt (m := table.memory) fun p hp => by
        obtain ⟨x, hx, rfl⟩ := hmem p hp
        exact ⟨x.record, hinv.record hx⟩
      refine ⟨rows, hrows, ?_⟩
      show written i' <+: rows
      rw [hself]
      exact List.nil_prefix
    · -- what another thread collected is stored as it was
      have hpc' := (hother i' hne).symm.trans hpc
      obtain ⟨rows, hrows, hprefix⟩ := ho.written hdestroyed i' call scans records hpc'
      refine ⟨rows, ?_, ?_⟩
      · rw [← hrows]
        refine recordsAt_congr fun p hp => ?_
        obtain ⟨x, hx, rfl⟩ := (ho.table hdestroyed).collected_stored (t := i') (by
          rw [hpc']
          exact hp)
        exact (ho.table hdestroyed).record_eq hinv hstored hx
      · show written i' <+: rows
        rw [hwritten i' hne]
        exact hprefix
  unwritten i' h := by
    by_cases hne : i' = i
    · rw [hne]
      exact hself
    · refine (hwritten i' hne).trans (ho.unwritten i' fun call scans records => ?_)
      rw [← hother i' hne]
      exact h call scans records

/-! ### Steps -/

/-- A thread of the pool goes on. -/
theorem Ok.pool_step (ho : s.Ok) {action : PoolAction n k}
    (hreturns : s.returnsEarly action = false)
    {pool : SharedPool n k capacity} (h : s.pool.step action = some pool) :
    Ok { s with pool := pool } where
  pool := ho.pool.step (SharedPool.step_cases h)
  table := ho.table
  ended hdestroyed := by
    rw [(ho.ended hdestroyed).step_eq_none ho.pool.wake.phase] at h
    cases h
  busy i hi := by
    have hhandler := ho.busy i hi
    obtain ⟨job, clientFd, hpc⟩ := inHandler_iff.mp hhandler
    refine inHandler_iff.mpr ⟨job, clientFd, SharedPool.step_handling ho.pool.wake.phase h hpc ?_⟩
    -- the handler of a worker that is at work does not return
    rintro rfl
    rw [returnsEarly, hhandler, Bool.true_and] at hreturns
    cases hthread : s.table.threads i with
    | idle => exact hi hthread
    | _ =>
      rw [hthread] at hreturns
      cases hreturns
  written := ho.written
  unwritten := ho.unwritten

/-- The handler of a worker executes a statement. -/
theorem Ok.execute (ho : s.Ok) {i : Fin n} {op : Op} (hi : s.inHandler i = true)
    {table : SharedTable n} (h : s.table.call i op = some table) :
    Ok { s with table := table } ∧ ∀ x ∈ s.table.stored, x ∈ table.stored := by
  obtain ⟨hidle, hstored, -, hother, -⟩ := SharedTable.call_spec h
  have hmem : ∀ x ∈ s.table.stored, x ∈ table.stored := fun x hx => hstored ▸ hx
  refine ⟨ho.of_table hi ((ho.table (ho.not_destroyed hi)).call h) hmem hother (fun _ _ => rfl) ?_,
    hmem⟩
  exact ho.unwritten i fun call scans records hpc => by
    rw [hidle] at hpc
    cases hpc

/-- It goes on with it. -/
theorem Ok.advance (ho : s.Ok) {i : Fin n} (hi : s.inHandler i = true)
    (h : s.advance i = some s') : s'.Ok ∧ s'.destroyed = s.destroyed ∧
      ∀ x ∈ s.table.stored, x ∈ s'.table.stored := by
  have hinv := ho.table (ho.not_destroyed hi)
  have hstep : ∀ {table}, s.table.advance i = some table →
      table.Inv ∧ s.table.Progress i table := by
    intro table htable
    obtain ⟨t, op, haction, -⟩ | ⟨t, haction, hprogress⟩ :=
      hinv.step_cases (a := .advance i) htable
    · cases haction
    · cases haction
      exact ⟨hinv.progress hprogress, hprogress⟩
  unfold ServerLifetime.advance at h
  split at h
  · rename_i call scans records hpc
    split_ifs at h
    obtain ⟨table, htable, h⟩ := Option.bind_eq_some_iff.mp h
    cases h
    obtain ⟨hinv', hprogress⟩ := hstep htable
    refine ⟨ho.of_table hi hinv' (fun x => hprogress.stored_mem)
      (fun i' hne => hprogress.threads_of_ne hne) (fun i' hne => Function.update_of_ne hne _ _)
      (Function.update_self _ _ _), rfl, fun x => hprogress.stored_mem⟩
  · rename_i hnot
    obtain ⟨table, htable, h⟩ := Option.bind_eq_some_iff.mp h
    cases h
    obtain ⟨hinv', hprogress⟩ := hstep htable
    refine ⟨ho.of_table hi hinv' (fun x => hprogress.stored_mem)
      (fun i' hne => hprogress.threads_of_ne hne) (fun _ _ => rfl) ?_, rfl,
      fun x => hprogress.stored_mem⟩
    exact ho.unwritten i hnot

/-- One element more. -/
theorem prefix_concat {xs ys : List Record} {r : Record} (h : xs <+: ys)
    (hr : ys[xs.length]? = some r) : xs ++ [r] <+: ys := by
  obtain ⟨rest, rfl⟩ := h
  rw [List.getElem?_append_right le_rfl, Nat.sub_self] at hr
  cases rest with
  | nil => cases hr
  | cons r' rest =>
    cases hr
    exact ⟨rest, List.append_assoc ..⟩

/-- It writes a row: the next one of those that it has collected. -/
theorem Ok.write (ho : s.Ok) {i : Fin n} (hi : s.inHandler i = true) (h : s.write i = some s') :
    s'.Ok ∧ s'.destroyed = s.destroyed ∧ s'.table = s.table := by
  have hdestroyed := ho.not_destroyed hi
  unfold ServerLifetime.write at h
  split at h
  · rename_i call scans records hpc
    obtain ⟨p, hp, h⟩ := Option.bind_eq_some_iff.mp h
    obtain ⟨r, hr, h⟩ := Option.bind_eq_some_iff.mp h
    cases h
    refine ⟨⟨ho.pool, ho.table, ho.ended, ho.busy, ?_, ?_⟩, rfl, rfl⟩
    · intro _ i' call' scans' records' hpc'
      by_cases hne : i' = i
      · subst hne
        obtain ⟨rows, hrows, hprefix⟩ := ho.written hdestroyed i' call scans records hpc
        have hsame := hpc.symm.trans hpc'
        cases hsame
        refine ⟨rows, hrows, ?_⟩
        have hnext := (record_of_recordsAt hrows hp).symm.trans hr
        show Function.update s.written i' _ i' <+: rows
        rw [Function.update_self]
        exact prefix_concat hprefix hnext
      · obtain ⟨rows, hrows, hprefix⟩ := ho.written hdestroyed i' call' scans' records' hpc'
        refine ⟨rows, hrows, ?_⟩
        show Function.update s.written i _ i' <+: rows
        rw [Function.update_of_ne hne]
        exact hprefix
    · intro i' hnot
      have hne : i' ≠ i := by
        rintro rfl
        exact hnot call scans records hpc
      exact (Function.update_of_ne hne _ _).trans (ho.unwritten i' hnot)
  · cases h

/-- The table is destroyed. -/
theorem Ok.destroyTable (ho : s.Ok) (hover : s.pool.IsOver) (h : s.destroyTable = some s') :
    s'.Ok := by
  obtain ⟨m, -, h⟩ := Option.bind_eq_some_iff.mp h
  cases h
  exact ⟨ho.pool, nofun, fun _ => hover, ho.busy, nofun, ho.unwritten⟩

/-- **Every step** keeps the invariant, and what was stored as long as there is a table. -/
theorem Ok.step (ho : s.Ok) {action : LifetimeAction n k} (h : s.step action = some s') :
    s'.Ok ∧ (s'.destroyed = false →
      s.destroyed = false ∧ ∀ x ∈ s.table.stored, x ∈ s'.table.stored) := by
  cases action with
  | pool action =>
    rw [ServerLifetime.step] at h
    split_ifs at h with hreturns
    obtain ⟨pool, hpool, h⟩ := Option.bind_eq_some_iff.mp h
    cases h
    exact ⟨ho.pool_step (Bool.eq_false_iff.mpr hreturns) hpool, fun hd => ⟨hd, fun _ hx => hx⟩⟩
  | execute i op =>
    rw [ServerLifetime.step] at h
    split_ifs at h with hi
    obtain ⟨table, htable, h⟩ := Option.bind_eq_some_iff.mp h
    cases h
    obtain ⟨ho', hmem⟩ := ho.execute hi htable
    exact ⟨ho', fun hd => ⟨hd, hmem⟩⟩
  | advance i =>
    rw [ServerLifetime.step] at h
    split_ifs at h with hi
    obtain ⟨ho', hdestroyed, hmem⟩ := ho.advance hi h
    exact ⟨ho', fun hd => ⟨hdestroyed ▸ hd, hmem⟩⟩
  | write i =>
    rw [ServerLifetime.step] at h
    split_ifs at h with hi
    obtain ⟨ho', hdestroyed, htable⟩ := ho.write hi h
    exact ⟨ho', fun hd => ⟨hdestroyed ▸ hd, fun x hx => htable ▸ hx⟩⟩
  | destroyTable =>
    rw [ServerLifetime.step] at h
    split_ifs at h with hboth
    refine ⟨ho.destroyTable hboth.2 h, fun hd => ?_⟩
    obtain ⟨m, -, h⟩ := Option.bind_eq_some_iff.mp h
    cases h
    cases hd

/-- **Every run**, too. -/
theorem Ok.run (ho : s.Ok) {actions : List (LifetimeAction n k)} (h : s.run actions = some s') :
    s'.Ok ∧ (s'.destroyed = false →
      s.destroyed = false ∧ ∀ x ∈ s.table.stored, x ∈ s'.table.stored) := by
  induction actions generalizing s with
  | nil =>
    cases h
    exact ⟨ho, fun hd => ⟨hd, fun _ hx => hx⟩⟩
  | cons action actions ih =>
    obtain ⟨s₁, hstep, h⟩ := Option.bind_eq_some_iff.mp h
    obtain ⟨ho₁, hfirst⟩ := ho.step hstep
    obtain ⟨ho', hrest⟩ := ih ho₁ h
    refine ⟨ho', fun hd => ?_⟩
    obtain ⟨hd₁, hmem₁⟩ := hrest hd
    obtain ⟨hd₀, hmem₀⟩ := hfirst hd₁
    exact ⟨hd₀, fun x hx => hmem₁ x (hmem₀ x hx)⟩

/-! ### Results -/

/-- What holds of results without locks, in one state of the server. -/
structure ResultsValid (s : ServerLifetime n k capacity) : Prop where
  /-- A record that a lookup has collected is there, and stays as it is while the worker is in its
  handler for this connection; it does so until the table is destroyed. -/
  collected : ∀ i, ∀ p ∈ (s.table.threads i).collected, ∃ r, s.table.memory.record p = some r ∧
    ∀ later s', s.run later = some s' →
      s'.pool.workers i = s.pool.workers i ∨ s'.destroyed = false →
      s'.table.memory.record p = some r
  /-- What was written to a response, one row at a time, is what its pointers point to. -/
  written : ∀ i call scans records, s.table.threads i = .selected call scans records →
    ∃ rows, s.table.memory.recordsAt records.rows = some rows ∧ s.written i <+: rows
  /-- A handler that executes a statement or writes its response is never stuck. -/
  goes_on : ∀ i, s.table.threads i ≠ .idle →
    ∃ action s', (action = .advance i ∨ action = .write i) ∧ s.step action = some s'
  /-- The table is there for every handler. -/
  handlers : ∀ i job clientFd, s.pool.workers i = .handling job clientFd → s.destroyed = false
  /-- When the table is destroyed, every worker has left its last handler and its loop, or was never
  created; every job that was accepted by a pool that was created is handled. -/
  destroys : ∀ s', s.step .destroyTable = some s' →
    (∀ i, (s.pool.workers i).isGone = true ∧ s.table.threads i = .idle) ∧
    (s.pool.owner = .destroyed →
      (s.pool.handled.map Service.job).Perm (List.range s.pool.accepted.length))
  /-- No record is freed twice by that. -/
  destroyable : s.destroyed = false → s.pool.owner = .destroyed ∨ s.pool.owner = .failed →
    ∃ s', s.step .destroyTable = some s'

theorem Ok.resultsValid (ho : s.Ok) : s.ResultsValid where
  collected i p hp := by
    have hthread : s.table.threads i ≠ .idle := by
      intro hidle
      rw [hidle] at hp
      cases hp
    have hhandler := ho.busy i hthread
    have hdestroyed := ho.not_destroyed hhandler
    obtain ⟨x, hx, rfl, hrecord⟩ := ho.collected hdestroyed hp
    refine ⟨x.record, hrecord, fun later s' hrun hthen => ?_⟩
    obtain ⟨ho', hlater⟩ := ho.run hrun
    have hdestroyed' : s'.destroyed = false := by
      rcases hthen with hsame | hd
      · obtain ⟨job, clientFd, hpc⟩ := inHandler_iff.mp hhandler
        exact ho'.not_destroyed (i := i) (inHandler_iff.mpr ⟨job, clientFd, hsame.trans hpc⟩)
      · exact hd
    exact (ho'.table hdestroyed').record ((hlater hdestroyed').2 x hx)
  written i call scans records hpc := by
    have hthread : s.table.threads i ≠ .idle := by rw [hpc]; nofun
    exact ho.written (ho.not_destroyed (ho.busy i hthread)) i call scans records hpc
  goes_on i hthread := by
    -- the handler writes its rows one by one, and goes on in the table when it has none left
    have hhandler := ho.busy i hthread
    have hdestroyed := ho.not_destroyed hhandler
    obtain ⟨table, hadvance, -⟩ := (ho.table hdestroyed).advance hthread
    by_cases hselected : ∃ call scans records, s.table.threads i = .selected call scans records ∧
        (s.written i).length < records.rows.length
    · obtain ⟨call, scans, records, hpc, hlt⟩ := hselected
      obtain ⟨x, -, -, hrecord⟩ := ho.collected hdestroyed (i := i)
        (p := records.rows[(s.written i).length]) (by rw [hpc]; exact List.getElem_mem hlt)
      refine ⟨.write i, { s with
        written := Function.update s.written i (s.written i ++ [x.record]) }, Or.inr rfl, ?_⟩
      rw [ServerLifetime.step, if_pos hhandler, ServerLifetime.write, hpc]
      dsimp only
      rw [List.getElem?_eq_getElem hlt, Option.bind_eq_bind, Option.bind_some, hrecord]
      rfl
    · refine ⟨.advance i, ?_⟩
      rw [ServerLifetime.step, if_pos hhandler, ServerLifetime.advance]
      split
      · rename_i call scans records hpc
        rw [if_neg fun hlt => hselected ⟨call, scans, records, hpc, hlt⟩, hadvance]
        exact ⟨_, Or.inl rfl, rfl⟩
      · rw [hadvance]
        exact ⟨_, Or.inl rfl, rfl⟩
  handlers i job clientFd hpc := ho.not_destroyed (inHandler_iff.mpr ⟨job, clientFd, hpc⟩)
  destroys s' hstep := by
    rw [ServerLifetime.step] at hstep
    split_ifs at hstep with hboth
    refine ⟨fun i => ?_, fun howner => (ho.pool.destroyed howner).1⟩
    have hgone := SharedPool.IsOver.isGone ho.pool.wake.phase hboth.2 i
    refine ⟨hgone, ?_⟩
    by_contra hthread
    obtain ⟨job, clientFd, hpc⟩ := inHandler_iff.mp (ho.busy i hthread)
    rw [hpc] at hgone
    cases hgone
  destroyable hdestroyed hover := by
    obtain ⟨m, hdestroy, -⟩ := tableDestroy_spec (ho.table hdestroyed).stores
    refine ⟨{ s with table := { s.table with memory := m }, destroyed := true }, ?_⟩
    rw [ServerLifetime.step, if_pos ⟨hdestroyed, hover⟩, ServerLifetime.destroyTable, hdestroy]
    rfl

end ServerLifetime

open ServerLifetime

/-- **Results stay valid without locks**: in every state that the server reaches, from
`server_create` to `server_destroy`. -/
theorem server_results_stay_valid {n k capacity : ℕ} {actions : List (LifetimeAction n k)}
    {s : ServerLifetime n k capacity} (h : (start n k capacity).run actions = some s) :
    s.ResultsValid :=
  ((ok_start n k capacity).run h).1.resultsValid

/-- Two workers and three connections: worker 1 inserts a row for the first one, worker 0 looks all
rows up for the third, and worker 1 inserts another row for the second before the response is
written. -/
def overlappingRun : List (LifetimeAction 2 1) :=
  let main : Fin 1 := ⟨0, Nat.one_pos⟩
  let first : Fin 2 := ⟨0, Nat.zero_lt_two⟩
  let second : Fin 2 := ⟨1, Nat.one_lt_two⟩
  List.flatten [
    List.replicate 4 (.pool (.owner true)),
    [5, 6, 7].flatMap fun clientFd =>
      [.pool (.accept main clientFd), .pool (.caller main ∅), .pool (.caller main ∅)],
    List.replicate 3 (.pool (.worker second)),
    [.execute second (.insert (CString.ascii "kim") 30), .advance second, .advance second,
      .advance second],
    List.replicate 5 (.pool (.worker second)),
    List.replicate 3 (.pool (.worker first)),
    .execute first (.select .all) :: List.replicate 17 (.advance first),
    [.execute second (.insert (CString.ascii "lee") 41), .advance second, .advance second,
      .write first]]

theorem server_results_stay_valid_overlapping :
    ∃ s : ServerLifetime 2 1 3, (start 2 1 3).run overlappingRun = some s ∧
      (s.table.threads 0).collected = [0] ∧ s.written 0 = [⟨1, CString.ascii "kim", 30⟩] ∧
      ∃ r, s.table.memory.record 0 = some r ∧ ∀ later s', s.run later = some s' →
        s'.pool.workers 0 = s.pool.workers 0 ∨ s'.destroyed = false →
        s'.table.memory.record 0 = some r := by
  have hrun : ((start 2 1 3).run overlappingRun).map
      (fun s => ((s.table.threads 0).collected, s.written 0)) =
      some ([0], [⟨1, CString.ascii "kim", 30⟩]) := by
    decide
  obtain ⟨s, hs, heq⟩ := Option.map_eq_some_iff.mp hrun
  obtain ⟨hcollected, hwritten⟩ := Prod.mk.inj heq
  exact ⟨s, hs, hcollected, hwritten, (server_results_stay_valid hs).collected 0 0 (by
    rw [hcollected]
    exact List.mem_singleton_self 0)⟩

end MiniDbms
