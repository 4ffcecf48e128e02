import MiniDbms.Table.Equiv.Ownership
import MiniDbms.Table.Locking

/-!
# Threads never block the table

Any number of threads call the operations, under every interleaving and every pattern of failures.

* The programs take one lock at a time and release it on every path (`TableCall.prog_disciplined`),
  and what they do in between is defined and keeps the table well formed
  (`TableCall.prog_safe`).  So no lock leaks, and the threads never all wait (`table_locks_clean`).
* The IDs that were taken are `1`, `2`, and so on, as long as `next_id` does not overflow
  (`table_ids_increase_iff`).
-/

namespace MiniDbms

open Locks CArray TableMemory

/-! ### One lock at a time -/

theorem tableInsertProg_disciplined (name : CBytes) (age : ℤ) :
    (tableInsertProg name age).Disciplined none := by
  refine ⟨rfl, rfl, fun recordId => ⟨rfl, rfl, rfl, fun e => ?_⟩⟩
  cases e <;> exact ⟨rfl, rfl⟩

theorem tableFindByIdProg_disciplined (id : ℤ) : (tableFindByIdProg id).Disciplined none :=
  ⟨rfl, rfl, fun _ => ⟨rfl, rfl⟩⟩

theorem tableScanByIdProg_disciplined (id : ℤ) : (tableScanByIdProg id).Disciplined none := by
  unfold tableScanByIdProg
  induction List.finRange tableBucketCount with
  | nil => exact rfl
  | cons b bs ih =>
    refine ⟨rfl, rfl, fun found => ?_⟩
    cases found with
    | none => exact ⟨rfl, ih⟩
    | some record => exact ⟨rfl, rfl⟩

theorem tableCollectBucketsProg_disciplined (bs : List (Fin tableBucketCount))
    (records : RecordArray) : (tableCollectBucketsProg bs records).Disciplined none := by
  induction bs generalizing records with
  | nil => exact rfl
  | cons b bs ih =>
    refine ⟨rfl, fun _ => rfl, fun r => ?_⟩
    rcases r with ⟨_ | _, records'⟩
    · exact ⟨rfl, fun _ => rfl⟩
    · exact ⟨rfl, ih records'⟩

theorem tableCollectAllProg_disciplined : tableCollectAllProg.Disciplined none := by
  refine (tableCollectBucketsProg_disciplined _ _).bind fun r => ?_
  rcases r with ⟨_ | _, records⟩
  · exact rfl
  · exact fun _ => rfl

theorem tableFindMatchesProg_disciplined (test : Record → Bool) :
    (tableFindMatchesProg test).Disciplined none := by
  refine tableCollectAllProg_disciplined.bind fun r => ?_
  rcases r with ⟨_ | _, records⟩
  · exact rfl
  · exact fun _ => rfl

theorem tableFindByIdConditionProg_disciplined (comparison : TableComparison) (id : ℤ) :
    (tableFindByIdConditionProg comparison id).Disciplined none := by
  unfold tableFindByIdConditionProg
  split_ifs
  · refine (tableFindByIdProg_disciplined id).bind fun found => ?_
    cases found with
    | none => exact rfl
    | some record => exact fun _ => rfl
  · exact tableFindMatchesProg_disciplined _

theorem TableCall.prog_disciplined (call : TableCall) : call.prog.Disciplined none := by
  cases call with
  | insert name age => exact (tableInsertProg_disciplined name age).bind fun _ => rfl
  | findById id => exact (tableFindByIdProg_disciplined id).bind fun _ => rfl
  | scanById id => exact (tableScanByIdProg_disciplined id).bind fun _ => rfl
  | collectAll => exact tableCollectAllProg_disciplined.bind fun _ => rfl
  | findByNameMatches name => exact (tableFindMatchesProg_disciplined _).bind fun _ => rfl
  | findByIdCondition comparison id =>
    exact (tableFindByIdConditionProg_disciplined comparison id).bind fun _ => rfl
  | findByAgeCondition comparison age =>
    exact (tableFindMatchesProg_disciplined _).bind fun _ => rfl

/-! ### What is done between two calls of the locks -/

/-- The table is well formed, every record belongs to one row, and `next_id` has counted the IDs
that were taken, modulo `2 ^ 32`. -/
structure TakenTable.Ok (s : TakenTable) : Prop where
  formed : ∃ rs, s.Formed rs
  owns : s.OwnsRecords
  nextId : s.nextId = intWrap (s.taken.length + 1)
  taken : s.taken = (List.range s.taken.length).map fun i : ℕ => intWrap (i + 1)

/-- No record of `s` has been freed or changed in `s'`. -/
def TakenTable.KeepsRecords (s s' : TakenTable) : Prop :=
  ∀ p r, s.record p = some r → s'.record p = some r

open TakenTable

instance : IsTrans TakenTable KeepsRecords := ⟨fun _ _ _ h h' p r hr => h' p r (h p r hr)⟩

theorem keepsRecords_refl (s : TakenTable) : s.KeepsRecords s := fun _ _ h => h

/-- Safe programs on the table. -/
abbrev TableProg.Safe {α : Type} (p : TableProg α) (Q : TakenTable → α → Prop) (s : TakenTable) :
    Prop := Prog.Safe Ok KeepsRecords Q p s

/-- All pointers of an array point to records. -/
def Lists (s : TakenTable) (records : RecordArray) : Prop :=
  ∃ es : List Row, records.rows = es.map Prod.fst ∧ ∀ e ∈ es, s.record e.1 = some e.2

theorem Lists.mono {s s' : TakenTable} {records : RecordArray} (h : Lists s records)
    (hs : s.KeepsRecords s') : Lists s' records := by
  obtain ⟨es, hrows, hrecord⟩ := h
  exact ⟨es, hrows, fun e he => hs _ _ (hrecord e he)⟩

theorem lists_empty (s : TakenTable) : Lists s .empty := ⟨[], rfl, nofun⟩

section Safe

variable {α β : Type} {s : TakenTable}

theorem TableMemory.MemoryOnly.formed {m m' : TableMemory} (h : m.MemoryOnly m') {rs : Rows}
    (hs : m.Formed rs) : m'.Formed rs := h.lookupOnly.formed hs

/-- A step that allocates and frees result arrays only. -/
theorem safe_memoryOnly {Q : TakenTable → α → Prop}
    {g : TableMemory → Option (TableMemory × β)} {next : β → TableProg α}
    (h : ∀ s₁ : TakenTable, s₁.Ok → s.KeepsRecords s₁ → ∃ m b, g s₁.toTableMemory = some (m, b) ∧
      s₁.MemoryOnly m ∧ (next b).Safe Q ⟨m, s₁.taken⟩) :
    TableProg.Safe (.act (onMemory g) next) Q s := by
  intro s₁ hok hkeeps
  obtain ⟨m, b, hg, honly, hnext⟩ := h s₁ hok hkeeps
  obtain ⟨rs, hformed⟩ := hok.formed
  refine ⟨⟨m, s₁.taken⟩, b, ?_,
    ⟨⟨rs, honly.formed hformed⟩, honly.ownsRecords hok.owns, honly.nextId.trans hok.nextId,
      hok.taken⟩,
    fun p r hr => (honly.lookupOnly.record p).trans hr, hnext⟩
  rw [onMemory, hg]
  rfl

theorem tableGiveUpProg_safe {Q : TakenTable → Bool × RecordArray → Prop}
    (hQ : ∀ s, Q s (false, .empty)) (records : RecordArray) (s : TakenTable) :
    (tableGiveUpProg records).Safe Q s :=
  safe_memoryOnly fun _ _ _ => ⟨_, (), rfl, memoryOnly_freeArray _ _, hQ _⟩

/-- The ID that is taken is the next one. -/
theorem tableTakeId_ok (hs : s.Ok) {s' : TakenTable} {id : ℤ} (h : tableTakeId s = some (s', id)) :
    s'.Ok := by
  cases h
  obtain ⟨rs, hformed⟩ := hs.formed
  refine ⟨⟨rs, ⟨hformed.rows, hformed.capacity, hformed.record, hformed.bucket⟩, hformed.index⟩,
    ⟨hs.owns.nodup, hs.owns.mem_rows⟩, ?_, ?_⟩
  · show intWrap (s.nextId + 1) = intWrap ((s.taken ++ [s.nextId]).length + 1)
    rw [hs.nextId, List.length_append, List.length_singleton, intWrap, intWrap, Int.bmod_add_bmod]
    push_cast
    rfl
  · show s.taken ++ [s.nextId] =
      (List.range (s.taken ++ [s.nextId]).length).map fun i : ℕ => intWrap (i + 1)
    rw [List.length_append, List.length_singleton, List.range_succ, List.map_append, ← hs.taken,
      hs.nextId]
    rfl

theorem tableInsertProg_safe (name : CBytes) (age : ℤ) (s : TakenTable) :
    (tableInsertProg name age).Safe (fun _ _ => True) s := by
  intro ok
  cases ok with
  | false => trivial
  | true =>
    intro s₁ hs₁ _
    refine ⟨_, s₁.nextId, rfl, tableTakeId_ok hs₁ rfl, fun p r h => h, ?_⟩
    intro ok
    cases ok with
    | false => trivial
    | true =>
      intro s₂ hs₂ _
      obtain ⟨rs, hformed⟩ := hs₂.formed
      obtain ⟨t, ht⟩ := hformed.index (tableBucketIndexForId s₁.nextId)
      obtain ⟨m, e, hrun, hres⟩ := tableStoreRowLocked_result s₁.nextId
        (by rw [hformed.rows, List.length_map]; exact hformed.capacity _) ht name age
      have hkeeps := hres.keeps
      refine ⟨⟨m, s₂.taken⟩, e, ?_, ⟨hres.formed hformed rfl ht,
        hres.ownsRecords hs₂.owns hformed.toHoldsRows rfl, ?_, hs₂.taken⟩, hkeeps.record, ?_⟩
      · rw [onMemory, hrun]
        rfl
      · exact hkeeps.nextId.trans hs₂.nextId
      · cases e <;> trivial

theorem tableFindByIdProg_safe (id : ℤ) (s : TakenTable) :
    (tableFindByIdProg id).Safe (fun _ _ => True) s := by
  intro ok
  cases ok with
  | false => trivial
  | true =>
    refine safe_memoryOnly fun s₁ hs₁ _ => ?_
    obtain ⟨rs, hformed⟩ := hs₁.formed
    obtain ⟨t, ht⟩ := hformed.index (tableBucketIndexForId id)
    exact ⟨s₁.toTableMemory, _, by rw [bptreeSearch_eq ht]; rfl, .refl _, trivial⟩

theorem tableScanByIdProg_safe (id : ℤ) (s : TakenTable) :
    (tableScanByIdProg id).Safe (fun _ _ => True) s := by
  unfold tableScanByIdProg
  induction List.finRange tableBucketCount generalizing s with
  | nil => trivial
  | cons b bs ih =>
    intro ok
    cases ok with
    | false => trivial
    | true =>
      refine safe_memoryOnly fun s₁ hs₁ _ => ?_
      obtain ⟨rs, hformed⟩ := hs₁.formed
      have hscan := tableScanRows_spec (hformed.record b) id
      rw [← hformed.rows] at hscan
      refine ⟨s₁.toTableMemory, _, by rw [hscan]; rfl, .refl _, ?_⟩
      cases (rs b).find? _ with
      | none => exact ih _
      | some e => trivial

/-- What the collecting lookups return: an array of records, or none. -/
abbrev Collects (s : TakenTable) (r : Bool × RecordArray) : Prop := Lists s r.2

theorem tableCollectBucketsProg_safe (bs : List (Fin tableBucketCount)) {records : RecordArray}
    (hrecords : Lists s records) : (tableCollectBucketsProg bs records).Safe Collects s := by
  induction bs generalizing records s with
  | nil => exact hrecords
  | cons b bs ih =>
    intro ok
    cases ok with
    | false => exact tableGiveUpProg_safe lists_empty records s
    | true =>
      refine safe_memoryOnly fun s₁ hs₁ hkeeps => ?_
      obtain ⟨rs, hformed⟩ := hs₁.formed
      rcases hrun : tableCollectRows s₁.toTableMemory records (s₁.buckets b).rows with
        ⟨ok, m, records'⟩
      obtain ⟨happended, -⟩ := tableCollectRows_appended hrun
      refine ⟨m, (ok, records'), rfl, happended.memory, ?_⟩
      cases ok with
      | false => exact tableGiveUpProg_safe lists_empty records' _
      | true =>
        obtain ⟨es, hes, hrecord⟩ := hrecords.mono hkeeps
        refine ih ⟨es ++ rs b, ?_, fun e he => ?_⟩
        · rw [happended.rows rfl, hes, hformed.rows, List.map_append]
        · refine (happended.memory.lookupOnly.record e.1).trans ?_
          rcases List.mem_append.mp he with he | he
          · exact hrecord e he
          · exact hformed.record b e he

theorem tableCollectAllProg_safe (s : TakenTable) : tableCollectAllProg.Safe Collects s := by
  refine (tableCollectBucketsProg_safe _ (lists_empty s)).bind fun s' r hr => ?_
  rcases r with ⟨_ | _, records⟩
  · exact hr
  · refine safe_memoryOnly fun s₁ _ hkeeps => ?_
    obtain ⟨es, hes, hrecord⟩ := Lists.mono hr hkeeps
    obtain ⟨sorted, hsort, hrows, -⟩ := tableSortRecordsById_spec hrecord hes
    refine ⟨s₁.toTableMemory, sorted, by rw [hsort]; rfl, .refl _, sortRows es, hrows,
      fun e he => ?_⟩
    exact hrecord e ((List.mem_insertionSort _).mp he)

theorem tableFindMatchesProg_safe (test : Record → Bool) (s : TakenTable) :
    (tableFindMatchesProg test).Safe (fun _ _ => True) s := by
  refine (tableCollectAllProg_safe s).bind fun s' r hr => ?_
  rcases r with ⟨_ | _, all⟩
  · trivial
  · refine safe_memoryOnly fun s₁ _ hkeeps => ?_
    obtain ⟨es, hes, hrecord⟩ := Lists.mono hr hkeeps
    have hall : ∀ p ∈ all.rows, ∃ r, s₁.record p = some r := by
      intro p hp
      rw [hes] at hp
      obtain ⟨e, he, rfl⟩ := List.mem_map.mp hp
      exact ⟨e.2, hrecord e he⟩
    obtain ⟨⟨ok, m, records⟩, hrun⟩ := tableFilterRows_total test hall .empty
    have honly := (tableFilterRows_appended hrun).memory
    have hfree := honly.trans (memoryOnly_freeArray m all)
    cases ok with
    | false =>
      exact ⟨_, _, by rw [tableFilterRecords, hrun]; rfl,
        hfree.trans (memoryOnly_freeArray _ records), trivial⟩
    | true => exact ⟨_, _, by rw [tableFilterRecords, hrun]; rfl, hfree, trivial⟩

theorem tableFindByIdConditionProg_safe (comparison : TableComparison) (id : ℤ) (s : TakenTable) :
    (tableFindByIdConditionProg comparison id).Safe (fun _ _ => True) s := by
  unfold tableFindByIdConditionProg
  split_ifs
  · refine (tableFindByIdProg_safe id s).bind fun s' found _ => ?_
    cases found with
    | none => trivial
    | some record =>
      refine safe_memoryOnly fun s₁ _ _ => ?_
      rcases hrun : tableAppendRecord s₁.toTableMemory .empty record with ⟨ok, m, records⟩
      exact ⟨m, (ok, records), rfl, (tableAppendRecord_appended hrun).memory, trivial⟩
  · exact tableFindMatchesProg_safe _ s

theorem TableCall.prog_safe (call : TableCall) (s : TakenTable) :
    call.prog.Safe (fun _ _ => True) s := by
  cases call with
  | insert name age => exact (tableInsertProg_safe name age s).bind fun _ _ _ => trivial
  | findById id => exact (tableFindByIdProg_safe id s).bind fun _ _ _ => trivial
  | scanById id => exact (tableScanByIdProg_safe id s).bind fun _ _ _ => trivial
  | collectAll => exact (tableCollectAllProg_safe s).bind fun _ _ _ => trivial
  | findByNameMatches name => exact (tableFindMatchesProg_safe _ s).bind fun _ _ _ => trivial
  | findByIdCondition comparison id =>
    exact (tableFindByIdConditionProg_safe comparison id s).bind fun _ _ _ => trivial
  | findByAgeCondition comparison age =>
    exact (tableFindMatchesProg_safe _ s).bind fun _ _ _ => trivial

end Safe

/-! ### No lock leaks -/

/-- Nothing is wrong with the locks. -/
structure LocksClean {ι : Type} [DecidableEq ι] (s : TableSystem ι) : Prop where
  /-- A thread holds at most one lock. -/
  one : ∀ t l l', (s.locks l).HeldBy t → (s.locks l').HeldBy t → l = l'
  /-- It holds none when an operation returns, by whatever path. -/
  returns : ∀ t rest, s.calls t = .ret () :: rest → ∀ l, ¬ (s.locks l).HeldBy t
  /-- It holds none when it has nothing left to do. -/
  finished : ∀ t, s.calls t = [] → ∀ l, ¬ (s.locks l).HeldBy t
  /-- It releases only a lock that it holds. -/
  releases : ∀ t l next rest, s.calls t = .unlock l next :: rest → (s.locks l).HeldBy t
  /-- As long as a thread is not finished, there is one that need not wait, and its next step is
  defined. -/
  progress : ∀ t, s.calls t ≠ [] →
    ∃ u, s.calls u ≠ [] ∧ ¬ s.Waits u ∧ ∃ s', s.step u true = some s'

section Runs

variable {ι : Type} {allocs : List Bool} {calls : ι → List TableCall}

theorem start_lockOk (allocs : List Bool) (calls : ι → List TableCall) :
    (TableSystem.start allocs calls).LockOk fun _ => none :=
  System.lockOk_start _ fun t p hp => by
    obtain ⟨call, -, rfl⟩ := List.mem_map.mp hp
    exact call.prog_disciplined

theorem start_ok (allocs : List Bool) : TakenTable.Ok ⟨.start allocs [], []⟩ where
  formed := ⟨fun _ => [], ⟨fun _ => rfl, fun _ => Nat.zero_le _, nofun, nofun⟩,
    fun _ => ⟨[], bptreeCreate_holds⟩⟩
  owns := ownsRecords_start allocs []
  nextId := (intWrap_eq (x := 1) (by decide) (by decide)).symm
  taken := rfl

theorem start_safeOk (allocs : List Bool) (calls : ι → List TableCall) :
    (TableSystem.start allocs calls).SafeOk Ok KeepsRecords where
  inv := start_ok allocs
  calls t p hp := by
    obtain ⟨call, -, rfl⟩ := List.mem_map.mp hp
    exact call.prog_safe _

variable [DecidableEq ι] {steps : List (ι × Bool)} {s : TableSystem ι}

/-- **The table operations leak no lock and cannot deadlock**: every state that threads can reach,
with any calls, interleaving and failures, is clean. -/
theorem table_locks_clean (h : (TableSystem.start allocs calls).run steps = some s) :
    LocksClean s := by
  obtain ⟨held, hlocks⟩ := (start_lockOk allocs calls).run h
  have hsafe := (start_safeOk allocs calls).run keepsRecords_refl h
  refine ⟨fun t l l' hl hl' => ?_, fun t rest hcalls l hl => ?_, fun t hcalls l hl => ?_,
    fun t l next rest hcalls => ?_, fun t ht => ?_⟩
  · rw [hlocks.heldBy] at hl hl'
    exact Option.some.inj (hl.symm.trans hl')
  · have hcall := hlocks.calls t
    rw [hcalls] at hcall
    rw [hlocks.heldBy, show held t = none from hcall.1] at hl
    cases hl
  · exact (hlocks.not_waits hl).1 hcalls
  · have hcall := hlocks.calls t
    rw [hcalls] at hcall
    exact (hlocks.heldBy l t).mpr hcall.1.1
  · obtain ⟨u, hu, hfree⟩ := hlocks.exists_free ht
    exact ⟨u, hu, hfree, hsafe.exists_step keepsRecords_refl hlocks hu hfree⟩

/-- Two threads insert; the first gets no memory for its row, while the other one takes its ID and
then fails to lock its bucket. -/
def twoInserts : List (Bool × Bool) :=
  [(false, true), (false, true), (false, true), (true, true), (false, true), (false, true),
    (true, true), (true, true), (true, false)]

theorem exists_twoInserts : ∃ s : TableSystem Bool,
    (TableSystem.start [false] fun _ : Bool => [.insert [] 0]).run twoInserts = some s ∧
      s.state.taken = [1, 2] :=
  Option.map_eq_some_iff.mp (show ((TableSystem.start [false] fun _ : Bool =>
    [.insert [] 0]).run twoInserts).map (fun s => s.state.taken) = some [1, 2] by decide)

theorem table_locks_clean_two_inserts : ∃ s : TableSystem Bool,
    (TableSystem.start [false] fun _ : Bool => [.insert [] 0]).run twoInserts = some s ∧
      LocksClean s := by
  obtain ⟨s, hs, -⟩ := exists_twoInserts
  exact ⟨s, hs, table_locks_clean hs⟩

/-! ### The IDs -/

/-- Every ID is positive and larger than those before it, and the counter behind it is an `int`. -/
def IdsIncrease (taken : List ℤ) : Prop :=
  taken.Pairwise (· < ·) ∧ ∀ id ∈ taken, 0 < id ∧ IsInt (id + 1)

/-- What `next_id` gives in a row. -/
theorem idsIncrease_iff (n : ℕ) :
    IdsIncrease ((List.range n).map fun i : ℕ => intWrap (i + 1)) ↔ n < 2 ^ 31 - 1 := by
  constructor
  · rintro ⟨-, h⟩
    by_contra hge
    obtain ⟨-, -, hlt⟩ := h (intWrap ((2 ^ 31 - 2 : ℕ) + 1))
      (List.mem_map.mpr ⟨2 ^ 31 - 2, List.mem_range.mpr (by omega), rfl⟩)
    rw [intWrap_eq (by decide) (by decide)] at hlt
    exact absurd hlt (by decide)
  · intro hn
    have hwrap : ∀ i < n, intWrap ((i : ℤ) + 1) = i + 1 := fun i hi =>
      intWrap_eq (by omega) (by omega)
    constructor
    · rw [List.pairwise_map]
      refine List.pairwise_lt_range.imp_of_mem fun {i j} hi hj hij => ?_
      rw [hwrap i (List.mem_range.mp hi), hwrap j (List.mem_range.mp hj)]
      omega
    · intro id hid
      obtain ⟨i, hi, rfl⟩ := List.mem_map.mp hid
      rw [hwrap i (List.mem_range.mp hi)]
      have hi' := List.mem_range.mp hi
      exact ⟨by omega, by omega, by omega⟩

/-- **The IDs are positive and strictly increasing** in a run, and the counter does not overflow,
exactly as long as fewer than `2 ^ 31 - 1` of them are taken. -/
theorem table_ids_increase_iff (h : (TableSystem.start allocs calls).run steps = some s) :
    IdsIncrease s.state.taken ↔ s.state.taken.length < 2 ^ 31 - 1 := by
  have hsafe := (start_safeOk allocs calls).run keepsRecords_refl h
  rw [hsafe.inv.taken, List.length_map, List.length_range]
  exact idsIncrease_iff _

end Runs

theorem table_ids_increase_two_inserts : ∃ s : TableSystem Bool,
    (TableSystem.start [false] fun _ : Bool => [.insert [] 0]).run twoInserts = some s ∧
      IdsIncrease s.state.taken := by
  obtain ⟨s, hs, htaken⟩ := exists_twoInserts
  refine ⟨s, hs, (table_ids_increase_iff hs).mpr ?_⟩
  rw [htaken]
  decide

/-- One thread, before the insertions `calls` that it still makes. -/
def insertingSystem (state : TakenTable) (calls : ℕ) : TableSystem Unit :=
  System.start state fun _ => List.replicate calls (TableCall.insert [] 0).prog

/-- The steps of an insertion that gets its ID and then fails to lock its bucket. -/
def failingInsert : List (Unit × Bool) :=
  [((), true), ((), true), ((), true), ((), false), ((), true)]

/-- Such an insertion takes an ID, and nothing else happens. -/
theorem run_failingInsert (state : TakenTable) (calls : ℕ) (steps : List (Unit × Bool)) :
    (insertingSystem state (calls + 1)).run (failingInsert ++ steps) =
      (insertingSystem { state with
        nextId := intWrap (state.nextId + 1), taken := state.taken ++ [state.nextId] } calls).run
          steps := by
  have hlocks : Function.update (Function.update (fun _ => .free) .nextId (.writing ())) .nextId
      .free = fun _ : TableLock => (.free : Lock Unit) := by
    rw [Function.update_idem, Function.update_eq_self]
  unfold insertingSystem System.start
  conv_rhs => rw [← hlocks]
  rfl

/-- Any number of IDs can be taken. -/
theorem exists_failingInserts (n : ℕ) (state : TakenTable) :
    ∃ s, (insertingSystem state n).run (List.replicate n failingInsert).flatten = some s ∧
      s.state.taken.length = state.taken.length + n := by
  induction n generalizing state with
  | zero => exact ⟨_, rfl, rfl⟩
  | succ n ih =>
    obtain ⟨s, hrun, hlength⟩ := ih { state with
      nextId := intWrap (state.nextId + 1), taken := state.taken ++ [state.nextId] }
    refine ⟨s, ?_, ?_⟩
    · rw [List.replicate_succ, List.flatten_cons, run_failingInsert, hrun]
    · rw [hlength, List.length_append, List.length_singleton]
      omega

theorem insertingSystem_start (n : ℕ) :
    (TableSystem.start [] fun _ : Unit => List.replicate n (.insert [] 0)) =
      insertingSystem ⟨.start [] [], []⟩ n := by
  unfold TableSystem.start insertingSystem
  simp only [List.map_replicate]

/-- `2 ^ 31` insertions take an ID that is negative. -/
theorem not_idsIncrease_overflow : ∃ steps s,
    (TableSystem.start [] fun _ : Unit => List.replicate (2 ^ 31) (.insert [] 0)).run steps =
      some s ∧ -2 ^ 31 ∈ s.state.taken ∧ ¬ IdsIncrease s.state.taken := by
  obtain ⟨s, hrun, hlength⟩ := exists_failingInserts (2 ^ 31) ⟨.start [] [], []⟩
  rw [← insertingSystem_start] at hrun
  have hsafe := (start_safeOk [] _).run keepsRecords_refl hrun
  have hmem : -2 ^ 31 ∈ s.state.taken := by
    rw [hsafe.inv.taken, hlength]
    refine List.mem_map.mpr ⟨2 ^ 31 - 1, List.mem_range.mpr (by simp), by decide⟩
  exact ⟨_, s, hrun, hmem, fun h => absurd (h.2 _ hmem).1 (by decide)⟩

end MiniDbms
