import MiniDbms.Lib.Counting
import MiniDbms.Table.Equiv.Interleaving

/-!
# No insertion is lost, repeated or mixed up

Every ID that was issued is in one place: with the thread that is about to store its row, or in the
table (`Counted.stored`); and every row in the table belongs to a thread that is about to return it,
or to an answer (`Counted.answered`).

When no insertion is under way, the answered IDs are the numbers from 1 to the number of calls, and
the table holds the row of each of them exactly once (`insert_exactly_once`).
-/

namespace MiniDbms

open SortedAssoc CArray TableMemory Counting

/-! ### One row -/

/-- The table holds the row `r` and no other row with its ID: `r` is in the array and in the index
of bucket `id mod 16`, once, and neither array nor index of another bucket have the ID. -/
def TableMemory.HoldsOnce (m : TableMemory) (r : Record) : Prop :=
  ∃ b : Fin tableBucketCount, (b : ℤ) = r.id % 16 ∧
    (∃ p, m.record p = some r ∧
      ((m.buckets b).rows.filter fun q => (m.record q).any fun r' => r'.id = r.id) = [p] ∧
      bptreeSearch (m.buckets b).pkIndex r.id = some (some p)) ∧
    ∀ b' ≠ b,
      ((m.buckets b').rows.filter fun q => (m.record q).any fun r' => r'.id = r.id) = [] ∧
      bptreeSearch (m.buckets b').pkIndex r.id = some none

theorem tableBucketIndexForId_eq (id : ℤ) : (tableBucketIndexForId id : ℤ) = id % 16 := by
  show ((tableBucketRemainder id).toNat : ℤ) = id % 16
  rw [tableBucketRemainder_eq]
  omega

/-- The pointers of a bucket to rows with a given ID. -/
theorem TableMemory.Stores.filter_rows {m : TableMemory} {rs : Rows} (hs : m.Stores rs)
    (b : Fin tableBucketCount) (id : ℤ) :
    ((m.buckets b).rows.filter fun q => (m.record q).any fun r' => r'.id = id) =
      ((rs b).filter fun e => e.2.id = id).map Prod.fst := by
  rw [hs.rows, List.filter_map]
  congr 1
  apply List.filter_congr
  intro e he
  rw [Function.comp_apply, hs.record b e he]
  rfl

/-- A stored row is held once. -/
theorem TableMemory.Stores.holdsOnce {m : TableMemory} {rs : Rows} (hs : m.Stores rs)
    {b : Fin tableBucketCount} {e : Row} (he : e ∈ rs b) : m.HoldsOnce e.2 := by
  have hb := hs.bucket b e he
  have hids := hs.nodup_ids b
  have hsingle : (rs b).filter (fun e' => e'.2.id = e.2.id) = [e] := by
    have hnodup := (List.Nodup.of_map _ hids).filter fun e' => decide (e'.2.id = e.2.id)
    apply List.perm_singleton.mp
    rw [List.perm_ext_iff_of_nodup hnodup (List.nodup_singleton _)]
    intro e'
    rw [List.mem_filter, decide_eq_true_eq, List.mem_singleton]
    constructor
    · rintro ⟨he', hid⟩
      exact List.inj_on_of_nodup_map hids he' he hid
    · rintro rfl
      exact ⟨he, rfl⟩
  refine ⟨b, by rw [← hb]; exact tableBucketIndexForId_eq _, ⟨e.1, hs.record b e he, ?_, ?_⟩, ?_⟩
  · rw [hs.filter_rows, hsingle]
    rfl
  · obtain ⟨p, hp, hiff⟩ := hs.search b e.2.id
    rw [hp, (hiff e.1).mpr ⟨e.2, he, rfl⟩]
  · intro b' hne
    have hnone : ∀ e' ∈ rs b', e'.2.id ≠ e.2.id := by
      intro e' he' hid
      have hb' := hs.bucket b' e' he'
      rw [hid, hb] at hb'
      exact hne hb'.symm
    constructor
    · rw [hs.filter_rows, List.filter_eq_nil_iff.mpr, List.map_nil]
      intro e' he' hid
      exact hnone e' he' (of_decide_eq_true hid)
    · obtain ⟨p, hp, hiff⟩ := hs.search b' e.2.id
      cases p with
      | none => exact hp
      | some q =>
        obtain ⟨r, hr, hid⟩ := (hiff q).mp rfl
        exact absurd hid (hnone _ hr)

/-! ### Where the IDs are -/

/-- A call of `table_insert` that has no ID yet. -/
def Pc.isIssuing : Pc → Bool
  | .issuing _ => true
  | _ => false

/-- About to store the row with ID `id`. -/
def Pc.isStoring (id : ℤ) : Pc → Bool
  | .storing _ id' => id' = id
  | _ => false

/-- About to return the row with ID `id`. -/
def Pc.isInserted (id : ℤ) : Pc → Bool
  | .inserted _ id' _ => id' = id
  | _ => false

/-- In a call of `table_insert`. -/
def Pc.isInsert : Pc → Bool
  | .issuing _ => true
  | .storing _ _ => true
  | .inserted _ _ _ => true
  | _ => false

namespace SharedTable

variable {n : ℕ}

/-- Where the IDs are. -/
structure Counted (s : SharedTable n) : Prop where
  nextId : s.memory.nextId = s.issued.length + 1
  calls : s.issued.length + countOf Pc.isIssuing s.threads = s.insertCalls
  ids : s.issued.map Prod.snd = (List.range s.issued.length).map fun i : ℕ => (i : ℤ) + 1
  stored : Balanced Pc.isStoring s.threads (s.issued.map Prod.snd)
    (s.stored.map fun x => x.record.id)
  answered : Balanced Pc.isInserted s.threads (s.stored.map fun x => x.record.id)
    (s.inserts.map InsertAnswer.id)

theorem counted_start (n : ℕ) : (start n).Counted := by
  have hissuing : countOf Pc.isIssuing (start n).threads = 0 := countOf_eq_zero fun _ => rfl
  refine ⟨rfl, ?_, rfl, balanced_nil fun _ _ => rfl, balanced_nil fun _ _ => rfl⟩
  rw [hissuing]
  rfl

theorem Counted.nodup_ids {s : SharedTable n} (hc : s.Counted) : (s.issued.map Prod.snd).Nodup := by
  rw [hc.ids]
  apply List.Nodup.map _ List.nodup_range
  intro i j hij
  dsimp only at hij
  omega

/-- A step that has nothing to do with insertions. -/
theorem Counted.of_other {s s' : SharedTable n} (hc : s.Counted) {t : Fin n} {pc : Pc}
    (hthreads : s'.threads = Function.update s.threads t pc)
    (hold : (s.threads t).isInsert = false) (hnew : pc.isInsert = false)
    (hnext : s'.memory.nextId = s.memory.nextId) (hcalls : s'.insertCalls = s.insertCalls)
    (hissued : s'.issued = s.issued) (hstored : s'.stored = s.stored)
    (hinserts : s'.inserts = s.inserts) : s'.Counted := by
  have hnone : ∀ pc : Pc, pc.isInsert = false → pc.isIssuing = false ∧
      (∀ id, pc.isStoring id = false) ∧ ∀ id, pc.isInserted id = false := by
    intro pc hpc
    cases pc <;> first | exact ⟨rfl, fun _ => rfl, fun _ => rfl⟩ | cases hpc
  obtain ⟨hold1, hold2, hold3⟩ := hnone _ hold
  obtain ⟨hnew1, hnew2, hnew3⟩ := hnone _ hnew
  refine ⟨by rw [hnext, hissued]; exact hc.nextId, ?_, by rw [hissued]; exact hc.ids, ?_, ?_⟩
  · rw [hissued, hcalls, hthreads, countOf_keep (hnew1.trans hold1.symm)]
    exact hc.calls
  · rw [hthreads, hissued, hstored]
    exact hc.stored.keep fun id => (hnew2 id).trans (hold2 id).symm
  · rw [hthreads, hstored, hinserts]
    exact hc.answered.keep fun id => (hnew3 id).trans (hold3 id).symm

/-! ### The steps of an insertion -/

/-- A call. -/
theorem Counted.insert_call {s : SharedTable n} (hc : s.Counted) {t : Fin n}
    (hpc : s.threads t = .idle) (call : InsertCall) :
    Counted { s.become t s.memory (.issuing call) with insertCalls := s.insertCalls + 1 } := by
  have hissuing := countOf_update Pc.isIssuing s.threads t (.issuing call)
  rw [hpc] at hissuing
  refine ⟨hc.nextId, ?_, hc.ids, hc.stored.keep fun id => by rw [hpc]; rfl,
    hc.answered.keep fun id => by rw [hpc]; rfl⟩
  have hcalls := hc.calls
  simp only [Pc.isIssuing, Bool.toNat_false, Bool.toNat_true] at hissuing
  show s.issued.length + countOf Pc.isIssuing (Function.update s.threads t (.issuing call)) =
    s.insertCalls + 1
  omega

/-- The first section takes the next ID. -/
theorem Counted.issue {s : SharedTable n} (hc : s.Counted) {t : Fin n} {call : InsertCall}
    (hpc : s.threads t = .issuing call) (hcalls : s.insertCalls < 2 ^ 31 - 1) :
    Counted { s.become t { s.memory with nextId := intWrap (s.memory.nextId + 1) }
      (.storing call s.memory.nextId) with
      issued := s.issued ++ [(call, s.memory.nextId)] } := by
  have hissuing := countOf_update Pc.isIssuing s.threads t (.storing call s.memory.nextId)
  rw [hpc] at hissuing
  have hlen : s.issued.length + 1 ≤ s.insertCalls := by
    have hpos : 0 < countOf Pc.isIssuing s.threads := countOf_pos_of (t := t) (by rw [hpc]; rfl)
    have := hc.calls
    omega
  have hlength : (s.issued ++ [(call, s.memory.nextId)]).length = s.issued.length + 1 := by
    rw [List.length_append, List.length_singleton]
  have hids : (s.issued ++ [(call, s.memory.nextId)]).map Prod.snd =
      s.issued.map Prod.snd ++ [s.memory.nextId] := by
    rw [List.map_append, List.map_singleton]
  refine ⟨?_, ?_, ?_, ?_, hc.answered.keep fun id => by rw [hpc]; rfl⟩
  · show intWrap (s.memory.nextId + 1) =
      ((s.issued ++ [(call, s.memory.nextId)]).length : ℤ) + 1
    rw [hlength, hc.nextId, intWrap_eq] <;> push_cast <;> omega
  · have := hc.calls
    simp only [Pc.isIssuing, Bool.toNat_false, Bool.toNat_true] at hissuing
    show (s.issued ++ [(call, s.memory.nextId)]).length + countOf Pc.isIssuing
      (Function.update s.threads t (.storing call s.memory.nextId)) = s.insertCalls
    omega
  · dsimp only
    rw [hids, hlength, List.range_succ, List.map_append, List.map_singleton, hc.ids, hc.nextId]
  · dsimp only
    rw [hids]
    exact hc.stored.take (fun id => by rw [hpc]; rfl) fun id => rfl

/-- The ID that a thread is about to store is not in the table. -/
theorem Counted.not_stored {s : SharedTable n} (hc : s.Counted) {t : Fin n} {call : InsertCall}
    {id : ℤ} (hpc : s.threads t = .storing call id) {x : Stored} (hx : x ∈ s.stored) :
    x.record.id ≠ id := by
  intro hid
  have hstoring : (s.threads t).isStoring id = true := by
    rw [hpc]
    exact decide_eq_true rfl
  exact hc.stored.notMem hc.nodup_ids hstoring (List.mem_map.mpr ⟨x, hx, hid⟩)

/-- The second section stores the row. -/
theorem Counted.store {s : SharedTable n} (hc : s.Counted) {t : Fin n} {call : InsertCall} {id : ℤ}
    (hpc : s.threads t = .storing call id) {m : TableMemory} (hm : m.nextId = s.memory.nextId)
    (x : Stored) (hx : x.record.id = id) :
    Counted { s.become t m (.inserted call id x.ptr) with stored := s.stored ++ [x] } := by
  have hissuing : countOf Pc.isIssuing (Function.update s.threads t (.inserted call id x.ptr)) =
      countOf Pc.isIssuing s.threads := countOf_keep (by rw [hpc]; rfl)
  have hids : (s.stored ++ [x]).map (fun x => x.record.id) =
      s.stored.map (fun x => x.record.id) ++ [id] := by
    rw [List.map_append, List.map_singleton, hx]
  refine ⟨hm.trans hc.nextId, ?_, hc.ids, ?_, ?_⟩
  · dsimp only [SharedTable.become]
    rw [hissuing]
    exact hc.calls
  · dsimp only
    rw [hids]
    exact hc.stored.give (fun id' => by rw [hpc]; rfl) fun id' => rfl
  · dsimp only
    rw [hids]
    exact hc.answered.take (fun id' => by rw [hpc]; rfl) fun id' => rfl

/-- The return. -/
theorem Counted.answer {s : SharedTable n} (hc : s.Counted) {t : Fin n} {call : InsertCall} {id : ℤ}
    {record : RecordPtr} (hpc : s.threads t = .inserted call id record) (ended : ℕ) :
    Counted { s.become t s.memory .idle with inserts := s.inserts ++ [⟨call, id, ended⟩] } := by
  have hissuing : countOf Pc.isIssuing (Function.update s.threads t .idle) =
      countOf Pc.isIssuing s.threads := countOf_keep (by rw [hpc]; rfl)
  refine ⟨hc.nextId, ?_, hc.ids, hc.stored.keep fun id' => by rw [hpc]; rfl, ?_⟩
  · dsimp only [SharedTable.become]
    rw [hissuing]
    exact hc.calls
  · dsimp only
    rw [List.map_append, List.map_singleton]
    exact hc.answered.give (fun id' => by rw [hpc]; rfl) fun id' => rfl

/-! ### All steps -/

theorem Counted.call {s s' : SharedTable n} (hc : s.Counted) {t : Fin n} {op : Op}
    (h : s.call t op = some s') : s'.Counted := by
  unfold SharedTable.call at h
  split at h
  · rename_i hpc
    have hidle : (s.threads t).isInsert = false := by
      rw [hpc]
      rfl
    split at h
    · cases h
      exact hc.insert_call hpc _
    · cases h
      exact hc.of_other rfl hidle rfl rfl rfl rfl rfl rfl
    · cases h
      exact hc.of_other rfl hidle rfl rfl rfl rfl rfl rfl
  · cases h

theorem Counted.progress {s s' : SharedTable n} (hc : s.Counted)
    (hcalls : s.insertCalls < 2 ^ 31 - 1) {t : Fin n} (h : s.Progress t s') : s'.Counted := by
  cases h with
  | issue hpc => exact hc.issue hpc hcalls
  | taken hpc htaken hquiet hstores =>
    obtain ⟨e, he, hid⟩ := htaken
    obtain ⟨x, hx, -, -, rfl⟩ := History.mem_rowsBefore.mp he
    exact absurd hid (hc.not_stored hpc hx)
  | store hpc hquiet hstores hnext => exact hc.store hpc hnext _ rfl
  | answer hpc => exact hc.answer hpc _
  | scan hpc hm => exact hc.of_other rfl (by rw [hpc]; rfl) rfl hm.nextId rfl rfl rfl rfl
  | finish hpc hm => exact hc.of_other rfl (by rw [hpc]; rfl) rfl hm.nextId rfl rfl rfl rfl
  | find hpc hm => exact hc.of_other rfl (by rw [hpc]; rfl) rfl hm.nextId rfl rfl rfl rfl
  | select hpc => exact hc.of_other rfl (by rw [hpc]; rfl) rfl rfl rfl rfl rfl rfl

end SharedTable

/-- A call of `table_insert`. -/
def Action.isInsert {n : ℕ} : Action n → Bool
  | .call _ (.insert _ _) => true
  | _ => false

namespace SharedTable

variable {n : ℕ}

/-- `insertCalls` counts the calls. -/
theorem Inv.insertCalls_step {s s' : SharedTable n} (hi : s.Inv) {a : Action n}
    (h : s.step a = some s') : s'.insertCalls = s.insertCalls + a.isInsert.toNat := by
  rcases hi.step_cases h with ⟨t, op, rfl, hcall⟩ | ⟨t, rfl, hprogress⟩
  · unfold SharedTable.call at hcall
    split at hcall
    · split at hcall <;> cases hcall <;> rfl
    · cases hcall
  · cases hprogress <;> rfl

theorem Inv.insertCalls_run {s s' : SharedTable n} (hi : s.Inv) {actions : List (Action n)}
    (h : s.run actions = some s') :
    s'.insertCalls = s.insertCalls + actions.countP Action.isInsert := by
  induction actions generalizing s with
  | nil =>
    cases h
    rfl
  | cons a actions ih =>
    obtain ⟨s₁, hstep, hrest⟩ := Option.bind_eq_some_iff.mp h
    rw [ih (hi.step hstep) hrest, hi.insertCalls_step hstep, countP_cons_eq, Nat.add_assoc]

theorem Counted.step {s s' : SharedTable n} (hi : s.Inv) (hc : s.Counted)
    (hcalls : s.insertCalls < 2 ^ 31 - 1) {a : Action n} (h : s.step a = some s') :
    s'.Counted := by
  rcases hi.step_cases h with ⟨t, op, -, hcall⟩ | ⟨t, -, hprogress⟩
  · exact hc.call hcall
  · exact hc.progress hcalls hprogress

/-- Every run with few enough insertions keeps the counts. -/
theorem Counted.run {s s' : SharedTable n} (hi : s.Inv) (hc : s.Counted)
    {actions : List (Action n)}
    (hcalls : s.insertCalls + actions.countP Action.isInsert < 2 ^ 31 - 1)
    (h : s.run actions = some s') : s'.Counted := by
  induction actions generalizing s with
  | nil =>
    cases h
    exact hc
  | cons a actions ih =>
    obtain ⟨s₁, hstep, hrest⟩ := Option.bind_eq_some_iff.mp h
    rw [countP_cons_eq] at hcalls
    refine ih (hi.step hstep) (hc.step hi (by omega) hstep) ?_ hrest
    rw [hi.insertCalls_step hstep]
    omega

theorem counted_of_run {actions : List (Action n)} {s : SharedTable n}
    (h : (start n).run actions = some s)
    (hcalls : actions.countP Action.isInsert < 2 ^ 31 - 1) : s.Counted := by
  apply (counted_start n).run (inv_start n) _ h
  show 0 + actions.countP Action.isInsert < 2 ^ 31 - 1
  rw [Nat.zero_add]
  exact hcalls

/-- The IDs of the answers do not repeat. -/
theorem Counted.nodup {s : SharedTable n} (hc : s.Counted) :
    (s.inserts.map InsertAnswer.id).Nodup :=
  hc.answered.nodup (hc.stored.nodup hc.nodup_ids)

/-- When no insertion is under way, every ID that was issued is answered. -/
theorem Counted.perm {s : SharedTable n} (hc : s.Counted)
    (hquiet : ∀ t, (s.threads t).isInsert = false) :
    (s.inserts.map InsertAnswer.id).Perm
      ((List.range s.insertCalls).map fun i : ℕ => (i : ℤ) + 1) := by
  have hnone : ∀ p : Pc → Bool, (∀ pc : Pc, p pc = true → pc.isInsert = true) →
      ∀ t, p (s.threads t) = false := by
    intro p hp t
    cases hpt : p (s.threads t) with
    | false => rfl
    | true => exact absurd (hp _ hpt) (by rw [hquiet t]; exact Bool.false_ne_true)
  have hlength : s.issued.length = s.insertCalls := by
    have hcalls := hc.calls
    rw [countOf_eq_zero (hnone _ (by intro pc hpc; cases pc <;> first | rfl | cases hpc))] at hcalls
    exact hcalls
  have hstored := hc.stored.perm fun id =>
    hnone (Pc.isStoring id) (by intro pc hpc; cases pc <;> first | rfl | cases hpc)
  have hanswered := hc.answered.perm fun id =>
    hnone (Pc.isInserted id) (by intro pc hpc; cases pc <;> first | rfl | cases hpc)
  rw [← hlength, ← hc.ids]
  exact hanswered.trans hstored

/-- The row of an answer is in the table, once. -/
theorem Inv.holdsOnce {s : SharedTable n} (hi : s.Inv) {a : InsertAnswer} (ha : a ∈ s.inserts) :
    s.memory.HoldsOnce (storedRecord a.id a.call.name a.call.age) := by
  obtain ⟨-, hended, x, hx, htime, hrecord⟩ := hi.inserts a ha
  rw [← hrecord]
  exact hi.stores.holdsOnce (b := tableBucketIndexForId x.record.id) (e := (x.ptr, x.record))
    (History.mem_rowsBefore.mpr ⟨x, hx, hi.past x hx, rfl, rfl⟩)

end SharedTable

/-! ### What insertions do -/

open SharedTable

/-- **No insertion is lost, repeated or mixed up.** -/
theorem insert_exactly_once {n : ℕ} {actions : List (Action n)} {s : SharedTable n}
    (h : (start n).run actions = some s)
    (hcalls : actions.countP Action.isInsert < 2 ^ 31 - 1) :
    (s.inserts.map InsertAnswer.id).Nodup ∧
      ((∀ t, (s.threads t).isInsert = false) →
        (s.inserts.map InsertAnswer.id).Perm
          ((List.range (actions.countP Action.isInsert)).map fun i : ℕ => (i : ℤ) + 1)) ∧
      ∀ a ∈ s.inserts,
        s.memory.HoldsOnce (storedRecord a.id a.call.name a.call.age) ∧
        (a.call.name.length < recordNameSize →
          storedRecord a.id a.call.name a.call.age = ⟨a.id, a.call.name, a.call.age⟩) := by
  have hi := (inv_start n).run h
  have hcount : s.insertCalls = actions.countP Action.isInsert := by
    rw [(inv_start n).insertCalls_run h]
    exact Nat.zero_add _
  have hc := counted_of_run h hcalls
  refine ⟨hc.nodup, fun hquiet => ?_, fun a ha => ⟨hi.holdsOnce ha, fun hname => ?_⟩⟩
  · rw [← hcount]
    exact hc.perm hquiet
  · exact storedRecord_eq hname a.id a.call.age

/-- Two threads insert, and the row with the second ID is stored first. -/
def crossingInserts : List (Action 2) :=
  let first : Fin 2 := ⟨0, Nat.zero_lt_two⟩
  let second : Fin 2 := ⟨1, Nat.one_lt_two⟩
  [.call first (.insert [97] 1), .call second (.insert [98] 2), .advance first, .advance second,
    .advance second, .advance first, .advance second, .advance first]

theorem insert_exactly_once_crossing :
    ∃ s, (start 2).run crossingInserts = some s ∧
      (s.inserts.map InsertAnswer.id).Perm [1, 2] ∧
      s.memory.HoldsOnce ⟨1, [97], 1⟩ ∧ s.memory.HoldsOnce ⟨2, [98], 2⟩ := by
  have hrun : ((start 2).run crossingInserts).map (fun s => (s.inserts,
      s.threads 0 |>.isInsert, s.threads 1 |>.isInsert)) =
      some ([⟨⟨[98], 2, 1⟩, 2, 6⟩, ⟨⟨[97], 1, 0⟩, 1, 7⟩], false, false) := by
    decide
  obtain ⟨s, hs, heq⟩ := Option.map_eq_some_iff.mp hrun
  simp only [Prod.mk.injEq] at heq
  obtain ⟨hinserts, hzero, hone⟩ := heq
  have hquiet : ∀ t, (s.threads t).isInsert = false := by
    intro t
    match t with
    | 0 => exact hzero
    | 1 => exact hone
  obtain ⟨-, hperm, hheld⟩ := insert_exactly_once hs (by decide)
  refine ⟨s, hs, hperm hquiet, ?_, ?_⟩
  · obtain ⟨hheld, hname⟩ := hheld ⟨⟨[97], 1, 0⟩, 1, 7⟩ (by rw [hinserts]; decide)
    rw [hname (by decide)] at hheld
    exact hheld
  · obtain ⟨hheld, hname⟩ := hheld ⟨⟨[98], 2, 1⟩, 2, 6⟩ (by rw [hinserts]; decide)
    rw [hname (by decide)] at hheld
    exact hheld

end MiniDbms
