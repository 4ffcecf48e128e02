import MiniDbms.Lib.Linearizable
import MiniDbms.Table.Equiv.Agreement
import MiniDbms.Table.Equiv.Select

/-!
# Insertions and lookups by ID are linearizable

A lookup that reads many buckets is no snapshot (`select_is_no_snapshot`).  An insertion and a
lookup of one ID work in a single bucket, under its lock, and there they take effect.  So, whatever
else the threads do, one can put the insertions and these lookups in an order in which a table that
one client uses could have answered them, and which agrees with the times of the calls
(`table_linearizable`).

The table of one client (`rowMap`) is a map from IDs to rows.  It does not say which free ID an
insertion gets: IDs are issued before the rows are stored, and rows are not stored in that order.
-/

namespace MiniDbms

open SortedAssoc CArray TableMemory Linearizability

/-! ### The table of one client -/

/-- What a client asks. -/
inductive RowCall
  | insert (name : CBytes) (age : ℤ)
  | find (id : ℤ)

/-- What it gets: the ID of the new row, or the rows with the ID. -/
inductive RowAnswer
  | inserted (id : ℤ)
  | found (rows : List Record)
  deriving DecidableEq

/-- An insertion takes a free ID; a lookup finds the row of its ID, if there is one. -/
inductive RowStep : (ℤ → Option Record) → RowCall → RowAnswer → (ℤ → Option Record) → Prop
  | insert {rows : ℤ → Option Record} {id : ℤ} (name : CBytes) (age : ℤ) (free : rows id = none) :
    RowStep rows (.insert name age) (.inserted id)
      (Function.update rows id (some (storedRecord id name age)))
  | find (rows : ℤ → Option Record) (id : ℤ) :
    RowStep rows (.find id) (.found (rows id).toList) rows

/-- A map from IDs to rows, empty at first. -/
def rowMap : Object (ℤ → Option Record) RowCall RowAnswer := ⟨fun _ => none, RowStep⟩

/-! ### The history as one of this object -/

/-- An answered insertion. -/
def InsertAnswer.operation (a : InsertAnswer) : Operation RowCall RowAnswer :=
  ⟨.insert a.call.name a.call.age, .inserted a.id, a.call.began, some a.ended⟩

/-- The lookup of one ID is a call of the object. -/
def Query.rowCall : Query → Option RowCall
  | .id .eq key => some (.find key)
  | _ => none

/-- An answered lookup of one ID. -/
def SelectAnswer.operation (e : SelectAnswer) : Option (Operation RowCall RowAnswer) :=
  e.call.query.rowCall.map fun c => ⟨c, .found e.rows, e.call.began, some e.ended⟩

/-- The answered insertions and lookups of one ID. -/
def History.operations (h : History) : List (Operation RowCall RowAnswer) :=
  h.inserts.map InsertAnswer.operation ++ h.selects.filterMap SelectAnswer.operation

theorem History.operations_insert {h h' : History} {a : InsertAnswer}
    (hinserts : h'.inserts = h.inserts ++ [a]) (hselects : h'.selects = h.selects) :
    h'.operations.Perm (h.operations ++ [a.operation]) := by
  unfold History.operations
  rw [hinserts, hselects, List.map_append, List.append_assoc, List.append_assoc]
  exact List.perm_append_comm.append_left _

theorem History.operations_select {h h' : History} {e : SelectAnswer}
    (hinserts : h'.inserts = h.inserts) (hselects : h'.selects = h.selects ++ [e]) :
    h'.operations = h.operations ++ e.operation.toList := by
  unfold History.operations
  rw [hinserts, hselects, List.filterMap_append, List.append_assoc]
  cases he : e.operation <;> simp [he]

/-- The call of a thread that is not answered, with its time. -/
def Pc.opened : Pc → Option (RowCall × ℕ)
  | .issuing call => some (.insert call.name call.age, call.began)
  | .storing call _ => some (.insert call.name call.age, call.began)
  | .inserted call _ _ => some (.insert call.name call.age, call.began)
  | .finding call id => some (.find id, call.began)
  | .selected call _ _ => call.query.rowCall.map fun c => (c, call.began)
  | _ => none

/-- The row with an ID. -/
def History.rowOf (h : History) (id : ℤ) : Option Record :=
  (h.stored.find? fun x => x.record.id = id).map Stored.record

/-- The operation of a thread that has left the section in which it takes effect. -/
def History.hand (h : History) : Pc → Option (Operation RowCall RowAnswer)
  | .inserted call id _ => some ⟨.insert call.name call.age, .inserted id, call.began, none⟩
  | .selected call scans _ => call.query.rowCall.map fun c =>
    ⟨c, .found ((h.selection call.query scans).map Prod.snd), call.began, none⟩
  | _ => none

theorem History.hand_opened {h : History} {pc : Pc} {e : Operation RowCall RowAnswer}
    (he : h.hand pc = some e) : pc.opened = some (e.call, e.began) := by
  unfold History.hand at he
  split at he
  · cases he
    rfl
  · obtain ⟨c, hc, rfl⟩ := Option.map_eq_some_iff.mp he
    exact Option.map_eq_some_iff.mpr ⟨c, hc, rfl⟩
  · cases he

/-- A thread keeps what it has in hand. -/
theorem PcOk.hand_eq {h h' : History} {pc : Pc} (hpc : PcOk h pc) (hext : h.Extends h') :
    h'.hand pc = h.hand pc := by
  unfold History.hand
  split
  · rfl
  · rw [hext.selection_eq _ fun scan hscan => (hpc.1.before scan hscan).le]
  · rfl

namespace SharedTable

variable {n : ℕ} {s s' : SharedTable n}

/-! ### The rows -/

theorem Inv.rowOf_eq_some (hi : s.Inv) {id : ℤ} {r : Record} :
    s.rowOf id = some r ↔ r.id = id ∧ ∃ x ∈ s.stored, x.record = r := by
  unfold History.rowOf
  rw [Option.map_eq_some_iff]
  constructor
  · rintro ⟨x, hx, rfl⟩
    exact ⟨by simpa using List.find?_some hx, x, List.mem_of_find?_eq_some hx, rfl⟩
  · rintro ⟨rfl, x, hx, rfl⟩
    have hsome : (s.stored.find? fun x' => x'.record.id = x.record.id).isSome = true :=
      List.find?_isSome.mpr ⟨x, hx, by simp⟩
    obtain ⟨x', hx'⟩ := Option.isSome_iff_exists.mp hsome
    -- no other row has the ID
    have hid : x'.record.id = x.record.id := by simpa using List.find?_some hx'
    have heq := hi.eq_of_id (List.mem_of_find?_eq_some hx') hx hid
    exact ⟨x', hx', (Prod.mk.inj heq).2⟩

/-- The lookup of an ID finds, in its section, the row with the ID. -/
theorem Inv.tableFindById_rowOf (hi : s.Inv) (id : ℤ) :
    ∃ found, tableFindById s.memory id = some (s.memory, found) ∧
      found.bind s.memory.record = s.rowOf id ∧
      (s.selection (.id .eq id) [(tableBucketIndexForId id, s.clock)]).map Prod.snd =
        (s.rowOf id).toList := by
  obtain ⟨found, hrun, hfound⟩ := tableFindById_spec hi.quiet.unlocked hi.stores id
  have hrows := hi.selection_id hfound
  refine ⟨found, hrun, ?_⟩
  cases found with
  | none =>
    have hnone : s.rowOf id = none := by
      rw [Option.eq_none_iff_forall_ne_some]
      intro r hr
      obtain ⟨rfl, x, hx, rfl⟩ := hi.rowOf_eq_some.mp hr
      have hmem := History.mem_rowsBefore.mpr ⟨x, hx, hi.past x hx, rfl, rfl⟩
      have hsome := (hfound x.ptr).mpr ⟨x.record, hmem, rfl⟩
      cases hsome
    rw [List.map_eq_nil_iff.mp hrows.symm, hnone]
    exact ⟨rfl, rfl⟩
  | some q =>
    obtain ⟨⟨q', r⟩, hsel, rfl⟩ := List.map_eq_singleton_iff.mp hrows.symm
    have hmem : (q', r) ∈ s.selection (.id .eq id) [(tableBucketIndexForId id, s.clock)] := by
      rw [hsel]
      exact List.mem_singleton_self _
    obtain ⟨hscanned, htest⟩ := History.mem_selection.mp hmem
    obtain ⟨x, hx, -, heq⟩ := History.mem_scanned.mp hscanned
    have hid : r.id = id := by simpa [Query.test, tableCompareInt] using htest
    rw [hsel, hi.rowOf_eq_some.mpr ⟨hid, x, hx, (Prod.mk.inj heq).2⟩]
    exact ⟨hi.record_scanned hscanned, rfl⟩

/-- A row is stored under a free ID. -/
theorem Inv.rowOf_free (hi : s.Inv) {ptr : RecordPtr} {r : Record} {m : TableMemory}
    (hstores : m.Stores (Rows.add (fun b => s.rowsBefore b s.clock) (ptr, r))) :
    s.rowOf r.id = none := by
  rw [Option.eq_none_iff_forall_ne_some]
  intro r' hr'
  obtain ⟨hid, x, hx, rfl⟩ := hi.rowOf_eq_some.mp hr'
  have hmem := History.mem_rowsBefore.mpr ⟨x, hx, hi.past x hx, rfl, rfl⟩
  have hnodup := hstores.nodup_ids (tableBucketIndexForId r.id)
  rw [Rows.add_self rfl, List.map_append, List.nodup_append] at hnodup
  rw [hid] at hmem
  exact hnodup.2.2 _ (List.mem_map.mpr ⟨_, hmem, rfl⟩) _ (List.mem_singleton_self _) hid

/-- The map with one more row. -/
theorem rowOf_concat {h h' : History} {time : ℕ} {ptr : RecordPtr} {r : Record}
    (hstored : h'.stored = h.stored ++ [⟨time, ptr, r⟩]) (hfree : h.rowOf r.id = none) :
    h'.rowOf = Function.update h.rowOf r.id (some r) := by
  funext id
  unfold History.rowOf at hfree ⊢
  rw [hstored, List.find?_append]
  by_cases hid : id = r.id
  · subst hid
    rw [Option.map_eq_none_iff] at hfree
    rw [Function.update_self, hfree, Option.none_or, List.find?_cons_of_pos (by simp)]
    rfl
  · rw [Function.update_of_ne hid, List.find?_cons_of_neg (by simpa using Ne.symm hid),
      List.find?_nil, Option.or_none]

/-! ### One step -/

/-- Open calls began in the past. -/
def Began (s : SharedTable n) : Prop :=
  ∀ t c, (s.threads t).opened = some c → c.2 < s.clock

theorem Began.update (hb : s.Began) {t : Fin n} {pc : Pc}
    (hthreads : s'.threads = Function.update s.threads t pc) (hclock : s'.clock = s.clock + 1)
    (hpc : ∀ c, pc.opened = some c → c.2 ≤ s.clock) : s'.Began := by
  intro t' c hc
  rw [hthreads] at hc
  rw [hclock]
  by_cases ht : t' = t
  · subst ht
    rw [Function.update_self] at hc
    exact Nat.lt_succ_of_le (hpc c hc)
  · rw [Function.update_of_ne ht] at hc
    exact (hb t' c hc).trans (Nat.lt_succ_self _)

theorem Began.call (hb : s.Began) {t : Fin n} {op : Op} (h : s.call t op = some s') :
    s'.Began := by
  unfold SharedTable.call at h
  split at h
  · split at h
    all_goals
      cases h
      refine hb.update rfl rfl fun c hc => ?_
      cases hc
    · exact le_rfl
    · exact le_rfl
  · cases h

theorem Inv.began_progress (hi : s.Inv) (hb : s.Began) {t : Fin n} (h : s.Progress t s') :
    s'.Began := by
  have hpcOk := hi.threads t
  have hbegan := hb t
  cases h with
  | issue hpc =>
    rw [hpc] at hbegan
    exact hb.update rfl rfl fun c hc => (hbegan c hc).le
  | taken hpc => exact hb.update rfl rfl nofun
  | store hpc =>
    rw [hpc] at hbegan
    exact hb.update rfl rfl fun c hc => (hbegan c hc).le
  | answer hpc => exact hb.update rfl rfl nofun
  | scan hpc => exact hb.update rfl rfl nofun
  | finish hpc =>
    rw [hpc] at hpcOk
    refine hb.update rfl rfl fun c hc => ?_
    obtain ⟨c, -, rfl⟩ := Option.map_eq_some_iff.mp hc
    exact hpcOk.2.1.began.le
  | find hpc =>
    rw [hpc] at hpcOk
    refine hb.update rfl rfl fun c hc => ?_
    obtain ⟨c, -, rfl⟩ := Option.map_eq_some_iff.mp hc
    exact hpcOk.2.le
  | select hpc => exact hb.update rfl rfl nofun

/-- What happened so far has an order in which the rows of the table come about. -/
def Ordered (s : SharedTable n) : Prop :=
  Linearized rowMap s.clock s.operations (fun t => s.hand (s.threads t)) s.rowOf

theorem ordered_start (n : ℕ) : (start n).Ordered := linearized_first rowMap fun _ => rfl

/-- The step of one thread. -/
theorem Inv.hands_update (hi : s.Inv) (hext : s.Extends s'.toHistory) {t : Fin n} {pc : Pc}
    (hthreads : s'.threads = Function.update s.threads t pc) :
    (fun t' => s'.hand (s'.threads t')) =
      Function.update (fun t' => s.hand (s.threads t')) t (s'.hand pc) := by
  funext t'
  rw [hthreads]
  by_cases ht : t' = t
  · subst ht
    rw [Function.update_self, Function.update_self]
  · rw [Function.update_of_ne ht, Function.update_of_ne ht]
    exact (hi.threads t').hand_eq hext

/-- A step in which nothing takes effect and nothing is answered. -/
theorem Inv.ordered_wait (hi : s.Inv) (ho : s.Ordered) {t : Fin n} {pc : Pc}
    (hthreads : s'.threads = Function.update s.threads t pc) (hclock : s'.clock = s.clock + 1)
    (hstored : s'.stored = s.stored) (hissued : ∀ x ∈ s.issued, x ∈ s'.issued)
    (hanswers : s'.operations = s.operations)
    (hhand : s'.hand pc = s.hand (s.threads t)) : s'.Ordered := by
  have hext : s.Extends s'.toHistory :=
    ⟨by omega, hissued, [], by rw [hstored, List.append_nil], nofun⟩
  have hrows : s'.rowOf = s.rowOf := by
    funext id
    unfold History.rowOf
    rw [hstored]
  unfold Ordered
  rw [hi.hands_update hext hthreads, hhand, Function.update_eq_self t, hanswers, hrows, hclock]
  exact ho.wait (Nat.le_succ _)

theorem Inv.ordered_call (hi : s.Inv) (ho : s.Ordered) {t : Fin n} {op : Op}
    (h : s.call t op = some s') : s'.Ordered := by
  unfold SharedTable.call at h
  split at h
  · rename_i hpc
    have hidle : s.hand (s.threads t) = none := by
      rw [hpc]
      rfl
    split at h
    · cases h
      exact hi.ordered_wait ho rfl rfl rfl (fun _ hx => hx) rfl hidle.symm
    · cases h
      exact hi.ordered_wait ho rfl rfl rfl (fun _ hx => hx) rfl hidle.symm
    · cases h
      exact hi.ordered_wait ho rfl rfl rfl (fun _ hx => hx) rfl hidle.symm
  · cases h

/-- The answer of a lookup that has several buckets to read is not one of the object. -/
theorem hand_of_scanned {h : History} {call : SelectCall} {scans : List Scan}
    {records : RecordArray} (hquery : call.query.buckets = List.finRange tableBucketCount) :
    h.hand (.selected call scans records) = none := by
  have hnone : call.query.rowCall = none := by
    unfold Query.rowCall
    split
    · rename_i id heq
      have hlength := congrArg List.length hquery
      rw [heq, List.length_finRange] at hlength
      cases hlength
    · rfl
  show call.query.rowCall.map _ = none
  rw [hnone]
  rfl

/-- **What every section does to the order.** -/
theorem Inv.ordered_progress (hi : s.Inv) (hb : s.Began) (ho : s.Ordered) {t : Fin n}
    (h : s.Progress t s') : s'.Ordered := by
  have hpcOk := hi.threads t
  cases h with
  | issue hpc =>
    exact hi.ordered_wait ho rfl rfl rfl (fun _ hx => List.mem_append_left _ hx) rfl
      (by rw [hpc]; rfl)
  | taken hpc htaken hquiet hstores =>
    exact hi.ordered_wait ho rfl rfl rfl (fun _ hx => hx) rfl (by rw [hpc]; rfl)
  | scan hpc hm hrows =>
    exact hi.ordered_wait ho rfl rfl rfl (fun _ hx => hx) rfl (by rw [hpc]; rfl)
  | finish hpc hm hrows =>
    rw [hpc] at hpcOk
    refine hi.ordered_wait ho rfl rfl rfl (fun _ hx => hx) rfl ?_
    rw [hpc]
    exact hand_of_scanned hpcOk.1
  | @store call id m ptr hpc hquiet hstores hnext =>
    set s' : SharedTable n := { s.become t m (.inserted call id ptr) with
      stored := s.stored ++ [⟨s.clock, ptr, storedRecord id call.name call.age⟩] } with hs'
    have hext : s.Extends s'.toHistory := by
      refine ⟨Nat.le_succ _, fun _ hx => hx, _, rfl, fun x hx => ?_⟩
      rw [List.mem_singleton.mp hx]
    have hfree := hi.rowOf_free hstores
    have hstored : s'.stored =
        s.stored ++ [⟨s.clock, ptr, storedRecord id call.name call.age⟩] := rfl
    have hrows : s'.rowOf =
        Function.update s.rowOf id (some (storedRecord id call.name call.age)) :=
      rowOf_concat hstored hfree
    have hidle : s.hand (s.threads t) = none := by
      rw [hpc]
      rfl
    have hbegan : call.began < s.clock := by
      refine hb t (.insert call.name call.age, call.began) ?_
      rw [hpc]
      rfl
    unfold Ordered
    rw [hi.hands_update hext rfl, hrows]
    -- the row is visible from now on
    exact ho.takes_effect hidle rfl hbegan (RowStep.insert call.name call.age hfree)
  | @answer call id record hpc =>
    set s' : SharedTable n := { s.become t s.memory .idle with
      inserts := s.inserts ++ [⟨call, id, s.clock⟩] } with hs'
    have hext : s.Extends s'.toHistory :=
      ⟨Nat.le_succ _, fun _ hx => hx, [], (List.append_nil _).symm, nofun⟩
    have hhand : s.hand (s.threads t) =
        some ⟨.insert call.name call.age, .inserted id, call.began, none⟩ := by
      rw [hpc]
      rfl
    unfold Ordered
    rw [hi.hands_update hext rfl]
    have hperm : s'.operations.Perm
        (s.operations ++ [InsertAnswer.operation ⟨call, id, s.clock⟩]) :=
      History.operations_insert rfl rfl
    exact (ho.answers hhand).perm hperm
  | @find call id records m hpc hm hrows =>
    rw [hpc] at hpcOk
    obtain ⟨hquery, hbegan⟩ := hpcOk
    set s' : SharedTable n :=
      s.become t m (.selected call [(tableBucketIndexForId id, s.clock)] records) with hs'
    have hext : s.Extends s'.toHistory :=
      ⟨Nat.le_succ _, fun _ hx => hx, [], (List.append_nil _).symm, nofun⟩
    have hidle : s.hand (s.threads t) = none := by
      rw [hpc]
      rfl
    have hhand : s'.hand (.selected call [(tableBucketIndexForId id, s.clock)] records) =
        some ⟨.find id, .found (s.rowOf id).toList, call.began, none⟩ := by
      obtain ⟨-, -, -, hrow⟩ := hi.tableFindById_rowOf id
      show call.query.rowCall.map _ = _
      rw [← hrow, hquery]
      rfl
    unfold Ordered
    rw [hi.hands_update hext rfl, hhand]
    -- the lookup sees the rows of this moment
    exact ho.takes_effect hidle rfl hbegan (RowStep.find _ id)
  | @select call scans records hpc =>
    set s' : SharedTable n := { s.become t s.memory .idle with
      selects := s.selects ++
        [⟨call, scans, (s.selection call.query scans).map Prod.snd, s.clock⟩] } with hs'
    have hoperations : s'.operations = s.operations ++ (SelectAnswer.operation
        ⟨call, scans, (s.selection call.query scans).map Prod.snd, s.clock⟩).toList :=
      History.operations_select rfl rfl
    unfold SelectAnswer.operation at hoperations
    have hhand : s.hand (s.threads t) = call.query.rowCall.map fun c =>
        ⟨c, .found ((s.selection call.query scans).map Prod.snd), call.began, none⟩ := by
      rw [hpc]
      rfl
    cases hcall : call.query.rowCall with
    | none =>
      rw [hcall] at hoperations hhand
      exact hi.ordered_wait ho rfl rfl rfl (fun _ hx => hx)
        (hoperations.trans (List.append_nil _)) hhand.symm
    | some c =>
      rw [hcall] at hoperations hhand
      have hext : s.Extends s'.toHistory :=
        ⟨Nat.le_succ _, fun _ hx => hx, [], (List.append_nil _).symm, nofun⟩
      unfold Ordered
      rw [hi.hands_update hext rfl, hoperations]
      exact ho.answers hhand

/-! ### Every run -/

/-- The invariants of a run. -/
theorem ordered_of_run {actions : List (Action n)} (h : (start n).run actions = some s) :
    s.Inv ∧ s.Began ∧ s.Ordered := by
  have hstart : (start n).Inv ∧ (start n).Began ∧ (start n).Ordered :=
    ⟨inv_start n, fun t c hc => (by cases hc), ordered_start n⟩
  generalize start n = s₀ at h hstart
  induction actions generalizing s₀ with
  | nil =>
    cases h
    exact hstart
  | cons a actions ih =>
    obtain ⟨s₁, hstep, hrest⟩ := Option.bind_eq_some_iff.mp h
    obtain ⟨hi, hb, ho⟩ := hstart
    refine ih s₁ hrest ⟨hi.step hstep, ?_⟩
    rcases hi.step_cases hstep with ⟨t, op, -, hcall⟩ | ⟨t, -, hprogress⟩
    · exact ⟨hb.call hcall, hi.ordered_call ho hcall⟩
    · exact ⟨hi.began_progress hb hprogress, hi.ordered_progress hb ho hprogress⟩

end SharedTable

open SharedTable

/-- **Insertions and lookups by ID are linearizable**, in every run of any number of threads,
whatever else these call: the answered ones, and some of those that are under way, have an order
that agrees with the times of the calls and answers, and in which a map from IDs to rows gives these
answers.  It ends in the rows that the table now holds under each ID. -/
theorem table_linearizable {n : ℕ} {actions : List (Action n)} {s : SharedTable n}
    (h : (start n).run actions = some s) :
    ∃ rows, Linearizable rowMap s.operations (fun t => (s.threads t).opened) rows ∧
      ∀ id, ∃ found, tableFindById s.memory id = some (s.memory, found) ∧
        found.bind s.memory.record = rows id := by
  obtain ⟨hi, -, ho⟩ := ordered_of_run h
  refine ⟨s.rowOf, ho.linearizable fun t e he => History.hand_opened he, fun id => ?_⟩
  obtain ⟨found, hrun, hrow, -⟩ := hi.tableFindById_rowOf id
  exact ⟨found, hrun, hrow⟩

/-- Thread 1 looks for the row that thread 0 has stored, and answers before thread 0 does. -/
def earlyFind : List (Action 2) :=
  let first : Fin 2 := ⟨0, Nat.zero_lt_two⟩
  let second : Fin 2 := ⟨1, Nat.one_lt_two⟩
  [.call first (.insert [65] 30), .advance first, .call second (.select (.id .eq 1)),
    .advance first, .advance second, .advance second]

theorem table_linearizable_early_find :
    ∃ s rows, (start 2).run earlyFind = some s ∧
      s.operations.map Operation.answer = [.found [storedRecord 1 [65] 30]] ∧
      Linearizable rowMap s.operations (fun t => (s.threads t).opened) rows := by
  have hrun : (((start 2).run earlyFind).map fun s => s.operations.map Operation.answer) =
      some [.found [storedRecord 1 [65] 30]] := by decide
  obtain ⟨s, hs, hanswers⟩ := Option.map_eq_some_iff.mp hrun
  obtain ⟨rows, hrows, -⟩ := table_linearizable hs
  exact ⟨s, rows, hs, hanswers, hrows⟩

end MiniDbms
