import MiniDbms.Table.Equiv.Lookups
import MiniDbms.Table.Interleaving

/-!
# What concurrent lookups return

The invariant `SharedTable.Inv` ties the memory to the history: bucket `b` holds the rows that were
stored in it so far, and a lookup holds, of each bucket it has read, the rows that were stored there
before the section in which it read it (`History.selection`).

From it follows what a lookup guarantees under every interleaving (`select_guarantees`), and that it
reads every bucket at one instant, but not all of them at the same one (`select_reads_buckets`,
`select_is_no_snapshot`).
-/

namespace MiniDbms

open SortedAssoc CArray TableMemory

/-! ### What the history says about rows -/

namespace History

/-- The rows stored in bucket `b` before a time. -/
def rowsBefore (h : History) (b : Fin tableBucketCount) (time : ℕ) : List Row :=
  (h.stored.filter fun x => x.time < time ∧ tableBucketIndexForId x.record.id = b).map
    fun x => (x.ptr, x.record)

/-- The rows that were in the buckets at the times of their sections. -/
def scanned (h : History) (scans : List Scan) : List Row :=
  scans.flatMap fun scan => h.rowsBefore scan.1 scan.2

/-- Those of them that a lookup asks for, in order. -/
def selection (h : History) (query : Query) (scans : List Scan) : List Row :=
  (sortRows (h.scanned scans)).filter fun e => query.test e.2

theorem mem_rowsBefore {h : History} {b : Fin tableBucketCount} {time : ℕ} {e : Row} :
    e ∈ h.rowsBefore b time ↔ ∃ x ∈ h.stored, x.time < time ∧
      tableBucketIndexForId x.record.id = b ∧ (x.ptr, x.record) = e := by
  simp only [rowsBefore, List.mem_map, List.mem_filter, decide_eq_true_eq, and_assoc]

theorem mem_scanned {h : History} {scans : List Scan} {e : Row} :
    e ∈ h.scanned scans ↔ ∃ x ∈ h.stored,
      (∃ time, (tableBucketIndexForId x.record.id, time) ∈ scans ∧ x.time < time) ∧
      (x.ptr, x.record) = e := by
  simp only [scanned, List.mem_flatMap, mem_rowsBefore]
  constructor
  · rintro ⟨⟨b, time⟩, hscan, x, hx, hlt, rfl, rfl⟩
    exact ⟨x, hx, ⟨time, hscan, hlt⟩, rfl⟩
  · rintro ⟨x, hx, ⟨time, hscan, hlt⟩, rfl⟩
    exact ⟨_, hscan, x, hx, hlt, rfl, rfl⟩

theorem mem_selection {h : History} {query : Query} {scans : List Scan} {e : Row} :
    e ∈ h.selection query scans ↔ e ∈ h.scanned scans ∧ query.test e.2 = true := by
  unfold selection sortRows
  rw [List.mem_filter, List.mem_insertionSort]

/-- `h'` continues `h`: what is stored later has a later time. -/
structure Extends (h h' : History) : Prop where
  clock : h.clock ≤ h'.clock
  issued : ∀ x ∈ h.issued, x ∈ h'.issued
  stored : ∃ new, h'.stored = h.stored ++ new ∧ ∀ x ∈ new, h.clock ≤ x.time

theorem Extends.stored_mem {h h' : History} (hext : h.Extends h') {x : Stored}
    (hx : x ∈ h.stored) : x ∈ h'.stored := by
  obtain ⟨new, hnew, -⟩ := hext.stored
  rw [hnew]
  exact List.mem_append_left _ hx

/-- The past does not change. -/
theorem Extends.rowsBefore_eq {h h' : History} (hext : h.Extends h') (b : Fin tableBucketCount)
    {time : ℕ} (htime : time ≤ h.clock) : h'.rowsBefore b time = h.rowsBefore b time := by
  obtain ⟨new, hnew, hlate⟩ := hext.stored
  have hnil : (new.filter fun x => decide (x.time < time ∧ tableBucketIndexForId x.record.id = b)) =
      [] := by
    rw [List.filter_eq_nil_iff]
    intro x hx hlt
    rw [decide_eq_true_eq] at hlt
    have := hlate x hx
    omega
  unfold rowsBefore
  rw [hnew, List.filter_append, hnil, List.append_nil]

theorem Extends.scanned_eq {h h' : History} (hext : h.Extends h') {scans : List Scan}
    (hscans : ∀ scan ∈ scans, scan.2 ≤ h.clock) : h'.scanned scans = h.scanned scans := by
  unfold scanned
  apply List.flatMap_congr
  intro scan hscan
  exact hext.rowsBefore_eq scan.1 (hscans scan hscan)

theorem Extends.selection_eq {h h' : History} (hext : h.Extends h') (query : Query)
    {scans : List Scan} (hscans : ∀ scan ∈ scans, scan.2 ≤ h.clock) :
    h'.selection query scans = h.selection query scans := by
  unfold selection
  rw [hext.scanned_eq hscans]

end History

/-! ### The invariant -/

/-- The buckets that a lookup reads, in the order in which it does. -/
def Query.buckets : Query → List (Fin tableBucketCount)
  | .id .eq key => [tableBucketIndexForId key]
  | _ => List.finRange tableBucketCount

/-- A lookup reads the buckets of all rows that it asks for. -/
theorem Query.bucket_mem {query : Query} {r : Record} (h : query.test r = true) :
    tableBucketIndexForId r.id ∈ query.buckets := by
  unfold Query.buckets
  split
  · rename_i key
    have hid : r.id = key := by simpa [Query.test, tableCompareInt] using h
    rw [hid]
    exact List.mem_singleton_self _
  · exact List.mem_finRange _

/-- The sections of a lookup lie one behind the other, between its call and `ended`. -/
structure SelectCall.Scanned (call : SelectCall) (scans : List Scan) (ended : ℕ) : Prop where
  began : call.began < ended
  times : (scans.map Prod.snd).Pairwise (· < ·)
  after : ∀ scan ∈ scans, call.began < scan.2
  before : ∀ scan ∈ scans, scan.2 < ended

theorem SelectCall.Scanned.mono {call : SelectCall} {scans : List Scan} {ended ended' : ℕ}
    (h : call.Scanned scans ended) (hle : ended ≤ ended') : call.Scanned scans ended' :=
  ⟨h.began.trans_le hle, h.times, h.after, fun scan hscan => (h.before scan hscan).trans_le hle⟩

/-- One more section, now. -/
theorem SelectCall.Scanned.append {call : SelectCall} {scans : List Scan} {clock : ℕ}
    (h : call.Scanned scans clock) (b : Fin tableBucketCount) :
    call.Scanned (scans ++ [(b, clock)]) (clock + 1) := by
  refine ⟨h.began.trans (Nat.lt_succ_self _), ?_, ?_, ?_⟩
  · rw [List.map_append, List.pairwise_append]
    refine ⟨h.times, List.pairwise_singleton _ _, fun time htime time' htime' => ?_⟩
    obtain ⟨scan, hscan, rfl⟩ := List.mem_map.mp htime
    rw [List.mem_singleton.mp htime']
    exact h.before scan hscan
  · intro scan hscan
    rcases List.mem_append.mp hscan with hscan | hscan
    · exact h.after scan hscan
    · rw [List.mem_singleton.mp hscan]
      exact h.began
  · intro scan hscan
    rcases List.mem_append.mp hscan with hscan | hscan
    · exact (h.before scan hscan).trans (Nat.lt_succ_self _)
    · rw [List.mem_singleton.mp hscan]
      exact Nat.lt_succ_self _

/-- What a thread has in hand. -/
def PcOk (h : History) : Pc → Prop
  | .idle => True
  | .issuing _ => True
  | .storing call id => (call, id) ∈ h.issued
  | .inserted call id record => (call, id) ∈ h.issued ∧ ∃ x ∈ h.stored, x.ptr = record ∧
    x.record = storedRecord id call.name call.age
  | .scanning call scans rest records =>
    call.query.buckets = List.finRange tableBucketCount ∧ call.Scanned scans h.clock ∧
      scans.map Prod.fst ++ rest = List.finRange tableBucketCount ∧
      records.rows = (h.scanned scans).map Prod.fst
  | .finding call id => call.query = .id .eq id ∧ call.began < h.clock
  | .selected call scans records =>
    call.Scanned scans h.clock ∧ scans.map Prod.fst = call.query.buckets ∧
      records.rows = (h.selection call.query scans).map Prod.fst

/-- What the answer to an insertion says: the row was stored, with the ID that the call got. -/
def InsertOk (h : History) (a : InsertAnswer) : Prop :=
  (a.call, a.id) ∈ h.issued ∧ a.ended < h.clock ∧ ∃ x ∈ h.stored, x.time < a.ended ∧
    x.record = storedRecord a.id a.call.name a.call.age

/-- What the answer to a lookup says. -/
structure SelectOk (h : History) (e : SelectAnswer) : Prop where
  scanned : e.call.Scanned e.scans e.ended
  buckets : e.scans.map Prod.fst = e.call.query.buckets
  rows : e.rows = (h.selection e.call.query e.scans).map Prod.snd
  ended : e.ended < h.clock

theorem PcOk.extend {h h' : History} (hext : h.Extends h') {pc : Pc} (hpc : PcOk h pc) :
    PcOk h' pc := by
  cases pc with
  | idle => trivial
  | issuing call => trivial
  | storing call id => exact hext.issued _ hpc
  | inserted call id record =>
    obtain ⟨hissued, x, hx, hptr, hrecord⟩ := hpc
    exact ⟨hext.issued _ hissued, x, hext.stored_mem hx, hptr, hrecord⟩
  | scanning call scans rest records =>
    obtain ⟨hquery, hscanned, hrest, hrows⟩ := hpc
    refine ⟨hquery, hscanned.mono hext.clock, hrest, ?_⟩
    rw [hext.scanned_eq fun scan hscan => (hscanned.before scan hscan).le]
    exact hrows
  | finding call id => exact ⟨hpc.1, hpc.2.trans_le hext.clock⟩
  | selected call scans records =>
    obtain ⟨hscanned, hbuckets, hrows⟩ := hpc
    refine ⟨hscanned.mono hext.clock, hbuckets, ?_⟩
    rw [hext.selection_eq _ fun scan hscan => (hscanned.before scan hscan).le]
    exact hrows

theorem InsertOk.extend {h h' : History} (hext : h.Extends h') {a : InsertAnswer}
    (ha : InsertOk h a) : InsertOk h' a := by
  obtain ⟨hissued, hended, x, hx, htime, hrecord⟩ := ha
  exact ⟨hext.issued _ hissued, hended.trans_le hext.clock, x, hext.stored_mem hx, htime, hrecord⟩

theorem SelectOk.extend {h h' : History} (hext : h.Extends h') {e : SelectAnswer}
    (he : SelectOk h e) : SelectOk h' e := by
  refine ⟨he.scanned, he.buckets, ?_, he.ended.trans_le hext.clock⟩
  rw [hext.selection_eq _ fun scan hscan => ((he.scanned.before scan hscan).trans he.ended).le]
  exact he.rows

namespace SharedTable

variable {n : ℕ}

/-- What holds between two steps. -/
structure Inv (s : SharedTable n) : Prop where
  quiet : s.memory.Quiet
  stores : s.memory.Stores fun b => s.rowsBefore b s.clock
  past : ∀ x ∈ s.stored, x.time < s.clock
  issued : ∀ x ∈ s.stored, ∃ call, (call, x.record.id) ∈ s.issued ∧
    x.record = storedRecord x.record.id call.name call.age
  threads : ∀ t, PcOk s.toHistory (s.threads t)
  inserts : ∀ a ∈ s.inserts, InsertOk s.toHistory a
  selects : ∀ e ∈ s.selects, SelectOk s.toHistory e

theorem inv_start (n : ℕ) : (start n).Inv := by
  refine ⟨⟨rfl, rfl, rfl⟩, ⟨fun b => rfl, fun b => Nat.zero_le _, nofun, nofun, fun b => ?_⟩,
    nofun, nofun, fun t => trivial, nofun, nofun⟩
  exact ⟨[], bptreeCreate_holds, .refl _⟩

/-- Every stored row is in the memory. -/
theorem Inv.record {s : SharedTable n} (hi : s.Inv) {x : Stored} (hx : x ∈ s.stored) :
    s.memory.record x.ptr = some x.record :=
  hi.stores.record (tableBucketIndexForId x.record.id) (x.ptr, x.record)
    (History.mem_rowsBefore.mpr ⟨x, hx, hi.past x hx, rfl, rfl⟩)

theorem Inv.record_scanned {s : SharedTable n} (hi : s.Inv) {scans : List Scan} {e : Row}
    (he : e ∈ s.scanned scans) : s.memory.record e.1 = some e.2 := by
  obtain ⟨x, hx, -, rfl⟩ := History.mem_scanned.mp he
  exact hi.record hx

/-- Nothing was stored at the present time. -/
theorem Inv.rowsBefore_succ {s : SharedTable n} (hi : s.Inv) (b : Fin tableBucketCount) :
    s.rowsBefore b (s.clock + 1) = s.rowsBefore b s.clock := by
  unfold History.rowsBefore
  congr 1
  apply List.filter_congr
  intro x hx
  have := hi.past x hx
  have hiff : x.time < s.clock + 1 ↔ x.time < s.clock := by omega
  simp only [hiff]

/-! ### Steps that store nothing -/

/-- A step of thread `t` in which nothing is stored: what is to be shown. -/
theorem Inv.of_step {s s' : SharedTable n} (hi : s.Inv) (t : Fin n)
    (hclock : s'.clock = s.clock + 1) (hstored : s'.stored = s.stored)
    (hissued : ∀ x ∈ s.issued, x ∈ s'.issued) (hquiet : s'.memory.Quiet)
    (hstores : s'.memory.Stores fun b => s.rowsBefore b s.clock)
    (hthreads : ∀ t' ≠ t, s'.threads t' = s.threads t')
    (hpc : s.Extends s'.toHistory → PcOk s'.toHistory (s'.threads t))
    (hinserts : ∀ a ∈ s'.inserts, a ∈ s.inserts ∨ InsertOk s'.toHistory a)
    (hselects : ∀ e ∈ s'.selects, e ∈ s.selects ∨ SelectOk s'.toHistory e) : s'.Inv := by
  have hext : s.Extends s'.toHistory :=
    ⟨by omega, hissued, [], by rw [hstored, List.append_nil], nofun⟩
  have hrows : (fun b => s'.rowsBefore b s'.clock) = fun b => s.rowsBefore b s.clock := by
    funext b
    rw [hclock, ← hi.rowsBefore_succ b]
    unfold History.rowsBefore
    rw [hstored]
  refine ⟨hquiet, ?_, ?_, ?_, ?_, ?_, ?_⟩
  · rw [hrows]
    exact hstores
  · intro x hx
    rw [hstored] at hx
    exact (hi.past x hx).trans_le hext.clock
  · intro x hx
    rw [hstored] at hx
    obtain ⟨call, hcall, heq⟩ := hi.issued x hx
    exact ⟨call, hissued _ hcall, heq⟩
  · intro t'
    by_cases ht : t' = t
    · subst ht
      exact hpc hext
    · rw [hthreads t' ht]
      exact (hi.threads t').extend hext
  · intro a ha
    rcases hinserts a ha with ha | ha
    · exact (hi.inserts a ha).extend hext
    · exact ha
  · intro e he
    rcases hselects e he with he | he
    · exact (hi.selects e he).extend hext
    · exact he

/-- A step that changes result arrays at most, and the place of one thread. -/
theorem Inv.become {s : SharedTable n} (hi : s.Inv) (t : Fin n) {m : TableMemory}
    (hm : s.memory.ArraysOnly m) {pc : Pc}
    (hpc : s.Extends (s.become t m pc).toHistory → PcOk (s.become t m pc).toHistory pc) :
    (s.become t m pc).Inv := by
  refine hi.of_step t rfl rfl (fun _ hx => hx) (hm.quiet hi.quiet) (hm.stores hi.stores)
    (fun t' ht => Function.update_of_ne ht _ _) (fun hext => ?_) (fun _ ha => Or.inl ha)
    fun _ he => Or.inl he
  have hself : (s.become t m pc).threads t = pc := Function.update_self _ _ _
  rw [hself]
  exact hpc hext

/-! ### The sections -/

/-- Sorting and filtering what was collected. -/
theorem finishSelect_spec {m : TableMemory} (hallocs : m.allocs = []) {es : List Row}
    (hm : ∀ e ∈ es, m.record e.1 = some e.2) (query : Query) {records : RecordArray}
    (hrows : records.rows = es.map Prod.fst) :
    ∃ m' records', finishSelect m query records = some (true, m', records') ∧ m.ArraysOnly m' ∧
      records'.rows = ((sortRows es).filter fun e => query.test e.2).map Prod.fst := by
  obtain ⟨sorted, hsort, hsorted, -⟩ := tableSortRecordsById_spec hm hrows
  have hall : finishSelect m .all records = some (true, m, sorted) := bind_eq_of_eq_some hsort rfl
  have hfilter : ∀ query, query ≠ .all →
      finishSelect m query records = tableFilterRecords m query.test sorted := by
    intro query hquery
    refine bind_eq_of_eq_some hsort ?_
    cases query with
    | all => exact absurd rfl hquery
    | name => rfl
    | id => rfl
    | age => rfl
  by_cases hquery : query = .all
  · subst hquery
    have hself : (sortRows es).filter (fun e => Query.all.test e.2) = sortRows es :=
      List.filter_eq_self.mpr fun _ _ => rfl
    exact ⟨m, sorted, hall, .refl m, by rw [hsorted, hself]⟩
  · obtain ⟨m', records', hrun, hm', hrows'⟩ := tableFilterRecords_spec query.test hallocs
      (fun e he => hm e ((List.mem_insertionSort _).mp he)) hsorted
    exact ⟨m', records', (hfilter query hquery).trans hrun, hm', hrows'⟩

/-- What the index of a bucket finds is the selection of a lookup that reads only this bucket. -/
theorem Inv.selection_id {s : SharedTable n} (hi : s.Inv) {id : ℤ} {p : Option RecordPtr}
    (hp : ∀ q, p = some q ↔
      ∃ r, (q, r) ∈ s.rowsBefore (tableBucketIndexForId id) s.clock ∧ r.id = id) :
    p.toList = (s.selection (.id .eq id) [(tableBucketIndexForId id, s.clock)]).map Prod.fst := by
  set es := s.rowsBefore (tableBucketIndexForId id) s.clock with hes
  have hscanned : s.scanned [(tableBucketIndexForId id, s.clock)] = es := by
    unfold History.scanned
    rw [List.flatMap_cons, List.flatMap_nil, List.append_nil]
  have hids : (es.map fun e => e.2.id).Nodup := hi.stores.nodup_ids (tableBucketIndexForId id)
  have hmem : ∀ e, e ∈ s.selection (.id .eq id) [(tableBucketIndexForId id, s.clock)] ↔
      e ∈ es ∧ e.2.id = id := by
    intro e
    rw [History.mem_selection, hscanned]
    simp [Query.test, tableCompareInt]
  cases p with
  | none =>
    have hnil : s.selection (.id .eq id) [(tableBucketIndexForId id, s.clock)] = [] := by
      rw [List.eq_nil_iff_forall_not_mem]
      rintro ⟨q, r⟩ he
      obtain ⟨he, hid⟩ := (hmem _).mp he
      exact Option.some_ne_none q ((hp q).mpr ⟨r, he, hid⟩).symm
    rw [hnil]
    rfl
  | some q =>
    obtain ⟨r, he, hid⟩ := (hp q).mp rfl
    -- IDs are unique, so the row that was found is the only one
    have hnodup : (s.selection (.id .eq id) [(tableBucketIndexForId id, s.clock)]).Nodup := by
      unfold History.selection sortRows
      rw [hscanned]
      have hsorted := ((List.perm_insertionSort (fun left right : Row => left.2.id ≤ right.2.id)
        es).map fun e => e.2.id).nodup_iff.mpr hids
      exact (List.Nodup.of_map _ hsorted).filter _
    have hperm :
        (s.selection (.id .eq id) [(tableBucketIndexForId id, s.clock)]).Perm [(q, r)] := by
      rw [List.perm_ext_iff_of_nodup hnodup (List.nodup_singleton _)]
      intro e
      rw [hmem, List.mem_singleton]
      constructor
      · rintro ⟨he', hid'⟩
        exact List.inj_on_of_nodup_map hids he' he (hid'.trans hid.symm)
      · rintro rfl
        exact ⟨he, hid⟩
    rw [List.perm_singleton.mp hperm]
    rfl

/-! ### What a section does -/

/-- The sections of thread `t` and what they make of the system. -/
inductive Progress (s : SharedTable n) (t : Fin n) : SharedTable n → Prop
  | issue {call : InsertCall} (pc : s.threads t = .issuing call) :
    Progress s t { s.become t { s.memory with nextId := intWrap (s.memory.nextId + 1) }
      (.storing call s.memory.nextId) with issued := s.issued ++ [(call, s.memory.nextId)] }
  | taken {call : InsertCall} {id : ℤ} {m : TableMemory} (pc : s.threads t = .storing call id)
    (taken : ∃ e ∈ s.rowsBefore (tableBucketIndexForId id) s.clock, e.2.id = id)
    (quiet : m.Quiet) (stores : m.Stores fun b => s.rowsBefore b s.clock) :
    Progress s t (s.become t m .idle)
  | store {call : InsertCall} {id : ℤ} {m : TableMemory} {ptr : RecordPtr}
    (pc : s.threads t = .storing call id) (quiet : m.Quiet)
    (stores : m.Stores (Rows.add (fun b => s.rowsBefore b s.clock)
      (ptr, storedRecord id call.name call.age))) (nextId : m.nextId = s.memory.nextId) :
    Progress s t { s.become t m (.inserted call id ptr) with
      stored := s.stored ++ [⟨s.clock, ptr, storedRecord id call.name call.age⟩] }
  | answer {call : InsertCall} {id : ℤ} {record : RecordPtr}
    (pc : s.threads t = .inserted call id record) :
    Progress s t { s.become t s.memory .idle with
      inserts := s.inserts ++ [⟨call, id, s.clock⟩] }
  | scan {call : SelectCall} {scans : List Scan} {b : Fin tableBucketCount}
    {rest : List (Fin tableBucketCount)} {records records' : RecordArray} {m : TableMemory}
    (pc : s.threads t = .scanning call scans (b :: rest) records) (memory : s.memory.ArraysOnly m)
    (rows : records'.rows = records.rows ++ (s.rowsBefore b s.clock).map Prod.fst) :
    Progress s t (s.become t m (.scanning call (scans ++ [(b, s.clock)]) rest records'))
  | finish {call : SelectCall} {scans : List Scan} {records records' : RecordArray}
    {m : TableMemory} (pc : s.threads t = .scanning call scans [] records)
    (memory : s.memory.ArraysOnly m)
    (rows : records'.rows = (s.selection call.query scans).map Prod.fst) :
    Progress s t (s.become t m (.selected call scans records'))
  | find {call : SelectCall} {id : ℤ} {records : RecordArray} {m : TableMemory}
    (pc : s.threads t = .finding call id) (memory : s.memory.ArraysOnly m)
    (rows : records.rows =
      (s.selection (.id .eq id) [(tableBucketIndexForId id, s.clock)]).map Prod.fst) :
    Progress s t (s.become t m (.selected call [(tableBucketIndexForId id, s.clock)] records))
  | select {call : SelectCall} {scans : List Scan} {records : RecordArray}
    (pc : s.threads t = .selected call scans records) :
    Progress s t { s.become t s.memory .idle with
      selects := s.selects ++
        [⟨call, scans, (s.selection call.query scans).map Prod.snd, s.clock⟩] }

/-- **A thread at work can always go on**, and its next section does one of these things. -/
theorem Inv.advance {s : SharedTable n} (hi : s.Inv) {t : Fin n} (ht : s.threads t ≠ .idle) :
    ∃ s', s.advance t = some s' ∧ s.Progress t s' := by
  have hpcOk := hi.threads t
  unfold SharedTable.advance
  cases hpc : s.threads t with
  | idle => exact absurd hpc ht
  | issuing call =>
    dsimp only
    rw [tableIssueId_eq hi.quiet.unlocked]
    exact ⟨_, rfl, .issue hpc⟩
  | storing call id =>
    -- `bptree_insert` fails exactly when the ID is in the index
    dsimp only
    by_cases htaken : ∃ e ∈ s.rowsBefore (tableBucketIndexForId id) s.clock, e.2.id = id
    · obtain ⟨m, hrun, hquiet, hstores, -⟩ :=
        tableStoreRow_taken hi.quiet hi.stores call.name call.age htaken
      rw [hrun]
      exact ⟨_, rfl, .taken hpc htaken hquiet hstores⟩
    · have hfresh : ∀ e ∈ s.rowsBefore (tableBucketIndexForId id) s.clock, e.2.id ≠ id :=
        fun e he hid => htaken ⟨e, he, hid⟩
      obtain ⟨m, hrun, hquiet, hstores, hnext, -⟩ :=
        tableStoreRow_spec hi.quiet hi.stores id call.name call.age hfresh
      have hrecord : m.record s.memory.records.length =
          some (storedRecord id call.name call.age) :=
        hstores.record _ (_, storedRecord id call.name call.age)
          (Rows.mem_add.mpr (Or.inr ⟨rfl, rfl⟩))
      refine ⟨_, bind_eq_of_eq_some hrun ?_, .store hpc hquiet hstores hnext⟩
      exact bind_eq_of_eq_some hrecord rfl
  | inserted call id record =>
    rw [hpc] at hpcOk
    obtain ⟨-, x, hx, rfl, hrecord⟩ := hpcOk
    have hid : x.record.id = id := by
      rw [hrecord]
      rfl
    refine ⟨_, bind_eq_of_eq_some (hi.record hx) ?_, .answer hpc⟩
    rw [hid]
  | scanning call scans rest records =>
    rw [hpc] at hpcOk
    obtain ⟨-, -, -, hrows⟩ := hpcOk
    cases rest with
    | nil =>
      obtain ⟨m, records', hrun, hm, hrows'⟩ := finishSelect_spec hi.quiet.allocs
        (fun e he => hi.record_scanned he) call.query hrows
      exact ⟨_, bind_eq_of_eq_some hrun rfl, .finish hpc hm hrows'⟩
    | cons b rest =>
      obtain ⟨m, records', hrun, hm, hrows'⟩ :=
        tableCollectSection_spec hi.quiet hi.stores records b
      exact ⟨_, bind_eq_of_eq_some hrun rfl, .scan hpc hm hrows'⟩
  | finding call id =>
    obtain ⟨p, hrun, hp⟩ := tableFindById_spec hi.quiet.unlocked hi.stores id
    have hsel := hi.selection_id hp
    cases p with
    | none => exact ⟨_, bind_eq_of_eq_some hrun rfl, .find hpc (.refl _) hsel⟩
    | some q =>
      obtain ⟨m, records, happ, hm, hrows⟩ := tableAppendRecord_spec hi.quiet.allocs .empty q
      refine ⟨_, bind_eq_of_eq_some hrun ?_, .find hpc hm (hrows.trans hsel)⟩
      dsimp only
      rw [happ]
  | selected call scans records =>
    rw [hpc] at hpcOk
    obtain ⟨-, -, hrows⟩ := hpcOk
    have hrecords : records.rows.mapM s.memory.record =
        some ((s.selection call.query scans).map Prod.snd) := by
      rw [hrows]
      apply recordsAt_map
      intro e he
      exact hi.record_scanned (History.mem_selection.mp he).1
    exact ⟨_, bind_eq_of_eq_some hrecords rfl, .select hpc⟩

/-- Every step is a call of a thread that is not at work, or a section of one that is. -/
theorem Inv.step_cases {s s' : SharedTable n} (hi : s.Inv) {a : Action n}
    (h : s.step a = some s') :
    (∃ t op, a = .call t op ∧ s.call t op = some s') ∨
      ∃ t, a = .advance t ∧ s.Progress t s' := by
  cases a with
  | call t op => exact Or.inl ⟨t, op, rfl, h⟩
  | advance t =>
    have ht : s.threads t ≠ .idle := by
      intro hpc
      change s.advance t = some s' at h
      unfold SharedTable.advance at h
      rw [hpc] at h
      cases h
    obtain ⟨s₁, hrun, hprogress⟩ := hi.advance ht
    cases hrun.symm.trans h
    exact Or.inr ⟨t, rfl, hprogress⟩

/-! ### Every step keeps the invariant -/

theorem Inv.call {s s' : SharedTable n} (hi : s.Inv) {t : Fin n} {op : Op}
    (h : s.call t op = some s') : s'.Inv := by
  unfold SharedTable.call at h
  split at h
  · split at h
    · cases h
      refine hi.of_step t rfl rfl (fun _ hx => hx) hi.quiet hi.stores
        (fun t' ht => Function.update_of_ne ht _ _) (fun hext => ?_) (fun _ ha => Or.inl ha)
        fun _ he => Or.inl he
      simp only [SharedTable.become, Function.update_self]
      trivial
    · cases h
      exact hi.become t (.refl _) fun _ => ⟨rfl, Nat.lt_succ_self _⟩
    · rename_i query hquery
      cases h
      refine hi.become t (.refl _) fun _ => ⟨?_,
        ⟨Nat.lt_succ_self _, List.Pairwise.nil, nofun, nofun⟩,
        rfl, rfl⟩
      unfold Query.buckets
      split
      · rename_i key heq
        exact absurd heq (hquery key)
      · rfl
  · cases h

/-- The row stored now goes behind the rows of its bucket. -/
theorem Inv.rowsBefore_stored {s : SharedTable n} (hi : s.Inv) (ptr : RecordPtr) (r : Record)
    {h : History} (hstored : h.stored = s.stored ++ [⟨s.clock, ptr, r⟩]) :
    (fun b => h.rowsBefore b (s.clock + 1)) =
      Rows.add (fun b => s.rowsBefore b s.clock) (ptr, r) := by
  funext b
  have hsplit : h.rowsBefore b (s.clock + 1) = s.rowsBefore b s.clock ++
      (([⟨s.clock, ptr, r⟩] : List Stored).filter fun x =>
        x.time < s.clock + 1 ∧ tableBucketIndexForId x.record.id = b).map
        fun x => (x.ptr, x.record) := by
    rw [← hi.rowsBefore_succ b]
    unfold History.rowsBefore
    rw [hstored, List.filter_append, List.map_append]
  rw [hsplit]
  by_cases hb : tableBucketIndexForId r.id = b
  · rw [Rows.add_self hb]
    simp [hb]
  · rw [Rows.add_of_ne hb]
    simp [hb]

/-- A row is stored. -/
theorem Inv.store {s : SharedTable n} (hi : s.Inv) {t : Fin n} {call : InsertCall} {id : ℤ}
    (hpc : s.threads t = .storing call id) {m : TableMemory} {ptr : RecordPtr} (hquiet : m.Quiet)
    (hstores : m.Stores (Rows.add (fun b => s.rowsBefore b s.clock)
      (ptr, storedRecord id call.name call.age))) :
    Inv { s.become t m (.inserted call id ptr) with
      stored := s.stored ++ [⟨s.clock, ptr, storedRecord id call.name call.age⟩] } := by
  have hissued : (call, id) ∈ s.issued := by
    have := hi.threads t
    rw [hpc] at this
    exact this
  set r := storedRecord id call.name call.age
  set s' : SharedTable n := { s.become t m (.inserted call id ptr) with
    stored := s.stored ++ [⟨s.clock, ptr, r⟩] } with hs'
  have hext : s.Extends s'.toHistory := by
    refine ⟨Nat.le_succ _, fun _ hx => hx, _, rfl, fun x hx => ?_⟩
    rw [List.mem_singleton.mp hx]
  have hnew : ∀ x ∈ s'.stored, x ∈ s.stored ∨ x = ⟨s.clock, ptr, r⟩ := by
    intro x hx
    rcases List.mem_append.mp hx with hx | hx
    · exact Or.inl hx
    · exact Or.inr (List.mem_singleton.mp hx)
  refine ⟨hquiet, ?_, ?_, ?_, ?_, fun a ha => (hi.inserts a ha).extend hext,
    fun e he => (hi.selects e he).extend hext⟩
  · have hrows := hi.rowsBefore_stored ptr r (h := s'.toHistory) rfl
    show m.Stores fun b => s'.rowsBefore b (s.clock + 1)
    rw [hrows]
    exact hstores
  · intro x hx
    rcases hnew x hx with hx | rfl
    · exact (hi.past x hx).trans (Nat.lt_succ_self _)
    · exact Nat.lt_succ_self _
  · intro x hx
    rcases hnew x hx with hx | rfl
    · obtain ⟨call', hcall', heq⟩ := hi.issued x hx
      exact ⟨call', hcall', heq⟩
    · exact ⟨call, hissued, rfl⟩
  · intro t'
    by_cases ht : t' = t
    · subst ht
      have hthread : s'.threads t' = .inserted call id ptr := Function.update_self _ _ _
      rw [hthread]
      exact ⟨hissued, ⟨s.clock, ptr, r⟩, List.mem_append_right _ (List.mem_singleton_self _), rfl,
        rfl⟩
    · have hthread : s'.threads t' = s.threads t' := Function.update_of_ne ht _ _
      rw [hthread]
      exact (hi.threads t').extend hext

/-- **Every section keeps the invariant.** -/
theorem Inv.progress {s s' : SharedTable n} (hi : s.Inv) {t : Fin n} (h : s.Progress t s') :
    s'.Inv := by
  have hpcOk := hi.threads t
  cases h with
  | issue hpc =>
    -- only `next_id` changes
    have hs := hi.stores
    refine hi.of_step t rfl rfl (fun _ hx => List.mem_append_left _ hx)
      ⟨hi.quiet.allocs, hi.quiet.lockResults, hi.quiet.held⟩
      ⟨hs.rows, hs.capacity, hs.record, hs.bucket, hs.index⟩
      (fun t' ht => Function.update_of_ne ht _ _) (fun _ => ?_) (fun _ ha => Or.inl ha)
      fun _ he => Or.inl he
    simp only [SharedTable.become, Function.update_self]
    exact List.mem_append_right _ (List.mem_singleton_self _)
  | taken hpc htaken hquiet hstores =>
    refine hi.of_step t rfl rfl (fun _ hx => hx) hquiet hstores
      (fun t' ht => Function.update_of_ne ht _ _) (fun _ => ?_) (fun _ ha => Or.inl ha)
      fun _ he => Or.inl he
    simp only [SharedTable.become, Function.update_self]
    trivial
  | store hpc hquiet hstores => exact hi.store hpc hquiet hstores
  | answer hpc =>
    -- the row of the answer was stored by an earlier step of the thread
    rw [hpc] at hpcOk
    obtain ⟨hissued, x, hx, -, hrecord⟩ := hpcOk
    refine hi.of_step t rfl rfl (fun _ hx => hx) hi.quiet hi.stores
      (fun t' ht => Function.update_of_ne ht _ _) (fun _ => ?_) (fun a ha => ?_)
      fun _ he => Or.inl he
    · simp only [SharedTable.become, Function.update_self]
      trivial
    · rcases List.mem_append.mp ha with ha | ha
      · exact Or.inl ha
      · rw [List.mem_singleton.mp ha]
        exact Or.inr ⟨hissued, Nat.lt_succ_self _, x, hx, hi.past x hx, hrecord⟩
  | @scan call scans b rest records records' m hpc hm hrows' =>
    rw [hpc] at hpcOk
    obtain ⟨hquery, hscanned, hrest, hrows⟩ := hpcOk
    -- one more bucket, as it is now
    refine hi.become t hm fun hext => ⟨hquery, hscanned.append b, ?_, ?_⟩
    · rw [List.map_append, List.append_assoc]
      exact hrest
    · have hsplit : (s.become t m (.scanning call (scans ++ [(b, s.clock)]) rest records')).scanned
          (scans ++ [(b, s.clock)]) = s.scanned scans ++ s.rowsBefore b s.clock := by
        unfold History.scanned
        rw [List.flatMap_append, List.flatMap_cons, List.flatMap_nil, List.append_nil]
        rfl
      rw [hsplit, hrows', hrows, List.map_append]
  | finish hpc hm hrows' =>
    rw [hpc] at hpcOk
    obtain ⟨hquery, hscanned, hrest, -⟩ := hpcOk
    refine hi.become t hm fun hext => ⟨hscanned.mono (Nat.le_succ _), ?_, hrows'⟩
    rw [hquery, ← hrest, List.append_nil]
  | @find call id records m hpc hm hrows =>
    rw [hpc] at hpcOk
    obtain ⟨hquery, hbegan⟩ := hpcOk
    have hempty : call.Scanned [] s.clock := ⟨hbegan, List.Pairwise.nil, nofun, nofun⟩
    have hscanned : call.Scanned [(tableBucketIndexForId id, s.clock)] (s.clock + 1) :=
      hempty.append _
    refine hi.become t hm fun _ => ⟨hscanned, ?_, ?_⟩
    · rw [hquery]
      rfl
    · rw [hquery]
      exact hrows
  | select hpc =>
    -- the answer is remembered, with its scans
    rw [hpc] at hpcOk
    obtain ⟨hscanned, hbuckets, -⟩ := hpcOk
    refine hi.of_step t rfl rfl (fun _ hx => hx) hi.quiet hi.stores
      (fun t' ht => Function.update_of_ne ht _ _) (fun _ => ?_) (fun _ ha => Or.inl ha)
      fun e he => ?_
    · simp only [SharedTable.become, Function.update_self]
      trivial
    · rcases List.mem_append.mp he with he | he
      · exact Or.inl he
      · rw [List.mem_singleton.mp he]
        exact Or.inr ⟨hscanned, hbuckets, rfl, Nat.lt_succ_self _⟩

theorem Inv.step {s s' : SharedTable n} (hi : s.Inv) {a : Action n} (h : s.step a = some s') :
    s'.Inv := by
  rcases hi.step_cases h with ⟨t, op, -, hcall⟩ | ⟨t, -, hprogress⟩
  · exact hi.call hcall
  · exact hi.progress hprogress

/-- **Every run keeps the invariant.** -/
theorem Inv.run {s s' : SharedTable n} (hi : s.Inv) {actions : List (Action n)}
    (h : s.run actions = some s') : s'.Inv := by
  induction actions generalizing s with
  | nil =>
    cases h
    exact hi
  | cons a actions ih =>
    obtain ⟨s₁, hstep, hrest⟩ := Option.bind_eq_some_iff.mp h
    exact ih (hi.step hstep) hrest

end SharedTable

end MiniDbms
