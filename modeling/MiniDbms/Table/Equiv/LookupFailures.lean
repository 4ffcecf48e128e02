import MiniDbms.Table.Equiv.Agreement

/-!
# The lookups, whatever fails

A lookup makes lock calls and asks for memory, and each of them can fail.  It changes nothing but
the result arrays (`LookupOnly`).  The scanning lookups end in one of two ways (`Scanned`): every
lock call has succeeded and all the rows are there, or there is no array at all.  The lookup through
the index takes a failed lock call for a row that is not there (`tableFindById_result`).

`Owns` counts the arrays: those that were allocated are the ones that were freed, each once, and the
ones that somebody still owns.
-/

namespace MiniDbms

open SortedAssoc CArray

namespace TableMemory

variable {m m' m'' : TableMemory} {used used' : List Bool}

/-! ### What a lookup can change -/

/-- `m'` differs from `m` in the result arrays and in the coming allocations only. -/
def MemoryOnly (m m' : TableMemory) : Prop :=
  ∃ arrays freed allocs,
    m' = { m with arrays := arrays, freedArrays := freed, allocs := allocs }

theorem MemoryOnly.refl (m : TableMemory) : m.MemoryOnly m := ⟨_, _, _, rfl⟩

theorem MemoryOnly.trans (h : m.MemoryOnly m') (h' : m'.MemoryOnly m'') : m.MemoryOnly m'' := by
  obtain ⟨_, _, _, rfl⟩ := h
  obtain ⟨_, _, _, rfl⟩ := h'
  exact ⟨_, _, _, rfl⟩

/-- `m'` differs from `m` in the result arrays and in the coming allocations and lock calls only;
`used` are the outcomes of the lock calls that were made. -/
def LookupOnly (m : TableMemory) (used : List Bool) (m' : TableMemory) : Prop :=
  m.lockResults = used ++ m'.lockResults ∧
    ({ m with lockResults := m'.lockResults } : TableMemory).MemoryOnly m'

theorem MemoryOnly.lookupOnly (h : m.MemoryOnly m') : m.LookupOnly [] m' := by
  obtain ⟨_, _, _, rfl⟩ := h
  exact ⟨rfl, _, _, _, rfl⟩

theorem LookupOnly.trans (h : m.LookupOnly used m') (h' : m'.LookupOnly used' m'') :
    m.LookupOnly (used ++ used') m'' := by
  obtain ⟨hused, arrays, freed, allocs, hm⟩ := h
  obtain ⟨hused', arrays', freed', allocs', hm'⟩ := h'
  refine ⟨by rw [hused, hused', List.append_assoc], arrays', freed', allocs', ?_⟩
  rw [hm', hm]

/-- Without lock calls that could fail, it is the memory only. -/
theorem LookupOnly.memoryOnly (h : m.LookupOnly used m') (hnone : m.lockResults = []) :
    m.MemoryOnly m' := by
  obtain ⟨hused, hm⟩ := h
  rw [hnone, eq_comm, List.append_eq_nil_iff] at hused
  rwa [hused.2, ← hnone] at hm

theorem LookupOnly.toTable (h : m.LookupOnly used m') : m'.toTable = m.toTable := by
  obtain ⟨-, _, _, _, hm⟩ := h
  rw [hm]

theorem LookupOnly.records (h : m.LookupOnly used m') : m'.records = m.records := by
  obtain ⟨-, _, _, _, hm⟩ := h
  rw [hm]

theorem LookupOnly.held (h : m.LookupOnly used m') : m'.held = m.held := by
  obtain ⟨-, _, _, _, hm⟩ := h
  rw [hm]

theorem LookupOnly.record (h : m.LookupOnly used m') (p : RecordPtr) :
    m'.record p = m.record p := by
  rw [TableMemory.record, h.records, TableMemory.record]

theorem LookupOnly.buckets (h : m.LookupOnly used m') : m'.buckets = m.buckets :=
  congrArg Table.buckets h.toTable

theorem LookupOnly.holdsRows (h : m.LookupOnly used m') {rs : Rows} (hs : m.HoldsRows rs) :
    m'.HoldsRows rs := by
  obtain ⟨-, _, _, _, hm⟩ := h
  rw [hm]
  exact ⟨hs.rows, hs.capacity, hs.record, hs.bucket⟩

theorem LookupOnly.stores (h : m.LookupOnly used m') {rs : Rows} (hs : m.Stores rs) :
    m'.Stores rs := by
  obtain ⟨-, _, _, _, hm⟩ := h
  rw [hm]
  exact ⟨hs.rows, hs.capacity, hs.record, hs.bucket, hs.index⟩

/-! ### Arrays -/

/-- The arrays that were allocated were freed, each once, or belong to `owned`. -/
def Owns (m : TableMemory) (owned : List ℕ) : Prop :=
  (m.freedArrays ++ owned).Perm (List.range m.arrays)

theorem Owns.free {records : RecordArray} {owned : List ℕ}
    (h : m.Owns (records.ptr.toList ++ owned)) : (tableFreeArray m records).Owns owned := by
  unfold tableFreeArray
  cases hptr : records.ptr with
  | none =>
    rw [hptr] at h
    exact h
  | some ptr =>
    rw [hptr] at h
    exact List.perm_middle.symm.trans h

/-- One more array. -/
theorem Owns.allocate {owned : List ℕ} (h : m.Owns owned) :
    ({ m with arrays := m.arrays + 1 } : TableMemory).Owns (m.arrays :: owned) := by
  unfold Owns at h ⊢
  rw [List.range_succ]
  exact List.perm_middle.trans ((h.cons _).trans (List.perm_append_singleton _ _).symm)

/-- No array was freed twice. -/
theorem Owns.nodup {owned : List ℕ} (h : m.Owns owned) : (m.freedArrays ++ owned).Nodup :=
  h.nodup_iff.mpr List.nodup_range

/-! ### Locks -/

/-- The outcome of the next lock call, if it is given. -/
def nextLock (m : TableMemory) : List Bool := m.lockResults.take 1

/-- Locks take no memory. -/
theorem lock_allocs {l : TableLock} {ok : Bool} (h : m.lock l = (ok, m')) :
    m'.allocs = m.allocs := by
  unfold TableMemory.lock at h
  split_ifs at h <;> rw [← (Prod.mk.inj h).2]

theorem unlock_allocs {l : TableLock} (h : m.unlock l = some m') : m'.allocs = m.allocs := by
  unfold unlock at h
  split_ifs at h
  rw [← Option.some.inj h]

/-- A lock call that fails. -/
structure Refused (m m' : TableMemory) : Prop where
  only : m.LookupOnly m.nextLock m'
  refused : false ∈ m.nextLock
  owns : ∀ owned, m.Owns owned → m'.Owns owned

theorem lock_refused {l : TableLock} (h : m.lock l = (false, m')) : m.Refused m' := by
  unfold TableMemory.lock at h
  cases hresults : m.lockResults with
  | nil =>
    rw [hresults] at h
    cases h
  | cons outcome rest =>
    have hnext : m.nextLock = [outcome] := by rw [nextLock, hresults]; rfl
    cases outcome with
    | true =>
      rw [hresults] at h
      cases h
    | false =>
      rw [hresults] at h
      cases h
      exact ⟨by rw [hnext]; exact ⟨hresults, .refl _⟩, by rw [hnext]; exact List.mem_cons_self,
        fun _ h => h⟩

/-- What a lock call does when it succeeds. -/
theorem lock_eq_true {l : TableLock} (h : m.lock l = (true, m')) :
    m.lockResults.headD true = true ∧
      m' = { m with held := l :: m.held, lockResults := m.lockResults.tail } := by
  unfold TableMemory.lock at h
  by_cases hhead : m.lockResults.headD true = true
  · rw [if_pos hhead] at h
    exact ⟨hhead, (Prod.mk.inj h).2.symm⟩
  · rw [if_neg hhead] at h
    cases h

/-- A section: from `m` the lock is taken in `m₁`, and released again in `m₂`. -/
structure Section (m m₁ m₂ m' : TableMemory) : Prop where
  only : m.LookupOnly m.nextLock m'
  granted : ∀ outcome ∈ m.nextLock, outcome = true
  owns : ∀ owned, m.Owns owned → m₁.Owns owned
  owns_end : ∀ owned, m₂.Owns owned → m'.Owns owned

/-- A lock call that succeeds, and what is done before the lock is released again. -/
theorem lock_granted {l : TableLock} {m₁ m₂ : TableMemory} (h : m.lock l = (true, m₁))
    (hm : m₁.MemoryOnly m₂) : ∃ m', m₂.unlock l = some m' ∧ Section m m₁ m₂ m' := by
  obtain ⟨arrays, freed, allocs, rfl⟩ := hm
  obtain ⟨hhead, rfl⟩ := lock_eq_true h
  refine ⟨{ m with
    arrays := arrays, freedArrays := freed, allocs := allocs, lockResults := m.lockResults.tail },
    ?_, ⟨?_, _, _, _, rfl⟩, fun outcome hmem => ?_, fun _ h => h, fun _ h => h⟩
  · rw [unlock, if_pos List.mem_cons_self, List.erase_cons_head]
  · exact (List.take_append_drop 1 _).symm.trans (by rw [List.drop_one]; rfl)
  · unfold nextLock at hmem
    cases hresults : m.lockResults with
    | nil =>
      rw [hresults] at hmem
      cases hmem
    | cons first rest =>
      rw [hresults] at hmem hhead
      rw [List.mem_singleton.mp hmem]
      exact hhead

end TableMemory

open TableMemory

section Lookups

variable {m m' : TableMemory} {records records' : RecordArray} {ok : Bool}

/-! ### Appending -/

theorem arraysOnly_freeArray (m : TableMemory) (records : RecordArray) :
    m.ArraysOnly (tableFreeArray m records) := by
  unfold tableFreeArray
  split
  · exact .refl m
  · exact ⟨_, _, rfl⟩

theorem memoryOnly_freeArray (m : TableMemory) (records : RecordArray) :
    m.MemoryOnly (tableFreeArray m records) := by
  obtain ⟨arrays, freed, hm⟩ := arraysOnly_freeArray m records
  exact ⟨arrays, freed, m.allocs, hm⟩

/-- What becomes of an array that one more pointer is appended to. -/
structure Appended (m : TableMemory) (records : RecordArray) (rows : List RecordPtr) (ok : Bool)
    (m' : TableMemory) (records' : RecordArray) : Prop where
  memory : m.MemoryOnly m'
  rows : ok = true → records'.rows = records.rows ++ rows
  owns : ∀ owned, m.Owns (records.ptr.toList ++ owned) → m'.Owns (records'.ptr.toList ++ owned)

theorem Appended.nil (m : TableMemory) (records : RecordArray) :
    Appended m records [] true m records :=
  ⟨.refl m, fun _ => (List.append_nil _).symm, fun _ h => h⟩

theorem Appended.trans {m₁ : TableMemory} {records₁ : RecordArray} {rows rows' : List RecordPtr}
    (h : Appended m records rows true m₁ records₁)
    (h' : Appended m₁ records₁ rows' ok m' records') :
    Appended m records (rows ++ rows') ok m' records' where
  memory := h.memory.trans h'.memory
  rows hok := by rw [h'.rows hok, h.rows rfl, List.append_assoc]
  owns owned howned := h'.owns owned (h.owns owned howned)

theorem tableAppendRecord_appended {p : RecordPtr}
    (h : tableAppendRecord m records p = (ok, m', records')) :
    Appended m records [p] ok m' records' := by
  unfold tableAppendRecord at h
  by_cases hlt : records.rows.length < records.capacity
  · rw [if_pos hlt] at h
    cases h
    exact ⟨.refl _, fun _ => rfl, fun _ h => h⟩
  · rw [if_neg hlt] at h
    dsimp only at h
    rcases hrun : m.alloc with ⟨_ | _, m₁⟩ <;>
      obtain ⟨-, rfl⟩ := Prod.mk.inj hrun <;> rw [hrun] at h
    · cases h
      exact ⟨⟨_, _, _, rfl⟩, nofun, fun _ h => h⟩
    · cases hptr : records.ptr with
      | none =>
        rw [hptr] at h
        cases h
        refine ⟨⟨_, _, _, rfl⟩, fun _ => rfl, fun owned howned => ?_⟩
        rw [hptr] at howned
        exact howned.allocate
      | some ptr =>
        rw [hptr] at h
        cases h
        refine ⟨⟨_, _, _, rfl⟩, fun _ => rfl, fun owned howned => ?_⟩
        rw [hptr] at howned
        exact howned

/-- What was appended is there, or the array was freed. -/
theorem tableCollectRows_appended {rows : List RecordPtr}
    (h : tableCollectRows m records rows = (ok, m', records')) :
    Appended m records rows ok m' records' ∧ (ok = false → records' = .empty) := by
  induction rows generalizing m records with
  | nil =>
    cases h
    exact ⟨.nil _ _, by simp⟩
  | cons p rows ih =>
    rw [tableCollectRows] at h
    rcases happend : tableAppendRecord m records p with ⟨_ | _, m₁, records₁⟩ <;> rw [happend] at h
    · have happended := tableAppendRecord_appended happend
      cases h
      refine ⟨⟨happended.memory.trans (memoryOnly_freeArray m₁ records₁), by simp, ?_⟩,
        fun _ => rfl⟩
      intro owned howned
      exact (happended.owns owned howned).free
    · obtain ⟨happended, hempty⟩ := ih h
      exact ⟨(tableAppendRecord_appended happend).trans happended, hempty⟩

theorem tableFilterRows_appended {test : Record → Bool} {rows : List RecordPtr}
    (h : tableFilterRows m test records rows = some (ok, m', records')) :
    Appended m records (rows.filter fun p => (m.record p).any test) ok m' records' := by
  induction rows generalizing m records with
  | nil =>
    cases h
    exact .nil _ _
  | cons p rows ih =>
    obtain ⟨r, hr, h⟩ := Option.bind_eq_some_iff.mp h
    have htest : (m.record p).any test = test r := by rw [hr, Option.any_some]
    split_ifs at h with hmatch
    · have hfilter : (p :: rows).filter (fun p => (m.record p).any test) =
          [p] ++ rows.filter fun p => (m.record p).any test :=
        List.filter_cons_of_pos (htest.trans hmatch)
      rw [hfilter]
      rcases happend : tableAppendRecord m records p with ⟨_ | _, m₁, records₁⟩ <;>
        rw [happend] at h
      · have happended := tableAppendRecord_appended happend
        cases h
        exact ⟨happended.memory, nofun, happended.owns⟩
      · have happended := tableAppendRecord_appended happend
        have hrest := ih h
        simp only [happended.memory.lookupOnly.record] at hrest
        exact happended.trans hrest
    · have hfilter : (p :: rows).filter (fun p => (m.record p).any test) =
          rows.filter fun p => (m.record p).any test :=
        List.filter_cons_of_neg (by rw [htest]; exact hmatch)
      rw [hfilter]
      exact ih h

/-! ### Collecting -/

/-- How the collection of some rows ended: every lock call has succeeded and the rows are there, or
there is no array. -/
structure Collected (m : TableMemory) (records : RecordArray) (rows : List RecordPtr) (ok : Bool)
    (m' : TableMemory) (records' : RecordArray) : Prop where
  only : ∃ used, m.LookupOnly used m' ∧ (ok = true → ∀ outcome ∈ used, outcome = true)
  rows : ok = true → records'.rows = records.rows ++ rows
  empty : ok = false → records' = .empty
  owns : ∀ owned, m.Owns (records.ptr.toList ++ owned) → m'.Owns (records'.ptr.toList ++ owned)

theorem tableCollectSection_collected (m : TableMemory) (records : RecordArray)
    (b : Fin tableBucketCount) :
    ∃ ok m' records', tableCollectSection m records b = some (ok, m', records') ∧
      Collected m records (m.buckets b).rows ok m' records' := by
  unfold tableCollectSection
  rcases hlock : m.lock (.bucket b) with ⟨_ | _, m₁⟩
  · have hrefused := lock_refused hlock
    have honly := hrefused.only.trans (memoryOnly_freeArray m₁ records).lookupOnly
    rw [List.append_nil] at honly
    exact ⟨_, _, _, rfl, ⟨_, honly, nofun⟩, nofun, fun _ => rfl,
      fun owned howned => (hrefused.owns _ howned).free⟩
  · rcases hrows : tableCollectRows m₁ records (m.buckets b).rows with ⟨ok, m₂, records₂⟩
    have hbuckets : m₁.buckets = m.buckets := by rw [(lock_eq_true hlock).2]
    obtain ⟨happended, hempty⟩ := tableCollectRows_appended hrows
    obtain ⟨m', hunlock, hsection⟩ := lock_granted hlock happended.memory
    have howns : ∀ owned, m.Owns (records.ptr.toList ++ owned) →
        m'.Owns (records₂.ptr.toList ++ owned) := fun owned howned =>
      hsection.owns_end _ (happended.owns _ (hsection.owns _ howned))
    dsimp only
    rw [hbuckets, hrows]
    cases ok with
    | true =>
      exact ⟨true, m', records₂, bind_eq_of_eq_some hunlock rfl,
        ⟨_, hsection.only, fun _ => hsection.granted⟩, happended.rows, nofun, howns⟩
    | false =>
      -- the array was freed and reset, so freeing it again does nothing
      obtain rfl := hempty rfl
      exact ⟨false, m', .empty, bind_eq_of_eq_some hunlock rfl, ⟨_, hsection.only, nofun⟩, nofun,
        hempty, howns⟩

/-- Some buckets, one after the other. -/
theorem tableCollectBuckets_collected (bs : List (Fin tableBucketCount)) (m : TableMemory)
    (records : RecordArray) :
    ∃ ok m' records', tableCollectBuckets m records bs = some (ok, m', records') ∧
      Collected m records (bs.flatMap fun b => (m.buckets b).rows) ok m' records' := by
  induction bs generalizing m records with
  | nil =>
    exact ⟨true, m, records, rfl, ⟨[], (MemoryOnly.refl m).lookupOnly, fun _ => nofun⟩,
      fun _ => (List.append_nil _).symm, nofun, fun _ h => h⟩
  | cons b bs ih =>
    obtain ⟨ok₁, m₁, records₁, hrun₁, hfirst⟩ := tableCollectSection_collected m records b
    obtain ⟨used₁, honly₁, hgranted₁⟩ := hfirst.only
    cases ok₁ with
    | false =>
      exact ⟨false, m₁, records₁, bind_eq_of_eq_some hrun₁ rfl, ⟨used₁, honly₁, nofun⟩, nofun,
        hfirst.empty, hfirst.owns⟩
    | true =>
      obtain ⟨ok, m', records', hrun, hrest⟩ := ih m₁ records₁
      obtain ⟨used, honly, hgranted⟩ := hrest.only
      refine ⟨ok, m', records', bind_eq_of_eq_some hrun₁ hrun,
        ⟨used₁ ++ used, honly₁.trans honly, fun hok outcome hmem => ?_⟩, fun hok => ?_, hrest.empty,
        fun owned howned => hrest.owns owned (hfirst.owns owned howned)⟩
      · rcases List.mem_append.mp hmem with hmem | hmem
        · exact hgranted₁ rfl outcome hmem
        · exact hgranted hok outcome hmem
      · rw [hrest.rows hok, hfirst.rows rfl, honly₁.buckets, List.flatMap_cons, List.append_assoc]

/-! ### Scanning lookups -/

/-- How a lookup that reads every bucket ended: every lock call has succeeded and the rows are those
that it is for, whatever the table stores, or there is no array. -/
structure Scanned (m : TableMemory) (rows : Rows → List Row) (ok : Bool) (m' : TableMemory)
    (found : RecordArray) : Prop where
  only : ∃ used, m.LookupOnly used m' ∧ (ok = true → ∀ outcome ∈ used, outcome = true)
  rows : ok = true → ∀ rs, m.HoldsRows rs → found.rows = (rows rs).map Prod.fst
  empty : ok = false → found = .empty
  owns : ∀ owned, m.Owns owned → m'.Owns (found.ptr.toList ++ owned)

/-- Sorting leaves the array where it is. -/
theorem tableSortRecordsById_ptr (h : tableSortRecordsById m records = some records') :
    records'.ptr = records.ptr := by
  unfold tableSortRecordsById at h
  split_ifs at h
  · cases h
    rfl
  · obtain ⟨keyed, -, h⟩ := Option.bind_eq_some_iff.mp h
    cases h
    rfl

/-- How `table_collect_all_sorted` ends: what it has collected is sorted, or there is no array. -/
theorem tableCollectAllSorted_cases (h : tableCollectAllSorted m = some (ok, m', records)) :
    ∃ collected, Collected m .empty
        ((List.finRange tableBucketCount).flatMap fun b => (m.buckets b).rows) ok m' collected ∧
      (ok = false → records = collected) ∧
      (ok = true → tableSortRecordsById m' collected = some records) := by
  obtain ⟨ok₁, m₁, collected, hrun, hcollected⟩ :=
    tableCollectBuckets_collected (List.finRange tableBucketCount) m .empty
  obtain ⟨res, hrun', h⟩ := Option.bind_eq_some_iff.mp h
  rw [hrun, Option.some_inj] at hrun'
  subst hrun'
  cases ok₁ with
  | false =>
    cases h
    exact ⟨_, hcollected, fun _ => rfl, by simp⟩
  | true =>
    obtain ⟨sorted, hsort, h⟩ := Option.bind_eq_some_iff.mp h
    cases h
    exact ⟨_, hcollected, by simp, fun _ => hsort⟩

theorem tableCollectAllSorted_scanned (h : tableCollectAllSorted m = some (ok, m', records)) :
    Scanned m (fun rs => sortRows rs.all) ok m' records := by
  obtain ⟨records₁, hcollected, hfailed, hsort⟩ := tableCollectAllSorted_cases h
  cases ok with
  | false =>
    rw [hfailed rfl]
    exact ⟨hcollected.only, nofun, hcollected.empty, hcollected.owns⟩
  | true =>
    have hsort := hsort rfl
    refine ⟨hcollected.only, fun _ rs hs => ?_, nofun, fun owned howned => ?_⟩
    · obtain ⟨used, honly, -⟩ := hcollected.only
      have hrows : records₁.rows = rs.all.map Prod.fst := by
        rw [hcollected.rows rfl, ← hs.rows_eq]
        rfl
      obtain ⟨sorted', hsort', hsorted, -⟩ := tableSortRecordsById_spec
        (fun e he => (honly.record e.1).trans (hs.record_all he)) hrows
      rw [hsort] at hsort'
      cases hsort'
      exact hsorted
    · rw [tableSortRecordsById_ptr hsort]
      exact hcollected.owns owned howned

/-- The rows that a scan keeps. -/
theorem filter_record {es : List Row} (hm : ∀ e ∈ es, m.record e.1 = some e.2)
    (test : Record → Bool) :
    ((es.map Prod.fst).filter fun p => (m.record p).any test) =
      (es.filter fun e => test e.2).map Prod.fst := by
  rw [List.filter_map]
  congr 1
  apply List.filter_congr
  intro e he
  show (m.record e.1).any test = test e.2
  rw [hm e he, Option.any_some]

theorem tableFindMatches_scanned {test : Record → Bool}
    (h : tableFindMatches m test = some (ok, m', records)) :
    Scanned m (fun rs => (sortRows rs.all).filter fun e => test e.2) ok m' records := by
  obtain ⟨⟨ok₁, m₁, all⟩, hall, h⟩ := Option.bind_eq_some_iff.mp h
  have hscanned := tableCollectAllSorted_scanned hall
  obtain ⟨used, honly, hgranted⟩ := hscanned.only
  cases ok₁ with
  | false =>
    cases h
    refine ⟨⟨used, honly, nofun⟩, nofun, fun _ => rfl, fun owned howned => ?_⟩
    have howned₁ := hscanned.owns owned howned
    rwa [hscanned.empty rfl] at howned₁
  | true =>
    obtain ⟨⟨ok₂, m₂, kept⟩, hfilter, h⟩ := Option.bind_eq_some_iff.mp h
    have happended := tableFilterRows_appended hfilter
    have hfree : ∀ owned, m.Owns owned →
        (tableFreeArray m₂ all).Owns (kept.ptr.toList ++ owned) := by
      intro owned howned
      have howned₂ := happended.owns _ (hscanned.owns owned howned)
      apply Owns.free
      exact (List.perm_append_comm_assoc _ _ _).append_left _ |>.symm.trans howned₂
    have honly₂ := honly.trans (happended.memory.trans (memoryOnly_freeArray m₂ all)).lookupOnly
    rw [List.append_nil] at honly₂
    cases ok₂ with
    | false =>
      cases h
      have honly₃ := honly₂.trans (memoryOnly_freeArray (tableFreeArray m₂ all) kept).lookupOnly
      rw [List.append_nil] at honly₃
      exact ⟨⟨used, honly₃, nofun⟩, nofun, fun _ => rfl,
        fun owned howned => (hfree owned howned).free⟩
    | true =>
      -- both arrays were filled, and the first one is freed
      cases h
      refine ⟨⟨used, honly₂, fun _ => hgranted rfl⟩, fun _ rs hs => ?_, nofun, hfree⟩
      rw [happended.rows rfl, hscanned.rows rfl rs hs]
      refine filter_record (fun e he => ?_) test
      rw [honly.record]
      exact hs.record_all ((List.mem_insertionSort _).mp he)

/-! ### The lookup through the index -/

/-- How the lookup of an ID ended: when its lock call fails, it ends as if there were no such
row. -/
structure Searched (m : TableMemory) (id : ℤ) (m' : TableMemory) (found : Option RecordPtr) :
    Prop where
  only : m.LookupOnly m.nextLock m'
  allocs : m'.allocs = m.allocs
  granted : (∀ outcome ∈ m.nextLock, outcome = true) →
    bptreeSearch (m.buckets (tableBucketIndexForId id)).pkIndex id = some found
  refused : false ∈ m.nextLock → found = none
  owns : ∀ owned, m.Owns owned → m'.Owns owned

theorem tableFindById_searched {id : ℤ} {found : Option RecordPtr}
    (h : tableFindById m id = some (m', found)) : Searched m id m' found := by
  unfold tableFindById at h
  dsimp only at h
  rcases hlock : m.lock (.bucket (tableBucketIndexForId id)) with ⟨_ | _, m₁⟩ <;> rw [hlock] at h
  · have hrefused := lock_refused hlock
    cases h
    refine ⟨hrefused.only, lock_allocs hlock, fun hgranted => ?_, fun _ => rfl, hrefused.owns⟩
    exact absurd (hgranted false hrefused.refused) Bool.false_ne_true
  · obtain ⟨p, hsearch, h⟩ := Option.bind_eq_some_iff.mp h
    obtain ⟨m₂, hunlock', h⟩ := Option.bind_eq_some_iff.mp h
    obtain ⟨m₃, hunlock, hsection⟩ := lock_granted hlock (.refl m₁)
    rw [hunlock] at hunlock'
    cases hunlock'
    cases h
    refine ⟨hsection.only, (unlock_allocs hunlock).trans (lock_allocs hlock), fun _ => ?_,
      fun hrefused => ?_, fun owned howned => hsection.owns_end _ (hsection.owns _ howned)⟩
    · rw [(lock_eq_true hlock).2] at hsearch
      exact hsearch
    · exact absurd (hsection.granted false hrefused) Bool.false_ne_true

/-- How an equality test of the ID ended: it has what the index leads to, unless there was no memory
for it; when its lock call fails, it ends as if there were no such row. -/
structure IndexScanned (m : TableMemory) (id : ℤ) (ok : Bool) (m' : TableMemory)
    (found : RecordArray) : Prop where
  only : m.LookupOnly m.nextLock m'
  granted : (∀ outcome ∈ m.nextLock, outcome = true) → ∃ p : Option RecordPtr,
    bptreeSearch (m.buckets (tableBucketIndexForId id)).pkIndex id = some p ∧
      (ok = true ∧ found.rows = p.toList ∨
        ok = false ∧ found = .empty ∧ p ≠ none ∧ m.allocs.headD true = false)
  overlooked : false ∈ m.nextLock → ok = true ∧ found = .empty
  owns : ∀ owned, m.Owns owned → m'.Owns (found.ptr.toList ++ owned)

theorem tableFindByIdCondition_indexScanned {id : ℤ}
    (h : tableFindByIdCondition m .eq id = some (ok, m', records)) :
    IndexScanned m id ok m' records := by
  rw [tableFindByIdCondition, if_pos rfl] at h
  obtain ⟨⟨m₁, found⟩, hfind, h⟩ := Option.bind_eq_some_iff.mp h
  have hsearched := tableFindById_searched hfind
  cases found with
  | none =>
    cases h
    exact ⟨hsearched.only, fun hgranted => ⟨none, hsearched.granted hgranted, Or.inl ⟨rfl, rfl⟩⟩,
      fun _ => ⟨rfl, rfl⟩, hsearched.owns⟩
  | some p =>
    have happend := Option.some.inj h
    have happended := tableAppendRecord_appended happend
    have honly := hsearched.only.trans happended.memory.lookupOnly
    rw [List.append_nil] at honly
    refine ⟨honly, fun hgranted => ⟨some p, hsearched.granted hgranted, ?_⟩, fun hrefused => ?_,
      fun owned howned => happended.owns owned (hsearched.owns owned howned)⟩
    · cases ok with
      | true => exact Or.inl ⟨rfl, happended.rows rfl⟩
      | false =>
        -- the first array has no room
        have hfull : ¬ RecordArray.empty.rows.length < RecordArray.empty.capacity := by decide
        rw [tableAppendRecord, if_neg hfull] at happend
        dsimp only at happend
        rcases halloc : m₁.alloc with ⟨_ | _, m₂⟩ <;> rw [halloc] at happend <;> cases happend
        have hhead := (Prod.mk.inj halloc).1
        rw [hsearched.allocs] at hhead
        exact Or.inr ⟨rfl, rfl, Option.some_ne_none p, hhead⟩
    · cases hsearched.refused hrefused

/-! ### Lookups find records of the table -/

/-- The table holds the record: in the array of a bucket, or its index leads to it. -/
def TableMemory.HoldsRecord (m : TableMemory) (p : RecordPtr) : Prop :=
  ∃ b, p ∈ (m.buckets b).rows ∨ ∃ id, bptreeSearch (m.buckets b).pkIndex id = some (some p)

theorem tableSortRecordsById_perm (h : tableSortRecordsById m records = some records') :
    records'.rows.Perm records.rows := by
  unfold tableSortRecordsById at h
  split_ifs at h
  · cases h
    exact .refl _
  · obtain ⟨keyed, hkeyed, h⟩ := Option.bind_eq_some_iff.mp h
    cases h
    have hrows : ∀ {rows : List RecordPtr} {keyed : List (ℤ × RecordPtr)},
        (rows.mapM fun p => (m.record p).map fun r => (r.id, p)) = some keyed →
          keyed.map Prod.snd = rows := by
      intro rows
      induction rows with
      | nil =>
        intro keyed hkeyed
        cases hkeyed
        rfl
      | cons p rows ih =>
        intro keyed hkeyed
        rw [List.mapM_cons] at hkeyed
        obtain ⟨key, hkey, hkeyed⟩ := Option.bind_eq_some_iff.mp hkeyed
        obtain ⟨keys, hkeys, hkeyed⟩ := Option.bind_eq_some_iff.mp hkeyed
        obtain ⟨r, -, rfl⟩ := Option.map_eq_some_iff.mp hkey
        cases hkeyed
        rw [List.map_cons, ih hkeys]
    have hperm := (List.perm_insertionSort (fun left right : ℤ × RecordPtr => left.1 ≤ right.1)
      keyed).map Prod.snd
    rwa [hrows hkeyed] at hperm

theorem tableCollectAllSorted_holds (h : tableCollectAllSorted m = some (ok, m', records)) :
    ∀ p ∈ records.rows, m.HoldsRecord p := by
  intro p hp
  obtain ⟨collected, hcollected, hfailed, hsort⟩ := tableCollectAllSorted_cases h
  cases ok with
  | false =>
    rw [hfailed rfl, hcollected.empty rfl] at hp
    cases hp
  | true =>
    have hmem := (tableSortRecordsById_perm (hsort rfl)).mem_iff.mp hp
    rw [hcollected.rows rfl] at hmem
    obtain ⟨b, -, hb⟩ := List.mem_flatMap.mp hmem
    exact ⟨b, Or.inl hb⟩

theorem tableFindMatches_holds {test : Record → Bool}
    (h : tableFindMatches m test = some (ok, m', records)) :
    ∀ p ∈ records.rows, m.HoldsRecord p := by
  intro p hp
  obtain ⟨⟨ok₁, m₁, all⟩, hall, h⟩ := Option.bind_eq_some_iff.mp h
  cases ok₁ with
  | false =>
    cases h
    cases hp
  | true =>
    obtain ⟨⟨ok₂, m₂, kept⟩, hfilter, h⟩ := Option.bind_eq_some_iff.mp h
    cases ok₂ with
    | false =>
      cases h
      cases hp
    | true =>
      cases h
      rw [(tableFilterRows_appended hfilter).rows rfl] at hp
      exact tableCollectAllSorted_holds hall p (List.mem_of_mem_filter hp)

theorem IndexScanned.holds {id : ℤ} (h : IndexScanned m id ok m' records) :
    ∀ p ∈ records.rows, m.HoldsRecord p := by
  intro p hp
  by_cases hrefused : false ∈ m.nextLock
  · rw [(h.overlooked hrefused).2] at hp
    cases hp
  · have hgranted : ∀ outcome ∈ m.nextLock, outcome = true := by
      rintro (_ | _) houtcome
      · exact absurd houtcome hrefused
      · rfl
    obtain ⟨found, hsearch, ⟨-, hrows⟩ | ⟨-, hrecords, -⟩⟩ := h.granted hgranted
    · rw [hrows, Option.mem_toList] at hp
      rw [hp] at hsearch
      exact ⟨_, Or.inr ⟨id, hsearch⟩⟩
    · rw [hrecords] at hp
      cases hp

/-! ### Every lookup ends -/

section Total

variable {rs : Rows}

theorem tableCollectAllSorted_total (hs : m.HoldsRows rs) :
    ∃ res, tableCollectAllSorted m = some res := by
  obtain ⟨ok, m₁, records, hrun, hcollected⟩ :=
    tableCollectBuckets_collected (List.finRange tableBucketCount) m .empty
  cases ok with
  | false => exact ⟨_, bind_eq_of_eq_some hrun rfl⟩
  | true =>
    obtain ⟨used, honly, -⟩ := hcollected.only
    have hrows : records.rows = rs.all.map Prod.fst := by
      rw [hcollected.rows rfl, ← hs.rows_eq]
      rfl
    obtain ⟨sorted, hsort, -⟩ := tableSortRecordsById_spec
      (fun e he => (honly.record e.1).trans (hs.record_all he)) hrows
    exact ⟨_, bind_eq_of_eq_some hrun (bind_eq_of_eq_some hsort rfl)⟩

theorem tableFilterRows_total (test : Record → Bool) {rows : List RecordPtr}
    (hm : ∀ p ∈ rows, ∃ r, m.record p = some r) (records : RecordArray) :
    ∃ res, tableFilterRows m test records rows = some res := by
  induction rows generalizing m records with
  | nil => exact ⟨_, rfl⟩
  | cons p rows ih =>
    obtain ⟨r, hr⟩ := hm p List.mem_cons_self
    have hrest := fun q hq => hm q (List.mem_cons_of_mem p hq)
    rcases happend : tableAppendRecord m records p with ⟨_ | _, m₁, records₁⟩
    · obtain ⟨res, hres⟩ := ih hrest records
      by_cases htest : test r = true
      · exact ⟨_, bind_eq_of_eq_some hr (by rw [if_pos htest, happend])⟩
      · exact ⟨res, bind_eq_of_eq_some hr (by rw [if_neg htest]; exact hres)⟩
    · have hmemory := (tableAppendRecord_appended happend).memory.lookupOnly
      obtain ⟨res, hres⟩ := ih hrest records
      obtain ⟨res₁, hres₁⟩ := ih (m := m₁)
        (fun q hq => by rw [hmemory.record]; exact hrest q hq) records₁
      by_cases htest : test r = true
      · exact ⟨res₁, bind_eq_of_eq_some hr (by rw [if_pos htest, happend]; exact hres₁)⟩
      · exact ⟨res, bind_eq_of_eq_some hr (by rw [if_neg htest]; exact hres)⟩

theorem tableFindMatches_total (hs : m.HoldsRows rs) (test : Record → Bool) :
    ∃ res, tableFindMatches m test = some res := by
  obtain ⟨⟨ok, m₁, all⟩, hall⟩ := tableCollectAllSorted_total hs
  have hscanned := tableCollectAllSorted_scanned hall
  cases ok with
  | false => exact ⟨_, bind_eq_of_eq_some hall rfl⟩
  | true =>
    obtain ⟨used, honly, -⟩ := hscanned.only
    have hrecord : ∀ p ∈ all.rows, ∃ r, m₁.record p = some r := by
      intro p hp
      rw [hscanned.rows rfl rs hs] at hp
      obtain ⟨e, he, rfl⟩ := List.mem_map.mp hp
      exact ⟨e.2, (honly.record _).trans (hs.record_all ((List.mem_insertionSort _).mp he))⟩
    obtain ⟨⟨ok₂, m₂, kept⟩, hfilter⟩ := tableFilterRows_total test hrecord .empty
    cases ok₂ with
    | false => exact ⟨_, bind_eq_of_eq_some hall (bind_eq_of_eq_some hfilter rfl)⟩
    | true => exact ⟨_, bind_eq_of_eq_some hall (bind_eq_of_eq_some hfilter rfl)⟩

theorem tableFindById_total {id : ℤ} {p : Option RecordPtr}
    (hsearch : bptreeSearch (m.buckets (tableBucketIndexForId id)).pkIndex id = some p) :
    ∃ res, tableFindById m id = some res := by
  unfold tableFindById
  dsimp only
  rcases hlock : m.lock (.bucket (tableBucketIndexForId id)) with ⟨_ | _, m₁⟩
  · exact ⟨_, rfl⟩
  · obtain ⟨m', hunlock, -⟩ := lock_granted hlock (.refl m₁)
    have hm₁ := (lock_eq_true hlock).2
    subst hm₁
    exact ⟨_, bind_eq_of_eq_some hsearch (bind_eq_of_eq_some hunlock rfl)⟩

theorem tableFindByIdCondition_total (hs : m.HoldsRows rs) (comparison : TableComparison) {id : ℤ}
    {p : Option RecordPtr}
    (hsearch : bptreeSearch (m.buckets (tableBucketIndexForId id)).pkIndex id = some p) :
    ∃ res, tableFindByIdCondition m comparison id = some res := by
  unfold tableFindByIdCondition
  split_ifs with heq
  · obtain ⟨⟨m₁, found⟩, hfind⟩ := tableFindById_total hsearch
    cases found with
    | none => exact ⟨_, bind_eq_of_eq_some hfind rfl⟩
    | some p => exact ⟨_, bind_eq_of_eq_some hfind rfl⟩
  · exact tableFindMatches_total hs _

end Total

end Lookups

end MiniDbms
