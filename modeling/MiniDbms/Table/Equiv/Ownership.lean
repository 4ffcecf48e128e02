import MiniDbms.Table.Equiv.Destroy
import MiniDbms.Table.Equiv.Failures

/-!
# Who owns what

A result array that was never allocated is empty (`RecordArray.Allocated`), so what is printed of it
depends on its rows only.

A record belongs to one row of the table (`OwnsRecords`): an insertion that fails, at whatever
allocation, has freed its record (`tableInsert_ownsRecords`).  Therefore `table_destroy`, which goes
over the rows, frees every record that was allocated, and none twice (`OwnsRecords.destroy`).

The index never leads to a record that was freed (`IndexesRows`), as long as the IDs ascend: the
node that is cut off behind a failed allocation takes the greatest key with it.
-/

namespace MiniDbms

open SortedAssoc CArray TableMemory

/-! ### Result arrays -/

/-- Without memory the array has no rows. -/
def RecordArray.Allocated (records : RecordArray) : Prop :=
  records.ptr = none → records.rows = [] ∧ records.capacity = 0

theorem allocated_empty : RecordArray.empty.Allocated := fun _ => ⟨rfl, rfl⟩

section Arrays

variable {m m' : TableMemory} {records records' : RecordArray} {ok : Bool}

theorem tableAppendRecord_allocated (hr : records.Allocated) {p : RecordPtr}
    (h : tableAppendRecord m records p = (ok, m', records')) : records'.Allocated := by
  unfold tableAppendRecord at h
  by_cases hlt : records.rows.length < records.capacity
  · rw [if_pos hlt] at h
    cases h
    intro hptr
    obtain ⟨-, hcapacity⟩ := hr hptr
    omega
  · rw [if_neg hlt] at h
    dsimp only at h
    rcases halloc : m.alloc with ⟨_ | _, m₁⟩ <;> rw [halloc] at h
    · cases h
      exact hr
    · cases hptr : records.ptr <;> rw [hptr] at h <;> cases h <;> exact nofun

theorem tableCollectRows_allocated {rows : List RecordPtr} (hr : records.Allocated)
    (h : tableCollectRows m records rows = (ok, m', records')) : records'.Allocated := by
  induction rows generalizing m records with
  | nil =>
    cases h
    exact hr
  | cons p rows ih =>
    rw [tableCollectRows] at h
    rcases happ : tableAppendRecord m records p with ⟨_ | _, m₁, records₁⟩ <;> rw [happ] at h
    · cases h
      exact allocated_empty
    · exact ih (tableAppendRecord_allocated hr happ) h

theorem tableCollectSection_allocated (hr : records.Allocated) {b : Fin tableBucketCount}
    (h : tableCollectSection m records b = some (ok, m', records')) : records'.Allocated := by
  unfold tableCollectSection at h
  rcases hlock : m.lock (.bucket b) with ⟨_ | _, m₁⟩ <;> rw [hlock] at h
  · cases h
    exact allocated_empty
  dsimp only at h
  rcases hrows : tableCollectRows m₁ records (m₁.buckets b).rows with ⟨_ | _, m₂, records₂⟩ <;>
    rw [hrows] at h <;> obtain ⟨m₃, -, h⟩ := Option.bind_eq_some_iff.mp h <;> cases h
  · exact allocated_empty
  · exact tableCollectRows_allocated hr hrows

theorem tableCollectBuckets_allocated {bs : List (Fin tableBucketCount)} (hr : records.Allocated)
    (h : tableCollectBuckets m records bs = some (ok, m', records')) : records'.Allocated := by
  induction bs generalizing m records with
  | nil =>
    cases h
    exact hr
  | cons b bs ih =>
    obtain ⟨⟨ok₁, m₁, records₁⟩, hsection, h⟩ := Option.bind_eq_some_iff.mp h
    have hr₁ := tableCollectSection_allocated hr hsection
    cases ok₁ with
    | false =>
      cases h
      exact hr₁
    | true => exact ih hr₁ h

theorem tableSortRecordsById_allocated (hr : records.Allocated)
    (h : tableSortRecordsById m records = some records') : records'.Allocated := by
  intro hptr
  rw [tableSortRecordsById_ptr h] at hptr
  obtain ⟨hrows, hcapacity⟩ := hr hptr
  rw [tableSortRecordsById, hrows, if_pos (by decide)] at h
  cases h
  exact ⟨hrows, hcapacity⟩

theorem tableCollectAllSorted_allocated
    (h : tableCollectAllSorted m = some (ok, m', records)) : records.Allocated := by
  obtain ⟨⟨ok₁, m₁, records₁⟩, hbuckets, h⟩ := Option.bind_eq_some_iff.mp h
  have hr₁ := tableCollectBuckets_allocated allocated_empty hbuckets
  cases ok₁ with
  | false =>
    cases h
    exact hr₁
  | true =>
    obtain ⟨sorted, hsort, h⟩ := Option.bind_eq_some_iff.mp h
    cases h
    exact tableSortRecordsById_allocated hr₁ hsort

theorem tableFilterRows_allocated {test : Record → Bool} {rows : List RecordPtr}
    (hr : records.Allocated) (h : tableFilterRows m test records rows = some (ok, m', records')) :
    records'.Allocated := by
  induction rows generalizing m records with
  | nil =>
    cases h
    exact hr
  | cons p rows ih =>
    obtain ⟨r, -, h⟩ := Option.bind_eq_some_iff.mp h
    split_ifs at h
    · rcases happ : tableAppendRecord m records p with ⟨_ | _, m₁, records₁⟩ <;> rw [happ] at h
      · cases h
        exact tableAppendRecord_allocated hr happ
      · exact ih (tableAppendRecord_allocated hr happ) h
    · exact ih hr h

theorem tableFindMatches_allocated {test : Record → Bool}
    (h : tableFindMatches m test = some (ok, m', records)) : records.Allocated := by
  obtain ⟨⟨ok₁, m₁, all⟩, -, h⟩ := Option.bind_eq_some_iff.mp h
  cases ok₁ with
  | false =>
    cases h
    exact allocated_empty
  | true =>
    obtain ⟨⟨ok₂, m₂, found⟩, hfilter, h⟩ := Option.bind_eq_some_iff.mp h
    cases ok₂ <;> cases h
    · exact allocated_empty
    · exact tableFilterRows_allocated allocated_empty hfilter

theorem tableFindByIdCondition_allocated {comparison : TableComparison} {id : ℤ}
    (h : tableFindByIdCondition m comparison id = some (ok, m', records)) : records.Allocated := by
  unfold tableFindByIdCondition at h
  split_ifs at h
  · obtain ⟨⟨m₁, found⟩, -, h⟩ := Option.bind_eq_some_iff.mp h
    cases found with
    | none =>
      cases h
      exact allocated_empty
    | some p => exact tableAppendRecord_allocated allocated_empty (Option.some.inj h)
  · exact tableFindMatches_allocated h

end Arrays

/-! ### Records -/

/-- Every record belongs to one row. -/
structure TableMemory.OwnsRecords (m : TableMemory) : Prop where
  nodup : m.rows.Nodup
  mem_rows : ∀ p r, m.record p = some r → p ∈ m.rows

section Records

variable {m m' : TableMemory} {rs : Rows}

/-- The records that were allocated and not freed. -/
def TableMemory.allocated (m : TableMemory) : List RecordPtr :=
  (List.range m.records.length).filter fun p => (m.record p).isSome

theorem TableMemory.mem_allocated {p : RecordPtr} : p ∈ m.allocated ↔ ∃ r, m.record p = some r := by
  unfold allocated
  rw [List.mem_filter, List.mem_range, Option.isSome_iff_exists, and_iff_right_iff_imp]
  rintro ⟨r, hr⟩
  rw [TableMemory.record, Option.join_eq_some_iff] at hr
  exact (List.getElem?_eq_some_iff.mp hr).1

theorem TableMemory.allocated_eq_nil (h : ∀ p, m.record p = none) : m.allocated = [] := by
  refine List.eq_nil_iff_forall_not_mem.mpr fun p hp => ?_
  obtain ⟨r, hr⟩ := mem_allocated.mp hp
  rw [h p] at hr
  cases hr

/-- The rows of the table are the records that were allocated. -/
theorem TableMemory.OwnsRecords.allocated_perm (h : m.OwnsRecords) (hs : m.HoldsRows rs) :
    m.allocated.Perm m.rows := by
  refine (List.perm_ext_iff_of_nodup (List.nodup_range.filter _) h.nodup).mpr fun p => ?_
  refine mem_allocated.trans ⟨fun ⟨r, hr⟩ => h.mem_rows p r hr, fun hp => ?_⟩
  rw [hs.rows_eq] at hp
  obtain ⟨e, he, rfl⟩ := List.mem_map.mp hp
  exact ⟨e.2, hs.record_all he⟩

theorem ownsRecords_start (allocs lockResults : List Bool) :
    (TableMemory.start allocs lockResults).OwnsRecords := by
  have hrows : (TableMemory.start allocs lockResults).rows = [] :=
    List.flatMap_eq_nil_iff.mpr fun _ _ => rfl
  refine ⟨by rw [hrows]; exact List.nodup_nil, fun p r h => ?_⟩
  cases h

/-- Only result arrays are allocated or freed. -/
theorem TableMemory.MemoryOnly.ownsRecords (h : m.MemoryOnly m') (hm : m.OwnsRecords) :
    m'.OwnsRecords := by
  obtain ⟨arrays, freed, allocs, rfl⟩ := h
  exact ⟨hm.nodup, hm.mem_rows⟩

/-- Storing a row, however it ends. -/
theorem StoreResult.ownsRecords (h : m.OwnsRecords) (hs : m.HoldsRows rs) {id : ℤ}
    {b : Fin tableBucketCount} (hb : tableBucketIndexForId id = b)
    {t : List (ℤ × Option RecordPtr)} {name : CBytes} {age : ℤ} {found : Option RecordPtr}
    (hres : StoreResult m b t (storedRecord id name age) (m', found)) : m'.OwnsRecords := by
  -- the record is freed again when the index does not take it
  have hkept : ∀ {capacity : ℕ} (_ : (m.buckets b).rows.length ≤ capacity)
      (index : BPTree RecordPtr) (records : List (Option Record)) (_ : ∀ r ∈ records, r = none)
      (allocs : List Bool),
      (m.put b ⟨(m.buckets b).rows, capacity, index⟩ records allocs).OwnsRecords := by
    intro capacity hle index records hnone allocs
    have hrows := (hs.put hle index records allocs).rows_eq.trans hs.rows_eq.symm
    refine ⟨by rw [hrows]; exact h.nodup, fun p r hp => ?_⟩
    rw [hrows]
    refine h.mem_rows p r ?_
    rw [TableMemory.record, Option.join_eq_some_iff] at hp ⊢
    change (m.records ++ records)[p]? = some (some r) at hp
    rw [List.getElem?_append] at hp
    split_ifs at hp with hlt
    · exact hp
    · cases hnone _ (List.mem_of_getElem? hp)
  cases hres with
  | refused le refused => exact hkept le _ [] (fun _ hr => absurd hr List.not_mem_nil) _
  | @freed capacity h' lt granted index =>
    exact hkept lt.le _ [none] (fun r hr => List.mem_singleton.mp hr) _
  | @stored capacity h' lt granted index =>
    set e : Row := (m.records.length, storedRecord id name age) with he
    have hadd := hs.add (r := storedRecord id name age) hb lt h'.toBPTree h'.allocs
    have hrows : (m.put b ⟨(m.buckets b).rows ++ [m.records.length], capacity, h'.toBPTree⟩
        [some (storedRecord id name age)] h'.allocs).rows.Perm (m.records.length :: m.rows) := by
      rw [hadd.rows_eq, hs.rows_eq]
      exact (Rows.all_add rs e).map Prod.fst
    have hnew : m.records.length ∉ m.rows := by
      intro hmem
      rw [hs.rows_eq] at hmem
      obtain ⟨row, hrow, hptr⟩ := List.mem_map.mp hmem
      have hrecord := hs.record_all hrow
      rw [hptr, TableMemory.record, List.getElem?_eq_none le_rfl] at hrecord
      cases hrecord
    refine ⟨hrows.nodup_iff.mpr (List.nodup_cons.mpr ⟨hnew, h.nodup⟩), fun p r hp => ?_⟩
    rw [hrows.mem_iff, List.mem_cons]
    rw [TableMemory.record, Option.join_eq_some_iff] at hp
    change (m.records ++ [some (storedRecord id name age)])[p]? = some (some r) at hp
    rw [List.getElem?_append] at hp
    split_ifs at hp with hlt
    · refine Or.inr (h.mem_rows p r ?_)
      rw [TableMemory.record, Option.join_eq_some_iff]
      exact hp
    · have hlength := (List.getElem?_eq_some_iff.mp hp).1
      rw [List.length_singleton] at hlength
      exact Or.inl (Nat.eq_of_le_of_lt_succ (not_lt.mp hlt) (by omega))

/-- **An insertion**, whatever allocations fail, leaves no record behind that is not in a row. -/
theorem tableInsert_ownsRecords (h : m.OwnsRecords) (hu : m.Unlocked) (hs : m.Formed rs)
    {name : CBytes} {age : ℤ} {found : Option RecordPtr}
    (hrun : tableInsert m name age = some (m', found)) : m'.OwnsRecords := by
  set m₁ : TableMemory := { m with nextId := intWrap (m.nextId + 1) } with hm₁
  have hs₁ : m₁.HoldsRows rs := ⟨hs.rows, hs.capacity, hs.record, hs.bucket⟩
  have h₁ : m₁.OwnsRecords := ⟨h.nodup, h.mem_rows⟩
  obtain ⟨t, ht⟩ := hs.index m.nextBucket
  obtain ⟨⟨m₂, found₂⟩, hstore, hres⟩ := tableStoreRow_result (m := m₁) (b := m.nextBucket)
    ⟨hu.lockResults, hu.held⟩ rfl (by rw [hs₁.rows, List.length_map]; exact hs.capacity _) ht name
    age
  obtain ⟨⟨m₃, id⟩, hissue, hrun⟩ := Option.bind_eq_some_iff.mp hrun
  rw [tableIssueId_eq hu] at hissue
  cases hissue
  cases hstore.symm.trans hrun
  exact hres.ownsRecords h₁ hs₁ rfl

/-! ### Destruction -/

theorem tableFreeRows_arrays {rows : List RecordPtr} (h : tableFreeRows m rows = some m') :
    m'.arrays = m.arrays ∧ m'.freedArrays = m.freedArrays := by
  induction rows generalizing m with
  | nil =>
    cases h
    exact ⟨rfl, rfl⟩
  | cons p rows ih =>
    obtain ⟨m₁, hfree, h⟩ := Option.bind_eq_some_iff.mp h
    obtain ⟨harrays, hfreed⟩ := ih h
    unfold TableMemory.freeRecord at hfree
    split_ifs at hfree
    cases hfree
    exact ⟨harrays, hfreed⟩

theorem tableDestroyBuckets_arrays {bs : List (Fin tableBucketCount)}
    (h : tableDestroyBuckets m bs = some m') :
    m'.arrays = m.arrays ∧ m'.freedArrays = m.freedArrays := by
  induction bs generalizing m with
  | nil =>
    cases h
    exact ⟨rfl, rfl⟩
  | cons b bs ih =>
    obtain ⟨m₁, hfree, h⟩ := Option.bind_eq_some_iff.mp h
    obtain ⟨harrays, hfreed⟩ := tableFreeRows_arrays hfree
    obtain ⟨harrays', hfreed'⟩ := ih h
    exact ⟨harrays'.trans harrays, hfreed'.trans hfreed⟩

/-- **`table_destroy` frees every record**, once, and no result array. -/
theorem TableMemory.OwnsRecords.destroy (h : m.OwnsRecords) (hs : m.HoldsRows rs) :
    ∃ m', tableDestroy m = some m' ∧ (∀ p, m'.record p = none) ∧
      ∀ owned, m.Owns owned → m'.Owns owned := by
  obtain ⟨m', hrun, hfreed, hkept⟩ := tableDestroyBuckets_spec
    (List.nodup_finRange tableBucketCount) h.nodup fun b _ p hp => by
      rw [hs.rows b] at hp
      obtain ⟨e, he, rfl⟩ := List.mem_map.mp hp
      exact ⟨e.2, hs.record b e he⟩
  obtain ⟨harrays, hfreedArrays⟩ := tableDestroyBuckets_arrays hrun
  refine ⟨m', hrun, fun p => ?_, fun owned howned => ?_⟩
  · by_cases hp : p ∈ m.rows
    · obtain ⟨b, hb, hp⟩ := List.mem_flatMap.mp hp
      exact hfreed b hb p hp
    · rw [hkept p hp, Option.eq_none_iff_forall_ne_some]
      intro r hr
      exact hp (h.mem_rows p r hr)
  · unfold TableMemory.Owns at howned ⊢
    rw [harrays, hfreedArrays]
    exact howned

end Records

/-! ### Where the index leads -/

/-- The entries of the index lead to rows, and their keys are below a bound. -/
def BPTree.LeadsTo (index : BPTree RecordPtr) (rows : List RecordPtr) (bound : ℤ) : Prop :=
  ∃ t, index.Holds t ∧ ∀ e ∈ t, e.1 < bound ∧ ∃ p ∈ rows, e.2 = some p

/-- The index of a bucket leads to rows of the bucket, under IDs that were issued. -/
structure TableMemory.IndexesRows (m : TableMemory) : Prop where
  pos : 0 < m.nextId
  leadsTo : ∀ b, (m.buckets b).pkIndex.LeadsTo (m.buckets b).rows m.nextId

section Index

variable {m m' : TableMemory} {rs : Rows}

theorem BPTree.LeadsTo.mono {index : BPTree RecordPtr} {rows rows' : List RecordPtr}
    {bound bound' : ℤ} (h : index.LeadsTo rows bound) (hrows : ∀ p ∈ rows, p ∈ rows')
    (hbound : bound ≤ bound') : index.LeadsTo rows' bound' := by
  obtain ⟨t, ht, hentries⟩ := h
  refine ⟨t, ht, fun e he => ?_⟩
  obtain ⟨hlt, p, hp, heq⟩ := hentries e he
  exact ⟨hlt.trans_le hbound, p, hrows p hp, heq⟩

theorem indexesRows_start (allocs lockResults : List Bool) :
    (TableMemory.start allocs lockResults).IndexesRows :=
  ⟨one_pos, fun _ => ⟨[], bptreeCreate_holds, fun _ he => absurd he List.not_mem_nil⟩⟩

theorem TableMemory.MemoryOnly.indexesRows (h : m.MemoryOnly m') (hm : m.IndexesRows) :
    m'.IndexesRows := by
  obtain ⟨arrays, freed, allocs, rfl⟩ := h
  exact ⟨hm.pos, hm.leadsTo⟩

/-- A record that the table holds is not freed. -/
theorem TableMemory.IndexesRows.record (h : m.IndexesRows) (hs : m.HoldsRows rs) {p : RecordPtr}
    (hp : m.HoldsRecord p) : ∃ r, m.record p = some r := by
  have hrow : ∃ b, p ∈ (m.buckets b).rows := by
    obtain ⟨b, hp | ⟨id, hsearch⟩⟩ := hp
    · exact ⟨b, hp⟩
    · obtain ⟨t, ht, hentries⟩ := h.leadsTo b
      rw [bptreeSearch_eq ht, Option.some.injEq, Option.join_eq_some_iff,
        ht.sorted.lookup_eq_some_iff] at hsearch
      obtain ⟨-, q, hq, heq⟩ := hentries _ hsearch
      cases heq
      exact ⟨b, hq⟩
  obtain ⟨b, hp⟩ := hrow
  rw [hs.rows b, List.mem_map] at hp
  obtain ⟨e, he, rfl⟩ := hp
  exact ⟨e.2, hs.record b e he⟩

/-- What the index holds behind an insertion that has not stored its row: entries it has held. -/
theorem InsertResult.leadsTo {h h' : BPHeap RecordPtr} {t : List (ℤ × Option RecordPtr)} {id : ℤ}
    {v : Option RecordPtr} {rows : List RecordPtr}
    (ht : ∀ e ∈ t, e.1 < id ∧ ∃ p ∈ rows, e.2 = some p)
    (hres : InsertResult h t (id, v) (h', false)) : h'.toBPTree.LeadsTo rows id := by
  cases hres with
  | duplicate mem needed_eq allocs holds => exact ⟨t, holds, ht⟩
  | refused fresh refused needed_pos holds => exact ⟨t, holds, ht⟩
  | truncated fresh granted refused insert_eq holds two_le lt =>
    have hlost := List.ne_nil_of_length_pos (Nat.lt_of_lt_of_le Nat.two_pos two_le)
    have hold := mem_of_cut (fun e he => (ht e he).1) insert_eq hlost lt
    exact ⟨_, holds, fun e he => ht e (hold e he)⟩

/-- Storing a row under the greatest ID, however it ends. -/
theorem StoreResult.leadsTo {id : ℤ} {b : Fin tableBucketCount}
    (h : ∀ b, (m.buckets b).pkIndex.LeadsTo (m.buckets b).rows id)
    {t : List (ℤ × Option RecordPtr)}
    (hentries : ∀ e ∈ t, e.1 < id ∧ ∃ p ∈ (m.buckets b).rows, e.2 = some p)
    {name : CBytes} {age : ℤ} {found : Option RecordPtr}
    (hres : StoreResult m b t (storedRecord id name age) (m', found)) :
    ∀ b', (m'.buckets b').pkIndex.LeadsTo (m'.buckets b').rows (id + 1) := by
  intro b'
  have hother : ∀ (bucket : TableBucket) (records : List (Option Record)) (allocs : List Bool),
      bucket.pkIndex.LeadsTo bucket.rows (id + 1) →
        ((m.put b bucket records allocs).buckets b').pkIndex.LeadsTo
          ((m.put b bucket records allocs).buckets b').rows (id + 1) := by
    intro bucket records allocs hbucket
    by_cases hne : b' = b
    · rw [hne, put_buckets]
      exact hbucket
    · rw [put_buckets_of_ne hne]
      exact (h b').mono (fun _ hp => hp) (Int.le_add_one le_rfl)
  cases hres with
  | refused le refused =>
    exact hother _ _ _ ((h b).mono (fun _ hp => hp) (Int.le_add_one le_rfl))
  | freed lt granted index =>
    exact hother _ _ _ ((index.leadsTo hentries).mono (fun _ hp => hp) (Int.le_add_one le_rfl))
  | stored lt granted index =>
    apply hother
    cases index with
    | added fresh nodes allocs holds =>
      refine ⟨_, holds, fun e he => ?_⟩
      rcases mem_insertEntry.mp he with rfl | he
      · exact ⟨Int.lt_add_one_iff.mpr le_rfl, _, List.mem_append_right _ List.mem_cons_self, rfl⟩
      · obtain ⟨hlt, p, hp, heq⟩ := hentries e he
        exact ⟨hlt.trans (Int.lt_add_one_iff.mpr le_rfl), p, List.mem_append_left _ hp, heq⟩

/-- **An insertion**, whatever allocations fail, leaves no index that leads to a freed record, as
long as there is a greater ID. -/
theorem tableInsert_indexesRows (h : m.IndexesRows) (hu : m.Unlocked) (hs : m.Formed rs)
    (hlt : m.nextId + 1 < 2 ^ 31) {name : CBytes} {age : ℤ} {found : Option RecordPtr}
    (hrun : tableInsert m name age = some (m', found)) :
    m'.IndexesRows ∧ m'.nextId = m.nextId + 1 := by
  have hpos := h.pos
  have hwrap : intWrap (m.nextId + 1) = m.nextId + 1 := intWrap_eq (by omega) hlt
  set m₁ : TableMemory := { m with nextId := intWrap (m.nextId + 1) } with hm₁
  obtain ⟨t, ht, hentries⟩ := h.leadsTo m.nextBucket
  obtain ⟨⟨m₂, found₂⟩, hstore, hres⟩ := tableStoreRow_result (m := m₁) (b := m.nextBucket)
    ⟨hu.lockResults, hu.held⟩ rfl
    (by show (m.buckets _).rows.length ≤ _; rw [hs.rows, List.length_map]; exact hs.capacity _)
    ht name age
  obtain ⟨⟨m₃, id⟩, hissue, hrun⟩ := Option.bind_eq_some_iff.mp hrun
  rw [tableIssueId_eq hu] at hissue
  cases hissue
  cases hstore.symm.trans hrun
  have hnext : m'.nextId = m.nextId + 1 := hres.keeps.nextId.trans hwrap
  have hleads := hres.leadsTo (m := m₁) h.leadsTo hentries
  exact ⟨⟨by omega, fun b => hnext ▸ hleads b⟩, hnext⟩

end Index

end MiniDbms
