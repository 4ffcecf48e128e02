import MiniDbms.Table.Equiv.Store

/-!
# The sections of the table operations, without failures

`TableMemory.Stores m rs` says that bucket `b` of the table holds the rows `rs b`, each with the
record it points to, in its array and in its index.  `TableMemory.Quiet m` says that no allocation
or lock call will fail and that no lock is held.

Each section takes a quiet memory to a quiet one: `tableIssueId_eq` takes the next ID,
`tableStoreRow_spec` appends one row to one bucket, `tableFindById_spec` and
`tableCollectSection_spec` read one bucket.
-/

namespace MiniDbms

open SortedAssoc CArray

/-- A row: the pointer and the record it points to. -/
abbrev Row := RecordPtr × Record

/-- What the buckets hold. -/
abbrev Rows := Fin tableBucketCount → List Row

namespace TableMemory

/-- The buckets of the table hold the rows `rs`. -/
structure Stores (m : TableMemory) (rs : Rows) : Prop where
  rows : ∀ b, (m.buckets b).rows = (rs b).map Prod.fst
  capacity : ∀ b, (rs b).length ≤ (m.buckets b).capacity
  record : ∀ b, ∀ e ∈ rs b, m.record e.1 = some e.2
  bucket : ∀ b, ∀ e ∈ rs b, tableBucketIndexForId e.2.id = b
  index : ∀ b, ∃ t, (m.buckets b).pkIndex.Holds t ∧
    t.Perm ((rs b).map fun e => (e.2.id, some e.1))

/-- The arrays of the buckets hold the rows `rs`, whatever the indexes hold. -/
structure HoldsRows (m : TableMemory) (rs : Rows) : Prop where
  rows : ∀ b, (m.buckets b).rows = (rs b).map Prod.fst
  capacity : ∀ b, (rs b).length ≤ (m.buckets b).capacity
  record : ∀ b, ∀ e ∈ rs b, m.record e.1 = some e.2
  bucket : ∀ b, ∀ e ∈ rs b, tableBucketIndexForId e.2.id = b

theorem Stores.holdsRows {m : TableMemory} {rs : Rows} (h : m.Stores rs) : m.HoldsRows rs :=
  ⟨h.rows, h.capacity, h.record, h.bucket⟩

/-- Nothing will fail, and no lock is held. -/
structure Quiet (m : TableMemory) : Prop where
  allocs : m.allocs = []
  lockResults : m.lockResults = []
  held : m.held = []

theorem Quiet.unlocked {m : TableMemory} (h : m.Quiet) : m.Unlocked := ⟨h.lockResults, h.held⟩

/-- `m'` differs from `m` in the bookkeeping of result arrays only. -/
def ArraysOnly (m m' : TableMemory) : Prop :=
  ∃ arrays freed, m' = { m with arrays := arrays, freedArrays := freed }

theorem ArraysOnly.refl (m : TableMemory) : m.ArraysOnly m := ⟨m.arrays, m.freedArrays, rfl⟩

theorem ArraysOnly.trans {m m' m'' : TableMemory} (h : m.ArraysOnly m') (h' : m'.ArraysOnly m'') :
    m.ArraysOnly m'' := by
  obtain ⟨a, f, rfl⟩ := h
  obtain ⟨a', f', rfl⟩ := h'
  exact ⟨a', f', rfl⟩

theorem ArraysOnly.quiet {m m' : TableMemory} (h : m.ArraysOnly m') (hq : m.Quiet) : m'.Quiet := by
  obtain ⟨a, f, rfl⟩ := h
  exact ⟨hq.allocs, hq.lockResults, hq.held⟩

theorem ArraysOnly.stores {m m' : TableMemory} (h : m.ArraysOnly m') {rs : Rows}
    (hs : m.Stores rs) : m'.Stores rs := by
  obtain ⟨a, f, rfl⟩ := h
  exact ⟨hs.rows, hs.capacity, hs.record, hs.bucket, hs.index⟩

theorem ArraysOnly.record {m m' : TableMemory} (h : m.ArraysOnly m') (p : RecordPtr) :
    m'.record p = m.record p := by
  obtain ⟨a, f, rfl⟩ := h
  rfl

theorem ArraysOnly.nextId {m m' : TableMemory} (h : m.ArraysOnly m') : m'.nextId = m.nextId := by
  obtain ⟨a, f, rfl⟩ := h
  rfl

/-- IDs do not repeat within a bucket. -/
theorem Stores.nodup_ids {m : TableMemory} {rs : Rows} (h : m.Stores rs)
    (b : Fin tableBucketCount) : ((rs b).map fun e => e.2.id).Nodup := by
  obtain ⟨t, ht, hperm⟩ := h.index b
  have hnd := ht.sorted.nodup_keys
  have hmap : (SortedAssoc.keys t).Perm ((rs b).map fun e => e.2.id) := by
    have := hperm.map Prod.fst
    rwa [List.map_map] at this
  exact hmap.nodup_iff.mp hnd

/-- The index of a bucket finds exactly its rows. -/
theorem Stores.search {m : TableMemory} {rs : Rows} (h : m.Stores rs) (b : Fin tableBucketCount)
    (id : ℤ) :
    ∃ p, bptreeSearch (m.buckets b).pkIndex id = some p ∧
      ∀ q, p = some q ↔ ∃ r, (q, r) ∈ rs b ∧ r.id = id := by
  obtain ⟨t, ht, hperm⟩ := h.index b
  refine ⟨_, bptreeSearch_eq ht id, fun q => ?_⟩
  have hmem : ∀ v, t.lookup id = some v ↔ ∃ e ∈ rs b, e.2.id = id ∧ some e.1 = v := fun v => by
    rw [ht.sorted.lookup_eq_some_iff, hperm.mem_iff, List.mem_map]
    simp only [Prod.mk.injEq]
  rw [Option.join_eq_some_iff, hmem]
  constructor
  · rintro ⟨e, he, hid, heq⟩
    cases heq
    exact ⟨e.2, he, hid⟩
  · rintro ⟨r, hr, hid⟩
    exact ⟨(q, r), hr, hid, rfl⟩

section Put

variable {m : TableMemory} {rs : Rows} {b : Fin tableBucketCount} {capacity : ℕ}

/-- What holds of the index of every bucket still holds when one bucket gets another. -/
theorem put_index {P : Fin tableBucketCount → BPTree RecordPtr → Prop}
    (h : ∀ b', P b' (m.buckets b').pkIndex) {index : BPTree RecordPtr} (hb : P b index)
    (rows : List RecordPtr) (records : List (Option Record)) (allocs : List Bool)
    (b' : Fin tableBucketCount) :
    P b' ((m.put b ⟨rows, capacity, index⟩ records allocs).buckets b').pkIndex := by
  by_cases hbb : b' = b
  · subst hbb
    rwa [put_buckets]
  · rw [put_buckets_of_ne hbb]
    exact h b'

/-- Other outcomes of the allocations, more records and another index do not matter. -/
theorem HoldsRows.put (h : m.HoldsRows rs) (hle : (m.buckets b).rows.length ≤ capacity)
    (index : BPTree RecordPtr) (records : List (Option Record)) (allocs : List Bool) :
    (m.put b ⟨(m.buckets b).rows, capacity, index⟩ records allocs).HoldsRows rs := by
  refine ⟨fun b' => ?_, fun b' => ?_, fun b' e he => record_append (h.record b' e he) _, h.bucket⟩
  · rw [← h.rows]
    by_cases hbb : b' = b
    · subst hbb
      rw [put_buckets]
    · rw [put_buckets_of_ne hbb]
  · by_cases hbb : b' = b
    · subst hbb
      rw [put_buckets]
      rwa [h.rows, List.length_map] at hle
    · rw [put_buckets_of_ne hbb]
      exact h.capacity b'

theorem Stores.put (h : m.Stores rs) (hle : (m.buckets b).rows.length ≤ capacity)
    {index : BPTree RecordPtr} {t : List (ℤ × Option RecordPtr)} (ht : index.Holds t)
    (hperm : t.Perm ((rs b).map fun e => (e.2.id, some e.1))) (records : List (Option Record))
    (allocs : List Bool) :
    (m.put b ⟨(m.buckets b).rows, capacity, index⟩ records allocs).Stores rs := by
  obtain ⟨hrows, hcapacity, hrecord, hbucket⟩ := h.holdsRows.put hle index records allocs
  refine ⟨hrows, hcapacity, hrecord, hbucket, ?_⟩
  exact put_index (P := fun b' index => ∃ t, index.Holds t ∧
    t.Perm ((rs b').map fun e => (e.2.id, some e.1))) h.index ⟨t, ht, hperm⟩ _ records allocs

end Put

end TableMemory

open TableMemory

/-! ### Issuing an ID -/

theorem intWrap_eq {x : ℤ} (hle : -2 ^ 31 ≤ x) (hlt : x < 2 ^ 31) : intWrap x = x := by
  unfold intWrap
  apply Int.bmod_eq_of_le <;> omega

/-- The first section of an insertion takes the next ID. -/
theorem tableIssueId_eq {m : TableMemory} (h : m.Unlocked) :
    tableIssueId m = some ({ m with nextId := intWrap (m.nextId + 1) }, some m.nextId) := by
  unfold tableIssueId
  rw [h.lock]
  refine bind_eq_of_eq_some (unlock_single rfl) ?_
  have := h.held
  cases m
  cases this
  rfl

/-! ### Storing a row -/

/-- The rows after one more was stored. -/
def Rows.add (rs : Rows) (e : Row) : Rows :=
  Function.update rs (tableBucketIndexForId e.2.id) (rs (tableBucketIndexForId e.2.id) ++ [e])

theorem Rows.add_self {rs : Rows} {e : Row} {b : Fin tableBucketCount}
    (h : tableBucketIndexForId e.2.id = b) : rs.add e b = rs b ++ [e] := by
  subst h
  exact Function.update_self _ _ _

theorem Rows.add_of_ne {rs : Rows} {e : Row} {b : Fin tableBucketCount}
    (h : tableBucketIndexForId e.2.id ≠ b) : rs.add e b = rs b :=
  Function.update_of_ne (Ne.symm h) _ _

theorem Rows.mem_add {rs : Rows} {e e' : Row} {b : Fin tableBucketCount} :
    e' ∈ rs.add e b ↔ e' ∈ rs b ∨ e' = e ∧ tableBucketIndexForId e.2.id = b := by
  rw [Rows.add, Function.update_apply]
  split_ifs with hb
  · subst hb
    simp
  · have hb' : tableBucketIndexForId e.2.id ≠ b := fun h => hb h.symm
    simp [hb']

section Add

variable {m : TableMemory} {rs : Rows} {b : Fin tableBucketCount} {r : Record} {capacity : ℕ}

/-- A memory whose arrays hold one row more. -/
theorem TableMemory.HoldsRows.add (h : m.HoldsRows rs) (hb : tableBucketIndexForId r.id = b)
    (hlt : (m.buckets b).rows.length < capacity) (index : BPTree RecordPtr) (allocs : List Bool) :
    (m.put b ⟨(m.buckets b).rows ++ [m.records.length], capacity, index⟩ [some r] allocs).HoldsRows
      (rs.add (m.records.length, r)) := by
  have hadd : rs.add (m.records.length, r) b = rs b ++ [(m.records.length, r)] := Rows.add_self hb
  have hadd' : ∀ b' ≠ b, rs.add (m.records.length, r) b' = rs b' := fun b' hbb =>
    Rows.add_of_ne fun h0 => hbb (h0.symm.trans hb)
  refine ⟨fun b' => ?_, fun b' => ?_, fun b' e he => ?_, fun b' e he => ?_⟩
  · by_cases hbb : b' = b
    · subst hbb
      rw [hadd, List.map_append, ← h.rows, put_buckets]
      rfl
    · rw [hadd' b' hbb, ← h.rows, put_buckets_of_ne hbb]
  · by_cases hbb : b' = b
    · subst hbb
      rw [h.rows, List.length_map] at hlt
      rw [hadd, List.length_append, List.length_singleton, put_buckets]
      exact Nat.succ_le_of_lt hlt
    · rw [hadd' b' hbb, put_buckets_of_ne hbb]
      exact h.capacity b'
  · rcases Rows.mem_add.mp he with he | ⟨rfl, -⟩
    · exact record_append (h.record b' e he) _
    · show (m.records ++ [some r])[m.records.length]?.join = some r
      rw [List.getElem?_concat_length]
      rfl
  · rcases Rows.mem_add.mp he with he | ⟨rfl, hbb⟩
    · exact h.bucket b' e he
    · exact hbb

/-- A memory that stores one row more. -/
theorem TableMemory.Stores.add (h : m.Stores rs) (hb : tableBucketIndexForId r.id = b)
    (hlt : (m.buckets b).rows.length < capacity) {index : BPTree RecordPtr}
    {t : List (ℤ × Option RecordPtr)}
    (ht : index.Holds (insertEntry (r.id, some m.records.length) t))
    (hperm : t.Perm ((rs b).map fun e => (e.2.id, some e.1))) (allocs : List Bool) :
    (m.put b ⟨(m.buckets b).rows ++ [m.records.length], capacity, index⟩ [some r] allocs).Stores
      (rs.add (m.records.length, r)) := by
  obtain ⟨hrows, hcapacity, hrecord, hbucket⟩ := h.holdsRows.add hb hlt index allocs
  refine ⟨hrows, hcapacity, hrecord, hbucket, fun b' => ?_⟩
  by_cases hbb : b' = b
  · subst hbb
    rw [put_buckets, Rows.add_self hb, List.map_append]
    refine ⟨_, ht, ?_⟩
    exact (perm_insertEntry _ _).trans ((hperm.cons _).trans (List.perm_append_singleton _ _).symm)
  · rw [Rows.add_of_ne fun h0 => hbb (h0.symm.trans hb), put_buckets_of_ne hbb]
    exact h.index b'

end Add

/-- The keys of the index are the IDs of the rows. -/
theorem mem_keys_iff {es : List Row} {t : List (ℤ × Option RecordPtr)}
    (hperm : t.Perm (es.map fun e => (e.2.id, some e.1))) (id : ℤ) :
    id ∈ SortedAssoc.keys t ↔ ∃ e ∈ es, e.2.id = id := by
  have hkeys : (SortedAssoc.keys t).Perm (es.map fun e => e.2.id) := by
    have := hperm.map Prod.fst
    rwa [List.map_map] at this
  rw [hkeys.mem_iff, List.mem_map]

/-- With memory, every allocation is granted. -/
theorem TableMemory.Quiet.grants {m : TableMemory} (h : m.Quiet) (i : ℕ) : m.Grants i := by
  rw [Grants, h.allocs]
  rfl

/-- **The second section of an insertion whose ID is taken** stores nothing. -/
theorem tableStoreRow_taken {m : TableMemory} {rs : Rows} (hq : m.Quiet) (hs : m.Stores rs)
    {id : ℤ} (name : CBytes) (age : ℤ) (hid : ∃ e ∈ rs (tableBucketIndexForId id), e.2.id = id) :
    ∃ m', tableStoreRow m id name age = some (m', none) ∧ m'.Quiet ∧ m'.Stores rs ∧
      m'.nextId = m.nextId := by
  obtain ⟨t, ht, hperm⟩ := hs.index (tableBucketIndexForId id)
  have hkey := (mem_keys_iff hperm id).mpr hid
  obtain ⟨res, hrun, hres⟩ := tableStoreRow_result hq.unlocked rfl
    (by rw [hs.rows, List.length_map]; exact hs.capacity _) ht name age
  cases hres with
  | refused _ refused =>
    obtain ⟨i, -, hi⟩ := refused
    exact absurd (hq.grants i) hi
  | stored _ _ index =>
    cases index with
    | added fresh => exact absurd hkey fresh
  | @freed capacity h' lt _ index =>
    cases index with
    | duplicate _ _ allocs holds =>
      have hallocs := allocs.trans (show _ = [] by simp only [hq.allocs, List.drop_nil])
      have hstores := hs.put lt.le holds hperm [none] h'.allocs
      exact ⟨_, hrun, ⟨hallocs, hq.lockResults, hq.held⟩, hstores, rfl⟩
    | refused fresh => exact absurd hkey fresh
    | truncated fresh => exact absurd hkey fresh

/-- **The second section of an insertion** appends one row to the bucket of its ID. -/
theorem tableStoreRow_spec {m : TableMemory} {rs : Rows} (hq : m.Quiet) (hs : m.Stores rs) (id : ℤ)
    (name : CBytes) (age : ℤ) (hid : ∀ e ∈ rs (tableBucketIndexForId id), e.2.id ≠ id) :
    ∃ m', tableStoreRow m id name age = some (m', some m.records.length) ∧ m'.Quiet ∧
      m'.Stores (rs.add (m.records.length, storedRecord id name age)) ∧ m'.nextId = m.nextId ∧
      m'.records = m.records ++ [some (storedRecord id name age)] := by
  obtain ⟨t, ht, hperm⟩ := hs.index (tableBucketIndexForId id)
  have hkey : id ∉ SortedAssoc.keys t := by
    rw [mem_keys_iff hperm]
    rintro ⟨e, he, hek⟩
    exact hid e he hek
  obtain ⟨res, hrun, hres⟩ := tableStoreRow_result hq.unlocked rfl
    (by rw [hs.rows, List.length_map]; exact hs.capacity _) ht name age
  cases hres with
  | refused _ refused =>
    obtain ⟨i, -, hi⟩ := refused
    exact absurd (hq.grants i) hi
  | @stored capacity h' lt _ index =>
    cases index with
    | added _ _ allocs holds =>
      have hallocs := allocs.trans (show _ = [] by simp only [hq.allocs, List.drop_nil])
      have hstores := hs.add (r := storedRecord id name age) rfl lt holds hperm h'.allocs
      exact ⟨_, hrun, ⟨hallocs, hq.lockResults, hq.held⟩, hstores, rfl, rfl⟩
  | freed _ _ index =>
    cases index with
    | duplicate mem => exact absurd mem hkey
    | refused _ refused => simp [hq.allocs] at refused
    | truncated _ _ refused => simp [hq.allocs] at refused

/-! ### Reading a bucket -/

/-- A section that only reads leaves the memory as it was. -/
theorem tableFindById_spec {m : TableMemory} {rs : Rows} (hu : m.Unlocked) (hs : m.Stores rs)
    (id : ℤ) :
    ∃ p, tableFindById m id = some (m, p) ∧
      ∀ q, p = some q ↔ ∃ r, (q, r) ∈ rs (tableBucketIndexForId id) ∧ r.id = id := by
  obtain ⟨p, hp, hiff⟩ := hs.search (tableBucketIndexForId id) id
  refine ⟨p, ?_, hiff⟩
  unfold tableFindById
  dsimp only
  rw [hu.lock]
  refine bind_eq_of_eq_some hp (bind_eq_of_eq_some (unlock_single rfl) ?_)
  rw [← hu.held]

/-- Appending to a result array. -/
theorem tableAppendRecord_spec {m : TableMemory} (hallocs : m.allocs = []) (records : RecordArray)
    (p : RecordPtr) :
    ∃ m' records', tableAppendRecord m records p = (true, m', records') ∧ m.ArraysOnly m' ∧
      records'.rows = records.rows ++ [p] := by
  have halloc : m.alloc = (true, m) := by
    rw [TableMemory.alloc, hallocs]
    simp only [List.headD_nil, List.tail_nil]
    rw [← hallocs]
  unfold tableAppendRecord
  dsimp only
  rw [halloc]
  split_ifs with hlt
  · exact ⟨m, _, rfl, .refl m, rfl⟩
  all_goals
    cases records.ptr with
    | none => exact ⟨_, _, rfl, ⟨_, _, rfl⟩, rfl⟩
    | some ptr => exact ⟨_, _, rfl, .refl m, rfl⟩

/-- The rows of one bucket go behind those already collected. -/
theorem tableCollectRows_spec (rows : List RecordPtr) {m : TableMemory} (hallocs : m.allocs = [])
    (records : RecordArray) :
    ∃ m' records', tableCollectRows m records rows = (true, m', records') ∧ m.ArraysOnly m' ∧
      records'.rows = records.rows ++ rows := by
  induction rows generalizing m records with
  | nil => exact ⟨m, records, rfl, .refl m, by rw [List.append_nil]⟩
  | cons p rows ih =>
    obtain ⟨m₁, records₁, hrun, hm₁, hrows₁⟩ := tableAppendRecord_spec hallocs records p
    have hallocs₁ : m₁.allocs = [] := by
      obtain ⟨a, f, rfl⟩ := hm₁
      exact hallocs
    obtain ⟨m', records', hrun', hm', hrows'⟩ := ih hallocs₁ records₁
    refine ⟨m', records', ?_, hm₁.trans hm', ?_⟩
    · rw [tableCollectRows, hrun]
      exact hrun'
    · rw [hrows', hrows₁, List.append_assoc, List.singleton_append]

/-- **One round of a collection** reads one bucket. -/
theorem tableCollectSection_spec {m : TableMemory} {rs : Rows} (hq : m.Quiet) (hs : m.Stores rs)
    (records : RecordArray) (b : Fin tableBucketCount) :
    ∃ m' records', tableCollectSection m records b = some (true, m', records') ∧
      m.ArraysOnly m' ∧ records'.rows = records.rows ++ (rs b).map Prod.fst := by
  obtain ⟨m₁, records', hrun, ⟨a, f, rfl⟩, hrows⟩ := tableCollectRows_spec (m.buckets b).rows
    (m := { m with held := [.bucket b] }) hq.allocs records
  refine ⟨{ m with arrays := a, freedArrays := f }, records', ?_, ⟨a, f, rfl⟩, by
    rw [hrows, hs.rows]⟩
  unfold tableCollectSection
  rw [hq.unlocked.lock]
  dsimp only
  rw [hrun]
  refine bind_eq_of_eq_some (unlock_single rfl) ?_
  simp only [hq.held]

/-! ### Collecting, sorting, filtering -/

/-- The rows of all buckets, bucket by bucket. -/
def Rows.all (rs : Rows) : List Row := (List.finRange tableBucketCount).flatMap rs

/-- A whole collection without anything in between. -/
theorem tableCollectBuckets_spec (bs : List (Fin tableBucketCount)) {m : TableMemory} {rs : Rows}
    (hq : m.Quiet) (hs : m.Stores rs) (records : RecordArray) :
    ∃ m' records', tableCollectBuckets m records bs = some (true, m', records') ∧
      m.ArraysOnly m' ∧ records'.rows = records.rows ++ (bs.flatMap rs).map Prod.fst := by
  induction bs generalizing m records with
  | nil => exact ⟨m, records, rfl, .refl m, by simp⟩
  | cons b bs ih =>
    obtain ⟨m₁, records₁, hrun, hm₁, hrows₁⟩ := tableCollectSection_spec hq hs records b
    obtain ⟨m', records', hrun', hm', hrows'⟩ := ih (hm₁.quiet hq) (hm₁.stores hs) records₁
    refine ⟨m', records', bind_eq_of_eq_some hrun hrun', hm₁.trans hm', ?_⟩
    rw [hrows', hrows₁, List.flatMap_cons, List.map_append, List.append_assoc]

/-- Rows in ascending order of their IDs. -/
def sortRows (es : List Row) : List Row := es.insertionSort fun left right => left.2.id ≤ right.2.id

theorem pairwise_sortRows (es : List Row) :
    (sortRows es).Pairwise fun left right => left.2.id ≤ right.2.id := by
  have : Std.Total fun left right : Row => left.2.id ≤ right.2.id :=
    ⟨fun left right => le_total left.2.id right.2.id⟩
  have : IsTrans Row fun left right => left.2.id ≤ right.2.id :=
    ⟨fun _ _ _ hab hbc => le_trans hab hbc⟩
  exact List.pairwise_insertionSort _ _

/-- The sort reads the IDs through the pointers. -/
theorem tableSortRecordsById_spec {m : TableMemory} {es : List Row}
    (hm : ∀ e ∈ es, m.record e.1 = some e.2) {records : RecordArray}
    (hrows : records.rows = es.map Prod.fst) :
    ∃ records', tableSortRecordsById m records = some records' ∧
      records'.rows = (sortRows es).map Prod.fst ∧ records'.ptr = records.ptr := by
  unfold tableSortRecordsById
  split_ifs with hlen
  · refine ⟨records, rfl, ?_, rfl⟩
    rw [hrows, List.length_map] at hlen
    rw [hrows, sortRows]
    match es, hlen with
    | [], _ => rfl
    | [e], _ => rfl
  · have hkeyed : (records.rows.mapM fun p => (m.record p).map fun r => (r.id, p)) =
        some (es.map fun e => (e.2.id, e.1)) := by
      rw [hrows]
      clear hrows hlen
      induction es with
      | nil => rfl
      | cons e es ih =>
        rw [List.map_cons, List.mapM_cons, hm e List.mem_cons_self,
          ih fun e' he' => hm e' (List.mem_cons_of_mem _ he')]
        rfl
    refine ⟨_, bind_eq_of_eq_some hkeyed rfl, ?_, rfl⟩
    have hsort := List.map_insertionSort (fun left right : Row => left.2.id ≤ right.2.id)
      (fun left right : ℤ × RecordPtr => left.1 ≤ right.1) (fun e => (e.2.id, e.1)) es
      fun _ _ _ _ => Iff.rfl
    simp only [← hsort, List.map_map, sortRows]
    rfl

/-- **A whole collection**: every row, in ascending order of the IDs. -/
theorem tableCollectAllSorted_spec {m : TableMemory} {rs : Rows} (hq : m.Quiet)
    (hs : m.Stores rs) :
    ∃ m' records, tableCollectAllSorted m = some (true, m', records) ∧ m.ArraysOnly m' ∧
      records.rows = (sortRows rs.all).map Prod.fst := by
  obtain ⟨m', records, hrun, hm', hrows⟩ :=
    tableCollectBuckets_spec (List.finRange tableBucketCount) hq hs .empty
  have hrec : ∀ e ∈ rs.all, m'.record e.1 = some e.2 := fun e he => by
    obtain ⟨b, -, he⟩ := List.mem_flatMap.mp he
    rw [hm'.record]
    exact hs.record b e he
  obtain ⟨records', hsort, hrows', -⟩ := tableSortRecordsById_spec hrec hrows
  exact ⟨m', records', bind_eq_of_eq_some hrun (bind_eq_of_eq_some hsort rfl), hm', hrows'⟩

/-- Keeping what matches. -/
theorem tableFilterRows_spec (test : Record → Bool) (es : List Row) {m : TableMemory}
    (hallocs : m.allocs = []) (hm : ∀ e ∈ es, m.record e.1 = some e.2) (records : RecordArray) :
    ∃ m' records', tableFilterRows m test records (es.map Prod.fst) = some (true, m', records') ∧
      m.ArraysOnly m' ∧
      records'.rows = records.rows ++ (es.filter fun e => test e.2).map Prod.fst := by
  induction es generalizing m records with
  | nil => exact ⟨m, records, rfl, .refl m, by simp⟩
  | cons e es ih =>
    have he := hm e List.mem_cons_self
    have hes : ∀ e' ∈ es, m.record e'.1 = some e'.2 := fun e' he' =>
      hm e' (List.mem_cons_of_mem _ he')
    by_cases htest : test e.2 = true
    · obtain ⟨m₁, records₁, hrun, hm₁, hrows₁⟩ := tableAppendRecord_spec hallocs records e.1
      have hallocs₁ : m₁.allocs = [] := by
        obtain ⟨a, f, rfl⟩ := hm₁
        exact hallocs
      obtain ⟨m', records', hrun', hm', hrows'⟩ :=
        ih hallocs₁ (fun e' he' => (hm₁.record _).trans (hes e' he')) records₁
      refine ⟨m', records', bind_eq_of_eq_some he ?_, hm₁.trans hm', ?_⟩
      · rw [if_pos htest, hrun]
        exact hrun'
      · have hfilter : (e :: es).filter (fun e => test e.2) = e :: es.filter fun e => test e.2 :=
          List.filter_cons_of_pos htest
        rw [hrows', hrows₁, hfilter, List.map_cons, List.append_assoc,
          List.singleton_append]
    · obtain ⟨m', records', hrun', hm', hrows'⟩ := ih hallocs hes records
      refine ⟨m', records', bind_eq_of_eq_some he ?_, hm', ?_⟩
      · rw [if_neg htest]
        exact hrun'
      · have hfilter : (e :: es).filter (fun e => test e.2) = es.filter fun e => test e.2 :=
          List.filter_cons_of_neg htest
        rw [hrows', hfilter]

/-- What a filtering lookup makes of the collected rows. -/
theorem tableFilterRecords_spec (test : Record → Bool) {es : List Row} {m : TableMemory}
    (hallocs : m.allocs = []) (hm : ∀ e ∈ es, m.record e.1 = some e.2) {all : RecordArray}
    (hrows : all.rows = es.map Prod.fst) :
    ∃ m' records, tableFilterRecords m test all = some (true, m', records) ∧ m.ArraysOnly m' ∧
      records.rows = (es.filter fun e => test e.2).map Prod.fst := by
  obtain ⟨m', records, hrun, hm', hrows'⟩ := tableFilterRows_spec test es hallocs hm .empty
  rw [← hrows] at hrun
  refine ⟨tableFreeArray m' all, records, bind_eq_of_eq_some hrun rfl, hm'.trans ?_, hrows'⟩
  unfold tableFreeArray
  split
  · exact .refl m'
  · exact ⟨_, _, rfl⟩

end MiniDbms
