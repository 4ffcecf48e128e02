import MiniDbms.Table.Equiv.LookupFailures

/-!
# Insertions when memory runs out

An insertion asks for memory for the array, for the record and for nodes of the index, in this
order. When the request for the first of these nodes, or one in front of it, is refused, the table
is as it was; when a later one is refused the index loses rows (`CutsIndex`); when none is refused,
the row is stored (`StoresRow`).  These conditions are about the memory before the call.
-/

namespace MiniDbms

open SortedAssoc CArray

namespace TableMemory

variable {m m' : TableMemory}

/-! ### The memory only -/

theorem MemoryOnly.unlocked (h : m.MemoryOnly m') (hu : m.Unlocked) : m'.Unlocked := by
  obtain ⟨_, _, _, rfl⟩ := h
  exact ⟨hu.lockResults, hu.held⟩

theorem MemoryOnly.stores (h : m.MemoryOnly m') {rs : Rows} (hs : m.Stores rs) : m'.Stores rs := by
  obtain ⟨_, _, _, rfl⟩ := h
  exact ⟨hs.rows, hs.capacity, hs.record, hs.bucket, hs.index⟩

theorem MemoryOnly.nextId (h : m.MemoryOnly m') : m'.nextId = m.nextId := by
  obtain ⟨_, _, _, rfl⟩ := h
  rfl

theorem memoryOnly_allocs (m : TableMemory) (allocs : List Bool) :
    m.MemoryOnly { m with allocs := allocs } := ⟨_, _, _, rfl⟩

end TableMemory

open TableMemory

/-! ### What a failed call must leave as it was -/

/-- Both lookups find the row with the ID of `r`, and it is `r`. -/
def TableMemory.Finds (m : TableMemory) (r : Record) : Prop :=
  ∃ p m₁ m₂, tableFindById m r.id = some (m₁, some p) ∧ tableScanById m r.id = some (m₂, some p) ∧
    m.record p = some r

/-- The rows of `m'` are those of `m`, and every one is still found. -/
structure TableMemory.Untouched (m m' : TableMemory) : Prop where
  rows : ∀ b, m'.recordsAt (m'.buckets b).rows = m.recordsAt (m.buckets b).rows
  found : ∀ b records, m.recordsAt (m.buckets b).rows = some records → ∀ r ∈ records, m'.Finds r

section Untouched

variable {m m' : TableMemory} {rs : Rows}

theorem TableMemory.Stores.recordsAt (hs : m.Stores rs) (b : Fin tableBucketCount) :
    m.recordsAt (m.buckets b).rows = some ((rs b).map Prod.snd) := by
  rw [hs.rows]
  exact recordsAt_map (hs.record b)

/-- A row that is stored is found. -/
theorem TableMemory.Stores.finds (hs : m.Stores rs) (hu : m.Unlocked) {b : Fin tableBucketCount}
    {e : Row} (he : e ∈ rs b) : m.Finds e.2 := by
  obtain ⟨found, hrun, hiff⟩ := tableFindById_spec hu hs e.2.id
  have hfound : found = some e.1 := (hiff e.1).mpr ⟨e.2, by rw [hs.bucket b e he]; exact he, rfl⟩
  have hscan : tableScanById m e.2.id = some (m, found) := by
    rw [hs.find_eq hiff]
    exact tableScanBuckets_spec hu hs e.2.id _
  rw [hfound] at hrun hscan
  exact ⟨e.1, m, m, hrun, hscan, hs.record b e he⟩

theorem TableMemory.Stores.untouched (hs : m.Stores rs) (hs' : m'.Stores rs) (hu' : m'.Unlocked) :
    m.Untouched m' where
  rows b := (hs'.recordsAt b).trans (hs.recordsAt b).symm
  found b records hrecords r hr := by
    rw [hs.recordsAt b] at hrecords
    cases hrecords
    obtain ⟨e, he, rfl⟩ := List.mem_map.mp hr
    exact hs'.finds hu' he

/-- One row more is a difference. -/
theorem TableMemory.Stores.not_untouched_add (hs : m.Stores rs) {e : Row}
    (hs' : m'.Stores (rs.add e)) : ¬ m.Untouched m' := by
  intro h
  have hrows := h.rows (tableBucketIndexForId e.2.id)
  rw [hs.recordsAt, hs'.recordsAt, Rows.add_self rfl, List.map_append] at hrows
  have hlength := congrArg List.length (Option.some.inj hrows)
  rw [List.length_append, List.length_map, List.length_map, List.length_singleton] at hlength
  omega

/-- A row that the index has lost is a difference. -/
theorem TableMemory.Stores.not_untouched_lost (hs : m.Stores rs) (hu' : m'.Unlocked) {e : Row}
    {b : Fin tableBucketCount} (he : e ∈ rs b) {t : List (ℤ × Option RecordPtr)}
    (ht : (m'.buckets b).pkIndex.Holds t) (hlost : e.2.id ∉ SortedAssoc.keys t) :
    ¬ m.Untouched m' := by
  intro h
  obtain ⟨p, m₁, m₂, hfind, -⟩ := h.found b _ (hs.recordsAt b) e.2 (List.mem_map_of_mem he)
  have hsearch := bptreeSearch_eq ht e.2.id
  rw [List.lookup_eq_none_iff.mpr fun q hq =>
    bne_iff_ne.mpr fun hid => hlost (List.mem_map.mpr ⟨q, hq, hid.symm⟩)] at hsearch
  unfold tableFindById at hfind
  dsimp only at hfind
  rw [hs.bucket b e he, hu'.lock] at hfind
  obtain ⟨found, hfound, hfind⟩ := Option.bind_eq_some_iff.mp hfind
  rw [show bptreeSearch _ _ = some none from hsearch] at hfound
  cases hfound
  obtain ⟨m₃, -, hfind⟩ := Option.bind_eq_some_iff.mp hfind
  cases hfind

end Untouched

/-! ### Insertions -/

namespace TableMemory

/-- The bucket of the next ID. -/
def nextBucket (m : TableMemory) : Fin tableBucketCount := tableBucketIndexForId m.nextId

/-- The number of the allocation that an insertion makes for the first node of the index. -/
def firstNode (m : TableMemory) : ℕ := m.growth m.nextBucket + 1

/-- How many nodes the index needs for the next ID. -/
def nodeCount (m : TableMemory) : ℕ :=
  bptreeNodesNeeded (m.buckets m.nextBucket).pkIndex m.nextId

/-- The index gets its first node, but not every other one that it needs. -/
def CutsIndex (m : TableMemory) : Prop :=
  (∀ i ≤ m.firstNode, m.Grants i) ∧ ∃ i < m.nodeCount, ¬ m.Grants (m.firstNode + i)

/-- The next ID is new, and there is memory for its row. -/
def StoresRow (m : TableMemory) : Prop :=
  bptreeContains (m.buckets m.nextBucket).pkIndex m.nextId = some false ∧
    ∀ i < m.firstNode + m.nodeCount, m.Grants i

/-- How an insertion can end. -/
inductive InsertOutcome (m : TableMemory) (rs : Rows) : TableMemory → Option RecordPtr → Prop
  /-- The row was stored. -/
  | stored {m' : TableMemory} {r : Record} (stores : m.StoresRow) (not_cuts : ¬ m.CutsIndex)
      (id_eq : r.id = m.nextId) (record : m'.record m.records.length = some r)
      (allocs : m'.allocs = m.allocs.drop (m.firstNode + m.nodeCount))
      (holds : m'.Stores (rs.add (m.records.length, r))) :
      InsertOutcome m rs m' (some m.records.length)
  /-- Nothing was stored. -/
  | kept {m' : TableMemory} (not_stores : ¬ m.StoresRow) (not_cuts : ¬ m.CutsIndex)
      (holds : m'.Stores rs) : InsertOutcome m rs m' none
  /-- The index has lost a row. -/
  | cut {m' : TableMemory} {b : Fin tableBucketCount} {e : Row} {t : List (ℤ × Option RecordPtr)}
      (not_stores : ¬ m.StoresRow) (cuts : m.CutsIndex) (mem : e ∈ rs b)
      (index : (m'.buckets b).pkIndex.Holds t) (lost : e.2.id ∉ SortedAssoc.keys t) :
      InsertOutcome m rs m' none

/-- The `i`-th allocation behind the first ones. -/
theorem grants_drop {m : TableMemory} {n i : ℕ} :
    (m.allocs.drop n).getD i true = true ↔ m.Grants (n + i) := by
  rw [Grants, List.getD_eq_getElem?_getD, List.getD_eq_getElem?_getD, List.getElem?_drop]

end TableMemory

/-- The arrays hold the rows `rs`, and every index is a tree, of whatever entries. -/
structure TableMemory.Formed (m : TableMemory) (rs : Rows) : Prop extends m.HoldsRows rs where
  index : ∀ b, ∃ t, (m.buckets b).pkIndex.Holds t

theorem TableMemory.Stores.formed {m : TableMemory} {rs : Rows} (hs : m.Stores rs) :
    m.Formed rs where
  toHoldsRows := hs.holdsRows
  index b := (hs.index b).imp fun _ h => h.1

theorem TableMemory.LookupOnly.formed {m m' : TableMemory} {used : List Bool}
    (h : m.LookupOnly used m') {rs : Rows} (hs : m.Formed rs) : m'.Formed rs where
  toHoldsRows := h.holdsRows hs.toHoldsRows
  index b := h.buckets ▸ hs.index b

/-- Storing a row keeps the form of the table, however it ends. -/
theorem StoreResult.formed {m m' : TableMemory} {rs : Rows} (hs : m.Formed rs) {id : ℤ}
    {b : Fin tableBucketCount} (hb : tableBucketIndexForId id = b)
    {t : List (ℤ × Option RecordPtr)} {name : CBytes} {age : ℤ} {found : Option RecordPtr}
    (ht : (m.buckets b).pkIndex.Holds t)
    (h : StoreResult m b t (storedRecord id name age) (m', found)) : ∃ rs', m'.Formed rs' := by
  subst hb
  have hindex : ∀ {index : BPTree RecordPtr}, (∃ t, index.Holds t) →
      ∀ rows capacity records allocs b', ∃ t, ((m.put (tableBucketIndexForId id)
        ⟨rows, capacity, index⟩ records allocs).buckets b').pkIndex.Holds t :=
    fun htree rows capacity records allocs =>
      put_index (P := fun _ index => ∃ t, index.Holds t) hs.index htree rows records allocs
  cases h with
  | refused le refused => exact ⟨rs, hs.put le _ [] _, hindex ⟨t, ht⟩ _ _ _ _⟩
  | @stored capacity h' lt granted index =>
    cases index with
    | added fresh nodes allocs holds =>
      exact ⟨_, hs.add (r := storedRecord id name age) rfl lt _ h'.allocs,
        hindex ⟨_, holds⟩ _ _ _ _⟩
  | @freed capacity h' lt granted index =>
    have htree : ∃ t, h'.toBPTree.Holds t := by
      cases index with
      | duplicate mem needed_eq allocs holds => exact ⟨_, holds⟩
      | refused fresh refused needed_pos holds => exact ⟨_, holds⟩
      | truncated fresh granted₁ refused insert_eq holds two_le lt => exact ⟨_, holds⟩
    exact ⟨rs, hs.put lt.le _ [none] h'.allocs, hindex htree _ _ _ _⟩

/-- What storing a row leaves as it was. -/
structure StoreKeeps (m m' : TableMemory) : Prop where
  nextId : m'.nextId = m.nextId
  lockResults : m'.lockResults = m.lockResults
  held : m'.held = m.held
  arrays : m'.arrays = m.arrays
  freedArrays : m'.freedArrays = m.freedArrays
  record : ∀ p r, m.record p = some r → m'.record p = some r

theorem storeKeeps_put (m : TableMemory) (b : Fin tableBucketCount) (bucket : TableBucket)
    (records : List (Option Record)) (allocs : List Bool) :
    StoreKeeps m (m.put b bucket records allocs) :=
  ⟨rfl, rfl, rfl, rfl, rfl, fun _ _ h => record_append h records⟩

theorem StoreResult.keeps {m m' : TableMemory} {b : Fin tableBucketCount}
    {t : List (ℤ × Option RecordPtr)} {r : Record} {found : Option RecordPtr}
    (h : StoreResult m b t r (m', found)) : StoreKeeps m m' := by
  cases h with
  | refused le refused => exact storeKeeps_put ..
  | stored lt granted index => exact storeKeeps_put ..
  | freed lt granted index => exact storeKeeps_put ..

/-- The row that was stored can be read. -/
theorem StoreResult.record_found {m m' : TableMemory} {b : Fin tableBucketCount}
    {t : List (ℤ × Option RecordPtr)} {r : Record} {found : Option RecordPtr}
    (h : StoreResult m b t r (m', found)) : ∀ p ∈ found, m'.record p = some r := by
  cases h with
  | refused le refused => exact nofun
  | stored lt granted index =>
    rintro p ⟨⟩
    show (m.records ++ [some r])[m.records.length]?.join = some r
    rw [List.getElem?_concat_length]
    rfl
  | freed lt granted index => exact nofun

/-- An insertion, whatever entries the indexes have lost; what was stored can be read. -/
theorem tableInsert_formed {m : TableMemory} {rs : Rows} (hu : m.Unlocked) (hs : m.Formed rs)
    (name : CBytes) (age : ℤ) :
    ∃ m' found rs', tableInsert m name age = some (m', found) ∧ m'.Unlocked ∧ m'.Formed rs' ∧
      (∀ p ∈ found, ∃ r, m'.record p = some r) ∧ ∀ owned, m.Owns owned → m'.Owns owned := by
  set m₁ : TableMemory := { m with nextId := intWrap (m.nextId + 1) } with hm₁
  have hs₁ : m₁.Formed rs := ⟨⟨hs.rows, hs.capacity, hs.record, hs.bucket⟩, hs.index⟩
  obtain ⟨t, ht⟩ := hs.index m.nextBucket
  obtain ⟨⟨m', found⟩, hrun, hres⟩ := tableStoreRow_result (m := m₁)
    (b := m.nextBucket) ⟨hu.lockResults, hu.held⟩ rfl
    (by rw [hs₁.rows, List.length_map]; exact hs.capacity _) ht name age
  obtain ⟨rs', hs'⟩ := hres.formed hs₁ rfl ht
  have hkeeps := hres.keeps
  refine ⟨m', found, rs', bind_eq_of_eq_some (tableIssueId_eq hu) hrun,
    ⟨hkeeps.lockResults.trans hu.lockResults, hkeeps.held.trans hu.held⟩, hs',
    fun p hp => ⟨_, hres.record_found p hp⟩, fun owned h => ?_⟩
  unfold Owns at *
  rw [hkeeps.arrays, hkeeps.freedArrays]
  exact h

/-- An insertion with enough memory: the table holds its rows, and what was stored can be read. -/
theorem tableInsert_of_memory {m : TableMemory} {rs : Rows} (hq : m.Quiet) (hs : m.Stores rs)
    (name : CBytes) (age : ℤ) :
    ∃ m' found, tableInsert m name age = some (m', found) ∧ m'.Quiet ∧ (∃ rs', m'.Stores rs') ∧
      ∀ p ∈ found, ∃ r, m'.record p = some r := by
  set m₁ : TableMemory := { m with nextId := intWrap (m.nextId + 1) } with hm₁
  have hq₁ : m₁.Quiet := ⟨hq.allocs, hq.lockResults, hq.held⟩
  have hs₁ : m₁.Stores rs := ⟨hs.rows, hs.capacity, hs.record, hs.bucket, hs.index⟩
  by_cases hid : ∃ e ∈ rs (tableBucketIndexForId m.nextId), e.2.id = m.nextId
  · obtain ⟨m', hrun, hq', hs', -⟩ := tableStoreRow_taken hq₁ hs₁ name age hid
    exact ⟨m', none, bind_eq_of_eq_some (tableIssueId_eq hq.unlocked) hrun, hq', ⟨rs, hs'⟩, nofun⟩
  · push Not at hid
    obtain ⟨m', hrun, hq', hs', -, hrecords⟩ := tableStoreRow_spec hq₁ hs₁ m.nextId name age hid
    refine ⟨m', _, bind_eq_of_eq_some (tableIssueId_eq hq.unlocked) hrun, hq', ⟨_, hs'⟩, ?_⟩
    rintro p ⟨⟩
    refine ⟨storedRecord m.nextId name age, ?_⟩
    rw [TableMemory.record, hrecords, List.getElem?_concat_length]
    rfl

/-- **An insertion**, for every pattern of allocation failures. -/
theorem tableInsert_outcome {m : TableMemory} {rs : Rows} (hu : m.Unlocked) (hs : m.Stores rs)
    (name : CBytes) (age : ℤ) :
    ∃ m' found, tableInsert m name age = some (m', found) ∧ m'.Unlocked ∧
      m'.nextId = intWrap (m.nextId + 1) ∧ m.InsertOutcome rs m' found := by
  set m₁ : TableMemory := { m with nextId := intWrap (m.nextId + 1) } with hm₁
  have hs₁ : m₁.Stores rs := ⟨hs.rows, hs.capacity, hs.record, hs.bucket, hs.index⟩
  obtain ⟨t, ht, hperm⟩ := hs.index m.nextBucket
  have hcontains := bptreeContains_eq ht m.nextId
  obtain ⟨⟨m', found⟩, hrun, hres⟩ := tableStoreRow_result (m := m₁)
    (b := m.nextBucket) ⟨hu.lockResults, hu.held⟩ rfl
    (by rw [hs₁.rows, List.length_map]; exact hs.capacity _) ht name age
  refine ⟨m', found, bind_eq_of_eq_some (tableIssueId_eq hu) hrun, ?_⟩
  have hgrants : ∀ {i : ℕ}, (m.allocs.drop m.firstNode).getD i true = true ↔
      m.Grants (m.firstNode + i) := TableMemory.grants_drop
  cases hres with
  | refused le refused =>
    -- no memory for the row array or for the record
    obtain ⟨i, hi, hrefused⟩ := refused
    refine ⟨⟨hu.lockResults, hu.held⟩, rfl, .kept (fun h => ?_) (fun h => ?_)
      (hs₁.put le ht hperm [] _)⟩
    · exact hrefused (h.2 i (Nat.lt_add_right _ hi))
    · exact hrefused (h.1 i hi.le)
  | @stored capacity h' lt granted index =>
    refine ⟨⟨hu.lockResults, hu.held⟩, rfl, ?_⟩
    cases index with
    | added fresh nodes allocs holds =>
      have hnodes : ∀ i < m.nodeCount, m.Grants (m.firstNode + i) :=
        fun i hi => hgrants.mp (nodes i hi)
      refine .stored ⟨?_, fun i hi => ?_⟩ ?_ rfl ?_ ?_
        (hs₁.add (r := storedRecord m.nextId name age) rfl lt holds hperm h'.allocs)
      · have hfresh : m.nextId ∉ SortedAssoc.keys t := fresh
        rw [hcontains, decide_eq_false hfresh]
      · rcases Nat.lt_or_ge i m.firstNode with hlt | hge
        · exact granted i hlt
        · have hi' := hnodes (i - m.firstNode) (by omega)
          rwa [Nat.add_sub_cancel' hge] at hi'
      · rintro ⟨-, i, hi, hrefused⟩
        exact hrefused (hnodes i hi)
      · show (m.records ++ [some (storedRecord m.nextId name age)])[m.records.length]?.join = _
        rw [List.getElem?_concat_length]
        rfl
      · exact allocs.trans (List.drop_drop ..)
  | @freed capacity h' lt granted index =>
    refine ⟨⟨hu.lockResults, hu.held⟩, rfl, ?_⟩
    cases index with
    | duplicate mem needed_eq allocs holds =>
      -- `bptree_insert` found the ID, and the record is freed again
      refine .kept (fun h => ?_) (fun h => ?_) (hs₁.put lt.le holds hperm [none] h'.allocs)
      · have hmem : m.nextId ∈ SortedAssoc.keys t := mem
        have hfalse := h.1
        rw [hcontains, decide_eq_true hmem] at hfalse
        cases hfalse
      · obtain ⟨-, i, hi, -⟩ := h
        exact absurd (show m.nodeCount = 0 from needed_eq) (by omega)
    | refused fresh refused needed_pos holds =>
      -- no memory for the first node: the index is as it was
      have hfirst : ¬ m.Grants m.firstNode := by
        intro hg
        apply refused
        rw [List.headD_eq_head?_getD, List.head?_drop, ← List.getD_eq_getElem?_getD]
        exact hg
      refine .kept (fun h => ?_) (fun h => ?_) (hs₁.put lt.le holds hperm [none] h'.allocs)
      · exact hfirst (h.2 _ (Nat.lt_add_of_pos_right needed_pos))
      · exact hfirst (h.1 _ le_rfl)
    | truncated fresh granted₁ refused insert_eq holds two_le lt =>
      -- no memory for a later node: a right half is lost
      obtain ⟨i, hi, hrefused⟩ := refused
      have hrefused' : ¬ m.Grants (m.firstNode + i) := fun hg => hrefused (hgrants.mpr hg)
      obtain ⟨key, hkey, hlost⟩ := exists_lost ht.sorted fresh insert_eq two_le
      obtain ⟨e, he, rfl⟩ := (mem_keys_iff hperm key).mp hkey
      refine .cut (fun h => ?_) ⟨fun j hj => ?_, i, hi, hrefused'⟩ he (b := m.nextBucket)
        (t := _) ?_ hlost
      · exact hrefused' (h.2 _ (Nat.add_lt_add_left hi _))
      · rcases Nat.lt_or_eq_of_le hj with hj | rfl
        · exact granted j hj
        · rw [List.headD_eq_head?_getD, List.head?_drop, ← List.getD_eq_getElem?_getD] at granted₁
          exact granted₁
      · rw [put_buckets]
        exact holds

end MiniDbms
