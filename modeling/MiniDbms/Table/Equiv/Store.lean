import MiniDbms.BPTree.Equiv.Map
import MiniDbms.Table.Locking

/-!
# Storing a row, whatever allocations fail

The second section of an insertion asks for memory for a longer array (`growth`), for the record,
and for nodes of the index.  `tableStoreRow_result` says how it ends: one of the first two requests
is refused, and nothing happens but that the array may have grown; or the index is asked to take the
record, and `InsertResult` says what becomes of that.
-/

namespace MiniDbms

open SortedAssoc CArray

namespace TableMemory

variable {m : TableMemory}

/-- No lock is held, and no lock call will fail. -/
structure Unlocked (m : TableMemory) : Prop where
  lockResults : m.lockResults = []
  held : m.held = []

theorem Unlocked.lock (h : m.Unlocked) (l : TableLock) :
    m.lock l = (true, { m with held := [l] }) := by
  rw [TableMemory.lock, h.lockResults, h.held]
  rfl

/-- Leaving a section. -/
theorem unlock_single {l : TableLock} (h : m.held = [l]) :
    m.unlock l = some { m with held := [] } := by
  rw [TableMemory.unlock, h]
  simp

/-- The `i`-th of the coming allocations is granted. -/
def Grants (m : TableMemory) (i : ℕ) : Prop := m.allocs.getD i true = true

theorem grants_zero : m.Grants 0 ↔ m.allocs.headD true = true := by
  rw [Grants, List.getD_eq_getElem?_getD, ← List.head?_eq_getElem?, ← List.headD_eq_head?_getD]

/-- How many allocations `table_ensure_capacity` makes. -/
def growth (m : TableMemory) (b : Fin tableBucketCount) : ℕ :=
  if (m.buckets b).rows.length < (m.buckets b).capacity then 0 else 1

/-- Another bucket in the place of bucket `b`, more records, and other outcomes of the coming
allocations. -/
def put (m : TableMemory) (b : Fin tableBucketCount) (bucket : TableBucket)
    (records : List (Option Record)) (allocs : List Bool) : TableMemory :=
  { m with
    buckets := Function.update m.buckets b bucket
    records := m.records ++ records
    allocs := allocs }

section Put

variable {b : Fin tableBucketCount} {bucket : TableBucket} {records : List (Option Record)}
  {allocs : List Bool}

theorem put_buckets : (m.put b bucket records allocs).buckets b = bucket :=
  Function.update_self b _ _

theorem put_buckets_of_ne {b' : Fin tableBucketCount} (h : b' ≠ b) :
    (m.put b bucket records allocs).buckets b' = m.buckets b' :=
  Function.update_of_ne h _ _

/-- A record stays where it is when others are added. -/
theorem record_append {q : RecordPtr} {r : Record} (h : m.record q = some r)
    (rest : List (Option Record)) : (m.records ++ rest)[q]?.join = some r := by
  have hlt : q < m.records.length := by
    by_contra hge
    rw [TableMemory.record, List.getElem?_eq_none (not_lt.mp hge)] at h
    cases h
  rw [List.getElem?_append_left hlt]
  exact h

theorem newRecord_put (r : Record) : (m.put b bucket [] allocs).newRecord r =
    (m.records.length, m.put b bucket [some r] allocs) := by
  simp only [newRecord, put, List.append_nil]

theorem setBucket_put (bucket' : TableBucket) (allocs' : List Bool) :
    ({ (m.put b bucket records allocs).setBucket b bucket' with allocs := allocs' } : TableMemory) =
      m.put b bucket' records allocs' := by
  simp only [put, setBucket, Function.update_idem]

theorem appendRow_put {p : RecordPtr} (hlt : bucket.rows.length < bucket.capacity) :
    (m.put b bucket records allocs).appendRow b p =
      some (m.put b { bucket with rows := bucket.rows ++ [p] } records allocs) := by
  rw [appendRow, put_buckets]
  simp only [if_pos hlt, put, setBucket, Function.update_idem]

theorem freeRecord_put {r : Record} : (m.put b bucket [some r] allocs).freeRecord m.records.length =
    some (m.put b bucket [none] allocs) := by
  have hrecord : (m.put b bucket [some r] allocs).record m.records.length = some r := by
    show (m.records ++ [some r])[m.records.length]?.join = some r
    rw [List.getElem?_concat_length]
    rfl
  have hset : (m.records ++ [some r]).set m.records.length none = m.records ++ [none] := by
    rw [List.set_append_right _ _ le_rfl, Nat.sub_self]
    rfl
  rw [freeRecord, hrecord, Option.isSome_some, if_pos rfl]
  simp only [put, hset]

end Put

/-- `table_ensure_capacity` without memory. -/
theorem tableEnsureCapacity_refused {b : Fin tableBucketCount} (hgrowth : m.growth b = 1)
    (h : ¬ m.Grants 0) :
    tableEnsureCapacity m b = (false, m.put b (m.buckets b) [] m.allocs.tail) := by
  rw [grants_zero] at h
  unfold tableEnsureCapacity growth at *
  split_ifs at hgrowth with hlt
  simp only [if_neg hlt, TableMemory.alloc, Bool.eq_false_iff.mpr h, put, Function.update_eq_self,
    List.append_nil]

/-- `table_ensure_capacity` with memory, when it needs some. -/
theorem tableEnsureCapacity_granted {b : Fin tableBucketCount}
    (hle : (m.buckets b).rows.length ≤ (m.buckets b).capacity)
    (h : ∀ i < m.growth b, m.Grants i) :
    ∃ capacity, (m.buckets b).rows.length < capacity ∧ tableEnsureCapacity m b =
      (true, m.put b { m.buckets b with capacity := capacity } []
        (m.allocs.drop (m.growth b))) := by
  by_cases hlt : (m.buckets b).rows.length < (m.buckets b).capacity
  · have hgrowth : m.growth b = 0 := if_pos hlt
    refine ⟨(m.buckets b).capacity, hlt, ?_⟩
    unfold tableEnsureCapacity
    rw [if_pos hlt, hgrowth, List.drop_zero, put, Function.update_eq_self, List.append_nil]
  · have hgrowth : m.growth b = 1 := if_neg hlt
    have hgrant := grants_zero.mp (h 0 (by omega))
    refine ⟨if (m.buckets b).capacity = 0 then 8 else (m.buckets b).capacity * 2, ?_, ?_⟩
    · split_ifs <;> omega
    · unfold tableEnsureCapacity
      simp only [if_neg hlt, TableMemory.alloc, hgrant, hgrowth, put, setBucket, List.append_nil,
        List.drop_one]

end TableMemory

open TableMemory

/-! ### The section -/

/-- The record that an insertion stores: `strncpy` keeps the first 63 bytes of the name. -/
def storedRecord (id : ℤ) (name : CBytes) (age : ℤ) : Record :=
  ⟨id, name.take (recordNameSize - 1), age⟩

/-- A name that fits is stored as it is. -/
theorem storedRecord_eq {name : CBytes} (h : name.length < recordNameSize) (id age : ℤ) :
    storedRecord id name age = ⟨id, name, age⟩ := by
  unfold storedRecord
  rw [List.take_of_length_le (Nat.le_sub_one_of_lt h)]

/-- How storing the record `r` in bucket `b` can end, when the index holds the entries `t`. -/
inductive StoreResult (m : TableMemory) (b : Fin tableBucketCount) (t : List (ℤ × Option RecordPtr))
    (r : Record) : TableMemory × Option RecordPtr → Prop
  /-- There was no memory for the array or for the record. -/
  | refused {capacity : ℕ} {allocs : List Bool}
      (le : (m.buckets b).rows.length ≤ capacity)
      (refused : ∃ i < m.growth b + 1, ¬ m.Grants i) :
      StoreResult m b t r (m.put b { m.buckets b with capacity := capacity } [] allocs, none)
  /-- The index has taken the record. -/
  | stored {capacity : ℕ} {h' : BPHeap RecordPtr} (lt : (m.buckets b).rows.length < capacity)
      (granted : ∀ i < m.growth b + 1, m.Grants i)
      (index : InsertResult ⟨(m.buckets b).pkIndex, m.allocs.drop (m.growth b + 1)⟩ t
        (r.id, some m.records.length) (h', true)) :
      StoreResult m b t r
        (m.put b ⟨(m.buckets b).rows ++ [m.records.length], capacity, h'.toBPTree⟩ [some r]
          h'.allocs,
          some m.records.length)
  /-- The index has not taken it, and the record was freed. -/
  | freed {capacity : ℕ} {h' : BPHeap RecordPtr} (lt : (m.buckets b).rows.length < capacity)
      (granted : ∀ i < m.growth b + 1, m.Grants i)
      (index : InsertResult ⟨(m.buckets b).pkIndex, m.allocs.drop (m.growth b + 1)⟩ t
        (r.id, some m.records.length) (h', false)) :
      StoreResult m b t r
        (m.put b ⟨(m.buckets b).rows, capacity, h'.toBPTree⟩ [none] h'.allocs, none)

/-- What happens between the lock and the unlock is the same without the lock. -/
theorem put_unlocked {m : TableMemory} (hu : m.Unlocked) {held : List TableLock}
    (b : Fin tableBucketCount) (bucket : TableBucket) (records : List (Option Record))
    (allocs : List Bool) :
    ({ ({ m with held := held } : TableMemory).put b bucket records allocs with held := [] } :
      TableMemory) = m.put b bucket records allocs := by
  have hheld := hu.held
  cases m
  cases hheld
  rfl

/-- What `table_insert` returns. -/
def StoreEnd.record : StoreEnd → Option RecordPtr
  | .stored record => some record
  | _ => none

/-- **The second section of an insertion**, between its two calls of the lock, for every pattern of
allocation failures. -/
theorem tableStoreRowLocked_result {m : TableMemory} (id : ℤ) {b : Fin tableBucketCount}
    (hle : (m.buckets b).rows.length ≤ (m.buckets b).capacity) {t : List (ℤ × Option RecordPtr)}
    (ht : (m.buckets b).pkIndex.Holds t) (name : CBytes) (age : ℤ) :
    ∃ m' e, tableStoreRowLocked b id name age m = some (m', e) ∧
      StoreResult m b t (storedRecord id name age) (m', e.record) := by
  unfold tableStoreRowLocked
  by_cases hgrowth : ∀ i < m.growth b, m.Grants i
  · obtain ⟨capacity, hlt, hensure⟩ := tableEnsureCapacity_granted hle hgrowth
    rw [hensure]
    dsimp only
    -- the request for the record
    have halloc : (m.put b { m.buckets b with capacity := capacity } []
        (m.allocs.drop (m.growth b))).alloc = (m.allocs.getD (m.growth b) true,
          m.put b { m.buckets b with capacity := capacity } []
            (m.allocs.drop (m.growth b + 1))) := by
      have hhead : (m.allocs.drop (m.growth b)).headD true = m.allocs.getD (m.growth b) true := by
        rw [List.headD_eq_head?_getD, List.head?_drop, List.getD_eq_getElem?_getD]
      rw [TableMemory.alloc, ← List.tail_drop]
      exact congrArg (·, _) hhead
    rw [halloc]
    cases hgrant : m.allocs.getD (m.growth b) true with
    | false =>
      refine ⟨_, .noRecord, rfl, .refused hlt.le ⟨m.growth b, by omega, ?_⟩⟩
      rw [Grants, hgrant]
      exact Bool.false_ne_true
    | true =>
      have hgranted : ∀ i < m.growth b + 1, m.Grants i := by
        intro i hi
        rcases Nat.lt_succ_iff_lt_or_eq.mp hi with hi | rfl
        · exact hgrowth i hi
        · exact hgrant
      dsimp only
      rw [newRecord_put]
      dsimp only
      obtain ⟨⟨h', ok⟩, hins, hres⟩ := bptreeInsert_spec
        (h := ⟨(m.buckets b).pkIndex, m.allocs.drop (m.growth b + 1)⟩) ht
        (id, some m.records.length)
      rw [put_buckets]
      cases ok with
      | true =>
        refine ⟨_, .stored m.records.length, bind_eq_of_eq_some hins ?_, .stored hlt hgranted hres⟩
        dsimp only
        rw [setBucket_put, if_pos rfl]
        exact bind_eq_of_eq_some (appendRow_put hlt) rfl
      | false =>
        refine ⟨_, .notIndexed, bind_eq_of_eq_some hins ?_, .freed hlt hgranted hres⟩
        dsimp only
        rw [setBucket_put, if_neg Bool.false_ne_true]
        exact bind_eq_of_eq_some freeRecord_put rfl
  · push Not at hgrowth
    obtain ⟨i, hi, hrefused⟩ := hgrowth
    have hone : m.growth b = 1 ∧ i = 0 := by
      unfold growth at hi ⊢
      split_ifs at hi ⊢ <;> omega
    rw [hone.2] at hrefused
    rw [tableEnsureCapacity_refused hone.1 hrefused]
    exact ⟨_, .noCapacity, rfl, .refused hle ⟨0, by omega, hrefused⟩⟩

/-- The section with its two calls of the lock. -/
theorem tableStoreRow_eq (m : TableMemory) (recordId : ℤ) (name : CBytes) (age : ℤ) :
    tableStoreRow m recordId name age =
      let b := tableBucketIndexForId recordId
      if (m.lock (.bucket b)).1 = false then some ((m.lock (.bucket b)).2, none)
      else (tableStoreRowLocked b recordId name age (m.lock (.bucket b)).2).bind fun me =>
        (me.1.unlock (.bucket b)).bind fun m => some (m, me.2.record) := by
  unfold tableStoreRow tableStoreRowLocked
  dsimp only
  rcases m.lock _ with ⟨_ | _, m₁⟩
  · rfl
  dsimp only
  rw [if_neg (by simp)]
  rcases tableEnsureCapacity m₁ _ with ⟨_ | _, m₂⟩
  · rfl
  dsimp only
  rcases m₂.alloc with ⟨_ | _, m₃⟩
  · rfl
  simp only [bind, Option.bind_assoc]
  congr 1
  funext h
  split_ifs
  · simp only [Option.bind_assoc]
    rfl
  · simp only [Option.bind_assoc]
    rfl

/-- **The second section of an insertion**, for every pattern of allocation failures. -/
theorem tableStoreRow_result {m : TableMemory} (hu : m.Unlocked) {id : ℤ}
    {b : Fin tableBucketCount} (hb : tableBucketIndexForId id = b)
    (hle : (m.buckets b).rows.length ≤ (m.buckets b).capacity) {t : List (ℤ × Option RecordPtr)}
    (ht : (m.buckets b).pkIndex.Holds t) (name : CBytes) (age : ℤ) :
    ∃ res, tableStoreRow m id name age = some res ∧
      StoreResult m b t (storedRecord id name age) res := by
  set m₀ : TableMemory := { m with held := [.bucket b] } with hm₀
  have hunlock : ∀ bucket records allocs, (m₀.put b bucket records allocs).unlock (.bucket b) =
      some (m.put b bucket records allocs) := by
    intro bucket records allocs
    rw [unlock_single (m := m₀.put b bucket records allocs) rfl]
    exact congrArg some (put_unlocked hu b bucket records allocs)
  obtain ⟨m₁, e, hrun, hres⟩ := tableStoreRowLocked_result (m := m₀) id hle ht name age
  rw [tableStoreRow_eq]
  dsimp only
  rw [hb, hu.lock, if_neg (by simp), hrun, Option.bind_some]
  dsimp only
  generalize e.record = found at hres
  cases hres with
  | refused le refused =>
    exact ⟨_, bind_eq_of_eq_some (hunlock _ _ _) rfl, .refused le refused⟩
  | stored lt granted index =>
    exact ⟨_, bind_eq_of_eq_some (hunlock _ _ _) rfl, .stored lt granted index⟩
  | freed lt granted index =>
    exact ⟨_, bind_eq_of_eq_some (hunlock _ _ _) rfl, .freed lt granted index⟩

end MiniDbms
