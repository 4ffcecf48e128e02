import Mathlib.Algebra.Group.Int.Defs
import Mathlib.Algebra.Group.Nat.Defs
import Mathlib.Data.Fintype.Basic
import Mathlib.Data.List.FinRange
import Mathlib.Data.List.Sort
import MiniDbms.BPTree.Basic

/-!
# The users table (`sql_processor/table.c`)

A table is 16 buckets, each with an array of record pointers and an index.  `TableMemory` is the
table together with the memory the operations work on: the record objects (a freed one is `none`),
the result arrays that were allocated and freed, the locks held by the running operation, and the
outcomes of the coming allocations and lock calls (past the end of a list they succeed).

The operations are written in the sections that a lock protects: `tableIssueId` and `tableStoreRow`
make up `tableInsert`, `tableCollectSection` is one round of `table_collect_all_sorted`.  A result
`none` means undefined behaviour: a dangling pointer, an index outside an array, or the release of
a lock that is not held.
-/

namespace MiniDbms

/-- The bytes of a C string, without its `NUL`. -/
abbrev CBytes := List UInt8

/-- `RECORD_NAME_SIZE` -/
abbrev recordNameSize : ℕ := 64

/-- `TABLE_BUCKET_COUNT` -/
abbrev tableBucketCount : ℕ := 16

/-- A non-`NULL` `Record *`. -/
abbrev RecordPtr := ℕ

/-- `struct Record` -/
structure Record where
  id : ℤ
  name : CBytes
  age : ℤ
  deriving DecidableEq

/-- `enum TableComparison` -/
inductive TableComparison
  | eq | lt | le | gt | ge
  deriving DecidableEq

/-- `struct TableBucket`; `size` is the length of `rows`. -/
structure TableBucket where
  rows : List RecordPtr
  capacity : ℕ
  pkIndex : BPTree RecordPtr

/-- `struct Table` -/
structure Table where
  nextId : ℤ
  buckets : Fin tableBucketCount → TableBucket

/-- The locks of a table. -/
inductive TableLock
  | nextId
  | bucket (b : Fin tableBucketCount)
  deriving DecidableEq

/-- The table and the memory around it. -/
structure TableMemory extends Table where
  records : List (Option Record)
  arrays : ℕ
  freedArrays : List ℕ
  held : List TableLock
  allocs : List Bool
  lockResults : List Bool

/-- A result array `Record **`, with its count and its capacity. -/
structure RecordArray where
  ptr : Option ℕ
  rows : List RecordPtr
  capacity : ℕ
  deriving DecidableEq

/-- `*records = NULL; *count = 0;` with a capacity of 0. -/
def RecordArray.empty : RecordArray := ⟨none, [], 0⟩

namespace TableMemory

/-- `calloc`, `realloc`: whether there is memory. -/
def alloc (m : TableMemory) : Bool × TableMemory :=
  (m.allocs.headD true, { m with allocs := m.allocs.tail })

/-- `pthread_mutex_lock`, `pthread_rwlock_rdlock`, `pthread_rwlock_wrlock`. -/
def lock (m : TableMemory) (l : TableLock) : Bool × TableMemory :=
  if m.lockResults.headD true then
    (true, { m with held := l :: m.held, lockResults := m.lockResults.tail })
  else (false, { m with lockResults := m.lockResults.tail })

/-- `pthread_mutex_unlock`, `pthread_rwlock_unlock`. -/
def unlock (m : TableMemory) (l : TableLock) : Option TableMemory :=
  if l ∈ m.held then some { m with held := m.held.erase l } else none

/-- `*p` -/
def record (m : TableMemory) (p : RecordPtr) : Option Record := m.records[p]?.join

/-- The object that `calloc` made, with its fields set. -/
def newRecord (m : TableMemory) (r : Record) : RecordPtr × TableMemory :=
  (m.records.length, { m with records := m.records ++ [some r] })

/-- `free(p)` -/
def freeRecord (m : TableMemory) (p : RecordPtr) : Option TableMemory :=
  if (m.record p).isSome then some { m with records := m.records.set p none } else none

/-- Another bucket in the place of bucket `b`. -/
def setBucket (m : TableMemory) (b : Fin tableBucketCount) (bucket : TableBucket) : TableMemory :=
  { m with buckets := Function.update m.buckets b bucket }

/-- `bucket->rows[bucket->size] = record; bucket->size++;` -/
def appendRow (m : TableMemory) (b : Fin tableBucketCount) (p : RecordPtr) : Option TableMemory :=
  let bucket := m.buckets b
  if bucket.rows.length < bucket.capacity then
    some (m.setBucket b { bucket with rows := bucket.rows ++ [p] })
  else none

end TableMemory

/-! ### Helpers -/

/-- A signed 32-bit value (`next_id++` wraps around). -/
def intWrap (x : ℤ) : ℤ := x.bmod (2 ^ 32)

/-- The values of an `int`. -/
def IsInt (value : ℤ) : Prop := -2 ^ 31 ≤ value ∧ value < 2 ^ 31

/-- What the cast to `int` gives is one. -/
theorem isInt_intWrap (value : ℤ) : IsInt (intWrap value) := by
  have hle := Int.le_bmod (x := value) (m := 2 ^ 32) (by decide)
  have hlt := Int.bmod_lt (x := value) (m := 2 ^ 32) (by decide)
  exact ⟨by rw [intWrap]; omega, by rw [intWrap]; omega⟩

/-- The remainder that `table_bucket_index_for_id` makes non-negative. -/
def tableBucketRemainder (id : ℤ) : ℤ :=
  let bucket := id.tmod tableBucketCount
  if bucket < 0 then bucket + tableBucketCount else bucket

theorem tableBucketRemainder_eq (id : ℤ) : tableBucketRemainder id = id % 16 := by
  change (if id.tmod 16 < 0 then id.tmod 16 + 16 else id.tmod 16) = id % 16
  rw [Int.tmod_eq_emod]
  split_ifs <;> omega

/-- Returns the bucket index for a given row ID. -/
def tableBucketIndexForId (id : ℤ) : Fin tableBucketCount :=
  ⟨(tableBucketRemainder id).toNat, by rw [tableBucketRemainder_eq, tableBucketCount]; omega⟩

/-- Grows the record pointer array when it becomes full. -/
def tableEnsureCapacity (m : TableMemory) (b : Fin tableBucketCount) : Bool × TableMemory :=
  let bucket := m.buckets b
  if bucket.rows.length < bucket.capacity then (true, m)
  else
    let newCapacity := if bucket.capacity = 0 then 8 else bucket.capacity * 2
    match m.alloc with
    | (false, m) => (false, m)
    | (true, m) => (true, m.setBucket b { bucket with capacity := newCapacity })

/-- Appends one record pointer to a growable result array. -/
def tableAppendRecord (m : TableMemory) (records : RecordArray) (p : RecordPtr) :
    Bool × TableMemory × RecordArray :=
  if records.rows.length < records.capacity then
    (true, m, { records with rows := records.rows ++ [p] })
  else
    let newCapacity := if records.capacity = 0 then 8 else records.capacity * 2
    match m.alloc with
    | (false, m) => (false, m, records)
    | (true, m) =>
      match records.ptr with
      | none => (true, { m with arrays := m.arrays + 1 },
          ⟨some m.arrays, records.rows ++ [p], newCapacity⟩)
      | some ptr => (true, m, ⟨some ptr, records.rows ++ [p], newCapacity⟩)

/-- `free` of a result array (`free(NULL)` does nothing). -/
def tableFreeArray (m : TableMemory) (records : RecordArray) : TableMemory :=
  match records.ptr with
  | none => m
  | some ptr => { m with freedArrays := ptr :: m.freedArrays }

/-- Sorts a record pointer array in ascending ID order. -/
def tableSortRecordsById (m : TableMemory) (records : RecordArray) : Option RecordArray :=
  if records.rows.length < 2 then some records
  else do
    let keyed ← records.rows.mapM fun p => (m.record p).map fun r => (r.id, p)
    some { records with
      rows := (keyed.insertionSort fun left right => left.1 ≤ right.1).map Prod.snd }

/-- Evaluates an integer comparison used by WHERE clauses. -/
def tableCompareInt (left : ℤ) (comparison : TableComparison) (right : ℤ) : Bool :=
  match comparison with
  | .eq => left = right
  | .lt => left < right
  | .le => left ≤ right
  | .gt => left > right
  | .ge => left ≥ right

/-! ### Insertion -/

/-- The first section of `table_insert`: takes the next ID under `next_id_lock`. -/
def tableIssueId (m : TableMemory) : Option (TableMemory × Option ℤ) :=
  match m.lock .nextId with
  | (false, m) => some (m, none)
  | (true, m) => do
    let recordId := m.nextId
    let m ← { m with nextId := intWrap (m.nextId + 1) }.unlock .nextId
    some (m, some recordId)

/-- The second section of `table_insert`: stores the record under the lock of its bucket. -/
def tableStoreRow (m : TableMemory) (recordId : ℤ) (name : CBytes) (age : ℤ) :
    Option (TableMemory × Option RecordPtr) :=
  let b := tableBucketIndexForId recordId
  match m.lock (.bucket b) with
  | (false, m) => some (m, none)
  | (true, m) =>
    match tableEnsureCapacity m b with
    | (false, m) => do some (← m.unlock (.bucket b), none)
    | (true, m) =>
      match m.alloc with
      | (false, m) => do some (← m.unlock (.bucket b), none)
      | (true, m) => do
        -- `strncpy` keeps the first 63 bytes
        let (record, m) := m.newRecord ⟨recordId, name.take (recordNameSize - 1), age⟩
        let bucket := m.buckets b
        let (h, ok) ← bptreeInsert ⟨bucket.pkIndex, m.allocs⟩ recordId (some record)
        let m := { m.setBucket b { bucket with pkIndex := h.toBPTree } with allocs := h.allocs }
        if ok then
          let m ← m.appendRow b record
          some (← m.unlock (.bucket b), some record)
        else
          let m ← m.freeRecord record
          some (← m.unlock (.bucket b), none)

/-- Inserts one record and returns the stored record pointer. -/
def tableInsert (m : TableMemory) (name : CBytes) (age : ℤ) :
    Option (TableMemory × Option RecordPtr) := do
  match ← tableIssueId m with
  | (m, none) => some (m, none)
  | (m, some recordId) => tableStoreRow m recordId name age

/-! ### Lookups -/

/-- Looks up a record by ID using the bucket-local B+ tree. -/
def tableFindById (m : TableMemory) (id : ℤ) : Option (TableMemory × Option RecordPtr) :=
  let b := tableBucketIndexForId id
  match m.lock (.bucket b) with
  | (false, m) => some (m, none)
  | (true, m) => do
    let record ← bptreeSearch (m.buckets b).pkIndex id
    some (← m.unlock (.bucket b), record)

/-- The loop of `table_scan_by_id` over the rows of one bucket. -/
def tableScanRows (m : TableMemory) (id : ℤ) : List RecordPtr → Option (Option RecordPtr)
  | [] => some none
  | p :: rows => do
    let r ← m.record p
    if r.id = id then some (some p) else tableScanRows m id rows

/-- The loop of `table_scan_by_id` over the buckets. -/
def tableScanBuckets (m : TableMemory) (id : ℤ) :
    List (Fin tableBucketCount) → Option (TableMemory × Option RecordPtr)
  | [] => some (m, none)
  | b :: bs =>
    match m.lock (.bucket b) with
    | (false, m) => some (m, none)
    | (true, m) => do
      match ← tableScanRows m id (m.buckets b).rows with
      | some record => some (← m.unlock (.bucket b), some record)
      | none => tableScanBuckets (← m.unlock (.bucket b)) id bs

/-- Looks up a record by ID using a linear scan across all buckets. -/
def tableScanById (m : TableMemory) (id : ℤ) : Option (TableMemory × Option RecordPtr) :=
  tableScanBuckets m id (List.finRange tableBucketCount)

/-- The loop of `table_collect_bucket_rows_locked`. -/
def tableCollectRows (m : TableMemory) (records : RecordArray) :
    List RecordPtr → Bool × TableMemory × RecordArray
  | [] => (true, m, records)
  | p :: rows =>
    match tableAppendRecord m records p with
    | (true, m, records) => tableCollectRows m records rows
    | (false, m, records) => (false, tableFreeArray m records, .empty)

/-- One round of `table_collect_all_sorted`: the rows of bucket `b`, under its lock. -/
def tableCollectSection (m : TableMemory) (records : RecordArray) (b : Fin tableBucketCount) :
    Option (Bool × TableMemory × RecordArray) :=
  match m.lock (.bucket b) with
  | (false, m) => some (false, tableFreeArray m records, .empty)
  | (true, m) =>
    match tableCollectRows m records (m.buckets b).rows with
    | (true, m, records) => do some (true, ← m.unlock (.bucket b), records)
    | (false, m, records) => do
      let m ← m.unlock (.bucket b)
      some (false, tableFreeArray m records, .empty)

/-- The loop of `table_collect_all_sorted`. -/
def tableCollectBuckets (m : TableMemory) (records : RecordArray) :
    List (Fin tableBucketCount) → Option (Bool × TableMemory × RecordArray)
  | [] => some (true, m, records)
  | b :: bs => do
    match ← tableCollectSection m records b with
    | (true, m, records) => tableCollectBuckets m records bs
    | (false, m, records) => some (false, m, records)

/-- Collects every record from all buckets and sorts the final array by ID. -/
def tableCollectAllSorted (m : TableMemory) : Option (Bool × TableMemory × RecordArray) := do
  match ← tableCollectBuckets m .empty (List.finRange tableBucketCount) with
  | (true, m, records) => some (true, m, ← tableSortRecordsById m records)
  | (false, m, records) => some (false, m, records)

/-- Copies every stored record pointer into a result array. -/
def tableCollectAll (m : TableMemory) : Option (Bool × TableMemory × RecordArray) :=
  tableCollectAllSorted m

/-- The loop that keeps the matching ones of all records. -/
def tableFilterRows (m : TableMemory) (test : Record → Bool) (records : RecordArray) :
    List RecordPtr → Option (Bool × TableMemory × RecordArray)
  | [] => some (true, m, records)
  | p :: rows => do
    let r ← m.record p
    if test r then
      match tableAppendRecord m records p with
      | (true, m, records) => tableFilterRows m test records rows
      | (false, m, records) => some (false, m, records)
    else tableFilterRows m test records rows

/-- What the three filtering lookups have in common behind the collection of all records. -/
def tableFilterRecords (m : TableMemory) (test : Record → Bool) (all : RecordArray) :
    Option (Bool × TableMemory × RecordArray) := do
  match ← tableFilterRows m test .empty all.rows with
  | (true, m, records) => some (true, tableFreeArray m all, records)
  | (false, m, records) => some (false, tableFreeArray (tableFreeArray m all) records, .empty)

/-- The scanning lookups: collect everything, keep what matches. -/
def tableFindMatches (m : TableMemory) (test : Record → Bool) :
    Option (Bool × TableMemory × RecordArray) := do
  match ← tableCollectAllSorted m with
  | (false, m, _) => some (false, m, .empty)
  | (true, m, all) => tableFilterRecords m test all

/-- Collects every record with a matching name using bucket scans. -/
def tableFindByNameMatches (m : TableMemory) (name : CBytes) :
    Option (Bool × TableMemory × RecordArray) :=
  tableFindMatches m fun r => r.name = name

/-- Collects every record whose ID satisfies the given comparison. -/
def tableFindByIdCondition (m : TableMemory) (comparison : TableComparison) (id : ℤ) :
    Option (Bool × TableMemory × RecordArray) :=
  if comparison = .eq then do
    match ← tableFindById m id with
    | (m, none) => some (true, m, .empty)
    | (m, some record) => some (tableAppendRecord m .empty record)
  else tableFindMatches m fun r => tableCompareInt r.id comparison id

/-- Collects every record whose age satisfies the given comparison. -/
def tableFindByAgeCondition (m : TableMemory) (comparison : TableComparison) (age : ℤ) :
    Option (Bool × TableMemory × RecordArray) :=
  tableFindMatches m fun r => tableCompareInt r.age comparison age

/-! ### Creation and destruction -/

/-- Creates the in-memory users table with hash-based buckets. -/
def tableCreate : Table := ⟨1, fun _ => ⟨[], 0, bptreeCreate⟩⟩

/-- The memory right after a successful `table_create`, with the outcomes of the coming allocations
and lock calls. -/
def TableMemory.start (allocs lockResults : List Bool) : TableMemory :=
  ⟨tableCreate, [], 0, [], [], allocs, lockResults⟩

/-- The loop of `table_destroy` over the rows of one bucket. -/
def tableFreeRows (m : TableMemory) : List RecordPtr → Option TableMemory
  | [] => some m
  | p :: rows => do tableFreeRows (← m.freeRecord p) rows

/-- The loop of `table_destroy` over the buckets; an index is released with its nodes. -/
def tableDestroyBuckets (m : TableMemory) : List (Fin tableBucketCount) → Option TableMemory
  | [] => some m
  | b :: bs => do
    let m ← tableFreeRows m (m.buckets b).rows
    tableDestroyBuckets (m.setBucket b ⟨[], 0, bptreeCreate⟩) bs

def tableDestroy (m : TableMemory) : Option TableMemory :=
  tableDestroyBuckets m (List.finRange tableBucketCount)

end MiniDbms
