import MiniDbms.Lib.LockProgram
import MiniDbms.Table.Basic

/-!
# The table operations and their locks (`sql_processor/table.c`)

The operations of `MiniDbms.Table.Basic` once more, as programs for the threads of
`MiniDbms.Lib.LockProgram`: every call of `pthread_mutex_lock`, `pthread_rwlock_rdlock`,
`pthread_rwlock_wrlock` and of the two unlock functions is a step of its own, on every path on which
the source makes it.  What a thread does with the memory between two of these calls is one step.
Run alone, a program is the operation of `MiniDbms.Table.Basic`.
-/

namespace MiniDbms

open Locks

/-- The memory of the table, and the IDs that were taken from `next_id` so far, which nothing
reads. -/
structure TakenTable extends TableMemory where
  taken : List ℤ

/-- A program on the table. -/
abbrev TableProg (α : Type) := Prog TableLock TakenTable α

/-- What works on the memory only. -/
def onMemory {β : Type} (f : TableMemory → Option (TableMemory × β)) (s : TakenTable) :
    Option (TakenTable × β) :=
  (f s.toTableMemory).map fun mb => (⟨mb.1, s.taken⟩, mb.2)

/-! ### Insertion -/

/-- `record_id = table->next_id++;` -/
def tableTakeId (s : TakenTable) : Option (TakenTable × ℤ) :=
  some ({ s with nextId := intWrap (s.nextId + 1), taken := s.taken ++ [s.nextId] }, s.nextId)

/-- Where `table_insert` leaves the section of a bucket. -/
inductive StoreEnd
  /-- `table_ensure_capacity` returned 0 -/
  | noCapacity
  /-- `calloc` returned `NULL` -/
  | noRecord
  /-- `bptree_insert` returned 0, and the record is freed -/
  | notIndexed
  | stored (record : RecordPtr)
  deriving DecidableEq

/-- What `table_insert` does with bucket `b` while it holds its lock. -/
def tableStoreRowLocked (b : Fin tableBucketCount) (recordId : ℤ) (name : CBytes) (age : ℤ)
    (m : TableMemory) : Option (TableMemory × StoreEnd) :=
  match tableEnsureCapacity m b with
  | (false, m) => some (m, .noCapacity)
  | (true, m) =>
    match m.alloc with
    | (false, m) => some (m, .noRecord)
    | (true, m) => do
      let (record, m) := m.newRecord ⟨recordId, name.take (recordNameSize - 1), age⟩
      let bucket := m.buckets b
      let (h, ok) ← bptreeInsert ⟨bucket.pkIndex, m.allocs⟩ recordId (some record)
      let m := { m.setBucket b { bucket with pkIndex := h.toBPTree } with allocs := h.allocs }
      if ok then some (← m.appendRow b record, .stored record)
      else some (← m.freeRecord record, .notIndexed)

/-- `table_insert` -/
def tableInsertProg (name : CBytes) (age : ℤ) : TableProg (Option RecordPtr) :=
  .lock .nextId .write fun ok =>
    if ok = false then .ret none
    else
      .act tableTakeId fun recordId =>
      .unlock .nextId <|
      let b := tableBucketIndexForId recordId
      .lock (.bucket b) .write fun ok =>
        if ok = false then .ret none
        else
          .act (onMemory (tableStoreRowLocked b recordId name age)) fun
            | .noCapacity => .unlock (.bucket b) (.ret none)
            | .noRecord => .unlock (.bucket b) (.ret none)
            | .notIndexed => .unlock (.bucket b) (.ret none)
            | .stored record => .unlock (.bucket b) (.ret (some record))

/-! ### Lookups -/

/-- `table_find_by_id` -/
def tableFindByIdProg (id : ℤ) : TableProg (Option RecordPtr) :=
  let b := tableBucketIndexForId id
  .lock (.bucket b) .read fun ok =>
    if ok = false then .ret none
    else
      .act (onMemory fun m => (bptreeSearch (m.buckets b).pkIndex id).map (m, ·)) fun record =>
      .unlock (.bucket b) (.ret record)

/-- The loop of `table_scan_by_id` over the buckets. -/
def tableScanBucketsProg (id : ℤ) : List (Fin tableBucketCount) → TableProg (Option RecordPtr)
  | [] => .ret none
  | b :: bs =>
    .lock (.bucket b) .read fun ok =>
      if ok = false then .ret none
      else
        .act (onMemory fun m => (tableScanRows m id (m.buckets b).rows).map (m, ·)) fun
          | some record => .unlock (.bucket b) (.ret (some record))
          | none => .unlock (.bucket b) (tableScanBucketsProg id bs)

/-- `table_scan_by_id` -/
def tableScanByIdProg (id : ℤ) : TableProg (Option RecordPtr) :=
  tableScanBucketsProg id (List.finRange tableBucketCount)

/-- `table_free_record_array(records, count); return 0;` -/
def tableGiveUpProg (records : RecordArray) : TableProg (Bool × RecordArray) :=
  .act (onMemory fun m => some (tableFreeArray m records, ())) fun _ => .ret (false, .empty)

/-- The loop of `table_collect_all_sorted`. -/
def tableCollectBucketsProg :
    List (Fin tableBucketCount) → RecordArray → TableProg (Bool × RecordArray)
  | [], records => .ret (true, records)
  | b :: bs, records =>
    .lock (.bucket b) .read fun ok =>
      if ok = false then tableGiveUpProg records
      else
        .act (onMemory fun m =>
          let (ok, m, records) := tableCollectRows m records (m.buckets b).rows
          some (m, ok, records)) fun
          | (false, records) => .unlock (.bucket b) (tableGiveUpProg records)
          | (true, records) => .unlock (.bucket b) (tableCollectBucketsProg bs records)

/-- `table_collect_all_sorted` -/
def tableCollectAllSortedProg : TableProg (Bool × RecordArray) :=
  (tableCollectBucketsProg (List.finRange tableBucketCount) .empty).bind fun
    | (false, records) => .ret (false, records)
    | (true, records) =>
      .act (onMemory fun m => (tableSortRecordsById m records).map (m, ·)) fun records =>
      .ret (true, records)

/-- `table_collect_all` -/
def tableCollectAllProg : TableProg (Bool × RecordArray) := tableCollectAllSortedProg

/-- The scanning lookups: collect everything, keep what matches. -/
def tableFindMatchesProg (test : Record → Bool) : TableProg (Bool × RecordArray) :=
  tableCollectAllSortedProg.bind fun
    | (false, _) => .ret (false, .empty)
    | (true, all) =>
      .act (onMemory fun m => (tableFilterRecords m test all).map fun r => (r.2.1, r.1, r.2.2)) .ret

/-- `table_find_by_name_matches` -/
def tableFindByNameMatchesProg (name : CBytes) : TableProg (Bool × RecordArray) :=
  tableFindMatchesProg fun r => r.name = name

/-- `table_find_by_id_condition` -/
def tableFindByIdConditionProg (comparison : TableComparison) (id : ℤ) :
    TableProg (Bool × RecordArray) :=
  if comparison = .eq then
    (tableFindByIdProg id).bind fun
      | none => .ret (true, .empty)
      | some record =>
        .act (onMemory fun m =>
          let (ok, m, records) := tableAppendRecord m .empty record
          some (m, ok, records)) .ret
  else tableFindMatchesProg fun r => tableCompareInt r.id comparison id

/-- `table_find_by_age_condition` -/
def tableFindByAgeConditionProg (comparison : TableComparison) (age : ℤ) :
    TableProg (Bool × RecordArray) :=
  tableFindMatchesProg fun r => tableCompareInt r.age comparison age

/-! ### Threads -/

/-- A call of an operation. -/
inductive TableCall
  | insert (name : CBytes) (age : ℤ)
  | findById (id : ℤ)
  | scanById (id : ℤ)
  | collectAll
  | findByNameMatches (name : CBytes)
  | findByIdCondition (comparison : TableComparison) (id : ℤ)
  | findByAgeCondition (comparison : TableComparison) (age : ℤ)
  deriving DecidableEq

/-- What a call does; its caller drops the result. -/
def TableCall.prog : TableCall → TableProg Unit
  | insert name age => (tableInsertProg name age).bind fun _ => .ret ()
  | findById id => (tableFindByIdProg id).bind fun _ => .ret ()
  | scanById id => (tableScanByIdProg id).bind fun _ => .ret ()
  | collectAll => tableCollectAllProg.bind fun _ => .ret ()
  | findByNameMatches name => (tableFindByNameMatchesProg name).bind fun _ => .ret ()
  | findByIdCondition comparison id =>
    (tableFindByIdConditionProg comparison id).bind fun _ => .ret ()
  | findByAgeCondition comparison age =>
    (tableFindByAgeConditionProg comparison age).bind fun _ => .ret ()

/-- The threads `ι` and the table. -/
abbrev TableSystem (ι : Type) := System ι TableLock TakenTable

/-- The threads before their first calls, on a new table; `allocs` are the outcomes of the coming
allocations. -/
def TableSystem.start {ι : Type} (allocs : List Bool) (calls : ι → List TableCall) :
    TableSystem ι :=
  System.start ⟨.start allocs [], []⟩ fun t => (calls t).map TableCall.prog

end MiniDbms
