import MiniDbms.Table.Basic

/-!
# Threads that share the table

Any number of threads call the operations of the table.  Between two steps of the system one thread
runs one section: what it does while it holds a lock, or what it does on its own between two locks.
The sections are those of `MiniDbms.Table.Basic`, in the order of the operation.

The history records what a statement about a run can speak of: which IDs were issued, which rows
were stored, which calls were answered, and when.  Time is the number of steps.  No step reads the
history.
-/

namespace MiniDbms

/-- The lookups: `table_collect_all`, `table_find_by_name_matches`, `table_find_by_id_condition`,
`table_find_by_age_condition`. -/
inductive Query
  | all
  | name (name : CBytes)
  | id (comparison : TableComparison) (id : ℤ)
  | age (comparison : TableComparison) (age : ℤ)
  deriving DecidableEq

/-- The rows that a lookup asks for. -/
def Query.test : Query → Record → Bool
  | .all, _ => true
  | .name text, r => r.name = text
  | .id comparison key, r => tableCompareInt r.id comparison key
  | .age comparison key, r => tableCompareInt r.age comparison key

/-- A call of `table_insert`, with the time of the call. -/
structure InsertCall where
  name : CBytes
  age : ℤ
  began : ℕ
  deriving DecidableEq

/-- A call of a lookup, with the time of the call. -/
structure SelectCall where
  query : Query
  began : ℕ
  deriving DecidableEq

/-- The section of a bucket, with its time. -/
abbrev Scan := Fin tableBucketCount × ℕ

/-- Where a thread is. -/
inductive Pc
  | idle
  | issuing (call : InsertCall)
  | storing (call : InsertCall) (id : ℤ)
  | inserted (call : InsertCall) (id : ℤ) (record : RecordPtr)
  | scanning (call : SelectCall) (scans : List Scan) (rest : List (Fin tableBucketCount))
    (records : RecordArray)
  | finding (call : SelectCall) (id : ℤ)
  | selected (call : SelectCall) (scans : List Scan) (records : RecordArray)

/-- A row that was stored, with its pointer and the time of its bucket section. -/
structure Stored where
  time : ℕ
  ptr : RecordPtr
  record : Record
  deriving DecidableEq

/-- An answered insertion: the ID of the returned record, and the time. -/
structure InsertAnswer where
  call : InsertCall
  id : ℤ
  ended : ℕ
  deriving DecidableEq

/-- An answered lookup: the returned rows, and the time. -/
structure SelectAnswer where
  call : SelectCall
  scans : List Scan
  rows : List Record
  ended : ℕ
  deriving DecidableEq

/-- What happened so far. -/
structure History where
  clock : ℕ
  insertCalls : ℕ
  issued : List (InsertCall × ℤ)
  stored : List Stored
  inserts : List InsertAnswer
  selects : List SelectAnswer
  deriving DecidableEq

/-- `n` threads and the table. -/
structure SharedTable (n : ℕ) extends History where
  memory : TableMemory
  threads : Fin n → Pc

/-- What a thread can call. -/
inductive Op
  | insert (name : CBytes) (age : ℤ)
  | select (query : Query)

/-- A step of the system: a thread calls an operation, or goes on with the one it called. -/
inductive Action (n : ℕ)
  | call (t : Fin n) (op : Op)
  | advance (t : Fin n)

namespace SharedTable

variable {n : ℕ}

/-- The new table, with memory and locks for everything, and no thread at work. -/
def start (n : ℕ) : SharedTable n where
  clock := 0
  insertCalls := 0
  issued := []
  stored := []
  inserts := []
  selects := []
  memory := TableMemory.start [] []
  threads := fun _ => .idle

/-- Thread `t` takes a step to `pc`, which makes the memory `m`. -/
def become (s : SharedTable n) (t : Fin n) (m : TableMemory) (pc : Pc) : SharedTable n :=
  { s with clock := s.clock + 1, memory := m, threads := Function.update s.threads t pc }

/-- A thread that is not at work calls an operation. -/
def call (s : SharedTable n) (t : Fin n) (op : Op) : Option (SharedTable n) :=
  match s.threads t with
  | .idle =>
    match op with
    | .insert name age =>
      some { s.become t s.memory (.issuing ⟨name, age, s.clock⟩) with
        insertCalls := s.insertCalls + 1 }
    | .select (.id .eq id) => some (s.become t s.memory (.finding ⟨.id .eq id, s.clock⟩ id))
    | .select query =>
      some (s.become t s.memory
        (.scanning ⟨query, s.clock⟩ [] (List.finRange tableBucketCount) .empty))
  | _ => none

/-- What a scanning lookup does behind its last bucket: it sorts, and keeps what matches. -/
def finishSelect (m : TableMemory) (query : Query) (records : RecordArray) :
    Option (Bool × TableMemory × RecordArray) := do
  let records ← tableSortRecordsById m records
  match query with
  | .all => some (true, m, records)
  | query => tableFilterRecords m query.test records

/-- The next section of thread `t`. -/
def advance (s : SharedTable n) (t : Fin n) : Option (SharedTable n) :=
  match s.threads t with
  | .idle => none
  | .issuing call => do
    match ← tableIssueId s.memory with
    | (m, none) => some (s.become t m .idle)
    | (m, some id) =>
      some { s.become t m (.storing call id) with issued := s.issued ++ [(call, id)] }
  | .storing call id => do
    match ← tableStoreRow s.memory id call.name call.age with
    | (m, none) => some (s.become t m .idle)
    | (m, some record) =>
      let r ← m.record record
      some { s.become t m (.inserted call id record) with
        stored := s.stored ++ [⟨s.clock, record, r⟩] }
  | .inserted call _ record => do
    -- the caller reads the ID of the record that `table_insert` returns
    let r ← s.memory.record record
    some { s.become t s.memory .idle with
      inserts := s.inserts ++ [⟨call, r.id, s.clock⟩] }
  | .scanning call scans (b :: rest) records => do
    match ← tableCollectSection s.memory records b with
    | (false, m, _) => some (s.become t m .idle)
    | (true, m, records) =>
      some (s.become t m (.scanning call (scans ++ [(b, s.clock)]) rest records))
  | .scanning call scans [] records => do
    match ← finishSelect s.memory call.query records with
    | (false, m, _) => some (s.become t m .idle)
    | (true, m, records) => some (s.become t m (.selected call scans records))
  | .finding call id => do
    let scans := [(tableBucketIndexForId id, s.clock)]
    match ← tableFindById s.memory id with
    | (m, none) => some (s.become t m (.selected call scans .empty))
    | (m, some record) =>
      match tableAppendRecord m .empty record with
      | (false, m, _) => some (s.become t m .idle)
      | (true, m, records) => some (s.become t m (.selected call scans records))
  | .selected call scans records => do
    let rows ← records.rows.mapM s.memory.record
    some { s.become t s.memory .idle with
      selects := s.selects ++ [⟨call, scans, rows, s.clock⟩] }

/-- One step. -/
def step (s : SharedTable n) : Action n → Option (SharedTable n)
  | .call t op => s.call t op
  | .advance t => s.advance t

/-- A run. -/
def run (s : SharedTable n) : List (Action n) → Option (SharedTable n)
  | [] => some s
  | a :: actions => do (← s.step a).run actions

end SharedTable

end MiniDbms
