import MiniDbms.Sql.Repl

/-!
# The other callers of the scanning lookups (`sql_processor/table.c`)

`table_find_by_name` and `table_find_by_age` keep the first row that a scanning lookup collected,
and `table_print_all` prints all of them.  The SQL layer calls none of the three.
-/

namespace MiniDbms

/-- What `table_find_by_name` and `table_find_by_age` do with the array of a lookup. -/
def tableFirstMatch (found : Option (Bool × TableMemory × RecordArray)) :
    Option (TableMemory × Option RecordPtr) := do
  match ← found with
  | (false, m, _) => some (m, none)
  | (true, m, records) => some (tableFreeArray m records, records.rows.head?)

/-- Looks up the first record with a matching name using bucket scans. -/
def tableFindByName (m : TableMemory) (name : CBytes) :
    Option (TableMemory × Option RecordPtr) :=
  tableFirstMatch (tableFindByNameMatches m name)

/-- Looks up the first record with a matching age using bucket scans. -/
def tableFindByAge (m : TableMemory) (age : ℤ) : Option (TableMemory × Option RecordPtr) :=
  tableFirstMatch (tableFindByAgeCondition m .eq age)

/-- Prints all records in sorted-by-ID order: what is printed, and the row count. -/
def tablePrintAll (m : TableMemory) : Option (TableMemory × CBytes × ℕ) := do
  match ← tableCollectAllSorted m with
  | (false, m, _) => some (m, [], 0)
  | (true, m, records) =>
    let (text, printed) ← tablePrintRecords m records
    some (tableFreeArray m records, text, printed)

end MiniDbms
