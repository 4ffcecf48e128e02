import MiniDbms.Server.Api
import MiniDbms.Server.Equiv.JsonUtil
import MiniDbms.Sql.Equiv.Errors
import MiniDbms.Sql.Equiv.Execute

/-!
# The answers of `api_handle_query`

The body of a response is read as one JSON object.  `AnswerTo` says which one: the answer to a
statement that was rejected, to `EXIT`, to an insertion, to a lookup, or to a statement that failed.
-/

namespace MiniDbms

open CString Json

/-! ### What the bodies say -/

def recordValue (r : Record) : Value :=
  .object [(ascii "id", .number r.id 0), (ascii "name", .string r.name),
    (ascii "age", .number r.age 0)]

def insertedValue (insertedId : ℤ) (rowCount : ℕ) : Value :=
  .object [(ascii "ok", .bool true), (ascii "action", .string (ascii "insert")),
    (ascii "inserted_id", .number insertedId 0), (ascii "row_count", .number rowCount 0)]

def selectedValue (records : List Record) : Value :=
  .object [(ascii "ok", .bool true), (ascii "action", .string (ascii "select")),
    (ascii "row_count", .number records.length 0), (ascii "rows", .array (records.map recordValue))]

def errorValue (status : CBytes) (errorCode : ℤ) (sqlState message : CBytes) : Value :=
  .object [(ascii "ok", .bool false), (ascii "status", .string status),
    (ascii "error_code", .number errorCode 0), (ascii "sql_state", .string sqlState),
    (ascii "message", .string message)]

def refusalValue (status message : CBytes) : Value :=
  .object [(ascii "ok", .bool false), (ascii "status", .string status),
    (ascii "message", .string message)]

/-! ### The pieces between the values -/

theorem ascii_okTrue : ascii "\x7b\"ok\":true,\"action\":" =
    123 :: (quote (ascii "ok") ++ 58 :: (ascii "true" ++
      44 :: (quote (ascii "action") ++ [58]))) := by
  decide

theorem ascii_okFalse : ascii "\x7b\"ok\":false,\"status\":" =
    123 :: (quote (ascii "ok") ++ 58 :: (ascii "false" ++
      44 :: (quote (ascii "status") ++ [58]))) := by
  decide

theorem ascii_rowCount : ascii ",\"row_count\":" = 44 :: (quote (ascii "row_count") ++ [58]) := by
  decide

theorem ascii_message : ascii ",\"message\":" = 44 :: (quote (ascii "message") ++ [58]) := by
  decide

theorem ascii_brace : ascii "\x7d" = [125] := by decide

/-! ### Records -/

/-- What `api_append_record` appends. -/
def recordText (r : Record) : CBytes :=
  [ascii "\x7b\"id\":" ++ intText r.id ++ ascii ",\"name\":", quote r.name,
    ascii ",\"age\":" ++ intText r.age ++ ascii "\x7d"].flatten

theorem appends_record (r : Record) : Appends (apiAppendRecord r) (recordText r) :=
  Appends.calls (.cons (appends_appendf _) (.cons (appends_jsonString _)
    (.cons (appends_appendf _) .nil)))

theorem spells_record (r : Record) : Spells (recordText r) (recordValue r) := by
  have h := ((spells_int r.id).members (ascii "id") ((spells_string r.name).members (ascii "name")
    ((spells_int r.age).member (ascii "age")))).object
  have hid : ascii "\x7b\"id\":" = 123 :: (quote (ascii "id") ++ [58]) := by decide
  have hname : ascii ",\"name\":" = 44 :: (quote (ascii "name") ++ [58]) := by decide
  have hage : ascii ",\"age\":" = 44 :: (quote (ascii "age") ++ [58]) := by decide
  simp only [recordText, List.flatten_cons, List.flatten_nil, hid, hname, hage, ascii_brace,
    List.append_assoc, List.cons_append, List.nil_append, List.append_nil] at h ⊢
  exact h

theorem printable_record (r : Record) : Printable (recordText r) := by
  simp only [recordText, List.flatten_cons, List.flatten_nil, printable_append, printable_intText,
    printable_quote, printable_nil, and_true, true_and]
  decide

/-! ### Rows -/

/-- The rows of an answer, with the commas between them. -/
def rowsText : List Record → CBytes
  | [] => []
  | r :: rs => recordText r ++ rs.flatMap fun r => 44 :: recordText r

/-- What the loop appends in one round. -/
def rowPiece (records : List Record) (index : ℕ) : CBytes :=
  (if index > 0 then ascii "," else []) ++ (records[index]?.map recordText).getD []

/-- The rounds behind the first one. -/
theorem flatten_rowPiece (r : Record) (rs : List Record) :
    ((List.range rs.length).map fun i => rowPiece (r :: rs) (i + 1)).flatten =
      rs.flatMap fun r => 44 :: recordText r := by
  have hpiece : ∀ i, rowPiece (r :: rs) (i + 1) = 44 :: (rs[i]?.map recordText).getD [] := by
    intro i
    rw [rowPiece, if_pos (Nat.succ_pos i), List.getElem?_cons_succ]
    rfl
  simp only [hpiece]
  clear hpiece
  induction rs with
  | nil => rfl
  | cons r' rs ih =>
    rw [List.length_cons, List.range_succ_eq_map, List.map_cons, List.map_map, List.flatten_cons,
      List.flatMap_cons, ← ih]
    rfl

theorem flatten_rowPieces (records : List Record) :
    ((List.range records.length).map (rowPiece records)).flatten = rowsText records := by
  cases records with
  | nil => rfl
  | cons r rs =>
    rw [List.length_cons, List.range_succ_eq_map, List.map_cons, List.map_map, List.flatten_cons,
      rowsText, ← flatten_rowPiece r rs]
    rfl

theorem spells_rows (r : Record) (rs : List Record) :
    SpellsElements (rowsText (r :: rs)) ((r :: rs).map recordValue) := by
  induction rs generalizing r with
  | nil =>
    rw [rowsText, List.flatMap_nil, List.append_nil]
    exact (spells_record r).element
  | cons r' rs ih =>
    rw [rowsText, List.flatMap_cons, List.cons_append]
    exact (spells_record r).elements (ih r')

theorem printable_rows (records : List Record) : Printable (rowsText records) := by
  cases records with
  | nil => exact printable_nil
  | cons r rs =>
    rw [rowsText, printable_append]
    refine ⟨printable_record r, fun c hc => ?_⟩
    obtain ⟨r', -, hr'⟩ := List.mem_flatMap.mp hc
    exact printable_cons.mpr ⟨by decide, printable_record r'⟩ c hr'

/-- The array of the rows. -/
theorem spells_rowsArray (records : List Record) :
    Spells (91 :: (rowsText records ++ [93])) (.array (records.map recordValue)) := by
  cases records with
  | nil => exact spells_empty
  | cons r rs => exact (spells_rows r rs).array

/-- All records are there when a chain with the rounds of the loop comes to its end. -/
theorem exists_records_of_rows {m : TableMemory} {result : SQLResult} {calls : List JsonCall}
    (hcalls : ∀ i < result.records.rows.length, apiAppendRow m result i ∈ calls) {s s' : JsonState}
    (h : jsonCalls calls s = some (true, s')) :
    ∃ records, m.recordsAt result.records.rows = some records := by
  refine TableMemory.exists_recordsAt fun p hp => ?_
  obtain ⟨i, hi, hp⟩ := List.mem_iff_getElem.mp hp
  obtain ⟨s₁, s₂, hrow⟩ := jsonCalls_all h (hcalls i hi)
  obtain ⟨s₃, s₄, hrecord⟩ := jsonCalls_all hrow (List.mem_cons_of_mem _ List.mem_cons_self)
  obtain ⟨q, hq, hrecord⟩ := Option.bind_eq_some_iff.mp hrecord
  obtain ⟨r, hr, -⟩ := Option.bind_eq_some_iff.mp hrecord
  rw [List.getElem?_eq_getElem hi, hp] at hq
  cases hq
  exact ⟨r, hr⟩

theorem appends_row {m : TableMemory} {result : SQLResult} {records : List Record}
    (h : m.recordsAt result.records.rows = some records) {index : ℕ}
    (hindex : index < result.records.rows.length) :
    Appends (apiAppendRow m result index) (rowPiece records index) := by
  have hp := List.getElem?_eq_getElem hindex
  have hr := TableMemory.record_of_recordsAt h hp
  have hlength := TableMemory.length_recordsAt h
  have hget := List.getElem?_eq_getElem (show index < records.length by omega)
  rw [hget] at hr
  have hcomma : Appends
      (if index > 0 then jsonBufferAppend (ascii ",") else fun s => some (true, s))
      (if index > 0 then ascii "," else []) := by
    split_ifs
    · exact appends_append _
    · exact appends_nil
  have hrecord : Appends (fun s => (result.records.rows[index]?).bind fun p => (m.record p).bind
      fun record => apiAppendRecord record s) (recordText records[index]) := by
    simp only [hp, hr, Option.bind_some]
    exact appends_record _
  have hpiece : rowPiece records index =
      [if index > 0 then ascii "," else [], recordText records[index]].flatten := by
    rw [rowPiece, hget]
    simp only [Option.map_some, Option.getD_some, List.flatten_cons, List.flatten_nil,
      List.append_nil]
  exact hpiece ▸ Appends.calls (.cons hcomma (.cons hrecord .nil))

/-- The rounds of the loop append the rows. -/
theorem appends_rows {m : TableMemory} {result : SQLResult} {records : List Record}
    (h : m.recordsAt result.records.rows = some records) :
    List.Forall₂ Appends ((List.range records.length).map (apiAppendRow m result))
      ((List.range records.length).map (rowPiece records)) := by
  rw [List.forall₂_map_left_iff, List.forall₂_map_right_iff, List.forall₂_same,
    ← TableMemory.length_recordsAt h]
  exact fun index hindex => appends_row h (List.mem_range.mp hindex)

/-! ### Success -/

theorem intText_natCast (n : ℕ) : intText n = decimalDigits n := by
  rw [intText, if_neg (by omega), List.nil_append, Int.natAbs_natCast]

/-- The body of the answer to an insertion. -/
def insertedText (insertedId : ℤ) (rowCount : ℕ) : CBytes :=
  [ascii "\x7b\"ok\":true,\"action\":", quote (ascii "insert"),
    ascii ",\"inserted_id\":" ++ intText insertedId ++ ascii ",\"row_count\":" ++
      decimalDigits rowCount ++ ascii "\x7d"].flatten

/-- The body of the answer to a lookup. -/
def selectedText (records : List Record) : CBytes :=
  [ascii "\x7b\"ok\":true,\"action\":", quote (ascii "select"),
    ascii ",\"row_count\":" ++ decimalDigits records.length ++ ascii ",\"rows\":[",
    rowsText records, ascii "]\x7d"].flatten

theorem appends_inserted {m : TableMemory} {result : SQLResult}
    (haction : result.action = .insert) :
    Appends (apiBuildSuccessResponse m result)
      (insertedText result.insertedId result.rowCount) := by
  rw [apiBuildSuccessResponse, haction, if_pos rfl]
  exact Appends.calls (.cons (appends_append _) (.cons (appends_jsonString _)
    (.cons (appends_appendf _) .nil)))

theorem appends_selected {m : TableMemory} {result : SQLResult}
    (haction : result.action = .selectRows) {records : List Record}
    (h : m.recordsAt result.records.rows = some records)
    (hcount : result.rowCount = records.length) :
    Appends (apiBuildSuccessResponse m result) (selectedText records) := by
  have hrest := List.rel_append (appends_rows h)
    (.cons (appends_append (ascii "]\x7d")) .nil : List.Forall₂ Appends _ [ascii "]\x7d"])
  have hcalls := Appends.calls (.cons (appends_append (ascii "\x7b\"ok\":true,\"action\":"))
    (.cons (appends_jsonString (ascii "select")) (.cons (appends_appendf
      (ascii ",\"row_count\":" ++ decimalDigits records.length ++ ascii ",\"rows\":["))
      hrest)))
  simp only [List.flatten_cons, List.flatten_append, flatten_rowPieces] at hcalls
  rw [apiBuildSuccessResponse, haction, if_neg (by decide), hcount]
  simp only [selectedText, List.flatten_cons]
  exact hcalls

theorem spells_inserted (insertedId : ℤ) (rowCount : ℕ) :
    Spells (insertedText insertedId rowCount) (insertedValue insertedId rowCount) := by
  have h := (spells_true.members (ascii "ok") ((spells_string (ascii "insert")).members
    (ascii "action") ((spells_int insertedId).members (ascii "inserted_id")
      ((spells_int rowCount).member (ascii "row_count"))))).object
  have hid : ascii ",\"inserted_id\":" = 44 :: (quote (ascii "inserted_id") ++ [58]) := by decide
  simp only [insertedText, List.flatten_cons, List.flatten_nil, ascii_okTrue, hid, ascii_rowCount,
    ascii_brace, intText_natCast, List.append_assoc, List.cons_append, List.nil_append,
    List.append_nil] at h ⊢
  exact h

theorem spells_selected (records : List Record) :
    Spells (selectedText records) (selectedValue records) := by
  have h := (spells_true.members (ascii "ok") ((spells_string (ascii "select")).members
    (ascii "action") ((spells_int records.length).members (ascii "row_count")
      ((spells_rowsArray records).member (ascii "rows"))))).object
  have hrows : ascii ",\"rows\":[" = 44 :: (quote (ascii "rows") ++ [58, 91]) := by decide
  have hend : ascii "]\x7d" = [93, 125] := by decide
  simp only [selectedText, List.flatten_cons, List.flatten_nil, ascii_okTrue, ascii_rowCount, hrows,
    hend, intText_natCast, List.append_assoc, List.cons_append, List.nil_append,
    List.append_nil] at h ⊢
  exact h

theorem printable_inserted (insertedId : ℤ) (rowCount : ℕ) :
    Printable (insertedText insertedId rowCount) := by
  simp only [insertedText, List.flatten_cons, List.flatten_nil, printable_append, printable_intText,
    printable_decimalDigits, printable_quote, printable_nil, and_true, true_and]
  decide

theorem printable_selected (records : List Record) : Printable (selectedText records) := by
  simp only [selectedText, List.flatten_cons, List.flatten_nil, printable_append, printable_rows,
    printable_decimalDigits, printable_quote, printable_nil, and_true, true_and]
  decide

/-! ### Errors -/

/-- The body of the answer to a rejected statement. -/
def errorText (status : CBytes) (errorCode : ℤ) (sqlState message : CBytes) : CBytes :=
  [ascii "\x7b\"ok\":false,\"status\":", quote status,
    ascii ",\"error_code\":" ++ intText errorCode ++ ascii ",\"sql_state\":", quote sqlState,
    ascii ",\"message\":", quote message, ascii "\x7d"].flatten

theorem appends_error {result : SQLResult} (h : result.errorMessage ≠ []) :
    Appends (apiBuildErrorResponse result) (errorText (apiStatusName result.status)
      result.errorCode result.sqlState result.errorMessage) := by
  rw [apiBuildErrorResponse, if_pos h]
  exact Appends.calls (.cons (appends_append _) (.cons (appends_jsonString _)
    (.cons (appends_appendf _) (.cons (appends_jsonString _) (.cons (appends_append _)
      (.cons (appends_jsonString _) (.cons (appends_append _) .nil)))))))

theorem spells_error (status : CBytes) (errorCode : ℤ) (sqlState message : CBytes) :
    Spells (errorText status errorCode sqlState message)
      (errorValue status errorCode sqlState message) := by
  have h := (spells_false.members (ascii "ok") ((spells_string status).members (ascii "status")
    ((spells_int errorCode).members (ascii "error_code") ((spells_string sqlState).members
      (ascii "sql_state") ((spells_string message).member (ascii "message")))))).object
  have hcode : ascii ",\"error_code\":" = 44 :: (quote (ascii "error_code") ++ [58]) := by decide
  have hstate : ascii ",\"sql_state\":" = 44 :: (quote (ascii "sql_state") ++ [58]) := by decide
  simp only [errorText, List.flatten_cons, List.flatten_nil, ascii_okFalse, hcode, hstate,
    ascii_message, ascii_brace, List.append_assoc, List.cons_append, List.nil_append,
    List.append_nil] at h ⊢
  exact h

theorem printable_error (status : CBytes) (errorCode : ℤ) (sqlState message : CBytes) :
    Printable (errorText status errorCode sqlState message) := by
  simp only [errorText, List.flatten_cons, List.flatten_nil, printable_append, printable_intText,
    printable_quote, printable_nil, and_true, true_and]
  decide

/-- The shape of the two fixed bodies. -/
def refusalText (status message : CBytes) : CBytes :=
  123 :: ((quote (ascii "ok") ++ 58 :: (ascii "false" ++ 44 :: (quote (ascii "status") ++
    58 :: (quote status ++ 44 :: (quote (ascii "message") ++ 58 :: quote message))))) ++ [125])

theorem spells_refusal (status message : CBytes) :
    Spells (refusalText status message) (refusalValue status message) :=
  (spells_false.members (ascii "ok") ((spells_string status).members (ascii "status")
    ((spells_string message).member (ascii "message")))).object

theorem printable_refusal (status message : CBytes) : Printable (refusalText status message) := by
  simp only [refusalText, printable_cons, printable_append, printable_quote, printable_nil,
    and_true, true_and]
  decide

theorem apiInternalError_eq : apiInternalError =
    refusalText (ascii "internal_error") (ascii "Internal database error") := by
  unfold apiInternalError
  repeat rw [ascii_ofList]
  decide

theorem apiExitNotSupported_eq : apiExitNotSupported = refusalText (ascii "exit_not_supported")
    (ascii "EXIT and QUIT are not supported over HTTP") := by
  unfold apiExitNotSupported
  rw [ascii_append]
  repeat rw [ascii_ofList]
  decide

/-! ### Answers -/

/-- A response that is given was written into an empty buffer. -/
theorem apiRespond_build {m m' : TableMemory} {httpStatus : ℤ} {build : JsonCall}
    {result : ApiResult} (h : apiRespond m httpStatus build = some (true, m', result)) :
    ∃ s s₁ body s₂, s.Built [] ∧ s.cap = 256 ∧ build s = some (true, s₁) ∧
      jsonBufferDetach s₁ = some (body, s₂) ∧ result = ⟨httpStatus, body⟩ := by
  obtain ⟨s, hs, hcap, -, hinit⟩ := jsonBufferInit_spec m.allocs (show 0 < 256 by decide)
  rw [apiRespond, hinit] at h
  split_ifs at h
  · rw [Option.bind_eq_bind, Option.bind_some] at h
    obtain ⟨⟨ok, s₁⟩, hrun, h⟩ := Option.bind_eq_some_iff.mp h
    cases ok with
    | false => cases h
    | true =>
      obtain ⟨⟨body, s₂⟩, hdetach, h⟩ := Option.bind_eq_some_iff.mp h
      have hresult := congrArg (fun r => r.2.2) (Option.some.inj h)
      exact ⟨s, s₁, body, s₂, hs, hcap, hrun, hdetach, hresult.symm⟩
  · cases h

/-- It returns 1 exactly when there is a body. -/
theorem apiRespond_ok {m m' : TableMemory} {httpStatus : ℤ} {build : JsonCall} {ok : Bool}
    {result : ApiResult} (h : apiRespond m httpStatus build = some (ok, m', result)) :
    ok = result.body.isSome := by
  obtain ⟨⟨ready, s⟩, -, h⟩ := Option.bind_eq_some_iff.mp h
  cases ready with
  | false =>
    cases h
    rfl
  | true =>
    obtain ⟨⟨built, s₁⟩, -, h⟩ := Option.bind_eq_some_iff.mp h
    cases built with
    | false =>
      cases h
      rfl
    | true =>
      obtain ⟨⟨body, s₂⟩, -, h⟩ := Option.bind_eq_some_iff.mp h
      cases h
      rfl

/-- With memory, there is a response. -/
theorem apiRespond_granted {m : TableMemory} (hallocs : m.allocs = []) (httpStatus : ℤ)
    {build : JsonCall} {text : CBytes} (hbuild : Appends build text) (htext : Printable text)
    (hlength : text.length < 2 ^ 31) :
    ∃ m' result, apiRespond m httpStatus build = some (true, m', result) ∧
      result.body = some text := by
  obtain ⟨s, hs, hcap, hs_allocs, hinit⟩ := jsonBufferInit_spec m.allocs (show 0 < 256 by decide)
  rw [hallocs] at hs_allocs hinit
  have hready : jsonBufferInit [] 256 = some (true, s) := hinit
  have hdvd : s.cap ∣ 2 ^ 63 := hcap ▸ by decide
  obtain ⟨s₁, hrun, -⟩ := hbuild.granted hs hdvd hs_allocs (by rwa [List.length_nil, Nat.zero_add])
  obtain ⟨hs₁, -⟩ := hbuild.built hs hdvd hrun
  rw [List.nil_append] at hs₁
  refine ⟨{ m with allocs := s₁.allocs }, ⟨httpStatus, some text⟩, ?_, rfl⟩
  rw [apiRespond, hallocs, hready]
  simp only [Option.bind_eq_bind, Option.bind_some, hrun, hs₁.detach htext.zero_notMem,
    Option.isSome_some]
  rfl

/-- The body of a response is what was appended. -/
theorem apiRespond_body {m m' : TableMemory} {httpStatus : ℤ} {build : JsonCall} {text : CBytes}
    (hbuild : Appends build text) (htext : Printable text) {result : ApiResult}
    (h : apiRespond m httpStatus build = some (true, m', result)) : result.body = some text := by
  obtain ⟨s, s₁, body, s₂, hs, hcap, hrun, hdetach, rfl⟩ := apiRespond_build h
  obtain ⟨hs₁, -⟩ := hbuild.built hs (hcap ▸ by decide) hrun
  rw [List.nil_append] at hs₁
  rw [hs₁.detach htext.zero_notMem] at hdetach
  cases hdetach
  rfl

/-- A statement that parsed and ran, with rows or without. -/
def Ran (m : TableMemory) (sql : CBytes) : Prop :=
  ∃ parse m₁ result, sqlParse sql = (true, parse) ∧ parse.command.type ≠ .exit ∧
    sqlExecutePlan m parse.command = some (m₁, result) ∧
    (result.status = .ok ∨ result.status = .notFound)

/-- What a query is answered with. -/
inductive AnswerTo (m : TableMemory) (sql : CBytes) : Value → Prop
  | rejected {parse : SQLParseResult} (hparse : sqlParse sql = (false, parse)) :
    AnswerTo m sql (errorValue (apiStatusName parse.status) parse.errorCode parse.sqlState
      parse.errorMessage)
  | exit {parse : SQLParseResult} (hparse : sqlParse sql = (true, parse))
      (htype : parse.command.type = .exit) :
    AnswerTo m sql (refusalValue (ascii "exit_not_supported")
      (ascii "EXIT and QUIT are not supported over HTTP"))
  | inserted {parse : SQLParseResult} {m₁ : TableMemory} {result : SQLResult}
      (hparse : sqlParse sql = (true, parse)) (htype : parse.command.type ≠ .exit)
      (hrun : sqlExecutePlan m parse.command = some (m₁, result)) (hstatus : result.status = .ok)
      (haction : result.action = .insert) :
    AnswerTo m sql (insertedValue result.insertedId result.rowCount)
  | selected {parse : SQLParseResult} {m₁ : TableMemory} {result : SQLResult}
      {records : List Record} (hparse : sqlParse sql = (true, parse))
      (htype : parse.command.type ≠ .exit)
      (hrun : sqlExecutePlan m parse.command = some (m₁, result))
      (hstatus : result.status = .ok ∨ result.status = .notFound)
      (haction : result.action = .selectRows)
      (hrecords : m₁.recordsAt result.records.rows = some records)
      (hcount : result.rowCount = records.length) :
    AnswerTo m sql (selectedValue records)
  | failed {parse : SQLParseResult} {m₁ : TableMemory} {result : SQLResult}
      (hparse : sqlParse sql = (true, parse)) (htype : parse.command.type ≠ .exit)
      (hrun : sqlExecutePlan m parse.command = some (m₁, result))
      (hstatus : result.status = .error) :
    AnswerTo m sql (refusalValue (ascii "internal_error") (ascii "Internal database error"))

/-- The bodies of these answers. -/
inductive BodyTo (m : TableMemory) (sql : CBytes) : CBytes → Prop
  | rejected {parse : SQLParseResult} (hparse : sqlParse sql = (false, parse)) :
    BodyTo m sql (errorText (apiStatusName parse.status) parse.errorCode parse.sqlState
      parse.errorMessage)
  | exit {parse : SQLParseResult} (hparse : sqlParse sql = (true, parse))
      (htype : parse.command.type = .exit) : BodyTo m sql apiExitNotSupported
  | inserted {parse : SQLParseResult} {m₁ : TableMemory} {result : SQLResult}
      (hparse : sqlParse sql = (true, parse)) (htype : parse.command.type ≠ .exit)
      (hrun : sqlExecutePlan m parse.command = some (m₁, result)) (hstatus : result.status = .ok)
      (haction : result.action = .insert) :
    BodyTo m sql (insertedText result.insertedId result.rowCount)
  | selected {parse : SQLParseResult} {m₁ : TableMemory} {result : SQLResult}
      {records : List Record} (hparse : sqlParse sql = (true, parse))
      (htype : parse.command.type ≠ .exit)
      (hrun : sqlExecutePlan m parse.command = some (m₁, result))
      (hstatus : result.status = .ok ∨ result.status = .notFound)
      (haction : result.action = .selectRows)
      (hrecords : m₁.recordsAt result.records.rows = some records)
      (hcount : result.rowCount = records.length) : BodyTo m sql (selectedText records)
  | failed {parse : SQLParseResult} {m₁ : TableMemory} {result : SQLResult}
      (hparse : sqlParse sql = (true, parse)) (htype : parse.command.type ≠ .exit)
      (hrun : sqlExecutePlan m parse.command = some (m₁, result))
      (hstatus : result.status = .error) : BodyTo m sql apiInternalError

/-- A body says what the query is answered with. -/
theorem BodyTo.spells {m : TableMemory} {sql body : CBytes} (h : BodyTo m sql body) :
    ∃ value, Spells body value ∧ AnswerTo m sql value := by
  cases h with
  | rejected hparse => exact ⟨_, spells_error _ _ _ _, .rejected hparse⟩
  | exit hparse htype =>
    rw [apiExitNotSupported_eq]
    exact ⟨_, spells_refusal _ _, .exit hparse htype⟩
  | inserted hparse htype hrun hstatus haction =>
    exact ⟨_, spells_inserted _ _, .inserted hparse htype hrun hstatus haction⟩
  | selected hparse htype hrun hstatus haction hrecords hcount =>
    exact ⟨_, spells_selected _, .selected hparse htype hrun hstatus haction hrecords hcount⟩
  | failed hparse htype hrun hstatus =>
    rw [apiInternalError_eq]
    exact ⟨_, spells_refusal _ _, .failed hparse htype hrun hstatus⟩

/-- The member `ok`. -/
def okMember : Value → Option Value
  | .object members => members.lookup (ascii "ok")
  | _ => none

/-- The member `ok` is true exactly when the statement parsed and ran. -/
theorem AnswerTo.ok_iff {m : TableMemory} {sql : CBytes} {value : Value}
    (h : AnswerTo m sql value) :
    okMember value = some (.bool true) ↔ Ran m sql := by
  have hfalse : ∀ {members : List (CBytes × Value)},
      okMember (.object ((ascii "ok", .bool false) :: members)) ≠ some (.bool true) := by
    intro members h
    cases h
  cases h with
  | rejected hparse =>
    refine iff_of_false hfalse ?_
    rintro ⟨parse', m₁', result', hparse', -⟩
    rw [hparse] at hparse'
    cases hparse'
  | exit hparse htype =>
    refine iff_of_false hfalse ?_
    rintro ⟨parse', m₁', result', hparse', htype', -⟩
    rw [hparse] at hparse'
    cases hparse'
    exact htype' htype
  | inserted hparse htype hrun hstatus haction =>
    exact iff_of_true rfl ⟨_, _, _, hparse, htype, hrun, Or.inl hstatus⟩
  | selected hparse htype hrun hstatus haction hrecords hcount =>
    exact iff_of_true rfl ⟨_, _, _, hparse, htype, hrun, hstatus⟩
  | failed hparse htype hrun hstatus =>
    refine iff_of_false hfalse ?_
    rintro ⟨parse', m₁', result', hparse', htype', hrun', hstatus'⟩
    rw [hparse] at hparse'
    cases hparse'
    rw [hrun] at hrun'
    cases hrun'
    rw [hstatus] at hstatus'
    rcases hstatus' with h | h <;> cases h

/-- The response to a lookup. -/
theorem apiRespond_selected {m m' : TableMemory} {sqlResult : SQLResult}
    (haction : sqlResult.action = .selectRows)
    (hcount : sqlResult.rowCount = sqlResult.records.rows.length) {result : ApiResult}
    (h : apiRespond m 200 (apiBuildSuccessResponse m sqlResult) = some (true, m', result)) :
    ∃ records, m.recordsAt sqlResult.records.rows = some records ∧
      sqlResult.rowCount = records.length ∧ result.body = some (selectedText records) := by
  obtain ⟨s, s₁, body, s₂, -, -, hrun, -⟩ := apiRespond_build h
  obtain ⟨records, hrecords⟩ : ∃ records, m.recordsAt sqlResult.records.rows = some records := by
    rw [apiBuildSuccessResponse, haction, if_neg (by decide), hcount] at hrun
    refine exists_records_of_rows (fun i hi => ?_) hrun
    exact List.mem_append_right _ (List.mem_append_left _
      (List.mem_cons_of_mem _ (List.mem_map_of_mem (List.mem_range.mpr hi))))
  have hlength := hcount.trans (TableMemory.length_recordsAt hrecords)
  exact ⟨records, hrecords, hlength,
    apiRespond_body (appends_selected haction hrecords hlength) (printable_selected records) h⟩

/-- The response to a statement that was executed. -/
theorem apiRespondResult_body {m m₁ m' : TableMemory} {sql : CBytes} {parse : SQLParseResult}
    (hparse : sqlParse sql = (true, parse)) (htype : parse.command.type ≠ .exit)
    {sqlResult : SQLResult} (hrun : sqlExecutePlan m parse.command = some (m₁, sqlResult))
    {result : ApiResult} (h : apiRespondResult m₁ sqlResult = some (true, m', result)) :
    ∃ body, result.body = some body ∧ BodyTo m sql body := by
  rcases sqlExecutePlan_cases hrun htype with hstatus | ⟨haction, hstatus, -⟩ |
    ⟨haction, hstatus, hcount⟩
  · rw [apiRespondResult, hstatus] at h
    exact ⟨_, apiRespond_body (appends_append _) (apiInternalError_eq ▸ printable_refusal _ _) h,
      .failed hparse htype hrun hstatus⟩
  · rw [apiRespondResult, hstatus] at h
    exact ⟨_, apiRespond_body (appends_inserted haction) (printable_inserted _ _) h,
      .inserted hparse htype hrun hstatus haction⟩
  · have hselected : apiRespond m₁ 200 (apiBuildSuccessResponse m₁ sqlResult) =
        some (true, m', result) := by
      rcases hstatus with hstatus | hstatus <;> rwa [apiRespondResult, hstatus] at h
    obtain ⟨records, hrecords, hlength, hbody⟩ := apiRespond_selected haction hcount hselected
    exact ⟨_, hbody, .selected hparse htype hrun hstatus haction hrecords hlength⟩

/-- The response to a statement that was rejected. -/
theorem apiHandleQuery_rejected {m : TableMemory} {sql : CBytes} {parse : SQLParseResult}
    (hparse : sqlParse sql = (false, parse)) :
    ∃ build, apiHandleQuery m sql = apiRespond m 200 build ∧
      Appends build (errorText (apiStatusName parse.status) parse.errorCode parse.sqlState
        parse.errorMessage) := by
  have hreports := sqlParse_reports hparse
  have herror : parse.status ≠ .error := by
    rcases hreports.status with hstatus | hstatus <;> rw [hstatus] <;> decide
  refine ⟨_, by rw [apiHandleQuery, hparse]; exact if_neg herror, ?_⟩
  have hbuild : ∀ r : SQLResult, r.errorMessage ≠ [] → Appends (apiBuildErrorResponse r)
      (errorText (apiStatusName r.status) r.errorCode r.sqlState r.errorMessage) :=
    fun r => appends_error
  simp only [snprintf_eq hreports.sqlState, snprintf_eq hreports.length_message]
  exact hbuild _ hreports.message

theorem apiHandleQuery_ok {m m' : TableMemory} {sql : CBytes} {ok : Bool} {result : ApiResult}
    (h : apiHandleQuery m sql = some (ok, m', result)) : ok = result.body.isSome := by
  unfold apiHandleQuery at h
  split at h
  · split_ifs at h <;> exact apiRespond_ok h
  · split_ifs at h
    · exact apiRespond_ok h
    · obtain ⟨⟨m₁, sqlResult⟩, -, h⟩ := Option.bind_eq_some_iff.mp h
      obtain ⟨⟨ok', m₂, result'⟩, hrespond, h⟩ := Option.bind_eq_some_iff.mp h
      cases h
      unfold apiRespondResult at hrespond
      split at hrespond <;> exact apiRespond_ok hrespond

/-- Every answer has a body, and it is one of these. -/
theorem apiHandleQuery_body {m m' : TableMemory} {sql : CBytes} {result : ApiResult}
    (h : apiHandleQuery m sql = some (true, m', result)) :
    ∃ body, result.body = some body ∧ BodyTo m sql body := by
  cases hparse : sqlParse sql with
  | mk accepted parse =>
    cases accepted with
    | false =>
      obtain ⟨build, heq, hbuild⟩ := apiHandleQuery_rejected (m := m) hparse
      rw [heq] at h
      exact ⟨_, apiRespond_body hbuild (printable_error _ _ _ _) h, .rejected hparse⟩
    | true =>
      rw [apiHandleQuery, hparse] at h
      dsimp only at h
      split_ifs at h with htype
      · exact ⟨_, apiRespond_body (appends_append _)
          (apiExitNotSupported_eq ▸ printable_refusal _ _) h, .exit hparse htype⟩
      · obtain ⟨⟨m₁, sqlResult⟩, hrun, h⟩ := Option.bind_eq_some_iff.mp h
        obtain ⟨⟨ok, m₂, result'⟩, hrespond, h⟩ := Option.bind_eq_some_iff.mp h
        cases h
        exact apiRespondResult_body hparse htype hrun hrespond

/-- **The answer is one JSON object with nothing behind it**, and it says what came out. -/
theorem apiHandleQuery_answer (m : TableMemory) (sql : CBytes) (m' : TableMemory)
    (result : ApiResult) (h : apiHandleQuery m sql = some (true, m', result)) :
    ∃ body value, result.body = some body ∧ Json.read body = some (value, []) ∧
      AnswerTo m sql value ∧ (okMember value = some (.bool true) ↔ Ran m sql) := by
  obtain ⟨body, hbody, hto⟩ := apiHandleQuery_body h
  obtain ⟨value, hread, hanswer⟩ := hto.spells
  exact ⟨body, value, hbody, hread.read, hanswer, hanswer.ok_iff⟩

/-- A name with a quote and a backslash, stored and read back. -/
theorem apiHandleQuery_answer_quoted :
    ∃ m₁ m₂ r₁ r₂ body value,
      apiHandleQuery (.start [] []) (ascii "INSERT INTO users VALUES ('a\"b\\', -7)") =
        some (true, m₁, r₁) ∧
      apiHandleQuery m₁ (ascii "SELECT * FROM users") = some (true, m₂, r₂) ∧
      r₂.body = some body ∧ Json.read body = some (value, []) ∧
      AnswerTo m₁ (ascii "SELECT * FROM users") value ∧
      (okMember value = some (.bool true) ↔ Ran m₁ (ascii "SELECT * FROM users")) := by
  have hruns : (do
      let inserted ← apiHandleQuery (.start [] [])
        (ascii "INSERT INTO users VALUES ('a\"b\\', -7)")
      let selected ← apiHandleQuery inserted.2.1 (ascii "SELECT * FROM users")
      some (inserted.1, selected.1)) = some (true, true) := by
    decide +kernel
  obtain ⟨⟨ok₁, m₁, r₁⟩, h₁, hruns⟩ := Option.bind_eq_some_iff.mp hruns
  obtain ⟨⟨ok₂, m₂, r₂⟩, h₂, hruns⟩ := Option.bind_eq_some_iff.mp hruns
  cases hruns
  obtain ⟨body, value, hanswer⟩ := apiHandleQuery_answer _ _ _ _ h₂
  exact ⟨m₁, m₂, r₁, r₂, body, value, h₁, h₂, hanswer⟩

end MiniDbms
