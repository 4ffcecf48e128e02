import MiniDbms.Server.Equiv.Api
import MiniDbms.Sql.Equiv.Select
import MiniDbms.Table.Equiv.Failures

/-!
# Queries when memory runs out

An internal error is an answer with the status 500, or none (`InternalError`).  It should say that
the table is as it was.  Of an insertion it does not when the index has lost rows (`CutsIndex`), or
when the row was stored but there was no memory for the answer (`LosesAnswer`).  `Reached` is a
table after any queries none of which has cut an index, and `apiHandleQuery_untouched_iff` says that
for the next query on it these two are the only exceptions.
-/

namespace MiniDbms

open CString Json TableMemory

/-- The client is told `internal_error`. -/
def InternalError (ok : Bool) (result : ApiResult) : Prop := ok = false ∨ result.httpStatus = 500

/-- The text is a correct INSERT. -/
def Inserts (sql : CBytes) : Prop :=
  ∃ parse, sqlParse sql = (true, parse) ∧ parse.command.type = .insert

/-- An insertion stores its row, and the allocation behind those for the row is refused. -/
def TableMemory.LosesAnswer (m : TableMemory) : Prop :=
  m.StoresRow ∧ ¬ m.Grants (m.firstNode + m.nodeCount)

/-- The tables that queries make of a new one, when none of them cuts an index; before each of them,
any outcomes of the coming allocations. -/
inductive Reached : TableMemory → Prop
  | start : Reached (.start [] [])
  | allocs {m : TableMemory} (allocs : List Bool) (h : Reached m) :
    Reached { m with allocs := allocs }
  | query {m m' : TableMemory} {sql : CBytes} {ok : Bool} {result : ApiResult} (h : Reached m)
      (not_cuts : ¬ (Inserts sql ∧ m.CutsIndex))
      (run : apiHandleQuery m sql = some (ok, m', result)) : Reached m'

section Lookups

variable {m m' : TableMemory}

/-! ### What does not insert -/

theorem sqlExecutePlan_memoryOnly (hu : m.Unlocked) {command : SQLCommand}
    (htype : command.type ≠ .insert) {sqlResult : SQLResult}
    (h : sqlExecutePlan m command = some (m', sqlResult)) : m.MemoryOnly m' := by
  obtain ⟨⟨used, honly⟩, -⟩ := sqlExecutePlan_leaves htype h
  exact honly.memoryOnly hu.lockResults

/-! ### Responses -/

/-- A response takes memory, and it has the status it was given or 500. -/
theorem apiRespond_memoryOnly {httpStatus : ℤ} {build : JsonCall} {ok : Bool} {result : ApiResult}
    (h : apiRespond m httpStatus build = some (ok, m', result)) :
    m.MemoryOnly m' ∧ (result.httpStatus = 500 ∨ result.httpStatus = httpStatus) := by
  obtain ⟨⟨ready, s⟩, -, h⟩ := Option.bind_eq_some_iff.mp h
  cases ready with
  | false =>
    cases h
    exact ⟨memoryOnly_allocs m _, Or.inl rfl⟩
  | true =>
    obtain ⟨⟨built, s₁⟩, -, h⟩ := Option.bind_eq_some_iff.mp h
    cases built with
    | false =>
      cases h
      exact ⟨memoryOnly_allocs m _, Or.inr rfl⟩
    | true =>
      obtain ⟨⟨body, s₂⟩, -, h⟩ := Option.bind_eq_some_iff.mp h
      cases h
      exact ⟨memoryOnly_allocs m _, Or.inr rfl⟩

/-- A short text is an answer exactly when the buffer gets its memory. -/
theorem apiRespond_short {httpStatus : ℤ} {build : JsonCall} {text : CBytes}
    (hbuild : Appends build text) (htext : Printable text) (hlength : text.length < 256) {ok : Bool}
    {result : ApiResult} (h : apiRespond m httpStatus build = some (ok, m', result)) :
    m.Grants 0 ∧ ok = true ∧ result.httpStatus = httpStatus ∨ ¬ m.Grants 0 ∧ ok = false := by
  obtain ⟨s, hs, hcap, -, hinit⟩ := jsonBufferInit_spec m.allocs (show 0 < 256 by decide)
  rw [apiRespond, hinit] at h
  by_cases hgrant : m.allocs.headD true = true
  · obtain ⟨s₁, hrun, hs₁, -⟩ := hbuild.fits hs (hcap ▸ by decide) (by omega) (by
      rw [hcap, List.length_nil]
      omega)
    rw [List.nil_append] at hs₁
    rw [if_pos hgrant] at h
    simp only [Option.bind_eq_bind, Option.bind_some, hrun, hs₁.detach htext.zero_notMem] at h
    cases h
    exact Or.inl ⟨grants_zero.mpr hgrant, rfl, rfl⟩
  · rw [if_neg hgrant] at h
    cases h
    exact Or.inr ⟨fun hg => hgrant (grants_zero.mp hg), rfl⟩

theorem apiRespondResult_memoryOnly {sqlResult : SQLResult} {ok : Bool} {result : ApiResult}
    (h : apiRespondResult m sqlResult = some (ok, m', result)) : m.MemoryOnly m' := by
  unfold apiRespondResult at h
  split at h <;> exact (apiRespond_memoryOnly h).1

/-- **A query that does not insert** leaves the table as it is. -/
theorem apiHandleQuery_memoryOnly (hu : m.Unlocked) {sql : CBytes} (hsql : ¬ Inserts sql)
    {ok : Bool}
    {result : ApiResult} (h : apiHandleQuery m sql = some (ok, m', result)) : m.MemoryOnly m' := by
  unfold apiHandleQuery at h
  split at h
  · split_ifs at h <;> exact (apiRespond_memoryOnly h).1
  · rename_i parse hparse
    split_ifs at h
    · exact (apiRespond_memoryOnly h).1
    · obtain ⟨⟨m₁, sqlResult⟩, hplan, h⟩ := Option.bind_eq_some_iff.mp h
      obtain ⟨⟨ok', m₂, result'⟩, hrespond, h⟩ := Option.bind_eq_some_iff.mp h
      cases h
      have htype : parse.command.type ≠ .insert := fun htype => hsql ⟨parse, hparse, htype⟩
      exact ((sqlExecutePlan_memoryOnly hu htype hplan).trans
        (apiRespondResult_memoryOnly hrespond)).trans (memoryOnly_freeArray m₂ _)

end Lookups

/-! ### What inserts -/

/-- The answer to an insertion fits into the first memory of the buffer. -/
theorem length_insertedText_lt {id : ℤ} (h : IsInt id) : (insertedText id 1).length < 256 := by
  have hid := length_intText_le h.1 h.2
  have hok : (ascii "\x7b\"ok\":true,\"action\":").length = 20 := by decide
  have hquote : (quote (ascii "insert")).length = 8 := by decide
  have hinserted : (ascii ",\"inserted_id\":").length = 15 := by decide
  have hcount : (ascii ",\"row_count\":").length = 13 := by decide
  have hdigits : (decimalDigits 1).length ≤ 1 := length_decimalDigits_le (by omega) (by omega)
  have hend : (ascii "\x7d").length = 1 := by decide
  simp only [insertedText, List.flatten_cons, List.flatten_nil, List.length_append, List.length_nil,
    hok, hquote, hinserted, hcount, hend]
  omega

/-- An insertion that stored nothing fails. -/
theorem sqlExecutePlan_failed {m m₁ : TableMemory} {command : SQLCommand}
    (htype : command.type = .insert)
    (hinsert : tableInsert m command.name command.intValue = some (m₁, none)) :
    sqlExecutePlan m command = some (m₁, sqlMakeResult .error .none) := by
  rw [sqlExecutePlan, htype]
  dsimp only
  rw [sqlExecuteInsertPlan, if_neg (not_not.mpr htype), hinsert]
  rfl

/-- An insertion that stored a record gives its ID. -/
theorem sqlExecutePlan_inserted {m m₁ : TableMemory} {command : SQLCommand}
    (htype : command.type = .insert) {p : RecordPtr}
    (hinsert : tableInsert m command.name command.intValue = some (m₁, some p)) {r : Record}
    (hrecord : m₁.record p = some r) :
    ∃ sqlResult, sqlExecutePlan m command = some (m₁, sqlResult) ∧ sqlResult.status = .ok ∧
      sqlResult.action = .insert ∧ sqlResult.insertedId = r.id ∧ sqlResult.rowCount = 1 := by
  refine ⟨{ sqlMakeResult .ok .insert with
    record := some p, insertedId := r.id, rowCount := 1 }, ?_, rfl, rfl, rfl, rfl⟩
  rw [sqlExecutePlan, htype]
  dsimp only
  rw [sqlExecuteInsertPlan, if_neg (not_not.mpr htype), hinsert]
  show (m₁.record p).bind _ = _
  rw [hrecord]
  rfl

/-- **A query that inserts**: what becomes of the table, and what the client is told. -/
theorem apiHandleQuery_insert {m : TableMemory} {rs : Rows} (hu : m.Unlocked) (hs : m.Stores rs)
    (hid : IsInt m.nextId) {sql : CBytes} (hsql : Inserts sql) {ok : Bool} {m' : TableMemory}
    {result : ApiResult} (h : apiHandleQuery m sql = some (ok, m', result)) :
    ∃ m₁ found, m.InsertOutcome rs m₁ found ∧ m₁.Unlocked ∧
      m₁.nextId = intWrap (m.nextId + 1) ∧ m₁.MemoryOnly m' ∧
      (InternalError ok result ↔ ¬ (m.StoresRow ∧ m.Grants (m.firstNode + m.nodeCount))) := by
  obtain ⟨parse, hparse, htype⟩ := hsql
  obtain ⟨m₁, found, hinsert, hu₁, hnext, houtcome⟩ :=
    tableInsert_outcome hu hs parse.command.name parse.command.intValue
  have hnot : ¬ parse.command.type = .exit := fun hexit => by
    rw [htype] at hexit
    cases hexit
  rw [apiHandleQuery, hparse] at h
  dsimp only at h
  rw [if_neg hnot] at h
  obtain ⟨⟨m₂, sqlResult⟩, hplan, h⟩ := Option.bind_eq_some_iff.mp h
  obtain ⟨⟨ok₁, m₃, result₁⟩, hrespond, h⟩ := Option.bind_eq_some_iff.mp h
  have hmemory := (apiRespondResult_memoryOnly hrespond).trans
    (memoryOnly_freeArray m₃ sqlResult.records)
  cases h
  -- nothing was stored: the status is 500
  have hfailed : found = none → m₁ = m₂ ∧ InternalError ok₁ result₁ := by
    rintro rfl
    rw [sqlExecutePlan_failed htype hinsert] at hplan
    cases hplan
    obtain ⟨-, hstatus⟩ := apiRespond_memoryOnly hrespond
    exact ⟨rfl, Or.inr (hstatus.elim id id)⟩
  refine ⟨m₁, found, houtcome, hu₁, hnext, ?_⟩
  cases houtcome with
  | @stored r stores not_cuts id_eq record allocs holds =>
    obtain ⟨sqlResult', hrun, hstatus, haction, hinserted, hcount⟩ :=
      sqlExecutePlan_inserted htype hinsert record
    rw [hrun] at hplan
    cases hplan
    rw [apiRespondResult, hstatus] at hrespond
    have hlength : (insertedText sqlResult.insertedId sqlResult.rowCount).length < 256 := by
      rw [hinserted, hcount, id_eq]
      exact length_insertedText_lt hid
    have hshort := apiRespond_short (appends_inserted haction) (printable_inserted _ _) hlength
      hrespond
    have hgrants : m₁.Grants 0 ↔ m.Grants (m.firstNode + m.nodeCount) := by
      rw [Grants, allocs]
      exact grants_drop
    refine ⟨hmemory, ?_⟩
    rcases hshort with ⟨hgrant, rfl, hstatus⟩ | ⟨hrefused, rfl⟩
    · refine iff_of_false ?_ (not_not.mpr ⟨stores, hgrants.mp hgrant⟩)
      rintro (hok | herror)
      · cases hok
      · rw [hstatus] at herror
        cases herror
    · exact iff_of_true (Or.inl rfl) fun hboth => hrefused (hgrants.mpr hboth.2)
  | kept not_stores not_cuts holds =>
    obtain ⟨rfl, herror⟩ := hfailed rfl
    exact ⟨hmemory, iff_of_true herror fun hboth => not_stores hboth.1⟩
  | cut not_stores cuts mem index lost =>
    obtain ⟨rfl, herror⟩ := hfailed rfl
    exact ⟨hmemory, iff_of_true herror fun hboth => not_stores hboth.1⟩

/-! ### Runs -/

/-- What queries keep. -/
structure TableMemory.Sound (m : TableMemory) (rs : Rows) : Prop where
  stores : m.Stores rs
  unlocked : m.Unlocked
  nextId : IsInt m.nextId

theorem TableMemory.Sound.memoryOnly {m m' : TableMemory} {rs : Rows} (h : m.Sound rs)
    (hm' : m.MemoryOnly m') : m'.Sound rs :=
  ⟨hm'.stores h.stores, hm'.unlocked h.unlocked, hm'.nextId ▸ h.nextId⟩

theorem Reached.sound {m : TableMemory} (h : Reached m) : ∃ rs, m.Sound rs := by
  induction h with
  | start =>
    obtain ⟨rs, hs, -⟩ := refines_start.stores
    exact ⟨rs, hs, ⟨rfl, rfl⟩, by decide, by decide⟩
  | @allocs m allocs _ ih =>
    obtain ⟨rs, hm⟩ := ih
    exact ⟨rs, hm.memoryOnly (memoryOnly_allocs m allocs)⟩
  | @query m m' sql ok result _ not_cuts run ih =>
    obtain ⟨rs, hm⟩ := ih
    by_cases hsql : Inserts sql
    · obtain ⟨m₁, found, houtcome, hu₁, hnext, hm', -⟩ :=
        apiHandleQuery_insert hm.unlocked hm.stores hm.nextId hsql run
      have hsound : ∀ {rs' : Rows}, m₁.Stores rs' → m'.Sound rs' := fun hs =>
        TableMemory.Sound.memoryOnly ⟨hs, hu₁, hnext ▸ isInt_intWrap _⟩ hm'
      cases houtcome with
      | stored stores _ id_eq record allocs holds => exact ⟨_, hsound holds⟩
      | kept not_stores _ holds => exact ⟨rs, hsound holds⟩
      | cut not_stores cuts mem index lost => exact absurd ⟨hsql, cuts⟩ not_cuts
    · exact ⟨rs, hm.memoryOnly (apiHandleQuery_memoryOnly hm.unlocked hsql run)⟩

/-- **An internal error leaves the table as it was exactly when** the query was no INSERT, or one
that neither cuts an index nor stores its row without memory for the answer. -/
theorem apiHandleQuery_untouched_iff {m : TableMemory} (h : Reached m) {sql : CBytes} {ok : Bool}
    {m' : TableMemory} {result : ApiResult} (hrun : apiHandleQuery m sql = some (ok, m', result)) :
    (InternalError ok result → m.Untouched m') ↔
      ¬ (Inserts sql ∧ (m.CutsIndex ∨ m.LosesAnswer)) := by
  obtain ⟨rs, hm⟩ := h.sound
  by_cases hsql : Inserts sql
  · obtain ⟨m₁, found, houtcome, hu₁, -, hm', herror⟩ :=
      apiHandleQuery_insert hm.unlocked hm.stores hm.nextId hsql hrun
    have hu' := hm'.unlocked hu₁
    cases houtcome with
    | stored stores not_cuts id_eq record allocs holds =>
      have hchanged := hm.stores.not_untouched_add (hm'.stores holds)
      constructor
      · rintro huntouched ⟨-, hcuts | ⟨-, hrefused⟩⟩
        · exact not_cuts hcuts
        · exact hchanged (huntouched (herror.mpr fun hboth => hrefused hboth.2))
      · intro hnot hinternal
        have hboth := herror.mp hinternal
        exact absurd ⟨hsql, Or.inr ⟨stores, fun hgrant => hboth ⟨stores, hgrant⟩⟩⟩ hnot
    | kept not_stores not_cuts holds =>
      refine iff_of_true (fun _ => hm.stores.untouched (hm'.stores holds) hu') ?_
      rintro ⟨-, hcuts | ⟨hstores, -⟩⟩
      · exact not_cuts hcuts
      · exact not_stores hstores
    | cut not_stores cuts mem index lost =>
      have hbuckets : m'.buckets = m₁.buckets := by
        obtain ⟨_, _, _, rfl⟩ := hm'
        rfl
      have hlost := hm.stores.not_untouched_lost hu' mem (hbuckets ▸ index) lost
      refine iff_of_false (fun huntouched => hlost (huntouched (herror.mpr ?_))) ?_
      · exact fun hboth => not_stores hboth.1
      · exact not_not.mpr ⟨hsql, Or.inl cuts⟩
  · have hm' := apiHandleQuery_memoryOnly hm.unlocked hsql hrun
    exact iff_of_true (fun _ => hm.stores.untouched (hm'.stores hm.stores)
      (hm'.unlocked hm.unlocked)) fun hboth => hsql hboth.1

/-- Without memory for the array of the bucket nothing is stored. -/
theorem apiHandleQuery_untouched_iff_no_array :
    ∃ m' result, apiHandleQuery { TableMemory.start [] [] with allocs := [false] }
        (ascii "INSERT INTO users VALUES ('kim', 30)") = some (true, m', result) ∧
      result.httpStatus = 500 ∧
      ({ TableMemory.start [] [] with allocs := [false] } : TableMemory).Untouched m' := by
  have hruns : (do
      let answer ← apiHandleQuery { TableMemory.start [] [] with allocs := [false] }
        (ascii "INSERT INTO users VALUES ('kim', 30)")
      some (answer.1, answer.2.2.httpStatus)) = some (true, 500) := by
    decide +kernel
  obtain ⟨⟨ok, m', result⟩, hrun, hruns⟩ := Option.bind_eq_some_iff.mp hruns
  obtain ⟨rfl, hstatus⟩ := Prod.mk.inj (Option.some.inj hruns)
  refine ⟨m', result, hrun, hstatus, ?_⟩
  refine (apiHandleQuery_untouched_iff (.allocs [false] .start) hrun).mpr ?_ (Or.inr hstatus)
  rintro ⟨-, ⟨hgrants, -⟩ | ⟨⟨-, hgrants⟩, -⟩⟩
  · exact absurd (hgrants 0 (Nat.zero_le _)) Bool.false_ne_true
  · refine absurd (hgrants 0 ?_) Bool.false_ne_true
    exact Nat.lt_of_lt_of_le (Nat.succ_pos _) (Nat.le_add_right _ _)

/-- The row is stored, but there is no memory for the answer: the client is told
`internal_error`. -/
theorem apiHandleQuery_stores_unanswered :
    ∃ m' result, apiHandleQuery { TableMemory.start [] [] with allocs := [true, true, true, false] }
        (ascii "INSERT INTO users VALUES ('kim', 30)") = some (false, m', result) ∧
      result.httpStatus = 500 ∧
      ¬ ({ TableMemory.start [] [] with allocs := [true, true, true, false] } :
        TableMemory).Untouched m' := by
  have hruns : (do
      let answer ← apiHandleQuery
        { TableMemory.start [] [] with allocs := [true, true, true, false] }
        (ascii "INSERT INTO users VALUES ('kim', 30)")
      some (answer.1, answer.2.2.httpStatus, (answer.2.1.buckets 1).rows)) =
        some (false, 500, [0]) := by
    decide
  obtain ⟨⟨ok, m', result⟩, hrun, hruns⟩ := Option.bind_eq_some_iff.mp hruns
  obtain ⟨rfl, hrest⟩ := Prod.mk.inj (Option.some.inj hruns)
  obtain ⟨hstatus, hrows⟩ := Prod.mk.inj hrest
  refine ⟨m', result, hrun, hstatus, fun huntouched => ?_⟩
  have hempty := huntouched.rows 1
  rw [hrows] at hempty
  have hlength := TableMemory.length_recordsAt (hempty.trans (show _ = some [] from rfl))
  cases hlength

end MiniDbms
