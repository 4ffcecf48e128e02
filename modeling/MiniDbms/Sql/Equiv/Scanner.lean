import MiniDbms.Sql.Equiv.ScannerErrors

/-!
# The parser stays inside its input and its buffers

Over checked memory `sql_parse` succeeds for every input, with any struct for its result, and the
struct represents what the list-level parser makes of the input: `sqlParse_inBounds`.  The message
of a rejected input is complete.
-/

namespace MiniDbms.Scanner

open Checked CString

variable {turns : ℕ} {w : CPointer.Walk turns} {p : CPointer} {s : CBytes}

/-- The struct while nothing has been reported. -/
structure Pending (result : SQLParseResult) (r : MiniDbms.SQLParseResult) : Prop where
  represents : result.Represents r
  texts : result.command.TextsEnd r.command
  no_error : r.errorMessage = []

/-- The struct when a statement has been parsed, or refused. -/
structure Outcome (w : CPointer.Walk turns) (result : SQLParseResult)
    (r : MiniDbms.SQLParseResult) : Prop where
  represents : result.Represents r
  texts : r.parsed = true ∨ r.errorMessage = [] → result.command.TextsEnd r.command
  message : r.errorMessage ≠ [] → result.ReportsInFull w.start w.text

theorem Pending.outcome {result : SQLParseResult} {r : MiniDbms.SQLParseResult}
    (h : Pending result r) : Outcome w result r where
  represents := h.represents
  texts _ := h.texts
  message hne := absurd h.no_error hne

/-- What `sql_parse_string` leaves in the name of the command. -/
theorem SQLParseResult.Represents.name {result : SQLParseResult} {r : MiniDbms.SQLParseResult}
    (h : result.Represents r) {name : CArray UInt8 recordNameSize} (hname : name.Holds s) :
    SQLParseResult.Represents { result with command := { result.command with name := name } }
      { r with command := { r.command with name := s } } :=
  { h with command := { h.command with name := hname } }

theorem Pending.name {result : SQLParseResult} {r : MiniDbms.SQLParseResult}
    (h : Pending result r) {name : CArray UInt8 recordNameSize}
    (hname : (CPointer.ofArray name).StringAt s) :
    Pending { result with command := { result.command with name := name } }
      { r with command := { r.command with name := s } } where
  represents := h.represents.name (holds_of_stringAt hname)
  texts := { h.texts with name := hname }
  no_error := h.no_error

/-- What `sql_parse_string` leaves in the text of the command. -/
theorem SQLParseResult.Represents.textValue {result : SQLParseResult}
    {r : MiniDbms.SQLParseResult} (h : result.Represents r)
    {textValue : CArray UInt8 recordNameSize} (htext : textValue.Holds s) :
    SQLParseResult.Represents
      { result with command := { result.command with textValue := textValue } }
      { r with command := { r.command with textValue := s } } :=
  { h with command := { h.command with textValue := htext } }

theorem Pending.textValue {result : SQLParseResult} {r : MiniDbms.SQLParseResult}
    (h : Pending result r) {textValue : CArray UInt8 recordNameSize}
    (htext : (CPointer.ofArray textValue).StringAt s) :
    Pending { result with command := { result.command with textValue := textValue } }
      { r with command := { r.command with textValue := s } } where
  represents := h.represents.textValue (holds_of_stringAt htext)
  texts := { h.texts with textValue := htext }
  no_error := h.no_error

theorem Pending.intValue {result : SQLParseResult} {r : MiniDbms.SQLParseResult}
    (h : Pending result r) (value : ℤ) :
    Pending { result with command := { result.command with intValue := value } }
      { r with command := { r.command with intValue := value } } where
  represents :=
    { h.represents with command := { h.represents.command with intValue := rfl } }
  texts := { h.texts with }
  no_error := h.no_error

theorem Pending.tableName {result : SQLParseResult} {r : MiniDbms.SQLParseResult}
    (h : Pending result r) {tableName : CArray UInt8 identifierSize}
    (htable : (CPointer.ofArray tableName).StringAt s) :
    Pending { result with command := { result.command with tableName := tableName } }
      { r with command := { r.command with tableName := s } } where
  represents :=
    { h.represents with command := { h.represents.command with tableName := htable } }
  texts := { h.texts with }
  no_error := h.no_error

/-- The fields that `sql_parse_select` fills behind a comparison. -/
theorem Pending.condition {result : SQLParseResult} {r : MiniDbms.SQLParseResult}
    (h : Pending result r) (comparison : TableComparison)
    {tableName whereColumn : CArray UInt8 identifierSize} {table column : CBytes}
    (htable : (CPointer.ofArray tableName).StringAt table)
    (hcolumn : (CPointer.ofArray whereColumn).StringAt column) :
    Pending
      { result with command := { result.command with
        comparison := comparison, tableName := tableName, whereColumn := whereColumn
        hasWhere := true } }
      { r with command := { r.command with
        comparison := comparison, tableName := table, whereColumn := column, hasWhere := true } }
    where
  represents :=
    { h.represents with command := { h.represents.command with
      comparison := rfl, tableName := htable, whereColumn := hcolumn, hasWhere := rfl } }
  texts := { h.texts with }
  no_error := h.no_error

/-- The struct of a statement that has been parsed. -/
theorem Pending.accept {result : SQLParseResult} {r : MiniDbms.SQLParseResult}
    (h : Pending result r) (type : SQLCommandType) (status : SQLStatus) :
    Pending
      { result with
        command := { result.command with type := type }, parsed := true, status := status }
      { r with command := { r.command with type := type }, parsed := true, status := status } where
  represents :=
    { h.represents with
      command := { h.represents.command with type := rfl }, parsed := rfl, status := rfl }
  texts := { h.texts with }
  no_error := h.no_error

/-! ### Steps -/

theorem outcome_syntaxError (hturns : nearExcerptSize ≤ turns) {result : SQLParseResult}
    {r : MiniDbms.SQLParseResult} (hr : result.Represents r) (h : Position w.start w.text p s) :
    Yields (sqlParseSetSyntaxError turns result p) fun result =>
      Outcome w result (MiniDbms.sqlParseSetSyntaxError r s) := by
  refine (sqlParseSetSyntaxError_spec hr h hturns).mono fun result ⟨hr', hreport⟩ => ?_
  refine ⟨hr', ?_, fun _ => hreport⟩
  rintro (hparsed | hmessage)
  · rw [sqlParseSetSyntaxError_parsed] at hparsed
    cases hparsed
  · exact absurd hmessage (sqlParseSetSyntaxError_errorMessage r s)

theorem outcome_unknownColumn (hturns : nearExcerptSize ≤ turns) {result : SQLParseResult}
    {r : MiniDbms.SQLParseResult} (hr : result.Represents r) {a : CArray UInt8 identifierSize}
    (h : (CPointer.ofArray a).StringAt s) (hsub : s <:+: w.text) {clauseName : CBytes}
    (hclause : clauseName = ascii "field list" ∨ clauseName = ascii "where clause") :
    Yields (sqlParseSetUnknownColumnError turns result (.ofArray a) clauseName) fun result =>
      Outcome w result (MiniDbms.sqlParseSetUnknownColumnError r s clauseName) := by
  refine (sqlParseSetUnknownColumnError_spec hr h hsub hclause hturns).mono
    fun result ⟨hr', hreport⟩ => ?_
  refine ⟨hr', ?_, fun _ => hreport⟩
  rintro (hparsed | hmessage)
  · cases hparsed
  · exact absurd hmessage (sqlParseSetUnknownColumnError_errorMessage r s clauseName)

/-- A guard: what follows it is compared after a token that was read. -/
theorem sqlExpect_spec (hturns : nearExcerptSize ≤ turns) {α β : Type} {R : α → β → Prop}
    {out : Option α × CPointer} {read : Option β × Cursor} (hread : Reads w R out read)
    {result : SQLParseResult} {r : MiniDbms.SQLParseResult} (hr : result.Represents r)
    {next : α → CPointer → Option SQLParseResult} {next' : β → Cursor → MiniDbms.SQLParseResult}
    (hnext : ∀ a b cursor rest, R a b → w.At cursor rest →
      Yields (next a cursor) fun result => Outcome w result (next' b rest)) :
    Yields (sqlExpect turns out result next) fun result =>
      Outcome w result (MiniDbms.sqlExpect read r next') := by
  obtain ⟨token, cursor⟩ := out
  obtain ⟨token', rest⟩ := read
  obtain ⟨htoken, hcursor⟩ := hread
  cases htoken with
  | none => exact outcome_syntaxError hturns hr (position_of_at hcursor)
  | some hab => exact hnext _ _ _ _ hab hcursor

/-- A guard with the helper in it. -/
theorem sqlExpect_bind (hturns : nearExcerptSize ≤ turns) {α β : Type} {R : α → β → Prop}
    {helper : Option (Option α × CPointer)} {read : Option β × Cursor}
    (hhelper : Yields helper fun out => Reads w R out read)
    {result : SQLParseResult} {r : MiniDbms.SQLParseResult} (hr : result.Represents r)
    {next : α → CPointer → Option SQLParseResult} {next' : β → Cursor → MiniDbms.SQLParseResult}
    (hnext : ∀ a b cursor rest, R a b → w.At cursor rest →
      Yields (next a cursor) fun result => Outcome w result (next' b rest)) :
    Yields (helper >>= fun out => sqlExpect turns out result next) fun result =>
      Outcome w result (MiniDbms.sqlExpect read r next') :=
  hhelper.bind fun _ hout => sqlExpect_spec hturns hout hr hnext

/-- A token that stands for itself is read by both, or by neither. -/
theorem Reads.cases {α : Type} {out : Option α × CPointer} {read : Option α × Cursor}
    (h : Reads w Eq out read) :
    (∃ p s, out = (none, p) ∧ read = (none, s) ∧ w.At p s) ∨
      ∃ a p s, out = (some a, p) ∧ read = (some a, s) ∧ w.At p s := by
  obtain ⟨token, p⟩ := out
  obtain ⟨token', s⟩ := read
  obtain ⟨htoken, hcursor⟩ := h
  cases htoken with
  | none => exact Or.inl ⟨p, s, rfl, rfl, hcursor⟩
  | some hab =>
    cases hab
    exact Or.inr ⟨_, p, s, rfl, rfl, hcursor⟩

theorem casecmp_eq (hturns : nearExcerptSize ≤ turns) {a : CArray UInt8 identifierSize}
    (h : (CPointer.ofArray a).StringAt s) {word : CBytes} (h0 : 0 ∉ word) :
    (CPointer.ofArray a).strcasecmpEq turns (.ofString word) = some (casecmpEq s word) :=
  CPointer.strcasecmpEq_eq h (CPointer.stringAt_ofString h0)
    (h.length_lt.trans_le (le_trans (by decide) hturns))

theorem sqlIsKnownColumn_eq (hturns : nearExcerptSize ≤ turns) {a : CArray UInt8 identifierSize}
    (h : (CPointer.ofArray a).StringAt s) :
    sqlIsKnownColumn turns (.ofArray a) = some (MiniDbms.sqlIsKnownColumn s) := by
  rw [sqlIsKnownColumn, casecmp_eq hturns h (zero_notMem_ascii (by decide)),
    casecmp_eq hturns h (zero_notMem_ascii (by decide)),
    casecmp_eq hturns h (zero_notMem_ascii (by decide)), MiniDbms.sqlIsKnownColumn]
  cases casecmpEq s (ascii "id") <;> cases casecmpEq s (ascii "name") <;> rfl

theorem snprintfString_eq (hturns : nearExcerptSize ≤ turns) (buffer : CArray UInt8 identifierSize)
    {a : CArray UInt8 identifierSize} (h : (CPointer.ofArray a).StringAt s) :
    ∃ buffer', snprintfString turns buffer identifierSize (.ofArray a) = some buffer' ∧
      (CPointer.ofArray buffer').StringAt s := by
  have hread : (CPointer.ofArray a).readString turns = some s :=
    (CPointer.Walk.at_start (.ofArray h (le_trans (by decide) hturns))).readString
  obtain ⟨buffer', hw, hs⟩ := stringAt_snprintf buffer (by decide) h.no_nul
  rw [snprintf_eq h.length_lt] at hs
  exact ⟨buffer', by rw [snprintfString, hread]; exact hw, hs⟩

/-! ### Statements -/

/-- Reading the name of the table: any other name than `users` is itself the position at which the
syntax error is reported. -/
theorem sqlExpectUsers_bind (hturns : nearExcerptSize ≤ turns) {result : SQLParseResult}
    {r : MiniDbms.SQLParseResult} (hr : result.Represents r) (h : w.At p s)
    {next : CArray UInt8 identifierSize → CPointer → Option SQLParseResult}
    {next' : CBytes → Cursor → MiniDbms.SQLParseResult}
    (hnext : ∀ tableName name cursor rest, (CPointer.ofArray tableName).StringAt name →
      w.At cursor rest →
      Yields (next tableName cursor) fun result => Outcome w result (next' name rest)) :
    Yields (do
      let read ← sqlParseIdentifier turns p (.uninit UInt8 identifierSize) identifierSize
      sqlExpect turns read result fun tableName cursor => do
      let isUsers ← (CPointer.ofArray tableName).strcasecmpEq turns (.ofString (ascii "users"))
      if ¬ isUsers then sqlParseSetSyntaxError turns result (.ofArray tableName)
      else next tableName cursor) fun result =>
        Outcome w result (MiniDbms.sqlExpect (MiniDbms.sqlParseIdentifier s identifierSize) r
          fun name cursor =>
            if ¬ casecmpEq name (ascii "users") then MiniDbms.sqlParseSetSyntaxError r name
            else next' name cursor) := by
  refine sqlExpect_bind hturns (sqlParseIdentifier_spec h _ le_rfl) hr
    fun tableName name cursor rest ⟨hname, hsub⟩ hcursor => ?_
  refine Yields.bind_eq (casecmp_eq hturns hname (zero_notMem_ascii (by decide))) ?_
  by_cases husers : casecmpEq name (ascii "users") = true
  · rw [if_neg (not_not.mpr husers), if_neg (not_not.mpr husers)]
    exact hnext tableName name cursor rest hname hcursor
  · rw [if_pos husers, if_pos husers]
    exact outcome_syntaxError hturns hr (.tableName hname hsub)

theorem sqlParseInsert_spec (hturns : nearExcerptSize ≤ turns) {result : SQLParseResult}
    {r : MiniDbms.SQLParseResult} (hr : Pending result r) :
    Yields (sqlParseInsert turns w.start result) fun result =>
      Outcome w result (MiniDbms.sqlParseInsert w.text r) := by
  refine (sqlMatchKeyword_spec w.at_start (ascii "INSERT")
    (zero_notMem_ascii (by decide))).bind fun read hread => ?_
  rw [MiniDbms.sqlParseInsert]
  rcases hread.cases with ⟨cursor, rest, rfl, hlist, -⟩ | ⟨_, cursor, rest, rfl, hlist, hcursor⟩
  · rw [hlist]
    exact yields_some hr.outcome
  rw [hlist]
  refine (sqlSkipSpaces_spec hcursor).bind fun cursor hcursor => ?_
  refine sqlExpect_bind hturns (sqlMatchKeyword_spec hcursor _ (zero_notMem_ascii (by decide)))
    hr.represents fun _ _ cursor rest _ hcursor => ?_
  -- the words in front of the row
  refine sqlExpectUsers_bind hturns hr.represents hcursor
    fun tableName name cursor rest hname hcursor => ?_
  refine (sqlSkipSpaces_spec hcursor).bind fun cursor hcursor => ?_
  refine sqlExpect_bind hturns (sqlMatchKeyword_spec hcursor _ (zero_notMem_ascii (by decide)))
    hr.represents fun _ _ cursor rest _ hcursor => ?_
  refine sqlExpect_bind hturns (sqlMatchChar_spec hcursor _ (by decide)) hr.represents
    fun _ _ cursor rest _ hcursor => ?_
  -- the name is read into the struct, whether the statement is accepted or not
  refine (sqlParseString_spec hcursor _ (by decide) le_rfl).bind fun read ⟨hread, hholds⟩ => ?_
  obtain ⟨read, cursor, text⟩ := read
  refine sqlExpect_spec hturns hread (hr.represents.name hholds)
    fun _ b cursor rest hb hcursor => ?_
  have hr := hr.name hb
  refine sqlExpect_bind hturns (sqlMatchChar_spec hcursor _ (by decide)) hr.represents
    fun _ _ cursor rest _ hcursor => ?_
  refine sqlExpect_bind hturns (sqlParseInt_spec hcursor) hr.represents
    fun age _ cursor rest hage hcursor => ?_
  subst hage
  have hr := hr.intValue age
  refine sqlExpect_bind hturns (sqlMatchChar_spec hcursor _ (by decide)) hr.represents
    fun _ _ cursor rest _ hcursor => ?_
  refine sqlExpect_bind hturns (sqlMatchStatementEnd_spec hcursor) hr.represents
    fun _ _ cursor rest _ hcursor => ?_
  -- accepted: the name of the table is copied out of the local array
  obtain ⟨field, hw, hfield⟩ := snprintfString_eq hturns result.command.tableName hname
  exact Yields.bind_eq hw (yields_some ((hr.tableName hfield).accept .insert .ok).outcome)

theorem sqlParseSelectColumn_spec (hturns : nearExcerptSize ≤ turns) {result : SQLParseResult}
    {r : MiniDbms.SQLParseResult} (hr : Pending result r) (h : w.At p s) :
    Yields (sqlParseSelectColumn turns p result) fun result =>
      Outcome w result (MiniDbms.sqlParseSelectColumn s r) := by
  refine sqlExpect_bind hturns (sqlParseIdentifier_spec h _ le_rfl) hr.represents
    fun _ column cursor rest ⟨hcolumn, hsub⟩ hcursor => ?_
  refine Yields.bind_eq (sqlIsKnownColumn_eq hturns hcolumn) ?_
  by_cases hknown : MiniDbms.sqlIsKnownColumn column = true
  · rw [if_neg (not_not.mpr hknown), if_neg (not_not.mpr hknown)]
    exact outcome_syntaxError hturns hr.represents (position_of_at hcursor)
  · rw [if_pos hknown, if_pos hknown]
    exact outcome_unknownColumn hturns hr.represents hcolumn hsub (Or.inl rfl)

theorem sqlParseIntOperand_spec (hturns : nearExcerptSize ≤ turns) {result : SQLParseResult}
    {r : MiniDbms.SQLParseResult} (hr : Pending result r) (h : w.At p s) (type : SQLCommandType) :
    Yields (sqlParseIntOperand turns p result type) fun result =>
      Outcome w result (MiniDbms.sqlParseIntOperand s r type) := by
  refine sqlExpect_bind hturns (sqlParseInt_spec h) hr.represents
    fun value _ cursor rest hvalue hcursor => ?_
  subst hvalue
  have hr := hr.intValue value
  refine sqlExpect_bind hturns (sqlMatchStatementEnd_spec hcursor) hr.represents
    fun _ _ cursor rest _ hcursor => ?_
  exact yields_some (hr.accept type .ok).outcome

theorem sqlParseTextOperand_spec (hturns : nearExcerptSize ≤ turns) {result : SQLParseResult}
    {r : MiniDbms.SQLParseResult} (hr : Pending result r) (h : w.At p s) :
    Yields (sqlParseTextOperand turns p result) fun result =>
      Outcome w result (MiniDbms.sqlExpect (MiniDbms.sqlParseString s recordNameSize)
        { r with command := { r.command with textValue := sqlStringBuffer s recordNameSize } }
        fun text cursor =>
        let r := { r with command := { r.command with textValue := text } }
        MiniDbms.sqlExpect (MiniDbms.sqlMatchStatementEnd cursor) r fun _ _ =>
        { r with
          command := { r.command with type := .selectByName }
          parsed := true
          status := .ok }) := by
  refine (sqlParseString_spec h _ (by decide) le_rfl).bind fun read ⟨hread, hholds⟩ => ?_
  obtain ⟨read, cursor, text⟩ := read
  refine sqlExpect_spec hturns hread (hr.represents.textValue hholds)
    fun _ b cursor rest hb hcursor => ?_
  have hr := hr.textValue hb
  refine sqlExpect_bind hturns (sqlMatchStatementEnd_spec hcursor) hr.represents
    fun _ _ cursor rest _ hcursor => ?_
  exact yields_some (hr.accept .selectByName .ok).outcome

theorem sqlParseWhere_spec (hturns : nearExcerptSize ≤ turns) {result : SQLParseResult}
    {r : MiniDbms.SQLParseResult} (hr : Pending result r) (h : w.At p s)
    {tableName : CArray UInt8 identifierSize} {name : CBytes}
    (hname : (CPointer.ofArray tableName).StringAt name) :
    Yields (sqlParseWhere turns p result tableName) fun result =>
      Outcome w result (MiniDbms.sqlParseWhere s r name) := by
  refine sqlExpect_bind hturns (sqlMatchKeyword_spec h _ (zero_notMem_ascii (by decide)))
    hr.represents fun _ _ cursor rest _ hcursor => ?_
  refine sqlExpect_bind hturns (sqlParseIdentifier_spec hcursor _ le_rfl) hr.represents
    fun _ column comparisonCursor comparisonRest ⟨hcolumn, hsub⟩ hcomparison => ?_
  refine sqlExpect_bind hturns (sqlParseComparison_spec hcomparison) hr.represents
    fun comparison _ cursor rest heq hcursor => ?_
  subst heq
  -- the struct is filled before the column is looked at
  obtain ⟨field, hw, hfield⟩ := snprintfString_eq hturns result.command.tableName hname
  obtain ⟨field', hw', hfield'⟩ := snprintfString_eq hturns result.command.whereColumn hcolumn
  refine Yields.bind_eq hw (Yields.bind_eq hw' ?_)
  have hr := hr.condition comparison hfield hfield'
  refine Yields.bind_eq (casecmp_eq hturns hcolumn (zero_notMem_ascii (by decide))) ?_
  by_cases hid : casecmpEq column (ascii "id") = true
  · rw [if_pos hid, if_pos hid]
    exact sqlParseIntOperand_spec hturns hr hcursor .selectById
  rw [if_neg hid, if_neg hid]
  refine Yields.bind_eq (casecmp_eq hturns hcolumn (zero_notMem_ascii (by decide))) ?_
  by_cases hisName : casecmpEq column (ascii "name") = true
  · rw [if_pos hisName, if_pos hisName]
    -- behind a name no other operator than `=` is allowed
    by_cases hop : comparison = .eq
    · rw [if_neg (not_not.mpr hop), if_neg (not_not.mpr hop)]
      exact sqlParseTextOperand_spec hturns hr hcursor
    · rw [if_pos hop, if_pos hop]
      exact outcome_syntaxError hturns hr.represents (position_of_at hcomparison)
  rw [if_neg hisName, if_neg hisName]
  refine Yields.bind_eq (casecmp_eq hturns hcolumn (zero_notMem_ascii (by decide))) ?_
  by_cases hage : casecmpEq column (ascii "age") = true
  · rw [if_pos hage, if_pos hage]
    exact sqlParseIntOperand_spec hturns hr hcursor .selectByAge
  · rw [if_neg hage, if_neg hage]
    exact outcome_unknownColumn hturns hr.represents hcolumn hsub (Or.inr rfl)

theorem sqlParseSelect_spec (hturns : nearExcerptSize ≤ turns) {result : SQLParseResult}
    {r : MiniDbms.SQLParseResult} (hr : Pending result r) :
    Yields (sqlParseSelect turns w.start result) fun result =>
      Outcome w result (MiniDbms.sqlParseSelect w.text r) := by
  refine (sqlMatchKeyword_spec w.at_start (ascii "SELECT")
    (zero_notMem_ascii (by decide))).bind fun read hread => ?_
  rw [MiniDbms.sqlParseSelect]
  rcases hread.cases with ⟨cursor, rest, rfl, hlist, -⟩ | ⟨_, cursor, rest, rfl, hlist, hcursor⟩
  · rw [hlist]
    exact yields_some hr.outcome
  rw [hlist]
  refine (sqlSkipSpaces_spec hcursor).bind fun cursor hcursor => ?_
  refine (sqlMatchChar_spec hcursor 42 (by decide)).bind fun read hread => ?_
  dsimp only
  rcases hread.cases with ⟨cursor, rest, rfl, hlist, hcursor⟩ |
    ⟨_, cursor, rest, rfl, hlist, hcursor⟩
  · rw [hlist]
    -- no `*`: a column, which is refused whether it is known or not
    exact sqlParseSelectColumn_spec hturns hr hcursor
  rw [hlist]
  refine (sqlSkipSpaces_spec hcursor).bind fun cursor hcursor => ?_
  refine sqlExpect_bind hturns (sqlMatchKeyword_spec hcursor _ (zero_notMem_ascii (by decide)))
    hr.represents fun _ _ cursor rest _ hcursor => ?_
  refine sqlExpectUsers_bind hturns hr.represents hcursor
    fun tableName name cursor rest hname hcursor => ?_
  refine (sqlSkipSpaces_spec hcursor).bind fun cursor hcursor => ?_
  refine (sqlMatchStatementEnd_spec hcursor).bind fun read hread => ?_
  rcases hread.cases with ⟨cursor, rest, rfl, hlist, hcursor⟩ |
    ⟨_, cursor, rest, rfl, hlist, hcursor⟩
  · rw [hlist]
    -- the statement goes on behind the table name
    exact sqlParseWhere_spec hturns hr hcursor hname
  · rw [hlist]
    obtain ⟨field, hw, hfield⟩ := snprintfString_eq hturns result.command.tableName hname
    exact Yields.bind_eq hw (yields_some ((hr.tableName hfield).accept .selectAll .ok).outcome)

theorem sqlMatchExit_spec (h : w.At p s) :
    Yields (sqlMatchExit turns p) fun out => Reads w Eq out (MiniDbms.sqlMatchExit s) := by
  refine (sqlMatchKeyword_spec h (ascii "EXIT")
    (zero_notMem_ascii (by decide))).bind fun read hread => ?_
  rw [MiniDbms.sqlMatchExit]
  rcases hread.cases with ⟨cursor, rest, rfl, hlist, hcursor⟩ |
    ⟨_, cursor, rest, rfl, hlist, hcursor⟩
  · rw [hlist]
    exact sqlMatchKeyword_spec hcursor _ (zero_notMem_ascii (by decide))
  · rw [hlist]
    exact yields_some (reads_some rfl hcursor)

/-- The first byte of the message tells whether there is one. -/
theorem sqlSettled_eq {result : SQLParseResult} {r : MiniDbms.SQLParseResult}
    (h : result.Represents r) :
    sqlSettled result = some (r.parsed || decide (r.errorMessage ≠ [])) := by
  have hread : result.errorMessage.read 0 = some (peek r.errorMessage) := h.errorMessage.read
  rw [sqlSettled, h.parsed, hread]
  cases r.parsed with
  | true => rfl
  | false =>
    cases hm : r.errorMessage with
    | nil => rfl
    | cons c message =>
      have hmessage := h.errorMessage
      rw [hm] at hmessage
      simp [peek_cons, hmessage.ne_zero]

theorem Outcome.pending {result : SQLParseResult} {r : MiniDbms.SQLParseResult}
    (h : Outcome w result r) (hnot : ¬ (r.parsed || decide (r.errorMessage ≠ [])) = true) :
    Pending result r := by
  have hmessage : r.errorMessage = [] := by
    by_contra hne
    exact hnot (by rw [decide_eq_true hne, Bool.or_true])
  exact ⟨h.represents, h.texts (Or.inr hmessage), hmessage⟩

theorem sqlParse_spec (hturns : nearExcerptSize ≤ turns) (result : SQLParseResult) :
    Yields (sqlParse turns (some w.start) result) fun out =>
      out.1 = (MiniDbms.sqlParse w.text).1 ∧ Outcome w out.2 (MiniDbms.sqlParse w.text).2 := by
  refine (sqlParseResultInit_spec result).bind fun result ⟨hrepr, htexts⟩ => ?_
  have hr : Pending result MiniDbms.sqlParseResultInit := ⟨hrepr, htexts, rfl⟩
  rw [MiniDbms.sqlParse]
  refine (sqlSkipSpaces_spec w.at_start).bind fun cursor hcursor => ?_
  refine (sqlMatchExit_spec hcursor).bind fun read hread => ?_
  dsimp only
  rcases hread.cases with ⟨cursor, rest, rfl, hlist, hcursor⟩ |
    ⟨_, cursor, rest, rfl, hlist, hcursor⟩
  · rw [hlist]
    -- INSERT and SELECT are tried from the start of the input, not from the cursor
    refine (sqlParseInsert_spec hturns hr).bind fun result hinsert => ?_
    refine Yields.bind_eq (sqlSettled_eq hinsert.represents) ?_
    dsimp only
    generalize MiniDbms.sqlParseInsert w.text MiniDbms.sqlParseResultInit = r at hinsert ⊢
    by_cases hsettled : (r.parsed || decide (r.errorMessage ≠ [])) = true
    · rw [if_pos hsettled, if_pos hsettled]
      exact yields_some ⟨hinsert.represents.parsed, hinsert⟩
    rw [if_neg hsettled, if_neg hsettled]
    refine (sqlParseSelect_spec hturns (hinsert.pending hsettled)).bind fun result hselect => ?_
    refine Yields.bind_eq (sqlSettled_eq hselect.represents) ?_
    generalize MiniDbms.sqlParseSelect w.text r = r at hselect ⊢
    by_cases hsettled : (r.parsed || decide (r.errorMessage ≠ [])) = true
    · rw [if_pos hsettled, if_pos hsettled]
      exact yields_some ⟨hselect.represents.parsed, hselect⟩
    rw [if_neg hsettled, if_neg hsettled]
    -- no statement at all: the cursor is the position
    refine (outcome_syntaxError hturns hselect.represents (position_of_at hcursor)).bind
      fun result h => ?_
    exact yields_some ⟨rfl, h⟩
  · rw [hlist]
    -- EXIT or QUIT
    refine (sqlMatchStatementEnd_spec hcursor).bind fun read hread => ?_
    dsimp only
    rcases hread.cases with ⟨cursor, rest, rfl, hlist, hcursor⟩ |
      ⟨_, cursor, rest, rfl, hlist, hcursor⟩
    · rw [hlist]
      refine (outcome_syntaxError hturns hrepr (position_of_at hcursor)).bind fun result h => ?_
      exact yields_some ⟨rfl, h⟩
    · rw [hlist]
      exact yields_some ⟨rfl, (hr.accept .exit .exit).outcome⟩

/-- Without an input there is no scan, but a message, too. -/
theorem sqlParse_null (turns : ℕ) (result : SQLParseResult) :
    Yields (sqlParse turns none result) fun out =>
      out.1 = false ∧ out.2.Represents (MiniDbms.sqlParseResultSetError
        MiniDbms.sqlParseResultInit .error 0 [] (ascii "Internal database error")) := by
  refine (sqlParseResultInit_spec result).bind fun result ⟨hrepr, _⟩ => ?_
  refine (sqlParseResultSetError_spec hrepr .error 0 _ _ List.not_mem_nil
    (zero_notMem_ascii (by decide))).bind fun result h => ?_
  exact yields_some ⟨rfl, h⟩

theorem sqlDetermineLockMode_eq (w : CPointer.Walk turns) :
    sqlDetermineLockMode turns (some w.start) = some (MiniDbms.sqlDetermineLockMode w.text) := by
  obtain ⟨mode, hrun, rfl⟩ : Yields (sqlDetermineLockMode turns (some w.start)) fun mode =>
      mode = MiniDbms.sqlDetermineLockMode w.text := by
    refine (sqlSkipSpaces_spec w.at_start).bind fun cursor hcursor => ?_
    refine (sqlMatchKeyword_spec hcursor (ascii "SELECT")
      (zero_notMem_ascii (by decide))).bind fun read hread => ?_
    rw [MiniDbms.sqlDetermineLockMode]
    rcases hread.cases with ⟨cursor, rest, rfl, hlist, hcursor⟩ |
      ⟨_, cursor, rest, rfl, hlist, -⟩
    · -- a keyword that does not match leaves the cursor where it was
      obtain rfl := sqlMatchKeyword_none hlist
      rw [hlist, if_neg (by simp)]
      refine (sqlMatchKeyword_spec hcursor (ascii "INSERT")
        (zero_notMem_ascii (by decide))).bind fun read hread => ?_
      rcases hread.cases with ⟨cursor, rest, rfl, hlist', -⟩ | ⟨_, cursor, rest, rfl, hlist', -⟩
      · rw [hlist', if_neg (by simp)]
        exact yields_some rfl
      · rw [hlist', if_pos rfl]
        exact yields_some rfl
    · rw [hlist, if_pos rfl]
      exact yields_some rfl
  exact hrun

/-! ### Every input -/

theorem Input.stringAt (input : Input) : CPointer.StringAt input.pointer input.bytes :=
  CPointer.stringAt_ofString input.no_nul

theorem Input.length_lt (input : Input) (more : ℕ) :
    input.bytes.length < input.bytes.length + nearExcerptSize + more := by
  rw [nearExcerptSize]
  omega

/-- An input, with enough turns to walk through it. -/
def Input.walk (input : Input) (more : ℕ) :
    CPointer.Walk (input.bytes.length + nearExcerptSize + more) where
  start := input.pointer
  text := input.bytes
  stringAt := input.stringAt
  length_lt := input.length_lt more

/-- **`sql_parse` ends and stays inside its input and its buffers.**  The struct it fills, whatever
it has held, represents the result of the list-level parser; when the input is rejected, the message
is complete. -/
theorem sqlParse_inBounds (input : Input) (result : SQLParseResult) (more : ℕ) :
    ∃ accepted result',
      sqlParse (input.bytes.length + nearExcerptSize + more) (some input.pointer) result =
        some (accepted, result') ∧
      accepted = (MiniDbms.sqlParse input.bytes).1 ∧
      result'.Represents (MiniDbms.sqlParse input.bytes).2 ∧
      (accepted = true → result'.command.TextsEnd (MiniDbms.sqlParse input.bytes).2.command) ∧
      (accepted = false → result'.ReportsInFull input.pointer input.bytes) := by
  have hturns : nearExcerptSize ≤ input.bytes.length + nearExcerptSize + more := by omega
  obtain ⟨⟨accepted, result'⟩, hrun, haccepted, houtcome⟩ :=
    sqlParse_spec (w := input.walk more) hturns result
  have haccepted : accepted = (MiniDbms.sqlParse input.bytes).1 := haccepted
  refine ⟨accepted, result', hrun, haccepted, houtcome.represents, fun h => ?_, fun h => ?_⟩
  · refine houtcome.texts (Or.inl ?_)
    show (MiniDbms.sqlParse input.bytes).2.parsed = true
    rw [← sqlParse_fst, ← haccepted, h]
  · refine houtcome.message ?_
    have hreject : MiniDbms.sqlParse input.bytes = (false, (MiniDbms.sqlParse input.bytes).2) := by
      rw [← h, haccepted]
    exact (sqlParse_reports hreject).message

end MiniDbms.Scanner
