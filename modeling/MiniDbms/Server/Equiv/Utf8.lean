import MiniDbms.Server.Equiv.Api
import MiniDbms.Sql.Equiv.Select

/-!
# UTF-8 in the answers

A table whose names are UTF-8 answers a UTF-8 query with UTF-8 unless a syntax error is reported and
the text that its message quotes is cut within a character (`answersUtf8_iff`): at its begin, when
the position of the error is behind the 63rd byte of a name that is too long, or at its end, because
63 bytes are quoted at most.
-/

namespace MiniDbms

open CString Json TableMemory Utf8

/-! ### What an error message quotes -/

/-- The line at a position, of which an error message quotes the first 63 bytes. -/
def nearLine (cursor : Cursor) : CBytes :=
  (cursor.dropWhile isspace).takeWhile fun c => c ≠ 10 ∧ c ≠ 13 ∧ c ≠ 59

/-- The text that an error message quotes is not cut within a character. -/
def CutsCleanly (cursor : Cursor) : Prop :=
  AtBoundary cursor ∧ AtBoundary ((nearLine cursor).drop (nearExcerptSize - 1))

section Excerpt

variable {cursor : Cursor}

theorem lt_of_isspace {c : UInt8} (h : isspace c = true) : c < 128 := by
  simp only [isspace, Bool.or_eq_true, beq_iff_eq, Bool.and_eq_true, decide_eq_true_eq] at h
  rcases h with rfl | ⟨-, h⟩
  · decide
  · exact UInt8.lt_of_le_of_lt h (by decide)

theorem lt_of_ends {c : UInt8} (h : decide (c ≠ 10 ∧ c ≠ 13 ∧ c ≠ 59) = false) : c < 128 := by
  rw [decide_eq_false_iff_not] at h
  by_contra hge
  refine h ⟨?_, ?_, ?_⟩ <;> rintro rfl <;> exact hge (by decide)

theorem valid_endOfInput : Valid (snprintf nearExcerptSize (ascii "end of input")) :=
  Ascii.valid (by decide)

/-- An excerpt of ASCII bytes is ASCII. -/
theorem ascii_sqlBuildNearExcerpt (h : Ascii cursor) :
    Valid (sqlBuildNearExcerpt cursor nearExcerptSize) := by
  unfold sqlBuildNearExcerpt
  dsimp only
  split_ifs
  · exact valid_endOfInput
  · refine (Ascii.of_subset (fun c hc => ?_) h).valid
    have hc := List.IsPrefix.subset (List.rdropWhile_prefix ..) hc
    have hc := List.mem_of_mem_take hc
    have hc := List.IsPrefix.subset (List.takeWhile_prefix _) hc
    exact List.IsSuffix.subset (List.dropWhile_suffix _) hc

/-- Behind a character, the excerpt is as good as its end. -/
theorem valid_sqlBuildNearExcerpt_of_valid (h : Valid cursor) :
    Valid (sqlBuildNearExcerpt cursor nearExcerptSize) ↔
      AtBoundary ((nearLine cursor).drop (nearExcerptSize - 1)) := by
  have hline : Valid (nearLine cursor) :=
    Valid.takeWhile (fun _ => lt_of_ends) ((valid_dropWhile_iff (fun _ => lt_of_isspace) _).mpr h)
  have htake : Valid (((nearLine cursor).take (nearExcerptSize - 1)).rdropWhile isspace) ↔
      AtBoundary ((nearLine cursor).drop (nearExcerptSize - 1)) := by
    rw [valid_rdropWhile_iff fun _ => lt_of_isspace]
    apply Valid.left_iff
    rwa [List.take_append_drop]
  rw [← htake]
  unfold sqlBuildNearExcerpt
  dsimp only
  split_ifs with hempty
  · refine iff_of_true valid_endOfInput ?_
    have hnil : ((nearLine cursor).take (nearExcerptSize - 1)).rdropWhile isspace = [] := hempty
    rw [hnil]
    exact valid_nil
  · exact Iff.rfl

theorem nearLine_cons {c : UInt8} (h : ¬ c < 128) (rest : Cursor) :
    ∃ line, nearLine (c :: rest) = c :: line := by
  have hspace : isspace c = false := Bool.eq_false_iff.mpr fun hc => h (lt_of_isspace hc)
  have hends : decide (c ≠ 10 ∧ c ≠ 13 ∧ c ≠ 59) = true := by
    rw [← Bool.not_eq_false]
    exact fun hc => h (lt_of_ends hc)
  refine ⟨rest.takeWhile fun c => c ≠ 10 ∧ c ≠ 13 ∧ c ≠ 59, ?_⟩
  rw [nearLine, List.dropWhile_cons, hspace, if_neg Bool.false_ne_true, List.takeWhile_cons, hends,
    if_pos rfl]

/-- Within a character, the excerpt begins within it. -/
theorem not_valid_sqlBuildNearExcerpt (h : ¬ AtBoundary cursor) :
    ¬ Valid (sqlBuildNearExcerpt cursor nearExcerptSize) := by
  cases cursor with
  | nil => exact absurd atBoundary_nil h
  | cons c rest =>
    rw [atBoundary_cons] at h
    have hge : ¬ c < 128 := fun hlt => h (isUTF8FirstByte_of_lt hlt)
    have hspace : isspace c = false := Bool.eq_false_iff.mpr fun hc => hge (lt_of_isspace hc)
    obtain ⟨line, hline⟩ := nearLine_cons hge rest
    set quoted := (nearLine (c :: rest)).take (nearExcerptSize - 1) with hquoted
    obtain ⟨more, hmore⟩ : ∃ more, quoted = c :: more := by
      rw [hquoted, hline]
      exact ⟨_, rfl⟩
    have hne : quoted.rdropWhile isspace ≠ [] := by
      intro hnil
      rw [List.rdropWhile_eq_nil_iff] at hnil
      have hc := hnil c (by rw [hmore]; exact List.mem_cons_self)
      rw [hspace] at hc
      cases hc
    have hbuilt : sqlBuildNearExcerpt (c :: rest) nearExcerptSize = quoted.rdropWhile isspace :=
      if_neg hne
    obtain ⟨d, kept, hkept⟩ := List.exists_cons_of_ne_nil hne
    have hprefix := List.rdropWhile_prefix isspace quoted
    rw [hkept, hmore, List.cons_prefix_cons] at hprefix
    obtain rfl := hprefix.1
    rw [hbuilt, hkept]
    exact fun hvalid => h (atBoundary_cons.mp hvalid.atBoundary)

/-- **What an error message quotes of a text** is UTF-8 exactly when it is not cut within a
character. -/
theorem valid_sqlBuildNearExcerpt_iff {s : CBytes} (hs : Valid s) (hcursor : cursor <:+ s) :
    Valid (sqlBuildNearExcerpt cursor nearExcerptSize) ↔ CutsCleanly cursor := by
  obtain ⟨before, rfl⟩ := hcursor
  by_cases hboundary : AtBoundary cursor
  · rw [valid_sqlBuildNearExcerpt_of_valid (hs.right_iff.mpr hboundary), CutsCleanly]
    exact (and_iff_right hboundary).symm
  · exact iff_of_false (not_valid_sqlBuildNearExcerpt hboundary) fun h => hboundary h.1

end Excerpt

/-! ### Bodies -/

/-- The names of the records that the table holds are UTF-8. -/
def NamesUtf8 (m : TableMemory) : Prop :=
  ∀ p r, m.HoldsRecord p → m.record p = some r → Valid r.name

/-- Whatever allocations fail, a body that answers the query is UTF-8. -/
def AnswersUtf8 (m : TableMemory) (sql : CBytes) : Prop :=
  ∀ allocs ok m' result body,
    apiHandleQuery { m with allocs := allocs } sql = some (ok, m', result) →
      result.body = some body → Valid body

/-- The parser reports a syntax error at this position of the text. -/
def ReportedAt (sql : CBytes) (cursor : Cursor) : Prop :=
  cursor <:+ sql ∧ ∃ result, sqlParse sql = (false, sqlParseSetSyntaxError result cursor)

section Bodies

variable {m : TableMemory} {sql : CBytes}

/-- The body of an error is UTF-8 exactly when the message is. -/
theorem valid_errorText_iff {status sqlState : CBytes} (hstatus : Ascii status)
    (hstate : Ascii sqlState) (errorCode : ℤ) (message : CBytes) :
    Valid (errorText status errorCode sqlState message) ↔ Valid message := by
  have hcode : Ascii (ascii ",\"error_code\":" ++ intText errorCode ++
      ascii ",\"sql_state\":") := by
    rw [Utf8.ascii_append, Utf8.ascii_append]
    exact ⟨⟨by decide, ascii_intText _⟩, by decide⟩
  have hok : Ascii (ascii "\x7b\"ok\":false,\"status\":") := by
    rw [ascii_ofList]
    decide
  simp only [errorText, List.flatten_cons, List.flatten_nil, List.append_nil]
  rw [valid_ascii_append hok, valid_ascii_append (ascii_quote hstatus), valid_ascii_append hcode,
    valid_ascii_append (ascii_quote hstate), valid_ascii_append (by decide),
    valid_append_ascii (by decide), valid_quote_iff]

theorem valid_recordText {r : Record} (h : Valid r.name) : Valid (recordText r) := by
  have hid : Ascii (ascii "\x7b\"id\":" ++ intText r.id ++ ascii ",\"name\":") := by
    rw [Utf8.ascii_append, Utf8.ascii_append]
    exact ⟨⟨by decide, ascii_intText _⟩, by decide⟩
  have hage : Ascii (ascii ",\"age\":" ++ intText r.age ++ ascii "\x7d") := by
    rw [Utf8.ascii_append, Utf8.ascii_append]
    exact ⟨⟨by decide, ascii_intText _⟩, by decide⟩
  simp only [recordText, List.flatten_cons, List.flatten_nil, List.append_nil]
  exact hid.valid.append (((valid_quote_iff _).mpr h).append hage.valid)

theorem valid_rowsText {records : List Record} (h : ∀ r ∈ records, Valid r.name) :
    Valid (rowsText records) := by
  cases records with
  | nil => exact valid_nil
  | cons r rs =>
    refine (valid_recordText (h r List.mem_cons_self)).append (Valid.flatMap fun r' hr' => ?_)
    rw [← List.singleton_append, valid_ascii_append (by decide)]
    exact valid_recordText (h r' (List.mem_cons_of_mem r hr'))

theorem valid_selectedText {records : List Record} (h : ∀ r ∈ records, Valid r.name) :
    Valid (selectedText records) := by
  have hcount : Ascii (ascii ",\"row_count\":" ++ decimalDigits records.length ++
      ascii ",\"rows\":[") := by
    rw [Utf8.ascii_append, Utf8.ascii_append]
    exact ⟨⟨by decide, ascii_decimalDigits _⟩, by decide⟩
  simp only [selectedText, List.flatten_cons, List.flatten_nil, List.append_nil]
  rw [valid_ascii_append (by decide), valid_ascii_append (ascii_quote (by decide)),
    valid_ascii_append hcount, valid_append_ascii (by decide)]
  exact valid_rowsText h

theorem valid_insertedText (insertedId : ℤ) (rowCount : ℕ) :
    Valid (insertedText insertedId rowCount) := by
  have hrow : Ascii (ascii ",\"inserted_id\":" ++ intText insertedId ++ ascii ",\"row_count\":" ++
      decimalDigits rowCount ++ ascii "\x7d") := by
    simp only [Utf8.ascii_append]
    exact ⟨⟨⟨⟨by decide, ascii_intText _⟩, by decide⟩, ascii_decimalDigits _⟩, by decide⟩
  simp only [insertedText, List.flatten_cons, List.flatten_nil, List.append_nil]
  rw [valid_ascii_append (by decide), valid_ascii_append (ascii_quote (by decide))]
  exact hrow.valid

theorem valid_refusals : Valid apiInternalError ∧ Valid apiExitNotSupported := by
  unfold apiInternalError apiExitNotSupported
  rw [CString.ascii_append, ascii_ofList, ascii_ofList, ascii_ofList]
  exact ⟨Ascii.valid (by decide), Ascii.valid (by decide)⟩

/-! ### Messages -/

theorem lt_of_isWordByte {c : UInt8} (h : isWordByte c = true) : c < 128 := by
  simp only [isWordByte, isalnum, isalpha, isdigit, Bool.or_eq_true, Bool.and_eq_true,
    decide_eq_true_eq, beq_iff_eq] at h
  rcases h with ((⟨-, h⟩ | ⟨-, h⟩) | ⟨-, h⟩) | rfl
  · exact UInt8.lt_of_le_of_lt h (by decide)
  · exact UInt8.lt_of_le_of_lt h (by decide)
  · exact UInt8.lt_of_le_of_lt h (by decide)
  · decide

theorem ascii_snprintf {text : CBytes} (h : Ascii text) (size : ℕ) : Ascii (snprintf size text) :=
  Ascii.of_subset (List.take_subset ..) h

theorem ascii_apiStatusName (status : SQLStatus) : Ascii (apiStatusName status) := by
  cases status <;> decide

theorem ascii_sqlState_syntaxError (result : SQLParseResult) (cursor : Cursor) :
    Ascii (sqlParseSetSyntaxError result cursor).sqlState :=
  ascii_snprintf (show Ascii (ascii "42000") by decide) sqlStateSize

/-- The message of a syntax error is as good as what it quotes. -/
theorem valid_message_iff (result : SQLParseResult) (cursor : Cursor) :
    Valid (sqlParseSetSyntaxError result cursor).errorMessage ↔
      Valid (sqlBuildNearExcerpt cursor nearExcerptSize) := by
  rw [sqlParseSetSyntaxError_message, CString.ascii_append, ascii_ofList, ascii_ofList,
    ascii_ofList, valid_append_ascii (by decide +kernel), valid_ascii_append (by decide +kernel)]

theorem ascii_message_unknownColumn (result : SQLParseResult) {column : Identifier}
    {clauseName : CBytes} (h : SelectsColumn column sql clauseName) :
    Ascii (sqlParseSetUnknownColumnError result column.bytes clauseName).errorMessage := by
  have hcolumn : Ascii column.bytes := fun c hc => lt_of_isWordByte (column.isWordByte c hc)
  have hclause : Ascii clauseName := by cases h <;> decide
  refine ascii_snprintf ?_ _
  simp only [Utf8.ascii_append]
  refine ⟨⟨⟨⟨?_, hcolumn⟩, by decide⟩, hclause⟩, by decide⟩
  rw [ascii_ofList]
  decide

/-- What a rejection says is UTF-8 when no quoted text is cut within a character. -/
theorem valid_message_of_cutsCleanly (hsql : Valid sql)
    (hcuts : ∀ cursor, ReportedAt sql cursor → CutsCleanly cursor) {parse : SQLParseResult}
    (h : sqlParse sql = (false, parse)) : Ascii parse.sqlState ∧ Valid parse.errorMessage := by
  refine sqlParse_of (P := fun r => sqlParse sql = (false, r) →
    Ascii r.sqlState ∧ Valid r.errorMessage) (fun result cursor hquoted hparse => ?_)
    (fun result column clauseName hcolumn _ _ => ?_) h h
  · refine ⟨ascii_sqlState_syntaxError result cursor, (valid_message_iff result cursor).mpr ?_⟩
    rcases hquoted with hsuffix | hword
    · exact (valid_sqlBuildNearExcerpt_iff hsql hsuffix).mpr
        (hcuts cursor ⟨hsuffix, result, hparse⟩)
    · exact ascii_sqlBuildNearExcerpt fun c hc => lt_of_isWordByte (hword c hc)
  · exact ⟨ascii_snprintf (show Ascii (ascii "42S22") by decide) sqlStateSize,
      (ascii_message_unknownColumn result hcolumn).valid⟩

/-! ### Answers -/

theorem answersUtf8_of_cutsCleanly (hnames : NamesUtf8 m) (hsql : Valid sql)
    (hcuts : ∀ cursor, ReportedAt sql cursor → CutsCleanly cursor) : AnswersUtf8 m sql := by
  intro allocs ok m' result body hrun hbody
  obtain rfl : ok = true := by
    rw [apiHandleQuery_ok hrun, hbody]
    rfl
  obtain ⟨body', hbody', hto⟩ := apiHandleQuery_body hrun
  obtain rfl : body = body' := Option.some.inj (hbody.symm.trans hbody')
  cases hto with
  | rejected hparse =>
    obtain ⟨hstate, hmessage⟩ := valid_message_of_cutsCleanly hsql hcuts hparse
    exact (valid_errorText_iff (ascii_apiStatusName _) hstate _ _).mpr hmessage
  | exit => exact valid_refusals.2
  | inserted => exact valid_insertedText _ _
  | selected _ _ hexecute _ _ hrecords _ =>
    refine valid_selectedText fun r hr => ?_
    obtain ⟨p, hp, hrecord⟩ := TableMemory.mem_recordsAt hrecords hr
    obtain ⟨hholds, hsame⟩ := sqlExecutePlan_holds hexecute p hp
    exact hnames p r hholds (hsame.symm.trans hrecord)
  | failed => exact valid_refusals.1

/-- The body of an error is short. -/
theorem length_errorText_lt {parse : SQLParseResult} (h : parse.Reports)
    (hcode : -2 ^ 31 ≤ parse.errorCode ∧ parse.errorCode < 2 ^ 31) :
    (errorText (apiStatusName parse.status) parse.errorCode parse.sqlState
      parse.errorMessage).length < 2 ^ 31 := by
  have hstatus : (apiStatusName parse.status).length ≤ 18 := by
    cases parse.status <;> decide
  have hquotes := length_quote_le (apiStatusName parse.status)
  have hstate := length_quote_le parse.sqlState
  have hmessage := length_quote_le parse.errorMessage
  have hcode := length_intText_le hcode.1 hcode.2
  have hok : (ascii "\x7b\"ok\":false,\"status\":").length = 21 := by
    rw [ascii_ofList]
    decide
  have hcode_key : (ascii ",\"error_code\":").length = 14 := by decide
  have hstate_key : (ascii ",\"sql_state\":").length = 13 := by decide
  have hmessage_key : (ascii ",\"message\":").length = 11 := by decide
  have hend : (ascii "\x7d").length = 1 := by decide
  have hstate_lt := h.sqlState
  have hmessage_lt := h.length_message
  rw [sqlStateSize] at hstate_lt
  rw [sqlErrorMessageSize] at hmessage_lt
  simp only [errorText, List.flatten_cons, List.flatten_nil, List.length_append, List.append_nil]
  omega

/-- A text that is cut within a character is answered with. -/
theorem AnswersUtf8.cutsCleanly (h : AnswersUtf8 m sql) (hsql : Valid sql) {cursor : Cursor}
    (hreported : ReportedAt sql cursor) : CutsCleanly cursor := by
  obtain ⟨hsuffix, parse, hparse⟩ := hreported
  set result := sqlParseSetSyntaxError parse cursor with hresult
  obtain ⟨build, heq, hbuild⟩ := apiHandleQuery_rejected (m := { m with allocs := [] }) hparse
  have hlength := length_errorText_lt (sqlParse_reports hparse)
    (show -2 ^ 31 ≤ (1064 : ℤ) ∧ (1064 : ℤ) < 2 ^ 31 by decide)
  obtain ⟨m', answer, hrespond, hbody⟩ := apiRespond_granted (m := { m with allocs := [] }) rfl 200
    hbuild (printable_error _ _ _ _) hlength
  have hvalid := h [] true m' answer _ (heq.trans hrespond) hbody
  rw [valid_errorText_iff (ascii_apiStatusName _) (ascii_sqlState_syntaxError parse cursor),
    valid_message_iff, valid_sqlBuildNearExcerpt_iff hsql hsuffix] at hvalid
  exact hvalid

end Bodies

/-- **UTF-8 in, UTF-8 out**, unless the text that the message of a syntax error quotes is cut within
a character. -/
theorem answersUtf8_iff {m : TableMemory} {sql : CBytes} (hnames : NamesUtf8 m) (hsql : Valid sql) :
    AnswersUtf8 m sql ↔ ∀ cursor, ReportedAt sql cursor → CutsCleanly cursor :=
  ⟨fun h _ hreported => h.cutsCleanly hsql hreported, answersUtf8_of_cutsCleanly hnames hsql⟩

theorem namesUtf8_of_records {m : TableMemory} (h : ∀ r, some r ∈ m.records → Valid r.name) :
    NamesUtf8 m := by
  intro p r _ hr
  refine h r ?_
  rw [record, Option.join_eq_some_iff] at hr
  exact List.mem_of_getElem? hr

/-- `가` -/
abbrev hangul : CBytes := [234, 176, 128]

theorem valid_hangul : Valid hangul := valid_iff.mpr ⟨['가'], by decide⟩

/-- `SELECT * FROM users WHERE name = '가'` -/
abbrev selectHangul : CBytes := ascii "SELECT * FROM users WHERE name = '" ++ (hangul ++ ascii "'")

/-- A table with a row of this name; no syntax error is reported in the query. -/
theorem answersUtf8_hangul :
    ∃ m result, apiHandleQuery (.start [] [])
        (ascii "INSERT INTO users VALUES ('" ++ (hangul ++ ascii "', 20)")) =
          some (true, m, result) ∧
      (∀ cursor, ¬ ReportedAt selectHangul cursor) ∧ AnswersUtf8 m selectHangul := by
  have hrun : ((apiHandleQuery (.start [] [])
      (ascii "INSERT INTO users VALUES ('" ++ (hangul ++ ascii "', 20)"))).map fun answer =>
        (answer.1, answer.2.1.records)) = some (true, [some ⟨1, hangul, 20⟩]) := by
    decide
  obtain ⟨⟨ok, m, result⟩, hinsert, hanswer⟩ := Option.map_eq_some_iff.mp hrun
  obtain ⟨rfl, hrecords⟩ := Prod.mk.inj hanswer
  have hreported : ∀ cursor, ¬ ReportedAt selectHangul cursor := by
    rintro cursor ⟨-, rejected, hparse⟩
    have haccepted : (sqlParse selectHangul).1 = true := by decide
    rw [hparse] at haccepted
    cases haccepted
  refine ⟨m, result, hinsert, hreported, (answersUtf8_iff (namesUtf8_of_records fun r hr => ?_)
    ?_).mpr fun cursor hcursor => absurd hcursor (hreported cursor)⟩
  · have hmem : some r ∈ [some (⟨1, hangul, 20⟩ : Record)] := hrecords ▸ hr
    obtain rfl := Option.some.inj (List.mem_singleton.mp hmem)
    exact valid_hangul
  · have hbefore : Ascii (ascii "SELECT * FROM users WHERE name = '") := by
      rw [ascii_ofList]
      decide
    exact hbefore.valid.append (valid_hangul.append (Ascii.valid (by decide)))

/-- `x` and 21 times `가`, where the 63rd byte is the second one of the last character. -/
abbrev cutText : CBytes := 120 :: (List.replicate 21 hangul).flatten

/-- The excerpt of a syntax error at the begin of this text ends within a character. -/
theorem not_answersUtf8_cutText : ¬ ∀ m sql, NamesUtf8 m → Valid sql → AnswersUtf8 m sql := by
  intro h
  have hnames : NamesUtf8 (.start [] []) := namesUtf8_of_records nofun
  have hsql : Valid cutText := by
    rw [cutText, ← List.singleton_append, valid_ascii_append (by decide), List.flatten_eq_flatMap]
    refine Valid.flatMap fun s hs => ?_
    obtain rfl := List.eq_of_mem_replicate hs
    exact valid_hangul
  have hreported : ReportedAt cutText cutText := ⟨List.suffix_rfl, sqlParseResultInit, rfl⟩
  have hcut := (h _ _ hnames hsql).cutsCleanly hsql hreported
  have hend : ¬ AtBoundary ((nearLine cutText).drop (nearExcerptSize - 1)) := by decide
  exact hend hcut.2

end MiniDbms
