import MiniDbms.Sql.Equiv.Errors
import MiniDbms.Sql.Equiv.ScannerTokens

/-!
# The results over checked memory

The struct that `sql_parse` fills represents the result of the list-level parser, and an error
message is never cut off: `sqlParseSetSyntaxError_spec`, `sqlParseSetUnknownColumnError_spec`.
`nearPart` says what the message of a syntax error quotes.
-/

namespace MiniDbms.Scanner

open Checked CString

variable {n turns : ℕ} {w : CPointer.Walk turns} {p : CPointer} {s : CBytes}

/-! ### The excerpt -/

/-- A byte of the line that a syntax error quotes: no LF, no CR and no `;`. -/
def isLineByte (c : UInt8) : Bool := c ≠ 10 ∧ c ≠ 13 ∧ c ≠ 59

/-- What a syntax error quotes of the text at its position, which ends in front of the `NUL`. -/
def nearPart (text : CBytes) : CBytes :=
  let line := (text.dropWhile isspace).takeWhile isLineByte
  let part := (line.take 63).rdropWhile isspace
  if part = [] then ascii "end of input" else part

theorem sqlBuildNearExcerpt_eq (text : CBytes) :
    MiniDbms.sqlBuildNearExcerpt text nearExcerptSize = nearPart text := by
  have hend : snprintf nearExcerptSize (ascii "end of input") = ascii "end of input" :=
    snprintf_eq (by rw [ascii_ofList]; decide)
  rw [MiniDbms.sqlBuildNearExcerpt, hend]
  rfl

example : nearPart (ascii " users \t; exit") = ascii "users" := by decide

/-- An excerpt is a string. -/
theorem zero_notMem_sqlBuildNearExcerpt {text : CBytes} (h0 : 0 ∉ text) (bufferSize : ℕ) :
    0 ∉ MiniDbms.sqlBuildNearExcerpt text bufferSize := by
  rw [MiniDbms.sqlBuildNearExcerpt]
  split_ifs
  · exact fun hmem => absurd (List.mem_of_mem_take hmem) (by rw [ascii_ofList]; decide)
  · intro hmem
    have htake := (List.rdropWhile_prefix _ _).subset hmem
    have hline := (List.takeWhile_prefix _).subset (List.mem_of_mem_take htake)
    exact h0 ((List.dropWhile_suffix _).subset hline)

theorem sqlExcerptLoop_spec (h : w.At p s) {buffer : CArray UInt8 n} {bufferSize : ℕ}
    (hsize : bufferSize ≤ n) :
    Yields (sqlExcerptLoop turns p bufferSize 0 buffer) fun r =>
      let line := (s.takeWhile isLineByte).take (bufferSize - 1)
      r.1 = line.length ∧ r.2.Holds line := by
  refine loop_spec
    (P := fun (i : CBytes × CBytes) (r : ℕ × CArray UInt8 n) =>
      s = i.1 ++ i.2 ∧ r.1 = i.1.length ∧ r.2.Holds i.1)
    (Q := fun (i : CBytes × CBytes) (r : ℕ × CArray UInt8 n) =>
      r.1 = (i.1 ++ copied isLineByte bufferSize i.1 i.2).length ∧
        r.2.Holds (i.1 ++ copied isLineByte bufferSize i.1 i.2))
    (fun i => i.2.length) ?_ (i := ([], s)) ⟨rfl, rfl, CArray.holds_nil buffer⟩ h.length_lt
  -- the cursor stays where it is: the length is the index of the next byte
  rintro ⟨read, rest⟩ ⟨_, buffer⟩ ⟨hs, rfl, hb⟩
  dsimp only at hs hb ⊢
  have hrest : w.At (p.add read.length) rest := by
    have hadd := h.add (k := read.length) (by rw [hs, List.length_append]; omega)
    rwa [hs, List.drop_left] at hadd
  rw [hrest.read]
  cases rest with
  | nil =>
    refine Or.inl ⟨(read.length, buffer), rfl, ?_⟩
    rw [copied, List.takeWhile_nil, List.take_nil, List.append_nil]
    exact ⟨rfl, hb⟩
  | cons c rest =>
    have hc0 : c ≠ 0 := hrest.stringAt.ne_zero
    rw [peek_cons]
    by_cases hgo : isLineByte c = true ∧ read.length + 1 < bufferSize
    · obtain ⟨hline, hlt⟩ := hgo
      have hc : c ≠ 10 ∧ c ≠ 13 ∧ c ≠ 59 := of_decide_eq_true hline
      obtain ⟨buffer', hw, hb'⟩ := hb.write_end c (by omega)
      refine Or.inr ⟨(read.length + 1, buffer'), (read ++ [c], rest), ?_,
        ⟨by simpa using hs, by simp, hb'⟩, by simp, fun r hr => ?_⟩
      · simp [hc, hc0, hlt, hw]
      · rw [copied_cons hline hlt]
        dsimp only at hr
        rwa [List.append_assoc] at hr
    · -- a byte that ends the line, or a full buffer
      have hstop : ¬ (c ≠ 0 ∧ c ≠ 10 ∧ c ≠ 13 ∧ c ≠ 59 ∧ read.length + 1 < bufferSize) := by
        rintro ⟨-, h10, h13, h59, hlt⟩
        exact hgo ⟨decide_eq_true ⟨h10, h13, h59⟩, hlt⟩
      refine Or.inl ⟨(read.length, buffer), ?_, ?_⟩
      · rw [Option.bind_eq_bind, Option.bind_some, if_neg hstop]
        rfl
      · rw [copied_stop hgo, List.append_nil]
        exact ⟨rfl, hb⟩

theorem sqlTrimLoop_eq {buffer : CArray UInt8 n} {text : CBytes} (hbuffer : buffer.Holds text)
    (hturns : text.length < turns) :
    sqlTrimLoop turns buffer text.length = some (text.rdropWhile isspace).length := by
  obtain ⟨r, hrun, rfl⟩ : Yields (sqlTrimLoop turns buffer text.length) fun r =>
      r = (text.rdropWhile isspace).length := by
    refine loop_spec (P := fun (text : CBytes) length => length = text.length ∧ buffer.Holds text)
      (Q := fun (text : CBytes) r => r = (text.rdropWhile isspace).length) List.length
      ?_ ⟨rfl, hbuffer⟩ hturns
    rintro text _ ⟨rfl, hb⟩
    rcases List.eq_nil_or_concat text with rfl | ⟨init, c, rfl⟩
    · exact Or.inl ⟨0, rfl, rfl⟩
    · rw [List.concat_eq_append] at hb ⊢
      have hread : buffer.read init.length = some c := hb init.length c (by simp)
      rw [List.length_append, List.length_singleton, Nat.add_sub_cancel, hread,
        if_neg (Nat.succ_ne_zero _)]
      by_cases hc : isspace c = true
      · refine Or.inr ⟨init.length, init, by simp [hc], ⟨rfl, ?_⟩, by simp, fun r hr => ?_⟩
        · have htake := hb.take init.length
          rwa [List.take_left' rfl] at htake
        · rw [List.rdropWhile_concat_pos _ _ _ hc]
          exact hr
      · refine Or.inl ⟨init.length + 1, by simp [hc], ?_⟩
        rw [List.rdropWhile_concat_neg _ _ _ hc, List.length_append, List.length_singleton]
  exact hrun

theorem sqlBuildNearExcerpt_spec (h : w.At p s) (buffer : CArray UInt8 n) {bufferSize : ℕ}
    (hpos : 0 < bufferSize) (hsize : bufferSize ≤ n) (hturns : bufferSize ≤ turns) :
    Yields (sqlBuildNearExcerpt turns p buffer bufferSize) fun a =>
      (CPointer.ofArray a).StringAt (MiniDbms.sqlBuildNearExcerpt s bufferSize) := by
  have h0 := zero_notMem_sqlBuildNearExcerpt h.stringAt.no_nul bufferSize
  have hend : ∀ buffer : CArray UInt8 n, Yields (buffer.snprintf bufferSize (ascii "end of input"))
      fun a => a.Holds (snprintf bufferSize (ascii "end of input") ++ [0]) := fun buffer =>
    buffer.snprintf_spec hpos hsize _
  refine Yields.mono ?_ fun a ha => CPointer.stringAt_ofArray ha h0
  refine (h.skipWhile isspace).bind fun q hq => ?_
  refine Yields.bind_eq hq.read ?_
  rw [MiniDbms.sqlBuildNearExcerpt]
  generalize s.dropWhile isspace = t at hq ⊢
  cases t with
  | nil =>
    -- nothing but whitespace up to the `NUL`
    rw [if_pos (show peek [] = 0 from rfl), List.takeWhile_nil, List.take_nil, List.rdropWhile_nil,
      if_pos rfl]
    exact hend buffer
  | cons c t =>
    rw [peek_cons, if_neg hq.stringAt.ne_zero]
    refine (sqlExcerptLoop_spec hq hsize).bind fun r hr => ?_
    obtain ⟨length, buffer⟩ := r
    obtain ⟨rfl, hb⟩ := hr
    have hline : ((c :: t).takeWhile fun c => c ≠ 10 ∧ c ≠ 13 ∧ c ≠ 59).take (bufferSize - 1) =
        ((c :: t).takeWhile isLineByte).take (bufferSize - 1) := rfl
    have hlength := List.length_take_le (bufferSize - 1) ((c :: t).takeWhile isLineByte)
    rw [hline]
    dsimp only at hb ⊢
    generalize ((c :: t).takeWhile isLineByte).take (bufferSize - 1) = line at hb hlength ⊢
    refine Yields.bind_eq (sqlTrimLoop_eq hb (by omega)) ?_
    -- the trimmed line is a beginning of the copy, and the `NUL` cuts it off there
    have hprefix := List.rdropWhile_prefix isspace line
    obtain ⟨buffer', hw, hb'⟩ := hb.write_cut hprefix.length_le
      (by have := hprefix.length_le; omega) 0
    rw [← List.prefix_iff_eq_take.mp hprefix] at hb'
    refine Yields.bind_eq hw ?_
    by_cases hempty : line.rdropWhile isspace = []
    · rw [if_pos hempty, if_pos (by rw [hempty]; rfl)]
      exact hend buffer'
    · rw [if_neg hempty, if_neg (mt List.length_eq_zero_iff.mp hempty)]
      exact yields_some hb'

/-! ### The result struct -/

/-- The struct represents a command.  A text that `sql_parse_string` has given up has no `NUL`. -/
structure SQLCommand.Represents (command : SQLCommand) (c : MiniDbms.SQLCommand) : Prop where
  type : command.type = c.type
  comparison : command.comparison = c.comparison
  tableName : (CPointer.ofArray command.tableName).StringAt c.tableName
  name : command.name.Holds c.name
  selectedColumn : (CPointer.ofArray command.selectedColumn).StringAt c.selectedColumn
  whereColumn : (CPointer.ofArray command.whereColumn).StringAt c.whereColumn
  textValue : command.textValue.Holds c.textValue
  intValue : command.intValue = c.intValue
  hasWhere : command.hasWhere = c.hasWhere

/-- The struct represents a result. -/
structure SQLParseResult.Represents (result : SQLParseResult) (r : MiniDbms.SQLParseResult) :
    Prop where
  parsed : result.parsed = r.parsed
  command : result.command.Represents r.command
  status : result.status = r.status
  errorCode : result.errorCode = r.errorCode
  sqlState : (CPointer.ofArray result.sqlState).StringAt r.sqlState
  errorMessage : (CPointer.ofArray result.errorMessage).StringAt r.errorMessage

/-- The two texts of a command are strings. -/
structure SQLCommand.TextsEnd (command : SQLCommand) (c : MiniDbms.SQLCommand) : Prop where
  name : (CPointer.ofArray command.name).StringAt c.name
  textValue : (CPointer.ofArray command.textValue).StringAt c.textValue

theorem holds_of_stringAt {a : CArray UInt8 n} (h : (CPointer.ofArray a).StringAt s) :
    a.Holds s := by
  have htake := h.holds.take s.length
  rwa [List.take_left' rfl] at htake

theorem stringAt_write_zero (a : CArray UInt8 n) (hn : 0 < n) :
    ∃ a', a.write 0 0 = some a' ∧ (CPointer.ofArray a').StringAt [] := by
  obtain ⟨a', hw, ha'⟩ := (CArray.holds_nil a).write_end 0 hn
  exact ⟨a', hw, CPointer.stringAt_ofArray ha' List.not_mem_nil⟩

theorem stringAt_snprintf (a : CArray UInt8 n) (hn : 0 < n) {text : CBytes} (h0 : 0 ∉ text) :
    ∃ a', a.snprintf n text = some a' ∧ (CPointer.ofArray a').StringAt (snprintf n text) := by
  obtain ⟨a', hw, ha'⟩ := a.snprintf_spec hn le_rfl text
  exact ⟨a', hw, CPointer.stringAt_ofArray ha' fun hmem => h0 (List.mem_of_mem_take hmem)⟩

/-- Whatever the struct holds, `sql_parse` starts with the same result. -/
theorem sqlParseResultInit_spec (result : SQLParseResult) :
    Yields (sqlParseResultInit result) fun result =>
      result.Represents MiniDbms.sqlParseResultInit ∧
        result.command.TextsEnd MiniDbms.sqlParseResultInit.command := by
  obtain ⟨tableName, hw₁, h₁⟩ := stringAt_write_zero result.command.tableName (by decide)
  obtain ⟨name, hw₂, h₂⟩ := stringAt_write_zero result.command.name (by decide)
  obtain ⟨selectedColumn, hw₃, h₃⟩ := stringAt_write_zero result.command.selectedColumn (by decide)
  obtain ⟨whereColumn, hw₄, h₄⟩ := stringAt_write_zero result.command.whereColumn (by decide)
  obtain ⟨textValue, hw₅, h₅⟩ := stringAt_write_zero result.command.textValue (by decide)
  obtain ⟨sqlState, hw₆, h₆⟩ := stringAt_write_zero result.sqlState (by decide)
  obtain ⟨errorMessage, hw₇, h₇⟩ := stringAt_write_zero result.errorMessage (by decide)
  refine Yields.bind_eq hw₁ (Yields.bind_eq hw₂ (Yields.bind_eq hw₃ (Yields.bind_eq hw₄
    (Yields.bind_eq hw₅ (Yields.bind_eq hw₆ (Yields.bind_eq hw₇ (yields_some ?_)))))))
  exact ⟨⟨rfl, ⟨rfl, rfl, h₁, holds_of_stringAt h₂, h₃, h₄, holds_of_stringAt h₅, rfl, rfl⟩, rfl,
    rfl, h₆, h₇⟩, ⟨h₂, h₅⟩⟩

theorem sqlParseResultSetError_spec {result : SQLParseResult} {r : MiniDbms.SQLParseResult}
    (hr : result.Represents r) (status : SQLStatus) (errorCode : ℤ) (sqlState message : CBytes)
    (hstate : 0 ∉ sqlState) (hmessage : 0 ∉ message) :
    Yields (sqlParseResultSetError result status errorCode sqlState message) fun result =>
      result.Represents
        (MiniDbms.sqlParseResultSetError r status errorCode sqlState message) := by
  obtain ⟨state', hw, hs⟩ := stringAt_snprintf result.sqlState (by decide) hstate
  obtain ⟨message', hw', hm⟩ := stringAt_snprintf result.errorMessage (by decide) hmessage
  refine Yields.bind_eq hw (Yields.bind_eq hw' (yields_some ?_))
  exact ⟨rfl, { hr.command with type := rfl }, rfl, rfl, hs, hm⟩

/-! ### Errors -/

/-- The message of a syntax error. -/
def syntaxErrorText (near : CBytes) : CBytes :=
  ascii ("ERROR 1064 (42000): You have an error in your SQL syntax; check the manual that " ++
    "corresponds to your sql processor2 version for the right syntax to use near '") ++
    near ++ ascii "' at line 1"

/-- The message of an unknown column. -/
def unknownColumnText (column clauseName : CBytes) : CBytes :=
  ascii "ERROR 1054 (42S22): Unknown column '" ++ column ++ ascii "' in '" ++ clauseName ++
    ascii "'"

/-- A position at which a syntax error is reported, and the text there: a position of the input, or
the array with the table name that was read. -/
inductive Position (input : CPointer) (bytes : CBytes) : CPointer → CBytes → Prop
  | input {k : ℕ} (le_length : k ≤ bytes.length) :
    Position input bytes (input.add k) (bytes.drop k)
  | tableName {a : CArray UInt8 identifierSize} {name : CBytes}
    (string : (CPointer.ofArray a).StringAt name) (of_bytes : name <:+: bytes) :
    Position input bytes (.ofArray a) name

theorem position_of_at (h : w.At p s) : Position w.start w.text p s := by
  obtain ⟨k, hk, rfl, rfl⟩ := h
  exact .input hk

/-- The message of an error is in the struct, to its last byte. -/
inductive SQLParseResult.ReportsInFull (input : CPointer) (bytes : CBytes)
    (result : SQLParseResult) : Prop
  | syntaxError {position : CPointer} {text : CBytes} (reported : result.reported = some position)
    (position_text : Position input bytes position text)
    (message : (CPointer.ofArray result.errorMessage).StringAt (syntaxErrorText (nearPart text)))
  | unknownColumn {column clauseName : CBytes} (of_bytes : column <:+: bytes)
    (length_column : column.length < identifierSize)
    (clause : clauseName = ascii "field list" ∨ clauseName = ascii "where clause")
    (message : (CPointer.ofArray result.errorMessage).StringAt
      (unknownColumnText column clauseName))

/-- A literal is a string. -/
theorem zero_notMem_ascii {chars : List Char} (h : chars.all fun c => c.toNat.toUInt8 != 0) :
    0 ∉ ascii (String.ofList chars) := by
  rw [ascii_ofList]
  intro hmem
  obtain ⟨c, hc, h0⟩ := List.mem_map.mp hmem
  have hne := List.all_eq_true.mp h c hc
  simp [h0] at hne

theorem zero_notMem_syntaxErrorText {near : CBytes} (h0 : 0 ∉ near) :
    0 ∉ syntaxErrorText near := by
  rw [syntaxErrorText, List.mem_append, List.mem_append, ascii_append]
  rw [List.mem_append]
  rintro (((h | h) | h) | h)
  · exact zero_notMem_ascii (by decide) h
  · exact zero_notMem_ascii (by decide) h
  · exact h0 h
  · exact zero_notMem_ascii (by decide) h

/-- The buffer of the message takes the excerpt and what stands around it. -/
theorem snprintf_syntaxErrorText (text : CBytes) :
    snprintf sqlErrorMessageSize
        (syntaxErrorText (MiniDbms.sqlBuildNearExcerpt text nearExcerptSize)) =
      syntaxErrorText (nearPart text) := by
  have hmessage := sqlParseSetSyntaxError_message MiniDbms.sqlParseResultInit text
  simp only [MiniDbms.sqlParseSetSyntaxError] at hmessage
  rw [← sqlBuildNearExcerpt_eq, syntaxErrorText]
  exact hmessage

theorem sqlParseSetSyntaxError_eq (r : MiniDbms.SQLParseResult) (text : CBytes) :
    MiniDbms.sqlParseSetSyntaxError r text =
      { MiniDbms.sqlParseResultSetError r .syntaxError 1064 (ascii "42000") [] with
        errorMessage := syntaxErrorText (nearPart text) } := by
  rw [← snprintf_syntaxErrorText, syntaxErrorText]
  rfl

theorem sqlParseSetSyntaxError_spec {result : SQLParseResult} {r : MiniDbms.SQLParseResult}
    (hr : result.Represents r) (h : Position w.start w.text p s)
    (hturns : nearExcerptSize ≤ turns) :
    Yields (sqlParseSetSyntaxError turns result p) fun result =>
      result.Represents (MiniDbms.sqlParseSetSyntaxError r s) ∧
        result.ReportsInFull w.start w.text := by
  -- a local array is walked through like the input
  obtain ⟨w', hw'⟩ : ∃ w' : CPointer.Walk turns, w'.At p s := by
    cases h with
    | input hk => exact ⟨w, _, hk, rfl, rfl⟩
    | tableName hname _ =>
      exact ⟨.ofArray hname (le_trans (by decide) hturns), CPointer.Walk.at_start _⟩
  refine (sqlBuildNearExcerpt_spec hw' _ (by decide) le_rfl hturns).bind fun excerpt hex => ?_
  refine (sqlParseResultSetError_spec hr .syntaxError 1064 (ascii "42000") []
    (zero_notMem_ascii (by decide)) List.not_mem_nil).bind fun result hr' => ?_
  have hread : (CPointer.ofArray excerpt).readString turns =
      some (MiniDbms.sqlBuildNearExcerpt s nearExcerptSize) :=
    (CPointer.Walk.at_start (.ofArray hex hturns)).readString
  have h0 : 0 ∉ MiniDbms.sqlBuildNearExcerpt s nearExcerptSize := hex.no_nul
  obtain ⟨message, hw, hm⟩ := stringAt_snprintf result.errorMessage (by decide)
    (zero_notMem_syntaxErrorText h0)
  rw [snprintf_syntaxErrorText] at hm
  rw [sqlParseSetSyntaxError_eq]
  exact Yields.bind_eq hread (Yields.bind_eq hw
    (yields_some ⟨{ hr' with errorMessage := hm }, .syntaxError rfl h hm⟩))

theorem length_unknownColumnText_lt {column clauseName : CBytes}
    (hcolumn : column.length < identifierSize) (hclause : clauseName.length ≤ 12) :
    (unknownColumnText column clauseName).length < sqlErrorMessageSize := by
  rw [identifierSize] at hcolumn
  simp only [unknownColumnText, List.length_append]
  have h1 : (ascii "ERROR 1054 (42S22): Unknown column '").length = 36 := by
    rw [ascii_ofList]
    decide
  have h2 : (ascii "' in '").length = 6 := by
    rw [ascii_ofList]
    decide
  have h3 : (ascii "'").length = 1 := by
    rw [ascii_ofList]
    decide
  rw [h1, h2, h3, sqlErrorMessageSize]
  omega

theorem sqlParseSetUnknownColumnError_spec {result : SQLParseResult}
    {r : MiniDbms.SQLParseResult} (hr : result.Represents r) {a : CArray UInt8 identifierSize}
    (h : (CPointer.ofArray a).StringAt s) (hsub : s <:+: w.text) {clauseName : CBytes}
    (hclause : clauseName = ascii "field list" ∨ clauseName = ascii "where clause")
    (hturns : nearExcerptSize ≤ turns) :
    Yields (sqlParseSetUnknownColumnError turns result (.ofArray a) clauseName) fun result =>
      result.Represents (MiniDbms.sqlParseSetUnknownColumnError r s clauseName) ∧
        result.ReportsInFull w.start w.text := by
  refine (sqlParseResultSetError_spec hr .queryError 1054 (ascii "42S22") []
    (zero_notMem_ascii (by decide)) List.not_mem_nil).bind fun result hr' => ?_
  have hread : (CPointer.ofArray a).readString turns = some s :=
    (CPointer.Walk.at_start (.ofArray h (le_trans (by decide) hturns))).readString
  refine Yields.bind_eq hread ?_
  have hclause' : 0 ∉ clauseName ∧ clauseName.length ≤ 12 := by
    rcases hclause with rfl | rfl
    · exact ⟨zero_notMem_ascii (by decide), by rw [ascii_ofList]; decide⟩
    · exact ⟨zero_notMem_ascii (by decide), by rw [ascii_ofList]; decide⟩
  have h0 : 0 ∉ unknownColumnText s clauseName := by
    simp only [unknownColumnText, List.mem_append, not_or]
    exact ⟨⟨⟨⟨zero_notMem_ascii (by decide), h.no_nul⟩, zero_notMem_ascii (by decide)⟩,
      hclause'.1⟩, zero_notMem_ascii (by decide)⟩
  obtain ⟨message, hw, hm⟩ := stringAt_snprintf result.errorMessage (by decide) h0
  refine Yields.bind_eq hw (yields_some ⟨{ hr' with errorMessage := hm }, ?_⟩)
  rw [snprintf_eq (length_unknownColumnText_lt h.length_lt hclause'.2)] at hm
  exact .unknownColumn hsub h.length_lt hclause hm

end MiniDbms.Scanner
