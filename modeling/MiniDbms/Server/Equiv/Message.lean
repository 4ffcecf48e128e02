import MiniDbms.Lib.HttpMessage
import MiniDbms.Server.Equiv.Contract
import MiniDbms.Server.Equiv.Delivery

/-!
# Requests and responses as messages

A `QueryRequest` is what a client may send for a statement: `POST /query` with any version, the
length of the statement in a field with any case and blanks, and any other fields around it.  The
server reads the statement back, wherever `recv` cuts the bytes and whatever is sent behind it
(`http_read_request_message`).  In the other direction a client reads back the status and the body
of a response (`readResponse_httpResponse`).
-/

namespace MiniDbms

open CString

/-! ### Where the head ends -/

theorem headerEnd_cons (c : UInt8) (s : List UInt8) :
    headerEnd (c :: s) =
      if (c :: s).take 4 = blankLine then some 0 else (headerEnd s).map (· + 1) := by
  rw [headerEnd, List.length_cons, List.range_succ_eq_map, List.find?_cons]
  by_cases h : (c :: s).take 4 = blankLine
  · rw [if_pos h, List.drop_zero, decide_eq_true h]
  · rw [if_neg h, List.drop_zero, decide_eq_false h, List.find?_map]
    rfl

/-- The head ends where `strstr` finds an empty line. -/
theorem headerEnd_of_strstr {s rest : List UInt8} (h : strstr blankLine s = some rest) :
    headerEnd s = some (s.length - rest.length) := by
  induction s with
  | nil => cases h
  | cons c s ih =>
    rw [headerEnd_cons]
    rw [strstr] at h
    have hbegins : blankLine.isPrefixOf (c :: s) = true ↔ (c :: s).take 4 = blankLine := by
      rw [List.isPrefixOf_iff_prefix, List.prefix_iff_eq_take, eq_comm]
      rfl
    split_ifs at h with hhere
    · cases h
      rw [if_pos (hbegins.mp hhere), Nat.sub_self]
    · rw [if_neg (mt hbegins.mpr hhere), ih h, Option.map_some]
      have hle : rest.length ≤ s.length := by
        clear ih hhere hbegins
        induction s with
        | nil => cases h
        | cons d s ih =>
          rw [strstr] at h
          split_ifs at h
          · cases h
            exact le_rfl
          · exact (ih h).trans (Nat.le_succ _)
      rw [List.length_cons]
      congr 1
      omega

/-- The server finds the end of the head of a message. -/
theorem headerEnd_message (first : Http.Line) (fields : List Http.Line) (body : List UInt8) :
    headerEnd (Http.message first fields body) = some (Http.head first fields).length := by
  rw [headerEnd_of_strstr (Http.strstr_message first fields body), Http.message,
    List.length_append, Nat.add_sub_cancel]

/-- The lines behind the first one, as `strtok_r` separates them. -/
theorem readLines_head (first : Http.Line) (fields : List Http.Line) :
    readLines (Http.head first fields) = fields.map Http.Line.bytes := by
  rw [readLines, Http.crlfLines_head, List.headD_cons, Http.head, List.drop_left]
  induction fields with
  | nil => rfl
  | cons field fields ih =>
    have hstop : StopsAt (!isCrlf ·) (fields.flatMap fun field => 13 :: 10 :: field.bytes) := by
      cases fields with
      | nil => exact stopsAt_nil _
      | cons field fields =>
        rw [List.flatMap_cons, List.cons_append, stopsAt_cons]
        rfl
    rw [List.flatMap_cons, List.cons_append, List.cons_append, tokens_cons_of_pos rfl,
      tokens_cons_of_pos rfl, tokens_append field.ne_nil field.isCrlf hstop, ih, List.map_cons]

/-! ### Requests -/

/-- A field of a head that says nothing about the length of the body. -/
structure OtherField extends Http.Line where
  colon : 58 ∈ bytes
  nul : 0 ∉ bytes
  other : contentLengthValue bytes = none

/-- A request to execute a statement. -/
structure QueryRequest where
  version : List UInt8
  before : List OtherField
  /-- `Content-Length`, in any case -/
  name : List UInt8
  blanks : List UInt8
  behind : List OtherField
  statement : List UInt8
  version_ne_nil : version ≠ []
  version_isspace : ∀ c ∈ version, isspace c = false
  version_nul : 0 ∉ version
  name_same : casecmpEq name (ascii "Content-Length") = true
  blanks_mem : ∀ c ∈ blanks, c = 32 ∨ c = 9
  statement_nul : 0 ∉ statement
  statement_le : statement.length ≤ httpMaxBodySize

namespace QueryRequest

variable (r : QueryRequest)

/-- The name of a field has no characters but those of `Content-Length`. -/
theorem notMem_name {c : UInt8} (hlower : tolower c = c)
    (hc : c ∉ (ascii "Content-Length").map tolower) : c ∉ r.name := by
  intro hmem
  rw [← casecmpEq_iff.mp r.name_same] at hc
  exact hc (List.mem_map.mpr ⟨c, hmem, hlower⟩)

/-- `POST /query` and the version. -/
def first : Http.Line where
  bytes := ascii "POST /query " ++ r.version
  ne_nil := fun h => r.version_ne_nil (List.append_eq_nil_iff.mp h).2
  isCrlf := by
    intro c hc
    rcases List.mem_append.mp hc with hc | hc
    · exact Http.forall_eq_false (s := ascii "POST /query ") (by decide) c hc
    · exact Http.isCrlf_of_isspace (r.version_isspace c hc)

/-- The field with the length of the statement. -/
def lengthField : Http.Line where
  bytes := r.name ++ 58 :: (r.blanks ++ decimalDigits r.statement.length)
  ne_nil := by simp
  isCrlf := by
    intro c hc
    rcases List.mem_append.mp hc with hc | hc
    · by_contra hcrlf
      rw [Bool.not_eq_false, isCrlf, Bool.or_eq_true, beq_iff_eq, beq_iff_eq] at hcrlf
      rcases hcrlf with rfl | rfl
      · exact r.notMem_name (by decide) (by decide) hc
      · exact r.notMem_name (by decide) (by decide) hc
    · rcases List.mem_cons.mp hc with rfl | hc
      · rfl
      · rcases List.mem_append.mp hc with hc | hc
        · rcases r.blanks_mem c hc with rfl | rfl <;> rfl
        · exact Http.isCrlf_decimalDigits c hc

/-- The fields of the head. -/
def fields : List Http.Line :=
  r.before.map OtherField.toLine ++ r.lengthField :: r.behind.map OtherField.toLine

/-- The bytes of the request. -/
def text : List UInt8 := Http.message r.first r.fields r.statement

/-- There is one length. -/
theorem contentLengths_fields :
    contentLengths (r.fields.map Http.Line.bytes) = [decimalDigits r.statement.length] := by
  have hother : ∀ fs : List OtherField,
      contentLengths ((fs.map OtherField.toLine).map Http.Line.bytes) = [] := by
    intro fs
    rw [contentLengths, List.filterMap_eq_nil_iff]
    intro line hline
    obtain ⟨field, hfield, rfl⟩ := List.mem_map.mp hline
    obtain ⟨f, -, rfl⟩ := List.mem_map.mp hfield
    exact f.other
  have hlength : contentLengthValue r.lengthField.bytes =
      some (decimalDigits r.statement.length) := by
    refine Http.fieldValue_eq r.name_same (r.notMem_name (by decide) (by decide)) ?_
      (Http.stopsAt_isspace_decimalDigits _)
    intro c hc
    rcases r.blanks_mem c hc with rfl | rfl <;> rfl
  simp only [contentLengths] at hother ⊢
  rw [fields, List.map_append, List.map_cons, List.filterMap_append, List.filterMap_cons, hlength,
    hother, hother]
  rfl

/-- The text of the head is a string. -/
theorem zero_notMem_head : 0 ∉ Http.head r.first r.fields := by
  have hfirst : 0 ∉ r.first.bytes := by
    intro h
    rcases List.mem_append.mp h with h | h
    · exact absurd h (by decide)
    · exact r.version_nul h
  have hlength : 0 ∉ r.lengthField.bytes := by
    intro h
    rcases List.mem_append.mp h with h | h
    · exact r.notMem_name (by decide) (by decide) h
    · rcases List.mem_append.mp ((List.mem_cons.mp h).resolve_left (by decide)) with h | h
      · rcases r.blanks_mem 0 h with h | h <;> exact absurd h (by decide)
      · exact absurd (isdigit_decimalDigits 0 h) (by decide)
  have hfields : ∀ field ∈ r.fields, 0 ∉ field.bytes := by
    intro field hfield
    rw [fields, List.mem_append, List.mem_cons] at hfield
    rcases hfield with hfield | rfl | hfield
    · obtain ⟨f, -, rfl⟩ := List.mem_map.mp hfield
      exact f.nul
    · exact hlength
    · obtain ⟨f, -, rfl⟩ := List.mem_map.mp hfield
      exact f.nul
  intro h
  rcases List.mem_append.mp h with h | h
  · exact hfirst h
  · obtain ⟨field, hfield, h⟩ := List.mem_flatMap.mp h
    have hmem := (List.mem_cons.mp h).resolve_left (by decide)
    exact hfields field hfield ((List.mem_cons.mp hmem).resolve_left (by decide))

/-- The words of the first line. -/
theorem requestWords_head : requestWords (Http.head r.first r.fields) =
    [ascii "POST", ascii "/query", r.version] := by
  have hpost : ascii "POST /query " = ascii "POST" ++ 32 :: (ascii "/query" ++ [32]) := by decide
  have hversion : tokens isspace r.version = [r.version] := by
    have h := tokens_append r.version_ne_nil r.version_isspace (stopsAt_nil _)
    rwa [List.append_nil, tokens_nil] at h
  rw [requestWords, Http.crlfLines_head, List.headD_cons, first]
  dsimp only
  rw [hpost, List.append_assoc, List.cons_append, List.append_assoc, List.singleton_append,
    tokens_append (by decide) (Http.forall_eq_false (by decide)) (by rw [stopsAt_cons]; rfl),
    tokens_cons_of_pos rfl,
    tokens_append (by decide) (Http.forall_eq_false (by decide)) (by rw [stopsAt_cons]; rfl),
    tokens_cons_of_pos rfl,
    hversion]

/-- The head asks for the statement. -/
theorem queryHead : QueryHead (Http.head r.first r.fields) r.statement.length where
  words := ⟨_, _, r.requestWords_head⟩
  lines := by
    have hlength := strtoul_decimalDigits (show r.statement.length ≤ ulongMax from
      r.statement_le.trans (by decide))
    rw [readLines_head, LinesOk, r.contentLengths_fields]
    constructor
    · intro line hline
      obtain ⟨field, hfield, rfl⟩ := List.mem_map.mp hline
      rw [fields, List.mem_append, List.mem_cons] at hfield
      rcases hfield with hfield | rfl | hfield
      · obtain ⟨f, -, rfl⟩ := List.mem_map.mp hfield
        exact f.colon
      · exact List.mem_append_right _ List.mem_cons_self
      · obtain ⟨f, -, rfl⟩ := List.mem_map.mp hfield
        exact f.colon
    · rw [List.forall_mem_singleton]
      exact ⟨by rw [hlength], decimalDigits_ne_nil _⟩
  last := by
    rw [readLines_head, lastLength, r.contentLengths_fields, List.getLast?_singleton,
      Option.map_some, strtoul_decimalDigits (r.statement_le.trans (by decide))]

/-- The head fits into the buffer of the server. -/
def Fits : Prop := (Http.head r.first r.fields).length + 4 ≤ httpMaxRequestSize

end QueryRequest

/-- **A request is read back**, with a statement of at most 4096 bytes without `NUL`: whatever the
version, the other fields and the spelling of the length are, wherever `recv` cuts the bytes and is
interrupted, and whatever is sent behind, the text that `server_handle_client` executes is the
statement. -/
theorem http_read_request_message (r : QueryRequest) (hfits : r.Fits) (behind : List UInt8)
    (ending : StreamEnd) :
    ∃ request, HttpReads (r.text ++ behind) ending (.ok request) ∧
      request.sqlText = some r.statement := by
  have htext : r.text ++ behind =
      Http.head r.first r.fields ++ blankLine ++ (r.statement ++ behind) := by
    simp [QueryRequest.text, Http.message, blankLine]
  have hhead :=
    headerEnd_append (headerEnd_message r.first r.fields []) hfits (r.statement ++ behind)
  rw [← htext] at hhead
  have hquery : QueryHead (headText (r.text ++ behind) (Http.head r.first r.fields).length)
      r.statement.length := by
    rw [htext, headText_append, takeWhile_ne_zero_eq_iff.mpr r.zero_notMem_head]
    exact r.queryHead
  obtain ⟨outcome, houtcome⟩ := exists_httpOutcome (r.text ++ behind) ending
  have hspec := hquery.outcome hhead houtcome
  rw [if_neg (not_lt.mpr r.statement_le), htext, drop_append_blankLine,
    if_neg (by rw [List.length_append]; omega), List.take_left] at hspec
  obtain ⟨request, rfl, -, hholds⟩ := hspec
  refine ⟨request, houtcome.reads, ?_⟩
  rw [hholds.sqlText r.statement_le, takeWhile_ne_zero_eq_iff.mpr r.statement_nul]

/-- A request with another field and a blank. -/
def insertRequest : QueryRequest where
  version := ascii "HTTP/1.1"
  before := []
  name := ascii "content-length"
  blanks := [32]
  behind := [⟨⟨ascii "Host: localhost", by decide, Http.forall_eq_false (by decide)⟩, by decide,
    by decide, by decide⟩]
  statement := ascii "INSERT INTO users VALUES ('kim', 30)"
  version_ne_nil := by decide
  version_isspace := Http.forall_eq_false (by decide)
  version_nul := by decide
  name_same := by decide
  blanks_mem := List.forall_mem_singleton.mpr (Or.inl rfl)
  statement_nul := by decide
  statement_le := by decide

theorem insertRequest_fits : insertRequest.Fits := by
  unfold QueryRequest.Fits
  decide

theorem http_read_request_message_insert :
    ∃ request, HttpReads (ascii ("POST /query HTTP/1.1\r\ncontent-length: 36\r\n" ++
        "Host: localhost\r\n\r\nINSERT INTO users VALUES ('kim', 30)EXIT")) .closed (.ok request) ∧
      request.sqlText = some (ascii "INSERT INTO users VALUES ('kim', 30)") := by
  have htext : ascii ("POST /query HTTP/1.1\r\ncontent-length: 36\r\n" ++
      "Host: localhost\r\n\r\nINSERT INTO users VALUES ('kim', 30)EXIT") =
      insertRequest.text ++ ascii "EXIT" := by
    decide
  rw [htext]
  exact http_read_request_message insertRequest insertRequest_fits (ascii "EXIT") .closed

/-! ### Responses -/

/-- `HTTP/1.1`, the status and its reason. -/
def statusLine (statusCode : ℕ) : Http.Line where
  bytes := ascii "HTTP/1.1" ++ 32 :: (decimalDigits statusCode ++ 32 :: httpStatusReason statusCode)
  ne_nil := by simp
  isCrlf := by
    have hreason : ∀ c ∈ httpStatusReason statusCode, isCrlf c = false := by
      unfold httpStatusReason
      split <;> exact Http.forall_eq_false (by decide)
    intro c hc
    rw [List.mem_append, List.mem_cons, List.mem_append, List.mem_cons] at hc
    rcases hc with hc | rfl | hc | rfl | hc
    · exact Http.forall_eq_false (s := ascii "HTTP/1.1") (by decide) c hc
    · rfl
    · exact Http.isCrlf_decimalDigits c hc
    · rfl
    · exact hreason c hc

/-- The type of every body that the server sends. -/
def jsonTypeField : Http.Line where
  bytes := ascii "Content-Type: " ++ ascii "application/json; charset=utf-8"
  ne_nil := by decide
  isCrlf := Http.forall_eq_false (by decide)

/-- The length of a body. -/
def bodyLengthField (n : ℕ) : Http.Line where
  bytes := ascii "Content-Length" ++ 58 :: ([32] ++ decimalDigits n)
  ne_nil := by simp
  isCrlf := by
    intro c hc
    rw [List.mem_append, List.mem_cons, List.singleton_append, List.mem_cons] at hc
    rcases hc with hc | rfl | rfl | hc
    · exact Http.forall_eq_false (s := ascii "Content-Length") (by decide) c hc
    · rfl
    · rfl
    · exact Http.isCrlf_decimalDigits c hc

def closeField : Http.Line where
  bytes := ascii "Connection: close"
  ne_nil := by decide
  isCrlf := Http.forall_eq_false (by decide)

/-- The fields of a response. -/
def responseFields (n : ℕ) : List Http.Line := [jsonTypeField, bodyLengthField n, closeField]

/-- A response is a message. -/
theorem httpResponse_eq_message (statusCode : ℕ) (body : List UInt8) :
    httpResponse statusCode (some (ascii "application/json; charset=utf-8")) (some body) =
      Http.message (statusLine statusCode) (responseFields body.length) body := by
  have hversion : ascii "HTTP/1.1 " = ascii "HTTP/1.1" ++ [32] := by decide
  have hblank : ascii " " = [32] := by decide
  have htype : ascii "\r\nContent-Type: " = 13 :: 10 :: ascii "Content-Type: " := by decide
  have hlength : ascii "\r\nContent-Length: " =
      13 :: 10 :: (ascii "Content-Length" ++ [58, 32]) := by decide
  have hclose : ascii "\r\nConnection: close\r\n\r\n" =
      13 :: 10 :: (ascii "Connection: close" ++ [13, 10, 13, 10]) := by decide
  have hstatus : intText (statusCode : ℤ) = decimalDigits statusCode := intText_natCast statusCode
  simp only [httpResponse, httpHeader, Option.getD_some, hversion, hblank, htype, hlength, hclose,
    hstatus, Http.message, Http.head, responseFields, statusLine, jsonTypeField, bodyLengthField,
    closeField, List.flatMap_cons, List.flatMap_nil, List.append_assoc, List.cons_append,
    List.nil_append, List.append_nil]

/-- **A response is read back** by a client: the status and the body, and nothing is left. -/
theorem readResponse_httpResponse (statusCode : ℕ) (body : List UInt8) :
    Http.readResponse
        (httpResponse statusCode (some (ascii "application/json; charset=utf-8")) (some body)) =
      some (⟨statusCode, (responseFields body.length).map Http.Line.bytes, body⟩, []) := by
  have hout : ∀ c ∈ decimalDigits statusCode, (c == 32) = false := by
    intro c hc
    rw [beq_eq_false_iff_ne]
    rintro rfl
    exact absurd (isdigit_decimalDigits 32 hc) (by decide)
  have htokens : (tokens (· == 32) (statusLine statusCode).bytes)[1]? =
      some (decimalDigits statusCode) := by
    rw [statusLine]
    dsimp only
    rw [tokens_append (by decide) (Http.forall_eq_false (by decide)) (by simp),
      tokens_cons_of_pos rfl, tokens_append (decimalDigits_ne_nil _) hout (by simp)]
    rfl
  have hvalue : Http.fieldValue (ascii "Content-Length") (bodyLengthField body.length).bytes =
      some (decimalDigits body.length) :=
    Http.fieldValue_eq (by decide) (by decide) (List.forall_mem_singleton.mpr rfl)
      (Http.stopsAt_isspace_decimalDigits _)
  have hother : Http.fieldValue (ascii "Content-Length") jsonTypeField.bytes = none ∧
      Http.fieldValue (ascii "Content-Length") closeField.bytes = none := by
    decide
  have hlengths : ((responseFields body.length).map Http.Line.bytes).filterMap
      (Http.fieldValue (ascii "Content-Length")) = [decimalDigits body.length] := by
    simp only [responseFields, List.map_cons, List.map_nil, List.filterMap_cons, hvalue, hother.1,
      hother.2, List.filterMap_nil]
  have hread := Http.readResponse_message htokens hlengths []
  rwa [List.append_nil, ← httpResponse_eq_message] at hread

end MiniDbms
