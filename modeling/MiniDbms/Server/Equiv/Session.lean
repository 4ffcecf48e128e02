import MiniDbms.Server.Equiv.Failures
import MiniDbms.Server.Equiv.JsonGrowth
import MiniDbms.Server.Equiv.Message
import MiniDbms.Server.Equiv.Server
import MiniDbms.Server.Equiv.Utf8
import MiniDbms.Server.NetworkDatabase
import MiniDbms.Server.Session

/-!
# The server is a database on the network that is one list

`TableMemory.Serves m rows` relates the table to the list of its rows.  One statement keeps the
relation, and the body of its answer says what the list database tells (`apiHandleQuery_serves`);
so does one client, however its bytes are cut and its response is taken (`Client.Asks.served`), and
so do all clients, one after another (`server_session_eq`).  No allocation and no lock call fails
here.
-/

namespace MiniDbms

open CString Json ListDatabase

/-! ### The rows -/

/-- The table of a memory without failures holds the rows of a list database, and every result array
is freed. -/
structure TableMemory.Serves (m : TableMemory) (rows : List Record) : Prop where
  refines : m.Refines rows
  kept : Kept m
  sane : ∀ r ∈ rows, r.Sane
  length_lt : rows.length < 2 ^ 31

theorem serves_start : (TableMemory.start [] []).Serves [] where
  refines := refines_start
  kept := (ReachedBy.start : ReachedBy AnyStatement _).kept
  sane := nofun
  length_lt := by decide

/-- The number of a command is an `int`. -/
theorem sqlParse_isInt {s : CBytes} {r : SQLParseResult} (h : sqlParse s = (true, r)) :
    IsInt r.command.intValue := by
  have hzero : IsInt 0 := by
    constructor <;> decide
  have hcondition : ∀ condition : Condition IntLiteral, IsInt condition.intValue := by
    intro condition
    cases condition with
    | id comparison value => exact isInt_intWrap _
    | name text => exact hzero
    | age comparison value => exact isInt_intWrap _
  have hcommand : ∀ (l : Layout) (statement : Statement IntLiteral),
      IsInt (statement.command l).intValue := by
    intro l statement
    cases statement with
    | insert name age => exact isInt_intWrap _
    | exit => exact hzero
    | select => exact hzero
    | selectWhere condition => exact hcondition condition
  rcases sqlParse_eq_iff.mp h with ⟨g, l, -, rfl⟩ | ⟨l, statement, -, -, rfl⟩ |
    ⟨l, g, g', condition, -, rfl⟩
  · exact hcommand l _
  · exact hcommand l _
  · exact hcommand l _

/-- A command adds a row that is sane. -/
theorem sane_apply {rows : List Record} (h : ∀ r ∈ rows, r.Sane) {command : SQLCommand}
    (hname : command.name.length < recordNameSize) (hage : IsInt command.intValue)
    (hlen : command.type = .insert → rows.length + 2 < 2 ^ 31) :
    ∀ r ∈ (apply rows command).1, r.Sane := by
  unfold ListDatabase.apply
  cases htype : command.type with
  | insert =>
    have hlt := hlen htype
    intro r hr
    rcases List.mem_append.mp hr with hr | hr
    · exact h r hr
    · have hid : IsInt (rows.length + 1) := ⟨by omega, by omega⟩
      rw [List.mem_singleton.mp hr]
      exact ⟨hname, hid, hage⟩
  | _ => exact h

/-! ### Statements -/

/-- The fixed texts are short. -/
theorem length_refusals_lt : apiInternalError.length < 2 ^ 31 ∧
    apiExitNotSupported.length < 2 ^ 31 := by
  rw [apiInternalError_eq, apiExitNotSupported_eq, length_refusalText, length_refusalText]
  have hinternal := length_quote_le (ascii "Internal database error")
  have hexit := length_quote_le (ascii "EXIT and QUIT are not supported over HTTP")
  have herror := length_quote_le (ascii "internal_error")
  have hnot := length_quote_le (ascii "exit_not_supported")
  have hinternal_length : (ascii "Internal database error").length = 23 := by decide
  have hexit_length : (ascii "EXIT and QUIT are not supported over HTTP").length = 41 := by
    rw [ascii_ofList]
    decide
  have herror_length : (ascii "internal_error").length = 14 := by decide
  have hnot_length : (ascii "exit_not_supported").length = 18 := by decide
  omega

instance (value : ℤ) : Decidable (IsInt value) := by
  unfold IsInt
  infer_instance

/-- What `api_handle_query` answers with: a status, and a body of bounded length that spells a
value. -/
def Told (answered : Option (Bool × TableMemory × ApiResult)) (m : TableMemory) (reply : Reply) :
    Prop :=
  ∃ body, answered = some (true, m, ⟨reply.1, some body⟩) ∧ Spells body reply.2 ∧
    body.length < 2 ^ 60

theorem told_selected (found : List Record) :
    told (selected found) = (200, selectedValue found) := by
  unfold selected
  split_ifs <;> rfl

/-- A result is told as the answer that it gives. -/
theorem apiRespondResult_told {m : TableMemory} (hallocs : m.allocs = []) {rows : List Record}
    (hsane : ∀ r ∈ rows, r.Sane) (hrows : rows.length < 2 ^ 31) {command : SQLCommand}
    (hexit : command.type ≠ .exit) (hlen : command.type = .insert → rows.length + 2 < 2 ^ 31)
    {result : SQLResult}
    (h : result.answer m = some (apply rows command).2) :
    Told (apiRespondResult m result) m (told (apply rows command).2) := by
  obtain ⟨records, hrecords, h⟩ := Option.bind_eq_some_iff.mp h
  have hselect : ∀ found : List Record, (∀ r ∈ found, r.Sane) → found.length < 2 ^ 31 →
      (⟨result.status, result.action, result.insertedId, result.rowCount, records⟩ : Answer) =
        selected found → Told (apiRespondResult m result) m (told (selected found)) := by
    intro found hfound hlength heq
    obtain ⟨hstatus, haction, -, hcount, rfl⟩ := Answer.mk.inj heq
    have hshort := length_selectedText_le hfound (hlength.trans (by decide))
    have hgrows := apiRespond_grows hallocs 200
      (grows_selected haction hrecords hfound hcount (hlength.trans (by decide)))
      (printable_selected records) (hshort.trans_lt (by omega))
    rw [told_selected]
    refine ⟨selectedText records, ?_, spells_selected records, hshort.trans_lt (by omega)⟩
    rw [apiRespondResult, hstatus]
    split_ifs <;> exact hgrows
  have hfilter : ∀ p : Record → Bool, (∀ r ∈ rows.filter p, r.Sane) ∧
      (rows.filter p).length < 2 ^ 31 := fun p =>
    ⟨fun r hr => hsane r (List.mem_filter.mp hr).1,
      (List.length_filter_le p rows).trans_lt (by omega)⟩
  unfold ListDatabase.apply at h ⊢
  cases htype : command.type with
  | insert =>
    simp only [htype] at h ⊢
    obtain ⟨hstatus, haction, hid, hcount, -⟩ := Answer.mk.inj (Option.some.inj h)
    have hint : IsInt result.insertedId := by
      rw [hid]
      have hlt := hlen htype
      exact ⟨by omega, by omega⟩
    have hgrows := grows_inserted (m := m) haction hint (by rw [hcount]; decide)
    have hshort := length_insertedText_lt hint
    rw [← hcount] at hshort
    refine ⟨insertedText result.insertedId result.rowCount, ?_, ?_, hshort.trans (by decide)⟩
    · rw [apiRespondResult, hstatus]
      exact apiRespond_grows hallocs 200 hgrows (printable_inserted _ _)
        (hshort.trans (by decide))
    · rw [told, if_pos rfl, hid, hcount]
      exact spells_inserted _ _
  | selectAll | selectById | selectByName | selectByAge =>
    simp only [htype] at h ⊢
    exact hselect _ (hfilter _).1 (hfilter _).2 (Option.some.inj h)
  | exit => exact absurd htype hexit
  | none =>
    simp only [htype] at h ⊢
    obtain ⟨hstatus, -⟩ := Answer.mk.inj (Option.some.inj h)
    refine ⟨apiInternalError, ?_, ?_, length_refusals_lt.1.trans (by decide)⟩
    · rw [apiRespondResult, hstatus]
      exact apiRespond_below hallocs 500 (appends_append _)
        (apiInternalError_eq ▸ printable_refusal _ _) length_refusals_lt.1
    · rw [apiInternalError_eq]
      exact spells_refusal _ _

/-- The error of a statement that is rejected. -/
theorem apiHandleQuery_rejected_told {m : TableMemory} (hallocs : m.allocs = [])
    {statement : CBytes} {parse : SQLParseResult} (hparse : sqlParse statement = (false, parse)) :
    Told (apiHandleQuery m statement) m (200, errorValue (apiStatusName parse.status)
      parse.errorCode parse.sqlState parse.errorMessage) := by
  obtain ⟨build, heq, hbuild⟩ := apiHandleQuery_rejected (m := m) hparse
  have hcode : IsInt parse.errorCode := by
    refine sqlParse_of (P := fun r => IsInt r.errorCode) (fun result cursor _ => ?_)
      (fun result column clauseName _ _ => ?_) hparse
    · exact (by decide : IsInt 1064)
    · exact (by decide : IsInt 1054)
  have hlength := length_errorText_lt (sqlParse_reports hparse) hcode
  refine ⟨_, ?_, spells_error _ _ _ _, hlength.trans (by decide)⟩
  rw [heq]
  exact apiRespond_below hallocs 200 hbuild (printable_error _ _ _ _) hlength

/-- The execution of a statement that was accepted. -/
theorem sqlExecutePlan_serves {m : TableMemory} {rows : List Record} (h : m.Serves rows)
    {statement : CBytes} {parse : SQLParseResult} (hparse : sqlParse statement = (true, parse))
    (hlen : parse.command.type = .insert → rows.length + 2 < 2 ^ 31) :
    ∃ m' result, sqlExecutePlan m parse.command = some (m', result) ∧
      result.answer m' = some (apply rows parse.command).2 ∧
      m'.allocs = [] ∧ (tableFreeArray m' result.records).Serves (apply rows parse.command).1 := by
  obtain ⟨m', result, hrun, hanswer, hrefines, -⟩ :=
    sqlExecutePlan_refines h.refines (sqlParse_name_length hparse) hlen
  refine ⟨m', result, hrun, hanswer, hrefines.quiet.allocs, ?_⟩
  refine ⟨hrefines.arraysOnly (arraysOnly_freeArray m' result.records), h.kept.execute hrun,
    sane_apply h.sane (sqlParse_name_length hparse) (sqlParse_isInt hparse) hlen, ?_⟩
  have hlt := h.length_lt
  unfold ListDatabase.apply
  cases htype : parse.command.type with
  | insert =>
    have hinsert := hlen htype
    rw [List.length_append, List.length_singleton]
    omega
  | _ => exact hlt

/-- **One statement** over the network is answered as the list database answers it. -/
theorem apiHandleQuery_serves {m : TableMemory} {rows : List Record} (h : m.Serves rows)
    {statement : CBytes} (hlen : IsInsert statement → rows.length + 2 < 2 ^ 31) :
    ∃ m', Told (apiHandleQuery m statement) m' (reply rows (.ok statement)) ∧
      m'.Serves (rowsBehind rows (.ok statement)) := by
  have hallocs := h.refines.quiet.allocs
  unfold IsInsert at hlen
  cases hparse : sqlParse statement with
  | mk accepted parse =>
    rw [hparse] at hlen
    dsimp only at hlen
    simp only [reply, rowsBehind, ListDatabase.execute, hparse]
    cases accepted with
    | false => exact ⟨m, apiHandleQuery_rejected_told hallocs hparse, h⟩
    | true =>
      dsimp only
      by_cases hexit : parse.command.type = .exit
      · -- nothing is executed
        have happly : apply rows parse.command = (rows, ⟨.exit, .none, 0, 0, []⟩) := by
          unfold ListDatabase.apply
          rw [hexit]
        have hrespond := apiRespond_below hallocs 400 (appends_append apiExitNotSupported)
          (apiExitNotSupported_eq ▸ printable_refusal _ _) length_refusals_lt.2
        rw [happly]
        refine ⟨m, ⟨apiExitNotSupported, ?_, apiExitNotSupported_eq ▸ spells_refusal _ _,
          length_refusals_lt.2.trans (by decide)⟩, h⟩
        rw [apiHandleQuery, hparse]
        exact (if_pos hexit).trans hrespond
      · obtain ⟨m', result, hrun, hanswer, hallocs', hserves⟩ := sqlExecutePlan_serves h hparse hlen
        obtain ⟨body, hrespond, hbody⟩ := apiRespondResult_told hallocs' h.sane h.length_lt hexit
          hlen hanswer
        refine ⟨_, ⟨body, ?_, hbody⟩, hserves⟩
        rw [apiHandleQuery, hparse]
        refine (if_neg hexit).trans ?_
        rw [hrun, Option.bind_eq_bind, Option.bind_some]
        dsimp only
        rw [hrespond]
        rfl

/-! ### Responses -/

/-- A call of `send` that takes bytes, or is interrupted. -/
def SendOutcome.Takes (outcome : SendOutcome) : Prop :=
  (∃ more, outcome = .take more) ∨ outcome = .interrupted

/-- Calls that take bytes take all of them. -/
theorem sendAll_takes (dispositions : Dispositions) (data : List UInt8) (fuel : ℕ) (wire : Wire)
    (sent : ℕ) (htakes : ∀ outcome ∈ wire.outcomes, outcome.Takes)
    (hfuel : wire.outcomes.length + 1 < fuel) :
    ∃ wire', sendAll dispositions data fuel wire sent = some (.ok (true, wire')) ∧
      wire'.outcomes <:+ wire.outcomes := by
  induction fuel generalizing wire sent with
  | zero => omega
  | succ fuel ih =>
    rw [sendAll]
    by_cases hlt : sent < data.length
    · rw [if_pos hlt]
      have hlength : (data.drop sent).length = data.length - sent := List.length_drop
      obtain ⟨bytes, outcomes⟩ := wire
      cases outcomes with
      | nil =>
        -- `send` takes everything, and the next test ends the loop
        obtain ⟨fuel, rfl⟩ := Nat.exists_eq_add_one.mpr (show 0 < fuel from by
          rw [List.length_nil] at hfuel
          omega)
        refine ⟨⟨bytes ++ data.drop sent, []⟩, ?_, List.suffix_rfl⟩
        rw [Wire.send]
        dsimp only
        rw [hlength, if_neg (by omega), sendAll, if_neg (by omega)]
      | cons outcome outcomes =>
        rw [List.length_cons] at hfuel
        obtain ⟨htake, hrest⟩ := List.forall_mem_cons.mp htakes
        have hsuffix : outcomes <:+ outcome :: outcomes := List.suffix_cons outcome outcomes
        rcases htake with ⟨more, rfl⟩ | rfl
        · have hcount : min (more + 1) (data.drop sent).length ≠ 0 := by omega
          obtain ⟨wire', hrun, hle⟩ := ih ⟨bytes ++ (data.drop sent).take (more + 1), outcomes⟩
            (sent + min (more + 1) (data.drop sent).length) hrest (by dsimp only; omega)
          exact ⟨wire', (if_neg hcount).trans hrun, hle.trans hsuffix⟩
        · obtain ⟨wire', hrun, hle⟩ := ih ⟨bytes, outcomes⟩ sent hrest (by dsimp only; omega)
          exact ⟨wire', hrun, hle.trans hsuffix⟩
    · rw [if_neg hlt]
      exact ⟨wire, rfl, List.suffix_rfl⟩

/-- The header of a JSON body fits into its buffer. -/
theorem length_httpHeader_lt {statusCode n : ℕ} (hstatus : statusCode < 2 ^ 31) (hn : n < 2 ^ 63) :
    (httpHeader statusCode (ascii "application/json; charset=utf-8") n).length < 512 := by
  have hreason : (httpStatusReason statusCode).length ≤ 21 := by
    unfold httpStatusReason
    split <;> decide
  have hcode : (intText (statusCode : ℤ)).length ≤ 11 := length_intText_le (by omega) (by omega)
  have hlength := length_decimalDigits_lt hn
  have hversion : (ascii "HTTP/1.1 ").length = 9 := by decide
  have hblank : (ascii " ").length = 1 := by decide
  have htype : (ascii "\r\nContent-Type: ").length = 16 := by decide
  have hjson : (ascii "application/json; charset=utf-8").length = 31 := by
    rw [ascii_ofList]
    decide
  have hfield : (ascii "\r\nContent-Length: ").length = 18 := by decide
  have hclose : (ascii "\r\nConnection: close\r\n\r\n").length = 23 := by
    rw [ascii_ofList]
    decide
  simp only [httpHeader, List.length_append]
  omega

/-- A response to a client that has not closed its connection: a prefix of its bytes arrives, and
all of them when the connection takes them. -/
theorem serverSend_received (dispositions : Dispositions) {fuel : ℕ} {outcomes : List SendOutcome}
    (hfuel : outcomes.length + 1 < fuel) (hclosed : .closed ∉ outcomes) {statusCode : ℕ}
    (hstatus : statusCode < 2 ^ 31) {body : CBytes} (hbody : body.length < 2 ^ 63) :
    ∃ wire, serverSend dispositions fuel ⟨[], outcomes⟩ (some ⟨statusCode, some body⟩) =
        some (.ok wire) ∧
      wire.sent <+: httpResponse statusCode (some (ascii "application/json; charset=utf-8"))
        (some body) ∧
      ((∀ outcome ∈ outcomes, outcome.Takes) → wire.sent =
        httpResponse statusCode (some (ascii "application/json; charset=utf-8")) (some body)) := by
  set json : Option (List UInt8) := some (ascii "application/json; charset=utf-8") with hjson
  have hfuel' : (⟨[], outcomes⟩ : Wire).outcomes.length + 1 < fuel := hfuel
  obtain ⟨⟨ok, wire⟩, hrun', sent, hsent, hprefix, hall⟩ :=
    httpSendResponse_delivers dispositions hfuel' statusCode json (some body)
  obtain ⟨r, hrun, hr⟩ := httpSendResponse_ignoring hfuel hrun'
  rw [List.nil_append] at hsent
  cases hr with
  | terminated hdefault hmem => exact absurd hmem hclosed
  | same =>
    refine ⟨wire, ?_, hsent ▸ hprefix, fun htakes => ?_⟩
    · rw [serverSend]
      dsimp only
      rw [← hjson, hrun]
      rfl
    · -- both pieces are taken
      obtain ⟨wire₁, hheader, hsuffix⟩ := sendAll_takes dispositions
        (httpHeader statusCode (ascii "application/json; charset=utf-8") body.length) fuel
        ⟨[], outcomes⟩ 0 htakes hfuel
      obtain ⟨wire₂, hrest, -⟩ := sendAll_takes dispositions body fuel wire₁ 0
        (fun outcome hmem => htakes outcome (hsuffix.subset hmem))
        (lt_of_le_of_lt (Nat.succ_le_succ hsuffix.length_le) hfuel)
      have hshort := length_httpHeader_lt hstatus hbody
      rw [httpSendResponse] at hrun
      simp only [hjson, Option.getD_some] at hrun
      rw [if_neg (not_le.mpr hshort), hheader, Option.bind_eq_bind, Option.bind_some] at hrun
      dsimp only at hrun
      rw [hrest] at hrun
      obtain ⟨rfl, -⟩ := Prod.mk.inj (Except.ok.inj (Option.some.inj hrun))
      exact hsent.trans (hall.mp rfl)

/-! ### Clients -/

/-- What a client asks, wherever its bytes are cut. -/
inductive Client.Asks (client : Client) : Question → Prop
  | statement {request : HttpRequest} {text : CBytes}
    (reads : HttpReads client.request.stream client.request.ending (.ok request))
    (text_eq : request.sqlText = some text) : client.Asks (.ok text)
  | refused {error : HttpError}
    (reads : HttpReads client.request.stream client.request.ending (.error error)) :
    client.Asks (.error error)

/-- Every client asks something. -/
theorem Client.exists_asks (client : Client) : ∃ question, client.Asks question := by
  obtain ⟨outcome, houtcome⟩ := exists_httpOutcome client.request.stream client.request.ending
  cases outcome with
  | error error => exact ⟨_, .refused houtcome.reads⟩
  | ok request =>
    obtain ⟨received, hholds, hle⟩ := houtcome.body_holds
    exact ⟨_, .statement houtcome.reads (hholds.sqlText hle)⟩

/-- A client that does not close its connection before it has its response; there is memory for the
text of an error. -/
structure Client.Stays (client : Client) : Prop where
  allocs : client.allocs = []
  closed : .closed ∉ client.outcomes

/-- What a client receives of a reply: the beginning of a response that is read as the reply, or all
of it if the connection takes all bytes. -/
def Client.Receives (client : Client) (wire : Wire) (reply : Reply) : Prop :=
  ∃ response, readReply response = some reply ∧ wire.sent <+: response ∧
    ((∀ outcome ∈ client.outcomes, outcome.Takes) → wire.sent = response)

theorem Client.httpReadRequest_eq {client : Client} {outcome : Except HttpError HttpRequest}
    (h : HttpReads client.request.stream client.request.ending outcome) :
    httpReadRequest client.fuel client.request = some outcome := by
  obtain ⟨r, hread, houtcome⟩ := MiniDbms.httpReadRequest_eq client.request.stream
    client.request.ending client.request.cuts (show _ < client.fuel by unfold Client.fuel; omega)
  rw [h.outcome.unique houtcome]
  exact hread

theorem readReply_httpResponse {statusCode : ℕ} {body : CBytes} {value : Value}
    (h : Spells body value) :
    readReply (httpResponse statusCode (some (ascii "application/json; charset=utf-8"))
      (some body)) = some (statusCode, value) := by
  rw [readReply, readResponse_httpResponse, Option.bind_eq_bind, Option.bind_some]
  dsimp only
  rw [h.read, Option.bind_eq_bind, Option.bind_some]
  exact if_pos ⟨rfl, rfl⟩

/-- A reply is sent. -/
theorem Client.Stays.receives {client : Client} (h : client.Stays) (dispositions : Dispositions)
    {reply : Reply} (hstatus : reply.1 < 2 ^ 31) {body : CBytes} (hspells : Spells body reply.2)
    (hbody : body.length < 2 ^ 63) :
    ∃ wire, serverSend dispositions client.fuel ⟨[], client.outcomes⟩
        (some ⟨reply.1, some body⟩) = some (.ok wire) ∧ client.Receives wire reply := by
  obtain ⟨wire, hsend, hprefix, hall⟩ := serverSend_received dispositions
    (show client.outcomes.length + 1 < client.fuel by unfold Client.fuel; omega) h.closed hstatus
    hbody
  exact ⟨wire, hsend, _, readReply_httpResponse hspells, hprefix, hall⟩

/-- The question is a statement that inserts. -/
def AsksInsert : Question → Prop
  | .ok statement => IsInsert statement
  | .error _ => False

instance (question : Question) : Decidable (AsksInsert question) := by
  unfold AsksInsert
  cases question <;> infer_instance

/-- The statuses that the server sends. -/
theorem reply_status_lt (rows : List Record) {question : Question} {client : Client}
    (h : client.Asks question) : (reply rows question).1 < 2 ^ 31 := by
  have htold : ∀ answer, (told answer).1 < 2 ^ 31 := by
    intro answer
    unfold told
    split
    · decide
    · decide
    · split_ifs <;> exact (by decide : 200 < 2 ^ 31)
  cases h with
  | statement reads text_eq =>
    simp only [reply]
    split
    · exact htold _
    · exact (by decide : 200 < 2 ^ 31)
  | refused reads =>
    have herrors : ∀ error ∈ httpErrors, error.status < 2 ^ 31 := by
      unfold httpErrors
      repeat rw [ascii_ofList]
      decide
    exact herrors _ reads.outcome.error_mem

/-- **One client** is served as the list database serves it. -/
theorem Client.Asks.served {client : Client} {question : Question} (hasks : client.Asks question)
    (hstays : client.Stays) (dispositions : Dispositions) {m : TableMemory} {rows : List Record}
    (h : m.Serves rows) (hlen : AsksInsert question → rows.length + 2 < 2 ^ 31) :
    ∃ reply m' wire, serverHandleClient client.fuel (client.onTable m) = some reply ∧
      serverSend dispositions client.fuel ⟨[], client.outcomes⟩ reply = some (.ok wire) ∧
      tableBehind m client = some m' ∧
      client.Receives wire (ListDatabase.reply rows question) ∧
      m'.Serves (rowsBehind rows question) := by
  have hstatus := reply_status_lt rows hasks
  cases hasks with
  | @statement request text reads text_eq =>
    have hread := Client.httpReadRequest_eq reads
    obtain ⟨m', ⟨body, hquery, hspells, hbody⟩, hserves⟩ := apiHandleQuery_serves h hlen
    obtain ⟨wire, hsend, hreceives⟩ := hstays.receives dispositions hstatus hspells
      (hbody.trans (by decide))
    rw [HttpRequest.sqlText] at text_eq
    refine ⟨_, m', wire, ?_, hsend, ?_, hreceives, hserves⟩
    · have hclient : (client.onTable m).query text =
          (true, ⟨(ListDatabase.reply rows (.ok text)).1, some body⟩) := by
        simp only [Client.onTable, hquery, Option.map_some, Option.getD_some]
      rw [serverHandleClient, show httpReadRequest client.fuel (client.onTable m).request = _ from
        hread, Option.bind_eq_bind, Option.bind_some]
      dsimp only
      rw [text_eq, Option.bind_eq_bind, Option.bind_some, hclient]
    · rw [tableBehind, hread, Option.bind_eq_bind, Option.bind_some]
      dsimp only
      rw [text_eq, Option.bind_eq_bind, Option.bind_some, hquery]
      rfl
  | @refused error reads =>
    have hread := Client.httpReadRequest_eq reads
    have hmem := reads.outcome.error_mem
    have hmessage : ∀ error ∈ httpErrors, error.message ≠ [] := by
      unfold httpErrors
      repeat rw [ascii_ofList]
      decide
    have hlength := length_httpErrors_lt error hmem
    rw [if_pos (hmessage error hmem)] at hlength
    obtain ⟨wire, hsend, hreceives⟩ := hstays.receives dispositions hstatus
      (spells_refusal (serverHttpErrorStatusName error.status) error.message)
      (hlength.trans (by decide))
    refine ⟨_, m, wire, ?_, hsend, ?_, hreceives, h⟩
    · rw [serverHandleClient, show httpReadRequest client.fuel (client.onTable m).request = _ from
        hread, Option.bind_eq_bind, Option.bind_some]
      dsimp only
      rw [if_pos (hmessage error hmem), serverErrorReply_eq _ _ hlength]
      have hallocs : (client.onTable m).allocs = [] := hstays.allocs
      rw [hallocs]
      rfl
    · rw [tableBehind, hread]
      rfl

/-! ### Sessions -/

theorem length_rowsBehind_le (rows : List Record) (question : Question) :
    (rowsBehind rows question).length ≤ rows.length + if AsksInsert question then 1 else 0 := by
  cases question with
  | error error => exact Nat.le_add_right _ _
  | ok statement => exact ListDatabase.length_execute_le rows statement

/-- Sequences of clients, from any table of a list database. -/
theorem serverSession_serves (dispositions : Dispositions) {clients : List Client}
    {questions : List Question} (hasks : List.Forall₂ Client.Asks clients questions)
    (hstays : ∀ client ∈ clients, client.Stays) {m : TableMemory} {rows : List Record}
    (h : m.Serves rows)
    (hlen : rows.length + (questions.filter fun question => AsksInsert question).length <
      2 ^ 31 - 1) :
    ∃ m' wires, serverSession dispositions m clients = some (.ok (m', wires)) ∧
      wires.length = clients.length ∧
      List.Forall₂ (fun (received : Client × Wire) reply => received.1.Receives received.2 reply)
        (clients.zip wires) (serve rows questions).2 ∧
      m'.Serves (serve rows questions).1 := by
  induction hasks generalizing m rows with
  | nil => exact ⟨m, [], rfl, rfl, .nil, h⟩
  | @cons client question clients questions hask hasks ih =>
    obtain ⟨hstay, hstays⟩ := List.forall_mem_cons.mp hstays
    have hle := length_rowsBehind_le rows question
    have hone : (AsksInsert question → rows.length + 2 < 2 ^ 31) ∧
        (rowsBehind rows question).length +
          (questions.filter fun question => AsksInsert question).length < 2 ^ 31 - 1 := by
      by_cases hins : AsksInsert question
      · rw [List.filter_cons_of_pos (by simpa using hins), List.length_cons] at hlen
        rw [if_pos hins] at hle
        exact ⟨fun _ => by omega, by omega⟩
      · rw [List.filter_cons_of_neg (by simpa using hins)] at hlen
        rw [if_neg hins] at hle
        exact ⟨fun h => absurd h hins, by omega⟩
    obtain ⟨reply, m₁, wire, hhandle, hsend, htable, hreceives, h₁⟩ :=
      hask.served hstay dispositions h hone.1
    obtain ⟨m', wires, hrun, hlength, hreplies, h'⟩ := ih hstays h₁ hone.2
    refine ⟨m', wire :: wires, ?_, by rw [List.length_cons, hlength, List.length_cons],
      .cons hreceives hreplies, h'⟩
    rw [serverSession, hhandle, Option.bind_eq_bind, Option.bind_some, hsend, Option.bind_eq_bind,
      Option.bind_some]
    dsimp only
    rw [htable, Option.bind_eq_bind, Option.bind_some, hrun]
    rfl

/-- **The server is a database on the network that is one list**, when no allocation and no lock
call fails.  Whatever bytes the clients send, wherever `recv` cuts them, and however their
connections take the responses, as long as none of them closes its connection before: what each
client receives is read as the reply of the list database to what it asks, the rows are those of the
list database, and every result array is freed once. -/
theorem server_session_eq {clients : List Client} {questions : List Question}
    (hasks : List.Forall₂ Client.Asks clients questions)
    (hstays : ∀ client ∈ clients, client.Stays)
    (hlen : (questions.filter fun question => AsksInsert question).length < 2 ^ 31 - 1)
    (dispositions : Dispositions) :
    ∃ m' wires, serverSession dispositions (.start [] []) clients = some (.ok (m', wires)) ∧
      wires.length = clients.length ∧
      List.Forall₂ (fun (received : Client × Wire) reply => received.1.Receives received.2 reply)
        (clients.zip wires) (serve [] questions).2 ∧
      m'.Refines (serve [] questions).1 ∧ m'.Owns [] := by
  obtain ⟨m', wires, hrun, hlength, hreplies, h'⟩ := serverSession_serves dispositions hasks hstays
    serves_start (by rwa [List.length_nil, Nat.zero_add])
  exact ⟨m', wires, hrun, hlength, hreplies, h'.refines, h'.kept.owns⟩

/-- A client that sends a request, and takes its response. -/
structure Visit where
  request : QueryRequest
  fits : request.Fits
  /-- What it sends behind its request. -/
  behind : List UInt8
  ending : StreamEnd
  cuts : List Cut
  outcomes : List SendOutcome
  takes : ∀ outcome ∈ outcomes, outcome.Takes

def Visit.client (visit : Visit) : Client where
  request := ⟨visit.request.text ++ visit.behind, visit.ending, visit.cuts⟩
  outcomes := visit.outcomes
  allocs := []
  query := fun _ => (false, ⟨500, none⟩)

theorem Visit.asks (visit : Visit) : visit.client.Asks (.ok visit.request.statement) := by
  obtain ⟨request, hreads, htext⟩ :=
    http_read_request_message visit.request visit.fits visit.behind visit.ending
  exact .statement hreads htext

theorem Visit.stays (visit : Visit) : visit.client.Stays where
  allocs := rfl
  closed := by
    intro hmem
    rcases visit.takes _ hmem with ⟨more, h⟩ | h <;> cases h

/-- A client stores a row, over a connection that takes ten bytes first. -/
def insertVisit : Visit where
  request := insertRequest
  fits := insertRequest_fits
  behind := ascii "EXIT"
  ending := .closed
  cuts := [.take 20, .interrupt]
  outcomes := [.take 9, .interrupted]
  takes := by simp [SendOutcome.Takes]

/-- A client that sends nothing, and whose connection fails. -/
def silentClient : Client := ⟨⟨[], .closed, []⟩, [.failed], [], fun _ => (false, ⟨500, none⟩)⟩

theorem server_session_eq_silent_client :
    ∃ m' wires, serverSession (installSignalHandlers fun _ => .default) (.start [] [])
        [insertVisit.client, silentClient] = some (.ok (m', wires)) ∧
      wires.length = 2 ∧
      List.Forall₂ (fun (received : Client × Wire) reply => received.1.Receives received.2 reply)
        ([insertVisit.client, silentClient].zip wires)
        (serve [] [.ok (ascii "INSERT INTO users VALUES ('kim', 30)"),
          .error ⟨400, ascii "Malformed HTTP request"⟩]).2 ∧
      m'.Refines [⟨1, ascii "kim", 30⟩] ∧ m'.Owns [] := by
  have hsilent : silentClient.Asks (.error ⟨400, ascii "Malformed HTTP request"⟩) :=
    .refused (HttpOutcome.noHead rfl).reads
  have hstays : ∀ client ∈ [insertVisit.client, silentClient], client.Stays :=
    List.forall_mem_cons.mpr ⟨insertVisit.stays,
      List.forall_mem_singleton.mpr ⟨rfl, by simp [silentClient]⟩⟩
  obtain ⟨m', wires, hrun, hlength, hreplies, hrefines, howns⟩ :=
    server_session_eq (.cons insertVisit.asks (.cons hsilent .nil)) hstays (by decide)
      (installSignalHandlers fun _ => .default)
  have hrows : (serve [] [.ok insertVisit.request.statement,
      .error ⟨400, ascii "Malformed HTTP request"⟩]).1 = [⟨1, ascii "kim", 30⟩] := by
    decide
  rw [hrows] at hrefines
  exact ⟨m', wires, hrun, hlength, hreplies, hrefines, howns⟩

/-- Clients that take their responses read the replies. -/
theorem map_readReply {visits : List Visit} {wires : List Wire} {replies : List Reply}
    (hlength : wires.length = visits.length)
    (h : List.Forall₂ (fun (received : Client × Wire) reply =>
      received.1.Receives received.2 reply) ((visits.map Visit.client).zip wires) replies) :
    wires.map (fun wire => readReply wire.sent) = replies.map some := by
  induction visits generalizing wires replies with
  | nil =>
    obtain rfl := List.eq_nil_of_length_eq_zero hlength
    cases h
    rfl
  | cons visit visits ih =>
    obtain ⟨wire, wires, rfl⟩ := List.exists_cons_of_length_eq_add_one hlength
    rw [List.map_cons, List.zip_cons_cons] at h
    obtain ⟨reply, replies, ⟨response, hread, -, hall⟩, hrest, rfl⟩ :=
      List.forall₂_cons_left_iff.mp h
    rw [List.map_cons, List.map_cons, ih (Nat.succ.inj hlength) hrest, hall visit.takes, hread]

/-- **A session over the network**, from end to end, when no allocation and no lock call fails: the
statements that the clients send come back as the replies of the list database. -/
theorem server_session_round_trip (visits : List Visit)
    (hlen : (visits.filter fun visit => IsInsert visit.request.statement).length < 2 ^ 31 - 1)
    (dispositions : Dispositions) :
    ∃ m' wires, serverSession dispositions (.start [] []) (visits.map Visit.client) =
        some (.ok (m', wires)) ∧
      wires.map (fun wire => readReply wire.sent) =
        (serve [] (visits.map fun visit => .ok visit.request.statement)).2.map some := by
  have hasks : List.Forall₂ Client.Asks (visits.map Visit.client)
      (visits.map fun visit => .ok visit.request.statement) := by
    rw [List.forall₂_map_left_iff, List.forall₂_map_right_iff, List.forall₂_same]
    exact fun visit _ => visit.asks
  have hstays : ∀ client ∈ visits.map Visit.client, client.Stays := by
    intro client hclient
    obtain ⟨visit, -, rfl⟩ := List.mem_map.mp hclient
    exact visit.stays
  have hcount : ((visits.map fun visit => (.ok visit.request.statement : Question)).filter
      fun question => AsksInsert question).length < 2 ^ 31 - 1 := by
    rw [List.filter_map, List.length_map]
    exact hlen
  obtain ⟨m', wires, hrun, hlength, hreplies, -⟩ := serverSession_serves dispositions hasks hstays
    serves_start (by rwa [List.length_nil, Nat.zero_add])
  exact ⟨m', wires, hrun, map_readReply (by rwa [List.length_map] at hlength) hreplies⟩

theorem server_session_round_trip_insert :
    ∃ m' wires, serverSession (installSignalHandlers fun _ => .default) (.start [] [])
        [insertVisit.client, insertVisit.client] = some (.ok (m', wires)) ∧
      wires.map (fun wire => readReply wire.sent) =
        [some (200, insertedValue 1 1), some (200, insertedValue 2 1)] := by
  obtain ⟨m', wires, hrun, hreplies⟩ := server_session_round_trip [insertVisit, insertVisit]
    (by decide) (installSignalHandlers fun _ => .default)
  exact ⟨m', wires, hrun, hreplies⟩

end MiniDbms
