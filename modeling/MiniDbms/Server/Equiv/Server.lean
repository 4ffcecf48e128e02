import MiniDbms.Server.Equiv.Api
import MiniDbms.Server.Equiv.Http
import MiniDbms.Server.Equiv.Send
import MiniDbms.Server.Equiv.Submit
import MiniDbms.Server.Server

/-!
# One client and the process

A client can end the process in one way: a call of `send` finds that it has closed its connection
(`SendsOnClosed`), and `SIGPIPE` has its default action.  In every other run the process goes on
serving (`ServesOn`): a response that could not be sent ends its request, the connection is closed,
and the thread is free for the next one.
-/

namespace MiniDbms

open CString Json

/-! ### Reading -/

/-- The errors of `http_read_request`. -/
def httpErrors : List HttpError := [
  ⟨400, ascii "Malformed HTTP request"⟩,
  ⟨408, ascii "Request timed out"⟩,
  ⟨400, ascii "Malformed HTTP request line"⟩,
  ⟨405, ascii "Only POST is supported"⟩,
  ⟨404, ascii "Only /query is supported"⟩,
  ⟨400, ascii "Malformed HTTP header"⟩,
  ⟨400, ascii "Invalid Content-Length"⟩,
  ⟨400, ascii "Missing Content-Length"⟩,
  ⟨413, ascii "Request body is too large"⟩,
  ⟨400, ascii "Failed to read request body"⟩,
  ⟨400, ascii "Incomplete request body"⟩]

theorem httpHeaders_error {fuel : ℕ} {headers : List UInt8} {contentLength : Option ℕ}
    {error : HttpError} (h : httpHeaders fuel headers contentLength = some (.error error)) :
    error ∈ httpErrors := by
  induction fuel generalizing headers contentLength with
  | zero => cases h
  | succ fuel ih =>
    rw [httpHeaders] at h
    split at h
    · cases h
    · rename_i line headers' _
      split at h
      · rename_i error' hline
        cases h
        unfold httpHeaderLine at hline
        split at hline
        · cases hline
          simp [httpErrors]
        · dsimp only at hline
          split_ifs at hline
          cases hline
          simp [httpErrors]
      · exact ih h

theorem httpParseHead_error {head : List UInt8} {error : HttpError}
    (h : httpParseHead head = some (.error error)) : error ∈ httpErrors := by
  unfold httpParseHead at h
  split at h
  · cases h
    simp [httpErrors]
  · dsimp only at h
    split at h
    · cases h
      simp [httpErrors]
    · split_ifs at h
      · cases h
        simp [httpErrors]
      · cases h
        simp [httpErrors]
      · obtain ⟨r, hr, h⟩ := Option.map_eq_some_iff.mp h
        split at h
        · cases h
          exact httpHeaders_error hr
        · cases h
          simp [httpErrors]
        · split_ifs at h
          cases h
          simp [httpErrors]

theorem HttpOutcome.error_mem {s : List UInt8} {ending : StreamEnd} {error : HttpError}
    (h : HttpOutcome s ending (.error error)) : error ∈ httpErrors := by
  generalize hr : Except.error error = r at h
  cases h with
  | noHead noEnd =>
    cases hr
    cases ending <;> simp only [StreamEnd.headError]
    · split_ifs <;> simp [httpErrors]
    · simp [httpErrors]
    · simp [httpErrors]
  | badHead head_end parse =>
    cases hr
    exact httpParseHead_error parse
  | shortBody head_end parse short =>
    cases hr
    cases ending <;> simp [httpErrors, StreamEnd.bodyError]
  | request head_end parse length holds => cases hr

/-- The body of a request that was accepted is a string. -/
theorem HttpOutcome.body_holds {s : List UInt8} {ending : StreamEnd} {request : HttpRequest}
    (h : HttpOutcome s ending (.ok request)) :
    ∃ received, BodyHolds request.body received ∧ received.length ≤ httpMaxBodySize := by
  obtain ⟨i, head, -, hparse, -, hlength, hholds⟩ := h.complete
  exact ⟨_, hholds, hlength.trans_le (httpParseHead_contentLength hparse)⟩

theorem BodyHolds.readString {body : CArray UInt8 (httpMaxBodySize + 1)} {received : List UInt8}
    (h : BodyHolds body received) (hle : received.length ≤ httpMaxBodySize) :
    body.readString 0 (httpMaxBodySize + 1) = some (received.takeWhile (· ≠ 0)) := by
  refine CArray.readString_eq received (fun i c hc => ?_) (by omega)
  rw [Nat.zero_add, h i]
  rcases Nat.lt_or_ge i received.length with hlt | hge
  · rw [if_pos hlt]
    rwa [List.getElem?_append_left hlt] at hc
  · have hi := (List.getElem?_eq_some_iff.mp hc).1
    rw [List.length_append, List.length_singleton] at hi
    rw [List.getElem?_append_right hge, show i - received.length = 0 by omega] at hc
    rw [if_neg (by omega), if_pos (by omega)]
    exact hc

/-! ### Error bodies -/

/-- The body of an error, when it is short. -/
theorem serverBuildErrorBody_eq (allocs : List Bool) {status message : CBytes}
    (hlength : (refusalText status message).length < 128) :
    serverBuildErrorBody allocs status message =
      some (if allocs.headD true then some (refusalText status message) else none) := by
  have htext : [ascii "\x7b\"ok\":false,\"status\":", quote status, ascii ",\"message\":",
      quote message, ascii "\x7d"].flatten = refusalText status message := by
    simp only [refusalText, ascii_okFalse, ascii_message, ascii_brace, List.flatten_cons,
      List.flatten_nil, List.append_assoc, List.cons_append, List.nil_append, List.append_nil]
  have hcalls := Appends.calls (.cons (appends_append (ascii "\x7b\"ok\":false,\"status\":"))
    (.cons (appends_jsonString status) (.cons (appends_append (ascii ",\"message\":"))
      (.cons (appends_jsonString message) (.cons (appends_append (ascii "\x7d")) .nil)))))
  rw [htext] at hcalls
  obtain ⟨s, hs, hcap, -, hinit⟩ := jsonBufferInit_spec allocs (show 0 < 128 by decide)
  obtain ⟨s₁, hrun, hs₁, -⟩ := hcalls.fits hs (hcap ▸ by decide) (by omega) (by
    rw [hcap, List.length_nil]
    omega)
  rw [List.nil_append] at hs₁
  rw [serverBuildErrorBody, hinit]
  split_ifs
  · simp only [Option.bind_eq_bind, Option.bind_some, hrun,
      hs₁.detach (printable_refusal status message).zero_notMem]
  · rfl

theorem serverErrorReply_eq (allocs : List Bool) (statusCode : ℤ) {status message : CBytes}
    (hlength : (refusalText status message).length < 128) :
    serverErrorReply allocs statusCode status message = some (if allocs.headD true then
      some ⟨statusCode, some (refusalText status message)⟩ else none) := by
  rw [serverErrorReply, serverBuildErrorBody_eq allocs hlength]
  split_ifs <;> rfl

theorem length_refusalText (status message : CBytes) : (refusalText status message).length =
    33 + (quote status).length + (quote message).length := by
  have hok : (quote (ascii "ok")).length = 4 := by decide
  have hfalse : (ascii "false").length = 5 := by decide
  have hstatus : (quote (ascii "status")).length = 8 := by decide
  have hmessage : (quote (ascii "message")).length = 9 := by decide
  simp only [refusalText, List.length_cons, List.length_append, List.length_nil, hok, hfalse,
    hstatus, hmessage]
  omega

/-- The text of every error of `http_read_request` fits. -/
theorem length_httpErrors_lt : ∀ error ∈ httpErrors, (refusalText
    (serverHttpErrorStatusName error.status)
    (if error.message ≠ [] then error.message else ascii "Bad request")).length < 128 := by
  simp only [length_refusalText]
  unfold httpErrors
  repeat rw [ascii_ofList]
  decide

theorem length_failedText_lt :
    (refusalText (ascii "internal_error") (ascii "Failed to execute SQL")).length < 128 := by
  rw [length_refusalText]
  decide

theorem length_busyText_lt :
    (refusalText (ascii "queue_full") (ascii "Server is busy")).length < 128 := by
  rw [length_refusalText]
  decide

/-! ### Responses -/

/-- The handler comes to its response. -/
theorem serverHandleClient_total (client : Client) :
    ∃ reply, serverHandleClient client.fuel client = some reply := by
  obtain ⟨r, hread, houtcome⟩ := httpReadRequest_eq client.request.stream client.request.ending
    client.request.cuts (show _ < client.fuel by unfold Client.fuel; omega)
  rw [serverHandleClient]
  rw [show httpReadRequest client.fuel client.request = some r from hread]
  cases r with
  | error error =>
    exact ⟨_, serverErrorReply_eq _ _ (length_httpErrors_lt error houtcome.error_mem)⟩
  | ok request =>
    obtain ⟨received, hholds, hle⟩ := houtcome.body_holds
    rw [Option.bind_eq_bind, Option.bind_some]
    dsimp only
    rw [hholds.readString hle, Option.bind_eq_bind, Option.bind_some]
    split
    · exact ⟨_, serverErrorReply_eq _ _ length_failedText_lt⟩
    · exact ⟨_, rfl⟩

theorem serverRefuseClient_total (client : Client) :
    ∃ reply, serverRefuseClient client = some reply :=
  ⟨_, serverErrorReply_eq _ _ length_busyText_lt⟩

/-- The lengths of the pieces that a response is sent in. -/
def ServerReply.lengths (reply : ServerReply) : List ℕ :=
  responseLengths reply.statusCode (some (ascii "application/json; charset=utf-8")) reply.body

theorem serverSend_spec {dispositions : Dispositions} (hpipe : dispositions .pipe = .default)
    {fuel : ℕ} {wire : Wire} (hfuel : wire.outcomes.length + 1 < fuel)
    (reply : Option ServerReply) :
    MeetsClosed wire.outcomes ((reply.map ServerReply.lengths).getD []) ∧
        serverSend dispositions fuel wire reply = some (.error .pipe) ∨
      ¬ MeetsClosed wire.outcomes ((reply.map ServerReply.lengths).getD []) ∧
        ∃ wire', serverSend dispositions fuel wire reply = some (.ok wire') := by
  cases reply with
  | none => exact Or.inr ⟨not_meetsClosed_lengths, wire, rfl⟩
  | some reply =>
    rw [Option.map_some, Option.getD_some, ServerReply.lengths, serverSend]
    rcases httpSendResponse_spec hpipe hfuel reply.statusCode
      (some (ascii "application/json; charset=utf-8")) reply.body with
      ⟨hclosed, hrun⟩ | ⟨hclosed, ⟨ok, wire'⟩, hrun⟩
    · rw [hrun]
      exact Or.inl ⟨hclosed, rfl⟩
    · rw [hrun]
      exact Or.inr ⟨hclosed, wire', rfl⟩

/-! ### Steps -/

/-- A client that sends nothing, ends its side of the connection and waits for the response. -/
def Client.patient : Client := ⟨⟨[], .closed, []⟩, [], [], fun _ => (true, ⟨200, some []⟩)⟩

namespace ServerProcess

variable {n k capacity : ℕ} {s s' : ServerProcess n k capacity}

/-- The thread of a step calls `send` on a connection that its client has closed. -/
def SendsOnClosed (s : ServerProcess n k capacity) (action : PoolAction n k) (client : Client) :
    Prop :=
  ∃ reply, s.reply action client = some reply ∧
    MeetsClosed client.outcomes ((reply.map ServerReply.lengths).getD [])

/-- A thread comes to what it sends. -/
theorem reply_total (s : ServerProcess n k capacity) (action : PoolAction n k) (client : Client) :
    ∃ reply, s.reply action client = some reply := by
  unfold reply
  split
  · split
    · split_ifs
      · exact serverHandleClient_total client
      · exact ⟨none, rfl⟩
    · exact ⟨none, rfl⟩
  · split
    · exact serverRefuseClient_total client
    · exact ⟨none, rfl⟩
  · exact ⟨none, rfl⟩

theorem step_terminated (h : s.terminated ≠ none) (action : PoolAction n k) (client : Client) :
    s.step action client = none := if_pos h

/-- A step ends the process, or it is a step of the pool. -/
theorem step_cases (hrunning : s.terminated = none) (hpipe : s.dispositions .pipe = .default)
    (action : PoolAction n k) (client : Client) :
    s.SendsOnClosed action client ∧
        s.step action client = some { s with terminated := some .pipe } ∨
      ¬ s.SendsOnClosed action client ∧
        s.step action client = (s.pool.step action).map fun pool => { s with pool := pool } := by
  obtain ⟨reply, hreply⟩ := s.reply_total action client
  have hiff : s.SendsOnClosed action client ↔
      MeetsClosed client.outcomes ((reply.map ServerReply.lengths).getD []) := by
    unfold SendsOnClosed
    rw [hreply]
    constructor
    · rintro ⟨_, hsame, hclosed⟩
      cases hsame
      exact hclosed
    · exact fun hclosed => ⟨reply, rfl, hclosed⟩
  rw [hiff, step, if_neg (not_not.mpr hrunning), hreply, Option.bind_eq_bind, Option.bind_some]
  have hfuel : (⟨[], client.outcomes⟩ : Wire).outcomes.length + 1 < client.fuel := by
    unfold Client.fuel
    dsimp only
    omega
  rcases serverSend_spec hpipe hfuel reply with ⟨hclosed, hsend⟩ | ⟨hclosed, wire, hsend⟩
  · rw [hsend]
    exact Or.inl ⟨hclosed, rfl⟩
  · rw [hsend]
    refine Or.inr ⟨hclosed, ?_⟩
    cases s.pool.step action <;> rfl

/-- A step ends the process, or it is a step of the pool, whatever `SIGPIPE` does. -/
theorem step_eq_some {action : PoolAction n k} {client : Client}
    (h : s.step action client = some s') :
    (∃ signal, s' = { s with terminated := some signal }) ∨
      ∃ pool, s.pool.step action = some pool ∧ s' = { s with pool := pool } := by
  unfold step at h
  split at h
  · cases h
  · obtain ⟨reply, -, h⟩ := Option.bind_eq_some_iff.mp h
    obtain ⟨result, -, h⟩ := Option.bind_eq_some_iff.mp h
    cases result with
    | error signal =>
      cases h
      exact Or.inl ⟨signal, rfl⟩
    | ok wire =>
      obtain ⟨pool, hpool, h⟩ := Option.bind_eq_some_iff.mp h
      cases h
      exact Or.inr ⟨pool, hpool, rfl⟩

/-- Only a thread that can go on sends. -/
theorem SendsOnClosed.pool_step {action : PoolAction n k} {client : Client}
    (h : s.SendsOnClosed action client) : ∃ pool, s.pool.step action = some pool := by
  obtain ⟨reply, hreply, hclosed⟩ := h
  unfold ServerProcess.reply at hreply
  split at hreply
  · split at hreply
    · rename_i hpc
      rw [SharedPool.step, SharedPool.workerStep, hpc]
      exact ⟨_, rfl⟩
    · cases hreply
      exact absurd hclosed not_meetsClosed_lengths
  · split at hreply
    · rename_i hpc
      rw [SharedPool.step, SharedPool.callerStep, hpc]
      exact ⟨_, rfl⟩
    · cases hreply
      exact absurd hclosed not_meetsClosed_lengths
  · cases hreply
    exact absurd hclosed not_meetsClosed_lengths

theorem not_sendsOnClosed_of_outcomes {action : PoolAction n k} {client : Client}
    (h : .closed ∉ client.outcomes) : ¬ s.SendsOnClosed action client := by
  rintro ⟨reply, -, hclosed⟩
  exact h hclosed.closed_mem

/-- With a patient client a thread goes on as it does in the pool. -/
theorem step_patient (hrunning : s.terminated = none) (hpipe : s.dispositions .pipe = .default)
    (action : PoolAction n k) :
    s.step action .patient = (s.pool.step action).map fun pool => { s with pool := pool } := by
  have hopen : ¬ s.SendsOnClosed action .patient :=
    not_sendsOnClosed_of_outcomes List.not_mem_nil
  exact ((step_cases hrunning hpipe action .patient).resolve_left fun h => hopen h.1).2

/-! ### Runs -/

/-- The process runs, and its threads get behind every request: the handler returns to the worker,
which closes the connection and looks for the next job; a caller closes a refused connection and is
idle again.  Nothing else changes in these steps. -/
structure ServesOn (s : ServerProcess n k capacity) : Prop where
  running : s.terminated = none
  handles : ∀ {i job clientFd} client, s.pool.workers i = .handling job clientFd →
    ¬ s.SendsOnClosed (.worker i) client →
    ∃ s', s.step (.worker i) client = some s' ∧ s'.terminated = none ∧
      s'.pool.workers = Function.update s.pool.workers i (.closing job clientFd) ∧
      s'.pool.callers = s.pool.callers ∧ s'.pool.pool = s.pool.pool
  closes : ∀ {i job clientFd} client, s.pool.workers i = .closing job clientFd →
    ∃ s', s.step (.worker i) client = some s' ∧ s'.terminated = none ∧
      s'.pool.closed = s.pool.closed ++ [⟨i, job, clientFd⟩] ∧
      s'.pool.workers = Function.update s.pool.workers i .locking ∧
      s'.pool.callers = s.pool.callers ∧ s'.pool.pool = s.pool.pool
  refuses : ∀ {j number clientFd woken} client, s.pool.callers j = .refused number clientFd →
    ¬ s.SendsOnClosed (.caller j woken) client →
    ∃ s', s.step (.caller j woken) client = some s' ∧ s'.terminated = none ∧
      s'.pool.closedRefused = s.pool.closedRefused ++ [(number, clientFd)] ∧
      s'.pool.callers = Function.update s.pool.callers j .idle ∧
      s'.pool.workers = s.pool.workers ∧ s'.pool.pool = s.pool.pool

theorem servesOn_of_running (hrunning : s.terminated = none)
    (hpipe : s.dispositions .pipe = .default) : s.ServesOn where
  running := hrunning
  handles := by
    intro i job clientFd client hpc hopen
    obtain ⟨-, hstep⟩ := (step_cases hrunning hpipe _ client).resolve_left fun h => hopen h.1
    have hpool : s.pool.step (.worker i) = some { s.pool.setWorker i (.closing job clientFd) with
        handled := if s.pool.pool.handler then s.pool.handled ++ [⟨i, job, clientFd⟩]
          else s.pool.handled } := by
      rw [SharedPool.step, SharedPool.workerStep, hpc]
    rw [hpool] at hstep
    exact ⟨_, hstep, hrunning, rfl, rfl, rfl⟩
  closes := by
    intro i job clientFd client hpc
    have hopen : ¬ s.SendsOnClosed (.worker i) client := by
      rintro ⟨reply, hreply, hclosed⟩
      rw [ServerProcess.reply, hpc] at hreply
      cases hreply
      exact not_meetsClosed_lengths hclosed
    obtain ⟨-, hstep⟩ := (step_cases hrunning hpipe _ client).resolve_left fun h => hopen h.1
    have hpool : s.pool.step (.worker i) = some { s.pool.setWorker i .locking with
        closed := s.pool.closed ++ [⟨i, job, clientFd⟩] } := by
      rw [SharedPool.step, SharedPool.workerStep, hpc]
    rw [hpool] at hstep
    exact ⟨_, hstep, hrunning, rfl, rfl, rfl, rfl⟩
  refuses := by
    intro j number clientFd woken client hpc hopen
    obtain ⟨-, hstep⟩ := (step_cases hrunning hpipe _ client).resolve_left fun h => hopen h.1
    have hpool : s.pool.step (.caller j woken) = some { s.pool.setCaller j .idle with
        closedRefused := s.pool.closedRefused ++ [(number, clientFd)] } := by
      rw [SharedPool.step, SharedPool.callerStep, hpc]
    rw [hpool] at hstep
    exact ⟨_, hstep, hrunning, rfl, rfl, rfl, rfl⟩

/-- No step of the run calls `send` on a connection that its client has closed. -/
def NeverSendsOnClosed (s : ServerProcess n k capacity) : List (PoolAction n k × Client) → Prop
  | [] => True
  | (action, client) :: steps => ¬ s.SendsOnClosed action client ∧
      ∀ s', s.step action client = some s' → s'.NeverSendsOnClosed steps

/-- It is enough that no client closes its connection before it has its response. -/
theorem neverSendsOnClosed_of_forall {steps : List (PoolAction n k × Client)}
    (h : ∀ step ∈ steps, .closed ∉ step.2.outcomes) : s.NeverSendsOnClosed steps := by
  induction steps generalizing s with
  | nil => exact trivial
  | cons first steps ih =>
    exact ⟨not_sendsOnClosed_of_outcomes (h first List.mem_cons_self),
      fun s' _ => ih fun step hstep => h step (List.mem_cons_of_mem _ hstep)⟩

/-- From a process that runs: it still does exactly when no client had closed its connection. -/
theorem run_running_iff {steps : List (PoolAction n k × Client)} (hrunning : s.terminated = none)
    (hpipe : s.dispositions .pipe = .default) (h : s.run steps = some s') :
    s'.dispositions = s.dispositions ∧ (s'.terminated = none ↔ s.NeverSendsOnClosed steps) := by
  induction steps generalizing s with
  | nil =>
    cases h
    exact ⟨rfl, iff_of_true hrunning trivial⟩
  | cons first steps ih =>
    obtain ⟨action, client⟩ := first
    obtain ⟨s₁, hstep, h⟩ := Option.bind_eq_some_iff.mp h
    rcases step_cases hrunning hpipe action client with ⟨hclosed, hrun⟩ | ⟨hopen, hrun⟩
    · rw [hrun] at hstep
      cases hstep
      -- a process that has ended makes no further step
      cases steps with
      | nil =>
        cases h
        exact ⟨rfl, iff_of_false nofun fun hnever => hnever.1 hclosed⟩
      | cons second steps =>
        rw [run, step_terminated (Option.some_ne_none _)] at h
        cases h
    · rw [hrun] at hstep
      obtain ⟨pool, -, rfl⟩ := Option.map_eq_some_iff.mp hstep
      obtain ⟨hdispositions, hiff⟩ := ih (s := { s with pool := pool }) hrunning hpipe h
      refine ⟨hdispositions, hiff.trans ?_⟩
      rw [NeverSendsOnClosed, hrun, hstep]
      constructor
      · rintro hnever
        refine ⟨hopen, fun s' hs' => ?_⟩
        cases hs'
        exact hnever
      · exact fun hnever => hnever.2 _ rfl

end ServerProcess

open ServerProcess

/-- **One client cannot take the server down, but by closing its connection**: after every run of
the server, with any clients, it goes on serving if and only if no `send` of the run was called on a
connection that its client had closed. -/
theorem server_serves_on_iff {n k capacity : ℕ} {steps : List (PoolAction n k × Client)}
    {s : ServerProcess n k capacity} (h : (start n k capacity).run steps = some s) :
    s.ServesOn ↔ (start n k capacity).NeverSendsOnClosed steps := by
  obtain ⟨hdispositions, hiff⟩ := run_running_iff (s := start n k capacity) rfl rfl h
  constructor
  · exact fun hserves => hiff.mp hserves.running
  · exact fun hnever => servesOn_of_running (hiff.mpr hnever) (by rw [hdispositions]; rfl)

/-- A client that connects, sends nothing and closes: the answer is sent in two pieces, and the
second one finds the connection closed. -/
def leavingClient : Client where
  request := ⟨[], .closed, []⟩
  outcomes := [.take 511, .closed]
  allocs := []
  query := fun _ => (true, ⟨200, some []⟩)

/-- A client to which only a part of the response can be sent: then `send` returns -1, without a
signal. -/
def failingClient : Client := { leavingClient with outcomes := [.take 99, .failed] }

/-- One worker; a connection is accepted, and then another one, and the worker handles the first. -/
def twoClientsRun (client : Client) : List (PoolAction 1 1 × Client) :=
  let first : Fin 1 := ⟨0, Nat.one_pos⟩
  [.owner true, .owner true, .owner true, .accept first 5, .caller first ∅, .caller first ∅,
    .accept first 6, .caller first ∅, .caller first ∅, .worker first, .worker first, .worker first,
    .worker first].map (·, client)

/-- The server survives a `send` that fails. -/
theorem server_serves_on_iff_failing :
    ∃ s, (start 1 1 2).run (twoClientsRun failingClient) = some s ∧ s.ServesOn := by
  have hrun : ((start 1 1 2).run (twoClientsRun failingClient)).isSome = true := by
    decide +kernel
  obtain ⟨s, hrun⟩ := Option.isSome_iff_exists.mp hrun
  refine ⟨s, hrun, (server_serves_on_iff hrun).mpr ?_⟩
  exact neverSendsOnClosed_of_forall fun step hstep => by
    obtain ⟨action, -, rfl⟩ := List.mem_map.mp hstep
    show SendOutcome.closed ∉ failingClient.outcomes
    decide

/-- A client that closes its connection takes the server down; the other one is still waiting. -/
theorem server_terminated_by_leaving_client :
    ∃ s, (start 1 1 2).run (twoClientsRun leavingClient) = some s ∧ s.terminated = some .pipe ∧
      s.pool.pool.size = 1 ∧ ¬ s.ServesOn := by
  have hrun : ((start 1 1 2).run (twoClientsRun leavingClient)).map
      (fun s => (s.terminated, s.pool.pool.size)) = some (some .pipe, 1) := by
    decide +kernel
  obtain ⟨s, hrun, hs⟩ := Option.map_eq_some_iff.mp hrun
  obtain ⟨hterminated, hsize⟩ := Prod.mk.inj hs
  refine ⟨s, hrun, hterminated, hsize, fun hserves => ?_⟩
  rw [hserves.running] at hterminated
  cases hterminated

end MiniDbms
