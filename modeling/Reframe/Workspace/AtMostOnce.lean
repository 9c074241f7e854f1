import Reframe.Lib.Run
import Reframe.Workspace.Idempotency

/-! At-most-once execution of durable requests: a key is started once, and every later request
with the key is answered from its row. -/
namespace Workspace
open JsonText

section

variable [SerdeJson]

/-! A response always fits a frame after `transportable_response`. -/

omit [SerdeJson] in
theorem byteLength_boundedPrefix (text : List Char) :
    ∀ room, byteLength (boundedPrefix room text) ≤ room := by
  induction text with
  | nil => intro room; simp [boundedPrefix]
  | cons c text ih =>
    intro room
    unfold boundedPrefix
    split
    · have := ih (room - c.utf8Size)
      simp only [byteLength_cons]
      omega
    · simp

omit [SerdeJson] in
theorem byteLength_bounded (value : String) :
    byteLength (bounded value).toList ≤ terminalFieldBytes := by
  simpa [bounded] using byteLength_boundedPrefix value.toList terminalFieldBytes

omit [SerdeJson] in
theorem byteLength_name (operation : Operation) : byteLength operation.name.toList ≤ 36 := by
  cases operation <;> simp only [Operation.name, Operation.metadata] <;> decide

omit [SerdeJson] in
theorem byteLength_member (name : String) (value : List Char) :
    byteLength (member name value) ≤ 6 * byteLength name.toList + 4 + byteLength value := by
  have hq := byteLength_quote name
  have hc : (',' : Char).utf8Size = 1 ∧ (':' : Char).utf8Size = 1 := by decide
  simp only [member, List.cons_append, byteLength_cons, byteLength_append, hc.1, hc.2]
  omega

theorem Reply.fromStr_encode (response : Reply) :
    SerdeJson.fromStr response.encode = .ok response :=
  SerdeJson.fromStr_encode response

/-- The response that is sent for `response`. -/
def fitted (request : Request) (response : Reply) (maxBytes : ℕ) : Reply :=
  if byteLength response.encode.toList ≤ maxBytes then response
  else terminalFailure request (limitError maxBytes)

theorem transportableResponse_of_fits {request : Request} {maxBytes : ℕ}
    (hfits : byteLength (terminalFailure request (limitError maxBytes)).encode.toList ≤ maxBytes)
    (response : Reply) :
    transportableResponse request response maxBytes =
      some (fitted request response maxBytes, (fitted request response maxBytes).encode) := by
  unfold transportableResponse fitted encodeResponseWithLimit
  by_cases h : byteLength response.encode.toList ≤ maxBytes
  · simp [Nat.not_lt.mpr h, h]
  · simp [Nat.lt_of_not_le h, h, Nat.not_lt.mpr hfits]

omit [SerdeJson] in
theorem byteLength_encodeError {error : ProtocolError}
    (hid : ∀ id ∈ error.workspaceId, byteLength id.toList ≤ terminalFieldBytes) :
    byteLength (encodeError error) ≤ 6 * (byteLength error.code.toList +
      byteLength error.operation.toList + byteLength error.message.toList) + 1200 := by
  have hbrace : ('\x7b' : Char).utf8Size = 1 ∧ ('\x7d' : Char).utf8Size = 1 ∧
      (':' : Char).utf8Size = 1 := by decide
  have hname : byteLength "code".toList = 4 ∧ byteLength "operation".toList = 9 ∧
      byteLength "workspace_id".toList = 12 ∧ byteLength "message".toList = 7 := by decide
  have hcode := byteLength_quote "code"
  have hcode' := byteLength_quote error.code
  have hoperation := byteLength_member "operation" (quote error.operation)
  have hoperation' := byteLength_quote error.operation
  have hmessage := byteLength_member "message" (quote error.message)
  have hmessage' := byteLength_quote error.message
  have hworkspace := byteLength_member "workspace_id" (encodeOption error.workspaceId)
  have hworkspace' : byteLength (encodeOption error.workspaceId) ≤ 6 * terminalFieldBytes + 2 := by
    cases hw : error.workspaceId with
    | none => decide
    | some id =>
      have hlen := hid id hw
      have hquote := byteLength_quote id
      simp only [encodeOption]
      omega
  simp only [encodeError, List.cons_append, byteLength_cons, byteLength_append, byteLength_nil,
    hbrace, terminalFieldBytes] at *
  omega

theorem byteLength_terminalFailure (request : Request) (error : String) :
    byteLength (terminalFailure request error).encode.toList ≤
      6 * byteLength error.toList + 4000 := by
  have hbrace : ('\x7b' : Char).utf8Size = 1 ∧ ('\x7d' : Char).utf8Size = 1 ∧
      (':' : Char).utf8Size = 1 := by decide
  have hname : byteLength "request_id".toList = 10 ∧ byteLength "ok".toList = 2 ∧
      byteLength "error".toList = 5 ∧ byteLength "false".toList = 5 ∧
      byteLength ErrorCode.responseTooLarge.toList = 18 := by decide
  have htext : byteLength ("operation completed, but its response could not be transported: " ++
      error).toList = 64 + byteLength error.toList := by
    rw [String.toList_append, byteLength_append]
    congr 1
  have hrequest := byteLength_quote "request_id"
  have hrequest' := byteLength_quote (bounded request.requestId)
  have hrequest'' := byteLength_bounded request.requestId
  have hok := byteLength_member "ok" "false".toList
  have hoperation := byteLength_name request.operation
  have herror : byteLength (encodeError ⟨ErrorCode.responseTooLarge, request.operation.name,
      request.operation.workspaceId.map bounded,
      "operation completed, but its response could not be transported: " ++ error⟩) ≤ _ :=
    byteLength_encodeError fun id hid => by
      obtain ⟨value, -, rfl⟩ := Option.map_eq_some_iff.mp hid
      exact byteLength_bounded value
  have hmember := byteLength_member "error" (encodeError ⟨ErrorCode.responseTooLarge,
    request.operation.name, request.operation.workspaceId.map bounded,
    "operation completed, but its response could not be transported: " ++ error⟩)
  simp only [Reply.encode, terminalFailure, boundedFailure, String.toList_ofList, encodeResponse,
    List.cons_append, byteLength_cons, byteLength_append, byteLength_nil, hbrace,
    Bool.false_eq_true, if_false, terminalFieldBytes] at *
  omega

theorem transportableResponse_eq (request : Request) (response : Reply) :
    transportableResponse request response maxFrameBytes =
      some (fitted request response maxFrameBytes,
        (fitted request response maxFrameBytes).encode) := by
  have herror : byteLength (limitError maxFrameBytes).toList ≤ 100 := by decide +kernel
  have hmax : 6 * 100 + 4000 ≤ maxFrameBytes := by decide +kernel
  exact transportableResponse_of_fits ((byteLength_terminalFailure request _).trans
    ((Nat.add_le_add_right (Nat.mul_le_mul_left 6 herror) 4000).trans hmax)) response

end

/-! Runs of the server, with the executions they start and the responses they record. -/

def Request.isDurable (request : Request) : Bool :=
  request.operation.idempotencyScope = .durable && request.idempotencyKey.isSome

def Request.hasKey (key : String) (request : Request) : Bool :=
  request.idempotencyKey = some key

section

variable [Blake3] [SerdeJson]

structure TracedServer where
  server : Server
  /-- The durable requests whose execution was started, in order. -/
  started : List Request
  /-- The durable requests that finished without a store error, with the response sent. -/
  recorded : List (Request × Reply)

namespace TracedServer

def step (t : TracedServer) (event : ServerEvent) : TracedServer where
  server := (t.server.step event).1
  started := match event, t.server.phase, (t.server.step event).1.phase with
    | .receive request _ _, .idle, .executing _ =>
      if request.isDurable then t.started ++ [request] else t.started
    | _, _, _ => t.started
  recorded := match event, t.server.phase, (t.server.step event).2 with
    | .finish none, .finishing request _, some response =>
      if request.isDurable then t.recorded ++ [(request, response)] else t.recorded
    | _, _, _ => t.recorded

/-- The executions started for a key. -/
def executions (t : TracedServer) (key : String) : List Request :=
  t.started.filter (Request.hasKey key)

def recordedFor (t : TracedServer) (key : String) : List (Request × Reply) :=
  t.recorded.filter fun entry => entry.1.hasKey key

/-- The record of the key is not pruned. -/
def KeepsRecord (key : String) (t : TracedServer) (event : ServerEvent) : Prop :=
  (t.server.rows.get? key).isSome → ((t.step event).server.rows.get? key).isSome

instance (key : String) (t : TracedServer) (event : ServerEvent) :
    Decidable (t.KeepsRecord key event) := inferInstanceAs (Decidable (_ → _))

/-- The answer to a durable request whose key was started before by `first`: a conflict for
another payload, the recorded response under the new request id, or an unknown outcome. -/
def repeatAnswer (t : TracedServer) (key : String) (first request : Request) : Reply :=
  if first.operation ≠ request.operation then
    failure request ErrorCode.idempotencyConflict (conflictMessage first.operation.name)
  else match t.recordedFor key with
    | (_, response) :: _ => { response with requestId := request.requestId }
    | [] => failure request ErrorCode.outcomeUnknown outcomeUnknownMessage

/-- At most one execution is ever started for the key, and a durable request that reuses it (and
is not met by a store error) is answered without executing. -/
structure AtMostOnce (key : String) (t : TracedServer) (event : ServerEvent) : Prop where
  once : ((t.step event).executions key).length ≤ 1
  answered : ∀ request now, event = .receive request now none → t.server.phase = .idle →
    request.isDurable = true → request.hasKey key = true → ∀ first ∈ t.executions key,
      (t.step event).started = t.started ∧ (t.step event).server.phase = .idle ∧
        (t.server.step event).2 =
          some (fitted request (t.repeatAnswer key first request) maxFrameBytes)

def inFlight : Phase → Option Request
  | .executing request => some request
  | .finishing request _ => some request
  | .down => none
  | .idle => none

/-- What the row of a key says about the run so far. -/
structure RowInv (key : String) (t : TracedServer) (first : Request) (row : IdempotencyRow) :
    Prop where
  executions : t.executions key = [first]
  operation : row.operation = first.operation.name
  requestHash : row.requestHash = operationHash first.operation
  pending : row.state = .pending → t.recordedFor key = []
  completed : row.state = .completed →
    ∃ response, t.recordedFor key = [(first, response)] ∧ row.responseJson = response.encode

/-- A key without a row was never started; a key with a row was started once, and while that
request is in flight its row is pending. -/
structure Inv (operations : Set Operation) (key : String) (t : TracedServer) : Prop where
  payloads : ∀ request ∈ t.started, request.operation ∈ operations
  fresh : t.server.rows.get? key = none → t.executions key = [] ∧ t.recordedFor key = []
  row : ∀ row, t.server.rows.get? key = some row → ∃ first, RowInv key t first row
  inFlight : ∀ request ∈ inFlight t.server.phase, request.isDurable = true →
    request.hasKey key = true → ∃ row, t.server.rows.get? key = some row ∧ row.state = .pending ∧
      t.executions key = [request]

end TracedServer

/-! One step of the server. -/

namespace Server

variable {server : Server}

theorem step_receive (hidle : server.phase = .idle) (request : Request) (now : ℤ)
    (storeError : Option String) :
    server.step (.receive request now storeError) = server.receive request now storeError := by
  obtain ⟨rows, processRequests, phase⟩ := server
  cases hidle
  rfl

theorem step_receive_busy (hbusy : server.phase ≠ .idle) (request : Request) (now : ℤ)
    (storeError : Option String) :
    server.step (.receive request now storeError) = (server, none) := by
  obtain ⟨rows, processRequests, phase⟩ := server
  cases phase with
  | idle => exact absurd rfl hbusy
  | down | executing q | finishing q response => rfl

theorem step_execute {request : Request} (hphase : server.phase = .executing request)
    (outcome : Except String SerdeJson.Value) :
    server.step (.execute outcome) =
      ({ server with phase := .finishing request (outcomeResponse request outcome) }, none) := by
  obtain ⟨rows, processRequests, phase⟩ := server
  cases hphase
  rfl

theorem step_execute_other (hphase : ∀ request, server.phase ≠ .executing request)
    (outcome : Except String SerdeJson.Value) :
    server.step (.execute outcome) = (server, none) := by
  obtain ⟨rows, processRequests, phase⟩ := server
  cases phase with
  | executing q => exact absurd rfl (hphase q)
  | down | idle | finishing q response => rfl

theorem step_finish_final {request : Request} {response response' : Reply}
    (hphase : server.phase = .finishing request response) (storeError : Option String)
    {rows' : IdempotencyRows}
    (hfinal : finalizeResponse server.rows request response maxFrameBytes storeError =
      some (rows', response')) :
    server.step (.finish storeError) =
      ({ server with rows := rows', phase := .idle }, some response') := by
  obtain ⟨rows, processRequests, phase⟩ := server
  cases hphase
  delta step finish
  dsimp only
  rw [hfinal]

theorem step_finish_other (hphase : ∀ request response, server.phase ≠ .finishing request response)
    (storeError : Option String) : server.step (.finish storeError) = (server, none) := by
  obtain ⟨rows, processRequests, phase⟩ := server
  cases phase with
  | finishing q response => exact absurd rfl (hphase q response)
  | down | idle | executing q => rfl

theorem step_crash : server.step .crash = ({ server with phase := .down }, none) := by
  obtain ⟨rows, processRequests, phase⟩ := server
  cases phase <;> rfl

theorem step_reopen (hdown : server.phase = .down) (cutoff : ℤ) :
    server.step (.reopen cutoff) =
      (⟨pruneProtocolHistory server.rows cutoff, .empty, .idle⟩, none) := by
  obtain ⟨rows, processRequests, phase⟩ := server
  cases hdown
  rfl

theorem step_reopen_other (hup : server.phase ≠ .down) (cutoff : ℤ) :
    server.step (.reopen cutoff) = (server, none) := by
  obtain ⟨rows, processRequests, phase⟩ := server
  cases phase with
  | down => exact absurd rfl hup
  | idle | executing q | finishing q response => rfl

end Server

omit [Blake3] [SerdeJson] in
theorem isDurable_iff {request : Request} : request.isDurable = true ↔
    request.operation.idempotencyScope = .durable ∧ ∃ key, request.hasKey key = true := by
  simp [Request.isDurable, Request.hasKey, Option.isSome_iff_exists]

omit [Blake3] [SerdeJson] in
theorem mutates_of_durable {operation : Operation} (h : operation.idempotencyScope = .durable) :
    operation.mutates = true := by
  cases operation <;> first | rfl | cases h

omit [Blake3] [SerdeJson] in
theorem hasKey_iff {key : String} {request : Request} :
    request.hasKey key = true ↔ request.idempotencyKey = some key := by
  simp [Request.hasKey]

omit [Blake3] in
/-- A reserved key is never executed. -/
theorem answerReserved_respond (request : Request) (requestHash : String) (row : IdempotencyRow) :
    ∃ response, answerReserved request requestHash (existingIdempotencyReservation row) = .respond response := by
  unfold existingIdempotencyReservation
  cases row.state with
  | completed =>
    simp only [answerReserved]
    split
    · split <;> exact ⟨_, rfl⟩
    · exact ⟨_, rfl⟩
  | pending =>
    simp only [answerReserved]
    split <;> exact ⟨_, rfl⟩

/-- A durable request with a new key reserves it and goes on to execute. -/
theorem receive_new {server : Server} (hidle : server.phase = .idle) {request : Request}
    {key : String} (hscope : request.operation.idempotencyScope = .durable)
    (hkey : request.idempotencyKey = some key) (hrow : server.rows.get? key = none) (now : ℤ) :
    server.step (.receive request now none) =
      ({ server with
          rows := server.rows.insert key ⟨request.operation.name,
            operationHash request.operation, "", .pending, now⟩
          phase := .executing request }, none) := by
  rw [Server.step_receive hidle]
  simp [Server.receive, mutates_of_durable hscope, Server.beginIdempotent, hkey, hscope,
    beginDurableIdempotent, reserveIdempotencyRequest, hrow, answerReserved]

/-- A durable request with a reserved key is answered from its row. -/
theorem receive_reserved {server : Server} (hidle : server.phase = .idle) {request : Request}
    {key : String} (hscope : request.operation.idempotencyScope = .durable)
    (hkey : request.idempotencyKey = some key) {row : IdempotencyRow}
    (hrow : server.rows.get? key = some row) (now : ℤ) {response : Reply}
    (hrespond : answerReserved request (operationHash request.operation) (existingIdempotencyReservation row) =
      .respond response) :
    server.step (.receive request now none) =
      (server, some (fitted request response maxFrameBytes)) := by
  rw [Server.step_receive hidle]
  simp [Server.receive, mutates_of_durable hscope, Server.beginIdempotent, hkey, hscope,
    beginDurableIdempotent, reserveIdempotencyRequest, hrow, hrespond, transportableResponse_eq]

/-- Any other request leaves the durable rows alone, and does not execute a durable operation. -/
theorem receive_other {server : Server} (hidle : server.phase = .idle) {request : Request}
    (now : ℤ) {storeError : Option String}
    (hother : request.isDurable = true → storeError ≠ none) :
    (server.step (.receive request now storeError)).1.rows = server.rows ∧
      ((server.step (.receive request now storeError)).1.phase = .idle ∨
        (server.step (.receive request now storeError)).1.phase = .executing request ∧
          request.isDurable = false) := by
  simp only [Server.step_receive hidle, Server.receive]
  by_cases hm : request.operation.mutates = true
  · simp only [hm, if_true, Server.beginIdempotent]
    cases hkey : request.idempotencyKey with
    | none => simp [transportableResponse_eq, hidle]
    | some key =>
      cases hscope : request.operation.idempotencyScope with
      | none => simp [transportableResponse_eq, hidle]
      | durable =>
        have hdurable : request.isDurable = true := by simp [Request.isDurable, hscope, hkey]
        obtain ⟨error, rfl⟩ := Option.ne_none_iff_exists'.mp (hother hdurable)
        simp [beginDurableIdempotent, transportableResponse_eq, hidle]
      | processLocal =>
        have hdurable : request.isDurable = false := by simp [Request.isDurable, hscope]
        simp only [beginProcessIdempotent]
        split
        next h =>
          split at h
          · split at h <;> cases h
            simp [transportableResponse_eq, hidle]
          · cases h
        next h => exact ⟨by split at h <;> first | (split at h <;> cases h; rfl) | (cases h; rfl),
            .inr ⟨rfl, hdurable⟩⟩
  · have hscope : request.operation.idempotencyScope ≠ .durable := fun h =>
      hm (mutates_of_durable h)
    simp [hm, Request.isDurable, hscope]

namespace TracedServer

variable {operations : Set Operation} {key : String} {t : TracedServer}

/-- A step that leaves the key's row and history alone and puts no request of the key in flight. -/
theorem Inv.keep (h : t.Inv operations key) {t' : TracedServer}
    (hpayloads : ∀ request ∈ t'.started, request.operation ∈ operations)
    (hrows : t'.server.rows.get? key = t.server.rows.get? key)
    (hstarted : t'.executions key = t.executions key)
    (hrecorded : t'.recordedFor key = t.recordedFor key)
    (hflight : ∀ request ∈ TracedServer.inFlight t'.server.phase, request.isDurable = true →
      request.hasKey key = true → request ∈ TracedServer.inFlight t.server.phase) :
    t'.Inv operations key where
  payloads := hpayloads
  fresh hnone := by
    rw [hstarted, hrecorded]
    exact h.fresh (hrows ▸ hnone)
  row row hrow := by
    obtain ⟨first, hfirst⟩ := h.row row (hrows ▸ hrow)
    refine ⟨first, hstarted.trans hfirst.executions, hfirst.operation, hfirst.requestHash, ?_, ?_⟩
    · rw [hrecorded]
      exact hfirst.pending
    · rw [hrecorded]
      exact hfirst.completed
  inFlight request hmem hdurable hkey := by
    rw [hrows, hstarted]
    exact h.inFlight request (hflight request hmem hdurable hkey) hdurable hkey

omit [Blake3] [SerdeJson] in
theorem filter_append_of_not {α : Type} {p : α → Bool} {xs : List α} {x : α} (h : p x = false) :
    (xs ++ [x]).filter p = xs.filter p := by
  simp [h]

theorem Inv.receive (h : t.Inv operations key) {request : Request} {now : ℤ}
    {storeError : Option String} (hop : request.operation ∈ operations) :
    (t.step (.receive request now storeError)).Inv operations key := by
  have hsame : (t.server.step (.receive request now storeError)).1 = t.server →
      (t.step (.receive request now storeError)).started = t.started →
      (t.step (.receive request now storeError)).Inv operations key := by
    intro hserver hstarted
    refine h.keep (by rw [hstarted]; exact h.payloads) ?_ ?_ rfl ?_
    · exact congrArg (fun server => server.rows.get? key) hserver
    · rw [executions, hstarted, executions]
    · intro q hq _ _
      exact hserver ▸ hq
  cases hphase : t.server.phase with
  | down | executing q | finishing q response =>
    have hbusy : t.server.phase ≠ .idle := by simp [hphase]
    exact hsame (by rw [Server.step_receive_busy hbusy]) (by simp [step, hphase])
  | idle =>
    by_cases hnew : request.isDurable = true ∧ storeError = none
    · obtain ⟨hdurable, rfl⟩ := hnew
      obtain ⟨hscope, key', hkey'⟩ := isDurable_iff.mp hdurable
      cases hrow : t.server.rows.get? key' with
      | some row =>
        obtain ⟨response, hrespond⟩ := answerReserved_respond request
          (operationHash request.operation) row
        have hstep := receive_reserved hphase hscope (hasKey_iff.mp hkey') hrow now hrespond
        exact hsame (by rw [hstep]) (by simp [step, hstep, hphase])
      | none =>
        have hstep := receive_new hphase hscope (hasKey_iff.mp hkey') hrow now
        have hstarted : (t.step (.receive request now none)).started = t.started ++ [request] := by
          simp [step, hstep, hphase, hdurable]
        have hpayloads : ∀ q ∈ (t.step (.receive request now none)).started,
            q.operation ∈ operations := by
          rw [hstarted]
          intro q hq
          rcases List.mem_append.mp hq with hq | hq
          · exact h.payloads q hq
          · rwa [List.mem_singleton.mp hq]
        have hrows : (t.step (.receive request now none)).server.rows = t.server.rows.insert key'
            ⟨request.operation.name, operationHash request.operation, "", .pending, now⟩ := by
          simp [step, hstep]
        by_cases hk : key' = key
        · subst hk
          obtain ⟨hnone, hnorec⟩ := h.fresh hrow
          have hexec : (t.step (.receive request now none)).executions key' = [request] := by
            rw [executions, hstarted, List.filter_append, show t.started.filter _ = [] from hnone]
            simp [hkey']
          have hget : (t.step (.receive request now none)).server.rows.get? key' =
              some ⟨request.operation.name, operationHash request.operation, "", .pending, now⟩ := by
            rw [hrows, FiniteMap.get?_insert_self]
          refine ⟨hpayloads, fun hnone' => ?_, fun row hrow' => ?_, fun q hq _ _ => ?_⟩
          · rw [hget] at hnone'
            cases hnone'
          · rw [hget] at hrow'
            cases hrow'
            exact ⟨request, hexec, rfl, rfl, fun _ => hnorec, fun hc => by cases hc⟩
          · have hflight : TracedServer.inFlight (t.step (.receive request now none)).server.phase =
                some request := by simp [step, hstep, TracedServer.inFlight]
            rw [hflight] at hq
            cases hq
            exact ⟨_, hget, rfl, hexec⟩
        · have hnot : request.hasKey key = false := by
            simp only [Request.hasKey, hasKey_iff.mp hkey', Option.some.injEq, hk, decide_false]
          refine h.keep hpayloads ?_ ?_ rfl ?_
          · rw [hrows, FiniteMap.get?_insert_ne _ (Ne.symm hk)]
          · rw [executions, hstarted, filter_append_of_not hnot, executions]
          · intro q hq _ hqkey
            have hflight : TracedServer.inFlight (t.step (.receive request now none)).server.phase =
                some request := by simp [step, hstep, TracedServer.inFlight]
            rw [hflight] at hq
            cases hq
            rw [hnot] at hqkey
            cases hqkey
    · have hother : request.isDurable = true → storeError ≠ none := fun hd he => hnew ⟨hd, he⟩
      obtain ⟨hrows, hphase'⟩ := receive_other hphase now hother
      have hstarted : (t.step (.receive request now storeError)).started = t.started := by
        rcases hphase' with hp | ⟨hp, hd⟩ <;> simp [step, hphase, hp]
        simp [hd]
      refine h.keep (by rw [hstarted]; exact h.payloads) ?_ ?_ rfl ?_
      · exact congrArg (FiniteMap.get? · key) hrows
      · rw [executions, hstarted, executions]
      · intro q hq hdurable _
        rcases hphase' with hp | ⟨hp, hd⟩
        · simp [step, hp, TracedServer.inFlight] at hq
        · simp only [step, hp, TracedServer.inFlight, Option.mem_def, Option.some.injEq] at hq
          subst hq
          rw [hd] at hdurable
          cases hdurable

omit [Blake3] in
/-- What the end of `handle` does to the rows: a durable request whose row is pending completes
it with the response that is sent, unless the store fails. -/
theorem finalizeResponse_spec (rows : IdempotencyRows) (request : Request) (response : Reply)
    (storeError : Option String) :
    ∃ rows' response', Server.finalizeResponse rows request response maxFrameBytes storeError =
        some (rows', response') ∧
      (∀ key, request.isDurable = true → request.hasKey key = true → storeError = none →
        ∀ row, rows.get? key = some row → row.state = .pending →
          rows'.get? key = some { row with
            responseJson := response'.encode, state := .completed }) ∧
      (∀ key, (request.isDurable = true → request.hasKey key = true → storeError ≠ none) →
        rows'.get? key = rows.get? key) ∧
      ∀ key, (rows.get? key).isSome → (rows'.get? key).isSome := by
  unfold Server.finalizeResponse
  rw [transportableResponse_eq]
  dsimp only
  split
  next key hm hkey =>
    unfold Server.completeIdempotent
    cases hscope : request.operation.idempotencyScope with
    | durable =>
      have hdurable : request.isDurable = true := by simp [Request.isDurable, hscope, hkey]
      have hhas : ∀ {key'}, request.hasKey key' = true → key' = key := fun h => by
        rw [hasKey_iff, hkey] at h
        exact (Option.some.inj h).symm
      cases storeError with
      | some error =>
        refine ⟨rows, _, by simp only [transportableResponse_eq]; rfl, ?_, fun _ _ => rfl, fun _ h => h⟩
        intro _ _ _ hnone
        cases hnone
      | none =>
        have hself : request.hasKey key = true := hasKey_iff.mpr hkey
        unfold completeIdempotencyRequest
        cases hrow : rows.get? key with
        | none =>
          refine ⟨rows, _, by simp only [transportableResponse_eq]; rfl, ?_, fun _ _ => rfl, fun _ h => h⟩
          intro key' _ hk' _ row hrow' _
          rw [hhas hk', hrow] at hrow'
          cases hrow'
        | some row =>
          dsimp only
          by_cases hp : row.state = .pending
          · rw [if_pos hp]
            refine ⟨_, _, rfl, ?_, ?_, ?_⟩
            · intro key' _ hk' _ row' hrow' _
              rw [hhas hk', hrow] at hrow'
              cases hrow'
              rw [hhas hk', FiniteMap.get?_insert_self]
            · intro key' hkeep
              apply FiniteMap.get?_insert_ne
              rintro rfl
              exact hkeep hdurable hself rfl
            · intro key' hsome
              rw [FiniteMap.get?_insert]
              split
              · rfl
              · exact hsome
          · rw [if_neg hp]
            refine ⟨rows, _, by simp only [transportableResponse_eq]; rfl, ?_, fun _ _ => rfl, fun _ h => h⟩
            intro key' _ hk' _ row' hrow' hp'
            rw [hhas hk', hrow] at hrow'
            cases hrow'
            exact absurd hp' hp
    | processLocal =>
      refine ⟨rows, _, rfl, ?_, fun _ _ => rfl, fun _ h => h⟩
      intro _ hdurable
      simp [Request.isDurable, hscope] at hdurable
    | none =>
      refine ⟨rows, _, by simp only [transportableResponse_eq]; rfl, ?_, fun _ _ => rfl, fun _ h => h⟩
      intro _ hdurable
      simp [Request.isDurable, hscope] at hdurable
  next hnot =>
    refine ⟨rows, _, rfl, ?_, fun _ _ => rfl, fun _ h => h⟩
    intro key hdurable
    obtain ⟨hscope, key', hkey'⟩ := isDurable_iff.mp hdurable
    exact absurd (hasKey_iff.mp hkey') fun hk => hnot key' (mutates_of_durable hscope) hk

theorem Inv.finish (h : t.Inv operations key) (storeError : Option String) :
    (t.step (.finish storeError)).Inv operations key := by
  have hnoop : (∀ request response, t.server.phase ≠ .finishing request response) →
      (t.step (.finish storeError)).Inv operations key := by
    intro hphase
    have hserver := Server.step_finish_other hphase storeError
    refine h.keep h.payloads ?_ rfl ?_ ?_
    · simp [step, hserver]
    · cases storeError <;> simp [recordedFor, step, hserver]
    · intro q hq _ _
      simpa [step, hserver] using hq
  cases hphase : t.server.phase with
  | down => exact hnoop fun _ _ hp => by rw [hphase] at hp; cases hp
  | idle => exact hnoop fun _ _ hp => by rw [hphase] at hp; cases hp
  | executing q => exact hnoop fun _ _ hp => by rw [hphase] at hp; cases hp
  | finishing request response =>
    obtain ⟨rows', response', hfinal, hcomplete, hkept, -⟩ :=
      finalizeResponse_spec t.server.rows request response storeError
    have hserver := Server.step_finish_final hphase storeError hfinal
    have hflight : TracedServer.inFlight (t.step (.finish storeError)).server.phase = none := by
      simp [step, hserver, TracedServer.inFlight]
    have hrows : (t.step (.finish storeError)).server.rows = rows' := by simp [step, hserver]
    have hstarted : (t.step (.finish storeError)).started = t.started := rfl
    by_cases hown : (request.isDurable = true ∧ request.hasKey key = true) ∧ storeError = none
    · obtain ⟨⟨hdurable, hkey⟩, rfl⟩ := hown
      obtain ⟨row, hrow, hpending, hexec⟩ := h.inFlight request
        (by simp [hphase, TracedServer.inFlight]) hdurable hkey
      obtain ⟨first, hfirst⟩ := h.row row hrow
      have hsame : first = request := by
        have := hfirst.executions.symm.trans hexec
        simpa using this
      subst hsame
      have hget := hcomplete key hdurable hkey rfl row hrow hpending
      have hrecorded : (t.step (.finish none)).recordedFor key = [(first, response')] := by
        have hnone := hfirst.pending hpending
        rw [recordedFor] at hnone ⊢
        simp only [step, hphase, hserver, hdurable, if_true, List.filter_append, hnone]
        simp [hkey]
      refine ⟨h.payloads, fun hnone => ?_, fun row' hrow' => ?_, fun q hq => ?_⟩
      · rw [hrows, hget] at hnone
        cases hnone
      · rw [hrows, hget] at hrow'
        cases hrow'
        exact ⟨first, hexec, hfirst.operation, hfirst.requestHash, fun hp => (by cases hp),
          fun _ => ⟨response', hrecorded, rfl⟩⟩
      · rw [hflight] at hq
        cases hq
    · refine h.keep h.payloads ?_ rfl ?_ ?_
      · rw [hrows]
        exact hkept key fun hd hk he => hown ⟨⟨hd, hk⟩, he⟩
      · cases storeError with
        | some error => simp [recordedFor, step]
        | none =>
          have hnot : request.isDurable = true → request.hasKey key = false := fun hd => by
            by_contra hk
            exact hown ⟨⟨hd, Bool.eq_true_of_not_eq_false hk⟩, rfl⟩
          rw [recordedFor, recordedFor]
          simp only [step, hphase, hserver]
          split
          next hd => exact filter_append_of_not (hnot hd)
          next => rfl
      · intro q hq
        rw [hflight] at hq
        cases hq

/-- Only the pruning of a reopened store forgets a record. -/
theorem keepsRecord_of_not_reopen {event : ServerEvent} (hevent : ∀ cutoff, event ≠ .reopen cutoff) :
    t.KeepsRecord key event := by
  change (t.server.rows.get? key).isSome → ((t.server.step event).1.rows.get? key).isSome
  have hrows : (t.server.step event).1.rows = t.server.rows →
      (t.server.rows.get? key).isSome → ((t.server.step event).1.rows.get? key).isSome := by
    intro hrows hsome
    rwa [hrows]
  cases event with
  | reopen cutoff => exact absurd rfl (hevent cutoff)
  | crash => exact hrows (by rw [Server.step_crash])
  | execute outcome =>
    by_cases hexecuting : ∃ request, t.server.phase = .executing request
    · obtain ⟨request, hphase⟩ := hexecuting
      exact hrows (by rw [Server.step_execute hphase])
    · exact hrows (by rw [Server.step_execute_other (not_exists.mp hexecuting)])
  | finish storeError =>
    by_cases hfinishing : ∃ request response, t.server.phase = .finishing request response
    · obtain ⟨request, response, hphase⟩ := hfinishing
      obtain ⟨rows', response', hfinal, -, -, hsome⟩ :=
        finalizeResponse_spec t.server.rows request response storeError
      rw [Server.step_finish_final hphase storeError hfinal]
      exact hsome key
    · exact hrows (by
        rw [Server.step_finish_other fun request response h => hfinishing ⟨request, response, h⟩])
  | receive request now storeError =>
    by_cases hidle : t.server.phase = .idle
    · by_cases hnew : request.isDurable = true ∧ storeError = none
      · obtain ⟨hdurable, rfl⟩ := hnew
        obtain ⟨hscope, key', hkey'⟩ := isDurable_iff.mp hdurable
        cases hrow : t.server.rows.get? key' with
        | some row =>
          obtain ⟨response, hrespond⟩ := answerReserved_respond request
            (operationHash request.operation) row
          exact hrows (by
            rw [receive_reserved hidle hscope (hasKey_iff.mp hkey') hrow now hrespond])
        | none =>
          rw [receive_new hidle hscope (hasKey_iff.mp hkey') hrow now, FiniteMap.get?_insert]
          intro hsome
          split
          · rfl
          · exact hsome
      · exact hrows (receive_other hidle now fun hd he => hnew ⟨hd, he⟩).1
    · exact hrows (by rw [Server.step_receive_busy hidle])

/-- The remaining events leave the history as it is. -/
theorem Inv.step (h : t.Inv operations key) {event : ServerEvent} (hkeeps : t.KeepsRecord key event)
    (hop : ∀ request now storeError, event = .receive request now storeError →
      request.operation ∈ operations) : (t.step event).Inv operations key := by
  cases event with
  | receive request now storeError => exact h.receive (hop _ _ _ rfl)
  | finish storeError => exact h.finish storeError
  | execute outcome =>
    by_cases hexecuting : ∃ request, t.server.phase = .executing request
    · obtain ⟨request, hphase⟩ := hexecuting
      have hserver := Server.step_execute hphase outcome
      refine h.keep h.payloads ?_ rfl rfl fun q hq _ _ => ?_
      · simp [TracedServer.step, hserver]
      · simpa [TracedServer.step, hserver, hphase, TracedServer.inFlight] using hq
    · have hserver := Server.step_execute_other (not_exists.mp hexecuting) outcome
      refine h.keep h.payloads ?_ rfl rfl fun q hq _ _ => ?_
      · simp [TracedServer.step, hserver]
      · simpa [TracedServer.step, hserver] using hq
  | crash =>
    refine h.keep h.payloads ?_ rfl rfl ?_
    · simp [TracedServer.step, Server.step_crash]
    · intro q hq
      simp [TracedServer.step, Server.step_crash, TracedServer.inFlight] at hq
  | reopen cutoff =>
    by_cases hdown : t.server.phase = .down
    · have hserver : (t.step (.reopen cutoff)).server =
          ⟨pruneProtocolHistory t.server.rows cutoff, .empty, .idle⟩ := by
        simp [TracedServer.step, Server.step_reopen hdown]
      refine h.keep h.payloads ?_ rfl rfl ?_
      · unfold KeepsRecord at hkeeps
        rw [hserver] at hkeeps ⊢
        simp only [pruneProtocolHistory, FiniteMap.get?_retain] at hkeeps ⊢
        cases hrow : t.server.rows.get? key with
        | none => rfl
        | some row =>
          rw [hrow] at hkeeps
          have hsome := hkeeps rfl
          rw [Option.filter_some] at hsome ⊢
          split at hsome
          next hc => exact if_pos hc
          next => cases hsome
      · intro q hq
        rw [hserver] at hq
        cases hq
    · have hserver : (t.step (.reopen cutoff)).server = t.server := by
        simp [TracedServer.step, Server.step_reopen_other hdown]
      refine h.keep h.payloads (by rw [hserver]) rfl rfl fun q hq _ _ => ?_
      rw [hserver] at hq
      exact hq

/-- A reserved key is answered from what its first request left behind. -/
theorem RowInv.answer {first request : Request} {row : IdempotencyRow}
    (h : RowInv key t first row) (hinj : Set.InjOn operationHash operations)
    (hfirst : first.operation ∈ operations) (hrequest : request.operation ∈ operations) :
    answerReserved request (operationHash request.operation) (existingIdempotencyReservation row) =
      .respond (t.repeatAnswer key first request) := by
  have hmatch : (row.operation = request.operation.name ∧
      row.requestHash = operationHash request.operation) ↔ first.operation = request.operation := by
    rw [h.operation, h.requestHash]
    constructor
    · intro hc
      exact hinj hfirst hrequest hc.2
    · intro hc
      rw [hc]
      exact ⟨rfl, rfl⟩
  unfold existingIdempotencyReservation repeatAnswer
  by_cases hop : first.operation = request.operation
  · have hcond := hmatch.mpr hop
    cases hstate : row.state with
    | pending => simp only [answerReserved, if_pos hcond, h.pending hstate, hop, ne_eq, not_true,
        if_false]
    | completed =>
      obtain ⟨response, hrecorded, hjson⟩ := h.completed hstate
      simp only [answerReserved, if_pos hcond, hjson, response.fromStr_encode, hrecorded, hop, ne_eq, not_true,
        if_false]
  · have hcond := fun hc => hop (hmatch.mp hc)
    cases row.state <;> simp only [answerReserved] <;> rw [if_neg hcond, h.operation, if_pos hop]

theorem Inv.executions_length (h : t.Inv operations key) : (t.executions key).length ≤ 1 := by
  cases hrow : t.server.rows.get? key with
  | none => simp [(h.fresh hrow).1]
  | some row =>
    obtain ⟨first, hfirst⟩ := h.row row hrow
    simp [hfirst.executions]

theorem Inv.atMostOnce (h : t.Inv operations key) (hinj : Set.InjOn operationHash operations)
    {event : ServerEvent} (hkeeps : t.KeepsRecord key event)
    (hop : ∀ request now storeError, event = .receive request now storeError →
      request.operation ∈ operations) : t.AtMostOnce key event := by
  refine ⟨(h.step hkeeps hop).executions_length, ?_⟩
  rintro request now rfl hidle hdurable hkey first hmem
  have hscope := (isDurable_iff.mp hdurable).1
  cases hrow : t.server.rows.get? key with
  | none =>
    rw [(h.fresh hrow).1] at hmem
    cases hmem
  | some row =>
    obtain ⟨first', hfirst⟩ := h.row row hrow
    obtain rfl : first = first' := by simpa [hfirst.executions] using hmem
    have hanswer := hfirst.answer hinj (h.payloads first (List.mem_of_mem_filter hmem))
      (hop _ _ _ rfl)
    have hstep := receive_reserved hidle hscope (hasKey_iff.mp hkey) hrow now hanswer
    refine ⟨by simp [TracedServer.step, hstep, hidle], by simp [TracedServer.step, hstep, hidle], ?_⟩
    rw [hstep]

end TracedServer

/-- The daemon before its first start: no rows, nothing recorded. -/
def TracedServer.initial : TracedServer := ⟨⟨∅, .empty, .down⟩, [], []⟩

/-- Over every sequence of requests, executions, store failures, crashes and reopenings that does
not prune the record of a key: at most one execution of a durable request with the key is started,
and every later durable request with it is answered without executing. The answer is the recorded
response under the new request id, a conflict for another payload, or an unknown outcome when the
first attempt left no record; a response that does not fit a frame is sent as a failure. -/
theorem durable_request_at_most_once (key : String) (events : List ServerEvent)
    {operations : Set Operation}
    (hops : ∀ request now storeError, .receive request now storeError ∈ events →
      request.operation ∈ operations)
    (hinj : Set.InjOn operationHash operations)
    (hkeeps : Run.Along (TracedServer.KeepsRecord key) TracedServer.step .initial events) :
    Run.Along (TracedServer.AtMostOnce key) TracedServer.step .initial events := by
  have hstart : TracedServer.initial.Inv operations key :=
    ⟨by simp [TracedServer.initial], fun _ => ⟨rfl, rfl⟩, fun row hrow => (by cases hrow),
      fun q hq => (by cases hq)⟩
  have hC := Run.along_and_of_mem (P := fun event => ∀ request now storeError,
    event = .receive request now storeError → request.operation ∈ operations) events _ hkeeps
    fun event hmem request now storeError he => hops request now storeError (he ▸ hmem)
  exact Run.along_of_invariant (fun t event hc hinv =>
    ⟨hinv.atMostOnce hinj hc.1 hc.2, hinv.step hc.1 hc.2⟩) events _ hC hstart

end

namespace TestVectors

def closeRequest (requestId session : String) : Request :=
  ⟨requestId, some "k", .closeWorkspace session⟩

/-- Close an unknown session: the failure is recorded for the key. -/
def closeUnknown : List ServerEvent :=
  [.reopen 0, .receive (closeRequest "a" "s") 0 none, .execute (.error "unknown session: s"),
    .finish none]

def closeFailure (requestId : String) : Reply :=
  failure (closeRequest requestId "s") ErrorCode.operationFailed "unknown session: s"

/-- With this id the request still fits a frame, but the recorded failure no longer does. -/
def longRequestId : String := String.ofList (List.replicate (maxFrameBytes - 100) 'a')

scoped instance : DecidableEq Reply := inferInstanceAs (DecidableEq (Response String))

def isIdle : Phase → Bool
  | .idle => true
  | _ => false

theorem phase_of_isIdle {phase : Phase} (h : isIdle phase = true) : phase = .idle := by
  cases phase <;> first | rfl | cases h

theorem byteLength_closeFailure (requestId : String) :
    byteLength (closeFailure requestId).encode.toList =
      byteLength (escape requestId.toList) + 144 := by
  have hempty : byteLength (closeFailure "").encode.toList = 144 := by decide +kernel
  have hnone : byteLength (escape "".toList) = 0 := by decide
  simp only [Reply.encode, String.toList_ofList, encodeResponse, closeFailure, failure, closeRequest,
    quote, byteLength_append, byteLength_cons, List.cons_append, Bool.false_eq_true, if_false]
    at hempty ⊢
  omega

theorem byteLength_escape_replicate (n : ℕ) : byteLength (escape (List.replicate n 'a')) = n := by
  induction n with
  | zero => rfl
  | succ n ih =>
    have ha : byteLength (escapeChar 'a') = 1 := by decide
    rw [List.replicate_succ, escape, List.flatMap_cons, byteLength_append, ← escape, ih, ha]
    omega

/-- A repeat of the recorded request whose request id is too long for the recorded failure to fit
a frame is not answered with that failure. -/
theorem repeat_with_long_request_id_too_large :
    (closeUnknown.foldl TracedServer.step .initial).recorded =
        [(closeRequest "a" "s", closeFailure "a")] ∧
      ((closeUnknown.foldl TracedServer.step .initial).server.step
          (.receive (closeRequest longRequestId "s") 0 none)).2 ≠
        some { closeFailure "a" with requestId := longRequestId } ∧
      ∃ reply, ((closeUnknown.foldl TracedServer.step .initial).server.step
          (.receive (closeRequest longRequestId "s") 0 none)).2 = some reply ∧
        reply.error.map ProtocolError.code = some ErrorCode.responseTooLarge := by
  have hidle : (closeUnknown.foldl TracedServer.step .initial).server.phase = .idle :=
    phase_of_isIdle (by decide +kernel)
  have hrow : (closeUnknown.foldl TracedServer.step .initial).server.rows.get? "k" =
      some ⟨"close_workspace", operationHash (.closeWorkspace "s"), (closeFailure "a").encode,
        .completed, 0⟩ := by decide +kernel
  have hrespond : ∀ requestId, answerReserved (closeRequest requestId "s")
      (operationHash (.closeWorkspace "s")) (existingIdempotencyReservation
        ⟨"close_workspace", operationHash (.closeWorkspace "s"), (closeFailure "a").encode,
          .completed, 0⟩) = .respond (closeFailure requestId) := by
    intro requestId
    rw [existingIdempotencyReservation, answerReserved, if_pos ⟨rfl, rfl⟩, Reply.fromStr_encode]
    rfl
  have hstep := receive_reserved hidle rfl rfl hrow 0 (hrespond longRequestId)
  have hlong : ¬byteLength (closeFailure longRequestId).encode.toList ≤ maxFrameBytes := by
    have hmax : ∀ max, 100 ≤ max → ¬max - 100 + 144 ≤ max := by omega
    rw [byteLength_closeFailure, longRequestId, String.toList_ofList, byteLength_escape_replicate]
    exact hmax maxFrameBytes (by decide +kernel)
  have hfitted : fitted (closeRequest longRequestId "s") (closeFailure longRequestId)
      maxFrameBytes = terminalFailure (closeRequest longRequestId "s") (limitError maxFrameBytes) :=
    if_neg hlong
  refine ⟨by decide +kernel, ?_, _, by rw [hstep], ?_⟩
  · rw [hstep, hfitted]
    intro heq
    have hcode := congrArg (fun reply => reply.error.map ProtocolError.code) (Option.some.inj heq)
    exact absurd hcode (by decide)
  · rw [hfitted]
    rfl

/-- After a recorded failure, a lost daemon and a reopened store, repeats and other payloads are
answered from the row. -/
theorem close_answered_after_restart :
    Run.Along (TracedServer.AtMostOnce "k") TracedServer.step .initial
      (closeUnknown ++ [.crash, .reopen 0, .receive (closeRequest "b" "s") 1 none,
        .receive (closeRequest "c" "t") 2 none]) := by
  have hinj : Set.InjOn operationHash {.closeWorkspace "s", .closeWorkspace "t"} := by
    have hne : operationHash (.closeWorkspace "s") ≠ operationHash (.closeWorkspace "t") := by
      decide +kernel
    rintro a (rfl | rfl) b (rfl | rfl) heq
    · rfl
    · exact absurd heq hne
    · exact absurd heq.symm hne
    · rfl
  have hkeeps : ∀ {t : TracedServer} {event : ServerEvent}, (∀ cutoff, event ≠ .reopen cutoff) →
      t.KeepsRecord "k" event := TracedServer.keepsRecord_of_not_reopen
  refine durable_request_at_most_once "k" _ ?_ hinj ⟨by decide, hkeeps (by simp), hkeeps (by simp),
    hkeeps (by simp), hkeeps (by simp), by decide +kernel, hkeeps (by simp), hkeeps (by simp),
    trivial⟩
  intro request now storeError hmem
  simp only [closeUnknown, closeRequest, List.cons_append, List.nil_append, List.mem_cons,
    ServerEvent.receive.injEq, reduceCtorEq, false_or, or_false, List.not_mem_nil] at hmem
  rcases hmem with h | h | h <;> simp [h.1]

end TestVectors
end Workspace
