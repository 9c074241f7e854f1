import Reframe.Lib.FiniteMap
import Reframe.Lib.JsonText
import Reframe.Workspace.Blob

/-! The request protocol of the daemon: which operations mutate, how a response is fitted into a
frame, and the two registries of idempotency keys. A request passes through the phases of
`handle`, so that a crash can come between any two of them. -/
namespace Workspace
open JsonText

inductive MemorySourceDto where
  | directory (memoryId sourcePath : String)
  | checkpoint (memoryId backingStore manifestId : String)
  deriving DecidableEq

inductive Operation where
  | hello
  | health
  | createWorkspace (name : String) (sessionId : Option String)
      (memorySources : List MemorySourceDto) (scratchPaths : List String)
  | applyPolicy (sessionId : String) (scratchPaths : List String)
  | mountWorkspace (sessionId : String)
  | prefetch (sessionId : String) (paths : List String)
  | getChangeJournal (sessionId : String)
  | getWorkspaceStatus (sessionId : String)
  | listWorkspaces (activeOnly : Bool)
  | readFileSummary (sessionId path : String) (maxBytes : Option ℕ)
  | commitCheckpoint (sessionId : String) (paths : List String) (all : Bool)
  | listPendingCheckpointPublications
  | completeCheckpointPublication (manifestId memoryId : String)
  | unmountWorkspace (sessionId : String)
  | closeWorkspace (sessionId : String)
  | destroyEphemeralWorkspace (sessionId : String)
  | shutdown
  deriving DecidableEq

inductive IdempotencyScope where
  | none
  | durable
  | processLocal
  deriving DecidableEq

structure OperationMetadata where
  name : String
  mutates : Bool
  idempotencyScope : IdempotencyScope
  deriving DecidableEq

namespace Operation

def metadata : Operation → OperationMetadata
  | .hello => ⟨"hello", false, .none⟩
  | .health => ⟨"health", false, .none⟩
  | .createWorkspace _ _ _ _ => ⟨"create_workspace", true, .durable⟩
  | .applyPolicy _ _ => ⟨"apply_policy", true, .durable⟩
  | .mountWorkspace _ => ⟨"mount_workspace", true, .processLocal⟩
  | .prefetch _ _ => ⟨"prefetch", true, .processLocal⟩
  | .getChangeJournal _ => ⟨"get_change_journal", false, .none⟩
  | .getWorkspaceStatus _ => ⟨"get_workspace_status", false, .none⟩
  | .listWorkspaces _ => ⟨"list_workspaces", false, .none⟩
  | .readFileSummary _ _ _ => ⟨"read_file_summary", false, .none⟩
  | .commitCheckpoint _ _ _ => ⟨"commit_checkpoint", true, .durable⟩
  | .listPendingCheckpointPublications => ⟨"list_pending_checkpoint_publications", false, .none⟩
  | .completeCheckpointPublication _ _ => ⟨"complete_checkpoint_publication", true, .durable⟩
  | .unmountWorkspace _ => ⟨"unmount_workspace", true, .processLocal⟩
  | .closeWorkspace _ => ⟨"close_workspace", true, .durable⟩
  | .destroyEphemeralWorkspace _ => ⟨"destroy_ephemeral_workspace", true, .durable⟩
  | .shutdown => ⟨"shutdown", true, .processLocal⟩

def name (operation : Operation) : String := operation.metadata.name

def mutates (operation : Operation) : Bool := operation.metadata.mutates

def idempotencyScope (operation : Operation) : IdempotencyScope :=
  operation.metadata.idempotencyScope

def workspaceId : Operation → Option String
  | .applyPolicy sessionId _ | .mountWorkspace sessionId | .prefetch sessionId _
  | .getChangeJournal sessionId | .getWorkspaceStatus sessionId | .readFileSummary sessionId _ _
  | .commitCheckpoint sessionId _ _ | .unmountWorkspace sessionId | .closeWorkspace sessionId
  | .destroyEphemeralWorkspace sessionId => some sessionId
  | _ => none

end Operation

structure Request where
  requestId : String
  idempotencyKey : Option String
  operation : Operation
  deriving DecidableEq

structure ProtocolError where
  code : String
  operation : String
  workspaceId : Option String
  message : String
  deriving DecidableEq

structure Response (Value : Type) where
  requestId : String
  ok : Bool
  result : Option Value
  error : Option ProtocolError
  deriving DecidableEq

namespace ErrorCode

def idempotencyConflict : String := "idempotency_conflict"
def idempotencyError : String := "idempotency_error"
def idempotencyRequired : String := "idempotency_required"
def operationFailed : String := "operation_failed"
def outcomeUnknown : String := "outcome_unknown"
def responseTooLarge : String := "response_too_large"

end ErrorCode

def maxFrameBytes : ℕ := 16 * 1024 * 1024

def terminalFieldBytes : ℕ := 128

/-! Printing a response. -/

section

variable {Value : Type} (encodeValue : Value → List Char)

/-- A named member of an object, after a comma. -/
def member (name : String) (value : List Char) : List Char :=
  ',' :: quote name ++ ':' :: value

def encodeOption : Option String → List Char
  | some text => quote text
  | none => "null".toList

def encodeError (error : ProtocolError) : List Char :=
  '\x7b' :: quote "code" ++ ':' :: quote error.code ++ member "operation" (quote error.operation) ++
    member "workspace_id" (encodeOption error.workspaceId) ++
    member "message" (quote error.message) ++ ['\x7d']

/-- `serde_json::to_string`: absent `result` and `error` members are skipped. -/
def encodeResponse (response : Response Value) : List Char :=
  '\x7b' :: quote "request_id" ++ ':' :: quote response.requestId ++
    member "ok" (if response.ok then "true".toList else "false".toList) ++
    (match response.result with
      | some value => member "result" (encodeValue value)
      | none => []) ++
    (match response.error with
      | some error => member "error" (encodeError error)
      | none => []) ++ ['\x7d']

end

/-- `serde_json` on the values, operations and stored responses of the protocol. -/
class SerdeJson where
  Value : Type
  encodeValue : Value → List Char
  toVec : Operation → List UInt8
  fromStr : String → Except String (Response Value)
  /-- What was printed reads back. -/
  fromStr_encode : ∀ response : Response Value,
    fromStr (String.ofList (encodeResponse encodeValue response)) = .ok response

section

variable [Blake3] [SerdeJson]

abbrev Reply := Response SerdeJson.Value

def Reply.encode (response : Reply) : String :=
  String.ofList (encodeResponse SerdeJson.encodeValue response)

def failure (request : Request) (code message : String) : Reply where
  requestId := request.requestId
  ok := false
  result := none
  error := some ⟨code, request.operation.name, request.operation.workspaceId, message⟩

/-- The longest prefix of at most `room` bytes. -/
def boundedPrefix : ℕ → List Char → List Char
  | _, [] => []
  | room, c :: text =>
    if c.utf8Size ≤ room then c :: boundedPrefix (room - c.utf8Size) text else []

def bounded (value : String) : String := String.ofList (boundedPrefix terminalFieldBytes value.toList)

def boundedFailure (request : Request) (code message : String) : Reply where
  requestId := bounded request.requestId
  ok := false
  result := none
  error := some ⟨code, request.operation.name, request.operation.workspaceId.map bounded, message⟩

def limitError (maxBytes : ℕ) : String :=
  "protocol response exceeds " ++ toString maxBytes ++ " bytes"

def encodeResponseWithLimit (response : Reply) (maxBytes : ℕ) : Except String String :=
  if byteLength response.encode.toList > maxBytes then .error (limitError maxBytes)
  else .ok response.encode

/-- The failure that stands for a response which cannot be sent. -/
def terminalFailure (request : Request) (error : String) : Reply :=
  boundedFailure request ErrorCode.responseTooLarge
    ("operation completed, but its response could not be transported: " ++ error)

/-- The response and its frame, or the terminal failure when it does not fit; `none` is the panic
of a terminal failure that does not fit either. -/
def transportableResponse (request : Request) (response : Reply) (maxBytes : ℕ) :
    Option (Reply × String) :=
  match encodeResponseWithLimit response maxBytes with
  | .ok encoded => some (response, encoded)
  | .error error =>
    match encodeResponseWithLimit (terminalFailure request error) maxBytes with
    | .ok encoded => some (terminalFailure request error, encoded)
    | .error _ => none

/-! The durable rows. -/

inductive RowState where
  | pending
  | completed
  deriving DecidableEq

structure IdempotencyRow where
  operation : String
  requestHash : String
  responseJson : String
  state : RowState
  createdAt : ℤ
  deriving DecidableEq

abbrev IdempotencyRows := FiniteMap String IdempotencyRow

inductive IdempotencyReservation where
  | new
  | completed (operation requestHash responseJson : String)
  | pending (operation requestHash : String)
  deriving DecidableEq

def existingIdempotencyReservation (row : IdempotencyRow) : IdempotencyReservation :=
  match row.state with
  | .completed => .completed row.operation row.requestHash row.responseJson
  | .pending => .pending row.operation row.requestHash

/-- `INSERT OR IGNORE` of a pending row, or what the existing row says. -/
def reserveIdempotencyRequest (rows : IdempotencyRows) (key operation requestHash : String)
    (now : ℤ) : IdempotencyRows × IdempotencyReservation :=
  match rows.get? key with
  | none => (rows.insert key ⟨operation, requestHash, "", .pending, now⟩, .new)
  | some row => (rows, existingIdempotencyReservation row)

def completeIdempotencyRequest (rows : IdempotencyRows) (key responseJson : String) :
    Except String IdempotencyRows :=
  match rows.get? key with
  | some row =>
    if row.state = .pending then
      .ok (rows.insert key { row with responseJson, state := .completed })
    else .error ("idempotency request is missing or already completed: " ++ key)
  | none => .error ("idempotency request is missing or already completed: " ++ key)

/-- `prune_protocol_history_before`. -/
def pruneProtocolHistory (rows : IdempotencyRows) (cutoff : ℤ) : IdempotencyRows :=
  rows.retain fun _ row => !(row.state = .completed && decide (row.createdAt < cutoff))

/-! The registry of process-local keys. -/

def processIdempotencyCapacity : ℕ := 4096

structure ProcessIdempotencyRequests where
  entries : FiniteMap String (String × String)
  insertionOrder : List String

namespace ProcessIdempotencyRequests

def empty : ProcessIdempotencyRequests := ⟨∅, []⟩

/-- The eviction loop of `insert`. -/
def makeRoom (entries : FiniteMap String (String × String)) :
    List String → ProcessIdempotencyRequests
  | [] => if processIdempotencyCapacity ≤ entries.size then ⟨∅, []⟩ else ⟨entries, []⟩
  | oldest :: rest =>
    if processIdempotencyCapacity ≤ entries.size then makeRoom (entries.erase oldest) rest
    else ⟨entries, oldest :: rest⟩

def insert (requests : ProcessIdempotencyRequests) (key operation requestHash : String) :
    ProcessIdempotencyRequests :=
  let requests := makeRoom requests.entries requests.insertionOrder
  ⟨requests.entries.insert key (operation, requestHash), requests.insertionOrder ++ [key]⟩

end ProcessIdempotencyRequests

inductive IdempotencyAction where
  | execute
  | respond (response : Reply)

def operationHash (operation : Operation) : String := hexHash (SerdeJson.toVec operation)

def conflictMessage (operation : String) : String :=
  "idempotency key was already used for a different payload (" ++ operation ++ ")"

def outcomeUnknownMessage : String :=
  "a previous attempt may have applied this mutation; reconcile its state before issuing a new " ++
    "request"

/-- What the daemon answers to a key that is already reserved. -/
def answerReserved (request : Request) (requestHash : String) :
    IdempotencyReservation → IdempotencyAction
  | .new => .execute
  | .completed operation storedHash responseJson =>
    if operation = request.operation.name ∧ storedHash = requestHash then
      match SerdeJson.fromStr responseJson with
      | .ok response => .respond { response with requestId := request.requestId }
      | .error error => .respond (failure request ErrorCode.idempotencyError
          ("cached idempotent response is invalid: " ++ error))
    else .respond (failure request ErrorCode.idempotencyConflict (conflictMessage operation))
  | .pending operation storedHash =>
    if operation = request.operation.name ∧ storedHash = requestHash then
      .respond (failure request ErrorCode.outcomeUnknown outcomeUnknownMessage)
    else .respond (failure request ErrorCode.idempotencyConflict (conflictMessage operation))

/-- A store error leaves the rows as they were. -/
def beginDurableIdempotent (rows : IdempotencyRows) (request : Request) (key requestHash : String)
    (now : ℤ) (storeError : Option String) : IdempotencyRows × IdempotencyAction :=
  match storeError with
  | some error => (rows, .respond (failure request ErrorCode.idempotencyError
      ("could not reserve idempotent request: " ++ error)))
  | none =>
    let (rows, reservation) :=
      reserveIdempotencyRequest rows key request.operation.name requestHash now
    (rows, answerReserved request requestHash reservation)

def beginProcessIdempotent (requests : ProcessIdempotencyRequests) (request : Request)
    (key requestHash : String) : ProcessIdempotencyRequests × IdempotencyAction :=
  match requests.entries.get? key with
  | some (operation, storedHash) =>
    if operation = request.operation.name ∧ storedHash = requestHash then (requests, .execute)
    else (requests, .respond (failure request ErrorCode.idempotencyConflict
      ("process-local idempotency key was already used for a different payload (" ++
        operation ++ ")")))
  | none => (requests.insert key request.operation.name requestHash, .execute)

/-! The phases of `handle`. -/

inductive Phase where
  | down
  | idle
  | executing (request : Request)
  | finishing (request : Request) (response : Reply)

structure Server where
  rows : IdempotencyRows
  processRequests : ProcessIdempotencyRequests
  phase : Phase

inductive ServerEvent where
  | receive (request : Request) (now : ℤ) (storeError : Option String)
  | execute (outcome : Except String SerdeJson.Value)
  | finish (storeError : Option String)
  | crash
  | reopen (cutoff : ℤ)

namespace Server

def beginIdempotent (server : Server) (request : Request) (now : ℤ) (storeError : Option String) :
    Server × IdempotencyAction :=
  match request.idempotencyKey with
  | none => (server, .respond (failure request ErrorCode.idempotencyRequired
      "mutating operations require idempotency_key"))
  | some key =>
    let requestHash := operationHash request.operation
    match request.operation.idempotencyScope with
    | .durable =>
      let (rows, action) :=
        beginDurableIdempotent server.rows request key requestHash now storeError
      ({ server with rows }, action)
    | .processLocal =>
      let (processRequests, action) :=
        beginProcessIdempotent server.processRequests request key requestHash
      ({ server with processRequests }, action)
    | .none => (server, .respond (failure request ErrorCode.idempotencyError
        "mutating operation has no idempotency scope"))

def completeIdempotent (rows : IdempotencyRows) (operation : Operation) (key encoded : String)
    (storeError : Option String) : Except String IdempotencyRows :=
  match operation.idempotencyScope with
  | .durable =>
    match storeError with
    | some error => .error error
    | none => completeIdempotencyRequest rows key encoded
  | .processLocal => .ok rows
  | .none => .error "mutating operation has no idempotency scope"

/-- The first half of `handle`: answer at once, or go on to execute. A panic takes the daemon
down. -/
def receive (server : Server) (request : Request) (now : ℤ) (storeError : Option String) :
    Server × Option Reply :=
  if request.operation.mutates then
    match server.beginIdempotent request now storeError with
    | (server, .respond response) =>
      match transportableResponse request response maxFrameBytes with
      | some (response, _) => (server, some response)
      | none => ({ server with phase := .down }, none)
    | (server, .execute) => ({ server with phase := .executing request }, none)
  else ({ server with phase := .executing request }, none)

/-- The response to what `execute` returned. -/
def outcomeResponse (request : Request) : Except String SerdeJson.Value → Reply
  | .ok value => ⟨request.requestId, true, some value, none⟩
  | .error error => failure request ErrorCode.operationFailed error

def finalizeResponse (rows : IdempotencyRows) (request : Request) (response : Reply)
    (maxBytes : ℕ) (storeError : Option String) : Option (IdempotencyRows × Reply) :=
  match transportableResponse request response maxBytes with
  | none => none
  | some (response, encoded) =>
    match request.operation.mutates, request.idempotencyKey with
    | true, some key =>
      match completeIdempotent rows request.operation key encoded storeError with
      | .ok rows => some (rows, response)
      | .error error =>
        let unknown := failure request ErrorCode.outcomeUnknown
          ("mutation finished but its durable outcome could not be recorded: " ++ error)
        (transportableResponse request unknown maxBytes).map fun (response, _) => (rows, response)
    | _, _ => some (rows, response)

/-- The second half of `handle`, after the operation was executed. -/
def finish (server : Server) (request : Request) (response : Reply) (storeError : Option String) :
    Server × Option Reply :=
  match finalizeResponse server.rows request response maxFrameBytes storeError with
  | some (rows, response) => ({ server with rows, phase := .idle }, some response)
  | none => ({ server with phase := .down }, none)

/-- One event and the response it sends, if any. Events that do not fit the phase do nothing. -/
def step (server : Server) (event : ServerEvent) : Server × Option Reply :=
  match event, server.phase with
  | .receive request now storeError, .idle => server.receive request now storeError
  | .execute outcome, .executing request =>
    ({ server with phase := .finishing request (outcomeResponse request outcome) }, none)
  | .finish storeError, .finishing request response => server.finish request response storeError
  | .crash, _ => ({ server with phase := .down }, none)
  | .reopen cutoff, .down =>
    (⟨pruneProtocolHistory server.rows cutoff, .empty, .idle⟩, none)
  | _, _ => (server, none)

end Server
end

namespace TestVectors

/-- The text after an expected beginning. -/
def expect (beginning text : List Char) : Option (List Char) :=
  if beginning.isPrefixOf text then some (text.drop beginning.length) else none

theorem expect_append (beginning text : List Char) : expect beginning (beginning ++ text) = some text := by
  simp [expect]

/-- A string member: its name, then the literal. -/
def readMember (beginning text : List Char) : Option (String × List Char) := do
  let text ← expect (beginning ++ [quoteMark]) text
  let (body, text) ← readBody text
  some (String.ofList body, text)

theorem readMember_quote (beginning : List Char) (value : String) (text : List Char) :
    readMember beginning (beginning ++ (quote value ++ text)) = some (value, text) := by
  have hshape : beginning ++ (quote value ++ text) =
      (beginning ++ [quoteMark]) ++ (escape value.toList ++ quoteMark :: text) := by
    simp [quote]
  unfold readMember
  rw [hshape, expect_append]
  simp [readBody_escape]

def memberStart (name : String) : List Char := ',' :: quote name ++ [':']

def readError (text : List Char) : Option (ProtocolError × List Char) := do
  let (code, text) ← readMember ('\x7b' :: quote "code" ++ [':']) text
  let (operation, text) ← readMember (memberStart "operation") text
  let (workspaceId, text) ←
    match expect (member "workspace_id" "null".toList) text with
    | some text => some (none, text)
    | none => (readMember (memberStart "workspace_id") text).map fun (id, text) => (some id, text)
  let (message, text) ← readMember (memberStart "message") text
  let text ← expect ['\x7d'] text
  some (⟨code, operation, workspaceId, message⟩, text)

theorem readError_encodeError (error : ProtocolError) (text : List Char) :
    readError (encodeError error ++ text) = some (error, text) := by
  obtain ⟨code, operation, workspaceId, message⟩ := error
  have hcode := readMember_quote ('\x7b' :: quote "code" ++ [':'])
  have hmember := fun name => readMember_quote (memberStart name)
  simp only [memberStart, List.cons_append, List.append_assoc, List.nil_append] at hcode hmember
  cases workspaceId with
  | none =>
    simp [readError, encodeError, encodeOption, memberStart, member, hcode, hmember, expect]
  | some id =>
    have hnull : ∀ text, ¬['n', 'u', 'l', 'l'] <+: quote id ++ text := by
      intro text
      simp [quote, quoteMark]
    simp [readError, encodeError, encodeOption, memberStart, member, hcode, hmember, expect, hnull]

/-- Reads the form that `encodeResponse` prints, with string results. -/
def readResponse (text : List Char) : Option (Response String) := do
  let (requestId, text) ← readMember ('\x7b' :: quote "request_id" ++ [':']) text
  let (ok, text) ←
    match expect (member "ok" "true".toList) text with
    | some text => some (true, text)
    | none => (expect (member "ok" "false".toList) text).map fun text => (false, text)
  let (result, text) ←
    match expect (memberStart "result") text with
    | some text => (readMember [] text).map fun (value, text) => (some value, text)
    | none => some (none, text)
  let (error, text) ←
    match expect (memberStart "error") text with
    | some text => (readError text).map fun (error, text) => (some error, text)
    | none => some (none, text)
  let _ ← expect ['\x7d'] text
  some ⟨requestId, ok, result, error⟩

theorem readResponse_encodeResponse (response : Response String) :
    readResponse (encodeResponse quote response) = some response := by
  obtain ⟨requestId, ok, result, error⟩ := response
  have hrequest := readMember_quote ('\x7b' :: quote "request_id" ++ [':'])
  have hvalue := readMember_quote []
  simp only [List.cons_append, List.append_assoc, List.nil_append] at hrequest hvalue
  have hresult : ∀ text, ¬quote "result" ++ [':'] <+: quote "error" ++ text := by
    intro text
    simp [quote, escape, escapeChar, quoteMark]
  cases ok <;> cases result <;> cases error <;>
    simp [readResponse, encodeResponse, memberStart, member, hrequest, hvalue, expect,
      readError_encodeError, hresult]

/-- A concrete `SerdeJson` for string results; of the operations it prints only requests to close
a session as the serializer does. -/
scoped instance serdeJson : SerdeJson where
  Value := String
  encodeValue := quote
  toVec
    | .closeWorkspace id => closePayload id
    | operation => operation.name.toList.map fun c => UInt8.ofNat c.toNat
  fromStr text :=
    match readResponse text.toList with
    | some response => .ok response
    | none => .error "response does not match the protocol schema"
  fromStr_encode response := by simp [readResponse_encodeResponse]

end TestVectors
end Workspace
