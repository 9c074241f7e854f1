import Reframe.Lib.Dialogue
import Reframe.Lib.PyText
import Reframe.Memory.NodeSearch
import Reframe.Memory.SelectedGraph

/-! The loop of a voice request, `RunVoiceTurn`: tasks are chosen, prepared, attempted and checked
until the request is complete. The models, the callbacks and the clock are asked for answers. -/
namespace VoiceTurn
open Baml Dialogue Dialogue.Program PyText

structure CandidateMemory where
  title : String
  description : String
  deriving DecidableEq

inductive CandidateMemoryLayer where
  | taskChoice
  | conversationEvaluation
  | searchDepth
  | relevance
  | taskPrompt
  deriving DecidableEq

structure CandidateMemoryEntry where
  id : String
  title : String
  description : String
  deriving DecidableEq

/-- One value for each layer. -/
structure Layers (α : Type) where
  taskChoice : α
  conversationEvaluation : α
  searchDepth : α
  relevance : α
  taskPrompt : α
  deriving DecidableEq

namespace Layers

variable {α : Type}

def get (layers : Layers α) : CandidateMemoryLayer → α
  | .taskChoice => layers.taskChoice
  | .conversationEvaluation => layers.conversationEvaluation
  | .searchDepth => layers.searchDepth
  | .relevance => layers.relevance
  | .taskPrompt => layers.taskPrompt

def set (layers : Layers α) (layer : CandidateMemoryLayer) (a : α) : Layers α :=
  match layer with
  | .taskChoice => { layers with taskChoice := a }
  | .conversationEvaluation => { layers with conversationEvaluation := a }
  | .searchDepth => { layers with searchDepth := a }
  | .relevance => { layers with relevance := a }
  | .taskPrompt => { layers with taskPrompt := a }

end Layers

abbrev CandidateMemoryGroups := Layers (List CandidateMemoryEntry)

abbrev CandidateMemoryWriteBatch := Layers (List CandidateMemoryEntry)

structure MemoryContext where
  title : String
  description : String
  tags : List String
  createdAt : String
  updatedAt : String
  readAt : String
  deriving DecidableEq

abbrev StoredCandidateMemory := MemoryContext

abbrev CandidateMemoryReviewContext := Layers (List StoredCandidateMemory)

structure ConversationHistoryMessage where
  createdAt : String
  updatedAt : String
  readAt : String
  role : String
  content : String
  deriving DecidableEq

structure ConversationHistory where
  id : String
  name : String
  createdAt : String
  updatedAt : String
  readAt : String
  messages : List ConversationHistoryMessage
  deriving DecidableEq

structure VoiceTaskConversationScope where
  currentHumanReplyCreatedAt : Option String
  activeHumanReplyCreatedAt : List String
  deriving DecidableEq

structure SelectedTaskContext where
  id : String
  name : String
  description : String
  input : String
  output : String
  prompt : String
  providerId : String
  modelId : String
  createdAt : String
  updatedAt : String
  readAt : String
  deriving DecidableEq

/-- The two classes have the same fields. -/
abbrev AvailableTask := SelectedTaskContext

structure TaskChoiceDecision where
  selectedTaskId : String
  candidateMemory : Option CandidateMemory
  deriving DecidableEq

structure VoiceTaskFlowContext where
  cycleId : String
  currentTimestamp : String
  currentConversation : Option ConversationHistory
  sessionMemories : List MemoryContext
  userPreferences : List UserPreferenceMemoryContext
  availableTasks : List AvailableTask
  taskChoiceMemories : List MemoryContext
  conversationEvaluationMemories : List MemoryContext
  searchDepthMemories : List MemoryContext
  currentSessionId : Option String
  relevanceMemories : List MemoryContext
  taskPromptMemories : List MemoryContext
  deriving DecidableEq

structure ConversationMemorySearchHints where
  tags : ReframeMemory.TagSearch
  strings : ReframeMemory.StringSearch
  candidateMemory : Option CandidateMemory
  deriving DecidableEq

structure SearchDepthTimestamps where
  createdAfter : String
  readAfter : String
  updatedAfter : String
  deriving DecidableEq

structure SearchDepthDecision where
  depths : List (String × SearchDepthTimestamps)
  candidateMemory : Option CandidateMemory
  deriving DecidableEq

/-- The decision on relevant memories, with what it adds for the loop. -/
structure RelevanceDecision extends RelevantMemoryDecision where
  candidateMemory : Option CandidateMemory
  deriving DecidableEq

structure TaskPromptComposition where
  taskInput : String
  candidateMemory : Option CandidateMemory
  deriving DecidableEq

structure TaskPromptDecision where
  fullTaskPrompt : String
  candidateMemory : Option CandidateMemory
  deriving DecidableEq

structure VoicePromptUnderstandingTimings where
  taskChoiceMs : ℤ
  memorySearchMs : ℤ
  searchDepthMs : ℤ
  deriving DecidableEq

structure VoicePromptUnderstanding where
  taskChoice : TaskChoiceDecision
  selectedTask : SelectedTaskContext
  memorySearchHints : ConversationMemorySearchHints
  searchDepths : SearchDepthDecision
  timings : VoicePromptUnderstandingTimings
  deriving DecidableEq

structure VoicePromptContinuationTimings where
  memoryRelevanceMs : ℤ
  taskPromptMs : ℤ
  deriving DecidableEq

structure VoicePromptContinuation where
  relevanceDecision : RelevanceDecision
  selectedMemories : RetrievedMemoryGraph
  selectedMemoryContexts : List TaskPromptSelectedMemoryContext
  taskPrompt : TaskPromptDecision
  timings : VoicePromptContinuationTimings
  deriving DecidableEq

structure TaskReturnItem where
  name : String
  payload : Option (List (String × String))
  deriving DecidableEq

structure TaskExecutionResult where
  returns : List TaskReturnItem
  deriving DecidableEq

structure VoiceTaskExecutionBoundaryResult where
  attemptId : String
  taskExecution : Option TaskExecutionResult
  deriving DecidableEq

inductive CompletionResult where
  | pass
  | fail
  deriving DecidableEq

structure TaskFailureDecision where
  validationReply : String
  canRefine : Bool
  deriving DecidableEq

structure TaskAttemptReply where
  role : String
  content : String
  deriving DecidableEq

structure TaskRetryContext where
  previousReplies : List TaskAttemptReply
  refusalReplies : List String
  deriving DecidableEq

structure TaskFailureResolution where
  validationReply : String
  canRefine : Bool
  retryContext : TaskRetryContext
  retryPrompt : String
  deriving DecidableEq

structure VoiceTaskCompletionReview where
  attemptId : String
  completionString : String
  outputSummary : String
  completion : CompletionResult
  elapsedMs : ℤ
  deriving DecidableEq

structure VoiceTaskFailureReview where
  attemptId : String
  taskPrompt : String
  completionString : String
  outputSummary : String
  earlierRefusalReplyText : String
  decision : TaskFailureDecision
  elapsedMs : ℤ
  deriving DecidableEq

structure SuccessfulVoiceTaskResult where
  taskName : String
  completionRequirement : String
  outputSummary : String
  deriving DecidableEq

structure CompletedVoiceTaskCycle where
  cycleId : String
  understanding : VoicePromptUnderstanding
  retrievedMemories : RetrievedMemoryGraph
  continuation : VoicePromptContinuation
  attemptId : String
  taskCompletion : CompletionResult
  deriving DecidableEq

structure VoiceTaskNoActionResult where
  cycleId : String
  taskChoice : TaskChoiceDecision
  selectedTask : SelectedTaskContext
  taskChoiceMs : ℤ
  deriving DecidableEq

structure VoiceTaskFlowResult extends CompletedVoiceTaskCycle where
  taskCompletionMs : ℤ
  completionReviews : List VoiceTaskCompletionReview
  failureReviews : List VoiceTaskFailureReview
  deriving DecidableEq

inductive VoiceTaskRunResult where
  | flow (result : VoiceTaskFlowResult)
  | noAction (result : VoiceTaskNoActionResult)
  deriving DecidableEq

inductive VoiceRequestResultState where
  | pending
  | result (result : VoiceTaskRunResult)
  deriving DecidableEq

inductive VoiceTurnError where
  | invalidArgument (message : String)
  deriving DecidableEq

/-- What the loop asks for: the callbacks, the models and the clock. -/
inductive Operation where
  | loadContext
  | loadRequestConversation
  | loadTaskConversationScope
  | elapsed
  | chooseTask (request : String) (conversation : Option ConversationHistory)
      (sessionMemories : List MemoryContext) (preferences : List UserPreferenceMemoryContext)
      (availableTasks : List AvailableTask) (taskChoiceMemories : List MemoryContext)
  | reportTaskChoice (cycleId : String) (choice : TaskChoiceDecision)
      (selectedTask : SelectedTaskContext) (taskChoiceMs : ℤ)
  | chooseMemorySearch (request : String) (conversation : Option ConversationHistory)
      (sessionMemories : List MemoryContext) (selectedTask : SelectedTaskContext)
      (evaluationMemories : List MemoryContext)
  | chooseMemorySearchDepths (timestamp request : String)
      (conversation : Option ConversationHistory) (sessionMemories : List MemoryContext)
      (selectedTask : SelectedTaskContext) (hints : ConversationMemorySearchHints)
      (searchDepthMemories : List MemoryContext)
  | retrieveMemories (cycleId : String) (understanding : VoicePromptUnderstanding)
  | selectRelevantMemories (request : String) (conversation : Option ConversationHistory)
      (sessionMemories : List MemoryContext) (selectedTask : SelectedTaskContext)
      (candidates : List RetrievedMemoryCandidate) (relevanceMemories : List MemoryContext)
  | composeTaskInput (request : String) (conversation : Option ConversationHistory)
      (sessionMemories : List MemoryContext) (selectedTask : SelectedTaskContext)
      (selectedMemories : List TaskPromptSelectedMemoryContext)
      (taskPromptMemories : List MemoryContext)
  | executeTask (cycleId : String) (choice : TaskChoiceDecision) (prompt : String)
      (continuation : VoicePromptContinuation)
  | dispatchTaskOutputs (attemptId : String)
  | summarizeTaskActions (attemptId : String) (choice : TaskChoiceDecision)
  | checkTaskCompletion (completionString outputSummary request : String)
      (conversation : Option ConversationHistory)
  | writeValidationReply (taskPrompt completionString outputSummary refusals : String)
  | recordValidationReply (attemptId reply : String)
  | checkRequestCompletion (request : String) (conversation : Option ConversationHistory)
      (successfulTasks : List SuccessfulVoiceTaskResult)
  | selectCandidateMemories (purpose : String) (candidates : List CandidateMemoryEntry)
      (storedMemories : List StoredCandidateMemory)
  | writeCandidateMemories (batch : CandidateMemoryWriteBatch)

abbrev Operation.Answer : Operation → Type
  | .loadContext => VoiceTaskFlowContext
  | .loadRequestConversation => Option ConversationHistory
  | .loadTaskConversationScope => VoiceTaskConversationScope
  | .elapsed => ℤ
  | .chooseTask .. => TaskChoiceDecision
  | .reportTaskChoice .. => Bool
  | .chooseMemorySearch .. => ConversationMemorySearchHints
  | .chooseMemorySearchDepths .. => SearchDepthDecision
  | .retrieveMemories .. => RetrievedMemoryGraph
  | .selectRelevantMemories .. => RelevanceDecision
  | .composeTaskInput .. => TaskPromptComposition
  | .executeTask .. => VoiceTaskExecutionBoundaryResult
  | .dispatchTaskOutputs _ => Bool
  | .summarizeTaskActions .. => Option String
  | .checkTaskCompletion .. => CompletionResult
  | .writeValidationReply .. => TaskFailureDecision
  | .recordValidationReply .. => Bool
  | .checkRequestCompletion .. => CompletionResult
  /- The kept candidate ids. -/
  | .selectCandidateMemories .. => List String
  | .writeCandidateMemories _ => Bool

abbrev Turn := Program Operation Operation.Answer VoiceTurnError

abbrev perform (op : Operation) : Turn op.Answer := ask op

/-! The parts of the loop that ask nothing. -/

def CandidateMemoryLayer.lowerName : CandidateMemoryLayer → String
  | .taskChoice => "task_choice"
  | .conversationEvaluation => "conversation_evaluation"
  | .searchDepth => "search_depth"
  | .relevance => "relevance"
  | .taskPrompt => "task_prompt"

def candidateMemoryPurpose : CandidateMemoryLayer → String
  | .taskChoice => "choosing the right task for a user request"
  | .conversationEvaluation =>
    "planning which memories will help with a user request and selected task"
  | .searchDepth => "choosing useful time ranges for memory search"
  | .relevance => "selecting retrieved memories that help the selected task"
  | .taskPrompt => "composing clear task input from the request and selected context"

def emptyCandidateMemoryGroups : CandidateMemoryGroups := ⟨[], [], [], [], []⟩

def addCandidateMemoryToGroup (group : List CandidateMemoryEntry) (layer : CandidateMemoryLayer)
    (candidate : CandidateMemory) : List CandidateMemoryEntry :=
  group ++ [⟨layer.lowerName ++ "-" ++ toString (group.length + 1), candidate.title,
    candidate.description⟩]

def addCandidateMemory (groups : CandidateMemoryGroups) (layer : CandidateMemoryLayer) :
    Option CandidateMemory → CandidateMemoryGroups
  | none => groups
  | some memory => groups.set layer (addCandidateMemoryToGroup (groups.get layer) layer memory)

def hasSelectedCandidates (batch : CandidateMemoryWriteBatch) : Bool :=
  decide (0 < batch.taskChoice.length + batch.conversationEvaluation.length +
    batch.searchDepth.length + batch.relevance.length + batch.taskPrompt.length)

def memoryReviewContext (context : VoiceTaskFlowContext) : CandidateMemoryReviewContext where
  taskChoice := context.taskChoiceMemories
  conversationEvaluation := context.conversationEvaluationMemories
  searchDepth := context.searchDepthMemories
  relevance := context.relevanceMemories
  taskPrompt := context.taskPromptMemories

def taskConversation (conversation : Option ConversationHistory)
    (scope : VoiceTaskConversationScope) : Option ConversationHistory :=
  conversation.map fun current =>
    let messages := current.messages.filter fun message =>
      message.role != "human" || !scope.activeHumanReplyCreatedAt.contains message.createdAt ||
        some message.createdAt == scope.currentHumanReplyCreatedAt
    { current with messages }

def selectedTask (availableTasks : List AvailableTask) (selectedTaskId : String) :
    Turn SelectedTaskContext :=
  match availableTasks.find? fun task => task.id = selectedTaskId with
  | some task => pure task
  | none => .stop (.error (.invalidArgument
      ("selected task does not exist in available task context: " ++ selectedTaskId)))

def promptText (selectedTaskPrompt taskInput : String) : String :=
  "Task:\n" ++ selectedTaskPrompt ++ "\n\nInput:\n" ++ taskInput

def promptDecision (selectedTaskPrompt : String) (composition : TaskPromptComposition) :
    TaskPromptDecision :=
  ⟨promptText selectedTaskPrompt composition.taskInput, composition.candidateMemory⟩

def earlierRefusalReplies (replies : List String) : String :=
  "\n".intercalate (replies.map ("- " ++ ·))

def promptWithRetryContext (fullTaskPrompt : String) (previousReplies : List TaskAttemptReply)
    (refusalReplies : List String) : String :=
  let previousReplyText := "\n".intercalate
    (previousReplies.map fun reply => reply.role ++ ": " ++ reply.content)
  let refusalReplyText := earlierRefusalReplies refusalReplies
  let withPreviousReplies := if previousReplyText = "" then fullTaskPrompt
    else fullTaskPrompt ++ "\n\nPrevious Replies:\n" ++ previousReplyText
  if refusalReplyText = "" then withPreviousReplies
  else withPreviousReplies ++ "\n\nRefusal Reply:\n" ++ refusalReplyText

/-- White space to the `trim` of a string; the information separators are not. -/
def isWhiteSpace (c : Char) : Bool := isSpace c && !(28 ≤ c.toNat && c.toNat ≤ 31)

def trim (text : String) : String :=
  String.ofList ((text.toList.dropWhile isWhiteSpace).rdropWhile isWhiteSpace)

def payloadText (item : TaskReturnItem) : String :=
  ((item.payload.bind (List.lookup "text")).map trim).getD ""

def previousTaskReplies (execution : TaskExecutionResult) : List TaskAttemptReply :=
  ((execution.returns.filter fun item => item.name == "agent_reply" || item.name == "agent_thought")
    |>.filter fun item => payloadText item != "").map fun item => ⟨item.name, payloadText item⟩

def buildTaskFailureResolution (baseTaskPrompt : String) (failedExecution : TaskExecutionResult)
    (retryContext : TaskRetryContext) (decision : TaskFailureDecision) : TaskFailureResolution :=
  let validationReply := trim decision.validationReply
  let nextContext : TaskRetryContext :=
    ⟨retryContext.previousReplies ++ previousTaskReplies failedExecution,
      retryContext.refusalReplies ++ [validationReply]⟩
  { validationReply
    canRefine := decision.canRefine
    retryContext := nextContext
    retryPrompt := promptWithRetryContext baseTaskPrompt nextContext.previousReplies
      nextContext.refusalReplies }

def doNothingModel : String := "magic:do-nothing"

def nextConsecutiveNoActionCount (selectedTask : SelectedTaskContext) (currentCount : ℕ) : ℕ :=
  if selectedTask.modelId = doNothingModel then currentCount + 1 else 0

def requestIsComplete (consecutiveNoActionCount : ℕ) (completion : Option CompletionResult) :
    Bool :=
  if 3 ≤ consecutiveNoActionCount then true
  else match completion with
    | some result => result = .pass
    | none => false

def completedVoiceTaskResult (completed : CompletedVoiceTaskCycle) (taskCompletionMs : ℤ)
    (completionReviews : List VoiceTaskCompletionReview)
    (failureReviews : List VoiceTaskFailureReview) : VoiceTaskFlowResult :=
  { completed with taskCompletionMs, completionReviews, failureReviews }

def voiceRequestResultAfterNoAction (completedTasks : List CompletedVoiceTaskCycle)
    (noAction : VoiceTaskNoActionResult) (taskCompletionMs : ℤ)
    (completionReviews : List VoiceTaskCompletionReview)
    (failureReviews : List VoiceTaskFailureReview) : VoiceTaskRunResult :=
  match completedTasks.getLast? with
  | some completed =>
    .flow (completedVoiceTaskResult completed taskCompletionMs completionReviews failureReviews)
  | none => .noAction noAction

def finishedVoiceRequestResult : VoiceRequestResultState → Turn VoiceTaskRunResult
  | .result result => pure result
  | .pending => .stop .panic

/-! The loop. -/

/-- The variables of the outer loop. -/
structure RequestState where
  taskCompletionMs : ℤ
  completionReviews : List VoiceTaskCompletionReview
  failureReviews : List VoiceTaskFailureReview
  successfulTasks : List SuccessfulVoiceTaskResult
  candidateMemories : CandidateMemoryGroups
  consecutiveNoActionCount : ℕ
  completedTasks : List CompletedVoiceTaskCycle
  requestResult : VoiceRequestResultState
  completionContext : Option VoiceTaskFlowContext
  deriving DecidableEq

def RequestState.initial : RequestState where
  taskCompletionMs := 0
  completionReviews := []
  failureReviews := []
  successfulTasks := []
  candidateMemories := emptyCandidateMemoryGroups
  consecutiveNoActionCount := 0
  completedTasks := []
  requestResult := .pending
  completionContext := none

/-- What is known of a task before its attempts. -/
structure PreparedTask where
  candidateMemories : CandidateMemoryGroups
  scope : VoiceTaskConversationScope
  understanding : VoicePromptUnderstanding
  retrieved : RetrievedMemoryGraph
  continuation : VoicePromptContinuation

/-- From the selected task to the composed handoff. -/
def prepareTask (currentUserRequest : String) (context : VoiceTaskFlowContext)
    (taskChoice : TaskChoiceDecision) (selectedTask : SelectedTaskContext) (taskChoiceMs : ℤ)
    (candidateMemories : CandidateMemoryGroups) : Turn PreparedTask := do
  let scope ← perform .loadTaskConversationScope
  let conversation := taskConversation context.currentConversation scope
  let hints ← perform (.chooseMemorySearch currentUserRequest conversation context.sessionMemories
    selectedTask context.conversationEvaluationMemories)
  let memorySearchMs ← perform .elapsed
  let candidateMemories :=
    addCandidateMemory candidateMemories .conversationEvaluation hints.candidateMemory
  let depths ← perform (.chooseMemorySearchDepths context.currentTimestamp currentUserRequest
    conversation context.sessionMemories selectedTask hints context.searchDepthMemories)
  let searchDepthMs ← perform .elapsed
  let candidateMemories := addCandidateMemory candidateMemories .searchDepth depths.candidateMemory
  let understanding : VoicePromptUnderstanding :=
    ⟨taskChoice, selectedTask, hints, depths, ⟨taskChoiceMs, memorySearchMs, searchDepthMs⟩⟩
  let retrieved ← perform (.retrieveMemories context.cycleId understanding)
  let relevance ← perform (.selectRelevantMemories currentUserRequest conversation
    context.sessionMemories selectedTask
    (candidates retrieved context.currentSessionId context.userPreferences)
    context.relevanceMemories)
  let memoryRelevanceMs ← perform .elapsed
  let candidateMemories := addCandidateMemory candidateMemories .relevance relevance.candidateMemory
  let selectedMemories := selectedGraph retrieved relevance.toRelevantMemoryDecision
  let selectedMemoryContexts := promptContexts selectedMemories relevance.keptMemoryIds
    context.currentSessionId context.userPreferences
  let composition ← perform (.composeTaskInput currentUserRequest conversation
    context.sessionMemories selectedTask selectedMemoryContexts context.taskPromptMemories)
  let taskPromptMs ← perform .elapsed
  let candidateMemories :=
    addCandidateMemory candidateMemories .taskPrompt composition.candidateMemory
  pure {
    candidateMemories
    scope
    understanding
    retrieved
    continuation := ⟨relevance, selectedMemories, selectedMemoryContexts,
      promptDecision selectedTask.prompt composition, ⟨memoryRelevanceMs, taskPromptMs⟩⟩ }

/-- The variables of the attempt loop. -/
structure AttemptState where
  request : RequestState
  retryContext : TaskRetryContext
  taskPrompt : String

structure CycleOutcome where
  request : RequestState
  cycleFinished : Bool
  cycleResult : VoiceRequestResultState

/-- One attempt at the task: it passes, is tried again, or is given up. -/
def attemptTask (currentUserRequest : String) (context : VoiceTaskFlowContext)
    (taskChoice : TaskChoiceDecision) (selectedTask : SelectedTaskContext)
    (prepared : PreparedTask) (s : AttemptState) : Turn (AttemptState ⊕ CycleOutcome) := do
  let execution ← perform (.executeTask context.cycleId taskChoice s.taskPrompt prepared.continuation)
  let _ ← perform (.dispatchTaskOutputs execution.attemptId)
  let summary ← perform (.summarizeTaskActions execution.attemptId taskChoice)
  let outputSummary := summary.getD "No task output was produced."
  let taskExecution := execution.taskExecution.getD ⟨[]⟩
  let requestConversation ← perform .loadRequestConversation
  let completion ← perform (.checkTaskCompletion selectedTask.output outputSummary currentUserRequest
    (taskConversation requestConversation prepared.scope))
  let completionMs ← perform .elapsed
  let request : RequestState := { s.request with
    taskCompletionMs := s.request.taskCompletionMs + completionMs
    completionReviews := s.request.completionReviews ++
      [⟨execution.attemptId, selectedTask.output, outputSummary, completion, completionMs⟩] }
  if completion = .pass then
    let completed : CompletedVoiceTaskCycle := {
      cycleId := context.cycleId
      understanding := prepared.understanding
      retrievedMemories := prepared.retrieved
      continuation := prepared.continuation
      attemptId := execution.attemptId
      taskCompletion := completion }
    pure <| .inr {
      request := { request with
        successfulTasks := request.successfulTasks ++
          [⟨selectedTask.name, selectedTask.output, outputSummary⟩]
        completedTasks := request.completedTasks ++ [completed] }
      cycleFinished := true
      cycleResult := .result <| .flow <| completedVoiceTaskResult completed
        request.taskCompletionMs request.completionReviews request.failureReviews }
  else
    let fullTaskPrompt := prepared.continuation.taskPrompt.fullTaskPrompt
    let refusals := earlierRefusalReplies s.retryContext.refusalReplies
    let decision ← perform (.writeValidationReply fullTaskPrompt selectedTask.output outputSummary
      refusals)
    let resolution := buildTaskFailureResolution fullTaskPrompt taskExecution s.retryContext decision
    let failureMs ← perform .elapsed
    let request : RequestState := { request with
      taskCompletionMs := request.taskCompletionMs + failureMs
      failureReviews := request.failureReviews ++
        [⟨execution.attemptId, fullTaskPrompt, selectedTask.output, outputSummary, refusals,
          ⟨resolution.validationReply, resolution.canRefine⟩, failureMs⟩] }
    let _ ← perform (.recordValidationReply execution.attemptId resolution.validationReply)
    if resolution.canRefine then
      pure <| .inl ⟨request, resolution.retryContext, resolution.retryPrompt⟩
    else
      pure <| .inr ⟨request, false, .pending⟩

/-- One choice of a task, with what is done about it. -/
def runSelectedTask (fuel : ℕ) (currentUserRequest : String) (context : VoiceTaskFlowContext)
    (s : RequestState) : Turn CycleOutcome := do
  let taskChoice ← perform (.chooseTask currentUserRequest context.currentConversation
    context.sessionMemories context.userPreferences context.availableTasks
    context.taskChoiceMemories)
  let taskChoiceMs ← perform .elapsed
  let selectedTask ← selectedTask context.availableTasks taskChoice.selectedTaskId
  let _ ← perform (.reportTaskChoice context.cycleId taskChoice selectedTask taskChoiceMs)
  let s := { s with
    candidateMemories := addCandidateMemory s.candidateMemories .taskChoice
      taskChoice.candidateMemory
    consecutiveNoActionCount :=
      nextConsecutiveNoActionCount selectedTask s.consecutiveNoActionCount }
  if selectedTask.modelId = doNothingModel then
    pure {
      request := s
      cycleFinished := true
      cycleResult := .result <| voiceRequestResultAfterNoAction s.completedTasks
        ⟨context.cycleId, taskChoice, selectedTask, taskChoiceMs⟩ s.taskCompletionMs
        s.completionReviews s.failureReviews }
  else
    let prepared ← prepareTask currentUserRequest context taskChoice selectedTask taskChoiceMs
      s.candidateMemories
    loop (attemptTask currentUserRequest context taskChoice selectedTask prepared) fuel
      ⟨{ s with candidateMemories := prepared.candidateMemories }, ⟨[], []⟩,
        prepared.continuation.taskPrompt.fullTaskPrompt⟩

/-- One turn of the outer loop, which is left when the request is complete. -/
def runCycle (fuel : ℕ) (currentUserRequest : String) (s : RequestState) :
    Turn (RequestState ⊕ RequestState) := do
  let context ← perform .loadContext
  let outcome ← runSelectedTask fuel currentUserRequest context
    { s with completionContext := some context }
  let shouldCheck := outcome.cycleFinished && outcome.request.consecutiveNoActionCount < 3
  let requestCompletion ← if shouldCheck then do
      let conversation ← perform .loadRequestConversation
      let scope ← perform .loadTaskConversationScope
      let completion ← perform (.checkRequestCompletion currentUserRequest
        (taskConversation conversation scope) outcome.request.successfulTasks)
      pure (some completion)
    else pure none
  if outcome.cycleFinished &&
      requestIsComplete outcome.request.consecutiveNoActionCount requestCompletion then
    pure (.inr { outcome.request with requestResult := outcome.cycleResult })
  else pure (.inl outcome.request)

/-- The reviews of the layers, which run beside each other, are asked one after the other. -/
def reviewMemories (candidates : CandidateMemoryGroups) (context : CandidateMemoryReviewContext) :
    Turn CandidateMemoryWriteBatch :=
  let layers := [.taskChoice, .conversationEvaluation, .searchDepth, .relevance, .taskPrompt].filter
    fun layer => candidates.get layer ≠ []
  layers.foldlM (fun batch layer => do
    let kept ← perform (.selectCandidateMemories (candidateMemoryPurpose layer) (candidates.get layer)
      (context.get layer))
    pure (batch.set layer ((candidates.get layer).filter fun candidate => kept.contains candidate.id)))
    emptyCandidateMemoryGroups

def runVoiceTurnLoop (fuel : ℕ) (currentUserRequest : String) : Turn RequestState :=
  loop (runCycle fuel currentUserRequest) fuel .initial

/-- What follows the loop. A context that was never loaded cannot be reviewed. -/
def finishVoiceTurn (s : RequestState) : Turn VoiceTaskRunResult := do
  let context ← match s.completionContext with
    | some context => pure context
    | none => .stop .panic
  let batch ← reviewMemories s.candidateMemories (memoryReviewContext context)
  if hasSelectedCandidates batch then
    let _ ← perform (.writeCandidateMemories batch)
  finishedVoiceRequestResult s.requestResult

def runVoiceTurn (fuel : ℕ) (currentUserRequest : String) : Turn VoiceTaskRunResult := do
  let s ← runVoiceTurnLoop fuel currentUserRequest
  finishVoiceTurn s

end VoiceTurn
