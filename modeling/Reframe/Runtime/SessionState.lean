import Mathlib.Tactic
import Reframe.Lib.FiniteMap

/-! One session of the runtime: the registry of its active invocations, and the requests, tasks
and cancellations that work on it. Each of them is an actor whose next operation on the shared
state may come at any time; an operation that the source performs under a map's or an atomic's own
synchronisation is one step. -/
namespace Runtime

/-- The most recently completed invocations, oldest first. -/
structure CompletionHistory where
  capacity : ℕ
  order : List String
  values : Finset String
  mem_values : ∀ id, id ∈ values ↔ id ∈ order
  nodup : order.Nodup
  length_le : order.length ≤ capacity

namespace CompletionHistory

def new (capacity : ℕ) : CompletionHistory :=
  ⟨capacity, [], ∅, by simp, List.nodup_nil, Nat.zero_le _⟩

theorem nodup_push (history : CompletionHistory) {id : String} (h : id ∉ history.values) :
    (history.order ++ [id]).Nodup := by
  rw [history.mem_values] at h
  exact List.nodup_append.mpr ⟨history.nodup, List.nodup_singleton _,
    fun a ha b hb => by rintro rfl; exact h (List.mem_singleton.mp hb ▸ ha)⟩

theorem mem_push (history : CompletionHistory) (id other : String) :
    other ∈ Insert.insert id history.values ↔ other ∈ history.order ++ [id] := by
  simp [history.mem_values, or_comm]

/-- Remember an id that is not there yet, forgetting the oldest one beyond the capacity. -/
def insert (history : CompletionHistory) (id : String) : CompletionHistory :=
  if h : id ∈ history.values then history
  else if hlength : history.capacity < (history.order ++ [id]).length then
    match horder : history.order ++ [id] with
    | [] => history
    | expired :: order =>
      { capacity := history.capacity
        order
        values := (Insert.insert id history.values).erase expired
        mem_values := fun other => by
          have hnodup := history.nodup_push h
          rw [horder, List.nodup_cons] at hnodup
          rw [Finset.mem_erase, history.mem_push, horder, List.mem_cons]
          constructor
          · rintro ⟨hne, rfl | hmem⟩
            · exact absurd rfl hne
            · exact hmem
          · intro hmem
            exact ⟨fun heq => hnodup.1 (heq ▸ hmem), .inr hmem⟩
        nodup := (List.nodup_cons.mp (horder ▸ history.nodup_push h)).2
        length_le := by
          have hsum := congrArg List.length horder
          have hbound := history.length_le
          simp only [List.length_append, List.length_cons, List.length_nil] at hsum
          omega }
  else
    { capacity := history.capacity
      order := history.order ++ [id]
      values := Insert.insert id history.values
      mem_values := history.mem_push id
      nodup := history.nodup_push h
      length_le := Nat.not_lt.mp hlength }

end CompletionHistory

/-- An active invocation, told apart from every other one of the same request id. -/
structure Invocation where
  requestId : String
  serial : ℕ
  deriving DecidableEq, Repr

/-- The shared state of a session. `locked` is the lifecycle mutex, held across
`try_add_invocation`. -/
structure SessionState where
  closed : Bool
  locked : Bool
  requests : Finset String
  invocations : FiniteMap String Invocation
  completed : CompletionHistory
  activeInvocations : ℕ

def SessionState.new (completionHistory : ℕ) : SessionState :=
  ⟨false, false, ∅, ∅, .new completionHistory, 0⟩

/-- An atomic `fetch_sub(1)` on a `usize`. -/
def fetchSub (value : ℕ) : ℕ := if value = 0 then 2 ^ 64 - 1 else value - 1

/-- The requests of an open session, as far as the registry distinguishes them. -/
inductive Message where
  | catalog
  | execute
  | cancelInvocation (target : String)
  | closeStore
  deriving DecidableEq, Repr

/-- What an actor does next. -/
inductive Stage where
  | routing (message : Message)
  -- `spawn_all_cancellations`
  | closing
  -- `start_invocation`: the task is spawned, `try_add_invocation` comes next
  | spawned
  | reserved
  | releasing
  | refused
  | registered
  -- the invocation's task: before its start signal, and in `run_invocation`
  | waiting
  | running
  -- `ActiveInvocation::cancel`
  | cancelling
  -- `finish_invocation`
  | finishRequest
  | complete
  | remove
  | release
  -- the drop of an armed `RequestGuard`
  | dropGuard
  | done
  deriving DecidableEq, Repr

inductive Role where
  | route
  | supervisor
  | task
  | canceller
  deriving DecidableEq, Repr

/-- A request handler, an invocation's task or a cancellation. `owner` is the invocation it works
for and `id` the request id it passes to the session state. -/
structure Actor where
  role : Role
  owner : Invocation
  id : String
  stage : Stage
  deriving DecidableEq, Repr

/-- Only a request handler holds a request guard. -/
def Actor.leave (actor : Actor) : Actor :=
  { actor with stage := if actor.role = .route then .dropGuard else .done }

/-- The task can be aborted: it waits for its start signal, for the guest or for a mutex. -/
def Actor.awaiting (actor : Actor) : Bool :=
  actor.role = .task &&
    (actor.stage = .waiting || actor.stage = .running || actor.stage = .complete)

structure Session where
  state : SessionState
  actors : List Actor
  serial : ℕ

def Session.new (completionHistory : ℕ) : Session := ⟨.new completionHistory, [], 0⟩

/-- A choice of the environment: a request arrives, the runtime closes the session, or one actor
moves. -/
inductive Event where
  | request (id : String) (message : Message)
  | shutdown
  | advance (actor : ℕ)
  -- the request is not executed: its contract or the runtime's invocation limit refuses it
  | refuse (actor : ℕ)
  -- `spawn_all_cancellations` meets this id
  | spawnCancellation (actor : ℕ) (id : String)
  | abort (actor : ℕ)
  deriving DecidableEq, Repr

namespace Session

def setStage (session : Session) (index : ℕ) (actor : Actor) (stage : Stage) : Session :=
  { session with actors := session.actors.set index { actor with stage := stage } }

def leave (session : Session) (index : ℕ) (actor : Actor) : Session :=
  { session with actors := session.actors.set index actor.leave }

def spawn (session : Session) (actor : Actor) : Session :=
  { session with actors := session.actors ++ [actor] }

/-- The task of an invocation, while it waits for its start signal. -/
def isWaiting (owner : Invocation) (actor : Actor) : Bool :=
  actor.role = .task && actor.owner = owner && actor.stage = .waiting

/-- `start.send(())`, or `abort_silent`, for the task of an invocation that waits. -/
def signal (session : Session) (owner : Invocation) (stage : Stage) : Session :=
  { session with
    actors := session.actors.map fun actor =>
      if isWaiting owner actor then { actor with stage := stage } else actor }

/-- The task of the invocation has ended. -/
def reaped (session : Session) (owner : Invocation) : Bool :=
  session.actors.all fun actor =>
    !(actor.role = .task && actor.owner = owner) || actor.stage = .done

/-- Someone holds the `ActiveInvocation`: the registry, its handler or a cancellation. -/
def held (session : Session) (owner : Invocation) : Bool :=
  session.state.invocations.get? owner.requestId = some owner ||
    session.actors.any fun actor =>
      actor.role ≠ .task && actor.owner = owner && actor.stage ≠ .done

/-- `spawn_cancellation` for the invocation registered under the id, if there is one. -/
def cancelOne (session : Session) (id : String) : Session :=
  match session.state.invocations.get? id with
  | some owner => session.spawn ⟨.canceller, owner, id, .cancelling⟩
  | none => session

/-- `begin_request` and the guard it arms. -/
def request (session : Session) (id : String) (message : Message) : Session :=
  if session.state.locked || session.state.closed || id ∈ session.state.requests then session
  else
    { session with
      state := { session.state with requests := insert id session.state.requests }
      serial := session.serial + 1 }.spawn
        ⟨.route, ⟨id, session.serial⟩, id, .routing message⟩

def reserve (session : Session) (maximum index : ℕ) (actor : Actor) : Session :=
  if session.state.activeInvocations < maximum then
    { session with
      state := { session.state with
        locked := true
        activeInvocations := session.state.activeInvocations + 1 } }.setStage index actor .reserved
  else session.setStage index actor .refused

def register (session : Session) (index : ℕ) (actor : Actor) : Session :=
  if session.state.closed || session.state.invocations.contains actor.id then
    session.setStage index actor .releasing
  else
    { session with
      state := { session.state with
        locked := false
        invocations := session.state.invocations.insert actor.id actor.owner } }.setStage
          index actor .registered

def removeInvocation (session : Session) (index : ℕ) (actor : Actor) : Session :=
  match session.state.invocations.get? actor.id with
  | some _ =>
    { session with
      state := { session.state with
        invocations := session.state.invocations.erase actor.id } }.setStage index actor .release
  | none => session.leave index actor

/-- The handler's next step once its request is begun. -/
def route (session : Session) (index : ℕ) (actor : Actor) : Message → Session
  | .catalog => session.leave index actor
  | .execute =>
    (session.setStage index actor .spawned).spawn ⟨.task, actor.owner, actor.id, .waiting⟩
  | .cancelInvocation target => (session.leave index actor).cancelOne target
  | .closeStore =>
    if session.state.locked then session
    else
      { session with state := { session.state with closed := true } }.setStage index actor .closing

def advance (session : Session) (maximum index : ℕ) (actor : Actor) : Session :=
  match actor.stage with
  | .routing message => session.route index actor message
  | .closing => session.leave index actor
  | .spawned => if session.state.locked then session else session.reserve maximum index actor
  | .reserved => session.register index actor
  | .releasing =>
    { session with
      state := { session.state with
        locked := false
        activeInvocations := fetchSub session.state.activeInvocations } }.setStage
          index actor .refused
  | .refused => (session.signal actor.owner .done).leave index actor
  | .registered =>
    if session.actors.any (isWaiting actor.owner) then
      (session.signal actor.owner .running).setStage index actor .done
    -- the task was aborted before its start signal
    else session.setStage index actor .finishRequest
  | .waiting => session
  | .running => session.setStage index actor .finishRequest
  | .cancelling =>
    if session.reaped actor.owner then session.setStage index actor .finishRequest else session
  | .finishRequest =>
    { session with
      state := { session.state with requests := session.state.requests.erase actor.id } }.setStage
        index actor .complete
  | .complete =>
    { session with
      state := { session.state with
        completed := session.state.completed.insert actor.id } }.setStage index actor .remove
  | .remove => session.removeInvocation index actor
  | .release =>
    { session with
      state := { session.state with
        activeInvocations := fetchSub session.state.activeInvocations } }.leave index actor
  | .dropGuard =>
    { session with
      state := { session.state with requests := session.state.requests.erase actor.id } }.setStage
        index actor .done
  | .done => session

/-- A task is aborted by a cancellation of its invocation, or when its `ActiveInvocation` is
dropped. -/
def abort (session : Session) (index : ℕ) (actor : Actor) : Session :=
  if actor.awaiting && (!session.held actor.owner || session.actors.any fun other =>
      other.role = .canceller && other.owner = actor.owner && other.stage = .cancelling) then
    session.setStage index actor .done
  else session

/-- The event moves this actor. -/
def actorOf (session : Session) : Event → Option Actor
  | .request _ _ | .shutdown => none
  | .advance index | .refuse index | .spawnCancellation index _ | .abort index =>
    session.actors[index]?

def step (maximum : ℕ) (session : Session) (event : Event) : Session :=
  match event, session.actorOf event with
  | .request id message, _ => session.request id message
  | .shutdown, _ =>
    session.spawn ⟨.supervisor, ⟨"", session.serial⟩, "", .routing .closeStore⟩
  | .advance index, some actor => session.advance maximum index actor
  | .refuse index, some actor =>
    if actor.stage = .routing .execute then session.leave index actor else session
  | .spawnCancellation _ id, some actor =>
    if actor.stage = .closing then session.cancelOne id else session
  | .abort index, some actor => session.abort index actor
  | _, none => session

end Session

end Runtime
