import Reframe.Lib.Holdings
import Reframe.Transport.Config

/-! The connections of a server: calls of `send` at their awaits, the bounded queue, the writer, the
reader's admissions and the handlers. Every step is one that some task can take next; a step that is
not possible in a state does nothing. -/
namespace Transport
open Holdings (held)

/-- How far a call of `send` or `try_send` has come. -/
inductive Stage where
  /-- The encoded length was checked. -/
  | checked
  /-- It has a place in the queue. -/
  | reserved
  /-- And the bytes of its connection. -/
  | budgeted
  /-- And those of the server. -/
  | ready
  deriving DecidableEq, Repr

structure Sending where
  payload : List UInt8
  stage : Stage
  deriving DecidableEq, Repr

namespace Sending

def places (sending : Sending) : ℕ :=
  match sending.stage with
  | .checked => 0
  | .reserved | .budgeted | .ready => 1

def connectionBytes (sending : Sending) : ℕ :=
  match sending.stage with
  | .checked | .reserved => 0
  | .budgeted | .ready => sending.payload.length

def aggregateBytes (sending : Sending) : ℕ :=
  match sending.stage with
  | .checked | .reserved | .budgeted => 0
  | .ready => sending.payload.length

end Sending

/-- The frame that the writer is writing, and how many of its bytes it has written. -/
structure Writing where
  payload : List UInt8
  written : ℕ
  deriving DecidableEq, Repr

/-- What `write_frame` writes. -/
def frameOf (payload : List UInt8) : List UInt8 := putU32 payload.length ++ payload

structure Connection where
  queueOpen : Bool
  budgetOpen : Bool
  /-- The receiver was not dropped. -/
  receiving : Bool
  /-- There is a sender. -/
  senders : Bool
  sendings : List Sending
  queue : List (List UInt8)
  byteBudget : ℕ
  writing : Option Writing
  poisoned : Bool
  /-- The writer writes nothing more. -/
  ended : Bool
  /-- It came to the end of the queue. -/
  drained : Bool
  /-- What the peer was sent. -/
  wire : List UInt8
  /-- The payloads of the calls that have succeeded, in the order in which they were queued. -/
  sent : List (List UInt8)
  /-- The connection still reads. -/
  reading : Bool
  /-- The reader was admitted for the frame it is reading. -/
  admitted : Bool
  /-- The handlers that were not joined, and those of them that still run. -/
  handlers : ℕ
  running : ℕ
  /-- The task of the connection has returned. -/
  closed : Bool
  deriving DecidableEq, Repr

/-- The budgets that all connections share. -/
structure Pools where
  inbound : ℕ
  aggregate : ℕ
  deriving DecidableEq, Repr

inductive ConnectionAction where
  | send (payload : List UInt8)
  | reserve (call : ℕ)
  | acquireBytes (call : ℕ)
  | acquireAggregate (call : ℕ)
  | enqueue (call : ℕ)
  /-- The call fails, or its future is dropped. -/
  | abandon (call : ℕ)
  | receive
  | write (count : ℕ)
  | finish
  /-- A write fails or runs out of time; `poisons` unless the time of the whole drain is over. -/
  | fail (poisons : Bool)
  | closeQueue
  | closeBudget
  /-- The time of the drain is over between two frames. -/
  | elapse
  | stop
  | dropReceiver
  | dropSenders
  | acquireInbound
  | dispatch
  /-- The frame that is being read is given up. -/
  | resetFrame
  | dropReader
  | finishHandler
  | joinHandler
  | close
  deriving DecidableEq, Repr

namespace Connection

def new (config : TransportConfig) : Connection where
  queueOpen := true
  budgetOpen := true
  receiving := true
  senders := true
  sendings := []
  queue := []
  byteBudget := config.outboundByteBudget
  writing := none
  poisoned := false
  ended := false
  drained := false
  wire := []
  sent := []
  reading := true
  admitted := false
  handlers := 0
  running := 0
  closed := false

/-- The places of the queue that are taken. -/
def places (connection : Connection) : ℕ :=
  held Sending.places connection.sendings + connection.queue.length

/-- The permits of the frames that no call holds any more. -/
def frameBytes (connection : Connection) : ℕ :=
  held List.length connection.queue + held (fun writing => writing.payload.length)
    connection.writing.toList

def connectionBytes (connection : Connection) : ℕ :=
  held Sending.connectionBytes connection.sendings + connection.frameBytes

def aggregateBytes (connection : Connection) : ℕ :=
  held Sending.aggregateBytes connection.sendings + connection.frameBytes

/-- The admissions that the reader and the handlers hold. -/
def admissions (connection : Connection) : ℕ :=
  connection.running + if connection.admitted then 1 else 0

def advance (connection : Connection) (call : ℕ) (payload : List UInt8) (stage : Stage) :
    Connection :=
  { connection with sendings := connection.sendings.set call ⟨payload, stage⟩ }

/-- The permits of the frame that was being written are back; the writer is done. -/
def endWriter (connection : Connection) (writing : Writing) (poisoned : Bool) : Connection :=
  { connection with
    byteBudget := connection.byteBudget + writing.payload.length
    writing := none
    poisoned := poisoned
    ended := true }

/-- The frames in the queue are dropped. -/
def dropQueue (connection : Connection) : Connection :=
  { connection with
    byteBudget := connection.byteBudget + held List.length connection.queue
    queue := [] }

section

variable (config : TransportConfig)

/-- `write_frame` on the next frame of the queue, up to its first byte. -/
def receive (pools : Pools) (connection : Connection) (payload : List UInt8)
    (queue : List (List UInt8)) : Pools × Connection :=
  let connection := { connection with queue := queue, writing := some ⟨payload, 0⟩ }
  match validateLength payload.length config.maxFrameSize with
  | .error _ =>
    ({ pools with aggregate := pools.aggregate + payload.length },
      connection.endWriter ⟨payload, 0⟩ connection.poisoned)
  | .ok () =>
    if connection.poisoned then
      ({ pools with aggregate := pools.aggregate + payload.length },
        connection.endWriter ⟨payload, 0⟩ true)
    else (pools, connection)

/-- The steps of the calls and of the writer. -/
def stepOut (pools : Pools) (connection : Connection) :
    ConnectionAction → Option (Pools × Connection)
  | .send payload =>
    if connection.senders ∧ payload.length ≤ config.maxFrameSize ∧ payload.length < 2 ^ 32 then
      some (pools, { connection with sendings := connection.sendings ++ [⟨payload, .checked⟩] })
    else none
  | .reserve call =>
    match connection.sendings[call]? with
    | some ⟨payload, .checked⟩ =>
      if connection.queueOpen ∧ connection.places < config.outboundCapacity then
        some (pools, connection.advance call payload .reserved)
      else none
    | _ => none
  | .acquireBytes call =>
    match connection.sendings[call]? with
    | some ⟨payload, .reserved⟩ =>
      if connection.budgetOpen ∧ payload.length ≤ connection.byteBudget then
        some (pools, { connection.advance call payload .budgeted with
          byteBudget := connection.byteBudget - payload.length })
      else none
    | _ => none
  | .acquireAggregate call =>
    match connection.sendings[call]? with
    | some ⟨payload, .budgeted⟩ =>
      if payload.length ≤ pools.aggregate then
        some ({ pools with aggregate := pools.aggregate - payload.length },
          connection.advance call payload .ready)
      else none
    | _ => none
  | .enqueue call =>
    match connection.sendings[call]? with
    | some ⟨payload, .ready⟩ =>
      some (pools, { connection with
        sendings := connection.sendings.eraseIdx call
        queue := connection.queue ++ [payload]
        sent := connection.sent ++ [payload] })
    | _ => none
  | .abandon call =>
    match connection.sendings[call]? with
    | some sending =>
      some ({ pools with aggregate := pools.aggregate + sending.aggregateBytes },
        { connection with
          sendings := connection.sendings.eraseIdx call
          byteBudget := connection.byteBudget + sending.connectionBytes })
    | none => none
  | .receive =>
    match connection.writing, connection.queue with
    | none, payload :: queue =>
      if connection.ended then none else some (receive config pools connection payload queue)
    | _, _ => none
  | .write count =>
    match connection.writing with
    | some ⟨payload, written⟩ =>
      if written + count ≤ (frameOf payload).length then
        some (pools, { connection with
          wire := connection.wire ++ ((frameOf payload).drop written).take count
          writing := some ⟨payload, written + count⟩ })
      else none
    | none => none
  | .finish =>
    match connection.writing with
    | some ⟨payload, written⟩ =>
      if written = (frameOf payload).length then
        some ({ pools with aggregate := pools.aggregate + payload.length },
          { connection with
            byteBudget := connection.byteBudget + payload.length
            writing := none })
      else none
    | none => none
  | .fail poisons =>
    match connection.writing with
    | some writing =>
      some ({ pools with aggregate := pools.aggregate + writing.payload.length },
        connection.endWriter writing (connection.poisoned || poisons))
    | none => none
  | .closeQueue =>
    if connection.writing = none then some (pools, { connection with queueOpen := false }) else none
  | .closeBudget =>
    if connection.writing = none ∧ (connection.queueOpen = false ∨ connection.ended) then
      some (pools, { connection with budgetOpen := false })
    else none
  | .elapse =>
    if connection.ended = false ∧ connection.writing = none ∧ connection.queueOpen = false then
      some (pools, { connection with ended := true })
    else none
  -- `recv` gives `None`: no frame is queued, and none can come any more.
  | .stop =>
    if connection.ended = false ∧ connection.writing = none ∧ connection.queue = [] ∧
        (connection.senders = false ∨
          connection.queueOpen = false ∧ held Sending.places connection.sendings = 0) then
      some (pools, { connection with ended := true, drained := true })
    else none
  | .dropReceiver =>
    if connection.ended ∧ connection.budgetOpen = false then
      some ({ pools with aggregate := pools.aggregate + held List.length connection.queue },
        { connection.dropQueue with queueOpen := false, receiving := false })
    else none
  -- The channel goes with the last of its two sides, and what was queued behind the receiver with it.
  | .dropSenders =>
    if connection.sendings = [] then
      if connection.receiving then some (pools, { connection with senders := false })
      else
        some ({ pools with aggregate := pools.aggregate + held List.length connection.queue },
          { connection.dropQueue with senders := false })
    else none
  | _ => none

/-- The steps of the reader, of the handlers and of the connection's task. -/
def stepIn (pools : Pools) (connection : Connection) :
    ConnectionAction → Option (Pools × Connection)
  | .acquireInbound =>
    if connection.reading ∧ connection.admitted = false ∧ config.maxFrameSize ≤ pools.inbound then
      some ({ pools with inbound := pools.inbound - config.maxFrameSize },
        { connection with admitted := true })
    else none
  | .dispatch =>
    if connection.reading ∧ connection.admitted ∧ connection.handlers < config.maxInFlight then
      some (pools, { connection with
        admitted := false
        handlers := connection.handlers + 1
        running := connection.running + 1 })
    else none
  | .resetFrame =>
    if connection.admitted then
      some ({ pools with inbound := pools.inbound + config.maxFrameSize },
        { connection with admitted := false })
    else none
  | .dropReader =>
    if connection.admitted then none else some (pools, { connection with reading := false })
  | .finishHandler =>
    if 0 < connection.running then
      some ({ pools with inbound := pools.inbound + config.maxFrameSize },
        { connection with running := connection.running - 1 })
    else none
  | .joinHandler =>
    if connection.running < connection.handlers then
      some (pools, { connection with handlers := connection.handlers - 1 })
    else none
  | .close =>
    if connection.reading = false ∧ connection.handlers = 0 ∧ connection.ended then
      some (pools, { connection with closed := true })
    else none
  | _ => none

def step (pools : Pools) (connection : Connection) (action : ConnectionAction) :
    Option (Pools × Connection) :=
  match stepOut config pools connection action with
  | some next => some next
  | none => stepIn config pools connection action

end

end Connection

structure Server where
  pools : Pools
  connections : List Connection
  deriving DecidableEq, Repr

inductive Action where
  | accept
  | on (connection : ℕ) (action : ConnectionAction)
  deriving DecidableEq, Repr

namespace Server

variable (config : TransportConfig)

def new : Server := ⟨⟨config.inboundByteBudget, config.aggregateOutboundByteBudget⟩, []⟩

/-- The connections whose tasks were not joined. -/
def active (server : Server) : ℕ := (server.connections.filter fun c => !c.closed).length

def step (server : Server) : Action → Server
  | .accept =>
    if server.active < config.maxConnections then
      { server with connections := server.connections ++ [.new config] }
    else server
  | .on i action =>
    match server.connections[i]? with
    | none => server
    | some connection =>
      match connection.step config server.pools action with
      | none => server
      | some (pools, connection) => ⟨pools, server.connections.set i connection⟩

end Server

end Transport
