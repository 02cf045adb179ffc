import WalletToolbox.Lib.Runs

/-! # ArcSseClient and TaskArcSse

The Arcade server streams the status events of a wallet's transactions.
`ArcSseClient::connect` hands each of them to a channel of a hundred slots and remembers the id of
the last one, after which the server resumes when the connection is made again; `TaskArcSse` drains
the channel and processes what it has drained.
The server, the connection loop and the task take their steps in any order. -/

namespace WalletToolbox.ArcSse

open WalletToolbox.Lib

/-- `ArcSseEvent`. -/
structure ArcSseEvent where
  txid : String
  txStatus : String
  timestamp : String
  deriving DecidableEq, Repr

/-- A message of the server's log; an empty id is none. -/
structure Message where
  event : String
  data : String
  id : String
  deriving DecidableEq, Repr

/-- An event that the client has parsed, with the place of its message in the server's log. -/
structure Streamed where
  position : Nat
  event : ArcSseEvent
  deriving DecidableEq, Repr

/-- An open stream: the next message of the log, and the id of the last one that had any, which a
message without an id inherits. -/
structure Connection where
  next : Nat
  lastId : String
  deriving DecidableEq, Repr

/-- The capacity of the channel that `ArcSseClient::new` makes. -/
def channelCapacity : Nat := 100

structure State where
  log : List Message := []
  connection : Option Connection := none
  cancelled : Bool := false
  lastEventId : Option String := none
  channel : List Streamed := []
  pendingEvents : List Streamed := []
  /-- The events that `process_status_event` was called with. -/
  processed : List Streamed := []
  /-- The events that the channel refused, each with what it held then. -/
  dropped : List (Streamed × List Streamed) := []

section

-- Where the server begins for a client that sends no `Last-Event-ID` header.
variable (start : List Message → Nat)

/-- Where a stream begins: after the message that the `Last-Event-ID` header names, where the server
chooses without the header. -/
def resumeAt (log : List Message) : Option String → Nat
  | none => start log
  | some id => log.findIdx (·.id == id) + 1

/-- The server sends its whole log to a client that names no event. -/
def ReplaysLog : Prop := ∀ log, start log = 0

end

/-- `try_send`, with its error ignored. -/
def State.trySend (s : State) (e : Streamed) : State :=
  if s.channel.length < channelCapacity then { s with channel := s.channel ++ [e] }
  else { s with dropped := s.dropped ++ [(e, s.channel)] }

section

variable (start : List Message → Nat) (parse : String → Option ArcSseEvent)

/-- What `connect` does with a message of the stream. A message that is no status event, or one with
malformed data, leaves the id as it is. -/
def State.onMessage (s : State) (position : Nat) (msg : Message) (id : String) : State :=
  if msg.event = "status" then
    match parse msg.data with
    | some event =>
      let s := if id.isEmpty then s else { s with lastEventId := some id }
      s.trySend ⟨position, event⟩
    | none => s
  else
    s

/-- The next message of the stream arrives. -/
def State.deliver (s : State) (c : Connection) (msg : Message) : State :=
  let id := if msg.id.isEmpty then c.lastId else msg.id
  { s with connection := some ⟨c.next + 1, id⟩ }.onMessage parse c.next msg id

inductive Action where
  /-- The server logs a message. -/
  | publish (msg : Message)
  /-- The connection loop opens a stream. -/
  | connect
  /-- The stream hands over its next message. -/
  | deliver
  /-- The stream ends or fails. -/
  | disconnect
  /-- The cancellation token of the loop is set. -/
  | cancel
  /-- `TaskArcSse::async_setup`: a new client, with a new channel and no resume position. -/
  | asyncSetup
  /-- `TaskArcSse::trigger`: drain the channel. -/
  | trigger
  /-- `TaskArcSse::run_task`: process what was drained. -/
  | runTask

def Action.next : Action → State → State
  | .publish msg, s => { s with log := s.log ++ [msg] }
  | .connect, s => { s with connection := some ⟨resumeAt start s.log s.lastEventId, ""⟩ }
  | .deliver, s =>
    match s.connection with
    | none => s
    | some c =>
      match s.log[c.next]? with
      | none => s
      | some msg => s.deliver parse c msg
  | .disconnect, s => { s with connection := none }
  | .cancel, s => { s with connection := none, cancelled := true }
  | .asyncSetup, s =>
    { s with connection := none, cancelled := false, lastEventId := none, channel := [] }
  | .trigger, s => { s with channel := [], pendingEvents := s.pendingEvents ++ s.channel }
  | .runTask, s => { s with pendingEvents := [], processed := s.processed ++ s.pendingEvents }

/-- The server gives an id to one message only; the loop opens a stream when it has none and was not
cancelled. -/
def Action.Enabled : State → Action → Prop
  | s, .publish msg => msg.id = "" ∨ ∀ logged ∈ s.log, logged.id ≠ msg.id
  | s, .connect => s.connection = none ∧ s.cancelled = false
  | _, _ => True

/-- A task just set up, over a server with an empty log. -/
def stream : System State Action where
  init := {}
  Enabled := Action.Enabled
  next := Action.next start parse

instance (s : State) (a : Action) : Decidable ((stream start parse).Enabled s a) :=
  match a with
  | .publish msg => inferInstanceAs (Decidable (msg.id = "" ∨ ∀ logged ∈ s.log, logged.id ≠ msg.id))
  | .connect => inferInstanceAs (Decidable (s.connection = none ∧ s.cancelled = false))
  | .deliver | .disconnect | .cancel | .asyncSetup | .trigger | .runTask => isTrue trivial

end

end WalletToolbox.ArcSse
