import Catalyrst.Lib.Instances
import Catalyrst.Lib.Machine

/-!
# Streams over a transport

A stream of messages from one end of a transport to the other. The sending half sends one
message and waits until the receiving half acknowledges it; the receiving half acknowledges a
message when its consumer asks for it. Every packet that arrives is handled in a task of its own,
so packets may be handled in any order. Other streams share the transport: their packets carry
other message numbers. A server that cannot send, or whose procedure gives an error in place of
messages, tries to tell the client so.
-/

namespace Catalyrst.Drpc

open Catalyrst.Lib

/-! ### Message identifiers -/

inductive RpcMessageTypes where
  | empty
  | request
  | response
  | streamMessage
  | streamAck
  | createPort
  | createPortResponse
  | requestModule
  | requestModuleResponse
  | remoteErrorResponse
  | destroyPort
  | serverReady
deriving DecidableEq, Repr

namespace RpcMessageTypes

def toU32 : RpcMessageTypes → ℕ
  | empty => 0
  | request => 1
  | response => 2
  | streamMessage => 3
  | streamAck => 4
  | createPort => 5
  | createPortResponse => 6
  | requestModule => 7
  | requestModuleResponse => 8
  | remoteErrorResponse => 9
  | destroyPort => 10
  | serverReady => 11

def tryFrom (value : ℕ) : Option RpcMessageTypes :=
  match value with
  | 0 => some empty
  | 1 => some request
  | 2 => some response
  | 3 => some streamMessage
  | 4 => some streamAck
  | 5 => some createPort
  | 6 => some createPortResponse
  | 7 => some requestModule
  | 8 => some requestModuleResponse
  | 9 => some remoteErrorResponse
  | 10 => some destroyPort
  | 11 => some serverReady
  | _ => none

theorem tryFrom_toU32 (t : RpcMessageTypes) : tryFrom t.toU32 = some t := by
  cases t <;> rfl

theorem toU32_lt (t : RpcMessageTypes) : t.toU32 < 16 := by
  cases t <;> decide

end RpcMessageTypes

/-- The type in the four bits above the number's twenty-seven. -/
def buildMessageIdentifier (messageType messageNumber : ℕ) : ℕ :=
  ((messageType &&& 0xf) <<< 27) ||| (messageNumber &&& 0x07ffffff)

def parseMessageIdentifier (value : ℕ) : ℕ × ℕ :=
  ((value >>> 27) &&& 0xf, value &&& 0x07ffffff)

theorem parse_build (messageType messageNumber : ℕ) :
    parseMessageIdentifier (buildMessageIdentifier messageType messageNumber) =
      (messageType % 16, messageNumber % 2 ^ 27) := by
  have htype : ∀ n : ℕ, n &&& 0xf = n % 16 := fun n => Nat.and_two_pow_sub_one_eq_mod n 4
  have hnumber : ∀ n : ℕ, n &&& 0x07ffffff = n % 2 ^ 27 := fun n =>
    Nat.and_two_pow_sub_one_eq_mod n 27
  have hlt : messageNumber % 2 ^ 27 < 2 ^ 27 := Nat.mod_lt _ (by norm_num)
  have hlt' : messageType % 16 < 16 := Nat.mod_lt _ (by norm_num)
  rw [parseMessageIdentifier, buildMessageIdentifier]
  simp only [htype, hnumber]
  rw [← Nat.shiftLeft_add_eq_or_of_lt hlt, Nat.shiftLeft_eq, Nat.shiftRight_eq_div_pow]
  congr 1 <;> omega

/-- The type and the number of a packet. -/
def parseHeader (messageIdentifier : ℕ) : Option (RpcMessageTypes × ℕ) :=
  (RpcMessageTypes.tryFrom (parseMessageIdentifier messageIdentifier).1).map fun t =>
    (t, (parseMessageIdentifier messageIdentifier).2)

theorem parseHeader_build (t : RpcMessageTypes) {n : ℕ} (hn : n < 2 ^ 27) :
    parseHeader (buildMessageIdentifier t.toU32 n) = some (t, n) := by
  rw [parseHeader, parse_build, Nat.mod_eq_of_lt t.toU32_lt, Nat.mod_eq_of_lt hn,
    RpcMessageTypes.tryFrom_toU32]
  rfl

/-! ### Packets -/

abbrev Bytes := List (Fin 256)

structure StreamMessage where
  messageIdentifier : ℕ
  portId : ℕ
  sequenceId : ℕ
  payload : Bytes
  closed : Bool
  ack : Bool
deriving DecidableEq

/-- The port of a stream and the number of the request that opened it. -/
structure StreamId where
  portId : ℕ
  messageNumber : ℕ
deriving DecidableEq, Repr

namespace StreamId

variable (i : StreamId)

/-- What `send_streams_through_transport` sends for an item. -/
def item (sequenceId : ℕ) (payload : Bytes) : StreamMessage where
  messageIdentifier := buildMessageIdentifier RpcMessageTypes.streamMessage.toU32 i.messageNumber
  portId := i.portId
  sequenceId := sequenceId
  payload := payload
  closed := false
  ack := false

/-- What `close_stream` sends. -/
def close (sequenceId : ℕ) : StreamMessage where
  messageIdentifier := buildMessageIdentifier RpcMessageTypes.streamMessage.toU32 i.messageNumber
  portId := i.portId
  sequenceId := sequenceId
  payload := []
  closed := true
  ack := false

/-- What `StreamProtocol::next` sends. -/
def acknowledge (sequenceId : ℕ) : StreamMessage where
  messageIdentifier := buildMessageIdentifier RpcMessageTypes.streamAck.toU32 i.messageNumber
  portId := i.portId
  sequenceId := sequenceId
  payload := []
  closed := false
  ack := true

/-- What `send_remote_error` sends, as `StreamMessage::decode` reads it: the code of the error stands
in the field of the port, and its text in none. -/
def remoteError (errorCode : ℕ) : StreamMessage where
  messageIdentifier :=
    buildMessageIdentifier RpcMessageTypes.remoteErrorResponse.toU32 i.messageNumber
  portId := errorCode
  sequenceId := 0
  payload := []
  closed := false
  ack := false

end StreamId

/-- The code of `ServerError::UnexpectedErrorOnTransport`. -/
def unexpectedErrorOnTransport : ℕ := 5

/-- The key of `ack_listeners`: port, number and sequence. -/
def ackKey (m : StreamMessage) : ℕ × ℕ × ℕ :=
  (m.portId, (parseMessageIdentifier m.messageIdentifier).2, m.sequenceId)

/-! ### The two halves -/

inductive Phase where
  | pulling
  | sending (payload : Bytes)
  | awaiting
  | closing
  | done (closedByPeer : Bool)
  /-- A send or the procedure failed, and the client is to be told. -/
  | reporting (errorCode : ℕ)
  | failed
deriving DecidableEq

/-- What `Transport::send` comes to. -/
inductive Sent where
  | delivered
  | failed
  | closed
deriving DecidableEq

/-- The entry of the stream in `listeners`. -/
inductive Listener where
  | absent
  | present
  | removed
deriving DecidableEq

/-- A stream, what its generator yields, and whether the receiving half is the client's. -/
structure Ends where
  id : StreamId
  items : List Bytes
  toClient : Bool

structure Stream where
  phase : Phase
  /-- The items sent so far; the sequence number is this number as a `u32` that wraps. -/
  sent : ℕ
  ackListener : Option (ℕ × ℕ × ℕ)
  /-- What the channel of the acknowledgement holds. -/
  oneshot : Option StreamMessage
  /-- Packets on the way to the receiving half. -/
  forward : List StreamMessage
  /-- Packets on the way to the sending half. -/
  back : List StreamMessage
  listener : Listener
  /-- What the handler of packets passed on and `process_messages` has not read. -/
  inbox : List (RpcMessageTypes × StreamMessage)
  inboxClosed : Bool
  /-- What the generator holds. -/
  channel : List Bytes
  lastReceivedSequenceId : ℕ
  /-- The item that `next` has taken and is acknowledging. -/
  acking : Option Bytes
  cancelled : Bool
  /-- `next` has returned `None`. -/
  ended : Bool
  /-- What `next` has returned. -/
  received : List Bytes
deriving DecidableEq

def sequenceNumber (n : ℕ) : ℕ := n % 2 ^ 32

namespace Stream

def opened : Stream where
  phase := .pulling
  sent := 0
  ackListener := none
  oneshot := none
  forward := []
  back := []
  listener := .absent
  inbox := []
  inboxClosed := false
  channel := []
  lastReceivedSequenceId := 0
  acking := none
  cancelled := false
  ended := false
  received := []

inductive Act where
  | pull
  | endOfItems
  /-- The procedure gives an error in place of a generator. -/
  | procedureError (errorCode : ℕ)
  | send (result : Sent)
  | resume
  | sendClose (delivered : Bool)
  | sendError (delivered : Bool)
  | acknowledged (i : ℕ)
  | register
  | deliver (i : ℕ)
  | process
  | next
  | ack (delivered : Bool)
  | cancelNext
  /-- The consumer drops its generator. -/
  | abandon
  | unregister
  /-- A packet of another stream, to the receiving half or back. -/
  | foreign (back : Bool) (m : StreamMessage)
deriving DecidableEq

variable (e : Ends) (s : Stream)

/-- The listener that a packet is for: the server looks one up for stream messages only. -/
def forListener (m : StreamMessage) : Option RpcMessageTypes :=
  match parseHeader m.messageIdentifier with
  | some (t, n) =>
    if n = e.id.messageNumber ∧ (e.toClient ∨ t = .streamMessage) then some t else none
  | none => none

/-- Whether `message_acknowledged_by_peer` reads a packet: the server calls it for acknowledgements
only, the client for whatever no listener waits for. -/
def isAcknowledgement (m : StreamMessage) : Bool :=
  match parseHeader m.messageIdentifier with
  | some (t, _) =>
    if e.toClient then decide (t = .streamAck)
    else decide (t ≠ .remoteErrorResponse ∧ t ≠ .empty ∧ t ≠ .serverReady)
  | none => false

def isForeign (m : StreamMessage) : Bool :=
  decide ((parseMessageIdentifier m.messageIdentifier).2 ≠ e.id.messageNumber)

def acknowledged (m : StreamMessage) : Stream :=
  if isAcknowledgement e m ∧ s.ackListener = some (ackKey m) then
    { s with ackListener := none, oneshot := some m }
  else s

def deliver (m : StreamMessage) : Stream :=
  match forListener e m with
  | some t =>
    if s.listener = .present ∧ s.inboxClosed = false then { s with inbox := s.inbox ++ [(t, m)] }
    else s
  | none => s

def processMessage (t : RpcMessageTypes) (m : StreamMessage) : Stream :=
  if t = .streamMessage then
    if m.closed then { s with cancelled := true, inboxClosed := true }
    else if s.ended then s
    else { s with channel := s.channel ++ [m.payload] }
  else if t = .remoteErrorResponse then { s with cancelled := true, inboxClosed := true }
  else s

/-- The phase after a send that failed: only a server reports it. -/
def failure : Phase := if e.toClient then .reporting unexpectedErrorOnTransport else .failed

def step : Act → Option Stream
  | .pull =>
    match s.phase, e.items[s.sent]? with
    | .pulling, some payload =>
      some { s with
        phase := .sending payload
        sent := s.sent + 1
        ackListener := some (ackKey (e.id.item (sequenceNumber (s.sent + 1)) payload)) }
    | _, _ => none
  | .endOfItems =>
    if s.phase = .pulling ∧ s.sent = e.items.length then some { s with phase := .closing } else none
  | .procedureError errorCode =>
    if s.phase = .pulling ∧ s.sent = 0 ∧ e.toClient then
      some { s with phase := .reporting errorCode }
    else none
  | .send result =>
    match s.phase with
    | .sending payload =>
      match result with
      | .delivered =>
        some { s with
          phase := .awaiting
          forward := s.forward ++ [e.id.item (sequenceNumber s.sent) payload] }
      | .failed => some { s with phase := failure e, ackListener := none }
      | .closed => some { s with phase := .failed, ackListener := none }
    | _ => none
  | .resume =>
    match s.phase, s.oneshot with
    | .awaiting, some m =>
      if m.ack then some { s with phase := .pulling, oneshot := none }
      else if m.closed then some { s with phase := .done true, oneshot := none }
      else some { s with phase := .pulling, oneshot := none }
    | _, _ => none
  | .sendClose delivered =>
    if s.phase = .closing then
      if delivered then
        some { s with
          phase := .done false
          forward := s.forward ++ [e.id.close (sequenceNumber s.sent)] }
      else some { s with phase := failure e }
    else none
  | .sendError delivered =>
    match s.phase with
    | .reporting errorCode =>
      if delivered then
        some { s with phase := .failed, forward := s.forward ++ [e.id.remoteError errorCode] }
      else some { s with phase := .failed }
    | _ => none
  | .acknowledged i =>
    (s.back[i]?).map fun m => acknowledged e { s with back := s.back.eraseIdx i } m
  | .register => if s.listener = .absent then some { s with listener := .present } else none
  | .deliver i =>
    (s.forward[i]?).map fun m => deliver e { s with forward := s.forward.eraseIdx i } m
  | .process =>
    match s.inbox with
    | (t, m) :: inbox => some (processMessage { s with inbox := inbox } t m)
    | [] => none
  | .next =>
    match s.channel with
    | payload :: channel =>
      if s.ended = false ∧ s.acking = none then
        some { s with
          channel := channel
          lastReceivedSequenceId := s.lastReceivedSequenceId + 1
          acking := some payload }
      else none
    | [] => none
  | .ack delivered =>
    match s.acking with
    | some payload =>
      if delivered then
        some { s with
          acking := none
          back := s.back ++ [e.id.acknowledge (sequenceNumber s.lastReceivedSequenceId)]
          received := s.received ++ [payload] }
      else some { s with acking := none, ended := true }
    | none => none
  | .cancelNext =>
    if s.cancelled ∧ s.ended = false ∧ s.acking = none then some { s with ended := true } else none
  | .abandon => if s.ended = false ∧ s.acking = none then some { s with ended := true } else none
  | .unregister =>
    if s.cancelled ∧ s.listener = .present then some { s with listener := .removed, inbox := [] }
    else none
  | .foreign back m =>
    if isForeign e m then
      if back then some { s with back := s.back ++ [m] }
      else some { s with forward := s.forward ++ [m] }
    else none

end Stream

end Catalyrst.Drpc
