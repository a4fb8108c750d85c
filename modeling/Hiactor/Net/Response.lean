import Hiactor.Core.Shard
import Hiactor.Net.Wire

/-!
# Responses

Model of the way of a response: `make_response_message` on the responder as the generated
`do_work` calls it, the transport to the shard of the request, `root_actor_group::receive` and
`actor_client::send_and_wait`. A message of the same machine is the object that the responder
made; one from another machine has passed through `serialize` and `deserialize`.

The consumers cast a message to the type that they expect its payload to have. A cast of a message
that has another payload has no result.
-/

namespace Hiactor

open Lib

/-- The values of `message_type`. -/
def MessageType.code : MessageType → UInt8
  | .user => 0x01
  | .response => 0x02
  | .exceptionResponse => 0x03
  | .forceStop => 0x04
  | .peaceStop => 0x08

/-- `simple_string`: the bytes at `str`, and the memory from the member `str` itself on. -/
structure SimpleString where
  text : List UInt8
  memory : Nat → UInt8

/-- `simple_string::dump_to`: `memcpy` copies from the address of the member `str`. -/
def SimpleString.dumpTo (s : SimpleString) : List Buffer :=
  [(List.range s.text.length).map s.memory]

/-- A type of results with the buffers that `dump_to` pushes, and a `load_from` that undoes it. -/
structure Serializable (α : Type) where
  dumpTo : α → List Buffer
  loadFrom : SerializableQueue → α
  load_dump : ∀ v qu, qu.popAll = dumpTo v → loadFrom qu = v

/-- The payloads of responses. -/
inductive Payload (α : Type) where
  | value (data : α)
  | string (data : SimpleString)
  | queue (data : SerializableQueue)

/-- A message object. -/
structure PayloadMessage (α : Type) where
  hdr : MessageHeader
  payload : Payload α

/-- What the future of a method, or that of a request, resolves to. -/
inductive Outcome (α : Type) where
  | value (v : α)
  | exception (text : List UInt8)
  deriving DecidableEq, Repr

/-- Where the responder runs, seen from the shard of the request. -/
inductive Place where
  | sameShard
  | sameMachine
  | otherMachine
  deriving DecidableEq, Repr

theorem length_shardIdData (shardId : UInt32) :
    (overwrite Junk.zero.data 0 (leBytes GShardIdInBytes shardId.toNat)).length =
      GMaxAddrLength := by
  rw [length_overwrite (by simp [Junk.zero.size_eq, GShardIdInBytes, GMaxAddrLength]),
    Junk.zero.size_eq]

theorem gShardIdInBytes_lt : GShardIdInBytes < 256 := by simp [GShardIdInBytes]

/-- The header of `make_response_message`. -/
def responseHeader (shardId prId : UInt32) (type : MessageType) : MessageHeader where
  addr :=
    { length := GShardIdInBytes
      data := overwrite Junk.zero.data 0 (leBytes GShardIdInBytes shardId.toNat)
      size_eq := length_shardIdData shardId }
  addr_length_lt := gShardIdInBytes_lt
  behaviorTid := 0
  srcShardId := 0
  prId := prId
  mType := type.code
  fromNetwork := false

section

variable {α : Type} (type : Serializable α)

/-- The response of the generated `do_work`; `memory` is that of the string of an exception. -/
def respond (shardId prId : UInt32) (memory : Nat → UInt8) : Outcome α → PayloadMessage α
  | .value v => ⟨responseHeader shardId prId .response, .value v⟩
  | .exception text =>
    ⟨responseHeader shardId prId .exceptionResponse, .string ⟨text, memory⟩⟩

/-- What `serialize` writes of a message; that of a queue writes nothing. -/
def PayloadMessage.out (msg : PayloadMessage α) (padding : HeaderPadding) : Option OutMessage :=
  match msg.payload with
  | .value v => some ⟨msg.hdr, padding, some (type.dumpTo v)⟩
  | .string s => some ⟨msg.hdr, padding, some s.dumpTo⟩
  | .queue _ => none

/-- The message object that arrives on the shard of the request. -/
def transport (padding : HeaderPadding) (msg : PayloadMessage α) :
    Place → Option (PayloadMessage α)
  | .sameShard | .sameMachine => some msg
  | .otherMachine => do
    let out ← msg.out type padding
    let (got, _) ← receiveOne { bytes := out.serialize }
    let got ← got
    return ⟨got.hdr, .queue got.data⟩

/-- `root_actor_group::receive` for a response whose promise is active: the value or the exception
that the promise is set to. -/
def receiveResponse (msg : PayloadMessage α) : Option (PayloadMessage α ⊕ List UInt8) :=
  if msg.hdr.mType = MessageType.response.code then some (.inl msg)
  else if msg.hdr.mType = MessageType.exceptionResponse.code then
    match msg.payload with
    | .string exContent => some (.inr exContent.text)
    | _ => none
  else none

/-- `send_and_wait`, after the future of the promise is resolved. -/
def waitResult : PayloadMessage α ⊕ List UInt8 → Option (Outcome α)
  | .inr text => some (.exception text)
  | .inl msg =>
    if msg.hdr.fromNetwork then
      match msg.payload with
      | .queue data => some (.value (type.loadFrom data))
      | _ => none
    else
      match msg.payload with
      | .value data => some (.value data)
      | _ => none

/-- What the future of `request` resolves to. -/
def requestResult (shardId prId : UInt32) (memory : Nat → UInt8)
    (padding : HeaderPadding) (place : Place) (outcome : Outcome α) : Option (Outcome α) := do
  let msg ← transport type padding (respond shardId prId memory outcome) place
  let resolved ← receiveResponse msg
  waitResult type resolved

end

end Hiactor
