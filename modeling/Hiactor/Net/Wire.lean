import Hiactor.Lib.Bytes
import Hiactor.Core.Address
import Hiactor.Net.SerializableQueue

/-!
# Messages on a connection

Model of `actor_message::header` and `serialize` (`core/actor_message.hh`), and of
`network_delegater::deserialize` and the loop of `run_receivers` (`net/connection.cc`). A frame is
the number of bytes that follow, the header as it lies in memory, the number of the buffers of the
payload, and for each buffer its length and its bytes. Integers are little-endian.

`deserialize` follows a pointer into the buffer that it is given; a read outside of this buffer has
no result. The end of the input comes when the peer closes the connection.
-/

namespace Hiactor

open Lib

/-- The part of `actor_message::header` that a constructor sets; `m_type` is the byte of a
`message_type`. The length of an address is one byte. -/
structure MessageHeader where
  addr : Address
  addr_length_lt : addr.length < 256
  behaviorTid : UInt8
  srcShardId : UInt32
  prId : UInt32
  mType : UInt8
  fromNetwork : Bool

/-- The bytes of a header that no member takes. -/
structure HeaderPadding where
  first : UInt8 × UInt8
  second : UInt8 × UInt8
  deriving DecidableEq, Repr

/-- `sizeof(actor_message::header)`. -/
def headerSize : Nat := 68

/-- A header as it lies in memory. -/
def MessageHeader.bytes (hdr : MessageHeader) (padding : HeaderPadding) : List UInt8 :=
  [UInt8.ofNat hdr.addr.length] ++ hdr.addr.data ++
    [hdr.behaviorTid, padding.first.1, padding.first.2] ++
    leBytes 4 hdr.srcShardId.toNat ++ leBytes 4 hdr.prId.toNat ++
    [hdr.mType, if hdr.fromNetwork then 1 else 0, padding.second.1, padding.second.2]

/-- `actor_message_without_payload`, or `actor_message_with_payload` with the buffers that
`data.dump_to` pushes. -/
structure OutMessage where
  hdr : MessageHeader
  padding : HeaderPadding
  payload : Option (List Buffer)

/-- The loop of `serialize` over the buffers of the payload, at most `rounds` times. -/
def writePayload : Nat → SerializableQueue → List UInt8
  | 0, _ => []
  | rounds + 1, su =>
    if su.empty then []
    else leBytes 4 su.pop.1.length ++ su.pop.1 ++ writePayload rounds su.pop.2

namespace OutMessage

variable (msg : OutMessage)

/-- The queue after `data.dump_to(su)`. -/
def dump (bufs : List Buffer) : SerializableQueue := bufs.foldl SerializableQueue.push {}

/-- `serialize`. -/
def serialize : List UInt8 :=
  match msg.payload with
  | none => leBytes 4 (headerSize + 4) ++ msg.hdr.bytes msg.padding ++ leBytes 4 0
  | some bufs =>
    let su := dump bufs
    let msgLen := UInt32.ofNat headerSize + 4 + su.size * 4 + su.getBufferSize
    leBytes 4 msgLen.toNat ++ msg.hdr.bytes msg.padding ++ leBytes 4 su.size.toNat ++
      writePayload su.size.toNat su

/-- The buffers of the payload. -/
def buffers : List Buffer := msg.payload.getD []

/-- The number of bytes of a frame after its length. -/
def encodedLength : Nat := headerSize + 4 + (msg.buffers.map fun buf => 4 + buf.length).sum

end OutMessage

/-- `actor_message_with_payload<serializable_queue>`. -/
structure NetworkMessage where
  hdr : MessageHeader
  data : SerializableQueue

/-- The header at the start of a buffer. The constructor for messages from the network sets
`from_network`. -/
def readHeader (buf : List UInt8) : Option MessageHeader :=
  if inside : headerSize ≤ buf.length then
    have inside : 68 ≤ buf.length := inside
    some {
      addr := {
        length := buf[0].toNat
        data := slice buf 1 GMaxAddrLength
        size_eq := length_slice (Nat.le_trans (by decide) inside) }
      addr_length_lt := buf[0].toNat_lt
      behaviorTid := buf[53]
      srcShardId := UInt32.ofNat (leNat (slice buf 56 4))
      prId := UInt32.ofNat (leNat (slice buf 60 4))
      mType := buf[64]
      fromNetwork := true }
  else none

/-- The loop of `deserialize`; `ptr` is what follows the pointer in the buffer. -/
def readPayload : Nat → List UInt8 → SerializableQueue → Option SerializableQueue
  | 0, _, qu => some qu
  | rounds + 1, ptr, qu =>
    if 4 ≤ ptr.length then
      let len := leNat (ptr.take 4)
      if 4 + len ≤ ptr.length then
        readPayload rounds (ptr.drop ((len + 4) % 2 ^ 32)) (qu.push (slice ptr 4 len))
      else none
    else none

/-- `network_delegater::deserialize`. -/
def deserialize (buf : List UInt8) : Option NetworkMessage := do
  let hdr ← readHeader buf
  guard (headerSize + 4 ≤ buf.length)
  let nrPayload := leNat (slice buf headerSize 4)
  let qu ← readPayload nrPayload (buf.drop (headerSize + 4)) {}
  return { hdr := hdr, data := qu.move }

/-- `seastar::input_stream`: the bytes up to the end of the connection, and whether a read has met
this end. -/
structure InputStream where
  bytes : List UInt8
  eof : Bool := false
  deriving DecidableEq, Repr

/-- `read_exactly`. -/
def InputStream.readExactly (input : InputStream) (n : Nat) : List UInt8 × InputStream :=
  (input.bytes.take n,
    { bytes := input.bytes.drop n, eof := input.eof || decide (input.bytes.length < n) })

/-- One round of the loop of `run_receivers` over a connection, with the message for `send`. -/
def receiveOne (input : InputStream) : Option (Option NetworkMessage × InputStream) :=
  let (buf, input) := input.readExactly 4
  if input.eof then some (none, input)
  else
    let nrBytes := leNat buf
    let (buf, input) := input.readExactly nrBytes
    (deserialize buf).map fun msg => (some msg, input)

/-- The loop of `run_receivers` over a connection, at most `rounds` times, with the messages
handed to `send`. -/
def receiveLoop : Nat → InputStream → Option (List NetworkMessage × InputStream)
  | 0, input => some ([], input)
  | rounds + 1, input =>
    if input.eof then some ([], input)
    else do
      let (msg, input) ← receiveOne input
      let (msgs, input) ← receiveLoop rounds input
      return (msg.toList ++ msgs, input)

/-- The whole loop: every round reads at least one byte or meets the end. -/
def runReceiver (input : InputStream) : Option (List NetworkMessage × InputStream) :=
  receiveLoop (input.bytes.length + 1) input

end Hiactor
