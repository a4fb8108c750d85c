import Hiactor.Net.Delivery
import Hiactor.Net.Proofs.Wire

/-!
# What a connection carries

A connection carries bytes. When every message on it is short enough for the length of a frame, the
bytes between the two loops, wherever the loops stand, are the frames of some messages, and these
are what the receiver loop makes of them.
-/

namespace Hiactor

open Lib

/-! ## What is the same of a message before and after a connection -/

/-- The sender of a message and all that its receiver sees of it but `from_network`. -/
structure Letter where
  source : ShardOf
  addr : Address
  behaviorTid : UInt8
  srcShardId : UInt32
  prId : UInt32
  mType : UInt8
  payload : List Buffer

/-- The buffers of the payload. -/
def CarriedMessage.buffers : CarriedMessage → List Buffer
  | own msg => msg.buffers
  | network msg => msg.data.popAll

def Packet.letter (pkt : Packet) : Letter where
  source := pkt.source
  addr := pkt.msg.hdr.addr
  behaviorTid := pkt.msg.hdr.behaviorTid
  srcShardId := pkt.msg.hdr.srcShardId
  prId := pkt.msg.hdr.prId
  mType := pkt.msg.hdr.mType
  payload := pkt.msg.buffers

/-- A message that fits in a frame. -/
structure Parcel where
  source : ShardOf
  msg : OutMessage
  fits : msg.encodedLength < 2 ^ 32

def Parcel.packet (parcel : Parcel) : Packet := ⟨parcel.source, .own parcel.msg⟩

/-- The message is one that fits in a frame. -/
def Packet.Fits (pkt : Packet) : Prop := ∃ parcel : Parcel, parcel.packet = pkt

/-! ## Connections -/

def mark (source : ShardOf) (bytes : List UInt8) : List MarkedByte := bytes.map (·, source)

@[simp] theorem length_mark (source : ShardOf) (bytes : List UInt8) :
    (mark source bytes).length = bytes.length := List.length_map _

@[simp] theorem map_fst_mark (source : ShardOf) (bytes : List UInt8) :
    (mark source bytes).map (·.1) = bytes := by
  simp [mark, Function.comp_def]

theorem mark_append (source : ShardOf) (bytes more : List UInt8) :
    mark source (bytes ++ more) = mark source bytes ++ mark source more := List.map_append

/-- The messages that a receiver loop finds in the bytes of a connection, in at most `rounds`
rounds. -/
def packetsIn : Nat → List MarkedByte → List Packet
  | 0, _ => []
  | rounds + 1, b0 :: b1 :: b2 :: b3 :: rest =>
    let nrBytes := leNat [b0.1, b1.1, b2.1, b3.1]
    match deserialize ((rest.take nrBytes).map (·.1)) with
    | some msg => ⟨b0.2, .network msg⟩ :: packetsIn rounds (rest.drop nrBytes)
    | none => []
  | _ + 1, _ => []

namespace Connection

/-- The bytes that are popped by the sender loop and not yet handed on by the receiver loop. -/
def bytes (conn : Connection) : List MarkedByte :=
  conn.nrBytes.elim [] (fun (nrBytes, source) => mark source (leBytes 4 nrBytes)) ++
    conn.stream ++ conn.out

/-- The messages on a connection. -/
def packets (conn : Connection) : List Packet := packetsIn conn.bytes.length conn.bytes

end Connection

/-- The frames of some messages. -/
def frames (parcels : List Parcel) : List MarkedByte := parcels.flatMap (·.packet.frame)

/-- A frame is its length and its body. -/
theorem Parcel.frame_eq (parcel : Parcel) : parcel.packet.frame =
    mark parcel.source (leBytes 4 parcel.msg.encodedLength) ++
      mark parcel.source parcel.msg.body := by
  rw [← mark_append, ← OutMessage.serialize_eq parcel.fits]
  rfl

/-- The message that a receiver makes of the body of a frame. -/
theorem Parcel.deserialize_body (parcel : Parcel) :
    ∃ msg, deserialize parcel.msg.body = some msg ∧
      Packet.letter ⟨parcel.source, .network msg⟩ = parcel.packet.letter := by
  obtain ⟨msg, decoded, received⟩ := Hiactor.deserialize_body parcel.fits
  refine ⟨msg, decoded, ?_⟩
  simp [Packet.letter, Parcel.packet, CarriedMessage.hdr, CarriedMessage.buffers, received.hdr,
    received.buffers]

theorem Parcel.leNat_length (parcel : Parcel) :
    leNat (leBytes 4 parcel.msg.encodedLength) = parcel.msg.encodedLength := by
  rw [leNat_leBytes]
  exact Nat.mod_eq_of_lt parcel.fits

theorem frames_cons (parcel : Parcel) (more : List Parcel) : frames (parcel :: more) =
    mark parcel.source (leBytes 4 parcel.msg.encodedLength) ++
      (mark parcel.source parcel.msg.body ++ frames more) := by
  rw [frames, List.flatMap_cons, ← frames, parcel.frame_eq, List.append_assoc]

theorem length_le_frames (parcels : List Parcel) : parcels.length ≤ (frames parcels).length := by
  induction parcels with
  | nil => exact Nat.le_refl 0
  | cons parcel more ih =>
    simp only [frames_cons, List.length_append, length_mark, length_leBytes, List.length_cons]
    omega

/-- The receiver loop finds the messages of the frames. -/
theorem packetsIn_frames (parcels : List Parcel) {rounds : Nat} (enough : parcels.length ≤ rounds) :
    (packetsIn rounds (frames parcels)).map Packet.letter =
      parcels.map fun parcel => parcel.packet.letter := by
  induction parcels generalizing rounds with
  | nil =>
    cases rounds with
    | zero => rfl
    | succ rounds => rfl
  | cons parcel more ih =>
    obtain ⟨rounds, rfl⟩ : ∃ fewer, rounds = fewer + 1 :=
      ⟨rounds - 1, by simp only [List.length_cons] at enough; omega⟩
    obtain ⟨msg, decoded, letter⟩ := parcel.deserialize_body
    have length := parcel.leNat_length
    obtain ⟨b0, b1, b2, b3, four⟩ :=
      List.length_eq_four.mp (length_leBytes 4 parcel.msg.encodedLength)
    rw [four] at length
    have body : (mark parcel.source parcel.msg.body).length = parcel.msg.encodedLength := by
      rw [length_mark, OutMessage.length_body]
    have first : packetsIn (rounds + 1) (frames (parcel :: more)) =
        ⟨parcel.source, .network msg⟩ :: packetsIn rounds (frames more) := by
      rw [frames_cons, four]
      simp only [mark, List.map_cons, List.map_nil, List.cons_append, List.nil_append, packetsIn]
      rw [← mark, length, List.take_left' body, List.drop_left' body, map_fst_mark, decoded]
    rw [first, List.map_cons, List.map_cons, letter, ih (by simpa using enough)]

namespace Connection

variable {conn : Connection} {parcels : List Parcel}

/-- The bytes of the connection are the frames of the messages. -/
def Carries (conn : Connection) (parcels : List Parcel) : Prop :=
  match conn.nrBytes, parcels with
  | none, _ => conn.stream ++ conn.out = frames parcels
  | some _, [] => False
  | some (nrBytes, source), parcel :: more =>
    nrBytes = parcel.msg.encodedLength ∧ source = parcel.source ∧
      conn.stream ++ conn.out = mark source parcel.msg.body ++ frames more

theorem Carries.bytes_eq (carries : conn.Carries parcels) : conn.bytes = frames parcels := by
  unfold Carries at carries
  unfold bytes
  split at carries
  · next unread =>
    rw [unread]
    simpa using carries
  · cases carries
  · next nrBytes source parcel more read =>
    obtain ⟨rfl, rfl, rest⟩ := carries
    rw [read, frames_cons, List.append_assoc, rest]
    rfl

/-- The messages that a connection carries are those that it holds. -/
theorem Carries.packets_eq (carries : conn.Carries parcels) :
    conn.packets.map Packet.letter = parcels.map fun parcel => parcel.packet.letter := by
  rw [packets, carries.bytes_eq]
  exact packetsIn_frames parcels (length_le_frames parcels)

/-- The sender loop takes the next message. -/
theorem Carries.pop (carries : conn.Carries parcels) (written : conn.out = []) (parcel : Parcel) :
    { conn with out := parcel.packet.frame }.Carries (parcels ++ [parcel]) := by
  have last : frames (parcels ++ [parcel]) = frames parcels ++ parcel.packet.frame := by
    simp [frames]
  unfold Carries at carries ⊢
  rw [written, List.append_nil] at carries
  split at carries
  · next unread =>
    simp [unread, last, carries]
  · cases carries
  · next nrBytes source first more read =>
    obtain ⟨length, mine, rest⟩ := carries
    simp only [read, List.cons_append]
    refine ⟨length, mine, ?_⟩
    rw [rest]
    simp [frames]

/-- Bytes of the sender loop reach the stream. -/
theorem Carries.write (carries : conn.Carries parcels) (count : Nat) :
    { conn with
      out := conn.out.drop count
      stream := conn.stream ++ conn.out.take count }.Carries parcels := by
  simpa [Carries] using carries

/-- The receiver loop reads a length. -/
theorem Carries.readLength (carries : conn.Carries parcels) {b0 b1 b2 b3 : MarkedByte}
    (unread : conn.nrBytes = none) (first : conn.stream.take 4 = [b0, b1, b2, b3]) :
    { conn with
      nrBytes := some (leNat [b0.1, b1.1, b2.1, b3.1], b0.2)
      stream := conn.stream.drop 4 }.Carries parcels := by
  simp only [Carries, unread] at carries
  have stream : conn.stream = [b0, b1, b2, b3] ++ conn.stream.drop 4 := by
    rw [← first, List.take_append_drop]
  rw [stream, List.append_assoc] at carries
  cases parcels with
  | nil => simp [frames] at carries
  | cons parcel more =>
    rw [frames_cons] at carries
    obtain ⟨length, rest⟩ := List.append_inj carries (by simp)
    have value : leNat [b0.1, b1.1, b2.1, b3.1] = parcel.msg.encodedLength := by
      have same := congrArg (fun bytes => leNat (bytes.map (·.1))) length
      rw [map_fst_mark, parcel.leNat_length] at same
      exact same
    have source : b0.2 = parcel.source := by
      have same := congrArg (fun bytes => bytes.head?.map (·.2)) length
      simpa [mark, leBytes] using same
    refine ⟨value, source, ?_⟩
    rw [source]
    exact rest

/-- The receiver loop reads a message: the first one. -/
theorem Carries.readMessage (carries : conn.Carries parcels) {nrBytes : Nat} {source : ShardOf}
    (read : conn.nrBytes = some (nrBytes, source)) (there : nrBytes ≤ conn.stream.length) :
    ∃ parcel more msg, parcels = parcel :: more ∧
      deserialize ((conn.stream.take nrBytes).map (·.1)) = some msg ∧
      Packet.letter ⟨source, .network msg⟩ = parcel.packet.letter ∧
      { conn with nrBytes := none, stream := conn.stream.drop nrBytes }.Carries more := by
  unfold Carries at carries
  split at carries
  · next unread =>
    rw [read] at unread
    cases unread
  · cases carries
  · next nrBytes' source' parcel more read' =>
    obtain ⟨rfl, rfl⟩ := Prod.mk.inj (Option.some.inj (read.symm.trans read'))
    obtain ⟨rfl, rfl, rest⟩ := carries
    obtain ⟨msg, decoded, letter⟩ := parcel.deserialize_body
    have stream : conn.stream = conn.stream.take parcel.msg.encodedLength ++
        conn.stream.drop parcel.msg.encodedLength := (List.take_append_drop _ _).symm
    rw [stream, List.append_assoc] at rest
    obtain ⟨body, rest⟩ := List.append_inj rest (by simp [OutMessage.length_body, there])
    refine ⟨parcel, more, msg, rfl, ?_, letter, rest⟩
    rw [body, map_fst_mark, decoded]

end Connection

end Hiactor
