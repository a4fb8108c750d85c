import Hiactor.Net.Wire
import Hiactor.Net.Proofs.SerializableQueue

/-!
# Streams of frames

The receiver loop undoes `serialize` on a whole stream: every message arrives with its header and
a queue that returns its buffers. When the connection is cut, the loop delivers the messages
before the cut and stays inside its buffers exactly when less than the length of a frame follows
them.
-/

namespace Hiactor

open Lib

/-! ## One frame -/

/-- The bytes of a payload. -/
def payloadBytes (bufs : List Buffer) : List UInt8 :=
  bufs.flatMap fun buf => leBytes 4 buf.length ++ buf

theorem length_payloadBytes (bufs : List Buffer) :
    (payloadBytes bufs).length = (bufs.map fun buf => 4 + buf.length).sum := by
  simp [payloadBytes, List.length_flatMap]

theorem length_payloadBytes_eq (bufs : List Buffer) :
    (payloadBytes bufs).length = bufs.length * 4 + bufs.flatten.length := by
  induction bufs with
  | nil => rfl
  | cons buf bufs ih =>
    simp only [payloadBytes, List.flatMap_cons, List.length_append, length_leBytes,
      List.length_cons, List.flatten_cons] at ih ⊢
    omega

@[simp] theorem MessageHeader.length_bytes (hdr : MessageHeader) (padding : HeaderPadding) :
    (hdr.bytes padding).length = headerSize := by
  simp [MessageHeader.bytes, hdr.addr.size_eq, GMaxAddrLength, headerSize, GShardIdInBytes,
    GMaxAddrLayer, GLocalActorAddrLength, GActorTypeInBytes, GActorIdInBytes]

theorem writePayload_eq {su : SerializableQueue} {bufs : List Buffer} (holds : su.Holds bufs)
    (fits : bufs.length < 2 ^ 32) : writePayload bufs.length su = payloadBytes bufs := by
  induction bufs generalizing su with
  | nil => rfl
  | cons buf bufs ih =>
    have some_left : su.empty = false := by
      rw [← Bool.not_eq_true, holds.empty_iff fits]
      simp
    obtain ⟨popped, rest⟩ := holds.pop
    simp only [List.length_cons] at fits ⊢
    rw [writePayload, some_left, popped, ih rest (by omega)]
    simp [payloadBytes]

namespace OutMessage

variable {msg : OutMessage}

/-- A frame after its length. -/
def body (msg : OutMessage) : List UInt8 :=
  msg.hdr.bytes msg.padding ++ leBytes 4 msg.buffers.length ++ payloadBytes msg.buffers

theorem length_body (msg : OutMessage) : msg.body.length = msg.encodedLength := by
  simp [body, encodedLength, length_payloadBytes]
  omega

theorem few_buffers (fits : msg.encodedLength < 2 ^ 32) : msg.buffers.length < 2 ^ 32 := by
  have length := length_body msg
  rw [body, List.length_append, length_payloadBytes_eq] at length
  omega

/-- The length in front of a frame is cut to 32 bits. -/
theorem serialize_of_few (few : msg.buffers.length < 2 ^ 32) :
    msg.serialize = leBytes 4 msg.encodedLength ++ msg.body := by
  cases payload : msg.payload with
  | none =>
    simp [serialize, payload, encodedLength, body, buffers, payloadBytes]
  | some bufs =>
    have held : msg.buffers = bufs := by simp [buffers, payload]
    rw [held] at few
    have filled : (dump bufs).Filled bufs :=
      SerializableQueue.filled_foldl bufs SerializableQueue.filled_new (by simpa using few)
    have size : (dump bufs).size.toNat = bufs.length := by
      rw [filled.size, UInt32.toNat_ofNat_of_lt' few]
    have total : headerSize + 4 + bufs.length * 4 + bufs.flatten.length = msg.encodedLength := by
      rw [encodedLength, ← length_payloadBytes, length_payloadBytes_eq, held]
      omega
    have sum : UInt32.ofNat headerSize + 4 + (dump bufs).size * 4 + (dump bufs).getBufferSize =
        UInt32.ofNat msg.encodedLength := by
      rw [filled.size, filled.holds.getBufferSize, ← total]
      simp only [UInt32.ofNat_add, UInt32.ofNat_mul]
      rfl
    have length : leBytes 4 (UInt32.ofNat msg.encodedLength).toNat =
        leBytes 4 msg.encodedLength := by
      rw [UInt32.toNat_ofNat']
      exact leBytes_mod 4 _
    simp only [serialize, payload, sum, length, size, writePayload_eq filled.holds few, body, held,
      List.append_assoc]

/-- A frame is its length and its body. -/
theorem serialize_eq (fits : msg.encodedLength < 2 ^ 32) :
    msg.serialize = leBytes 4 msg.encodedLength ++ msg.body := serialize_of_few (few_buffers fits)

end OutMessage

theorem slice_at {bs : List UInt8} {offset n : Nat} (before middle after : List UInt8)
    (parts : bs = before ++ middle ++ after) (start : before.length = offset)
    (length : middle.length = n) : slice bs offset n = middle := by
  subst parts start length
  exact slice_append before middle after

theorem getElem_at {bs : List UInt8} {i : Nat} (inside : i < bs.length) (before : List UInt8)
    (b : UInt8) (after : List UInt8) (parts : bs = before ++ b :: after)
    (start : before.length = i) : bs[i] = b := by
  subst parts start
  simp

/-- A header is read back from its bytes. -/
theorem readHeader_bytes (hdr : MessageHeader) (padding : HeaderPadding) (after : List UInt8) :
    readHeader (hdr.bytes padding ++ after) = some { hdr with fromNetwork := true } := by
  have long : headerSize ≤ (hdr.bytes padding ++ after).length := by simp
  obtain ⟨⟨length, data, size_eq⟩, length_lt, behaviorTid, srcShardId, prId, mType, network⟩ := hdr
  have size : data.length = 52 := size_eq
  rw [readHeader, dif_pos long]
  simp only [Option.some.injEq, MessageHeader.mk.injEq, Address.mk.injEq, and_true,
    MessageHeader.bytes] at length_lt ⊢
  let first := [behaviorTid, padding.first.1, padding.first.2]
  let last := [mType, if network then 1 else 0, padding.second.1, padding.second.2]
  refine ⟨⟨?_, ?_⟩, ?_, ?_, ?_, ?_⟩
  · simpa using Nat.mod_eq_of_lt length_lt
  · exact slice_at [UInt8.ofNat length] data
      (first ++ leBytes 4 srcShardId.toNat ++ leBytes 4 prId.toNat ++ last ++ after)
      (by simp [first, last]) rfl size_eq
  · exact getElem_at _ ([UInt8.ofNat length] ++ data) behaviorTid
      ([padding.first.1, padding.first.2] ++ leBytes 4 srcShardId.toNat ++ leBytes 4 prId.toNat ++
        last ++ after) (by simp [last]) (by simp [size])
  · rw [slice_at ([UInt8.ofNat length] ++ data ++ first) (leBytes 4 srcShardId.toNat)
      (leBytes 4 prId.toNat ++ last ++ after) (by simp [first, last]) (by simp [size, first])
      (length_leBytes 4 _), leNat_leBytes]
    simp
  · rw [slice_at ([UInt8.ofNat length] ++ data ++ first ++ leBytes 4 srcShardId.toNat)
      (leBytes 4 prId.toNat) (last ++ after) (by simp [first, last]) (by simp [size, first])
      (length_leBytes 4 _), leNat_leBytes]
    simp
  · exact getElem_at _
      ([UInt8.ofNat length] ++ data ++ first ++ leBytes 4 srcShardId.toNat ++ leBytes 4 prId.toNat)
      mType ([if network then 1 else 0, padding.second.1, padding.second.2] ++ after)
      (by simp [first]) (by simp [size, first])

theorem readHeader_short {buf : List UInt8} (short : buf.length < headerSize) :
    readHeader buf = none := by
  rw [readHeader, dif_neg (by omega)]

theorem payloadBytes_cons (buf : Buffer) (bufs : List Buffer) :
    payloadBytes (buf :: bufs) = leBytes 4 buf.length ++ (buf ++ payloadBytes bufs) := by
  simp [payloadBytes]

/-- The loop over the payload pushes all buffers. -/
theorem readPayload_eq (bufs : List Buffer) (qu : SerializableQueue)
    (fits : (payloadBytes bufs).length < 2 ^ 32) :
    readPayload bufs.length (payloadBytes bufs) qu =
      some (bufs.foldl SerializableQueue.push qu) := by
  induction bufs generalizing qu with
  | nil => rfl
  | cons buf bufs ih =>
    rw [payloadBytes_cons] at fits ⊢
    simp only [List.length_append, length_leBytes] at fits
    have length : leNat ((leBytes 4 buf.length ++ (buf ++ payloadBytes bufs)).take 4) =
        buf.length := by
      rw [List.take_left' (length_leBytes 4 _), leNat_leBytes]
      exact Nat.mod_eq_of_lt (by omega)
    have next : (leBytes 4 buf.length ++ (buf ++ payloadBytes bufs)).drop
        ((buf.length + 4) % 2 ^ 32) = payloadBytes bufs := by
      rw [Nat.mod_eq_of_lt (by omega), ← List.append_assoc]
      exact List.drop_left' (by simp; omega)
    have copied : slice (leBytes 4 buf.length ++ (buf ++ payloadBytes bufs)) 4 buf.length = buf :=
      slice_at (leBytes 4 buf.length) buf (payloadBytes bufs) (by simp) (length_leBytes 4 _) rfl
    rw [List.length_cons, readPayload, if_pos (by simp)]
    simp only [length]
    rw [if_pos (by simp), next, copied, ih _ (by omega), List.foldl_cons]

/-- The loop over the payload reads past the end of a buffer that is too short. -/
theorem readPayload_short (bufs : List Buffer) (qu : SerializableQueue) (k : Nat)
    (fits : (payloadBytes bufs).length < 2 ^ 32) (short : k < (payloadBytes bufs).length) :
    readPayload bufs.length ((payloadBytes bufs).take k) qu = none := by
  induction bufs generalizing qu k with
  | nil => simp [payloadBytes] at short
  | cons buf bufs ih =>
    rw [payloadBytes_cons] at fits short ⊢
    simp only [List.length_append, length_leBytes] at fits short
    rw [List.length_cons, readPayload]
    split
    · next prefix_read =>
      have four : 4 ≤ k := by
        rw [List.length_take] at prefix_read
        omega
      have length : leNat (((leBytes 4 buf.length ++ (buf ++ payloadBytes bufs)).take k).take 4) =
          buf.length := by
        rw [List.take_take, Nat.min_eq_left four, List.take_left' (length_leBytes 4 _),
          leNat_leBytes]
        exact Nat.mod_eq_of_lt (by omega)
      simp only [length]
      split
      · next buffer_read =>
        have inside : buf.length + 4 ≤ k := by
          rw [List.length_take] at buffer_read
          omega
        have next : ((leBytes 4 buf.length ++ (buf ++ payloadBytes bufs)).take k).drop
            ((buf.length + 4) % 2 ^ 32) = (payloadBytes bufs).take (k - (buf.length + 4)) := by
          rw [Nat.mod_eq_of_lt (by omega), List.drop_take, ← List.append_assoc,
            List.drop_left' (by simp; omega)]
        rw [next, ih _ _ (by omega) (by omega)]
      · rfl
    · rfl

/-- The receiver has got `msg`. -/
structure OutMessage.Received (msg : OutMessage) (got : NetworkMessage) : Prop where
  hdr : got.hdr = { msg.hdr with fromNetwork := true }
  buffers : got.data.popAll = msg.buffers

/-- `deserialize` undoes `serialize`. -/
theorem deserialize_body {msg : OutMessage} (fits : msg.encodedLength < 2 ^ 32) :
    ∃ got, deserialize msg.body = some got ∧ msg.Received got := by
  have few := OutMessage.few_buffers fits
  have length := OutMessage.length_body msg
  have count : slice msg.body headerSize 4 = leBytes 4 msg.buffers.length :=
    slice_at (msg.hdr.bytes msg.padding) _ (payloadBytes msg.buffers) rfl
      (MessageHeader.length_bytes _ _) (length_leBytes 4 _)
  have rest : msg.body.drop (headerSize + 4) = payloadBytes msg.buffers :=
    List.drop_left' (by simp)
  have payload_fits : (payloadBytes msg.buffers).length < 2 ^ 32 := by
    rw [OutMessage.body, List.length_append] at length
    omega
  have header : readHeader msg.body = some { msg.hdr with fromNetwork := true } := by
    rw [OutMessage.body, List.append_assoc, readHeader_bytes]
  have inside : headerSize + 4 ≤ msg.body.length := by
    rw [length, OutMessage.encodedLength]
    omega
  have filled : (msg.buffers.foldl SerializableQueue.push {}).Filled msg.buffers :=
    SerializableQueue.filled_foldl _ SerializableQueue.filled_new (by simpa using few)
  refine ⟨⟨{ msg.hdr with fromNetwork := true },
    (msg.buffers.foldl SerializableQueue.push {}).move⟩, ?_, rfl, filled.move.popAll few⟩
  have number : leNat (leBytes 4 msg.buffers.length) = msg.buffers.length := by
    rw [leNat_leBytes]
    exact Nat.mod_eq_of_lt few
  simp [deserialize, header, inside, count, rest, number, readPayload_eq _ _ payload_fits]

/-- A frame that is not complete makes `deserialize` read past the end of its buffer. -/
theorem deserialize_short {msg : OutMessage} (fits : msg.encodedLength < 2 ^ 32) {k : Nat}
    (short : k < msg.encodedLength) : deserialize (msg.body.take k) = none := by
  have few := OutMessage.few_buffers fits
  have length := OutMessage.length_body msg
  have cut : (msg.body.take k).length = k := by
    rw [List.length_take]
    omega
  by_cases header : headerSize ≤ k
  · by_cases counted : headerSize + 4 ≤ k
    · have count : slice (msg.body.take k) headerSize 4 = leBytes 4 msg.buffers.length := by
        rw [slice_take counted]
        exact slice_at (msg.hdr.bytes msg.padding) _ (payloadBytes msg.buffers) rfl
          (MessageHeader.length_bytes _ _) (length_leBytes 4 _)
      have number : leNat (leBytes 4 msg.buffers.length) = msg.buffers.length := by
        rw [leNat_leBytes]
        exact Nat.mod_eq_of_lt few
      have rest : (msg.body.take k).drop (headerSize + 4) =
          (payloadBytes msg.buffers).take (k - (headerSize + 4)) := by
        rw [List.drop_take, OutMessage.body, List.drop_left' (by simp)]
      have payload : (payloadBytes msg.buffers).length + (headerSize + 4) = msg.encodedLength := by
        rw [← length, OutMessage.body]
        simp
        omega
      have overrun := readPayload_short msg.buffers {} (k - (headerSize + 4)) (by omega) (by omega)
      simp [deserialize, count, number, rest, overrun]
    · simp [deserialize, cut, counted]
  · simp [deserialize, readHeader_short (cut.symm ▸ Nat.lt_of_not_le header)]

/-! ## Streams -/

/-- The bytes that a sender writes for `msgs`. -/
def stream (msgs : List OutMessage) : List UInt8 := msgs.flatMap OutMessage.serialize

theorem OutMessage.length_serialize {msg : OutMessage} (fits : msg.encodedLength < 2 ^ 32) :
    msg.serialize.length = 4 + msg.encodedLength := by
  simp [serialize_eq fits, length_body]

/-- A round reads the length of a frame, if it is there. -/
theorem receiveOne_length {msg : OutMessage} (fits : msg.encodedLength < 2 ^ 32)
    (after : List UInt8) :
    receiveOne { bytes := leBytes 4 msg.encodedLength ++ after } =
      (deserialize (after.take msg.encodedLength)).map fun got =>
        (some got, { bytes := after.drop msg.encodedLength,
                     eof := decide (after.length < msg.encodedLength) }) := by
  have length : leNat (leBytes 4 msg.encodedLength) = msg.encodedLength := by
    rw [leNat_leBytes]
    exact Nat.mod_eq_of_lt fits
  simp [receiveOne, InputStream.readExactly, List.take_left' (length_leBytes 4 _),
    List.drop_left' (length_leBytes 4 _), length]

/-- A round takes a whole frame from the stream. -/
theorem receiveOne_frame {msg : OutMessage} (fits : msg.encodedLength < 2 ^ 32) :
    ∃ got, msg.Received got ∧ ∀ after,
      receiveOne { bytes := msg.serialize ++ after } = some (some got, { bytes := after }) := by
  obtain ⟨got, decoded, received⟩ := deserialize_body fits
  have length := OutMessage.length_body msg
  refine ⟨got, received, fun after => ?_⟩
  rw [OutMessage.serialize_eq fits, List.append_assoc, receiveOne_length fits,
    List.take_left' length, List.drop_left' length, decoded]
  simp [length]

/-- The loop takes the frames of `msgs` from the stream and goes on with the rest. -/
theorem receiveLoop_stream (msgs : List OutMessage)
    (fits : ∀ msg ∈ msgs, msg.encodedLength < 2 ^ 32) :
    ∃ got, List.Forall₂ OutMessage.Received msgs got ∧ ∀ (rest : List UInt8) (rounds : Nat),
      receiveLoop (msgs.length + rounds) { bytes := stream msgs ++ rest } =
        (receiveLoop rounds { bytes := rest }).map fun more => (got ++ more.1, more.2) := by
  induction msgs with
  | nil => exact ⟨[], .nil, fun rest rounds => by simp [stream]⟩
  | cons msg msgs ih =>
    obtain ⟨got, received, later⟩ := ih fun other listed => fits other
      (List.mem_cons_of_mem _ listed)
    obtain ⟨first, firstReceived, taken⟩ := receiveOne_frame (fits msg List.mem_cons_self)
    refine ⟨first :: got, .cons firstReceived received, fun rest rounds => ?_⟩
    have rounds_left : (msg :: msgs).length + rounds = msgs.length + rounds + 1 := by
      rw [List.length_cons]
      omega
    have bytes : stream (msg :: msgs) ++ rest = msg.serialize ++ (stream msgs ++ rest) := by
      simp [stream]
    rw [rounds_left, bytes, receiveLoop, taken]
    simp only [Bool.false_eq_true, if_false, Option.bind_eq_bind, Option.bind_some, later]
    cases receiveLoop rounds { bytes := rest } with
    | none => rfl
    | some more => rfl

/-- The loop ends when less than the length of a frame is left. -/
theorem receiveLoop_end {rest : List UInt8} (short : rest.length < 4) (rounds : Nat) :
    receiveLoop (rounds + 1) { bytes := rest } = some ([], { bytes := [], eof := true }) := by
  have nothing : rest.drop 4 = [] := List.drop_eq_nil_of_le (by omega)
  cases rounds with
  | zero => simp [receiveLoop, receiveOne, InputStream.readExactly, short, nothing]
  | succ rounds => simp [receiveLoop, receiveOne, InputStream.readExactly, short, nothing]

theorem length_le_stream (msgs : List OutMessage)
    (fits : ∀ msg ∈ msgs, msg.encodedLength < 2 ^ 32) : msgs.length ≤ (stream msgs).length := by
  induction msgs with
  | nil => exact Nat.le_refl 0
  | cons msg msgs ih =>
    have later := ih fun other listed => fits other (List.mem_cons_of_mem _ listed)
    have first := OutMessage.length_serialize (fits msg List.mem_cons_self)
    simp only [stream, List.flatMap_cons, List.length_append, List.length_cons] at later ⊢
    omega

/-- For every sequence of messages whose encoded lengths fit in 32 bits, the receiver loop over
the bytes that `serialize` writes yields the same messages and consumes these bytes exactly: `got`
does not depend on what follows, and nothing of it is read. -/
theorem stream_round_trip (msgs : List OutMessage)
    (fits : ∀ msg ∈ msgs, msg.encodedLength < 2 ^ 32) :
    ∃ got, List.Forall₂ OutMessage.Received msgs got ∧
      (∀ rest, receiveLoop msgs.length { bytes := stream msgs ++ rest } =
        some (got, { bytes := rest })) ∧
      runReceiver { bytes := stream msgs } = some (got, { bytes := [], eof := true }) := by
  obtain ⟨got, received, loop⟩ := receiveLoop_stream msgs fits
  have enough := length_le_stream msgs fits
  refine ⟨got, received, fun rest => ?_, ?_⟩
  · have whole := loop rest 0
    simpa [receiveLoop] using whole
  · have whole := loop [] ((stream msgs).length - msgs.length + 1)
    rw [receiveLoop_end (by simp), List.append_nil, ← Nat.add_assoc,
      Nat.add_sub_cancel' enough] at whole
    simpa [runReceiver] using whole

/-- A message of a shard to its root with `prId`, and the bytes `payload`. -/
def sampleMessage (prId : UInt32) (payload : Option (List Buffer)) : OutMessage where
  hdr := {
    addr := { length := GShardIdInBytes, data := Junk.zero.data, size_eq := Junk.zero.size_eq }
    addr_length_lt := by decide
    behaviorTid := 0
    srcShardId := 0
    prId := prId
    mType := 2
    fromNetwork := false }
  padding := ⟨(0, 0), (0, 0)⟩
  payload := payload

/-- Messages without a payload, without buffers and with an empty one. -/
theorem stream_round_trip_three :
    ∃ got, List.Forall₂ OutMessage.Received
        [sampleMessage 1 none, sampleMessage 2 (some []), sampleMessage 3 (some [[], [7, 8]])] got ∧
      (∀ rest, receiveLoop 3 { bytes := stream [sampleMessage 1 none, sampleMessage 2 (some []),
        sampleMessage 3 (some [[], [7, 8]])] ++ rest } = some (got, { bytes := rest })) ∧
      runReceiver { bytes := stream [sampleMessage 1 none, sampleMessage 2 (some []),
        sampleMessage 3 (some [[], [7, 8]])] } = some (got, { bytes := [], eof := true }) :=
  stream_round_trip [sampleMessage 1 none, sampleMessage 2 (some []),
    sampleMessage 3 (some [[], [7, 8]])] (by decide)

/-! ## Cut connections -/

/-- The messages whose frames lie before the cut after `cut` bytes, and the number of bytes
between the last of these frames and the cut. -/
def framesBefore : List OutMessage → Nat → List OutMessage × Nat
  | [], _ => ([], 0)
  | msg :: msgs, cut =>
    if msg.serialize.length ≤ cut then
      (msg :: (framesBefore msgs (cut - msg.serialize.length)).1,
        (framesBefore msgs (cut - msg.serialize.length)).2)
    else ([], cut)

/-- What is left of a stream after a cut: whole frames, and the start of another one. -/
theorem stream_take (msgs : List OutMessage) (cut : Nat) :
    ∃ tail, (stream msgs).take cut = stream (framesBefore msgs cut).1 ++ tail ∧
      tail.length = (framesBefore msgs cut).2 ∧ (framesBefore msgs cut).1 ⊆ msgs ∧
      (tail = [] ∨ ∃ msg ∈ msgs, ∃ k < msg.serialize.length, tail = msg.serialize.take k) := by
  induction msgs generalizing cut with
  | nil => exact ⟨[], by simp [stream, framesBefore]⟩
  | cons msg msgs ih =>
    rw [framesBefore]
    split
    · next whole =>
      obtain ⟨tail, bytes, length, subset, start⟩ := ih (cut - msg.serialize.length)
      refine ⟨tail, ?_, length, ?_, ?_⟩
      · rw [stream, List.flatMap_cons, List.take_append, List.take_of_length_le whole,
          ← stream, bytes]
        simp [stream]
      · exact List.cons_subset_cons _ subset
      · rcases start with none_left | ⟨other, listed, start⟩
        · exact .inl none_left
        · exact .inr ⟨other, List.mem_cons_of_mem _ listed, start⟩
    · next part =>
      refine ⟨msg.serialize.take cut, ?_, ?_, by simp, .inr ⟨msg, List.mem_cons_self, cut, ?_, rfl⟩⟩
      · rw [stream, List.flatMap_cons, List.take_append, Nat.sub_eq_zero_of_le (by omega)]
        simp [stream]
      · rw [List.length_take]
        omega
      · omega

/-- The start of a frame with its whole length makes the loop read outside its buffer. -/
theorem receiveLoop_part {msg : OutMessage} (fits : msg.encodedLength < 2 ^ 32) {k : Nat}
    (long : 4 ≤ k) (part : k < msg.serialize.length) (rounds : Nat) :
    receiveLoop (rounds + 1) { bytes := msg.serialize.take k } = none := by
  have length := OutMessage.length_serialize fits
  have bytes : msg.serialize.take k = leBytes 4 msg.encodedLength ++ msg.body.take (k - 4) := by
    rw [OutMessage.serialize_eq fits, List.take_append, length_leBytes,
      List.take_of_length_le (by simpa using long)]
  have failed : receiveOne { bytes := msg.serialize.take k } = none := by
    rw [bytes, receiveOne_length fits, List.take_take, Nat.min_eq_right (by omega),
      deserialize_short fits (by omega)]
    rfl
  simp [receiveLoop, failed]

/-- For every sequence of messages and every cut, the receiver loop delivers exactly the messages
whose frames lie before the cut and reads only inside its buffers, if and only if less than the
four bytes of a length follow the last of these frames. -/
theorem cut_stream_received (msgs : List OutMessage) (cut : Nat)
    (fits : ∀ msg ∈ msgs, msg.encodedLength < 2 ^ 32) :
    (∃ got, List.Forall₂ OutMessage.Received (framesBefore msgs cut).1 got ∧
      runReceiver { bytes := (stream msgs).take cut } = some (got, { bytes := [], eof := true })) ↔
    (framesBefore msgs cut).2 < 4 := by
  obtain ⟨tail, bytes, length, subset, start⟩ := stream_take msgs cut
  have fits' : ∀ msg ∈ (framesBefore msgs cut).1, msg.encodedLength < 2 ^ 32 :=
    fun msg listed => fits msg (subset listed)
  obtain ⟨got, received, loop⟩ := receiveLoop_stream _ fits'
  have enough := length_le_stream _ fits'
  rw [bytes, ← length]
  have rounds : (stream (framesBefore msgs cut).1 ++ tail).length + 1 =
      (framesBefore msgs cut).1.length + ((stream (framesBefore msgs cut).1).length -
        (framesBefore msgs cut).1.length + tail.length + 1) := by
    rw [List.length_append]
    omega
  simp only [runReceiver, rounds, loop]
  constructor
  · rintro ⟨got', _, ran⟩
    by_contra long
    rcases start with none_left | ⟨msg, listed, k, part, start⟩
    · simp [none_left] at long
    · have read : 4 ≤ k := by
        rw [start, List.length_take] at long
        omega
      rw [start, receiveLoop_part (fits msg listed) read part] at ran
      cases ran
  · intro short
    refine ⟨got, received, ?_⟩
    rw [receiveLoop_end short]
    simp

/-- The cut is inside the length of the second frame. -/
theorem cut_stream_received_two :
    ∃ got, List.Forall₂ OutMessage.Received
        (framesBefore [sampleMessage 1 none, sampleMessage 2 (some [[7]])] 78).1 got ∧
      runReceiver
          { bytes := (stream [sampleMessage 1 none, sampleMessage 2 (some [[7]])]).take 78 } =
        some (got, { bytes := [], eof := true }) :=
  (cut_stream_received [sampleMessage 1 none, sampleMessage 2 (some [[7]])] 78 (by decide)).mpr
    (by decide)

/-- The connection is closed after the length of a frame: the loop hands an empty buffer to
`deserialize`, which reads a header from it. -/
theorem cut_after_length :
    ¬ ∀ (msgs : List OutMessage) (cut : Nat), (∀ msg ∈ msgs, msg.encodedLength < 2 ^ 32) →
      ∃ got, List.Forall₂ OutMessage.Received (framesBefore msgs cut).1 got ∧
        runReceiver { bytes := (stream msgs).take cut } =
          some (got, { bytes := [], eof := true }) := by
  intro all
  obtain ⟨got, _, ran⟩ := all [sampleMessage 1 none] 4 (by decide)
  have failed : runReceiver { bytes := (stream [sampleMessage 1 none]).take 4 } = none := rfl
  rw [failed] at ran
  cases ran

end Hiactor
