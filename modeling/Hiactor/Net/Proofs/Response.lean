import Hiactor.Net.Response
import Hiactor.Net.Proofs.Wire

/-!
# Local and remote calls

A request resolves to the outcome of the method, with every cast applied to a payload of its type,
exactly when the responder runs on the machine of the request or the method returns a value. The
exception of a responder on another machine arrives as a queue of buffers and is cast to a string.
-/

namespace Hiactor

variable {α : Type} {type : Serializable α} {shardId prId : UInt32} {memory : Nat → UInt8}
  {padding : HeaderPadding}

/-- The message that a value is sent in to another machine. -/
def valueMessage (type : Serializable α) (shardId prId : UInt32) (padding : HeaderPadding) (v : α) :
    OutMessage :=
  ⟨responseHeader shardId prId .response, padding, some (type.dumpTo v)⟩

theorem requestResult_local {place : Place} (near : place ≠ .otherMachine) (outcome : Outcome α) :
    requestResult type shardId prId memory padding place outcome = some outcome := by
  have arrives : transport type padding (respond shardId prId memory outcome) place =
      some (respond shardId prId memory outcome) := by
    cases place with
    | sameShard => rfl
    | sameMachine => rfl
    | otherMachine => exact absurd rfl near
  rw [requestResult, arrives]
  cases outcome with
  | value v => rfl
  | exception text => rfl

theorem requestResult_value (v : α)
    (framed : (valueMessage type shardId prId padding v).encodedLength < 2 ^ 32) :
    requestResult type shardId prId memory padding .otherMachine (.value v) = some (.value v) := by
  obtain ⟨got, received, taken⟩ := receiveOne_frame framed
  have arrives : transport type padding (respond shardId prId memory (.value v)) .otherMachine =
      some ⟨got.hdr, .queue got.data⟩ := by
    have round := taken []
    rw [List.append_nil] at round
    simp only [transport, respond, PayloadMessage.out, Option.bind_eq_bind, Option.bind_some]
    rw [← valueMessage, round]
    rfl
  have loaded : type.loadFrom got.data = v := type.load_dump v got.data received.buffers
  have kind : got.hdr.mType = MessageType.response.code := by
    rw [received.hdr]
    rfl
  have network : got.hdr.fromNetwork = true := by rw [received.hdr]
  simp [requestResult, arrives, receiveResponse, kind, waitResult, network, loaded]

/-- Whatever arrives from another machine, its payload is not a string. -/
theorem requestResult_exception (text : List UInt8) :
    requestResult type shardId prId memory padding .otherMachine (.exception text) ≠
      some (.exception text) := by
  intro resolved
  simp only [requestResult, transport, Option.bind_eq_bind, Option.bind_eq_some_iff] at resolved
  obtain ⟨msg, ⟨out, _, ⟨got, input⟩, _, got', _, arrived⟩, result, received, waited⟩ := resolved
  obtain rfl := Option.some.inj arrived
  unfold receiveResponse at received
  split at received
  · obtain rfl := Option.some.inj received
    simp only [waitResult] at waited
    split at waited
    · cases waited
    · cases waited
  · split at received
    · cases received
    · cases received

/-- The future of a request resolves to the outcome of the method, and every cast is applied to a
payload of its type, exactly when the responder runs on the machine of the request or the outcome
is a value. The length of the frame of a value has to fit in its 32 bits. -/
theorem request_agrees {place : Place} {outcome : Outcome α}
    (framed : ∀ v, place = .otherMachine → outcome = .value v →
      (valueMessage type shardId prId padding v).encodedLength < 2 ^ 32) :
    requestResult type shardId prId memory padding place outcome = some outcome ↔
      place ≠ .otherMachine ∨ ∃ v, outcome = .value v := by
  constructor
  · intro resolved
    by_contra neither
    rw [not_or, not_not] at neither
    obtain ⟨rfl, no_value⟩ := neither
    cases outcome with
    | value v => exact no_value ⟨v, rfl⟩
    | exception text => exact requestResult_exception text resolved
  · rintro (near | ⟨v, rfl⟩)
    · exact requestResult_local near outcome
    · by_cases far : place = .otherMachine
      · subst far
        exact requestResult_value v (framed v rfl rfl)
      · exact requestResult_local far _

/-- `SerializablePrimitive<bool>`. -/
def boolean : Serializable Bool where
  dumpTo v := [[if v then 1 else 0]]
  loadFrom qu := qu.pop.1.headD 0 != 0
  load_dump v qu held := by
    unfold SerializableQueue.popAll at held
    cases size : qu.size.toNat with
    | zero =>
      rw [size] at held
      cases held
    | succ n =>
      rw [size, SerializableQueue.drain] at held
      split at held
      · cases held
      · rw [(List.cons.inj held).1]
        cases v <;> rfl

/-- A value from another machine. -/
theorem request_agrees_boolean :
    requestResult boolean 0 1 (fun _ => 7) ⟨(0, 0), (0, 0)⟩ .otherMachine (.value true) =
      some (.value true) := by
  refine (request_agrees ?_).mpr (.inr ⟨true, rfl⟩)
  intro v _ same
  cases same
  decide

/-- The exception of a method on another machine does not arrive. -/
theorem remote_exception_lost :
    ¬ ∀ (place : Place) (outcome : Outcome Bool),
      requestResult boolean 0 1 (fun _ => 7) ⟨(0, 0), (0, 0)⟩ place outcome = some outcome := by
  intro all
  have lost : requestResult boolean 0 1 (fun _ => 7) ⟨(0, 0), (0, 0)⟩ .otherMachine
      (.exception [110, 111]) = none := by
    decide
  exact absurd (lost.symm.trans (all .otherMachine (.exception [110, 111]))) (by simp)

end Hiactor
