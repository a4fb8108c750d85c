import Mathlib.Logic.Relation
import Hiactor.Lib.Ledger
import Hiactor.Core.Shard

/-!
# The life of a message

What happens to one message on a shard: it is refused, or it waits in a mailbox until it is
handled or dropped, its responses are sent, and it is reclaimed. A group remembers a cancel
request and answers it after the message is reclaimed. The stage of a message is read off the
events about it, and the flow of a shard is where its messages are and how far they have come.
-/

namespace Hiactor

open Lib

/-! ## Stages -/

/-- How far a message has come, with the responses sent for it. In `done` these are the ones
before and the ones after it was reclaimed. -/
inductive Stage where
  | fresh
  | waiting (msg : ActorMessage) (path : Path)
  | working (msg : ActorMessage) (path : Path) (answers : List Reply)
  | done (msg : ActorMessage) (path : Path) (answers late : List Reply)
  | refusing (msg : ActorMessage) (answers : List Reply)
  | refused (msg : ActorMessage) (answers : List Reply)
  | ended (msg : ActorMessage)
  | wrong
  deriving DecidableEq, Repr

/-- The message that an event is about. -/
def Event.about : Event → Option Nat
  | .enqueued msg _ | .rejected msg _ | .started msg _ | .reclaimed msg => some msg.mid
  | .sent _ reply => some reply.mid
  | .created _ | .disabled _ | .destroyed _ | .exited => none

/-- The message that arrives with an event. -/
def Event.arrival : Event → Option Nat
  | .enqueued msg _ | .rejected msg _ => some msg.mid
  | _ => none

namespace Stage

def next : Stage → Event → Stage
  | .fresh, .enqueued msg path => .waiting msg path
  | .fresh, .rejected msg _ => .refusing msg []
  | .fresh, .reclaimed msg => .ended msg
  | .waiting msg path, .started _ _ => .working msg path []
  | .waiting msg path, .reclaimed _ => .done msg path [] []
  | .working msg path answers, .sent _ reply => .working msg path (answers ++ [reply])
  | .working msg path answers, .reclaimed _ => .done msg path answers []
  | .done msg path answers late, .sent _ reply => .done msg path answers (late ++ [reply])
  | .refusing msg answers, .sent _ reply => .refusing msg (answers ++ [reply])
  | .refusing msg answers, .reclaimed _ => .refused msg answers
  | _, _ => .wrong

/-- The message of a stage, if it is not one to the root. -/
def msg? : Stage → Option ActorMessage
  | .waiting msg _ | .working msg _ _ | .done msg _ _ _ => some msg
  | .refusing msg _ | .refused msg _ => some msg
  | .fresh | .ended _ | .wrong => none

/-- All responses that were sent. -/
def answers : Stage → List Reply
  | .working _ _ answers => answers
  | .done _ _ answers late => answers ++ late
  | .refusing _ answers | .refused _ answers => answers
  | .fresh | .waiting _ _ | .ended _ | .wrong => []

/-- An event of a log, for the message `mid`. Message `0` stands for those that the shard sends
to itself, which are not followed. -/
def track (mid : Nat) (stage : Stage) (e : Event) : Stage :=
  if mid ≠ 0 ∧ e.about = some mid then stage.next e else stage

end Stage

/-- The stage of the message `mid` after a log. -/
def stageOf (log : List Event) (mid : Nat) : Stage := log.foldl (Stage.track mid) .fresh

/-- The responses in a log to the message `mid`. -/
def answersTo (mid : Nat) (log : List Event) : List Reply :=
  log.filterMap fun
    | .sent _ reply => if reply.mid = mid then some reply else none
    | _ => none

/-- The stages after some more events about the message `mid`. -/
def record (stage : Nat → Stage) (mid : Nat) (events : List Event) : Nat → Stage :=
  fun j => if j = mid ∧ mid ≠ 0 then events.foldl Stage.next (stage j) else stage j

/-! ## Flows -/

/-- What holds a message: a mailbox, the frame of a `do_work`, a method in flight, a continuation
that sends its response, the `post_work_func`, or the cancel request of a group. -/
inductive Kind where
  | mail
  | work
  | flight
  | reply
  | post
  | cancel
  deriving DecidableEq, Repr

structure Item where
  kind : Kind
  msg : ActorMessage
  deriving DecidableEq, Repr

def Item.mid (i : Item) : Nat := i.msg.mid

/-- A cancel request does not keep the type of the message. -/
def ActorMessage.asCancel (m : ActorMessage) : ActorMessage := { m with type := .peaceStop }

structure Flow where
  held : Path → List Item
  atRoot : List ActorMessage
  stage : Nat → Stage
  arrived : List Nat
  nextMid : Nat

/-- The messages that may be dropped from the mailbox of an object, finished without a response,
and forgotten as a cancel request. -/
structure Policy where
  drop : Path → ActorMessage → Prop
  silent : ActorMessage → Prop
  overwrite : ActorMessage → Prop

/-- A path of an actor group. -/
def groupPath : Path → Prop
  | [] => False
  | k :: _ => k.isGroup = true

/-- The object at `path` replaces the items `old` by `new`, with events about one of them. -/
inductive Rule (policy : Policy) (path : Path) : List Item → List Item → Nat → List Event → Prop
  | start (m : ActorMessage) (user : m.type = .user) :
      Rule policy path [⟨.mail, m⟩] [⟨.work, m⟩] m.mid [.started m path]
  | suspend (m : ActorMessage) : Rule policy path [⟨.work, m⟩] [⟨.flight, m⟩] m.mid []
  | complete (m : ActorMessage) : Rule policy path [⟨.flight, m⟩] [⟨.reply, m⟩] m.mid []
  | completeSilent (m : ActorMessage) (silent : policy.silent m) :
      Rule policy path [⟨.flight, m⟩] [⟨.post, m⟩] m.mid []
  | reply (m : ActorMessage) (failed : Bool) :
      Rule policy path [⟨.reply, m⟩] [⟨.post, m⟩] m.mid [.sent path (m.reply failed)]
  | finish (m : ActorMessage) (failed : Bool) :
      Rule policy path [⟨.work, m⟩] [] m.mid [.sent path (m.reply failed), .reclaimed m]
  | finishSilent (m : ActorMessage) (silent : policy.silent m) :
      Rule policy path [⟨.work, m⟩] [] m.mid [.reclaimed m]
  | post (m : ActorMessage) : Rule policy path [⟨.post, m⟩] [] m.mid [.reclaimed m]
  | drop (m : ActorMessage) (drop : policy.drop path m) :
      Rule policy path [⟨.mail, m⟩] [] m.mid [.reclaimed m]
  | take (m : ActorMessage) (stop : m.isStop = true) (plain : groupPath path → m.prId = 0) :
      Rule policy path [⟨.mail, m⟩] [] m.mid [.reclaimed m]
  | remember (m : ActorMessage) (stop : m.isStop = true) :
      Rule policy path [⟨.mail, m⟩] [⟨.cancel, m.asCancel⟩] m.mid [.reclaimed m]
  | acknowledge (m : ActorMessage) :
      Rule policy path [⟨.cancel, m⟩] [] m.mid [.sent path (m.reply false)]
  | overwrite (m : ActorMessage) (overwrite : policy.overwrite m) :
      Rule policy path [⟨.cancel, m⟩] [] 0 []
  | rest : Rule policy path [] [] 0 []
  | internal (m : ActorMessage) (zero : m.mid = 0) : Rule policy path [] [⟨.mail, m⟩] 0 []

/-- The items at one path change. -/
structure Change (f f' : Flow) (path : Path) (old new : List Item) (mid : Nat)
    (events : List Event) : Prop where
  held : ∃ rest, (f.held path).Perm (old ++ rest) ∧ (f'.held path).Perm (new ++ rest)
  others : ∀ q, q ≠ path → f'.held q = f.held q
  atRoot : f'.atRoot = f.atRoot
  stage : f'.stage = record f.stage mid events
  arrived : f'.arrived = f.arrived
  nextMid : f'.nextMid = f.nextMid

/-- The transitions of a flow. A message that is received is put in a mailbox or refused, or it
is one to the root, which reclaims it at once or when it has obeyed it. -/
inductive Move (policy : Policy) (f f' : Flow) : Prop
  | rule {path : Path} {old new : List Item} {mid : Nat} {events : List Event}
      (rule : Rule policy path old new mid events) (change : Change f f' path old new mid events)
  | accept {path : Path} {m : ActorMessage} (new : m.mid = f.nextMid)
      (held : (f'.held path).Perm (⟨.mail, m⟩ :: f.held path))
      (others : ∀ q, q ≠ path → f'.held q = f.held q) (atRoot : f'.atRoot = f.atRoot)
      (stage : f'.stage = record f.stage m.mid [.enqueued m path])
      (arrived : f'.arrived = f.arrived ++ [m.mid])
      (nextMid : f'.nextMid = f.nextMid + 1)
  | refuse {m : ActorMessage} {addr : List ActorKey} (new : m.mid = f.nextMid)
      (held : f'.held = f.held) (atRoot : f'.atRoot = f.atRoot)
      (stage : f'.stage = record f.stage m.mid
        ([.rejected m addr] ++ (if m.prId ≠ 0 then [.sent [] (m.reply true)] else []) ++
          [.reclaimed m]))
      (arrived : f'.arrived = f.arrived ++ [m.mid])
      (nextMid : f'.nextMid = f.nextMid + 1)
  | root {m : ActorMessage} {events : List Event} (new : m.mid = f.nextMid)
      (held : f'.held = f.held)
      (which : (events = [] ∨ events = [.reclaimed m]) ∧ f'.atRoot = f.atRoot ∨
        events = [] ∧ f'.atRoot = m :: f.atRoot)
      (stage : f'.stage = record f.stage m.mid events)
      (arrived : f'.arrived = f.arrived)
      (nextMid : f'.nextMid = f.nextMid + 1)
  | obeyed {m : ActorMessage} (atRoot : f.atRoot = m :: f'.atRoot) (held : f'.held = f.held)
      (stage : f'.stage = record f.stage m.mid [.reclaimed m])
      (arrived : f'.arrived = f.arrived)
      (nextMid : f'.nextMid = f.nextMid)

def Moves (policy : Policy) : Flow → Flow → Prop := Relation.ReflTransGen (Move policy)

end Hiactor
