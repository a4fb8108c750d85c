import Hiactor.Core.Proofs.Answers

/-!
# The life of a message object

A message that a shard has received is a heap object that one holder passes to the next: a
mailbox, the frame of a `do_work`, a method in flight or a continuation. It has one holder at a
time, is handed to `do_work` and reclaimed at most once, and has one response at most. None of
this depends on what the steps of a run drop or leave unanswered.
-/

namespace Hiactor

open Lib

/-- The calls of `do_work` for the message `mid`. -/
def starts (mid : Nat) (log : List Event) : Nat :=
  log.countP fun
    | .started m _ => m.mid == mid
    | _ => false

/-- The calls of `reclaim_actor_message` for the message `mid`. -/
def reclaims (mid : Nat) (log : List Event) : Nat :=
  log.countP fun
    | .reclaimed m => m.mid == mid
    | _ => false

/-! ## Stages -/

/-- What is known of the responses to a message at a stage. -/
def Stage.Once : Stage → Prop
  | .working m _ answers => answers = [] ∨ ∃ failed, answers = [m.reply failed]
  | .done m _ answers late =>
    (late = [] ∧ (answers = [] ∨ ∃ failed, answers = [m.reply failed])) ∨
      (m.isStop = true ∧ answers = [] ∧ late = [m.reply false])
  | .refusing m answers | .refused m answers => answers = [] ∨ answers = [m.reply true]
  | .fresh | .waiting _ _ | .ended _ | .wrong => True

theorem Stage.Once.answers {stage : Stage} {m : ActorMessage} (once : stage.Once)
    (mine : stage.msg? = some m) :
    stage.answers = [] ∨ ∃ failed, stage.answers = [m.reply failed] := by
  cases stage with
  | fresh | ended | wrong => cases mine
  | waiting msg path => exact .inl rfl
  | working msg path answers =>
    obtain rfl := Option.some.inj mine
    exact once
  | done msg path answers late =>
    obtain rfl := Option.some.inj mine
    rcases once with ⟨rfl, none | ⟨failed, one⟩⟩ | ⟨-, rfl, rfl⟩
    · exact .inl (by rw [none]; rfl)
    · exact .inr ⟨failed, by rw [one]; rfl⟩
    · exact .inr ⟨false, rfl⟩
  | refusing msg answers | refused msg answers =>
    obtain rfl := Option.some.inj mine
    exact once.imp_right fun one => ⟨true, one⟩

/-- How often a message has been started and reclaimed at a stage. -/
def Stage.Counts (started reclaimed : Nat) : Stage → Prop
  | .fresh | .waiting _ _ | .refusing _ _ => started = 0 ∧ reclaimed = 0
  | .working _ _ _ => started = 1 ∧ reclaimed = 0
  | .done _ _ _ _ => started ≤ 1 ∧ reclaimed = 1
  | .refused _ _ | .ended _ => started = 0 ∧ reclaimed = 1
  | .wrong => True

theorem Stage.counts_next {stage : Stage} {e : Event} {mid started reclaimed : Nat}
    (counts : stage.Counts started reclaimed) (about : e.about = some mid)
    (right : stage.next e ≠ .wrong) :
    (stage.next e).Counts (started + starts mid [e]) (reclaimed + reclaims mid [e]) := by
  cases stage <;> cases e <;>
    simp_all [Stage.next, Stage.Counts, starts, reclaims, Event.about]

section stages

variable {log : List Event} {mid : Nat}

theorem counts_stageOf (followed : mid ≠ 0) (right : stageOf log mid ≠ .wrong) :
    (stageOf log mid).Counts (starts mid log) (reclaims mid log) := by
  induction log using List.reverseRecOn with
  | nil => exact ⟨rfl, rfl⟩
  | append_singleton log e ih =>
    have before := ih (stageOf_shorter right)
    have starts_split : starts mid (log ++ [e]) = starts mid log + starts mid [e] :=
      List.countP_append
    have reclaims_split : reclaims mid (log ++ [e]) = reclaims mid log + reclaims mid [e] :=
      List.countP_append
    rw [stageOf_append] at right ⊢
    simp only [List.foldl_cons, List.foldl_nil, Stage.track] at right ⊢
    rw [starts_split, reclaims_split]
    by_cases about : e.about = some mid
    · rw [if_pos ⟨followed, about⟩] at right ⊢
      exact Stage.counts_next before about right
    · rw [if_neg (fun both => about both.2)]
      have none : starts mid [e] = 0 ∧ reclaims mid [e] = 0 := by
        cases e <;> simp_all [starts, reclaims, Event.about]
      rw [none.1, none.2]
      exact before

/-- A message that was reclaimed is not started any more. -/
theorem starts_after {m : ActorMessage} {before after : List Event} (followed : m.mid ≠ 0)
    (right : stageOf (before ++ .reclaimed m :: after) m.mid ≠ .wrong) :
    starts m.mid after = 0 := by
  induction after using List.reverseRecOn with
  | nil => rfl
  | append_singleton after e ih =>
    have split : before ++ .reclaimed m :: (after ++ [e]) =
        (before ++ .reclaimed m :: after) ++ [e] := by simp
    rw [split] at right
    have earlier := stageOf_shorter right
    have settled := settled_stageOf followed earlier
    have more : starts m.mid (after ++ [e]) = starts m.mid after + starts m.mid [e] :=
      List.countP_append
    rw [more, ih earlier, Nat.zero_add]
    rw [stageOf_append] at right
    simp only [List.foldl_cons, List.foldl_nil, Stage.track] at right
    cases e with
    | started m' q =>
      by_cases mine : m'.mid = m.mid
      · rw [if_pos ⟨followed, congrArg some mine⟩] at right
        -- a stage that is settled has no next one for a start
        cases stage : stageOf (before ++ .reclaimed m :: after) m.mid <;>
          simp_all [Stage.settled, Stage.next]
      · simp [starts, mine]
    | _ => rfl

end stages

/-! ## Flows -/

/-- The message waits or is handled. -/
def Stage.alive : Stage → Bool
  | .waiting _ _ | .working _ _ _ => true
  | .fresh | .done _ _ _ _ | .refusing _ _ | .refused _ _ | .ended _ | .wrong => false

/-- Every message has one response at most, and is held as long as it waits or is handled. -/
structure Lived (f : Flow) : Prop where
  once : ∀ {mid}, mid ≠ 0 → (f.stage mid).Once
  held : ∀ {mid}, mid ≠ 0 → (f.stage mid).alive = true →
    ∃ p, ∃ i ∈ f.held p, i.mid = mid ∧ i.kind ≠ .cancel

section flows

variable {policy : Policy} {f f' : Flow}

theorem Rule.once {path : Path} {i : Item} {new : List Item} {mid : Nat} {events : List Event}
    {stage : Stage} (rule : Rule policy path [i] new mid events) (followed : mid ≠ 0)
    (fits : Fits policy path i stage) (once : stage.Once) :
    (events.foldl Stage.next stage).Once := by
  cases rule with
  | start m user =>
    obtain rfl : stage = .waiting m path := fits
    exact .inl rfl
  | suspend | complete | completeSilent => exact once
  | reply m failed =>
    obtain rfl : stage = .working m path [] := fits
    exact .inr ⟨failed, rfl⟩
  | finish m failed =>
    obtain rfl : stage = .working m path [] := fits
    exact .inl ⟨rfl, .inr ⟨failed, rfl⟩⟩
  | finishSilent m silent =>
    obtain rfl : stage = .working m path [] := fits
    exact .inl ⟨rfl, .inl rfl⟩
  | post m =>
    obtain ⟨answers, rfl, -⟩ := fits
    exact .inl ⟨rfl, once⟩
  | drop m | take m | remember m =>
    obtain rfl : stage = .waiting m path := fits
    exact .inl ⟨rfl, .inl rfl⟩
  | acknowledge c =>
    obtain ⟨m, rfl, stop, rfl⟩ := fits
    exact .inr ⟨stop, rfl, rfl⟩
  | overwrite => exact absurd rfl followed

/-- A rule hands a message on as long as it is handled. -/
theorem Rule.hands_on {path : Path} {i : Item} {new : List Item} {mid : Nat} {events : List Event}
    {stage : Stage} (rule : Rule policy path [i] new mid events) (followed : mid ≠ 0)
    (fits : Fits policy path i stage)
    (alive : (events.foldl Stage.next stage).alive = true) :
    ∃ j ∈ new, j.mid = mid ∧ j.kind ≠ .cancel := by
  cases rule with
  | start m | suspend m | complete m | completeSilent m | reply m =>
    exact ⟨_, List.mem_singleton_self _, rfl, by simp⟩
  | finish m | finishSilent m =>
    obtain rfl : stage = .working m path [] := fits
    cases alive
  | post m =>
    obtain ⟨answers, rfl, -⟩ := fits
    cases alive
  | drop m | take m | remember m =>
    obtain rfl : stage = .waiting m path := fits
    cases alive
  | acknowledge c =>
    obtain ⟨m, rfl, -, -⟩ := fits
    cases alive
  | overwrite => exact absurd rfl followed

theorem Lived.rule {path : Path} {old new : List Item} {mid : Nat} {events : List Event}
    (traced : Traced policy f) (lived : Lived f) (rule : Rule policy path old new mid events)
    (change : Change f f' path old new mid events) : Lived f' := by
  obtain ⟨⟨rest, before, after⟩, others, -, stage, -, -⟩ := change
  obtain ⟨-, about, -⟩ := rule.keys
  have same {j : Nat} (other : j ≠ mid ∨ mid = 0) : f'.stage j = f.stage j := by
    rw [stage, record_ne other]
  have effect (followed : mid ≠ 0) : (f'.stage mid).Once ∧ ((f'.stage mid).alive = true →
      ∃ j ∈ new, j.mid = mid ∧ j.kind ≠ .cancel) := by
    obtain ⟨i, rfl, mine⟩ := about.resolve_left followed
    have fits := traced.ledger.fits (p := path) (i := i)
      (before.mem_iff.mpr (by simp)) (mine ▸ followed)
    rw [mine] at fits
    rw [stage, record_self followed]
    exact ⟨rule.once followed fits (lived.once followed), rule.hands_on followed fits⟩
  constructor
  · intro j followed
    by_cases here : j = mid
    · subst here
      exact (effect followed).1
    · rw [same (.inl here)]
      exact lived.once followed
  · intro j followed alive
    by_cases here : j = mid
    · subst here
      obtain ⟨i, isNew, mine, other⟩ := (effect followed).2 alive
      exact ⟨path, i, after.mem_iff.mpr (List.mem_append_left rest isNew), mine, other⟩
    · rw [same (.inl here)] at alive
      obtain ⟨q, i, isHeld, mine, other⟩ := lived.held followed alive
      refine ⟨q, i, ?_, mine, other⟩
      by_cases place : q = path
      · subst place
        rcases List.mem_append.mp (before.mem_iff.mp isHeld) with taken | left
        · rcases rule.lost taken with touched | ⟨isCancel, -⟩
          · exact absurd (mine.symm.trans touched) here
          · exact absurd isCancel other
        · exact after.mem_iff.mpr (List.mem_append_right new left)
      · rw [others q place]
        exact isHeld

/-- A message that is received and put into no mailbox. -/
theorem Lived.receive {m : ActorMessage} {events : List Event} (traced : Traced policy f)
    (lived : Lived f) (new : m.mid = f.nextMid) (held : f'.held = f.held)
    (stage : f'.stage = record f.stage m.mid events)
    (once : (events.foldl Stage.next .fresh).Once)
    (dead : (events.foldl Stage.next .fresh).alive = false) : Lived f' := by
  have followed : m.mid ≠ 0 := new ▸ traced.pos.ne'
  have here : f'.stage m.mid = events.foldl Stage.next .fresh := by
    rw [stage, record_self followed, traced.fresh _ (Nat.le_of_eq new.symm)]
  have same {j : Nat} (other : j ≠ m.mid) : f'.stage j = f.stage j := by
    rw [stage, record_ne (.inl other)]
  constructor
  · intro j known
    by_cases mine : j = m.mid
    · rw [mine, here]
      exact once
    · rw [same mine]
      exact lived.once known
  · intro j known alive
    by_cases mine : j = m.mid
    · rw [mine, here, dead] at alive
      cases alive
    · rw [same mine] at alive
      rw [held]
      exact lived.held known alive

theorem Lived.move (traced : Traced policy f) (lived : Lived f) (move : Move policy f f') :
    Lived f' := by
  cases move with
  | rule rule change => exact lived.rule traced rule change
  | @accept path m new held others atRoot stage arrived nextMid =>
    have followed : m.mid ≠ 0 := new ▸ traced.pos.ne'
    have here : f'.stage m.mid = .waiting m path := by
      rw [stage, record_self followed, traced.fresh _ (Nat.le_of_eq new.symm)]
      rfl
    have same {j : Nat} (other : j ≠ m.mid) : f'.stage j = f.stage j := by
      rw [stage, record_ne (.inl other)]
    constructor
    · intro j known
      by_cases mine : j = m.mid
      · rw [mine, here]
        exact trivial
      · rw [same mine]
        exact lived.once known
    · intro j known alive
      by_cases mine : j = m.mid
      · exact ⟨path, _, held.mem_iff.mpr List.mem_cons_self, mine.symm, by simp⟩
      · rw [same mine] at alive
        obtain ⟨q, i, isHeld, about, other⟩ := lived.held known alive
        refine ⟨q, i, ?_, about, other⟩
        by_cases place : q = path
        · subst place
          exact held.mem_iff.mpr (List.mem_cons_of_mem _ isHeld)
        · rw [others q place]
          exact isHeld
  | @refuse m addr new held atRoot stage arrived nextMid =>
    refine lived.receive traced new held stage ?_ ?_
    · by_cases request : m.prId = 0
      · simp [request, Stage.next, Stage.Once]
      · simp [request, Stage.next, Stage.Once]
    · by_cases request : m.prId = 0
      · simp [request, Stage.next, Stage.alive]
      · simp [request, Stage.next, Stage.alive]
  | @root m events new held which stage arrived nextMid =>
    have which : events = [] ∨ events = [.reclaimed m] := which.elim And.left (.inl ∘ And.left)
    refine lived.receive traced new held stage ?_ ?_
    · rcases which with rfl | rfl
      · exact trivial
      · exact trivial
    · rcases which with rfl | rfl
      · rfl
      · rfl
  | @obeyed m atRoot held stage arrived nextMid =>
    obtain ⟨followed, -, fresh⟩ := traced.atRoot m (atRoot ▸ List.mem_cons_self)
    have here : f'.stage m.mid = .ended m := by
      rw [stage, record_self followed, fresh]
      rfl
    have same {j : Nat} (other : j ≠ m.mid) : f'.stage j = f.stage j := by
      rw [stage, record_ne (.inl other)]
    constructor
    · intro j known
      by_cases mine : j = m.mid
      · rw [mine, here]
        exact trivial
      · rw [same mine]
        exact lived.once known
    · intro j known alive
      by_cases mine : j = m.mid
      · rw [mine, here] at alive
        cases alive
      · rw [same mine] at alive
        rw [held]
        exact lived.held known alive

theorem Lived.moves (traced : Traced policy f) (lived : Lived f) (moves : Moves policy f f') :
    Lived f' := by
  induction moves with
  | refl => exact lived
  | tail first move ih => exact ih.move (traced.moves first) move

/-- A message waits in the mailbox that it was put in. -/
theorem Lived.waits {mid : Nat} {m : ActorMessage} {p : Path} (traced : Traced policy f)
    (lived : Lived f) (followed : mid ≠ 0) (stage : f.stage mid = .waiting m p) :
    ⟨.mail, m⟩ ∈ f.held p := by
  obtain ⟨q, ⟨kind, m'⟩, isHeld, mine, other⟩ := lived.held followed (by rw [stage]; rfl)
  have fits := traced.ledger.fits isHeld (mine ▸ followed)
  rw [mine, stage] at fits
  cases kind with
  | mail =>
    obtain ⟨rfl, rfl⟩ := Stage.waiting.inj fits
    exact isHeld
  | work | flight | reply => cases fits
  | post =>
    obtain ⟨answers, same, -⟩ := fits
    cases same
  | cancel => exact absurd rfl other

/-- A message that is handled is held by the actor that it was put to. -/
theorem Lived.works {mid : Nat} {m : ActorMessage} {p : Path} {answers : List Reply}
    (traced : Traced policy f) (lived : Lived f) (followed : mid ≠ 0)
    (stage : f.stage mid = .working m p answers) :
    ∃ kind, ⟨kind, m⟩ ∈ f.held p ∧ kind ≠ .mail ∧ kind ≠ .cancel := by
  obtain ⟨q, ⟨kind, m'⟩, isHeld, mine, other⟩ := lived.held followed (by rw [stage]; rfl)
  have fits := traced.ledger.fits isHeld (mine ▸ followed)
  rw [mine, stage] at fits
  cases kind with
  | mail => cases fits
  | work | flight | reply =>
    obtain ⟨rfl, rfl, -⟩ := Stage.working.inj fits
    exact ⟨_, isHeld, by simp, by simp⟩
  | post =>
    obtain ⟨answers', same, -⟩ := fits
    obtain ⟨rfl, rfl, -⟩ := Stage.working.inj same
    exact ⟨_, isHeld, by simp, by simp⟩
  | cancel => exact absurd rfl other

/-- The items of one message are one item. -/
theorem Traced.apart (traced : Traced policy f) {p q : Path} {i j : Item} {mid : Nat}
    (followed : mid ≠ 0) (one : i ∈ f.held p) (two : j ∈ f.held q) (mine : i.mid = mid)
    (mine' : j.mid = mid) : p = q ∧ i = j := by
  have fits := traced.ledger.fits one (mine ▸ followed)
  have fits' := traced.ledger.fits two (mine' ▸ followed)
  rw [show Item.mid i = mid from mine] at fits
  rw [show Item.mid j = mid from mine'] at fits'
  obtain rfl : p = q := Option.some.inj (fits.path.symm.trans fits'.path)
  refine ⟨rfl, ?_⟩
  by_contra differ
  have perm := List.perm_cons_erase one
  have once := (keys_perm perm).nodup_iff.mp (traced.ledger.once p)
  rw [keys_cons, if_neg (mine ▸ followed)] at once
  refine (List.nodup_cons.mp once).1 (mem_keys.mpr ⟨mine ▸ followed, j, ?_, mine'.trans mine.symm⟩)
  exact (List.mem_erase_of_ne (Ne.symm differ)).mpr two

end flows

namespace Shard

variable {limitOf : ActorKey → Nat} {s : Shard}

/-- The policy that excuses everything. -/
def laxPolicy : Policy where
  drop := fun _ _ => True
  silent := fun _ => True
  overwrite := fun _ => True

/-- The flow of every reachable state is traced, and its messages live. -/
theorem lived_of_reachable (reachable : Reachable step (init limitOf) s) :
    Traced laxPolicy (flow noExtra s) ∧ Lived (flow noExtra s) := by
  obtain ⟨labels, ran⟩ := reachable
  refine (run_invariant (fun s => AllCounted s ∧ Traced laxPolicy (flow noExtra s) ∧
    Lived (flow noExtra s)) ?_ labels _ s ?_ ran).2
  · rintro t label t' ⟨counted, traced, lived⟩ taken
    have moves : Flows laxPolicy noExtra t t' := flows_step counted
      ⟨fun _ _ _ => trivial, fun _ _ => trivial, fun _ _ => trivial⟩ taken
    exact ⟨counted.step taken, traced.moves moves, lived.moves traced moves⟩
  · refine ⟨allCounted_init limitOf, traced_init limitOf, fun _ => trivial, ?_⟩
    intro mid followed alive
    cases alive

/-- The actor at `p` handles a message: it is in the frame of `do_work`, its method is in flight, or
a continuation of the method waits in the task queue. -/
def Handles (s : Shard) (p : Path) (m : ActorMessage) : Prop :=
  ⟨p, .inWork m⟩ ∈ s.runs ∨
    ∃ sched stop mailbox a, s.objs p = some ⟨sched, stop, mailbox, .actor a⟩ ∧
      (m ∈ a.inFlight ∨ ∃ task ∈ a.taskQueue, (∃ failed, task = .reply m failed) ∨
        ∃ state, task = .post m state)

/-- What holds of a message that a shard has put in a mailbox or refused. -/
structure Handled (s : Shard) (m : ActorMessage) : Prop where
  startedOnce : starts m.mid s.log ≤ 1
  reclaimedOnce : reclaims m.mid s.log ≤ 1
  /-- At most one response is sent, to the slot that the message names. -/
  answeredOnce : answersTo m.mid s.log = [] ∨ ∃ failed, answersTo m.mid s.log = [m.reply failed]
  /-- Nothing happens to a message that was reclaimed, but that a group tells who has stopped it
  that it is gone. -/
  final : ∀ before after, s.log = before ++ .reclaimed m :: after →
    starts m.mid after = 0 ∧ (m.isStop = false → answersTo m.mid after = [])
  /-- It is in one place. -/
  apart : ∀ p q i j, i ∈ s.heldAt p → j ∈ s.heldAt q → i.mid = m.mid → j.mid = m.mid →
    p = q ∧ i = j
  /-- What is held has not been reclaimed, but for the cancel request that is a copy. -/
  alive : ∀ p i, i ∈ s.heldAt p → i.mid = m.mid → i.kind ≠ .cancel → reclaims m.mid s.log = 0
  /-- It waits in the mailbox of its object until it is started or reclaimed. -/
  kept : ∀ p, .enqueued m p ∈ s.log → starts m.mid s.log = 0 → reclaims m.mid s.log = 0 →
    ∃ o, s.objs p = some o ∧ m ∈ o.mailbox
  /-- When it was started, the object handles it until it is reclaimed. -/
  handled : ∀ p, .enqueued m p ∈ s.log → starts m.mid s.log ≠ 0 → reclaims m.mid s.log = 0 →
    s.Handles p m
  /-- It is reclaimed at once when it is refused. -/
  refused : ∀ addr, .rejected m addr ∈ s.log → starts m.mid s.log = 0 ∧ reclaims m.mid s.log = 1

/-- What is held of a message that was not reclaimed. -/
theorem alive_of_fits {path : Path} {i : Item} {stage : Stage} {started reclaimed : Nat}
    (fits : Fits laxPolicy path i stage) (other : i.kind ≠ .cancel)
    (counts : stage.Counts started reclaimed) : reclaimed = 0 := by
  obtain ⟨kind, m⟩ := i
  cases kind with
  | mail =>
    obtain rfl : stage = .waiting m path := fits
    exact counts.2
  | work | flight | reply =>
    obtain rfl : stage = .working m path [] := fits
    exact counts.2
  | post =>
    obtain ⟨answers, rfl, -⟩ := fits
    exact counts.2
  | cancel => exact absurd rfl other

/-- A mail of an object is in its mailbox. -/
theorem mem_mailbox_of_heldAt {p : Path} {m : ActorMessage} (member : ⟨.mail, m⟩ ∈ s.heldAt p) :
    ∃ o, s.objs p = some o ∧ m ∈ o.mailbox := by
  rcases List.mem_append.mp member with stored | working
  · cases found : s.objs p with
    | none =>
      rw [found] at stored
      cases stored
    | some o =>
      rw [found] at stored
      refine ⟨o, rfl, ?_⟩
      rcases List.mem_append.mp stored with mail | body
      · obtain ⟨m', inBox, same⟩ := List.mem_map.mp mail
        obtain rfl : m' = m := congrArg Item.msg same
        exact inBox
      · exfalso
        unfold ActorObject.bodyHeld at body
        split at body
        · simp at body
        · rename_i a _
          rcases List.mem_append.mp body with flying | task
          · simp at flying
          · obtain ⟨task, -, isHeld⟩ := List.mem_flatMap.mp task
            cases task <;> simp [Task.held] at isHeld
  · obtain ⟨frame, -, isHeld⟩ := List.mem_flatMap.mp working
    unfold RunFrame.held at isHeld
    split at isHeld
    · simp at isHeld
    · cases isHeld

/-- A message that an object holds beside its mailbox and its cancel request is handled. -/
theorem handles_of_heldAt {p : Path} {kind : Kind} {m : ActorMessage}
    (member : ⟨kind, m⟩ ∈ s.heldAt p) (notMail : kind ≠ .mail) (notCancel : kind ≠ .cancel) :
    s.Handles p m := by
  rcases List.mem_append.mp member with stored | working
  · cases found : s.objs p with
    | none =>
      rw [found] at stored
      cases stored
    | some o =>
      obtain ⟨sched, stop, mailbox, body⟩ := o
      rw [found] at stored
      rcases List.mem_append.mp stored with mail | inBody
      · obtain ⟨m', -, same⟩ := List.mem_map.mp mail
        exact absurd (congrArg Item.kind same).symm notMail
      · cases body with
        | group g =>
          obtain ⟨m', -, same⟩ := List.mem_map.mp inBody
          exact absurd (congrArg Item.kind same).symm notCancel
        | actor a =>
          refine .inr ⟨sched, stop, mailbox, a, found, ?_⟩
          rcases List.mem_append.mp inBody with flying | queued
          · obtain ⟨m', inFlight, same⟩ := List.mem_map.mp flying
            obtain rfl : m' = m := congrArg Item.msg same
            exact .inl inFlight
          · obtain ⟨task, waits, isHeld⟩ := List.mem_flatMap.mp queued
            refine .inr ⟨task, waits, ?_⟩
            cases task with
            | user => cases isHeld
            | reply m' failed =>
              obtain ⟨-, rfl⟩ := Item.mk.inj (List.mem_singleton.mp isHeld)
              exact .inl ⟨failed, rfl⟩
            | post m' state =>
              obtain ⟨-, rfl⟩ := Item.mk.inj (List.mem_singleton.mp isHeld)
              exact .inr ⟨state, rfl⟩
  · obtain ⟨⟨path, pc⟩, running, isHeld⟩ := List.mem_flatMap.mp working
    obtain ⟨inRuns, here⟩ := List.mem_filter.mp running
    obtain rfl : path = p := by simpa using here
    unfold RunFrame.held at isHeld
    split at isHeld
    · next m' inWork =>
      obtain ⟨-, rfl⟩ := Item.mk.inj (List.mem_singleton.mp isHeld)
      exact .inl (inWork ▸ inRuns)
    · cases isHeld

/-- A message that was put in a mailbox waits there or is handled until it is reclaimed. -/
theorem kept_of_lived {p : Path} {m : ActorMessage} (traced : Traced laxPolicy (flow noExtra s))
    (lived : Lived (flow noExtra s)) (enqueued : .enqueued m p ∈ s.log)
    (notReclaimed : reclaims m.mid s.log = 0) :
    starts m.mid s.log = 0 ∧ (∃ o, s.objs p = some o ∧ m ∈ o.mailbox) ∨
      starts m.mid s.log ≠ 0 ∧ s.Handles p m := by
  obtain ⟨followed, right⟩ := stage_of_traced traced (.inl ⟨p, enqueued⟩)
  have counts := counts_stageOf followed right
  obtain ⟨mine, path⟩ := (origin_stageOf followed right).1 p enqueued
  rw [notReclaimed] at counts
  cases stage : stageOf s.log m.mid with
  | fresh | refusing | refused | ended | wrong =>
    rw [stage] at path
    cases path
  | done msg q answers late =>
    rw [stage] at counts
    cases counts.2
  | waiting msg q =>
    rw [stage] at path mine counts
    obtain rfl := Option.some.inj path
    obtain rfl := Option.some.inj mine
    exact .inl ⟨counts.1, mem_mailbox_of_heldAt (lived.waits traced followed stage)⟩
  | working msg q answers =>
    rw [stage] at path mine counts
    obtain rfl := Option.some.inj path
    obtain rfl := Option.some.inj mine
    obtain ⟨kind, isHeld, notMail, notCancel⟩ := lived.works traced followed stage
    refine .inr ⟨fun none => ?_, handles_of_heldAt isHeld notMail notCancel⟩
    rw [counts.1] at none
    cases none

/-- Every message that a shard has put in a mailbox or refused has one holder at a time, waits until
it is started and is handled until it is reclaimed, is started once, answered once and reclaimed
once at most, and is left alone after that. -/
theorem handled_of_reachable (reachable : Reachable step (init limitOf) s) (m : ActorMessage)
    (arrived : (∃ p, .enqueued m p ∈ s.log) ∨ ∃ addr, .rejected m addr ∈ s.log) :
    s.Handled m := by
  obtain ⟨traced, lived⟩ := lived_of_reachable reachable
  obtain ⟨followed, right⟩ := stage_of_traced traced arrived
  have counts := counts_stageOf followed right
  have once : (stageOf s.log m.mid).Once := lived.once followed
  have mine := msg_of_traced traced arrived
  have all := answers_stageOf followed right
  refine ⟨?_, ?_, ?_, ?_, ?_, ?_, ?_, ?_, ?_⟩
  · cases stage : stageOf s.log m.mid <;> simp_all [Stage.Counts]
  · cases stage : stageOf s.log m.mid <;> simp_all [Stage.Counts]
  · rw [← all]
    exact once.answers mine
  · intro before after split
    have right' := right
    rw [split] at right'
    refine ⟨starts_after followed right', fun user => ?_⟩
    have settled := settled_stageOf followed right'
    have parts : answersTo m.mid s.log = answersTo m.mid before ++ answersTo m.mid after := by
      rw [split]
      exact List.filterMap_append
    rw [← split] at settled
    rw [← all] at parts
    cases stage : stageOf s.log m.mid with
    | fresh | waiting | working | refusing | wrong =>
      rw [stage] at settled
      cases settled
    | ended =>
      rw [stage] at mine
      cases mine
    | done msg path answers late =>
      rw [stage] at settled once parts mine
      obtain rfl := Option.some.inj mine
      obtain rfl := Option.some.inj settled
      rcases once with ⟨rfl, -⟩ | ⟨stop, -, -⟩
      · exact (List.append_cancel_left parts).symm
      · rw [user] at stop
        cases stop
    | refused msg answers =>
      rw [stage] at settled parts
      obtain rfl := Option.some.inj settled
      exact List.self_eq_append_right.mp parts
  · exact fun p q i j one two mine mine' => traced.apart followed one two mine mine'
  · intro p i isHeld same other
    have fits := traced.ledger.fits (p := p) isHeld (same ▸ followed)
    rw [show Item.mid i = m.mid from same] at fits
    exact alive_of_fits fits other counts
  · intro p enqueued notStarted notReclaimed
    rcases kept_of_lived traced lived enqueued notReclaimed with ⟨-, waits⟩ | ⟨started, -⟩
    · exact waits
    · exact absurd notStarted started
  · intro p enqueued started notReclaimed
    rcases kept_of_lived traced lived enqueued notReclaimed with ⟨notStarted, -⟩ | ⟨-, handles⟩
    · exact absurd notStarted started
    · exact handles
  · intro addr rejected
    have path := ((origin_stageOf followed right).2 addr rejected).2
    have sound : Sound _ _ m.mid (stageOf s.log m.mid) := traced.sound followed
    cases stage : stageOf s.log m.mid with
    | fresh | ended | wrong =>
      rw [stage] at mine
      cases mine
    | waiting | working | done =>
      rw [stage] at path
      cases path
    | refusing =>
      rw [stage] at sound
      exact sound.elim
    | refused =>
      rw [stage] at counts
      exact counts

/-- A request that waits for an actor of a scope when the scope is stopped by force. -/
theorem killed_request_handled : killScopeEnd.Handled ⟨1, .user, 3, 5⟩ :=
  handled_of_reachable ⟨killScopeRun, (Option.some_get (by decide)).symm⟩ _
    (.inl ⟨[workerKey, scopeKey], by decide⟩)

end Shard

end Hiactor
