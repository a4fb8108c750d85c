import Mathlib.Data.List.Induction
import Hiactor.Core.Flow

/-!
# Messages are answered

The invariant of a flow: every message that is held somewhere is at the stage that belongs to
what holds it, a request that was reclaimed has been answered unless the policy excuses it, and
a cancel request to a group is waiting, remembered or answered unless the policy excuses it.
-/

namespace Hiactor

open Lib

def ActorMessage.isRequest (m : ActorMessage) : Bool := m.type == .user && m.prId != 0

def ActorMessage.isCancel (m : ActorMessage) : Bool := m.isStop && m.prId != 0

/-- The object that a message was delivered to. -/
def Stage.path? : Stage → Option Path
  | .waiting _ path | .working _ path _ | .done _ path _ _ => some path
  | .fresh | .refusing _ _ | .refused _ _ | .ended _ | .wrong => none

/-- The stage of a message that is held. -/
def Fits (policy : Policy) (path : Path) (i : Item) (stage : Stage) : Prop :=
  match i.kind with
  | .mail => stage = .waiting i.msg path
  | .work | .flight | .reply => stage = .working i.msg path []
  | .post => ∃ answers, stage = .working i.msg path answers ∧
      (policy.silent i.msg ∨ ∃ failed, answers = [i.msg.reply failed])
  | .cancel => ∃ m, stage = .done m path [] [] ∧ m.isStop = true ∧ m.asCancel = i.msg

theorem Fits.path {policy : Policy} {path : Path} {i : Item} {stage : Stage}
    (fits : Fits policy path i stage) : stage.path? = some path := by
  unfold Fits at fits
  cases kind : i.kind with
  | mail | work | flight | reply =>
    simp only [kind] at fits
    rw [fits]
    rfl
  | post =>
    simp only [kind] at fits
    obtain ⟨answers, stage, -⟩ := fits
    rw [stage]
    rfl
  | cancel =>
    simp only [kind] at fits
    obtain ⟨m, stage, -⟩ := fits
    rw [stage]
    rfl

/-- What is known of the stage of the message `mid`. -/
def Sound (policy : Policy) (held : Path → List Item) (mid : Nat) : Stage → Prop
  | .fresh => True
  | .waiting m path => m.mid = mid ∧
      (groupPath path → m.isCancel = true → ⟨.mail, m⟩ ∈ held path)
  | .working m _ _ => m.mid = mid ∧ m.type = .user
  | .done m path answers late => m.mid = mid ∧
      (m.isRequest = true → late = [] ∧
        (policy.drop path m ∨ policy.silent m ∨ ∃ failed, answers = [m.reply failed])) ∧
      (groupPath path → m.isCancel = true → policy.drop path m ∨ policy.overwrite m.asCancel ∨
        answers = [] ∧ (late = [] ∧ ⟨.cancel, m.asCancel⟩ ∈ held path ∨ late = [m.reply false]))
  | .refused m answers => m.mid = mid ∧ (m.prId ≠ 0 → answers = [m.reply true])
  | .ended m => m.mid = mid
  | .refusing _ _ | .wrong => False

structure Traced (policy : Policy) (f : Flow) : Prop where
  ledger : Ledger Item.mid (Fits policy) f.held f.stage
  fresh : ∀ mid, f.nextMid ≤ mid → f.stage mid = .fresh
  pos : 0 < f.nextMid
  arrived : ∀ mid ∈ f.arrived, mid ≠ 0
  sound : ∀ {mid}, mid ≠ 0 → Sound policy f.held mid (f.stage mid)
  atRoot : ∀ m ∈ f.atRoot, m.mid ≠ 0 ∧ m.mid < f.nextMid ∧ f.stage m.mid = .fresh
  distinct : (f.atRoot.map ActorMessage.mid).Nodup

variable {policy : Policy} {f f' : Flow}

/-- The mails and the cancel requests of the message `mid` that are still held carry its stage
over. -/
theorem Sound.of_held {held held' : Path → List Item} {mid : Nat} {stage : Stage}
    (sound : Sound policy held mid stage)
    (mail : ∀ path m, m.mid = mid → ⟨.mail, m⟩ ∈ held path → ⟨.mail, m⟩ ∈ held' path)
    (cancel : ∀ path m, m.mid = mid → ⟨.cancel, m⟩ ∈ held path →
      policy.overwrite m ∨ ⟨.cancel, m⟩ ∈ held' path) :
    Sound policy held' mid stage := by
  cases stage with
  | fresh | working | refusing | refused | ended | wrong => exact sound
  | waiting m path =>
    exact ⟨sound.1, fun group isCancel => mail path m sound.1 (sound.2 group isCancel)⟩
  | done m path answers late =>
    obtain ⟨mine, request, cancels⟩ := sound
    refine ⟨mine, request, fun group isCancel => ?_⟩
    rcases cancels group isCancel with drop | overwrite | ⟨none, ⟨pending, remembered⟩ | answered⟩
    · exact .inl drop
    · exact .inr (.inl overwrite)
    · rcases cancel path m.asCancel mine remembered with lost | kept
      · exact .inr (.inl lost)
      · exact .inr (.inr ⟨none, .inl ⟨pending, kept⟩⟩)
    · exact .inr (.inr ⟨none, .inr answered⟩)

theorem record_self {stage : Nat → Stage} {mid : Nat} (followed : mid ≠ 0) (events : List Event) :
    record stage mid events mid = events.foldl Stage.next (stage mid) := by
  simp [record, followed]

theorem record_ne {stage : Nat → Stage} {mid j : Nat} (other : j ≠ mid ∨ mid = 0)
    (events : List Event) : record stage mid events j = stage j := by
  unfold record
  rw [if_neg]
  rintro ⟨rfl, followed⟩
  exact other.elim (fun ne => ne rfl) followed

/-- The items of a rule have one key, and the events are about it. -/
theorem Rule.keys {path : Path} {old new : List Item} {mid : Nat} {events : List Event}
    (rule : Rule policy path old new mid events) :
    (keys Item.mid new).Sublist (keys Item.mid old) ∧
      (mid = 0 ∨ ∃ i, old = [i] ∧ i.mid = mid) ∧ ∀ i ∈ new, i.mid = 0 ∨ i.mid = mid := by
  cases rule with
  | start | suspend | complete | completeSilent | reply | remember =>
    refine ⟨?_, .inr ⟨_, rfl, rfl⟩, by simp [Item.mid, ActorMessage.asCancel]⟩
    simp only [keys_cons, Item.mid, ActorMessage.asCancel]
    exact List.Sublist.refl _
  | finish | finishSilent | post | drop | take | acknowledge =>
    exact ⟨List.nil_sublist _, .inr ⟨_, rfl, rfl⟩, by simp⟩
  | overwrite | rest => exact ⟨List.nil_sublist _, .inl rfl, by simp⟩
  | internal m zero =>
    refine ⟨?_, .inl rfl, by simp [Item.mid, zero]⟩
    simp [keys_cons, Item.mid, zero]

/-- What a rule takes away without an event is a cancel request that the policy does not
protect. -/
theorem Rule.lost {path : Path} {old new : List Item} {mid : Nat} {events : List Event}
    (rule : Rule policy path old new mid events) {i : Item} (taken : i ∈ old) :
    i.mid = mid ∨ i.kind = .cancel ∧ policy.overwrite i.msg := by
  cases rule with
  | start | suspend | complete | completeSilent | reply | remember | finish | finishSilent | post
  | drop | take | acknowledge => exact .inl (by rw [List.mem_singleton.mp taken]; rfl)
  | overwrite m overwrite =>
    obtain rfl := List.mem_singleton.mp taken
    exact .inr ⟨rfl, overwrite⟩
  | rest | internal => cases taken

theorem Rule.quiet {path : Path} {old new : List Item} {mid : Nat} {events : List Event}
    (rule : Rule policy path old new mid events) : ∀ e ∈ events, e.arrival = none := by
  cases rule <;> simp [Event.arrival]

theorem not_request_of_stop {m : ActorMessage} (stop : m.isStop = true) : m.isRequest ≠ true := by
  unfold ActorMessage.isStop at stop
  unfold ActorMessage.isRequest
  cases type : m.type <;> simp [type] at stop ⊢

theorem not_cancel_of_user {m : ActorMessage} (user : m.type = .user) : m.isCancel ≠ true := by
  simp [ActorMessage.isCancel, ActorMessage.isStop, user]

/-- The message of a rule goes on to a stage that fits what holds it then. -/
theorem Rule.sound {path : Path} {i : Item} {new : List Item} {mid : Nat} {events : List Event}
    {held held' : Path → List Item} {stage : Stage}
    (rule : Rule policy path [i] new mid events) (followed : mid ≠ 0)
    (fits : Fits policy path i stage) (sound : Sound policy held mid stage)
    (isHeld : ∀ j ∈ new, j ∈ held' path) :
    (∀ j ∈ new, Fits policy path j (events.foldl Stage.next stage)) ∧
      Sound policy held' mid (events.foldl Stage.next stage) := by
  cases rule with
  | start m user =>
    obtain rfl : stage = .waiting m path := fits
    exact ⟨by simp [Fits, Stage.next], sound.1, user⟩
  | suspend m =>
    obtain rfl : stage = .working m path [] := fits
    exact ⟨by simp [Fits], sound⟩
  | complete m =>
    obtain rfl : stage = .working m path [] := fits
    exact ⟨by simp [Fits], sound⟩
  | completeSilent m silent =>
    obtain rfl : stage = .working m path [] := fits
    refine ⟨?_, sound⟩
    intro j member
    obtain rfl := List.mem_singleton.mp member
    exact ⟨[], rfl, .inl silent⟩
  | reply m failed =>
    obtain rfl : stage = .working m path [] := fits
    refine ⟨?_, sound⟩
    intro j member
    obtain rfl := List.mem_singleton.mp member
    exact ⟨[m.reply failed], rfl, .inr ⟨failed, rfl⟩⟩
  | finish m failed =>
    obtain rfl : stage = .working m path [] := fits
    refine ⟨by simp, sound.1, fun _ => ⟨rfl, .inr (.inr ⟨failed, rfl⟩)⟩, fun _ isCancel => ?_⟩
    exact absurd isCancel (not_cancel_of_user sound.2)
  | finishSilent m silent =>
    obtain rfl : stage = .working m path [] := fits
    refine ⟨by simp, sound.1, fun _ => ⟨rfl, .inr (.inl silent)⟩, fun _ isCancel => ?_⟩
    exact absurd isCancel (not_cancel_of_user sound.2)
  | post m =>
    obtain ⟨answers, working, answered⟩ := fits
    subst working
    refine ⟨by simp, sound.1, fun _ => ⟨rfl, .inr answered⟩, fun _ isCancel => ?_⟩
    exact absurd isCancel (not_cancel_of_user sound.2)
  | drop m drop =>
    obtain rfl : stage = .waiting m path := fits
    exact ⟨by simp, sound.1, fun _ => ⟨rfl, .inl drop⟩, fun _ _ => .inl drop⟩
  | take m stop plain =>
    obtain rfl : stage = .waiting m path := fits
    refine ⟨by simp, sound.1, fun request => absurd request (not_request_of_stop stop), ?_⟩
    intro group isCancel
    simp [ActorMessage.isCancel, plain group] at isCancel
  | remember m stop =>
    obtain rfl : stage = .waiting m path := fits
    refine ⟨?_, sound.1, fun request => absurd request (not_request_of_stop stop), fun _ _ => ?_⟩
    · intro j member
      obtain rfl := List.mem_singleton.mp member
      exact ⟨m, rfl, stop, rfl⟩
    · exact .inr (.inr ⟨rfl, .inl ⟨rfl, isHeld _ (List.mem_singleton_self _)⟩⟩)
  | acknowledge c =>
    obtain ⟨m, done, stop, same⟩ := fits
    subst done same
    exact ⟨by simp, sound.1, fun request => absurd request (not_request_of_stop stop),
      fun _ _ => .inr (.inr ⟨rfl, .inr rfl⟩)⟩
  | overwrite => exact absurd rfl followed

theorem Traced.rule {path : Path} {old new : List Item} {mid : Nat} {events : List Event}
    (traced : Traced policy f) (rule : Rule policy path old new mid events)
    (change : Change f f' path old new mid events) : Traced policy f' := by
  obtain ⟨⟨rest, before, after⟩, others, atRoot, stage, arrived, nextMid⟩ := change
  obtain ⟨fewer, about, inNew⟩ := rule.keys
  have isHeld : ∀ j ∈ new, j ∈ f'.held path :=
    fun j member => after.mem_iff.mpr (List.mem_append_left rest member)
  have same {j : Nat} (other : j ≠ mid ∨ mid = 0) : f'.stage j = f.stage j := by
    rw [stage, record_ne other]
  -- the message of the rule, if it is followed
  have effect (followed : mid ≠ 0) : (f.stage mid).path? = some path ∧
      (∀ j ∈ new, Fits policy path j (f'.stage mid)) ∧
      Sound policy f'.held mid (f'.stage mid) := by
    obtain ⟨i, rfl, mine⟩ := about.resolve_left followed
    have fits := traced.ledger.fits (p := path) (i := i)
      (before.mem_iff.mpr (by simp)) (mine ▸ followed)
    rw [mine] at fits
    have sound := rule.sound followed fits (traced.sound followed) isHeld
    rw [stage, record_self followed]
    exact ⟨fits.path, sound⟩
  -- a message without a stage is not the one of the rule
  have fresh {j : Nat} (known : f.stage j = .fresh) : f'.stage j = .fresh := by
    refine (same (or_iff_not_imp_right.mpr fun followed here => ?_)).trans known
    have path := (effect followed).1
    rw [← here, known] at path
    cases path
  refine ⟨?_, ?_, nextMid ▸ traced.pos, arrived ▸ traced.arrived, ?_, ?_, ?_⟩
  · refine traced.ledger.replace (fun first second => ?_) before after others fewer ?_ ?_
    · exact Option.some.inj (first.path.symm.trans second.path)
    · intro j notOld
      refine same (or_iff_not_imp_right.mpr fun followed here => notOld ?_)
      obtain ⟨i, rfl, mine⟩ := about.resolve_left followed
      exact mem_keys.mpr ⟨here ▸ followed, i, List.mem_singleton_self i, mine.trans here.symm⟩
    · intro i member followed
      have mine := (inNew i member).resolve_left followed
      rw [mine] at followed ⊢
      exact (effect followed).2.1 i member
  · intro j later
    exact fresh (traced.fresh j (nextMid ▸ later))
  · intro j followed
    by_cases here : j = mid
    · subst here
      exact (effect followed).2.2
    · rw [same (.inl here)]
      have kept {q : Path} {i : Item} (member : i ∈ f.held q) :
          i ∈ f'.held q ∨ i ∈ old := by
        by_cases same : q = path
        · subst same
          rcases List.mem_append.mp (before.mem_iff.mp member) with taken | left
          · exact .inr taken
          · exact .inl (after.mem_iff.mpr (List.mem_append_right new left))
        · rw [others q same]
          exact .inl member
      refine (traced.sound followed).of_held ?_ ?_
      · intro q m mine member
        refine (kept member).resolve_right fun taken => ?_
        rcases rule.lost taken with touched | ⟨isCancel, -⟩
        · exact here (mine.symm.trans touched)
        · cases isCancel
      · intro q m mine member
        rcases kept member with still | taken
        · exact .inr still
        · rcases rule.lost taken with touched | ⟨-, overwritten⟩
          · exact absurd (mine.symm.trans touched) here
          · exact .inl overwritten
  · intro m member
    obtain ⟨followed, old, stage⟩ := traced.atRoot m (atRoot ▸ member)
    exact ⟨followed, nextMid ▸ old, fresh stage⟩
  · exact atRoot ▸ traced.distinct

/-- A new message is held nowhere. -/
theorem Traced.absent (traced : Traced policy f) (q : Path) :
    f.nextMid ∉ keys Item.mid (f.held q) := by
  intro member
  obtain ⟨followed, i, isHeld, mine⟩ := mem_keys.mp member
  have path := (traced.ledger.fits isHeld (mine ▸ followed)).path
  rw [mine, traced.fresh _ (Nat.le_refl _)] at path
  cases path

theorem Traced.arrives {mid : Nat} (traced : Traced policy f) (followed : mid ≠ 0)
    (arrived : f'.arrived = f.arrived ∨ f'.arrived = f.arrived ++ [mid]) :
    ∀ j ∈ f'.arrived, j ≠ 0 := by
  intro j member
  rcases arrived with same | more
  · exact traced.arrived j (same ▸ member)
  · rw [more] at member
    rcases List.mem_append.mp member with old | new
    · exact traced.arrived j old
    · exact List.mem_singleton.mp new ▸ followed

/-- The messages at the root after one more message was received. -/
theorem Traced.atRoot_receive {m : ActorMessage} (traced : Traced policy f)
    (new : m.mid = f.nextMid) (atRoot : f'.atRoot = f.atRoot)
    (same : ∀ j, j ≠ m.mid → f'.stage j = f.stage j) (nextMid : f'.nextMid = f.nextMid + 1) :
    ∀ m' ∈ f'.atRoot, m'.mid ≠ 0 ∧ m'.mid < f'.nextMid ∧ f'.stage m'.mid = .fresh := by
  intro m' member
  obtain ⟨followed, old, fresh⟩ := traced.atRoot m' (atRoot ▸ member)
  exact ⟨followed, by omega, (same _ (by omega)).trans fresh⟩

/-- A new message that is held nowhere. -/
theorem Traced.receive {m : ActorMessage} {events : List Event} (traced : Traced policy f)
    (new : m.mid = f.nextMid) (held : f'.held = f.held) (atRoot : f'.atRoot = f.atRoot)
    (stage : f'.stage = record f.stage m.mid events)
    (arrived : f'.arrived = f.arrived ∨ f'.arrived = f.arrived ++ [m.mid])
    (nextMid : f'.nextMid = f.nextMid + 1)
    (sound : Sound policy f.held m.mid (events.foldl Stage.next .fresh)) : Traced policy f' := by
  have followed : m.mid ≠ 0 := new ▸ traced.pos.ne'
  have same {j : Nat} (other : j ≠ m.mid) : f'.stage j = f.stage j := by
    rw [stage, record_ne (.inl other)]
  refine ⟨⟨?_, ?_⟩, ?_, by omega, traced.arrives followed arrived, ?_,
    traced.atRoot_receive new atRoot (fun _ => same) nextMid, atRoot ▸ traced.distinct⟩
  · intro p i member known
    rw [held] at member
    have other : i.mid ≠ m.mid := by
      intro mine
      rw [new] at mine
      exact traced.absent p (mem_keys.mpr ⟨mine ▸ known, i, member, mine⟩)
    rw [same other]
    exact traced.ledger.fits member known
  · intro p
    rw [held]
    exact traced.ledger.once p
  · intro j later
    rw [same (by omega)]
    exact traced.fresh j (by omega)
  · intro j known
    rw [held]
    by_cases here : j = m.mid
    · subst here
      rw [stage, record_self followed, traced.fresh _ (Nat.le_of_eq new.symm)]
      exact sound
    · rw [same here]
      exact traced.sound known

/-- A new message that the root begins to obey. -/
theorem Traced.obeys {m : ActorMessage} (traced : Traced policy f) (new : m.mid = f.nextMid)
    (held : f'.held = f.held) (atRoot : f'.atRoot = m :: f.atRoot)
    (stage : f'.stage = record f.stage m.mid []) (arrived : f'.arrived = f.arrived)
    (nextMid : f'.nextMid = f.nextMid + 1) : Traced policy f' := by
  have same : f'.stage = f.stage := by
    rw [stage]
    funext j
    simp [record]
  have fresh : f.stage m.mid = .fresh := traced.fresh _ (Nat.le_of_eq new.symm)
  refine ⟨?_, ?_, by omega, arrived ▸ traced.arrived, ?_, ?_, ?_⟩
  · rw [held, same]
    exact traced.ledger
  · intro j later
    rw [same]
    exact traced.fresh j (by omega)
  · rw [held, same]
    exact traced.sound
  · intro m' member
    rw [atRoot] at member
    rcases List.mem_cons.mp member with rfl | old
    · exact ⟨new ▸ traced.pos.ne', by omega, same ▸ fresh⟩
    · obtain ⟨followed, before, stage⟩ := traced.atRoot m' old
      exact ⟨followed, by omega, same ▸ stage⟩
  · rw [atRoot, List.map_cons, List.nodup_cons]
    refine ⟨fun member => ?_, traced.distinct⟩
    obtain ⟨m', old, mine⟩ := List.mem_map.mp member
    have before := (traced.atRoot m' old).2.1
    omega

/-- The root reclaims a message that it has obeyed. -/
theorem Traced.obeyed {m : ActorMessage} (traced : Traced policy f)
    (atRoot : f.atRoot = m :: f'.atRoot) (held : f'.held = f.held)
    (stage : f'.stage = record f.stage m.mid [.reclaimed m]) (arrived : f'.arrived = f.arrived)
    (nextMid : f'.nextMid = f.nextMid) : Traced policy f' := by
  obtain ⟨followed, old, fresh⟩ := traced.atRoot m (atRoot ▸ List.mem_cons_self)
  have distinct := traced.distinct
  rw [atRoot, List.map_cons, List.nodup_cons] at distinct
  have here : f'.stage m.mid = .ended m := by
    rw [stage, record_self followed, fresh]
    rfl
  have same {j : Nat} (other : j ≠ m.mid) : f'.stage j = f.stage j := by
    rw [stage, record_ne (.inl other)]
  refine ⟨⟨?_, ?_⟩, ?_, nextMid ▸ traced.pos, arrived ▸ traced.arrived, ?_, ?_, distinct.2⟩
  · intro p i member known
    rw [held] at member
    have fits := traced.ledger.fits member known
    have other : i.mid ≠ m.mid := by
      intro mine
      have path := fits.path
      rw [show Item.mid i = m.mid from mine, fresh] at path
      cases path
    rw [same other]
    exact fits
  · intro p
    rw [held]
    exact traced.ledger.once p
  · intro j later
    rw [same (by omega)]
    exact traced.fresh j (nextMid ▸ later)
  · intro j known
    rw [held]
    by_cases mine : j = m.mid
    · rw [mine, here]
      exact rfl
    · rw [same mine]
      exact traced.sound known
  · intro m' member
    obtain ⟨followed', old', fresh'⟩ := traced.atRoot m' (atRoot ▸ List.mem_cons_of_mem m member)
    have other : m'.mid ≠ m.mid :=
      fun mine => distinct.1 (mine ▸ List.mem_map_of_mem member)
    exact ⟨followed', nextMid ▸ old', (same other).trans fresh'⟩

theorem Traced.move (traced : Traced policy f) (move : Move policy f f') : Traced policy f' := by
  cases move with
  | rule rule change => exact traced.rule rule change
  | @accept path m new held others atRoot stage arrived nextMid =>
    have followed : m.mid ≠ 0 := new ▸ traced.pos.ne'
    have here : f'.stage m.mid = .waiting m path := by
      rw [stage, record_self followed, traced.fresh _ (Nat.le_of_eq new.symm)]
      rfl
    have same {j : Nat} (other : j ≠ m.mid) : f'.stage j = f.stage j := by
      rw [stage, record_ne (.inl other)]
    have kept {q : Path} {i : Item} (member : i ∈ f.held q) : i ∈ f'.held q := by
      by_cases where' : q = path
      · subst where'
        exact held.mem_iff.mpr (List.mem_cons_of_mem _ member)
      · rw [others q where']
        exact member
    refine ⟨?_, ?_, by omega, traced.arrives followed (.inr arrived), ?_,
      traced.atRoot_receive new atRoot (fun _ => same) nextMid, atRoot ▸ traced.distinct⟩
    · refine traced.ledger.insert held others ?_ (fun j other => same other) (fun _ => here)
      intro q
      show m.mid ∉ _
      rw [new]
      exact traced.absent q
    · intro j later
      rw [same (by omega)]
      exact traced.fresh j (by omega)
    · intro j known
      by_cases mine : j = m.mid
      · subst mine
        rw [here]
        exact ⟨rfl, fun _ _ => held.mem_iff.mpr List.mem_cons_self⟩
      · rw [same mine]
        exact (traced.sound known).of_held (fun _ _ _ => kept) (fun _ _ _ => .inr ∘ kept)
  | @refuse m addr new held atRoot stage arrived nextMid =>
    refine traced.receive new held atRoot stage (.inr arrived) nextMid ?_
    by_cases request : m.prId = 0
    · simp [request, Stage.next, Sound]
    · simp [request, Stage.next, Sound]
  | @root m events new held which stage arrived nextMid =>
    rcases which with ⟨which, atRoot⟩ | ⟨rfl, atRoot⟩
    · refine traced.receive new held atRoot stage (.inl arrived) nextMid ?_
      rcases which with rfl | rfl
      · exact trivial
      · rfl
    · exact traced.obeys new held atRoot stage arrived nextMid
  | @obeyed m atRoot held stage arrived nextMid =>
    exact traced.obeyed atRoot held stage arrived nextMid

theorem Traced.moves (traced : Traced policy f) (moves : Moves policy f f') : Traced policy f' := by
  induction moves with
  | refl => exact traced
  | tail _ move ih => exact ih.move move

/-! ## Stages of a log -/

section stages

variable {log : List Event} {mid : Nat}

theorem stageOf_append (log more : List Event) (mid : Nat) :
    stageOf (log ++ more) mid = more.foldl (Stage.track mid) (stageOf log mid) := List.foldl_append

theorem track_wrong (mid : Nat) (e : Event) : Stage.track mid .wrong e = .wrong := by
  unfold Stage.track
  split
  · cases e <;> rfl
  · rfl

theorem stageOf_shorter {more : List Event} (right : stageOf (log ++ more) mid ≠ .wrong) :
    stageOf log mid ≠ .wrong := by
  intro wrong
  refine right ?_
  rw [stageOf_append, wrong]
  clear right
  induction more with
  | nil => rfl
  | cons e more ih => rw [List.foldl_cons, track_wrong, ih]

/-- The responses that a step of a stage adds. -/
theorem answers_next {stage : Stage} {e : Event} (about : e.about = some mid)
    (right : stage.next e ≠ .wrong) :
    (stage.next e).answers = stage.answers ++ answersTo mid [e] := by
  cases stage <;> cases e <;> simp_all [Stage.next, Stage.answers, answersTo, Event.about]

/-- The stage of a message counts the responses to it. -/
theorem answers_stageOf (followed : mid ≠ 0) (right : stageOf log mid ≠ .wrong) :
    (stageOf log mid).answers = answersTo mid log := by
  induction log using List.reverseRecOn with
  | nil => rfl
  | append_singleton log e ih =>
    have before := ih (stageOf_shorter right)
    have split : answersTo mid (log ++ [e]) = answersTo mid log ++ answersTo mid [e] :=
      List.filterMap_append
    rw [stageOf_append] at right ⊢
    simp only [List.foldl_cons, List.foldl_nil, Stage.track] at right ⊢
    by_cases about : e.about = some mid
    · rw [if_pos ⟨followed, about⟩] at right ⊢
      rw [answers_next about right, before, split]
    · rw [if_neg (fun both => about both.2), before, split]
      have none : answersTo mid [e] = [] := by
        cases e with
        | sent path reply =>
          have other : reply.mid ≠ mid := fun mine => about (congrArg some mine)
          simp [answersTo, other]
        | _ => rfl
      rw [none, List.append_nil]

theorem msg_next {stage : Stage} {e : Event} {m : ActorMessage} (mine : stage.msg? = some m)
    (right : stage.next e ≠ .wrong) :
    (stage.next e).msg? = some m ∧ (stage.next e).path? = stage.path? := by
  cases stage <;> cases e <;> simp_all [Stage.next, Stage.msg?, Stage.path?]

/-- A message that was delivered keeps its object, and one that was rejected has none. -/
theorem origin_stageOf {m : ActorMessage} (followed : m.mid ≠ 0)
    (right : stageOf log m.mid ≠ .wrong) :
    (∀ path, .enqueued m path ∈ log → (stageOf log m.mid).msg? = some m ∧
      (stageOf log m.mid).path? = some path) ∧
    (∀ addr, .rejected m addr ∈ log → (stageOf log m.mid).msg? = some m ∧
      (stageOf log m.mid).path? = none) := by
  induction log using List.reverseRecOn with
  | nil => simp
  | append_singleton log e ih =>
    have before := ih (stageOf_shorter right)
    rw [stageOf_append] at right ⊢
    simp only [List.foldl_cons, List.foldl_nil, Stage.track] at right ⊢
    -- what the event does to the stage that was known before
    have keep {path : Option Path} (known : (stageOf log m.mid).msg? = some m ∧
        (stageOf log m.mid).path? = path) :
        (if m.mid ≠ 0 ∧ e.about = some m.mid then (stageOf log m.mid).next e
          else stageOf log m.mid).msg? = some m ∧
        (if m.mid ≠ 0 ∧ e.about = some m.mid then (stageOf log m.mid).next e
          else stageOf log m.mid).path? = path := by
      split at right
      · rename_i about
        rw [if_pos about]
        have next := msg_next known.1 right
        exact ⟨next.1, next.2.trans known.2⟩
      · rename_i about
        rw [if_neg about]
        exact known
    constructor
    · intro path member
      rcases List.mem_append.mp member with old | new
      · exact keep (before.1 path old)
      · obtain rfl := (List.mem_singleton.mp new).symm
        rw [if_pos ⟨followed, rfl⟩] at right ⊢
        cases stage : stageOf log m.mid <;> simp_all [Stage.next, Stage.msg?, Stage.path?]
    · intro addr member
      rcases List.mem_append.mp member with old | new
      · exact keep (before.2 addr old)
      · obtain rfl := (List.mem_singleton.mp new).symm
        rw [if_pos ⟨followed, rfl⟩] at right ⊢
        cases stage : stageOf log m.mid <;> simp_all [Stage.next, Stage.msg?, Stage.path?]

/-- The responses that were sent before the message was reclaimed, if it was. -/
def Stage.settled : Stage → Option (List Reply)
  | .done _ _ answers _ => some answers
  | .refused _ answers => some answers
  | .ended _ => some []
  | .fresh | .waiting _ _ | .working _ _ _ | .refusing _ _ | .wrong => none

theorem settled_next {stage : Stage} {e : Event} {answers : List Reply}
    (settled : stage.settled = some answers) (right : stage.next e ≠ .wrong) :
    (stage.next e).settled = some answers := by
  cases stage <;> cases e <;> simp_all [Stage.next, Stage.settled]

/-- The stage of a message that was reclaimed tells which responses were sent before. -/
theorem settled_stageOf {m : ActorMessage} {before after : List Event} (followed : m.mid ≠ 0)
    (right : stageOf (before ++ .reclaimed m :: after) m.mid ≠ .wrong) :
    (stageOf (before ++ .reclaimed m :: after) m.mid).settled = some (answersTo m.mid before) := by
  induction after using List.reverseRecOn with
  | nil =>
    have first := stageOf_shorter right
    have answers := answers_stageOf followed first
    rw [stageOf_append] at right ⊢
    simp only [List.foldl_cons, List.foldl_nil, Stage.track] at right ⊢
    rw [if_pos ⟨followed, rfl⟩] at right ⊢
    rw [← answers]
    cases stage : stageOf before m.mid <;>
      simp_all [Stage.next, Stage.settled, Stage.answers]
  | append_singleton after e ih =>
    have split : before ++ .reclaimed m :: (after ++ [e]) =
        (before ++ .reclaimed m :: after) ++ [e] := by simp
    rw [split] at right ⊢
    have settled := ih (stageOf_shorter right)
    rw [stageOf_append] at right ⊢
    simp only [List.foldl_cons, List.foldl_nil, Stage.track] at right ⊢
    by_cases about : m.mid ≠ 0 ∧ e.about = some m.mid
    · rw [if_pos about] at right ⊢
      exact settled_next settled right
    · rw [if_neg about]
      exact settled

end stages

end Hiactor
