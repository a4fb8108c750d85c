import Mathlib.Data.List.Induction
import Hiactor.Core.Sleepers

/-!
# No shard sleeps on messages that nobody tells it about

From the moment that a shard passes its own barrier its flag is set in memory, or somebody has
cleared it and is going to raise its event. A push that the barrier does not make visible comes
after the barrier, so that its thread finds the flag set or cleared by such a somebody.
-/

namespace Hiactor

open Lib

namespace Sleepers

variable {α : Type} {m m' : Sleepers α} {i j s : Nat}

/-! ## Invariants -/

/-- The event of shard `i` is raised, or somebody who has found its flag set will raise it. -/
def Claimed (m : Sleepers α) (i : Nat) : Prop :=
  m.notified i = true ∨ ∃ j, m.sending j = .clearing i ∨ m.sending j = .waking i

/-- The flag of shard `i` is set, or somebody has cleared it. -/
def Flagged (m : Sleepers α) (i : Nat) : Prop := m.sleeping i = true ∨ m.Claimed i

/-- Shard `j` has not yet loaded the flag of shard `i` after a push, or it need not. -/
def Covered (m : Sleepers α) (i j : Nat) : Prop := m.Claimed i ∨ m.sending j = .checking i

/-- No store of shard `i` to its own flag waits. -/
def Own (m : Sleepers α) (i : Nat) : Prop := ∀ value, .sleeping i value ∉ m.buffer i

/-- Pushes of shard `j` that wait are covered. -/
def PushCovered (m : Sleepers α) (i j : Nat) : Prop :=
  ∀ kind messages, .push kind i messages ∈ m.buffer j → m.Covered i j

/-- Messages of shard `j` in a ring are covered. -/
def RingCovered (m : Sleepers α) (kind : ChannelKind) (i j : Nat) : Prop :=
  m.ring kind i j ≠ [] → m.Covered i j

/-- What a shard that has called the barrier has stored, or what came of it. -/
def Entering (m : Sleepers α) (i : Nat) : Prop :=
  m.sending i = .idle ∧
    ((∃ before, m.buffer i = before ++ [.sleeping i true]) ∨ m.buffer i = [] ∧ m.Flagged i)

/-- What holds of shard `i` in its mode. -/
def ModeOk (m : Sleepers α) (i : Nat) : SleepMode → Prop
  | .awake => True
  | .barrier todo =>
    if i ∈ todo then
      (∀ j < m.count, j ∈ todo) ∧ m.Entering i
    else m.Own i ∧ m.Flagged i ∧ ∀ j, j ∉ todo → m.PushCovered i j
  | .polling todo found => m.Own i ∧ m.Flagged i ∧ (∀ j, m.PushCovered i j) ∧
      (found = false → ∀ kind j, (kind, j) ∉ todo → m.RingCovered kind i j)
  | .asleep => m.Own i ∧ m.Flagged i ∧ (∀ j, m.PushCovered i j) ∧ ∀ kind j, m.RingCovered kind i j

/-- What holds in every reachable state. -/
structure Guarded (m : Sleepers α) : Prop where
  /-- A shard wakes others only. -/
  others : ∀ j i, m.sending j = .checking i ∨ m.sending j = .clearing i ∨ m.sending j = .waking i →
    j < m.count ∧ j ≠ i
  /-- A store of another shard to the flag is followed by a wakeup. -/
  clears : ∀ j i value, j ≠ i → .sleeping i value ∈ m.buffer j → m.sending j = .waking i
  /-- Queues lead from one shard of the machine to another. -/
  inside : ∀ kind i j messages, .push kind i messages ∈ m.buffer j → j < m.count ∧ j ≠ i
  rings : ∀ kind i j, m.ring kind i j ≠ [] → j < m.count ∧ j ≠ i
  mode : ∀ i, m.ModeOk i (m.mode i)

/-- A step that keeps what is known of shard `i`. -/
structure Keeps (m m' : Sleepers α) (i : Nat) : Prop where
  count : m'.count = m.count
  own : m.Own i → m'.Own i
  flagged : m.Own i → m.Flagged i → m'.Flagged i
  covered : m.Own i → m.Flagged i → ∀ j, m.PushCovered i j → m'.PushCovered i j
  ring : m.Own i → m.Flagged i → ∀ kind j, m.PushCovered i j → m.RingCovered kind i j →
    m'.RingCovered kind i j
  entering : (∃ todo, m.mode i = .barrier todo) → m.Entering i → m'.Entering i

theorem Keeps.modeOk (keeps : Keeps m m' i) (ok : m.ModeOk i (m.mode i)) :
    m'.ModeOk i (m.mode i) := by
  cases mode : m.mode i with
  | awake => trivial
  | barrier todo =>
    rw [mode] at ok
    by_cases member : i ∈ todo
    · simp only [ModeOk, if_pos member] at ok ⊢
      rw [keeps.count]
      exact ⟨ok.1, keeps.entering ⟨todo, mode⟩ ok.2⟩
    · simp only [ModeOk, if_neg member] at ok ⊢
      obtain ⟨own, flagged, covered⟩ := ok
      exact ⟨keeps.own own, keeps.flagged own flagged,
        fun j notTodo => keeps.covered own flagged j (covered j notTodo)⟩
  | polling todo found =>
    rw [mode] at ok
    obtain ⟨own, flagged, covered, rings⟩ := ok
    refine ⟨keeps.own own, keeps.flagged own flagged,
      fun j => keeps.covered own flagged j (covered j), fun empty kind j polled => ?_⟩
    exact keeps.ring own flagged kind j (covered j) (rings empty kind j polled)
  | asleep =>
    rw [mode] at ok
    obtain ⟨own, flagged, covered, rings⟩ := ok
    exact ⟨keeps.own own, keeps.flagged own flagged,
      fun j => keeps.covered own flagged j (covered j),
      fun kind j => keeps.ring own flagged kind j (covered j) (rings kind j)⟩

theorem own_of_empty (empty : m.buffer i = []) : m.Own i := by
  intro value member
  rw [empty] at member
  cases member

/-- No store goes to memory, and what covers a push goes on to cover it. -/
theorem Keeps.of_covered (count : m'.count = m.count) (own : m.Own i → m'.Own i)
    (flagged : m.Flagged i → m'.Flagged i)
    (covered : m.Flagged i → ∀ j, m.Covered i j → m'.Covered i j)
    (pushes : ∀ kind j messages, .push kind i messages ∈ m'.buffer j →
      .push kind i messages ∈ m.buffer j ∨ m'.Covered i j)
    (rings : ∀ kind j, m'.ring kind i j = m.ring kind i j)
    (still : (∃ todo, m.mode i = .barrier todo) → m.sending i = .idle →
      m'.buffer i = m.buffer i ∧ m'.sending i = .idle) : Keeps m m' i where
  count := count
  own := own
  flagged := fun _ => flagged
  covered := by
    intro _ isFlagged j before kind messages member
    rcases pushes kind j messages member with old | new
    · exact covered isFlagged j (before kind messages old)
    · exact new
  ring := by
    intro _ isFlagged kind j _ before some
    rw [rings] at some
    exact covered isFlagged j (before some)
  entering := by
    intro barrier ⟨idle, entering⟩
    obtain ⟨same, idle'⟩ := still barrier idle
    refine ⟨idle', ?_⟩
    rw [same]
    exact entering.imp_right fun ⟨empty, isFlagged⟩ => ⟨empty, flagged isFlagged⟩

/-! ## Accesses of `move_pending` -/

theorem mem_store {st st' : Store α} :
    st ∈ (m.store s st').buffer j ↔ st ∈ m.buffer j ∨ j = s ∧ st = st' := by
  show st ∈ Function.update m.buffer s (m.buffer s ++ [st']) j ↔ _
  by_cases here : j = s
  · subst here
    rw [Function.update_self, List.mem_append, List.mem_singleton]
    simp
  · rw [Function.update_of_ne here]
    simp [here]

theorem sending_setSending (sending : Sending) :
    (m.setSending s sending).sending j = if j = s then sending else m.sending j :=
  Function.update_apply ..

/-- A thread that loads a flag has no store to it in its buffer. -/
theorem load_eq_of_notMem (absent : ∀ value, .sleeping i value ∉ m.buffer s) :
    m.load s i = m.sleeping i := by
  unfold load
  generalize m.buffer s = stores at absent
  induction stores using List.reverseRecOn with
  | nil => rfl
  | append_singleton stores st ih =>
    have earlier := ih fun value member => absent value (List.mem_append_left _ member)
    rw [List.foldl_append, earlier]
    cases st with
    | push => rfl
    | sleeping shard value =>
      have other : shard ≠ i := by
        rintro rfl
        exact absent value (List.mem_append_right _ List.mem_cons_self)
      exact if_neg other

theorem Guarded.notMem_of_others (guarded : Guarded m) (other : s ≠ i)
    (busy : m.sending s ≠ .waking i) (value : Bool) : .sleeping i value ∉ m.buffer s :=
  fun member => busy (guarded.clears s i value other member)

/-- A claim outlives every step of `maybe_wakeup` but the one that raises the event. -/
theorem claimed_of_sending (notified : m.notified i = true → m'.notified i = true)
    (sending : ∀ j, j ≠ s → m'.sending j = m.sending j)
    (goesOn : m.sending s = .clearing i ∨ m.sending s = .waking i → m'.Claimed i)
    (claimed : m.Claimed i) : m'.Claimed i := by
  rcases claimed with raised | ⟨j, awake⟩
  · exact .inl (notified raised)
  · by_cases here : j = s
    · exact goesOn (here ▸ awake)
    · exact .inr ⟨j, by rw [sending j here]; exact awake⟩

/-- Shard `s` loads the flag of `target`. -/
theorem Guarded.keeps_checking {target : Nat} (guarded : Guarded m)
    (checking : m.sending s = .checking target) :
    Keeps m (m.setSending s (if m.load s target then .clearing target else .idle)) i := by
  have other : s ≠ target := (guarded.others s target (.inl checking)).2
  have loaded : m.load s target = m.sleeping target :=
    load_eq_of_notMem (guarded.notMem_of_others other (by rw [checking]; simp))
  have claimed : m.Claimed i →
      (m.setSending s (if m.load s target then .clearing target else .idle)).Claimed i := by
    refine claimed_of_sending (s := s) id (fun j apart => ?_) fun busy => ?_
    · rw [sending_setSending, if_neg apart]
    · rw [checking] at busy
      simp at busy
  refine .of_covered rfl id (fun flagged => flagged.imp_right claimed) (fun flagged j covered => ?_)
    (fun _ _ _ member => .inl member) (fun _ _ => rfl) fun _ idle => ⟨rfl, ?_⟩
  · rcases covered with earlier | mine
    · exact .inl (claimed earlier)
    · by_cases here : j = s
      · subst here
        obtain rfl : target = i := by
          rw [checking] at mine
          exact Sending.checking.inj mine
        left
        cases value : m.load j target with
        | true =>
          refine .inr ⟨j, .inl ?_⟩
          rw [sending_setSending, if_pos rfl]
          rfl
        | false =>
          -- the flag was cleared by another shard
          rw [loaded] at value
          have earlier := flagged.resolve_left (by rw [value]; simp)
          rw [loaded, value] at claimed
          exact claimed earlier
      · right
        rw [sending_setSending, if_neg here]
        exact mine
  · have apart : i ≠ s := by
      rintro rfl
      rw [checking] at idle
      cases idle
    rw [sending_setSending, if_neg apart]
    exact idle

/-- Shard `s` clears the flag of `target`. -/
theorem Guarded.keeps_clearing {target : Nat} (guarded : Guarded m)
    (clearing : m.sending s = .clearing target) :
    Keeps m ((m.store s (.sleeping target false)).setSending s (.waking target)) i := by
  have other : s ≠ target := (guarded.others s target (.inr (.inl clearing))).2
  have claimed : m.Claimed i →
      ((m.store s (.sleeping target false)).setSending s (.waking target)).Claimed i := by
    refine claimed_of_sending (s := s) id (fun j apart => ?_) fun busy => .inr ⟨s, .inr ?_⟩
    · rw [sending_setSending, if_neg apart]
      rfl
    · rw [sending_setSending, if_pos rfl]
      rw [clearing] at busy
      rcases busy with mine | mine
      · rw [Sending.clearing.inj mine]
      · cases mine
  refine .of_covered rfl (fun own value member => ?_) (fun flagged => flagged.imp_right claimed)
    (fun _ j covered => ?_) (fun _ _ _ member => .inl ?_) (fun _ _ => rfl) fun _ idle => ?_
  · rcases mem_store.mp member with old | ⟨here, same⟩
    · exact own value old
    · exact other (here.symm.trans (Store.sleeping.inj same).1)
  · rcases covered with earlier | mine
    · exact .inl (claimed earlier)
    · have apart : j ≠ s := by
        rintro rfl
        rw [clearing] at mine
        cases mine
      right
      rw [sending_setSending, if_neg apart]
      exact mine
  · rcases mem_store.mp member with old | ⟨-, same⟩
    · exact old
    · cases same
  · have apart : i ≠ s := by
      rintro rfl
      rw [clearing] at idle
      cases idle
    refine ⟨Function.update_of_ne apart .., ?_⟩
    rw [sending_setSending, if_neg apart]
    exact idle

/-- Shard `s` raises the event of `target`. -/
theorem keeps_waking {target : Nat} (waking : m.sending s = .waking target) :
    Keeps m { m.setSending s .idle with
      notified := Function.update m.notified target true } i := by
  let m' : Sleepers α := { m.setSending s .idle with
    notified := Function.update m.notified target true }
  have sending (j : Nat) (apart : j ≠ s) : m'.sending j = m.sending j := by
    show (m.setSending s .idle).sending j = _
    rw [sending_setSending, if_neg apart]
  have claimed : m.Claimed i → m'.Claimed i := by
    refine claimed_of_sending (s := s) (fun raised => ?_) sending fun busy => .inl ?_
    · show Function.update m.notified target true i = true
      rw [Function.update_apply]
      split
      · rfl
      · exact raised
    · show Function.update m.notified target true i = true
      rw [waking] at busy
      rcases busy with mine | mine
      · cases mine
      · rw [Sending.waking.inj mine, Function.update_self]
  refine .of_covered rfl id (fun flagged => flagged.imp_right claimed) (fun _ j covered => ?_)
    (fun _ _ _ member => .inl member) (fun _ _ => rfl) fun _ idle => ⟨rfl, ?_⟩
  · rcases covered with earlier | mine
    · exact .inl (claimed earlier)
    · have apart : j ≠ s := by
        rintro rfl
        rw [waking] at mine
        cases mine
      exact .inr ((sending j apart).trans mine)
  · have apart : i ≠ s := by
      rintro rfl
      rw [waking] at idle
      cases idle
    exact (sending i apart).trans idle

/-- Shard `s` pushes messages. -/
theorem keeps_push {kind : ChannelKind} {target : Nat} {messages : List α}
    (can : m.canPush s = true) :
    Keeps m ((m.store s (.push kind target messages)).setSending s (.checking target)) i := by
  unfold canPush at can
  rw [Bool.and_eq_true, beq_iff_eq] at can
  obtain ⟨idle, mode⟩ := can
  have claimed : m.Claimed i →
      ((m.store s (.push kind target messages)).setSending s (.checking target)).Claimed i := by
    refine claimed_of_sending (s := s) id (fun j apart => ?_) fun busy => ?_
    · rw [sending_setSending, if_neg apart]
      rfl
    · rw [idle] at busy
      simp at busy
  refine .of_covered rfl (fun own value member => ?_) (fun flagged => flagged.imp_right claimed)
    (fun _ j covered => ?_) (fun kind' j messages' member => ?_) (fun _ _ => rfl)
    fun ⟨todo, barrier⟩ quiet => ?_
  · rcases mem_store.mp member with old | ⟨-, same⟩
    · exact own value old
    · cases same
  · rcases covered with earlier | mine
    · exact .inl (claimed earlier)
    · have apart : j ≠ s := by
        rintro rfl
        rw [idle] at mine
        cases mine
      right
      rw [sending_setSending, if_neg apart]
      exact mine
  · rcases mem_store.mp member with old | ⟨here, same⟩
    · exact .inl old
    · obtain ⟨-, rfl, -⟩ := Store.push.inj same
      exact .inr (.inr (by rw [sending_setSending, if_pos here]))
  · have apart : i ≠ s := by
      rintro rfl
      rw [barrier] at mode
      cases mode
    refine ⟨Function.update_of_ne apart .., ?_⟩
    rw [sending_setSending, if_neg apart]
    exact quiet

/-! ## Memory -/

/-- A store of shard `s` goes to memory. -/
theorem Guarded.keeps_drain {st : Store α} {rest : List (Store α)} (guarded : Guarded m)
    (front : m.buffer s = st :: rest) :
    Keeps m (({ m with buffer := Function.update m.buffer s rest } : Sleepers α).apply s st) i := by
  let m' : Sleepers α := ({ m with buffer := Function.update m.buffer s rest } : Sleepers α).apply s
    st
  have buffer : m'.buffer = Function.update m.buffer s rest := by
    show (Sleepers.apply _ s st).buffer = _
    cases st with
    | push => rfl
    | sleeping => rfl
  have fewer {j : Nat} {st' : Store α} (member : st' ∈ m'.buffer j) : st' ∈ m.buffer j := by
    rw [buffer, Function.update_apply] at member
    split at member
    · next here =>
      rw [here, front]
      exact List.mem_cons_of_mem _ member
    · exact member
  have sending : m'.sending = m.sending := by
    show (Sleepers.apply _ s st).sending = _
    cases st with
    | push => rfl
    | sleeping => rfl
  have notified : m'.notified = m.notified := by
    show (Sleepers.apply _ s st).notified = _
    cases st with
    | push => rfl
    | sleeping => rfl
  have claimed : m'.Claimed i ↔ m.Claimed i := by
    rw [Claimed, sending, notified, Claimed]
  have covered (j : Nat) : m'.Covered i j ↔ m.Covered i j := by
    rw [Covered, sending, claimed, Covered]
  -- the flag changes by a store of the shard itself, or by one of a shard that will wake it
  have flagged (own : s = i → ∀ value, st ≠ .sleeping i value) (before : m.Flagged i) :
      m'.Flagged i := by
    cases st with
    | push kind target messages => exact before.imp_right claimed.mpr
    | sleeping shard value =>
      by_cases mine : shard = i
      · subst mine
        by_cases here : s = shard
        · exact absurd rfl (own here value)
        · refine .inr (claimed.mpr (.inr ⟨s, .inr ?_⟩))
          exact guarded.clears s shard value here (front ▸ List.mem_cons_self)
      · refine before.imp (fun set => ?_) claimed.mpr
        show Function.update m.sleeping shard value i = true
        rw [Function.update_of_ne (Ne.symm mine)]
        exact set
  have ofOwn (own : m.Own i) (here : s = i) (value : Bool) : st ≠ .sleeping i value := by
    rintro rfl
    subst here
    exact own value (front ▸ List.mem_cons_self)
  constructor
  · show (Sleepers.apply _ s st).count = _
    cases st with
    | push => rfl
    | sleeping => rfl
  · exact fun own value member => own value (fewer member)
  · exact fun own before => flagged (ofOwn own) before
  · exact fun _ _ j before kind messages member => (covered j).mpr
      (before kind messages (fewer member))
  · intro _ _ kind j pushes before some
    refine (covered j).mpr ?_
    cases st with
    | sleeping shard value => exact before some
    | push kind' target messages =>
      by_cases here : kind' = kind ∧ target = i ∧ s = j
      · obtain ⟨rfl, rfl, rfl⟩ := here
        exact pushes kind' messages (front ▸ List.mem_cons_self)
      · refine before ?_
        have same : m'.ring kind i j = m.ring kind i j := by
          show Function.update m.ring kind' _ kind i j = _
          by_cases sameKind : kind = kind'
          · subst sameKind
            rw [Function.update_self]
            by_cases sameTarget : i = target
            · subst sameTarget
              rw [Function.update_self, Function.update_of_ne]
              rintro rfl
              exact here ⟨rfl, rfl, rfl⟩
            · rw [Function.update_of_ne sameTarget]
          · rw [Function.update_of_ne sameKind]
        rw [← same]
        exact some
  · rintro - ⟨idle, entering⟩
    refine ⟨(congrFun sending i).trans idle, ?_⟩
    by_cases here : s = i
    · subst here
      rcases entering with ⟨before, stored⟩ | ⟨empty, -⟩
      · rw [front] at stored
        rw [buffer, Function.update_self]
        cases before with
        | nil =>
          obtain ⟨rfl, rfl⟩ := List.cons.inj stored
          exact .inr ⟨rfl, .inl (Function.update_self ..)⟩
        | cons first before =>
          obtain ⟨rfl, rfl⟩ := List.cons.inj stored
          exact .inl ⟨before, rfl⟩
      · rw [front] at empty
        cases empty
    · rw [buffer, Function.update_of_ne (Ne.symm here)]
      exact entering.imp_right fun ⟨empty, before⟩ =>
        ⟨empty, flagged (fun same => absurd same here) before⟩

/-! ## Interrupt mode -/

/-- What a step of `try_enter_interrupt_mode`, or of the reactor around it, changes. -/
structure OwnStep (m m' : Sleepers α) (s : Nat) : Prop where
  count : m'.count = m.count
  sleeping : m'.sleeping = m.sleeping
  sending : m'.sending = m.sending
  buffers : ∀ j ≠ s, m'.buffer j = m.buffer j
  stores : ∀ st ∈ m'.buffer s, st ∈ m.buffer s ∨ ∃ value, st = .sleeping s value
  rings : ∀ kind i j, m'.ring kind i j ≠ [] → m.ring kind i j ≠ []
  notified : ∀ i ≠ s, m'.notified i = m.notified i
  modes : ∀ i ≠ s, m'.mode i = m.mode i

namespace OwnStep

theorem claimed (own : OwnStep m m' s) (other : i ≠ s) : m'.Claimed i ↔ m.Claimed i := by
  rw [Claimed, own.notified i other, own.sending, Claimed]

theorem covered (own : OwnStep m m' s) (other : i ≠ s) : m'.Covered i j ↔ m.Covered i j := by
  rw [Covered, own.claimed other, own.sending, Covered]

theorem flagged (own : OwnStep m m' s) (other : i ≠ s) : m'.Flagged i ↔ m.Flagged i := by
  rw [Flagged, own.claimed other, own.sleeping, Flagged]

theorem mem_buffer (own : OwnStep m m' s) {st : Store α} (member : st ∈ m'.buffer j) :
    st ∈ m.buffer j ∨ j = s ∧ ∃ value, st = .sleeping s value := by
  by_cases here : j = s
  · subst here
    exact (own.stores st member).imp_right fun stored => ⟨rfl, stored⟩
  · rw [own.buffers j here] at member
    exact .inl member

theorem mem_push (own : OwnStep m m' s) {kind : ChannelKind} {target : Nat} {messages : List α}
    (member : .push kind target messages ∈ m'.buffer j) :
    .push kind target messages ∈ m.buffer j := by
  rcases own.mem_buffer member with old | ⟨-, _, stored⟩
  · exact old
  · cases stored

theorem mem_sleeping (own : OwnStep m m' s) {value : Bool} (other : i ≠ s)
    (member : .sleeping i value ∈ m'.buffer j) : .sleeping i value ∈ m.buffer j := by
  rcases own.mem_buffer member with old | ⟨-, _, stored⟩
  · exact old
  · exact absurd (Store.sleeping.inj stored).1 other

theorem keeps (own : OwnStep m m' s) (other : i ≠ s) : Keeps m m' i where
  count := own.count
  own := fun before value member => before value (own.mem_sleeping other member)
  flagged := fun _ => (own.flagged other).mpr
  covered := fun _ _ _ before kind messages member =>
    (own.covered other).mpr (before kind messages (own.mem_push member))
  ring := fun _ _ kind j _ before some => (own.covered other).mpr (before (own.rings kind i j some))
  entering := fun _ ⟨idle, entering⟩ => by
    rw [Entering, own.sending, own.buffers i other, own.flagged other]
    exact ⟨idle, entering⟩

end OwnStep

theorem Guarded.of_ownStep (guarded : Guarded m) (own : OwnStep m m' s)
    (ok : m'.ModeOk s (m'.mode s)) : Guarded m' where
  others := by
    rw [own.sending, own.count]
    exact guarded.others
  clears := by
    intro j i value other member
    rw [own.sending]
    rcases own.mem_buffer member with old | ⟨here, _, stored⟩
    · exact guarded.clears j i value other old
    · exact absurd (here.trans (Store.sleeping.inj stored).1.symm) other
  inside := by
    intro kind i j messages member
    rw [own.count]
    exact guarded.inside kind i j messages (own.mem_push member)
  rings := by
    intro kind i j some
    rw [own.count]
    exact guarded.rings kind i j (own.rings kind i j some)
  mode := by
    intro i
    by_cases here : i = s
    · exact here ▸ ok
    · rw [own.modes i here]
      exact (own.keeps here).modeOk (guarded.mode i)

theorem ownStep_setMode (mode : SleepMode) : OwnStep m (m.setMode s mode) s where
  count := rfl
  sleeping := rfl
  sending := rfl
  buffers := fun _ _ => rfl
  stores := fun _ member => .inl member
  rings := fun _ _ _ some => some
  notified := fun _ _ => rfl
  modes := fun _ other => Function.update_of_ne other ..

theorem ownStep_store (value : Bool) : OwnStep m (m.store s (.sleeping s value)) s where
  count := rfl
  sleeping := rfl
  sending := rfl
  buffers := fun _ other => Function.update_of_ne other ..
  stores := fun _ member => (mem_store.mp member).imp_right fun ⟨_, same⟩ => ⟨value, same⟩
  rings := fun _ _ _ some => some
  notified := fun _ _ => rfl
  modes := fun _ _ => rfl

theorem OwnStep.trans {m'' : Sleepers α} (first : OwnStep m m' s) (second : OwnStep m' m'' s) :
    OwnStep m m'' s where
  count := second.count.trans first.count
  sleeping := second.sleeping.trans first.sleeping
  sending := second.sending.trans first.sending
  buffers := fun j other => (second.buffers j other).trans (first.buffers j other)
  stores := fun st member =>
    (second.stores st member).elim (first.stores st) .inr
  rings := fun kind i j some => first.rings kind i j (second.rings kind i j some)
  notified := fun i other => (second.notified i other).trans (first.notified i other)
  modes := fun i other => (second.modes i other).trans (first.modes i other)

@[simp] theorem mode_setMode (mode : SleepMode) : (m.setMode s mode).mode s = mode :=
  Function.update_self ..

/-- A shard leaves its interrupt mode, or gives it up. -/
theorem Guarded.awake (guarded : Guarded m) (value : Bool) :
    Guarded ((m.store s (.sleeping s value)).setMode s .awake) := by
  refine guarded.of_ownStep ((ownStep_store value).trans (ownStep_setMode .awake)) ?_
  rw [mode_setMode]
  trivial

/-- A shard calls the barrier. -/
theorem Guarded.tryEnter (guarded : Guarded m) (inside : s < m.count)
    (idle : m.sending s = .idle) :
    Guarded ((m.store s (.sleeping s true)).setMode s (.barrier (List.range m.count))) := by
  refine guarded.of_ownStep ((ownStep_store true).trans (ownStep_setMode _)) ?_
  rw [mode_setMode, ModeOk, if_pos (List.mem_range.mpr inside)]
  exact ⟨fun j => List.mem_range.mpr, idle, .inl ⟨m.buffer s, Function.update_self ..⟩⟩

/-- A thread that nothing waits in passes the barrier that shard `s` is in. -/
theorem Guarded.pass {todo : List Nat} {shard : Nat} (guarded : Guarded m)
    (mode : m.mode s = .barrier todo) (first : s ∈ todo → shard = s)
    (empty : m.buffer shard = []) :
    Guarded (m.setMode s (.barrier (todo.filter (· ≠ shard)))) := by
  refine guarded.of_ownStep (ownStep_setMode _) ?_
  have gone : s ∉ todo.filter (· ≠ shard) := by
    intro left
    obtain ⟨member, apart⟩ := List.mem_filter.mp left
    exact of_decide_eq_true apart (first member).symm
  have done {j : Nat} (passed : j ∉ todo.filter (· ≠ shard)) : j ∉ todo ∨ j = shard := by
    by_contra! both
    exact passed (List.mem_filter.mpr ⟨both.1, decide_eq_true both.2⟩)
  have ok := guarded.mode s
  rw [mode] at ok
  rw [mode_setMode, ModeOk, if_neg gone]
  by_cases member : s ∈ todo
  · obtain rfl := first member
    simp only [ModeOk, if_pos member] at ok
    obtain ⟨all, -, ⟨before, stored⟩ | ⟨-, flagged⟩⟩ := ok
    · rw [empty] at stored
      simp at stored
    · refine ⟨own_of_empty empty, flagged, fun j passed kind messages waits => ?_⟩
      -- nobody else has passed: shard `j` is not one of the machine, or it is the caller
      obtain ⟨within, apart⟩ := guarded.inside kind shard j messages waits
      exact ((done passed).resolve_right apart (all j within)).elim
  · simp only [ModeOk, if_neg member] at ok
    obtain ⟨own, flagged, covered⟩ := ok
    refine ⟨own, flagged, fun j passed kind messages waits => ?_⟩
    rcases done passed with earlier | rfl
    · exact covered j earlier kind messages waits
    · have none : .push kind s messages ∈ ([] : List (Store α)) := empty ▸ waits
      cases none

theorem mem_queues {networkFirst : Bool} {kind : ChannelKind} (inside : j < m.count)
    (other : j ≠ s) : (kind, j) ∈ m.queues s networkFirst := by
  have listed : (kind, j) ∈
      ((List.range m.count).filter (· ≠ s)).map fun i => (kind, i) :=
    List.mem_map_of_mem (List.mem_filter.mpr ⟨List.mem_range.mpr inside, decide_eq_true other⟩)
  cases networkFirst with
  | false =>
    cases kind with
    | «local» => exact List.mem_append_left _ listed
    | network => exact List.mem_append_right _ listed
  | true =>
    cases kind with
    | «local» => exact List.mem_append_right _ listed
    | network => exact List.mem_append_left _ listed

/-- The barrier is over, and `poll` begins. -/
theorem Guarded.startPoll (guarded : Guarded m) (mode : m.mode s = .barrier [])
    (networkFirst : Bool) : Guarded (m.setMode s (.polling (m.queues s networkFirst) false)) := by
  refine guarded.of_ownStep (ownStep_setMode _) ?_
  have ok := guarded.mode s
  rw [mode, ModeOk, if_neg List.not_mem_nil] at ok
  obtain ⟨own, flagged, covered⟩ := ok
  rw [mode_setMode]
  refine ⟨own, flagged, fun j => covered j List.not_mem_nil, fun _ kind j skipped some => ?_⟩
  obtain ⟨inside, other⟩ := guarded.rings kind s j some
  exact absurd (mem_queues inside other) skipped

/-- `poll` looks at its next queue. -/
theorem Guarded.pollNext {nr : Nat} (guarded : Guarded m) (polls : m.pollNext s nr = some m') :
    Guarded m' := by
  unfold Sleepers.pollNext at polls
  split at polls
  · next kind from' todo found mode =>
    have ok := guarded.mode s
    rw [mode] at ok
    obtain ⟨own, flagged, covered, rings⟩ := ok
    split at polls
    · next empty =>
      obtain rfl := Option.some.inj polls
      refine guarded.of_ownStep (ownStep_setMode _) ?_
      rw [mode_setMode]
      refine ⟨own, flagged, covered, fun nothing kind' j skipped => ?_⟩
      by_cases here : (kind', j) = (kind, from')
      · obtain ⟨rfl, rfl⟩ := Prod.mk.inj here
        exact fun some => absurd empty some
      · refine rings nothing kind' j fun listed => ?_
        exact (List.mem_cons.mp listed).elim here skipped
    · split at polls
      · obtain rfl := Option.some.inj polls
        -- something was found, and the shard will not sleep
        refine guarded.of_ownStep (s := s)
          ⟨rfl, rfl, rfl, fun _ _ => rfl, fun _ => .inl, fun kind' i j some => ?_,
            fun _ _ => rfl, fun _ other => Function.update_of_ne other ..⟩ ?_
        · change Function.update m.ring kind _ kind' i j ≠ [] at some
          by_cases sameKind : kind' = kind
          · subst sameKind
            rw [Function.update_self] at some
            by_cases sameShard : i = s
            · subst sameShard
              rw [Function.update_self] at some
              by_cases sameFrom : j = from'
              · subst sameFrom
                rw [Function.update_self] at some
                intro none
                rw [none, List.drop_nil] at some
                exact some rfl
              · rwa [Function.update_of_ne sameFrom] at some
            · rwa [Function.update_of_ne sameShard] at some
          · rwa [Function.update_of_ne sameKind] at some
        · rw [mode_setMode]
          exact ⟨own, flagged, covered, fun nothing => nomatch nothing⟩
      · cases polls
  · cases polls

/-- `try_enter_interrupt_mode` returns. -/
theorem Guarded.endPoll (guarded : Guarded m) (ends : m.endPoll s = some m') : Guarded m' := by
  unfold Sleepers.endPoll at ends
  split at ends
  · next found mode =>
    split at ends
    · obtain rfl := Option.some.inj ends
      exact guarded.awake false
    · next nothing =>
      obtain rfl := Option.some.inj ends
      refine guarded.of_ownStep (ownStep_setMode _) ?_
      have ok := guarded.mode s
      rw [mode] at ok
      obtain ⟨own, flagged, covered, rings⟩ := ok
      rw [mode_setMode]
      exact ⟨own, flagged, covered,
        fun kind j => rings (Bool.eq_false_iff.mpr nothing) kind j List.not_mem_nil⟩
  · cases ends

/-- The reactor of an awake shard takes note of its event. -/
theorem Guarded.takeEvent (guarded : Guarded m) (awake : m.mode s = .awake) :
    Guarded { m with notified := Function.update m.notified s false } := by
  refine guarded.of_ownStep (s := s) ⟨rfl, rfl, rfl, fun _ _ => rfl, fun _ => .inl,
    fun _ _ _ some => some, fun _ other => Function.update_of_ne other .., fun _ _ => rfl⟩ ?_
  rw [awake]
  trivial

/-! ## Runs -/

/-- A step that leaves the modes alone. -/
theorem Guarded.of_keeps (guarded : Guarded m) (keeps : ∀ i, Keeps m m' i)
    (mode : m'.mode = m.mode)
    (others : ∀ j i, m'.sending j = .checking i ∨ m'.sending j = .clearing i ∨
      m'.sending j = .waking i → j < m.count ∧ j ≠ i)
    (clears : ∀ j i value, j ≠ i → .sleeping i value ∈ m'.buffer j → m'.sending j = .waking i)
    (inside : ∀ kind i j messages, .push kind i messages ∈ m'.buffer j → j < m.count ∧ j ≠ i)
    (rings : ∀ kind i j, m'.ring kind i j ≠ [] → j < m.count ∧ j ≠ i) : Guarded m' where
  others := (keeps 0).count ▸ others
  clears := clears
  inside := (keeps 0).count ▸ inside
  rings := (keeps 0).count ▸ rings
  mode := fun i => mode ▸ (keeps i).modeOk (guarded.mode i)

/-- The next access of `maybe_wakeup`. -/
theorem Guarded.wakeupNext (guarded : Guarded m) (next : m.wakeupNext s = some m') :
    Guarded m' := by
  unfold Sleepers.wakeupNext at next
  split at next
  · cases next
  · next target checking =>
    obtain rfl := Option.some.inj next
    obtain ⟨inside, other⟩ := guarded.others s target (.inl checking)
    refine guarded.of_keeps (fun i => guarded.keeps_checking checking) rfl (fun j i busy => ?_)
      (fun j i value apart member => ?_) guarded.inside guarded.rings
    · rw [sending_setSending] at busy
      split at busy
      · next here =>
        subst here
        split at busy
        · rcases busy with busy | busy | busy
          · cases busy
          · obtain rfl := Sending.clearing.inj busy
            exact ⟨inside, other⟩
          · cases busy
        · simp at busy
      · exact guarded.others j i busy
    · have waking := guarded.clears j i value apart member
      have elsewhere : j ≠ s := by
        rintro rfl
        rw [checking] at waking
        cases waking
      rw [sending_setSending, if_neg elsewhere]
      exact waking
  · next target clearing =>
    obtain rfl := Option.some.inj next
    obtain ⟨inside, other⟩ := guarded.others s target (.inr (.inl clearing))
    refine guarded.of_keeps (fun i => guarded.keeps_clearing clearing) rfl (fun j i busy => ?_)
      (fun j i value apart member => ?_) (fun kind i j messages member => ?_) guarded.rings
    · rw [sending_setSending] at busy
      split at busy
      · next here =>
        subst here
        obtain rfl : target = i := by simpa using busy
        exact ⟨inside, other⟩
      · exact guarded.others j i busy
    · rw [sending_setSending]
      rcases mem_store.mp member with old | ⟨here, same⟩
      · have waking := guarded.clears j i value apart old
        have elsewhere : j ≠ s := by
          rintro rfl
          rw [clearing] at waking
          cases waking
        rw [if_neg elsewhere]
        exact waking
      · rw [if_pos here, (Store.sleeping.inj same).1]
    · rcases mem_store.mp member with old | ⟨-, same⟩
      · exact guarded.inside kind i j messages old
      · cases same
  · next target waking =>
    split at next
    · next empty =>
      obtain rfl := Option.some.inj next
      refine guarded.of_keeps (fun i => keeps_waking waking) rfl (fun j i busy => ?_)
        (fun j i value apart member => ?_) guarded.inside guarded.rings
      · change (m.setSending s .idle).sending j = _ ∨ (m.setSending s .idle).sending j = _ ∨
          (m.setSending s .idle).sending j = _ at busy
        rw [sending_setSending] at busy
        split at busy
        · simp at busy
        · exact guarded.others j i busy
      · have elsewhere : j ≠ s := by
          rintro rfl
          change _ ∈ m.buffer j at member
          rw [empty] at member
          cases member
        show (m.setSending s .idle).sending j = _
        rw [sending_setSending, if_neg elsewhere]
        exact guarded.clears j i value apart member
    · cases next

/-- A push in `move_pending`. -/
theorem Guarded.push {kind : ChannelKind} {target : Nat} {messages : List α} (guarded : Guarded m)
    (can : m.canPush s = true) (inside : s < m.count) (other : target ≠ s) :
    Guarded ((m.store s (.push kind target messages)).setSending s (.checking target)) := by
  have idle : m.sending s = .idle := by
    unfold canPush at can
    rw [Bool.and_eq_true, beq_iff_eq] at can
    exact can.1
  refine guarded.of_keeps (fun i => keeps_push can) rfl (fun j i busy => ?_)
    (fun j i value apart member => ?_) (fun kind' i j messages' member => ?_) guarded.rings
  · rw [sending_setSending] at busy
    split at busy
    · next here =>
      subst here
      obtain rfl : target = i := by simpa using busy
      exact ⟨inside, other.symm⟩
    · exact guarded.others j i busy
  · rcases mem_store.mp member with old | ⟨-, same⟩
    · have waking := guarded.clears j i value apart old
      have elsewhere : j ≠ s := by
        rintro rfl
        rw [idle] at waking
        cases waking
      rw [sending_setSending, if_neg elsewhere]
      exact waking
    · cases same
  · rcases mem_store.mp member with old | ⟨here, same⟩
    · exact guarded.inside kind' i j messages' old
    · obtain ⟨-, rfl, -⟩ := Store.push.inj same
      exact here ▸ ⟨inside, other.symm⟩

/-- A store goes to memory. -/
theorem Guarded.drain {st : Store α} {rest : List (Store α)} (guarded : Guarded m)
    (front : m.buffer s = st :: rest) :
    Guarded (({ m with buffer := Function.update m.buffer s rest } : Sleepers α).apply s st) := by
  have fewer {j : Nat} {st' : Store α} (member : st' ∈ Function.update m.buffer s rest j) :
      st' ∈ m.buffer j := by
    rw [Function.update_apply] at member
    split at member
    · next here =>
      rw [here, front]
      exact List.mem_cons_of_mem _ member
    · exact member
  have keeps (i : Nat) := guarded.keeps_drain (i := i) front
  cases st with
  | sleeping shard value =>
    exact guarded.of_keeps keeps rfl guarded.others
      (fun j i value apart member => guarded.clears j i value apart (fewer member))
      (fun kind i j messages member => guarded.inside kind i j messages (fewer member))
      guarded.rings
  | push kind target messages =>
    refine guarded.of_keeps keeps rfl guarded.others
      (fun j i value apart member => guarded.clears j i value apart (fewer member))
      (fun kind i j messages member => guarded.inside kind i j messages (fewer member))
      fun kind' i j some => ?_
    change Function.update m.ring kind _ kind' i j ≠ [] at some
    by_cases here : kind' = kind ∧ i = target ∧ j = s
    · obtain ⟨rfl, rfl, rfl⟩ := here
      exact guarded.inside kind' i j messages (front ▸ List.mem_cons_self)
    · refine guarded.rings kind' i j ?_
      by_cases sameKind : kind' = kind
      · subst sameKind
        rw [Function.update_self] at some
        by_cases sameTarget : i = target
        · subst sameTarget
          rw [Function.update_self,
            Function.update_of_ne (fun same => here ⟨rfl, rfl, same⟩)] at some
          exact some
        · rwa [Function.update_of_ne sameTarget] at some
      · rwa [Function.update_of_ne sameKind] at some

theorem isAwake_iff : m.isAwake s = true ↔ m.mode s = .awake ∧ m.sending s = .idle := by
  simp [isAwake]

theorem Guarded.step {label : Nat × SleepAction α} (guarded : Guarded m)
    (taken : m.step label = some m') : Guarded m' := by
  obtain ⟨s, action⟩ := label
  unfold Sleepers.step at taken
  split at taken
  · next inside =>
    cases action with
    | push kind target messages =>
      obtain ⟨⟨can, -, other, -⟩, same⟩ := Option.ite_none_right_eq_some.mp taken
      exact Option.some.inj same ▸ guarded.push can inside other
    | wakeupNext => exact guarded.wakeupNext taken
    | drain =>
      simp only [act] at taken
      split at taken
      · next front => exact Option.some.inj taken ▸ guarded.drain front
      · cases taken
    | tryEnter =>
      obtain ⟨awake, same⟩ := Option.ite_none_right_eq_some.mp taken
      exact Option.some.inj same ▸ guarded.tryEnter inside (isAwake_iff.mp awake).2
    | tryEnterRefused =>
      obtain ⟨awake, same⟩ := Option.ite_none_right_eq_some.mp taken
      refine Option.some.inj same ▸ guarded.of_ownStep ((ownStep_store true).trans
        (ownStep_store false)) ?_
      have mode : ((m.store s (.sleeping s true)).store s (.sleeping s false)).mode s = .awake :=
        (isAwake_iff.mp awake).1
      rw [mode]
      trivial
    | pass shard =>
      change m.pass s shard = some m' at taken
      unfold Sleepers.pass at taken
      split at taken
      · next mode =>
        obtain ⟨⟨-, first, empty⟩, same⟩ := Option.ite_none_right_eq_some.mp taken
        exact Option.some.inj same ▸ guarded.pass mode first empty
      · cases taken
    | startPoll networkFirst =>
      obtain ⟨mode, same⟩ := Option.ite_none_right_eq_some.mp taken
      exact Option.some.inj same ▸ guarded.startPoll mode networkFirst
    | pollNext nr => exact guarded.pollNext (Option.ite_none_right_eq_some.mp taken).2
    | endPoll => exact guarded.endPoll (Option.ite_none_right_eq_some.mp taken).2
    | exitInterruptMode =>
      obtain ⟨-, same⟩ := Option.ite_none_right_eq_some.mp taken
      exact Option.some.inj same ▸ guarded.awake false
    | takeEvent =>
      obtain ⟨awake, same⟩ := Option.ite_none_right_eq_some.mp taken
      exact Option.some.inj same ▸ guarded.takeEvent (isAwake_iff.mp awake).1
  · cases taken

theorem guarded_init (count : Nat) : Guarded (init count : Sleepers α) where
  others := by simp [init]
  clears := by simp [init]
  inside := by simp [init]
  rings := by simp [init]
  mode := fun _ => trivial

theorem guarded_of_reachable {count : Nat} (reachable : Reachable step (init count) m) :
    Guarded m := by
  obtain ⟨labels, ran⟩ := reachable
  exact run_invariant Guarded (fun _ _ _ guarded taken => guarded.step taken) labels _ m
    (guarded_init count) ran

/-! ## Wakeups -/

/-- Messages for a shard that sleeps are covered. -/
theorem Guarded.covered (guarded : Guarded m) (asleep : m.mode i = .asleep) (mail : m.HasMail i) :
    ∃ j, m.Covered i j := by
  have ok := guarded.mode i
  rw [asleep] at ok
  obtain ⟨-, -, pushes, rings⟩ := ok
  obtain ⟨kind, j, inRing | inBuffer⟩ := mail
  · exact ⟨j, rings kind j inRing⟩
  · obtain ⟨message, member⟩ := List.exists_mem_of_ne_nil _ inBuffer
    obtain ⟨st, stored, isPush⟩ := List.mem_flatMap.mp member
    cases st with
    | sleeping => cases isPush
    | push kind' target messages =>
      change message ∈ ite _ _ _ at isPush
      split at isPush
      · next here =>
        obtain ⟨-, rfl⟩ := here
        exact ⟨j, pushes j kind' messages stored⟩
      · cases isPush

/-- Messages for a shard that sleeps have raised its event, or somebody is going to. -/
theorem Guarded.notified_or_wakes (guarded : Guarded m) (asleep : m.mode i = .asleep)
    (mail : m.HasMail i) : m.notified i = true ∨ ∃ j, m.Wakes j i := by
  obtain ⟨j, covered⟩ := guarded.covered asleep mail
  have ok := guarded.mode i
  rw [asleep] at ok
  obtain ⟨-, flagged, -⟩ := ok
  have ofClaimed (claimed : m.Claimed i) : m.notified i = true ∨ ∃ j, m.Wakes j i := by
    refine claimed.imp_right fun ⟨j, busy⟩ => ⟨j, ?_⟩
    unfold Wakes
    rcases busy with busy | busy
    · rw [busy]
    · rw [busy]
  rcases covered with claimed | checking
  · exact ofClaimed claimed
  · rcases flagged with set | claimed
    · right
      have other := (guarded.others j i (.inl checking)).2
      have loaded : m.load j i = m.sleeping i :=
        load_eq_of_notMem (guarded.notMem_of_others other (by rw [checking]; simp))
      refine ⟨j, ?_⟩
      unfold Wakes
      rw [checking]
      exact ⟨rfl, loaded.trans set⟩
    · exact ofClaimed claimed

/-- What shard `j` has left to do in `maybe_wakeup`. -/
def wakeCost (j : Nat) (m : Sleepers α) : Nat :=
  (m.buffer j).length +
    match m.sending j with
    | .idle => 0
    | .waking _ => 1
    | .clearing _ => 3
    | .checking _ => 4

/-- An access of `maybe_wakeup`, or a store that goes to memory. -/
def IsWakeup (j : Nat) (label : Nat × SleepAction α) : Prop :=
  label = (j, .wakeupNext) ∨ label = (j, .drain)

/-- A shard that is going to wake another one has a step that brings it closer. -/
theorem wakes_progress (inside : j < m.count) (wakes : m.Wakes j i) :
    ∃ label m', IsWakeup j label ∧ step m label = some m' ∧ m'.count = m.count ∧
      (m'.notified i = true ∨ m'.Wakes j i) ∧ wakeCost j m' < wakeCost j m := by
  unfold Wakes at wakes
  split at wakes
  · exact wakes.elim
  · next target checking =>
    obtain ⟨rfl, loaded⟩ := wakes
    refine ⟨(j, .wakeupNext), m.setSending j (.clearing target), .inl rfl, ?_, rfl, .inr ?_, ?_⟩
    · simp [step, inside, act, Sleepers.wakeupNext, checking, loaded]
    · simp [Wakes, sending_setSending]
    · unfold wakeCost
      rw [sending_setSending, if_pos rfl, checking]
      exact Nat.lt_succ_self _
  · next target clearing =>
    subst wakes
    refine ⟨(j, .wakeupNext), (m.store j (.sleeping target false)).setSending j (.waking target),
      .inl rfl, ?_, rfl, .inr ?_, ?_⟩
    · simp [step, inside, act, Sleepers.wakeupNext, clearing]
    · simp [Wakes, sending_setSending]
    · unfold wakeCost
      rw [sending_setSending, if_pos rfl, clearing]
      show (Function.update m.buffer j (m.buffer j ++ [.sleeping target false]) j).length + 1 < _
      rw [Function.update_self, List.length_append]
      exact Nat.lt_succ_self _
  · next target waking =>
    subst wakes
    cases waits : m.buffer j with
    | nil =>
      refine ⟨(j, .wakeupNext), { m.setSending j .idle with
        notified := Function.update m.notified target true }, .inl rfl, ?_, rfl, .inl ?_, ?_⟩
      · simp [step, inside, act, Sleepers.wakeupNext, waking, waits]
      · exact Function.update_self ..
      · unfold wakeCost
        have idle : (m.setSending j .idle).sending j = .idle := by
          rw [sending_setSending, if_pos rfl]
        rw [waking]
        simp only [idle]
        exact Nat.lt_succ_self _
    | cons st rest =>
      have sending : (({ m with buffer := Function.update m.buffer j rest } : Sleepers α).apply j
          st).sending j = .waking target := by
        cases st with
        | push => exact waking
        | sleeping => exact waking
      have buffer : (({ m with buffer := Function.update m.buffer j rest } : Sleepers α).apply j
          st).buffer j = rest := by
        cases st with
        | push => exact Function.update_self ..
        | sleeping => exact Function.update_self ..
      refine ⟨(j, .drain),
        ({ m with buffer := Function.update m.buffer j rest } : Sleepers α).apply j st, .inr rfl,
        ?_, ?_, .inr ?_, ?_⟩
      · simp [step, inside, act, waits]
      · cases st with
        | push => rfl
        | sleeping => rfl
      · unfold Wakes
        rw [sending]
      · unfold wakeCost
        rw [sending, buffer, waking, waits]
        simp

/-- The event of a shard is raised, by no more than the steps of one thread in `maybe_wakeup`. -/
theorem wakes_run (inside : j < m.count) (wakes : m.Wakes j i) :
    ∃ labels m', (∀ label ∈ labels, IsWakeup j label) ∧ run step m labels = some m' ∧
      m'.notified i = true := by
  obtain ⟨labels, m', all, ran, -, raised⟩ := exists_run_of_progress
    (fun n : Sleepers α => j < n.count ∧ (n.notified i = true ∨ n.Wakes j i))
    (fun n => n.notified i = true) (wakeCost j)
    (fun n ⟨inside', either⟩ pending => by
      obtain ⟨label, n', isWakeup, taken, count, goesOn, less⟩ :=
        wakes_progress inside' (either.resolve_left pending)
      refine ⟨[label], n', ?_, run_cons_eq_some.mpr ⟨n', taken, rfl⟩, ⟨count ▸ inside', goesOn⟩,
        less⟩
      intro other listed
      exact List.mem_singleton.mp listed ▸ isWakeup)
    m ⟨inside, .inr wakes⟩
  exact ⟨labels, m', all, ran, raised⟩

theorem Guarded.inside_of_wakes (guarded : Guarded m) (wakes : m.Wakes j i) : j < m.count := by
  unfold Wakes at wakes
  split at wakes
  · exact wakes.elim
  · next checking => exact (guarded.others j _ (.inl checking)).1
  · next clearing => exact (guarded.others j _ (.inr (.inl clearing))).1
  · next waking => exact (guarded.others j _ (.inr (.inr waking))).1

/-- While a shard sleeps on messages, its event is raised or one thread in `maybe_wakeup` raises it
by its own next steps. -/
theorem no_wakeup_lost {count : Nat} (reachable : Reachable step (init count) m)
    (asleep : m.mode i = .asleep) (mail : m.HasMail i) :
    ¬ m.LostWakeup i ∧ ∃ j labels m', (∀ label ∈ labels, IsWakeup j label) ∧
      run step m labels = some m' ∧ m'.notified i = true := by
  have guarded := guarded_of_reachable reachable
  have either := guarded.notified_or_wakes asleep mail
  constructor
  · rintro ⟨-, -, quiet, nobody⟩
    rcases either with raised | ⟨j, wakes⟩
    · rw [quiet] at raised
      cases raised
    · exact nobody j wakes
  · rcases either with raised | ⟨j, wakes⟩
    · exact ⟨0, [], m, fun _ listed => absurd listed List.not_mem_nil, rfl, raised⟩
    · exact ⟨j, wakes_run (guarded.inside_of_wakes wakes) wakes⟩

/-- Shard 0 goes to sleep while a push of shard 1 waits. -/
def raceRun : List (Nat × SleepAction Nat) :=
  [(0, .tryEnter), (0, .drain), (0, .pass 0), (0, .pass 1), (1, .push .local 0 [7]),
    (0, .startPoll false), (0, .pollNext 1), (0, .pollNext 1), (0, .endPoll)]

def raceEnd : Sleepers Nat :=
  (run step (init 2) raceRun).getD (init 2)

theorem race_awakened : ¬ raceEnd.LostWakeup 0 ∧ ∃ j labels m',
    (∀ label ∈ labels, IsWakeup j label) ∧ run step raceEnd labels = some m' ∧
      m'.notified 0 = true :=
  no_wakeup_lost (m := raceEnd) (⟨raceRun, rfl⟩ : Reachable step (init 2) raceEnd) rfl
    ⟨.local, 1, .inr (by decide)⟩

end Sleepers

end Hiactor
