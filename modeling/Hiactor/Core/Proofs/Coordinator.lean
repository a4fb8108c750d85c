import Mathlib.Algebra.BigOperators.Group.Finset.Piecewise
import Mathlib.Algebra.Order.BigOperators.Group.Finset
import Mathlib.Order.Interval.Finset.Nat
import Mathlib.Data.List.Perm.Basic
import Hiactor.Core.Coordinator

/-!
# Barriers and rounds

The semaphore of a barrier counts arrivals without their shards, and the call on shard 0 erases it
with all that it holds. The rounds of a barrier are separated as long as no shard arrives for a
round before shard 0 has erased the semaphore of the one before.
-/

namespace Hiactor

open Lib

/-! ## One barrier -/

/-- What the coordinator knows about one barrier. -/
structure Barrier where
  sem : Semaphore
  arrived : Nat → Nat
  called : Nat
  completed : List Nat
  erased : Nat
  ending : Nat

namespace Barrier

/-- An operation on the semaphore that completed some waits. -/
def setSem (b : Barrier) (result : Semaphore × List Nat) : Barrier :=
  { b with
    sem := result.1
    completed := b.completed ++ result.2
    ending := b.ending + result.2.length }

theorem setSem_nil (b : Barrier) (sem : Semaphore) :
    b.setSem (sem, []) = { b with sem := sem } := by
  simp [setSem]

/-- What can happen to a barrier when the arrivals and the calls keep to their rounds. -/
inductive Next (others : Nat) : Barrier → Barrier → Prop
  | signal (b : Barrier) (shard : Nat) (other : shard ∈ Finset.Ioc 0 others)
      (inTime : b.arrived shard ≤ b.erased) :
      Next others b ({ b with
        arrived := Function.update b.arrived shard (b.arrived shard + 1) }.setSem b.sem.signal)
  | call (b : Barrier) (inTime : b.called = b.erased) :
      Next others b ({ b with called := b.called + 1 }.setSem
        (b.sem.wait (b.called + 1) others))
  | erase (b : Barrier) (behind : 0 < b.ending) :
      Next others b { b with sem := {}, erased := b.erased + 1, ending := b.ending - 1 }

/-- Shard 0 does not wait, or its call waits for the arrivals of this round. -/
inductive Phase (others : Nat) (b : Barrier) : Prop
  | free (none : b.sem.waiters = []) (called : b.called = b.completed.length)
  | waiting (one : b.sem.waiters = [(b.called, others)]) (short : b.sem.count < others)
      (called : b.called = b.completed.length + 1) (idle : b.ending = 0)

/-- The rounds of a barrier. Every shard has arrived in the rounds that are completed, and at most
once in the one after those that are erased. -/
structure Sound (others : Nat) (b : Barrier) : Prop where
  lower : ∀ shard ∈ Finset.Ioc 0 others, b.completed.length ≤ b.arrived shard
  upper : ∀ shard ∈ Finset.Ioc 0 others, b.arrived shard ≤ b.erased + 1
  sum : ∑ shard ∈ Finset.Ioc 0 others, b.arrived shard =
    others * b.completed.length + b.sem.count
  numbers : ∀ k ∈ b.completed, k ≤ b.completed.length
  ending : b.erased + b.ending = b.completed.length
  last : b.ending ≤ 1
  phase : Phase others b

variable {others : Nat} {b b' : Barrier}

theorem sum_of_eq {f : Nat → Nat} {bound : Nat} (all : ∀ i ∈ Finset.Ioc 0 others, f i = bound) :
    ∑ i ∈ Finset.Ioc 0 others, f i = others * bound := by
  rw [Finset.sum_congr rfl all]
  simp

/-- Numbers that are bounded and have the largest possible sum. -/
theorem eq_of_sum {f : Nat → Nat} {bound : Nat} (upper : ∀ i ∈ Finset.Ioc 0 others, f i ≤ bound)
    (sum : others * bound ≤ ∑ i ∈ Finset.Ioc 0 others, f i) :
    ∀ i ∈ Finset.Ioc 0 others, f i = bound := by
  have total := sum_of_eq (f := fun _ => bound) (fun i (_ : i ∈ Finset.Ioc 0 others) => rfl)
  have most := Finset.sum_le_sum upper
  exact (Finset.sum_eq_sum_iff_of_le upper).mp (by omega)

theorem sum_update {f : Nat → Nat} {shard : Nat} (other : shard ∈ Finset.Ioc 0 others) :
    ∑ i ∈ Finset.Ioc 0 others, Function.update f shard (f shard + 1) i =
      ∑ i ∈ Finset.Ioc 0 others, f i + 1 := by
  rw [Finset.sum_update_of_mem other, ← Finset.add_sum_erase _ f other]
  rw [Finset.sdiff_singleton_eq_erase]
  omega

/-- The number of the call that completes is the next one. -/
theorem numbers_append {completed : List Nat} (numbers : ∀ k ∈ completed, k ≤ completed.length) :
    ∀ k ∈ completed ++ [completed.length + 1],
      k ≤ (completed ++ [completed.length + 1]).length := by
  intro k member
  rw [List.length_append, List.length_singleton]
  rcases List.mem_append.mp member with early | last
  · exact (numbers k early).trans (Nat.le_succ _)
  · rw [List.mem_singleton.mp last]

/-- The wait of the next call completes when every shard has arrived. -/
theorem Sound.completes (sound : Sound others b) (idle : b.ending = 0) {f : Nat → Nat}
    (all : ∀ i ∈ Finset.Ioc 0 others, f i = b.erased + 1) {call : Nat}
    (next : call = b.completed.length + 1) :
    Sound others ({ b with arrived := f, called := call }.setSem (⟨0, []⟩, [call])) := by
  have round : b.erased = b.completed.length := by
    have := sound.ending
    omega
  subst next
  have length : (b.completed ++ [b.completed.length + 1]).length = b.completed.length + 1 := by simp
  refine ⟨fun i member => ?_, fun i member => (all i member).le, ?_, ?_, ?_, ?_, .free rfl ?_⟩
  · show (b.completed ++ [_]).length ≤ f i
    rw [length, all i member, round]
  · show ∑ i ∈ Finset.Ioc 0 others, f i = others * (b.completed ++ [_]).length + 0
    rw [sum_of_eq all, length, round]
    rfl
  · exact numbers_append sound.numbers
  · show b.erased + (b.ending + 1) = (b.completed ++ [_]).length
    rw [length, idle, round]
  · show b.ending + 1 ≤ 1
    rw [idle]
  · exact length.symm

theorem Sound.signal (sound : Sound others b) {shard : Nat}
    (other : shard ∈ Finset.Ioc 0 others) (inTime : b.arrived shard ≤ b.erased) :
    Sound others ({ b with
      arrived := Function.update b.arrived shard (b.arrived shard + 1) }.setSem b.sem.signal) := by
  have early := sound.lower shard other
  have rounds := sound.ending
  -- a shard arrives in time only when the last round is erased
  have idle : b.ending = 0 := by omega
  let f := Function.update b.arrived shard (b.arrived shard + 1)
  have lower : ∀ i ∈ Finset.Ioc 0 others, b.completed.length ≤ f i := by
    intro i member
    simp only [f, Function.update_apply]
    split
    · omega
    · exact sound.lower i member
  have upper : ∀ i ∈ Finset.Ioc 0 others, f i ≤ b.erased + 1 := by
    intro i member
    simp only [f, Function.update_apply]
    split
    · omega
    · exact sound.upper i member
  have sum : ∑ i ∈ Finset.Ioc 0 others, f i =
      others * b.completed.length + (b.sem.count + 1) := by
    rw [sum_update other, sound.sum, Nat.add_assoc]
  cases sound.phase with
  | free none called =>
    have result : b.sem.signal = (⟨b.sem.count + 1, []⟩, []) := by
      simp [Semaphore.signal, none, Semaphore.serve]
    rw [result, setSem_nil]
    exact ⟨lower, upper, sum, sound.numbers, rounds, sound.last, .free rfl called⟩
  | waiting one short called none =>
    by_cases full : others ≤ b.sem.count + 1
    · have last : b.sem.count + 1 = others := by omega
      have result : b.sem.signal = (⟨0, []⟩, [b.called]) := by
        simp [Semaphore.signal, one, Semaphore.serve, last]
      have all := eq_of_sum upper (by rw [sum, last, ← rounds, idle, Nat.mul_succ]; rfl)
      rw [result]
      exact sound.completes idle all called
    · have result : b.sem.signal = (⟨b.sem.count + 1, [(b.called, others)]⟩, []) := by
        simp [Semaphore.signal, one, Semaphore.serve, full]
      rw [result, setSem_nil]
      exact ⟨lower, upper, sum, sound.numbers, rounds, sound.last,
        .waiting rfl (by simpa using full) called none⟩

theorem Sound.call (sound : Sound others b) (inTime : b.called = b.erased) :
    Sound others ({ b with called := b.called + 1 }.setSem
      (b.sem.wait (b.called + 1) others)) := by
  have rounds := sound.ending
  cases sound.phase with
  | waiting one short called none => omega
  | free none called =>
    have idle : b.ending = 0 := by omega
    by_cases full : others ≤ b.sem.count
    · -- no shard has arrived more than once, so that nothing is left
      have all := eq_of_sum sound.upper (by
        rw [sound.sum, ← rounds, idle, Nat.mul_succ]
        exact Nat.add_le_add_left full _)
      have level : b.sem.count = others := by
        have total := sound.sum
        rw [sum_of_eq all, ← rounds, idle, Nat.mul_succ, Nat.add_zero] at total
        omega
      have result : b.sem.wait (b.called + 1) others = (⟨0, []⟩, [b.called + 1]) := by
        simp [Semaphore.wait, none, level]
      rw [result]
      exact sound.completes idle all (congrArg (· + 1) called)
    · have result : b.sem.wait (b.called + 1) others =
          (⟨b.sem.count, [(b.called + 1, others)]⟩, []) := by
        simp [Semaphore.wait, none, full]
      rw [result, setSem_nil]
      exact ⟨sound.lower, sound.upper, sound.sum, sound.numbers, rounds, sound.last,
        .waiting rfl (Nat.lt_of_not_le full) (congrArg (· + 1) called) idle⟩

/-- The semaphore that a call erases holds nothing. -/
theorem Sound.erase (sound : Sound others b) (behind : 0 < b.ending) :
    Sound others { b with sem := {}, erased := b.erased + 1, ending := b.ending - 1 } := by
  have rounds := sound.ending
  have last := sound.last
  cases sound.phase with
  | waiting one short called none => omega
  | free none called =>
    have all : ∀ i ∈ Finset.Ioc 0 others, b.arrived i = b.completed.length := by
      intro i member
      have := sound.lower i member
      have := sound.upper i member
      omega
    refine ⟨sound.lower, fun i member => ?_, ?_, sound.numbers, ?_, ?_, .free rfl called⟩
    · exact (sound.upper i member).trans (Nat.le_succ _)
    · show ∑ i ∈ Finset.Ioc 0 others, b.arrived i = others * b.completed.length + 0
      rw [sum_of_eq all, Nat.add_zero]
    · show b.erased + 1 + (b.ending - 1) = b.completed.length
      omega
    · show b.ending - 1 ≤ 1
      omega

theorem Sound.next (sound : Sound others b) (next : Next others b b') : Sound others b' := by
  cases next with
  | signal shard other inTime => exact sound.signal other inTime
  | call inTime => exact sound.call inTime
  | erase behind => exact sound.erase behind

/-- A barrier before its first round. -/
theorem sound_fresh : Sound others ⟨{}, fun _ => 0, 0, [], 0, 0⟩ :=
  ⟨fun _ _ => le_rfl, fun _ _ => Nat.zero_le 1, by simp, (fun _ member => nomatch member),
    rfl, Nat.zero_le 1, .free rfl rfl⟩

end Barrier

/-! ## All barriers of a machine -/

namespace Coordinator

variable {c c' : Coordinator} {label : Label}

/-- The other shards of the machine. -/
def otherShards (c : Coordinator) : Finset Nat := Finset.Ioc 0 (c.localShardCount - 1)

def barrier (c : Coordinator) (key : SemKey) : Barrier where
  sem := c.getSem key
  arrived := c.arrived key
  called := c.called key
  completed := c.completed key
  erased := c.erased key
  ending := c.ends.count (key, true)

/-- The arrivals that shard 0 has not executed yet. -/
def inFlight (c : Coordinator) (key : SemKey) : Nat := c.signals.countP (·.2 = key)

/-- A signal is executed only when shard 0 has erased the semaphore of the round that its shard
arrived for before; shard 0 calls the barrier again only when it has erased the semaphore of its
last call; a call without the local wait erases only a semaphore that holds nothing. -/
def inRound (c : Coordinator) : Label → Bool
  | .signal i =>
    match c.signals[i]? with
    | some (shard, key) => decide (c.arrived key shard ≤ c.erased key)
    | none => true
  | .call key => decide (c.called key = c.erased key)
  | .finish i =>
    match c.ends[i]? with
    | some (key, withLocal) => withLocal || decide (c.getSem key = {})
    | none => true
  | .arrive _ _ | .callAlone _ => true

/-- The rounds of all barriers are separated: a call on shard 0 that has completed its wait comes
after as many calls on every other shard, and no arrival is forgotten. -/
structure Separated (c : Coordinator) : Prop where
  ahead : ∀ key, ∀ k ∈ c.completed key, ∀ shard ∈ c.otherShards, k ≤ c.made key shard
  kept : ∀ key, ∑ shard ∈ c.otherShards, c.made key shard =
    (c.localShardCount - 1) * (c.completed key).length + (c.getSem key).count + c.inFlight key

/-- The calls of the other shards have arrived or are on their way. -/
structure Accounted (c : Coordinator) : Prop where
  shards : ∀ signal ∈ c.signals, signal.1 ∈ c.otherShards
  made : ∀ key shard, c.made key shard = c.arrived key shard + c.signals.count (shard, key)

theorem getSem_setSem (c : Coordinator) (key other : SemKey) (result : Semaphore × List Nat) :
    (c.setSem key result).getSem other = if other = key then result.1 else c.getSem other := by
  unfold getSem setSem
  simp only [Function.update_apply]
  split
  · rfl
  · rfl

theorem count_ends_setSem (c : Coordinator) (key other : SemKey) (result : Semaphore × List Nat) :
    (c.setSem key result).ends.count (other, true) =
      c.ends.count (other, true) + if other = key then result.2.length else 0 := by
  simp only [setSem, List.count_append, List.map_const', List.count_replicate]
  congr 1
  by_cases same : other = key
  · simp [same]
  · simp [same, Ne.symm same]

/-- The barrier of a key after an operation on a semaphore. -/
theorem barrier_setSem (c : Coordinator) (key other : SemKey) (result : Semaphore × List Nat) :
    (c.setSem key result).barrier other =
      if other = key then (c.barrier other).setSem result else c.barrier other := by
  have sem := c.getSem_setSem key other result
  have ends := c.count_ends_setSem key other result
  by_cases same : other = key
  · subst same
    rw [if_pos rfl] at sem ends ⊢
    simp only [barrier, Barrier.setSem, sem, ends]
    simp [setSem]
  · rw [if_neg same] at sem ends ⊢
    simp only [barrier, sem, ends]
    simp [setSem, same]

/-- What a step finds and does. -/
inductive TakesStep (c : Coordinator) : Label → Coordinator → Prop
  | arrive (shard : Nat) (key : SemKey) (other : 0 < shard ∧ shard < c.localShardCount) :
      TakesStep c (.arrive shard key) { c with
        signals := c.signals ++ [(shard, key)]
        made := Function.update c.made key
          (Function.update (c.made key) shard (c.made key shard + 1)) }
  | signal (i shard : Nat) (key : SemKey) (found : c.signals[i]? = some (shard, key)) :
      TakesStep c (.signal i) ({ c with
        signals := c.signals.eraseIdx i
        arrived := Function.update c.arrived key
          (Function.update (c.arrived key) shard (c.arrived key shard + 1)) }.setSem key
            (c.getSem key).signal)
  | call (key : SemKey) :
      TakesStep c (.call key) ({ c with
        called := Function.update c.called key (c.called key + 1) }.setSem key
          ((c.getSem key).wait (c.called key + 1) (c.localShardCount - 1)))
  | callAlone (barrierId : String) :
      TakesStep c (.callAlone barrierId) { c with ends := c.ends ++ [(⟨barrierId, true⟩, false)] }
  | finish (i : Nat) (key : SemKey) (withLocal : Bool)
      (found : c.ends[i]? = some (key, withLocal)) :
      TakesStep c (.finish i) { c with
        sems := Function.update c.sems key none
        ends := c.ends.eraseIdx i
        erased := if withLocal then Function.update c.erased key (c.erased key + 1) else c.erased }

theorem takesStep (taken : c.step label = some c') : TakesStep c label c' := by
  unfold step at taken
  split at taken
  · split at taken
    · next other => exact Option.some.inj taken ▸ .arrive _ _ other
    · cases taken
  · split at taken
    · next found => exact Option.some.inj taken ▸ .signal _ _ _ found
    · cases taken
  · exact Option.some.inj taken ▸ .call _
  · exact Option.some.inj taken ▸ .callAlone _
  · split at taken
    · next found => exact Option.some.inj taken ▸ .finish _ _ _ found
    · cases taken

theorem count_eraseIdx {α : Type} [BEq α] [LawfulBEq α] {l : List α} {i : Nat} {a : α}
    (found : l[i]? = some a) (x : α) :
    l.count x = (l.eraseIdx i).count x + if a == x then 1 else 0 := by
  obtain ⟨below, rfl⟩ := List.getElem?_eq_some_iff.mp found
  rw [← (List.getElem_cons_eraseIdx_perm below).count_eq, List.count_cons]

/-- Every step in its round does to each barrier nothing or one of the transitions above. -/
theorem next_of_step (accounted : Accounted c) (inRound : c.inRound label = true)
    (taken : c.step label = some c') (key : SemKey) :
    c'.barrier key = c.barrier key ∨
      Barrier.Next (c.localShardCount - 1) (c.barrier key) (c'.barrier key) := by
  cases takesStep taken with
  | arrive shard other remote => exact .inl rfl
  | signal i shard other found =>
    rw [barrier_setSem]
    split
    · rename_i same
      subst same
      have inTime : c.arrived key shard ≤ c.erased key := by
        simpa [Coordinator.inRound, found] using inRound
      have counted : barrier { c with
          signals := c.signals.eraseIdx i
          arrived := Function.update c.arrived key
            (Function.update (c.arrived key) shard (c.arrived key shard + 1)) } key =
          { c.barrier key with
            arrived := Function.update (c.arrived key) shard (c.arrived key shard + 1) } := by
        simp [barrier, getSem]
      rw [counted]
      exact .inr (.signal (c.barrier key) shard
        (accounted.shards _ (List.mem_of_getElem? found)) inTime)
    · rename_i different
      left
      simp [barrier, getSem, different]
  | call other =>
    rw [barrier_setSem]
    split
    · rename_i same
      subst same
      have inTime : c.called key = c.erased key := by
        simpa [Coordinator.inRound] using inRound
      have counted : barrier { c with
          called := Function.update c.called key (c.called key + 1) } key =
          { c.barrier key with called := c.called key + 1 } := by
        simp [barrier, getSem]
      rw [counted]
      exact .inr (.call (c.barrier key) inTime)
    · rename_i different
      left
      simp [barrier, getSem, different]
  | callAlone barrierId =>
    left
    simp [barrier, getSem]
  | finish i other withLocal found =>
    have count := count_eraseIdx found (key, true)
    by_cases same : key = other
    · subst same
      cases withLocal with
      | true =>
        rw [if_pos (by simp)] at count
        have behind : 0 < (c.barrier key).ending := by
          show 0 < c.ends.count (key, true)
          omega
        have erased : barrier { c with
            sems := Function.update c.sems key none
            ends := c.ends.eraseIdx i
            erased := Function.update c.erased key (c.erased key + 1) } key =
            { c.barrier key with
              sem := {}
              erased := c.erased key + 1
              ending := c.ends.count (key, true) - 1 } := by
          simp [barrier, getSem, count]
        simp only [if_true]
        rw [erased]
        exact .inr (.erase (c.barrier key) behind)
      | false =>
        rw [if_neg (by simp)] at count
        have empty : c.getSem key = {} := by simpa [Coordinator.inRound, found] using inRound
        left
        simp only [barrier, empty, count]
        simp [getSem]
    · left
      have different : ¬ ((other, withLocal) == (key, true)) = true := by
        intro equal
        exact same (Prod.mk.inj (beq_iff_eq.mp equal)).1.symm
      rw [if_neg different] at count
      cases withLocal <;> simp [barrier, getSem, same, count]

theorem localShardCount_step (taken : c.step label = some c') :
    c'.localShardCount = c.localShardCount := by
  cases takesStep taken with
  | arrive | signal | call | callAlone | finish => rfl

theorem update_two (f : SemKey → Nat → Nat) (key other : SemKey) (shard i : Nat) :
    Function.update f key (Function.update (f key) shard (f key shard + 1)) other i =
      f other i + if (shard, key) == (i, other) then 1 else 0 := by
  by_cases same : other = key
  · subst same
    by_cases here : i = shard
    · subst here
      simp
    · simp [here, Ne.symm here]
  · simp [same, Ne.symm same]

theorem Accounted.step (accounted : Accounted c) (taken : c.step label = some c') :
    Accounted c' := by
  have count := localShardCount_step taken
  have shards' : c'.otherShards = c.otherShards := by rw [otherShards, count, otherShards]
  obtain ⟨shards, made⟩ := accounted
  constructor
  · rw [shards']
    cases takesStep taken with
    | arrive shard key other =>
      intro signal member
      rcases List.mem_append.mp member with old | new
      · exact shards signal old
      · rw [List.mem_singleton.mp new]
        exact Finset.mem_Ioc.mpr ⟨other.1, Nat.le_sub_one_of_lt other.2⟩
    | signal i shard key found =>
      exact fun signal member => shards signal (List.mem_of_mem_eraseIdx member)
    | call | callAlone | finish => exact shards
  · cases takesStep taken with
    | arrive shard key remote =>
      intro other i
      show Function.update c.made key _ other i =
        c.arrived other i + (c.signals ++ [(shard, key)]).count (i, other)
      rw [update_two, made other i, List.count_append, List.count_singleton, Nat.add_assoc]
    | signal i shard key found =>
      intro other j
      have moved := count_eraseIdx found (j, other)
      show c.made other j = Function.update c.arrived key _ other j +
        (c.signals.eraseIdx i).count (j, other)
      rw [update_two, made other j]
      omega
    | call | callAlone | finish => exact made

/-- The signals of a barrier, by the shards that sent them. -/
theorem sum_count_signals {shards : Finset Nat} {signals : List (Nat × SemKey)}
    (members : ∀ signal ∈ signals, signal.1 ∈ shards) (key : SemKey) :
    ∑ shard ∈ shards, signals.count (shard, key) = signals.countP (·.2 = key) := by
  induction signals with
  | nil => simp
  | cons signal signals ih =>
    have rest := ih fun other member => members other (List.mem_cons_of_mem signal member)
    have here := members signal List.mem_cons_self
    obtain ⟨shard, other⟩ := signal
    simp only [List.count_cons, List.countP_cons, Finset.sum_add_distrib, rest]
    congr 1
    by_cases same : other = key
    · subst same
      simp [here]
    · simp [same]

/-- The state of a machine whose calls keep to their rounds. -/
structure InRounds (c : Coordinator) : Prop where
  accounted : Accounted c
  sound : ∀ key, Barrier.Sound (c.localShardCount - 1) (c.barrier key)

theorem InRounds.step (rounds : InRounds c) (inRound : c.inRound label = true)
    (taken : c.step label = some c') : InRounds c' := by
  refine ⟨rounds.accounted.step taken, fun key => ?_⟩
  rw [localShardCount_step taken]
  rcases next_of_step rounds.accounted inRound taken key with same | next
  · rw [same]
    exact rounds.sound key
  · exact (rounds.sound key).next next

theorem inRounds_init (others : Nat) : InRounds (init others) where
  accounted := ⟨(fun _ member => nomatch member), fun _ _ => rfl⟩
  sound := fun _ => Barrier.sound_fresh

theorem InRounds.separated (rounds : InRounds c) : Separated c := by
  obtain ⟨⟨shards, made⟩, sound⟩ := rounds
  constructor
  · intro key k completed shard other
    have early := (sound key).lower shard other
    calc k ≤ (c.completed key).length := (sound key).numbers k completed
      _ ≤ c.arrived key shard := early
      _ ≤ c.made key shard := by
        rw [made]
        exact Nat.le_add_right ..
  · intro key
    have sum := (sound key).sum
    calc ∑ shard ∈ c.otherShards, c.made key shard
        = ∑ shard ∈ c.otherShards, c.arrived key shard + c.inFlight key := by
          rw [Finset.sum_congr rfl fun shard _ => made key shard, Finset.sum_add_distrib,
            sum_count_signals shards]
          rfl
      _ = _ := congrArg (· + c.inFlight key) sum

/-- The rounds of barriers are separated in every run whose calls keep to them. -/
theorem separated_of_run {others : Nat} {labels : List Label}
    (inRound : StepsMeet step (fun c label => c.inRound label = true) (init others) labels)
    (ran : run step (init others) labels = some c) : Separated c :=
  (run_invariant_of_meets InRounds (fun _ _ _ rounds met taken => rounds.step met taken) labels
    _ _ (inRounds_init others) inRound ran).separated

/-- Shard 1 arrives for two rounds before shard 2 arrives for the first one. -/
def earlyArrivalRun : List Label :=
  let key : SemKey := ⟨"round", false⟩
  [.arrive 1 key, .arrive 1 key, .signal 0, .signal 0, .call key]

/-- The state after it. -/
def earlyArrivalEnd : Coordinator := (run step (init 2) earlyArrivalRun).get (by decide)

/-- The call on shard 0 completes without shard 2. -/
theorem early_arrival_not_separated :
    ¬ ∀ (others : Nat) (labels : List Label) (c : Coordinator),
      run step (init others) labels = some c → Separated c := by
  intro claim
  have separated : Separated earlyArrivalEnd :=
    claim 2 earlyArrivalRun earlyArrivalEnd (Option.some_get (by decide)).symm
  have ahead := separated.ahead ⟨"round", false⟩ 1 (by decide) 2 (by decide)
  exact absurd ahead (by decide)

/-- Three shards meet twice at a barrier. -/
def twoRoundsRun : List Label :=
  let key : SemKey := ⟨"round", true⟩
  let round : List Label :=
    [.arrive 1 key, .call key, .arrive 2 key, .signal 1, .signal 0, .finish 0]
  round ++ round

theorem two_rounds_separated :
    ∃ c, run step (init 2) twoRoundsRun = some c ∧ c.completed ⟨"round", true⟩ = [1, 2] ∧
      Separated c := by
  have ran : (run step (init 2) twoRoundsRun).isSome = true := by decide
  refine ⟨_, (Option.some_get ran).symm, ?_, ?_⟩
  · decide +revert
  · exact separated_of_run (by decide) (Option.some_get ran).symm

end Coordinator

end Hiactor
