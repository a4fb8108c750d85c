import Mathlib.Order.WellFounded
import Hiactor.Lib.Run

/-!
# Runs that end

A measure that every step decreases bounds the runs from a state: none of them is endless, and each
can be continued until no step is left.
-/

namespace Hiactor.Lib

variable {σ ι α : Type}

/-- No step that `ok` allows is enabled. -/
def Stuck (step : σ → ι → Option σ) (ok : σ → ι → Prop) (s : σ) : Prop :=
  ∀ label, ok s label → step s label = none

/-- Steps that `ok` allows can be taken without end. -/
def Endless (step : σ → ι → Option σ) (ok : σ → ι → Prop) (s : σ) : Prop :=
  ∃ states : Nat → σ, states 0 = s ∧
    ∀ n, ∃ label, ok (states n) label ∧ step (states n) label = some (states (n + 1))

variable {step : σ → ι → Option σ} {ok : σ → ι → Prop} {s : σ}

theorem Endless.next (endless : Endless step ok s) :
    ∃ label s', ok s label ∧ step s label = some s' ∧ Endless step ok s' := by
  obtain ⟨states, rfl, taken⟩ := endless
  obtain ⟨label, allowed, first⟩ := taken 0
  exact ⟨label, states 1, allowed, first, fun n => states (n + 1), rfl, fun n => taken (n + 1)⟩

theorem exists_step_of_not_stuck (goesOn : ¬ Stuck step ok s) :
    ∃ label s', ok s label ∧ step s label = some s' := by
  obtain ⟨label, goesOn⟩ := not_forall.mp goesOn
  obtain ⟨allowed, enabled⟩ := Classical.not_imp.mp goesOn
  obtain ⟨s', taken⟩ := Option.ne_none_iff_exists'.mp enabled
  exact ⟨label, s', allowed, taken⟩

section

variable [Preorder α] [WellFoundedLT α] {inv : σ → Prop} {measure : σ → α}
  (decreases : ∀ s label s', inv s → ok s label → step s label = some s' →
    inv s' ∧ measure s' < measure s)

include decreases

/-- Under a measure that every step decreases no run is endless. -/
theorem not_endless (valid : inv s) : ¬ Endless step ok s := by
  induction bound : measure s using WellFoundedLT.induction generalizing s with
  | ind a ih =>
    intro endless
    obtain ⟨label, s', allowed, taken, more⟩ := endless.next
    obtain ⟨valid', less⟩ := decreases s label s' valid allowed taken
    exact ih (measure s') (bound ▸ less) valid' rfl more

/-- Under such a measure every state has a run that ends in a stuck one. -/
theorem exists_stuck (valid : inv s) :
    ∃ labels t, StepsMeet step ok s labels ∧ run step s labels = some t ∧ Stuck step ok t := by
  induction bound : measure s using WellFoundedLT.induction generalizing s with
  | ind a ih =>
    by_cases stuck : Stuck step ok s
    · exact ⟨[], s, trivial, rfl, stuck⟩
    · obtain ⟨label, s', allowed, taken⟩ := exists_step_of_not_stuck stuck
      obtain ⟨valid', less⟩ := decreases s label s' valid allowed taken
      obtain ⟨labels, t, met, ran, stuck_t⟩ := ih (measure s') (bound ▸ less) valid' rfl
      exact ⟨label :: labels, t, (stepsMeet_cons taken).mpr ⟨allowed, met⟩,
        run_cons_eq_some.mpr ⟨s', taken, ran⟩, stuck_t⟩

end

end Hiactor.Lib
