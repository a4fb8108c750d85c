import Mathlib.Data.List.Basic

/-!
# Runs of a labelled transition system

A system is a partial step function `σ → ι → Option σ`: the label resolves every choice
that is made outside the system, and `none` says that the step is not enabled in that
state. Invariants of whole runs are proved here once by induction on the labels, so that
each use is left with an initial state and a single step.
-/

namespace Hiactor.Lib

variable {σ ι : Type}

/-- The state after the steps `labels`, or `none` when one of them is not enabled. -/
def run (step : σ → ι → Option σ) : σ → List ι → Option σ
  | s, [] => some s
  | s, label :: labels =>
      match step s label with
      | none => none
      | some s' => run step s' labels

/-- Every step of the run of `labels` from `s` is taken in a state and with a label that
satisfy `ok`. -/
def StepsMeet (step : σ → ι → Option σ) (ok : σ → ι → Prop) : σ → List ι → Prop
  | _, [] => True
  | s, label :: labels =>
      ok s label ∧ ∀ s', step s label = some s' → StepsMeet step ok s' labels

/-- `StepsMeet` can be evaluated. -/
instance decidableStepsMeet {step : σ → ι → Option σ} {ok : σ → ι → Prop}
    [decide : ∀ s label, Decidable (ok s label)] :
    ∀ (s : σ) (labels : List ι), Decidable (StepsMeet step ok s labels)
  | _, [] => isTrue trivial
  | s, label :: labels =>
    match taken : step s label with
    | none => decidable_of_iff (ok s label)
        ⟨fun met => ⟨met, fun s' next => by simp [taken] at next⟩, And.left⟩
    | some s' =>
      have := @decidableStepsMeet step ok decide s' labels
      decidable_of_iff (ok s label ∧ StepsMeet step ok s' labels)
        ⟨fun ⟨met, rest⟩ => ⟨met, fun t next => Option.some.inj (taken.symm.trans next) ▸ rest⟩,
          fun ⟨met, rest⟩ => ⟨met, rest s' taken⟩⟩

/-- The states that some run from `init` ends in. -/
def Reachable (step : σ → ι → Option σ) (init s : σ) : Prop :=
  ∃ labels, run step init labels = some s

theorem run_cons_eq_some {step : σ → ι → Option σ} {s t : σ} {label : ι} {labels : List ι} :
    run step s (label :: labels) = some t ↔
      ∃ s', step s label = some s' ∧ run step s' labels = some t := by
  cases taken : step s label with
  | none => simp [run, taken]
  | some s' => simp [run, taken]

theorem run_append {step : σ → ι → Option σ} {s t u : σ} {first second : List ι}
    (ran : run step s first = some t) (more : run step t second = some u) :
    run step s (first ++ second) = some u := by
  induction first generalizing s with
  | nil =>
    obtain rfl := Option.some.inj ran
    exact more
  | cons label labels ih =>
    obtain ⟨s', taken, rest⟩ := run_cons_eq_some.mp ran
    exact run_cons_eq_some.mpr ⟨s', taken, ih rest⟩

theorem stepsMeet_cons {step : σ → ι → Option σ} {ok : σ → ι → Prop} {s s' : σ} {label : ι}
    {labels : List ι} (taken : step s label = some s') :
    StepsMeet step ok s (label :: labels) ↔ ok s label ∧ StepsMeet step ok s' labels := by
  simp [StepsMeet, taken]

theorem StepsMeet.mono {step : σ → ι → Option σ} {first second : σ → ι → Prop} {s : σ}
    {labels : List ι} (met : StepsMeet step first s labels)
    (weaker : ∀ t label, first t label → second t label) : StepsMeet step second s labels := by
  induction labels generalizing s with
  | nil => trivial
  | cons label labels ih => exact ⟨weaker s label met.1, fun s' taken => ih (met.2 s' taken)⟩

theorem StepsMeet.and {step : σ → ι → Option σ} {first second : σ → ι → Prop} {s : σ}
    {labels : List ι} (one : StepsMeet step first s labels) (two : StepsMeet step second s labels) :
    StepsMeet step (fun s label => first s label ∧ second s label) s labels := by
  induction labels generalizing s with
  | nil => trivial
  | cons label labels ih =>
    exact ⟨⟨one.1, two.1⟩, fun s' taken => ih (one.2 s' taken) (two.2 s' taken)⟩

/-- A property that every step taken under `ok` preserves holds at the end of every run
whose steps all meet `ok`. -/
theorem run_invariant_of_meets {step : σ → ι → Option σ} {ok : σ → ι → Prop}
    (inv : σ → Prop)
    (preserved : ∀ s label s', inv s → ok s label → step s label = some s' → inv s') :
    ∀ (labels : List ι) (s t : σ), inv s → StepsMeet step ok s labels →
      run step s labels = some t → inv t := by
  intro labels
  induction labels with
  | nil =>
    intro s t valid _ ran
    exact Option.some.inj ran ▸ valid
  | cons label labels ih =>
    intro s t valid meets ran
    obtain ⟨s', taken, rest⟩ := run_cons_eq_some.mp ran
    exact ih s' t (preserved s label s' valid meets.1 taken) (meets.2 s' taken) rest

/-- A condition that follows from another one and an invariant of the steps that meet it. -/
theorem StepsMeet.of_invariant {step : σ → ι → Option σ} {ok weaker : σ → ι → Prop}
    (inv : σ → Prop)
    (preserved : ∀ s label s', inv s → ok s label → step s label = some s' → inv s')
    (follows : ∀ s label, inv s → ok s label → weaker s label) {s : σ} {labels : List ι}
    (valid : inv s) (met : StepsMeet step ok s labels) : StepsMeet step weaker s labels := by
  induction labels generalizing s with
  | nil => trivial
  | cons label labels ih =>
    exact ⟨follows s label valid met.1,
      fun s' taken => ih (preserved s label s' valid met.1 taken) (met.2 s' taken)⟩

theorem stepsMeet_true (step : σ → ι → Option σ) (s : σ) (labels : List ι) :
    StepsMeet step (fun _ _ => True) s labels := by
  induction labels generalizing s with
  | nil => trivial
  | cons label labels ih => exact ⟨trivial, fun s' _ => ih s'⟩

/-- A condition on the labels alone. -/
theorem stepsMeet_of_forall {step : σ → ι → Option σ} {ok : ι → Prop} {labels : List ι}
    (all : ∀ label ∈ labels, ok label) (s : σ) : StepsMeet step (fun _ => ok) s labels := by
  induction labels generalizing s with
  | nil => trivial
  | cons label labels ih =>
    refine ⟨all label List.mem_cons_self, fun s' _ => ih ?_ s'⟩
    exact fun other listed => all other (List.mem_cons_of_mem _ listed)

/-- A property that every step preserves holds at the end of every run. -/
theorem run_invariant {step : σ → ι → Option σ} (inv : σ → Prop)
    (preserved : ∀ s label s', inv s → step s label = some s' → inv s')
    (labels : List ι) (s t : σ) (valid : inv s) (ran : run step s labels = some t) : inv t :=
  run_invariant_of_meets inv (fun s label s' valid _ => preserved s label s' valid) labels s t valid
    (stepsMeet_true step s labels) ran

theorem StepsMeet.append {step : σ → ι → Option σ} {ok : σ → ι → Prop} {s t : σ}
    {first second : List ι} (met : StepsMeet step ok s first) (ran : run step s first = some t)
    (more : StepsMeet step ok t second) : StepsMeet step ok s (first ++ second) := by
  induction first generalizing s with
  | nil => exact Option.some.inj ran ▸ more
  | cons label labels ih =>
    obtain ⟨s', taken, rest⟩ := run_cons_eq_some.mp ran
    exact (stepsMeet_cons taken).mpr ⟨met.1, ih (met.2 s' taken) rest⟩

/-- The states that some run from `init` ends in whose steps all meet `ok`. -/
def ReachedBy (step : σ → ι → Option σ) (ok : σ → ι → Prop) (init s : σ) : Prop :=
  ∃ labels, StepsMeet step ok init labels ∧ run step init labels = some s

theorem reachedBy_refl (step : σ → ι → Option σ) (ok : σ → ι → Prop) (init : σ) :
    ReachedBy step ok init init := ⟨[], trivial, rfl⟩

theorem Reachable.step {step : σ → ι → Option σ} {init s t : σ} {label : ι}
    (reachable : Reachable step init s) (taken : step s label = some t) :
    Reachable step init t := by
  obtain ⟨labels, ran⟩ := reachable
  exact ⟨labels ++ [label], run_append ran (run_cons_eq_some.mpr ⟨t, taken, rfl⟩)⟩

theorem ReachedBy.reachable {step : σ → ι → Option σ} {ok : σ → ι → Prop} {init s : σ}
    (reached : ReachedBy step ok init s) : Reachable step init s :=
  reached.imp fun _ => And.right

theorem ReachedBy.step {step : σ → ι → Option σ} {ok : σ → ι → Prop} {init s t : σ} {label : ι}
    (reached : ReachedBy step ok init s) (meets : ok s label) (taken : step s label = some t) :
    ReachedBy step ok init t := by
  obtain ⟨labels, met, ran⟩ := reached
  refine ⟨labels ++ [label], met.append ran ⟨meets, fun _ _ => trivial⟩, ?_⟩
  exact run_append ran (run_cons_eq_some.mpr ⟨t, taken, rfl⟩)

theorem ReachedBy.invariant {step : σ → ι → Option σ} {ok : σ → ι → Prop} {init s : σ}
    (reached : ReachedBy step ok init s) (inv : σ → Prop)
    (preserved : ∀ s label s', inv s → ok s label → step s label = some s' → inv s')
    (valid : inv init) : inv s := by
  obtain ⟨labels, met, ran⟩ := reached
  exact run_invariant_of_meets inv preserved labels init s valid met ran

/-- When every state beside the goal has a run to one of less cost, every state has one to the
goal. -/
theorem exists_run_of_progress {step : σ → ι → Option σ} {ok : ι → Prop} (inv goal : σ → Prop)
    (cost : σ → Nat)
    (progress : ∀ s, inv s → ¬goal s → ∃ labels s', (∀ label ∈ labels, ok label) ∧
      run step s labels = some s' ∧ inv s' ∧ cost s' < cost s)
    (s : σ) (valid : inv s) :
    ∃ labels t, (∀ label ∈ labels, ok label) ∧ run step s labels = some t ∧ inv t ∧ goal t := by
  induction bound : cost s using Nat.strongRecOn generalizing s with
  | ind n ih =>
    by_cases reached : goal s
    · exact ⟨[], s, fun _ listed => absurd listed List.not_mem_nil, rfl, valid, reached⟩
    · obtain ⟨labels, s', allowed, ran, valid', less⟩ := progress s valid reached
      obtain ⟨more, t, allowed', ran', valid_t, reached_t⟩ :=
        ih (cost s') (bound ▸ less) s' valid' rfl
      refine ⟨labels ++ more, t, fun label listed => ?_, run_append ran ran', valid_t, reached_t⟩
      rcases List.mem_append.mp listed with first | second
      · exact allowed label first
      · exact allowed' label second

end Hiactor.Lib
