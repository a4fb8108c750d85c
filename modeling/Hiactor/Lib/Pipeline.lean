import Mathlib.Data.List.Infix
import Mathlib.Data.List.Nodup
import Mathlib.Logic.Function.Basic
import Mathlib.Tactic.Common

/-!
# Queues in a row

Items move through places, each of which is a queue. All items of one flow take the same route: a
list of different places. When every move takes an item from the front of one place of its route to
the back of the next one, the places of a route, read from its end, always hold the items of the
flow in the order in which they entered.
-/

namespace Hiactor.Lib

/-- The flows of the items, and the places that the items of a flow pass, the first one first. -/
structure Pipeline (Place Flow α : Type) where
  flow : α → Flow
  route : Flow → List Place
  nodup : ∀ f, (route f).Nodup

namespace Pipeline

variable {Place Flow α : Type} [DecidableEq Flow] (pipes : Pipeline Place Flow α)

/-- The items of a flow among others. -/
def ofFlow (f : Flow) (items : List α) : List α := items.filter fun x => pipes.flow x = f

/-- The items of a flow in some places, one place after the other. -/
def along (held : Place → List α) (f : Flow) (places : List Place) : List α :=
  places.flatMap fun place => pipes.ofFlow f (held place)

/-- The items of every flow are in order, and no item is beside its route. -/
structure InOrder (held : Place → List α) (entered : List α) : Prop where
  order : ∀ f, pipes.along held f (pipes.route f).reverse = pipes.ofFlow f entered
  located : ∀ place x, x ∈ held place → place ∈ pipes.route (pipes.flow x)

variable {pipes} {held held' : Place → List α} {entered entered' : List α} {f : Flow}

@[simp] theorem ofFlow_append (items more : List α) :
    pipes.ofFlow f (items ++ more) = pipes.ofFlow f items ++ pipes.ofFlow f more :=
  List.filter_append ..

theorem ofFlow_cons_of_ne {x : α} (other : pipes.flow x ≠ f) (items : List α) :
    pipes.ofFlow f (x :: items) = pipes.ofFlow f items := by
  simp [ofFlow, other]

theorem ofFlow_singleton_of_ne {x : α} (other : pipes.flow x ≠ f) : pipes.ofFlow f [x] = [] :=
  ofFlow_cons_of_ne other []

theorem ofFlow_cons_self (x : α) (items : List α) :
    pipes.ofFlow (pipes.flow x) (x :: items) = x :: pipes.ofFlow (pipes.flow x) items := by
  simp [ofFlow]

@[simp] theorem along_append (held : Place → List α) (places more : List Place) :
    pipes.along held f (places ++ more) = pipes.along held f places ++ pipes.along held f more :=
  List.flatMap_append ..

@[simp] theorem along_cons (held : Place → List α) (place : Place) (places : List Place) :
    pipes.along held f (place :: places) =
      pipes.ofFlow f (held place) ++ pipes.along held f places :=
  List.flatMap_cons ..

@[simp] theorem along_nil (held : Place → List α) : pipes.along held f [] = [] := rfl

theorem along_congr {places : List Place}
    (same : ∀ place ∈ places, pipes.ofFlow f (held' place) = pipes.ofFlow f (held place)) :
    pipes.along held' f places = pipes.along held f places := by
  induction places with
  | nil => rfl
  | cons place places ih =>
    rw [along_cons, along_cons, same place List.mem_cons_self,
      ih fun other listed => same other (List.mem_cons_of_mem _ listed)]

theorem inOrder_of_empty (empty : ∀ place, held place = []) : pipes.InOrder held [] where
  order := by
    intro f
    have nothing : pipes.along held f (pipes.route f).reverse =
        pipes.along (fun _ => []) f (pipes.route f).reverse :=
      along_congr fun place _ => by rw [empty place]
    rw [nothing]
    simp [along, ofFlow]
  located := by
    intro place x listed
    simp [empty place] at listed

section moves

variable [DecidableEq Place]

/-- What one step does: nothing, or an item enters, or an item goes on to the next place. -/
inductive Move (pipes : Pipeline Place Flow α) (held : Place → List α) (entered : List α) :
    (Place → List α) → List α → Prop
  | stay : Move pipes held entered held entered
  | enter (x : α) (place : Place) (first : (pipes.route (pipes.flow x)).head? = some place) :
      Move pipes held entered (Function.update held place (held place ++ [x])) (entered ++ [x])
  | pass (x : α) (rest : List α) (place next : Place)
      (follows : [place, next] <:+: pipes.route (pipes.flow x)) (front : held place = x :: rest) :
      Move pipes held entered
        (Function.update (Function.update held place rest) next (held next ++ [x])) entered

theorem along_update_of_notMem {place : Place} {places : List Place} (items : List α)
    (absent : place ∉ places) :
    pipes.along (Function.update held place items) f places = pipes.along held f places := by
  refine along_congr fun other listed => ?_
  have differ : other ≠ place := fun same => absent (same ▸ listed)
  rw [Function.update_of_ne differ]

/-- A place whose items of the flow do not change. -/
theorem along_update_of_same {place : Place} {items : List α}
    (same : pipes.ofFlow f items = pipes.ofFlow f (held place)) (places : List Place) :
    pipes.along (Function.update held place items) f places = pipes.along held f places := by
  refine along_congr fun other _ => ?_
  by_cases here : other = place
  · subst here
    rw [Function.update_self, same]
  · rw [Function.update_of_ne here]

/-- An item that enters is the last of its flow. -/
theorem along_enter {x : α} {place : Place}
    (first : (pipes.route (pipes.flow x)).head? = some place) (f : Flow) :
    pipes.along (Function.update held place (held place ++ [x])) f (pipes.route f).reverse =
      pipes.along held f (pipes.route f).reverse ++ pipes.ofFlow f [x] := by
  by_cases mine : pipes.flow x = f
  · subst mine
    obtain ⟨later, route⟩ : ∃ later, pipes.route (pipes.flow x) = place :: later :=
      ⟨_, List.eq_cons_of_mem_head? first⟩
    have absent : place ∉ later.reverse := by
      have nodup := pipes.nodup (pipes.flow x)
      rw [route] at nodup
      simpa using (List.nodup_cons.mp nodup).1
    rw [route, List.reverse_cons, along_append, along_append, along_update_of_notMem _ absent]
    simp
  · rw [ofFlow_singleton_of_ne mine, List.append_nil]
    refine along_update_of_same ?_ _
    rw [ofFlow_append, ofFlow_singleton_of_ne mine, List.append_nil]

/-- An item that goes on stays between the same items of its flow. -/
theorem along_pass {x : α} {rest : List α} {place next : Place}
    (follows : [place, next] <:+: pipes.route (pipes.flow x)) (front : held place = x :: rest)
    (f : Flow) :
    pipes.along (Function.update (Function.update held place rest) next (held next ++ [x])) f
        (pipes.route f).reverse =
      pipes.along held f (pipes.route f).reverse := by
  obtain ⟨before, after, route⟩ := follows
  have split : (pipes.route (pipes.flow x)).reverse =
      after.reverse ++ next :: place :: before.reverse := by
    rw [← route]
    simp
  have nodup := List.nodup_reverse.mpr (pipes.nodup (pipes.flow x))
  rw [split, List.nodup_middle, List.nodup_cons, List.nodup_middle, List.nodup_cons,
    List.perm_middle.mem_iff, List.mem_cons, not_or] at nodup
  obtain ⟨⟨differ, notNext⟩, notPlace, -⟩ := nodup
  by_cases mine : pipes.flow x = f
  · subst mine
    have outside (places : List Place) (part : places ⊆ after.reverse ++ before.reverse) :
        pipes.along (Function.update (Function.update held place rest) next (held next ++ [x]))
          (pipes.flow x) places = pipes.along held (pipes.flow x) places := by
      refine along_congr fun other listed => ?_
      have next_ne : other ≠ next := fun same => notNext (same ▸ part listed)
      have place_ne : other ≠ place := fun same => notPlace (same ▸ part listed)
      rw [Function.update_of_ne next_ne, Function.update_of_ne place_ne]
    rw [split, along_append, along_append, along_cons, along_cons, along_cons, along_cons,
      outside _ (List.subset_append_left ..), outside _ (List.subset_append_right ..),
      Function.update_self, Function.update_of_ne (Ne.symm differ), Function.update_self, front,
      ofFlow_cons_self, ofFlow_append, ofFlow_cons_self]
    simp [ofFlow]
  · have unchanged : pipes.ofFlow f (held next ++ [x]) =
        pipes.ofFlow f (Function.update held place rest next) := by
      rw [Function.update_of_ne differ, ofFlow_append, ofFlow_singleton_of_ne mine,
        List.append_nil]
    rw [along_update_of_same unchanged]
    refine along_update_of_same ?_ _
    rw [front, ofFlow_cons_of_ne mine]

/-- The items stay in order. -/
theorem InOrder.move (ordered : pipes.InOrder held entered)
    (move : pipes.Move held entered held' entered') : pipes.InOrder held' entered' := by
  cases move with
  | stay => exact ordered
  | enter x place first =>
    refine ⟨fun f => ?_, ?_⟩
    · rw [along_enter first, ordered.order, ofFlow_append]
    · intro other y listed
      by_cases here : other = place
      · subst here
        rw [Function.update_self] at listed
        rcases List.mem_append.mp listed with before | last
        · exact ordered.located other y before
        · obtain rfl := List.mem_singleton.mp last
          exact List.mem_of_mem_head? first
      · rw [Function.update_of_ne here] at listed
        exact ordered.located other y listed
  | pass x rest place next follows front =>
    refine ⟨fun f => ?_, ?_⟩
    · rw [along_pass follows front, ordered.order]
    · intro other y listed
      by_cases atNext : other = next
      · subst atNext
        rw [Function.update_self] at listed
        rcases List.mem_append.mp listed with before | last
        · exact ordered.located other y before
        · obtain rfl := List.mem_singleton.mp last
          exact follows.subset (by simp)
      · rw [Function.update_of_ne atNext] at listed
        by_cases atPlace : other = place
        · subst atPlace
          rw [Function.update_self] at listed
          exact ordered.located other y (front ▸ List.mem_cons_of_mem _ listed)
        · rw [Function.update_of_ne atPlace] at listed
          exact ordered.located other y listed

end moves

end Pipeline

end Hiactor.Lib
