import Mathlib.Logic.Function.Basic
import Hiactor.Lib.Run

/-!
# Two handles on one store

An object and a handle that was shared from it are pushed to and dumped in any order, and both write
to one store. Each of them has the items that were pushed to it as long as the store holds them and
the pushes of the two are allowed together. A dump also writes the count of the items, which the
store has only one of.
-/

namespace Hiactor.Lib

/-- The object, or the handle that was shared from it. -/
inductive Side where
  | original
  | shared
  deriving DecidableEq, Repr

def Side.other : Side → Side
  | .original => .shared
  | .shared => .original

theorem Side.eq_other {side side' : Side} (apart : side ≠ side') : side = side'.other := by
  cases side <;> cases side' <;> first | rfl | exact absurd rfl apart

/-- What is done to one of the two. -/
inductive Use (ι : Type) where
  | push (side : Side) (item : ι)
  | dump (side : Side)
  deriving DecidableEq, Repr

variable {σ ι : Type}

/-- The items that were pushed to one side. -/
def own (side : Side) : List (Use ι) → List ι
  | [] => []
  | .push side' item :: uses => if side' = side then item :: own side uses else own side uses
  | .dump _ :: uses => own side uses

theorem own_append (side : Side) (first second : List (Use ι)) :
    own side (first ++ second) = own side first ++ own side second := by
  induction first with
  | nil => rfl
  | cons use uses ih =>
    cases use with
    | push side' item =>
      simp only [List.cons_append, own]
      split
      · rw [ih, List.cons_append]
      · exact ih
    | dump side' => exact ih

theorem own_push (side : Side) (done : List (Use ι)) (item : ι) :
    (own · (done ++ [.push side item])) =
      Function.update (own · done) side (own side done ++ [item]) := by
  funext h
  rw [own_append]
  by_cases same : h = side
  · subst same
    rw [Function.update_self, own, if_pos rfl, own]
  · rw [Function.update_of_ne same, own, if_neg (Ne.symm same), own, List.append_nil]

theorem own_dump (side : Side) (done : List (Use ι)) :
    (own · (done ++ [.dump side])) = (own · done) := by
  funext h
  rw [own_append, own, own, List.append_nil]

/-- The other side was dumped for the first time after this one. -/
def DumpedLater (side : Side) (uses : List (Use ι)) : Prop :=
  ∃ before after, uses = before ++ .dump side.other :: after ∧ .dump side ∈ before ∧
    .dump side.other ∉ before

theorem DumpedLater.append {side : Side} {uses : List (Use ι)} (later : DumpedLater side uses)
    (more : List (Use ι)) : DumpedLater side (uses ++ more) := by
  obtain ⟨before, after, rfl, here, first⟩ := later
  exact ⟨before, after ++ more, by rw [List.append_assoc, List.cons_append], here, first⟩

theorem DumpedLater.dumped {side : Side} {uses : List (Use ι)} (later : DumpedLater side uses) :
    .dump side.other ∈ uses := by
  obtain ⟨before, after, rfl, -, -⟩ := later
  exact List.mem_append_right _ List.mem_cons_self

/-- What was pushed to the two sides is the same as far as both go. -/
def Agree {β : Type} (xs ys : List β) : Prop := xs <+: ys ∨ ys <+: xs

namespace Agree

variable {β : Type} {xs xs' ys ys' : List β}

theorem symm (agree : Agree xs ys) : Agree ys xs := Or.symm agree

theorem of_isPrefix (agree : Agree xs ys) (front : xs' <+: xs) (front' : ys' <+: ys) :
    Agree xs' ys' := by
  rcases agree with shorter | longer
  · exact List.prefix_or_prefix_of_prefix (front.trans shorter) front'
  · exact List.prefix_or_prefix_of_prefix front (front'.trans longer)

theorem append_left (agree : Agree xs ys) (base : List β) : Agree (base ++ xs) (base ++ ys) :=
  agree.imp (List.prefix_append_right_inj base).mpr (List.prefix_append_right_inj base).mpr

end Agree

def useStep (pushTo : σ → Side → ι → Option σ) (dumpOf : σ → Side → σ) (s : σ) : Use ι → Option σ
  | .push side item => pushTo s side item
  | .dump side => some (dumpOf s side)

/-- A store with two handles. `Stores s side items`: the store holds what was pushed to that side.
`Allowed` restricts what is pushed to the two of them. -/
structure Sharing (pushTo : σ → Side → ι → Option σ) (dumpOf : σ → Side → σ) where
  Live : σ → Side → Prop
  Stores : σ → Side → List ι → Prop
  Counted : σ → Nat → Prop
  Allowed : (Side → List ι) → Prop
  allowed_of_isPrefix {items more : Side → List ι} :
    Allowed more → (∀ side, items side <+: more side) → Allowed items
  push_live {s s' : σ} {side : Side} {item : ι} :
    pushTo s side item = some s' → Live s side ∧ ∀ h, Live s' h ↔ Live s h
  push_stores {s s' : σ} {side : Side} {item : ι} {items : Side → List ι} :
    pushTo s side item = some s' → (∀ h, Stores s h (items h)) →
      Allowed (Function.update items side (items side ++ [item])) →
        (∀ h, Stores s' h (Function.update items side (items side ++ [item]) h)) ∧
          ∀ n, Counted s n → Counted s' n
  dump_live {s : σ} {side h : Side} : Live (dumpOf s side) h ↔ Live s h ∧ h ≠ side
  dump_stores {s : σ} {side h : Side} {items : List ι} :
    Stores s h items → Stores (dumpOf s side) h items
  dump_counted {s : σ} {side : Side} {items : List ι} :
    Live s side → Stores s side items → Counted (dumpOf s side) items.length
  dump_again {s : σ} {side : Side} : ¬ Live s side → dumpOf s side = s

namespace Sharing

variable {pushTo : σ → Side → ι → Option σ} {dumpOf : σ → Side → σ}
  {sharing : Sharing pushTo dumpOf}
  {s s' t : σ} {done uses : List (Use ι)} {use : Use ι}

/-- What holds after `done`. -/
structure Tracks (sharing : Sharing pushTo dumpOf) (done : List (Use ι)) (s : σ) : Prop where
  stores : ∀ side, sharing.Stores s side (own side done)
  live : ∀ side, sharing.Live s side ↔ .dump side ∉ done
  counted : ∀ side, .dump side ∈ done → sharing.Counted s (own side done).length ∨
    (DumpedLater side done ∧ sharing.Counted s (own side.other done).length)

theorem Tracks.push {side : Side} {item : ι} (tracks : sharing.Tracks done s)
    (allowed : sharing.Allowed (own · (done ++ [.push side item])))
    (pushed : pushTo s side item = some s') :
    sharing.Tracks (done ++ [.push side item]) s' := by
  obtain ⟨live, same_live⟩ := sharing.push_live pushed
  have open_side := (tracks.live side).mp live
  have dumps (h : Side) : .dump h ∈ done ++ [.push side item] ↔ .dump h ∈ done := by simp
  have other_own {h : Side} (dumped : .dump h ∈ done) :
      own h (done ++ [.push side item]) = own h done := by
    have apart : h ≠ side := by
      rintro rfl
      exact open_side dumped
    rw [congrFun (own_push side done item) h]
    exact Function.update_of_ne apart _ _
  rw [own_push] at allowed
  obtain ⟨stores, same_counted⟩ := sharing.push_stores pushed tracks.stores allowed
  constructor
  · intro h
    rw [congrFun (own_push side done item) h]
    exact stores h
  · intro h
    rw [same_live h, tracks.live h, dumps h]
  · intro h dumped
    rw [dumps h] at dumped
    rw [other_own dumped]
    rcases tracks.counted h dumped with counted | ⟨later, counted⟩
    · exact .inl (same_counted _ counted)
    · rw [other_own later.dumped]
      exact .inr ⟨later.append _, same_counted _ counted⟩

theorem Tracks.dump (tracks : sharing.Tracks done s) (side : Side) :
    sharing.Tracks (done ++ [.dump side]) (dumpOf s side) := by
  have same_own (h : Side) : own h (done ++ [.dump side]) = own h done :=
    congrFun (own_dump side done) h
  have dumps (h : Side) : .dump h ∈ done ++ [.dump side] ↔ .dump h ∈ done ∨ h = side := by simp
  constructor
  · intro h
    rw [same_own h]
    exact sharing.dump_stores (tracks.stores h)
  · intro h
    rw [sharing.dump_live, tracks.live h, dumps h, not_or]
  · intro h dumped
    rw [same_own h, same_own h.other]
    by_cases again : .dump side ∈ done
    · -- a handle that was dumped before is left as it is
      have dead : ¬ sharing.Live s side := fun live => (tracks.live side).mp live again
      have dumped' : .dump h ∈ done := by
        rcases (dumps h).mp dumped with before | rfl
        · exact before
        · exact again
      rw [sharing.dump_again dead]
      exact (tracks.counted h dumped').imp_right fun counted => ⟨counted.1.append _, counted.2⟩
    · have counted := sharing.dump_counted ((tracks.live side).mpr again) (tracks.stores side)
      by_cases same : h = side
      · subst same
        exact .inl counted
      · have before := ((dumps h).mp dumped).resolve_right same
        obtain rfl := Side.eq_other (Ne.symm same)
        exact .inr ⟨⟨done, [], rfl, before, again⟩, counted⟩

theorem Tracks.step (tracks : sharing.Tracks done s)
    (allowed : sharing.Allowed (own · (done ++ [use])))
    (stepped : useStep pushTo dumpOf s use = some s') : sharing.Tracks (done ++ [use]) s' := by
  cases use with
  | push side item => exact tracks.push allowed stepped
  | dump side =>
    obtain rfl := Option.some.inj stepped
    exact tracks.dump side

theorem Tracks.run (tracks : sharing.Tracks done s)
    (allowed : sharing.Allowed (own · (done ++ uses)))
    (ran : Lib.run (useStep pushTo dumpOf) s uses = some t) : sharing.Tracks (done ++ uses) t := by
  induction uses generalizing done s with
  | nil =>
    obtain rfl := Option.some.inj ran
    rw [List.append_nil]
    exact tracks
  | cons use uses ih =>
    obtain ⟨s', stepped, rest⟩ := run_cons_eq_some.mp ran
    have split : done ++ use :: uses = done ++ [use] ++ uses := by simp
    rw [split] at allowed ⊢
    have sooner : sharing.Allowed (own · (done ++ [use])) := by
      apply sharing.allowed_of_isPrefix allowed
      intro side
      rw [own_append side (done ++ [use])]
      exact List.prefix_append _ _
    exact ih (tracks.step sooner stepped) allowed rest

/-- A store that both handles are on and that nothing was pushed to. -/
theorem tracks_nil (stores : ∀ side, sharing.Stores s side [])
    (live : ∀ side, sharing.Live s side) : sharing.Tracks [] s where
  stores side := stores side
  live side := iff_of_true (live side) List.not_mem_nil
  counted _ dumped := absurd dumped List.not_mem_nil

/-- The count of a dumped handle is in the store unless the other one wrote another count. -/
theorem Tracks.counted_own {side : Side} (tracks : sharing.Tracks done s)
    (dumped : .dump side ∈ done)
    (kept : DumpedLater side done → (own side.other done).length = (own side done).length) :
    sharing.Counted s (own side done).length := by
  rcases tracks.counted side dumped with counted | ⟨later, counted⟩
  · exact counted
  · rwa [kept later] at counted

end Sharing

end Hiactor.Lib
