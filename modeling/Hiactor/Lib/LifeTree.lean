import Mathlib.Logic.Function.Basic
import Mathlib.Logic.Relation
import Mathlib.Data.List.Basic
import Mathlib.Data.List.Nodup
import Mathlib.Data.List.Perm.Subperm

/-!
# Trees of nodes that are created on demand and stopped once

A node keeps an entry for every child that it ever had: `some true` while the child can be
reached, `some false` once it is disabled. Paths are written from the node up to the root, so
the children of `p` are the paths `k :: p` and the root is `[]`. A node is removed when it has
stopped and has no live children; its entry stays in its parent.

A stop may take several transitions. The nodes that are being stopped are listed in `ending`:
they have stopped, and their entries may not be disabled yet.
-/

namespace Hiactor.Lib

variable {κ : Type}

@[ext] structure TreeNode (κ : Type) where
  stopped : Bool
  inner : Bool
  entry : κ → Option Bool
  live : Int

namespace TreeNode

/-- A node without children. -/
def fresh (inner : Bool) : TreeNode κ := ⟨false, inner, fun _ => none, 0⟩

def setStopped (n : TreeNode κ) : TreeNode κ := { n with stopped := true }

def setLive (n : TreeNode κ) (live : Int) : TreeNode κ := { n with live := live }

/-- The node has lost a child. -/
def drop (n : TreeNode κ) : TreeNode κ := n.setLive (n.live - 1)

def setEntry [DecidableEq κ] (n : TreeNode κ) (k : κ) (reached : Bool) : TreeNode κ :=
  { n with entry := Function.update n.entry k (some reached) }

@[simp, grind =] theorem stopped_fresh (inner : Bool) :
    (fresh inner : TreeNode κ).stopped = false := rfl
@[simp, grind =] theorem inner_fresh (inner : Bool) : (fresh inner : TreeNode κ).inner = inner :=
  rfl
@[simp, grind =] theorem entry_fresh (inner : Bool) (k : κ) : (fresh inner).entry k = none := rfl
@[simp, grind =] theorem live_fresh (inner : Bool) : (fresh inner : TreeNode κ).live = 0 := rfl

variable (n : TreeNode κ)

@[simp, grind =] theorem stopped_setStopped : n.setStopped.stopped = true := rfl
@[simp, grind =] theorem inner_setStopped : n.setStopped.inner = n.inner := rfl
@[simp, grind =] theorem entry_setStopped (k : κ) : n.setStopped.entry k = n.entry k := rfl
@[simp, grind =] theorem live_setStopped : n.setStopped.live = n.live := rfl

@[simp, grind =] theorem stopped_setLive (live : Int) : (n.setLive live).stopped = n.stopped := rfl
@[simp, grind =] theorem inner_setLive (live : Int) : (n.setLive live).inner = n.inner := rfl
@[simp, grind =] theorem entry_setLive (live : Int) (k : κ) :
    (n.setLive live).entry k = n.entry k := rfl
@[simp, grind =] theorem live_setLive (live : Int) : (n.setLive live).live = live := rfl

@[simp, grind =] theorem stopped_drop : n.drop.stopped = n.stopped := rfl
@[simp, grind =] theorem inner_drop : n.drop.inner = n.inner := rfl
@[simp, grind =] theorem entry_drop (k : κ) : n.drop.entry k = n.entry k := rfl
@[simp, grind =] theorem live_drop : n.drop.live = n.live - 1 := rfl

variable [DecidableEq κ] (k : κ) (reached : Bool)

@[simp, grind =] theorem stopped_setEntry : (n.setEntry k reached).stopped = n.stopped := rfl
@[simp, grind =] theorem inner_setEntry : (n.setEntry k reached).inner = n.inner := rfl
@[simp, grind =] theorem live_setEntry : (n.setEntry k reached).live = n.live := rfl
@[simp, grind =] theorem entry_setEntry (j : κ) :
    (n.setEntry k reached).entry j = if j = k then some reached else n.entry j := by
  simp [setEntry, Function.update_apply]

end TreeNode

structure LifeTree (κ : Type) where
  isInner : κ → Bool
  node : List κ → Option (TreeNode κ)
  created : List (List κ)
  disabled : List (List κ)
  removed : List (List κ)
  ending : List (List κ)

namespace LifeTree

/-- What holds in every tree that the transitions below reach. -/
structure Valid (t : LifeTree κ) : Prop where
  root : ∃ n, t.node [] = some n ∧ n.inner = true
  parent : ∀ {p k c}, t.node (k :: p) = some c → ∃ n, t.node p = some n ∧ n.inner = true
  kind : ∀ {p k c}, t.node (k :: p) = some c → c.inner = t.isInner k
  known : ∀ {p k c n}, t.node (k :: p) = some c → t.node p = some n → n.entry k ≠ none
  reached : ∀ {p k n}, t.node p = some n → n.entry k = some true → ∃ c, t.node (k :: p) = some c
  disabled_stopped : ∀ {p k n c}, t.node p = some n → n.entry k = some false →
    t.node (k :: p) = some c → c.stopped = true
  stopped_disabled : ∀ {p k n c}, t.node p = some n → t.node (k :: p) = some c →
    c.stopped = true → n.entry k = some true → k :: p ∈ t.ending
  ending_stopped : ∀ {p}, p ∈ t.ending → ∃ c, t.node p = some c ∧ c.stopped = true
  disabled_iff : ∀ {p k n}, t.node p = some n → (k :: p ∈ t.disabled ↔ n.entry k = some false)
  disabled_created : ∀ {p}, p ∈ t.disabled → p ∈ t.created
  created_ne : [] ∉ t.created
  created_known : ∀ {p k n}, k :: p ∈ t.created → t.node p = some n → n.entry k ≠ none
  created_parent : ∀ {p k}, k :: p ∈ t.created → p = [] ∨ p ∈ t.created
  live_created : ∀ {p c}, t.node p = some c → p = [] ∨ p ∈ t.created
  created_nodup : t.created.Nodup
  removed_gone : ∀ {p}, p ∈ t.removed → p ∈ t.created ∧ t.node p = none
  count : ∀ {p n}, t.node p = some n →
    ∃ keys : List κ, keys.Nodup ∧ (∀ k, k ∈ keys ↔ (t.node (k :: p)).isSome = true) ∧
      (keys.length : Int) = n.live

/-- The tree that has only its root. -/
def rootOnly (isInner : κ → Bool) : LifeTree κ where
  isInner := isInner
  node := fun p => if p = [] then some (.fresh true) else none
  created := []
  disabled := []
  removed := []
  ending := []

theorem valid_rootOnly (isInner : κ → Bool) : (rootOnly isInner).Valid := by
  constructor
  all_goals simp [rootOnly]

/-! ## What a valid tree says about paths -/

/-- The nodes above a live node are live. -/
theorem Valid.live_above {t : LifeTree κ} (valid : t.Valid) {p q : List κ}
    (live : (t.node q).isSome = true) (above : p <:+ q) : (t.node p).isSome = true := by
  induction q with
  | nil =>
    rw [List.suffix_nil.mp above]
    exact live
  | cons k q ih =>
    rcases List.suffix_cons_iff.mp above with rfl | shorter
    · exact live
    · obtain ⟨c, found⟩ := Option.isSome_iff_exists.mp live
      obtain ⟨n, parent, -⟩ := valid.parent found
      exact ih (by rw [parent]; rfl) shorter

/-- What was created lies below what was created before. -/
theorem Valid.created_above {t : LifeTree κ} (valid : t.Valid) {p q : List κ}
    (created : q ∈ t.created) (above : p <:+ q) : p = [] ∨ p ∈ t.created := by
  induction q with
  | nil => exact absurd created valid.created_ne
  | cons k q ih =>
    rcases List.suffix_cons_iff.mp above with rfl | shorter
    · exact .inr created
    · rcases valid.created_parent created with rfl | earlier
      · exact .inl (List.suffix_nil.mp shorter)
      · exact ih earlier shorter

/-- Nothing lives at or below a removed path. -/
theorem Valid.below_removed {t : LifeTree κ} (valid : t.Valid) {p q : List κ}
    (removed : p ∈ t.removed) (below : p <:+ q) : t.node q = none := by
  by_contra some
  have above := valid.live_above (Option.isSome_iff_ne_none.mpr some) below
  rw [(valid.removed_gone removed).2] at above
  cases above

/-! ## Transitions -/

variable [DecidableEq κ]

/-- The transitions that keep every node. -/
inductive Grow : LifeTree κ → LifeTree κ → Prop
  | create {t : LifeTree κ} {p : List κ} {k : κ} {n : TreeNode κ}
      (parent : t.node p = some n) (group : n.inner = true) (unknown : n.entry k = none)
      (running : p = [] → n.stopped = false) :
      Grow t { t with
        node := Function.update
          (Function.update t.node p (some ((n.setEntry k true).setLive (n.live + 1))))
          (k :: p) (some (.fresh (t.isInner k)))
        created := t.created ++ [k :: p] }
  | stop {t : LifeTree κ} {p : List κ} {k : κ} {n c : TreeNode κ}
      (parent : t.node p = some n) (reached : n.entry k = some true)
      (child : t.node (k :: p) = some c) :
      Grow t { t with
        node := Function.update (Function.update t.node (k :: p) (some c.setStopped))
          p (some (n.setEntry k false))
        disabled := t.disabled ++ [k :: p] }
  | beginStop {t : LifeTree κ} {p : List κ} {k : κ} {c : TreeNode κ}
      (child : t.node (k :: p) = some c) :
      Grow t { t with
        node := Function.update t.node (k :: p) (some c.setStopped)
        ending := (k :: p) :: t.ending }
  | endStop {t : LifeTree κ} {p : List κ} {k : κ} {n : TreeNode κ} {rest : List (List κ)}
      (parent : t.node p = some n) (last : t.ending = (k :: p) :: rest) :
      Grow t { t with
        node := Function.update t.node p (some (n.setEntry k false))
        disabled := t.disabled ++ [k :: p]
        ending := rest }
  | stopRoot {t : LifeTree κ} {n : TreeNode κ} (root : t.node [] = some n) :
      Grow t { t with node := Function.update t.node [] (some n.setStopped) }

/-- The transition that removes a node. -/
inductive Remove (k : κ) (p : List κ) : LifeTree κ → LifeTree κ → Prop
  | remove {t : LifeTree κ} {n c : TreeNode κ}
      (parent : t.node p = some n) (child : t.node (k :: p) = some c)
      (stopped : c.stopped = true) (empty : c.inner = true → c.live = 0)
      (ended : t.ending = []) :
      Remove k p t { t with
        node := Function.update (Function.update t.node p (some n.drop))
          (k :: p) none
        removed := t.removed ++ [k :: p] }

/-- The two nodes are of one kind, with as many children and with entries for the same ones. -/
structure Alike (n n' : TreeNode κ) : Prop where
  inner : n'.inner = n.inner
  live : n'.live = n.live
  known : ∀ k, n'.entry k = none ↔ n.entry k = none

/-- The trees have the same nodes, up to what is stopped and disabled. -/
def SameShape (node node' : List κ → Option (TreeNode κ)) : Prop :=
  ∀ p, Option.Rel Alike (node p) (node' p)

namespace SameShape

variable {node node' : List κ → Option (TreeNode κ)} {p : List κ} {n : TreeNode κ}

omit [DecidableEq κ] in
theorem old (same : SameShape node node') (found : node' p = some n) :
    ∃ m, node p = some m ∧ Alike m n := by
  have here := same p
  rw [found] at here
  generalize node p = a at here ⊢
  cases here with
  | some alike => exact ⟨_, rfl, alike⟩

omit [DecidableEq κ] in
theorem new (same : SameShape node node') (found : node p = some n) :
    ∃ m, node' p = some m ∧ Alike n m := by
  have here := same p
  rw [found] at here
  generalize node' p = a at here ⊢
  cases here with
  | some alike => exact ⟨_, rfl, alike⟩

/-- A node is replaced by one like it. -/
theorem update {m : TreeNode κ} (found : node p = some n) (alike : Alike n m) :
    SameShape node (Function.update node p (some m)) := by
  intro q
  by_cases here : q = p
  · subst here
    rw [found, Function.update_self]
    exact .some alike
  · rw [Function.update_of_ne here]
    cases node q with
    | none => exact .none
    | some m => exact .some ⟨rfl, rfl, fun _ => Iff.rfl⟩

end SameShape

omit [DecidableEq κ] in
theorem alike_setStopped (n : TreeNode κ) : Alike n n.setStopped := ⟨rfl, rfl, fun _ => Iff.rfl⟩

theorem alike_setEntry {n : TreeNode κ} {k : κ} (known : n.entry k ≠ none) (reached : Bool) :
    Alike n (n.setEntry k reached) := by
  refine ⟨rfl, rfl, fun j => ?_⟩
  rw [TreeNode.entry_setEntry]
  split
  · next same => simp [same, known]
  · exact Iff.rfl

/-- What the stops of nodes have to keep. -/
structure Marked (t : LifeTree κ) : Prop where
  reached : ∀ {p k n}, t.node p = some n → n.entry k = some true → ∃ c, t.node (k :: p) = some c
  disabled_stopped : ∀ {p k n c}, t.node p = some n → n.entry k = some false →
    t.node (k :: p) = some c → c.stopped = true
  stopped_disabled : ∀ {p k n c}, t.node p = some n → t.node (k :: p) = some c →
    c.stopped = true → n.entry k = some true → k :: p ∈ t.ending
  ending_stopped : ∀ {p}, p ∈ t.ending → ∃ c, t.node p = some c ∧ c.stopped = true
  disabled_iff : ∀ {p k n}, t.node p = some n → (k :: p ∈ t.disabled ↔ n.entry k = some false)
  disabled_created : ∀ {p}, p ∈ t.disabled → p ∈ t.created

omit [DecidableEq κ] in
/-- A tree of the same shape is valid when it is marked as it should be. -/
theorem Valid.of_sameShape {t t' : LifeTree κ} (valid : t.Valid) (same : SameShape t.node t'.node)
    (isInner : t'.isInner = t.isInner) (created : t'.created = t.created)
    (removed : t'.removed = t.removed) (marked : t'.Marked) : t'.Valid where
  root := by
    obtain ⟨n, root, inner⟩ := valid.root
    obtain ⟨m, found, alike⟩ := same.new root
    exact ⟨m, found, alike.inner.trans inner⟩
  parent := by
    intro p k c child
    obtain ⟨c', old, -⟩ := same.old child
    obtain ⟨n, parent, inner⟩ := valid.parent old
    obtain ⟨m, found, alike⟩ := same.new parent
    exact ⟨m, found, alike.inner.trans inner⟩
  kind := by
    intro p k c child
    obtain ⟨c', old, alike⟩ := same.old child
    rw [alike.inner, valid.kind old, isInner]
  known := by
    intro p k c n child parent
    obtain ⟨c', old, -⟩ := same.old child
    obtain ⟨n', above, alike⟩ := same.old parent
    exact fun none => valid.known old above ((alike.known k).mp none)
  reached := marked.reached
  disabled_stopped := marked.disabled_stopped
  stopped_disabled := marked.stopped_disabled
  ending_stopped := marked.ending_stopped
  disabled_iff := marked.disabled_iff
  disabled_created := marked.disabled_created
  created_ne := by
    rw [created]
    exact valid.created_ne
  created_known := by
    intro p k n member parent
    rw [created] at member
    obtain ⟨n', above, alike⟩ := same.old parent
    exact fun none => valid.created_known member above ((alike.known k).mp none)
  created_parent := by
    intro p k member
    rw [created] at member ⊢
    exact valid.created_parent member
  live_created := by
    intro p c found
    obtain ⟨c', old, -⟩ := same.old found
    rw [created]
    exact valid.live_created old
  created_nodup := by
    rw [created]
    exact valid.created_nodup
  removed_gone := by
    intro p member
    rw [removed] at member
    obtain ⟨before, gone⟩ := valid.removed_gone member
    refine ⟨created ▸ before, Option.eq_none_iff_forall_ne_some.mpr fun n found => ?_⟩
    obtain ⟨n', old, -⟩ := same.old found
    rw [gone] at old
    cases old
  count := by
    intro p n found
    obtain ⟨n', old, alike⟩ := same.old found
    obtain ⟨keys, nodup, members, length⟩ := valid.count old
    refine ⟨keys, nodup, fun k => ?_, length.trans alike.live.symm⟩
    rw [members k, Option.isSome_iff_exists, Option.isSome_iff_exists]
    constructor
    · rintro ⟨c, child⟩
      obtain ⟨c', new, -⟩ := same.new child
      exact ⟨c', new⟩
    · rintro ⟨c, child⟩
      obtain ⟨c', older, -⟩ := same.old child
      exact ⟨c', older⟩

/-- A node is told to stop, and is among the nodes whose stop has to end unless it is the root. -/
theorem Valid.setStopped {t : LifeTree κ} {p : List κ} {n : TreeNode κ} {ending : List (List κ)}
    (valid : t.Valid) (found : t.node p = some n)
    (ends : ∀ q, q ∈ ending ↔ q ∈ t.ending ∨ q = p ∧ p ≠ []) :
    Valid { t with node := Function.update t.node p (some n.setStopped), ending := ending } := by
  refine valid.of_sameShape (.update found (alike_setStopped n)) rfl rfl rfl
    ⟨?_, ?_, ?_, ?_, ?_, valid.disabled_created⟩
  · intro q j
    have old := @valid.reached q j
    grind [Function.update_apply]
  · intro q j
    have old := @valid.disabled_stopped q j
    grind [Function.update_apply]
  · intro q j
    have old := @valid.stopped_disabled q j
    grind [Function.update_apply]
  · intro q
    have old := @valid.ending_stopped q
    grind [Function.update_apply]
  · intro q j
    have old := @valid.disabled_iff q j
    grind [Function.update_apply]

theorem Valid.stopRoot {t : LifeTree κ} {n : TreeNode κ} (valid : t.Valid)
    (root : t.node [] = some n) :
    Valid { t with node := Function.update t.node [] (some n.setStopped) } :=
  valid.setStopped root fun q => by simp

theorem Valid.beginStop {t : LifeTree κ} {p : List κ} {k : κ} {c : TreeNode κ} (valid : t.Valid)
    (child : t.node (k :: p) = some c) :
    Valid { t with
      node := Function.update t.node (k :: p) (some c.setStopped)
      ending := (k :: p) :: t.ending } :=
  valid.setStopped child fun q => by simp [or_comm]

theorem Valid.endStop {t : LifeTree κ} {p : List κ} {k : κ} {n : TreeNode κ}
    {rest : List (List κ)} (valid : t.Valid) (parent : t.node p = some n)
    (last : t.ending = (k :: p) :: rest) :
    Valid { t with
      node := Function.update t.node p
        (some (n.setEntry k false))
      disabled := t.disabled ++ [k :: p]
      ending := rest } := by
  obtain ⟨c, child, stopped⟩ := valid.ending_stopped (last ▸ List.mem_cons_self)
  have known := valid.known child parent
  have created := (valid.live_created child).resolve_left (List.cons_ne_nil k p)
  refine valid.of_sameShape (.update parent (alike_setEntry known false)) rfl rfl rfl
    ⟨?_, ?_, ?_, ?_, ?_, ?_⟩
  · intro q j
    have old := @valid.reached q j
    grind [Function.update_apply]
  · intro q j
    have old := @valid.disabled_stopped q j
    grind [Function.update_apply]
  · intro q j
    have old := @valid.stopped_disabled q j
    grind [Function.update_apply]
  · intro q
    have old := @valid.ending_stopped q
    grind [Function.update_apply]
  · intro q j
    have old := @valid.disabled_iff q j
    grind [Function.update_apply]
  · intro q member
    rcases List.mem_append.mp member with before | new
    · exact valid.disabled_created before
    · exact List.mem_singleton.mp new ▸ created

/-- A stop that ends at once. -/
theorem Valid.stop {t : LifeTree κ} {p : List κ} {k : κ} {n c : TreeNode κ} (valid : t.Valid)
    (parent : t.node p = some n)
    (child : t.node (k :: p) = some c) :
    Valid { t with
      node := Function.update
        (Function.update t.node (k :: p) (some c.setStopped))
        p (some (n.setEntry k false))
      disabled := t.disabled ++ [k :: p] } := by
  have parent' : Function.update t.node (k :: p) (some c.setStopped) p = some n := by
    rw [Function.update_of_ne (List.cons_ne_self k p).symm, parent]
  exact (valid.beginStop child).endStop parent' rfl

theorem Valid.create {t : LifeTree κ} {p : List κ} {k : κ} {n : TreeNode κ} (valid : t.Valid)
    (parent : t.node p = some n) (group : n.inner = true) (unknown : n.entry k = none) :
    Valid { t with
      node := Function.update
        (Function.update t.node p (some ((n.setEntry k true).setLive (n.live + 1))))
        (k :: p) (some (.fresh (t.isInner k)))
      created := t.created ++ [k :: p] } := by
  have absent : t.node (k :: p) = none := by
    refine Option.eq_none_iff_forall_ne_some.mpr (fun c found => ?_)
    exact valid.known found parent unknown
  have fresh : k :: p ∉ t.created := fun member => valid.created_known member parent unknown
  have childless : ∀ j, t.node (j :: k :: p) = none := by
    intro j
    refine Option.eq_none_iff_forall_ne_some.mpr (fun c found => ?_)
    obtain ⟨m, stored, -⟩ := valid.parent found
    rw [absent] at stored
    cases stored
  have never : ∀ j, j :: k :: p ∉ t.created := by
    intro j
    have := @valid.created_parent (k :: p) j
    grind
  constructor
  case root =>
    have old := valid.root
    grind [Function.update_apply]
  case parent =>
    intro q j
    have old := @valid.parent q j
    grind [Function.update_apply]
  case kind =>
    intro q j
    have old := @valid.kind q j
    grind [Function.update_apply]
  case known =>
    intro q j
    have old := @valid.known q j
    grind [Function.update_apply]
  case reached =>
    intro q j
    have old := @valid.reached q j
    grind [Function.update_apply]
  case disabled_stopped =>
    intro q j
    have old := @valid.disabled_stopped q j
    grind [Function.update_apply]
  case stopped_disabled =>
    intro q j
    have old := @valid.stopped_disabled q j
    grind [Function.update_apply]
  case ending_stopped =>
    intro q
    have old := @valid.ending_stopped q
    grind [Function.update_apply]
  case disabled_iff =>
    intro q j
    have old := @valid.disabled_iff q j
    have once := @valid.disabled_created (j :: q)
    grind [Function.update_apply]
  case disabled_created =>
    intro q
    have old := @valid.disabled_created q
    grind
  case created_ne =>
    have old := valid.created_ne
    grind
  case created_known =>
    intro q j
    have old := @valid.created_known q j
    grind [Function.update_apply]
  case created_parent =>
    intro q j
    have old := @valid.created_parent q j
    have live := valid.live_created parent
    grind
  case live_created =>
    intro q
    have old := @valid.live_created q
    grind [Function.update_apply]
  case created_nodup =>
    have old := valid.created_nodup
    grind [List.nodup_append]
  case removed_gone =>
    intro q
    have old := @valid.removed_gone q
    grind [Function.update_apply]
  case count =>
    intro q m found
    by_cases same : q = p
    · subst same
      obtain ⟨keys, nodup, members, length⟩ := valid.count parent
      refine ⟨k :: keys, ?_, ?_, ?_⟩
      · refine List.nodup_cons.mpr ⟨fun member => ?_, nodup⟩
        have := (members k).mp member
        simp [absent] at this
      · intro j
        have old := members j
        grind [Function.update_apply]
      · grind [Function.update_apply]
    · by_cases child : q = k :: p
      · refine ⟨[], List.nodup_nil, ?_, ?_⟩
        · intro j
          have none := childless j
          grind [Function.update_apply]
        · grind [Function.update_apply]
      · have stored : t.node q = some m := by grind [Function.update_apply]
        obtain ⟨keys, nodup, members, length⟩ := valid.count stored
        refine ⟨keys, nodup, fun j => ?_, length⟩
        have old := members j
        grind [Function.update_apply]

/-- A stopped node can be removed with all that is below it. -/
theorem Valid.removeBelow {t : LifeTree κ} {p : List κ} {k : κ} {n c : TreeNode κ}
    (valid : t.Valid) (parent : t.node p = some n) (child : t.node (k :: p) = some c)
    (stopped : c.stopped = true) (ended : t.ending = []) :
    ({ t with
      node := fun q => if k :: p <:+ q then none else Function.update t.node p (some n.drop) q
      removed := t.removed ++ [k :: p] } : LifeTree κ).Valid := by
  have unreached : n.entry k ≠ some true := by
    intro reached
    have := valid.stopped_disabled parent child stopped reached
    simp [ended] at this
  have created := valid.live_created child
  have above : ¬ k :: p <:+ p := fun inside =>
    absurd inside.length_le (Nat.not_succ_le_self p.length)
  have root : ¬ k :: p <:+ [] := fun inside => absurd inside.length_le (Nat.not_succ_le_zero _)
  have below (j : κ) (q : List κ) : k :: p <:+ j :: q ↔ (k = j ∧ p = q) ∨ k :: p <:+ q := by
    rw [List.suffix_cons_iff, List.cons.injEq]
  constructor
  case root =>
    have old := valid.root
    grind [Function.update_apply]
  case parent =>
    intro q j
    have old := @valid.parent q j
    grind [Function.update_apply]
  case kind =>
    intro q j
    have old := @valid.kind q j
    grind [Function.update_apply]
  case known =>
    intro q j
    have old := @valid.known q j
    grind [Function.update_apply]
  case reached =>
    intro q j
    have old := @valid.reached q j
    grind [Function.update_apply]
  case disabled_stopped =>
    intro q j
    have old := @valid.disabled_stopped q j
    grind [Function.update_apply]
  case stopped_disabled =>
    intro q j
    have old := @valid.stopped_disabled q j
    grind [Function.update_apply]
  case ending_stopped =>
    intro q
    have old := @valid.ending_stopped q
    grind [Function.update_apply]
  case disabled_iff =>
    intro q j
    have old := @valid.disabled_iff q j
    grind [Function.update_apply]
  case disabled_created =>
    exact valid.disabled_created
  case created_ne =>
    exact valid.created_ne
  case created_known =>
    intro q j
    have old := @valid.created_known q j
    grind [Function.update_apply]
  case created_parent =>
    exact valid.created_parent
  case live_created =>
    intro q
    have old := @valid.live_created q
    grind [Function.update_apply]
  case created_nodup =>
    exact valid.created_nodup
  case removed_gone =>
    intro q
    have old := @valid.removed_gone q
    grind [Function.update_apply]
  case count =>
    intro q m found
    by_cases same : q = p
    · subst same
      obtain ⟨keys, nodup, members, length⟩ := valid.count parent
      have member : k ∈ keys := (members k).mpr (by rw [child]; rfl)
      refine ⟨keys.erase k, nodup.erase k, ?_, ?_⟩
      · intro j
        have old := members j
        have erased := nodup.mem_erase_iff (a := j) (b := k)
        grind [Function.update_apply]
      · have shorter := List.length_erase_of_mem member
        grind [Function.update_apply]
    · have stored : t.node q = some m := by grind [Function.update_apply]
      obtain ⟨keys, nodup, members, length⟩ := valid.count stored
      refine ⟨keys, nodup, fun j => ?_, length⟩
      have old := members j
      grind [Function.update_apply]

/-- A node that is removed has no children. -/
theorem Valid.childless {t t' : LifeTree κ} {p : List κ} {k : κ} (valid : t.Valid)
    (removes : Remove k p t t') (j : κ) : t.node (j :: k :: p) = none := by
  cases removes with
  | remove parent child stopped empty ended =>
    refine Option.eq_none_iff_forall_ne_some.mpr (fun d found => ?_)
    obtain ⟨m, stored, inner⟩ := valid.parent found
    obtain rfl := Option.some.inj (child.symm.trans stored)
    obtain ⟨keys, -, members, length⟩ := valid.count child
    have none : keys = [] :=
      List.eq_nil_of_length_eq_zero (Int.natCast_eq_zero.mp (length.trans (empty inner)))
    have member := (members j).mpr (by rw [found]; rfl)
    rw [none] at member
    cases member

theorem Valid.remove {t t' : LifeTree κ} {p : List κ} {k : κ} (valid : t.Valid)
    (removes : Remove k p t t') : t'.Valid := by
  have childless := valid.childless removes
  obtain ⟨parent, child, stopped, empty, ended⟩ := removes
  rename_i n c
  have removed := valid.removeBelow parent child stopped ended
  have alone (q : List κ) (inside : k :: p <:+ q) (other : q ≠ k :: p) : t.node q = none := by
    obtain ⟨above, rfl⟩ := inside
    have some : above ≠ [] := fun none => other (by rw [none, List.nil_append])
    refine Option.eq_none_iff_forall_ne_some.mpr (fun d found => ?_)
    have under : above.getLast some :: k :: p <:+ above ++ k :: p :=
      ⟨above.dropLast, by rw [← List.singleton_append, ← List.append_assoc,
        List.dropLast_append_getLast]⟩
    have live := valid.live_above (by rw [found]; rfl) under
    rw [childless] at live
    cases live
  have same : Function.update (Function.update t.node p (some n.drop)) (k :: p) none =
      fun q => if k :: p <:+ q then none else Function.update t.node p (some n.drop) q := by
    funext q
    by_cases here : q = k :: p
    · rw [here, Function.update_self, if_pos List.suffix_rfl]
    · rw [Function.update_of_ne here]
      split
      · next inside =>
        have other : q ≠ p := fun same =>
          absurd (same ▸ inside).length_le (Nat.not_succ_le_self p.length)
        rw [Function.update_of_ne other, alone q inside here]
      · rfl
  rw [same]
  exact removed
theorem Valid.grow {t t' : LifeTree κ} (valid : t.Valid) (grows : Grow t t') : t'.Valid := by
  cases grows with
  | create parent group unknown _ => exact valid.create parent group unknown
  | stop parent _ child => exact valid.stop parent child
  | beginStop child => exact valid.beginStop child
  | endStop parent last => exact valid.endStop parent last
  | stopRoot root => exact valid.stopRoot root

/-! ## Sequences of transitions -/

/-- Some transitions that keep every node, and then perhaps the removal of a node. -/
inductive Steps : LifeTree κ → LifeTree κ → Prop
  | grow {t t' : LifeTree κ} (grows : Relation.ReflTransGen Grow t t') : Steps t t'
  | remove {t u t' : LifeTree κ} (k : κ) (p : List κ) (grows : Relation.ReflTransGen Grow t u)
      (removes : Remove k p u t') : Steps t t'

theorem Valid.grows {t t' : LifeTree κ} (valid : t.Valid)
    (grows : Relation.ReflTransGen Grow t t') : t'.Valid := by
  induction grows with
  | refl => exact valid
  | tail _ grow ih => exact ih.grow grow

theorem Valid.steps {t t' : LifeTree κ} (valid : t.Valid) (steps : Steps t t') : t'.Valid := by
  cases steps with
  | grow grows => exact valid.grows grows
  | remove k p grows removes => exact (valid.grows grows).remove removes

/-- What the transitions never undo. -/
structure Extends (t t' : LifeTree κ) : Prop where
  disabled : ∀ p ∈ t.disabled, p ∈ t'.disabled
  removed : ∀ p ∈ t.removed, p ∈ t'.removed
  created : t.created <+: t'.created

omit [DecidableEq κ] in
theorem Extends.trans {t u v : LifeTree κ} (first : t.Extends u) (second : u.Extends v) :
    t.Extends v :=
  ⟨fun p member => second.disabled p (first.disabled p member),
    fun p member => second.removed p (first.removed p member),
    first.created.trans second.created⟩

theorem extends_of_grows {t t' : LifeTree κ} (grows : Relation.ReflTransGen Grow t t') :
    t.Extends t' := by
  induction grows with
  | refl => exact ⟨fun _ member => member, fun _ member => member, List.prefix_rfl⟩
  | tail _ grow ih =>
    refine ih.trans ?_
    cases grow <;> constructor <;> simp +contextual

theorem extends_of_steps {t t' : LifeTree κ} (steps : Steps t t') : t.Extends t' := by
  cases steps with
  | grow grows => exact extends_of_grows grows
  | remove k p grows removes =>
    refine (extends_of_grows grows).trans ?_
    cases removes
    constructor <;> simp +contextual

omit [DecidableEq κ] in
/-- A node has at most as many children as were created. -/
theorem Valid.length_le_created {t : LifeTree κ} (valid : t.Valid) {p keys : List κ}
    (nodup : keys.Nodup) (live : ∀ k ∈ keys, (t.node (k :: p)).isSome = true) :
    keys.length ≤ t.created.length := by
  have distinct : (keys.map (· :: p)).Nodup := nodup.map fun _ _ same => (List.cons.inj same).1
  have created : keys.map (· :: p) ⊆ t.created := by
    intro q member
    obtain ⟨k, here, rfl⟩ := List.mem_map.mp member
    obtain ⟨c, child⟩ := Option.isSome_iff_exists.mp (live k here)
    exact (valid.live_created child).resolve_left (List.cons_ne_nil k p)
  exact List.length_map (· :: p) ▸ (distinct.subperm created).length_le

theorem removed_of_grows {t t' : LifeTree κ} (grows : Relation.ReflTransGen Grow t t') :
    t'.removed = t.removed := by
  induction grows with
  | refl => rfl
  | tail _ grow ih =>
    refine Eq.trans ?_ ih
    cases grow <;> rfl

theorem removed_of_remove {t t' : LifeTree κ} {k : κ} {p : List κ} (removes : Remove k p t t') :
    t'.removed = t.removed ++ [k :: p] := by
  cases removes
  rfl

theorem isSome_of_grow {t t' : LifeTree κ} (grow : Grow t t') {q : List κ}
    (live : (t.node q).isSome = true) : (t'.node q).isSome = true := by
  cases grow with
  | create | stop | beginStop | endStop | stopRoot => grind [Function.update_apply]

/-- Growing keeps the nodes. -/
theorem isSome_of_grows {t t' : LifeTree κ} (grows : Relation.ReflTransGen Grow t t')
    {q : List κ} (live : (t.node q).isSome = true) : (t'.node q).isSome = true := by
  induction grows with
  | refl => exact live
  | tail _ grow ih => exact isSome_of_grow grow ih

/-- A node that is gone after the transitions was removed by them, and had no children
before. -/
theorem Valid.gone_of_steps {t t' : LifeTree κ} (valid : t.Valid) (steps : Steps t t')
    {q : List κ} (live : (t.node q).isSome = true) (gone : t'.node q = none) :
    q ∈ t'.removed ∧ ∀ j, t.node (j :: q) = none := by
  cases steps with
  | grow grows =>
    have kept := isSome_of_grows grows live
    rw [gone] at kept
    cases kept
  | remove k p grows removes =>
    have kept := isSome_of_grows grows live
    have last : q = k :: p ∧ k :: p ∈ t'.removed := by
      cases removes
      grind [Function.update_apply]
    obtain ⟨rfl, removed⟩ := last
    refine ⟨removed, fun j => ?_⟩
    have childless := (valid.grows grows).childless removes j
    by_contra some
    have keptChild := isSome_of_grows grows (Option.isSome_iff_ne_none.mpr some)
    rw [childless] at keptChild
    cases keptChild

/-- Nothing lives strictly below a node that is not there after the transitions. -/
theorem Valid.below_of_steps {t t' : LifeTree κ} (valid : t.Valid) (steps : Steps t t')
    {p q : List κ} (gone : t'.node p = none) (below : p <:+ q) (strict : q ≠ p) :
    t.node q = none := by
  obtain ⟨keys, rfl⟩ := below
  have some : keys ≠ [] := fun nil => strict (by rw [nil]; rfl)
  by_contra alive
  have live := Option.isSome_iff_ne_none.mpr alive
  have child := valid.live_above (p := keys.getLast some :: p) live
    ⟨keys.dropLast, by rw [List.append_cons, List.dropLast_append_getLast]⟩
  have here := valid.live_above live (List.suffix_append keys p)
  rw [(valid.gone_of_steps steps here gone).2] at child
  cases child

/-! ## The root after its stop -/

/-- The root has stopped and has `live` children. -/
def Closed (t : LifeTree κ) (live : Int) : Prop :=
  ∃ n, t.node [] = some n ∧ n.stopped = true ∧ n.live = live

/-- The children of a stopped root are not created any more. -/
theorem Closed.grow {t t' : LifeTree κ} {live : Int} (closed : t.Closed live) (grow : Grow t t') :
    t'.Closed live := by
  obtain ⟨n, root, stopped, count⟩ := closed
  -- the root is the parent, or it is not touched
  have keeps {p : List κ} {node : List κ → Option (TreeNode κ)} {m m' : TreeNode κ}
      (above : p = [] → node [] = some m) (kept : m'.stopped = m.stopped ∧ m'.live = m.live)
      (same : node [] = some n) :
      ∃ n', Function.update node p (some m') [] = some n' ∧ n'.stopped = true ∧ n'.live = live := by
    rw [Function.update_apply]
    split
    · rename_i here
      obtain rfl := Option.some.inj (same.symm.trans (above here.symm))
      exact ⟨m', rfl, kept.1.trans stopped, kept.2.trans count⟩
    · exact ⟨n, same, stopped, count⟩
  cases grow with
  | create parent group unknown running =>
    rename_i p k m
    have child : p ≠ [] := by
      rintro rfl
      obtain rfl := Option.some.inj (root.symm.trans parent)
      rw [running rfl] at stopped
      cases stopped
    refine ⟨n, ?_, stopped, count⟩
    simp [child.symm, root]
  | stop parent reached child =>
    rename_i p k m c
    have same : Function.update t.node (k :: p) (some c.setStopped) [] = t.node [] :=
      Function.update_of_ne (List.cons_ne_nil k p).symm ..
    exact keeps (m := m) (fun here => same.trans (here ▸ parent)) ⟨rfl, rfl⟩ (same.trans root)
  | beginStop child =>
    refine ⟨n, ?_, stopped, count⟩
    simp [root]
  | endStop parent last =>
    rename_i p k m rest
    exact keeps (m := m) (fun here => here ▸ parent) ⟨rfl, rfl⟩ root
  | stopRoot root' =>
    obtain rfl := Option.some.inj (root.symm.trans root')
    refine ⟨n.setStopped, ?_, rfl, count⟩
    simp

theorem Closed.grows {t t' : LifeTree κ} {live : Int} (closed : t.Closed live)
    (grows : Relation.ReflTransGen Grow t t') : t'.Closed live := by
  induction grows with
  | refl => exact closed
  | tail _ grow ih => exact ih.grow grow

/-- A root that has stopped stays so. -/
theorem Closed.of_steps {t t' : LifeTree κ} {live : Int} (closed : t.Closed live)
    (steps : Steps t t') : ∃ live', t'.Closed live' := by
  cases steps with
  | grow grows => exact ⟨live, closed.grows grows⟩
  | remove k p grows removes =>
    obtain ⟨n, root, stopped, -⟩ := closed.grows grows
    cases removes with
    | remove parent child stopped' empty ended =>
      simp only [Closed]
      grind [Function.update_apply]

/-- A child that a stopped root does not have does not come. -/
theorem Closed.absent_of_grow {t t' : LifeTree κ} {live : Int} (closed : t.Closed live)
    (grow : Grow t t') {k : κ} (absent : t.node [k] = none) : t'.node [k] = none := by
  obtain ⟨n, root, stopped, -⟩ := closed
  cases grow with
  | create | stop | beginStop | endStop | stopRoot => grind [Function.update_apply]

theorem Closed.absent_of_steps {t t' : LifeTree κ} {live : Int} (closed : t.Closed live)
    (steps : Steps t t') {k : κ} (absent : t.node [k] = none) : t'.node [k] = none := by
  have grown {u : LifeTree κ} (grows : Relation.ReflTransGen Grow t u) : u.node [k] = none := by
    induction grows with
    | refl => exact absent
    | tail grows grow ih => exact (closed.grows grows).absent_of_grow grow ih
  cases steps with
  | grow grows => exact grown grows
  | remove j p grows removes =>
    have before := grown grows
    clear grown grows
    cases removes
    grind [Function.update_apply]

omit [DecidableEq κ] in
/-- A stopped root without children is alone. -/
theorem Valid.alone {t : LifeTree κ} (valid : t.Valid) (closed : t.Closed 0) {p : List κ}
    (child : p ≠ []) : t.node p = none := by
  obtain ⟨n, root, -, count⟩ := closed
  obtain ⟨keys, -, members, length⟩ := valid.count root
  have empty : keys = [] :=
    List.eq_nil_of_length_eq_zero (Int.natCast_eq_zero.mp (length.trans count))
  by_contra alive
  have first := valid.live_above (p := [p.getLast child]) (Option.isSome_iff_ne_none.mpr alive)
    ⟨p.dropLast, List.dropLast_append_getLast child⟩
  have member := (members (p.getLast child)).mpr first
  rw [empty] at member
  cases member

/-- Nothing is created below a stopped root without children. -/
theorem Valid.created_of_grow {t t' : LifeTree κ} (valid : t.Valid) (closed : t.Closed 0)
    (grow : Grow t t') : t'.created = t.created := by
  cases grow with
  | create parent group unknown running =>
    rename_i p k n
    cases p with
    | nil =>
      obtain ⟨m, root, stopped, -⟩ := closed
      obtain rfl := Option.some.inj (root.symm.trans parent)
      rw [running rfl] at stopped
      cases stopped
    | cons j p =>
      rw [valid.alone closed (List.cons_ne_nil j p)] at parent
      cases parent
  | stop | beginStop | endStop | stopRoot => rfl

theorem Valid.created_of_grows {t t' : LifeTree κ} (valid : t.Valid) (closed : t.Closed 0)
    (grows : Relation.ReflTransGen Grow t t') : t'.created = t.created := by
  induction grows with
  | refl => rfl
  | tail grows grow ih =>
    exact ((valid.grows grows).created_of_grow (closed.grows grows) grow).trans ih

/-- Stops in progress are never those of the root. -/
theorem ending_of_grows {t t' : LifeTree κ} (grows : Relation.ReflTransGen Grow t t')
    (below : [] ∉ t.ending) : [] ∉ t'.ending := by
  induction grows with
  | refl => exact below
  | tail _ grow ih =>
    cases grow with
    | create | stop | stopRoot => exact ih
    | beginStop => simpa using ih
    | endStop parent last =>
      rw [last] at ih
      exact fun member => ih (List.mem_cons_of_mem _ member)

theorem ending_of_steps {t t' : LifeTree κ} (steps : Steps t t') (below : [] ∉ t.ending) :
    [] ∉ t'.ending := by
  cases steps with
  | grow grows => exact ending_of_grows grows below
  | remove k p grows removes =>
    have kept := ending_of_grows grows below
    cases removes
    exact kept

end LifeTree

end Hiactor.Lib
