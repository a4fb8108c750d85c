import Mathlib.Data.List.Nodup
import Mathlib.Data.List.Basic
import Mathlib.Tactic.Common

/-!
# The promise table `pr_manager`

Model of `include/hiactor/core/promise_manager.hh`. A slot holds a `seastar::promise`, a
link `next_avl` to the next free slot and an `active` flag; `available` heads the list of
released slots, and `0` ends it. Slot `0` is a resolved, inactive sentinel.

Ids are natural numbers: `acquire_pr` converts the size of the table to a `uint32_t`, which keeps it
as long as there are fewer than `2 ^ 32` slots.

seastar is not part of the repository. Of its promises the model keeps who waits on the
future taken from the promise, and whether the promise has been resolved.
-/

namespace Hiactor

/-- `seastar::promise`: the request that took its future, and whether it is resolved. -/
structure Promise where
  waiter : Option Nat := none
  resolved : Bool := false
  deriving DecidableEq, Repr

/-- The waiter that finds a broken promise when this promise is destroyed. -/
def Promise.abandoned (p : Promise) : Option Nat :=
  if p.resolved then none else p.waiter

/-- `pr_manager::node`. -/
structure PrNode where
  pr : Promise := {}
  nextAvl : Nat := 0
  active : Bool := true
  deriving DecidableEq, Repr

/-- `node::occupy`: a new promise in place of the old one. -/
def PrNode.occupy (node : PrNode) : PrNode := { node with pr := {}, active := true }

/-- `node::release`. -/
def PrNode.release (node : PrNode) : PrNode := { node with active := false }

/-- `pr_manager`. -/
structure PrManager where
  prArray : List PrNode
  available : Nat
  deriving DecidableEq, Repr

namespace PrManager

/-- The constructor: one resolved and released slot. -/
def new : PrManager :=
  { prArray := [PrNode.release { pr := { resolved := true } }], available := 0 }

def size (m : PrManager) : Nat := m.prArray.length

/-- `pr_array[id]`, absent beyond the end of the vector. -/
def node? (m : PrManager) (id : Nat) : Option PrNode := m.prArray[id]?

/-- A write to `pr_array[id]`. -/
def modifyNode (m : PrManager) (id : Nat) (f : PrNode → PrNode) : PrManager :=
  { m with prArray := m.prArray.modify id f }

def isActive (m : PrManager) (id : Nat) : Bool := (m.node? id).any (·.active)

/-- The link out of slot `id`. -/
def nextAvl (m : PrManager) (id : Nat) : Nat := (m.node? id).elim 0 (·.nextAvl)

/-- The promise in slot `id`. -/
def promise (m : PrManager) (id : Nat) : Promise := (m.node? id).elim {} (·.pr)

/-- `acquire_pr`, with the id it returns. -/
def acquirePr (m : PrManager) : PrManager × Nat :=
  if m.available = 0 then
    ({ m with prArray := m.prArray ++ [{}] }, m.prArray.length)
  else
    let id := m.available
    ({ m with available := m.nextAvl id }.modifyNode id PrNode.occupy, id)

/-- `remove_pr`. -/
def removePr (m : PrManager) (id : Nat) : PrManager :=
  { m.modifyNode id (fun node => { node.release with nextAvl := m.available }) with
    available := id }

/-- `get_future`: the caller `w` waits on the promise of slot `id`. -/
def getFuture (m : PrManager) (id w : Nat) : PrManager :=
  m.modifyNode id (fun node => { node with pr := { node.pr with waiter := some w } })

/-- `set_value` and `set_exception`: the promise of slot `id` is resolved. -/
def resolve (m : PrManager) (id : Nat) : PrManager :=
  m.modifyNode id (fun node => { node with pr := { node.pr with resolved := true } })

section Access

variable (m : PrManager) (id j : Nat) (f : PrNode → PrNode)

@[simp] theorem node?_modifyNode :
    (m.modifyNode id f).node? j = if id = j then (m.node? j).map f else m.node? j := by
  simp only [node?, modifyNode, List.getElem?_modify]
  split <;> simp

@[simp] theorem size_modifyNode : (m.modifyNode id f).size = m.size := by
  simp [size, modifyNode]

@[simp] theorem node?_setAvailable (a : Nat) :
    ({ m with available := a } : PrManager).node? j = m.node? j := rfl

@[simp] theorem size_setAvailable (a : Nat) :
    ({ m with available := a } : PrManager).size = m.size := rfl

theorem node?_grow : ({ m with prArray := m.prArray ++ [{}] } : PrManager).node? j =
    if m.size = j then some {} else m.node? j := by
  unfold node? size
  rcases Nat.lt_trichotomy j m.prArray.length with below | equal | above
  · rw [List.getElem?_append_left below, if_neg (by omega)]
  · subst equal; simp
  · rw [if_neg (by omega), List.getElem?_eq_none (by simp; omega),
      List.getElem?_eq_none (by omega)]

theorem node?_eq_none : m.node? id = none ↔ m.size ≤ id := by simp [node?, size]

theorem isActive_lt {m : PrManager} {id : Nat} (active : m.isActive id = true) :
    id < m.size := by
  by_contra outside
  have absent : m.node? id = none := (m.node?_eq_none id).mpr (by omega)
  simp [isActive, absent] at active

theorem exists_node {m : PrManager} {id : Nat} (inside : id < m.size) :
    ∃ node, m.node? id = some node := by
  cases found : m.node? id with
  | none => exact absurd ((m.node?_eq_none id).mp found) (by omega)
  | some node => exact ⟨node, rfl⟩

@[simp] theorem isActive_resolve : (m.resolve id).isActive j = m.isActive j := by
  simp only [resolve, isActive, node?_modifyNode]
  split <;> cases m.node? j <;> simp

@[simp] theorem nextAvl_resolve : (m.resolve id).nextAvl j = m.nextAvl j := by
  simp only [resolve, nextAvl, node?_modifyNode]
  split <;> cases m.node? j <;> simp

@[simp] theorem size_resolve : (m.resolve id).size = m.size := by simp [resolve]

@[simp] theorem promise_resolve_ne {m : PrManager} {id j : Nat} (h : id ≠ j) :
    (m.resolve id).promise j = m.promise j := by
  simp [resolve, promise, h]

theorem promise_resolve_self {m : PrManager} {id : Nat} (inside : id < m.size) :
    (m.resolve id).promise id = { m.promise id with resolved := true } := by
  obtain ⟨node, found⟩ := exists_node inside
  simp [resolve, promise, found]

@[simp] theorem isActive_getFuture (w : Nat) : (m.getFuture id w).isActive j = m.isActive j := by
  simp only [getFuture, isActive, node?_modifyNode]
  split <;> cases m.node? j <;> simp

@[simp] theorem nextAvl_getFuture (w : Nat) : (m.getFuture id w).nextAvl j = m.nextAvl j := by
  simp only [getFuture, nextAvl, node?_modifyNode]
  split <;> cases m.node? j <;> simp

@[simp] theorem size_getFuture (w : Nat) : (m.getFuture id w).size = m.size := by
  simp [getFuture]

theorem promise_getFuture_ne {m : PrManager} {id j : Nat} (w : Nat) (h : id ≠ j) :
    (m.getFuture id w).promise j = m.promise j := by
  simp [getFuture, promise, h]

theorem promise_getFuture_self {m : PrManager} {id : Nat} (w : Nat) (inside : id < m.size) :
    (m.getFuture id w).promise id = { m.promise id with waiter := some w } := by
  obtain ⟨node, found⟩ := exists_node inside
  simp [getFuture, promise, found]

theorem node?_removePr : (m.removePr id).node? j =
    if id = j then (m.node? j).map (fun node => { node.release with nextAvl := m.available })
    else m.node? j :=
  node?_modifyNode m id j _

@[simp] theorem size_removePr : (m.removePr id).size = m.size := by
  simp [removePr, modifyNode, size]

theorem isActive_removePr :
    (m.removePr id).isActive j = if id = j then false else m.isActive j := by
  simp only [isActive, node?_removePr]
  split <;> cases m.node? j <;> simp [PrNode.release]

theorem nextAvl_removePr_ne {m : PrManager} {id j : Nat} (h : id ≠ j) :
    (m.removePr id).nextAvl j = m.nextAvl j := by
  simp [nextAvl, node?_removePr, h]

theorem nextAvl_removePr_self {m : PrManager} {id : Nat} (inside : id < m.size) :
    (m.removePr id).nextAvl id = m.available := by
  obtain ⟨node, found⟩ := exists_node inside
  simp [nextAvl, node?_removePr, found]

theorem promise_removePr : (m.removePr id).promise j = m.promise j := by
  simp only [promise, node?_removePr]
  split <;> cases m.node? j <;> simp [PrNode.release]

theorem acquirePr_of_empty {m : PrManager} (empty : m.available = 0) :
    m.acquirePr = ({ m with prArray := m.prArray ++ [{}] }, m.size) := by
  simp [acquirePr, empty, size]

theorem acquirePr_of_nonempty {m : PrManager} (nonempty : m.available ≠ 0) :
    m.acquirePr =
      ({ m with available := m.nextAvl m.available }.modifyNode m.available PrNode.occupy,
        m.available) := by
  simp [acquirePr, nonempty]

end Access

/-! ## The free list -/

/-- The links starting at `a` run through exactly the slots `free` and end at `0`. -/
def FreeFrom (m : PrManager) : Nat → List Nat → Prop
  | a, [] => a = 0
  | a, id :: free => a = id ∧ id ≠ 0 ∧ FreeFrom m (m.nextAvl id) free

/-- `free` is the free list: the chain from `available`, without repetition, made of
exactly the slots other than `0` that are not active; slot `0` is never active. -/
structure FreeList (m : PrManager) (free : List Nat) : Prop where
  nonempty : 0 < m.size
  chain : m.FreeFrom m.available free
  nodup : free.Nodup
  inactive : ∀ id, id ∈ free ↔ 0 < id ∧ id < m.size ∧ m.isActive id = false
  sentinel : m.isActive 0 = false

theorem freeFrom_congr {m m' : PrManager} {free : List Nat} {a : Nat}
    (same : ∀ id ∈ free, m'.nextAvl id = m.nextAvl id) (chain : m.FreeFrom a free) :
    m'.FreeFrom a free := by
  induction free generalizing a with
  | nil => exact chain
  | cons id free ih =>
    obtain ⟨rfl, nonzero, rest⟩ := chain
    refine ⟨rfl, nonzero, ?_⟩
    rw [same a (by simp)]
    exact ih (fun j member => same j (by simp [member])) rest

theorem freeList_new : FreeList new [] where
  nonempty := by decide
  chain := rfl
  nodup := List.nodup_nil
  inactive := by
    intro id
    simp only [List.not_mem_nil, false_iff, not_and, Bool.not_eq_false]
    intro positive below
    simp [new, size] at below
    omega
  sentinel := by decide

/-- Operations that keep the flags, the links and the head keep the free list. -/
theorem FreeList.congr {m m' : PrManager} {free : List Nat} (valid : m.FreeList free)
    (size_eq : m'.size = m.size) (available_eq : m'.available = m.available)
    (active_eq : ∀ id, m'.isActive id = m.isActive id)
    (next_eq : ∀ id, m'.nextAvl id = m.nextAvl id) : m'.FreeList free where
  nonempty := size_eq ▸ valid.nonempty
  chain := available_eq ▸ freeFrom_congr (fun id _ => next_eq id) valid.chain
  nodup := valid.nodup
  inactive := fun id => by rw [valid.inactive id, size_eq, active_eq id]
  sentinel := by rw [active_eq 0]; exact valid.sentinel

theorem FreeList.resolve {m : PrManager} {free : List Nat} (valid : m.FreeList free)
    (id : Nat) : (m.resolve id).FreeList free :=
  valid.congr (by simp) rfl (by simp) (by simp)

theorem FreeList.getFuture {m : PrManager} {free : List Nat} (valid : m.FreeList free)
    (id w : Nat) : (m.getFuture id w).FreeList free :=
  valid.congr (by simp) rfl (by simp) (by simp)

/-- Releasing an active slot puts it in front of the free list. -/
theorem FreeList.removePr {m : PrManager} {free : List Nat} (valid : m.FreeList free)
    {id : Nat} (active : m.isActive id = true) : (m.removePr id).FreeList (id :: free) := by
  have inside := isActive_lt active
  have nonzero : id ≠ 0 := by
    rintro rfl
    rw [valid.sentinel] at active
    cases active
  have fresh : id ∉ free := fun member => by
    rw [((valid.inactive id).mp member).2.2] at active
    cases active
  refine ⟨by simpa using valid.nonempty, ⟨rfl, nonzero, ?_⟩, ?_, ?_, ?_⟩
  · rw [nextAvl_removePr_self inside]
    refine freeFrom_congr (fun j member => nextAvl_removePr_ne ?_) valid.chain
    rintro rfl
    exact fresh member
  · exact List.nodup_cons.mpr ⟨fresh, valid.nodup⟩
  · intro j
    rw [List.mem_cons, valid.inactive j, isActive_removePr, size_removePr]
    by_cases same : id = j
    · subst same
      simp [inside, Nat.pos_of_ne_zero nonzero]
    · simp [same, Ne.symm same]
  · rw [isActive_removePr, if_neg nonzero]
    exact valid.sentinel

/-- What `acquire_pr` does to a well-formed table: it hands out an inactive slot other than
`0`, from the free list when there is one and a new one at the end otherwise. -/
structure Acquired (m m' : PrManager) (id : Nat) (free free' : List Nat) : Prop where
  valid : m'.FreeList free'
  nonzero : id ≠ 0
  inactive : m.isActive id = false
  inside : id < m'.size
  fresh : m'.promise id = {}
  active_eq : ∀ j, m'.isActive j = if id = j then true else m.isActive j
  promise_eq : ∀ j, id ≠ j → m'.promise j = m.promise j
  source : free = [] ∧ id = m.size ∧ free' = [] ∨ free = id :: free' ∧ m'.size = m.size

theorem acquired_of_empty {m : PrManager} (valid : m.FreeList []) :
    Acquired m { m with prArray := m.prArray ++ [{}] } m.size [] [] := by
  have grown := m.node?_grow
  have active_eq : ∀ j, ({ m with prArray := m.prArray ++ [{}] } : PrManager).isActive j =
      if m.size = j then true else m.isActive j := by
    intro j
    simp only [isActive, grown]
    split <;> simp
  have size_eq : ({ m with prArray := m.prArray ++ [{}] } : PrManager).size = m.size + 1 := by
    simp [size]
  refine ⟨⟨by omega, valid.chain, List.nodup_nil, ?_, ?_⟩, Nat.ne_of_gt valid.nonempty, ?_,
    by omega, ?_, active_eq, ?_, .inl ⟨rfl, rfl, rfl⟩⟩
  · intro j
    rw [active_eq, size_eq]
    have none_free := valid.inactive j
    simp only [List.not_mem_nil, false_iff, not_and, Bool.not_eq_false] at none_free ⊢
    intro positive below
    by_cases last : m.size = j
    · simp [last]
    · rw [if_neg last]
      exact none_free positive (by omega)
  · rw [active_eq, if_neg (Nat.ne_of_gt valid.nonempty)]
    exact valid.sentinel
  · simp [isActive, (m.node?_eq_none m.size).mpr (Nat.le_refl _)]
  · simp [promise, grown]
  · intro j different
    simp [promise, grown, different]

theorem acquired_of_cons {m : PrManager} {id : Nat} {free : List Nat}
    (valid : m.FreeList (id :: free)) :
    Acquired m ({ m with available := m.nextAvl id }.modifyNode id PrNode.occupy) id
      (id :: free) free := by
  obtain ⟨-, nonzero, rest⟩ := valid.chain
  obtain ⟨-, inside, inactive⟩ := (valid.inactive id).mp (by simp)
  obtain ⟨unlisted, nodup⟩ := List.nodup_cons.mp valid.nodup
  obtain ⟨node, found⟩ := exists_node inside
  have active_eq : ∀ j, ({ m with available := m.nextAvl id }.modifyNode id
      PrNode.occupy).isActive j = if id = j then true else m.isActive j := by
    intro j
    simp only [isActive, node?_modifyNode, node?_setAvailable]
    by_cases same : id = j
    · subst same; simp [found, PrNode.occupy]
    · simp [same]
  have size_eq : ({ m with available := m.nextAvl id }.modifyNode id PrNode.occupy).size =
      m.size := by
    rw [size_modifyNode, size_setAvailable]
  refine ⟨⟨size_eq ▸ valid.nonempty, ?_, nodup, ?_, ?_⟩, nonzero, inactive, size_eq ▸ inside,
    ?_, active_eq, ?_, .inr ⟨rfl, size_eq⟩⟩
  · refine freeFrom_congr (fun j member => ?_) rest
    have different : id ≠ j := fun same => unlisted (same ▸ member)
    simp [nextAvl, different]
  · intro j
    rw [active_eq, size_eq]
    have listed := valid.inactive j
    by_cases same : id = j
    · subst same; simp [unlisted]
    · rw [List.mem_cons, or_iff_right (Ne.symm same)] at listed
      rw [listed, if_neg same]
  · rw [active_eq, if_neg nonzero]
    exact valid.sentinel
  · simp [promise, found, PrNode.occupy]
  · intro j different
    simp [promise, different]

theorem FreeList.acquirePr {m : PrManager} {free : List Nat} (valid : m.FreeList free) :
    ∃ m' id free', m.acquirePr = (m', id) ∧ Acquired m m' id free free' := by
  cases free with
  | nil => exact ⟨_, _, [], acquirePr_of_empty valid.chain, acquired_of_empty valid⟩
  | cons id free =>
    obtain ⟨head, nonzero, -⟩ := valid.chain
    refine ⟨_, id, free, ?_, acquired_of_cons valid⟩
    rw [acquirePr_of_nonempty (head ▸ nonzero), head]

end PrManager

end Hiactor
