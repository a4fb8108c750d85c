import Mathlib.Data.List.Count
import Mathlib.Data.List.Perm.Basic
import Mathlib.Data.Set.Insert
import Mathlib.Logic.Function.Basic
import Mathlib.Logic.Relation

/-!
# Trees of ready queues

A node is run by its parent, which keeps the children that are ready in a queue. A node that is
idle becomes ready when it gets work: it is put in the queue of its parent, which gets work that
way and may become ready in turn. A node that runs is ready and in no queue, and is idle again
when its run ends.

Paths are written from the node up to the root: the children of `p` are the paths `k :: p`. Nothing
runs the root.
-/

namespace Hiactor.Lib

variable {κ : Type}

/-- A node is `fresh` until it may become ready for the first time. -/
inductive Readiness where
  | fresh
  | idle
  | ready
  deriving DecidableEq, Repr

/-- `work` is what the node has to do itself, and `queue` the children it has to run; a node
without a queue has no children. -/
structure ReadyNode (κ : Type) where
  state : Readiness
  work : Bool
  queue : Option (List κ)

namespace ReadyNode

def setState (n : ReadyNode κ) (state : Readiness) : ReadyNode κ := { n with state := state }

def mapQueue (n : ReadyNode κ) (f : List κ → List κ) : ReadyNode κ :=
  { n with queue := n.queue.map f }

def children (n : ReadyNode κ) : List κ := n.queue.getD []

/-- The node has nothing to do. -/
def Quiet (n : ReadyNode κ) : Prop := n.work = false ∧ n.children = []

/-- A change of the work alone. -/
structure Alike (n n' : ReadyNode κ) : Prop where
  state : n'.state = n.state
  queue : n'.queue = n.queue

theorem Alike.children {n n' : ReadyNode κ} (alike : Alike n n') : n'.children = n.children := by
  rw [ReadyNode.children, alike.queue, ReadyNode.children]

end ReadyNode

abbrev ReadyTree (κ : Type) := List κ → Option (ReadyNode κ)

namespace ReadyTree

section Operations

variable [DecidableEq κ]

def modify (t : ReadyTree κ) (p : List κ) (f : ReadyNode κ → ReadyNode κ) : ReadyTree κ :=
  Function.update t p ((t p).map f)

/-- A node becomes ready and is put in the queue of its parent. -/
def mark (t : ReadyTree κ) (k : κ) (p : List κ) : ReadyTree κ :=
  (modify t (k :: p) (·.setState .ready)).modify p (·.mapQueue (· ++ [k]))

/-- A node that is idle becomes ready, and so may the nodes above it. -/
def wake (t : ReadyTree κ) : List κ → ReadyTree κ
  | [] => t
  | k :: p =>
    match t (k :: p) with
    | some n => if n.state = .idle then wake (mark t k p) p else t
    | none => t

theorem modify_apply (t : ReadyTree κ) (p q : List κ) (f : ReadyNode κ → ReadyNode κ) :
    t.modify p f q = if q = p then (t q).map f else t q := by
  unfold modify
  rw [Function.update_apply]
  split
  · rename_i here
    rw [here]
  · rfl

theorem modify_eq_some {t : ReadyTree κ} {p q : List κ} {f : ReadyNode κ → ReadyNode κ}
    {n' : ReadyNode κ} (found : t.modify p f q = some n') :
    ∃ n, t q = some n ∧ n' = if q = p then f n else n := by
  rw [modify_apply] at found
  split at found
  · rename_i here
    obtain ⟨n, stored, rfl⟩ := Option.map_eq_some_iff.mp found
    exact ⟨n, stored, by rw [if_pos here]⟩
  · rename_i other
    exact ⟨n', found, by rw [if_neg other]⟩

theorem modify_of_some {t : ReadyTree κ} {p q : List κ} {n : ReadyNode κ} (found : t q = some n)
    (f : ReadyNode κ → ReadyNode κ) : t.modify p f q = some (if q = p then f n else n) := by
  rw [modify_apply, found]
  split
  · rfl
  · rfl

theorem modify_id (t : ReadyTree κ) (p : List κ) : t.modify p id = t := by
  unfold modify
  rw [Option.map_id, id, Function.update_eq_self]

/-- What `mark` makes of the node `m` at `q`. -/
structure Marks (k : κ) (p q : List κ) (m n : ReadyNode κ) : Prop where
  work : n.work = m.work
  inner : n.queue.isSome = m.queue.isSome
  state : n.state = if q = k :: p then .ready else m.state
  other : q ≠ p → n.children = m.children
  parent : q = p → m.queue.isSome = true → n.children = m.children ++ [k]

theorem mark_of_some {t : ReadyTree κ} {k : κ} {p q : List κ} {m : ReadyNode κ}
    (found : t q = some m) : ∃ n, t.mark k p q = some n ∧ Marks k p q m n := by
  refine ⟨_, modify_of_some (modify_of_some found _) _, ?_⟩
  by_cases isParent : q = p
  · have notChild : q ≠ k :: p := fun same => List.cons_ne_self k p (same.symm.trans isParent)
    rw [if_pos isParent, if_neg notChild]
    refine ⟨rfl, Option.isSome_map, by rw [if_neg notChild]; rfl,
      fun different => absurd isParent different, fun _ inner => ?_⟩
    obtain ⟨children, queue⟩ := Option.isSome_iff_exists.mp inner
    simp [ReadyNode.children, ReadyNode.mapQueue, queue]
  · rw [if_neg isParent]
    by_cases isChild : q = k :: p
    · rw [if_pos isChild]
      exact ⟨rfl, rfl, by rw [if_pos isChild]; rfl, fun _ => rfl, fun same => absurd same isParent⟩
    · rw [if_neg isChild]
      exact ⟨rfl, rfl, by rw [if_neg isChild], fun _ => rfl, fun same => absurd same isParent⟩

theorem mark_eq_some {t : ReadyTree κ} {k : κ} {p q : List κ} {n : ReadyNode κ}
    (found : t.mark k p q = some n) : ∃ m, t q = some m ∧ Marks k p q m n := by
  obtain ⟨m', stored, -⟩ := modify_eq_some found
  obtain ⟨m, stored, -⟩ := modify_eq_some stored
  obtain ⟨n', found', marks⟩ := mark_of_some (k := k) (p := p) stored
  obtain rfl := Option.some.inj (found.symm.trans found')
  exact ⟨m, stored, marks⟩

end Operations

/-! ## The queues -/

/-- Every node that is ready and does not run is once in the queue of its parent, and no other
path is in a queue. A node that is idle has nothing to do, those at `dirty` apart. -/
structure InLine (t : ReadyTree κ) [DecidableEq κ] (running held dirty : Set (List κ)) : Prop where
  root : ∀ {n}, t [] = some n → n.state ≠ .idle
  parent : ∀ {k p n}, t (k :: p) = some n → ∃ g, t p = some g ∧ g.queue.isSome = true
  idle : ∀ {p n}, p ∉ dirty → t p = some n → n.state = .idle → n.Quiet
  queued : ∀ {k p n g}, t (k :: p) = some n → t p = some g → n.state = .ready →
    k :: p ∉ running → g.children.count k = 1
  unqueued : ∀ {k p g}, t p = some g →
    (∀ n, t (k :: p) = some n → n.state = .ready → k :: p ∈ running) → k ∉ g.children
  runs : running ⊆ held
  held : ∀ {p}, p ∈ held → ∃ n, t p = some n ∧ n.state = .ready

namespace InLine

variable [DecidableEq κ] {t : ReadyTree κ} {running held dirty : Set (List κ)} {k : κ}
  {p q : List κ} {n g : ReadyNode κ}

/-- A node that is quiet when it is idle is no longer dirty. -/
theorem settle (line : InLine t running held (insert p dirty))
    (quiet : ∀ n, t p = some n → n.state = .idle → n.Quiet) : InLine t running held dirty := by
  refine { line with idle := ?_ }
  intro q n clean found idle
  by_cases here : q = p
  · subst here
    exact quiet n found idle
  · exact line.idle (by simp [here, clean]) found idle

/-- The work of a node changes. -/
theorem touch {f : ReadyNode κ → ReadyNode κ} (line : InLine t running held dirty)
    (alike : ∀ n, t p = some n → n.Alike (f n)) :
    InLine (t.modify p f) running held (insert p dirty) := by
  have same {q : List κ} {n' : ReadyNode κ} (found : t.modify p f q = some n') :
      ∃ n, t q = some n ∧ n.Alike n' ∧ (q ≠ p → n' = n) := by
    obtain ⟨n, stored, rfl⟩ := modify_eq_some found
    refine ⟨n, stored, ?_, fun other => by rw [if_neg other]⟩
    split
    · rename_i here
      exact alike n (here ▸ stored)
    · exact ⟨rfl, rfl⟩
  have still {q : List κ} {n : ReadyNode κ} (found : t q = some n) :
      ∃ n', t.modify p f q = some n' ∧ n.Alike n' := by
    refine ⟨_, modify_of_some found f, ?_⟩
    split
    · rename_i here
      exact alike n (here ▸ found)
    · exact ⟨rfl, rfl⟩
  constructor
  case root =>
    intro n' found
    obtain ⟨n, stored, alike, -⟩ := same found
    rw [alike.state]
    exact line.root stored
  case parent =>
    intro k q n' found
    obtain ⟨n, stored, -⟩ := same found
    obtain ⟨g, above, inner⟩ := line.parent stored
    obtain ⟨g', above', alike⟩ := still above
    exact ⟨g', above', by rw [alike.queue, inner]⟩
  case idle =>
    intro q n' clean found idle
    obtain ⟨other, clean⟩ : q ≠ p ∧ q ∉ dirty := by simpa using clean
    obtain ⟨n, stored, -, eq⟩ := same found
    obtain rfl := eq other
    exact line.idle clean stored idle
  case queued =>
    intro k q n' g' found above ready notRunning
    obtain ⟨n, stored, alike, -⟩ := same found
    obtain ⟨g, stored', alike', -⟩ := same above
    rw [alike'.children]
    exact line.queued stored stored' (alike.state ▸ ready) notRunning
  case unqueued =>
    intro k q g' above none
    obtain ⟨g, stored, alike, -⟩ := same above
    rw [alike.children]
    refine line.unqueued stored (fun n found ready => ?_)
    obtain ⟨n', found', alike'⟩ := still found
    exact none n' found' (alike'.state.trans ready)
  case runs => exact line.runs
  case held =>
    intro q member
    obtain ⟨n, found, ready⟩ := line.held member
    obtain ⟨n', found', alike⟩ := still found
    exact ⟨n', found', alike.state.trans ready⟩

/-- A node that is idle is put in the queue of its parent, which has more to do then. -/
theorem mark (line : InLine t running held (insert (k :: p) dirty)) (found : t (k :: p) = some n)
    (idle : n.state = .idle) : InLine (t.mark k p) running held (insert p dirty) := by
  have notReady (m : ReadyNode κ) (stored : t (k :: p) = some m) : m.state ≠ .ready := by
    rw [← Option.some.inj (found.symm.trans stored), idle]
    exact nofun
  have notRunning : k :: p ∉ running := by
    intro member
    obtain ⟨m, stored, ready⟩ := line.held (line.runs member)
    exact notReady m stored ready
  constructor
  case root =>
    intro n' stored
    obtain ⟨m, before, marks⟩ := mark_eq_some stored
    rw [marks.state, if_neg (List.cons_ne_nil k p).symm]
    exact line.root before
  case parent =>
    intro j q n' stored
    obtain ⟨m, before, -⟩ := mark_eq_some stored
    obtain ⟨g, above, inner⟩ := line.parent before
    obtain ⟨g', above', marks⟩ := mark_of_some above
    exact ⟨g', above', marks.inner.trans inner⟩
  case idle =>
    intro q n' clean stored isIdle
    obtain ⟨notParent, clean⟩ : q ≠ p ∧ q ∉ dirty := by simpa using clean
    obtain ⟨m, before, marks⟩ := mark_eq_some stored
    have state := marks.state
    split at state
    · rw [state] at isIdle
      cases isIdle
    · rename_i notChild
      obtain ⟨noWork, noChildren⟩ := line.idle (by simp [notChild, clean]) before (state ▸ isIdle)
      exact ⟨marks.work.trans noWork, (marks.other notParent).trans noChildren⟩
  case queued =>
    intro j q n' g' stored stored' ready notRunning
    obtain ⟨m, before, marks⟩ := mark_eq_some stored
    obtain ⟨g, above, marks'⟩ := mark_eq_some stored'
    have state := marks.state
    by_cases isParent : q = p
    · obtain ⟨g₀, above₀, inner⟩ := line.parent before
      obtain rfl := Option.some.inj (above.symm.trans above₀)
      rw [marks'.parent isParent inner, List.count_append]
      by_cases isChild : j = k
      · have absent : j ∉ g.children := line.unqueued above (fun m stored isReady => by
          rw [isParent, isChild] at stored
          exact absurd isReady (notReady m stored))
        rw [List.count_eq_zero_of_not_mem absent]
        simp [isChild]
      · rw [if_neg (fun same => isChild (List.cons.inj same).1)] at state
        rw [line.queued before above (state ▸ ready) notRunning]
        simp [Ne.symm isChild]
    · rw [if_neg (fun same => isParent (List.cons.inj same).2)] at state
      rw [marks'.other isParent]
      exact line.queued before above (state ▸ ready) notRunning
  case unqueued =>
    intro j q g' stored none
    obtain ⟨g, above, marks'⟩ := mark_eq_some stored
    by_cases isChild : j :: q = k :: p
    · obtain ⟨n', stored, marks⟩ := mark_of_some (k := k) (p := p) (isChild ▸ found)
      exact absurd (isChild ▸ none n' stored (by rw [marks.state, if_pos isChild])) notRunning
    · have before : j ∉ g.children := line.unqueued above (fun m stored ready => by
        obtain ⟨n', stored, marks⟩ := mark_of_some (k := k) (p := p) stored
        exact none n' stored (by rw [marks.state, if_neg isChild, ready]))
      by_cases isParent : q = p
      · obtain ⟨g₀, above₀, inner⟩ := line.parent found
        obtain rfl := Option.some.inj ((isParent ▸ above).symm.trans above₀)
        have different : j ≠ k := fun same => isChild (by rw [same, isParent])
        rw [marks'.parent isParent inner]
        simp [before, different]
      · rw [marks'.other isParent]
        exact before
  case runs => exact line.runs
  case held =>
    intro q member
    obtain ⟨m, stored, ready⟩ := line.held member
    obtain ⟨n', stored, marks⟩ := mark_of_some (k := k) (p := p) stored
    refine ⟨n', stored, ?_⟩
    rw [marks.state]
    split
    · rfl
    · exact ready

theorem wake (line : InLine t running held (insert p dirty)) :
    InLine (t.wake p) running held dirty := by
  induction p generalizing t with
  | nil => exact line.settle (fun n found idle => absurd idle (line.root found))
  | cons k p ih =>
    unfold ReadyTree.wake
    split
    · rename_i n found
      split
      · rename_i idle
        exact ih (line.mark found idle)
      · rename_i busy
        refine line.settle (fun n' found' idle => ?_)
        obtain rfl := Option.some.inj (found.symm.trans found')
        exact absurd idle busy
    · rename_i none
      exact line.settle (fun n found => by rw [none] at found; cases found)

/-! ## Runs of nodes -/

/-- A parent runs one of the children in its queue. -/
theorem enter {i : Nat} {queue : List κ} (line : InLine t running held dirty) (found : t p = some g)
    (stored : g.queue = some queue) (listed : queue[i]? = some k) :
    InLine (t.modify p (·.mapQueue (·.eraseIdx i))) (insert (k :: p) running)
      (insert (k :: p) held) dirty := by
  have children : g.children = queue := by simp [ReadyNode.children, stored]
  have split : (k :: queue.eraseIdx i).Perm queue := by
    obtain ⟨inside, rfl⟩ := List.getElem?_eq_some_iff.mp listed
    exact List.getElem_cons_eraseIdx_perm inside
  have member : k ∈ g.children := children ▸ List.mem_of_getElem? listed
  obtain ⟨n, child, ready, notRunning⟩ : ∃ n, t (k :: p) = some n ∧ n.state = .ready ∧
      k :: p ∉ running := by
    by_contra none
    simp only [not_exists, not_and, not_not] at none
    exact line.unqueued found none member
  have gone : k ∉ queue.eraseIdx i := by
    have once := line.queued child found ready notRunning
    rw [children, ← split.count_eq, List.count_cons_self, Nat.succ.injEq] at once
    exact List.count_eq_zero.mp once
  have old {q : List κ} {n' : ReadyNode κ}
      (found' : t.modify p (·.mapQueue (·.eraseIdx i)) q = some n') :
      ∃ m, t q = some m ∧ n'.state = m.state ∧ n'.work = m.work ∧ (q ≠ p → n' = m) ∧
        (q = p → m = g ∧ n'.children = queue.eraseIdx i) := by
    obtain ⟨m, stored', rfl⟩ := modify_eq_some found'
    refine ⟨m, stored', ?_⟩
    split
    · rename_i here
      subst here
      obtain rfl := Option.some.inj (found.symm.trans stored')
      refine ⟨rfl, rfl, fun other => absurd rfl other, fun _ => ⟨rfl, ?_⟩⟩
      simp [ReadyNode.children, ReadyNode.mapQueue, stored]
    · rename_i other
      exact ⟨rfl, rfl, fun _ => rfl, fun here => absurd here other⟩
  have new {q : List κ} {m : ReadyNode κ} (stored' : t q = some m) :
      ∃ n', t.modify p (·.mapQueue (·.eraseIdx i)) q = some n' ∧ n'.state = m.state ∧
        n'.queue.isSome = m.queue.isSome := by
    refine ⟨_, modify_of_some stored' _, ?_⟩
    split
    · exact ⟨rfl, Option.isSome_map⟩
    · exact ⟨rfl, rfl⟩
  constructor
  case root =>
    intro n' found'
    obtain ⟨m, stored', state, -⟩ := old found'
    rw [state]
    exact line.root stored'
  case parent =>
    intro j q n' found'
    obtain ⟨m, stored', -⟩ := old found'
    obtain ⟨g', above, inner⟩ := line.parent stored'
    obtain ⟨g'', above', -, same⟩ := new above
    exact ⟨g'', above', same.trans inner⟩
  case idle =>
    intro q n' clean found' idle
    obtain ⟨m, stored', state, work, other, here⟩ := old found'
    by_cases isParent : q = p
    · obtain ⟨rfl, -⟩ := here isParent
      have quiet := line.idle clean stored' (state ▸ idle)
      rw [quiet.2] at member
      cases member
    · rw [other isParent]
      exact line.idle clean stored' (state ▸ idle)
  case queued =>
    intro j q n' g' found' above ready' notRunning'
    obtain ⟨m, stored', state, -⟩ := old found'
    obtain ⟨g₀, above₀, -, -, other, here⟩ := old above
    obtain ⟨notChild, notRunning'⟩ : j :: q ≠ k :: p ∧ j :: q ∉ running := by
      simpa using notRunning'
    have before := line.queued stored' above₀ (state ▸ ready') notRunning'
    by_cases isParent : q = p
    · obtain ⟨rfl, left⟩ := here isParent
      have different : k ≠ j := fun same => notChild (by rw [same, isParent])
      rw [left]
      rw [children, ← split.count_eq, List.count_cons_of_ne different] at before
      exact before
    · rw [other isParent]
      exact before
  case unqueued =>
    intro j q g' above none
    obtain ⟨g₀, above₀, -, -, other, here⟩ := old above
    by_cases isParent : q = p
    · obtain ⟨rfl, left⟩ := here isParent
      rw [left]
      by_cases isChild : j = k
      · rw [isChild]
        exact gone
      · have before := line.unqueued above₀ (fun m stored' ready' => by
          obtain ⟨n', found', state, -⟩ := new stored'
          refine (none n' found' (state.trans ready')).resolve_left (fun same => ?_)
          exact isChild (List.cons.inj same).1)
        rw [children] at before
        exact fun later => before (List.mem_of_mem_eraseIdx later)
    · rw [other isParent]
      refine line.unqueued above₀ (fun m stored' ready' => ?_)
      obtain ⟨n', found', state, -⟩ := new stored'
      refine (none n' found' (state.trans ready')).resolve_left (fun same => ?_)
      exact isParent (List.cons.inj same).2
  case runs => exact Set.insert_subset_insert line.runs
  case held =>
    intro q member'
    rcases member' with rfl | before
    · obtain ⟨n', found', state, -⟩ := new child
      exact ⟨n', found', state.trans ready⟩
    · obtain ⟨m, stored', ready'⟩ := line.held before
      obtain ⟨n', found', state, -⟩ := new stored'
      exact ⟨n', found', state.trans ready'⟩

/-- The run of a node ends: it is idle, and may have got work. -/
theorem sleep (line : InLine t (insert q running) (insert q held) dirty) (below : q ≠ [])
    (once : q ∉ running) (free : q ∉ held) :
    InLine (t.modify q (·.setState .idle)) running held (insert q dirty) := by
  have old {r : List κ} {n' : ReadyNode κ} (found : t.modify q (·.setState .idle) r = some n') :
      ∃ n, t r = some n ∧ n'.queue = n.queue ∧ (r = q → n'.state = .idle) ∧ (r ≠ q → n' = n) := by
    obtain ⟨n, stored, rfl⟩ := modify_eq_some found
    refine ⟨n, stored, ?_⟩
    split
    · rename_i here
      exact ⟨rfl, fun _ => rfl, fun other => absurd here other⟩
    · rename_i other
      exact ⟨rfl, fun here => absurd here other, fun _ => rfl⟩
  have new {r : List κ} {n : ReadyNode κ} (found : t r = some n) (other : r ≠ q) :
      t.modify q (·.setState .idle) r = some n := by
    rw [modify_of_some found, if_neg other]
  constructor
  case root =>
    intro n' found
    obtain ⟨n, stored, -, -, same⟩ := old found
    rw [same below.symm]
    exact line.root stored
  case parent =>
    intro k p n' found
    obtain ⟨n, stored, -⟩ := old found
    obtain ⟨g, above, inner⟩ := line.parent stored
    refine ⟨_, modify_of_some above _, ?_⟩
    split
    · exact inner
    · exact inner
  case idle =>
    intro r n' clean found idle
    obtain ⟨other, clean⟩ : r ≠ q ∧ r ∉ dirty := by simpa using clean
    obtain ⟨n, stored, -, -, same⟩ := old found
    obtain rfl := same other
    exact line.idle clean stored idle
  case queued =>
    intro k p n' g' found above ready notRunning
    obtain ⟨n, stored, -, asleep, same⟩ := old found
    obtain ⟨g, stored', queue, -⟩ := old above
    have other : k :: p ≠ q := by
      intro here
      rw [asleep here] at ready
      cases ready
    obtain rfl := same other
    rw [ReadyNode.children, queue]
    exact line.queued stored stored' ready (by simp [other, notRunning])
  case unqueued =>
    intro k p g' above none
    obtain ⟨g, stored, queue, -⟩ := old above
    rw [ReadyNode.children, queue]
    refine line.unqueued stored (fun n found ready => ?_)
    by_cases here : k :: p = q
    · exact .inl here
    · exact .inr (none n (new found here) ready)
  case runs =>
    intro r member
    rcases line.runs (.inr member) with rfl | still
    · exact absurd member once
    · exact still
  case held =>
    intro r member
    obtain ⟨n, found, ready⟩ := line.held (.inr member)
    exact ⟨n, new found (fun here => free (here ▸ member)), ready⟩

/-- The run of a node without children ends with its removal. -/
theorem remove (line : InLine t (insert q running) (insert q held) dirty) (below : q ≠ [])
    (once : q ∉ running) (free : q ∉ held) (childless : ∀ j, t (j :: q) = none) :
    InLine (Function.update t q none) running held dirty := by
  have old {r : List κ} {n : ReadyNode κ} (found : Function.update t q none r = some n) :
      r ≠ q ∧ t r = some n := by
    rw [Function.update_apply] at found
    split at found
    · cases found
    · rename_i other
      exact ⟨other, found⟩
  have new {r : List κ} {n : ReadyNode κ} (found : t r = some n) (other : r ≠ q) :
      Function.update t q none r = some n := by
    rw [Function.update_of_ne other, found]
  constructor
  case root => exact fun found => line.root (old found).2
  case parent =>
    intro k p n found
    obtain ⟨-, stored⟩ := old found
    obtain ⟨g, above, inner⟩ := line.parent stored
    refine ⟨g, new above (fun here => ?_), inner⟩
    rw [here, childless k] at stored
    cases stored
  case idle => exact fun clean found idle => line.idle clean (old found).2 idle
  case queued =>
    intro k p n g found above ready notRunning
    obtain ⟨other, stored⟩ := old found
    exact line.queued stored (old above).2 ready (by simp [other, notRunning])
  case unqueued =>
    intro k p g above none
    refine line.unqueued (old above).2 (fun n found ready => ?_)
    by_cases here : k :: p = q
    · exact .inl here
    · exact .inr (none n (new found here) ready)
  case runs =>
    intro r member
    rcases line.runs (.inr member) with rfl | still
    · exact absurd member once
    · exact still
  case held =>
    intro r member
    obtain ⟨n, found, ready⟩ := line.held (.inr member)
    exact ⟨n, new found (fun here => free (here ▸ member)), ready⟩

/-- A new node, which is not ready yet. -/
theorem create (line : InLine t running held dirty) (absent : t (k :: p) = none)
    (above : t p = some g) (inner : g.queue.isSome = true) (notReady : n.state ≠ .ready)
    (childless : n.children = []) :
    InLine (Function.update t (k :: p) (some n)) running held (insert (k :: p) dirty) := by
  have old {r : List κ} {m : ReadyNode κ}
      (found : Function.update t (k :: p) (some n) r = some m) :
      (r = k :: p ∧ m = n) ∨ (r ≠ k :: p ∧ t r = some m) := by
    rw [Function.update_apply] at found
    split at found
    · rename_i here
      exact .inl ⟨here, (Option.some.inj found).symm⟩
    · rename_i other
      exact .inr ⟨other, found⟩
  have new {r : List κ} {m : ReadyNode κ} (found : t r = some m) :
      Function.update t (k :: p) (some n) r = some m := by
    rw [Function.update_of_ne, found]
    intro here
    rw [here, absent] at found
    cases found
  constructor
  case root =>
    intro m found
    rcases old found with ⟨here, -⟩ | ⟨-, stored⟩
    · cases here
    · exact line.root stored
  case parent =>
    intro j q m found
    rcases old found with ⟨here, -⟩ | ⟨-, stored⟩
    · obtain ⟨-, rfl⟩ := List.cons.inj here
      exact ⟨g, new above, inner⟩
    · obtain ⟨g', above', inner'⟩ := line.parent stored
      exact ⟨g', new above', inner'⟩
  case idle =>
    intro q m clean found idle
    obtain ⟨other, clean⟩ : q ≠ k :: p ∧ q ∉ dirty := by simpa using clean
    rcases old found with ⟨here, -⟩ | ⟨-, stored⟩
    · exact absurd here other
    · exact line.idle clean stored idle
  case queued =>
    intro j q m g' found above' ready notRunning
    rcases old found with ⟨-, rfl⟩ | ⟨-, stored⟩
    · exact absurd ready notReady
    · rcases old above' with ⟨rfl, -⟩ | ⟨-, stored'⟩
      · obtain ⟨g₀, above₀, -⟩ := line.parent stored
        rw [absent] at above₀
        cases above₀
      · exact line.queued stored stored' ready notRunning
  case unqueued =>
    intro j q g' above' none
    rcases old above' with ⟨-, rfl⟩ | ⟨-, stored'⟩
    · rw [childless]
      exact List.not_mem_nil
    · exact line.unqueued stored' (fun m stored ready => none m (new stored) ready)
  case runs => exact line.runs
  case held =>
    intro q member
    obtain ⟨m, found, ready⟩ := line.held member
    exact ⟨m, new found, ready⟩

end InLine

/-! ## What happens outside of the runs -/

/-- A node gets or loses work, and is woken when it may have got some; or a new node is woken. -/
inductive Step [DecidableEq κ] (t : ReadyTree κ) : ReadyTree κ → Prop
  | touch {p : List κ} {f : ReadyNode κ → ReadyNode κ} (alike : ∀ n, t p = some n → n.Alike (f n))
      (lazy : ∀ n, t p = some n → n.state = .idle → (f n).work = true → n.work = true) :
      Step t (t.modify p f)
  | wake {p : List κ} {f : ReadyNode κ → ReadyNode κ} (alike : ∀ n, t p = some n → n.Alike (f n)) :
      Step t ((t.modify p f).wake p)
  | create {k : κ} {p : List κ} {g n : ReadyNode κ} (absent : t (k :: p) = none)
      (above : t p = some g) (inner : g.queue.isSome = true) (idle : n.state = .idle)
      (childless : n.children = []) :
      Step t (ReadyTree.wake (Function.update t (k :: p) (some n)) (k :: p))

theorem InLine.step [DecidableEq κ] {t t' : ReadyTree κ} {running held dirty : Set (List κ)}
    (line : InLine t running held dirty) (step : Step t t') : InLine t' running held dirty := by
  cases step with
  | @touch p f alike lazy =>
    by_cases isDirty : p ∈ dirty
    · have touched := line.touch alike
      rwa [Set.insert_eq_of_mem isDirty] at touched
    · refine (line.touch alike).settle (fun n' found idle => ?_)
      obtain ⟨n, stored, rfl⟩ := modify_eq_some found
      rw [if_pos rfl] at idle ⊢
      have wasIdle := (alike n stored).state.symm.trans idle
      obtain ⟨noWork, noChildren⟩ := line.idle isDirty stored wasIdle
      refine ⟨Bool.eq_false_iff.mpr (fun works => ?_), (alike n stored).children.trans noChildren⟩
      rw [lazy n stored wasIdle works] at noWork
      cases noWork
  | wake alike => exact (line.touch alike).wake
  | create absent above inner idle childless =>
    refine InLine.wake (line.create absent above inner ?_ childless)
    rw [idle]
    exact nofun

theorem InLine.steps [DecidableEq κ] {t t' : ReadyTree κ} {running held dirty : Set (List κ)}
    (line : InLine t running held dirty) (steps : Relation.ReflTransGen Step t t') :
    InLine t' running held dirty := by
  induction steps with
  | refl => exact line
  | tail _ step ih => exact ih.step step

end ReadyTree

end Hiactor.Lib
