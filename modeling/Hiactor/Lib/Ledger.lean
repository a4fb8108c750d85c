import Mathlib.Data.List.Basic
import Mathlib.Data.List.Nodup
import Mathlib.Data.List.Perm.Basic

/-!
# Items at places

Items lie at places, and a stage is kept for every key. The stage of the key of an item fits the
item and its place, and tells the place; the items at one place have different keys. So a key
has at most one item, and an operation on one item leaves the stages of all others alone. Key
`0` is that of the items that nobody follows.
-/

namespace Hiactor.Lib

variable {π ι σ : Type}

/-- The keys of some items that are followed. -/
def keys (key : ι → Nat) (items : List ι) : List Nat := (items.map key).filter (· != 0)

section keys

variable {key : ι → Nat}

@[simp] theorem keys_append (items more : List ι) :
    keys key (items ++ more) = keys key items ++ keys key more := by
  simp [keys]

theorem keys_cons (i : ι) (items : List ι) :
    keys key (i :: items) = (if key i = 0 then [] else [key i]) ++ keys key items := by
  by_cases zero : key i = 0
  · simp [keys, zero]
  · simp [keys, zero]

theorem mem_keys {items : List ι} {j : Nat} :
    j ∈ keys key items ↔ j ≠ 0 ∧ ∃ i ∈ items, key i = j := by
  simp only [keys, List.mem_filter, List.mem_map, bne_iff_ne]
  exact and_comm

theorem keys_perm {items items' : List ι} (perm : items.Perm items') :
    (keys key items).Perm (keys key items') := (perm.map key).filter _

end keys

/-- Every item that is followed fits the stage of its key, and has its key for itself. -/
structure Ledger (key : ι → Nat) (fits : π → ι → σ → Prop) (held : π → List ι)
    (stage : Nat → σ) : Prop where
  fits : ∀ {p i}, i ∈ held p → key i ≠ 0 → fits p i (stage (key i))
  once : ∀ p, (keys key (held p)).Nodup

namespace Ledger

variable {key : ι → Nat} {fits : π → ι → σ → Prop} {held held' : π → List ι}
  {stage stage' : Nat → σ} {q : π} {old new rest : List ι}

/-- Some items at a place are replaced by others that have no other keys. -/
theorem replace (ledger : Ledger key fits held stage)
    (apart : ∀ {p r i j state}, fits p i state → fits r j state → p = r)
    (before : (held q).Perm (old ++ rest)) (after : (held' q).Perm (new ++ rest))
    (others : ∀ r, r ≠ q → held' r = held r) (fewer : (keys key new).Sublist (keys key old))
    (stages : ∀ j, j ∉ keys key old → stage' j = stage j)
    (fit : ∀ i ∈ new, key i ≠ 0 → fits q i (stage' (key i))) : Ledger key fits held' stage' := by
  have nodup : (keys key (old ++ rest)).Nodup := (keys_perm before).nodup_iff.mp (ledger.once q)
  rw [keys_append] at nodup
  constructor
  · intro p i member followed
    by_cases here : p = q
    · subst here
      rcases List.mem_append.mp (after.mem_iff.mp member) with isNew | isRest
      · exact fit i isNew followed
      · have unchanged : key i ∉ keys key old := fun isOld =>
          (List.nodup_append.mp nodup).2.2 _ isOld _ (mem_keys.mpr ⟨followed, i, isRest, rfl⟩) rfl
        rw [stages _ unchanged]
        exact ledger.fits (before.mem_iff.mpr (List.mem_append_right old isRest)) followed
    · rw [others p here] at member
      have unchanged : key i ∉ keys key old := by
        intro isOld
        obtain ⟨-, o, inOld, same⟩ := mem_keys.mp isOld
        have fitsOld := ledger.fits (before.mem_iff.mpr (List.mem_append_left rest inOld))
          (same ▸ followed)
        rw [same] at fitsOld
        exact here (apart (ledger.fits member followed) fitsOld)
      rw [stages _ unchanged]
      exact ledger.fits member followed
  · intro p
    by_cases here : p = q
    · subst here
      refine (keys_perm after).nodup_iff.mpr ?_
      rw [keys_append]
      exact nodup.sublist (fewer.append (List.Sublist.refl _))
    · rw [others p here]
      exact ledger.once p

/-- An item with a new key is put down. -/
theorem insert (ledger : Ledger key fits held stage) {i : ι}
    (after : (held' q).Perm (i :: held q)) (others : ∀ r, r ≠ q → held' r = held r)
    (absent : ∀ r, key i ∉ keys key (held r)) (stages : ∀ j, j ≠ key i → stage' j = stage j)
    (fit : key i ≠ 0 → fits q i (stage' (key i))) : Ledger key fits held' stage' := by
  have unchanged {r : π} {j : ι} (member : j ∈ held r) (followed : key j ≠ 0) :
      fits r j (stage' (key j)) := by
    rw [stages _ (fun same => absent r (same ▸ mem_keys.mpr ⟨followed, j, member, rfl⟩))]
    exact ledger.fits member followed
  constructor
  · intro p j member followed
    by_cases here : p = q
    · subst here
      rcases List.mem_cons.mp (after.mem_iff.mp member) with rfl | old
      · exact fit followed
      · exact unchanged old followed
    · rw [others p here] at member
      exact unchanged member followed
  · intro p
    by_cases here : p = q
    · subst here
      refine (keys_perm after).nodup_iff.mpr ?_
      rw [keys_cons]
      split
      · exact ledger.once p
      · exact List.nodup_cons.mpr ⟨absent p, ledger.once p⟩
    · rw [others p here]
      exact ledger.once p

end Ledger

end Hiactor.Lib
