import Mathlib.Data.List.Perm.Lattice
import Mathlib.Data.List.Nodup

/-!
# Owners of blocks

Owners hold at most one block of a heap each, and no block is held by two.  An
owner is turned into another by an operation that may give its block back and
take a new one.  Such operations compose, and they neither disturb what the
other owners hold nor give them a block of their own.
-/

namespace NdNet.Owners

variable {α β ω : Type} (owns : ω → Option α) (fits : ω → β → Prop)

def Holds (heap : α → Option β) (owner : ω) : Prop :=
  ∀ address, owns owner = some address →
    ∃ block, heap address = some block ∧ fits owner block

/-- All owners hold their blocks, and no two the same. -/
structure Kept (heap : α → Option β) (owners : List ω) : Prop where
  holds : ∀ owner ∈ owners, Holds owns fits heap owner
  apart : (owners.filterMap owns).Nodup

/-- An owner is turned into another: what it does not hold any more is given
back, what it holds now was its own or free, and nothing else changes. -/
structure Turns (heap : α → Option β) (owner : ω) (after : α → Option β)
    (result : ω) : Prop where
  holds : Holds owns fits after result
  fresh : ∀ address, owns result = some address →
    owns owner = some address ∨ heap address = none
  released : ∀ address, owns owner = some address →
    owns result ≠ some address → after address = none
  frame : ∀ address, owns owner ≠ some address →
    owns result ≠ some address → after address = heap address

variable {owns fits} {heap after last : α → Option β}
  {owner result final : ω} {owners rest : List ω}

theorem Kept.nil : Kept owns fits heap [] :=
  ⟨fun _ member => (nomatch member), List.nodup_nil⟩

theorem Kept.perm (kept : Kept owns fits heap owners)
    (order : owners.Perm rest) : Kept owns fits heap rest where
  holds other member := kept.holds other (order.mem_iff.mpr member)
  apart := (order.filterMap owns).nodup_iff.mp kept.apart

theorem Kept.tail (kept : Kept owns fits heap (owner :: rest)) :
    Kept owns fits heap rest where
  holds other member := kept.holds other (List.mem_cons_of_mem _ member)
  apart := kept.apart.sublist ((List.sublist_cons_self owner rest).filterMap owns)

theorem Kept.cons_free (kept : Kept owns fits heap rest)
    (nothing : owns owner = none) : Kept owns fits heap (owner :: rest) where
  holds other member := by
    rcases List.mem_cons.mp member with rfl | later
    · intro address held
      rw [nothing] at held
      cases held
    · exact kept.holds other later
  apart := by
    rw [List.filterMap_cons_none nothing]
    exact kept.apart

theorem Kept.ne {other : ω} {address : α}
    (kept : Kept owns fits heap (owner :: rest)) (member : other ∈ rest)
    (held : owns other = some address) : owns owner ≠ some address := by
  intro same
  have apart := kept.apart
  rw [List.filterMap_cons_some same, List.nodup_cons] at apart
  exact apart.1 (List.mem_filterMap.mpr ⟨other, member, held⟩)

theorem Turns.others (turns : Turns owns fits heap owner after result)
    (kept : Kept owns fits heap (owner :: rest)) {other : ω}
    (member : other ∈ rest) {address : α} (held : owns other = some address) :
    owns result ≠ some address ∧ after address = heap address := by
  have foreign := kept.ne member held
  have apart : owns result ≠ some address := by
    intro same
    obtain ⟨block, there, -⟩ :=
      kept.holds other (List.mem_cons_of_mem _ member) address held
    rcases turns.fresh address same with own | free
    · exact foreign own
    · rw [free] at there
      cases there
  exact ⟨apart, turns.frame address foreign apart⟩

theorem Turns.kept (turns : Turns owns fits heap owner after result)
    (kept : Kept owns fits heap (owner :: rest)) :
    Kept owns fits after (result :: rest) where
  holds other member := by
    rcases List.mem_cons.mp member with rfl | later
    · exact turns.holds
    · intro address held
      rw [(turns.others kept later held).2]
      exact kept.holds other (List.mem_cons_of_mem _ later) address held
  apart := by
    cases held : owns result with
    | none =>
      rw [List.filterMap_cons_none held]
      exact kept.tail.apart
    | some address =>
      rw [List.filterMap_cons_some held, List.nodup_cons]
      refine ⟨fun member => ?_, kept.tail.apart⟩
      obtain ⟨other, later, same⟩ := List.mem_filterMap.mp member
      exact (turns.others kept later same).1 held

theorem Turns.refl (holds : Holds owns fits heap owner) :
    Turns owns fits heap owner heap owner where
  holds := holds
  fresh _ held := .inl held
  released _ held gone := absurd held gone
  frame _ _ _ := rfl

theorem Turns.idle (before : owns owner = none) (behind : owns result = none) :
    Turns owns fits heap owner heap result where
  holds other same := by
    rw [behind] at same
    cases same
  fresh other same := by
    rw [behind] at same
    cases same
  released other same _ := by
    rw [before] at same
    cases same
  frame _ _ _ := rfl

theorem Turns.trans (first : Turns owns fits heap owner after result)
    (second : Turns owns fits after result last final) :
    Turns owns fits heap owner last final where
  holds := second.holds
  fresh address held := by
    by_cases own : owns owner = some address
    · exact .inl own
    · right
      by_cases between : owns result = some address
      · exact (first.fresh address between).resolve_left own
      · rw [← first.frame address own between]
        exact (second.fresh address held).resolve_left between
  released address held gone := by
    by_cases between : owns result = some address
    · exact second.released address between gone
    · rw [second.frame address between gone]
      exact first.released address held between
  frame address foreign gone := by
    by_cases between : owns result = some address
    · rw [second.released address between gone]
      exact ((first.fresh address between).resolve_left foreign).symm
    · rw [second.frame address between gone]
      exact first.frame address foreign between

section Steps

variable [DecidableEq α] {address : α} {block : β}

theorem Turns.release (held : owns owner = some address)
    (nothing : owns result = none) :
    Turns owns fits heap owner (Function.update heap address none) result where
  holds other same := by
    rw [nothing] at same
    cases same
  fresh other same := by
    rw [nothing] at same
    cases same
  released other same _ := by
    obtain rfl := Option.some.inj (held.symm.trans same)
    exact Function.update_self ..
  frame other foreign _ := by
    refine Function.update_of_ne ?_ ..
    rintro rfl
    exact foreign held

theorem Turns.take (nothing : owns owner = none)
    (held : owns result = some address) (free : heap address = none)
    (good : fits result block) :
    Turns owns fits heap owner (Function.update heap address (some block))
      result where
  holds other same := by
    obtain rfl := Option.some.inj (held.symm.trans same)
    exact ⟨block, Function.update_self .., good⟩
  fresh other same := by
    obtain rfl := Option.some.inj (held.symm.trans same)
    exact .inr free
  released other same _ := by
    rw [nothing] at same
    cases same
  frame other _ foreign := by
    refine Function.update_of_ne ?_ ..
    rintro rfl
    exact foreign held

end Steps

end NdNet.Owners
