import Mathlib.Order.Interval.Set.Basic
import Mathlib.Order.Interval.Set.LinearOrder
import Mathlib.Order.Disjoint
import Mathlib.Order.CompletePartialOrder
import Mathlib.Data.Set.Lattice
import Mathlib.Data.List.Perm.Basic
import Mathlib.Order.Interval.Finset.Nat
import Mathlib.Algebra.GroupWithZero.Nat

/-!
# Packings of half-open spans

A memory that is cut into pieces is a list of spans without common points inside
a whole.  What an allocator does to its pieces is one of a few moves: a piece is
cut, taken apart, dropped, or joined with the one behind it.  The order of the
list means nothing, so the moves are stated for its first element.

The second part is about piles kept in an array, which is how free pieces are
sorted by their size.
-/

namespace NdNet.Tiling

section Packings

variable {α : Type} [LinearOrder α]

/-- The points from `lo` to before `hi`. -/
structure Span (α : Type) where
  lo : α
  hi : α
  deriving DecidableEq, Repr

def Span.points (span : Span α) : Set α :=
  Set.Ico span.lo span.hi

/-- Spans inside a whole, no two with a common point. -/
structure Packed (whole : Set α) (spans : List (Span α)) : Prop where
  inside : ∀ span ∈ spans, span.points ⊆ whole
  apart : spans.Pairwise fun first second =>
    Disjoint first.points second.points

namespace Packed

variable {whole : Set α} {spans others : List (Span α)}
  {span first second : Span α} {lo mid hi : α}

theorem perm (packed : Packed whole spans) (same : spans.Perm others) :
    Packed whole others where
  inside span member := packed.inside span (same.mem_iff.mpr member)
  apart := (same.pairwise_iff fun apart => apart.symm).mp packed.apart

theorem tail (packed : Packed whole (span :: spans)) : Packed whole spans where
  inside span member :=
    packed.inside span (List.mem_cons_of_mem _ member)
  apart := (List.pairwise_cons.mp packed.apart).2

theorem replace (packed : Packed whole (span :: spans))
    (within : ∀ piece ∈ others, piece.points ⊆ span.points)
    (apart : others.Pairwise fun first second =>
      Disjoint first.points second.points) :
    Packed whole (others ++ spans) where
  inside piece member := by
    rcases List.mem_append.mp member with new | old
    · exact (within piece new).trans
        (packed.inside span List.mem_cons_self)
    · exact packed.tail.inside piece old
  apart := by
    refine List.pairwise_append.mpr ⟨apart, packed.tail.apart, ?_⟩
    intro piece new old member
    have clear := (List.pairwise_cons.mp packed.apart).1 old member
    exact clear.mono_left (within piece new)

theorem shrink (packed : Packed whole (span :: spans))
    (within : first.points ⊆ span.points) : Packed whole (first :: spans) := by
  refine @replace α _ whole spans [first] span packed ?_ ?_
  · intro piece member
    rw [List.mem_singleton.mp member]
    exact within
  · exact List.pairwise_singleton _ _

theorem split (packed : Packed whole (⟨lo, hi⟩ :: spans)) (low : lo ≤ mid)
    (high : mid ≤ hi) : Packed whole (⟨lo, mid⟩ :: ⟨mid, hi⟩ :: spans) := by
  refine @replace α _ whole spans [⟨lo, mid⟩, ⟨mid, hi⟩] _ packed ?_ ?_
  · intro piece member
    rcases List.mem_cons.mp member with rfl | member
    · exact Set.Ico_subset_Ico_right high
    · rw [List.mem_singleton.mp member]
      exact Set.Ico_subset_Ico_left low
  · refine List.pairwise_pair.mpr ?_
    refine Set.disjoint_left.mpr ?_
    intro point below above
    exact absurd above.1 (not_le_of_gt below.2)

theorem join (packed : Packed whole (⟨lo, mid⟩ :: ⟨mid, hi⟩ :: spans)) :
    Packed whole (⟨lo, hi⟩ :: spans) where
  inside piece member := by
    rcases List.mem_cons.mp member with rfl | old
    · have cover : Set.Ico lo hi ⊆ Set.Ico lo mid ∪ Set.Ico mid hi :=
        Set.Ico_subset_Ico_union_Ico
      refine cover.trans (Set.union_subset ?_ ?_)
      · exact packed.inside ⟨lo, mid⟩ List.mem_cons_self
      · exact packed.tail.inside ⟨mid, hi⟩ List.mem_cons_self
    · exact packed.tail.tail.inside piece old
  apart := by
    refine List.pairwise_cons.mpr ⟨?_, packed.tail.tail.apart⟩
    intro piece member
    have below := (List.pairwise_cons.mp packed.apart).1 piece
      (List.mem_cons_of_mem _ member)
    have above := (List.pairwise_cons.mp packed.tail.apart).1 piece member
    exact (Set.disjoint_union_left.mpr ⟨below, above⟩).mono_left
      Set.Ico_subset_Ico_union_Ico

theorem total_le [LocallyFiniteOrder α] {points : Finset α}
    (packed : Packed (points : Set α) spans) :
    (spans.map fun span => (Finset.Ico span.lo span.hi).card).sum ≤
      points.card := by
  induction spans generalizing points with
  | nil => exact Nat.zero_le _
  | cons span spans induction =>
    have inside : Finset.Ico span.lo span.hi ⊆ points := by
      rw [← Finset.coe_subset, Finset.coe_Ico]
      exact packed.inside span List.mem_cons_self
    have rest : Packed
        ((points \ Finset.Ico span.lo span.hi : Finset α) : Set α) spans := by
      refine ⟨fun piece member => ?_, packed.tail.apart⟩
      rw [Finset.coe_sdiff, Finset.coe_Ico]
      exact Set.subset_sdiff.mpr ⟨packed.tail.inside piece member,
        ((List.pairwise_cons.mp packed.apart).1 piece member).symm⟩
    have fewer := induction rest
    rw [Finset.card_sdiff_of_subset inside] at fewer
    have most := Finset.card_le_card inside
    rw [List.map_cons, List.sum_cons]
    omega

end Packed

end Packings

section Piles

variable {β : Type}

def push (piles : List (List β)) (index : Nat) (element : β) :
    List (List β) :=
  piles.set index (element :: piles.getD index [])
variable {piles : List (List β)}

theorem mem_push {index place : Nat} {element other : β}
    (member : other ∈ (push piles index element).getD place []) :
    (other = element ∧ place = index) ∨ other ∈ piles.getD place [] := by
  unfold push at member
  by_cases same : index = place
  · subst same
    by_cases there : index < piles.length
    · rw [List.getD_eq_getElem?_getD, List.getElem?_set_self there,
        Option.getD_some] at member
      rcases List.mem_cons.mp member with new | old
      · exact .inl ⟨new, rfl⟩
      · exact .inr old
    · rw [List.set_eq_of_length_le (Nat.le_of_not_lt there)] at member
      exact .inr member
  · rw [List.getD_eq_getElem?_getD, List.getElem?_set_ne same,
      ← List.getD_eq_getElem?_getD] at member
    exact .inr member

theorem push_flatten {index : Nat} (there : index < piles.length) (element : β)
    :
    (push piles index element).flatten.Perm (element :: piles.flatten) := by
  induction piles generalizing index with
  | nil => exact absurd there (Nat.not_lt_zero _)
  | cons pile piles induction =>
    cases index with
    | zero => exact List.Perm.refl _
    | succ index =>
      have later := induction (Nat.lt_of_succ_lt_succ there)
      exact (later.append_left pile).trans List.perm_middle

theorem pop_flatten {index : Nat} {element : β} {rest : List β}
    (top : piles.getD index [] = element :: rest) :
    piles.flatten.Perm (element :: (piles.set index rest).flatten) := by
  induction piles generalizing index with
  | nil => exact absurd top (by simp)
  | cons pile piles induction =>
    cases index with
    | zero =>
      have head : pile = element :: rest := top
      rw [head]
      exact List.Perm.refl _
    | succ index =>
      have later := @induction index top
      exact (later.append_left pile).trans List.perm_middle

theorem mem_pop {index place : Nat} {element other : β} {rest : List β}
    (top : piles.getD index [] = element :: rest)
    (member : other ∈ (piles.set index rest).getD place []) :
    other ∈ piles.getD place [] := by
  by_cases same : index = place
  · subst same
    by_cases there : index < piles.length
    · rw [List.getD_eq_getElem?_getD, List.getElem?_set_self there,
        Option.getD_some] at member
      rw [top]
      exact List.mem_cons_of_mem _ member
    · rw [List.set_eq_of_length_le (Nat.le_of_not_lt there)] at member
      exact member
  · rw [List.getD_eq_getElem?_getD, List.getElem?_set_ne same,
      ← List.getD_eq_getElem?_getD] at member
    exact member

end Piles

end NdNet.Tiling
