import Mathlib.Data.List.Sort
import Mathlib.Data.Set.Basic

/-!
# Walking through things that are in order

A strict order says which of two keys comes before the other; walking backwards
is walking in the opposite order.  The first of the keys that come after one of
them is the next element of the list of all keys in their order.
-/

namespace NdNet.InOrder

open List

variable {α κ : Type}

def FirstOf (before : κ → κ → Prop) (keys : Set κ) : Option κ → Prop
  | none => keys = ∅
  | some key => key ∈ keys ∧ ∀ other ∈ keys, other ≠ key → before key other

variable {before : κ → κ → Prop} {keys front back : List κ} {key : κ}

theorem firstOf_head? (ordered : keys.Pairwise before) :
    FirstOf before {key | key ∈ keys} keys.head? := by
  cases keys with
  | nil =>
    apply Set.eq_empty_iff_forall_notMem.mpr
    simp
  | cons first keys =>
    obtain ⟨least, -⟩ := pairwise_cons.mp ordered
    refine ⟨mem_cons_self, fun other inside different => ?_⟩
    rcases mem_cons.mp inside with same | later
    · exact absurd same different
    · exact least other later

theorem after_iff [Std.Asymm before]
    (ordered : (front ++ key :: back).Pairwise before) (other : κ) :
    other ∈ front ++ key :: back ∧ before key other ↔ other ∈ back := by
  obtain ⟨-, later, across⟩ := pairwise_append.mp ordered
  obtain ⟨least, -⟩ := pairwise_cons.mp later
  constructor
  · rintro ⟨inside, after⟩
    rcases mem_append.mp inside with early | late
    · have earlier := across other early key mem_cons_self
      exact absurd after (Std.Asymm.asymm other key earlier)
    · rcases mem_cons.mp late with rfl | late
      · exact absurd after (Std.Asymm.asymm other other after)
      · exact late
  · intro late
    refine ⟨?_, least other late⟩
    apply mem_append_right
    exact mem_cons_of_mem key late

theorem firstOf_after [Std.Asymm before]
    (ordered : (front ++ key :: back).Pairwise before) :
    FirstOf before
      {other | other ∈ front ++ key :: back ∧ before key other}
      back.head? := by
  have behind : {other | other ∈ front ++ key :: back ∧ before key other} =
      {other | other ∈ back} := by
    ext other
    exact after_iff ordered other
  rw [behind]
  apply firstOf_head?
  have later := (pairwise_append.mp ordered).2.1
  exact (pairwise_cons.mp later).2

def behind (sought : α → Bool) : List α → List α
  | [] => []
  | element :: rest => if sought element then rest else behind sought rest

theorem behind_append {sought : α → Bool} {front back : List α} {element : α}
    (others : ∀ other ∈ front, sought other = false)
    (found : sought element = true) :
    behind sought (front ++ element :: back) = back := by
  induction front with
  | nil => rw [nil_append, behind, if_pos found]
  | cons other front induction =>
    obtain ⟨different, others⟩ := forall_mem_cons.mp others
    rw [cons_append, behind, different]
    exact induction others

def directed (backwards : Bool) (elements : List α) : List α :=
  if backwards then elements.reverse else elements

theorem mem_directed (backwards : Bool) {elements : List α} {element : α} :
    element ∈ directed backwards elements ↔ element ∈ elements := by
  cases backwards with
  | false => exact Iff.rfl
  | true => exact mem_reverse

theorem map_directed {β : Type} (f : α → β) (backwards : Bool)
    (elements : List α) :
    (directed backwards elements).map f =
      directed backwards (elements.map f) := by
  cases backwards with
  | false => rfl
  | true => exact map_reverse

variable [LinearOrder κ] {keyOf : α → κ}

def inDirection (backwards : Bool) (one other : κ) : Prop :=
  if backwards then other < one else one < other

instance (backwards : Bool) : Std.Asymm (inDirection (κ := κ) backwards) where
  asymm one other := by
    cases backwards with
    | false => exact fun less more => lt_asymm less more
    | true => exact fun less more => lt_asymm less more

theorem pairwise_directed {keys : List κ}
    (ordered : keys.Pairwise fun one other => one < other) (backwards : Bool) :
    (directed backwards keys).Pairwise (inDirection backwards) := by
  cases backwards with
  | false => exact ordered
  | true => exact pairwise_reverse.mpr ordered

/-- An element with a new key is put between those before and those after it. -/
theorem pairwise_orderedInsert {element : α} {elements : List α}
    (ordered : elements.Pairwise fun one other => keyOf one < keyOf other)
    (new : ∀ other ∈ elements, keyOf other ≠ keyOf element) :
    (elements.orderedInsert (fun one other => keyOf one < keyOf other)
      element).Pairwise fun one other => keyOf one < keyOf other := by
  induction elements with
  | nil => simp
  | cons first elements induction =>
    obtain ⟨least, later⟩ := pairwise_cons.mp ordered
    obtain ⟨different, new⟩ := forall_mem_cons.mp new
    rw [orderedInsert_cons]
    by_cases before : keyOf element < keyOf first
    · rw [if_pos before]
      refine pairwise_cons.mpr ⟨fun other inside => ?_, ordered⟩
      rcases mem_cons.mp inside with rfl | inside
      · exact before
      · exact before.trans (least other inside)
    · rw [if_neg before]
      refine pairwise_cons.mpr
        ⟨fun other inside => ?_, induction later new⟩
      rcases (mem_orderedInsert _).mp inside with rfl | inside
      · exact lt_of_le_of_ne (not_lt.mp before) different
      · exact least other inside

end NdNet.InOrder
