import Mathlib.Data.List.Basic

/-!
# Computations that touch places

A computation notes every place it touches.  At the first place that is not its
own it is lost: what it does from there on depends on things nobody promised,
so it has no result.  `Sound` says that a computation is lost exactly if it
touches such a place.  Composition keeps this, so for a program made of single
touches the places need not be followed: it stays at home if and only if it has
a result.
-/

namespace NdNet

/-- The places touched, in order, and the result if there is one. -/
structure Access (π α : Type) where
  touched : List π
  result : Option α

namespace Access

variable {π α β : Type}

protected def pure (value : α) : Access π α :=
  ⟨[], some value⟩

protected def bind (first : Access π α) (next : α → Access π β) :
    Access π β :=
  match first.result with
  | none => ⟨first.touched, none⟩
  | some value =>
      ⟨first.touched ++ (next value).touched, (next value).result⟩

instance : Monad (Access π) where
  pure := Access.pure
  bind := Access.bind

/-- One place is touched and what is there is found, unless it is not there. -/
def reach (place : π) (content : Option α) : Access π α :=
  ⟨[place], content⟩

def touch (own : π → Prop) [DecidablePred own] (place : π) : Access π Unit :=
  reach place (if own place then some () else none)

@[simp] theorem result_pure (value : α) :
    (pure value : Access π α).result = some value :=
  rfl

@[simp] theorem touched_pure (value : α) :
    (pure value : Access π α).touched = [] :=
  rfl

@[simp] theorem result_bind (first : Access π α) (next : α → Access π β) :
    (first >>= next).result =
      first.result.bind fun value => (next value).result := by
  change (Access.bind first next).result = _
  unfold Access.bind
  cases first.result <;> rfl

@[simp] theorem result_reach (place : π) (content : Option α) :
    (reach place content).result = content :=
  rfl

@[simp] theorem result_touch (own : π → Prop) [DecidablePred own] (place : π) :
    (touch own place).result = if own place then some () else none :=
  rfl

/-- The computation has a result exactly if all the places are its own. -/
def Sound (own : π → Prop) (access : Access π α) : Prop :=
  access.result.isSome ↔ ∀ place ∈ access.touched, own place

variable {own : π → Prop}

theorem sound_pure (value : α) : Sound own (pure value : Access π α) := by
  simp [Sound]

theorem sound_reach {place : π} {content : Option α}
    (found : content.isSome ↔ own place) :
    Sound own (reach place content) := by
  simp [Sound, reach, found]

theorem sound_touch [DecidablePred own] (place : π) :
    Sound own (touch own place) := by
  apply sound_reach
  by_cases mine : own place <;> simp [mine]

theorem sound_bind {first : Access π α} {next : α → Access π β}
    (begins : Sound own first)
    (goesOn : ∀ value, first.result = some value → Sound own (next value)) :
    Sound own (first >>= next) := by
  change Sound own (Access.bind first next)
  unfold Access.bind
  cases outcome : first.result with
  | none =>
      have lost : ¬ ∀ place ∈ first.touched, own place := by
        intro all
        have found := begins.mpr all
        rw [outcome] at found
        exact absurd found Bool.false_ne_true
      simp [Sound, lost]
  | some value =>
      have home : ∀ place ∈ first.touched, own place := by
        refine begins.mp ?_
        rw [outcome]
        rfl
      have later := goesOn value outcome
      unfold Sound at later ⊢
      rw [later]
      constructor
      · intro all place member
        rcases List.mem_append.mp member with early | late
        · exact home place early
        · exact all place late
      · intro all place member
        exact all place (List.mem_append_right _ member)

theorem sound_ite {condition : Prop} [Decidable condition]
    {first second : Access π α} (yes : condition → Sound own first)
    (no : ¬ condition → Sound own second) :
    Sound own (if condition then first else second) := by
  by_cases holds : condition
  · rw [if_pos holds]
    exact yes holds
  · rw [if_neg holds]
    exact no holds

end Access

end NdNet
