import Mathlib.Data.List.Basic

/-!
# Runs of a deterministic machine

A machine is a step function on states; its inputs are chosen from outside.
`states` lists every state a run passes through, the initial one included. The
rules below are the invariant principles used for every machine of this
development.
-/

namespace NdNet.Runs

variable {σ ι : Type}

def states (step : σ → ι → σ) : σ → List ι → List σ
  | state, [] => [state]
  | state, input :: inputs => state :: states step (step state input) inputs

/-- Every step of a run meets `condition` in the state it is taken from. -/
def Meets (step : σ → ι → σ) (condition : σ → ι → Prop) :
    σ → List ι → Prop
  | _, [] => True
  | state, input :: inputs =>
    condition state input ∧ Meets step condition (step state input) inputs

instance {step : σ → ι → σ} {condition : σ → ι → Prop}
    [∀ state input, Decidable (condition state input)] :
    ∀ (state : σ) (inputs : List ι),
      Decidable (Meets step condition state inputs)
  | _, [] => .isTrue trivial
  | state, input :: inputs =>
    have : Decidable (Meets step condition (step state input) inputs) :=
      instDecidableMeets (step state input) inputs
    inferInstanceAs (Decidable (_ ∧ _))

variable {condition : σ → ι → Prop} {step : σ → ι → σ}

theorem meets_of_forall (always : ∀ state input, condition state input)
    (state : σ)
    (inputs : List ι) : Meets step condition state inputs := by
  induction inputs generalizing state with
  | nil => trivial
  | cons input inputs induction => exact ⟨always state input, induction _⟩

variable {inputs : List ι} {state : σ}

theorem Meets.and_forall {allowed : ι → Prop}
    (meets : Meets step condition state inputs)
    (all : ∀ input ∈ inputs, allowed input) :
    Meets step (fun state input => condition state input ∧ allowed input)
      state inputs := by
  induction inputs generalizing state with
  | nil => trivial
  | cons input inputs induction =>
    obtain ⟨first, later⟩ := List.forall_mem_cons.mp all
    exact ⟨⟨meets.1, first⟩, induction meets.2 later⟩

attribute [local simp] Meets in
theorem meets_append {first later : List ι} :
    Meets step condition state (first ++ later) ↔
      Meets step condition state first ∧
        Meets step condition (first.foldl step state) later := by
  induction first generalizing state with
  | nil => simp [Meets]
  | cons input inputs induction =>
    simp only [List.cons_append, Meets, List.foldl_cons, induction, and_assoc]

attribute [local simp] states in
theorem mem_states_self (step : σ → ι → σ) (state : σ) (inputs : List ι) :
    state ∈ states step state inputs := by
  cases inputs <;> simp [states]

theorem foldl_mem_states (step : σ → ι → σ) (state : σ) (inputs : List ι) :
    inputs.foldl step state ∈ states step state inputs := by
  induction inputs generalizing state with
  | nil => simp [states]
  | cons input inputs induction =>
    exact List.mem_cons_of_mem _ (induction (step state input))

/-- A run whose steps all meet a condition under which the invariant is
preserved stays inside the invariant. -/
theorem invariant_of_meets {step : σ → ι → σ} {condition : σ → ι → Prop}
    {invariant : σ → Prop}
    (preserved : ∀ state input, invariant state → condition state input →
      invariant (step state input))
    {state : σ} {inputs : List ι} (initial : invariant state)
    (meets : Meets step condition state inputs) :
    ∀ visited ∈ states step state inputs, invariant visited := by
  induction inputs generalizing state with
  | nil =>
    intro visited member
    rw [states, List.mem_singleton] at member
    exact member ▸ initial
  | cons input inputs induction =>
    intro visited member
    rw [states, List.mem_cons] at member
    rcases member with first | later
    · exact first ▸ initial
    · exact induction (preserved state input initial meets.1) meets.2
        visited later

variable {invariant : σ → Prop}

/-- In a run whose steps keep an invariant under a condition they meet
whatever follows from the two. -/
theorem Meets.of_invariant {condition answered : σ → ι → Prop}
    (follows : ∀ state input, invariant state → condition state input →
      answered state input)
    (preserved : ∀ state input, invariant state → condition state input →
      invariant (step state input))
    (initial : invariant state)
    (meets : Meets step condition state inputs) :
    Meets step answered state inputs := by
  induction inputs generalizing state with
  | nil => trivial
  | cons input inputs induction =>
    exact ⟨follows state input initial meets.1,
      induction (preserved state input initial meets.1) meets.2⟩

/-- In a run that keeps an invariant two conditions that agree under it are met
alike. -/
theorem meets_iff_of_invariant {condition answered : σ → ι → Prop}
    (agree : ∀ state input, invariant state →
      (answered state input ↔ condition state input))
    (preserved : ∀ state input, invariant state → invariant (step state input))
    (initial : invariant state) (inputs : List ι) :
    Meets step answered state inputs ↔ Meets step condition state inputs := by
  induction inputs generalizing state with
  | nil => exact Iff.rfl
  | cons input inputs induction =>
    exact and_congr (agree state input initial)
      (induction (preserved state input initial))

/-- An invariant that every step preserves holds in every state of a run. -/
theorem invariant_of_preserved {step : σ → ι → σ} {invariant : σ → Prop}
    (preserved : ∀ state input, invariant state → invariant (step state input))
    {state : σ} (initial : invariant state) (inputs : List ι) :
    ∀ visited ∈ states step state inputs, invariant visited :=
  invariant_of_meets (fun state input holds _ => preserved state input holds)
    initial (meets_of_forall (fun _ _ => trivial) state inputs)

/-- A law that follows from an invariant holds throughout an allowed run
exactly if all steps meet the condition, when the invariant is preserved by the
steps that meet it and the law is broken by those that do not. -/
theorem law_iff_meets {allowed condition : σ → ι → Prop}
    {invariant law : σ → Prop} (implies : ∀ state, invariant state → law state)
    (preserved : ∀ state input, invariant state → allowed state input →
      condition state input → invariant (step state input))
    (broken : ∀ state input, invariant state → allowed state input →
      ¬ condition state input → ¬ law (step state input))
    (initial : invariant state)
    (legal : Meets step allowed state inputs) :
    (∀ visited ∈ states step state inputs, law visited) ↔
      Meets step condition state inputs := by
  induction inputs generalizing state with
  | nil => simp [states, Meets, implies state initial]
  | cons input inputs induction =>
    simp only [states, List.forall_mem_cons, Meets]
    constructor
    · rintro ⟨_, later⟩
      have next := later _ (mem_states_self step _ inputs)
      have meets : condition state input := by
        by_contra fails
        exact broken state input initial legal.1 fails next
      have kept := preserved state input initial legal.1 meets
      exact ⟨meets, (induction kept legal.2).mp later⟩
    · rintro ⟨meets, later⟩
      have kept := preserved state input initial legal.1 meets
      exact ⟨implies state initial, (induction kept legal.2).mpr later⟩

/-- When an allowed step keeps the invariant exactly if it meets the
condition, an allowed run stays inside the invariant exactly if all its steps
meet the condition. -/
theorem invariant_iff_meets {allowed condition : σ → ι → Prop}
    (exact : ∀ state input, invariant state → allowed state input →
      (invariant (step state input) ↔ condition state input))
    (initial : invariant state)
    (legal : Meets step allowed state inputs) :
    (∀ visited ∈ states step state inputs, invariant visited) ↔
      Meets step condition state inputs :=
  law_iff_meets (fun _ holds => holds)
    (fun state input holds permitted =>
      (exact state input holds permitted).mpr)
    (fun state input holds permitted fails kept =>
      fails ((exact state input holds permitted).mp kept))
    initial legal

theorem foldl_related {τ : Type} {step : σ → ι → σ} {step' : τ → ι → τ}
    {related : σ → τ → Prop}
    (simulates : ∀ state other input, related state other →
      related (step state input) (step' other input))
    {state : σ} {other : τ} (initial : related state other)
    (inputs : List ι) :
    related (inputs.foldl step state) (inputs.foldl step' other) := by
  induction inputs generalizing state other with
  | nil => exact initial
  | cons input inputs induction =>
    exact induction (simulates state other input initial)

section Outputs

variable {τ ω : Type}

/-- What a machine with outputs answers to its inputs, one after the other. -/
def outputs (step : σ → ι → ω × σ) : σ → List ι → List ω
  | _, [] => []
  | state, input :: inputs =>
    (step state input).1 :: outputs step (step state input).2 inputs

/-- Machines that are related step by step, as long as a condition is met, give
the same answers. -/
theorem outputs_eq_of_meets {step : σ → ι → ω × σ} {step' : τ → ι → ω × τ}
    {related : σ → τ → Prop}
    (simulates : ∀ state other input, related state other →
      condition state input →
        (step state input).1 = (step' other input).1 ∧
          related (step state input).2 (step' other input).2)
    {other : τ} (initial : related state other)
    (meets : Meets (fun state input => (step state input).2) condition state
      inputs) :
    outputs step state inputs = outputs step' other inputs := by
  induction inputs generalizing state other with
  | nil => rfl
  | cons input inputs induction =>
    obtain ⟨same, next⟩ := simulates state other input initial meets.1
    rw [outputs, outputs, same, induction next meets.2]

theorem outputs_eq_of_simulation {step : σ → ι → ω × σ} {step' : τ → ι → ω × τ}
    {related : σ → τ → Prop}
    (simulates : ∀ state other input, related state other →
      (step state input).1 = (step' other input).1 ∧
        related (step state input).2 (step' other input).2)
    {other : τ} (initial : related state other)
    (inputs : List ι) :
    outputs step state inputs = outputs step' other inputs :=
  outputs_eq_of_meets
    (fun state other input holds _ => simulates state other input holds)
    initial (meets_of_forall (fun _ _ => trivial) state inputs)

end Outputs

end NdNet.Runs
