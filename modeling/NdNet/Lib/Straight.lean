import Mathlib.Data.List.Basic

/-!
# Straight-line programs

A program is a list of instructions, each of which may fail.  `Finishes` is a triple
for such programs: from a state, the program comes to a state as promised, or it
fails and there is an excuse for that.
-/

namespace NdNet.Straight

variable {σ ι ε : Type} {step : σ → ι → Except ε σ}

/-- The program runs to a state that satisfies `post`, or it fails and there is
an excuse. -/
def Finishes (step : σ → ι → Except ε σ) (excuse : Prop) (state : σ)
    (program : List ι) (post : σ → Prop) : Prop :=
  (∃ after, program.foldlM step state = .ok after ∧ post after) ∨
    (∃ fault, program.foldlM step state = .error fault) ∧ excuse

variable {excuse other : Prop} {state after : σ} {instruction : ι}
  {first second : List ι} {post final : σ → Prop}

theorem Finishes.nil (holds : post state) : Finishes step excuse state [] post :=
  .inl ⟨state, rfl, holds⟩

theorem Finishes.cons (result : step state instruction = .ok after)
    (rest : Finishes step excuse after first post) :
    Finishes step excuse state (instruction :: first) post := by
  rw [Finishes, List.foldlM_cons, result]
  exact rest

theorem Finishes.fail {fault : ε} (result : step state instruction = .error fault)
    (fails : excuse) : Finishes step excuse state (instruction :: first) post := by
  refine .inr ⟨⟨fault, ?_⟩, fails⟩
  rw [List.foldlM_cons, result]
  rfl

theorem Finishes.append (begins : Finishes step excuse state first post)
    (goes : ∀ after, post after → Finishes step excuse after second final) :
    Finishes step excuse state (first ++ second) final := by
  rcases begins with ⟨middle, run, holds⟩ | ⟨⟨fault, run⟩, fails⟩
  · rw [Finishes, List.foldlM_append, run]
    exact goes middle holds
  · refine .inr ⟨⟨fault, ?_⟩, fails⟩
    rw [List.foldlM_append, run]
    rfl

variable (ends : Finishes step excuse state first post)
include ends

theorem Finishes.weaken
    (more : excuse → other) : Finishes step other state first post := by
  rcases ends with good | ⟨bad, fails⟩
  · exact .inl good
  · exact .inr ⟨bad, more fails⟩

theorem Finishes.imp (less : ∀ after, post after → final after) :
    Finishes step excuse state first final := by
  rcases ends with ⟨after, run, holds⟩ | bad
  · exact .inl ⟨after, run, less after holds⟩
  · exact .inr bad

theorem Finishes.ok (good : ¬ excuse) :
    ∃ after, first.foldlM step state = .ok after ∧ post after := by
  rcases ends with ran | ⟨-, bad⟩
  · exact ran
  · exact absurd bad good

theorem Finishes.of_ok
    (ran : first.foldlM step state = .ok after) : post after := by
  rcases ends with ⟨last, run, holds⟩ | ⟨⟨fault, run⟩, -⟩
  · rw [run] at ran
    cases ran
    exact holds
  · rw [run] at ran
    cases ran

end NdNet.Straight
