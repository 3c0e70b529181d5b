import Mathlib.Data.List.Basic

/-!
# Loops that drain a buffer

A parser that is fed piece by piece works in passes: it looks at what it holds,
takes off what it understands and goes on, until a pass tells it to stop.  Such
a loop is run with a budget of passes, and described by a relation that does
not know the budget.  A measure that falls with every pass that goes on gives
the budget that is always enough.
-/

namespace NdNet

/-- What a pass leaves, and whether there is another one. -/
inductive Pass (σ : Type) where
  | stop (state : σ)
  | again (state : σ)

namespace Pass

variable {σ τ : Type} {pass : σ → Option (Pass σ)} {s t u : σ}

def map (f : σ → τ) : Pass σ → Pass τ
  | .stop t => .stop (f t)
  | .again t => .again (f t)

def state : Pass σ → σ
  | .stop t => t
  | .again t => t

/-- The loop, with a budget of passes; a pass may fail. -/
def drain (pass : σ → Option (Pass σ)) : Nat → σ → Option σ
  | 0, _ => none
  | fuel + 1, s =>
    match pass s with
    | none => none
    | some (.stop t) => some t
    | some (.again t) => drain pass fuel t

/-- The loop goes from one state to another. -/
inductive Drains (pass : σ → Option (Pass σ)) : σ → σ → Prop where
  | stop {s t : σ} : pass s = some (.stop t) → Drains pass s t
  | again {s t u : σ} : pass s = some (.again t) → Drains pass t u →
      Drains pass s u

theorem drains_again_iff (goes : pass s = some (.again t)) :
    Drains pass s u ↔ Drains pass t u := by
  constructor
  · intro drains
    cases drains with
    | stop stops =>
      rw [goes] at stops
      cases stops
    | again other rest =>
      rw [goes] at other
      cases other
      exact rest
  · exact .again goes

theorem drains_stop_iff (stops : pass s = some (.stop t)) :
    Drains pass s u ↔ t = u := by
  constructor
  · intro drains
    cases drains with
    | stop other =>
      rw [stops] at other
      cases other
      rfl
    | again goes =>
      rw [stops] at goes
      cases goes
  · rintro rfl
    exact .stop stops

theorem drains_congr (same : pass s = pass t) :
    Drains pass s u ↔ Drains pass t u := by
  constructor
  · intro drains
    cases drains with
    | stop stops => exact .stop (same.symm.trans stops)
    | again goes rest => exact .again (same.symm.trans goes) rest
  · intro drains
    cases drains with
    | stop stops => exact .stop (same.trans stops)
    | again goes rest => exact .again (same.trans goes) rest

theorem drains_of_drain {fuel : Nat} (result : drain pass fuel s = some t) :
    Drains pass s t := by
  induction fuel generalizing s with
  | zero => cases result
  | succ fuel induction =>
    rw [drain] at result
    split at result
    · cases result
    · rename_i stops
      cases result
      exact .stop stops
    · rename_i goes
      exact .again goes (induction result)

theorem drain_eq_some_iff {measure : σ → Nat}
    (falls : ∀ s t, pass s = some (.again t) → measure t < measure s)
    {fuel : Nat} (enough : measure s < fuel) :
    drain pass fuel s = some t ↔ Drains pass s t := by
  constructor
  · exact drains_of_drain
  · intro drains
    induction drains generalizing fuel with
    | stop stops =>
      obtain ⟨fuel, rfl⟩ := Nat.exists_eq_succ_of_ne_zero
        (Nat.ne_of_gt (Nat.zero_lt_of_lt enough))
      rw [drain, stops]
    | again goes _ induction =>
      obtain ⟨fuel, rfl⟩ := Nat.exists_eq_succ_of_ne_zero
        (Nat.ne_of_gt (Nat.zero_lt_of_lt enough))
      rw [drain, goes]
      have less := falls _ _ goes
      exact induction (by omega)

theorem Drains.map {view : τ → Option (Pass τ)} {f : σ → τ}
    (seen : ∀ s next, pass s = some next → view (f s) = some (next.map f))
    (drains : Drains pass s t) : Drains view (f s) (f t) := by
  induction drains with
  | stop stops => exact .stop (seen _ _ stops)
  | again goes _ induction => exact .again (seen _ _ goes) induction

theorem Drains.lift {view : τ → Option (Pass τ)} {f : σ → τ} {seen end_ : τ}
    {holds : σ → Prop} (start : f s = seen) (invariant : holds s)
    (follows : ∀ s next, holds s → view (f s) = some next →
      ∃ pass_, pass s = some pass_ ∧ pass_.map f = next ∧ holds pass_.state)
    (drains : Drains view seen end_) :
    ∃ t, Drains pass s t ∧ f t = end_ ∧ holds t := by
  induction drains generalizing s with
  | stop stops =>
    subst start
    obtain ⟨next, passed, same, kept⟩ := follows _ _ invariant stops
    cases next with
    | stop t =>
      cases same
      exact ⟨t, .stop passed, rfl, kept⟩
    | again t => cases same
  | again goes _ induction =>
    subst start
    obtain ⟨next, passed, same, kept⟩ := follows _ _ invariant goes
    cases next with
    | stop t => cases same
    | again t =>
      cases same
      obtain ⟨u, rest, ends, still⟩ := induction rfl kept
      exact ⟨u, .again passed rest, ends, still⟩

end Pass

end NdNet
