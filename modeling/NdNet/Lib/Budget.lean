import Mathlib.Algebra.BigOperators.Group.List.Basic
import Mathlib.Algebra.Order.Monoid.Canonical.Defs
import Mathlib.Data.List.Nodup

/-!
# Amounts within a budget

A user asks for amounts under keys and is given entries that are at least as
large.  `Within` allows the total one entry beyond a budget: this is what a test
of the budget before every entry, and not after it, can promise.  The rules say
that the promise survives the removal of entries, and that it passes from what
was given to what was asked for.
-/

namespace NdNet.Budget

open List

variable {κ α : Type}

section Total

variable [AddCommMonoid α]

def total (entries : List (κ × α)) : α :=
  (entries.map Prod.snd).sum

@[simp] theorem total_cons (entry : κ × α) (entries : List (κ × α)) :
    total (entry :: entries) = entry.2 + total entries := by
  simp [total]

@[simp] theorem total_append (first later : List (κ × α)) :
    total (first ++ later) = total first + total later := by
  simp [total]

theorem total_perm {first later : List (κ × α)} (same : first.Perm later) :
    total first = total later :=
  (same.map Prod.snd).sum_eq

end Total

/-- Every request has an entry of its own under its key, of at least its
amount. -/
structure Matched [LE α] (requests entries : List (κ × α)) : Prop where
  keys : (requests.map Prod.fst).Perm (entries.map Prod.fst)
  distinct : (entries.map Prod.fst).Nodup
  covered : ∀ request ∈ requests, ∃ entry ∈ entries,
    entry.1 = request.1 ∧ request.2 ≤ entry.2

namespace Matched

variable [LE α] {requests entries others : List (κ × α)}
  {request entry : κ × α}

theorem nil : Matched ([] : List (κ × α)) [] where
  keys := .refl _
  distinct := nodup_nil
  covered := by
    intro request member
    exact absurd member not_mem_nil

theorem perm (matched : Matched requests entries)
    (same : others.Perm entries) : Matched requests others where
  keys := matched.keys.trans (same.map Prod.fst).symm
  distinct := (same.map Prod.fst).nodup_iff.mpr matched.distinct
  covered := by
    intro request member
    obtain ⟨entry, here, fits⟩ := matched.covered request member
    exact ⟨entry, same.mem_iff.mpr here, fits⟩

theorem perm_requests (matched : Matched requests entries)
    (same : others.Perm requests) : Matched others entries where
  keys := (same.map Prod.fst).trans matched.keys
  distinct := matched.distinct
  covered := fun request member =>
    matched.covered request (same.mem_iff.mp member)

theorem cons (matched : Matched requests entries)
    (fresh : entry.1 ∉ entries.map Prod.fst) (key : entry.1 = request.1)
    (fits : request.2 ≤ entry.2) :
    Matched (request :: requests) (entry :: entries) where
  keys := by
    rw [map_cons, map_cons, key]
    exact matched.keys.cons _
  distinct := nodup_cons.mpr ⟨fresh, matched.distinct⟩
  covered := by
    refine forall_mem_cons.mpr ⟨?_, ?_⟩
    · exact ⟨entry, mem_cons_self, key, fits⟩
    · intro other member
      obtain ⟨found, here, same⟩ := matched.covered other member
      exact ⟨found, mem_cons_of_mem _ here, same⟩

theorem front (matched : Matched (request :: requests) entries) :
    ∃ entry rest, entries.Perm (entry :: rest) ∧ entry.1 = request.1 ∧
      request.2 ≤ entry.2 ∧ Matched requests rest := by
  obtain ⟨entry, here, key, fits⟩ :=
    matched.covered request mem_cons_self
  obtain ⟨before, after, rfl⟩ := append_of_mem here
  have moved := @perm_middle _ entry before after
  have later := matched.perm moved.symm
  obtain ⟨absent, distinct⟩ := nodup_cons.mp later.distinct
  refine ⟨entry, before ++ after, moved, key, fits, ?_⟩
  have keys := later.keys
  rw [map_cons, map_cons, key] at keys
  refine { keys := keys.cons_inv, distinct := distinct, covered := ?_ }
  intro other member
  obtain ⟨found, there, same, enough⟩ :=
    later.covered other (mem_cons_of_mem _ member)
  refine ⟨found, ?_, same, enough⟩
  refine (mem_cons.mp there).resolve_left ?_
  rintro rfl
  refine absent (keys.cons_inv.mem_iff.mp ?_)
  rw [same]
  exact mem_map_of_mem member

theorem remove [DecidableEq κ] (matched : Matched requests (entry :: entries)) :
    Matched (requests.filter fun request => request.1 ≠ entry.1) entries := by
  obtain ⟨absent, distinct⟩ := nodup_cons.mp matched.distinct
  refine { keys := ?_, distinct := distinct, covered := ?_ }
  · have kept := matched.keys.filter fun key => decide (key ≠ entry.1)
    have all : (entries.map Prod.fst).filter
        (fun key => decide (key ≠ entry.1)) = entries.map Prod.fst := by
      refine filter_eq_self.mpr ?_
      intro key member
      refine decide_eq_true ?_
      rintro rfl
      exact absent member
    rw [map_cons, filter_cons, if_neg (by simp), all, filter_map] at kept
    exact kept
  · intro request member
    obtain ⟨there, different⟩ := mem_filter.mp member
    obtain ⟨found, here, key, fits⟩ := matched.covered request there
    refine ⟨found, ?_, key, fits⟩
    refine (mem_cons.mp here).resolve_left ?_
    rintro rfl
    exact of_decide_eq_true different key.symm

end Matched

section Ordered

variable [AddCommMonoid α] [PartialOrder α]
  {budget : α} {requests entries others : List (κ × α)} {entry : κ × α}

def Within (budget : α) (entries : List (κ × α)) : Prop :=
  total entries ≤ budget ∨ ∃ entry ∈ entries, total entries ≤ budget + entry.2

theorem Within.perm (within : Within budget entries)
    (same : others.Perm entries) : Within budget others := by
  unfold Within at *
  rw [total_perm same]
  rcases within with fits | ⟨entry, member, fits⟩
  · exact .inl fits
  · exact .inr ⟨entry, same.mem_iff.mpr member, fits⟩

variable [IsOrderedCancelAddMonoid α]

theorem within_cons (fits : total entries ≤ budget) (entry : κ × α) :
    Within budget (entry :: entries) := by
  refine .inr ⟨entry, mem_cons_self, ?_⟩
  rw [total_cons, add_comm]
  exact add_le_add_left fits entry.2

theorem Within.tail [CanonicallyOrderedAdd α]
    (within : Within budget (entry :: entries)) : Within budget entries := by
  unfold Within at within
  rcases within with fits | ⟨other, member, fits⟩
  · exact .inl (le_add_self.trans fits)
  · rcases mem_cons.mp member with rfl | there
    · rw [add_comm budget] at fits
      exact .inl (le_of_add_le_add_left fits)
    · exact .inr ⟨other, there, le_add_self.trans fits⟩

theorem Matched.total_le (matched : Matched requests entries) :
    total requests ≤ total entries := by
  induction requests generalizing entries with
  | nil =>
    have none : entries = [] := by
      have keys := matched.keys.symm
      exact map_eq_nil_iff.mp keys.eq_nil
    rw [none]
  | cons request requests induction =>
    obtain ⟨entry, rest, same, _, fits, later⟩ := matched.front
    rw [total_perm same, total_cons, total_cons]
    exact add_le_add fits (induction later)

theorem Matched.within (matched : Matched requests entries)
    (within : Within budget entries) : Within budget requests := by
  rcases within with fits | ⟨entry, member, fits⟩
  · exact .inl (matched.total_le.trans fits)
  have key : entry.1 ∈ requests.map Prod.fst :=
    matched.keys.mem_iff.mpr (mem_map_of_mem member)
  obtain ⟨request, asked, sameKey⟩ := mem_map.mp key
  obtain ⟨before, after, rfl⟩ := append_of_mem asked
  have first := matched.perm_requests (@perm_middle _ _ _ _).symm
  obtain ⟨given, rest, same, givenKey, _, later⟩ := first.front
  have equal : given = entry := by
    have distinct := (first.perm same.symm).distinct
    rcases mem_cons.mp (same.mem_iff.mp member) with equal | there
    · exact equal.symm
    · refine absurd ?_ (nodup_cons.mp distinct).1
      rw [givenKey, sameKey]
      exact mem_map_of_mem there
  rw [total_perm same, total_cons, equal, add_comm budget] at fits
  have most := later.total_le.trans (le_of_add_le_add_left fits)
  exact (within_cons most request).perm perm_middle

end Ordered

end NdNet.Budget
