import Mathlib.Data.List.Perm.Basic
import Mathlib.Data.List.Nodup

/-!
# Delivery of messages, as a ledger

A queue hands out messages to a receiver that may take a message or refuse it.
The ledger keeps three lists: the messages sent, the hand-outs with the answers
of the receiver, and the messages pending. `Law` says that messages are
delivered exactly once and, as far as they are not refused, in the order of
each sender.
-/

namespace NdNet.Ledger

open List

variable {μ τ : Type}

/-- The messages the receiver has taken, in the order of the hand-outs. -/
def taken (handed : List (μ × Bool)) : List μ :=
  (handed.filter fun entry => entry.2).map Prod.fst

@[simp] theorem taken_append (handed : List (μ × Bool)) (msg : μ) (took : Bool) :
    taken (handed ++ [(msg, took)]) =
      taken handed ++ if took then [msg] else [] := by
  unfold taken
  cases took <;> simp

theorem mem_taken {handed : List (μ × Bool)} {msg : μ} :
    msg ∈ taken handed ↔ (msg, true) ∈ handed := by
  simp [taken]

variable [DecidableEq μ] [DecidableEq τ]

def unrefused (handed : List (μ × Bool)) : List μ :=
  (taken handed).filter fun msg => (msg, false) ∉ handed

def fresh (handed : List (μ × Bool)) (pending : List μ) : List μ :=
  pending.filter fun msg => msg ∉ handed.map Prod.fst

/-- A message that was sent is either pending or was taken, once; what was
taken is not handed out again; and the messages of a sender that were never
refused are taken in the order of sending. -/
structure Law (sender : μ → τ) (sent : List μ) (handed : List (μ × Bool))
    (pending : List μ) : Prop where
  distinct : sent.Nodup
  kept : (taken handed ++ pending).Perm sent
  once : handed.Pairwise fun earlier later =>
    earlier.1 = later.1 → earlier.2 = false
  inOrder : ∀ origin,
    ((unrefused handed).filter fun msg => sender msg = origin).Sublist
      (sent.filter fun msg => sender msg = origin)

/-- The law, with the messages that are still to come in their order. -/
structure Keeps (sender : μ → τ) (sent : List μ) (handed : List (μ × Bool))
    (pending : List μ) : Prop where
  distinct : sent.Nodup
  known : ∀ entry ∈ handed, entry.1 ∈ sent
  kept : (taken handed ++ pending).Perm sent
  once : handed.Pairwise fun earlier later =>
    earlier.1 = later.1 → earlier.2 = false
  inOrder : ∀ origin,
    ((unrefused handed ++ fresh handed pending).filter
      fun msg => sender msg = origin).Sublist
      (sent.filter fun msg => sender msg = origin)

theorem unrefused_append_true (handed : List (μ × Bool)) (msg : μ) :
    unrefused (handed ++ [(msg, true)]) =
      unrefused handed ++ if (msg, false) ∈ handed then [] else [msg] := by
  unfold unrefused
  rw [taken_append, if_pos rfl, filter_append]
  congr 1
  · apply filter_congr
    intro other _
    simp
  · by_cases refused : (msg, false) ∈ handed <;> simp [refused]

variable {sender : μ → τ} {sent : List μ} {handed : List (μ × Bool)}
  {pending : List μ} {msg : μ}

theorem Keeps.law (keeps : Keeps sender sent handed pending) :
    Law sender sent handed pending where
  distinct := keeps.distinct
  kept := keeps.kept
  once := keeps.once
  inOrder := by
    intro origin
    have all := keeps.inOrder origin
    rw [filter_append] at all
    exact (sublist_append_left _ _).trans all

theorem Keeps.nil : Keeps sender [] [] [] where
  distinct := nodup_nil
  known := by simp
  kept := .refl _
  once := .nil
  inOrder := by
    intro origin
    exact List.Sublist.refl _

theorem not_law_of_lost (was : msg ∈ sent) (untaken : msg ∉ taken handed)
    (gone : msg ∉ pending) : ¬ Law sender sent handed pending := by
  intro law
  rcases mem_append.mp (law.kept.mem_iff.mpr was) with here | here
  · exact untaken here
  · exact gone here

section

variable (keeps : Keeps sender sent handed pending)
include keeps

theorem Keeps.distinct_pending :
    (taken handed ++ pending).Nodup :=
  keeps.kept.nodup_iff.mpr keeps.distinct

theorem Keeps.pending_sent
    (waiting : msg ∈ pending) : msg ∈ sent :=
  keeps.kept.mem_iff.mp (mem_append_right _ waiting)

theorem Keeps.untaken
    (waiting : msg ∈ pending) : msg ∉ taken handed := by
  intro was
  exact (nodup_append.mp keeps.distinct_pending).2.2 msg was msg waiting rfl

theorem Keeps.refused_iff (waiting : msg ∈ pending) :
    msg ∈ handed.map Prod.fst ↔ (msg, false) ∈ handed := by
  constructor
  · intro was
    obtain ⟨⟨other, took⟩, entry, rfl⟩ := mem_map.mp was
    cases took with
    | true => exact absurd (mem_taken.mpr entry) (keeps.untaken waiting)
    | false => exact entry
  · intro was
    exact mem_map_of_mem (f := Prod.fst) was

theorem Keeps.append (new : msg ∉ sent) :
    Keeps sender (sent ++ [msg]) handed (pending ++ [msg]) where
  distinct := by
    rw [nodup_append]
    refine ⟨keeps.distinct, nodup_singleton msg, ?_⟩
    intro other member single isSingle same
    rw [mem_singleton.mp isSingle] at same
    exact new (same ▸ member)
  known := fun entry member =>
    mem_append_left _ (keeps.known entry member)
  kept := by
    rw [← append_assoc]
    exact keeps.kept.append_right [msg]
  once := keeps.once
  inOrder := by
    intro origin
    have unknown : msg ∉ handed.map Prod.fst := by
      intro was
      obtain ⟨entry, member, rfl⟩ := mem_map.mp was
      exact new (keeps.known entry member)
    have more : fresh handed (pending ++ [msg]) =
        fresh handed pending ++ [msg] := by
      unfold fresh
      rw [filter_append, filter_cons,
        if_pos (decide_eq_true unknown), filter_nil]
    have last := (keeps.inOrder origin).append
      (List.Sublist.refl ([msg].filter fun msg => sender msg = origin))
    rw [more, ← append_assoc]
    rw [← filter_append, ← filter_append] at last
    exact last

end

theorem Keeps.take (keeps : Keeps sender sent handed (msg :: pending)) :
    Keeps sender sent (handed ++ [(msg, true)]) pending := by
  have waiting : msg ∈ msg :: pending := mem_cons_self
  have untaken := keeps.untaken waiting
  have refused := keeps.refused_iff waiting
  have single : msg ∉ pending := by
    have apart := (nodup_append.mp keeps.distinct_pending).2.1
    exact (nodup_cons.mp apart).1
  constructor
  case distinct => exact keeps.distinct
  case known =>
    intro entry member
    rcases mem_append.mp member with old | new
    · exact keeps.known entry old
    · rw [mem_singleton.mp new]
      exact keeps.pending_sent waiting
  case kept =>
    rw [taken_append, if_pos rfl, append_assoc]
    exact keeps.kept
  case once =>
    rw [pairwise_append]
    refine ⟨keeps.once, pairwise_singleton _ _, ?_⟩
    rintro ⟨other, took⟩ earlier entry new same
    rw [mem_singleton.mp new] at same
    cases took with
    | true =>
      have same : other = msg := same
      exact absurd (mem_taken.mpr (same ▸ earlier)) untaken
    | false => rfl
  case inOrder =>
    intro origin
    have still : fresh (handed ++ [(msg, true)]) pending =
        fresh handed pending := by
      apply filter_congr
      intro other member
      have differs : other ≠ msg := fun same => single (same ▸ member)
      simp [differs]
    have same : unrefused (handed ++ [(msg, true)]) ++
        fresh (handed ++ [(msg, true)]) pending =
          unrefused handed ++ fresh handed (msg :: pending) := by
      rw [unrefused_append_true, still, append_assoc]
      congr 1
      unfold fresh
      rw [filter_cons]
      by_cases was : (msg, false) ∈ handed
      · have known : ¬ decide (msg ∉ handed.map Prod.fst) = true :=
          fun unknown => of_decide_eq_true unknown (refused.mpr was)
        rw [if_pos was, if_neg known, nil_append]
      · have unknown : msg ∉ handed.map Prod.fst :=
          fun known => was (refused.mp known)
        rw [if_neg was, if_pos (decide_eq_true unknown), singleton_append]
    rw [same]
    exact keeps.inOrder origin

theorem Keeps.refuse {front back : List μ}
    (keeps : Keeps sender sent handed (msg :: (front ++ back))) :
    Keeps sender sent (handed ++ [(msg, false)]) (front ++ msg :: back) := by
  have waiting : msg ∈ msg :: (front ++ back) := mem_cons_self
  have untaken := keeps.untaken waiting
  constructor
  case distinct => exact keeps.distinct
  case known =>
    intro entry member
    rcases mem_append.mp member with old | new
    · exact keeps.known entry old
    · rw [mem_singleton.mp new]
      exact keeps.pending_sent waiting
  case kept =>
    rw [taken_append, if_neg Bool.false_ne_true, append_nil]
    exact (perm_middle.append_left _).trans keeps.kept
  case once =>
    rw [pairwise_append]
    refine ⟨keeps.once, pairwise_singleton _ _, ?_⟩
    rintro ⟨other, took⟩ earlier entry new same
    rw [mem_singleton.mp new] at same
    cases took with
    | true =>
      have same : other = msg := same
      exact absurd (mem_taken.mpr (same ▸ earlier)) untaken
    | false => rfl
  case inOrder =>
    intro origin
    have still : unrefused (handed ++ [(msg, false)]) = unrefused handed := by
      unfold unrefused
      rw [taken_append, if_neg Bool.false_ne_true, append_nil]
      apply filter_congr
      intro other member
      have differs : other ≠ msg := fun same => untaken (same ▸ member)
      simp [differs]
    have fewer : (fresh (handed ++ [(msg, false)]) (front ++ msg :: back)).Sublist
        (fresh handed (msg :: (front ++ back))) := by
      have dropped : fresh (handed ++ [(msg, false)]) (front ++ msg :: back) =
          fresh (handed ++ [(msg, false)]) (front ++ back) := by
        simp [fresh]
      have weaker : (fresh (handed ++ [(msg, false)]) (front ++ back)).Sublist
          (fresh handed (front ++ back)) := by
        refine monotone_filter_right _ ?_
        intro other new
        simp only [map_append, mem_append, not_or, decide_eq_true_eq] at new ⊢
        exact new.1
      rw [dropped]
      refine weaker.trans ?_
      exact (sublist_cons_self msg _).filter _
    rw [still]
    exact (((List.Sublist.refl _).append fewer).filter _).trans
      (keeps.inOrder origin)

theorem Keeps.takeNew (keeps : Keeps sender sent handed pending)
    (new : msg ∉ sent) (none : ∀ other ∈ pending, sender other ≠ sender msg) :
    Keeps sender (sent ++ [msg]) (handed ++ [(msg, true)]) pending := by
  have unknown : ∀ took, (msg, took) ∉ handed :=
    fun took was => new (keeps.known _ was)
  have unwaiting : msg ∉ pending := fun was => new (keeps.pending_sent was)
  constructor
  case distinct => exact (keeps.append new).distinct
  case known =>
    intro entry member
    rcases mem_append.mp member with old | last
    · exact mem_append_left _ (keeps.known entry old)
    · rw [mem_singleton.mp last]
      exact mem_append_right _ (mem_singleton_self msg)
  case kept =>
    rw [taken_append, if_pos rfl, append_assoc]
    refine (List.Perm.append_left _ perm_append_comm).trans ?_
    rw [← append_assoc]
    exact keeps.kept.append_right [msg]
  case once =>
    rw [pairwise_append]
    refine ⟨keeps.once, pairwise_singleton _ _, ?_⟩
    rintro ⟨other, took⟩ earlier entry last same
    rw [mem_singleton.mp last] at same
    have same : other = msg := same
    exact absurd (same ▸ earlier) (unknown took)
  case inOrder =>
    intro origin
    have still : fresh (handed ++ [(msg, true)]) pending =
        fresh handed pending := by
      apply filter_congr
      intro other member
      have differs : other ≠ msg := fun same => unwaiting (same ▸ member)
      simp [differs]
    have before := keeps.inOrder origin
    rw [unrefused_append_true, if_neg (unknown false), still]
    rw [filter_append] at before
    rw [filter_append, filter_append, filter_append]
    by_cases own : sender msg = origin
    · have empty : (fresh handed pending).filter
          (fun other => sender other = origin) = [] := by
        apply filter_eq_nil_iff.mpr
        intro other member
        have foreign := none other (mem_of_mem_filter member)
        rw [own] at foreign
        simpa using foreign
      rw [empty, append_nil] at before ⊢
      exact before.append (List.Sublist.refl _)
    · simp only [filter_cons, own, decide_false, Bool.false_eq_true,
        if_false, filter_nil, append_nil]
      exact before

end NdNet.Ledger
