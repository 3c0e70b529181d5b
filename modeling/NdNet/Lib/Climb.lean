import Mathlib.Data.List.Basic

/-!
# Grouping by levels

A list of operands with operators between them, each operator with a level.  A
walk combines operands from left to right; where the next operator binds
stronger, the operand it belongs to starts a walk of its own.  `Climbs` says how
such a walk groups the list if an inner walk goes on as long as it meets levels
that are not below the level it was started from, this level included.

`chainTree` is what becomes of a chain of operators of one level: an operand
that has operators inside swallows the rest of the chain.
-/

namespace NdNet.Climb

open List

/-- An operator with its level, and the operand behind it. -/
structure Item (ω α : Type) where
  op : ω
  level : Int
  operand : α

variable {ω α τ : Type}

/-- The level of the first operator satisfies `bound`, if there is one. -/
def Head (bound : Int → Prop) (items : List (Item ω α)) : Prop :=
  ∀ item ∈ items.head?, bound item.level

/-- `previous` does not stop a walk at `level`. -/
def Reaches (previous : Option Int) (level : Int) : Prop :=
  ∀ bound ∈ previous, bound ≤ level

/-- The walk with `tree` on its left over the items ends with a tree and the
items it has not reached. -/
inductive Climbs (leaf : α → τ) (node : ω → τ → τ → τ) :
    Option Int → τ → List (Item ω α) → τ → List (Item ω α) → Prop where
  | done {previous : Option Int} {tree : τ} :
      Climbs leaf node previous tree [] tree []
  | stop {previous : Option Int} {tree : τ} {item : Item ω α}
      {rest : List (Item ω α)} (below : ¬ Reaches previous item.level) :
      Climbs leaf node previous tree (item :: rest) tree (item :: rest)
  | plain {previous : Option Int} {tree result : τ} {item : Item ω α}
      {rest stopped : List (Item ω α)}
      (reaches : Reaches previous item.level)
      (weaker : Head (· ≤ item.level) rest)
      (later : Climbs leaf node previous
        (node item.op tree (leaf item.operand)) rest result stopped) :
      Climbs leaf node previous tree (item :: rest) result stopped
  | group {previous : Option Int} {tree inner result : τ} {item : Item ω α}
      {rest behind stopped : List (Item ω α)}
      (reaches : Reaches previous item.level)
      (stronger : ∃ next ∈ rest.head?, item.level < next.level)
      (walk : Climbs leaf node (some item.level) (leaf item.operand) rest
        inner behind)
      (later : Climbs leaf node previous (node item.op tree inner) behind
        result stopped) :
      Climbs leaf node previous tree (item :: rest) result stopped

variable {items stopped : List (Item ω α)} {previous : Option Int}

theorem Climbs.head {leaf : α → τ} {node : ω → τ → τ → τ} {tree result : τ}
    (walk : Climbs leaf node previous tree items result stopped) :
    Head (fun level => ¬ Reaches previous level) stopped := by
  induction walk with
  | done =>
    intro item member
    cases member
  | stop below =>
    intro item member
    rw [head?_cons, Option.mem_some_iff] at member
    subst member
    exact below
  | plain reaches weaker later induction
  | group reaches stronger walk later inner induction => exact induction

theorem Climbs.mem_of_mem_stopped {leaf : α → τ} {node : ω → τ → τ → τ}
    {tree result : τ}
    (walk : Climbs leaf node previous tree items result stopped) :
    ∀ item ∈ stopped, item ∈ items := by
  induction walk with
  | done | stop below => exact fun _ member => member
  | plain reaches weaker later induction =>
    exact fun item member => mem_cons_of_mem _ (induction item member)
  | group reaches stronger walk later inner induction =>
    exact fun item member =>
      mem_cons_of_mem _ (inner item (induction item member))

theorem Climbs.closed {leaf : α → τ} {node : ω → τ → τ → τ} {holds : τ → Prop}
    (kept : ∀ op left right, holds left → holds right →
      holds (node op left right))
    {previous : Option Int} {tree result : τ} {items stopped : List (Item ω α)}
    (walk : Climbs leaf node previous tree items result stopped)
    (first : holds tree) (others : ∀ item ∈ items, holds (leaf item.operand)) :
    holds result := by
  induction walk with
  | done | stop below => exact first
  | plain reaches weaker later induction =>
    obtain ⟨own, rest⟩ := forall_mem_cons.mp others
    exact induction (kept _ _ _ first own) rest
  | group reaches stronger walk later inner induction =>
    obtain ⟨own, rest⟩ := forall_mem_cons.mp others
    refine induction (kept _ _ _ first (inner own rest)) ?_
    exact fun item member => rest item (walk.mem_of_mem_stopped item member)

theorem Climbs.map {leaf : α → τ} {node : ω → τ → τ → τ} {υ : Type}
    {node' : ω → υ → υ → υ} (image : τ → υ)
    (commutes : ∀ op left right,
      image (node op left right) = node' op (image left) (image right))
    {tree result : τ}
    (walk : Climbs leaf node previous tree items result stopped) :
    Climbs (fun operand => image (leaf operand)) node' previous (image tree)
      items (image result) stopped := by
  induction walk with
  | done => exact .done
  | stop below => exact .stop below
  | plain reaches weaker later induction =>
    rw [commutes] at induction
    exact .plain reaches weaker induction
  | group reaches stronger walk later inner induction =>
    rw [commutes] at induction
    exact .group reaches stronger inner induction

/-- A phrase in a list: its first operand, the items behind it, and the tree it
is grouped to. -/
structure Phrase (ω α τ : Type) where
  first : α
  items : List (Item ω α)
  tree : τ

/-- All levels of the phrase are above `bound`, and a walk that starts with it
groups it to its tree before it goes on. -/
structure Reads (leaf : α → τ) (node : ω → τ → τ → τ) (bound : Int)
    (phrase : Phrase ω α τ) : Prop where
  above : ∀ item ∈ phrase.items, bound < item.level
  single : phrase.items = [] → phrase.tree = leaf phrase.first
  walk : ∀ {previous : Option Int} {rest stopped : List (Item ω α)}
    {result : τ}, Reaches previous bound → Head (· ≤ bound) rest →
    Climbs leaf node previous phrase.tree rest result stopped →
    Climbs leaf node previous (leaf phrase.first) (phrase.items ++ rest) result
      stopped

theorem Reads.single_operand {leaf : α → τ} {node : ω → τ → τ → τ} (bound : Int)
    (operand : α) :
    Reads leaf node bound ⟨operand, [], leaf operand⟩ :=
  { above := by simp
    single := fun _ => rfl
    walk := fun _ _ walk => walk }

theorem Reads.weaken {leaf : α → τ} {node : ω → τ → τ → τ} {bound lower : Int}
    {phrase : Phrase ω α τ} (reads : Reads leaf node bound phrase)
    (le : lower ≤ bound) :
    Reads leaf node lower phrase := by
  refine
    { above := fun item member => Int.lt_of_le_of_lt le (reads.above item member)
      single := reads.single
      walk := fun reaches low walk => reads.walk ?_ ?_ walk }
  · intro level member
    exact Int.le_trans (reaches level member) le
  · intro item member
    exact Int.le_trans (low item member) le

section Chain

abbrev Links (ω α τ : Type) := List (ω × Phrase ω α τ)

def chainItems (level : Int) (links : Links ω α τ) : List (Item ω α) :=
  links.flatMap fun link => ⟨link.1, level, link.2.first⟩ :: link.2.items

/-- What a chain is grouped to behind `tree`. -/
def chainTree (node : ω → τ → τ → τ) : τ → Links ω α τ → τ
  | tree, [] => tree
  | tree, (op, phrase) :: links =>
    if phrase.items.isEmpty then
      chainTree node (node op tree phrase.tree) links
    else node op tree (chainTree node phrase.tree links)

variable {leaf : α → τ} {node : ω → τ → τ → τ} {level : Int}

theorem chainItems_cons (op : ω) (phrase : Phrase ω α τ) (links : Links ω α τ) :
    chainItems level ((op, phrase) :: links) =
      ⟨op, level, phrase.first⟩ :: (phrase.items ++ chainItems level links) :=
  rfl

theorem head_chainItems {links : Links ω α τ} {rest : List (Item ω α)}
    (low : Head (· ≤ level) rest) :
    Head (· ≤ level) (chainItems level links ++ rest) := by
  cases links with
  | nil => exact low
  | cons link links =>
    intro item member
    rw [chainItems_cons, cons_append, head?_cons, Option.mem_some_iff] at member
    subst member
    exact Int.le_refl _

theorem climbs_chain {links : Links ω α τ}
    (reads : ∀ link ∈ links, Reads leaf node level link.2) {tree result : τ}
    {rest stopped : List (Item ω α)} (reaches : Reaches previous level)
    (low : Head (· < level) rest)
    (walk : Climbs leaf node previous (chainTree node tree links) rest result
      stopped) :
    Climbs leaf node previous tree (chainItems level links ++ rest) result
      stopped := by
  induction links generalizing previous tree result stopped with
  | nil => exact walk
  | cons link links induction =>
    obtain ⟨op, phrase⟩ := link
    obtain ⟨first, others⟩ := forall_mem_cons.mp reads
    have behind : Head (· ≤ level) (chainItems level links ++ rest) :=
      head_chainItems fun item member => Int.le_of_lt (low item member)
    rw [chainItems_cons, cons_append, append_assoc]
    by_cases empty : phrase.items = []
    · rw [chainTree, if_pos (by simp [empty]), first.single empty] at walk
      rw [empty, nil_append]
      exact .plain reaches behind (induction others reaches walk)
    · rw [chainTree, if_neg (by simpa using empty)] at walk
      have inner : Climbs leaf node (some level) phrase.tree
          (chainItems level links ++ rest)
          (chainTree node phrase.tree links) rest := by
        refine induction others ?_ ?_
        · intro bound member
          rw [Option.mem_some_iff] at member
          exact Int.le_of_eq member.symm
        · -- the inner walk ends where the chain does
          cases rest with
          | nil => exact .done
          | cons item rest =>
            have below : item.level < level := low item (by simp)
            refine .stop fun reached => ?_
            exact Int.not_le.mpr below (reached level (by simp))
      refine .group reaches ?_ (first.walk ?_ behind inner) walk
      · obtain ⟨item, items, split⟩ := exists_cons_of_ne_nil empty
        exact ⟨item, by simp [split], first.above item (by simp [split])⟩
      · intro bound member
        rw [Option.mem_some_iff] at member
        exact Int.le_of_eq member.symm

theorem Reads.chain {phrase : Phrase ω α τ} {links : Links ω α τ}
    (first : Reads leaf node level phrase)
    (reads : ∀ link ∈ links, Reads leaf node level link.2) :
    Reads leaf node (level - 1)
      ⟨phrase.first, phrase.items ++ chainItems level links,
        chainTree node phrase.tree links⟩ := by
  refine
    { above := ?_
      single := ?_
      walk := ?_ }
  · intro item member
    rcases mem_append.mp member with early | late
    · have := first.above item early
      omega
    rw [chainItems, mem_flatMap] at late
    obtain ⟨link, present, late⟩ := late
    rcases mem_cons.mp late with own | inside
    · subst own
      show level - 1 < level
      omega
    · have := (reads link present).above item inside
      omega
  · intro empty
    obtain ⟨none, nothing⟩ := append_eq_nil_iff.mp empty
    cases links with
    | nil => exact first.single none
    | cons link links => cases nothing
  · intro previous rest stopped result reaches low walk
    have reached : Reaches previous level := by
      intro bound member
      have := reaches bound member
      omega
    have lower : Head (· < level) rest := by
      intro item member
      have : item.level ≤ level - 1 := low item member
      omega
    rw [append_assoc]
    refine first.walk reached ?_ (climbs_chain reads reached lower walk)
    exact head_chainItems fun item member => Int.le_of_lt (lower item member)

end Chain

end NdNet.Climb
