import Mathlib.Data.Fintype.EquivFin
import Mathlib.Tactic.Linarith
import NdNet.Vm.Grammar

/-!
# How expressions are grouped

The walk over the units groups an expression to the tree of its phrase.  For
regular expressions this is the usual tree.  For all others it is heavier: with
the weight of a tree counting how deep its parts lie to the right, every operand
that swallows the rest of a chain adds to it, and nothing makes up for that.
-/

namespace NdNet.Formula

open Climb List

section Reads

mutual

theorem Sum.reads (level : Int) :
    (sum : Sum) → Reads Operand.tree Tree.binary level (sum.phrase level)
  | .mk first more _ => by
      have reads := Reads.chain (first.reads level) (more.reads level)
      rw [Int.add_sub_cancel] at reads
      exact reads

theorem SumTail.reads (level : Int) : (more : SumTail) →
    ∀ link ∈ more.links level, Reads Operand.tree Tree.binary (level + 1) link.2
  | .nil => by
      intro link member
      cases member
  | .cons _ op term more => by
      intro link member
      rcases mem_cons.mp member with own | later
      · subst own
        exact term.reads level
      · exact more.reads level link later

theorem Term.reads (level : Int) : (term : Term) →
    Reads Operand.tree Tree.binary (level + 1) (term.phrase level)
  | .mk first more => by
      have reads := Reads.chain (first.reads level) (more.reads level)
      rw [show level + 2 - 1 = level + 1 by omega] at reads
      exact reads

theorem TermTail.reads (level : Int) : (more : TermTail) →
    ∀ link ∈ more.links level, Reads Operand.tree Tree.binary (level + 2) link.2
  | .nil => by
      intro link member
      cases member
  | .cons _ op factor more => by
      intro link member
      rcases mem_cons.mp member with own | later
      · subst own
        exact factor.reads level
      · exact more.reads level link later

theorem Factor.reads (level : Int) : (factor : Factor) →
    Reads Operand.tree Tree.binary (level + 2) (factor.phrase level)
  | .number .. | .memory .. | .call1 .. | .call2 .. => .single_operand _ _
  | .bracket _ inner => by
      refine (inner.reads (level + levelBracket)).weaken ?_
      rw [levelBracket]
      omega

end

theorem Sum.climbs (level : Int) (sum : Sum) :
    Climbs Operand.tree Tree.binary none (sum.phrase level).first.tree
      (sum.phrase level).items (sum.phrase level).tree [] := by
  have walk : Climbs Operand.tree Tree.binary none
      (sum.phrase level).first.tree ((sum.phrase level).items ++ [])
      (sum.phrase level).tree [] :=
    (sum.reads level).walk (fun bound member => nomatch member)
      (fun item member => nomatch member) .done
  rw [append_nil] at walk
  exact walk

end Reads

section Atomic

variable {level : Int}

theorem SumTail.links_isEmpty (more : SumTail) :
    (more.links level).isEmpty = more.isNil := by
  cases more <;> rfl

theorem TermTail.links_isEmpty (more : TermTail) :
    (more.links level).isEmpty = more.isNil := by
  cases more <;> rfl

theorem chained_isEmpty (first : UnitPhrase)
    (links : Links ArithOp Operand Tree) :
    (chained level first links).items.isEmpty =
      (first.items.isEmpty && links.isEmpty) := by
  show (first.items ++ chainItems level links).isEmpty = _
  cases links with
  | nil =>
    show (first.items ++ []).isEmpty = _
    rw [append_nil]
    exact (Bool.and_true _).symm
  | cons link links =>
    obtain ⟨op, phrase⟩ := link
    show (first.items ++ _).isEmpty = (first.items.isEmpty && false)
    rw [Bool.and_false, isEmpty_eq_false_iff]
    exact append_ne_nil_of_right_ne_nil _ (cons_ne_nil _ _)

mutual

theorem Sum.items_isEmpty (level : Int) :
    (sum : Sum) → (sum.phrase level).items.isEmpty = sum.atomic
  | .mk first more _ => by
      rw [Sum.phrase, chained_isEmpty, first.items_isEmpty level,
        more.links_isEmpty, Sum.atomic]

theorem Term.items_isEmpty (level : Int) :
    (term : Term) → (term.phrase level).items.isEmpty = term.atomic
  | .mk first more => by
      rw [Term.phrase, chained_isEmpty, first.items_isEmpty level,
        more.links_isEmpty, Term.atomic]

theorem Factor.items_isEmpty (level : Int) :
    (factor : Factor) → (factor.phrase level).items.isEmpty = factor.atomic
  | .number .. | .memory .. | .call1 .. | .call2 .. => rfl
  | .bracket _ inner => by
      rw [Factor.phrase, inner.items_isEmpty, Factor.atomic]

end

end Atomic

theorem chainTree_cons {op : ArithOp} {phrase : UnitPhrase}
    {links : Links ArithOp Operand Tree} {left : Tree}
    (regular : phrase.items.isEmpty = true ∨ links.isEmpty = true) :
    chainTree Tree.binary left ((op, phrase) :: links) =
      chainTree Tree.binary (.binary op left phrase.tree) links := by
  rw [chainTree]
  split
  · rfl
  · rename_i more
    rcases regular with atomic | last
    · exact absurd atomic more
    · rw [List.isEmpty_iff.mp last]
      rfl

section Regular

mutual

theorem Sum.tree_phrase (level : Int) : (sum : Sum) →
    sum.regular = true → (sum.phrase level).tree = sum.tree
  | .mk first more _, regular => by
      rw [Sum.regular, Bool.and_eq_true] at regular
      show chainTree Tree.binary (first.phrase level).tree
        (more.links level) = more.tree first.tree
      rw [first.tree_phrase level regular.1, more.chainTree_links level _
        regular.2]

theorem SumTail.chainTree_links (level : Int) :
    (more : SumTail) → (left : Tree) → more.regular = true →
      chainTree Tree.binary left (more.links level) = more.tree left
  | .nil, _, _ => rfl
  | .cons _ op term more, left, regular => by
      rw [SumTail.regular, Bool.and_eq_true, Bool.and_eq_true,
        Bool.or_eq_true] at regular
      obtain ⟨⟨shape, inner⟩, later⟩ := regular
      rw [← term.items_isEmpty level, ← more.links_isEmpty] at shape
      rw [SumTail.links, chainTree_cons shape,
        term.tree_phrase level inner, more.chainTree_links level _ later,
        SumTail.tree]

theorem Term.tree_phrase (level : Int) : (term : Term) →
    term.regular = true → (term.phrase level).tree = term.tree
  | .mk first more, regular => by
      rw [Term.regular, Bool.and_eq_true] at regular
      show chainTree Tree.binary (first.phrase level).tree
        (more.links level) = more.tree first.tree
      rw [first.tree_phrase level regular.1, more.chainTree_links level _
        regular.2]

theorem TermTail.chainTree_links (level : Int) :
    (more : TermTail) → (left : Tree) → more.regular = true →
      chainTree Tree.binary left (more.links level) = more.tree left
  | .nil, _, _ => rfl
  | .cons _ op factor more, left, regular => by
      rw [TermTail.regular, Bool.and_eq_true, Bool.and_eq_true,
        Bool.or_eq_true] at regular
      obtain ⟨⟨shape, inner⟩, later⟩ := regular
      rw [← factor.items_isEmpty level, ← more.links_isEmpty] at shape
      rw [TermTail.links, chainTree_cons shape,
        factor.tree_phrase level inner, more.chainTree_links level _ later,
        TermTail.tree]

theorem Factor.tree_phrase (level : Int) : (factor : Factor) →
    factor.regular = true → (factor.phrase level).tree = factor.tree
  | .number .., _ => rfl
  | .memory .., _ => rfl
  | .bracket _ inner, regular => by
      rw [Factor.phrase, inner.tree_phrase _ regular, Factor.tree]
  | .call1 _ function name _ argument, regular => by
      show Tree.call1 function name (argument.phrase 0).tree = _
      rw [argument.tree_phrase 0 regular, Factor.tree]
  | .call2 _ function name _ first second, regular => by
      rw [Factor.regular, Bool.and_eq_true] at regular
      show Tree.call2 function name (first.phrase 0).tree
        (second.phrase 0).tree = _
      rw [first.tree_phrase 0 regular.1, second.tree_phrase 0 regular.2,
        Factor.tree]

end

end Regular

section Weight

/-- The number of operators and of calls with two arguments. -/
def Tree.joins : Tree → Nat
  | .number _ => 0
  | .memory _ => 0
  | .binary _ left right => left.joins + right.joins + 1
  | .call1 _ _ argument => argument.joins
  | .call2 _ _ first second => first.joins + second.joins + 1

/-- How deep the parts of a tree lie to the right, all taken together. -/
def Tree.weight : Tree → Nat
  | .number _ => 0
  | .memory _ => 0
  | .binary _ left right => left.weight + right.weight + right.joins + 1
  | .call1 _ _ argument => argument.weight
  | .call2 _ _ first second => first.weight + second.weight + second.joins + 1

theorem Tree.weight_le (tree : Tree) : tree.weight ≤ tree.joins * tree.joins := by
  induction tree with
  | number text | memory address => exact Nat.le_refl _
  | call1 function name argument induction => exact induction
  | binary op left right first second
  | call2 function name left right first second =>
    simp only [Tree.weight, Tree.joins]
    nlinarith

/-- The tree of the walk compared with the usual one. -/
structure Heavier (regular : Bool) (walked usual : Tree) : Prop where
  joins : walked.joins = usual.joins
  weight : usual.weight ≤ walked.weight
  strict : regular = false → usual.weight < walked.weight

/-- What a chain adds to the tree in front of it, grouped by the walk and
usually. -/
structure Adds (regular last : Bool) (joins most least : Nat)
    (walked usual : Tree → Tree) : Prop where
  walkedJoins : ∀ left, (walked left).joins = left.joins + joins
  usualJoins : ∀ left, (usual left).joins = left.joins + joins
  walkedWeight : ∀ left, (walked left).weight = left.weight + most
  usualWeight : ∀ left, (usual left).weight = left.weight + least
  weight : least ≤ most
  strict : regular = false → least < most
  positive : last = false → 0 < joins

theorem Adds.nil : Adds true true 0 0 0 (fun left => left) fun left => left :=
  { walkedJoins := fun _ => rfl
    usualJoins := fun _ => rfl
    walkedWeight := fun _ => rfl
    usualWeight := fun _ => rfl
    weight := Nat.le_refl _
    strict := fun irregular => nomatch irregular
    positive := fun more => nomatch more }

theorem Heavier.chain {inner regular last : Bool} {joins most least : Nat}
    {walked usual : Tree → Tree} {walkedFirst usualFirst : Tree}
    (first : Heavier inner walkedFirst usualFirst)
    (adds : Adds regular last joins most least walked usual) :
    Heavier (inner && regular) (walked walkedFirst) (usual usualFirst) := by
  have weight := first.weight
  have more := adds.weight
  refine
    { joins := ?_
      weight := ?_
      strict := ?_ }
  · rw [adds.walkedJoins, adds.usualJoins, first.joins]
  · rw [adds.walkedWeight, adds.usualWeight]
    omega
  · intro irregular
    rw [adds.walkedWeight, adds.usualWeight]
    rcases Bool.and_eq_false_iff.mp irregular with one | other
    · have := first.strict one
      omega
    · have := adds.strict other
      omega

/-- One link more: an operand with operators inside that is not the last one
weighs more, as the rest of the chain gets below it. -/
theorem Adds.cons {inner regular last : Bool} {joins most least : Nat}
    {links : Links ArithOp Operand Tree} {usual : Tree → Tree}
    {phrase : UnitPhrase} {usualOperand : Tree} (op : ArithOp)
    (operand : Heavier inner phrase.tree usualOperand)
    (adds : Adds regular last joins most least
      (fun left => chainTree Tree.binary left links) usual) :
    ∃ total more less,
      Adds ((phrase.items.isEmpty || last) && inner && regular) false total
        more less
        (fun left => chainTree Tree.binary left ((op, phrase) :: links))
        fun left => usual (.binary op left usualOperand) := by
  have weight := operand.weight
  have same := operand.joins
  have later := adds.weight
  by_cases atomic : phrase.items.isEmpty = true
  · refine ⟨phrase.tree.joins + 1 + joins,
      phrase.tree.weight + phrase.tree.joins + 1 + most,
      usualOperand.weight + usualOperand.joins + 1 + least,
      { walkedJoins := fun left => ?_
        usualJoins := fun left => ?_
        walkedWeight := fun left => ?_
        usualWeight := fun left => ?_
        weight := by omega
        strict := fun irregular => ?_
        positive := fun _ => by omega }⟩
    · simp only [chainTree, atomic, if_true, adds.walkedJoins, Tree.joins]
      omega
    · simp only [adds.usualJoins, Tree.joins]
      omega
    · simp only [chainTree, atomic, if_true, adds.walkedWeight, Tree.weight]
      omega
    · simp only [adds.usualWeight, Tree.weight]
      omega
    · rw [atomic, Bool.true_or, Bool.true_and] at irregular
      rcases Bool.and_eq_false_iff.mp irregular with one | other
      · have := operand.strict one
        omega
      · have := adds.strict other
        omega
  · refine ⟨phrase.tree.joins + 1 + joins,
      phrase.tree.weight + most + (phrase.tree.joins + joins) + 1,
      usualOperand.weight + usualOperand.joins + 1 + least,
      { walkedJoins := fun left => ?_
        usualJoins := fun left => ?_
        walkedWeight := fun left => ?_
        usualWeight := fun left => ?_
        weight := by omega
        strict := fun irregular => ?_
        positive := fun _ => by omega }⟩
    · simp only [chainTree, atomic, Bool.false_eq_true, if_false,
        adds.walkedJoins, Tree.joins]
      omega
    · simp only [adds.usualJoins, Tree.joins]
      omega
    · simp only [chainTree, atomic, Bool.false_eq_true, if_false,
        adds.walkedJoins,
        adds.walkedWeight, Tree.weight]
      omega
    · simp only [adds.usualWeight, Tree.weight]
      omega
    · rcases Bool.and_eq_false_iff.mp irregular with early | other
      · rcases Bool.and_eq_false_iff.mp early with swallows | one
        · have := adds.positive (Bool.or_eq_false_iff.mp swallows).2
          omega
        · have := operand.strict one
          omega
      · have := adds.strict other
        omega

mutual

theorem Sum.heavier (level : Int) : (sum : Sum) →
    Heavier sum.regular (sum.phrase level).tree sum.tree
  | .mk first more _ => by
      obtain ⟨joins, most, least, adds⟩ := more.adds level
      exact (first.heavier level).chain adds

theorem SumTail.adds (level : Int) : (more : SumTail) →
    ∃ joins most least, Adds more.regular more.isNil joins most least
      (fun left => chainTree Tree.binary left (more.links level)) more.tree
  | .nil => ⟨0, 0, 0, .nil⟩
  | .cons _ op term more => by
      obtain ⟨joins, most, least, adds⟩ := more.adds level
      have cons := Adds.cons op.arith (term.heavier level) adds
      rw [term.items_isEmpty] at cons
      exact cons

theorem Term.heavier (level : Int) : (term : Term) →
    Heavier term.regular (term.phrase level).tree term.tree
  | .mk first more => by
      obtain ⟨joins, most, least, adds⟩ := more.adds level
      exact (first.heavier level).chain adds

theorem TermTail.adds (level : Int) : (more : TermTail) →
    ∃ joins most least, Adds more.regular more.isNil joins most least
      (fun left => chainTree Tree.binary left (more.links level)) more.tree
  | .nil => ⟨0, 0, 0, .nil⟩
  | .cons _ op factor more => by
      obtain ⟨joins, most, least, adds⟩ := more.adds level
      have cons := Adds.cons op.arith (factor.heavier level) adds
      rw [factor.items_isEmpty] at cons
      exact cons

theorem Factor.heavier (level : Int) : (factor : Factor) →
    Heavier factor.regular (factor.phrase level).tree factor.tree
  | .number .. | .memory .. =>
    ⟨rfl, Nat.le_refl _, fun irregular => nomatch irregular⟩
  | .bracket _ inner => inner.heavier (level + levelBracket)
  | .call1 _ _ _ _ argument =>
    { joins := (argument.heavier 0).joins
      weight := (argument.heavier 0).weight
      strict := (argument.heavier 0).strict }
  | .call2 _ function _ _ first second => by
      have one := first.heavier 0
      have other := second.heavier 0
      have light := one.weight
      have less := other.weight
      refine
        { joins := ?_
          weight := ?_
          strict := ?_ }
      · show (first.phrase 0).tree.joins + (second.phrase 0).tree.joins + 1 =
          first.tree.joins + second.tree.joins + 1
        rw [one.joins, other.joins]
      · show first.tree.weight + second.tree.weight + second.tree.joins + 1 ≤
          (first.phrase 0).tree.weight + (second.phrase 0).tree.weight +
            (second.phrase 0).tree.joins + 1
        rw [other.joins]
        omega
      · intro irregular
        show first.tree.weight + second.tree.weight + second.tree.joins + 1 <
          (first.phrase 0).tree.weight + (second.phrase 0).tree.weight +
            (second.phrase 0).tree.joins + 1
        rw [other.joins]
        rcases Bool.and_eq_false_iff.mp irregular with left | right
        · have := one.strict left
          omega
        · have := other.strict right
          omega

end

mutual

theorem Sum.joins_lt : (sum : Sum) → sum.tree.joins < sum.unitNum
  | .mk first more _ => by
      have bound := first.joins_lt
      have added := more.joins_le first.tree
      simp only [Sum.tree, Sum.unitNum]
      omega

theorem SumTail.joins_le : (more : SumTail) → (left : Tree) →
    (more.tree left).joins ≤ left.joins + more.unitNum
  | .nil, left => Nat.le_refl _
  | .cons _ op term more, left => by
      have bound := term.joins_lt
      have added := more.joins_le (.binary op.arith left term.tree)
      simp only [SumTail.tree, SumTail.unitNum, Tree.joins] at added ⊢
      omega

theorem Term.joins_lt : (term : Term) → term.tree.joins < term.unitNum
  | .mk first more => by
      have bound := first.joins_lt
      have added := more.joins_le first.tree
      simp only [Term.tree, Term.unitNum]
      omega

theorem TermTail.joins_le : (more : TermTail) → (left : Tree) →
    (more.tree left).joins ≤ left.joins + more.unitNum
  | .nil, left => Nat.le_refl _
  | .cons _ op factor more, left => by
      have bound := factor.joins_lt
      have added := more.joins_le (.binary op.arith left factor.tree)
      simp only [TermTail.tree, TermTail.unitNum, Tree.joins] at added ⊢
      omega

theorem Factor.joins_lt : (factor : Factor) → factor.tree.joins < factor.unitNum
  | .number .. | .memory .. => Nat.zero_lt_one
  | .bracket _ inner => inner.joins_lt
  | .call1 _ _ _ _ argument => by
      have bound := argument.joins_lt
      simp only [Factor.tree, Factor.unitNum, Tree.joins]
      omega
  | .call2 _ _ _ _ first second => by
      have one := first.joins_lt
      have other := second.joins_lt
      simp only [Factor.tree, Factor.unitNum, Tree.joins]
      omega

end

def Tree.numbers : Tree → List (List Char)
  | .number text => [text]
  | .memory _ => []
  | .binary _ left right => left.numbers ++ right.numbers
  | .call1 _ _ argument => argument.numbers
  | .call2 _ _ first second => first.numbers ++ second.numbers

theorem Tree.length_numbers (tree : Tree) :
    tree.numbers.length ≤ tree.joins + 1 := by
  induction tree with
  | number text => exact Nat.le_refl _
  | memory address => exact Nat.zero_le _
  | call1 function name argument induction => exact induction
  | binary op left right first second
  | call2 function name left right first second =>
    simp only [Tree.numbers, Tree.joins, length_append]
    omega

theorem exists_counting (avoid : List VmValue) (short : avoid.length ≤ 2147483648) :
    ∃ (count : VmValue → Nat) (value : Nat → VmValue),
      (∀ other ∈ avoid, count other = 0) ∧
        ∀ number < 2147483648, count (value number) = number := by
  classical
  obtain ⟨free, free_eq⟩ : ∃ free : Finset Nat, free =
      Finset.range 4294967296 \ (avoid.map BitVec.toNat).toFinset := ⟨_, rfl⟩
  have many : 2147483648 ≤ free.card := by
    have rest := Finset.le_card_sdiff (avoid.map BitVec.toNat).toFinset
      (Finset.range 4294967296)
    have few := (avoid.map BitVec.toNat).toFinset_card_le
    rw [← free_eq, Finset.card_range] at rest
    rw [length_map] at few
    omega
  have below : ∀ number ∈ free, number < 4294967296 := by
    intro number member
    rw [free_eq, Finset.mem_sdiff, Finset.mem_range] at member
    exact member.1
  refine ⟨fun other => if member : other.toNat ∈ free then
      (free.equivFin ⟨other.toNat, member⟩).val else 0,
    fun number => if less : number < free.card then
      BitVec.ofNat 32 (free.equivFin.symm ⟨number, less⟩).val else 0, ?_, ?_⟩
  · intro other member
    refine dif_neg ?_
    rw [free_eq, Finset.mem_sdiff, not_and_not_right, mem_toFinset]
    exact fun _ => mem_map_of_mem member
  · intro number small
    have less : number < free.card := by omega
    have place := (free.equivFin.symm ⟨number, less⟩).property
    have bound := below _ place
    have same : (BitVec.ofNat 32 (free.equivFin.symm ⟨number, less⟩).val).toNat =
        (free.equivFin.symm ⟨number, less⟩).val := by
      exact Nat.mod_eq_of_lt bound
    dsimp only
    rw [dif_pos less]
    simp only [same, Subtype.coe_eta, Equiv.apply_symm_apply]
    exact dif_pos place

section Weighing

variable (count : VmValue → Nat) (value : Nat → VmValue)

/-- Adds what lies to the right to the weight, with the number of joins kept in
the low bits. -/
def weigh (left right : VmValue) : VmValue :=
  value (count left + count right + 1 + 2048 * (count right % 2048 + 1))

/-- Operations that tell trees of different weight apart. -/
def weighing : VmOps :=
  { add := weigh count value
    sub := weigh count value
    mul := weigh count value
    div := weigh count value
    isZero := fun _ => false
    max := weigh count value
    min := weigh count value
    ltzero := id
    sqrt := id
    round := id
    ceil := id
    floor := id
    rand := fun _ => weigh count value
    prob := fun _ => id }

variable {count value}

theorem count_weigh
    (counts : ∀ number < 2147483648, count (value number) = number)
    {left right : VmValue} {joins weight rightJoins rightWeight : Nat}
    (one : count left = joins + 2048 * weight)
    (other : count right = rightJoins + 2048 * rightWeight)
    (small : joins + rightJoins + 1 < 1024)
    (light : weight + rightWeight + rightJoins + 1 ≤ 1046529) :
    count (weigh count value left right) =
      joins + rightJoins + 1 + 2048 * (weight + rightWeight + rightJoins + 1) := by
  rw [weigh, one, other, counts]
  · omega
  · omega

theorem Tree.count_value {env : FormulaEnv} {memory : VmMemory}
    (counts : ∀ number < 2147483648, count (value number) = number)
    (zero : count 0 = 0) (none : memory.size = 0) (tree : Tree)
    (numbers : ∀ text ∈ tree.numbers, count (env.atof text) = 0)
    (small : tree.joins < 1024) :
    count (tree.value env (weighing count value) memory) =
      tree.joins + 2048 * tree.weight := by
  have light : tree.weight ≤ 1046529 := by
    have := tree.weight_le
    nlinarith
  induction tree with
  | number text => exact numbers text (mem_singleton.mpr rfl)
  | memory address =>
    rw [Tree.value, VmMemory.read, none, if_neg (by omega)]
    exact zero
  | binary op left right first second =>
    simp only [Tree.numbers, mem_append] at numbers
    simp only [Tree.joins] at small
    simp only [Tree.weight] at light
    have joined := count_weigh counts
      (first (fun text member => numbers text (.inl member)) (by omega)
        (by omega))
      (second (fun text member => numbers text (.inr member)) (by omega)
        (by omega)) (by omega) light
    rw [Tree.joins, Tree.weight, ← joined]
    cases op <;> rfl
  | call1 function name argument induction =>
    rw [Tree.joins, Tree.weight, ← induction numbers small light]
    cases function <;> rfl
  | call2 function name left right first second =>
    simp only [Tree.numbers, mem_append] at numbers
    simp only [Tree.joins] at small
    simp only [Tree.weight] at light
    have joined := count_weigh counts
      (first (fun text member => numbers text (.inl member)) (by omega)
        (by omega))
      (second (fun text member => numbers text (.inr member)) (by omega)
        (by omega)) (by omega) light
    rw [Tree.joins, Tree.weight, ← joined]
    cases function <;> rfl

end Weighing

/-- Operations for which an expression that is not regular has another value
than the walk gives it. -/
theorem Sum.value_ne (env : FormulaEnv) (sum : Sum) (level : Int)
    (few : sum.unitNum ≤ 1024) (irregular : sum.regular = false)
    {memory : VmMemory} (none : memory.size = 0) :
    ∃ ops, (sum.phrase level).tree.value env ops memory ≠
      sum.tree.value env ops memory := by
  have heavier := sum.heavier level
  have joins := sum.joins_lt
  have walkedJoins := heavier.joins
  have walked := (sum.phrase level).tree.length_numbers
  have usual := sum.tree.length_numbers
  obtain ⟨count, value, zeros, counts⟩ := exists_counting
    (0 :: ((sum.phrase level).tree.numbers ++ sum.tree.numbers).map env.atof)
    (by
      simp only [length_cons, length_map, length_append]
      omega)
  obtain ⟨zero, numbers⟩ := forall_mem_cons.mp zeros
  have zeroAt : ∀ text ∈ (sum.phrase level).tree.numbers ++ sum.tree.numbers,
      count (env.atof text) = 0 :=
    fun text member => numbers _ (mem_map_of_mem member)
  refine ⟨weighing count value, fun same => ?_⟩
  have one : count ((sum.phrase level).tree.value env (weighing count value)
      memory) = _ :=
    Tree.count_value counts zero none _
      (fun text member => zeroAt text (mem_append_left _ member)) (by omega)
  have other : count (sum.tree.value env (weighing count value) memory) = _ :=
    Tree.count_value counts zero none _
      (fun text member => zeroAt text (mem_append_right _ member))
      (by omega)
  have strict := heavier.strict irregular
  rw [same, other] at one
  omega

end Weight

end NdNet.Formula
