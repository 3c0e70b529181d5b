import Mathlib.Data.List.Forall2
import NdNet.Lib.Straight
import NdNet.Vm.Grouping
import NdNet.Vm.Lines

/-!
# Compiled expressions

The code of an expression leaves the value of the tree in `REG1` that the walk
groups the expression to, as long as the stack holds out.  So it leaves the usual
value for regular expressions, and for no others.
-/

namespace NdNet.Formula

open Str Climb Straight List

section Instructions

variable (ops : VmOps) (cpu : VmCpu)

theorem run_push :
    cpu.runInsnode ops pushNode =
      if cpu.stack.length < vmStackSize then
        .ok { cpu with stack := cpu.reg1 :: cpu.stack }
      else .error .outside :=
  rfl

theorem run_save :
    cpu.runInsnode ops saveNode = .ok { cpu with reg2 := cpu.reg1 } :=
  rfl

variable {cpu} in
theorem run_pop {top : VmValue} {rest : List VmValue}
    (stack : cpu.stack = top :: rest) :
    cpu.runInsnode ops popNode =
      .ok { cpu with
        reg1 := top
        stack := rest } := by
  cases cpu
  cases stack
  rfl

variable {cpu} in
theorem run_drop {top : VmValue} {rest : List VmValue}
    (stack : cpu.stack = top :: rest) :
    cpu.runInsnode ops dropNode = .ok { cpu with stack := rest } := by
  cases cpu
  cases stack
  rfl

theorem run_move (ds : DataSrc) (value : VmValue) :
    cpu.runInsnode ops ⟨.mov, .reg1, ds, 0, value⟩ =
      .ok { cpu with reg1 := cpu.getvalue ds value } :=
  rfl

theorem run_op (op : ArithOp) (ds : DataSrc) (value : VmValue) :
    cpu.runInsnode ops ⟨op.ins, .reg1, ds, 0, value⟩ =
      .ok { cpu with
        reg1 := op.apply ops cpu.reg1 (cpu.getvalue ds value) } := by
  cases op <;> rfl

theorem run_call1 (function : Func1) :
    cpu.runInsnode ops function.node =
      .ok { cpu with reg1 := function.apply ops cpu.reg1 } := by
  cases function <;> rfl

theorem getvalue_stack {index : Int} {value : VmValue}
    (place : value.toInt = -(index + 1)) (slot : 0 ≤ index)
    (pushed : index < cpu.stack.length) :
    cpu.getvalue .stack value = (cpu.stack[index.toNat]?).getD 0 := by
  simp only [VmCpu.getvalue, VmCpu.slot, place]
  rw [if_pos (by omega), if_pos (by omega)]
  simp only [Option.bind_some]
  rw [getElem?_reverse (by omega)]
  congr 2
  omega

variable {cpu} in
theorem run_call2 (function : Func2) {first second : VmValue}
    {rest : List VmValue} (stack : cpu.stack = second :: first :: rest) :
    cpu.runInsnode ops function.node =
      .ok { cpu with reg1 := function.apply ops first second } := by
  have two : cpu.getvalue .stack (BitVec.ofInt 32 (-2)) = first := by
    rw [getvalue_stack cpu (show (BitVec.ofInt 32 (-2)).toInt = -(1 + 1) by decide)
      (by omega) (by rw [stack]; simp only [length_cons]; omega), stack]
    rfl
  have one : cpu.getvalue .stack (BitVec.ofInt 32 (-1)) = second := by
    rw [getvalue_stack cpu (show (BitVec.ofInt 32 (-1)).toInt = -(0 + 1) by decide)
      (by omega) (by rw [stack]; simp only [length_cons]; omega), stack]
    rfl
  cases function with
  | max =>
    show Except.ok { cpu with
      reg1 := ops.max (cpu.getvalue .stack (BitVec.ofInt 32 (-2)))
        (cpu.getvalue .stack (BitVec.ofInt 32 (-1))) } = _
    rw [two, one]
    rfl
  | min =>
    show Except.ok { cpu with
      reg1 := ops.min (cpu.getvalue .stack (BitVec.ofInt 32 (-2)))
        (cpu.getvalue .stack (BitVec.ofInt 32 (-1))) } = _
    rw [two, one]
    rfl

end Instructions

def Tree.plan : Tree → Plan
  | .number text => .leaf text
  | .memory address => .leaf ('[' :: (address ++ [']']))
  | .binary op left right => .join op.formula left.plan right.plan
  | .call1 _ name argument =>
    .call1 ("\t ".toList ++ name.text ++ "  REG1\n".toList) argument.plan
  | .call2 _ name first second =>
    .call2 ("\t ".toList ++ name.text ++ "   [SP -2], [SP -1]\n".toList)
      first.plan second.plan

def Tree.Readable (env : FormulaEnv) : Tree → Prop
  | .number text => OperandText env text .immediate (env.atof text)
  | .memory address =>
    OperandText env ('[' :: (address ++ [']'])) .address (addressOf address)
  | .binary _ left right => left.Readable env ∧ right.Readable env
  | .call1 _ _ argument => argument.Readable env
  | .call2 _ _ first second => first.Readable env ∧ second.Readable env

def Tree.head : Tree → Tree
  | .binary _ left _ => left.head
  | tree => tree

/-- The values on the stack while the tree is computed as an operand. -/
def Tree.behind (tree : Tree) : Nat :=
  if tree.bare then 0 else tree.nesting + 1

theorem Tree.head_nesting (tree : Tree) : tree.head.nesting ≤ tree.nesting := by
  induction tree with
  | binary op left right first second =>
    exact Nat.le_trans first (Nat.le_max_left _ _)
  | _ => exact Nat.le_refl _

theorem Tree.head_behind (op : ArithOp) (left right : Tree) :
    (Tree.binary op left right).head.behind ≤
      (Tree.binary op left right).nesting + 1 := by
  have below := (Tree.binary op left right).head_nesting
  rw [Tree.behind]
  split
  · exact Nat.zero_le _
  · omega

variable {source : DataSrc × VmValue}

section Meaning

abbrev Coded (env : FormulaEnv) (lines : List (List Char))
    (nodes : List InsNode) : Prop :=
  List.Forall₂ (Assembles env) lines nodes

variable (env : FormulaEnv)

/-- From a state with `need` places on the stack, the code leaves a value in
`REG1`. -/
def Leaves (ops : VmOps) (need : Nat) (cpu : VmCpu) (nodes : List InsNode)
    (value : VmValue) : Prop :=
  Finishes (VmCpu.runInsnode ops) (vmStackSize < cpu.stack.length + need) cpu nodes
    fun after => ∃ reg2, after =
      { cpu with
        reg1 := value
        reg2 := reg2 }

/-- The operand has the value of the tree if `REG2` has not changed. -/
def Gives (ops : VmOps) (memory : VmMemory) (reg2 : VmValue)
    (source : DataSrc × VmValue) (tree : Tree) : Prop :=
  ∀ cpu : VmCpu, cpu.reg2 = reg2 → cpu.memory = memory →
    cpu.getvalue source.1 source.2 = tree.value env ops memory

/-- What the parts of a plan compute. -/
structure Meaning (tree : Tree) (parts : Parts) (source : DataSrc × VmValue)
    (start ready spine : List InsNode) : Prop where
  operand : OperandText env parts.source source.1 source.2
  startCoded : Coded env parts.start start
  readyCoded : Coded env parts.ready ready
  spineCoded : Coded env parts.spine spine
  isEmpty : parts.spine = [] ↔ tree.head = tree
  starts : ∀ ops cpu, Leaves ops tree.head.nesting cpu start
    (tree.head.value env ops cpu.memory)
  readies : ∀ ops cpu,
    Finishes (VmCpu.runInsnode ops)
      (vmStackSize < cpu.stack.length + tree.head.behind) cpu ready
      fun after => ∃ reg2, after = { cpu with reg2 := reg2 } ∧
        Gives env ops cpu.memory reg2 source tree.head
  goes : ∀ ops cpu, cpu.reg1 = tree.head.value env ops cpu.memory →
    Leaves ops tree.nesting cpu spine (tree.value env ops cpu.memory)

variable {env}

theorem Meaning.leaves {tree : Tree} {parts : Parts}
    {start ready spine : List InsNode}
    (meaning : Meaning env tree parts source start ready spine) (ops : VmOps)
    (cpu : VmCpu) :
    Leaves ops tree.nesting cpu (start ++ spine)
      (tree.value env ops cpu.memory) := by
  have below := tree.head_nesting
  refine ((meaning.starts ops cpu).weaken fun fails => by omega).append ?_
  rintro after ⟨reg2, rfl⟩
  refine (meaning.goes ops _ rfl).imp ?_
  rintro last ⟨other, rfl⟩
  exact ⟨other, rfl⟩

theorem Meaning.lines {tree : Tree} {parts : Parts}
    {start ready spine : List InsNode}
    (meaning : Meaning env tree parts source start ready spine) :
    Coded env parts.lines (start ++ spine) :=
  rel_append meaning.startCoded meaning.spineCoded

theorem meaning_leaf {tree : Tree} (bare : tree.bare = true) {text : List Char}
    (operand : OperandText env text source.1 source.2)
    (gives : ∀ ops (cpu : VmCpu), cpu.getvalue source.1 source.2 =
      tree.value env ops cpu.memory) :
    Meaning env tree (.leaf text) source
      [⟨.mov, .reg1, source.1, 0, source.2⟩] [] [] := by
  have head : tree.head = tree := by
    cases tree with
    | binary => cases bare
    | _ => rfl
  refine
    { operand := operand
      startCoded := .cons operand.assembles_move .nil
      readyCoded := .nil
      spineCoded := .nil
      isEmpty := iff_of_true rfl head
      starts := fun ops cpu => ?_
      readies := fun ops cpu => ?_
      goes := fun ops cpu value => ?_ }
  · rw [head]
    exact .cons (run_move ops cpu _ _) (.nil ⟨cpu.reg2, by rw [gives ops cpu]⟩)
  · rw [head]
    refine .nil ⟨cpu.reg2, rfl, fun other _ memory => ?_⟩
    rw [gives ops other, memory]
  · rw [head] at value
    exact .nil ⟨cpu.reg2, by rw [← value]⟩

theorem meaning_call {tree : Tree} (call : tree.bare = false)
    (head : tree.head = tree) {lines : List (List Char)} {nodes : List InsNode}
    (coded : Coded env lines nodes)
    (leaves : ∀ ops cpu, Leaves ops tree.nesting cpu nodes
      (tree.value env ops cpu.memory)) :
    Meaning env tree (.call lines) (.reg2, 0) nodes
      (pushNode :: (nodes ++ [saveNode, popNode])) [] := by
  have behind : tree.behind = tree.nesting + 1 := by
    rw [Tree.behind, call]
    rfl
  refine
    { operand := operandText_reg2 env
      startCoded := coded
      readyCoded := .cons (assembles_push env) (rel_append coded
        (.cons (assembles_save env) (.cons (assembles_pop env) .nil)))
      spineCoded := .nil
      isEmpty := iff_of_true rfl head
      starts := fun ops cpu => ?_
      readies := fun ops cpu => ?_
      goes := fun ops cpu value => ?_ }
  · rw [head]
    exact leaves ops cpu
  · rw [head, behind]
    by_cases room : cpu.stack.length < vmStackSize
    · refine .cons ((run_push ops cpu).trans (if_pos room)) ?_
      refine ((leaves ops _).weaken fun fails => ?_).append ?_
      · simp only [length_cons] at fails
        omega
      · rintro after ⟨reg2, rfl⟩
        refine .cons (run_save ops _) (.cons (run_pop ops rfl) (.nil ?_))
        refine ⟨tree.value env ops cpu.memory, rfl, fun other same _ => ?_⟩
        exact same
    · exact .fail ((run_push ops cpu).trans (if_neg room)) (by omega)
  · rw [head] at value
    exact .nil ⟨cpu.reg2, by rw [← value]⟩

/-- An operator and the operand behind it, computed with one place more on the
stack where it is not bare. -/
theorem Meaning.join {tree : Tree} {parts : Parts}
    {start ready spine : List InsNode}
    (meaning : Meaning env tree parts source start ready spine) (op : ArithOp) :
    ∃ nodes, Coded env (parts.joinLines op.formula) nodes ∧ ∀ ops cpu,
      Leaves ops tree.behind cpu nodes
        (op.apply ops cpu.reg1 (tree.value env ops cpu.memory)) := by
  by_cases plain : tree.head = tree
  · have empty := meaning.isEmpty.mpr plain
    refine ⟨ready ++ [⟨op.ins, .reg1, source.1, 0, source.2⟩], ?_,
      fun ops cpu => ?_⟩
    · rw [Parts.joinLines, empty]
      exact rel_append meaning.readyCoded
        (.cons (meaning.operand.assembles_op op) .nil)
    · have readies := meaning.readies ops cpu
      rw [plain] at readies
      refine readies.append ?_
      rintro after ⟨reg2, rfl, gives⟩
      refine .cons (run_op ops _ op _ _) (.nil ⟨reg2, ?_⟩)
      rw [gives { cpu with reg2 := reg2 } rfl rfl]
  · have more : parts.spine.isEmpty = false :=
      isEmpty_eq_false_iff.mpr (mt meaning.isEmpty.mp plain)
    obtain ⟨inner, left, right, rfl⟩ :
        ∃ inner left right, tree = .binary inner left right := by
      cases tree with
      | binary inner left right => exact ⟨inner, left, right, rfl⟩
      | _ => exact absurd rfl plain
    have behind := Tree.head_behind inner left right
    refine ⟨ready ++ pushNode :: ⟨.mov, .reg1, source.1, 0, source.2⟩ ::
      (spine ++ [saveNode, popNode, ⟨op.ins, .reg1, .reg2, 0, 0⟩]), ?_,
      fun ops cpu => ?_⟩
    · rw [Parts.joinLines, more]
      refine rel_append meaning.readyCoded (.cons (assembles_push env)
        (.cons meaning.operand.assembles_move
          (rel_append meaning.spineCoded ?_)))
      exact .cons (assembles_saveGroup env) (.cons (assembles_pop env)
        (.cons ((operandText_reg2 env).assembles_op op) .nil))
    · show Finishes _ (vmStackSize < cpu.stack.length +
        ((Tree.binary inner left right).nesting + 1)) _ _ _
      refine ((meaning.readies ops cpu).weaken fun fails => by omega).append ?_
      rintro after ⟨reg2, rfl, gives⟩
      by_cases room : cpu.stack.length < vmStackSize
      · refine .cons ((run_push ops _).trans (if_pos room))
          (.cons (run_move ops _ _ _) ?_)
        refine ((meaning.goes ops _ ?_).weaken fun fails => ?_).append ?_
        · exact gives _ rfl rfl
        · simp only [length_cons] at fails
          omega
        · rintro after ⟨other, rfl⟩
          refine .cons (run_save ops _) (.cons (run_pop ops rfl)
            (.cons (run_op ops _ op _ _) (.nil ⟨_, rfl⟩)))
      · exact .fail ((run_push ops _).trans (if_neg room)) (by omega)

theorem joinLines_ne_nil (op : FormulaOp) (parts : Parts) :
    parts.joinLines op ≠ [] := by
  rw [Parts.joinLines]
  split <;> simp

theorem Tree.head_ne (op : ArithOp) (left right : Tree) :
    left.head ≠ .binary op left right := by
  have size : sizeOf left.head ≤ sizeOf left := by
    induction left with
    | binary op left right first second =>
      have : sizeOf (Tree.binary op left right) =
        1 + sizeOf op + sizeOf left + sizeOf right := rfl
      show sizeOf left.head ≤ _
      omega
    | _ => exact Nat.le_refl _
  intro same
  rw [same] at size
  have : sizeOf (Tree.binary op left right) =
    1 + sizeOf op + sizeOf left + sizeOf right := rfl
  omega

theorem Tree.meaning (tree : Tree) (readable : tree.Readable env) :
    ∃ source start ready spine,
      Meaning env tree tree.plan.parts source start ready spine := by
  induction tree with
  | number text =>
    exact ⟨(.immediate, env.atof text), _, _, _,
      meaning_leaf rfl readable fun ops cpu => rfl⟩
  | memory address =>
    exact ⟨(.address, addressOf address), _, _, _,
      meaning_leaf rfl readable fun ops cpu => rfl⟩
  | binary op left right first second =>
    obtain ⟨source, start, ready, spine, one⟩ := first readable.1
    obtain ⟨_, _, _, _, other⟩ := second readable.2
    obtain ⟨nodes, coded, joins⟩ := other.join op
    refine ⟨source, start, ready, spine ++ nodes,
      { operand := one.operand
        startCoded := one.startCoded
        readyCoded := one.readyCoded
        spineCoded := rel_append one.spineCoded coded
        isEmpty := ?_
        starts := one.starts
        readies := one.readies
        goes := fun ops cpu value => ?_ }⟩
    · refine iff_of_false ?_ (Tree.head_ne op left right)
      exact append_ne_nil_of_right_ne_nil _ (joinLines_ne_nil _ _)
    · have nesting : (Tree.binary op left right).nesting =
          max left.nesting right.behind := rfl
      refine ((one.goes ops cpu value).weaken fun fails => by omega).append ?_
      rintro after ⟨reg2, rfl⟩
      refine ((joins ops _).weaken fun fails => ?_).imp ?_
      · dsimp only at fails
        omega
      · rintro last ⟨other, rfl⟩
        exact ⟨other, rfl⟩
  | call1 function name argument induction =>
    obtain ⟨source, start, ready, spine, inner⟩ := induction readable
    refine ⟨_, _, _, _, meaning_call rfl rfl
      (rel_append inner.lines (.cons (function.assembles env name) .nil))
      fun ops cpu => ?_⟩
    refine (inner.leaves ops cpu).append ?_
    rintro after ⟨reg2, rfl⟩
    exact .cons (run_call1 ops _ function) (.nil ⟨reg2, rfl⟩)
  | call2 function name left right first second =>
    obtain ⟨_, start, _, spine, one⟩ := first readable.1
    obtain ⟨_, startTail, _, spineTail, other⟩ := second readable.2
    refine ⟨_, _, _, _, meaning_call rfl rfl
      (rel_append one.lines (.cons (assembles_pushArgument env)
        (rel_append other.lines
          (.cons (assembles_pushArgument env)
            (.cons (function.assembles env name)
              (.cons (assembles_drop env)
                (.cons (assembles_drop env) .nil)))))))
      fun ops cpu => ?_⟩
    have nesting : (Tree.call2 function name left right).nesting =
      max left.nesting (max (right.nesting + 1) 2) := rfl
    refine ((one.leaves ops cpu).weaken fun fails => by omega).append ?_
    rintro after ⟨reg2, rfl⟩
    by_cases room : cpu.stack.length < vmStackSize
    · refine .cons ((run_push ops _).trans (if_pos room)) ?_
      refine ((other.leaves ops _).weaken fun fails => ?_).append ?_
      · simp only [length_cons] at fails
        omega
      · rintro after ⟨reg2, rfl⟩
        by_cases more : cpu.stack.length + 1 < vmStackSize
        · refine .cons ((run_push ops _).trans (if_pos more)) ?_
          refine .cons (run_call2 ops function rfl) ?_
          exact .cons (run_drop ops rfl) (.cons (run_drop ops rfl)
            (.nil ⟨reg2, rfl⟩))
        · exact .fail ((run_push ops _).trans (if_neg more)) (by omega)
    · exact .fail ((run_push ops _).trans (if_neg room)) (by omega)

end Meaning

section Expressions

variable (env : FormulaEnv)

structure Operand.Sound (operand : Operand) : Prop where
  operates : Operates env operand.unit operand.tree.plan
  readable : operand.tree.Readable env

/-- So are all operands of a phrase. -/
structure Sound (phrase : UnitPhrase) : Prop where
  first : phrase.first.Sound env
  items : ∀ item ∈ phrase.items, item.operand.Sound env

variable {env}

theorem Sound.single {operand : Operand} (sound : operand.Sound env) :
    Sound env (single operand) :=
  ⟨sound, fun _ member => (nomatch member)⟩

theorem Sound.chained {level : Int} {first : UnitPhrase}
    {links : Links ArithOp Operand Tree} (sound : Sound env first)
    (others : ∀ link ∈ links, Sound env link.2) :
    Sound env (chained level first links) := by
  refine ⟨sound.first, fun item member => ?_⟩
  rcases mem_append.mp member with early | late
  · exact sound.items item early
  · obtain ⟨link, present, inside⟩ := mem_flatMap.mp late
    rcases mem_cons.mp inside with own | later
    · rw [own]
      exact (others link present).first
    · exact (others link present).items item later

theorem Sum.prints {level : Int} {sum : Sum}
    (sound : Sound env (sum.phrase level)) :
    ∃ last, Prints env (unitsOf (sum.phrase level))
      (sum.phrase level).tree.plan [last] := by
  have walk : Climbs (fun operand : Operand => operand.tree.plan)
      (fun op => Plan.join op.formula) none (sum.phrase level).first.tree.plan
      (sum.phrase level).items (sum.phrase level).tree.plan [] :=
    (sum.climbs level).map Tree.plan fun _ _ _ => rfl
  refine prints_climbs walk sound.first.operates
    (fun item member => (sound.items item member).operates) ?_
  intro item _
  cases item.op <;> exact nofun

theorem Sum.readable {level : Int} {sum : Sum}
    (sound : Sound env (sum.phrase level)) :
    (sum.phrase level).tree.Readable env :=
  (sum.climbs level).closed (fun _ _ _ left right => ⟨left, right⟩)
    sound.first.readable fun item member => (sound.items item member).readable

theorem Func1.operates {function : Func1} (name : Spelling function.name)
    {argument : Sum} (sound : Sound env (argument.phrase 0)) :
    (Operand.call name.text (unitsOf (argument.phrase 0)) []
      (.call1 function name (argument.phrase 0).tree)).Sound env := by
  obtain ⟨last, prints⟩ := Sum.prints sound
  have spelled := Func1.spelled name
  have one : getFunParams name.text = 1 := by
    rw [spelled.getFunParams]
    cases function <;> decide
  have other : stricmp name.text "SET".toList ≠ 0 := by
    rw [(stricmp_congr spelled.same _).1]
    cases function <;> decide
  refine ⟨.call1 rfl rfl one prints fun out => ?_, Sum.readable sound⟩
  show runCall env out name.text [last] = _
  rw [runCall, if_neg other, one, if_pos rfl]

theorem Func2.operates {function : Func2} (name : Spelling function.name)
    {first second : Sum} (sound : Sound env (first.phrase 0))
    (soundSecond : Sound env (second.phrase 0)) :
    (Operand.call name.text (unitsOf (first.phrase 0))
      (unitsOf (second.phrase 0))
      (.call2 function name (first.phrase 0).tree
        (second.phrase 0).tree)).Sound env := by
  obtain ⟨last, prints⟩ := Sum.prints sound
  obtain ⟨_, printsSecond⟩ := Sum.prints soundSecond
  have spelled := Func2.spelled name
  have two : getFunParams name.text = 2 := by
    rw [spelled.getFunParams]
    cases function <;> decide
  have other : stricmp name.text "SET".toList ≠ 0 := by
    rw [(stricmp_congr spelled.same _).1]
    cases function <;> decide
  refine ⟨.call2 rfl rfl two prints printsSecond fun out => ?_,
    Sum.readable sound, Sum.readable soundSecond⟩
  show runCall env out name.text [last] = _
  rw [runCall, if_neg other, two, if_neg (by decide)]

mutual

theorem Sum.sound (level : Int) : (sum : Sum) → sum.legible = true →
    sum.short = true → Sound env (sum.phrase level)
  | .mk first more _, legible, short => by
      rw [Sum.legible, Bool.and_eq_true] at legible
      rw [Sum.short, Bool.and_eq_true] at short
      exact (first.sound level legible.1 short.1).chained
        (more.sound level legible.2 short.2)

theorem SumTail.sound (level : Int) : (more : SumTail) →
    more.legible = true → more.short = true →
      ∀ link ∈ more.links level, Sound env link.2
  | .nil, _, _ => fun _ member => (nomatch member)
  | .cons _ op term more, legible, short => by
      rw [SumTail.legible, Bool.and_eq_true] at legible
      rw [SumTail.short, Bool.and_eq_true] at short
      exact forall_mem_cons.mpr ⟨term.sound level legible.1 short.1,
        more.sound level legible.2 short.2⟩

theorem Term.sound (level : Int) : (term : Term) → term.legible = true →
    term.short = true → Sound env (term.phrase level)
  | .mk first more, legible, short => by
      rw [Term.legible, Bool.and_eq_true] at legible
      rw [Term.short, Bool.and_eq_true] at short
      exact (first.sound level legible.1 short.1).chained
        (more.sound level legible.2 short.2)

theorem TermTail.sound (level : Int) : (more : TermTail) →
    more.legible = true → more.short = true →
      ∀ link ∈ more.links level, Sound env link.2
  | .nil, _, _ => fun _ member => (nomatch member)
  | .cons _ op factor more, legible, short => by
      rw [TermTail.legible, Bool.and_eq_true] at legible
      rw [TermTail.short, Bool.and_eq_true] at short
      exact forall_mem_cons.mpr ⟨factor.sound level legible.1 short.1,
        more.sound level legible.2 short.2⟩

theorem Factor.sound (level : Int) : (factor : Factor) →
    factor.legible = true → factor.short = true →
      Sound env (factor.phrase level)
  | .number _ value, _, short => by
      rw [Factor.short, decide_eq_true_iff] at short
      exact .single ⟨.leaf rfl rfl, value.operandText env short⟩
  | .memory _ address, legible, _ =>
    .single ⟨.leaf rfl rfl, address.operandText env legible⟩
  | .bracket _ inner, legible, short => inner.sound _ legible short
  | .call1 _ _ name _ argument, legible, short => by
      rw [Factor.short, Bool.and_eq_true] at short
      exact .single (Func1.operates name (argument.sound 0 legible short.2))
  | .call2 _ _ name _ first second, legible, short => by
      rw [Factor.legible, Bool.and_eq_true] at legible
      rw [Factor.short, Bool.and_eq_true, Bool.and_eq_true,
        Bool.and_eq_true] at short
      exact .single (Func2.operates name
        (first.sound 0 legible.1 short.1.2)
        (second.sound 0 legible.2 short.2.2))

end

theorem printLines_coded {lines : List (List Char)} {nodes : List InsNode}
    (coded : Coded env lines nodes) {out : AsmOut} (fits : out.Fits nodes) :
    printLines env out lines = .ok (out.plus nodes) := by
  induction coded generalizing out with
  | nil => rw [AsmOut.plus_nil]; rfl
  | @cons line node lines nodes assembles coded induction =>
    rw [← singleton_append, AsmOut.fits_append] at fits
    rw [printLines_cons, assembles.printLine fits.1]
    show printLines env (out.plus [node]) lines = _
    rw [induction fits.2, AsmOut.plus_plus]
    rfl

theorem Coded.wellFormed {lines : List (List Char)} {nodes : List InsNode}
    (coded : Coded env lines nodes) : ∀ node ∈ nodes, node.WellFormed := by
  induction coded with
  | nil => exact fun _ member => (nomatch member)
  | cons assembles coded induction =>
    exact forall_mem_cons.mpr ⟨assembles.wellFormed, induction⟩

variable (env) in
/-- The code the compiler gives for a text, with rounds and room enough. -/
def CompilesTo (text : List Char) (code : List UInt8) : Prop :=
  ∃ rounds, ∀ fuel, rounds ≤ fuel → ∀ bufSize, code.length ≤ bufSize →
    vmParseExpression fuel env text bufSize = .ok code

theorem CompilesTo.unique {text : List Char} {code other : List UInt8}
    (one : CompilesTo env text code) (two : CompilesTo env text other) :
    code = other := by
  obtain ⟨rounds, one⟩ := one
  obtain ⟨more, two⟩ := two
  have first := one (max rounds more) (Nat.le_max_left _ _)
    (max code.length other.length) (Nat.le_max_left _ _)
  have second := two (max rounds more) (Nat.le_max_right _ _)
    (max code.length other.length) (Nat.le_max_right _ _)
  rw [first] at second
  exact Except.ok.inj second

theorem Sum.compiles {sum : Sum} (legible : sum.legible = true)
    (short : sum.short = true) (few : sum.unitNum ≤ opUnitNum) :
    ∃ nodes : List InsNode, (∀ node ∈ nodes, node.WellFormed) ∧
      CompilesTo env sum.text (InsNode.codeOf nodes) ∧
      ∀ ops cpu, Leaves ops (sum.phrase 0).tree.nesting cpu nodes
        ((sum.phrase 0).tree.value env ops cpu.memory) := by
  have sound : Sound env (sum.phrase 0) := sum.sound 0 legible short
  obtain ⟨last, rounds, prints⟩ := Sum.prints sound
  obtain ⟨_, start, _, spine, meaning⟩ :=
    (sum.phrase 0).tree.meaning (Sum.readable sound)
  refine ⟨start ++ spine, Coded.wellFormed meaning.lines,
    ⟨rounds, fun fuel enough bufSize room => ?_⟩, meaning.leaves⟩
  have parsed := (sum.parseExpress2node env opUnitNum).1 ⟨short, few⟩
  have printed := printLines_coded meaning.lines
    (show (⟨[], bufSize⟩ : AsmOut).Fits (start ++ spine) from room)
  rw [vmParseExpression, parsed]
  show (runExperssion env fuel ⟨[], bufSize⟩ (unitsOf (sum.phrase 0)) >>=
    fun value => _) = _
  rw [prints fuel enough, printed]
  rfl

/-- Only expressions that fit into the buffers of the parser are accepted. -/
theorem Sum.accepted {sum : Sum} {fuel bufSize : Nat} {code : List UInt8}
    (accepted : vmParseExpression fuel env sum.text bufSize = .ok code) :
    sum.short = true ∧ sum.unitNum ≤ opUnitNum := by
  by_contra unfit
  obtain ⟨fault, fails⟩ := (sum.parseExpress2node env opUnitNum).2 unfit
  rw [vmParseExpression, fails] at accepted
  cases accepted

/-- An expression that is accepted, whose memory operands the assembler reads
and whose nesting fits the stack, is compiled to code that leaves its usual
value in `REG1` if and only if it is regular. -/
theorem vmParseExpression_value_iff (env : FormulaEnv) (sum : Sum)
    (accepted : ∃ fuel bufSize code,
      vmParseExpression fuel env sum.text bufSize = .ok code)
    (legible : sum.legible = true) (fits : sum.tree.nesting ≤ vmStackSize) :
    (∃ code, CompilesTo env sum.text code ∧
      ∀ (ops : VmOps) (cpu : VmCpu), cpu.stack = [] →
        ∃ after, cpu.runCmd ops code = .ok after ∧
          after.reg1 = sum.tree.value env ops cpu.memory) ↔
      sum.regular = true := by
  obtain ⟨fuel, bufSize, result, accepted⟩ := accepted
  obtain ⟨short, few⟩ := Sum.accepted accepted
  obtain ⟨nodes, wellFormed, compiles, leaves⟩ :=
    @Sum.compiles env sum legible short few
  constructor
  · rintro ⟨code, compiled, computes⟩
    rw [compiled.unique compiles] at computes
    by_contra irregular
    rw [Bool.not_eq_true] at irregular
    obtain ⟨ops, other⟩ := sum.value_ne env 0 few irregular
      (show (⟨0, fun _ => none⟩ : VmMemory).size = 0 from rfl)
    obtain ⟨after, ran, value⟩ := computes ops
      { reg1 := 0
        reg2 := 0
        stack := []
        memory := ⟨0, fun _ => none⟩
        rands := 0 } rfl
    rw [VmCpu.runCmd_codeOf ops wellFormed] at ran
    obtain ⟨reg2, same⟩ := (leaves ops _).of_ok ran
    rw [same] at value
    exact other value
  · intro regular
    refine ⟨_, compiles, fun ops cpu empty => ?_⟩
    have same := sum.tree_phrase 0 regular
    obtain ⟨after, ran, reg2, final⟩ := (leaves ops cpu).ok (by
      rw [same, empty]
      simp only [length_nil]
      omega)
    refine ⟨after, ?_, ?_⟩
    · rw [VmCpu.runCmd_codeOf ops wellFormed]
      exact ran
    · rw [final, same]

end Expressions

section Small

def smallFloats : List VmValue :=
  [0x00000000, 0x3f800000, 0x40000000, 0x40400000, 0x40800000, 0x40a00000,
    0x40c00000, 0x40e00000, 0x41000000, 0x41100000, 0x41200000]

def smallOp (op : Nat → Nat → Nat) (left right : VmValue) : VmValue :=
  (smallFloats[op (smallFloats.idxOf left) (smallFloats.idxOf right)]?).getD 0

def smallOps : VmOps :=
  { add := smallOp (· + ·)
    sub := smallOp (· - ·)
    mul := smallOp (· * ·)
    div := smallOp (· / ·)
    isZero := (· = 0)
    max := smallOp max
    min := smallOp min
    ltzero := id
    sqrt := id
    round := id
    ceil := id
    floor := id
    rand := fun _ left _ => left
    prob := fun _ => id }

def smallEnv : FormulaEnv :=
  { code := .ansi
    atof := fun text => (smallFloats[decimal text]?).getD 0
    paramParse := none }

def smallCpu : VmCpu :=
  { reg1 := 0
    reg2 := 0
    stack := []
    memory := ⟨0, fun _ => none⟩
    rands := 0 }

def noBlank : Blank := ⟨[], nofun⟩

def literal (text : List Char) (plain : text.all numeral = true)
    (reads : readNumerals text = some ⟨true, text, []⟩) : Factor :=
  .number noBlank
    { text := text
      copied := text
      plain := fun c member => .inl (List.all_eq_true.mp plain c member)
      reads := reads }

/-- `10-2*3` -/
def productLast : Sum :=
  .mk (.mk (literal "10".toList rfl rfl) .nil)
    (.cons noBlank .sub
      (.mk (literal "2".toList rfl rfl)
        (.cons noBlank .mul (literal "3".toList rfl rfl) .nil)) .nil) noBlank

/-- `10-2*3-1` -/
def productInside : Sum :=
  .mk (.mk (literal "10".toList rfl rfl) .nil)
    (.cons noBlank .sub
      (.mk (literal "2".toList rfl rfl)
        (.cons noBlank .mul (literal "3".toList rfl rfl) .nil))
      (.cons noBlank .sub (.mk (literal "1".toList rfl rfl) .nil) .nil)) noBlank

theorem ok_of_toOption {ε α : Type} {result : Except ε α} {value : α}
    (found : result.toOption = some value) : result = .ok value := by
  cases result with
  | error fault => cases found
  | ok other => exact congrArg Except.ok (Option.some.inj found)

theorem vmParseExpression_value_productLast :
    productLast.text = "10-2*3".toList ∧
      ∃ code, CompilesTo smallEnv productLast.text code ∧
        ∀ (ops : VmOps) (cpu : VmCpu), cpu.stack = [] →
          ∃ after, cpu.runCmd ops code = .ok after ∧
            after.reg1 = productLast.tree.value smallEnv ops cpu.memory := by
  have accepted : (vmParseExpression 10 smallEnv productLast.text 100).toOption =
      some [1, 4, 1, 0, 0, 32, 65, 6, 4, 1, 4, 1, 0, 0, 0, 64, 4, 4, 1, 0, 0, 64,
        64, 1, 5, 4, 7, 4, 3, 4, 5] := by
    decide +kernel
  refine ⟨by decide +kernel, ?_⟩
  exact (vmParseExpression_value_iff smallEnv productLast
    ⟨10, 100, _, ok_of_toOption accepted⟩ rfl (by decide)).mpr rfl

/-- The product swallows the rest of the chain: `10-2*3-1` gives 5. -/
theorem vmParseExpression_productInside :
    productInside.text = "10-2*3-1".toList ∧
      (∃ code after,
        vmParseExpression 10 smallEnv productInside.text 100 = .ok code ∧
          smallCpu.runCmd smallOps code = .ok after ∧
          after.reg1 = 0x40a00000) ∧
      productInside.tree.value smallEnv smallOps smallCpu.memory =
        0x40400000 := by
  have compiled :
      (vmParseExpression 10 smallEnv productInside.text 100).toOption =
        some [1, 4, 1, 0, 0, 32, 65, 6, 4, 1, 4, 1, 0, 0, 0, 64, 4, 4, 1, 0, 0,
          64, 64, 3, 4, 1, 0, 0, 128, 63, 1, 5, 4, 7, 4, 3, 4, 5] := by
    decide +kernel
  have ran : ((smallCpu.runCmd smallOps
      [1, 4, 1, 0, 0, 32, 65, 6, 4, 1, 4, 1, 0, 0, 0, 64, 4, 4, 1, 0, 0,
        64, 64, 3, 4, 1, 0, 0, 128, 63, 1, 5, 4, 7, 4, 3, 4, 5]).toOption.map
      VmCpu.reg1) = some 0x40a00000 := by
    decide +kernel
  obtain ⟨after, found, value⟩ := Option.map_eq_some_iff.mp ran
  exact ⟨by decide +kernel, ⟨_, after, ok_of_toOption compiled,
    ok_of_toOption found, value⟩, by decide +kernel⟩

end Small

end NdNet.Formula
