import NdNet.Vm.Machine

/-!
# Byte code

The machine reads the instructions back from their bytes as they were written,
up to the operands that are not written, and those it does not look at.
-/

namespace NdNet

variable {ds : DataSrc} {nodes : List InsNode}

namespace InsNode

def Holds (ds : DataSrc) (value : VmValue) : Prop :=
  ds.valid = true ∧ (ds.carries = false → value = 0)

instance (ds : DataSrc) (value : VmValue) : Decidable (Holds ds value) :=
  inferInstanceAs (Decidable (_ ∧ _))

structure WellFormed (node : InsNode) : Prop where
  valid : node.ins.valid = true
  first : Holds node.ds1 node.val1
  second : Holds node.ds2 node.val2
  noFirst : node.ins.hasFirst = false → node.ds1 = .none
  noSecond : node.ins.hasSecond = false → node.ds2 = .none

theorem ofCode_code {ins : VmIns} (valid : ins.valid = true) :
    VmIns.ofCode ins.code = ins := by
  cases ins with
  | bad code => cases valid
  | _ => rfl

theorem ofCode_code_ds (valid : ds.valid = true) :
    DataSrc.ofCode ds.code = ds := by
  cases ds with
  | bad code => cases valid
  | _ => rfl

theorem readData_valueBytes (value : VmValue) (rest : List UInt8) :
    readData (valueBytes value ++ rest) = some (value, rest) := by
  have bytes : value.toNat % 256 + 256 * (value.toNat / 256 % 256) +
      65536 * (value.toNat / 65536 % 256) +
      16777216 * (value.toNat / 16777216 % 256) = value.toNat := by
    omega
  show some (BitVec.ofNat 32 _, rest) = _
  simp only [UInt8.toNat_ofNat']
  rw [bytes, BitVec.ofNat_toNat, BitVec.setWidth_eq]

theorem readOperand_operandBytes {value : VmValue} (holds : Holds ds value)
    (rest : List UInt8) :
    readOperand (operandBytes ds value ++ rest) = some ((ds, value), rest) := by
  rw [operandBytes, List.cons_append, readOperand, ofCode_code_ds holds.1]
  cases carries : ds.carries with
  | true =>
    simp only [if_true]
    rw [readData_valueBytes]
    rfl
  | false =>
    rw [holds.2 carries]
    rfl

theorem readOptional_bytes {present : Bool} {value : VmValue}
    (holds : Holds ds value) (absent : present = false → ds = .none)
    (rest : List UInt8) :
    readOptional present
        ((if present then operandBytes ds value else []) ++ rest) =
      some ((ds, value), rest) := by
  cases present with
  | true => exact readOperand_operandBytes holds rest
  | false =>
    obtain rfl := absent rfl
    rw [holds.2 rfl]
    rfl

theorem WellFormed.instruction2node {node : InsNode}
    (wellFormed : node.WellFormed) (rest : List UInt8) :
    instruction2node (node.instruct2buf ++ rest) = some (node, rest) := by
  rw [instruct2buf, List.cons_append, InsNode.instruction2node,
    ofCode_code wellFormed.valid, List.append_assoc,
    readOptional_bytes wellFormed.first wellFormed.noFirst]
  show (readOptional _ _ >>= fun second => _) = _
  rw [readOptional_bytes wellFormed.second wellFormed.noSecond]
  rfl

/-- An instruction without the operands and values that are not written. -/
def written (node : InsNode) : InsNode :=
  { ins := node.ins
    ds1 := if node.ins.hasFirst then node.ds1 else .none
    ds2 := if node.ins.hasSecond then node.ds2 else .none
    val1 := if node.ins.hasFirst && node.ds1.carries then node.val1 else 0
    val2 := if node.ins.hasSecond && node.ds2.carries then node.val2 else 0 }

structure Known (node : InsNode) : Prop where
  ins : node.ins.valid = true
  ds1 : node.ds1.valid = true
  ds2 : node.ds2.valid = true

theorem holds_written {present : Bool} (value : VmValue)
    (valid : ds.valid = true) :
    Holds (if present then ds else .none)
      (if present && ds.carries then value else 0) := by
  cases present with
  | false => exact ⟨rfl, fun _ => rfl⟩
  | true =>
    refine ⟨valid, fun absent => ?_⟩
    rw [show ds.carries = false from absent]
    rfl

theorem Known.wellFormed {node : InsNode} (known : node.Known) :
    node.written.WellFormed :=
  { valid := known.ins
    first := holds_written node.val1 known.ds1
    second := holds_written node.val2 known.ds2
    noFirst := fun absent => if_neg (Bool.not_eq_true _ ▸ absent)
    noSecond := fun absent => if_neg (Bool.not_eq_true _ ▸ absent) }

theorem operandBytes_written (present : Bool) (ds : DataSrc) (value : VmValue) :
    (if present then
        operandBytes (if present then ds else .none)
          (if present && ds.carries then value else 0)
      else []) =
      if present then operandBytes ds value else [] := by
  cases present with
  | false => rfl
  | true =>
    show operandBytes ds (if ds.carries then value else 0) =
      operandBytes ds value
    rw [operandBytes, operandBytes]
    cases ds.carries <;> rfl

theorem instruct2buf_written (node : InsNode) :
    node.written.instruct2buf = node.instruct2buf := by
  rw [instruct2buf, instruct2buf]
  show node.ins.code :: (_ ++ _) = node.ins.code :: (_ ++ _)
  congr 2
  · exact operandBytes_written _ _ _
  · exact operandBytes_written _ _ _

def codeOf (nodes : List InsNode) : List UInt8 :=
  nodes.flatMap instruct2buf

theorem codeOf_append (first second : List InsNode) :
    codeOf (first ++ second) = codeOf first ++ codeOf second :=
  List.flatMap_append

/-- `vm_instruction_2node` called again and again, until all bytes are read. -/
def instructions2nodes : Nat → List UInt8 → Option (List InsNode)
  | _, [] => some []
  | 0, _ :: _ => none
  | steps + 1, byte :: rest => do
      let read ← instruction2node (byte :: rest)
      let nodes ← instructions2nodes steps read.2
      return read.1 :: nodes

theorem WellFormed.codeOf_cons {node : InsNode} (first : node.WellFormed)
    {steps : Nat} (enough : (codeOf (node :: nodes)).length ≤ steps) :
    ∃ byte rest less, codeOf (node :: nodes) = byte :: rest ∧
      steps = less + 1 ∧ (codeOf nodes).length ≤ less ∧
      InsNode.instruction2node (byte :: rest) = some (node, codeOf nodes) := by
  have code : codeOf (node :: nodes) = node.instruct2buf ++ codeOf nodes := rfl
  have read := first.instruction2node (codeOf nodes)
  rw [code] at enough ⊢
  rw [instruct2buf, List.cons_append, List.length_cons,
    List.length_append] at enough
  rw [instruct2buf, List.cons_append] at read ⊢
  exact ⟨_, _, steps - 1, rfl, by omega, by omega, read⟩

theorem instructions2nodes_codeOf (wellFormed : ∀ node ∈ nodes, node.WellFormed)
    {steps : Nat} (enough : (codeOf nodes).length ≤ steps) :
    instructions2nodes steps (codeOf nodes) = some nodes := by
  induction nodes generalizing steps with
  | nil => cases steps <;> rfl
  | cons node nodes induction =>
    obtain ⟨first, others⟩ := List.forall_mem_cons.mp wellFormed
    obtain ⟨byte, rest, less, code, rfl, left, read⟩ := first.codeOf_cons enough
    rw [code, instructions2nodes, read]
    show (instructions2nodes less (codeOf nodes) >>= fun nodes => _) = _
    rw [induction others left]
    rfl

theorem codeOf_written (nodes : List InsNode) :
    codeOf (nodes.map written) = codeOf nodes := by
  rw [codeOf, codeOf, List.flatMap_map]
  exact congrArg (fun bytes => nodes.flatMap bytes) (funext instruct2buf_written)

end InsNode

namespace VmCpu

open InsNode

theorem runSteps_codeOf (ops : VmOps)
    (wellFormed : ∀ node ∈ nodes, node.WellFormed) (cpu : VmCpu) {steps : Nat}
    (enough : (codeOf nodes).length ≤ steps) :
    runSteps ops steps cpu (codeOf nodes) = runNodes ops cpu nodes := by
  induction nodes generalizing cpu steps with
  | nil => cases steps <;> rfl
  | cons node nodes induction =>
    obtain ⟨first, others⟩ := List.forall_mem_cons.mp wellFormed
    obtain ⟨byte, rest, less, code, rfl, left, read⟩ := first.codeOf_cons enough
    rw [code, runSteps, read, runNodes, List.foldlM_cons]
    dsimp only
    cases runInsnode ops cpu node with
    | error fault => rfl
    | ok after => exact induction others after left

theorem runCmd_codeOf (ops : VmOps)
    (wellFormed : ∀ node ∈ nodes, node.WellFormed) (cpu : VmCpu) :
    runCmd ops cpu (codeOf nodes) = runNodes ops cpu nodes :=
  runSteps_codeOf ops wellFormed cpu (Nat.le_refl _)

section Written

variable (cpu : VmCpu)

theorem getvalue_written (ds : DataSrc) (value : VmValue) :
    cpu.getvalue ds (if ds.carries then value else 0) =
      cpu.getvalue ds value := by
  cases ds <;> rfl

theorem refOperand_written (ds : DataSrc) (value : VmValue) :
    cpu.refOperand ds (if ds.carries then value else 0) =
      cpu.refOperand ds value := by
  cases ds <;> rfl

theorem runInsnode_written (ops : VmOps) (node : InsNode) :
    cpu.runInsnode ops node.written = cpu.runInsnode ops node := by
  obtain ⟨ins, ds1, ds2, val1, val2⟩ := node
  have first := cpu.getvalue_written ds1 val1
  have second := cpu.getvalue_written ds2 val2
  have place := cpu.refOperand_written ds1 val1
  have update : ∀ (ins : VmIns) change,
      cpu.update ⟨ins, ds1, ds2, if ds1.carries then val1 else 0,
        if ds2.carries then val2 else 0⟩ change =
      cpu.update ⟨ins, ds1, ds2, val1, val2⟩ change := by
    intro ins change
    rw [VmCpu.update, VmCpu.update]
    rw [second, place]
  have answer : ∀ (ins : VmIns) function,
      cpu.answer ⟨ins, ds1, ds2, if ds1.carries then val1 else 0,
        if ds2.carries then val2 else 0⟩ function =
      cpu.answer ⟨ins, ds1, ds2, val1, val2⟩ function := by
    intro ins function
    rw [VmCpu.answer, VmCpu.answer]
    rw [first, second]
  have alone : ∀ (ins : VmIns) (function : VmValue → VmValue),
      cpu.answer ⟨ins, ds1, .none, if ds1.carries then val1 else 0, 0⟩
        (fun value _ => function value) =
      cpu.answer ⟨ins, ds1, ds2, val1, val2⟩ fun value _ => function value := by
    intro ins function
    rw [VmCpu.answer, VmCpu.answer]
    rw [first]
  cases ins with
  | nop | bad code => rfl
  | push =>
    show (if _ then Except.ok { cpu with
      stack := cpu.getvalue ds1 (if ds1.carries then val1 else 0) ::
        cpu.stack } else _) = _
    rw [first]
    rfl
  | pop =>
    rw [show (⟨.pop, ds1, ds2, val1, val2⟩ : InsNode).written =
      ⟨.pop, ds1, .none, if ds1.carries then val1 else 0, 0⟩ from rfl,
      VmCpu.runInsnode, VmCpu.runInsnode]
    rw [place]
  | max | min => exact congrArg Except.ok (answer _ _)
  | rand =>
    exact congrArg (fun cpu' : VmCpu =>
      Except.ok { cpu' with rands := cpu.rands + 1 }) (answer _ _)
  | prob =>
    exact congrArg (fun cpu' : VmCpu =>
      Except.ok { cpu' with rands := cpu.rands + 1 }) (alone _ _)
  | ltzero | sqrt | round | ceil | floor => exact congrArg Except.ok (alone _ _)
  | mov | add | sub | mul | div => exact congrArg Except.ok (update _ _)

end Written

/-- The bytes of a list of instructions are read back as these instructions, up
to what is not written, and running the bytes is running the list. -/
theorem codeOf_roundTrip (nodes : List InsNode)
    (known : ∀ node ∈ nodes, node.Known) :
    instructions2nodes (codeOf nodes).length (codeOf nodes) =
        some (nodes.map InsNode.written) ∧
      ∀ (ops : VmOps) (cpu : VmCpu),
        cpu.runCmd ops (codeOf nodes) = cpu.runNodes ops nodes := by
  have wellFormed : ∀ node ∈ nodes.map InsNode.written, node.WellFormed := by
    intro node member
    obtain ⟨source, present, rfl⟩ := List.mem_map.mp member
    exact (known source present).wellFormed
  rw [← codeOf_written]
  refine ⟨instructions2nodes_codeOf wellFormed (Nat.le_refl _),
    fun ops cpu => ?_⟩
  have step : (fun cpu node => runInsnode ops cpu (InsNode.written node)) =
      runInsnode ops :=
    funext fun cpu => funext (cpu.runInsnode_written ops)
  rw [runCmd_codeOf ops wellFormed, runNodes, runNodes, List.foldlM_map, step]

/-- `NOP` has a second operand, and `PUSH` has none. -/
def oddNodes : List InsNode :=
  [⟨.nop, .none, .address, 5, 7⟩, ⟨.push, .reg1, .stack, 3, 4⟩,
    ⟨.mov, .reg2, .immediate, 1, 2⟩]

theorem codeOf_roundTrip_odd :
    instructions2nodes (codeOf oddNodes).length (codeOf oddNodes) =
        some [⟨.nop, .none, .address, 0, 7⟩, ⟨.push, .reg1, .none, 0, 0⟩,
          ⟨.mov, .reg2, .immediate, 0, 2⟩] ∧
      ∀ (ops : VmOps) (cpu : VmCpu),
        cpu.runCmd ops (codeOf oddNodes) = cpu.runNodes ops oddNodes := by
  refine codeOf_roundTrip oddNodes fun node member => ?_
  simp only [oddNodes, List.mem_cons, List.not_mem_nil, or_false] at member
  rcases member with rfl | rfl | rfl
  · exact ⟨rfl, rfl, rfl⟩
  · exact ⟨rfl, rfl, rfl⟩
  · exact ⟨rfl, rfl, rfl⟩

end VmCpu

end NdNet
