import Mathlib.Data.List.Basic

/-!
# The virtual machine of `nd_vm.c`

A `vm_value` is a `float`.  Its bits are all the machine itself looks at, also
where an instruction holds an address, so a value is modelled by its 32 bits and
the arithmetic on values by arbitrary functions on them.

The stack is modelled by the pushed values, the last one first.  A program that
pushes more than the stack holds, takes more than was pushed or ends inside an
instruction makes the machine use memory that is not its own; such a run has no
result here.
-/

namespace NdNet

/-- The bits of a `vm_value`. -/
abbrev VmValue := BitVec 32

/-- `enum e_vm_op` and the codes that are none of it. -/
inductive VmIns where
  | nop
  | mov
  | add
  | sub
  | mul
  | div
  | push
  | pop
  | max
  | min
  | rand
  | ltzero
  | prob
  | sqrt
  | round
  | ceil
  | floor
  | bad (code : UInt8)
  deriving DecidableEq, Repr

/-- `enum e_data_src` and the codes that are none of it. -/
inductive DataSrc where
  | none
  | immediate
  | address
  | stack
  | reg1
  | reg2
  | bad (code : UInt8)
  deriving DecidableEq, Repr

namespace VmIns

def code : VmIns → UInt8
  | nop => 0
  | mov => 1
  | add => 2
  | sub => 3
  | mul => 4
  | div => 5
  | push => 6
  | pop => 7
  | max => 8
  | min => 9
  | rand => 10
  | ltzero => 11
  | prob => 12
  | sqrt => 13
  | round => 14
  | ceil => 15
  | floor => 16
  | bad code => code

def ofCode (byte : UInt8) : VmIns :=
  match byte.toNat with
  | 0 => nop
  | 1 => mov
  | 2 => add
  | 3 => sub
  | 4 => mul
  | 5 => div
  | 6 => push
  | 7 => pop
  | 8 => max
  | 9 => min
  | 10 => rand
  | 11 => ltzero
  | 12 => prob
  | 13 => sqrt
  | 14 => round
  | 15 => ceil
  | 16 => floor
  | _ => bad byte

def valid : VmIns → Bool
  | bad _ => false
  | _ => true

def operandNum : VmIns → Nat
  | nop => 0
  | push | pop | ltzero | prob | sqrt | round | ceil | floor => 1
  | _ => 2

/-- `if(num--)` at the first operand. -/
def hasFirst (ins : VmIns) : Bool :=
  ins.operandNum != 0

/-- `if(num)` behind the first operand.  Without operands the counter has run
below zero by then, which counts as an operand. -/
def hasSecond (ins : VmIns) : Bool :=
  ins.operandNum != 1

def noOperand (ins : VmIns) : Bool :=
  ins = nop || ins = pop

end VmIns

namespace DataSrc

def code : DataSrc → UInt8
  | none => 0
  | immediate => 1
  | address => 2
  | stack => 3
  | reg1 => 4
  | reg2 => 5
  | bad code => code

def ofCode (byte : UInt8) : DataSrc :=
  match byte.toNat with
  | 0 => none
  | 1 => immediate
  | 2 => address
  | 3 => stack
  | 4 => reg1
  | 5 => reg2
  | _ => bad byte

def valid : DataSrc → Bool
  | bad _ => false
  | _ => true

def carries : DataSrc → Bool
  | immediate | address | stack => true
  | _ => false

end DataSrc

/-- `struct vm_instruction_node` -/
structure InsNode where
  ins : VmIns
  ds1 : DataSrc
  ds2 : DataSrc
  val1 : VmValue
  val2 : VmValue
  deriving DecidableEq, Repr

namespace InsNode

/-- `_WRITE_AND_INC_ADDR` of a value. -/
def valueBytes (value : VmValue) : List UInt8 :=
  [UInt8.ofNat value.toNat, UInt8.ofNat (value.toNat / 256),
    UInt8.ofNat (value.toNat / 65536), UInt8.ofNat (value.toNat / 16777216)]

def readData : List UInt8 → Option (VmValue × List UInt8)
  | b0 :: b1 :: b2 :: b3 :: rest =>
    some (BitVec.ofNat 32 (b0.toNat + 256 * b1.toNat + 65536 * b2.toNat +
      16777216 * b3.toNat), rest)
  | _ => none

def operandBytes (ds : DataSrc) (value : VmValue) : List UInt8 :=
  ds.code :: if ds.carries then valueBytes value else []

def readOperand : List UInt8 → Option ((DataSrc × VmValue) × List UInt8)
  | [] => none
  | byte :: rest =>
    let ds := DataSrc.ofCode byte
    if ds.carries then
      (readData rest).map fun found => ((ds, found.1), found.2)
    else some ((ds, 0), rest)

def instruct2buf (node : InsNode) : List UInt8 :=
  node.ins.code ::
    ((if node.ins.hasFirst then operandBytes node.ds1 node.val1 else []) ++
      if node.ins.hasSecond then operandBytes node.ds2 node.val2 else [])

def readOptional (present : Bool) (bytes : List UInt8) :
    Option ((DataSrc × VmValue) × List UInt8) :=
  if present then readOperand bytes else some ((.none, 0), bytes)

/-- `vm_instruction_2node` of a node that is zero before. -/
def instruction2node : List UInt8 → Option (InsNode × List UInt8)
  | [] => none
  | byte :: rest => do
      let ins := VmIns.ofCode byte
      let first ← readOptional ins.hasFirst rest
      let second ← readOptional ins.hasSecond first.2
      return (⟨ins, first.1.1, second.1.1, first.1.2, second.1.2⟩, second.2)

end InsNode

/-- The memory of the machine: an array, or what the port function finds, which
may be nothing. -/
structure VmMemory where
  /-- `(vm_adddress)mem_size` -/
  size : Int
  cell : Nat → Option VmValue

/-- `struct vm_cpu`; `rands` counts the calls of `rand`. -/
structure VmCpu where
  reg1 : VmValue
  reg2 : VmValue
  stack : List VmValue
  memory : VmMemory
  rands : Nat

def vmStackSize : Nat := 32

/-- What the instructions compute.  `rand` and `prob` are given the number of
the call. -/
structure VmOps where
  add : VmValue → VmValue → VmValue
  sub : VmValue → VmValue → VmValue
  mul : VmValue → VmValue → VmValue
  div : VmValue → VmValue → VmValue
  isZero : VmValue → Bool
  max : VmValue → VmValue → VmValue
  min : VmValue → VmValue → VmValue
  ltzero : VmValue → VmValue
  sqrt : VmValue → VmValue
  round : VmValue → VmValue
  ceil : VmValue → VmValue
  floor : VmValue → VmValue
  rand : Nat → VmValue → VmValue → VmValue
  prob : Nat → VmValue → VmValue

/-- `EOP_DIV` leaves the value alone when it is divided by zero. -/
def VmOps.divide (ops : VmOps) (value by_ : VmValue) : VmValue :=
  if ops.isZero by_ then value else ops.div value by_

def VmMemory.read (memory : VmMemory) (index : Int) : Option VmValue :=
  if 0 ≤ index ∧ index < memory.size then memory.cell index.toNat else none

/-- What `vm_ref_operand` points at; stack slots are counted from the base. -/
inductive VmPlace where
  | reg1
  | reg2
  | stack (slot : Nat)
  | memory (index : Nat)
  deriving DecidableEq, Repr

/-- Why a run has no result. -/
inductive VmFault where
  /-- The machine returns -1. -/
  | badInstruction
  /-- Memory outside of the stack or of the code is used. -/
  | outside
  deriving DecidableEq, Repr

namespace VmCpu

def slot (cpu : VmCpu) (index : Int) : Option Nat :=
  if index < 0 then
    if 0 ≤ cpu.stack.length + index then
      some (cpu.stack.length + index).toNat
    else none
  else if index < cpu.stack.length then some index.toNat
  else none

def getvalue (cpu : VmCpu) (ds : DataSrc) (value : VmValue) : VmValue :=
  match ds with
  | .immediate => value
  | .reg1 => cpu.reg1
  | .reg2 => cpu.reg2
  | .stack =>
    ((cpu.slot value.toInt).bind fun slot => cpu.stack.reverse[slot]?).getD 0
  | .address => (cpu.memory.read value.toInt).getD 0
  | .none | .bad _ => 0

def refOperand (cpu : VmCpu) (ds : DataSrc) (value : VmValue) :
    Option VmPlace :=
  match ds with
  | .reg1 => some .reg1
  | .reg2 => some .reg2
  | .stack => (cpu.slot value.toInt).map .stack
  | .address =>
    (cpu.memory.read value.toInt).map fun _ => .memory value.toInt.toNat
  | .none | .immediate | .bad _ => none

def store (cpu : VmCpu) (value : VmValue) : VmPlace → VmCpu
  | .reg1 => { cpu with reg1 := value }
  | .reg2 => { cpu with reg2 := value }
  | .stack slot =>
    { cpu with stack := (cpu.stack.reverse.set slot value).reverse }
  | .memory index =>
    { cpu with
      memory :=
        { cpu.memory with
          cell := Function.update cpu.memory.cell index (some value) } }

def load (cpu : VmCpu) : VmPlace → VmValue
  | .reg1 => cpu.reg1
  | .reg2 => cpu.reg2
  | .stack slot => (cpu.stack.reverse[slot]?).getD 0
  | .memory index => (cpu.memory.cell index).getD 0

/-- The instructions that change their first operand. -/
def update (cpu : VmCpu) (node : InsNode)
    (change : VmValue → VmValue → VmValue) : VmCpu :=
  let val2 := cpu.getvalue node.ds2 node.val2
  match cpu.refOperand node.ds1 node.val1 with
  | some place => cpu.store (change (cpu.load place) val2) place
  | none => cpu

/-- The instructions that leave a function of their operands in `reg1`. -/
def answer (cpu : VmCpu) (node : InsNode)
    (function : VmValue → VmValue → VmValue) : VmCpu :=
  { cpu with
    reg1 := function (cpu.getvalue node.ds1 node.val1)
      (cpu.getvalue node.ds2 node.val2) }

def runInsnode (ops : VmOps) (cpu : VmCpu) (node : InsNode) :
    Except VmFault VmCpu :=
  match node.ins with
  | .mov => .ok (cpu.update node fun _ value => value)
  | .add => .ok (cpu.update node ops.add)
  | .sub => .ok (cpu.update node ops.sub)
  | .mul => .ok (cpu.update node ops.mul)
  | .div => .ok (cpu.update node ops.divide)
  | .push =>
    if cpu.stack.length < vmStackSize then
      .ok { cpu with
        stack := cpu.getvalue node.ds1 node.val1 :: cpu.stack }
    else .error .outside
  | .pop =>
    match cpu.stack with
    | [] => .error .outside
    | top :: rest =>
      let popped := { cpu with stack := rest }
      match cpu.refOperand node.ds1 node.val1 with
      | some place => .ok (popped.store top place)
      | none => .ok popped
  | .max => .ok (cpu.answer node ops.max)
  | .min => .ok (cpu.answer node ops.min)
  | .rand =>
    .ok { cpu.answer node (ops.rand cpu.rands) with rands := cpu.rands + 1 }
  | .ltzero => .ok (cpu.answer node fun value _ => ops.ltzero value)
  | .prob =>
    .ok { cpu.answer node (fun value _ => ops.prob cpu.rands value) with
      rands := cpu.rands + 1 }
  | .sqrt => .ok (cpu.answer node fun value _ => ops.sqrt value)
  | .round => .ok (cpu.answer node fun value _ => ops.round value)
  | .ceil => .ok (cpu.answer node fun value _ => ops.ceil value)
  | .floor => .ok (cpu.answer node fun value _ => ops.floor value)
  | .nop => .ok cpu
  | .bad _ => .error .badInstruction

def runNodes (ops : VmOps) (cpu : VmCpu) (nodes : List InsNode) :
    Except VmFault VmCpu :=
  nodes.foldlM (runInsnode ops) cpu

/-- The loop of `vm_run_cmd` with a bound on the number of steps. -/
def runSteps (ops : VmOps) : Nat → VmCpu → List UInt8 → Except VmFault VmCpu
  | _, cpu, [] => .ok cpu
  | 0, _, _ :: _ => .error .outside
  | steps + 1, cpu, byte :: rest =>
    match InsNode.instruction2node (byte :: rest) with
    | none => .error .outside
    | some (node, next) =>
      match runInsnode ops cpu node with
      | .ok after => runSteps ops steps after next
      | .error fault => .error fault

/-- `vm_run_cmd`; every step reads a byte. -/
def runCmd (ops : VmOps) (cpu : VmCpu) (code : List UInt8) :
    Except VmFault VmCpu :=
  runSteps ops code.length cpu code

end VmCpu

end NdNet
