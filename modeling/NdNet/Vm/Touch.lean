import NdNet.Lib.Access
import NdNet.Vm.Machine

/-!
# What the virtual machine touches

The functions of `nd_vm.c` once more, with every byte of the code, slot of the
stack and cell of the memory they read or write.  The stack pointer may leave
the stack without anything being touched: `EOP_POP` without a place for the
value only counts it down.  It has then passed the base, where nothing is
pushed, and `below` says how far.
-/

namespace NdNet

/-- What the machine reads or writes: a byte of the code, counted from its
beginning, a slot of the stack or a cell of the memory. -/
inductive VmTouch where
  | code (offset : Nat)
  | stack (slot : Int)
  | memory (index : Int)
  deriving DecidableEq, Repr

def VmTouch.Inside (codeSize memSize : Nat) : VmTouch → Prop
  | .code offset => offset < codeSize
  | .stack slot => 0 ≤ slot ∧ slot < vmStackSize
  | .memory index => 0 ≤ index ∧ index < memSize

/-- `struct vm_cpu` while it runs. -/
structure VmSpot where
  ip : Nat
  cpu : VmCpu
  /-- How far the stack pointer is in front of the stack. -/
  below : Nat

/-- How a call of `vm_run_cmd` ends, or that it has not come to its end. -/
inductive VmEnd where
  | returned (answer : Int) (cpu : VmCpu)
  | running

namespace VmSpot

/-- `vm->sp - vm->stack` -/
def height (spot : VmSpot) : Int :=
  spot.cpu.stack.length - spot.below

end VmSpot

namespace Touching

def byteAt (code : List UInt8) (ip : Nat) : Access VmTouch UInt8 :=
  .reach (.code ip) code[ip]?

def readData (code : List UInt8) (ip : Nat) :
    Access VmTouch (VmValue × Nat) := do
  let b0 ← byteAt code ip
  let b1 ← byteAt code (ip + 1)
  let b2 ← byteAt code (ip + 2)
  let b3 ← byteAt code (ip + 3)
  return (BitVec.ofNat 32 (b0.toNat + 256 * b1.toNat + 65536 * b2.toNat +
    16777216 * b3.toNat), ip + 4)

/-- One operand of `vm_instruction_2node`. -/
def readOperand (code : List UInt8) (ip : Nat) :
    Access VmTouch ((DataSrc × VmValue) × Nat) := do
  let byte ← byteAt code ip
  if (DataSrc.ofCode byte).carries then do
    let found ← readData code (ip + 1)
    return ((DataSrc.ofCode byte, found.1), found.2)
  else return ((DataSrc.ofCode byte, 0), ip + 1)

def readOptional (present : Bool) (code : List UInt8) (ip : Nat) :
    Access VmTouch ((DataSrc × VmValue) × Nat) :=
  if present then readOperand code ip else return ((.none, 0), ip)

def instruction2node (code : List UInt8) (ip : Nat) :
    Access VmTouch (InsNode × Nat) := do
  let byte ← byteAt code ip
  let ins := VmIns.ofCode byte
  let first ← readOptional ins.hasFirst code (ip + 1)
  let second ← readOptional ins.hasSecond code first.2
  return (⟨ins, first.1.1, second.1.1, first.1.2, second.1.2⟩, second.2)

section Machine

def found (place : VmTouch) : Access VmTouch Unit :=
  .reach place (some ())

def getvalue (cpu : VmCpu) (ds : DataSrc) (value : VmValue) :
    Access VmTouch VmValue :=
  match ds with
  | .stack =>
    match cpu.slot value.toInt with
    | some slot => do
        found (.stack slot)
        return cpu.getvalue .stack value
    | none => return 0
  | .address =>
    match cpu.memory.read value.toInt with
    | some cell => do
        found (.memory value.toInt)
        return cell
    | none => return 0
  | ds => return cpu.getvalue ds value

def follow : VmPlace → Access VmTouch Unit
  | .reg1 | .reg2 => return ()
  | .stack slot => found (.stack slot)
  | .memory index => found (.memory index)

/-- `*val1 = value` -/
def store (cpu : VmCpu) (value : VmValue) (place : VmPlace) :
    Access VmTouch VmCpu := do
  follow place
  return cpu.store value place

/-- `EOP_MOV` -/
def assign (cpu : VmCpu) (node : InsNode) : Access VmTouch VmCpu := do
  let val2 ← getvalue cpu node.ds2 node.val2
  match cpu.refOperand node.ds1 node.val1 with
  | some place => store cpu val2 place
  | none => return cpu

/-- The instructions that combine the value at their first operand with the
second one, unless `skip` says that nothing is done. -/
def update (cpu : VmCpu) (node : InsNode) (skip : VmValue → Bool)
    (change : VmValue → VmValue → VmValue) : Access VmTouch VmCpu := do
  let val2 ← getvalue cpu node.ds2 node.val2
  match cpu.refOperand node.ds1 node.val1 with
  | some place =>
    if skip val2 then return cpu
    else do
      follow place
      store cpu (change (cpu.load place) val2) place
  | none => return cpu

/-- The instructions that leave a function of both operands in `reg1`. -/
def answer (cpu : VmCpu) (node : InsNode)
    (function : VmValue → VmValue → VmValue) : Access VmTouch VmCpu := do
  let val1 ← getvalue cpu node.ds1 node.val1
  let val2 ← getvalue cpu node.ds2 node.val2
  return { cpu with reg1 := function val1 val2 }

def answerOne (cpu : VmCpu) (node : InsNode) (function : VmValue → VmValue) :
    Access VmTouch VmCpu := do
  let val1 ← getvalue cpu node.ds1 node.val1
  return { cpu with reg1 := function val1 }

def slotAt (slot : Int) : Access VmTouch Unit :=
  .reach (.stack slot)
    (if 0 ≤ slot ∧ slot < vmStackSize then some () else none)

def push (spot : VmSpot) (node : InsNode) : Access VmTouch VmSpot := do
  let val2 ← getvalue spot.cpu node.ds1 node.val1
  slotAt spot.height
  return { spot with
    cpu := { spot.cpu with stack := val2 :: spot.cpu.stack } }

def pop (spot : VmSpot) (node : InsNode) : Access VmTouch VmSpot :=
  match spot.cpu.refOperand node.ds1 node.val1 with
  | some place => do
      slotAt (spot.height - 1)
      let after ← store { spot.cpu with stack := spot.cpu.stack.tail }
        (spot.cpu.stack.headD 0) place
      return { spot with cpu := after }
  | none =>
    return { spot with
      cpu := { spot.cpu with stack := spot.cpu.stack.tail }
      below :=
        if spot.cpu.stack = [] then spot.below + 1 else spot.below }

def stay (spot : VmSpot) (access : Access VmTouch VmCpu) :
    Access VmTouch (Option VmSpot) := do
  let after ← access
  return some { spot with cpu := after }

/-- `vm_run_insnode`; `none` stands for -1. -/
def runInsnode (ops : VmOps) (spot : VmSpot) (node : InsNode) :
    Access VmTouch (Option VmSpot) :=
  match node.ins with
  | .mov => stay spot (assign spot.cpu node)
  | .add => stay spot (update spot.cpu node (fun _ => false) ops.add)
  | .sub => stay spot (update spot.cpu node (fun _ => false) ops.sub)
  | .mul => stay spot (update spot.cpu node (fun _ => false) ops.mul)
  | .div => stay spot (update spot.cpu node ops.isZero ops.div)
  | .push => do
      let after ← push spot node
      return some after
  | .pop => do
      let after ← pop spot node
      return some after
  | .max => stay spot (answer spot.cpu node ops.max)
  | .min => stay spot (answer spot.cpu node ops.min)
  | .rand =>
    stay spot (do
      let after ← answer spot.cpu node (ops.rand spot.cpu.rands)
      return { after with rands := spot.cpu.rands + 1 })
  | .ltzero => stay spot (answerOne spot.cpu node ops.ltzero)
  | .prob =>
    stay spot (do
      let after ← answerOne spot.cpu node (ops.prob spot.cpu.rands)
      return { after with rands := spot.cpu.rands + 1 })
  | .sqrt => stay spot (answerOne spot.cpu node ops.sqrt)
  | .round => stay spot (answerOne spot.cpu node ops.round)
  | .ceil => stay spot (answerOne spot.cpu node ops.ceil)
  | .floor => stay spot (answerOne spot.cpu node ops.floor)
  | .nop => return some spot
  | .bad _ => return none

def step (ops : VmOps) (code : List UInt8) (spot : VmSpot) :
    Access VmTouch (Option VmSpot) := do
  let read ← instruction2node code spot.ip
  runInsnode ops { spot with ip := read.2 } read.1

/-- The loop of `vm_run_cmd` for some steps. -/
def runCmd (ops : VmOps) (code : List UInt8) :
    Nat → VmSpot → Access VmTouch VmEnd
  | 0, spot =>
    if spot.ip < code.length then return .running
    else return .returned 0 spot.cpu
  | steps + 1, spot =>
    if spot.ip < code.length then do
      match ← step ops code spot with
      | some after => runCmd ops code steps after
      | none => return .returned (-1) spot.cpu
    else return .returned 0 spot.cpu

end Machine

end Touching

/-- `vm_machine_init`; the size of the memory is read as a `vm_adddress`. -/
def machineInit (memory : Nat → VmValue) (memSize : Nat) : VmCpu :=
  { reg1 := 0
    reg2 := 0
    stack := []
    memory :=
      { size := (BitVec.ofNat 32 memSize).toInt
        cell := fun index => some (memory index) }
    rands := 0 }

namespace Touching

open Access

section Code

variable {code : List UInt8} {ip memSize : Nat}

theorem sound_byteAt :
    Sound (VmTouch.Inside code.length memSize) (byteAt code ip) := by
  apply sound_reach
  simp [VmTouch.Inside]

theorem sound_readData :
    Sound (VmTouch.Inside code.length memSize) (readData code ip) := by
  refine sound_bind sound_byteAt fun _ _ => ?_
  refine sound_bind sound_byteAt fun _ _ => ?_
  refine sound_bind sound_byteAt fun _ _ => ?_
  exact sound_bind sound_byteAt fun _ _ => sound_pure _

theorem sound_readOptional (present : Bool) :
    Sound (VmTouch.Inside code.length memSize)
      (readOptional present code ip) := by
  refine sound_ite (fun _ => ?_) (fun _ => sound_pure _)
  refine sound_bind sound_byteAt fun byte _ => ?_
  refine sound_ite (fun _ => ?_) (fun _ => sound_pure _)
  exact sound_bind sound_readData fun _ _ => sound_pure _

theorem sound_instruction2node :
    Sound (VmTouch.Inside code.length memSize)
      (instruction2node code ip) := by
  refine sound_bind sound_byteAt fun byte _ => ?_
  refine sound_bind (sound_readOptional _) fun first _ => ?_
  exact sound_bind (sound_readOptional _) fun _ _ => sound_pure _

theorem drop_eq_byteAt (code : List UInt8) (ip : Nat) :
    code.drop ip =
      match (byteAt code ip).result with
      | some byte => byte :: code.drop (ip + 1)
      | none => [] := by
  unfold byteAt
  rw [result_reach]
  by_cases inside : ip < code.length
  · rw [List.getElem?_eq_getElem inside, List.drop_eq_getElem_cons inside]
  · rw [List.getElem?_eq_none (Nat.not_lt.mp inside),
      List.drop_of_length_le (Nat.not_lt.mp inside)]

theorem readData_result :
    InsNode.readData (code.drop ip) =
      (readData code ip).result.map fun read =>
        (read.1, code.drop read.2) := by
  unfold readData
  simp only [result_bind, result_pure]
  rw [drop_eq_byteAt code ip]
  cases (byteAt code ip).result with
  | none => rfl
  | some b0 =>
    rw [drop_eq_byteAt code (ip + 1)]
    cases (byteAt code (ip + 1)).result with
    | none => rfl
    | some b1 =>
      rw [drop_eq_byteAt code (ip + 1 + 1)]
      cases (byteAt code (ip + 2)).result with
      | none => rfl
      | some b2 =>
        rw [drop_eq_byteAt code (ip + 1 + 1 + 1)]
        cases (byteAt code (ip + 3)).result with
        | none | some b3 => rfl

theorem readOptional_result (present : Bool) :
    InsNode.readOptional present (code.drop ip) =
      (readOptional present code ip).result.map fun read =>
        (read.1, code.drop read.2) := by
  cases present with
  | false => rfl
  | true =>
    rw [InsNode.readOptional, readOptional, if_pos rfl, if_pos rfl]
    unfold readOperand
    simp only [result_bind]
    rw [drop_eq_byteAt code ip]
    cases (byteAt code ip).result with
    | none => rfl
    | some byte =>
      rw [InsNode.readOperand]
      simp only [Option.bind_some]
      by_cases carries : (DataSrc.ofCode byte).carries
      · rw [if_pos carries, if_pos carries, readData_result]
        simp only [result_bind, result_pure]
        cases (readData code (ip + 1)).result <;> rfl
      · rw [if_neg carries, if_neg carries]
        rfl

theorem instruction2node_result :
    InsNode.instruction2node (code.drop ip) =
      (instruction2node code ip).result.map fun read =>
        (read.1, code.drop read.2) := by
  unfold instruction2node
  simp only [result_bind, result_pure]
  rw [drop_eq_byteAt code ip]
  cases (byteAt code ip).result with
  | none => rfl
  | some byte =>
    rw [InsNode.instruction2node]
    simp only [Option.bind_some, readOptional_result]
    cases (readOptional (VmIns.ofCode byte).hasFirst code (ip + 1)).result with
    | none => rfl
    | some first =>
      simp only [Option.map_some, Option.bind_some,
        Option.bind_eq_bind, readOptional_result]
      cases (readOptional (VmIns.ofCode byte).hasSecond code
        first.2).result <;> rfl

theorem readOptional_forward {present : Bool} {read : (DataSrc × VmValue) × Nat}
    (result : (readOptional present code ip).result = some read) :
    ip ≤ read.2 := by
  cases present with
  | false =>
    cases Option.some.inj result
    exact Nat.le_refl ip
  | true =>
    rw [readOptional, if_pos rfl] at result
    unfold readOperand readData at result
    simp only [result_bind, Option.bind_eq_some_iff] at result
    obtain ⟨byte, _, result⟩ := result
    by_cases carries : (DataSrc.ofCode byte).carries
    · rw [if_pos carries] at result
      simp only [result_bind, result_pure, Option.bind_eq_some_iff,
        Option.some.injEq] at result
      obtain ⟨_, ⟨_, _, _, _, _, _, _, _, rfl⟩, rfl⟩ := result
      omega
    · rw [if_neg carries] at result
      cases Option.some.inj result
      exact Nat.le_succ ip

theorem instruction2node_forward {read : InsNode × Nat}
    (result : (instruction2node code ip).result = some read) :
    ip < read.2 := by
  unfold instruction2node at result
  simp only [result_bind, result_pure, Option.bind_eq_some_iff,
    Option.some.injEq] at result
  obtain ⟨_, _, first, begins, second, goesOn, rfl⟩ := result
  exact Nat.lt_of_succ_le
    (Nat.le_trans (readOptional_forward begins) (readOptional_forward goesOn))

end Code

section Machine

variable {codeSize memSize : Nat} {cpu after : VmCpu} {spot : VmSpot}
  {node : InsNode} {ds : DataSrc} {value : VmValue} {place : VmPlace}

/-- The machine as the instructions keep it: what is pushed fits into the
stack, and the memory is the one it was given. -/
structure AtHome (memSize : Nat) (cpu : VmCpu) : Prop where
  fits : cpu.stack.length ≤ vmStackSize
  size_eq : cpu.memory.size = (BitVec.ofNat 32 memSize).toInt
  cells : ∀ index, (cpu.memory.cell index).isSome

/-- As high a stack, and the same memory up to the values of its cells. -/
structure Alike (cpu after : VmCpu) : Prop where
  stack_length : after.stack.length = cpu.stack.length
  size_eq : after.memory.size = cpu.memory.size
  cells : ∀ index, (cpu.memory.cell index).isSome →
    (after.memory.cell index).isSome

theorem Alike.refl (cpu : VmCpu) : Alike cpu cpu :=
  ⟨rfl, rfl, fun _ found => found⟩

theorem AtHome.alike (home : AtHome memSize cpu) (alike : Alike cpu after) :
    AtHome memSize after where
  fits := alike.stack_length ▸ home.fits
  size_eq := alike.size_eq.trans home.size_eq
  cells := fun index => alike.cells index (home.cells index)

theorem alike_store (value : VmValue) (place : VmPlace) :
    Alike cpu (cpu.store value place) := by
  cases place with
  | reg1 | reg2 => exact ⟨rfl, rfl, fun _ found => found⟩
  | stack slot =>
    refine ⟨?_, rfl, fun _ found => found⟩
    simp [VmCpu.store]
  | memory index =>
    refine ⟨rfl, rfl, fun other found => ?_⟩
    change (Function.update cpu.memory.cell index (some value)
      other).isSome = true
    by_cases same : other = index
    · rw [same, Function.update_self]
      rfl
    · rw [Function.update_of_ne same]
      exact found

theorem slot_lt {index : Int} {slot : Nat}
    (found : cpu.slot index = some slot) : slot < cpu.stack.length := by
  unfold VmCpu.slot at found
  by_cases negative : index < 0
  · rw [if_pos negative] at found
    by_cases inside : 0 ≤ cpu.stack.length + index
    · rw [if_pos inside] at found
      cases Option.some.inj found
      omega
    · rw [if_neg inside] at found
      exact absurd found.symm (Option.some_ne_none slot)
  · rw [if_neg negative] at found
    by_cases inside : index < cpu.stack.length
    · rw [if_pos inside] at found
      cases Option.some.inj found
      omega
    · rw [if_neg inside] at found
      exact absurd found.symm (Option.some_ne_none slot)

theorem read_inside (home : AtHome memSize cpu) {index : Int} {cell : VmValue}
    (found : cpu.memory.read index = some cell) :
    0 ≤ index ∧ index < memSize := by
  unfold VmMemory.read at found
  have size := home.size_eq
  split at found
  · rename_i inside
    rw [BitVec.toInt_eq_toNat_cond, BitVec.toNat_ofNat] at size
    refine ⟨inside.1, ?_⟩
    split at size <;> omega
  · exact absurd found.symm (Option.some_ne_none cell)

def Points (memSize : Nat) (cpu : VmCpu) : VmPlace → Prop
  | .reg1 | .reg2 => True
  | .stack slot => slot < cpu.stack.length
  | .memory index => index < memSize

theorem refOperand_points (home : AtHome memSize cpu)
    (found : cpu.refOperand ds value = some place) :
    Points memSize cpu place := by
  cases ds with
  | reg1 | reg2 => cases Option.some.inj found; trivial
  | stack =>
    obtain ⟨slot, slotFound, rfl⟩ := Option.map_eq_some_iff.mp found
    exact slot_lt slotFound
  | address =>
    obtain ⟨cell, cellFound, rfl⟩ := Option.map_eq_some_iff.mp found
    have inside := read_inside home cellFound
    change value.toInt.toNat < memSize
    omega
  | none | immediate | bad code =>
    exact absurd found.symm (Option.some_ne_none place)

theorem sound_found {place : VmTouch} (inside : place.Inside codeSize memSize) :
    Sound (VmTouch.Inside codeSize memSize) (found place) :=
  sound_reach (by simp [inside])

theorem sound_getvalue (home : AtHome memSize cpu) :
    Sound (VmTouch.Inside codeSize memSize) (getvalue cpu ds value) := by
  cases ds with
  | stack =>
    unfold getvalue
    cases slotFound : cpu.slot value.toInt with
    | none => exact sound_pure _
    | some slot =>
      refine sound_bind (sound_found ?_) fun _ _ => sound_pure _
      have pushed := slot_lt slotFound
      have fits := home.fits
      change 0 ≤ (slot : Int) ∧ (slot : Int) < vmStackSize
      omega
  | address =>
    unfold getvalue
    cases cellFound : cpu.memory.read value.toInt with
    | none => exact sound_pure _
    | some cell =>
      exact sound_bind (sound_found (read_inside home cellFound))
        fun _ _ => sound_pure _
  | none | immediate | reg1 | reg2 | bad code => exact sound_pure _

theorem getvalue_result :
    (getvalue cpu ds value).result = some (cpu.getvalue ds value) := by
  cases ds with
  | stack =>
    unfold getvalue
    cases slotFound : cpu.slot value.toInt with
    | none => simp [VmCpu.getvalue, slotFound]
    | some slot => simp [found]
  | address =>
    unfold getvalue
    cases cellFound : cpu.memory.read value.toInt with
    | none => simp [VmCpu.getvalue, cellFound]
    | some cell => simp [found, VmCpu.getvalue, cellFound]
  | none | immediate | reg1 | reg2 | bad code => rfl

theorem sound_follow (home : AtHome memSize cpu)
    (points : Points memSize cpu place) :
    Sound (VmTouch.Inside codeSize memSize) (follow place) := by
  cases place with
  | reg1 | reg2 => exact sound_pure _
  | stack slot =>
    apply sound_found
    have fits := home.fits
    change slot < cpu.stack.length at points
    change 0 ≤ (slot : Int) ∧ (slot : Int) < vmStackSize
    omega
  | memory index =>
    apply sound_found
    change index < memSize at points
    change 0 ≤ (index : Int) ∧ (index : Int) < memSize
    omega

@[simp] theorem follow_result (place : VmPlace) :
    (follow place).result = some () := by
  cases place <;> rfl

@[simp] theorem store_result (cpu : VmCpu) (value : VmValue) (place : VmPlace) :
    (store cpu value place).result = some (cpu.store value place) := by
  simp [store]

theorem sound_store (home : AtHome memSize cpu)
    (points : Points memSize cpu place) (other : VmCpu) :
    Sound (VmTouch.Inside codeSize memSize) (store other value place) :=
  sound_bind (sound_follow home points) fun _ _ => sound_pure _

/-- The access stays in the machine, comes to a result and leaves the stack
pointer where it is. -/
def Calm (codeSize memSize : Nat) (cpu : VmCpu)
    (access : Access VmTouch VmCpu) : Prop :=
  Sound (VmTouch.Inside codeSize memSize) access ∧
    ∃ after, access.result = some after ∧ Alike cpu after

section

variable (home : AtHome memSize cpu)
include home

theorem calm_assign :
    Calm codeSize memSize cpu (assign cpu node) := by
  unfold assign
  constructor
  · refine sound_bind (sound_getvalue home) fun val2 _ => ?_
    cases refers : cpu.refOperand node.ds1 node.val1 with
    | none => exact sound_pure _
    | some place => exact sound_store home (refOperand_points home refers) _
  · rw [result_bind, getvalue_result, Option.bind_some]
    cases cpu.refOperand node.ds1 node.val1 with
    | none => exact ⟨cpu, rfl, Alike.refl cpu⟩
    | some place => exact ⟨_, store_result .., alike_store ..⟩

theorem calm_update (skip : VmValue → Bool)
    (change : VmValue → VmValue → VmValue) :
    Calm codeSize memSize cpu (update cpu node skip change) := by
  unfold update
  constructor
  · refine sound_bind (sound_getvalue home) fun val2 _ => ?_
    cases refers : cpu.refOperand node.ds1 node.val1 with
    | none => exact sound_pure _
    | some place =>
      have points := refOperand_points home refers
      refine sound_ite (fun _ => sound_pure _) fun _ => ?_
      exact sound_bind (sound_follow home points) fun _ _ =>
        sound_store home points _
  · rw [result_bind, getvalue_result, Option.bind_some]
    cases cpu.refOperand node.ds1 node.val1 with
    | none => exact ⟨cpu, rfl, Alike.refl cpu⟩
    | some place =>
      by_cases skipped : skip (cpu.getvalue node.ds2 node.val2)
      · exact ⟨cpu, by simp [skipped], Alike.refl cpu⟩
      · exact ⟨_, by simp [skipped]; rfl, alike_store ..⟩

theorem calm_answer (function : VmValue → VmValue → VmValue) :
    Calm codeSize memSize cpu (answer cpu node function) := by
  unfold answer
  constructor
  · refine sound_bind (sound_getvalue home) fun _ _ => ?_
    exact sound_bind (sound_getvalue home) fun _ _ => sound_pure _
  · simp only [result_bind, getvalue_result, Option.bind_some, result_pure]
    exact ⟨_, rfl, rfl, rfl, fun _ found => found⟩

theorem calm_answerOne (function : VmValue → VmValue) :
    Calm codeSize memSize cpu (answerOne cpu node function) := by
  unfold answerOne
  constructor
  · exact sound_bind (sound_getvalue home) fun _ _ => sound_pure _
  · simp only [result_bind, getvalue_result, Option.bind_some, result_pure]
    exact ⟨_, rfl, rfl, rfl, fun _ found => found⟩

end

theorem Calm.counted {access : Access VmTouch VmCpu}
    (calm : Calm codeSize memSize cpu access) (rands : Nat) :
    Calm codeSize memSize cpu (do
      let after ← access
      return { after with rands := rands }) := by
  obtain ⟨sound, after, result, alike⟩ := calm
  refine ⟨sound_bind sound fun _ _ => sound_pure _, ?_⟩
  simp only [result_bind, result, Option.bind_some, result_pure]
  exact ⟨_, rfl, alike.stack_length, alike.size_eq, alike.cells⟩

end Machine

end Touching

end NdNet
