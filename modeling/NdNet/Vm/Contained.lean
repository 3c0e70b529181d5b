import NdNet.Vm.Touch

/-!
# Code the virtual machine runs safely

The machine checks its stack operands and its memory, but neither the end of
the code nor the two ends of the stack.  Programs have no jumps, so how high
the stack is at an instruction can be read off the code.  `Contained` is what
the machine would have had to check: it touches only what is its own exactly
for the code that satisfies it.  `Violates` is what a machine that checks
nothing at all would do wrong.
-/

namespace NdNet

open List

/-- Whether `vm_ref_operand` finds a place when the stack has this height. -/
def HasPlace (size height : Int) (ds : DataSrc) (value : VmValue) : Prop :=
  match ds with
  | .reg1 | .reg2 => True
  | .stack =>
    (value.toInt < 0 ∧ 0 ≤ height + value.toInt) ∨
      (0 ≤ value.toInt ∧ value.toInt < height)
  | .address => 0 ≤ value.toInt ∧ value.toInt < size
  | .none | .immediate | .bad _ => False

/-- The instruction keeps to the stack at this height: there is room for what
it pushes, and what it pops into a place is there. -/
def Fits (size height : Int) (node : InsNode) : Prop :=
  match node.ins with
  | .push => 0 ≤ height ∧ height < vmStackSize
  | .pop => HasPlace size height node.ds1 node.val1 → 0 < height
  | _ => True

def heightBehind (height : Int) (node : InsNode) : Int :=
  match node.ins with
  | .push => height + 1
  | .pop => height - 1
  | _ => height

/-- From this height on the code keeps to itself and to the stack: up to the
first instruction that is none every instruction is complete and fits. -/
inductive Contained (size : Int) : Int → List UInt8 → Prop where
  | done (height : Int) : Contained size height []
  | refused {height : Int} {code rest : List UInt8} {node : InsNode} :
      InsNode.instruction2node code = some (node, rest) →
      node.ins.valid = false → Contained size height code
  | step {height : Int} {code rest : List UInt8} {node : InsNode} :
      InsNode.instruction2node code = some (node, rest) →
      node.ins.valid = true → Fits size height node →
      Contained size (heightBehind height node) rest →
      Contained size height code

/-- A byte that is no opcode is reached. -/
inductive Refuses : List UInt8 → Prop where
  | here {code rest : List UInt8} {node : InsNode} :
      InsNode.instruction2node code = some (node, rest) →
      node.ins.valid = false → Refuses code
  | later {code rest : List UInt8} {node : InsNode} :
      InsNode.instruction2node code = some (node, rest) →
      Refuses rest → Refuses code

def InsNode.operands (node : InsNode) : List (DataSrc × VmValue) :=
  [(node.ds1, node.val1), (node.ds2, node.val2)].take node.ins.operandNum

/-- The slot or the cell an operand names, there or not. -/
def named (height : Int) : DataSrc × VmValue → Option VmTouch
  | (.stack, value) =>
    some (.stack
      (if value.toInt < 0 then height + value.toInt else value.toInt))
  | (.address, value) => some (.memory value.toInt)
  | _ => none

/-- What a machine that checks nothing touches for an instruction. -/
def InsNode.unchecked (height : Int) (node : InsNode) : List VmTouch :=
  node.operands.filterMap (named height) ++
    match node.ins, node.ds1 with
    | .push, _ => [.stack height]
    | .pop, .reg1 | .pop, .reg2 | .pop, .stack | .pop, .address =>
      [.stack (height - 1)]
    | _, _ => []

/-- A machine that checks nothing would leave the code, the stack or the
memory. -/
inductive Violates (memSize : Nat) : Int → List UInt8 → Prop where
  | cut {height : Int} {code : List UInt8} : code ≠ [] →
      InsNode.instruction2node code = none → Violates memSize height code
  | here {height : Int} {code rest : List UInt8} {node : InsNode}
      {place : VmTouch} : InsNode.instruction2node code = some (node, rest) →
      node.ins.valid = true → place ∈ node.unchecked height →
      ¬ place.Inside code.length memSize → Violates memSize height code
  | later {height : Int} {code rest : List UInt8} {node : InsNode} :
      InsNode.instruction2node code = some (node, rest) →
      node.ins.valid = true →
      Violates memSize (heightBehind height node) rest →
      Violates memSize height code

theorem Refuses.iff_of_read {code rest : List UInt8} {node : InsNode}
    (read : InsNode.instruction2node code = some (node, rest)) :
    Refuses code ↔ node.ins.valid = false ∨ Refuses rest := by
  constructor
  · intro refuses
    cases refuses with
    | here found invalid =>
      rw [read] at found
      cases Option.some.inj found
      exact .inl invalid
    | later found behind =>
      rw [read] at found
      cases Option.some.inj found
      exact .inr behind
  · rintro (invalid | behind)
    · exact .here read invalid
    · exact .later read behind

theorem Violates.iff_of_read {memSize : Nat} {height : Int}
    {code rest : List UInt8} {node : InsNode}
    (read : InsNode.instruction2node code = some (node, rest))
    (valid : node.ins.valid = true) :
    Violates memSize height code ↔
      (∃ place ∈ node.unchecked height, ¬ place.Inside code.length memSize) ∨
        Violates memSize (heightBehind height node) rest := by
  constructor
  · intro violates
    cases violates with
    | cut _ cut =>
      rw [read] at cut
      cases cut
    | here found _ member outside =>
      rw [read] at found
      cases Option.some.inj found
      exact .inl ⟨_, member, outside⟩
    | later found _ behind =>
      rw [read] at found
      cases Option.some.inj found
      exact .inr behind
  · rintro (⟨place, member, outside⟩ | behind)
    · exact .here read valid member outside
    · exact .later read valid behind

theorem not_violates_nil {memSize : Nat} {height : Int} :
    ¬ Violates memSize height [] := by
  intro violates
  cases violates with
  | cut begun => exact begun rfl
  | here found | later found => exact absurd found.symm (Option.some_ne_none _)

theorem not_refuses_nil : ¬ Refuses [] := by
  intro refuses
  cases refuses with
  | here found | later found => exact absurd found.symm (Option.some_ne_none _)

namespace Contained

variable {size height : Int} {code rest : List UInt8} {node : InsNode}

theorem not_of_cut (begun : code ≠ [])
    (cut : InsNode.instruction2node code = none) :
    ¬ Contained size height code := by
  intro contained
  cases contained with
  | done => exact begun rfl
  | refused found | step found =>
    rw [cut] at found
    exact absurd found.symm (Option.some_ne_none _)

/-- Of code that begins with a whole instruction the rest has to be contained,
unless the instruction is none. -/
theorem iff_of_read (read : InsNode.instruction2node code = some (node, rest)) :
    Contained size height code ↔
      node.ins.valid = true → Fits size height node ∧
        Contained size (heightBehind height node) rest := by
  constructor
  · intro contained valid
    cases contained with
    | done => exact absurd read.symm (Option.some_ne_none _)
    | refused found invalid =>
      rw [read] at found
      cases Option.some.inj found
      rw [valid] at invalid
      exact absurd invalid.symm Bool.false_ne_true
    | step found _ fits behind =>
      rw [read] at found
      cases Option.some.inj found
      exact ⟨fits, behind⟩
  · intro holds
    cases valid : node.ins.valid with
    | false => exact .refused read valid
    | true => exact .step read valid (holds valid).1 (holds valid).2

/-- An instruction that does not fit is one that an unchecked machine leaves
its stack for. -/
theorem fits_of_unchecked {memSize : Nat}
    (inside : ∀ place ∈ node.unchecked height, place.Inside code.length memSize) :
    Fits size height node := by
  unfold InsNode.unchecked at inside
  unfold Fits
  cases kind : node.ins with
  | push =>
    rw [kind] at inside
    exact inside (.stack height)
      (mem_append_right _ mem_cons_self)
  | pop =>
    rw [kind] at inside
    intro hasPlace
    have popped : VmTouch.stack (height - 1) ∈
        (match VmIns.pop, node.ds1 with
          | .push, _ => [VmTouch.stack height]
          | .pop, .reg1 | .pop, .reg2 | .pop, .stack | .pop, .address =>
            [VmTouch.stack (height - 1)]
          | _, _ => []) := by
      cases source : node.ds1 with
      | reg1 | reg2 | stack | address => exact mem_cons_self
      | none | immediate | bad =>
        rw [source] at hasPlace
        exact hasPlace.elim
    have low := (inside _ (mem_append_right _ popped)).1
    omega
  | _ => trivial

theorem instruction2node_shorter
    (read : InsNode.instruction2node code = some (node, rest)) :
    rest.length < code.length := by
  have decoded := @Touching.instruction2node_result code 0
  rw [drop_zero, read] at decoded
  obtain ⟨⟨_, next⟩, found, same⟩ := Option.map_eq_some_iff.mp decoded.symm
  have forward := Touching.instruction2node_forward found
  obtain ⟨rfl, rfl⟩ := Prod.mk.inj same
  cases code with
  | nil => cases read
  | cons byte code =>
    rw [length_drop, length_cons]
    omega

theorem of_not_violates {memSize : Nat} :
    ∀ {height : Int} {code : List UInt8}, ¬ Violates memSize height code →
      Contained size height code
  | height, [], _ => .done height
  | height, byte :: code, keeps => by
      cases read : InsNode.instruction2node (byte :: code) with
      | none => exact absurd (.cut (cons_ne_nil _ _) read) keeps
      | some found =>
        obtain ⟨node, rest⟩ := found
        have shorter : rest.length < (byte :: code).length :=
          instruction2node_shorter read
        rw [iff_of_read read]
        intro valid
        have inside : ∀ place ∈ node.unchecked height,
            place.Inside (byte :: code).length memSize := by
          intro place member
          by_contra outside
          exact keeps (.here read valid member outside)
        exact ⟨fits_of_unchecked inside,
          of_not_violates fun behind => keeps (.later read valid behind)⟩
termination_by _ code => code.length
decreasing_by exact shorter

end Contained

namespace Touching

open Access

section Machine

variable {codeSize memSize : Nat} {spot : VmSpot} {node : InsNode}
  {ds : DataSrc} {value : VmValue}

/-- A machine at home whose stack pointer is in front of the stack only if
nothing is pushed. -/
structure SpotHome (memSize : Nat) (spot : VmSpot) : Prop where
  home : AtHome memSize spot.cpu
  based : spot.below ≠ 0 → spot.cpu.stack = []

theorem slot_isSome_iff (home : SpotHome memSize spot) {index : Int} :
    (spot.cpu.slot index).isSome ↔
      (index < 0 ∧ 0 ≤ spot.height + index) ∨
        (0 ≤ index ∧ index < spot.height) := by
  have empty : spot.below ≠ 0 → spot.cpu.stack.length = 0 :=
    fun passed => length_eq_zero_iff.mpr (home.based passed)
  unfold VmCpu.slot VmSpot.height
  by_cases negative : index < 0
  · rw [if_pos negative]
    by_cases inside : 0 ≤ (spot.cpu.stack.length : Int) + index
    · rw [if_pos inside]
      refine iff_of_true rfl ?_
      omega
    · rw [if_neg inside]
      refine iff_of_false Bool.false_ne_true ?_
      omega
  · rw [if_neg negative]
    by_cases inside : index < (spot.cpu.stack.length : Int)
    · rw [if_pos inside]
      refine iff_of_true rfl ?_
      omega
    · rw [if_neg inside]
      refine iff_of_false Bool.false_ne_true ?_
      omega

theorem refOperand_isSome_iff (home : SpotHome memSize spot) :
    (spot.cpu.refOperand ds value).isSome ↔
      HasPlace (BitVec.ofNat 32 memSize).toInt spot.height ds value := by
  cases ds with
  | reg1 | reg2 => exact iff_of_true rfl trivial
  | none | immediate | bad code => exact iff_of_false Bool.false_ne_true id
  | stack =>
    rw [VmCpu.refOperand, Option.isSome_map]
    exact slot_isSome_iff home
  | address =>
    rw [VmCpu.refOperand, Option.isSome_map]
    unfold VmMemory.read HasPlace
    rw [home.home.size_eq]
    split
    · rename_i inside
      exact iff_of_true (home.home.cells _) inside
    · rename_i outside
      exact iff_of_false Bool.false_ne_true outside

/-- What one instruction comes to: the machine goes on at home, at the height
the instruction leaves. -/
def GoesOn (memSize : Nat) (spot : VmSpot) (node : InsNode)
    (after : VmSpot) : Prop :=
  SpotHome memSize after ∧ after.ip = spot.ip ∧
    after.height = heightBehind spot.height node

theorem sound_slotAt (slot : Int) :
    Sound (VmTouch.Inside codeSize memSize) (slotAt slot) := by
  apply sound_reach
  by_cases inside : 0 ≤ slot ∧ slot < vmStackSize
  · rw [if_pos inside]
    exact iff_of_true rfl inside
  · rw [if_neg inside]
    exact iff_of_false Bool.false_ne_true inside

theorem slotAt_inside {slot : Int} (inside : 0 ≤ slot ∧ slot < vmStackSize) :
    (slotAt slot).result = some () :=
  if_pos inside

theorem slotAt_outside {slot : Int}
    (outside : ¬ (0 ≤ slot ∧ slot < vmStackSize)) :
    (slotAt slot).result = none :=
  if_neg outside

section

variable (home : SpotHome memSize spot)
include home

theorem sound_push :
    Sound (VmTouch.Inside codeSize memSize) (push spot node) := by
  refine sound_bind (sound_getvalue home.home) fun _ _ => ?_
  exact sound_bind (sound_slotAt _) fun _ _ => sound_pure _

theorem sound_pop :
    Sound (VmTouch.Inside codeSize memSize) (pop spot node) := by
  unfold pop
  cases refers : spot.cpu.refOperand node.ds1 node.val1 with
  | none => exact sound_pure _
  | some place =>
    refine sound_bind (sound_slotAt _) fun _ _ => ?_
    refine sound_bind ?_ fun _ _ => sound_pure _
    exact sound_store home.home (refOperand_points home.home refers) _

theorem push_result (isPush : node.ins = .push)
    (fits : Fits (BitVec.ofNat 32 memSize).toInt spot.height node) :
    ∃ after, (push spot node).result = some after ∧
      GoesOn memSize spot node after := by
  unfold Fits at fits
  rw [isPush] at fits
  have small := fits.2
  have base : spot.below = 0 := by
    by_contra passed
    have empty := home.based passed
    have above := fits.1
    unfold VmSpot.height at above
    rw [empty, length_nil] at above
    omega
  refine ⟨{ spot with
    cpu := { spot.cpu with
      stack := spot.cpu.getvalue node.ds1 node.val1 :: spot.cpu.stack } },
    ?_, ⟨⟨?_, home.home.size_eq, home.home.cells⟩, ?_⟩, rfl, ?_⟩
  · unfold push
    rw [result_bind, getvalue_result, Option.bind_some, result_bind,
      slotAt_inside fits]
    rfl
  · unfold VmSpot.height at small
    rw [length_cons]
    omega
  · exact fun passed => absurd base passed
  · unfold heightBehind VmSpot.height
    rw [isPush]
    rw [length_cons]
    dsimp only
    omega

theorem pop_result (isPop : node.ins = .pop)
    (fits : Fits (BitVec.ofNat 32 memSize).toInt spot.height node) :
    ∃ after, (pop spot node).result = some after ∧
      GoesOn memSize spot node after := by
  unfold Fits at fits
  rw [isPop] at fits
  have stackFits := home.home.fits
  unfold pop GoesOn
  cases refers : spot.cpu.refOperand node.ds1 node.val1 with
  | none =>
    refine ⟨_, rfl, ⟨⟨?_, home.home.size_eq, home.home.cells⟩, ?_⟩, rfl, ?_⟩
    · change spot.cpu.stack.tail.length ≤ vmStackSize
      rw [length_tail]
      omega
    · intro passed
      cases stack : spot.cpu.stack with
      | nil => rfl
      | cons top rest =>
        rw [stack] at passed
        have empty := home.based passed
        rw [stack] at empty
        exact absurd empty (cons_ne_nil top rest)
    · unfold heightBehind VmSpot.height
      rw [isPop]
      dsimp only
      cases spot.cpu.stack with
      | nil =>
        rw [if_pos rfl, tail_nil, length_nil]
        omega
      | cons top rest =>
        rw [if_neg (cons_ne_nil top rest), tail_cons, length_cons]
        omega
  | some place =>
    have high : 0 < spot.height := by
      refine fits ((refOperand_isSome_iff home).mp ?_)
      rw [refers]
      rfl
    have base : spot.below = 0 := by
      by_contra passed
      have empty := home.based passed
      unfold VmSpot.height at high
      rw [empty, length_nil] at high
      omega
    have inside : 0 ≤ spot.height - 1 ∧ spot.height - 1 < vmStackSize := by
      unfold VmSpot.height at high ⊢
      omega
    have alike : Alike { spot.cpu with stack := spot.cpu.stack.tail }
        (VmCpu.store { spot.cpu with stack := spot.cpu.stack.tail }
          (spot.cpu.stack.headD 0) place) := alike_store ..
    have shorter : AtHome memSize
        { spot.cpu with stack := spot.cpu.stack.tail } := by
      refine ⟨?_, home.home.size_eq, home.home.cells⟩
      change spot.cpu.stack.tail.length ≤ vmStackSize
      rw [length_tail]
      omega
    refine ⟨{ spot with
      cpu := VmCpu.store { spot.cpu with stack := spot.cpu.stack.tail }
        (spot.cpu.stack.headD 0) place }, ?_,
      ⟨shorter.alike alike, fun passed => absurd base passed⟩, rfl, ?_⟩
    · dsimp only
      rw [result_bind, slotAt_inside inside, Option.bind_some, result_bind,
        store_result]
      rfl
    unfold heightBehind VmSpot.height
    rw [isPop]
    unfold VmSpot.height at high
    rw [alike.stack_length]
    change ((spot.cpu.stack.tail.length : Nat) : Int) - spot.below = _
    rw [length_tail]
    dsimp only
    omega

/-- An instruction that does not fit touches a slot outside of the stack. -/
theorem pushPop_lost
    (unfit : ¬ Fits (BitVec.ofNat 32 memSize).toInt spot.height node) :
    (node.ins = .push → (push spot node).result = none) ∧
      (node.ins = .pop → (pop spot node).result = none) := by
  unfold Fits at unfit
  constructor
  · intro isPush
    rw [isPush] at unfit
    unfold push
    rw [result_bind, getvalue_result, Option.bind_some, result_bind,
      slotAt_outside unfit]
    rfl
  · intro isPop
    rw [isPop] at unfit
    dsimp only at unfit
    rw [Classical.not_imp, Int.not_lt] at unfit
    obtain ⟨hasPlace, low⟩ := unfit
    obtain ⟨place, refers⟩ := Option.isSome_iff_exists.mp
      ((refOperand_isSome_iff home).mpr hasPlace)
    have outside : ¬ (0 ≤ spot.height - 1 ∧ spot.height - 1 < vmStackSize) := by
      omega
    unfold pop
    rw [refers]
    dsimp only
    rw [result_bind, slotAt_outside outside]
    rfl

end

/-- What `vm_run_insnode` does: it keeps to the machine, unless what it pushes
or pops does not fit. -/
structure Runs (codeSize memSize : Nat) (spot : VmSpot) (node : InsNode)
    (access : Access VmTouch (Option VmSpot)) : Prop where
  sound : Sound (VmTouch.Inside codeSize memSize) access
  fits : Fits (BitVec.ofNat 32 memSize).toInt spot.height node →
    ∃ after, access.result = some (some after) ∧ GoesOn memSize spot node after
  unfit : ¬ Fits (BitVec.ofNat 32 memSize).toInt spot.height node →
    access.result = none

theorem runs_stay (home : SpotHome memSize spot) {access : Access VmTouch VmCpu}
    (calm : Calm codeSize memSize spot.cpu access)
    (always : Fits (BitVec.ofNat 32 memSize).toInt spot.height node)
    (level : heightBehind spot.height node = spot.height) :
    Runs codeSize memSize spot node (stay spot access) := by
  obtain ⟨sound, after, result, alike⟩ := calm
  constructor
  case sound => exact sound_bind sound fun _ _ => sound_pure _
  case unfit => exact fun unfit => absurd always unfit
  case fits =>
    intro _
    refine ⟨{ spot with cpu := after }, ?_, ⟨?_, ?_⟩, rfl, ?_⟩
    · unfold stay
      rw [result_bind, result]
      rfl
    · exact home.home.alike alike
    · intro passed
      apply length_eq_zero_iff.mp
      rw [alike.stack_length, home.based passed]
      rfl
    · rw [level]
      unfold VmSpot.height
      rw [alike.stack_length]

theorem runs_runInsnode (home : SpotHome memSize spot) (ops : VmOps)
    (valid : node.ins.valid = true) :
    Runs codeSize memSize spot node (runInsnode ops spot node) := by
  obtain ⟨ins, ds1, ds2, val1, val2⟩ := node
  have here := home.home
  cases ins with
  | mov => exact runs_stay home (calm_assign here) trivial rfl
  | add | sub | mul | div =>
    exact runs_stay home (calm_update here _ _) trivial rfl
  | max | min => exact runs_stay home (calm_answer here _) trivial rfl
  | rand =>
    exact runs_stay home ((calm_answer here _).counted _) trivial rfl
  | ltzero => exact runs_stay home (calm_answerOne here _) trivial rfl
  | prob =>
    exact runs_stay home ((calm_answerOne here _).counted _) trivial rfl
  | sqrt | round | ceil | floor =>
    exact runs_stay home (calm_answerOne here _) trivial rfl
  | nop =>
    constructor
    case sound => exact sound_pure _
    case fits => exact fun _ => ⟨spot, rfl, home, rfl, rfl⟩
    case unfit => exact fun unfit => absurd trivial unfit
  | push =>
    unfold runInsnode
    constructor
    case sound => exact sound_bind (sound_push home) fun _ _ => sound_pure _
    case fits =>
      intro fits
      obtain ⟨after, result, goesOn⟩ := push_result home rfl fits
      exact ⟨after, by simp [result], goesOn⟩
    case unfit =>
      intro unfit
      simp [(pushPop_lost home unfit).1 rfl]
  | pop =>
    unfold runInsnode
    constructor
    case sound => exact sound_bind (sound_pop home) fun _ _ => sound_pure _
    case fits =>
      intro fits
      obtain ⟨after, result, goesOn⟩ := pop_result home rfl fits
      exact ⟨after, by simp [result], goesOn⟩
    case unfit =>
      intro unfit
      simp [(pushPop_lost home unfit).2 rfl]
  | bad code => exact absurd valid Bool.false_ne_true

theorem runInsnode_bad (ops : VmOps) (invalid : node.ins.valid = false) :
    runInsnode ops spot node = pure none := by
  obtain ⟨ins, ds1, ds2, val1, val2⟩ := node
  cases ins with
  | bad code => rfl
  | _ => exact absurd invalid.symm Bool.false_ne_true

theorem sound_runInsnode (home : SpotHome memSize spot) (ops : VmOps) :
    Sound (VmTouch.Inside codeSize memSize) (runInsnode ops spot node) := by
  cases valid : node.ins.valid with
  | true => exact (runs_runInsnode home ops valid).sound
  | false =>
    rw [runInsnode_bad ops valid]
    exact sound_pure _

end Machine

section Loop

variable {code : List UInt8} {memSize steps : Nat} {spot : VmSpot}
  {ops : VmOps}

theorem sound_step (home : SpotHome memSize spot) :
    Sound (VmTouch.Inside code.length memSize) (step ops code spot) :=
  sound_bind sound_instruction2node fun read _ =>
    have moved : SpotHome memSize { spot with ip := read.2 } :=
      ⟨home.home, home.based⟩
    sound_runInsnode moved ops

/-- Wherever the loop stands, it keeps to the machine exactly if the rest of
the code is contained at the height it has reached, and then it returns. -/
theorem runCmd_spec (home : SpotHome memSize spot)
    (enough : code.length ≤ spot.ip + steps) :
    Sound (VmTouch.Inside code.length memSize) (runCmd ops code steps spot) ∧
      (Contained (BitVec.ofNat 32 memSize).toInt spot.height
          (code.drop spot.ip) →
        ∃ answer cpu, (runCmd ops code steps spot).result =
          some (.returned answer cpu)) ∧
      (¬ Contained (BitVec.ofNat 32 memSize).toInt spot.height
          (code.drop spot.ip) →
        (runCmd ops code steps spot).result = none) := by
  induction steps generalizing spot with
  | zero =>
    have ended : ¬ spot.ip < code.length := by omega
    have nothing : code.drop spot.ip = [] :=
      drop_of_length_le (by omega)
    rw [runCmd, if_neg ended, nothing]
    refine ⟨sound_pure _, fun _ => ⟨0, spot.cpu, rfl⟩, fun uncontained => ?_⟩
    exact absurd (Contained.done _) uncontained
  | succ steps induction =>
    rw [runCmd]
    by_cases running : spot.ip < code.length
    case neg =>
      have nothing : code.drop spot.ip = [] :=
        drop_of_length_le (by omega)
      rw [if_neg running, nothing]
      refine ⟨sound_pure _, fun _ => ⟨0, spot.cpu, rfl⟩,
        fun uncontained => ?_⟩
      exact absurd (Contained.done _) uncontained
    rw [if_pos running]
    have decoded : InsNode.instruction2node (code.drop spot.ip) = _ :=
      instruction2node_result
    cases read : (instruction2node code spot.ip).result with
    | none =>
      -- The instruction is cut off by the end of the code.
      rw [read, Option.map_none] at decoded
      have lost : (step ops code spot).result = none := by
        rw [step, result_bind, read]
        rfl
      refine ⟨sound_bind (sound_step home) fun after found => ?_, ?_, ?_⟩
      · rw [lost] at found
        exact absurd found.symm (Option.some_ne_none after)
      · intro contained
        refine absurd contained (Contained.not_of_cut ?_ decoded)
        rw [Ne, drop_eq_nil_iff]
        omega
      · intro _
        rw [result_bind, lost]
        rfl
    | some found =>
      obtain ⟨node, next⟩ := found
      rw [read, Option.map_some] at decoded
      have forward : spot.ip < next := instruction2node_forward read
      have moved : SpotHome memSize { spot with ip := next } :=
        ⟨home.home, home.based⟩
      have stepped : (step ops code spot).result =
          (runInsnode ops { spot with ip := next } node).result := by
        rw [step, result_bind, read]
        rfl
      rw [Contained.iff_of_read decoded]
      cases valid : node.ins.valid with
      | false =>
        have refused : (step ops code spot).result = some none := by
          rw [stepped, runInsnode_bad ops valid]
          rfl
        refine ⟨sound_bind (sound_step home) fun after found => ?_,
          fun _ => ⟨-1, spot.cpu, ?_⟩, fun uncontained => ?_⟩
        · rw [refused] at found
          cases Option.some.inj found
          exact sound_pure _
        · rw [result_bind, refused]
          rfl
        · exact absurd (fun isValid => absurd isValid Bool.false_ne_true)
            uncontained
      | true =>
        have runs : Runs code.length memSize { spot with ip := next }
            node _ := runs_runInsnode moved ops valid
        by_cases fits : Fits (BitVec.ofNat 32 memSize).toInt
            spot.height node
        · obtain ⟨after, result, afterHome, ipKept, heightKept⟩ :=
            runs.fits fits
          dsimp only at ipKept
          have goesOn : (step ops code spot).result =
              some (some after) := stepped.trans result
          have rest := induction afterHome (by omega)
          have heightEq : after.height =
              heightBehind spot.height node := heightKept
          rw [ipKept, heightEq] at rest
          rw [result_bind, goesOn, Option.bind_some]
          refine ⟨sound_bind (sound_step home) fun other found => ?_,
            fun contained => rest.2.1 (contained rfl).2,
            fun uncontained => rest.2.2 fun behind => ?_⟩
          · rw [goesOn] at found
            cases Option.some.inj found
            exact rest.1
          · exact uncontained fun _ => ⟨fits, behind⟩
        · have lost : (step ops code spot).result = none :=
            stepped.trans (runs.unfit fits)
          refine ⟨sound_bind (sound_step home) fun other found => ?_,
            fun contained => absurd (contained rfl).1 fits, fun _ => ?_⟩
          · rw [lost] at found
            exact absurd found.symm (Option.some_ne_none other)
          · rw [result_bind, lost]
            rfl

theorem runCmd_refused_iff {answer : Int} {cpu : VmCpu}
    (home : SpotHome memSize spot)
    (ended : (runCmd ops code steps spot).result =
      some (.returned answer cpu)) :
    answer = -1 ↔ Refuses (code.drop spot.ip) := by
  have done : ∀ {spot : VmSpot}, ¬ spot.ip < code.length →
      (some (.returned 0 spot.cpu) : Option VmEnd) =
        some (.returned answer cpu) →
      (answer = -1 ↔ Refuses (code.drop spot.ip)) := by
    intro spot passed same
    cases Option.some.inj same
    rw [drop_of_length_le (Nat.not_lt.mp passed)]
    exact iff_of_false (by decide) not_refuses_nil
  induction steps generalizing spot with
  | zero =>
    rw [runCmd] at ended
    by_cases running : spot.ip < code.length
    · rw [if_pos running] at ended
      cases ended
    · rw [if_neg running] at ended
      exact done running ended
  | succ steps induction =>
    rw [runCmd] at ended
    by_cases running : spot.ip < code.length
    case neg =>
      rw [if_neg running] at ended
      exact done running ended
    rw [if_pos running, result_bind, step, result_bind] at ended
    have decoded : InsNode.instruction2node (code.drop spot.ip) = _ :=
      instruction2node_result
    cases read : (instruction2node code spot.ip).result with
    | none =>
      rw [read] at ended
      cases ended
    | some found =>
      obtain ⟨node, next⟩ := found
      rw [read, Option.map_some] at decoded
      rw [read, Option.bind_some] at ended
      have moved : SpotHome memSize { spot with ip := next } :=
        ⟨home.home, home.based⟩
      rw [Refuses.iff_of_read decoded]
      cases valid : node.ins.valid with
      | false =>
        rw [runInsnode_bad ops valid] at ended
        cases Option.some.inj ended
        exact iff_of_true rfl (.inl rfl)
      | true =>
        have runs : Runs code.length memSize { spot with ip := next }
            node _ := runs_runInsnode moved ops valid
        by_cases fits : Fits (BitVec.ofNat 32 memSize).toInt
            spot.height node
        · obtain ⟨after, result, afterHome, ipKept, _⟩ := runs.fits fits
          rw [result, Option.bind_some] at ended
          dsimp only at ipKept
          have later := induction afterHome ended
          rw [ipKept] at later
          exact later.trans ⟨.inr, fun refuses =>
            refuses.resolve_left fun invalid => nomatch invalid⟩
        · rw [runs.unfit fits] at ended
          cases ended

end Loop

section Agreement

variable {memSize : Nat} {cpu after : VmCpu} {spot : VmSpot} {node : InsNode}
  {ops : VmOps} {code : List UInt8} {place : VmPlace}

theorem store_load (home : AtHome memSize cpu)
    (points : Points memSize cpu place) :
    cpu.store (cpu.load place) place = cpu := by
  obtain ⟨reg1, reg2, stack, memory, rands⟩ := cpu
  cases place with
  | reg1 | reg2 => rfl
  | stack slot =>
    change slot < stack.length at points
    have inside : slot < stack.reverse.length := by
      rw [length_reverse]
      exact points
    change VmCpu.mk reg1 reg2
      (stack.reverse.set slot ((stack.reverse[slot]?).getD 0)).reverse
      memory rands = _
    rw [getElem?_eq_getElem inside, Option.getD_some,
      set_getElem_self, reverse_reverse]
  | memory index =>
    obtain ⟨cell, found⟩ := Option.isSome_iff_exists.mp (home.cells index)
    dsimp only at found
    change VmCpu.mk reg1 reg2 stack
      { memory with
        cell := Function.update memory.cell index
          (some ((memory.cell index).getD 0)) } rands = _
    rw [found, Option.getD_some, ← found, Function.update_eq_self]

theorem assign_result :
    (assign cpu node).result =
      some (cpu.update node fun _ value => value) := by
  unfold assign VmCpu.update
  rw [result_bind, getvalue_result, Option.bind_some]
  cases cpu.refOperand node.ds1 node.val1 with
  | none => rfl
  | some place => exact store_result ..

theorem update_result (home : AtHome memSize cpu) (skip : VmValue → Bool)
    (change : VmValue → VmValue → VmValue) :
    (update cpu node skip change).result =
      some (cpu.update node fun old value =>
        if skip value then old else change old value) := by
  unfold update VmCpu.update
  rw [result_bind, getvalue_result, Option.bind_some]
  cases refers : cpu.refOperand node.ds1 node.val1 with
  | none => rfl
  | some place =>
    by_cases skipped : skip (cpu.getvalue node.ds2 node.val2)
    · simp only [skipped, if_true, result_pure]
      rw [store_load home (refOperand_points home refers)]
    · simp [skipped]

theorem answer_result (function : VmValue → VmValue → VmValue) :
    (answer cpu node function).result = some (cpu.answer node function) := by
  simp [answer, VmCpu.answer, getvalue_result]

theorem answerOne_result (function : VmValue → VmValue) :
    (answerOne cpu node function).result =
      some (cpu.answer node fun value _ => function value) := by
  simp [answerOne, VmCpu.answer, getvalue_result]

theorem stay_result {access : Access VmTouch VmCpu}
    (result : access.result = some after) :
    (stay spot access).result = some (some { spot with cpu := after }) := by
  unfold stay
  rw [result_bind, result]
  rfl

theorem runInsnode_ok (home : AtHome memSize spot.cpu) (base : spot.below = 0)
    (ran : spot.cpu.runInsnode ops node = .ok after) :
    (runInsnode ops spot node).result =
      some (some { spot with cpu := after }) := by
  obtain ⟨ins, ds1, ds2, val1, val2⟩ := node
  cases ins with
  | mov =>
    cases Except.ok.inj ran
    exact stay_result assign_result
  | add | sub | mul | div =>
    cases Except.ok.inj ran
    exact stay_result (update_result home _ _)
  | max | min =>
    cases Except.ok.inj ran
    exact stay_result (answer_result _)
  | rand =>
    cases Except.ok.inj ran
    exact stay_result (by simp [answer_result])
  | ltzero =>
    cases Except.ok.inj ran
    exact stay_result (answerOne_result _)
  | prob =>
    cases Except.ok.inj ran
    exact stay_result (by simp [answerOne_result])
  | sqrt | round | ceil | floor =>
    cases Except.ok.inj ran
    exact stay_result (answerOne_result _)
  | nop =>
    cases Except.ok.inj ran
    rfl
  | push =>
    unfold VmCpu.runInsnode at ran
    dsimp only at ran
    unfold runInsnode
    split at ran
    · rename_i room
      cases Except.ok.inj ran
      have inside : 0 ≤ spot.height ∧ spot.height < vmStackSize := by
        unfold VmSpot.height
        omega
      simp [push, getvalue_result, slotAt_inside inside]
    · exact absurd ran (by simp)
  | pop =>
    unfold VmCpu.runInsnode at ran
    dsimp only at ran
    unfold runInsnode
    cases stack : spot.cpu.stack with
    | nil =>
      rw [stack] at ran
      exact absurd ran (by simp)
    | cons top rest =>
      rw [stack] at ran
      dsimp only at ran
      have fits := home.fits
      have inside : 0 ≤ spot.height - 1 ∧
          spot.height - 1 < vmStackSize := by
        unfold VmSpot.height
        rw [stack, length_cons] at fits ⊢
        omega
      unfold pop
      cases refers : spot.cpu.refOperand ds1 val1 with
      | none =>
        rw [refers] at ran
        cases Except.ok.inj ran
        simp [stack]
      | some place =>
        rw [refers] at ran
        cases Except.ok.inj ran
        dsimp only
        simp only [result_bind, slotAt_inside inside, Option.bind_some,
          store_result, result_pure, stack, tail_cons,
          headD_cons]
  | bad code => exact absurd ran (by simp [VmCpu.runInsnode])

theorem runCmd_of_runSteps {steps : Nat} (home : SpotHome memSize spot)
    (base : spot.below = 0)
    (ran : spot.cpu.runSteps ops steps (code.drop spot.ip) = .ok after) :
    (runCmd ops code steps spot).result = some (.returned 0 after) := by
  induction steps generalizing spot with
  | zero =>
    rw [runCmd]
    by_cases running : spot.ip < code.length
    · rw [drop_eq_getElem_cons running] at ran
      exact absurd ran (by simp [VmCpu.runSteps])
    · rw [drop_of_length_le (Nat.not_lt.mp running)] at ran
      rw [if_neg running]
      cases Except.ok.inj ran
      rfl
  | succ steps induction =>
    rw [runCmd]
    by_cases running : spot.ip < code.length
    case neg =>
      rw [drop_of_length_le (Nat.not_lt.mp running)] at ran
      rw [if_neg running]
      cases Except.ok.inj ran
      rfl
    rw [if_pos running]
    have decoded : InsNode.instruction2node (code.drop spot.ip) = _ :=
      instruction2node_result
    obtain ⟨byte, rest, begins⟩ :=
      exists_cons_of_ne_nil (l := code.drop spot.ip) (by
        rw [Ne, drop_eq_nil_iff]
        omega)
    rw [begins, VmCpu.runSteps, ← begins, decoded] at ran
    cases read : (instruction2node code spot.ip).result with
    | none =>
      rw [read] at ran
      exact absurd ran (by simp)
    | some found =>
      obtain ⟨node, next⟩ := found
      rw [read, Option.map_some] at ran
      dsimp only at ran
      cases instruction : spot.cpu.runInsnode ops node with
      | error fault =>
        rw [instruction] at ran
        exact absurd ran (by simp)
      | ok middle =>
        rw [instruction] at ran
        dsimp only at ran
        have moved : SpotHome memSize { spot with ip := next } :=
          ⟨home.home, home.based⟩
        have result : (runInsnode ops { spot with ip := next }
            node).result =
              some (some ⟨next, middle, spot.below⟩) :=
          runInsnode_ok moved.home base instruction
        have stepped : (step ops code spot).result =
            some (some ⟨next, middle, spot.below⟩) := by
          rw [step, result_bind, read]
          exact result
        have valid : node.ins.valid = true := by
          by_contra invalid
          rw [Bool.not_eq_true] at invalid
          rw [runInsnode_bad ops invalid] at result
          cases result
        have runs : Runs code.length memSize { spot with ip := next }
            node _ := runs_runInsnode moved ops valid
        have fits : Fits (BitVec.ofNat 32 memSize).toInt
            spot.height node := by
          by_contra unfit
          have lost := runs.unfit unfit
          rw [result] at lost
          exact absurd lost (Option.some_ne_none _)
        obtain ⟨reached, found, afterHome, _⟩ := runs.fits fits
        rw [result] at found
        cases Option.some.inj (Option.some.inj found)
        rw [result_bind, stepped]
        exact induction afterHome base ran

end Agreement

section Safety

variable {code : List UInt8} {memSize : Nat} {memory : Nat → VmValue}

theorem machineInit_home :
    SpotHome memSize ⟨0, machineInit memory memSize, 0⟩ where
  home :=
    { fits := Nat.zero_le _
      size_eq := rfl
      cells := fun _ => rfl }
  based := fun passed => absurd rfl passed

/-- The run comes back, and it has touched only the code, the stack and the
memory it was given. -/
def Safe (codeSize memSize : Nat) (run : Access VmTouch VmEnd) : Prop :=
  (∃ answer cpu, run.result = some (.returned answer cpu)) ∧
    ∀ place ∈ run.touched, place.Inside codeSize memSize

/-- `vm_run_cmd` on a machine just initialised is safe exactly for code that is
contained. -/
theorem runCmd_safe_iff (ops : VmOps) (memory : Nat → VmValue) (memSize : Nat)
    (code : List UInt8) (steps : Nat) (enough : code.length ≤ steps) :
    Safe code.length memSize
        (runCmd ops code steps ⟨0, machineInit memory memSize, 0⟩) ↔
      Contained (BitVec.ofNat 32 memSize).toInt 0 code := by
  have home : SpotHome memSize ⟨0, machineInit memory memSize, 0⟩ :=
    machineInit_home
  have spec := @runCmd_spec code memSize steps _ ops home (by
    rw [Nat.zero_add]
    exact enough)
  constructor
  · intro safe
    by_contra uncontained
    obtain ⟨⟨answer, cpu, result⟩, _⟩ := safe
    rw [spec.2.2 uncontained] at result
    exact absurd result.symm (Option.some_ne_none _)
  · intro contained
    obtain ⟨answer, cpu, result⟩ := spec.2.1 contained
    refine ⟨⟨answer, cpu, result⟩, spec.1.mp ?_⟩
    rw [result]
    rfl

/-- The run is safe, and -1 is its answer to code that would violate this. -/
def Guarded (memSize : Nat) (code : List UInt8)
    (run : Access VmTouch VmEnd) : Prop :=
  Safe code.length memSize run ∧
    (Violates memSize 0 code → ∃ cpu, run.result = some (.returned (-1) cpu))

/-- `vm_run_cmd` guards itself exactly against code in which nothing would be
violated, and against contained code that reaches a byte that is no opcode. -/
theorem runCmd_guarded_iff (ops : VmOps) (memory : Nat → VmValue)
    (memSize : Nat) (code : List UInt8) (steps : Nat)
    (enough : code.length ≤ steps) :
    Guarded memSize code
        (runCmd ops code steps ⟨0, machineInit memory memSize, 0⟩) ↔
      ¬ Violates memSize 0 code ∨
        Contained (BitVec.ofNat 32 memSize).toInt 0 code ∧ Refuses code := by
  have home : SpotHome memSize ⟨0, machineInit memory memSize, 0⟩ :=
    machineInit_home
  have safe := runCmd_safe_iff ops memory memSize code steps enough
  have refused {answer : Int} {cpu : VmCpu} :=
    @runCmd_refused_iff code memSize steps _ ops answer cpu home
  unfold Guarded
  rw [safe]
  constructor
  · rintro ⟨contained, answered⟩
    by_cases violates : Violates memSize 0 code
    · obtain ⟨cpu, ended⟩ := answered violates
      exact .inr ⟨contained, (refused ended).mp rfl⟩
    · exact .inl violates
  · rintro (keeps | ⟨contained, refuses⟩)
    · exact ⟨.of_not_violates keeps, fun violates => absurd violates keeps⟩
    · refine ⟨contained, fun _ => ?_⟩
      obtain ⟨⟨answer, cpu, ended⟩, _⟩ := safe.mpr contained
      obtain rfl := (refused ended).mpr refuses
      exact ⟨cpu, ended⟩

/-- Pushing a number and popping it into a register is guarded: nothing would
be violated. -/
theorem runCmd_guarded_pushPop :
    ¬ Violates 4 0 [6, 1, 0, 0, 160, 64, 7, 4] ∧
      ∀ (ops : VmOps) (memory : Nat → VmValue),
        Guarded 4 [6, 1, 0, 0, 160, 64, 7, 4]
          (runCmd ops [6, 1, 0, 0, 160, 64, 7, 4] 8
            ⟨0, machineInit memory 4, 0⟩) := by
  have keeps : ¬ Violates 4 0 [6, 1, 0, 0, 160, 64, 7, 4] := by
    have pushes : InsNode.instruction2node [6, 1, 0, 0, 160, 64, 7, 4] =
        some (⟨.push, .immediate, .none, 0x40A00000, 0⟩, [7, 4]) := rfl
    have pops : InsNode.instruction2node [7, 4] =
        some (⟨.pop, .reg1, .none, 0, 0⟩, []) := rfl
    rw [Violates.iff_of_read pushes rfl, Violates.iff_of_read pops rfl]
    rintro (⟨place, member, outside⟩ | ⟨place, member, outside⟩ | violates)
    · obtain rfl := mem_singleton.mp member
      exact outside ⟨Int.le_refl 0, by decide⟩
    · obtain rfl := mem_singleton.mp member
      exact outside ⟨Int.le_refl 0, by decide⟩
    · exact not_violates_nil violates
  refine ⟨keeps, fun ops memory => ?_⟩
  exact (runCmd_guarded_iff ops memory 4 [6, 1, 0, 0, 160, 64, 7, 4] 8
    (Nat.le_refl 8)).mpr (.inl keeps)

/-- `EOP_PUSH` as the last byte makes the machine read the byte behind the
code; `EOP_POP` into a register at the beginning makes it read the word in
front of the stack; and `MOV [100], REG1` with four cells is answered by 0. -/
theorem runCmd_leaves :
    (∀ (ops : VmOps) (memory : Nat → VmValue) (memSize : Nat),
      .code 1 ∈ (runCmd ops [6] 1 ⟨0, machineInit memory memSize, 0⟩).touched ∧
        ¬ (VmTouch.code 1).Inside 1 memSize) ∧
    (∀ (ops : VmOps) (memory : Nat → VmValue) (memSize : Nat),
      .stack (-1) ∈
          (runCmd ops [7, 4] 2 ⟨0, machineInit memory memSize, 0⟩).touched ∧
        ¬ (VmTouch.stack (-1)).Inside 2 memSize) ∧
    Violates 4 0 [1, 2, 100, 0, 0, 0, 4] ∧
      ∀ (ops : VmOps) (memory : Nat → VmValue),
        (runCmd ops [1, 2, 100, 0, 0, 0, 4] 7
          ⟨0, machineInit memory 4, 0⟩).result =
            some (.returned 0 (machineInit memory 4)) := by
  refine ⟨fun ops memory memSize => ⟨?_, Nat.lt_irrefl 1⟩,
    fun ops memory memSize => ⟨?_, fun inside => absurd inside.1 (by decide)⟩,
    ?_, fun ops memory => rfl⟩
  · exact mem_cons_of_mem _ mem_cons_self
  · exact mem_cons_of_mem _ (mem_cons_of_mem _ mem_cons_self)
  · have moves : InsNode.instruction2node [1, 2, 100, 0, 0, 0, 4] =
        some (⟨.mov, .address, .reg1, 100, 0⟩, []) := rfl
    have named : VmTouch.memory 100 ∈
        (⟨.mov, .address, .reg1, 100, 0⟩ : InsNode).unchecked 0 :=
      mem_cons_self
    exact .here moves rfl named fun inside => absurd inside.2 (by decide)

theorem safe_of_result {ops : VmOps} {after : VmCpu}
    (result : (runCmd ops code code.length
      ⟨0, machineInit memory memSize, 0⟩).result = some (.returned 0 after)) :
    Safe code.length memSize
      (runCmd ops code code.length ⟨0, machineInit memory memSize, 0⟩) := by
  have home : SpotHome memSize ⟨0, machineInit memory memSize, 0⟩ :=
    machineInit_home
  have sound := (@runCmd_spec code memSize code.length _ ops home
    (Nat.le_add_left _ _)).1
  refine ⟨⟨0, after, result⟩, sound.mp ?_⟩
  rw [result]
  rfl

/-- Code that has a result in the machine without touches is safe, and has this
result. -/
theorem runCmd_refines (ops : VmOps) {after : VmCpu}
    (ran : (machineInit memory memSize).runCmd ops code = .ok after) :
    Safe code.length memSize
        (runCmd ops code code.length ⟨0, machineInit memory memSize, 0⟩) ∧
      (runCmd ops code code.length
        ⟨0, machineInit memory memSize, 0⟩).result =
          some (.returned 0 after) := by
  have result := runCmd_of_runSteps machineInit_home rfl ran
  exact ⟨safe_of_result result, result⟩

def wordOps : VmOps :=
  ⟨(· + ·), (· - ·), (· * ·), (· / ·), (· == 0),
    fun left right => if left < right then right else left,
    fun left right => if left < right then left else right,
    id, id, id, id, id, fun _ left _ => left, fun _ => id⟩

theorem runCmd_refines_pushPop :
    (runCmd wordOps [6, 1, 0, 0, 160, 64, 7, 4] 8
      ⟨0, machineInit (fun _ => 0) 4, 0⟩).result =
        some (.returned 0
          { machineInit (fun _ => 0) 4 with reg1 := 0x40A00000 }) :=
  (@runCmd_refines [6, 1, 0, 0, 160, 64, 7, 4] 4 (fun _ => 0) wordOps _
    rfl).2

end Safety

end Touching

end NdNet
