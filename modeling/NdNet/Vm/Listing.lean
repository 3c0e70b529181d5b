import NdNet.Lib.Script
import NdNet.Vm.Compile

/-!
# The lines of a formula, taken or not

The walk over the units of a formula as a script that prints its lines: where
`calcNodeResult` and the functions around it pass on what has been printed, the
script only says which line comes next and, where the source looks at the result
of `asm_printf`, how it goes on in either case.

Few of the calls of `asm_printf` are looked at, so a line that is not
assembled, or whose instruction has no room any more, is passed over.
-/

namespace NdNet.Formula

open Script (say ask)

open Str

abbrev LineScript := Script TextFault (List Char)

/-- The units that are left behind a walk, and whether it has failed. -/
abbrev Walked := List OpUnit × Bool

def opScript (op : Option FormulaOp) (operand1 operand2 : List Char) :
    LineScript Unit :=
  let line (name : String) : LineScript Unit :=
    say (name.toList ++ operand1 ++ " , ".toList ++ operand2 ++ " \n".toList)
  match op with
  | some .add => line "\t ADD "
  | some .sub => line "\t SUB "
  | some .mul => line "\t MUL "
  | some .div => line "\t DIV "
  | some .assign => line "\t MOV "
  | none => pure ()

def paramsScript (run : List OpUnit → LineScript Walked) (unit : OpUnit) :
    LineScript ArgsLeft := do
  let first ← run unit.param0
  let left : ArgsLeft := ⟨first.1, unit.param1, first.2⟩
  if first.2 then return left
  else if getFunParams unit.operand = 1 then return left
  else
    say "\t PUSH   REG1\n".toList
    let second ← run unit.param1
    let left : ArgsLeft := ⟨first.1, second.1, second.2⟩
    if second.2 then return left
    else
      say "\t PUSH   REG1\n".toList
      return left

def callScript (name : List Char) (units : List OpUnit) : LineScript Unit :=
  if stricmp name "SET".toList = 0 then
    say ("\t MOV ".toList ++ (units.head?.map OpUnit.operand).getD [] ++
      ", REG1\n".toList)
  else if getFunParams name = 1 then
    say ("\t ".toList ++ name ++ "  REG1\n".toList)
  else say ("\t ".toList ++ name ++ "   [SP -2], [SP -1]\n".toList)

def functionScript (run : List OpUnit → LineScript Walked) (unit : OpUnit) :
    LineScript ArgsLeft := do
  let args ← paramsScript run unit
  if args.failed then return args
  else
    callScript unit.operand args.param0
    if getFunParams unit.operand = 1 then return args
    else
      say "\t POP \n".toList
      say "\t POP \n".toList
      return args

def readyScript (run : List OpUnit → LineScript Walked) (unit : OpUnit) :
    LineScript (Bool × OpUnit) :=
  if unit.isFunction then do
    say "\t PUSH REG1 \n".toList
    let args ← functionScript run unit
    if args.failed then return (true, unit.leave args)
    else
      say "\t MOV REG2, REG1 \n".toList
      say "\t POP REG1 \n".toList
      return (false,
        { unit.leave args with
          operand := "REG2".toList
          isFunction := false })
  else return (false, unit)

mutual

def nodeScript :
    Nat → Option Int → List OpUnit → LineScript Walked
  | 0, _, _ => .fault .endless
  | _ + 1, _, [] => return ([], false)
  | fuel + 1, previous, unit :: later =>
    if unit.isFunction then do
      let args ← functionScript (expressScript fuel) unit
      if args.failed then return (unit.leave args :: later, true)
      else
        loopScript fuel previous { unit.leave args with isFunction := false }
          later false
    else do
      say ("\t MOV REG1, ".toList ++ unit.operand ++ "\n".toList)
      loopScript fuel previous unit later false

def loopScript :
    Nat → Option Int → OpUnit → List OpUnit → Bool → LineScript Walked
  | 0, _, _, _, _ => .fault .endless
  | _ + 1, _, unit, [], _ => return ([unit], false)
  | fuel + 1, previous, unit, next :: rest, isRecursion => do
      let ready ← readyScript (expressScript fuel) next
      let next := ready.2
      if ready.1 then return (unit :: next :: rest, true)
      else
        let operand2 := if isRecursion then "REG2".toList else next.operand
        if unit.level = next.level ∨ next.op = none then
          opScript unit.op "REG1".toList operand2
          if next.op = none then return (next :: rest, false)
          else loopScript fuel previous next rest false
        else if next.level < unit.level then
          opScript unit.op "REG1".toList operand2
          if previous.any fun level => decide (next.level < level) then
            return (next :: rest, false)
          else loopScript fuel previous next rest false
        else
          say "\t PUSH REG1 \n".toList
          let data ← nodeScript fuel (some unit.level) (next :: rest)
          say "\t MOV REG2 , REG1 \n".toList
          say "\t POP REG1 \n".toList
          loopScript fuel previous unit data.1 true

def expressScript : Nat → List OpUnit → LineScript Walked
  | 0, _ => .fault .endless
  | _ + 1, [] => return ([], true)
  | fuel + 1, unit :: later =>
    if unit.op = some .assign then do
      let value ←
        if (later.head?.bind OpUnit.op) = some .assign then
          expressScript fuel later
        else nodeScript fuel none later
      let printed ← ask
        ("\t MOV  ".toList ++ unit.operand ++ ", REG1\n".toList)
      return (unit :: value.1, !printed)
    else do
      let value ← nodeScript fuel none (unit :: later)
      return (value.1, false)

end

section Prints

variable (env : FormulaEnv)

def CalcEnd.ofScript (ended : Walked × AsmOut) : CalcEnd :=
  ⟨ended.2, ended.1.1, ended.1.2⟩

theorem onto_ite {σ α : Type} (take : σ → List Char → Except TextFault (Bool × σ))
    (state : σ) (c : Prop) [Decidable c] (first second : LineScript α) :
    (if c then first else second).onto take state =
      if c then first.onto take state else second.onto take state := by
  split <;> rfl

theorem map_ite {α β : Type} (f : α → β) (c : Prop) [Decidable c]
    (first second : Except TextFault α) :
    f <$> (if c then first else second) =
      if c then f <$> first else f <$> second := by
  split <;> rfl

theorem onto_say_line (out : AsmOut) (line : List Char) :
    (say line : LineScript Unit).onto (asmPrintf env) out =
      (fun out => ((), out)) <$> printLine env out line := by
  rw [Script.onto_say, printLine]
  cases asmPrintf env out line <;> rfl

theorem outOpAsm_script (out : AsmOut) (op : Option FormulaOp)
    (operand1 operand2 : List Char) :
    (opScript op operand1 operand2).onto (asmPrintf env) out =
      (fun out => ((), out)) <$> outOpAsm env out op operand1 operand2 := by
  cases op with
  | none => rfl
  | some op => cases op <;> exact onto_say_line env out _

def PrintsScript (run : AsmOut → List OpUnit → Except TextFault CalcEnd)
    (script : List OpUnit → LineScript Walked) : Prop :=
  ∀ out units, run out units =
    CalcEnd.ofScript <$> (script units).onto (asmPrintf env) out

variable {env} {run : AsmOut → List OpUnit → Except TextFault CalcEnd}
  {script : List OpUnit → LineScript Walked}

theorem runParams_script (same : PrintsScript env run script) (out : AsmOut)
    (unit : OpUnit) : runParams env run out unit =
      (paramsScript script unit).onto (asmPrintf env) out := by
  unfold runParams paramsScript
  simp only [same _ _, Script.onto_bind, Script.onto_pure, onto_say_line,
    onto_ite, bind_map_left]
  rfl

theorem runCall_script (out : AsmOut) (name : List Char) (units : List OpUnit) :
    (callScript name units).onto (asmPrintf env) out =
      (fun out => ((), out)) <$> runCall env out name units := by
  unfold runCall callScript
  simp only [onto_ite, onto_say_line, map_ite]

theorem runFunction_script (same : PrintsScript env run script) (out : AsmOut)
    (unit : OpUnit) : runFunction env run out unit =
      (functionScript script unit).onto (asmPrintf env) out := by
  unfold runFunction functionScript
  simp only [runParams_script same, runCall_script, Script.onto_bind,
    Script.onto_pure, onto_say_line, onto_ite, bind_map_left]

theorem readyOperand_script (same : PrintsScript env run script)
    (out : AsmOut) (unit : OpUnit) : readyOperand env run out unit =
      (fun ended => (ended.1.1, ended.2, ended.1.2)) <$>
        (readyScript script unit).onto (asmPrintf env) out := by
  unfold readyOperand readyScript
  simp only [runFunction_script same, Script.onto_bind,
    Script.onto_pure, onto_say_line, onto_ite, map_ite, map_bind,
    bind_map_left, map_pure]
  rfl

variable (env) in
theorem walk_script (fuel : Nat) :
    (∀ out previous units, calcNodeResult env fuel out previous units =
      CalcEnd.ofScript <$>
        (nodeScript fuel previous units).onto (asmPrintf env) out) ∧
    (∀ out previous unit later isRecursion,
      calcLoop env fuel out previous unit later isRecursion =
        CalcEnd.ofScript <$> (loopScript fuel previous unit later
          isRecursion).onto (asmPrintf env) out) ∧
    PrintsScript env (runExperssion env fuel) (expressScript fuel) := by
  induction fuel with
  | zero =>
    refine ⟨fun _ _ _ => ?_, fun _ _ _ _ _ => ?_, fun _ _ => ?_⟩
    · rw [calcNodeResult, nodeScript]
      rfl
    · rw [calcLoop, loopScript]
      rfl
    · rw [runExperssion, expressScript]
      rfl
  | succ fuel induction =>
    obtain ⟨node, loop, express⟩ := induction
    refine ⟨fun out previous units => ?_,
      fun out previous unit later isRecursion => ?_, fun out units => ?_⟩
    · cases units with
      | nil =>
        rw [calcNodeResult, nodeScript]
        rfl
      | cons unit later =>
        rw [calcNodeResult, nodeScript]
        simp only [runFunction_script express, loop, Script.onto_bind,
          Script.onto_pure, onto_say_line, onto_ite, map_ite, map_bind,
          bind_map_left, map_pure]
        rfl
    · cases later with
      | nil =>
        rw [calcLoop, loopScript]
        rfl
      | cons next rest =>
        rw [calcLoop, loopScript]
        simp only [readyOperand_script express, node, loop,
          outOpAsm_script, Script.onto_bind, Script.onto_pure,
          onto_say_line, onto_ite, map_ite, map_bind, bind_map_left,
          map_pure]
        rfl
    · cases units with
      | nil =>
        rw [runExperssion, expressScript]
        rfl
      | cons unit later =>
        rw [runExperssion, expressScript]
        simp only [node, express _ _, Script.onto_bind,
          Script.onto_pure, Script.onto_ask, onto_ite, map_ite, map_bind,
          bind_map_left, map_pure]
        rfl

end Prints

section Returns

/-- What `asm_printf` puts into the buffer for a line that it assembles. -/
def block (env : FormulaEnv) (line : List Char) :
    Except TextFault (Option (List UInt8)) :=
  match Asm.compilerLine env (line.take 127) with
  | .error .refused => .ok none
  | .error fault => .error fault
  | .ok none =>
    .ok (some ((line.take 127).map fun c => UInt8.ofNat c.toNat))
  | .ok (some node) => .ok (some node.instruct2buf)

def textScript (fuel : Nat) (env : FormulaEnv) (text : List Char) :
    LineScript Unit :=
  match parseExpress2node env text opUnitNum with
  | .error fault => .fault fault
  | .ok parsed => do
      let value ← expressScript fuel parsed.1
      if value.2 then .fault .refused else return ()

variable {env : FormulaEnv} {text : List Char} {size : Nat} {code : List UInt8}

theorem asmPrintf_block (out : AsmOut) (line : List Char) :
    asmPrintf env out line =
      match block env line with
      | .error fault => .error fault
      | .ok none => .ok (false, out)
      | .ok (some bytes) => .ok (AsmOut.append out bytes) := by
  unfold asmPrintf block
  dsimp only
  cases Asm.compilerLine env (line.take 127) with
  | error fault => cases fault <;> rfl
  | ok node => cases node <;> rfl

theorem onto_asmPrintf {α : Type} (script : LineScript α) (out : AsmOut) :
    script.onto (asmPrintf env) out =
      (script.store (block env) out.room).map fun ended =>
        (ended.2, ⟨out.code ++ ended.1, out.room - ended.1.length⟩) := by
  induction script generalizing out with
  | done value =>
    change Except.ok (value, out) = Except.ok (value, AsmOut.mk _ _)
    rw [List.append_nil]
    rfl
  | fault error => rfl
  | print line next induction =>
    rw [Script.onto, Script.store, asmPrintf_block]
    cases block env line with
    | error fault => rfl
    | ok found =>
      cases found with
      | none => exact induction false out
      | some bytes =>
        dsimp only
        rw [AsmOut.append]
        split
        · change (next true).onto _ _ = _
          rw [induction true]
          cases Script.store (block env) (out.room - bytes.length)
              (next true) with
          | error fault => rfl
          | ok ended =>
            obtain ⟨rest, value⟩ := ended
            change Except.ok (value, AsmOut.mk _ _) =
              Except.ok (value, AsmOut.mk _ _)
            rw [List.append_assoc, List.length_append, Nat.sub_sub]
        · exact induction false out

theorem vmParseExpression_script (fuel : Nat) :
    vmParseExpression fuel env text size =
      ((textScript fuel env text).store (block env) size).map Prod.fst := by
  unfold vmParseExpression textScript
  cases parseExpress2node env text opUnitNum with
  | error fault => rfl
  | ok parsed =>
    have printed : ∀ script : LineScript Unit,
        (script.store (block env) size).map Prod.fst =
          (script.onto (asmPrintf env) ⟨[], size⟩).map fun ended =>
            ended.2.code := by
      intro script
      rw [onto_asmPrintf]
      cases script.store (block env) size <;> rfl
    change (runExperssion env fuel ⟨[], size⟩ parsed.1 >>= _) = _
    rw [printed, (walk_script env fuel).2.2]
    rw [Script.onto_bind]
    cases (expressScript fuel parsed.1).onto (asmPrintf env) ⟨[], size⟩ with
    | error fault => rfl
    | ok ended =>
      obtain ⟨⟨units, failed⟩, out⟩ := ended
      cases failed <;> rfl

theorem instruct2buf_length (node : InsNode) :
    node.instruct2buf.length ≤ 11 := by
  have operand : ∀ (present : Bool) ds value,
      (if present then InsNode.operandBytes ds value else []).length ≤ 5 := by
    intro present ds value
    unfold InsNode.operandBytes
    cases present with
    | false => exact Nat.zero_le _
    | true =>
      cases ds.carries with
      | false => exact (by decide : 1 ≤ 5)
      | true => exact Nat.le_refl 5
  have first := operand node.ins.hasFirst node.ds1 node.val1
  have second := operand node.ins.hasSecond node.ds2 node.val2
  unfold InsNode.instruct2buf
  rw [List.length_cons, List.length_append]
  omega

/-- No line puts more than it has characters, or an instruction has bytes, into
the buffer. -/
theorem block_narrow (line : List Char) (bytes : List UInt8)
    (found : block env line = .ok (some bytes)) : bytes.length ≤ 127 := by
  unfold block at found
  split at found
  · cases found
  · cases found
  · obtain rfl := Option.some.inj (Except.ok.inj found)
    rw [List.length_map]
    exact List.length_take_le _ _
  · obtain rfl := Option.some.inj (Except.ok.inj found)
    exact Nat.le_trans (instruct2buf_length _) (by decide)

end Returns

/-- With rounds enough, `code` is returned. -/
def Returns (env : FormulaEnv) (text : List Char) (size : Nat)
    (code : List UInt8) : Prop :=
  ∃ rounds, ∀ fuel, rounds ≤ fuel →
    vmParseExpression fuel env text size = .ok code

/-- What is returned if the first line that is not assembled, or whose
instruction has no room, ends the whole compilation. -/
def ReturnsWhole (env : FormulaEnv) (text : List Char) (size : Nat)
    (code : List UInt8) : Prop :=
  ∃ rounds, ∀ fuel, rounds ≤ fuel →
    (textScript fuel env text).strict (block env) .refused size = .ok (code, ())

def instructions (fuel : Nat) (env : FormulaEnv) (text : List Char) :
    Except TextFault (List (Option (List UInt8))) :=
  ((textScript fuel env text).listing (block env)).map Prod.fst

def Fits (env : FormulaEnv) (text : List Char) (size : Nat) : Prop :=
  ∃ rounds, ∀ fuel, rounds ≤ fuel → ∃ blocks,
    instructions fuel env text = .ok blocks ∧
      (Script.bytesOf blocks).length ≤ size

def Assembled (env : FormulaEnv) (text : List Char) : Prop :=
  ∃ rounds, ∀ fuel, rounds ≤ fuel → ∃ blocks,
    instructions fuel env text = .ok blocks ∧ none ∉ blocks

section Whole

variable {env : FormulaEnv} {text : List Char} {size fuel : Nat}
  {code : List UInt8} {blocks : List (Option (List UInt8))}

theorem instructions_ok : instructions fuel env text = .ok blocks ↔
    (textScript fuel env text).listing (block env) = .ok (blocks, ()) := by
  unfold instructions
  cases (textScript fuel env text).listing (block env) with
  | error fault => simp [Except.map]
  | ok ended => simp [Except.map, Prod.ext_iff]

theorem vmParseExpression_ok : vmParseExpression fuel env text size = .ok code ↔
    (textScript fuel env text).store (block env) size = .ok (code, ()) := by
  rw [vmParseExpression_script]
  cases (textScript fuel env text).store (block env) size with
  | error fault => simp [Except.map]
  | ok ended => simp [Except.map, Prod.ext_iff]

/-- What is returned is returned for every larger buffer exactly if all the
instructions together have room; and no line has been passed over exactly if
every line is assembled besides. -/
theorem vmParseExpression_whole_iff (env : FormulaEnv) (text : List Char)
    (size : Nat) (code : List UInt8) (returns : Returns env text size code) :
    ((∀ larger, size ≤ larger → Returns env text larger code) ↔
      Fits env text size) ∧
    (ReturnsWhole env text size code ↔
      Fits env text size ∧ Assembled env text) := by
  obtain ⟨rounds, returns⟩ := returns
  have stored : ∀ fuel, rounds ≤ fuel →
      (textScript fuel env text).store (block env) size = .ok (code, ()) :=
    fun fuel enough => vmParseExpression_ok.mp (returns fuel enough)
  -- where the instructions have room, they are what is returned
  have whole : ∀ fuel, rounds ≤ fuel → ∀ blocks,
      instructions fuel env text = .ok blocks →
      (Script.bytesOf blocks).length ≤ size → Script.bytesOf blocks = code := by
    intro fuel enough blocks listed fits
    have all := Script.store_of_listing (instructions_ok.mp listed) fits
    exact (Prod.mk.inj (Except.ok.inj (all.symm.trans (stored fuel enough)))).1
  refine ⟨⟨?_, ?_⟩, ⟨?_, ?_⟩⟩
  · intro same
    -- room for one more line is enough to see what has been passed over
    obtain ⟨more, again⟩ := same (size + 127) (Nat.le_add_right _ _)
    refine ⟨max rounds more, fun fuel enough => ?_⟩
    have here := stored fuel (Nat.le_trans (Nat.le_max_left _ _) enough)
    have wider := vmParseExpression_ok.mp
      (again fuel (Nat.le_trans (Nat.le_max_right _ _) enough))
    obtain ⟨blocks, listed, equal⟩ :=
      Script.listing_of_store block_narrow here wider
    refine ⟨blocks, instructions_ok.mpr listed, ?_⟩
    rw [equal]
    exact Script.store_length here
  · rintro ⟨more, fits⟩ larger wide
    refine ⟨max rounds more, fun fuel enough => ?_⟩
    have early := Nat.le_trans (Nat.le_max_left _ _) enough
    obtain ⟨blocks, listed, room⟩ :=
      fits fuel (Nat.le_trans (Nat.le_max_right _ _) enough)
    rw [← whole fuel early blocks listed room]
    exact vmParseExpression_ok.mpr (Script.store_of_listing
      (instructions_ok.mp listed) (Nat.le_trans room wide))
  · rintro ⟨more, all⟩
    refine ⟨⟨more, fun fuel enough => ?_⟩, more, fun fuel enough => ?_⟩
    all_goals
      obtain ⟨blocks, listed, assembled, equal, room⟩ :=
        Script.strict_iff.mp (all fuel enough)
    · rw [← equal] at room
      exact ⟨blocks, instructions_ok.mpr listed, room⟩
    · exact ⟨blocks, instructions_ok.mpr listed, assembled⟩
  · rintro ⟨⟨more, fits⟩, most, assembled⟩
    refine ⟨max rounds (max more most), fun fuel enough => ?_⟩
    have early : rounds ≤ fuel := by omega
    obtain ⟨blocks, listed, room⟩ := fits fuel (by omega)
    obtain ⟨others, relisted, all⟩ := assembled fuel (by omega)
    obtain rfl := Except.ok.inj (listed.symm.trans relisted)
    have equal := whole fuel early blocks listed room
    rw [equal] at room
    exact Script.strict_iff.mpr
      ⟨blocks, instructions_ok.mp listed, all, equal, room⟩

end Whole

/-- Two numbers are loaded and added by seven bytes each; in seven bytes the
addition is passed over. -/
theorem vmParseExpression_part :
    ¬ ∀ (size larger : Nat) (code : List UInt8), size ≤ larger → code ≠ [] →
      Returns smallEnv "1+2".toList size code →
      Returns smallEnv "1+2".toList larger code := by
  intro whole
  have part : Returns smallEnv "1+2".toList 7 [1, 4, 1, 0, 0, 128, 63] :=
    ⟨5, fun fuel enough => by
      obtain ⟨more, rfl⟩ := Nat.exists_eq_add_of_le' enough
      rfl⟩
  obtain ⟨rounds, again⟩ := whole 7 14 _ (by decide) (List.cons_ne_nil _ _) part
  have both : vmParseExpression (rounds + 5) smallEnv "1+2".toList 14 =
      .ok [1, 4, 1, 0, 0, 128, 63, 2, 4, 1, 0, 0, 0, 64] :=
    rfl
  have equal := both.symm.trans (again (rounds + 5) (Nat.le_add_right _ _))
  exact absurd (Except.ok.inj equal) (by decide)

/-- The code of `10-2*3` in a buffer of its own length. -/
theorem vmParseExpression_whole_productLast :
    ∃ code, Returns smallEnv productLast.text code.length code ∧
      ((∀ larger, code.length ≤ larger →
          Returns smallEnv productLast.text larger code) ↔
        Fits smallEnv productLast.text code.length) ∧
      (ReturnsWhole smallEnv productLast.text code.length code ↔
        Fits smallEnv productLast.text code.length ∧
          Assembled smallEnv productLast.text) := by
  obtain ⟨nodes, -, ⟨rounds, compiled⟩, -⟩ :=
    @Sum.compiles smallEnv productLast (by decide) (by decide) (by decide)
  have returns : Returns smallEnv productLast.text
      (InsNode.codeOf nodes).length (InsNode.codeOf nodes) :=
    ⟨rounds, fun fuel enough => compiled fuel enough _ (Nat.le_refl _)⟩
  exact ⟨_, returns, vmParseExpression_whole_iff _ _ _ _ returns⟩

end NdNet.Formula
