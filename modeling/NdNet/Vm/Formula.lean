import NdNet.Vm.Asm

/-!
# The formula compiler of `nd_formula.c`

`parse_express_2node` cuts an expression into a list of units, each with an
operand and the operator behind it; brackets only raise the level of the
operators inside.  `calcNodeResult` walks over the list and prints assembler
lines, which `asm_printf` assembles at once.  A unit is freed when its operator
has been printed; the model hands the list without the freed units back, and so
it does with the argument lists of a function, which is run again if it failed.

The rounds of the walk are bounded by `fuel`, since it does not end for every
list of units.
-/

namespace NdNet

open Str

/-- `__opentry`, without the brackets. -/
inductive FormulaOp where
  | assign
  | add
  | sub
  | mul
  | div
  deriving DecidableEq, Repr

def FormulaOp.level : FormulaOp → Int
  | assign => 0
  | add => 1
  | sub => 1
  | mul => 2
  | div => 2

def FormulaOp.ofChar : Char → Option FormulaOp
  | '=' => some assign
  | '+' => some add
  | '-' => some sub
  | '*' => some mul
  | '/' => some div
  | _ => none

def levelBracket : Int := 3

/-- `struct sOperateUnit` -/
structure OpUnit where
  op : Option FormulaOp
  isFunction : Bool
  level : Int
  operand : List Char
  param0 : List OpUnit
  param1 : List OpUnit

def opUnitNum : Nat := 1024

def operandSize : Nat := 64

def functionSize : Nat := 4096

namespace Formula

def fill (size : Nat) (text : List Char) : Except TextFault (List Char) :=
  if text.length < size then .ok text else .error .outside

def interFunc : List (List Char) :=
  ["MAX".toList, "MIN".toList, "RAND".toList, "LTZERO".toList, "PROB".toList,
    "SET".toList, "SQRT".toList, "ROUND".toList, "CEIL".toList, "FLOOR".toList]

def isFunction (word : List Char) : Bool :=
  interFunc.any fun name => stricmp name word = 0

def getFunParams (name : List Char) : Nat :=
  if ["LTZERO".toList, "PROB".toList, "SQRT".toList, "ROUND".toList,
      "CEIL".toList, "FLOOR".toList].any fun other => stricmp name other = 0
  then 1 else 2

def repaceParam (env : FormulaEnv) (word : List Char) : Option (List Char) :=
  env.paramParse.bind fun func => func word

/-- What `read_operand` finds, with the place behind it. -/
inductive OperandRead where
  | nothing
  | operand (text : List Char) (next : Option (List Char))
  | bracket (next : List Char)
  | function (name : List Char) (next : Option (List Char))
  deriving DecidableEq, Repr

/-- `read_operand` for a memory operand. -/
def readMemory (env : FormulaEnv) (text : List Char) :
    Except TextFault OperandRead :=
  match strEnd env.code text ']' with
  | none => .error .outside
  | some (inside, next) => do
      let inside ← fill operandSize inside
      match next with
      | ']' :: next =>
        match isNaturalnumber (inside.drop 1) with
        | none => .error .outside
        | some false => .error .refused
        | some true => do
            let operand ← fill operandSize (inside ++ [']'])
            return .operand operand (some next)
      | _ => .error .refused

/-- `read_operand` for a number. -/
def readNumber (text : List Char) : Except TextFault OperandRead :=
  match readNumerals text with
  | none => .error .outside
  | some found => do
      let operand ← fill operandSize found.desc
      if found.isOk then return .operand operand (some found.next)
      else .error .refused

/-- `read_operand` for a word: a function or a parameter. -/
def readName (env : FormulaEnv) (text : List Char) :
    Except TextFault OperandRead :=
  match parseWord env.code text with
  | none => .error .outside
  | some (word, next) => do
      let word ← fill operandSize word
      if isFunction word then return .function word next
      else
        match repaceParam env word with
        | none => .error .refused
        | some replaced => do
            let operand ← fill operandSize replaced
            return .operand operand next

def readOperand (env : FormulaEnv) (text : List Char) :
    Except TextFault OperandRead :=
  match firstValid text with
  | none => .ok .nothing
  | some [] => .ok .nothing
  | some (c :: rest) =>
    if c = '(' then .ok (.bracket rest)
    else if c = '[' then readMemory env (c :: rest)
    else if numeral c || c = '.' || c = '-' || c = '+' then
      readNumber (c :: rest)
    else readName env (c :: rest)

/-- What `readOperator` finds, with the place behind it. -/
inductive OperatorRead where
  | nothing
  | close (next : List Char)
  | operator (op : FormulaOp) (next : List Char)
  deriving DecidableEq, Repr

def readOperator (text : List Char) : Except TextFault OperatorRead :=
  match firstValid text with
  | none => .ok .nothing
  | some [] => .ok .nothing
  | some (c :: rest) =>
    if c = ')' then .ok (.close rest)
    else
      match FormulaOp.ofChar c with
      | some op => .ok (.operator op rest)
      | none => .error .refused

/-- `read_func_param`: the text of an argument, the text behind it and the
number of brackets left open. -/
def readFuncParam : Nat → List Char → List Char × List Char × Nat
  | depth, [] => ([], [], depth)
  | depth, c :: rest =>
    if c = ')' ∧ depth = 0 ∨ c = ',' ∧ depth = 0 then ([], c :: rest, depth)
    else
      let depth :=
        if c = ')' then depth - 1 else if c = '(' then depth + 1 else depth
      let read := readFuncParam depth rest
      (c :: read.1, read.2)

/-- What `parse_express_2node` keeps between its rounds: the units so far, the
number of free units, the level of the brackets, and whether `opUnit` points at
the last unit. -/
structure ParseState where
  units : List OpUnit
  free : Nat
  level : Int
  current : Bool

namespace ParseState

def start (free : Nat) : ParseState :=
  { units := []
    free := free
    level := 0
    current := false }

/-- `alloc_operator` and what follows it. -/
def alloc (state : ParseState) (operand : List Char) (isFunction : Bool)
    (param0 param1 : List OpUnit) : ParseState :=
  { state with
    units := state.units ++
      [{ op := none
         isFunction := isFunction
         level := 0
         operand := operand
         param0 := param0
         param1 := param1 }]
    free := state.free - 1
    current := true }

def setOp (state : ParseState) (op : FormulaOp) : ParseState :=
  { state with
    units := state.units.modifyLast fun unit =>
      { unit with
        op := some op
        level := state.level + op.level } }

/-- What `parse_express_2node` checks at the end. -/
def finish (state : ParseState) (readData : Bool) :
    Except TextFault (List OpUnit × Nat) :=
  if state.level ≠ 0 then .error .refused
  else if readData && state.current &&
      (state.units.getLast?.any fun unit => unit.op.isSome) then
    .error .refused
  else .ok (state.units, state.free)

end ParseState

/-- One argument of a function, parsed by `parse`: its units, the number of
free units left and the text behind it. -/
def parseParam
    (parse : List Char → Nat → Except TextFault (List OpUnit × Nat))
    (text : List Char) (free : Nat) :
    Except TextFault ((List OpUnit × Nat) × List Char) := do
  let read := readFuncParam 0 text
  let param ← fill functionSize read.1
  if read.2.2 ≠ 0 then .error .refused
  else
    let units ← parse param free
    return (units, read.2.1)

/-- What `parse_function` gives: the argument lists, the number of free units
left and the text behind the function. -/
structure FunctionRead where
  param0 : List OpUnit
  param1 : List OpUnit
  num : Nat
  free : Nat
  next : List Char

/-- The second round of the loop of `parse_function`. -/
def parseSecond
    (parse : List Char → Nat → Except TextFault (List OpUnit × Nat))
    (first : List OpUnit × Nat) (text : List Char) :
    Except TextFault FunctionRead := do
  let second ← parseParam parse text first.2
  let next :=
    match second.2 with
    | ',' :: rest => rest
    | ')' :: rest => rest
    | rest => rest
  return ⟨first.1, second.1.1, 2, second.1.2, next⟩

/-- The loop of `parse_function` behind the bracket. -/
def parseParams
    (parse : List Char → Nat → Except TextFault (List OpUnit × Nat))
    (text : List Char) (free : Nat) : Except TextFault FunctionRead := do
  let first ← parseParam parse text free
  match first.2 with
  | ')' :: rest => return ⟨first.1.1, [], 1, first.1.2, rest⟩
  | ',' :: rest => parseSecond parse first.1 rest
  | rest => parseSecond parse first.1 rest

def parseFunction
    (parse : List Char → Nat → Except TextFault (List OpUnit × Nat))
    (name : List Char) (text : Option (List Char)) (free : Nat) :
    Except TextFault FunctionRead :=
  match text with
  | none => .error .outside
  | some text =>
    match firstValid text with
    | some ('(' :: inner) => do
        let read ← parseParams parse inner free
        if read.num ≠ getFunParams name then .error .refused
        else return read
    | _ => .error .refused

/-- The loop of `parse_express_2node`; every round reads a character and so
does every argument, so that more fuel than characters is enough. -/
def parseLoop (env : FormulaEnv) :
    Nat → Bool → List Char → ParseState → Except TextFault (List OpUnit × Nat)
  | 0, _, _, _ => .error .endless
  | _ + 1, readData, [], state => state.finish readData
  | fuel + 1, true, c :: rest, state =>
    let state := { state with current := false }
    match readOperand env (c :: rest) with
    | .error fault => .error fault
    | .ok .nothing => state.finish true
    | .ok (.bracket next) =>
      parseLoop env fuel true next
        { state with level := state.level + levelBracket }
    | .ok (.operand operand next) =>
      if state.free = 0 then .error .refused
      else
        let state := state.alloc operand false [] []
        match next with
        | none => state.finish false
        | some next => parseLoop env fuel false next state
    | .ok (.function name next) =>
      if state.free = 0 then .error .refused
      else
        match parseFunction
            (fun param free =>
              parseLoop env fuel true param (.start free))
            name next (state.free - 1) with
        | .error fault => .error fault
        | .ok read =>
          let state := state.alloc name true read.param0 read.param1
          parseLoop env fuel false read.next
            { state with free := read.free }
  | fuel + 1, false, c :: rest, state =>
    match readOperator (c :: rest) with
    | .error fault => .error fault
    | .ok .nothing => state.finish false
    | .ok (.close next) =>
      parseLoop env fuel false next
        { state with level := state.level - levelBracket }
    | .ok (.operator op next) =>
      parseLoop env fuel true next (state.setOp op)

def parseExpress2node (env : FormulaEnv) (text : List Char) (free : Nat) :
    Except TextFault (List OpUnit × Nat) :=
  parseLoop env (text.length + 1) true text (.start free)

end Formula

/-- `struct formula_out_info`: the code so far and the room left for it. -/
structure AsmOut where
  code : List UInt8
  room : Nat

namespace Formula

/-- The last part of `asm_printf`. -/
def AsmOut.append (out : AsmOut) (bytes : List UInt8) : Bool × AsmOut :=
  if bytes.length ≤ out.room then
    (true,
      { code := out.code ++ bytes
        room := out.room - bytes.length })
  else (false, out)

/-- `asm_printf`; says whether it has succeeded. -/
def asmPrintf (env : FormulaEnv) (out : AsmOut) (text : List Char) :
    Except TextFault (Bool × AsmOut) :=
  let line := text.take 127
  match Asm.compilerLine env line with
  | .error .refused => .ok (false, out)
  | .error fault => .error fault
  | .ok none => .ok (AsmOut.append out (line.map fun c => UInt8.ofNat c.toNat))
  | .ok (some node) => .ok (AsmOut.append out node.instruct2buf)

/-- `asm_printf` where its result is not looked at. -/
def printLine (env : FormulaEnv) (out : AsmOut) (text : List Char) :
    Except TextFault AsmOut :=
  (asmPrintf env out text).map Prod.snd

def outOpAsm (env : FormulaEnv) (out : AsmOut) (op : Option FormulaOp)
    (operand1 operand2 : List Char) : Except TextFault AsmOut :=
  let print (name : String) :=
    printLine env out
      (name.toList ++ operand1 ++ " , ".toList ++ operand2 ++ " \n".toList)
  match op with
  | some .add => print "\t ADD "
  | some .sub => print "\t SUB "
  | some .mul => print "\t MUL "
  | some .div => print "\t DIV "
  | some .assign => print "\t MOV "
  | none => .ok out

/-- Where a walk over a list of units ends: what has been printed, the units
that are left, and whether it has failed. -/
structure CalcEnd where
  out : AsmOut
  units : List OpUnit
  failed : Bool

/-- What `run_function` leaves of the argument lists, and whether it has
failed. -/
structure ArgsLeft where
  param0 : List OpUnit
  param1 : List OpUnit
  failed : Bool

/-- The arguments of a function, compiled by `run`. -/
def runParams (env : FormulaEnv)
    (run : AsmOut → List OpUnit → Except TextFault CalcEnd) (out : AsmOut)
    (unit : OpUnit) : Except TextFault (ArgsLeft × AsmOut) := do
  let first ← run out unit.param0
  let left : ArgsLeft := ⟨first.units, unit.param1, first.failed⟩
  if first.failed then return (left, first.out)
  else if getFunParams unit.operand = 1 then return (left, first.out)
  else
    let out ← printLine env first.out "\t PUSH   REG1\n".toList
    let second ← run out unit.param1
    let left : ArgsLeft := ⟨first.units, second.units, second.failed⟩
    if second.failed then return (left, second.out)
    else
      let out ← printLine env second.out "\t PUSH   REG1\n".toList
      return (left, out)

/-- What `run_function` prints behind the arguments.  `units` is what is left
of the first argument. -/
def runCall (env : FormulaEnv) (out : AsmOut) (name : List Char)
    (units : List OpUnit) : Except TextFault AsmOut :=
  if stricmp name "SET".toList = 0 then
    printLine env out
      ("\t MOV ".toList ++ (units.head?.map OpUnit.operand).getD [] ++
        ", REG1\n".toList)
  else if getFunParams name = 1 then
    printLine env out ("\t ".toList ++ name ++ "  REG1\n".toList)
  else
    printLine env out ("\t ".toList ++ name ++ "   [SP -2], [SP -1]\n".toList)

def runFunction (env : FormulaEnv)
    (run : AsmOut → List OpUnit → Except TextFault CalcEnd) (out : AsmOut)
    (unit : OpUnit) : Except TextFault (ArgsLeft × AsmOut) := do
  let ran ← runParams env run out unit
  if ran.1.failed then return ran
  else
    let out ← runCall env ran.2 unit.operand ran.1.param0
    if getFunParams unit.operand = 1 then return (ran.1, out)
    else
      let out ← printLine env out "\t POP \n".toList
      let out ← printLine env out "\t POP \n".toList
      return (ran.1, out)

end Formula

def OpUnit.leave (unit : OpUnit) (args : Formula.ArgsLeft) : OpUnit :=
  { unit with
    param0 := args.param0
    param1 := args.param1 }

namespace Formula

/-- What the loop of `calcNodeResult` does first with the next unit: the value
of a function goes to `REG2`. -/
def readyOperand (env : FormulaEnv)
    (run : AsmOut → List OpUnit → Except TextFault CalcEnd) (out : AsmOut)
    (unit : OpUnit) : Except TextFault (Bool × AsmOut × OpUnit) :=
  if unit.isFunction then do
    let out ← printLine env out "\t PUSH REG1 \n".toList
    let ran ← runFunction env run out unit
    if ran.1.failed then return (true, ran.2, unit.leave ran.1)
    else
      let out ← printLine env ran.2 "\t MOV REG2, REG1 \n".toList
      let out ← printLine env out "\t POP REG1 \n".toList
      return (false, out,
        { unit.leave ran.1 with
          operand := "REG2".toList
          isFunction := false })
  else .ok (false, out, unit)

mutual

/-- `calcNodeResult`.  `previous` is the level of the unit in front of the
list, which is looked at in recursive calls only. -/
def calcNodeResult (env : FormulaEnv) :
    Nat → AsmOut → Option Int → List OpUnit → Except TextFault CalcEnd
  | 0, _, _, _ => .error .endless
  | _ + 1, out, _, [] => .ok ⟨out, [], false⟩
  | fuel + 1, out, previous, unit :: later =>
    if unit.isFunction then do
      let ran ← runFunction env (runExperssion env fuel) out unit
      if ran.1.failed then
        return ⟨ran.2, unit.leave ran.1 :: later, true⟩
      else
        calcLoop env fuel ran.2 previous
          { unit.leave ran.1 with isFunction := false } later false
    else do
      let out ← printLine env out
        ("\t MOV REG1, ".toList ++ unit.operand ++ "\n".toList)
      calcLoop env fuel out previous unit later false

/-- The loop of `calcNodeResult`. -/
def calcLoop (env : FormulaEnv) :
    Nat → AsmOut → Option Int → OpUnit → List OpUnit → Bool →
      Except TextFault CalcEnd
  | 0, _, _, _, _, _ => .error .endless
  | _ + 1, out, _, unit, [], _ => .ok ⟨out, [unit], false⟩
  | fuel + 1, out, previous, unit, next :: rest, isRecursion => do
      let ready ← readyOperand env (runExperssion env fuel) out next
      let out := ready.2.1
      let next := ready.2.2
      if ready.1 then return ⟨out, unit :: next :: rest, true⟩
      else
        let operand2 := if isRecursion then "REG2".toList else next.operand
        if unit.level = next.level ∨ next.op = none then
          let out ← outOpAsm env out unit.op "REG1".toList operand2
          if next.op = none then return ⟨out, next :: rest, false⟩
          else calcLoop env fuel out previous next rest false
        else if next.level < unit.level then
          let out ← outOpAsm env out unit.op "REG1".toList operand2
          if previous.any fun level => decide (next.level < level) then
            return ⟨out, next :: rest, false⟩
          else calcLoop env fuel out previous next rest false
        else
          let out ← printLine env out "\t PUSH REG1 \n".toList
          let data ← calcNodeResult env fuel out (some unit.level)
            (next :: rest)
          let out ← printLine env data.out "\t MOV REG2 , REG1 \n".toList
          let out ← printLine env out "\t POP REG1 \n".toList
          calcLoop env fuel out previous unit data.units true

/-- `run_experssion`.  With nothing behind an assignment the byte that stands
for the operator of the next unit is taken not to be one. -/
def runExperssion (env : FormulaEnv) :
    Nat → AsmOut → List OpUnit → Except TextFault CalcEnd
  | 0, _, _ => .error .endless
  | _ + 1, out, [] => .ok ⟨out, [], true⟩
  | fuel + 1, out, unit :: later =>
    if unit.op = some .assign then do
      let value ←
        if (later.head?.bind OpUnit.op) = some .assign then
          runExperssion env fuel out later
        else calcNodeResult env fuel out none later
      let printed ← asmPrintf env value.out
        ("\t MOV  ".toList ++ unit.operand ++ ", REG1\n".toList)
      return ⟨printed.2, unit :: value.units, !printed.1⟩
    else do
      let value ← calcNodeResult env fuel out none (unit :: later)
      return { value with failed := false }

end

/-- `vm_parse_expression`; a size of zero for what has gone wrong is an
error here. -/
def vmParseExpression (fuel : Nat) (env : FormulaEnv) (text : List Char)
    (bufSize : Nat) : Except TextFault (List UInt8) := do
  let parsed ← parseExpress2node env text opUnitNum
  let value ← runExperssion env fuel ⟨[], bufSize⟩ parsed.1
  if value.failed then .error .refused else return value.out.code

end Formula

end NdNet
