import NdNet.Common.Str
import NdNet.Vm.Machine

/-!
# The assembler of `nd_asm.c`

`vm_compiler_line` translates one line of text.  `atof` is a parameter: what
value a decimal stands for plays no part here.
-/

namespace NdNet

open Str

/-- Why a function on text gives no result: it reports an error, it follows a
null pointer or leaves a buffer, or it does not come back within the given
number of rounds. -/
inductive TextFault where
  | refused
  | outside
  | endless
  deriving DecidableEq, Repr

/-- The surroundings of the compiler: the encoding of its texts, `atof`, and the
rule for parameters, if there is one. -/
structure FormulaEnv where
  code : CodeType
  atof : List Char → VmValue
  /-- `param_parse_func` -/
  paramParse : Option (List Char → Option (List Char))

namespace Asm

/-- `__op` -/
def insNames : List (List Char × VmIns) :=
  [("NOP".toList, .nop), ("MOV".toList, .mov), ("ADD".toList, .add),
    ("SUB".toList, .sub), ("MUL".toList, .mul), ("DIV".toList, .div),
    ("PUSH".toList, .push), ("POP".toList, .pop), ("MAX".toList, .max),
    ("MIN".toList, .min), ("RAND".toList, .rand), ("LTZERO".toList, .ltzero),
    ("PROB".toList, .prob), ("SQRT".toList, .sqrt), ("ROUND".toList, .round),
    ("CEIL".toList, .ceil), ("FLOOR".toList, .floor)]

def getIns (word : List Char) : Option VmIns :=
  (insNames.find? fun entry => stricmp word entry.1 = 0).map Prod.snd

/-- `read_instruction`: the instruction and where it ends.  A word that ends
the text is not looked up and leaves the instruction zero. -/
def readInstruction (env : FormulaEnv) (text : List Char) :
    Except TextFault (VmIns × Option (List Char)) :=
  match parseWordN env.code text 128 with
  | none => .error .outside
  | some (_, none) => .ok (.nop, none)
  | some (word, some next) =>
    match getIns word with
    | some ins => .ok (ins, some next)
    | none => .ok (.bad 255, none)

/-- What an operand in brackets refers to, and its number. -/
def bracketOperand (text : List Char) : Except TextFault (DataSrc × List Char) :=
  match text with
  | 's' :: 'p' :: rest | 's' :: 'P' :: rest | 'S' :: 'p' :: rest
  | 'S' :: 'P' :: rest =>
    match firstValid rest with
    | none => .error .refused
    | some inner => .ok (.stack, inner)
  | _ => .ok (.address, text)

/-- `asm_read_operand`: the operand and where it ends. -/
def readOperand (env : FormulaEnv) (text : List Char) :
    Except TextFault ((DataSrc × VmValue) × Option (List Char)) :=
  match firstValid text with
  | none => .error .refused
  | some [] => .error .refused
  | some (c :: rest) =>
    if c = '[' then do
      let inner ← bracketOperand rest
      match nstrEnd env.code inner.2 ']' 20 with
      | none => .error .outside
      | some (digits, ']' :: next) =>
        match isNumerals digits with
        | none => .error .outside
        | some false => .error .refused
        | some true =>
          .ok ((inner.1, BitVec.ofInt 32 (atoiHex digits)), some (']' :: next))
      | some (_, _) => .error .refused
    else if bigLatin c || littleLatin c then
      match parseWordN env.code (c :: rest) 20 with
      | none => .error .outside
      | some (word, next) =>
        if stricmp "reg1".toList word = 0 then .ok ((.reg1, 0), next)
        else if stricmp "reg2".toList word = 0 then .ok ((.reg2, 0), next)
        else .error .refused
    else
      match readNumerals (c :: rest) with
      | none => .error .outside
      | some found =>
        if found.isOk then
          .ok ((.immediate, env.atof found.desc), some found.next)
        else .error .refused

/-- The text behind the first comma: `ndstrchr`. -/
def behindComma : List Char → Option (List Char)
  | [] => none
  | c :: rest => if c = ',' then some rest else behindComma rest

def bareNode (ins : VmIns) : InsNode :=
  ⟨ins, .none, .none, 0, 0⟩

def firstOperand (env : FormulaEnv) (ins : VmIns) (text : List Char) :
    Except TextFault ((DataSrc × VmValue) × Option (List Char)) :=
  if ins.hasFirst then readOperand env text else .ok ((.none, 0), some text)

def secondOperand (env : FormulaEnv) (ins : VmIns)
    (text : Option (List Char)) : Except TextFault (DataSrc × VmValue) :=
  if ins.hasSecond then
    match text with
    | none => .error .outside
    | some text =>
      match behindComma text with
      | none => .error .refused
      | some operand => (readOperand env operand).map Prod.fst
  else .ok (.none, 0)

/-- `vm_compiler_line`; a comment gives nothing. -/
def compilerLine (env : FormulaEnv) (text : List Char) :
    Except TextFault (Option InsNode) :=
  match firstValid text with
  | none => .error .refused
  | some addr =>
    if addr.head? = some '#' then .ok none
    else do
      let read ← readInstruction env addr
      let ins := read.1
      if !ins.valid then .error .refused
      else
        match read.2.bind firstValid with
        | none =>
          if ins.noOperand then .ok (some (bareNode ins))
          else .error .refused
        | some operands => do
            let first ← firstOperand env ins operands
            let second ← secondOperand env ins first.2
            return some ⟨ins, first.1.1, second.1, first.1.2, second.2⟩

end Asm

end NdNet
