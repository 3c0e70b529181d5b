import NdNet.Vm.Code
import NdNet.Vm.Parse
import NdNet.Vm.Plan

/-!
# The lines the compiler prints

Every line the formula compiler prints for an expression is assembled to one
instruction.
-/

namespace NdNet

open List

def AsmOut.plus (out : AsmOut) (nodes : List InsNode) : AsmOut :=
  { code := out.code ++ InsNode.codeOf nodes
    room := out.room - (InsNode.codeOf nodes).length }

def AsmOut.Fits (out : AsmOut) (nodes : List InsNode) : Prop :=
  (InsNode.codeOf nodes).length ≤ out.room

theorem AsmOut.plus_nil (out : AsmOut) : out.plus [] = out := by
  rw [AsmOut.plus]
  simp [InsNode.codeOf]

theorem AsmOut.plus_plus (out : AsmOut) (first second : List InsNode) :
    (out.plus first).plus second = out.plus (first ++ second) := by
  simp only [AsmOut.plus, InsNode.codeOf_append, append_assoc,
    length_append, Nat.sub_sub]

theorem AsmOut.fits_append {out : AsmOut} {first second : List InsNode} :
    out.Fits (first ++ second) ↔
      out.Fits first ∧ (out.plus first).Fits second := by
  simp only [AsmOut.Fits, AsmOut.plus, InsNode.codeOf_append, length_append]
  omega

namespace Formula

open Str

structure Assembles (env : FormulaEnv) (line : List Char) (node : InsNode) :
    Prop where
  short : line.length ≤ 127
  compiles : Asm.compilerLine env line = .ok (some node)
  wellFormed : node.WellFormed

theorem Assembles.printLine {env : FormulaEnv} {line : List Char}
    {node : InsNode} (assembles : Assembles env line node) {out : AsmOut}
    (fits : out.Fits [node]) :
    printLine env out line = .ok (out.plus [node]) := by
  have code : InsNode.codeOf [node] = node.instruct2buf :=
    append_nil _
  rw [AsmOut.Fits, code] at fits
  rw [Formula.printLine, asmPrintf, take_of_length_le assembles.short,
    assembles.compiles, AsmOut.plus, code]
  dsimp only
  rw [AsmOut.append, if_pos fits]
  rfl

section Lines

variable (env : FormulaEnv)

def pushNode : InsNode := ⟨.push, .reg1, .none, 0, 0⟩

def popNode : InsNode := ⟨.pop, .reg1, .none, 0, 0⟩

def dropNode : InsNode := ⟨.pop, .none, .none, 0, 0⟩

def saveNode : InsNode := ⟨.mov, .reg2, .reg1, 0, 0⟩

theorem assembles_push : Assembles env "\t PUSH REG1 \n".toList pushNode :=
  { short := by decide
    compiles := by
      obtain ⟨code, atof, paramParse⟩ := env
      cases code <;> rfl
    wellFormed := by constructor <;> decide }

theorem assembles_pushArgument :
    Assembles env "\t PUSH   REG1\n".toList pushNode :=
  { short := by decide
    compiles := by
      obtain ⟨code, atof, paramParse⟩ := env
      cases code <;> rfl
    wellFormed := by constructor <;> decide }

theorem assembles_pop : Assembles env "\t POP REG1 \n".toList popNode :=
  { short := by decide
    compiles := by
      obtain ⟨code, atof, paramParse⟩ := env
      cases code <;> rfl
    wellFormed := by constructor <;> decide }

theorem assembles_drop : Assembles env "\t POP \n".toList dropNode :=
  { short := by decide
    compiles := by
      obtain ⟨code, atof, paramParse⟩ := env
      cases code <;> rfl
    wellFormed := by constructor <;> decide }

theorem assembles_save : Assembles env "\t MOV REG2, REG1 \n".toList saveNode :=
  { short := by decide
    compiles := by
      obtain ⟨code, atof, paramParse⟩ := env
      cases code <;> rfl
    wellFormed := by constructor <;> decide }

theorem assembles_saveGroup :
    Assembles env "\t MOV REG2 , REG1 \n".toList saveNode :=
  { short := by decide
    compiles := by
      obtain ⟨code, atof, paramParse⟩ := env
      cases code <;> rfl
    wellFormed := by constructor <;> decide }

/-- A text the assembler reads as an operand. -/
structure OperandText (text : List Char) (ds : DataSrc) (value : VmValue) :
    Prop where
  short : text.length < operandSize
  holds : InsNode.Holds ds value
  reads : ∀ tail, tail = " \n".toList ∨ tail = "\n".toList →
    (Asm.readOperand env (' ' :: (text ++ tail))).map Prod.fst = .ok (ds, value)

variable {env} {text : List Char} {ds : DataSrc} {value : VmValue}

theorem OperandText.assembles_move (operand : OperandText env text ds value) :
    Assembles env (moveLine text) ⟨.mov, .reg1, ds, 0, value⟩ := by
  refine
    { short := ?_
      compiles := ?_
      wellFormed := ⟨rfl, ⟨rfl, fun _ => rfl⟩, operand.holds, nofun, nofun⟩ }
  · have short : text.length < 64 := operand.short
    have front : "\t MOV REG1, ".toList.length = 12 := by decide
    have end_ : "\n".toList.length = 1 := by decide
    unfold moveLine
    simp only [length_append, front, end_]
    omega
  · have line : Asm.compilerLine env (moveLine text) = (do
        let second ←
          (Asm.readOperand env (' ' :: (text ++ "\n".toList))).map Prod.fst
        return some ⟨.mov, .reg1, second.1, 0, second.2⟩) := by
      obtain ⟨code, atof, paramParse⟩ := env
      cases code <;> rfl
    rw [line, operand.reads _ (.inr rfl)]
    rfl

def ArithOp.ins : ArithOp → VmIns
  | .add => .add
  | .sub => .sub
  | .mul => .mul
  | .div => .div

theorem OperandText.assembles_op (operand : OperandText env text ds value)
    (op : ArithOp) :
    Assembles env (opLine op.formula text) ⟨op.ins, .reg1, ds, 0, value⟩ := by
  refine
    { short := ?_
      compiles := ?_
      wellFormed := ?_ }
  · have short : text.length < 64 := operand.short
    have length : (opLine op.formula []).length = 15 := by
      cases op <;> decide
    have longer : (opLine op.formula text).length =
        (opLine op.formula []).length + text.length := by
      unfold opLine
      simp only [length_append, length_nil]
      omega
    omega
  · have line : Asm.compilerLine env (opLine op.formula text) = (do
        let second ←
          (Asm.readOperand env (' ' :: (text ++ " \n".toList))).map Prod.fst
        return some ⟨op.ins, .reg1, second.1, 0, second.2⟩) := by
      obtain ⟨code, atof, paramParse⟩ := env
      cases op <;> cases code <;> rfl
    rw [line, operand.reads _ (.inl rfl)]
    rfl
  · cases op <;>
      exact ⟨rfl, ⟨rfl, fun _ => rfl⟩, operand.holds, nofun, nofun⟩

end Lines

section Calls

variable (env : FormulaEnv) {name word : List Char}

theorem Spelled.getIns (spelled : Spelled name word) :
    Asm.getIns word = Asm.getIns name := by
  rw [Asm.getIns, Asm.getIns]
  simp only [stricmp_congr spelled.same]

theorem Spelled.parseWordN (spelled : Spelled name word)
    (short : name.length ≤ 128) (rest : List Char) :
    parseWordN env.code (word ++ ' ' :: rest) 128 =
      some (word, some (' ' :: rest)) := by
  rw [Str.parseWordN, scan_append]
  · rfl
  · intro c member
    have latin := spelled.letters c member
    constructor
    · rw [wordStop]
      rcases latin with big | little
      · simp [big]
      · simp [little]
    · rw [wordBytes, if_pos]
      rcases latin with big | little
      · simp [big]
      · simp [little]
  · intro n member
    rw [Option.mem_some_iff] at member
    have := spelled.length
    omega
  · intro c member
    rw [head?_cons, Option.mem_some_iff] at member
    subst member
    cases env.code <;> rfl

theorem Spelled.compilerLine (spelled : Spelled name word) {ins : VmIns}
    (known : Asm.getIns name = some ins) (valid : ins.valid = true)
    (nonempty : name ≠ []) (short : name.length ≤ 128)
    {rest operands : List Char}
    (operand : firstValid (' ' :: rest) = some operands) :
    Asm.compilerLine env ("\t ".toList ++ word ++ ' ' :: rest) = (do
      let first ← Asm.firstOperand env ins operands
      let second ← Asm.secondOperand env ins first.2
      return some ⟨ins, first.1.1, second.1, first.1.2, second.2⟩) := by
  obtain ⟨c, later, shape⟩ : ∃ c later, word = c :: later := by
    apply exists_cons_of_ne_nil
    rintro rfl
    exact nonempty (length_eq_zero_iff.mp spelled.length.symm)
  have range := latin_range (spelled.letters c (by rw [shape]; simp))
  have visible : ¬ c ≤ ' ' := by
    intro space
    have low : c.toNat ≤ 32 := space
    omega
  have found : firstValid ("\t ".toList ++ word ++ ' ' :: rest) =
      some (word ++ ' ' :: rest) := by
    rw [append_assoc, Str.firstValid_append (by decide), shape,
      cons_append, firstValid_cons visible]
  have noComment : (word ++ ' ' :: rest).head? ≠ some '#' := by
    rw [shape, cons_append, head?_cons, Ne, Option.some_inj]
    rintro rfl
    exact absurd range (by decide)
  have read : Asm.readInstruction env (word ++ ' ' :: rest) =
      .ok (ins, some (' ' :: rest)) := by
    rw [Asm.readInstruction, spelled.parseWordN env short]
    dsimp only
    rw [spelled.getIns, known]
  rw [Asm.compilerLine, found]
  dsimp only
  rw [if_neg noComment, read]
  show (if (!ins.valid) = true then _ else _) = _
  rw [valid, Bool.not_true, if_neg Bool.false_ne_true, Option.bind_some,
    operand]

def Func1.ins : Func1 → VmIns
  | .ltzero => .ltzero
  | .sqrt => .sqrt
  | .round => .round
  | .ceil => .ceil
  | .floor => .floor

def Func2.ins : Func2 → VmIns
  | .max => .max
  | .min => .min

def Func1.node (function : Func1) : InsNode :=
  ⟨function.ins, .reg1, .none, 0, 0⟩

def Func2.node (function : Func2) : InsNode :=
  ⟨function.ins, .stack, .stack, BitVec.ofInt 32 (-2), BitVec.ofInt 32 (-1)⟩

theorem Func1.assembles (function : Func1) (name : Spelling function.name) :
    Assembles env ("\t ".toList ++ name.text ++ "  REG1\n".toList)
      function.node := by
  have spelled := Func1.spelled name
  refine
    { short := ?_
      compiles := ?_
      wellFormed := ?_ }
  · have few : function.name.length ≤ 6 := by cases function <;> decide
    simp only [length_append, spelled.length]
    show 2 + function.name.length + 7 ≤ 127
    omega
  · have line := spelled.compilerLine env
      (show Asm.getIns function.name = some function.ins by
        cases function <;> rfl)
      (by cases function <;> rfl) (by cases function <;> decide)
      (by cases function <;> decide)
      (show firstValid "  REG1\n".toList = some "REG1\n".toList by decide)
    refine line.trans ?_
    obtain ⟨code, atof, paramParse⟩ := env
    cases function <;> cases code <;> rfl
  · cases function <;> constructor <;> decide

theorem Func2.assembles (function : Func2) (name : Spelling function.name) :
    Assembles env ("\t ".toList ++ name.text ++ "   [SP -2], [SP -1]\n".toList)
      function.node := by
  have spelled := Func2.spelled name
  refine
    { short := ?_
      compiles := ?_
      wellFormed := ?_ }
  · have few : function.name.length ≤ 6 := by cases function <;> decide
    simp only [length_append, spelled.length]
    show 2 + function.name.length + 20 ≤ 127
    omega
  · have line := spelled.compilerLine env
      (show Asm.getIns function.name = some function.ins by
        cases function <;> rfl)
      (by cases function <;> rfl) (by cases function <;> decide)
      (by cases function <;> decide)
      (show firstValid "   [SP -2], [SP -1]\n".toList =
        some "[SP -2], [SP -1]\n".toList by decide)
    refine line.trans ?_
    obtain ⟨code, atof, paramParse⟩ := env
    cases function <;> cases code <;> rfl
  · cases function <;> constructor <;> decide

end Calls

section Operands

variable (env : FormulaEnv)

theorem operandText_reg2 : OperandText env "REG2".toList .reg2 0 :=
  { short := by decide
    holds := by decide
    reads := by
      obtain ⟨code, atof, paramParse⟩ := env
      rintro tail (rfl | rfl) <;> cases code <;> rfl }

theorem Numeral.copied_append (value : Numeral) {rest : List Char}
    (ends : Ends rest) :
    ∃ c text, value.copied = c :: text ∧
      (numeral c ∨ c = '.' ∨ c = '-' ∨ c = '+') ∧
      readNumerals (value.copied ++ rest) = some ⟨true, value.copied, rest⟩ := by
  obtain ⟨c, text, shape, sign⟩ := value.shape
  have reads := value.reads
  rw [shape] at reads
  obtain ⟨again, first, later, copied, same⟩ :=
    readNumerals_copied (visible_of_numeral sign) reads
  have digit : numeral first ∨ first = '.' ∨ first = '-' ∨ first = '+' := by
    rcases same with rfl | rfl
    · exact sign
    · exact .inl (by decide)
  refine ⟨first, later, copied, digit, ?_⟩
  rw [copied] at again ⊢
  exact readNumerals_append (visible_of_numeral digit) again ends

theorem Numeral.operandText (value : Numeral)
    (short : value.copied.length < operandSize) :
    OperandText env value.copied .immediate (env.atof value.copied) := by
  refine
    { short := short
      holds := ⟨rfl, nofun⟩
      reads := fun tail tails => ?_ }
  have ends : Ends tail := by
    rcases tails with rfl | rfl
    · exact Ends.cons _ (by decide)
    · exact Ends.cons _ (by decide)
  obtain ⟨c, text, shape, sign, reads⟩ := value.copied_append ends
  have others : ¬ (bigLatin c || littleLatin c) = true ∧ c ≠ '[' := by
    rcases sign with digit | rfl | rfl | rfl
    · have range := numeral_range digit
      constructor
      · rw [Bool.or_eq_true]
        intro latin
        have := latin_range latin
        omega
      · rintro rfl
        exact absurd range (by decide)
    · decide
    · decide
    · decide
  rw [shape, cons_append] at reads
  rw [Asm.readOperand, firstValid, if_pos (by decide), shape, cons_append,
    firstValid_cons (visible_of_numeral sign)]
  dsimp only
  rw [if_neg others.2, if_neg others.1, reads]
  rfl

theorem Address.bracketOperand (address : Address)
    (numerals : isNumerals address.text = some true) (rest : List Char) :
    Asm.bracketOperand (address.text ++ rest) =
      .ok (.address, address.text ++ rest) := by
  have head : ∀ c ∈ (address.text ++ rest).head?, c ≠ 's' ∧ c ≠ 'S' := by
    cases shape : address.text with
    | nil =>
      rw [shape] at numerals
      cases numerals
    | cons c text =>
      intro d member
      rw [cons_append, head?_cons, Option.mem_some_iff] at member
      subst member
      rw [shape] at numerals
      constructor <;>
      · rintro rfl
        rw [isNumerals, hexDigits, firstValid_cons (by decide)] at numerals
        · cases numerals
        · exact fun _ other => nomatch other
        · exact fun _ other => nomatch other
  generalize address.text ++ rest = text at head
  unfold Asm.bracketOperand
  split
  · exact absurd rfl (head 's' rfl).1
  · exact absurd rfl (head 's' rfl).1
  · exact absurd rfl (head 'S' rfl).2
  · exact absurd rfl (head 'S' rfl).2
  · rfl

theorem Address.operandText (address : Address)
    (legible : address.legible = true) :
    OperandText env ('[' :: (address.text ++ [']'])) .address
      (addressOf address.text) := by
  rw [Address.legible, Bool.and_eq_true, decide_eq_true_iff,
    decide_eq_true_iff] at legible
  obtain ⟨numerals, short⟩ := legible
  refine
    { short := ?_
      holds := ⟨rfl, nofun⟩
      reads := fun tail _ => ?_ }
  · rw [length_cons, length_append]
    show address.text.length + 1 + 1 < 64
    omega
  · have scanned : nstrEnd env.code (address.text ++ ']' :: tail) ']' 20 =
        some (address.text, ']' :: tail) := by
      refine scan_append ?_ ?_ ?_
      · intro c member
        obtain ⟨low, other, -⟩ := address.ascii member
        exact ⟨beq_eq_false_iff_ne.mpr other, wordSize_ascii env.code low⟩
      · intro n member
        rw [Option.mem_some_iff] at member
        omega
      · intro c member
        rw [head?_cons, Option.mem_some_iff] at member
        subst member
        rfl
    rw [cons_append, append_assoc, cons_append, nil_append,
      Asm.readOperand, firstValid, if_pos (by decide),
      firstValid_cons (by decide)]
    dsimp only
    rw [if_pos rfl, address.bracketOperand numerals]
    simp only [Bind.bind, Except.bind, scanned, numerals]
    rfl

end Operands

end Formula

end NdNet
