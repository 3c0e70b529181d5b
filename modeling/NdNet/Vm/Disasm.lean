import NdNet.Common.Printf
import NdNet.Vm.Parse

/-!
# The disassembler of `nd_asm.c`

`vm_output_asm` prints an instruction, `vm_compiler_line` reads one.  They
disagree on memory addresses, which are printed with `%x` and read as decimal
numbers, and on `NOP`, whose counter of operands runs below zero on both sides:
a comma is printed for the second operand and the operand is then demanded.

What `%f` prints is a parameter, as `atof` is.  The longest line is shorter
than the 256 bytes it is printed into.
-/

namespace NdNet

open Str List

variable {next : Option (List Char)} {ins : VmIns}

namespace Asm

def insName (ins : VmIns) : Option (List Char) :=
  (insNames.find? fun entry => entry.2 = ins).map Prod.fst

/-- Where the text goes: to a file it is written as a line. -/
inductive Medium where
  | file
  | buf
  deriving DecidableEq, Repr

def Medium.ending : Medium → List Char
  | .file => "\n".toList
  | .buf => []

/-- An operand as `vm_output_asm` prints it; `blanks` stand in front of the
index of a stack slot. -/
def printOperand (print : VmValue → List Char) (blanks : List Char)
    (ds : DataSrc) (value : VmValue) : List Char :=
  match ds with
  | .none | .bad _ => []
  | .immediate => print value
  | .address => '[' :: (hexText value.toNat ++ [']'])
  | .stack => '[' :: 'S' :: 'P' :: (blanks ++ decText value.toInt ++ [']'])
  | .reg1 => "REG1".toList
  | .reg2 => "REG2".toList

def operandsText (print : VmValue → List Char) (medium : Medium)
    (node : InsNode) : List Char :=
  (if node.ins.hasFirst then printOperand print "  ".toList node.ds1 node.val1
    else []) ++
  ((if node.ins.hasSecond then
      ' ' :: ',' :: '\t' :: printOperand print " ".toList node.ds2 node.val2
    else []) ++
  medium.ending)

/-- `vm_output_asm`: the text, or -1. -/
def outputAsm (print : VmValue → List Char) (medium : Medium)
    (node : InsNode) : Option (List Char) :=
  (insName node.ins).map fun name =>
    '\t' :: (name ++ '\t' :: operandsText print medium node)

/-- The same instruction: the opcode, where the operands come from, and their
values where the instruction carries them. -/
def SameNode (node other : InsNode) : Prop :=
  other.ins = node.ins ∧ other.ds1 = node.ds1 ∧ other.ds2 = node.ds2 ∧
    (node.ds1.carries = true → other.val1 = node.val1) ∧
    (node.ds2.carries = true → other.val2 = node.val2)

def ReadsBack (env : FormulaEnv) (print : VmValue → List Char)
    (medium : Medium) (node : InsNode) : Prop :=
  ∃ text other, outputAsm print medium node = some text ∧
    compilerLine env text = .ok (some other) ∧ SameNode node other

/-- What `%f` prints for a number, and that `atof` reads the number back. -/
structure PrintsBack (env : FormulaEnv) (print : VmValue → List Char)
    (value : VmValue) : Prop where
  decimal : ∃ sign whole fraction : List Char,
    (sign = [] ∨ sign = ['-']) ∧ whole ≠ [] ∧
      (∀ c ∈ whole, numeral c = true) ∧ (∀ c ∈ fraction, numeral c = true) ∧
      print value = sign ++ whole ++ '.' :: fraction
  read : env.atof (print value) = value

/-- An operand of an instruction: it is one of the five kinds, or absent, where
the instruction has none at this position or needs none. -/
def Operand (shown : Bool) (ins : VmIns) (ds : DataSrc) : Prop :=
  if shown then
    ds.valid = true ∧ (ds = .none → ins.noOperand = true)
  else ds = .none

/-- An instruction with its operands. -/
structure Complete (env : FormulaEnv) (print : VmValue → List Char)
    (node : InsNode) : Prop where
  valid : node.ins.valid = true
  first : Operand node.ins.hasFirst node.ins node.ds1
  second : Operand node.ins.hasSecond node.ins node.ds2
  number1 : node.ds1 = .immediate → PrintsBack env print node.val1
  number2 : node.ds2 = .immediate → PrintsBack env print node.val2

/-- `%x` and `%d` print the same for the address. -/
def Legible (ds : DataSrc) (value : VmValue) : Prop :=
  ds = .address → value.toNat < 10

section Brackets

variable {env : FormulaEnv} {inner digits tail : List Char} {ds : DataSrc}

theorem readOperand_bracket
    (opens : bracketOperand inner = .ok (ds, digits ++ ']' :: tail))
    (plain : ∀ c ∈ digits, c.toNat ≤ 122 ∧ c ≠ ']')
    (short : digits.length ≤ 20) :
    readOperand env ('[' :: inner) =
      match isNumerals digits with
      | none => .error .outside
      | some false => .error .refused
      | some true =>
        .ok ((ds, BitVec.ofInt 32 (atoiHex digits)), some (']' :: tail)) := by
  have scanned : nstrEnd env.code (digits ++ ']' :: tail) ']' 20 =
      some (digits, ']' :: tail) := by
    refine scan_append ?_ ?_ ?_
    · intro c member
      obtain ⟨low, other⟩ := plain c member
      exact ⟨beq_eq_false_iff_ne.mpr other, Formula.wordSize_ascii env.code low⟩
    · intro n member
      rw [Option.mem_some_iff] at member
      omega
    · intro c member
      rw [head?_cons, Option.mem_some_iff] at member
      subst member
      rfl
  rw [readOperand, firstValid_cons (by decide)]
  dsimp only
  rw [if_pos rfl, opens]
  simp only [Bind.bind, Except.bind]
  generalize nstrEnd env.code (digits ++ ']' :: tail) ']' 20 = found
    at scanned ⊢
  subst scanned
  rfl

theorem hexText_plain (value : Nat) : ∀ c ∈ hexText value,
    (c.toNat ≤ 122 ∧ c ≠ ']') ∧ c ≠ 's' ∧ c ≠ 'S' ∧ ¬ c ≤ ' ' ∧ c ≠ '-' ∧
      c ≠ 'x' ∧ c ≠ 'X' :=
  hexText_all (by decide) value

theorem hexText_short (value : VmValue) :
    (hexText value.toNat).length ≤ 20 := by
  have bits := value.isLt
  have digits : (hexText value.toNat).length ≤ 8 :=
    (Nat.length_toDigits_le_iff (by decide) (by decide)).mpr bits
  omega

theorem readOperand_address (value : VmValue) (tail : List Char) :
    readOperand env ('[' :: (hexText value.toNat ++ ']' :: tail)) =
      match isNumerals (hexText value.toNat) with
      | none => .error .outside
      | some false => .error .refused
      | some true =>
        .ok ((.address, BitVec.ofInt 32 (atoiHex (hexText value.toNat))),
          some (']' :: tail)) := by
  have plain := hexText_plain value.toNat
  refine readOperand_bracket ?_ (fun c member => (plain c member).1)
    (hexText_short value)
  -- No digit is taken for the name of the stack pointer.
  obtain ⟨first, rest, shape⟩ : ∃ first rest,
      hexText value.toNat = first :: rest :=
    exists_cons_of_ne_nil Nat.toDigits_ne_nil
  have head := plain first (by rw [shape]; exact mem_cons_self)
  rw [shape, cons_append]
  unfold bracketOperand
  split
  · rename_i same
    exact absurd (cons.inj same).1 head.2.1
  · rename_i same
    exact absurd (cons.inj same).1 head.2.1
  · rename_i same
    exact absurd (cons.inj same).1 head.2.2.1
  · rename_i same
    exact absurd (cons.inj same).1 head.2.2.1
  · rfl

theorem decText_plain (value : Int) : ∀ c ∈ decText value,
    (c.toNat ≤ 122 ∧ c ≠ ']') ∧ ¬ c ≤ ' ' := by
  have digits : ∀ c ∈ Nat.toDigits 10 value.natAbs,
      (c.toNat ≤ 122 ∧ c ≠ ']') ∧ ¬ c ≤ ' ' := by
    intro c member
    have digit := numeral_of_mem_toDigits member
    have range := Formula.numeral_range digit
    refine ⟨⟨by omega, ?_⟩, (numeral_visible digit).1⟩
    rintro rfl
    exact absurd digit (by decide)
  unfold decText
  split
  · intro c member
    rcases mem_cons.mp member with rfl | member
    · decide
    · exact digits c member
  · exact digits

theorem readOperand_stack (value : VmValue) {blanks : List Char}
    (spaces : ∀ c ∈ blanks, c ≤ ' ') (tail : List Char) :
    readOperand env ('[' :: 'S' :: 'P' ::
        (blanks ++ decText value.toInt ++ ']' :: tail)) =
      .ok ((.stack, value), some (']' :: tail)) := by
  have bits := value.toInt_lt
  have low := value.le_toInt
  have plain := decText_plain value.toInt
  have opens : bracketOperand ('S' :: 'P' ::
      (blanks ++ decText value.toInt ++ ']' :: tail)) =
        .ok (.stack, decText value.toInt ++ ']' :: tail) := by
    have shape : ∃ first rest, decText value.toInt = first :: rest := by
      apply exists_cons_of_ne_nil
      unfold decText
      split
      · exact cons_ne_nil _ _
      · exact Nat.toDigits_ne_nil
    obtain ⟨first, rest, shape⟩ := shape
    have visible := (plain first (by rw [shape]; exact mem_cons_self)).2
    rw [bracketOperand, append_assoc, firstValid_append spaces, shape,
      cons_append, firstValid_cons visible]
  have length : (decText value.toInt).length ≤ 11 :=
    decText_length (by decide) (by omega)
  rw [readOperand_bracket opens (fun c member => (plain c member).1)
    (by omega), isNumerals_decText, atoiHex_decText, BitVec.ofInt_toInt]

end Brackets

section Operands

variable {env : FormulaEnv} {print : VmValue → List Char}
  {blanks tail : List Char} {ds : DataSrc} {value : VmValue}

def Behind (tail : List Char) : Prop :=
  tail = [] ∨ tail = "\n".toList ∨ ∃ rest, tail = ' ' :: ',' :: rest

/-- Where reading an operand stops: if a comma follows, it is found. -/
def Reaches (tail : List Char) (next : Option (List Char)) : Prop :=
  ∀ rest, tail = ' ' :: ',' :: rest → next.bind behindComma = some rest

theorem reaches_some (tail : List Char) : Reaches tail (some tail) := by
  rintro rest rfl
  rfl

theorem reaches_bracket (tail : List Char) :
    Reaches tail (some (']' :: tail)) := by
  rintro rest rfl
  rfl

theorem readOperand_reg1 (behind : Behind tail) :
    ∃ next, readOperand env ("REG1".toList ++ tail) =
      .ok ((.reg1, 0), next) ∧ Reaches tail next := by
  obtain ⟨code, atof, paramParse⟩ := env
  rcases behind with rfl | rfl | ⟨rest, rfl⟩
  · exact ⟨none, by cases code <;> rfl, nofun⟩
  · exact ⟨some "\n".toList, by cases code <;> rfl, nofun⟩
  · exact ⟨some (' ' :: ',' :: rest), by cases code <;> rfl, reaches_some _⟩

theorem readOperand_reg2 (behind : Behind tail) :
    ∃ next, readOperand env ("REG2".toList ++ tail) =
      .ok ((.reg2, 0), next) ∧ Reaches tail next := by
  obtain ⟨code, atof, paramParse⟩ := env
  rcases behind with rfl | rfl | ⟨rest, rfl⟩
  · exact ⟨none, by cases code <;> rfl, nofun⟩
  · exact ⟨some "\n".toList, by cases code <;> rfl, nofun⟩
  · exact ⟨some (' ' :: ',' :: rest), by cases code <;> rfl, reaches_some _⟩

theorem readNumeralsFrom_fraction {fraction : List Char}
    (digits : ∀ c ∈ fraction, numeral c = true) :
    readNumeralsFrom 1 true fraction = ⟨true, fraction, []⟩ := by
  induction fraction with
  | nil => rfl
  | cons c fraction induction =>
    obtain ⟨digit, others⟩ := forall_mem_cons.mp digits
    rw [readNumeralsFrom, if_pos digit, induction others]
    rfl

theorem readNumeralsFrom_number {whole fraction : List Char}
    (wholeDigits : ∀ c ∈ whole, numeral c = true)
    (digits : ∀ c ∈ fraction, numeral c = true) :
    readNumeralsFrom 0 true (whole ++ '.' :: fraction) =
      ⟨true, whole ++ '.' :: fraction, []⟩ := by
  induction whole with
  | nil =>
    rw [nil_append, readNumeralsFrom, if_neg (by decide), if_pos rfl,
      if_neg (by decide), readNumeralsFrom_fraction digits]
    rfl
  | cons c whole induction =>
    obtain ⟨digit, others⟩ := forall_mem_cons.mp wholeDigits
    rw [cons_append, readNumeralsFrom, if_pos digit, induction others]
    rfl

theorem readOperand_immediate (prints : PrintsBack env print value)
    (behind : Behind tail) :
    readOperand env (print value ++ tail) =
      .ok ((.immediate, value), some tail) := by
  obtain ⟨sign, whole, fraction, signed, given, wholeDigits, digits, text⟩ :=
    prints.decimal
  obtain ⟨first, rest, rfl⟩ := exists_cons_of_ne_nil given
  obtain ⟨digit, others⟩ := forall_mem_cons.mp wholeDigits
  have ends : ∀ c ∈ tail.head?, numeral c = false ∧ c ≠ '.' := by
    rcases behind with rfl | rfl | ⟨rest, rfl⟩
    · exact nofun
    · decide
    · intro c member
      rw [head?_cons, Option.mem_some_iff] at member
      subst member
      decide
  -- The number begins with its sign or with a digit.
  obtain ⟨head, later, shape, visible, notBracket, notLatin, reads⟩ :
      ∃ head later, print value = head :: later ∧ ¬ head ≤ ' ' ∧ head ≠ '[' ∧
        (bigLatin head || littleLatin head) = false ∧
        readNumerals (head :: later) = some ⟨true, print value, []⟩ := by
    rcases signed with rfl | rfl
    · have plain := numeral_visible digit
      have range := Formula.numeral_range digit
      refine ⟨first, rest ++ '.' :: fraction, text, plain.1, ?_, ?_, ?_⟩
      · rintro rfl
        exact absurd digit (by decide)
      · rw [← Bool.not_eq_true, Bool.or_eq_true]
        intro latin
        have := Formula.latin_range latin
        omega
      · rw [readNumerals_cons plain.1, if_neg, if_neg, if_pos digit,
          readNumeralsFrom_number others digits, text]
        · rfl
        · exact fun dot => plain.2.2.2.2.2 dot
        · simp [plain.2.1, plain.2.2.1]
    · refine ⟨'-', first :: rest ++ '.' :: fraction, text, by decide,
        by decide, by decide, ?_⟩
      rw [readNumerals_cons (by decide), if_pos (by decide), cons_append,
        readNumeralsFrom, if_pos digit, readNumeralsFrom_number others digits,
        text]
      rfl
  have whole := readNumerals_append visible reads ends
  have read := prints.read
  rw [shape] at whole read ⊢
  rw [cons_append] at whole ⊢
  rw [readOperand, firstValid_cons visible]
  dsimp only
  rw [if_neg notBracket, notLatin, if_neg Bool.false_ne_true, whole]
  dsimp only
  rw [if_pos rfl, read]

attribute [local simp] printOperand in
/-- An operand whose text is legible is read back from in front of whatever is
printed behind it. -/
theorem readOperand_printed (spaces : ∀ c ∈ blanks, c ≤ ' ')
    (valid : ds.valid = true) (present : ds ≠ .none)
    (legible : Legible ds value)
    (number : ds = .immediate → PrintsBack env print value)
    (behind : Behind tail) :
    ∃ found next, readOperand env (printOperand print blanks ds value ++ tail) =
        .ok ((ds, found), next) ∧
      (ds.carries = true → found = value) ∧ Reaches tail next := by
  cases ds with
  | none => exact absurd rfl present
  | bad code => exact absurd valid Bool.false_ne_true
  | immediate =>
    exact ⟨value, some tail, readOperand_immediate (number rfl) behind,
      fun _ => rfl, reaches_some tail⟩
  | address =>
    have small := legible rfl
    refine ⟨value, some (']' :: tail), ?_, fun _ => rfl, reaches_bracket tail⟩
    rw [printOperand, cons_append, append_assoc,
      singleton_append, readOperand_address, hexText_small small,
      isNumerals_decText, atoiHex_decText]
    rw [BitVec.ofInt_natCast, BitVec.ofNat_toNat, BitVec.setWidth_eq]
  | stack =>
    refine ⟨value, some (']' :: tail), ?_, fun _ => rfl, reaches_bracket tail⟩
    have read : readOperand env _ = _ := readOperand_stack value spaces tail
    rw [← read, printOperand]
    simp
  | reg1 =>
    obtain ⟨next, read, reaches⟩ : ∃ next, readOperand env _ = _ ∧ _ :=
      readOperand_reg1 behind
    exact ⟨0, next, read, nofun, reaches⟩
  | reg2 =>
    obtain ⟨next, read, reaches⟩ : ∃ next, readOperand env _ = _ ∧ _ :=
      readOperand_reg2 behind
    exact ⟨0, next, read, nofun, reaches⟩

theorem carries_of_illegible (illegible : ¬ Legible ds value) :
    ds.carries = true := by
  unfold Legible at illegible
  rw [Classical.not_imp] at illegible
  rw [illegible.1]
  rfl

theorem readOperand_illegible (illegible : ¬ Legible ds value)
    (tail : List Char) (next : Option (List Char)) :
    readOperand env (printOperand print blanks ds value ++ tail) ≠
      .ok ((ds, value), next) := by
  unfold Legible at illegible
  rw [Classical.not_imp] at illegible
  obtain ⟨rfl, large⟩ := illegible
  rw [printOperand, cons_append, append_assoc,
    singleton_append, readOperand_address]
  cases numerals : isNumerals (hexText value.toNat) with
  | none => exact nofun
  | some plain =>
    cases plain with
    | false => exact nofun
    | true =>
      intro same
      have number := congrArg (fun read => read.1.2) (Except.ok.inj same)
      dsimp only at number
      obtain ⟨digits, smaller⟩ := hexText_numerals numerals
      rw [digits] at number
      have value_eq := congrArg BitVec.toNat number
      rw [BitVec.ofInt_natCast, BitVec.toNat_ofNat] at value_eq
      omega

theorem printOperand_head (valid : ds.valid = true) (present : ds ≠ .none)
    (number : ds = .immediate → PrintsBack env print value) (tail : List Char) :
    firstValid (printOperand print blanks ds value ++ tail) =
      some (printOperand print blanks ds value ++ tail) := by
  cases ds with
  | none => exact absurd rfl present
  | bad code => exact absurd valid Bool.false_ne_true
  | immediate =>
    obtain ⟨sign, whole, fraction, signed, given, wholeDigits, _, text⟩ :=
      (number rfl).decimal
    obtain ⟨first, rest, rfl⟩ := exists_cons_of_ne_nil given
    have digit := (forall_mem_cons.mp wholeDigits).1
    rw [printOperand, text]
    rcases signed with rfl | rfl
    · exact firstValid_cons (numeral_visible digit).1 _
    · exact firstValid_cons (by decide) _
  | address | stack | reg1 | reg2 => exact firstValid_cons (by decide) _

end Operands

section Lines

variable {env : FormulaEnv} {print : VmValue → List Char} {medium : Medium}
  {node : InsNode}

theorem ending_behind (medium : Medium) : Behind medium.ending := by
  cases medium with
  | file => exact .inr (.inl rfl)
  | buf => exact .inl rfl

theorem compilerLine_name (env : FormulaEnv) (valid : ins.valid = true) :
    ∃ name, insName ins = some name ∧ ∀ rest,
      compilerLine env ('\t' :: (name ++ '\t' :: rest)) =
        match firstValid rest with
        | none =>
          if ins.noOperand then .ok (some (bareNode ins))
          else .error .refused
        | some operands => do
            let first ← firstOperand env ins operands
            let second ← secondOperand env ins first.2
            return some ⟨ins, first.1.1, second.1, first.1.2, second.2⟩ := by
  obtain ⟨code, atof, paramParse⟩ := env
  cases ins with
  | nop | mov | add | sub | mul | div | push | pop | max | min | rand
  | ltzero | prob | sqrt | round | ceil | floor =>
    exact ⟨_, rfl, fun _ => by cases code <;> rfl⟩
  | bad code => exact absurd valid Bool.false_ne_true

theorem readsBack_operands (valid : node.ins.valid = true) :
    ReadsBack env print medium node ↔
      ∃ other, (match firstValid (operandsText print medium node) with
        | none =>
          if node.ins.noOperand then .ok (some (bareNode node.ins))
          else .error .refused
        | some operands => do
            let first ← firstOperand env node.ins operands
            let second ← secondOperand env node.ins first.2
            return some
              ⟨node.ins, first.1.1, second.1, first.1.2, second.2⟩) =
          (.ok (some other) : Except TextFault (Option InsNode)) ∧
        SameNode node other := by
  obtain ⟨name, known, compiled⟩ := compilerLine_name env valid
  unfold ReadsBack
  rw [outputAsm, known, Option.map_some]
  constructor
  · rintro ⟨text, other, printed, result, same⟩
    rw [← Option.some.inj printed, compiled] at result
    exact ⟨other, result, same⟩
  · rintro ⟨other, result, same⟩
    exact ⟨_, other, rfl, (compiled _).trans result, same⟩

theorem secondOperand_eq (second : ins.hasSecond = true) {operand : List Char}
    (comma : next.bind behindComma = some ('\t' :: operand)) :
    secondOperand env ins next = (readOperand env operand).map Prod.fst := by
  obtain ⟨text, rfl, found⟩ := Option.bind_eq_some_iff.mp comma
  have blank : readOperand env ('\t' :: operand) = readOperand env operand :=
    rfl
  rw [secondOperand, if_pos second, found]
  dsimp only
  rw [blank]

theorem secondOperand_printed {ds : DataSrc} {value : VmValue}
    (second : ins.hasSecond = true)
    (comma : next.bind behindComma = some ('\t' ::
      (printOperand print " ".toList ds value ++ medium.ending)))
    (valid : ds.valid = true) (present : ds ≠ .none)
    (legible : Legible ds value)
    (number : ds = .immediate → PrintsBack env print value) :
    ∃ found, secondOperand env ins next = .ok (ds, found) ∧
      (ds.carries = true → found = value) := by
  obtain ⟨found, after, read, same, _⟩ :=
    readOperand_printed (by decide : ∀ c ∈ " ".toList, c ≤ ' ') valid present
      legible number (ending_behind medium)
  refine ⟨found, ?_, same⟩
  rw [secondOperand_eq second comma, read]
  rfl

theorem secondOperand_illegible {ds : DataSrc} {value found : VmValue}
    (second : ins.hasSecond = true)
    (comma : next.bind behindComma = some ('\t' ::
      (printOperand print " ".toList ds value ++ medium.ending)))
    (illegible : ¬ Legible ds value)
    (result : secondOperand env ins next = .ok (ds, found)) :
    found ≠ value := by
  rintro rfl
  rw [secondOperand_eq second comma] at result
  cases read : readOperand env (printOperand print " ".toList ds found ++
      medium.ending) with
  | error fault =>
    rw [read] at result
    cases result
  | ok operand =>
    obtain ⟨⟨ds', value'⟩, after⟩ := operand
    rw [read] at result
    cases result
    exact readOperand_illegible illegible _ _ read

theorem readsBack_one (complete : Complete env print node)
    (first : node.ins.hasFirst = true) (second : node.ins.hasSecond = false) :
    ReadsBack env print medium node ↔ Legible node.ds1 node.val1 := by
  have shown1 := complete.first
  have shown2 := complete.second
  unfold Operand at shown1 shown2
  rw [if_pos first] at shown1
  rw [second, if_neg Bool.false_ne_true] at shown2
  have text : operandsText print medium node =
      printOperand print "  ".toList node.ds1 node.val1 ++ medium.ending := by
    unfold operandsText
    rw [if_pos first, second, if_neg Bool.false_ne_true, nil_append]
  rw [readsBack_operands complete.valid, text]
  by_cases absent : node.ds1 = .none
  · have legible : Legible node.ds1 node.val1 := by
      rw [absent]
      exact nofun
    refine iff_of_true ⟨bareNode node.ins, ?_, rfl, absent.symm, shown2.symm,
      ?_, ?_⟩ legible
    · rw [absent, printOperand, nil_append,
        show firstValid medium.ending = none by cases medium <;> rfl]
      rw [if_pos (shown1.2 absent)]
    · rw [absent]
      exact nofun
    · rw [shown2]
      exact nofun
  rw [printOperand_head shown1.1 absent complete.number1]
  dsimp only
  rw [firstOperand, if_pos first]
  have none : ∀ next, secondOperand env node.ins next = .ok (.none, 0) := by
    intro next
    unfold secondOperand
    rw [second, if_neg Bool.false_ne_true]
  constructor
  · rintro ⟨other, result, same⟩
    by_contra illegible
    cases read : readOperand env (printOperand print "  ".toList node.ds1
        node.val1 ++ medium.ending) with
    | error fault =>
      rw [read] at result
      cases result
    | ok operand =>
      obtain ⟨⟨ds, found⟩, after⟩ := operand
      rw [read] at result
      simp only [Bind.bind, Except.bind, none] at result
      cases result
      obtain ⟨-, sameDs, -, sameVal, -⟩ := same
      dsimp only at sameDs sameVal
      rw [sameDs, sameVal (carries_of_illegible illegible)] at read
      exact readOperand_illegible illegible _ _ read
  · intro legible
    obtain ⟨found, after, read, same, _⟩ :=
      readOperand_printed (by decide : ∀ c ∈ "  ".toList, c ≤ ' ') shown1.1
        absent legible complete.number1 (ending_behind medium)
    refine ⟨⟨node.ins, node.ds1, .none, found, 0⟩, ?_, rfl, rfl, shown2.symm,
      same, ?_⟩
    · rw [read]
      simp only [Bind.bind, Except.bind, none]
      rfl
    · rw [shown2]
      exact nofun

theorem readsBack_two (complete : Complete env print node)
    (first : node.ins.hasFirst = true) (second : node.ins.hasSecond = true)
    (needs : node.ins.noOperand = false) :
    ReadsBack env print medium node ↔
      Legible node.ds1 node.val1 ∧ Legible node.ds2 node.val2 := by
  have shown1 := complete.first
  have shown2 := complete.second
  unfold Operand at shown1 shown2
  rw [if_pos first] at shown1
  rw [if_pos second] at shown2
  have present1 : node.ds1 ≠ .none := by
    intro absent
    rw [needs] at shown1
    exact absurd (shown1.2 absent) Bool.false_ne_true
  have present2 : node.ds2 ≠ .none := by
    intro absent
    rw [needs] at shown2
    exact absurd (shown2.2 absent) Bool.false_ne_true
  have text : operandsText print medium node =
      printOperand print "  ".toList node.ds1 node.val1 ++
        ' ' :: ',' :: '\t' :: (printOperand print " ".toList node.ds2 node.val2 ++
          medium.ending) := by
    unfold operandsText
    rw [if_pos first, if_pos second]
    rfl
  rw [readsBack_operands complete.valid, text,
    printOperand_head shown1.1 present1 complete.number1]
  dsimp only
  rw [firstOperand, if_pos first]
  by_cases legible1 : Legible node.ds1 node.val1
  case neg =>
    refine iff_of_false ?_ fun both => legible1 both.1
    rintro ⟨other, result, same⟩
    cases read : readOperand env (printOperand print "  ".toList node.ds1
        node.val1 ++ ' ' :: ',' :: '\t' ::
          (printOperand print " ".toList node.ds2 node.val2 ++
            medium.ending)) with
    | error fault =>
      rw [read] at result
      cases result
    | ok operand =>
      obtain ⟨⟨ds, found⟩, after⟩ := operand
      rw [read] at result
      simp only [Bind.bind, Except.bind] at result
      split at result
      · cases result
      · cases result
        obtain ⟨-, sameDs, -, sameVal, -⟩ := same
        dsimp only at sameDs sameVal
        rw [sameDs, sameVal (carries_of_illegible legible1)] at read
        exact readOperand_illegible legible1 _ _ read
  obtain ⟨found, after, read, same1, reaches⟩ :=
    readOperand_printed (by decide : ∀ c ∈ "  ".toList, c ≤ ' ') shown1.1
      present1 legible1 complete.number1 (.inr (.inr ⟨'\t' ::
        (printOperand print " ".toList node.ds2 node.val2 ++ medium.ending),
        rfl⟩))
  have comma := reaches _ rfl
  rw [read, and_iff_right legible1]
  simp only [Bind.bind, Except.bind]
  constructor
  · rintro ⟨other, result, same⟩
    by_contra illegible
    split at result
    · cases result
    rename_i operand found2
    obtain ⟨ds2, value2⟩ := operand
    cases result
    obtain ⟨-, -, sameDs, -, sameVal⟩ := same
    dsimp only at sameDs sameVal
    rw [sameDs] at found2
    exact secondOperand_illegible second comma illegible found2
      (sameVal (carries_of_illegible illegible))
  · intro legible2
    obtain ⟨found2, read2, same2⟩ := secondOperand_printed second comma
      shown2.1 present2 legible2 complete.number2
    exact ⟨⟨node.ins, node.ds1, node.ds2, found, found2⟩, by rw [read2]; rfl,
      rfl, rfl, rfl, same1, same2⟩

/-- No operand: the comma of the second one is printed all the same, and it is
missed if it is not there. -/
theorem readsBack_nop (complete : Complete env print node)
    (isNop : node.ins = .nop) :
    ReadsBack env print medium node ↔
      node.ds2 ≠ .none ∧ Legible node.ds2 node.val2 := by
  have shown1 := complete.first
  have shown2 := complete.second
  unfold Operand at shown1 shown2
  rw [isNop] at shown1 shown2
  rw [if_neg (by decide)] at shown1
  rw [if_pos (by decide)] at shown2
  have text : operandsText print medium node =
      ' ' :: ',' :: '\t' :: (printOperand print " ".toList node.ds2 node.val2 ++
        medium.ending) := by
    unfold operandsText
    rw [isNop]
    rfl
  have comma : (some (',' :: '\t' :: (printOperand print " ".toList node.ds2
      node.val2 ++ medium.ending))).bind behindComma = some ('\t' ::
        (printOperand print " ".toList node.ds2 node.val2 ++
          medium.ending)) := rfl
  have second : node.ins.hasSecond = true := by rw [isNop]; rfl
  rw [readsBack_operands complete.valid, text]
  change (∃ other, (do
    let first ← firstOperand env node.ins (',' :: '\t' ::
      (printOperand print " ".toList node.ds2 node.val2 ++ medium.ending))
    let second ← secondOperand env node.ins first.2
    return some ⟨node.ins, first.1.1, second.1, first.1.2, second.2⟩) =
      (.ok (some other) : Except TextFault (Option InsNode)) ∧ _) ↔ _
  have none : firstOperand env node.ins (',' :: '\t' ::
      (printOperand print " ".toList node.ds2 node.val2 ++ medium.ending)) =
        .ok ((.none, 0), some (',' :: '\t' ::
          (printOperand print " ".toList node.ds2 node.val2 ++
            medium.ending))) := by
    rw [firstOperand, isNop]
    rfl
  rw [none]
  simp only [Bind.bind, Except.bind]
  constructor
  · rintro ⟨other, result, same⟩
    split at result
    · cases result
    rename_i operand found2
    obtain ⟨ds2, value2⟩ := operand
    cases result
    obtain ⟨-, -, sameDs, -, sameVal⟩ := same
    dsimp only at sameDs sameVal
    rw [sameDs] at found2
    constructor
    · intro absent
      rw [secondOperand_eq second comma, absent, printOperand,
        nil_append] at found2
      cases medium <;> cases found2
    · by_contra illegible
      exact secondOperand_illegible second comma illegible found2
        (sameVal (carries_of_illegible illegible))
  · rintro ⟨present2, legible2⟩
    obtain ⟨found2, read2, same2⟩ := secondOperand_printed second comma
      shown2.1 present2 legible2 complete.number2
    refine ⟨⟨node.ins, .none, node.ds2, 0, found2⟩, by rw [read2]; rfl,
      rfl, shown1.symm, rfl, ?_, same2⟩
    rw [shown1]
    exact nofun

/-- What `vm_output_asm` prints for an instruction is compiled to the same
instruction exactly if its addresses are below ten and it is not a `NOP`
without an operand. -/
theorem readsBack_iff (env : FormulaEnv) (print : VmValue → List Char)
    (medium : Medium) (node : InsNode) (complete : Complete env print node) :
    ReadsBack env print medium node ↔
      Legible node.ds1 node.val1 ∧ Legible node.ds2 node.val2 ∧
        ¬ (node.ins = .nop ∧ node.ds2 = .none) := by
  have shown1 := complete.first
  have shown2 := complete.second
  unfold Operand at shown1 shown2
  by_cases isNop : node.ins = .nop
  · have absent : node.ds1 = .none := by
      rw [isNop] at shown1
      rwa [if_neg (by decide)] at shown1
    rw [readsBack_nop complete isNop, absent]
    simp [Legible, isNop]
    exact and_comm
  by_cases second : node.ins.hasSecond = true
  · have two : node.ins.hasFirst = true ∧ node.ins.noOperand = false := by
      have valid := complete.valid
      revert isNop second valid
      cases node.ins with
      | bad code => exact fun _ _ valid => absurd valid Bool.false_ne_true
      | _ => decide
    rw [readsBack_two complete two.1 second two.2]
    simp [isNop]
  · rw [Bool.not_eq_true] at second
    have first : node.ins.hasFirst = true := by
      have valid := complete.valid
      revert isNop second valid
      cases node.ins with
      | bad code => exact fun _ _ valid => absurd valid Bool.false_ne_true
      | _ => decide
    have absent : node.ds2 = .none := by
      rwa [second, if_neg Bool.false_ne_true] at shown2
    rw [readsBack_one complete first second, absent]
    simp [Legible, isNop]

/-- A stack slot below the pointer and a number are read back. -/
theorem readsBack_slot :
    ReadsBack ⟨.ansi, fun _ => 0x40200000, none⟩ (fun _ => "2.500000".toList)
      .file ⟨.add, .stack, .immediate, BitVec.ofInt 32 (-3), 0x40200000⟩ := by
  have number : PrintsBack ⟨.ansi, fun _ => 0x40200000, none⟩
      (fun _ => "2.500000".toList) 0x40200000 :=
    ⟨⟨[], "2".toList, "500000".toList, .inl rfl, by decide, by decide,
      by decide, rfl⟩, rfl⟩
  refine (readsBack_iff _ _ _ _ ?_).mpr ⟨nofun, nofun, nofun⟩
  exact
    { valid := rfl
      first := ⟨rfl, nofun⟩
      second := ⟨rfl, nofun⟩
      number1 := nofun
      number2 := fun _ => number }

/-- The address 16 is printed as `[10]` and read as the address 10; what is
printed for a `NOP` without operands is refused. -/
theorem readsBack_address :
    (outputAsm (fun _ => []) .buf ⟨.mov, .address, .reg1, 16, 0⟩ =
        some "\tMOV\t[10] ,\tREG1".toList ∧
      compilerLine ⟨.ansi, fun _ => 0, none⟩ "\tMOV\t[10] ,\tREG1".toList =
        .ok (some ⟨.mov, .address, .reg1, 10, 0⟩)) ∧
    outputAsm (fun _ => []) .buf (bareNode .nop) =
        some "\tNOP\t ,\t".toList ∧
      compilerLine ⟨.ansi, fun _ => 0, none⟩ "\tNOP\t ,\t".toList =
        .error .refused :=
  ⟨⟨by decide, by rfl⟩, by decide, by rfl⟩

end Lines

end Asm

end NdNet
