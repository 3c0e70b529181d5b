import NdNet.Lib.Climb
import NdNet.Vm.Formula

/-!
# Arithmetic expressions

The expressions a formula may consist of, with the white space of their text:
sums of terms, terms of factors, and factors that are numbers, memory operands,
brackets or calls.  `tree` groups an expression the usual way and `phrase` the
way the list of its units is walked over.
-/

namespace NdNet.Formula

open Str Climb

structure Blank where
  text : List Char
  blank : ∀ c ∈ text, c ≤ ' ' ∧ c ≠ '\x00'

/-- What `ndstr_read_numerals` reads to its end, and what it copies. -/
structure Numeral where
  text : List Char
  copied : List Char
  plain : ∀ c ∈ text, numeral c ∨ c = '.' ∨ c = '-' ∨ c = '+'
  reads : readNumerals text = some ⟨true, copied, []⟩

structure Address where
  text : List Char
  plain : ∀ c ∈ text, c ≤ ' ' ∨ numeral c ∨ bigLatin c ∨ littleLatin c ∨ c = '+'
  string : '\x00' ∉ text
  natural : isNaturalnumber text = some true

def Address.legible (address : Address) : Bool :=
  isNumerals address.text = some true && decide (address.text.length ≤ 20)

inductive AddOp where
  | add
  | sub
  deriving DecidableEq, Repr

inductive MulOp where
  | mul
  | div
  deriving DecidableEq, Repr

inductive ArithOp where
  | add
  | sub
  | mul
  | div
  deriving DecidableEq, Repr

def ArithOp.formula : ArithOp → FormulaOp
  | add => .add
  | sub => .sub
  | mul => .mul
  | div => .div

def AddOp.arith : AddOp → ArithOp
  | add => .add
  | sub => .sub

def MulOp.arith : MulOp → ArithOp
  | mul => .mul
  | div => .div

def AddOp.char : AddOp → Char
  | add => '+'
  | sub => '-'

def MulOp.char : MulOp → Char
  | mul => '*'
  | div => '/'

inductive Func1 where
  | ltzero
  | sqrt
  | round
  | ceil
  | floor
  deriving DecidableEq, Repr

inductive Func2 where
  | max
  | min
  deriving DecidableEq, Repr

def Func1.name : Func1 → List Char
  | ltzero => "LTZERO".toList
  | sqrt => "SQRT".toList
  | round => "ROUND".toList
  | ceil => "CEIL".toList
  | floor => "FLOOR".toList

def Func2.name : Func2 → List Char
  | max => "MAX".toList
  | min => "MIN".toList

/-- A name in small and capital letters. -/
structure Spelling (name : List Char) where
  text : List Char
  spelled : text.map folded = name

mutual

/-- A sum with the white space behind it. -/
inductive Sum where
  | mk (first : Term) (more : SumTail) (close : Blank)

inductive SumTail where
  | nil
  | cons (space : Blank) (op : AddOp) (term : Term) (more : SumTail)

inductive Term where
  | mk (first : Factor) (more : TermTail)

inductive TermTail where
  | nil
  | cons (space : Blank) (op : MulOp) (factor : Factor) (more : TermTail)

inductive Factor where
  | number (space : Blank) (value : Numeral)
  | memory (space : Blank) (address : Address)
  | bracket (space : Blank) (inner : Sum)
  | call1 (space : Blank) (function : Func1) (name : Spelling function.name)
      (gap : Blank) (argument : Sum)
  | call2 (space : Blank) (function : Func2) (name : Spelling function.name)
      (gap : Blank) (first second : Sum)

end

mutual

def Sum.text : Sum → List Char
  | .mk first more close => first.text ++ more.text ++ close.text

def SumTail.text : SumTail → List Char
  | .nil => []
  | .cons space op term more =>
    space.text ++ op.char :: (term.text ++ more.text)

def Term.text : Term → List Char
  | .mk first more => first.text ++ more.text

def TermTail.text : TermTail → List Char
  | .nil => []
  | .cons space op factor more =>
    space.text ++ op.char :: (factor.text ++ more.text)

def Factor.text : Factor → List Char
  | .number space value => space.text ++ value.text
  | .memory space address => space.text ++ '[' :: (address.text ++ [']'])
  | .bracket space inner => space.text ++ '(' :: (inner.text ++ [')'])
  | .call1 space _ name gap argument =>
    space.text ++ (name.text ++ (gap.text ++ '(' :: (argument.text ++ [')'])))
  | .call2 space _ name gap first second =>
    space.text ++ (name.text ++ (gap.text ++
      '(' :: (first.text ++ ',' :: (second.text ++ [')']))))

end

/-- An expression without its text. -/
inductive Tree where
  | number (text : List Char)
  | memory (address : List Char)
  | binary (op : ArithOp) (left right : Tree)
  | call1 (function : Func1) (name : Spelling function.name) (argument : Tree)
  | call2 (function : Func2) (name : Spelling function.name)
      (first second : Tree)

def ArithOp.apply (ops : VmOps) : ArithOp → VmValue → VmValue → VmValue
  | .add => ops.add
  | .sub => ops.sub
  | .mul => ops.mul
  | .div => ops.divide

def Func1.apply (ops : VmOps) : Func1 → VmValue → VmValue
  | .ltzero => ops.ltzero
  | .sqrt => ops.sqrt
  | .round => ops.round
  | .ceil => ops.ceil
  | .floor => ops.floor

def Func2.apply (ops : VmOps) : Func2 → VmValue → VmValue → VmValue
  | .max => ops.max
  | .min => ops.min

def addressOf (text : List Char) : VmValue :=
  BitVec.ofInt 32 (atoiHex text)

def Tree.value (env : FormulaEnv) (ops : VmOps) (memory : VmMemory) :
    Tree → VmValue
  | .number text => env.atof text
  | .memory address => (memory.read (addressOf address).toInt).getD 0
  | .binary op left right =>
    op.apply ops (left.value env ops memory) (right.value env ops memory)
  | .call1 function _ argument =>
    function.apply ops (argument.value env ops memory)
  | .call2 function _ first second =>
    function.apply ops (first.value env ops memory)
      (second.value env ops memory)

def Tree.bare : Tree → Bool
  | .number _ | .memory _ => true
  | _ => false

/-- The number of values that are on the stack at once: one while an operand
that is not bare is computed, and both arguments of a call. -/
def Tree.nesting : Tree → Nat
  | .number _ => 0
  | .memory _ => 0
  | .binary _ left right =>
    max left.nesting (if right.bare then 0 else right.nesting + 1)
  | .call1 _ _ argument => argument.nesting
  | .call2 _ _ first second => max first.nesting (max (second.nesting + 1) 2)

mutual

/-- The usual grouping: terms before sums, and from the left. -/
def Sum.tree : Sum → Tree
  | .mk first more _ => more.tree first.tree

def SumTail.tree : SumTail → Tree → Tree
  | .nil, left => left
  | .cons _ op term more, left =>
    more.tree (.binary op.arith left term.tree)

def Term.tree : Term → Tree
  | .mk first more => more.tree first.tree

def TermTail.tree : TermTail → Tree → Tree
  | .nil, left => left
  | .cons _ op factor more, left =>
    more.tree (.binary op.arith left factor.tree)

def Factor.tree : Factor → Tree
  | .number _ value => .number value.copied
  | .memory _ address => .memory address.text
  | .bracket _ inner => inner.tree
  | .call1 _ function name _ argument => .call1 function name argument.tree
  | .call2 _ function name _ first second =>
    .call2 function name first.tree second.tree

end

/-- An operand as a unit, and the expression it stands for. -/
structure Operand where
  unit : OpUnit
  tree : Tree

def Operand.simple (text : List Char) (tree : Tree) : Operand :=
  { unit :=
      { op := none
        isFunction := false
        level := 0
        operand := text
        param0 := []
        param1 := [] }
    tree := tree }

def Operand.call (name : List Char) (param0 param1 : List OpUnit)
    (tree : Tree) : Operand :=
  { unit :=
      { op := none
        isFunction := true
        level := 0
        operand := name
        param0 := param0
        param1 := param1 }
    tree := tree }

section Units

variable {ω α : Type} (opOf : ω → FormulaOp) (unitOf : α → OpUnit)

def withOp (unit : OpUnit) (item : Item ω α) : OpUnit :=
  { unit with
    op := some (opOf item.op)
    level := item.level }

def spread : OpUnit → List (Item ω α) → List OpUnit
  | unit, [] => [unit]
  | unit, item :: items =>
    withOp opOf unit item :: spread (unitOf item.operand) items

end Units

abbrev UnitPhrase := Phrase ArithOp Operand Tree

def unitsOf (phrase : UnitPhrase) : List OpUnit :=
  spread ArithOp.formula Operand.unit phrase.first.unit phrase.items

def single (operand : Operand) : UnitPhrase :=
  { first := operand
    items := []
    tree := operand.tree }

def chained (level : Int) (first : UnitPhrase)
    (links : Links ArithOp Operand Tree) : UnitPhrase :=
  { first := first.first
    items := first.items ++ chainItems level links
    tree := chainTree Tree.binary first.tree links }

mutual

/-- The units of an expression inside brackets of the given level, and what the
walk over them groups it to. -/
def Sum.phrase (level : Int) : Sum → UnitPhrase
  | .mk first more _ =>
    chained (level + 1) (first.phrase level) (more.links level)

def SumTail.links (level : Int) : SumTail → Links ArithOp Operand Tree
  | .nil => []
  | .cons _ op term more =>
    (op.arith, term.phrase level) :: more.links level

def Term.phrase (level : Int) : Term → UnitPhrase
  | .mk first more =>
    chained (level + 2) (first.phrase level) (more.links level)

def TermTail.links (level : Int) : TermTail → Links ArithOp Operand Tree
  | .nil => []
  | .cons _ op factor more =>
    (op.arith, factor.phrase level) :: more.links level

def Factor.phrase (level : Int) : Factor → UnitPhrase
  | .number _ value =>
    single (.simple value.copied (.number value.copied))
  | .memory _ address =>
    single (.simple ('[' :: (address.text ++ [']'])) (.memory address.text))
  | .bracket _ inner => inner.phrase (level + levelBracket)
  | .call1 _ function name _ argument =>
    single (.call name.text (unitsOf (argument.phrase 0)) []
      (.call1 function name (argument.phrase 0).tree))
  | .call2 _ function name _ first second =>
    single (.call name.text (unitsOf (first.phrase 0))
      (unitsOf (second.phrase 0))
      (.call2 function name (first.phrase 0).tree (second.phrase 0).tree))

end

def SumTail.isNil : SumTail → Bool
  | .nil => true
  | .cons .. => false

def TermTail.isNil : TermTail → Bool
  | .nil => true
  | .cons .. => false

mutual

/-- The expression has no operator outside of function arguments. -/
def Sum.atomic : Sum → Bool
  | .mk first more _ => first.atomic && more.isNil

def Term.atomic : Term → Bool
  | .mk first more => first.atomic && more.isNil

def Factor.atomic : Factor → Bool
  | .bracket _ inner => inner.atomic
  | _ => true

end

mutual

/-- In every chain of operators of one level, in brackets and arguments too,
all operands between the first and the last one are atomic. -/
def Sum.regular : Sum → Bool
  | .mk first more _ => first.regular && more.regular

def SumTail.regular : SumTail → Bool
  | .nil => true
  | .cons _ _ term more =>
    (term.atomic || more.isNil) && term.regular && more.regular

def Term.regular : Term → Bool
  | .mk first more => first.regular && more.regular

def TermTail.regular : TermTail → Bool
  | .nil => true
  | .cons _ _ factor more =>
    (factor.atomic || more.isNil) && factor.regular && more.regular

def Factor.regular : Factor → Bool
  | .number .. => true
  | .memory .. => true
  | .bracket _ inner => inner.regular
  | .call1 _ _ _ _ argument => argument.regular
  | .call2 _ _ _ _ first second => first.regular && second.regular

end

mutual

def Sum.unitNum : Sum → Nat
  | .mk first more _ => first.unitNum + more.unitNum

def SumTail.unitNum : SumTail → Nat
  | .nil => 0
  | .cons _ _ term more => term.unitNum + more.unitNum

def Term.unitNum : Term → Nat
  | .mk first more => first.unitNum + more.unitNum

def TermTail.unitNum : TermTail → Nat
  | .nil => 0
  | .cons _ _ factor more => factor.unitNum + more.unitNum

def Factor.unitNum : Factor → Nat
  | .number .. => 1
  | .memory .. => 1
  | .bracket _ inner => inner.unitNum
  | .call1 _ _ _ _ argument => 1 + argument.unitNum
  | .call2 _ _ _ _ first second => 1 + (first.unitNum + second.unitNum)

end

mutual

def Sum.legible : Sum → Bool
  | .mk first more _ => first.legible && more.legible

def SumTail.legible : SumTail → Bool
  | .nil => true
  | .cons _ _ term more => term.legible && more.legible

def Term.legible : Term → Bool
  | .mk first more => first.legible && more.legible

def TermTail.legible : TermTail → Bool
  | .nil => true
  | .cons _ _ factor more => factor.legible && more.legible

def Factor.legible : Factor → Bool
  | .number .. => true
  | .memory _ address => address.legible
  | .bracket _ inner => inner.legible
  | .call1 _ _ _ _ argument => argument.legible
  | .call2 _ _ _ _ first second => first.legible && second.legible

end

mutual

/-- The operands and arguments fit into the buffers of the parser. -/
def Sum.short : Sum → Bool
  | .mk first more _ => first.short && more.short

def SumTail.short : SumTail → Bool
  | .nil => true
  | .cons _ _ term more => term.short && more.short

def Term.short : Term → Bool
  | .mk first more => first.short && more.short

def TermTail.short : TermTail → Bool
  | .nil => true
  | .cons _ _ factor more => factor.short && more.short

def Factor.short : Factor → Bool
  | .number _ value => value.copied.length < operandSize
  | .memory _ address => decide (address.text.length + 2 < operandSize)
  | .bracket _ inner => inner.short
  | .call1 _ _ _ _ argument =>
    decide (argument.text.length < functionSize) && argument.short
  | .call2 _ _ _ _ first second =>
    decide (first.text.length < functionSize) && first.short &&
      (decide (second.text.length < functionSize) && second.short)

end

end NdNet.Formula
