import Mathlib.Data.List.ModifyLast
import NdNet.Vm.Grammar

/-!
# Parsing expressions

`parse_express_2node` turns the text of an expression into the units of its
phrase, provided that the operands and arguments fit into their buffers and that
there are units enough; it fails for all other expressions.
-/

namespace NdNet.Formula

open Str Climb List

section Follows

variable {α β : Type}

/-- Two computations give the same if something fits, and else the first one
fails. -/
def Follows (fits : Prop) (one other : Except TextFault α) : Prop :=
  (fits → one = other) ∧ (¬ fits → ∃ fault, one = .error fault)

theorem Follows.refl (result : Except TextFault α) :
    Follows True result result :=
  ⟨fun _ => rfl, fun unfit => absurd trivial unfit⟩

theorem Follows.of_eq {one other : Except TextFault α} (same : one = other) :
    Follows True one other :=
  ⟨fun _ => same, fun unfit => absurd trivial unfit⟩

theorem Follows.trans {fits more : Prop} {one two three : Except TextFault α}
    (first : Follows fits one two) (second : Follows more two three) :
    Follows (fits ∧ more) one three := by
  constructor
  · intro both
    rw [first.1 both.1, second.1 both.2]
  · intro unfit
    by_cases fit : fits
    · rw [first.1 fit]
      exact second.2 fun other => unfit ⟨fit, other⟩
    · exact first.2 fit

theorem Follows.congr {fits other : Prop} {one two : Except TextFault α}
    (follows : Follows fits one two) (same : fits ↔ other) :
    Follows other one two :=
  ⟨fun fit => follows.1 (same.mpr fit),
    fun unfit => follows.2 fun fit => unfit (same.mp fit)⟩

theorem Follows.bind {fits more : Prop} {first : Except TextFault α} {value : α}
    {next : α → Except TextFault β} {result : Except TextFault β}
    (begins : Follows fits first (.ok value))
    (goes : Follows more (next value) result) :
    Follows (fits ∧ more) (first >>= next) result := by
  constructor
  · intro both
    rw [begins.1 both.1]
    exact goes.1 both.2
  · intro unfit
    by_cases fit : fits
    · rw [begins.1 fit]
      exact goes.2 fun other => unfit ⟨fit, other⟩
    · obtain ⟨fault, fails⟩ := begins.2 fit
      exact ⟨fault, by rw [fails]; rfl⟩

theorem fill_follows (size : Nat) (text : List Char) :
    Follows (text.length < size) (fill size text) (.ok text) :=
  ⟨fun short => if_pos short, fun long => ⟨.outside, if_neg long⟩⟩

end Follows

variable {c : Char} {rest : List Char}

section Characters

def Ends (rest : List Char) : Prop :=
  ∀ c ∈ rest.head?, numeral c = false ∧ c ≠ '.'

theorem Ends.nil : Ends [] := by
  intro c member
  cases member

theorem Ends.cons {c : Char} (rest : List Char)
    (other : numeral c = false ∧ c ≠ '.') : Ends (c :: rest) := by
  intro d member
  rw [head?_cons, Option.mem_some_iff] at member
  subst member
  exact other

theorem space_not_numeral (space : c ≤ ' ') :
    numeral c = false ∧ c ≠ '.' := by
  have low : c.toNat ≤ 32 := space
  constructor
  · rw [numeral, Bool.and_eq_false_iff, decide_eq_false_iff_not]
    left
    intro digit
    have high : 48 ≤ c.toNat := digit
    omega
  · rintro rfl
    exact absurd low (by decide)

theorem Blank.ends (blank : Blank) (ends : Ends rest) :
    Ends (blank.text ++ rest) := by
  cases shape : blank.text with
  | nil => exact ends
  | cons c spaces =>
    refine Ends.cons _ (space_not_numeral (blank.blank c ?_).1)
    rw [shape]
    exact mem_cons_self

theorem Blank.firstValid_append (blank : Blank) (text : List Char) :
    firstValid (blank.text ++ text) = firstValid text :=
  Str.firstValid_append (fun c member => (blank.blank c member).1) text

theorem visible_of_numeral
    (sign : numeral c ∨ c = '.' ∨ c = '-' ∨ c = '+') : ¬ c ≤ ' ' := by
  rcases sign with digit | rfl | rfl | rfl
  · intro space
    rw [(space_not_numeral space).1] at digit
    cases digit
  · decide
  · decide
  · decide

theorem latin_range (latin : bigLatin c ∨ littleLatin c) :
    (65 ≤ c.toNat ∧ c.toNat ≤ 90) ∨ (97 ≤ c.toNat ∧ c.toNat ≤ 122) := by
  rw [bigLatin, littleLatin, Bool.and_eq_true, Bool.and_eq_true,
    decide_eq_true_iff, decide_eq_true_iff, decide_eq_true_iff,
    decide_eq_true_iff] at latin
  exact latin

theorem numeral_range (digit : numeral c) :
    48 ≤ c.toNat ∧ c.toNat ≤ 57 := by
  rw [numeral, Bool.and_eq_true, decide_eq_true_iff,
    decide_eq_true_iff] at digit
  exact digit

theorem wordStop_gap (code : CodeType) (gap : c ≤ ' ' ∨ c = '(') :
    wordStop code
      (fun c => numeral c || bigLatin c || littleLatin c ||
        c == '_' || c == '$' || c == '@') c = true := by
  rcases gap with space | rfl
  · have low : c.toNat ≤ 32 := space
    have noLatin : ¬ (bigLatin c ∨ littleLatin c) := by
      intro latin
      have := latin_range latin
      omega
    have noSign : c ≠ '_' ∧ c ≠ '$' ∧ c ≠ '@' := by
      refine ⟨?_, ?_, ?_⟩ <;> rintro rfl <;> exact absurd low (by decide)
    have small : ¬ 0x80 < c.toNat := by omega
    rw [not_or, Bool.not_eq_true, Bool.not_eq_true] at noLatin
    simp [wordStop, (space_not_numeral space).1, noLatin, noSign, small]
  · cases code <;> decide

theorem latin_of_folded (big : bigLatin (folded c)) :
    bigLatin c ∨ littleLatin c := by
  rw [folded] at big
  split at big
  · rename_i little
    exact .inr little
  · exact .inl big

theorem wordSize_ascii (code : CodeType) (low : c.toNat ≤ 122) :
    wordSize code c = 1 := by
  have few : ¬ 0x80 < c.toNat := by omega
  cases code with
  | ansi => rfl
  | gbk | utf8 => exact if_neg few

theorem Address.ascii (address : Address) (member : c ∈ address.text)
    :
    c.toNat ≤ 122 ∧ c ≠ ']' ∧ c ≠ '(' ∧ c ≠ ')' ∧ c ≠ ',' := by
  rcases address.plain c member with space | digit | other
  · have low : c.toNat ≤ 32 := space
    refine ⟨by omega, ?_, ?_, ?_, ?_⟩ <;> rintro rfl <;>
      exact absurd low (by decide)
  · have bounds := numeral_range digit
    refine ⟨by omega, ?_, ?_, ?_, ?_⟩ <;> rintro rfl <;>
      exact absurd bounds (by decide)
  · rw [← or_assoc] at other
    rcases other with letter | rfl
    · have bounds := latin_range letter
      refine ⟨by omega, ?_, ?_, ?_, ?_⟩ <;> rintro rfl <;>
        exact absurd bounds (by decide)
    · decide

theorem Blank.head_append (blank : Blank) {c d : Char}
    (member : c ∈ (blank.text ++ d :: rest).head?) : c ≤ ' ' ∨ c = d := by
  cases shape : blank.text with
  | nil =>
    rw [shape, nil_append, head?_cons, Option.mem_some_iff] at member
    exact .inr member.symm
  | cons e spaces =>
    rw [shape, cons_append, head?_cons, Option.mem_some_iff] at member
    subst member
    refine .inl (blank.blank e ?_).1
    rw [shape]
    exact mem_cons_self

theorem AddOp.visible (op : AddOp) : ¬ op.char ≤ ' ' := by
  cases op <;> decide

theorem MulOp.visible (op : MulOp) : ¬ op.char ≤ ' ' := by
  cases op <;> decide

theorem SumTail.ends (more : SumTail) (ends : Ends rest) :
    Ends (more.text ++ rest) := by
  cases more with
  | nil => exact ends
  | cons space op term more =>
    rw [SumTail.text, append_assoc]
    refine space.ends (Ends.cons _ ?_)
    cases op <;> decide

theorem TermTail.ends (more : TermTail) (ends : Ends rest) :
    Ends (more.text ++ rest) := by
  cases more with
  | nil => exact ends
  | cons space op factor more =>
    rw [TermTail.text, append_assoc]
    refine space.ends (Ends.cons _ ?_)
    cases op <;> decide

end Characters

section Operands

variable (env : FormulaEnv)

theorem Numeral.shape (value : Numeral) :
    ∃ c text, value.text = c :: text ∧
      (numeral c ∨ c = '.' ∨ c = '-' ∨ c = '+') := by
  cases shape : value.text with
  | nil =>
    have reads := value.reads
    rw [shape] at reads
    cases reads
  | cons c text =>
    refine ⟨c, text, rfl, value.plain c ?_⟩
    rw [shape]
    exact mem_cons_self

theorem Numeral.reads_append (value : Numeral) (ends : Ends rest) :
    readNumerals (value.text ++ rest) = some ⟨true, value.copied, rest⟩ := by
  obtain ⟨c, text, shape, sign⟩ := value.shape
  have reads := value.reads
  rw [shape] at reads ⊢
  exact readNumerals_append (visible_of_numeral sign) reads ends

theorem Numeral.readOperand (value : Numeral) (ends : Ends rest) :
    Follows (value.copied.length < operandSize)
      (readOperand env (value.text ++ rest))
      (.ok (.operand value.copied (some rest))) := by
  have number : Formula.readOperand env (value.text ++ rest) =
      readNumber (value.text ++ rest) := by
    obtain ⟨c, text, shape, sign⟩ := value.shape
    have visible := visible_of_numeral sign
    have plain : (numeral c || c = '.' || c = '-' || c = '+') = true := by
      simpa [or_assoc] using sign
    rw [shape, cons_append, Formula.readOperand, firstValid_cons visible]
    have noBracket : c ≠ '(' ∧ c ≠ '[' := by
      constructor <;> rintro rfl <;> exact absurd plain (by decide)
    simp only [if_neg noBracket.1, if_neg noBracket.2, if_pos plain]
  have whole : readNumber (value.text ++ rest) =
      fill operandSize value.copied >>= fun operand =>
        .ok (.operand operand (some rest)) := by
    rw [readNumber, value.reads_append ends]
    rfl
  rw [number, whole]
  exact ((fill_follows _ _).bind (.refl _)).congr (by rw [and_true])

/-- What `readMemory` does behind the bracket that closes an operand. -/
def closeMemory (rest inside : List Char) : Except TextFault OperandRead :=
  match isNaturalnumber (inside.drop 1) with
  | none => .error .outside
  | some false => .error .refused
  | some true =>
    fill operandSize (inside ++ [']']) >>= fun operand =>
      .ok (.operand operand (some rest))

theorem Address.readOperand (address : Address) (rest : List Char) :
    Follows (address.text.length + 2 < operandSize)
      (readOperand env ('[' :: (address.text ++ [']']) ++ rest))
      (.ok (.operand ('[' :: (address.text ++ [']'])) (some rest))) := by
  have scanned : strEnd env.code ('[' :: (address.text ++ [']']) ++ rest) ']' =
      some ('[' :: address.text, ']' :: rest) := by
    have split : '[' :: (address.text ++ [']']) ++ rest =
        ('[' :: address.text) ++ ']' :: rest := by simp
    rw [split, strEnd]
    refine scan_append ?_ (fun n member => nomatch member) ?_
    · intro c member
      rcases mem_cons.mp member with rfl | inside
      · exact ⟨by decide, wordSize_ascii _ (by decide)⟩
      · obtain ⟨low, other, -⟩ := address.ascii inside
        exact ⟨beq_eq_false_iff_ne.mpr other, wordSize_ascii _ low⟩
    · intro c member
      rw [head?_cons, Option.mem_some_iff] at member
      subst member
      rfl
  have whole : Formula.readOperand env ('[' :: (address.text ++ [']']) ++ rest) =
      fill operandSize ('[' :: address.text) >>= closeMemory rest := by
    rw [cons_append] at scanned ⊢
    rw [Formula.readOperand, firstValid_cons (by decide)]
    simp only [if_neg (show '[' ≠ '(' by decide), if_true]
    rw [readMemory, scanned]
    rfl
  have operand : Follows (('[' :: address.text ++ [']']).length < operandSize)
      (closeMemory rest ('[' :: address.text))
      (.ok (OperandRead.operand ('[' :: (address.text ++ [']']))
        (some rest))) := by
    rw [closeMemory, drop_one, tail_cons, address.natural]
    exact ((fill_follows _ _).bind (.refl _)).congr (by rw [and_true])
  rw [whole]
  refine ((fill_follows _ _).bind operand).congr ?_
  simp only [length_cons, length_append, length_nil]
  omega

theorem Func1.folded_name (function : Func1) :
    function.name.map folded = function.name := by
  cases function <;> decide

theorem Func2.folded_name (function : Func2) :
    function.name.map folded = function.name := by
  cases function <;> decide

theorem Func1.latin (function : Func1) : ∀ c ∈ function.name, bigLatin c := by
  cases function <;> decide

theorem Func2.latin (function : Func2) : ∀ c ∈ function.name, bigLatin c := by
  cases function <;> decide

/-- What the parser uses of the names of functions. -/
structure Spelled (name word : List Char) : Prop where
  same : word.map folded = name.map folded
  letters : ∀ c ∈ word, bigLatin c ∨ littleLatin c
  length : word.length = name.length

theorem Spelling.spelled_of {name : List Char} (word : Spelling name)
    (stable : name.map folded = name) (latin : ∀ c ∈ name, bigLatin c) :
    Spelled name word.text :=
  { same := word.spelled.trans stable.symm
    letters := fun c member => by
      refine latin_of_folded (latin _ ?_)
      rw [← word.spelled]
      exact mem_map_of_mem member
    length := by
      have lengths := congrArg length word.spelled
      rw [length_map] at lengths
      exact lengths }

theorem Func1.spelled {function : Func1} (name : Spelling function.name) :
    Spelled function.name name.text :=
  name.spelled_of function.folded_name function.latin

theorem Func2.spelled {function : Func2} (name : Spelling function.name) :
    Spelled function.name name.text :=
  name.spelled_of function.folded_name function.latin

variable {name word : List Char}

theorem Spelled.isFunction (spelled : Spelled name word) :
    isFunction word = isFunction name := by
  rw [Formula.isFunction, Formula.isFunction]
  congr 1
  funext other
  rw [(stricmp_congr spelled.same _).2]

theorem Spelled.getFunParams (spelled : Spelled name word) :
    getFunParams word = getFunParams name := by
  rw [Formula.getFunParams, Formula.getFunParams]
  simp only [stricmp_congr spelled.same]

theorem Spelled.readOperand (spelled : Spelled name word)
    (function : Formula.isFunction name = true) (short : name.length < operandSize)
    (gap : Blank) (rest : List Char) :
    Formula.readOperand env (word ++ (gap.text ++ '(' :: rest)) =
      .ok (.function word (some (gap.text ++ '(' :: rest))) := by
  have scanned : parseWord env.code (word ++ (gap.text ++ '(' :: rest)) =
      some (word, some (gap.text ++ '(' :: rest)) := by
    rw [parseWord, scan_append]
    · cases gap.text with
      | nil | cons c spaces => rfl
    · intro c member
      have latin := spelled.letters c member
      constructor
      · rw [wordStop]
        rcases latin with big | little
        · simp [big]
        · simp [little]
      · rw [wordBytes, if_pos]
        rcases latin with big | little
        · simp [big]
        · simp [little]
    · intro n member
      cases member
    · intro c member
      exact wordStop_gap _ (gap.head_append member)
  obtain ⟨c, later, shape⟩ : ∃ c later, word = c :: later := by
    apply exists_cons_of_ne_nil
    rintro rfl
    rw [← spelled.isFunction] at function
    exact absurd function (by decide)
  have range := latin_range (spelled.letters c (by rw [shape]; simp))
  have named : Formula.readOperand env (word ++ (gap.text ++ '(' :: rest)) =
      readName env (word ++ (gap.text ++ '(' :: rest)) := by
    have others : ¬ (numeral c || c = '.' || c = '-' || c = '+') = true := by
      rw [Bool.or_eq_true, Bool.or_eq_true, Bool.or_eq_true, decide_eq_true_iff,
        decide_eq_true_iff, decide_eq_true_iff]
      rintro (((digit | rfl) | rfl) | rfl)
      · have := numeral_range digit
        omega
      · exact absurd range (by decide)
      · exact absurd range (by decide)
      · exact absurd range (by decide)
    have visible : ¬ c ≤ ' ' := by
      intro space
      have low : c.toNat ≤ 32 := space
      omega
    rw [shape, cons_append, Formula.readOperand, firstValid_cons visible]
    have noBracket : c ≠ '(' ∧ c ≠ '[' := by
      constructor <;> rintro rfl <;> exact absurd range (by decide)
    simp only [if_neg noBracket.1, if_neg noBracket.2, if_neg others]
  have fits : fill operandSize word = .ok word := by
    rw [fill, if_pos (spelled.length ▸ short)]
  rw [named, readName, scanned]
  show (fill operandSize word >>= fun word => _) = _
  rw [fits]
  show (if Formula.isFunction word = true then _ else _) = _
  rw [spelled.isFunction, if_pos function]
  rfl

end Operands

section Arguments

/-- `read_func_param` passes over the text inside `depth` brackets. -/
def Passes (depth : Nat) (text : List Char) : Prop :=
  ∀ rest, readFuncParam depth (text ++ rest) =
    (text ++ (readFuncParam depth rest).1, (readFuncParam depth rest).2)

/-- `read_func_param` passes over the text. -/
def Balanced (text : List Char) : Prop :=
  ∀ depth, Passes depth text

theorem Balanced.nil : Balanced [] :=
  fun _ _ => rfl

theorem Passes.append {depth : Nat} {first second : List Char}
    (one : Passes depth first) (other : Passes depth second) :
    Passes depth (first ++ second) := by
  intro rest
  rw [append_assoc, one, other, append_assoc]

theorem Balanced.append {first second : List Char} (one : Balanced first)
    (other : Balanced second) : Balanced (first ++ second) :=
  fun depth => (one depth).append (other depth)

attribute [local simp] readFuncParam in
theorem Balanced.cons {c : Char} {text : List Char}
    (quiet : c ≠ '(' ∧ c ≠ ')' ∧ c ≠ ',') (balanced : Balanced text) :
    Balanced (c :: text) := by
  intro depth rest
  obtain ⟨noOpen, noClose, noComma⟩ := quiet
  rw [cons_append, readFuncParam]
  simp only [noOpen, noClose, noComma, false_and, or_self, if_false]
  rw [balanced depth rest]
  rfl

variable {text : List Char}

theorem Balanced.of_quiet
    (quiet : ∀ c ∈ text, c ≠ '(' ∧ c ≠ ')' ∧ c ≠ ',') : Balanced text := by
  induction text with
  | nil => exact .nil
  | cons c text induction =>
    obtain ⟨first, others⟩ := forall_mem_cons.mp quiet
    exact .cons first (induction others)

theorem passes_comma (depth : Nat) : Passes (depth + 1) [','] := by
  intro rest
  rfl

theorem Balanced.brackets (inside : ∀ depth, Passes (depth + 1) text) :
    Balanced ('(' :: (text ++ [')'])) := by
  intro depth rest
  have close : readFuncParam (depth + 1) (')' :: rest) =
      (')' :: (readFuncParam depth rest).1, (readFuncParam depth rest).2) := by
    rfl
  rw [cons_append, readFuncParam]
  simp only [show '(' ≠ ')' by decide, show '(' ≠ ',' by decide, false_and,
    or_self, if_false, if_true]
  rw [append_assoc, inside depth, cons_append, nil_append, close]
  simp

theorem Balanced.readFuncParam (balanced : Balanced text)
    (ends : c = ')' ∨ c = ',') (rest : List Char) :
    readFuncParam 0 (text ++ c :: rest) = (text, c :: rest, 0) := by
  have stop : Formula.readFuncParam 0 (c :: rest) = ([], c :: rest, 0) := by
    rw [Formula.readFuncParam, if_pos]
    rcases ends with rfl | rfl
    · exact .inl ⟨rfl, rfl⟩
    · exact .inr ⟨rfl, rfl⟩
  rw [balanced 0, stop, append_nil]

theorem Blank.balanced (blank : Blank) : Balanced blank.text := by
  refine .of_quiet fun c member => ?_
  have low : c.toNat ≤ 32 := (blank.blank c member).1
  refine ⟨?_, ?_, ?_⟩ <;> rintro rfl <;> exact absurd low (by decide)

theorem Numeral.balanced (value : Numeral) : Balanced value.text := by
  refine .of_quiet fun c member => ?_
  rcases value.plain c member with digit | rfl | rfl | rfl
  · have bounds := numeral_range digit
    refine ⟨?_, ?_, ?_⟩ <;> rintro rfl <;> exact absurd bounds (by decide)
  · decide
  · decide
  · decide

theorem Spelled.balanced {name word : List Char} (spelled : Spelled name word) :
    Balanced word := by
  refine .of_quiet fun c member => ?_
  have bounds := latin_range (spelled.letters c member)
  refine ⟨?_, ?_, ?_⟩ <;> rintro rfl <;> exact absurd bounds (by decide)

mutual

theorem Sum.balanced : (sum : Sum) → Balanced sum.text
  | .mk first more close => (first.balanced.append more.balanced).append close.balanced

theorem SumTail.balanced : (more : SumTail) → Balanced more.text
  | .nil => .nil
  | .cons space op term more => by
      refine space.balanced.append (.cons ?_ (term.balanced.append more.balanced))
      cases op <;> decide

theorem Term.balanced : (term : Term) → Balanced term.text
  | .mk first more => first.balanced.append more.balanced

theorem TermTail.balanced : (more : TermTail) → Balanced more.text
  | .nil => .nil
  | .cons space op factor more => by
      refine space.balanced.append
        (.cons ?_ (factor.balanced.append more.balanced))
      cases op <;> decide

theorem Factor.balanced : (factor : Factor) → Balanced factor.text
  | .number space value => space.balanced.append value.balanced
  | .memory space address => by
      refine space.balanced.append
        (.cons (by decide) (.append (.of_quiet ?_) (.of_quiet (by decide))))
      intro c member
      exact (address.ascii member).2.2
  | .bracket space inner =>
    space.balanced.append (.brackets fun depth => inner.balanced (depth + 1))
  | .call1 space function name gap argument => by
      refine space.balanced.append ((Func1.spelled name).balanced.append
        (gap.balanced.append (.brackets fun depth => ?_)))
      exact argument.balanced (depth + 1)
  | .call2 space function name gap first second => by
      have inside : ∀ depth, Passes (depth + 1)
          (first.text ++ ([','] ++ second.text)) := fun depth =>
        (first.balanced (depth + 1)).append
          ((passes_comma depth).append (second.balanced (depth + 1)))
      have brackets := Balanced.brackets inside
      rw [append_assoc, append_assoc] at brackets
      exact space.balanced.append ((Func2.spelled name).balanced.append
        (gap.balanced.append brackets))

end

end Arguments

section Rounds

variable (env : FormulaEnv)

def ParseState.read (state : ParseState) (units : List OpUnit) (num : Nat) :
    ParseState :=
  { units := state.units ++ units
    free := state.free - num
    level := state.level
    current := true }

theorem spread_ne_nil (unit : OpUnit) (items : List (Item ArithOp Operand)) :
    spread ArithOp.formula Operand.unit unit items ≠ [] := by
  cases items <;> exact cons_ne_nil _ _

theorem spread_join (unit : OpUnit) (before later : List (Item ArithOp Operand))
    (item : Item ArithOp Operand) :
    (spread ArithOp.formula Operand.unit unit before).modifyLast
        (fun unit =>
          { unit with
            op := some item.op.formula
            level := item.level }) ++
        spread ArithOp.formula Operand.unit item.operand.unit later =
      spread ArithOp.formula Operand.unit unit (before ++ item :: later) := by
  induction before generalizing unit with
  | nil => rfl
  | cons first before induction =>
    have last := modifyLast_append_of_right_ne_nil
      (fun unit : OpUnit =>
        { unit with
          op := some item.op.formula
          level := item.level })
      [withOp ArithOp.formula unit first] (spread ArithOp.formula Operand.unit first.operand.unit before)
      (spread_ne_nil _ _)
    rw [spread, cons_append, spread, ← induction]
    rw [cons_append, nil_append] at last
    rw [last]
    rfl

theorem ParseState.read_setOp (state : ParseState) (unit : OpUnit)
    (before later : List (Item ArithOp Operand)) (read num : Nat) (op : ArithOp)
    (operand : Operand) :
    (((state.read (spread ArithOp.formula Operand.unit unit before) read).setOp op.formula).read
        (spread ArithOp.formula Operand.unit operand.unit later) num) =
      state.read
        (spread ArithOp.formula Operand.unit unit
          (before ++ ⟨op, state.level + op.formula.level, operand⟩ :: later))
        (read + num) := by
  rw [← spread_join, ParseState.read, ParseState.setOp]
  dsimp only [ParseState.read]
  rw [modifyLast_append_of_right_ne_nil _ _ _ (spread_ne_nil _ _),
    append_assoc, Nat.sub_sub]

attribute [local simp] parseLoop in
theorem parseLoop_blank (fuel : Nat) (blank : Blank) (rest : List Char)
    (state : ParseState) :
    parseLoop env (fuel + 1) false (blank.text ++ rest) state =
      parseLoop env (fuel + 1) false rest state := by
  cases shape : blank.text with
  | nil => rfl
  | cons c spaces =>
    have same : readOperator (c :: spaces ++ rest) = readOperator rest := by
      rw [readOperator, readOperator, ← shape, blank.firstValid_append]
    rw [cons_append] at same ⊢
    rw [parseLoop, same]
    cases rest with
    | nil => rfl
    | cons d rest => rw [parseLoop]

theorem parseLoop_operator (fuel : Nat) (blank : Blank)
    {op : FormulaOp} (visible : ¬ c ≤ ' ') (open_ : c ≠ ')')
    (operator : FormulaOp.ofChar c = some op) (rest : List Char)
    (state : ParseState) :
    parseLoop env (fuel + 1) false (blank.text ++ c :: rest) state =
      parseLoop env fuel true rest (state.setOp op) := by
  rw [parseLoop_blank, parseLoop, readOperator, firstValid_cons visible]
  simp only [if_neg open_, operator]

theorem parseLoop_close (fuel : Nat) (rest : List Char) (state : ParseState) :
    parseLoop env (fuel + 1) false (')' :: rest) state =
      parseLoop env fuel false rest
        { state with level := state.level - levelBracket } := by
  rfl

theorem readOperand_blank (blank : Blank) (text : List Char) :
    readOperand env (blank.text ++ text) = readOperand env text := by
  rw [readOperand, readOperand, blank.firstValid_append]

theorem parseLoop_bracket (fuel : Nat) (blank : Blank) (rest : List Char)
    (state : ParseState) :
    parseLoop env (fuel + 1) true (blank.text ++ '(' :: rest) state =
      parseLoop env fuel true rest
        { state with
          level := state.level + levelBracket
          current := false } := by
  have reads : readOperand env (blank.text ++ '(' :: rest) =
      .ok (.bracket rest) := by
    rw [readOperand_blank, readOperand, firstValid_cons (by decide)]
    rfl
  obtain ⟨c, later, shape⟩ := exists_cons_of_ne_nil
    (append_ne_nil_of_right_ne_nil blank.text (cons_ne_nil '(' rest))
  rw [shape] at reads ⊢
  rw [parseLoop, reads]

theorem parseLoop_operand (fuel : Nat) {fits : Prop} {text operand rest : List Char}
    (nonempty : text ≠ [])
    (reads : Follows fits (readOperand env text)
      (.ok (.operand operand (some rest)))) (tree : Tree) (state : ParseState) :
    Follows (fits ∧ 1 ≤ state.free) (parseLoop env (fuel + 1) true text state)
      (parseLoop env fuel false rest
        (state.read (unitsOf (single (.simple operand tree))) 1)) := by
  obtain ⟨c, later, shape⟩ := exists_cons_of_ne_nil nonempty
  subst shape
  constructor
  · intro both
    rw [parseLoop, reads.1 both.1]
    dsimp only
    rw [if_neg (by omega)]
    rfl
  · intro unfit
    rw [parseLoop]
    by_cases fit : fits
    · rw [reads.1 fit]
      refine ⟨.refused, if_pos ?_⟩
      dsimp only
      have : ¬ 1 ≤ state.free := fun enough => unfit ⟨fit, enough⟩
      omega
    · obtain ⟨fault, fails⟩ := reads.2 fit
      rw [fails]
      exact ⟨fault, rfl⟩

theorem parseLoop_call (fuel : Nat) (blank gap : Blank)
    {name word inner next : List Char} (spelled : Spelled name word)
    (function : isFunction name = true) (short : name.length < operandSize)
    {fits : Prop} {param0 param1 : List OpUnit} {num : Nat} (state : ParseState)
    (params : Follows fits
      (parseParams (fun param free => parseLoop env fuel true param (.start free))
        inner (state.free - 1))
      (.ok ⟨param0, param1, getFunParams name, state.free - 1 - num, next⟩))
    (tree : Tree) :
    Follows (1 ≤ state.free ∧ fits)
      (parseLoop env (fuel + 1) true
        (blank.text ++ (word ++ (gap.text ++ '(' :: inner))) state)
      (parseLoop env fuel false next
        (state.read (unitsOf (single (.call word param0 param1 tree)))
          (1 + num))) := by
  have reads := spelled.readOperand env function short gap inner
  rw [← readOperand_blank env blank] at reads
  have called : parseFunction
      (fun param free => parseLoop env fuel true param (.start free)) word
      (some (gap.text ++ '(' :: inner)) (state.free - 1) =
      (parseParams (fun param free => parseLoop env fuel true param (.start free))
        inner (state.free - 1) >>= fun read =>
          if read.num ≠ getFunParams word then .error .refused
          else .ok read) := by
    rw [parseFunction, gap.firstValid_append, firstValid_cons (by decide)]
    rfl
  have accepted : Follows fits
      (parseFunction
        (fun param free => parseLoop env fuel true param (.start free)) word
        (some (gap.text ++ '(' :: inner)) (state.free - 1))
      (.ok ⟨param0, param1, getFunParams name, state.free - 1 - num,
        next⟩) := by
    rw [called]
    refine (params.bind (.of_eq ?_)).congr (by rw [and_true])
    rw [if_neg]
    rw [spelled.getFunParams]
    exact fun other => other rfl
  obtain ⟨c, later, shape⟩ := exists_cons_of_ne_nil
    (show blank.text ++ (word ++ (gap.text ++ '(' :: inner)) ≠ [] by simp)
  rw [shape] at reads ⊢
  constructor
  · intro both
    rw [parseLoop, reads]
    dsimp only
    rw [if_neg (by omega), accepted.1 both.2, ParseState.read, ← Nat.sub_sub]
    rfl
  · intro unfit
    rw [parseLoop, reads]
    dsimp only
    split
    · exact ⟨.refused, rfl⟩
    · rename_i enough
      obtain ⟨fault, fails⟩ := accepted.2 fun fit => unfit ⟨by omega, fit⟩
      rw [fails]
      exact ⟨fault, rfl⟩

theorem parseParam_follows
    {parse : List Char → Nat → Except TextFault (List OpUnit × Nat)}
    {text : List Char} (balanced : Balanced text)
    (ends : c = ')' ∨ c = ',') (rest : List Char) (free : Nat) {fits : Prop}
    {units : List OpUnit × Nat}
    (parses : Follows fits (parse text free) (.ok units)) :
    Follows (text.length < functionSize ∧ fits)
      (parseParam parse (text ++ c :: rest) free) (.ok (units, c :: rest)) := by
  have whole : parseParam parse (text ++ c :: rest) free =
      fill functionSize text >>= fun param =>
        parse param free >>= fun units => .ok (units, c :: rest) := by
    rw [parseParam, balanced.readFuncParam ends]
    rfl
  rw [whole]
  refine ((fill_follows _ _).bind (parses.bind (.refl _))).congr ?_
  rw [and_true]

end Rounds

section Expressions

variable (env : FormulaEnv)

/-- The parser turns a text into the units of a phrase and goes on behind
it. -/
def Parses (short : Bool) (num : Nat) (text : List Char)
    (phrase : Int → UnitPhrase) : Prop :=
  ∀ (fuel : Nat) (rest : List Char) (state : ParseState),
    (text ++ rest).length < fuel → Ends rest →
    ∃ left, rest.length < left ∧
      Follows (short = true ∧ num ≤ state.free)
        (parseLoop env fuel true (text ++ rest) state)
        (parseLoop env left false rest
          (state.read (unitsOf (phrase state.level)) num))

/-- The parser adds the items of a text to the units in front of it. -/
def ParsesTail (short : Bool) (num : Nat) (text : List Char)
    (items : Int → List (Item ArithOp Operand)) : Prop :=
  ∀ (fuel : Nat) (rest : List Char) (state : ParseState) (unit : OpUnit)
    (before : List (Item ArithOp Operand)) (read : Nat),
    (text ++ rest).length < fuel → Ends rest →
    ∃ left, rest.length < left ∧
      Follows (short = true ∧ num ≤ state.free - read)
        (parseLoop env fuel false (text ++ rest)
          (state.read (spread ArithOp.formula Operand.unit unit before) read))
        (parseLoop env left false rest
          (state.read
            (spread ArithOp.formula Operand.unit unit
              (before ++ items state.level)) (read + num)))

variable {env} {short shortTail : Bool} {num numTail : Nat}
  {text textTail : List Char}

theorem ParsesTail.nil : ParsesTail env true 0 [] fun _ => [] := by
  intro fuel rest state unit before read enough ends
  refine ⟨fuel, enough, (Follows.of_eq ?_).congr ?_⟩
  · rw [append_nil, nil_append, Nat.add_zero]
  · simp

variable {phrase : Int → UnitPhrase}

theorem Parses.tail {items : Int → List (Item ArithOp Operand)}
    {tree : Int → Tree} (first : Parses env short num text phrase)
    (tail : ParsesTail env shortTail numTail textTail items)
    (goes : ∀ {rest}, Ends rest → Ends (textTail ++ rest)) :
    Parses env (short && shortTail) (num + numTail) (text ++ textTail)
      fun level =>
        ⟨(phrase level).first, (phrase level).items ++ items level,
          tree level⟩ := by
  intro fuel rest state enough ends
  rw [append_assoc] at enough ⊢
  obtain ⟨middle, some, one⟩ := first fuel _ state enough (goes ends)
  obtain ⟨left, more, other⟩ :=
    tail middle rest state _ (phrase state.level).items num some ends
  refine ⟨left, more, (one.trans other).congr ?_⟩
  rw [Bool.and_eq_true]
  constructor
  · rintro ⟨⟨short, few⟩, shortTail, fewTail⟩
    exact ⟨⟨short, shortTail⟩, by omega⟩
  · rintro ⟨⟨short, shortTail⟩, few⟩
    exact ⟨⟨short, by omega⟩, shortTail, by omega⟩

theorem ParsesTail.cons {phrase : Int → UnitPhrase}
    {items : Int → List (Item ArithOp Operand)} (space : Blank) {c : Char}
    {op : ArithOp} (visible : ¬ c ≤ ' ') (open_ : c ≠ ')')
    (operator : FormulaOp.ofChar c = some op.formula)
    (operand : Parses env short num text phrase)
    (tail : ParsesTail env shortTail numTail textTail items)
    (goes : ∀ {rest}, Ends rest → Ends (textTail ++ rest)) :
    ParsesTail env (short && shortTail) (num + numTail)
      (space.text ++ c :: (text ++ textTail)) fun level =>
        ⟨op, level + op.formula.level, (phrase level).first⟩ ::
          ((phrase level).items ++ items level) := by
  intro fuel rest state unit before read enough ends
  obtain ⟨fuel, rfl⟩ : ∃ less, fuel = less + 1 := ⟨fuel - 1, by omega⟩
  rw [append_assoc, cons_append, append_assoc] at enough ⊢
  rw [parseLoop_operator env fuel space visible open_ operator]
  obtain ⟨middle, some, one⟩ := operand fuel (textTail ++ rest)
    ((state.read (spread ArithOp.formula Operand.unit unit before) read).setOp op.formula)
    (by
      simp only [length_append, length_cons] at enough ⊢
      omega) (goes ends)
  have level : ((state.read (spread ArithOp.formula Operand.unit unit before) read).setOp op.formula).level =
      state.level := rfl
  rw [level, unitsOf, state.read_setOp] at one
  obtain ⟨left, more, other⟩ :=
    tail middle rest state unit _ (read + num) some ends
  refine ⟨left, more, ?_⟩
  rw [append_assoc, Nat.add_assoc] at other
  refine (one.trans other).congr ?_
  have free : ((state.read (spread ArithOp.formula Operand.unit unit before) read).setOp op.formula).free =
      state.free - read := rfl
  rw [free, Bool.and_eq_true]
  constructor
  · rintro ⟨⟨short, few⟩, shortTail, fewTail⟩
    exact ⟨⟨short, shortTail⟩, by omega⟩
  · rintro ⟨⟨short, shortTail⟩, few⟩
    exact ⟨⟨short, by omega⟩, shortTail, by omega⟩

theorem Parses.close (parses : Parses env short num text phrase) (close : Blank)
    :
    Parses env short num (text ++ close.text) phrase := by
  intro fuel rest state enough ends
  rw [append_assoc] at enough ⊢
  obtain ⟨left, some, follows⟩ := parses fuel _ state enough (close.ends ends)
  obtain ⟨left, rfl⟩ : ∃ less, left = less + 1 := ⟨left - 1, by omega⟩
  rw [parseLoop_blank] at follows
  rw [length_append] at some
  exact ⟨left + 1, by omega, follows⟩

theorem Parses.number (space : Blank) (value : Numeral) :
    Parses env (decide (value.copied.length < operandSize)) 1
      (space.text ++ value.text) fun _ =>
        single (.simple value.copied (.number value.copied)) := by
  intro fuel rest state enough ends
  obtain ⟨fuel, rfl⟩ : ∃ less, fuel = less + 1 := ⟨fuel - 1, by omega⟩
  have nonempty : space.text ++ value.text ++ rest ≠ [] := by
    obtain ⟨c, later, shape, -⟩ := value.shape
    simp [shape]
  have reads := value.readOperand env ends
  rw [← readOperand_blank env space, ← append_assoc] at reads
  have positive : value.text.length ≠ 0 := by
    obtain ⟨c, later, shape, -⟩ := value.shape
    simp [shape]
  refine ⟨fuel, ?_, ?_⟩
  · simp only [length_append] at enough
    omega
  · rw [decide_eq_true_iff]
    exact parseLoop_operand env fuel nonempty reads _ state

theorem Parses.memory (space : Blank) (address : Address) :
    Parses env (decide (address.text.length + 2 < operandSize)) 1
      (space.text ++ '[' :: (address.text ++ [']'])) fun _ =>
        single (.simple ('[' :: (address.text ++ [']']))
          (.memory address.text)) := by
  intro fuel rest state enough ends
  obtain ⟨fuel, rfl⟩ : ∃ less, fuel = less + 1 := ⟨fuel - 1, by omega⟩
  have nonempty : space.text ++ '[' :: (address.text ++ [']']) ++ rest ≠ [] := by
    simp
  have reads := address.readOperand env rest
  rw [← readOperand_blank env space, ← append_assoc] at reads
  refine ⟨fuel, ?_, ?_⟩
  · simp only [length_append, length_cons] at enough
    omega
  · rw [decide_eq_true_iff]
    exact parseLoop_operand env fuel nonempty reads _ state

theorem Parses.bracket (parses : Parses env short num text phrase)
    (space : Blank) :
    Parses env short num (space.text ++ '(' :: (text ++ [')'])) fun level =>
      phrase (level + levelBracket) := by
  intro fuel rest state enough ends
  obtain ⟨fuel, rfl⟩ : ∃ less, fuel = less + 1 := ⟨fuel - 1, by omega⟩
  simp only [append_assoc, cons_append, nil_append,
    length_append, length_cons] at enough ⊢
  rw [parseLoop_bracket]
  obtain ⟨left, some, follows⟩ := parses fuel (')' :: rest)
    { state with
      level := state.level + levelBracket
      current := false }
    (by
      simp only [length_append, length_cons]
      omega) (Ends.cons _ (by decide))
  rw [length_cons] at some
  obtain ⟨left, rfl⟩ : ∃ less, left = less + 1 := ⟨left - 1, by omega⟩
  refine ⟨left, by omega, ?_⟩
  rw [parseLoop_close] at follows
  dsimp only [ParseState.read] at follows ⊢
  rw [Int.add_sub_cancel] at follows
  exact follows

theorem Parses.whole (parses : Parses env short num text phrase) {fuel : Nat}
    (enough : text.length < fuel) (free : Nat) :
    Follows (short = true ∧ num ≤ free)
      (parseLoop env fuel true text (.start free))
      (.ok (unitsOf (phrase 0), free - num)) := by
  obtain ⟨left, some, follows⟩ := parses fuel [] (.start free)
    (by rw [append_nil]; exact enough) .nil
  obtain ⟨left, rfl⟩ : ∃ less, left = less + 1 := ⟨left - 1, by omega⟩
  rw [append_nil, parseLoop] at follows
  exact follows

theorem Parses.call1 (parses : Parses env short num text phrase)
    (balanced : Balanced text) (space gap : Blank) (function : Func1)
    (name : Spelling function.name) :
    Parses env (decide (text.length < functionSize) && short) (1 + num)
      (space.text ++ (name.text ++ (gap.text ++ '(' :: (text ++ [')']))))
      fun _ =>
        single (.call name.text (unitsOf (phrase 0)) []
          (.call1 function name (phrase 0).tree)) := by
  intro fuel rest state enough ends
  obtain ⟨fuel, rfl⟩ : ∃ less, fuel = less + 1 := ⟨fuel - 1, by omega⟩
  simp only [append_assoc, cons_append, nil_append,
    length_append, length_cons] at enough ⊢
  have params : Follows _
      (parseParams (fun param free => parseLoop env fuel true param (.start free))
        (text ++ ')' :: rest) (state.free - 1))
      (.ok ⟨unitsOf (phrase 0), [], getFunParams function.name,
        state.free - 1 - num, rest⟩) :=
    (parseParam_follows balanced (.inl rfl) rest _
      (parses.whole (by omega) _)).bind
      (.of_eq (by cases function <;> rfl))
  refine ⟨fuel, by omega, ?_⟩
  have follows := parseLoop_call env fuel space gap (Func1.spelled name)
    (by cases function <;> decide) (by cases function <;> decide) state params
    (.call1 function name (phrase 0).tree)
  refine follows.congr ?_
  rw [Bool.and_eq_true, decide_eq_true_iff]
  constructor
  · rintro ⟨one, ⟨long, short, few⟩, -⟩
    exact ⟨⟨long, short⟩, by omega⟩
  · rintro ⟨⟨long, short⟩, few⟩
    exact ⟨by omega, ⟨long, short, by omega⟩, trivial⟩

theorem Parses.call2 {phrase phraseTail : Int → UnitPhrase}
    (one : Parses env short num text phrase)
    (other : Parses env shortTail numTail textTail phraseTail)
    (balanced : Balanced text) (balancedTail : Balanced textTail)
    (space gap : Blank) (function : Func2) (name : Spelling function.name) :
    Parses env
      (decide (text.length < functionSize) && short &&
        (decide (textTail.length < functionSize) && shortTail))
      (1 + (num + numTail))
      (space.text ++ (name.text ++ (gap.text ++
        '(' :: (text ++ ',' :: (textTail ++ [')'])))))
      fun _ =>
        single (.call name.text (unitsOf (phrase 0)) (unitsOf (phraseTail 0))
          (.call2 function name (phrase 0).tree (phraseTail 0).tree)) := by
  intro fuel rest state enough ends
  obtain ⟨fuel, rfl⟩ : ∃ less, fuel = less + 1 := ⟨fuel - 1, by omega⟩
  simp only [append_assoc, cons_append, nil_append,
    length_append, length_cons] at enough ⊢
  have second : Follows _
      (parseSecond (fun param free => parseLoop env fuel true param (.start free))
        (unitsOf (phrase 0), state.free - 1 - num) (textTail ++ ')' :: rest))
      (.ok ⟨unitsOf (phrase 0), unitsOf (phraseTail 0),
        getFunParams function.name, state.free - 1 - (num + numTail), rest⟩) :=
    (parseParam_follows balancedTail (.inl rfl) rest _
      (other.whole (by omega) _)).bind
      (.of_eq (by
        rw [← Nat.sub_sub]
        cases function <;> rfl))
  have params : Follows _
      (parseParams (fun param free => parseLoop env fuel true param (.start free))
        (text ++ ',' :: (textTail ++ ')' :: rest)) (state.free - 1)) _ :=
    (parseParam_follows balanced (.inr rfl) _ _
      (one.whole (by omega) _)).bind second
  refine ⟨fuel, by omega, ?_⟩
  have follows := parseLoop_call env fuel space gap (Func2.spelled name)
    (by cases function <;> decide) (by cases function <;> decide) state params
    (.call2 function name (phrase 0).tree (phraseTail 0).tree)
  refine follows.congr ?_
  rw [Bool.and_eq_true, Bool.and_eq_true, Bool.and_eq_true, decide_eq_true_iff,
    decide_eq_true_iff]
  constructor
  · rintro ⟨positive, ⟨long, short, few⟩, ⟨longTail, shortTail, fewTail⟩, -⟩
    exact ⟨⟨⟨long, short⟩, longTail, shortTail⟩, by omega⟩
  · rintro ⟨⟨⟨long, short⟩, longTail, shortTail⟩, few⟩
    exact ⟨by omega, ⟨long, short, by omega⟩,
      ⟨longTail, shortTail, by omega⟩, trivial⟩

variable (env)

mutual

theorem Sum.parses : (sum : Sum) →
    Parses env sum.short sum.unitNum sum.text fun level => sum.phrase level
  | .mk first more close =>
    (first.parses.tail more.parses more.ends).close close

theorem SumTail.parses : (more : SumTail) →
    ParsesTail env more.short more.unitNum more.text fun level =>
      chainItems (level + 1) (more.links level)
  | .nil => .nil
  | .cons space op term more => by
      have cons := ParsesTail.cons space op.visible (by cases op <;> decide)
        (show FormulaOp.ofChar op.char = some op.arith.formula by
          cases op <;> rfl)
        term.parses more.parses more.ends
      have level : op.arith.formula.level = 1 := by cases op <;> rfl
      rw [level] at cons
      exact cons

theorem Term.parses : (term : Term) →
    Parses env term.short term.unitNum term.text fun level => term.phrase level
  | .mk first more => first.parses.tail more.parses more.ends

theorem TermTail.parses : (more : TermTail) →
    ParsesTail env more.short more.unitNum more.text fun level =>
      chainItems (level + 2) (more.links level)
  | .nil => .nil
  | .cons space op factor more => by
      have cons := ParsesTail.cons space op.visible (by cases op <;> decide)
        (show FormulaOp.ofChar op.char = some op.arith.formula by
          cases op <;> rfl)
        factor.parses more.parses more.ends
      have level : op.arith.formula.level = 2 := by cases op <;> rfl
      rw [level] at cons
      exact cons

theorem Factor.parses : (factor : Factor) →
    Parses env factor.short factor.unitNum factor.text fun level =>
      factor.phrase level
  | .number space value => .number space value
  | .memory space address => .memory space address
  | .bracket space inner => inner.parses.bracket space
  | .call1 space function name gap argument =>
    argument.parses.call1 argument.balanced space gap function name
  | .call2 space function name gap first second =>
    first.parses.call2 second.parses first.balanced second.balanced space gap
      function name

end

theorem Sum.parseExpress2node (sum : Sum) (free : Nat) :
    Follows (sum.short = true ∧ sum.unitNum ≤ free)
      (parseExpress2node env sum.text free)
      (.ok (unitsOf (sum.phrase 0), free - sum.unitNum)) :=
  (sum.parses env).whole (Nat.lt_succ_self _) free

end Expressions

end NdNet.Formula
