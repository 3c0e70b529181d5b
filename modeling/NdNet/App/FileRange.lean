import Mathlib.Algebra.Group.Int.Defs
import Mathlib.Algebra.GroupWithZero.Nat
import Mathlib.Data.List.TakeWhile
import NdNet.App.HttpParser

/-!
# File ranges

`getFileRange` reads the numbers of a range header with `strtoll` and computes
with them modulo 2^64.  `rangeNumbers` is what stands in the text; the pair it
leads to lies in the file if the numbers do, and is the range the text denotes
if the numbers are small enough to be read.
-/

namespace NdNet.Http

open NdNet.Str

def isspace (c : Char) : Bool :=
  c = ' ' || '\t' ≤ c && c ≤ '\r'

def llongMax : Int := 0x7fffffffffffffff

def llongMin : Int := -0x8000000000000000

def readDigits (text digits : List Char) (value : Nat → Int) :
    Int × List Char :=
  if (digits.takeWhile numeral).isEmpty then (0, text)
  else (value (decimal digits), digits.dropWhile numeral)

/-- The number in front of a text, and where it ends; a text without a number
counts as zero. -/
def readNumber (text : List Char) : Int × List Char :=
  match text.dropWhile isspace with
  | '-' :: digits => readDigits text digits fun value => -value
  | '+' :: digits => readDigits text digits fun value => value
  | digits => readDigits text digits fun value => value

/-- What `strtoll` makes of a number that is too large. -/
def saturate (number : Int) : Int :=
  max llongMin (min number llongMax)

/-- `strtoll` with base 10: the number and the end of it. -/
def strtoll (text : List Char) : Int × List Char :=
  (saturate (readNumber text).1, (readNumber text).2)

/-- `NDHttpParser::getFileRange`: what it returns, and `offset` and `length`
afterwards.  `none` is the negation of `LLONG_MIN`. -/
def getFileRange (range : List Char) (offset length fileSize : BitVec 64) :
    Option (Bool × BitVec 64 × BitVec 64) :=
  match stristr range "bytes=".toList with
  | none => some (false, offset, length)
  | some rangeData =>
    let (start, p) := strtoll (rangeData.drop 6)
    if start < 0 then
      if start = llongMin then none
      else
        let length := BitVec.ofInt 64 (-start)
        some (true, fileSize - length, length)
    else
      let offset := BitVec.ofInt 64 start
      match strchr p '-' with
      | none => some (false, offset, length)
      | some p =>
        if (p.drop 1).isEmpty then some (true, offset, fileSize - offset)
        else
          let last := BitVec.ofInt 64 (strtoll (p.drop 1)).1
          some (true, offset, last - offset + 1)

def Digits (word : List Char) : Prop :=
  word ≠ [] ∧ ∀ c ∈ word, numeral c = true

/-- The range of a file that a text asks for: where it begins and how long it
is.  A range may end behind the end of the file, and a suffix be longer. -/
inductive Denotes (fileSize : Nat) : List Char → Nat → Nat → Prop
  | both {first last : List Char} : Digits first → Digits last →
      decimal first ≤ decimal last → decimal first < fileSize →
        Denotes fileSize ("bytes=".toList ++ first ++ '-' :: last)
          (decimal first) (min (decimal last + 1) fileSize - decimal first)
  | onwards {first : List Char} : Digits first → decimal first < fileSize →
      Denotes fileSize ("bytes=".toList ++ first ++ ['-']) (decimal first)
        (fileSize - decimal first)
  | suffix {count : List Char} : Digits count → 0 < decimal count →
      0 < fileSize →
        Denotes fileSize ("bytes=".toList ++ '-' :: count)
          (fileSize - min (decimal count) fileSize)
          (min (decimal count) fileSize)

/-- What is to be expected of `getFileRange`: a range lies in the file, and a
range that the text denotes is found. -/
def RangeValid (range : List Char) (fileSize : BitVec 64) : Prop :=
  ∀ offset length, ∃ found first count,
    getFileRange range offset length fileSize = some (found, first, count) ∧
      (found = true → first.toNat + count.toNat ≤ fileSize.toNat) ∧
      ∀ start size, Denotes fileSize.toNat range start size →
        found = true ∧ first.toNat = start ∧ count.toNat = size

/-- The numbers of a range, as they stand in the text. -/
inductive RangeNumbers where
  | suffix (count : Int)
  | onwards (first : Int)
  | both (first last : Int)

/-- The numbers that `getFileRange` reads, if it takes the text for a range. -/
def rangeNumbers (range : List Char) : Option RangeNumbers :=
  match stristr range "bytes=".toList with
  | none => none
  | some rangeData =>
    let (start, p) := readNumber (rangeData.drop 6)
    if start < 0 then some (.suffix (-start))
    else
      match strchr p '-' with
      | none => none
      | some p =>
        if (p.drop 1).isEmpty then some (.onwards start)
        else some (.both start (readNumber (p.drop 1)).1)

/-- The numbers lie in the file: a suffix is not longer, a range does not end
behind it and does not begin behind its own end.  A range may be empty; its last
number is read as a `size_t`. -/
def RangeNumbers.Inside (fileSize : Nat) : RangeNumbers → Prop
  | .suffix count => count < 2 ^ 63 ∧ count ≤ fileSize
  | .onwards first => min first llongMax ≤ fileSize
  | .both first last =>
    let start := min first llongMax
    let last := saturate last % 2 ^ 64
    (start ≤ last ∧ last < fileSize) ∨
      ((last + 1) % 2 ^ 64 = start ∧ start ≤ fileSize)

/-- The numbers of a range that can be met are small enough to be read.  For a
file of 2^63 bytes a last number that is too large comes to the end of it. -/
def RangeNumbers.Readable (fileSize : Nat) : RangeNumbers → Prop
  | .suffix _ => True
  | .onwards first => first < fileSize → first < 2 ^ 63
  | .both first last => first ≤ last → first < fileSize →
      first < 2 ^ 63 ∧ (last < 2 ^ 63 ∨ fileSize = 2 ^ 63)

def Formed (range : List Char) : Prop :=
  ∃ first last, range = "bytes=".toList ++ first ++ '-' :: last ∧
    (Digits first ∧ last = [] ∨ Digits first ∧ Digits last ∨
      first = [] ∧ Digits last)

def RangeAllowed (range : List Char) (fileSize : Nat) : Prop :=
  ∀ numbers ∈ rangeNumbers range, numbers.Inside fileSize ∧
    (Formed range → numbers.Readable fileSize)

section Computes

variable {range : List Char} {fileSize : BitVec 64}

theorem saturate_neg (number : Int) : saturate number < 0 ↔ number < 0 := by
  unfold saturate llongMin llongMax
  omega

def RangeNumbers.pair (fileSize : BitVec 64) :
    RangeNumbers → Option (BitVec 64 × BitVec 64)
  | .suffix count =>
    if 2 ^ 63 ≤ count then none
    else some (fileSize - BitVec.ofInt 64 count, BitVec.ofInt 64 count)
  | .onwards first =>
    let offset := BitVec.ofInt 64 (min first llongMax)
    some (offset, fileSize - offset)
  | .both first last =>
    let offset := BitVec.ofInt 64 (min first llongMax)
    some (offset, BitVec.ofInt 64 (saturate last) - offset + 1)

def RangeNumbers.Signed : RangeNumbers → Prop
  | .suffix count => 0 < count
  | .onwards first => 0 ≤ first
  | .both first _ => 0 ≤ first

theorem getFileRange_eq (range : List Char) (offset length fileSize : BitVec 64) :
    match rangeNumbers range with
    | none => ∃ first count,
        getFileRange range offset length fileSize = some (false, first, count)
    | some numbers => numbers.Signed ∧
        getFileRange range offset length fileSize =
          (numbers.pair fileSize).map fun found => (true, found) := by
  unfold getFileRange rangeNumbers
  cases stristr range "bytes=".toList with
  | none => exact ⟨offset, length, rfl⟩
  | some rangeData =>
    dsimp only [strtoll]
    generalize readNumber (rangeData.drop 6) = read
    obtain ⟨start, p⟩ := read
    have sign := saturate_neg start
    by_cases negative : start < 0
    · rw [if_pos (sign.mpr negative), if_pos negative]
      refine ⟨by unfold RangeNumbers.Signed; omega, ?_⟩
      dsimp only [RangeNumbers.pair]
      by_cases least : 2 ^ 63 ≤ -start
      · have same : saturate start = llongMin := by
          unfold saturate llongMin llongMax
          omega
        rw [if_pos same, if_pos least]
        rfl
      · have same : saturate start = start := by
          unfold saturate llongMin llongMax
          omega
        have other : start ≠ llongMin := by
          unfold llongMin
          omega
        rw [same, if_neg other, if_neg least]
        rfl
    · rw [if_neg fun below => negative (sign.mp below), if_neg negative]
      have same : saturate start = min start llongMax := by
        unfold saturate llongMin llongMax
        omega
      rw [same]
      cases strchr p '-' with
      | none => exact ⟨_, _, rfl⟩
      | some found =>
        dsimp only
        by_cases ended : (found.drop 1).isEmpty
        · rw [if_pos ended, if_pos ended]
          exact ⟨Int.not_lt.mp negative, rfl⟩
        · rw [if_neg ended, if_neg ended]
          exact ⟨Int.not_lt.mp negative, rfl⟩

theorem toNat_ofInt_small {number : Int} (positive : 0 ≤ number)
    (small : number < 2 ^ 64) :
    ((BitVec.ofInt 64 number).toNat : Int) = number := by
  rw [BitVec.toNat_ofInt]
  omega

theorem RangeNumbers.inside_iff (numbers : RangeNumbers)
    (signed : numbers.Signed) (fileSize : BitVec 64) :
    (∃ offset length, numbers.pair fileSize = some (offset, length) ∧
      offset.toNat + length.toNat ≤ fileSize.toNat) ↔
      numbers.Inside fileSize.toNat := by
  cases numbers with
  | suffix count =>
    dsimp only [pair, Inside]
    by_cases large : 2 ^ 63 ≤ count
    · rw [if_pos large]
      refine iff_of_false ?_ ?_
      · rintro ⟨offset, length, none, -⟩
        cases none
      · rintro ⟨small, -⟩
        omega
    · rw [if_neg large]
      have exact := toNat_ofInt_small (Int.le_of_lt signed)
        (by omega : count < 2 ^ 64)
      constructor
      · rintro ⟨offset, length, same, within⟩
        cases same
        omega
      · rintro ⟨-, within⟩
        refine ⟨_, _, rfl, ?_⟩
        rw [BitVec.toNat_sub]
        omega
  | onwards first =>
    dsimp only [Signed] at signed
    dsimp only [pair, Inside]
    have exact := @toNat_ofInt_small (min first llongMax)
      (by unfold llongMax; omega) (by unfold llongMax; omega)
    constructor
    · rintro ⟨offset, length, same, within⟩
      cases same
      omega
    · intro within
      refine ⟨_, _, rfl, ?_⟩
      rw [BitVec.toNat_sub]
      omega
  | both first last =>
    dsimp only [Signed] at signed
    dsimp only [pair, Inside]
    have exact := @toNat_ofInt_small (min first llongMax)
      (by unfold llongMax; omega) (by unfold llongMax; omega)
    have ends : ((BitVec.ofInt 64 (saturate last)).toNat : Int) =
        saturate last % 2 ^ 64 := by
      rw [BitVec.toNat_ofInt]
      omega
    have bound : (BitVec.ofInt 64 (saturate last)).toNat < 2 ^ 64 :=
      BitVec.isLt _
    have one : (1 : BitVec 64).toNat = 1 := rfl
    generalize BitVec.ofInt 64 (min first llongMax) = offset at exact ⊢
    generalize BitVec.ofInt 64 (saturate last) = stop at ends bound ⊢
    constructor
    · rintro ⟨_, _, same, within⟩
      cases same
      rw [BitVec.toNat_add, BitVec.toNat_sub, one] at within
      omega
    · intro within
      refine ⟨_, _, rfl, ?_⟩
      rw [BitVec.toNat_add, BitVec.toNat_sub, one]
      omega

theorem RangeNumbers.pair_both {first last : Int} (begins : 0 ≤ first)
    (ordered : first ≤ last) (fileSize : BitVec 64) :
    ∃ offset length, pair fileSize (.both first last) = some (offset, length) ∧
      (offset.toNat : Int) = min first llongMax ∧
      (length.toNat : Int) = min last llongMax - min first llongMax + 1 := by
  have exact := @toNat_ofInt_small (min first llongMax)
    (by unfold llongMax; omega) (by unfold llongMax; omega)
  have same : saturate last = min last llongMax := by
    unfold saturate llongMin llongMax
    omega
  have ends := @toNat_ofInt_small (min last llongMax)
    (by unfold llongMax; omega) (by unfold llongMax; omega)
  have one : (1 : BitVec 64).toNat = 1 := rfl
  refine ⟨_, _, rfl, exact, ?_⟩
  rw [same, BitVec.toNat_add, BitVec.toNat_sub, one]
  unfold llongMax at *
  omega

end Computes

section Forms

variable {first last count word rest : List Char}

theorem Digits.head (digits : Digits word) : ∃ c others, word = c :: others ∧
    numeral c = true := by
  obtain ⟨some_, all⟩ := digits
  cases word with
  | nil => exact absurd rfl some_
  | cons c others => exact ⟨c, others, rfl, all c List.mem_cons_self⟩

theorem readDigits_digits (digits : Digits word)
    (ends : ∀ c ∈ rest.head?, numeral c = false) (text : List Char)
    (value : Nat → Int) :
    readDigits text (word ++ rest) value = (value (decimal word), rest) := by
  have stops : rest.takeWhile numeral = [] ∧ rest.dropWhile numeral = rest := by
    cases rest with
    | nil => exact ⟨rfl, rfl⟩
    | cons c rest =>
      have other := ends c rfl
      simp [other]
  have taken : (word ++ rest).takeWhile numeral = word := by
    rw [List.takeWhile_append_of_pos digits.2, stops.1, List.append_nil]
  have whole : word.takeWhile numeral = word :=
    List.takeWhile_eq_self_iff.mpr digits.2
  have same : decimal (word ++ rest) = decimal word := by
    unfold decimal
    rw [taken, whole]
  unfold readDigits
  rw [taken, if_neg (by simpa using digits.1), same,
    List.dropWhile_append_of_pos digits.2, stops.2]

theorem readNumber_digits (digits : Digits word)
    (ends : ∀ c ∈ rest.head?, numeral c = false) :
    readNumber (word ++ rest) = ((decimal word : Int), rest) := by
  obtain ⟨c, others, rfl, digit⟩ := digits.head
  have plain : isspace c = false ∧ c ≠ '-' ∧ c ≠ '+' := by
    unfold numeral at digit
    rw [Bool.and_eq_true, decide_eq_true_iff, decide_eq_true_iff] at digit
    refine ⟨?_, ?_, ?_⟩
    · unfold isspace
      rw [Bool.or_eq_false_iff, decide_eq_false_iff_not, Bool.and_eq_false_iff,
        decide_eq_false_iff_not, decide_eq_false_iff_not]
      constructor
      · rintro rfl
        exact absurd digit.1 (by decide)
      · right
        intro small
        exact absurd (Char.le_trans digit.1 small) (by decide)
    · rintro rfl
      exact absurd digit.1 (by decide)
    · rintro rfl
      exact absurd digit.1 (by decide)
  unfold readNumber
  rw [List.cons_append, List.dropWhile_cons, plain.1, if_neg Bool.false_ne_true]
  split
  · rename_i same
    exact absurd (List.cons.inj same).1 plain.2.1
  · rename_i same
    exact absurd (List.cons.inj same).1 plain.2.2
  · exact readDigits_digits digits ends _ _

theorem readNumber_negative (digits : Digits word) :
    readNumber ('-' :: word) = (-(decimal word : Int), []) := by
  have read := @readDigits_digits word [] digits (by simp) ('-' :: word)
    fun value => -value
  rw [List.append_nil] at read
  exact read

theorem rangeNumbers_onwards (digits : Digits first) :
    rangeNumbers ("bytes=".toList ++ first ++ ['-']) =
      some (.onwards (decimal first)) := by
  have found : stristr ("bytes=".toList ++ first ++ ['-']) "bytes=".toList =
      some ("bytes=".toList ++ (first ++ ['-'])) := rfl
  have read := @readNumber_digits first ['-'] digits (by simp [numeral])
  unfold rangeNumbers
  rw [found]
  dsimp only
  rw [show ("bytes=".toList ++ (first ++ ['-'])).drop 6 = first ++ ['-'] from rfl,
    read]
  rfl

theorem rangeNumbers_both (digits : Digits first) (others : Digits last) :
    rangeNumbers ("bytes=".toList ++ first ++ '-' :: last) =
      some (.both (decimal first) (decimal last)) := by
  have found : stristr ("bytes=".toList ++ first ++ '-' :: last)
      "bytes=".toList = some ("bytes=".toList ++ (first ++ '-' :: last)) := rfl
  have read := @readNumber_digits first ('-' :: last) digits (by simp [numeral])
  have second := @readNumber_digits last [] others (by simp)
  rw [List.append_nil] at second
  have some_ : last.isEmpty = false := by
    obtain ⟨c, rest, rfl, -⟩ := others.head
    rfl
  unfold rangeNumbers
  rw [found]
  dsimp only
  rw [show ("bytes=".toList ++ (first ++ '-' :: last)).drop 6 =
    first ++ '-' :: last from rfl, read]
  rw [if_neg (by omega), show strchr ('-' :: last) '-' = some ('-' :: last) from rfl]
  dsimp only
  rw [List.drop_one, List.tail_cons, some_, if_neg Bool.false_ne_true, second]

theorem rangeNumbers_suffix (digits : Digits count) :
    rangeNumbers ("bytes=".toList ++ '-' :: count) =
      if 0 < decimal count then some (.suffix (decimal count)) else none := by
  have found : stristr ("bytes=".toList ++ '-' :: count) "bytes=".toList =
      some ("bytes=".toList ++ '-' :: count) := rfl
  unfold rangeNumbers
  rw [found]
  dsimp only
  rw [show ("bytes=".toList ++ '-' :: count).drop 6 = '-' :: count from rfl,
    readNumber_negative digits]
  by_cases positive : 0 < decimal count
  · rw [if_pos (by omega), if_pos positive, Int.neg_neg]
  · rw [if_neg (by omega), if_neg positive]
    rfl

theorem Denotes.formed {fileSize start size : Nat} {range : List Char}
    (denotes : Denotes fileSize range start size) : Formed range := by
  cases denotes with
  | both digits others _ _ => exact ⟨_, _, rfl, .inr (.inl ⟨digits, others⟩)⟩
  | onwards digits _ => exact ⟨_, _, rfl, .inl ⟨digits, rfl⟩⟩
  | suffix digits _ _ => exact ⟨[], _, rfl, .inr (.inr ⟨rfl, digits⟩)⟩

end Forms

section Valid

variable {range : List Char} {fileSize : BitVec 64} {numbers : RangeNumbers}

theorem RangeValid.pair (valid : RangeValid range fileSize)
    (read : rangeNumbers range = some numbers) :
    ∃ offset length, numbers.pair fileSize = some (offset, length) ∧
      offset.toNat + length.toNat ≤ fileSize.toNat ∧
      ∀ start size, Denotes fileSize.toNat range start size →
        offset.toNat = start ∧ length.toNat = size := by
  obtain ⟨found, first, count, result, inside, exact⟩ := valid 0 0
  have computed := getFileRange_eq range 0 0 fileSize
  rw [read] at computed
  rw [computed.2] at result
  obtain ⟨⟨offset, length⟩, same, pairs⟩ := Option.map_eq_some_iff.mp result
  cases pairs
  exact ⟨first, count, same, inside rfl,
    fun start size denotes => (exact start size denotes).2⟩

theorem RangeValid.allowed (valid : RangeValid range fileSize) :
    RangeAllowed range fileSize.toNat := by
  intro numbers member
  have read : rangeNumbers range = some numbers := member
  have computed := getFileRange_eq range 0 0 fileSize
  rw [read] at computed
  obtain ⟨offset, length, same, within, exact⟩ := valid.pair read
  refine ⟨?_, ?_⟩
  · exact (numbers.inside_iff computed.1 fileSize).mp
      ⟨offset, length, same, within⟩
  · rintro ⟨first, last, rfl, ⟨digits, rfl⟩ | ⟨digits, others⟩ | ⟨rfl, digits⟩⟩
    · rw [rangeNumbers_onwards digits] at read
      cases read
      intro met
      have range := exact _ _ (.onwards digits (by omega))
      obtain ⟨rfl, -⟩ := Prod.mk.inj (Option.some.inj same)
      have begins := @toNat_ofInt_small (min (decimal first : Int) llongMax)
        (by unfold llongMax; omega) (by unfold llongMax; omega)
      unfold llongMax at begins range
      omega
    · rw [rangeNumbers_both digits others] at read
      cases read
      intro ordered met
      have range := exact _ _ (.both digits others (by omega) (by omega))
      obtain ⟨_, _, pair, begins, ends⟩ :=
        RangeNumbers.pair_both computed.1 ordered fileSize
      rw [same] at pair
      cases pair
      unfold llongMax at begins ends
      omega
    · rw [List.append_nil, rangeNumbers_suffix digits] at read
      split_ifs at read
      cases read
      trivial

theorem RangeAllowed.denoted (allowed : RangeAllowed range fileSize.toNat)
    {start size : Nat} (denotes : Denotes fileSize.toNat range start size) :
    ∃ numbers offset length, rangeNumbers range = some numbers ∧
      numbers.pair fileSize = some (offset, length) ∧
      offset.toNat = start ∧ length.toNat = size := by
  have formed := denotes.formed
  have bound := fileSize.isLt
  cases denotes with
  | @both first last digits others ordered met =>
    have read := rangeNumbers_both digits others
    obtain ⟨inside, readable⟩ := allowed _ read
    obtain ⟨small, least⟩ := readable formed (by omega) (by omega)
    obtain ⟨offset, length, pair, begins, ends⟩ := RangeNumbers.pair_both
      (Int.natCast_nonneg _) (Int.ofNat_le.mpr ordered) fileSize
    refine ⟨_, offset, length, read, pair, ?_, ?_⟩
    · unfold llongMax at begins
      omega
    · dsimp only [RangeNumbers.Inside] at inside
      unfold saturate llongMin llongMax at inside
      unfold llongMax at begins ends
      omega
  | @onwards first digits met =>
    have read := rangeNumbers_onwards digits
    obtain ⟨inside, readable⟩ := allowed _ read
    have small := readable formed (by omega)
    have begins := @toNat_ofInt_small (min (decimal first : Int) llongMax)
      (by unfold llongMax; omega) (by unfold llongMax; omega)
    have same : ((BitVec.ofInt 64 (min (decimal first : Int) llongMax)).toNat :
        Int) = decimal first := by
      rw [begins]
      unfold llongMax
      omega
    refine ⟨_, _, _, read, rfl, by omega, ?_⟩
    rw [BitVec.toNat_sub]
    omega
  | @suffix count digits positive some_ =>
    have read := rangeNumbers_suffix digits
    rw [if_pos positive] at read
    obtain ⟨⟨small, fits⟩, -⟩ := allowed _ read
    have exact := @toNat_ofInt_small (decimal count : Int) (by omega) (by omega)
    refine ⟨_, _, _, read, if_neg (by omega), ?_, ?_⟩
    · rw [BitVec.toNat_sub]
      omega
    · omega

/-- A range is valid exactly if its numbers lie in the file and can be read. -/
theorem rangeValid_iff (range : List Char) (fileSize : BitVec 64) :
    RangeValid range fileSize ↔ RangeAllowed range fileSize.toNat := by
  constructor
  · exact RangeValid.allowed
  · intro allowed offset length
    have computed := getFileRange_eq range offset length fileSize
    cases read : rangeNumbers range with
    | none =>
      rw [read] at computed
      obtain ⟨first, count, result⟩ := computed
      refine ⟨false, first, count, result, (nomatch ·), ?_⟩
      intro start size denotes
      obtain ⟨numbers, _, _, other, -⟩ := allowed.denoted denotes
      rw [read] at other
      cases other
    | some numbers =>
      rw [read] at computed
      obtain ⟨signed, result⟩ := computed
      obtain ⟨first, count, pair, within⟩ :=
        (numbers.inside_iff signed fileSize).mpr (allowed numbers read).1
      refine ⟨true, first, count, ?_, fun _ => within, ?_⟩
      · rw [result, pair]
        rfl
      · intro start size denotes
        obtain ⟨others, offset, length, again, same, exact⟩ :=
          allowed.denoted denotes
        rw [read] at again
        cases again
        rw [pair] at same
        cases same
        exact ⟨rfl, exact⟩

/-- A range that ends behind the end of the file is not cut off there. -/
theorem longRange_not_valid : ¬ RangeValid "bytes=0-99".toList 10 := by
  intro valid
  obtain ⟨found, first, count, result, inside, -⟩ := valid 0 0
  have computed : getFileRange "bytes=0-99".toList 0 0 10 =
      some (true, 0, 100) := by decide
  cases result
  exact absurd (inside rfl) (by decide)

end Valid

end NdNet.Http
