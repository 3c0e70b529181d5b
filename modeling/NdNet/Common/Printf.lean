import NdNet.Common.Str
import Mathlib.Algebra.GroupWithZero.Nat
import Mathlib.Data.List.TakeWhile

/-!
# Printed numbers

What `%d` and `%x` print, and what the scanners of `nd_str.c` make of it.  They
read a hexadecimal number only behind `0x`, which `%x` does not print: above
nine what is printed so is refused or read as a smaller number.
-/

namespace NdNet.Str

open List

/-- `%d` -/
def decText (value : Int) : List Char :=
  if value < 0 then '-' :: Nat.toDigits 10 value.natAbs
  else Nat.toDigits 10 value.natAbs

/-- `%x` -/
def hexText (value : Nat) : List Char :=
  Nat.toDigits 16 value

variable {text : List Char}

section Digits

theorem numeral_of_mem_toDigits {value : Nat} {c : Char}
    (member : c ∈ Nat.toDigits 10 value) : numeral c = true := by
  have digit := Nat.isDigit_of_mem_toDigits (by decide) (by decide) member
  unfold Char.isDigit at digit
  unfold numeral
  exact digit

theorem decimal_eq (digits : ∀ c ∈ text, numeral c = true) :
    decimal text = Nat.ofDigitChars 10 text 0 := by
  have whole : text.takeWhile numeral = text :=
    takeWhile_eq_self_iff.mpr digits
  unfold decimal
  rw [whole]
  rfl

theorem decimal_toDigits (value : Nat) :
    decimal (Nat.toDigits 10 value) = value := by
  rw [decimal_eq fun _ => numeral_of_mem_toDigits,
    Nat.ofDigitChars_ten_toDigits]

theorem decimal_append {c : Char} (digits : ∀ d ∈ text ++ [c], numeral d = true)
    :
    decimal (text ++ [c]) = 10 * decimal text + (c.toNat - '0'.toNat) := by
  rw [decimal_eq digits, Nat.ofDigitChars_append, decimal_eq]
  · rfl
  · exact fun d member => digits d (mem_append_left _ member)

theorem numeralsFrom_digits {dot : Nat} (digits : ∀ c ∈ text, numeral c = true)
    :
    numeralsFrom dot true text = true := by
  induction text with
  | nil => rfl
  | cons c text induction =>
    obtain ⟨digit, others⟩ := forall_mem_cons.mp digits
    rw [numeralsFrom, if_pos digit, induction others]

theorem hexDigits_none
    (plain : ∀ c ∈ text, c ≠ 'x' ∧ c ≠ 'X') : hexDigits text = none := by
  unfold hexDigits
  split
  · exact absurd rfl (plain 'x' (by simp)).1
  · exact absurd rfl (plain 'X' (by simp)).2
  · rfl

theorem numeral_visible {c : Char} (digit : numeral c = true) :
    ¬ c ≤ ' ' ∧ c ≠ '-' ∧ c ≠ '+' ∧ c ≠ 'x' ∧ c ≠ 'X' ∧ c ≠ '.' := by
  unfold numeral at digit
  rw [Bool.and_eq_true, decide_eq_true_iff, decide_eq_true_iff] at digit
  have low : 48 ≤ c.toNat := digit.1
  have high : c.toNat ≤ 57 := digit.2
  refine ⟨?_, ?_, ?_, ?_, ?_, ?_⟩
  · intro space
    have blank : c.toNat ≤ 32 := space
    omega
  all_goals
    rintro rfl
    revert low high
    decide

theorem hexDigits_numerals
    (digits : ∀ c ∈ text, numeral c = true) : hexDigits text = none :=
  hexDigits_none fun c member =>
    have plain := numeral_visible (digits c member)
    ⟨plain.2.2.2.1, plain.2.2.2.2.1⟩

end Digits

section Decimal

variable {value : Int}

theorem toDigits_cons (value : Nat) :
    ∃ first rest, Nat.toDigits 10 value = first :: rest ∧
      ∀ c ∈ first :: rest, numeral c = true := by
  obtain ⟨first, rest, shape⟩ :=
    exists_cons_of_ne_nil (Nat.toDigits_ne_nil (n := value) (b := 10))
  have digits : ∀ c ∈ first :: rest, numeral c = true := by
    intro c member
    rw [← shape] at member
    exact numeral_of_mem_toDigits member
  exact ⟨first, rest, shape, digits⟩

theorem isNumerals_decText : isNumerals (decText value) = some true := by
  obtain ⟨first, rest, shape, all⟩ := toDigits_cons value.natAbs
  have noMark := hexDigits_numerals all
  obtain ⟨digit, digits⟩ := forall_mem_cons.mp all
  have plain := numeral_visible digit
  unfold decText
  rw [shape]
  by_cases negative : value < 0
  · rw [if_pos negative]
    change some (numeralsFrom 0 false (first :: rest)) = some true
    rw [numeralsFrom, if_pos digit, numeralsFrom_digits digits]
  · rw [if_neg negative, isNumerals, noMark]
    dsimp only
    rw [firstValid_cons plain.1, Option.map_some]
    split
    · rename_i same
      exact absurd (cons.inj same).1 plain.2.1
    · rename_i same
      obtain ⟨rfl, rfl⟩ := cons.inj same
      rw [digit, numeralsFrom_digits digits]
      rfl
    · rename_i same
      exact absurd same (cons_ne_nil first rest)

theorem atoiHex_digits {first : Char} {rest : List Char}
    (all : ∀ c ∈ first :: rest, numeral c = true) :
    atoiHex (first :: rest) = decimal (first :: rest) := by
  have plain := numeral_visible (forall_mem_cons.mp all).1
  have visible : (decide (first = ' ') ||
      decide ('\t' ≤ first) && decide (first ≤ '\r')) = false := by
    rw [Bool.or_eq_false_iff, Bool.and_eq_false_iff]
    refine ⟨decide_eq_false ?_, .inr (decide_eq_false ?_)⟩
    · rintro rfl
      exact plain.1 (by decide)
    · intro low
      refine plain.1 ?_
      have small : first.toNat ≤ 13 := low
      have : first.toNat ≤ 32 := by omega
      exact this
  rw [atoiHex, hexDigits_numerals all]
  dsimp only
  unfold atoi
  rw [dropWhile_cons_of_neg (by simpa using visible)]
  split
  · rename_i same
    exact absurd (cons.inj same).1 plain.2.1
  · rename_i same
    exact absurd (cons.inj same).1 plain.2.2.1
  · rfl

theorem atoiHex_decText : atoiHex (decText value) = value := by
  obtain ⟨first, rest, shape, all⟩ := toDigits_cons value.natAbs
  have read := decimal_toDigits value.natAbs
  rw [shape] at read
  unfold decText
  rw [shape]
  by_cases negative : value < 0
  · rw [if_pos negative]
    change -(decimal (first :: rest) : Int) = value
    omega
  · rw [if_neg negative, atoiHex_digits all, read]
    omega

theorem decText_length {count : Nat} (positive : 0 < count)
    (bits : value.natAbs < 10 ^ count) :
    (decText value).length ≤ count + 1 := by
  have digits := (Nat.length_toDigits_le_iff (b := 10) (by decide)
    positive).mpr bits
  unfold decText
  split
  · rw [length_cons]
    omega
  · omega

end Decimal

section Hexadecimal

variable {value : Nat}

theorem hexText_all {p : Char → Prop} (digits : ∀ d < 16, p (Nat.digitChar d))
    (value : Nat) : ∀ c ∈ hexText value, p c := by
  induction value using Nat.strongRecOn with
  | ind value induction =>
    unfold hexText at induction ⊢
    intro c member
    by_cases small : value < 16
    · rw [Nat.toDigits_of_lt_base small, mem_singleton] at member
      rw [member]
      exact digits value small
    · rw [Nat.toDigits_of_base_le (by decide) (Nat.not_lt.mp small),
        mem_append, mem_singleton] at member
      rcases member with front | last
      · exact induction (value / 16) (by omega) c front
      · rw [last]
        exact digits _ (Nat.mod_lt _ (by decide))

theorem hexText_small (small : value < 10) :
    hexText value = decText value := by
  have positive : ¬ (value : Int) < 0 := by omega
  unfold hexText decText
  rw [if_neg positive, Int.natAbs_natCast, Nat.toDigits_of_lt_base small,
    Nat.toDigits_of_lt_base (by omega)]

theorem decimal_hexText (digits : ∀ c ∈ hexText value, numeral c = true) :
    decimal (hexText value) ≤ value ∧
      (10 ≤ value → decimal (hexText value) < value) := by
  induction value using Nat.strongRecOn with
  | ind value induction =>
    unfold hexText at induction digits ⊢
    by_cases small : value < 16
    · rw [Nat.toDigits_of_lt_base small] at digits ⊢
      have digit := digits _ (mem_singleton.mpr rfl)
      -- The digits from ten on are letters.
      have table : ∀ d < 16, numeral (Nat.digitChar d) = true →
          d < 10 ∧ decimal [Nat.digitChar d] = d := by decide
      obtain ⟨low, same⟩ := table value small digit
      omega
    · rw [Nat.toDigits_of_base_le (by decide) (Nat.not_lt.mp small)]
        at digits ⊢
      have table : ∀ d < 16, numeral (Nat.digitChar d) = true →
          (Nat.digitChar d).toNat - '0'.toNat = d := by decide
      have front := (induction (value / 16) (by omega) fun c member =>
        digits c (mem_append_left _ member)).1
      have last := table (value % 16) (Nat.mod_lt _ (by decide))
        (digits _ (mem_append_right _ (mem_singleton.mpr rfl)))
      rw [decimal_append digits, last]
      omega

theorem numeralsFrom_plain {dot : Nat} {ret : Bool}
    (noDot : ∀ c ∈ text, c ≠ '.') (reads : numeralsFrom dot ret text = true) :
    ∀ c ∈ text, numeral c = true := by
  induction text generalizing ret with
  | nil => exact nofun
  | cons c text induction =>
    obtain ⟨other, others⟩ := forall_mem_cons.mp noDot
    rw [numeralsFrom] at reads
    by_cases digit : numeral c = true
    · rw [if_pos digit] at reads
      exact forall_mem_cons.mpr ⟨digit, induction others reads⟩
    · rw [if_neg digit, if_neg other] at reads
      exact absurd reads Bool.false_ne_true

/-- If the scanners take what `%x` prints for a number, it is the number of its
digits read as decimal ones. -/
theorem hexText_numerals (numerals : isNumerals (hexText value) = some true) :
    atoiHex (hexText value) = decimal (hexText value) ∧
      (10 ≤ value → decimal (hexText value) < value) := by
  have plain : ∀ c ∈ hexText value, (c ≠ 'x' ∧ c ≠ 'X') ∧ c ≠ '.' ∧
      ¬ c ≤ ' ' ∧ c ≠ '-' := hexText_all (by decide) value
  obtain ⟨first, rest, shape⟩ : ∃ first rest,
      hexText value = first :: rest :=
    exists_cons_of_ne_nil Nat.toDigits_ne_nil
  have head := plain first (by rw [shape]; exact mem_cons_self)
  have digits : ∀ c ∈ first :: rest, numeral c = true := by
    rw [isNumerals, hexDigits_none fun c member => (plain c member).1, shape]
      at numerals
    rw [firstValid_cons head.2.2.1, Option.map_some] at numerals
    have reads := Option.some.inj numerals
    split at reads
    · rename_i same
      exact absurd (cons.inj same).1 head.2.2.2
    · rename_i same
      obtain ⟨rfl, rfl⟩ := cons.inj same
      obtain ⟨digit, others⟩ := (Bool.and_eq_true _ _).mp reads
      refine forall_mem_cons.mpr ⟨digit, numeralsFrom_plain ?_ others⟩
      intro c member
      refine (plain c ?_).2.1
      rw [shape]
      exact mem_cons_of_mem _ member
    · rename_i same
      exact absurd same (cons_ne_nil first rest)
  constructor
  · rw [shape, atoiHex_digits digits]
  · intro large
    rw [← shape] at digits
    exact (decimal_hexText digits).2 large

end Hexadecimal

end NdNet.Str
