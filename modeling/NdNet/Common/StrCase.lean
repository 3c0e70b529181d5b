import NdNet.Common.Str

/-!
# Comparing strings without regard to case

`ndstricmp`, `ndstricmp_n` and `ndstristr` once more, now with every character
they read: a pointer is what is left of its string, the terminating NUL with
it, and behind the NUL there is nothing to read.  The answers are measured
against one reference, the folding of ASCII letters by `Char.toLower`.
-/

namespace NdNet.Str

open List

/-- A string that is ended by a NUL. -/
structure CString where
  text : List Char
  noNul : '\x00' ∉ text

namespace CString

def chars (string : CString) : List Char :=
  string.text ++ ['\x00']

def foldCase (text : List Char) : List Char :=
  text.map Char.toLower

section Loops

/-- The loop of `ndstricmp`.  A `char` has the value of an unsigned one: it
only matters whether a difference is zero. -/
def stricmpLoop : List Char → List Char → Option Int
  | a :: src, b :: desc =>
    let ret : Int := (folded a).toNat - (folded b).toNat
    if ret ≠ 0 then some ret
    else if a = '\x00' then some ret
    else stricmpLoop src desc
  | _, _ => none

def ndstricmp (src desc : CString) : Option Int :=
  stricmpLoop src.chars desc.chars

/-- The loop of `ndstricmp_n`; `n` is what is left of the count. -/
def stricmpNLoop : List Char → List Char → Int → Option Int
  | a :: src, b :: desc, n =>
    let ret : Int := a.toNat - b.toNat
    if ret ≠ 0 ∧ swapped a ≠ some b then some ret
    else if a = '\x00' then some ret
    else if n - 1 ≤ 0 then some ret
    else stricmpNLoop src desc (n - 1)
  | _, _, _ => none

def ndstricmpN (src desc : CString) (n : Int) : Option Int :=
  stricmpNLoop src.chars desc.chars n

/-- The inner loop of `ndstristr`: the value it leaves in `ret`. -/
def aidLoop : List Char → List Char → Int → Option Int
  | tmp, sought :: aid, ret =>
    if sought = '\x00' then some ret
    else
      match tmp with
      | [] => none
      | c :: tmp =>
        let ret : Int := c.toNat - sought.toNat
        if ret ≠ 0 ∧ swapped c ≠ some sought then some ret
        else aidLoop tmp aid 0
  | _, [], _ => none

/-- The outer loop of `ndstristr`: the offset it returns, or `none` for
`NULL`. -/
def stristrLoop (desc : List Char) : List Char → Int → Option (Option Nat)
  | [], _ => none
  | c :: src, ret =>
    if c = '\x00' then some none
    else do
      let ret ← aidLoop (c :: src) desc ret
      if ret = 0 then some (some 0)
      else (stristrLoop desc src ret).map (Option.map (· + 1))

def ndstristr (src desc : CString) : Option (Option Nat) :=
  stristrLoop desc.chars src.chars 0

end Loops

section Folding

variable (c d : Char)

theorem toNat_ofNat_small {n : Nat} (small : n < 0xd800) :
    (Char.ofNat n).toNat = n := by
  rw [Char.ofNat, dif_pos (.inl small)]
  rfl

theorem bigLatin_iff : bigLatin c = true ↔ 65 ≤ c.toNat ∧ c.toNat ≤ 90 := by
  rw [bigLatin, Bool.and_eq_true, decide_eq_true_iff, decide_eq_true_iff]
  exact Iff.rfl

theorem littleLatin_iff :
    littleLatin c = true ↔ 97 ≤ c.toNat ∧ c.toNat ≤ 122 := by
  rw [littleLatin, Bool.and_eq_true, decide_eq_true_iff, decide_eq_true_iff]
  exact Iff.rfl

theorem toNat_toLower : c.toLower.toNat =
    if 65 ≤ c.toNat ∧ c.toNat ≤ 90 then c.toNat + 32 else c.toNat := by
  by_cases big : 65 ≤ c.toNat ∧ c.toNat ≤ 90
  · have value : c.toLower = Char.ofNat (c.toNat + 32) := by
      have range : c.val ≥ 'A'.val ∧ c.val ≤ 'Z'.val := big
      apply Char.ext
      delta Char.toLower
      rw [dif_pos range]
      apply UInt32.toNat_inj.mp
      have sum := toNat_ofNat_small (n := c.toNat + 32) (by omega)
      rw [Char.toNat] at sum
      rw [sum, UInt32.toNat_add]
      have bounded : c.val.toNat ≤ 90 := big.2
      exact Nat.mod_eq_of_lt (by
        have step : ('a'.val - 'A'.val).toNat = 32 := by decide
        omega)
    rw [if_pos big, value, toNat_ofNat_small (by omega)]
  · have range : ¬ (c.val ≥ 'A'.val ∧ c.val ≤ 'Z'.val) := big
    delta Char.toLower
    rw [if_neg big, dif_neg range]

theorem toNat_folded : (folded c).toNat =
    if 97 ≤ c.toNat ∧ c.toNat ≤ 122 then c.toNat - 32 else c.toNat := by
  by_cases little : 97 ≤ c.toNat ∧ c.toNat ≤ 122
  · rw [folded, if_pos ((littleLatin_iff c).mpr little), if_pos little,
      toNat_ofNat_small (by omega)]
  · rw [folded, if_neg fun is => little ((littleLatin_iff c).mp is),
      if_neg little]

theorem folded_eq_iff : folded c = folded d ↔ c.toLower = d.toLower := by
  rw [← Char.toNat_inj, ← Char.toNat_inj, toNat_folded, toNat_folded,
    toNat_toLower, toNat_toLower]
  split_ifs <;> omega

theorem folded_eq_nul_iff : (folded c).toNat = 0 ↔ c = '\x00' := by
  rw [← Char.toNat_inj, toNat_folded]
  have nul : '\x00'.toNat = 0 := by rfl
  split_ifs <;> omega

/-- Characters are equal to `ndstricmp_n` and `ndstristr`, as they stand or
with the case of the first one changed, exactly if their small forms are. -/
theorem swapped_eq_iff :
    (c = d ∨ swapped c = some d) ↔ c.toLower = d.toLower := by
  rw [← Char.toNat_inj (c := c.toLower), toNat_toLower, toNat_toLower,
    ← Char.toNat_inj (c := c)]
  by_cases big : 65 ≤ c.toNat ∧ c.toNat ≤ 90
  · rw [swapped, if_pos ((bigLatin_iff c).mpr big), Option.some_inj,
      ← Char.toNat_inj, toNat_ofNat_small (by omega)]
    split_ifs <;> omega
  · have notBig : ¬ bigLatin c = true := fun is => big ((bigLatin_iff c).mp is)
    by_cases little : 97 ≤ c.toNat ∧ c.toNat ≤ 122
    · rw [swapped, if_neg notBig, if_pos ((littleLatin_iff c).mpr little),
        Option.some_inj, ← Char.toNat_inj, toNat_ofNat_small (by omega)]
      split_ifs <;> omega
    · rw [swapped, if_neg notBig,
        if_neg fun is => little ((littleLatin_iff c).mp is)]
      simp only [reduceCtorEq, or_false]
      split_ifs <;> omega

theorem swapped_ne_nul : swapped c ≠ some '\x00' := by
  intro same
  have nul : ('\x00' : Char).toLower.toNat = 0 := by rfl
  have small := (swapped_eq_iff c '\x00').mp (.inr same)
  have zero : c.toLower.toNat = 0 := by rw [small, nul]
  rw [toNat_toLower] at zero
  have value : c.toNat = 0 := by
    split_ifs at zero with big
    exact zero
  have isNul : c = '\x00' := Char.toNat_inj.mp value
  rw [isNul] at same
  simp [swapped, bigLatin, littleLatin] at same

end Folding

section Compare

@[simp] theorem foldCase_cons (c : Char) (text : List Char) :
    foldCase (c :: text) = c.toLower :: foldCase text :=
  map_cons

@[simp] theorem foldCase_nil : foldCase [] = [] :=
  map_nil

variable {word name : List Char}

/-- The loop of `ndstricmp` ends in front of both NULs, with zero for texts
that are equal but for the case. -/
theorem stricmpLoop_spec (plain : '\x00' ∉ word) (other : '\x00' ∉ name) :
    ∃ ret, stricmpLoop (word ++ ['\x00']) (name ++ ['\x00']) = some ret ∧
      (ret = 0 ↔ foldCase word = foldCase name) := by
  have nul : (folded '\x00').toNat = 0 := by rfl
  induction word generalizing name with
  | nil =>
    cases name with
    | nil => exact ⟨0, rfl, by simp⟩
    | cons b name =>
      have differs : (folded b).toNat ≠ 0 := fun zero =>
        other ((folded_eq_nul_iff b).mp zero ▸ mem_cons_self)
      refine ⟨-(folded b).toNat, ?_, by simp [differs]⟩
      simp [stricmpLoop, nul, differs]
  | cons a word induction =>
    rw [mem_cons, not_or] at plain
    have differs : (folded a).toNat ≠ 0 := fun zero =>
      plain.1 ((folded_eq_nul_iff a).mp zero).symm
    cases name with
    | nil =>
      refine ⟨(folded a).toNat, ?_, by simp [differs]⟩
      simp [stricmpLoop, nul, differs]
    | cons b name =>
      rw [mem_cons, not_or] at other
      have first : ((folded a).toNat : Int) - (folded b).toNat = 0 ↔
          a.toLower = b.toLower := by
        rw [← folded_eq_iff, ← Char.toNat_inj]
        omega
      by_cases same : a.toLower = b.toLower
      · obtain ⟨ret, looped, zero⟩ := induction plain.2 other.2
        refine ⟨ret, ?_, by simp [same, zero]⟩
        simp [stricmpLoop, first.mpr same, Ne.symm plain.1, looped]
      · refine ⟨_, ?_, first.trans (by simp [same])⟩
        exact if_pos fun zero => same (first.mp zero)

theorem differ_iff (a b : Char) :
    ((a.toNat : Int) - b.toNat ≠ 0 ∧ swapped a ≠ some b) ↔
      ¬ a.toLower = b.toLower := by
  have equal : (a.toNat : Int) - b.toNat = 0 ↔ a = b := by
    rw [← Char.toNat_inj]
    omega
  rw [← swapped_eq_iff, not_or, Ne, equal]

theorem toLower_ne_nul {c : Char} (visible : c ≠ '\x00') :
    ¬ c.toLower = ('\x00' : Char).toLower := by
  rw [← swapped_eq_iff, not_or]
  exact ⟨visible, swapped_ne_nul c⟩

/-- The same for `ndstricmp_n`.  The difference of the last pair of characters
compared is what it returns, even if the two are taken for one. -/
theorem stricmpNLoop_spec (plain : '\x00' ∉ word) (other : '\x00' ∉ name)
    (n : Nat) :
    ∃ ret, stricmpNLoop (word ++ ['\x00']) (name ++ ['\x00'])
        ((n + 1 : Nat) : Int) = some ret ∧
      (ret = 0 ↔
        foldCase (word.take (n + 1)) = foldCase (name.take (n + 1)) ∧
          (n < word.length → word[n]? = name[n]?)) := by
  induction word generalizing name n with
  | nil =>
    cases name with
    | nil => exact ⟨0, rfl, by simp⟩
    | cons b name =>
      rw [mem_cons, not_or] at other
      have differs := (differ_iff '\x00' b).mpr
        (Ne.symm (toLower_ne_nul (Ne.symm other.1)))
      exact ⟨_, if_pos differs, by simpa using differs.1⟩
  | cons a word induction =>
    rw [mem_cons, not_or] at plain
    cases name with
    | nil =>
      have differs := (differ_iff a '\x00').mpr
        (toLower_ne_nul (Ne.symm plain.1))
      exact ⟨_, if_pos differs, by simpa using differs.1⟩
    | cons b name =>
      rw [mem_cons, not_or] at other
      by_cases same : a.toLower = b.toLower
      · have alike := fun differs => (differ_iff a b).mp differs same
        cases n with
        | zero =>
          refine ⟨(a.toNat : Int) - b.toNat, ?_, ?_⟩
          · simp only [cons_append, stricmpNLoop, if_neg alike]
            simp
          · have equal : (a.toNat : Int) - b.toNat = 0 ↔ a = b := by
              rw [← Char.toNat_inj]
              omega
            simp [equal, same]
        | succ n =>
          obtain ⟨ret, looped, zero⟩ := induction plain.2 other.2 n
          have less : ((n + 1 + 1 : Nat) : Int) - 1 = (n + 1 : Nat) := by
            omega
          refine ⟨ret, ?_, by simp [zero, same]⟩
          simp only [cons_append, stricmpNLoop, if_neg alike, less,
            if_neg (Ne.symm plain.1), looped]
          exact if_neg (by omega)
      · have differs := (differ_iff a b).mpr same
        refine ⟨_, if_pos differs, ?_⟩
        simp [differs.1, same]

end Compare

section Search

/-- `desc` occurs in `src` at an offset, under the folding. -/
def OccursAt (src desc : List Char) (offset : Nat) : Prop :=
  foldCase desc <+: foldCase (src.drop offset)

instance (src desc : List Char) (offset : Nat) :
    Decidable (OccursAt src desc offset) :=
  inferInstanceAs (Decidable (_ <+: _))

variable {src desc : List Char}

/-- The inner loop of `ndstristr` leaves zero exactly if `desc` begins what is
left of `src`.  The value that it finds in `ret` only matters for an empty
`desc`. -/
theorem aidLoop_spec (plain : '\x00' ∉ src) (other : '\x00' ∉ desc) (ret : Int)
    (given : desc = [] → ret = 0) :
    ∃ value, aidLoop (src ++ ['\x00']) (desc ++ ['\x00']) ret = some value ∧
      (value = 0 ↔ foldCase desc <+: foldCase src) := by
  induction desc generalizing src ret with
  | nil =>
    refine ⟨ret, ?_, by simp [given]⟩
    rw [nil_append, aidLoop.eq_def]
    exact if_pos rfl
  | cons b desc induction =>
    rw [mem_cons, not_or] at other
    cases src with
    | nil =>
      have differs := (differ_iff '\x00' b).mpr
        (Ne.symm (toLower_ne_nul (Ne.symm other.1)))
      refine ⟨('\x00'.toNat : Int) - b.toNat, ?_, ?_⟩
      · simp only [cons_append, nil_append, aidLoop, if_neg (Ne.symm other.1)]
        exact if_pos differs
      · simpa using differs.1
    | cons a src =>
      rw [mem_cons, not_or] at plain
      simp only [cons_append, aidLoop, if_neg (Ne.symm other.1),
        foldCase_cons, cons_prefix_cons]
      by_cases same : a.toLower = b.toLower
      · obtain ⟨value, looped, zero⟩ :=
          induction plain.2 other.2 0 (fun _ => rfl)
        refine ⟨value, ?_, by simp [zero, same]⟩
        rw [if_neg fun differs => (differ_iff a b).mp differs same, looped]
      · have differs := (differ_iff a b).mpr same
        exact ⟨_, if_pos differs, by simp [differs.1, Ne.symm same]⟩

theorem occursAt_zero : OccursAt src desc 0 ↔ foldCase desc <+: foldCase src := by
  rw [OccursAt, drop_zero]

/-- The outer loop of `ndstristr` returns the first offset at which `desc`
occurs. -/
theorem stristrLoop_spec (plain : '\x00' ∉ src) (other : '\x00' ∉ desc)
    (nonempty : desc ≠ []) (ret : Int) :
    ∃ found, stristrLoop (desc ++ ['\x00']) (src ++ ['\x00']) ret = some found ∧
      (found = none → ∀ q, ¬ OccursAt src desc q) ∧
      ∀ p, found = some p → OccursAt src desc p ∧
        ∀ q < p, ¬ OccursAt src desc q := by
  induction src generalizing ret with
  | nil =>
    refine ⟨none, by simp [stristrLoop], ?_, by simp⟩
    intro _ q
    simpa [OccursAt, foldCase] using nonempty
  | cons c src induction =>
    obtain ⟨value, looped, zero⟩ :=
      aidLoop_spec plain other ret (fun empty => (nonempty empty).elim)
    rw [mem_cons, not_or] at plain
    have turn : stristrLoop (desc ++ ['\x00']) (c :: src ++ ['\x00']) ret =
        if value = 0 then some (some 0)
        else (stristrLoop (desc ++ ['\x00']) (src ++ ['\x00']) value).map
          (Option.map (· + 1)) := by
      rw [cons_append] at looped ⊢
      rw [stristrLoop, if_neg (Ne.symm plain.1), looped]
      rfl
    by_cases here : value = 0
    · refine ⟨some 0, by rw [turn, if_pos here], by simp, ?_⟩
      intro p same
      cases same
      exact ⟨zero.mp here, fun q before => absurd before (Nat.not_lt_zero q)⟩
    · obtain ⟨found, later, absent, first⟩ := induction plain.2 value
      have notHere : ¬ OccursAt (c :: src) desc 0 := fun occurs =>
        here (zero.mpr occurs)
      refine ⟨found.map (· + 1), ?_, ?_, ?_⟩
      · rw [turn, if_neg here, later, Option.map_some]
      · intro null q
        cases q with
        | zero => exact notHere
        | succ q => exact absent (Option.map_eq_none_iff.mp null) q
      · intro p same
        obtain ⟨p, before, rfl⟩ := Option.map_eq_some_iff.mp same
        refine ⟨(first p before).1, ?_⟩
        intro q less
        cases q with
        | zero => exact notHere
        | succ q => exact (first p before).2 q (Nat.lt_of_succ_lt_succ less)

end Search

section Law

/-- The three functions against the reference.  Each returns, and so reads
neither string behind its NUL. -/
structure FoldsCase (a b : CString) (n : Nat) : Prop where
  icmp : ∃ ret, ndstricmp a b = some ret ∧
    (ret = 0 ↔ foldCase a.text = foldCase b.text)
  icmpN : ∃ ret, ndstricmpN a b n = some ret ∧
    (ret = 0 ↔ foldCase (a.text.take n) = foldCase (b.text.take n))
  istr : b.text ≠ [] → ∃ found, ndstristr a b = some found ∧
    (found = none → ∀ q, ¬ OccursAt a.text b.text q) ∧
    ∀ p, found = some p → OccursAt a.text b.text p ∧
      ∀ q < p, ¬ OccursAt a.text b.text q

/-- If the first `n` characters are alike but for the case, and neither string
ends within them, the last two of them are the same. -/
def LastAgrees (a b : CString) (n : Nat) : Prop :=
  foldCase (a.text.take n) = foldCase (b.text.take n) →
    n ≤ a.text.length → a.text[n - 1]? = b.text[n - 1]?

instance (a b : CString) (n : Nat) : Decidable (LastAgrees a b n) :=
  inferInstanceAs (Decidable (_ → _ → _))

/-- `ndstricmp` and `ndstristr` do what they are for; `ndstricmp_n` does
exactly if the last two characters it compares do not differ in case only. -/
theorem foldsCase_iff (a b : CString) (n : Nat) (positive : 1 ≤ n) :
    FoldsCase a b n ↔ LastAgrees a b n := by
  obtain ⟨n, rfl⟩ := Nat.exists_eq_add_of_le' positive
  obtain ⟨ret, compared, zero⟩ := stricmpNLoop_spec a.noNul b.noNul n
  constructor
  · intro folds alike inside
    obtain ⟨other, returned, meaning⟩ := folds.icmpN
    obtain rfl := Option.some.inj (compared.symm.trans returned)
    exact (zero.mp (meaning.mpr alike)).2 inside
  · intro agrees
    refine ⟨stricmpLoop_spec a.noNul b.noNul, ⟨ret, compared, ?_⟩,
      fun nonempty => stristrLoop_spec a.noNul b.noNul nonempty 0⟩
    constructor
    · intro isZero
      exact (zero.mp isZero).1
    · intro alike
      exact zero.mpr ⟨alike, agrees alike⟩

/-- The start of `GEt /` is taken for `get`, as its third letter is a small
one. -/
theorem foldsCase_get :
    1 ≤ 3 ∧ FoldsCase ⟨"GEt /".toList, by decide⟩ ⟨"get".toList, by decide⟩ 3 :=
  ⟨by decide, (foldsCase_iff _ _ 3 (by decide)).mpr (by decide)⟩

/-- `ndstricmp_n("A", "a", 1)` is -32. -/
theorem letter_not_foldsCase :
    ¬ FoldsCase ⟨['A'], by decide⟩ ⟨['a'], by decide⟩ 1 := by
  intro folds
  obtain ⟨ret, returned, meaning⟩ := folds.icmpN
  have value : ndstricmpN ⟨['A'], by decide⟩ ⟨['a'], by decide⟩ 1 =
      some (-32) := by rfl
  have alike : foldCase (['A'].take 1) = foldCase (['a'].take 1) := by decide
  have zero : ret = 0 := meaning.mpr alike
  rw [zero] at returned
  exact absurd (returned.symm.trans value) (by decide)

end Law

end CString

end NdNet.Str
