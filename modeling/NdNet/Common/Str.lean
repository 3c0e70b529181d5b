import Mathlib.Data.List.Basic

/-!
# The scanners of `nd_str.c`

A C string is modelled by the characters in front of its terminating NUL, and a
`char` by the Lean character with its code.  A scanner returns what it has
copied and where it stopped.  A null pointer is `none`; so is the result of a
scanner that runs past the end of its text.
-/

namespace NdNet.Str

open List

/-- A test of the characters of a word looks at no others. -/
instance (priority := high) decidableForallMem (word : List Char)
    (p : Char → Prop) [DecidablePred p] : Decidable (∀ c ∈ word, p c) :=
  List.decidableBAll p word

instance (priority := high) decidableForallMemOption (found : Option Char)
    (p : Char → Prop) [DecidablePred p] : Decidable (∀ c ∈ found, p c) :=
  match found with
  | none => .isTrue fun _ member => nomatch member
  | some c => decidable_of_iff (p c)
      ⟨fun holds _ same => Option.some.inj same ▸ holds, fun all => all c rfl⟩

/-- `IS_NUMERALS` -/
def numeral (c : Char) : Bool :=
  '0' ≤ c && c ≤ '9'

def bigLatin (c : Char) : Bool :=
  'A' ≤ c && c ≤ 'Z'

def littleLatin (c : Char) : Bool :=
  'a' ≤ c && c ≤ 'z'

/-- A character as `ndstricmp` compares it. -/
def folded (c : Char) : Char :=
  if littleLatin c then Char.ofNat (c.toNat - 0x20) else c

def stricmp : List Char → List Char → Int
  | [], [] => 0
  | [], b :: _ => -(folded b).toNat
  | a :: _, [] => (folded a).toNat
  | a :: left, b :: right =>
    let ret : Int := (folded a).toNat - (folded b).toNat
    if ret ≠ 0 then ret else stricmp left right

theorem stricmp_self (text : List Char) : stricmp text text = 0 := by
  induction text with
  | nil => rfl
  | cons c text induction =>
    rw [stricmp]
    simp [induction]

/-- The other letter of the two that `ndstricmp_n` and `ndstristr` take for
one. -/
def swapped (c : Char) : Option Char :=
  if bigLatin c then some (Char.ofNat (c.toNat + 0x20))
  else if littleLatin c then some (Char.ofNat (c.toNat - 0x20))
  else none

/-- `ndstricmp_n`, for a positive `n`; the difference of two letters that are
taken for one is not forgotten if they are the last. -/
def stricmpN : List Char → List Char → Nat → Int
  | [], desc, _ => -(desc.headD '\x00').toNat
  | a :: src, desc, n =>
    let b := desc.headD '\x00'
    let ret : Int := a.toNat - b.toNat
    if ret ≠ 0 ∧ swapped a ≠ some b then ret
    else if n ≤ 1 then ret
    else stricmpN src desc.tail (n - 1)

/-- The inner loop of `ndstristr`. -/
def beginsLike : List Char → List Char → Bool
  | [], _ => true
  | _ :: _, [] => false
  | aid :: desc, c :: tmp =>
    (c == aid || swapped c == some aid) && beginsLike desc tmp

def stristr : List Char → List Char → Option (List Char)
  | [], _ => none
  | c :: src, desc =>
    if beginsLike desc (c :: src) then some (c :: src) else stristr src desc

def firstValid : List Char → Option (List Char)
  | [] => none
  | c :: rest => if c ≤ ' ' then firstValid rest else some (c :: rest)

/-- `__s_code_type` -/
inductive CodeType where
  | ansi
  | gbk
  | utf8
  deriving DecidableEq, Repr

/-- The number of bytes `_read_word` copies. -/
def wordSize (code : CodeType) (c : Char) : Nat :=
  match code with
  | .ansi => 1
  | .gbk => if 0x80 < c.toNat then 2 else 1
  | .utf8 =>
    if 0x80 < c.toNat then
      if 240 ≤ c.toNat then 4
      else if 224 ≤ c.toNat then 3
      else if 192 ≤ c.toNat then 2
      else 1
    else 1

theorem wordSize_pos (code : CodeType) (c : Char) : 0 < wordSize code c := by
  cases code with
  | ansi => exact Nat.one_pos
  | gbk =>
    simp only [wordSize]
    split <;> omega
  | utf8 =>
    simp only [wordSize]
    split_ifs <;> omega

/-- The loop of the scanners: copy characters of `size` bytes until one that
stops the scanner, or until the budget of a bounded scanner is used up.
`pending` bytes of the current character are still to be copied. -/
def scan (size : Char → Nat) (stop : Char → Bool) :
    Option Int → Nat → List Char → Option (List Char × List Char)
  | _, 0, [] => some ([], [])
  | _, _ + 1, [] => none
  | budget, pending + 1, c :: rest =>
    (scan size stop budget pending rest).map fun found =>
      (c :: found.1, found.2)
  | budget, 0, c :: rest =>
    if budget.any (· ≤ 0) || stop c then some ([], c :: rest)
    else
      (scan size stop (budget.map (· - size c)) (size c - 1) rest).map
        fun found => (c :: found.1, found.2)

/-- A pointer that is replaced by `NULL` at the end of the text. -/
def notAtEnd (text : List Char) : Option (List Char) :=
  if text.isEmpty then none else some text

/-- The characters of a word: `plain` ones and, unless the text is plain ANSI,
those behind 0x80. -/
def wordStop (code : CodeType) (plain : Char → Bool) (c : Char) : Bool :=
  !(plain c || code != .ansi && decide (0x80 < c.toNat))

def wordBytes (code : CodeType) (plain : Char → Bool) (c : Char) : Nat :=
  if plain c then 1 else wordSize code c

def parseWord (code : CodeType) (text : List Char) :
    Option (List Char × Option (List Char)) :=
  let plain c := numeral c || bigLatin c || littleLatin c ||
    c == '_' || c == '$' || c == '@'
  (scan (wordBytes code plain) (wordStop code plain) none 0 text).map
    fun found => (found.1, notAtEnd found.2)

def parseWordN (code : CodeType) (text : List Char) (n : Int) :
    Option (List Char × Option (List Char)) :=
  let plain c := numeral c || bigLatin c || littleLatin c ||
    c == '_' || c == '.'
  (scan (wordBytes code plain) (wordStop code plain) (some n) 0 text).map
    fun found => (found.1, notAtEnd found.2)

/-- The characters of `ndstr_parse_variant_n`; `.` is one of them, and not one
of `ndstr_parse_word`. -/
def variantPlain (c : Char) : Bool :=
  numeral c || bigLatin c || littleLatin c || c == '_' || c == '.' || c == '$'

/-- `ndstr_parse_variant_n`: what it returns, what it has copied and where it
stopped. -/
def parseVariantN (code : CodeType) (text : List Char) (n : Int) :
    Option (Int × List Char × List Char) :=
  (scan (wordBytes code variantPlain) (wordStop code variantPlain)
    (some n) 0 text).map fun found =>
      let refused := found.1.isEmpty && !text.isEmpty && decide (0 < n)
      (if refused then -1 else (found.1.length : Int), found.1, found.2)

/-- `ndstr_read_utf8char`: the bytes of the first character and the text behind
them. -/
def readUtf8char (code : CodeType) :
    List Char → Option (List Char × List Char)
  | [] => none
  | c :: rest =>
    if rest.length < wordSize code c - 1 then none
    else some (c :: rest.take (wordSize code c - 1),
      rest.drop (wordSize code c - 1))

def nstrAnsi (final : Char) : Nat → List Char → List Char × List Char
  | 0, text => ([], text)
  | _ + 1, [] => ([], [])
  | n + 1, c :: rest =>
    if c = final then ([], c :: rest)
    else
      let found := nstrAnsi final n rest
      (c :: found.1, found.2)

theorem nstrAnsi_length (final : Char) (n : Nat) (text : List Char) :
    (nstrAnsi final n text).2.length ≤ text.length := by
  induction n generalizing text with
  | zero => exact Nat.le_refl _
  | succ n induction =>
    cases text with
    | nil => exact Nat.le_refl _
    | cons c text =>
      rw [nstrAnsi]
      split
      · exact Nat.le_refl _
      · exact Nat.le_succ_of_le (induction text)

def strchr (text : List Char) (c : Char) : Option (List Char) :=
  notAtEnd (text.dropWhile (· != c))

variable {c : Char}

theorem strchr_length {text mark : List Char}
    (found : strchr text c = some mark) :
    mark.length ≤ text.length ∧ mark ≠ [] := by
  unfold strchr notAtEnd at found
  split at found
  · cases found
  · rename_i more
    cases found
    refine ⟨(dropWhile_sublist _).length_le, ?_⟩
    intro none
    rw [none] at more
    exact more rfl

def strstr (sought : List Char) : List Char → Option (List Char)
  | [] => if sought.isEmpty then some [] else none
  | c :: rest =>
    if sought.isPrefixOf (c :: rest) then some (c :: rest)
    else strstr sought rest

theorem strstr_split {sought text found : List Char}
    (search : strstr sought text = some found) :
    found <:+ text ∧ sought <+: found := by
  induction text with
  | nil =>
    rw [strstr] at search
    split at search
    · rename_i empty
      cases search
      rw [List.isEmpty_iff.mp empty]
      exact ⟨suffix_rfl, prefix_rfl⟩
    · cases search
  | cons c text induction =>
    rw [strstr] at search
    split at search
    · rename_i begins
      cases search
      exact ⟨suffix_rfl, List.isPrefixOf_iff_prefix.mp begins⟩
    · obtain ⟨ends, begins⟩ := induction search
      exact ⟨ends.trans (suffix_cons c text), begins⟩

def strEnd (code : CodeType) (text : List Char) (final : Char) :
    Option (List Char × List Char) :=
  scan (wordSize code) (· == final) none 0 text

def nstrEnd (code : CodeType) (text : List Char) (final : Char) (n : Int) :
    Option (List Char × List Char) :=
  scan (wordSize code) (· == final) (some n) 0 text

def bcdIndex (c : Char) : Option Nat :=
  "0123456789abcdef".toList.idxOf?
    (if bigLatin c then Char.ofNat (c.toNat + 0x20) else c)

/-- The text behind `0x` or `0X`. -/
def hexDigits : List Char → Option (List Char)
  | '0' :: 'x' :: rest => some rest
  | '0' :: 'X' :: rest => some rest
  | _ => none

/-- The loop of `ndstr_is_numerals`; `dot` counts the dots, `ret` says whether
there has been a digit. -/
def numeralsFrom : Nat → Bool → List Char → Bool
  | _, ret, [] => ret
  | dot, ret, c :: rest =>
    if numeral c then numeralsFrom dot true rest
    else if c = '.' then
      if 1 < dot + 1 then false else numeralsFrom (dot + 1) ret rest
    else false

/-- `ndstr_is_numerals`; it follows a null pointer if the text is blank. -/
def isNumerals (text : List Char) : Option Bool :=
  match hexDigits text with
  | some digits => some (digits.all fun c => (bcdIndex c).isSome)
  | none =>
    (firstValid text).map fun
      | '-' :: rest => numeralsFrom 0 false rest
      | c :: rest => numeral c && numeralsFrom 0 true rest
      | [] => false

/-- `ndstr_is_naturalnumber`; it follows a null pointer if the text is
blank. -/
def isNaturalnumber (text : List Char) : Option Bool :=
  (firstValid text).map fun src =>
    match hexDigits src with
    | some digits => digits.all fun c => (bcdIndex c).isSome
    | none =>
      match src with
      | '+' :: rest => rest.all numeral
      | c :: rest => numeral c && rest.all numeral
      | [] => false

/-- What `ndstr_read_numerals` finds. -/
structure NumeralRead where
  isOk : Bool
  desc : List Char
  next : List Char
  deriving DecidableEq, Repr

namespace NumeralRead

def copy (c : Char) (found : NumeralRead) : NumeralRead :=
  { found with desc := c :: found.desc }

end NumeralRead

/-- The loop of `ndstr_read_numerals`. -/
def readNumeralsFrom : Nat → Bool → List Char → NumeralRead
  | _, isOk, [] => ⟨isOk, [], []⟩
  | dot, isOk, c :: rest =>
    if numeral c then (readNumeralsFrom dot true rest).copy c
    else if c = '.' then
      if 1 < dot + 1 then ⟨false, [], c :: rest⟩
      else (readNumeralsFrom (dot + 1) isOk rest).copy c
    else ⟨isOk, [], c :: rest⟩

/-- `ndstr_read_numerals` of a text that is not blank; a dot in front gets a
zero. -/
def readNumerals (text : List Char) : Option NumeralRead :=
  (firstValid text).map fun
    | [] => ⟨false, [], []⟩
    | c :: rest =>
      if c = '-' || c = '+' then (readNumeralsFrom 0 false rest).copy c
      else if c = '.' then
        ((readNumeralsFrom 1 false rest).copy c).copy '0'
      else if numeral c then (readNumeralsFrom 0 true rest).copy c
      else ⟨false, [], c :: rest⟩

def decimal (text : List Char) : Nat :=
  (text.takeWhile numeral).foldl
    (fun value c => 10 * value + (c.toNat - '0'.toNat)) 0

/-- `atoi`; the value is that of the number, whatever its size. -/
def atoi (text : List Char) : Int :=
  match text.dropWhile fun c => c = ' ' || '\t' ≤ c && c ≤ '\r' with
  | '-' :: rest => -(decimal rest)
  | '+' :: rest => decimal rest
  | rest => decimal rest

def atoiHex (text : List Char) : Int :=
  match hexDigits text with
  | some digits =>
    ((digits.mapM bcdIndex).map fun values =>
      values.foldl
        (fun value index => (16 * value + index) % 0x10000000000000000)
        0).getD 0
  | none => atoi text

variable {size : Char → Nat} {budget : Option Int} {stop : Char → Bool}

section Scanners

theorem firstValid_append {blank : List Char} (spaces : ∀ c ∈ blank, c ≤ ' ')
    (text : List Char) : firstValid (blank ++ text) = firstValid text := by
  induction blank with
  | nil => rfl
  | cons c blank induction =>
    obtain ⟨space, others⟩ := forall_mem_cons.mp spaces
    rw [cons_append, firstValid, if_pos space, induction others]

theorem firstValid_cons (visible : ¬ c ≤ ' ') (rest : List Char) :
    firstValid (c :: rest) = some (c :: rest) := by
  rw [firstValid, if_neg visible]

attribute [local simp] scan in
theorem scan_append {word rest : List Char}
    (inside : ∀ c ∈ word, stop c = false ∧ size c = 1)
    (enough : ∀ n ∈ budget, (word.length : Int) ≤ n)
    (ends : ∀ c ∈ rest.head?, stop c = true) :
    scan size stop budget 0 (word ++ rest) = some (word, rest) := by
  induction word generalizing budget with
  | nil =>
    cases rest with
    | nil => rfl
    | cons c rest =>
      rw [nil_append, scan, ends c rfl, Bool.or_true, if_pos rfl]
  | cons c word induction =>
    obtain ⟨⟨goes, single⟩, others⟩ := forall_mem_cons.mp inside
    have left : budget.any (· ≤ 0) = false := by
      cases budget with
      | none => rfl
      | some n =>
        have := enough n rfl
        rw [length_cons] at this
        exact decide_eq_false (by omega)
    have less : ∀ n ∈ budget.map (· - (size c : Int)),
        (word.length : Int) ≤ n := by
      intro n member
      obtain ⟨before, present, same⟩ := Option.map_eq_some_iff.mp member
      have := enough before present
      rw [length_cons] at this
      omega
    rw [cons_append, scan, left, goes, Bool.or_false,
      if_neg Bool.false_ne_true, show size c - 1 = 0 by omega,
      induction others less]
    rfl

theorem scan_whole_cons {word : List Char}
    (whole : scan size stop budget 0 (c :: word) = some (c :: word, [])) :
    stop c = false ∧
      scan size stop (budget.map (· - (size c : Int))) (size c - 1) word =
        some (word, []) := by
  rw [scan] at whole
  by_cases stops : (budget.any (· ≤ 0) || stop c) = true
  · rw [if_pos stops] at whole
    cases whole
  · rw [if_neg stops] at whole
    obtain ⟨found, scanned, same⟩ := Option.map_eq_some_iff.mp whole
    obtain ⟨copied, stopped⟩ := Prod.mk.inj same
    refine ⟨?_, ?_⟩
    · exact (Bool.or_eq_false_iff.mp (Bool.eq_false_iff.mpr stops)).2
    · rw [scanned, ← (cons.inj copied).2, ← stopped]

theorem scan_whole_pending {word : List Char} {pending : Nat}
    (whole : scan size stop budget (pending + 1) (c :: word) =
      some (c :: word, [])) :
    scan size stop budget pending word = some (word, []) := by
  obtain ⟨found, scanned, same⟩ := Option.map_eq_some_iff.mp whole
  obtain ⟨copied, stopped⟩ := Prod.mk.inj same
  rw [scanned, ← (cons.inj copied).2, ← stopped]

theorem scan_whole {word rest : List Char} {pending : Nat}
    (whole : scan size stop budget pending word = some (word, []))
    (ends : ∀ c ∈ rest.head?, stop c = true) :
    scan size stop budget pending (word ++ rest) = some (word, rest) := by
  induction word generalizing budget pending with
  | nil =>
    cases pending with
    | succ pending => cases whole
    | zero =>
      cases rest with
      | nil => rfl
      | cons c rest =>
        rw [nil_append, scan, ends c rfl, Bool.or_true, if_pos rfl]
  | cons c word induction =>
    cases pending with
    | succ pending =>
      rw [cons_append, scan, induction (scan_whole_pending whole)]
      rfl
    | zero =>
      have stops : (budget.any (· ≤ 0) || stop c) = false := by
        by_contra other
        rw [scan, if_pos (eq_true_of_ne_false other)] at whole
        cases whole
      rw [cons_append, scan, stops, if_neg Bool.false_ne_true,
        induction (scan_whole_cons whole).2]
      rfl

theorem stricmp_congr {word other : List Char}
    (same : word.map folded = other.map folded) (name : List Char) :
    stricmp word name = stricmp other name ∧
      stricmp name word = stricmp name other := by
  induction word generalizing other name with
  | nil =>
    rw [map_eq_nil_iff.mp same.symm]
    exact ⟨rfl, rfl⟩
  | cons c word induction =>
    obtain ⟨d, later, rfl, first, rest⟩ := map_eq_cons_iff.mp same.symm
    cases name with
    | nil => simp only [stricmp, first, and_self]
    | cons e name => simp only [stricmp, first, induction rest.symm, and_self]

end Scanners

section Numerals

attribute [local simp] readNumeralsFrom in
theorem readNumeralsFrom_split (dot : Nat) (isOk : Bool) (text : List Char) :
    (readNumeralsFrom dot isOk text).desc ++
      (readNumeralsFrom dot isOk text).next = text := by
  fun_induction readNumeralsFrom dot isOk text with
  | case1 => rfl
  | case2 dot isOk c rest digit induction => exact congrArg (c :: ·) induction
  | case3 => rfl
  | case4 dot isOk rest digit few induction =>
    exact congrArg ('.' :: ·) induction
  | case5 => rfl

theorem readNumeralsFrom_append {dot : Nat} {isOk : Bool}
    {text rest : List Char} (whole : (readNumeralsFrom dot isOk text).next = [])
    (ends : ∀ c ∈ rest.head?, numeral c = false ∧ c ≠ '.') :
    readNumeralsFrom dot isOk (text ++ rest) =
      { readNumeralsFrom dot isOk text with next := rest } := by
  fun_induction readNumeralsFrom dot isOk text with
  | case1 dot isOk =>
    cases rest with
    | nil => rfl
    | cons c rest =>
      obtain ⟨noDigit, noDot⟩ := ends c rfl
      rw [nil_append, readNumeralsFrom, noDigit,
        if_neg Bool.false_ne_true, if_neg noDot]
  | case2 dot isOk c text digit induction =>
    rw [cons_append, readNumeralsFrom, if_pos digit, induction whole]
    rfl
  | case3 => cases whole
  | case4 dot isOk text digit few induction =>
    rw [cons_append, readNumeralsFrom, if_neg digit, if_pos rfl,
      if_neg few, induction whole]
    rfl
  | case5 => cases whole

theorem readNumeralsFrom_digit {dot : Nat} {isOk : Bool} {text : List Char}
    (whole : (readNumeralsFrom dot isOk text).next = []) :
    readNumeralsFrom dot true text = ⟨true, text, []⟩ := by
  fun_induction readNumeralsFrom dot isOk text with
  | case1 => rfl
  | case2 dot isOk c text digit induction =>
    rw [readNumeralsFrom, if_pos digit, induction whole]
    rfl
  | case3 => cases whole
  | case4 dot isOk text digit few induction =>
    rw [readNumeralsFrom, if_neg digit, if_pos rfl, if_neg few, induction whole]
    rfl
  | case5 => cases whole

theorem readNumerals_cons (visible : ¬ c ≤ ' ') (rest : List Char) :
    readNumerals (c :: rest) = some
      (if c = '-' || c = '+' then (readNumeralsFrom 0 false rest).copy c
      else if c = '.' then ((readNumeralsFrom 1 false rest).copy c).copy '0'
      else if numeral c then (readNumeralsFrom 0 true rest).copy c
      else ⟨false, [], c :: rest⟩) := by
  rw [readNumerals, firstValid_cons visible]
  rfl

theorem readNumerals_append (visible : ¬ c ≤ ' ') {text copied rest : List Char}
    (reads : readNumerals (c :: text) = some ⟨true, copied, []⟩)
    (ends : ∀ c ∈ rest.head?, numeral c = false ∧ c ≠ '.') :
    readNumerals (c :: text ++ rest) = some ⟨true, copied, rest⟩ := by
  have behind : ∀ {dot : Nat} {isOk : Bool} {found : NumeralRead},
      readNumeralsFrom dot isOk text = found → found.next = [] →
      readNumeralsFrom dot isOk (text ++ rest) =
        { found with next := rest } := by
    intro dot isOk found reads whole
    subst reads
    exact readNumeralsFrom_append whole ends
  rw [readNumerals_cons visible] at reads
  rw [cons_append, readNumerals_cons visible]
  have found := Option.some.inj reads
  split at found
  · rename_i sign
    rw [if_pos sign, behind rfl (congrArg NumeralRead.next found)]
    exact congrArg (fun read => some { read with next := rest }) found
  · rename_i noSign
    rw [if_neg noSign]
    split at found
    · rename_i dot
      rw [if_pos dot, behind rfl (congrArg NumeralRead.next found)]
      exact congrArg (fun read => some { read with next := rest }) found
    · rename_i noDot
      rw [if_neg noDot]
      split at found
      · rename_i digit
        rw [if_pos digit, behind rfl (congrArg NumeralRead.next found)]
        exact congrArg (fun read => some { read with next := rest }) found
      · cases found

theorem readNumerals_copied (visible : ¬ c ≤ ' ') {text copied : List Char}
    (reads : readNumerals (c :: text) = some ⟨true, copied, []⟩) :
    readNumerals copied = some ⟨true, copied, []⟩ ∧
      ∃ first later, copied = first :: later ∧ (first = c ∨ first = '0') := by
  have copies : ∀ {dot : Nat} {isOk : Bool} {found : NumeralRead},
      readNumeralsFrom dot isOk text = found → found.next = [] →
      found.desc = text := by
    intro dot isOk found reads whole
    have split := readNumeralsFrom_split dot isOk text
    rw [reads, whole, append_nil] at split
    exact split
  have same := reads
  rw [readNumerals_cons visible] at reads
  have found := Option.some.inj reads
  split at found
  · rename_i sign
    have whole := congrArg NumeralRead.next found
    have desc := congrArg NumeralRead.desc found
    change c :: (readNumeralsFrom 0 false text).desc = copied at desc
    rw [copies rfl whole] at desc
    rw [← desc] at same ⊢
    exact ⟨same, c, text, rfl, .inl rfl⟩
  · split at found
    · rename_i dot
      have whole := congrArg NumeralRead.next found
      have desc := congrArg NumeralRead.desc found
      change '0' :: c :: (readNumeralsFrom 1 false text).desc = copied at desc
      rw [copies rfl whole] at desc
      rw [← desc]
      refine ⟨?_, '0', _, rfl, .inr rfl⟩
      rw [dot, readNumerals_cons (by decide), if_neg (by decide),
        if_neg (by decide), if_pos (by decide), readNumeralsFrom,
        if_neg (by decide), if_pos rfl, if_neg (by decide),
        readNumeralsFrom_digit whole]
      rfl
    · split at found
      · have whole := congrArg NumeralRead.next found
        have desc := congrArg NumeralRead.desc found
        change c :: (readNumeralsFrom 0 true text).desc = copied at desc
        rw [copies rfl whole] at desc
        rw [← desc] at same ⊢
        exact ⟨same, c, text, rfl, .inl rfl⟩
      · cases found

end Numerals

end NdNet.Str
