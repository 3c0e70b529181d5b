import NdNet.Common.XmlEscape

/-!
# Tags between the writer and the reader

A start tag is read with `ndstr_parse_variant_n`, an end tag with
`ndstr_parse_word`.  The two agree on every name without a dot; at a dot the
second one stops, and the node ends in an error.
-/

namespace NdNet.Xml

open NdNet.Str

/-- A name that `ndstr_parse_variant_n` accepts as a whole. -/
def Accepted (name : List Char) : Prop :=
  name ≠ [] ∧ parseVariantN .utf8 name maxXmlnameSize =
    some ((name.length : Int), name, [])

instance (name : List Char) : Decidable (Accepted name) :=
  inferInstanceAs (Decidable (_ ∧ _))

def Undotted (name : List Char) : Prop :=
  strEnd .utf8 name '.' = some (name, [])

instance (name : List Char) : Decidable (Undotted name) :=
  inferInstanceAs (Decidable (_ = _))

variable {name : List Char}

section Scanning

theorem Accepted.scanned (accepted : Accepted name) :
    scan (wordBytes .utf8 variantPlain) (wordStop .utf8 variantPlain)
      (some maxXmlnameSize) 0 name = some (name, []) := by
  obtain ⟨found, scanned, same⟩ := Option.map_eq_some_iff.mp accepted.2
  obtain ⟨-, copied⟩ := Prod.mk.inj same
  obtain ⟨copied, stopped⟩ := Prod.mk.inj copied
  rw [scanned, ← copied, ← stopped]

theorem Accepted.lead (accepted : Accepted name) :
    ∃ c more, name = c :: more ∧ wordStop .utf8 variantPlain c = false := by
  obtain ⟨c, more, rfl⟩ := List.exists_cons_of_ne_nil accepted.1
  exact ⟨c, more, rfl, (scan_whole_cons accepted.scanned).1⟩

theorem lead_ne {c d : Char} (lead : wordStop .utf8 variantPlain c = false)
    (stops : wordStop .utf8 variantPlain d = true) : c ≠ d := by
  rintro rfl
  rw [lead] at stops
  cases stops

theorem lead_visible {c : Char}
    (lead : wordStop .utf8 variantPlain c = false) : ¬ c ≤ ' ' := by
  intro blank
  have table : ∀ n ≤ 32, wordStop .utf8 variantPlain (Char.ofNat n) = true := by
    decide
  have low : c.toNat ≤ 32 := blank
  have stops := table c.toNat low
  rw [Char.ofNat_toNat, lead] at stops
  cases stops

theorem Accepted.parseVariantN (accepted : Accepted name) {rest : List Char}
    (ends : ∀ c ∈ rest.head?, wordStop .utf8 variantPlain c = true) :
    parseVariantN .utf8 (name ++ rest) maxXmlnameSize =
      some ((name.length : Int), name, rest) := by
  have visible : name.isEmpty = false := by
    rw [List.isEmpty_eq_false_iff]
    exact accepted.1
  rw [Str.parseVariantN, scan_whole accepted.scanned ends, Option.map_some,
    visible]
  rfl

/-- What `ndstr_parse_word` takes for a character of a word. -/
def wordPlain (c : Char) : Bool :=
  numeral c || bigLatin c || littleLatin c || c == '_' || c == '$' || c == '@'

theorem plain_of_high {c : Char} (high : 0x80 < c.toNat) :
    variantPlain c = false ∧ wordPlain c = false := by
  have above : ∀ d : Char, d.toNat ≤ 0x80 → decide (c ≤ d) = false := by
    intro d low
    refine decide_eq_false fun less => ?_
    have : c.toNat ≤ d.toNat := less
    omega
  have differs : ∀ d : Char, d.toNat ≤ 0x80 → (c == d) = false := by
    intro d low
    refine beq_false_of_ne ?_
    rintro rfl
    omega
  rw [variantPlain, wordPlain, numeral, bigLatin, littleLatin,
    above '9' (by decide), above 'Z' (by decide), above 'z' (by decide),
    differs '_' (by decide), differs '.' (by decide), differs '$' (by decide),
    differs '@' (by decide), Bool.and_false, Bool.and_false, Bool.and_false]
  exact ⟨rfl, rfl⟩

/-- `ndstr_parse_word` goes through the characters of a name but dots. -/
theorem word_of_variant {c : Char}
    (lead : wordStop .utf8 variantPlain c = false) (undotted : c ≠ '.') :
    wordStop .utf8 wordPlain c = false ∧
      wordBytes .utf8 variantPlain c = wordSize .utf8 c ∧
      wordBytes .utf8 wordPlain c = wordSize .utf8 c := by
  by_cases high : 0x80 < c.toNat
  · obtain ⟨noVariant, noWord⟩ := plain_of_high high
    rw [wordStop, wordBytes, wordBytes, noVariant, noWord, decide_eq_true high]
    exact ⟨rfl, rfl, rfl⟩
  · have single : wordSize .utf8 c = 1 := by
      rw [wordSize, if_neg high]
    have plain : variantPlain c = true := by
      rw [wordStop, decide_eq_false high] at lead
      simpa using lead
    have word : wordPlain c = true := by
      have noDot : (c == '.') = false := beq_false_of_ne undotted
      rw [variantPlain, noDot, Bool.or_false] at plain
      rw [wordPlain, plain, Bool.true_or]
    rw [wordStop, wordBytes, wordBytes, plain, word]
    exact ⟨rfl, single.symm, single.symm⟩

theorem scan_endName (rest : List Char) {budget : Option Int} {pending : Nat}
    (whole : scan (wordBytes .utf8 variantPlain) (wordStop .utf8 variantPlain)
      budget pending name = some (name, [])) :
    ∃ front back, name = front ++ back ∧ (∀ c ∈ back.head?, c = '.') ∧
      scan (wordSize .utf8) (· == '.') none pending name = some (front, back) ∧
      scan (wordBytes .utf8 wordPlain) (wordStop .utf8 wordPlain) none pending
        (name ++ '>' :: rest) = some (front, back ++ '>' :: rest) := by
  induction name generalizing budget pending with
  | nil =>
    cases pending with
    | succ pending => cases whole
    | zero => exact ⟨[], [], rfl, fun c member => (nomatch member), rfl, rfl⟩
  | cons c name induction =>
    cases pending with
    | succ pending =>
      obtain ⟨front, back, split, dotted, dots, words⟩ :=
        induction (scan_whole_pending whole)
      refine ⟨c :: front, back, by rw [split]; rfl, dotted, ?_, ?_⟩
      · rw [scan, dots]
        rfl
      · rw [List.cons_append, scan, words]
        rfl
    | zero =>
      obtain ⟨lead, later⟩ := scan_whole_cons whole
      by_cases dot : c = '.'
      · subst dot
        exact ⟨[], _, rfl, fun c member => (Option.some.inj member).symm,
          rfl, rfl⟩
      · obtain ⟨goes, variantBytes, bytes⟩ := word_of_variant lead dot
        rw [variantBytes] at later
        obtain ⟨front, back, split, dotted, dots, words⟩ := induction later
        have noDot : (c == '.') = false := beq_false_of_ne dot
        refine ⟨c :: front, back, by rw [split]; rfl, dotted, ?_, ?_⟩
        · rw [scan, noDot]
          dsimp only [Option.any_none, Option.map_none]
          rw [if_neg (by decide), dots]
          rfl
        · rw [List.cons_append, scan, goes, bytes]
          dsimp only [Option.any_none, Option.map_none]
          rw [if_neg (by decide), words]
          rfl

theorem Accepted.parseWord (accepted : Accepted name) (rest : List Char) :
    ∃ front back, name = front ++ back ∧ (∀ c ∈ back.head?, c = '.') ∧
      strEnd .utf8 name '.' = some (front, back) ∧
      parseWord .utf8 (name ++ '>' :: rest) =
        some (front, some (back ++ '>' :: rest)) := by
  obtain ⟨front, back, split, dotted, dots, words⟩ :=
    scan_endName rest accepted.scanned
  refine ⟨front, back, split, dotted, dots, ?_⟩
  have further : notAtEnd (back ++ '>' :: rest) =
      some (back ++ '>' :: rest) := by
    cases back <;> rfl
  show (scan (wordBytes .utf8 wordPlain) (wordStop .utf8 wordPlain) none 0
    (name ++ '>' :: rest)).map _ = _
  rw [words, Option.map_some, further]

theorem stricmp_front (front more : List Char) :
    stricmp (front ++ '.' :: more) front ≠ 0 := by
  induction front with
  | nil => exact (by decide : ('.'.toNat : Int) ≠ 0)
  | cons c front induction =>
    rw [List.cons_append, stricmp]
    simpa using induction

end Scanning

end NdNet.Xml
