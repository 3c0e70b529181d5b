import NdNet.Common.StrBound
import NdNet.Common.XmlGrammar
import NdNet.Common.XmlNames

/-!
# Names and values that break

The grammar of a text that breaks ends in the scanners of names and of values.
Here it is said which texts these are: a name or a value that fills its buffer,
or a character of several bytes that the end of the text cuts off.
-/

namespace NdNet.Xml

open NdNet.Str

variable {code : CodeType}

/-- The bytes that the part of a value in front of a place gives: an entity is
one byte, and any other character is copied as a whole. -/
inductive Filled (code : CodeType) (closes : List Char → Bool) :
    Nat → List Char → List Char → Prop where
  | start {text : List Char} : Filled code closes 0 text text
  | entity {count : Nat} {text behind : List Char} :
      closes text = false → entityAhead text = true →
        Filled code closes count (readReplaceText text).2 behind →
          Filled code closes (count + 1) text behind
  | char {count : Nat} {text word after behind : List Char} :
      closes text = false → entityAhead text = false →
        readUtf8char code text = some (word, after) →
          Filled code closes count after behind →
            Filled code closes (word.length + count) text behind

/-- A value goes on with a character whose bytes reach over the end of the
text. -/
def CutsOff (code : CodeType) (closes : List Char → Bool)
    (text : List Char) : Prop :=
  closes text = false ∧ entityAhead text = false ∧
    ∃ c rest, text = c :: rest ∧ rest.length + 1 < wordSize code c

def atQuote (text : List Char) : Bool :=
  text.head? == some '"'

section Names

/-- A name breaks if it fills its buffer, or if the text ends within one of its
characters. -/
theorem nameBreaks_iff (start : List Char) :
    NameBreaks code start ↔
      Torn (wordBytes code variantPlain) (wordStop code variantPlain) 0 start ∨
        ∃ name, Copied (wordBytes code variantPlain)
            (wordStop code variantPlain) 0 start name ∧
          maxXmlnameSize ≤ name.length := by
  have keeps := mapped_keeps_iff (wordStop code variantPlain)
    (fun found =>
      (if found.1.isEmpty && !start.isEmpty &&
          decide ((0 : Int) < maxXmlnameSize) then -1
        else (found.1.length : Int), found.1, found.2))
    (fun found => found.2.1) (wordBytes_pos code variantPlain) (fun _ => rfl)
    start maxXmlnameSize
  rw [← not_fitsIn_iff, ← keeps]
  constructor
  · rintro (lost | ⟨ret, name, behind, read, -, long⟩) ⟨found, copied, short⟩
    · cases lost.symm.trans copied
    · cases read.symm.trans copied
      exact absurd short (Nat.not_lt.mpr long)
  · intro tight
    cases read : parseVariantN code start maxXmlnameSize with
    | none => exact .inl read
    | some found =>
      have long : maxXmlnameSize ≤ found.2.1.length :=
        Nat.le_of_not_lt fun short => tight ⟨found, read, short⟩
      refine .inr ⟨found.1, found.2.1, found.2.2, read, ?_, long⟩
      obtain ⟨copied, -, rfl⟩ := Option.map_eq_some_iff.mp read
      have some : 0 < copied.1.length :=
        Nat.lt_of_lt_of_le (by decide) long
      have filled : copied.1.isEmpty = false := by
        cases first : copied.1 with
        | nil => simp [first] at some
        | cons c more => rfl
      simp only [filled, Bool.false_and, Bool.false_eq_true, if_false]
      exact Int.natCast_pos.mpr some

theorem parseWord_none_iff (start : List Char) :
    parseWord code start = none ↔
      Torn (wordBytes code wordPlain) (wordStop code wordPlain) 0 start := by
  rw [← scan_torn_iff]
  exact Option.map_eq_none_iff

end Names

variable {breaks : Nat → List Char → Prop} {text : List Char}

section Values

variable {closes : List Char → Bool}

theorem readUtf8char_none_iff (c : Char) (rest : List Char) :
    readUtf8char code (c :: rest) = none ↔
      rest.length + 1 < wordSize code c := by
  rw [readUtf8char]
  split
  · simp only [true_iff]
    omega
  · simp only [reduceCtorEq, false_iff]
    omega

theorem filled_closed {count : Nat} {text behind : List Char}
    (closed : closes text = true) (filled : Filled code closes count text behind) :
    count = 0 ∧ behind = text := by
  cases filled with
  | start => exact ⟨rfl, rfl⟩
  | entity more | char more => simp [closed] at more

theorem filled_entity (more : closes text = false)
    (ahead : entityAhead text = true) (here : ¬ breaks 0 text) :
    (∃ count behind, Filled code closes count text behind ∧
        breaks count behind) ↔
      ∃ count behind,
        Filled code closes count (readReplaceText text).2 behind ∧
          breaks (count + 1) behind := by
  constructor
  · rintro ⟨count, behind, filled, broken⟩
    cases filled with
    | start => exact (here broken).elim
    | entity _ _ filled => exact ⟨_, behind, filled, broken⟩
    | char _ other => simp [ahead] at other
  · rintro ⟨count, behind, filled, broken⟩
    exact ⟨count + 1, behind, .entity more ahead filled, broken⟩

theorem filled_char {text word after : List Char} (more : closes text = false)
    (ahead : entityAhead text = false)
    (read : readUtf8char code text = some (word, after))
    (here : ¬ breaks 0 text) :
    (∃ count behind, Filled code closes count text behind ∧
        breaks count behind) ↔
      ∃ count behind, Filled code closes count after behind ∧
        breaks (word.length + count) behind := by
  constructor
  · rintro ⟨count, behind, filled, broken⟩
    cases filled with
    | start => exact (here broken).elim
    | entity _ other => simp [ahead] at other
    | char _ _ other filled =>
      cases other.symm.trans read
      exact ⟨_, behind, filled, broken⟩
  · rintro ⟨count, behind, filled, broken⟩
    exact ⟨_, behind, .char more ahead read filled, broken⟩

theorem not_filled_nil (here : ¬ breaks 0 [])
    :
    ¬ ∃ count behind, Filled code closes count [] behind ∧
      breaks count behind := by
  rintro ⟨count, behind, filled, broken⟩
  cases filled with
  | start => exact here broken
  | entity _ ahead => cases ahead
  | char _ _ read => cases read

theorem not_cutsOff_nil : ¬ CutsOff code closes [] := by
  rintro ⟨-, -, c, rest, same, -⟩
  cases same

theorem not_cutsOff_entity
    (ahead : entityAhead text = true) : ¬ CutsOff code closes text := by
  rintro ⟨-, other, -⟩
  simp [ahead] at other

theorem cutsOff_iff {c : Char} {rest : List Char}
    (more : closes (c :: rest) = false)
    (ahead : entityAhead (c :: rest) = false) :
    CutsOff code closes (c :: rest) ↔ readUtf8char code (c :: rest) = none := by
  rw [readUtf8char_none_iff]
  constructor
  · rintro ⟨-, -, first, others, same, short⟩
    cases same
    exact short
  · intro short
    exact ⟨more, ahead, c, rest, rfl, short⟩

/-- The value of an attribute breaks if its bytes reach the end of the buffer
before it is closed, or if one of its characters is cut off; by induction on
the rounds of the loop. -/
theorem readAttrvalFrom_none_iff (stale : Char) {fuel size : Nat}
    (enough : text.length ≤ fuel) :
    readAttrvalFrom (some stale) code fuel size text = none ↔
      ∃ count behind, Filled code atQuote count text behind ∧
        (size ≤ count ∨ CutsOff code atQuote behind) := by
  induction fuel generalizing size text with
  | zero =>
    cases List.length_eq_zero_iff.mp (Nat.le_zero.mp enough)
    cases size with
    | zero =>
      refine ⟨fun _ => ?_, fun _ => rfl⟩
      exact ⟨0, [], .start, .inl (Nat.le_refl _)⟩
    | succ size =>
      refine ⟨?_, fun broken => (not_filled_nil ?_ broken).elim⟩
      · intro whole
        cases whole
      · simp [not_cutsOff_nil]
  | succ fuel induction =>
    cases size with
    | zero =>
      refine ⟨fun _ => ?_, fun _ => by rw [readAttrvalFrom]⟩
      exact ⟨0, text, .start, .inl (Nat.le_refl _)⟩
    | succ size =>
      cases text with
      | nil =>
        refine ⟨?_, fun broken => (not_filled_nil ?_ broken).elim⟩
        · intro whole
          cases whole
        · simp [not_cutsOff_nil]
      | cons c rest =>
        rw [readAttrvalFrom]
        split_ifs with quote ahead
        · have closed : atQuote (c :: rest) = true := by
            simp [atQuote, quote]
          constructor
          · intro whole
            cases whole
          · rintro ⟨count, behind, filled, broken⟩
            obtain ⟨rfl, rfl⟩ := filled_closed closed filled
            obtain full | ⟨open_, -⟩ := broken
            · omega
            · simp [closed] at open_
        · have more : atQuote (c :: rest) = false := by
            simp [atQuote, quote]
          have short := readReplaceText_le c rest
          rw [filled_entity more ahead
            (by simp [not_cutsOff_entity ahead])]
          simp only [Nat.add_le_add_iff_right]
          rw [← induction
            (Nat.le_trans short (Nat.le_of_succ_le_succ enough))]
          cases (readReplaceText (c :: rest)).1 <;> simp
        · have more : atQuote (c :: rest) = false := by
            simp [atQuote, quote]
          rw [Bool.not_eq_true] at ahead
          cases read : readUtf8char code (c :: rest) with
          | none =>
            refine ⟨fun _ => ?_, fun _ => rfl⟩
            exact ⟨0, _, .start, .inr ((cutsOff_iff more ahead).mpr read)⟩
          | some found =>
            obtain ⟨word, after⟩ := found
            have short := readUtf8char_le read
            rw [filled_char more ahead read
              (by simp [cutsOff_iff more ahead, read])]
            have room : ∀ count, size + 1 ≤ word.length + count ↔
                size + 1 - word.length ≤ count := by
              omega
            simp only [room]
            rw [← induction
              (Nat.le_trans short (Nat.le_of_succ_le_succ enough))]
            exact Option.map_eq_none_iff

theorem markStart_of_entity
    (ahead : entityAhead text = true) : isMarkStart text = false := by
  unfold entityAhead at ahead
  split at ahead
  · rfl
  · cases ahead

theorem readValueFrom_none_iff (stale : Char) {fuel : Nat}
    (enough : text.length ≤ fuel) :
    readValueFrom (some stale) code fuel text = none ↔
      ∃ count behind, Filled code isMarkStart count text behind ∧
        CutsOff code isMarkStart behind := by
  induction fuel generalizing text with
  | zero =>
    cases List.length_eq_zero_iff.mp (Nat.le_zero.mp enough)
    refine ⟨?_, fun broken => (not_filled_nil ?_ broken).elim⟩
    · intro whole
      cases whole
    · exact not_cutsOff_nil
  | succ fuel induction =>
    cases text with
    | nil =>
      refine ⟨?_, fun broken => (not_filled_nil ?_ broken).elim⟩
      · intro whole
        cases whole
      · exact not_cutsOff_nil
    | cons c rest =>
      rw [readValueFrom]
      split_ifs with ahead mark
      · have more := markStart_of_entity ahead
        have short := readReplaceText_le c rest
        rw [filled_entity more ahead (not_cutsOff_entity ahead)]
        rw [← induction
          (Nat.le_trans short (Nat.le_of_succ_le_succ enough))]
        cases (readReplaceText (c :: rest)).1 <;> simp
      · constructor
        · intro whole
          cases whole
        · rintro ⟨count, behind, filled, open_, -⟩
          obtain ⟨-, rfl⟩ := filled_closed mark filled
          simp [mark] at open_
      · rw [Bool.not_eq_true] at ahead mark
        cases read : readUtf8char code (c :: rest) with
        | none =>
          refine ⟨fun _ => ?_, fun _ => rfl⟩
          exact ⟨0, _, .start, (cutsOff_iff mark ahead).mpr read⟩
        | some found =>
          obtain ⟨word, after⟩ := found
          have short := readUtf8char_le read
          rw [filled_char mark ahead read
            (by simp [cutsOff_iff mark ahead, read])]
          rw [← induction
            (Nat.le_trans short (Nat.le_of_succ_le_succ enough))]
          exact Option.map_eq_none_iff

/-- The texts behind `AttribsBreak.value`: the value fills the buffer of 4096
bytes, or a character of it is cut off. -/
theorem attrvalBreaks_iff (mark : List Char) :
    (∀ stale, xmlReadAttrval (some stale) code mark textBufSize = none) ↔
      ∃ value, quoteOf mark = '"' :: value ∧
        ∃ count behind, Filled code atQuote count value behind ∧
          (textBufSize ≤ count ∨ CutsOff code atQuote behind) := by
  unfold xmlReadAttrval quoteOf
  split
  · rename_i value opens
    simp only [Option.map_eq_none_iff,
      readAttrvalFrom_none_iff _ (Nat.le_refl value.length), forall_const,
      opens, List.cons.injEq, true_and, exists_eq_left']
  · rename_i unopened
    constructor
    · intro lost
      cases lost '"'
    · rintro ⟨value, opens, -⟩
      exact (unopened value opens).elim

theorem valueBreaks_iff (paddr : List Char) :
    (∀ stale, xmlReadValue (some stale) code paddr = none) ↔
      ∃ count behind, Filled code isMarkStart count paddr behind ∧
        CutsOff code isMarkStart behind := by
  simp only [xmlReadValue, readValueFrom_none_iff _ (Nat.le_refl paddr.length),
    forall_const]

end Values

end NdNet.Xml
