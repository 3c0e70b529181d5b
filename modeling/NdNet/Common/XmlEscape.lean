import NdNet.Common.XmlText

/-!
# Values between the writer and the reader

`_out_replace_text` goes through a value by characters of the encoding and
writes an entity for five of them; `_xml_read_value` and `_xml_read_attrval`
go through what it has written in the same steps.  A value comes back as it was
as long as it is made of whole characters and its escaped form fits the buffer.
-/

namespace NdNet.Xml

open NdNet.Str List

/-- A text of whole characters; only the first byte of a character can be one
that is escaped. -/
inductive Spelled (code : CodeType) : List Char → Prop where
  | nil : Spelled code []
  | cons {c : Char} {more text : List Char} :
      wordSize code c = more.length + 1 → (∀ d ∈ more, entity d = none) →
      Spelled code text → Spelled code (c :: (more ++ text))

/-- A text as `_out_replace_text` writes it. -/
def escaped (text : List Char) : List Char :=
  text.flatMap fun c => (entity c).getD [c]

@[simp] theorem escaped_nil : escaped [] = [] := rfl

theorem escaped_cons (c : Char) (text : List Char) :
    escaped (c :: text) = (entity c).getD [c] ++ escaped text := rfl

theorem escaped_append (left right : List Char) :
    escaped (left ++ right) = escaped left ++ escaped right :=
  flatMap_append

variable {more : List Char}

theorem escaped_plain (plain : ∀ d ∈ more, entity d = none) :
    escaped more = more := by
  induction more with
  | nil => rfl
  | cons d more induction =>
    obtain ⟨first, others⟩ := forall_mem_cons.mp plain
    rw [escaped_cons, first, induction others]
    rfl

variable {c : Char} {text : List Char}

theorem entity_cases (known : entity c = some text) :
    c = '\'' ∨ c = '"' ∨ c = '&' ∨ c = '<' ∨ c = '>' := by
  by_contra other
  simp only [not_or] at other
  obtain ⟨apos, quot, amp, lt, gt⟩ := other
  rw [entity, if_neg apos, if_neg quot, if_neg amp, if_neg lt,
    if_neg gt] at known
  cases known

variable {code : CodeType}

theorem wordSize_of_entity
    (known : entity c = some text) : wordSize code c = 1 := by
  rcases entity_cases known with rfl | rfl | rfl | rfl | rfl <;> cases code <;> decide

theorem entity_length_pos
    (known : entity c = some text) : 0 < text.length := by
  rcases entity_cases known with rfl | rfl | rfl | rfl | rfl <;>
    cases known <;> decide

theorem readUtf8char_cons (whole : wordSize code c = more.length + 1)
    (rest : List Char) :
    readUtf8char code (c :: (more ++ rest)) = some (c :: more, rest) := by
  have size : wordSize code c - 1 = more.length := by omega
  have enough : ¬ (more ++ rest).length < more.length := by
    rw [length_append]
    omega
  rw [readUtf8char, size, if_neg enough, take_left, drop_left]

theorem Spelled.dropWhile_blank (spelled : Spelled code text)
    :
    Spelled code (text.dropWhile (· ≤ ' ')) := by
  induction spelled with
  | nil => exact .nil
  | @cons c more text whole plain spelled induction =>
    by_cases blank : c ≤ ' '
    · have low : ¬ 0x80 < c.toNat := by
        have : c.toNat ≤ ' '.toNat := blank
        have : ' '.toNat = 32 := rfl
        omega
      have single : wordSize code c = 1 := by
        cases code <;> simp [wordSize, low]
      have alone : more = [] := length_eq_zero_iff.mp (by omega)
      rw [dropWhile_cons_of_pos (by simpa using blank), alone, nil_append]
      exact induction
    · rw [dropWhile_cons_of_neg (by simpa using blank)]
      exact .cons whole plain spelled

section Encoding

def byteChar (byte : UInt8) : Char :=
  Char.ofNat byte.toNat

theorem byteChar_toNat (byte : UInt8) : (byteChar byte).toNat = byte.toNat := by
  have small : byte.toNat < 256 := byte.toNat_lt
  have valid : byte.toNat.isValidChar := Or.inl (by omega)
  rw [byteChar, Char.ofNat, dif_pos valid]
  rfl

theorem byteChar_ofNat {n : Nat} (small : n < 256) :
    (byteChar (UInt8.ofNat n)).toNat = n := by
  rw [byteChar_toNat, UInt8.toNat_ofNat', Nat.mod_eq_of_lt small]

def Utf8 (text : List Char) : Prop :=
  ∃ chars : List Char,
    text = chars.flatMap fun c => (String.utf8EncodeChar c).map byteChar

theorem entity_none_of_high {d : Char} (high : 0x80 ≤ d.toNat) :
    entity d = none := by
  unfold entity
  repeat rw [if_neg (by rintro rfl; exact absurd high (by decide))]

theorem wordSize_utf8 {n : Nat} (small : n < 256) :
    wordSize .utf8 (byteChar (UInt8.ofNat n)) =
      if n ≤ 0x80 then 1
      else if 240 ≤ n then 4 else if 224 ≤ n then 3 else if 192 ≤ n then 2
      else 1 := by
  rw [wordSize, byteChar_ofNat small]
  by_cases low : n ≤ 0x80
  · rw [if_pos low, if_neg (by omega)]
  · rw [if_neg low, if_pos (by omega)]

theorem entity_none_of_tail (n : Nat) :
    entity (byteChar (UInt8.ofNat (n % 0x40 + 0x80))) = none :=
  entity_none_of_high (by rw [byteChar_ofNat (by omega)]; omega)

theorem utf8EncodeChar_spelled (c : Char) :
    ∃ first more, (String.utf8EncodeChar c).map byteChar = first :: more ∧
      wordSize .utf8 first = more.length + 1 ∧
      ∀ d ∈ more, entity d = none := by
  unfold String.utf8EncodeChar
  by_cases one : c.val.toNat ≤ 0x7f
  · rw [if_pos one]
    refine ⟨_, _, rfl, ?_, fun d member => nomatch member⟩
    rw [wordSize_utf8 (by omega), if_pos (by omega)]
    rfl
  rw [if_neg one]
  by_cases two : c.val.toNat ≤ 0x7ff
  · rw [if_pos two]
    refine ⟨_, _, rfl, ?_, ?_⟩
    · rw [wordSize_utf8 (by omega), if_neg (by omega), if_neg (by omega),
        if_neg (by omega), if_pos (by omega)]
      rfl
    · exact forall_mem_singleton.mpr (entity_none_of_tail _)
  rw [if_neg two]
  by_cases three : c.val.toNat ≤ 0xffff
  · rw [if_pos three]
    refine ⟨_, _, rfl, ?_, ?_⟩
    · rw [wordSize_utf8 (by omega), if_neg (by omega), if_neg (by omega),
        if_pos (by omega)]
      rfl
    · exact forall_mem_cons.mpr ⟨entity_none_of_tail _,
        forall_mem_singleton.mpr (entity_none_of_tail _)⟩
  · rw [if_neg three]
    refine ⟨_, _, rfl, ?_, ?_⟩
    · rw [wordSize_utf8 (by omega), if_neg (by omega), if_pos (by omega)]
      rfl
    · exact forall_mem_cons.mpr ⟨entity_none_of_tail _,
        forall_mem_cons.mpr ⟨entity_none_of_tail _,
          forall_mem_singleton.mpr (entity_none_of_tail _)⟩⟩

theorem Utf8.spelled (valid : Utf8 text) :
    Spelled .utf8 text := by
  obtain ⟨chars, rfl⟩ := valid
  induction chars with
  | nil => exact .nil
  | cons c chars induction =>
    obtain ⟨first, more, shape, whole, plain⟩ := utf8EncodeChar_spelled c
    rw [flatMap_cons, shape]
    exact .cons whole plain induction

end Encoding

section Writing

theorem map_fits (first text : List Char) (bufSize : Int) :
    (if (text.length : Int) < bufSize - first.length then some text
      else none).map (first ++ ·) =
      if ((first ++ text).length : Int) < bufSize then some (first ++ text)
      else none := by
  by_cases fits : (text.length : Int) < bufSize - first.length
  · rw [if_pos fits, if_pos (by rw [length_append]; push_cast; omega),
      Option.map_some]
  · rw [if_neg fits, if_neg (by rw [length_append]; push_cast; omega),
      Option.map_none]

theorem outReplaceFrom_spelled (spelled : Spelled code text) {fuel : Nat}
    {bufSize : Int} (enough : text.length ≤ fuel) :
    outReplaceFrom code fuel bufSize text =
      if ((escaped text).length : Int) < bufSize then some (escaped text)
      else none := by
  induction spelled generalizing fuel bufSize with
  | nil => cases fuel <;> rfl
  | @cons c more text whole plain spelled induction =>
    rw [length_cons, length_append] at enough
    obtain ⟨less, rfl⟩ : ∃ less, fuel = less + 1 :=
      ⟨fuel - 1, by omega⟩
    rw [outReplaceFrom, escaped_cons, escaped_append, escaped_plain plain]
    by_cases used : bufSize ≤ 0
    · rw [if_pos used, if_neg (by omega)]
    rw [if_neg used]
    cases known : entity c with
    | some name =>
      have alone : more = [] :=
        length_eq_zero_iff.mp
          (by rw [wordSize_of_entity known] at whole; omega)
      subst alone
      rw [nil_append, nil_append]
      dsimp only
      rw [induction (by omega)]
      exact map_fits name (escaped text) bufSize
    | none =>
      rw [readUtf8char_cons whole]
      dsimp only
      rw [induction (by omega)]
      exact map_fits (c :: more) (escaped text) bufSize

theorem outReplaceText_spelled (spelled : Spelled code text) (len : Nat) :
    outReplaceText code text len =
      if (escaped text).length < len then some (escaped text) else none := by
  rw [outReplaceText, outReplaceFrom_spelled spelled (Nat.le_refl _)]
  by_cases fits : (escaped text).length < len
  · rw [if_pos fits, if_pos (by omega)]
  · rw [if_neg fits, if_neg (by omega)]

end Writing

section Reading

theorem readReplaceText_entity (known : entity c = some text) (rest : List Char)
    :
    readReplaceText (text ++ rest) = (some c, rest) := by
  rcases entity_cases known with rfl | rfl | rfl | rfl | rfl <;> cases known <;> rfl

theorem entity_ahead (known : entity c = some text) (rest : List Char) :
    ∃ more, text ++ rest = '&' :: more ∧ entityAhead (text ++ rest) = true := by
  rcases entity_cases known with rfl | rfl | rfl | rfl | rfl <;> cases known <;>
    exact ⟨_, rfl, rfl⟩

theorem plain_ahead (plain : entity c = none) (rest : List Char) :
    entityAhead (c :: rest) = false ∧ isMarkStart (c :: rest) = false ∧
      c ≠ '"' := by
  have notAmp : c ≠ '&' := by
    rintro rfl
    cases plain
  have notMark : c ≠ '<' := by
    rintro rfl
    cases plain
  have notQuote : c ≠ '"' := by
    rintro rfl
    cases plain
  refine ⟨?_, ?_, notQuote⟩
  · unfold entityAhead
    split
    · next same => exact absurd (cons.inj same).1 notAmp
    · rfl
  · have differs : ('<' == c) = false := beq_false_of_ne (Ne.symm notMark)
    show ('<' == c && _) = false
    rw [differs, Bool.false_and]

theorem escaped_front (whole : wordSize code c = more.length + 1)
    (plain : ∀ d ∈ more, entity d = none) (text rest : List Char) :
    (escaped text).length < (escaped (c :: (more ++ text))).length ∧
      ((more = [] ∧ ∃ behind,
          escaped (c :: (more ++ text)) ++ rest = '&' :: behind ∧
          entityAhead ('&' :: behind) = true ∧
          readReplaceText ('&' :: behind) = (some c, escaped text ++ rest)) ∨
        (escaped (c :: (more ++ text)) ++ rest =
            c :: (more ++ (escaped text ++ rest)) ∧
          entity c = none)) := by
  rw [escaped_cons, escaped_append, escaped_plain plain]
  simp only [length_append]
  cases known : entity c with
  | some name =>
    have long := entity_length_pos known
    have alone : more = [] :=
      length_eq_zero_iff.mp
        (by rw [wordSize_of_entity known] at whole; omega)
    have taken := readReplaceText_entity known (escaped text ++ rest)
    obtain ⟨behind, shape, ahead⟩ := entity_ahead known (escaped text ++ rest)
    subst alone
    rw [shape] at taken ahead
    refine ⟨Nat.lt_of_lt_of_le (Nat.lt_add_of_pos_left long)
      (Nat.add_le_add_left (Nat.le_add_left _ _) _),
      .inl ⟨rfl, behind, ?_, ahead, taken⟩⟩
    rw [← shape, Option.getD_some, nil_append, append_assoc]
  | none =>
    refine ⟨?_, .inr ⟨?_, rfl⟩⟩
    · rw [Option.getD_none, length_singleton]
      omega
    · rw [Option.getD_none, append_assoc, append_assoc]
      rfl

theorem readValueFrom_escaped (spelled : Spelled code text) {fuel : Nat}
    (rest : List Char) (enough : (escaped text).length + 1 ≤ fuel)
    :
    readValueFrom none code fuel (escaped text ++ '<' :: '/' :: rest) =
      some (text, '<' :: '/' :: rest) := by
  induction spelled generalizing fuel with
  | nil =>
    obtain ⟨less, rfl⟩ : ∃ less, fuel = less + 1 :=
      ⟨fuel - 1, by simp at enough; omega⟩
    rfl
  | @cons c more text whole plain spelled induction =>
    obtain ⟨less, rfl⟩ : ∃ less, fuel = less + 1 :=
      ⟨fuel - 1, by omega⟩
    obtain ⟨shorter, ⟨rfl, behind, shape, ahead, taken⟩ | ⟨shape, known⟩⟩ :=
      escaped_front whole plain text ('<' :: '/' :: rest)
    · rw [shape, readValueFrom, if_pos ahead, taken]
      dsimp only
      rw [induction (by omega)]
      rfl
    · obtain ⟨noEntity, noMark, -⟩ :=
        plain_ahead known (more ++ (escaped text ++ '<' :: '/' :: rest))
      rw [shape, readValueFrom, noEntity, noMark, readUtf8char_cons whole]
      dsimp only
      rw [induction (by omega)]
      rfl

theorem readAttrvalFrom_escaped (spelled : Spelled code text) {fuel size : Nat}
    (rest : List Char) (enough : (escaped text).length + 1 ≤ fuel)
    (room : text.length < size) :
    readAttrvalFrom none code fuel size (escaped text ++ '"' :: rest) =
      some (text, rest) := by
  induction spelled generalizing fuel size with
  | nil =>
    obtain ⟨less, rfl⟩ : ∃ less, fuel = less + 1 :=
      ⟨fuel - 1, by simp at enough; omega⟩
    obtain ⟨left, rfl⟩ : ∃ left, size = left + 1 :=
      ⟨size - 1, by simp at room; omega⟩
    rfl
  | @cons c more text whole plain spelled induction =>
    obtain ⟨less, rfl⟩ : ∃ less, fuel = less + 1 :=
      ⟨fuel - 1, by omega⟩
    obtain ⟨left, rfl⟩ : ∃ left, size = left + 1 :=
      ⟨size - 1, by omega⟩
    rw [length_cons, length_append] at room
    obtain ⟨shorter, ⟨rfl, behind, shape, ahead, taken⟩ | ⟨shape, known⟩⟩ :=
      escaped_front whole plain text ('"' :: rest)
    · rw [shape, readAttrvalFrom, if_neg (by decide), if_pos ahead, taken]
      dsimp only
      rw [induction (by omega) (by simpa using room)]
      rfl
    · obtain ⟨noEntity, -, noQuote⟩ :=
        plain_ahead known (more ++ (escaped text ++ '"' :: rest))
      rw [shape, readAttrvalFrom, if_neg noQuote, noEntity,
        readUtf8char_cons whole]
      dsimp only
      rw [if_neg Bool.false_ne_true,
        induction (by omega) (by rw [length_cons]; omega)]
      rfl

theorem length_le_escaped (text : List Char) :
    text.length ≤ (escaped text).length := by
  induction text with
  | nil => exact Nat.le_refl _
  | cons c text induction =>
    have pos : 0 < ((entity c).getD [c]).length := by
      cases known : entity c with
      | none => exact Nat.one_pos
      | some name => exact entity_length_pos known
    rw [escaped_cons, length_append, length_cons]
    omega

theorem firstValid_escaped (text rest : List Char) :
    firstValid (escaped text ++ '<' :: rest) =
      some (escaped (text.dropWhile (· ≤ ' ')) ++ '<' :: rest) := by
  induction text with
  | nil => exact firstValid_cons (by decide) rest
  | cons c text induction =>
    by_cases blank : c ≤ ' '
    · have plain : entity c = none := by
        unfold entity
        have low : c.toNat ≤ 32 := blank
        repeat rw [if_neg (by rintro rfl; exact absurd low (by decide))]
      rw [dropWhile_cons_of_pos (by simpa using blank), escaped_cons, plain]
      show firstValid (c :: (escaped text ++ '<' :: rest)) = _
      rw [firstValid, if_pos blank, induction]
    · rw [dropWhile_cons_of_neg (by simpa using blank)]
      cases known : entity c with
      | none =>
        rw [escaped_cons, known]
        exact firstValid_cons blank _
      | some name =>
        obtain ⟨behind, shape, -⟩ :=
          entity_ahead known (escaped text ++ '<' :: rest)
        rw [escaped_cons, known, Option.getD_some, append_assoc, shape]
        exact firstValid_cons (by decide) _

end Reading

end NdNet.Xml
