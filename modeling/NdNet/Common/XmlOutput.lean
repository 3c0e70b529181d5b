import NdNet.Common.XmlEscape
import NdNet.Lib.Memory

/-!
# The output of `_out_replace_text`

The buffer that `_out_replace_text` fills is a range of a memory that notes what
is touched.  The room that is left is looked at before a character is taken, not
before it is written: the character for which there is too little room, and the
NUL behind it, go beyond the end.
-/

namespace NdNet.Xml

open NdNet.Str List

def escapedSize (text : List Char) : Nat :=
  text.length + 5 * (text.count '\'' + text.count '"') + 4 * text.count '&' +
    3 * (text.count '<' + text.count '>')

/-- The loop of `_out_replace_text` with `bufSize` bytes left at `outText`;
`strncat` puts a NUL behind what it copies. -/
def outReplaceInto (code : CodeType) :
    Nat → Int → List Char → Int → Mem Char → Option (Mem Char)
  | _, _, [], outText, memory => some (memory.store outText ['\x00'])
  | 0, _, _ :: _, _, _ => none
  | fuel + 1, bufSize, c :: rest, outText, memory =>
    if bufSize ≤ 0 then some (memory.store outText ['\x00'])
    else
      match entity c with
      | some text =>
        outReplaceInto code fuel (bufSize - text.length) rest
          (outText + text.length)
          (memory.store outText (text.take bufSize.toNat ++ ['\x00']))
      | none =>
        match readUtf8char code (c :: rest) with
        | none => none
        | some (word, after) =>
          outReplaceInto code fuel (bufSize - word.length) after
            (outText + word.length)
            (memory.store outText (word ++ ['\x00']))

/-- `_out_replace_text` and what it writes. -/
def outReplaceMem (code : CodeType) (src : List Char) (outText : Int)
    (len : Nat) (memory : Mem Char) : Option (Mem Char) :=
  outReplaceInto code src.length len src outText
    (memory.store outText ['\x00'])

def HoldsString (memory : Mem Char) (address : Int) (text : List Char) : Prop :=
  '\x00' ∉ text ∧ memory.bytes address (text.length + 1) = text ++ ['\x00']

/-- The output of a value stays within its buffer, and if that is large enough
it is read back, quoted and as the text of an element. -/
structure EscapedWell (code : CodeType) (value : List Char) (outText : Int)
    (len : Nat) (memory after : Mem Char) : Prop where
  within : Mem.Within outText (outText + len) memory after
  readBack : escapedSize value < len →
    ∃ text, HoldsString after outText text ∧ ∀ (rest : List Char) (size : Nat),
      value.length < size →
        xmlReadAttrval none code ('"' :: (text ++ '"' :: rest)) size =
          some (some (value, rest)) ∧
        xmlReadValue none code (text ++ '<' :: '/' :: rest) =
          some (value, '<' :: '/' :: rest)

theorem length_escaped (text : List Char) :
    (escaped text).length = escapedSize text := by
  induction text with
  | nil => rfl
  | cons c text induction =>
    rw [escaped_cons, length_append, induction, escapedSize, escapedSize]
    cases known : entity c with
    | some name =>
      rcases entity_cases known with rfl | rfl | rfl | rfl | rfl <;>
        cases known <;> simp <;> omega
    | none =>
      have other : ∀ d text, entity d = some text → c ≠ d := by
        rintro d text special rfl
        rw [special] at known
        cases known
      rw [count_cons_of_ne (other '\'' _ rfl),
        List.count_cons_of_ne (other '"' _ rfl),
        count_cons_of_ne (other '&' _ rfl),
        count_cons_of_ne (other '<' _ rfl),
        count_cons_of_ne (other '>' _ rfl)]
      simp
      omega

theorem spelled_ansi (text : List Char) : Spelled .ansi text := by
  induction text with
  | nil => exact .nil
  | cons c text induction =>
    exact @Spelled.cons _ c [] text rfl (forall_mem_nil _) induction

variable {after : Mem Char}

section Writing

variable {code : CodeType} {text : List Char} {fuel : Nat} {bufSize : Int}
  {outText : Int} {memory : Mem Char}

/-- The first piece of the output and what is written behind it: the NUL of the
piece gives way to what follows. -/
theorem written_behind {first rest : List Char}
    (room : (first.length : Int) < bufSize)
    (behind : Mem.Within (outText + first.length)
      (outText + first.length + (bufSize - first.length))
      (memory.store outText (first ++ ['\x00'])) after)
    (holds : after.bytes (outText + first.length) rest.length = rest) :
    Mem.Within outText (outText + bufSize) memory after ∧
      after.bytes outText (first ++ rest).length = first ++ rest := by
  constructor
  · refine (Mem.within_store (Int.le_refl _) ?_ memory).trans
      (behind.mono (by omega) (by omega))
    rw [length_append, length_singleton]
    push_cast
    omega
  · have stored := memory.bytes_store_self outText (first ++ ['\x00'])
    rw [length_append, Mem.bytes_add] at stored
    have front := (append_inj stored (Mem.length_bytes _ _ _)).1
    have kept : after.bytes outText first.length = first := by
      refine Eq.trans (Mem.bytes_congr fun index inside => ?_) front
      exact behind.cells (outText + index) (.inl (by omega))
    rw [length_append, Mem.bytes_add, holds, kept]

theorem outReplaceInto_fits (spelled : Spelled code text)
    (enough : text.length ≤ fuel)
    (fits : ((escaped text).length : Int) < bufSize) :
    ∃ after, outReplaceInto code fuel bufSize text outText memory = some after ∧
      Mem.Within outText (outText + bufSize) memory after ∧
      after.bytes outText (escaped text ++ ['\x00']).length =
        escaped text ++ ['\x00'] := by
  induction spelled generalizing fuel bufSize outText memory with
  | nil =>
    refine ⟨memory.store outText ['\x00'], by cases fuel <;> rfl, ?_,
      memory.bytes_store_self outText ['\x00']⟩
    apply Mem.within_store (Int.le_refl _)
    rw [length_singleton]
    omega
  | @cons c more text whole plain spelled induction =>
    rw [length_cons, length_append] at enough
    obtain ⟨less, rfl⟩ : ∃ less, fuel = less + 1 := ⟨fuel - 1, by omega⟩
    rw [escaped_cons, escaped_append, escaped_plain plain] at fits ⊢
    rw [length_append, length_append] at fits
    rw [outReplaceInto, if_neg (by omega)]
    cases known : entity c with
    | some name =>
      have alone : more = [] :=
        length_eq_zero_iff.mp
          (by rw [wordSize_of_entity known] at whole; omega)
      subst alone
      rw [known, Option.getD_some, length_nil] at fits
      dsimp only [Option.getD_some]
      rw [nil_append, nil_append, append_assoc, take_of_length_le (by omega)]
      obtain ⟨after, result, within, holds⟩ := @induction less
        (bufSize - name.length) (outText + name.length)
        (memory.store outText (name ++ ['\x00'])) (by omega) (by omega)
      exact ⟨after, result, written_behind (by omega) within holds⟩
    | none =>
      rw [known, Option.getD_none, length_singleton] at fits
      rw [readUtf8char_cons whole]
      dsimp only [Option.getD_none]
      have shape : [c] ++ (more ++ escaped text) ++ ['\x00'] =
          c :: more ++ (escaped text ++ ['\x00']) := by simp
      rw [shape]
      obtain ⟨after, result, within, holds⟩ := @induction less
        (bufSize - (c :: more).length) (outText + (c :: more).length)
        (memory.store outText (c :: more ++ ['\x00'])) (by omega)
        (by rw [length_cons]; omega)
      exact ⟨after, result, written_behind
        (by rw [length_cons]; omega) within holds⟩

theorem touched_behind {block : List Char} {range : Int × Nat}
    {ranges : List (Int × Nat)}
    (touched : after.touched = (memory.store outText block).touched ++ ranges)
    (member : range ∈ ranges) :
    ∃ ranges, after.touched = memory.touched ++ ranges ∧ range ∈ ranges := by
  rw [Mem.store, append_assoc] at touched
  exact ⟨_, touched, mem_append_right _ member⟩

theorem outReplaceInto_beyond (spelled : Spelled code text)
    (enough : text.length ≤ fuel)
    (tooLong : bufSize ≤ ((escaped text).length : Int))
    (result : outReplaceInto code fuel bufSize text outText memory =
      some after) :
    ∃ last, outText + bufSize ≤ last ∧ ∃ ranges,
      after.touched = memory.touched ++ ranges ∧ (last, 1) ∈ ranges := by
  induction spelled generalizing fuel bufSize outText memory with
  | nil =>
    rw [escaped_nil, length_nil] at tooLong
    have done : outReplaceInto code fuel bufSize [] outText memory =
        some (memory.store outText ['\x00']) := by cases fuel <;> rfl
    rw [done] at result
    cases result
    exact ⟨outText, by omega, _, rfl, mem_singleton_self _⟩
  | @cons c more text whole plain spelled induction =>
    rw [length_cons, length_append] at enough
    obtain ⟨less, rfl⟩ : ∃ less, fuel = less + 1 := ⟨fuel - 1, by omega⟩
    rw [escaped_cons, escaped_append, escaped_plain plain,
      length_append, length_append] at tooLong
    rw [outReplaceInto] at result
    by_cases used : bufSize ≤ 0
    · rw [if_pos used] at result
      cases result
      exact ⟨outText, by omega, _, rfl, mem_singleton_self _⟩
    · rw [if_neg used] at result
      cases known : entity c with
      | some name =>
        rw [known] at result tooLong
        have alone : more = [] :=
          length_eq_zero_iff.mp
            (by rw [wordSize_of_entity known] at whole; omega)
        subst alone
        rw [Option.getD_some, length_nil] at tooLong
        obtain ⟨last, beyond, _, touched, member⟩ :=
          induction (by omega) (by push_cast at tooLong; omega) result
        exact ⟨last, by omega, touched_behind touched member⟩
      | none =>
        rw [known, readUtf8char_cons whole] at result
        rw [known, Option.getD_none, length_singleton] at tooLong
        obtain ⟨last, beyond, _, touched, member⟩ :=
          induction (by omega)
            (by rw [length_cons]; push_cast at tooLong ⊢; omega) result
        exact ⟨last, by omega, touched_behind touched member⟩

/-- Where `_out_replace_text` gives a text, this text is in the memory, and
nothing outside the output is touched. -/
theorem outReplaceMem_of_text (spelled : Spelled code text) {len : Nat}
    {out : List Char} (written : outReplaceText code text len = some out)
    (outText : Int) (memory : Mem Char) :
    ∃ after, outReplaceMem code text outText len memory = some after ∧
      Mem.Within outText (outText + len) memory after ∧
      after.bytes outText (out.length + 1) = out ++ ['\x00'] := by
  rw [outReplaceText_spelled spelled] at written
  by_cases fits : (escaped text).length < len
  · rw [if_pos fits] at written
    cases written
    obtain ⟨after, result, within, holds⟩ := @outReplaceInto_fits code text _ len outText
      (memory.store outText ['\x00']) spelled (Nat.le_refl _)
      (Int.ofNat_lt.mpr fits)
    have first : Mem.Within outText (outText + len) memory
        (memory.store outText ['\x00']) := by
      apply Mem.within_store (Int.le_refl _)
      rw [length_singleton]
      omega
    rw [length_append, length_singleton] at holds
    exact ⟨after, result, first.trans within, holds⟩
  · rw [if_neg fits] at written
    cases written

end Writing

section Reading

variable {code : CodeType} {value : List Char}

theorem escaped_whole (whole : '\x00' ∉ value) : '\x00' ∉ escaped value := by
  intro member
  obtain ⟨c, inside, found⟩ := mem_flatMap.mp member
  cases known : entity c with
  | none =>
    rw [known, Option.getD_none, mem_singleton] at found
    exact whole (found ▸ inside)
  | some name =>
    rcases entity_cases known with rfl | rfl | rfl | rfl | rfl <;>
      cases known <;> exact absurd found (by decide)

theorem fuel_enough (text : List Char) (stop : Char) (rest : List Char) :
    text.length + 1 ≤ (text ++ stop :: rest).length := by
  rw [length_append, length_cons]
  omega

theorem reads_escaped (spelled : Spelled code value) (rest : List Char)
    {size : Nat} (room : value.length < size) :
    xmlReadAttrval none code ('"' :: (escaped value ++ '"' :: rest)) size =
        some (some (value, rest)) ∧
      xmlReadValue none code (escaped value ++ '<' :: '/' :: rest) =
        some (value, '<' :: '/' :: rest) := by
  constructor
  · have found := readAttrvalFrom_escaped spelled rest
      (fuel_enough (escaped value) '"' rest) room
    have begins : xmlReadAttrval none code ('"' :: (escaped value ++ '"' :: rest))
        size = (readAttrvalFrom none code (escaped value ++ '"' :: rest).length size
          (escaped value ++ '"' :: rest)).map some := rfl
    rw [begins, found]
    rfl
  · exact readValueFrom_escaped spelled rest
      (fuel_enough (escaped value) '<' ('/' :: rest))

/-- For every text in UTF-8 and every length of the output: `_out_replace_text`
stays within its output, and what it has written is read back if that is large
enough, if and only if the escaped text and its NUL fit in. -/
theorem escaping_exact_iff (single : code ≠ .gbk) (valid : Utf8 value)
    (whole : '\x00' ∉ value) (outText : Int) (len : Nat) (memory : Mem Char) :
    (∃ after, outReplaceMem code value outText len memory = some after ∧
        EscapedWell code value outText len memory after) ↔
      escapedSize value < len := by
  have spelled : Spelled code value := by
    cases code with
    | ansi => exact spelled_ansi value
    | gbk => exact absurd rfl single
    | utf8 => exact valid.spelled
  constructor
  · rintro ⟨after, result, good⟩
    by_contra tooLong
    rw [← length_escaped] at tooLong
    obtain ⟨last, beyond, _, behind, member⟩ :=
      outReplaceInto_beyond spelled (Nat.le_refl _) (by omega) result
    obtain ⟨ranges, touched, member⟩ := touched_behind behind member
    obtain ⟨others, same, inside⟩ := good.within.touched
    obtain rfl := append_cancel_left (touched.symm.trans same)
    have bounds := inside _ member
    omega
  · intro fits
    rw [← length_escaped] at fits
    obtain ⟨after, result, within, holds⟩ := outReplaceMem_of_text spelled
      ((outReplaceText_spelled spelled len).trans (if_pos fits)) outText memory
    exact ⟨after, result, within, fun _ => ⟨escaped value,
      ⟨escaped_whole whole, holds⟩,
      fun rest _ room => reads_escaped spelled rest room⟩⟩

/-- An entity that does not fit: of `'` in four bytes, the NUL is written behind
the four, and once more behind the whole entity. -/
theorem escaping_not_exact :
    (outReplaceMem .utf8 ['\''] 0 4 (Mem.untouched fun _ => 'x')).map
        (fun after => after.touched) = some [(0, 1), (0, 5), (6, 1)] ∧
    (outReplaceMem .utf8 ['a'] 0 0 (Mem.untouched fun _ => 'x')).map
        (fun after => after.touched) = some [(0, 1), (0, 1)] := by
  decide

theorem escaping_exact_entities :
    ∃ after, outReplaceMem .utf8 "a&lt;'b".toList 100 17
        (Mem.untouched fun _ => 'x') = some after ∧
      EscapedWell .utf8 "a&lt;'b".toList 100 17 (Mem.untouched fun _ => 'x')
        after :=
  (escaping_exact_iff (by decide) ⟨"a&lt;'b".toList, by decide⟩ (by decide) 100
    17 _).mpr (by decide)

end Reading

end NdNet.Xml
