import NdNet.App.HttpForms
import NdNet.Lib.Access

/-!
# URL coding in memory

`URLcodeTotext` walks over its text by a pointer and looks at one byte at a
time, two of them behind a percent sign.  Here it is followed byte by byte, with
the places it looks at; it never comes past the NUL that ends the text.
-/

namespace NdNet.Http

open NdNet.Str List

variable {text : List Char}

/-- The byte at a place of a text; nothing is known behind its NUL. -/
def urlByteAt (text : List Char) (urlCode : Nat) : Access Nat Char :=
  Access.reach urlCode (text ++ ['\x00'])[urlCode]?

/-- The loop of `URLcodeTotext` from a place on, with the places it looks at;
`none` if its turns are used up. -/
def urlcodeTotextAt (text : List Char) :
    Nat → Nat → Access Nat (Option (List Char))
  | 0, _ => pure none
  | turns + 1, urlCode => do
      let chr1 ← urlByteAt text urlCode
      if chr1 = '\x00' then pure (some [])
      else if chr1 = '%' then
        let hiBits4 ← urlByteAt text (urlCode + 1)
        if hiBits4 = '\x00' then pure (some [])
        else
          let loBits4 ← urlByteAt text (urlCode + 2)
          if loBits4 = '\x00' then pure (some [])
          else
            let later ← urlcodeTotextAt text turns (urlCode + 3)
            pure (later.map
              (Char.ofNat ((fromHexChar hiBits4 * 16 |||
                fromHexChar loBits4) % 256) :: ·))
      else
        let later ← urlcodeTotextAt text turns (urlCode + 1)
        pure (later.map ((if chr1 = '+' then ' ' else chr1) :: ·))

theorem urlByteAt_sound (text : List Char) (urlCode : Nat) :
    Access.Sound (· ≤ text.length) (urlByteAt text urlCode) := by
  apply Access.sound_reach
  rw [Option.isSome_iff_ne_none, ne_eq, getElem?_eq_none_iff,
    length_append, length_singleton, Nat.not_le]
  exact Nat.lt_succ_iff

theorem urlcodeTotextAt_sound (text : List Char) (turns urlCode : Nat) :
    Access.Sound (· ≤ text.length) (urlcodeTotextAt text turns urlCode) := by
  induction turns generalizing urlCode with
  | zero => exact Access.sound_pure none
  | succ turns induction =>
    apply Access.sound_bind (urlByteAt_sound text urlCode)
    intro chr1 _
    apply Access.sound_ite
    · intro _
      exact Access.sound_pure _
    · intro _
      apply Access.sound_ite
      · intro _
        apply Access.sound_bind (urlByteAt_sound text _)
        intro hiBits4 _
        apply Access.sound_ite
        · intro _
          exact Access.sound_pure _
        · intro _
          apply Access.sound_bind (urlByteAt_sound text _)
          intro loBits4 _
          apply Access.sound_ite
          · intro _
            exact Access.sound_pure _
          · intro _
            apply Access.sound_bind (induction _)
            intro later _
            exact Access.sound_pure _
      · intro _
        apply Access.sound_bind (induction _)
        intro later _
        exact Access.sound_pure _

theorem urlByteAt_result (text : List Char) {urlCode : Nat}
    (inside : urlCode ≤ text.length) :
    (urlByteAt text urlCode).result =
      some ((text.drop urlCode).headD '\x00') := by
  unfold urlByteAt
  rw [Access.result_reach]
  rcases Nat.lt_or_eq_of_le inside with before | rfl
  · rw [getElem?_append_left before, getElem?_eq_getElem before,
      drop_eq_getElem_cons before, headD_cons]
  · rw [getElem?_concat_length, drop_length, headD_nil]

theorem drop_tail {urlCode : Nat} {c : Char} {rest : List Char}
    (ahead : text.drop urlCode = c :: rest) :
    text.drop (urlCode + 1) = rest ∧ urlCode < text.length := by
  constructor
  · rw [← tail_drop, ahead, tail_cons]
  · have length := congrArg length ahead
    rw [length_drop, length_cons] at length
    omega

theorem urlcodeTotextAt_result (text : List Char) (whole : '\x00' ∉ text)
    {turns urlCode : Nat} (inside : urlCode ≤ text.length)
    (enough : text.length - urlCode < turns) :
    (urlcodeTotextAt text turns urlCode).result =
      some (some (urlcodeTotext (text.drop urlCode))) := by
  induction turns generalizing urlCode with
  | zero => omega
  | succ turns induction =>
    have visible : ∀ place : Nat, ∀ c rest, text.drop place = c :: rest →
        c ≠ '\x00' := by
      rintro place c rest ahead rfl
      refine whole (mem_of_mem_drop (i := place) ?_)
      rw [ahead]
      exact mem_cons_self
    rw [urlcodeTotextAt, Access.result_bind, urlByteAt_result text inside,
      Option.bind_some]
    cases ahead : text.drop urlCode with
    | nil => rfl
    | cons chr1 rest =>
      obtain ⟨next, before⟩ := drop_tail ahead
      rw [headD_cons, if_neg (visible urlCode chr1 rest ahead)]
      by_cases percent : chr1 = '%'
      · subst percent
        rw [if_pos rfl, Access.result_bind,
          urlByteAt_result text (Nat.succ_le_of_lt before), next,
          Option.bind_some]
        cases rest with
        | nil => rfl
        | cons hiBits4 rest =>
          obtain ⟨second, within⟩ := drop_tail next
          rw [headD_cons, if_neg (visible _ hiBits4 rest next),
            Access.result_bind,
            urlByteAt_result text (Nat.succ_le_of_lt within), second,
            Option.bind_some]
          cases rest with
          | nil => rfl
          | cons loBits4 rest =>
            obtain ⟨third, last⟩ := drop_tail second
            rw [headD_cons, if_neg (visible _ loBits4 rest second),
              Access.result_bind, induction last (by omega), third,
              urlcodeTotext_code]
            rfl
      · rw [if_neg percent, Access.result_bind,
          induction before (by omega), next, urlcodeTotext_cons percent]
        rfl

def urlPlain (c : Char) : Prop :=
  isalnum c = true ∨ c ∈ ['-', '_', '.', '~', '+', '%']

theorem textToUrlcode_plain (isLittle : Bool)
    (bytes : ∀ c ∈ text, c.toNat < 256) :
    ∀ c ∈ textToUrlcode isLittle text, urlPlain c := by
  have digits : ∀ little : Bool, ∀ x < 16,
      isalnum (bits4ToHex little x) = true := by decide
  induction text with
  | nil =>
    intro c member
    cases member
  | cons d text induction =>
    obtain ⟨byte, others⟩ := forall_mem_cons.mp bytes
    have later := induction others
    rw [textToUrlcode]
    split_ifs with plain space
    · refine forall_mem_cons.mpr ⟨?_, later⟩
      simp only [Bool.or_eq_true, beq_iff_eq] at plain
      unfold urlPlain
      simp only [mem_cons]
      tauto
    · refine forall_mem_cons.mpr ⟨?_, later⟩
      right
      decide
    · refine forall_mem_cons.mpr ⟨?_, ?_⟩
      · right
        decide
      · refine forall_mem_cons.mpr ⟨.inl (digits isLittle _ (by omega)), ?_⟩
        exact forall_mem_cons.mpr
          ⟨.inl (digits isLittle _ (Nat.mod_lt _ (by decide))), later⟩

/-- What is encoded is decoded again and is made of few characters, and every
text is decoded without a look behind its NUL. -/
theorem urlCoding (isLittle : Bool) {s : List Char}
    (bytes : ∀ c ∈ s, c ≠ '\x00' ∧ c.toNat < 256) (whole : '\x00' ∉ text) :
    urlcodeTotext (textToUrlcode isLittle s) = s ∧
      (∀ c ∈ textToUrlcode isLittle s, urlPlain c) ∧
      ∃ turns,
        (urlcodeTotextAt text turns 0).result =
          some (some (urlcodeTotext text)) ∧
        ∀ place ∈ (urlcodeTotextAt text turns 0).touched,
          place ≤ text.length := by
  have small : ∀ c ∈ s, c.toNat < 256 := fun c member => (bytes c member).2
  refine ⟨?_, textToUrlcode_plain isLittle small, text.length + 1, ?_, ?_⟩
  · have decoded := urlcodeTotext_textToUrlcode isLittle small []
    rw [append_nil] at decoded
    rw [decoded]
    exact append_nil s
  · exact urlcodeTotextAt_result text whole (Nat.zero_le _) (by omega)
  · apply (urlcodeTotextAt_sound text _ 0).mp
    rw [urlcodeTotextAt_result text whole (Nat.zero_le _) (by omega)]
    rfl

theorem urlCoding_percent :
    urlcodeTotext (textToUrlcode true "a %+".toList) = "a %+".toList ∧
      (∀ c ∈ textToUrlcode true "a %+".toList, urlPlain c) ∧
      ∃ turns,
        (urlcodeTotextAt "ab%4".toList turns 0).result =
          some (some (urlcodeTotext "ab%4".toList)) ∧
        ∀ place ∈ (urlcodeTotextAt "ab%4".toList turns 0).touched,
          place ≤ "ab%4".toList.length :=
  urlCoding true (by decide) (by decide)

end NdNet.Http
