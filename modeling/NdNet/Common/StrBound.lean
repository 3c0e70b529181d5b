import NdNet.Common.Str

/-!
# The room of the bounded scanners

The scanners of `nd_str.c` that are given the size of their output. A scanner
has no result if it comes behind the NUL of its text, and it writes a NUL
behind what it has copied. A character of several bytes is copied as a whole,
and the count is looked at only between characters.
-/

namespace NdNet.Str

/-- `endmark == a` of `_ndstr_read_cmd`: a `char` from 0x80 on is negative and
equals no unsigned one. -/
def atEndmark (endmark c : Char) : Bool :=
  endmark == c && decide (c.toNat < 0x80)

/-- `_ndstr_read_cmd`: what it copies and where it stops.  A character behind a
backslash is copied whatever it is, also the NUL. -/
def readCmd (endmark : Char) : Int → List Char → Option (List Char × List Char)
  | _, [] => some ([], [])
  | n, '\\' :: rest =>
    if n ≤ 0 then some ([], '\\' :: rest)
    else
      match rest with
      | [] => none
      | c :: rest =>
        (readCmd endmark (n - 1) rest).map fun found =>
          (c :: found.1, found.2)
  | n, c :: rest =>
    if n ≤ 0 then some ([], c :: rest)
    else if atEndmark endmark c then some ([], rest)
    else
      (readCmd endmark (n - 1) rest).map fun found => (c :: found.1, found.2)

/-- The word a scanner copies if there is room for it.  It goes up to the end
of the text or a character that stops the scanner, and consists of whole
characters; `pending` bytes of the current one are still to come. -/
inductive Copied (size : Char → Nat) (stop : Char → Bool) :
    Nat → List Char → List Char → Prop where
  | done : Copied size stop 0 [] []
  | stops {c : Char} {rest : List Char} :
      stop c = true → Copied size stop 0 (c :: rest) []
  | starts {c : Char} {rest word : List Char} :
      stop c = false → Copied size stop (size c - 1) rest word →
        Copied size stop 0 (c :: rest) (c :: word)
  | goesOn {c : Char} {rest word : List Char} {pending : Nat} :
      Copied size stop pending rest word →
        Copied size stop (pending + 1) (c :: rest) (c :: word)

/-- The text ends within a character that a scanner copies. -/
inductive Torn (size : Char → Nat) (stop : Char → Bool) :
    Nat → List Char → Prop where
  | ends {pending : Nat} : Torn size stop (pending + 1) []
  | starts {c : Char} {rest : List Char} :
      stop c = false → Torn size stop (size c - 1) rest →
        Torn size stop 0 (c :: rest)
  | goesOn {c : Char} {rest : List Char} {pending : Nat} :
      Torn size stop pending rest → Torn size stop (pending + 1) (c :: rest)

/-- What a scanner copies is shorter than its output. -/
def FitsIn (size : Char → Nat) (stop : Char → Bool) (text : List Char)
    (n : Nat) : Prop :=
  ∃ word, Copied size stop 0 text word ∧ word.length < n

/-- What `_ndstr_read_cmd` copies if there is room for it: a backslash stands
with the character behind it. -/
inductive Quoted (endmark : Char) : List Char → List Char → Prop where
  | done : Quoted endmark [] []
  | closed {c : Char} {rest : List Char} :
      c ≠ '\\' → atEndmark endmark c = true → Quoted endmark (c :: rest) []
  | escaped {c : Char} {rest word : List Char} :
      Quoted endmark rest word → Quoted endmark ('\\' :: c :: rest) (c :: word)
  | plain {c : Char} {rest word : List Char} :
      c ≠ '\\' → atEndmark endmark c = false → Quoted endmark rest word →
        Quoted endmark (c :: rest) (c :: word)

/-- The text up to the end mark has no backslash at its end, and what is copied
from it is shorter than the output. -/
def CmdFitsIn (endmark : Char) (text : List Char) (n : Nat) : Prop :=
  ∃ word, Quoted endmark text word ∧ word.length < n

section Scanners

theorem longer_iff (c : Char) (result : Option (List Char × List Char))
    (room : Int) :
    (∃ found, result.map (fun found => (c :: found.1, found.2)) = some found ∧
        (found.1.length : Int) < room) ↔
      ∃ found, result = some found ∧ (found.1.length : Int) < room - 1 := by
  cases result with
  | none => simp
  | some found =>
    simp only [Option.map_some, Option.some.injEq, exists_eq_left',
      List.length_cons]
    omega

variable {size : Char → Nat} {stop : Char → Bool}

/-- A scanner keeps to the text, with room left for the NUL, exactly if what it
copies fits; by induction on the text.  The bytes of a character are taken from
the count as soon as it begins. -/
theorem scan_keeps_iff (positive : ∀ c, 0 < size c) (text : List Char)
    (pending : Nat) (n : Int) :
    (∃ found, scan size stop (some n) pending text = some found ∧
        (found.1.length : Int) < n + pending) ↔
      ∃ word, Copied size stop pending text word ∧
        (word.length : Int) < n + pending := by
  induction text generalizing pending n with
  | nil =>
    constructor
    · rintro ⟨found, scanned, short⟩
      cases pending with
      | zero =>
        cases scanned
        exact ⟨[], .done, short⟩
      | succ pending => cases scanned
    · rintro ⟨word, copied, short⟩
      cases copied
      exact ⟨([], []), rfl, short⟩
  | cons c rest induction =>
    cases pending with
    | succ pending =>
      have room : n + ((pending + 1 : Nat) : Int) - 1 = n + pending := by
        omega
      rw [scan, longer_iff, room, induction]
      constructor
      · rintro ⟨word, copied, short⟩
        exact ⟨c :: word, .goesOn copied, by simp; omega⟩
      · rintro ⟨word, copied, short⟩
        cases copied with
        | goesOn copied => exact ⟨_, copied, by simp at short; omega⟩
    | zero =>
      by_cases used : n ≤ 0
      · constructor
        · rintro ⟨found, -, short⟩
          omega
        · rintro ⟨word, -, short⟩
          omega
      cases stops : stop c with
      | true =>
        constructor
        · intro
          exact ⟨[], .stops stops, by simp; omega⟩
        · intro
          exact ⟨([], c :: rest), by simp [scan, stops], by simp; omega⟩
      | false =>
        have one := positive c
        have turn : scan size stop (some n) 0 (c :: rest) =
            (scan size stop (some (n - size c)) (size c - 1) rest).map
              fun found => (c :: found.1, found.2) := by
          simp [scan, stops, used]
        have room : n + ((0 : Nat) : Int) - 1 =
            n - size c + ((size c - 1 : Nat) : Int) := by
          omega
        rw [turn, longer_iff, room, induction]
        constructor
        · rintro ⟨word, copied, short⟩
          exact ⟨c :: word, .starts stops copied, by simp; omega⟩
        · rintro ⟨word, copied, short⟩
          cases copied with
          | stops other => simp [stops] at other
          | starts _ copied =>
            exact ⟨_, copied, by simp at short; omega⟩

/-- A scanner without a bound comes behind the NUL exactly if the text ends
within a character it copies. -/
theorem scan_torn_iff (pending : Nat) (text : List Char) :
    scan size stop none pending text = none ↔ Torn size stop pending text := by
  induction text generalizing pending with
  | nil =>
    cases pending with
    | zero => exact ⟨nofun, nofun⟩
    | succ pending => exact ⟨fun _ => .ends, fun _ => rfl⟩
  | cons c rest induction =>
    cases pending with
    | succ pending =>
      rw [scan, Option.map_eq_none_iff, induction]
      refine ⟨.goesOn, fun torn => ?_⟩
      cases torn with
      | goesOn torn => exact torn
    | zero =>
      cases stops : stop c with
      | true =>
        refine ⟨fun lost => ?_, fun torn => ?_⟩
        · simp [scan, stops] at lost
        · cases torn with
          | starts other => simp [stops] at other
      | false =>
        have turn : scan size stop none 0 (c :: rest) =
            (scan size stop none (size c - 1) rest).map
              fun found => (c :: found.1, found.2) := by
          simp [scan, stops]
        rw [turn, Option.map_eq_none_iff, induction]
        refine ⟨.starts stops, fun torn => ?_⟩
        cases torn with
        | starts _ torn => exact torn

/-- What a scanner copies and where it stops are given by the text alone, or
the text ends within a character. -/
theorem copied_or_torn (pending : Nat) (text : List Char) :
    (∃ word, Copied size stop pending text word) ∨
      Torn size stop pending text := by
  induction text generalizing pending with
  | nil =>
    cases pending with
    | zero => exact .inl ⟨[], .done⟩
    | succ pending => exact .inr .ends
  | cons c rest induction =>
    cases pending with
    | succ pending =>
      obtain ⟨word, copied⟩ | torn := induction pending
      · exact .inl ⟨c :: word, .goesOn copied⟩
      · exact .inr (.goesOn torn)
    | zero =>
      cases stops : stop c with
      | true => exact .inl ⟨[], .stops stops⟩
      | false =>
        obtain ⟨word, copied⟩ | torn := induction (size c - 1)
        · exact .inl ⟨c :: word, .starts stops copied⟩
        · exact .inr (.starts stops torn)

theorem Copied.not_torn {pending : Nat} {text word : List Char}
    (copied : Copied size stop pending text word) :
    ¬ Torn size stop pending text := by
  intro torn
  induction copied with
  | done => cases torn
  | stops stops =>
    cases torn with
    | starts other => simp [stops] at other
  | starts _ _ induction =>
    cases torn with
    | starts _ torn => exact induction torn
  | goesOn _ induction =>
    cases torn with
    | goesOn torn => exact induction torn

theorem Copied.unique {pending : Nat} {text first second : List Char}
    (copied : Copied size stop pending text first)
    (other : Copied size stop pending text second) : first = second := by
  induction copied generalizing second with
  | done =>
    cases other
    rfl
  | stops stops =>
    cases other with
    | stops => rfl
    | starts goes => simp [stops] at goes
  | starts goes _ induction =>
    cases other with
    | stops stops => simp [stops] at goes
    | starts _ other => rw [induction other]
  | goesOn _ induction =>
    cases other with
    | goesOn other => rw [induction other]

theorem not_fitsIn_iff (text : List Char) (n : Nat) :
    ¬ FitsIn size stop text n ↔
      Torn size stop 0 text ∨
        ∃ word, Copied size stop 0 text word ∧ n ≤ word.length := by
  constructor
  · intro tight
    obtain ⟨word, copied⟩ | torn := @copied_or_torn size stop 0 text
    · refine .inr ⟨word, copied, ?_⟩
      exact Nat.le_of_not_lt fun short => tight ⟨word, copied, short⟩
    · exact .inl torn
  · rintro (torn | ⟨word, copied, long⟩) ⟨other, fits, short⟩
    · exact fits.not_torn torn
    · rw [copied.unique fits] at long
      omega

theorem readCmd_keeps_iff (endmark : Char) (n : Int) (text : List Char) :
    (∃ found, readCmd endmark n text = some found ∧
        (found.1.length : Int) < n) ↔
      ∃ word, Quoted endmark text word ∧ (word.length : Int) < n := by
  induction n, text using readCmd.induct endmark with
  | case1 n =>
    constructor
    · rintro ⟨found, scanned, short⟩
      cases scanned
      exact ⟨[], .done, short⟩
    · rintro ⟨word, quoted, short⟩
      cases quoted
      exact ⟨([], []), rfl, short⟩
  | case2 n rest used =>
    constructor
    · rintro ⟨found, -, short⟩
      omega
    · rintro ⟨word, -, short⟩
      omega
  | case3 n left =>
    constructor
    · rintro ⟨found, scanned, -⟩
      simp [readCmd, left] at scanned
    · rintro ⟨word, quoted, -⟩
      cases quoted with
      | closed other | plain other => exact (other rfl).elim
  | case4 n left c rest induction =>
    have turn : readCmd endmark n ('\\' :: c :: rest) =
        (readCmd endmark (n - 1) rest).map
          fun found => (c :: found.1, found.2) := by
      simp [readCmd, left]
    rw [turn, longer_iff, induction]
    constructor
    · rintro ⟨word, quoted, short⟩
      exact ⟨c :: word, .escaped quoted, by simp; omega⟩
    · rintro ⟨word, quoted, short⟩
      cases quoted with
      | closed other => exact (other rfl).elim
      | escaped quoted => exact ⟨_, quoted, by simp at short; omega⟩
      | plain other => exact (other rfl).elim
  | case5 n c rest noSlash used =>
    constructor
    · rintro ⟨found, -, short⟩
      omega
    · rintro ⟨word, -, short⟩
      omega
  | case6 n c rest noSlash left mark =>
    constructor
    · intro
      exact ⟨[], .closed noSlash mark, by simp; omega⟩
    · intro
      refine ⟨([], rest), ?_, by simp; omega⟩
      rw [readCmd, if_neg left, if_pos mark]
      exact noSlash
  | case7 n c rest noSlash left noMark induction =>
    have turn : readCmd endmark n (c :: rest) =
        (readCmd endmark (n - 1) rest).map
          fun found => (c :: found.1, found.2) := by
      rw [readCmd, if_neg left, if_neg noMark]
      exact noSlash
    rw [turn, longer_iff, induction]
    constructor
    · rintro ⟨word, quoted, short⟩
      exact ⟨c :: word, .plain noSlash (Bool.eq_false_iff.mpr noMark) quoted,
        by simp; omega⟩
    · rintro ⟨word, quoted, short⟩
      cases quoted with
      | closed _ mark => exact (noMark mark).elim
      | escaped => exact (noSlash rfl).elim
      | plain _ _ quoted => exact ⟨_, quoted, by simp at short; omega⟩

end Scanners

section Law

/-- The characters of `ndstr_parse_word_n`. -/
def wordNPlain (c : Char) : Bool :=
  numeral c || bigLatin c || littleLatin c || c == '_' || c == '.'

/-- The five scanners, given an output of `n` bytes: none comes behind the NUL
of the text, and each leaves room for its own. -/
structure KeepsBounds (code : CodeType) (text : List Char)
    (final endmark : Char) (n : Nat) : Prop where
  parseWordN : ∃ found, parseWordN code text n = some found ∧ found.1.length < n
  parseVariantN : ∃ found, parseVariantN code text n = some found ∧
    found.2.1.length < n
  nstrEnd : ∃ found, nstrEnd code text final n = some found ∧ found.1.length < n
  nstrAnsi : (nstrAnsi final n text).1.length < n
  readCmd : ∃ found, readCmd endmark n text = some found ∧ found.1.length < n

/-- What each of the scanners copies fits. -/
structure AllFit (code : CodeType) (text : List Char)
    (final endmark : Char) (n : Nat) : Prop where
  parseWordN : FitsIn (wordBytes code wordNPlain) (wordStop code wordNPlain)
    text n
  parseVariantN : FitsIn (wordBytes code variantPlain)
    (wordStop code variantPlain) text n
  nstrEnd : FitsIn (wordSize code) (· == final) text n
  nstrAnsi : FitsIn (fun _ => 1) (· == final) text n
  readCmd : CmdFitsIn endmark text n

theorem wordBytes_pos (code : CodeType) (plain : Char → Bool) (c : Char) :
    0 < wordBytes code plain c := by
  rw [wordBytes]
  split_ifs
  · exact Nat.one_pos
  · exact wordSize_pos code c

theorem mapped_keeps_iff {size : Char → Nat} (stop : Char → Bool) {α : Type}
    (answer : List Char × List Char → α) (copied : α → List Char)
    (positive : ∀ c, 0 < size c)
    (same : ∀ found, copied (answer found) = found.1) (text : List Char)
    (n : Nat) :
    (∃ found, (scan size stop (some (n : Int)) 0 text).map answer = some found ∧
        (copied found).length < n) ↔
      FitsIn size stop text n := by
  have keeps := @scan_keeps_iff size stop positive text 0 n
  simp only [Int.natCast_zero, Int.add_zero, Int.ofNat_lt] at keeps
  rw [FitsIn, ← keeps]
  constructor
  · rintro ⟨found, answered, short⟩
    obtain ⟨scanned, result, rfl⟩ := Option.map_eq_some_iff.mp answered
    exact ⟨scanned, result, same scanned ▸ short⟩
  · rintro ⟨scanned, result, short⟩
    refine ⟨answer scanned, ?_, same scanned ▸ short⟩
    exact Option.map_eq_some_iff.mpr ⟨scanned, result, rfl⟩

theorem scan_ansi (final : Char) (n : Nat) (text : List Char) :
    scan (fun _ => 1) (· == final) (some (n : Int)) 0 text =
      some (nstrAnsi final n text) := by
  induction n generalizing text with
  | zero => cases text <;> simp [scan, nstrAnsi]
  | succ n induction =>
    cases text with
    | nil => rfl
    | cons c rest =>
      have left : ¬ ((n + 1 : Nat) : Int) ≤ 0 := by omega
      have less : ((n + 1 : Nat) : Int) - (1 : Nat) = n := by omega
      by_cases stops : c = final
      · simp [scan, nstrAnsi, stops]
      · simp only [scan, nstrAnsi, stops, Option.any_some, left, less,
          Option.map_some, induction, decide_false, beq_eq_false_iff_ne.mpr,
          ne_eq, not_false_eq_true, Bool.or_self, Bool.false_eq_true,
          if_false, Nat.sub_self]

/-- Every scanner stays within the text and within its output exactly if what
it copies is a row of whole characters that leaves room for the NUL. -/
theorem keepsBounds_iff (code : CodeType) (text : List Char)
    (final endmark : Char) (n : Nat) :
    KeepsBounds code text final endmark n ↔
      AllFit code text final endmark n := by
  have word := mapped_keeps_iff (wordStop code wordNPlain)
    (fun found => (found.1, notAtEnd found.2)) Prod.fst
    (wordBytes_pos code wordNPlain) (fun _ => rfl) text n
  have variant := mapped_keeps_iff (wordStop code variantPlain)
    (fun found =>
      (if found.1.isEmpty && !text.isEmpty && decide ((0 : Int) < n) then -1
        else (found.1.length : Int), found.1, found.2))
    (fun found => found.2.1) (wordBytes_pos code variantPlain) (fun _ => rfl)
    text n
  have ended := mapped_keeps_iff (· == final) id Prod.fst (wordSize_pos code)
    (fun _ => rfl) text n
  have ansi := mapped_keeps_iff (· == final) id Prod.fst
    (fun _ => Nat.one_pos) (fun _ => rfl) text n
  have cmd := readCmd_keeps_iff endmark n text
  simp only [Int.ofNat_lt] at cmd
  rw [Option.map_id, id] at ended
  rw [scan_ansi, Option.map_some] at ansi
  simp only [id, Option.some.injEq, exists_eq_left'] at ansi
  constructor
  · intro keeps
    exact ⟨word.mp keeps.parseWordN, variant.mp keeps.parseVariantN,
      ended.mp keeps.nstrEnd, ansi.mp keeps.nstrAnsi, cmd.mp keeps.readCmd⟩
  · intro fits
    exact ⟨word.mpr fits.parseWordN, variant.mpr fits.parseVariantN,
      ended.mpr fits.nstrEnd, ansi.mpr fits.nstrAnsi, cmd.mpr fits.readCmd⟩

/-- Two letters fill an output of two bytes, and the NUL is a third one; and the
NUL is taken for a part of a character that is cut off. -/
theorem twoLetters_not_keepsBounds :
    ¬ KeepsBounds .ansi ['a', 'b'] ';' '"' 2 ∧
      ¬ KeepsBounds .utf8 [Char.ofNat 0xe4] ';' '"' 16 := by
  constructor
  · intro keeps
    obtain ⟨found, returned, short⟩ := keeps.parseWordN
    have written : parseWordN .ansi ['a', 'b'] 2 = some (['a', 'b'], none) := by
      rfl
    rw [← Option.some.inj (written.symm.trans returned)] at short
    exact absurd short (by decide)
  · intro keeps
    obtain ⟨found, returned, -⟩ := keeps.nstrEnd
    have lost : nstrEnd .utf8 [Char.ofNat 0xe4] ';' 16 = none := by rfl
    cases lost.symm.trans returned

end Law

end NdNet.Str
