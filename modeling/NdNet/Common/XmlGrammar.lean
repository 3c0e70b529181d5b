import NdNet.Common.XmlText

/-!
# The texts that `parse_xmlbuf` accepts

An element is a tag with its attributes and, unless the tag closes it, its text
or its children and an end tag of the same name.  The scanners of `nd_xml.c` are
the terminals: names, attribute values and the text of an element end where
these stop, and names are the same if `ndstricmp` finds them so.

The parser passes over more than white space in some places: between the name
of an attribute, the equals sign and the quotation mark, and behind the name of
an end tag.  In the text of an element it accepts the sign that opens a tag.  At
the top level a tag without a name ends the text, and so does an end tag of
another name that the text breaks off.  The first index of the grammar says
whether one of these places is there.
-/

namespace NdNet.Xml

open NdNet.Str

/-- White space, declarations and comments in front of a tag. -/
inductive Skips : List Char → List Char → Prop
  | tag {text rest : List Char} :
      firstValid text = some ('<' :: rest) → rest.head? ≠ some '?' →
        rest.head? ≠ some '!' → Skips text ('<' :: rest)
  | declaration {text rest found tag : List Char} :
      firstValid text = some ('<' :: '?' :: rest) →
        strstr "?>".toList rest = some found → Skips (found.drop 2) tag →
          Skips text tag
  | comment {text rest found tag : List Char} :
      firstValid text = some ('<' :: '!' :: '-' :: '-' :: rest) →
        strstr "-->".toList rest = some found → Skips (found.drop 3) tag →
          Skips text tag

/-- Something other than white space stands in front of `rest`, the end of a
text. -/
def loose (text rest : List Char) : Bool :=
  (text.take (text.length - rest.length)).any fun c => !decide (c ≤ ' ')

/-- A sign that opens a tag stands in front of `rest`, the end of a text. -/
def hasMark (text rest : List Char) : Bool :=
  (text.take (text.length - rest.length)).any fun c => c == '<'

/-- The name behind the sign that opens a tag begins at `start`. -/
structure TagStart (text start : List Char) : Prop where
  found : ∃ tag, Skips text tag ∧ isMarkStart tag = false ∧
    firstValid (tag.drop 1) = some start
  first : (start.head?.any fun c => c ∈ ['>', '<', '"', '/']) = false

def Tag (code : CodeType) (text name behind : List Char) : Prop :=
  ∃ start ret, TagStart text start ∧
    parseVariantN code start maxXmlnameSize = some (ret, name, behind) ∧
      0 < ret ∧ name.length < maxXmlnameSize

/-- A tag opens without a name: the text ends, or a character follows with which
no name begins. -/
def Nameless (code : CodeType) (text : List Char) : Prop :=
  (∃ tag, Skips text tag ∧ isMarkStart tag = false ∧
    firstValid (tag.drop 1) = none) ∨
  ∃ start ret name behind, TagStart text start ∧
    parseVariantN code start maxXmlnameSize = some (ret, name, behind) ∧ ret ≤ 0

/-- The name of an attribute begins at `start`. -/
structure AttribStart (text start : List Char) : Prop where
  found : firstValid text = some start
  inside : isMarkEnd start = false
  unclosed : start.head? ≠ some '>'

def AttribMark (code : CodeType) (text : List Char) (lax : Bool)
    (mark : List Char) : Prop :=
  ∃ start ret name behind, AttribStart text start ∧
    parseVariantN code start maxXmlnameSize = some (ret, name, behind) ∧
      0 < ret ∧ name.length < maxXmlnameSize ∧ strchr behind '=' = some mark ∧
        lax = loose behind mark

/-- A quoted value ends at `after`, whatever an unknown entity leaves. -/
def Quoted (code : CodeType) (mark after : List Char) : Prop :=
  ∀ stale, ∃ value,
    xmlReadAttrval (some stale) code mark textBufSize =
      some (some (value, after))

def quoteOf (mark : List Char) : List Char :=
  mark.dropWhile fun c => c != '"' && c != '>'

/-- The attributes of a tag and its end; `closed` says whether it closes the
element. -/
inductive Attribs (code : CodeType) :
    Bool → Bool → List Char → List Char → Prop
  | closed {text paddr : List Char} :
      firstValid text = some paddr → isMarkEnd paddr = true →
        Attribs code false true text (paddr.drop 2)
  | opened {text paddr : List Char} :
      firstValid text = some paddr → isMarkEnd paddr = false →
        paddr.head? = some '>' → Attribs code false false text (paddr.drop 1)
  | attrib {lax later closed : Bool} {text mark after rest : List Char} :
      AttribMark code text lax mark → Quoted code mark after →
        Attribs code later closed after rest →
          Attribs code (lax || loose (mark.drop 1) (quoteOf mark) || later)
            closed text rest

def EndTag (code : CodeType) (lax : Bool) (name paddr rest : List Char) :
    Prop :=
  ∃ start endName behind mark, isMarkStart paddr = true ∧
    firstValid (paddr.drop 2) = some start ∧
      parseWord code start = some (endName, some behind) ∧
        endName.length < maxXmlnameSize ∧ stricmp name endName = 0 ∧
          strchr behind '>' = some mark ∧ rest = mark.drop 1 ∧
            lax = loose behind mark

/-- An end tag of another name, with which the text breaks off. -/
def EndLost (code : CodeType) (name paddr : List Char) : Prop :=
  ∃ start endName, isMarkStart paddr = true ∧
    firstValid (paddr.drop 2) = some start ∧
      parseWord code start = some (endName, none) ∧
        endName.length < maxXmlnameSize ∧ stricmp name endName ≠ 0

/-- The text of an element ends at `rest`, whatever an unknown entity leaves. -/
def Value (code : CodeType) (paddr rest : List Char) : Prop :=
  ∀ stale, ∃ value, xmlReadValue (some stale) code paddr = some (value, rest)

mutual

/-- An element, and where it ends. -/
inductive Element (code : CodeType) : Bool → List Char → List Char → Prop
  | closed {lax : Bool} {text name behind rest : List Char} :
      Tag code text name behind → Attribs code lax true behind rest →
        Element code lax text rest
  | opened {lax inner later : Bool}
      {text name behind content paddr rest : List Char} :
      Tag code text name behind → Attribs code lax false behind content →
        Content code inner content paddr → EndTag code later name paddr rest →
          Element code (lax || inner || later) text rest

/-- What stands between the tag of an element and its end tag. -/
inductive Content (code : CodeType) : Bool → List Char → List Char → Prop
  | empty {text paddr : List Char} :
      firstValid text = some paddr → isMarkStart paddr = true →
        Content code false text paddr
  | subs {lax : Bool} {text paddr behind : List Char} :
      firstValid text = some paddr → isMarkStart paddr = false →
        paddr.head? = some '<' → Subs code lax paddr behind →
          Content code lax text behind
  | value {text paddr behind : List Char} :
      firstValid text = some paddr → paddr.head? ≠ some '<' →
        Value code paddr behind →
          Content code (hasMark paddr behind) text behind

/-- The children of an element, up to the end tag. -/
inductive Subs (code : CodeType) : Bool → List Char → List Char → Prop
  | none {text paddr : List Char} :
      Skips text paddr → isMarkStart paddr = true → Subs code false text paddr
  | sub {lax later : Bool} {text rest behind : List Char} :
      Element code lax text rest → Subs code later rest behind →
        Subs code (lax || later) text behind

end

def ElementLost (code : CodeType) (text : List Char) : Prop :=
  ∃ lax inner name behind content paddr, Tag code text name behind ∧
    Attribs code lax false behind content ∧ Content code inner content paddr ∧
      EndLost code name paddr

inductive Document (code : CodeType) : Bool → List Char → Prop
  | done {text : List Char} : firstValid text = none → Document code false text
  | element {lax later : Bool} {text rest : List Char} :
      Element code lax text rest → Document code later rest →
        Document code (lax || later) text
  | nameless {text : List Char} : Nameless code text → Document code true text
  | lost {text : List Char} : ElementLost code text → Document code true text

/-- A name that does not fit into its buffer, or whose last character is cut off
by the end of the text. -/
def NameBreaks (code : CodeType) (start : List Char) : Prop :=
  parseVariantN code start maxXmlnameSize = none ∨
    ∃ ret name behind,
      parseVariantN code start maxXmlnameSize = some (ret, name, behind) ∧
        0 < ret ∧ maxXmlnameSize ≤ name.length

/-- The attributes reach the end of the text, or a name or a value that does not
fit into its buffer or is cut off. -/
inductive AttribsBreak (code : CodeType) : List Char → Prop
  | ended {text : List Char} : firstValid text = none → AttribsBreak code text
  | name {text start : List Char} :
      AttribStart text start → NameBreaks code start → AttribsBreak code text
  | value {lax : Bool} {text mark : List Char} :
      AttribMark code text lax mark →
        (∀ stale, xmlReadAttrval (some stale) code mark textBufSize = none) →
          AttribsBreak code text
  | later {lax : Bool} {text mark after : List Char} :
      AttribMark code text lax mark → Quoted code mark after →
        AttribsBreak code after → AttribsBreak code text

/-- One of the attributes has an equals sign and no quotation mark. -/
inductive Unquoted (code : CodeType) : List Char → Prop
  | here {lax : Bool} {text mark : List Char} :
      AttribMark code text lax mark →
        (∀ stale,
          xmlReadAttrval (some stale) code mark textBufSize = some none) →
            Unquoted code text
  | later {lax : Bool} {text mark after : List Char} :
      AttribMark code text lax mark → Quoted code mark after →
        Unquoted code after → Unquoted code text

/-- The text ends within an end tag, or its name does not fit into its
buffer. -/
def EndBreaks (code : CodeType) (name paddr : List Char) : Prop :=
  isMarkStart paddr = true ∧
    (firstValid (paddr.drop 2) = none ∨
      ∃ start, firstValid (paddr.drop 2) = some start ∧
        (parseWord code start = none ∨
          ∃ endName behind, parseWord code start = some (endName, behind) ∧
            (maxXmlnameSize ≤ endName.length ∨
              (stricmp name endName = 0 ∧ behind.bind (strchr · '>') = none))))

mutual

/-- The text of an element breaks off, or has a part for which there is no
room. -/
inductive ElementBreaks (code : CodeType) : List Char → Prop
  | name {text start : List Char} :
      TagStart text start → NameBreaks code start → ElementBreaks code text
  | attribs {text name behind : List Char} :
      Tag code text name behind → AttribsBreak code behind →
        ElementBreaks code text
  | content {lax : Bool} {text name behind content : List Char} :
      Tag code text name behind → Attribs code lax false behind content →
        ContentBreaks code content → ElementBreaks code text
  | ending {lax inner : Bool} {text name behind content paddr : List Char} :
      Tag code text name behind → Attribs code lax false behind content →
        Content code inner content paddr → EndBreaks code name paddr →
          ElementBreaks code text

inductive ContentBreaks (code : CodeType) : List Char → Prop
  | ended {text : List Char} :
      firstValid text = none → ContentBreaks code text
  | subs {text paddr : List Char} :
      firstValid text = some paddr → isMarkStart paddr = false →
        paddr.head? = some '<' → SubsBreak code paddr → ContentBreaks code text
  | value {text paddr : List Char} :
      firstValid text = some paddr → paddr.head? ≠ some '<' →
        (∀ stale, xmlReadValue (some stale) code paddr = none) →
          ContentBreaks code text

/-- Among the children: nothing but white space follows, a tag has no name or an
attribute without quotation marks, the end tag of a child is lost, or a child
breaks. -/
inductive SubsBreak (code : CodeType) : List Char → Prop
  | ended {text : List Char} : firstValid text = none → SubsBreak code text
  | nameless {text : List Char} : Nameless code text → SubsBreak code text
  | unquoted {text name behind : List Char} :
      Tag code text name behind → Unquoted code behind → SubsBreak code text
  | lost {text : List Char} : ElementLost code text → SubsBreak code text
  | element {text : List Char} : ElementBreaks code text → SubsBreak code text
  | later {lax : Bool} {text rest : List Char} :
      Element code lax text rest → SubsBreak code rest → SubsBreak code text

end

/-- An element of the text breaks, or an end tag stands at the top level, to
which the loop comes back for ever. -/
inductive DocumentBreaks (code : CodeType) : List Char → Prop
  | endTag {text paddr : List Char} :
      Skips text paddr → isMarkStart paddr = true → DocumentBreaks code text
  | element {text : List Char} :
      ElementBreaks code text → DocumentBreaks code text
  | later {lax : Bool} {text rest : List Char} :
      Element code lax text rest → DocumentBreaks code rest →
        DocumentBreaks code text

variable {code : CodeType}

section Scanners

theorem firstValid_le {text start : List Char}
    (found : firstValid text = some start) : start.length ≤ text.length := by
  induction text with
  | nil => cases found
  | cons c text induction =>
    rw [firstValid] at found
    split at found
    · exact Nat.le_succ_of_le (induction found)
    · cases found
      exact Nat.le_refl _

theorem firstValid_found {text start : List Char}
    (found : firstValid text = some start) :
    firstValid start = some start := by
  induction text with
  | nil => cases found
  | cons c text induction =>
    rw [firstValid] at found
    split at found
    · exact induction found
    · rename_i visible
      cases found
      exact firstValid_cons visible text

theorem scan_split {size : Char → Nat} {stop : Char → Bool}
    {budget : Option Int} {pending : Nat} {text : List Char}
    {found : List Char × List Char}
    (scanned : scan size stop budget pending text = some found) :
    found.1 ++ found.2 = text := by
  induction text generalizing budget pending found with
  | nil =>
    cases pending with
    | zero =>
      cases scanned
      rfl
    | succ pending => cases scanned
  | cons c text induction =>
    cases pending with
    | zero =>
      rw [scan] at scanned
      split at scanned
      · cases scanned
        rfl
      · obtain ⟨later, went, rfl⟩ := Option.map_eq_some_iff.mp scanned
        rw [List.cons_append, induction went]
    | succ pending =>
      obtain ⟨later, went, rfl⟩ := Option.map_eq_some_iff.mp scanned
      rw [List.cons_append, induction went]

theorem parseVariantN_split {text name behind : List Char} {n ret : Int}
    (parsed : parseVariantN code text n = some (ret, name, behind)) :
    name ++ behind = text ∧ (0 < ret → 0 < name.length) := by
  obtain ⟨found, scanned, same⟩ := Option.map_eq_some_iff.mp parsed
  have split := scan_split scanned
  cases same
  refine ⟨split, ?_⟩
  intro positive
  split at positive
  · omega
  · exact Int.natCast_pos.mp positive

theorem strstr_le {sought text found : List Char}
    (search : strstr sought text = some found) :
    found.length ≤ text.length := by
  induction text with
  | nil =>
    rw [strstr] at search
    split at search
    · cases search
      exact Nat.le_refl _
    · cases search
  | cons c text induction =>
    rw [strstr] at search
    split at search
    · cases search
      exact Nat.le_refl _
    · exact Nat.le_succ_of_le (induction search)

theorem readReplaceText_le (c : Char) (text : List Char) :
    (readReplaceText (c :: text)).2.length ≤ text.length := by
  have most := nstrAnsi_length ';' 15 text
  unfold readReplaceText
  rw [List.drop_one, List.tail_cons]
  dsimp only
  split
  · rename_i rest behind
    rw [behind, List.length_cons] at most
    split_ifs <;> exact Nat.le_of_succ_le most
  · exact Nat.le_refl _

theorem readUtf8char_le {c : Char} {text after word : List Char}
    (read : readUtf8char code (c :: text) = some (word, after)) :
    after.length ≤ text.length := by
  rw [readUtf8char] at read
  split at read
  · cases read
  · cases read
    rw [List.length_drop]
    exact Nat.sub_le _ _

theorem readAttrvalFrom_le {stale : Option Char} {code : CodeType}
    {fuel size : Nat} {text value after : List Char}
    (read : readAttrvalFrom stale code fuel size text = some (value, after)) :
    after.length ≤ text.length := by
  induction fuel generalizing size text value after with
  | zero =>
    cases size with
    | zero => cases read
    | succ size =>
      cases text with
      | nil =>
        cases read
        exact Nat.le_refl _
      | cons c text => cases read
  | succ fuel induction =>
    cases size with
    | zero => cases read
    | succ size =>
      cases text with
      | nil =>
        cases read
        exact Nat.le_refl _
      | cons c text =>
        rw [readAttrvalFrom] at read
        split_ifs at read with quote ahead
        · cases read
          exact Nat.le_succ _
        · dsimp only at read
          split at read
          · cases read
          · obtain ⟨found, went, same⟩ := Option.map_eq_some_iff.mp read
            cases same
            exact Nat.le_succ_of_le
              (Nat.le_trans (induction went) (readReplaceText_le c text))
        · split at read
          · cases read
          · rename_i word behind first
            obtain ⟨found, went, same⟩ := Option.map_eq_some_iff.mp read
            cases same
            exact Nat.le_succ_of_le
              (Nat.le_trans (induction went) (readUtf8char_le first))

theorem readValueFrom_le {stale : Option Char} {code : CodeType} {fuel : Nat}
    {text value after : List Char}
    (read : readValueFrom stale code fuel text = some (value, after)) :
    after.length ≤ text.length := by
  induction fuel generalizing text value after with
  | zero =>
    cases text with
    | nil =>
      cases read
      exact Nat.le_refl _
    | cons c text => cases read
  | succ fuel induction =>
    cases text with
    | nil =>
      cases read
      exact Nat.le_refl _
    | cons c text =>
      rw [readValueFrom] at read
      split_ifs at read with ahead mark
      · dsimp only at read
        split at read
        · cases read
        · obtain ⟨found, went, same⟩ := Option.map_eq_some_iff.mp read
          cases same
          exact Nat.le_succ_of_le
            (Nat.le_trans (induction went) (readReplaceText_le c text))
      · cases read
        exact Nat.le_refl _
      · split at read
        · cases read
        · rename_i word behind first
          obtain ⟨found, went, same⟩ := Option.map_eq_some_iff.mp read
          cases same
          exact Nat.le_succ_of_le
            (Nat.le_trans (induction went) (readUtf8char_le first))

theorem readAttrvalFrom_stale (first second : Char) (code : CodeType)
    (fuel size : Nat) (text : List Char) :
    (readAttrvalFrom (some first) code fuel size text).map Prod.snd =
      (readAttrvalFrom (some second) code fuel size text).map Prod.snd := by
  induction fuel generalizing size text with
  | zero =>
    cases size with
    | zero => rfl
    | succ size => cases text <;> rfl
  | succ fuel induction =>
    cases size with
    | zero => rfl
    | succ size =>
      cases text with
      | nil => rfl
      | cons c text =>
        rw [readAttrvalFrom, readAttrvalFrom]
        split_ifs with quote ahead
        · rfl
        · dsimp only
          cases (readReplaceText (c :: text)).1 <;>
          · simp only [Option.none_or, Option.some_or, Option.map_map]
            exact induction size _
        · cases readUtf8char code (c :: text) with
          | none => rfl
          | some found =>
            simp only [Option.map_map]
            exact induction _ _

theorem readValueFrom_stale (first second : Char) (code : CodeType) (fuel : Nat)
    (text : List Char) :
    (readValueFrom (some first) code fuel text).map Prod.snd =
      (readValueFrom (some second) code fuel text).map Prod.snd := by
  induction fuel generalizing text with
  | zero => cases text <;> rfl
  | succ fuel induction =>
    cases text with
    | nil => rfl
    | cons c text =>
      rw [readValueFrom, readValueFrom]
      split_ifs with ahead mark
      · dsimp only
        cases (readReplaceText (c :: text)).1 <;>
        · simp only [Option.none_or, Option.some_or, Option.map_map]
          exact induction _
      · rfl
      · cases readUtf8char code (c :: text) with
        | none => rfl
        | some found =>
          simp only [Option.map_map]
          exact induction _

/-- What the attribute reader does for one character in the buffer it does for
every other. -/
theorem xmlReadAttrval_any {mark : List Char} (stale : Char) :
    match xmlReadAttrval (some stale) code mark textBufSize with
    | none => ∀ other, xmlReadAttrval (some other) code mark textBufSize = none
    | some none => ∀ other,
        xmlReadAttrval (some other) code mark textBufSize = some none
    | some (some (_, after)) =>
      Quoted code mark after ∧ after.length ≤ mark.length := by
  by_cases quote : ∃ rest, quoteOf mark = '"' :: rest
  · obtain ⟨rest, quote⟩ := quote
    have reads : ∀ other, xmlReadAttrval (some other) code mark textBufSize =
        (readAttrvalFrom (some other) code rest.length textBufSize rest).map
          some := by
      intro other
      unfold xmlReadAttrval
      unfold quoteOf at quote
      rw [quote]
      rfl
    have shorter : rest.length < mark.length := by
      have most := (List.dropWhile_sublist (l := mark)
        fun c => c != '"' && c != '>').length_le
      unfold quoteOf at quote
      rw [quote] at most
      exact most
    have same := fun other => readAttrvalFrom_stale other stale code
      rest.length textBufSize rest
    unfold Quoted
    simp only [reads]
    cases read : readAttrvalFrom (some stale) code rest.length textBufSize
        rest with
    | none =>
      intro other
      have none := same other
      rw [read] at none
      rw [Option.map_eq_none_iff.mp none]
      rfl
    | some found =>
      obtain ⟨value, after⟩ := found
      refine ⟨?_, ?_⟩
      swap
      · exact Nat.le_trans (readAttrvalFrom_le read) (Nat.le_of_lt shorter)
      intro other
      have ends := same other
      rw [read] at ends
      obtain ⟨⟨found, there⟩, went, rfl⟩ := Option.map_eq_some_iff.mp ends
      refine ⟨found, ?_⟩
      rw [went]
      rfl
  · have refused : ∀ other,
        xmlReadAttrval (some other) code mark textBufSize = some none := by
      intro other
      unfold xmlReadAttrval
      split
      · rename_i rest found
        exact absurd ⟨rest, found⟩ quote
      · rfl
    rw [refused]
    exact refused

theorem xmlReadValue_any {paddr : List Char} (stale : Char) :
    match xmlReadValue (some stale) code paddr with
    | none => ∀ other, xmlReadValue (some other) code paddr = none
    | some (_, rest) =>
      Value code paddr rest ∧ rest.length ≤ paddr.length := by
  unfold Value xmlReadValue
  have same := fun other => readValueFrom_stale other stale code
    paddr.length paddr
  cases read : readValueFrom (some stale) code paddr.length paddr with
  | none =>
    intro other
    have none := same other
    rw [read] at none
    exact Option.map_eq_none_iff.mp none
  | some found =>
    obtain ⟨value, rest⟩ := found
    refine ⟨?_, readValueFrom_le read⟩
    intro other
    have ends := same other
    rw [read] at ends
    obtain ⟨⟨found, there⟩, went, rfl⟩ := Option.map_eq_some_iff.mp ends
    exact ⟨found, went⟩

end Scanners

section Lengths

variable {code : CodeType} {lax closed : Bool}
  {text tag start name behind mark after rest : List Char}

theorem Skips.le (skips : Skips text tag) : tag.length ≤ text.length := by
  induction skips with
  | tag found _ _ => exact firstValid_le found
  | declaration found search _ induction | comment found search _ induction =>
    have valid := firstValid_le found
    have ends := strstr_le search
    rw [List.length_drop] at induction
    simp only [List.length_cons] at valid
    omega

theorem Skips.head (skips : Skips text tag) :
    ∃ rest, tag = '<' :: rest ∧ rest.head? ≠ some '?' ∧
      rest.head? ≠ some '!' := by
  induction skips with
  | tag _ question mark => exact ⟨_, rfl, question, mark⟩
  | declaration _ _ _ induction | comment _ _ _ induction => exact induction

theorem TagStart.lt (tagStart : TagStart text start) :
    start.length < text.length := by
  obtain ⟨tag, skips, _, found⟩ := tagStart.found
  obtain ⟨rest, rfl, _⟩ := skips.head
  have shorter := skips.le
  have valid := firstValid_le found
  rw [List.drop_one, List.tail_cons] at valid
  rw [List.length_cons] at shorter
  omega

theorem parseVariantN_le {ret : Int}
    (parsed : parseVariantN code start maxXmlnameSize =
      some (ret, name, behind)) :
    behind.length ≤ start.length ∧ (0 < ret → behind.length < start.length) := by
  obtain ⟨split, positive⟩ := parseVariantN_split parsed
  rw [← split, List.length_append]
  refine ⟨Nat.le_add_left _ _, ?_⟩
  intro accepted
  omega

theorem Tag.lt (opens : Tag code text name behind) :
    behind.length < text.length := by
  obtain ⟨start, ret, tagStart, parsed, _, _⟩ := opens
  have shorter := tagStart.lt
  have most := (parseVariantN_le parsed).1
  omega

theorem AttribMark.lt (attrib : AttribMark code text lax mark) :
    mark.length < text.length := by
  obtain ⟨start, ret, name, behind, attribStart, parsed, accepted, _, found,
    _⟩ := attrib
  have valid := firstValid_le attribStart.found
  have most := (parseVariantN_le parsed).2 accepted
  have ends := (strchr_length found).1
  omega

theorem Quoted.le (quoted : Quoted code mark after) :
    after.length ≤ mark.length := by
  obtain ⟨value, read⟩ := quoted ' '
  have any := @xmlReadAttrval_any code mark ' '
  rw [read] at any
  exact any.2

theorem Attribs.le (attribs : Attribs code lax closed text rest) :
    rest.length ≤ text.length := by
  induction attribs with
  | closed found _ | opened found _ _ =>
    have valid := firstValid_le found
    rw [List.length_drop]
    omega
  | attrib head quoted _ induction =>
    have shorter := head.lt
    have most := quoted.le
    omega

theorem Value.le (value : Value code text rest) :
    rest.length ≤ text.length := by
  obtain ⟨found, read⟩ := value ' '
  have any := @xmlReadValue_any code text ' '
  rw [read] at any
  exact any.2

theorem parseWord_le {after : Option (List Char)}
    (parsed : parseWord code start = some (name, after)) :
    ∀ behind ∈ after, behind.length ≤ start.length := by
  obtain ⟨found, scanned, same⟩ := Option.map_eq_some_iff.mp parsed
  have split := scan_split scanned
  cases same
  intro behind member
  unfold notAtEnd at member
  split at member
  · cases member
  · cases member
    rw [← split, List.length_append]
    exact Nat.le_add_left _ _

theorem EndTag.le (ends : EndTag code lax name text rest) :
    rest.length ≤ text.length := by
  obtain ⟨start, endName, behind, mark, _, found, parsed, _, _, search, rfl,
    _⟩ := ends
  have valid := firstValid_le found
  have word := parseWord_le parsed behind rfl
  have most := (strchr_length search).1
  rw [List.length_drop] at valid ⊢
  omega

theorem grammar_induction {code : CodeType}
    {element content subs : Bool → List Char → List Char → Prop}
    (closed : ∀ {lax text name behind rest}, Tag code text name behind →
      Attribs code lax true behind rest → element lax text rest)
    (opened : ∀ {lax inner later text name behind body paddr rest},
      Tag code text name behind → Attribs code lax false behind body →
        Content code inner body paddr → EndTag code later name paddr rest →
          content inner body paddr → element (lax || inner || later) text rest)
    (empty : ∀ {text paddr}, firstValid text = some paddr →
      isMarkStart paddr = true → content false text paddr)
    (children : ∀ {lax text paddr behind}, firstValid text = some paddr →
      isMarkStart paddr = false → paddr.head? = some '<' →
        Subs code lax paddr behind → subs lax paddr behind →
          content lax text behind)
    (value : ∀ {text paddr behind}, firstValid text = some paddr →
      paddr.head? ≠ some '<' → Value code paddr behind →
        content (hasMark paddr behind) text behind)
    (none : ∀ {text paddr}, Skips text paddr → isMarkStart paddr = true →
      subs false text paddr)
    (sub : ∀ {lax later text rest behind}, Element code lax text rest →
      Subs code later rest behind → element lax text rest →
        subs later rest behind → subs (lax || later) text behind) :
    (∀ {lax text rest}, Element code lax text rest → element lax text rest) ∧
      (∀ {lax text rest}, Content code lax text rest → content lax text rest) ∧
      (∀ {lax text rest}, Subs code lax text rest → subs lax text rest) := by
  refine ⟨?_, ?_, ?_⟩
  · intro lax text rest parsed
    exact @Element.rec code (fun lax text rest _ => element lax text rest)
      (fun lax text rest _ => content lax text rest)
      (fun lax text rest _ => subs lax text rest)
      closed opened empty children value none sub lax text rest parsed
  · intro lax text rest parsed
    exact @Content.rec code (fun lax text rest _ => element lax text rest)
      (fun lax text rest _ => content lax text rest)
      (fun lax text rest _ => subs lax text rest)
      closed opened empty children value none sub lax text rest parsed
  · intro lax text rest parsed
    exact @Subs.rec code (fun lax text rest _ => element lax text rest)
      (fun lax text rest _ => content lax text rest)
      (fun lax text rest _ => subs lax text rest)
      closed opened empty children value none sub lax text rest parsed

theorem grammar_shorter (code : CodeType) :
    (∀ {lax text rest}, Element code lax text rest →
      rest.length < text.length) ∧
      (∀ {lax text rest}, Content code lax text rest →
        rest.length ≤ text.length) ∧
      (∀ {lax text rest}, Subs code lax text rest →
        rest.length ≤ text.length) := by
  refine grammar_induction ?_ ?_ ?_ ?_ ?_ ?_ ?_
  · intro lax text name behind rest opens attribs
    have shorter := opens.lt
    have most := attribs.le
    omega
  · intro lax inner later text name behind body paddr rest opens attribs _ ends
      content
    have shorter := opens.lt
    have most := attribs.le
    have last := ends.le
    omega
  · intro text paddr found _
    exact firstValid_le found
  · intro lax text paddr behind found _ _ _ subs
    have valid := firstValid_le found
    omega
  · intro text paddr behind found _ value
    have valid := firstValid_le found
    have characters := value.le
    omega
  · intro text paddr skips _
    exact skips.le
  · intro lax later text rest behind _ _ element subs
    omega

theorem Element.lt (element : Element code lax text rest) :
    rest.length < text.length :=
  (grammar_shorter code).1 element

end Lengths

end NdNet.Xml
