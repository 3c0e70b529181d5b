import NdNet.Common.XmlNames

/-!
# Saving an XML tree and parsing it again

`Savable` trees are those with a value or children, but not both, in each node,
with names that `ndstr_parse_variant_n` accepts and values in UTF-8.  The text
`xml_tobuf` writes for such a tree is parsed into the same tree exactly if the
tree is `Restorable`: no tag has a dot in its name, no value begins with a
control character, attribute names fit the buffer of the parser, and escaped
values fit the buffer of the writer.
-/

namespace NdNet.Xml

open NdNet.Str List

section Trees

mutual

def Ndxml.Every
    (property : List Char → List (List Char × List Char) → List Char →
      List Ndxml → Prop) : Ndxml → Prop
  | .mk name attrs value subs =>
    property name attrs value subs ∧ Ndxml.EveryOf property subs

def Ndxml.EveryOf
    (property : List Char → List (List Char × List Char) → List Char →
      List Ndxml → Prop) : List Ndxml → Prop
  | [] => True
  | sub :: subs => sub.Every property ∧ Ndxml.EveryOf property subs

end

variable {first second : List Char → List (List Char × List Char) →
  List Char → List Ndxml → Prop}

mutual

theorem Ndxml.every_and (tree : Ndxml) :
    (tree.Every fun name attrs value subs =>
        first name attrs value subs ∧ second name attrs value subs) ↔
      tree.Every first ∧ tree.Every second := by
  cases tree with
  | mk name attrs value subs =>
    rw [Ndxml.Every, Ndxml.Every, Ndxml.Every, Ndxml.everyOf_and subs]
    exact and_and_and_comm

theorem Ndxml.everyOf_and (trees : List Ndxml) :
    (Ndxml.EveryOf (fun name attrs value subs =>
        first name attrs value subs ∧ second name attrs value subs) trees) ↔
      Ndxml.EveryOf first trees ∧ Ndxml.EveryOf second trees := by
  cases trees with
  | nil => exact (and_self_iff).symm
  | cons tree trees =>
    rw [Ndxml.EveryOf, Ndxml.EveryOf, Ndxml.EveryOf, Ndxml.every_and tree,
      Ndxml.everyOf_and trees]
    exact and_and_and_comm

end

end Trees

variable {attrs : List (List Char × List Char)}

section Texts

def isspace (c : Char) : Bool :=
  c == ' ' || decide ('\t' ≤ c) && decide (c ≤ '\r')

/-- A text that can be a value: UTF-8 without NUL that does not begin with
white space. -/
def Storable (text : List Char) : Prop :=
  Utf8 text ∧ '\x00' ∉ text ∧ ∀ c ∈ text.head?, isspace c = false

/-- What a tree holds in a node: the tag name fits its array, and there is a
value or there are children, but not both. -/
def SavableNode (name : List Char) (attrs : List (List Char × List Char))
    (value : List Char) (subs : List Ndxml) : Prop :=
  (Accepted name ∧ name.length < maxXmlnameSize) ∧
    (∀ attr ∈ attrs, Accepted attr.1 ∧ Storable attr.2) ∧ Storable value ∧
    (value ≠ [] ∧ subs = [] ∨ value = [] ∧ subs ≠ [])

/-- The escaped values of a node fit the buffer of `xml_tobuf`. -/
def FitNode (_ : List Char) (attrs : List (List Char × List Char))
    (value : List Char) (_ : List Ndxml) : Prop :=
  (∀ attr ∈ attrs, (escaped attr.2).length < textBufSize) ∧
    (escaped value).length < textBufSize

/-- `parse_xmlbuf` gets to the end of a node: its end tag is read like its
start tag, and its attribute names fit their buffer. -/
def ReadableNode (name : List Char) (attrs : List (List Char × List Char))
    (_ : List Char) (_ : List Ndxml) : Prop :=
  Undotted name ∧ ∀ attr ∈ attrs, attr.1.length < maxXmlnameSize

/-- The value of a node does not begin with what `ndstr_first_valid` skips. -/
def VisibleNode (_ : List Char) (_ : List (List Char × List Char))
    (value : List Char) (_ : List Ndxml) : Prop :=
  ∀ c ∈ value.head?, ' ' < c

def attribText (attr : List Char × List Char) : List Char :=
  ' ' :: (attr.1 ++ '=' :: '"' :: (escaped attr.2 ++ ['"']))

def headText (name : List Char) (attrs : List (List Char × List Char)) :
    List Char :=
  '<' :: (name ++ attrs.flatMap attribText)

def endText (name : List Char) : List Char :=
  '<' :: '/' :: (name ++ ['>', ' '])

mutual

def Ndxml.text : Ndxml → List Char
  | .mk name attrs value subs =>
    headText name attrs ++ '>' ::
      ((if value.isEmpty then ' ' :: Ndxml.texts subs else escaped value) ++
        endText name)

def Ndxml.texts : List Ndxml → List Char
  | [] => []
  | sub :: subs => sub.text ++ Ndxml.texts subs

end

theorem attribToBuf_spelled {attr : List Char × List Char}
    (spelled : Spelled .utf8 attr.2) :
    attribToBuf .utf8 attr =
      if (escaped attr.2).length < textBufSize then some (attribText attr)
      else none := by
  obtain ⟨name, value⟩ := attr
  rw [attribToBuf]
  cases value with
  | nil => rfl
  | cons c value =>
    rw [isEmpty_cons, if_neg Bool.false_ne_true, outReplaceText_spelled spelled]
    by_cases fits : (escaped (c :: value)).length < textBufSize
    · rw [if_pos fits, if_pos fits]
      simp [attribText]
    · rw [if_neg fits, if_neg fits]
      rfl

theorem attribsToBuf_spelled (spelled : ∀ attr ∈ attrs, Spelled .utf8 attr.2) :
    attribsToBuf .utf8 attrs =
      if ∀ attr ∈ attrs, (escaped attr.2).length < textBufSize then
        some (attrs.flatMap attribText)
      else none := by
  induction attrs with
  | nil => rfl
  | cons attr attrs induction =>
    obtain ⟨first, others⟩ := forall_mem_cons.mp spelled
    rw [attribsToBuf, attribToBuf_spelled first, induction others]
    by_cases fits : (escaped attr.2).length < textBufSize
    · by_cases all : ∀ attr ∈ attrs, (escaped attr.2).length < textBufSize
      · rw [if_pos fits, if_pos all,
          if_pos (by simpa using ⟨fits, fun a b => all (a, b)⟩)]
        rfl
      · rw [if_pos fits, if_neg all,
          if_neg fun both => all fun attr member =>
            both attr (mem_cons_of_mem _ member)]
    · have notAll : ¬ ∀ other ∈ attr :: attrs,
          (escaped other.2).length < textBufSize :=
        fun both => fits (both attr mem_cons_self)
      rw [if_neg fits, if_neg notAll]

mutual

theorem xmlTobuf_savable (tree : Ndxml) (savable : tree.Every SavableNode) :
    (tree.Every FitNode → xmlTobuf .utf8 tree = some tree.text) ∧
      (¬ tree.Every FitNode → xmlTobuf .utf8 tree = none) := by
  cases tree with
  | mk name attrs value subs =>
    obtain ⟨⟨-, attribs, valid, shape⟩, below⟩ := savable
    obtain ⟨written, overrun⟩ := xmlsTobuf_savable subs below
    have spelled : ∀ attr ∈ attrs, Spelled .utf8 attr.2 :=
      fun attr member => (attribs attr member).2.1.spelled
    rw [xmlTobuf, attribsToBuf_spelled spelled]
    constructor
    · rintro ⟨⟨attrFits, valueFits⟩, subsFit⟩
      rw [if_pos attrFits]
      dsimp only
      rcases shape with ⟨present, rfl⟩ | ⟨rfl, present⟩
      · have full : value.isEmpty = false :=
          isEmpty_eq_false_iff.mpr present
        rw [full, outReplaceText_spelled valid.1.spelled,
          if_pos valueFits, Ndxml.text, full]
        simp [headText, endText]
      · have full : subs.isEmpty = false :=
          isEmpty_eq_false_iff.mpr present
        rw [full, written subsFit, Ndxml.text]
        simp [headText, endText]
    · intro unfit
      by_cases attrFits :
          ∀ attr ∈ attrs, (escaped attr.2).length < textBufSize
      · rw [if_pos attrFits]
        dsimp only
        rcases shape with ⟨present, rfl⟩ | ⟨rfl, present⟩
        · have full : value.isEmpty = false :=
            isEmpty_eq_false_iff.mpr present
          have tooLong : ¬ (escaped value).length < textBufSize :=
            fun fits => unfit ⟨⟨attrFits, fits⟩, trivial⟩
          rw [full, outReplaceText_spelled valid.1.spelled, if_neg tooLong]
          rfl
        · have full : subs.isEmpty = false :=
            isEmpty_eq_false_iff.mpr present
          rw [full, overrun fun fits =>
            unfit ⟨⟨attrFits, by decide⟩, fits⟩]
          rfl
      · rw [if_neg attrFits]

theorem xmlsTobuf_savable (subs : List Ndxml)
    (savable : Ndxml.EveryOf SavableNode subs) :
    (Ndxml.EveryOf FitNode subs →
        xmlsTobuf .utf8 subs = some (Ndxml.texts subs)) ∧
      (¬ Ndxml.EveryOf FitNode subs → xmlsTobuf .utf8 subs = none) := by
  cases subs with
  | nil => exact ⟨fun _ => rfl, fun unfit => absurd trivial unfit⟩
  | cons sub subs =>
    obtain ⟨head, tail⟩ := savable
    obtain ⟨headWritten, headOverrun⟩ := xmlTobuf_savable sub head
    obtain ⟨written, overrun⟩ := xmlsTobuf_savable subs tail
    rw [xmlsTobuf]
    constructor
    · rintro ⟨headFits, fits⟩
      rw [headWritten headFits, written fits]
      rfl
    · intro unfit
      by_cases headFits : sub.Every FitNode
      · rw [headWritten headFits, overrun fun fits => unfit ⟨headFits, fits⟩]
      · rw [headOverrun headFits]

end

end Texts

section Parsing

theorem readAttribs_attrib {attr : List Char × List Char}
    (accepted : Accepted attr.1) (spelled : Spelled .utf8 attr.2)
    (fits : (escaped attr.2).length < textBufSize) (fuel : Nat)
    (rest : List Char) (error : Option (List Char)) :
    readAttribs none .utf8 (fuel + 1) (attribText attr ++ rest) error =
      if maxXmlnameSize ≤ attr.1.length then none
      else
        (readAttribs none .utf8 fuel rest
          (some ('=' :: '"' :: (escaped attr.2 ++ '"' :: rest)))).map
            (AttribsRead.add attr) := by
  obtain ⟨name, value⟩ := attr
  obtain ⟨c, more, shape, lead⟩ := accepted.lead
  dsimp only at shape accepted spelled fits ⊢
  have opened : attribText (name, value) ++ rest =
      ' ' :: (name ++ '=' :: '"' :: (escaped value ++ '"' :: rest)) := by
    simp [attribText]
  have valid : firstValid
      (' ' :: (name ++ '=' :: '"' :: (escaped value ++ '"' :: rest))) =
        some (name ++ '=' :: '"' :: (escaped value ++ '"' :: rest)) := by
    rw [firstValid, if_pos (by decide), shape]
    exact firstValid_cons (lead_visible lead) _
  have noEnd : isMarkEnd
      (name ++ '=' :: '"' :: (escaped value ++ '"' :: rest)) = false := by
    have differs : ('/' == c) = false :=
      beq_false_of_ne (lead_ne lead (by decide)).symm
    rw [shape]
    show ('/' == c && _) = false
    rw [differs, Bool.false_and]
  have noMark : ¬ (name ++ '=' :: '"' ::
      (escaped value ++ '"' :: rest)).head? = some '>' := by
    rw [shape]
    exact fun same => lead_ne lead (by decide) (Option.some.inj same)
  have long : ¬ (name.length : Int) ≤ 0 := by
    rw [shape, length_cons]
    push_cast
    omega
  have taken : readAttrvalFrom none .utf8 (escaped value ++ '"' :: rest).length
      textBufSize (escaped value ++ '"' :: rest) = some (value, rest) := by
    apply readAttrvalFrom_escaped spelled
    · rw [length_append, length_cons]
      omega
    · have := length_le_escaped value
      omega
  have attrval : xmlReadAttrval none .utf8
      ('=' :: '"' :: (escaped value ++ '"' :: rest)) textBufSize =
        some (some (value, rest)) := by
    show (readAttrvalFrom none .utf8 _ textBufSize _).map some = _
    rw [taken]
    rfl
  rw [opened, readAttribs, valid]
  dsimp only
  rw [noEnd, if_neg Bool.false_ne_true, if_neg noMark,
    accepted.parseVariantN fun c member => by cases member; rfl]
  dsimp only
  rw [if_neg long]
  by_cases tooLong : maxXmlnameSize ≤ name.length
  · rw [if_pos tooLong, if_pos tooLong]
  · rw [if_neg tooLong, if_neg tooLong]
    have mark : strchr ('=' :: '"' :: (escaped value ++ '"' :: rest)) '=' =
        some ('=' :: '"' :: (escaped value ++ '"' :: rest)) := rfl
    rw [mark]
    dsimp only
    rw [attrval]

theorem readAttribs_attribs
    (valid : ∀ attr ∈ attrs, Accepted attr.1 ∧ Spelled .utf8 attr.2 ∧
      (escaped attr.2).length < textBufSize)
    {fuel : Nat} (enough : attrs.length + 1 ≤ fuel) (body : List Char)
    (error : Option (List Char)) :
    ((∀ attr ∈ attrs, attr.1.length < maxXmlnameSize) →
      ∃ left, readAttribs none .utf8 fuel
        (attrs.flatMap attribText ++ '>' :: body) error =
          some (.opened attrs body left)) ∧
    (¬ (∀ attr ∈ attrs, attr.1.length < maxXmlnameSize) →
      readAttribs none .utf8 fuel
        (attrs.flatMap attribText ++ '>' :: body) error = none) := by
  induction attrs generalizing fuel error with
  | nil =>
    obtain ⟨less, rfl⟩ : ∃ less, fuel = less + 1 := ⟨fuel - 1, by omega⟩
    exact ⟨fun _ => ⟨error, rfl⟩, fun tooLong => absurd (by simp) tooLong⟩
  | cons attr attrs induction =>
    obtain ⟨less, rfl⟩ : ∃ less, fuel = less + 1 := ⟨fuel - 1, by omega⟩
    rw [length_cons] at enough
    obtain ⟨accepted, spelled, fits⟩ := valid attr mem_cons_self
    obtain ⟨reads, overruns⟩ := induction
      (fun other member => valid other (mem_cons_of_mem _ member))
      (show attrs.length + 1 ≤ less by omega)
      (some ('=' :: '"' :: (escaped attr.2 ++ '"' ::
        (attrs.flatMap attribText ++ '>' :: body))))
    rw [flatMap_cons, append_assoc, readAttribs_attrib accepted spelled fits]
    constructor
    · intro short
      obtain ⟨left, others⟩ := reads fun other member =>
        short other (mem_cons_of_mem _ member)
      have first := short attr mem_cons_self
      rw [if_neg (by omega), others]
      exact ⟨left, rfl⟩
    · intro long
      by_cases tooLong : maxXmlnameSize ≤ attr.1.length
      · rw [if_pos tooLong]
      rw [if_neg tooLong, overruns]
      · rfl
      · intro short
        apply long
        intro other member
        rcases mem_cons.mp member with rfl | later
        · omega
        · exact short other later

theorem length_le_attribs (attrs : List (List Char × List Char)) :
    attrs.length ≤ (attrs.flatMap attribText).length := by
  induction attrs with
  | nil => exact Nat.le_refl _
  | cons attr attrs induction =>
    rw [flatMap_cons, length_append, length_cons, attribText, length_cons]
    omega

theorem parseMarked_tag {c : Char}
    (lead : wordStop .utf8 variantPlain c = false) (rest : List Char)
    {size : Int} (within : 0 < size) (error : Option (List Char)) :
    parseMarked ('<' :: c :: rest) size error =
      (some ('<' :: c :: rest), none) := by
  rw [parseMarked, parseMarkedFrom, if_neg (by omega),
    firstValid_cons (by decide)]
  dsimp only
  rw [if_neg (by simp), if_neg (by omega)]
  rw [drop_one, tail_cons]
  split
  · next same =>
      exact absurd (cons.inj same).1 (lead_ne lead (by decide))
  · next same =>
      exact absurd (cons.inj same).1 (lead_ne lead (by decide))
  · next same =>
      exact absurd (cons.inj same).1 (lead_ne lead (by decide))
  · rfl

theorem isMarkStart_lead {c : Char}
    (lead : wordStop .utf8 variantPlain c = false) (rest : List Char) :
    isMarkStart ('<' :: c :: rest) = false := by
  have differs : ('/' == c) = false :=
    beq_false_of_ne (lead_ne lead (by decide)).symm
  show ('<' == '<' && ('/' == c && _)) = false
  rw [differs, Bool.false_and, Bool.and_false]

theorem Ndxml.text_lead {tree : Ndxml} (savable : tree.Every SavableNode)
    (rest : List Char) :
    ∃ c more, tree.text ++ rest = '<' :: c :: more ∧
      wordStop .utf8 variantPlain c = false := by
  cases tree with
  | mk name attrs value subs =>
    obtain ⟨c, more, shape, lead⟩ := savable.1.1.1.lead
    rw [Ndxml.text, headText, shape]
    exact ⟨c, _, rfl, lead⟩

variable {name : List Char}

theorem parseXmlbuf_head (accepted : Accepted name)
    (fits : name.length < maxXmlnameSize)
    (valid : ∀ attr ∈ attrs, Accepted attr.1 ∧ Spelled .utf8 attr.2 ∧
      (escaped attr.2).length < textBufSize)
    (fuel : Nat) (body : List Char) {size : Int} (within : 0 < size)
    (error : Option (List Char)) :
    ((∀ attr ∈ attrs, attr.1.length < maxXmlnameSize) →
      ∃ left, parseXmlbuf none .utf8 (fuel + 2)
        (headText name attrs ++ '>' :: body) size error =
          parseContent none .utf8 fuel (headText name attrs ++ '>' :: body) size
            name attrs body left) ∧
    (¬ (∀ attr ∈ attrs, attr.1.length < maxXmlnameSize) →
      parseXmlbuf none .utf8 (fuel + 2) (headText name attrs ++ '>' :: body) size
        error = none) := by
  obtain ⟨c, more, shape, lead⟩ := accepted.lead
  have opened : headText name attrs ++ '>' :: body =
      '<' :: (name ++ (attrs.flatMap attribText ++ '>' :: body)) := by
    simp [headText]
  have named : name ++ (attrs.flatMap attribText ++ '>' :: body) =
      c :: (more ++ (attrs.flatMap attribText ++ '>' :: body)) := by
    rw [shape]
    rfl
  have noStart : isMarkStart
      ('<' :: (name ++ (attrs.flatMap attribText ++ '>' :: body))) =
        false := by
    rw [named]
    exact isMarkStart_lead lead _
  have visible : firstValid
      (name ++ (attrs.flatMap attribText ++ '>' :: body)) =
        some (name ++ (attrs.flatMap attribText ++ '>' :: body)) := by
    rw [named]
    exact firstValid_cons (lead_visible lead) _
  have noMark : ¬ ((name ++ (attrs.flatMap attribText ++ '>' :: body)).head?.any
      fun c => c ∈ ['>', '<', '"', '/']) = true := by
    rw [named]
    simp [lead_ne lead (show wordStop .utf8 variantPlain '>' = true by decide),
      lead_ne lead (show wordStop .utf8 variantPlain '<' = true by decide),
      lead_ne lead (show wordStop .utf8 variantPlain '"' = true by decide),
      lead_ne lead (show wordStop .utf8 variantPlain '/' = true by decide)]
  have ends : ∀ d ∈ (attrs.flatMap attribText ++ '>' :: body).head?,
      wordStop .utf8 variantPlain d = true := by
    intro d member
    cases attrs with
    | nil | cons attr attrs =>
      cases member
      rfl
  have long : ¬ (name.length : Int) ≤ 0 := by
    rw [shape, length_cons]
    push_cast
    omega
  have entered : parseXmlbuf none .utf8 (fuel + 2)
      (headText name attrs ++ '>' :: body) size error =
        parseElement none .utf8 (fuel + 1) (headText name attrs ++ '>' :: body)
          size (name ++ (attrs.flatMap attribText ++ '>' :: body)) none := by
    rw [opened, parseXmlbuf, named, parseMarked_tag lead _ within, ← named]
    dsimp only
    rw [noStart, if_neg Bool.false_ne_true]
    rw [drop_one, tail_cons, visible]
    dsimp only
    rw [if_neg noMark]
  obtain ⟨reads, overruns⟩ := readAttribs_attribs valid
    (show attrs.length + 1 ≤
        (attrs.flatMap attribText ++ '>' :: body).length by
      have := length_le_attribs attrs
      rw [length_append, length_cons]
      omega) body none
  rw [entered, parseElement, accepted.parseVariantN ends]
  dsimp only
  rw [if_neg long, if_neg (by omega)]
  constructor
  · intro short
    obtain ⟨left, read⟩ := reads short
    rw [read]
    exact ⟨left, rfl⟩
  · intro tooLong
    rw [overruns tooLong]

theorem readEnd_text (accepted : Accepted name)
    (fits : name.length < maxXmlnameSize) (attrs : List (List Char × List Char))
    (value : List Char) (subs : List Ndxml) (rest : List Char)
    (error : Option (List Char)) :
    (Undotted name →
      readEnd .utf8 name attrs value subs (endText name ++ rest) error =
        some (.node (.mk name attrs value subs) (' ' :: rest) error)) ∧
    (¬ Undotted name → ∃ place,
      readEnd .utf8 name attrs value subs (endText name ++ rest) error =
        some (.null .null (some place))) := by
  obtain ⟨c, more, shape, lead⟩ := accepted.lead
  obtain ⟨front, back, split, dotted, dots, word⟩ :=
    accepted.parseWord (' ' :: rest)
  have opened : endText name ++ rest =
      '<' :: '/' :: (name ++ '>' :: ' ' :: rest) := by
    simp [endText]
  have visible : firstValid (name ++ '>' :: ' ' :: rest) =
      some (name ++ '>' :: ' ' :: rest) := by
    rw [shape]
    exact firstValid_cons (lead_visible lead) _
  have short : ¬ maxXmlnameSize ≤ front.length := by
    have : name.length = front.length + back.length := by
      rw [split, length_append]
    omega
  have behind : ('<' :: '/' :: (name ++ '>' :: ' ' :: rest)).drop 2 =
      name ++ '>' :: ' ' :: rest := rfl
  rw [opened, readEnd, if_neg (by simp [isMarkStart]), behind, visible]
  dsimp only
  rw [word]
  dsimp only
  rw [if_neg short]
  constructor
  · intro undotted
    obtain ⟨rfl, rfl⟩ := Prod.mk.inj (Option.some.inj (dots.symm.trans undotted))
    rw [if_neg (by simp [stricmp_self])]
    rfl
  · intro tooLong
    have present : back ≠ [] := by
      rintro rfl
      apply tooLong
      rw [Undotted, dots, split, append_nil]
    obtain ⟨d, tail, rfl⟩ := exists_cons_of_ne_nil present
    obtain rfl := dotted d rfl
    rw [if_pos (by rw [split]; exact stricmp_front front tail)]
    exact ⟨_, rfl⟩

mutual

def Ndxml.readBack : Ndxml → Ndxml
  | .mk name attrs value subs =>
    .mk name attrs (value.dropWhile (· ≤ ' ')) (Ndxml.readBacks subs)

def Ndxml.readBacks : List Ndxml → List Ndxml
  | [] => []
  | sub :: subs => sub.readBack :: Ndxml.readBacks subs

end

def Fails (outcome : Option Parsed) : Prop :=
  outcome = none ∨ ∃ place, outcome = some (.null .null (some place))

theorem escaped_ahead (c : Char) (text rest : List Char) :
    isMarkStart (escaped (c :: text) ++ rest) = false ∧
      ¬ (escaped (c :: text) ++ rest).head? = some '<' := by
  rw [escaped_cons, append_assoc]
  cases known : entity c with
  | some name =>
    obtain ⟨behind, shape, -⟩ := entity_ahead known (escaped text ++ rest)
    rw [Option.getD_some, shape]
    exact ⟨rfl, fun same => absurd (Option.some.inj same) (by decide)⟩
  | none =>
    obtain ⟨-, noStart, -⟩ := plain_ahead known (escaped text ++ rest)
    refine ⟨noStart, ?_⟩
    intro same
    obtain rfl : c = '<' := Option.some.inj same
    cases known

theorem parseContent_value (name : List Char)
    (attrs : List (List Char × List Char)) {value : List Char}
    (spelled : Spelled .utf8 value) (fuel : Nat) (xmlbuf : List Char)
    (size : Int) (rest : List Char) (error : Option (List Char)) :
    parseContent none .utf8 (fuel + 1) xmlbuf size name attrs
        (escaped value ++ (endText name ++ rest)) error =
      readEnd .utf8 name attrs (value.dropWhile (· ≤ ' ')) []
        (endText name ++ rest) error := by
  have opened : endText name ++ rest =
      '<' :: '/' :: (name ++ '>' :: ' ' :: rest) := by
    simp [endText]
  rw [opened, parseContent, firstValid_escaped]
  dsimp only
  have spelled := spelled.dropWhile_blank
  generalize value.dropWhile (· ≤ ' ') = kept at spelled ⊢
  cases kept with
  | nil => rw [escaped_nil, nil_append, if_pos (by simp [isMarkStart])]
  | cons c kept =>
    obtain ⟨noStart, noMark⟩ :=
      escaped_ahead c kept ('<' :: '/' :: (name ++ '>' :: ' ' :: rest))
    have taken : xmlReadValue none .utf8
        (escaped (c :: kept) ++ '<' :: '/' :: (name ++ '>' :: ' ' :: rest)) =
          some (c :: kept, '<' :: '/' :: (name ++ '>' :: ' ' :: rest)) := by
      apply readValueFrom_escaped spelled
      rw [length_append, length_cons]
      omega
    rw [noStart, if_neg Bool.false_ne_true, if_neg noMark, taken]

variable {subs : List Ndxml}

theorem Ndxml.texts_lead (present : subs ≠ [])
    (savable : Ndxml.EveryOf SavableNode subs) (rest : List Char) :
    ∃ c more, Ndxml.texts subs ++ rest = '<' :: c :: more ∧
      wordStop .utf8 variantPlain c = false := by
  obtain ⟨sub, subs, rfl⟩ := exists_cons_of_ne_nil present
  rw [Ndxml.texts, append_assoc]
  exact Ndxml.text_lead savable.1 _

theorem parseContent_subs (attrs : List (List Char × List Char))
    (present : subs ≠ []) (savable : Ndxml.EveryOf SavableNode subs)
    (fuel : Nat) (xmlbuf : List Char) (size : Int) (rest : List Char)
    (error : Option (List Char)) :
    parseContent none .utf8 (fuel + 1) xmlbuf size name attrs
        (' ' :: (Ndxml.texts subs ++ rest)) error =
      match parseSubs none .utf8 fuel (Ndxml.texts subs ++ rest)
          (size - (xmlbuf.length - (Ndxml.texts subs ++ rest).length))
          error with
      | none => none
      | some (.failed error) => some (.null .null (some error))
      | some (.read subs paddr error) =>
        readEnd .utf8 name attrs [] subs paddr error := by
  obtain ⟨c, more, opened, lead⟩ := Ndxml.texts_lead present savable rest
  rw [opened, parseContent, firstValid, if_pos (by decide),
    firstValid_cons (by decide)]
  dsimp only
  rw [isMarkStart_lead lead, if_neg Bool.false_ne_true]
  exact if_pos head?_cons

theorem nextSub_end (fuel : Nat) (paddr : List Char) (size : Int)
    (first : List Ndxml) (name rest : List Char) (error : Option (List Char)) :
    nextSub none .utf8 (fuel + 1) paddr size first (' ' :: (endText name ++ rest))
      error = some (.read first (endText name ++ rest) error) := by
  have opened : endText name ++ rest =
      '<' :: '/' :: (name ++ '>' :: ' ' :: rest) := by
    simp [endText]
  rw [opened, nextSub, firstValid, if_pos (by decide),
    firstValid_cons (by decide)]
  dsimp only
  rw [if_pos (by simp [isMarkStart])]

theorem nextSub_texts (present : subs ≠ [])
    (savable : Ndxml.EveryOf SavableNode subs) (fuel : Nat) (paddr : List Char)
    (size : Int) (first : List Ndxml) (rest : List Char)
    (error : Option (List Char)) :
    nextSub none .utf8 (fuel + 1) paddr size first
        (' ' :: (Ndxml.texts subs ++ rest)) error =
      (parseSubs none .utf8 fuel (Ndxml.texts subs ++ rest)
        (size - (paddr.length - (Ndxml.texts subs ++ rest).length))
          error).map (SubsRead.add first) := by
  obtain ⟨c, more, opened, lead⟩ := Ndxml.texts_lead present savable rest
  rw [opened, nextSub, firstValid, if_pos (by decide),
    firstValid_cons (by decide)]
  dsimp only
  rw [isMarkStart_lead lead, if_neg Bool.false_ne_true]

theorem Ndxml.length_text (name : List Char)
    (attrs : List (List Char × List Char)) (value : List Char)
    (subs : List Ndxml) :
    (if value.isEmpty then ' ' :: Ndxml.texts subs
      else escaped value).length + 6 ≤
        (Ndxml.mk name attrs value subs).text.length := by
  rw [Ndxml.text, headText, endText]
  simp only [length_append, length_cons, length_nil]
  omega

mutual

/-- `parse_xmlbuf` on the text of a tree: it reads the tree back up to what its
values begin with, or it fails if one of the nodes is not readable. -/
theorem parseXmlbuf_text (tree : Ndxml) (savable : tree.Every SavableNode)
    (fit : tree.Every FitNode) {fuel : Nat}
    (enough : 4 * tree.text.length ≤ fuel) (rest : List Char) {size : Int}
    (within : ((tree.text ++ rest).length : Int) ≤ size)
    (error : Option (List Char)) :
    (tree.Every ReadableNode → ∃ left,
      parseXmlbuf none .utf8 fuel (tree.text ++ rest) size error =
        some (.node tree.readBack (' ' :: rest) left)) ∧
    (¬ tree.Every ReadableNode →
      Fails (parseXmlbuf none .utf8 fuel (tree.text ++ rest) size error)) := by
  cases tree with
  | mk name attrs value subs =>
    obtain ⟨⟨⟨accepted, short⟩, attribs, valid, shape⟩, below⟩ := savable
    obtain ⟨⟨attrsFit, -⟩, subsFit⟩ := fit
    have long := Ndxml.length_text name attrs value subs
    obtain ⟨less, rfl⟩ : ∃ less, fuel = less + 3 :=
      ⟨fuel - 3, by omega⟩
    have allValid : ∀ attr ∈ attrs, Accepted attr.1 ∧
        Spelled .utf8 attr.2 ∧ (escaped attr.2).length < textBufSize :=
      fun attr member => ⟨(attribs attr member).1,
        (attribs attr member).2.1.spelled, attrsFit attr member⟩
    have split : (Ndxml.mk name attrs value subs).text ++ rest =
        headText name attrs ++ '>' ::
          ((if value.isEmpty then ' ' :: Ndxml.texts subs
            else escaped value) ++ (endText name ++ rest)) := by
      rw [Ndxml.text]
      simp only [append_assoc, cons_append]
    rw [split] at within ⊢
    obtain ⟨enters, overruns⟩ := parseXmlbuf_head accepted short allValid
      (less + 1) ((if value.isEmpty then ' ' :: Ndxml.texts subs
        else escaped value) ++ (endText name ++ rest))
      (show 0 < size by
        rw [length_append, length_cons] at within
        push_cast at within
        omega) error
    by_cases attrsRead : ∀ attr ∈ attrs, attr.1.length < maxXmlnameSize
    · obtain ⟨left, entered⟩ := enters attrsRead
      rw [entered]
      rcases shape with ⟨present, rfl⟩ | ⟨rfl, present⟩
      · have full : value.isEmpty = false :=
          isEmpty_eq_false_iff.mpr present
        rw [full, if_neg Bool.false_ne_true,
          parseContent_value name attrs valid.1.spelled]
        obtain ⟨closes, refuses⟩ := readEnd_text accepted short attrs
          (value.dropWhile (· ≤ ' ')) [] rest left
        constructor
        · rintro ⟨⟨undotted, -⟩, -⟩
          exact ⟨left, closes undotted⟩
        · intro unreadable
          exact Or.inr (refuses fun undotted =>
            unreadable ⟨⟨undotted, attrsRead⟩, trivial⟩)
      · rw [isEmpty_nil, if_pos rfl, cons_append] at within ⊢
        rw [parseContent_subs attrs present below]
        obtain ⟨reads, fails⟩ := parseSubs_texts subs present below subsFit
          (show 4 * (Ndxml.texts subs).length + 1 ≤ less by
            rw [isEmpty_nil, if_pos rfl, length_cons] at long
            omega) name rest
          (show ((Ndxml.texts subs ++ (endText name ++ rest)).length : Int) ≤
              size - ((headText name attrs ++ '>' :: ' ' ::
                (Ndxml.texts subs ++ (endText name ++ rest))).length -
                  (Ndxml.texts subs ++ (endText name ++ rest)).length) by
            omega) left
        constructor
        · rintro ⟨⟨undotted, -⟩, readable⟩
          obtain ⟨place, read⟩ := reads readable
          rw [read]
          exact ⟨place, (readEnd_text accepted short attrs [] _ rest
            place).1 undotted⟩
        · intro unreadable
          by_cases readable : Ndxml.EveryOf ReadableNode subs
          · obtain ⟨place, read⟩ := reads readable
            rw [read]
            exact Or.inr ((readEnd_text accepted short attrs [] _ rest
              place).2 fun undotted =>
                unreadable ⟨⟨undotted, attrsRead⟩, readable⟩)
          · rcases fails readable with undefined | ⟨place, failed⟩
            · rw [undefined]
              exact Or.inl rfl
            · rw [failed]
              exact Or.inr ⟨place, rfl⟩
    · constructor
      · rintro ⟨⟨-, readable⟩, -⟩
        exact absurd readable attrsRead
      · intro _
        exact Or.inl (overruns attrsRead)

theorem parseSubs_texts (subs : List Ndxml) (present : subs ≠ [])
    (savable : Ndxml.EveryOf SavableNode subs)
    (fit : Ndxml.EveryOf FitNode subs) {fuel : Nat}
    (enough : 4 * (Ndxml.texts subs).length + 1 ≤ fuel) (name rest : List Char)
    {size : Int}
    (within : ((Ndxml.texts subs ++ (endText name ++ rest)).length : Int) ≤
      size) (error : Option (List Char)) :
    (Ndxml.EveryOf ReadableNode subs → ∃ left,
      parseSubs none .utf8 fuel (Ndxml.texts subs ++ (endText name ++ rest)) size
        error = some (.read (Ndxml.readBacks subs) (endText name ++ rest)
          left)) ∧
    (¬ Ndxml.EveryOf ReadableNode subs →
      parseSubs none .utf8 fuel (Ndxml.texts subs ++ (endText name ++ rest)) size
          error = none ∨ ∃ place,
        parseSubs none .utf8 fuel (Ndxml.texts subs ++ (endText name ++ rest))
          size error = some (.failed place)) := by
  cases subs with
  | nil => exact absurd rfl present
  | cons sub subs =>
    obtain ⟨headSavable, tailSavable⟩ := savable
    obtain ⟨headFit, tailFit⟩ := fit
    have headLong : 6 ≤ sub.text.length := by
      cases sub with
      | mk name attrs value below =>
        have := Ndxml.length_text name attrs value below
        omega
    rw [Ndxml.texts, length_append] at enough
    rw [Ndxml.texts, append_assoc] at within ⊢
    obtain ⟨less, rfl⟩ : ∃ less, fuel = less + 2 := ⟨fuel - 2, by omega⟩
    obtain ⟨headReads, headFails⟩ := parseXmlbuf_text sub headSavable headFit
      (show 4 * sub.text.length ≤ less + 1 by omega)
      (Ndxml.texts subs ++ (endText name ++ rest)) within error
    rw [parseSubs]
    by_cases headReadable : sub.Every ReadableNode
    · obtain ⟨left, read⟩ := headReads headReadable
      rw [read]
      dsimp only
      by_cases last : subs = []
      · subst last
        rw [Ndxml.texts, nil_append, nextSub_end]
        exact ⟨fun _ => ⟨left, rfl⟩,
          fun unreadable => absurd ⟨headReadable, trivial⟩ unreadable⟩
      · obtain ⟨reads, fails⟩ := parseSubs_texts subs last tailSavable
          tailFit (show 4 * (Ndxml.texts subs).length + 1 ≤ less by omega) name
          rest
          (show ((Ndxml.texts subs ++ (endText name ++ rest)).length :
              Int) ≤ size - ((sub.text ++ (Ndxml.texts subs ++
                (endText name ++ rest))).length -
                  (Ndxml.texts subs ++ (endText name ++ rest)).length) by
            omega) left
        rw [nextSub_texts last tailSavable]
        constructor
        · rintro ⟨-, readable⟩
          obtain ⟨place, others⟩ := reads readable
          rw [others]
          exact ⟨place, rfl⟩
        · intro unreadable
          rcases fails fun readable =>
              unreadable ⟨headReadable, readable⟩ with
            undefined | ⟨place, failed⟩
          · rw [undefined]
            exact Or.inl rfl
          · rw [failed]
            exact Or.inr ⟨place, rfl⟩
    · constructor
      · rintro ⟨readable, -⟩
        exact absurd readable headReadable
      · intro _
        rcases headFails headReadable with undefined | ⟨place, failed⟩
        · rw [undefined]
          exact Or.inl rfl
        · rw [failed]
          exact Or.inr ⟨place, rfl⟩

end

theorem dropWhile_blank_eq_self {value : List Char} :
    value.dropWhile (· ≤ ' ') = value ↔ ∀ c ∈ value.head?, ' ' < c := by
  cases value with
  | nil => simp
  | cons c value =>
    by_cases blank : c ≤ ' '
    · rw [dropWhile_cons_of_pos (by simpa using blank)]
      constructor
      · intro same
        have shorter := (dropWhile_suffix (· ≤ ' ') (l := value)).length_le
        rw [same, length_cons] at shorter
        omega
      · intro visible
        exact absurd (visible c rfl) (Char.not_lt.mpr blank)
    · rw [dropWhile_cons_of_neg (by simpa using blank)]
      refine ⟨fun _ d member => ?_, fun _ => rfl⟩
      cases member
      exact Char.not_le.mp blank

mutual

theorem Ndxml.readBack_eq_self (tree : Ndxml) :
    tree.readBack = tree ↔ tree.Every VisibleNode := by
  cases tree with
  | mk name attrs value subs =>
    rw [Ndxml.readBack, Ndxml.mk.injEq, Ndxml.readBacks_eq_self subs,
      dropWhile_blank_eq_self, Ndxml.Every, VisibleNode]
    exact ⟨fun same => same.2.2, fun every => ⟨rfl, rfl, every⟩⟩

theorem Ndxml.readBacks_eq_self (subs : List Ndxml) :
    Ndxml.readBacks subs = subs ↔ Ndxml.EveryOf VisibleNode subs := by
  cases subs with
  | nil => exact ⟨fun _ => trivial, fun _ => rfl⟩
  | cons sub subs =>
    rw [Ndxml.readBacks, cons.injEq, Ndxml.readBack_eq_self sub,
      Ndxml.readBacks_eq_self subs, Ndxml.EveryOf]

end

end Parsing

section RoundTrip

/-- `parse_xmlbuf` makes the same tree of the text `xml_tobuf` writes. -/
def Ndxml.RoundTrips (tree : Ndxml) : Prop :=
  ∃ text, xmlTobuf .utf8 tree = some text ∧ ∃ parseEnd error,
    ndxmlFromText .utf8 text = some (.node tree parseEnd error)

/-- What a tree needs in each node to come back: its escaped values fit the
buffer of `xml_tobuf`, its end tag is read like its start tag and its attribute
names fit their buffer, and its value begins with a visible character. -/
def RestorableNode (name : List Char) (attrs : List (List Char × List Char))
    (value : List Char) (subs : List Ndxml) : Prop :=
  FitNode name attrs value subs ∧ ReadableNode name attrs value subs ∧
    VisibleNode name attrs value subs

/-- A tree comes back from its text exactly if all of its nodes can. -/
theorem roundTrips_iff {tree : Ndxml} (savable : tree.Every SavableNode) :
    tree.RoundTrips ↔ tree.Every RestorableNode := by
  obtain ⟨written, overrun⟩ := xmlTobuf_savable tree savable
  have parsing (fit : tree.Every FitNode) := parseXmlbuf_text tree savable fit
    (show 4 * tree.text.length ≤ 4 * tree.text.length + 4 by omega) []
    (Int.le_of_eq (congrArg (fun text : List Char => (text.length : Int))
      (append_nil tree.text))) none
  have all : tree.Every RestorableNode ↔ tree.Every FitNode ∧
      tree.Every ReadableNode ∧ tree.Every VisibleNode := by
    rw [← Ndxml.every_and, ← Ndxml.every_and]
    rfl
  rw [all]
  constructor
  · rintro ⟨text, wrote, parseEnd, error, parsed⟩
    have fit : tree.Every FitNode := by
      by_contra unfit
      rw [overrun unfit] at wrote
      cases wrote
    obtain rfl : tree.text = text :=
      Option.some.inj ((written fit).symm.trans wrote)
    obtain ⟨reads, fails⟩ := parsing fit
    rw [append_nil] at reads fails
    rw [ndxmlFromText] at parsed
    have readable : tree.Every ReadableNode := by
      by_contra unreadable
      rcases fails unreadable with undefined | ⟨place, failed⟩
      · rw [undefined] at parsed
        cases parsed
      · rw [failed] at parsed
        cases parsed
    obtain ⟨left, read⟩ := reads readable
    have same : tree.readBack = tree := by
      rw [read] at parsed
      exact (Parsed.node.inj (Option.some.inj parsed)).1
    exact ⟨fit, readable, (Ndxml.readBack_eq_self tree).mp same⟩
  · rintro ⟨fit, readable, visible⟩
    obtain ⟨left, read⟩ := (parsing fit).1 readable
    rw [append_nil, (Ndxml.readBack_eq_self tree).mpr visible] at read
    exact ⟨tree.text, written fit, [' '], left, read⟩

def savedSample : Ndxml :=
  .mk "map".toList [("size".toList, "2 < 3".toList)] []
    [.mk "item".toList [] "a & b".toList []]

theorem roundTrips_savedSample : savedSample.RoundTrips := by
  refine (roundTrips_iff ?_).mpr ?_
  · refine ⟨⟨⟨by decide, by decide⟩, ?_, ?_, Or.inr ⟨rfl, by simp⟩⟩, ?_, trivial⟩
    · intro attr member
      cases mem_singleton.mp member
      exact ⟨by decide, ⟨"2 < 3".toList, by decide⟩, by decide, by decide⟩
    · exact ⟨⟨[], rfl⟩, by decide, by decide⟩
    · exact ⟨⟨⟨by decide, by decide⟩, by simp,
        ⟨⟨"a & b".toList, by decide⟩, by decide, by decide⟩,
        Or.inl ⟨by decide, rfl⟩⟩, trivial⟩
  · exact ⟨⟨⟨by decide, by decide⟩, ⟨by decide, by decide⟩,
        show ∀ c ∈ ([] : List Char).head?, ' ' < c by decide⟩,
      ⟨⟨⟨by decide, by decide⟩, ⟨by decide, by decide⟩,
        show ∀ c ∈ "a & b".toList.head?, ' ' < c by decide⟩, trivial⟩,
      trivial⟩

def dottedTag : Ndxml :=
  .mk "a.b".toList [] "x".toList []

def returnsNode : Option Parsed → Bool
  | some (.node _ _ _) => true
  | _ => false

/-- The end tag of `<a.b>x</a.b>` is read as `a`, and no tree comes back. -/
theorem dottedTag_not_roundTrips :
    dottedTag.Every SavableNode ∧ ¬ dottedTag.RoundTrips := by
  constructor
  · exact ⟨⟨⟨by decide, by decide⟩, by simp,
      ⟨⟨"x".toList, by decide⟩, by decide, by decide⟩,
      Or.inl ⟨by decide, rfl⟩⟩, trivial⟩
  · rintro ⟨text, wrote, parseEnd, error, parsed⟩
    have same : xmlTobuf .utf8 dottedTag =
        some "<a.b>x</a.b> ".toList := by
      decide
    obtain rfl := Option.some.inj (same.symm.trans wrote)
    have refused :
        returnsNode (ndxmlFromText .utf8 "<a.b>x</a.b> ".toList) = false := by
      decide +kernel
    rw [parsed] at refused
    cases refused

end RoundTrip

end NdNet.Xml
