import NdNet.Common.XmlReading
import NdNet.Common.XmlUnique

/-!
# The parser finds what the grammar finds

With a size that is not smaller than the text and enough fuel the parser returns
a tree for every element of the grammar, and it leaves its text wherever the
grammar says that an element breaks.
-/

namespace NdNet.Xml

open NdNet.Str

variable {code : CodeType} {stale : Char}

theorem AttribMark.readAttribs {lax : Bool} {text mark : List Char}
    (head : AttribMark code text lax mark) (stale : Option Char) :
    ∃ attrName, ∀ fuel error,
      Xml.readAttribs stale code (fuel + 1) text error =
        match xmlReadAttrval stale code mark textBufSize with
        | none => none
        | some none => some (.failed .unset (some mark))
        | some (some (value, after)) =>
          (Xml.readAttribs stale code fuel after (some mark)).map
            (AttribsRead.add (attrName, value)) := by
  obtain ⟨start, ret, attrName, behind, attribStart, parsed, accepted, fits,
    equals, _⟩ := head
  refine ⟨attrName, ?_⟩
  intro fuel error
  cases text with
  | nil => cases attribStart.found
  | cons c rest =>
    rw [Xml.readAttribs, attribStart.found]
    simp only [attribStart.inside, Bool.false_eq_true, if_false,
      attribStart.unclosed, parsed, equals]
    refine (if_neg (by omega)).trans ?_
    exact if_neg (by omega)

theorem AttribMark.readAttribs_quoted {lax : Bool} {text mark after : List Char}
    (head : AttribMark code text lax mark) (quoted : Quoted code mark after)
    (stale : Char) :
    ∃ attr, ∀ fuel error,
      Xml.readAttribs (some stale) code (fuel + 1) text error =
        (Xml.readAttribs (some stale) code fuel after (some mark)).map
          (AttribsRead.add attr) := by
  obtain ⟨attrName, reads⟩ := head.readAttribs (some stale)
  obtain ⟨value, read⟩ := quoted stale
  refine ⟨(attrName, value), ?_⟩
  intro fuel error
  rw [reads, read]

theorem Attribs.readAttribs {lax closed : Bool} {text rest : List Char}
    (attribs : Attribs code lax closed text rest) {fuel : Nat}
    (enough : text.length ≤ fuel) (error : Option (List Char)) :
    ∃ attrs found, Xml.readAttribs (some stale) code fuel text error =
      some (if closed then .closed attrs rest found
        else .opened attrs rest found) := by
  induction attribs generalizing fuel error with
  | @closed text paddr found inside =>
    cases text with
    | nil => cases found
    | cons c text =>
      obtain ⟨fuel, rfl⟩ := Nat.exists_eq_add_of_le' enough
      refine ⟨[], error, ?_⟩
      rw [List.length_cons, ← Nat.add_assoc, Xml.readAttribs, found]
      simp only [inside, if_true]
  | @opened text paddr found outside sign =>
    cases text with
    | nil => cases found
    | cons c text =>
      obtain ⟨fuel, rfl⟩ := Nat.exists_eq_add_of_le' enough
      refine ⟨[], error, ?_⟩
      rw [List.length_cons, ← Nat.add_assoc, Xml.readAttribs, found]
      simp only [outside, sign, Bool.false_eq_true, if_false, if_true]
  | @attrib lax later closed text mark after rest head quoted _ induction =>
    have shorter := head.lt
    have most := quoted.le
    cases fuel with
    | zero => omega
    | succ fuel =>
      obtain ⟨attr, reads⟩ := head.readAttribs_quoted quoted stale
      have remaining : after.length ≤ fuel := by omega
      obtain ⟨attrs, found, read⟩ := induction remaining (some mark)
      refine ⟨attr :: attrs, found, ?_⟩
      rw [reads, read]
      cases closed <;> rfl

variable {text : List Char}

theorem AttribsBreak.readAttribs (breaks : AttribsBreak code text) {fuel : Nat}
    (enough : text.length ≤ fuel) (error : Option (List Char)) :
    Xml.readAttribs (some stale) code fuel text error = none ∨
      ∃ attrs found, Xml.readAttribs (some stale) code fuel text error =
        some (.opened attrs [] found) := by
  induction breaks generalizing fuel error with
  | @ended text none =>
    cases text with
    | nil =>
      refine .inr ⟨[], error, ?_⟩
      cases fuel <;> rfl
    | cons c text =>
      obtain ⟨fuel, rfl⟩ := Nat.exists_eq_add_of_le' enough
      left
      rw [List.length_cons, ← Nat.add_assoc, Xml.readAttribs, none]
  | @name text start attribStart breaks =>
    cases text with
    | nil => cases attribStart.found
    | cons c text =>
      obtain ⟨fuel, rfl⟩ := Nat.exists_eq_add_of_le' enough
      left
      rw [List.length_cons, ← Nat.add_assoc, Xml.readAttribs, attribStart.found]
      simp only [attribStart.inside, Bool.false_eq_true, if_false,
        attribStart.unclosed]
      rcases breaks with none | ⟨ret, name, behind, parsed, accepted, long⟩
      · rw [none]
      · simp only [parsed]
        rw [if_neg (by omega), if_pos long]
  | @value lax text mark head none =>
    have shorter := head.lt
    cases fuel with
    | zero => omega
    | succ fuel =>
      obtain ⟨attrName, reads⟩ := head.readAttribs (some stale)
      left
      rw [reads, none]
  | @later lax text mark after head quoted _ induction =>
    have shorter := head.lt
    have most := quoted.le
    cases fuel with
    | zero => omega
    | succ fuel =>
      obtain ⟨attr, reads⟩ := head.readAttribs_quoted quoted stale
      have remaining : after.length ≤ fuel := by omega
      rcases induction remaining (some mark) with none | ⟨attrs, found, read⟩
      · left
        rw [reads, none]
        rfl
      · refine .inr ⟨attr :: attrs, found, ?_⟩
        rw [reads, read]
        rfl

theorem Unquoted.readAttribs (unquoted : Unquoted code text) {fuel : Nat}
    (enough : text.length ≤ fuel) (error : Option (List Char)) :
    ∃ found, readAttribs (some stale) code fuel text error =
      some (.failed .unset (some found)) := by
  induction unquoted generalizing fuel error with
  | @here lax text mark head none =>
    have shorter := head.lt
    cases fuel with
    | zero => omega
    | succ fuel =>
      obtain ⟨attrName, reads⟩ := head.readAttribs (some stale)
      refine ⟨mark, ?_⟩
      rw [reads, none]
  | @later lax text mark after head quoted _ induction =>
    have shorter := head.lt
    have most := quoted.le
    cases fuel with
    | zero => omega
    | succ fuel =>
      obtain ⟨attr, reads⟩ := head.readAttribs_quoted quoted stale
      have remaining : after.length ≤ fuel := by omega
      obtain ⟨found, read⟩ := induction remaining (some mark)
      refine ⟨found, ?_⟩
      rw [reads, read]
      rfl

variable {size : Int}

theorem TagStart.parseXmlbuf {text start : List Char}
    (tagStart : TagStart text start) (whole : (text.length : Int) ≤ size)
    (stale : Char) (fuel : Nat) (error : Option (List Char)) :
    Xml.parseXmlbuf (some stale) code (fuel + 1) text size error =
      parseElement (some stale) code fuel text size start none := by
  obtain ⟨tag, skips, noMark, found⟩ := tagStart.found
  have marked := skips.parseMarkedFrom (Nat.lt_succ_self _) whole error
  rw [Xml.parseXmlbuf, parseMarked, marked]
  simp only [noMark, Bool.false_eq_true, if_false, found, tagStart.first]

theorem Tag.parseXmlbuf {text name behind : List Char}
    (opens : Tag code text name behind) (whole : (text.length : Int) ≤ size)
    (stale : Char) (fuel : Nat) (error : Option (List Char)) :
    parseXmlbuf (some stale) code (fuel + 2) text size error =
      match readAttribs (some stale) code behind.length behind none with
      | none => none
      | some (.failed parseEnd error) => some (.null parseEnd error)
      | some (.closed attrs paddr error) =>
        some (.node (.mk name attrs [] []) paddr error)
      | some (.opened attrs paddr error) =>
        parseContent (some stale) code fuel text size name attrs paddr
          error := by
  obtain ⟨start, ret, tagStart, parsed, accepted, fits⟩ := opens
  rw [tagStart.parseXmlbuf whole, parseElement, parsed]
  refine (if_neg (by omega)).trans ?_
  exact if_neg (by omega)

theorem Nameless.parseXmlbuf (nameless : Nameless code text)
    (whole : (text.length : Int) ≤ size) (stale : Char) (fuel : Nat)
    (error : Option (List Char)) :
    Xml.parseXmlbuf (some stale) code (fuel + 2) text size error =
      some (.null .null none) := by
  rcases nameless with ⟨tag, skips, noMark, none⟩ | ⟨start, ret, name, behind,
    tagStart, parsed, refused⟩
  · have marked := skips.parseMarkedFrom (Nat.lt_succ_self _) whole error
    rw [Xml.parseXmlbuf, parseMarked, marked]
    simp only [noMark, Bool.false_eq_true, if_false, none]
  · rw [tagStart.parseXmlbuf whole, parseElement, parsed]
    dsimp only
    rw [if_pos refused]

theorem Skips.parseXmlbuf {text paddr : List Char} (skips : Skips text paddr)
    (mark : isMarkStart paddr = true) (whole : (text.length : Int) ≤ size)
    (stale : Char) (fuel : Nat) (error : Option (List Char)) :
    Xml.parseXmlbuf (some stale) code (fuel + 1) text size error =
      some (.null (.here paddr) none) := by
  have marked := skips.parseMarkedFrom (Nat.lt_succ_self _) whole error
  rw [Xml.parseXmlbuf, parseMarked, marked]
  simp only [mark, if_true]

theorem EndTag.readEnd {lax : Bool} {name paddr rest : List Char}
    (ends : EndTag code lax name paddr rest)
    (attrs : List (List Char × List Char)) (value : List Char)
    (subs : List Ndxml) (error : Option (List Char)) :
    Xml.readEnd code name attrs value subs paddr error =
      some (.node (.mk name attrs value subs) rest error) := by
  obtain ⟨start, endName, behind, mark, marked, found, parsed, fits, same,
    search, rfl, _⟩ := ends
  unfold Xml.readEnd
  rw [marked, found]
  simp only [Bool.not_true, Bool.false_eq_true, if_false, parsed, same, ne_eq,
    not_true_eq_false, Option.bind_some, search]
  rw [if_neg (by omega)]

theorem EndLost.readEnd {name paddr : List Char}
    (lost : EndLost code name paddr) (attrs : List (List Char × List Char))
    (value : List Char) (subs : List Ndxml) (error : Option (List Char)) :
    Xml.readEnd code name attrs value subs paddr error =
      some (.null .null none) := by
  obtain ⟨start, endName, marked, found, parsed, fits, differs⟩ := lost
  unfold Xml.readEnd
  rw [marked, found]
  simp only [Bool.not_true, Bool.false_eq_true, if_false, parsed]
  rw [if_neg (by omega), if_pos differs]

theorem EndBreaks.readEnd {name paddr : List Char}
    (breaks : EndBreaks code name paddr) (attrs : List (List Char × List Char))
    (value : List Char) (subs : List Ndxml) (error : Option (List Char)) :
    Xml.readEnd code name attrs value subs paddr error = none := by
  obtain ⟨marked, none | ⟨start, found, none | ⟨endName, behind, parsed,
    long | ⟨same, open_⟩⟩⟩⟩ := breaks
  · unfold Xml.readEnd
    rw [marked, none]
    rfl
  · unfold Xml.readEnd
    rw [marked, found]
    simp only [Bool.not_true, Bool.false_eq_true, if_false, none]
  · unfold Xml.readEnd
    rw [marked, found]
    simp only [Bool.not_true, Bool.false_eq_true, if_false, parsed]
    rw [if_pos long]
  · unfold Xml.readEnd
    rw [marked, found]
    simp only [Bool.not_true, Bool.false_eq_true, if_false, parsed, same,
      ne_eq, not_true_eq_false, open_]
    exact ite_self _

theorem Skips.mark {text paddr : List Char}
    (found : Str.firstValid text = some paddr)
    (mark : isMarkStart paddr = true) : Skips text paddr := by
  obtain ⟨rest, rfl⟩ := List.isPrefixOf_iff_prefix.mp mark
  have skips : Skips text ('<' :: '/' :: rest) :=
    .tag found (by simp) (by simp)
  exact skips

theorem Subs.firstValid {lax : Bool} {text rest : List Char}
    (subs : Subs code lax text rest) :
    ∃ paddr, Str.firstValid text = some paddr := by
  cases subs with
  | none skips _ => exact skips.firstValid
  | sub element _ => exact element.firstValid

/-- The functions of the parser find the parts of the grammar with this
fuel. -/
structure Finding (code : CodeType) (stale : Char) (fuel : Nat) : Prop where
  element : ∀ {lax text rest}, Element code lax text rest → ∀ size error,
    4 * text.length + 3 ≤ fuel → (text.length : Int) ≤ size →
      ∃ tree found, parseXmlbuf (some stale) code fuel text size error =
        some (.node tree rest found)
  content : ∀ {lax text rest}, Content code lax text rest →
    ∀ xmlbuf size name attrs error, 4 * text.length + 5 ≤ fuel →
      (List.length xmlbuf : Int) ≤ size → ∃ value subs found,
        parseContent (some stale) code fuel xmlbuf size name attrs text error =
          readEnd code name attrs value subs rest found
  subs : ∀ {lax text rest}, Subs code lax text rest → ∀ size error,
    4 * text.length + 4 ≤ fuel → (text.length : Int) ≤ size →
      ∃ subs found, parseSubs (some stale) code fuel text size error =
        some (.read subs rest found)

namespace Finding

variable {fuel : Nat} {lax : Bool} {text rest : List Char}

theorem next (finding : Finding code stale fuel)
    (others : Subs code lax text rest) (paddr : List Char) (size : Int)
    (first : List Ndxml) (error : Option (List Char))
    (enough : 4 * text.length + 4 ≤ fuel) (whole : (paddr.length : Int) ≤ size)
    :
    ∃ subs found, nextSub (some stale) code (fuel + 1) paddr size first text
      error = some (.read subs rest found) := by
  obtain ⟨start, found⟩ := others.firstValid
  have same : Str.firstValid start = Str.firstValid text :=
    (firstValid_found found).trans found.symm
  have valid := firstValid_le found
  rw [nextSub, found]
  dsimp only
  split_ifs with mark
  · have ended : Subs code false text start := .none (.mark found mark) mark
    obtain ⟨_, rfl⟩ := (grammar_unique code).2.2 ended others
    exact ⟨first, error, rfl⟩
  · obtain ⟨subs, after, read⟩ := finding.subs (others.congr same)
      (size - (paddr.length - start.length)) error (by omega) (by omega)
    refine ⟨first ++ subs, after, ?_⟩
    rw [read]
    rfl

variable (earlier : ∀ less < fuel, Finding code stale less)
include earlier

theorem succ_element (element : Element code lax text rest) (size : Int)
    (error : Option (List Char)) (enough : 4 * text.length + 3 ≤ fuel)
    (whole : (text.length : Int) ≤ size) :
    ∃ tree found, parseXmlbuf (some stale) code fuel text size error =
      some (.node tree rest found) := by
  obtain ⟨fuel, rfl⟩ : ∃ less, fuel = less + 2 := ⟨fuel - 2, by omega⟩
  cases element with
  | @closed _ _ name behind _ opens attribs =>
    obtain ⟨attrs, found, read⟩ :=
      @Attribs.readAttribs _ stale _ _ _ _ attribs _ (Nat.le_refl _) none
    refine ⟨.mk name attrs [] [], found, ?_⟩
    rw [opens.parseXmlbuf whole, read]
    rfl
  | @opened _ _ _ _ name behind body paddr _ opens attribs content ends =>
    obtain ⟨attrs, error, read⟩ :=
      @Attribs.readAttribs _ stale _ _ _ _ attribs _ (Nat.le_refl _) none
    have shorter := opens.lt
    have most := attribs.le
    obtain ⟨value, subs, found, parsed⟩ :=
      (earlier fuel (by omega)).content content text size name attrs error
        (by omega) whole
    refine ⟨.mk name attrs value subs, found, ?_⟩
    rw [opens.parseXmlbuf whole, read]
    simp only [Bool.false_eq_true, if_false, parsed, ends.readEnd]

theorem succ_content (content : Content code lax text rest) (xmlbuf : List Char)
    (size : Int) (name : List Char) (attrs : List (List Char × List Char))
    (error : Option (List Char)) (enough : 4 * text.length + 5 ≤ fuel)
    (whole : (xmlbuf.length : Int) ≤ size) :
    ∃ value subs found,
      parseContent (some stale) code fuel xmlbuf size name attrs text error =
        readEnd code name attrs value subs rest found := by
  obtain ⟨fuel, rfl⟩ : ∃ less, fuel = less + 1 := ⟨fuel - 1, by omega⟩
  rw [parseContent]
  cases content with
  | empty found mark =>
    refine ⟨[], [], error, ?_⟩
    simp only [found, mark, if_true]
  | @subs _ _ paddr _ found noMark first children =>
    have valid := firstValid_le found
    obtain ⟨subs, after, read⟩ := (earlier fuel (by omega)).subs children
      (size - (xmlbuf.length - paddr.length)) error (by omega) (by omega)
    refine ⟨[], subs, after, ?_⟩
    simp only [found, noMark, Bool.false_eq_true, if_false, first, if_true,
      read]
  | @value _ paddr _ found noTag value =>
    obtain ⟨characters, read⟩ := value stale
    refine ⟨characters, [], error, ?_⟩
    have noMark : isMarkStart paddr = false := by
      refine Bool.eq_false_iff.mpr ?_
      intro mark
      exact noTag (head_of_isMarkStart mark)
    simp only [found, noMark, Bool.false_eq_true, if_false, noTag, read]

theorem succ_subs (children : Subs code lax text rest) (size : Int)
    (error : Option (List Char)) (enough : 4 * text.length + 4 ≤ fuel)
    (whole : (text.length : Int) ≤ size) :
    ∃ subs found, parseSubs (some stale) code fuel text size error =
      some (.read subs rest found) := by
  obtain ⟨fuel, rfl⟩ : ∃ less, fuel = less + 2 := ⟨fuel - 2, by omega⟩
  rw [parseSubs]
  cases children with
  | none skips mark =>
    refine ⟨[], none, ?_⟩
    rw [skips.parseXmlbuf mark whole]
    obtain ⟨tag, rfl, _⟩ := skips.head
    simp only [nextSub, firstValid_cons (c := '<') (by decide), mark, if_true]
  | @sub _ _ _ behind _ element others =>
    obtain ⟨tree, error, read⟩ := (earlier (fuel + 1) (by omega)).element
      element size error (by omega) whole
    have shorter := element.lt
    rw [read]
    exact (earlier fuel (by omega)).next others text size [tree] error
      (by omega) whole

end Finding

theorem finding (code : CodeType) (stale : Char) (fuel : Nat) :
    Finding code stale fuel := by
  induction fuel using Nat.strongRecOn with
  | ind fuel earlier =>
    constructor
    · exact Finding.succ_element earlier
    · exact Finding.succ_content earlier
    · exact Finding.succ_subs earlier

theorem ElementLost.parseXmlbuf (lost : ElementLost code text) {fuel : Nat}
    (enough : 4 * text.length + 3 ≤ fuel) (whole : (text.length : Int) ≤ size)
    (stale : Char) (error : Option (List Char)) :
    parseXmlbuf (some stale) code fuel text size error =
      some (.null .null none) := by
  obtain ⟨fuel, rfl⟩ : ∃ less, fuel = less + 2 := ⟨fuel - 2, by omega⟩
  obtain ⟨lax, inner, name, behind, body, paddr, opens, attribs, content,
    ends⟩ := lost
  obtain ⟨attrs, found, read⟩ :=
    @Attribs.readAttribs _ stale _ _ _ _ attribs _ (Nat.le_refl _) none
  have shorter := opens.lt
  have most := attribs.le
  obtain ⟨value, subs, after, parsed⟩ := (finding code stale fuel).content
    content text size name attrs found (by omega) whole
  rw [opens.parseXmlbuf whole, read]
  simp only [Bool.false_eq_true, if_false, parsed, ends.readEnd]

theorem ElementBreaks.tagStart
    (breaks : ElementBreaks code text) : ∃ start, TagStart text start := by
  cases breaks with
  | name tagStart _ => exact ⟨_, tagStart⟩
  | attribs opens _ | content opens _ _ | ending opens _ _ _ =>
    obtain ⟨start, _, tagStart, _⟩ := opens
    exact ⟨start, tagStart⟩

theorem SubsBreak.not_mark {text paddr : List Char}
    (breaks : SubsBreak code text) (found : Str.firstValid text = some paddr) :
    isMarkStart paddr = false := by
  refine Bool.eq_false_iff.mpr ?_
  intro mark
  have ended : Skips text paddr := .mark found mark
  have noTag : ∀ start, ¬ TagStart text start := by
    intro start tagStart
    obtain ⟨tag, skips, noMark, _⟩ := tagStart.found
    rw [← ended.unique skips, mark] at noMark
    cases noMark
  cases breaks with
  | ended none =>
    rw [none] at found
    cases found
  | nameless nameless =>
    rcases nameless with ⟨tag, skips, noMark, _⟩ | ⟨start, _, _, _, tagStart, _⟩
    · rw [← ended.unique skips, mark] at noMark
      cases noMark
    · exact noTag start tagStart
  | unquoted opens _ =>
    obtain ⟨start, _, tagStart, _⟩ := opens
    exact noTag start tagStart
  | lost lost =>
    obtain ⟨_, _, _, _, _, _, ⟨start, _, tagStart, _⟩, _⟩ := lost
    exact noTag start tagStart
  | element breaks =>
    obtain ⟨start, tagStart⟩ := breaks.tagStart
    exact noTag start tagStart
  | later element _ =>
    rw [element.not_mark ended] at mark
    cases mark

/-- The functions of the parser leave their text where the grammar breaks. -/
structure Breaking (code : CodeType) (stale : Char) (fuel : Nat) : Prop where
  element : ∀ {text}, ElementBreaks code text → ∀ size error,
    4 * text.length + 3 ≤ fuel → (text.length : Int) ≤ size →
      parseXmlbuf (some stale) code fuel text size error = none
  content : ∀ {text}, ContentBreaks code text → ∀ xmlbuf size name attrs error,
    4 * text.length + 5 ≤ fuel → (List.length xmlbuf : Int) ≤ size →
      parseContent (some stale) code fuel xmlbuf size name attrs text error =
        none
  subs : ∀ {text}, SubsBreak code text → ∀ size error,
    firstValid text ≠ none → 4 * text.length + 4 ≤ fuel →
      (text.length : Int) ≤ size →
        parseSubs (some stale) code fuel text size error = none

namespace Breaking

variable {fuel : Nat} {text : List Char}

theorem next (breaking : Breaking code stale fuel)
    (breaks : SubsBreak code text) (paddr : List Char) (size : Int)
    (first : List Ndxml) (error : Option (List Char))
    (enough : 4 * text.length + 4 ≤ fuel) (whole : (paddr.length : Int) ≤ size)
    :
    nextSub (some stale) code (fuel + 1) paddr size first text error =
      none := by
  rw [nextSub]
  cases found : firstValid text with
  | none => rfl
  | some start =>
    have valid := firstValid_le found
    have again := firstValid_found found
    dsimp only
    rw [breaks.not_mark found, if_neg Bool.false_ne_true,
      breaking.subs (breaks.congr (again.trans found.symm)) _ error
        (by simp [again]) (by omega) (by omega)]
    rfl

variable (earlier : ∀ less < fuel, Breaking code stale less)
include earlier

theorem succ_element (breaks : ElementBreaks code text) (size : Int)
    (error : Option (List Char)) (enough : 4 * text.length + 3 ≤ fuel)
    (whole : (text.length : Int) ≤ size) :
    parseXmlbuf (some stale) code fuel text size error = none := by
  obtain ⟨fuel, rfl⟩ : ∃ less, fuel = less + 2 := ⟨fuel - 2, by omega⟩
  cases breaks with
  | name tagStart breaks =>
    rw [tagStart.parseXmlbuf whole, parseElement]
    rcases breaks with none | ⟨ret, name, behind, parsed, accepted, long⟩
    · rw [none]
    · simp only [parsed]
      rw [if_neg (by omega), if_pos long]
  | @attribs _ name behind opens breaks =>
    rw [opens.parseXmlbuf whole]
    rcases @AttribsBreak.readAttribs _ stale _ breaks _ (Nat.le_refl _)
      none with none | ⟨attrs, found, read⟩
    · rw [none]
    · rw [read]
      cases fuel with
      | zero | succ fuel => rfl
  | @content lax _ name behind body opens attribs breaks =>
    obtain ⟨attrs, found, read⟩ :=
      @Attribs.readAttribs _ stale _ _ _ _ attribs _ (Nat.le_refl _) none
    have shorter := opens.lt
    have most := attribs.le
    rw [opens.parseXmlbuf whole, read]
    exact (earlier fuel (by omega)).content breaks text size name attrs found
      (by omega) whole
  | @ending lax inner _ name behind body paddr opens attribs content breaks =>
    obtain ⟨attrs, found, read⟩ :=
      @Attribs.readAttribs _ stale _ _ _ _ attribs _ (Nat.le_refl _) none
    have shorter := opens.lt
    have most := attribs.le
    obtain ⟨value, subs, after, parsed⟩ := (finding code stale fuel).content
      content text size name attrs found (by omega) whole
    rw [opens.parseXmlbuf whole, read]
    simp only [Bool.false_eq_true, if_false, parsed, breaks.readEnd]

theorem succ_content (breaks : ContentBreaks code text) (xmlbuf : List Char)
    (size : Int) (name : List Char) (attrs : List (List Char × List Char))
    (error : Option (List Char)) (enough : 4 * text.length + 5 ≤ fuel)
    (whole : (xmlbuf.length : Int) ≤ size) :
    parseContent (some stale) code fuel xmlbuf size name attrs text error =
      none := by
  obtain ⟨fuel, rfl⟩ : ∃ less, fuel = less + 1 := ⟨fuel - 1, by omega⟩
  rw [parseContent]
  cases breaks with
  | ended none => rw [none]
  | @subs _ paddr found noMark first breaks =>
    have valid := firstValid_le found
    have none := (earlier fuel (by omega)).subs breaks
      (size - (xmlbuf.length - paddr.length)) error
      (by simp [firstValid_found found]) (by omega) (by omega)
    simp only [found, noMark, Bool.false_eq_true, if_false, first, if_true,
      none]
  | @value _ paddr found noTag none =>
    have noMark : isMarkStart paddr = false := by
      refine Bool.eq_false_iff.mpr ?_
      intro mark
      exact noTag (head_of_isMarkStart mark)
    simp only [found, noMark, Bool.false_eq_true, if_false, noTag, none]

theorem succ_subs (breaks : SubsBreak code text) (size : Int)
    (error : Option (List Char)) (begins : firstValid text ≠ none)
    (enough : 4 * text.length + 4 ≤ fuel) (whole : (text.length : Int) ≤ size) :
    parseSubs (some stale) code fuel text size error = none := by
  obtain ⟨fuel, rfl⟩ : ∃ less, fuel = less + 3 := ⟨fuel - 3, by omega⟩
  rw [parseSubs]
  cases breaks with
  | ended none => exact absurd none begins
  | nameless nameless => rw [nameless.parseXmlbuf whole]
  | unquoted opens unquoted =>
    obtain ⟨found, read⟩ :=
      @Unquoted.readAttribs _ stale _ unquoted _ (Nat.le_refl _) none
    rw [opens.parseXmlbuf whole, read]
  | lost lost => rw [lost.parseXmlbuf (by omega) whole]
  | element breaks =>
    rw [(earlier (fuel + 2) (by omega)).element breaks size error (by omega)
      whole]
  | @later lax _ rest element breaks =>
    obtain ⟨tree, found, read⟩ := (finding code stale (fuel + 2)).element
      element size error (by omega) whole
    have shorter := element.lt
    rw [read]
    exact (earlier (fuel + 1) (by omega)).next breaks text size [tree] found
      (by omega) whole

end Breaking

theorem breaking (code : CodeType) (stale : Char) (fuel : Nat) :
    Breaking code stale fuel := by
  induction fuel using Nat.strongRecOn with
  | ind fuel earlier =>
    constructor
    · exact Breaking.succ_element earlier
    · exact Breaking.succ_content earlier
    · exact Breaking.succ_subs earlier

end NdNet.Xml
