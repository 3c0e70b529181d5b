import NdNet.Common.XmlGrammar

/-!
# The parser reads its grammar

What `parse_xmlbuf` returns says what the grammar finds in the text, for every
size the caller gives; and if the size is not smaller than the text, the parser
returns what the grammar finds.
-/

namespace NdNet.Xml

open NdNet.Str

variable {code : CodeType} {stale : Char}

section Front

variable {lax : Bool} {text other tag start name behind rest : List Char}

variable (same : firstValid other = firstValid text)
include same

theorem Skips.congr
    (skips : Skips text tag) : Skips other tag := by
  cases skips with
  | tag found question mark => exact .tag (same.trans found) question mark
  | declaration found search later =>
    exact .declaration (same.trans found) search later
  | comment found search later => exact .comment (same.trans found) search later

theorem TagStart.congr
    (tagStart : TagStart text start) : TagStart other start where
  found := by
    obtain ⟨tag, skips, found⟩ := tagStart.found
    exact ⟨tag, skips.congr same, found⟩
  first := tagStart.first

theorem Tag.congr
    (opens : Tag code text name behind) : Tag code other name behind := by
  obtain ⟨start, ret, tagStart, parsed⟩ := opens
  exact ⟨start, ret, tagStart.congr same, parsed⟩

theorem Nameless.congr
    (nameless : Nameless code text) : Nameless code other := by
  rcases nameless with ⟨tag, skips, ends⟩ | ⟨start, ret, name, behind,
    tagStart, parsed⟩
  · exact .inl ⟨tag, skips.congr same, ends⟩
  · exact .inr ⟨start, ret, name, behind, tagStart.congr same, parsed⟩

theorem Element.congr
    (element : Element code lax text rest) : Element code lax other rest := by
  cases element with
  | closed opens attribs => exact .closed (opens.congr same) attribs
  | opened opens attribs content ends =>
    exact .opened (opens.congr same) attribs content ends

theorem ElementLost.congr
    (lost : ElementLost code text) : ElementLost code other := by
  obtain ⟨lax, inner, name, behind, content, paddr, opens, parts⟩ := lost
  exact ⟨lax, inner, name, behind, content, paddr, opens.congr same, parts⟩

theorem ElementBreaks.congr
    (breaks : ElementBreaks code text) : ElementBreaks code other := by
  cases breaks with
  | name tagStart name => exact .name (tagStart.congr same) name
  | attribs opens attribs => exact .attribs (opens.congr same) attribs
  | content opens attribs content =>
    exact .content (opens.congr same) attribs content
  | ending opens attribs content ends =>
    exact .ending (opens.congr same) attribs content ends

theorem Subs.congr
    (subs : Subs code lax text rest) : Subs code lax other rest := by
  cases subs with
  | none skips mark => exact .none (skips.congr same) mark
  | sub element later => exact .sub (element.congr same) later

theorem SubsBreak.congr
    (breaks : SubsBreak code text) : SubsBreak code other := by
  cases breaks with
  | ended none => exact .ended (same.trans none)
  | nameless nameless => exact .nameless (nameless.congr same)
  | unquoted opens unquoted => exact .unquoted (opens.congr same) unquoted
  | lost lost => exact .lost (lost.congr same)
  | element breaks => exact .element (breaks.congr same)
  | later element breaks => exact .later (element.congr same) breaks

end Front

theorem skipMark_strstr {left next : Int} {pstart closing rest behind : List Char}
    (skipped : skipMark left pstart closing rest = some (next, behind)) :
    ∃ found, strstr closing rest = some found ∧
      behind = found.drop closing.length := by
  unfold skipMark at skipped
  split at skipped
  · cases skipped
  · rename_i found search
    split at skipped
    · cases skipped
    · cases skipped
      exact ⟨found, search, rfl⟩

theorem parseMarkedFrom_skips {fuel : Nat} {left : Int} {pstart paddr : List Char}
    {error found : Option (List Char)}
    (marked : parseMarkedFrom fuel left pstart error = (some paddr, found)) :
    Skips pstart paddr ∧ found = none := by
  induction fuel generalizing left pstart error with
  | zero => cases marked
  | succ fuel induction =>
    rw [parseMarkedFrom] at marked
    split at marked
    · cases marked
    split at marked
    · cases marked
    rename_i tag valid
    split_ifs at marked with first within
    · cases marked
    · cases marked
    obtain ⟨rest, rfl⟩ : ∃ rest, tag = '<' :: rest := by
      cases tag with
      | nil => exact absurd (not_not.mp first) (by simp)
      | cons c rest =>
        exact ⟨rest, by
          rw [Option.some.inj (not_not.mp first)]⟩
    rw [List.drop_one, List.tail_cons] at marked
    split at marked
    · split at marked
      · cases marked
      · rename_i skipped
        obtain ⟨search, there, rfl⟩ := skipMark_strstr skipped
        obtain ⟨later, none⟩ := induction marked
        exact ⟨.declaration valid there later, none⟩
    · split at marked
      · cases marked
      · rename_i skipped
        obtain ⟨search, there, rfl⟩ := skipMark_strstr skipped
        obtain ⟨later, none⟩ := induction marked
        exact ⟨.comment valid there later, none⟩
    · cases marked
    · rename_i noQuestion _ noMark
      cases marked
      refine ⟨.tag valid ?_ ?_, rfl⟩
      · intro question
        cases rest with
        | nil => cases question
        | cons c rest =>
          cases question
          exact noQuestion rest rfl
      · intro mark
        cases rest with
        | nil => cases mark
        | cons c rest =>
          cases mark
          exact noMark rest rfl

theorem skipMark_whole {left : Int} {pstart closing rest found : List Char}
    (whole : (pstart.length : Int) ≤ left) (some_ : closing ≠ [])
    (search : strstr closing rest = some found) :
    ∃ next, skipMark left pstart closing rest =
        some (next, found.drop closing.length) ∧
      ((found.drop closing.length).length : Int) ≤ next := by
  have inside := (strstr_split search).2.length_le
  have positive : 0 < closing.length := List.length_pos_iff.mpr some_
  unfold skipMark
  rw [search]
  dsimp only
  rw [if_neg (by omega)]
  refine ⟨_, rfl, ?_⟩
  rw [List.length_drop]
  omega

/-- A tag that the grammar finds is found within a size that is not smaller than
the text. -/
theorem Skips.parseMarkedFrom {text tag : List Char} (skips : Skips text tag)
    {fuel : Nat} {left : Int} (enough : text.length < fuel)
    (whole : (text.length : Int) ≤ left) (error : Option (List Char)) :
    Xml.parseMarkedFrom fuel left text error = (some tag, none) := by
  induction skips generalizing fuel left error with
  | @tag text rest found question mark =>
    obtain ⟨fuel, rfl⟩ := Nat.exists_eq_add_of_lt enough
    have valid := firstValid_le found
    rw [List.length_cons] at valid
    rw [Xml.parseMarkedFrom, if_neg (by omega), found]
    dsimp only
    rw [if_neg (by simp), if_neg (by rw [List.length_cons]; omega),
      List.drop_one, List.tail_cons]
    split
    · exact absurd rfl question
    · exact absurd rfl mark
    · exact absurd rfl mark
    · rfl
  | @declaration text rest found tag valid search _ induction
  | @comment text rest found tag valid search _ induction =>
    obtain ⟨fuel, rfl⟩ := Nat.exists_eq_add_of_lt enough
    have most := firstValid_le valid
    have ends := strstr_le search
    simp only [List.length_cons] at most
    obtain ⟨next, skipped, later⟩ :=
      @skipMark_whole left text _ _ _ whole (by decide) search
    rw [Xml.parseMarkedFrom, if_neg (by omega), valid]
    dsimp only
    rw [if_neg (by simp), if_neg (by simp only [List.length_cons]; omega),
      List.drop_one, List.tail_cons]
    simp only [skipped]
    refine induction ?_ later _
    rw [List.length_drop]
    omega

def AttribsOutcome (code : CodeType) (text : List Char) :
    Option AttribsRead → Prop
  | none => AttribsBreak code text
  | some (.closed _ paddr _) => ∃ lax, Attribs code lax true text paddr
  | some (.opened _ paddr _) =>
    (∃ lax, Attribs code lax false text paddr) ∨
      (paddr = [] ∧ AttribsBreak code text)
  | some (.failed .unset error) => error.isSome ∧ Unquoted code text
  | some (.failed .null error) => error.isSome
  | some (.failed (.here _) _) => False

theorem AttribsOutcome.add {lax : Bool} {text mark after : List Char}
    {attr : List Char × List Char} {read : Option AttribsRead}
    (head : AttribMark code text lax mark) (quoted : Quoted code mark after)
    (outcome : AttribsOutcome code after read) :
    AttribsOutcome code text (read.map (AttribsRead.add attr)) := by
  cases read with
  | none => exact .later head quoted outcome
  | some read =>
    cases read with
    | closed attrs paddr error =>
      obtain ⟨later, attribs⟩ := outcome
      exact ⟨_, .attrib head quoted attribs⟩
    | opened attrs paddr error =>
      rcases outcome with ⟨later, attribs⟩ | ⟨none, breaks⟩
      · exact .inl ⟨_, .attrib head quoted attribs⟩
      · exact .inr ⟨none, .later head quoted breaks⟩
    | failed parseEnd error =>
      cases parseEnd with
      | unset => exact ⟨outcome.1, .later head quoted outcome.2⟩
      | null | here paddr => exact outcome

theorem readAttribs_outcome {fuel : Nat} {text : List Char}
    (enough : text.length ≤ fuel) (error : Option (List Char)) :
    AttribsOutcome code text
      (readAttribs (some stale) code fuel text error) := by
  induction fuel generalizing text error with
  | zero =>
    cases text with
    | nil => exact .inr ⟨rfl, .ended rfl⟩
    | cons c text => exact absurd enough (Nat.not_succ_le_zero _)
  | succ fuel induction =>
    cases text with
    | nil => exact .inr ⟨rfl, .ended rfl⟩
    | cons c text =>
      rw [readAttribs]
      split
      · rename_i none
        exact .ended none
      rename_i start found
      split_ifs with closed opened
      · exact ⟨_, .closed found closed⟩
      · exact .inl ⟨_, .opened found (by simpa using closed) opened⟩
      have attribStart : AttribStart (c :: text) start :=
        ⟨found, by simpa using closed, opened⟩
      split
      · rename_i none
        exact .name attribStart (.inl none)
      rename_i ret name behind parsed
      split_ifs with refused long
      · rfl
      · exact .name attribStart
          (.inr ⟨ret, name, behind, parsed, by omega, long⟩)
      split
      · rfl
      rename_i mark equals
      have head : AttribMark code (c :: text) (loose behind mark)
          mark :=
        ⟨start, ret, name, behind, attribStart, parsed,
          by omega, by omega, equals, rfl⟩
      have any := @xmlReadAttrval_any code mark stale
      split
      · rename_i none
        rw [none] at any
        exact .value head any
      · rename_i none
        rw [none] at any
        exact ⟨rfl, .here head any⟩
      · rename_i value after read
        rw [read] at any
        have shorter := head.lt
        refine AttribsOutcome.add head any.1 (induction ?_ _)
        omega

def EndOutcome (code : CodeType) (name paddr : List Char) :
    Option Parsed → Prop
  | none => EndBreaks code name paddr
  | some (.node _ rest _) => ∃ lax, EndTag code lax name paddr rest
  | some (.null .null none) => EndLost code name paddr
  | some (.null .null (some _)) => True
  | some (.null _ _) => False

theorem readEnd_outcome (name : List Char)
    (attrs : List (List Char × List Char)) (value : List Char)
    (subs : List Ndxml) (paddr : List Char) (error : Option (List Char)) :
    EndOutcome code name paddr
      (readEnd code name attrs value subs paddr error) := by
  unfold readEnd
  split_ifs with noMark
  · exact trivial
  have mark : isMarkStart paddr = true := by simpa using noMark
  split
  · rename_i none
    exact ⟨mark, .inl none⟩
  rename_i start found
  split
  · rename_i none
    exact ⟨mark, .inr ⟨start, found, .inl none⟩⟩
  rename_i endName behind parsed
  split_ifs with long differs
  · exact ⟨mark, .inr ⟨start, found, .inr
      ⟨endName, behind, parsed, .inl long⟩⟩⟩
  · cases behind with
    | none =>
      exact ⟨start, endName, mark, found, parsed, by omega, differs⟩
    | some behind => exact trivial
  · have same : stricmp name endName = 0 := not_not.mp differs
    split
    · rename_i none
      exact ⟨mark, .inr ⟨start, found, .inr
        ⟨endName, behind, parsed, .inr ⟨same, none⟩⟩⟩⟩
    · rename_i closing search
      cases behind with
      | none => cases search
      | some behind =>
        exact ⟨_, start, endName, behind, closing, mark, found, parsed,
          by omega, same, search, rfl, rfl⟩

def ContentOutcome (code : CodeType) (name text : List Char) :
    Option Parsed → Prop
  | none => ContentBreaks code text ∨
      ∃ inner paddr, Content code inner text paddr ∧ EndBreaks code name paddr
  | some (.node _ rest _) => ∃ inner later paddr,
      Content code inner text paddr ∧ EndTag code later name paddr rest
  | some (.null .null none) => ∃ inner paddr,
      Content code inner text paddr ∧ EndLost code name paddr
  | some (.null .null (some _)) => True
  | some (.null _ _) => False

theorem EndOutcome.content {inner : Bool} {name text paddr : List Char}
    {parsed : Option Parsed} (content : Content code inner text paddr)
    (outcome : EndOutcome code name paddr parsed) :
    ContentOutcome code name text parsed := by
  cases parsed with
  | none => exact .inr ⟨inner, paddr, content, outcome⟩
  | some parsed =>
    cases parsed with
    | node tree rest error =>
      obtain ⟨later, ends⟩ := outcome
      exact ⟨inner, later, paddr, content, ends⟩
    | null parseEnd error =>
      cases parseEnd with
      | unset | here paddr => exact outcome
      | null =>
        cases error with
        | none => exact ⟨inner, paddr, content, outcome⟩
        | some error => exact trivial

def Outcome (code : CodeType) (text : List Char) : Option Parsed → Prop
  | none => ElementBreaks code text
  | some (.node _ rest _) => ∃ lax, Element code lax text rest
  | some (.null (.here paddr) error) =>
    error = none ∧ Skips text paddr ∧ isMarkStart paddr = true
  | some (.null .null none) => Nameless code text ∨ ElementLost code text
  | some (.null .null (some _)) => True
  | some (.null .unset error) => error.isSome ∧
      ∃ name behind, Tag code text name behind ∧ Unquoted code behind

def SubsOutcome (code : CodeType) (text : List Char) :
    Option SubsRead → Prop
  | none => SubsBreak code text
  | some (.read _ paddr _) => ∃ lax, Subs code lax text paddr
  | some (.failed _) => True

theorem SubsOutcome.later {lax : Bool} {text rest : List Char}
    {read : Option SubsRead} (element : Element code lax text rest)
    (outcome : SubsOutcome code rest read) : SubsOutcome code text read := by
  cases read with
  | none => exact SubsBreak.later element outcome
  | some read =>
    cases read with
    | read subs paddr error =>
      obtain ⟨later, others⟩ := outcome
      exact ⟨_, .sub element others⟩
    | failed error => exact trivial

theorem SubsOutcome.add {text : List Char} {read : Option SubsRead}
    (outcome : SubsOutcome code text read) (first : List Ndxml) :
    SubsOutcome code text (read.map (SubsRead.add first)) := by
  cases read with
  | none => exact outcome
  | some read => cases read <;> exact outcome

theorem SubsOutcome.congr {text other : List Char} {read : Option SubsRead}
    (same : firstValid other = firstValid text)
    (outcome : SubsOutcome code text read) : SubsOutcome code other read := by
  cases read with
  | none => exact SubsBreak.congr same outcome
  | some read =>
    cases read with
    | read subs paddr error =>
      obtain ⟨lax, others⟩ := outcome
      exact ⟨lax, others.congr same⟩
    | failed error => exact trivial

section Functions

/-- The five functions read their parts of the grammar with this fuel. -/
structure Reading (code : CodeType) (stale : Char) (fuel : Nat) : Prop where
  xmlbuf : ∀ text size error, 4 * text.length + 3 ≤ fuel →
    Outcome code text (parseXmlbuf (some stale) code fuel text size error)
  element : ∀ text start size error, TagStart text start →
    4 * text.length + 2 ≤ fuel →
      Outcome code text
        (parseElement (some stale) code fuel text size start error)
  content : ∀ xmlbuf size name attrs text error, 4 * text.length + 5 ≤ fuel →
    ContentOutcome code name text
      (parseContent (some stale) code fuel xmlbuf size name attrs text error)
  subs : ∀ text size error, 4 * text.length + 4 ≤ fuel →
    SubsOutcome code text (parseSubs (some stale) code fuel text size error)
  next : ∀ paddr size first text error, 4 * text.length + 5 ≤ fuel →
    SubsOutcome code text
      (nextSub (some stale) code fuel paddr size first text error)

namespace Reading

variable {fuel : Nat}

variable (reading : Reading code stale fuel)
include reading

theorem succ_xmlbuf (text : List Char) (size : Int) (error : Option (List Char))
    (enough : 4 * text.length + 3 ≤ fuel + 1) :
    Outcome code text
      (parseXmlbuf (some stale) code (fuel + 1) text size error) := by
  rw [parseXmlbuf]
  split
  · exact trivial
  rename_i paddr error marked
  obtain ⟨skips, rfl⟩ := parseMarkedFrom_skips marked
  split_ifs with mark
  · exact ⟨rfl, skips, mark⟩
  have noMark : isMarkStart paddr = false := by simpa using mark
  split
  · rename_i none
    exact .inl (.inl ⟨paddr, skips, noMark, none⟩)
  · rename_i start found
    split_ifs with refused
    · exact trivial
    · exact reading.element text start size none
        ⟨⟨paddr, skips, noMark, found⟩, by simpa using refused⟩ (by omega)

theorem succ_element (text start : List Char) (size : Int)
    (error : Option (List Char)) (tagStart : TagStart text start)
    (enough : 4 * text.length + 2 ≤ fuel + 1) :
    Outcome code text
      (parseElement (some stale) code (fuel + 1) text size start error) := by
  rw [parseElement]
  split
  · rename_i none
    exact .name tagStart (.inl none)
  rename_i ret name behind parsed
  split_ifs with refused long
  · cases error with
    | none => exact .inl (.inr ⟨start, ret, name, behind, tagStart, parsed,
        refused⟩)
    | some error => exact trivial
  · exact .name tagStart (.inr ⟨ret, name, behind, parsed, by omega, long⟩)
  · have opens : Tag code text name behind :=
      ⟨start, ret, tagStart, parsed, by omega, by omega⟩
    have attribs := @readAttribs_outcome code stale behind.length behind
      (Nat.le_refl _) error
    split
    · rename_i none
      rw [none] at attribs
      exact .attribs opens attribs
    · rename_i parseEnd error failed
      rw [failed] at attribs
      cases parseEnd with
      | unset => exact ⟨attribs.1, name, behind, opens, attribs.2⟩
      | null =>
        cases error with
        | none => cases attribs
        | some error => exact trivial
      | here paddr => exact absurd attribs id
    · rename_i attrs paddr error closed
      rw [closed] at attribs
      obtain ⟨lax, attribs⟩ := attribs
      exact ⟨lax, .closed opens attribs⟩
    · rename_i attrs paddr error opened
      rw [opened] at attribs
      have shorter := opens.lt
      rcases attribs with ⟨lax, attribs⟩ | ⟨rfl, breaks⟩
      · have most := attribs.le
        have content := reading.content text size name attrs paddr error
          (by omega)
        cases parsed : parseContent (some stale) code fuel text size name
            attrs paddr error with
        | none =>
          rw [parsed] at content
          rcases content with breaks | ⟨inner, last, content, breaks⟩
          · exact .content opens attribs breaks
          · exact .ending opens attribs content breaks
        | some result =>
          rw [parsed] at content
          cases result with
          | node tree rest error =>
            obtain ⟨inner, later, last, content, ends⟩ := content
            exact ⟨_, .opened opens attribs content ends⟩
          | null parseEnd error =>
            cases parseEnd with
            | unset | here paddr => exact absurd content id
            | null =>
              cases error with
              | some error => exact trivial
              | none =>
                obtain ⟨inner, last, content, lost⟩ := content
                exact .inr ⟨lax, inner, name, behind, paddr, last,
                  opens, attribs, content, lost⟩
      · have ended : parseContent (some stale) code fuel text size name attrs
            [] error = none := by
          cases fuel with
          | zero | succ fuel => rfl
        rw [ended]
        exact .attribs opens breaks

theorem succ_content (xmlbuf : List Char) (size : Int) (name : List Char)
    (attrs : List (List Char × List Char)) (text : List Char)
    (error : Option (List Char)) (enough : 4 * text.length + 5 ≤ fuel + 1) :
    ContentOutcome code name text
      (parseContent (some stale) code (fuel + 1) xmlbuf size name attrs text
        error) := by
  rw [parseContent]
  split
  · rename_i none
    exact .inl (.ended none)
  rename_i paddr found
  have valid := firstValid_le found
  split_ifs with mark first
  · exact (readEnd_outcome name attrs [] [] paddr error).content
      (.empty found mark)
  · have noMark : isMarkStart paddr = false := by simpa using mark
    have children := reading.subs paddr
      (size - (xmlbuf.length - paddr.length)) error (by omega)
    split
    · rename_i none
      rw [none] at children
      exact .inl (.subs found noMark first children)
    · exact trivial
    · rename_i subs behind error read
      rw [read] at children
      obtain ⟨lax, children⟩ := children
      exact (readEnd_outcome name attrs [] subs behind error).content
        (.subs found noMark first children)
  · have any := @xmlReadValue_any code paddr stale
    split
    · rename_i none
      rw [none] at any
      exact .inl (.value found first any)
    · rename_i value behind read
      rw [read] at any
      exact (readEnd_outcome name attrs value [] behind error).content
        (.value found first any.1)

theorem succ_next (paddr : List Char) (size : Int) (first : List Ndxml)
    (text : List Char) (error : Option (List Char))
    (enough : 4 * text.length + 5 ≤ fuel + 1) :
    SubsOutcome code text
      (nextSub (some stale) code (fuel + 1) paddr size first text error) := by
  rw [nextSub]
  split
  · rename_i none
    exact SubsBreak.ended none
  rename_i next found
  have same : firstValid text = firstValid next :=
    found.trans (firstValid_found found).symm
  have valid := firstValid_le found
  split_ifs with mark
  · refine ⟨false, .none ?_ mark⟩
    obtain ⟨rest, rfl⟩ : ∃ rest, next = '<' :: '/' :: rest := by
      have marked := List.isPrefixOf_iff_prefix.mp mark
      obtain ⟨rest, rfl⟩ := marked
      exact ⟨rest, rfl⟩
    exact .tag found (by simp) (by simp)
  · refine (SubsOutcome.congr same ?_).add first
    exact reading.subs next _ error (by omega)

theorem succ_subs (text : List Char) (size : Int) (error : Option (List Char))
    (enough : 4 * text.length + 4 ≤ fuel + 1) :
    SubsOutcome code text
      (parseSubs (some stale) code (fuel + 1) text size error) := by
  have outcome := reading.xmlbuf text size error (by omega)
  rw [parseSubs]
  cases parsed : parseXmlbuf (some stale) code fuel text size error with
  | none =>
    rw [parsed] at outcome
    exact SubsBreak.element outcome
  | some result =>
    rw [parsed] at outcome
    cases result with
    | node tree rest error =>
      obtain ⟨lax, element⟩ := outcome
      have shorter := element.lt
      exact SubsOutcome.later element
        (reading.next text size [tree] rest error (by omega))
    | null parseEnd error =>
      cases parseEnd with
      | unset =>
        obtain ⟨_, name, behind, opens, unquoted⟩ := outcome
        exact SubsBreak.unquoted opens unquoted
      | null =>
        cases error with
        | none =>
          rcases outcome with nameless | lost
          · exact SubsBreak.nameless nameless
          · exact SubsBreak.lost lost
        | some error => exact trivial
      | here paddr =>
        obtain ⟨rfl, skips, mark⟩ := outcome
        have ended : nextSub (some stale) code fuel text size [] paddr
            none = some (.read [] paddr none) := by
          obtain ⟨rest, rfl, _⟩ := skips.head
          cases fuel with
          | zero => omega
          | succ fuel =>
            rw [nextSub, firstValid_cons (by decide)]
            simp only [mark, if_true]
        simp only [ended]
        exact ⟨false, .none skips mark⟩

end Reading

theorem reading (code : CodeType) (stale : Char) (fuel : Nat) :
    Reading code stale fuel := by
  induction fuel with
  | zero =>
    constructor
    · intro text size error enough
      omega
    · intro text start size error tagStart enough
      omega
    · intro xmlbuf size name attrs text error enough
      omega
    · intro text size error enough
      omega
    · intro paddr size first text error enough
      omega
  | succ fuel induction =>
    exact ⟨induction.succ_xmlbuf, induction.succ_element,
      induction.succ_content, induction.succ_subs, induction.succ_next⟩

end Functions

end NdNet.Xml
