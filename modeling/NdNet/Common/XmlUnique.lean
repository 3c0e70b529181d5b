import NdNet.Common.XmlGrammar

/-!
# A text has one reading

The parts of the grammar exclude each other, and where a part ends and whether
something is passed over in it is determined by the text.
-/

namespace NdNet.Xml

open NdNet.Str

variable {code : CodeType} {lax closed : Bool}
  {text tag start name behind mark after rest : List Char}

variable {other : List Char}

theorem Skips.unique (first : Skips text tag)
    (second : Skips text other) : tag = other := by
  induction first generalizing other with
  | tag found question mark =>
    cases second with
    | tag again _ _ =>
      rw [found] at again
      exact Option.some.inj again
    | declaration again _ _ =>
      rw [found] at again
      cases again
      exact absurd rfl question
    | comment again _ _ =>
      rw [found] at again
      cases again
      exact absurd rfl mark
  | declaration found search _ induction =>
    cases second with
    | tag again question _ =>
      rw [found] at again
      cases again
      exact absurd rfl question
    | declaration again there later =>
      rw [found] at again
      cases again
      rw [search] at there
      cases there
      exact induction later
    | comment again _ _ =>
      rw [found] at again
      cases again
  | comment found search _ induction =>
    cases second with
    | tag again _ mark =>
      rw [found] at again
      cases again
      exact absurd rfl mark
    | declaration again _ _ =>
      rw [found] at again
      cases again
    | comment again there later =>
      rw [found] at again
      cases again
      rw [search] at there
      cases there
      exact induction later

theorem TagStart.unique (first : TagStart text start)
    (second : TagStart text other) : start = other := by
  obtain ⟨tag, skips, _, found⟩ := first.found
  obtain ⟨again, skipped, _, there⟩ := second.found
  rw [skips.unique skipped, there] at found
  exact (Option.some.inj found).symm

theorem Tag.unique {other later : List Char} (first : Tag code text name behind)
    (second : Tag code text other later) : name = other ∧ behind = later := by
  obtain ⟨start, ret, tagStart, parsed, _, _⟩ := first
  obtain ⟨again, same, tagAgain, parsedAgain, _, _⟩ := second
  rw [tagStart.unique tagAgain, parsedAgain] at parsed
  cases parsed
  exact ⟨rfl, rfl⟩

theorem Tag.named (opens : Tag code text name behind) :
    ¬ Nameless code text := by
  obtain ⟨start, ret, tagStart, parsed, accepted, _⟩ := opens
  rintro (⟨tag, skips, _, ended⟩ | ⟨other, refused, word, last, tagAgain, read,
    none⟩)
  · obtain ⟨again, skipped, _, found⟩ := tagStart.found
    rw [skips.unique skipped, found] at ended
    cases ended
  · rw [tagStart.unique tagAgain, read] at parsed
    cases parsed
    omega

theorem AttribStart.unique (first : AttribStart text start)
    (second : AttribStart text other) :
    start = other := by
  have found := first.found
  rw [second.found] at found
  exact (Option.some.inj found).symm

theorem AttribMark.unique {loosely : Bool} {other : List Char}
    (first : AttribMark code text lax mark)
    (second : AttribMark code text loosely other) :
    lax = loosely ∧ mark = other := by
  obtain ⟨start, ret, name, behind, attribStart, parsed, _, _, equals, rfl⟩ :=
    first
  obtain ⟨again, same, word, last, attribAgain, read, _, _, sign, rfl⟩ := second
  rw [attribStart.unique attribAgain, read] at parsed
  cases parsed
  rw [sign] at equals
  cases equals
  exact ⟨rfl, rfl⟩

theorem Quoted.unique (first : Quoted code mark after)
    (second : Quoted code mark other) : after = other := by
  obtain ⟨value, read⟩ := first ' '
  obtain ⟨again, there⟩ := second ' '
  rw [there] at read
  cases read
  rfl

variable {paddr : List Char}

theorem AttribMark.unclosed (head : AttribMark code text lax mark)
    (found : firstValid text = some paddr) :
    isMarkEnd paddr = false ∧ paddr.head? ≠ some '>' := by
  obtain ⟨start, _, _, _, attribStart, _⟩ := head
  have same := attribStart.found
  rw [found] at same
  cases same
  exact ⟨attribStart.inside, attribStart.unclosed⟩

theorem Attribs.unique {loosely ends : Bool} {other : List Char}
    (first : Attribs code lax closed text rest)
    (second : Attribs code loosely ends text other) :
    lax = loosely ∧ closed = ends ∧ rest = other := by
  induction first generalizing loosely ends other with
  | closed found inside =>
    cases second with
    | closed again _ =>
      rw [found] at again
      cases again
      exact ⟨rfl, rfl, rfl⟩
    | opened again outside _ =>
      rw [found] at again
      cases again
      rw [inside] at outside
      cases outside
    | attrib head _ _ =>
      rw [(head.unclosed found).1] at inside
      cases inside
  | opened found outside sign =>
    cases second with
    | closed again inside =>
      rw [found] at again
      cases again
      rw [inside] at outside
      cases outside
    | opened again _ _ =>
      rw [found] at again
      cases again
      exact ⟨rfl, rfl, rfl⟩
    | attrib head _ _ => exact absurd sign (head.unclosed found).2
  | attrib head quoted _ induction =>
    cases second with
    | closed found inside =>
      rw [(head.unclosed found).1] at inside
      cases inside
    | opened found _ sign => exact absurd sign (head.unclosed found).2
    | attrib again value later =>
      obtain ⟨rfl, rfl⟩ := head.unique again
      obtain rfl := quoted.unique value
      obtain ⟨rfl, rfl, rfl⟩ := induction later
      exact ⟨rfl, rfl, rfl⟩

theorem EndTag.unique {loosely : Bool} {paddr other : List Char}
    (first : EndTag code lax name paddr rest)
    (second : EndTag code loosely name paddr other) :
    lax = loosely ∧ rest = other := by
  obtain ⟨start, endName, behind, mark, _, found, parsed, _, _, search, rfl,
    rfl⟩ := first
  obtain ⟨again, word, last, sign, _, there, read, _, _, sought, rfl, rfl⟩ :=
    second
  rw [found] at there
  cases there
  rw [parsed] at read
  cases read
  rw [search] at sought
  cases sought
  exact ⟨rfl, rfl⟩

theorem EndLost.not_endTag (lost : EndLost code name paddr)
    (ends : EndTag code lax name paddr rest) : False := by
  obtain ⟨start, endName, _, found, parsed, _, _⟩ := lost
  obtain ⟨again, word, last, sign, _, there, read, _⟩ := ends
  rw [found] at there
  cases there
  rw [parsed] at read
  cases read

theorem Value.unique (first : Value code text rest)
    (second : Value code text other) : rest = other := by
  obtain ⟨found, read⟩ := first ' '
  obtain ⟨again, there⟩ := second ' '
  rw [there] at read
  cases read
  rfl

theorem head_of_isMarkStart
    (mark : isMarkStart paddr = true) : paddr.head? = some '<' := by
  obtain ⟨rest, rfl⟩ := List.isPrefixOf_iff_prefix.mp mark
  rfl

theorem Skips.firstValid (skips : Skips text tag) :
    ∃ paddr, Str.firstValid text = some paddr := by
  cases skips with
  | tag found _ _ | declaration found _ _ | comment found _ _ =>
    exact ⟨_, found⟩

theorem Tag.firstValid (opens : Tag code text name behind) :
    ∃ paddr, Str.firstValid text = some paddr := by
  obtain ⟨start, ret, tagStart, _⟩ := opens
  obtain ⟨tag, skips, _⟩ := tagStart.found
  exact skips.firstValid

theorem Nameless.firstValid (nameless : Nameless code text) :
    ∃ paddr, Str.firstValid text = some paddr := by
  rcases nameless with ⟨tag, skips, _⟩ | ⟨start, _, _, _, tagStart, _⟩
  · exact skips.firstValid
  · obtain ⟨tag, skips, _⟩ := tagStart.found
    exact skips.firstValid

theorem Element.begins (element : Element code lax text rest) :
    ∃ name behind, Tag code text name behind := by
  cases element with
  | closed opens _ | opened opens _ _ _ => exact ⟨_, _, opens⟩

theorem Element.firstValid (element : Element code lax text rest) :
    ∃ paddr, Str.firstValid text = some paddr := by
  obtain ⟨name, behind, opens⟩ := element.begins
  exact opens.firstValid

theorem ElementLost.firstValid (lost : ElementLost code text) :
    ∃ paddr, Str.firstValid text = some paddr := by
  obtain ⟨_, _, _, _, _, _, opens, _⟩ := lost
  exact opens.firstValid

theorem Element.not_mark (element : Element code lax text rest)
    (skips : Skips text paddr) :
    isMarkStart paddr = false := by
  obtain ⟨name, behind, start, ret, tagStart, _⟩ := element.begins
  obtain ⟨tag, skipped, mark, _⟩ := tagStart.found
  rw [skips.unique skipped]
  exact mark

theorem grammar_unique (code : CodeType) :
    (∀ {lax text rest}, Element code lax text rest →
      ∀ {loosely other}, Element code loosely text other →
        lax = loosely ∧ rest = other) ∧
      (∀ {lax text rest}, Content code lax text rest →
        ∀ {loosely other}, Content code loosely text other →
          lax = loosely ∧ rest = other) ∧
      (∀ {lax text rest}, Subs code lax text rest →
        ∀ {loosely other}, Subs code loosely text other →
          lax = loosely ∧ rest = other) := by
  refine grammar_induction ?_ ?_ ?_ ?_ ?_ ?_ ?_
  · intro lax text name behind rest opens attribs loosely other second
    cases second with
    | closed again attribsAgain =>
      obtain ⟨rfl, rfl⟩ := opens.unique again
      obtain ⟨rfl, _, rfl⟩ := attribs.unique attribsAgain
      exact ⟨rfl, rfl⟩
    | opened again attribsAgain _ _ =>
      obtain ⟨rfl, rfl⟩ := opens.unique again
      obtain ⟨_, ends, _⟩ := attribs.unique attribsAgain
      cases ends
  · intro lax inner later text name behind body paddr rest opens attribs _ ends
      content loosely other second
    cases second with
    | closed again attribsAgain =>
      obtain ⟨rfl, rfl⟩ := opens.unique again
      obtain ⟨_, ends, _⟩ := attribs.unique attribsAgain
      cases ends
    | opened again attribsAgain contentAgain endsAgain =>
      obtain ⟨rfl, rfl⟩ := opens.unique again
      obtain ⟨rfl, _, rfl⟩ := attribs.unique attribsAgain
      obtain ⟨rfl, rfl⟩ := content contentAgain
      obtain ⟨rfl, rfl⟩ := ends.unique endsAgain
      exact ⟨rfl, rfl⟩
  · intro text paddr found mark loosely other second
    cases second with
    | empty again _ =>
      rw [found] at again
      cases again
      exact ⟨rfl, rfl⟩
    | subs again noMark _ _ =>
      rw [found] at again
      cases again
      rw [mark] at noMark
      cases noMark
    | value again noTag _ =>
      rw [found] at again
      cases again
      exact absurd (head_of_isMarkStart mark) noTag
  · intro lax text paddr behind found noMark first _ subs loosely other second
    cases second with
    | empty again mark =>
      rw [found] at again
      cases again
      rw [mark] at noMark
      cases noMark
    | subs again _ _ children =>
      rw [found] at again
      cases again
      exact subs children
    | value again noTag _ =>
      rw [found] at again
      cases again
      exact absurd first noTag
  · intro text paddr behind found noTag value loosely other second
    cases second with
    | empty again mark =>
      rw [found] at again
      cases again
      exact absurd (head_of_isMarkStart mark) noTag
    | subs again _ first _ =>
      rw [found] at again
      cases again
      exact absurd first noTag
    | value again _ there =>
      rw [found] at again
      cases again
      obtain rfl := value.unique there
      exact ⟨rfl, rfl⟩
  · intro text paddr skips mark loosely other second
    cases second with
    | none again _ => exact ⟨rfl, skips.unique again⟩
    | sub element _ =>
      rw [element.not_mark skips] at mark
      cases mark
  · intro lax later text rest behind parsed _ element subs loosely other second
    cases second with
    | none skips mark =>
      rw [parsed.not_mark skips] at mark
      cases mark
    | sub again others =>
      obtain ⟨rfl, rfl⟩ := element again
      obtain ⟨rfl, rfl⟩ := subs others
      exact ⟨rfl, rfl⟩

theorem ElementLost.not_element (lost : ElementLost code text)
    (element : Element code lax text rest) : False := by
  obtain ⟨loosely, inner, name, behind, content, paddr, opens, attribs, body,
    ends⟩ := lost
  cases element with
  | closed again attribsAgain =>
    obtain ⟨rfl, rfl⟩ := opens.unique again
    obtain ⟨_, ends, _⟩ := attribs.unique attribsAgain
    cases ends
  | opened again attribsAgain contentAgain endsAgain =>
    obtain ⟨rfl, rfl⟩ := opens.unique again
    obtain ⟨rfl, _, rfl⟩ := attribs.unique attribsAgain
    obtain ⟨rfl, rfl⟩ := (grammar_unique code).2.1 body contentAgain
    exact ends.not_endTag endsAgain

/-- A text is accepted as it should be or with something passed over, and not in
both ways. -/
theorem Document.unique {loosely : Bool} (first : Document code lax text)
    (second : Document code loosely text) : lax = loosely := by
  induction first generalizing loosely with
  | done none =>
    cases second with
    | done _ => rfl
    | element element _ =>
      obtain ⟨paddr, found⟩ := element.firstValid
      rw [none] at found
      cases found
    | nameless nameless =>
      obtain ⟨paddr, found⟩ := nameless.firstValid
      rw [none] at found
      cases found
    | lost lost =>
      obtain ⟨paddr, found⟩ := lost.firstValid
      rw [none] at found
      cases found
  | element element _ induction =>
    cases second with
    | done none =>
      obtain ⟨paddr, found⟩ := element.firstValid
      rw [none] at found
      cases found
    | element again later =>
      obtain ⟨rfl, rfl⟩ := (grammar_unique code).1 element again
      obtain rfl := induction later
      rfl
    | nameless nameless =>
      obtain ⟨name, behind, opens⟩ := element.begins
      exact absurd nameless opens.named
    | lost lost => exact (lost.not_element element).elim
  | nameless nameless =>
    cases second with
    | done none =>
      obtain ⟨paddr, found⟩ := nameless.firstValid
      rw [none] at found
      cases found
    | element element _ =>
      obtain ⟨name, behind, opens⟩ := element.begins
      exact absurd nameless opens.named
    | nameless _ | lost _ => rfl
  | lost lost =>
    cases second with
    | done none =>
      obtain ⟨paddr, found⟩ := lost.firstValid
      rw [none] at found
      cases found
    | element element _ => exact (lost.not_element element).elim
    | nameless _ | lost _ => rfl

end NdNet.Xml
