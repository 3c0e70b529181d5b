import NdNet.Common.XmlComplete

/-!
# Loading a whole text

`xml_load_from_buf` parses one element after the other.  It stops at the end of
the text, at an error, and where the parser leaves it neither an element nor an
error; behind white space, comments and declarations an end tag is left where it
is.
-/

namespace NdNet.Xml

open NdNet.Str

/-- The loop of `xml_load_from_buf`: the children that the root has, where the
next element is sought and what the parser has left in `error_addr`.  On an
error `ndxml_destroy` takes all children from the root. -/
def loadFrom (stale : Char) (code : CodeType) (dataLen : Int) :
    Nat → List Ndxml → List Char → Option (List Char) →
      Option (Int × List Ndxml)
  | 0, _, _, _ => none
  | rounds + 1, subs, parseAddr, error =>
    match firstValid parseAddr with
    | none => some (0, subs)
    | some parseAddr =>
      match parseXmlbuf (some stale) code (4 * parseAddr.length + 4)
          parseAddr dataLen error with
      | none => none
      | some (.node xmlnode next error) =>
        if next.isEmpty then some (0, subs ++ [xmlnode])
        else loadFrom stale code dataLen rounds (subs ++ [xmlnode]) next
          error
      | some (.null _ (some _)) => some (-1, [])
      | some (.null .null none) => some (0, subs)
      | some (.null (.here next) none) =>
        if next.isEmpty then some (0, subs)
        else loadFrom stale code dataLen rounds subs next none
      | some (.null .unset none) =>
        loadFrom stale code dataLen rounds subs parseAddr none

/-- `xml_load_from_buf` with this many rounds of its loop; `dataLen` is what the
conversion to `int` makes of `size`. -/
def xmlLoadFromBuf (stale : Char) (code : CodeType) (rounds : Nat)
    (buf : List Char) (dataLen : Int) (subs : List Ndxml) :
    Option (Int × List Ndxml) :=
  loadFrom stale code dataLen rounds subs buf none

variable {code : CodeType} {stale : Char}

theorem Document.not_mark {lax : Bool} {text paddr : List Char}
    (document : Document code lax text) (skips : Skips text paddr) :
    isMarkStart paddr = false := by
  have noTag : ∀ start, TagStart text start → isMarkStart paddr = false := by
    intro start tagStart
    obtain ⟨tag, skipped, noMark, _⟩ := tagStart.found
    rw [skips.unique skipped]
    exact noMark
  cases document with
  | done none =>
    obtain ⟨start, found⟩ := skips.firstValid
    rw [none] at found
    cases found
  | element element _ => exact element.not_mark skips
  | nameless nameless =>
    rcases nameless with ⟨tag, skipped, noMark, _⟩ | ⟨start, _, _, _,
      tagStart, _⟩
    · rw [skips.unique skipped]
      exact noMark
    · exact noTag start tagStart
  | lost lost =>
    obtain ⟨_, _, _, _, _, _, ⟨start, _, tagStart, _⟩, _⟩ := lost
    exact noTag start tagStart

variable {dataLen : Int} {text : List Char}

attribute [local simp] loadFrom in
theorem loadFrom_document {rounds : Nat} {subs loaded : List Ndxml}
    {error : Option (List Char)}
    (success : loadFrom stale code dataLen rounds subs text error =
      some (0, loaded)) : ∃ lax, Document code lax text := by
  induction rounds generalizing subs text error with
  | zero => cases success
  | succ rounds induction =>
    rw [loadFrom] at success
    cases found : firstValid text with
    | none => exact ⟨false, .done found⟩
    | some start =>
      have same : firstValid text = firstValid start :=
        found.trans (firstValid_found found).symm
      have outcome := (reading code stale (4 * start.length + 4)).xmlbuf
        start dataLen error (by omega)
      rw [found] at success
      dsimp only at success
      cases parsed : parseXmlbuf (some stale) code (4 * start.length + 4)
          start dataLen error with
      | none =>
        rw [parsed] at success
        cases success
      | some result =>
        rw [parsed] at success outcome
        cases result with
        | node tree next error =>
          obtain ⟨lax, element⟩ := outcome
          dsimp only at success
          split_ifs at success with ended
          · have done : Document code false next := by
              rw [List.isEmpty_iff.mp ended]
              exact .done rfl
            exact ⟨_, .element (element.congr same) done⟩
          · obtain ⟨later, document⟩ := induction success
            exact ⟨_, .element (element.congr same) document⟩
        | null parseEnd error =>
          cases parseEnd with
          | unset =>
            cases error with
            | none => cases outcome.1
            | some error => cases success
          | null =>
            cases error with
            | some error => cases success
            | none =>
              rcases outcome with nameless | lost
              · exact ⟨true, .nameless (nameless.congr same)⟩
              · exact ⟨true, .lost (lost.congr same)⟩
          | here paddr =>
            obtain ⟨rfl, skips, mark⟩ := outcome
            obtain ⟨tag, rfl, _⟩ := skips.head
            dsimp only at success
            split_ifs at success with ended
            · cases ended
            · obtain ⟨lax, document⟩ := induction success
              have again : Skips ('<' :: tag) ('<' :: tag) :=
                .mark (firstValid_cons (by decide) tag) mark
              rw [document.not_mark again] at mark
              cases mark

theorem loadFrom_failed {dataLen ret : Int} {rounds : Nat}
    {subs loaded : List Ndxml} {error : Option (List Char)}
    (failure : loadFrom stale code dataLen rounds subs text error =
      some (ret, loaded)) (nonzero : ret ≠ 0) : loaded = [] := by
  induction rounds generalizing subs text error with
  | zero => cases failure
  | succ rounds induction =>
    rw [loadFrom] at failure
    split at failure
    · cases failure
      exact absurd rfl nonzero
    split at failure
    · cases failure
    · split_ifs at failure with ended
      · cases failure
        exact absurd rfl nonzero
      · exact induction failure
    · cases failure
      rfl
    · cases failure
      exact absurd rfl nonzero
    · split_ifs at failure with ended
      · cases failure
        exact absurd rfl nonzero
      · exact induction failure
    · exact induction failure

theorem Document.loadFrom {lax : Bool} (document : Document code lax text)
    (whole : (text.length : Int) ≤ dataLen) (stale : Char) (subs : List Ndxml)
    (error : Option (List Char)) :
    ∃ rounds loaded, Xml.loadFrom stale code dataLen rounds subs text error =
      some (0, loaded) := by
  induction document generalizing subs error with
  | done none =>
    refine ⟨1, subs, ?_⟩
    rw [Xml.loadFrom, none]
  | @element lax later text rest element document induction =>
    obtain ⟨start, found⟩ := element.firstValid
    have same : Str.firstValid start = Str.firstValid text :=
      (firstValid_found found).trans found.symm
    have valid := firstValid_le found
    have shorter := element.lt
    obtain ⟨tree, after, read⟩ :=
      (finding code stale (4 * start.length + 4)).element
        (element.congr same) dataLen error (by omega) (by omega)
    obtain ⟨rounds, loaded, went⟩ :=
      induction (by omega) (subs ++ [tree]) after
    by_cases ended : rest.isEmpty
    · refine ⟨1, subs ++ [tree], ?_⟩
      rw [Xml.loadFrom, found]
      simp only [read, ended, if_true]
    · refine ⟨rounds + 1, loaded, ?_⟩
      rw [Xml.loadFrom, found]
      simp only [read, ended, Bool.false_eq_true, if_false, went]
  | @nameless text nameless =>
    obtain ⟨start, found⟩ := nameless.firstValid
    have same : Str.firstValid start = Str.firstValid text :=
      (firstValid_found found).trans found.symm
    have valid := firstValid_le found
    refine ⟨1, subs, ?_⟩
    rw [Xml.loadFrom, found]
    have left : (start.length : Int) ≤ dataLen := by omega
    simp only [(nameless.congr same).parseXmlbuf left]
  | @lost text lost =>
    obtain ⟨start, found⟩ := lost.firstValid
    have same : Str.firstValid start = Str.firstValid text :=
      (firstValid_found found).trans found.symm
    have valid := firstValid_le found
    refine ⟨1, subs, ?_⟩
    rw [Xml.loadFrom, found]
    have fuel : 4 * start.length + 3 ≤ 4 * start.length + 4 := by omega
    have left : (start.length : Int) ≤ dataLen := by omega
    simp only [(lost.congr same).parseXmlbuf fuel left]

/-- What a load of this text may report: success only for a text of the grammar
in which nothing is passed over, and no children after an error. -/
def LoadSound (code : CodeType) (text : List Char) : Prop :=
  ∀ stale rounds dataLen subs ret loaded,
    xmlLoadFromBuf stale code rounds text dataLen subs = some (ret, loaded) →
      if ret = 0 then Document code false text else loaded = []

/-- A load of this text reports success only for a whole sequence of complete
elements, unless something is passed over in it. -/
theorem loadSound_iff (code : CodeType) (text : List Char) :
    LoadSound code text ↔ ¬ Document code true text := by
  constructor
  · intro sound document
    obtain ⟨rounds, loaded, success⟩ :=
      document.loadFrom (Int.le_refl _) ' ' [] none
    have accepted := sound ' ' rounds text.length [] 0 loaded success
    cases document.unique accepted
  · intro strict stale rounds dataLen subs ret loaded went
    split_ifs with success
    · obtain ⟨lax, document⟩ := loadFrom_document (success ▸ went)
      cases lax with
      | false => exact document
      | true => exact absurd document strict
    · exact loadFrom_failed went success

/-- An end tag of another name with which the text breaks off is no error, and
neither is the element it loses. -/
theorem breakingOff_not_loadSound : ¬ LoadSound .ansi "<a></b".toList := by
  intro sound
  have returned : (xmlLoadFromBuf ' ' .ansi 1 "<a></b".toList 6 []).map
      Prod.fst = some 0 := by decide +kernel
  obtain ⟨⟨ret, loaded⟩, success, rfl⟩ := Option.map_eq_some_iff.mp returned
  have accepted := sound ' ' 1 6 [] 0 loaded success
  have skips : Skips "<a></b".toList "<a></b".toList :=
    .tag rfl (by decide) (by decide)
  have opens : Tag .ansi "<a></b".toList "a".toList "></b".toList :=
    ⟨"a></b".toList, 1, ⟨⟨_, skips, rfl, rfl⟩, rfl⟩, rfl, by decide, by decide⟩
  have attribs : Attribs .ansi false false "></b".toList
      ("></b".toList.drop 1) := .opened rfl rfl rfl
  have content : Content .ansi false "</b".toList "</b".toList :=
    .empty rfl rfl
  have ends : EndLost .ansi "a".toList "</b".toList :=
    ⟨"b".toList, "b".toList, rfl, rfl, rfl, by decide, by decide⟩
  have lost : ElementLost .ansi "<a></b".toList :=
    ⟨_, _, _, _, _, _, opens, attribs, content, ends⟩
  cases accepted.unique (.lost lost)

theorem DocumentBreaks.firstValid (breaks : DocumentBreaks code text) :
    ∃ paddr, Str.firstValid text = some paddr := by
  cases breaks with
  | endTag skips _ => exact skips.firstValid
  | element breaks =>
    obtain ⟨start, tagStart⟩ := breaks.tagStart
    obtain ⟨tag, skips, _⟩ := tagStart.found
    exact skips.firstValid
  | later element _ => exact element.firstValid

theorem Skips.loadFrom {text paddr : List Char} (skips : Skips text paddr)
    (mark : isMarkStart paddr = true) (whole : (text.length : Int) ≤ dataLen)
    (stale : Char) (rounds : Nat) (subs : List Ndxml)
    (error : Option (List Char)) :
    Xml.loadFrom stale code dataLen rounds subs text error = none := by
  induction rounds generalizing text error with
  | zero => rfl
  | succ rounds induction =>
    obtain ⟨start, found⟩ := skips.firstValid
    have same : Str.firstValid start = Str.firstValid text :=
      (firstValid_found found).trans found.symm
    have valid := firstValid_le found
    have shorter := skips.le
    obtain ⟨tag, rfl, _⟩ := skips.head
    have again : Skips ('<' :: tag) ('<' :: tag) :=
      .mark (firstValid_cons (by decide) tag) mark
    rw [Xml.loadFrom, found]
    simp only [(skips.congr same).parseXmlbuf mark
      (Int.le_trans (Int.ofNat_le.mpr valid) whole), List.isEmpty_cons,
      Bool.false_eq_true, if_false]
    exact induction again (by omega) none

theorem DocumentBreaks.loadFrom (breaks : DocumentBreaks code text)
    (whole : (text.length : Int) ≤ dataLen) (stale : Char) (rounds : Nat)
    (subs : List Ndxml) (error : Option (List Char)) :
    Xml.loadFrom stale code dataLen rounds subs text error = none := by
  induction breaks generalizing rounds subs error with
  | endTag skips mark => exact skips.loadFrom mark whole stale rounds subs error
  | @element text breaks =>
    obtain ⟨start, found⟩ := (DocumentBreaks.element breaks).firstValid
    have same : Str.firstValid start = Str.firstValid text :=
      (firstValid_found found).trans found.symm
    have valid := firstValid_le found
    cases rounds with
    | zero => rfl
    | succ rounds =>
      rw [Xml.loadFrom, found]
      simp only [(breaking code stale (4 * start.length + 4)).element
        (breaks.congr same) dataLen error (by omega) (by omega)]
  | @later lax text rest element breaks induction =>
    obtain ⟨start, found⟩ := element.firstValid
    have same : Str.firstValid start = Str.firstValid text :=
      (firstValid_found found).trans found.symm
    have valid := firstValid_le found
    have shorter := element.lt
    cases rounds with
    | zero => rfl
    | succ rounds =>
      obtain ⟨tree, after, read⟩ :=
        (finding code stale (4 * start.length + 4)).element
          (element.congr same) dataLen error (by omega) (by omega)
      have some_ : rest.isEmpty = false := by
        cases rest with
        | nil =>
          obtain ⟨paddr, found⟩ := breaks.firstValid
          cases found
        | cons c rest => rfl
      rw [Xml.loadFrom, found]
      simp only [read, some_, Bool.false_eq_true, if_false]
      exact induction (by omega) rounds (subs ++ [tree]) after

theorem loadFrom_ends (unbroken : ¬ DocumentBreaks code text) {rounds : Nat}
    (enough : text.length < rounds) (stale : Char) (subs : List Ndxml)
    (error : Option (List Char)) :
    (loadFrom stale code dataLen rounds subs text error).isSome := by
  induction rounds generalizing text subs error with
  | zero => omega
  | succ rounds induction =>
    rw [loadFrom]
    cases found : firstValid text with
    | none => rfl
    | some start =>
      have same : firstValid text = firstValid start :=
        found.trans (firstValid_found found).symm
      have outcome := (reading code stale (4 * start.length + 4)).xmlbuf
        start dataLen error (by omega)
      dsimp only
      cases parsed : parseXmlbuf (some stale) code (4 * start.length + 4)
          start dataLen error with
      | none =>
        rw [parsed] at outcome
        exact absurd (.element (ElementBreaks.congr same outcome)) unbroken
      | some result =>
        rw [parsed] at outcome
        cases result with
        | node tree next error =>
          obtain ⟨lax, element⟩ := outcome
          have here := element.congr same
          have shorter := here.lt
          dsimp only
          split_ifs with ended
          · rfl
          · refine induction ?_ (by omega) _ _
            intro breaks
            exact unbroken (.later here breaks)
        | null parseEnd error =>
          cases parseEnd with
          | unset =>
            cases error with
            | none => cases outcome.1
            | some error => rfl
          | null => cases error <;> rfl
          | here paddr =>
            obtain ⟨rfl, skips, mark⟩ := outcome
            exact absurd (.endTag (skips.congr same) mark) unbroken

/-- The parser and the loader come to an end on this text and stay in it and in
their buffers, whatever size they are given. -/
def LoadsSafely (code : CodeType) (text : List Char) : Prop :=
  ∀ stale dataLen,
    (∀ error, ∃ fuel,
      (parseXmlbuf (some stale) code fuel text dataLen error).isSome) ∧
    ∀ subs, ∃ rounds,
      (xmlLoadFromBuf stale code rounds text dataLen subs).isSome

/-- Loading is total for the texts in which nothing breaks. -/
theorem loadsSafely_iff (code : CodeType) (text : List Char) :
    LoadsSafely code text ↔ ¬ DocumentBreaks code text := by
  constructor
  · intro safely breaks
    obtain ⟨rounds, ends⟩ := (safely ' ' text.length).2 []
    unfold xmlLoadFromBuf at ends
    rw [breaks.loadFrom (Int.le_refl _)] at ends
    cases ends
  · intro unbroken stale dataLen
    constructor
    · intro error
      refine ⟨4 * text.length + 3, ?_⟩
      have outcome := (reading code stale (4 * text.length + 3)).xmlbuf text
        dataLen error (Nat.le_refl _)
      cases parsed : parseXmlbuf (some stale) code (4 * text.length + 3) text
          dataLen error with
      | some result => rfl
      | none =>
        rw [parsed] at outcome
        exact absurd (.element outcome) unbroken
    · intro subs
      exact ⟨text.length + 1,
        loadFrom_ends unbroken (Nat.lt_succ_self _) stale subs none⟩

/-- The loop over the attributes follows a null pointer at the end of the
text. -/
theorem unclosed_not_loadsSafely : ¬ LoadsSafely .ansi "<a ".toList := by
  intro safely
  obtain ⟨rounds, ends⟩ := (safely ' ' 3).2 []
  cases rounds with
  | zero => cases ends
  | succ rounds =>
    have broken : xmlLoadFromBuf ' ' .ansi (rounds + 1) "<a ".toList 3 [] =
        none := rfl
    cases ends
end NdNet.Xml
