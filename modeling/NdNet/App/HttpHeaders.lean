import Mathlib.Logic.Relation
import NdNet.App.HttpArrival

/-!
# The header list of a request

Header lines are read back as they were written, one with each call of
`_parseHeader`, where every value begins with a visible character.  The scanner
skips white space in front of a value across the end of its line, so behind an
empty value it takes the next line; and the blank line that ends the headers is
looked for only behind a line, so there is no end of an empty list.
-/

namespace NdNet.Http

open NdNet.Str List

def fieldText (field : HttpHeaderNode) : List Char :=
  field.name ++ ':' :: ' ' :: field.value ++ ['\r', '\n']

def headerText (fields : List HttpHeaderNode) : List Char :=
  fields.flatMap fieldText ++ ['\r', '\n']

/-- A field name; more than the characters of a token are allowed. -/
def LegalName (name : List Char) : Prop :=
  name ≠ [] ∧ ∀ c ∈ name, ' ' < c ∧ c < '\x7f' ∧ c ≠ ':'

/-- A field value on a line of its own, without white space in front. -/
def LegalValue (value : List Char) : Prop :=
  (∀ c ∈ value, c ≠ '\r' ∧ c ≠ '\n') ∧
    ∀ c ∈ value.head?, c ∉ [' ', '\t', '\x0b', '\x0c']

/-- A field with a name and a value that fit the buffer of the parser. -/
structure HttpHeaderNode.Legal (field : HttpHeaderNode) : Prop where
  name : LegalName field.name
  value : LegalValue field.value
  nameFits : field.name.length < 1024
  valueFits : field.value.length < 1024

/-- A value the parser can give: it begins with a character that is no white
space and no control character, and it holds no NUL. -/
def Visible (value : List Char) : Prop :=
  '\x00' ∉ value ∧ ∃ c ∈ value.head?, ' ' < c

section Scanners

variable {p q : List Char} {n : Int}

theorem parserValid_blank {blank : List Char} {c : Char}
    (spaces : ∀ d ∈ blank, d ≤ ' ') (visible : ' ' < c)
    (enough : (blank.length : Int) < n) (rest : List Char) :
    parserValid (blank ++ c :: rest) n = some (c :: rest) := by
  induction blank generalizing n with
  | nil => exact if_neg (Char.not_le.mpr visible)
  | cons d blank induction =>
    obtain ⟨space, others⟩ := forall_mem_cons.mp spaces
    rw [length_cons] at enough
    push_cast at enough
    rw [cons_append, parserValid, if_pos space, if_neg (by omega)]
    exact induction others (by omega)

theorem parserCheckEnd_line {line : List Char} (inside : ∀ c ∈ line, c ≠ '\r')
    (enough : (line.length : Int) < n) (rest : List Char) :
    parserCheckEnd (line ++ '\r' :: '\n' :: rest) n = some rest := by
  induction line generalizing n with
  | nil =>
    rw [nil_append, parserCheckEnd, if_neg (by omega), if_pos ⟨rfl, rfl⟩]
    rfl
  | cons c line induction =>
    obtain ⟨other, others⟩ := forall_mem_cons.mp inside
    rw [length_cons] at enough
    push_cast at enough
    rw [cons_append, parserCheckEnd, if_neg (by omega),
      if_neg fun ends => other ends.1]
    exact induction others (by omega)

theorem cString_front {front : List Char} (whole : '\x00' ∉ front)
    (rest : List Char) : cString (front ++ rest) = front ++ cString rest := by
  apply takeWhile_append_of_pos
  intro c member
  rw [bne_iff_ne]
  rintro rfl
  exact whole member

theorem not_mem_cString (data : List Char) : '\x00' ∉ cString data := by
  intro member
  have := mem_takeWhile_imp member
  simp at this

theorem distance_front (front rest : List Char) :
    distance (front ++ rest) rest = front.length := by
  rw [distance, length_append, Nat.add_sub_cancel]

end Scanners

section Lines

variable {code : CodeType} {field : HttpHeaderNode}

theorem LegalName.scanned {name : List Char} (legal : LegalName name) {n : Int}
    (enough : (name.length : Int) ≤ n) (rest : List Char) :
    nstrEnd code (name ++ ':' :: rest) ':' n = some (name, ':' :: rest) := by
  apply scan_append
  · intro c member
    obtain ⟨-, low, other⟩ := legal.2 c member
    have small : ¬ 0x80 < c.toNat := by
      have : c.toNat < 0x7f := low
      omega
    refine ⟨beq_eq_false_iff_ne.mpr other, ?_⟩
    cases code with
    | ansi => rfl
    | gbk | utf8 => exact if_neg small
  · intro m member
    cases member
    exact enough
  · intro c member
    cases member
    rfl

theorem LegalName.no_nul {name : List Char} (legal : LegalName name) :
    '\x00' ∉ name := by
  intro member
  exact absurd (legal.2 _ member).1 (by decide)

theorem fieldText_whole (legal : field.Legal)
    (visible : Visible field.value) : '\x00' ∉ fieldText field := by
  have name := legal.name.no_nul
  have value := visible.1
  simp [fieldText, name, value]

theorem headerLine_field (code : CodeType) (legal : field.Legal)
    (visible : Visible field.value) {blank : List Char}
    (spaces : ∀ c ∈ blank, c ≤ ' ' ∧ c ≠ '\x00') (rest : List Char) :
    headerLine code (blank ++ (fieldText field ++ rest)) =
      some (some (field, cString rest)) := by
  have fieldWhole := fieldText_whole legal visible
  obtain ⟨name, value⟩ := field
  obtain ⟨nameLegal, valueLegal, nameFits, valueFits⟩ := legal
  obtain ⟨noNul, d, first, shown⟩ := visible
  dsimp only at nameLegal valueLegal nameFits valueFits noNul first
  obtain ⟨tail, rfl⟩ := head?_eq_some_iff.mp first
  obtain ⟨c, more, rfl⟩ := exists_cons_of_ne_nil nameLegal.1
  have front := (nameLegal.2 c mem_cons_self).1
  have whole : '\x00' ∉ blank ++ fieldText ⟨c :: more, d :: tail⟩ := by
    rw [mem_append, not_or]
    exact ⟨fun member => (spaces _ member).2 rfl, fieldWhole⟩
  have start : cString (blank ++ (fieldText ⟨c :: more, d :: tail⟩ ++ rest)) =
      blank ++ (c :: more ++ ':' :: ' ' ::
        (d :: tail ++ '\r' :: '\n' :: cString rest)) := by
    rw [← append_assoc, cString_front whole, append_assoc, fieldText]
    simp
  have size : ((blank ++ (fieldText ⟨c :: more, d :: tail⟩ ++ rest)).length :
      Int) = blank.length + (more.length + 1) + (tail.length + 5) +
        rest.length := by
    rw [fieldText]
    simp
    omega
  rw [headerLine, start, size]
  rw [cons_append, parserValid_blank (fun d member => (spaces d member).1)
    front (by omega)]
  dsimp only
  rw [← cons_append, distance_front, nameLegal.scanned (by
    rw [length_cons]
    omega)]
  dsimp only
  rw [if_neg (by omega), head?_cons, if_neg (not_not_intro rfl), tail_cons]
  have spaced : blank ++ (c :: more ++ ':' :: ([' '] ++
      (d :: tail ++ '\r' :: '\n' :: cString rest))) =
      (blank ++ (c :: more ++ [':'])) ++ [' '] ++
        (d :: tail ++ '\r' :: '\n' :: cString rest) := by
    simp
  have behind : ' ' :: (d :: tail ++ '\r' :: '\n' :: cString rest) =
      [' '] ++ d :: (tail ++ '\r' :: '\n' :: cString rest) := rfl
  rw [behind, parserValid_blank (by simp) shown (by
    rw [distance]
    simp
    omega)]
  dsimp only
  rw [← cons_append, spaced, distance_front, parserCheckEnd_line
    (fun c member => (valueLegal.1 c member).1) (by
      simp
      omega)]
  dsimp only
  have line : distance (d :: tail ++ '\r' :: '\n' :: cString rest)
      (cString rest) = (d :: tail).length + 2 := by
    rw [distance]
    simp
    omega
  rw [line, Nat.add_sub_cancel, if_neg (by omega), take_left]

theorem headerLine_visible {data p : List Char}
    (found : headerLine code data = some (some (field, p))) :
    Visible field.value := by
  rw [headerLine] at found
  dsimp only at found
  split at found
  · cases found
  rename_i first begins
  split at found
  · cases found
  rename_i hdrName colon named
  split at found
  · cases found
  split at found
  · cases found
  split at found
  · cases found
  rename_i st valued
  split at found
  · cases found
  rename_i last ended
  split at found
  · cases found
  cases found
  obtain ⟨⟨c, rest, rfl, shown⟩, behind⟩ := parserValid_behind valued
  obtain ⟨line, split⟩ := parserCheckEnd_split ended
  have front : c :: rest <:+ cString data :=
    (behind.trans (tail_suffix colon)).trans
      ((scan_suffix named).trans (parserValid_behind begins).2)
  have size : distance (c :: rest) p - 2 = line.length := by
    rw [split, distance]
    simp
    omega
  rw [size, split, take_left]
  constructor
  · intro member
    refine not_mem_cString data (front.subset ?_)
    rw [split]
    exact mem_append_left _ member
  · cases line with
    | nil =>
      obtain ⟨rfl, -⟩ := cons.inj split
      exact absurd shown (by decide)
    | cons d line =>
      obtain ⟨rfl, -⟩ := cons.inj split
      exact ⟨c, rfl, shown⟩

theorem headerText_cons (field : HttpHeaderNode) (fields : List HttpHeaderNode)
    :
    headerText (field :: fields) = fieldText field ++ headerText fields := by
  rw [headerText, flatMap_cons, append_assoc]
  rfl

theorem subData_front {δ : Type} {s : HttpParser δ} {front rest : List Char}
    (whole : '\x00' ∉ front) (buffered : s.bodyBuf = front ++ rest) :
    subData (cString rest) s =
      ((front.length : Int), { s with bodyBuf := rest }) := by
  rw [subData, buffered, cString_front whole, distance_front, drop_left]

section Fields

variable {δ : Type} {s u : HttpParser δ} {blank body : List Char}
  {next : HttpHeaderNode} {more : List HttpHeaderNode}

theorem whole_behind_blank (spaces : ∀ c ∈ blank, c ≤ ' ' ∧ c ≠ '\x00')
    (legal : field.Legal) (visible : Visible field.value) :
    '\x00' ∉ blank ++ fieldText field := by
  rw [mem_append, not_or]
  exact ⟨fun member => (spaces _ member).2 rfl, fieldText_whole legal visible⟩

theorem parseHeader_next (code : CodeType) (virtual : Virtual δ)
    (spaces : ∀ c ∈ blank, c ≤ ' ' ∧ c ≠ '\x00') (legal : field.Legal)
    (visible : Visible field.value) (nextLegal : next.Legal)
    (buffered : s.bodyBuf =
      blank ++ (headerText (field :: next :: more) ++ body)) :
    parseHeader code virtual s =
      some (((blank ++ fieldText field).length : Int), { s with
        header := s.header ++ [field]
        bodyBuf := headerText (next :: more) ++ body }) := by
  have split : s.bodyBuf =
      (blank ++ fieldText field) ++ (headerText (next :: more) ++ body) := by
    rw [buffered, headerText_cons]
    simp
  have scanned := headerLine_field code legal visible spaces
    (headerText (next :: more) ++ body)
  rw [← append_assoc, ← split] at scanned
  obtain ⟨c, name, shape⟩ := exists_cons_of_ne_nil nextLegal.name.1
  have lead := (nextLegal.name.2 c (by rw [shape]; exact mem_cons_self)).1
  have goesOn : ¬ ['\r', '\n'].isPrefixOf
      (cString (headerText (next :: more) ++ body)) = true := by
    rw [headerText, flatMap_cons, fieldText, shape]
    have present : c ≠ '\x00' := by
      rintro rfl
      exact absurd lead (by decide)
    have differs : '\r' ≠ c := by
      rintro rfl
      exact absurd lead (by decide)
    intro blank
    simp [cString, present, differs] at blank
  have taken := subData_front (s := { s with header := s.header ++ [field] })
    (whole_behind_blank spaces legal visible) split
  rw [parseHeader, scanned]
  dsimp only
  rw [if_neg goesOn]
  exact congrArg some taken

/-- Behind a field there is the next one or the blank line, and its scan stops
in front of the end of the data. -/
theorem headerReadsEnd_headerText (code : CodeType)
    (spaces : ∀ c ∈ blank, c ≤ ' ' ∧ c ≠ '\x00') (legal : field.Legal)
    (visible : Visible field.value)
    (nextLegal : ∀ next ∈ more.head?, next.Legal) :
    headerReadsEnd code (blank ++ (headerText (field :: more) ++ body)) =
      false := by
  rw [headerText_cons, append_assoc,
    headerReadsEnd_line (headerLine_field code legal visible spaces _)]
  cases more with
  | nil =>
    have lineEnd : cString (headerText [] ++ body) =
        '\r' :: '\n' :: cString body :=
      cString_front (by decide : '\x00' ∉ ['\r', '\n']) body
    rfl
  | cons next more =>
    obtain ⟨c, name, shape⟩ :=
      exists_cons_of_ne_nil (nextLegal next rfl).name.1
    have lead := ((nextLegal next rfl).name.2 c
      (by rw [shape]; exact mem_cons_self)).1
    rw [headerText, flatMap_cons, fieldText, shape]
    have present : c ≠ '\x00' := by
      rintro rfl
      exact absurd lead (by decide)
    have differs : c ≠ '\r' := by
      rintro rfl
      exact absurd lead (by decide)
    simp [cString, present, differs]

theorem parseHeader_last (code : CodeType) (virtual : Virtual δ)
    (spaces : ∀ c ∈ blank, c ≤ ' ' ∧ c ≠ '\x00') (legal : field.Legal)
    (visible : Visible field.value)
    (buffered : s.bodyBuf = blank ++ (headerText [field] ++ body))
    (ended : headerEnd virtual { s with header := s.header ++ [field] } =
      some u)
    (same : u.bodyBuf = s.bodyBuf) :
    parseHeader code virtual s =
      some (((blank ++ fieldText field ++ ['\r', '\n']).length : Int),
        { u with bodyBuf := body }) := by
  have split : s.bodyBuf =
      (blank ++ fieldText field) ++ ('\r' :: '\n' :: body) := by
    rw [buffered, headerText_cons, headerText, flatMap_nil]
    simp
  have scanned := headerLine_field code legal visible spaces
    ('\r' :: '\n' :: body)
  rw [← append_assoc, ← split] at scanned
  have lineEnd : cString ('\r' :: '\n' :: body) =
      '\r' :: '\n' :: cString body :=
    cString_front (by decide : '\x00' ∉ ['\r', '\n']) body
  have whole : '\x00' ∉ blank ++ fieldText field ++ ['\r', '\n'] := by
    rw [mem_append, not_or]
    exact ⟨whole_behind_blank spaces legal visible, by decide⟩
  have taken : subData (cString body) u = _ := subData_front whole (by
    rw [same, split, append_assoc (blank ++ fieldText field)]
    rfl)
  rw [parseHeader, scanned]
  dsimp only
  rw [if_pos (by rfl), ended, Option.map_some]
  exact congrArg some taken

end Fields

end Lines

section Calls

variable {code : CodeType} {full : Bool} {s t : HttpRequest}
  {fields : List HttpHeaderNode} {body : List Char}

/-- A call of `_parseHeader` while the headers are not complete; in a full
buffer it must not look behind the data. -/
def HeaderCall (code : CodeType) (full : Bool) (s t : HttpRequest) : Prop :=
  s.parseStat = 1 ∧ (full = true → headerReadsEnd code s.bodyBuf = false) ∧
    ∃ ret, parseHeader code (requestVirtual code full) s = some (ret, t)

/-- The headers are complete: these fields have been added to the list, and
nothing but them has been taken off the buffer. -/
structure HeadersRead (s t : HttpRequest) (fields : List HttpHeaderNode)
    (body : List Char) : Prop where
  complete : t.parseStat = if s.action = .get then 3 else 2
  header : t.header = s.header ++ fields
  rest : t.bodyBuf = body

def CookiesReadable (code : CodeType) (s : HttpRequest)
    (header : List HttpHeaderNode) : Prop :=
  (parseCookies code header s.derived.cookies).isSome = true

theorem headerEnd_request :
    headerEnd (requestVirtual code full) s =
      if s.action = .get then
        (parseCookies code s.header s.derived.cookies).map fun cookies =>
          { s with
            parseStat := 3
            parseProgress :=
              if findBodySize s.header = 0 then 3 else s.parseProgress
            derived := { s.derived with cookies } }
      else
        some { s with
          parseStat := 2
          parseProgress :=
            if findBodySize s.header = 0 then 3 else s.parseProgress } := by
  rw [headerEnd]
  by_cases get : s.action = .get
  · rw [if_pos get, if_pos get, setParseEnd, if_pos (Nat.succ_ne_self 2).symm]
    have notPost : ¬ (s.action = .post ∧ s.bodyBuf ≠ []) := by
      rw [get]
      exact fun both => Action.noConfusion both.1
    exact congrArg (fun posted : Option HttpRequest => posted.bind _)
      (if_neg notPost)
  · rw [if_neg get, if_neg get]

/-- What the calls have done so far: the fields that have been added all have
values the parser can give, and the end is reached behind one of them only. -/
structure Added (code : CodeType) (s t : HttpRequest)
    (fields : List HttpHeaderNode) : Prop where
  header : t.header = s.header ++ fields
  visible : ∀ field ∈ fields, Visible field.value
  action : t.action = s.action
  stage : t.parseStat = 1 ∧ t.derived = s.derived ∨
    t.parseStat ≠ 1 ∧ fields ≠ [] ∧
      (s.action = .get → CookiesReadable code s t.header)

theorem Added.call (added : Added code s t fields) {u : HttpRequest}
    (call : HeaderCall code full t u) : ∃ fields, Added code s u fields := by
  obtain ⟨stat, -, ret, result⟩ := call
  rw [parseHeader] at result
  cases scanned : headerLine code t.bodyBuf with
  | none =>
    rw [scanned] at result
    cases result
  | some found =>
    rw [scanned] at result
    cases found with
    | none =>
      cases result
      exact ⟨fields, added⟩
    | some pair =>
      obtain ⟨node, p⟩ := pair
      have header : t.header ++ [node] = s.header ++ (fields ++ [node]) := by
        rw [added.header, append_assoc]
      have visible : ∀ field ∈ fields ++ [node], Visible field.value := by
        intro field member
        rcases mem_append.mp member with old | new
        · exact added.visible field old
        · obtain rfl := mem_singleton.mp new
          exact headerLine_visible scanned
      have derived : t.derived = s.derived := by
        rcases added.stage with early | late
        · exact early.2
        · exact absurd stat late.1
      have longer : fields ++ [node] ≠ [] :=
        append_ne_nil_of_right_ne_nil _ (cons_ne_nil _ _)
      refine ⟨fields ++ [node], ?_⟩
      dsimp only at result
      by_cases blank : ['\r', '\n'].isPrefixOf p = true
      · rw [if_pos blank, headerEnd_request] at result
        by_cases get : t.action = .get
        · rw [if_pos get] at result
          obtain ⟨ended, done, same⟩ := Option.map_eq_some_iff.mp result
          obtain ⟨cookies, read, rfl⟩ := Option.map_eq_some_iff.mp done
          cases same
          refine ⟨header, visible, added.action,
            .inr ⟨(by decide : 3 ≠ 1), longer, fun _ => ?_⟩⟩
          rw [derived] at read
          exact Option.isSome_of_eq_some read
        · rw [if_neg get] at result
          cases result
          exact ⟨header, visible, added.action,
            .inr ⟨(by decide : 2 ≠ 1), longer,
              fun same => absurd (added.action.trans same) get⟩⟩
      · rw [if_neg blank] at result
        cases result
        exact ⟨header, visible, added.action, .inl ⟨stat, derived⟩⟩

theorem added_of_calls
    (calls : Relation.ReflTransGen (HeaderCall code full) s t)
    (stat : s.parseStat = 1) : ∃ fields, Added code s t fields := by
  induction calls with
  | refl =>
    exact ⟨[], (append_nil _).symm, by simp, rfl, .inl ⟨stat, rfl⟩⟩
  | tail _ call induction =>
    obtain ⟨fields, added⟩ := induction
    exact added.call call

theorem headerCall_next (code : CodeType) {field next : HttpHeaderNode}
    {more : List HttpHeaderNode} (stat : s.parseStat = 1) (legal : field.Legal)
    (visible : Visible field.value) (nextLegal : next.Legal)
    (buffered : s.bodyBuf = headerText (field :: next :: more) ++ body) :
    HeaderCall code full s { s with
      header := s.header ++ [field]
      bodyBuf := headerText (next :: more) ++ body } := by
  refine ⟨stat, fun _ => ?_, _, parseHeader_next code (requestVirtual code full)
    (forall_mem_nil _) legal visible nextLegal buffered⟩
  rw [buffered]
  refine headerReadsEnd_headerText code (forall_mem_nil _) legal visible ?_
  rintro _ ⟨⟩
  exact nextLegal

theorem headerCall_last {field : HttpHeaderNode} (stat : s.parseStat = 1)
    (legal : field.Legal) (visible : Visible field.value)
    (buffered : s.bodyBuf = headerText [field] ++ body)
    (readable : s.action = .get →
      CookiesReadable code s (s.header ++ [field])) :
    ∃ t, HeaderCall code full s t ∧ HeadersRead s t [field] body := by
  have read : ∀ u, headerEnd (requestVirtual code full)
      { s with header := s.header ++ [field] } = some u →
      u.bodyBuf = s.bodyBuf →
      HeaderCall code full s { u with bodyBuf := body } := by
    intro u ended same
    refine ⟨stat, fun _ => ?_, _, parseHeader_last code
      (requestVirtual code full) (forall_mem_nil _) legal visible buffered
      ended same⟩
    rw [buffered]
    exact headerReadsEnd_headerText code (forall_mem_nil _) legal visible
      nofun
  rw [headerEnd_request] at read
  by_cases get : s.action = .get
  · obtain ⟨cookies, found⟩ := Option.isSome_iff_exists.mp (readable get)
    rw [if_pos get] at read
    rw [found] at read
    exact ⟨_, read _ rfl rfl, (if_pos get).symm, rfl, rfl⟩
  · rw [if_neg get] at read
    exact ⟨_, read _ rfl rfl, (if_neg get).symm, rfl, rfl⟩

theorem headersRead_of_visible (visible : ∀ field ∈ fields, Visible field.value)
    (stat : s.parseStat = 1) (legal : ∀ field ∈ fields, field.Legal)
    (buffered : s.bodyBuf = headerText fields ++ body) (some_ : fields ≠ [])
    (readable : s.action = .get → CookiesReadable code s (s.header ++ fields)) :
    ∃ t, Relation.ReflTransGen (HeaderCall code full) s t ∧
      HeadersRead s t fields body := by
  induction fields generalizing s with
  | nil => exact absurd rfl some_
  | cons field fields induction =>
    obtain ⟨fieldLegal, othersLegal⟩ := forall_mem_cons.mp legal
    obtain ⟨fieldVisible, othersVisible⟩ := forall_mem_cons.mp visible
    cases fields with
    | nil =>
      obtain ⟨t, call, read⟩ := headerCall_last stat fieldLegal fieldVisible
        buffered readable
      exact ⟨t, .single call, read⟩
    | cons next more =>
      have call := @headerCall_next full s _ code _ next more stat
        fieldLegal fieldVisible (othersLegal next mem_cons_self)
        buffered
      have along : s.header ++ field :: next :: more =
          s.header ++ [field] ++ next :: more := append_cons _ _ _
      obtain ⟨t, calls, read⟩ := induction othersVisible
        (s := { s with
          header := s.header ++ [field]
          bodyBuf := headerText (next :: more) ++ body })
        stat othersLegal rfl (cons_ne_nil _ _) (by
          intro get
          have := readable get
          rw [along] at this
          exact this)
      exact ⟨t, .head call calls, read.complete,
        read.header.trans along.symm, read.rest⟩

/-- For every list of legal fields, whatever stands behind the headers and
whether there is a NUL behind that: the calls of `_parseHeader` read exactly
these fields and nothing else if and only if there is a field, every value
begins with a visible character and holds no NUL, and, for a request that ends
with its headers, its cookies can be read. -/
theorem headers_exact_iff (stat : s.parseStat = 1)
    (legal : ∀ field ∈ fields, field.Legal)
    (buffered : s.bodyBuf = headerText fields ++ body) :
    (∃ t, Relation.ReflTransGen (HeaderCall code full) s t ∧
        HeadersRead s t fields body) ↔
      fields ≠ [] ∧ (∀ field ∈ fields, Visible field.value) ∧
        (s.action = .get → CookiesReadable code s (s.header ++ fields)) := by
  constructor
  · rintro ⟨t, calls, read⟩
    obtain ⟨others, added⟩ := added_of_calls calls stat
    obtain rfl : others = fields :=
      append_cancel_left (added.header.symm.trans read.header)
    rcases added.stage with ⟨early, -⟩ | ⟨-, some_, readable⟩
    · rw [read.complete] at early
      split at early
      · cases early
      · cases early
    · rw [added.header] at readable
      exact ⟨some_, added.visible, readable⟩
  · rintro ⟨some_, visible, readable⟩
    exact headersRead_of_visible visible stat legal buffered some_ readable

def beforeHeaders (action : Action) (data : List Char) : HttpRequest :=
  { HttpRequest.reset with parseStat := 1, action, bodyBuf := data }

/-- Behind an empty value the next line is taken for it, and an empty list of
headers has no end. -/
theorem headers_not_exact :
    parseHeader .ansi (requestVirtual .ansi false)
        (beforeHeaders .post (headerText [⟨['A'], []⟩, ⟨['B'], ['x']⟩])) =
      some (13, { beforeHeaders .post [] with
        parseStat := 2
        parseProgress := 3
        header := [⟨['A'], ['B', ':', ' ', 'x']⟩] }) ∧
    parseHeader .ansi (requestVirtual .ansi false)
        (beforeHeaders .post (headerText [])) =
      some (0, beforeHeaders .post (headerText [])) := by
  decide

theorem headers_exact_host :
    ∃ t, Relation.ReflTransGen (HeaderCall .utf8 true)
        (beforeHeaders .post (headerText [⟨['H'], ['a', ':', ' ']⟩,
          ⟨['B'], ['x']⟩] ++ ['h', 'i'])) t ∧
      HeadersRead (beforeHeaders .post (headerText [⟨['H'], ['a', ':', ' ']⟩,
        ⟨['B'], ['x']⟩] ++ ['h', 'i'])) t
        [⟨['H'], ['a', ':', ' ']⟩, ⟨['B'], ['x']⟩] ['h', 'i'] := by
  refine (headers_exact_iff rfl ?_ rfl).mpr ⟨cons_ne_nil _ _, ?_,
    fun get => nomatch get⟩
  · intro field member
    simp only [mem_cons, not_mem_nil, or_false] at member
    rcases member with rfl | rfl
    · exact ⟨⟨by decide, by decide⟩, ⟨by decide, by decide⟩, by decide,
        by decide⟩
    · exact ⟨⟨by decide, by decide⟩, ⟨by decide, by decide⟩, by decide,
        by decide⟩
  · intro field member
    simp only [mem_cons, not_mem_nil, or_false] at member
    rcases member with rfl | rfl
    · exact ⟨by decide, 'a', rfl, by decide⟩
    · exact ⟨by decide, 'x', rfl, by decide⟩

end Calls

end NdNet.Http
