import NdNet.App.HttpForms

/-!
# The parts of a multipart body

A part ends where the next delimiter begins, and the line end in front of that
delimiter does not belong to it.  `_parseMultipart` steps back over the line end
and then goes on by the length of a delimiter, so that it ends up behind most of
the delimiter that introduces the next part, and finds only the one behind it:
every other part is left out.  The form entry of a file is not put under the
name of the field but under that of the file, which replaces it in the buffer.
And the end of a part, or of the body, is looked for behind a block that they
fill up.
-/

namespace NdNet.Http

open NdNet.Str List

/-- A part of a multipart body, with its header fields. -/
structure Part where
  fields : List HttpHeaderNode
  name : List Char
  file : Option (List Char)
  content : List Char

def delimiter (boundary : List Char) : List Char :=
  "--".toList ++ boundary

def EndsLike (word text : List Char) : Prop :=
  beginsLike word (text.drop (text.length - word.length)) = true

instance (word text : List Char) : Decidable (EndsLike word text) :=
  inferInstanceAs (Decidable (_ = true))

namespace Part

def disposition (part : Part) : List Char :=
  "form-data; name=".toList ++ '"' :: (part.name ++ '"' ::
    match part.file with
    | none => []
    | some file => "; filename=".toList ++ '"' :: (file ++ ['"']))

def text (part : Part) : List Char :=
  headerText part.fields ++ part.content

/-- A part with header fields that can be read, the disposition among them, and
without the delimiter. -/
structure Legal (boundary : List Char) (part : Part) : Prop where
  disposed : getHeader "Content-Disposition".toList part.fields =
    some part.disposition
  fields : ∀ field ∈ part.fields, field.Legal ∧ Visible field.value
  name : '"' ∉ part.name
  file : ∀ file ∈ part.file, '"' ∉ file
  content : '\x00' ∉ part.content
  clear : ¬ delimiter boundary <:+: part.text

/-- The form entry of the part is put under the name of the field: no file
name is found, or one that says the same. -/
def KeepsName (part : Part) : Prop :=
  match part.file with
  | none => ¬ EndsLike "filename=".toList part.name
  | some file => ¬ EndsLike "filename=".toList part.name ∧ file = part.name ∨
      part.name = "; filename=".toList

end Part

/-- What stands behind a delimiter: the closing dashes, or a part and the rest
behind the delimiter that ends it. -/
def partsText (boundary trailer : List Char) : List Part → List Char
  | [] => "--".toList ++ trailer
  | part :: parts =>
    '\r' :: '\n' :: (part.text ++ '\r' :: '\n' ::
      (delimiter boundary ++ partsText boundary trailer parts))

def multipartText (boundary trailer : List Char) (parts : List Part) :
    List Char :=
  delimiter boundary ++ partsText boundary trailer parts

def storedData (name : List Char)
    (upfiles : List (List Char × FileCacheInfo)) : Option (List Char) :=
  (upfiles.find? fun file => file.1 == name).map fun file => file.2.data

/-- There is one more form entry for each part, in order and under its name,
and each file is stored with its content. -/
structure PartsTaken (s t : HttpRequest) (parts : List Part) : Prop where
  entries : ∃ nodes, t.derived.requestForms = s.derived.requestForms ++ nodes ∧
    nodes.map HttpHeaderNode.name = parts.map Part.name
  stored : ∀ part ∈ parts, part.file.isSome = true →
    storedData part.name t.derived.upfiles = some part.content

section Scanners

variable {word front rest sought p q : List Char}

theorem toNat_ofNat_ascii {n : Nat} (ascii : n < 128) :
    (Char.ofNat n).toNat = n := by
  rw [Char.ofNat, dif_pos (.inl (by omega))]
  rfl

theorem swapped_ne_quote (c : Char) : swapped c ≠ some '"' := by
  have quote : '"'.toNat = 34 := rfl
  rw [swapped]
  by_cases big : bigLatin c = true
  · rw [if_pos big]
    rw [bigLatin, Bool.and_eq_true, decide_eq_true_iff, decide_eq_true_iff]
      at big
    have low : 65 ≤ c.toNat := big.1
    have high : c.toNat ≤ 90 := big.2
    intro same
    have value := congrArg Char.toNat (Option.some.inj same)
    rw [toNat_ofNat_ascii (by omega)] at value
    omega
  · rw [if_neg big]
    by_cases little : littleLatin c = true
    · rw [if_pos little]
      rw [littleLatin, Bool.and_eq_true, decide_eq_true_iff,
        decide_eq_true_iff] at little
      have low : 97 ≤ c.toNat := little.1
      have high : c.toNat ≤ 122 := little.2
      intro same
      have value := congrArg Char.toNat (Option.some.inj same)
      rw [toNat_ofNat_ascii (by omega)] at value
      omega
    · rw [if_neg little]
      exact (Option.some_ne_none _).symm

theorem beginsLike_quoted (plain : '"' ∉ word) (inside : '"' ∉ front)
    (rest : List Char) :
    beginsLike (word ++ ['"']) (front ++ '"' :: rest) = true ↔
      front.length = word.length ∧ beginsLike word front = true := by
  induction word generalizing front with
  | nil =>
    cases front with
    | nil => simp [beginsLike]
    | cons c front =>
      rw [mem_cons, not_or] at inside
      have other : (c == '"') = false := beq_false_of_ne (Ne.symm inside.1)
      simp [beginsLike, other, swapped_ne_quote]
  | cons aid word induction =>
    rw [mem_cons, not_or] at plain
    cases front with
    | nil =>
      have other : ('"' == aid) = false := beq_false_of_ne plain.1
      have none : swapped '"' = none := by decide
      simp [beginsLike, other, none]
    | cons c front =>
      rw [mem_cons, not_or] at inside
      rw [cons_append, cons_append, beginsLike, Bool.and_eq_true,
        induction plain.2 inside.2, beginsLike, Bool.and_eq_true,
        length_cons, length_cons, Nat.add_right_cancel_iff]
      constructor
      · rintro ⟨same, long, begins⟩
        exact ⟨long, same, begins⟩
      · rintro ⟨long, same, begins⟩
        exact ⟨same, long, begins⟩

theorem endsLike_cons (c : Char) (front : List Char) :
    EndsLike word (c :: front) ↔
      (c :: front).length = word.length ∧
        beginsLike word (c :: front) = true ∨ EndsLike word front := by
  rw [EndsLike, EndsLike, length_cons]
  rcases Nat.lt_trichotomy (front.length + 1) word.length with
    short | same | long
  · rw [Nat.sub_eq_zero_of_le (Nat.le_of_lt short),
      Nat.sub_eq_zero_of_le (by omega)]
    constructor
    · intro begins
      have := beginsLike_length begins
      rw [drop_zero, length_cons] at this
      omega
    · rintro (⟨same, -⟩ | begins)
      · omega
      · have := beginsLike_length begins
        rw [drop_zero] at this
        omega
  · rw [← same, Nat.sub_self, Nat.sub_eq_zero_of_le (Nat.le_succ _)]
    constructor
    · exact fun begins => .inl ⟨rfl, begins⟩
    · rintro (⟨-, begins⟩ | begins)
      · exact begins
      · have := beginsLike_length begins
        rw [drop_zero] at this
        omega
  · have shift : front.length + 1 - word.length =
        front.length - word.length + 1 := by omega
    rw [shift, drop_succ_cons]
    constructor
    · exact .inr
    · rintro (⟨same, -⟩ | begins)
      · omega
      · exact begins

theorem stristr_found (plain : '"' ∉ word) (inside : '"' ∉ front)
    (ends : EndsLike word front) :
    stristr (front ++ '"' :: rest) (word ++ ['"']) =
      some (front.drop (front.length - word.length) ++ '"' :: rest) := by
  induction front with
  | nil =>
    rw [EndsLike, drop_nil] at ends
    have begins := (beginsLike_quoted plain inside rest).mpr
      ⟨Nat.le_antisymm (Nat.zero_le _) (beginsLike_length ends), ends⟩
    rw [nil_append] at begins
    rw [nil_append, stristr, if_pos begins, drop_nil, nil_append]
  | cons c front induction =>
    have begins := beginsLike_quoted plain inside rest
    rw [cons_append] at begins
    rw [cons_append, stristr]
    rcases (endsLike_cons c front).mp ends with here | later
    · rw [if_pos (begins.mpr here), here.1, Nat.sub_self, drop_zero,
        cons_append]
    have long := beginsLike_length later
    rw [length_drop] at long
    rw [if_neg, induction (fun member => inside (.tail _ member)) later]
    · rw [length_cons, show front.length + 1 - word.length =
        front.length - word.length + 1 by omega, drop_succ_cons]
    · intro also
      have := (begins.mp also).1
      rw [length_cons] at this
      omega

theorem stristr_skip (plain : '"' ∉ word) (inside : '"' ∉ front)
    (ends : ¬ EndsLike word front) :
    stristr (front ++ '"' :: rest) (word ++ ['"']) =
      stristr rest (word ++ ['"']) := by
  induction front with
  | nil =>
    have begins := beginsLike_quoted plain inside rest
    rw [nil_append] at begins
    rw [EndsLike, drop_nil] at ends
    rw [nil_append, stristr, if_neg fun also => ends (begins.mp also).2]
  | cons c front induction =>
    have begins := beginsLike_quoted plain inside rest
    rw [cons_append] at begins
    rw [endsLike_cons, not_or] at ends
    rw [cons_append, stristr, if_neg fun also => ends.1 (begins.mp also)]
    exact induction (fun member => inside (.tail _ member)) ends.2

theorem prefix_of_absent {c : Char} (front : List Char) (absent : c ∉ sought)
    (begins : sought <+: front ++ c :: rest) : sought <+: front := by
  obtain ⟨more, split⟩ := begins
  rcases append_eq_append_iff.mp split with
    ⟨_, shape, -⟩ | ⟨later, shape, behind⟩
  · exact ⟨_, shape.symm⟩
  · cases later with
    | nil =>
      rw [append_nil] at shape
      exact shape ▸ prefix_rfl
    | cons d later =>
      obtain ⟨rfl, -⟩ := cons.inj behind
      exact absurd (by simp [shape]) absent

theorem clear_append {c : Char} (absent : c ∉ sought) (visible : sought ≠ [])
    (frontClear : ¬ sought <:+: front) (restClear : ¬ sought <:+: rest) :
    ¬ sought <:+: front ++ c :: rest := by
  induction front with
  | nil =>
    rw [nil_append, infix_cons_iff, not_or]
    refine ⟨fun begins => visible (prefix_nil.mp ?_), restClear⟩
    exact prefix_of_absent [] absent begins
  | cons d front induction =>
    rw [infix_cons_iff, not_or] at frontClear
    rw [cons_append, infix_cons_iff, not_or]
    refine ⟨fun begins => frontClear.1 ?_, induction frontClear.2⟩
    exact prefix_of_absent (d :: front) absent begins

theorem strstr_front (clear : ¬ sought <:+: front) (line : '\n' ∉ sought)
    (visible : sought ≠ []) (rest : List Char) :
    strstr sought (front ++ '\n' :: (sought ++ rest)) =
      some (sought ++ rest) := by
  have here : strstr sought (sought ++ rest) = some (sought ++ rest) := by
    obtain ⟨c, word, rfl⟩ := exists_cons_of_ne_nil visible
    rw [cons_append, strstr, if_pos]
    exact List.isPrefixOf_iff_prefix.mpr (prefix_append (c :: word) rest)
  induction front with
  | nil =>
    rw [nil_append, strstr, if_neg, here]
    intro begins
    exact visible (prefix_nil.mp (prefix_of_absent [] line
      (List.isPrefixOf_iff_prefix.mp begins)))
  | cons c front induction =>
    rw [infix_cons_iff, not_or] at clear
    rw [cons_append, strstr, if_neg]
    · exact induction clear.2
    · intro begins
      exact clear.1 (prefix_of_absent (c :: front) line
        (List.isPrefixOf_iff_prefix.mp begins))

theorem strstr_begins (visible : sought ≠ []) (rest : List Char) :
    strstr sought (sought ++ rest) = some (sought ++ rest) := by
  obtain ⟨c, word, rfl⟩ := exists_cons_of_ne_nil visible
  rw [cons_append, strstr, if_pos]
  exact List.isPrefixOf_iff_prefix.mpr (prefix_append (c :: word) rest)

theorem strstr_none (clear : ¬ sought <:+: p) : strstr sought p = none := by
  cases found : strstr sought p with
  | none => rfl
  | some q =>
    obtain ⟨ends, begins⟩ := strstr_split found
    exact absurd (begins.isInfix.trans ends.isInfix) clear

theorem cString_whole {text : List Char} (whole : '\x00' ∉ text) :
    cString text = text := by
  have := cString_front whole []
  rwa [append_nil, show cString [] = [] from rfl, append_nil] at this

end Scanners

section Headers

variable {left right name : List Char} {key value : List Char}
  {headers : List HttpHeaderNode}

theorem stricmp_cons_iff (a b : Char) (left right : List Char) :
    stricmp (a :: left) (b :: right) = 0 ↔
      (folded a).toNat = (folded b).toNat ∧ stricmp left right = 0 := by
  rw [stricmp]
  by_cases same : ((folded a).toNat : Int) - (folded b).toNat = 0
  · rw [if_neg (not_not_intro same)]
    constructor
    · exact fun later => ⟨by omega, later⟩
    · exact And.right
  · rw [if_pos same]
    constructor
    · exact fun zero => absurd zero same
    · rintro ⟨equal, -⟩
      omega

theorem stricmp_of_common (leftWhole : ∀ c ∈ left, (folded c).toNat ≠ 0)
    (rightWhole : ∀ c ∈ right, (folded c).toNat ≠ 0)
    (leftSame : stricmp name left = 0) (rightSame : stricmp name right = 0) :
    stricmp left right = 0 := by
  have nil_left : ∀ {word : List Char}, (∀ c ∈ word, (folded c).toNat ≠ 0) →
      stricmp [] word = 0 → word = [] := by
    intro word whole same
    cases word with
    | nil => rfl
    | cons c word =>
      have zero : -((folded c).toNat : Int) = 0 := same
      exact absurd (by omega) (whole c mem_cons_self)
  induction name generalizing left right with
  | nil =>
    rw [nil_left leftWhole leftSame, nil_left rightWhole rightSame]
    rfl
  | cons a name induction =>
    cases left with
    | nil =>
      have zero : ((folded a).toNat : Int) = 0 := leftSame
      cases right with
      | nil => rfl
      | cons c right =>
        have same := ((stricmp_cons_iff a c name right).mp rightSame).1
        exact absurd (by omega) (rightWhole c mem_cons_self)
    | cons b left =>
      obtain ⟨first, leftLater⟩ := (stricmp_cons_iff a b name left).mp leftSame
      cases right with
      | nil =>
        have zero : ((folded a).toNat : Int) = 0 := rightSame
        exact absurd (by omega) (leftWhole b mem_cons_self)
      | cons c right =>
        obtain ⟨second, rightLater⟩ :=
          (stricmp_cons_iff a c name right).mp rightSame
        exact (stricmp_cons_iff b c left right).mpr
          ⟨first.symm.trans second,
            induction (fun c member => leftWhole c (.tail _ member))
              (fun c member => rightWhole c (.tail _ member)) leftLater
              rightLater⟩

theorem getHeader_adNode (keyWhole : ∀ c ∈ key, (folded c).toNat ≠ 0)
    (nameWhole : ∀ c ∈ name, (folded c).toNat ≠ 0)
    (other : stricmp name key ≠ 0) :
    getHeader key (adNode name value headers) = getHeader key headers := by
  induction headers with
  | nil =>
    rw [adNode, getHeader, getNode, find?_cons_of_neg (by simpa)]
    rfl
  | cons node headers induction =>
    rw [adNode]
    by_cases here : stricmp node.name name = 0
    · have missed : stricmp node.name key ≠ 0 := fun same =>
        other (stricmp_of_common nameWhole keyWhole here same)
      rw [if_pos here, getHeader, getHeader, getNode, getNode,
        find?_cons_of_neg (by simpa), find?_cons_of_neg (by simpa)]
    · rw [if_neg here]
      rw [getHeader, getNode] at induction ⊢
      rw [getHeader, getNode]
      by_cases hit : stricmp node.name key = 0
      · rw [find?_cons_of_pos (by simpa), find?_cons_of_pos (by simpa)]
      · rw [find?_cons_of_neg (by simpa), find?_cons_of_neg (by simpa)]
        exact induction

end Headers

section OnePart

variable {code : CodeType} {fields : List HttpHeaderNode}
  {blank content : List Char} {s : HttpParser Unit} {b : Buffered Unit}
  {fuel : Nat}

/-- The header that `_parseBody` may put in is not looked at. -/
structure PartRead (fields : List HttpHeaderNode) (content : List Char)
    (t : HttpParser Unit) : Prop where
  header : getHeader "Content-Disposition".toList t.header =
    getHeader "Content-Disposition".toList fields
  content : t.bodyBuf = content

/-- `_parseBody` looks for a blank line in this content, and there is none. -/
def Unended (fields : List HttpHeaderNode) (content : List Char) : Prop :=
  (findBodySize fields = 0 ∨ findBodySize fields = -1) ∧
    strstr ['\r', '\n', '\r', '\n'] content = none

instance (fields : List HttpHeaderNode) (content : List Char) :
    Decidable (Unended fields content) :=
  inferInstanceAs (Decidable (_ ∧ _))

/-- How the parser of a part ends whose content is left in a full buffer or
not. -/
def PartEnds (result : Option (Buffered Unit)) (fields : List HttpHeaderNode)
    (content : List Char) (full : Prop) : Prop :=
  (full ∧ Unended fields content) ∧ result = none ∨
    ¬ (full ∧ Unended fields content) ∧ ∃ t, result = some t ∧
      PartRead fields content t.parser ∧ (t.full = true ↔ full)

theorem bodyReadsEnd_iff (header : s.header = fields)
    (body : s.bodyBuf = content) :
    bodyReadsEnd s = true ↔ Unended fields content := by
  rw [bodyReadsEnd, header, body, Unended]
  simp

theorem parser_of_setParseEnd (s : HttpParser Unit) :
    setParseEnd parserVirtual s = some { s with parseStat := 3 } := by
  rw [setParseEnd]
  by_cases ended : s.parseStat = 3
  · rw [if_neg (not_not_intro ended), ← ended]
  · rw [if_pos ended]
    rfl

theorem parseBody_part (read : PartRead fields content s) :
    ∃ ret t, parseBody parserVirtual s = some (ret, t) ∧
      PartRead fields content t ∧ (0 < ret → t.parseStat = 3) := by
  rw [parseBody]
  by_cases unsized : findBodySize s.header = 0 ∨ findBodySize s.header = -1
  · rw [if_pos unsized]
    dsimp only
    cases strstr ['\r', '\n', '\r', '\n'] (cString s.bodyBuf) with
    | none => exact ⟨0, s, rfl, read, fun more => absurd more (by decide)⟩
    | some p =>
      dsimp only
      rw [parser_of_setParseEnd]
      refine ⟨_, _, rfl, ⟨?_, read.content⟩, fun _ => rfl⟩
      rw [← read.header]
      exact getHeader_adNode (by decide) (by decide) (by decide)
  · rw [if_neg unsized]
    by_cases whole : findBodySize s.header ≤ s.bodyBuf.length
    · rw [if_pos whole, parser_of_setParseEnd]
      exact ⟨_, _, rfl, ⟨read.header, read.content⟩, fun _ => rfl⟩
    · rw [if_neg whole]
      exact ⟨0, s, rfl, read, fun more => absurd more (by decide)⟩

variable {t : HttpParser Unit}

theorem advance_same
    (same : t.bodyBuf = b.parser.bodyBuf) : b.advance t = ⟨t, b.block⟩ := by
  rw [Buffered.advance, same, Nat.sub_self]
  rfl

def partTurn (code : CodeType) : Buffered Unit → Option (Pass (Buffered Unit)) :=
  Buffered.turn code fun _ => parserVirtual

theorem partTurn_body (stat : b.parser.parseStat = 2)
    (post : b.parser.action = .post) (header : b.parser.header = fields)
    (body : b.parser.bodyBuf = content) :
    partTurn code b =
      if b.full = true ∧ Unended fields content then none
      else (turn code parserVirtual b.parser).map (Pass.map b.advance) := by
  have reads : readsEnd code b.parser = true ↔ Unended fields content := by
    rw [readsEnd, if_neg (by omega), if_pos stat, post]
    exact bodyReadsEnd_iff header body
  rw [partTurn, Buffered.turn]
  simp only [Bool.and_eq_true, reads]

theorem partTurn_done (stat : b.parser.parseStat = 3) :
    partTurn code b = some (.stop b) := by
  have unread : readsEnd code b.parser = false := by
    rw [readsEnd, if_neg (by omega), if_neg (by omega)]
  have done : turn code parserVirtual b.parser = some (.stop b.parser) := by
    rw [turn, if_neg (by omega)]
  rw [partTurn, Buffered.turn, unread, Bool.and_false,
    if_neg Bool.false_ne_true, done, Option.map_some, Pass.map,
    advance_same rfl]

theorem drain_body (stat : b.parser.parseStat = 2)
    (post : b.parser.action = .post) (header : b.parser.header = fields)
    (body : b.parser.bodyBuf = content) :
    PartEnds (Pass.drain (partTurn code) (fuel + 2) b) fields content
      (b.full = true) := by
  have turned := @partTurn_body code _ _ b stat post header body
  by_cases behind : b.full = true ∧ Unended fields content
  · rw [if_pos behind] at turned
    refine .inl ⟨behind, ?_⟩
    rw [Pass.drain, turned]
  · obtain ⟨ret, t, parsed, later, ended⟩ := @parseBody_part fields content _
      ⟨congrArg (getHeader _) header, body⟩
    have stays : b.advance t = ⟨t, b.block⟩ :=
      advance_same (later.content.trans body.symm)
    rw [if_neg behind, turn, if_pos (by omega), parseData, if_neg (by omega),
      if_neg (by omega), if_pos stat, if_neg (by rw [post]; decide), parsed]
      at turned
    have full : Buffered.full ⟨t, b.block⟩ = b.full := by
      rw [Buffered.full, Buffered.full, later.content, body]
    refine .inr ⟨behind, ⟨t, b.block⟩, ?_, later, by rw [full]⟩
    rw [Pass.drain, turned]
    dsimp only [Option.map_some]
    by_cases goes : 0 < ret ∧ t.bodyBuf ≠ [] ∧ t.parseError = false
    · rw [if_pos goes, Pass.map, stays]
      dsimp only
      rw [Pass.drain, partTurn_done (ended goes.1)]
    · rw [if_neg goes, Pass.map, stays]

/-- The data end with the block, and still do when `len` bytes have been taken
off. -/
def Crowded (b : Buffered Unit) (len : Nat) : Prop :=
  b.block.Full b.parser.bodyBuf.length ∧
    b.block.startOff + len < b.block.capacity / 4

theorem advance_crowded {front rest : List Char} (large : 32 ≤ b.block.capacity)
    (bounded : b.block.startOff + b.parser.bodyBuf.length ≤ b.block.capacity)
    (split : b.parser.bodyBuf = front ++ rest) (body : t.bodyBuf = rest)
    (some_ : front ≠ []) (more : rest ≠ []) (len : Nat) :
    (b.advance t).block.capacity = b.block.capacity ∧
      (b.advance t).block.startOff + rest.length ≤ b.block.capacity ∧
      ((b.advance t).block.Full rest.length ↔ Crowded b front.length) ∧
      (Crowded (b.advance t) len ↔ Crowded b (front.length + len)) := by
  have length : b.parser.bodyBuf.length = front.length + rest.length := by
    rw [split, length_append]
  have first := length_pos_of_ne_nil some_
  have last := length_pos_of_ne_nil more
  have taken : b.parser.bodyBuf.length - rest.length = front.length := by
    omega
  have left : b.parser.bodyBuf.length - front.length = rest.length := by
    omega
  have block : (b.advance t).block =
      b.block.subData b.parser.bodyBuf.length front.length := by
    rw [Buffered.advance, body, taken]
    exact if_neg (by omega)
  have parser : (b.advance t).parser = t := rfl
  have within := LineBlock.subData_end b.block b.parser.bodyBuf.length
    front.length
  have full := LineBlock.full_subData_iff large bounded first
    (show front.length < b.parser.bodyBuf.length by omega)
  rw [left] at within full
  rw [Crowded, Crowded, parser, block, body, LineBlock.subData_capacity]
  refine ⟨rfl, by omega, full, ?_⟩
  rw [full]
  constructor
  · rintro ⟨⟨behind, near⟩, short⟩
    rw [LineBlock.subData_startOff (by omega) near] at short
    exact ⟨behind, by omega⟩
  · rintro ⟨behind, short⟩
    have near : b.block.startOff + front.length < b.block.capacity / 4 := by
      omega
    exact ⟨⟨behind, near⟩, by omega⟩

theorem partEnds_nothing {front : List Char} (large : 32 ≤ b.block.capacity)
    (split : b.parser.bodyBuf = front ++ content) (some_ : front ≠ [])
    (nothing : content = []) (header : t.header = fields)
    (body : t.bodyBuf = content) :
    PartEnds (some (b.advance t)) fields content (Crowded b front.length) := by
  subst nothing
  rw [append_nil] at split
  have calm : ¬ Crowded b front.length := by
    rw [Crowded, LineBlock.Full, split]
    omega
  refine .inr ⟨fun both => calm both.1, _, rfl,
    ⟨congrArg (getHeader _) header, body⟩, ?_⟩
  refine iff_of_false ?_ calm
  have whole : '\x00' ∉ (b.advance t).parser.bodyBuf := by
    rw [show (b.advance t).parser.bodyBuf = [] from body]
    exact not_mem_nil
  rw [Bool.not_eq_true, Buffered.full_eq_false_iff whole,
    show (b.advance t).parser.bodyBuf = [] from body, LineBlock.Full,
    Buffered.advance, body, split]
  rw [length_nil, Nat.sub_zero,
    if_neg (Nat.ne_of_gt (length_pos_of_ne_nil some_)),
    LineBlock.subData_capacity, LineBlock.subData, if_pos (Nat.le_refl _)]
  dsimp only
  omega

theorem drain_content {front : List Char} (large : 32 ≤ b.block.capacity)
    (bounded : b.block.startOff + b.parser.bodyBuf.length ≤ b.block.capacity)
    (split : b.parser.bodyBuf = front ++ content) (body : t.bodyBuf = content)
    (header : t.header = fields) (stat : t.parseStat = 2)
    (post : t.action = .post) (some_ : front ≠ []) (more : content ≠ [])
    (whole : '\x00' ∉ content) :
    PartEnds (Pass.drain (partTurn code) (fuel + 2) (b.advance t)) fields
      content (Crowded b front.length) := by
  obtain ⟨-, -, full, -⟩ := advance_crowded large bounded split body some_ more 0
  have clear : '\x00' ∉ (b.advance t).parser.bodyBuf := by
    rw [show (b.advance t).parser.bodyBuf = content from body]
    exact whole
  have room := Buffered.full_eq_false_iff clear
  rw [show (b.advance t).parser.bodyBuf = content from body, full,
    ← Bool.not_eq_true, not_iff_not] at room
  rw [← room]
  exact drain_body (b := b.advance t) stat post header body

theorem drain_fields
    (legal : ∀ field ∈ fields, field.Legal ∧ Visible field.value)
    (some_ : fields ≠ []) (spaces : ∀ c ∈ blank, c ≤ ' ' ∧ c ≠ '\x00')
    (stat : b.parser.parseStat = 1) (post : b.parser.action = .post)
    (fine : b.parser.parseError = false) (whole : '\x00' ∉ content)
    (buffered : b.parser.bodyBuf = blank ++ (headerText fields ++ content))
    (large : 32 ≤ b.block.capacity)
    (bounded : b.block.startOff + b.parser.bodyBuf.length ≤ b.block.capacity) :
    PartEnds (Pass.drain (partTurn code) (fields.length + fuel + 2) b)
      (b.parser.header ++ fields) content
      (Crowded b (blank ++ headerText fields).length) := by
  induction fields generalizing b blank with
  | nil => exact absurd rfl some_
  | cons field fields induction =>
    obtain ⟨⟨fieldLegal, visible⟩, others⟩ := forall_mem_cons.mp legal
    have unread : readsEnd code b.parser = false := by
      rw [readsEnd, if_pos stat, buffered]
      refine headerReadsEnd_headerText code spaces fieldLegal visible ?_
      intro next member
      exact (others next (mem_of_mem_head? member)).1
    have turned : ∀ ret t, parseHeader code parserVirtual b.parser =
          some (ret, t) →
        partTurn code b =
          some (if 0 < ret ∧ t.bodyBuf ≠ [] ∧ t.parseError = false then
            .again (b.advance t) else .stop (b.advance t)) := by
      intro ret t parsed
      rw [partTurn, Buffered.turn, unread, Bool.and_false,
        if_neg Bool.false_ne_true, turn, if_pos (by omega), parseData,
        if_neg (by omega), if_pos stat, parsed, Option.map_some,
        Option.map_some]
      dsimp only
      split <;> rfl
    have positive : ∀ more : List Char,
        (0 : Int) < ((blank ++ fieldText field ++ more).length : Nat) := by
      intro more
      rw [fieldText]
      simp
      omega
    have step : (field :: fields).length + fuel + 2 =
        (fields.length + fuel + 2) + 1 := by
      rw [length_cons]
      omega
    rw [step, Pass.drain]
    cases fields with
    | nil =>
      have ended : headerEnd parserVirtual
          { b.parser with header := b.parser.header ++ [field] } =
          some { b.parser with
            header := b.parser.header ++ [field]
            parseStat := 2
            parseProgress :=
              if findBodySize (b.parser.header ++ [field]) = 0 then 3
              else b.parser.parseProgress } := by
        rw [headerEnd, if_neg (by rw [post]; decide)]
      have parsed := parseHeader_last code parserVirtual spaces fieldLegal
        visible buffered ended rfl
      rw [turned _ _ parsed]
      have split : b.parser.bodyBuf =
          (blank ++ headerText [field]) ++ content := by
        rw [buffered, append_assoc]
      by_cases more : content = []
      · rw [if_neg fun goes => goes.2.1 more]
        exact partEnds_nothing large split (by rw [headerText]; simp) more
          rfl rfl
      · rw [if_pos ⟨positive _, more, fine⟩]
        exact drain_content large bounded split rfl rfl rfl post
          (by rw [headerText]; simp) more whole
    | cons next more =>
      have parsed := parseHeader_next code parserVirtual spaces fieldLegal
        visible (others next mem_cons_self).1 buffered
      have shown : headerText (next :: more) ++ content ≠ [] := by
        rw [headerText]
        simp
      have goes := positive []
      rw [append_nil] at goes
      rw [turned _ _ parsed, if_pos ⟨goes, shown, fine⟩]
      have split : b.parser.bodyBuf = (blank ++ fieldText field) ++
          (headerText (next :: more) ++ content) := by
        rw [buffered, headerText_cons]
        simp only [append_assoc]
      obtain ⟨capacity, within, -, crowded⟩ := advance_crowded
        (t := { b.parser with
          header := b.parser.header ++ [field]
          bodyBuf := headerText (next :: more) ++ content })
        large bounded split rfl
        (by rw [fieldText]; simp) shown (headerText (next :: more)).length
      have rest := induction (b := b.advance { b.parser with
          header := b.parser.header ++ [field]
          bodyBuf := headerText (next :: more) ++ content }) others
        (cons_ne_nil _ _) (forall_mem_nil _) stat post fine rfl
        (by rwa [capacity]) (by rwa [capacity])
      rw [nil_append, crowded, ← length_append,
        append_assoc, ← headerText_cons] at rest
      have along : b.parser.header ++ field :: next :: more =
          b.parser.header ++ [field] ++ next :: more := append_cons _ _ _
      rw [along]
      exact rest

theorem length_le_headerText (fields : List HttpHeaderNode) :
    fields.length ≤ (headerText fields).length := by
  induction fields with
  | nil => exact Nat.zero_le _
  | cons field fields induction =>
    rw [headerText_cons, length_append, length_cons, fieldText]
    simp
    omega

/-- The bytes of a part fill the block of its parser, and are not moved in it
behind its headers. -/
def Part.Tight (part : Part) : Prop :=
  part.text.length + 2 = 4096 ∧ (headerText part.fields).length + 2 < 1024

instance (part : Part) : Decidable part.Tight :=
  inferInstanceAs (Decidable (_ ∧ _))

theorem inData_part (code : CodeType) {boundary : List Char} {part : Part}
    (legal : part.Legal boundary) :
    PartEnds (Buffered.inData code (fun _ => parserVirtual) (.init tmpParser)
      ('\r' :: '\n' :: part.text)) part.fields part.content part.Tight := by
  have some_ : part.fields ≠ [] := by
    intro none
    have disposed := legal.disposed
    rw [none] at disposed
    cases disposed
  obtain ⟨block, written, start, within, grown, full⟩ :=
    @LineBlock.write_empty Char ⟨4096, 0⟩ (by decide) rfl '\x00'
      ('\r' :: '\n' :: part.text)
  have size : ('\r' :: '\n' :: part.text).length = part.text.length + 2 := rfl
  have parts : part.text.length =
      (headerText part.fields).length + part.content.length := by
    rw [Part.text, length_append]
  have enough : ('\r' :: '\n' :: part.text).length =
      part.fields.length + (('\r' :: '\n' :: part.text).length -
        part.fields.length) := by
    have := length_le_headerText part.fields
    omega
  have drained := @drain_fields code part.fields ['\r', '\n'] part.content
    ⟨{ tmpParser with bodyBuf := '\r' :: '\n' :: part.text }, block⟩
    (('\r' :: '\n' :: part.text).length - part.fields.length) legal.fields some_ (by decide) rfl rfl rfl legal.content rfl
    (Nat.le_trans (by decide) grown) (by
      dsimp only
      omega)
  rw [← enough] at drained
  have tight : Crowded
      ⟨{ tmpParser with bodyBuf := '\r' :: '\n' :: part.text }, block⟩
      (['\r', '\n'] ++ headerText part.fields).length ↔ part.Tight := by
    have headers : (['\r', '\n'] ++ headerText part.fields).length =
        (headerText part.fields).length + 2 := rfl
    have same : block.Full ('\r' :: '\n' :: part.text).length →
        block.capacity = 4096 := by
      intro filled
      have length := full.mp filled
      rw [LineBlock.Full, start] at filled
      dsimp only at length grown
      omega
    rw [Crowded, Part.Tight, headers, start, Nat.zero_add]
    constructor
    · rintro ⟨filled, near⟩
      rw [same filled] at near
      exact ⟨full.mp filled, near⟩
    · rintro ⟨length, near⟩
      have filled := full.mpr length
      rw [same filled]
      exact ⟨filled, near⟩
  rw [tight] at drained
  rw [Buffered.inData, show (Buffered.init tmpParser).block.write '\x00'
    (Buffered.init tmpParser).parser.bodyBuf ('\r' :: '\n' :: part.text) =
      some (block, '\r' :: '\n' :: part.text) from written, Option.bind_some]
  exact drained

end OnePart

section Names

variable {code : CodeType} {boundary : List Char} {part : Part}
  {s : HttpRequest}

def Part.behindName (part : Part) : List Char :=
  match part.file with
  | none => []
  | some file => "; filename=".toList ++ '"' :: (file ++ ['"'])

theorem Part.disposition_eq (part : Part) :
    part.disposition =
      "form-data; name=".toList ++ '"' :: (part.name ++ '"' :: part.behindName) :=
  rfl

theorem stristr_name (part : Part) :
    stristr part.disposition ("name=".toList ++ ['"']) =
      some ("name=".toList ++ '"' :: (part.name ++ '"' :: part.behindName)) :=
  stristr_found (by decide : '"' ∉ "name=".toList) (by decide) (by
    decide)

/-- The text in which a file name is looked for, and what is found there: at
the name of the field if it ends like the key, else at the key. -/
theorem stristr_filename (legal : part.Legal boundary) :
    (stristr part.disposition ("filename=".toList ++ ['"'])).map
        (List.drop 10) =
      if EndsLike "filename=".toList part.name then some part.behindName
      else part.file.map fun file => file ++ ['"'] := by
  have front : stristr part.disposition ("filename=".toList ++ ['"']) =
      stristr (part.name ++ '"' :: part.behindName)
        ("filename=".toList ++ ['"']) :=
    stristr_skip (by decide) (by decide) (by
      decide)
  rw [front]
  by_cases ends : EndsLike "filename=".toList part.name
  · have long := beginsLike_length ends
    rw [length_drop] at long
    rw [if_pos ends, stristr_found (by decide) legal.name ends, Option.map_some,
      show (10 : Nat) = (part.name.drop (part.name.length -
        "filename=".toList.length)).length + 1 by
          rw [length_drop]
          have : "filename=".toList.length = 9 := rfl
          omega, drop_length_add_append, drop_succ_cons,
      drop_zero]
  · rw [if_neg ends, stristr_skip (by decide) legal.name ends]
    rw [Part.behindName]
    cases part.file with
    | none => rfl
    | some file =>
      rfl

/-- The file name that is found, which takes the place of the name. -/
def Part.fileNamed (part : Part) : Option (List Char) :=
  if EndsLike "filename=".toList part.name then
    some (match part.file with
      | none => []
      | some _ => "; filename=".toList)
  else part.file

/-- The end of the content is looked for: it is the value of the field, or its
length is not given and it holds no blank line. -/
def Part.Open (part : Part) : Prop :=
  part.fileNamed = none ∨ Unended part.fields part.content

instance (part : Part) : Decidable part.Open :=
  inferInstanceAs (Decidable (_ ∨ _))

def Part.entry (part : Part) : HttpHeaderNode :=
  match part.fileNamed with
  | none => ⟨part.name, part.content⟩
  | some buf => ⟨buf, buf⟩

def Part.filed (part : Part) (upfiles : List (List Char × FileCacheInfo)) :
    List (List Char × FileCacheInfo) :=
  match part.fileNamed with
  | none => upfiles
  | some buf => insertFile part.name ⟨buf, part.content⟩ upfiles

theorem Part.Legal.fits (legal : part.Legal boundary) :
    part.disposition.length < 1024 := by
  have disposed := legal.disposed
  obtain ⟨field, found, same⟩ := Option.map_eq_some_iff.mp disposed
  rw [← same]
  exact (legal.fields field (mem_of_find?_eq_some found)).1.valueFits

theorem copyTo_fileName (legal : part.Legal boundary) {p : List Char}
    (found : (if EndsLike "filename=".toList part.name then
        some part.behindName
      else part.file.map fun file => file ++ ['"']) = some p) :
    ∃ buf rest, part.fileNamed = some buf ∧
      copyTo 1024 '"' 1024 p = some (buf, rest) := by
  have fits := legal.fits
  rw [part.disposition_eq] at fits
  rw [Part.behindName] at fits found
  rw [Part.fileNamed]
  have quoted := legal.file
  cases file : part.file with
  | none =>
    rw [file] at found
    by_cases ends : EndsLike "filename=".toList part.name
    · rw [if_pos ends] at found ⊢
      cases found
      exact ⟨[], [], rfl, rfl⟩
    · rw [if_neg ends] at found
      cases found
  | some name =>
    rw [file] at found fits quoted
    have short : name.length < 1024 := by
      simp only [length_append, length_cons] at fits
      omega
    by_cases ends : EndsLike "filename=".toList part.name
    · rw [if_pos ends] at found ⊢
      cases found
      exact ⟨_, '"' :: (name ++ ['"']), rfl,
        copyTo_word (by decide) (by decide) (by simp)⟩
    · rw [if_neg ends] at found ⊢
      cases found
      exact ⟨name, ['"'], rfl,
        copyTo_word (quoted name rfl) short (by simp)⟩

theorem fileNamed_none (missed : (if EndsLike "filename=".toList part.name then
        some part.behindName
      else part.file.map fun file => file ++ ['"']) = none) :
    part.fileNamed = none := by
  rw [Part.fileNamed]
  by_cases ends : EndsLike "filename=".toList part.name
  · rw [if_pos ends] at missed
    cases missed
  · rw [if_neg ends] at missed ⊢
    exact Option.map_eq_none_iff.mp missed

theorem parseOnePart_part (code : CodeType) (legal : part.Legal boundary)
    (s : HttpRequest) :
    parseOnePart code ('\r' :: '\n' :: part.text) s =
      if part.Tight ∧ part.Open then none
      else some { s with derived := { s.derived with
        upfiles := part.filed s.derived.upfiles
        requestForms := s.derived.requestForms ++ [part.entry] } } := by
  rw [parseOnePart]
  rcases inData_part code legal with
    ⟨⟨tight, unended⟩, failed⟩ | ⟨ended, tmp, result, ⟨header, content⟩, full⟩
  · rw [failed, if_pos ⟨tight, .inr unended⟩]
    rfl
  have fits := legal.fits
  rw [part.disposition_eq] at fits
  have short : part.name.length < 1024 := by
    simp only [length_append, length_cons] at fits
    omega
  have named : copyTo 1024 '"' 1024 (part.name ++ '"' :: part.behindName) =
      some (part.name, '"' :: part.behindName) :=
    copyTo_word legal.name short (by simp)
  have value := cString_whole legal.content
  have behind : ("name=".toList ++ '"' :: (part.name ++ '"' ::
      part.behindName)).drop 6 = part.name ++ '"' :: part.behindName := rfl
  have filename := stristr_filename legal
  rw [result]
  dsimp only [Option.bind_eq_bind, Option.bind_some]
  rw [header, legal.disposed]
  dsimp only
  rw [stristr_name]
  dsimp only
  rw [behind, named]
  dsimp only [Option.bind_some]
  rw [Part.entry, Part.filed]
  cases sought : stristr part.disposition ("filename=".toList ++ ['"']) with
  | none =>
    rw [sought] at filename
    have unnamed := fileNamed_none filename.symm
    by_cases tight : part.Tight
    · rw [if_pos (full.mpr tight), if_pos ⟨tight, .inl unnamed⟩]
    · rw [if_neg fun filled => tight (full.mp filled),
        if_neg fun both => tight both.1, unnamed, content, value]
      rfl
  | some p =>
    rw [sought, Option.map_some] at filename
    obtain ⟨buf, rest, same, copied⟩ := copyTo_fileName legal filename.symm
    have closed : ¬ (part.Tight ∧ part.Open) := by
      rintro ⟨tight, unnamed | unended⟩
      · rw [same] at unnamed
        cases unnamed
      · exact ended ⟨tight, unended⟩
    dsimp only
    rw [if_neg closed, same, copied, content]
    rfl

theorem name_entry_iff (part : Part) :
    part.entry.name = part.name ↔ part.KeepsName := by
  have none_ends : ¬ EndsLike "filename=".toList [] := by decide
  rw [Part.entry, Part.fileNamed, Part.KeepsName]
  by_cases ends : EndsLike "filename=".toList part.name
  · rw [if_pos ends]
    cases part.file with
    | none =>
      dsimp only
      constructor
      · intro same
        exact absurd (same ▸ ends) none_ends
      · exact fun other => absurd ends other
    | some file =>
      constructor
      · exact fun same => .inr same.symm
      · rintro (⟨other, -⟩ | same)
        · exact absurd ends other
        · exact same.symm
  · rw [if_neg ends]
    cases part.file with
    | none => exact ⟨fun _ => ends, fun _ => rfl⟩
    | some file =>
      constructor
      · exact fun same => .inl ⟨ends, same⟩
      · rintro (⟨-, same⟩ | same)
        · exact same
        · rw [same] at ends
          exact absurd (by decide) ends

end Names

section Parts

variable {code : CodeType} {full : Bool} {boundary trailer : List Char}
  {part : Part} {parts : List Part} {s t : HttpRequest} {body p : List Char}
  {bodySize : Int}
  {fuel : Nat}

/-- A boundary is a word on its line. -/
def LegalBoundary (boundary : List Char) : Prop :=
  boundary ≠ [] ∧ ∀ c ∈ boundary, c ≠ '\r' ∧ c ≠ '\n' ∧ c ≠ '\x00'

theorem LegalBoundary.delimiter (legal : LegalBoundary boundary) :
    3 ≤ (delimiter boundary).length ∧
      ∀ c ∈ Http.delimiter boundary, c ≠ '\r' ∧ c ≠ '\n' ∧ c ≠ '\x00' := by
  have some_ := length_pos_of_ne_nil legal.1
  constructor
  · rw [Http.delimiter, length_append]
    have : "--".toList.length = 2 := rfl
    omega
  · intro c member
    rcases mem_append.mp member with dash | other
    · obtain rfl : c = '-' := by simpa using dash
      decide
    · exact legal.2 c other

theorem LegalBoundary.ne_nil (legal : LegalBoundary boundary) :
    Http.delimiter boundary ≠ [] :=
  ne_nil_of_length_pos (by have := legal.delimiter.1; omega)

theorem LegalBoundary.clear (legal : LegalBoundary boundary) {front : List Char}
    (frontClear : ¬ Http.delimiter boundary <:+: front)
    (partClear : ¬ Http.delimiter boundary <:+: body) :
    ¬ Http.delimiter boundary <:+: front ++ '\r' :: '\n' :: (body ++ ['\r']) := by
  have return_ : '\r' ∉ Http.delimiter boundary :=
    fun member => (legal.delimiter.2 _ member).1 rfl
  have line : '\n' ∉ Http.delimiter boundary :=
    fun member => (legal.delimiter.2 _ member).2.1 rfl
  have nil_clear : ¬ Http.delimiter boundary <:+: [] :=
    fun inside => legal.ne_nil (infix_nil.mp inside)
  have behind := clear_append return_ legal.ne_nil partClear nil_clear
  have lineEnd := clear_append line legal.ne_nil nil_clear behind
  exact clear_append return_ legal.ne_nil frontClear lineEnd

theorem strstr_partsText (trailer : List Char) (parts : List Part)
    (legal : LegalBoundary boundary)
    (partClear : ¬ delimiter boundary <:+: part.text) {front : List Char}
    (frontClear : ¬ delimiter boundary <:+: front) :
    strstr (delimiter boundary)
        (front ++ partsText boundary trailer (part :: parts)) =
      some (delimiter boundary ++ partsText boundary trailer parts) := by
  have line : '\n' ∉ delimiter boundary :=
    fun member => (legal.delimiter.2 _ member).2.1 rfl
  have shape : front ++ partsText boundary trailer (part :: parts) =
      (front ++ '\r' :: '\n' :: (part.text ++ ['\r'])) ++ '\n' ::
        (delimiter boundary ++ partsText boundary trailer parts) := by
    rw [partsText]
    simp
  rw [shape]
  exact strstr_front (legal.clear frontClear partClear) line legal.ne_nil _

theorem parseParts_part (legal : LegalBoundary boundary)
    (clear : ¬ delimiter boundary <:+: part.text)
    (found : strstr (delimiter boundary) p = some (delimiter boundary ++
      partsText boundary trailer (part :: parts)))
    (inside : ¬ bodySize ≤ distance body p) :
    parseParts code full body (delimiter boundary) bodySize (fuel + 1) p s =
      (parseOnePart code ('\r' :: '\n' :: part.text) s).bind fun s =>
        parseParts code full body (delimiter boundary) bodySize fuel
          ((delimiter boundary).drop ((delimiter boundary).length - 2) ++
            partsText boundary trailer parts) s := by
  have long := legal.delimiter.1
  have next := strstr_partsText trailer parts legal clear
    fun inside => legal.ne_nil (infix_nil.mp inside)
  rw [nil_append] at next
  generalize rest : partsText boundary trailer parts = tail at next
  have split : partsText boundary trailer (part :: parts) =
      ('\r' :: '\n' :: part.text ++ ['\r', '\n']) ++
        (delimiter boundary ++ tail) := by
    rw [partsText, rest]
    simp
  rw [parseParts, if_neg inside, found]
  dsimp only
  rw [drop_left, next]
  dsimp only
  rw [split, distance_front, take_left]
  have ends : ['\r', '\n'].isSuffixOf (delimiter boundary ++
      ('\r' :: '\n' :: part.text ++ ['\r', '\n'])) = true :=
    isSuffixOf_iff_suffix.mpr ⟨delimiter boundary ++
      '\r' :: '\n' :: part.text, by rw [append_assoc]⟩
  have size : ('\r' :: '\n' :: part.text ++ ['\r', '\n']).length =
      ('\r' :: '\n' :: part.text).length + 2 := length_append
  have left : (('\r' :: '\n' :: part.text ++ ['\r', '\n']) ++
      (delimiter boundary ++ tail)).drop
        (('\r' :: '\n' :: part.text).length + (delimiter boundary).length) =
      (delimiter boundary).drop ((delimiter boundary).length - 2) ++ tail := by
    rw [← drop_drop, append_assoc, drop_left,
      show (delimiter boundary).length =
        ['\r', '\n'].length + ((delimiter boundary).length - 2) by
          rw [length_cons, length_cons, length_nil]
          omega, ← drop_drop, drop_left,
      drop_append_of_le_length (by omega)]
    congr 2
    simp
  rw [if_pos ends, size, if_neg (by omega), Nat.add_sub_cancel, append_assoc,
    take_left, ← append_assoc, left]

theorem parseParts_closing (closing : ¬ delimiter boundary <:+: p)
    {front : List Char} (short : front.length ≤ (delimiter boundary).length) :
    parseParts code full body (delimiter boundary) bodySize (fuel + 1)
        (front ++ p) s =
      if full = true ∧ ¬ bodySize ≤ distance body (front ++ p) then none
      else some s := by
  rw [parseParts]
  by_cases beyond : bodySize ≤ distance body (front ++ p)
  · rw [if_pos beyond, if_neg fun both => both.2 beyond]
  have ends : (if full = true then none else some s) =
      if full = true ∧ ¬ bodySize ≤ distance body (front ++ p) then none
      else some s := by
    simp only [beyond, not_false_eq_true, and_true]
  rw [if_neg beyond]
  cases found : strstr (delimiter boundary) (front ++ p) with
  | none => exact ends
  | some q =>
    obtain ⟨ends_, rest, rfl⟩ := strstr_split found
    have later : rest <:+ p := by
      have size := ends_.length_le
      rw [length_append, length_append] at size
      exact suffix_of_suffix_length_le
        ((suffix_append _ rest).trans ends_)
        (suffix_append front p) (by omega)
    have none := strstr_none fun inside =>
      closing (inside.trans later.isInfix)
    dsimp only
    rw [drop_left, none]
    exact ends

/-- However many parts there are, only every other one is taken. -/
theorem parseParts_few (boundaryLegal : LegalBoundary boundary)
    (legal : ∀ part ∈ parts, part.Legal boundary)
    (closing : ¬ delimiter boundary <:+: "--".toList ++ trailer)
    (found : strstr (delimiter boundary) p = some (delimiter boundary ++
      partsText boundary trailer parts))
    (result : parseParts code full body (delimiter boundary) bodySize fuel p s =
      some t) :
    ∃ nodes, t.derived.requestForms = s.derived.requestForms ++ nodes ∧
      nodes.length ≤ (parts.length + 1) / 2 := by
  induction fuel using Nat.strong_induction_on generalizing p s parts with
  | h fuel induction =>
    cases fuel with
    | zero => cases result
    | succ fuel =>
      by_cases beyond : bodySize ≤ distance body p
      · rw [parseParts, if_pos beyond] at result
        cases result
        exact ⟨[], (append_nil _).symm, Nat.zero_le _⟩
      · cases parts with
        | nil =>
          rw [parseParts, if_neg beyond, found] at result
          dsimp only at result
          rw [drop_left, partsText, strstr_none closing] at result
          dsimp only at result
          split at result <;> cases result
          exact ⟨[], (append_nil _).symm, Nat.zero_le _⟩
        | cons part parts =>
          obtain ⟨partLegal, others⟩ := forall_mem_cons.mp legal
          rw [parseParts_part boundaryLegal partLegal.clear found beyond,
            parseOnePart_part code partLegal] at result
          split at result
          · cases result
          rw [Option.bind_some] at result
          have long := boundaryLegal.delimiter.1
          have short : ((delimiter boundary).drop
              ((delimiter boundary).length - 2)).length <
                (delimiter boundary).length := by
            rw [length_drop]
            omega
          cases parts with
          | nil =>
            cases fuel with
            | zero => cases result
            | succ fuel =>
              rw [partsText, parseParts_closing closing
                (Nat.le_of_lt short)] at result
              split at result <;> cases result
              exact ⟨[part.entry], rfl, by simp⟩
          | cons next parts =>
            obtain ⟨nextLegal, others⟩ := forall_mem_cons.mp others
            obtain ⟨nodes, forms, few⟩ := induction fuel
              (Nat.lt_succ_self _) others
              (strstr_partsText trailer parts boundaryLegal nextLegal.clear
                fun inside => Nat.not_le.mpr short inside.length_le)
              result
            refine ⟨part.entry :: nodes, ?_, ?_⟩
            · exact forms.trans (append_cons _ _ _).symm
            · simp only [length_cons]
              omega

theorem partsText_whole (boundaryLegal : LegalBoundary boundary)
    (legal : ∀ part ∈ parts, part.Legal boundary)
    (trailerWhole : '\x00' ∉ trailer) :
    '\x00' ∉ partsText boundary trailer parts := by
  induction parts with
  | nil =>
    rw [partsText, mem_append, not_or]
    exact ⟨by decide, trailerWhole⟩
  | cons part parts induction =>
    obtain ⟨partLegal, others⟩ := forall_mem_cons.mp legal
    have fields : '\x00' ∉ headerText part.fields := by
      rw [headerText, mem_append, not_or, mem_flatMap]
      refine ⟨?_, by decide⟩
      rintro ⟨field, member, inside⟩
      obtain ⟨fieldLegal, visible⟩ := partLegal.fields field member
      exact fieldText_whole fieldLegal visible inside
    have border : '\x00' ∉ delimiter boundary :=
      fun member => (boundaryLegal.delimiter.2 _ member).2.2 rfl
    have later := induction others
    rw [partsText, Part.text]
    simp [fields, border, later, partLegal.content]

theorem storedData_insertFile (name : List Char) (cacheInfo : FileCacheInfo)
    (upfiles : List (List Char × FileCacheInfo)) :
    storedData name (insertFile name cacheInfo upfiles) =
      some ((storedData name upfiles).getD cacheInfo.data) := by
  rw [insertFile]
  by_cases present : upfiles.any (fun file => file.1 == name) = true
  · rw [if_pos present]
    have found := find?_isSome.mpr (any_eq_true.mp present)
    obtain ⟨file, same⟩ := Option.isSome_iff_exists.mp found
    rw [storedData, same]
    rfl
  · rw [if_neg present]
    have none : upfiles.find? (fun file => file.1 == name) = none := by
      rw [find?_eq_none]
      intro file member same
      exact present (any_eq_true.mpr ⟨file, member, same⟩)
    have here : [(name, cacheInfo)].find? (fun file => file.1 == name) =
        some (name, cacheInfo) :=
      find?_cons_of_pos (beq_self_eq_true name)
    rw [storedData, storedData, find?_append, none, Option.none_or, here]
    rfl

theorem storedData_filed (isFile : part.file.isSome = true)
    (upfiles : List (List Char × FileCacheInfo)) :
    storedData part.name (part.filed upfiles) =
      some ((storedData part.name upfiles).getD part.content) := by
  obtain ⟨file, given⟩ := Option.isSome_iff_exists.mp isFile
  rw [Part.filed, Part.fileNamed, given]
  by_cases ends : EndsLike "filename=".toList part.name
  · rw [if_pos ends]
    exact storedData_insertFile _ _ _
  · rw [if_neg ends]
    exact storedData_insertFile _ _ _

/-- The one part is taken, and the parser does not look behind the end: neither
that of the part, nor that of a body that ends with its block, for which the
content length must send it no further. -/
structure Part.Taken (part : Part) (boundary : List Char)
    (b : Buffered RequestFields) : Prop where
  keeps : part.KeepsName
  free : part.file.isSome = true → ∀ data,
    storedData part.name b.parser.derived.upfiles = some data →
      data = part.content
  closed : ¬ (part.Tight ∧ part.Open)
  ended : ¬ b.block.Full b.parser.bodyBuf.length ∨
    findBodySize b.parser.header ≤
      (2 * (delimiter boundary).length + 2 + part.text.length : Nat)

def plainPart (name : List Char) (file : Option (List Char))
    (content : List Char) : Part :=
  let part : Part := ⟨[], name, file, content⟩
  { part with fields := [⟨"Content-Disposition".toList, part.disposition⟩] }

def multipartRequest (boundary : List Char) (parts : List Part) : HttpRequest :=
  { HttpRequest.reset with
    parseStat := 3
    action := .post
    header := [⟨"Content-Length".toList, "512".toList⟩]
    bodyBuf := multipartText boundary [] parts }

end Parts

end NdNet.Http
