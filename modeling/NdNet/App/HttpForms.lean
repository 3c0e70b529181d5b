import NdNet.App.HttpHeaders

/-!
# Form values and their encoding

`textToURLcode` leaves letters, digits and four marks alone, and
`URLcodeTotext` takes back what it has written.  In a body the values are
decoded once, behind the separators.  In the path of a request everything is
decoded before it is split, and the values once more: a value comes through if
there is nothing in it that the second look takes for a separator or for a code.
-/

namespace NdNet.Http

open NdNet.Str List

section Encoding

/-- `bits4ToHex`, and `bits4ToHexLittle` -/
def bits4ToHex (isLittle : Bool) (x : Nat) : Char :=
  Char.ofNat (if 9 < x then x + (if isLittle then 87 else 55) else x + 48)

def isalnum (c : Char) : Bool :=
  numeral c || bigLatin c || littleLatin c

def textToUrlcode (isLittle : Bool) : List Char → List Char
  | [] => []
  | chr1 :: text =>
    if isalnum chr1 || chr1 == '-' || chr1 == '_' || chr1 == '.' ||
        chr1 == '~' then
      chr1 :: textToUrlcode isLittle text
    else if chr1 = ' ' then '+' :: textToUrlcode isLittle text
    else
      '%' :: bits4ToHex isLittle (chr1.toNat / 16) ::
        bits4ToHex isLittle (chr1.toNat % 16) :: textToUrlcode isLittle text

variable {c : Char} {text value : List Char}

theorem urlcodeTotext_cons (other : c ≠ '%') (rest : List Char) :
    urlcodeTotext (c :: rest) =
      (if c = '+' then ' ' else c) :: urlcodeTotext rest := by
  conv_lhs => unfold urlcodeTotext
  split
  · rename_i same
    cases same
  · rename_i same
    exact absurd (cons.inj same).1 other
  · rename_i same
    exact absurd (cons.inj same).1 other
  · rename_i same
    obtain ⟨rfl, rfl⟩ := cons.inj same
    rfl

theorem urlcodeTotext_code (hi lo : Char) (rest : List Char) :
    urlcodeTotext ('%' :: hi :: lo :: rest) =
      Char.ofNat ((fromHexChar hi * 16 ||| fromHexChar lo) % 256) ::
        urlcodeTotext rest := by
  rw [urlcodeTotext]

theorem fromHexChar_bits4ToHex (isLittle : Bool) {x : Nat} (digit : x < 16) :
    fromHexChar (bits4ToHex isLittle x) = x := by
  have all : ∀ little : Bool, ∀ x < 16,
      fromHexChar (bits4ToHex little x) = x := by decide
  exact all isLittle x digit

theorem byte_of_digits {n : Nat} (byte : n < 256) :
    (n / 16 * 16 ||| n % 16) % 256 = n := by
  have sum := Nat.two_pow_add_eq_or_of_lt (i := 4)
    (Nat.mod_lt n (by decide)) (n / 16)
  rw [Nat.mul_comm (n / 16) 16, ← sum, Nat.mod_eq_of_lt (by omega)]
  omega

attribute [local simp] textToUrlcode in
theorem urlcodeTotext_textToUrlcode (isLittle : Bool)
    (bytes : ∀ c ∈ text, c.toNat < 256) (rest : List Char) :
    urlcodeTotext (textToUrlcode isLittle text ++ rest) =
      text ++ urlcodeTotext rest := by
  induction text with
  | nil => rfl
  | cons c text induction =>
    obtain ⟨byte, others⟩ := forall_mem_cons.mp bytes
    rw [textToUrlcode]
    by_cases plain : (isalnum c || c == '-' || c == '_' || c == '.' ||
        c == '~') = true
    · have notCode : c ≠ '%' := by
        rintro rfl
        exact absurd plain (by decide)
      have notSpace : c ≠ '+' := by
        rintro rfl
        exact absurd plain (by decide)
      rw [if_pos plain, cons_append, urlcodeTotext_cons notCode,
        if_neg notSpace, induction others]
      rfl
    · rw [if_neg plain]
      by_cases space : c = ' '
      · rw [if_pos space, cons_append,
          urlcodeTotext_cons (by decide), if_pos rfl, induction others, space]
        rfl
      · rw [if_neg space, cons_append, cons_append,
          cons_append, urlcodeTotext_code,
          fromHexChar_bits4ToHex isLittle (by omega),
          fromHexChar_bits4ToHex isLittle (Nat.mod_lt _ (by decide)),
          byte_of_digits byte, induction others, Char.ofNat_toNat]
        rfl

theorem textToUrlcode_separate (isLittle : Bool)
    (bytes : ∀ c ∈ text, c.toNat < 256) :
    ∀ c ∈ textToUrlcode isLittle text,
      c ≠ '&' ∧ c ≠ ' ' ∧ c ≠ '\x00' := by
  have digits : ∀ little : Bool, ∀ x < 16, bits4ToHex little x ≠ '&' ∧
      bits4ToHex little x ≠ ' ' ∧ bits4ToHex little x ≠ '\x00' := by decide
  induction text with
  | nil =>
    intro c member
    cases member
  | cons d text induction =>
    obtain ⟨byte, others⟩ := forall_mem_cons.mp bytes
    intro c member
    rw [textToUrlcode] at member
    by_cases plain : (isalnum d || d == '-' || d == '_' || d == '.' ||
        d == '~') = true
    · rw [if_pos plain] at member
      rcases mem_cons.mp member with rfl | inside
      · refine ⟨?_, ?_, ?_⟩ <;>
        · rintro rfl
          exact absurd plain (by decide)
      · exact induction others c inside
    · rw [if_neg plain] at member
      by_cases space : d = ' '
      · rw [if_pos space] at member
        rcases mem_cons.mp member with rfl | inside
        · decide
        · exact induction others c inside
      · rw [if_neg space] at member
        rcases mem_cons.mp member with rfl | inside
        · decide
        · rcases mem_cons.mp inside with rfl | inside
          · exact digits isLittle _ (by omega)
          · rcases mem_cons.mp inside with rfl | inside
            · exact digits isLittle _ (Nat.mod_lt _ (by decide))
            · exact induction others c inside

theorem length_urlcodeTotext_le (text : List Char) :
    (urlcodeTotext text).length ≤ text.length := by
  fun_induction urlcodeTotext text with
  | case1 => exact Nat.le_refl _
  | case2 hi lo rest induction =>
    simp only [length_cons]
    omega
  | case3 rest short => exact Nat.zero_le _
  | case4 c rest other short induction =>
    simp only [length_cons]
    omega

theorem urlcodeTotext_eq_self_iff :
    urlcodeTotext value = value ↔ ∀ c ∈ value, c ≠ '+' ∧ c ≠ '%' := by
  induction value with
  | nil => exact iff_of_true rfl (by simp)
  | cons c value induction =>
    rw [forall_mem_cons, ← induction]
    by_cases code : c = '%'
    · subst code
      refine iff_of_false (fun same => ?_) fun both => both.1.2 rfl
      rcases value with _ | ⟨hi, _ | ⟨lo, rest⟩⟩
      · cases same
      · cases same
      · rw [urlcodeTotext_code] at same
        have shorter := length_urlcodeTotext_le rest
        have lengths := congrArg length same
        simp only [length_cons] at lengths
        omega
    · rw [urlcodeTotext_cons code, cons.injEq]
      by_cases plus : c = '+'
      · subst plus
        exact iff_of_false (fun both => absurd both.1 (by decide))
          fun both => both.1.1 rfl
      · rw [if_neg plus]
        exact ⟨fun both => ⟨⟨plus, code⟩, both.2⟩, fun both => ⟨rfl, both.2⟩⟩

end Encoding

/-- Form values as they are sent, given how a value is written. -/
def formText (write : List Char → List Char) : List HttpHeaderNode → List Char
  | [] => []
  | [node] => node.name ++ '=' :: write node.value
  | node :: next :: more =>
    node.name ++ '=' :: (write node.value ++
      '&' :: formText write (next :: more))

/-- A form field with a name of letters and digits and a value of bytes that is
not empty. -/
structure FormField (node : HttpHeaderNode) : Prop where
  nameSome : node.name ≠ []
  name : ∀ c ∈ node.name, isalnum c = true
  valueSome : node.value ≠ []
  value : ∀ c ∈ node.value, c ≠ '\x00' ∧ c.toNat < 256

/-- Nothing in a value is taken for a separator or for a code. -/
def PlainValue (value : List Char) : Prop :=
  ∀ c ∈ value, c ≠ '&' ∧ c ≠ '+' ∧ c ≠ '%'

variable (write : List Char → List Char) {fuel : Nat}

section Splitting

variable {node : HttpHeaderNode} {pairs : List HttpHeaderNode}
  {word rest p : List Char} {final : Char} {n : Nat}

theorem nstrAnsi_word (inside : final ∉ word) (enough : word.length ≤ n)
    (ends : ∀ c ∈ rest.head?, c = final) :
    nstrAnsi final n (word ++ rest) = (word, rest) := by
  induction word generalizing n with
  | nil =>
    cases n with
    | zero => rfl
    | succ n =>
      cases rest with
      | nil => rfl
      | cons c rest => exact if_pos (ends c rfl)
  | cons c word induction =>
    rw [mem_cons, not_or] at inside
    rw [length_cons] at enough
    obtain ⟨less, rfl⟩ : ∃ less, n = less + 1 := ⟨n - 1, by omega⟩
    rw [cons_append, nstrAnsi, if_neg (Ne.symm inside.1),
      induction inside.2 (by omega)]

theorem copyTo_word (inside : final ∉ word) (enough : word.length < n)
    (ends : ∀ c ∈ rest.head?, c = final) :
    copyTo n final n (word ++ rest) = some (word, rest) := by
  rw [copyTo, nstrAnsi_word inside (Nat.le_of_lt enough) ends]
  exact if_neg (Nat.not_le.mpr enough)

theorem isalnum_plain {c : Char} (plain : isalnum c = true) :
    c ≠ '=' ∧ c ≠ '&' ∧ c ≠ '%' ∧ c ≠ '+' ∧ c ≠ ' ' ∧ c ≠ '\x00' ∧
      ¬ c ≤ ' ' := by
  have other (sign : Char) (special : isalnum sign = false) : c ≠ sign := by
    rintro rfl
    exact absurd (plain.symm.trans special) (by decide)
  refine ⟨other '=' rfl, other '&' rfl, other '%' rfl, other '+' rfl,
    other ' ' rfl, other '\x00' rfl, fun low => ?_⟩
  simp only [isalnum, numeral, bigLatin, littleLatin, Bool.or_eq_true,
    Bool.and_eq_true, decide_eq_true_eq] at plain
  rcases plain with (⟨above, -⟩ | ⟨above, -⟩) | ⟨above, -⟩ <;>
    exact absurd (Char.le_trans above low) (by decide)

theorem FormField.not_mem (field : FormField node) :
    '=' ∉ node.name ∧ '&' ∉ node.name :=
  ⟨fun member => (isalnum_plain (field.name _ member)).1 rfl,
    fun member => (isalnum_plain (field.name _ member)).2.1 rfl⟩

def formTail (write : List Char → List Char) (node : HttpHeaderNode) :
    List HttpHeaderNode → List Char
  | [] => write node.value
  | next :: more => write node.value ++ '&' :: formText write (next :: more)

theorem formText_cons (node : HttpHeaderNode) (pairs : List HttpHeaderNode) :
    formText write (node :: pairs) =
      node.name ++ '=' :: formTail write node pairs := by
  cases pairs <;> rfl

theorem formText_ne_nil (some_ : pairs ≠ []) : formText write pairs ≠ [] := by
  obtain ⟨node, pairs, rfl⟩ := exists_cons_of_ne_nil some_
  rw [formText_cons]
  exact append_ne_nil_of_right_ne_nil _ (cons_ne_nil _ _)

theorem formTail_split (node : HttpHeaderNode) (pairs : List HttpHeaderNode) :
    ∃ more, formTail write node pairs = write node.value ++ more ∧
      (∀ c ∈ more.head?, c = '&') ∧
      skip '&' more = formText write pairs := by
  cases pairs with
  | nil => exact ⟨[], (append_nil _).symm, by simp, rfl⟩
  | cons next pairs =>
    refine ⟨_, rfl, ?_, rfl⟩
    intro c member
    cases member
    rfl

theorem length_skip_le (c : Char) (text : List Char) :
    (skip c text).length ≤ text.length := by
  cases text with
  | nil => exact Nat.le_refl _
  | cons d rest =>
    rw [skip]
    split
    · exact Nat.le_succ _
    · exact Nat.le_refl _

theorem FormField.copyTo_name (field : FormField node)
    (enough : node.name.length < n) (rest : List Char) :
    copyTo n '=' n (node.name ++ '=' :: rest) =
      some (node.name, '=' :: rest) := by
  apply copyTo_word field.not_mem.1 enough
  intro c member
  cases member
  rfl

def weight : List HttpHeaderNode → Nat
  | [] => 0
  | node :: pairs => node.name.length + node.value.length + 2 + weight pairs

attribute [local simp] formText weight in
theorem length_formText (some_ : pairs ≠ []) :
    (formText id pairs).length + 1 = weight pairs := by
  induction pairs with
  | nil => exact absurd rfl some_
  | cons node pairs induction =>
    rw [weight]
    cases pairs with
    | nil =>
      rw [formText, weight]
      simp
      omega
    | cons next pairs =>
      rw [← induction (cons_ne_nil _ _), formText]
      simp
      omega

theorem copyTo_split (found : copyTo n final n p = some (word, rest)) :
    p = word ++ rest ∧ final ∉ word ∧ ∀ c ∈ rest.head?, c = final := by
  have scans : ∀ (n : Nat) (p : List Char), (nstrAnsi final n p).1.length < n →
      p = (nstrAnsi final n p).1 ++ (nstrAnsi final n p).2 ∧
        final ∉ (nstrAnsi final n p).1 ∧
        ∀ c ∈ (nstrAnsi final n p).2.head?, c = final := by
    intro n p
    induction p generalizing n with
    | nil =>
      intro _
      cases n with
      | zero | succ n => exact ⟨rfl, by simp [nstrAnsi], by simp [nstrAnsi]⟩
    | cons c p induction =>
      intro short
      cases n with
      | zero => exact absurd short (Nat.not_lt_zero _)
      | succ n =>
        rw [nstrAnsi] at short ⊢
        by_cases ends : c = final
        · rw [if_pos ends]
          refine ⟨rfl, by simp, fun d member => ?_⟩
          cases member
          exact ends
        · rw [if_neg ends] at short ⊢
          obtain ⟨split, inside, stops⟩ := induction n
            (by simpa using short)
          refine ⟨congrArg (c :: ·) split, ?_, stops⟩
          rw [mem_cons, not_or]
          exact ⟨Ne.symm ends, inside⟩
  rw [copyTo] at found
  split at found
  · cases found
  · rename_i fits
    have all := scans n p (Nat.not_le.mp fits)
    rw [Option.some.inj found] at all
    exact all

/-- The form value that `_parsePathInfo` takes from a name and a code. -/
def formNode (buf val : List Char) : List HttpHeaderNode :=
  if buf = [] ∨ val = [] then [] else [⟨buf, urlcodeTotext val⟩]

theorem formNode_none (buf : List Char) : formNode buf [] = [] :=
  if_pos (Or.inr rfl)

theorem formNode_some {buf val : List Char} (name : buf ≠ [])
    (value : val ≠ []) : formNode buf val = [⟨buf, urlcodeTotext val⟩] :=
  if_neg (not_or_intro name value)

theorem weight_formNode (buf val : List Char) (others : List HttpHeaderNode) :
    weight (formNode buf val ++ others) ≤
      buf.length + val.length + 2 + weight others := by
  have shorter := length_urlcodeTotext_le val
  rw [formNode]
  split
  · exact Nat.le_add_left _ _
  · simp only [cons_append, nil_append, weight]
    omega

theorem pathForms_succ (fuel : Nat) (p : List Char) :
    pathForms (fuel + 1) p =
      match copyTo 4096 '=' 4096 p with
      | none => none
      | some (buf, p) =>
        if p.head? ≠ some '=' then some []
        else
          match copyTo 4096 '&' 4096 p.tail with
          | none => none
          | some (val, p) =>
            if skip '&' p = [] then some (formNode buf val)
            else
              (pathForms fuel (skip '&' p)).map (formNode buf val ++ ·) := by
  rw [pathForms]
  cases copyTo 4096 '=' 4096 p with
  | none => rfl
  | some found =>
    obtain ⟨buf, behind⟩ := found
    dsimp only
    by_cases sign : behind.head? ≠ some '='
    · rw [if_pos sign]
      exact if_pos sign
    rw [if_neg sign]
    refine Eq.trans (b := (copyTo 4096 '&' 4096 behind.tail).bind _)
      (if_neg sign) ?_
    cases copyTo 4096 '&' 4096 behind.tail with
    | none => rfl
    | some found =>
      obtain ⟨val, rest⟩ := found
      dsimp only
      by_cases last : skip '&' rest = []
      · rw [if_pos last]
        exact if_pos last
      · rw [if_neg last]
        refine Eq.trans (b := (pathForms fuel (skip '&' rest)).bind _)
          (if_neg last) ?_
        cases pathForms fuel (skip '&' rest) <;> rfl

theorem pathForms_round {buf tail val : List Char}
    (name : copyTo 4096 '=' 4096 p = some (buf, '=' :: tail))
    (value : copyTo 4096 '&' 4096 tail = some (val, rest)) :
    pathForms (fuel + 1) p =
      if skip '&' rest = [] then some (formNode buf val)
      else (pathForms fuel (skip '&' rest)).map (formNode buf val ++ ·) := by
  rw [pathForms_succ, name]
  dsimp only
  rw [head?_cons, if_neg (not_not_intro rfl), tail_cons, value]

/-- What `_parsePathInfo` finds has room in its text; by induction on the
rounds of its loop. -/
theorem weight_pathForms
    (found : pathForms fuel p = some pairs) : weight pairs ≤ p.length + 1 := by
  induction fuel generalizing p pairs with
  | zero => cases found
  | succ fuel induction =>
    rw [pathForms_succ] at found
    split at found
    · cases found
    rename_i buf behind name
    split at found
    · cases found
      exact Nat.zero_le _
    rename_i sign
    obtain ⟨tail, rfl⟩ := head?_eq_some_iff.mp (not_not.mp sign)
    split at found
    · cases found
    rename_i val rest value
    obtain ⟨rfl, -, -⟩ := copyTo_split name
    obtain ⟨split, -, stops⟩ := copyTo_split value
    rw [tail_cons] at split
    have size : (buf ++ '=' :: tail).length =
        buf.length + val.length + rest.length + 1 := by
      rw [split]
      simp
      omega
    by_cases last : skip '&' rest = []
    · rw [if_pos last] at found
      cases found
      have bound := weight_formNode buf val []
      rw [append_nil, weight] at bound
      omega
    · rw [if_neg last] at found
      obtain ⟨others, left, rfl⟩ := Option.map_eq_some_iff.mp found
      have bound := weight_formNode buf val others
      have more := induction left
      have step : (skip '&' rest).length + 1 ≤ rest.length := by
        cases rest with
        | nil => exact absurd rfl last
        | cons c rest =>
          rw [stops c rfl]
          exact Nat.le_refl _
      omega

/-- The loop over decoded form values gives them back if and only if there is
nothing in them that is taken for something else; by induction on the list. -/
theorem pathForms_formText_iff (fields : ∀ node ∈ pairs, FormField node)
    (short : (formText id pairs).length < 4096)
    (enough : (formText id pairs).length < fuel) :
    pathForms fuel (formText id pairs) = some pairs ↔
      ∀ node ∈ pairs, PlainValue node.value := by
  induction pairs generalizing fuel with
  | nil =>
    obtain ⟨less, rfl⟩ : ∃ less, fuel = less + 1 := ⟨fuel - 1, by omega⟩
    exact iff_of_true rfl (by simp)
  | cons node pairs induction =>
    obtain ⟨field, others⟩ := forall_mem_cons.mp fields
    obtain ⟨less, rfl⟩ : ∃ less, fuel = less + 1 := ⟨fuel - 1, by omega⟩
    obtain ⟨more, tail, stops, behind⟩ := formTail_split id node pairs
    have size := length_formText (cons_ne_nil node pairs)
    rw [formText_cons, tail, id_eq] at short enough size ⊢
    simp only [length_append, length_cons] at short enough size
    have name := field.copyTo_name (n := 4096) (by omega)
      (node.value ++ more)
    rw [forall_mem_cons]
    by_cases cut : '&' ∈ node.value
    · -- the value ends at its first separator, and something is missing
      refine iff_of_false (fun found => ?_)
        fun both => (both.1 _ cut).1 rfl
      obtain ⟨front, back, split, inside⟩ := eq_append_cons_of_mem cut
      have sooner : node.value ++ more = front ++ '&' :: (back ++ more) := by
        rw [split, append_assoc]
        rfl
      have lengths := congrArg length split
      simp only [length_append, length_cons] at lengths
      have value : copyTo 4096 '&' 4096 (node.value ++ more) =
          some (front, '&' :: (back ++ more)) := by
        rw [sooner]
        apply copyTo_word inside (by omega)
        intro c member
        cases member
        rfl
      rw [pathForms_round name value] at found
      change (if back ++ more = [] then _ else
        (pathForms less (back ++ more)).map _) = _ at found
      cases front with
      | nil =>
        rw [formNode_none] at found
        by_cases last : back ++ more = []
        · rw [if_pos last] at found
          cases found
        · rw [if_neg last] at found
          obtain ⟨others, left, same⟩ := Option.map_eq_some_iff.mp found
          rw [nil_append] at same
          have bound := weight_pathForms left
          rw [same, ← size, length_append] at bound
          rw [length_nil] at lengths
          omega
      | cons c front =>
        have shorter := length_urlcodeTotext_le (c :: front)
        have first : urlcodeTotext (c :: front) = node.value := by
          rw [formNode_some field.nameSome (cons_ne_nil _ _)] at found
          by_cases last : back ++ more = []
          · rw [if_pos last] at found
            have heads := (cons.inj (Option.some.inj found)).1
            exact congrArg HttpHeaderNode.value heads
          · rw [if_neg last] at found
            obtain ⟨others, -, same⟩ := Option.map_eq_some_iff.mp found
            exact congrArg HttpHeaderNode.value (cons.inj same).1
        rw [first] at shorter
        omega
    · have value := copyTo_word (n := 4096) cut (by omega) stops
      rw [pathForms_round name value, behind,
        formNode_some field.nameSome field.valueSome]
      have plain : urlcodeTotext node.value = node.value ↔
          PlainValue node.value := by
        rw [urlcodeTotext_eq_self_iff]
        constructor
        · intro whole c member
          refine ⟨?_, whole c member⟩
          rintro rfl
          exact cut member
        · exact fun all c member => (all c member).2
      have left : (formText id pairs).length ≤ more.length := by
        rw [← behind]
        exact length_skip_le '&' more
      by_cases last : formText id pairs = []
      · rw [if_pos last]
        obtain rfl : pairs = [] := by
          by_contra some_
          exact formText_ne_nil id some_ last
        rw [← plain]
        constructor
        · intro found
          have heads := (cons.inj (Option.some.inj found)).1
          exact ⟨congrArg HttpHeaderNode.value heads, by simp⟩
        · rintro ⟨same, -⟩
          rw [same]
      · have goesOn : (formText id pairs).length < less := by omega
        rw [if_neg last, ← plain, ← induction others (by omega) goesOn]
        constructor
        · intro found
          obtain ⟨rest, left, same⟩ := Option.map_eq_some_iff.mp found
          obtain ⟨heads, rfl⟩ := cons.inj same
          exact ⟨congrArg HttpHeaderNode.value heads, left⟩
        · rintro ⟨same, left⟩
          rw [same, left]
          rfl

theorem formsOf_formText (full : Bool) {isLittle : Bool}
    (fields : ∀ node ∈ pairs, FormField node)
    (fits : ∀ node ∈ pairs, node.name.length ≤ 1023 ∧
      (textToUrlcode isLittle node.value).length ≤ 4095)
    (some_ : pairs ≠ [])
    (enough : (formText (textToUrlcode isLittle) pairs).length < fuel) :
    formsOf full fuel (formText (textToUrlcode isLittle) pairs) =
      if full then none else some (pairs, false) := by
  induction pairs generalizing fuel with
  | nil => exact absurd rfl some_
  | cons node pairs induction =>
    obtain ⟨field, others⟩ := forall_mem_cons.mp fields
    obtain ⟨⟨nameFits, valueFits⟩, othersFit⟩ := forall_mem_cons.mp fits
    obtain ⟨less, rfl⟩ : ∃ less, fuel = less + 1 := ⟨fuel - 1, by omega⟩
    obtain ⟨more, tail, stops, behind⟩ :=
      formTail_split (textToUrlcode isLittle) node pairs
    have bytes := fun c member => (field.value c member).2
    have whole : '&' ∉ textToUrlcode isLittle node.value :=
      fun member => (textToUrlcode_separate isLittle bytes _ member).1 rfl
    have decoded : urlcodeTotext (textToUrlcode isLittle node.value) =
        node.value := by
      have := urlcodeTotext_textToUrlcode isLittle bytes []
      rw [append_nil] at this
      exact this.trans (append_nil _)
    have left : (formText (textToUrlcode isLittle) pairs).length ≤
        more.length := by
      rw [← behind]
      exact length_skip_le '&' more
    rw [formText_cons, tail] at enough ⊢
    simp only [length_append, length_cons] at enough
    rw [formsOf, nstrAnsi_word field.not_mem.1 nameFits (by simp)]
    dsimp only
    rw [if_neg fun both => cons_ne_nil _ _ both.1, head?_cons,
      if_neg (not_not_intro rfl), tail_cons,
      nstrAnsi_word whole valueFits stops]
    dsimp only
    rw [behind, if_neg field.nameSome, decoded]
    by_cases last : formText (textToUrlcode isLittle) pairs = []
    · obtain rfl : pairs = [] := by
        by_contra more_
        exact formText_ne_nil _ more_ last
      rw [if_pos last]
    · have goesOn : pairs ≠ [] := by
        rintro rfl
        exact last rfl
      rw [if_neg last, induction others othersFit goesOn (by omega)]
      cases full <;> rfl

end Splitting

section Requests

/-- `onParseEnd` in front of the cookies. -/
def postedBody (code : CodeType) (full : Bool) (s : HttpRequest) :
    Option HttpRequest :=
  if s.action = .post ∧ s.bodyBuf ≠ [] then postBodyToJson code full s
  else some s

/-- The first line of a request that asks for a path with form values. -/
def requestLine (path query : List Char) : List Char :=
  'G' :: 'E' :: 'T' :: ' ' :: '/' :: (path ++ '?' :: (query ++
    ' ' :: 'H' :: 'T' :: 'T' :: 'P' :: '/' :: '1' :: '.' :: '1' ::
      ['\r', '\n']))

/-- A path that stands in a request for a path without form values of its
own. -/
structure DecodesTo (path text : List Char) : Prop where
  rawWhole : ' ' ∉ path ∧ '\x00' ∉ path
  whole : '?' ∉ text ∧ '\x00' ∉ text
  decodes : ∀ rest, urlcodeTotext (path ++ rest) = text ++ urlcodeTotext rest

variable {code : CodeType} {full : Bool} {s : HttpRequest}
  {pairs : List HttpHeaderNode} {path text query rest : List Char}
  {isLittle : Bool}

theorem urlcodeTotext_word {word : List Char}
    (plain : ∀ c ∈ word, isalnum c = true) (rest : List Char) :
    urlcodeTotext (word ++ rest) = word ++ urlcodeTotext rest := by
  induction word with
  | nil => rfl
  | cons c word induction =>
    obtain ⟨alnum, others⟩ := forall_mem_cons.mp plain
    obtain ⟨-, -, notCode, notPlus, -⟩ := isalnum_plain alnum
    rw [cons_append, urlcodeTotext_cons notCode, if_neg notPlus,
      induction others]
    rfl

theorem urlcodeTotext_formText (fields : ∀ node ∈ pairs, FormField node) :
    urlcodeTotext (formText (textToUrlcode isLittle) pairs) =
      formText id pairs := by
  induction pairs with
  | nil => rfl
  | cons node pairs induction =>
    obtain ⟨field, others⟩ := forall_mem_cons.mp fields
    have bytes := fun c member => (field.value c member).2
    rw [formText_cons, formText_cons, urlcodeTotext_word field.name,
      urlcodeTotext_cons (by decide), if_neg (by decide)]
    cases pairs with
    | nil =>
      have decoded := urlcodeTotext_textToUrlcode isLittle bytes []
      rw [append_nil] at decoded
      rw [formTail, decoded]
      exact congrArg (node.name ++ '=' :: ·) (append_nil _)
    | cons next more =>
      rw [formTail, urlcodeTotext_textToUrlcode isLittle bytes,
        urlcodeTotext_cons (by decide), if_neg (by decide),
        induction others]
      rfl

theorem formText_whole (isLittle : Bool)
    (fields : ∀ node ∈ pairs, FormField node) :
    ∀ c ∈ formText (textToUrlcode isLittle) pairs, c ≠ ' ' ∧ c ≠ '\x00' := by
  induction pairs with
  | nil => simp [formText]
  | cons node pairs induction =>
    obtain ⟨field, others⟩ := forall_mem_cons.mp fields
    have value := fun c member => (textToUrlcode_separate isLittle
      (fun c member => (field.value c member).2) c member).2
    have name : ∀ c ∈ node.name, c ≠ ' ' ∧ c ≠ '\x00' := by
      intro c member
      obtain ⟨-, -, -, -, space, nul, -⟩ :=
        isalnum_plain (field.name c member)
      exact ⟨space, nul⟩
    intro c member
    rw [formText_cons, mem_append, mem_cons] at member
    rcases member with inName | rfl | inTail
    · exact name c inName
    · decide
    cases pairs with
    | nil => exact value c inTail
    | cons next more =>
      rw [formTail, mem_append, mem_cons] at inTail
      rcases inTail with inValue | rfl | inRest
      · exact value c inValue
      · decide
      · exact induction others c inRest

theorem formText_id_whole (fields : ∀ node ∈ pairs, FormField node) :
    '\x00' ∉ formText id pairs := by
  induction pairs with
  | nil => simp [formText]
  | cons node pairs induction =>
    obtain ⟨field, others⟩ := forall_mem_cons.mp fields
    have value : '\x00' ∉ node.value :=
      fun member => (field.value _ member).1 rfl
    have name : '\x00' ∉ node.name := by
      intro member
      obtain ⟨-, -, -, -, -, nul, -⟩ := isalnum_plain (field.name _ member)
      exact nul rfl
    have rest := induction others
    rw [formText_cons]
    cases pairs with
    | nil => simp [formTail, name, value]
    | cons next more => simp [formTail, name, value, rest]

theorem matchMethod_get (rest : List Char) :
    matchMethod ('G' :: 'E' :: 'T' :: rest) = (some .get, rest) :=
  rfl

theorem strchr_slash (rest : List Char) :
    strchr (' ' :: '/' :: rest) '/' = some ('/' :: rest) :=
  rfl

theorem stristr_http (rest : List Char) :
    stristr (' ' :: 'H' :: 'T' :: 'T' :: 'P' :: rest) "HTTP".toList =
      some ('H' :: 'T' :: 'T' :: 'P' :: rest) :=
  rfl

theorem firstLine_requestLine
    (whole : ∀ c ∈ path ++ '?' :: query, c ≠ ' ' ∧ c ≠ '\x00')
    (fits : (path ++ '?' :: query).length < 1024) (rest : List Char) :
    firstLine (requestLine path query ++ rest) =
      some (some .get, path ++ '?' :: query, some (cString rest)) := by
  have line : '\x00' ∉ requestLine path query := by
    have inside : '\x00' ∉ path ++ '?' :: query :=
      fun member => (whole _ member).2 rfl
    simp only [mem_append, mem_cons, not_or] at inside
    simp [requestLine, inside]
  have start : cString (requestLine path query ++ rest) =
      'G' :: 'E' :: 'T' :: ' ' :: '/' :: ((path ++ '?' :: query) ++
        ' ' :: 'H' :: 'T' :: 'T' :: 'P' ::
          (['/', '1', '.', '1'] ++ '\r' :: '\n' :: cString rest)) := by
    rw [cString_front line, requestLine]
    simp
  have size : (requestLine path query ++ rest).length =
      (path ++ '?' :: query).length + 16 + rest.length := by
    rw [requestLine]
    simp
    omega
  have short := length_cString_le rest
  have ends : ∀ c ∈ (' ' :: 'H' :: 'T' :: 'T' :: 'P' ::
      (['/', '1', '.', '1'] ++ '\r' :: '\n' :: cString rest)).head?,
        c = ' ' := by
    intro c member
    cases member
    rfl
  have name := copyTo_word (fun member => (whole _ member).1 rfl) fits ends
  have lead : ((path ++ '?' :: query) ++ ' ' :: 'H' :: 'T' :: 'T' :: 'P' ::
      (['/', '1', '.', '1'] ++ '\r' :: '\n' :: cString rest)).head? ≠
        some ' ' := by
    rw [head?_append_of_ne_nil _ (append_ne_nil_of_right_ne_nil _
      (cons_ne_nil _ _))]
    intro first
    exact (whole _ (mem_of_mem_head? first)).1 rfl
  rw [firstLine, start, size]
  dsimp only
  rw [matchMethod_get]
  dsimp only
  rw [strchr_slash]
  dsimp only
  rw [tail_cons, pathText, if_neg lead, name]
  dsimp only
  rw [stristr_http]
  change some (some Action.get, path ++ '?' :: query, parserCheckEnd
    (['/', '1', '.', '1'] ++ '\r' :: '\n' :: cString rest) _) = _
  rw [parserCheckEnd_line (by decide)]
  rw [distance]
  simp
  omega

theorem parsePathInfo_forms (whole : '?' ∉ text)
    (fits : (text ++ '?' :: query).length < 4096) :
    parsePathInfo (text ++ '?' :: query) =
      (pathForms (query.length + 1) query).map fun forms => (text, forms) := by
  have size : text.length < 4096 := by
    rw [length_append] at fits
    omega
  have ends : ∀ c ∈ ('?' :: query).head?, c = '?' := by
    intro c member
    cases member
    rfl
  have name := copyTo_word whole size ends
  have sign : ¬ ('?' :: query).head? ≠ some '?' := not_not_intro rfl
  rw [parsePathInfo, name]
  refine Eq.trans (b := (pathForms (query.length + 1) query).bind _)
    (if_neg (t := some (text, [])) sign) ?_
  cases pathForms (query.length + 1) query <;> rfl

theorem parseProtocol_requestLine (decodes : DecodesTo path text)
    (fields : ∀ node ∈ pairs, FormField node)
    (fits : (path ++ '?' :: formText (textToUrlcode isLittle) pairs).length <
      1024)
    (buffered : s.bodyBuf =
      requestLine path (formText (textToUrlcode isLittle) pairs) ++ rest)
    {forms : List HttpHeaderNode} :
    (∃ ret t, (requestVirtual code full).parseProtocol s = some (ret, t) ∧
        t.derived.requestForms = s.derived.requestForms ++ forms) ↔
      pathForms ((formText id pairs).length + 1) (formText id pairs) =
        some forms := by
  have whole : ∀ c ∈ path ++ '?' :: formText (textToUrlcode isLittle) pairs,
      c ≠ ' ' ∧ c ≠ '\x00' := by
    intro c member
    rcases mem_append.mp member with inPath | inQuery
    · constructor
      · rintro rfl
        exact decodes.rawWhole.1 inPath
      · rintro rfl
        exact decodes.rawWhole.2 inPath
    · rcases mem_cons.mp inQuery with rfl | inside
      · decide
      · exact formText_whole isLittle fields c inside
  have decoded : urlcodeTotext
      (path ++ '?' :: formText (textToUrlcode isLittle) pairs) =
        text ++ '?' :: formText id pairs := by
    rw [decodes.decodes, urlcodeTotext_cons (by decide), if_neg (by decide),
      urlcodeTotext_formText fields]
  have shorter := length_urlcodeTotext_le
    (path ++ '?' :: formText (textToUrlcode isLittle) pairs)
  rw [decoded] at shorter
  have text_ : cString (text ++ '?' :: formText id pairs) =
      text ++ '?' :: formText id pairs := by
    have inside : '\x00' ∉ text ++ '?' :: formText id pairs := by
      have query := formText_id_whole fields
      simp [decodes.whole.2, query]
    have := cString_front inside []
    rw [append_nil] at this
    exact this.trans (append_nil _)
  have path_ : path ++ '?' :: formText (textToUrlcode isLittle) pairs ≠ [] :=
    append_ne_nil_of_right_ne_nil _ (cons_ne_nil _ _)
  have complete : lineReadsEnd s.bodyBuf = false := by
    rw [lineReadsEnd, buffered, firstLine_requestLine whole fits]
    rfl
  change (∃ ret t, (if full && lineReadsEnd s.bodyBuf then none
    else parseProtocol s) = some (ret, t) ∧ _) ↔ _
  rw [complete, Bool.and_false, if_neg Bool.false_ne_true, parseProtocol,
    buffered, firstLine_requestLine whole fits]
  dsimp only
  rw [pushPath, if_neg path_, decoded]
  dsimp only
  rw [text_, parsePathInfo_forms decodes.whole.1 (by omega)]
  cases pathForms ((formText id pairs).length + 1) (formText id pairs) with
  | none =>
    constructor
    · rintro ⟨_, _, found, -⟩
      cases found
    · intro found
      cases found
  | some found =>
    constructor
    · rintro ⟨ret, t, read, same⟩
      cases read
      exact congrArg some (append_cancel_left same)
    · intro same
      cases same
      exact ⟨_, _, rfl, rfl⟩

theorem postedBody_formText (fields : ∀ node ∈ pairs, FormField node)
    (fits : ∀ node ∈ pairs, node.name.length ≤ 1023 ∧
      (textToUrlcode isLittle node.value).length ≤ 4095)
    (posted : s.action = .post) (xForm : contentOf s.header = .xForm)
    (body : s.bodyBuf = formText (textToUrlcode isLittle) pairs) :
    (∃ t, postedBody code full s = some t ∧ t.parseError = s.parseError ∧
      t.derived.requestForms = s.derived.requestForms ++ pairs) ↔
      full = false ∨ pairs = [] := by
  cases pairs with
  | nil =>
    refine iff_of_true ⟨s, ?_, rfl, (append_nil _).symm⟩ (.inr rfl)
    exact if_neg fun both => both.2 body
  | cons node pairs =>
    have field := fields node mem_cons_self
    obtain ⟨c, name, shape⟩ := exists_cons_of_ne_nil field.nameSome
    obtain ⟨-, -, -, -, -, -, visible⟩ := isalnum_plain
      (field.name c (by rw [shape]; exact mem_cons_self))
    have some_ : formText (textToUrlcode isLittle) (node :: pairs) ≠ [] :=
      formText_ne_nil _ (cons_ne_nil _ _)
    have whole : cString (formText (textToUrlcode isLittle) (node :: pairs)) =
        formText (textToUrlcode isLittle) (node :: pairs) := by
      have := cString_front
        (fun member => (formText_whole isLittle fields _ member).2 rfl) []
      rw [append_nil] at this
      exact this.trans (append_nil _)
    have begins : firstValid
        (formText (textToUrlcode isLittle) (node :: pairs)) =
          some (formText (textToUrlcode isLittle) (node :: pairs)) := by
      rw [formText_cons, shape]
      exact firstValid_cons visible _
    rw [postedBody, if_pos ⟨posted, by rwa [body]⟩, postBodyToJson, xForm]
    dsimp only
    rw [parseXForm, body, whole, begins]
    dsimp only [Option.bind_eq_bind, Option.bind_some]
    rw [formsOf_formText full fields fits (cons_ne_nil _ _)
      (Nat.lt_succ_self _)]
    cases full with
    | false =>
      exact iff_of_true ⟨_, rfl, Bool.or_false _, rfl⟩ (.inl rfl)
    | true =>
      refine iff_of_false ?_ ?_
      · rintro ⟨t, read, -⟩
        cases read
      · rintro (room | none)
        · cases room
        · cases none

theorem decodesTo_of_plain (plain : ∀ c ∈ path, c ≠ ' ' ∧ c ≠ '\x00' ∧
    c ≠ '%' ∧ c ≠ '+' ∧ c ≠ '?') : DecodesTo path path where
  rawWhole := ⟨fun member => (plain _ member).1 rfl,
    fun member => (plain _ member).2.1 rfl⟩
  whole := ⟨fun member => (plain _ member).2.2.2.2 rfl,
    fun member => (plain _ member).2.1 rfl⟩
  decodes := by
    intro rest
    induction path with
    | nil => rfl
    | cons c path induction =>
      obtain ⟨⟨-, -, notCode, notPlus, -⟩, others⟩ :=
        forall_mem_cons.mp plain
      rw [cons_append, urlcodeTotext_cons notCode, if_neg notPlus,
        induction others]
      rfl

/-- For every list of form values: those in the first line of a request,
whatever path they belong to and whatever follows, are read back if and only if
there is no ampersand, plus or percent sign in them; those in a body if and
only if there are none, or the body does not end with the block it is in. -/
theorem forms_exact_iff (code : CodeType) (isLittle : Bool)
    (fields : ∀ node ∈ pairs, FormField node) :
    (∀ path text rest (b : Buffered RequestFields), DecodesTo path text →
      (path ++ '?' :: formText (textToUrlcode isLittle) pairs).length < 1024 →
      b.parser.bodyBuf =
        requestLine path (formText (textToUrlcode isLittle) pairs) ++ rest →
      ((∃ ret t, (requestVirtual code b.full).parseProtocol b.parser =
            some (ret, t) ∧
          t.derived.requestForms = b.parser.derived.requestForms ++ pairs) ↔
        ∀ node ∈ pairs, PlainValue node.value)) ∧
    ∀ b : Buffered RequestFields, b.parser.action = .post →
      contentOf b.parser.header = .xForm →
      (∀ node ∈ pairs, node.name.length ≤ 1023 ∧
        (textToUrlcode isLittle node.value).length ≤ 4095) →
      b.parser.bodyBuf = formText (textToUrlcode isLittle) pairs →
      ((∃ t, postedBody code b.full b.parser = some t ∧
          t.parseError = b.parser.parseError ∧
          t.derived.requestForms = b.parser.derived.requestForms ++ pairs) ↔
        ¬ b.block.Full b.parser.bodyBuf.length ∨ pairs = []) := by
  constructor
  · intro path text rest b decodes fits buffered
    have shorter : (formText id pairs).length < 4096 := by
      have := length_urlcodeTotext_le (formText (textToUrlcode isLittle) pairs)
      rw [urlcodeTotext_formText fields] at this
      rw [length_append, length_cons] at fits
      omega
    exact (parseProtocol_requestLine decodes fields fits buffered).trans
      (pathForms_formText_iff fields shorter (Nat.lt_succ_self _))
  · intro b posted xForm fits body
    have whole : '\x00' ∉ b.parser.bodyBuf := by
      rw [body]
      exact fun member => (formText_whole isLittle fields _ member).2 rfl
    rw [← Buffered.full_eq_false_iff whole]
    exact postedBody_formText fields fits posted xForm body

/-- A plus that has been encoded comes out as a space. -/
theorem parseProtocol_plus :
    (parseProtocol { HttpRequest.reset with
        bodyBuf := requestLine ['p'] (formText (textToUrlcode false)
          [⟨['x'], ['a', '+', 'b']⟩]) }).map
      (fun read => read.2.derived.requestForms) =
        some [⟨['x'], ['a', ' ', 'b']⟩] := by
  decide +kernel

def spacedForm : List HttpHeaderNode :=
  [⟨['x'], ['a', ' ', '=']⟩, ⟨['y'], ['/']⟩]

theorem formField_spacedForm : ∀ node ∈ spacedForm, FormField node := by
  intro node member
  simp only [spacedForm, mem_cons, not_mem_nil, or_false] at member
  rcases member with rfl | rfl
  · exact ⟨by decide, by decide, by decide, by decide⟩
  · exact ⟨by decide, by decide, by decide, by decide⟩

theorem forms_exact_spacedForm :
    (∃ ret t, (requestVirtual .utf8 false).parseProtocol { HttpRequest.reset with
        bodyBuf := requestLine ['p'] (formText (textToUrlcode true)
          spacedForm) } = some (ret, t) ∧
        t.derived.requestForms = spacedForm) ∧
      ∃ t, postedBody .utf8 false { HttpRequest.reset with
          action := .post
          header := [⟨"Content-Type".toList,
            "application/x-www-form-urlencoded".toList⟩]
          bodyBuf := formText (textToUrlcode true) spacedForm } = some t ∧
        t.parseError = false ∧ t.derived.requestForms = spacedForm := by
  obtain ⟨line, body⟩ := forms_exact_iff .utf8 true formField_spacedForm
  constructor
  · refine (line ['p'] ['p'] [] (.init { HttpRequest.reset with
      bodyBuf := requestLine ['p'] (formText (textToUrlcode true) spacedForm) })
      (decodesTo_of_plain (by decide)) (by decide)
      (append_nil _).symm).mpr ?_
    intro node member
    simp only [spacedForm, mem_cons, not_mem_nil, or_false] at member
    rcases member with rfl | rfl
    · exact (by decide : ∀ c ∈ ['a', ' ', '='], c ≠ '&' ∧ c ≠ '+' ∧ c ≠ '%')
    · exact (by decide : ∀ c ∈ ['/'], c ≠ '&' ∧ c ≠ '+' ∧ c ≠ '%')
  · refine (body (.init { HttpRequest.reset with
      action := .post
      header := [⟨"Content-Type".toList,
        "application/x-www-form-urlencoded".toList⟩]
      bodyBuf := formText (textToUrlcode true) spacedForm }) rfl rfl ?_ rfl).mpr
        (.inl (by decide))
    intro node member
    simp only [spacedForm, mem_cons, not_mem_nil, or_false] at member
    rcases member with rfl | rfl
    · exact ⟨by decide, by decide⟩
    · exact ⟨by decide, by decide⟩

end Requests

end NdNet.Http
