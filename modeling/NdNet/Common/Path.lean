import Mathlib.Data.List.Infix

/-!
# Paths, and the test for a subpath

A normalised absolute path is the list of its names. `nd_is_subpath`, as
`nd_common/nddir.h` is compiled for Unix, compares the texts of two such paths
character by character.
-/

namespace NdNet.Path

open List

/-- What may stand between two slashes of a normalised path. -/
structure LegalName (name : List Char) : Prop where
  nonempty : name ≠ []
  noSlash : '/' ∉ name
  noNul : '\x00' ∉ name
  notHere : name ≠ ['.']
  notParent : name ≠ ['.', '.']

/-- A normalised absolute path. -/
structure NormalPath where
  names : List (List Char)
  legal : ∀ name ∈ names, LegalName name

def below (names : List (List Char)) : List Char :=
  names.flatMap ('/' :: ·)

/-- The text of a path with these names; that of the root is a slash. -/
def pathText (names : List (List Char)) : List Char :=
  if names = [] then ['/'] else below names

def NormalPath.text (path : NormalPath) : List Char :=
  pathText path.names

/-- The loop of `nd_is_subpath`, with the places that `p` and `r` point to; the
result is `none` if a null pointer is followed. -/
def isSubpathLoop : Option (List Char) → List Char → Option Int
  | _, [] => some 1
  | none, _ :: _ => none
  | some [], _ :: _ => some 0
  | some (c :: p), d :: r => if c = d then isSubpathLoop (some p) r else some 0

/-- `nd_is_subpath`; `absolutePath` is `nd_absolute_path`, which returns `NULL`
for a path that cannot be resolved. -/
def ndIsSubpath (absolutePath : List Char → Option (List Char))
    (parentPath inputPath : List Char) : Option Int :=
  isSubpathLoop (absolutePath inputPath) parentPath

/-- The form is that of the parent, or goes on behind it with a separator.  All
forms go on so behind the root. -/
def Continues (parent form : NormalPath) : Prop :=
  form.text = parent.text ∨ below parent.names ++ ['/'] <+: form.text

/-- In the place of the parent's last name stands one that only begins with
it. -/
def LongerName (parent form : NormalPath) : Prop :=
  ∃ front last more rest, more ≠ [] ∧ parent.names = front ++ [last] ∧
    form.names = front ++ (last ++ more) :: rest

section Texts

variable {name other : List Char} {names others : List (List Char)}

@[simp] theorem below_nil : below [] = [] :=
  flatMap_nil

@[simp] theorem below_cons :
    below (name :: names) = '/' :: (name ++ below names) :=
  flatMap_cons

@[simp] theorem below_append :
    below (names ++ others) = below names ++ below others :=
  flatMap_append

theorem head_below {c : Char} (head : c ∈ (below names).head?) : c = '/' := by
  cases names with
  | nil => cases head
  | cons name names =>
    cases head
    rfl

theorem prefix_of_name {text : List Char} (noSlash : '/' ∉ name)
    (begins : name <+: other ++ text) (slash : ∀ c ∈ text.head?, c = '/') :
    name <+: other := by
  rcases prefix_or_prefix_of_prefix begins (prefix_append other text)
    with inside | ⟨more, split⟩
  · exact inside
  cases more with
  | nil =>
    rw [append_nil] at split
    exact split ▸ prefix_rfl
  | cons c more =>
    rw [← split, prefix_append_right_inj] at begins
    have isSlash : c = '/' := by
      cases text with
      | nil => cases prefix_nil.mp begins
      | cons d text =>
        rw [(cons_prefix_cons.mp begins).1]
        exact slash d rfl
    apply (noSlash _).elim
    rw [← split, isSlash]
    simp

theorem name_of_slash {text later : List Char} (noSlash : '/' ∉ name)
    (otherNoSlash : '/' ∉ other) (slash : ∀ c ∈ text.head?, c = '/')
    (begins : name ++ '/' :: later <+: other ++ text) : name = other := by
  obtain ⟨more, split⟩ : name <+: other :=
    prefix_of_name noSlash ((prefix_append _ _).trans begins) slash
  cases more with
  | nil => rw [← split, append_nil]
  | cons c more =>
    rw [← split, append_assoc, prefix_append_right_inj,
      cons_append, cons_prefix_cons] at begins
    apply (otherNoSlash _).elim
    rw [← split, ← begins.1]
    simp

end Texts

section Prefixes

/-- `LongerName`, of lists of names. -/
def Longer (parent form : List (List Char)) : Prop :=
  ∃ front last more rest, more ≠ [] ∧ parent = front ++ [last] ∧
    form = front ++ (last ++ more) :: rest

theorem below_prefix_iff {parent form : List (List Char)}
    (legal : ∀ name ∈ parent, LegalName name)
    (formLegal : ∀ name ∈ form, LegalName name) (nonempty : parent ≠ []) :
    below parent <+: below form ↔ parent <+: form ∨ Longer parent form := by
  constructor
  · intro begins
    induction parent generalizing form with
    | nil => exact (nonempty rfl).elim
    | cons p ps induction =>
      cases form with
      | nil =>
        rw [below_nil, prefix_nil, below_cons] at begins
        cases begins
      | cons f fs =>
        have pLegal := legal p mem_cons_self
        have fLegal := formLegal f mem_cons_self
        rw [below_cons, below_cons, cons_prefix_cons] at begins
        cases ps with
        | nil =>
          rw [below_nil, append_nil] at begins
          obtain ⟨more, rfl⟩ := prefix_of_name pLegal.noSlash begins.2
            (fun _ => head_below)
          by_cases equal : more = []
          · left
            simp [equal]
          · right
            exact ⟨[], p, more, fs, equal, rfl, rfl⟩
        | cons next ps =>
          have slash := begins.2
          obtain rfl := name_of_slash pLegal.noSlash fLegal.noSlash
            (fun _ => head_below) slash
          rw [prefix_append_right_inj] at begins
          rcases induction
              (fun name member => legal name (mem_cons_of_mem _ member))
              (fun name member =>
                formLegal name (mem_cons_of_mem _ member))
              (cons_ne_nil _ _) begins.2 with
            inside | ⟨front, last, more, rest, goes, split, longer⟩
          · left
            exact cons_prefix_cons.mpr ⟨rfl, inside⟩
          · right
            refine ⟨p :: front, last, more, rest, goes, ?_, ?_⟩
            · rw [split, cons_append]
            · rw [longer, cons_append]
  · rintro (⟨rest, rfl⟩ | ⟨front, last, more, rest, -, rfl, rfl⟩)
    · rw [below_append]
      exact prefix_append _ _
    · simp only [below_append, below_cons, below_nil, append_nil, append_assoc]
      apply (prefix_append_right_inj _).mpr
      apply cons_prefix_cons.mpr
      exact ⟨rfl, prefix_append _ _⟩

variable {parent form : NormalPath}

theorem text_of_nonempty (nonempty : form.names ≠ []) :
    form.text = below form.names :=
  if_neg nonempty

theorem slash_prefix (form : NormalPath) : ['/'] <+: form.text := by
  by_cases root : form.names = []
  · rw [NormalPath.text, pathText, if_pos root]
  · obtain ⟨name, names, split⟩ := exists_cons_of_ne_nil root
    rw [text_of_nonempty root, split, below_cons]
    apply cons_prefix_cons.mpr
    exact ⟨rfl, nil_prefix⟩

theorem continues_iff : Continues parent form ↔ parent.names <+: form.names := by
  constructor
  · intro goes
    by_cases root : parent.names = []
    · rw [root]
      exact nil_prefix
    have begins : below parent.names <+: form.text := by
      rcases goes with same | goes
      · rw [same, text_of_nonempty root]
      · exact (prefix_append _ _).trans goes
    have formRoot : form.names ≠ [] := by
      intro empty
      obtain ⟨name, names, split⟩ := exists_cons_of_ne_nil root
      have legal := parent.legal name (split ▸ mem_cons_self)
      rw [NormalPath.text, pathText, if_pos empty, split, below_cons,
        cons_prefix_cons] at begins
      have nothing := prefix_nil.mp begins.2
      exact legal.nonempty (append_eq_nil_iff.mp nothing).1
    rw [text_of_nonempty formRoot] at begins
    rcases (below_prefix_iff parent.legal form.legal root).mp begins with
      inside | ⟨front, last, more, rest, goesOn, split, longer⟩
    · exact inside
    have formText : form.text =
        below parent.names ++ (more ++ below rest) := by
      rw [text_of_nonempty formRoot, longer, split]
      simp
    rcases goes with same | goes
    · rw [formText, text_of_nonempty root, append_right_eq_self] at same
      exact (goesOn (append_eq_nil_iff.mp same).1).elim
    · obtain ⟨c, others, begun⟩ := exists_cons_of_ne_nil goesOn
      have legal := form.legal (last ++ more) (by rw [longer]; simp)
      rw [formText, prefix_append_right_inj, begun, cons_append,
        cons_prefix_cons] at goes
      apply (legal.noSlash _).elim
      rw [begun, ← goes.1]
      simp
  · rintro ⟨rest, split⟩
    by_cases root : parent.names = []
    · right
      rw [root, below_nil, nil_append]
      exact slash_prefix form
    · have formRoot : form.names ≠ [] := by
        intro empty
        rw [empty, append_eq_nil_iff] at split
        exact root split.1
      cases rest with
      | nil =>
        left
        rw [append_nil] at split
        rw [NormalPath.text, NormalPath.text, split]
      | cons name rest =>
        right
        rw [text_of_nonempty formRoot, ← split, below_append, below_cons,
          prefix_append_right_inj, cons_prefix_cons]
        exact ⟨rfl, nil_prefix⟩

theorem Longer.not_continues (longer : LongerName parent form) :
    ¬ Continues parent form := by
  intro goes
  obtain ⟨front, last, more, rest, goesOn, split, behind⟩ := longer
  obtain ⟨others, same⟩ := continues_iff.mp goes
  rw [split, behind, append_assoc, append_cancel_left_eq,
    cons_append, cons.injEq] at same
  apply goesOn
  exact append_right_eq_self.mp same.1.symm

theorem text_prefix_iff : parent.text <+: form.text ↔
    Continues parent form ∨ LongerName parent form := by
  by_cases root : parent.names = []
  · have slash : parent.text = ['/'] := if_pos root
    have goes : Continues parent form := by
      right
      rw [root, below_nil, nil_append]
      exact slash_prefix form
    simp [slash, slash_prefix, goes]
  · rw [text_of_nonempty root]
    by_cases formRoot : form.names = []
    · have slash : form.text = ['/'] := if_pos formRoot
      rw [continues_iff, LongerName, formRoot, slash]
      obtain ⟨name, names, split⟩ := exists_cons_of_ne_nil root
      have legal := parent.legal name (split ▸ mem_cons_self)
      simp [split, legal.nonempty]
    · rw [text_of_nonempty formRoot, continues_iff]
      exact below_prefix_iff parent.legal form.legal root

end Prefixes

section Law

theorem isSubpathLoop_some (p r : List Char) :
    isSubpathLoop (some p) r = some (if r <+: p then 1 else 0) := by
  induction r generalizing p with
  | nil => simp [isSubpathLoop]
  | cons d r induction =>
    cases p with
    | nil => simp [isSubpathLoop]
    | cons c p =>
      by_cases same : c = d
      · simp [isSubpathLoop, same, induction, cons_prefix_cons]
      · simp [isSubpathLoop, same, cons_prefix_cons, Ne.symm same]

theorem isSubpathLoop_none {r : List Char} (nonempty : r ≠ []) :
    isSubpathLoop none r = none := by
  cases r with
  | nil => exact (nonempty rfl).elim
  | cons d r => rfl

/-- The test is exact: it returns 1 if the input resolves to the parent or to
what goes on behind it with a separator, and 0 otherwise, also for an input that
does not resolve. -/
def SubpathExact (absolutePath : List Char → Option NormalPath)
    (parent : NormalPath) (input : List Char) : Prop :=
  ∃ ret, ndIsSubpath (fun input => (absolutePath input).map NormalPath.text)
      parent.text input = some ret ∧ (ret = 0 ∨ ret = 1) ∧
    (ret = 1 ↔ ∃ form, absolutePath input = some form ∧ Continues parent form)

/-- The input resolves, and not to a path with a longer name in the place of
the parent's last one. -/
def ResolvesApart (absolutePath : List Char → Option NormalPath)
    (parent : NormalPath) (input : List Char) : Prop :=
  ∃ form, absolutePath input = some form ∧ ¬ LongerName parent form

theorem subpathExact_iff (absolutePath : List Char → Option NormalPath)
    (parent : NormalPath) (input : List Char) :
    SubpathExact absolutePath parent input ↔
      ResolvesApart absolutePath parent input := by
  cases resolved : absolutePath input with
  | none =>
    have followed : ndIsSubpath
        (fun input => (absolutePath input).map NormalPath.text)
        parent.text input = none := by
      rw [ndIsSubpath, resolved]
      apply isSubpathLoop_none
      intro empty
      have slash := slash_prefix parent
      rw [empty] at slash
      cases prefix_nil.mp slash
    simp [SubpathExact, ResolvesApart, followed, resolved]
  | some form =>
    have answered : ndIsSubpath
        (fun input => (absolutePath input).map NormalPath.text)
        parent.text input =
          some (if parent.text <+: form.text then 1 else 0) := by
      rw [ndIsSubpath, resolved]
      exact isSubpathLoop_some _ _
    have exclusive : LongerName parent form → ¬ Continues parent form :=
      Longer.not_continues
    simp only [SubpathExact, ResolvesApart, answered, resolved,
      Option.some.injEq, exists_eq_left']
    by_cases begins : parent.text <+: form.text
    · rw [if_pos begins]
      rcases text_prefix_iff.mp begins with goes | longer
      · have apart : ¬ LongerName parent form := fun longer =>
          exclusive longer goes
        simp [goes, apart]
      · simp [longer, exclusive longer]
    · rw [if_neg begins]
      rw [text_prefix_iff, not_or] at begins
      simp [begins.1, begins.2]

def directoryA : NormalPath :=
  ⟨[['a']], by
    intro name member
    rw [List.mem_singleton] at member
    subst member
    constructor <;> decide⟩

def directoryAb : NormalPath :=
  ⟨[['a', 'b']], by
    intro name member
    rw [List.mem_singleton] at member
    subst member
    constructor <;> decide⟩

/-- For an input that does not resolve a null pointer is followed, and `/ab` is
taken for a subpath of `/a`. -/
theorem sibling_not_subpathExact :
    ¬ SubpathExact (fun _ => none) directoryA ['b'] ∧
      ¬ SubpathExact (fun _ => some directoryAb) directoryA ['b'] := by
  constructor
  · rintro ⟨ret, returned, -⟩
    have followed : ndIsSubpath (fun _ => none) ['/', 'a'] ['b'] = none := by rfl
    cases followed.symm.trans returned
  · rintro ⟨ret, returned, -, meaning⟩
    have one : ndIsSubpath (fun _ => some ['/', 'a', 'b']) ['/', 'a'] ['b'] =
        some 1 := by rfl
    obtain rfl := Option.some.inj (one.symm.trans returned)
    obtain ⟨form, resolved, goes⟩ := meaning.mp rfl
    obtain rfl := Option.some.inj resolved
    have inside := continues_iff.mp goes
    exact absurd inside (by decide)

end Law

end NdNet.Path
