import NdNet.Net.MsgEntry
import NdNet.Common.Str

/-!
# The names of messages

Beside its handler a node of the message table keeps a name. The search forms
the main id from the base and the row without the cut to eight bits by which a
main id finds its row.

A name of 64 characters or more fills its buffer and has no NUL there: whoever
reads it goes on into the memory behind the buffer.  What stands there is the
parameter `behind`.
-/

namespace NdNet

open NdNet.Str List

def netMsgNameSize : Nat := 64

def makeDword (hiWord loWord : Nat) : Nat :=
  loWord % 65536 + hiWord % 65536 * 65536

/-- `(NDUINT32) -1` -/
def noMsgId : Nat := 4294967295

/-- `struct nd_msgentry_root` with the names of its nodes: the characters in
front of the NUL, or all of them if there is none. -/
structure NamedMsgRoot (F : Type) extends MsgEntryRoot F where
  name : Nat → Nat → List Char

namespace NamedMsgRoot

variable {F : Type}

/-- `create_msgroot`, followed by `nd_msgentry_def_handler`. -/
def create (maxMainmsg base : Nat) (defEntry : Option F) : NamedMsgRoot F :=
  { MsgEntryRoot.create maxMainmsg base defEntry with
    name := fun _ _ => [] }

def nameText (root : NamedMsgRoot F) (behind : Nat → Nat → List Char)
    (row index : Nat) : List Char :=
  if (root.name row index).length < netMsgNameSize then root.name row index
  else root.name row index ++ behind row index

def getName (root : NamedMsgRoot F) (behind : Nat → Nat → List Char)
    (maxid minid : Byte) : Option (List Char) :=
  (root.getNode maxid minid).map fun node =>
    root.nameText behind node.1 node.2

/-- The node of `nd_msgentry_get_id` at which the search ends. -/
def hit (root : NamedMsgRoot F) (behind : Nat → Nat → List Char)
    (msgname : List Char) (row index : Nat) : Option Nat :=
  if root.name row index = [] then none
  else if stricmp msgname (root.nameText behind row index) = 0 then
    some (makeDword (root.msgidBase + row) index)
  else none

def getId (root : NamedMsgRoot F) (behind : Nat → Nat → List Char)
    (msgname : List Char) : Nat :=
  if msgname = [] then noMsgId
  else
    ((List.range root.mainNum).findSome? fun row =>
      (List.range subMsgNum).findSome? fun index =>
        root.hit behind msgname row index).getD noMsgId

def setName (root : NamedMsgRoot F) (row index : Nat) (name : List Char) :
    NamedMsgRoot F :=
  { root with
    name := fun row' index' =>
      if row' = row ∧ index' = index then name else root.name row' index' }

/-- `nd_msgentry_install`; a `NULL` name is an empty one. -/
def install (root : NamedMsgRoot F) (func : Option F) (maxid minid : Byte)
    (level : Int) (name : List Char) : Int × NamedMsgRoot F :=
  let entered : NamedMsgRoot F :=
    { root with
      toMsgEntryRoot := (root.toMsgEntryRoot.install func maxid minid level).2 }
  match root.getNode maxid minid with
  | none => (-1, root)
  | some (row, index) =>
    (0,
      if name = [] then entered
      else
        entered.setName row index
          (name.take (min (name.length + 1) netMsgNameSize)))

end NamedMsgRoot

/-- The edits of a table with names; the others give no name. -/
inductive NamedEdit (F : Type) where
  | install (func : Option F) (maxid minid : Byte) (level : Int)
      (name : List Char)
  | other (edit : MsgEdit F)

variable {maxid minid : Byte}

namespace NamedEdit

open NamedMsgRoot MsgEdit

variable {F : Type}

def apply (root : NamedMsgRoot F) : NamedEdit F → NamedMsgRoot F
  | .install func maxid minid level name =>
    (root.install func maxid minid level name).2
  | .other edit =>
    { root with toMsgEntryRoot := MsgEdit.apply root.toMsgEntryRoot edit }

def names (maxid minid : Byte) : NamedEdit F → Option (List Char)
  | .install _ maxid' minid' _ name =>
    if maxid' = maxid ∧ minid' = minid ∧ name ≠ [] then some name else none
  | .other _ => none

def installedName (maxid minid : Byte) (edits : List (NamedEdit F)) :
    List Char :=
  (edits.reverse.findSome? (names maxid minid)).getD []

/-- No other entry of the table has this name, ignoring case. -/
def OnlyName (mainNum base : Nat) (edits : List (NamedEdit F))
    (maxid minid : Byte) : Prop :=
  ∀ maxid' minid' : Byte, InTable mainNum base maxid' minid' →
    (maxid', minid') ≠ (maxid, minid) →
      stricmp (installedName maxid minid edits)
        (installedName maxid' minid' edits) ≠ 0

def NoName (mainNum base : Nat) (edits : List (NamedEdit F))
    (text : List Char) : Prop :=
  ∀ maxid minid : Byte, InTable mainNum base maxid minid →
    installedName maxid minid edits = [] ∨
      stricmp text (installedName maxid minid edits) ≠ 0

def edit : NamedEdit F → MsgEdit F
  | .install func maxid minid level _ => .install func maxid minid level
  | .other edit => edit

section Search

/-- A comparison looks at one character more of the second text than the first
one has, and no further. -/
theorem stricmp_append_right {word name : List Char}
    (longer : word.length < name.length) (behind : List Char) :
    stricmp word (name ++ behind) = stricmp word name := by
  induction word generalizing name with
  | nil =>
    obtain ⟨b, name, rfl⟩ := exists_cons_of_length_pos longer
    rfl
  | cons a word induction =>
    obtain ⟨b, name, rfl⟩ :=
      exists_cons_of_length_pos (Nat.zero_lt_of_lt longer)
    rw [cons_append, stricmp, stricmp,
      induction (Nat.lt_of_succ_lt_succ longer)]

theorem findSome?_range_only {β : Type} {search : Nat → Option β}
    {count here : Nat} {found : β} (inside : here < count)
    (hit : search here = some found)
    (others : ∀ index < count, index ≠ here → search index = none) :
    (List.range count).findSome? search = some found := by
  cases outcome : (range count).findSome? search with
  | none =>
    have missed := findSome?_eq_none_iff.mp outcome here
      (mem_range.mpr inside)
    rw [hit] at missed
    exact absurd missed (Option.some_ne_none found)
  | some other =>
    obtain ⟨index, member, hitHere⟩ :=
      exists_of_findSome?_eq_some outcome
    by_cases same : index = here
    · rw [same, hit] at hitHere
      exact hitHere.symm
    · rw [others index (mem_range.mp member) same] at hitHere
      exact absurd hitHere.symm (Option.some_ne_none other)

variable {root : NamedMsgRoot F} {behind : Nat → Nat → List Char}
  {msgname : List Char}

theorem getId_of_only {row index : Nat} (named : msgname ≠ [])
    (rowInside : row < root.mainNum) (indexInside : index < subMsgNum)
    (found : root.hit behind msgname row index =
      some (makeDword (root.msgidBase + row) index))
    (others : ∀ row' < root.mainNum, ∀ index' < subMsgNum,
      (row', index') ≠ (row, index) →
        root.hit behind msgname row' index' = none) :
    root.getId behind msgname = makeDword (root.msgidBase + row) index := by
  have inRow : (range subMsgNum).findSome?
      (fun index => root.hit behind msgname row index) =
        some (makeDword (root.msgidBase + row) index) := by
    refine findSome?_range_only indexInside found ?_
    intro index' inside differ
    refine others row rowInside index' inside ?_
    exact fun same => differ (Prod.mk.inj same).2
  have inTable : ((range root.mainNum).findSome? fun row =>
      (range subMsgNum).findSome? fun index =>
        root.hit behind msgname row index) =
          some (makeDword (root.msgidBase + row) index) := by
    refine findSome?_range_only rowInside inRow ?_
    intro row' inside differ
    refine findSome?_eq_none_iff.mpr ?_
    intro index' member
    refine others row' inside index' (mem_range.mp member) ?_
    exact fun same => differ (Prod.mk.inj same).1
  rw [getId, if_neg named, inTable, Option.getD_some]

theorem getId_eq_noMsgId_iff (named : msgname ≠ []) :
    root.getId behind msgname = noMsgId ↔
      ∀ row < root.mainNum, ∀ index < subMsgNum,
        root.hit behind msgname row index = none := by
  unfold NamedMsgRoot.getId
  rw [if_neg named]
  constructor
  · intro nothing row rowInside index indexInside
    cases outcome : (range root.mainNum).findSome? fun row =>
        (range subMsgNum).findSome? fun index =>
          root.hit behind msgname row index with
    | none =>
      have missed := findSome?_eq_none_iff.mp outcome row
        (mem_range.mpr rowInside)
      exact findSome?_eq_none_iff.mp missed index
        (mem_range.mpr indexInside)
    | some found =>
      rw [outcome, Option.getD_some] at nothing
      obtain ⟨row', _, inRow⟩ := exists_of_findSome?_eq_some outcome
      obtain ⟨index', member, hitHere⟩ :=
        exists_of_findSome?_eq_some inRow
      have small : index' < subMsgNum := mem_range.mp member
      -- The low word of an id that is found is an index of a row.
      unfold NamedMsgRoot.hit at hitHere
      split at hitHere
      · exact absurd hitHere.symm (Option.some_ne_none found)
      · split at hitHere
        · have value := Option.some.inj hitHere
          rw [nothing] at value
          unfold makeDword noMsgId at value
          unfold subMsgNum at small
          omega
        · exact absurd hitHere.symm (Option.some_ne_none found)
  · intro missed
    have nothing : ((range root.mainNum).findSome? fun row =>
        (range subMsgNum).findSome? fun index =>
          root.hit behind msgname row index) = none := by
      refine findSome?_eq_none_iff.mpr ?_
      intro row rowMember
      refine findSome?_eq_none_iff.mpr ?_
      intro index indexMember
      exact missed row (mem_range.mp rowMember) index
        (mem_range.mp indexMember)
    rw [nothing]
    rfl

end Search

section Named

variable {mainNum base : Nat} {defEntry : Option F}
  {edits : List (NamedEdit F)} {root : NamedMsgRoot F}
  {behind : Nat → Nat → List Char}

theorem install_toMsgEntryRoot (func : Option F) (maxid minid : Byte)
    (level : Int) (name : List Char) :
    (root.install func maxid minid level name).2.toMsgEntryRoot =
      (root.toMsgEntryRoot.install func maxid minid level).2 := by
  unfold NamedMsgRoot.install MsgEntryRoot.install
  cases root.getNode maxid minid with
  | none => rfl
  | some node =>
    by_cases unnamed : name = []
    · simp only [if_pos unnamed]
    · simp only [if_neg unnamed]
      rfl

theorem run_toMsgEntryRoot (edits : List (NamedEdit F)) (root : NamedMsgRoot F)
    :
    (edits.foldl apply root).toMsgEntryRoot =
      (edits.map edit).foldl MsgEdit.apply root.toMsgEntryRoot := by
  induction edits generalizing root with
  | nil => rfl
  | cons first edits induction =>
    rw [foldl_cons, map_cons, foldl_cons, induction]
    cases first with
    | install func maxid minid level name =>
      rw [apply, install_toMsgEntryRoot]
      rfl
    | other edit => rfl

theorem run_follows (edits : List (NamedEdit F)) :
    Follows mainNum base defEntry (edits.map edit)
      (edits.foldl apply
        (NamedMsgRoot.create mainNum base defEntry)).toMsgEntryRoot := by
  rw [run_toMsgEntryRoot]
  exact MsgEdit.run_follows (edits.map edit)

theorem installedName_append (edits : List (NamedEdit F)) (edit : NamedEdit F)
    (maxid minid : Byte) :
    installedName maxid minid (edits ++ [edit]) =
      (names maxid minid edit).getD (installedName maxid minid edits) := by
  unfold installedName
  rw [reverse_append, reverse_singleton, singleton_append, findSome?_cons]
  cases names maxid minid edit <;> rfl

/-- The nodes hold what fits of the names the history gives them. -/
def Named (mainNum base : Nat) (edits : List (NamedEdit F))
    (root : NamedMsgRoot F) : Prop :=
  ∀ maxid minid : Byte, InTable mainNum base maxid minid →
    root.name (root.mainIndex maxid.toNat) minid.toNat =
      (installedName maxid minid edits).take netMsgNameSize

theorem install_named
    (follows : Follows mainNum base defEntry (edits.map edit)
      root.toMsgEntryRoot)
    (named : Named mainNum base edits root) (func : Option F)
    (maxid' minid' : Byte) (level : Int) (name : List Char) :
    Named mainNum base (edits ++ [.install func maxid' minid' level name])
      (root.install func maxid' minid' level name).2 := by
  intro maxid minid inside
  have index : ∀ maxid : Int,
      (root.install func maxid' minid' level name).2.mainIndex maxid =
        root.mainIndex maxid := by
    intro maxid
    unfold NamedMsgRoot.install MsgEntryRoot.install
    cases root.getNode maxid' minid' with
    | none => rfl
    | some node => by_cases unnamed : name = [] <;> simp only [unnamed] <;> rfl
  have before := named maxid minid inside
  rw [index, installedName_append, names]
  rcases getNode_cases follows maxid' minid' with
    ⟨_, found⟩ | ⟨outside, found⟩
  · unfold NamedMsgRoot.install
    rw [found]
    by_cases unnamed : name = []
    · rw [if_neg (fun all => all.2.2 unnamed)]
      simp only [if_pos unnamed]
      exact before
    · simp only [if_neg unnamed]
      by_cases same : maxid' = maxid ∧ minid' = minid
      · obtain ⟨rfl, rfl⟩ := same
        rw [if_pos ⟨rfl, rfl, unnamed⟩]
        change (if _ ∧ _ then _ else _ : List Char) = _
        rw [if_pos ⟨rfl, rfl⟩, Option.getD_some, take_eq_take_iff]
        omega
      · rw [if_neg (fun all => same ⟨all.1, all.2.1⟩)]
        change (if _ ∧ _ then _ else _ : List Char) = _
        rw [if_neg]
        · exact before
        · rintro ⟨sameRow, sameIndex⟩
          exact same ⟨mainIndex_toNat_eq_iff.mp sameRow,
            UInt8.toNat_inj.mp sameIndex.symm⟩
  · have elsewhere : ¬ (maxid' = maxid ∧ minid' = minid ∧ name ≠ []) := by
      rintro ⟨rfl, rfl, _⟩
      exact outside inside
    rw [if_neg elsewhere]
    unfold NamedMsgRoot.install
    rw [found]
    exact before

theorem run_named (edits : List (NamedEdit F)) :
    Named mainNum base edits
      (edits.foldl apply (NamedMsgRoot.create mainNum base defEntry)) := by
  induction edits using reverseRecOn with
  | nil => exact fun _ _ _ => rfl
  | append_singleton edits last induction =>
    have follows : Follows mainNum base defEntry (edits.map edit) _ :=
      run_follows edits
    rw [foldl_append]
    cases last with
    | install func maxid minid level name =>
      exact install_named follows induction func maxid minid level name
    | other last =>
      have later : Follows mainNum base defEntry
          ((edits ++ [other last]).map edit) _ :=
        run_follows (edits ++ [.other last])
      intro maxid minid inside
      have here := induction maxid minid inside
      have index : (foldl apply
          (edits.foldl apply (NamedMsgRoot.create mainNum base defEntry))
          [other last]).mainIndex maxid.toNat =
          (edits.foldl apply (NamedMsgRoot.create mainNum base defEntry)
            ).mainIndex maxid.toNat := by
        rw [foldl_append] at later
        unfold MsgEntryRoot.mainIndex
        rw [later.msgidBase_eq, follows.msgidBase_eq]
      rw [index, installedName_append]
      exact here

theorem exists_pair
    (follows : Follows mainNum base defEntry (edits.map edit)
      root.toMsgEntryRoot)
    (rows : mainNum ≤ 256) {row index : Nat} (rowInside : row < root.mainNum)
    (indexInside : index < subMsgNum) :
    ∃ maxid minid : Byte, InTable mainNum base maxid minid ∧
      root.mainIndex maxid.toNat = row ∧ minid.toNat = index := by
  have count := follows.mainNum_eq
  have first := follows.msgidBase_eq
  unfold subMsgNum at indexInside
  have maxidValue : (UInt8.ofNat (base + row)).toNat = (base + row) % 256 :=
    UInt8.toNat_ofNat'
  have minidValue : (UInt8.ofNat index).toNat = index := by
    rw [UInt8.toNat_ofNat']
    omega
  have here : root.mainIndex (UInt8.ofNat (base + row)).toNat = row := by
    unfold MsgEntryRoot.mainIndex
    omega
  refine ⟨UInt8.ofNat (base + row), UInt8.ofNat index, ?_, here, minidValue⟩
  refine (inTable_iff follows).mpr ⟨?_, ?_⟩
  · rw [here]
    exact rowInside
  · rw [minidValue]
    exact indexInside

/-- The text at the node of a pair: its name, or the first 64 characters of it
and whatever stands behind the buffer. -/
theorem nameText_eq (named : Named mainNum base edits root)
    (inside : InTable mainNum base maxid minid) :
    root.nameText behind (root.mainIndex maxid.toNat) minid.toNat =
      if (installedName maxid minid edits).length < netMsgNameSize then
        installedName maxid minid edits
      else
        (installedName maxid minid edits).take netMsgNameSize ++
          behind (root.mainIndex maxid.toNat) minid.toNat := by
  unfold NamedMsgRoot.nameText
  rw [named maxid minid inside]
  by_cases short : (installedName maxid minid edits).length < netMsgNameSize
  · rw [if_pos short, take_of_length_le (Nat.le_of_lt short), if_pos short]
  · rw [if_neg short, if_neg]
    rw [length_take]
    omega

theorem hit_eq (named : Named mainNum base edits root)
    (inside : InTable mainNum base maxid minid) (msgname : List Char) :
    root.hit behind msgname (root.mainIndex maxid.toNat) minid.toNat =
      if installedName maxid minid edits = [] then none
      else if stricmp msgname (root.nameText behind
          (root.mainIndex maxid.toNat) minid.toNat) = 0 then
        some (makeDword (root.msgidBase + root.mainIndex maxid.toNat)
          minid.toNat)
      else none := by
  have emptied : (installedName maxid minid edits).take netMsgNameSize = [] ↔
      installedName maxid minid edits = [] := by
    unfold netMsgNameSize
    simp
  unfold NamedMsgRoot.hit
  simp only [named maxid minid inside, emptied]

/-- A text shorter than the buffer is compared with the whole name, though a
long name is not stored as a whole. -/
theorem stricmp_nameText (named : Named mainNum base edits root)
    (inside : InTable mainNum base maxid minid) {msgname : List Char}
    (short : msgname.length < netMsgNameSize) :
    stricmp msgname (root.nameText behind (root.mainIndex maxid.toNat)
        minid.toNat) =
      stricmp msgname (installedName maxid minid edits) := by
  rw [nameText_eq named inside]
  split
  · rfl
  rename_i long
  have full : ((installedName maxid minid edits).take netMsgNameSize).length =
      netMsgNameSize := by
    rw [length_take]
    omega
  rw [stricmp_append_right (by omega)]
  conv_rhs => rw [← take_append_drop netMsgNameSize
    (installedName maxid minid edits)]
  rw [stricmp_append_right (by omega)]

theorem getName_eq
    (follows : Follows mainNum base defEntry (edits.map edit)
      root.toMsgEntryRoot)
    (named : Named mainNum base edits root)
    (inside : InTable mainNum base maxid minid)
    (short : (installedName maxid minid edits).length < netMsgNameSize) :
    root.getName behind maxid minid =
      some (installedName maxid minid edits) := by
  unfold NamedMsgRoot.getName
  rcases getNode_cases follows maxid minid with ⟨_, found⟩ | ⟨outside, _⟩
  · rw [found, Option.map_some, nameText_eq named inside, if_pos short]
  · exact absurd inside outside

/-- The search for a name that no other entry has ends at its entry, and
answers the base and the row without the cut. -/
theorem getId_eq
    (follows : Follows mainNum base defEntry (edits.map edit)
      root.toMsgEntryRoot)
    (named : Named mainNum base edits root) (rows : mainNum ≤ 256)
    (inside : InTable mainNum base maxid minid)
    (given : installedName maxid minid edits ≠ [])
    (short : (installedName maxid minid edits).length < netMsgNameSize)
    (only : OnlyName mainNum base edits maxid minid) :
    root.getId behind (installedName maxid minid edits) =
      makeDword (root.msgidBase + root.mainIndex maxid.toNat) minid.toNat := by
  have place := (inTable_iff follows).mp inside
  refine getId_of_only given place.1 place.2 ?_ ?_
  · rw [hit_eq named inside, if_neg given, stricmp_nameText named inside short,
      if_pos (stricmp_self _)]
  · intro row rowInside index indexInside differ
    obtain ⟨maxid', minid', inside', rfl, rfl⟩ :=
      exists_pair follows rows rowInside indexInside
    rw [hit_eq named inside']
    split
    · rfl
    · rw [stricmp_nameText named inside' short, if_neg]
      refine only maxid' minid' inside' ?_
      rintro same
      obtain ⟨rfl, rfl⟩ := Prod.mk.inj same
      exact differ rfl

/-- The ids of a pair are found by the name that is read for it. -/
def Resolved (root : NamedMsgRoot F) (behind : Nat → Nat → List Char)
    (maxid minid : Byte) : Prop :=
  ∃ text, root.getName behind maxid minid = some text ∧
    root.getId behind text = makeDword maxid.toNat minid.toNat

/-- The text is what is read at the node of a name that fills its buffer. -/
def RunsOn (root : NamedMsgRoot F) (behind : Nat → Nat → List Char)
    (edits : List (NamedEdit F)) (text : List Char) (maxid minid : Byte) :
    Prop :=
  netMsgNameSize ≤ (installedName maxid minid edits).length ∧
    stricmp text ((installedName maxid minid edits).take netMsgNameSize ++
      behind (root.mainIndex maxid.toNat) minid.toNat) = 0

/-- A name that no other entry has leads back to its ids exactly if the row of
its entry is reached from the base without passing 255.  A text that is no
name is not found exactly if it is not what is read for a name that fills its
buffer. -/
theorem names_resolve_iff (mainNum base : Nat) (rows : mainNum ≤ 256)
    (eightBits : base < 256) (defEntry : Option F)
    (edits : List (NamedEdit F)) (behind : Nat → Nat → List Char)
    (root : NamedMsgRoot F)
    (reached : root =
      edits.foldl apply (NamedMsgRoot.create mainNum base defEntry)) :
    (∀ maxid minid : Byte, InTable mainNum base maxid minid →
      installedName maxid minid edits ≠ [] →
      (installedName maxid minid edits).length < netMsgNameSize →
      OnlyName mainNum base edits maxid minid →
        (Resolved root behind maxid minid ↔ base ≤ maxid.toNat)) ∧
    ∀ text : List Char, NoName mainNum base edits text →
      (root.getId behind text = noMsgId ↔
        text = [] ∨ ∀ maxid minid : Byte, InTable mainNum base maxid minid →
          ¬ RunsOn root behind edits text maxid minid) := by
  subst reached
  have follows : Follows mainNum base defEntry (edits.map edit) _ :=
    run_follows edits
  have named : Named mainNum base edits
      (edits.foldl apply (NamedMsgRoot.create mainNum base defEntry)) :=
    run_named edits
  generalize edits.foldl apply
    (NamedMsgRoot.create mainNum base defEntry) = root at follows named
  constructor
  · intro maxid minid inside given short only
    have read : root.getName behind maxid minid = _ :=
      getName_eq follows named inside short
    have found : root.getId behind (installedName maxid minid edits) = _ :=
      getId_eq follows named rows inside given short only
    have resolved : Resolved root behind maxid minid ↔
        makeDword (root.msgidBase + root.mainIndex maxid.toNat) minid.toNat =
          makeDword maxid.toNat minid.toNat := by
      unfold Resolved
      rw [read, ← found]
      constructor
      · rintro ⟨text, same, answer⟩
        rw [Option.some.inj same]
        exact answer
      · exact fun answer => ⟨_, rfl, answer⟩
    rw [resolved]
    have first := follows.msgidBase_eq
    have small := maxid.toNat_lt
    unfold makeDword MsgEntryRoot.mainIndex
    omega
  · intro text noName
    by_cases empty : text = []
    · refine iff_of_true ?_ (.inl empty)
      unfold NamedMsgRoot.getId
      rw [if_pos empty]
    rw [getId_eq_noMsgId_iff empty, or_iff_right empty]
    constructor
    · rintro missed maxid minid inside ⟨long, same⟩
      have place := (inTable_iff follows).mp inside
      have none := missed _ place.1 _ place.2
      have given : installedName maxid minid edits ≠ [] := by
        intro unnamed
        rw [unnamed] at long
        exact absurd long (by decide)
      rw [hit_eq named inside, if_neg given, nameText_eq named inside,
        if_neg (Nat.not_lt.mpr long), if_pos same] at none
      exact absurd none (Option.some_ne_none _)
    · intro stays row rowInside index indexInside
      obtain ⟨maxid, minid, inside, rfl, rfl⟩ :=
        exists_pair follows rows rowInside indexInside
      rw [hit_eq named inside]
      split
      · rfl
      rename_i given
      have other := (noName maxid minid inside).resolve_left given
      rw [nameText_eq named inside]
      by_cases short :
          (installedName maxid minid edits).length < netMsgNameSize
      · rw [if_pos short, if_neg other]
      · rw [if_neg short, if_neg]
        intro same
        exact stays maxid minid inside ⟨Nat.not_lt.mp short, same⟩

theorem onlyName_single (func : Option F) (maxid minid : Byte) (level : Int)
    {name : List Char} (given : name ≠ []) (visible : stricmp name [] ≠ 0) :
    OnlyName mainNum base [.install func maxid minid level name] maxid
      minid := by
  intro maxid' minid' _ differ
  have own : installedName maxid minid
      [install func maxid minid level name] = name := by
    unfold installedName
    rw [reverse_singleton, findSome?_cons, names, if_pos ⟨rfl, rfl, given⟩]
    rfl
  have other : installedName maxid' minid'
      [install func maxid minid level name] = [] := by
    unfold installedName
    rw [reverse_singleton, findSome?_cons, names, if_neg]
    · rfl
    · rintro ⟨rfl, rfl, _⟩
      exact differ rfl
  rw [own, other]
  exact visible

/-- The name of the first entry of a fresh table leads back to it. -/
theorem names_resolve_login :
    Resolved ([install (some 7) 2 3 0 "login".toList].foldl apply
      (NamedMsgRoot.create 4 2 none)) (fun _ _ => []) 2 3 :=
  ((names_resolve_iff 4 2 (by decide) (by decide) none _
    (fun _ _ => []) _ rfl).1 2 3 (by decide) (by decide) (by decide)
      (onlyName_single (some 7) 2 3 0 (by decide) (by decide))).mpr
        (by decide)

/-- With the base 255 the only entry, of the main id 0, is found under the
main id 256. -/
theorem names_resolve_wrapped :
    (InTable 2 255 0 3 ∧
      installedName 0 3 [install (some 7) 0 3 0 "login".toList] =
        "login".toList ∧
      OnlyName 2 255 [install (some 7) 0 3 0 "login".toList] 0 3) ∧
    (([install (some 7) 0 3 0 "login".toList].foldl apply
      (NamedMsgRoot.create 2 255 none)).getName (fun _ _ => []) 0 3 =
        some "login".toList) ∧
    (([install (some 7) 0 3 0 "login".toList].foldl apply
      (NamedMsgRoot.create 2 255 none)).getId (fun _ _ => []) "login".toList =
        makeDword 256 3) ∧
    makeDword 256 3 ≠ makeDword 0 3 := by
  refine ⟨⟨by decide, by decide, ?_⟩, by decide, ?_, by decide⟩
  · exact onlyName_single (some 7) 0 3 0 (by decide) (by decide)
  · decide +kernel

end Named

end NamedEdit

end NdNet
