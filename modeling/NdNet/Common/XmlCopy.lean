import NdNet.Common.XmlInsert

/-!
# What a copy of an XML tree keeps

`ndxml_copy` makes its copy of nodes that are allocated on the way, below the
new root, and leaves all others alone.  What comes out is the tree without the
attributes whose name or value is empty: the accessors give such a text as
`NULL`, and `ndxml_addattrib` adds nothing for it.
-/

namespace NdNet.Xml

open List

variable {attrs : List (List Char × List Char)}

section Trees

def kept (attrs : List (List Char × List Char)) :
    List (List Char × List Char) :=
  attrs.filter fun attr => !attr.1.isEmpty && !attr.2.isEmpty

mutual

/-- What `ndxml_copy` makes of a tree. -/
def Ndxml.copied : Ndxml → Ndxml
  | .mk name attrs value subs =>
    .mk (name.take maxXmlnameSize) (kept attrs) value (Ndxml.copiedAll subs)

def Ndxml.copiedAll : List Ndxml → List Ndxml
  | [] => []
  | sub :: subs => sub.copied :: Ndxml.copiedAll subs

end

mutual

def Ndxml.Fits : Ndxml → Prop
  | .mk name _ _ subs => name.length < maxXmlnameSize ∧ Ndxml.FitAll subs

def Ndxml.FitAll : List Ndxml → Prop
  | [] => True
  | sub :: subs => sub.Fits ∧ Ndxml.FitAll subs

end

mutual

def Ndxml.Full : Ndxml → Prop
  | .mk _ attrs _ subs =>
    (∀ attr ∈ attrs, attr.1 ≠ [] ∧ attr.2 ≠ []) ∧ Ndxml.FullAll subs

def Ndxml.FullAll : List Ndxml → Prop
  | [] => True
  | sub :: subs => sub.Full ∧ Ndxml.FullAll subs

end

mutual

/-- So many rounds of its loops `ndxml_copy` needs at most. -/
def Ndxml.cost : Ndxml → Nat
  | .mk _ _ _ subs => subs.length + 3 + Ndxml.costAll subs

def Ndxml.costAll : List Ndxml → Nat
  | [] => 0
  | sub :: subs => sub.cost + 1 + Ndxml.costAll subs

end

theorem kept_eq_self_iff :
    kept attrs = attrs ↔ ∀ attr ∈ attrs, attr.1 ≠ [] ∧ attr.2 ≠ [] := by
  rw [kept, filter_eq_self]
  constructor
  · intro all attr member
    simpa using all attr member
  · intro all attr member
    simpa using all attr member

mutual

theorem Ndxml.copied_eq_self_iff (tree : Ndxml) (fits : tree.Fits) :
    tree.copied = tree ↔ tree.Full := by
  cases tree with
  | mk name attrs value subs =>
    rw [Ndxml.copied, take_of_length_le (Nat.le_of_lt fits.1),
      Ndxml.mk.injEq, kept_eq_self_iff,
      Ndxml.copiedAll_eq_self_iff subs fits.2]
    constructor
    · rintro ⟨-, all, -, children⟩
      exact ⟨all, children⟩
    · rintro ⟨all, children⟩
      exact ⟨rfl, all, rfl, children⟩

theorem Ndxml.copiedAll_eq_self_iff (subs : List Ndxml)
    (fits : Ndxml.FitAll subs) :
    Ndxml.copiedAll subs = subs ↔ Ndxml.FullAll subs := by
  cases subs with
  | nil => exact iff_of_true rfl trivial
  | cons sub subs =>
    rw [Ndxml.copiedAll, cons.injEq, Ndxml.copied_eq_self_iff sub fits.1,
      Ndxml.copiedAll_eq_self_iff subs fits.2]
    exact Iff.rfl

end

end Trees

def Entry.node : Entry → Nat
  | .self x => x
  | .sub x => x

namespace Store

section Trees

/-- The fields of a node with so many children, but for its parent. -/
structure Shows (node : XmlNode) (name : List Char)
    (attrs : List (List Char × List Char)) (value : List Char) (count : Nat) :
    Prop where
  attrNum : node.attrNum = attrs.length
  subNum : node.subNum = count
  name : node.name = name
  attrs : node.attrs = attrs
  value : node.value = value

mutual

/-- The tree that stands at a node; the numbers of its nodes are in a range. -/
def Holds (s : Store) (low high x : Nat) : Ndxml → Prop
  | .mk name attrs value subs => low ≤ x ∧ x < high ∧
      ∃ node list, s.nodes x = some node ∧
        Shows node name attrs value subs.length ∧
        s.links.Ring (.sub x) (list.map .self) ∧
        HoldsAll s low high x list subs

def HoldsAll (s : Store) (low high x : Nat) : List Nat → List Ndxml → Prop
  | [], [] => True
  | c :: list, sub :: subs =>
    ((s.nodes c).bind XmlNode.parent = some x ∧ Holds s low high c sub) ∧
      HoldsAll s low high x list subs
  | _, _ => False

end

def SameLinks (s s' : Store) (e : Entry) : Prop :=
  s'.links.next e = s.links.next e ∧ s'.links.prev e = s.links.prev e

/-- Nothing has been written to the trees of some nodes. -/
structure Unwritten (s s' : Store) (low high : Nat) : Prop where
  nodes : ∀ y, low ≤ y → y < high → s'.nodes y = s.nodes y
  heads : ∀ y, low ≤ y → y < high → SameLinks s s' (.sub y)
  members : ∀ y d, low ≤ y ∧ y < high → low ≤ d ∧ d < high →
    (s.nodes d).bind XmlNode.parent = some y → SameLinks s s' (.self d)

variable {s s' : Store} {low high x : Nat}

theorem HoldsAll.members {list : List Nat} {subs : List Ndxml}
    (held : s.HoldsAll low high x list subs) :
    ∀ c ∈ list, low ≤ c ∧ c < high ∧
      (s.nodes c).bind XmlNode.parent = some x := by
  induction list generalizing subs with
  | nil =>
    intro c member
    cases member
  | cons d list induction =>
    cases subs with
    | nil => exact held.elim
    | cons sub subs =>
      intro c member
      rcases mem_cons.mp member with rfl | inside
      · cases sub
        obtain ⟨⟨isChild, above, below, -⟩, -⟩ := held
        exact ⟨above, below, isChild⟩
      · exact induction held.2 c inside

theorem HoldsAll.length_eq {list : List Nat} {subs : List Ndxml}
    (held : s.HoldsAll low high x list subs) : list.length = subs.length := by
  induction list generalizing subs with
  | nil =>
    cases subs with
    | nil => rfl
    | cons sub subs => exact held.elim
  | cons c list induction =>
    cases subs with
    | nil => exact held.elim
    | cons sub subs => exact congrArg (· + 1) (induction held.2)

theorem HoldsAll.append {list more : List Nat} {subs others : List Ndxml}
    (held : s.HoldsAll low high x list subs)
    (further : s.HoldsAll low high x more others) :
    s.HoldsAll low high x (list ++ more) (subs ++ others) := by
  induction list generalizing subs with
  | nil =>
    cases subs with
    | nil => exact further
    | cons sub subs => exact held.elim
  | cons c list induction =>
    cases subs with
    | nil => exact held.elim
    | cons sub subs => exact ⟨held.1, induction held.2⟩

mutual

theorem Holds.mono {low' high' : Nat} {x : Nat} (tree : Ndxml)
    (held : s.Holds low high x tree) (lower : low' ≤ low)
    (higher : high ≤ high') : s.Holds low' high' x tree := by
  cases tree with
  | mk name attrs value subs =>
    obtain ⟨above, below, node, list, present, shows, ring, children⟩ := held
    exact ⟨by omega, by omega, node, list, present, shows, ring,
      HoldsAll.mono subs children lower higher⟩

theorem HoldsAll.mono {low' high' : Nat} {x : Nat} {list : List Nat}
    (subs : List Ndxml) (held : s.HoldsAll low high x list subs)
    (lower : low' ≤ low) (higher : high ≤ high') :
    s.HoldsAll low' high' x list subs := by
  cases subs with
  | nil =>
    cases list with
    | nil => exact held
    | cons c list => exact held.elim
  | cons sub subs =>
    cases list with
    | nil => exact held.elim
    | cons c list =>
      exact ⟨⟨held.1.1, Holds.mono sub held.1.2 lower higher⟩,
        HoldsAll.mono subs held.2 lower higher⟩

end

mutual

theorem Holds.frame {x : Nat} (tree : Ndxml) (held : s.Holds low high x tree)
    (same : Unwritten s s' low high) : s'.Holds low high x tree := by
  cases tree with
  | mk name attrs value subs =>
    obtain ⟨above, below, node, list, present, shows, ring, children⟩ := held
    refine ⟨above, below, node, list, ?_, shows, ?_,
      HoldsAll.frame subs children same⟩
    · rw [same.nodes x above below, present]
    · apply ring.congr
      intro e member
      rcases mem_cons.mp member with rfl | inside
      · exact same.heads x above below
      · obtain ⟨c, found, rfl⟩ := mem_map.mp inside
        obtain ⟨aboveChild, belowChild, isChild⟩ := children.members c found
        exact same.members x c ⟨above, below⟩ ⟨aboveChild, belowChild⟩ isChild

theorem HoldsAll.frame {x : Nat} {list : List Nat} (subs : List Ndxml)
    (held : s.HoldsAll low high x list subs)
    (same : Unwritten s s' low high) : s'.HoldsAll low high x list subs := by
  cases subs with
  | nil =>
    cases list with
    | nil => exact held
    | cons c list => exact held.elim
  | cons sub subs =>
    cases list with
    | nil => exact held.elim
    | cons c list =>
      obtain ⟨above, below, isChild⟩ :=
        held.members c mem_cons_self
      refine ⟨⟨?_, Holds.frame sub held.1.2 same⟩,
        HoldsAll.frame subs held.2 same⟩
      rw [same.nodes c above below]
      exact isChild

end

mutual

theorem Holds.unique {low' high' : Nat} {x : Nat} (tree : Ndxml) {other : Ndxml}
    (held : s.Holds low high x tree)
    (again : s.Holds low' high' x other) : tree = other := by
  cases tree with
  | mk name attrs value subs =>
    cases other with
    | mk name' attrs' value' subs' =>
      obtain ⟨-, -, node, list, present, shows, ring, children⟩ := held
      obtain ⟨-, -, node', list', present', shows', ring', children'⟩ :=
        again
      obtain rfl := Option.some.inj (present.symm.trans present')
      obtain rfl := map_injective_iff.mpr self_injective
        (ring.unique ring')
      rw [← shows.name, ← shows.attrs, ← shows.value, ← shows'.name,
        ← shows'.attrs, ← shows'.value,
        HoldsAll.unique subs children children']

theorem HoldsAll.unique {low' high' : Nat} {x : Nat} {list : List Nat}
    (subs : List Ndxml) {others : List Ndxml}
    (held : s.HoldsAll low high x list subs)
    (again : s.HoldsAll low' high' x list others) : subs = others := by
  cases list with
  | nil =>
    cases subs with
    | nil =>
      cases others with
      | nil => rfl
      | cons other others => exact again.elim
    | cons sub subs => exact held.elim
  | cons c list =>
    cases subs with
    | nil => exact held.elim
    | cons sub subs =>
      cases others with
      | nil => exact again.elim
      | cons other others =>
        rw [Holds.unique sub held.1.2 again.1.2,
          HoldsAll.unique subs held.2 again.2]

end

end Trees

variable {name value : List Char} {tree : Ndxml}

section Copies

/-- The nodes below a number, and their entries, are as they were. -/
structure Kept (s s' : Store) (bound : Nat) : Prop where
  nodes : ∀ y < bound, s'.nodes y = s.nodes y
  links : ∀ e : Entry, e.node < bound → SameLinks s s' e

variable {s s' : Store} {low high new bound : Nat}

theorem Kept.trans {later : Store} {bound' : Nat} (first : Kept s s' bound')
    (second : Kept s' later bound) (within : bound ≤ bound') :
    Kept s later bound where
  nodes := fun y below =>
    (second.nodes y below).trans (first.nodes y (by omega))
  links := by
    intro e below
    obtain ⟨next, prev⟩ := first.links e (by omega)
    obtain ⟨next', prev'⟩ := second.links e below
    exact ⟨next'.trans next, prev'.trans prev⟩

theorem Kept.unwritten (kept : Kept s s' bound) (within : high ≤ bound) :
    Unwritten s s' low high where
  nodes := fun y _ below => kept.nodes y (by omega)
  heads := fun y _ below => kept.links _ (show y < bound by omega)
  members := fun _ d _ inside _ => kept.links _ (show d < bound by omega)

theorem Kept.ring {x : Nat} (kept : Kept s s' bound) (below : x < bound)
    {list : List Nat} (members : ∀ c ∈ list, c < bound)
    (ring : s.links.Ring (.sub x) (list.map .self)) :
    s'.links.Ring (.sub x) (list.map .self) := by
  apply ring.congr
  intro e member
  rcases mem_cons.mp member with rfl | inside
  · exact kept.links _ below
  · obtain ⟨c, found, rfl⟩ := mem_map.mp inside
    exact kept.links _ (members c found)

/-- A tree of nodes that have been allocated one after the other, the root
first. -/
def Built (s : Store) (x : Nat) : Ndxml → Prop
  | .mk name attrs value subs => x < s.fresh ∧
      ∃ node list, s.nodes x = some node ∧
        Shows node name attrs value subs.length ∧
        s.links.Ring (.sub x) (list.map .self) ∧
        s.HoldsAll (x + 1) s.fresh x list subs

theorem Built.holds {x : Nat} (built : s.Built x tree) :
    s.Holds x s.fresh x tree := by
  cases tree with
  | mk name attrs value subs =>
    obtain ⟨below, node, list, present, shows, ring, children⟩ := built
    exact ⟨Nat.le_refl _, below, node, list, present, shows, ring,
      HoldsAll.mono subs children (Nat.le_succ x) (Nat.le_refl _)⟩

/-- Where `ndxml_insert` writes: the two nodes, and the entries around the end
of the list. -/
theorem ndxmlInsert_same {parent child : Nat} {list : List Nat}
    (ring : s.links.Ring (.sub parent) (list.map .self)) {e : Entry}
    (notChild : e ≠ .self child) (notHead : e ≠ .sub parent)
    (outside : ∀ c ∈ list, e ≠ .self c) :
    SameLinks s (s.ndxmlInsert parent child) e := by
  apply LinkTable.insert_agrees s.links notChild ?_ notHead
  rintro rfl
  rcases mem_cons.mp ring.prev_mem with atHead | inside
  · exact notHead atHead
  · obtain ⟨c, found, same⟩ := mem_map.mp inside
    exact outside c found same.symm

theorem Shows.insert (parent child : Nat) {y : Nat} {node : XmlNode}
    {count : Nat} (shows : Shows node name attrs value count)
    (present : s.nodes y = some node) :
    ∃ node', (s.ndxmlInsert parent child).nodes y = some node' ∧
      Shows node' name attrs value
        (if y = parent then count + 1 else count) := by
  refine ⟨{ node with
      parent := if y = child then some parent else node.parent
      subNum := if y = parent then node.subNum + 1 else node.subNum }, ?_,
    ⟨shows.attrNum, ?_, shows.name, shows.attrs, shows.value⟩⟩
  · rw [ndxmlInsert, adopted_nodes]
    exact congrArg _ present
  · by_cases atParent : y = parent
    · rw [if_pos atParent, if_pos atParent, shows.subNum]
      rfl
    · rw [if_neg atParent, if_neg atParent, shows.subNum]

section Insertion

variable {child : Nat} {list : List Nat} {subs : List Ndxml}

theorem ndxmlInsert_unwritten (ring : s.links.Ring (.sub new) (list.map .self))
    (children : s.HoldsAll (new + 1) child new list subs)
    (apart : new + 1 ≤ low ∧ high ≤ child ∨ new < child ∧ child + 1 ≤ low) :
    Unwritten s (s.ndxmlInsert new child) low high where
  nodes := fun y above below =>
    adopted_nodes_of_ne _ _ (by omega) (by omega)
  heads := by
    intro y above below
    apply ndxmlInsert_same ring Entry.noConfusion
    · intro equal
      have := Entry.sub.inj equal
      omega
    · intro c _
      exact Entry.noConfusion
  members := by
    intro y d between inside isChild
    apply ndxmlInsert_same ring
    · intro equal
      have := Entry.self.inj equal
      omega
    · exact Entry.noConfusion
    · intro c member equal
      have isOther := (children.members c member).2.2
      rw [← Entry.self.inj equal, isChild] at isOther
      have := Option.some.inj isOther
      omega

theorem Built.below {x : Nat} (built : s.Built x tree) :
    x < s.fresh := by
  cases tree
  exact built.1

theorem Built.live {x : Nat} (built : s.Built x tree) :
    s.Live x := by
  cases tree
  obtain ⟨-, node, -, present, -⟩ := built
  exact live_of_nodes present

theorem Built.inserted (ring : s.links.Ring (.sub new) (list.map .self))
    (children : s.HoldsAll (new + 1) child new list subs) (behind : new < child)
    (built : s.Built child tree) :
    (s.ndxmlInsert new child).Built child tree := by
  cases tree with
  | mk name attrs value others =>
    obtain ⟨below, node, list', present, shows, ring', grandchildren⟩ := built
    obtain ⟨node', present', shows'⟩ :=
      shows.insert new child present
    rw [if_neg (by omega)] at shows'
    refine ⟨below, node', list', present', shows', ?_,
      HoldsAll.frame others grandchildren
        (ndxmlInsert_unwritten ring children
          (Or.inr ⟨behind, Nat.le_refl _⟩))⟩
    apply ring'.congr
    intro e member
    rcases mem_cons.mp member with rfl | inside
    · apply ndxmlInsert_same ring Entry.noConfusion
      · intro equal
        have := Entry.sub.inj equal
        omega
      · intro c _
        exact Entry.noConfusion
    · obtain ⟨d, found, rfl⟩ := mem_map.mp inside
      have above := (grandchildren.members d found).1
      apply ndxmlInsert_same ring
      · intro equal
        have := Entry.self.inj equal
        omega
      · exact Entry.noConfusion
      · intro c member equal
        have := Entry.self.inj equal
        have := (children.members c member).2.1
        omega

theorem Built.insert {node : XmlNode} (present : s.nodes new = some node)
    (shows : Shows node name attrs value subs.length)
    (ring : s.links.Ring (.sub new) (list.map .self))
    (children : s.HoldsAll (new + 1) child new list subs) (behind : new < child)
    (built : s.Built child tree) :
    (s.ndxmlInsert new child).Built new
      (.mk name attrs value (subs ++ [tree])) := by
  have absent : child ∉ list := by
    intro member
    have := (children.members child member).2.1
    omega
  have alone : Entry.self child ∉ Entry.sub new :: list.map .self := by
    intro member
    rcases mem_cons.mp member with equal | inside
    · cases equal
    · exact absent ((mem_map_of_injective self_injective).mp inside)
  obtain ⟨node', present', shows'⟩ :=
    shows.insert new child present
  rw [if_pos rfl] at shows'
  refine ⟨Nat.lt_trans behind built.below, node', list ++ [child], present',
    ?_, ?_, ?_⟩
  · rw [length_append]
    exact shows'
  · rw [map_append]
    exact ring.addTail _ alone
  · apply HoldsAll.append
    · exact HoldsAll.mono subs
        (HoldsAll.frame subs children (ndxmlInsert_unwritten ring children
          (Or.inl ⟨Nat.le_refl _, Nat.le_refl _⟩)))
        (Nat.le_refl _) (Nat.le_of_lt built.below)
    · refine ⟨⟨?_, ?_⟩, trivial⟩
      · obtain ⟨copied, found⟩ := built.live.nodes
        rw [ndxmlInsert, adopted_nodes]
        exact (congrArg (fun node => (Option.map _ node).bind XmlNode.parent)
          found).trans (if_pos rfl)
      · exact Holds.mono tree (built.inserted ring children behind).holds
          behind (Nat.le_refl _)

end Insertion

theorem copyAttrs_eq (attrs : List (List Char × List Char)) (node : XmlNode) :
    copyAttrs attrs node =
      { node with attrs := node.attrs ++ kept attrs
                  attrNum := node.attrNum + (kept attrs).length } := by
  induction attrs generalizing node with
  | nil =>
    rw [kept, filter_nil, append_nil]
    exact congrArg (fun count => { node with attrNum := count })
      (Int.add_zero _).symm
  | cons attr attrs induction =>
    change copyAttrs attrs (addAttr node (nonEmpty attr.1)
      (nonEmpty attr.2)) = _
    rw [induction]
    obtain ⟨name, value⟩ := attr
    cases name with
    | nil => rfl
    | cons c name =>
      cases value with
      | nil => rfl
      | cons d value =>
        have counted : (node.attrNum + 1 + (kept attrs).length : Int) =
            node.attrNum + ((kept attrs).length + 1 : Nat) := by
          omega
        change _ = { node with
          attrs := node.attrs ++ (c :: name, d :: value) :: kept attrs
          attrNum := node.attrNum + ((kept attrs).length + 1 : Nat) }
        rw [← counted, append_cons node.attrs]
        rfl

def copyStart (s : Store) (node : XmlNode) : Store :=
  (s.allocXml.1.modify s.fresh fun new =>
    { new with name := node.name.take maxXmlnameSize
               value := (nonEmpty node.value).getD [] }).modify s.fresh
    (copyAttrs (node.attrs.take node.attrNum.toNat))

theorem nonEmpty_getD (text : List Char) : (nonEmpty text).getD [] = text := by
  cases text <;> rfl

theorem copyStart_kept (node : XmlNode) :
    Kept s (s.copyStart node) s.fresh where
  nodes := by
    intro y below
    have differs : y ≠ s.fresh := by omega
    rw [copyStart, modify_nodes, if_neg differs, Option.map_id, modify_nodes,
      if_neg differs, Option.map_id, allocXml_nodes, if_neg differs]
    rfl
  links := by
    intro e below
    have notSelf : e ≠ .self s.fresh := by
      rintro rfl
      exact Nat.lt_irrefl _ below
    have notSub : e ≠ .sub s.fresh := by
      rintro rfl
      exact Nat.lt_irrefl _ below
    obtain ⟨next, prev⟩ :=
      LinkTable.init_agrees (s.links.init (.self s.fresh)) notSub
    obtain ⟨next', prev'⟩ := LinkTable.init_agrees s.links notSelf
    exact ⟨next.trans next', prev.trans prev'⟩

theorem copyStart_built {node : XmlNode} {count : Nat}
    (shows : Shows node name attrs value count) :
    (s.copyStart node).Built s.fresh
      (.mk (name.take maxXmlnameSize) (kept attrs) value []) := by
  refine ⟨Nat.lt_succ_self _, copyAttrs (node.attrs.take node.attrNum.toNat)
    { initXmlNode with name := node.name.take maxXmlnameSize
                       value := (nonEmpty node.value).getD [] },
    [], ?_, ?_, ?_, trivial⟩
  · rw [copyStart, modify_nodes, if_pos rfl, modify_nodes, if_pos rfl,
      allocXml_nodes, if_pos rfl]
    rfl
  · rw [copyAttrs_eq, shows.attrNum, shows.attrs, shows.name, shows.value,
      nonEmpty_getD, Int.toNat_natCast, take_length]
    exact ⟨Int.zero_add _, rfl, rfl, nil_append _, rfl⟩
  · apply LinkTable.ring_nil
    · exact Function.update_self _ _ _
    · exact Function.update_self _ _ _

theorem ndxmlInsert_kept {child : Nat} {list : List Nat} {subs : List Ndxml}
    (ring : s.links.Ring (.sub new) (list.map .self))
    (children : s.HoldsAll (new + 1) child new list subs)
    (behind : new < child) : Kept s (s.ndxmlInsert new child) new where
  nodes := fun y below => adopted_nodes_of_ne _ _ (by omega) (by omega)
  links := by
    intro e below
    apply ndxmlInsert_same ring
    · rintro rfl
      exact absurd below (Nat.lt_asymm behind)
    · rintro rfl
      exact Nat.lt_irrefl _ below
    · rintro c member rfl
      have above := (children.members c member).1
      exact absurd below (by simpa [Entry.node] using Nat.le_of_succ_le above)

mutual

/-- `ndxml_copy` makes the copy of a tree behind all nodes there are, by
induction on the tree. -/
theorem copy_built (tree : Ndxml) {s : Store} {low high x fuel : Nat}
    (held : s.Holds low high x tree) (within : high ≤ s.fresh)
    (enough : tree.cost ≤ fuel) :
    ∃ s', ndxmlCopy fuel s x = some (s', s.fresh) ∧
      s'.Built s.fresh tree.copied ∧ Kept s s' s.fresh := by
  cases tree with
  | mk name attrs value subs =>
    obtain ⟨-, below, node, list, present, shows, ring, children⟩ := held
    rw [Ndxml.cost] at enough
    obtain ⟨less, rfl⟩ : ∃ less, fuel = less + 1 := ⟨fuel - 1, by omega⟩
    have start := copyStart_kept (s := s) node
    have inside : ∀ c ∈ list, c < s.fresh := by
      intro c member
      have := (children.members c member).2.1
      omega
    obtain ⟨s', copied, built, kept⟩ := copySubs_built subs []
      (by rw [start.nodes x (by omega), present])
      (by rw [shows.subNum, length_nil, Nat.zero_add])
      (fun c member => inside c member)
      (start.ring (by omega) inside ring)
      (HoldsAll.frame subs children (start.unwritten within))
      within below (copyStart_built shows)
      (show [].length + subs.length + 2 + Ndxml.costAll subs ≤ less by
        rw [length_nil]
        omega)
    refine ⟨s', ?_, built, start.trans kept (Nat.le_refl _)⟩
    rw [ndxmlCopy, present]
    exact congrArg (Option.map fun s' => (s', s.fresh)) copied

theorem copySubs_built (rest : List Ndxml) (before : List Nat) {s : Store}
    {low high x new fuel : Nat} {node : XmlNode} {list : List Nat}
    {name value : List Char} {attrs : List (List Char × List Char)}
    {done : List Ndxml} (present : s.nodes x = some node)
    (counts : node.subNum = (before.length + rest.length : Nat))
    (inside : ∀ c ∈ before ++ list, c < new)
    (ring : s.links.Ring (.sub x) ((before ++ list).map .self))
    (children : s.HoldsAll low high x list rest) (within : high ≤ new)
    (below : x < high) (built : s.Built new (.mk name attrs value done))
    (enough : before.length + rest.length + 2 + Ndxml.costAll rest ≤ fuel) :
    ∃ s', copySubs fuel s x new before.length = some s' ∧
      s'.Built new (.mk name attrs value (done ++ Ndxml.copiedAll rest)) ∧
      Kept s s' new := by
  obtain ⟨less, rfl⟩ : ∃ less, fuel = less + 1 := ⟨fuel - 1, by omega⟩
  cases rest with
  | nil =>
    refine ⟨s, ?_, ?_, ⟨fun _ _ => rfl, fun _ _ => ⟨rfl, rfl⟩⟩⟩
    · rw [copySubs, present]
      exact if_pos (Int.le_of_eq counts)
    · rw [Ndxml.copiedAll, append_nil]
      exact built
  | cons sub rest =>
    cases list with
    | nil => exact children.elim
    | cons c list =>
      rw [length_cons] at counts
      rw [Ndxml.costAll, length_cons] at enough
      have behind := built.below
      obtain ⟨between, copied, subBuilt, kept⟩ :=
        copy_built sub children.1.2 (by omega)
          (show sub.cost ≤ less by omega)
      obtain ⟨-, root, newList, newPresent, newShows, newRing,
        newChildren⟩ := built
      have newRing' := kept.ring behind
        (fun c member => (newChildren.members c member).2.1) newRing
      have newChildren' := HoldsAll.frame done newChildren
        (kept.unwritten (Nat.le_refl _))
      have grown := Built.insert
        (by rw [kept.nodes new behind, newPresent]) newShows newRing'
        newChildren' behind subBuilt
      have keptToo := kept.trans
        (ndxmlInsert_kept newRing' newChildren' behind)
        (Nat.le_of_lt behind)
      have same : before ++ c :: list = (before ++ [c]) ++ list := by
        rw [append_assoc]
        rfl
      obtain ⟨s', rest_, built', kept'⟩ := copySubs_built rest
        (before ++ [c])
        (by rw [keptToo.nodes x (by omega), present])
        (by
          rw [counts, length_append, length_singleton]
          congr 1
          omega)
        (by rwa [← same])
        (by
          rw [← same]
          exact keptToo.ring (by omega) inside ring)
        (HoldsAll.frame rest children.2 (keptToo.unwritten within))
        within below grown
        (show (before ++ [c]).length + rest.length + 2 +
            Ndxml.costAll rest ≤ less by
          rw [length_append, length_singleton]
          omega)
      refine ⟨s', ?_, ?_, keptToo.trans kept' (Nat.le_refl _)⟩
      · have found : s.ndxmlRefsubi less x before.length = some (some c) := by
          have room : (before ++ c :: list).length < less := by
            rw [length_append, length_cons, children.2.length_eq]
            omega
          refine (ndxmlGetnodei_eq ring room).trans ?_
          rw [getElem?_append_right (Nat.le_refl _), Nat.sub_self]
          rfl
        rw [copySubs, present]
        dsimp only
        rw [if_neg (by omega), found]
        dsimp only
        rw [copied]
        rw [length_append, length_singleton] at rest_
        exact rest_
      · rw [append_assoc] at built'
        exact built'

end

/-- For every tree that stands in a store, however deep: the copy that
`ndxml_copy` returns is the same tree if and only if no attribute has an empty
name or value. -/
theorem ndxmlCopy_same_iff {x fuel : Nat} {tree : Ndxml}
    (held : s.Holds 0 s.fresh x tree) (fits : tree.Fits)
    (enough : tree.cost ≤ fuel) :
    (∃ s' new, ndxmlCopy fuel s x = some (s', new) ∧
      s'.Holds s.fresh s'.fresh new tree) ↔ tree.Full := by
  obtain ⟨s', copied, built, -⟩ := copy_built tree held (Nat.le_refl _) enough
  rw [← Ndxml.copied_eq_self_iff tree fits]
  constructor
  · rintro ⟨again, new, result, same⟩
    rw [copied] at result
    cases result
    exact Holds.unique _ built.holds same
  · intro same
    rw [same] at built
    exact ⟨s', s.fresh, copied, built.holds⟩

/-- An attribute with an empty value is missing in the copy. -/
theorem ndxmlCopy_drops_empty :
    ∃ s s' node new, editRun 8 empty [.initroot,
        .addattrib 0 (some ['k']) (some [])] = some s ∧
      s.nodes 0 = some node ∧ node.attrs = [(['k'], [])] ∧
      node.attrNum = 1 ∧ ndxmlCopy 8 s 0 = some (s', 1) ∧
      s'.nodes 1 = some new ∧ new.attrs = [] ∧ new.attrNum = 0 :=
  ⟨_, _, _, _, rfl, rfl, rfl, rfl, rfl, rfl, rfl, rfl⟩

def smallTree : Ndxml :=
  .mk [] [(['k'], ['v'])] [] [.mk ['a'] [] ['1'] []]

def smallStore : Store :=
  (empty.allocXml.1.ndxmlAddattrib 0 (some ['k']) (some ['v'])
    ).ndxmlAddsubnode 0 (some ['a']) (some ['1'])

theorem ndxmlCopy_same_smallTree :
    ∃ s new, ndxmlCopy 11 smallStore 0 = some (s, new) ∧
      s.Holds 2 s.fresh new smallTree := by
  have leaf : smallStore.Holds 0 2 1 (.mk ['a'] [] ['1'] []) :=
    ⟨by decide, by decide, _, [], rfl, ⟨rfl, rfl, rfl, rfl, rfl⟩,
      ⟨⟨rfl, rfl⟩, by decide⟩, trivial⟩
  have held : smallStore.Holds 0 2 0 smallTree :=
    ⟨by decide, by decide, _, [1], rfl, ⟨rfl, rfl, rfl, rfl, rfl⟩,
      ⟨⟨⟨rfl, rfl⟩, rfl, rfl⟩, by decide⟩, ⟨rfl, leaf⟩, trivial⟩
  exact (ndxmlCopy_same_iff held ⟨by decide, ⟨by decide, trivial⟩, trivial⟩
    (by decide)).mpr ⟨by decide, ⟨by decide, trivial⟩, trivial⟩

end Copies

end Store

end NdNet.Xml
