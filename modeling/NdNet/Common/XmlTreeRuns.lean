import Mathlib.Data.List.Perm.Subperm
import NdNet.Common.XmlTreeSound

/-!
# Every run of edits keeps the XML trees in order

After any sequence of operations the counters of a node are the lengths of its
lists and its children point back to it, as long as three operations are not
called where they go wrong: `ndxml_insert_ex` in front of the end of a list,
`ndxml_merge` of a root with children, and `ndxml_delall_attrib` of a node with
attributes or children.
-/

namespace NdNet.Xml

open NdNet.Str List

variable {fuel : Nat} {xmlParent : Option Nat}

variable {links : LinkTable Entry} {stop : Nat → Nat → Bool}
variable {found : Option Nat}

namespace Store

section Sound

/-- The lists are in order and the counters are right. -/
structure Sound (s : Store) (subs : Family) (height : Nat → Nat) : Prop where
  wired : s.Wired subs height
  counted : s.Counted subs

variable {s : Store} {subs : Family} {height : Nat → Nat} {x y c : Nat}

theorem Sound.adopt (sound : s.Sound subs height) {parent child : Nat}
    (liveParent : s.Live parent) (liveChild : s.Live child)
    (unlinked : s.Unlinked child)
    (below : ¬ Relation.ReflTransGen (s.Edge subs) child parent)
    {links : LinkTable Entry} {front back : List Nat}
    (split : subs parent = front ++ back)
    (ring : links.Ring (.sub parent) ((front ++ child :: back).map .self))
    (same : ∀ e, e ≠ .self child → e ∉ around subs parent →
      links.next e = s.links.next e ∧ links.prev e = s.links.prev e) :
    ((s.relink links).adopted parent child).Sound
      (Function.update subs parent (front ++ child :: back))
      (s.raised subs height parent child) where
  wired := sound.wired.adopt liveParent liveChild unlinked below split ring same
  counted := by
    intro y node present
    rw [adopted_nodes] at present
    obtain ⟨before, old, rfl⟩ := Option.map_eq_some_iff.mp present
    obtain ⟨subNum, attrNum⟩ := sound.counted y before old
    refine ⟨?_, attrNum⟩
    by_cases at_ : y = parent
    · subst at_
      rw [if_pos rfl, Function.update_self, subNum, split]
      simp only [length_append, length_cons]
      push_cast
      omega
    · rw [if_neg at_, Function.update_of_ne at_]
      exact subNum

theorem Wired.insert_same (wired : s.Wired subs height) {place : Entry}
    (live : s.Live x) (member : place ∈ around subs x)
    (shape : links = s.links.add (.self c) place ∨
      links = s.links.addTail (.self c) place) :
    ∀ e, e ≠ .self c → e ∉ around subs x →
      links.next e = s.links.next e ∧ links.prev e = s.links.prev e := by
  intro e notNode outside
  obtain ⟨next, prev⟩ := wired.neighbours live member
  have notPlace : e ≠ place := fun same => outside (same ▸ member)
  rcases shape with rfl | rfl
  · exact LinkTable.insert_agrees s.links notNode notPlace
      fun same => outside (same ▸ next)
  · exact LinkTable.insert_agrees s.links notNode
      (fun same => outside (same ▸ prev)) notPlace

theorem Wired.alone (wired : s.Wired subs height) (unlinked : s.Unlinked c)
    (live : s.Live x) : Entry.self c ∉ Entry.sub x :: (subs x).map .self :=
  fun member => wired.unlinked_apart unlinked live (mem_around_self.mp member)

theorem Sound.insert (sound : s.Sound subs height) {parent child : Nat}
    (liveParent : s.Live parent) (liveChild : s.Live child)
    (unlinked : s.Unlinked child)
    (below : ¬ Relation.ReflTransGen (s.Edge subs) child parent) :
    (s.ndxmlInsert parent child).Sound
      (Function.update subs parent (subs parent ++ [child]))
      (s.raised subs height parent child) := by
  have ring := (sound.wired.ring parent liveParent).addTail (.self child)
    (sound.wired.alone unlinked liveParent)
  rw [show (subs parent).map Entry.self ++ [.self child] =
    (subs parent ++ [child]).map .self by rw [map_append]; rfl] at ring
  exact sound.adopt liveParent liveChild unlinked below
    (append_nil _).symm ring
    (sound.wired.insert_same liveParent mem_cons_self (Or.inr rfl))

theorem Sound.modify (sound : s.Sound subs height) {write : XmlNode → XmlNode}
    (keeps : ∀ node, (write node).parent = node.parent ∧
      (write node).subNum = node.subNum ∧
      (node.attrNum = node.attrs.length →
        (write node).attrNum = (write node).attrs.length)) :
    (s.modify x write).Sound subs height where
  wired := sound.wired.modify fun node => (keeps node).1
  counted := by
    intro y node present
    rw [modify_nodes] at present
    obtain ⟨before, old, rfl⟩ := Option.map_eq_some_iff.mp present
    obtain ⟨subNum, attrNum⟩ := sound.counted y before old
    by_cases at_ : y = x
    · rw [if_pos at_]
      obtain ⟨-, sameNum, attrs⟩ := keeps before
      exact ⟨sameNum.trans subNum, attrs attrNum⟩
    · rw [if_neg at_]
      exact ⟨subNum, attrNum⟩

end Sound

section Freeing

/-- What freeing a node does: the rest of the store stays in order, nodes are
freed or left alone, and those that do not stand lower are left alone. -/
structure Freed (s s' : Store) (subs : Family) (height : Nat → Nat) : Prop where
  wired : s'.Wired subs height
  nodes : ∀ y, s'.nodes y = s.nodes y ∨ s'.nodes y = none

theorem Freed.live {s s' : Store} {subs : Family} {height : Nat → Nat}
    (freed : Freed s s' subs height) {y : Nat} (live : s'.Live y) :
    s.Live y := by
  rcases freed.nodes y with same | gone
  · rw [Live, ← same]
    exact live
  · rw [Live, gone] at live
    cases live

theorem LinkTable.Ring.next_child {x c : Nat} {rest : List Nat}
    (ring : links.Ring (.sub x) ((c :: rest).map .self)) :
    links.next (.sub x) = .self c ∧
      links.next (.self c) = ((rest.map Entry.self).head?).getD (.sub x) := by
  refine ⟨ring.1.1.1, ?_⟩
  cases rest with
  | nil => exact ring.1.2.1
  | cons d rest => exact ring.1.2.1.1

/-- Both loops of `dealloc_xml`, by induction on the fuel: the node that is
freed stands in no list, its list is emptied before it is freed, and its
children are taken out of the list before they are freed in turn. -/
theorem dealloc_freed (fuel : Nat) :
    (∀ {s s' : Store} {subs : Family} {height : Nat → Nat} {x : Nat},
      s.Wired subs height → s.Live x → (∀ y, s.Live y → x ∉ subs y) →
      deallocXml fuel s x = some s' →
      Freed s s' subs height ∧ ¬ s'.Live x ∧
        ∀ y, height x ≤ height y → y ≠ x → s'.nodes y = s.nodes y) ∧
    (∀ {s s' : Store} {subs : Family} {height : Nat → Nat} {x : Nat},
      s.Wired subs height → s.Live x →
      releaseSubs fuel s x (s.links.next (.sub x)) = some s' →
      Freed s s' (Function.update subs x []) height ∧
        ∀ y, height x ≤ height y → s'.nodes y = s.nodes y) := by
  induction fuel with
  | zero =>
    constructor
    · intro s s' subs height x _ _ _ result
      cases result
    · intro s s' subs height x _ _ result
      cases result
  | succ fuel induction =>
    obtain ⟨deallocates, releases⟩ := induction
    constructor
    · intro s s' subs height x wired live apart result
      obtain ⟨emptied, released, rfl⟩ := Option.map_eq_some_iff.mp result
      obtain ⟨freed, kept⟩ := releases wired live released
      have outside : ∀ y, emptied.Live y → y ≠ x →
          x ∉ Function.update subs x [] y := by
        intro y liveY differs
        rw [Function.update_of_ne differs]
        exact apart y (freed.live liveY)
      have wired' := freed.wired.free outside
      refine ⟨⟨?_, ?_⟩, ?_, ?_⟩
      · refine wired'.reassign fun y liveY => ?_
        rw [Function.update_of_ne ((free_live _ _ _).mp liveY).2]
      · intro y
        rw [free_nodes]
        by_cases at_ : y = x
        · rw [if_pos at_]
          exact Or.inr rfl
        · rw [if_neg at_]
          exact freed.nodes y
      · rw [free_live]
        exact fun both => both.2 rfl
      · intro y above differs
        rw [free_nodes, if_neg differs]
        exact kept y above
    · intro s s' subs height x wired live result
      have ring := wired.ring x live
      cases children : subs x with
      | nil =>
        rw [children] at ring
        have closed : s.links.next (.sub x) = .sub x := ring.1.1
        rw [closed, releaseSubs, if_pos rfl] at result
        cases result
        have same : Function.update subs x [] = subs := by
          rw [← children]
          exact Function.update_eq_self _ _
        rw [same]
        exact ⟨⟨wired, fun y => Or.inl rfl⟩, fun y _ => rfl⟩
      | cons c rest =>
        rw [children] at ring
        obtain ⟨first, second⟩ := LinkTable.Ring.next_child ring
        rw [first, releaseSubs, if_neg Entry.noConfusion] at result
        have member : c ∈ subs x := by
          rw [children]
          exact mem_cons_self
        have distinct := wired.nodup live
        rw [children] at distinct
        have absent := (nodup_cons.mp distinct).1
        have wiredOut := @Wired.del _ _ _ _ _ wired live [] rest children
        have apart : ∀ y, s.Live y →
            c ∉ Function.update subs x rest y := by
          intro y liveY inY
          by_cases at_ : y = x
          · subst at_
            rw [Function.update_self] at inY
            exact absent inY
          · rw [Function.update_of_ne at_] at inY
            exact at_ (wired.parent_unique liveY live inY member)
        cases out : deallocXml fuel
            (s.relink (s.links.del (.self c))) c with
        | none =>
          rw [out] at result
          cases result
        | some between =>
          rw [out] at result
          obtain ⟨freed, -, kept⟩ := deallocates wiredOut
            (wired.childLive live member) apart out
          have lower := wired.falls x live c member
          have same : ∀ y, height x ≤ height y →
              between.nodes y = s.nodes y := by
            intro y above
            refine kept y (by omega) ?_
            rintro rfl
            omega
          have alive : between.Live x := by
            rw [Live, same x (Nat.le_refl _)]
            exact live
          have position : s.links.next (.self c) =
              between.links.next (.sub x) := by
            have ringBetween := freed.wired.ring x alive
            rw [Function.update_self] at ringBetween
            rw [second]
            cases rest with
            | nil => exact ringBetween.1.1.symm
            | cons d rest => exact ringBetween.1.1.1.symm
          rw [position] at result
          obtain ⟨rest_, kept_⟩ := releases freed.wired alive result
          rw [Function.update_idem] at rest_
          refine ⟨⟨rest_.wired, ?_⟩, ?_⟩
          · intro y
            rcases rest_.nodes y with kept | gone
            · rw [kept]
              exact freed.nodes y
            · exact Or.inr gone
          · intro y above
            rw [kept_ y above, same y above]

variable {s s' : Store} {subs : Family} {height : Nat → Nat} {x c : Nat}

theorem Freed.counted (freed : Freed s s' subs height)
    (counted : s.Counted subs) : s'.Counted subs := by
  intro y node present
  rcases freed.nodes y with same | gone
  · exact counted y node (same.symm.trans present)
  · rw [gone] at present
    cases present

theorem Counted.remove (counted : s.Counted subs) {front back : List Nat}
    (split : subs x = front ++ c :: back) :
    (s.modify x fun node => { node with subNum := node.subNum - 1 }).Counted
      (Function.update subs x (front ++ back)) := by
  intro y node present
  rw [modify_nodes] at present
  obtain ⟨before, old, rfl⟩ := Option.map_eq_some_iff.mp present
  obtain ⟨subNum, attrNum⟩ := counted y before old
  by_cases at_ : y = x
  · subst at_
    rw [if_pos rfl, Function.update_self]
    refine ⟨?_, attrNum⟩
    rw [subNum, split]
    simp only [length_append, length_cons]
    push_cast
    omega
  · rw [if_neg at_, Function.update_of_ne at_]
    exact ⟨subNum, attrNum⟩

theorem Wired.removed_apart (wired : s.Wired subs height) (live : s.Live x)
    {front back : List Nat} (split : subs x = front ++ c :: back) :
    ∀ y, s.Live y → c ∉ Function.update subs x (front ++ back) y := by
  intro y liveY inY
  have member : c ∈ subs x := by
    rw [split]
    simp
  have distinct := wired.nodup live
  rw [split] at distinct
  by_cases at_ : y = x
  · subst at_
    rw [Function.update_self] at inY
    exact (nodup_cons.mp (nodup_middle.mp distinct)).1 inY
  · rw [Function.update_of_ne at_] at inY
    exact at_ (wired.parent_unique liveY live inY member)

theorem Sound.delFound (sound : s.Sound subs height) (live : s.Live x)
    {found : Option (Option Nat)}
    (children : ∀ c, found = some (some c) → c ∈ subs x)
    (result : s.delFound fuel x found = some s') :
    ∃ subs', s'.Sound subs' height := by
  cases found with
  | none => cases result
  | some found =>
    cases found with
    | none =>
      cases result
      exact ⟨subs, sound⟩
    | some c =>
      have member := children c rfl
      obtain ⟨front, back, split⟩ := append_of_mem member
      have wired : ((s.relink (s.links.del (.self c))).modify x fun node =>
          { node with subNum := node.subNum - 1 }).Wired
            (Function.update subs x (front ++ back)) height :=
        (sound.wired.del live split).modify fun _ => rfl
      have counted : (s.relink (s.links.del (.self c))).Counted subs :=
        sound.counted
      have alive : ∀ y, ((s.relink (s.links.del (.self c))).modify x
          fun node => { node with subNum := node.subNum - 1 }).Live y ↔
            s.Live y := fun y => modify_live _ _ _ _
      obtain ⟨freed, -, -⟩ := (dealloc_freed fuel).1 wired
        ((alive c).mpr (sound.wired.childLive live member))
        (fun y liveY => sound.wired.removed_apart live split y
          ((alive y).mp liveY)) result
      exact ⟨_, freed.wired, freed.counted (counted.remove split)⟩

theorem Sound.delAllChildren (sound : s.Sound subs height) (live : s.Live x)
    (result : s.ndxmlDelAllChildren fuel x = some s') :
    ∃ subs', s'.Sound subs' height := by
  obtain ⟨emptied, released, rfl⟩ := Option.map_eq_some_iff.mp result
  obtain ⟨freed, kept⟩ := (dealloc_freed fuel).2 sound.wired live released
  refine ⟨Function.update subs x [], freed.wired.modify fun _ => rfl, ?_⟩
  intro y node present
  rw [modify_nodes] at present
  obtain ⟨before, old, rfl⟩ := Option.map_eq_some_iff.mp present
  by_cases at_ : y = x
  · subst at_
    rw [kept y (Nat.le_refl _)] at old
    rw [if_pos rfl, Function.update_self]
    exact ⟨rfl, (sound.counted y before old).2⟩
  · rw [if_neg at_, Function.update_of_ne at_]
    rcases freed.nodes y with same | gone
    · exact sound.counted y before (same.symm.trans old)
    · rw [gone] at old
      cases old

theorem Sound.delallChildren (sound : s.Sound subs height) (live : s.Live x) :
    (s.ndxmlDelallChildren x).Sound (Function.update subs x []) height where
  wired := (sound.wired.delInit_head live).modify fun _ => rfl
  counted := by
    intro y node present
    rw [ndxmlDelallChildren, modify_nodes] at present
    obtain ⟨before, old, rfl⟩ := Option.map_eq_some_iff.mp present
    obtain ⟨subNum, attrNum⟩ := sound.counted y before old
    by_cases at_ : y = x
    · subst at_
      rw [if_pos rfl, Function.update_self]
      exact ⟨rfl, attrNum⟩
    · rw [if_neg at_, Function.update_of_ne at_]
      exact ⟨subNum, attrNum⟩

theorem Wired.release (wired : s.Wired subs height)
    (apart : ∀ y, s.Live y → c ∉ subs y) :
    ((s.relink (s.links.init (.self c))).modify c fun node =>
      { node with parent := none }).Wired subs height := by
  have alive : ∀ y, ((s.relink (s.links.init (.self c))).modify c fun node =>
      { node with parent := none }).Live y → s.Live y :=
    fun y live => (modify_live _ _ _ _).mp live
  have others : ∀ e, e ≠ Entry.self c →
      (s.links.init (.self c)).next e = s.links.next e ∧
        (s.links.init (.self c)).prev e = s.links.prev e :=
    fun e differs => LinkTable.init_agrees s.links differs
  exact
    { ring := by
        intro y live
        refine (wired.ring y (alive y live)).congr fun e member => others e ?_
        rintro rfl
        exact apart y (alive y live) (mem_around_self.mp member)
      child := by
        intro y live d member
        obtain ⟨node, present, parent⟩ := wired.child y (alive y live) d member
        have differs : d ≠ c := by
          rintro rfl
          exact apart y (alive y live) member
        exact ⟨node, by
          rw [modify_nodes, if_neg differs]
          exact congrArg _ present, parent⟩
      loose := by
        intro y node present orphan
        by_cases at_ : y = c
        · subst at_
          exact ⟨Function.update_self _ _ _, Function.update_self _ _ _⟩
        · rw [modify_nodes, if_neg at_] at present
          obtain ⟨before, old, rfl⟩ := Option.map_eq_some_iff.mp present
          obtain ⟨next, prev⟩ := wired.loose y before old orphan
          obtain ⟨sameNext, samePrev⟩ := others (.self y)
            fun same => at_ (Entry.self.inj same)
          exact ⟨sameNext.trans next, samePrev.trans prev⟩
      used := fun y live => wired.used y (alive y live)
      falls := fun y live => wired.falls y (alive y live) }

theorem Sound.unlinkChild (sound : s.Sound subs height) (live : s.Live x)
    (member : c ∈ subs x) :
    ∃ subs', (((s.relink (s.links.delInit (.self c))).modify c fun node =>
      { node with parent := none }).modify x fun node =>
        { node with subNum := node.subNum - 1 }).Sound subs' height := by
  obtain ⟨front, back, split⟩ := append_of_mem member
  have out := sound.wired.del live split
  have released := out.release (sound.wired.removed_apart live split)
  have counted : ((s.relink (s.links.delInit (.self c))).modify c fun node =>
      { node with parent := none }).Counted subs := by
    intro y node present
    rw [modify_nodes] at present
    obtain ⟨before, old, rfl⟩ := Option.map_eq_some_iff.mp present
    have right := sound.counted y before old
    by_cases at_ : y = c
    · rw [if_pos at_]
      exact right
    · rw [if_neg at_]
      exact right
  exact ⟨_, released.modify fun _ => rfl, counted.remove split⟩

end Freeing

section Searching

variable {s s' : Store} {subs : Family} {height : Nat → Nat} {x c : Nat}

theorem seek_list (rest : List Nat) {start : Entry}
    (linked : s.links.Linked start (rest.map .self) (.sub x)) {fuel index : Nat}
    (result : s.seek x stop fuel index (s.links.next start) = some found) :
    (∀ c, found = some c →
      ∃ place : Nat, rest[place]? = some c ∧ stop (index + place) c = true) ∧
    (found = none → ∀ place c, rest[place]? = some c →
      stop (index + place) c = false) := by
  induction rest generalizing start fuel index with
  | nil =>
    cases fuel with
    | zero => cases result
    | succ fuel =>
      rw [linked.1, seek, if_pos rfl] at result
      cases result
      constructor
      · intro c absent
        cases absent
      · intro _ place c member
        cases member
  | cons d rest induction =>
    cases fuel with
    | zero => cases result
    | succ fuel =>
      rw [linked.1.1, seek, if_neg Entry.noConfusion] at result
      by_cases stops : stop index d = true
      · rw [if_pos stops] at result
        cases result
        constructor
        · intro c same
          cases same
          exact ⟨0, rfl, stops⟩
        · intro absent
          cases absent
      · rw [if_neg stops] at result
        obtain ⟨hit, miss⟩ := induction linked.2 result
        constructor
        · intro c same
          obtain ⟨place, member, accepted⟩ := hit c same
          refine ⟨place + 1, member, ?_⟩
          rw [← accepted]
          congr 1
          omega
        · intro absent place c member
          cases place with
          | zero =>
            cases member
            exact Bool.eq_false_iff.mpr stops
          | succ place =>
            have := miss absent place c member
            rw [← this]
            congr 1
            omega

theorem Wired.search (wired : s.Wired subs height) (live : s.Live x)
        (result : s.search fuel x stop = some found) :
    (∀ c, found = some c →
      ∃ place : Nat, (subs x)[place]? = some c ∧ stop place c = true) ∧
    (found = none → ∀ (place : Nat) (c : Nat), (subs x)[place]? = some c →
      stop place c = false) := by
  have both := seek_list (subs x) (wired.ring x live).1 result
  simpa only [Nat.zero_add] using both

theorem Wired.search_mem (wired : s.Wired subs height) (live : s.Live x)
    (result : s.search fuel x stop = some (some c)) : c ∈ subs x := by
  obtain ⟨place, member, -⟩ := (wired.search live result).1 c rfl
  exact mem_of_getElem? member

theorem Wired.loose_of_parent (wired : s.Wired subs height) (live : s.Live c)
    (absent : (xmlParent <|> (s.nodes c).bind XmlNode.parent) = none) :
    s.links.next (.self c) = .self c ∧ s.links.prev (.self c) = .self c := by
  obtain ⟨node, present⟩ := live.nodes
  apply wired.loose c node present
  rw [present] at absent
  cases xmlParent with
  | none => exact absent
  | some parent => cases absent

theorem Sound.unlink (sound : s.Sound subs height) (live : s.Live c) {ret : Int}
    (result : s.ndxmlUnlink fuel c xmlParent = some (s', ret)) :
    ∃ subs', s'.Sound subs' height ∧ (ret = 0 → ∀ y, s'.Live y → c ∉ subs' y) ∧
      ∀ y, s'.Live y ↔ s.Live y := by
  rw [ndxmlUnlink] at result
  cases parent : xmlParent <|> (s.nodes c).bind XmlNode.parent with
  | none =>
    rw [parent] at result
    obtain ⟨next, prev⟩ := sound.wired.loose_of_parent live parent
    rw [LinkTable.delInit_alone next prev] at result
    cases result
    exact ⟨subs, sound, fun _ y liveY =>
      sound.wired.unlinked_apart next liveY, fun y => Iff.rfl⟩
  | some parent_ =>
    rw [parent] at result
    dsimp only at result
    by_cases liveParent : s.Live parent_
    · rw [if_neg (not_not_intro liveParent)] at result
      cases sought : s.search fuel parent_ fun _ child => child == c with
      | none =>
        rw [sought] at result
        cases result
      | some found =>
        rw [sought] at result
        cases found with
        | none =>
          cases result
          exact ⟨subs, sound, fun same => absurd same (by decide),
            fun y => Iff.rfl⟩
        | some d =>
          obtain ⟨place, member, same⟩ :=
            (sound.wired.search liveParent sought).1 d rfl
          obtain rfl : d = c := by simpa using same
          cases result
          have inside := mem_of_getElem? member
          obtain ⟨subs', out⟩ :=
            sound.unlinkChild liveParent inside
          refine ⟨subs', out, fun _ y liveY => ?_, fun y => ?_⟩
          · refine out.wired.unlinked_apart ?_ liveY
            exact Function.update_self _ _ _
          · exact (modify_live _ _ _ _).trans (modify_live _ _ _ _)
    · rw [if_pos liveParent] at result
      cases result

theorem Sound.delxml (sound : s.Sound subs height) (live : s.Live c)
        (result : s.ndxmlDelxml fuel c xmlParent = some s') :
    ∃ subs', s'.Sound subs' height := by
  rw [ndxmlDelxml] at result
  cases parent : xmlParent <|> (s.nodes c).bind XmlNode.parent with
  | none =>
    rw [parent] at result
    obtain ⟨next, prev⟩ := sound.wired.loose_of_parent live parent
    rw [LinkTable.del_alone next prev] at result
    obtain ⟨freed, -, -⟩ := (dealloc_freed fuel).1 sound.wired live
      (fun y liveY => sound.wired.unlinked_apart next liveY) result
    exact ⟨_, freed.wired, freed.counted sound.counted⟩
  | some parent_ =>
    rw [parent] at result
    dsimp only at result
    cases unlinked : s.ndxmlUnlink fuel c (some parent_) with
    | none =>
      rw [unlinked] at result
      cases result
    | some pair =>
      obtain ⟨between, ret⟩ := pair
      rw [unlinked] at result
      dsimp only at result
      obtain ⟨subs', soundBetween, apart, alive⟩ :=
        sound.unlink live unlinked
      by_cases done : ret = 0
      · rw [if_pos done] at result
        obtain ⟨freed, -, -⟩ := (dealloc_freed fuel).1 soundBetween.wired
          ((alive c).mpr live) (apart done) result
        exact ⟨_, freed.wired, freed.counted soundBetween.counted⟩
      · rw [if_neg done] at result
        cases result
        exact ⟨subs', soundBetween⟩

end Searching

section Making

variable {s s' : Store} {subs : Family} {height : Nat → Nat} {x c : Nat}

def Root (s : Store) (x : Nat) : Prop :=
  ∃ node, s.nodes x = some node ∧ node.parent = none

/-- A tree has been made in the store, and what was there has been left
alone. -/
structure Made (s s' : Store) (new : Nat) : Prop where
  sound : ∃ subs height, s'.Sound subs height
  fresh : ¬ s.Live new
  root : s'.Root new
  keeps : ∀ y, s.Live y → s'.nodes y = s.nodes y

/-- A node without a parent has got children. -/
structure Grown (s s' : Store) (parent : Nat) : Prop where
  sound : ∃ subs height, s'.Sound subs height
  root : s'.Root parent
  keeps : ∀ y, s.Live y → y ≠ parent → s'.nodes y = s.nodes y

theorem Live.of_nodes_eq {y : Nat} (live : s.Live y)
    (same : s'.nodes y = s.nodes y) : s'.Live y := by
  rw [Live, same]
  exact live

theorem Made.grow {later : Store} {new : Nat} (made : Made s s' new)
    (grown : Grown s' later new) : Made s later new where
  sound := grown.sound
  fresh := made.fresh
  root := grown.root
  keeps := by
    intro y live
    have differs : y ≠ new := by
      rintro rfl
      exact made.fresh live
    have same := made.keeps y live
    rw [grown.keeps y (live.of_nodes_eq same) differs, same]

theorem Grown.trans {later : Store} {root : Nat} (first : Grown s s' root)
    (second : Grown s' later root) : Grown s later root where
  sound := second.sound
  root := second.root
  keeps := by
    intro y live differs
    have same := first.keeps y live differs
    rw [second.keeps y (live.of_nodes_eq same) differs, same]

theorem Wired.not_above (wired : s.Wired subs height) (unlinked : s.Unlinked x)
    (differs : c ≠ x) :
    ¬ Relation.ReflTransGen (s.Edge subs) c x := by
  intro above
  rcases Relation.ReflTransGen.cases_tail above with same | ⟨y, -, edge⟩
  · exact differs same.symm
  · exact wired.unlinked_apart unlinked edge.1 edge.2

theorem Root.live (root : s.Root x) : s.Live x := by
  obtain ⟨node, present, -⟩ := root
  exact live_of_nodes present

theorem Root.unlinked (root : s.Root x) (wired : s.Wired subs height) :
    s.Unlinked x := by
  obtain ⟨node, present, orphan⟩ := root
  exact (wired.loose x node present orphan).1

theorem Made.insert {root new : Nat} (isRoot : s.Root root)
    (made : Made s s' new) : Grown s (s'.ndxmlInsert root new) root := by
  obtain ⟨subs, height, sound⟩ := made.sound
  obtain ⟨node, present, orphan⟩ := isRoot
  have liveRoot : s.Live root := live_of_nodes present
  have differs : new ≠ root := by
    rintro rfl
    exact made.fresh liveRoot
  have presentLater : s'.nodes root = some node := by
    rw [made.keeps root liveRoot, present]
  have rootLater : s'.Root root := ⟨node, presentLater, orphan⟩
  have adopted := sound.insert rootLater.live made.root.live
    (made.root.unlinked sound.wired)
    (sound.wired.not_above (rootLater.unlinked sound.wired) differs)
  have grownRoot : (s'.ndxmlInsert root new).nodes root =
      some { node with
        parent := if root = new then some root else node.parent
        subNum := if root = root then node.subNum + 1 else node.subNum } := by
    rw [ndxmlInsert, adopted_nodes]
    exact congrArg _ presentLater
  refine ⟨⟨_, _, adopted⟩,
    ⟨_, grownRoot, (if_neg differs.symm).trans orphan⟩, ?_⟩
  · intro y live notRoot
    have notNew : y ≠ new := by
      rintro rfl
      exact made.fresh live
    exact (adopted_nodes_of_ne _ _ notRoot notNew).trans (made.keeps y live)

theorem Sound.allocXml (sound : s.Sound subs height) :
    s.allocXml.1.Sound (Function.update subs s.fresh []) height where
  wired := sound.wired.allocXml
  counted := by
    intro y node present
    rw [allocXml_nodes] at present
    by_cases at_ : y = s.fresh
    · rw [if_pos at_] at present
      cases present
      rw [at_, Function.update_self]
      exact ⟨rfl, rfl⟩
    · rw [if_neg at_] at present
      rw [Function.update_of_ne at_]
      exact sound.counted y node present

theorem Sound.not_fresh (sound : s.Sound subs height) : ¬ s.Live s.fresh :=
  fun live => Nat.lt_irrefl _ (sound.wired.used s.fresh live)

theorem Sound.made_allocXml (sound : s.Sound subs height) :
    Made s s.allocXml.1 s.fresh where
  sound := ⟨_, _, sound.allocXml⟩
  fresh := sound.not_fresh
  root := ⟨initXmlNode, by rw [allocXml_nodes, if_pos rfl], rfl⟩
  keeps := by
    intro y live
    rw [allocXml_nodes, if_neg]
    rintro rfl
    exact sound.not_fresh live

theorem Made.modify {new : Nat} (made : Made s s' new)
    {write : XmlNode → XmlNode}
    (keeps : ∀ node, (write node).parent = node.parent ∧
      (write node).subNum = node.subNum ∧
      (node.attrNum = node.attrs.length →
        (write node).attrNum = (write node).attrs.length)) :
    Made s (s'.modify new write) new where
  sound := by
    obtain ⟨subs, height, sound⟩ := made.sound
    exact ⟨subs, height, sound.modify keeps⟩
  fresh := made.fresh
  root := by
    obtain ⟨node, present, orphan⟩ := made.root
    refine ⟨write node, ?_, (keeps node).1.trans orphan⟩
    rw [modify_nodes, if_pos rfl, present]
    rfl
  keeps := by
    intro y live
    have differs : y ≠ new := by
      rintro rfl
      exact made.fresh live
    rw [modify_nodes, if_neg differs, Option.map_id, made.keeps y live]
    rfl

theorem addAttr_keeps (name value : Option (List Char)) (node : XmlNode) :
    (addAttr node name value).parent = node.parent ∧
      (addAttr node name value).subNum = node.subNum ∧
      (node.attrNum = node.attrs.length →
        (addAttr node name value).attrNum =
          (addAttr node name value).attrs.length) := by
  cases name with
  | none => exact ⟨rfl, rfl, id⟩
  | some name =>
    cases value with
    | none => exact ⟨rfl, rfl, id⟩
    | some value =>
      refine ⟨rfl, rfl, fun right => ?_⟩
      dsimp only [addAttr]
      rw [right, length_append, length_singleton]
      push_cast
      rfl

theorem addAttrs_keeps {α : Type} (names values : α → Option (List Char))
    (attrs : List α) (node : XmlNode) :
    (attrs.foldl (fun node attr => addAttr node (names attr) (values attr))
        node).parent = node.parent ∧
      (attrs.foldl (fun node attr => addAttr node (names attr) (values attr))
        node).subNum = node.subNum ∧
      (node.attrNum = node.attrs.length →
        (attrs.foldl (fun node attr => addAttr node (names attr) (values attr))
          node).attrNum =
          (attrs.foldl (fun node attr =>
            addAttr node (names attr) (values attr)) node).attrs.length) := by
  induction attrs generalizing node with
  | nil => exact ⟨rfl, rfl, id⟩
  | cons attr attrs induction =>
    obtain ⟨parent, subNum, counts⟩ :=
      addAttr_keeps (names attr) (values attr) node
    obtain ⟨parents, subNums, others⟩ :=
      induction (addAttr node (names attr) (values attr))
    exact ⟨parents.trans parent, subNums.trans subNum,
      fun right => others (counts right)⟩

theorem Sound.made_createXmlnode (sound : s.Sound subs height)
    {name value : Option (List Char)} {new : Nat}
    (result : s.createXmlnode name value = (s', some new)) :
    Made s s' new := by
  cases name with
  | none => cases result
  | some name =>
    cases result
    exact sound.made_allocXml.modify fun node => ⟨rfl, rfl, id⟩

/-- `ndxml_copy` makes a tree; by induction on the fuel, together with its loop
over the children, which adds one copy after the other. -/
theorem copy_made (fuel : Nat) :
    (∀ {s s' : Store} {subs : Family} {height : Nat → Nat} {x new : Nat},
      s.Sound subs height → ndxmlCopy fuel s x = some (s', new) →
      Made s s' new) ∧
    (∀ {s s' : Store} {subs : Family} {height : Nat → Nat}
      {x new index : Nat}, s.Sound subs height → s.Root new →
      copySubs fuel s x new index = some s' → Grown s s' new) := by
  induction fuel with
  | zero =>
    constructor
    · intro s s' subs height x new _ result
      cases result
    · intro s s' subs height x new index _ _ result
      cases result
  | succ fuel induction =>
    obtain ⟨copies, grows⟩ := induction
    constructor
    · intro s s' subs height x new sound result
      rw [ndxmlCopy] at result
      cases present : s.nodes x with
      | none =>
        rw [present] at result
        cases result
      | some node =>
        rw [present] at result
        dsimp only at result
        cases created : s.createXmlnode (some node.name)
            (nonEmpty node.value) with
        | mk between fresh =>
          rw [created] at result
          cases fresh with
          | none => cases result
          | some fresh =>
            obtain ⟨after, copied, same⟩ :=
              Option.map_eq_some_iff.mp result
            cases same
            have made := (sound.made_createXmlnode created).modify
              (addAttrs_keeps (fun attr => nonEmpty attr.1)
                (fun attr => nonEmpty attr.2)
                (node.attrs.take node.attrNum.toNat))
            obtain ⟨_, _, soundMade⟩ := made.sound
            exact made.grow (grows soundMade made.root copied)
    · intro s s' subs height x new index sound root result
      rw [copySubs] at result
      cases present : s.nodes x with
      | none =>
        rw [present] at result
        cases result
      | some node =>
        rw [present] at result
        dsimp only at result
        by_cases done : node.subNum ≤ index
        · rw [if_pos done] at result
          cases result
          exact ⟨⟨_, _, sound⟩, root, fun y _ _ => rfl⟩
        · rw [if_neg done] at result
          cases sought : s.ndxmlRefsubi fuel x index with
          | none =>
            rw [sought] at result
            cases result
          | some found =>
            rw [sought] at result
            cases found with
            | none => exact grows sound root result
            | some sub =>
              dsimp only at result
              cases copied : ndxmlCopy fuel s sub with
              | none =>
                rw [copied] at result
                cases result
              | some pair =>
                obtain ⟨between, subNew⟩ := pair
                rw [copied] at result
                have first := (copies sound copied).insert root
                obtain ⟨_, _, soundLater⟩ := first.sound
                exact first.trans
                  (grows soundLater first.root result)

mutual

/-- So does `parse_xmlbuf`; by induction on what it reads. -/
theorem Sound.made_parsed {s : Store} {subs : Family} {height : Nat → Nat}
    (sound : s.Sound subs height) (xmlnode : Ndxml) :
    Made s (parsed s xmlnode).1 (parsed s xmlnode).2 := by
  cases xmlnode with
  | mk name attrs value children =>
    have made := sound.made_allocXml.modify fun node =>
      addAttrs_keeps (fun attr => some attr.1) (fun attr => some attr.2)
        attrs { node with name, value }
    obtain ⟨_, _, soundMade⟩ := made.sound
    exact made.grow (soundMade.grown_parsedSubs made.root children)

theorem Sound.grown_parsedSubs {s : Store} {subs : Family} {height : Nat → Nat}
    (sound : s.Sound subs height) {x : Nat} (root : s.Root x)
    (children : List Ndxml) :
    Grown s (parsedSubs s x children) x := by
  cases children with
  | nil => exact ⟨⟨_, _, sound⟩, root, fun y _ _ => rfl⟩
  | cons sub children =>
    have first := (sound.made_parsed sub).insert root
    obtain ⟨_, _, soundLater⟩ := first.sound
    exact first.trans (soundLater.grown_parsedSubs first.root children)

end

end Making

section Edits

/-- The nodes of the entries of a list; no list has a head for an entry. -/
def entryNodes : List Entry → Option (List Nat)
  | [] => some []
  | .self c :: entries => (entryNodes entries).map (c :: ·)
  | .sub _ :: _ => none

def childList (s : Store) (x : Nat) : Option (List Nat) :=
  (s.links.walk (.sub x) s.fresh (s.links.next (.sub x))).bind entryNodes

/-- Every node has the right counters, and its children point back to it. -/
def TreeSound (s : Store) : Prop :=
  ∀ x node, s.nodes x = some node →
    ∃ subs, s.childList x = some subs ∧
      node.subNum = subs.length ∧ node.attrNum = node.attrs.length ∧
      ∀ c ∈ subs, ∃ child, s.nodes c = some child ∧ child.parent = some x

def Over (s : Store) (x c : Nat) : Prop :=
  s.Live x ∧ ∃ subs, s.childList x = some subs ∧ c ∈ subs

/-- The operations on trees and their arguments. -/
inductive Edit where
  | initroot
  | addnode (xmlroot : Nat) (name value : Option (List Char))
  | addsubnode (parent : Nat) (name value : Option (List Char))
  | insert (parent child : Nat)
  | insertEx (parent child : Nat) (index : Int)
  | insertAfter (parent insertNode brother : Nat)
  | insertBefore (parent insertNode brother : Nat)
  | merge (host merged : Nat)
  | unlink (node : Nat) (xmlParent : Option Nat)
  | delxml (node : Nat) (xmlParent : Option Nat)
  | delnode (xmlroot : Nat) (name : List Char)
  | delnodei (xmlroot : Nat) (index : Int)
  | delsubnode (parent : Nat) (name : List Char)
  | delsubnodei (parent : Nat) (index : Int)
  | delAllChildren (parent : Nat)
  | delallChildren (xml : Nat)
  | addattrib (parent : Nat) (name value : Option (List Char))
  | setattrval (parent : Nat) (name value : Option (List Char))
  | setattrvali (parent : Nat) (index : Int) (value : Option (List Char))
  | delattrib (parent : Nat) (name : List Char)
  | delattribi (parent : Nat) (index : Int)
  | delallAttrib (xml : Nat)
  | copy (node : Nat)
  | fromText (code : CodeType) (text : List Char)

def Edit.nodes : Edit → List Nat
  | .initroot => []
  | .addnode x _ _ => [x]
  | .addsubnode x _ _ => [x]
  | .insert parent child => [parent, child]
  | .insertEx parent child _ => [parent, child]
  | .insertAfter parent insertNode brother => [parent, insertNode, brother]
  | .insertBefore parent insertNode brother => [parent, insertNode, brother]
  | .merge host merged => [host, merged]
  | .unlink node xmlParent => node :: xmlParent.toList
  | .delxml node xmlParent => node :: xmlParent.toList
  | .delnode x _ => [x]
  | .delnodei x _ => [x]
  | .delsubnode x _ => [x]
  | .delsubnodei x _ => [x]
  | .delAllChildren x => [x]
  | .delallChildren x => [x]
  | .addattrib x _ _ => [x]
  | .setattrval x _ _ => [x]
  | .setattrvali x _ _ => [x]
  | .delattrib x _ => [x]
  | .delattribi x _ => [x]
  | .delallAttrib x => [x]
  | .copy x => [x]
  | .fromText _ _ => []

/-- What an operation does.  A root is a node of its own that `ndxml_initroot`
sets up like any other. -/
def apply (fuel : Nat) (s : Store) : Edit → Option Store
  | .initroot => some s.allocXml.1
  | .addnode xmlroot name value => some (s.ndxmlAddnode xmlroot name value)
  | .addsubnode parent name value =>
    some (s.ndxmlAddsubnode parent name value)
  | .insert parent child => some (s.ndxmlInsert parent child)
  | .insertEx parent child index => s.ndxmlInsertEx fuel parent child index
  | .insertAfter parent insertNode brother =>
    some (s.ndxmlInsertAfter parent insertNode brother)
  | .insertBefore parent insertNode brother =>
    some (s.ndxmlInsertBefore parent insertNode brother)
  | .merge host merged => some (s.ndxmlMerge host merged)
  | .unlink node xmlParent => (s.ndxmlUnlink fuel node xmlParent).map Prod.fst
  | .delxml node xmlParent => s.ndxmlDelxml fuel node xmlParent
  | .delnode xmlroot name => s.ndxmlDelnode fuel xmlroot name
  | .delnodei xmlroot index => s.ndxmlDelnodei fuel xmlroot index
  | .delsubnode parent name => s.ndxmlDelsubnode fuel parent name
  | .delsubnodei parent index => s.ndxmlDelsubnodei fuel parent index
  | .delAllChildren parent => s.ndxmlDelAllChildren fuel parent
  | .delallChildren xml => some (s.ndxmlDelallChildren xml)
  | .addattrib parent name value => some (s.ndxmlAddattrib parent name value)
  | .setattrval parent name value =>
    some (s.ndxmlSetattrval parent name value)
  | .setattrvali parent index value =>
    some (s.ndxmlSetattrvali parent index value)
  | .delattrib parent name => some (s.ndxmlDelattrib parent name)
  | .delattribi parent index => some (s.ndxmlDelattribi parent index)
  | .delallAttrib xml => some (s.ndxmlDelallAttrib xml)
  | .copy node => (ndxmlCopy fuel s node).map Prod.fst
  | .fromText code text => s.ndxmlFromText code text

def step (fuel : Nat) (s : Store) (edit : Edit) : Option Store :=
  if ∀ x ∈ edit.nodes, s.Live x then s.apply fuel edit else none

def editRun (fuel : Nat) (s : Store) : List Edit → Option Store
  | [] => some s
  | edit :: edits => (s.step fuel edit).bind fun s => editRun fuel s edits

/-- A node can be put below another one: it is in no list, and it is neither
the other one nor above it. -/
def Insertable (s : Store) (parent child : Nat) : Prop :=
  s.Unlinked child ∧ ¬ Relation.ReflTransGen s.Over child parent

/-- The node given for a brother is the parent, a child of the parent, or of
another parent. -/
def Placed (s : Store) (parent brother : Nat) : Prop :=
  brother = parent ∨ (s.nodes brother).bind XmlNode.parent ≠ some parent ∨
    ∃ subs, s.childList parent = some subs ∧ brother ∈ subs

/-- The calls that keep the trees in order. -/
def Permitted (s : Store) : Edit → Prop
  | .insert parent child => s.Insertable parent child
  | .insertEx parent child index => s.Insertable parent child ∧
      (index = -1 ∨
        ∀ node, s.nodes parent = some node → node.subNum ≤ max index 0)
  | .insertAfter parent insertNode brother =>
    s.Insertable parent insertNode ∧ s.Placed parent brother
  | .insertBefore parent insertNode brother =>
    s.Insertable parent insertNode ∧ s.Placed parent brother
  | .merge _ merged =>
    ∀ node, s.nodes merged = some node → node.subNum ≤ 0
  | .delallAttrib xml =>
    ∀ node, s.nodes xml = some node → node.attrs = [] ∧ node.subNum = 0
  | _ => True

def PermittedRun (fuel : Nat) (s : Store) : List Edit → Prop
  | [] => True
  | edit :: edits => s.Permitted edit ∧
      ∀ s', s.step fuel edit = some s' → PermittedRun fuel s' edits

variable {s s' : Store} {subs : Family} {height : Nat → Nat} {x c : Nat}

theorem entryNodes_map (list : List Nat) :
    entryNodes (list.map .self) = some list := by
  induction list with
  | nil => rfl
  | cons c list induction =>
    rw [map_cons, entryNodes, induction]
    rfl

theorem Wired.length_le (wired : s.Wired subs height) (live : s.Live x) :
    (subs x).length ≤ s.fresh := by
  have inside : subs x ⊆ range s.fresh := by
    intro c member
    exact mem_range.mpr (wired.used c (wired.childLive live member))
  have shorter := (subperm_of_subset (wired.nodup live) inside).length_le
  rwa [length_range] at shorter

theorem Wired.childList (wired : s.Wired subs height) (live : s.Live x) :
    s.childList x = some (subs x) := by
  rw [Store.childList, (wired.ring x live).walk_eq
    (by rw [length_map]; exact wired.length_le live)]
  exact entryNodes_map (subs x)

theorem Wired.over_iff (wired : s.Wired subs height) :
    s.Over x c ↔ s.Edge subs x c := by
  constructor
  · rintro ⟨live, list, same, member⟩
    obtain rfl := Option.some.inj ((wired.childList live).symm.trans same)
    exact ⟨live, member⟩
  · rintro ⟨live, member⟩
    exact ⟨live, subs x, wired.childList live, member⟩

theorem Sound.treeSound (sound : s.Sound subs height) : s.TreeSound := by
  intro x node present
  have live := live_of_nodes present
  obtain ⟨subNum, attrNum⟩ := sound.counted x node present
  exact ⟨subs x, sound.wired.childList live, subNum, attrNum,
    sound.wired.child x live⟩

theorem Insertable.not_above {parent : Nat} (insertable : s.Insertable parent c)
    (wired : s.Wired subs height) :
    ¬ Relation.ReflTransGen (s.Edge subs) c parent := by
  intro above
  apply insertable.2
  clear insertable
  induction above with
  | refl => exact Relation.ReflTransGen.refl
  | tail _ edge induction =>
    exact induction.tail (wired.over_iff.mpr edge)

theorem Sound.addsubnode (sound : s.Sound subs height) (live : s.Live x)
    (name value : Option (List Char)) :
    ∃ subs' height', (s.ndxmlAddsubnode x name value).Sound subs' height' := by
  cases name with
  | none => exact ⟨subs, height, sound⟩
  | some name =>
    have made : Made s (s.createXmlnode (some name) value).1 s.fresh :=
      sound.made_allocXml.modify fun node => ⟨rfl, rfl, id⟩
    have soundMade : (s.createXmlnode (some name) value).1.Sound
        (Function.update subs s.fresh []) height :=
      sound.allocXml.modify fun node => ⟨rfl, rfl, id⟩
    have differs : s.fresh ≠ x := by
      rintro rfl
      exact sound.not_fresh live
    refine ⟨_, _, soundMade.insert
      (live.of_nodes_eq (made.keeps x live)) made.root.live
      (made.root.unlinked soundMade.wired) ?_⟩
    intro above
    rcases Relation.ReflTransGen.cases_head above with same | ⟨y, edge, -⟩
    · exact differs same
    · have child := edge.2
      rw [Function.update_self] at child
      cases child

theorem Sound.insertEx (sound : s.Sound subs height) (liveX : s.Live x)
    (liveC : s.Live c) (insertable : s.Insertable x c) {index : Int}
    (atEnd : index = -1 ∨
      ∀ node, s.nodes x = some node → node.subNum ≤ max index 0)
    (result : s.ndxmlInsertEx fuel x c index = some s') :
    ∃ subs' height', s'.Sound subs' height' := by
  have inserted := sound.insert liveX liveC insertable.1
    (insertable.not_above sound.wired)
  rw [ndxmlInsertEx] at result
  by_cases tail : index = -1
  · rw [if_neg (not_not_intro tail)] at result
    cases result
    exact ⟨_, _, inserted⟩
  · rw [if_pos tail] at result
    cases sought : s.search fuel x fun i _ => decide (index ≤ i) with
    | none =>
      rw [sought] at result
      cases result
    | some found =>
      rw [sought] at result
      cases found with
      | none =>
        cases result
        exact ⟨_, _, inserted⟩
      | some place =>
        -- the list ends before the index is reached
        obtain ⟨i, member, reached⟩ :=
          (sound.wired.search liveX sought).1 place rfl
        obtain ⟨node, present⟩ := liveX.nodes
        have bound := atEnd.resolve_left tail node present
        have counted := (sound.counted x node present).1
        have inside := (List.getElem?_eq_some_iff.mp member).1
        have low := of_decide_eq_true reached
        omega

variable {brother : Nat}

theorem Sound.insertBeside (sound : s.Sound subs height) (liveX : s.Live x)
    (liveC : s.Live c) (insertable : s.Insertable x c)
    (member : brother ∈ subs x)
    (shape : links = s.links.add (.self c) (.self brother) ∨
      links = s.links.addTail (.self c) (.self brother)) :
    ∃ subs' height', ((s.relink links).adopted x c).Sound subs' height' := by
  obtain ⟨front, back, split⟩ := append_of_mem member
  have ring := sound.wired.ring x liveX
  have alone := sound.wired.alone insertable.1 liveX
  rw [split, map_append, map_cons] at ring alone
  have same := sound.wired.insert_same liveX (mem_around_self.mpr member) shape
  have apart := insertable.not_above sound.wired
  rcases shape with rfl | rfl
  · have added := ring.add_entry alone
    refine ⟨_, _, @Sound.adopt _ _ _ sound _ _ liveX liveC insertable.1 apart _
      (front ++ [brother]) back ?_ ?_ same⟩
    · rw [split, append_assoc]
      rfl
    · rw [append_assoc, map_append]
      exact added
  · have added := ring.addTail_entry alone
    refine ⟨_, _, @Sound.adopt _ _ _ sound _ _ liveX liveC insertable.1 apart _
      front (brother :: back) split ?_ same⟩
    rw [map_append]
    exact added

theorem Placed.cases (placed : s.Placed x brother) (wired : s.Wired subs height)
    (live : s.Live x) (differs : brother ≠ x)
    (child : ¬ (s.nodes brother).bind XmlNode.parent ≠ some x) :
    brother ∈ subs x := by
  rcases placed with same | other | ⟨list, same, member⟩
  · exact absurd same differs
  · exact absurd other child
  · obtain rfl := Option.some.inj ((wired.childList live).symm.trans same)
    exact member

theorem Sound.insertAfter (sound : s.Sound subs height) (liveX : s.Live x)
    (liveC : s.Live c) (insertable : s.Insertable x c)
    (placed : s.Placed x brother) :
    ∃ subs' height',
      (s.ndxmlInsertAfter x c brother).Sound subs' height' := by
  rw [ndxmlInsertAfter]
  by_cases front : brother = x
  · rw [if_pos front]
    have ring := (sound.wired.ring x liveX).add (.self c)
      (sound.wired.alone insertable.1 liveX)
    exact ⟨_, _, @Sound.adopt _ _ _ sound _ _ liveX liveC insertable.1
      (insertable.not_above sound.wired) _ [] (subs x) rfl ring
      (sound.wired.insert_same liveX mem_cons_self (Or.inl rfl))⟩
  · rw [if_neg front]
    by_cases other : (s.nodes brother).bind XmlNode.parent ≠ some x
    · rw [if_pos other]
      exact ⟨_, _, sound⟩
    · rw [if_neg other]
      exact sound.insertBeside liveX liveC insertable
        (placed.cases sound.wired liveX front other) (Or.inl rfl)

theorem Sound.insertBefore (sound : s.Sound subs height) (liveX : s.Live x)
    (liveC : s.Live c) (insertable : s.Insertable x c)
    (placed : s.Placed x brother) :
    ∃ subs' height',
      (s.ndxmlInsertBefore x c brother).Sound subs' height' := by
  rw [ndxmlInsertBefore]
  by_cases last : brother = x
  · rw [if_pos last]
    exact ⟨_, _, sound.insert liveX liveC insertable.1
      (insertable.not_above sound.wired)⟩
  · rw [if_neg last]
    by_cases other : (s.nodes brother).bind XmlNode.parent ≠ some x
    · rw [if_pos other]
      exact ⟨_, _, sound⟩
    · rw [if_neg other]
      exact sound.insertBeside liveX liveC insertable
        (placed.cases sound.wired liveX last other) (Or.inr rfl)

theorem delAttr_keeps {node : XmlNode}
    (inside : ∀ index ∈ found, index < node.attrs.length) :
    (delAttr node found).parent = node.parent ∧
      (delAttr node found).subNum = node.subNum ∧
      (node.attrNum = node.attrs.length →
        (delAttr node found).attrNum = (delAttr node found).attrs.length) := by
  cases found with
  | none => exact ⟨rfl, rfl, id⟩
  | some index =>
    refine ⟨rfl, rfl, fun right => ?_⟩
    have within := inside index rfl
    dsimp only [delAttr]
    rw [right, length_eraseIdx_of_lt within]
    omega

theorem getattrib_lt {node : XmlNode} {name : List Char} :
    ∀ index ∈ getattrib node name, index < node.attrs.length := by
  intro index found
  exact (findIdx?_eq_some_iff_findIdx_eq.mp found).1

theorem getattribi_lt {node : XmlNode} {sought : Int} :
    ∀ index ∈ getattribi node sought, index < node.attrs.length := by
  intro index found
  rw [getattribi] at found
  by_cases inside : 0 ≤ sought ∧ sought < node.attrs.length
  · rw [if_pos inside] at found
    cases found
    omega
  · rw [if_neg inside] at found
    cases found

theorem setAttr_keeps (node : XmlNode) (index : Nat) (value : List Char) :
    (setAttr node index value).parent = node.parent ∧
      (setAttr node index value).subNum = node.subNum ∧
      (node.attrNum = node.attrs.length →
        (setAttr node index value).attrNum =
          (setAttr node index value).attrs.length) := by
  refine ⟨rfl, rfl, fun right => ?_⟩
  dsimp only [setAttr]
  rw [length_modify, right]

section

variable (sound : s.Sound subs height)
include sound

theorem Sound.setattrval (name value : Option (List Char)) :
    (s.ndxmlSetattrval x name value).Sound subs height := by
  cases name with
  | none => exact sound
  | some name =>
    rw [ndxmlSetattrval]
    by_cases empty : (value.getD []).isEmpty = true
    · rw [if_pos empty]
      exact sound.modify fun node => delAttr_keeps getattrib_lt
    · rw [if_neg empty]
      apply sound.modify
      intro node
      cases getattrib node name with
      | none => exact addAttr_keeps _ _ node
      | some index => exact setAttr_keeps node index _

theorem Sound.setattrvali (index : Int) (value : Option (List Char)) :
    (s.ndxmlSetattrvali x index value).Sound subs height := by
  apply sound.modify
  intro node
  by_cases outside : index < 0 ∨ node.attrNum ≤ index
  · rw [if_pos outside]
    exact ⟨rfl, rfl, id⟩
  rw [if_neg outside]
  by_cases empty : (value.getD []).isEmpty = true
  · rw [if_pos empty]
    exact delAttr_keeps getattribi_lt
  · rw [if_neg empty]
    cases getattribi node index with
    | none => exact ⟨rfl, rfl, id⟩
    | some index => exact setAttr_keeps node index _

theorem Sound.delallAttrib
    (bare : ∀ node, s.nodes x = some node → node.attrs = [] ∧ node.subNum = 0) :
    (s.ndxmlDelallAttrib x).Sound subs height where
  wired := sound.wired.modify fun _ => rfl
  counted := by
    intro y node present
    rw [ndxmlDelallAttrib, modify_nodes] at present
    obtain ⟨before, old, rfl⟩ := Option.map_eq_some_iff.mp present
    obtain ⟨subNum, attrNum⟩ := sound.counted y before old
    by_cases at_ : y = x
    · subst at_
      obtain ⟨noAttrs, noSubs⟩ := bare before old
      rw [if_pos rfl]
      refine ⟨noSubs.symm.trans subNum, ?_⟩
      rw [attrNum, noAttrs]
    · rw [if_neg at_]
      exact ⟨subNum, attrNum⟩

theorem Sound.apply {edit : Edit} (live : ∀ x ∈ edit.nodes, s.Live x)
    (permitted : s.Permitted edit) (result : s.apply fuel edit = some s') :
    ∃ subs' height', s'.Sound subs' height' := by
  cases edit with
  | initroot =>
    cases result
    exact ⟨_, _, sound.allocXml⟩
  | addnode xmlroot name value =>
    cases result
    exact sound.addsubnode (live xmlroot mem_cons_self) name value
  | addsubnode parent name value =>
    cases result
    exact sound.addsubnode (live parent mem_cons_self) name value
  | insert parent child =>
    cases result
    exact ⟨_, _, sound.insert (live parent (by simp [Edit.nodes]))
      (live child (by simp [Edit.nodes])) permitted.1
      (permitted.not_above sound.wired)⟩
  | insertEx parent child index =>
    exact sound.insertEx (live parent (by simp [Edit.nodes]))
      (live child (by simp [Edit.nodes])) permitted.1 permitted.2 result
  | insertAfter parent insertNode brother =>
    cases result
    exact sound.insertAfter (live parent (by simp [Edit.nodes]))
      (live insertNode (by simp [Edit.nodes])) permitted.1 permitted.2
  | insertBefore parent insertNode brother =>
    cases result
    exact sound.insertBefore (live parent (by simp [Edit.nodes]))
      (live insertNode (by simp [Edit.nodes])) permitted.1 permitted.2
  | merge host merged =>
    cases result
    obtain ⟨node, present⟩ := (live merged (by simp [Edit.nodes])).nodes
    have childless := permitted node present
    rw [ndxmlMerge, present]
    dsimp only
    rw [if_neg (by omega)]
    exact ⟨_, _, sound⟩
  | unlink node xmlParent =>
    obtain ⟨pair, unlinked, same⟩ := Option.map_eq_some_iff.mp result
    subst same
    obtain ⟨subs', after, -⟩ :=
      sound.unlink (live node mem_cons_self) unlinked
    exact ⟨subs', _, after⟩
  | delxml node xmlParent =>
    obtain ⟨subs', after⟩ :=
      sound.delxml (live node mem_cons_self) result
    exact ⟨subs', _, after⟩
  | delnode xmlroot name | delnodei xmlroot index =>
    have liveX := live xmlroot mem_cons_self
    obtain ⟨subs', after⟩ := sound.delFound liveX
      (fun c found => sound.wired.search_mem liveX found) result
    exact ⟨subs', _, after⟩
  | delsubnode parent name | delsubnodei parent index =>
    have liveX := live parent mem_cons_self
    obtain ⟨subs', after⟩ := sound.delFound liveX
      (fun c found => sound.wired.search_mem liveX found) result
    exact ⟨subs', _, after⟩
  | delAllChildren parent =>
    obtain ⟨subs', after⟩ :=
      sound.delAllChildren (live parent mem_cons_self) result
    exact ⟨subs', _, after⟩
  | delallChildren xml =>
    cases result
    exact ⟨_, _, sound.delallChildren (live xml mem_cons_self)⟩
  | addattrib parent name value =>
    cases result
    exact ⟨_, _, sound.modify (addAttr_keeps name value)⟩
  | setattrval parent name value =>
    cases result
    exact ⟨_, _, sound.setattrval name value⟩
  | setattrvali parent index value =>
    cases result
    exact ⟨_, _, sound.setattrvali index value⟩
  | delattrib parent name =>
    cases result
    exact ⟨_, _, sound.modify fun node => delAttr_keeps getattrib_lt⟩
  | delattribi parent index =>
    cases result
    exact ⟨_, _, sound.modify fun node => delAttr_keeps getattribi_lt⟩
  | delallAttrib xml =>
    cases result
    exact ⟨_, _, sound.delallAttrib permitted⟩
  | copy node =>
    obtain ⟨pair, copied, same⟩ := Option.map_eq_some_iff.mp result
    subst same
    exact ((copy_made fuel).1 sound copied).sound
  | fromText code text =>
    rw [Store.apply, Store.ndxmlFromText] at result
    split at result
    · cases result
    · cases result
      exact ⟨_, _, sound⟩
    · cases result
      exact (sound.made_parsed _).sound

end

theorem sound_empty : empty.Sound (fun _ => []) fun _ => 0 where
  wired :=
    { ring := fun _ live => nomatch live
      child := fun _ live => nomatch live
      loose := fun _ _ present => nomatch present
      used := fun _ live => nomatch live
      falls := fun _ live => nomatch live }
  counted := fun _ _ present => nomatch present

/-- Whatever is done to the trees by calls that are permitted, every node keeps
the right counters and the children that point back to it. -/
theorem editRun_treeSound {fuel : Nat} {edits : List Edit} {s : Store}
    (permitted : PermittedRun fuel empty edits)
    (run : editRun fuel empty edits = some s) : s.TreeSound := by
  have runs : ∀ (edits : List Edit) (start : Store) (subs : Family)
      (height : Nat → Nat), start.Sound subs height →
      PermittedRun fuel start edits → editRun fuel start edits = some s →
      s.TreeSound := by
    intro edits
    induction edits with
    | nil =>
      intro start subs height sound _ run
      cases run
      exact sound.treeSound
    | cons edit edits induction =>
      intro start subs height sound permitted run
      obtain ⟨between, stepped, rest⟩ := Option.bind_eq_some_iff.mp run
      obtain ⟨first, others⟩ := permitted
      have applied := stepped
      rw [step] at applied
      by_cases live : ∀ x ∈ edit.nodes, start.Live x
      · rw [if_pos live] at applied
        obtain ⟨subs', height', after⟩ := sound.apply live first applied
        exact induction between subs' height' after
          (others between stepped) rest
      · rw [if_neg live] at applied
        cases applied
  exact runs edits empty _ _ sound_empty permitted run

/-- A run that builds a tree, moves a child to another parent and takes the
children away again. -/
def movedChild : List Edit :=
  [.initroot, .initroot, .addsubnode 0 (some ['a']) (some ['1']),
    .unlink 2 none, .insert 1 2, .addattrib 2 (some ['k']) (some ['v']),
    .copy 2, .addnode 1 (some ['b']) none, .setattrval 3 (some ['k']) none,
    .delsubnodei 1 0, .delAllChildren 0]

theorem permittedRun_movedChild : PermittedRun 12 empty movedChild := by
  refine ⟨trivial, fun s1 first => ⟨trivial, fun s2 second => ⟨trivial,
    fun s3 third => ⟨trivial, fun s4 fourth => ⟨?_, ?_⟩⟩⟩⟩⟩
  · cases first
    cases second
    cases third
    cases fourth
    refine ⟨rfl, fun above => ?_⟩
    rcases Relation.ReflTransGen.cases_head above with same | ⟨y, edge, -⟩
    · cases same
    · obtain ⟨_, subs, same, member⟩ := edge
      cases same
      cases member
  · intro s5 _
    repeat refine ⟨trivial, fun _ _ => ?_⟩
    trivial

theorem editRun_movedChild :
    ∃ s, editRun 12 empty movedChild = some s ∧ s.TreeSound := by
  obtain ⟨s, run⟩ := Option.isSome_iff_exists.mp
    (show (editRun 12 empty movedChild).isSome = true by decide +kernel)
  exact ⟨s, run, editRun_treeSound permittedRun_movedChild run⟩

/-- An attribute taken away with all the others stays counted, a child put
before another one does not know its parent, and neither does the child of a
tree that has been merged. -/
theorem editRun_not_treeSound :
    (∃ s, editRun 8 empty [.initroot, .addattrib 0 (some ['k']) (some ['v']),
        .delallAttrib 0] = some s ∧ ¬ s.TreeSound) ∧
      (∃ s, editRun 8 empty [.initroot, .addsubnode 0 (some ['a']) none,
          .initroot, .insertEx 0 2 0] = some s ∧ ¬ s.TreeSound) ∧
      ∃ s, editRun 8 empty [.initroot, .initroot,
          .addsubnode 1 (some ['a']) none, .merge 0 1] = some s ∧
        ¬ s.TreeSound := by
  refine ⟨⟨_, rfl, ?_⟩, ⟨_, rfl, ?_⟩, ⟨_, rfl, ?_⟩⟩
  · intro sound
    obtain ⟨_, _, _, attrNum, _⟩ := sound 0 _ rfl
    exact absurd attrNum (by decide)
  · intro sound
    obtain ⟨subs, same, _, _, back⟩ := sound 0 _ rfl
    obtain ⟨child, present, parent⟩ := back 2 (by cases same; decide)
    cases present
    cases parent
  · intro sound
    obtain ⟨subs, same, _, _, back⟩ := sound 0 _ rfl
    obtain ⟨child, present, parent⟩ := back 2 (by cases same; decide)
    cases present
    cases parent

end Edits

end Store

end NdNet.Xml
