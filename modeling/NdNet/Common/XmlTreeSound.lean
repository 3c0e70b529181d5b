import Mathlib.Logic.Relation
import NdNet.Common.XmlTree

/-!
# The invariant of the XML trees

A store is wired for an assignment of children to nodes if each list of a live
node is the ring of its children, each child points back to its parent, nodes
without a parent are in no list, and some height falls from every parent to its
children.  Every write the operations make to the lists keeps this.
-/

namespace NdNet.Xml

open List

namespace Store

section Writes

variable (s : Store) (x y : Nat)

theorem modify_nodes (write : XmlNode → XmlNode) :
    (s.modify x write).nodes y =
      (s.nodes y).map (if y = x then write else id) := by
  by_cases at_ : y = x
  · subst at_
    rw [if_pos rfl]
    exact Function.update_self _ _ _
  · rw [if_neg at_, Option.map_id]
    exact Function.update_of_ne at_ _ _

@[simp] theorem modify_live (write : XmlNode → XmlNode) :
    (s.modify x write).Live y ↔ s.Live y := by
  rw [Live, modify_nodes, Option.isSome_map, Live]

theorem free_nodes : (s.free x).nodes y = if y = x then none else s.nodes y :=
  Function.update_apply _ _ _ _

theorem free_live : (s.free x).Live y ↔ s.Live y ∧ y ≠ x := by
  rw [Live, free_nodes]
  by_cases at_ : y = x
  · rw [if_pos at_]
    constructor
    · intro live
      cases live
    · rintro ⟨-, differs⟩
      exact absurd at_ differs
  · rw [if_neg at_]
    exact ⟨fun live => ⟨live, at_⟩, And.left⟩

theorem allocXml_nodes :
    s.allocXml.1.nodes y =
      if y = s.fresh then some initXmlNode else s.nodes y :=
  Function.update_apply _ _ _ _

theorem allocXml_live : s.allocXml.1.Live y ↔ y = s.fresh ∨ s.Live y := by
  rw [Live, allocXml_nodes]
  by_cases at_ : y = s.fresh
  · rw [if_pos at_]
    exact ⟨fun _ => Or.inl at_, fun _ => rfl⟩
  · rw [if_neg at_]
    exact ⟨Or.inr, fun either => either.resolve_left at_⟩

theorem adopted_nodes (parent child : Nat) :
    (s.adopted parent child).nodes y = (s.nodes y).map fun node =>
      { node with
        parent := if y = child then some parent else node.parent
        subNum := if y = parent then node.subNum + 1 else node.subNum } := by
  rw [adopted, modify_nodes, modify_nodes, Option.map_map]
  congr 1
  funext node
  dsimp only [Function.comp_apply]
  by_cases atParent : y = parent
  · by_cases atChild : y = child
    · rw [if_pos atChild, if_pos atParent, if_pos atChild, if_pos atParent]
    · rw [if_neg atChild, if_pos atParent, if_neg atChild, if_pos atParent]
      rfl
  · by_cases atChild : y = child
    · rw [if_pos atChild, if_neg atParent, if_pos atChild, if_neg atParent]
      rfl
    · rw [if_neg atChild, if_neg atParent, if_neg atChild, if_neg atParent]
      rfl

theorem adopted_nodes_of_ne {parent child : Nat} (notParent : y ≠ parent)
    (notChild : y ≠ child) : (s.adopted parent child).nodes y = s.nodes y := by
  rw [adopted, modify_nodes, if_neg notParent, Option.map_id, modify_nodes,
    if_neg notChild, Option.map_id]
  rfl

@[simp] theorem adopted_live (parent child : Nat) :
    (s.adopted parent child).Live y ↔ s.Live y := by
  rw [Live, adopted_nodes, Option.isSome_map, Live]

end Writes

abbrev Family := Nat → List Nat

def around (subs : Family) (x : Nat) : List Entry :=
  .sub x :: (subs x).map .self

/-- The lists and the parents of a store. -/
structure Wired (s : Store) (subs : Family) (height : Nat → Nat) : Prop where
  ring : ∀ x, s.Live x → s.links.Ring (.sub x) ((subs x).map .self)
  child : ∀ x, s.Live x → ∀ c ∈ subs x,
    ∃ node, s.nodes c = some node ∧ node.parent = some x
  loose : ∀ x node, s.nodes x = some node → node.parent = none →
    s.links.next (.self x) = .self x ∧ s.links.prev (.self x) = .self x
  used : ∀ x, s.Live x → x < s.fresh
  falls : ∀ x, s.Live x → ∀ c ∈ subs x, height c < height x

def Counted (s : Store) (subs : Family) : Prop :=
  ∀ x node, s.nodes x = some node →
    node.subNum = (subs x).length ∧ node.attrNum = node.attrs.length

section Wired

variable {s : Store} {subs : Family} {height : Nat → Nat} {x y c : Nat}

theorem live_of_nodes {node : XmlNode} (present : s.nodes x = some node) :
    s.Live x := by
  rw [Live, present]
  rfl

theorem Live.nodes (live : s.Live x) : ∃ node, s.nodes x = some node :=
  Option.isSome_iff_exists.mp live

theorem Wired.childLive (wired : s.Wired subs height) (live : s.Live x)
    (member : c ∈ subs x) : s.Live c := by
  obtain ⟨node, present, -⟩ := wired.child x live c member
  exact live_of_nodes present

theorem Wired.parent_unique (wired : s.Wired subs height) (liveX : s.Live x)
    (liveY : s.Live y) (inX : c ∈ subs x)
    (inY : c ∈ subs y) : x = y := by
  obtain ⟨node, present, parent⟩ := wired.child x liveX c inX
  obtain ⟨again, same, other⟩ := wired.child y liveY c inY
  obtain rfl := Option.some.inj (present.symm.trans same)
  exact Option.some.inj (parent.symm.trans other)

theorem self_injective : Function.Injective Entry.self :=
  fun _ _ same => Entry.self.inj same

theorem mem_around_self : Entry.self c ∈ around subs x ↔ c ∈ subs x := by
  rw [around, mem_cons, mem_map_of_injective self_injective]
  exact or_iff_right Entry.noConfusion

section

variable (wired : s.Wired subs height)
include wired

theorem Wired.nodup (live : s.Live x) :
    (subs x).Nodup :=
  (nodup_cons.mp (wired.ring x live).2).2.of_map

theorem Wired.next_ne (live : s.Live x)
    (member : c ∈ subs x) : s.links.next (.self c) ≠ .self c :=
  (wired.ring x live).next_ne (mem_map_of_mem member)

theorem Wired.disjoint (liveX : s.Live x) (liveY : s.Live y) (differs : y ≠ x)
    {e : Entry}
    (member : e ∈ around subs y) : e ∉ around subs x := by
  cases e with
  | self c =>
    rw [mem_around_self] at member ⊢
    exact fun inX => differs (wired.parent_unique liveY liveX member inX)
  | sub z =>
    intro inX
    have atY : z = y := by simpa [around] using member
    have atX : z = x := by simpa [around] using inX
    exact differs (atY.symm.trans atX)

theorem Wired.neighbours (live : s.Live x) {e : Entry}
    (member : e ∈ around subs x) :
    s.links.next e ∈ around subs x ∧ s.links.prev e ∈ around subs x := by
  have ring := wired.ring x live
  rcases mem_cons.mp member with rfl | inside
  · exact ⟨ring.next_mem, ring.prev_mem⟩
  obtain ⟨front, back, split⟩ := append_of_mem inside
  rw [split] at ring
  have same : ∀ d, d ∈ e :: (back ++ Entry.sub x :: front) →
      d ∈ around subs x := by
    intro d found
    rw [around, split]
    simp only [mem_cons, mem_append] at found ⊢
    tauto
  exact ⟨same _ ring.rotate.next_mem, same _ ring.rotate.prev_mem⟩

theorem Wired.relink_list (live : s.Live x) {links : LinkTable Entry}
    {list : List Nat} (ring : links.Ring (.sub x) (list.map .self))
    (same : ∀ e, e ∉ around subs x →
      links.next e = s.links.next e ∧ links.prev e = s.links.prev e)
    (part : ∀ c ∈ list, c ∈ subs x) :
    (s.relink links).Wired (Function.update subs x list) height where
  ring := by
    intro y liveY
    by_cases at_ : y = x
    · subst at_
      rw [Function.update_self]
      exact ring
    · rw [Function.update_of_ne at_]
      exact (wired.ring y liveY).congr fun e member =>
        same e (wired.disjoint live liveY at_ member)
  child := by
    intro y liveY c member
    by_cases at_ : y = x
    · subst at_
      rw [Function.update_self] at member
      exact wired.child y liveY c (part c member)
    · rw [Function.update_of_ne at_] at member
      exact wired.child y liveY c member
  loose := by
    intro y node present orphan
    have alone := wired.loose y node present orphan
    have outside : Entry.self y ∉ around subs x := by
      rw [mem_around_self]
      exact fun member => wired.next_ne live member alone.1
    obtain ⟨next, prev⟩ := same _ outside
    exact ⟨next.trans alone.1, prev.trans alone.2⟩
  used := wired.used
  falls := by
    intro y liveY c member
    by_cases at_ : y = x
    · subst at_
      rw [Function.update_self] at member
      exact wired.falls y liveY c (part c member)
    · rw [Function.update_of_ne at_] at member
      exact wired.falls y liveY c member

theorem Wired.del (live : s.Live x) {front back : List Nat}
    (split : subs x = front ++ c :: back) :
    (s.relink (s.links.del (.self c))).Wired
      (Function.update subs x (front ++ back)) height := by
  have ring := wired.ring x live
  rw [split, map_append, map_cons] at ring
  apply wired.relink_list live
  · rw [map_append]
    exact ring.del_entry
  · intro e outside
    have member : Entry.self c ∈ around subs x := by
      rw [mem_around_self, split]
      simp
    obtain ⟨next, prev⟩ := wired.neighbours live member
    apply LinkTable.del_agrees
    · rintro rfl
      exact outside prev
    · rintro rfl
      exact outside next
  · intro d member
    rw [split]
    simp only [mem_append, mem_cons] at member ⊢
    tauto

theorem Wired.delInit_head (live : s.Live x) :
    (s.relink (s.links.delInit (.sub x))).Wired
      (Function.update subs x []) height := by
  apply wired.relink_list live
  · apply LinkTable.ring_nil
    · rw [LinkTable.delInit, LinkTable.init_next, Function.update_self]
    · rw [LinkTable.delInit, LinkTable.init_prev, Function.update_self]
  · intro e outside
    have member : Entry.sub x ∈ around subs x := mem_cons_self
    obtain ⟨next, prev⟩ := wired.neighbours live member
    obtain ⟨initNext, initPrev⟩ := LinkTable.init_agrees
      (s.links.del (.sub x)) (show e ≠ .sub x by
        rintro rfl
        exact outside member)
    obtain ⟨delNext, delPrev⟩ := LinkTable.del_agrees s.links
      (show e ≠ s.links.prev (.sub x) by
        rintro rfl
        exact outside prev)
      (show e ≠ s.links.next (.sub x) by
        rintro rfl
        exact outside next)
    exact ⟨initNext.trans delNext, initPrev.trans delPrev⟩
  · intro c member
    cases member

theorem Wired.modify {write : XmlNode → XmlNode}
    (keeps : ∀ node, (write node).parent = node.parent) :
    (s.modify x write).Wired subs height := by
  have kept : ∀ y node, ((if y = x then write else id) node).parent =
      node.parent := by
    intro y node
    by_cases at_ : y = x
    · rw [if_pos at_]
      exact keeps node
    · rw [if_neg at_]
      rfl
  exact
    { ring := fun y live => wired.ring y ((modify_live s x y write).mp live)
      child := by
        intro y live c member
        obtain ⟨node, present, parent⟩ :=
          wired.child y ((modify_live s x y write).mp live) c member
        exact ⟨_, by rw [modify_nodes, present]; rfl,
          (kept c node).trans parent⟩
      loose := by
        intro y node present orphan
        rw [modify_nodes] at present
        obtain ⟨before, old, rfl⟩ := Option.map_eq_some_iff.mp present
        exact wired.loose y before old ((kept y before).symm.trans orphan)
      used := fun y live => wired.used y ((modify_live s x y write).mp live)
      falls := fun y live =>
        wired.falls y ((modify_live s x y write).mp live) }

theorem Wired.reassign {other : Family}
    (same : ∀ y, s.Live y → other y = subs y) : s.Wired other height where
  ring := fun y live => by rw [same y live]; exact wired.ring y live
  child := fun y live => by rw [same y live]; exact wired.child y live
  loose := wired.loose
  used := wired.used
  falls := fun y live => by rw [same y live]; exact wired.falls y live

theorem Wired.free (apart : ∀ y, s.Live y → y ≠ x → x ∉ subs y) :
    (s.free x).Wired subs height := by
  exact
    { ring := fun y live => wired.ring y ((free_live s x y).mp live).1
      child := by
        intro y live c member
        obtain ⟨old, differs⟩ := (free_live s x y).mp live
        obtain ⟨node, present, parent⟩ := wired.child y old c member
        have other : c ≠ x := by
          rintro rfl
          exact apart y old differs member
        exact ⟨node, by rw [free_nodes, if_neg other, present], parent⟩
      loose := by
        intro y node present orphan
        have differs := ((free_live s x y).mp (live_of_nodes present)).2
        rw [free_nodes, if_neg differs] at present
        exact wired.loose y node present orphan
      used := fun y live => wired.used y ((free_live s x y).mp live).1
      falls := fun y live => wired.falls y ((free_live s x y).mp live).1 }

theorem Wired.allocXml :
    s.allocXml.1.Wired (Function.update subs s.fresh []) height := by
  have old : ∀ y, s.Live y → y ≠ s.fresh := by
    intro y live same
    have := wired.used y live
    omega
  have links : ∀ e, e ≠ .self s.fresh → e ≠ .sub s.fresh →
      s.allocXml.1.links.next e = s.links.next e ∧
        s.allocXml.1.links.prev e = s.links.prev e := by
    intro e notSelf notSub
    obtain ⟨subNext, subPrev⟩ :=
      LinkTable.init_agrees (s.links.init (.self s.fresh)) notSub
    obtain ⟨selfNext, selfPrev⟩ := LinkTable.init_agrees s.links notSelf
    exact ⟨subNext.trans selfNext, subPrev.trans selfPrev⟩
  have apart : ∀ y, s.Live y → ∀ e ∈ around subs y,
      e ≠ .self s.fresh ∧ e ≠ .sub s.fresh := by
    intro y live e member
    constructor
    · rintro rfl
      exact old _ (wired.childLive live (mem_around_self.mp member)) rfl
    · rintro rfl
      have same : s.fresh = y := by simpa [around] using member
      exact old y live same.symm
  have at_ : ∀ y, s.allocXml.1.Live y → y ≠ s.fresh →
      s.Live y ∧ Function.update subs s.fresh [] y = subs y := by
    intro y live differs
    exact ⟨((allocXml_live s y).mp live).resolve_left differs,
      Function.update_of_ne differs _ _⟩
  exact
    { ring := by
        intro y live
        by_cases new : y = s.fresh
        · subst new
          rw [Function.update_self]
          apply LinkTable.ring_nil
          · exact Function.update_self _ _ _
          · exact Function.update_self _ _ _
        · obtain ⟨oldLive, same⟩ := at_ y live new
          rw [same]
          exact (wired.ring y oldLive).congr fun e member =>
            links e (apart y oldLive e member).1 (apart y oldLive e member).2
      child := by
        intro y live c member
        by_cases new : y = s.fresh
        · subst new
          rw [Function.update_self] at member
          cases member
        · obtain ⟨oldLive, same⟩ := at_ y live new
          rw [same] at member
          obtain ⟨node, present, parent⟩ := wired.child y oldLive c member
          have differs := old c (live_of_nodes present)
          exact ⟨node, by rw [allocXml_nodes, if_neg differs, present], parent⟩
      loose := by
        intro y node present orphan
        by_cases new : y = s.fresh
        · subst new
          obtain ⟨next, prev⟩ := LinkTable.init_agrees
            (s.links.init (.self s.fresh))
            (show Entry.self s.fresh ≠ .sub s.fresh from Entry.noConfusion)
          exact ⟨next.trans (Function.update_self _ _ _),
            prev.trans (Function.update_self _ _ _)⟩
        · rw [allocXml_nodes, if_neg new] at present
          obtain ⟨next, prev⟩ := wired.loose y node present orphan
          obtain ⟨sameNext, samePrev⟩ := links (.self y)
            (fun same => new (Entry.self.inj same)) Entry.noConfusion
          exact ⟨sameNext.trans next, samePrev.trans prev⟩
      used := by
        intro y live
        show y < s.fresh + 1
        rcases (allocXml_live s y).mp live with rfl | oldLive
        · exact Nat.lt_succ_self _
        · have := wired.used y oldLive
          omega
      falls := by
        intro y live c member
        by_cases new : y = s.fresh
        · subst new
          rw [Function.update_self] at member
          cases member
        · obtain ⟨oldLive, same⟩ := at_ y live new
          rw [same] at member
          exact wired.falls y oldLive c member }

end

def Unlinked (s : Store) (x : Nat) : Prop :=
  s.links.next (.self x) = .self x

theorem Wired.unlinked_apart (wired : s.Wired subs height)
    (unlinked : s.Unlinked c) (live : s.Live x) : c ∉ subs x :=
  fun member => wired.next_ne live member unlinked

def Edge (s : Store) (subs : Family) (x c : Nat) : Prop :=
  s.Live x ∧ c ∈ subs x

open Classical in
noncomputable def raised (s : Store) (subs : Family) (height : Nat → Nat)
    (parent child y : Nat) : Nat :=
  if Relation.ReflTransGen (s.Edge subs) y parent then
    height y + (height child + 1)
  else height y

theorem Wired.adopt (wired : s.Wired subs height) {parent child : Nat}
    (liveParent : s.Live parent) (liveChild : s.Live child)
    (unlinked : s.Unlinked child)
    (below : ¬ Relation.ReflTransGen (s.Edge subs) child parent)
    {links : LinkTable Entry} {front back : List Nat}
    (split : subs parent = front ++ back)
    (ring : links.Ring (.sub parent) ((front ++ child :: back).map .self))
    (same : ∀ e, e ≠ .self child → e ∉ around subs parent →
      links.next e = s.links.next e ∧ links.prev e = s.links.prev e) :
    ((s.relink links).adopted parent child).Wired
      (Function.update subs parent (front ++ child :: back))
      (s.raised subs height parent child) := by
  have alive : ∀ y, ((s.relink links).adopted parent child).Live y ↔
      s.Live y := fun y => adopted_live _ _ _ _
  have apart : ∀ y, s.Live y → child ∉ subs y :=
    fun y live => wired.unlinked_apart unlinked live
  have member_cases : ∀ y c, s.Live y →
      c ∈ Function.update subs parent (front ++ child :: back) y →
      (y = parent ∧ c = child) ∨ (c ∈ subs y ∧ c ≠ child) := by
    intro y c live member
    by_cases at_ : y = parent
    · subst at_
      rw [Function.update_self, mem_append, mem_cons] at member
      by_cases new : c = child
      · exact Or.inl ⟨rfl, new⟩
      · refine Or.inr ⟨?_, new⟩
        rw [split, mem_append]
        tauto
    · rw [Function.update_of_ne at_] at member
      refine Or.inr ⟨member, ?_⟩
      rintro rfl
      exact apart y live member
  exact
    { ring := by
        intro y live
        have live := (alive y).mp live
        by_cases at_ : y = parent
        · subst at_
          rw [Function.update_self]
          exact ring
        · rw [Function.update_of_ne at_]
          refine (wired.ring y live).congr fun e member => same e ?_
            (wired.disjoint liveParent live at_ member)
          rintro rfl
          exact apart y live (mem_around_self.mp member)
      child := by
        intro y live c member
        rcases member_cases y c ((alive y).mp live) member with
          ⟨rfl, rfl⟩ | ⟨old, differs⟩
        · obtain ⟨node, present⟩ := liveChild.nodes
          exact ⟨_, by rw [adopted_nodes]; exact congrArg _ present, if_pos rfl⟩
        · obtain ⟨node, present, isChild⟩ :=
            wired.child y ((alive y).mp live) c old
          exact ⟨_, by rw [adopted_nodes]; exact congrArg _ present,
            (if_neg differs).trans isChild⟩
      loose := by
        intro y node present orphan
        rw [adopted_nodes] at present
        obtain ⟨before, old, rfl⟩ := Option.map_eq_some_iff.mp present
        have differs : y ≠ child := by
          rintro rfl
          cases (if_pos rfl).symm.trans orphan
        have alone := wired.loose y before old ((if_neg differs).symm.trans orphan)
        have outside : Entry.self y ∉ around subs parent := by
          rw [mem_around_self]
          exact fun member => wired.next_ne liveParent member alone.1
        obtain ⟨next, prev⟩ := same (.self y)
          (fun equal => differs (Entry.self.inj equal)) outside
        exact ⟨next.trans alone.1, prev.trans alone.2⟩
      used := fun y live => wired.used y ((alive y).mp live)
      falls := by
        intro y live c member
        have live := (alive y).mp live
        rcases member_cases y c live member with ⟨rfl, rfl⟩ | ⟨old, -⟩
        · rw [raised, if_neg below, raised, if_pos Relation.ReflTransGen.refl]
          omega
        have less := wired.falls y live c old
        rw [raised, raised]
        by_cases above : Relation.ReflTransGen (s.Edge subs) c parent
        · rw [if_pos above, if_pos (.head ⟨live, old⟩ above)]
          omega
        · rw [if_neg above]
          split
          · omega
          · exact less }

end Wired

end Store

end NdNet.Xml
