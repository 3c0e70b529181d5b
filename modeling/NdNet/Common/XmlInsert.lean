import NdNet.Common.XmlTreeRuns

/-!
# Where the XML tree puts a child

The three insertions of `nd_xml.c` that are given a place.  Next to a brother
the child stands where it was meant to.  At a position, `ndxml_insert_ex` stops
at the child that is there and adds the new one behind it, without writing its
parent; only the end of the list, which the walk reaches without stopping, is
filled as asked.
-/

namespace NdNet.Xml

open List

namespace Store

section Places

variable {s : Store} {x : Nat}

theorem seek_place {accept : Nat → Bool} (rest : List Nat) {start : Entry}
    (linked : s.links.Linked start (rest.map .self) (.sub x))
    {fuel index place : Nat} (enough : rest.length < fuel)
    (before : ∀ i < place, accept (index + i) = false)
    (reached : accept (index + place) = true) :
    s.seek x (fun i _ => accept i) fuel index (s.links.next start) =
      some rest[place]? := by
  induction rest generalizing start fuel index place with
  | nil =>
    obtain ⟨less, rfl⟩ : ∃ less, fuel = less + 1 := ⟨fuel - 1, by omega⟩
    rw [linked.1, seek, if_pos rfl]
    rfl
  | cons c rest induction =>
    obtain ⟨less, rfl⟩ : ∃ less, fuel = less + 1 := ⟨fuel - 1, by omega⟩
    rw [linked.1.1, seek, if_neg Entry.noConfusion]
    cases place with
    | zero =>
      rw [Nat.add_zero] at reached
      rw [if_pos reached]
      rfl
    | succ place =>
      have passed := before 0 (Nat.succ_pos place)
      rw [Nat.add_zero] at passed
      rw [if_neg (Bool.eq_false_iff.mp passed)]
      apply induction linked.2 (Nat.succ_lt_succ_iff.mp enough)
      · intro i below
        have := before (i + 1) (Nat.succ_lt_succ below)
        rwa [Nat.add_right_comm index 1 i]
      · rwa [Nat.add_right_comm index 1 place]

variable {list : List Nat}

theorem search_place (ring : s.links.Ring (.sub x) (list.map .self))
    {accept : Nat → Bool} {fuel place : Nat} (enough : list.length < fuel)
    (before : ∀ i < place, accept i = false) (reached : accept place = true) :
    s.search fuel x (fun i _ => accept i) = some list[place]? := by
  apply seek_place list ring.1 enough
  · intro i below
    rw [Nat.zero_add]
    exact before i below
  · rwa [Nat.zero_add]

theorem ndxmlGetnodei_eq (ring : s.links.Ring (.sub x) (list.map .self))
    {fuel place : Nat} (enough : list.length < fuel) :
    s.ndxmlGetnodei fuel x place = some list[place]? := by
  apply search_place ring enough
  · intro i below
    rw [beq_eq_false_iff_ne]
    omega
  · exact beq_self_eq_true _

end Places

/-- The child stands at a position among the others, which keep their order;
`ndxml_getnodei` finds it there, and it knows its parent. -/
structure PlacedAt (s : Store) (list : List Nat) (parent child place : Nat) :
    Prop where
  ring : s.links.Ring (.sub parent) ((list.insertIdx place child).map .self)
  found : ∀ fuel, list.length + 1 < fuel →
    s.ndxmlGetnodei fuel parent place = some (some child)
  parent : (s.nodes child).bind XmlNode.parent = some parent

section Insertions

variable {s : Store} {list front back : List Nat}
  {parent child brother place : Nat}

theorem insertIdx_length (front back : List Nat) (child : Nat) :
    (front ++ back).insertIdx front.length child = front ++ child :: back := by
  induction front with
  | nil => rfl
  | cons c front induction => exact congrArg (c :: ·) induction

theorem insertIdx_length_succ (front back : List Nat) (there child : Nat) :
    (front ++ there :: back).insertIdx (front.length + 1) child =
      front ++ there :: child :: back := by
  have behind := insertIdx_length (front ++ [there]) back child
  rwa [length_append, append_assoc, append_assoc] at behind

theorem insertIdx_ne (list : List Nat) (within : place ≤ list.length) :
    list.insertIdx place child ≠ list := by
  intro same
  have longer := congrArg length same
  rw [length_insertIdx_of_le_length within] at longer
  omega

theorem PlacedAt.of_ring (within : place ≤ list.length)
    (ring : s.links.Ring (.sub parent)
      ((list.insertIdx place child).map .self))
    (isParent : (s.nodes child).bind XmlNode.parent = some parent) :
    s.PlacedAt list parent child place where
  ring := ring
  found := by
    intro fuel enough
    rw [ndxmlGetnodei_eq ring
      (by rwa [length_insertIdx_of_le_length within])]
    congr 1
    exact getElem?_insertIdx_self.trans (if_pos within)
  parent := isParent

theorem adopted_parent (live : s.Live child) :
    ((s.adopted parent child).nodes child).bind XmlNode.parent =
      some parent := by
  obtain ⟨node, present⟩ := live.nodes
  rw [adopted_nodes, present]
  exact if_pos rfl

theorem self_not_mem (absent : child ∉ list) :
    Entry.self child ∉ Entry.sub parent :: list.map .self := by
  intro member
  rcases mem_cons.mp member with same | inside
  · cases same
  · exact absent ((mem_map_of_injective self_injective).mp inside)

theorem ndxmlInsert_placed (ring : s.links.Ring (.sub parent) (list.map .self))
    (live : s.Live child) (absent : child ∉ list) :
    (s.ndxmlInsert parent child).PlacedAt list parent child list.length := by
  have added := ring.addTail (.self child) (self_not_mem absent)
  apply PlacedAt.of_ring (Nat.le_refl _)
  · rw [insertIdx_length_self, map_append]
    exact added
  · exact adopted_parent live

/-- What `ndxml_insert_ex` does: its walk stops at the child at the index, and
the new one is added behind that child. -/
theorem ndxmlInsertEx_eq (ring : s.links.Ring (.sub parent) (list.map .self))
    {fuel : Nat} (enough : list.length < fuel) :
    s.ndxmlInsertEx fuel parent child place =
      match list[place]? with
      | none => some (s.ndxmlInsert parent child)
      | some there =>
        some ((s.relink (s.links.add (.self child) (.self there))).modify
          parent fun node => { node with subNum := node.subNum + 1 }) := by
  have sought : s.search fuel parent
      (fun i _ => decide ((place : Int) ≤ i)) = some list[place]? := by
    apply search_place ring enough
    · intro i below
      exact decide_eq_false (by omega)
    · exact decide_eq_true (Int.le_refl _)
  rw [ndxmlInsertEx, if_pos (by omega), sought]
  cases list[place]? with
  | none | some there => rfl

theorem split_at {there : Nat} (at_ : list[place]? = some there) :
    ∃ front back, list = front ++ there :: back ∧ front.length = place := by
  obtain ⟨inside, same⟩ := List.getElem?_eq_some_iff.mp at_
  refine ⟨list.take place, list.drop (place + 1), ?_, ?_⟩
  · rw [← same, getElem_cons_drop, take_append_drop]
  · rw [length_take, Nat.min_eq_left (Nat.le_of_lt inside)]

theorem ndxmlInsertEx_behind
    (ring : s.links.Ring (.sub parent) (list.map .self)) (absent : child ∉ list)
    (inside : place < list.length) {fuel : Nat} (enough : list.length < fuel) :
    ∃ s', s.ndxmlInsertEx fuel parent child place = some s' ∧
      s'.links.Ring (.sub parent)
        ((list.insertIdx (place + 1) child).map .self) := by
  have there := getElem?_eq_getElem inside
  rw [ndxmlInsertEx_eq ring enough, there]
  refine ⟨_, rfl, ?_⟩
  obtain ⟨front, back, split, rfl⟩ := split_at there
  have alone : Entry.self child ∉ Entry.sub parent :: list.map .self :=
    self_not_mem absent
  have before := insertIdx_length_succ front back list[front.length] child
  rw [← split] at before
  rw [before, map_append]
  rw [split, map_append, map_cons] at ring alone
  exact ring.add_entry alone

theorem insertBeside_placed (live : s.Live child) (absent : child ∉ list)
    (ring : s.links.Ring (.sub parent) (list.map .self))
    (split : list = front ++ brother :: back) :
    ((s.relink (s.links.add (.self child) (.self brother))).adopted parent
        child).PlacedAt list parent child (front.length + 1) ∧
      ((s.relink (s.links.addTail (.self child) (.self brother))).adopted
        parent child).PlacedAt list parent child front.length := by
  have alone : Entry.self child ∉ Entry.sub parent :: list.map .self :=
    self_not_mem absent
  subst split
  rw [map_append, map_cons] at ring alone
  constructor
  · apply PlacedAt.of_ring (by simp)
    · rw [insertIdx_length_succ, map_append]
      exact ring.add_entry alone
    · exact adopted_parent (s := s.relink _) live
  · apply PlacedAt.of_ring (by simp)
    · rw [insertIdx_length, map_append]
      exact ring.addTail_entry alone
    · exact adopted_parent (s := s.relink _) live

/-- For every list of children and every node that is not in it:
`ndxml_insert_ex` fills a position exactly at the end of the list, and next to
a brother that knows its parent the child stands where it was meant to. -/
theorem insertions_placed_iff
    (ring : s.links.Ring (.sub parent) (list.map .self))
    (live : s.Live child) (absent : child ∉ list) :
    (∀ place ≤ list.length, ∀ fuel, list.length < fuel →
      ((∃ s', s.ndxmlInsertEx fuel parent child place = some s' ∧
          s'.PlacedAt list parent child place) ↔ place = list.length)) ∧
    ∀ (place brother : Nat), list[place]? = some brother → brother ≠ parent →
      ((s.ndxmlInsertAfter parent child brother).PlacedAt list parent child
          (place + 1) ↔
        (s.nodes brother).bind XmlNode.parent = some parent) ∧
      ((s.ndxmlInsertBefore parent child brother).PlacedAt list parent child
          place ↔
        (s.nodes brother).bind XmlNode.parent = some parent) := by
  constructor
  · intro place within fuel enough
    constructor
    · rintro ⟨s', inserted, placed⟩
      by_contra differs
      have inside : place < list.length := by omega
      obtain ⟨after, same, behind⟩ :=
        ndxmlInsertEx_behind ring absent inside enough
      obtain rfl := Option.some.inj (inserted.symm.trans same)
      have equal := map_injective_iff.mpr self_injective
        (placed.ring.unique behind)
      have here : (list.insertIdx place child)[place]? =
          (list.insertIdx (place + 1) child)[place]? := by rw [equal]
      rw [getElem?_insertIdx_self, if_pos within,
        getElem?_insertIdx_of_lt (Nat.lt_succ_self place)] at here
      exact absent (mem_of_getElem? here.symm)
    · rintro rfl
      refine ⟨_, ?_, ndxmlInsert_placed ring live absent⟩
      rw [ndxmlInsertEx_eq ring enough, getElem?_eq_none (Nat.le_refl _)]
  · intro place brother there notParent
    have inside := (List.getElem?_eq_some_iff.mp there).1
    obtain ⟨front, back, split, rfl⟩ := split_at there
    obtain ⟨behind, before⟩ := insertBeside_placed live absent ring split
    have same : ∀ place, place ≤ list.length →
        ¬ s.PlacedAt list parent child place := by
      intro place within placed
      exact insertIdx_ne list within
        (map_injective_iff.mpr self_injective (placed.ring.unique ring))
    rw [ndxmlInsertAfter, ndxmlInsertBefore, if_neg notParent, if_neg notParent]
    by_cases isParent : (s.nodes brother).bind XmlNode.parent = some parent
    · rw [if_neg (not_not_intro isParent), if_neg (not_not_intro isParent)]
      exact ⟨iff_of_true behind isParent, iff_of_true before isParent⟩
    · rw [if_pos isParent, if_pos isParent]
      exact ⟨iff_of_false (same _ inside) isParent,
        iff_of_false (same _ (Nat.le_of_lt inside)) isParent⟩

def oneChild : Store :=
  (empty.allocXml.1.ndxmlAddsubnode 0 (some ['a']) none).allocXml.1

/-- The other node is put in front of the child and comes to stand behind it,
without a parent. -/
theorem insertEx_first_becomes_second :
    oneChild.childList 0 = some [1] ∧ oneChild.Unlinked 2 ∧
      ∃ s, oneChild.ndxmlInsertEx 8 0 2 0 = some s ∧
        s.childList 0 = some [1, 2] ∧
        s.ndxmlGetnodei 8 0 0 = some (some 1) ∧
        (s.nodes 2).bind XmlNode.parent = none :=
  ⟨rfl, rfl, _, rfl, rfl, rfl, rfl⟩

/-- The places that are filled as asked. -/
theorem insertions_placed_oneChild :
    (∃ s, oneChild.ndxmlInsertEx 8 0 2 1 = some s ∧ s.PlacedAt [1] 0 2 1) ∧
      (oneChild.ndxmlInsertAfter 0 2 1).PlacedAt [1] 0 2 1 ∧
      (oneChild.ndxmlInsertBefore 0 2 1).PlacedAt [1] 0 2 0 := by
  have ring : oneChild.links.Ring (.sub 0) ([1].map .self) :=
    ⟨⟨⟨rfl, rfl⟩, rfl, rfl⟩, by decide⟩
  have live : oneChild.Live 2 := rfl
  have placed := insertions_placed_iff ring live (by decide)
  obtain ⟨after, before⟩ := placed.2 0 1 rfl (by decide)
  exact ⟨(placed.1 1 (Nat.le_refl _) 8 (by decide)).mpr rfl, after.mpr rfl,
    before.mpr rfl⟩

end Insertions

end Store

end NdNet.Xml
