import Mathlib.Data.List.Nodup
import Mathlib.Logic.Function.Basic

/-!
# Rings of doubly linked entries

A memory of entries with a `next` and a `prev` pointer each, and the writes by
which entries are put into rings and taken out of them.  A ring is seen from
one of its entries, its head: `Ring memory head entries` says that following
`next` from the head meets `entries` in turn and comes back to the head, and
that `prev` leads the other way.
-/

namespace NdNet

open List

/-- The pointers of all entries. -/
structure LinkTable (α : Type*) where
  next : α → α
  prev : α → α

namespace LinkTable

variable {α : Type*}

/-- Between `first` and `last` stand `entries`, linked both ways. -/
def Linked (links : LinkTable α) : α → List α → α → Prop
  | first, [], last => links.next first = last ∧ links.prev last = first
  | first, entry :: entries, last =>
    (links.next first = entry ∧ links.prev entry = first) ∧
      links.Linked entry entries last

def Ring (links : LinkTable α) (head : α) (entries : List α) : Prop :=
  links.Linked head entries head ∧ (head :: entries).Nodup

section Chains

variable {links other : LinkTable α} {first last entry : α}
  {front back entries : List α}

theorem linked_append : links.Linked first (front ++ entry :: back) last ↔
    links.Linked first front entry ∧ links.Linked entry back last := by
  induction front generalizing first with
  | nil => exact Iff.rfl
  | cons head front induction =>
    rw [cons_append, Linked, Linked, induction]
    exact and_assoc.symm

/-- A chain needs the `next` pointers up to its last entry and the `prev`
pointers from its first one on. -/
theorem Linked.congr (linked : links.Linked first entries last)
    (nexts : ∀ e ∈ first :: entries, other.next e = links.next e)
    (prevs : ∀ e ∈ entries ++ [last], other.prev e = links.prev e) :
    other.Linked first entries last := by
  induction entries generalizing first with
  | nil =>
    rw [Linked, nexts first mem_cons_self, prevs last mem_cons_self]
    exact linked
  | cons entry entries induction =>
    obtain ⟨firstNext, others⟩ := forall_mem_cons.mp nexts
    obtain ⟨firstPrev, prevs⟩ := forall_mem_cons.mp prevs
    refine ⟨?_, induction linked.2 others prevs⟩
    rw [firstNext, firstPrev]
    exact linked.1

theorem Ring.rotate (ring : links.Ring first (front ++ entry :: back)) :
    links.Ring entry (back ++ first :: front) := by
  obtain ⟨linked, distinct⟩ := ring
  obtain ⟨leading, trailing⟩ := linked_append.mp linked
  refine ⟨linked_append.mpr ⟨trailing, leading⟩, ?_⟩
  have same : (entry :: (back ++ first :: front)).Perm
      (first :: (front ++ entry :: back)) := by
    rw [← cons_append, ← cons_append]
    exact perm_append_comm
  exact same.nodup_iff.mpr distinct

section

variable (ring : links.Ring first entries)
include ring

theorem Ring.congr
    (same : ∀ e ∈ first :: entries,
      other.next e = links.next e ∧ other.prev e = links.prev e) :
    other.Ring first entries := by
  refine ⟨ring.1.congr (fun e member => (same e member).1) ?_, ring.2⟩
  intro e member
  apply (same e _).2
  rw [mem_append, mem_singleton] at member
  rw [mem_cons]
  exact member.symm

theorem Ring.next_ne
    (member : entry ∈ entries) : links.next entry ≠ entry := by
  obtain ⟨front, back, rfl⟩ := append_of_mem member
  obtain ⟨linked, distinct⟩ := ring.rotate
  intro loop
  cases back with
  | nil =>
    have next : links.next entry = first := linked.1.1
    apply (nodup_cons.mp distinct).1
    rw [← loop, next]
    exact mem_cons_self
  | cons head back =>
    have next : links.next entry = head := linked.1.1
    apply (nodup_cons.mp distinct).1
    rw [← loop, next]
    exact mem_cons_self

theorem Ring.next_mem :
    links.next first ∈ first :: entries := by
  cases entries with
  | nil =>
    rw [ring.1.1]
    exact mem_cons_self
  | cons head entries =>
    rw [ring.1.1.1]
    exact mem_cons_of_mem _ mem_cons_self

theorem Ring.prev_mem :
    links.prev first ∈ first :: entries := by
  rcases eq_nil_or_concat entries with rfl | ⟨front, entry, rfl⟩
  · rw [ring.1.2]
    exact mem_cons_self
  · rw [concat_eq_append] at ring ⊢
    obtain ⟨-, closing⟩ := linked_append.mp ring.1
    rw [closing.2]
    simp

theorem Ring.next_prev :
    links.next (links.prev first) = first := by
  rcases eq_nil_or_concat entries with rfl | ⟨front, entry, rfl⟩
  · rw [ring.1.2, ring.1.1]
  · rw [concat_eq_append] at ring
    obtain ⟨-, closing⟩ := linked_append.mp ring.1
    rw [closing.2, closing.1]

end

theorem ring_nil (next : links.next first = first)
    (prev : links.prev first = first) : links.Ring first [] :=
  ⟨⟨next, prev⟩, nodup_singleton first⟩

end Chains

section Writes

variable [DecidableEq α]

/-- `node` comes to stand between `before` and `after`. -/
def insert (links : LinkTable α) (node before after : α) : LinkTable α where
  next := Function.update (Function.update links.next node after) before node
  prev := Function.update (Function.update links.prev after node) node before

def add (links : LinkTable α) (node place : α) : LinkTable α :=
  links.insert node place (links.next place)

def addTail (links : LinkTable α) (node place : α) : LinkTable α :=
  links.insert node (links.prev place) place

def del (links : LinkTable α) (entry : α) : LinkTable α where
  next := Function.update links.next (links.prev entry) (links.next entry)
  prev := Function.update links.prev (links.next entry) (links.prev entry)

def init (links : LinkTable α) (entry : α) : LinkTable α where
  next := Function.update links.next entry entry
  prev := Function.update links.prev entry entry

def delInit (links : LinkTable α) (entry : α) : LinkTable α :=
  (links.del entry).init entry

/-- The entries of the ring of `list` come to stand behind `head`, and `list`
is left alone. -/
def join (links : LinkTable α) (list head : α) : LinkTable α :=
  let first := links.next list
  if first = list then links
  else
    let last := links.prev list
    let place := links.next head
    init
      { next := Function.update (Function.update links.next head first)
          last place
        prev := Function.update (Function.update links.prev first head)
          place last }
      list

/-- The entries met from `position` on until `head` is met. -/
def walk (links : LinkTable α) (head : α) : Nat → α → Option (List α)
  | 0, position => if position = head then some [] else none
  | fuel + 1, position =>
    if position = head then some []
    else
      (links.walk head fuel (links.next position)).map (position :: ·)

end Writes

section Effects

variable [DecidableEq α] {links : LinkTable α} {first head node entry : α}
  {front back entries : List α}

theorem Ring.walk_eq (ring : links.Ring first entries) {fuel : Nat}
    (enough : entries.length ≤ fuel) :
    links.walk first fuel (links.next first) = some entries := by
  obtain ⟨linked, distinct⟩ := ring
  have absent := (nodup_cons.mp distinct).1
  have walks : ∀ (start : α) (rest : List α) (fuel : Nat),
      links.Linked start rest first → first ∉ rest → rest.length ≤ fuel →
      links.walk first fuel (links.next start) = some rest := by
    intro start rest
    induction rest generalizing start with
    | nil =>
      intro fuel linked _ _
      cases fuel <;> rw [walk, if_pos linked.1]
    | cons head rest induction =>
      intro fuel linked absent enough
      rw [mem_cons, not_or] at absent
      rw [length_cons] at enough
      obtain ⟨less, rfl⟩ : ∃ less, fuel = less + 1 :=
        ⟨fuel - 1, by omega⟩
      rw [linked.1.1, walk, if_neg (Ne.symm absent.1),
        induction head less linked.2 absent.2 (by omega)]
      rfl
  exact walks first entries fuel linked absent enough

theorem Ring.unique (ring : links.Ring first entries) {others : List α}
    (another : links.Ring first others) : entries = others := by
  have walked := ring.walk_eq (Nat.le_max_left entries.length others.length)
  have again := another.walk_eq
    (Nat.le_max_right entries.length others.length)
  exact Option.some.inj (walked.symm.trans again)

section

variable (links : LinkTable α)

theorem insert_next (node before after : α) :
    (links.insert node before after).next =
      Function.update (Function.update links.next node after) before node :=
  rfl

theorem insert_prev (node before after : α) :
    (links.insert node before after).prev =
      Function.update (Function.update links.prev after node) node before :=
  rfl

theorem del_next (entry : α) :
    (links.del entry).next =
      Function.update links.next (links.prev entry) (links.next entry) :=
  rfl

theorem del_prev (entry : α) :
    (links.del entry).prev =
      Function.update links.prev (links.next entry) (links.prev entry) :=
  rfl

theorem init_next (entry : α) :
    (links.init entry).next = Function.update links.next entry entry :=
  rfl

theorem init_prev (entry : α) :
    (links.init entry).prev = Function.update links.prev entry entry :=
  rfl

theorem insert_agrees {node before after e : α} (notNode : e ≠ node)
    (notBefore : e ≠ before) (notAfter : e ≠ after) :
    (links.insert node before after).next e = links.next e ∧
      (links.insert node before after).prev e = links.prev e := by
  constructor
  · rw [insert_next, Function.update_of_ne notBefore,
      Function.update_of_ne notNode]
  · rw [insert_prev, Function.update_of_ne notNode,
      Function.update_of_ne notAfter]

theorem del_agrees {entry e : α} (notPrev : e ≠ links.prev entry)
    (notNext : e ≠ links.next entry) :
    (links.del entry).next e = links.next e ∧
      (links.del entry).prev e = links.prev e := by
  constructor
  · rw [del_next, Function.update_of_ne notPrev]
  · rw [del_prev, Function.update_of_ne notNext]

theorem init_agrees {entry e : α} (differs : e ≠ entry) :
    (links.init entry).next e = links.next e ∧
      (links.init entry).prev e = links.prev e := by
  constructor
  · rw [init_next, Function.update_of_ne differs]
  · rw [init_prev, Function.update_of_ne differs]

end

theorem del_alone (next : links.next entry = entry)
    (prev : links.prev entry = entry) : links.del entry = links := by
  rw [del, next, prev]
  have sameNext : Function.update links.next entry entry = links.next := by
    rw [Function.update_eq_self_iff, next]
  have samePrev : Function.update links.prev entry entry = links.prev := by
    rw [Function.update_eq_self_iff, prev]
  rw [sameNext, samePrev]

theorem delInit_alone (next : links.next entry = entry)
    (prev : links.prev entry = entry) : links.delInit entry = links := by
  rw [delInit, del_alone next prev, init]
  have sameNext : Function.update links.next entry entry = links.next := by
    rw [Function.update_eq_self_iff, next]
  have samePrev : Function.update links.prev entry entry = links.prev := by
    rw [Function.update_eq_self_iff, prev]
  rw [sameNext, samePrev]

theorem Ring.add (ring : links.Ring head entries) (node : α)
    (alone : node ∉ head :: entries) :
    (links.add node head).Ring head (node :: entries) := by
  obtain ⟨linked, distinct⟩ := ring
  have differs : node ≠ head := fun same =>
    alone (same ▸ mem_cons_self)
  have absent : node ∉ entries := fun member =>
    alone (mem_cons_of_mem _ member)
  have headNext : (links.add node head).next head = node :=
    Function.update_self _ _ _
  have nodePrev : (links.add node head).prev node = head :=
    Function.update_self _ _ _
  have nodeNext : (links.add node head).next node = links.next head := by
    rw [LinkTable.add, insert_next, Function.update_of_ne differs,
      Function.update_self]
  refine ⟨⟨⟨headNext, nodePrev⟩, ?_⟩, ?_⟩
  · cases entries with
    | nil =>
      rw [Linked, nodeNext]
      refine ⟨linked.1, ?_⟩
      rw [LinkTable.add, insert_prev, linked.1,
        Function.update_of_ne differs.symm, Function.update_self]
    | cons first entries =>
      have firstHead : first ≠ head := by
        rintro rfl
        exact (nodup_cons.mp distinct).1 mem_cons_self
      have firstAbsent := (nodup_cons.mp
        (nodup_cons.mp distinct).2).1
      have nodeFirst : first ≠ node := by
        rintro rfl
        exact absent mem_cons_self
      have firstPrev : (links.add node head).prev first = node := by
        rw [LinkTable.add, insert_prev, linked.1.1,
          Function.update_of_ne nodeFirst, Function.update_self]
      refine ⟨⟨nodeNext.trans linked.1.1, firstPrev⟩, ?_⟩
      refine linked.2.congr ?_ ?_
      · intro e member
        rw [LinkTable.add, insert_next, Function.update_of_ne,
          Function.update_of_ne]
        · rintro rfl
          exact absent member
        · rintro rfl
          exact (nodup_cons.mp distinct).1 member
      · intro e member
        rw [LinkTable.add, insert_prev, linked.1.1, Function.update_of_ne,
          Function.update_of_ne]
        · rintro rfl
          rcases mem_append.mp member with inside | single
          · exact firstAbsent inside
          · exact firstHead (mem_singleton.mp single)
        · rintro rfl
          rcases mem_append.mp member with inside | single
          · exact absent (mem_cons_of_mem _ inside)
          · exact differs (mem_singleton.mp single)
  · have swapped : (head :: node :: entries).Perm (node :: head :: entries) :=
      List.Perm.swap _ _ _
    exact swapped.nodup_iff.mpr (nodup_cons.mpr ⟨alone, distinct⟩)

theorem Ring.add_entry (ring : links.Ring head (front ++ entry :: back))
    (alone : node ∉ head :: (front ++ entry :: back)) :
    (links.add node entry).Ring head (front ++ entry :: node :: back) := by
  have turned := ring.rotate.add node (by
    simp only [mem_cons, mem_append, not_or] at alone ⊢
    tauto)
  exact turned.rotate

theorem Ring.addTail_eq (ring : links.Ring head entries) (node : α) :
    links.addTail node head = links.add node (links.prev head) := by
  rw [addTail, LinkTable.add, ring.next_prev]

theorem Ring.addTail (ring : links.Ring head entries) (node : α)
    (alone : node ∉ head :: entries) :
    (links.addTail node head).Ring head (entries ++ [node]) := by
  rw [ring.addTail_eq]
  rcases eq_nil_or_concat entries with rfl | ⟨front, entry, rfl⟩
  · rw [ring.1.2]
    exact ring.add node alone
  · rw [concat_eq_append] at ring alone ⊢
    obtain ⟨-, closing⟩ := linked_append.mp ring.1
    rw [closing.2, append_assoc]
    exact ring.add_entry alone

theorem Ring.addTail_entry (ring : links.Ring head (front ++ entry :: back))
    (alone : node ∉ head :: (front ++ entry :: back)) :
    (links.addTail node entry).Ring head (front ++ node :: entry :: back) := by
  have turned := ring.rotate.addTail node (by
    simp only [mem_cons, mem_append, not_or] at alone ⊢
    tauto)
  rw [append_assoc, cons_append] at turned
  have rotated := turned.rotate
  rwa [append_assoc] at rotated

theorem Ring.del_head (ring : links.Ring head (entry :: entries)) :
    (links.del head).Ring entry entries := by
  obtain ⟨linked, distinct⟩ := ring
  obtain ⟨headAbsent, rest⟩ := nodup_cons.mp distinct
  refine ⟨?_, rest⟩
  have next : links.next head = entry := linked.1.1
  rcases eq_nil_or_concat entries with rfl | ⟨front, last, rfl⟩
  · have prev : links.prev head = entry := linked.2.2
    refine ⟨?_, ?_⟩
    · rw [del_next, prev, Function.update_self, next]
    · rw [del_prev, next, Function.update_self, prev]
  · rw [concat_eq_append] at linked rest ⊢
    obtain ⟨chain, closing⟩ := linked_append.mp linked.2
    have prev : links.prev head = last := closing.2
    obtain ⟨entryAbsent, distinctFront⟩ := nodup_cons.mp rest
    refine linked_append.mpr ⟨chain.congr ?_ ?_, ?_, ?_⟩
    · intro e member
      rw [del_next, prev, Function.update_of_ne]
      rintro rfl
      rcases mem_cons.mp member with rfl | inside
      · exact entryAbsent (by simp)
      · have := (nodup_append.mp distinctFront).2.2 e inside e (by simp)
        exact this rfl
    · intro e member
      rw [del_prev, next, Function.update_of_ne]
      rintro rfl
      exact entryAbsent member
    · rw [del_next, prev, Function.update_self, next]
    · rw [del_prev, next, Function.update_self, prev]

theorem Ring.del_entry (ring : links.Ring head (front ++ entry :: back)) :
    (links.del entry).Ring head (front ++ back) := by
  have turned := ring.rotate
  cases back with
  | nil =>
    rw [append_nil]
    exact turned.del_head
  | cons next back =>
    exact turned.del_head.rotate

end Effects

end LinkTable

end NdNet
