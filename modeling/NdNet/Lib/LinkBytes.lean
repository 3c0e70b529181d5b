import Mathlib.Algebra.GroupWithZero.Nat
import NdNet.Lib.Ring

/-!
# Rings in a memory of bytes

Entries of a ring may be kept in plain memory, a `next` and behind it a `prev`
pointer of eight bytes each at the address of the entry.  If no two of them
overlap, the memory seen as a `LinkTable` follows the writes of the rings, and
whatever is done to bytes elsewhere leaves the rings alone.
-/

namespace NdNet

open List

abbrev Bytes := Nat → UInt8

variable {count address value : Nat}

namespace Bytes

def load (bytes : Bytes) : Nat → Nat → Nat
  | 0, _ => 0
  | count + 1, address =>
    (bytes address).toNat + 256 * bytes.load count (address + 1)

def store (bytes : Bytes) (count address value : Nat) : Bytes :=
  fun target =>
    if address ≤ target ∧ target < address + count then
      UInt8.ofNat (value / 256 ^ (target - address))
    else bytes target

theorem load_congr {bytes other : Bytes} {count address : Nat}
    (same : ∀ target, address ≤ target → target < address + count →
      other target = bytes target) :
    other.load count address = bytes.load count address := by
  induction count generalizing address with
  | zero => rfl
  | succ count induction =>
    rw [load, load, same address (Nat.le_refl _) (by omega)]
    congr 2
    apply induction
    intro target low high
    exact same target (by omega) (by omega)

theorem load_store_of_apart (bytes : Bytes) {number target : Nat}
    (apart : target + number ≤ address ∨ address + count ≤ target) :
    (bytes.store count address value).load number target =
      bytes.load number target := by
  apply load_congr
  intro place low high
  exact if_neg (by omega)

theorem load_digits {bytes : Bytes}
    (digits : ∀ index < count, bytes (address + index) =
      UInt8.ofNat (value / 256 ^ index)) :
    bytes.load count address = value % 256 ^ count := by
  induction count generalizing address value with
  | zero => rw [load, Nat.pow_zero, Nat.mod_one]
  | succ count induction =>
    have first := digits 0 (Nat.succ_pos _)
    rw [Nat.add_zero, Nat.pow_zero, Nat.div_one] at first
    have rest : bytes.load count (address + 1) =
        value / 256 % 256 ^ count := by
      apply induction
      intro index inside
      rw [Nat.div_div_eq_div_mul, ← Nat.pow_succ', Nat.add_right_comm]
      exact digits (index + 1) (Nat.succ_lt_succ inside)
    rw [load, first, rest, Nat.pow_succ', Nat.mod_mul]
    congr 1

theorem load_store (bytes : Bytes) (fits : value < 256 ^ count) :
    (bytes.store count address value).load count address = value := by
  have digits : ∀ index < count,
      bytes.store count address value (address + index) =
        UInt8.ofNat (value / 256 ^ index) := by
    intro index inside
    unfold store
    rw [if_pos ⟨Nat.le_add_right _ _, Nat.add_lt_add_left inside _⟩,
      Nat.add_sub_cancel_left]
  rw [load_digits digits, Nat.mod_eq_of_lt fits]

def pointers (bytes : Bytes) : LinkTable Nat where
  next address := bytes.load 8 address
  prev address := bytes.load 8 (address + 8)

def setNext (bytes : Bytes) (address target : Nat) : Bytes :=
  bytes.store 8 address target

def setPrev (bytes : Bytes) (address target : Nat) : Bytes :=
  bytes.store 8 (address + 8) target

def init (bytes : Bytes) (entry : Nat) : Bytes :=
  (bytes.setNext entry entry).setPrev entry entry

/-- `node` comes to stand between `before` and `after`. -/
def insert (bytes : Bytes) (node before after : Nat) : Bytes :=
  (((bytes.setPrev after node).setNext node after).setPrev node before).setNext
    before node

def add (bytes : Bytes) (node place : Nat) : Bytes :=
  bytes.insert node place (bytes.pointers.next place)

def addTail (bytes : Bytes) (node place : Nat) : Bytes :=
  bytes.insert node (bytes.pointers.prev place) place

def link (bytes : Bytes) (before after : Nat) : Bytes :=
  (bytes.setPrev after before).setNext before after

def delInit (bytes : Bytes) (entry : Nat) : Bytes :=
  (bytes.link (bytes.pointers.prev entry) (bytes.pointers.next entry)).init
    entry

/-- Addresses that eight bytes can hold, with room for two pointers at each. -/
structure Spaced (places : Set Nat) : Prop where
  apart : ∀ a ∈ places, ∀ b ∈ places, a ≠ b → a + 16 ≤ b ∨ b + 16 ≤ a
  fits : ∀ a ∈ places, a < 256 ^ 8

/-- The bytes at some places hold the pointers of a table. -/
def Holds (places : Set Nat) (bytes : Bytes) (links : LinkTable Nat) : Prop :=
  ∀ a ∈ places, bytes.pointers.next a = links.next a ∧
    bytes.pointers.prev a = links.prev a

theorem holds_pointers (places : Set Nat) (bytes : Bytes) :
    Holds places bytes bytes.pointers :=
  fun _ _ => ⟨rfl, rfl⟩

namespace Holds

variable {places : Set Nat} {bytes : Bytes} {links : LinkTable Nat}
  {node before after entry : Nat}

variable (holds : Holds places bytes links)
include holds

theorem setNext (spaced : Spaced places) (inside : node ∈ places)
    (target : after ∈ places) :
    Holds places (bytes.setNext node after)
      ⟨Function.update links.next node after, links.prev⟩ := by
  intro a member
  dsimp only
  constructor
  · by_cases same : a = node
    · rw [same, Function.update_self]
      exact load_store bytes (spaced.fits after target)
    · rw [Function.update_of_ne same, ← (holds a member).1]
      apply load_store_of_apart
      have := spaced.apart a member node inside same
      omega
  · rw [← (holds a member).2]
    apply load_store_of_apart
    by_cases same : a = node
    · omega
    · have := spaced.apart a member node inside same
      omega

theorem setPrev (spaced : Spaced places) (inside : node ∈ places)
    (target : before ∈ places) :
    Holds places (bytes.setPrev node before)
      ⟨links.next, Function.update links.prev node before⟩ := by
  intro a member
  dsimp only
  constructor
  · rw [← (holds a member).1]
    apply load_store_of_apart
    by_cases same : a = node
    · omega
    · have := spaced.apart a member node inside same
      omega
  · by_cases same : a = node
    · rw [same, Function.update_self]
      exact load_store bytes (spaced.fits before target)
    · rw [Function.update_of_ne same, ← (holds a member).2]
      apply load_store_of_apart
      have := spaced.apart a member node inside same
      omega

theorem init (spaced : Spaced places) (inside : entry ∈ places) :
    Holds places (bytes.init entry) (links.init entry) :=
  (holds.setNext spaced inside inside).setPrev spaced inside inside

theorem insert (spaced : Spaced places) (insideNode : node ∈ places)
    (insideBefore : before ∈ places) (insideAfter : after ∈ places) :
    Holds places (bytes.insert node before after)
      (links.insert node before after) :=
  (((holds.setPrev spaced insideAfter insideNode).setNext spaced insideNode
    insideAfter).setPrev spaced insideNode insideBefore).setNext spaced
      insideBefore insideNode

theorem ring {head : Nat} {entries : List Nat} (ring : links.Ring head entries)
    (inside : ∀ e ∈ head :: entries, e ∈ places) :
    bytes.pointers.Ring head entries :=
  ring.congr fun e member => holds e (inside e member)

end Holds

section Rings

variable {places : Set Nat} {bytes other : Bytes} {head node entry : Nat}
  {entries : List Nat}

section

variable (ring : bytes.pointers.Ring head entries)
include ring

theorem ring_congr
    (same : ∀ e ∈ head :: entries, ∀ target, e ≤ target →
      target < e + 16 → other target = bytes target) :
    other.pointers.Ring head entries := by
  apply ring.congr
  intro e member
  constructor
  · apply load_congr
    intro target low high
    exact same e member target low (by omega)
  · apply load_congr
    intro target low high
    exact same e member target (by omega) (by omega)

theorem ring_init (spaced : Spaced places)
    (inside : ∀ e ∈ head :: entries, e ∈ places) (insideNode : node ∈ places)
    (alone : node ∉ head :: entries) :
    (bytes.init node).pointers.Ring head entries := by
  refine ((holds_pointers places bytes).init spaced insideNode).ring ?_ inside
  apply ring.congr
  intro e member
  apply LinkTable.init_agrees
  rintro rfl
  exact alone member

theorem ring_add (spaced : Spaced places)
    (inside : ∀ e ∈ head :: entries, e ∈ places) (insideNode : node ∈ places)
    (alone : node ∉ head :: entries) :
    (bytes.add node head).pointers.Ring head (node :: entries) := by
  refine ((holds_pointers places bytes).insert spaced insideNode
    (inside head mem_cons_self) (inside _ ring.next_mem)).ring
      (ring.add node alone) ?_
  rintro e (_ | ⟨_, _ | ⟨_, member⟩⟩)
  · exact inside head mem_cons_self
  · exact insideNode
  · exact inside e (mem_cons_of_mem head member)

theorem ring_addTail (spaced : Spaced places)
    (inside : ∀ e ∈ head :: entries, e ∈ places) (insideNode : node ∈ places)
    (alone : node ∉ head :: entries) :
    (bytes.addTail node head).pointers.Ring head (entries ++ [node]) := by
  refine ((holds_pointers places bytes).insert spaced insideNode
    (inside _ ring.prev_mem) (inside head mem_cons_self)).ring
      (ring.addTail node alone) ?_
  intro e member
  rw [← cons_append, mem_append, mem_singleton] at member
  rcases member with old | rfl
  · exact inside e old
  · exact insideNode

end

theorem ring_delInit (ring : bytes.pointers.Ring head (entry :: entries))
    (spaced : Spaced places)
    (inside : ∀ e ∈ head :: entry :: entries, e ∈ places) :
    (bytes.delInit entry).pointers.Ring head entries := by
  have started : bytes.pointers.Ring head ([] ++ entry :: entries) := ring
  have turned := started.rotate
  have members : ∀ e ∈ entry :: (entries ++ [head]), e ∈ places := by
    intro e member
    apply inside e
    simp only [mem_cons, mem_append, not_mem_nil, or_false] at member ⊢
    tauto
  have next := members _ turned.next_mem
  have prev := members _ turned.prev_mem
  have linked : Holds places
      (bytes.link (bytes.pointers.prev entry) (bytes.pointers.next entry))
      (bytes.pointers.del entry) :=
    ((holds_pointers places bytes).setPrev spaced next prev).setNext spaced
      prev next
  have remaining : ∀ e ∈ head :: entries, e ∈ places := by
    intro e member
    apply inside e
    rcases mem_cons.mp member with rfl | later
    · exact mem_cons_self
    · exact mem_cons_of_mem _ (mem_cons_of_mem _ later)
  refine ring_init (linked.ring ?_ remaining) spaced remaining
    (inside entry (mem_cons_of_mem _ mem_cons_self)) ?_
  · exact started.del_entry
  · have distinct := turned.2
    intro member
    apply (nodup_cons.mp distinct).1
    rw [mem_append, mem_singleton]
    rcases mem_cons.mp member with same | later
    · exact .inr same
    · exact .inl later

end Rings

end Bytes

end NdNet
