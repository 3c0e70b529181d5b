import NdNet.Lib.Store

/-!
# A memory that notes what is touched

A memory has a cell at every address.  Loads and stores are of ranges of cells,
and each leaves its range in `touched`, so that it can be said afterwards which
cells a piece of code has looked at or changed.

`Within first last` relates two memories between which only cells of `[first,
last)` have been touched.
-/

namespace NdNet

open List

/-- The cells at all addresses, and the ranges touched so far, each by its first
address and its length. -/
structure Mem (α : Type) where
  cells : Int → α
  touched : List (Int × Nat)

variable {count : Nat}

namespace Mem

variable {α : Type}

def bytes (memory : Mem α) (address : Int) (count : Nat) : List α :=
  (List.range count).map fun index : Nat => memory.cells (address + index)

def load (memory : Mem α) (address : Int) (count : Nat) : List α × Mem α :=
  (memory.bytes address count,
    { memory with touched := memory.touched ++ [(address, count)] })

def store (memory : Mem α) (address : Int) (block : List α) : Mem α where
  cells target :=
    if address ≤ target then
      (block[(target - address).toNat]?).getD (memory.cells target)
    else memory.cells target
  touched := memory.touched ++ [(address, block.length)]

def reverse (memory : Mem α) (address : Int) (count : Nat) : Mem α :=
  let word := memory.load address count
  word.2.store address word.1.reverse

def untouched (cells : Int → α) : Mem α :=
  { cells := cells, touched := [] }

/-- All ranges touched are in `[first, last)`. -/
def Touches (memory : Mem α) (first last : Int) : Prop :=
  ∀ range ∈ memory.touched, first ≤ range.1 ∧ range.1 + range.2 ≤ last

section Cells

variable (memory : Mem α) (address : Int)

@[simp] theorem length_bytes (count : Nat) :
    (memory.bytes address count).length = count := by
  simp [bytes]

theorem getElem?_bytes (count index : Nat) :
    (memory.bytes address count)[index]? =
      if index < count then some (memory.cells (address + index)) else none := by
  by_cases inside : index < count
  · simp [bytes, inside]
  · simp [bytes, inside]

@[simp] theorem load_cells (count : Nat) :
    (memory.load address count).2.cells = memory.cells :=
  rfl

@[simp] theorem load_bytes (count : Nat) :
    (memory.load address count).1 = memory.bytes address count :=
  rfl

theorem store_cells (block : List α) (index : Nat) :
    (memory.store address block).cells (address + index) =
      (block[index]?).getD (memory.cells (address + index)) := by
  have reach : (address + index - address).toNat = index := by omega
  simp only [store]
  rw [if_pos (by omega), reach]

theorem store_cells_of_outside {block : List α} {target : Int}
    (outside : target < address ∨ address + block.length ≤ target) :
    (memory.store address block).cells target = memory.cells target := by
  simp only [store]
  by_cases before : address ≤ target
  · rw [if_pos before, getElem?_eq_none (by omega)]
    rfl
  · rw [if_neg before]

theorem store_pair (first second : α) :
    (memory.store address [first, second]).cells address = first ∧
      (memory.store address [first, second]).cells (address + 1) = second := by
  have front := memory.store_cells address [first, second] 0
  rw [Int.natCast_zero, Int.add_zero] at front
  exact ⟨front, memory.store_cells address [first, second] 1⟩

theorem store_bytes (original : Mem α) {target : Int}
    (inside : address ≤ target) (bounded : target < address + count) :
    (memory.store address (original.bytes address count)).cells target =
      original.cells target := by
  obtain ⟨index, rfl⟩ : ∃ index : Nat, target = address + index :=
    ⟨(target - address).toNat, by omega⟩
  rw [store_cells, getElem?_bytes, if_pos (by omega)]
  rfl

theorem store_bytes_of_outside {after : Mem α}
    (outside : ∀ target, target < address ∨ address + count ≤ target →
      after.cells target = memory.cells target) :
    (after.store address (memory.bytes address count)).cells =
      memory.cells := by
  funext target
  by_cases inside : address ≤ target ∧ target < address + count
  · exact after.store_bytes address memory inside.1 inside.2
  · have apart : target < address ∨ address + count ≤ target := by omega
    have size := memory.length_bytes address count
    rw [store_cells_of_outside _ _ (by omega)]
    exact outside target apart

theorem reverse_cells (count : Nat) (target : Int) :
    (memory.reverse address count).cells target =
      memory.cells
        (if address ≤ target ∧ target < address + count then
          2 * address + count - 1 - target
        else target) := by
  unfold reverse
  by_cases inside : address ≤ target ∧ target < address + count
  · obtain ⟨index, rfl⟩ : ∃ index : Nat, target = address + index :=
      ⟨(target - address).toNat, by omega⟩
    have bound : index < (memory.bytes address count).length := by
      rw [length_bytes]
      omega
    rw [if_pos inside, store_cells, load_bytes,
      getElem?_reverse bound, getElem?_bytes, length_bytes,
      if_pos (by omega), Option.getD_some]
    congr 1
    omega
  · rw [if_neg inside, store_cells_of_outside, load_cells]
    rw [load_bytes, length_reverse, length_bytes]
    omega

theorem bytes_store (offset count : Nat) (block : List α) :
    (memory.store (address + offset) block).bytes address count =
      Store.overwrite (memory.bytes address count) offset block := by
  apply ext_getElem?
  intro index
  rw [getElem?_bytes, Store.getElem?_overwrite, length_bytes, getElem?_bytes]
  by_cases inside : index < count
  · rw [if_pos inside, if_pos inside]
    by_cases stored : offset ≤ index ∧ index < offset + block.length
    · obtain ⟨further, rfl⟩ := Nat.exists_eq_add_of_le stored.1
      have cell := memory.store_cells (address + offset) block further
      have place : address + offset + further =
          address + ((offset + further : Nat) : Int) := by omega
      have bound : further < block.length := by omega
      rw [place, getElem?_eq_getElem bound, Option.getD_some] at cell
      rw [if_pos ⟨inside, stored⟩, cell, Nat.add_sub_cancel_left,
        getElem?_eq_getElem bound]
    · rw [if_neg (fun all => stored all.2),
        store_cells_of_outside _ _ (by omega)]
  · rw [if_neg inside, if_neg (fun all => inside all.1), if_neg inside]

theorem bytes_store_front (count : Nat) (block : List α) :
    (memory.store address block).bytes address count =
      Store.overwrite (memory.bytes address count) 0 block := by
  have general := memory.bytes_store address 0 count block
  rwa [Int.natCast_zero, Int.add_zero] at general

theorem bytes_store_self (block : List α) :
    (memory.store address block).bytes address block.length = block := by
  apply ext_getElem?
  intro index
  rw [getElem?_bytes]
  by_cases inside : index < block.length
  · rw [if_pos inside, store_cells, getElem?_eq_getElem inside]
    rfl
  · rw [if_neg inside, getElem?_eq_none (Nat.le_of_not_lt inside)]

theorem bytes_add (front back : Nat) :
    memory.bytes address (front + back) =
      memory.bytes address front ++ memory.bytes (address + front) back := by
  apply ext_getElem?
  intro index
  rw [getElem?_bytes, getElem?_append, length_bytes, getElem?_bytes,
    getElem?_bytes]
  by_cases early : index < front
  · rw [if_pos early, if_pos early, if_pos (by omega)]
  · have place : address + front + ((index - front : Nat) : Int) =
        address + index := by omega
    rw [if_neg early, place]
    exact if_congr (by omega) rfl rfl

theorem bytes_congr {memory other : Mem α} {address target : Int}
    (same : ∀ index : Nat, index < count →
      memory.cells (address + index) = other.cells (target + index)) :
    memory.bytes address count = other.bytes target count := by
  apply map_congr_left
  intro index member
  exact same index (mem_range.mp member)

end Cells

/-- Between the two memories only cells of `[first, last)` have been
touched. -/
structure Within (first last : Int) (memory after : Mem α) : Prop where
  touched : ∃ ranges, after.touched = memory.touched ++ ranges ∧
    ∀ range ∈ ranges, first ≤ range.1 ∧ range.1 + range.2 ≤ last
  cells : ∀ target, target < first ∨ last ≤ target →
    after.cells target = memory.cells target

section Within

variable {first last : Int} {memory between after : Mem α}

theorem Within.refl (first last : Int) (memory : Mem α) :
    Within first last memory memory where
  touched := ⟨[], (append_nil _).symm,
    fun _ member => absurd member not_mem_nil⟩
  cells := fun _ _ => rfl

theorem Within.trans (front : Within first last memory between)
    (back : Within first last between after) :
    Within first last memory after where
  touched := by
    obtain ⟨ranges, joined, inside⟩ := front.touched
    obtain ⟨more, later, inside'⟩ := back.touched
    refine ⟨ranges ++ more, by rw [later, joined, append_assoc], ?_⟩
    intro range member
    exact (mem_append.mp member).elim (inside range) (inside' range)
  cells := fun target outside =>
    (back.cells target outside).trans (front.cells target outside)

theorem Within.mono {wideFirst wideLast : Int}
    (within : Within first last memory after) (lower : wideFirst ≤ first)
    (upper : last ≤ wideLast) : Within wideFirst wideLast memory after where
  touched := by
    obtain ⟨ranges, joined, inside⟩ := within.touched
    refine ⟨ranges, joined, fun range member => ?_⟩
    have bounds := inside range member
    omega
  cells := fun target outside => within.cells target (by omega)

theorem within_load {address : Int} (lower : first ≤ address)
    (upper : address + count ≤ last) (memory : Mem α) :
    Within first last memory (memory.load address count).2 where
  touched := ⟨[(address, count)], rfl, fun range member => by
    rw [mem_singleton.mp member]
    exact ⟨lower, upper⟩⟩
  cells := fun _ _ => rfl

theorem within_store {address : Int} {block : List α} (lower : first ≤ address)
    (upper : address + block.length ≤ last) (memory : Mem α) :
    Within first last memory (memory.store address block) where
  touched := ⟨[(address, block.length)], rfl, fun range member => by
    rw [mem_singleton.mp member]
    exact ⟨lower, upper⟩⟩
  cells := fun target outside =>
    store_cells_of_outside _ _ (by omega)

theorem within_reverse {address : Int} (lower : first ≤ address)
    (upper : address + count ≤ last) (memory : Mem α) :
    Within first last memory (memory.reverse address count) := by
  refine (within_load lower upper memory).trans (within_store lower ?_ _)
  rw [load_bytes, length_reverse, length_bytes]
  exact upper

/-- Code that stays in a region of an untouched memory touches nothing else. -/
theorem Within.touches (within : Within first last memory after)
    (fresh : memory.Touches first last) : after.Touches first last := by
  obtain ⟨ranges, joined, inside⟩ := within.touched
  intro range member
  rw [joined] at member
  exact (mem_append.mp member).elim (fresh range) (inside range)

theorem Within.mem_touched {range : Int × Nat}
    (within : Within first last memory after)
    (member : range ∈ memory.touched) : range ∈ after.touched := by
  obtain ⟨ranges, joined, -⟩ := within.touched
  rw [joined]
  exact mem_append_left _ member

end Within

end Mem

end NdNet
