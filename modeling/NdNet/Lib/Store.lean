import Mathlib.Data.List.Basic
import Mathlib.Tactic.Linarith

/-!
# Finite stores

A store is a list of cells addressed from zero.  Writing a block at an offset
replaces the cells it covers; the part of a block that lies behind the last
cell belongs to somebody else and leaves no trace in the store.  The lemmas
below describe the window `slice store first last` of a store after a write
and after an overlapping forward copy.
-/

namespace NdNet.Store

open List

variable {α : Type}

/-- Replace the cells from `offset` on by `block`, as far as the store goes. -/
def overwrite : List α → Nat → List α → List α
  | [], _, _ => []
  | cell :: cells, 0, [] => cell :: cells
  | _ :: cells, 0, value :: block => value :: overwrite cells 0 block
  | cell :: cells, offset + 1, block => cell :: overwrite cells offset block

/-- The cells with index in `[first, last)`. -/
def slice (cells : List α) (first last : Nat) : List α :=
  (cells.drop first).take (last - first)

/-- Copy `count` cells from `source` to `target` one after the other, lowest
address first. -/
def copyForward : Nat → List α → Nat → Nat → List α
  | 0, cells, _, _ => cells
  | count + 1, cells, target, source =>
    copyForward count
      (overwrite cells target (slice cells source (source + 1)))
      (target + 1) (source + 1)

attribute [local simp] overwrite copyForward in
@[simp] theorem overwrite_nil (cells : List α) (offset : Nat) :
    overwrite cells offset [] = cells := by
  induction cells generalizing offset with
  | nil => simp [overwrite]
  | cons cell cells induction =>
    cases offset with
    | zero => rfl
    | succ offset => simp [overwrite, induction]

@[simp] theorem length_overwrite (cells : List α) (offset : Nat)
    (block : List α) :
    (overwrite cells offset block).length = cells.length := by
  induction cells generalizing offset block with
  | nil => simp [overwrite]
  | cons cell cells induction =>
    cases offset with
    | zero =>
      cases block with
      | nil => rfl
      | cons value block => simp [overwrite, induction]
    | succ offset => simp [overwrite, induction]

theorem getElem?_overwrite (cells : List α) (offset : Nat) (block : List α)
    (index : Nat) :
    (overwrite cells offset block)[index]? =
      if index < cells.length ∧ offset ≤ index ∧ index < offset + block.length
        then block[index - offset]? else cells[index]? := by
  induction cells generalizing offset block index with
  | nil => simp [overwrite]
  | cons cell cells induction =>
    cases offset with
    | zero =>
      cases block with
      | nil => simp [overwrite]
      | cons value block =>
        cases index with
        | zero => simp [overwrite]
        | succ index =>
          simp only [overwrite, getElem?_cons_succ, induction]
          simp
    | succ offset =>
      cases index with
      | zero => simp [overwrite]
      | succ index =>
        simp only [overwrite, getElem?_cons_succ, induction,
          length_cons, Nat.add_lt_add_iff_right,
          Nat.add_le_add_iff_right, Nat.succ_sub_succ_eq_sub]
        have shifted : index + 1 < offset + 1 + block.length ↔
            index < offset + block.length := by omega
        simp only [shifted]

theorem overwrite_eq_append {cells : List α} {offset : Nat} {block : List α}
    (fits : offset + block.length ≤ cells.length) :
    overwrite cells offset block =
      cells.take offset ++ block ++ cells.drop (offset + block.length) := by
  apply ext_getElem?
  intro index
  rw [getElem?_overwrite]
  rcases Nat.lt_or_ge index offset with before | notBefore
  · rw [if_neg (by omega), append_assoc,
      getElem?_append_left (by simp; omega), getElem?_take_of_lt before]
  rcases Nat.lt_or_ge index (offset + block.length) with inside | behind
  · rw [if_pos ⟨by omega, notBefore, inside⟩,
      getElem?_append_left (by simp; omega),
      getElem?_append_right (by simp; omega)]
    congr 1
    simp only [length_take]
    omega
  · rw [if_neg (by omega), getElem?_append_right (by simp; omega),
      getElem?_drop]
    congr 1
    simp only [length_append, length_take]
    omega

theorem overwrite_append_left {front : List α} {offset : Nat} {block : List α}
    (fits : offset + block.length ≤ front.length) (rest : List α) :
    overwrite (front ++ rest) offset block = overwrite front offset block ++ rest := by
  rw [overwrite_eq_append fits, overwrite_eq_append (by simp; omega),
    take_append_of_le_length (by omega),
    drop_append_of_le_length fits]
  simp

/-- The end of a block that agrees with the cells it is written to can be left
out. -/
theorem overwrite_take {cells block : List α} {offset short : Nat}
    (agree : ∀ index, short ≤ index → index < block.length →
      offset + index < cells.length → block[index]? = cells[offset + index]?) :
    overwrite cells offset block = overwrite cells offset (block.take short) := by
  apply ext_getElem?
  intro index
  rw [getElem?_overwrite, getElem?_overwrite, length_take]
  by_cases inside : index < cells.length ∧ offset ≤ index ∧
      index < offset + block.length
  · obtain ⟨bounded, behind, before⟩ := inside
    obtain ⟨further, rfl⟩ := Nat.exists_eq_add_of_le behind
    rw [if_pos ⟨bounded, behind, before⟩, Nat.add_sub_cancel_left]
    by_cases early : further < short
    · rw [if_pos ⟨bounded, behind, by omega⟩, getElem?_take_of_lt early]
    · rw [if_neg (by omega)]
      exact agree further (by omega) (by omega) bounded
  · rw [if_neg inside, if_neg (by omega)]

theorem getElem?_slice (cells : List α) (first last index : Nat) :
    (slice cells first last)[index]? =
      if first + index < last then cells[first + index]? else none := by
  rw [slice, getElem?_take]
  by_cases inside : first + index < last
  · rw [if_pos inside, if_pos (by omega), getElem?_drop]
  · rw [if_neg inside, if_neg (by omega)]

@[simp] theorem slice_self (cells : List α) (first : Nat) :
    slice cells first first = [] := by
  simp [slice]

variable {cells : List α}

theorem length_slice {first last : Nat} (bounded : last ≤ cells.length) :
    (slice cells first last).length = last - first := by
  simp only [slice, length_take, length_drop]
  omega

theorem length_slice_le (cells : List α) (first last : Nat) :
    (slice cells first last).length ≤ last - first := by
  simp only [slice, length_take]
  omega

theorem slice_add_left (cells : List α) (first last count : Nat) :
    slice cells (first + count) last = (slice cells first last).drop count := by
  rw [slice, slice, drop_take, drop_drop]
  congr 1
  omega

theorem slice_take (cells : List α) {first last count : Nat}
    (bounded : first + count ≤ last) :
    slice cells first (first + count) = (slice cells first last).take count := by
  rw [slice, slice, take_take]
  congr 1
  omega

theorem slice_append_slice (cells : List α) {first middle last : Nat}
    (lower : first ≤ middle) (upper : middle ≤ last) :
    slice cells first middle ++ slice cells middle last =
      slice cells first last := by
  have window : last - first = (middle - first) + (last - middle) := by omega
  have start : middle = first + (middle - first) := by omega
  rw [slice, slice, slice, window, take_add, drop_drop, ← start]

theorem slice_overwrite_of_le (cells block : List α) {first last offset : Nat}
    (behind : last ≤ offset) :
    slice (overwrite cells offset block) first last = slice cells first last := by
  apply ext_getElem?
  intro index
  rw [getElem?_slice, getElem?_slice]
  by_cases inside : first + index < last
  · rw [if_pos inside, if_pos inside, getElem?_overwrite, if_neg (by omega)]
  · rw [if_neg inside, if_neg inside]

theorem slice_overwrite_of_ge (cells block : List α) {first last offset : Nat}
    (front : offset + block.length ≤ first) :
    slice (overwrite cells offset block) first last = slice cells first last := by
  apply ext_getElem?
  intro index
  rw [getElem?_slice, getElem?_slice]
  by_cases inside : first + index < last
  · rw [if_pos inside, if_pos inside, getElem?_overwrite, if_neg (by omega)]
  · rw [if_neg inside, if_neg inside]

theorem slice_overwrite_self {cells block : List α} {offset : Nat}
    (fits : offset + block.length ≤ cells.length) :
    slice (overwrite cells offset block) offset (offset + block.length) =
      block := by
  apply ext_getElem?
  intro index
  rw [getElem?_slice]
  by_cases inside : index < block.length
  · rw [if_pos (by omega), getElem?_overwrite, if_pos (by omega)]
    congr 1
    omega
  · rw [if_neg (by omega), getElem?_eq_none (by omega)]

theorem slice_overwrite_append {cells block : List α} {first last : Nat}
    (ordered : first ≤ last) (fits : last + block.length ≤ cells.length) :
    slice (overwrite cells last block) first (last + block.length) =
      slice cells first last ++ block := by
  rw [← slice_append_slice _ ordered (Nat.le_add_right _ _),
    slice_overwrite_of_le cells block (Nat.le_refl last),
    slice_overwrite_self fits]

@[simp] theorem length_copyForward (count : Nat) (cells : List α)
    (target source : Nat) :
    (copyForward count cells target source).length = cells.length := by
  induction count generalizing cells target source with
  | zero => rfl
  | succ count induction => simp [copyForward, induction]

/-- A forward copy to a lower address is not disturbed by the cells it has
already replaced, so an overlap does no harm. -/
theorem getElem?_copyForward {count target source : Nat}
    (lower : target ≤ source) (bounded : source + count ≤ cells.length)
    (index : Nat) :
    (copyForward count cells target source)[index]? =
      if target ≤ index ∧ index < target + count
        then cells[source + (index - target)]? else cells[index]? := by
  induction count generalizing cells target source with
  | zero => simp [copyForward]
  | succ count induction =>
    have one : (slice cells source (source + 1)).length = 1 := by
      rw [length_slice (by omega)]
      omega
    have moved := getElem?_overwrite cells target
      (slice cells source (source + 1))
    rw [copyForward, induction (by omega) (by simp; omega), moved, moved, one]
    rcases Nat.lt_trichotomy index target with before | atTarget | after
    · rw [if_neg (by omega), if_neg (by omega), if_neg (by omega)]
    · subst index
      rw [if_neg (by omega), if_pos (by omega), if_pos (by omega),
        getElem?_slice, if_pos (by omega)]
    · by_cases inside : index < target + (count + 1)
      · rw [if_pos (by omega), if_neg (by omega), if_pos (by omega)]
        congr 1
        omega
      · rw [if_neg (by omega), if_neg (by omega), if_neg (by omega)]

theorem slice_copyForward {count target source : Nat} (lower : target ≤ source)
    (bounded : source + count ≤ cells.length) :
    slice (copyForward count cells target source) target (target + count) =
      slice cells source (source + count) := by
  apply ext_getElem?
  intro index
  rw [getElem?_slice, getElem?_slice]
  by_cases inside : index < count
  · rw [if_pos (by omega), if_pos (by omega),
      getElem?_copyForward lower bounded, if_pos (by omega)]
    congr 1
    omega
  · rw [if_neg (by omega), if_neg (by omega)]

end NdNet.Store
