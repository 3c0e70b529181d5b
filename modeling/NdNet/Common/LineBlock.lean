import NdNet.Common.LineBufQueue

/-!
# A linear buffer that grows

An `nd_linebuf` that may grow is more than the bytes in it.  If they end with
the block there is no room for a NUL behind them; if the block grows,
`_lbuf_realloc` clears the first of them; and with a start offset from 1 to 7
a write may store behind the block.  `LineBlock` is what of the block decides
on that, next to a list of elements of any type.  The theorems of the last
section say that `LineBuf` does the same to the bytes it represents.
-/

namespace NdNet

open Store

/-- The capacity of an `nd_linebuf` and the offset of its data. -/
structure LineBlock where
  capacity : Nat
  startOff : Nat
  deriving DecidableEq, Repr

namespace LineBlock

/-- `_lbuf_move_ahead` of `len` bytes. -/
def moveAhead (block : LineBlock) (len : Nat) : LineBlock :=
  if len = 0 ∨ sizeofSizeT ≤ block.startOff then { block with startOff := 0 }
  else block

/-- `_lbuf_sub_data` of `taken` out of `len` bytes. -/
def subData (block : LineBlock) (len taken : Nat) : LineBlock :=
  if len ≤ taken then { block with startOff := 0 }
  else
    let advanced := { block with startOff := block.startOff + taken }
    if block.capacity / 4 ≤ advanced.startOff then
      advanced.moveAhead (len - taken)
    else advanced

def newsize (block : LineBlock) (increase : Nat) : Nat :=
  let wanted := block.capacity + increase
  if block.capacity * 2 < wanted then (wanted + 7) / 8 * 8
  else block.capacity * 2

variable {α : Type}

/-- `_lbuf_write` of what can be had of `data` behind `held`, with `malloc`
taken to succeed; no result if bytes are stored behind the block. -/
def write (block : LineBlock) (zero : α) (held data : List α) :
    Option (LineBlock × List α) :=
  if block.startOff + held.length + data.length ≤ block.capacity then
    some (block, held ++ data)
  else
    let moved := block.moveAhead held.length
    if moved.capacity < held.length + data.length then
      some (⟨moved.newsize data.length, 0⟩, overwrite held 0 [zero] ++ data)
    else if moved.startOff + held.length + data.length ≤ moved.capacity then
      some (moved, held ++ data)
    else none

/-- There is no room for a NUL behind `len` bytes. -/
def Full (block : LineBlock) (len : Nat) : Prop :=
  block.capacity ≤ block.startOff + len

instance (block : LineBlock) (len : Nat) : Decidable (block.Full len) :=
  inferInstanceAs (Decidable (_ ≤ _))

/-- The block need not grow, or growing clears nothing that is not clear. -/
def Seats (block : LineBlock) (zero : α) (held data : List α) : Prop :=
  held.length + data.length ≤ block.capacity ∨ ∀ first ∈ held.head?, first = zero

instance [DecidableEq α] (block : LineBlock) (zero : α) (held data : List α) :
    Decidable (block.Seats zero held data) :=
  inferInstanceAs (Decidable (_ ≤ _ ∨ ∀ first ∈ held.head?, first = zero))

section Data

variable {block after : LineBlock} {zero : α} {held data result : List α}
  {len taken : Nat}

theorem overwrite_first (first : ∀ first ∈ held.head?, first = zero) :
    overwrite held 0 [zero] = held := by
  cases held with
  | nil => rfl
  | cons value held =>
    obtain rfl : value = zero := first value rfl
    rw [overwrite, overwrite_nil]

@[simp] theorem moveAhead_capacity (block : LineBlock) (len : Nat) :
    (block.moveAhead len).capacity = block.capacity := by
  rw [moveAhead]
  split <;> rfl

@[simp] theorem subData_capacity (block : LineBlock) (len taken : Nat) :
    (block.subData len taken).capacity = block.capacity := by
  rw [subData]
  split
  · rfl
  · dsimp only
    split
    · exact moveAhead_capacity _ _
    · rfl

theorem write_of_seats (seats : block.Seats zero held data)
    (written : block.write zero held data = some (after, result)) :
    result = held ++ data := by
  rw [write] at written
  by_cases tail : block.startOff + held.length + data.length ≤ block.capacity
  · rw [if_pos tail] at written
    exact (Prod.mk.inj (Option.some.inj written)).2.symm
  rw [if_neg tail] at written
  dsimp only at written
  rw [moveAhead_capacity] at written
  by_cases grows : block.capacity < held.length + data.length
  · rw [if_pos grows] at written
    have clear := seats.resolve_left (Nat.not_le_of_lt grows)
    rw [overwrite_first clear] at written
    exact (Prod.mk.inj (Option.some.inj written)).2.symm
  · rw [if_neg grows] at written
    split at written
    · exact (Prod.mk.inj (Option.some.inj written)).2.symm
    · cases written

theorem add_le_newsize (block : LineBlock) (increase : Nat) :
    block.capacity + increase ≤ block.newsize increase := by
  rw [newsize]
  split <;> omega

/-- What comes into an empty block leaves room for a NUL, unless it fills the
block exactly. -/
theorem write_empty (some_ : 0 < block.capacity) (start : block.startOff = 0)
    (zero : α) (data : List α) :
    ∃ after, block.write zero [] data = some (after, data) ∧
      after.startOff = 0 ∧ data.length ≤ after.capacity ∧
      block.capacity ≤ after.capacity ∧
      (after.Full data.length ↔ data.length = block.capacity) := by
  rw [write, start, List.length_nil, Nat.add_zero, Nat.zero_add]
  by_cases fits : data.length ≤ block.capacity
  · rw [if_pos fits]
    refine ⟨block, rfl, start, fits, Nat.le_refl _, ?_⟩
    rw [Full, start]
    omega
  · rw [if_neg fits]
    dsimp only
    rw [moveAhead_capacity, if_pos (by omega)]
    have room := add_le_newsize (block.moveAhead 0) data.length
    rw [moveAhead_capacity] at room
    refine ⟨_, rfl, rfl, ?_, ?_, ?_⟩
    · dsimp only
      omega
    · dsimp only
      omega
    · rw [Full]
      dsimp only
      omega

theorem subData_end (block : LineBlock) (len taken : Nat) :
    (block.subData len taken).startOff + (len - taken) ≤
      block.startOff + len := by
  rw [subData]
  split
  · dsimp only
    omega
  · dsimp only
    split
    · rw [moveAhead]
      split <;> dsimp only <;> omega
    · dsimp only
      omega

theorem subData_startOff (rest : taken < len)
    (near : block.startOff + taken < block.capacity / 4) :
    (block.subData len taken).startOff = block.startOff + taken := by
  rw [subData, if_neg (Nat.not_le_of_lt rest)]
  exact congrArg startOff (if_neg (Nat.not_le_of_lt near))

theorem full_of_subData (full : (block.subData len taken).Full (len - taken)) :
    block.Full len := by
  have within := subData_end block len taken
  rw [Full, subData_capacity] at full
  exact Nat.le_trans full within

theorem full_subData_iff (large : 32 ≤ block.capacity)
    (bounded : block.startOff + len ≤ block.capacity) (some_ : 0 < taken)
    (rest : taken < len) :
    (block.subData len taken).Full (len - taken) ↔
      block.Full len ∧ block.startOff + taken < block.capacity / 4 := by
  have size : sizeofSizeT = 8 := rfl
  rw [Full, Full, subData_capacity, subData, if_neg (Nat.not_le_of_lt rest)]
  dsimp only
  by_cases far : block.capacity / 4 ≤ block.startOff + taken
  · rw [if_pos far, moveAhead, if_pos (.inr (by dsimp only; omega))]
    dsimp only
    omega
  · rw [if_neg far]
    dsimp only
    omega

end Data

section Buffer

variable {buf : LineBuf} {queue result : List Byte} {after : LineBlock}

def of (buf : LineBuf) : LineBlock :=
  ⟨buf.capacity, buf.startOff⟩

variable (holds : buf.Represents queue)
include holds

theorem of_moveAhead :
    of buf.moveAhead = (of buf).moveAhead queue.length := by
  rw [holds.queue_length, LineBuf.moveAhead, moveAhead]
  by_cases empty : buf.datalen = 0
  · rw [if_pos empty, if_pos (.inl empty)]
    rfl
  rw [if_neg empty]
  by_cases far : sizeofSizeT ≤ buf.startOff
  · rw [if_pos far, if_pos (.inr (show sizeofSizeT ≤ (of buf).startOff
      from far)), of, LineBuf.setZeroTail_capacity,
      LineBuf.setZeroTail_startOff]
    rfl
  · rw [if_neg far, if_neg (not_or.mpr ⟨empty, show ¬ sizeofSizeT ≤
      (of buf).startOff from far⟩)]

theorem of_subData (taken : Nat) :
    of (buf.subData taken) = (of buf).subData queue.length taken := by
  have length := holds.datalen_eq
  have ordered := holds.ordered
  have bounded := holds.bounded
  rw [LineBuf.subData, subData, holds.queue_length]
  dsimp only
  by_cases all : buf.endOff ≤ buf.startOff + taken
  · rw [if_pos all, if_pos (by omega)]
    rfl
  rw [if_neg all, if_neg (by omega), LineBuf.trytoMoveAhead]
  have advanced : LineBuf.Represents
      { buf with startOff := buf.startOff + taken }
      (queue.drop taken) := by
    refine ⟨by dsimp only; omega, bounded, holds.storage_length, ?_⟩
    rw [← holds.content_eq]
    exact slice_add_left _ _ _ _
  have rest : (queue.drop taken).length = buf.datalen - taken := by
    rw [List.length_drop, holds.queue_length]
  by_cases far : buf.capacity / 4 ≤ buf.startOff + taken
  · rw [if_pos far, if_pos (show (of buf).capacity / 4 ≤
      (of buf).startOff + taken from far), of_moveAhead advanced, rest]
    rfl
  · rw [if_neg far, if_neg (show ¬ (of buf).capacity / 4 ≤
      (of buf).startOff + taken from far)]
    rfl

theorem realloc_represents {size : Nat} {block : List Byte}
    (larger : buf.capacity < size) (sized : block.length = size)
    (small : buf.capacity < 2 ^ 31) :
    (buf.realloc size (some block)).2.Represents (overwrite queue 0 [0]) ∧
      of (buf.realloc size (some block)).2 = ⟨size, 0⟩ := by
  obtain ⟨base, -, grown⟩ := LineBuf.realloc_eq holds block larger
  have queued := holds.queue_length
  have fitting := holds.datalen_le_capacity
  have survives : sizeOfInt (intOfSize buf.datalen) = buf.datalen := by
    rw [intOfSize_of_lt (by omega), sizeOfInt]
    omega
  rw [survives, ← queued] at grown
  rw [grown]
  refine ⟨⟨Nat.zero_le _, ?_, ?_, ?_⟩, rfl⟩
  · dsimp only
    omega
  · simpa using sized
  · rw [LineBuf.content]
    dsimp only
    rw [slice_overwrite_of_le _ _ (Nat.le_refl _)]
    rw [slice, List.drop_zero, Nat.sub_zero,
      @overwrite_eq_append _ block 0 queue (by omega), List.take_zero,
      List.nil_append, Nat.zero_add]
    by_cases empty : queue = []
    · rw [empty]
      rfl
    · have some_ := List.length_pos_of_ne_nil empty
      rw [overwrite_append_left (show 0 + 1 ≤ queue.length by omega),
        List.take_left' (length_overwrite _ _ _)]

/-- A buffer that may grow is written to like its block. -/
theorem write_represents (grows : buf.autoInc = true)
    (small : buf.capacity < 2 ^ 31) {malloc : Nat → Option (List Byte)}
    (given : ∀ size, ∃ block, malloc size = some block ∧ block.length = size)
    {data : List Byte}
    (written : (of buf).write 0 queue data = some (after, result)) :
    (buf.write data .all malloc).2.Represents result ∧
      of (buf.write data .all malloc).2 = after := by
  have free := holds.freespace_eq
  have length := holds.datalen_eq
  have ordered := holds.ordered
  have bounded := holds.bounded
  have ahead := LineBuf.moveAhead_represents holds
  have movedLength := ahead.datalen_eq
  have movedBounded := ahead.bounded
  have movedOrdered := ahead.ordered
  have movedQueue := ahead.queue_length
  have moved := of_moveAhead holds
  rw [write, holds.queue_length] at written
  rw [LineBuf.write]
  by_cases tail : data.length ≤ buf.freespace
  · rw [if_pos (show (of buf).startOff + buf.datalen + data.length ≤
      (of buf).capacity by
        change buf.startOff + buf.datalen + data.length ≤ buf.capacity
        omega)] at written
    cases written
    rw [if_pos tail]
    refine ⟨LineBuf.append_represents holds tail, ?_⟩
    rw [of, LineBuf.append_capacity, LineBuf.append_startOff]
    rfl
  rw [if_neg (show ¬ (of buf).startOff + buf.datalen + data.length ≤
    (of buf).capacity by
      change ¬ buf.startOff + buf.datalen + data.length ≤ buf.capacity
      omega)] at written
  rw [holds.queue_length] at moved
  dsimp only at written
  rw [← moved] at written
  rw [if_neg tail]
  dsimp only
  have capacity : (of buf.moveAhead).capacity = buf.moveAhead.capacity := rfl
  have room := ahead.freeCapacity_eq
  have same : buf.moveAhead.datalen = buf.datalen := by
    rw [← movedQueue, holds.queue_length]
  by_cases full : buf.moveAhead.freeCapacity < data.length
  · rw [if_pos full]
    rw [if_pos (by omega)] at written
    cases written
    have size := add_le_newsize (of buf.moveAhead) data.length
    obtain ⟨block, allocated, sized⟩ :=
      given ((of buf.moveAhead).newsize data.length)
    obtain ⟨represents, block_⟩ := realloc_represents ahead
      (show _ < (of buf.moveAhead).newsize data.length by omega) sized
      (by rwa [LineBuf.moveAhead_capacity])
    have larger : ¬ (of buf.moveAhead).newsize data.length ≤
        buf.moveAhead.capacity := by
      omega
    have done : buf.moveAhead.trytoIncCapacity data.length malloc =
        (0, (buf.moveAhead.realloc
          ((of buf.moveAhead).newsize data.length) (some block)).2) := by
      rw [LineBuf.trytoIncCapacity, LineBuf.moveAhead_autoInc, grows]
      change LineBuf.realloc _ ((of buf.moveAhead).newsize data.length)
        (malloc ((of buf.moveAhead).newsize data.length)) = _
      rw [allocated, LineBuf.realloc, if_neg larger]
    rw [done]
    dsimp only
    rw [if_neg (by decide : ¬ (0 : Int) = -1)]
    generalize (buf.moveAhead.realloc
      ((of buf.moveAhead).newsize data.length) (some block)).2 = grown
      at represents block_
    obtain ⟨capacity_, start⟩ := mk.inj block_
    refine ⟨LineBuf.append_represents represents ?_, ?_⟩
    · have total := represents.freespace_add_startOff
      rw [represents.freeCapacity_eq, ← represents.queue_length,
        length_overwrite, holds.queue_length] at total
      omega
    · rw [of, LineBuf.append_capacity, LineBuf.append_startOff, capacity_,
        start]
  · rw [if_neg full]
    rw [if_neg (by omega)] at written
    split at written
    · rename_i fits
      cases written
      refine ⟨LineBuf.append_represents ahead ?_, ?_⟩
      · rw [ahead.freespace_eq]
        have : (of buf.moveAhead).startOff = buf.moveAhead.startOff := rfl
        omega
      · rw [of, LineBuf.append_capacity, LineBuf.append_startOff]
        rfl
    · cases written

theorem write_behind (malloc : Nat → Option (List Byte)) {data : List Byte}
    (written : (of buf).write 0 queue data = none) :
    (buf.write data .all malloc).2.capacity <
      (buf.write data .all malloc).2.endOff := by
  have free := holds.freespace_eq
  have length := holds.datalen_eq
  have ordered := holds.ordered
  have ahead := LineBuf.moveAhead_represents holds
  have movedLength := ahead.datalen_eq
  have movedOrdered := ahead.ordered
  have same : buf.moveAhead.datalen = buf.datalen := by
    rw [← ahead.queue_length, holds.queue_length]
  have room := ahead.freeCapacity_eq
  have start : (of buf.moveAhead).startOff = buf.moveAhead.startOff := rfl
  have capacity : (of buf.moveAhead).capacity = buf.moveAhead.capacity := rfl
  rw [write, ← of_moveAhead holds, holds.queue_length] at written
  split at written
  · cases written
  rename_i tight
  have tight : ¬ buf.startOff + buf.datalen + data.length ≤ buf.capacity :=
    tight
  dsimp only at written
  split at written
  · cases written
  split at written
  · cases written
  rename_i stays behind
  rw [LineBuf.write, if_neg (by have := holds.bounded; omega)]
  dsimp only
  rw [if_neg (by omega), LineBuf.append_capacity, LineBuf.append_endOff]
  omega

end Buffer

end LineBlock

end NdNet
