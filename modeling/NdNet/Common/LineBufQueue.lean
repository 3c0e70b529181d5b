import NdNet.Common.LineBuf

/-!
# The linear buffer as a queue

`Represents buf queue` is the representation relation between a linear buffer
and the queue of bytes it holds. `Compacts buf` singles out the buffers in
which `_lbuf_move_ahead` turns all free bytes into tail room; the others have a
start offset from 1 to 7 and are left as they are.
-/

namespace NdNet.LineBuf

open Store

/-- The pointers are ordered and inside the storage, and the bytes between
them are `queue`. -/
structure Represents (buf : LineBuf) (queue : List Byte) : Prop where
  ordered : buf.startOff ≤ buf.endOff
  bounded : buf.endOff ≤ buf.capacity
  storage_length : buf.storage.length = buf.capacity
  content_eq : buf.content = queue

/-- Moving the data ahead frees every byte in front of it. -/
def Compacts (buf : LineBuf) : Prop :=
  buf.datalen = 0 ∨ buf.startOff = 0 ∨ sizeofSizeT ≤ buf.startOff

instance (buf : LineBuf) : Decidable buf.Compacts :=
  inferInstanceAs (Decidable (_ ∨ _ ∨ _))

section Represents

variable {buf : LineBuf} {queue : List Byte}

namespace Represents

variable (holds : buf.Represents queue)
include holds

theorem datalen_eq :
    buf.datalen = buf.endOff - buf.startOff :=
  sizeSub_of_le holds.ordered

theorem freespace_eq :
    buf.freespace = buf.capacity - buf.endOff :=
  sizeSub_of_le holds.bounded

theorem queue_length :
    queue.length = buf.datalen := by
  rw [holds.datalen_eq, ← holds.content_eq, content,
    length_slice (holds.storage_length ▸ holds.bounded)]

theorem freeCapacity_eq :
    buf.freeCapacity = buf.capacity - buf.datalen := by
  apply sizeSub_of_le
  have := holds.datalen_eq
  have := holds.bounded
  omega

theorem freespace_add_startOff :
    buf.freespace + buf.startOff = buf.freeCapacity := by
  have := holds.datalen_eq
  have := holds.freespace_eq
  have := holds.freeCapacity_eq
  have := holds.bounded
  have := holds.ordered
  omega

theorem freespace_le_freeCapacity :
    buf.freespace ≤ buf.freeCapacity := by
  have := holds.freespace_add_startOff
  omega

theorem datalen_le_capacity :
    buf.datalen ≤ buf.capacity := by
  have := holds.datalen_eq
  have := holds.bounded
  omega

theorem queue_eq_nil_iff :
    queue = [] ↔ buf.datalen = 0 := by
  rw [← List.length_eq_zero_iff, holds.queue_length]

end Represents

theorem reset_represents (length : buf.storage.length = buf.capacity) :
    buf.reset.Represents [] :=
  { ordered := Nat.le_refl _
    bounded := Nat.zero_le _
    storage_length := by simpa [reset] using length
    content_eq := by simp [content, reset] }

theorem init_represents (block : List Byte) : (init block).Represents [] :=
  reset_represents rfl

theorem setZeroTail_represents (holds : buf.Represents queue) :
    buf.setZeroTail.Represents queue := by
  unfold setZeroTail
  split
  · refine ⟨holds.ordered, holds.bounded, ?_, ?_⟩
    · simpa using holds.storage_length
    · rw [← holds.content_eq]
      exact slice_overwrite_of_le _ _ (Nat.le_refl _)
  · exact holds

section

variable (buf : LineBuf)

@[simp] theorem setZeroTail_capacity :
    buf.setZeroTail.capacity = buf.capacity := by
  unfold setZeroTail
  split <;> rfl

@[simp] theorem setZeroTail_startOff :
    buf.setZeroTail.startOff = buf.startOff := by
  unfold setZeroTail
  split <;> rfl

@[simp] theorem setZeroTail_endOff :
    buf.setZeroTail.endOff = buf.endOff := by
  unfold setZeroTail
  split <;> rfl

@[simp] theorem setZeroTail_autoInc :
    buf.setZeroTail.autoInc = buf.autoInc := by
  unfold setZeroTail
  split <;> rfl

variable (data : List Byte)

@[simp] theorem append_capacity :
    (buf.append data).capacity = buf.capacity := by
  simp [append, addData]

@[simp] theorem append_startOff :
    (buf.append data).startOff = buf.startOff := by
  simp [append, addData]

@[simp] theorem append_endOff :
    (buf.append data).endOff = buf.endOff + data.length := by
  simp [append, addData]

@[simp] theorem append_autoInc :
    (buf.append data).autoInc = buf.autoInc := by
  simp [append, addData]

end

theorem append_represents (holds : buf.Represents queue) {data : List Byte}
    (fits : data.length ≤ buf.freespace) :
    (buf.append data).Represents (queue ++ data) := by
  have room := holds.freespace_eq
  have ordered := holds.ordered
  have bounded := holds.bounded
  apply setZeroTail_represents
  refine ⟨?_, ?_, ?_, ?_⟩
  · show buf.startOff ≤ buf.endOff + data.length
    omega
  · show buf.endOff + data.length ≤ buf.capacity
    omega
  · simpa using holds.storage_length
  · rw [← holds.content_eq]
    exact slice_overwrite_append ordered (by rw [holds.storage_length]; omega)

theorem length_content_append_lt (holds : buf.Represents queue)
    (data : List Byte) (tight : buf.freespace < data.length) :
    (buf.append data).content.length < queue.length + data.length := by
  have stored : (buf.append data).storage.length = buf.capacity := by
    unfold append addData setZeroTail
    split <;> simp [holds.storage_length]
  have room := holds.freespace_eq
  have queued := holds.queue_length
  have extent := holds.datalen_eq
  rw [content, slice, List.length_take, List.length_drop, stored,
    append_startOff]
  omega

@[simp] theorem moveAhead_capacity (buf : LineBuf) :
    buf.moveAhead.capacity = buf.capacity := by
  unfold moveAhead
  split
  · rfl
  · split <;> simp

@[simp] theorem moveAhead_autoInc (buf : LineBuf) :
    buf.moveAhead.autoInc = buf.autoInc := by
  unfold moveAhead
  split
  · rfl
  · split <;> simp

theorem moveAhead_represents (holds : buf.Represents queue) :
    buf.moveAhead.Represents queue := by
  have length := holds.datalen_eq
  have bounded := holds.bounded
  unfold moveAhead
  split
  · rename_i empty
    rw [holds.queue_eq_nil_iff.mpr empty]
    exact reset_represents holds.storage_length
  · split
    · apply setZeroTail_represents
      refine ⟨Nat.zero_le _, ?_, ?_, ?_⟩
      · show buf.datalen ≤ buf.capacity
        omega
      · simpa using holds.storage_length
      · have copied := slice_copyForward (Nat.zero_le buf.startOff)
          (show buf.startOff + buf.datalen ≤ buf.storage.length by
            rw [holds.storage_length]
            omega)
        rw [Nat.zero_add] at copied
        rw [← holds.content_eq]
        refine copied.trans ?_
        congr 1
        omega
    · exact holds

theorem freespace_moveAhead (holds : buf.Represents queue)
    (compacts : buf.Compacts) :
    buf.moveAhead.freespace = buf.freeCapacity := by
  have moved := moveAhead_represents holds
  have start : buf.moveAhead.startOff = 0 := by
    unfold moveAhead
    split
    · rfl
    · split
      · simp
      · rcases compacts with empty | start | ahead <;> first | assumption | contradiction
  have queued := moved.freespace_add_startOff
  rw [start, Nat.add_zero, moved.freeCapacity_eq, ← moved.queue_length,
    moveAhead_capacity, holds.queue_length] at queued
  rw [queued, holds.freeCapacity_eq]

theorem moveAhead_offsets (some : buf.datalen ≠ 0)
    (far : sizeofSizeT ≤ buf.startOff) :
    buf.moveAhead.startOff = 0 ∧ buf.moveAhead.endOff = buf.datalen := by
  rw [moveAhead, if_neg some, if_pos far]
  simp

theorem moveAhead_of_not_compacts (stuck : ¬ buf.Compacts) :
    buf.moveAhead = buf := by
  simp only [Compacts, not_or] at stuck
  rw [moveAhead, if_neg stuck.1, if_neg stuck.2.2]

theorem trytoMoveAhead_represents (holds : buf.Represents queue) :
    buf.trytoMoveAhead.Represents queue := by
  unfold trytoMoveAhead
  split
  · exact moveAhead_represents holds
  · exact holds

@[simp] theorem trytoMoveAhead_capacity (buf : LineBuf) :
    buf.trytoMoveAhead.capacity = buf.capacity := by
  unfold trytoMoveAhead
  split <;> simp

@[simp] theorem trytoMoveAhead_autoInc (buf : LineBuf) :
    buf.trytoMoveAhead.autoInc = buf.autoInc := by
  unfold trytoMoveAhead
  split <;> simp

@[simp] theorem subData_capacity (buf : LineBuf) (len : Nat) :
    (buf.subData len).capacity = buf.capacity := by
  unfold subData
  dsimp only
  split
  · rfl
  · simp

@[simp] theorem subData_autoInc (buf : LineBuf) (len : Nat) :
    (buf.subData len).autoInc = buf.autoInc := by
  unfold subData
  dsimp only
  split
  · rfl
  · simp

theorem subData_represents (holds : buf.Represents queue) (len : Nat) :
    (buf.subData len).Represents (queue.drop len) := by
  unfold subData
  dsimp only
  split
  · rename_i reached
    have all : queue.drop len = [] := by
      apply List.drop_eq_nil_of_le
      rw [holds.queue_length, holds.datalen_eq]
      omega
    rw [all]
    exact reset_represents holds.storage_length
  · rename_i remaining
    apply trytoMoveAhead_represents
    refine ⟨?_, holds.bounded, holds.storage_length, ?_⟩
    · show buf.startOff + len ≤ buf.endOff
      omega
    · rw [← holds.content_eq]
      exact slice_add_left _ _ _ _

theorem subData_eq_of_small {len : Nat} (large : 32 ≤ buf.capacity)
    (near : buf.startOff + len < sizeofSizeT)
    (remains : buf.startOff + len < buf.endOff) :
    buf.subData len = { buf with startOff := buf.startOff + len } := by
  have near : buf.startOff + len < 8 := near
  unfold subData trytoMoveAhead
  rw [if_neg (Nat.not_le_of_lt remains), if_neg]
  show ¬ buf.capacity / 4 ≤ buf.startOff + len
  omega

theorem subData_compacts {len : Nat}
    (far : buf.startOff + len = 0 ∨ sizeofSizeT ≤ buf.startOff + len) :
    (buf.subData len).Compacts := by
  unfold subData
  dsimp only
  split
  · exact .inr (.inl rfl)
  unfold trytoMoveAhead
  split
  · unfold moveAhead
    split
    · exact .inr (.inl rfl)
    · split
      · exact .inr (.inl (by simp))
      · exact .inr far
  · exact .inr far

theorem read_represents (holds : buf.Represents queue) (size : Nat)
    (flag : BufFlag) (small : buf.datalen < 2 ^ 31) :
    (buf.read size flag).2.1 = queue.take (buf.read size flag).1.toNat ∧
      (buf.read size flag).2.2.Represents
        (queue.drop (buf.read size flag).1.toNat) := by
  unfold read
  by_cases short : flag = .specified ∧ buf.datalen < size
  · rw [if_pos short]
    exact ⟨rfl, holds⟩
  rw [if_neg short]
  generalize counted : (if buf.datalen < size then buf.datalen else size) =
    count
  have present : count ≤ buf.datalen := by
    rw [← counted]
    split <;> omega
  have length := holds.datalen_eq
  have ordered := holds.ordered
  dsimp only
  rw [intOfSize_of_lt (by omega)]
  refine ⟨?_, subData_represents holds count⟩
  rw [← holds.content_eq]
  exact slice_take _ (by omega)

@[simp] theorem read_capacity (buf : LineBuf) (size : Nat) (flag : BufFlag) :
    (buf.read size flag).2.2.capacity = buf.capacity := by
  unfold read
  split <;> simp

@[simp] theorem read_autoInc (buf : LineBuf) (size : Nat) (flag : BufFlag) :
    (buf.read size flag).2.2.autoInc = buf.autoInc := by
  unfold read
  split <;> simp

def acceptedBytes (buf : LineBuf) (data : List Byte) (flag : BufFlag) :
    List Byte :=
  if data.length ≤ buf.freeCapacity then data
  else if flag = .specified then [] else data.take buf.freeCapacity

theorem write_result (holds : buf.Represents queue) (data : List Byte)
    (flag : BufFlag) (malloc : Nat → Option (List Byte))
    (fixed : buf.autoInc = false) :
    (buf.write data flag malloc).1 =
      if flag = .specified ∧ buf.freeCapacity < data.length then -1
      else intOfSize (buf.acceptedBytes data flag).length := by
  have moved : buf.moveAhead.freeCapacity = buf.freeCapacity := by
    have ahead := moveAhead_represents holds
    rw [ahead.freeCapacity_eq, holds.freeCapacity_eq, ← ahead.queue_length,
      ← holds.queue_length, moveAhead_capacity]
  have room := holds.freespace_le_freeCapacity
  unfold write acceptedBytes trytoIncCapacity
  by_cases fits : data.length ≤ buf.freespace
  · have : data.length ≤ buf.freeCapacity := by omega
    simp [fits, this]
  cases flag with
  | specified =>
    by_cases full : buf.freeCapacity < data.length
    · simp [fits, full, fixed]
    · simp [fits, full, Nat.le_of_not_lt full]
  | all =>
    by_cases full : buf.freeCapacity < data.length
    · simp [fits, full, moved, fixed, Nat.not_le_of_lt full, Nat.le_of_lt full]
    · simp [fits, full, moved, Nat.le_of_not_lt full]

/-- A write that finds enough tail room, or can make it by moving the data
ahead, appends what it accepts. -/
theorem write_represents (holds : buf.Represents queue) (data : List Byte)
    (flag : BufFlag) (malloc : Nat → Option (List Byte))
    (fixed : buf.autoInc = false)
    (room : data.length ≤ buf.freespace ∨ buf.Compacts ∨
      flag = .specified ∧ buf.freeCapacity < data.length) :
    (buf.write data flag malloc).2.Represents
      (queue ++ buf.acceptedBytes data flag) := by
  have smaller := holds.freespace_le_freeCapacity
  have ahead := moveAhead_represents holds
  have moved : buf.moveAhead.freeCapacity = buf.freeCapacity := by
    rw [ahead.freeCapacity_eq, holds.freeCapacity_eq, ← ahead.queue_length,
      ← holds.queue_length, moveAhead_capacity]
  unfold write acceptedBytes trytoIncCapacity
  by_cases fits : data.length ≤ buf.freespace
  · have : data.length ≤ buf.freeCapacity := by omega
    simpa [fits, this] using append_represents holds fits
  by_cases full : buf.freeCapacity < data.length
  · cases flag with
    | specified =>
      simpa [fits, full, fixed, Nat.not_le_of_lt full] using holds
    | all =>
      have compacts : buf.Compacts := by
        rcases room with tail | compacts | refused
        · omega
        · exact compacts
        · cases refused.1
      have part : (data.take buf.freeCapacity).length ≤
          buf.moveAhead.freespace := by
        rw [freespace_moveAhead holds compacts]
        simp
      simpa [fits, full, moved, fixed, Nat.not_le_of_lt full] using
        append_represents ahead part
  · have compacts : buf.Compacts := by
      rcases room with tail | compacts | refused
      · omega
      · exact compacts
      · omega
    have whole : data.length ≤ buf.moveAhead.freespace := by
      rw [freespace_moveAhead holds compacts]
      omega
    have appended := append_represents ahead whole
    cases flag with
    | specified => simpa [fits, full, Nat.le_of_not_lt full] using appended
    | all => simpa [fits, full, moved, Nat.le_of_not_lt full] using appended

theorem write_overflows (holds : buf.Represents queue) {data : List Byte}
    {flag : BufFlag} (malloc : Nat → Option (List Byte))
    (fixed : buf.autoInc = false) (tight : buf.freespace < data.length)
    (stuck : ¬ buf.Compacts)
    (taken : ¬ (flag = .specified ∧ buf.freeCapacity < data.length)) :
    (buf.write data flag malloc).2.capacity <
      (buf.write data flag malloc).2.endOff := by
  have ahead := moveAhead_of_not_compacts stuck
  have free := holds.freespace_add_startOff
  have room := holds.freespace_eq
  have bounded := holds.bounded
  have moved : 0 < buf.startOff := by
    simp only [Compacts, not_or] at stuck
    omega
  have tail : ¬ data.length ≤ buf.freespace := by omega
  unfold write trytoIncCapacity
  rw [if_neg tail]
  cases flag with
  | specified =>
    have enough : ¬ buf.freeCapacity < data.length := by simpa using taken
    simp only [if_neg enough, ahead, append_capacity, append_endOff]
    omega
  | all =>
    by_cases full : buf.freeCapacity < data.length
    · simp only [ahead, full, fixed]
      simp only [Bool.not_false, if_true, append_capacity, append_endOff,
        List.length_take]
      omega
    · simp only [ahead, if_neg full, append_capacity, append_endOff]
      omega

@[simp] theorem write_autoInc (fixed : buf.autoInc = false) (data : List Byte)
    (flag : BufFlag) (malloc : Nat → Option (List Byte)) :
    (buf.write data flag malloc).2.autoInc = false := by
  unfold write trytoIncCapacity
  split
  · simpa using fixed
  · cases flag with
    | specified | all =>
      dsimp only
      split
      · simp [fixed]
      · simpa using fixed

theorem write_capacity (fixed : buf.autoInc = false) (data : List Byte)
    (flag : BufFlag) (malloc : Nat → Option (List Byte)) :
    (buf.write data flag malloc).2.capacity = buf.capacity := by
  unfold write trytoIncCapacity
  split
  · simp
  · cases flag with
    | specified | all =>
      dsimp only
      split
      · simp [fixed]
      · simp

/-- The data starts at the front or far enough behind it to be moved there. -/
def Settled (buf : LineBuf) : Prop :=
  buf.startOff = 0 ∨ sizeofSizeT ≤ buf.startOff

instance (buf : LineBuf) : Decidable buf.Settled :=
  inferInstanceAs (Decidable (_ ∨ _))

theorem Settled.compacts (settled : buf.Settled) : buf.Compacts :=
  .inr settled

theorem write_all_settled (settled : buf.Settled) (fixed : buf.autoInc = false)
    (data : List Byte) (malloc : Nat → Option (List Byte)) :
    (buf.write data .all malloc).2.Settled := by
  have moved : buf.moveAhead.Settled := by
    unfold moveAhead
    split
    · exact .inl rfl
    split
    · exact .inl (by simp)
    · exact settled
  unfold write trytoIncCapacity
  split
  · simpa [Settled] using settled
  · dsimp only
    split
    · simpa [fixed, Settled] using moved
    · simpa [Settled] using moved

theorem write_all_tail (holds : buf.Represents queue) {data : List Byte}
    (room : data.length ≤ buf.freespace) (malloc : Nat → Option (List Byte)) :
    (buf.write data .all malloc).2.startOff = buf.startOff ∧
      (buf.write data .all malloc).2.freespace =
        buf.freespace - data.length := by
  have written : (buf.write data .all malloc).2 = buf.append data := by
    unfold write
    rw [if_pos room]
  have appended := append_represents holds room
  rw [written, appended.freespace_eq, holds.freespace_eq]
  refine ⟨by simp, ?_⟩
  simp
  omega

theorem read_all (holds : buf.Represents queue) (size : Nat)
    (enough : buf.datalen ≤ size) :
    (buf.read size .all).1 = intOfSize buf.datalen ∧
      (buf.read size .all).2.1 = queue := by
  have count : (if buf.datalen < size then buf.datalen else size) =
      buf.datalen := by
    split <;> omega
  have tail : buf.startOff + buf.datalen = buf.endOff := by
    have := holds.datalen_eq
    have := holds.ordered
    omega
  have result : buf.read size .all =
      (intOfSize buf.datalen, buf.content, buf.subData buf.datalen) := by
    simp [read, count, tail, content]
  simp [result, holds.content_eq]

private theorem slice_clear_first {block : List Byte}
    (fits : queue.length ≤ block.length)
    (first : ∀ first ∈ queue.head?, first = 0) :
    slice (overwrite (overwrite block 0 queue) 0 [0]) 0 queue.length =
      queue := by
  cases queue with
  | nil => simp
  | cons value rest =>
    have zero : value = 0 := first value rfl
    subst value
    cases block with
    | nil => simp at fits
    | cons cell cells =>
      have inside : 0 + (0 :: rest).length ≤ (cell :: cells).length := by
        simpa using fits
      have tail := slice_overwrite_self inside
      simpa [overwrite] using tail

theorem realloc_eq (holds : buf.Represents queue) {newsize : Nat}
    (block : List Byte) (larger : buf.capacity < newsize) :
    ∃ base : LineBuf, base.autoInc = buf.autoInc ∧
      (buf.realloc newsize (some block)).2 =
        { base with
          capacity := newsize
          startOff := 0
          endOff := sizeOfInt (intOfSize buf.datalen)
          storage := overwrite (overwrite (overwrite block 0 queue) 0 [0])
            (sizeOfInt (intOfSize buf.datalen)) [0] } := by
  have fitting := holds.datalen_le_capacity
  unfold realloc
  rw [if_neg (Nat.not_le_of_lt larger)]
  by_cases empty : 0 < buf.datalen
  · obtain ⟨count, bytes⟩ := read_all holds newsize (by omega)
    refine ⟨(buf.read newsize .all).2.2, ?_, ?_⟩
    · simp [read]
    · simp only [if_pos empty, reset, count, bytes, Nat.zero_add]
  · have none : buf.datalen = 0 := by omega
    have nothing : queue = [] := holds.queue_eq_nil_iff.mpr none
    have zero : sizeOfInt (intOfSize 0) = 0 := by decide
    refine ⟨buf, rfl, ?_⟩
    simp only [reset, none, nothing, zero]
    simp [sizeOfInt]

/-- Growing the storage keeps the queue when the data length fits an `int` and
the byte that `_lbuf_reset` clears is a zero byte already, or there is none. -/
theorem realloc_represents (holds : buf.Represents queue) {newsize : Nat}
    {block : List Byte} (larger : buf.capacity < newsize)
    (sized : block.length = newsize)
    (survives : sizeOfInt (intOfSize buf.datalen) = buf.datalen)
    (first : ∀ first ∈ queue.head?, first = 0) :
    (buf.realloc newsize (some block)).2.Represents queue := by
  obtain ⟨base, _, grown⟩ := realloc_eq holds block larger
  have queued := holds.queue_length
  have fitting := holds.datalen_le_capacity
  rw [grown, survives]
  refine ⟨Nat.zero_le _, ?_, ?_, ?_⟩
  · show buf.datalen ≤ newsize
    omega
  · simpa using sized
  · simp only [content]
    rw [slice_overwrite_of_le _ _ (Nat.le_refl _), ← queued]
    exact slice_clear_first (by omega) first

end Represents

end NdNet.LineBuf
