import NdNet.Common.LineBuf
import NdNet.Lib.Runs

/-!
# The ring buffer of `recbuf.c`

`ndrecybuf_t` keeps a queue of bytes in a block of fixed size; the data may go
past the end of the block and on at its front.  The pointers are modelled by
their distances from `m_buf`.  As equal pointers mean an empty buffer, one byte
of the block is never used.

`Represents` connects the pointers with the queue they stand for.
-/

namespace NdNet

open List

def cBufSize : Nat := 0x10000

/-- `ndrecybuf_t` -/
structure RecyBuf where
  startOff : Nat
  endOff : Nat
  storage : List Byte
  deriving DecidableEq, Repr

namespace RecyBuf

open Store Runs

def order (buf : RecyBuf) : Bool :=
  buf.startOff ≤ buf.endOff

def datalen (buf : RecyBuf) : Nat :=
  if buf.order then buf.endOff - buf.startOff
  else cBufSize - (buf.startOff - buf.endOff)

def freespace (buf : RecyBuf) : Nat :=
  sizeSub
    (if buf.order then cBufSize - (buf.endOff - buf.startOff)
      else buf.startOff - buf.endOff)
    1

def reset (buf : RecyBuf) : RecyBuf :=
  { buf with startOff := 0, endOff := 0 }

/-- `ndcbuf_init` of a buffer that lies in the given memory. -/
def init (block : List Byte) : RecyBuf :=
  { startOff := 0
    endOff := 0
    storage := block }

/-- `_cbuf_write` -/
def writeAt (buf : RecyBuf) (data : List Byte) : RecyBuf :=
  let taillen := cBufSize - buf.endOff
  if data.length ≤ taillen then
    let pend := buf.endOff + data.length
    { buf with
      storage := overwrite buf.storage buf.endOff data
      endOff := if cBufSize ≤ pend then 0 else pend }
  else
    { buf with
      storage := overwrite
        (overwrite buf.storage buf.endOff (data.take taillen)) 0
        (data.drop taillen)
      endOff := data.length - taillen }

def resetEmpty (buf : RecyBuf) : RecyBuf :=
  if buf.startOff = buf.endOff then buf.reset else buf

/-- `_cbuf_read`: the bytes read and the buffer behind it. -/
def readAt (buf : RecyBuf) (size : Nat) : List Byte × RecyBuf :=
  let taillen := cBufSize - buf.startOff
  if buf.order then
    (slice buf.storage buf.startOff (buf.startOff + size),
      resetEmpty { buf with startOff := buf.startOff + size })
  else if size ≤ taillen then
    let pstart := buf.startOff + size
    (slice buf.storage buf.startOff (buf.startOff + size),
      { buf with startOff := if cBufSize ≤ pstart then 0 else pstart })
  else
    (slice buf.storage buf.startOff cBufSize ++
        slice buf.storage 0 (size - taillen),
      resetEmpty { buf with startOff := size - taillen })

def write (buf : RecyBuf) (data : List Byte) (flag : BufFlag) :
    Int × RecyBuf :=
  let spacelen := buf.freespace
  if flag = .specified ∧ spacelen < data.length then (-1, buf)
  else
    let accepted := data.take spacelen
    (intOfSize accepted.length, buf.writeAt accepted)

/-- `ndcbuf_read`: the result, the bytes read and the buffer behind it. -/
def read (buf : RecyBuf) (size : Nat) (flag : BufFlag) :
    Int × List Byte × RecyBuf :=
  let datalen := buf.datalen
  if flag = .specified ∧ datalen < size then (-1, [], buf)
  else
    let count := if datalen < size then datalen else size
    (intOfSize count, buf.readAt count)

def content (buf : RecyBuf) : List Byte :=
  if buf.order then slice buf.storage buf.startOff buf.endOff
  else slice buf.storage buf.startOff cBufSize ++ slice buf.storage 0 buf.endOff

/-- The pointers are inside the block, and the data between them is the
queue. -/
structure Represents (buf : RecyBuf) (queue : List Byte) : Prop where
  startOff_lt : buf.startOff < cBufSize
  endOff_lt : buf.endOff < cBufSize
  storage_length : buf.storage.length = cBufSize
  content_eq : buf.content = queue

section Represents

variable {buf : RecyBuf} {queue : List Byte}

theorem init_represents {block : List Byte} (whole : block.length = cBufSize) :
    (init block).Represents [] :=
  { startOff_lt := Nat.zero_lt_succ _
    endOff_lt := Nat.zero_lt_succ _
    storage_length := whole
    content_eq := slice_self block 0 }

variable (holds : buf.Represents queue)
include holds

theorem Represents.datalen_eq :
    buf.datalen = queue.length := by
  have start := holds.startOff_lt
  have whole := holds.storage_length
  have last := holds.endOff_lt
  rw [← holds.content_eq, datalen, content]
  by_cases ordered : buf.order = true
  · rw [if_pos ordered, if_pos ordered, length_slice (by omega)]
  · rw [if_neg ordered, if_neg ordered, length_append,
      length_slice (by omega), length_slice (by omega)]
    rw [order, decide_eq_true_iff] at ordered
    omega

theorem Represents.datalen_add_freespace :
    buf.datalen + buf.freespace = 65535 := by
  have start := holds.startOff_lt
  have last := holds.endOff_lt
  have size : cBufSize = 65536 := rfl
  rw [datalen, freespace, order]
  by_cases ordered : buf.startOff ≤ buf.endOff
  · simp only [ordered, decide_true, if_true]
    rw [sizeSub_of_le (by omega)]
    omega
  · simp only [ordered, decide_false, Bool.false_eq_true, if_false]
    rw [sizeSub_of_le (by omega)]
    omega

theorem Represents.writeAt {data : List Byte}
    (fits : data.length ≤ buf.freespace) :
    (buf.writeAt data).Represents (queue ++ data) := by
  have start := holds.startOff_lt
  have last := holds.endOff_lt
  have whole := holds.storage_length
  have room := holds.datalen_add_freespace
  have size : cBufSize = 65536 := rfl
  rw [← holds.content_eq]
  unfold RecyBuf.writeAt
  dsimp only
  rw [datalen, order] at room
  by_cases ordered : buf.startOff ≤ buf.endOff
  · simp only [ordered, decide_true, if_true] at room
    split
    · rename_i near
      split
      · -- the data ends with the block, and the next byte goes to its front
        rename_i full
        refine ⟨start, Nat.zero_lt_succ _, by rw [length_overwrite, whole], ?_⟩
        have back : ¬ buf.startOff ≤ 0 := by omega
        have reach : buf.endOff + data.length = cBufSize := by omega
        simp only [content, order, ordered, decide_true, if_true, back,
          decide_false, Bool.false_eq_true, if_false, slice_self,
          append_nil]
        rw [← reach, slice_overwrite_append ordered (by omega)]
      · rename_i inside
        refine ⟨start, Nat.lt_of_not_le inside,
          by rw [length_overwrite, whole], ?_⟩
        have still : buf.startOff ≤ buf.endOff + data.length := by omega
        simp only [content, order, ordered, still, decide_true, if_true]
        rw [slice_overwrite_append ordered (by omega)]
    · rename_i wraps
      have tail : (data.take (cBufSize - buf.endOff)).length =
          cBufSize - buf.endOff := by
        rw [length_take]
        omega
      have front : (data.drop (cBufSize - buf.endOff)).length =
          data.length - (cBufSize - buf.endOff) := length_drop
      have reach : buf.endOff +
          (data.take (cBufSize - buf.endOff)).length = cBufSize := by omega
      refine ⟨start, ?_, by rw [length_overwrite, length_overwrite, whole], ?_⟩
      · show data.length - (cBufSize - buf.endOff) < cBufSize
        omega
      have back : ¬ buf.startOff ≤ data.length - (cBufSize - buf.endOff) := by
        omega
      simp only [content, order, ordered, decide_true, if_true, back,
        decide_false, Bool.false_eq_true, if_false]
      rw [slice_overwrite_of_ge _ _ (by omega)]
      have late : slice (overwrite buf.storage buf.endOff
          (data.take (cBufSize - buf.endOff))) buf.startOff cBufSize =
          slice buf.storage buf.startOff buf.endOff ++
            data.take (cBufSize - buf.endOff) := by
        rw [← slice_overwrite_append ordered (by omega), reach]
      have early := slice_overwrite_self
        (show 0 + (data.drop (cBufSize - buf.endOff)).length ≤
          (overwrite buf.storage buf.endOff
            (data.take (cBufSize - buf.endOff))).length by
          rw [length_overwrite]
          omega)
      rw [Nat.zero_add, front] at early
      rw [late, early, append_assoc, take_append_drop]
  · simp only [ordered, decide_false, Bool.false_eq_true, if_false] at room
    have near : data.length ≤ cBufSize - buf.endOff := by omega
    have inside : ¬ cBufSize ≤ buf.endOff + data.length := by omega
    rw [if_pos near, if_neg inside]
    refine ⟨start, Nat.lt_of_not_le inside, by rw [length_overwrite, whole], ?_⟩
    have still : ¬ buf.startOff ≤ buf.endOff + data.length := by omega
    simp only [content, order, ordered, still, decide_false,
      Bool.false_eq_true, if_false]
    rw [slice_overwrite_of_ge _ _ (by omega),
      slice_overwrite_append (Nat.zero_le _) (by omega), append_assoc]

theorem Represents.resetEmpty :
    buf.resetEmpty.Represents queue := by
  unfold RecyBuf.resetEmpty
  split
  · rename_i met
    have empty : queue = [] := by
      rw [← holds.content_eq, content, order, met]
      simp
    rw [empty]
    exact
      { startOff_lt := Nat.zero_lt_succ _
        endOff_lt := Nat.zero_lt_succ _
        storage_length := holds.storage_length
        content_eq := slice_self buf.storage 0 }
  · exact holds

theorem Represents.readAt {size : Nat} (enough : size ≤ queue.length) :
    (buf.readAt size).1 = queue.take size ∧
      (buf.readAt size).2.Represents (queue.drop size) := by
  have start := holds.startOff_lt
  have last := holds.endOff_lt
  have whole := holds.storage_length
  have length := holds.datalen_eq
  rw [datalen, order] at length
  rw [← holds.content_eq]
  unfold RecyBuf.readAt content order
  dsimp only
  by_cases ordered : buf.startOff ≤ buf.endOff
  · simp only [ordered, decide_true, if_true] at length ⊢
    refine ⟨slice_take _ (by omega), Represents.resetEmpty ?_⟩
    refine ⟨?_, last, whole, ?_⟩
    · show buf.startOff + size < cBufSize
      omega
    · have still : buf.startOff + size ≤ buf.endOff := by omega
      simp only [content, order, still, decide_true, if_true]
      exact slice_add_left _ _ _ _
  · simp only [ordered, decide_false, Bool.false_eq_true, if_false]
      at length ⊢
    have late : (slice buf.storage buf.startOff cBufSize).length =
        cBufSize - buf.startOff := length_slice (by omega)
    by_cases near : size ≤ cBufSize - buf.startOff
    · rw [if_pos near]
      refine ⟨?_, ?_⟩
      · rw [take_append_of_le_length (by omega)]
        exact slice_take _ (by omega)
      · rw [drop_append_of_le_length (by omega), ← slice_add_left]
        by_cases full : cBufSize ≤ buf.startOff + size
        · -- the last byte in front of the end of the block has been read
          have reach : buf.startOff + size = cBufSize := by omega
          rw [if_pos full, reach, slice_self, nil_append]
          refine ⟨Nat.zero_lt_succ _, last, whole, ?_⟩
          simp [content, order]
        · rw [if_neg full]
          refine ⟨Nat.lt_of_not_le full, last, whole, ?_⟩
          have still : ¬ buf.startOff + size ≤ buf.endOff := by omega
          simp only [content, order, still, decide_false,
            Bool.false_eq_true, if_false]
    · rw [if_neg near]
      have early : size - (slice buf.storage buf.startOff cBufSize).length =
          size - (cBufSize - buf.startOff) := by omega
      refine ⟨?_, Represents.resetEmpty ?_⟩
      · rw [take_append, take_of_length_le (by omega), early,
          ← slice_take _ (show 0 + (size - (cBufSize - buf.startOff)) ≤
            buf.endOff by omega), Nat.zero_add]
      · rw [drop_append, drop_of_length_le (by omega), early,
          nil_append, ← slice_add_left, Nat.zero_add]
        refine ⟨?_, last, whole, ?_⟩
        · show size - (cBufSize - buf.startOff) < cBufSize
          omega
        · have still : size - (cBufSize - buf.startOff) ≤ buf.endOff := by
            omega
          simp only [content, order, still, decide_true, if_true]

end Represents

section Runs

/-- One call on a ring buffer. -/
inductive CbufCall where
  | write (data : List Byte) (flag : BufFlag)
  | read (size : Nat) (flag : BufFlag)
  deriving DecidableEq

/-- What a call answers: its result and the bytes it has read. -/
structure CbufAnswer where
  result : Int
  bytes : List Byte
  deriving DecidableEq

def cbufStep (buf : RecyBuf) : CbufCall → CbufAnswer × RecyBuf
  | .write data flag =>
    (⟨(buf.write data flag).1, []⟩, (buf.write data flag).2)
  | .read size flag =>
    (⟨(buf.read size flag).1, (buf.read size flag).2.1⟩,
      (buf.read size flag).2.2)

/-- The same calls on a queue that holds at most `capacity` bytes. -/
def queueStep (capacity : Nat) (queue : List Byte) :
    CbufCall → CbufAnswer × List Byte
  | .write data flag =>
    if flag = .specified ∧ capacity - queue.length < data.length then
      (⟨-1, []⟩, queue)
    else
      let accepted := data.take (capacity - queue.length)
      (⟨accepted.length, []⟩, queue ++ accepted)
  | .read size flag =>
    if flag = .specified ∧ queue.length < size then (⟨-1, []⟩, queue)
    else (⟨(min size queue.length : Nat), queue.take size⟩, queue.drop size)

def acceptedBytes (trace : List (CbufCall × CbufAnswer)) : List Byte :=
  trace.flatMap fun
    | (.write data _, answer) => data.take answer.result.toNat
    | (.read _ _, _) => []

def takenBytes (trace : List (CbufCall × CbufAnswer)) : List Byte :=
  trace.flatMap fun entry => entry.2.bytes

theorem cbufStep_simulates (buf : RecyBuf) (queue : List Byte) (call : CbufCall)
    (holds : buf.Represents queue) :
    (cbufStep buf call).1 = (queueStep 65535 queue call).1 ∧
      (cbufStep buf call).2.Represents (queueStep 65535 queue call).2 := by
  have length := holds.datalen_eq
  have room := holds.datalen_add_freespace
  have free : buf.freespace = 65535 - queue.length := by omega
  cases call with
  | write data flag =>
    simp only [cbufStep, queueStep, write, ← free]
    split
    · exact ⟨rfl, holds⟩
    · have fits : (data.take buf.freespace).length ≤ buf.freespace := by
        rw [length_take]
        omega
      refine ⟨?_, holds.writeAt fits⟩
      rw [intOfSize_of_lt (by omega)]
  | read size flag =>
    simp only [cbufStep, queueStep, read, length]
    split
    · exact ⟨rfl, holds⟩
    have count : (if queue.length < size then queue.length else size) =
        min size queue.length := by
      split <;> omega
    obtain ⟨bytes, rest⟩ := holds.readAt
      (show min size queue.length ≤ queue.length by omega)
    have some : queue.take (min size queue.length) = queue.take size := by
      rw [← take_eq_take_min]
    have others : queue.drop (min size queue.length) = queue.drop size := by
      rw [Nat.min_def]
      split
      · rfl
      · rw [drop_of_length_le (Nat.le_refl _), drop_of_length_le (by omega)]
    rw [some] at bytes
    rw [others] at rest
    rw [count, intOfSize_of_lt (by omega), bytes]
    exact ⟨rfl, rest⟩

theorem cbufStep_refused {buf : RecyBuf} {queue : List Byte} {call : CbufCall}
    (holds : buf.Represents queue) (refused : (cbufStep buf call).1.result = -1)
    :
    (cbufStep buf call).2 = buf := by
  have length := holds.datalen_eq
  have room := holds.datalen_add_freespace
  cases call with
  | write data flag =>
    simp only [cbufStep, write] at refused ⊢
    split at refused
    · rename_i short
      rw [if_pos short]
    · rw [intOfSize_of_lt (by rw [length_take]; omega)] at refused
      omega
  | read size flag =>
    simp only [cbufStep, read] at refused ⊢
    split at refused
    · rename_i short
      rw [if_pos short]
    · rw [intOfSize_of_lt (by split <;> omega)] at refused
      omega

theorem queueStep_fifo (capacity : Nat) (queue : List Byte)
    (calls : List CbufCall) :
    takenBytes (calls.zip (outputs (queueStep capacity) queue calls)) ++
        calls.foldl (fun queue call => (queueStep capacity queue call).2) queue =
      queue ++
        acceptedBytes (calls.zip (outputs (queueStep capacity) queue calls)) := by
  induction calls generalizing queue with
  | nil => exact (append_nil queue).symm
  | cons call calls induction =>
    have later := induction (queueStep capacity queue call).2
    simp only [outputs, zip_cons_cons, takenBytes, acceptedBytes,
      flatMap_cons, foldl_cons, append_assoc] at later ⊢
    rw [later]
    cases call with
    | write data flag =>
      simp only [queueStep]
      split
      · simp
      · have all : data.take ((data.take (capacity - queue.length)).length) =
            data.take (capacity - queue.length) := by
          rw [length_take, ← take_eq_take_min]
        simp only [Int.toNat_natCast, all, nil_append, append_assoc]
    | read size flag =>
      simp only [queueStep]
      split
      · simp
      · simp [← append_assoc]

/-- A ring buffer answers every run of calls as a queue of at most 65535 bytes
does; the bytes read are the first ones of those put in; and in every state
data and free space add up to 65535 and a refused call changes nothing. -/
theorem cbufRun_refines {block : List Byte} (whole : block.length = cBufSize)
    (calls : List CbufCall) :
    outputs cbufStep (init block) calls = outputs (queueStep 65535) [] calls ∧
      takenBytes (calls.zip (outputs cbufStep (init block) calls)) <+:
        acceptedBytes (calls.zip (outputs cbufStep (init block) calls)) ∧
      ∀ visited ∈ states (fun buf call => (cbufStep buf call).2) (init block)
          calls,
        visited.datalen + visited.freespace = 65535 ∧
          ∀ call, (cbufStep visited call).1.result = -1 →
            (cbufStep visited call).2 = visited := by
  have initial := init_represents whole
  have same := outputs_eq_of_simulation cbufStep_simulates initial calls
  have fifo := queueStep_fifo 65535 [] calls
  have preserved : ∀ (buf : RecyBuf) (call : CbufCall),
      (∃ queue, buf.Represents queue) →
        ∃ queue, (cbufStep buf call).2.Represents queue := by
    intro buf call ⟨queue, holds⟩
    exact ⟨_, (cbufStep_simulates buf queue call holds).2⟩
  refine ⟨same, ?_, ?_⟩
  · rw [same]
    rw [nil_append] at fifo
    exact ⟨_, fifo⟩
  · intro visited member
    obtain ⟨queue, holds⟩ := invariant_of_preserved preserved ⟨[], initial⟩
      calls visited member
    exact ⟨holds.datalen_add_freespace, fun call => cbufStep_refused holds⟩

/-- Bytes are written, read in part, and a request that cannot be met is
refused. -/
theorem cbufRun_refines_small :
    (List.replicate cBufSize (0 : Byte)).length = cBufSize ∧
      outputs cbufStep (init (List.replicate cBufSize 0))
          [.write [1, 2, 3] .specified, .read 2 .all, .read 2 .specified] =
        outputs (queueStep 65535) []
          [.write [1, 2, 3] .specified, .read 2 .all, .read 2 .specified] :=
  ⟨length_replicate, (cbufRun_refines length_replicate _).1⟩

end Runs

end RecyBuf

end NdNet
