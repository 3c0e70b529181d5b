import NdNet.Lib.Store

/-!
# The linear buffer of `recbuf.c`

`nd_linebuf` keeps a queue of bytes in one block of storage.  The pointers
`__start` and `__end` are modelled by their distances from `__buf`, and the
storage by the list of the `buf_capacity` bytes behind `__buf`.  A `memcpy`
that runs past the storage leaves those bytes outside of the buffer, where the
model does not see them again.

`memcpy` inside one buffer is used only to move data towards the front and is
taken as a copy that proceeds from low to high addresses, which is what the
test on `sizeof(size_t)` in `_lbuf_move_ahead` relies on.
-/

namespace NdNet

abbrev Byte := UInt8

/-- `(int)` applied to a `size_t`. -/
def intOfSize (size : Nat) : Int :=
  if size % 4294967296 < 2147483648 then (size % 4294967296 : Nat)
  else (size % 4294967296 : Nat) - 4294967296

/-- `(size_t)` applied to an `int`. -/
def sizeOfInt (value : Int) : Nat :=
  (value % 2 ^ 64).toNat

/-- Subtraction of two `size_t` values or addresses. -/
def sizeSub (left right : Nat) : Nat :=
  if right ≤ left then left - right else left + 2 ^ 64 - right

/-- `sizeof(size_t)`. -/
def sizeofSizeT : Nat := 8

theorem intOfSize_of_lt {size : Nat} (small : size < 2 ^ 31) :
    intOfSize size = size := by
  rw [intOfSize]
  split <;> omega

theorem toNat_intOfSize_lt (size : Nat) : (intOfSize size).toNat < 2 ^ 31 := by
  rw [intOfSize]
  split <;> omega

@[simp] theorem sizeSub_of_le {left right : Nat} (ordered : right ≤ left) :
    sizeSub left right = left - right :=
  if_pos ordered

/-- The `_eNDRecyRead` argument of reads and writes. -/
inductive BufFlag where
  | all
  | specified
  deriving DecidableEq, Repr

/-- `struct nd_linebuf`, pointers taken relative to `__buf`. -/
structure LineBuf where
  autoInc : Bool
  capacity : Nat
  startOff : Nat
  endOff : Nat
  storage : List Byte
  deriving DecidableEq, Repr

namespace LineBuf

open Store

def datalen (buf : LineBuf) : Nat :=
  sizeSub buf.endOff buf.startOff

def freeCapacity (buf : LineBuf) : Nat :=
  sizeSub buf.capacity buf.datalen

/-- `_lbuf_freespace`: the room behind `__end`. -/
def freespace (buf : LineBuf) : Nat :=
  sizeSub buf.capacity buf.endOff

def reset (buf : LineBuf) : LineBuf :=
  { buf with
    startOff := 0
    endOff := 0
    storage := overwrite buf.storage 0 [0] }

/-- `_lbuf_init` with the block that `malloc` returned. -/
def init (block : List Byte) : LineBuf :=
  reset
    { autoInc := false
      capacity := block.length
      startOff := 0
      endOff := 0
      storage := block }

/-- The bytes of `[__start, __end)` that lie in the storage. -/
def content (buf : LineBuf) : List Byte :=
  slice buf.storage buf.startOff buf.endOff

/-- `*(pbuf->__end) = 0` when `__end` is inside the storage. -/
def setZeroTail (buf : LineBuf) : LineBuf :=
  if buf.endOff < buf.capacity then
    { buf with storage := overwrite buf.storage buf.endOff [0] }
  else buf

def moveAhead (buf : LineBuf) : LineBuf :=
  if buf.datalen = 0 then buf.reset
  else if sizeofSizeT ≤ buf.startOff then
    setZeroTail
      { buf with
        startOff := 0
        endOff := buf.datalen
        storage := copyForward buf.datalen buf.storage 0 buf.startOff }
  else buf

def trytoMoveAhead (buf : LineBuf) : LineBuf :=
  if buf.capacity / 4 ≤ buf.startOff then buf.moveAhead else buf

def subData (buf : LineBuf) (len : Nat) : LineBuf :=
  let advanced := { buf with startOff := buf.startOff + len }
  if advanced.endOff ≤ advanced.startOff then advanced.reset
  else advanced.trytoMoveAhead

/-- `_lbuf_read`: the return value, the bytes copied out and the buffer. -/
def read (buf : LineBuf) (size : Nat) (flag : BufFlag) :
    Int × List Byte × LineBuf :=
  if flag = .specified ∧ buf.datalen < size then (-1, [], buf)
  else
    let size := if buf.datalen < size then buf.datalen else size
    (intOfSize size, slice buf.storage buf.startOff (buf.startOff + size),
      buf.subData size)

def addData (buf : LineBuf) (len : Nat) : LineBuf :=
  setZeroTail { buf with endOff := buf.endOff + len }

/-- `_lbuf_realloc`; `fresh` is the block that `malloc(newsize)` returned. -/
def realloc (buf : LineBuf) (newsize : Nat) (fresh : Option (List Byte)) :
    Int × LineBuf :=
  if newsize ≤ buf.capacity then (-1, buf)
  else
    match fresh with
    | none => (-1, buf)
    | some block =>
      let result :=
        if 0 < buf.datalen then buf.read newsize .all else (0, [], buf)
      -- the new block is cleared by `_lbuf_reset` after the copy into it
      let emptied := reset
        { result.2.2 with
          capacity := newsize
          storage := overwrite block 0 result.2.1 }
      let filled := { emptied with endOff := emptied.endOff + sizeOfInt result.1 }
      (0, { filled with storage := overwrite filled.storage filled.endOff [0] })

def trytoIncCapacity (buf : LineBuf) (increase : Nat)
    (malloc : Nat → Option (List Byte)) : Int × LineBuf :=
  if !buf.autoInc then (-1, buf)
  else
    let wanted := buf.capacity + increase
    let newsize :=
      if buf.capacity * 2 < wanted then (wanted + 7) / 8 * 8
      else buf.capacity * 2
    buf.realloc newsize (malloc newsize)

/-- `memcpy(pbuf->__end, data, datalen)` followed by `_lbuf_add_data`. -/
def append (buf : LineBuf) (data : List Byte) : LineBuf :=
  addData { buf with storage := overwrite buf.storage buf.endOff data }
    data.length

/-- `_lbuf_write`: the return value and the buffer. -/
def write (buf : LineBuf) (data : List Byte) (flag : BufFlag)
    (malloc : Nat → Option (List Byte)) : Int × LineBuf :=
  if data.length ≤ buf.freespace then
    (intOfSize data.length, buf.append data)
  else
    match flag with
    | .specified =>
      if buf.freeCapacity < data.length then
        let grown := buf.trytoIncCapacity data.length malloc
        if !buf.autoInc ∨ grown.1 = -1 then (-1, grown.2)
        else (intOfSize data.length, grown.2.append data)
      else (intOfSize data.length, buf.moveAhead.append data)
    | .all =>
      let moved := buf.moveAhead
      if moved.freeCapacity < data.length then
        let grown := moved.trytoIncCapacity data.length malloc
        if grown.1 = -1 then
          (intOfSize moved.freeCapacity,
            grown.2.append (data.take moved.freeCapacity))
        else (intOfSize data.length, grown.2.append data)
      else (intOfSize data.length, moved.append data)

end LineBuf

end NdNet
