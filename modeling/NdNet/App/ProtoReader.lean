import NdNet.App.ProtoStream
import NdNet.Lib.Runs
import Mathlib.Tactic.SplitIfs

/-!
# The memory accesses of `NDProtoReadStream`

`ProtoReadStream` has the data as a list and cannot leave it.  Here the reader
has its pointers: `_op_addr` and `_end` are offsets from `_org_start_addr` into
a memory that goes on behind the data, and every byte looked at and every byte
stored through the caller's pointer is kept on record.

Two calls do not look at the sizes they are given: `Read` of an empty text
stores the closing zero in a buffer of any size, and `ReadStream` compares its
length with `LeftData`, which is an `int`.
-/

namespace NdNet

/-- `NDProtoReadStream`.  `reads` are the ranges (offset and length) the current
call has read, `written` is how much of the caller's buffer it has filled. -/
structure ReadCursor where
  memory : Nat → Byte
  size : Nat
  pos : Nat
  struckEndMarker : Bool
  skipEndMarker : Bool
  skipEndAllStream : Bool
  reads : List (Nat × Nat)
  written : Nat

namespace ReadCursor

/-- `NDProtoReadStream::Init` on `size` bytes of `memory`. -/
def init (memory : Nat → Byte) (size : Nat) : ReadCursor where
  memory := memory
  size := size
  pos := 0
  struckEndMarker := false
  skipEndMarker := false
  skipEndAllStream := false
  reads := []
  written := 0

def bytesAt (cursor : ReadCursor) (offset len : Nat) : List Byte :=
  (List.range len).map fun index => cursor.memory (offset + index)

def touch (cursor : ReadCursor) (offset len : Nat) : ReadCursor :=
  { cursor with reads := (offset, len) :: cursor.reads }

/-- `LeftData`, a pointer difference cut down to an `int` -/
def leftData (cursor : ReadCursor) : Int :=
  Int.bmod (cursor.size - cursor.pos) 4294967296

/-- `_ReadOrg` of `size` bytes: the result, the number read and the reader. -/
def readOrg (cursor : ReadCursor) (size : Nat) : Int × Nat × ReadCursor :=
  if cursor.pos + size ≤ cursor.size then
    (0, fromNetstream (cursor.bytesAt cursor.pos size),
      { cursor.touch cursor.pos size with pos := cursor.pos + size })
  else (-1, 0, cursor)

/-- The loop of `_ReadTypeSize`; the first argument is the number of bytes that
are left, which every round makes smaller. -/
def readMarkers : Nat → ReadCursor → Int × Nat × Nat × ReadCursor
  | 0, cursor => (-1, 0, 0, cursor)
  | left + 1, cursor =>
    let (ret, marker, cursor) := cursor.readOrg 1
    if ret = -1 then (-1, 0, 0, cursor)
    else if marker = netStreamStructEndMark.toNat then
      if cursor.skipEndMarker || cursor.skipEndAllStream then
        readMarkers left cursor
      else (0, 0, 0, { cursor with struckEndMarker := true })
    else
      let type := marker / 16
      let size := marker % 16
      if type = StreamMarker.cmdSkipStructMark.code then
        readMarkers left { cursor with skipEndMarker := true }
      else if type = StreamMarker.cmdEnableStructMark.code then
        readMarkers left { cursor with skipEndMarker := false }
      else (0, type, size, cursor)

/-- `_ReadTypeSize`, after `m_bStruckEndMarker = false` as in every call of it -/
def readTypeSize (cursor : ReadCursor) : Int × Nat × Nat × ReadCursor :=
  readMarkers (cursor.size - cursor.pos)
    { cursor with struckEndMarker := false }

/-- What every `Read` starts with: the marker must be there, be of the type
asked for and not be the end of a structure. -/
def readMarker (cursor : ReadCursor) (marker : StreamMarker) :
    Option Nat × ReadCursor :=
  let (ret, type, size, cursor) := cursor.readTypeSize
  if ret = -1 ∨ cursor.struckEndMarker then (none, cursor)
  else if type ≠ marker.code then (none, cursor)
  else (some size, cursor)

/-- The integer overloads of `Read` into a variable of `width` bytes. -/
def readInt (marker : StreamMarker) (sizes : List Nat) (width : Nat)
    (cursor : ReadCursor) : Int × Nat × ReadCursor :=
  match cursor.readMarker marker with
  | (none, cursor) => (-1, 0, cursor)
  | (some size, cursor) =>
    let cursor := { cursor with written := width }
    if size = 0 then (0, 0, cursor)
    else if size ∈ sizes then cursor.readOrg size
    else (-1, 0, cursor)

/-- `Read(NDUINT8 &)` -/
def read8 := readInt .int8 [1] 1

/-- `Read(NDUINT16 &)` -/
def read16 := readInt .int16 [1, 2] 2

/-- `Read(NDUINT32 &)` -/
def read32 := readInt .int32 [1, 2, 4] 4

/-- `Read(NDUINT64 &)` -/
def read64 := readInt .int64 [1, 2, 4, 8] 8

/-- `Read(NDUINT8 *, size_t)`: the length returned, the text and the reader. -/
def readText (cursor : ReadCursor) (sizeBuf : UInt64) :
    Nat × List Byte × ReadCursor :=
  match cursor.readMarker .text with
  | (none, cursor) => (0, [], cursor)
  | (some size, cursor) =>
    -- the closing zero is stored before `size_buf` is looked at
    if size = 0 then (0, [], { cursor with written := 1 })
    else
      let (ret, dataSize, cursor) := cursor.readOrg 2
      if ret = -1 ∨ dataSize = 0 then (0, [], cursor)
      else if cursor.pos + dataSize < cursor.size then
        let looked := cursor.touch (cursor.pos + dataSize) 1
        if cursor.memory (cursor.pos + dataSize) = 0x7f ∧
            dataSize < sizeBuf.toNat then
          (dataSize, cursor.bytesAt cursor.pos dataSize,
            { looked.touch cursor.pos dataSize with
              pos := cursor.pos + (dataSize + 1)
              written := dataSize + 1 })
        else (0, [], looked)
      else (0, [], cursor)

def readBin (cursor : ReadCursor) (sizeBuf : UInt64) :
    Nat × List Byte × ReadCursor :=
  match cursor.readMarker .bin with
  | (none, cursor) => (0, [], cursor)
  | (some size, cursor) =>
    if size = 0 then (0, [], cursor)
    else
      let (ret, dataSize, cursor) := cursor.readOrg 2
      if ret = -1 ∨ dataSize = 0 then (0, [], cursor)
      else if cursor.pos + dataSize ≤ cursor.size then
        if dataSize ≤ sizeBuf.toNat then
          (dataSize, cursor.bytesAt cursor.pos dataSize,
            { cursor.touch cursor.pos dataSize with
              pos := cursor.pos + dataSize
              written := dataSize })
        else (0, [], cursor)
      else (0, [], cursor)

def sizeT (value : Int) : Nat :=
  (value % 18446744073709551616).toNat

def readStream (cursor : ReadCursor) (readlen : UInt64) :
    Nat × List Byte × ReadCursor :=
  if sizeT cursor.leftData < readlen.toNat then (sizeT (-1), [], cursor)
  else
    (readlen.toNat, cursor.bytesAt cursor.pos readlen.toNat,
      { cursor.touch cursor.pos readlen.toNat with
        pos := cursor.pos + readlen.toNat
        written := readlen.toNat })

def readLeftStream (cursor : ReadCursor) (bufSize : UInt64) :
    Nat × List Byte × ReadCursor :=
  let dataSize := sizeT (cursor.size - cursor.pos)
  if dataSize = 0 then (0, [], cursor)
  else if bufSize.toNat < dataSize then (0, [], cursor)
  else
    (dataSize, cursor.bytesAt cursor.pos dataSize,
      { cursor.touch cursor.pos dataSize with
        pos := cursor.size
        written := dataSize })

def peekBinSize (cursor : ReadCursor) : Nat × ReadCursor :=
  let curAddr := cursor.pos
  let (ret, _, size, cursor) := cursor.readTypeSize
  if ret = -1 ∨ cursor.struckEndMarker then (0, { cursor with pos := curAddr })
  else if size = 0 then (0, { cursor with pos := curAddr })
  else
    let (_, dataSize, cursor) := cursor.readOrg 2
    (dataSize, { cursor with pos := curAddr })

/-- `PeekDataType`; at the end of a structure the variable it returns has never
been set, or to the type of a command in front of it. -/
def peekDataType (cursor : ReadCursor) : Option Nat × ReadCursor :=
  let orgAddr := cursor.pos
  let (ret, type, _, cursor) := cursor.readTypeSize
  let cursor := { cursor with pos := orgAddr }
  if ret = -1 then (some StreamMarker.undefine.code, cursor)
  else if cursor.struckEndMarker then (none, cursor)
  else (some type, cursor)

def setSkipMarker (cursor : ReadCursor) (bSkip : Bool) : Bool × ReadCursor :=
  (cursor.skipEndAllStream, { cursor with skipEndAllStream := bSkip })

/-- The `switch` of `TrytoMoveStructEnd`: whether the value could be stepped
over, and the reader behind it. -/
def stepOver (cursor : ReadCursor) (type size : Nat) : Bool × ReadCursor :=
  if type ∈ [StreamMarker.int8.code, StreamMarker.int16.code,
      StreamMarker.int32.code, StreamMarker.int64.code,
      StreamMarker.float.code, StreamMarker.double.code,
      StreamMarker.ip.code] then
    (true, { cursor with pos := cursor.pos + size })
  else if type = StreamMarker.ip6.code then
    (true, { cursor with pos := cursor.pos + 16 })
  else if type = StreamMarker.text.code then
    if size = 0 then (true, cursor)
    else
      let (ret, dataSize, cursor) := cursor.readOrg 2
      if ret = -1 then (false, cursor)
      else (true, { cursor with pos := cursor.pos + (dataSize + 1) })
  else if type = StreamMarker.bin.code then
    if size = 0 then (true, cursor)
    else
      let (ret, dataSize, cursor) := cursor.readOrg 2
      if ret = -1 then (false, cursor)
      else (true, { cursor with pos := cursor.pos + dataSize })
  else (false, cursor)

/-- The loop of `TrytoMoveStructEnd`, for as many rounds as the first argument
allows. -/
def moveLoop : Nat → Nat → ReadCursor → Option (Bool × ReadCursor)
  | 0, _, _ => none
  | rounds + 1, orgAddr, cursor =>
    let (ret, type, size, cursor) := cursor.readTypeSize
    if ret = -1 then some (false, { cursor with pos := orgAddr })
    else if cursor.struckEndMarker then some (true, cursor)
    else
      let (stepped, cursor) := cursor.stepOver type size
      if stepped && decide (0 < cursor.leftData) then
        moveLoop rounds orgAddr cursor
      else some (false, { cursor with pos := orgAddr })

def trytoMoveStructEnd (cursor : ReadCursor) : Option (Bool × ReadCursor) :=
  if cursor.struckEndMarker || cursor.skipEndMarker ||
      cursor.skipEndAllStream then some (true, cursor)
  else moveLoop (cursor.size - cursor.pos + 1) cursor.pos cursor

end ReadCursor

inductive ReaderCall where
  | read8
  | read16
  | read32
  | read64
  | readText (sizeBuf : UInt64)
  | readBin (sizeBuf : UInt64)
  | readStream (readlen : UInt64)
  | readLeftStream (bufSize : UInt64)
  | peekDataType
  | peekBinSize
  | setSkipMarker (bSkip : Bool)
  | trytoMoveStructEnd
  deriving DecidableEq, Repr

def ReaderCall.room : ReaderCall → Nat
  | read8 => 1
  | read16 => 2
  | read32 => 4
  | read64 => 8
  | readText sizeBuf => sizeBuf.toNat
  | readBin sizeBuf => sizeBuf.toNat
  | readStream readlen => readlen.toNat
  | readLeftStream bufSize => bufSize.toNat
  | peekDataType => 0
  | peekBinSize => 0
  | setSkipMarker _ => 0
  | trytoMoveStructEnd => 0

variable {result : Nat × List Byte × ReadCursor}

namespace ReadCursor

def fresh (cursor : ReadCursor) : ReadCursor :=
  { cursor with reads := [], written := 0 }

def perform (cursor : ReadCursor) : ReaderCall → ReadCursor
  | .read8 => cursor.fresh.read8.2.2
  | .read16 => cursor.fresh.read16.2.2
  | .read32 => cursor.fresh.read32.2.2
  | .read64 => cursor.fresh.read64.2.2
  | .readText sizeBuf => (cursor.fresh.readText sizeBuf).2.2
  | .readBin sizeBuf => (cursor.fresh.readBin sizeBuf).2.2
  | .readStream readlen => (cursor.fresh.readStream readlen).2.2
  | .readLeftStream bufSize => (cursor.fresh.readLeftStream bufSize).2.2
  | .peekDataType => cursor.fresh.peekDataType.2
  | .peekBinSize => cursor.fresh.peekBinSize.2
  | .setSkipMarker bSkip => (cursor.fresh.setSkipMarker bSkip).2
  | .trytoMoveStructEnd =>
    match cursor.fresh.trytoMoveStructEnd with
    | some (_, cursor) => cursor
    | none => cursor

/-- A call has stayed in bounds: it ends between the start and the end of the
data, has read there only, and has stored no more than the caller has room
for. -/
structure StaysIn (cursor : ReadCursor) (call : ReaderCall) : Prop where
  position : (cursor.perform call).pos ≤ cursor.size
  looked : ∀ range ∈ (cursor.perform call).reads,
    range.1 + range.2 ≤ cursor.size
  stored : (cursor.perform call).written ≤ call.room

/-- The call looks at the sizes it is given, or these do not matter: no empty
text is read into a buffer of size 0, and the length of a `ReadStream` is no
more than what is left when that is negative as an `int`. -/
def Fits (cursor : ReadCursor) : ReaderCall → Prop
  | .readText sizeBuf =>
    sizeBuf = 0 → (cursor.fresh.readMarker .text).1 ≠ some 0
  | .readStream readlen =>
    cursor.leftData < 0 →
      readlen.toNat ≤ cursor.size - cursor.pos ∨
        sizeT cursor.leftData < readlen.toNat
  | _ => True

def ReadsIn (cursor : ReadCursor) : Prop :=
  ∀ range ∈ cursor.reads, range.1 + range.2 ≤ cursor.size

/-- A part of a call that only moves forward inside the data and stores
nothing. -/
structure Steady (cursor after : ReadCursor) : Prop where
  size : after.size = cursor.size
  written : after.written = cursor.written
  looked : cursor.ReadsIn → after.ReadsIn
  position : cursor.pos ≤ cursor.size → after.pos ≤ after.size
  forward : cursor.pos ≤ after.pos

namespace Steady

theorem refl (cursor : ReadCursor) : Steady cursor cursor :=
  ⟨rfl, rfl, id, id, Nat.le_refl _⟩

theorem trans {first second third : ReadCursor} (early : Steady first second)
    (late : Steady second third) :
    Steady first third where
  size := late.size.trans early.size
  written := late.written.trans early.written
  looked reads := late.looked (early.looked reads)
  position inside := late.position (early.position inside)
  forward := Nat.le_trans early.forward late.forward

end Steady

theorem readsIn_touch {cursor : ReadCursor} {offset len : Nat}
    (reads : cursor.ReadsIn) (inside : offset + len ≤ cursor.size) :
    (cursor.touch offset len).ReadsIn := by
  intro range member
  rcases List.mem_cons.mp member with rfl | old
  · exact inside
  · exact reads range old

variable {cursor : ReadCursor}

theorem readOrg_steady (size : Nat) :
    Steady cursor (cursor.readOrg size).2.2 := by
  unfold readOrg
  split
  · rename_i inside
    exact
      { size := rfl
        written := rfl
        looked := fun reads => readsIn_touch reads inside
        position := fun _ => inside
        forward := Nat.le_add_right _ _ }
  · exact Steady.refl _

theorem readOrg_advances {size : Nat} (done : (cursor.readOrg size).1 ≠ -1) :
    (cursor.readOrg size).2.2.pos = cursor.pos + size := by
  unfold readOrg at done ⊢
  split
  · rfl
  · rename_i outside
    rw [if_neg outside] at done
    exact absurd rfl done

theorem readMarkers_steady (left : Nat) :
    Steady cursor (readMarkers left cursor).2.2.2 := by
  induction left generalizing cursor with
  | zero => exact Steady.refl _
  | succ left induction =>
    have first := @readOrg_steady cursor 1
    rw [readMarkers]
    cases read : cursor.readOrg 1 with
    | mk ret rest =>
      obtain ⟨marker, next⟩ := rest
      rw [read] at first
      have flags : ∀ skip : Bool,
          Steady next { next with skipEndMarker := skip } := fun _ =>
        ⟨rfl, rfl, id, id, Nat.le_refl _⟩
      dsimp only at first ⊢
      split_ifs
      · exact first
      · exact first.trans induction
      · exact first.trans ⟨rfl, rfl, id, id, Nat.le_refl _⟩
      · exact (first.trans (flags true)).trans induction
      · exact (first.trans (flags false)).trans induction
      · exact first

theorem readTypeSize_steady : Steady cursor cursor.readTypeSize.2.2.2 := by
  have started : Steady cursor { cursor with struckEndMarker := false } :=
    ⟨rfl, rfl, id, id, Nat.le_refl _⟩
  exact started.trans (readMarkers_steady _)

theorem readMarker_steady (marker : StreamMarker) :
    Steady cursor (cursor.readMarker marker).2 := by
  have whole := @readTypeSize_steady cursor
  unfold readMarker
  dsimp only
  split_ifs <;> exact whole

theorem readMarkers_advances {left : Nat}
    (done : (readMarkers left cursor).1 ≠ -1) :
    cursor.pos < (readMarkers left cursor).2.2.2.pos := by
  cases left with
  | zero => exact absurd rfl done
  | succ left =>
    have advances := @readOrg_advances cursor 1
    rw [readMarkers] at done ⊢
    cases read : cursor.readOrg 1 with
    | mk ret rest =>
      obtain ⟨marker, next⟩ := rest
      rw [read] at advances done
      dsimp only at advances done ⊢
      by_cases failed : ret = -1
      · rw [if_pos failed] at done
        exact absurd rfl done
      have beyond : ∀ after, Steady next after → cursor.pos < after.pos :=
        fun after steady => by
          have forward := steady.forward
          omega
      have flags : ∀ skip : Bool,
          Steady next { next with skipEndMarker := skip } := fun _ =>
        ⟨rfl, rfl, id, id, Nat.le_refl _⟩
      split_ifs
      · exact beyond _ (readMarkers_steady left)
      · exact beyond _ ⟨rfl, rfl, id, id, Nat.le_refl _⟩
      · exact beyond _ ((flags true).trans (readMarkers_steady left))
      · exact beyond _ ((flags false).trans (readMarkers_steady left))
      · exact beyond _ (Steady.refl _)

/-- What a call may leave behind on data of a given size, for a caller with a
given room. -/
structure Inside (bound room : Nat) (after : ReadCursor) : Prop where
  size : after.size = bound
  position : after.pos ≤ bound
  looked : after.ReadsIn
  stored : after.written ≤ room

theorem Inside.steady {after : ReadCursor} {bound room : Nat}
    (inside : Inside bound room cursor) (steady : Steady cursor after) :
    Inside bound room after where
  size := steady.size.trans inside.size
  position := by
    have size := steady.size.trans inside.size
    rw [← size]
    exact steady.position (by rw [inside.size]; exact inside.position)
  looked := steady.looked inside.looked
  stored := by
    rw [steady.written]
    exact inside.stored

theorem Steady.inside {after : ReadCursor} {room : Nat}
    (steady : Steady cursor.fresh after) (start : cursor.pos ≤ cursor.size) :
    Inside cursor.size room after := by
  have begun : Inside cursor.size room cursor.fresh :=
    { size := rfl
      position := start
      looked := fun _ member => absurd member List.not_mem_nil
      stored := Nat.zero_le _ }
  exact begun.steady steady

theorem Inside.storing {bound before room stored : Nat}
    (inside : Inside bound before cursor) (fits : stored ≤ room) :
    Inside bound room { cursor with written := stored } where
  size := inside.size
  position := inside.position
  looked := inside.looked
  stored := fits

theorem Inside.taken {bound room len step : Nat}
    (inside : Inside bound room cursor) (there : cursor.pos + len ≤ bound)
    (behind : cursor.pos + step ≤ bound) {stored : Nat} (fits : stored ≤ room) :
    Inside bound room
      { cursor.touch cursor.pos len with
        pos := cursor.pos + step
        written := stored } where
  size := inside.size
  position := behind
  looked := readsIn_touch inside.looked (by rw [inside.size]; exact there)
  stored := fits

theorem readInt_inside (marker : StreamMarker) (sizes : List Nat) {width : Nat}
    (start : cursor.pos ≤ cursor.size) :
    Inside cursor.size width (readInt marker sizes width cursor.fresh).2.2 := by
  have marked := @readMarker_steady cursor.fresh marker
  unfold readInt
  cases read : cursor.fresh.readMarker marker with
  | mk found next =>
    rw [read] at marked
    cases found with
    | none => exact marked.inside start
    | some size =>
      have inside : Inside cursor.size width
          { next with written := width } :=
        (marked.inside start : Inside cursor.size 0 next).storing
          (Nat.le_refl _)
      dsimp only
      split_ifs
      · exact inside
      · exact inside.steady (readOrg_steady size)
      · exact inside

theorem readOrg_two_lt : (cursor.readOrg 2).2.1 < 65536 := by
  unfold readOrg
  split
  · have first := (cursor.memory (cursor.pos + 0)).toNat_lt
    have second := (cursor.memory (cursor.pos + 1)).toNat_lt
    change 256 * (256 * 0 + (cursor.memory (cursor.pos + 0)).toNat) +
      (cursor.memory (cursor.pos + 1)).toNat < 65536
    omega
  · exact Nat.zero_lt_succ _

/-- What the read of a block may do: it moves forward only, or it takes bytes
and `extra` more behind them. -/
inductive BlockRead (cursor : ReadCursor) (extra room : Nat) :
    Nat × List Byte × ReadCursor → Prop
  | missed {after : ReadCursor} : Steady cursor after →
      BlockRead cursor extra room (0, [], after)
  | taken {after : ReadCursor} {count : Nat} : Steady cursor after →
      count < 65536 → after.pos + (count + extra) ≤ after.size →
      count + extra ≤ room →
      BlockRead cursor extra room (count, after.bytesAt after.pos count,
        { after.touch after.pos count with
          pos := after.pos + (count + extra)
          written := count + extra })

theorem readBin_block (sizeBuf : UInt64) :
    BlockRead cursor 0 sizeBuf.toNat (cursor.readBin sizeBuf) := by
  have marked := @readMarker_steady cursor .bin
  unfold readBin
  cases read : cursor.readMarker .bin with
  | mk found next =>
    rw [read] at marked
    cases found with
    | none => exact .missed marked
    | some size =>
      have counted := marked.trans (readOrg_steady 2)
      dsimp only
      split_ifs with empty failed there room
      · exact .missed marked
      · exact .missed counted
      · exact .taken counted readOrg_two_lt there room
      · exact .missed counted
      · exact .missed counted

theorem readText_block (sizeBuf : UInt64) :
    (cursor.readMarker .text).1 = some 0 ∧ cursor.readText sizeBuf =
        (0, [], { (cursor.readMarker .text).2 with written := 1 }) ∨
      BlockRead cursor 1 sizeBuf.toNat (cursor.readText sizeBuf) := by
  have marked := @readMarker_steady cursor .text
  unfold readText
  cases read : cursor.readMarker .text with
  | mk found next =>
    rw [read] at marked
    cases found with
    | none => exact .inr (.missed marked)
    | some size =>
      have counted := marked.trans (readOrg_steady 2)
      have looked (there : (next.readOrg 2).2.2.pos +
          (next.readOrg 2).2.1 < (next.readOrg 2).2.2.size) :
          Steady cursor ((next.readOrg 2).2.2.touch
            ((next.readOrg 2).2.2.pos + (next.readOrg 2).2.1) 1) :=
        counted.trans ⟨rfl, rfl, fun reads => readsIn_touch reads there,
          id, Nat.le_refl _⟩
      dsimp only
      split_ifs with empty failed there closed
      · exact .inl ⟨congrArg some empty, rfl⟩
      · exact .inr (.missed counted)
      · exact .inr (.taken (looked there) readOrg_two_lt there closed.2)
      · exact .inr (.missed (looked there))
      · exact .inr (.missed counted)

theorem BlockRead.inside {extra room : Nat}
    (block : BlockRead cursor.fresh extra room result)
    (start : cursor.pos ≤ cursor.size) :
    Inside cursor.size room result.2.2 := by
  cases block with
  | missed steady => exact steady.inside start
  | taken steady short there fits =>
    have inside : Inside cursor.size room _ := steady.inside start
    rw [inside.size] at there
    exact inside.taken (by omega) there fits

/-- Apart from an empty text, which stores one byte, `Read` of a text keeps to
its buffer. -/
theorem readText_inside (sizeBuf : UInt64) (start : cursor.pos ≤ cursor.size)
    (fits : sizeBuf = 0 → (cursor.fresh.readMarker .text).1 ≠ some 0) :
    Inside cursor.size sizeBuf.toNat
      (cursor.fresh.readText sizeBuf).2.2 := by
  rcases @readText_block cursor.fresh sizeBuf with ⟨empty, same⟩ | block
  · have positive : 0 < sizeBuf.toNat := by
      refine Nat.pos_of_ne_zero ?_
      intro zero
      exact fits (UInt64.toNat_inj.mp zero) empty
    have inside : Inside cursor.size 0 (cursor.fresh.readMarker .text).2 :=
      (readMarker_steady .text).inside start
    rw [same]
    exact inside.storing positive
  · exact block.inside start

theorem sizeT_leftData (start : cursor.pos ≤ cursor.size)
    (positive : 0 ≤ cursor.leftData) :
    sizeT cursor.leftData ≤ cursor.size - cursor.pos := by
  unfold sizeT
  unfold leftData at positive ⊢
  have residue : Int.bmod ((cursor.size : Int) - cursor.pos) 4294967296 =
      ((cursor.size : Int) - cursor.pos) % 4294967296 := by
    rw [Int.bmod_def] at positive ⊢
    split
    · rfl
    · rename_i large
      push_cast at positive
      omega
  omega

/-- `ReadStream` stays in the data exactly if its length is checked against
what is really left. -/
theorem readStream_inside (readlen : UInt64) (start : cursor.pos ≤ cursor.size)
    (fits : cursor.leftData < 0 →
      readlen.toNat ≤ cursor.size - cursor.pos ∨
        sizeT cursor.leftData < readlen.toNat) :
    Inside cursor.size readlen.toNat
      (cursor.fresh.readStream readlen).2.2 := by
  have begun : Inside cursor.size readlen.toNat cursor.fresh :=
    (Steady.refl _).inside start
  unfold readStream
  split
  · exact begun
  rename_i passes
  have there : cursor.pos + readlen.toNat ≤ cursor.size := by
    change ¬ sizeT cursor.leftData < readlen.toNat at passes
    by_cases negative : cursor.leftData < 0
    · omega
    · have left := sizeT_leftData start (by omega)
      omega
  exact begun.taken there there (Nat.le_refl _)

theorem readLeftStream_inside (bufSize : UInt64)
    (start : cursor.pos ≤ cursor.size) :
    Inside cursor.size bufSize.toNat
      (cursor.fresh.readLeftStream bufSize).2.2 := by
  have begun : Inside cursor.size bufSize.toNat cursor.fresh :=
    (Steady.refl _).inside start
  unfold readLeftStream
  dsimp only
  split_ifs with none short
  · exact begun
  · exact begun
  have left : sizeT (cursor.size - cursor.pos) ≤
      cursor.size - cursor.pos := by
    unfold sizeT
    omega
  exact
    { size := rfl
      position := Nat.le_refl _
      looked := readsIn_touch begun.looked (by
        change cursor.pos + sizeT (cursor.size - cursor.pos) ≤ cursor.size
        omega)
      stored := Nat.le_of_not_lt short }

theorem Inside.restored {bound room orgAddr : Nat}
    (inside : Inside bound room cursor) (before : orgAddr ≤ bound) :
    Inside bound room { cursor with pos := orgAddr } where
  size := inside.size
  position := before
  looked := inside.looked
  stored := inside.stored

theorem peekDataType_inside (start : cursor.pos ≤ cursor.size) :
    Inside cursor.size 0 cursor.fresh.peekDataType.2 := by
  have read : Inside cursor.size 0 cursor.fresh.readTypeSize.2.2.2 :=
    readTypeSize_steady.inside start
  unfold peekDataType
  dsimp only
  split_ifs <;> exact read.restored start

theorem peekBinSize_inside (start : cursor.pos ≤ cursor.size) :
    Inside cursor.size 0 cursor.fresh.peekBinSize.2 := by
  have read : Inside cursor.size 0 cursor.fresh.readTypeSize.2.2.2 :=
    readTypeSize_steady.inside start
  unfold peekBinSize
  dsimp only
  split_ifs
  · exact read.restored start
  · exact read.restored start
  · exact (read.steady (readOrg_steady 2)).restored start

theorem readMarkers_size (left : Nat) :
    (readMarkers left cursor).2.2.1 < 16 := by
  induction left generalizing cursor with
  | zero => exact Nat.zero_lt_succ _
  | succ left induction =>
    rw [readMarkers]
    dsimp only
    split_ifs
    · exact Nat.zero_lt_succ _
    · exact induction
    · exact Nat.zero_lt_succ _
    · exact induction
    · exact induction
    · exact Nat.mod_lt _ (by decide)

/-- A value that is stepped over may end behind the data, but not far. -/
structure NearEnd (bound : Nat) (after : ReadCursor) : Prop where
  size : after.size = bound
  near : after.pos ≤ bound + 65537
  looked : after.ReadsIn
  stored : after.written ≤ 0

theorem Inside.stepped {bound step : Nat} (inside : Inside bound 0 cursor)
    (short : step ≤ 65537) :
    NearEnd bound { cursor with pos := cursor.pos + step } where
  size := inside.size
  near := by
    have position := inside.position
    change cursor.pos + step ≤ bound + 65537
    omega
  looked := inside.looked
  stored := inside.stored

theorem stepOver_nearEnd {bound type size : Nat}
    (inside : Inside bound 0 cursor) (small : size < 16) :
    NearEnd bound (cursor.stepOver type size).2 := by
  have stays : ∀ after, Inside bound 0 after → NearEnd bound after := by
    intro after within
    exact ⟨within.size, by have position := within.position; omega,
      within.looked, within.stored⟩
  have counted := @readOrg_two_lt cursor
  have read := inside.steady (readOrg_steady 2)
  unfold stepOver
  dsimp only
  split_ifs
  · exact inside.stepped (by omega)
  · exact inside.stepped (by omega)
  · exact stays _ inside
  · exact stays _ read
  · exact read.stepped (Nat.succ_le_succ (Nat.le_of_lt counted))
  · exact stays _ inside
  · exact stays _ read
  · exact read.stepped (Nat.le_succ_of_le (Nat.le_of_lt counted))
  · exact stays _ inside

theorem stepOver_forward {type size : Nat} :
    cursor.pos ≤ (cursor.stepOver type size).2.pos := by
  have read := (@readOrg_steady cursor 2).forward
  unfold stepOver
  dsimp only
  split_ifs
  · exact Nat.le_add_right _ _
  · exact Nat.le_add_right _ _
  · exact Nat.le_refl _
  · exact read
  · exact Nat.le_add_right_of_le read
  · exact Nat.le_refl _
  · exact read
  · exact Nat.le_add_right_of_le read
  · exact Nat.le_refl _

/-- Behind the end `LeftData` is negative, so the loop goes on inside only. -/
theorem NearEnd.inside_of_leftData {bound : Nat} (near : NearEnd bound cursor)
    (positive : 0 < cursor.leftData) :
    Inside bound 0 cursor ∧ cursor.pos < bound := by
  have before : cursor.pos < bound := by
    by_contra behind
    have close := near.near
    unfold leftData at positive
    rw [near.size] at positive
    have exactly : Int.bmod ((bound : Int) - cursor.pos) 4294967296 =
        (bound : Int) - cursor.pos := by
      refine Int.bmod_eq_of_le ?_ ?_
      · omega
      · omega
    omega
  exact ⟨⟨near.size, Nat.le_of_lt before, near.looked, near.stored⟩, before⟩

theorem moveLoop_inside {bound orgAddr rounds : Nat}
    (inside : Inside bound 0 cursor) (before : orgAddr ≤ bound) :
    ∀ result ∈ moveLoop rounds orgAddr cursor, Inside bound 0 result.2 := by
  induction rounds generalizing cursor with
  | zero => simp [moveLoop]
  | succ rounds induction =>
    intro result found
    have read := inside.steady readTypeSize_steady
    have near : NearEnd bound
        (cursor.readTypeSize.2.2.2.stepOver cursor.readTypeSize.2.1
          cursor.readTypeSize.2.2.1).2 :=
      stepOver_nearEnd read (readMarkers_size _)
    rw [moveLoop] at found
    dsimp only at found
    split_ifs at found with failed struck again
    · cases found
      exact read.restored before
    · cases found
      exact read
    · simp only [Bool.and_eq_true, decide_eq_true_eq] at again
      exact induction (near.inside_of_leftData again.2).1 result found
    · cases found
      exact ⟨near.size, before, near.looked, near.stored⟩

theorem moveLoop_isSome {bound orgAddr rounds : Nat}
    (inside : Inside bound 0 cursor) (enough : bound - cursor.pos < rounds) :
    (moveLoop rounds orgAddr cursor).isSome = true := by
  induction rounds generalizing cursor with
  | zero => omega
  | succ rounds induction =>
    have read := inside.steady readTypeSize_steady
    have near : NearEnd bound
        (cursor.readTypeSize.2.2.2.stepOver cursor.readTypeSize.2.1
          cursor.readTypeSize.2.2.1).2 :=
      stepOver_nearEnd read (readMarkers_size _)
    rw [moveLoop]
    dsimp only
    split_ifs with failed struck again
    · rfl
    · rfl
    · simp only [Bool.and_eq_true, decide_eq_true_eq] at again
      obtain ⟨within, before⟩ := near.inside_of_leftData again.2
      have advanced : cursor.pos < cursor.readTypeSize.2.2.2.pos :=
        readMarkers_advances failed
      have onward := Nat.lt_of_lt_of_le advanced
        (@stepOver_forward cursor.readTypeSize.2.2.2 cursor.readTypeSize.2.1
          cursor.readTypeSize.2.2.1)
      have fewer := Nat.sub_lt_sub_left (Nat.lt_trans onward before) onward
      exact induction within
        (Nat.lt_of_lt_of_le fewer (Nat.le_of_lt_succ enough))
    · rfl

/-- `TrytoMoveStructEnd` returns, and inside the data. -/
theorem trytoMoveStructEnd_inside (start : cursor.pos ≤ cursor.size) :
    ∃ result, cursor.fresh.trytoMoveStructEnd = some result ∧
      Inside cursor.size 0 result.2 := by
  have begun : Inside cursor.size 0 cursor.fresh :=
    (Steady.refl _).inside start
  unfold trytoMoveStructEnd
  split
  · exact ⟨_, rfl, begun⟩
  · obtain ⟨result, found⟩ := Option.isSome_iff_exists.mp
      (@moveLoop_isSome cursor.fresh cursor.size cursor.fresh.pos _ begun
        (Nat.lt_succ_self _))
    exact ⟨result, found, moveLoop_inside begun start result found⟩

theorem perform_inside {call : ReaderCall} (start : cursor.pos ≤ cursor.size)
    (fits : cursor.Fits call) :
    Inside cursor.size call.room (cursor.perform call) := by
  cases call with
  | read8 | read16 | read32 | read64 => exact readInt_inside _ _ start
  | readText sizeBuf => exact readText_inside sizeBuf start fits
  | readBin sizeBuf => exact (readBin_block sizeBuf).inside start
  | readStream readlen => exact readStream_inside readlen start fits
  | readLeftStream bufSize => exact readLeftStream_inside bufSize start
  | peekDataType => exact peekDataType_inside start
  | peekBinSize => exact peekBinSize_inside start
  | setSkipMarker bSkip =>
    exact Steady.inside ⟨rfl, rfl, id, id, Nat.le_refl _⟩ start
  | trytoMoveStructEnd =>
    obtain ⟨result, found, inside⟩ := trytoMoveStructEnd_inside start
    unfold perform
    rw [found]
    exact inside

theorem staysIn_iff {call : ReaderCall} (start : cursor.pos ≤ cursor.size) :
    cursor.StaysIn call ↔ cursor.Fits call := by
  constructor
  · intro stays
    cases call with
    | readText sizeBuf =>
      intro zero empty
      have stored : (cursor.fresh.readText sizeBuf).2.2.written ≤
          sizeBuf.toNat := stays.stored
      unfold readText at stored
      cases read : cursor.fresh.readMarker .text with
      | mk found next =>
        rw [read] at empty stored
        subst empty zero
        exact Nat.not_succ_le_zero 0 stored
    | readStream readlen =>
      intro negative
      have position : (cursor.fresh.readStream readlen).2.2.pos ≤
          cursor.size := stays.position
      unfold readStream at position
      split at position
      · rename_i refused
        exact .inr refused
      · have position : cursor.pos + readlen.toNat ≤ cursor.size := position
        exact .inl (by omega)
    | read8 | read16 | read32 | read64 | readBin sizeBuf
    | readLeftStream bufSize | peekDataType | peekBinSize
    | setSkipMarker bSkip | trytoMoveStructEnd => trivial
  · intro fits
    have inside := perform_inside start fits
    exact
      { position := inside.position
        looked := by
          intro range member
          have within := inside.looked range member
          rw [inside.size] at within
          exact within
        stored := inside.stored }

theorem meets_staysIn_iff (calls : List ReaderCall)
    (start : cursor.pos ≤ cursor.size) :
    Runs.Meets perform StaysIn cursor calls ↔
      Runs.Meets perform Fits cursor calls := by
  induction calls generalizing cursor with
  | nil => exact Iff.rfl
  | cons call calls induction =>
    have first := @staysIn_iff cursor call start
    constructor
    · rintro ⟨stays, later⟩
      have inside := perform_inside start (first.mp stays)
      exact ⟨first.mp stays,
        (induction (by rw [inside.size]; exact inside.position)).mp later⟩
    · rintro ⟨fits, later⟩
      have inside := perform_inside start fits
      exact ⟨first.mpr fits,
        (induction (by rw [inside.size]; exact inside.position)).mpr later⟩

/-- On every data and for every sequence of calls the reader stays in bounds
throughout exactly if every call fits. -/
theorem readerRun_staysIn_iff (memory : Nat → Byte) (size : Nat)
    (calls : List ReaderCall) :
    Runs.Meets perform StaysIn (init memory size) calls ↔
      Runs.Meets perform Fits (init memory size) calls :=
  meets_staysIn_iff calls (Nat.zero_le _)

/-- An empty text, read into a buffer of size 0. -/
theorem readerRun_emptyText :
    ¬ Runs.Meets perform StaysIn (init (fun _ => 0x70) 1) [.readText 0] := by
  rintro ⟨stays, _⟩
  exact absurd stays.stored (by decide)

/-- The reader of `ProtoStream` that stands at the same place. -/
def stream (cursor : ReadCursor) : ProtoReadStream where
  left := cursor.bytesAt cursor.pos (cursor.size - cursor.pos)
  struckEndMarker := cursor.struckEndMarker
  skipEndMarker := cursor.skipEndMarker
  skipEndAllStream := cursor.skipEndAllStream

theorem bytesAt_length (offset len : Nat) :
    (cursor.bytesAt offset len).length = len := by
  simp [bytesAt]

theorem BlockRead.length {extra room : Nat}
    (block : BlockRead cursor extra room result) :
    result.2.1.length < 65536 := by
  cases block with
  | missed _ => exact Nat.zero_lt_succ _
  | taken _ short _ _ =>
    rw [bytesAt_length]
    exact short

theorem bytesAt_take {offset len count : Nat} (inside : count ≤ len) :
    (cursor.bytesAt offset len).take count = cursor.bytesAt offset count := by
  unfold bytesAt
  rw [← List.map_take, List.take_range, Nat.min_eq_left inside]

theorem bytesAt_drop (offset len count : Nat) :
    (cursor.bytesAt offset len).drop count =
      cursor.bytesAt (offset + count) (len - count) := by
  unfold bytesAt
  refine List.ext_getElem (by simp) ?_
  intro index _ _
  simp [Nat.add_assoc]

theorem bytesAt_succ (offset len : Nat) :
    cursor.bytesAt offset (len + 1) =
      cursor.memory offset :: cursor.bytesAt (offset + 1) len := by
  unfold bytesAt
  rw [List.range_succ_eq_map, List.map_cons, List.map_map]
  refine congrArg₂ List.cons (by simp) ?_
  refine List.map_congr_left fun index _ => ?_
  simp [Nat.add_comm, Nat.add_left_comm]

theorem stream_length :
    cursor.stream.left.length = cursor.size - cursor.pos :=
  bytesAt_length _ _

theorem stream_take {count : Nat} (inside : cursor.pos + count ≤ cursor.size) :
    cursor.stream.left.take count = cursor.bytesAt cursor.pos count :=
  bytesAt_take (by omega)

theorem stream_drop (count : Nat) :
    cursor.stream.left.drop count =
      cursor.bytesAt (cursor.pos + count)
        (cursor.size - (cursor.pos + count)) := by
  rw [← Nat.sub_sub]
  exact bytesAt_drop _ _ _

theorem stream_getD {index : Nat} (inside : cursor.pos + index < cursor.size) :
    cursor.stream.left.getD index 0 = cursor.memory (cursor.pos + index) := by
  have short : index < cursor.size - cursor.pos := by omega
  simp [stream, bytesAt, short]

theorem readOrg_stream (start : cursor.pos ≤ cursor.size) (size : Nat) :
    cursor.stream.readOrg size =
      ((cursor.readOrg size).1, (cursor.readOrg size).2.1,
        (cursor.readOrg size).2.2.stream) := by
  unfold readOrg ProtoReadStream.readOrg
  rw [stream_length]
  by_cases inside : cursor.pos + size ≤ cursor.size
  · rw [if_pos inside, if_pos (by omega), stream_take inside, stream_drop]
    rfl
  · rw [if_neg inside, if_neg (by omega)]

theorem readMarkers_stream {left : Nat} (rest : left = cursor.size - cursor.pos)
    (start : cursor.pos ≤ cursor.size) :
    cursor.stream.readTypeSize cursor.stream.left =
      ((readMarkers left cursor).1, (readMarkers left cursor).2.1,
        (readMarkers left cursor).2.2.1,
        (readMarkers left cursor).2.2.2.stream) := by
  induction left generalizing cursor with
  | zero =>
    have empty : cursor.stream.left = [] := by
      unfold stream
      rw [← rest]
      rfl
    have same : { cursor.stream with left := [] } = cursor.stream := by
      rw [← empty]
    rw [empty, ProtoReadStream.readTypeSize, readMarkers, same]
  | succ left induction =>
    have here : cursor.stream.left =
        cursor.memory cursor.pos :: cursor.bytesAt (cursor.pos + 1) left := by
      unfold stream
      rw [← rest]
      exact bytesAt_succ _ _
    have byte : fromNetstream (cursor.bytesAt cursor.pos 1) =
        (cursor.memory cursor.pos).toNat := by
      change 256 * 0 + (cursor.memory (cursor.pos + 0)).toNat = _
      rw [Nat.mul_zero, Nat.zero_add, Nat.add_zero]
    have read : cursor.readOrg 1 =
        (0, (cursor.memory cursor.pos).toNat,
          { cursor.touch cursor.pos 1 with pos := cursor.pos + 1 }) := by
      unfold readOrg
      rw [if_pos (by omega), byte]
    -- the list behind the marker is that of the reader one byte on
    have onward : ∀ skip : Bool, ∀ next : ReadCursor,
        next = { cursor.touch cursor.pos 1 with
          pos := cursor.pos + 1, skipEndMarker := skip } →
        ProtoReadStream.readTypeSize
            { cursor.stream with
              left := cursor.bytesAt (cursor.pos + 1) left
              skipEndMarker := skip }
            (cursor.bytesAt (cursor.pos + 1) left) =
          ((readMarkers left next).1, (readMarkers left next).2.1,
            (readMarkers left next).2.2.1,
            (readMarkers left next).2.2.2.stream) := by
      rintro skip next rfl
      have fewer : left = cursor.size - (cursor.pos + 1) := by omega
      have later := @induction
        { cursor.touch cursor.pos 1 with
          pos := cursor.pos + 1, skipEndMarker := skip } fewer (by
            change cursor.pos + 1 ≤ cursor.size
            omega)
      rw [← later]
      unfold stream
      dsimp only [touch]
      rw [← fewer]
      rfl
    have behind : ({ cursor.touch cursor.pos 1 with
          pos := cursor.pos + 1 } : ReadCursor).stream =
        { cursor.stream with
          left := cursor.bytesAt (cursor.pos + 1) left } := by
      have fewer : left = cursor.size - (cursor.pos + 1) := by omega
      rw [fewer]
      rfl
    have marks : (cursor.memory cursor.pos).toNat =
        netStreamStructEndMark.toNat ↔
          cursor.memory cursor.pos = netStreamStructEndMark :=
      UInt8.toNat_inj
    rw [here, ProtoReadStream.readTypeSize, readMarkers, read]
    dsimp only
    rw [if_neg (show ¬ (0 : Int) = -1 by decide)]
    by_cases ended : cursor.memory cursor.pos = netStreamStructEndMark
    · rw [if_pos ended, if_pos (marks.mpr ended)]
      by_cases skipped :
          (cursor.skipEndMarker || cursor.skipEndAllStream) = true
      · have both : (cursor.stream.skipEndMarker ||
            cursor.stream.skipEndAllStream) = true := skipped
        have next : (({ cursor.touch cursor.pos 1 with
            pos := cursor.pos + 1 } : ReadCursor).skipEndMarker ||
              ({ cursor.touch cursor.pos 1 with
                pos := cursor.pos + 1 } : ReadCursor).skipEndAllStream) =
              true := skipped
        rw [if_pos both, if_pos next]
        exact onward cursor.skipEndMarker _ rfl
      · have both : ¬ (cursor.stream.skipEndMarker ||
            cursor.stream.skipEndAllStream) = true := skipped
        have next : ¬ (({ cursor.touch cursor.pos 1 with
            pos := cursor.pos + 1 } : ReadCursor).skipEndMarker ||
              ({ cursor.touch cursor.pos 1 with
                pos := cursor.pos + 1 } : ReadCursor).skipEndAllStream) =
              true := skipped
        rw [if_neg both, if_neg next]
        exact congrArg (fun after : ProtoReadStream =>
          ((0 : Int), 0, 0, { after with struckEndMarker := true }))
          behind.symm
    · rw [if_neg ended, if_neg (mt marks.mp ended)]
      split_ifs
      · exact onward true _ rfl
      · exact onward false _ rfl
      · rw [behind]

variable (start : cursor.pos ≤ cursor.size)
include start

theorem readMarker_stream (marker : StreamMarker) :
    cursor.stream.readMarker marker =
      ((cursor.readMarker marker).1, (cursor.readMarker marker).2.stream) := by
  have whole := @readMarkers_stream { cursor with struckEndMarker := false }
    (cursor.size - cursor.pos) rfl start
  unfold readMarker readTypeSize ProtoReadStream.readMarker
  dsimp only
  change ProtoReadStream.readTypeSize
    { cursor.stream with struckEndMarker := false } cursor.stream.left = _
    at whole
  rw [whole]
  split_ifs with failed failed' other <;> first | rfl | contradiction

theorem readMarker_within (marker : StreamMarker) :
    (cursor.readMarker marker).2.pos ≤ (cursor.readMarker marker).2.size :=
  (readMarker_steady marker).position start

theorem readInt_stream (marker : StreamMarker) (sizes : List Nat) (width : Nat)
    :
    cursor.stream.readInt marker sizes =
      ((readInt marker sizes width cursor).1,
        (readInt marker sizes width cursor).2.1,
        (readInt marker sizes width cursor).2.2.stream) := by
  have within := readMarker_within start marker
  unfold readInt ProtoReadStream.readInt
  rw [readMarker_stream start]
  cases read : cursor.readMarker marker with
  | mk found next =>
    rw [read] at within
    cases found with
    | none => rfl
    | some size =>
      dsimp only
      split_ifs
      · rfl
      · exact @readOrg_stream { next with written := width } within size
      · rfl

theorem readText_stream (sizeBuf : UInt64) :
    cursor.stream.readText sizeBuf.toNat =
      ((cursor.readText sizeBuf).1, (cursor.readText sizeBuf).2.1,
        (cursor.readText sizeBuf).2.2.stream) := by
  have within := readMarker_within start .text
  unfold readText ProtoReadStream.readText
  rw [readMarker_stream start]
  cases read : cursor.readMarker .text with
  | mk found next =>
    rw [read] at within
    cases found with
    | none => rfl
    | some size =>
      dsimp only
      by_cases empty : size = 0
      · rw [if_pos empty, if_pos empty]
        rfl
      rw [if_neg empty, if_neg empty, readOrg_stream within]
      have counted := (@readOrg_steady next 2).position within
      cases read : next.readOrg 2 with
      | mk ret rest =>
        obtain ⟨dataSize, after⟩ := rest
        rw [read] at counted
        dsimp only at counted ⊢
        rw [stream_length]
        by_cases failed : ret = -1 ∨ dataSize = 0
        · rw [if_pos failed, if_pos failed]
        · rw [if_neg failed, if_neg failed]
          by_cases there : after.pos + dataSize < after.size
          · rw [if_pos (by omega), if_pos there, stream_getD there,
              stream_take (Nat.le_of_lt there), stream_drop]
            split_ifs <;> rfl
          · rw [if_neg (by omega), if_neg there]

theorem readBin_stream (sizeBuf : UInt64) :
    cursor.stream.readBin sizeBuf.toNat =
      ((cursor.readBin sizeBuf).1, (cursor.readBin sizeBuf).2.1,
        (cursor.readBin sizeBuf).2.2.stream) := by
  have within := readMarker_within start .bin
  unfold readBin ProtoReadStream.readBin
  rw [readMarker_stream start]
  cases read : cursor.readMarker .bin with
  | mk found next =>
    rw [read] at within
    cases found with
    | none => rfl
    | some size =>
      dsimp only
      by_cases empty : size = 0
      · rw [if_pos empty, if_pos empty]
      rw [if_neg empty, if_neg empty, readOrg_stream within]
      have counted := (@readOrg_steady next 2).position within
      cases read : next.readOrg 2 with
      | mk ret rest =>
        obtain ⟨dataSize, after⟩ := rest
        dsimp only at counted ⊢
        rw [stream_length]
        by_cases failed : ret = -1 ∨ dataSize = 0
        · rw [if_pos failed, if_pos failed]
        · rw [if_neg failed, if_neg failed]
          by_cases there : after.pos + dataSize ≤ after.size
          · rw [if_pos (by omega), if_pos there, stream_take there, stream_drop]
            split_ifs <;> rfl
          · rw [if_neg (by omega), if_neg there]

end ReadCursor

end NdNet
