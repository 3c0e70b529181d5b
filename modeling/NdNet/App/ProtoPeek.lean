import NdNet.App.ProtoSkip
import NdNet.App.VarType

/-!
# Peeking

`PeekDataType` and `PeekBinSize` run the reader of markers and put the position
back, as `TrytoMoveStructEnd` does when it finds no end mark.  The commands
among the markers stay in force.  Two runs of the same reads are compared, one
with and one without the peek.
-/

namespace NdNet

/-- The commands in front of what comes next; `true` is the command to skip end
marks. -/
def commandsAhead (all skip : Bool) : List Byte → List Bool
  | [] => []
  | marker :: behind =>
    if marker = netStreamStructEndMark then
      if skip || all then commandsAhead all skip behind else []
    else if marker.toNat / 16 = StreamMarker.cmdSkipStructMark.code then
      true :: commandsAhead all true behind
    else if marker.toNat / 16 = StreamMarker.cmdEnableStructMark.code then
      false :: commandsAhead all false behind
    else []

theorem nextThing_flag (all skip : Bool) (bytes : List Byte) :
    (nextThing all skip bytes).2.1 =
      (commandsAhead all skip bytes).getLastD skip := by
  induction bytes generalizing skip with
  | nil => rfl
  | cons marker behind induction =>
    rw [nextThing, commandsAhead]
    split_ifs
    · exact induction skip
    · rfl
    · rw [induction true, List.getLastD_cons]
    · rw [induction false, List.getLastD_cons]
    · rfl

variable {bytes : List Byte}

theorem nextThing_shorter (all skip : Bool) (some : bytes ≠ []) :
    (nextThing all skip bytes).2.2.length < bytes.length := by
  induction bytes generalizing skip with
  | nil => exact absurd rfl some
  | cons marker behind induction =>
    have later (flag : Bool) :
        (nextThing all flag behind).2.2.length < behind.length + 1 := by
      by_cases empty : behind = []
      · subst empty
        exact Nat.zero_lt_one
      · exact Nat.lt_succ_of_lt (induction flag empty)
    rw [nextThing, List.length_cons]
    split_ifs
    · exact later skip
    · exact Nat.lt_succ_self _
    · exact later true
    · exact later false
    · exact Nat.lt_succ_self _

def SameMarks (all first second : Bool) (bytes : List Byte) : Prop :=
  second = first ∨ all = true ∨ netStreamStructEndMark ∉ bytes

theorem SameMarks.drop {all first second : Bool}
    (same : SameMarks all first second bytes) (count : Nat) :
    SameMarks all first second (bytes.drop count) :=
  same.imp_right (Or.imp_right fun none member =>
    none (List.mem_of_mem_drop member))

theorem nextThing_sameMarks {all first second : Bool}
    (same : SameMarks all first second bytes) :
    (nextThing all second bytes).1 = (nextThing all first bytes).1 ∧
      (nextThing all second bytes).2.2 = (nextThing all first bytes).2.2 ∧
      SameMarks all (nextThing all first bytes).2.1
        (nextThing all second bytes).2.1 (nextThing all first bytes).2.2 := by
  by_cases equal : second = first
  · subst equal
    exact ⟨rfl, rfl, .inl rfl⟩
  induction bytes with
  | nil => exact ⟨rfl, rfl, same⟩
  | cons marker behind induction =>
    have later := same.drop 1
    rw [nextThing, nextThing]
    by_cases ends : marker = netStreamStructEndMark
    · have every : all = true := by
        rcases same with same | every | none
        · exact absurd same equal
        · exact every
        · rw [ends] at none
          exact absurd List.mem_cons_self none
      rw [if_pos ends, if_pos ends, every, Bool.or_true, Bool.or_true,
        if_pos rfl, if_pos rfl, ← every]
      exact induction later
    · split_ifs
      · exact ⟨rfl, rfl, .inl rfl⟩
      · exact ⟨rfl, rfl, .inl rfl⟩
      · exact ⟨rfl, rfl, later⟩

namespace ReadCursor

variable {cursor : ReadCursor}

/-- Two readers at the same place of the same data. -/
structure SamePlace (first second : ReadCursor) : Prop where
  memory : second.memory = first.memory
  size : second.size = first.size
  pos : second.pos = first.pos
  skipEndAllStream : second.skipEndAllStream = first.skipEndAllStream

/-- They will find the same. -/
structure Alike (first second : ReadCursor) : Prop
    extends SamePlace first second where
  marks : SameMarks first.skipEndAllStream first.skipEndMarker
    second.skipEndMarker first.stream.left

def Agree {α : Type} (first second : α × ReadCursor) : Prop :=
  second.1 = first.1 ∧ Alike first.2 second.2

def AgreeBoth {α β : Type} (first second : α × β × ReadCursor) : Prop :=
  second.1 = first.1 ∧ Agree first.2 second.2

variable {first second : ReadCursor}

section

variable (same : SamePlace first second)
include same

theorem SamePlace.bytesAt (offset len : Nat) :
    second.bytesAt offset len = first.bytesAt offset len := by
  rw [ReadCursor.bytesAt, ReadCursor.bytesAt, same.memory]

theorem SamePlace.left :
    second.stream.left = first.stream.left := by
  change second.bytesAt _ _ = first.bytesAt _ _
  rw [same.bytesAt, same.pos, same.size]

theorem SamePlace.leftData :
    second.leftData = first.leftData := by
  rw [ReadCursor.leftData, ReadCursor.leftData, same.size, same.pos]

theorem SamePlace.at
    (here : first.At bytes) : second.At bytes where
  left := same.left.trans here.left
  inside := by
    rw [same.pos, same.size]
    exact here.inside

end

section

variable (alike : Alike first second)
include alike

theorem Alike.move (length : Nat) (reads others : List (Nat × Nat))
    (written stored : Nat) :
    Alike { first with
        pos := first.pos + length, reads := reads, written := written }
      { second with
        pos := second.pos + length, reads := others, written := stored } where
  memory := alike.memory
  size := alike.size
  pos := congrArg (· + length) alike.pos
  skipEndAllStream := alike.skipEndAllStream
  marks := by
    have later := alike.marks.drop length
    rw [stream_drop] at later
    exact later

theorem Alike.storing (width : Nat) :
    Alike { first with written := width } { second with written := width } :=
  alike.move 0 first.reads second.reads width width

theorem Alike.taken (size : Nat) :
    Alike { first.touch first.pos size with pos := first.pos + size }
      { second.touch second.pos size with pos := second.pos + size } :=
  alike.move size _ _ _ _

theorem readOrg_agree (size : Nat) :
    AgreeBoth (first.readOrg size) (second.readOrg size) := by
  have bytes := alike.bytesAt first.pos size
  have taken := alike.taken size
  rw [readOrg, readOrg, alike.size]
  rw [alike.pos] at taken ⊢
  rw [bytes]
  split_ifs
  · exact ⟨rfl, rfl, taken⟩
  · exact ⟨rfl, rfl, alike⟩

theorem readOrgHost_agree (size : Nat) :
    AgreeBoth (first.readOrgHost size) (second.readOrgHost size) := by
  have bytes := alike.bytesAt first.pos size
  have taken := alike.taken size
  rw [readOrgHost, readOrgHost, alike.size]
  rw [alike.pos] at taken ⊢
  rw [bytes]
  split_ifs
  · exact ⟨rfl, rfl, taken⟩
  · exact ⟨rfl, rfl, alike⟩

theorem readTypeSize_agree :
    ∃ ret type size next other, first.readTypeSize = (ret, type, size, next) ∧
      second.readTypeSize = (ret, type, size, other) ∧
      other.struckEndMarker = next.struckEndMarker ∧
      (second.skipEndMarker = first.skipEndMarker →
        other.skipEndMarker = next.skipEndMarker) ∧ Alike next other := by
  by_cases start : first.pos ≤ first.size
  · have here : first.At first.stream.left := ⟨rfl, start⟩
    obtain ⟨thing, behind, marks⟩ := nextThing_sameMarks alike.marks
    obtain ⟨next, read, reached⟩ := readTypeSize_eq here rfl
    obtain ⟨other, found, beside⟩ := readTypeSize_eq (alike.at here) rfl
    rw [alike.skipEndAllStream, thing] at found
    refine ⟨_, _, _, next, other, read, found, ?_, ?_, ?_⟩
    · rw [reached.struckEndMarker, beside.struckEndMarker,
        alike.skipEndAllStream, thing]
    · intro flag
      rw [reached.skipEndMarker, beside.skipEndMarker,
        alike.skipEndAllStream, flag]
    · have place := beside.here
      rw [alike.skipEndAllStream, behind] at place
      have size := beside.size.trans (alike.size.trans reached.size.symm)
      have length := reached.here.size
      have other' := place.size
      refine ⟨⟨?_, size, ?_, ?_⟩, ?_⟩
      · exact beside.memory.trans (alike.memory.trans reached.memory.symm)
      · omega
      · exact beside.skipEndAllStream.trans
          (alike.skipEndAllStream.trans reached.skipEndAllStream.symm)
      · rw [reached.here.left, reached.skipEndAllStream,
          reached.skipEndMarker, beside.skipEndMarker, alike.skipEndAllStream]
        exact marks
  · have none : first.size - first.pos = 0 := by omega
    refine ⟨-1, 0, 0, { first with struckEndMarker := false },
      { second with struckEndMarker := false }, ?_, ?_, rfl, id, ?_⟩
    · rw [readTypeSize, none]
      rfl
    · rw [readTypeSize, alike.size, alike.pos, none]
      rfl
    · exact ⟨⟨alike.memory, alike.size, alike.pos, alike.skipEndAllStream⟩,
        alike.marks⟩

theorem readMarker_agree (marker : StreamMarker) :
    ∃ found next other, first.readMarker marker = (found, next) ∧
      second.readMarker marker = (found, other) ∧ Alike next other := by
  obtain ⟨ret, type, size, next, other, read, found, struck, -, later⟩ :=
    readTypeSize_agree alike
  rw [readMarker, readMarker, read, found]
  dsimp only
  rw [struck]
  split_ifs <;> exact ⟨_, _, _, rfl, rfl, later⟩

theorem readInt_agree (marker : StreamMarker) (sizes : List Nat) (width : Nat) :
    AgreeBoth (readInt marker sizes width first)
      (readInt marker sizes width second) := by
  obtain ⟨found, next, other, left, right, later⟩ :=
    readMarker_agree alike marker
  rw [readInt, readInt, left, right]
  cases found with
  | none => exact ⟨rfl, rfl, later⟩
  | some size =>
    have stored := Alike.storing later width
    dsimp only
    split_ifs
    · exact ⟨rfl, rfl, stored⟩
    · exact readOrg_agree stored size
    · exact ⟨rfl, rfl, stored⟩

theorem readFloating_agree (marker : StreamMarker) (width : Nat) :
    AgreeBoth (readFloating marker width first)
      (readFloating marker width second) := by
  obtain ⟨found, next, other, left, right, later⟩ :=
    readMarker_agree alike marker
  rw [readFloating, readFloating, left, right]
  cases found with
  | none => exact ⟨rfl, rfl, later⟩
  | some size =>
    have stored := Alike.storing later width
    dsimp only
    split_ifs
    · exact ⟨rfl, rfl, stored⟩
    · exact readOrgHost_agree stored width
    · exact ⟨rfl, rfl, stored⟩

theorem readText_agree (sizeBuf : UInt64) :
    AgreeBoth (first.readText sizeBuf) (second.readText sizeBuf) := by
  obtain ⟨found, next, other, left, right, later⟩ :=
    readMarker_agree alike .text
  rw [readText, readText, left, right]
  cases found with
  | none => exact ⟨rfl, rfl, later⟩
  | some size =>
    have counted := readOrg_agree later 2
    dsimp only at later ⊢
    revert counted
    obtain ⟨ret, dataSize, one⟩ := next.readOrg 2
    obtain ⟨again, value, two⟩ := other.readOrg 2
    rintro ⟨rfl, rfl, counted⟩
    have bytes := counted.bytesAt one.pos value
    have looked : Alike (one.touch (one.pos + value) 1)
        (two.touch (two.pos + value) 1) := counted.move 0 _ _ _ _
    have taken := counted.move (value + 1)
      ((one.pos, value) :: (one.pos + value, 1) :: one.reads)
      ((two.pos, value) :: (two.pos + value, 1) :: two.reads)
      (value + 1) (value + 1)
    rw [counted.size, counted.memory]
    rw [counted.pos] at looked taken ⊢
    rw [bytes]
    split_ifs
    · exact ⟨rfl, rfl, later.storing 1⟩
    · exact ⟨rfl, rfl, counted⟩
    · exact ⟨rfl, rfl, taken⟩
    · exact ⟨rfl, rfl, looked⟩
    · exact ⟨rfl, rfl, counted⟩

theorem readBin_agree (sizeBuf : UInt64) :
    AgreeBoth (first.readBin sizeBuf) (second.readBin sizeBuf) := by
  obtain ⟨found, next, other, left, right, later⟩ :=
    readMarker_agree alike .bin
  rw [readBin, readBin, left, right]
  cases found with
  | none => exact ⟨rfl, rfl, later⟩
  | some size =>
    have counted := readOrg_agree later 2
    dsimp only at later ⊢
    revert counted
    obtain ⟨ret, dataSize, one⟩ := next.readOrg 2
    obtain ⟨again, value, two⟩ := other.readOrg 2
    rintro ⟨rfl, rfl, counted⟩
    have bytes := counted.bytesAt one.pos value
    have taken := (counted.taken value).storing value
    rw [counted.size]
    rw [counted.pos] at taken ⊢
    rw [bytes]
    split_ifs
    · exact ⟨rfl, rfl, later⟩
    · exact ⟨rfl, rfl, counted⟩
    · exact ⟨rfl, rfl, taken⟩
    · exact ⟨rfl, rfl, counted⟩
    · exact ⟨rfl, rfl, counted⟩

theorem readStream_agree (readlen : UInt64) :
    AgreeBoth (first.readStream readlen) (second.readStream readlen) := by
  have bytes := alike.bytesAt first.pos readlen.toNat
  have taken := (alike.taken readlen.toNat).storing readlen.toNat
  rw [readStream, readStream, alike.leftData]
  rw [alike.pos] at taken ⊢
  rw [bytes]
  split_ifs
  · exact ⟨rfl, rfl, alike⟩
  · exact ⟨rfl, rfl, taken⟩

include alike in
theorem Alike.emptied (start count : Nat) :
    Alike
      { first.touch start count with pos := first.size, written := count }
      { second.touch start count with pos := first.size, written := count } := by
  refine ⟨⟨alike.memory, alike.size, rfl, alike.skipEndAllStream⟩,
    .inr (.inr fun member => ?_)⟩
  have length := List.length_pos_of_mem member
  rw [stream_length] at length
  exact absurd length (Nat.not_lt.mpr (Nat.le_of_eq (Nat.sub_self _)))

theorem readLeftStream_agree (bufSize : UInt64) :
    AgreeBoth (first.readLeftStream bufSize)
      (second.readLeftStream bufSize) := by
  have bytes := alike.bytesAt first.pos (sizeT (first.size - first.pos))
  rw [readLeftStream, readLeftStream, alike.size, alike.pos]
  rw [bytes]
  split_ifs
  · exact ⟨rfl, rfl, alike⟩
  · exact ⟨rfl, rfl, alike⟩
  · exact ⟨rfl, rfl, alike.emptied _ _⟩

end

/-- `Read(NDProtoWriteStream &)` into a stream with `freeSize` bytes left: what
it answers, and the bytes the other stream gets. -/
def readToStream (cursor : ReadCursor) (freeSize : Nat) :
    Int × List Byte × ReadCursor :=
  let dataSize := sizeT (cursor.size - cursor.pos)
  if dataSize = 0 then (0, [], cursor)
  else if freeSize = 0 ∨ freeSize < dataSize then (-1, [], cursor)
  else
    (Int.bmod dataSize 4294967296, cursor.bytesAt cursor.pos dataSize,
      { cursor.touch cursor.pos dataSize with
        pos := cursor.size
        written := dataSize })

theorem readToStream_agree (alike : Alike first second) (freeSize : Nat) :
    AgreeBoth (first.readToStream freeSize)
      (second.readToStream freeSize) := by
  have bytes := alike.bytesAt first.pos (sizeT (first.size - first.pos))
  rw [readToStream, readToStream, alike.size, alike.pos]
  rw [bytes]
  split_ifs
  · exact ⟨rfl, rfl, alike⟩
  · exact ⟨rfl, rfl, alike⟩
  · exact ⟨rfl, rfl, alike.emptied _ _⟩

theorem readIp_agree (alike : Alike first second) :
    AgreeBoth first.readIp second.readIp := by
  obtain ⟨ret, type, size, next, other, read, found, struck, -, later⟩ :=
    readTypeSize_agree alike
  have short := readStream_agree later 4
  have long := readStream_agree later 16
  rw [readIp, readIp, read, found]
  dsimp only
  rw [struck, short.1, long.1]
  split_ifs
  · exact ⟨rfl, rfl, later⟩
  · exact ⟨rfl, congrArg (fun bytes => some (true, bytes)) short.2.1, short.2.2⟩
  · exact ⟨rfl, rfl, short.2.2⟩
  · exact ⟨rfl, congrArg (fun bytes => some (false, bytes)) long.2.1, long.2.2⟩
  · exact ⟨rfl, rfl, long.2.2⟩
  · exact ⟨rfl, rfl, later⟩

theorem SamePlace.trans {middle : ReadCursor} (early : SamePlace first middle)
    (late : SamePlace middle second) : SamePlace first second where
  memory := late.memory.trans early.memory
  size := late.size.trans early.size
  pos := late.pos.trans early.pos
  skipEndAllStream := late.skipEndAllStream.trans early.skipEndAllStream

theorem SamePlace.symm (same : SamePlace first second) :
    SamePlace second first where
  memory := same.memory.symm
  size := same.size.symm
  pos := same.pos.symm
  skipEndAllStream := same.skipEndAllStream.symm

theorem readTypeSize_samePlace (cursor : ReadCursor) :
    SamePlace cursor { cursor.readTypeSize.2.2.2 with pos := cursor.pos } := by
  by_cases start : cursor.pos ≤ cursor.size
  · obtain ⟨after, read, reached⟩ := readTypeSize_eq ⟨rfl, start⟩ rfl
    rw [read]
    exact ⟨reached.memory, reached.size, rfl, reached.skipEndAllStream⟩
  · have none : cursor.size - cursor.pos = 0 := by omega
    rw [readTypeSize, none]
    exact ⟨rfl, rfl, rfl, rfl⟩

theorem peekDataType_agree (alike : Alike first second) :
    Agree first.peekDataType second.peekDataType := by
  obtain ⟨ret, type, size, next, other, read, found, struck, flag, -⟩ :=
    readTypeSize_agree alike
  have here := readTypeSize_samePlace first
  have there := readTypeSize_samePlace second
  rw [read] at here
  rw [found] at there
  have same := here.symm.trans (alike.toSamePlace.trans there)
  have later : Alike { next with pos := first.pos }
      { other with pos := second.pos } := by
    refine ⟨same, ?_⟩
    rw [here.left, here.skipEndAllStream]
    exact alike.marks.imp_left flag
  rw [peekDataType, peekDataType, read, found]
  dsimp only
  rw [struck] at later ⊢
  split_ifs
  · exact ⟨rfl, later⟩
  · exact ⟨rfl, later⟩
  · exact ⟨rfl, later⟩

theorem Agree.branch {α : Type} {one other yes no : α × ReadCursor}
    {condition : Prop} [Decidable condition] (holds : Agree one other)
    (fails : Agree yes no) :
    Agree (if condition then one else yes)
      (if condition then other else no) := by
  split
  · exact holds
  · exact fails

theorem AgreeBoth.assign {α β : Type} {one other : α × β × ReadCursor}
    (agree : AgreeBoth one other) (good : α → Prop) [DecidablePred good]
    (value : β → NdVarType) :
    Agree
      (if good one.1 then (some (value one.2.1), one.2.2)
        else (none, one.2.2))
      (if good other.1 then (some (value other.2.1), other.2.2)
        else (none, other.2.2)) := by
  obtain ⟨result, bytes, later⟩ := agree
  rw [result, bytes]
  split_ifs
  · exact ⟨rfl, later⟩
  · exact ⟨rfl, later⟩

theorem readVar_agree (alike : Alike first second) (unset : Nat) :
    Agree (first.readVar unset) (second.readVar unset) := by
  obtain ⟨same, later⟩ := peekDataType_agree alike
  unfold readVar
  revert same later
  obtain ⟨peeked, next⟩ := first.peekDataType
  obtain ⟨again, other⟩ := second.peekDataType
  rintro rfl later
  refine .branch ((readInt_agree later .int8 [1] 1).assign (· = 0)
    fun a => .int8 (UInt8.ofNat a)) ?_
  refine .branch ((readInt_agree later .int16 [1, 2] 2).assign (· = 0)
    fun a => .int16 (UInt16.ofNat a)) ?_
  refine .branch ((readInt_agree later .int32 [1, 2, 4] 4).assign (· = 0)
    fun a => .int (UInt32.ofNat a).toInt32) ?_
  refine .branch ((readInt_agree later .int64 [1, 2, 4, 8] 8).assign (· = 0)
    fun a => .int64 (UInt64.ofNat a)) ?_
  refine .branch ((readFloating_agree later .float 4).assign (· = 0)
    fun a => .float (UInt32.ofNat a)) ?_
  refine .branch ((readText_agree later 0x10000).assign (0 < ·)
    NdVarType.initText) ?_
  refine .branch ((readBin_agree later 0x10000).assign (0 < ·)
    NdVarType.binary) ?_
  exact ⟨rfl, later⟩

end ReadCursor

inductive ReadOp where
  | read8
  | read16
  | read32
  | read64
  | readFloat
  | readDouble
  | readText (sizeBuf : UInt64)
  | readBin (sizeBuf : UInt64)
  | readStream (readlen : UInt64)
  | readLeftStream (bufSize : UInt64)
  | readToStream (freeSize : Nat)
  | readIp
  | readVar (unset : Nat)

variable {behind : List Byte} {after : ReadCursor}

namespace ReadCursor

variable {cursor first second : ReadCursor}

def asAddress (read : Int × Option (Bool × List Byte) × ReadCursor) :
    FieldRead × ReadCursor :=
  (.address read.1 read.2.1, read.2.2)

def asCopied (read : Int × List Byte × ReadCursor) : FieldRead × ReadCursor :=
  (.copied read.1 read.2.1, read.2.2)

def ofField (read : FieldRead × ReadCursor) :
    (FieldRead ⊕ Option NdVarType) × ReadCursor :=
  (.inl read.1, read.2)

def performRead (cursor : ReadCursor) :
    ReadOp → (FieldRead ⊕ Option NdVarType) × ReadCursor
  | .read8 => ofField (asNumber cursor.read8)
  | .read16 => ofField (asNumber cursor.read16)
  | .read32 => ofField (asNumber cursor.read32)
  | .read64 => ofField (asNumber cursor.read64)
  | .readFloat => ofField (asNumber cursor.readFloat)
  | .readDouble => ofField (asNumber cursor.readDouble)
  | .readText sizeBuf => ofField (asBytes (cursor.readText sizeBuf))
  | .readBin sizeBuf => ofField (asBytes (cursor.readBin sizeBuf))
  | .readStream readlen => ofField (asBytes (cursor.readStream readlen))
  | .readLeftStream bufSize => ofField (asBytes (cursor.readLeftStream bufSize))
  | .readToStream freeSize => ofField (asCopied (cursor.readToStream freeSize))
  | .readIp => ofField (asAddress cursor.readIp)
  | .readVar unset =>
    let (value, cursor) := cursor.readVar unset
    (.inr value, cursor)

def readAll (cursor : ReadCursor) :
    List ReadOp → List (FieldRead ⊕ Option NdVarType)
  | [] => []
  | op :: ops =>
    (cursor.performRead op).1 :: (cursor.performRead op).2.readAll ops

theorem performRead_agree (alike : Alike first second) (op : ReadOp) :
    Agree (first.performRead op) (second.performRead op) := by
  have number {one other : Int × Nat × ReadCursor}
      (agree : AgreeBoth one other) :
      Agree (ofField (asNumber one)) (ofField (asNumber other)) := by
    obtain ⟨ret, value, later⟩ := agree
    refine ⟨?_, later⟩
    rw [ofField, ofField, asNumber, asNumber, ret, value]
  have bytes {one other : Nat × List Byte × ReadCursor}
      (agree : AgreeBoth one other) :
      Agree (ofField (asBytes one)) (ofField (asBytes other)) := by
    obtain ⟨count, data, later⟩ := agree
    refine ⟨?_, later⟩
    rw [ofField, ofField, asBytes, asBytes, count, data]
  cases op with
  | read8 | read16 | read32 | read64 => exact number (readInt_agree alike _ _ _)
  | readFloat | readDouble => exact number (readFloating_agree alike _ _)
  | readText sizeBuf => exact bytes (readText_agree alike sizeBuf)
  | readBin sizeBuf => exact bytes (readBin_agree alike sizeBuf)
  | readStream readlen => exact bytes (readStream_agree alike readlen)
  | readLeftStream bufSize => exact bytes (readLeftStream_agree alike bufSize)
  | readToStream freeSize =>
    obtain ⟨ret, data, later⟩ := readToStream_agree alike freeSize
    refine ⟨?_, later⟩
    rw [performRead, performRead, ofField, ofField, asCopied, asCopied, ret,
      data]
  | readIp =>
    obtain ⟨ret, found, later⟩ := readIp_agree alike
    refine ⟨?_, later⟩
    rw [performRead, performRead, ofField, ofField, asAddress, asAddress,
      ret, found]
  | readVar unset =>
    obtain ⟨value, later⟩ := readVar_agree alike unset
    exact ⟨congrArg Sum.inr value, later⟩

theorem readAll_alike (alike : Alike first second) (ops : List ReadOp) :
    second.readAll ops = first.readAll ops := by
  induction ops generalizing first second with
  | nil => rfl
  | cons op ops induction =>
    obtain ⟨result, later⟩ := performRead_agree alike op
    rw [readAll, readAll, result, induction later]

def Unchanged (cursor after : ReadCursor) : Prop :=
  ∀ ops, after.readAll ops = cursor.readAll ops

theorem readMarker_behind (marker : StreamMarker) (here : cursor.At bytes)
    {next : NextThing × Bool × List Byte}
    (is : nextThing cursor.skipEndAllStream cursor.skipEndMarker bytes = next) :
    ∃ found after, cursor.readMarker marker = (found, after) ∧
      Behind cursor after next ∧ (next.1 = .endMark → found = none) := by
  obtain ⟨after, read, reached⟩ := readTypeSize_eq here is
  rw [readMarker, read]
  dsimp only
  split_ifs with stops other
  · exact ⟨_, _, rfl, reached, fun _ => rfl⟩
  · exact ⟨_, _, rfl, reached, fun _ => rfl⟩
  · refine ⟨_, _, rfl, reached, fun ends => absurd (.inr ?_) stops⟩
    rw [reached.struckEndMarker, ends]
    rfl

theorem readLeftStream_at (here : cursor.At bytes)
    (short : cursor.size < 2147483648) :
    (cursor.readLeftStream 0xffffffffffffffff).1 = bytes.length := by
  have size := here.size
  have left : sizeT ((cursor.size : Int) - cursor.pos) = bytes.length := by
    have difference : (cursor.size : Int) - cursor.pos = bytes.length := by
      rw [size]
      push_cast
      omega
    rw [difference, sizeT_of_lt (by omega)]
  rw [readLeftStream, left]
  split_ifs with empty large
  · exact empty.symm
  · change 18446744073709551615 < bytes.length at large
    omega
  · rfl

theorem read8_struck (here : cursor.At (netStreamStructEndMark :: behind))
    (skip : cursor.skipEndMarker = false)
    (every : cursor.skipEndAllStream = false) :
    ∃ after, cursor.read8 = (-1, 0, after) ∧ after.size = cursor.size ∧
      after.At behind := by
  have is : nextThing cursor.skipEndAllStream cursor.skipEndMarker
      (netStreamStructEndMark :: behind) = (.endMark, false, behind) := by
    rw [skip, every]
    rfl
  obtain ⟨found, after, marked, reached, none⟩ :=
    readMarker_behind .int8 here is
  refine ⟨after, ?_, reached.size, reached.here⟩
  rw [read8, readInt, marked, none rfl]

theorem read8_skipped (some : behind ≠ [])
    (here : cursor.At (netStreamStructEndMark :: behind))
    (skip : cursor.skipEndMarker = true)
    (every : cursor.skipEndAllStream = false) :
    ∃ rest, cursor.read8.2.2.size = cursor.size ∧ cursor.read8.2.2.At rest ∧
      rest.length < behind.length := by
  have is : nextThing cursor.skipEndAllStream cursor.skipEndMarker
      (netStreamStructEndMark :: behind) = nextThing false true behind := by
    rw [skip, every]
    rfl
  have shorter := nextThing_shorter false true some
  obtain ⟨found, next, marked, reached, -⟩ := readMarker_behind .int8 here is
  have onward : ∃ rest, (readInt .int8 [1] 1 cursor).2.2.At rest ∧
      (readInt .int8 [1] 1 cursor).2.2.size = cursor.size ∧
      next.pos ≤ (readInt .int8 [1] 1 cursor).2.2.pos := by
    have keeps := @readInt_keeps cursor .int8 [1] 1
    refine ⟨_, ⟨rfl, keeps.inside here.inside⟩, keeps.size, ?_⟩
    rw [readInt, marked]
    cases found with
    | none => exact Nat.le_refl _
    | some size =>
      dsimp only
      split_ifs
      · exact Nat.le_refl _
      · exact (@readOrg_steady { next with written := 1 } size).forward
      · exact Nat.le_refl _
  obtain ⟨rest, at', size, forward⟩ := onward
  refine ⟨rest, size, at', ?_⟩
  have before := reached.here.size
  have after := at'.size
  rw [reached.size] at before
  omega

/-- `ReadVar` at an end mark that counts: the variable has not been set, and
the read that it asks for goes behind the mark. -/
theorem readVar_struck (here : cursor.At (netStreamStructEndMark :: behind))
    (skip : cursor.skipEndMarker = false)
    (every : cursor.skipEndAllStream = false) :
    ∃ after, cursor.readVar StreamMarker.int8.code = (none, after) ∧
      after.size = cursor.size ∧ after.At behind := by
  have is : nextThing cursor.skipEndAllStream cursor.skipEndMarker
      (netStreamStructEndMark :: behind) = (.endMark, false, behind) := by
    rw [skip, every]
    rfl
  obtain ⟨next, read, reached⟩ := readTypeSize_eq here is
  have place := readTypeSize_samePlace cursor
  rw [read] at place
  have peeked : cursor.peekDataType =
      (none, { next with pos := cursor.pos }) := by
    rw [peekDataType, read]
    dsimp only
    rw [if_neg (by decide), reached.struckEndMarker]
    rfl
  obtain ⟨after, struck, size, there⟩ := read8_struck (place.at here)
    reached.skipEndMarker (place.skipEndAllStream.trans every)
  refine ⟨after, ?_, size.trans place.size, there⟩
  rw [readVar, peeked]
  dsimp only [Option.getD_none]
  rw [if_pos rfl, struck]
  rfl

theorem readVar_skipped (here : cursor.At [netStreamStructEndMark])
    (skip : cursor.skipEndMarker = true)
    (every : cursor.skipEndAllStream = false) (unset : Nat) :
    ∃ after, cursor.readVar unset = (none, after) ∧
      after.size = cursor.size ∧ after.At [netStreamStructEndMark] := by
  have is : nextThing cursor.skipEndAllStream cursor.skipEndMarker
      [netStreamStructEndMark] = (.nothing, true, []) := by
    rw [skip, every]
    rfl
  obtain ⟨next, read, reached⟩ := readTypeSize_eq here is
  have place := readTypeSize_samePlace cursor
  rw [read] at place
  refine ⟨{ next with pos := cursor.pos }, ?_, place.size, place.at here⟩
  rw [readVar, peekDataType, read]
  rfl

/-- Two readers that differ in what they make of an end mark can be told
apart. -/
theorem readAll_differ (same : SamePlace first second)
    (start : first.pos ≤ first.size) (short : first.size < 2147483648)
    (every : first.skipEndAllStream = false)
    (open' : first.skipEndMarker = false) (skips : second.skipEndMarker = true)
    (mark : netStreamStructEndMark ∈ first.stream.left) :
    ∃ ops, second.readAll ops ≠ first.readAll ops := by
  obtain ⟨front, behind, left⟩ := List.append_of_mem mark
  have here : first.At (front ++ netStreamStructEndMark :: behind) :=
    ⟨left, start⟩
  have length : (UInt64.ofNat front.length).toNat = front.length := by
    have size := here.size
    rw [List.length_append] at size
    rw [UInt64.toNat_ofNat']
    omega
  obtain ⟨one, read, past⟩ := readStream_at here short length
  obtain ⟨two, found, beyond⟩ := readStream_at (same.at here)
    (by rw [same.size]; exact short) length
  have oneEvery := past.skipEndAllStream.trans every
  have twoEvery :=
    beyond.skipEndAllStream.trans (same.skipEndAllStream.trans every)
  have oneShort : one.size < 2147483648 := by
    rw [past.size]
    exact short
  have twoShort : two.size < 2147483648 := by
    rw [beyond.size, same.size]
    exact short
  by_cases last : behind = []
  · subst last
    refine ⟨[.readStream (UInt64.ofNat front.length),
      .readVar StreamMarker.int8.code, .readLeftStream 0xffffffffffffffff],
      fun equal => ?_⟩
    obtain ⟨next, struck, size, there⟩ :=
      readVar_struck past.at (past.skipEndMarker.trans open') oneEvery
    obtain ⟨other, skipped, sizes, later⟩ := readVar_skipped beyond.at
      (beyond.skipEndMarker.trans skips) twoEvery StreamMarker.int8.code
    have none := readLeftStream_at there (by rw [size]; exact oneShort)
    have one := readLeftStream_at later (by rw [sizes]; exact twoShort)
    simp only [readAll, performRead, ofField, asBytes, read, found, struck,
      skipped, List.cons.injEq, Sum.inl.injEq, FieldRead.bytes.injEq,
      none, one, List.length_nil, List.length_singleton] at equal
    omega
  · refine ⟨[.readStream (UInt64.ofNat front.length), .read8,
      .readLeftStream 0xffffffffffffffff], fun equal => ?_⟩
    obtain ⟨next, struck, size, there⟩ :=
      read8_struck past.at (past.skipEndMarker.trans open') oneEvery
    obtain ⟨rest, sizes, later, shorter⟩ := read8_skipped last beyond.at
      (beyond.skipEndMarker.trans skips) twoEvery
    have all := readLeftStream_at there (by rw [size]; exact oneShort)
    have fewer := readLeftStream_at later (by rw [sizes]; exact twoShort)
    simp only [readAll, performRead, ofField, asBytes, asNumber, read, found,
      struck, List.cons.injEq, Sum.inl.injEq, FieldRead.bytes.injEq] at equal
    omega

/-- The commands have left the flag as it was, or there is no end mark that the
flag could matter for. -/
def Harmless (cursor : ReadCursor) (commands : List Bool) : Prop :=
  commands.getLastD cursor.skipEndMarker = cursor.skipEndMarker ∨
    cursor.skipEndAllStream = true ∨
    netStreamStructEndMark ∉ cursor.stream.left

/-- Whether the later reads are unchanged depends on the commands: always one
way, and both ways where `LeftData`, an `int`, is exact. -/
structure DecidedBy (cursor after : ReadCursor) (commands : List Bool) :
    Prop where
  keeps : cursor.Harmless commands → Unchanged cursor after
  only : cursor.size < 2147483648 → Unchanged cursor after →
    cursor.Harmless commands

theorem decidedBy {commands : List Bool} (start : cursor.pos ≤ cursor.size)
    (same : SamePlace cursor after)
    (flag : after.skipEndMarker = commands.getLastD cursor.skipEndMarker) :
    DecidedBy cursor after commands := by
  constructor
  · intro harmless ops
    refine readAll_alike ⟨same, ?_⟩ ops
    rw [SameMarks, flag]
    exact harmless
  · intro short unchanged
    rw [Harmless, ← flag]
    by_contra harm
    rw [not_or, not_or, Bool.not_eq_true, not_not] at harm
    obtain ⟨flags, every, mark⟩ := harm
    cases skip : cursor.skipEndMarker with
    | false =>
      rw [skip, Bool.not_eq_false] at flags
      obtain ⟨ops, differ⟩ :=
        readAll_differ same start short every skip flags mark
      exact differ (unchanged ops)
    | true =>
      rw [skip, Bool.not_eq_true] at flags
      obtain ⟨ops, differ⟩ := readAll_differ same.symm
        (by rw [same.pos, same.size]; exact start)
        (by rw [same.size]; exact short)
        (same.skipEndAllStream.trans every) flags skip
        (by rw [same.left]; exact mark)
      exact differ (unchanged ops).symm

def commands (cursor : ReadCursor) : List Bool :=
  commandsAhead cursor.skipEndAllStream cursor.skipEndMarker cursor.stream.left

def next (cursor : ReadCursor) : NextThing :=
  (nextThing cursor.skipEndAllStream cursor.skipEndMarker
    cursor.stream.left).1

theorem peekDataType_samePlace (start : cursor.pos ≤ cursor.size) :
    SamePlace cursor cursor.peekDataType.2 ∧
      cursor.peekDataType.2.skipEndMarker =
        cursor.commands.getLastD cursor.skipEndMarker := by
  obtain ⟨after, read, reached⟩ := readTypeSize_eq ⟨rfl, start⟩ rfl
  have place := readTypeSize_samePlace cursor
  have flag := reached.skipEndMarker.trans (nextThing_flag _ _ _)
  rw [read] at place
  rw [peekDataType, read]
  dsimp only
  split_ifs <;> exact ⟨place, flag⟩

theorem peekBinSize_samePlace (start : cursor.pos ≤ cursor.size) :
    SamePlace cursor cursor.peekBinSize.2 ∧
      cursor.peekBinSize.2.skipEndMarker =
        cursor.commands.getLastD cursor.skipEndMarker := by
  obtain ⟨after, read, reached⟩ := readTypeSize_eq ⟨rfl, start⟩ rfl
  have place := readTypeSize_samePlace cursor
  have flag := reached.skipEndMarker.trans (nextThing_flag _ _ _)
  rw [read] at place
  rw [peekBinSize, read]
  dsimp only
  split_ifs
  · exact ⟨place, flag⟩
  · exact ⟨place, flag⟩
  · rw [readOrg]
    split_ifs
    · exact ⟨⟨place.memory, place.size, rfl, place.skipEndAllStream⟩, flag⟩
    · exact ⟨place, flag⟩

def SameData (first second : ReadCursor) : Prop :=
  second.memory = first.memory ∧ second.size = first.size

theorem stepOver_sameData (type size : Nat) :
    SameData cursor (cursor.stepOver type size).2 := by
  have read : SameData cursor (cursor.readOrg 2).2.2 := by
    rw [readOrg]
    split_ifs <;> exact ⟨rfl, rfl⟩
  unfold stepOver
  dsimp only
  split_ifs
  · exact ⟨rfl, rfl⟩
  · exact ⟨rfl, rfl⟩
  · exact ⟨rfl, rfl⟩
  · exact read
  · exact read
  · exact ⟨rfl, rfl⟩
  · exact read
  · exact read
  · exact ⟨rfl, rfl⟩

theorem moveLoop_sameData {rounds orgAddr : Nat} {moved : Bool}
    (found : moveLoop rounds orgAddr cursor = some (moved, after)) :
    SameData cursor after := by
  induction rounds generalizing cursor with
  | zero => cases found
  | succ rounds induction =>
    have read : SameData cursor cursor.readTypeSize.2.2.2 :=
      ⟨@readMarkers_memory { cursor with struckEndMarker := false } _,
        readTypeSize_steady.size⟩
    have step := @stepOver_sameData cursor.readTypeSize.2.2.2
      cursor.readTypeSize.2.1 cursor.readTypeSize.2.2.1
    have both : SameData cursor _ :=
      ⟨step.1.trans read.1, step.2.trans read.2⟩
    rw [moveLoop] at found
    dsimp only at found
    split_ifs at found with failed struck again
    · cases found
      exact read
    · cases found
      exact read
    · have later := induction found
      exact ⟨later.1.trans both.1, later.2.trans both.2⟩
    · cases found
      exact both

theorem trytoMoveStructEnd_samePlace (start : cursor.pos ≤ cursor.size)
    (found : cursor.trytoMoveStructEnd = some (false, after)) :
    SamePlace cursor after ∧ cursor.skipEndMarker = false ∧
      after.skipEndMarker =
        (commandsMet false cursor.stream.left).getLastD false := by
  rw [trytoMoveStructEnd] at found
  split at found
  · cases (Prod.mk.inj (Option.some.inj found)).1
  rename_i clear
  rw [Bool.or_eq_true, Bool.or_eq_true, not_or, not_or, Bool.not_eq_true,
    Bool.not_eq_true, Bool.not_eq_true] at clear
  obtain ⟨⟨-, skip⟩, every⟩ := clear
  obtain ⟨flag, open', position⟩ :=
    moveLoop_skipAfter ⟨rfl, start⟩ every found
  obtain ⟨memory, size⟩ := moveLoop_sameData found
  rw [skip] at flag
  exact ⟨⟨memory, size, position rfl, open'.trans every.symm⟩, skip, flag⟩

theorem peekDataType_exact (start : cursor.pos ≤ cursor.size) :
    cursor.peekDataType.1 = some cursor.next.expected ↔
      cursor.next ≠ .endMark := by
  obtain ⟨after, read, reached⟩ := readTypeSize_eq ⟨rfl, start⟩ rfl
  have struck := reached.struckEndMarker
  change after.struckEndMarker = cursor.next.struck at struck
  change cursor.readTypeSize =
    (cursor.next.ret, cursor.next.type, cursor.next.size, after) at read
  rw [peekDataType, read]
  dsimp only
  rw [struck]
  cases cursor.next with
  | nothing => simp [NextThing.ret, NextThing.expected]
  | endMark => simp [NextThing.ret, NextThing.struck]
  | field type size =>
    simp [NextThing.ret, NextThing.struck, NextThing.type, NextThing.expected]

end ReadCursor

/-- A peek, and a `TrytoMoveStructEnd` that returns false, leave all later reads
as they were if the commands they have come across leave the flag as it was or
no end mark is left that could count, and only then; `PeekDataType` says what
comes next exactly if that is no end mark. -/
theorem peek_iff {cursor : ReadCursor} (start : cursor.pos ≤ cursor.size) :
    cursor.DecidedBy cursor.peekDataType.2 cursor.commands ∧
      cursor.DecidedBy cursor.peekBinSize.2 cursor.commands ∧
      (∀ after, cursor.trytoMoveStructEnd = some (false, after) →
        cursor.DecidedBy after
          (ReadCursor.commandsMet false cursor.stream.left)) ∧
      (cursor.peekDataType.1 = some cursor.next.expected ↔
        cursor.next ≠ .endMark) := by
  obtain ⟨dataType, dataFlag⟩ := ReadCursor.peekDataType_samePlace start
  obtain ⟨binSize, binFlag⟩ := ReadCursor.peekBinSize_samePlace start
  refine ⟨ReadCursor.decidedBy start dataType dataFlag,
    ReadCursor.decidedBy start binSize binFlag, ?_,
    ReadCursor.peekDataType_exact start⟩
  intro after found
  obtain ⟨same, skip, flag⟩ :=
    ReadCursor.trytoMoveStructEnd_samePlace start found
  exact ReadCursor.decidedBy start same (by rw [flag, skip])

/-- A peek at an integer. -/
theorem peek_int :
    ReadCursor.Unchanged (ReadCursor.ofBytes [0x11, 7])
        (ReadCursor.ofBytes [0x11, 7]).peekDataType.2 ∧
      (ReadCursor.ofBytes [0x11, 7]).peekDataType.1 = some 1 := by
  obtain ⟨keeps, -, -, exactly⟩ :=
    @peek_iff (ReadCursor.ofBytes [0x11, 7]) (by decide)
  exact ⟨keeps.keeps (.inl (by decide)), exactly.mpr (by decide)⟩

/-- An integer read after the peek fails that is read without it: the peek has
skipped the end mark and then met the command to stop at end marks.  At an end
mark `PeekDataType` returns what its variable happens to hold. -/
theorem peek_changes :
    (ReadCursor.ofBytes [0xb0, 0x11, 1, 0xff, 0xc0, 0x11, 7]).read8.1 = 0 ∧
      ¬ ReadCursor.Unchanged
        (ReadCursor.ofBytes [0xb0, 0x11, 1, 0xff, 0xc0, 0x11, 7]).read8.2.2
        (ReadCursor.ofBytes
          [0xb0, 0x11, 1, 0xff, 0xc0, 0x11, 7]).read8.2.2.peekDataType.2 ∧
      (ReadCursor.ofBytes [0xff]).peekDataType.1 = none := by
  refine ⟨by decide, fun unchanged => ?_, by decide⟩
  exact absurd (unchanged [.read8]) (by decide)

end NdNet
