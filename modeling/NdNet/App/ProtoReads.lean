import NdNet.App.ProtoReader
import NdNet.App.ProtoWriter

/-!
# All readers of the typed stream

The readers of `ProtoReader` are completed by those of floats, doubles and
addresses, and each of them is shown to take off what its writer has put into
the stream.
-/

namespace NdNet

variable {marker : StreamMarker}

namespace ReadCursor

/-- `_ReadOrg(float &)` and `_ReadOrg(double &)`, which copy byte by byte. -/
def readOrgHost (cursor : ReadCursor) (size : Nat) : Int × Nat × ReadCursor :=
  if cursor.pos + size ≤ cursor.size then
    (0, fromHost (cursor.bytesAt cursor.pos size),
      { cursor.touch cursor.pos size with pos := cursor.pos + size })
  else (-1, 0, cursor)

/-- `Read(float &)` and `Read(double &)`, which differ in marker and size. -/
def readFloating (marker : StreamMarker) (width : Nat) (cursor : ReadCursor) :
    Int × Nat × ReadCursor :=
  match cursor.readMarker marker with
  | (none, cursor) => (-1, 0, cursor)
  | (some size, cursor) =>
    let cursor := { cursor with written := width }
    if size = 0 then (0, 0, cursor)
    else if size = width then cursor.readOrgHost width
    else (-1, 0, cursor)

/-- `Read(float &)` -/
def readFloat := readFloating .float 4

/-- `Read(double &)` -/
def readDouble := readFloating .double 8

/-- `NDRecvMsg::ReadIp`: the result, the family with the bytes that have been
copied, and the reader. -/
def readIp (cursor : ReadCursor) :
    Int × Option (Bool × List Byte) × ReadCursor :=
  let (ret, type, _, cursor) := cursor.readTypeSize
  if ret = -1 ∨ cursor.struckEndMarker then (-1, none, cursor)
  else if type = StreamMarker.ip.code then
    let (len, bytes, cursor) := cursor.readStream 4
    if 0 < len then (0, some (true, bytes), cursor) else (-1, none, cursor)
  else if type = StreamMarker.ip6.code then
    let (len, bytes, cursor) := cursor.readStream 16
    if 0 < len then (0, some (false, bytes), cursor) else (-1, none, cursor)
  else (-1, none, cursor)

structure At (cursor : ReadCursor) (bytes : List Byte) : Prop where
  left : cursor.stream.left = bytes
  inside : cursor.pos ≤ cursor.size

structure Past (cursor after : ReadCursor) (rest : List Byte) : Prop where
  left : after.stream.left = rest
  skipEndMarker : after.skipEndMarker = cursor.skipEndMarker
  skipEndAllStream : after.skipEndAllStream = cursor.skipEndAllStream
  size : after.size = cursor.size
  inside : after.pos ≤ after.size

section Positions

variable {cursor after : ReadCursor} {bytes front rest : List Byte}

theorem At.size (here : cursor.At bytes) :
    cursor.size = cursor.pos + bytes.length := by
  have length := cursor.stream_length
  rw [here.left] at length
  have inside := here.inside
  omega

theorem At.stream (here : cursor.At bytes) :
    cursor.stream = { cursor.stream with left := bytes } := by
  rw [← here.left]

theorem Past.at (past : Past cursor after rest) : after.At rest :=
  ⟨past.left, past.inside⟩

theorem Past.pos (past : Past cursor after rest)
    (here : cursor.At (front ++ rest)) :
    after.pos = cursor.pos + front.length := by
  have before := here.size
  have behind := past.at.size
  rw [past.size, before, List.length_append] at behind
  omega

theorem Past.trans {middle : ReadCursor} {between : List Byte}
    (early : Past cursor middle between) (late : Past middle after rest) :
    Past cursor after rest where
  left := late.left
  skipEndMarker := late.skipEndMarker.trans early.skipEndMarker
  skipEndAllStream := late.skipEndAllStream.trans early.skipEndAllStream
  size := late.size.trans early.size
  inside := late.inside

theorem Past.storing (past : Past cursor after rest) (width : Nat) :
    Past cursor { after with written := width } rest :=
  ⟨past.left, past.skipEndMarker, past.skipEndAllStream, past.size, past.inside⟩

def ofBytes (bytes : List Byte) : ReadCursor :=
  init (fun index => bytes.getD index 0) bytes.length

theorem ofBytes_stream (bytes : List Byte) :
    (ofBytes bytes).stream = .init bytes := by
  have left : (ofBytes bytes).stream.left = bytes := by
    refine List.ext_getElem (by simp [stream_length, ofBytes, init]) ?_
    intro index first second
    simp [stream, bytesAt, ofBytes, init, second]
  have flags : (ofBytes bytes).stream = .init (ofBytes bytes).stream.left := rfl
  rw [flags, left]

theorem at_ofBytes (bytes : List Byte) : (ofBytes bytes).At bytes where
  left := by rw [ofBytes_stream]; rfl
  inside := Nat.zero_le _

end Positions

section Fields

variable {cursor : ReadCursor} {rest : List Byte}

structure Keeps (cursor after : ReadCursor) : Prop where
  size : after.size = cursor.size
  inside : cursor.pos ≤ cursor.size → after.pos ≤ after.size

theorem Steady.keeps {after : ReadCursor} (steady : Steady cursor after) :
    Keeps cursor after :=
  ⟨steady.size, steady.position⟩

theorem Keeps.trans {middle after : ReadCursor} (early : Keeps cursor middle)
    (late : Keeps middle after) : Keeps cursor after :=
  ⟨late.size.trans early.size, fun start => late.inside (early.inside start)⟩

theorem readInt_keeps (marker : StreamMarker) (sizes : List Nat)
    (width : Nat) : Keeps cursor (readInt marker sizes width cursor).2.2 := by
  have marked := (@readMarker_steady cursor marker).keeps
  unfold readInt
  cases read : cursor.readMarker marker with
  | mk found next =>
    rw [read] at marked
    cases found with
    | none => exact marked
    | some size =>
      have stored : Keeps cursor { next with written := width } :=
        ⟨marked.size, marked.inside⟩
      dsimp only
      split_ifs
      · exact stored
      · exact stored.trans (readOrg_steady size).keeps
      · exact stored

theorem BlockRead.keeps {extra room : Nat}
    {result : Nat × List Byte × ReadCursor}
    (block : BlockRead cursor extra room result) : Keeps cursor result.2.2 := by
  cases block with
  | missed steady => exact steady.keeps
  | taken steady short there fits =>
    exact ⟨steady.size, fun _ => there⟩

theorem readText_keeps (sizeBuf : UInt64) :
    Keeps cursor (cursor.readText sizeBuf).2.2 := by
  rcases @readText_block cursor sizeBuf with ⟨_, same⟩ | block
  · have marked := @readMarker_steady cursor .text
    rw [same]
    exact ⟨marked.size, marked.position⟩
  · exact block.keeps

theorem Past.of_stream {after : ReadCursor} {struck : Bool}
    (stream : after.stream =
      { cursor.stream with left := rest, struckEndMarker := struck })
    (keeps : Keeps cursor after) (start : cursor.pos ≤ cursor.size) :
    Past cursor after rest where
  left := congrArg ProtoReadStream.left stream
  skipEndMarker := congrArg ProtoReadStream.skipEndMarker stream
  skipEndAllStream := congrArg ProtoReadStream.skipEndAllStream stream
  size := keeps.size
  inside := keeps.inside start

theorem readMarker_at {size : Nat}
    (here : cursor.At (markerByte marker size :: rest))
    (plain : marker.code < 11) (small : size < 16) :
    ∃ after, cursor.readMarker marker = (some size, after) ∧
      Past cursor after rest := by
  have whole := readMarker_stream here.inside marker
  rw [here.stream, ProtoReadStream.readMarker_marker _ plain small] at whole
  obtain ⟨found, stream⟩ := Prod.mk.inj whole
  refine ⟨(cursor.readMarker marker).2, ?_, ?_⟩
  · rw [found]
  · exact Past.of_stream stream.symm
      (@readMarker_steady cursor marker).keeps here.inside

theorem readMarkers_memory (left : Nat) :
    (readMarkers left cursor).2.2.2.memory = cursor.memory := by
  induction left generalizing cursor with
  | zero => rfl
  | succ left induction =>
    have first : (cursor.readOrg 1).2.2.memory = cursor.memory := by
      unfold readOrg
      split <;> rfl
    rw [readMarkers]
    dsimp only
    split_ifs
    · exact first
    · exact induction.trans first
    · exact first
    · exact induction.trans first
    · exact induction.trans first
    · exact first

theorem readInt_at {marker : StreamMarker} {sizes : List Nat} {value : Nat}
    (here : cursor.At (encodeInt marker sizes value ++ rest))
    (plain : marker.code < 11) (some : sizes ≠ [])
    (usable : ∀ size ∈ sizes, 0 < size ∧ size < 16)
    (fits : value < 256 ^ sizes.getLast some) (width : Nat) :
    ∃ after, readInt marker sizes width cursor = (0, value, after) ∧
      Past cursor after rest := by
  have whole := readInt_stream here.inside marker sizes width
  rw [here.stream,
    ProtoReadStream.readInt_encode _ plain some usable fits] at whole
  obtain ⟨ret, later⟩ := Prod.mk.inj whole
  obtain ⟨number, stream⟩ := Prod.mk.inj later
  refine ⟨(readInt marker sizes width cursor).2.2, ?_, ?_⟩
  · rw [ret, number]
  · exact Past.of_stream stream.symm (readInt_keeps marker sizes width)
      here.inside

theorem readText_at {chars : List Byte}
    (here : cursor.At (encodeBlock .text chars [0x7f] ++ rest))
    (small : chars.length < 65536) {sizeBuf : UInt64}
    (room : chars.length < sizeBuf.toNat) :
    ∃ after, cursor.readText sizeBuf = (chars.length, chars, after) ∧
      Past cursor after rest := by
  have whole := readText_stream here.inside sizeBuf
  rw [here.stream, ProtoReadStream.readText_encode _ small room] at whole
  obtain ⟨ret, later⟩ := Prod.mk.inj whole
  obtain ⟨text, stream⟩ := Prod.mk.inj later
  refine ⟨(cursor.readText sizeBuf).2.2, ?_, ?_⟩
  · rw [ret, text]
  · exact Past.of_stream stream.symm (readText_keeps sizeBuf) here.inside

theorem readBin_at {data : List Byte}
    (here : cursor.At (encodeBlock .bin data [] ++ rest))
    (small : data.length < 65536) {sizeBuf : UInt64}
    (room : data.length ≤ sizeBuf.toNat) :
    ∃ after, cursor.readBin sizeBuf = (data.length, data, after) ∧
      Past cursor after rest := by
  have whole := readBin_stream here.inside sizeBuf
  rw [here.stream, ProtoReadStream.readBin_encode _ small room] at whole
  obtain ⟨ret, later⟩ := Prod.mk.inj whole
  obtain ⟨bytes, stream⟩ := Prod.mk.inj later
  refine ⟨(cursor.readBin sizeBuf).2.2, ?_, ?_⟩
  · rw [ret, bytes]
  · exact Past.of_stream stream.symm (readBin_block sizeBuf).keeps here.inside

variable {front : List Byte}

theorem At.bytesAt (here : cursor.At (front ++ rest)) :
    cursor.bytesAt cursor.pos front.length = front := by
  have size := here.size
  rw [List.length_append] at size
  rw [← stream_take (by omega), here.left, List.take_left]

theorem At.drop (here : cursor.At (front ++ rest)) :
    cursor.bytesAt (cursor.pos + front.length)
      (cursor.size - (cursor.pos + front.length)) = rest := by
  rw [← stream_drop, here.left, List.drop_left]

theorem At.past (here : cursor.At (front ++ rest)) (reads : List (Nat × Nat))
    (written : Nat) :
    Past cursor { cursor with
      pos := cursor.pos + front.length, reads := reads
      written := written } rest where
  left := here.drop
  skipEndMarker := rfl
  skipEndAllStream := rfl
  size := rfl
  inside := by
    have size := here.size
    rw [List.length_append] at size
    change cursor.pos + front.length ≤ cursor.size
    omega

theorem readOrg_at (here : cursor.At (front ++ rest)) :
    ∃ after, cursor.readOrg front.length = (0, fromNetstream front, after) ∧
      Past cursor after rest := by
  have size := here.size
  rw [List.length_append] at size
  refine ⟨_, ?_, here.past ((cursor.pos, front.length) :: cursor.reads)
    cursor.written⟩
  rw [readOrg, if_pos (by omega), here.bytesAt]
  rfl

theorem readOrgHost_at (here : cursor.At (front ++ rest)) :
    ∃ after, cursor.readOrgHost front.length = (0, fromHost front, after) ∧
      Past cursor after rest := by
  have size := here.size
  rw [List.length_append] at size
  refine ⟨_, ?_, here.past ((cursor.pos, front.length) :: cursor.reads)
    cursor.written⟩
  rw [readOrgHost, if_pos (by omega), here.bytesAt]
  rfl

theorem readFloating_at {width value : Nat}
    (here : cursor.At
      (markerByte marker width :: (toHost width value ++ rest)))
    (plain : marker.code < 11) (positive : 0 < width) (small : width < 16)
    (fits : value < 256 ^ width) :
    ∃ after, readFloating marker width cursor = (0, value, after) ∧
      Past cursor after rest := by
  obtain ⟨next, marked, behind⟩ := readMarker_at here plain small
  obtain ⟨after, read, past⟩ := readOrgHost_at (behind.storing width).at
  rw [toHost_length, fromHost_toHost fits] at read
  refine ⟨after, ?_, ?_⟩
  · rw [readFloating, marked]
    dsimp only
    rw [if_neg (Nat.ne_of_gt positive), if_pos rfl, read]
  · exact (behind.storing width).trans past

theorem readFloating_zero {width : Nat}
    (here : cursor.At (markerByte marker 0 :: rest)) (plain : marker.code < 11)
    :
    ∃ after, readFloating marker width cursor = (0, 0, after) ∧
      Past cursor after rest := by
  obtain ⟨next, marked, behind⟩ := readMarker_at here plain (by decide)
  refine ⟨{ next with written := width }, ?_, ?_⟩
  · rw [readFloating, marked]
    rfl
  · exact behind.storing width

theorem leftData_eq (start : cursor.pos ≤ cursor.size)
    (short : cursor.size < 2147483648) :
    cursor.leftData = (cursor.size - cursor.pos : Nat) := by
  rw [leftData, ← Nat.cast_sub start]
  exact Int.bmod_eq_of_le (by omega) (by omega)

theorem sizeT_of_lt {value : Nat} (small : value < 2147483648) :
    sizeT value = value := by
  rw [sizeT, Int.emod_eq_of_lt (by omega) (by omega), Int.toNat_natCast]

theorem readStream_at {data : List Byte} (here : cursor.At (data ++ rest))
    (short : cursor.size < 2147483648) {readlen : UInt64}
    (length : readlen.toNat = data.length) :
    ∃ after, cursor.readStream readlen = (data.length, data, after) ∧
      Past cursor after rest := by
  have size := here.size
  rw [List.length_append] at size
  refine ⟨_, ?_, here.past ((cursor.pos, data.length) :: cursor.reads)
    data.length⟩
  rw [readStream, leftData_eq here.inside short, sizeT_of_lt (by omega),
    if_neg (by omega), length, here.bytesAt]
  rfl

theorem readTypeSize_of_readMarker {size : Nat} {next : ReadCursor}
    (marked : cursor.readMarker marker = (some size, next)) :
    (cursor.readTypeSize).1 ≠ -1 ∧ next.struckEndMarker = false ∧
      (cursor.readTypeSize).2 = (marker.code, size, next) := by
  unfold readMarker at marked
  dsimp only at marked
  split_ifs at marked with failed other
  · cases marked
  · cases marked
  · rw [not_or, Bool.not_eq_true] at failed
    rw [not_not] at other
    obtain ⟨count, after⟩ := Prod.mk.inj marked
    refine ⟨failed.1, ?_, ?_⟩
    · rw [← after]
      exact failed.2
    · rw [← after, ← Option.some.inj count, ← other]

theorem peekDataType_at {size : Nat}
    (here : cursor.At (markerByte marker size :: rest))
    (plain : marker.code < 11) (small : size < 16) :
    ∃ after, cursor.peekDataType = (some marker.code, after) ∧
      Past cursor after (markerByte marker size :: rest) := by
  obtain ⟨next, marked, past⟩ := readMarker_at here plain small
  obtain ⟨fine, unstruck, read⟩ := readTypeSize_of_readMarker marked
  have memory : next.memory = cursor.memory := by
    have same := @readMarkers_memory { cursor with struckEndMarker := false }
      (cursor.size - cursor.pos)
    change cursor.readTypeSize.2.2.2.memory = _ at same
    rwa [read] at same
  refine ⟨{ next with pos := cursor.pos }, ?_, ?_⟩
  · unfold peekDataType
    revert fine read
    obtain ⟨ret, type, found, after⟩ := cursor.readTypeSize
    intro fine read
    obtain ⟨rfl, same⟩ := Prod.mk.inj read
    obtain ⟨rfl, rfl⟩ := Prod.mk.inj same
    dsimp only at fine ⊢
    rw [if_neg fine, unstruck, if_neg Bool.false_ne_true]
  · refine ⟨?_, past.skipEndMarker, past.skipEndAllStream, past.size, ?_⟩
    · rw [← here.left]
      change bytesAt _ cursor.pos (next.size - cursor.pos) = _
      rw [past.size]
      change _ = cursor.bytesAt cursor.pos (cursor.size - cursor.pos)
      rw [bytesAt, bytesAt]
      rw [memory]
    · rw [past.size]
      exact here.inside

theorem readIp_at {a : NdIp}
    (here : cursor.At ((WriteCall.ip a).encode ++ rest))
    (short : cursor.size < 2147483648) :
    ∃ after, cursor.readIp = (0, some (a.inet, a.address), after) ∧
      Past cursor after rest := by
  obtain ⟨next, marked, behind⟩ := readMarker_at here
    (by split <;> decide) (by split <;> decide)
  obtain ⟨fine, open', read⟩ := readTypeSize_of_readMarker marked
  have small : next.size < 2147483648 := by
    rw [behind.size]
    exact short
  have size : ∀ wide : UInt64, wide.toNat = a.size →
      ∃ after, next.readStream wide = (a.size, a.address, after) ∧
        Past cursor after rest := by
    intro wide same
    obtain ⟨after, read, past⟩ := readStream_at behind.at small
      (same.trans a.address_length.symm)
    rw [a.address_length] at read
    exact ⟨after, read, behind.trans past⟩
  have positive : 0 < a.size := by
    rw [NdIp.size]
    split <;> decide
  unfold readIp
  revert fine read
  obtain ⟨ret, type, found, after⟩ := cursor.readTypeSize
  intro fine read
  obtain ⟨rfl, same⟩ := Prod.mk.inj read
  obtain ⟨rfl, rfl⟩ := Prod.mk.inj same
  dsimp only at fine ⊢
  rw [if_neg (not_or.mpr ⟨fine, by rw [open']; exact Bool.false_ne_true⟩)]
  cases inet : a.inet with
  | true =>
    obtain ⟨after, stream, past⟩ := size 4 (by rw [NdIp.size, inet]; rfl)
    refine ⟨after, ?_, past⟩
    rw [if_pos rfl, if_pos rfl, stream]
    rw [if_pos positive]
  | false =>
    obtain ⟨after, stream, past⟩ := size 16 (by rw [NdIp.size, inet]; rfl)
    refine ⟨after, ?_, past⟩
    rw [if_neg (by decide), if_pos (by decide), stream]
    rw [if_pos positive]

end Fields

end ReadCursor

inductive FieldRead where
  | number (ret : Int) (value : Nat)
  | bytes (count : Nat) (data : List Byte)
  | address (ret : Int) (found : Option (Bool × List Byte))
  | copied (ret : Int) (data : List Byte)
  deriving DecidableEq, Repr

/-- The bytes of a text or a binary, which have their number in front. -/
def WriteCall.counted : WriteCall → List Byte
  | text chars => cString chars
  | bin data => data
  | _ => []

/-- What the matching read is to report; a zero has lost its sign. -/
def WriteCall.reported : WriteCall → FieldRead
  | u8 a => .number 0 a.toNat
  | u16 a => .number 0 a.toNat
  | u32 a => .number 0 a.toNat
  | u64 a => .number 0 a.toNat
  | force16 a => .number 0 a.toNat
  | force32 a => .number 0 a.toNat
  | float a => .number 0 (if floatIsZero a then 0 else a.toNat)
  | double a => .number 0 (if doubleIsZero a then 0 else a.toNat)
  | text chars => .bytes (cString chars).length (cString chars)
  | bin data => .bytes data.length data
  | stream data => .bytes data.length data
  | ip a => .address 0 (some (a.inet, a.address))

namespace ReadCursor

def asNumber (read : Int × Nat × ReadCursor) : FieldRead × ReadCursor :=
  (.number read.1 read.2.1, read.2.2)

def asBytes (read : Nat × List Byte × ReadCursor) : FieldRead × ReadCursor :=
  (.bytes read.1 read.2.1, read.2.2)

/-- The read that matches a call, into a buffer of 64 KiB where one is
needed. -/
def readCall (cursor : ReadCursor) : WriteCall → FieldRead × ReadCursor
  | .u8 _ => asNumber cursor.read8
  | .u16 _ => asNumber cursor.read16
  | .u32 _ => asNumber cursor.read32
  | .u64 _ => asNumber cursor.read64
  | .force16 _ => asNumber cursor.read16
  | .force32 _ => asNumber cursor.read32
  | .float _ => asNumber cursor.readFloat
  | .double _ => asNumber cursor.readDouble
  | .text _ => asBytes (cursor.readText 0x10000)
  | .bin _ => asBytes (cursor.readBin 0x10000)
  | .stream data => asBytes (cursor.readStream (UInt64.ofNat data.length))
  | .ip _ =>
    let (ret, found, cursor) := cursor.readIp
    (.address ret found, cursor)

def readCalls (cursor : ReadCursor) :
    List WriteCall → List FieldRead × ReadCursor
  | [] => ([], cursor)
  | call :: calls =>
    let read := cursor.readCall call
    let later := readCalls read.2 calls
    (read.1 :: later.1, later.2)

variable {cursor : ReadCursor} {rest : List Byte}

theorem asNumber_at {read : Int × Nat × ReadCursor} {value : Nat}
    (found : ∃ after, read = (0, value, after) ∧ Past cursor after rest) :
    ∃ after, asNumber read = (.number 0 value, after) ∧
      Past cursor after rest := by
  obtain ⟨after, rfl, past⟩ := found
  exact ⟨after, rfl, past⟩

theorem asBytes_at {read : Nat × List Byte × ReadCursor} {data : List Byte}
    (found : ∃ after, read = (data.length, data, after) ∧
      Past cursor after rest) :
    ∃ after, asBytes read = (.bytes data.length data, after) ∧
      Past cursor after rest := by
  obtain ⟨after, rfl, past⟩ := found
  exact ⟨after, rfl, past⟩

theorem readInt_forced {sizes : List Nat} {size value : Nat}
    (here : cursor.At (markerByte marker size :: (toNetstream size value ++ rest)))
    (plain : marker.code < 11) (usable : size ∈ sizes) (positive : 0 < size)
    (small : size < 16) (fits : value < 256 ^ size) (width : Nat) :
    ∃ after, readInt marker sizes width cursor = (0, value, after) ∧
      Past cursor after rest := by
  obtain ⟨next, marked, behind⟩ := readMarker_at here plain small
  obtain ⟨after, read, past⟩ := readOrg_at (behind.storing width).at
  rw [length_toNetstream, fromNetstream_toNetstream fits] at read
  refine ⟨after, ?_, ?_⟩
  · rw [readInt, marked]
    dsimp only
    rw [if_neg (Nat.ne_of_gt positive), if_pos usable, read]
  · exact (behind.storing width).trans past

theorem readCall_at {call : WriteCall} (here : cursor.At (call.encode ++ rest))
    (short : cursor.size < 2147483648) (counted : call.counted.length < 65536) :
    ∃ after, cursor.readCall call = (call.reported, after) ∧
      Past cursor after rest := by
  cases call with
  | u8 a =>
    exact asNumber_at (readInt_at here (by decide) (by simp) (by simp)
      (by simpa using a.toNat_lt) 1)
  | u16 a =>
    exact asNumber_at (readInt_at here (by decide) (by simp) (by simp)
      (by simpa using a.toNat_lt) 2)
  | u32 a =>
    exact asNumber_at (readInt_at here (by decide) (by simp) (by simp)
      (by simpa using a.toNat_lt) 4)
  | u64 a =>
    exact asNumber_at (readInt_at here (by decide) (by simp) (by simp)
      (by simpa using a.toNat_lt) 8)
  | force16 a =>
    exact asNumber_at (readInt_forced here (by decide) (by decide)
      (by decide) (by decide) (by simpa using a.toNat_lt) 2)
  | force32 a =>
    exact asNumber_at (readInt_forced here (by decide) (by decide)
      (by decide) (by decide) (by simpa using a.toNat_lt) 4)
  | float a =>
    by_cases zero : floatIsZero a
    · rw [WriteCall.encode, if_pos zero] at here
      rw [WriteCall.reported, if_pos zero]
      exact asNumber_at (readFloating_zero here (by decide))
    · rw [WriteCall.encode, if_neg zero] at here
      rw [WriteCall.reported, if_neg zero]
      exact asNumber_at (readFloating_at here (by decide) (by decide)
        (by decide) (by simpa using a.toNat_lt))
  | double a =>
    by_cases zero : doubleIsZero a
    · rw [WriteCall.encode, if_pos zero] at here
      rw [WriteCall.reported, if_pos zero]
      exact asNumber_at (readFloating_zero here (by decide))
    · rw [WriteCall.encode, if_neg zero] at here
      rw [WriteCall.reported, if_neg zero]
      exact asNumber_at (readFloating_at here (by decide) (by decide)
        (by decide) (by simpa using a.toNat_lt))
  | text chars => exact asBytes_at (readText_at here counted counted)
  | bin data =>
    exact asBytes_at (readBin_at here counted (Nat.le_of_lt counted))
  | stream data =>
    have size := here.size
    rw [List.length_append] at size
    change cursor.size = cursor.pos + (data.length + rest.length) at size
    refine asBytes_at (@readStream_at cursor rest data here short _ ?_)
    rw [UInt64.toNat_ofNat']
    omega
  | ip a =>
    obtain ⟨after, read, past⟩ := readIp_at here short
    refine ⟨after, ?_, past⟩
    rw [readCall, read]
    rfl

theorem readCalls_at {calls : List WriteCall}
    (here : cursor.At (calls.flatMap WriteCall.encode ++ rest))
    (short : cursor.size < 2147483648)
    (counted : ∀ call ∈ calls, call.counted.length < 65536) :
    ∃ after, cursor.readCalls calls = (calls.map WriteCall.reported, after) ∧
      after.At rest := by
  induction calls generalizing cursor with
  | nil => exact ⟨cursor, rfl, here⟩
  | cons call calls induction =>
    obtain ⟨first, others⟩ := List.forall_mem_cons.mp counted
    rw [List.flatMap_cons, List.append_assoc] at here
    obtain ⟨next, read, past⟩ := readCall_at here short first
    obtain ⟨after, later, there⟩ := induction past.at
      (by rw [past.size]; exact short) others
    refine ⟨after, ?_, there⟩
    rw [readCalls, read]
    rw [later, List.map_cons]

end ReadCursor

end NdNet
