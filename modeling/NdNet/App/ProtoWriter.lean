import NdNet.App.ProtoStreamRoundTrip

/-!
# All writers of the typed stream

`ProtoStream` has the writers of integers, texts and binaries.  Here are the
others: `WriteForce`, floats and doubles, raw bytes and addresses.  A float is
its bit pattern, and what is copied byte by byte is in the order of a
little-endian host.

Most writers put a marker byte into the stream and then, in a second step that
looks at the room again, the bytes of the value.  If only the marker fits, the
writer reports a failure and leaves the marker behind.
-/

namespace NdNet

open List

/-- `ndip_t`: whether `sin_family` is `AF_INET`, and the bytes of the union; an
IPv4 address uses the first four. -/
structure NdIp where
  inet : Bool
  ip6 : List Byte
  wide : ip6.length = 16
  deriving DecidableEq

/-- `sizeof(a.ip)` or `sizeof(a.ip6)` -/
def NdIp.size (a : NdIp) : Nat :=
  if a.inet then 4 else 16

def NdIp.address (a : NdIp) : List Byte :=
  a.ip6.take a.size

theorem NdIp.address_length (a : NdIp) : a.address.length = a.size := by
  rw [address, length_take, a.wide, size]
  split <;> rfl

def toHost (size value : Nat) : List Byte :=
  (toNetstream size value).reverse

def fromHost (bytes : List Byte) : Nat :=
  fromNetstream bytes.reverse

theorem toHost_length (size value : Nat) :
    (toHost size value).length = size := by
  rw [toHost, length_reverse, length_toNetstream]

theorem fromHost_toHost {size value : Nat} (fits : value < 256 ^ size) :
    fromHost (toHost size value) = value := by
  rw [fromHost, toHost, reverse_reverse, fromNetstream_toNetstream fits]

/-- `a == 0` for a float: a zero of either sign. -/
def floatIsZero (a : UInt32) : Bool :=
  a == 0 || a == 0x80000000

/-- `a == 0` for a double. -/
def doubleIsZero (a : UInt64) : Bool :=
  a == 0 || a == 0x8000000000000000

namespace ProtoWriteStream

def writeMarked (stream : ProtoWriteStream) (marker : StreamMarker)
    (sizebytes : Nat) (value : List Byte) : Int × ProtoWriteStream :=
  let marked := stream.writeMarker marker sizebytes
  if marked.1 = -1 then (-1, marked.2) else marked.2.writeOrg value

/-- `WriteForce(NDUINT16)` -/
def writeForce16 (stream : ProtoWriteStream) (a : UInt16) :=
  stream.writeMarked .int16 2 (toNetstream 2 a.toNat)

/-- `WriteForce(NDUINT32)` -/
def writeForce32 (stream : ProtoWriteStream) (a : UInt32) :=
  stream.writeMarked .int32 4 (toNetstream 4 a.toNat)

/-- `Write(float)` -/
def writeFloat (stream : ProtoWriteStream) (a : UInt32) :=
  if floatIsZero a then stream.writeMarker .float 0
  else stream.writeMarked .float 4 (toHost 4 a.toNat)

/-- `Write(double)` -/
def writeDouble (stream : ProtoWriteStream) (a : UInt64) :=
  if doubleIsZero a then stream.writeMarker .double 0
  else stream.writeMarked .double 8 (toHost 8 a.toNat)

def writeStream (stream : ProtoWriteStream) (data : List Byte) :
    Int × ProtoWriteStream :=
  if stream.capacity ≤ stream.bytes.length then (-1, stream)
  else if stream.getFreeLen < data.length then (-1, stream)
  else (0, { stream with bytes := stream.bytes ++ data })

def writeIp (stream : ProtoWriteStream) (a : NdIp) : Int × ProtoWriteStream :=
  if a.inet then
    let marked := stream.writeMarker .ip 4
    if marked.1 = -1 then (-1, marked.2)
    else marked.2.writeStream (a.ip6.take 4)
  else
    let marked := stream.writeMarker .ip6 0xf
    if marked.1 = -1 then (-1, marked.2)
    else marked.2.writeStream a.ip6

end ProtoWriteStream

/-- The calls that write a field, and `WriteStream`. -/
inductive WriteCall where
  | u8 (a : UInt8)
  | u16 (a : UInt16)
  | u32 (a : UInt32)
  | u64 (a : UInt64)
  | force16 (a : UInt16)
  | force32 (a : UInt32)
  | float (a : UInt32)
  | double (a : UInt64)
  | text (chars : List Byte)
  | bin (data : List Byte)
  | stream (data : List Byte)
  | ip (a : NdIp)
  deriving DecidableEq

def ProtoWriteStream.perform (stream : ProtoWriteStream) :
    WriteCall → Int × ProtoWriteStream
  | .u8 a => stream.write8 a
  | .u16 a => stream.write16 a
  | .u32 a => stream.write32 a
  | .u64 a => stream.write64 a
  | .force16 a => stream.writeForce16 a
  | .force32 a => stream.writeForce32 a
  | .float a => stream.writeFloat a
  | .double a => stream.writeDouble a
  | .text chars => stream.writeText chars
  | .bin data => stream.writeBin data
  | .stream data => stream.writeStream data
  | .ip a => stream.writeIp a

namespace WriteCall

def encode : WriteCall → List Byte
  | u8 a => encodeInt .int8 [1] a.toNat
  | u16 a => encodeInt .int16 [1, 2] a.toNat
  | u32 a => encodeInt .int32 [1, 2, 4] a.toNat
  | u64 a => encodeInt .int64 [1, 2, 4, 8] a.toNat
  | force16 a => markerByte .int16 2 :: toNetstream 2 a.toNat
  | force32 a => markerByte .int32 4 :: toNetstream 4 a.toNat
  | float a =>
    if floatIsZero a then [markerByte .float 0]
    else markerByte .float 4 :: toHost 4 a.toNat
  | double a =>
    if doubleIsZero a then [markerByte .double 0]
    else markerByte .double 8 :: toHost 8 a.toNat
  | text chars => encodeBlock .text (cString chars) [0x7f]
  | bin data => encodeBlock .bin data []
  | stream data => data
  | ip a =>
    markerByte (if a.inet then .ip else .ip6) (if a.inet then 4 else 15) ::
      a.address

/-- The room that a call asks for before it writes anything: more than
nothing, or more than the bytes of a binary or of a raw stream. -/
def checked : WriteCall → Nat
  | bin data => data.length
  | stream data => data.length
  | _ => 0

/-- The call does not fail behind its marker: the field fits, or there is no
room to begin. -/
def Clean (call : WriteCall) (free : Nat) : Prop :=
  call.encode.length ≤ free ∨ free ≤ call.checked

instance (call : WriteCall) (free : Nat) : Decidable (call.Clean free) :=
  inferInstanceAs (Decidable (_ ∨ _))

end WriteCall

namespace ProtoWriteStream

variable {stream : ProtoWriteStream} {value : List Byte}

def push (stream : ProtoWriteStream) (more : List Byte) : ProtoWriteStream :=
  { stream with bytes := stream.bytes ++ more }

@[simp] theorem push_capacity (stream : ProtoWriteStream) (more : List Byte) :
    (stream.push more).capacity = stream.capacity := rfl

@[simp] theorem push_bytes (stream : ProtoWriteStream) (more : List Byte) :
    (stream.push more).bytes = stream.bytes ++ more := rfl

theorem push_push (stream : ProtoWriteStream) (more later : List Byte) :
    (stream.push more).push later = stream.push (more ++ later) := by
  rw [push, push, push, append_assoc]

theorem getFreeLen_push (more : List Byte) :
    (stream.push more).getFreeLen = stream.getFreeLen - more.length := by
  rw [getFreeLen, getFreeLen, push_capacity, push_bytes, length_append]
  omega

theorem writeOrg_eq (some : value ≠ []) :
    stream.writeOrg value =
      if value.length ≤ stream.getFreeLen then (0, stream.push value)
      else (-1, stream) := by
  have positive : 0 < value.length := length_pos_iff.mpr some
  have same : stream.bytes.length + value.length ≤ stream.capacity ↔
      value.length ≤ stream.getFreeLen := by
    rw [getFreeLen]
    omega
  rw [writeOrg]
  by_cases fits : value.length ≤ stream.getFreeLen
  · rw [if_pos fits, if_pos (same.mpr fits)]
    rfl
  · rw [if_neg fits, if_neg (mt same.mp fits)]

theorem writeMarker_eq (marker : StreamMarker) (size : Nat) :
    stream.writeMarker marker size =
      if 0 < stream.getFreeLen then (0, stream.push [markerByte marker size])
      else (-1, stream) :=
  writeOrg_eq (cons_ne_nil _ _)

theorem writeMarked_eq (marker : StreamMarker) (size : Nat) (some : value ≠ [])
    :
    stream.writeMarked marker size value =
      if 1 + value.length ≤ stream.getFreeLen then
        (0, stream.push (markerByte marker size :: value))
      else if 0 < stream.getFreeLen then
        (-1, stream.push [markerByte marker size])
      else (-1, stream) := by
  unfold writeMarked
  rw [writeMarker_eq]
  by_cases room : 0 < stream.getFreeLen
  · rw [if_pos room, if_pos room, if_neg (show ¬ (0 : Int) = -1 by decide),
      writeOrg_eq some, getFreeLen_push, push_push]
    by_cases fits : 1 + value.length ≤ stream.getFreeLen
    · rw [if_pos fits, if_pos (by rw [length_singleton]; omega)]
      rfl
    · rw [if_neg fits, if_neg (by rw [length_singleton]; omega)]
  · rw [if_neg room, if_neg room, if_pos rfl, if_neg (by omega)]

theorem writeStream_eq (data : List Byte) :
    stream.writeStream data =
      if 0 < stream.getFreeLen ∧ data.length ≤ stream.getFreeLen then
        (0, stream.push data)
      else (-1, stream) := by
  unfold writeStream
  by_cases full : stream.capacity ≤ stream.bytes.length
  · have none : ¬ 0 < stream.getFreeLen := by
      rw [getFreeLen]
      omega
    rw [if_pos full, if_neg (fun both => none both.1)]
  · have room : 0 < stream.getFreeLen := by
      rw [getFreeLen]
      omega
    rw [if_neg full]
    by_cases fits : data.length ≤ stream.getFreeLen
    · rw [if_neg (Nat.not_lt_of_le fits), if_pos ⟨room, fits⟩]
      rfl
    · rw [if_pos (Nat.lt_of_not_le fits), if_neg (fun both => fits both.2)]

theorem writeCounted_eq (data close : List Byte) :
    (if data.length + 2 + close.length ≤ stream.getFreeLen then
        ((0 : Int), { (stream.writeOrg (toNetstream 2 data.length)).2 with
          bytes := (stream.writeOrg (toNetstream 2 data.length)).2.bytes ++
            data ++ close })
      else (-1, stream)) =
      stream.writeOrg (toNetstream 2 data.length ++ data ++ close) := by
  have counted : toNetstream 2 data.length ≠ [] := cons_ne_nil _ _
  have whole : toNetstream 2 data.length ++ data ++ close ≠ [] :=
    cons_ne_nil _ _
  have length : (toNetstream 2 data.length ++ data ++ close).length =
      data.length + 2 + close.length := by
    rw [length_append, length_append, length_toNetstream]
    omega
  rw [writeOrg_eq whole, writeOrg_eq counted, length, length_toNetstream]
  by_cases fits : data.length + 2 + close.length ≤ stream.getFreeLen
  · rw [if_pos fits, if_pos fits, if_pos (by omega)]
    simp only [push, append_assoc]
  · rw [if_neg fits, if_neg fits]

theorem writeText_eq (chars : List Byte) :
    stream.writeText chars =
      if cString chars = [] then stream.writeMarker .text 0
      else
        stream.writeMarked .text 1 (toNetstream 2 (cString chars).length ++
          cString chars ++ [0x7f]) := by
  have full : stream.capacity ≤ stream.bytes.length ↔
      ¬ 0 < stream.getFreeLen := by
    rw [getFreeLen]
    omega
  have marker (size : Nat) := @writeMarker_eq stream .text size
  unfold writeText
  by_cases room : 0 < stream.getFreeLen
  · rw [if_neg (fun none => full.mp none room)]
    by_cases empty : cString chars = []
    · rw [if_pos empty, if_pos empty, marker, if_pos room]
      rfl
    · rw [if_neg empty, if_neg empty, writeMarked]
      by_cases failed : (stream.writeMarker .text 1).1 = -1
      · rw [if_pos failed, if_pos failed]
      · rw [if_neg failed, if_neg failed]
        exact writeCounted_eq (cString chars) [0x7f]
  · rw [if_pos (full.mpr room), writeMarked, marker, marker, if_neg room,
      if_neg room]
    split <;> rfl

theorem writeBin_eq (data : List Byte) :
    stream.writeBin data =
      if stream.getFreeLen ≤ data.length then (-1, stream)
      else if data = [] then stream.writeMarker .bin 0
      else
        stream.writeMarked .bin 1
          (toNetstream 2 data.length ++ data ++ []) := by
  have marker (size : Nat) := @writeMarker_eq stream .bin size
  unfold writeBin
  by_cases refused : stream.getFreeLen ≤ data.length
  · rw [if_pos (.inr refused), if_pos refused]
  have room : 0 < stream.getFreeLen := by omega
  have roomy : ¬ (stream.capacity ≤ stream.bytes.length ∨
      stream.getFreeLen ≤ data.length) := by
    rw [not_or]
    refine ⟨fun full => ?_, refused⟩
    rw [getFreeLen] at room
    omega
  rw [if_neg roomy, if_neg refused]
  by_cases empty : data = []
  · rw [if_pos (by rw [empty]; rfl), if_pos empty, marker, if_pos room]
    rfl
  have some : ¬ data.length = 0 := fun none =>
    empty (length_eq_zero_iff.mp none)
  have counted := @writeCounted_eq (stream.writeMarker .bin 1).2 data []
  rw [if_neg some, if_neg empty, writeMarked]
  by_cases failed : (stream.writeMarker .bin 1).1 = -1
  · rw [if_pos failed, if_pos failed]
  · rw [if_neg failed, if_neg failed, ← counted]
    simp

theorem writeStream_eq_writeOrg {data : List Byte} (some : data ≠ []) :
    stream.writeStream data = stream.writeOrg data := by
  have positive : 0 < data.length := length_pos_iff.mpr some
  rw [writeStream_eq, writeOrg_eq some]
  exact if_congr ⟨fun both => both.2, fun fits => ⟨by omega, fits⟩⟩ rfl rfl

theorem writeIp_eq (a : NdIp) :
    stream.writeIp a =
      stream.writeMarked (if a.inet then .ip else .ip6)
        (if a.inet then 4 else 15) a.address := by
  have length := a.address_length
  have some : a.address ≠ [] := by
    rw [← length_pos_iff, length, NdIp.size]
    split <;> decide
  unfold writeIp writeMarked
  cases inet : a.inet with
  | true =>
    have address : a.ip6.take 4 = a.address := by
      rw [NdIp.address, NdIp.size, inet]
      rfl
    simp only [address, writeStream_eq_writeOrg some, if_true]
  | false =>
    have address : a.ip6 = a.address := by
      rw [NdIp.address, NdIp.size, inet]
      exact (take_of_length_le (Nat.le_of_eq a.wide)).symm
    dsimp only
    rw [if_neg Bool.false_ne_true, address, writeStream_eq_writeOrg some]
    rfl

/-- A field that has room is written; of one that has none its first byte is
written, if there is more room than was checked for. -/
def outcome (stream : ProtoWriteStream) (checked : Nat) (field : List Byte) :
    Int × ProtoWriteStream :=
  if 0 < stream.getFreeLen ∧ field.length ≤ stream.getFreeLen then
    (0, stream.push field)
  else if checked < stream.getFreeLen then (-1, stream.push (field.take 1))
  else (-1, stream)

section

variable (marker : StreamMarker)

theorem writeMarker_outcome (size : Nat) :
    stream.writeMarker marker size =
      stream.outcome 0 [markerByte marker size] := by
  rw [writeMarker_eq]
  unfold outcome
  by_cases room : 0 < stream.getFreeLen
  · rw [if_pos room, if_pos ⟨room, room⟩]
  · rw [if_neg room, if_neg (fun both => room both.1), if_neg room]

theorem writeMarked_outcome (size : Nat) {value : List Byte} (some : value ≠ [])
    :
    stream.writeMarked marker size value =
      stream.outcome 0 (markerByte marker size :: value) := by
  rw [writeMarked_eq marker size some]
  refine if_congr ?_ rfl rfl
  rw [length_cons]
  omega

theorem writeInt_outcome {sizes : List Nat} (value : Nat)
    (usable : ∀ size ∈ sizes, 0 < size) (tried : sizes ≠ []) :
    writeInt marker sizes stream value =
      stream.outcome 0 (encodeInt marker sizes value) := by
  unfold writeInt encodeInt
  by_cases zero : value = 0
  · rw [if_pos zero, if_pos zero]
    exact writeMarker_outcome marker 0
  · have positive := usable _ (ProtoReadStream.sizeFor_mem value tried)
    have some : toNetstream (sizeFor value sizes) value ≠ [] := by
      rw [← length_pos_iff, length_toNetstream]
      exact positive
    rw [if_neg zero, if_neg zero]
    exact writeMarked_outcome marker _ some

theorem writeFloating_outcome {width : Nat} (wide : 0 < width) (zero : Bool)
    (value : Nat) :
    (if zero then stream.writeMarker marker 0
      else stream.writeMarked marker width (toHost width value)) =
      stream.outcome 0 (if zero then [markerByte marker 0]
        else markerByte marker width :: toHost width value) := by
  cases zero with
  | true => exact writeMarker_outcome marker 0
  | false =>
    have some : toHost width value ≠ [] := by
      rw [← length_pos_iff, toHost_length]
      exact wide
    exact writeMarked_outcome marker width some

end

theorem writeText_outcome (chars : List Byte) :
    stream.writeText chars =
      stream.outcome 0 (WriteCall.text chars).encode := by
  rw [writeText_eq]
  by_cases empty : cString chars = []
  · have field : (WriteCall.text chars).encode = [markerByte .text 0] :=
      if_pos empty
    rw [if_pos empty, field]
    exact writeMarker_outcome .text 0
  · have field : (WriteCall.text chars).encode = markerByte .text 1 ::
        (toNetstream 2 (cString chars).length ++ cString chars ++ [0x7f]) :=
      if_neg empty
    rw [if_neg empty, field]
    exact writeMarked_outcome .text 1 (cons_ne_nil _ _)

theorem writeBin_outcome (data : List Byte) :
    stream.writeBin data =
      stream.outcome data.length (encodeBlock .bin data []) := by
  have longer : data.length < (encodeBlock .bin data []).length := by
    rw [encodeBlock]
    by_cases empty : data = []
    · rw [if_pos empty, empty]
      decide
    · rw [if_neg empty]
      simp only [length_append, length_cons, length_nil]
      omega
  rw [writeBin_eq]
  by_cases refused : stream.getFreeLen ≤ data.length
  · rw [if_pos refused, outcome, if_neg (fun both => by omega),
      if_neg (Nat.not_lt_of_le refused)]
  have room : 0 < stream.getFreeLen := by omega
  have checked (field : List Byte) :
      stream.outcome data.length field = stream.outcome 0 field := by
    unfold outcome
    rw [if_pos (Nat.lt_of_not_le refused), if_pos room]
  rw [if_neg refused, checked]
  by_cases empty : data = []
  · have field : encodeBlock .bin data [] = [markerByte .bin 0] :=
      if_pos empty
    rw [if_pos empty, field]
    exact writeMarker_outcome .bin 0
  · have field : encodeBlock .bin data [] = markerByte .bin 1 ::
        (toNetstream 2 data.length ++ data ++ []) := if_neg empty
    rw [if_neg empty, field]
    exact writeMarked_outcome .bin 1 (cons_ne_nil _ _)

theorem writeStream_outcome (data : List Byte) :
    stream.writeStream data = stream.outcome data.length data := by
  rw [writeStream_eq, outcome]
  by_cases fits : 0 < stream.getFreeLen ∧ data.length ≤ stream.getFreeLen
  · rw [if_pos fits, if_pos fits]
  · rw [if_neg fits, if_neg fits, if_neg (by omega)]

/-- What a call does: it writes the field, or only its first byte, or
nothing. -/
theorem perform_eq (call : WriteCall) :
    stream.perform call =
      if 0 < stream.getFreeLen ∧
          call.encode.length ≤ stream.getFreeLen then
        (0, stream.push call.encode)
      else if call.checked < stream.getFreeLen then
        (-1, stream.push (call.encode.take 1))
      else (-1, stream) := by
  cases call with
  | u8 a => exact writeInt_outcome .int8 _ (by decide) (by decide)
  | u16 a => exact writeInt_outcome .int16 _ (by decide) (by decide)
  | u32 a => exact writeInt_outcome .int32 _ (by decide) (by decide)
  | u64 a => exact writeInt_outcome .int64 _ (by decide) (by decide)
  | force16 a => exact writeMarked_outcome .int16 2 (cons_ne_nil _ _)
  | force32 a => exact writeMarked_outcome .int32 4 (cons_ne_nil _ _)
  | float a => exact writeFloating_outcome .float (by decide) _ _
  | double a => exact writeFloating_outcome .double (by decide) _ _
  | text chars => exact writeText_outcome chars
  | bin data => exact writeBin_outcome data
  | stream data => exact writeStream_outcome data
  | ip a =>
    have some : a.address ≠ [] := by
      rw [← length_pos_iff, a.address_length, NdIp.size]
      split <;> decide
    change stream.writeIp a = _
    rw [writeIp_eq]
    exact writeMarked_outcome _ _ some

end ProtoWriteStream

end NdNet
