import NdNet.Common.LineBuf

/-!
# The typed stream of `nd_protoStream.cpp`

`NDProtoWriteStream` puts a marker byte in front of every value: the type in
the high half, the number of bytes that follow in the low half.  Integers are
written in network order in as few bytes as they need; a text or a binary has a
16-bit length in front, and a text a closing byte `0x7f` behind.

A writer is described by the bytes it has written and the size of its buffer, a
reader by the bytes from `_op_addr` to `_end` and its three flags.
-/

namespace NdNet

/-- `enum eNDnetStreamMarker` -/
inductive StreamMarker where
  | undefine
  | int8
  | int16
  | int32
  | int64
  | float
  | double
  | text
  | bin
  | ip
  | ip6
  | cmdSkipStructMark
  | cmdEnableStructMark
  deriving DecidableEq, Repr

def StreamMarker.code : StreamMarker → Nat
  | undefine => 0
  | int8 => 1
  | int16 => 2
  | int32 => 3
  | int64 => 4
  | float => 5
  | double => 6
  | text => 7
  | bin => 8
  | ip => 9
  | ip6 => 10
  | cmdSkipStructMark => 11
  | cmdEnableStructMark => 12

def netStreamStructEndMark : Byte := 0xff

/-- The low `size` bytes of a number in network order, as `nd_netbyte.h` stores
them. -/
def toNetstream : Nat → Nat → List Byte
  | 0, _ => []
  | size + 1, value =>
    UInt8.ofNat (value / 256 ^ size) :: toNetstream size value

def fromNetstream (bytes : List Byte) : Nat :=
  bytes.foldl (fun value byte => 256 * value + byte.toNat) 0

def cString (memory : List Byte) : List Byte :=
  memory.takeWhile (· ≠ 0)

/-- `NDProtoWriteStream` on a buffer of `capacity` bytes. -/
structure ProtoWriteStream where
  capacity : Nat
  bytes : List Byte
  deriving DecidableEq, Repr

namespace ProtoWriteStream

def getFreeLen (stream : ProtoWriteStream) : Nat :=
  stream.capacity - stream.bytes.length

/-- `_WriteOrg` of the bytes of a value. -/
def writeOrg (stream : ProtoWriteStream) (value : List Byte) :
    Int × ProtoWriteStream :=
  if stream.bytes.length + value.length ≤ stream.capacity then
    (0, { stream with bytes := stream.bytes ++ value })
  else (-1, stream)

def writeMarker (stream : ProtoWriteStream) (marker : StreamMarker)
    (sizebytes : Nat) : Int × ProtoWriteStream :=
  stream.writeOrg [UInt8.ofNat (marker.code * 16 + sizebytes % 16)]

/-- The number of bytes an integer is written in: the first of the sizes that
holds it, the last one in any case. -/
def sizeFor (value : Nat) : List Nat → Nat
  | [] => 0
  | [size] => size
  | size :: sizes =>
    if value ≤ 256 ^ size - 1 then size else sizeFor value sizes

/-- The integer overloads of `Write`, which differ in the marker and in the
sizes they try. -/
def writeInt (marker : StreamMarker) (sizes : List Nat)
    (stream : ProtoWriteStream) (value : Nat) : Int × ProtoWriteStream :=
  if value = 0 then stream.writeMarker marker 0
  else
    let marked := stream.writeMarker marker (sizeFor value sizes)
    if marked.1 = -1 then (-1, marked.2)
    else marked.2.writeOrg (toNetstream (sizeFor value sizes) value)

/-- `Write(NDUINT8)` -/
def write8 (stream : ProtoWriteStream) (value : UInt8) :=
  writeInt .int8 [1] stream value.toNat

/-- `Write(NDUINT16)` -/
def write16 (stream : ProtoWriteStream) (value : UInt16) :=
  writeInt .int16 [1, 2] stream value.toNat

/-- `Write(NDUINT32)` -/
def write32 (stream : ProtoWriteStream) (value : UInt32) :=
  writeInt .int32 [1, 2, 4] stream value.toNat

/-- `Write(NDUINT64)` -/
def write64 (stream : ProtoWriteStream) (value : UInt64) :=
  writeInt .int64 [1, 2, 4, 8] stream value.toNat

/-- `Write(const NDUINT8 *text)` for a text that is not `NULL`. -/
def writeText (stream : ProtoWriteStream) (text : List Byte) :
    Int × ProtoWriteStream :=
  if stream.capacity ≤ stream.bytes.length then (-1, stream)
  else if cString text = [] then
    let marked := stream.writeMarker .text 0
    if marked.1 = -1 then (-1, marked.2) else (0, marked.2)
  else
    let marked := stream.writeMarker .text 1
    if marked.1 = -1 then (-1, marked.2)
    else
      let n := (cString text).length
      if n + 3 ≤ marked.2.getFreeLen then
        let counted := marked.2.writeOrg (toNetstream 2 n)
        (0, { counted.2 with
          bytes := counted.2.bytes ++ cString text ++ [0x7f] })
      else (-1, marked.2)

def writeBin (stream : ProtoWriteStream) (data : List Byte) :
    Int × ProtoWriteStream :=
  if stream.capacity ≤ stream.bytes.length ∨
      stream.getFreeLen ≤ data.length then (-1, stream)
  else if data.length = 0 then
    let marked := stream.writeMarker .bin 0
    if marked.1 = -1 then (-1, marked.2) else (0, marked.2)
  else
    let marked := stream.writeMarker .bin 1
    if marked.1 = -1 then (-1, marked.2)
    else if data.length + 2 ≤ marked.2.getFreeLen then
      let counted := marked.2.writeOrg (toNetstream 2 data.length)
      (0, { counted.2 with bytes := counted.2.bytes ++ data })
    else (-1, marked.2)

def skipStructEndMark (stream : ProtoWriteStream) : ProtoWriteStream :=
  (stream.writeMarker .cmdSkipStructMark 0).2

def enableStructEndMark (stream : ProtoWriteStream) : ProtoWriteStream :=
  (stream.writeMarker .cmdEnableStructMark 0).2

end ProtoWriteStream

/-- `NDProtoReadStream`; `left` is the data not read yet. -/
structure ProtoReadStream where
  left : List Byte
  struckEndMarker : Bool
  skipEndMarker : Bool
  skipEndAllStream : Bool
  deriving DecidableEq, Repr

namespace ProtoReadStream

def init (data : List Byte) : ProtoReadStream :=
  { left := data
    struckEndMarker := false
    skipEndMarker := false
    skipEndAllStream := false }

/-- `_ReadOrg` of `size` bytes: the result, the number read and the stream. -/
def readOrg (stream : ProtoReadStream) (size : Nat) :
    Int × Nat × ProtoReadStream :=
  if size ≤ stream.left.length then
    (0, fromNetstream (stream.left.take size),
      { stream with left := stream.left.drop size })
  else (-1, 0, stream)

/-- `_ReadTypeSize`: the result, the type, the size and the stream.  Commands
and end marks that are to be skipped are passed over. -/
def readTypeSize (stream : ProtoReadStream) :
    List Byte → Int × Nat × Nat × ProtoReadStream
  | [] => (-1, 0, 0, { stream with left := [] })
  | marker :: left =>
    if marker = netStreamStructEndMark then
      if stream.skipEndMarker || stream.skipEndAllStream then
        readTypeSize { stream with left := left } left
      else (0, 0, 0, { stream with left := left, struckEndMarker := true })
    else
      let type := marker.toNat / 16
      let size := marker.toNat % 16
      if type = StreamMarker.cmdSkipStructMark.code then
        readTypeSize { stream with left := left, skipEndMarker := true } left
      else if type = StreamMarker.cmdEnableStructMark.code then
        readTypeSize { stream with left := left, skipEndMarker := false } left
      else (0, type, size, { stream with left := left })

/-- What every `Read` starts with: the marker must be there, be of the type
asked for and not be the end of a structure. -/
def readMarker (stream : ProtoReadStream) (marker : StreamMarker) :
    Option Nat × ProtoReadStream :=
  let started := { stream with struckEndMarker := false }
  let result := started.readTypeSize started.left
  if result.1 = -1 ∨ result.2.2.2.struckEndMarker then (none, result.2.2.2)
  else if result.2.1 ≠ marker.code then (none, result.2.2.2)
  else (some result.2.2.1, result.2.2.2)

/-- The integer overloads of `Read`, which differ in the marker and in the
sizes they accept. -/
def readInt (marker : StreamMarker) (sizes : List Nat)
    (stream : ProtoReadStream) : Int × Nat × ProtoReadStream :=
  match stream.readMarker marker with
  | (none, after) => (-1, 0, after)
  | (some size, after) =>
    if size = 0 then (0, 0, after)
    else if size ∈ sizes then after.readOrg size
    else (-1, 0, after)

/-- `Read(NDUINT8 &)` -/
def read8 := readInt .int8 [1]

/-- `Read(NDUINT16 &)` -/
def read16 := readInt .int16 [1, 2]

/-- `Read(NDUINT32 &)` -/
def read32 := readInt .int32 [1, 2, 4]

/-- `Read(NDUINT64 &)` -/
def read64 := readInt .int64 [1, 2, 4, 8]

/-- `Read(NDUINT8 *, size_t)`: the length returned, the text and the stream. -/
def readText (stream : ProtoReadStream) (sizeBuf : Nat) :
    Nat × List Byte × ProtoReadStream :=
  match stream.readMarker .text with
  | (none, after) => (0, [], after)
  | (some size, after) =>
    if size = 0 then (0, [], after)
    else
      let counted := after.readOrg 2
      let dataSize := counted.2.1
      if counted.1 = -1 ∨ dataSize = 0 then (0, [], counted.2.2)
      else if dataSize < counted.2.2.left.length then
        if counted.2.2.left.getD dataSize 0 = 0x7f ∧ dataSize < sizeBuf then
          (dataSize, counted.2.2.left.take dataSize,
            { counted.2.2 with
              left := counted.2.2.left.drop (dataSize + 1) })
        else (0, [], counted.2.2)
      else (0, [], counted.2.2)

def readBin (stream : ProtoReadStream) (sizeBuf : Nat) :
    Nat × List Byte × ProtoReadStream :=
  match stream.readMarker .bin with
  | (none, after) => (0, [], after)
  | (some size, after) =>
    if size = 0 then (0, [], after)
    else
      let counted := after.readOrg 2
      let dataSize := counted.2.1
      if counted.1 = -1 ∨ dataSize = 0 then (0, [], counted.2.2)
      else if dataSize ≤ counted.2.2.left.length then
        if dataSize ≤ sizeBuf then
          (dataSize, counted.2.2.left.take dataSize,
            { counted.2.2 with left := counted.2.2.left.drop dataSize })
        else (0, [], counted.2.2)
      else (0, [], counted.2.2)

end ProtoReadStream

end NdNet
