import NdNet.App.ProtoStream
import Mathlib.Data.List.DropRight
import Mathlib.Data.List.Forall2
import Mathlib.Tactic.Ring

/-!
# Round trip of the typed stream

`encode` is what a successful write leaves in the stream.  The writers are
shown to append it, the readers to take it off again, and the two are joined by
an induction over the list of items.
-/

namespace NdNet

open List

/-- A text as the application passes it: no zero among its characters. -/
structure NulFree where
  chars : List Byte
  nulFree : 0 ∉ chars

/-- The kinds of values the round trip is about. -/
inductive ProtoValue where
  | u8 (value : UInt8)
  | u16 (value : UInt16)
  | u32 (value : UInt32)
  | u64 (value : UInt64)
  | text (text : NulFree)
  | bin (data : List Byte)

/-- A value, or one of the two commands that may stand between values. -/
inductive ProtoItem where
  | value (value : ProtoValue)
  | skipStructEndMark
  | enableStructEndMark

def ProtoItem.isCommand : ProtoItem → Bool
  | value _ => false
  | _ => true

def ProtoItem.value? : ProtoItem → Option ProtoValue
  | value written => some written
  | _ => none

namespace ProtoWriteStream

def writeItem (stream : ProtoWriteStream) : ProtoItem → Int × ProtoWriteStream
  | .value (.u8 value) => stream.write8 value
  | .value (.u16 value) => stream.write16 value
  | .value (.u32 value) => stream.write32 value
  | .value (.u64 value) => stream.write64 value
  | .value (.text text) => stream.writeText text.chars
  | .value (.bin data) => stream.writeBin data
  | .skipStructEndMark => (0, stream.skipStructEndMark)
  | .enableStructEndMark => (0, stream.enableStructEndMark)

def writeItems (stream : ProtoWriteStream) :
    List ProtoItem → Bool × ProtoWriteStream
  | [] => (true, stream)
  | item :: items =>
    let written := stream.writeItem item
    let later := writeItems written.2 items
    (decide (written.1 = 0) && later.1, later.2)

end ProtoWriteStream

namespace ProtoReadStream

/-- The read that matches a value, into a buffer of `sizeBuf` bytes where one
is needed: what it reports, the value and the stream. -/
def readLike (stream : ProtoReadStream) (sizeBuf : Nat) :
    ProtoValue → (Int × (Nat ⊕ List Byte)) × ProtoReadStream
  | .u8 _ => let read := stream.read8; ((read.1, .inl read.2.1), read.2.2)
  | .u16 _ => let read := stream.read16; ((read.1, .inl read.2.1), read.2.2)
  | .u32 _ => let read := stream.read32; ((read.1, .inl read.2.1), read.2.2)
  | .u64 _ => let read := stream.read64; ((read.1, .inl read.2.1), read.2.2)
  | .text _ =>
    let read := stream.readText sizeBuf
    ((read.1, .inr read.2.1), read.2.2)
  | .bin _ =>
    let read := stream.readBin sizeBuf
    ((read.1, .inr read.2.1), read.2.2)

def readValues (stream : ProtoReadStream) :
    List (ProtoValue × Nat) → List (Int × (Nat ⊕ List Byte)) × ProtoReadStream
  | [] => ([], stream)
  | (value, sizeBuf) :: values =>
    let read := stream.readLike sizeBuf value
    let later := readValues read.2 values
    (read.1 :: later.1, later.2)

end ProtoReadStream

/-- What a read reports for a value: success and the number, or the length and
the bytes. -/
def ProtoValue.reported : ProtoValue → Int × (Nat ⊕ List Byte)
  | u8 value => (0, .inl value.toNat)
  | u16 value => (0, .inl value.toNat)
  | u32 value => (0, .inl value.toNat)
  | u64 value => (0, .inl value.toNat)
  | text written => (written.chars.length, .inr written.chars)
  | bin data => (data.length, .inr data)

/-- A destination of `sizeBuf` bytes takes the value; a text needs one byte
more for its terminating zero. -/
def ProtoValue.Takes : ProtoValue → Nat → Prop
  | text written, sizeBuf => written.chars.length < sizeBuf
  | bin data, sizeBuf => data.length ≤ sizeBuf
  | _, _ => True

section Netstream

@[simp] theorem length_toNetstream (size value : Nat) :
    (toNetstream size value).length = size := by
  induction size with
  | zero => rfl
  | succ size induction => simp [toNetstream, induction]

private theorem foldl_toNetstream (size value start : Nat) :
    (toNetstream size value).foldl
        (fun number byte => 256 * number + byte.toNat) start =
      start * 256 ^ size + value % 256 ^ size := by
  induction size generalizing start with
  | zero => simp [toNetstream, Nat.mod_one]
  | succ size induction =>
    have digit : (UInt8.ofNat (value / 256 ^ size)).toNat =
        value / 256 ^ size % 256 := by simp
    have split : value % 256 ^ (size + 1) =
        value % 256 ^ size + 256 ^ size * (value / 256 ^ size % 256) := by
      exact Nat.mod_mul
    rw [toNetstream, foldl_cons, induction, digit, split, pow_succ]
    ring

theorem fromNetstream_mod (size value : Nat) :
    fromNetstream (toNetstream size value) = value % 256 ^ size := by
  rw [fromNetstream, foldl_toNetstream, Nat.zero_mul, Nat.zero_add]

theorem fromNetstream_toNetstream {size value : Nat} (fits : value < 256 ^ size)
    :
    fromNetstream (toNetstream size value) = value := by
  rw [fromNetstream_mod, Nat.mod_eq_of_lt fits]

end Netstream

def markerByte (marker : StreamMarker) (size : Nat) : Byte :=
  UInt8.ofNat (marker.code * 16 + size % 16)

def encodeInt (marker : StreamMarker) (sizes : List Nat) (value : Nat) :
    List Byte :=
  if value = 0 then [markerByte marker 0]
  else
    markerByte marker (ProtoWriteStream.sizeFor value sizes) ::
      toNetstream (ProtoWriteStream.sizeFor value sizes) value

/-- The bytes a text or a binary is written as, up to `close`. -/
def encodeBlock (marker : StreamMarker) (data close : List Byte) : List Byte :=
  if data = [] then [markerByte marker 0]
  else
    markerByte marker 1 :: toNetstream 2 data.length ++ data ++ close

def ProtoValue.encode : ProtoValue → List Byte
  | u8 value => encodeInt .int8 [1] value.toNat
  | u16 value => encodeInt .int16 [1, 2] value.toNat
  | u32 value => encodeInt .int32 [1, 2, 4] value.toNat
  | u64 value => encodeInt .int64 [1, 2, 4, 8] value.toNat
  | text written => encodeBlock .text written.chars [0x7f]
  | bin data => encodeBlock .bin data []

def ProtoItem.encode : ProtoItem → List Byte
  | value written => written.encode
  | skipStructEndMark => [markerByte .cmdSkipStructMark 0]
  | enableStructEndMark => [markerByte .cmdEnableStructMark 0]

variable {sizes : List Nat} {marker : StreamMarker} {data : List Byte}

namespace ProtoWriteStream

/-- The stream has grown by `more` inside its buffer. -/
structure Grows (stream after : ProtoWriteStream) (more : List Byte) :
    Prop where
  capacity : after.capacity = stream.capacity
  bytes : after.bytes = stream.bytes ++ more
  inside : after.bytes.length ≤ after.capacity

section Writers

variable {stream middle after : ProtoWriteStream} {front more : List Byte}

theorem Grows.trans (first : Grows stream middle front)
    (second : Grows middle after more) : Grows stream after (front ++ more) :=
  { capacity := second.capacity.trans first.capacity
    bytes := by rw [second.bytes, first.bytes, append_assoc]
    inside := second.inside }

theorem writeOrg_grows {value : List Byte}
    (success : (stream.writeOrg value).1 = 0) :
    Grows stream (stream.writeOrg value).2 value := by
  unfold writeOrg at success ⊢
  split at success
  · rename_i fits
    rw [if_pos fits]
    exact ⟨rfl, rfl, by simpa using fits⟩
  · cases success

theorem writeOrg_result (stream : ProtoWriteStream) (value : List Byte) :
    (stream.writeOrg value).1 = 0 ∨ (stream.writeOrg value).1 = -1 := by
  unfold writeOrg
  split
  · exact .inl rfl
  · exact .inr rfl

theorem writeInt_grows {value : Nat}
    (success : (writeInt marker sizes stream value).1 = 0) :
    Grows stream (writeInt marker sizes stream value).2
      (encodeInt marker sizes value) := by
  unfold writeInt encodeInt at *
  by_cases zero : value = 0
  · rw [if_pos zero] at success ⊢
    rw [if_pos zero]
    exact writeOrg_grows success
  · rw [if_neg zero] at success ⊢
    rw [if_neg zero]
    rcases writeOrg_result stream
      [markerByte marker (sizeFor value sizes)] with fine | failed
    · have marked : (stream.writeMarker marker (sizeFor value sizes)).1 = 0 :=
        fine
      rw [if_neg (by rw [marked]; decide)] at success ⊢
      exact (writeOrg_grows fine).trans (writeOrg_grows success)
    · have marked : (stream.writeMarker marker (sizeFor value sizes)).1 = -1 :=
        failed
      rw [if_pos marked] at success
      cases success

theorem writeMarker_result (stream : ProtoWriteStream) (marker : StreamMarker)
    (size : Nat) :
    Grows stream (stream.writeMarker marker size).2 [markerByte marker size] ∧
        (stream.writeMarker marker size).1 = 0 ∨
      (stream.writeMarker marker size).1 = -1 := by
  rcases writeOrg_result stream [markerByte marker size] with fine | failed
  · exact .inl ⟨writeOrg_grows fine, fine⟩
  · exact .inr failed

theorem writeBlock_grows (data close : List Byte)
    (room : data.length + 2 + close.length ≤ stream.getFreeLen) :
    Grows stream
      { (stream.writeOrg (toNetstream 2 data.length)).2 with
        bytes := (stream.writeOrg (toNetstream 2 data.length)).2.bytes ++
          data ++ close }
      (toNetstream 2 data.length ++ data ++ close) := by
  have fits : stream.bytes.length + (toNetstream 2 data.length).length ≤
      stream.capacity := by
    rw [getFreeLen] at room
    rw [length_toNetstream]
    omega
  rw [writeOrg, if_pos fits]
  refine ⟨rfl, by simp, ?_⟩
  rw [getFreeLen] at room
  simp only [length_append, length_toNetstream]
  omega

theorem writeText_grows {text : NulFree}
    (success : (stream.writeText text.chars).1 = 0) :
    Grows stream (stream.writeText text.chars).2
      (encodeBlock .text text.chars [0x7f]) := by
  have chars : cString text.chars = text.chars := by
    apply takeWhile_eq_self_iff.mpr
    intro char member
    have : char ≠ 0 := fun zero => text.nulFree (zero ▸ member)
    simpa using this
  unfold writeText encodeBlock at *
  rw [chars] at success ⊢
  by_cases full : stream.capacity ≤ stream.bytes.length
  · rw [if_pos full] at success
    cases success
  rw [if_neg full] at success ⊢
  by_cases empty : text.chars = []
  · rw [if_pos empty] at success ⊢
    rw [if_pos empty]
    rcases writeMarker_result stream .text 0 with ⟨grown, fine⟩ | failed
    · rw [if_neg (by rw [fine]; decide)]
      exact grown
    · rw [if_pos failed] at success
      cases success
  rw [if_neg empty] at success ⊢
  rw [if_neg empty]
  rcases writeMarker_result stream .text 1 with ⟨grown, fine⟩ | failed
  · rw [if_neg (by rw [fine]; decide)] at success ⊢
    by_cases room : text.chars.length + 3 ≤
        (stream.writeMarker .text 1).2.getFreeLen
    · rw [if_pos room]
      have block := grown.trans
        (writeBlock_grows text.chars [0x7f] room)
      simpa using block
    · rw [if_neg room] at success
      cases success
  · rw [if_pos failed] at success
    cases success

theorem writeBin_grows (success : (stream.writeBin data).1 = 0) :
    Grows stream (stream.writeBin data).2 (encodeBlock .bin data []) := by
  unfold writeBin encodeBlock at *
  by_cases full : stream.capacity ≤ stream.bytes.length ∨
      stream.getFreeLen ≤ data.length
  · rw [if_pos full] at success
    cases success
  rw [if_neg full] at success ⊢
  by_cases empty : data.length = 0
  · rw [if_pos empty] at success ⊢
    rw [if_pos (length_eq_zero_iff.mp empty)]
    rcases writeMarker_result stream .bin 0 with ⟨grown, fine⟩ | failed
    · rw [if_neg (by rw [fine]; decide)]
      exact grown
    · rw [if_pos failed] at success
      cases success
  rw [if_neg empty] at success ⊢
  rw [if_neg (fun none => empty (length_eq_zero_iff.mpr none))]
  rcases writeMarker_result stream .bin 1 with ⟨grown, fine⟩ | failed
  · rw [if_neg (by rw [fine]; decide)] at success ⊢
    by_cases room : data.length + 2 ≤ (stream.writeMarker .bin 1).2.getFreeLen
    · rw [if_pos room]
      have block := grown.trans
        (writeBlock_grows data [] room)
      simpa using block
    · rw [if_neg room] at success
      cases success
  · rw [if_pos failed] at success
    cases success

theorem writeItem_grows {value : ProtoValue}
    (success : (stream.writeItem (.value value)).1 = 0) :
    Grows stream (stream.writeItem (.value value)).2 value.encode := by
  cases value with
  | u8 value | u16 value | u32 value | u64 value => exact writeInt_grows success
  | text text => exact writeText_grows success
  | bin data => exact writeBin_grows success

end Writers

end ProtoWriteStream

variable {item : ProtoItem}

namespace ProtoReadStream

section Readers

variable {stream : ProtoReadStream} {tail : List Byte}

theorem toNat_markerByte (marker : StreamMarker) (size : Nat) :
    (markerByte marker size).toNat = marker.code * 16 + size % 16 := by
  have small : marker.code ≤ 12 := by cases marker <;> decide
  rw [markerByte, UInt8.toNat_ofNat']
  omega

theorem markerByte_ne_end (marker : StreamMarker) (size : Nat) :
    markerByte marker size ≠ netStreamStructEndMark := by
  have small : marker.code ≤ 12 := by cases marker <;> decide
  intro same
  have value := congrArg UInt8.toNat same
  rw [toNat_markerByte] at value
  have mark : netStreamStructEndMark.toNat = 255 := rfl
  omega

theorem readMarker_marker (stream : ProtoReadStream) {size : Nat}
    (plain : marker.code < 11) (small : size < 16) :
    readMarker { stream with left := markerByte marker size :: tail } marker =
      (some size, { stream with left := tail, struckEndMarker := false }) := by
  have byte := toNat_markerByte marker size
  have type : (markerByte marker size).toNat / 16 = marker.code := by omega
  have count : (markerByte marker size).toNat % 16 = size := by omega
  have noSkip : ¬ marker.code = StreamMarker.cmdSkipStructMark.code :=
    Nat.ne_of_lt plain
  have noEnable : ¬ marker.code = StreamMarker.cmdEnableStructMark.code :=
    Nat.ne_of_lt (Nat.lt_succ_of_lt plain)
  simp only [readMarker, readTypeSize, if_neg (markerByte_ne_end marker size),
    type, count, if_neg noSkip, if_neg noEnable]
  simp

theorem readMarker_command (stream : ProtoReadStream)
    (command : item.isCommand = true) (marker : StreamMarker) (tail : List Byte)
    :
    ∃ skip, readMarker { stream with left := item.encode ++ tail } marker =
      readMarker { stream with left := tail, skipEndMarker := skip } marker := by
  have skips : (markerByte .cmdSkipStructMark 0).toNat / 16 =
      StreamMarker.cmdSkipStructMark.code := by decide
  have enables : (markerByte .cmdEnableStructMark 0).toNat / 16 =
      StreamMarker.cmdEnableStructMark.code := by decide
  have differ : ¬ StreamMarker.cmdEnableStructMark.code =
      StreamMarker.cmdSkipStructMark.code := by decide
  cases item with
  | value value => cases command
  | skipStructEndMark =>
    refine ⟨true, ?_⟩
    simp only [readMarker, ProtoItem.encode, singleton_append,
      readTypeSize, if_neg (markerByte_ne_end _ _), skips, if_true]
  | enableStructEndMark =>
    refine ⟨false, ?_⟩
    simp only [readMarker, ProtoItem.encode, singleton_append,
      readTypeSize, if_neg (markerByte_ne_end _ _), enables, if_neg differ,
      if_true]

theorem readOrg_append (stream : ProtoReadStream) {front : List Byte}
    (tail : List Byte) {size : Nat} (length : front.length = size) :
    readOrg { stream with left := front ++ tail } size =
      (0, fromNetstream front, { stream with left := tail }) := by
  subst length
  rw [readOrg, if_pos (by simp)]
  simp

theorem sizeFor_mem (value : Nat) (some : sizes ≠ []) :
    ProtoWriteStream.sizeFor value sizes ∈ sizes := by
  fun_induction ProtoWriteStream.sizeFor value sizes with
  | case1 => exact absurd rfl some
  | case2 size | case3 size sizes more fits => simp
  | case4 size sizes more above induction =>
    exact mem_cons_of_mem _ (induction more)

theorem lt_pow_sizeFor {value : Nat} (some : sizes ≠ [])
    (fits : value < 256 ^ sizes.getLast some) :
    value < 256 ^ ProtoWriteStream.sizeFor value sizes := by
  fun_induction ProtoWriteStream.sizeFor value sizes with
  | case1 => exact absurd rfl some
  | case2 size => simpa using fits
  | case3 size sizes more below =>
    have positive : 0 < 256 ^ size := Nat.pow_pos (by decide)
    omega
  | case4 size sizes more above induction =>
    exact induction more (by simpa [getLast_cons more] using fits)

variable (stream : ProtoReadStream)

theorem readInt_encode {value : Nat} (plain : marker.code < 11)
    (some : sizes ≠ []) (usable : ∀ size ∈ sizes, 0 < size ∧ size < 16)
    (fits : value < 256 ^ sizes.getLast some) :
    readInt marker sizes
        { stream with left := encodeInt marker sizes value ++ tail } =
      (0, value, { stream with left := tail, struckEndMarker := false }) := by
  by_cases zero : value = 0
  · rw [encodeInt, if_pos zero, singleton_append, readInt,
      readMarker_marker stream plain (by decide), zero]
    rfl
  · have member := sizeFor_mem value some
    obtain ⟨positive, small⟩ := usable _ member
    rw [encodeInt, if_neg zero, cons_append, readInt,
      readMarker_marker stream plain small]
    simp only [if_neg (Nat.ne_of_gt positive), if_pos member]
    have taken := readOrg_append
      { stream with struckEndMarker := false } tail
      (length_toNetstream (ProtoWriteStream.sizeFor value sizes) value)
    rw [fromNetstream_toNetstream (lt_pow_sizeFor some fits)] at taken
    exact taken

theorem readOrg_length (small : data.length < 65536) (tail : List Byte) :
    readOrg { stream with left := toNetstream 2 data.length ++ tail } 2 =
      (0, data.length, { stream with left := tail }) := by
  have counted := readOrg_append stream tail (length_toNetstream 2 data.length)
  rwa [fromNetstream_toNetstream small] at counted

theorem readText_encode {chars : List Byte} (small : chars.length < 65536)
    {sizeBuf : Nat} (room : chars.length < sizeBuf) :
    readText
        { stream with left := encodeBlock .text chars [0x7f] ++ tail }
        sizeBuf =
      (chars.length, chars,
        { stream with left := tail, struckEndMarker := false }) := by
  by_cases empty : chars = []
  · rw [encodeBlock, if_pos empty, singleton_append, readText,
      readMarker_marker stream (by decide) (by decide), empty]
    rfl
  · have positive : chars.length ≠ 0 :=
      fun none => empty (length_eq_zero_iff.mp none)
    have counted := readOrg_length { stream with struckEndMarker := false }
      small (chars ++ [0x7f] ++ tail)
    rw [encodeBlock, if_neg empty, cons_append, cons_append,
      cons_append, readText,
      readMarker_marker stream (by decide) (by decide)]
    simp only [append_assoc] at counted ⊢
    rw [if_neg (by decide)]
    simp only [counted]
    rw [if_neg (by simpa using positive), if_pos (by simp), if_pos]
    · simp
    · refine ⟨?_, room⟩
      simp [getD_eq_getElem?_getD]

theorem readBin_encode (small : data.length < 65536) {sizeBuf : Nat}
    (room : data.length ≤ sizeBuf) :
    readBin { stream with left := encodeBlock .bin data [] ++ tail } sizeBuf =
      (data.length, data,
        { stream with left := tail, struckEndMarker := false }) := by
  by_cases empty : data = []
  · rw [encodeBlock, if_pos empty, singleton_append, readBin,
      readMarker_marker stream (by decide) (by decide), empty]
    rfl
  · have positive : data.length ≠ 0 :=
      fun none => empty (length_eq_zero_iff.mp none)
    have counted := readOrg_length { stream with struckEndMarker := false }
      small (data ++ tail)
    rw [encodeBlock, if_neg empty, append_nil, cons_append,
      cons_append, readBin,
      readMarker_marker stream (by decide) (by decide)]
    simp only [append_assoc]
    rw [if_neg (by decide)]
    simp only [counted]
    rw [if_neg (by simpa using positive), if_pos (by simp), if_pos room]
    simp

theorem readLike_encode {value : ProtoValue} {sizeBuf : Nat}
    (takes : value.Takes sizeBuf) (short : value.encode.length ≤ 65536)
    (tail : List Byte) :
    readLike { stream with left := value.encode ++ tail } sizeBuf value =
      (value.reported,
        { stream with left := tail, struckEndMarker := false }) := by
  cases value with
  | u8 value =>
    simp only [readLike, read8, ProtoValue.encode]
    rw [readInt_encode stream (by decide) (by simp) (by simp)
      (by simpa using value.toNat_lt)]
    rfl
  | u16 value =>
    simp only [readLike, read16, ProtoValue.encode]
    rw [readInt_encode stream (by decide) (by simp) (by simp)
      (by simpa using value.toNat_lt)]
    rfl
  | u32 value =>
    simp only [readLike, read32, ProtoValue.encode]
    rw [readInt_encode stream (by decide) (by simp) (by simp)
      (by simpa using value.toNat_lt)]
    rfl
  | u64 value =>
    simp only [readLike, read64, ProtoValue.encode]
    rw [readInt_encode stream (by decide) (by simp) (by simp)
      (by simpa using value.toNat_lt)]
    rfl
  | text text =>
    have small : text.chars.length < 65536 := by
      simp only [ProtoValue.encode, encodeBlock] at short
      split at short
      · rename_i empty
        simp [empty]
      · simp at short
        omega
    simp only [readLike, ProtoValue.encode]
    rw [readText_encode stream small takes]
    rfl
  | bin data =>
    have small : data.length < 65536 := by
      simp only [ProtoValue.encode, encodeBlock] at short
      split at short
      · rename_i empty
        simp [empty]
      · simp at short
        omega
    simp only [readLike, ProtoValue.encode]
    rw [readBin_encode stream small takes]
    rfl

theorem readLike_command (command : item.isCommand = true) (sizeBuf : Nat)
    (value : ProtoValue) (tail : List Byte) :
    ∃ skip,
      readLike { stream with left := item.encode ++ tail } sizeBuf value =
        readLike { stream with left := tail, skipEndMarker := skip } sizeBuf
          value := by
  have flag (marker : StreamMarker) :=
    readMarker_command stream command marker tail
  cases value with
  | u8 value =>
    obtain ⟨skip, same⟩ := flag .int8
    exact ⟨skip, by simp only [readLike, read8, readInt, same]⟩
  | u16 value =>
    obtain ⟨skip, same⟩ := flag .int16
    exact ⟨skip, by simp only [readLike, read16, readInt, same]⟩
  | u32 value =>
    obtain ⟨skip, same⟩ := flag .int32
    exact ⟨skip, by simp only [readLike, read32, readInt, same]⟩
  | u64 value =>
    obtain ⟨skip, same⟩ := flag .int64
    exact ⟨skip, by simp only [readLike, read64, readInt, same]⟩
  | text text =>
    obtain ⟨skip, same⟩ := flag .text
    exact ⟨skip, by simp only [readLike, readText, same]⟩
  | bin data =>
    obtain ⟨skip, same⟩ := flag .bin
    exact ⟨skip, by simp only [readLike, readBin, same]⟩

end Readers

end ProtoReadStream

theorem encodeInt_cons (marker : StreamMarker) (value : Nat) (some : sizes ≠ [])
    (small : ∀ size ∈ sizes, size < 16) :
    ∃ size payload, size < 16 ∧
      encodeInt marker sizes value = markerByte marker size :: payload := by
  rw [encodeInt]
  split
  · exact ⟨0, [], by decide, rfl⟩
  · exact ⟨_, _, small _ (ProtoReadStream.sizeFor_mem value some), rfl⟩

theorem encodeBlock_cons (marker : StreamMarker) (data close : List Byte) :
    ∃ size payload, size < 16 ∧
      encodeBlock marker data close = markerByte marker size :: payload := by
  rw [encodeBlock]
  split
  · exact ⟨0, [], by decide, rfl⟩
  · exact ⟨1, _, by decide, rfl⟩

def protoValues (items : List ProtoItem) : List ProtoValue :=
  items.filterMap ProtoItem.value?

def throughLastValue : List ProtoItem → List ProtoItem
  | [] => []
  | item :: items =>
    if (item :: items).all ProtoItem.isCommand then []
    else item :: throughLastValue items

def encodeItems (items : List ProtoItem) : List Byte :=
  (items.map ProtoItem.encode).flatten

theorem encodeItems_cons (item : ProtoItem) (items : List ProtoItem) :
    encodeItems (item :: items) = item.encode ++ encodeItems items :=
  rfl

theorem protoValues_commands {items : List ProtoItem}
    (commands : items.all ProtoItem.isCommand = true) :
    protoValues items = [] := by
  rw [protoValues, filterMap_eq_nil_iff]
  intro item member
  have command := all_eq_true.mp commands item member
  cases item with
  | value value => cases command
  | skipStructEndMark | enableStructEndMark => rfl

theorem protoValues_ne_nil {items : List ProtoItem}
    (some : ¬ items.all ProtoItem.isCommand = true) :
    protoValues items ≠ [] := by
  intro none
  apply some
  rw [all_eq_true]
  intro item member
  have nothing := filterMap_eq_nil_iff.mp none item member
  cases item with
  | value value => cases nothing
  | skipStructEndMark | enableStructEndMark => rfl

namespace ProtoReadStream

theorem readValues_command (stream : ProtoReadStream)
    (command : item.isCommand = true) {values : List (ProtoValue × Nat)}
    (some : values ≠ []) (tail : List Byte) :
    ∃ skip,
      readValues { stream with left := item.encode ++ tail } values =
        readValues { stream with left := tail, skipEndMarker := skip }
          values := by
  cases values with
  | nil => exact absurd rfl some
  | cons pair values =>
    obtain ⟨skip, same⟩ := readLike_command stream command pair.2 pair.1 tail
    exact ⟨skip, by simp only [readValues, same]⟩

theorem readValues_encode (items : List ProtoItem) {buffers : List Nat}
    (takes : List.Forall₂ ProtoValue.Takes (protoValues items) buffers)
    (short : (encodeItems (throughLastValue items)).length ≤ 65536)
    (tail : List Byte) (stream : ProtoReadStream) :
    (readValues
        { stream with left := encodeItems (throughLastValue items) ++ tail }
        ((protoValues items).zip buffers)).1 =
      (protoValues items).map ProtoValue.reported ∧
    (readValues
        { stream with left := encodeItems (throughLastValue items) ++ tail }
        ((protoValues items).zip buffers)).2.left = tail := by
  induction items generalizing buffers stream with
  | nil => exact ⟨rfl, rfl⟩
  | cons item items induction =>
    by_cases commands : (item :: items).all ProtoItem.isCommand = true
    · rw [throughLastValue, if_pos commands, protoValues_commands commands]
      exact ⟨rfl, rfl⟩
    rw [throughLastValue, if_neg commands, encodeItems_cons] at short ⊢
    rw [length_append] at short
    rw [append_assoc]
    cases kind : item.isCommand with
    | true =>
      have values : protoValues (item :: items) = protoValues items := by
        cases item with
        | value value => cases kind
        | skipStructEndMark | enableStructEndMark => rfl
      have some : protoValues items ≠ [] := by
        apply protoValues_ne_nil
        simpa [kind] using commands
      rw [values] at takes ⊢
      have pairs : (protoValues items).zip buffers ≠ [] := by
        intro empty
        rcases zip_eq_nil_iff.mp empty with none | none
        · exact some none
        · have equal := takes.length_eq
          rw [none, length_nil, length_eq_zero_iff] at equal
          exact some equal
      obtain ⟨skip, same⟩ := readValues_command stream kind pairs
        (encodeItems (throughLastValue items) ++ tail)
      rw [same]
      exact induction takes (by omega)
        { stream with skipEndMarker := skip }
    | false =>
      cases item with
      | value value =>
        have values : protoValues (.value value :: items) =
            value :: protoValues items := rfl
        rw [values] at takes ⊢
        cases takes with
        | cons first rest =>
          have whole : value.encode.length ≤ 65536 :=
            Nat.le_trans (Nat.le_add_right _ _) short
          have read := readLike_encode stream first whole
            (encodeItems (throughLastValue items) ++ tail)
          obtain ⟨reported, position⟩ := induction rest (by omega)
            { stream with struckEndMarker := false }
          simp only [zip_cons_cons, readValues, ProtoItem.encode,
            read, map_cons]
          exact ⟨by rw [reported], position⟩
      | skipStructEndMark | enableStructEndMark => cases kind

end ProtoReadStream

namespace ProtoWriteStream

variable {stream : ProtoWriteStream} {items : List ProtoItem}

theorem writeItem_full (full : stream.capacity ≤ stream.bytes.length)
    (value : ProtoValue) : (stream.writeItem (.value value)).1 ≠ 0 := by
  intro success
  have grown := writeItem_grows success
  have some : 0 < value.encode.length := by
    cases value <;>
      simp only [ProtoValue.encode, encodeInt, encodeBlock] <;> split <;> simp
  have inside := grown.inside
  rw [grown.bytes, grown.capacity, length_append] at inside
  omega

theorem writeItem_command (stream : ProtoWriteStream)
    (command : item.isCommand = true) :
    Grows stream (stream.writeItem item).2 item.encode ∨
      (stream.writeItem item).2 = stream ∧
        stream.capacity ≤ stream.bytes.length := by
  have written (byte : Byte) : Grows stream (stream.writeOrg [byte]).2 [byte] ∨
      (stream.writeOrg [byte]).2 = stream ∧
        stream.capacity ≤ stream.bytes.length := by
    rcases writeOrg_result stream [byte] with fine | failed
    · exact .inl (writeOrg_grows fine)
    right
    unfold writeOrg at failed ⊢
    split at failed
    · cases failed
    · rename_i full
      rw [if_neg full]
      refine ⟨rfl, ?_⟩
      simp at full
      omega
  cases item with
  | value value => cases command
  | skipStructEndMark | enableStructEndMark => exact written _

theorem writeItems_cons (stream : ProtoWriteStream) (item : ProtoItem)
    (items : List ProtoItem) :
    stream.writeItems (item :: items) =
      (decide ((stream.writeItem item).1 = 0) &&
          ((stream.writeItem item).2.writeItems items).1,
        ((stream.writeItem item).2.writeItems items).2) :=
  rfl

theorem writeItems_full (full : stream.capacity ≤ stream.bytes.length)
    (success : (stream.writeItems items).1 = true) :
    items.all ProtoItem.isCommand = true := by
  induction items with
  | nil => rfl
  | cons item items induction =>
    rw [writeItems_cons, Bool.and_eq_true, decide_eq_true_eq] at success
    cases kind : item.isCommand with
    | false =>
      cases item with
      | value value => exact absurd success.1 (writeItem_full full value)
      | skipStructEndMark | enableStructEndMark => cases kind
    | true =>
      rcases writeItem_command stream kind with grown | ⟨same, -⟩
      · have inside := grown.inside
        rw [grown.bytes, grown.capacity, length_append] at inside
        cases item with
        | value value => cases kind
        | skipStructEndMark | enableStructEndMark =>
          simp [ProtoItem.encode] at inside; omega
      · rw [same] at success
        simpa [kind] using induction success.2

theorem writeItems_commands (stream : ProtoWriteStream)
    (commands : items.all ProtoItem.isCommand = true) :
    (stream.writeItems items).2.capacity = stream.capacity ∧
      ∃ more, (stream.writeItems items).2.bytes = stream.bytes ++ more := by
  induction items generalizing stream with
  | nil => exact ⟨rfl, [], (append_nil _).symm⟩
  | cons item items induction =>
    rw [all_cons, Bool.and_eq_true] at commands
    obtain ⟨capacity, more, bytes⟩ :=
      induction (stream.writeItem item).2 commands.2
    rw [writeItems_cons]
    rcases writeItem_command stream commands.1 with grown | ⟨same, -⟩
    · refine ⟨capacity.trans grown.capacity, item.encode ++ more, ?_⟩
      rw [bytes, grown.bytes, append_assoc]
    · rw [same] at capacity bytes ⊢
      exact ⟨capacity, more, bytes⟩

theorem writeItem_before_value
    (values : ¬ (item :: items).all ProtoItem.isCommand = true)
    (success : (stream.writeItems (item :: items)).1 = true) :
    Grows stream (stream.writeItem item).2 item.encode := by
  rw [writeItems_cons, Bool.and_eq_true, decide_eq_true_eq] at success
  cases kind : item.isCommand with
  | false =>
    cases item with
    | value value => exact writeItem_grows success.1
    | skipStructEndMark | enableStructEndMark => cases kind
  | true =>
    rcases writeItem_command stream kind with grown | ⟨same, full⟩
    · exact grown
    · rw [same] at success
      have commands := writeItems_full full success.2
      exact absurd (by simp [kind, commands]) values

/-- Successful writes leave the encodings of the items up to the last value,
possibly followed by commands, inside the buffer. -/
theorem writeItems_grows (inside : stream.bytes.length ≤ stream.capacity)
    (success : (stream.writeItems items).1 = true) :
    Grows stream (stream.writeItems (throughLastValue items)).2
        (encodeItems (throughLastValue items)) ∧
      ∃ more, (stream.writeItems items).2.bytes =
        stream.bytes ++ encodeItems (throughLastValue items) ++ more := by
  induction items generalizing stream with
  | nil =>
    refine ⟨⟨rfl, (append_nil _).symm, inside⟩, [], ?_⟩
    simp [throughLastValue, writeItems, encodeItems]
  | cons item items induction =>
    by_cases commands : (item :: items).all ProtoItem.isCommand = true
    · rw [throughLastValue, if_pos commands]
      obtain ⟨-, more, bytes⟩ := writeItems_commands stream commands
      refine ⟨⟨rfl, (append_nil _).symm, inside⟩, more, ?_⟩
      rw [bytes]
      simp [encodeItems]
    have grown := writeItem_before_value commands success
    rw [writeItems_cons, Bool.and_eq_true] at success
    obtain ⟨through, more, bytes⟩ := induction grown.inside success.2
    rw [throughLastValue, if_neg commands, encodeItems_cons, writeItems_cons,
      writeItems_cons]
    refine ⟨grown.trans through, more, ?_⟩
    rw [bytes, grown.bytes]
    simp only [append_assoc]

end ProtoWriteStream

/-- Whatever was written with success into a buffer of at most 64 KiB is read
back by the matching reads, and the reader then stands just behind the last
value. -/
theorem protoStream_roundTrip {capacity : Nat} (small : capacity ≤ 65536)
    (items : List ProtoItem) {buffers : List Nat}
    (takes : List.Forall₂ ProtoValue.Takes (protoValues items) buffers)
    (success :
      (ProtoWriteStream.writeItems ⟨capacity, []⟩ items).1 = true) :
    (ProtoReadStream.readValues
        (.init (ProtoWriteStream.writeItems ⟨capacity, []⟩ items).2.bytes)
        ((protoValues items).zip buffers)).1 =
      (protoValues items).map ProtoValue.reported ∧
    (ProtoReadStream.readValues
        (.init (ProtoWriteStream.writeItems ⟨capacity, []⟩ items).2.bytes)
        ((protoValues items).zip buffers)).2.left =
      (ProtoWriteStream.writeItems ⟨capacity, []⟩ items).2.bytes.drop
        (ProtoWriteStream.writeItems ⟨capacity, []⟩
          (throughLastValue items)).2.bytes.length := by
  obtain ⟨through, more, bytes⟩ :=
    ProtoWriteStream.writeItems_grows (Nat.zero_le _) success
  have written := through.bytes
  have inside := through.inside
  rw [through.capacity] at inside
  rw [written, nil_append] at inside ⊢
  rw [bytes, nil_append, drop_left]
  exact ProtoReadStream.readValues_encode items takes (inside.trans small) more
    (.init [])

/-- Two numbers, a text and an empty binary with a command among them and one
behind the last value, which a buffer of 12 bytes has no room for. -/
def crowdedItems : List ProtoItem :=
  [.value (.u8 0), .skipStructEndMark, .value (.u32 300),
    .value (.text ⟨[104, 105], by decide⟩), .value (.bin []),
    .enableStructEndMark]

theorem protoStream_roundTrip_crowded :
    (ProtoReadStream.readValues
        (.init (ProtoWriteStream.writeItems ⟨12, []⟩ crowdedItems).2.bytes)
        ((protoValues crowdedItems).zip [0, 0, 3, 0])).1 =
      [(0, .inl 0), (0, .inl 300), (2, .inr [104, 105]), (0, .inr [])] ∧
    (ProtoReadStream.readValues
        (.init (ProtoWriteStream.writeItems ⟨12, []⟩ crowdedItems).2.bytes)
        ((protoValues crowdedItems).zip [0, 0, 3, 0])).2.left = [] := by
  have takes : List.Forall₂ ProtoValue.Takes (protoValues crowdedItems)
      [0, 0, 3, 0] := by
    refine .cons trivial (.cons trivial (.cons ?_ (.cons ?_ .nil)))
    · show 2 < 3
      decide
    · show 0 ≤ 0
      decide
  obtain ⟨values, position⟩ := protoStream_roundTrip
    (by decide : 12 ≤ 65536) crowdedItems takes (by decide)
  rw [values, position]
  exact ⟨rfl, by decide⟩

end NdNet
