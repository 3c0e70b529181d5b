import NdNet.App.ProtoReads

/-!
# Variants in the typed stream

`WriteVar` writes an `NDVarType` as a field of its kind, and `ReadVar` peeks at
the type of the next field and reads it back.  A read of a text or a binary
returns its length, and 0 when it fails; `ReadVar` takes an empty text for a
failure.
-/

namespace NdNet

open List

abbrev CText := { chars : List Byte // (0 : Byte) ∉ chars }

/-- `NDVarType`; a float is its bit pattern. -/
inductive NdVarType where
  | int (value : Int32)
  | float (value : UInt32)
  | string (text : CText)
  | int8 (value : UInt8)
  | int16 (value : UInt16)
  | int64 (value : UInt64)
  | binary (data : List Byte)
  deriving DecidableEq

theorem zero_not_mem_cString (memory : List Byte) :
    (0 : Byte) ∉ cString memory := by
  intro member
  have nonzero := mem_takeWhile_imp member
  exact absurd nonzero (by decide)

theorem cString_of_not_mem {chars : List Byte} (free : (0 : Byte) ∉ chars) :
    cString chars = chars := by
  refine takeWhile_eq_self_iff.mpr fun char member => ?_
  rw [decide_eq_true_eq]
  rintro rfl
  exact free member

/-- `initSet(const char *)` -/
def NdVarType.initText (memory : List Byte) : NdVarType :=
  .string ⟨cString memory, zero_not_mem_cString memory⟩

def ProtoWriteStream.writeVar (stream : ProtoWriteStream) :
    NdVarType → Int × ProtoWriteStream
  | .int value => stream.write32 value.toUInt32
  | .float value => stream.writeFloat value
  | .string text => stream.writeText text.val
  | .int8 value => stream.write8 value
  | .int16 value => stream.write16 value
  | .int64 value => stream.write64 value
  | .binary data => stream.writeBin data

namespace ReadCursor

/-- `ReadVar`: the value that has been assigned, none for the result -1, and
the reader.  `unset` is what the variable holds that `PeekDataType` returns at
the end of a structure. -/
def readVar (cursor : ReadCursor) (unset : Nat) :
    Option NdVarType × ReadCursor :=
  let (peeked, cursor) := cursor.peekDataType
  let marker := peeked.getD unset
  if marker = StreamMarker.int8.code then
    let (ret, a, cursor) := cursor.read8
    if ret = 0 then (some (.int8 (UInt8.ofNat a)), cursor) else (none, cursor)
  else if marker = StreamMarker.int16.code then
    let (ret, a, cursor) := cursor.read16
    if ret = 0 then (some (.int16 (UInt16.ofNat a)), cursor)
    else (none, cursor)
  else if marker = StreamMarker.int32.code then
    let (ret, a, cursor) := cursor.read32
    if ret = 0 then (some (.int (UInt32.ofNat a).toInt32), cursor)
    else (none, cursor)
  else if marker = StreamMarker.int64.code then
    let (ret, a, cursor) := cursor.read64
    if ret = 0 then (some (.int64 (UInt64.ofNat a)), cursor)
    else (none, cursor)
  else if marker = StreamMarker.float.code then
    let (ret, a, cursor) := cursor.readFloat
    if ret = 0 then (some (.float (UInt32.ofNat a)), cursor)
    else (none, cursor)
  else if marker = StreamMarker.text.code then
    let (len, buffer, cursor) := cursor.readText 0x10000
    if 0 < len then (some (.initText buffer), cursor) else (none, cursor)
  else if marker = StreamMarker.bin.code then
    let (len, buffer, cursor) := cursor.readBin 0x10000
    if 0 < len then (some (.binary buffer), cursor) else (none, cursor)
  else (none, cursor)

end ReadCursor

def NdVarType.call : NdVarType → WriteCall
  | .int value => .u32 value.toUInt32
  | .float value => .float value
  | .string text => .text text.val
  | .int8 value => .u8 value
  | .int16 value => .u16 value
  | .int64 value => .u64 value
  | .binary data => .bin data

theorem ProtoWriteStream.writeVar_eq (stream : ProtoWriteStream)
    (value : NdVarType) : stream.writeVar value = stream.perform value.call := by
  cases value <;> rfl

def NdVarType.marker : NdVarType → StreamMarker
  | .int _ => .int32
  | .float _ => .float
  | .string _ => .text
  | .int8 _ => .int8
  | .int16 _ => .int16
  | .int64 _ => .int64
  | .binary _ => .bin

theorem NdVarType.marker_code_lt (value : NdVarType) :
    value.marker.code < 11 := by
  cases value <;> simp [marker, StreamMarker.code]

theorem NdVarType.encode_cons (value : NdVarType) :
    ∃ size payload, size < 16 ∧
      value.call.encode = markerByte value.marker size :: payload := by
  cases value with
  | int value => exact encodeInt_cons _ _ (by decide) (by decide)
  | float value =>
    rw [call, WriteCall.encode]
    split
    · exact ⟨0, [], by decide, rfl⟩
    · exact ⟨4, _, by decide, rfl⟩
  | string text => exact encodeBlock_cons _ _ _
  | int8 value | int16 value | int64 value =>
    exact encodeInt_cons _ _ (by decide) (by decide)
  | binary data => exact encodeBlock_cons _ _ _

/-- The variant is told from a failure and fits in 16 bits; a negative zero
would lose its sign. -/
def NdVarType.RoundTrips : NdVarType → Prop
  | .float value => floatIsZero value → value = 0
  | .string text => text.val ≠ [] ∧ text.val.length < 65536
  | .binary data => data ≠ [] ∧ data.length < 65536
  | _ => True

variable {values : List NdVarType} {value : NdVarType}

namespace ReadCursor

variable {cursor : ReadCursor} {rest : List Byte} (unset : Nat)

theorem peekDataType_var (here : cursor.At (value.call.encode ++ rest)) :
    ∃ next, cursor.peekDataType = (some value.marker.code, next) ∧
      Past cursor next (value.call.encode ++ rest) := by
  obtain ⟨size, payload, small, encode⟩ := value.encode_cons
  rw [encode, cons_append] at here ⊢
  exact peekDataType_at here value.marker_code_lt small

section Blocks

variable {next after : ReadCursor} {len : Nat} {buffer : List Byte}

theorem readVar_float {ret : Int} {a : Nat}
    (peeked : cursor.peekDataType = (some StreamMarker.float.code, next))
    (read : next.readFloat = (ret, a, after)) :
    cursor.readVar unset =
      if ret = 0 then (some (.float (UInt32.ofNat a)), after)
      else (none, after) := by
  rw [readVar, peeked]
  dsimp only [Option.getD_some]
  rw [if_neg (by decide), if_neg (by decide), if_neg (by decide),
    if_neg (by decide), if_pos rfl, read]

theorem readVar_text
    (peeked : cursor.peekDataType = (some StreamMarker.text.code, next))
    (read : next.readText 0x10000 = (len, buffer, after)) :
    cursor.readVar unset =
      if 0 < len then (some (.initText buffer), after) else (none, after) := by
  rw [readVar, peeked]
  dsimp only [Option.getD_some]
  rw [if_neg (by decide), if_neg (by decide), if_neg (by decide),
    if_neg (by decide), if_neg (by decide), if_pos rfl, read]

theorem readVar_bin
    (peeked : cursor.peekDataType = (some StreamMarker.bin.code, next))
    (read : next.readBin 0x10000 = (len, buffer, after)) :
    cursor.readVar unset =
      if 0 < len then (some (.binary buffer), after) else (none, after) := by
  rw [readVar, peeked]
  dsimp only [Option.getD_some]
  rw [if_neg (by decide), if_neg (by decide), if_neg (by decide),
    if_neg (by decide), if_neg (by decide), if_neg (by decide), if_pos rfl,
    read]

end Blocks

theorem readVar_at (fits : value.RoundTrips)
    (here : cursor.At (value.call.encode ++ rest)) :
    ∃ after, cursor.readVar unset = (some value, after) ∧
      Past cursor after rest := by
  obtain ⟨next, peeked, stays⟩ := peekDataType_var here
  cases value with
  | int value =>
    obtain ⟨after, read, past⟩ := @readInt_at _ _ .int32 [1, 2, 4] _
      stays.at (by decide) (by simp) (by simp)
      (by simpa using value.toUInt32.toNat_lt) 4
    refine ⟨after, ?_, stays.trans past⟩
    rw [readVar, peeked]
    dsimp only [Option.getD_some, NdVarType.marker]
    rw [if_neg (by decide), if_neg (by decide), if_pos rfl, read32, read]
    rw [if_pos rfl, UInt32.ofNat_toNat]
    rfl
  | float value =>
    obtain ⟨after, read, past⟩ : ∃ after,
        next.readFloat = (0, value.toNat, after) ∧ Past next after rest := by
      by_cases zero : floatIsZero value
      · have there := stays.at
        rw [NdVarType.call, WriteCall.encode, if_pos zero] at there
        rw [fits zero]
        exact readFloating_zero there (by decide)
      · have there := stays.at
        rw [NdVarType.call, WriteCall.encode, if_neg zero] at there
        exact readFloating_at there (by decide) (by decide) (by decide)
          (by simpa using value.toNat_lt)
    refine ⟨after, ?_, stays.trans past⟩
    rw [readVar_float unset peeked read, if_pos rfl, UInt32.ofNat_toNat]
  | string text =>
    obtain ⟨some, short⟩ := fits
    have there := stays.at
    have same := cString_of_not_mem text.property
    rw [NdVarType.call, WriteCall.encode, same] at there
    obtain ⟨after, read, past⟩ :=
      @readText_at _ _ _ there short 0x10000 short
    have whole : NdVarType.initText text.val = .string text :=
      congrArg NdVarType.string (Subtype.ext same)
    refine ⟨after, ?_, stays.trans past⟩
    rw [readVar_text unset peeked read, if_pos (length_pos_iff.mpr some), whole]
  | int8 value =>
    obtain ⟨after, read, past⟩ := @readInt_at _ _ .int8 [1] _
      stays.at (by decide) (by simp) (by simp)
      (by simpa using value.toNat_lt) 1
    refine ⟨after, ?_, stays.trans past⟩
    rw [readVar, peeked]
    dsimp only [Option.getD_some, NdVarType.marker]
    rw [if_pos rfl, read8, read]
    rw [if_pos rfl, UInt8.ofNat_toNat]
  | int16 value =>
    obtain ⟨after, read, past⟩ := @readInt_at _ _ .int16 [1, 2] _
      stays.at (by decide) (by simp) (by simp)
      (by simpa using value.toNat_lt) 2
    refine ⟨after, ?_, stays.trans past⟩
    rw [readVar, peeked]
    dsimp only [Option.getD_some, NdVarType.marker]
    rw [if_neg (by decide), if_pos rfl, read16, read]
    rw [if_pos rfl, UInt16.ofNat_toNat]
  | int64 value =>
    obtain ⟨after, read, past⟩ := @readInt_at _ _ .int64 [1, 2, 4, 8] _
      stays.at (by decide) (by simp) (by simp)
      (by simpa using value.toNat_lt) 8
    refine ⟨after, ?_, stays.trans past⟩
    rw [readVar, peeked]
    dsimp only [Option.getD_some, NdVarType.marker]
    rw [if_neg (by decide), if_neg (by decide), if_neg (by decide), if_pos rfl, read64, read]
    rw [if_pos rfl, UInt64.ofNat_toNat]
  | binary data =>
    obtain ⟨some, short⟩ := fits
    obtain ⟨after, read, past⟩ := @readBin_at _ _ _ stays.at short 0x10000
      (Nat.le_of_lt short)
    refine ⟨after, ?_, stays.trans past⟩
    rw [readVar_bin unset peeked read, if_pos (length_pos_iff.mpr some)]

theorem cString_length_le (memory : List Byte) :
    (cString memory).length ≤ memory.length :=
  (takeWhile_sublist _).length_le

theorem readText_length (sizeBuf : UInt64) :
    (cursor.readText sizeBuf).2.1.length < 65536 := by
  rcases @readText_block cursor sizeBuf with ⟨_, same⟩ | block
  · rw [same]
    exact Nat.zero_lt_succ _
  · exact block.length

theorem readVar_short (read : (cursor.readVar unset).1 = some value) :
    value.call.counted.length < 65536 := by
  have text := @readText_length cursor.peekDataType.2 0x10000
  have bin := (@readBin_block cursor.peekDataType.2 0x10000).length
  have chosen (found : NdVarType) (after : ReadCursor) {done : Prop}
      [Decidable done] (short : found.call.counted.length < 65536)
      (read : (if done then (some found, after) else (none, after)).1 =
        some value) : value.call.counted.length < 65536 := by
    by_cases well : done
    · rw [if_pos well] at read
      rw [← Option.some.inj read]
      exact short
    · rw [if_neg well] at read
      cases read
  have small : (0 : Nat) < 65536 := by decide
  unfold readVar at read
  dsimp only at read
  generalize cursor.peekDataType.1.getD unset = marker at read
  by_cases int8 : marker = StreamMarker.int8.code
  · rw [if_pos int8] at read
    exact chosen (.int8 _) _ small read
  rw [if_neg int8] at read
  by_cases int16 : marker = StreamMarker.int16.code
  · rw [if_pos int16] at read
    exact chosen (.int16 _) _ small read
  rw [if_neg int16] at read
  by_cases int32 : marker = StreamMarker.int32.code
  · rw [if_pos int32] at read
    exact chosen (.int _) _ small read
  rw [if_neg int32] at read
  by_cases int64 : marker = StreamMarker.int64.code
  · rw [if_pos int64] at read
    exact chosen (.int64 _) _ small read
  rw [if_neg int64] at read
  by_cases float : marker = StreamMarker.float.code
  · rw [if_pos float] at read
    exact chosen (.float _) _ small read
  rw [if_neg float] at read
  by_cases string : marker = StreamMarker.text.code
  · rw [if_pos string] at read
    refine chosen (.initText _) _ (Nat.lt_of_le_of_lt ?_ text) read
    exact Nat.le_trans (cString_length_le _) (cString_length_le _)
  rw [if_neg string] at read
  by_cases binary : marker = StreamMarker.bin.code
  · rw [if_pos binary] at read
    exact chosen (.binary _) _ bin read
  · rw [if_neg binary] at read
    cases read

theorem readVar_eq_iff (here : cursor.At (value.call.encode ++ rest)) :
    (cursor.readVar unset).1 = some value ↔ value.RoundTrips := by
  constructor
  · intro read
    obtain ⟨next, peeked, stays⟩ := peekDataType_var here
    have there := stays.at
    have short := readVar_short unset read
    cases value with
    | float value =>
      intro zero
      rw [NdVarType.call, WriteCall.encode, if_pos zero] at there
      obtain ⟨after, found, -⟩ := readFloating_zero there (by decide)
      rw [readVar_float unset peeked found, if_pos rfl] at read
      exact (NdVarType.float.inj (Option.some.inj read)).symm
    | string text =>
      have same := cString_of_not_mem text.property
      rw [NdVarType.call, WriteCall.counted, same] at short
      refine ⟨fun empty => ?_, short⟩
      rw [NdVarType.call, WriteCall.encode, same] at there
      obtain ⟨after, found, -⟩ := @readText_at _ _ _ there short 0x10000 short
      rw [readVar_text unset peeked found, empty, if_neg (by decide)] at read
      cases read
    | binary data =>
      refine ⟨fun empty => ?_, short⟩
      obtain ⟨after, found, -⟩ := @readBin_at _ _ _ there short 0x10000
        (Nat.le_of_lt short)
      rw [readVar_bin unset peeked found, empty, if_neg (by decide)] at read
      cases read
    | int value | int8 value | int16 value | int64 value => trivial
  · intro fits
    obtain ⟨after, read, -⟩ := readVar_at unset fits here
    rw [read]

/-- `ReadVar` as often as there are variants. -/
def readVars (cursor : ReadCursor) : Nat → List (Option NdVarType) × ReadCursor
  | 0 => ([], cursor)
  | count + 1 =>
    let first := cursor.readVar unset
    let later := readVars first.2 count
    (first.1 :: later.1, later.2)

theorem readVars_at (fits : ∀ value ∈ values, value.RoundTrips)
    (here : cursor.At (values.flatMap (·.call.encode) ++ rest)) :
    ∃ after, cursor.readVars unset values.length = (values.map some, after) ∧
      after.At rest := by
  induction values generalizing cursor with
  | nil => exact ⟨cursor, rfl, here⟩
  | cons value values induction =>
    obtain ⟨first, others⟩ := forall_mem_cons.mp fits
    rw [flatMap_cons, append_assoc] at here
    obtain ⟨next, read, past⟩ := readVar_at unset first here
    obtain ⟨after, later, there⟩ := induction others past.at
    refine ⟨after, ?_, there⟩
    rw [length_cons, readVars, read]
    rw [later, map_cons]

theorem roundTrips_of_readVars
    (here : cursor.At (values.flatMap (·.call.encode) ++ rest))
    (same : (cursor.readVars unset values.length).1 = values.map some) :
    ∀ value ∈ values, value.RoundTrips := by
  induction values generalizing cursor with
  | nil => exact fun _ member => absurd member not_mem_nil
  | cons value values induction =>
    rw [flatMap_cons, append_assoc] at here
    obtain ⟨first, others⟩ := cons.inj same
    have fits := (readVar_eq_iff unset here).mp first
    obtain ⟨next, read, past⟩ := readVar_at unset fits here
    rw [read] at others
    exact forall_mem_cons.mpr ⟨fits, induction past.at others⟩

end ReadCursor

/-- Variants that are written in order; none if one of them is refused. -/
def ProtoWriteStream.writeVars (stream : ProtoWriteStream) :
    List NdVarType → Option ProtoWriteStream
  | [] => some stream
  | value :: values =>
    let (ret, next) := stream.writeVar value
    if ret = 0 then next.writeVars values else none

theorem ProtoWriteStream.writeVars_bytes {stream written : ProtoWriteStream}
    (accepted : stream.writeVars values = some written) :
    written.bytes = stream.bytes ++ values.flatMap (·.call.encode) := by
  induction values generalizing stream with
  | nil =>
    cases accepted
    rw [flatMap_nil, append_nil]
  | cons value values induction =>
    rw [writeVars, writeVar_eq, perform_eq] at accepted
    split_ifs at accepted with fits marker
    · rw [induction accepted, push_bytes, flatMap_cons, append_assoc]
    · cases accepted
    · cases accepted

/-- Variants that `WriteVar` has accepted are read back, and exactly their
bytes are used up, if and only if none of them is an empty text or binary, a
text or binary of 65536 bytes or more, or a negative zero. -/
theorem readVars_iff {stream written : ProtoWriteStream}
    {values : List NdVarType} (accepted : stream.writeVars values = some written)
    (unset : Nat) :
    ∃ bytes, written.bytes = stream.bytes ++ bytes ∧
      ∀ cursor : ReadCursor, ∀ rest, cursor.At (bytes ++ rest) →
        ((∃ after,
            cursor.readVars unset values.length = (values.map some, after) ∧
              after.At rest) ↔
          ∀ value ∈ values, value.RoundTrips) := by
  refine ⟨_, ProtoWriteStream.writeVars_bytes accepted, ?_⟩
  intro cursor rest here
  constructor
  · rintro ⟨after, read, -⟩
    exact ReadCursor.roundTrips_of_readVars unset here (by rw [read])
  · exact fun fits => ReadCursor.readVars_at unset fits here

/-- One variant of each kind. -/
theorem readVars_kinds :
    ∃ after, (ReadCursor.ofBytes [0x34, 0xff, 0xff, 0xff, 0xff, 0x71, 0, 1,
        0x41, 0x7f, 0x10]).readVars 0 3 =
      ([some (.int (-1)), some (.string ⟨[0x41], by decide⟩),
        some (.int8 0)], after) ∧ after.At [] := by
  have accepted : (⟨64, []⟩ : ProtoWriteStream).writeVars
      [.int (-1), .string ⟨[0x41], by decide⟩, .int8 0] =
        some ⟨64, [0x34, 0xff, 0xff, 0xff, 0xff, 0x71, 0, 1, 0x41, 0x7f,
          0x10]⟩ := by decide
  obtain ⟨bytes, same, reads⟩ := readVars_iff accepted 0
  rw [← nil_append bytes, ← same] at reads
  refine (reads _ [] ?_).mpr ?_
  · exact ReadCursor.at_ofBytes _
  · simp [NdVarType.RoundTrips]

/-- The empty text is accepted and written, and `ReadVar` fails. -/
theorem readVars_empty :
    (⟨64, []⟩ : ProtoWriteStream).writeVar (.string ⟨[], by decide⟩) =
        (0, ⟨64, [0x70]⟩) ∧
      ((ReadCursor.ofBytes [0x70]).readVar 0).1 = none := by
  decide

end NdNet
