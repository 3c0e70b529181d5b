import NdNet.App.ProtoReads
import NdNet.Common.Printf
import NdNet.Lib.Access

/-!
# `NDProtoReadStream::dumpText`

The fields that are left are printed one after the other.  Each piece of a field
is printed with `ndsnprintf`, which returns the length of the whole piece also
where it has printed less; the pointer moves on by this length and the room that
is left, a `size_t`, gets smaller by it.  A piece that does not fit therefore
takes the counter below zero and the pointer out of the buffer.

Beside the code stands what a field is printed as when nothing runs out.
-/

namespace NdNet

open Access (touch)

/-- What dumping touches: a byte of the buffer, or the counter of what is left,
by which it gets smaller. -/
inductive DumpPlace where
  | byte (offset : Nat)
  | left (len : UInt64) (ret : Nat)
  deriving DecidableEq, Repr

/-- A byte must be of the buffer, and the counter must not wrap. -/
def DumpPlace.Own (size : UInt64) : DumpPlace → Prop
  | byte offset => offset < size.toNat
  | left len ret => ret ≤ len.toNat

instance (size : UInt64) : DecidablePred (DumpPlace.Own size)
  | .byte offset => inferInstanceAs (Decidable (offset < size.toNat))
  | .left len ret => inferInstanceAs (Decidable (ret ≤ len.toNat))

/-- `p`, as an offset from `buf`, and `len`. -/
structure DumpRoom where
  p : Nat
  len : UInt64
  deriving DecidableEq, Repr

/-- What the code leaves open: the digits of `%f` for a number of so many bytes,
which are at most 317, the variable that `PeekDataType` returns without setting
it, and whether `malloc` has memory. -/
structure DumpHost where
  digits : Nat → Nat → List Char
  short : ∀ width bits, (digits width bits).length ≤ 317
  unset : ReadCursor → Nat
  grants : ReadCursor → Bool

variable {result : Option (Int × ReadCursor)}

namespace Dump

section Code

variable (size : UInt64)

def store : Nat → Nat → Access DumpPlace Unit
  | _, 0 => pure ()
  | offset, count + 1 => do
      touch (DumpPlace.Own size) (.byte offset)
      store (offset + 1) count

/-- `ndsnprintf`, which ends what it prints with a zero. -/
def ndsnprintf (text : List Char) (room : DumpRoom) : Access DumpPlace Nat :=
  if room.len = 0 then pure text.length
  else do
    store size room.p (min text.length (room.len.toNat - 1) + 1)
    pure text.length

/-- `p += ret; len -= ret;` -/
def advance (ret : Nat) (room : DumpRoom) : Access DumpPlace DumpRoom := do
  touch (DumpPlace.Own size) (.left room.len ret)
  pure ⟨room.p + ret, room.len - UInt64.ofNat ret⟩

def print (text : List Char) (room : DumpRoom) :
    Access DumpPlace DumpRoom := do
  let ret ← ndsnprintf size text room
  advance size ret room

/-- `(int)(size - len)` -/
def printed (before after : UInt64) : Int :=
  Int.bmod (before - after).toNat 4294967296

def outPutType (label : String) (digits : Nat → List Char)
    (read : Int × Nat × ReadCursor) (room : DumpRoom) :
    Access DumpPlace (Int × ReadCursor) :=
  if read.1 = 0 then do
    let after ← print size
      (label.toList ++ " : ".toList ++ digits read.2.1 ++ " \n".toList) room
    pure (printed room.len after.len, read.2.2)
  else pure (-1, read.2.2)

/-- `%d` of an unsigned number with `bits` values. -/
def signedText (bits : Nat) (value : Nat) : List Char :=
  Str.decText (Int.bmod value bits)

/-- `"0x%x, "` of a `char` -/
def bytePiece (byte : Byte) : List Char :=
  let value :=
    if byte.toNat < 128 then byte.toNat else byte.toNat + 4294967040
  "0x".toList ++ Str.hexText value ++ ", ".toList

def printBytes : List Byte → DumpRoom → Access DumpPlace DumpRoom
  | [], room => pure room
  | byte :: bytes, room => do
      let room ← print size (bytePiece byte) room
      printBytes bytes room

/-- The case of a text in `_dumpTobuf`. -/
def dumpString (cursor : ReadCursor) (room : DumpRoom) :
    Access DumpPlace (Int × ReadCursor) := do
  let opened ← print size "text :[ ".toList room
  let (ret, _, cursor) := cursor.fresh.readText opened.len
  store size opened.p cursor.written
  let shown ← advance size ret opened
  let closed ← print size "] \n".toList shown
  pure (printed room.len closed.len, cursor)

/-- The case of a binary in `_dumpTobuf`. -/
def dumpBin (host : DumpHost) (cursor : ReadCursor) (room : DumpRoom) :
    Access DumpPlace (Int × ReadCursor) := do
  let (datalen, cursor) := cursor.fresh.peekBinSize
  let opened ← print size "bin : [".toList room
  if datalen = 0 then do
    let closed ← print size "NULL] \n".toList opened
    pure (printed room.len closed.len, cursor)
  else if host.grants cursor then do
    let (_, bytes, cursor) :=
      cursor.fresh.readBin (UInt64.ofNat (datalen + 8))
    let shown ← printBytes size bytes opened
    let closed ← print size "] \n".toList shown
    pure (printed room.len closed.len, cursor)
  else pure (-1, cursor)

def dumpTobuf (host : DumpHost) (cursor : ReadCursor) (room : DumpRoom) :
    Access DumpPlace (Int × ReadCursor) :=
  let (peeked, cursor) := cursor.fresh.peekDataType
  let type := peeked.getD (host.unset cursor)
  if type = StreamMarker.int8.code then
    outPutType size "NDUINT8" (signedText 4294967296) cursor.fresh.read8 room
  else if type = StreamMarker.int16.code then
    outPutType size "NDUINT16" (signedText 4294967296) cursor.fresh.read16 room
  else if type = StreamMarker.int32.code then
    outPutType size "NDUINT32" (signedText 4294967296) cursor.fresh.read32 room
  else if type = StreamMarker.int64.code then
    outPutType size "NDUINT64" (signedText 18446744073709551616)
      cursor.fresh.read64 room
  else if type = StreamMarker.float.code then
    outPutType size "float" (host.digits 4) cursor.fresh.readFloat room
  else if type = StreamMarker.double.code then
    outPutType size "double" (host.digits 8) cursor.fresh.readDouble room
  else if type = StreamMarker.text.code then dumpString size cursor room
  else if type = StreamMarker.bin.code then dumpBin size host cursor room
  else if type = StreamMarker.ip.code ∨ type = StreamMarker.ip6.code then
    pure (0, cursor)
  else pure (-1, cursor)

/-- The loop of `dumpText`, for as many rounds as the first argument allows. -/
def dumpLoop (host : DumpHost) :
    Nat → ReadCursor → DumpRoom → Access DumpPlace (Option (Int × ReadCursor))
  | 0, _, _ => pure none
  | rounds + 1, cursor, room =>
    if 0 < cursor.leftData then do
      let (ret, cursor) ← dumpTobuf size host cursor room
      if ret ≤ 0 then pure (some (printed size room.len, cursor))
      else do
        let room ← advance size ret.toNat room
        dumpLoop host rounds cursor room
    else pure (some (printed size room.len, cursor))

def dumpText (host : DumpHost) (rounds : Nat) (cursor : ReadCursor) :
    Access DumpPlace (Option (Int × ReadCursor)) :=
  dumpLoop size host rounds cursor ⟨0, size⟩

end Code

/-- A field as it is printed: its text, whether the loop goes on behind it, and
the reader behind it. -/
structure Field where
  text : List Char
  goesOn : Bool
  after : ReadCursor

def numberField (label : String) (digits : Nat → List Char)
    (read : Int × Nat × ReadCursor) : Field :=
  if read.1 = 0 then
    ⟨label.toList ++ " : ".toList ++ digits read.2.1 ++ " \n".toList, true,
      read.2.2⟩
  else ⟨[], false, read.2.2⟩

/-- A text, or nothing between the brackets if it cannot be read into the room
behind the first one. -/
def textField (cursor : ReadCursor) (room : Nat) : Field :=
  let (_, bytes, cursor) := cursor.fresh.readText (UInt64.ofNat (room - 8))
  ⟨"text :[ ".toList ++ bytes.map (fun byte => Char.ofNat byte.toNat) ++
    "] \n".toList, true, cursor⟩

/-- A binary; an empty one stays where it is. -/
def binField (host : DumpHost) (cursor : ReadCursor) : Field :=
  let (datalen, cursor) := cursor.fresh.peekBinSize
  if datalen = 0 then
    ⟨"bin : [".toList ++ "NULL] \n".toList, true, cursor⟩
  else if host.grants cursor then
    let (_, bytes, cursor) :=
      cursor.fresh.readBin (UInt64.ofNat (datalen + 8))
    ⟨"bin : [".toList ++ bytes.flatMap bytePiece ++ "] \n".toList, true,
      cursor⟩
  else ⟨"bin : [".toList, false, cursor⟩

def field (host : DumpHost) (cursor : ReadCursor) (room : Nat) : Field :=
  let (peeked, cursor) := cursor.fresh.peekDataType
  let type := peeked.getD (host.unset cursor)
  if type = StreamMarker.int8.code then
    numberField "NDUINT8" (signedText 4294967296) cursor.fresh.read8
  else if type = StreamMarker.int16.code then
    numberField "NDUINT16" (signedText 4294967296) cursor.fresh.read16
  else if type = StreamMarker.int32.code then
    numberField "NDUINT32" (signedText 4294967296) cursor.fresh.read32
  else if type = StreamMarker.int64.code then
    numberField "NDUINT64" (signedText 18446744073709551616)
      cursor.fresh.read64
  else if type = StreamMarker.float.code then
    numberField "float" (host.digits 4) cursor.fresh.readFloat
  else if type = StreamMarker.double.code then
    numberField "double" (host.digits 8) cursor.fresh.readDouble
  else if type = StreamMarker.text.code then textField cursor room
  else if type = StreamMarker.bin.code then binField host cursor
  else ⟨[], false, cursor⟩

/-- The fields that are left are all printed in full, and the characters
printed are counted without a sign. -/
inductive Complete (host : DumpHost) (size : UInt64) :
    ReadCursor → Nat → Prop where
  | done {cursor : ReadCursor} {room : Nat} :
      ¬ 0 < cursor.leftData →
      (size.toNat - room) % 4294967296 < 2147483648 →
      Complete host size cursor room
  | stop {cursor : ReadCursor} {room : Nat} :
      0 < cursor.leftData →
      (field host cursor room).text.length ≤ room →
      (field host cursor room).goesOn = false →
      (size.toNat - room) % 4294967296 < 2147483648 →
      Complete host size cursor room
  | next {cursor : ReadCursor} {room : Nat} :
      0 < cursor.leftData →
      (field host cursor room).text.length ≤ room →
      (field host cursor room).goesOn = true →
      Complete host size (field host cursor room).after
        (room - (field host cursor room).text.length) →
      Complete host size cursor room

/-- Dumping keeps to its buffer: it touches nothing else, its counter does not
wrap, it ends, and what it returns is between 0 and the size. -/
structure Contained (host : DumpHost) (size : UInt64) (cursor : ReadCursor) :
    Prop where
  inside : ∀ rounds, ∀ place ∈ (dumpText size host rounds cursor).touched,
    DumpPlace.Own size place
  ends : ∃ rounds ret after,
    (dumpText size host rounds cursor).result = some (some (ret, after)) ∧
      0 ≤ ret ∧ ret ≤ size.toNat

section Sound

variable (size : UInt64)

theorem sound_store (offset count : Nat) :
    Access.Sound (DumpPlace.Own size) (store size offset count) := by
  induction count generalizing offset with
  | zero => exact Access.sound_pure _
  | succ count induction =>
    exact Access.sound_bind (Access.sound_touch _) fun _ _ => induction _

theorem sound_advance (ret : Nat) (room : DumpRoom) :
    Access.Sound (DumpPlace.Own size) (advance size ret room) :=
  Access.sound_bind (Access.sound_touch _) fun _ _ => Access.sound_pure _

theorem sound_print (text : List Char) (room : DumpRoom) :
    Access.Sound (DumpPlace.Own size) (print size text room) := by
  refine Access.sound_bind ?_ fun _ _ => sound_advance size _ _
  refine Access.sound_ite (fun _ => Access.sound_pure _) fun _ => ?_
  exact Access.sound_bind (sound_store size _ _) fun _ _ => Access.sound_pure _

theorem sound_outPutType (label : String) (digits : Nat → List Char)
    (read : Int × Nat × ReadCursor) (room : DumpRoom) :
    Access.Sound (DumpPlace.Own size)
      (outPutType size label digits read room) := by
  refine Access.sound_ite (fun _ => ?_) fun _ => Access.sound_pure _
  exact Access.sound_bind (sound_print size _ _) fun _ _ => Access.sound_pure _

theorem sound_printBytes (bytes : List Byte) (room : DumpRoom) :
    Access.Sound (DumpPlace.Own size) (printBytes size bytes room) := by
  induction bytes generalizing room with
  | nil => exact Access.sound_pure _
  | cons byte bytes induction =>
    exact Access.sound_bind (sound_print size _ _) fun _ _ => induction _

theorem sound_dumpString (cursor : ReadCursor) (room : DumpRoom) :
    Access.Sound (DumpPlace.Own size) (dumpString size cursor room) := by
  refine Access.sound_bind (sound_print size _ _) fun _ _ => ?_
  refine Access.sound_bind (sound_store size _ _) fun _ _ => ?_
  refine Access.sound_bind (sound_advance size _ _) fun _ _ => ?_
  exact Access.sound_bind (sound_print size _ _) fun _ _ => Access.sound_pure _

theorem sound_dumpBin (host : DumpHost) (cursor : ReadCursor) (room : DumpRoom)
    :
    Access.Sound (DumpPlace.Own size) (dumpBin size host cursor room) := by
  refine Access.sound_bind (sound_print size _ _) fun _ _ => ?_
  refine Access.sound_ite (fun _ => ?_) fun _ => ?_
  · exact Access.sound_bind (sound_print size _ _) fun _ _ =>
      Access.sound_pure _
  · refine Access.sound_ite (fun _ => ?_) fun _ => Access.sound_pure _
    refine Access.sound_bind (sound_printBytes size _ _) fun _ _ => ?_
    exact Access.sound_bind (sound_print size _ _) fun _ _ =>
      Access.sound_pure _

theorem sound_dumpTobuf (host : DumpHost) (cursor : ReadCursor)
    (room : DumpRoom) :
    Access.Sound (DumpPlace.Own size) (dumpTobuf size host cursor room) := by
  refine Access.sound_ite (fun _ => sound_outPutType size _ _ _ _) fun _ => ?_
  refine Access.sound_ite (fun _ => sound_outPutType size _ _ _ _) fun _ => ?_
  refine Access.sound_ite (fun _ => sound_outPutType size _ _ _ _) fun _ => ?_
  refine Access.sound_ite (fun _ => sound_outPutType size _ _ _ _) fun _ => ?_
  refine Access.sound_ite (fun _ => sound_outPutType size _ _ _ _) fun _ => ?_
  refine Access.sound_ite (fun _ => sound_outPutType size _ _ _ _) fun _ => ?_
  refine Access.sound_ite (fun _ => sound_dumpString size _ _) fun _ => ?_
  refine Access.sound_ite (fun _ => sound_dumpBin size _ _ _) fun _ => ?_
  exact Access.sound_ite (fun _ => Access.sound_pure _) fun _ =>
    Access.sound_pure _

theorem sound_dumpLoop (host : DumpHost) (rounds : Nat) (cursor : ReadCursor)
    (room : DumpRoom) :
    Access.Sound (DumpPlace.Own size)
      (dumpLoop size host rounds cursor room) := by
  induction rounds generalizing cursor room with
  | zero => exact Access.sound_pure _
  | succ rounds induction =>
    refine Access.sound_ite (fun _ => ?_) fun _ => Access.sound_pure _
    refine Access.sound_bind (sound_dumpTobuf size _ _ _) fun _ _ => ?_
    refine Access.sound_ite (fun _ => Access.sound_pure _) fun _ => ?_
    exact Access.sound_bind (sound_advance size _ _) fun _ _ => induction _ _

end Sound

def Spot (size : UInt64) (room : Nat) : DumpRoom :=
  ⟨size.toNat - room, UInt64.ofNat room⟩

section Pieces

variable {size : UInt64} {room : Nat}

theorem spot_len (fits : room ≤ size.toNat) :
    (Spot size room).len.toNat = room :=
  UInt64.toNat_ofNat_of_lt' (Nat.lt_of_le_of_lt fits size.toNat_lt)

theorem store_result (offset count : Nat) :
    (store size offset count).result =
      if count = 0 ∨ offset + count ≤ size.toNat then some () else none := by
  induction count generalizing offset with
  | zero => rfl
  | succ count induction =>
    rw [store, Access.result_bind, Access.result_touch]
    by_cases own : offset < size.toNat
    · rw [if_pos (show DumpPlace.Own size (.byte offset) from own)]
      change (store size (offset + 1) count).result = _
      rw [induction]
      by_cases inside : offset + (count + 1) ≤ size.toNat
      · rw [if_pos (.inr (by omega)), if_pos (.inr inside)]
      · rw [if_neg (by omega), if_neg (by omega)]
    · rw [if_neg (show ¬ DumpPlace.Own size (.byte offset) from own),
        if_neg (by omega)]
      rfl

theorem advance_result {ret : Nat} (fits : room ≤ size.toNat) :
    (advance size ret (Spot size room)).result =
      if ret ≤ room then some (Spot size (room - ret)) else none := by
  have len := spot_len fits
  unfold advance
  rw [Access.result_bind, Access.result_touch]
  by_cases enough : ret ≤ room
  · rw [if_pos (show DumpPlace.Own size (.left (Spot size room).len ret) by
      change ret ≤ (Spot size room).len.toNat
      rw [len]
      exact enough), if_pos enough]
    have below := size.toNat_lt
    have small : (UInt64.ofNat ret).toNat = ret :=
      UInt64.toNat_ofNat_of_lt' (by
        change ret < 18446744073709551616
        omega)
    have rest : (UInt64.ofNat room - UInt64.ofNat ret) =
        UInt64.ofNat (room - ret) := by
      have whole : (UInt64.ofNat room).toNat = room := len
      refine UInt64.toNat_inj.mp ?_
      rw [UInt64.toNat_sub_of_le _ _ (by
        rw [UInt64.le_iff_toNat_le, whole, small]
        exact enough), whole, small]
      exact (UInt64.toNat_ofNat_of_lt' (by
        change room - ret < 18446744073709551616
        omega)).symm
    change some (DumpRoom.mk (size.toNat - room + ret)
      (UInt64.ofNat room - UInt64.ofNat ret)) = some (DumpRoom.mk _ _)
    congr 2
    omega
  · rw [if_neg (show ¬ DumpPlace.Own size (.left (Spot size room).len ret) by
      change ¬ ret ≤ (Spot size room).len.toNat
      rw [len]
      exact enough), if_neg enough]
    rfl

theorem print_result (text : List Char) (fits : room ≤ size.toNat) :
    (print size text (Spot size room)).result =
      if text.length ≤ room then some (Spot size (room - text.length))
      else none := by
  have len := spot_len fits
  have returned :
      (ndsnprintf size text (Spot size room)).result = some text.length := by
    unfold ndsnprintf
    split
    · rfl
    rename_i some_
    have positive : 0 < room := by
      refine Nat.pos_of_ne_zero ?_
      rintro rfl
      exact some_ rfl
    have inside : (Spot size room).p +
        (min text.length (room - 1) + 1) ≤ size.toNat := by
      change size.toNat - room + _ ≤ _
      omega
    rw [Access.result_bind, len, store_result, if_pos (Or.inr inside)]
    rfl
  unfold print
  rw [Access.result_bind, returned]
  exact advance_result fits

theorem printBytes_result (bytes : List Byte) (fits : room ≤ size.toNat) :
    (printBytes size bytes (Spot size room)).result =
      if (bytes.flatMap bytePiece).length ≤ room then
        some (Spot size (room - (bytes.flatMap bytePiece).length))
      else none := by
  induction bytes generalizing room with
  | nil => rfl
  | cons byte bytes induction =>
    rw [printBytes, Access.result_bind, print_result _ fits,
      List.flatMap_cons, List.length_append]
    by_cases enough : (bytePiece byte).length ≤ room
    · rw [if_pos enough]
      change (printBytes size bytes (Spot size _)).result = _
      rw [induction (by omega)]
      split
      · rw [if_pos (by omega)]
        congr 2
        omega
      · rw [if_neg (by omega)]
    · rw [if_neg enough, if_neg (by omega)]
      rfl

theorem printed_spot {after : Nat} (fits : room ≤ size.toNat)
    (less : after ≤ room) :
    printed (Spot size room).len (Spot size after).len =
      Int.bmod (room - after : Nat) 4294967296 := by
  have before := spot_len fits
  have behind := @spot_len size after (Nat.le_trans less fits)
  unfold printed
  rw [UInt64.toNat_sub_of_le _ _ (by
    rw [UInt64.le_iff_toNat_le, before, behind]
    exact less), before, behind]

theorem bmod_small {count : Nat} (small : count < 2147483648) :
    Int.bmod count 4294967296 = count :=
  Int.bmod_eq_of_le (by omega) (by omega)

end Pieces

/-- A field is printed as it should be, if there is room for it. -/
def Matches (room : Nat) (field : Field)
    (result : Option (Int × ReadCursor)) : Prop :=
  if field.text.length ≤ room then
    ∃ ret, result = some (ret, field.after) ∧
      if field.goesOn then ret = field.text.length ∧ 0 < ret else ret ≤ 0
  else result = none

section Fields

variable {size : UInt64} {room : Nat}

theorem Matches.of_printed {field : Field} (on : field.goesOn = true)
    (some_ : 0 < field.text.length) (short : field.text.length < 2147483648)
    (value : result = if field.text.length ≤ room then
      some (Int.bmod (room - (room - field.text.length) : Nat) 4294967296,
        field.after) else none) : Matches room field result := by
  unfold Matches
  split
  · rename_i enough
    rw [if_pos enough, Nat.sub_sub_self enough, bmod_small short] at value
    refine ⟨_, value, ?_⟩
    exact ⟨rfl, by omega⟩
  · rename_i full
    rw [if_neg full] at value
    exact value

theorem Matches.of_stopped {field : Field} {ret : Int}
    (off : field.goesOn = false) (low : ret ≤ 0)
    (value : result = if field.text.length ≤ room then
      some (ret, field.after) else none) : Matches room field result := by
  unfold Matches
  split
  · rename_i enough
    rw [if_pos enough] at value
    refine ⟨ret, value, ?_⟩
    rw [if_neg (by rw [off]; decide)]
    exact low
  · rename_i full
    rw [if_neg full] at value
    exact value

theorem outPutType_matches (label : String) {digits : Nat → List Char}
    (short : label.toList.length ≤ 8)
    (bound : ∀ value, (digits value).length ≤ 317)
    (read : Int × Nat × ReadCursor) (fits : room ≤ size.toNat) :
    Matches room (numberField label digits read)
      (outPutType size label digits read (Spot size room)).result := by
  have first : " : ".toList.length = 3 := by decide
  have last : " \n".toList.length = 2 := by decide
  unfold numberField outPutType
  by_cases found : read.1 = 0
  · rw [if_pos found, if_pos found]
    have few := bound read.2.1
    have length : (label.toList ++ " : ".toList ++ digits read.2.1 ++
        " \n".toList).length = label.toList.length +
          (digits read.2.1).length + 5 := by
      simp only [List.length_append]
      omega
    refine Matches.of_printed rfl ?_ ?_ ?_
    · rw [length]
      omega
    · rw [length]
      omega
    · rw [Access.result_bind, print_result _ fits]
      split
      · change some (printed (Spot size room).len (Spot size _).len, _) = _
        rw [printed_spot fits (Nat.sub_le _ _)]
      · rfl
  · rw [if_neg found, if_neg found]
    exact Matches.of_stopped rfl (by decide) rfl

/-- What reading a text stores: nothing, the zero of an empty text, or the text
with its zero, for which there is room. -/
theorem readText_stores (cursor : ReadCursor) (sizeBuf : UInt64) :
    (cursor.fresh.readText sizeBuf).2.1.length =
        (cursor.fresh.readText sizeBuf).1 ∧
      (cursor.fresh.readText sizeBuf).1 < 65536 ∧
      ((cursor.fresh.readText sizeBuf).1 = 0 ∧
          (cursor.fresh.readText sizeBuf).2.2.written ≤ 1 ∨
        (cursor.fresh.readText sizeBuf).1 < sizeBuf.toNat ∧
          (cursor.fresh.readText sizeBuf).2.2.written =
            (cursor.fresh.readText sizeBuf).1 + 1) := by
  rcases @ReadCursor.readText_block cursor.fresh sizeBuf with ⟨_, same⟩ | block
  · rw [same]
    exact ⟨rfl, Nat.zero_lt_succ _, .inl ⟨rfl, Nat.le_refl _⟩⟩
  · generalize cursor.fresh.readText sizeBuf = result at block ⊢
    cases block with
    | missed steady =>
      exact ⟨rfl, Nat.zero_lt_succ _,
        .inl ⟨rfl, Nat.le_trans (Nat.le_of_eq steady.written) (Nat.zero_le 1)⟩⟩
    | taken steady short there fits =>
      exact ⟨ReadCursor.bytesAt_length _ _, short, .inr ⟨fits, rfl⟩⟩

theorem dumpString_matches (cursor : ReadCursor) (fits : room ≤ size.toNat) :
    Matches room (textField cursor room)
      (dumpString size cursor (Spot size room)).result := by
  have opening : "text :[ ".toList.length = 8 := by decide
  have closing : "] \n".toList.length = 3 := by decide
  have stores := readText_stores cursor (UInt64.ofNat (room - 8))
  unfold textField dumpString
  cases read : cursor.fresh.readText (UInt64.ofNat (room - 8)) with
  | mk ret rest =>
    obtain ⟨bytes, next⟩ := rest
    rw [read] at stores
    obtain ⟨length, small, written⟩ := stores
    dsimp only at length small written ⊢
    have whole : ("text :[ ".toList ++
        bytes.map (fun byte => Char.ofNat byte.toNat) ++
          "] \n".toList).length = ret + 11 := by
      simp only [List.length_append, List.length_map, opening, closing, length]
      omega
    refine Matches.of_printed rfl ?_ ?_ ?_
    · rw [whole]
      omega
    · rw [whole]
      omega
    · rw [Access.result_bind, print_result _ fits, opening]
      rw [whole]
      by_cases opens : 8 ≤ room
      · rw [if_pos opens, Option.bind_some]
        have len : (Spot size (room - 8)).len = UInt64.ofNat (room - 8) := rfl
        rw [len, read]
        have moved := @advance_result size (room - 8) ret (by omega)
        have closed := fun after (less : after ≤ room) =>
          @print_result size after "] \n".toList (Nat.le_trans less fits)
        rw [closing] at closed
        by_cases enough : ret + 11 ≤ room
        · have stored : (store size (Spot size (room - 8)).p
              next.written).result = some () := by
            rw [store_result, if_pos]
            change _ ∨ size.toNat - (room - 8) + next.written ≤ size.toNat
            omega
          rw [if_pos (by omega)] at moved
          rw [Access.result_bind, stored, Option.bind_some,
            Access.result_bind, moved, Option.bind_some, Access.result_bind,
            closed _ (by omega), if_pos (by omega), Option.bind_some,
            if_pos enough, Nat.sub_sub, Nat.sub_sub,
            show 8 + (ret + 3) = ret + 11 by omega]
          change some (printed (Spot size room).len (Spot size _).len, _) = _
          rw [printed_spot fits (Nat.sub_le _ _)]
        · rw [if_neg enough, Access.result_bind, Access.result_bind, moved]
          cases (store size (Spot size (room - 8)).p next.written).result with
          | none => rfl
          | some _ =>
            rw [Option.bind_some]
            split
            · rw [Option.bind_some, Access.result_bind,
                closed _ (by omega), if_neg (by omega)]
              rfl
            · rfl
      · rw [if_neg opens, if_neg (by omega)]
        rfl

theorem bytePiece_length (byte : Byte) : (bytePiece byte).length ≤ 12 := by
  have first : "0x".toList.length = 2 := by decide
  have last : ", ".toList.length = 2 := by decide
  have small := byte.toNat_lt
  have digits : ∀ value < 16 ^ 8, (Str.hexText value).length ≤ 8 :=
    fun value bits =>
      (Nat.length_toDigits_le_iff (b := 16) (by decide) (by decide)).mpr bits
  unfold bytePiece
  simp only [List.length_append, first, last]
  have few := digits (if byte.toNat < 128 then byte.toNat
    else byte.toNat + 4294967040) (by split <;> omega)
  omega

theorem bytePieces_length (bytes : List Byte) :
    (bytes.flatMap bytePiece).length ≤ 12 * bytes.length := by
  induction bytes with
  | nil => exact Nat.le_refl _
  | cons byte bytes induction =>
    have piece := bytePiece_length byte
    rw [List.flatMap_cons, List.length_append, List.length_cons]
    omega

theorem print_last {printedBefore : Nat} (text : List Char) (after : ReadCursor)
    (fits : room ≤ size.toNat) (less : printedBefore ≤ room) :
    ((print size text (Spot size (room - printedBefore))).result.bind
      fun closed => (pure (printed (Spot size room).len closed.len, after) :
        Access DumpPlace (Int × ReadCursor)).result) =
      if printedBefore + text.length ≤ room then
        some (Int.bmod (room - (room - (printedBefore + text.length)) : Nat)
          4294967296, after)
      else none := by
  rw [print_result _ (Nat.le_trans (Nat.sub_le _ _) fits), Nat.sub_sub]
  by_cases enough : printedBefore + text.length ≤ room
  · rw [if_pos (by omega), if_pos enough, Option.bind_some]
    change some (printed (Spot size room).len (Spot size _).len, _) = _
    rw [printed_spot fits (Nat.sub_le _ _)]
  · rw [if_neg (by omega), if_neg enough]
    rfl

theorem dumpBin_matches (host : DumpHost) (cursor : ReadCursor)
    (fits : room ≤ size.toNat) :
    Matches room (binField host cursor)
      (dumpBin size host cursor (Spot size room)).result := by
  have opening : "bin : [".toList.length = 7 := by decide
  have null : "NULL] \n".toList.length = 7 := by decide
  have closing : "] \n".toList.length = 3 := by decide
  unfold binField dumpBin
  cases cursor.fresh.peekBinSize with
  | mk datalen next =>
    dsimp only
    by_cases empty : datalen = 0
    · simp only [if_pos empty]
      have whole : ("bin : [".toList ++ "NULL] \n".toList).length = 14 := by
        decide
      refine Matches.of_printed rfl (by
        rw [whole]
        decide) (by
        rw [whole]
        decide) ?_
      dsimp only
      rw [whole, Access.result_bind, print_result _ fits, opening]
      by_cases opens : 7 ≤ room
      · rw [if_pos opens, Option.bind_some, Access.result_bind,
          print_last _ _ fits opens, null]
      · rw [if_neg opens, if_neg (by omega)]
        rfl
    · by_cases granted : host.grants next = true
      · simp only [if_neg empty, if_pos granted]
        have bytes := (@ReadCursor.readBin_block next.fresh
          (UInt64.ofNat (datalen + 8))).length
        cases read : next.fresh.readBin (UInt64.ofNat (datalen + 8)) with
        | mk ret rest =>
          obtain ⟨data, after⟩ := rest
          rw [read] at bytes
          dsimp only at bytes ⊢
          have pieces := bytePieces_length data
          have whole : ("bin : [".toList ++ data.flatMap bytePiece ++
              "] \n".toList).length =
                7 + (data.flatMap bytePiece).length + 3 := by
            simp only [List.length_append, opening, closing]
          refine Matches.of_printed rfl ?_ ?_ ?_
          · rw [whole]
            omega
          · rw [whole]
            omega
          · dsimp only
            rw [whole, Access.result_bind, print_result _ fits, opening]
            by_cases opens : 7 ≤ room
            · rw [if_pos opens, Option.bind_some, Access.result_bind,
                printBytes_result _ (by omega)]
              by_cases shown : (data.flatMap bytePiece).length ≤ room - 7
              · rw [if_pos shown, Option.bind_some, Access.result_bind,
                  Nat.sub_sub, print_last _ _ fits (by omega), closing]
              · rw [if_neg shown, if_neg (by omega)]
                rfl
            · rw [if_neg opens, if_neg (by omega)]
              rfl
      · rw [if_neg empty, if_neg granted]
        refine Matches.of_stopped rfl (by decide : (-1 : Int) ≤ 0) ?_
        rw [Access.result_bind, print_result _ fits]
        dsimp only
        rw [opening]
        by_cases opens : 7 ≤ room
        · rw [if_pos opens, if_pos opens, Option.bind_some, if_neg empty,
            if_neg granted]
          rfl
        · rw [if_neg opens, if_neg opens]
          rfl

theorem signedText_short {bits : Nat} (positive : 0 < bits)
    (word : bits ≤ 18446744073709551616) (value : Nat) :
    (signedText bits value).length ≤ 317 := by
  have low := @Int.le_bmod value bits positive
  have high := @Int.bmod_lt value bits positive
  have digits : (Str.decText (Int.bmod value bits)).length ≤ 19 + 1 :=
    Str.decText_length (by decide) (by omega)
  exact Nat.le_trans digits (by decide)

/-- One field: it is printed in full if there is room for it, and else the
pointer leaves the buffer. -/
theorem dumpTobuf_matches (host : DumpHost) (cursor : ReadCursor)
    (fits : room ≤ size.toNat) :
    Matches room (field host cursor room)
      (dumpTobuf size host cursor (Spot size room)).result := by
  have narrow := @signedText_short 4294967296 (by decide) (by decide)
  have wide := @signedText_short 18446744073709551616 (by decide) (by decide)
  unfold field dumpTobuf
  dsimp only
  split_ifs
  · exact outPutType_matches _ (by decide) narrow _ fits
  · exact outPutType_matches _ (by decide) narrow _ fits
  · exact outPutType_matches _ (by decide) narrow _ fits
  · exact outPutType_matches _ (by decide) wide _ fits
  · exact outPutType_matches _ (by decide) (host.short 4) _ fits
  · exact outPutType_matches _ (by decide) (host.short 8) _ fits
  · exact dumpString_matches _ fits
  · exact dumpBin_matches host _ fits
  · exact Matches.of_stopped rfl (Int.le_refl 0) rfl
  · exact Matches.of_stopped rfl (by decide : (-1 : Int) ≤ 0) rfl

end Fields

section Whole

variable {host : DumpHost} {size : UInt64} {cursor : ReadCursor} {room : Nat}

theorem dumpLoop_result (fits : room ≤ size.toNat) (rounds : Nat) :
    (dumpLoop size host (rounds + 1) cursor (Spot size room)).result =
      if 0 < cursor.leftData then
        if (field host cursor room).text.length ≤ room then
          if (field host cursor room).goesOn then
            (dumpLoop size host rounds (field host cursor room).after
              (Spot size
                (room - (field host cursor room).text.length))).result
          else some (some (printed size (Spot size room).len,
            (field host cursor room).after))
        else none
      else some (some (printed size (Spot size room).len, cursor)) := by
  have one := dumpTobuf_matches host cursor fits
  rw [dumpLoop]
  split
  · rw [Access.result_bind]
    unfold Matches at one
    split at one
    · rename_i enough
      obtain ⟨ret, value, meaning⟩ := one
      rw [value, if_pos enough, Option.bind_some]
      dsimp only
      split at meaning
      · rename_i on
        obtain ⟨counted, positive⟩ := meaning
        rw [if_neg (by omega), if_pos on, Access.result_bind]
        have count : ret.toNat = (field host cursor room).text.length := by
          omega
        rw [count, advance_result fits, if_pos enough]
        rfl
      · rename_i off
        rw [if_pos meaning, if_neg off]
        rfl
    · rename_i full
      rw [one, if_neg full]
      rfl
  · rfl

theorem spot_start : Spot size size.toNat = ⟨0, size⟩ := by
  unfold Spot
  rw [Nat.sub_self, UInt64.ofNat_toNat]

theorem dumpText_eq (rounds : Nat) :
    dumpText size host rounds cursor =
      dumpLoop size host rounds cursor (Spot size size.toNat) := by
  rw [spot_start, dumpText]

theorem printed_bounds (fits : room ≤ size.toNat) :
    (0 ≤ printed size (Spot size room).len ∧
        printed size (Spot size room).len ≤ size.toNat) ↔
      (size.toNat - room) % 4294967296 < 2147483648 := by
  have value := printed_spot (Nat.le_refl size.toNat) fits
  rw [spot_start] at value
  rw [value, Int.bmod_def]
  constructor
  · intro bounds
    split at bounds <;> omega
  · intro low
    split <;> omega

theorem Complete.ends (complete : Complete host size cursor room)
    (fits : room ≤ size.toNat) :
    ∃ rounds ret after,
      (dumpLoop size host rounds cursor (Spot size room)).result =
          some (some (ret, after)) ∧ 0 ≤ ret ∧ ret ≤ size.toNat := by
  induction complete with
  | @done cursor room empty low =>
    refine ⟨1, _, cursor, ?_, (printed_bounds fits).mpr low⟩
    rw [dumpLoop_result fits, if_neg empty]
  | @stop cursor room left enough off low =>
    refine ⟨1, _, (field host cursor room).after, ?_,
      (printed_bounds fits).mpr low⟩
    rw [dumpLoop_result fits, if_pos left, if_pos enough, if_neg (by
      rw [off]
      exact Bool.false_ne_true)]
  | next left enough on _ induction =>
    obtain ⟨rounds, ret, after, value, bounds⟩ :=
      induction (Nat.le_trans (Nat.sub_le _ _) fits)
    refine ⟨rounds + 1, ret, after, ?_, bounds⟩
    rw [dumpLoop_result fits, if_pos left, if_pos enough, if_pos on]
    exact value

theorem Complete.goesOn (complete : Complete host size cursor room)
    (fits : room ≤ size.toNat) (rounds : Nat) :
    (dumpLoop size host rounds cursor (Spot size room)).result.isSome := by
  induction complete generalizing rounds with
  | done empty low =>
    cases rounds with
    | zero => rfl
    | succ rounds =>
      rw [dumpLoop_result fits, if_neg empty]
      rfl
  | stop left enough off low =>
    cases rounds with
    | zero => rfl
    | succ rounds =>
      rw [dumpLoop_result fits, if_pos left, if_pos enough, if_neg (by
        rw [off]
        exact Bool.false_ne_true)]
      rfl
  | next left enough on _ induction =>
    cases rounds with
    | zero => rfl
    | succ rounds =>
      rw [dumpLoop_result fits, if_pos left, if_pos enough, if_pos on]
      exact induction (Nat.le_trans (Nat.sub_le _ _) fits) rounds

theorem Complete.of_ends {rounds : Nat} {ret : Int} {after : ReadCursor}
    (value : (dumpLoop size host rounds cursor (Spot size room)).result =
      some (some (ret, after)))
    (bounds : 0 ≤ ret ∧ ret ≤ size.toNat) (fits : room ≤ size.toNat) :
    Complete host size cursor room := by
  induction rounds generalizing cursor room with
  | zero => cases value
  | succ rounds induction =>
    rw [dumpLoop_result fits] at value
    split at value
    · rename_i left
      split at value
      · rename_i enough
        split at value
        · rename_i on
          exact .next left enough on
            (induction value (Nat.le_trans (Nat.sub_le _ _) fits))
        · rename_i off
          have counted :=
            (Prod.mk.inj (Option.some.inj (Option.some.inj value))).1
          rw [← counted] at bounds
          exact .stop left enough (Bool.eq_false_iff.mpr off)
            ((printed_bounds fits).mp bounds)
      · cases value
    · rename_i empty
      have counted :=
        (Prod.mk.inj (Option.some.inj (Option.some.inj value))).1
      rw [← counted] at bounds
      exact .done empty ((printed_bounds fits).mp bounds)

end Whole

/-- Dumping keeps to its buffer exactly if every field it meets is printed in
full in what is left of it. -/
theorem dumpText_contained_iff (host : DumpHost) (size : UInt64)
    (cursor : ReadCursor) :
    Contained host size cursor ↔ Complete host size cursor size.toNat := by
  have fits := Nat.le_refl size.toNat
  constructor
  · rintro ⟨-, rounds, ret, after, value, bounds⟩
    rw [dumpText_eq] at value
    exact Complete.of_ends value bounds fits
  · intro complete
    refine ⟨fun rounds => ?_, ?_⟩
    · rw [dumpText_eq]
      apply (sound_dumpLoop size host rounds cursor _).mp
      exact complete.goesOn fits rounds
    · simp only [dumpText_eq]
      exact complete.ends fits

def plainHost : DumpHost where
  digits _ _ := []
  short _ _ := Nat.zero_le _
  unset _ := 0
  grants _ := true

/-- Behind `text :[ ` no byte is left for the closing zero that `Read` stores
for an empty text. -/
theorem emptyText_overruns :
    ¬ Contained plainHost 8
      (ReadCursor.init (fun _ => markerByte .text 0) 1) := by
  intro contained
  have own := contained.inside 1 (.byte 8) (by decide)
  exact absurd own (by decide)

end Dump

end NdNet
