import NdNet.App.ProtoMarkers

/-!
# Skipping to the end of a structure

`TrytoMoveStructEnd` steps over the fields from the position on until it meets
the end mark of the structure.  It knows the length of every kind of field; a
text or a binary is as long as the 16 bits in front of it say.  If it does not
get there it puts the position back, but not the flag that the commands among
the bytes have set.
-/

namespace NdNet

open List

def WriteCall.isField : WriteCall → Bool
  | stream _ => false
  | _ => true

/-- The same field, but for the bytes of a text or a binary. -/
inductive WriteCall.SameShape : WriteCall → WriteCall → Prop where
  | text (chars others : List Byte)
      (length : (cString chars).length = (cString others).length) :
      SameShape (.text chars) (.text others)
  | bin (data others : List Byte) (length : data.length = others.length) :
      SameShape (.bin data) (.bin others)
  | same (call : WriteCall) : SameShape call call

theorem WriteCall.encode_cons (call : WriteCall) (field : call.isField = true) :
    ∃ marker payload, call.encode = marker :: payload := by
  have int (marker : StreamMarker) {sizes : List Nat} (value : Nat)
      (some : sizes ≠ []) (small : ∀ size ∈ sizes, size < 16) :
      ∃ first payload, encodeInt marker sizes value = first :: payload := by
    obtain ⟨_, payload, _, encode⟩ := encodeInt_cons marker value some small
    exact ⟨_, payload, encode⟩
  have block (marker : StreamMarker) (data close : List Byte) :
      ∃ first payload, encodeBlock marker data close = first :: payload := by
    obtain ⟨_, payload, _, encode⟩ := encodeBlock_cons marker data close
    exact ⟨_, payload, encode⟩
  cases call with
  | u8 a | u16 a | u32 a | u64 a => exact int _ _ (by decide) (by decide)
  | force16 a | force32 a => exact ⟨_, _, rfl⟩
  | float a | double a =>
    rw [encode]
    split <;> exact ⟨_, _, rfl⟩
  | text chars | bin data => exact block _ _ _
  | stream data => cases field
  | ip a => exact ⟨_, _, rfl⟩

theorem WriteCall.SameShape.length {call other : WriteCall}
    (same : call.SameShape other) :
    call.counted.length = other.counted.length ∧
      call.encode.length = other.encode.length ∧
      call.isField = other.isField := by
  have block (marker : StreamMarker) {data others : List Byte}
      (close : List Byte) (length : data.length = others.length) :
      (encodeBlock marker data close).length =
        (encodeBlock marker others close).length := by
    have empty : data = [] ↔ others = [] := by
      rw [← length_eq_zero_iff, length, length_eq_zero_iff]
    unfold encodeBlock
    by_cases none : data = []
    · rw [if_pos none, if_pos (empty.mp none)]
    · rw [if_neg none, if_neg (mt empty.mpr none)]
      simp only [length_append, length_cons, length_toNetstream, length]
  cases same with
  | text chars others length =>
    exact ⟨length, block .text [0x7f] length, rfl⟩
  | bin data others length => exact ⟨length, block .bin [] length, rfl⟩
  | same => exact ⟨rfl, rfl, rfl⟩

variable {extra : Nat}

variable {fields : List WriteCall} {bytes : List Byte} {after : ReadCursor}
variable {value : List Byte} {length : Nat}

namespace ReadCursor

variable {cursor : ReadCursor} {rest : List Byte}

/-- The flags are as after `Init`; only `m_bStruckEndMarker` may be set by a
read before. -/
structure Unskipping (cursor : ReadCursor) : Prop where
  skipEndMarker : cursor.skipEndMarker = false
  skipEndAllStream : cursor.skipEndAllStream = false

theorem Past.unskipping (past : Past cursor after rest)
    (flags : cursor.Unskipping) : after.Unskipping :=
  ⟨past.skipEndMarker.trans flags.skipEndMarker,
    past.skipEndAllStream.trans flags.skipEndAllStream⟩

theorem jump_past (here : cursor.At bytes) {len : Nat}
    (inside : len ≤ bytes.length) :
    Past cursor { cursor with pos := cursor.pos + len } (bytes.drop len) := by
  have split : cursor.At (bytes.take len ++ bytes.drop len) := by
    rw [take_append_drop]
    exact here
  have past := split.past cursor.reads cursor.written
  rw [length_take, Nat.min_eq_left inside] at past
  exact past

/-- The markers of the values that are as long as the marker says. -/
def sized (marker : StreamMarker) : Bool :=
  marker == .int8 || marker == .int16 || marker == .int32 ||
    marker == .int64 || marker == .float || marker == .double || marker == .ip

theorem stepOver_sized {marker : StreamMarker} (kind : sized marker = true)
    (here : cursor.At (value ++ rest)) :
    ∃ after, cursor.stepOver marker.code value.length = (true, after) ∧
      Past cursor after rest := by
  refine ⟨_, ?_, here.past cursor.reads cursor.written⟩
  unfold stepOver
  rw [if_pos]
  cases marker <;> first | decide | cases kind

theorem stepOver_ip6 (length : value.length = 16)
    (here : cursor.At (value ++ rest)) (size : Nat) :
    ∃ after, cursor.stepOver StreamMarker.ip6.code size = (true, after) ∧
      Past cursor after rest := by
  have past := here.past cursor.reads cursor.written
  rw [length] at past
  exact ⟨_, rfl, past⟩

def closing (marker : StreamMarker) : Nat :=
  if marker = .text then 1 else 0

theorem stepOver_block {marker : StreamMarker} {body : List Byte}
    (kind : marker = .text ∨ marker = .bin)
    (here : cursor.At (toNetstream 2 length ++ body))
    (inside : length % 65536 + closing marker ≤ body.length) :
    ∃ after, cursor.stepOver marker.code 1 = (true, after) ∧
      Past cursor after (body.drop (length % 65536 + closing marker)) := by
  obtain ⟨next, read, past⟩ := readOrg_at here
  rw [length_toNetstream, fromNetstream_mod] at read
  have jump := past.trans (jump_past past.at inside)
  refine ⟨_, ?_, jump⟩
  unfold stepOver
  rcases kind with rfl | rfl
  · rw [if_neg (by decide), if_neg (by decide), if_pos (by decide),
      if_neg (by decide), read]
    rfl
  · rw [if_neg (by decide), if_neg (by decide), if_neg (by decide),
      if_pos (by decide), if_neg (by decide), read]
    rfl

theorem stepOver_empty {marker : StreamMarker}
    (kind : marker = .text ∨ marker = .bin) :
    cursor.stepOver marker.code 0 = (true, cursor) := by
  rcases kind with rfl | rfl
  · rfl
  · rfl

/-- A field as the skipping reader sees it: a marker, and bytes that are
stepped over. -/
structure Stepped (call : WriteCall) (marker : StreamMarker) (size : Nat)
    (payload : List Byte) : Prop where
  encode : call.encode = markerByte marker size :: payload
  plain : marker.code < 11
  small : size < 16
  step : ∀ (cursor : ReadCursor) (rest : List Byte),
    cursor.At (payload ++ rest) →
      ∃ after, cursor.stepOver marker.code size = (true, after) ∧
        Past cursor after rest

section Stepped

variable {call : WriteCall} {marker : StreamMarker}

theorem stepped_sized (kind : sized marker = true) {size : Nat}
    (small : size < 16) (length : value.length = size)
    (encode : call.encode = markerByte marker size :: value) :
    Stepped call marker size value := by
  constructor
  case encode => exact encode
  case plain => cases marker <;> first | decide | cases kind
  case small => exact small
  case step =>
    rw [← length]
    exact fun cursor rest here => stepOver_sized kind here

theorem stepped_int (kind : sized marker = true) {sizes : List Nat}
    {value : Nat} (some : sizes ≠ []) (usable : ∀ size ∈ sizes, size < 16)
    (encode : call.encode = encodeInt marker sizes value) :
    ∃ size payload, Stepped call marker size payload := by
  by_cases zero : value = 0
  · rw [encodeInt, if_pos zero] at encode
    exact ⟨0, [], stepped_sized kind (by decide) rfl encode⟩
  · rw [encodeInt, if_neg zero] at encode
    exact ⟨_, _, stepped_sized kind
      (usable _ (ProtoReadStream.sizeFor_mem value some))
      (length_toNetstream _ _) encode⟩

theorem stepped_floating (kind : sized marker = true) {width : Nat}
    (small : width < 16) (value : Nat) {zero : Bool}
    (encode : call.encode = if zero then [markerByte marker 0]
      else markerByte marker width :: toHost width value) :
    ∃ size payload, Stepped call marker size payload := by
  cases zero with
  | true => exact ⟨0, [], stepped_sized kind (by decide) rfl encode⟩
  | false =>
    exact ⟨width, _, stepped_sized kind small (toHost_length width value)
      encode⟩

theorem stepped_block (kind : marker = .text ∨ marker = .bin)
    {data close : List Byte} (length : close.length = closing marker)
    (small : data.length < 65536)
    (encode : call.encode = encodeBlock marker data close) :
    ∃ size payload, Stepped call marker size payload := by
  have plain : marker.code < 11 := by
    rcases kind with rfl | rfl <;> decide
  by_cases empty : data = []
  · rw [encodeBlock, if_pos empty] at encode
    refine ⟨0, [], encode, plain, by decide, ?_⟩
    intro cursor rest here
    exact ⟨cursor, stepOver_empty kind, here.left, rfl, rfl, rfl, here.inside⟩
  · rw [encodeBlock, if_neg empty] at encode
    refine ⟨1, toNetstream 2 data.length ++ data ++ close, encode, plain,
      by decide, ?_⟩
    intro cursor rest here
    have whole : data.length % 65536 + closing marker =
        (data ++ close).length := by
      rw [Nat.mod_eq_of_lt small, length_append, length]
    rw [append_assoc, append_assoc] at here
    have inside : data.length % 65536 + closing marker ≤
        (data ++ (close ++ rest)).length := by
      simp only [length_append]
      omega
    obtain ⟨after, stepped, past⟩ := stepOver_block kind here inside
    rw [whole, ← append_assoc, drop_left] at past
    exact ⟨after, stepped, past⟩

theorem stepped_ip (a : NdIp) :
    ∃ marker size payload, Stepped (.ip a) marker size payload := by
  have length := a.address_length
  cases inet : a.inet with
  | true =>
    have size : a.size = 4 := by rw [NdIp.size, inet]; rfl
    refine ⟨.ip, 4, a.address,
      stepped_sized rfl (by decide) (length.trans size) ?_⟩
    rw [WriteCall.encode, inet]
    rfl
  | false =>
    have size : a.size = 16 := by rw [NdIp.size, inet]; rfl
    refine ⟨.ip6, 15, a.address, ?_, by decide, by decide, ?_⟩
    · rw [WriteCall.encode, inet]
      rfl
    · intro cursor rest here
      exact stepOver_ip6 (length.trans size) here 15

end Stepped

theorem stepped_field {call : WriteCall} (field : call.isField = true)
    (counted : call.counted.length < 65536) :
    ∃ marker size payload, Stepped call marker size payload := by
  cases call with
  | u8 a =>
    exact ⟨.int8, stepped_int rfl (by decide) (by decide) rfl⟩
  | u16 a =>
    exact ⟨.int16, stepped_int rfl (by decide) (by decide) rfl⟩
  | u32 a =>
    exact ⟨.int32, stepped_int rfl (by decide) (by decide) rfl⟩
  | u64 a =>
    exact ⟨.int64, stepped_int rfl (by decide) (by decide) rfl⟩
  | force16 a =>
    exact ⟨.int16, 2, _, stepped_sized rfl (by decide)
      (length_toNetstream 2 a.toNat) rfl⟩
  | force32 a =>
    exact ⟨.int32, 4, _, stepped_sized rfl (by decide)
      (length_toNetstream 4 a.toNat) rfl⟩
  | float a => exact ⟨.float, stepped_floating rfl (by decide) a.toNat rfl⟩
  | double a => exact ⟨.double, stepped_floating rfl (by decide) a.toNat rfl⟩
  | text chars => exact ⟨.text, stepped_block (.inl rfl) rfl counted rfl⟩
  | bin data => exact ⟨.bin, stepped_block (.inr rfl) rfl counted rfl⟩
  | stream data => cases field
  | ip a => exact stepped_ip a

theorem leftData_at (here : cursor.At bytes) :
    cursor.leftData = Int.bmod bytes.length 4294967296 := by
  have size := here.size
  rw [leftData, size]
  congr 1
  push_cast
  omega

/-- A round that meets a value: whether it is stepped over, and whether there
is more. -/
theorem moveLoop_marker {marker : StreamMarker} {size : Nat}
    (here : cursor.At (markerByte marker size :: rest))
    (plain : marker.code < 11) (small : size < 16) :
    ∃ next, Past cursor next rest ∧ ∀ rounds orgAddr,
      moveLoop (rounds + 1) orgAddr cursor =
        if ((next.stepOver marker.code size).1 &&
            decide (0 < (next.stepOver marker.code size).2.leftData)) = true then
          moveLoop rounds orgAddr (next.stepOver marker.code size).2
        else some (false,
          { (next.stepOver marker.code size).2 with pos := orgAddr }) := by
  obtain ⟨next, marked, past⟩ := readMarker_at here plain small
  obtain ⟨fine, unstruck, read⟩ := readTypeSize_of_readMarker marked
  refine ⟨next, past, fun rounds orgAddr => ?_⟩
  rw [moveLoop]
  revert fine read
  obtain ⟨ret, type, found, after⟩ := cursor.readTypeSize
  intro fine read
  obtain ⟨rfl, same⟩ := Prod.mk.inj read
  obtain ⟨rfl, rfl⟩ := Prod.mk.inj same
  dsimp only at fine ⊢
  rw [if_neg fine, unstruck, if_neg Bool.false_ne_true]

/-- A field has been stepped over; the loop goes on if more is left, as an
`int` says. -/
theorem moveLoop_field {call : WriteCall} (field : call.isField = true)
    (counted : call.counted.length < 65536)
    (here : cursor.At (call.encode ++ rest)) :
    ∃ next, Past cursor next rest ∧ ∀ rounds orgAddr,
      moveLoop (rounds + 1) orgAddr cursor =
        if 0 < Int.bmod rest.length 4294967296 then
          moveLoop rounds orgAddr next
        else some (false, { next with pos := orgAddr }) := by
  obtain ⟨marker, size, payload, stepped⟩ := stepped_field field counted
  rw [stepped.encode, cons_append] at here
  obtain ⟨middle, early, round⟩ :=
    moveLoop_marker here stepped.plain stepped.small
  obtain ⟨next, step, late⟩ := stepped.step middle rest early.at
  refine ⟨next, early.trans late, fun rounds orgAddr => ?_⟩
  rw [round, step]
  simp only [Bool.true_and, decide_eq_true_eq, leftData_at late.at]

theorem moveLoop_endMark (flags : cursor.Unskipping)
    (here : cursor.At (netStreamStructEndMark :: rest)) (rounds orgAddr : Nat) :
    ∃ after, moveLoop (rounds + 1) orgAddr cursor = some (true, after) ∧
      after.pos = cursor.pos + 1 := by
  have there : { cursor with struckEndMarker := false }.At
      ([netStreamStructEndMark] ++ rest) := ⟨here.left, here.inside⟩
  obtain ⟨next, read, past⟩ := readOrg_at there
  have open' := past.unskipping ⟨flags.skipEndMarker, flags.skipEndAllStream⟩
  have size : cursor.size - cursor.pos = rest.length + 1 := by
    have size := here.size
    rw [length_cons] at size
    omega
  have marked : cursor.readTypeSize =
      (0, 0, 0, { next with struckEndMarker := true }) := by
    change readOrg _ 1 = _ at read
    rw [readTypeSize, size, readMarkers, read]
    dsimp only
    rw [if_neg (by decide), if_pos (by decide), open'.skipEndMarker,
      open'.skipEndAllStream]
    rfl
  refine ⟨{ next with struckEndMarker := true }, ?_, past.pos there⟩
  rw [moveLoop, marked]
  rfl

/-- More is left behind each of the fields, as an `int` says; behind the last
one there are the end mark and `extra` bytes. -/
def GoesOn (extra : Nat) : List WriteCall → Prop
  | [] => True
  | _ :: fields =>
    0 < Int.bmod ((fields.flatMap WriteCall.encode).length + (1 + extra) : Nat)
      4294967296 ∧ GoesOn extra fields

theorem moveLoop_fields {more : List Byte}
    (flat : ∀ call ∈ fields, call.isField = true)
    (counted : ∀ call ∈ fields, call.counted.length < 65536)
    (goes : GoesOn more.length fields) (flags : cursor.Unskipping)
    (here : cursor.At (fields.flatMap WriteCall.encode ++
      netStreamStructEndMark :: more)) (rounds orgAddr : Nat) :
    ∃ after,
      moveLoop (fields.length + rounds + 1) orgAddr cursor = some (true, after) ∧
        after.pos =
          cursor.pos + (fields.flatMap WriteCall.encode).length + 1 := by
  induction fields generalizing cursor with
  | nil => exact moveLoop_endMark flags here _ orgAddr
  | cons call fields induction =>
    obtain ⟨field, others⟩ := forall_mem_cons.mp flat
    obtain ⟨first, short⟩ := forall_mem_cons.mp counted
    rw [flatMap_cons, append_assoc] at here
    obtain ⟨next, past, round⟩ := moveLoop_field field first here
    obtain ⟨after, found, position⟩ :=
      induction others short goes.2 (past.unskipping flags) past.at
    refine ⟨after, ?_, ?_⟩
    · have left : (fields.flatMap WriteCall.encode ++
          netStreamStructEndMark :: more).length =
            (fields.flatMap WriteCall.encode).length + (1 + more.length) := by
        rw [length_append, length_cons, Nat.add_comm 1]
      have count : (call :: fields).length + rounds + 1 =
          (fields.length + rounds + 1) + 1 := by
        rw [length_cons]
        omega
      rw [count, round, left, if_pos goes.1, found]
    · rw [position, past.pos here, flatMap_cons, length_append]
      omega

theorem fields_length (flat : ∀ call ∈ fields, call.isField = true) :
    fields.length ≤ (fields.flatMap WriteCall.encode).length := by
  induction fields with
  | nil => exact Nat.le_refl _
  | cons call fields induction =>
    obtain ⟨field, others⟩ := forall_mem_cons.mp flat
    have some : 0 < call.encode.length := by
      obtain ⟨marker, payload, encode⟩ := call.encode_cons field
      rw [encode, length_cons]
      omega
    have later := induction others
    rw [flatMap_cons, length_append, length_cons]
    omega

/-- `TrytoMoveStructEnd` with the reader's flags clear, in front of any of the
fields, goes behind the end mark. -/
def SkipsOver (fields : List WriteCall) (more : List Byte) : Prop :=
  ∀ rest, rest <:+ fields → ∀ cursor : ReadCursor,
    cursor.At (rest.flatMap WriteCall.encode ++
      netStreamStructEndMark :: more) →
    cursor.struckEndMarker = false → cursor.Unskipping →
      ∃ after, cursor.trytoMoveStructEnd = some (true, after) ∧
        after.pos = cursor.pos + (rest.flatMap WriteCall.encode).length + 1

theorem trytoMoveStructEnd_clear (unstruck : cursor.struckEndMarker = false)
    (flags : cursor.Unskipping) (here : cursor.At bytes) :
    cursor.trytoMoveStructEnd = moveLoop (bytes.length + 1) cursor.pos cursor := by
  have size := here.size
  rw [trytoMoveStructEnd, unstruck, flags.skipEndMarker,
    flags.skipEndAllStream, if_neg (by decide)]
  congr 2
  omega

theorem GoesOn.suffix {extra : Nat} {fields rest : List WriteCall}
    (goes : GoesOn extra fields) (behind : rest <:+ fields) :
    GoesOn extra rest := by
  induction fields with
  | nil =>
    rw [suffix_nil.mp behind]
    exact goes
  | cons call fields induction =>
    rcases suffix_cons_iff.mp behind with rfl | later
    · exact goes
    · exact induction goes.2 later

theorem skipsOver_of_goesOn {more : List Byte}
    (flat : ∀ call ∈ fields, call.isField = true)
    (counted : ∀ call ∈ fields, call.counted.length < 65536)
    (goes : GoesOn more.length fields) : SkipsOver fields more := by
  intro rest behind cursor here unstruck flags
  have flat' : ∀ call ∈ rest, call.isField = true := fun call member =>
    flat call (behind.subset member)
  have enough := fields_length flat'
  rw [trytoMoveStructEnd_clear unstruck flags here]
  obtain ⟨after, found, position⟩ := moveLoop_fields flat'
    (fun call member => counted call (behind.subset member))
    (goes.suffix behind) flags here
    ((rest.flatMap WriteCall.encode ++
      netStreamStructEndMark :: more).length - rest.length) cursor.pos
  rw [length_append] at found ⊢
  rw [Nat.add_sub_cancel' (by omega)] at found
  exact ⟨after, found, position⟩

/-- A block of ones that is longer than its length says: the loop takes a one
for a marker. -/
theorem moveLoop_ones {marker : StreamMarker} {count : Nat} {close : List Byte}
    (kind : marker = .text ∨ marker = .bin) (long : 65536 ≤ count)
    (here : cursor.At
      (encodeBlock marker (List.replicate count 1) close ++ rest))
    (rounds orgAddr : Nat) :
    ∃ after, moveLoop (rounds + 2) orgAddr cursor = some (false, after) := by
  have plain : marker.code < 11 := by
    rcases kind with rfl | rfl <;> decide
  have some : replicate count (1 : Byte) ≠ [] := by
    rw [Ne, replicate_eq_nil_iff]
    omega
  rw [encodeBlock, if_neg some, length_replicate, append_assoc,
    cons_append, cons_append, append_assoc] at here
  obtain ⟨next, past, round⟩ := moveLoop_marker here plain (by decide)
  have close_le : closing marker ≤ 1 := by
    rw [closing]
    split <;> omega
  obtain ⟨middle, step, beyond⟩ := stepOver_block kind past.at (by
    rw [length_append, length_replicate]
    omega)
  rw [round, step]
  split
  · have ones : (replicate count (1 : Byte) ++ (close ++ rest)).drop
        (count % 65536 + closing marker) =
          markerByte .undefine 1 :: (replicate
            (count - (count % 65536 + closing marker) - 1) 1 ++
              (close ++ rest)) := by
      rw [drop_append_of_le_length (by
        rw [length_replicate]
        omega), drop_replicate]
      obtain ⟨left, is⟩ : ∃ left,
          count - (count % 65536 + closing marker) = left + 1 :=
        ⟨count - (count % 65536 + closing marker) - 1, by omega⟩
      rw [is, replicate_succ]
      rfl
    rw [ones] at beyond
    obtain ⟨last, -, ends⟩ :=
      moveLoop_marker beyond.at (by decide) (by decide)
    refine ⟨{ last with pos := orgAddr }, ?_⟩
    rw [ends]
    rfl
  · exact ⟨_, rfl⟩

/-- The fields are skipped whatever the bytes of texts and binaries are, and
whatever follows. -/
def SkipsAll (fields : List WriteCall) (extra : Nat) : Prop :=
  ∀ others more, List.Forall₂ WriteCall.SameShape fields others →
    more.length = extra → SkipsOver others more

theorem SkipsAll.counted (skips : SkipsAll fields extra) :
    ∀ call ∈ fields, call.counted.length < 65536 := by
  intro call member
  by_contra large
  obtain ⟨before, rest, rfl⟩ := append_of_mem member
  have oversize (other : WriteCall) (marker : StreamMarker) (close : List Byte)
      (same : call.SameShape other) (kind : marker = .text ∨ marker = .bin)
      (encode : other.encode = encodeBlock marker
        (replicate call.counted.length 1) close) : False := by
    have shape : List.Forall₂ WriteCall.SameShape (before ++ call :: rest)
        (before ++ other :: rest) :=
      rel_append (forall₂_same.mpr fun field _ => .same field)
        (.cons same (forall₂_same.mpr fun field _ => .same field))
    have start := at_ofBytes ((other :: rest).flatMap WriteCall.encode ++
      netStreamStructEndMark :: replicate extra 0)
    obtain ⟨after, found, -⟩ := skips _ _ shape length_replicate
      (other :: rest) (suffix_append _ _) _ start rfl ⟨rfl, rfl⟩
    rw [flatMap_cons, append_assoc, encode] at start found
    obtain ⟨other', ends⟩ := moveLoop_ones kind (by omega) start
      ((encodeBlock marker (replicate call.counted.length 1) close ++
        (rest.flatMap WriteCall.encode ++
          netStreamStructEndMark :: replicate extra 0)).length - 1) 0
    have rounds : (encodeBlock marker (replicate call.counted.length 1)
        close ++ (rest.flatMap WriteCall.encode ++
          netStreamStructEndMark :: replicate extra 0)).length - 1 + 2 =
      (encodeBlock marker (replicate call.counted.length 1)
        close ++ (rest.flatMap WriteCall.encode ++
          netStreamStructEndMark :: replicate extra 0)).length + 1 := by
      simp only [length_append, length_cons]
      omega
    rw [rounds] at ends
    have same := Option.some.inj (found.symm.trans ends)
    cases (Prod.mk.inj same).1
  cases call with
  | text chars =>
    have ones : cString (replicate (cString chars).length 1) =
        replicate (cString chars).length 1 := by
      rw [cString, takeWhile_replicate]
      rfl
    refine oversize (.text (replicate (cString chars).length 1)) .text
      [0x7f] (.text _ _ ?_) (.inl rfl) ?_
    · rw [ones, length_replicate]
    · rw [WriteCall.encode, ones]
      rfl
  | bin data =>
    exact oversize (.bin (replicate data.length 1)) .bin []
      (.bin _ _ length_replicate.symm) (.inr rfl) rfl
  | _ => exact large (Nat.zero_lt_succ _)

theorem SkipsAll.goesOn (flat : ∀ call ∈ fields, call.isField = true)
    (skips : SkipsAll fields extra) : GoesOn extra fields := by
  have counted := skips.counted
  have all : ∀ rest, rest <:+ fields → GoesOn extra rest := by
    intro rest
    induction rest with
    | nil => exact fun _ => trivial
    | cons call rest induction =>
      intro behind
      have member := behind.subset mem_cons_self
      refine ⟨?_, induction ((suffix_cons call rest).trans behind)⟩
      by_contra none
      have start := at_ofBytes ((call :: rest).flatMap WriteCall.encode ++
        netStreamStructEndMark :: replicate extra 0)
      obtain ⟨after, found, -⟩ := skips _ _
        (forall₂_same.mpr fun field _ => .same field)
        length_replicate (call :: rest) behind _ start rfl ⟨rfl, rfl⟩
      rw [trytoMoveStructEnd_clear rfl ⟨rfl, rfl⟩ start] at found
      rw [flatMap_cons, append_assoc] at start found
      obtain ⟨next, -, round⟩ := moveLoop_field (flat call member)
        (counted call member) start
      rw [round, length_append, length_cons,
        length_replicate, Nat.add_comm extra 1, if_neg none] at found
      cases (Prod.mk.inj (Option.some.inj found)).1
  exact all fields (suffix_refl fields)

theorem GoesOn.of_shape {fields others : List WriteCall}
    (shape : List.Forall₂ WriteCall.SameShape fields others)
    (goes : GoesOn extra fields) :
    (fields.flatMap WriteCall.encode).length =
        (others.flatMap WriteCall.encode).length ∧ GoesOn extra others := by
  induction shape with
  | nil => exact ⟨rfl, goes⟩
  | cons same _ induction =>
    obtain ⟨length, later⟩ := induction goes.2
    refine ⟨?_, ?_, later⟩
    · rw [flatMap_cons, flatMap_cons, length_append,
        length_append, same.length.2.1, length]
    · rw [← length]
      exact goes.1

theorem field_counted_of_shape {fields others : List WriteCall}
    (shape : List.Forall₂ WriteCall.SameShape fields others)
    (each : ∀ call ∈ fields,
      call.isField = true ∧ call.counted.length < 65536) :
    ∀ other ∈ others,
      other.isField = true ∧ other.counted.length < 65536 := by
  induction shape with
  | nil => exact each
  | cons same _ induction =>
    obtain ⟨first, later⟩ := forall_mem_cons.mp each
    refine forall_mem_cons.mpr ⟨?_, induction later⟩
    rw [← same.length.2.2, ← same.length.1]
    exact first

/-- A structure is skipped exactly if no block is too long for its length and
behind every field an `int` can say how much is left. -/
theorem skipsAll_iff (flat : ∀ call ∈ fields, call.isField = true) :
    SkipsAll fields extra ↔
      (∀ call ∈ fields, call.counted.length < 65536) ∧
        GoesOn extra fields := by
  constructor
  · exact fun skips => ⟨skips.counted, skips.goesOn flat⟩
  · rintro ⟨counted, goes⟩ others more shape rfl
    have each := field_counted_of_shape shape fun call member =>
      ⟨flat call member, counted call member⟩
    exact skipsOver_of_goesOn (fun other member => (each other member).1)
      (fun other member => (each other member).2) (goes.of_shape shape).2

/-- How many bytes behind its marker a value has, if the loop knows its type
and there is a length for a block. -/
def valueLength (type size : Nat) (behind : List Byte) : Option Nat :=
  if type ∈ [StreamMarker.int8.code, StreamMarker.int16.code,
      StreamMarker.int32.code, StreamMarker.int64.code,
      StreamMarker.float.code, StreamMarker.double.code,
      StreamMarker.ip.code] then some size
  else if type = StreamMarker.ip6.code then some 16
  else if type = StreamMarker.text.code ∨ type = StreamMarker.bin.code then
    if size = 0 then some 0
    else if behind.length < 2 then none
    else
      some (2 + fromNetstream (behind.take 2) +
        if type = StreamMarker.text.code then 1 else 0)
  else none

/-- The commands among the markers, up to an end mark that counts or a value
that cannot be stepped over; `true` is the command to skip end marks. -/
def commandsMet (skip : Bool) (bytes : List Byte) : List Bool :=
  match bytes with
  | [] => []
  | marker :: behind =>
    if marker = netStreamStructEndMark then
      if skip then commandsMet skip behind else []
    else if marker.toNat / 16 = StreamMarker.cmdSkipStructMark.code then
      true :: commandsMet true behind
    else if marker.toNat / 16 = StreamMarker.cmdEnableStructMark.code then
      false :: commandsMet false behind
    else
      match valueLength (marker.toNat / 16) (marker.toNat % 16) behind with
      | none => []
      | some length =>
        if 0 < Int.bmod (behind.length - length) 4294967296 then
          commandsMet skip (behind.drop length)
        else []
  termination_by bytes.length

/-- What `m_bSkipEndMarker` is after these commands. -/
def skipAfter (skip : Bool) (bytes : List Byte) : Bool :=
  (commandsMet skip bytes).getLastD skip

theorem stepOver_cases (type size : Nat) {behind : List Byte}
    (here : cursor.At behind) :
    (∃ after, valueLength type size behind = none ∧
        cursor.stepOver type size = (false, after) ∧ Strode cursor after 0) ∨
      ∃ length after, valueLength type size behind = some length ∧
        cursor.stepOver type size = (true, after) ∧
        Strode cursor after length := by
  have jump (length : Nat) :
      Strode cursor { cursor with pos := cursor.pos + length } length :=
    ⟨rfl, rfl, rfl, rfl, rfl, rfl⟩
  unfold valueLength stepOver
  by_cases direct : type ∈ [StreamMarker.int8.code, StreamMarker.int16.code,
      StreamMarker.int32.code, StreamMarker.int64.code,
      StreamMarker.float.code, StreamMarker.double.code,
      StreamMarker.ip.code]
  · rw [if_pos direct, if_pos direct]
    exact .inr ⟨_, _, rfl, rfl, jump size⟩
  rw [if_neg direct, if_neg direct]
  by_cases ip6 : type = StreamMarker.ip6.code
  · rw [if_pos ip6, if_pos ip6]
    exact .inr ⟨_, _, rfl, rfl, jump 16⟩
  rw [if_neg ip6, if_neg ip6]
  have counted := readOrg_cases 2 here
  by_cases text : type = StreamMarker.text.code
  · rw [if_pos (.inl text), if_pos text, if_pos text]
    by_cases empty : size = 0
    · rw [if_pos empty, if_pos empty]
      exact .inr ⟨_, _, rfl, rfl, .still cursor⟩
    rw [if_neg empty, if_neg empty]
    obtain ⟨short, read⟩ | ⟨next, there, read, strode⟩ := counted
    · rw [if_pos short, read]
      exact .inl ⟨_, rfl, rfl, .still cursor⟩
    · rw [if_neg (Nat.not_lt.mpr there), read]
      refine .inr ⟨_, _, rfl, rfl, { strode with pos := ?_ }⟩
      simp only [strode.pos]
      omega
  rw [if_neg text, if_neg text]
  by_cases bin : type = StreamMarker.bin.code
  · rw [if_pos (.inr bin), if_pos bin]
    by_cases empty : size = 0
    · rw [if_pos empty, if_pos empty]
      exact .inr ⟨_, _, rfl, rfl, .still cursor⟩
    rw [if_neg empty, if_neg empty]
    obtain ⟨short, read⟩ | ⟨next, there, read, strode⟩ := counted
    · rw [if_pos short, read]
      exact .inl ⟨_, rfl, rfl, .still cursor⟩
    · rw [if_neg (Nat.not_lt.mpr there), read]
      refine .inr ⟨_, _, rfl, rfl, { strode with pos := ?_ }⟩
      simp only [strode.pos]
      omega
  · rw [if_neg (not_or.mpr ⟨text, bin⟩), if_neg bin]
    exact .inl ⟨_, rfl, rfl, .still cursor⟩

theorem fromNetstream_lt (bytes : List Byte) :
    fromNetstream bytes < 256 ^ bytes.length := by
  have each (value : Nat) :
      bytes.foldl (fun value byte => 256 * value + byte.toNat) value <
        (value + 1) * 256 ^ bytes.length := by
    induction bytes generalizing value with
    | nil => simp
    | cons byte bytes induction =>
      have small := byte.toNat_lt
      have first : 256 * value + byte.toNat + 1 ≤ (value + 1) * 256 := by
        omega
      calc
        _ < (256 * value + byte.toNat + 1) * 256 ^ bytes.length :=
          induction _
        _ ≤ (value + 1) * 256 * 256 ^ bytes.length :=
          Nat.mul_le_mul_right _ first
        _ = (value + 1) * 256 ^ (byte :: bytes).length := by
          rw [length_cons, Nat.pow_succ, Nat.mul_assoc, Nat.mul_comm 256]
  simpa [fromNetstream] using each 0

theorem valueLength_le {type size : Nat} {behind : List Byte}
    (small : size < 16) (known : valueLength type size behind = some length) :
    length ≤ 65538 := by
  have counted : fromNetstream (behind.take 2) < 65536 := by
    have count : (behind.take 2).length ≤ 2 := length_take_le 2 behind
    exact Nat.lt_of_lt_of_le (fromNetstream_lt _)
      (Nat.pow_le_pow_right (by decide) count)
  unfold valueLength at known
  split_ifs at known <;> simp only [Option.some.injEq] at known <;> omega

theorem valueLength_inside {type size : Nat} {behind : List Byte}
    (small : size < 16) (known : valueLength type size behind = some length)
    (more : 0 < Int.bmod ((behind.length : Int) - length) 4294967296) :
    length ≤ behind.length := by
  have short := valueLength_le small known
  by_contra beyond
  have exactly : Int.bmod ((behind.length : Int) - length) 4294967296 =
      (behind.length : Int) - length := Int.bmod_eq_of_le (by omega) (by omega)
  omega

theorem skipAfter_nil (skip : Bool) : skipAfter skip [] = skip := by
  rw [skipAfter, commandsMet]
  rfl

theorem skipAfter_endMark (skip : Bool) (behind : List Byte) :
    skipAfter skip (netStreamStructEndMark :: behind) =
      if skip then skipAfter skip behind else skip := by
  rw [skipAfter, commandsMet, if_pos rfl]
  cases skip <;> rfl

section Markers

variable {marker : Byte} (skip : Bool) (behind : List Byte)

theorem skipAfter_skip
    (command : marker.toNat / 16 = StreamMarker.cmdSkipStructMark.code) :
    skipAfter skip (marker :: behind) = skipAfter true behind := by
  have other : marker ≠ netStreamStructEndMark := by
    rintro rfl
    exact absurd command (by decide)
  rw [skipAfter, commandsMet, if_neg other, if_pos command, getLastD_cons]
  rfl

theorem skipAfter_enable
    (command : marker.toNat / 16 = StreamMarker.cmdEnableStructMark.code) :
    skipAfter skip (marker :: behind) = skipAfter false behind := by
  have other : marker ≠ netStreamStructEndMark := by
    rintro rfl
    exact absurd command (by decide)
  rw [skipAfter, commandsMet, if_neg other, if_neg (by rw [command]; decide),
    if_pos command, getLastD_cons]
  rfl

variable (plain : marker ≠ netStreamStructEndMark)
  (noSkip : marker.toNat / 16 ≠ StreamMarker.cmdSkipStructMark.code)
  (noEnable : marker.toNat / 16 ≠ StreamMarker.cmdEnableStructMark.code)

include plain noSkip noEnable

theorem skipAfter_unknown
    (unknown : valueLength (marker.toNat / 16) (marker.toNat % 16) behind =
      none) : skipAfter skip (marker :: behind) = skip := by
  rw [skipAfter, commandsMet, if_neg plain, if_neg noSkip, if_neg noEnable,
    unknown]
  rfl

theorem skipAfter_value
    (known : valueLength (marker.toNat / 16) (marker.toNat % 16) behind =
      some length) :
    skipAfter skip (marker :: behind) =
      if 0 < Int.bmod (behind.length - length) 4294967296 then
        skipAfter skip (behind.drop length)
      else skip := by
  rw [skipAfter, commandsMet, if_neg plain, if_neg noSkip, if_neg noEnable,
    known]
  dsimp only
  split <;> rfl

end Markers

/-- The marker of a value has been read, and the commands in front of it. -/
structure NextValue (cursor after : ReadCursor) (bytes : List Byte)
    (type size : Nat) (behind : List Byte) : Prop where
  here : after.At behind
  unstruck : after.struckEndMarker = false
  every : after.skipEndAllStream = cursor.skipEndAllStream
  small : size < 16
  unknown : valueLength type size behind = none →
    skipAfter cursor.skipEndMarker bytes = after.skipEndMarker
  known : ∀ length, valueLength type size behind = some length →
    skipAfter cursor.skipEndMarker bytes =
      if 0 < Int.bmod (behind.length - length) 4294967296 then
        skipAfter after.skipEndMarker (behind.drop length)
      else after.skipEndMarker

/-- There is no value: the bytes are used up or an end mark counts. -/
structure NoValue (cursor : ReadCursor) (ret : Int) (after : ReadCursor)
    (bytes : List Byte) : Prop where
  stops : ret = -1 ∨ after.struckEndMarker = true
  every : after.skipEndAllStream = cursor.skipEndAllStream
  skip : after.skipEndMarker = skipAfter cursor.skipEndMarker bytes

def Finds (cursor : ReadCursor) (bytes : List Byte) (ret : Int)
    (type size : Nat) (after : ReadCursor) : Prop :=
  NoValue cursor ret after bytes ∨
    ret ≠ -1 ∧ ∃ behind, NextValue cursor after bytes type size behind

/-- Behind the commands in front of what comes next the flag is as after all
commands, unless a value that can be stepped over leads on to more. -/
theorem nextThing_skipAfter {skip flag : Bool} {bytes behind : List Byte}
    {thing : NextThing} (is : nextThing false skip bytes = (thing, flag, behind)) :
    (∀ type size, thing = .field type size → size < 16 ∧
      (valueLength type size behind = none → skipAfter skip bytes = flag) ∧
      ∀ length, valueLength type size behind = some length →
        skipAfter skip bytes =
          if 0 < Int.bmod (behind.length - length) 4294967296 then
            skipAfter flag (behind.drop length)
          else flag) ∧
    ((∀ type size, thing ≠ .field type size) → flag = skipAfter skip bytes) := by
  induction bytes generalizing skip with
  | nil =>
    cases is
    rw [skipAfter_nil]
    exact ⟨fun _ _ field => (by cases field), fun _ => rfl⟩
  | cons marker rest induction =>
    rw [nextThing] at is
    by_cases ends : marker = netStreamStructEndMark
    · rw [if_pos ends, Bool.or_false] at is
      rw [ends, skipAfter_endMark]
      cases skip with
      | true => exact induction is
      | false =>
        cases is
        exact ⟨fun _ _ field => (by cases field), fun _ => rfl⟩
    · rw [if_neg ends] at is
      split_ifs at is with skips enables
      · rw [skipAfter_skip skip rest skips]
        exact induction is
      · rw [skipAfter_enable skip rest enables]
        exact induction is
      simp only [Prod.mk.injEq] at is
      obtain ⟨rfl, rfl, rfl⟩ := is
      refine ⟨?_, fun none => absurd rfl (none _ _)⟩
      rintro type size field
      obtain ⟨rfl, rfl⟩ := NextThing.field.inj field
      exact ⟨Nat.mod_lt _ (by decide),
        skipAfter_unknown skip rest ends skips enables,
        fun length => skipAfter_value skip rest ends skips enables⟩

theorem readMarkers_skipAfter {bytes : List Byte} (here : cursor.At bytes)
    (every : cursor.skipEndAllStream = false)
    (unstruck : cursor.struckEndMarker = false) :
    ∃ ret type size after,
      readMarkers bytes.length cursor = (ret, type, size, after) ∧
        Finds cursor bytes ret type size after := by
  obtain ⟨⟨thing, flag, behind⟩, is⟩ :
      ∃ next, nextThing false cursor.skipEndMarker bytes = next := ⟨_, rfl⟩
  obtain ⟨after, found, reached⟩ :=
    readMarkers_eq here unstruck (every ▸ is)
  obtain ⟨values, none⟩ := nextThing_skipAfter is
  refine ⟨_, _, _, after, found, ?_⟩
  cases thing with
  | nothing =>
    refine .inl ⟨.inl rfl, reached.skipEndAllStream, ?_⟩
    exact reached.skipEndMarker.trans (none fun _ _ field => by cases field)
  | endMark =>
    refine .inl ⟨.inr reached.struckEndMarker, reached.skipEndAllStream, ?_⟩
    exact reached.skipEndMarker.trans (none fun _ _ field => by cases field)
  | field type size =>
    obtain ⟨small, unknown, known⟩ := values type size rfl
    refine .inr ⟨show (0 : Int) ≠ -1 by decide, behind, ?_⟩
    exact
      { here := reached.here
        unstruck := reached.struckEndMarker
        every := reached.skipEndAllStream
        small := small
        unknown := fun missing =>
          (unknown missing).trans reached.skipEndMarker.symm
        known := fun length present =>
          reached.skipEndMarker ▸ known length present }

theorem moveLoop_skipAfter {rounds orgAddr : Nat} {moved : Bool}
    (here : cursor.At bytes) (every : cursor.skipEndAllStream = false)
    (found : moveLoop rounds orgAddr cursor = some (moved, after)) :
    after.skipEndMarker = skipAfter cursor.skipEndMarker bytes ∧
      after.skipEndAllStream = false ∧
      (moved = false → after.pos = orgAddr) := by
  induction rounds generalizing cursor bytes with
  | zero => cases found
  | succ rounds induction =>
    have size : cursor.size - cursor.pos = bytes.length := by
      have size := here.size
      omega
    obtain ⟨ret, type, size', next, read, finds⟩ :=
      @readMarkers_skipAfter { cursor with struckEndMarker := false } bytes
        ⟨here.left, here.inside⟩ every rfl
    rw [moveLoop, readTypeSize, size, read] at found
    dsimp only at found
    rcases finds with none | ⟨fine, behind, value⟩
    · have flag : next.skipEndMarker = skipAfter cursor.skipEndMarker bytes :=
        none.skip
      have open' : next.skipEndAllStream = false := none.every.trans every
      by_cases failed : ret = -1
      · rw [if_pos failed] at found
        obtain ⟨rfl, rfl⟩ := Prod.mk.inj (Option.some.inj found)
        exact ⟨flag, open', fun _ => rfl⟩
      · rw [if_neg failed, if_pos (none.stops.resolve_left failed)] at found
        obtain ⟨rfl, rfl⟩ := Prod.mk.inj (Option.some.inj found)
        exact ⟨flag, open', fun stuck => (Bool.false_ne_true stuck.symm).elim⟩
    · have open' : next.skipEndAllStream = false := value.every.trans every
      rw [if_neg fine, value.unstruck, if_neg Bool.false_ne_true] at found
      obtain ⟨beyond, unknown, step, strode⟩ |
          ⟨length, beyond, known, step, strode⟩ :=
        stepOver_cases type size' value.here
      · have flag : next.skipEndMarker =
            skipAfter cursor.skipEndMarker bytes :=
          (value.unknown unknown).symm
        rw [step, Bool.false_and, if_neg Bool.false_ne_true] at found
        obtain ⟨rfl, rfl⟩ := Prod.mk.inj (Option.some.inj found)
        exact ⟨strode.skipEndMarker.trans flag,
          strode.skipEndAllStream.trans open', fun _ => rfl⟩
      · have flag : skipAfter cursor.skipEndMarker bytes = _ :=
          value.known length known
        rw [step] at found
        simp only [Bool.true_and, decide_eq_true_eq,
          strode.leftData value.here] at found
        by_cases more :
            0 < Int.bmod ((behind.length : Int) - length) 4294967296
        · rw [if_pos more] at flag found
          rw [flag, ← strode.skipEndMarker]
          exact induction
            (strode.at value.here
              (valueLength_inside value.small known more))
            (strode.skipEndAllStream.trans open') found
        · rw [if_neg more] at flag found
          obtain ⟨rfl, rfl⟩ := Prod.mk.inj (Option.some.inj found)
          exact ⟨strode.skipEndMarker.trans flag.symm,
            strode.skipEndAllStream.trans open', fun _ => rfl⟩

/-- The position and the flags that make a reader skip end marks are as
before. -/
structure Restored (cursor after : ReadCursor) : Prop where
  pos : after.pos = cursor.pos
  skipEndMarker : after.skipEndMarker = cursor.skipEndMarker
  skipEndAllStream : after.skipEndAllStream = cursor.skipEndAllStream

theorem skipAfter_false (bytes : List Byte) :
    skipAfter false bytes = false ↔
      (commandsMet false bytes).getLast? ≠ some true := by
  rw [skipAfter, getLastD_eq_getLast?]
  cases (commandsMet false bytes).getLast? with
  | none => simp
  | some command => cases command <;> simp

theorem restored_iff (start : cursor.pos ≤ cursor.size)
    (found : cursor.trytoMoveStructEnd = some (false, after)) :
    Restored cursor after ↔
      (commandsMet false cursor.stream.left).getLast? ≠ some true := by
  rw [trytoMoveStructEnd] at found
  split at found
  · cases (Prod.mk.inj (Option.some.inj found)).1
  rename_i clear
  rw [Bool.or_eq_true, Bool.or_eq_true, not_or, not_or, Bool.not_eq_true,
    Bool.not_eq_true, Bool.not_eq_true] at clear
  obtain ⟨⟨-, skip⟩, every⟩ := clear
  obtain ⟨flag, open', position⟩ :=
    moveLoop_skipAfter ⟨rfl, start⟩ every found
  rw [skip] at flag
  rw [← skipAfter_false, ← flag]
  constructor
  · exact fun restored => restored.skipEndMarker.trans skip
  · exact fun kept =>
      ⟨position rfl, kept.trans skip.symm, open'.trans every.symm⟩

end ReadCursor

/-- `TrytoMoveStructEnd` skips a structure, whatever the bytes of its fields
are, exactly if no block is longer than 16 bits can say and an `int` can say
behind each field how much is left.  Where it returns false it has restored the
reader exactly if the last of the commands it has met, if any, is not the one to
skip end marks. -/
theorem structEnd_iff {fields : List WriteCall} {extra : Nat}
    (flat : ∀ call ∈ fields, call.isField = true) {cursor : ReadCursor}
    (start : cursor.pos ≤ cursor.size) :
    (ReadCursor.SkipsAll fields extra ↔
      (∀ call ∈ fields, call.counted.length < 65536) ∧
        ReadCursor.GoesOn extra fields) ∧
    ∀ after, cursor.trytoMoveStructEnd = some (false, after) →
      (ReadCursor.Restored cursor after ↔
        (ReadCursor.commandsMet false cursor.stream.left).getLast? ≠
          some true) :=
  ⟨ReadCursor.skipsAll_iff flat, fun _ => ReadCursor.restored_iff start⟩

/-- An end mark inside a text is stepped over; a reader that finds no end mark
is restored. -/
theorem structEnd_text :
    ReadCursor.SkipsAll [.u8 7, .text [0xff, 0x41]] 1 ∧
      ∃ after, (ReadCursor.ofBytes [0x11, 7]).trytoMoveStructEnd =
          some (false, after) ∧
        ReadCursor.Restored (ReadCursor.ofBytes [0x11, 7]) after := by
  have found : (ReadCursor.ofBytes [0x11, 7]).trytoMoveStructEnd =
      some (false, _) := rfl
  obtain ⟨skips, restores⟩ := @structEnd_iff [.u8 7, .text [0xff, 0x41]] 1
    (by decide) (ReadCursor.ofBytes [0x11, 7]) (by decide)
  refine ⟨skips.mpr ⟨by decide, by decide, by decide, trivial⟩, _, found, ?_⟩
  rw [restores _ found]
  have left : (ReadCursor.ofBytes [0x11, 7]).stream.left = [0x11, 7] := by
    decide
  rw [left, ReadCursor.commandsMet]
  decide

/-- The command to skip end marks stays in force though no end mark was found
and the position is put back, and a binary of 65536 bytes is not skipped. -/
theorem structEnd_flag_set :
    (∃ after, (ReadCursor.ofBytes [0xb0]).trytoMoveStructEnd =
        some (false, after) ∧
      after.pos = (ReadCursor.ofBytes [0xb0]).pos ∧
      after.skipEndMarker = true ∧
      (ReadCursor.ofBytes [0xb0]).skipEndMarker = false) ∧
    ¬ ReadCursor.SkipsAll [.bin (List.replicate 65536 1)] 0 := by
  refine ⟨⟨_, rfl, rfl, rfl, rfl⟩, fun skips => ?_⟩
  have short := skips.counted _ mem_cons_self
  rw [WriteCall.counted, length_replicate] at short
  exact Nat.lt_irrefl _ short

end NdNet
