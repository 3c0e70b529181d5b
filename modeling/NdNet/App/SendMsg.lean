import NdNet.App.ProtoReads
import NdNet.Net.Packet
import Mathlib.Data.List.Flatten

/-!
# Messages that are written

`NDSendMsg` is a writer of the typed stream on the data of a message.  Whenever
the writer moves on, `onWriteStream` adds the number of bytes to the 16-bit
length in the message header.
-/

namespace NdNet

open List

def usermsgHdrlen : Nat := 6

def usermsgDataCapacity : Nat := packetSize - usermsgHdrlen

/-- `NDSendMsg`: the fields of the header that change, and the writer. -/
structure SendMsg where
  msgLength : UInt16
  maxid : UInt8
  minid : UInt8
  stream : ProtoWriteStream
  deriving DecidableEq

namespace SendMsg

def create : SendMsg where
  msgLength := UInt16.ofNat usermsgHdrlen
  maxid := 0
  minid := 0
  stream := ⟨usermsgDataCapacity, []⟩

def reset (msg : SendMsg) : SendMsg :=
  { msg with
    msgLength := UInt16.ofNat usermsgHdrlen
    stream := { msg.stream with bytes := [] } }

def setID (msg : SendMsg) (maxid minid : Int) : SendMsg :=
  { msg with maxid := UInt8.ofInt maxid, minid := UInt8.ofInt minid }

def init (msg : SendMsg) (maxid minid : Int) : SendMsg :=
  msg.reset.setID maxid minid

/-- `Init(NDUINT16)` -/
def initId (msg : SendMsg) (msgID : UInt16) : SendMsg :=
  { msg.reset with maxid := (msgID >>> 8).toUInt8, minid := msgID.toUInt8 }

def onWriteStream (msg : SendMsg) (size : Nat) : SendMsg :=
  { msg with msgLength := msg.msgLength + UInt16.ofNat size }

/-- A call of a writer.  Every step of it that moves `_op_addr` tells
`onWriteStream` by how much; the steps of one call are added up. -/
def write (msg : SendMsg) (call : WriteCall) : Int × SendMsg :=
  let written := msg.stream.perform call
  (written.1, { msg with stream := written.2 }.onWriteStream
    (written.2.bytes.length - msg.stream.bytes.length))

end SendMsg

theorem encodeBlock_length (marker : StreamMarker) {data close : List Byte}
    (some : data ≠ []) :
    (encodeBlock marker data close).length =
      3 + data.length + close.length := by
  rw [encodeBlock, if_neg some]
  simp only [length_append, length_cons, length_toNetstream]

namespace WriteCall

theorem counted_length (call : WriteCall) (some : call.counted ≠ []) :
    3 + call.counted.length ≤ call.encode.length := by
  have block (marker : StreamMarker) (close : List Byte) {data : List Byte}
      (some : data ≠ []) :
      3 + data.length ≤ (encodeBlock marker data close).length := by
    rw [encodeBlock_length marker some]
    omega
  cases call with
  | text chars => exact block .text [0x7f] some
  | bin data => exact block .bin [] some
  | _ => exact absurd rfl some

theorem counted_lt_of_mem {calls : List WriteCall} {call : WriteCall}
    (member : call ∈ calls)
    (small : (calls.flatMap encode).length ≤ 65536) :
    call.counted.length < 65536 := by
  have sublist := (singleton_sublist.mpr member).flatMap encode
  rw [flatMap_singleton] at sublist
  have part := sublist.length_le
  by_cases none : call.counted = []
  · rw [none]
    decide
  · have longer := call.counted_length none
    omega

end WriteCall

namespace ProtoWriteStream

variable {stream : ProtoWriteStream} {call : WriteCall}

theorem perform_success (success : (stream.perform call).1 ≠ -1) :
    (stream.perform call).2 = stream.push call.encode ∧
      0 < stream.getFreeLen ∧ call.encode.length ≤ stream.getFreeLen := by
  rw [perform_eq] at success ⊢
  split_ifs at success ⊢ with fits marker
  · exact ⟨rfl, fits⟩
  · exact absurd rfl success
  · exact absurd rfl success

theorem perform_fits (room : 0 < stream.getFreeLen)
    (fits : call.encode.length ≤ stream.getFreeLen) :
    stream.perform call = (0, stream.push call.encode) := by
  rw [perform_eq, if_pos ⟨room, fits⟩]

theorem perform_clean (clean : call.Clean stream.getFreeLen)
    (failed : (stream.perform call).1 = -1) :
    (stream.perform call).2 = stream := by
  rw [perform_eq] at failed ⊢
  by_cases fits : 0 < stream.getFreeLen ∧ call.encode.length ≤ stream.getFreeLen
  · rw [if_pos fits] at failed
    cases failed
  · have refused : ¬ call.checked < stream.getFreeLen := by
      rcases clean with whole | refused
      · exact fun room => fits ⟨Nat.zero_lt_of_lt room, whole⟩
      · exact Nat.not_lt_of_le refused
    rw [if_neg fits, if_neg refused]

theorem perform_unclean (unclean : ¬ call.Clean stream.getFreeLen) :
    (stream.perform call).1 = -1 ∧
      (stream.perform call).2 = stream.push (call.encode.take 1) ∧
      (call.encode.take 1).length = 1 := by
  rw [WriteCall.Clean, not_or, Nat.not_le, Nat.not_le] at unclean
  obtain ⟨longer, marker⟩ := unclean
  rw [perform_eq, if_neg (fun both => Nat.not_le_of_lt longer both.2),
    if_pos marker]
  refine ⟨rfl, rfl, ?_⟩
  rw [length_take]
  omega

theorem perform_keeps_iff :
    ((stream.perform call).1 = -1 → (stream.perform call).2 = stream) ↔
      call.Clean stream.getFreeLen := by
  constructor
  · intro keeps
    by_contra unclean
    obtain ⟨failed, pushed, length⟩ := perform_unclean unclean
    have same := congrArg (fun after => after.bytes.length) (keeps failed)
    rw [pushed, push_bytes, length_append, length] at same
    omega
  · intro clean failed
    exact perform_clean clean failed

end ProtoWriteStream

/-- A message that is being written, and the calls that have succeeded. -/
structure WriteRun where
  msg : SendMsg
  written : List WriteCall

namespace WriteRun

def fields (run : WriteRun) : List Byte :=
  run.written.flatMap WriteCall.encode

def step (run : WriteRun) (call : WriteCall) : WriteRun :=
  let result := run.msg.write call
  { msg := result.2
    written := if result.1 = -1 then run.written else run.written ++ [call] }

def Clean (run : WriteRun) (call : WriteCall) : Prop :=
  call.Clean run.msg.stream.getFreeLen

instance (run : WriteRun) (call : WriteCall) : Decidable (run.Clean call) :=
  inferInstanceAs (Decidable (call.Clean _))

/-- The stream holds the fields written with success and nothing else, and the
length in the header counts them. -/
structure Exact (start : SendMsg) (run : WriteRun) : Prop where
  bytes : run.msg.stream.bytes = start.stream.bytes ++ run.fields
  capacity : run.msg.stream.capacity = start.stream.capacity
  inside : run.written ≠ [] →
    run.msg.stream.bytes.length ≤ run.msg.stream.capacity
  msgLength : run.msg.msgLength =
    start.msgLength + UInt16.ofNat run.fields.length

variable {start : SendMsg} {run : WriteRun} {call : WriteCall}

theorem step_success (success : (run.msg.write call).1 ≠ -1) :
    (run.step call).fields = run.fields ++ call.encode ∧
      (run.step call).msg.stream = run.msg.stream.push call.encode ∧
      (run.step call).msg.msgLength =
        run.msg.msgLength + UInt16.ofNat call.encode.length := by
  have moved := (ProtoWriteStream.perform_success success).1
  have written : (run.step call).written = run.written ++ [call] :=
    if_neg success
  have length : (run.msg.stream.perform call).2.bytes.length -
      run.msg.stream.bytes.length = call.encode.length := by
    rw [moved, ProtoWriteStream.push_bytes, length_append]
    omega
  refine ⟨?_, moved, ?_⟩
  · rw [fields, written, flatMap_append, flatMap_singleton]
    rfl
  · change run.msg.msgLength + UInt16.ofNat (_ - _) = _
    rw [length]

theorem write_clean (clean : call.Clean run.msg.stream.getFreeLen)
    (failed : (run.msg.write call).1 = -1) :
    (run.msg.write call).2 = run.msg := by
  have same := ProtoWriteStream.perform_clean clean failed
  change SendMsg.onWriteStream
    { run.msg with stream := (run.msg.stream.perform call).2 } _ = _
  rw [same, Nat.sub_self]
  change ({ run.msg with
    msgLength := run.msg.msgLength + UInt16.ofNat 0 } : SendMsg) = _
  rw [show UInt16.ofNat 0 = 0 from rfl, UInt16.add_zero]

theorem step_failed (clean : run.Clean call)
    (failed : (run.msg.write call).1 = -1) : run.step call = run := by
  unfold step
  dsimp only
  rw [write_clean clean failed, if_pos failed]

theorem Exact.step (exact : run.Exact start) (clean : run.Clean call) :
    (run.step call).Exact start := by
  by_cases failed : (run.msg.write call).1 = -1
  · rw [step_failed clean failed]
    exact exact
  obtain ⟨fields, stream, length⟩ := step_success failed
  obtain ⟨-, -, fits⟩ := ProtoWriteStream.perform_success failed
  have room : call.encode.length ≤
      run.msg.stream.capacity - run.msg.stream.bytes.length := fits
  have begun := (ProtoWriteStream.perform_success failed).2.1
  exact
    { bytes := by
        rw [stream, fields, ProtoWriteStream.push_bytes, exact.bytes,
          append_assoc]
      capacity := by
        rw [stream]
        exact exact.capacity
      inside := by
        intro _
        rw [ProtoWriteStream.getFreeLen] at begun
        rw [stream, ProtoWriteStream.push_bytes,
          ProtoWriteStream.push_capacity, length_append]
        omega
      msgLength := by
        rw [length, fields, exact.msgLength, length_append,
          UInt16.ofNat_add, UInt16.add_assoc] }

theorem Exact.not_step (exact : run.Exact start)
    (unclean : ¬ run.Clean call) : ¬ (run.step call).Exact start := by
  intro later
  obtain ⟨failed, pushed, marker⟩ := ProtoWriteStream.perform_unclean unclean
  have fields : (run.step call).fields = run.fields := by
    rw [fields, show (run.step call).written = run.written from
      if_pos failed]
    rfl
  have stream : (run.step call).msg.stream =
      run.msg.stream.push (call.encode.take 1) := pushed
  have length := congrArg length later.bytes
  rw [stream, fields, ← exact.bytes, ProtoWriteStream.push_bytes,
    length_append, marker] at length
  omega

theorem exact_start (start : SendMsg) : Exact start ⟨start, []⟩ where
  bytes := (append_nil _).symm
  capacity := rfl
  inside := fun some => absurd rfl some
  msgLength := (UInt16.add_zero _).symm

theorem Exact.decodes (exact : run.Exact start)
    (empty : start.stream.bytes = [])
    (short : start.stream.capacity < 2147483648)
    (counted : 65536 < start.stream.capacity →
      ∀ call ∈ run.written, call.counted.length < 65536) :
    ∃ after, (ReadCursor.ofBytes run.msg.stream.bytes).readCalls run.written =
      (run.written.map WriteCall.reported, after) ∧ after.At [] := by
  have bytes : run.msg.stream.bytes =
      run.written.flatMap WriteCall.encode ++ [] := by
    rw [exact.bytes, empty, nil_append, append_nil]
    rfl
  have total : (run.written.flatMap WriteCall.encode).length ≤
      start.stream.capacity := by
    by_cases none : run.written = []
    · rw [none]
      exact Nat.zero_le _
    · have inside := exact.inside none
      rwa [bytes, append_nil, exact.capacity] at inside
  refine ReadCursor.readCalls_at ?_ ?_ ?_
  · rw [← bytes]
    exact ReadCursor.at_ofBytes _
  · change run.msg.stream.bytes.length < 2147483648
    rw [bytes, append_nil]
    omega
  · intro call member
    by_cases small : start.stream.capacity ≤ 65536
    · exact WriteCall.counted_lt_of_mem member (total.trans small)
    · exact counted (Nat.lt_of_not_le small) call member

end WriteRun

/-- A call that fails changes nothing exactly if it is clean, in a stream and in
a message; and exactly if all calls of a run are clean, the stream holds the
fields written with success throughout, which are then read back, if no text
and no binary among them has 65536 bytes. -/
theorem failedWrite_keeps_iff (stream : ProtoWriteStream) (start : SendMsg)
    (call : WriteCall) (calls : List WriteCall) :
    (((stream.perform call).1 = -1 → (stream.perform call).2 = stream) ↔
        call.Clean stream.getFreeLen) ∧
      (((start.write call).1 = -1 → (start.write call).2 = start) ↔
        call.Clean start.stream.getFreeLen) ∧
      ((∀ visited ∈ Runs.states WriteRun.step ⟨start, []⟩ calls,
          visited.Exact start) ↔
        Runs.Meets WriteRun.step WriteRun.Clean ⟨start, []⟩ calls) ∧
      (Runs.Meets WriteRun.step WriteRun.Clean ⟨start, []⟩ calls →
        start.stream.bytes = [] → start.stream.capacity < 2147483648 →
        ∀ visited ∈ Runs.states WriteRun.step ⟨start, []⟩ calls,
          (65536 < start.stream.capacity →
            ∀ call ∈ visited.written, call.counted.length < 65536) →
          ∃ after, (ReadCursor.ofBytes visited.msg.stream.bytes).readCalls
              visited.written =
            (visited.written.map WriteCall.reported, after) ∧
          after.At []) := by
  have exact_iff :
      (∀ visited ∈ Runs.states WriteRun.step ⟨start, []⟩ calls,
          visited.Exact start) ↔
        Runs.Meets WriteRun.step WriteRun.Clean ⟨start, []⟩ calls :=
    Runs.law_iff_meets (fun _ exact => exact)
      (fun _ _ exact _ clean => exact.step clean)
      (fun _ _ exact _ unclean => exact.not_step unclean)
      (WriteRun.exact_start start)
      (Runs.meets_of_forall (fun _ _ => trivial) _ calls)
  refine ⟨ProtoWriteStream.perform_keeps_iff, ?_, exact_iff, ?_⟩
  · constructor
    · intro keeps
      refine ProtoWriteStream.perform_keeps_iff.mp fun failed => ?_
      exact congrArg SendMsg.stream (keeps failed)
    · intro clean failed
      exact @WriteRun.write_clean ⟨start, []⟩ call clean failed
  · intro clean empty short visited member counted
    exact (exact_iff.mpr clean visited member).decodes empty short counted

/-- Three bytes of room: a number of two bytes fits, one of four does not, and
its marker stays. -/
theorem failedWrite_leaves_marker :
    ((ProtoWriteStream.mk 3 []).perform (.u32 0x10000)).1 = -1 ∧
      ((ProtoWriteStream.mk 3 []).perform (.u32 0x10000)).2.bytes = [0x34] ∧
      ¬ ∀ (stream : ProtoWriteStream) (call : WriteCall),
        (stream.perform call).1 = -1 → (stream.perform call).2 = stream := by
  refine ⟨by decide, by decide, ?_⟩
  intro keeps
  have same := keeps ⟨3, []⟩ (.u32 0x10000) (by decide)
  exact absurd same (by decide)

theorem failedWrite_keeps_full :
    Runs.Meets WriteRun.step WriteRun.Clean ⟨⟨6, 0, 0, ⟨4, []⟩⟩, []⟩
        [.u16 500, .stream [1, 2], .u8 0, .u32 7] ∧
      ∀ visited ∈ Runs.states WriteRun.step ⟨⟨6, 0, 0, ⟨4, []⟩⟩, []⟩
          [.u16 500, .stream [1, 2], .u8 0, .u32 7],
        visited.Exact ⟨6, 0, 0, ⟨4, []⟩⟩ :=
  have clean : Runs.Meets WriteRun.step WriteRun.Clean
      ⟨⟨6, 0, 0, ⟨4, []⟩⟩, []⟩ [.u16 500, .stream [1, 2], .u8 0, .u32 7] := by
    decide
  ⟨clean, (failedWrite_keeps_iff ⟨0, []⟩ _ (.u8 0) _).2.2.1.mpr clean⟩

def ProtoWriteStream.lengthField (stream : ProtoWriteStream) (offset : Nat) :
    Nat :=
  fromNetstream ((stream.bytes.drop (offset + 1)).take 2)

theorem fromNetstream_two_lt (value : Nat) :
    fromNetstream (toNetstream 2 value) < 65536 := by
  have high := (UInt8.ofNat (value / 256 ^ 1)).toNat_lt
  have low := (UInt8.ofNat (value / 256 ^ 0)).toNat_lt
  change 256 * (256 * 0 + (UInt8.ofNat (value / 256 ^ 1)).toNat) +
    (UInt8.ofNat (value / 256 ^ 0)).toNat < 65536
  omega

namespace ProtoWriteStream

variable {stream : ProtoWriteStream}

theorem lengthField_iff (marker : StreamMarker) {data close : List Byte}
    (some : data ≠ []) :
    (stream.push (encodeBlock marker data close)).lengthField
        stream.bytes.length = data.length ↔ data.length < 65536 := by
  have stored : (stream.push (encodeBlock marker data close)).lengthField
      stream.bytes.length = fromNetstream (toNetstream 2 data.length) := by
    rw [lengthField, push_bytes, encodeBlock, if_neg some, drop_append,
      drop_eq_nil_of_le (Nat.le_succ _), Nat.add_sub_cancel_left]
    rfl
  rw [stored]
  constructor
  · intro same
    have small := fromNetstream_two_lt data.length
    omega
  · intro small
    exact fromNetstream_toNetstream small

end ProtoWriteStream

inductive SendCall where
  | init (maxid minid : Int)
  | initId (msgID : UInt16)
  | setID (maxid minid : Int)
  | write (call : WriteCall)

namespace SendMsg

def perform (msg : SendMsg) : SendCall → SendMsg
  | .init maxid minid => msg.init maxid minid
  | .initId msgID => msg.initId msgID
  | .setID maxid minid => msg.setID maxid minid
  | .write call => (msg.write call).2

/-- The stream is that of the message, and the length counts it as far as 16
bits go. -/
structure Counted (msg : SendMsg) : Prop where
  capacity : msg.stream.capacity = usermsgDataCapacity
  inside : msg.stream.bytes.length ≤ usermsgDataCapacity
  msgLength : msg.msgLength =
    UInt16.ofNat (usermsgHdrlen + msg.stream.bytes.length)

variable {msg : SendMsg}

theorem counted_create : create.Counted :=
  ⟨rfl, Nat.zero_le _, rfl⟩

theorem counted_reset (capacity : msg.stream.capacity = usermsgDataCapacity) :
    msg.reset.Counted :=
  ⟨capacity, Nat.zero_le _, rfl⟩

theorem Counted.write (counted : msg.Counted) (call : WriteCall) :
    (msg.write call).2.Counted := by
  have pushed (more : List Byte) (room : more.length ≤ msg.stream.getFreeLen)
      (after : (msg.stream.perform call).2 = msg.stream.push more) :
      (msg.write call).2.Counted := by
    have length : (msg.stream.perform call).2.bytes.length =
        msg.stream.bytes.length + more.length := by
      rw [after, ProtoWriteStream.push_bytes, length_append]
    rw [ProtoWriteStream.getFreeLen, counted.capacity] at room
    refine ⟨?_, ?_, ?_⟩
    · change (msg.stream.perform call).2.capacity = _
      rw [after]
      exact counted.capacity
    · change (msg.stream.perform call).2.bytes.length ≤ _
      have inside := counted.inside
      omega
    · change msg.msgLength + UInt16.ofNat
        ((msg.stream.perform call).2.bytes.length -
          msg.stream.bytes.length) = UInt16.ofNat
            (usermsgHdrlen + (msg.stream.perform call).2.bytes.length)
      rw [length, counted.msgLength, Nat.add_sub_cancel_left,
        ← UInt16.ofNat_add, Nat.add_assoc]
  have result := @ProtoWriteStream.perform_eq msg.stream call
  by_cases fits : 0 < msg.stream.getFreeLen ∧
      call.encode.length ≤ msg.stream.getFreeLen
  · rw [if_pos fits] at result
    exact pushed call.encode fits.2 (by rw [result])
  rw [if_neg fits] at result
  by_cases marker : call.checked < msg.stream.getFreeLen
  · rw [if_pos marker] at result
    refine pushed (call.encode.take 1) ?_ (by rw [result])
    rw [length_take]
    omega
  · rw [if_neg marker] at result
    refine pushed [] (Nat.zero_le _) ?_
    rw [result, ProtoWriteStream.push, append_nil]

theorem Counted.perform (counted : msg.Counted) (call : SendCall) :
    (msg.perform call).Counted := by
  cases call with
  | init maxid minid | initId msgID =>
    have fresh := counted_reset counted.capacity
    exact ⟨fresh.capacity, fresh.inside, fresh.msgLength⟩
  | setID maxid minid =>
    exact ⟨counted.capacity, counted.inside, counted.msgLength⟩
  | write call => exact counted.write call

theorem Counted.msgLength_iff (counted : msg.Counted) :
    msg.msgLength.toNat = usermsgHdrlen + msg.stream.bytes.length ↔
      msg.stream.bytes.length < usermsgDataCapacity := by
  rw [counted.msgLength, UInt16.toNat_ofNat']
  rw [usermsgDataCapacity, packetSize, usermsgHdrlen] at *
  omega

end SendMsg

/-- The length in front of a text or a binary is right exactly if the true one
has 16 bits; that of a message, after any calls, exactly if its data area is
not completely full. -/
theorem lengthFields_exact_iff (stream : ProtoWriteStream)
    (chars data : List Byte) (calls : List SendCall) :
    ((stream.writeText chars).1 = 0 → cString chars ≠ [] →
        ((stream.writeText chars).2.lengthField stream.bytes.length =
            (cString chars).length ↔ (cString chars).length < 65536)) ∧
      ((stream.writeBin data).1 = 0 → data ≠ [] →
        ((stream.writeBin data).2.lengthField stream.bytes.length =
            data.length ↔ data.length < 65536)) ∧
      ∀ visited ∈ Runs.states SendMsg.perform SendMsg.create calls,
        (visited.msgLength.toNat = usermsgHdrlen + visited.stream.bytes.length ↔
          visited.stream.bytes.length < usermsgDataCapacity) := by
  have accepted {ret : Int} (fine : ret = 0) : ret ≠ -1 := by
    rw [fine]
    decide
  refine ⟨?_, ?_, ?_⟩
  · intro fine some
    have moved := (@ProtoWriteStream.perform_success stream (.text chars)
      (accepted fine)).1
    change (stream.writeText chars).2 = _ at moved
    rw [moved]
    exact ProtoWriteStream.lengthField_iff .text some
  · intro fine some
    have moved := (@ProtoWriteStream.perform_success stream (.bin data)
      (accepted fine)).1
    change (stream.writeBin data).2 = _ at moved
    rw [moved]
    exact ProtoWriteStream.lengthField_iff .bin some
  · intro visited member
    have preserved (msg : SendMsg) (call : SendCall) (counted : msg.Counted) :
        (msg.perform call).Counted := counted.perform call
    have counted := Runs.invariant_of_preserved preserved
      SendMsg.counted_create calls visited member
    exact counted.msgLength_iff

theorem lengthFields_exact_short :
    ((ProtoWriteStream.mk 9 []).writeText [104, 105]).2.lengthField 0 = 2 ∧
      ((ProtoWriteStream.mk 9 []).writeBin [1, 2, 3]).2.lengthField 0 = 3 ∧
      ([SendCall.initId 0x102, .write (.u8 7)].foldl SendMsg.perform
        SendMsg.create).msgLength.toNat = 8 :=
  have exact_iff := lengthFields_exact_iff ⟨9, []⟩ [104, 105] [1, 2, 3]
    [.initId 0x102, .write (.u8 7)]
  ⟨(exact_iff.1 (by decide) (by decide)).mpr (by decide),
    (exact_iff.2.1 (by decide) (by decide)).mpr (by decide),
    (exact_iff.2.2 _ (Runs.foldl_mem_states _ _ _)).mpr (by decide)⟩

/-- A message that is filled completely has the length 0, and a binary of 65536
bytes too. -/
theorem lengthFields_truncated :
    (∃ calls visited, visited ∈ Runs.states SendMsg.perform SendMsg.create
        calls ∧ visited.stream.bytes.length = usermsgDataCapacity ∧
      visited.msgLength.toNat ≠
        usermsgHdrlen + visited.stream.bytes.length) ∧
    ∃ (stream : ProtoWriteStream) (data : List Byte),
      (stream.writeBin data).1 = 0 ∧ data ≠ [] ∧
        (stream.writeBin data).2.lengthField stream.bytes.length ≠
          data.length := by
  constructor
  · obtain ⟨data, length⟩ : ∃ data : List Byte,
        data.length = usermsgDataCapacity :=
      ⟨replicate usermsgDataCapacity 0, length_replicate⟩
    have filled : SendMsg.create.stream.perform (.stream data) =
        (0, SendMsg.create.stream.push data) :=
      ProtoWriteStream.perform_fits (by decide) (Nat.le_of_eq length)
    have full : (SendMsg.create.write (.stream data)).2.stream.bytes.length =
        usermsgDataCapacity := by
      change (SendMsg.create.stream.perform (.stream data)).2.bytes.length = _
      rw [filled, ProtoWriteStream.push_bytes, length_append, length]
      rfl
    refine ⟨[.write (.stream data)], (SendMsg.create.write (.stream data)).2,
      ?_, full, ?_⟩
    · exact Runs.foldl_mem_states SendMsg.perform SendMsg.create
        [.write (.stream data)]
    · intro same
      have counted := SendMsg.counted_create.write (.stream data)
      have below := counted.msgLength_iff.mp same
      rw [full] at below
      exact absurd below (Nat.lt_irrefl _)
  · obtain ⟨data, length⟩ : ∃ data : List Byte, data.length = 65536 :=
      ⟨replicate 65536 0, length_replicate⟩
    have some : data ≠ [] := by
      rw [← length_pos_iff, length]
      decide
    have field : (WriteCall.bin data).encode.length = 65539 := by
      rw [WriteCall.encode, encodeBlock_length .bin some, length]
      rfl
    have written : (ProtoWriteStream.mk 65539 []).perform (.bin data) =
        (0, (ProtoWriteStream.mk 65539 []).push
          (encodeBlock .bin data [])) :=
      ProtoWriteStream.perform_fits (by decide) (Nat.le_of_eq field)
    change (ProtoWriteStream.mk 65539 []).writeBin data = _ at written
    refine ⟨⟨65539, []⟩, data, by rw [written], some, ?_⟩
    rw [written]
    intro same
    have small := (ProtoWriteStream.lengthField_iff .bin some).mp same
    omega

end NdNet
