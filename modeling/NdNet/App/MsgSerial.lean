import NdNet.App.SendMsg
import NdNet.Lib.Memory
import NdNet.Net.Crypt

/-!
# Messages as blocks of bytes

`NDSendMsg::GetSerialBin` is to copy the packet that the member `_packet` points
to.  It copies from `&_packet`, where the address of the packet is kept, and on
through whatever lies behind the object.  `NDRecvMsg::GetSerialBin` copies from
the packet.
-/

namespace NdNet

namespace SendMsg

/-- The header in memory, as `nd_usermsghdr_init` and the calls after it have
left it. -/
def header (msg : SendMsg) : List Byte :=
  hostBytes msg.msgLength.toNat ++ [ndnetmsgVersion, 0, msg.maxid, msg.minid]

def serial (msg : SendMsg) : List Byte :=
  msg.header ++ msg.stream.bytes

/-- Where the message is: `_packet` is kept at the address `place`, and the
packet is where it points. -/
structure Placed (msg : SendMsg) (memory : Mem Byte) (place packet : Nat) :
    Prop where
  pointer : memory.bytes place 8 = toHost 8 packet
  content : memory.bytes packet msg.serial.length = msg.serial

/-- `GetSerialBin`: the number returned and the bytes that have been copied. -/
def getSerialBin (msg : SendMsg) (memory : Mem Byte) (place bufsize : Nat) :
    Nat × List Byte :=
  let len := msg.msgLength.toNat
  if bufsize < len then (0, []) else (len, memory.bytes place len)

end SendMsg

/-- `NDRecvMsg` on a packet. -/
structure RecvMsg where
  packet : List Byte
  reader : ReadCursor

namespace RecvMsg

def init (packet : List Byte) : RecvMsg where
  packet := packet
  reader := .init (fun index => byteAt packet (usermsgHdrlen + index))
    (packLen packet - usermsgHdrlen)

def maxid (msg : RecvMsg) : UInt8 :=
  byteAt msg.packet 4

def minid (msg : RecvMsg) : UInt8 :=
  byteAt msg.packet 5

def getSerialBin (msg : RecvMsg) (bufsize : Nat) : Nat × List Byte :=
  let len := packLen msg.packet
  if bufsize < len then (0, []) else (len, msg.packet.take len)

end RecvMsg

def WriteRun.perform (run : WriteRun) : SendCall → WriteRun
  | .init maxid minid => ⟨run.msg.init maxid minid, []⟩
  | .initId msgID => ⟨run.msg.initId msgID, []⟩
  | .setID maxid minid => { run with msg := run.msg.setID maxid minid }
  | .write call => run.step call

def WriteRun.Accepts (run : WriteRun) : SendCall → Prop
  | .write call => (run.msg.write call).1 ≠ -1
  | _ => True

namespace WriteRun

/-- The stream is that of the fields, and the length counts it. -/
structure Holds (run : WriteRun) : Prop extends SendMsg.Counted run.msg where
  bytes : run.msg.stream.bytes = run.fields

theorem holds_create : Holds ⟨.create, []⟩ :=
  { SendMsg.counted_create with bytes := rfl }

theorem Holds.perform {run : WriteRun} (holds : run.Holds) (call : SendCall)
    (accepts : run.Accepts call) : (run.perform call).Holds := by
  have counted := holds.toCounted.perform call
  cases call with
  | init maxid minid | initId msgID => exact { counted with bytes := rfl }
  | setID maxid minid => exact { counted with bytes := holds.bytes }
  | write call =>
    obtain ⟨fields, stream, -⟩ := step_success accepts
    refine { counted with bytes := ?_ }
    change (run.step call).msg.stream.bytes = (run.step call).fields
    rw [stream, fields, ProtoWriteStream.push_bytes, holds.bytes]

variable {run : WriteRun}

theorem Holds.counted_lt (holds : run.Holds) :
    ∀ call ∈ run.written, call.counted.length < 65536 := by
  intro call member
  have inside := holds.inside
  rw [usermsgDataCapacity, packetSize, usermsgHdrlen, holds.bytes] at inside
  refine WriteCall.counted_lt_of_mem member ?_
  change run.fields.length ≤ _
  omega

theorem serial_header (msg : SendMsg) (old : List Byte) :
    packLen (msg.serial ++ old) = msg.msgLength.toNat ∧
      byteAt (msg.serial ++ old) 4 = msg.maxid ∧
      byteAt (msg.serial ++ old) 5 = msg.minid := by
  refine ⟨?_, rfl, rfl⟩
  exact packLen_hostBytes msg.msgLength.toNat_lt _

theorem Holds.reader_at (holds : run.Holds)
    (room : run.msg.stream.bytes.length < usermsgDataCapacity) (old : List Byte)
    :
    (RecvMsg.init (run.msg.serial ++ old)).reader.At run.fields := by
  have length := holds.msgLength_iff.mpr room
  have size : packLen (run.msg.serial ++ old) - usermsgHdrlen =
      run.msg.stream.bytes.length := by
    rw [(serial_header run.msg old).1, length, Nat.add_sub_cancel_left]
  refine ⟨?_, Nat.zero_le _⟩
  rw [← holds.bytes]
  refine List.ext_getElem ?_ ?_
  · rw [ReadCursor.stream_length]
    exact size
  · intro index before inside
    have byte : byteAt (run.msg.serial ++ old) (usermsgHdrlen + index) =
        run.msg.stream.bytes[index] := by
      have header : run.msg.header.length = usermsgHdrlen := rfl
      rw [byteAt, List.getD_eq_getElem?_getD, SendMsg.serial,
        List.append_assoc, List.getElem?_append_right (by omega), header,
        Nat.add_sub_cancel_left, List.getElem?_append_left inside,
        List.getElem?_eq_getElem inside]
      rfl
    rw [← byte]
    simp [ReadCursor.stream, ReadCursor.bytesAt, RecvMsg.init, ReadCursor.init]

/-- `GetSerialBin` fills the buffer with the header and the stream, and a
receiver on the buffer has the same ids, reads back the same fields and gives
the same bytes again. -/
structure Serialises (run : WriteRun) (memory : Mem Byte) (place bufsize : Nat) :
    Prop where
  filled : run.msg.getSerialBin memory place bufsize =
    (run.msg.serial.length, run.msg.serial)
  ids : ∀ old, (RecvMsg.init (run.msg.serial ++ old)).maxid = run.msg.maxid ∧
    (RecvMsg.init (run.msg.serial ++ old)).minid = run.msg.minid
  reads : ∀ old, ∃ after,
    (RecvMsg.init (run.msg.serial ++ old)).reader.readCalls run.written =
        (run.written.map WriteCall.reported, after) ∧ after.At []
  again : ∀ old size, run.msg.serial.length ≤ size →
    (RecvMsg.init (run.msg.serial ++ old)).getSerialBin size =
      (run.msg.serial.length, run.msg.serial)

theorem Holds.serialises_iff (holds : run.Holds) {memory : Mem Byte}
    {place bufsize : Nat} (fits : run.msg.msgLength.toNat ≤ bufsize) :
    Serialises run memory place bufsize ↔
      run.msg.stream.bytes.length < usermsgDataCapacity ∧
        memory.bytes place run.msg.serial.length = run.msg.serial := by
  have total : run.msg.serial.length =
      usermsgHdrlen + run.msg.stream.bytes.length := by
    rw [SendMsg.serial, List.length_append]
    rfl
  have copied : run.msg.getSerialBin memory place bufsize =
      (run.msg.msgLength.toNat,
        memory.bytes place run.msg.msgLength.toNat) := by
    exact if_neg (Nat.not_lt.mpr fits)
  constructor
  · intro serialises
    have filled := serialises.filled
    rw [copied] at filled
    obtain ⟨length, bytes⟩ := Prod.mk.inj filled
    rw [length] at bytes
    exact ⟨holds.msgLength_iff.mp (length.trans total), bytes⟩
  · rintro ⟨room, bytes⟩
    have length := (holds.msgLength_iff.mpr room).trans total.symm
    refine ⟨?_, ?_, ?_, ?_⟩
    · rw [copied, length, bytes]
    · exact fun old => (serial_header run.msg old).2
    · intro old
      have here := holds.reader_at room old
      rw [← List.append_nil run.fields] at here
      refine ReadCursor.readCalls_at here ?_ holds.counted_lt
      change packLen _ - usermsgHdrlen < 2147483648
      have short := run.msg.msgLength.toNat_lt
      rw [(serial_header run.msg old).1]
      omega
    · intro old size enough
      have whole : packLen (run.msg.serial ++ old) = run.msg.serial.length :=
        (serial_header run.msg old).1.trans length
      change (if size < packLen (run.msg.serial ++ old) then _
        else (packLen (run.msg.serial ++ old),
          (run.msg.serial ++ old).take (packLen (run.msg.serial ++ old)))) = _
      rw [whole, if_neg (Nat.not_lt.mpr enough), List.take_left]

/-- No message comes out as it is wherever it lies: the address of the packet
starts with a byte that the message does not start with. -/
theorem Holds.misplaced (holds : run.Holds) :
    ∃ memory place packet, run.msg.Placed memory place packet ∧
      ∀ bufsize, run.msg.msgLength.toNat ≤ bufsize →
        ¬ Serialises run memory place bufsize := by
  obtain ⟨packet, differs, aligned⟩ : ∃ packet : Nat,
      UInt8.ofNat packet ≠ UInt8.ofNat run.msg.msgLength.toNat ∧
        (packet = 0x100000 ∨ packet = 0x100010) := by
    by_cases zero : UInt8.ofNat run.msg.msgLength.toNat = 0
    · refine ⟨0x100010, ?_, .inr rfl⟩
      rw [zero]
      decide
    · exact ⟨0x100000, fun same => zero same.symm, .inl rfl⟩
  have apart : run.msg.serial.length ≤ 0x10000 := by
    have inside := holds.inside
    rw [SendMsg.serial, List.length_append]
    change usermsgHdrlen + _ ≤ _
    rw [usermsgDataCapacity, packetSize] at inside
    rw [usermsgHdrlen] at *
    omega
  obtain ⟨stored, is⟩ : ∃ stored : Mem Byte, stored =
      (Mem.untouched fun _ => (0 : Byte)).store packet run.msg.serial :=
    ⟨_, rfl⟩
  have content : stored.bytes packet run.msg.serial.length = run.msg.serial := by
    rw [is, Mem.bytes_store_self]
  have pointer := stored.bytes_store_self (0x200000 : Nat) (toHost 8 packet)
  rw [toHost_length] at pointer
  refine ⟨_, 0x200000, packet, ⟨pointer, ?_⟩, ?_⟩
  · refine Eq.trans (Mem.bytes_congr fun index before => ?_) content
    refine Mem.store_cells_of_outside _ _ (.inl ?_)
    rcases aligned with rfl | rfl
    · push_cast
      omega
    · push_cast
      omega
  · intro bufsize fits serialises
    obtain ⟨-, same⟩ := (holds.serialises_iff fits).mp serialises
    have copied := congrArg (·[0]?) same
    have kept := congrArg (·[0]?) pointer
    have some : 0 < run.msg.serial.length := Nat.zero_lt_succ _
    rw [Mem.getElem?_bytes, if_pos some] at copied
    rw [Mem.getElem?_bytes, if_pos (by decide), copied] at kept
    have address : (toHost 8 packet)[0]? = .some (UInt8.ofNat packet) := by
      simp [toHost, toNetstream]
    have length : run.msg.serial[0]? =
        .some (UInt8.ofNat run.msg.msgLength.toNat) := rfl
    rw [address, length] at kept
    exact differs (Option.some.inj kept).symm

end WriteRun

/-- After any calls of which all writes were accepted, `GetSerialBin` gives the
message, and a receiver of it everything that was written, exactly if the data
area is not completely full and the memory behind the member `_packet` happens
to hold the message; no message is right wherever the packet lies. -/
theorem serialBin_iff {calls : List SendCall}
    (accepted : Runs.Meets WriteRun.perform WriteRun.Accepts ⟨.create, []⟩
      calls) :
    ∀ visited ∈ Runs.states WriteRun.perform ⟨.create, []⟩ calls,
      (∀ memory place packet bufsize, visited.msg.Placed memory place packet →
        visited.msg.msgLength.toNat ≤ bufsize →
        (visited.Serialises memory place bufsize ↔
          visited.msg.stream.bytes.length < usermsgDataCapacity ∧
            memory.bytes place visited.msg.serial.length =
              visited.msg.serial)) ∧
      ∃ memory place packet, visited.msg.Placed memory place packet ∧
        ∀ bufsize, visited.msg.msgLength.toNat ≤ bufsize →
          ¬ visited.Serialises memory place bufsize := by
  intro visited member
  have preserved (run : WriteRun) (call : SendCall) (holds : run.Holds)
      (accepts : run.Accepts call) : (run.perform call).Holds :=
    holds.perform call accepts
  have holds := Runs.invariant_of_meets preserved WriteRun.holds_create
    accepted visited member
  refine ⟨?_, holds.misplaced⟩
  intro memory place packet bufsize _ fits
  exact holds.serialises_iff fits

/-- A message with one number in it. -/
theorem serialBin_number :
    ∃ memory place packet,
      (WriteRun.perform ⟨.create, []⟩ (.write (.u8 7))).msg.Placed memory place
          packet ∧
        ¬ (WriteRun.perform ⟨.create, []⟩ (.write (.u8 7))).Serialises memory
          place 64 := by
  have accepted : Runs.Meets WriteRun.perform WriteRun.Accepts
      ⟨.create, []⟩ [.write (.u8 7)] :=
    ⟨show ((SendMsg.create.write (.u8 7)).1 ≠ -1) by decide, trivial⟩
  obtain ⟨-, memory, place, packet, placed, wrong⟩ :=
    serialBin_iff accepted _ (Runs.foldl_mem_states _ _ _)
  exact ⟨memory, place, packet, placed, wrong 64 (by decide)⟩

/-- The packet of an empty message at the address 4096, the message object at
65536: what comes out starts with the address. -/
theorem serialBin_address :
    ∃ memory : Mem Byte, SendMsg.create.Placed memory 65536 4096 ∧
      (SendMsg.create.getSerialBin memory 65536 6).2 = [0, 16, 0, 0, 0, 0] ∧
      SendMsg.create.serial = [6, 0, 2, 0, 0, 0] := by
  refine ⟨((Mem.untouched fun _ => (0 : Byte)).store 4096
    [6, 0, 2, 0, 0, 0]).store 65536 (toHost 8 4096), ⟨?_, ?_⟩, ?_, ?_⟩
  · decide
  · decide
  · decide
  · decide

end NdNet
