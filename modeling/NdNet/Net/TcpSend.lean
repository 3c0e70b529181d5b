import NdNet.Common.LineBufQueue
import NdNet.Lib.Runs
import NdNet.Net.TcpNode

/-!
# The sending side of a TCP node

What the socket has taken, followed by what waits in the send buffer, is meant
to be the concatenation of the packets whose send reported their full length.
The only step that breaks the stream is a send that appends to a send buffer
whose data starts, after the flush, at an offset from 1 to 7: the free capacity
is large enough, but `_lbuf_move_ahead` does not turn it into tail room.
-/

namespace NdNet.TcpNode

open LineBuf Store Runs List

/-- A send buffer holds `queue` and has the fixed storage it was created with,
large enough for any packet. -/
structure Buffered (buf : LineBuf) (queue : List Byte) : Prop where
  represents : buf.Represents queue
  fixed : buf.autoInc = false
  capacity : packetSize ≤ buf.capacity

/-- The bytes on the wire followed by those in the send buffer are `total`. -/
def Streams (node : TcpNode) (total : List Byte) : Prop :=
  ∃ queue, Buffered node.sendBuffer queue ∧ node.wire ++ queue = total

/-- How many of the bytes offered the next socket write takes. -/
def takes (node : TcpNode) (offered : Nat) : Nat :=
  match node.writeResults.head? with
  | some (.took count) => min count offered
  | _ => 0

theorem takes_le (node : TcpNode) (offered : Nat) :
    node.takes offered ≤ offered := by
  unfold takes
  split
  · exact Nat.min_le_right _ _
  · exact Nat.zero_le _

variable {msg : List Byte}

section Parts

variable {node : TcpNode} {queue total : List Byte}

/-- A socket write moves a front part of the data onto the wire.  It reports
how much, or that the socket failed for good. -/
theorem sysSocketWrite_spec (node : TcpNode) (data : List Byte) :
    (node.sysSocketWrite data).2.wire =
        node.wire ++ data.take (node.takes data.length) ∧
      (node.sysSocketWrite data).2.sendBuffer = node.sendBuffer ∧
      ((node.sysSocketWrite data).1 = node.takes data.length ∨
        (node.sysSocketWrite data).1 = -1 ∧ node.takes data.length = 0 ∧
          (node.sysSocketWrite data).2.sysTimedOut = false) := by
  unfold sysSocketWrite takes
  cases node.writeResults.head? with
  | none => simp
  | some result =>
    cases result with
    | error timedOut => cases timedOut <;> simp
    | took count =>
      by_cases some : 0 < min count data.length
      · simp only [if_pos some]
        refine ⟨?_, trivial, .inl trivial⟩
        rcases Nat.le_total count data.length with below | above
        · rw [Nat.min_eq_left below]
        · rw [Nat.min_eq_right above, take_length, take_of_length_le above]
      · have none : min count data.length = 0 := by omega
        simp [none]

theorem Buffered.subData {buf : LineBuf} (holds : Buffered buf queue)
    (count : Nat) : Buffered (buf.subData count) (queue.drop count) :=
  { represents := subData_represents holds.represents count
    fixed := by simpa using holds.fixed
    capacity := by simpa using holds.capacity }

theorem sendbufWrite_spec (holds : Buffered node.sendBuffer queue)
    (data : List Byte) (small : data.length < packetSize)
    (room : data.length ≤ node.sendBuffer.freespace ∨ node.sendBuffer.Compacts)
    (fits : data.length ≤ node.sendBuffer.freeCapacity) :
    (node.sendbufWrite data).1 = data.length ∧
      Buffered (node.sendbufWrite data).2.sendBuffer (queue ++ data) ∧
      (node.sendbufWrite data).2.wire = node.wire := by
  have accepted : node.sendBuffer.acceptedBytes data .specified = data :=
    if_pos fits
  have result := write_result holds.represents data .specified (fun _ => none)
    holds.fixed
  have stored := write_represents holds.represents data .specified
    (fun _ => none) holds.fixed (room.elim .inl (fun free => .inr (.inl free)))
  rw [accepted] at result stored
  rw [if_neg (fun refused => by omega), intOfSize_of_lt (by
    rw [packetSize] at small
    omega)] at result
  refine ⟨result, ⟨stored, ?_, ?_⟩, rfl⟩
  · simp [sendbufWrite, holds.fixed]
  · have unchanged : (node.sendBuffer.write data .specified
        (fun _ => none)).2.capacity = node.sendBuffer.capacity := by
      unfold LineBuf.write
      split
      · simp
      · simp [Nat.not_lt.mpr fits]
    simpa [sendbufWrite, unchanged] using holds.capacity

theorem sendWithSave_spec (holds : Buffered node.sendBuffer [])
    (small : msg.length < packetSize) :
    (node.sendWithSave msg).1 = -1 ∨
      (node.sendWithSave msg).1 = msg.length ∧
        (node.sendWithSave msg).2.Streams (node.wire ++ msg) := by
  obtain ⟨wire, buffer, result⟩ := sysSocketWrite_spec node msg
  have below := node.takes_le msg.length
  unfold sendWithSave
  generalize node.sysSocketWrite msg = written at wire buffer result ⊢
  generalize node.takes msg.length = count at wire result below
  rw [← buffer] at holds
  rcases result with took | ⟨failed, -, noTimeout⟩
  · rw [if_neg (by omega)]
    by_cases whole : written.1 = msg.length
    · have all : count = msg.length := by omega
      rw [if_pos whole]
      refine .inr ⟨intOfSize_of_lt ?_, [], holds, ?_⟩
      · rw [packetSize] at small
        omega
      · rw [wire, all, take_length, append_nil]
    · have empty : written.2.sendBuffer.datalen = 0 :=
        holds.represents.queue_eq_nil_iff.mp rfl
      have free := holds.represents.freeCapacity_eq
      have large := holds.capacity
      have part : (msg.drop written.1.toNat).length = msg.length - count := by
        simp [took]
      obtain ⟨saved, stored, kept⟩ := sendbufWrite_spec holds
        (msg.drop written.1.toNat) (by omega) (.inr (.inl empty))
        (by omega)
      have positive : 0 < (written.2.sendbufWrite
          (msg.drop written.1.toNat)).1 := by omega
      rw [if_neg whole, if_pos positive]
      refine .inr ⟨by omega, msg.drop written.1.toNat, stored, ?_⟩
      rw [kept, wire, took, Int.toNat_natCast, append_assoc, take_append_drop]
  · rw [if_pos failed, noTimeout]
    exact .inl rfl

/-- Offering the whole send buffer to the socket: either a front part of it has
gone onto the wire and is still to be removed, or nothing has happened. -/
theorem sysSocketWrite_buffered (holds : Buffered node.sendBuffer queue) :
    Buffered (node.sysSocketWrite queue).2.sendBuffer queue ∧
      (node.sysSocketWrite queue).2.sendBuffer = node.sendBuffer ∧
      (0 < (node.sysSocketWrite queue).1 ∧
          (node.sysSocketWrite queue).1.toNat = node.takes queue.length ∧
          (node.sysSocketWrite queue).2.wire =
            node.wire ++ queue.take (node.takes queue.length) ∨
        (node.sysSocketWrite queue).1 ≤ 0 ∧ node.takes queue.length = 0 ∧
          (node.sysSocketWrite queue).2.wire = node.wire) := by
  obtain ⟨wire, buffer, result⟩ := sysSocketWrite_spec node queue
  generalize node.sysSocketWrite queue = written at wire buffer result ⊢
  generalize node.takes queue.length = count at wire result ⊢
  refine ⟨buffer ▸ holds, buffer, ?_⟩
  by_cases some : 0 < written.1
  · exact .inl ⟨some, by omega, wire⟩
  · have none : count = 0 := by omega
    exact .inr ⟨by omega, none, by simpa [none] using wire⟩

theorem sysSocketWrite_streams (node : TcpNode) (holds : node.Streams total) :
    (0 < (node.sysSocketWrite node.sendBuffer.content).1 →
        ((node.sysSocketWrite node.sendBuffer.content).2.sendbufSub
          (node.sysSocketWrite node.sendBuffer.content).1.toNat).Streams
            total) ∧
      ((node.sysSocketWrite node.sendBuffer.content).1 ≤ 0 →
        (node.sysSocketWrite node.sendBuffer.content).2.Streams total) := by
  obtain ⟨queue, buffered, stream⟩ := holds
  rw [buffered.represents.content_eq]
  obtain ⟨still, -, ⟨some, took, wire⟩ | ⟨nothing, -, wire⟩⟩ :=
    sysSocketWrite_buffered buffered
  · refine ⟨fun _ => ⟨_, still.subData _, ?_⟩, fun none => by omega⟩
    show (node.sysSocketWrite queue).2.wire ++ _ = total
    rw [wire, took, append_assoc, take_append_drop, stream]
  · exact ⟨fun some => by omega, fun _ => ⟨queue, still, by rw [wire, stream]⟩⟩

theorem pushSendbuf_streams (holds : node.Streams total) :
    node.pushSendbuf.2.Streams total := by
  obtain ⟨some, none⟩ := sysSocketWrite_streams node holds
  unfold pushSendbuf
  split
  · exact holds
  split
  · exact holds
  · dsimp only
    split
    · rename_i positive
      exact some positive
    · rename_i nothing
      exact none (Int.not_lt.mp nothing)

theorem resend_streams (waits : List Bool) (holds : node.Streams total) :
    (node.resend waits).2.Streams total := by
  induction waits generalizing node with
  | nil =>
    obtain ⟨some, none⟩ :=
      sysSocketWrite_streams { node with myerrno := .success } holds
    unfold resend
    dsimp only
    split
    · rename_i nothing
      exact none nothing
    · rename_i positive
      have pushed := some (Int.not_le.mp positive)
      split <;> exact pushed
  | cons wait waits induction =>
    obtain ⟨some, none⟩ :=
      sysSocketWrite_streams { node with myerrno := .success } holds
    unfold resend
    dsimp only
    split
    · rename_i nothing
      exact none nothing
    · rename_i positive
      have pushed := some (Int.not_le.mp positive)
      split
      · cases wait with
        | true => exact induction pushed
        | false => exact pushed
      · exact pushed

theorem pushForce_streams (holds : node.Streams total) :
    node.pushForce.2.Streams total := by
  unfold pushForce
  split
  · exact holds
  · split
    · exact holds
    · exact resend_streams _ holds

theorem trytoFlushSendbuf_streams (holds : node.Streams total) :
    node.trytoFlushSendbuf.2.Streams total := by
  unfold trytoFlushSendbuf
  split
  · exact pushSendbuf_streams holds
  · exact holds

end Parts

section Flush

variable {node : TcpNode} {queue : List Byte}

variable (holds : Buffered node.sendBuffer queue)
include holds

theorem flushBuffered_spec :
    Buffered node.flushBuffered.sendBuffer
        (queue.drop (node.takes queue.length)) ∧
      node.flushBuffered.wire =
        node.wire ++ queue.take (node.takes queue.length) := by
  unfold flushBuffered
  by_cases empty : node.sendBuffer.datalen = 0
  · have nothing := holds.represents.queue_eq_nil_iff.mpr empty
    subst nothing
    simpa [empty] using holds
  · rw [if_pos empty, holds.represents.content_eq]
    obtain ⟨still, -, ⟨some, took, wire⟩ | ⟨nothing, none, wire⟩⟩ :=
      sysSocketWrite_buffered holds
    · rw [if_pos some, took]
      exact ⟨still.subData _, wire⟩
    · rw [if_neg (by omega), none, drop_zero, take_zero, append_nil]
      exact ⟨still, wire⟩

theorem flushBuffered_sendBuffer :
    node.flushBuffered.sendBuffer = node.sendBuffer ∧
        node.takes queue.length = 0 ∨
      node.flushBuffered.sendBuffer =
        node.sendBuffer.subData (node.takes queue.length) := by
  unfold flushBuffered
  by_cases empty : node.sendBuffer.datalen = 0
  · have nothing := holds.represents.queue_eq_nil_iff.mpr empty
    have below := node.takes_le queue.length
    rw [nothing, length_nil] at below
    simp [empty, nothing, Nat.le_zero.mp below]
  · rw [if_pos empty, holds.represents.content_eq]
    obtain ⟨-, buffer, ⟨some, took, -⟩ | ⟨nothing, none, -⟩⟩ :=
      sysSocketWrite_buffered holds
    · rw [if_pos some, took, sendbufSub, buffer]
      exact .inr rfl
    · rw [if_neg (by omega)]
      exact .inl ⟨buffer, none⟩

/-- After the flush the buffered data can be compacted, unless its start lies
in the first bytes. -/
theorem flushBuffered_compacts
    (far : ¬ (0 < node.sendBuffer.startOff + node.takes queue.length ∧
      node.sendBuffer.startOff + node.takes queue.length < sizeofSizeT)) :
    node.flushBuffered.sendBuffer.Compacts := by
  have place : node.sendBuffer.startOff + node.takes queue.length = 0 ∨
      sizeofSizeT ≤ node.sendBuffer.startOff + node.takes queue.length := by
    omega
  rcases flushBuffered_sendBuffer holds with ⟨same, none⟩ | shortened
  · rw [none, Nat.add_zero] at place
    rw [same]
    exact .inr place
  · rw [shortened]
    exact subData_compacts place

theorem flushBuffered_near (remains : node.takes queue.length < queue.length)
    (near : node.sendBuffer.startOff + node.takes queue.length < sizeofSizeT) :
    node.flushBuffered.sendBuffer =
      { node.sendBuffer with
        startOff := node.sendBuffer.startOff + node.takes queue.length } := by
  rcases flushBuffered_sendBuffer holds with ⟨same, none⟩ | shortened
  · rw [same, none, Nat.add_zero]
  · have large := holds.capacity
    have length := holds.represents.queue_length
    have extent := holds.represents.datalen_eq
    rw [packetSize] at large
    rw [shortened]
    exact subData_eq_of_small (by omega) near (by omega)

end Flush

section Send

variable {node : TcpNode} {queue : List Byte}

/-- The flush leaves the start of the data in the first bytes, there is too
little tail room for the packet, and yet enough free capacity. -/
def Misplaced (node : TcpNode) (len : Nat) (flag : SendFlag) : Prop :=
  node.takes node.sendBuffer.datalen < node.sendBuffer.datalen ∧
    0 < node.sendBuffer.startOff + node.takes node.sendBuffer.datalen ∧
    node.sendBuffer.startOff + node.takes node.sendBuffer.datalen <
      sizeofSizeT ∧
    node.sendBuffer.freespace < len ∧
    len ≤ node.sendBuffer.freeCapacity + node.takes node.sendBuffer.datalen ∧
    ¬ (flag.post ∧ node.sendBuffer.freeCapacity < len)

section

variable (holds : Buffered node.sendBuffer queue)
include holds

/-- Appending after the flush finds tail room or can make it, unless the packet
is misplaced. -/
theorem flushBuffered_room {len : Nat} {flag : SendFlag}
    (placed : ¬ node.Misplaced len flag)
    (posted : ¬ (flag.post ∧ node.sendBuffer.freeCapacity < len))
    (remains : node.flushBuffered.sendBuffer.datalen ≠ 0)
    (fits : len ≤ node.flushBuffered.sendBuffer.freeCapacity) :
    len ≤ node.flushBuffered.sendBuffer.freespace ∨
      node.flushBuffered.sendBuffer.Compacts := by
  by_contra stuck
  obtain ⟨tight, stuck⟩ := not_or.mp stuck
  have flushed := (flushBuffered_spec holds).1.represents
  have near := not_imp_comm.mp (flushBuffered_compacts holds) stuck
  have remaining := flushed.queue_length
  rw [length_drop] at remaining
  have moved := flushBuffered_near holds (by omega) near.2
  have tail : node.flushBuffered.sendBuffer.freespace =
      node.sendBuffer.freespace := by rw [moved]; rfl
  have capacity : node.flushBuffered.sendBuffer.capacity =
      node.sendBuffer.capacity := by rw [moved]
  have free := flushed.freeCapacity_eq
  have freeBefore := holds.represents.freeCapacity_eq
  rw [holds.represents.queue_length] at near remaining
  exact placed ⟨by omega, near.1, near.2, by omega, by omega, posted⟩

/-- With data buffered, a packet that is not misplaced is refused or accepted
as a whole. -/
theorem pushAndSend_spec (small : msg.length < packetSize) {flag : SendFlag}
    (placed : ¬ node.Misplaced msg.length flag)
    (posted : ¬ (flag.post ∧ node.sendBuffer.freeCapacity < msg.length)) :
    (node.pushAndSend msg true).1 = -1 ∨
      (node.pushAndSend msg true).1 = msg.length ∧
        (node.pushAndSend msg true).2.Streams (node.wire ++ queue ++ msg) := by
  obtain ⟨flushed, wire⟩ := flushBuffered_spec holds
  have joined := take_append_drop (node.takes queue.length) queue
  unfold pushAndSend
  dsimp only
  by_cases drained : node.flushBuffered.sendBuffer.datalen = 0
  · have nothing := flushed.represents.queue_eq_nil_iff.mpr drained
    rw [nothing, append_nil] at joined
    rw [nothing] at flushed
    rw [if_pos drained]
    have sent := sendWithSave_spec flushed small
    rwa [wire, joined] at sent
  rw [if_neg drained]
  by_cases full : node.flushBuffered.sendBuffer.freeCapacity < msg.length
  · rw [if_pos ⟨rfl, full⟩]
    exact .inl rfl
  rw [if_neg (fun refused => full refused.2)]
  have fits := Nat.le_of_not_lt full
  obtain ⟨result, stored, kept⟩ := sendbufWrite_spec flushed msg small
    (flushBuffered_room holds placed posted drained fits) fits
  refine .inr ⟨result, _, stored, ?_⟩
  rw [kept, wire, append_assoc, ← append_assoc (queue.take _),
    joined, append_assoc]

/-- A send of a packet that is not misplaced fails, or the packet joins the
stream exactly if its full length is reported. -/
theorem sendBytes_spec (small : msg.length < packetSize) (flag : SendFlag)
    (placed : ¬ node.Misplaced msg.length flag) :
    (node.sendBytes msg flag true).1 = -1 ∨
      (node.sendBytes msg flag true).2.Streams
        (node.wire ++ queue ++
          if (node.sendBytes msg flag true).1 = msg.length then msg
          else []) := by
  unfold sendBytes
  by_cases empty : node.sendBuffer.datalen = 0
  · have nothing := holds.represents.queue_eq_nil_iff.mpr empty
    subst nothing
    rw [if_pos empty]
    refine (sendWithSave_spec holds small).imp id ?_
    rintro ⟨result, streams⟩
    simpa [result] using streams
  rw [if_neg empty]
  by_cases posted : flag.post ∧ node.sendBuffer.freeCapacity < msg.length
  · rw [if_pos posted]
    have large : (0 : Int) ≠ msg.length := by omega
    refine .inr ⟨queue, holds, ?_⟩
    rw [if_neg large, append_nil]
  · rw [if_neg posted]
    refine (pushAndSend_spec holds small placed posted).imp id ?_
    rintro ⟨result, streams⟩
    rwa [if_pos result]

/-- A misplaced packet is reported as sent, but the buffer does not hold it. -/
theorem sendBytes_misplaced (small : msg.length < packetSize) (flag : SendFlag)
    (misplaced : node.Misplaced msg.length flag) :
    (node.sendBytes msg flag true).1 = msg.length ∧
      (node.sendBytes msg flag true).2.wire ++
          (node.sendBytes msg flag true).2.sendBuffer.content ≠
        node.wire ++ queue ++ msg := by
  obtain ⟨remains, behind, near, tight, enough, posted⟩ := misplaced
  obtain ⟨flushed, wire⟩ := flushBuffered_spec holds
  have length := holds.represents.queue_length
  rw [← length] at remains behind near enough
  have moved := flushBuffered_near holds remains near
  have remaining := flushed.represents.queue_length
  rw [List.length_drop] at remaining
  have free := flushed.represents.freeCapacity_eq
  have freeBefore := holds.represents.freeCapacity_eq
  have bounded := holds.represents.datalen_le_capacity
  have capacity : node.flushBuffered.sendBuffer.capacity =
      node.sendBuffer.capacity := by rw [moved]
  have tail : node.flushBuffered.sendBuffer.freespace =
      node.sendBuffer.freespace := by rw [moved]; rfl
  have stuck : ¬ node.flushBuffered.sendBuffer.Compacts := by
    have start : node.flushBuffered.sendBuffer.startOff =
        node.sendBuffer.startOff + node.takes queue.length := by rw [moved]
    rintro (empty | zero | far) <;> omega
  have fits : ¬ node.flushBuffered.sendBuffer.freeCapacity < msg.length := by
    omega
  have sent : node.sendBytes msg flag true =
      node.flushBuffered.sendbufWrite msg := by
    rw [sendBytes, if_neg (by omega), if_neg posted, pushAndSend]
    simp only
    rw [if_neg (by omega), if_neg (fun refused => fits refused.2)]
  have written : node.flushBuffered.sendBuffer.write msg .specified
      (fun _ => none) =
        ((msg.length : Int), node.flushBuffered.sendBuffer.append msg) := by
    rw [LineBuf.write, if_neg (by omega)]
    simp only
    rw [if_neg fits, moveAhead_of_not_compacts stuck, intOfSize_of_lt (by
      rw [packetSize] at small
      omega)]
  rw [sent, sendbufWrite, written]
  refine ⟨rfl, ?_⟩
  intro same
  have counted := congrArg List.length same
  have short := length_content_append_lt flushed.represents msg
    (by omega)
  simp only [wire, List.length_append, List.length_take] at counted
  rw [List.length_drop] at short
  omega

end

theorem length_packetOf_lt (msg : List Byte) :
    (packetOf msg).length < packetSize := by
  have small := getPackSize_lt msg
  rw [packetOf, length_take]
  omega

/-- `nd_tcpnode_send` adds to `__tcpnode_send` only the handling of failures. -/
theorem send_eq_sendBytes (node : TcpNode) (msg : List Byte) (flag : SendFlag) :
    ∃ urgency, (node.send msg flag).1 =
        (node.sendBytes (packetOf msg) { flag with urgency := urgency } true).1 ∧
      ((node.send msg flag).1 ≠ -1 → (node.send msg flag).2 =
        (node.sendBytes (packetOf msg)
          { flag with urgency := urgency } true).2) := by
  unfold send
  split
  · refine ⟨false, ?_⟩
    dsimp only
    split
    · rename_i failed
      exact ⟨failed.symm, fun fine => absurd rfl fine⟩
    · exact ⟨rfl, fun _ => rfl⟩
  · exact ⟨flag.urgency, rfl, fun _ => rfl⟩

end Send

end NdNet.TcpNode
