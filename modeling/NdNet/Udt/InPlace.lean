import NdNet.Udt.Flow
import NdNet.Udt.Received

/-!
# Headers written in front of the data

`flush_send_window` and `retranslate_data` send bytes out of `send_buffer`
without copying them.  They write a header over the bytes in front of the data,
send header and data in one piece, and put the bytes back.  Here both work on a
memory in which `__buf` is at address 0.

On the node they do what `flushSendWindow` and `retranslateData` say, and they
leave every cell as it was.
-/

namespace NdNet

open Mem Store

/-- `packet_hdr->sequence = ` -/
def Mem.setSequence (memory : Memory) (pocket : Int) (sequence : Seq) :
    Memory :=
  memory.store (pocket + 8) (hostSeq sequence)

/-- The pocket that a receiver with an empty buffer reads out of a packet. -/
def receivedPocket (packet : List Byte) : UdtPocket :=
  (((untouched fun _ => 0).store 0 packet).readPacket 0
    packet.length).2.pocketAt 0 packet.length

/-- The memory holds the storage of the buffer from address 0 on. -/
def LineBuf.StoredIn (buf : LineBuf) (memory : Memory) : Prop :=
  memory.bytes 0 buf.capacity = buf.storage

namespace UdtNode

open NetStat

/-- `write_pocket_to_socket` of a pocket in memory, with what the socket says to
it. -/
def writePocketAt (node : UdtNode) (memory : Memory) (pocket : Int)
    (len : Nat) : Int × UdtNode × Memory :=
  let handed := memory.writePocket pocket len node.localPort node.sendWindow
  let called := { node with writeResults := node.writeResults.tail }
  match node.writeResults.head?.getD .sent with
  | .sent =>
    (len,
      { called with
        wire := node.wire ++ [receivedPocket handed.1]
        lastActive := node.now },
      handed.2)
  | .wouldBlock => (-1, { called with myerrno := .wouldBlock }, handed.2)
  | .failed => (-1, { called with myerrno := .write }, handed.2)

/-- Save the bytes where a header is going to be, write the header, send it with
what is behind it, and put the bytes back. -/
def sendSaved (node : UdtNode) (memory : Memory) (pocket : Int)
    (saved len : Nat) (header : Memory → Memory) : Int × UdtNode × Memory :=
  let backup := memory.load pocket saved
  let written := node.writePocketAt (header backup.2) pocket len
  (written.1, written.2.1, written.2.2.store pocket backup.1)

def headerLen (node : UdtNode) : Nat :=
  if node.needAck then 16 else 12

/-- The header of `flush_send_window`. -/
def flushHeader (node : UdtNode) (memory : Memory) (pocket : Int) : Memory :=
  let started := memory.initUdtPocket pocket
  let acked :=
    if node.needAck then started.setPocketAck pocket node.receivedSequence
    else started
  acked.setSequence pocket node.sendSequence

/-- `flush_send_window`; 16 bytes are saved and put back in both branches. -/
def flushInPlace (node : UdtNode) (memory : Memory) : Int × UdtNode × Memory :=
  if node.status.has sendclose || node.isRetranslate then (0, node, memory)
  else
    match node.sendWindowStart with
    | none => (0, node, memory)
    | some (unAck, len) =>
      if len = 0 then (0, node, memory)
      else
        let pocket : Int :=
          node.sendBuffer.startOff + unAck - node.headerLen
        let sent := sendSaved { node with needAck := false } memory pocket 16
          (node.headerLen + len) fun memory => node.flushHeader memory pocket
        if sent.1 = -1 then sent
        else
          (sent.1,
            { sent.2.1 with
              lastResendTm := sent.2.1.lastActive
              sendSequence := node.sendSequence + BitVec.ofNat 32 len
              windowLen := windowNotNegative (node.windowLen - len) },
            sent.2.2)

/-- The header of `retranslate_data`, which sets the acknowledgement before
`init_udt_pocket` clears the flag. -/
def resendHeader (node : UdtNode) (memory : Memory) (pocket : Int) : Memory :=
  let acked :=
    if node.needAck then memory.setPocketAck pocket node.receivedSequence
    else memory
  (acked.initUdtPocket pocket).setSequence pocket node.acknowledgedSeq

/-- `retranslate_data`; as many bytes are saved as the header has. -/
def retranslateInPlace (node : UdtNode) (memory : Memory) :
    Int × UdtNode × Memory :=
  let marked := { node with retransSeq := node.resentSeq 0 }
  if node.resendLen ≤ 0 then (0, marked, memory)
  else
    let len := min node.resendLen.toNat udtFragmentLen
    let pocket : Int := node.sendBuffer.startOff - node.headerLen
    let sent := sendSaved { marked with needAck := false } memory pocket
      node.headerLen (node.headerLen + len) fun memory =>
        node.resendHeader memory pocket
    if sent.1 = -1 then (0, sent.2)
    else
      (len,
        { sent.2.1 with
          lastResendTm := sent.2.1.lastActive
          windowLen := windowNotNegative node.windowLen
          retransSeq := node.resentSeq len },
        sent.2.2)

section Headers

variable (node : UdtNode) (memory : Memory) {first last pocket : Int}

theorem within_initUdtPocket (lower : first ≤ pocket)
    (upper : pocket + 12 ≤ last) :
    Within first last memory (memory.initUdtPocket pocket) :=
  (((within_store lower (show pocket + (4 : Nat) ≤ last by omega) _).trans
    (within_storeHost (by omega) (by omega) _ _)).trans
      (within_storeHost (by omega) (by omega) _ _)).trans
        (within_store (by omega) (show pocket + 8 + (4 : Nat) ≤ last by omega) _)

theorem within_setPocketAck (lower : first ≤ pocket)
    (upper : pocket + 16 ≤ last) (ack : Seq) :
    Within first last memory (memory.setPocketAck pocket ack) :=
  ((within_load (by omega) (by omega) _).trans
    (within_store (by omega) (show pocket + 1 + (1 : Nat) ≤ last by omega)
      _)).trans
      (within_store (by omega) (show pocket + 12 + (4 : Nat) ≤ last by omega) _)

theorem within_setSequence (lower : first ≤ pocket) (upper : pocket + 12 ≤ last)
    (sequence : Seq) :
    Within first last memory (memory.setSequence pocket sequence) :=
  within_store (by omega) (show pocket + 8 + (4 : Nat) ≤ last by omega) _

theorem headerLen_bounds : 12 ≤ node.headerLen ∧ node.headerLen ≤ 16 := by
  unfold headerLen
  split <;> decide

theorem within_flushHeader (lower : first ≤ pocket)
    (upper : pocket + node.headerLen ≤ last) :
    Within first last memory (node.flushHeader memory pocket) := by
  unfold flushHeader headerLen at *
  cases acked : node.needAck with
  | false =>
    rw [acked] at upper
    have room : pocket + 12 ≤ last := upper
    exact (within_initUdtPocket memory lower room).trans
      (within_setSequence _ lower room _)
  | true =>
    rw [acked] at upper
    have room : pocket + 16 ≤ last := upper
    exact ((within_initUdtPocket memory lower (by omega)).trans
      (within_setPocketAck _ lower room _)).trans
        (within_setSequence _ lower (by omega) _)

theorem within_resendHeader (lower : first ≤ pocket)
    (upper : pocket + node.headerLen ≤ last) :
    Within first last memory (node.resendHeader memory pocket) := by
  unfold resendHeader headerLen at *
  cases acked : node.needAck with
  | false =>
    rw [acked] at upper
    have room : pocket + 12 ≤ last := upper
    exact (within_initUdtPocket memory lower room).trans
      (within_setSequence _ lower room _)
  | true =>
    rw [acked] at upper
    have room : pocket + 16 ≤ last := upper
    exact ((within_setPocketAck memory lower room _).trans
      (within_initUdtPocket _ lower (by omega))).trans
        (within_setSequence _ lower (by omega) _)

end Headers

section Bytes

variable (node : UdtNode) (memory : Memory) (pocket : Int) (len : Nat)

theorem initUdtPocket_bytes :
    (memory.initUdtPocket pocket).bytes pocket (12 + len) =
      [16, 0, 0, 0, 0, 0, 0, 0, 0, 0, 0, 0] ++
        memory.bytes (pocket + 12) len := by
  have started : (memory.initUdtHeader pocket).bytes pocket (12 + len) =
      overwrite (memory.bytes pocket (12 + len)) 0 [16, 0, 0, 0] :=
    bytes_store_front _ _ _ _
  have ported : ((memory.initUdtHeader pocket).storeHost (pocket + 4) 0).bytes
      pocket (12 + len) =
        overwrite ((memory.initUdtHeader pocket).bytes pocket (12 + len)) 4
          [0, 0] :=
    bytes_store _ _ 4 _ _
  have windowed : (((memory.initUdtHeader pocket).storeHost (pocket + 4)
      0).storeHost (pocket + 6) 0).bytes pocket (12 + len) =
        overwrite (((memory.initUdtHeader pocket).storeHost (pocket + 4)
          0).bytes pocket (12 + len)) 6 [0, 0] :=
    bytes_store _ _ 6 _ _
  refine (bytes_store _ _ 8 _ _).trans ?_
  have size : (memory.bytes pocket 12).length = 12 := length_bytes _ _ _
  rw [windowed, ported, started, bytes_add,
    overwrite_append_left (by simp [size]),
    overwrite_append_left (by simp [size]),
    overwrite_append_left (by simp [size]),
    overwrite_append_left (by simp [size])]
  rfl

theorem setSequence_bytes (sequence : Seq) :
    (memory.setSequence pocket sequence).bytes pocket len =
      overwrite (memory.bytes pocket len) 8 (hostSeq sequence) :=
  bytes_store _ _ 8 _ _

theorem setPocketAck_bytes (ack : Seq) :
    (memory.setPocketAck pocket ack).bytes pocket len =
      overwrite (overwrite (memory.bytes pocket len) 1
        [memory.cells (pocket + 1) ||| 64]) 12 (hostSeq ack) := by
  refine (bytes_store _ _ 12 _ _).trans ?_
  refine congrArg (overwrite · 12 (hostSeq ack)) ?_
  have flags : byteAt (memory.load (pocket + 1) 1).1 0 =
      memory.cells (pocket + 1) := by
    rw [load_bytes, byteAt_bytes _ _ (by decide), Int.natCast_zero,
      Int.add_zero]
  rw [flags]
  exact bytes_store _ _ 1 _ _

theorem flushHeader_bytes :
    (node.flushHeader memory pocket).bytes pocket (node.headerLen + len) =
      ([16, if node.needAck then 64 else 0, 0, 0, 0, 0, 0, 0] ++
        hostSeq node.sendSequence) ++
          ((if node.needAck then hostSeq node.receivedSequence else []) ++
            memory.bytes (pocket + node.headerLen) len) := by
  have size (value : Seq) : (hostSeq value).length = 4 := rfl
  unfold flushHeader headerLen
  rw [setSequence_bytes]
  cases node.needAck with
  | false =>
    have started := initUdtPocket_bytes memory pocket len
    refine (congrArg (overwrite · 8 _) started).trans ?_
    rw [overwrite_append_left (by rw [size]; decide)]
    rfl
  | true =>
    have flags : (memory.initUdtPocket pocket).cells (pocket + 1) = 0 := by
      have front := congrArg (byteAt · 1)
        (initUdtPocket_bytes memory pocket 0)
      rwa [byteAt_bytes _ _ (by omega)] at front
    have place : pocket + 12 + ((4 : Nat) : Int) = pocket + 16 := by omega
    have started : (memory.initUdtPocket pocket).bytes pocket (16 + len) =
        ([16, 0, 0, 0, 0, 0, 0, 0, 0, 0, 0, 0] ++
          memory.bytes (pocket + 12) 4) ++
            memory.bytes (pocket + 16) len := by
      rw [show 16 + len = 12 + (4 + len) by omega, initUdtPocket_bytes,
        bytes_add, place, List.append_assoc]
    have long : ([16, 0, 0, 0, 0, 0, 0, 0, 0, 0, 0, 0] ++
        memory.bytes (pocket + 12) 4 : List Byte).length = 16 := by
      rfl
    have acked : ((memory.initUdtPocket pocket).setPocketAck pocket
        node.receivedSequence).bytes pocket (16 + len) =
          overwrite (overwrite ([16, 0, 0, 0, 0, 0, 0, 0, 0, 0, 0, 0] ++
            memory.bytes (pocket + 12) 4) 1 [64]) 12
              (hostSeq node.receivedSequence) ++
                memory.bytes (pocket + 16) len := by
      rw [setPocketAck_bytes, flags, started,
        overwrite_append_left (by rw [long]; decide),
        overwrite_append_left (by rw [length_overwrite, long, size])]
      rfl
    refine (congrArg (overwrite · 8 _) acked).trans ?_
    rfl

theorem resendHeader_bytes :
    (node.resendHeader memory pocket).bytes pocket (node.headerLen + len) =
      ([16, 0, 0, 0, 0, 0, 0, 0] ++ hostSeq node.acknowledgedSeq) ++
        ((if node.needAck then hostSeq node.receivedSequence else []) ++
          memory.bytes (pocket + node.headerLen) len) := by
  have size (value : Seq) : (hostSeq value).length = 4 := rfl
  have sequenced (started : Memory) (more : Nat) :
      ((started.initUdtPocket pocket).setSequence pocket
        node.acknowledgedSeq).bytes pocket (12 + more) =
          ([16, 0, 0, 0, 0, 0, 0, 0] ++ hostSeq node.acknowledgedSeq) ++
            started.bytes (pocket + 12) more := by
    rw [setSequence_bytes, initUdtPocket_bytes,
      overwrite_append_left (by rw [size]; decide)]
    rfl
  unfold resendHeader headerLen
  cases node.needAck with
  | false => exact sequenced memory len
  | true =>
    have place : pocket + 12 + ((4 : Nat) : Int) = pocket + 16 := by omega
    have flagged : (((memory.load (pocket + 1) 1).2.store (pocket + 1)
        [byteAt (memory.load (pocket + 1) 1).1 0 ||| 64]).bytes (pocket + 12)
          (4 + len)) = memory.bytes (pocket + 12) (4 + len) := by
      apply bytes_congr
      intro index _
      rw [store_cells_of_outside _ _ (by simp; omega), load_cells]
    have word : (memory.setPocketAck pocket node.receivedSequence).bytes
        (pocket + 12) (4 + len) =
          hostSeq node.receivedSequence ++ memory.bytes (pocket + 16) len := by
      refine (bytes_store_front _ _ _ _).trans ?_
      rw [flagged, bytes_add, place, overwrite_append_left (by
        rw [length_bytes, size])]
      rfl
    have whole := sequenced
      (memory.setPocketAck pocket node.receivedSequence) (4 + len)
    rwa [word, ← Nat.add_assoc] at whole

end Bytes

section Views

variable (node : UdtNode) {memory : Memory} {pocket : Int} {len : Nat}

theorem hostSeq_word (value : Seq) :
    BitVec.ofNat 32 (hostU16 (hostBytes (value.toNat % 65536)) 0 +
      65536 * hostU16 (hostBytes (value.toNat / 65536)) 0) = value := by
  rw [hostU16_hostBytes (Nat.mod_lt _ (by decide)),
    hostU16_hostBytes (by omega), Nat.mod_add_div, BitVec.ofNat_toNat,
    BitVec.setWidth_eq]

theorem toPocket_plain (sequence : Seq) (data : List Byte) :
    (PocketView.ofBytes (([16, 0, 0, 0, 0, 0, 0, 0] ++ hostSeq sequence) ++
      data)).toPocket =
        { UdtPocket.init with sequence := sequence, data := data } := by
  have word : BitVec.ofNat 32 (hostWord (([16, 0, 0, 0, 0, 0, 0, 0] ++
      hostSeq sequence) ++ data) 8) = sequence := hostSeq_word sequence
  have unflagged : ackFlag 0 = false := rfl
  have flags : byteAt (([16, 0, 0, 0, 0, 0, 0, 0] ++ hostSeq sequence) ++ data)
      1 = 0 := rfl
  unfold PocketView.ofBytes PocketView.toPocket
  rw [word, flags, unflagged, if_neg Bool.false_ne_true,
    if_neg Bool.false_ne_true]
  rfl

theorem toPocket_acked (sequence ack : Seq) (data : List Byte) :
    (PocketView.ofBytes (([16, 64, 0, 0, 0, 0, 0, 0] ++ hostSeq sequence) ++
      (hostSeq ack ++ data))).toPocket =
        { UdtPocket.init.setAck ack with sequence := sequence, data := data } := by
  have word : BitVec.ofNat 32 (hostWord (([16, 64, 0, 0, 0, 0, 0, 0] ++
      hostSeq sequence) ++ (hostSeq ack ++ data)) 8) = sequence :=
    hostSeq_word sequence
  have acked : BitVec.ofNat 32 (hostWord (([16, 64, 0, 0, 0, 0, 0, 0] ++
      hostSeq sequence) ++ (hostSeq ack ++ data)) 12) = ack :=
    hostSeq_word ack
  have flagged : ackFlag 64 = true := rfl
  have flags : byteAt (([16, 64, 0, 0, 0, 0, 0, 0] ++ hostSeq sequence) ++
      (hostSeq ack ++ data)) 1 = 64 := rfl
  unfold PocketView.ofBytes PocketView.toPocket
  dsimp only
  rw [word, flags, flagged, if_pos rfl, if_pos rfl, Option.getD_some, acked]
  rfl

/-- What a receiver reads is the pocket that was written, with the fields that
the call sets. -/
theorem receivedPocket_writePocket (memory : Memory) (pocket : Int)
    (localPort : UInt16) {window : Nat}
    (header : memory.headerSizeAt pocket < len)
    (kind : memory.typeAt pocket = .data) (small : window < 65536) :
    receivedPocket (memory.writePocket pocket len localPort window).1 =
      ((memory.viewAt pocket len).filled localPort window).toPocket := by
  have long : 1 < len := by
    unfold headerSizeAt at header
    split at header <;> omega
  have sized : (memory.writePocket pocket len localPort window).1.length =
      len := length_bytes _ _ _
  have viewed := readPacket_viewAt memory pocket localPort window
    (untouched fun _ => 0) 0 (Nat.le_of_lt header) small
  unfold receivedPocket
  rw [sized]
  generalize (((untouched fun _ => 0).store 0 (memory.writePocket pocket len
    localPort window).1).readPacket 0 len).2 = arrived at viewed ⊢
  have flags : arrived.cells (0 + 1) = memory.cells (pocket + 1) := by
    have same : byteAt (arrived.bytes 0 len) 1 =
        byteAt (memory.bytes pocket len) 1 :=
      congrArg PocketView.flags viewed
    rwa [byteAt_bytes _ _ long, byteAt_bytes _ _ long, Int.natCast_one] at same
  have type : arrived.typeAt 0 = .data := by
    rw [typeAt, flags]
    exact kind
  have size : arrived.headerSizeAt 0 < len := by
    rw [headerSizeAt, ackAt, flags]
    exact header
  refine (ofBytes_pocketAt arrived 0 len type size).symm.trans ?_
  have same : (arrived.viewAt 0 len).toPocket =
      ((memory.viewAt pocket len).filled localPort window).toPocket := by
    rw [viewed]
    rfl
  exact same

theorem writePocketAt_eq {packet : UdtPocket}
    (header : memory.headerSizeAt pocket < len)
    (viewed : (memory.viewAt pocket len).toPocket = packet)
    (kind : packet.udtType = .data)
    (sized : packet.headerSize + packet.data.length = len) :
    node.writePocketAt memory pocket len =
      ((node.writePocketToSocket packet).1, (node.writePocketToSocket packet).2,
        (memory.writePocket pocket len node.localPort node.sendWindow).2) := by
  have small : node.sendWindow < 65536 :=
    Nat.lt_of_le_of_lt (Nat.min_le_right _ _) (by decide)
  have long : 1 < len := by
    unfold headerSizeAt at header
    split at header <;> omega
  have type : memory.typeAt pocket = .data := by
    have same : typeOf (byteAt (memory.bytes pocket len) 1) =
        packet.udtType := congrArg UdtPocket.udtType viewed
    rw [byteAt_bytes _ _ long, Int.natCast_one] at same
    exact same.trans kind
  unfold writePocketAt writePocketToSocket
  dsimp only
  rw [receivedPocket_writePocket memory pocket node.localPort header type small,
    PocketView.toPocket_filled, viewed, sized]
  cases node.writeResults.head?.getD .sent with
  | sent | wouldBlock | failed => rfl

section

variable (memory : Memory)

variable (pocket : Int)

theorem headerSizeAt_le :
    memory.headerSizeAt pocket ≤ 16 := by
  unfold headerSizeAt
  split <;> decide

theorem flushHeader_headerSize :
    (node.flushHeader memory pocket).headerSizeAt pocket ≤
      node.headerLen := by
  cases acked : node.needAck with
  | true =>
    have long : node.headerLen = 16 := by rw [headerLen, acked]; rfl
    rw [long]
    exact headerSizeAt_le _ _
  | false =>
    have flags := congrArg (byteAt · 1)
      (flushHeader_bytes node memory pocket 0)
    have long : node.headerLen = 12 := by rw [headerLen, acked]; rfl
    rw [byteAt_bytes _ _ (by omega), acked, Int.natCast_one] at flags
    have plain : (node.flushHeader memory pocket).ackAt pocket = false := by
      rw [ackAt, flags.trans (show _ = (0 : Byte) from rfl)]
      rfl
    rw [headerSizeAt, plain, long]
    exact Nat.le_refl 12

theorem resendHeader_headerSize :
    (node.resendHeader memory pocket).headerSizeAt pocket ≤
      node.headerLen := by
  have bounds := headerLen_bounds node
  have flags := congrArg (byteAt · 1)
    (resendHeader_bytes node memory pocket 0)
  rw [byteAt_bytes _ _ (by omega), Int.natCast_one] at flags
  have plain : (node.resendHeader memory pocket).ackAt pocket = false := by
    rw [ackAt, flags.trans (show _ = (0 : Byte) from rfl)]
    rfl
  rw [headerSizeAt, plain]
  exact bounds.1

theorem flushHeader_viewed {unAck : Nat}
    (data : memory.bytes (pocket + node.headerLen) len =
      node.sendBytes unAck len) :
    ((node.flushHeader memory pocket).viewAt pocket
      (node.headerLen + len)).toPocket = node.windowPocket unAck len := by
  unfold viewAt windowPocket
  rw [flushHeader_bytes, data]
  cases node.needAck with
  | false => exact toPocket_plain _ _
  | true => exact toPocket_acked _ _ _

theorem resendHeader_viewed
    (data : memory.bytes (pocket + node.headerLen) len = node.sendBytes 0 len) :
    ((node.resendHeader memory pocket).viewAt pocket
      (node.headerLen + len)).toPocket = node.resendPocket len := by
  unfold viewAt resendPocket
  rw [resendHeader_bytes, data]
  exact toPocket_plain _ _

end

theorem sendSaved_eq {packet : UdtPocket} {saved : Nat}
    (header : Memory → Memory)
    (sizes : (header (memory.load pocket saved).2).headerSizeAt pocket < len)
    (viewed : ((header (memory.load pocket saved).2).viewAt pocket
      len).toPocket = packet)
    (kind : packet.udtType = .data)
    (sized : packet.headerSize + packet.data.length = len) :
    (node.sendSaved memory pocket saved len header).1 =
        (node.writePocketToSocket packet).1 ∧
      (node.sendSaved memory pocket saved len header).2.1 =
        (node.writePocketToSocket packet).2 := by
  unfold sendSaved
  dsimp only
  rw [writePocketAt_eq node sizes viewed kind sized]
  exact ⟨rfl, rfl⟩

end Views

section Refines

variable (node : UdtNode) {memory : Memory} {queue : List Byte}

variable (holds : node.sendBuffer.Represents queue)
include holds

variable (stored : node.sendBuffer.StoredIn memory)
include stored

theorem bytes_stored {offset len : Nat}
    (inside : offset + len ≤ node.sendBuffer.datalen) :
    memory.bytes (node.sendBuffer.startOff + offset) len =
      node.sendBytes offset len := by
  have length := holds.datalen_eq
  have bounded := holds.bounded
  apply List.ext_getElem?
  intro index
  rw [sendBytes, getElem?_slice, ← stored, getElem?_bytes, getElem?_bytes]
  by_cases early : index < len
  · have place : (node.sendBuffer.startOff : Int) + offset + index =
        0 + ((node.sendBuffer.startOff + offset + index : Nat) : Int) := by
      omega
    rw [if_pos early, if_pos (by omega), if_pos (by omega), place]
  · rw [if_neg early, if_neg (by omega)]

/-- `flush_send_window` in memory does to the node what `flushSendWindow`
does. -/
theorem flushInPlace_refines :
    ((node.flushInPlace memory).1, (node.flushInPlace memory).2.1) =
      node.flushSendWindow := by
  unfold flushInPlace flushSendWindow
  by_cases idle : (node.status.has sendclose || node.isRetranslate) = true
  · rw [if_pos idle, if_pos idle]
  rw [if_neg idle, if_neg idle]
  cases begun : node.sendWindowStart with
  | none => rfl
  | some found =>
    obtain ⟨unAck, len⟩ := found
    dsimp only
    by_cases empty : len = 0
    · rw [if_pos empty, if_pos empty]
    have inside := (sendWindowStart_inside begun).2
    generalize place : (node.sendBuffer.startOff + unAck -
      node.headerLen : Int) = pocket
    have behind : pocket + node.headerLen =
        node.sendBuffer.startOff + unAck := by omega
    have data : (memory.load pocket 16).2.bytes
        (pocket + node.headerLen) len = node.sendBytes unAck len :=
      behind ▸ node.bytes_stored holds stored inside
    have sized : (node.windowPocket unAck len).headerSize +
        (node.windowPocket unAck len).data.length =
          node.headerLen + len := by
      refine congrArg₂ _ ?_ (length_sendBytes holds inside)
      unfold windowPocket headerLen
      cases node.needAck with
      | false | true => rfl
    have kind : (node.windowPocket unAck len).udtType = .data := by
      unfold windowPocket
      cases node.needAck with
      | false | true => rfl
    obtain ⟨result, after⟩ := sendSaved_eq { node with needAck := false }
      (fun memory => node.flushHeader memory pocket)
      (Nat.lt_of_le_of_lt
        (node.flushHeader_headerSize (memory.load pocket 16).2 pocket)
        (Nat.lt_add_of_pos_right (Nat.pos_of_ne_zero empty)))
      (node.flushHeader_viewed (memory.load pocket 16).2 pocket data)
      kind sized
    rw [if_neg empty, if_neg empty, result, after]
    split
    · exact Prod.ext result after
    · rfl

/-- `retranslate_data` in memory does to the node what `retranslateData`
does. -/
theorem retranslateInPlace_refines
    (inside : node.resendLen.toNat ≤ node.sendBuffer.datalen) :
    ((node.retranslateInPlace memory).1,
      (node.retranslateInPlace memory).2.1) = node.retranslateData := by
  unfold retranslateInPlace retranslateData
  by_cases idle : node.resendLen ≤ 0
  · rw [if_pos idle, if_pos idle]
  have positive : 0 < min node.resendLen.toNat udtFragmentLen := by
    rw [udtFragmentLen]
    omega
  generalize short : min node.resendLen.toNat udtFragmentLen = len
    at positive
  have room : 0 + len ≤ node.sendBuffer.datalen := by omega
  generalize place : (node.sendBuffer.startOff - node.headerLen : Int) = pocket
  have behind : pocket + node.headerLen =
      node.sendBuffer.startOff + ((0 : Nat) : Int) := by omega
  have data : (memory.load pocket node.headerLen).2.bytes
      (pocket + node.headerLen) len = node.sendBytes 0 len :=
    behind ▸ node.bytes_stored holds stored room
  have sized : (node.resendPocket len).headerSize +
      (node.resendPocket len).data.length = node.headerLen + len := by
    have sent := length_sendBytes holds room
    unfold resendPocket headerLen UdtPocket.headerSize
    rw [List.length_append, sent]
    cases node.needAck with
    | false => exact congrArg (12 + ·) (Nat.zero_add len)
    | true => exact (Nat.add_assoc 12 4 len).symm
  obtain ⟨result, after⟩ := sendSaved_eq
    { node with retransSeq := node.resentSeq 0, needAck := false }
    (fun memory => node.resendHeader memory pocket)
    (Nat.lt_of_le_of_lt
      (node.resendHeader_headerSize (memory.load pocket node.headerLen).2
        pocket)
      (Nat.lt_add_of_pos_right positive))
    (node.resendHeader_viewed (memory.load pocket node.headerLen).2 pocket
      data) rfl sized
  dsimp only
  rw [if_neg idle, if_neg idle, result, after]
  split
  · exact congrArg (Prod.mk 0) after
  · rfl

end Refines

section Saved

variable (node : UdtNode) {memory : Memory} {pocket : Int} {saved len : Nat}
  {header : Memory → Memory}

theorem writePocketAt_memory (memory : Memory) (pocket : Int) (len : Nat) :
    (node.writePocketAt memory pocket len).2.2 =
      (memory.writePocket pocket len node.localPort node.sendWindow).2 := by
  unfold writePocketAt
  cases node.writeResults.head?.getD .sent with
  | sent | wouldBlock | failed => rfl

theorem sendSaved_cells (long : 8 ≤ saved)
    (framed : ∀ memory, Within pocket (pocket + saved) memory (header memory)) :
    (node.sendSaved memory pocket saved len header).2.2.cells =
      memory.cells := by
  apply store_bytes_of_outside
  intro target outside
  rw [writePocketAt_memory, writePocket_cells_of_outside _ _ _ _ _ (by omega),
    (framed _).cells target outside, load_cells]

theorem within_sendSaved {first last : Int} (lower : first ≤ pocket)
    (room : pocket + saved ≤ last) (upper : pocket + len ≤ last)
    (long : 12 ≤ saved)
    (framed : ∀ memory, Within pocket (pocket + saved) memory (header memory))
    (sized : ∀ memory, (header memory).headerSizeAt pocket ≤ len) :
    Within first last (memory.load pocket saved).2
      (node.sendSaved memory pocket saved len header).2.2 := by
  have headed := (framed (memory.load pocket saved).2).mono lower room
  have acked (flag : (header (memory.load pocket saved).2).ackAt pocket =
      true) : pocket + 16 ≤ last := by
    have size := sized (memory.load pocket saved).2
    rw [headerSizeAt, if_pos flag] at size
    omega
  have written := within_writePocket lower (by omega) upper
    (header (memory.load pocket saved).2) acked node.localPort node.sendWindow
  have restored : pocket + (memory.bytes pocket saved).length ≤ last := by
    rw [length_bytes]
    exact room
  unfold sendSaved
  dsimp only
  rw [writePocketAt_memory]
  exact (headed.trans written).trans (within_store lower restored _)

theorem sendSaved_touches_iff {first last : Int} (cells : Int → Byte)
    (long : 12 ≤ saved)
    (framed : ∀ memory, Within pocket (pocket + saved) memory (header memory))
    (sized : ∀ memory, (header memory).headerSizeAt pocket ≤ len) :
    (node.sendSaved (untouched cells) pocket saved len header).2.2.Touches
        first last ↔
      first ≤ pocket ∧ pocket + saved ≤ last ∧ pocket + len ≤ last := by
  constructor
  · intro inside
    have backup : (pocket, saved) ∈ (node.sendSaved (untouched cells) pocket
        saved len header).2.2.touched :=
      (node.within_sendSaved (Int.le_refl pocket)
        (show pocket + saved ≤ pocket + saved + len by omega)
        (show pocket + len ≤ pocket + saved + len by omega) long framed
        sized).mem_touched (List.mem_singleton_self _)
    have sent : (pocket, len) ∈ (node.sendSaved (untouched cells) pocket
        saved len header).2.2.touched := by
      unfold sendSaved
      dsimp only
      rw [writePocketAt_memory]
      refine List.mem_append_left _ ?_
      exact (within_swapHeader (Int.le_refl pocket)
        (show pocket + 12 ≤ pocket + 16 by omega) _
        (fun _ => Int.le_refl _)).mem_touched
          (List.mem_append_right _ (List.mem_singleton_self _))
    have saving := inside _ backup
    have sending := inside _ sent
    exact ⟨saving.1, saving.2, sending.2⟩
  · rintro ⟨lower, room, upper⟩
    have fresh : (untouched cells).Touches first last :=
      fun range member => absurd member List.not_mem_nil
    exact ((within_load lower room (untouched cells)).trans
      (node.within_sendSaved lower room upper long framed sized)).touches fresh

end Saved

section Room

variable (node : UdtNode) {queue : List Byte}

/-- `flush_send_window` sends `len` bytes, the first of them `unAck` bytes behind
the start of the data. -/
structure Flushes (unAck len : Nat) : Prop where
  start : node.sendWindowStart = some (unAck, len)
  some : len ≠ 0
  ready : ¬(node.status.has sendclose || node.isRetranslate) = true

/-- There is room for the 16 bytes that `flush_send_window` saves when it sends
anything: in front of the data, and with the shorter header also in the first
four bytes behind it. -/
def FlushRoom : Prop :=
  ∀ unAck len, node.Flushes unAck len →
    node.headerLen ≤ node.sendBuffer.startOff + unAck ∧
      node.sendBuffer.startOff + unAck + 16 ≤
        node.sendBuffer.capacity + node.headerLen

/-- There is room for the header of `retranslate_data`, and the bytes to send
again are in the storage. -/
def ResendRoom : Prop :=
  0 < node.resendLen →
    node.headerLen ≤ node.sendBuffer.startOff ∧
      node.sendBuffer.startOff + min node.resendLen.toNat udtFragmentLen ≤
        node.sendBuffer.capacity

/-- The code has touched the storage only, and left its bytes as they were. -/
structure KeepsStorage (cells : Int → Byte) (after : Memory) : Prop where
  touches : after.Touches 0 node.sendBuffer.capacity
  kept : ∀ target, 0 ≤ target → target < node.sendBuffer.capacity →
    after.cells target = cells target

theorem Flushes.memory {node : UdtNode} {unAck len : Nat}
    (sends : node.Flushes unAck len) (memory : Memory) :
    (node.flushInPlace memory).2.2 =
      (sendSaved { node with needAck := false } memory
        (node.sendBuffer.startOff + unAck - node.headerLen) 16
          (node.headerLen + len) fun memory => node.flushHeader memory
            (node.sendBuffer.startOff + unAck - node.headerLen)).2.2 := by
  unfold flushInPlace
  rw [if_neg sends.ready, sends.start]
  dsimp only
  rw [if_neg sends.some]
  split
  · rfl
  · rfl

theorem flushInPlace_idle (idle : ¬∃ unAck len, node.Flushes unAck len)
    (memory : Memory) : (node.flushInPlace memory).2.2 = memory := by
  unfold flushInPlace
  split
  · rfl
  rename_i ready
  cases begun : node.sendWindowStart with
  | none => rfl
  | some found =>
    by_cases empty : found.2 = 0
    · dsimp only
      rw [if_pos empty]
    · exact absurd ⟨found.1, found.2, begun, empty, ready⟩ idle

theorem flushInPlace_cells (memory : Memory) :
    (node.flushInPlace memory).2.2.cells = memory.cells := by
  have bounds := node.headerLen_bounds
  by_cases busy : ∃ unAck len, node.Flushes unAck len
  · obtain ⟨unAck, len, sends⟩ := busy
    rw [sends.memory]
    exact sendSaved_cells _ (by decide) fun memory =>
      node.within_flushHeader memory (Int.le_refl _) (by omega)
  · rw [node.flushInPlace_idle busy]

theorem flushInPlace_touches_iff (holds : node.sendBuffer.Represents queue)
    (cells : Int → Byte) :
    (node.flushInPlace (untouched cells)).2.2.Touches 0
        node.sendBuffer.capacity ↔ node.FlushRoom := by
  have bounds := node.headerLen_bounds
  have bounded := holds.bounded
  have ordered := holds.ordered
  have length := holds.datalen_eq
  by_cases busy : ∃ unAck len, node.Flushes unAck len
  · obtain ⟨unAck, len, sends⟩ := busy
    have inside := (sendWindowStart_inside sends.start).2
    rw [sends.memory, sendSaved_touches_iff _ cells (by decide)
      (fun memory => node.within_flushHeader memory (Int.le_refl _) (by omega))
      (fun memory => Nat.le_trans (node.flushHeader_headerSize memory _)
        (Nat.le_add_right _ len))]
    constructor
    · rintro ⟨front, back, -⟩ other length same
      obtain ⟨rfl, rfl⟩ := Prod.mk.inj
        (Option.some.inj (sends.start.symm.trans same.start))
      omega
    · intro room
      have fits := room unAck len sends
      omega
  · rw [node.flushInPlace_idle busy]
    constructor
    · intro _ unAck len sends
      exact absurd ⟨unAck, len, sends⟩ busy
    · intro _ range member
      exact absurd member List.not_mem_nil

theorem retranslateInPlace_memory (sends : 0 < node.resendLen) (memory : Memory)
    :
    (node.retranslateInPlace memory).2.2 =
      (sendSaved
        { node with retransSeq := node.resentSeq 0, needAck := false } memory
        (node.sendBuffer.startOff - node.headerLen) node.headerLen
          (node.headerLen + min node.resendLen.toNat udtFragmentLen)
            fun memory => node.resendHeader memory
              (node.sendBuffer.startOff - node.headerLen)).2.2 := by
  unfold retranslateInPlace
  dsimp only
  rw [if_neg (Int.not_le.mpr sends)]
  split
  · rfl
  · rfl

theorem retranslateInPlace_idle (idle : ¬0 < node.resendLen)
    (memory : Memory) : (node.retranslateInPlace memory).2.2 = memory := by
  unfold retranslateInPlace
  dsimp only
  rw [if_pos (Int.not_lt.mp idle)]

theorem retranslateInPlace_cells (memory : Memory) :
    (node.retranslateInPlace memory).2.2.cells = memory.cells := by
  have bounds := node.headerLen_bounds
  by_cases sends : 0 < node.resendLen
  · rw [node.retranslateInPlace_memory sends]
    exact sendSaved_cells _ (by omega) fun memory =>
      node.within_resendHeader memory (Int.le_refl _) (Int.le_refl _)
  · rw [node.retranslateInPlace_idle sends]

theorem retranslateInPlace_touches_iff (cells : Int → Byte) :
    (node.retranslateInPlace (untouched cells)).2.2.Touches 0
        node.sendBuffer.capacity ↔ node.ResendRoom := by
  have bounds := node.headerLen_bounds
  by_cases sends : 0 < node.resendLen
  · rw [node.retranslateInPlace_memory sends, sendSaved_touches_iff _ cells
      bounds.1 (fun memory => node.within_resendHeader memory (Int.le_refl _)
        (Int.le_refl _))
      (fun memory => Nat.le_trans (node.resendHeader_headerSize memory _)
        (Nat.le_add_right _ _))]
    constructor
    · rintro ⟨front, -, back⟩ -
      omega
    · intro room
      have fits := room sends
      omega
  · rw [node.retranslateInPlace_idle sends]
    constructor
    · intro _ more
      exact absurd more sends
    · intro _ range member
      exact absurd member List.not_mem_nil

/-- Both functions keep to the storage and leave it as it was exactly when
there is room for the bytes that they save, whatever the socket says. -/
theorem inPlace_keepsStorage_iff (holds : node.sendBuffer.Represents queue)
    (cells : Int → Byte) :
    node.KeepsStorage cells (node.flushInPlace (untouched cells)).2.2 ∧
        node.KeepsStorage cells
          (node.retranslateInPlace (untouched cells)).2.2 ↔
      node.FlushRoom ∧ node.ResendRoom := by
  rw [← node.flushInPlace_touches_iff holds cells,
    ← node.retranslateInPlace_touches_iff cells]
  constructor
  · rintro ⟨flushed, resent⟩
    exact ⟨flushed.touches, resent.touches⟩
  · rintro ⟨flushed, resent⟩
    refine ⟨⟨flushed, ?_⟩, ⟨resent, ?_⟩⟩
    · intro target _ _
      exact congrFun (node.flushInPlace_cells (untouched cells)) target
    · intro target _ _
      exact congrFun (node.retranslateInPlace_cells (untouched cells)) target

/-- In memory both functions do to the node what they do without it, and leave
every byte as it was. -/
theorem inPlace_refines {memory : Memory}
    (holds : node.sendBuffer.Represents queue)
    (stored : node.sendBuffer.StoredIn memory)
    (inside : node.resendLen.toNat ≤ node.sendBuffer.datalen) :
    ((node.flushInPlace memory).1, (node.flushInPlace memory).2.1) =
        node.flushSendWindow ∧
      ((node.retranslateInPlace memory).1,
        (node.retranslateInPlace memory).2.1) = node.retranslateData ∧
      (node.flushInPlace memory).2.2.cells = memory.cells ∧
      (node.retranslateInPlace memory).2.2.cells = memory.cells :=
  ⟨node.flushInPlace_refines holds stored,
    node.retranslateInPlace_refines holds stored inside,
    node.flushInPlace_cells memory, node.retranslateInPlace_cells memory⟩

end Room

section Samples

/-- A node with four bytes to send from an offset of its storage on; `sent` of
them have been sent before. -/
def sendingAt (startOff : Nat) (sent : Seq) : UdtNode :=
  { connectedUdt sent 7 [] with
    acknowledgedSeq := 0
    sendBuffer :=
      { autoInc := false
        capacity := 24
        startOff := startOff
        endOff := startOff + 4
        storage := List.replicate 24 1 } }

theorem sendingAt_represents {startOff : Nat} (inside : startOff + 4 ≤ 24)
    (sent : Seq) :
    (sendingAt startOff sent).sendBuffer.Represents [1, 1, 1, 1] where
  ordered := Nat.le_add_right _ _
  bounded := inside
  storage_length := List.length_replicate
  content_eq := by
    change slice (List.replicate 24 1) startOff (startOff + 4) = [1, 1, 1, 1]
    rw [slice, Nat.add_sub_cancel_left, List.drop_replicate,
      List.take_replicate, Nat.min_eq_left (by omega)]
    rfl

/-- With twelve bytes in front of the data nothing else is touched. -/
theorem inPlace_keepsStorage_roomy :
    (sendingAt 12 2).KeepsStorage (fun _ => 0)
        ((sendingAt 12 2).flushInPlace (untouched fun _ => 0)).2.2 ∧
      (sendingAt 12 2).KeepsStorage (fun _ => 0)
        ((sendingAt 12 2).retranslateInPlace (untouched fun _ => 0)).2.2 := by
  have holds := sendingAt_represents (by decide : 12 + 4 ≤ 24) 2
  refine (inPlace_keepsStorage_iff (sendingAt 12 2) holds _).mpr ⟨?_, ?_⟩
  · intro unAck len sends
    obtain ⟨rfl, rfl⟩ := Prod.mk.inj (Option.some.inj sends.start)
    decide
  · intro _
    decide

/-- At the very beginning of the storage both functions write in front of it;
with less than four bytes behind the header `flush_send_window` touches bytes
behind the storage. -/
theorem inPlace_leavesStorage :
    ((sendingAt 0 0).sendBuffer.Represents [1, 1, 1, 1] ∧
        ¬(sendingAt 0 0).KeepsStorage (fun _ => 0)
          ((sendingAt 0 0).flushInPlace (untouched fun _ => 0)).2.2) ∧
      ((sendingAt 0 4).sendBuffer.Represents [1, 1, 1, 1] ∧
        ¬(sendingAt 0 4).KeepsStorage (fun _ => 0)
          ((sendingAt 0 4).retranslateInPlace (untouched fun _ => 0)).2.2) ∧
      ((sendingAt 20 2).sendBuffer.Represents [1, 1, 1, 1] ∧
        ¬(sendingAt 20 2).KeepsStorage (fun _ => 0)
          ((sendingAt 20 2).flushInPlace (untouched fun _ => 0)).2.2) := by
  have first := sendingAt_represents (by decide : 0 + 4 ≤ 24) 0
  have last := sendingAt_represents (by decide : 20 + 4 ≤ 24) 2
  refine ⟨⟨first, ?_⟩,
    ⟨sendingAt_represents (by decide : 0 + 4 ≤ 24) 4, ?_⟩, ⟨last, ?_⟩⟩
  · intro keeps
    have room := (flushInPlace_touches_iff (sendingAt 0 0) first _).mp
      keeps.touches 0 4 ⟨rfl, by decide, by decide⟩
    exact absurd room.1 (by decide)
  · intro keeps
    have room := (retranslateInPlace_touches_iff (sendingAt 0 4) _).mp
      keeps.touches (by decide)
    exact absurd room.1 (by decide)
  · intro keeps
    have room := (flushInPlace_touches_iff (sendingAt 20 2) last _).mp
      keeps.touches 2 2 ⟨rfl, by decide, by decide⟩
    exact absurd room.2 (by decide)

theorem inPlace_refines_ones :
    (((sendingAt 12 2).flushInPlace (untouched fun _ => 1)).1,
        ((sendingAt 12 2).flushInPlace (untouched fun _ => 1)).2.1) =
      (sendingAt 12 2).flushSendWindow :=
  (inPlace_refines (sendingAt 12 2)
    (sendingAt_represents (by decide : 12 + 4 ≤ 24) 2)
    (by rfl : (sendingAt 12 2).sendBuffer.StoredIn (untouched fun _ => 1))
    (by decide)).1

end Samples

end UdtNode

end NdNet
