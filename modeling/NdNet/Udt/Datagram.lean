import NdNet.Udt.InPlace

/-!
# Unreliable datagrams

`udt_sendto` puts a header of six bytes in front of the payload and sends both
with `write_pocket_to_socket`. The conversions on both sides reverse the window
and the sequence number of the stream header all the same, which lie in the
payload or behind it, and the receiver takes the first two bytes of the payload
for a window. Every reader has a buffer of 2048 bytes for the packet.
-/

namespace NdNet

open Mem Store

def ndUdpPacketSize : Nat := 0x10000

/-- `sizeof(udt_pocketbuf)`, the buffer of every reader. -/
def udtPocketbufSize : Nat := 2048

/-- The header that `udt_sendto` writes. -/
def datagramHeader (memory : Memory) (pocket : Int) : Memory :=
  (memory.initUdtHeader pocket).setType pocket 7

namespace UdtNode

open NetStat

/-- `udt_sendto` of `len` bytes at an address. -/
def udtSendtoAt (node : UdtNode) (memory : Memory) (data : Int) (len : Nat) :
    Int × UdtNode × Memory :=
  if len < 1 ∨ ndUdpPacketSize - udpPacketHeadSize < len then
    (-1, { node with myerrno := .invalidInput }, memory)
  else
    node.sendSaved memory (data - udpPacketHeadSize) udpPacketHeadSize
      (udpPacketHeadSize + len) fun memory =>
        datagramHeader memory (data - udpPacketHeadSize)

/-- The packet that `udt_sendto` hands to the socket. -/
def sendtoPacket (node : UdtNode) (memory : Memory) (data : Int) (len : Nat) :
    List Byte :=
  ((datagramHeader memory (data - udpPacketHeadSize)).writePocket
    (data - udpPacketHeadSize) (udpPacketHeadSize + len) node.localPort
      node.sendWindow).1

/-- The fields of the reliable stream. -/
structure StreamFields where
  windowLen : Nat
  sendSequence : Seq
  acknowledgedSeq : Seq
  receivedSequence : Seq
  retransSeq : Seq
  needAck : Bool
  preList : List PrePacket
  recvBuffer : LineBuf
  sendBuffer : LineBuf
  deriving DecidableEq

def streamFields (node : UdtNode) : StreamFields :=
  { windowLen := node.windowLen
    sendSequence := node.sendSequence
    acknowledgedSeq := node.acknowledgedSeq
    receivedSequence := node.receivedSequence
    retransSeq := node.retransSeq
    needAck := node.needAck
    preList := node.preList
    recvBuffer := node.recvBuffer
    sendBuffer := node.sendBuffer }

/-- `read_packet_from_socket` of a packet for a `udt_pocketbuf`: the socket cuts
off what the buffer does not hold. -/
def readPocketbuf (buffer : Memory) (buf : Int) (packet : List Byte) :
    Nat × Memory :=
  (buffer.store buf (packet.take udtPocketbufSize)).readPacket buf
    (packet.take udtPocketbufSize).length

/-- What a node with this `data_entry` does with a packet on the socket. -/
def hear (node : UdtNode) (entry : List Byte → Int) (buffer : Memory)
    (buf : Int) (packet : List Byte) : Int × UdtNode × Memory :=
  let read := readPocketbuf buffer buf packet
  if read.1 = 0 then
    (0, { node with
      dataEntry := some entry
      myerrno := .badpacket }, read.2)
  else
    { node with dataEntry := some entry }.packetHandlerAt read.2 buf read.1

end UdtNode

section Datagram

variable (sender receiver : UdtNode) (memory : Memory) (data : Int) (len : Nat)
  (buffer : Memory) (buf : Int)

/-- The packet is sent when the socket takes it, the payload reaches `data_entry`
as it is, the sender's memory is restored, and no stream field changes on
either side. -/
structure DatagramDelivered : Prop where
  emitted : sender.writeResults.head?.getD .sent = .sent →
    (sender.udtSendtoAt memory data len).1 = (udpPacketHeadSize + len : Nat) ∧
      (sender.udtSendtoAt memory data len).2.1.wire =
        sender.wire ++ [receivedPocket (sender.sendtoPacket memory data len)]
  accepted : (UdtNode.readPocketbuf buffer buf
    (sender.sendtoPacket memory data len)).1 = udpPacketHeadSize + len
  delivered : ∀ entry, (receiver.hear entry buffer buf
    (sender.sendtoPacket memory data len)).1 = entry (memory.bytes data len)
  restored : (sender.udtSendtoAt memory data len).2.2.cells = memory.cells
  sending : (sender.udtSendtoAt memory data len).2.1.streamFields =
    sender.streamFields
  receiving : ∀ entry, (receiver.hear entry buffer buf
    (sender.sendtoPacket memory data len)).2.1.streamFields =
      receiver.streamFields

/-- The packet fits the reader's buffer; the receiver is not in
`NETSTAT_RESET`; a byte of the payload whose mirror image is behind the packet
stands there in the receiver's buffer already; and the first two bytes at the
payload are zeros or what the receiver has as window. -/
structure DatagramIntact : Prop where
  fits : udpPacketHeadSize + len ≤ udtPocketbufSize
  ready : receiver.status.has NetStat.reset = false
  behind : ∀ index : Nat, index < len →
    (udpPacketHeadSize + len : Int) ≤
      mirror false ((udpPacketHeadSize + index : Nat) : Int) →
        buffer.cells
            (buf + mirror false ((udpPacketHeadSize + index : Nat) : Int)) =
          memory.cells (data + index)
  window : hostU16 (memory.bytes data 2) 0 = 0 ∨
    hostU16 (memory.bytes data 2) 0 = receiver.windowLen

end Datagram

section Sender

variable (node : UdtNode) (memory : Memory) (pocket : Int) {len : Nat}

theorem within_datagramHeader :
    Within pocket (pocket + 6) memory (datagramHeader memory pocket) :=
  ((within_store (Int.le_refl _) (show pocket + (4 : Nat) ≤ pocket + 6 by omega)
    _).trans (within_load (by omega) (by omega) _)).trans
      (within_store (by omega) (show pocket + 1 + (1 : Nat) ≤ pocket + 6 by
        omega) _)

theorem datagramHeader_flags :
    (datagramHeader memory pocket).cells (pocket + 1) = 7 := by
  have started : (memory.initUdtHeader pocket).cells (pocket + 1) = 0 :=
    memory.store_cells pocket [UInt8.ofNat (16 * protocolUdt), 0, 0, 0] 1
  have loaded : byteAt ((memory.initUdtHeader pocket).load (pocket + 1) 1).1 0 =
      0 := by
    rw [load_bytes, byteAt_bytes _ _ (by decide), Int.natCast_zero,
      Int.add_zero, started]
  have stored := store_cells ((memory.initUdtHeader pocket).load (pocket + 1)
    1).2 (pocket + 1) [((0 : Byte) &&& 0xf0) ||| 7] 0
  rw [Int.natCast_zero, Int.add_zero] at stored
  unfold datagramHeader setType
  dsimp only
  rw [loaded]
  exact stored

theorem setPortWindow_datagram (port : UInt16) (window : Nat)
    (datagram : memory.typeAt pocket = .dgram) :
    (memory.setPortWindow pocket port window).cells =
      (memory.storeHost (pocket + 4) port.toNat).cells := by
  have flags : byteAt (((memory.storeHost (pocket + 4) port.toNat).load
      (pocket + 1) 1).1) 0 = memory.cells (pocket + 1) := by
    rw [load_bytes, byteAt_bytes _ _ (by decide), Int.natCast_zero,
      Int.add_zero, storeHost_of_outside _ _ _ (by omega)]
  unfold setPortWindow
  dsimp only
  rw [flags, if_pos (show typeOf (memory.cells (pocket + 1)) = .dgram from
    datagram)]
  rfl

theorem mirror_payload {offset : Int} (payload : 6 ≤ offset) :
    6 ≤ mirror false offset := by
  unfold mirror
  split_ifs <;> omega

end Sender

section Packet

variable (node : UdtNode) (memory : Memory) (data : Int) (len : Nat)

theorem length_sendtoPacket :
    (node.sendtoPacket memory data len).length = udpPacketHeadSize + len :=
  length_bytes _ _ _

theorem sendtoPacket_ported {offset : Int} (payload : 6 ≤ offset) :
    ((datagramHeader memory (data - 6)).setPortWindow (data - 6)
        node.localPort node.sendWindow).cells (data - 6 + offset) =
      memory.cells (data - 6 + offset) ∧
    ((datagramHeader memory (data - 6)).setPortWindow (data - 6)
        node.localPort node.sendWindow).cells (data - 6 + 1) = 7 := by
  have datagram : (datagramHeader memory (data - 6)).typeAt (data - 6) =
      .dgram := by
    rw [typeAt, datagramHeader_flags]
    rfl
  have headed := within_datagramHeader memory (data - 6)
  rw [setPortWindow_datagram _ _ _ _ datagram]
  constructor
  · rw [storeHost_of_outside _ _ _ (by omega), headed.cells _ (by omega)]
  · rw [storeHost_of_outside _ _ _ (by omega), datagramHeader_flags]

theorem sendtoPacket_byte {index : Nat} (inside : index < 6 + len) :
    (6 ≤ index → byteAt (node.sendtoPacket memory data len) index =
      memory.cells (data - 6 + mirror false index)) ∧
    (index = 1 → byteAt (node.sendtoPacket memory data len) index = 7) := by
  have unflagged : ((datagramHeader memory (data - 6)).setPortWindow (data - 6)
      node.localPort node.sendWindow).ackAt (data - 6) = false := by
    rw [ackAt, (sendtoPacket_ported node memory data (Int.le_refl 6)).2]
    rfl
  have packet := writePocket_packet (datagramHeader memory (data - 6))
    (data - 6) node.localPort node.sendWindow (6 + len)
  have size : (hostBytes (wireSum (datagramHeader memory (data - 6)) (data - 6)
      node.localPort node.sendWindow (6 + len))).reverse.length = 2 := rfl
  have byte (apart : index < 2 ∨ 4 ≤ index) :
      byteAt (node.sendtoPacket memory data len) index =
        ((datagramHeader memory (data - 6)).setPortWindow (data - 6)
          node.localPort node.sendWindow).cells
            (data - 6 + mirror false index) := by
    refine (congrArg (byteAt · index) packet).trans ?_
    rw [byteAt_overwrite, if_neg (by rw [size]; omega),
      byteAt_bytes _ _ inside, swapHeader_cells, unflagged]
  constructor
  · intro payload
    rw [byte (.inr (by omega))]
    exact (sendtoPacket_ported node memory data
      (mirror_payload (by omega))).1
  · intro flags
    rw [byte (.inl (by omega)), flags, mirror_of_outside _ (by omega)]
    exact (sendtoPacket_ported node memory data (Int.le_refl 6)).2

theorem sendtoPacket_passes (buffer : Memory) (buf : Int) :
    (((buffer.store buf (node.sendtoPacket memory data len)).testChecksum buf
      (udpPacketHeadSize + len)).1) = true :=
  (writePocket_passes (datagramHeader memory (data - 6)) (data - 6)
    node.localPort node.sendWindow buffer buf
      (show 4 ≤ udpPacketHeadSize + len by rw [udpPacketHeadSize]; omega)).1

end Packet

section Receiver

variable (sender : UdtNode) (memory : Memory) (data : Int) (len : Nat)
  (buffer : Memory) (buf : Int)

/-- The receiver's buffer behind `read_packet_from_socket` of a packet that
fits. -/
def heardMemory : Memory :=
  ((buffer.store buf (sender.sendtoPacket memory data len)).readPacket buf
    (udpPacketHeadSize + len)).2

theorem heardMemory_eq :
    heardMemory sender memory data len buffer buf =
      ((buffer.store buf (sender.sendtoPacket memory data len)).testChecksum buf
        (udpPacketHeadSize + len)).2.swapHeader buf := by
  unfold heardMemory readPacket
  rw [if_pos (sendtoPacket_passes sender memory data len buffer buf)]
  rfl

theorem stored_byte {packet : List Byte} {index : Nat}
    (inside : index < packet.length) :
    (buffer.store buf packet).cells (buf + index) = byteAt packet index := by
  rw [store_cells, List.getElem?_eq_getElem inside, byteAt,
    List.getD_eq_getElem?_getD, List.getElem?_eq_getElem inside]
  rfl

theorem heardMemory_flags (some : 1 ≤ len) :
    (heardMemory sender memory data len buffer buf).cells (buf + 1) = 7 := by
  have length := length_sendtoPacket sender memory data len
  have flags := (sendtoPacket_byte sender memory data len
    (show 1 < 6 + len by omega)).2 rfl
  have inside : 1 < (sender.sendtoPacket memory data len).length := by
    rw [length, udpPacketHeadSize]
    omega
  have stored := stored_byte buffer buf inside
  rw [heardMemory_eq, swapHeader_cells, mirror_of_outside _ (by omega),
    (testChecksum_eq _ _ _).2, storeHost_of_outside _ _ _ (by omega)]
  rw [Int.natCast_one] at stored
  rw [stored, flags]

/-- A byte behind the datagram's header, after the conversion: the payload's,
or what stood in the buffer behind the packet. -/
theorem heardMemory_cells (some : 1 ≤ len) {offset : Int} (payload : 6 ≤ offset)
    :
    (heardMemory sender memory data len buffer buf).cells (buf + offset) =
      if mirror false offset < 6 + len then memory.cells (data - 6 + offset)
      else buffer.cells (buf + mirror false offset) := by
  have length := length_sendtoPacket sender memory data len
  have flags := heardMemory_flags sender memory data len buffer buf some
  have reach := mirror_payload payload
  have unflagged : ((buffer.store buf
      (sender.sendtoPacket memory data len)).testChecksum buf
        (udpPacketHeadSize + len)).2.ackAt buf = false := by
    rw [← ackAt_swapHeader, ← heardMemory_eq, ackAt, flags]
    rfl
  rw [heardMemory_eq, swapHeader_cells, unflagged, (testChecksum_eq _ _ _).2,
    storeHost_of_outside _ _ _ (by omega)]
  by_cases inside : mirror false offset < 6 + len
  · obtain ⟨index, place⟩ : ∃ index : Nat, mirror false offset = index :=
      ⟨(mirror false offset).toNat, by omega⟩
    have within : index < (sender.sendtoPacket memory data len).length := by
      rw [length, udpPacketHeadSize]
      omega
    have byte := (sendtoPacket_byte sender memory data len
      (show index < 6 + len by omega)).1 (by omega)
    rw [if_pos inside, place, stored_byte buffer buf within, byte, ← place,
      mirror_mirror]
  · rw [if_neg inside, store_cells_of_outside _ _ (.inr (by
      rw [length, udpPacketHeadSize]
      omega))]

variable {len} in
theorem readPocketbuf_fits (fits : udpPacketHeadSize + len ≤ udtPocketbufSize) :
    UdtNode.readPocketbuf buffer buf (sender.sendtoPacket memory data len) =
      (udpPacketHeadSize + len, heardMemory sender memory data len buffer buf) := by
  have length := length_sendtoPacket sender memory data len
  have whole : (sender.sendtoPacket memory data len).take udtPocketbufSize =
      sender.sendtoPacket memory data len := by
    rw [List.take_of_length_le (length.trans_le fits)]
  have passes := sendtoPacket_passes sender memory data len buffer buf
  unfold UdtNode.readPocketbuf heardMemory
  rw [whole, length]
  unfold readPacket
  rw [if_pos passes]

variable {len} in
theorem fits_of_accepted (some : 1 ≤ len)
    (accepted : (UdtNode.readPocketbuf buffer buf
      (sender.sendtoPacket memory data len)).1 = udpPacketHeadSize + len) :
    udpPacketHeadSize + len ≤ udtPocketbufSize := by
  have length := List.length_take_le udtPocketbufSize
    (sender.sendtoPacket memory data len)
  unfold UdtNode.readPocketbuf readPacket at accepted
  dsimp only at accepted
  split at accepted
  · dsimp only at accepted
    omega
  · dsimp only at accepted
    omega

/-- The handler of a node that is not reset gives the payload in its buffer to
`data_entry` and otherwise only notes the arrival. -/
theorem hear_eq (receiver : UdtNode) (entry : List Byte → Int) (some : 1 ≤ len)
    (fits : udpPacketHeadSize + len ≤ udtPocketbufSize) :
    ((receiver.hear entry buffer buf
        (sender.sendtoPacket memory data len)).1,
      (receiver.hear entry buffer buf
        (sender.sendtoPacket memory data len)).2.1) =
      if receiver.status.has NetStat.reset then
        (0, { receiver with dataEntry := Option.some entry }.sendReset.2)
      else
        (entry ((heardMemory sender memory data len buffer buf).bytes (buf + 6)
            len),
          { receiver with dataEntry := Option.some entry }.noteArrival
            ((heardMemory sender memory data len buffer buf).pocketAt buf
              (udpPacketHeadSize + len))) := by
  have flags := heardMemory_flags sender memory data len buffer buf some
  have refined := UdtNode.packetHandlerAt_refines
    { receiver with dataEntry := Option.some entry }
    (heardMemory sender memory data len buffer buf) buf
    (udpPacketHeadSize + len)
  have datagram : (heardMemory sender memory data len buffer buf).typeAt buf =
      .dgram := by
    rw [typeAt, flags]
    rfl
  have payload : ((heardMemory sender memory data len buffer buf).pocketAt buf
      (udpPacketHeadSize + len)).data = _ :=
    UdtNode.pocketAt_datagram _ buf datagram
  rw [sizeSub_of_le (Nat.le_add_right _ _), Nat.add_sub_cancel_left] at payload
  unfold UdtNode.hear
  rw [readPocketbuf_fits sender memory data buffer buf fits]
  rw [if_neg (by omega)]
  refine refined.trans ?_
  unfold UdtNode.packetHandler
  split
  · rfl
  have handled : ({ receiver with
      dataEntry := Option.some entry }.noteArrival
        ((heardMemory sender memory data len buffer buf).pocketAt buf
          (udpPacketHeadSize + len))).dispatch
        ((heardMemory sender memory data len buffer buf).pocketAt buf
          (udpPacketHeadSize + len)) =
      (entry ((heardMemory sender memory data len buffer buf).bytes (buf + 6)
          len),
        { receiver with dataEntry := Option.some entry }.noteArrival
          ((heardMemory sender memory data len buffer buf).pocketAt buf
            (udpPacketHeadSize + len))) := by
    unfold UdtNode.dispatch
    rw [show ((heardMemory sender memory data len buffer buf).pocketAt buf
      (udpPacketHeadSize + len)).udtType = .dgram from datagram, payload]
    rfl
  rw [handled]
  exact if_neg fun refused => NdErr.noConfusion refused.2

theorem noteArrival_streamFields (node : UdtNode) (pocket : UdtPocket) :
    (node.noteArrival pocket).streamFields =
      { node.streamFields with
        windowLen := if 0 < pocket.windowLen then pocket.windowLen
          else node.windowLen } :=
  rfl

theorem hear_reset (receiver : UdtNode) (entry : List Byte → Int)
    (some : 1 ≤ len) (fits : udpPacketHeadSize + len ≤ udtPocketbufSize)
    (ended : receiver.status.has NetStat.reset = true) :
    (receiver.hear entry buffer buf
      (sender.sendtoPacket memory data len)).1 = 0 := by
  have heard := hear_eq sender memory data len buffer buf receiver entry some
    fits
  rw [if_pos ended] at heard
  exact (Prod.mk.inj heard).1

theorem hear_ready (receiver : UdtNode) (entry : List Byte → Int)
    (some : 1 ≤ len) (fits : udpPacketHeadSize + len ≤ udtPocketbufSize)
    (ready : receiver.status.has NetStat.reset = false) :
    (receiver.hear entry buffer buf
        (sender.sendtoPacket memory data len)).1 =
      entry ((heardMemory sender memory data len buffer buf).bytes (buf + 6)
        len) ∧
    (receiver.hear entry buffer buf
        (sender.sendtoPacket memory data len)).2.1.streamFields =
      { receiver.streamFields with
        windowLen :=
          if 0 < ((heardMemory sender memory data len buffer buf).pocketAt buf
              (udpPacketHeadSize + len)).windowLen then
            ((heardMemory sender memory data len buffer buf).pocketAt buf
              (udpPacketHeadSize + len)).windowLen
          else receiver.windowLen } := by
  have heard := hear_eq sender memory data len buffer buf receiver entry some
    fits
  rw [if_neg (by rw [ready]; exact Bool.false_ne_true)] at heard
  obtain ⟨told, noted⟩ := Prod.mk.inj heard
  refine ⟨told, ?_⟩
  rw [noted, noteArrival_streamFields]
  rfl

/-- The payload is heard as it was sent exactly when the bytes that the
conversion takes from behind the packet are the right ones. -/
theorem heardMemory_payload_iff (some : 1 ≤ len) :
    (heardMemory sender memory data len buffer buf).bytes (buf + 6) len =
        memory.bytes data len ↔
      ∀ index : Nat, index < len →
        (udpPacketHeadSize + len : Int) ≤
          mirror false ((udpPacketHeadSize + index : Nat) : Int) →
            buffer.cells
                (buf + mirror false ((udpPacketHeadSize + index : Nat) : Int)) =
              memory.cells (data + index) := by
  have cell (index : Nat) :
      (heardMemory sender memory data len buffer buf).cells (buf + 6 + index) =
        if mirror false ((udpPacketHeadSize + index : Nat) : Int) < 6 + len then
          memory.cells (data + index)
        else buffer.cells
          (buf + mirror false ((udpPacketHeadSize + index : Nat) : Int)) := by
    have place : buf + 6 + (index : Int) =
        buf + ((udpPacketHeadSize + index : Nat) : Int) := by
      rw [udpPacketHeadSize]
      omega
    have origin : data - 6 + ((udpPacketHeadSize + index : Nat) : Int) =
        data + index := by
      omega
    rw [place, heardMemory_cells sender memory data len buffer buf some (by
      omega), origin]
  constructor
  · intro same index inside late
    have heard := congrArg (byteAt · index) same
    have behind : ¬mirror false ((udpPacketHeadSize + index : Nat) : Int) <
        6 + len := Int.not_lt.mpr late
    rw [byteAt_bytes _ _ inside, byteAt_bytes _ _ inside, cell,
      if_neg behind] at heard
    exact heard
  · intro behind
    apply bytes_congr
    intro index inside
    rw [cell]
    split
    · rfl
    · rename_i late
      exact behind index inside (Int.not_lt.mp late)

theorem heardMemory_window (some : 1 ≤ len)
    (same : (heardMemory sender memory data len buffer buf).bytes (buf + 6)
      len = memory.bytes data len) :
    ((heardMemory sender memory data len buffer buf).pocketAt buf
        (udpPacketHeadSize + len)).windowLen =
      hostU16 (memory.bytes data 2) 0 := by
  have first : (heardMemory sender memory data len buffer buf).cells (buf + 6) =
      memory.cells data := by
    have heard := congrArg (byteAt · 0) same
    rwa [byteAt_bytes _ _ some, byteAt_bytes _ _ some, Int.natCast_zero,
      Int.add_zero, Int.add_zero] at heard
  have second : (heardMemory sender memory data len buffer buf).cells
      (buf + 7) = memory.cells (data + 1) := by
    have place : data - 6 + 7 = data + 1 := by omega
    have image : mirror false 7 = 6 := rfl
    rw [heardMemory_cells sender memory data len buffer buf some (by decide),
      image, if_pos (show (6 : Int) < 6 + len by omega), place]
  have window : hostU16 ((heardMemory sender memory data len buffer buf).bytes
      (buf + 6) 2) 0 = hostU16 (memory.bytes data 2) 0 := by
    have next : buf + 6 + 1 = buf + 7 := by omega
    unfold hostU16
    rw [byteAt_bytes _ _ (by decide), byteAt_bytes _ _ (by decide),
      byteAt_bytes _ _ (by decide), byteAt_bytes _ _ (by decide), Nat.zero_add,
      Int.natCast_zero, Int.natCast_one, Int.add_zero, Int.add_zero, next,
      first, second]
  exact window

end Receiver

section Sending

variable (node : UdtNode) (memory : Memory) (data : Int) {len : Nat}

theorem udtSendtoAt_cells :
    (node.udtSendtoAt memory data len).2.2.cells = memory.cells := by
  unfold UdtNode.udtSendtoAt
  split
  · rfl
  have datagram : (datagramHeader (memory.load (data - 6) 6).2
      (data - 6)).typeAt (data - 6) = .dgram := by
    rw [typeAt, datagramHeader_flags]
    rfl
  have headed := within_datagramHeader (memory.load (data - 6) 6).2 (data - 6)
  refine store_bytes_of_outside _ _ ?_
  intro target outside
  have apart : target < data - 6 ∨ data - 6 + 6 ≤ target := outside
  have size : (udpPacketHeadSize : Int) = 6 := rfl
  rw [UdtNode.writePocketAt_memory]
  refine (congrFun (writePocket_cells _ _ _ _ _) target).trans ?_
  refine (storeHost_of_outside _ _ _ (by omega)).trans ?_
  refine (congrFun (setPortWindow_datagram _ _ _ _ datagram) target).trans ?_
  refine (storeHost_of_outside _ _ _ (by omega)).trans ?_
  exact headed.cells target apart

theorem udtSendtoAt_streamFields :
    (node.udtSendtoAt memory data len).2.1.streamFields =
      node.streamFields := by
  unfold UdtNode.udtSendtoAt
  split
  · rfl
  · unfold UdtNode.sendSaved UdtNode.writePocketAt
    cases node.writeResults.head?.getD .sent with
    | sent | wouldBlock | failed => rfl

theorem writePocket_congr {memory other : Memory}
    (same : memory.cells = other.cells) (pocket : Int) (len : Nat)
    (localPort : UInt16) (window : Nat) :
    (memory.writePocket pocket len localPort window).1 =
      (other.writePocket pocket len localPort window).1 := by
  obtain ⟨cells, touched⟩ := memory
  obtain ⟨_, earlier⟩ := other
  cases same
  have ported : (setPortWindow ⟨cells, touched⟩ pocket localPort window).cells =
      (setPortWindow ⟨cells, earlier⟩ pocket localPort window).cells := by
    unfold setPortWindow
    dsimp only
    have flags : byteAt ((load (storeHost ⟨cells, earlier⟩ (pocket + 4)
        localPort.toNat) (pocket + 1) 1).1) 0 =
      byteAt ((load (storeHost ⟨cells, touched⟩ (pocket + 4)
        localPort.toNat) (pocket + 1) 1).1) 0 := rfl
    rw [flags]
    split_ifs
    · rfl
    · rfl
  have swapped := swapHeader_congr pocket ported
  have bytes (count : Nat) :
      ((setPortWindow ⟨cells, touched⟩ pocket localPort window).swapHeader
        pocket).bytes pocket count =
      ((setPortWindow ⟨cells, earlier⟩ pocket localPort window).swapHeader
        pocket).bytes pocket count :=
    bytes_congr fun index _ => congrFun swapped _
  have summed (count : Nat) :
      wireSum ⟨cells, touched⟩ pocket localPort window count =
        wireSum ⟨cells, earlier⟩ pocket localPort window count := by
    have zeroed (memory : Memory) : (memory.storeHost (pocket + 2) 0).bytes
        pocket count = overwrite (memory.bytes pocket count) 2 (hostBytes 0) :=
      bytes_store _ _ 2 _ _
    rw [wireSum, wireSum, packetSum, packetSum, zeroed, zeroed, bytes]
  rw [writePocket_packet, writePocket_packet, bytes, summed]

theorem udtSendtoAt_emitted (some : 1 ≤ len)
    (short : len ≤ ndUdpPacketSize - udpPacketHeadSize)
    (taken : node.writeResults.head?.getD .sent = .sent) :
    (node.udtSendtoAt memory data len).1 = (udpPacketHeadSize + len : Nat) ∧
      (node.udtSendtoAt memory data len).2.1.wire =
        node.wire ++ [receivedPocket (node.sendtoPacket memory data len)] := by
  have headed : (datagramHeader (memory.load (data - udpPacketHeadSize)
      udpPacketHeadSize).2 (data - udpPacketHeadSize)).cells =
        (datagramHeader memory (data - udpPacketHeadSize)).cells := rfl
  have packet : ((datagramHeader (memory.load (data - udpPacketHeadSize)
      udpPacketHeadSize).2 (data - udpPacketHeadSize)).writePocket
        (data - udpPacketHeadSize) (udpPacketHeadSize + len) node.localPort
          node.sendWindow).1 = node.sendtoPacket memory data len := by
    exact writePocket_congr headed _ _ _ _
  unfold UdtNode.udtSendtoAt
  rw [if_neg (by omega)]
  unfold UdtNode.sendSaved UdtNode.writePocketAt
  dsimp only
  rw [taken, packet]
  exact ⟨rfl, rfl⟩

end Sending

section Delivery

variable (sender receiver : UdtNode) (memory : Memory) (data : Int) {len : Nat}
  (buffer : Memory) (buf : Int)

theorem DatagramDelivered.intact (some : 1 ≤ len)
    (delivered : DatagramDelivered sender receiver memory data len buffer buf) :
    DatagramIntact receiver memory data len buffer buf := by
  have payload := heardMemory_payload_iff sender memory data len buffer buf some
  have window := heardMemory_window sender memory data len buffer buf some
  have fits := fits_of_accepted sender memory data buffer buf some
    delivered.accepted
  have ready : receiver.status.has NetStat.reset = false := by
    rw [Bool.eq_false_iff]
    intro ended
    have told := hear_reset sender memory data len buffer buf receiver
      (fun _ => 1) some fits ended
    rw [delivered.delivered] at told
    exact absurd told (by decide)
  have heard (entry : List Byte → Int) :=
    hear_ready sender memory data len buffer buf receiver entry some fits ready
  have same : (heardMemory sender memory data len buffer buf).bytes (buf + 6)
      len = memory.bytes data len := by
    have told :=
      (heard fun given => if given = memory.bytes data len then 1 else 0).1
    rw [delivered.delivered, if_pos rfl] at told
    by_contra different
    rw [if_neg different] at told
    exact absurd told (by decide)
  refine ⟨fits, ready, payload.mp same, ?_⟩
  have noted := (heard fun _ => 0).2
  rw [delivered.receiving fun _ => 0, window same] at noted
  have windows := congrArg UdtNode.StreamFields.windowLen noted
  by_cases zero : hostU16 (memory.bytes data 2) 0 = 0
  · exact .inl zero
  · rw [if_pos (Nat.pos_of_ne_zero zero)] at windows
    exact .inr windows.symm

/-- An unreliable datagram of any length is delivered as the specification says
exactly when it is intact. -/
theorem datagramDelivered_iff (some : 1 ≤ len)
    (short : len ≤ ndUdpPacketSize - udpPacketHeadSize) :
    DatagramDelivered sender receiver memory data len buffer buf ↔
      DatagramIntact receiver memory data len buffer buf := by
  constructor
  · exact DatagramDelivered.intact sender receiver memory data buffer buf some
  · intro intact
    have same := (heardMemory_payload_iff sender memory data len buffer buf
      some).mpr intact.behind
    have window := heardMemory_window sender memory data len buffer buf some
      same
    have heard (entry : List Byte → Int) :=
      hear_ready sender memory data len buffer buf receiver entry some
        intact.fits intact.ready
    have windows : (if 0 < hostU16 (memory.bytes data 2) 0 then
        hostU16 (memory.bytes data 2) 0 else receiver.windowLen) =
          receiver.windowLen := by
      rcases intact.window with zero | known
      · rw [zero]
        rfl
      · rw [known]
        exact ite_self _
    constructor
    case emitted => exact udtSendtoAt_emitted sender memory data some short
    case accepted =>
      rw [readPocketbuf_fits sender memory data buffer buf intact.fits]
    case delivered =>
      intro entry
      rw [(heard entry).1, same]
    case restored => exact udtSendtoAt_cells sender memory data
    case sending => exact udtSendtoAt_streamFields sender memory data
    case receiving =>
      intro entry
      rw [(heard entry).2, window, windows]
      rfl

end Delivery

section Samples

def memoryOf (bytes : List Byte) : Memory :=
  untouched fun address =>
    if 0 ≤ address then byteAt bytes address.toNat else 0

/-- A payload of six bytes that begins with two zeros arrives. -/
theorem datagramDelivered_zeros :
    DatagramDelivered (UdtNode.connectedUdt 0 7 [])
      (UdtNode.connectedUdt 7 0 []) (memoryOf [0, 0, 1, 2, 3, 4]) 0 6
        (memoryOf []) 0 := by
  refine (datagramDelivered_iff _ _ _ 0 _ 0 (by decide) (by decide)).mpr ?_
  refine ⟨by decide, rfl, ?_, .inl (by decide)⟩
  intro index inside late
  interval_cases index <;> exact absurd late (by decide)

/-- Four datagrams that are not delivered as they were sent: of the payload `5`
another byte arrives, of `0 0 3` the third is another one, the payload `1 2`
becomes the receiver's window, and 2043 zeros do not fit the reader's buffer. -/
theorem datagramDelivered_fails :
    ¬DatagramDelivered (UdtNode.connectedUdt 0 7 [])
        (UdtNode.connectedUdt 7 0 []) (memoryOf [5]) 0 1 (memoryOf []) 0 ∧
      ¬DatagramDelivered (UdtNode.connectedUdt 0 7 [])
        (UdtNode.connectedUdt 7 0 []) (memoryOf [0, 0, 3]) 0 3
          (memoryOf []) 0 ∧
      ¬DatagramDelivered (UdtNode.connectedUdt 0 7 [])
        (UdtNode.connectedUdt 7 0 []) (memoryOf [1, 2]) 0 2
          (memoryOf []) 0 ∧
      ¬DatagramDelivered (UdtNode.connectedUdt 0 7 [])
        (UdtNode.connectedUdt 7 0 []) (memoryOf []) 0 2043
          (memoryOf []) 0 := by
  refine ⟨?_, ?_, ?_, ?_⟩
  · intro delivered
    have intact := delivered.intact _ _ _ 0 _ 0 (by decide)
    exact absurd (intact.behind 0 (by decide) (by decide)) (by decide)
  · intro delivered
    have intact := delivered.intact _ _ _ 0 _ 0 (by decide)
    exact absurd (intact.behind 2 (by decide) (by decide)) (by decide)
  · intro delivered
    have intact := delivered.intact _ _ _ 0 _ 0 (by decide)
    exact absurd intact.window (by decide)
  · intro delivered
    have intact := delivered.intact _ _ _ 0 _ 0 (by decide)
    exact absurd intact.fits (by decide)

end Samples

end NdNet
