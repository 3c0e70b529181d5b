import NdNet.Udt.WireRoundTrip

/-!
# Packets in the receive buffer

`_udt_packet_handler` reads a packet in the buffer that the socket has filled.
Here every look at the packet is a load, so that it is on record which bytes the
handler uses.  `pocketAt` is the pocket that the buffer holds, and the handler
does to the node what `packetHandler` does with that pocket.
-/

namespace NdNet

open Mem Store

def wordOf (bytes : List Byte) : Seq :=
  BitVec.ofNat 32 (hostWord bytes 0)

namespace Mem

/-- `ndt_header_size` -/
def loadHeaderSize (memory : Memory) (pocket : Int) : Nat × Memory :=
  let ack := memory.loadAck pocket
  (if ack.1 then 16 else 12, ack.2)

/-- `POCKET_TYPE` -/
def loadType (memory : Memory) (pocket : Int) : UdtMsgType × Memory :=
  let flags := memory.load (pocket + 1) 1
  (typeOf (byteAt flags.1 0), flags.2)

def loadLocalPort (memory : Memory) (pocket : Int) : UInt16 × Memory :=
  let port := memory.load (pocket + 4) 2
  (UInt16.ofNat (hostU16 port.1 0), port.2)

def loadWindowLen (memory : Memory) (pocket : Int) : Nat × Memory :=
  let window := memory.load (pocket + 6) 2
  (hostU16 window.1 0, window.2)

def loadSequence (memory : Memory) (pocket : Int) : Seq × Memory :=
  let sequence := memory.load (pocket + 8) 4
  (wordOf sequence.1, sequence.2)

def loadAckSeq (memory : Memory) (pocket : Int) : Seq × Memory :=
  let ackSeq := memory.load (pocket + 12) 4
  (wordOf ackSeq.1, ackSeq.2)

def typeAt (memory : Memory) (pocket : Int) : UdtMsgType :=
  typeOf (memory.cells (pocket + 1))

/-- The word `ack_seq` is read: the pocket carries an acknowledgement or is one
of the two types that are taken to. -/
def readsAckSeq (memory : Memory) (pocket : Int) : Bool :=
  memory.ackAt pocket || memory.typeAt pocket = .ack ||
    memory.typeAt pocket = .lost

/-- The pocket in a buffer of which `len` bytes have been received.  The data of
an unreliable datagram begins behind its shorter header; its length is a
`size_t`. -/
def pocketAt (memory : Memory) (pocket : Int) (len : Nat) : UdtPocket :=
  { udtType := memory.typeAt pocket
    ack := memory.ackAt pocket
    localPort := (memory.loadLocalPort pocket).1
    windowLen := (memory.loadWindowLen pocket).1
    sequence := (memory.loadSequence pocket).1
    ackSeq :=
      if memory.readsAckSeq pocket then (memory.loadAckSeq pocket).1 else 0
    data :=
      if memory.typeAt pocket = .dgram then
        memory.bytes (pocket + 6) (sizeSub len udpPacketHeadSize)
      else
        memory.bytes (pocket + memory.headerSizeAt pocket)
          (len - memory.headerSizeAt pocket) }

end Mem

namespace UdtNode

open NetStat

/-- `_handle_syn` -/
def handleSynAt (node : UdtNode) (memory : Memory) (pocket : Int) :
    Int × UdtNode × Memory :=
  if node.status = listen then
    let sequence := memory.loadSequence pocket
    let started :=
      { node with
        acknowledgedSeq := node.sendSequence
        receivedSequence := sequence.1 + 1 }
    let answered := started.writePocketToSocket
      { UdtPocket.init.setAck started.receivedSequence with
        udtType := .syn
        sequence := started.sendSequence }
    (0, { answered.2 with status := synrecv }, sequence.2)
  else if node.status = synsend then
    let ack := memory.loadAck pocket
    if !ack.1 then (-1, { node with myerrno := .badpacket }, ack.2)
    else
      let ackSeq := ack.2.loadAckSeq pocket
      if node.sendSequence + 1 != ackSeq.1 then
        (-1, { node with myerrno := .badpacket }, ackSeq.2)
      else
        let port := ackSeq.2.loadLocalPort pocket
        let sequence := port.2.loadSequence pocket
        let again := sequence.2.loadAckSeq pocket
        let connected :=
          { node with
            localPort := port.1
            receivedSequence := sequence.1 + 1
            acknowledgedSeq := again.1
            status := established
            sendSequence := node.sendSequence + 1 }
        (0, connected.sendAck.2, again.2)
  else if node.status < accept then
    let sequence := memory.loadSequence pocket
    if node.receivedSequence = sequence.1 + 1 then
      (0, node.sendAck.2, sequence.2)
    else (-1, node, sequence.2)
  else (-1, { node with myerrno := .badpacket }, memory)

/-- `_handle_income_data` -/
def handleIncomeDataAt (node : UdtNode) (memory : Memory) (pocket : Int)
    (len : Nat) : Int × UdtNode × Memory :=
  let header := memory.loadHeaderSize pocket
  let dataLen : Int := len - header.1
  if dataLen ≤ 0 then (0, node, header.2)
  else
    let sequence := header.2.loadSequence pocket
    let seqOffset := (sequence.1 - node.receivedSequence).toInt
    if 0 < seqOffset then
      -- the whole packet is copied into the list
      let packet := sequence.2.load pocket len
      (0, node.addtoPreList (PocketView.ofBytes packet.1).toPocket, packet.2)
    else if seqOffset < 0 then (0, node.sendAck.2, sequence.2)
    else if node.recvBuffer.freeCapacity < dataLen.toNat then
      (0, node, sequence.2)
    else
      let start := sequence.2.loadHeaderSize pocket
      let data := start.2.load (pocket + start.1) dataLen.toNat
      let stored := node.storeData data.1
      (stored.1,
        if stored.2.preList.isEmpty then stored.2
        else stored.2.trytoFetchPrelist,
        data.2)

def handleCarriedAckAt (node : UdtNode) (memory : Memory) (pocket : Int) :
    UdtNode × Memory :=
  let ack := memory.loadAck pocket
  if ack.1 then
    let ackSeq := ack.2.loadAckSeq pocket
    (node.handleAck ackSeq.1, ackSeq.2)
  else (node, ack.2)

/-- The case `NDUDT_FIN` of `_udt_packet_handler`. -/
def handleFinAt (node : UdtNode) (memory : Memory) (pocket : Int) :
    Int × UdtNode × Memory :=
  let acked := node.handleCarriedAckAt memory pocket
  let marked :=
    if acked.1.status.has recvclose then acked
    else
      let sequence := acked.2.loadSequence pocket
      let status := acked.1.status ||| recvclose
      ({ acked.1 with
          receivedSequence := sequence.1
          status :=
            if status.has (sendclose + finsend) then status ||| reset
            else status },
        sequence.2)
  (-1, { marked.1.sendAck.2 with myerrno := .closed }, marked.2)

/-- The `switch` of `_udt_packet_handler`.  `data_entry` is given an address and
a length and reads the bytes there. -/
def dispatchAt (node : UdtNode) (memory : Memory) (pocket : Int) (len : Nat) :
    UdtMsgType → Int × UdtNode × Memory
  | .data =>
    let acked := node.handleCarriedAckAt memory pocket
    let income := acked.1.handleIncomeDataAt acked.2 pocket len
    (income.1, if 0 < income.1 then income.2.1.flushAll else income.2.1,
      income.2.2)
  | .dgram =>
    match node.dataEntry with
    | none => (intOfSize len, node, memory)
    | some entry =>
      let data := memory.load (pocket + 6) (sizeSub len udpPacketHeadSize)
      (entry data.1, node, data.2)
  | .syn => node.handleSynAt memory pocket
  | .ack =>
    let ackSeq := memory.loadAckSeq pocket
    (0, node.handleAck ackSeq.1, ackSeq.2)
  | .lost =>
    let ackSeq := memory.loadAckSeq pocket
    let sequence := ackSeq.2.loadSequence pocket
    (0,
      (node.handleAck ackSeq.1).handleLost
        { UdtPocket.init with sequence := sequence.1 },
      sequence.2)
  | .fin => node.handleFinAt memory pocket
  | .reset =>
    (-1, { node with status := node.status ||| reset, myerrno := .reset },
      memory)
  | .alive | .unknown => (0, node, memory)

/-- `_udt_packet_handler` -/
def packetHandlerAt (node : UdtNode) (memory : Memory) (pocket : Int)
    (len : Nat) : Int × UdtNode × Memory :=
  if node.status.has reset then (0, node.sendReset.2, memory)
  else
    let window := memory.loadWindowLen pocket
    let noted := node.noteArrival
      { UdtPocket.init with windowLen := window.1 }
    let udtType := window.2.loadType pocket
    let handled := noted.dispatchAt udtType.2 pocket len udtType.1
    if handled.1 = -1 ∧ handled.2.1.myerrno = .badpacket then (0, handled.2)
    else handled

section Fields

variable (memory : Memory) (pocket : Int) {len : Nat}

theorem hostU16_bytes {offset : Nat} (inside : offset + 2 ≤ len) :
    hostU16 (memory.bytes pocket len) offset =
      hostU16 (memory.bytes (pocket + offset) 2) 0 := by
  have second : pocket + offset + ((0 + 1 : Nat) : Int) =
      pocket + ((offset + 1 : Nat) : Int) := by omega
  have first : pocket + offset + ((0 : Nat) : Int) = pocket + offset := by
    omega
  unfold hostU16
  rw [byteAt_bytes _ _ (by omega), byteAt_bytes _ _ (by omega),
    byteAt_bytes _ _ (by decide), byteAt_bytes _ _ (by decide), first, second]

theorem hostWord_bytes {offset : Nat} (inside : offset + 4 ≤ len) :
    hostWord (memory.bytes pocket len) offset =
      hostWord (memory.bytes (pocket + offset) 4) 0 := by
  have back : pocket + offset + ((0 + 2 : Nat) : Int) =
      pocket + ((offset + 2 : Nat) : Int) := by omega
  have front : pocket + offset + ((0 : Nat) : Int) = pocket + offset := by
    omega
  unfold hostWord
  rw [hostU16_bytes memory pocket (by omega),
    hostU16_bytes memory pocket (by omega),
    hostU16_bytes memory (pocket + offset) (show 0 + 2 ≤ 4 by decide),
    hostU16_bytes memory (pocket + offset) (show 0 + 2 + 2 ≤ 4 by decide),
    front, back]

theorem drop_bytes {count : Nat} (inside : count ≤ len) :
    (memory.bytes pocket len).drop count =
      memory.bytes (pocket + count) (len - count) := by
  have size := memory.length_bytes pocket count
  obtain ⟨rest, rfl⟩ := Nat.exists_eq_add_of_le inside
  rw [bytes_add, List.drop_append_of_le_length (by omega),
    List.drop_of_length_le (by omega), List.nil_append,
    Nat.add_sub_cancel_left]

theorem pocketAt_datagram (kind : memory.typeAt pocket = .dgram) :
    (memory.pocketAt pocket len).data =
      memory.bytes (pocket + 6) (sizeSub len udpPacketHeadSize) :=
  if_pos kind

theorem pocketAt_data (kind : memory.typeAt pocket = .data) :
    (memory.pocketAt pocket len).data =
      memory.bytes (pocket + memory.headerSizeAt pocket)
        (len - memory.headerSizeAt pocket) :=
  if_neg (by rw [kind]; decide)

end Fields

section Refines

variable (node : UdtNode) (memory : Memory) (pocket : Int) (len : Nat)

theorem loadHeaderSize_eq :
    (memory.loadHeaderSize pocket).1 = memory.headerSizeAt pocket := by
  unfold loadHeaderSize headerSizeAt
  dsimp only
  rw [(loadAck_eq memory pocket).1]

theorem loadType_eq : (memory.loadType pocket).1 = memory.typeAt pocket := by
  unfold loadType typeAt
  dsimp only
  rw [load_bytes, byteAt_bytes _ _ (by decide), Int.natCast_zero, Int.add_zero]

theorem handleSynAt_refines :
    ((node.handleSynAt memory pocket).1, (node.handleSynAt memory pocket).2.1) =
      node.handleSyn (memory.pocketAt pocket len) := by
  have flag := (loadAck_eq memory pocket).1
  unfold handleSynAt handleSyn
  dsimp only
  split
  · rfl
  split
  · rw [flag]
    cases acked : memory.ackAt pocket with
    | false =>
      have unacked : (memory.pocketAt pocket len).ack = false := acked
      rw [unacked]
      rfl
    | true =>
      have carried : (memory.pocketAt pocket len).ack = true := acked
      have number : (memory.pocketAt pocket len).ackSeq =
          (memory.loadAckSeq pocket).1 := by
        unfold pocketAt readsAckSeq
        rw [acked]
        rfl
      rw [carried, number, Bool.not_true, Bool.false_or,
        if_neg Bool.false_ne_true]
      split
      · rename_i wrong
        exact (if_pos wrong).symm
      · rename_i right
        exact (if_neg right).symm
  · split
    · split
      · rename_i repeated
        exact (if_pos repeated).symm
      · rename_i other
        exact (if_neg other).symm
    · rfl

theorem handleCarriedAckAt_refines :
    (node.handleCarriedAckAt memory pocket).1 =
      node.handleCarriedAck (memory.pocketAt pocket len) := by
  unfold handleCarriedAckAt handleCarriedAck
  dsimp only
  rw [(loadAck_eq memory pocket).1]
  cases acked : memory.ackAt pocket with
  | false =>
    have unacked : (memory.pocketAt pocket len).ack = false := acked
    rw [unacked]
    rfl
  | true =>
    have carried : (memory.pocketAt pocket len).ack = true := acked
    have number : (memory.pocketAt pocket len).ackSeq =
        (memory.loadAckSeq pocket).1 := by
      unfold pocketAt readsAckSeq
      rw [acked]
      rfl
    rw [carried, number]
    rfl

theorem ofBytes_pocketAt (data : memory.typeAt pocket = .data)
    (long : memory.headerSizeAt pocket < len) :
    (PocketView.ofBytes (memory.bytes pocket len)).toPocket =
      memory.pocketAt pocket len := by
  have header : 12 ≤ memory.headerSizeAt pocket ∧
      (memory.ackAt pocket = true → memory.headerSizeAt pocket = 16) := by
    unfold headerSizeAt
    cases memory.ackAt pocket with
    | false => exact ⟨Nat.le_refl 12, fun flag => nomatch flag⟩
    | true => exact ⟨by decide, fun _ => rfl⟩
  have flags : byteAt (memory.bytes pocket len) 1 =
      memory.cells (pocket + 1) := by
    rw [byteAt_bytes _ _ (by omega), Int.natCast_one]
  have plain : memory.readsAckSeq pocket = memory.ackAt pocket := by
    unfold readsAckSeq
    rw [data]
    cases memory.ackAt pocket with
    | false | true => rfl
  have payload : (memory.bytes pocket len).drop (memory.headerSizeAt pocket) =
      memory.bytes (pocket + memory.headerSizeAt pocket)
        (len - memory.headerSizeAt pocket) :=
    drop_bytes memory pocket (by omega)
  have port : hostU16 (memory.bytes pocket len) 4 =
      hostU16 (memory.bytes (pocket + 4) 2) 0 :=
    hostU16_bytes memory pocket (by omega)
  have window : hostU16 (memory.bytes pocket len) 6 =
      hostU16 (memory.bytes (pocket + 6) 2) 0 :=
    hostU16_bytes memory pocket (by omega)
  have sequence : hostWord (memory.bytes pocket len) 8 =
      hostWord (memory.bytes (pocket + 8) 4) 0 :=
    hostWord_bytes memory pocket (by omega)
  unfold PocketView.toPocket PocketView.ofBytes pocketAt
  have kind : typeOf (memory.cells (pocket + 1)) = .data := data
  have fold : ackFlag (memory.cells (pocket + 1)) = memory.ackAt pocket := rfl
  rw [flags, port, window, sequence, plain, data, kind, fold,
    if_neg (show ¬UdtMsgType.data = UdtMsgType.dgram by decide), ← payload]
  cases acked : memory.ackAt pocket with
  | false =>
    have size : memory.headerSizeAt pocket = 12 := by
      rw [headerSizeAt, acked]
      rfl
    rw [size]
    rfl
  | true =>
    have size := header.2 acked
    have ackSeq : hostWord (memory.bytes pocket len) 12 =
        hostWord (memory.bytes (pocket + 12) 4) 0 :=
      hostWord_bytes memory pocket (by omega)
    rw [size, ackSeq]
    rfl

theorem handleIncomeDataAt_refines (data : memory.typeAt pocket = .data) :
    ((node.handleIncomeDataAt memory pocket len).1,
      (node.handleIncomeDataAt memory pocket len).2.1) =
        node.handleIncomeData (memory.pocketAt pocket len) := by
  have header := loadHeaderSize_eq memory pocket
  have carried : (memory.pocketAt pocket len).data =
      memory.bytes (pocket + memory.headerSizeAt pocket)
        (len - memory.headerSizeAt pocket) :=
    pocketAt_data memory pocket data
  have size : (memory.pocketAt pocket len).data.length =
      len - memory.headerSizeAt pocket := by
    rw [carried, length_bytes]
  unfold handleIncomeDataAt handleIncomeData
  dsimp only
  rw [header, size]
  by_cases empty : (len : Int) - memory.headerSizeAt pocket ≤ 0
  · rw [if_pos empty, if_pos (by omega)]
  have long : memory.headerSizeAt pocket < len := by omega
  have rest : ((len : Int) - memory.headerSizeAt pocket).toNat =
      len - memory.headerSizeAt pocket := by omega
  have sequence : ((memory.loadHeaderSize pocket).2.loadSequence pocket).1 =
      (memory.pocketAt pocket len).sequence := rfl
  have copied : (((memory.loadHeaderSize pocket).2.loadSequence
      pocket).2.load pocket len).1 = memory.bytes pocket len := rfl
  have start : (((memory.loadHeaderSize pocket).2.loadSequence
      pocket).2.loadHeaderSize pocket).1 = memory.headerSizeAt pocket :=
    header
  have taken : ((((memory.loadHeaderSize pocket).2.loadSequence
      pocket).2.loadHeaderSize pocket).2.load
        (pocket + memory.headerSizeAt pocket)
          (len - memory.headerSizeAt pocket)).1 =
            (memory.pocketAt pocket len).data := carried.symm
  rw [if_neg empty, rest, sequence, copied, start, taken,
    ofBytes_pocketAt memory pocket len data long,
    if_neg (show ¬len - memory.headerSizeAt pocket = 0 by omega)]
  by_cases early : 0 <
      ((memory.pocketAt pocket len).sequence - node.receivedSequence).toInt
  · rw [if_pos early, if_pos early]
  rw [if_neg early, if_neg early]
  by_cases late : ((memory.pocketAt pocket len).sequence -
      node.receivedSequence).toInt < 0
  · rw [if_pos late, if_pos late]
  · rw [if_neg late, if_neg late]
    by_cases full : node.recvBuffer.freeCapacity <
        len - memory.headerSizeAt pocket
    · rw [if_pos full, if_pos full]
    · rw [if_neg full, if_neg full]

theorem handleFinAt_refines :
    ((node.handleFinAt memory pocket).1, (node.handleFinAt memory pocket).2.1) =
      node.handleFin (memory.pocketAt pocket len) := by
  have acked := handleCarriedAckAt_refines node memory pocket len
  have sequence : ((node.handleCarriedAckAt memory pocket).2.loadSequence
      pocket).1 = (memory.pocketAt pocket len).sequence := by
    unfold handleCarriedAckAt
    dsimp only
    split
    · rfl
    · rfl
  unfold handleFinAt handleFin
  dsimp only
  rw [acked, sequence]
  by_cases closing : (node.handleCarriedAck
      (memory.pocketAt pocket len)).status.has recvclose = true
  · rw [if_pos closing, if_pos closing, acked]
  · rw [if_neg closing, if_neg closing]

theorem handleCarriedAckAt_cells :
    (node.handleCarriedAckAt memory pocket).2.cells = memory.cells := by
  unfold handleCarriedAckAt
  dsimp only
  split
  · rfl
  · rfl

theorem pocketAt_congr {other : Memory} (same : other.cells = memory.cells) :
    other.pocketAt pocket len = memory.pocketAt pocket len := by
  obtain ⟨cells, touched⟩ := other
  cases same
  rfl

theorem dispatchAt_refines (udtType : UdtMsgType)
    (kind : memory.typeAt pocket = udtType) :
    ((node.dispatchAt memory pocket len udtType).1,
      (node.dispatchAt memory pocket len udtType).2.1) =
        node.dispatch (memory.pocketAt pocket len) := by
  have shown : (memory.pocketAt pocket len).udtType = udtType := kind
  unfold dispatch
  rw [shown]
  cases udtType with
  | data =>
    have same := node.handleCarriedAckAt_cells memory pocket
    have income := handleIncomeDataAt_refines
      (node.handleCarriedAckAt memory pocket).1
      (node.handleCarriedAckAt memory pocket).2 pocket len (by
        rw [typeAt, same]
        exact kind)
    rw [pocketAt_congr memory pocket len same,
      handleCarriedAckAt_refines node memory pocket len] at income
    unfold dispatchAt handleData
    dsimp only
    rw [← income, handleCarriedAckAt_refines node memory pocket len]
  | dgram =>
    have carried : (memory.pocketAt pocket len).data =
        memory.bytes (pocket + 6) (sizeSub len udpPacketHeadSize) :=
      pocketAt_datagram memory pocket kind
    unfold dispatchAt
    rw [carried]
    cases node.dataEntry with
    | some entry => rfl
    | none =>
      have whole : intOfSize (udpPacketHeadSize +
          (memory.bytes (pocket + 6)
            (sizeSub len udpPacketHeadSize)).length) = intOfSize len := by
        rw [length_bytes, intOfSize, intOfSize, sizeSub, udpPacketHeadSize]
        split <;> omega
      exact congrArg (·, node) whole.symm
  | syn => exact handleSynAt_refines node memory pocket len
  | ack | lost =>
    have number : (memory.pocketAt pocket len).ackSeq =
        (memory.loadAckSeq pocket).1 := by
      have read : memory.readsAckSeq pocket = true := by
        simp [readsAckSeq, kind]
      exact if_pos read
    rw [number]
    rfl
  | fin => exact handleFinAt_refines node memory pocket len
  | reset | alive | unknown => rfl

theorem packetHandlerAt_refines :
    ((node.packetHandlerAt memory pocket len).1,
      (node.packetHandlerAt memory pocket len).2.1) =
        node.packetHandler (memory.pocketAt pocket len) := by
  have noted : node.noteArrival { UdtPocket.init with
      windowLen := (memory.loadWindowLen pocket).1 } =
        node.noteArrival (memory.pocketAt pocket len) := rfl
  have handled := dispatchAt_refines
    (node.noteArrival (memory.pocketAt pocket len))
    ((memory.loadWindowLen pocket).2.loadType pocket).2 pocket len
    (memory.typeAt pocket) rfl
  have same : ((memory.loadWindowLen pocket).2.loadType pocket).2.pocketAt
      pocket len = memory.pocketAt pocket len := rfl
  have kind : ((memory.loadWindowLen pocket).2.loadType pocket).1 =
      memory.typeAt pocket := loadType_eq _ _
  unfold packetHandlerAt packetHandler
  dsimp only
  rw [same] at handled
  rw [noted, kind, ← handled]
  split
  · rfl
  · split
    · rfl
    · rfl

end Refines

end UdtNode

end NdNet
