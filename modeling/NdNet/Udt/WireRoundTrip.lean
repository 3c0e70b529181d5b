import NdNet.Udt.Wire

/-!
# The round trip of a packet over the wire

What `write_pocket_to_socket` hands to the socket is accepted by
`read_packet_from_socket`, which gets back every field and every byte behind
the header; the sender keeps its own copy.  Both conversions and both sums work
on the same bytes, for every header and every length.
-/

namespace NdNet

open Mem Store

/-- The header of a pocket in host order and what is behind it.  `kind` holds
the version and the protocol, `flags` the type and the flags; `ackSeq` is
there when the pocket carries it. -/
structure PocketView where
  kind : Byte
  flags : Byte
  checksum : Nat
  localPort : Nat
  windowLen : Nat
  sequence : Nat
  ackSeq : Option Nat
  payload : List Byte
  deriving DecidableEq

def hostWord (bytes : List Byte) (offset : Nat) : Nat :=
  hostU16 bytes offset + 65536 * hostU16 bytes (offset + 2)

namespace PocketView

def ofBytes (bytes : List Byte) : PocketView :=
  { kind := byteAt bytes 0
    flags := byteAt bytes 1
    checksum := hostU16 bytes 2
    localPort := hostU16 bytes 4
    windowLen := hostU16 bytes 6
    sequence := hostWord bytes 8
    ackSeq := if ackFlag (byteAt bytes 1) then some (hostWord bytes 12) else none
    payload := bytes.drop (if ackFlag (byteAt bytes 1) then 16 else 12) }

/-- The pocket with the fields that `write_pocket_to_socket` sets. -/
def filled (view : PocketView) (localPort : UInt16) (window : Nat) :
    PocketView :=
  { view with
    localPort := localPort.toNat
    windowLen :=
      if typeOf view.flags = .dgram then view.windowLen else window }

def toPocket (view : PocketView) : UdtPocket :=
  { udtType := typeOf view.flags
    ack := ackFlag view.flags
    localPort := UInt16.ofNat view.localPort
    windowLen := view.windowLen
    sequence := BitVec.ofNat 32 view.sequence
    ackSeq := BitVec.ofNat 32 (view.ackSeq.getD 0)
    data := view.payload }

end PocketView

theorem PocketView.toPocket_filled (view : PocketView) (localPort : UInt16)
    (window : Nat) :
    (view.filled localPort window).toPocket =
      { view.toPocket with
        localPort := localPort
        windowLen :=
          if view.toPocket.udtType = .dgram then view.toPocket.windowLen
          else window } := by
  have port : UInt16.ofNat localPort.toNat = localPort := UInt16.ofNat_toNat
  unfold PocketView.toPocket PocketView.filled
  rw [port]

def Mem.viewAt (memory : Memory) (pocket : Int) (len : Nat) : PocketView :=
  .ofBytes (memory.bytes pocket len)

section Fields

variable {bytes : List Byte} {value : Nat}

theorem byteAt_overwrite (bytes : List Byte) (offset : Nat) (block : List Byte)
    (index : Nat) :
    byteAt (overwrite bytes offset block) index =
      if index < bytes.length ∧ offset ≤ index ∧ index < offset + block.length
        then byteAt block (index - offset) else byteAt bytes index := by
  simp only [byteAt, List.getD_eq_getElem?_getD, getElem?_overwrite]
  split <;> rfl

theorem hostU16_overwrite_self {offset : Nat} (fits : offset + 2 ≤ bytes.length)
    (small : value < 65536) :
    hostU16 (overwrite bytes offset (hostBytes value)) offset = value := by
  have size : (hostBytes value).length = 2 := rfl
  refine Eq.trans ?_ (hostU16_hostBytes small)
  rw [hostU16, byteAt_overwrite, byteAt_overwrite, if_pos (by omega),
    if_pos (by omega), Nat.sub_self, Nat.add_sub_cancel_left]
  rfl

theorem hostU16_overwrite_other {offset field : Nat}
    (apart : field + 2 ≤ offset ∨ offset + 2 ≤ field) :
    hostU16 (overwrite bytes offset (hostBytes value)) field =
      hostU16 bytes field := by
  have size : (hostBytes value).length = 2 := rfl
  rw [hostU16, byteAt_overwrite, byteAt_overwrite, if_neg (by omega),
    if_neg (by omega), hostU16]

theorem overwrite_overwrite (bytes : List Byte) (offset : Nat)
    {first second : List Byte} (same : first.length = second.length) :
    overwrite (overwrite bytes offset first) offset second =
      overwrite bytes offset second := by
  apply List.ext_getElem?
  intro index
  rw [getElem?_overwrite, getElem?_overwrite, getElem?_overwrite,
    length_overwrite, same]
  split
  · rfl
  · rfl

theorem drop_overwrite {offset count : Nat} (block : List Byte)
    (front : offset + block.length ≤ count) :
    (overwrite bytes offset block).drop count = bytes.drop count := by
  apply List.ext_getElem?
  intro index
  rw [List.getElem?_drop, List.getElem?_drop, getElem?_overwrite,
    if_neg (by omega)]

theorem ofBytes_overwrite {offset : Nat} (field : 2 ≤ offset)
    (inside : offset + 2 ≤ 8) :
    PocketView.ofBytes (overwrite bytes offset (hostBytes value)) =
      { PocketView.ofBytes bytes with
        checksum := hostU16 (overwrite bytes offset (hostBytes value)) 2
        localPort := hostU16 (overwrite bytes offset (hostBytes value)) 4
        windowLen := hostU16 (overwrite bytes offset (hostBytes value)) 6 } := by
  have front (index : Nat) (early : index < 2) :
      byteAt (overwrite bytes offset (hostBytes value)) index =
        byteAt bytes index := by
    rw [byteAt_overwrite, if_neg (by omega)]
  have late (index : Nat) (behind : 8 ≤ index) :
      hostU16 (overwrite bytes offset (hostBytes value)) index =
        hostU16 bytes index :=
    hostU16_overwrite_other (by omega)
  have header : offset + (hostBytes value).length ≤
      (if ackFlag (byteAt bytes 1) then 16 else 12) := by
    rw [length_hostBytes]
    split <;> omega
  unfold PocketView.ofBytes hostWord
  rw [front 0 (by decide), front 1 (by decide), late 8 (by decide),
    late (8 + 2) (by decide), late 12 (by decide), late (12 + 2) (by decide),
    drop_overwrite _ header]

theorem ofBytes_checksum (long : 4 ≤ bytes.length) (small : value < 65536) :
    PocketView.ofBytes (overwrite bytes 2 (hostBytes value)) =
      { PocketView.ofBytes bytes with checksum := value } := by
  rw [ofBytes_overwrite (by decide) (by decide),
    hostU16_overwrite_self long small, hostU16_overwrite_other (by decide),
    hostU16_overwrite_other (by decide)]
  rfl

theorem ofBytes_localPort (long : 6 ≤ bytes.length) (small : value < 65536) :
    PocketView.ofBytes (overwrite bytes 4 (hostBytes value)) =
      { PocketView.ofBytes bytes with localPort := value } := by
  rw [ofBytes_overwrite (by decide) (by decide),
    hostU16_overwrite_other (by decide), hostU16_overwrite_self long small,
    hostU16_overwrite_other (by decide)]
  rfl

theorem ofBytes_windowLen (long : 8 ≤ bytes.length) (small : value < 65536) :
    PocketView.ofBytes (overwrite bytes 6 (hostBytes value)) =
      { PocketView.ofBytes bytes with windowLen := value } := by
  rw [ofBytes_overwrite (by decide) (by decide),
    hostU16_overwrite_other (by decide), hostU16_overwrite_other (by decide),
    hostU16_overwrite_self long small]
  rfl

end Fields

variable {len : Nat}

section RoundTrip

variable (memory : Memory) (pocket : Int) (localPort : UInt16) (window : Nat)

theorem viewAt_setPortWindow (long : 12 ≤ len) (small : window < 65536) :
    (memory.setPortWindow pocket localPort window).viewAt pocket len =
      (memory.viewAt pocket len).filled localPort window := by
  have port : localPort.toNat < 65536 := localPort.toNat_lt
  have ported : ((memory.storeHost (pocket + 4) localPort.toNat).bytes pocket
      len) = overwrite (memory.bytes pocket len) 4
        (hostBytes localPort.toNat) :=
    bytes_store _ _ _ _ _
  have length : (memory.bytes pocket len).length = len := length_bytes _ _ _
  have flags : byteAt (((memory.storeHost (pocket + 4)
      localPort.toNat).load (pocket + 1) 1).1) 0 =
        (memory.viewAt pocket len).flags := by
    rw [load_bytes, byteAt_bytes _ _ (by decide)]
    unfold viewAt PocketView.ofBytes
    dsimp only
    rw [byteAt_bytes _ _ (by omega), storeHost_of_outside _ _ _ (by omega),
      Int.natCast_zero, Int.add_zero, Int.natCast_one]
  unfold setPortWindow PocketView.filled
  dsimp only
  rw [flags]
  by_cases dgram : typeOf (memory.viewAt pocket len).flags = .dgram
  · rw [if_pos dgram, if_pos dgram]
    show PocketView.ofBytes ((memory.storeHost (pocket + 4)
      localPort.toNat).bytes pocket len) = _
    rw [ported, ofBytes_localPort (by omega) port]
    rfl
  · rw [if_neg dgram, if_neg dgram]
    have both : (((memory.storeHost (pocket + 4) localPort.toNat).load
        (pocket + 1) 1).2.storeHost (pocket + 6) window).bytes pocket len =
          overwrite (overwrite (memory.bytes pocket len) 4
            (hostBytes localPort.toNat)) 6 (hostBytes window) := by
      rw [← ported]
      exact bytes_store _ _ _ _ _
    unfold viewAt
    rw [both, ofBytes_windowLen (by rw [length_overwrite]; omega) small,
      ofBytes_localPort (by omega) port]

def wireSum (len : Nat) : Nat :=
  packetSum ((memory.setPortWindow pocket localPort window).swapHeader pocket)
    pocket len

theorem toSocket_cells (len : Nat) :
    (memory.toSocket pocket len localPort window).2.cells =
      (((memory.setPortWindow pocket localPort window).swapHeader pocket).store
        (pocket + 2)
        (hostBytes (wireSum memory pocket localPort window len)).reverse).cells :=
  setChecksum_cells _ _ _

theorem toSocket_bytes (len : Nat) :
    (memory.toSocket pocket len localPort window).1 =
      (((memory.setPortWindow pocket localPort window).swapHeader pocket).store
        (pocket + 2)
        (hostBytes (wireSum memory pocket localPort window len)).reverse).bytes
          pocket len := by
  apply bytes_congr
  intro index _
  exact congrFun (toSocket_cells memory pocket localPort window len) _

theorem writePocket_cells (len : Nat) :
    (memory.writePocket pocket len localPort window).2.cells =
      ((memory.setPortWindow pocket localPort window).storeHost (pocket + 2)
        (wireSum memory pocket localPort window len)).cells := by
  have swapped := swapHeader_congr pocket
    (toSocket_cells memory pocket localPort window len)
  have back := swapHeader_checksum
    (memory.setPortWindow pocket localPort window) pocket
    (show (hostBytes (wireSum memory pocket localPort window len)).reverse.length
      = 2 by rfl)
  exact swapped.trans back

theorem writePocket_packet (len : Nat) :
    (memory.writePocket pocket len localPort window).1 =
      overwrite (((memory.setPortWindow pocket localPort window).swapHeader
        pocket).bytes pocket len) 2
          (hostBytes (wireSum memory pocket localPort window len)).reverse :=
  (toSocket_bytes memory pocket localPort window len).trans
    (bytes_store _ _ 2 _ _)

theorem writePocket_passes (buffer : Memory) (buf : Int) (long : 4 ≤ len) :
    ((buffer.store buf
        (memory.writePocket pocket len localPort window).1).testChecksum buf
          len).1 = true ∧
      (((memory.setPortWindow pocket localPort window).swapHeader
          pocket).storeHost (pocket + 2) 0).bytes pocket len =
        ((buffer.store buf (memory.writePocket pocket len localPort
          window).1).storeHost (buf + 2) 0).bytes buf len := by
  have handed := writePocket_packet memory pocket localPort window len
  generalize sum : wireSum memory pocket localPort window len = value at handed
  have small : value < 65536 := by
    rw [← sum]
    exact checksum_lt _
  generalize port : memory.setPortWindow pocket localPort window = ported
    at handed
  generalize (memory.writePocket pocket len localPort window).1 = packet
    at handed
  have length : packet.length = len := by
    rw [handed, length_overwrite, length_bytes]
  have arrived : (buffer.store buf packet).bytes buf len = packet := by
    rw [← length]
    exact bytes_store_self _ _ _
  have zeroed : ((ported.swapHeader pocket).storeHost (pocket + 2) 0).bytes
      pocket len =
        ((buffer.store buf packet).storeHost (buf + 2) 0).bytes buf len := by
    have front : ((buffer.store buf packet).storeHost (buf + 2) 0).bytes buf
        len = overwrite packet 2 (hostBytes 0) :=
      (bytes_store (buffer.store buf packet) buf 2 len _).trans
        (congrArg (overwrite · 2 (hostBytes 0)) arrived)
    have sized : (hostBytes value).reverse.length = (hostBytes 0).length := rfl
    rw [front, handed, overwrite_overwrite _ _ sized]
    exact bytes_store _ _ 2 _ _
  have carried : (buffer.store buf packet).bytes (buf + 2) 2 =
      (hostBytes value).reverse := by
    have cell (index : Nat) (inside : index < 2) :
        (buffer.store buf packet).cells (buf + 2 + index) =
          byteAt (hostBytes value).reverse index := by
      have place : buf + 2 + (index : Int) = buf + ((2 + index : Nat) : Int) := by
        omega
      have size : (hostBytes value).reverse.length = 2 := rfl
      rw [place, ← byteAt_bytes _ _ (show 2 + index < len by omega), arrived,
        handed, byteAt_overwrite, if_pos (by rw [length_bytes]; omega),
        Nat.add_sub_cancel_left]
    have front := cell 0 (by decide)
    have back := cell 1 (by decide)
    rw [Int.natCast_zero, Int.add_zero] at front
    rw [Int.natCast_one] at back
    simp only [bytes, List.range_succ, List.range_zero, List.nil_append,
      List.cons_append, List.map_cons, List.map_nil, Int.natCast_zero,
      Int.add_zero, Int.natCast_one, front, back]
    rfl
  have passes : ((buffer.store buf packet).testChecksum buf len).1 = true := by
    have summed : packetSum (buffer.store buf packet) buf len = value := by
      rw [packetSum, ← zeroed, ← sum, wireSum, port, packetSum]
    rw [(testChecksum_eq _ _ _).1, carried, List.reverse_reverse,
      hostU16_hostBytes small, summed]
    exact decide_eq_true rfl
  exact ⟨passes, zeroed⟩

/-- What `read_packet_from_socket` leaves in its buffer when the socket has put
the packet there. -/
theorem readPacket_bytes (buffer : Memory) (buf : Int)
    (header : memory.headerSizeAt pocket ≤ len) :
    ((buffer.store buf (memory.writePocket pocket len localPort
        window).1).readPacket buf len).2.bytes buf len =
      overwrite ((memory.setPortWindow pocket localPort window).bytes pocket
        len) 2 (hostBytes 0) := by
  have long : 12 ≤ memory.headerSizeAt pocket := by
    unfold headerSizeAt
    split <;> decide
  obtain ⟨passes, zeroed⟩ := writePocket_passes memory pocket localPort window
    buffer buf (show 4 ≤ len by omega)
  generalize (memory.writePocket pocket len localPort window).1 = packet
    at passes zeroed
  generalize port : memory.setPortWindow pocket localPort window = ported
    at zeroed
  have flag : ported.ackAt pocket = memory.ackAt pocket := by
    rw [← port]
    exact ackAt_setPortWindow memory pocket localPort window
  have flagZeroed : ((ported.swapHeader pocket).storeHost (pocket + 2)
      0).ackAt pocket = memory.ackAt pocket := by
    refine Eq.trans ?_ ((ackAt_swapHeader ported pocket).trans flag)
    unfold ackAt
    rw [storeHost_of_outside _ _ _ (by omega)]
  have fits : ((ported.swapHeader pocket).storeHost (pocket + 2)
      0).headerSizeAt pocket ≤ len := by
    unfold headerSizeAt at header ⊢
    rwa [flagZeroed]
  have host := swapHeader_bytes zeroed fits
  have restored := swapHeader_checksum ported pocket
    (show (hostBytes 0).length = 2 from rfl)
  have tested := swapHeader_congr buf
    (testChecksum_eq (buffer.store buf packet) buf len).2
  rw [readPacket, if_pos passes]
  have read : (((buffer.store buf packet).testChecksum buf len).2.swapHeader
      buf).bytes buf len =
        (((buffer.store buf packet).storeHost (buf + 2) 0).swapHeader
          buf).bytes buf len :=
    bytes_congr fun index _ => congrFun tested _
  have plain : (((ported.swapHeader pocket).storeHost (pocket + 2)
      0).swapHeader pocket).bytes pocket len =
        (ported.store (pocket + 2) (hostBytes 0)).bytes pocket len :=
    bytes_congr fun index _ => congrFun restored _
  exact (read.trans (host.symm.trans plain)).trans (bytes_store _ _ 2 _ _)

/-- The receiver's pocket: the sender's with the port and the window set, and
the checksum cleared by the test. -/
theorem readPacket_viewAt (buffer : Memory) (buf : Int)
    (header : memory.headerSizeAt pocket ≤ len) (small : window < 65536) :
    ((buffer.store buf (memory.writePocket pocket len localPort
      window).1).readPacket buf len).2.viewAt buf len =
        { (memory.viewAt pocket len).filled localPort window with
          checksum := 0 } := by
  have long : 12 ≤ memory.headerSizeAt pocket := by
    unfold headerSizeAt
    split <;> decide
  have read := readPacket_bytes memory pocket localPort window buffer buf header
  have length : 4 ≤ ((memory.setPortWindow pocket localPort window).bytes pocket
      len).length := by
    rw [length_bytes]
    omega
  have filled := viewAt_setPortWindow memory pocket localPort window
    (show 12 ≤ len by omega) small
  refine (congrArg PocketView.ofBytes read).trans ?_
  rw [ofBytes_checksum length (by decide)]
  exact congrArg (fun view : PocketView => { view with checksum := 0 }) filled

/-- Writing changes the port, the window and the checksum of the sender's copy
and nothing else. -/
theorem writePocket_cells_of_outside (len : Nat) {target : Int}
    (outside : target < pocket + 2 ∨ pocket + 8 ≤ target) :
    (memory.writePocket pocket len localPort window).2.cells target =
      memory.cells target := by
  rw [writePocket_cells, storeHost_of_outside _ _ _ (by omega)]
  unfold setPortWindow
  dsimp only
  split
  · rw [load_cells, storeHost_of_outside _ _ _ (by omega)]
  · rw [storeHost_of_outside _ _ _ (by omega), load_cells,
      storeHost_of_outside _ _ _ (by omega)]

/-- For every pocket in memory and every number of bytes behind its header: the
packet handed to the socket is accepted by the receiver, whatever its buffer
held before, and read back with all fields, the acknowledgement if it is
carried, and the payload; the sender's copy differs from the original in the
port, the window and the checksum alone, and nothing else in its memory
changes. -/
theorem writePocket_roundTrip (node : UdtNode) (payload : Nat)
    (buffer : Memory) (buf : Int) :
    ((buffer.store buf (memory.writePocket pocket
        (memory.headerSizeAt pocket + payload) node.localPort
          node.sendWindow).1).testChecksum buf
            (memory.headerSizeAt pocket + payload)).1 = true ∧
      ((buffer.store buf (memory.writePocket pocket
        (memory.headerSizeAt pocket + payload) node.localPort
          node.sendWindow).1).readPacket buf
            (memory.headerSizeAt pocket + payload)).2.viewAt buf
              (memory.headerSizeAt pocket + payload) =
        { (memory.viewAt pocket (memory.headerSizeAt pocket + payload)).filled
            node.localPort node.sendWindow with
          checksum := 0 } ∧
      (memory.writePocket pocket (memory.headerSizeAt pocket + payload)
        node.localPort node.sendWindow).2.viewAt pocket
          (memory.headerSizeAt pocket + payload) =
        { (memory.viewAt pocket (memory.headerSizeAt pocket + payload)).filled
            node.localPort node.sendWindow with
          checksum := wireSum memory pocket node.localPort node.sendWindow
            (memory.headerSizeAt pocket + payload) } ∧
      ∀ target, target < pocket + 2 ∨ pocket + 8 ≤ target →
        (memory.writePocket pocket (memory.headerSizeAt pocket + payload)
          node.localPort node.sendWindow).2.cells target =
            memory.cells target := by
  have long : 12 ≤ memory.headerSizeAt pocket := by
    unfold headerSizeAt
    split <;> decide
  have small : node.sendWindow < 65536 :=
    Nat.lt_of_le_of_lt (Nat.min_le_right _ _) (by decide)
  obtain ⟨passes, -⟩ := writePocket_passes memory pocket node.localPort
    node.sendWindow buffer buf
      (show 4 ≤ memory.headerSizeAt pocket + payload by omega)
  have filled := viewAt_setPortWindow memory pocket node.localPort
    node.sendWindow (show 12 ≤ memory.headerSizeAt pocket + payload by omega)
    small
  have kept := writePocket_cells memory pocket node.localPort node.sendWindow
    (memory.headerSizeAt pocket + payload)
  have length : 4 ≤ ((memory.setPortWindow pocket node.localPort
      node.sendWindow).bytes pocket
        (memory.headerSizeAt pocket + payload)).length := by
    rw [length_bytes]
    omega
  refine ⟨passes, ?_, ?_, ?_⟩
  · exact readPacket_viewAt memory pocket node.localPort node.sendWindow buffer
      buf (Nat.le_add_right _ payload) small
  · have bytes : (memory.writePocket pocket
        (memory.headerSizeAt pocket + payload) node.localPort
          node.sendWindow).2.bytes pocket
            (memory.headerSizeAt pocket + payload) =
        overwrite ((memory.setPortWindow pocket node.localPort
          node.sendWindow).bytes pocket (memory.headerSizeAt pocket + payload))
            2 (hostBytes (wireSum memory pocket node.localPort node.sendWindow
              (memory.headerSizeAt pocket + payload))) :=
      (bytes_congr fun index _ => congrFun kept _).trans
        (bytes_store _ _ 2 _ _)
    refine (congrArg PocketView.ofBytes bytes).trans ?_
    rw [ofBytes_checksum length (show wireSum memory pocket node.localPort
      node.sendWindow _ < 65536 from checksum_lt _)]
    exact congrArg (fun view : PocketView => { view with
      checksum := wireSum memory pocket node.localPort node.sendWindow
        (memory.headerSizeAt pocket + payload) }) filled
  · intro target outside
    exact writePocket_cells_of_outside memory pocket node.localPort
      node.sendWindow _ outside

end RoundTrip

end NdNet
