import NdNet.Udt.Client
import NdNet.Udt.Received

/-!
# Datagrams of any length and content

The two ways of a datagram from the socket to `_udt_packet_handler`: a client
reads with `read_packet_from_socket`, the server with `read_datagram` and
`pump_insrv_udt_data`. Neither looks at the length before the header is
converted and dispatched.
-/

namespace NdNet

open Mem

namespace UdtNode

open NetStat

/-- The tests of `_wait_data` on a packet in the buffer. -/
def waitDataAt (node : UdtNode) (remoteAddr addr : SockAddr) (memory : Memory)
    (pocket : Int) : Int × UdtNode × Memory :=
  if remoteAddr.cmp addr ≠ 0 then
    (-1, { node with myerrno := .badpacket }, memory)
  else if node.localPort ≠ 0 then
    let port := memory.loadLocalPort pocket
    if node.localPort ≠ port.1 then
      (-1, { node with myerrno := .badpacket }, port.2)
    else (1, { node with updateTm := node.lastRecv }, port.2)
  else
    let udtType := memory.loadType pocket
    if udtType.1 ≠ .syn then
      (-1, { node with myerrno := .badpacket }, udtType.2)
    else (1, { node with updateTm := node.lastRecv }, udtType.2)

/-- A datagram on its way into a client: `_udt_syn` hands it to the handler at
once, `_wait_data` tests it before. -/
def receiveAt (node : UdtNode) (remoteAddr addr : SockAddr) (connecting : Bool)
    (memory : Memory) (buf : Int) (len : Nat) : Int × UdtNode × Memory :=
  let read := memory.readPacket buf len
  if read.1 = 0 then (0, { node with myerrno := .badpacket }, read.2)
  else if connecting then node.packetHandlerAt read.2 buf read.1
  else
    let waited := node.waitDataAt remoteAddr addr read.2 buf
    if waited.1 = -1 then waited
    else waited.2.1.packetHandlerAt waited.2.2 buf read.1

/-- The data that the handler passes on, to `data_entry`, to the receive buffer
or to the list of early packets. -/
def passedOn (node : UdtNode) (pocket : UdtPocket) : Option (List Byte) :=
  match pocket.udtType with
  | .dgram => if node.dataEntry.isSome then some pocket.data else none
  | .data => if pocket.data.length = 0 then none else some pocket.data
  | _ => none

end UdtNode

/-- `read_datagram` of a datagram that the socket has put into the buffer. -/
def Mem.readDatagram (memory : Memory) (buf : Int) (len : Nat) :
    Nat × Memory :=
  let tested := memory.testChecksum buf len
  if tested.1 then
    let kind := (tested.2.udtNet2host buf).load buf 1
    if (byteAt kind.1 0).toNat / 16 = protocolUdt then (len, kind.2)
    else (0, kind.2)
  else (0, tested.2)

namespace UdtListener

/-- `data_handle`: the session that gets the packet, and the bytes looked at. -/
def dataHandleAt (listener : UdtListener) (moment : Moment) (addr : SockAddr)
    (memory : Memory) (pocket : Int) : Option UdtNode × Memory :=
  let port := memory.loadLocalPort pocket
  match listener.lock port.1 with
  | none => (none, port.2)
  | some session =>
    if (listener.heap session).remoteAddr.cmp addr = 0 then
      (some ((listener.heap session).node.atMoment moment
        session).clearUserData, port.2)
    else (none, port.2)

/-- `data_handle` with the call of the handler. -/
def handOver (listener : UdtListener) (moment : Moment) (addr : SockAddr)
    (memory : Memory) (pocket : Int) (len : Nat) : Memory :=
  let found := listener.dataHandleAt moment addr memory pocket
  match found.1 with
  | none => found.2
  | some node => (node.packetHandlerAt found.2 pocket len).2.2

/-- The looks of `pump_insrv_udt_data` at a packet; `room` says that a session
can be allocated. -/
def pumpAt (listener : UdtListener) (moment : Moment) (addr : SockAddr)
    (room : Bool) (memory : Memory) (pocket : Int) (len : Nat) : Memory :=
  let port := memory.loadLocalPort pocket
  let udtType := port.2.loadType pocket
  if udtType.1 = .syn then
    if port.1 = 0 then
      let session := listener.allocated
      if room ∧ (listener.connManager.root.accept listener.thid session).1 ≠ 0
        then
          (((UdtNode.allocListen listener.fd).noteSyn moment session).handleSynAt
            udtType.2 pocket).2.2
      else udtType.2
    else
      match listener.lock port.1 with
      | none => listener.handOver moment addr udtType.2 pocket len
      | some session =>
        (((listener.heap session).node.noteSyn moment session).handleSynAt
          udtType.2 pocket).2.2
  else listener.handOver moment addr udtType.2 pocket len

def receiveAt (listener : UdtListener) (moment : Moment) (addr : SockAddr)
    (room : Bool) (memory : Memory) (buf : Int) (len : Nat) : Memory :=
  let read := memory.readDatagram buf len
  if read.1 = 0 then read.2
  else listener.pumpAt moment addr room read.2 buf read.1

end UdtListener

section Footprint

open NetStat

variable {first last pocket : Int} {len : Nat} (node : UdtNode)
  (memory : Memory)

section

variable (lower : first ≤ pocket)
include lower

theorem within_loadSequence (upper : pocket + 12 ≤ last) :
    Within first last memory (memory.loadSequence pocket).2 :=
  within_load (by omega) (by omega) memory

theorem within_loadAckSeq (upper : pocket + 16 ≤ last) :
    Within first last memory (memory.loadAckSeq pocket).2 :=
  within_load (by omega) (by omega) memory

variable (upper : pocket + 12 ≤ last)
include upper

theorem within_loadLocalPort :
    Within first last memory (memory.loadLocalPort pocket).2 :=
  within_load (by omega) (by omega) memory

theorem UdtNode.within_handleSynAt
    (acked : memory.ackAt pocket = true → pocket + 16 ≤ last) :
    Within first last memory (node.handleSynAt memory pocket).2.2 := by
  unfold handleSynAt
  dsimp only
  split
  · exact within_loadSequence memory lower upper
  split
  · rw [(loadAck_eq memory pocket).1]
    have looked := within_loadAck lower upper memory
    cases flag : memory.ackAt pocket with
    | false => exact looked
    | true =>
      have room := acked flag
      have numbered := looked.trans (within_loadAckSeq _ lower room)
      rw [Bool.not_true, if_neg Bool.false_ne_true]
      split
      · exact numbered
      · exact ((numbered.trans (within_loadLocalPort _ lower upper)).trans
          (within_loadSequence _ lower upper)).trans
            (within_loadAckSeq _ lower room)
  · split
    · split
      · exact within_loadSequence memory lower upper
      · exact within_loadSequence memory lower upper
    · exact Within.refl first last memory

theorem UdtNode.within_handleCarriedAckAt
    (acked : memory.ackAt pocket = true → pocket + 16 ≤ last) :
    Within first last memory (node.handleCarriedAckAt memory pocket).2 := by
  unfold handleCarriedAckAt
  dsimp only
  rw [(loadAck_eq memory pocket).1]
  have looked := within_loadAck lower upper memory
  cases flag : memory.ackAt pocket with
  | false => exact looked
  | true => exact looked.trans (within_loadAckSeq _ lower (acked flag))

theorem UdtNode.within_handleIncomeDataAt (whole : pocket + len ≤ last) :
    Within first last memory
      (node.handleIncomeDataAt memory pocket len).2.2 := by
  have header := UdtNode.loadHeaderSize_eq memory pocket
  have looked : Within first last memory (memory.loadHeaderSize pocket).2 :=
    within_loadAck lower upper memory
  have numbered := looked.trans (within_loadSequence _ lower upper)
  have again := numbered.trans (within_loadAck lower upper _)
  have start : (((memory.loadHeaderSize pocket).2.loadSequence
      pocket).2.loadHeaderSize pocket).1 = memory.headerSizeAt pocket := header
  unfold handleIncomeDataAt
  dsimp only
  split
  · exact looked
  rename_i some
  split
  · exact numbered.trans (within_load lower whole _)
  · split
    · exact numbered
    · split
      · exact numbered
      · exact again.trans (within_load (by omega) (by omega) _)

theorem UdtNode.within_handleFinAt
    (acked : memory.ackAt pocket = true → pocket + 16 ≤ last) :
    Within first last memory (node.handleFinAt memory pocket).2.2 := by
  have taken := node.within_handleCarriedAckAt memory lower upper acked
  unfold handleFinAt
  dsimp only
  split
  · exact taken
  · exact taken.trans (within_loadSequence _ lower upper)

theorem UdtNode.within_dispatchAt (whole : pocket + len ≤ last)
    (acked : memory.ackAt pocket = true → pocket + 16 ≤ last)
    (udtType : UdtMsgType)
    (taken : udtType = .ack ∨ udtType = .lost → pocket + 16 ≤ last)
    (datagram : udtType = .dgram →
      pocket + 6 + sizeSub len udpPacketHeadSize ≤ last) :
    Within first last memory
      (node.dispatchAt memory pocket len udtType).2.2 := by
  cases udtType with
  | data =>
    have carried := node.within_handleCarriedAckAt memory lower upper acked
    exact carried.trans (within_handleIncomeDataAt _ _ lower upper whole)
  | dgram =>
    unfold dispatchAt
    cases node.dataEntry with
    | none => exact Within.refl first last memory
    | some entry => exact within_load (by omega) (datagram rfl) memory
  | syn => exact node.within_handleSynAt memory lower upper acked
  | ack => exact within_loadAckSeq memory lower (taken (.inl rfl))
  | lost =>
    exact (within_loadAckSeq memory lower (taken (.inr rfl))).trans
      (within_loadSequence _ lower upper)
  | fin => exact node.within_handleFinAt memory lower upper acked
  | reset | alive | unknown => exact Within.refl first last memory

theorem UdtNode.within_packetHandlerAt (whole : pocket + len ≤ last)
    (acked : memory.ackAt pocket = true → pocket + 16 ≤ last)
    (taken : node.status.has reset = false →
      memory.typeAt pocket = .ack ∨ memory.typeAt pocket = .lost →
        pocket + 16 ≤ last)
    (datagram : memory.typeAt pocket = .dgram →
      pocket + 6 + sizeSub len udpPacketHeadSize ≤ last) :
    Within first last memory (node.packetHandlerAt memory pocket len).2.2 := by
  have kind : ((memory.loadWindowLen pocket).2.loadType pocket).1 =
      memory.typeAt pocket := UdtNode.loadType_eq _ _
  have windowed : Within first last memory (memory.loadWindowLen pocket).2 :=
    within_load (by omega) (by omega) memory
  have typed : Within first last (memory.loadWindowLen pocket).2
      ((memory.loadWindowLen pocket).2.loadType pocket).2 :=
    within_load (by omega) (by omega) _
  have looked := windowed.trans typed
  unfold packetHandlerAt
  by_cases ended : node.status.has reset = true
  · rw [if_pos ended]
    exact Within.refl first last memory
  have handled := looked.trans (UdtNode.within_dispatchAt
    (node.noteArrival { UdtPocket.init with
      windowLen := (memory.loadWindowLen pocket).1 })
    ((memory.loadWindowLen pocket).2.loadType pocket).2 lower upper whole
    acked (memory.typeAt pocket) (taken (Bool.eq_false_iff.mpr ended))
    datagram)
  rw [if_neg ended]
  dsimp only
  rw [kind]
  split
  · exact handled
  · exact handled

end

theorem swapHeader_touched (memory : Memory) (pocket : Int) :
    (pocket + 8, 4) ∈ (memory.swapHeader pocket).touched ∧
      (memory.ackAt pocket = true →
        (pocket + 12, 4) ∈ (memory.swapHeader pocket).touched) := by
  have flag : ((((memory.reverse (pocket + 2) 2).reverse (pocket + 4) 2).reverse
      (pocket + 6) 2).reverse (pocket + 8) 4).ackAt pocket =
        memory.ackAt pocket := by
    unfold ackAt
    rw [reverse_cells, if_neg (by omega), reverse_cells, if_neg (by omega),
      reverse_cells, if_neg (by omega), reverse_cells, if_neg (by omega)]
  have last {range : Int × Nat} (old : List (Int × Nat)) : range ∈ old ++ [range] :=
    List.mem_append_right _ (List.mem_singleton_self _)
  have numbered : (pocket + 8, 4) ∈
      (((((memory.reverse (pocket + 2) 2).reverse (pocket + 4) 2).reverse
        (pocket + 6) 2).reverse (pocket + 8) 4).loadAck pocket).2.touched :=
    List.mem_append_left _ (List.mem_append_left _ (last _))
  unfold swapHeader
  dsimp only
  rw [(loadAck_eq _ _).1, flag]
  cases carried : memory.ackAt pocket with
  | false => exact ⟨numbered, fun impossible => nomatch impossible⟩
  | true =>
    exact ⟨List.mem_append_left _ (List.mem_append_left _ numbered),
      fun _ => List.mem_append_left _ (last _)⟩

end Footprint

variable {looked : Memory} (node : UdtNode)

section Converted

open NetStat

variable {cells : Int → Byte} {buf : Int} {len : Nat}

/-- The buffer when the checksum has been tested and the header converted. -/
def converted (cells : Int → Byte) (buf : Int) (len : Nat) : Memory :=
  ((untouched cells).testChecksum buf len).2.udtNet2host buf

theorem testChecksum_ackAt (memory : Memory) :
    (memory.testChecksum buf len).2.ackAt buf = memory.ackAt buf := by
  rw [ackAt, (testChecksum_eq memory buf len).2,
    storeHost_of_outside _ _ _ (by omega), ackAt]

theorem converted_flags :
    (converted cells buf len).cells (buf + 1) = cells (buf + 1) := by
  unfold converted udtNet2host
  rw [swapHeader_cells, mirror_of_outside _ (by omega),
    (testChecksum_eq (untouched cells) buf len).2,
    storeHost_of_outside _ _ _ (by omega)]
  rfl

/-- Code that goes on from the converted header keeps to the packet exactly
when header and packet are long enough for what it touches. -/
theorem converted_touches_iff {after : Memory} {taken : Prop}
    (grows : ∀ range ∈ (converted cells buf len).touched, range ∈ after.touched)
    (reads : taken → (buf + 12, 4) ∈ after.touched)
    (within : 12 ≤ len →
      ((untouched cells).ackAt buf = true → 16 ≤ len) →
        (taken → 16 ≤ len) →
          Within buf (buf + len) (converted cells buf len) after) :
    after.Touches buf (buf + len) ↔
      12 ≤ len ∧ ((untouched cells).ackAt buf = true → 16 ≤ len) ∧
        (taken → 16 ≤ len) := by
  have flag : ((untouched cells).testChecksum buf len).2.ackAt buf =
      (untouched cells).ackAt buf := testChecksum_ackAt _
  constructor
  · intro inside
    have numbered : (buf + 8, 4) ∈ (converted cells buf len).touched :=
      (swapHeader_touched _ buf).1
    have acked := (swapHeader_touched
      ((untouched cells).testChecksum buf len).2 buf).2
    have header := inside _ (grows _ numbered)
    refine ⟨by omega, ?_, ?_⟩
    · intro carried
      have word := inside _ (grows _ (acked (flag.trans carried)))
      omega
    · intro looks
      have word := inside _ (reads looks)
      omega
  · rintro ⟨header, acked, looks⟩
    have fresh : (untouched cells).Touches buf (buf + len) :=
      fun range member => absurd member List.not_mem_nil
    have tested : Within buf (buf + len) (untouched cells)
        ((untouched cells).testChecksum buf len).2 :=
      within_testChecksum (Int.le_refl buf) (by omega) (Int.le_refl _) _
    have swapped := within_swapHeader (Int.le_refl buf)
      (show buf + 12 ≤ buf + len by omega)
      ((untouched cells).testChecksum buf len).2 fun carried => by
        have long := acked (flag.symm.trans carried)
        omega
    exact ((tested.trans swapped).trans (within header acked looks)).touches
      fresh

/-- Only fields in the first twelve bytes have been looked at since. -/
structure Looked (cells : Int → Byte) (buf : Int) (len : Nat)
    (looked : Memory) : Prop where
  same : looked.cells = (converted cells buf len).cells
  within : ∀ first last, first ≤ buf → buf + 12 ≤ last →
    Within first last (converted cells buf len) looked

theorem Looked.load (holds : Looked cells buf len looked) {address : Int}
    {count : Nat} (lower : buf ≤ address) (upper : address + count ≤ buf + 12) :
    Looked cells buf len (looked.load address count).2 where
  same := holds.same
  within first last front back :=
    (holds.within first last front back).trans
      (within_load (by omega) (by omega) looked)

theorem Looked.ackAt (holds : Looked cells buf len looked) :
    looked.ackAt buf = (untouched cells).ackAt buf := by
  rw [Mem.ackAt, holds.same, converted_flags]
  rfl

theorem Looked.typeAt (holds : Looked cells buf len looked) :
    looked.typeAt buf = (untouched cells).typeAt buf := by
  rw [Mem.typeAt, holds.same, converted_flags]
  rfl

theorem Looked.grows (holds : Looked cells buf len looked) :
    ∀ range ∈ (converted cells buf len).touched, range ∈ looked.touched :=
  fun _ => (holds.within buf (buf + 12) (Int.le_refl _)
    (Int.le_refl _)).mem_touched

theorem looked_touches_iff (holds : Looked cells buf len looked) :
    looked.Touches buf (buf + len) ↔
      12 ≤ len ∧ ((untouched cells).ackAt buf = true → 16 ≤ len) ∧
        (False → 16 ≤ len) :=
  converted_touches_iff holds.grows False.elim fun header _ _ =>
    holds.within buf (buf + len) (Int.le_refl _) (by omega)

theorem syn_touches_iff {looked : Memory} (holds : Looked cells buf len looked)
    :
    (node.handleSynAt looked buf).2.2.Touches buf (buf + len) ↔
      12 ≤ len ∧ ((untouched cells).ackAt buf = true → 16 ≤ len) ∧
        (False → 16 ≤ len) := by
  have wide : Within buf (buf + 16) looked (node.handleSynAt looked buf).2.2 :=
    node.within_handleSynAt looked (Int.le_refl _) (by omega) fun _ =>
      Int.le_refl _
  refine converted_touches_iff
    (fun range member => wide.mem_touched (holds.grows range member))
    False.elim fun header acked _ => ?_
  have room : looked.ackAt buf = true → buf + 16 ≤ buf + len := by
    intro flag
    have long := acked (holds.ackAt.symm.trans flag)
    omega
  exact (holds.within buf (buf + len) (Int.le_refl _) (by omega)).trans
    (node.within_handleSynAt looked (Int.le_refl _) (by omega) room)

/-- The handler takes `ack_seq` of these two types, with or without the
flag. -/
def TakesAck (node : UdtNode) (udtType : UdtMsgType) : Prop :=
  node.status.has reset = false ∧ (udtType = .ack ∨ udtType = .lost)

theorem UdtNode.packetHandlerAt_reads {looked : Memory}
    (takes : TakesAck node (looked.typeAt buf)) :
    (buf + 12, 4) ∈ (node.packetHandlerAt looked buf len).2.2.touched := by
  have kind : ((looked.loadWindowLen buf).2.loadType buf).1 =
      looked.typeAt buf := UdtNode.loadType_eq _ _
  obtain ⟨ready, types⟩ := takes
  unfold packetHandlerAt
  rw [if_neg (by rw [ready]; exact Bool.false_ne_true)]
  dsimp only
  rw [kind]
  have read : (buf + 12, 4) ∈
      ((node.noteArrival { UdtPocket.init with
        windowLen := (looked.loadWindowLen buf).1 }).dispatchAt
          ((looked.loadWindowLen buf).2.loadType buf).2 buf len
            (looked.typeAt buf)).2.2.touched := by
    rcases types with same | same
    · rw [same]
      exact List.mem_append_right _ (List.mem_singleton_self _)
    · rw [same]
      exact List.mem_append_left _
        (List.mem_append_right _ (List.mem_singleton_self _))
  split
  · exact read
  · exact read

theorem handler_touches_iff {looked : Memory}
    (holds : Looked cells buf len looked) :
    (node.packetHandlerAt looked buf len).2.2.Touches buf (buf + len) ↔
      12 ≤ len ∧ ((untouched cells).ackAt buf = true → 16 ≤ len) ∧
        (TakesAck node ((untouched cells).typeAt buf) → 16 ≤ len) := by
  have wide : Within buf (buf + 16 + len + sizeSub len udpPacketHeadSize) looked
      (node.packetHandlerAt looked buf len).2.2 :=
    node.within_packetHandlerAt looked (Int.le_refl _) (by omega) (by omega)
      (fun _ => by omega) (fun _ _ => by omega) (fun _ => by omega)
  refine converted_touches_iff
    (fun range member => wide.mem_touched (holds.grows range member))
    (fun takes => node.packetHandlerAt_reads (by rwa [holds.typeAt])) ?_
  intro header acked taken
  refine (holds.within buf (buf + len) (Int.le_refl _) (by omega)).trans ?_
  refine node.within_packetHandlerAt looked (Int.le_refl _) (by omega)
    (Int.le_refl _) ?_ ?_ ?_
  · intro flag
    have long := acked (holds.ackAt.symm.trans flag)
    omega
  · intro ready types
    have long := taken ⟨ready, by rwa [← holds.typeAt]⟩
    omega
  · intro _
    rw [udpPacketHeadSize, sizeSub_of_le (by omega)]
    omega

end Converted

variable (listener : UdtListener)

section Paths

open NetStat

variable (cells : Int → Byte) (buf : Int) (len : Nat)

/-- The header length that `pocket_data`, and for an unreliable datagram its own
structure, put in front of the payload. -/
def UdtPocket.payloadOffset (pocket : UdtPocket) : Nat :=
  if pocket.udtType = .dgram then udpPacketHeadSize else pocket.headerSize

/-- Only bytes of the packet have been used, and what is passed on is as long as
the packet less its header. -/
structure KeepsToPacket (after : Memory) : Prop where
  touches : after.Touches buf (buf + len)
  passes : ∀ (node : UdtNode) (data : List Byte),
    node.passedOn ((converted cells buf len).pocketAt buf len) = some data →
      (data.length : Int) =
        len - ((converted cells buf len).pocketAt buf len).payloadOffset

/-- The packet is as long as the header that is read: the one that its flag
announces, and with `ack_seq` when the handler takes that word. -/
structure Complete (taken : Prop) : Prop where
  header : 12 ≤ len
  acked : (untouched cells).ackAt buf = true → 16 ≤ len
  taken : taken → 16 ≤ len

theorem passedOn_length (header : 12 ≤ len)
    (acked : (untouched cells).ackAt buf = true → 16 ≤ len) (node : UdtNode)
    {data : List Byte}
    (passed : node.passedOn ((converted cells buf len).pocketAt buf len) =
      some data) :
    (data.length : Int) =
      len - ((converted cells buf len).pocketAt buf len).payloadOffset := by
  have flag : (converted cells buf len).ackAt buf =
      (untouched cells).ackAt buf := by
    rw [ackAt, converted_flags]
    rfl
  have fits : (converted cells buf len).headerSizeAt buf ≤ len := by
    unfold headerSizeAt
    split
    · rename_i carried
      exact acked (flag.symm.trans carried)
    · exact header
  generalize converted cells buf len = memory at passed fits
  unfold UdtPocket.payloadOffset
  cases kind : (memory.pocketAt buf len).udtType with
  | dgram =>
    have size : (memory.pocketAt buf len).data.length = len - 6 := by
      rw [UdtNode.pocketAt_datagram memory buf kind, length_bytes,
        udpPacketHeadSize, sizeSub_of_le (by omega)]
    have same : data = (memory.pocketAt buf len).data := by
      simp only [UdtNode.passedOn, kind] at passed
      split at passed
      · exact (Option.some.inj passed).symm
      · cases passed
    rw [if_pos rfl, same, size, udpPacketHeadSize]
    omega
  | data =>
    have size : (memory.pocketAt buf len).data.length =
        len - memory.headerSizeAt buf := by
      rw [UdtNode.pocketAt_data memory buf kind, length_bytes]
    have same : data = (memory.pocketAt buf len).data := by
      simp only [UdtNode.passedOn, kind] at passed
      split at passed
      · cases passed
      · exact (Option.some.inj passed).symm
    have offset : (memory.pocketAt buf len).headerSize =
        memory.headerSizeAt buf := rfl
    rw [if_neg (by decide), same, size, offset]
    omega
  | syn | alive | ack | lost | fin | reset | unknown =>
    exact absurd passed (by simp [UdtNode.passedOn, kind])

theorem keepsToPacket_iff {after : Memory} {taken : Prop}
    (touches : after.Touches buf (buf + len) ↔
      12 ≤ len ∧ ((untouched cells).ackAt buf = true → 16 ≤ len) ∧
        (taken → 16 ≤ len)) :
    KeepsToPacket cells buf len after ↔ Complete cells buf len taken := by
  constructor
  · intro keeps
    obtain ⟨header, acked, looks⟩ := touches.mp keeps.touches
    exact ⟨header, acked, looks⟩
  · intro complete
    exact
      { touches :=
          touches.mpr ⟨complete.header, complete.acked, complete.taken⟩
        passes := fun node _ passed =>
          passedOn_length cells buf len complete.header complete.acked node
            passed }

def UdtNode.admits (node : UdtNode) (remoteAddr addr : SockAddr)
    (connecting : Bool) : Bool :=
  connecting ||
    (node.waitDataAt remoteAddr addr (converted cells buf len) buf).1 ≠ -1

def UdtListener.handles (listener : UdtListener) (moment : Moment)
    (addr : SockAddr) : Option UdtNode :=
  if (cells buf).toNat / 16 = protocolUdt then
    (listener.dataHandleAt moment addr (converted cells buf len) buf).1
  else none

variable {cells buf len}

theorem untaken {touches taken : Prop} (never : ¬taken)
    (limits : touches ↔
      12 ≤ len ∧ ((untouched cells).ackAt buf = true → 16 ≤ len) ∧
        (False → 16 ≤ len)) :
    touches ↔
      12 ≤ len ∧ ((untouched cells).ackAt buf = true → 16 ≤ len) ∧
        (taken → 16 ≤ len) :=
  limits.trans (and_congr_right fun _ => and_congr_right fun _ =>
    ⟨fun _ taken => absurd taken never, fun _ => False.elim⟩)

theorem converted_looked : Looked cells buf len (converted cells buf len) where
  same := rfl
  within first last _ _ := Within.refl first last _

variable {memory : Memory}

theorem UdtNode.waitDataAt_looked (remoteAddr addr : SockAddr)
    (holds : Looked cells buf len memory) :
    Looked cells buf len
        (node.waitDataAt remoteAddr addr memory buf).2.2 ∧
      (node.waitDataAt remoteAddr addr memory buf).2.1.status =
        node.status := by
  have ported : Looked cells buf len (memory.loadLocalPort buf).2 :=
    holds.load (by omega) (by omega)
  have typed : Looked cells buf len (memory.loadType buf).2 :=
    holds.load (by omega) (by omega)
  unfold waitDataAt
  dsimp only
  split
  · exact ⟨holds, rfl⟩
  · split
    · split
      · exact ⟨ported, rfl⟩
      · exact ⟨ported, rfl⟩
    · split
      · exact ⟨typed, rfl⟩
      · exact ⟨typed, rfl⟩

theorem UdtNode.receiveAt_touches_iff (remoteAddr addr : SockAddr)
    (connecting : Bool)
    (passes : ((untouched cells).testChecksum buf len).1 = true) :
    (node.receiveAt remoteAddr addr connecting (untouched cells) buf
        len).2.2.Touches buf (buf + len) ↔
      12 ≤ len ∧ ((untouched cells).ackAt buf = true → 16 ≤ len) ∧
        (node.admits cells buf len remoteAddr addr connecting = true ∧
          TakesAck node ((untouched cells).typeAt buf) → 16 ≤ len) := by
  have read : (untouched cells).readPacket buf len =
      (len, converted cells buf len) := by
    rw [readPacket, if_pos passes]
    rfl
  unfold receiveAt
  rw [read]
  by_cases empty : len = 0
  · rw [if_pos empty]
    refine (looked_touches_iff converted_looked).trans ?_
    constructor
    · rintro ⟨header, -⟩
      omega
    · rintro ⟨header, -⟩
      omega
  · rw [if_neg empty]
    cases connecting with
    | true =>
      refine (handler_touches_iff node converted_looked).trans ?_
      exact and_congr_right fun _ => and_congr_right fun _ =>
        imp_congr_left (and_iff_right rfl).symm
    | false =>
      have begun : Looked cells buf len (converted cells buf len) :=
        converted_looked
      obtain ⟨looked, status⟩ := node.waitDataAt_looked remoteAddr addr begun
      by_cases refused : (node.waitDataAt remoteAddr addr
          (converted cells buf len) buf).1 = -1
      · rw [if_pos refused]
        refine untaken ?_ (looked_touches_iff looked)
        rintro ⟨admitted, -⟩
        simp [admits, refused] at admitted
      · have admitted : node.admits cells buf len remoteAddr addr false =
            true := by
          simp [admits, refused]
        have same : TakesAck
            (node.waitDataAt remoteAddr addr (converted cells buf len)
              buf).2.1 ((untouched cells).typeAt buf) ↔
              TakesAck node ((untouched cells).typeAt buf) := by
          unfold TakesAck
          rw [status]
        rw [if_neg refused]
        refine (handler_touches_iff _ looked).trans ?_
        exact and_congr_right fun _ => and_congr_right fun _ =>
          imp_congr_left (same.trans (and_iff_right admitted).symm)

theorem UdtListener.dataHandleAt_looked (moment : Moment) (addr : SockAddr)
    (holds : Looked cells buf len memory) :
    Looked cells buf len
        (listener.dataHandleAt moment addr memory buf).2 ∧
      (listener.dataHandleAt moment addr memory buf).1 =
        (listener.dataHandleAt moment addr (converted cells buf len)
          buf).1 := by
  have ported : Looked cells buf len (memory.loadLocalPort buf).2 :=
    holds.load (by omega) (by omega)
  have port : (memory.loadLocalPort buf).1 =
      ((converted cells buf len).loadLocalPort buf).1 := by
    obtain ⟨_, touched⟩ := memory
    cases holds.same
    rfl
  unfold dataHandleAt
  dsimp only
  rw [port]
  cases listener.lock ((converted cells buf len).loadLocalPort buf).1 with
  | none => exact ⟨ported, rfl⟩
  | some session =>
    dsimp only
    split
    · exact ⟨ported, rfl⟩
    · exact ⟨ported, rfl⟩

theorem UdtListener.handOver_touches_iff (moment : Moment) (addr : SockAddr)
    (holds : Looked cells buf len memory) :
    (listener.handOver moment addr memory buf len).Touches buf (buf + len) ↔
      12 ≤ len ∧ ((untouched cells).ackAt buf = true → 16 ≤ len) ∧
        ((∃ node, (listener.dataHandleAt moment addr (converted cells buf len)
            buf).1 = some node ∧
              TakesAck node ((untouched cells).typeAt buf)) → 16 ≤ len) := by
  obtain ⟨looked, same⟩ := listener.dataHandleAt_looked moment addr holds
  unfold handOver
  dsimp only
  rw [same]
  cases (listener.dataHandleAt moment addr (converted cells buf len) buf).1 with
  | none =>
    refine untaken ?_ (looked_touches_iff looked)
    rintro ⟨node, impossible, -⟩
    cases impossible
  | some node =>
    refine (handler_touches_iff node looked).trans ?_
    refine and_congr_right fun _ => and_congr_right fun _ =>
      imp_congr_left ?_
    constructor
    · intro takes
      exact ⟨node, rfl, takes⟩
    · rintro ⟨other, found, takes⟩
      cases found
      exact takes

theorem UdtListener.pumpAt_touches_iff (moment : Moment) (addr : SockAddr)
    (room : Bool) (holds : Looked cells buf len memory) :
    (listener.pumpAt moment addr room memory buf len).Touches buf
        (buf + len) ↔
      12 ≤ len ∧ ((untouched cells).ackAt buf = true → 16 ≤ len) ∧
        ((∃ node, (listener.dataHandleAt moment addr (converted cells buf len)
            buf).1 = some node ∧
              TakesAck node ((untouched cells).typeAt buf)) → 16 ≤ len) := by
  have ported : Looked cells buf len (memory.loadLocalPort buf).2 :=
    holds.load (by omega) (by omega)
  have typed : Looked cells buf len
      ((memory.loadLocalPort buf).2.loadType buf).2 :=
    ported.load (by omega) (by omega)
  have kind : ((memory.loadLocalPort buf).2.loadType buf).1 =
      (untouched cells).typeAt buf :=
    (UdtNode.loadType_eq _ _).trans ported.typeAt
  unfold pumpAt
  dsimp only
  rw [kind]
  by_cases connect : (untouched cells).typeAt buf = .syn
  · have never : ¬∃ node, (listener.dataHandleAt moment addr
        (converted cells buf len) buf).1 = some node ∧
          TakesAck node ((untouched cells).typeAt buf) := by
      rintro ⟨node, -, -, types⟩
      rw [connect] at types
      rcases types with impossible | impossible
      · cases impossible
      · cases impossible
    rw [if_pos connect]
    split
    · split
      · exact untaken never (syn_touches_iff _ typed)
      · exact untaken never (looked_touches_iff typed)
    · cases listener.lock (memory.loadLocalPort buf).1 with
      | none => exact listener.handOver_touches_iff moment addr typed
      | some session => exact untaken never (syn_touches_iff _ typed)
  · rw [if_neg connect]
    exact listener.handOver_touches_iff moment addr typed

theorem UdtListener.receiveAt_touches_iff (moment : Moment) (addr : SockAddr)
    (room : Bool) (passes : ((untouched cells).testChecksum buf len).1 = true) :
    (listener.receiveAt moment addr room (untouched cells) buf len).Touches buf
        (buf + len) ↔
      12 ≤ len ∧ ((untouched cells).ackAt buf = true → 16 ≤ len) ∧
        ((∃ node, listener.handles cells buf len moment addr = some node ∧
          TakesAck node ((untouched cells).typeAt buf)) → 16 ≤ len) := by
  have begun : Looked cells buf len (converted cells buf len) :=
    converted_looked
  have looked : Looked cells buf len ((converted cells buf len).load buf 1).2 :=
    begun.load (Int.le_refl _) (by omega)
  have first : byteAt ((converted cells buf len).load buf 1).1 0 =
      cells buf := by
    have front := swapHeader_cells
      ((untouched cells).testChecksum buf len).2 buf 0
    rw [mirror_of_outside _ (by omega), (testChecksum_eq _ _ _).2,
      storeHost_of_outside _ _ _ (by omega), Int.add_zero] at front
    rw [load_bytes, byteAt_bytes _ _ (by decide), Int.natCast_zero,
      Int.add_zero]
    exact front
  have read : (untouched cells).readDatagram buf len =
      if (cells buf).toNat / 16 = protocolUdt then
        (len, ((converted cells buf len).load buf 1).2)
      else (0, ((converted cells buf len).load buf 1).2) := by
    rw [← first, readDatagram, if_pos passes]
    rfl
  unfold receiveAt handles
  dsimp only
  rw [read]
  by_cases protocol : (cells buf).toNat / 16 = protocolUdt
  · rw [if_pos protocol, if_pos protocol]
    by_cases empty : len = 0
    · rw [if_pos empty]
      refine (looked_touches_iff looked).trans ?_
      constructor
      · rintro ⟨header, -⟩
        omega
      · rintro ⟨header, -⟩
        omega
    · rw [if_neg empty]
      exact listener.pumpAt_touches_iff moment addr room looked
  · rw [if_neg protocol, if_neg protocol, if_pos rfl]
    refine untaken ?_ (looked_touches_iff looked)
    rintro ⟨node, impossible, -⟩
    cases impossible

/-- Of every datagram that passes the checksum, on both ways into the handler
and in every state: only its bytes are used, and the payload passed on is its
length less the header, exactly when the packet is complete. -/
theorem received_keepsToPacket_iff
    (passes : ((untouched cells).testChecksum buf len).1 = true) :
    (∀ (node : UdtNode) (remoteAddr addr : SockAddr) (connecting : Bool),
      KeepsToPacket cells buf len
          (node.receiveAt remoteAddr addr connecting (untouched cells) buf
            len).2.2 ↔
        Complete cells buf len
          (node.admits cells buf len remoteAddr addr connecting = true ∧
            TakesAck node ((untouched cells).typeAt buf))) ∧
      ∀ (listener : UdtListener) (moment : Moment) (addr : SockAddr)
        (room : Bool),
        KeepsToPacket cells buf len
            (listener.receiveAt moment addr room (untouched cells) buf len) ↔
          Complete cells buf len
            (∃ node, listener.handles cells buf len moment addr = some node ∧
              TakesAck node ((untouched cells).typeAt buf)) := by
  constructor
  · intro node remoteAddr addr connecting
    exact keepsToPacket_iff cells buf len
      (node.receiveAt_touches_iff remoteAddr addr connecting passes)
  · intro listener moment addr room
    exact keepsToPacket_iff cells buf len
      (listener.receiveAt_touches_iff moment addr room passes)

end Paths

section Samples

open NetStat UdtNode

def flaggedPacket (flags high low : Byte) (address : Int) : Byte :=
  if address = 1 then flags
  else if address = 2 then high
  else if address = 3 then low
  else 0

def listeningClient : UdtNode :=
  { connectedUdt 0 7 [] with dataEntry := some fun _ => 0 }

/-- A data packet of twelve bytes, nothing but its header, is complete. -/
theorem received_keepsToPacket_header :
    ((untouched (flaggedPacket 0 255 255)).testChecksum 0 12).1 = true ∧
      KeepsToPacket (flaggedPacket 0 255 255) 0 12
        (listeningClient.receiveAt (.other 0) (.other 0) true
          (untouched (flaggedPacket 0 255 255)) 0 12).2.2 := by
  have passes : ((untouched (flaggedPacket 0 255 255)).testChecksum 0
      12).1 = true := by decide
  have complete := (received_keepsToPacket_iff passes).1 listeningClient
    (.other 0) (.other 0) true
  refine ⟨passes, complete.mpr ⟨by decide, ?_, ?_⟩⟩
  · intro flag
    exact absurd flag (by decide)
  · rintro ⟨-, -, types⟩
    exact absurd types (by decide)

/-- Three packets with a valid checksum: a data packet of four bytes, an
acknowledgement of twelve bytes without the flag, and an unreliable datagram of
four bytes, whose payload is 2^64 - 2 bytes long. -/
theorem received_leavesPacket :
    (((untouched (flaggedPacket 0 255 255)).testChecksum 0 4).1 = true ∧
        ¬KeepsToPacket (flaggedPacket 0 255 255) 0 4
          (listeningClient.receiveAt (.other 0) (.other 0) true
            (untouched (flaggedPacket 0 255 255)) 0 4).2.2) ∧
      (((untouched (flaggedPacket 3 252 255)).testChecksum 0 12).1 = true ∧
        ¬KeepsToPacket (flaggedPacket 3 252 255) 0 12
          (listeningClient.receiveAt (.other 0) (.other 0) true
            (untouched (flaggedPacket 3 252 255)) 0 12).2.2) ∧
      ((untouched (flaggedPacket 7 248 255)).testChecksum 0 4).1 = true ∧
        ∃ data, listeningClient.passedOn
            ((converted (flaggedPacket 7 248 255) 0 4).pocketAt 0 4) =
              some data ∧ data.length = 2 ^ 64 - 2 := by
  have data : ((untouched (flaggedPacket 0 255 255)).testChecksum 0 4).1 =
      true := by decide
  have ack : ((untouched (flaggedPacket 3 252 255)).testChecksum 0 12).1 =
      true := by decide
  refine ⟨⟨data, ?_⟩, ⟨ack, ?_⟩, by decide, ?_⟩
  · intro keeps
    have limits := (receiveAt_touches_iff listeningClient (.other 0) (.other 0)
      true data).mp keeps.touches
    exact absurd limits.1 (by decide)
  · intro keeps
    have limits := (receiveAt_touches_iff listeningClient (.other 0) (.other 0)
      true ack).mp keeps.touches
    exact absurd (limits.2.2 ⟨rfl, rfl, by decide⟩) (by decide)
  · have kind : (converted (flaggedPacket 7 248 255) 0 4).typeAt 0 = .dgram := by
      decide
    refine ⟨((converted (flaggedPacket 7 248 255) 0 4).pocketAt 0 4).data,
      ?_, ?_⟩
    · have shown : ((converted (flaggedPacket 7 248 255) 0 4).pocketAt 0
          4).udtType = .dgram := kind
      rfl
    · have wrapped : sizeSub 4 udpPacketHeadSize = 2 ^ 64 - 2 := by decide
      rw [pocketAt_datagram _ 0 kind, length_bytes, wrapped]

end Samples

end NdNet
