import Mathlib.Tactic.IntervalCases
import Mathlib.Tactic.SplitIfs
import NdNet.Lib.Memory
import NdNet.Udt.Node

/-!
# UDT packets as bytes

`UdtNode` deals in pockets; here are the bytes of a pocket in memory, on a
little-endian host, and the code that brings them onto the wire and back:
`write_pocket_to_socket` and `read_packet_from_socket` with their conversions
and checksums.  All of it works in place, on a memory that notes which cells
are touched.
-/

namespace NdNet

abbrev Memory := Mem Byte

def protocolUdt : Nat := 1

/-- The field `ack` in the second byte of a header. -/
def ackFlag (flags : Byte) : Bool :=
  flags.toNat / 64 % 2 = 1

/-- The number of a type in the field `udt_type`. -/
def UdtMsgType.ofNibble : Nat → UdtMsgType
  | 0 => .data
  | 1 => .syn
  | 2 => .alive
  | 3 => .ack
  | 4 => .lost
  | 5 => .fin
  | 6 => .reset
  | 7 => .dgram
  | _ => .unknown

/-- The field `udt_type` in the second byte of a header. -/
def typeOf (flags : Byte) : UdtMsgType :=
  UdtMsgType.ofNibble (flags.toNat % 16)

namespace Mem

def storeHost (memory : Memory) (address : Int) (value : Nat) : Memory :=
  memory.store address (hostBytes value)

/-- The field `ack` of the pocket at an address. -/
def loadAck (memory : Memory) (pocket : Int) : Bool × Memory :=
  let flags := memory.load (pocket + 1) 1
  (ackFlag (byteAt flags.1 0), flags.2)

/-- `htons` or `htonl` of every field of a header, or back: the bytes of each
are reversed. -/
def swapHeader (memory : Memory) (pocket : Int) : Memory :=
  let fields := (((memory.reverse (pocket + 2) 2).reverse (pocket + 4) 2).reverse
    (pocket + 6) 2).reverse (pocket + 8) 4
  let ack := fields.loadAck pocket
  if ack.1 then ack.2.reverse (pocket + 12) 4 else ack.2

def udtHost2net (memory : Memory) (pocket : Int) : Memory :=
  memory.swapHeader pocket

def udtNet2host (memory : Memory) (pocket : Int) : Memory :=
  memory.swapHeader pocket

def setChecksum (memory : Memory) (data : Int) (size : Nat) : Memory :=
  let summed := (memory.storeHost (data + 2) 0).load data size
  (summed.2.storeHost (data + 2) (checksum summed.1)).reverse (data + 2) 2

def testChecksum (memory : Memory) (data : Int) (size : Nat) : Bool × Memory :=
  let carried := memory.load (data + 2) 2
  let summed := (carried.2.storeHost (data + 2) 0).load data size
  (decide (hostU16 carried.1.reverse 0 = checksum summed.1), summed.2)

def initUdtHeader (memory : Memory) (header : Int) : Memory :=
  memory.store header [UInt8.ofNat (16 * protocolUdt), 0, 0, 0]

/-- `init_udt_pocket`, which leaves `ack_seq` alone. -/
def initUdtPocket (memory : Memory) (pocket : Int) : Memory :=
  (((memory.initUdtHeader pocket).storeHost (pocket + 4) 0).storeHost
    (pocket + 6) 0).store (pocket + 8) [0, 0, 0, 0]

def setPocketAck (memory : Memory) (pocket : Int) (ack : Seq) : Memory :=
  let flags := memory.load (pocket + 1) 1
  (flags.2.store (pocket + 1) [byteAt flags.1 0 ||| 64]).store (pocket + 12)
    (hostSeq ack)

/-- `header.udt_type = ` of a type with this number. -/
def setType (memory : Memory) (header : Int) (nibble : Byte) : Memory :=
  let flags := memory.load (header + 1) 1
  flags.2.store (header + 1) [(byteAt flags.1 0 &&& 0xf0) ||| nibble]

/-- The fields that `write_pocket_to_socket` sets. -/
def setPortWindow (memory : Memory) (pocket : Int) (localPort : UInt16)
    (window : Nat) : Memory :=
  let ported := memory.storeHost (pocket + 4) localPort.toNat
  let flags := ported.load (pocket + 1) 1
  if typeOf (byteAt flags.1 0) = .dgram then flags.2
  else flags.2.storeHost (pocket + 6) window

/-- What `write_pocket_to_socket` hands to the socket, and the memory. -/
def toSocket (memory : Memory) (pocket : Int) (len : Nat)
    (localPort : UInt16) (window : Nat) : List Byte × Memory :=
  (((memory.setPortWindow pocket localPort window).udtHost2net
    pocket).setChecksum pocket len).load pocket len

/-- `write_pocket_to_socket`: the bytes handed to the socket, and the memory
behind the call. -/
def writePocket (memory : Memory) (pocket : Int) (len : Nat)
    (localPort : UInt16) (window : Nat) : List Byte × Memory :=
  let handed := memory.toSocket pocket len localPort window
  (handed.1, handed.2.udtNet2host pocket)

/-- `read_packet_from_socket` of a datagram that the socket has put into the
buffer: its length, or 0 when the checksum is wrong. -/
def readPacket (memory : Memory) (buf : Int) (len : Nat) : Nat × Memory :=
  let tested := memory.testChecksum buf len
  if tested.1 then (len, tested.2.udtNet2host buf) else (0, tested.2)

section Swap

variable (memory : Memory) (pocket : Int)

/-- The flag `ack` of the pocket at an address, without looking at it. -/
def ackAt : Bool := ackFlag (memory.cells (pocket + 1))

/-- Where a byte of a header comes from when the fields are reversed. -/
def mirror (ack : Bool) (offset : Int) : Int :=
  if 2 ≤ offset ∧ offset < 4 then 5 - offset
  else if 4 ≤ offset ∧ offset < 6 then 9 - offset
  else if 6 ≤ offset ∧ offset < 8 then 13 - offset
  else if 8 ≤ offset ∧ offset < 12 then 19 - offset
  else if ack = true ∧ 12 ≤ offset ∧ offset < 16 then 27 - offset
  else offset

theorem mirror_of_outside (ack : Bool) {offset : Int}
    (outside : offset < 2 ∨ 16 ≤ offset) : mirror ack offset = offset := by
  unfold mirror
  rw [if_neg (by omega), if_neg (by omega), if_neg (by omega),
    if_neg (by omega), if_neg (by omega)]

theorem mirror_mirror (ack : Bool) (offset : Int) :
    mirror ack (mirror ack offset) = offset := by
  by_cases outside : offset < 2 ∨ 16 ≤ offset
  · rw [mirror_of_outside ack outside, mirror_of_outside ack outside]
  · have lower : 2 ≤ offset := by omega
    have upper : offset < 16 := by omega
    interval_cases offset <;> cases ack <;> rfl

theorem mirror_two (ack : Bool) : mirror ack 2 = 3 := by
  cases ack <;> rfl

theorem mirror_three (ack : Bool) : mirror ack 3 = 2 := by
  cases ack <;> rfl

theorem loadAck_eq :
    (memory.loadAck pocket).1 = memory.ackAt pocket ∧
      (memory.loadAck pocket).2.cells = memory.cells := by
  refine ⟨?_, rfl⟩
  simp [loadAck, ackAt, byteAt, bytes]

theorem reverse_field (first : Int) (count : Nat) (offset : Int) :
    (memory.reverse (pocket + first) count).cells (pocket + offset) =
      memory.cells (pocket +
        if first ≤ offset ∧ offset < first + count then
          2 * first + count - 1 - offset
        else offset) := by
  rw [reverse_cells]
  congr 1
  split_ifs <;> omega

theorem swapHeader_cells (offset : Int) :
    (memory.swapHeader pocket).cells (pocket + offset) =
      memory.cells (pocket + mirror (memory.ackAt pocket) offset) := by
  have fields (target : Int) :
      ((((memory.reverse (pocket + 2) 2).reverse (pocket + 4) 2).reverse
        (pocket + 6) 2).reverse (pocket + 8) 4).cells (pocket + target) =
          memory.cells (pocket + mirror false target) := by
    simp only [reverse_field]
    congr 2
    by_cases outside : target < 2 ∨ 16 ≤ target
    · rw [mirror_of_outside false outside]
      split_ifs <;> omega
    · have lower : 2 ≤ target := by omega
      have upper : target < 16 := by omega
      interval_cases target <;> rfl
  have flag : ((((memory.reverse (pocket + 2) 2).reverse (pocket + 4) 2).reverse
      (pocket + 6) 2).reverse (pocket + 8) 4).ackAt pocket =
        memory.ackAt pocket := by
    unfold ackAt
    rw [fields, mirror_of_outside _ (by omega)]
  unfold swapHeader
  dsimp only
  rw [(loadAck_eq _ _).1, flag]
  cases memory.ackAt pocket with
  | false =>
    exact fields offset
  | true =>
    rw [if_pos rfl, reverse_field, (loadAck_eq _ _).2, fields]
    congr 2
    by_cases outside : offset < 2 ∨ 16 ≤ offset
    · rw [mirror_of_outside true outside, if_neg (by omega),
        mirror_of_outside false outside]
    · have lower : 2 ≤ offset := by omega
      have upper : offset < 16 := by omega
      interval_cases offset <;> rfl

theorem ackAt_swapHeader :
    (memory.swapHeader pocket).ackAt pocket = memory.ackAt pocket := by
  unfold ackAt
  rw [swapHeader_cells, mirror_of_outside _ (by omega)]

end Swap

section Fields

variable (memory : Memory) (address : Int) (value : Nat)

theorem storeHost_cells :
    (memory.storeHost address value).cells address = UInt8.ofNat value ∧
      (memory.storeHost address value).cells (address + 1) =
        UInt8.ofNat (value / 256) :=
  store_pair memory address _ _

theorem storeHost_of_outside {target : Int}
    (outside : target < address ∨ address + 2 ≤ target) :
    (memory.storeHost address value).cells target = memory.cells target :=
  store_cells_of_outside _ _ (by rw [length_hostBytes]; omega)

theorem byteAt_bytes {count index : Nat} (inside : index < count) :
    byteAt (memory.bytes address count) index =
      memory.cells (address + index) := by
  rw [byteAt, List.getD_eq_getElem?_getD, getElem?_bytes, if_pos inside]
  rfl

end Fields

theorem hostU16_hostBytes {value : Nat} (small : value < 65536) :
    hostU16 (hostBytes value) 0 = value :=
  (hostU16_hostBytes_mod value []).trans (Nat.mod_eq_of_lt small)

theorem checksum_lt (bytes : List Byte) : checksum bytes < 65536 := by
  unfold checksum
  dsimp only
  omega

section RoundTrip

variable (memory : Memory) (pocket : Int) (len : Nat)

/-- The sum that `_set_checksum` puts into a packet. -/
def packetSum : Nat :=
  checksum ((memory.storeHost (pocket + 2) 0).bytes pocket len)

theorem setChecksum_cells :
    (memory.setChecksum pocket len).cells =
      (memory.store (pocket + 2)
        (hostBytes (packetSum memory pocket len)).reverse).cells := by
  funext target
  unfold setChecksum
  dsimp only
  rw [load_bytes, ← packetSum, reverse_cells]
  have host := storeHost_cells ((memory.storeHost (pocket + 2) 0).load pocket
    len).2 (pocket + 2) (packetSum memory pocket len)
  have net := store_pair memory (pocket + 2)
    (UInt8.ofNat (packetSum memory pocket len / 256))
    (UInt8.ofNat (packetSum memory pocket len))
  by_cases inside : pocket + 2 ≤ target ∧ target < pocket + 2 + (2 : Nat)
  · rw [if_pos inside]
    rcases (show target = pocket + 2 ∨ target = pocket + 2 + 1 by omega) with
      rfl | rfl
    · rw [show 2 * (pocket + 2) + (2 : Nat) - 1 - (pocket + 2) =
        pocket + 2 + 1 by omega, host.2]
      exact net.1.symm
    · rw [show 2 * (pocket + 2) + (2 : Nat) - 1 - (pocket + 2 + 1) =
        pocket + 2 by omega, host.1]
      exact net.2.symm
  · have outside : target < pocket + 2 ∨ pocket + 2 + 2 ≤ target := by omega
    rw [if_neg inside, storeHost_of_outside _ _ _ outside, load_cells,
      storeHost_of_outside _ _ _ outside, store_cells_of_outside _ _ outside]

theorem testChecksum_eq :
    (memory.testChecksum pocket len).1 =
        decide (hostU16 (memory.bytes (pocket + 2) 2).reverse 0 =
          packetSum memory pocket len) ∧
      (memory.testChecksum pocket len).2.cells =
        (memory.storeHost (pocket + 2) 0).cells :=
  ⟨rfl, rfl⟩

/-- A change of the checksum between two reversals of the fields shows
reversed. -/
theorem swapHeader_checksum {block : List Byte} (sized : block.length = 2) :
    (((memory.swapHeader pocket).store (pocket + 2) block).swapHeader
      pocket).cells = (memory.store (pocket + 2) block.reverse).cells := by
  funext target
  obtain ⟨offset, rfl⟩ : ∃ offset : Int, target = pocket + offset :=
    ⟨target - pocket, by omega⟩
  have flag : ((memory.swapHeader pocket).store (pocket + 2) block).ackAt
      pocket = memory.ackAt pocket := by
    rw [← ackAt_swapHeader memory pocket]
    unfold ackAt
    rw [store_cells_of_outside _ _ (by omega)]
  rw [swapHeader_cells, flag]
  match block, sized with
  | [first, second], _ =>
    have swapped := store_pair (memory.swapHeader pocket) (pocket + 2) first
      second
    have stored := store_pair memory (pocket + 2) second first
    by_cases two : offset = 2
    · rw [two, mirror_two, show pocket + 3 = pocket + 2 + 1 by omega, swapped.2]
      exact stored.1.symm
    by_cases three : offset = 3
    · rw [three, mirror_three, swapped.1,
        show pocket + 3 = pocket + 2 + 1 by omega]
      exact stored.2.symm
    have back := mirror_mirror (memory.ackAt pocket) offset
    have notTwo : mirror (memory.ackAt pocket) offset ≠ 2 := by
      intro same
      rw [same, mirror_two] at back
      exact three back.symm
    have notThree : mirror (memory.ackAt pocket) offset ≠ 3 := by
      intro same
      rw [same, mirror_three] at back
      exact two back.symm
    rw [store_cells_of_outside _ _ (by simp only [List.length]; omega),
      swapHeader_cells, back,
      store_cells_of_outside _ _ (by simp; omega)]

theorem swapHeader_congr {memory other : Memory}
    (same : memory.cells = other.cells) :
    (memory.swapHeader pocket).cells = (other.swapHeader pocket).cells := by
  funext target
  obtain ⟨offset, rfl⟩ : ∃ offset : Int, target = pocket + offset :=
    ⟨target - pocket, by omega⟩
  rw [swapHeader_cells, swapHeader_cells, ackAt, ackAt, same]

/-- `ndt_header_size` of the pocket at an address. -/
def headerSizeAt : Nat :=
  if memory.ackAt pocket then 16 else 12

theorem mirror_lt {len : Nat} (header : memory.headerSizeAt pocket ≤ len)
    {index : Nat} (inside : index < len) :
    ∃ other : Nat, mirror (memory.ackAt pocket) index = other ∧
      other < len := by
  unfold headerSizeAt at header
  refine ⟨(mirror (memory.ackAt pocket) index).toNat, ?_⟩
  unfold mirror
  cases flag : memory.ackAt pocket with
  | false =>
    rw [flag] at header
    simp only [Bool.false_eq_true, if_false, false_and] at header ⊢
    split_ifs <;> omega
  | true =>
    rw [flag] at header
    simp only [if_true, true_and] at header ⊢
    split_ifs <;> omega

theorem swapHeader_bytes {memory other : Memory} {pocket target : Int}
    {len : Nat} (same : memory.bytes pocket len = other.bytes target len)
    (header : memory.headerSizeAt pocket ≤ len) :
    (memory.swapHeader pocket).bytes pocket len =
      (other.swapHeader target).bytes target len := by
  have long : 12 ≤ memory.headerSizeAt pocket := by
    unfold headerSizeAt
    split <;> decide
  have cell (index : Nat) (inside : index < len) :
      memory.cells (pocket + index) = other.cells (target + index) := by
    rw [← byteAt_bytes _ _ inside, same, byteAt_bytes _ _ inside]
  have flag : memory.ackAt pocket = other.ackAt target :=
    congrArg ackFlag (cell 1 (by omega))
  apply bytes_congr
  intro index inside
  obtain ⟨source, place, bound⟩ := mirror_lt memory pocket header inside
  rw [swapHeader_cells, swapHeader_cells, ← flag, place]
  exact cell source bound

end RoundTrip

section Footprint

variable {first last : Int} {pocket : Int} {len : Nat}

theorem within_storeHost {address : Int} (lower : first ≤ address)
    (upper : address + 2 ≤ last) (memory : Memory) (value : Nat) :
    Within first last memory (memory.storeHost address value) :=
  within_store lower upper memory

section

variable (lower : first ≤ pocket)
include lower

theorem within_loadAck (upper : pocket + 12 ≤ last) (memory : Memory) :
    Within first last memory (memory.loadAck pocket).2 :=
  within_load (by omega) (by omega) memory

/-- The field `ack_seq` is reversed only when the pocket has it. -/
theorem within_swapHeader (upper : pocket + 12 ≤ last) (memory : Memory)
    (acked : memory.ackAt pocket = true → pocket + 16 ≤ last) :
    Within first last memory (memory.swapHeader pocket) := by
  have fields : Within first last memory
      ((((memory.reverse (pocket + 2) 2).reverse (pocket + 4) 2).reverse
        (pocket + 6) 2).reverse (pocket + 8) 4) :=
    (((within_reverse (by omega) (by omega) _).trans
      (within_reverse (by omega) (by omega) _)).trans
        (within_reverse (by omega) (by omega) _)).trans
          (within_reverse (by omega) (by omega) _)
  have flag : ((((memory.reverse (pocket + 2) 2).reverse (pocket + 4) 2).reverse
      (pocket + 6) 2).reverse (pocket + 8) 4).ackAt pocket =
        memory.ackAt pocket := by
    unfold ackAt
    rw [reverse_cells, if_neg (by omega), reverse_cells, if_neg (by omega),
      reverse_cells, if_neg (by omega), reverse_cells, if_neg (by omega)]
  unfold swapHeader
  dsimp only
  rw [(loadAck_eq _ _).1, flag]
  have looked := fields.trans (within_loadAck (by omega) (by omega) _)
  cases carried : memory.ackAt pocket with
  | false =>
    exact looked
  | true =>
    have room := acked carried
    rw [if_pos rfl]
    exact looked.trans (within_reverse (by omega) (by omega) _)

theorem within_setChecksum (header : pocket + 4 ≤ last)
    (upper : pocket + len ≤ last) (memory : Memory) :
    Within first last memory (memory.setChecksum pocket len) :=
  (((within_storeHost (by omega) (by omega) _ _).trans
    (within_load lower upper _)).trans
      (within_storeHost (by omega) (by omega) _ _)).trans
        (within_reverse (by omega) (by omega) _)

theorem within_testChecksum (header : pocket + 4 ≤ last)
    (upper : pocket + len ≤ last) (memory : Memory) :
    Within first last memory (memory.testChecksum pocket len).2 :=
  ((within_load (by omega) (by omega) _).trans
    (within_storeHost (by omega) (by omega) _ _)).trans
      (within_load lower upper _)

theorem within_setPortWindow (upper : pocket + 8 ≤ last) (memory : Memory)
    (localPort : UInt16) (window : Nat) :
    Within first last memory
      (memory.setPortWindow pocket localPort window) := by
  have ported : Within first last memory
      (memory.storeHost (pocket + 4) localPort.toNat) :=
    within_storeHost (by omega) (by omega) memory localPort.toNat
  have flags : Within first last
      (memory.storeHost (pocket + 4) localPort.toNat)
      ((memory.storeHost (pocket + 4) localPort.toNat).load (pocket + 1) 1).2 :=
    within_load (by omega) (by omega) _
  have looked := ported.trans flags
  unfold setPortWindow
  dsimp only
  split
  · exact looked
  · exact looked.trans (within_storeHost (by omega) (by omega) _ _)

end

theorem ackAt_setPortWindow (memory : Memory) (pocket : Int)
    (localPort : UInt16) (window : Nat) :
    (memory.setPortWindow pocket localPort window).ackAt pocket =
      memory.ackAt pocket := by
  unfold ackAt setPortWindow
  dsimp only
  split
  · rw [load_cells, storeHost_of_outside _ _ _ (by omega)]
  · rw [storeHost_of_outside _ _ _ (by omega), load_cells,
      storeHost_of_outside _ _ _ (by omega)]

theorem ackAt_setChecksum (memory : Memory) :
    (memory.setChecksum pocket len).ackAt pocket = memory.ackAt pocket := by
  rw [ackAt, setChecksum_cells, store_cells_of_outside _ _ (by omega), ackAt]

theorem within_writePocket (lower : first ≤ pocket)
    (header : pocket + 12 ≤ last) (upper : pocket + len ≤ last)
    (memory : Memory) (acked : memory.ackAt pocket = true → pocket + 16 ≤ last)
    (localPort : UInt16) (window : Nat) :
    Within first last memory
      (memory.writePocket pocket len localPort window).2 := by
  have ported := ackAt_setPortWindow memory pocket localPort window
  have handed : ((((memory.setPortWindow pocket localPort window).udtHost2net
      pocket).setChecksum pocket len).load pocket len).2.ackAt pocket =
        memory.ackAt pocket :=
    (ackAt_setChecksum _).trans ((ackAt_swapHeader _ _).trans ported)
  exact ((((within_setPortWindow lower (by omega) memory localPort window).trans
    (within_swapHeader lower header _ fun flag =>
      acked (ported.symm.trans flag))).trans
      (within_setChecksum lower (by omega) upper _)).trans
        (within_load lower upper _)).trans
          (within_swapHeader lower header _ fun flag =>
            acked (handed.symm.trans flag))

end Footprint

end Mem

end NdNet
