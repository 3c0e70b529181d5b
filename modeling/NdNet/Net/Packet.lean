import NdNet.Common.LineBuf

/-!
# Packets of the TCP protocol

A packet starts with the four bytes of `nd_packhdr_t`: the length of the whole
packet, the protocol version and a byte of flags.  Packets are kept here as the
bytes they occupy in memory, on a little-endian host; on the wire the length
field alone is in network order.
-/

namespace NdNet

def packetSize : Nat := 0x10000

def packetHdrSize : Nat := 4

/-- `_min_packet_len`, the size of `nd_usermsghdr_t`. -/
def minPacketLen : Nat := 6

def ndnetmsgVersion : Byte := 2

def ersvAliveId : Nat := 0xfb0e

def ersvVersionError : Nat := 0xfb0f

def byteAt (memory : List Byte) (offset : Nat) : Byte :=
  memory.getD offset 0

def hostU16 (memory : List Byte) (offset : Nat) : Nat :=
  (byteAt memory offset).toNat + 256 * (byteAt memory (offset + 1)).toNat

def hostBytes (value : Nat) : List Byte :=
  [UInt8.ofNat value, UInt8.ofNat (value / 256)]

/-- `nd_net_getpack_size`: the length field read in network order. -/
def getPackSize (memory : List Byte) : Nat :=
  256 * (byteAt memory 0).toNat + (byteAt memory 1).toNat

/-- `nd_packet_ntoh` and `nd_packet_hton`: swap the bytes of the length. -/
def packetSwap : List Byte → List Byte
  | first :: second :: rest => second :: first :: rest
  | memory => memory

/-- `nd_pack_len`, the length field of a packet in host order. -/
def packLen (memory : List Byte) : Nat :=
  hostU16 memory 0

/-- The flag `ndsys_msg`. -/
def ndsysMsg (memory : List Byte) : Bool :=
  (byteAt memory 3).toNat % 2 = 1

/-- The flag `encrypt`. -/
def isEncrypt (memory : List Byte) : Bool :=
  (byteAt memory 3).toNat / 2 % 2 = 1

/-- The flag `stuff`. -/
def isStuff (memory : List Byte) : Bool :=
  (byteAt memory 3).toNat / 4 % 2 = 1

/-- The field `stuff_len`. -/
def stuffLen (memory : List Byte) : Nat :=
  (byteAt memory 3).toNat / 8

/-- The sum of the 16-bit words, a last odd byte counted alone. -/
def sumWords : List Byte → Nat
  | low :: high :: rest => low.toNat + 256 * high.toNat + sumWords rest
  | [last] => last.toNat
  | [] => 0

def checksum (bytes : List Byte) : Nat :=
  let sum := sumWords bytes
  let sum := sum / 65536 + sum % 65536
  let sum := sum + sum / 65536
  65535 - sum % 65536

/-- `nd_make_alive_pack`, in host order: version, `ndsys_msg` with a
`stuff_len` of 5, the message id and the checksum. -/
def makeAlivePack : List Byte :=
  let header : List Byte := hostBytes 8 ++ [ndnetmsgVersion, 1 + 8 * 5]
  let unsummed := header ++ hostBytes ersvAliveId
  unsummed ++ hostBytes (checksum (unsummed ++ [0, 0]))

/-- A packet whose length field counts its bytes. -/
structure Framed (packet : List Byte) : Prop where
  counts : getPackSize packet = packet.length
  large : minPacketLen ≤ packet.length

/-- A packet the receiver can be sent: it is framed, and a system message has
room for the message id and the checksum that its handler reads. -/
structure Legal (packet : List Byte) : Prop extends Framed packet where
  system : ndsysMsg packet = true → 8 ≤ packet.length

/-- A well-formed unencrypted user packet. -/
structure UserPacket (packet : List Byte) : Prop extends Framed packet where
  user : ndsysMsg packet = false
  plain : isEncrypt packet = false

/-- A well-formed keep-alive packet: the checksum is taken over the packet in
host order with a zero in the place of the sum. -/
structure AlivePacket (packet : List Byte) : Prop extends Framed packet where
  size : packet.length = 8
  system : ndsysMsg packet = true
  stuffing : stuffLen packet = 5
  msgid : hostU16 packet 4 = ersvAliveId
  summed : hostU16 packet 6 =
    checksum (Store.overwrite (packetSwap packet) 6 (hostBytes 0))

theorem UserPacket.legal {packet : List Byte} (user : UserPacket packet) :
    Legal packet :=
  { user.toFramed with
    system := fun system => by
      rw [user.user] at system
      cases system }

theorem AlivePacket.legal {packet : List Byte} (alive : AlivePacket packet) :
    Legal packet :=
  { alive.toFramed with system := fun _ => Nat.le_of_eq alive.size.symm }

theorem hostU16_hostBytes_mod (value : Nat) (rest : List Byte) :
    hostU16 (hostBytes value ++ rest) 0 = value % 65536 := by
  have low : (UInt8.ofNat value).toNat = value % 256 := UInt8.toNat_ofNat'
  have high : (UInt8.ofNat (value / 256)).toNat = value / 256 % 256 :=
    UInt8.toNat_ofNat'
  change (UInt8.ofNat value).toNat + 256 * (UInt8.ofNat (value / 256)).toNat = _
  omega

variable (memory : List Byte)

section Layout

variable {packet : List Byte}

theorem byteAt_append_left {offset : Nat} (inside : offset < packet.length)
    (rest : List Byte) :
    byteAt (packet ++ rest) offset = byteAt packet offset := by
  simp [byteAt, List.getD_eq_getElem?_getD, List.getElem?_append_left inside]

theorem hostU16_append_left {offset : Nat} (below : offset + 1 < packet.length)
    (rest : List Byte) : hostU16 (packet ++ rest) offset = hostU16 packet offset := by
  rw [hostU16, hostU16, byteAt_append_left (by omega), byteAt_append_left below]

theorem byteAt_take {memory : List Byte} {offset count : Nat}
    (inside : offset < count) :
    byteAt (memory.take count) offset = byteAt memory offset := by
  simp [byteAt, List.getD_eq_getElem?_getD, inside]

theorem getPackSize_take {memory : List Byte} {count : Nat}
    (header : packetHdrSize ≤ count) :
    getPackSize (memory.take count) = getPackSize memory := by
  have header : 4 ≤ count := header
  rw [getPackSize, getPackSize, byteAt_take (by omega), byteAt_take (by omega)]

theorem getPackSize_lt : getPackSize memory < packetSize := by
  have first := (byteAt memory 0).toNat_lt
  have second := (byteAt memory 1).toNat_lt
  rw [getPackSize, packetSize]
  omega

theorem Framed.length_lt (framed : Framed packet) :
    packet.length < packetSize := by
  rw [← framed.counts]
  exact getPackSize_lt packet

@[simp] theorem length_packetSwap :
    (packetSwap memory).length = memory.length := by
  unfold packetSwap
  split <;> rfl

theorem packetSwap_append (front : List Byte) (header : 2 ≤ front.length)
    (rest : List Byte) :
    packetSwap (front ++ rest) = packetSwap front ++ rest := by
  match front, header with
  | _ :: _ :: _, _ => rfl

@[simp] theorem packetSwap_packetSwap :
    packetSwap (packetSwap memory) = memory := by
  match memory with
  | [] => rfl
  | [_] => rfl
  | _ :: _ :: _ => rfl

theorem packLen_packetSwap (header : 2 ≤ memory.length) :
    packLen (packetSwap memory) = getPackSize memory := by
  match memory, header with
  | first :: second :: rest, _ =>
    exact Nat.add_comm _ _

theorem byteAt_packetSwap {memory : List Byte} {offset : Nat}
    (behind : 2 ≤ offset) :
    byteAt (packetSwap memory) offset = byteAt memory offset := by
  match memory with
  | [] => rfl
  | [_] => rfl
  | _ :: _ :: _ =>
    obtain ⟨index, rfl⟩ := Nat.exists_eq_add_of_le' behind
    rfl

theorem isEncrypt_packetSwap :
    isEncrypt (packetSwap memory) = isEncrypt memory := by
  rw [isEncrypt, isEncrypt, byteAt_packetSwap (by omega)]

theorem byteAt_overwrite_of_lt {memory block : List Byte} {offset index : Nat}
    (before : index < offset) :
    byteAt (Store.overwrite memory offset block) index = byteAt memory index := by
  simp only [byteAt, List.getD_eq_getElem?_getD, Store.getElem?_overwrite]
  rw [if_neg (by omega)]

@[simp] theorem length_hostBytes (value : Nat) :
    (hostBytes value).length = 2 :=
  rfl

end Layout

theorem makeAlivePack_alive : AlivePacket (packetSwap makeAlivePack) :=
  { counts := by decide
    large := by decide
    size := by decide
    system := by decide
    stuffing := by decide
    msgid := by decide
    summed := by decide }

end NdNet
