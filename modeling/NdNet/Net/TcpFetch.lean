import NdNet.Net.SysPacket
import NdNet.Net.Decrypt

/-!
# The messages that are fetched

What `__net_fetch_msg` returns for any content of the receive buffer: what it
has taken out of it, and how long the message says it is.  A system packet that
is accepted has its checksum where the handler puts it, so that only the bytes
of its length are turned around in place, and what lies behind it stays.  The
length of a decrypted packet is what the stuffing leaves of it, and that is
compared with zero only.
-/

namespace NdNet.TcpNode

open LineBuf Store List

/-- The length field of a message that was fetched; a user-defined packet is
handed out as it has arrived. -/
def messageLen (node : TcpNode) (msg : List Byte) : Nat :=
  if node.userDefinePacket then getPackSize msg else packLen msg

def SystemsOnly (systems : List (List Byte)) : Prop :=
  ∀ packet ∈ systems, Framed packet ∧ ndsysMsg packet = true

/-- A fetch from a buffer that holds `queue`.  A message says how long it is,
which is no less than the minimum and no more than the packet has on the wire,
and that packet has been removed behind complete system packets; without a
message nothing but complete system packets has been removed. -/
structure FetchedWell (node : TcpNode) (queue : List Byte)
    (fetched : Int × List Byte × TcpNode) : Prop where
  message : 0 < fetched.1 → ∃ (systems : List (List Byte))
    (packet rest : List Byte),
      queue = systems.flatten ++ (packet ++ rest) ∧ SystemsOnly systems ∧
      Framed packet ∧ fetched.2.2.recvBuffer.Represents rest ∧
      (node.messageLen fetched.2.1 : Int) = fetched.1 ∧
      (minPacketLen : Int) ≤ fetched.1 ∧ fetched.1 ≤ packet.length
  lack : fetched.1 = 0 → ∃ (systems : List (List Byte)) (rest : List Byte),
    queue = systems.flatten ++ rest ∧ SystemsOnly systems ∧
      fetched.2.2.recvBuffer.Represents rest

def decrypted (decrypt : List Byte → Int × List Byte) (packet : List Byte) :
    Int × List Byte :=
  decrypt (packet.drop packetHdrSize)

/-- The packet is decrypted, and its stuffing, of which the header and the last
byte say the same, leaves less than the minimum of it. -/
structure StuffedAway (crypt : NetCrypt) (packet : List Byte) : Prop where
  encrypted : isEncrypt packet = true
  fits : packet.length + crypt.unitLen ≤ packetSize
  opens : ∃ decrypt, crypt.decrypt = some decrypt ∧
    (decrypted decrypt packet).1 = (packet.length : Int) - packetHdrSize ∧
    (byteAt (overwrite packet packetHdrSize (decrypted decrypt packet).2)
      (packet.length - 1)).toNat = stuffLen packet
  stuffed : isStuff packet = true
  short : stuffLen packet < packet.length ∧
    packet.length < stuffLen packet + minPacketLen

/-- The packet a fetch comes to, behind system packets that are accepted, and
the node with it in front. -/
inductive Fetches : TcpNode → List Byte → TcpNode → Prop where
  | here {node : TcpNode} {packet rest : List Byte}
      (holds : node.recvBuffer.Represents (packet ++ rest))
      (framed : Framed packet) (user : ndsysMsg packet = false) :
      Fetches node packet node
  | behind {node last : TcpNode} {system packet rest : List Byte}
      (holds : node.recvBuffer.Represents (system ++ rest))
      (framed : Framed system) (flag : ndsysMsg system = true)
      (accepted : node.sysmsgHander.1 ≠ -1)
      (later : Fetches
        { node.sysmsgHander.2 with
          recvBuffer := node.sysmsgHander.2.recvBuffer.subData system.length }
        packet last) :
      Fetches node packet last

section Accepted

variable {node : TcpNode} {packet rest : List Byte}

theorem getElem?_packetSwap {memory : List Byte} {index : Nat}
    (behind : 2 ≤ index) : (packetSwap memory)[index]? = memory[index]? := by
  match memory with
  | [] => rfl
  | [_] => rfl
  | _ :: _ :: _ =>
    obtain ⟨further, rfl⟩ := Nat.exists_eq_add_of_le' behind
    rfl

theorem getElem?_resum {pack : List Byte} (sum : hostU16 pack 6 = (resum pack).1)
    {index : Nat} (behind : 2 ≤ index) :
    (resum pack).2[index]? = pack[index]? := by
  have bytes : hostBytes (resum pack).1 = [byteAt pack 6, byteAt pack 7] := by
    rw [← sum]
    exact hostBytes_hostU16 (byteAt pack 6) (byteAt pack 7) []
  have zeros : hostBytes 0 = [0, 0] := rfl
  change (overwrite (overwrite (packetSwap pack) 6 (hostBytes 0)) 6
    (hostBytes (resum pack).1))[index]? = _
  have two (first second : Byte) : [first, second].length = 2 := rfl
  rw [bytes, zeros, getElem?_overwrite, getElem?_overwrite, length_overwrite,
    getElem?_packetSwap behind, two, two]
  have size : (packetSwap pack).length = pack.length := by
    match pack with
    | [] => rfl
    | [_] => rfl
    | _ :: _ :: _ => rfl
  rw [size]
  by_cases inside : index < pack.length ∧ 6 ≤ index ∧ index < 6 + 2
  · rw [if_pos inside]
    have cell (place : Nat) (within : place < pack.length) :
        pack[place]? = some (byteAt pack place) := by
      rw [byteAt, getD_eq_getElem?_getD, getElem?_eq_getElem within]
      rfl
    rw [cell index inside.1]
    obtain rfl | rfl : index = 6 ∨ index = 7 := by omega
    · rfl
    · rfl
  · rw [if_neg inside, if_neg inside]

/-- An accepted system packet is rewritten in the bytes of its length only. -/
theorem sysmsgHander_accepted (accepted : node.sysmsgHander.1 ≠ -1) :
    node.sysmsgHander.2.receiver =
      (node.rewriteStream ((resum node.recvStream).2.take 2)).receiver := by
  have sum : hostU16 node.recvStream 6 = (resum node.recvStream).1 := by
    by_contra other
    apply accepted
    exact congrArg Prod.fst (if_pos other)
  have same : overwrite node.recvBuffer.storage node.recvBuffer.startOff
      ((resum node.recvStream).2.take 8) =
        overwrite node.recvBuffer.storage node.recvBuffer.startOff
          ((resum node.recvStream).2.take 2) := by
    have front : ((resum node.recvStream).2.take 8).take 2 =
        (resum node.recvStream).2.take 2 := by
      rw [take_take]
      rfl
    rw [← front]
    apply overwrite_take
    intro index behind short bounded
    rw [length_take] at short
    rw [getElem?_take_of_lt (by omega), getElem?_resum sum behind,
      recvStream, getElem?_slice, if_pos bounded]
  rw [sysmsgHander_receiver]
  unfold rewriteStream
  rw [same]

theorem accepted_receiver (holds : node.recvBuffer.Represents (packet ++ rest))
    (framed : Framed packet) (accepted : node.sysmsgHander.1 ≠ -1) :
    (node.sysmsgHander.2.recvBuffer.subData packet.length).Represents rest ∧
      node.sysmsgHander.2.userDefinePacket = node.userDefinePacket ∧
      node.sysmsgHander.2.crypt = node.crypt := by
  have rewritten := sysmsgHander_accepted accepted
  have buffer : node.sysmsgHander.2.recvBuffer =
      (node.rewriteStream ((resum node.recvStream).2.take 2)).recvBuffer :=
    congrArg Receiver.recvBuffer rewritten
  have standard := congrArg Receiver.userDefinePacket rewritten
  have crypt := congrArg Receiver.crypt rewritten
  refine ⟨?_, standard, crypt⟩
  have large : 6 ≤ packet.length := framed.large
  have short : ((resum node.recvStream).2.take 2).length ≤ packet.length := by
    rw [length_take]
    omega
  have changed := subData_represents (rewriteStream_represents holds short)
    packet.length
  rw [append_assoc, ← append_assoc, drop_left' (by
    rw [length_append, length_drop]
    omega)] at changed
  rw [buffer]
  exact changed

end Accepted

section Opened

variable {node : TcpNode} {packet : List Byte}

theorem clearedFlags (flags : Byte) :
    (flags &&& 0xfd).toNat / 4 = flags.toNat / 4 := by
  have small := flags.toNat_lt
  have mask : (UInt8.toNat 0xfd) >>> 2 = 2 ^ 6 - 1 := rfl
  rw [UInt8.toNat_and, show (4 : Nat) = 2 ^ 2 from rfl,
    ← Nat.shiftRight_eq_div_pow, Nat.shiftRight_and_distrib, mask,
    Nat.and_two_pow_sub_one_eq_mod, Nat.shiftRight_eq_div_pow]
  omega

theorem signed_eq_iff {last : Byte} {count : Nat} (small : count < 128) :
    (count : Int) = last.toInt8.toInt ↔ last.toNat = count := by
  have number : (UInt8.ofNat count).toInt8.toInt = count :=
    Int8.toInt_ofNat_of_lt (by omega)
  constructor
  · intro same
    have equal := Int8.toInt.inj (same.symm.trans number.symm)
    have byte : last = UInt8.ofNat count := congrArg Int8.toUInt8 equal
    rw [byte, UInt8.toNat_ofNat', Nat.mod_eq_of_lt (by omega)]
  · intro same
    rw [← number, ← same, UInt8.ofNat_toNat]

def unmarked (packet data : List Byte) : List Byte :=
  overwrite (overwrite (packetSwap packet) packetHdrSize data) 3
    [byteAt (packetSwap packet) 3 &&& 0xfd]

variable (framed : Framed packet)
include framed

theorem unmarked_fields (data : List Byte) :
    (unmarked packet data).length = packet.length ∧
      packLen (unmarked packet data) = packet.length ∧
      isStuff (unmarked packet data) = isStuff packet ∧
      stuffLen (unmarked packet data) = stuffLen packet ∧
      byteAt (unmarked packet data) (packet.length - 1) =
        byteAt (overwrite packet packetHdrSize data) (packet.length - 1) := by
  have large : 6 ≤ packet.length := framed.large
  have header : packetHdrSize = 4 := rfl
  have size : (unmarked packet data).length = packet.length := by
    rw [unmarked, length_overwrite, length_overwrite, length_packetSwap]
  have flags : byteAt (unmarked packet data) 3 = byteAt packet 3 &&& 0xfd := by
    rw [byteAt, getD_eq_getElem?_getD, unmarked, getElem?_overwrite,
      length_overwrite, length_packetSwap, byteAt_packetSwap (by omega),
      if_pos ⟨by omega, Nat.le_refl _, by simp⟩]
    rfl
  have cleared := clearedFlags (byteAt packet 3)
  refine ⟨size, ?_, ?_, ?_, ?_⟩
  · have short : packLen (unmarked packet data) = packLen (packetSwap packet) := by
      rw [packLen, packLen, hostU16, hostU16, unmarked,
        byteAt_overwrite_of_lt (by omega), byteAt_overwrite_of_lt (by omega),
        byteAt_overwrite_of_lt (by omega), byteAt_overwrite_of_lt (by omega)]
    rw [short, packLen_packetSwap packet (by omega), framed.counts]
  · rw [isStuff, isStuff, flags, cleared]
  · have half : ∀ n : Nat, n / 8 = n / 4 / 2 := by omega
    rw [stuffLen, stuffLen, flags, half, cleared, ← half]
  · have one (cell : Byte) : [cell].length = 1 := rfl
    have expose (memory : List Byte) (offset : Nat) :
        byteAt memory offset = memory[offset]?.getD 0 :=
      getD_eq_getElem?_getD
    rw [expose, expose (overwrite packet packetHdrSize data), unmarked,
      getElem?_overwrite, one, if_neg (by omega), getElem?_overwrite,
      getElem?_overwrite, length_packetSwap, getElem?_packetSwap (by omega)]

theorem minPacketLen_le :
    (minPacketLen : Int) ≤ packet.length :=
  Int.ofNat_le.mpr framed.large

theorem packetDecrypt_left (encrypted : isEncrypt packet = true) :
    (node.packetDecrypt (packetSwap packet)).1 ≤ 0 ∧
        ¬ StuffedAway node.crypt packet ∨
      0 < (node.packetDecrypt (packetSwap packet)).1 ∧
        (node.packetDecrypt (packetSwap packet)).2.length = packet.length ∧
        (node.packetDecrypt (packetSwap packet)).1 ≤ packet.length ∧
        ((minPacketLen : Int) ≤ (node.packetDecrypt (packetSwap packet)).1 ↔
          ¬ StuffedAway node.crypt packet) := by
  have large : 6 ≤ packet.length := framed.large
  have positive : (0 : Int) < packet.length := by omega
  have header : packetHdrSize = 4 := rfl
  have counts : packLen (packetSwap packet) = packet.length := by
    rw [packLen_packetSwap packet (by omega), framed.counts]
  have payload : ((packetSwap packet).drop packetHdrSize).take
      ((packet.length : Int) - packetHdrSize).toNat =
        packet.drop packetHdrSize := by
    have swapped : (packetSwap packet).drop packetHdrSize =
        packet.drop packetHdrSize := by
      match packet, large with
      | _ :: _ :: _ :: _ :: _, _ => rfl
    rw [swapped, take_of_length_le]
    rw [length_drop]
    omega
  unfold packetDecrypt
  rw [counts]
  by_cases unfit : (packet.length : Int) - packetHdrSize ≤ 0 ∨
      ((packetSize - packetHdrSize : Nat) : Int) - node.crypt.unitLen <
        (packet.length : Int) - packetHdrSize
  · rw [if_pos unfit]
    refine .inl ⟨Int.le_refl _, fun away => ?_⟩
    have fits := away.fits
    omega
  rw [if_neg unfit]
  cases cipher : node.crypt.decrypt with
  | none =>
    refine .inr ⟨positive, length_packetSwap packet, Int.le_refl _,
      iff_of_true (minPacketLen_le framed) fun away => ?_⟩
    obtain ⟨decrypt, given, -⟩ := away.opens
    rw [cipher] at given
    cases given
  | some decrypt =>
    dsimp only
    rw [payload]
    obtain ⟨size, length, stuff, stuffing, last⟩ :=
      unmarked_fields framed (decrypt (packet.drop packetHdrSize)).2
    have opens (away : StuffedAway node.crypt packet) :
        (decrypt (packet.drop packetHdrSize)).1 =
            (packet.length : Int) - packetHdrSize ∧
          (byteAt (overwrite packet packetHdrSize
            (decrypt (packet.drop packetHdrSize)).2)
              (packet.length - 1)).toNat = stuffLen packet := by
      obtain ⟨other, given, opens⟩ := away.opens
      obtain rfl : decrypt = other := Option.some.inj (cipher.symm.trans given)
      exact opens
    by_cases failed : (decrypt (packet.drop packetHdrSize)).1 ≤ 0 ∨
        (decrypt (packet.drop packetHdrSize)).1 ≠
          (packet.length : Int) - packetHdrSize
    · rw [if_pos failed]
      refine .inl ⟨(by decide : (-1 : Int) ≤ 0), fun away => ?_⟩
      have whole := (opens away).1
      omega
    have whole : (decrypt (packet.drop packetHdrSize)).1 =
        (packet.length : Int) - packetHdrSize := by
      by_contra other
      exact failed (.inr other)
    have opened : overwrite (overwrite (packetSwap packet) packetHdrSize
        (decrypt (packet.drop packetHdrSize)).2) 3
          [byteAt (packetSwap packet) 3 &&& 0xfd] =
        unmarked packet (decrypt (packet.drop packetHdrSize)).2 := rfl
    rw [if_neg failed, opened, stuff, stuffing, length, last]
    have few : stuffLen packet < 128 := by
      have byte := (byteAt packet 3).toNat_lt
      rw [stuffLen]
      omega
    have final := @signed_eq_iff (byteAt (overwrite packet packetHdrSize
      (decrypt (packet.drop packetHdrSize)).2) (packet.length - 1)) _ few
    by_cases stuffed : isStuff packet = true
    · rw [if_pos stuffed]
      by_cases same : (stuffLen packet : Int) = (byteAt (overwrite packet
          packetHdrSize (decrypt (packet.drop packetHdrSize)).2)
            (packet.length - 1)).toInt8.toInt
      · rw [if_neg (not_not_intro same), ← same]
        by_cases some : (stuffLen packet : Int) < packet.length
        · rw [if_pos some]
          refine .inr ⟨Int.sub_pos_of_lt some, size,
            Int.sub_le_self _ (Int.natCast_nonneg _), ?_⟩
          constructor
          · intro enough away
            have short := away.short.2
            omega
          · intro kept
            by_contra tooShort
            exact kept ⟨encrypted, by omega,
              ⟨decrypt, cipher, whole, final.mp same⟩, stuffed,
              by omega, by omega⟩
        · rw [if_neg some]
          refine .inl ⟨Int.le_refl _, fun away => some ?_⟩
          exact Int.ofNat_lt.mpr away.short.1
      · rw [if_pos same]
        exact .inl ⟨Int.le_refl _,
          fun away => same (final.mpr (opens away).2)⟩
    · rw [if_neg stuffed]
      exact .inr ⟨positive, size, Int.le_refl _,
        iff_of_true (minPacketLen_le framed)
          fun away => stuffed away.stuffed⟩

/-- What is said of a packet that was read out: it is refused, or its length is
what is returned for it, no more than the packet had. -/
theorem openPacket_length :
    (node.openPacket packet).1 = -1 ∧ ¬ StuffedAway node.crypt packet ∨
      0 < (node.openPacket packet).1 ∧
        (packLen (node.openPacket packet).2.1 : Int) =
          (node.openPacket packet).1 ∧
        (node.openPacket packet).1 ≤ packet.length ∧
        ((minPacketLen : Int) ≤ (node.openPacket packet).1 ↔
          ¬ StuffedAway node.crypt packet) := by
  have large : 6 ≤ packet.length := framed.large
  have small := framed.length_lt
  have limit : packetSize = 65536 := rfl
  have result := packetDecrypt_result node (packetSwap packet)
  unfold openPacket
  dsimp only
  rw [isEncrypt_packetSwap]
  by_cases encrypted : isEncrypt packet = true
  · rw [if_pos encrypted]
    rcases @packetDecrypt_left node packet framed encrypted with
      ⟨refused, kept⟩ | ⟨positive, size, less, enough⟩
    · refine .inl ⟨?_, kept⟩
      by_cases none : (node.packetDecrypt (packetSwap packet)).1 = 0
      · rw [if_pos none]
      · rw [if_neg none]
        dsimp only
        omega
    · rw [if_neg (by omega)]
      refine .inr ⟨positive, ?_, less, enough⟩
      have bound : ((node.packetDecrypt (packetSwap packet)).1 % 65536).toNat =
          (node.packetDecrypt (packetSwap packet)).1.toNat := by
        rw [Int.emod_eq_of_lt (by omega) (by omega)]
      dsimp only
      rw [bound, packLen, overwrite_eq_append (by
        rw [length_hostBytes]
        omega), take_zero, nil_append, hostU16_hostBytes_mod,
        Nat.mod_eq_of_lt (by omega)]
      omega
  · rw [if_neg encrypted]
    refine .inr ⟨(by omega : (0 : Int) < packet.length), ?_, Int.le_refl _,
      iff_of_true (minPacketLen_le framed) fun away => encrypted away.encrypted⟩
    exact congrArg Nat.cast
      ((packLen_packetSwap packet (by omega)).trans framed.counts)

end Opened

variable {fetched : Int × List Byte × TcpNode}

section Fetched

variable {node last : TcpNode} {packet queue : List Byte} {rounds : Nat}

theorem fetchedWell_failed
    (failed : fetched.1 = -1) : FetchedWell node queue fetched where
  message := fun positive => absurd positive (by omega)
  lack := fun none => absurd none (by omega)

theorem fetchedWell_nothing (none : fetched.1 = 0)
    (holds : fetched.2.2.recvBuffer.Represents queue) :
    FetchedWell node queue fetched where
  message := fun positive => absurd positive (by omega)
  lack := fun _ => ⟨[], queue, rfl, forall_mem_nil _, holds⟩

theorem FetchedWell.behind {other : TcpNode} {system rest : List Byte}
    {fetched : Int × List Byte × TcpNode}
    (well : FetchedWell other rest fetched) (framed : Framed system)
    (flag : ndsysMsg system = true)
    (same : other.userDefinePacket = node.userDefinePacket) :
    FetchedWell node (system ++ rest) fetched where
  message := by
    intro positive
    obtain ⟨systems, packet, behind, split, only, further⟩ :=
      well.message positive
    refine ⟨system :: systems, packet, behind, ?_,
      forall_mem_cons.mpr ⟨⟨framed, flag⟩, only⟩, ?_⟩
    · rw [split, flatten_cons, append_assoc]
    · have length : node.messageLen = other.messageLen := by
        funext msg
        rw [messageLen, messageLen, same]
      rw [length]
      exact further
  lack := by
    intro none
    obtain ⟨systems, behind, split, only, holds⟩ := well.lack none
    refine ⟨system :: systems, behind, ?_,
      forall_mem_cons.mpr ⟨⟨framed, flag⟩, only⟩, holds⟩
    rw [split, flatten_cons, append_assoc]

theorem refetch_nothing (holds : node.recvBuffer.Represents queue)
    (unframed : ∀ packet rest, queue = packet ++ rest → ¬ Framed packet)
    (rounds : Nat) : FetchedWell node queue (node.refetch (rounds + 1)) := by
  have queued := holds.queue_length
  unfold refetch
  dsimp only
  by_cases header : node.recvBuffer.datalen < packetHdrSize
  · rw [if_pos header]
    exact fetchedWell_nothing rfl holds
  rw [if_neg header]
  by_cases refused : packetSize < getPackSize node.recvStream ∨
      getPackSize node.recvStream < minPacketLen
  · rw [if_pos refused]
    exact fetchedWell_failed rfl
  rw [if_neg refused, if_pos]
  · exact fetchedWell_nothing rfl holds
  · by_contra arrived
    have long : 4 ≤ queue.length := queued ▸ Nat.le_of_not_lt header
    rw [getPackSize_recvStream holds (by omega)] at refused arrived
    have large : 6 ≤ getPackSize queue :=
      Nat.le_of_not_lt fun tiny => refused (.inr tiny)
    have length : (queue.take (getPackSize queue)).length =
        getPackSize queue := by
      rw [length_take]
      omega
    refine unframed (queue.take (getPackSize queue))
      (queue.drop (getPackSize queue)) (take_append_drop _ _).symm
      ⟨?_, Nat.le_trans large (Nat.le_of_eq length.symm)⟩
    rw [length]
    exact getPackSize_take (Nat.le_trans (by decide) large)

theorem refetch_userDefined {rest : List Byte}
    (holds : node.recvBuffer.Represents (packet ++ rest))
    (framed : Framed packet) (custom : node.userDefinePacket = true) :
    FetchedWell node (packet ++ rest) (node.refetch (rounds + 1)) := by
  have queued := holds.queue_length
  have small := framed.length_lt
  have large : 6 ≤ packet.length := framed.large
  rw [length_append] at queued
  have size : getPackSize node.recvStream = packet.length := by
    rw [getPackSize_recvStream holds (by simp; omega), ← framed.counts]
    exact getPackSize_of_append_eq (append_nil _) (by simp; omega)
      (by omega)
  have fine : ¬ (packetSize < packet.length ∨ packet.length < minPacketLen) :=
    fun wrong => wrong.elim (fun long => by omega)
      (fun tiny => Nat.not_le_of_lt tiny framed.large)
  have result : node.refetch (rounds + 1) = ((packet.length : Int), packet,
      { node with
        recvBuffer := node.recvBuffer.subData packet.length }) := by
    have taken := read_packet holds framed
    have header : ¬ node.recvBuffer.datalen < packetHdrSize :=
      Nat.not_lt.mpr (show 4 ≤ _ by omega)
    unfold refetch
    dsimp only
    rw [if_neg header, size, if_neg fine,
      if_neg (by omega), if_pos custom, taken]
  rw [result]
  constructor
  · intro _
    have left := subData_represents holds packet.length
    rw [drop_left] at left
    refine ⟨[], packet, rest, rfl, forall_mem_nil _, framed, left, ?_,
      minPacketLen_le framed, Int.le_refl _⟩
    rw [messageLen, if_pos custom, framed.counts]
  · intro none
    exact absurd none (by dsimp only; omega)

theorem fetchedWell_opened {rest : List Byte}
    (standard : node.userDefinePacket = false)
    (holds : node.recvBuffer.Represents (packet ++ rest))
    (framed : Framed packet) (kept : ¬ StuffedAway node.crypt packet) :
    FetchedWell node (packet ++ rest)
      (openPacket
        { node with recvBuffer := node.recvBuffer.subData packet.length }
        packet) := by
  rcases @openPacket_length
    { node with recvBuffer := node.recvBuffer.subData packet.length } packet
    framed with ⟨refused, -⟩ | ⟨positive, length, less, enough⟩
  · exact fetchedWell_failed refused
  constructor
  · intro _
    have nonempty : packet ≠ [] :=
      length_pos_iff.mp (Nat.lt_of_lt_of_le (by decide) framed.large)
    obtain ⟨-, view, -⟩ := openPacket_result
      { node with recvBuffer := node.recvBuffer.subData packet.length }
      nonempty
    have left := subData_represents holds packet.length
    rw [drop_left] at left
    refine ⟨[], packet, rest, rfl, forall_mem_nil _, framed, ?_, ?_,
      enough.mpr kept, less⟩
    · have buffer : (openPacket
          { node with recvBuffer := node.recvBuffer.subData packet.length }
          packet).2.2.recvBuffer = node.recvBuffer.subData packet.length :=
        congrArg Prod.fst view
      rw [buffer]
      exact left
    · rw [messageLen, if_neg (by rw [standard]; decide)]
      exact length
  · intro none
    omega

/-- Every fetch is well formed if the packet it comes to is not stuffed away. -/
theorem refetch_fetchedWell (standard : node.userDefinePacket = false)
    (holds : node.recvBuffer.Represents queue)
    (enough : node.recvBuffer.datalen < rounds)
    (kept : ∀ packet last, Fetches node packet last →
      ¬ StuffedAway node.crypt packet) :
    FetchedWell node queue (node.refetch rounds) := by
  induction rounds generalizing node queue with
  | zero => exact absurd enough (Nat.not_lt_zero _)
  | succ rounds induction =>
    have queued := holds.queue_length
    by_cases found : ∃ packet rest, queue = packet ++ rest ∧ Framed packet
    · obtain ⟨packet, rest, rfl, framed⟩ := found
      have positive : 6 ≤ packet.length := framed.large
      rw [length_append] at queued
      rw [refetch_packet holds framed standard]
      by_cases system : ndsysMsg packet = true
      · rw [if_pos system]
        by_cases refused : node.sysmsgHander.1 = -1
        · rw [if_pos refused]
          exact fetchedWell_failed rfl
        rw [if_neg refused]
        obtain ⟨left, same, crypt⟩ :=
          accepted_receiver holds framed refused
        have fewer := left.queue_length
        refine FetchedWell.behind (induction (same.trans standard) left ?_
          ?_) framed system same
        · dsimp only
          omega
        · intro other last later
          change ¬ StuffedAway node.sysmsgHander.2.crypt other
          rw [crypt]
          exact kept other last
            (.behind holds framed system refused later)
      · rw [if_neg system]
        exact fetchedWell_opened standard holds framed
          (kept packet node (.here holds framed (eq_false_of_ne_true system)))
    · exact refetch_nothing holds
        (fun packet rest split framed => found ⟨packet, rest, split, framed⟩)
        rounds

theorem refetch_of_fetches (fetches : Fetches node packet last)
    (standard : node.userDefinePacket = false)
    (enough : node.recvBuffer.datalen < rounds) :
    Framed packet ∧ last.crypt = node.crypt ∧
      node.refetch rounds = openPacket
        { last with recvBuffer := last.recvBuffer.subData packet.length }
        packet := by
  induction fetches generalizing rounds with
  | @here node packet rest holds framed user =>
    obtain ⟨rounds, rfl⟩ := Nat.exists_eq_succ_of_ne_zero
      (Nat.ne_of_gt (Nat.zero_lt_of_lt enough))
    refine ⟨framed, rfl, ?_⟩
    rw [refetch_packet holds framed standard, if_neg (by rw [user]; decide)]
  | @behind node last system packet rest holds framed flag accepted later
      induction =>
      obtain ⟨rounds, rfl⟩ := Nat.exists_eq_succ_of_ne_zero
        (Nat.ne_of_gt (Nat.zero_lt_of_lt enough))
      obtain ⟨left, same, crypt⟩ := accepted_receiver holds framed accepted
      have queued := holds.queue_length
      have fewer := left.queue_length
      have positive : 6 ≤ system.length := framed.large
      rw [length_append] at queued
      obtain ⟨whole, sameCrypt, result⟩ := @induction rounds
        (same.trans standard) (by dsimp only; omega)
      refine ⟨whole, sameCrypt.trans crypt, ?_⟩
      rw [refetch_packet holds framed standard, if_pos flag, if_neg accepted]
      exact result

/-- For every content of the receive buffer and every cipher: a fetch is well
formed if and only if the packet that it comes to, behind the system packets
that are accepted, is not an encrypted one of which its stuffing leaves less
than the minimum. -/
theorem fetchMsg_wellFormed_iff
    (holds : node.recvBuffer.Represents queue) :
    FetchedWell node queue node.fetchMsg ↔
      (node.connectorValid = true → node.userDefinePacket = false →
        ∀ packet last, Fetches node packet last →
          ¬ StuffedAway node.crypt packet) := by
  unfold fetchMsg
  by_cases valid : node.connectorValid = true
  · rw [valid, Bool.not_true, if_neg Bool.false_ne_true]
    cases standard : node.userDefinePacket with
    | false =>
      constructor
      · intro well _ _ packet last fetches away
        obtain ⟨framed, crypt, result⟩ :=
          refetch_of_fetches fetches standard (Nat.lt_succ_self _)
        rw [result] at well
        rcases @openPacket_length
          { last with recvBuffer := last.recvBuffer.subData packet.length }
          packet framed with ⟨-, kept⟩ | ⟨positive, -, -, enough⟩
        · exact kept (crypt ▸ away)
        · obtain ⟨_, _, _, _, _, _, _, _, least, _⟩ := well.message positive
          exact enough.mp least (crypt ▸ away)
      · exact fun kept => refetch_fetchedWell standard holds
          (Nat.lt_succ_self _) (kept rfl rfl)
    | true =>
      refine iff_of_true ?_ fun _ custom => nomatch custom
      by_cases found : ∃ packet rest, queue = packet ++ rest ∧ Framed packet
      · obtain ⟨packet, rest, rfl, framed⟩ := found
        exact refetch_userDefined holds framed standard
      · exact refetch_nothing holds
          (fun packet rest split framed =>
            found ⟨packet, rest, split, framed⟩) _
  · rw [eq_false_of_ne_true valid, Bool.not_false, if_pos rfl]
    exact iff_of_true (fetchedWell_failed rfl) fun same => nomatch same

theorem fetches_whole (holds : node.recvBuffer.Represents queue)
    (framed : Framed queue) (user : ndsysMsg queue = false)
    (fetches : Fetches node packet last) : packet = queue := by
  have same : ∀ {front rest : List Byte},
      node.recvBuffer.Represents (front ++ rest) → Framed front →
        front = queue := by
    intro front rest inside whole
    have split : front ++ rest = queue :=
      inside.content_eq.symm.trans holds.content_eq
    have large : 6 ≤ front.length := whole.large
    have size : getPackSize queue = getPackSize front :=
      getPackSize_of_append_eq
        (show queue ++ [] = front ++ rest by rw [append_nil, split])
        (Nat.le_trans (by decide) framed.large) (by omega)
    rw [framed.counts, whole.counts] at size
    have none : rest = [] := by
      have total := congrArg length split
      rw [length_append] at total
      exact length_eq_zero_iff.mp (by omega)
    rw [none, append_nil] at split
    exact split
  cases fetches with
  | here inside whole _ => exact same inside whole
  | behind inside whole flag _ _ =>
    rw [same inside whole, user] at flag
    cases flag

def keyedNode (data : List Byte) : TcpNode :=
  { connectedNode [] with
    crypt := teaNetCrypt ⟨16, List.replicate 16 1⟩
    recvBuffer := fullBuf data }

/-- A packet of twelve bytes with eight bytes of stuffing is handed out as a
message of four. -/
theorem fetchMsg_tooShort :
    (keyedNode [0, 12, 2, 70, 251, 48, 19, 116, 15, 159, 225, 231]).fetchMsg.1 =
        4 ∧
      (keyedNode [0, 12, 2, 70, 251, 48, 19, 116, 15, 159, 225,
        231]).fetchMsg.2.1 = [4, 0, 2, 68, 0, 0, 0, 0, 0, 0, 0, 8] := by
  decide +kernel

/-- The same packet without stuffing is a message of twelve bytes. -/
theorem fetchMsg_wellFormed_twelve :
    FetchedWell
      (keyedNode [0, 12, 2, 2, 251, 48, 19, 116, 15, 159, 225, 231])
      [0, 12, 2, 2, 251, 48, 19, 116, 15, 159, 225, 231]
      (keyedNode
        [0, 12, 2, 2, 251, 48, 19, 116, 15, 159, 225, 231]).fetchMsg := by
  refine (fetchMsg_wellFormed_iff (fullBuf_represents _)).mpr ?_
  intro _ _ packet last fetches away
  obtain rfl := fetches_whole (fullBuf_represents _) ⟨by decide, by decide⟩
    (by decide) fetches
  exact absurd away.short.2 (by decide)

end Fetched

end NdNet.TcpNode
