import NdNet.Net.TcpRecv

/-!
# System packets and the bytes behind them

`nd_net_sysmsg_hander` checks and rewrites a system packet where it lies in the
receive buffer, through a structure of eight bytes.  What it does is compared
here for all contents of the buffer behind the packet: whether they make a
difference to the handling, whether the handling changes them, and what the
next packets are.
-/

namespace NdNet.TcpNode

open LineBuf Store List

def withRecvBuffer (node : TcpNode) (buf : LineBuf) : TcpNode :=
  { node with recvBuffer := buf }

/-- `nd_net_sysmsg_hander` on a packet that stands alone, without the writing
into the receive buffer. -/
def sysmsgVerdict (node : TcpNode) (packet : List Byte) : Int × TcpNode :=
  if hostU16 packet 6 ≠ (resum packet).1 then
    (-1, { node with myerrno := .badpacket })
  else if hostU16 packet 4 = ersvAliveId then
    if packet.length ≠ 8 ∨ stuffLen packet ≠ 5 then
      (-1, { node with myerrno := .badpacket })
    else (0, (node.connectorSend makeAlivePack ⟨true, false⟩).2)
  else if hostU16 packet 4 = ersvVersionError then
    (-1, { node with myerrno := .version })
  else (0, node)

/-- What handling the packet of `size` bytes in front comes to: the result, the
node apart from its receive buffer, and the packet afterwards. -/
def handling (node : TcpNode) (size : Nat) : Int × TcpNode × List Byte :=
  (node.sysmsgHander.1, node.sysmsgHander.2.withRecvBuffer (LineBuf.init []),
    node.sysmsgHander.2.recvStream.take size)

/-- What a fetch gives to its caller: the result and the message, the bytes
that are left, and whether the message was encrypted. -/
def delivered (fetched : Int × List Byte × TcpNode) :
    Int × List Byte × List Byte × Bool :=
  (fetched.1, fetched.2.1, fetched.2.2.recvBuffer.content,
    fetched.2.2.isCryptPacket)

/-- The system packets a fetch meets first in the bytes are at least as long as
the structure they are handled through. -/
def SystemWhole (queue : List Byte) : Prop :=
  ∀ (done : List (List Byte)) (packet behind : List Byte),
    queue = done.flatten ++ (packet ++ behind) →
    (∀ other ∈ done, Framed other ∧ ndsysMsg other = true) →
    Framed packet → ndsysMsg packet = true → 8 ≤ packet.length

/-- A system packet at the front of the received data and the bytes behind it
have nothing to do with each other, whatever these bytes are. -/
structure SparesNeighbours (node : TcpNode) (packet : List Byte) : Prop where
  unread : ∀ buf other rest behind, buf.Represents (packet ++ rest) →
    other.Represents (packet ++ behind) →
    (node.withRecvBuffer buf).handling packet.length =
      (node.withRecvBuffer other).handling packet.length
  unwritten : ∀ buf rest, buf.Represents (packet ++ rest) →
    ∃ front, front.length = packet.length ∧
      (node.withRecvBuffer buf).sysmsgHander.2.recvBuffer.Represents
        (front ++ rest)
  fetched : ∀ buf other rest, buf.Represents (packet ++ rest) →
    other.Represents rest → SystemWhole rest →
    (node.withRecvBuffer buf).sysmsgHander.1 = 0 →
    delivered (node.withRecvBuffer buf).fetchMsg =
      delivered (node.withRecvBuffer other).fetchMsg
  refused : ∀ buf rest, buf.Represents (packet ++ rest) →
    (node.withRecvBuffer buf).sysmsgHander.1 ≠ 0 →
    ∃ front, front.length = packet.length ∧
      (delivered (node.withRecvBuffer buf).fetchMsg) =
        (-1, [], front ++ rest, node.isCryptPacket)

section Whole

variable {packet : List Byte}

theorem sysmsgHander_eq {node : TcpNode} {more : List Byte}
    (stream : node.recvStream = packet ++ more)
    (counts : getPackSize packet = packet.length) (large : 8 ≤ packet.length) :
    node.sysmsgHander =
      ((node.sysmsgVerdict packet).1,
        (node.sysmsgVerdict packet).2.withReceiver
          (node.rewriteStream ((resum packet).2.take 8)).receiver) := by
  obtain ⟨msgid, length, stuffing, size⟩ := resum_fields counts large
  have carried := @hostU16_append_left packet 6 (by omega) more
  have field := @hostU16_append_left (resum packet).2 4 (by omega) more
  have sized : packLen ((resum packet).2 ++ more) = packet.length := by
    rw [packLen, hostU16_append_left (by omega), ← packLen, length]
  have stuffed : stuffLen ((resum packet).2 ++ more) = stuffLen packet := by
    rw [stuffLen, byteAt_append_left (by omega), ← stuffLen, stuffing]
  have block : ((resum packet).2 ++ more).take 8 = (resum packet).2.take 8 :=
    take_append_of_le_length (by omega)
  have moved : node.rewriteStream ((resum packet).2.take 8) =
      node.withReceiver
        (node.rewriteStream ((resum packet).2.take 8)).receiver := rfl
  have sent := connectorSend_withReceiver node
    (node.rewriteStream ((resum packet).2.take 8)).receiver makeAlivePack
    ⟨true, false⟩
  rw [← moved] at sent
  unfold sysmsgHander sysmsgVerdict
  simp only [stream, resum_append_of_le counts large, carried, field, msgid,
    sized, stuffed, block, sent]
  split_ifs <;> rfl

theorem sysmsgVerdict_withReceiver (node : TcpNode) (side : Receiver) :
    (node.withReceiver side).sysmsgVerdict packet =
      ((node.sysmsgVerdict packet).1,
        (node.sysmsgVerdict packet).2.withReceiver side) := by
  unfold sysmsgVerdict
  rw [connectorSend_withReceiver]
  split_ifs <;> rfl

theorem sysmsgVerdict_result (node other : TcpNode) :
    (node.sysmsgVerdict packet).1 = (other.sysmsgVerdict packet).1 := by
  unfold sysmsgVerdict
  split_ifs <;> rfl

theorem rewriteStream_represents {node : TcpNode} {block rest : List Byte}
    (holds : node.recvBuffer.Represents (packet ++ rest))
    (short : block.length ≤ packet.length) :
    (node.rewriteStream block).recvBuffer.Represents
      (block ++ packet.drop block.length ++ rest) := by
  have queued := holds.queue_length
  have extent := holds.datalen_eq
  have ordered := holds.ordered
  have bounded := holds.bounded
  have storage := holds.storage_length
  have content := holds.content_eq
  rw [length_append] at queued
  refine ⟨ordered, bounded, (length_overwrite _ _ _).trans storage, ?_⟩
  change slice (overwrite node.recvBuffer.storage node.recvBuffer.startOff
    block) node.recvBuffer.startOff node.recvBuffer.endOff = _
  rw [LineBuf.content] at content
  rw [← slice_append_slice _ (Nat.le_add_right _ block.length)
      (show node.recvBuffer.startOff + block.length ≤
        node.recvBuffer.endOff by omega),
    slice_overwrite_self (by omega), slice_overwrite_of_ge _ _ (Nat.le_refl _),
    slice_add_left, content, drop_append_of_le_length short,
    append_assoc]

end Whole

section Fetching

variable {node other : TcpNode} {packet rest queue : List Byte}

def handledFront (packet : List Byte) : List Byte :=
  (resum packet).2.take 8 ++ packet.drop 8

theorem length_handledFront (counts : getPackSize packet = packet.length)
    (large : 8 ≤ packet.length) : (handledFront packet).length = packet.length := by
  obtain ⟨_, _, _, size⟩ := resum_fields counts large
  rw [handledFront, length_append, length_take, length_drop, size]
  omega

theorem sysmsgHander_whole (holds : node.recvBuffer.Represents (packet ++ rest))
    (framed : Framed packet) (large : 8 ≤ packet.length) :
    node.sysmsgHander.1 = (node.sysmsgVerdict packet).1 ∧
      node.sysmsgHander.2.recvBuffer.Represents (handledFront packet ++ rest) ∧
      node.sysmsgHander.2.userDefinePacket = node.userDefinePacket ∧
      node.sysmsgHander.2.isCryptPacket = node.isCryptPacket ∧
      node.sysmsgHander.2.crypt = node.crypt := by
  have stream := recvStream_eq holds
  rw [append_assoc] at stream
  obtain ⟨_, _, _, size⟩ := resum_fields framed.counts large
  have eight : ((resum packet).2.take 8).length = 8 := by
    rw [length_take, size]
    omega
  have rewritten := @rewriteStream_represents packet node
    ((resum packet).2.take 8) rest holds (by omega)
  rw [eight] at rewritten
  rw [sysmsgHander_eq stream framed.counts large]
  exact ⟨rfl, rewritten, rfl, rfl, rfl⟩

theorem refetch_unframed (holds : node.recvBuffer.Represents queue)
    (unframed : ∀ packet rest, queue = packet ++ rest → ¬ Framed packet)
    (rounds : Nat) :
    delivered (node.refetch (rounds + 1)) =
      (if 4 ≤ queue.length ∧ getPackSize queue < minPacketLen then -1 else 0,
        [], queue, node.isCryptPacket) := by
  have queued := holds.queue_length
  have content := holds.content_eq
  unfold refetch
  dsimp only
  by_cases header : node.recvBuffer.datalen < packetHdrSize
  · have short : queue.length < 4 := queued ▸ header
    rw [if_pos header, if_neg (by omega)]
    exact congrArg (fun bytes => ((0 : Int), ([] : List Byte), bytes, _)) content
  · have long : 4 ≤ queue.length := queued ▸ Nat.le_of_not_lt header
    have small := getPackSize_lt queue
    rw [if_neg header, getPackSize_recvStream holds (by omega)]
    by_cases tiny : getPackSize queue < minPacketLen
    · rw [if_pos (.inr tiny), if_pos ⟨long, tiny⟩]
      exact congrArg (fun bytes => ((-1 : Int), ([] : List Byte), bytes, _)) content
    have missing : node.recvBuffer.datalen < getPackSize queue := by
      by_contra arrived
      refine unframed (queue.take (getPackSize queue))
        (queue.drop (getPackSize queue)) (take_append_drop _ _).symm ?_
      have large : 6 ≤ getPackSize queue := Nat.le_of_not_lt tiny
      have length : (queue.take (getPackSize queue)).length =
          getPackSize queue := by
        rw [length_take]
        omega
      refine ⟨?_, Nat.le_trans large (Nat.le_of_eq length.symm)⟩
      rw [length]
      exact getPackSize_take (Nat.le_trans (by decide) large)
    rw [if_neg (by omega), if_pos missing, if_neg (fun bad => tiny bad.2)]
    exact congrArg (fun bytes => ((0 : Int), ([] : List Byte), bytes, _)) content

theorem openPacket_delivered (crypt : node.crypt = other.crypt)
    (mark : node.isCryptPacket = other.isCryptPacket)
    (content : node.recvBuffer.content = other.recvBuffer.content) :
    delivered (node.openPacket packet) = delivered (other.openPacket packet) := by
  have opened : node.packetDecrypt (packetSwap packet) =
      other.packetDecrypt (packetSwap packet) := by
    unfold packetDecrypt
    rw [crypt]
  unfold openPacket delivered
  simp only [opened]
  split_ifs
  · simp only [content, mark]
  · simp only [content]
  · simp only [content]

theorem SystemWhole.head (whole : SystemWhole (packet ++ rest))
    (framed : Framed packet) (system : ndsysMsg packet = true) :
    8 ≤ packet.length :=
  whole [] packet rest rfl (by simp) framed system

theorem SystemWhole.tail (whole : SystemWhole (packet ++ rest))
    (framed : Framed packet) (system : ndsysMsg packet = true) :
    SystemWhole rest := by
  intro done later behind split all
  refine whole (packet :: done) later behind ?_ ?_
  · rw [flatten_cons, append_assoc, ← split]
  · intro other member
    rcases mem_cons.mp member with rfl | old
    · exact ⟨framed, system⟩
    · exact all other old

/-- Two nodes that have received the same and open packets alike. -/
structure ReceiveAlike (node other : TcpNode) (queue : List Byte) : Prop where
  left : node.recvBuffer.Represents queue
  right : other.recvBuffer.Represents queue
  leftStandard : node.userDefinePacket = false
  rightStandard : other.userDefinePacket = false
  mark : node.isCryptPacket = other.isCryptPacket
  crypt : node.crypt = other.crypt

theorem ReceiveAlike.handled (alike : ReceiveAlike node other (packet ++ rest))
    (framed : Framed packet) (large : 8 ≤ packet.length) :
    ReceiveAlike
      { node.sysmsgHander.2 with
        recvBuffer := node.sysmsgHander.2.recvBuffer.subData packet.length }
      { other.sysmsgHander.2 with
        recvBuffer := other.sysmsgHander.2.recvBuffer.subData packet.length }
      rest := by
  obtain ⟨_, holds, standard, mark, crypt⟩ :=
    sysmsgHander_whole alike.left framed large
  obtain ⟨_, holds', standard', mark', crypt'⟩ :=
    sysmsgHander_whole alike.right framed large
  have size := length_handledFront framed.counts large
  have behind : (handledFront packet ++ rest).drop packet.length = rest :=
    drop_left' size
  constructor
  case left => exact behind ▸ subData_represents holds packet.length
  case right => exact behind ▸ subData_represents holds' packet.length
  case leftStandard => exact standard.trans alike.leftStandard
  case rightStandard => exact standard'.trans alike.rightStandard
  case mark => exact mark.trans (alike.mark.trans mark'.symm)
  case crypt => exact crypt.trans (alike.crypt.trans crypt'.symm)

/-- What a fetch delivers is determined by the bytes received, unless a system
packet among them is too short for its handler. -/
theorem ReceiveAlike.refetch (alike : ReceiveAlike node other queue)
    (whole : SystemWhole queue) {rounds more : Nat}
    (enough : queue.length < rounds) (enoughMore : queue.length < more) :
    delivered (node.refetch rounds) = delivered (other.refetch more) := by
  induction rounds generalizing node other queue more with
  | zero => exact absurd enough (Nat.not_lt_zero _)
  | succ rounds induction =>
    obtain ⟨more, rfl⟩ := Nat.exists_eq_succ_of_ne_zero
      (Nat.ne_of_gt (Nat.lt_of_le_of_lt (Nat.zero_le _) enoughMore))
    by_cases found : ∃ packet rest, queue = packet ++ rest ∧ Framed packet
    · obtain ⟨packet, rest, rfl, framed⟩ := found
      rw [length_append] at enough enoughMore
      rw [refetch_packet alike.left framed alike.leftStandard,
        refetch_packet alike.right framed alike.rightStandard]
      by_cases system : ndsysMsg packet = true
      · have large := whole.head framed system
        obtain ⟨result, holds, _, mark, _⟩ :=
          sysmsgHander_whole alike.left framed large
        obtain ⟨result', holds', _, mark', _⟩ :=
          sysmsgHander_whole alike.right framed large
        rw [if_pos system, if_pos system, result, result',
          sysmsgVerdict_result other node]
        by_cases refused : (node.sysmsgVerdict packet).1 = -1
        · rw [if_pos refused, if_pos refused]
          unfold delivered
          simp only [holds.content_eq, holds'.content_eq, mark, mark',
            alike.mark]
        · rw [if_neg refused, if_neg refused]
          exact induction (alike.handled framed large)
            (whole.tail framed system) (by omega) (by omega)
      · rw [if_neg system, if_neg system]
        refine openPacket_delivered alike.crypt alike.mark ?_
        exact (subData_represents alike.left packet.length).content_eq.trans
          (subData_represents alike.right packet.length).content_eq.symm
    · have unframed : ∀ packet rest, queue = packet ++ rest →
          ¬ Framed packet :=
        fun packet rest split framed => found ⟨packet, rest, split, framed⟩
      rw [refetch_unframed alike.left unframed,
        refetch_unframed alike.right unframed, alike.mark]

end Fetching

section Neighbours

variable {node : TcpNode} {packet : List Byte}

theorem handling_eq {buf : LineBuf} {rest : List Byte}
    (holds : buf.Represents (packet ++ rest)) (framed : Framed packet)
    (large : 8 ≤ packet.length) :
    (node.withRecvBuffer buf).handling packet.length =
      ((node.sysmsgVerdict packet).1,
        (node.sysmsgVerdict packet).2.withReceiver
          { node.receiver with recvBuffer := LineBuf.init [] },
        handledFront packet) := by
  have arrived : (node.withRecvBuffer buf).recvBuffer.Represents
      (packet ++ rest) := holds
  have stream := recvStream_eq arrived
  rw [append_assoc] at stream
  obtain ⟨_, after, _⟩ := sysmsgHander_whole arrived framed large
  have front := recvStream_eq after
  rw [append_assoc] at front
  have verdict := @sysmsgVerdict_withReceiver packet node
    { node.receiver with recvBuffer := buf }
  have size := length_handledFront framed.counts large
  have loaded : node.withRecvBuffer buf =
      node.withReceiver { node.receiver with recvBuffer := buf } := rfl
  have emptied (other : TcpNode) (side : Receiver) :
      (other.withReceiver side).withRecvBuffer (LineBuf.init []) =
        other.withReceiver { side with recvBuffer := LineBuf.init [] } := rfl
  unfold handling
  rw [front, take_left' size, sysmsgHander_eq stream framed.counts large,
    emptied, loaded, verdict, withReceiver_withReceiver]
  rfl

theorem fetchMsg_withRecvBuffer (valid : node.connectorValid = true)
    (buf : LineBuf) :
    (node.withRecvBuffer buf).fetchMsg =
      (node.withRecvBuffer buf).refetch (buf.datalen + 1) := by
  have connected : ¬ (!(node.withRecvBuffer buf).connectorValid) = true := by
    change ¬ (!node.connectorValid) = true
    rw [valid]
    exact Bool.false_ne_true
  exact if_neg connected

/-- A system packet as long as the structure has nothing to do with the bytes
behind it. -/
theorem sparesNeighbours_of_le (valid : node.connectorValid = true)
    (standard : node.userDefinePacket = false) (framed : Framed packet)
    (system : ndsysMsg packet = true) (large : 8 ≤ packet.length) :
    SparesNeighbours node packet where
  unread := by
    intro buf other rest behind holds holds'
    rw [handling_eq holds framed large, handling_eq holds' framed large]
  unwritten := by
    intro buf rest holds
    obtain ⟨_, after, _⟩ := @sysmsgHander_whole (node.withRecvBuffer buf) _ _
      holds framed large
    exact ⟨handledFront packet, length_handledFront framed.counts large, after⟩
  fetched := by
    intro buf other rest holds holds' whole accepted
    have arrived : (node.withRecvBuffer buf).recvBuffer.Represents
        (packet ++ rest) := holds
    obtain ⟨_, after, user, mark, crypt⟩ :=
      sysmsgHander_whole arrived framed large
    have size := length_handledFront framed.counts large
    have behind : (handledFront packet ++ rest).drop packet.length = rest :=
      drop_left' size
    have alike : ReceiveAlike
        { (node.withRecvBuffer buf).sysmsgHander.2 with
          recvBuffer := (node.withRecvBuffer
            buf).sysmsgHander.2.recvBuffer.subData packet.length }
        (node.withRecvBuffer other) rest :=
      { left := behind ▸ subData_represents after packet.length
        right := holds'
        leftStandard := user.trans standard
        rightStandard := standard
        mark := mark
        crypt := crypt }
    have queued := holds.queue_length
    have queued' := holds'.queue_length
    rw [length_append] at queued
    rw [fetchMsg_withRecvBuffer valid, fetchMsg_withRecvBuffer valid,
      refetch_packet arrived framed standard, if_pos system,
      if_neg (by rw [accepted]; decide)]
    exact alike.refetch whole (by omega) (by omega)
  refused := by
    intro buf rest holds refused
    have arrived : (node.withRecvBuffer buf).recvBuffer.Represents
        (packet ++ rest) := holds
    obtain ⟨_, after, _, mark, _⟩ := sysmsgHander_whole arrived framed large
    have negative := (sysmsgHander_result (node.withRecvBuffer buf)).resolve_left
      refused
    refine ⟨handledFront packet, length_handledFront framed.counts large, ?_⟩
    rw [fetchMsg_withRecvBuffer valid, refetch_packet arrived framed standard,
      if_pos system, if_pos negative]
    unfold delivered
    simp only [after.content_eq, mark]
    rfl

def fullBuf (data : List Byte) : LineBuf :=
  { autoInc := false
    capacity := data.length
    startOff := 0
    endOff := data.length
    storage := data }

theorem fullBuf_represents (data : List Byte) :
    (fullBuf data).Represents data := by
  refine ⟨Nat.zero_le _, Nat.le_refl _, rfl, ?_⟩
  exact take_length

theorem resum_short (counts : getPackSize packet = packet.length)
    (header : 6 ≤ packet.length) {more other : List Byte}
    (two : more.length = 2) (twoOther : other.length = 2) :
    (resum (packet ++ more)).1 = (resum (packet ++ other)).1 := by
  have length (memory : List Byte) :
      packLen (overwrite (packetSwap (packet ++ memory)) 6 (hostBytes 0)) =
        packet.length := by
    rw [packLen, hostU16, byteAt_overwrite_of_lt (by omega),
      byteAt_overwrite_of_lt (by omega), ← hostU16, ← packLen,
      packLen_packetSwap _ (by rw [length_append]; omega), getPackSize,
      byteAt_append_left (by omega), byteAt_append_left (by omega)]
    exact counts
  unfold resum
  simp only [length]
  congr 1
  apply ext_getElem?
  intro index
  rw [getElem?_take, getElem?_take]
  by_cases inside : index < packet.length
  · rw [if_pos inside, if_pos inside, getElem?_overwrite, getElem?_overwrite,
      packetSwap_append _ (by omega), packetSwap_append _ (by omega)]
    simp only [length_append, length_packetSwap, two, twoOther]
    rw [getElem?_append_left (by rw [length_packetSwap]; exact inside),
      getElem?_append_left (by rw [length_packetSwap]; exact inside)]
  · rw [if_neg inside, if_neg inside]

theorem not_sparesNeighbours_of_lt (framed : Framed packet)
    (short : packet.length < 8) : ¬ SparesNeighbours node packet := by
  have header : 6 ≤ packet.length := framed.large
  let high : Byte :=
    UInt8.ofNat ((resum (packet ++ [0, 0])).1 / 256)
  let rest : List Byte := [high + 1, high + 1]
  have length : (packet ++ rest).length = packet.length + 2 :=
    length_append
  intro spares
  obtain ⟨front, size, after⟩ := spares.unwritten _ _
    (fullBuf_represents (packet ++ rest))
  have buffer : ((node.withRecvBuffer
      (fullBuf (packet ++ rest))).sysmsgHander.2.recvBuffer).content =
        overwrite (packet ++ rest) 0 ((resum (packet ++ rest)).2.take 8) := by
    have rewrites := congrArg Prod.fst (sysmsgHander_rewrites
      (node.withRecvBuffer (fullBuf (packet ++ rest))))
    have stream : (node.withRecvBuffer (fullBuf (packet ++ rest))).recvStream =
        packet ++ rest := take_length
    rw [stream] at rewrites
    dsimp only [recvView] at rewrites
    rw [rewrites]
    change slice _ 0 (packet ++ rest).length = _
    exact take_of_length_le (Nat.le_of_eq (length_overwrite _ _ _))
  have content := after.content_eq
  rw [buffer] at content
  have right : (front ++ rest)[7]? = some (high + 1) := by
    rw [getElem?_append_right (by omega), size]
    have place : 7 - packet.length = 0 ∨ 7 - packet.length = 1 := by omega
    rcases place with first | second
    · rw [first]
      rfl
    · rw [second]
      rfl
  have sum := @resum_short packet framed.counts header rest [0, 0] rfl rfl
  have left : (overwrite (packet ++ rest) 0
      ((resum (packet ++ rest)).2.take 8))[7]? = some high := by
    have block : ((resum (packet ++ rest)).2.take 8)[7]? = some high := by
      have cleared : (overwrite (packetSwap (packet ++ rest)) 6
          (hostBytes 0)).length = packet.length + 2 := by
        rw [length_overwrite, length_packetSwap, length]
      rw [getElem?_take_of_lt (by decide), resum, getElem?_overwrite,
        if_pos ⟨by omega, by decide, by rw [length_hostBytes]; decide⟩]
      change some (UInt8.ofNat ((resum (packet ++ rest)).1 / 256)) = _
      rw [sum]
    have inside : 7 < ((resum (packet ++ rest)).2.take 8).length := by
      by_contra outside
      rw [getElem?_eq_none (Nat.le_of_not_lt outside)] at block
      exact absurd block.symm (Option.some_ne_none _)
    rw [getElem?_overwrite, if_pos ⟨by omega, Nat.zero_le _, by omega⟩]
    exact block
  rw [content, right, Option.some.injEq] at left
  exact absurd left (by simp)

/-- Handling a system packet and the bytes behind it leave each other alone, and
the packets behind an accepted one are fetched as if it had not been there,
exactly if the packet is as long as the structure it is handled through. -/
theorem sparesNeighbours_iff (valid : node.connectorValid = true)
    (standard : node.userDefinePacket = false) (framed : Framed packet)
    (system : ndsysMsg packet = true) :
    SparesNeighbours node packet ↔ 8 ≤ packet.length := by
  constructor
  · intro spares
    by_contra short
    exact not_sparesNeighbours_of_lt framed (by omega) spares
  · exact sparesNeighbours_of_le valid standard framed system

theorem sparesNeighbours_alive :
    SparesNeighbours (connectedNode []) (packetSwap makeAlivePack) :=
  (sparesNeighbours_iff (by decide) (by decide)
    makeAlivePack_alive.toFramed makeAlivePack_alive.system).mpr (by decide)

/-- A system packet of six bytes in front of a user packet of eight: the
handler refuses it for a checksum it reads from the user packet, and leaves the
length of the user packet overwritten. -/
theorem sysPacket_overwrites :
    Framed [0, 6, 2, 1, 0, 0] ∧ ndsysMsg [0, 6, 2, 1, 0, 0] = true ∧
      UserPacket [0, 8, 2, 0, 1, 2, 3, 4] ∧
      ((connectedNode []).withRecvBuffer (fullBuf
        [0, 6, 2, 1, 0, 0, 0, 8, 2, 0, 1, 2, 3, 4])).fetchMsg.1 = -1 ∧
      ((connectedNode []).withRecvBuffer (fullBuf
        [0, 6, 2, 1, 0, 0, 0, 8, 2, 0, 1, 2, 3, 4])).fetchMsg.2.2.recvBuffer =
          fullBuf [6, 0, 2, 1, 0, 0, 0xf7, 0xfe, 2, 0, 1, 2, 3, 4] ∧
      ¬ SparesNeighbours (connectedNode []) [0, 6, 2, 1, 0, 0] := by
  refine ⟨⟨by decide, by decide⟩, by decide, ⟨⟨by decide, by decide⟩,
    by decide, by decide⟩, by decide, by decide, ?_⟩
  exact not_sparesNeighbours_of_lt ⟨by decide, by decide⟩ (by decide)

end Neighbours

end NdNet.TcpNode
