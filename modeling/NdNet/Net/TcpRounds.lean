import NdNet.Net.TcpFraming

/-!
# Rounds of reading and fetching

A round is one `nd_tcpnode_read` followed by fetching every complete packet.
`nd_tcpnode_read` asks the socket only for as much as fits behind the data, and
not at all when nothing does; it relies on the fetching to have moved the data
ahead. That happens only once a quarter of the buffer is free in front, so a
packet that begins earlier and is cut off by the end of the buffer can never be
completed.
-/

namespace NdNet.TcpNode

open LineBuf Store Runs List

/-- The length of the complete packets that `bytes` starts with. -/
def completeLen : Nat → List Byte → Nat
  | 0, _ => 0
  | rounds + 1, bytes =>
    if bytes.length < packetHdrSize ∨ getPackSize bytes < minPacketLen ∨
        bytes.length < getPackSize bytes then 0
    else
      getPackSize bytes + completeLen rounds (bytes.drop (getPackSize bytes))

/-- A connection, the bytes of the stream that the socket has not handed out
yet, whether a call has returned `-1`, and whether the last round asks to be
repeated without having read or consumed anything. -/
structure RoundState where
  node : TcpNode
  incoming : List Byte
  closed : Bool
  stalled : Bool

/-- One round in which the socket has up to `offer` more bytes ready. -/
def recvRound (state : RoundState) (offer : Nat) : RoundState :=
  if state.closed then state
  else
    let waiting := state.incoming.take offer
    let got := state.node.read
      (if waiting = [] then .error true else .data waiting)
    let count := got.2.recvBuffer.datalen - state.node.recvBuffer.datalen
    if got.1 ≤ 0 then
      { state with node := got.2, closed := got.1 = -1, stalled := false }
    else
      let fetched := got.2.fetchAll (got.2.recvBuffer.datalen + 1)
      { node := fetched.2.2
        incoming := state.incoming.drop count
        closed := fetched.2.1 = -1
        stalled := got.2.readAgain && count = 0 &&
          fetched.2.2.recvBuffer.datalen = got.2.recvBuffer.datalen }

/-- No tail room, and the data is a part of a packet that is still to be
completed. -/
def Wedged (buf : LineBuf) : Prop :=
  buf.freespace = 0 ∧ buf.content ≠ [] ∧
    ∃ packet, Legal packet ∧ buf.content <+: packet ∧ buf.content ≠ packet

/-- A connection that is still open is not wedged, and its last round has made
progress if it asks to be repeated. -/
def NeverWedged (state : RoundState) : Prop :=
  state.closed = false → ¬ Wedged state.node.recvBuffer ∧ state.stalled = false

def afterRead (state : RoundState) (offer : Nat) : List Byte :=
  state.node.recvBuffer.content ++
    (state.incoming.take offer).take state.node.recvBuffer.freespace

/-- The round does not fill the tail room with the front part of a packet that
starts in the first quarter of the buffer. -/
def Clears (state : RoundState) (offer : Nat) : Prop :=
  state.closed = false →
    (state.incoming.take offer).length < state.node.recvBuffer.freespace ∨
      completeLen (afterRead state offer).length (afterRead state offer) =
        (afterRead state offer).length ∨
      state.node.recvBuffer.capacity / 4 ≤ state.node.recvBuffer.startOff +
        completeLen (afterRead state offer).length (afterRead state offer)

section CompleteLen

variable {queue incoming : List Byte}

/-- The complete packets in front are those of the stream, up to the first that
has not arrived completely. -/
theorem completeLen_eq (done rest : List (List Byte))
    (framedDone : ∀ packet ∈ done, Framed packet)
    (framedRest : ∀ packet ∈ rest, Framed packet)
    (incomplete : Incomplete queue rest)
    (joined : queue ++ incoming = rest.flatten) {rounds : Nat}
    (enough : (done.flatten ++ queue).length ≤ rounds) :
    completeLen rounds (done.flatten ++ queue) = done.flatten.length := by
  induction done generalizing rounds with
  | nil =>
    rw [flatten_nil, nil_append, length_nil]
    cases rounds with
    | zero => rfl
    | succ rounds =>
      rw [completeLen, if_pos]
      cases rest with
      | nil =>
        have none := (append_eq_nil_iff.mp joined).1
        exact .inl (by rw [none]; decide)
      | cons packet rest =>
        have short := incomplete packet rfl
        have framed := framedRest packet (mem_cons_self ..)
        by_cases header : queue.length < packetHdrSize
        · exact .inl header
        · have header : 4 ≤ queue.length := Nat.le_of_not_lt header
          have size := getPackSize_of_append_eq joined (by omega)
            (by omega)
          rw [framed.counts] at size
          exact .inr (.inr (by omega))
  | cons packet done induction =>
    have framed := framedDone packet (mem_cons_self ..)
    have large : 6 ≤ packet.length := framed.large
    simp only [flatten_cons, append_assoc, length_append]
      at enough ⊢
    obtain ⟨fewer, rfl⟩ : ∃ fewer, rounds = fewer + 1 :=
      ⟨rounds - 1, by omega⟩
    have size : getPackSize (packet ++ (done.flatten ++ queue)) =
        packet.length := by
      rw [← framed.counts]
      exact getPackSize_of_append_eq (append_nil _) (by simp; omega)
        (by omega)
    have arrived : ¬ ((packet ++ (done.flatten ++ queue)).length <
          packetHdrSize ∨
        packet.length < minPacketLen ∨
        (packet ++ (done.flatten ++ queue)).length < packet.length) := by
      rw [length_append, packetHdrSize, minPacketLen]
      omega
    rw [completeLen, size, if_neg arrived, drop_left,
      induction (fun other member => framedDone other
        (mem_cons_of_mem _ member)) (by
          rw [length_append]
          omega)]

end CompleteLen

section Rounds

variable {node : TcpNode} {queue : List Byte}

theorem read_data (ready : Ready node queue) {waiting : List Byte}
    (small : node.recvBuffer.capacity < 2 ^ 31)
    (room : 0 < node.recvBuffer.freespace) (some : waiting ≠ []) :
    ∃ again, (node.read (.data waiting)).2 =
        { node with
          readAgain := again
          recvBuffer := node.recvBuffer.append
            (waiting.take node.recvBuffer.freespace) } ∧
      0 < (node.read (.data waiting)).1 := by
  have positive : 0 < (waiting.take node.recvBuffer.freespace).length := by
    rw [length_take]
    have := length_pos_iff.mpr some
    omega
  have fits : (waiting.take node.recvBuffer.freespace).length ≤
      node.recvBuffer.freespace := length_take_le _ _
  have filled := append_represents ready.represents fits
  have queued := filled.queue_length
  have bounded := filled.datalen_le_capacity
  rw [append_capacity] at bounded
  rw [length_append] at queued
  have asked : ¬ (node.recvBuffer.freespace = 0 ∧
      0 < node.recvBuffer.datalen) := by omega
  unfold read
  simp only [if_neg asked, if_neg (Nat.ne_of_gt room), sysSocketRead,
    if_neg (Nat.ne_of_gt positive)]
  rw [if_pos (by omega)]
  refine ⟨_, rfl, ?_⟩
  rw [intOfSize_of_lt (by omega)]
  omega

theorem Remains.room {buf : LineBuf} {count : Nat} {incoming : List Byte}
    {rest : List (List Byte)} (large : 32 ≤ buf.capacity)
    (bounded : buf.endOff ≤ buf.capacity)
    (remains : Remains buf count node queue incoming rest)
    (clears : buf.endOff < buf.capacity ∨ queue = [] ∨
      buf.capacity / 4 ≤ buf.startOff + count) :
    0 < node.recvBuffer.freespace := by
  have holds := remains.drained.represents
  have capacity := remains.drained.capacity
  rw [holds.freespace_eq]
  cases remains.drained.place with
  | advanced quarter start stop =>
    rcases clears with tail | none | far
    · omega
    · have empty := holds.queue_eq_nil_iff.mp none
      rw [holds.datalen_eq] at empty
      omega
    · omega
  | moved quarter start stop | emptied start stop => omega

end Rounds

/-- As long as the connection is open, there is tail room, and the data and the
bytes to come make up legal packets. -/
def Flowing (state : RoundState) : Prop :=
  state.closed = false →
    ∃ (queue : List Byte) (packets : List (List Byte)), Ready state.node queue ∧
      state.node.recvBuffer.capacity < 2 ^ 31 ∧
      (∀ packet ∈ packets, Legal packet) ∧
      queue ++ state.incoming = packets.flatten ∧
      0 < state.node.recvBuffer.freespace ∧ state.stalled = false

section RoundSteps

variable {state : RoundState}

theorem Flowing.neverWedged (flowing : Flowing state) : NeverWedged state := by
  intro isOpen
  obtain ⟨queue, packets, -, -, -, -, room, progress⟩ := flowing isOpen
  exact ⟨fun wedged => Nat.ne_of_gt room wedged.1, progress⟩

theorem recvRound_quiet (flowing : Flowing state) {offer : Nat}
    (isOpen : state.closed = false) (none : state.incoming.take offer = []) :
    Flowing (recvRound state offer) := by
  obtain ⟨queue, packets, ready, small, legal, joined, room, -⟩ :=
    flowing isOpen
  have asked : ¬ (state.node.recvBuffer.freespace = 0 ∧
      0 < state.node.recvBuffer.datalen) := by omega
  have result : state.node.read (.error true) =
      (0, { state.node with
        readAgain := false
        sysTimedOut := true
        myerrno := .wouldBlock }) := by
    unfold read
    simp only [if_neg asked, if_neg (Nat.ne_of_gt room), sysSocketRead]
    rfl
  have round : recvRound state offer =
      { state with
        node := { state.node with
          readAgain := false
          sysTimedOut := true
          myerrno := .wouldBlock }
        closed := false
        stalled := false } := by
    rw [recvRound, if_neg (by simp [isOpen]), none]
    simp only [if_true, result]
    rfl
  intro _
  rw [round]
  exact ⟨queue, packets, ⟨ready.standard, ready.represents, ready.quarter,
    ready.large⟩, small, legal, joined, room, rfl⟩

theorem recvRound_data {queue : List Byte} (ready : Ready state.node queue)
    (small : state.node.recvBuffer.capacity < 2 ^ 31)
    (room : 0 < state.node.recvBuffer.freespace) (isOpen : state.closed = false)
    {offer : Nat} {chunk : List Byte}
    (chunkEq : chunk =
      (state.incoming.take offer).take state.node.recvBuffer.freespace)
    (some : state.incoming.take offer ≠ []) :
    ∃ again, let filled : TcpNode :=
        { state.node with
          readAgain := again
          recvBuffer := state.node.recvBuffer.append chunk }
      recvRound state offer =
        { node := (filled.fetchAll (filled.recvBuffer.datalen + 1)).2.2
          incoming := state.incoming.drop chunk.length
          closed :=
            (filled.fetchAll (filled.recvBuffer.datalen + 1)).2.1 = -1
          stalled := false } := by
  obtain ⟨again, got, returned⟩ := read_data ready small room some
  rw [← chunkEq] at got
  have fits : chunk.length ≤ state.node.recvBuffer.freespace := by
    rw [chunkEq]
    exact length_take_le _ _
  have queued := (append_represents ready.represents fits).queue_length
  have before := ready.represents.queue_length
  have positive : 0 < chunk.length := by
    have := length_pos_iff.mpr some
    rw [chunkEq, length_take]
    omega
  rw [length_append] at queued
  have count : (state.node.recvBuffer.append chunk).datalen -
      state.node.recvBuffer.datalen = chunk.length := by omega
  refine ⟨again, ?_⟩
  rw [recvRound, if_neg (by simp [isOpen])]
  simp only [if_neg some, got, if_neg (Int.not_le.mpr returned), count,
    Nat.ne_of_gt positive]
  simp

/-- A round that does not end in front of the end of the buffer leaves tail
room. -/
theorem recvRound_flowing (flowing : Flowing state) (offer : Nat)
    (clears : Clears state offer) : Flowing (recvRound state offer) := by
  by_cases isOpen : state.closed = false
  swap
  · have closed : state.closed = true := by simpa using isOpen
    simpa [recvRound, closed] using flowing
  by_cases some : state.incoming.take offer = []
  · exact recvRound_quiet flowing isOpen some
  obtain ⟨queue, packets, ready, small, legal, joined, room, -⟩ :=
    flowing isOpen
  have clears := clears isOpen
  obtain ⟨chunk, chunkEq⟩ : ∃ chunk, chunk =
    (state.incoming.take offer).take state.node.recvBuffer.freespace := ⟨_, rfl⟩
  rw [afterRead, ready.represents.content_eq, ← chunkEq] at clears
  obtain ⟨again, round⟩ := recvRound_data ready small room isOpen chunkEq some
  have fits : chunk.length ≤ state.node.recvBuffer.freespace := by
    rw [chunkEq]
    exact length_take_le _ _
  have taken : chunk ++ state.incoming.drop chunk.length = state.incoming := by
    have front : chunk <+: state.incoming :=
      chunkEq ▸ (List.take_prefix _ _).trans (List.take_prefix _ _)
    obtain ⟨later, whole⟩ := front
    rw [← whole, drop_left]
  have appended := ready.append fits
  have filled : Ready
      { state.node with
        readAgain := again
        recvBuffer := state.node.recvBuffer.append chunk } (queue ++ chunk) :=
    ⟨appended.standard, appended.represents, appended.quarter, appended.large⟩
  rw [← taken, ← append_assoc] at joined
  rw [round]
  intro opened
  have fetched := fetchAll_spec filled.large legal (filled.remains joined)
    ((state.node.recvBuffer.append chunk).datalen + 1) (by
      rw [filled.represents.queue_length]
      exact Nat.lt_succ_self _)
  cases fetched with
  | stopped returned why done rest split messages =>
    simp [returned] at opened
  | exhausted returned done rest split messages left incomplete remains =>
    refine ⟨left, rest, remains.ready filled.large, ?_, ?_, remains.joined,
      ?_, rfl⟩
    · have capacity := remains.drained.capacity
      rw [append_capacity] at capacity
      exact capacity.trans_lt small
    · exact fun packet member => legal packet (by simp [split, member])
    · apply remains.room filled.large filled.represents.bounded
      have arrived : queue ++ chunk = done.flatten ++ left := by
        have all := joined
        rw [split, flatten_append, ← remains.joined, ← append_assoc] at all
        exact append_cancel_right all
      have complete := completeLen_eq done rest
        (fun packet member => (legal packet (by simp [split, member])).toFramed)
        (fun packet member => (legal packet (by simp [split, member])).toFramed)
        incomplete remains.joined (Nat.le_refl _)
      rw [arrived, complete] at clears
      rcases clears with short | whole | far
      · left
        have tail := ready.represents.freespace_eq
        have shorter : chunk.length ≤ (state.incoming.take offer).length := by
          rw [chunkEq]
          exact length_take_le' _ _
        rw [append_endOff, append_capacity]
        omega
      · right
        left
        rw [length_append] at whole
        exact length_eq_zero_iff.mp (by omega)
      · right
        right
        simpa using far

end RoundSteps

/-- A connection whose receive buffer has just been initialised on `block`,
with a stream of bytes to come. -/
def roundInitial (node : TcpNode) (block stream : List Byte) : RoundState :=
  { node := { node with
      recvBuffer := init block
      userDefinePacket := false }
    incoming := stream
    closed := false
    stalled := false }

variable (node : TcpNode) {block : List Byte}

theorem roundInitial_ready (sized : block.length = packetSize)
    (stream : List Byte) :
    Ready (roundInitial node block stream).node [] := by
  have size : packetSize = 65536 := rfl
  refine ⟨rfl, init_represents block, ?_, ?_⟩
  · show 0 < block.length / 4
    omega
  · show 32 ≤ block.length
    omega

theorem roundInitial_flowing (sized : block.length = packetSize)
    {packets : List (List Byte)} (legal : ∀ packet ∈ packets, Legal packet) :
    Flowing (roundInitial node block packets.flatten) := by
  have size : packetSize = 65536 := rfl
  have free : (init block).freespace = block.length :=
    (init_represents block).freespace_eq
  intro _
  refine ⟨[], packets, roundInitial_ready node sized _, ?_, legal, rfl, ?_, rfl⟩
  · show block.length < 2 ^ 31
    omega
  · show 0 < (init block).freespace
    omega

/-- On every stream of legal packets and for every way the socket hands it out,
a run whose rounds all clear the buffer is never wedged and never asks to be
repeated without progress. -/
theorem recvRun_neverWedged (node : TcpNode) (block : List Byte)
    (sized : block.length = packetSize) (packets : List (List Byte))
    (legal : ∀ packet ∈ packets, Legal packet) (offers : List Nat)
    (clears : Meets recvRound Clears
      (roundInitial node block packets.flatten) offers) :
    ∀ visited ∈ states recvRound (roundInitial node block packets.flatten)
      offers, NeverWedged visited := by
  have preserved (state : RoundState) (offer : Nat) (flowing : Flowing state)
      (clears : Clears state offer) : Flowing (recvRound state offer) :=
    recvRound_flowing flowing offer clears
  intro visited member
  have flowing := invariant_of_meets preserved
    (roundInitial_flowing node sized legal) clears visited member
  exact flowing.neverWedged

theorem samplePackets_clear (sized : block.length = packetSize) :
    Clears (roundInitial node block samplePackets.flatten) 100 := by
  have free : (init block).freespace = block.length :=
    (init_represents block).freespace_eq
  intro _
  left
  show 21 < (init block).freespace
  rw [free, sized]
  decide

/-- The three sample packets in one read. -/
theorem recvRun_neverWedged_sample :
    (List.replicate packetSize (0 : Byte)).length = packetSize ∧
      ∀ visited ∈ states recvRound (roundInitial (connectedNode [])
        (List.replicate packetSize 0) samplePackets.flatten) [100],
          NeverWedged visited :=
  ⟨length_replicate,
    recvRun_neverWedged (connectedNode []) (replicate packetSize 0)
      length_replicate samplePackets
      (fun packet member => (samplePackets_wellFormed packet member).elim
        (·.legal) (·.legal))
      [100] ⟨samplePackets_clear _ length_replicate, trivial⟩⟩

theorem fetchAll_two {first part missing second : List Byte}
    (valid : node.connectorValid = true)
    (standard : node.userDefinePacket = false)
    (holds : node.recvBuffer.Represents (first ++ part))
    (user : UserPacket first) (framed : Framed second)
    (joined : part ++ missing = second) (short : part.length < second.length)
    (rounds : Nat) :
    (node.fetchAll (rounds + 2)).2 =
      (0, { node with
        recvBuffer := node.recvBuffer.subData first.length
        isCryptPacket := false }) := by
  have opened : node.fetchMsg =
      ((first.length : Int), packetSwap first, { node with
        recvBuffer := node.recvBuffer.subData first.length
        isCryptPacket := false }) := by
    rw [fetchMsg, valid, refetch_packet holds user.toFramed standard, user.user]
    simp [openPacket, isEncrypt_packetSwap, user.plain]
  have positive : (0 : Int) < first.length := by
    have : 6 ≤ first.length := user.large
    omega
  have removed := subData_represents holds first.length
  rw [drop_left] at removed
  have stays : fetchMsg { node with
      recvBuffer := node.recvBuffer.subData first.length
      isCryptPacket := false } =
        (0, [], { node with
          recvBuffer := node.recvBuffer.subData first.length
          isCryptPacket := false }) := by
    have still : connectorValid { node with
        recvBuffer := node.recvBuffer.subData first.length
        isCryptPacket := false } = true := valid
    have whole : part ++ missing = second ++ [] := by simpa using joined
    rw [fetchMsg, still]
    exact refetch_incomplete removed whole framed short _
  rw [fetchAll, opened]
  simp only [if_pos positive]
  rw [fetchAll, stays]
  rfl

/-- A packet of six bytes and the first 65530 bytes of one of 65535 bytes fill
the buffer for good. -/
theorem recvRound_wedges {node : TcpNode} {block first second : List Byte}
    (sized : block.length = packetSize) (valid : node.connectorValid = true)
    (user : UserPacket first) (short : first.length = 6) (legal : Legal second)
    (long : second.length = 65535) :
    ¬ NeverWedged (recvRound (roundInitial node block (first ++ second))
      65536) := by
  have size : packetSize = 65536 := rfl
  have ready := roundInitial_ready node sized (first ++ second)
  have free : (init block).freespace = 65536 := by
    rw [(init_represents block).freespace_eq]
    show block.length - 0 = 65536
    omega
  have chunkEq : first ++ second.take 65530 =
      ((first ++ second).take 65536).take (init block).freespace := by
    have whole : first.take 65536 = first :=
      take_of_length_le (by omega)
    rw [free, take_take, Nat.min_self, take_append, short, whole]
  have filled := append_represents (init_represents block)
    (show (first ++ second.take 65530).length ≤ (init block).freespace by
      rw [free, length_append, length_take]
      omega)
  rw [nil_append] at filled
  obtain ⟨again, round⟩ := recvRound_data ready
    (show block.length < 2 ^ 31 by omega)
    (show 0 < (init block).freespace by omega) rfl chunkEq
    (by
      show (first ++ second).take 65536 ≠ []
      rw [← length_pos_iff, length_take, length_append]
      omega)
  have queued := filled.queue_length
  rw [length_append, length_take] at queued
  obtain ⟨rounds, enough⟩ : ∃ rounds,
      ((init block).append (first ++ second.take 65530)).datalen + 1 =
        rounds + 2 :=
    ⟨((init block).append (first ++ second.take 65530)).datalen - 1, by omega⟩
  let arrived : TcpNode :=
    { node with
      readAgain := again
      recvBuffer := (init block).append (first ++ second.take 65530)
      userDefinePacket := false }
  have fetched : (arrived.fetchAll (rounds + 2)).2 = _ :=
    fetchAll_two arrived valid rfl filled user legal.toFramed
      (take_append_drop 65530 second) (by simp; omega) rounds
  rw [← enough] at fetched
  have isOpen : (recvRound (roundInitial node block (first ++ second))
      65536).closed = false := by
    rw [round]
    have returned := congrArg Prod.fst fetched
    exact decide_eq_false (fun wrong => by cases returned.symm.trans wrong)
  have last : (recvRound (roundInitial node block (first ++ second))
      65536).node.recvBuffer =
        ((init block).append (first ++ second.take 65530)).subData 6 := by
    rw [round, ← short]
    exact congrArg (fun result => result.2.recvBuffer) fetched
  have removed := subData_represents filled 6
  rw [← short, drop_left, short] at removed
  have start : ((init block).append (first ++ second.take 65530)).startOff = 0 := by
    simp [init, reset]
  have stop : ((init block).append (first ++ second.take 65530)).endOff =
      65536 := by
    simp [init, reset]
    omega
  have capacity : ((init block).append (first ++ second.take 65530)).capacity =
      65536 := by
    rw [append_capacity]
    exact sized
  have near : ((init block).append (first ++ second.take 65530)).startOff + 6 <
      sizeofSizeT := by
    rw [start]
    decide
  have moved := subData_eq_of_small (by omega) near (by omega)
  intro never
  refine (never isOpen).1 ?_
  rw [last]
  refine ⟨?_, ?_, second, legal, ?_, ?_⟩
  · rw [removed.freespace_eq, moved, capacity, stop]
  · rw [removed.content_eq, ← length_pos_iff, length_take]
    omega
  · rw [removed.content_eq]
    exact List.take_prefix _ _
  · rw [removed.content_eq]
    intro same
    have length := congrArg length same
    rw [length_take] at length
    omega

def largestUserPacket : List Byte :=
  255 :: 255 :: 2 :: 0 :: List.replicate 65531 0

theorem length_largestUserPacket : largestUserPacket.length = 65535 := by
  have data : (replicate 65531 (0 : Byte)).length = 65531 :=
    length_replicate
  have header (bytes : List Byte) :
      (255 :: 255 :: 2 :: 0 :: bytes).length = bytes.length + 4 := rfl
  rw [largestUserPacket, header, data]

theorem largestUserPacket_legal : Legal largestUserPacket :=
  { counts := by
      rw [length_largestUserPacket]
      rfl
    large := by
      rw [length_largestUserPacket]
      decide
    system := by
      intro system
      cases system }

/-- Two legal user packets that arrive together in one read wedge the
connection. -/
theorem recvRun_wedges :
    ∃ visited ∈ states recvRound
        (roundInitial (connectedNode []) (List.replicate packetSize 0)
          [[0, 6, 2, 0, 1, 1], largestUserPacket].flatten) [65536],
      ¬ NeverWedged visited := by
  refine ⟨_, foldl_mem_states _ _ _, ?_⟩
  rw [foldl_cons, foldl_nil, flatten_cons, flatten_cons,
    flatten_nil, append_nil]
  exact recvRound_wedges length_replicate (by decide)
    ⟨⟨by decide, by decide⟩, by decide, by decide⟩ rfl
    largestUserPacket_legal length_largestUserPacket

end NdNet.TcpNode
