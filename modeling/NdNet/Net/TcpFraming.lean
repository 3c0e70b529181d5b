import NdNet.Lib.Runs
import NdNet.Net.TcpRecv

/-!
# Framing of the received stream

A run appends the bytes of one socket read after the other to the receive
buffer and fetches packets after each until no more comes.  Whatever the split
into reads, the messages fetched are the user packets of the stream.
-/

namespace NdNet.TcpNode

open LineBuf Runs List

/-- What the application sees of a stream: the user packets in host order. -/
def userMessages (packets : List (List Byte)) : List (List Byte) :=
  (packets.filter (fun packet => !ndsysMsg packet)).map packetSwap

@[simp] theorem userMessages_append (front rest : List (List Byte)) :
    userMessages (front ++ rest) = userMessages front ++ userMessages rest := by
  simp [userMessages]

theorem userMessages_systems {systems : List (List Byte)}
    (system : ∀ packet ∈ systems, ndsysMsg packet = true) :
    userMessages systems = [] := by
  simpa [userMessages] using system

def alives (packets : List (List Byte)) : Nat :=
  packets.countP ndsysMsg

structure Ready (node : TcpNode) (queue : List Byte) : Prop where
  standard : node.userDefinePacket = false
  represents : node.recvBuffer.Represents queue
  quarter : node.recvBuffer.startOff < node.recvBuffer.capacity / 4
  large : 32 ≤ node.recvBuffer.capacity

section Fetch

variable {node : TcpNode} {queue incoming : List Byte}
  {packets : List (List Byte)}

theorem Ready.append (ready : Ready node queue) {chunk : List Byte}
    (fits : chunk.length ≤ node.recvBuffer.freespace) :
    Ready { node with recvBuffer := node.recvBuffer.append chunk }
      (queue ++ chunk) :=
  { standard := ready.standard
    represents := append_represents ready.represents fits
    quarter := by simpa using ready.quarter
    large := by simpa using ready.large }

theorem Ready.remains (ready : Ready node queue)
    (joined : queue ++ incoming = packets.flatten) :
    Remains node.recvBuffer 0 node queue incoming packets :=
  { standard := ready.standard
    drained :=
      { represents := ready.represents
        capacity := rfl
        place := .advanced ready.quarter rfl rfl }
    joined := joined }

theorem Remains.ready {buf : LineBuf} {count : Nat} (large : 32 ≤ buf.capacity)
    (remains : Remains buf count node queue incoming packets) :
    Ready node queue := by
  have capacity := remains.drained.capacity
  refine ⟨remains.standard, remains.drained.represents, ?_, by omega⟩
  cases remains.drained.place with
  | advanced quarter start stop | moved quarter start stop
  | emptied start stop => omega

/-- What a round of fetches can end with: the connection is not valid, or some
packet is neither a plain user packet nor a keep-alive packet; or all packets
that have arrived are fetched. -/
inductive FetchAllEnd (buf : LineBuf) (count : Nat) (incoming : List Byte)
    (start : TcpNode) (packets : List (List Byte))
    (result : List (List Byte) × Int × TcpNode) : Prop
  | stopped (returned : result.2.1 = -1)
      (why : result.2.2.connectorValid = false ∨ ∃ packet ∈ packets,
        ¬ UserPacket packet ∧ ¬ AlivePacket packet)
      (done rest : List (List Byte)) (split : packets = done ++ rest)
      (messages : (∀ packet ∈ packets, UserPacket packet ∨ AlivePacket packet) →
        result.1 = userMessages done ∧ Answered start result.2.2 (alives done))
  | exhausted (returned : result.2.1 = 0)
      (done rest : List (List Byte)) (split : packets = done ++ rest)
      (messages : (∀ packet ∈ packets, UserPacket packet ∨ AlivePacket packet) →
        result.1 = userMessages done ∧ Answered start result.2.2 (alives done))
      (queue : List Byte) (incomplete : Incomplete queue rest)
      (remains : Remains buf (count + done.flatten.length) result.2.2 queue
        incoming rest)

theorem alive_of_system {packet : List Byte}
    (wellFormed : UserPacket packet ∨ AlivePacket packet)
    (system : ndsysMsg packet = true) : AlivePacket packet :=
  wellFormed.resolve_left fun user =>
    Bool.false_ne_true (user.user.symm.trans system)

theorem FetchAllEnd.cons {buf : LineBuf} {count : Nat} {start next : TcpNode}
    {result : List (List Byte) × Int × TcpNode} {systems : List (List Byte)}
    {packet message : List Byte}
    (system : ∀ packet ∈ systems, ndsysMsg packet = true)
    (user : ndsysMsg packet = false)
    (same : isEncrypt packet = false → message = packetSwap packet)
    (answers : (∀ other ∈ systems, AlivePacket other) →
      isEncrypt packet = false → Answered start next systems.length)
    (fetched : FetchAllEnd buf
      (count + (systems.flatten.length + packet.length)) incoming next packets
      result) :
    FetchAllEnd buf count incoming start (systems ++ packet :: packets)
      (message :: result.1, result.2) := by
  have handed {done : List (List Byte)}
      (messages : (∀ packet ∈ packets, UserPacket packet ∨ AlivePacket packet) →
        result.1 = userMessages done ∧ Answered next result.2.2 (alives done))
      (all : ∀ other ∈ systems ++ packet :: packets,
        UserPacket other ∨ AlivePacket other) :
      message :: result.1 = userMessages (systems ++ packet :: done) ∧
        Answered start result.2.2 (alives (systems ++ packet :: done)) := by
    obtain ⟨later, goesOn⟩ :=
      messages fun other member => all other (by simp [member])
    have plain : isEncrypt packet = false := by
      rcases all packet (by simp) with plain | alive
      · exact plain.plain
      · rw [alive.system] at user
        cases user
    have alive : ∀ other ∈ systems, AlivePacket other := fun other member =>
      alive_of_system (all other (by simp [member])) (system other member)
    have answered : alives (systems ++ packet :: done) =
        systems.length + alives done := by
      rw [alives, countP_append, countP_cons_of_neg (by simp [user]),
        countP_eq_length.mpr system]
      rfl
    constructor
    · rw [userMessages_append, userMessages_systems system, nil_append,
        later, same plain]
      simp [userMessages, user]
    · rw [answered]
      exact (answers alive plain).trans goesOn
  cases fetched with
  | stopped returned why done rest split messages =>
    refine .stopped returned ?_ (systems ++ packet :: done) rest
      (by simp [split]) (handed messages)
    refine why.imp id ?_
    rintro ⟨other, member, neither⟩
    exact ⟨other, by simp [member], neither⟩
  | exhausted returned done rest split messages queue incomplete remains =>
    refine .exhausted returned (systems ++ packet :: done) rest
      (by simp [split]) (handed messages) queue incomplete ?_
    simpa [Nat.add_assoc] using remains

/-- Fetching until nothing more comes, from a buffer that the legal packets to
come start in. -/
theorem fetchAll_spec {buf : LineBuf} (large : 32 ≤ buf.capacity)
    (legal : ∀ packet ∈ packets, Legal packet) {count : Nat}
    (remains : Remains buf count node queue incoming packets) (rounds : Nat)
    (enough : queue.length < rounds) :
    FetchAllEnd buf count incoming node packets (node.fetchAll rounds) := by
  induction rounds generalizing node queue count packets with
  | zero => omega
  | succ rounds induction =>
    unfold fetchAll fetchMsg
    cases valid : node.connectorValid with
    | false =>
      exact .stopped rfl (.inl valid) [] packets rfl
        fun _ => ⟨rfl, .refl node⟩
    | true =>
      have fetched := refetch_spec large legal remains
        (node.recvBuffer.datalen + 1) (by
          rw [remains.drained.represents.queue_length]
          omega)
      simp only [Bool.not_true, Bool.false_eq_true, if_false]
      cases fetched with
      | failed returned strange =>
        rw [if_neg (by omega)]
        refine .stopped returned (.inr strange) [] packets rfl
          fun all => ?_
        obtain ⟨packet, member, neither⟩ := strange
        exact ((all packet member).elim neither.1 neither.2).elim
      | exhausted returned systems rest split system left incomplete
          remains answered =>
          rw [if_neg (by omega)]
          refine .exhausted returned systems rest split (fun all => ?_) left
            incomplete remains
          have alive : ∀ packet ∈ systems, AlivePacket packet :=
            fun packet member => alive_of_system
              (all packet (by simp [split, member])) (system packet member)
          have answers := answered alive
          rw [← countP_eq_length.mpr system] at answers
          exact ⟨(userMessages_systems system).symm, answers⟩
      | handed returned systems packet rest split system user message left
          later answered =>
          rw [if_pos returned]
          subst split
          refine .cons system user message answered
            (induction (fun other member => legal other (by simp [member]))
              later ?_)
          have positive : 6 ≤ packet.length :=
            (legal packet (by simp)).large
          have before := congrArg length remains.joined
          have after := congrArg length later.joined
          simp only [length_append, flatten_append,
            flatten_cons] at before after
          omega

end Fetch

/-- A connection, the messages fetched from it so far, and whether a fetch has
returned `-1`. -/
structure FrameState where
  node : TcpNode
  delivered : List (List Byte)
  failed : Bool

/-- One socket read is appended to the receive buffer, and messages are fetched
until no more comes. -/
def frameStep (state : FrameState) (chunk : List Byte) : FrameState :=
  let filled := { state.node with
    recvBuffer := state.node.recvBuffer.append chunk }
  let fetched := filled.fetchAll (filled.recvBuffer.datalen + 1)
  { node := fetched.2.2
    delivered := state.delivered ++ fetched.1
    failed := state.failed || fetched.2.1 = -1 }

def ChunkFits (state : FrameState) (chunk : List Byte) : Prop :=
  chunk.length ≤ state.node.recvBuffer.freespace

instance (state : FrameState) (chunk : List Byte) :
    Decidable (ChunkFits state chunk) :=
  inferInstanceAs (Decidable (_ ≤ _))

/-- A connection whose receive buffer has just been initialised on `block`. -/
def frameInitial (node : TcpNode) (block : List Byte) : FrameState :=
  { node := { node with
      recvBuffer := init block
      userDefinePacket := false }
    delivered := []
    failed := false }

theorem frameInitial_ready (node : TcpNode) {block : List Byte}
    (sized : block.length = packetSize) :
    Ready (frameInitial node block).node [] := by
  have size : packetSize = 65536 := rfl
  exact
    { standard := rfl
      represents := init_represents block
      quarter := by
        show 0 < block.length / 4
        omega
      large := by
        show 32 ≤ block.length
        omega }

theorem frameInitial_freespace (node : TcpNode) (block : List Byte) :
    (frameInitial node block).node.recvBuffer.freespace = block.length :=
  (init_represents block).freespace_eq

section Runs

variable {state : FrameState} {queue incoming : List Byte}
  {packets : List (List Byte)}

theorem frameStep_invalid (invalid : state.node.connectorValid = false)
    (chunk : List Byte) :
    (frameStep state chunk).node.connectorValid = false ∧
      (frameStep state chunk).delivered = state.delivered ∧
      (frameStep state chunk).failed = true := by
  have still : connectorValid { state.node with
      recvBuffer := state.node.recvBuffer.append chunk } = false := invalid
  simp [frameStep, fetchAll, fetchMsg, still]

theorem frameRun_invalid (invalid : state.node.connectorValid = false)
    (failed : state.failed = true) (chunks : List (List Byte)) :
    (chunks.foldl frameStep state).node.connectorValid = false ∧
      (chunks.foldl frameStep state).delivered = state.delivered ∧
      (chunks.foldl frameStep state).failed = true := by
  induction chunks generalizing state with
  | nil => exact ⟨invalid, rfl, failed⟩
  | cons chunk chunks induction =>
    obtain ⟨still, same, reported⟩ := frameStep_invalid invalid chunk
    have later := induction still reported
    rwa [same] at later

theorem Answered.append {after : TcpNode} {answers : Nat} {buf : LineBuf}
    (answered : Answered { state.node with recvBuffer := buf } after answers) :
    Answered state.node after answers :=
  fun room able => answered room
    ⟨able.valid, able.written, able.ordered, able.room⟩

/-- From any point between two fetches on, what is fetched are the user packets
among those still to come, or the first of them up to where the connection was
found invalid. -/
theorem frameRun_spec {chunks : List (List Byte)}
    (wellFormed : ∀ packet ∈ packets, UserPacket packet ∨ AlivePacket packet)
    (ready : Ready state.node queue) (incomplete : Incomplete queue packets)
    (joined : queue ++ chunks.flatten = packets.flatten)
    (fits : Meets frameStep ChunkFits state chunks)
    (fine : state.failed = false) :
    ∃ done rest, packets = done ++ rest ∧
      (chunks.foldl frameStep state).delivered =
        state.delivered ++ userMessages done ∧
      Answered state.node (chunks.foldl frameStep state).node (alives done) ∧
      ((chunks.foldl frameStep state).failed = false ∧ rest = [] ∨
        (chunks.foldl frameStep state).failed = true ∧
          (chunks.foldl frameStep state).node.connectorValid = false) := by
  induction chunks generalizing state queue packets with
  | nil =>
    refine ⟨[], packets, rfl, by simp [userMessages], .refl _, .inl ⟨fine, ?_⟩⟩
    cases packets with
    | nil => rfl
    | cons packet packets =>
      have short := incomplete packet rfl
      have length := congrArg length joined
      simp at length
      omega
  | cons chunk chunks induction =>
    have filled := ready.append fits.1
    rw [flatten_cons, ← append_assoc] at joined
    have legal (packet : List Byte) (member : packet ∈ packets) :
        Legal packet :=
      (wellFormed packet member).elim (·.legal) (·.legal)
    have fetched := fetchAll_spec filled.large legal (filled.remains joined)
      ((state.node.recvBuffer.append chunk).datalen + 1) (by
        rw [filled.represents.queue_length]
        exact Nat.lt_succ_self _)
    rw [foldl_cons]
    cases fetched with
    | stopped returned why done rest split messages =>
      obtain ⟨same, answered⟩ := messages wellFormed
      have invalid : (frameStep state chunk).node.connectorValid = false :=
        why.resolve_right (fun strange => by
          obtain ⟨packet, member, neither⟩ := strange
          exact (wellFormed packet member).elim neither.1 neither.2)
      obtain ⟨still, unchanged, reported⟩ := frameRun_invalid invalid
        (by simp only [frameStep, returned]; simp) chunks
      refine ⟨done, rest, split, ?_, fun room able => ?_,
        .inr ⟨reported, still⟩⟩
      · rw [unchanged, ← same]
        rfl
      · have valid := (answered.append room able).valid
        exact absurd (valid.symm.trans invalid) (by decide)
    | exhausted returned done rest split messages left incomplete remains =>
      obtain ⟨same, answered⟩ := messages wellFormed
      have settled : Ready (frameStep state chunk).node left :=
        remains.ready filled.large
      have later := induction
        (fun packet member => wellFormed packet (by simp [split, member]))
        settled incomplete remains.joined fits.2
        (by simp only [frameStep, returned, fine]; rfl)
      obtain ⟨others, last, splitRest, delivered, goesOn, ending⟩ := later
      refine ⟨done ++ others, last, ?_, ?_, ?_, ending⟩
      · rw [split, splitRest, append_assoc]
      · rw [delivered, userMessages_append, ← append_assoc, ← same]
        rfl
      · rw [alives, countP_append]
        exact answered.append.trans goesOn

end Runs

def samplePackets : List (List Byte) :=
  [[0, 6, 2, 0, 1, 1], packetSwap makeAlivePack, [0, 7, 2, 0, 1, 2, 9]]

theorem samplePackets_wellFormed : ∀ packet ∈ samplePackets,
    UserPacket packet ∨ AlivePacket packet := by
  simp only [samplePackets, forall_mem_cons]
  exact ⟨.inl ⟨⟨by decide, by decide⟩, by decide, by decide⟩,
    .inr makeAlivePack_alive,
    .inl ⟨⟨by decide, by decide⟩, by decide, by decide⟩, by simp⟩

theorem samplePackets_fit (node : TcpNode) {block : List Byte}
    (sized : block.length = packetSize) :
    ChunkFits (frameInitial node block) samplePackets.flatten := by
  show 21 ≤ _
  rw [frameInitial_freespace, sized]
  decide

def sampleNode (results : List WriteResult) : TcpNode :=
  { connectedNode results with
    sendBuffer := init (List.replicate packetSize 0) }

theorem fetchAll_alive {node : TcpNode} (valid : node.connectorValid = true)
    (ready : Ready node (packetSwap makeAlivePack)) (rounds : Nat) :
    (node.fetchAll (rounds + 1)).1 = [] ∧
      (node.fetchAll (rounds + 1)).2.2.connectorValid =
        (node.connectorSend makeAlivePack ⟨true, false⟩).2.connectorValid := by
  have alive := makeAlivePack_alive
  have remains : Remains node.recvBuffer 0 node
      (packetSwap makeAlivePack ++ []) [] [packetSwap makeAlivePack] := by
    exact ready.remains rfl
  have holds := remains.drained.represents
  have empty := (remains.handled ready.large alive.legal
    alive.system).drained.represents.queue_eq_nil_iff.mp rfl
  have answered := sysmsgHander_alive holds alive
  have removed (rounds : Nat) :
      refetch { node.sysmsgHander.2 with
          recvBuffer := node.sysmsgHander.2.recvBuffer.subData
            (packetSwap makeAlivePack).length } rounds =
        (0, [], { node.sysmsgHander.2 with
          recvBuffer := node.sysmsgHander.2.recvBuffer.subData
            (packetSwap makeAlivePack).length }) := by
    cases rounds with
    | zero => rfl
    | succ rounds =>
      unfold refetch
      rw [if_pos (by rw [empty]; decide)]
  have fetched : node.fetchMsg = (0, [], { node.sysmsgHander.2 with
      recvBuffer := node.sysmsgHander.2.recvBuffer.subData
        (packetSwap makeAlivePack).length }) := by
    unfold fetchMsg
    rw [valid, refetch_packet holds alive.toFramed ready.standard,
      if_pos alive.system, answered]
    rw [if_neg (by decide : ¬ (0 : Int) = -1), ← answered]
    exact removed _
  have sent : (node.sysmsgHander.2).connectorValid =
      (node.connectorSend makeAlivePack ⟨true, false⟩).2.connectorValid := by
    rw [answered]
    exact congrArg (fun sent => sent.2.connectorValid)
      (connectorSend_withReceiver node (node.rewriteStream
        ((resum node.recvStream).2.take 8)).receiver makeAlivePack
          ⟨true, false⟩)
  unfold fetchAll
  rw [fetched]
  exact ⟨rfl, sent⟩

theorem connectorSend_failing {node : TcpNode}
    (valid : node.connectorValid = true) (session : node.isSession = true)
    (plain : node.checkedWrite = false) (empty : node.sendBuffer.datalen = 0)
    (fails : node.writeResults.head? = some (.error false)) :
    (node.connectorSend makeAlivePack ⟨true, false⟩).2.connectorValid =
      false := by
  unfold connectorSend
  rw [valid, trytoClearErr_of_valid valid]
  simp [send, sendBytes, sendWithSave, sysSocketWrite, plain, session, empty,
    fails, connectorValid]

/-- A keep-alive packet whose answer cannot be written ends the connection. -/
theorem frameStep_failing {state : FrameState} (ready : Ready state.node [])
    (free : (packetSwap makeAlivePack).length ≤ state.node.recvBuffer.freespace)
    (valid : state.node.connectorValid = true)
    (session : state.node.isSession = true)
    (plain : state.node.checkedWrite = false)
    (empty : state.node.sendBuffer.datalen = 0)
    (fails : state.node.writeResults.head? = some (.error false)) :
    (frameStep state (packetSwap makeAlivePack)).delivered = state.delivered ∧
      (frameStep state (packetSwap makeAlivePack)).node.connectorValid =
        false := by
  have filled := ready.append free
  have still : connectorValid { state.node with
      recvBuffer := state.node.recvBuffer.append (packetSwap makeAlivePack) } =
        true := valid
  obtain ⟨none, answered⟩ := fetchAll_alive still filled
    (state.node.recvBuffer.append (packetSwap makeAlivePack)).datalen
  rw [connectorSend_failing still session plain empty fails] at answered
  refine ⟨?_, answered⟩
  unfold frameStep
  dsimp only
  rw [none, append_nil]

end NdNet.TcpNode
