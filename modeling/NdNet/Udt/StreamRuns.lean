import NdNet.Udt.Network

/-!
# Runs of a connection

What the application of either end gets is a prefix of what the other end has
accepted, and what has left a send buffer has been appended at the other end,
in every run whose steps avoid the defects of the data path and of closing.
-/

namespace NdNet

open Pieces Runs NetStat LineBuf

/-- The call at one side of the connection avoids the defects of the data
path. -/
def NetStreams (net : UdtNet) : Side × EndCall → Prop
  | (.left, call) => net.left.Streams net.right.node.wire call
  | (.right, call) => net.right.Streams net.left.node.wire call

/-- The call at one side of the connection avoids the defects of closing. -/
def NetCloses (net : UdtNet) : Side × EndCall → Prop
  | (.left, call) => net.left.Closes net.right.node.wire call
  | (.right, call) => net.right.Closes net.left.node.wire call

instance (net : UdtNet) : ∀ call, Decidable (NetStreams net call)
  | (.left, call) =>
    inferInstanceAs (Decidable (net.left.Streams net.right.node.wire call))
  | (.right, call) =>
    inferInstanceAs (Decidable (net.right.Streams net.left.node.wire call))

instance (net : UdtNet) : ∀ call, Decidable (NetCloses net call)
  | (.left, call) =>
    inferInstanceAs (Decidable (net.left.Closes net.right.node.wire call))
  | (.right, call) =>
    inferInstanceAs (Decidable (net.right.Closes net.left.node.wire call))

def StreamPrefix (net : UdtNet) : Prop :=
  net.left.appended <+: net.right.accepted ∧
    net.right.appended <+: net.left.accepted

def UdtEnd.released (side : UdtEnd) : List Byte :=
  side.accepted.take
    (side.accepted.length - side.node.sendBuffer.datalen)

def AckedAppended (net : UdtNet) : Prop :=
  net.left.released <+: net.right.appended ∧
    net.right.released <+: net.left.appended

/-- A buffer right after `ndlbuf_init`. -/
structure EmptyBuffer (buf : LineBuf) : Prop where
  fixed : buf.autoInc = false
  capacity : buf.capacity = packetSize
  empty : buf.Represents []

structure UdtEnd.Fresh (base peerBase : Seq) (side : UdtEnd) : Prop where
  status : side.node.status = established
  sent : side.node.sendSequence = base
  acked : side.node.acknowledgedSeq = base
  received : side.node.receivedSequence = peerBase
  calm : side.node.isRetranslate = false
  sendBuffer : EmptyBuffer side.node.sendBuffer
  recvBuffer : EmptyBuffer side.node.recvBuffer
  preList : side.node.preList = []
  wire : side.node.wire = []
  accepted : side.accepted = []
  taken : side.taken = []

def Connected (net : UdtNet) : Prop :=
  ∃ leftBase rightBase, net.left.Fresh leftBase rightBase ∧
    net.right.Fresh rightBase leftBase

namespace UdtEnd

variable {base peerBase : Seq} {side other : UdtEnd} {call : EndCall}

theorem send_accepts {node : UdtNode} {data : List Byte}
    (accepts : (node.send data).1 = data.length) :
    (node.send data).2.status.has finsend = false := by
  unfold UdtNode.send at accepts ⊢
  split at accepts
  · omega
  rename_i open_
  rw [if_neg open_]
  have unfinished : node.status.has finsend = false := by
    rw [Bool.or_eq_true, not_or] at open_
    simpa using open_.2
  split <;> exact unfinished

theorem endStep_accepted (wire : List UdtPocket) (side : UdtEnd)
    (call : EndCall) :
    (endStep wire side call).accepted = side.accepted ∨
      (endStep wire side call).node.status.has finsend = false ∧
        ∃ data, (endStep wire side call).accepted = side.accepted ++ data := by
  cases call with
  | send data =>
    unfold endStep
    dsimp only
    split
    · rename_i accepts
      exact .inr ⟨send_accepts accepts, data, rfl⟩
    · exact .inl rfl
  | arrive index =>
    unfold endStep
    dsimp only
    split <;> exact .inl rfl
  | _ => exact .inl rfl

section

variable (holds : side.InOrder base peerBase other)
include holds

variable (across : other.InOrder peerBase base side)
include across

theorem endStep_finsend (open_ : call ≠ .sendFin) :
    (endStep other.node.wire side call).node.status.has finsend =
      side.node.status.has finsend := by
  obtain ⟨acked, sent, released, sending⟩ := holds.sending
  cases call with
  | send data =>
    show (side.node.send data).2.status.has finsend = _
    unfold UdtNode.send
    split
    · rfl
    split <;> rfl
  | recv size =>
    show (side.node.recv size).2.status.has finsend = _
    unfold UdtNode.recv
    split <;> rfl
  | flushSendWindow =>
    exact congrArg (has · finsend) (UdtNode.flushSendWindow_status _)
  | updateSocket =>
    exact congrArg (has · finsend) (UdtNode.updateSocket_status _)
  | sendFin => exact absurd rfl open_
  | elapse now => rfl
  | arrive index =>
    unfold endStep
    dsimp only
    split
    · rename_i pocket arrived
      obtain ⟨_, _, _, posting⟩ := across.sending
      exact UdtNode.packetHandler_finsend sending.live
        (posting.wire pocket (List.mem_of_getElem? arrived))
    · rfl

theorem endStep_finsend_mono (closing : side.node.status.has finsend = true) :
    (endStep other.node.wire side call).node.status.has finsend = true := by
  by_cases fin : call = .sendFin
  · subst fin
    show side.node.sendFin.2.status.has finsend = true
    have written := UdtNode.status_congr
      (UdtNode.writePocketToSocket_sendView side.node.markFin
        { UdtPocket.init with
          udtType := .fin
          sequence := side.node.sendSequence })
    unfold UdtNode.sendFin
    dsimp only
    split
    · rw [written]
      exact UdtNode.markFin_finsend side.node
    · rw [written]
      exact UdtNode.markFin_finsend side.node
  · rw [endStep_finsend holds across fin]
    exact closing

theorem endStep_inOrder (streams : side.Streams other.node.wire call)
    (closes : side.Closes other.node.wire call) :
    (endStep other.node.wire side call).InOrder base peerBase other ∧
      other.InOrder peerBase base (endStep other.node.wire side call) := by
  have ready := UdtNode.Ready.endStep holds across streams closes
  obtain ⟨acked, sent, released, sending⟩ := ready.sending
  constructor
  · exact ready.peerStep rfl (.inl rfl) (fun finished => finished)
      ready.receiving.small ready.receiving.finSmall (Nat.le_refl _)
      sending.appendedSmall (Nat.le_refl _)
  · exact across.peerStep rfl (endStep_accepted _ _ _)
      (endStep_finsend_mono holds across) sending.small sending.finSmall
      ready.receiving.kept ready.receiving.length_lt (Nat.le_refl _)

end

theorem Fresh.inOrder (fresh : side.Fresh base peerBase)
    (peerFresh : other.Fresh peerBase base) :
    side.InOrder base peerBase other := by
  have content : side.node.recvBuffer.content = [] :=
    fresh.recvBuffer.empty.content_eq
  have nothing : side.appended = [] := by
    unfold appended
    rw [fresh.taken, content]
    rfl
  have peerNothing : other.appended = [] := by
    unfold appended
    rw [peerFresh.taken, peerFresh.recvBuffer.empty.content_eq]
    rfl
  have viewNothing : side.node.streamView.appended side.taken = [] := nothing
  have open_ : side.node.status.has finsend = false := by
    rw [fresh.status]
    decide
  have peerOpen : other.node.status.has finsend = false := by
    rw [peerFresh.status]
    decide
  refine ⟨⟨0, 0, 0, ?_⟩, ?_⟩
  · exact
      { live := by
          show side.node.status.has established = true
          rw [fresh.status]
          decide
        small := by
          rw [fresh.accepted]
          decide
        finSmall := fun closing => absurd closing (by
          simp [UdtNode.streamView, open_])
        fixed := fresh.sendBuffer.fixed
        capacity := fresh.sendBuffer.capacity
        buffer := by
          rw [fresh.accepted]
          exact fresh.sendBuffer.empty
        ackedSeq := by
          rw [show side.node.streamView.acknowledgedSeq = base from fresh.acked]
          exact (BitVec.add_zero base).symm
        sendSeq := by
          rw [show side.node.streamView.sendSequence = base from fresh.sent]
          exact (BitVec.add_zero base).symm
        acked_le := Nat.le_refl _
        sent_le := Nat.zero_le _
        released_le := Nat.zero_le _
        appendedSmall := by
          show other.appended.length < 2 ^ 32
          rw [peerNothing]
          decide
        phase := .inl rfl
        resend := fun again => absurd again (by
          simp [UdtNode.streamView, fresh.calm])
        wire := by
          rw [show side.node.streamView.wire = [] from fresh.wire]
          simp }
  · exact
      { small := by
          show other.accepted.length < 2 ^ 32
          rw [peerFresh.accepted]
          decide
        finSmall := fun closing => absurd closing (by
          simp [peer, peerOpen])
        fixed := fresh.recvBuffer.fixed
        capacity := fresh.recvBuffer.capacity
        buffer := { fresh.recvBuffer.empty with content_eq := rfl }
        number := by
          rw [viewNothing,
            show side.node.streamView.receivedSequence = peerBase from
              fresh.received]
          exact (BitVec.add_zero peerBase).symm
        agrees := by
          rw [viewNothing]
          exact agrees_nil _ _
        bounded := by
          rw [viewNothing]
          exact .inl (Nat.zero_le _)
        kept := Nat.le_refl _
        early := by
          rw [show side.node.streamView.preList = [] from fresh.preList]
          simp
        acks := by
          rw [show side.node.streamView.wire = [] from fresh.wire]
          simp }

/-- Without a FIN an end has appended a prefix of what its peer accepted. -/
theorem InOrder.isPrefix (holds : side.InOrder base peerBase other)
    (unfinished : other.node.status.has finsend = false) :
    side.appended <+: other.accepted := by
  have receiving := holds.receiving
  refine receiving.agrees.isPrefix ?_
  rcases receiving.bounded with inside | ⟨finished, -⟩
  · exact inside
  · have closing : other.node.status.has finsend = true := finished
    rw [unfinished] at closing
    cases closing

theorem InOrder.released_isPrefix (holds : side.InOrder base peerBase other)
    (across : other.InOrder peerBase base side) :
    side.released <+: other.appended := by
  obtain ⟨acked, sent, released, sending⟩ := holds.sending
  have left : side.node.sendBuffer.datalen =
      side.accepted.length - released := by
    have length := sending.buffer.queue_length
    rw [List.length_drop] at length
    exact length.symm
  have covered : released ≤ other.appended.length := sending.released_le
  refine across.receiving.agrees.take_isPrefix ?_
  show side.accepted.length - side.node.sendBuffer.datalen ≤
    other.appended.length
  omega

theorem closes_of_open (across : other.InOrder peerBase base side)
    (open_ : side.node.status.has finsend = false)
    (peerOpen : other.node.status.has finsend = false) (noFin : call ≠ .sendFin)
    :
    side.Closes other.node.wire call := by
  cases call with
  | sendFin => exact absurd rfl noFin
  | arrive index =>
    intro pocket arrived _
    obtain ⟨acked, sent, released, sending⟩ := across.sending
    have posted := sending.wire pocket (List.mem_of_getElem? arrived)
    constructor
    · intro kind
      rcases posted.1 with data | ack | ⟨-, -, finished⟩ | reset
      · rw [kind] at data
        cases data
      · rw [kind] at ack
        cases ack
      · rw [show other.node.streamView.status.has finsend = false from
          peerOpen] at finished
        cases finished
      · rw [kind] at reset
        cases reset
    · intro _ unfinished
      have closing := unfinished.1
      rw [open_] at closing
      cases closing
  | _ => trivial

end UdtEnd

def UdtNet.InOrder (leftBase rightBase : Seq) (net : UdtNet) : Prop :=
  net.left.InOrder leftBase rightBase net.right ∧
    net.right.InOrder rightBase leftBase net.left

def UdtNet.Open (net : UdtNet) : Prop :=
  net.left.node.status.has finsend = false ∧
    net.right.node.status.has finsend = false

section Runs

variable {leftBase rightBase : Seq} {net : UdtNet} {call : Side × EndCall}

theorem netStep_inOrder (holds : net.InOrder leftBase rightBase)
    (streams : NetStreams net call) (closes : NetCloses net call) :
    (netStep net call).InOrder leftBase rightBase := by
  obtain ⟨left, right⟩ := holds
  obtain ⟨_ | _, call⟩ := call
  · exact UdtEnd.endStep_inOrder left right streams closes
  · exact (UdtEnd.endStep_inOrder right left streams closes).symm

theorem netStep_open (holds : net.InOrder leftBase rightBase) (open_ : net.Open)
    (noFin : call.2 ≠ .sendFin) :
    (netStep net call).Open := by
  obtain ⟨left, right⟩ := holds
  obtain ⟨_ | _, call⟩ := call
  · exact ⟨(UdtEnd.endStep_finsend left right noFin).trans open_.1, open_.2⟩
  · exact ⟨open_.1, (UdtEnd.endStep_finsend right left noFin).trans open_.2⟩

theorem netCloses_of_open (holds : net.InOrder leftBase rightBase)
    (open_ : net.Open) (noFin : call.2 ≠ .sendFin) : NetCloses net call := by
  obtain ⟨left, right⟩ := holds
  obtain ⟨_ | _, call⟩ := call
  · exact UdtEnd.closes_of_open right open_.1 open_.2 noFin
  · exact UdtEnd.closes_of_open left open_.2 open_.1 noFin

theorem Connected.open_ (connected : Connected net) : net.Open := by
  obtain ⟨leftBase, rightBase, left, right⟩ := connected
  constructor
  · rw [left.status]
    decide
  · rw [right.status]
    decide

theorem Connected.inOrder (connected : Connected net) :
    ∃ leftBase rightBase, net.InOrder leftBase rightBase := by
  obtain ⟨leftBase, rightBase, left, right⟩ := connected
  exact ⟨leftBase, rightBase, left.inOrder right, right.inOrder left⟩

end Runs

def newBuffer : LineBuf :=
  { autoInc := false
    capacity := packetSize
    startOff := 0
    endOff := 0
    storage := List.replicate packetSize 0 }

theorem newBuffer_empty : EmptyBuffer newBuffer :=
  { fixed := rfl
    capacity := rfl
    empty :=
      { ordered := Nat.le_refl _
        bounded := Nat.zero_le _
        storage_length := List.length_replicate
        content_eq := rfl } }

def newEnd (base peerBase : Seq) : UdtEnd :=
  { node :=
      { UdtNode.connectedUdt base peerBase [] with
        recvBuffer := newBuffer
        sendBuffer := newBuffer }
    accepted := []
    taken := [] }

theorem newEnd_fresh (base peerBase : Seq) :
    (newEnd base peerBase).Fresh base peerBase :=
  { status := rfl
    sent := rfl
    acked := rfl
    received := rfl
    calm := rfl
    sendBuffer := newBuffer_empty
    recvBuffer := newBuffer_empty
    preList := rfl
    wire := rfl
    accepted := rfl
    taken := rfl }

def newNet : UdtNet :=
  { left := newEnd 100 7
    right := newEnd 7 100 }

theorem newNet_connected : Connected newNet :=
  ⟨100, 7, newEnd_fresh 100 7, newEnd_fresh 7 100⟩

/-- As long as no end closes, either end has appended a prefix of what the
other one has accepted. -/
theorem netRun_stream {net : UdtNet} (connected : Connected net)
    {calls : List (Side × EndCall)}
    (noFin : ∀ call ∈ calls, call.2 ≠ .sendFin)
    (streams : Meets netStep NetStreams net calls) :
    ∀ visited ∈ states netStep net calls, StreamPrefix visited := by
  obtain ⟨leftBase, rightBase, initial⟩ := connected.inOrder
  have meets : Meets netStep
      (fun net call => NetStreams net call ∧ call.2 ≠ .sendFin) net calls :=
    streams.and_forall noFin
  have preserved : ∀ (net : UdtNet) (call : Side × EndCall),
      net.InOrder leftBase rightBase ∧ net.Open →
      NetStreams net call ∧ call.2 ≠ .sendFin →
      (netStep net call).InOrder leftBase rightBase ∧ (netStep net call).Open := by
    intro net call ⟨holds, open_⟩ ⟨streams, noFin⟩
    exact ⟨netStep_inOrder holds streams (netCloses_of_open holds open_ noFin),
      netStep_open holds open_ noFin⟩
  intro visited member
  obtain ⟨⟨left, right⟩, open_⟩ := invariant_of_meets preserved
    ⟨initial, connected.open_⟩ meets visited member
  exact ⟨left.isPrefix open_.2, right.isPrefix open_.1⟩

def resendRun : List (Side × EndCall) :=
  [(.left, .send [1, 2]), (.left, .flushSendWindow), (.left, .elapse 30000),
    (.left, .updateSocket), (.right, .arrive 1), (.right, .updateSocket),
    (.left, .arrive 0), (.right, .recv 1), (.right, .arrive 0)]

theorem netRun_stream_resent :
    Connected newNet ∧
      ∀ visited ∈ states netStep newNet resendRun, StreamPrefix visited :=
  ⟨newNet_connected,
    netRun_stream newNet_connected (by decide) (by decide +kernel)⟩

/-- The left end gets data of its peer before it sends its lost data again. -/
def resendWithAckRun : List (Side × EndCall) :=
  [(.left, .send [1, 2]), (.left, .flushSendWindow), (.right, .send [9]),
    (.right, .flushSendWindow), (.left, .arrive 0), (.left, .elapse 30000),
    (.left, .updateSocket), (.right, .arrive 1)]

/-- The pending acknowledgement ends up in the data. -/
theorem netRun_stream_altered :
    ¬ ∀ net calls, Connected net → (∀ call ∈ calls, call.2 ≠ EndCall.sendFin) →
      ∀ visited ∈ states netStep net calls, StreamPrefix visited := by
  intro claim
  have holds := claim newNet resendWithAckRun newNet_connected (by decide) _
    (foldl_mem_states netStep newNet resendWithAckRun)
  exact absurd holds.2 (by decide +kernel)

/-- What has left a send buffer has been appended at the other end. -/
theorem netRun_acked {net : UdtNet} (connected : Connected net)
    {calls : List (Side × EndCall)}
    (meets : Meets netStep
      (fun net call => NetStreams net call ∧ NetCloses net call) net calls) :
    ∀ visited ∈ states netStep net calls, AckedAppended visited := by
  obtain ⟨leftBase, rightBase, initial⟩ := connected.inOrder
  have preserved : ∀ (net : UdtNet) (call : Side × EndCall),
      net.InOrder leftBase rightBase →
      NetStreams net call ∧ NetCloses net call →
      (netStep net call).InOrder leftBase rightBase :=
    fun _ _ holds avoids => netStep_inOrder holds avoids.1 avoids.2
  intro visited member
  obtain ⟨left, right⟩ := invariant_of_meets preserved initial meets visited
    member
  exact ⟨left.released_isPrefix right, right.released_isPrefix left⟩

def closeRun : List (Side × EndCall) :=
  [(.left, .send [1, 2]), (.left, .flushSendWindow), (.left, .sendFin),
    (.right, .arrive 0), (.right, .arrive 1), (.left, .arrive 0)]

theorem netRun_acked_closing :
    Connected newNet ∧
      ∀ visited ∈ states netStep newNet closeRun, AckedAppended visited :=
  ⟨newNet_connected, netRun_acked newNet_connected (by decide +kernel)⟩

def overtakingRun : List (Side × EndCall) :=
  [(.left, .send [1, 2]), (.left, .flushSendWindow), (.left, .sendFin),
    (.right, .arrive 1), (.left, .arrive 0)]

/-- The acknowledgement of the FIN empties the send buffer. -/
theorem netRun_acked_overtaken :
    ¬ ∀ net calls, Connected net →
      ∀ visited ∈ states netStep net calls, AckedAppended visited := by
  intro claim
  have holds := claim newNet overtakingRun newNet_connected _
    (foldl_mem_states netStep newNet overtakingRun)
  exact absurd holds.1 (by decide +kernel)

end NdNet
