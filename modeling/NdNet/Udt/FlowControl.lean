import NdNet.Udt.Arrival

/-!
# Flow control

`window_len` counts what may still be sent into the window of the peer.  A send
takes its length from the counter, and every header that comes in overwrites
it, whatever is in flight, unless its window is 0.  So the peer's window is kept
in the runs whose packets all meet `Fits`: a window of 0 finds the counter at 0,
a window that comes with an acknowledgement acknowledges everything sent, and a
window without one announces no more than is left of the last.
-/

namespace NdNet

open Runs

namespace UdtPocket

/-- The handler takes both the window and `ack_seq` from the pocket. -/
def carriesBoth (pocket : UdtPocket) : Bool :=
  pocket.udtType ≠ .dgram &&
    (pocket.acknowledges || pocket.udtType = .lost)

end UdtPocket

namespace UdtNode

open NetStat

/-- `send_sequence` after each round of `while (flush_send_window() > 0){}` that
has sent new data. -/
def flushStops : Nat → UdtNode → List Seq
  | 0, _ => []
  | rounds + 1, node =>
    let flushed := node.flushSendWindow
    if 0 < flushed.1 then
      flushed.2.sendSequence :: flushStops rounds flushed.2
    else []

/-- `send_sequence` after each flush of `_udt_packet_handler` that has sent new
data. -/
def handlerStops (node : UdtNode) (pocket : UdtPocket) : List Seq :=
  if node.status.has reset then []
  else if pocket.udtType = .data then
    let income := ((node.noteArrival pocket).handleCarriedAck
      pocket).handleIncomeData pocket
    if 0 < income.1 then flushStops (income.2.windowLen + 1) income.2 else []
  else []

/-- The number the node sends from after a packet: that of an `NDUDT_LOST`
packet if it lies in the window. -/
def resumed (node : UdtNode) (pocket : UdtPocket) : Seq :=
  if pocket.udtType = .lost ∧
      0 < (pocket.sequence -
        (node.handleAck pocket.ackSeq).acknowledgedSeq).toInt ∧
      0 ≤ (node.sendSequence - pocket.sequence).toInt then pocket.sequence
  else node.sendSequence

end UdtNode

/-- A node, with the acknowledgement number and the window of the last packet
that carried both, the last window announced, and `send_sequence` after each
flush of the last call that has sent new data. -/
structure FlowState where
  node : UdtNode
  heard : Option (Seq × Nat)
  announced : Option Nat
  sent : List Seq

inductive FlowCall where
  | send (data : List Byte)
  | flushSendWindow
  | packet (pocket : UdtPocket)
  | elapse (now : NdTime)

open UdtNode NetStat

def flowStep (state : FlowState) : FlowCall → FlowState
  | .send data => { state with node := (state.node.send data).2, sent := [] }
  | .flushSendWindow =>
    let flushed := state.node.flushSendWindow
    { state with
      node := flushed.2
      sent := if 0 < flushed.1 then [flushed.2.sendSequence] else [] }
  | .packet pocket =>
    let processed := !state.node.status.has reset
    { node := (state.node.packetHandler pocket).2
      heard :=
        if processed && pocket.carriesBoth then
          some (pocket.ackSeq, pocket.windowLen)
        else state.heard
      announced :=
        if processed && pocket.udtType ≠ .dgram then some pocket.windowLen
        else state.announced
      sent := state.node.handlerStops pocket }
  | .elapse now =>
    { state with node := { state.node with now := now }, sent := [] }

namespace FlowState

/-- New data is sent into the window of the peer only, and none into a window
of 0. -/
structure WithinWindow (state : FlowState) : Prop where
  within : ∀ known ∈ state.heard, ∀ sent ∈ state.sent,
    (sent - known.1).toInt ≤ known.2
  closed : state.announced = some 0 → state.sent = []

instance (state : FlowState) : Decidable state.WithinWindow :=
  decidable_of_iff
    ((∀ known ∈ state.heard, ∀ sent ∈ state.sent,
      (sent - known.1).toInt ≤ known.2) ∧
        (state.announced = some 0 → state.sent = []))
    ⟨fun both => ⟨both.1, both.2⟩, fun law => ⟨law.within, law.closed⟩⟩

/-- An established connection of which nothing is in flight. -/
structure Opened (state : FlowState) : Prop where
  status : state.node.status.has established
  window : state.node.windowLen < 2 ^ 16
  heard : ∀ known ∈ state.heard,
    known = (state.node.sendSequence, state.node.windowLen)
  announced : ∀ window ∈ state.announced, window = state.node.windowLen
  sent : state.sent = []

/-- A packet that does not overwrite the counter with more than the peer has
room for. -/
def Fits (state : FlowState) : FlowCall → Prop
  | .packet pocket =>
    state.node.status.has reset ∨
      if pocket.windowLen = 0 then
        pocket.udtType = .dgram ∨ state.node.windowLen = 0
      else if pocket.carriesBoth then
        ((state.node.noteArrival pocket).resumed pocket -
          pocket.ackSeq).toInt ≤ 0
      else (pocket.udtType = .dgram → state.announced ≠ some 0) ∧
        ∀ known ∈ state.heard,
          (pocket.windowLen : Int) +
            ((state.node.noteArrival pocket).resumed pocket -
              known.1).toInt ≤ known.2
  | _ => True

instance (state : FlowState) : ∀ call, Decidable (state.Fits call)
  | .packet pocket => inferInstanceAs (Decidable
      (state.node.status.has reset = true ∨
        if pocket.windowLen = 0 then
          pocket.udtType = .dgram ∨ state.node.windowLen = 0
        else if pocket.carriesBoth then
          ((state.node.noteArrival pocket).resumed pocket -
            pocket.ackSeq).toInt ≤ 0
        else (pocket.udtType = .dgram → state.announced ≠ some 0) ∧
          ∀ known ∈ state.heard, (_ : Int) ≤ _))
  | .send _ | .flushSendWindow | .elapse _ => .isTrue trivial

end FlowState

def FlowCall.wellFormed : FlowCall → Prop
  | .packet pocket => pocket.windowLen < 2 ^ 16
  | _ => True

instance : ∀ call : FlowCall, Decidable call.wellFormed
  | .packet pocket => inferInstanceAs (Decidable (pocket.windowLen < 2 ^ 16))
  | .send _ | .flushSendWindow | .elapse _ => .isTrue trivial

namespace UdtNode

/-- The fields that flow control depends on. -/
structure CreditView where
  windowLen : Nat
  sendSequence : Seq
  live : Bool

def creditView (node : UdtNode) : CreditView :=
  { windowLen := node.windowLen
    sendSequence := node.sendSequence
    live := node.status.has established }

def SettledView.credit (view : SettledView) : CreditView :=
  { windowLen := view.windowLen
    sendSequence := view.sendSequence
    live := view.status.has established }

section CreditView

variable (node : UdtNode) (pocket : UdtPocket)

@[simp] theorem writePocketToSocket_creditView :
    (node.writePocketToSocket pocket).2.creditView = node.creditView :=
  congrArg SettledView.credit (writePocketToSocket_settledView node pocket)

@[simp] theorem sendAck_creditView :
    node.sendAck.2.creditView = node.creditView :=
  writePocketToSocket_creditView node _

@[simp] theorem handleIncomeData_creditView :
    (node.handleIncomeData pocket).2.creditView = node.creditView :=
  congrArg SettledView.credit (handleIncomeData_settledView node pocket)

theorem takeAcknowledged_creditView (ackSeq : Seq) :
    (node.takeAcknowledged ackSeq).creditView = node.creditView := by
  unfold takeAcknowledged
  split
  · split <;> rfl
  · rfl

variable {node}

theorem handleAck_creditView (live : node.status.has established)
    (ackSeq : Seq) : (node.handleAck ackSeq).creditView = node.creditView := by
  have started : node.status ≠ synrecv := by
    intro early
    rw [early] at live
    cases live
  unfold handleAck handleNewAck
  dsimp only
  split
  · rfl
  split
  · split
    · rename_i last
      have kept : (sendClosed node.status).has established = true :=
        sendClosed_has _ _ live
      show CreditView.mk _ ackSeq _ = CreditView.mk _ _ _
      rw [← last, kept, live]
    · rfl
  · split
    · exact takeAcknowledged_creditView node ackSeq
    · exact takeAcknowledged_creditView node ackSeq

theorem handleCarriedAck_creditView (live : node.status.has established) :
    (node.handleCarriedAck pocket).creditView = node.creditView := by
  unfold handleCarriedAck
  split
  · exact handleAck_creditView live _
  · rfl

theorem retranslateData_creditView (small : node.windowLen < 2 ^ 16) :
    node.retranslateData.2.creditView = node.creditView := by
  have kept : windowNotNegative node.windowLen = node.windowLen := by
    unfold windowNotNegative
    rw [intOfSize_of_lt (by omega), if_neg (by omega)]
  unfold retranslateData
  dsimp only
  split
  · rfl
  split
  · exact writePocketToSocket_creditView _ _
  · have written := writePocketToSocket_creditView
      { node with retransSeq := node.resentSeq 0, needAck := false }
      (node.resendPocket (min node.resendLen.toNat udtFragmentLen))
    rw [kept]
    exact congrArg₂ (CreditView.mk node.windowLen)
      (congrArg CreditView.sendSequence written)
      (congrArg CreditView.live written)

end CreditView

section Credit

/-- The counter is at most what is left of the peer's window behind the data in
flight. -/
structure Credit (heard : Option (Seq × Nat)) (announced : Option Nat)
    (view : CreditView) : Prop where
  live : view.live = true
  small : view.windowLen < 2 ^ 16
  known : ∀ known ∈ heard, known.2 < 2 ^ 16
  room : ∀ known ∈ heard, 0 < view.windowLen →
    (view.windowLen : Int) + (view.sendSequence - known.1).toInt ≤ known.2
  closed : announced = some 0 → view.windowLen = 0

variable {node : UdtNode} {heard : Option (Seq × Nat)} {announced : Option Nat}

/-- A flush changes nothing that flow control depends on, or it sends up to the
counter. -/
theorem flushSendWindow_creditView (small : node.windowLen < 2 ^ 16) :
    (node.flushSendWindow.1 ≤ 0 ∧
      node.flushSendWindow.2.creditView = node.creditView) ∨
    ∃ len, 0 < len ∧ len ≤ node.windowLen ∧
      node.flushSendWindow.2.creditView =
        { node.creditView with
          windowLen := node.windowLen - len
          sendSequence := node.sendSequence + BitVec.ofNat 32 len } := by
  unfold flushSendWindow
  split
  · exact .inl ⟨Int.le_refl 0, rfl⟩
  split
  · exact .inl ⟨Int.le_refl 0, rfl⟩
  rename_i unAck len start
  by_cases none : len = 0
  · rw [if_pos none]
    exact .inl ⟨Int.le_refl 0, rfl⟩
  rw [if_neg none]
  have written := writePocketToSocket_creditView
    { node with needAck := false } (node.windowPocket unAck len)
  by_cases failed : (writePocketToSocket { node with needAck := false }
      (node.windowPocket unAck len)).1 = -1
  · rw [if_pos failed]
    refine .inl ⟨?_, written⟩
    rw [failed]
    decide
  · right
    have inside : len ≤ node.windowLen := by
      unfold sendWindowStart at start
      dsimp only at start
      split at start
      · cases start
      · cases start
        exact Nat.min_le_left _ _
    have left_ : windowNotNegative (node.windowLen - len) =
        node.windowLen - len := by
      unfold windowNotNegative
      rw [intOfSize_of_lt (by omega), if_neg (by omega)]
    refine ⟨len, Nat.pos_of_ne_zero none, inside, ?_⟩
    rw [if_neg failed, left_]
    exact congrArg (CreditView.mk _ _) (congrArg CreditView.live written)

theorem Credit.flushSendWindow (holds : Credit heard announced node.creditView)
    :
    Credit heard announced node.flushSendWindow.2.creditView ∧
      (0 < node.flushSendWindow.1 →
        (∀ known ∈ heard,
          (node.flushSendWindow.2.sendSequence - known.1).toInt ≤ known.2) ∧
        announced ≠ some 0) := by
  have small : node.windowLen < 2 ^ 16 := holds.small
  rcases flushSendWindow_creditView small with
    ⟨nothing, same⟩ | ⟨len, positive, inside, sent⟩
  · rw [same]
    exact ⟨holds, fun some => absurd some (Int.not_lt.mpr nothing)⟩
  have sequence : node.flushSendWindow.2.sendSequence =
      node.sendSequence + BitVec.ofNat 32 len :=
    congrArg CreditView.sendSequence sent
  have reach (known : Seq × Nat) (member : known ∈ heard) :
      ((node.sendSequence + BitVec.ofNat 32 len) - known.1).toInt =
          (node.sendSequence - known.1).toInt + len ∧
        (node.windowLen : Int) + (node.sendSequence - known.1).toInt ≤
          known.2 := by
    have room : (node.windowLen : Int) +
        (node.sendSequence - known.1).toInt ≤ known.2 :=
      holds.room known member (Nat.lt_of_lt_of_le positive inside)
    have bound := holds.known known member
    refine ⟨?_, room⟩
    rw [add_sub_right_comm]
    exact Serial.toInt_advance (by omega)
  rw [sent]
  refine ⟨?_, fun _ => ⟨?_, ?_⟩⟩
  · refine
      { live := holds.live
        small := Nat.lt_of_le_of_lt (Nat.sub_le _ _) small
        known := holds.known
        room := ?_
        closed := ?_ }
    · intro known member _
      obtain ⟨advanced, room⟩ := reach known member
      show ((node.windowLen - len : Nat) : Int) +
        ((node.sendSequence + BitVec.ofNat 32 len) - known.1).toInt ≤ known.2
      omega
    · intro zero
      have empty : node.windowLen = 0 := holds.closed zero
      omega
  · intro known member
    obtain ⟨advanced, room⟩ := reach known member
    rw [sequence, advanced]
    omega
  · intro zero
    have empty : node.windowLen = 0 := holds.closed zero
    omega

theorem Credit.flushRounds (holds : Credit heard announced node.creditView)
    (rounds : Nat) :
    Credit heard announced (flushRounds rounds node).creditView ∧
      ∀ sent ∈ flushStops rounds node,
        (∀ known ∈ heard, (sent - known.1).toInt ≤ known.2) ∧
          announced ≠ some 0 := by
  induction rounds generalizing node with
  | zero =>
    refine ⟨holds, ?_⟩
    intro sent member
    cases member
  | succ rounds induction =>
    obtain ⟨flushed, law⟩ := holds.flushSendWindow
    unfold flushRounds flushStops
    by_cases more : 0 < node.flushSendWindow.1
    · rw [if_pos more, if_pos more]
      obtain ⟨kept, later⟩ := induction flushed
      refine ⟨kept, ?_⟩
      intro sent member
      rcases List.mem_cons.mp member with first | rest
      · rw [first]
        exact law more
      · exact later sent rest
    · rw [if_neg more, if_neg more]
      refine ⟨flushed, ?_⟩
      intro sent member
      cases member

end Credit

section Packet

variable {node : UdtNode} (pocket : UdtPocket)

theorem handleSyn_creditView (live : node.status.has established) :
    (node.handleSyn pocket).2.creditView = node.creditView := by
  have apart {status : NetStat} (early : status.has established = false) :
      node.status ≠ status := by
    intro same
    rw [same, early] at live
    cases live
  unfold handleSyn
  rw [if_neg (apart (by decide)), if_neg (apart (by decide))]
  split
  · split
    · exact sendAck_creditView node
    · rfl
  · rfl

theorem handleLost_creditView (small : node.windowLen < 2 ^ 16) :
    (node.handleLost pocket).creditView =
      { node.creditView with
        sendSequence :=
          if 0 < (pocket.sequence - node.acknowledgedSeq).toInt ∧
              0 ≤ (node.sendSequence - pocket.sequence).toInt then
            pocket.sequence
          else node.sendSequence } := by
  unfold handleLost
  by_cases inside : 0 < (pocket.sequence - node.acknowledgedSeq).toInt ∧
      0 ≤ (node.sendSequence - pocket.sequence).toInt
  · rw [if_pos inside, if_neg (by omega)]
    have resent : (retranslateData
        { node with sendSequence := pocket.sequence }).2.creditView = _ :=
      retranslateData_creditView small
    exact resent
  · rw [if_neg inside, if_pos (by omega)]
    rfl

theorem handleFin_creditView (live : node.status.has established) :
    (node.handleFin pocket).2.creditView = node.creditView := by
  have acked := handleCarriedAck_creditView pocket live
  have running : (node.handleCarriedAck pocket).status.has established =
      true := (congrArg CreditView.live acked).trans live
  unfold handleFin
  dsimp only
  refine Eq.trans (sendAck_creditView _) (Eq.trans ?_ acked)
  have flagged (flag : NetStat) :
      ((node.handleCarriedAck pocket).status ||| flag).has established =
        (node.handleCarriedAck pocket).status.has established := by
    rw [has_or, running, Bool.true_or]
  split
  · rfl
  · refine congrArg (CreditView.mk _ _) ?_
    split
    · rw [has_or, flagged, running, Bool.true_or]
    · exact flagged _

/-- Of all packets only one of type `NDUDT_LOST` changes `send_sequence`
otherwise than by a flush. -/
theorem dispatch_creditView (live : node.status.has established)
    (small : node.windowLen < 2 ^ 16) (other : pocket.udtType ≠ .data) :
    (node.dispatch pocket).2.creditView =
      { node.creditView with sendSequence := node.resumed pocket } := by
  have acked := handleAck_creditView live pocket.ackSeq
  have stays (kind : pocket.udtType ≠ .lost) :
      { node.creditView with sendSequence := node.resumed pocket } =
        node.creditView := by
    rw [resumed, if_neg (fun both => kind both.1)]
    rfl
  unfold dispatch
  cases kind : pocket.udtType with
  | data => exact absurd kind other
  | dgram =>
    rw [stays (by simp [kind])]
  | syn =>
    rw [stays (by simp [kind])]
    exact handleSyn_creditView pocket live
  | ack =>
    rw [stays (by simp [kind])]
    exact acked
  | fin =>
    rw [stays (by simp [kind])]
    exact handleFin_creditView pocket live
  | reset =>
    rw [stays (by simp [kind])]
    refine congrArg (CreditView.mk _ _) ?_
    rw [has_or, live, Bool.true_or]
  | alive | unknown => rw [stays (by simp [kind])]
  | lost =>
    have sequence : (node.handleAck pocket.ackSeq).sendSequence =
        node.sendSequence := congrArg CreditView.sendSequence acked
    have window : (node.handleAck pocket.ackSeq).windowLen =
        node.windowLen := congrArg CreditView.windowLen acked
    refine (handleLost_creditView pocket (window ▸ small)).trans ?_
    rw [acked, sequence, resumed]
    simp only [kind, true_and]

end Packet

end UdtNode

namespace FlowState

section Steps

variable {state : FlowState} {pocket : UdtPocket}

/-- The counter of the node is good for what the peer has announced, and the
last call has kept to it. -/
structure Kept (state : FlowState) : Prop where
  credit : Credit state.heard state.announced state.node.creditView
  law : state.WithinWindow

theorem Kept.quiet (credit : Credit state.heard state.announced
      state.node.creditView) (none : state.sent = []) : state.Kept := by
  refine ⟨credit, ⟨?_, fun _ => none⟩⟩
  intro known _ sent member
  rw [none] at member
  cases member

theorem Opened.kept (opened : state.Opened) : state.Kept := by
  refine .quiet ?_ opened.sent
  refine
    { live := opened.status
      small := opened.window
      known := ?_
      room := ?_
      closed := ?_ }
  · intro known member
    rw [opened.heard known member]
    exact opened.window
  · intro known member _
    rw [opened.heard known member]
    show (state.node.windowLen : Int) +
      (state.node.sendSequence - state.node.sendSequence).toInt ≤
        state.node.windowLen
    rw [sub_self]
    exact Int.le_refl _
  · intro zero
    exact (opened.announced 0 zero).symm

theorem Fits.credit (fits : state.Fits (.packet pocket))
    (formed : pocket.windowLen < 2 ^ 16)
    (running : state.node.status.has reset = false)
    (holds : Credit state.heard state.announced state.node.creditView) :
    Credit (flowStep state (.packet pocket)).heard
      (flowStep state (.packet pocket)).announced
      { windowLen := (state.node.noteArrival pocket).windowLen
        sendSequence := (state.node.noteArrival pocket).resumed pocket
        live := state.node.status.has established } := by
  have heard : (flowStep state (.packet pocket)).heard =
      if pocket.carriesBoth then some (pocket.ackSeq, pocket.windowLen)
      else state.heard := by
    simp [flowStep, running]
  have announced : (flowStep state (.packet pocket)).announced =
      if pocket.udtType ≠ .dgram then some pocket.windowLen
      else state.announced := by
    simp [flowStep, running]
  have fits := fits.resolve_left (by rw [running]; exact Bool.false_ne_true)
  have known : ∀ known ∈ (flowStep state (.packet pocket)).heard,
      known.2 < 2 ^ 16 := by
    intro known member
    rw [heard] at member
    split at member
    · cases member
      exact formed
    · exact holds.known known member
  by_cases zero : pocket.windowLen = 0
  · rw [if_pos zero] at fits
    have window : (state.node.noteArrival pocket).windowLen =
        state.node.windowLen :=
      if_neg (by rw [zero]; exact Nat.lt_irrefl 0)
    rcases fits with datagram | empty
    · have plain : pocket.carriesBoth = false := by
        simp [UdtPocket.carriesBoth, datagram]
      have resting : (state.node.noteArrival pocket).resumed pocket =
          state.node.sendSequence :=
        if_neg fun lost => by simp [datagram] at lost
      rw [plain] at heard
      rw [if_neg (not_not_intro datagram)] at announced
      rw [heard, announced, resting, window]
      exact holds
    · rw [empty] at window
      refine
        { live := holds.live
          small := ?_
          known := known
          room := ?_
          closed := fun _ => window }
      · show (state.node.noteArrival pocket).windowLen < _
        omega
      · intro known _ some
        have some : 0 < (state.node.noteArrival pocket).windowLen := some
        omega
  · rw [if_neg zero] at fits
    have window : (state.node.noteArrival pocket).windowLen =
        pocket.windowLen := if_pos (Nat.pos_of_ne_zero zero)
    refine
      { live := holds.live
        small := lt_of_eq_of_lt window formed
        known := known
        room := ?_
        closed := ?_ }
    · intro known member _
      rw [heard] at member
      rw [window]
      by_cases both : pocket.carriesBoth = true
      · rw [if_pos both] at fits member
        cases member
        show (pocket.windowLen : Int) +
          ((state.node.noteArrival pocket).resumed pocket -
            pocket.ackSeq).toInt ≤ pocket.windowLen
        omega
      · rw [if_neg both] at fits member
        exact fits.2 known member
    · intro closed
      rw [announced] at closed
      split at closed
      · exact absurd (Option.some.inj closed) zero
      · rename_i datagram
        have datagram := not_not.mp datagram
        have plain : ¬ pocket.carriesBoth = true := by
          simp [UdtPocket.carriesBoth, datagram]
        rw [if_neg plain] at fits
        exact absurd closed (fits.1 datagram)

theorem Kept.packet (holds : state.Kept) (fits : state.Fits (.packet pocket))
    (formed : pocket.windowLen < 2 ^ 16) :
    (flowStep state (.packet pocket)).Kept := by
  by_cases ended : state.node.status.has reset = true
  · have told : (state.node.packetHandler pocket).2.creditView =
        state.node.creditView := by
      unfold packetHandler
      rw [if_pos ended]
      exact writePocketToSocket_creditView _ _
    have heard : (flowStep state (.packet pocket)).heard = state.heard := by
      simp [flowStep, ended]
    have announced : (flowStep state (.packet pocket)).announced =
        state.announced := by
      simp [flowStep, ended]
    refine .quiet ?_ ?_
    · rw [heard, announced]
      exact told ▸ holds.credit
    · show state.node.handlerStops pocket = []
      rw [handlerStops, if_pos ended]
  · have running := Bool.eq_false_iff.mpr ended
    have credit := fits.credit formed running holds.credit
    have live : (state.node.noteArrival pocket).status.has established =
        true := holds.credit.live
    have handled : (state.node.packetHandler pocket).2 =
        ((state.node.noteArrival pocket).dispatch pocket).2 := by
      unfold packetHandler
      rw [if_neg ended]
      dsimp only
      split <;> rfl
    by_cases data : pocket.udtType = .data
    · have resting : (state.node.noteArrival pocket).resumed pocket =
          (state.node.noteArrival pocket).sendSequence :=
        if_neg fun lost => by simp [data] at lost
      have income := (handleIncomeData_creditView
        ((state.node.noteArrival pocket).handleCarriedAck pocket) pocket).trans
          (handleCarriedAck_creditView pocket live)
      have before : Credit (flowStep state (.packet pocket)).heard
          (flowStep state (.packet pocket)).announced
          (((state.node.noteArrival pocket).handleCarriedAck
            pocket).handleIncomeData pocket).2.creditView := by
        rw [income]
        rw [resting] at credit
        exact credit
      obtain ⟨after, law⟩ := before.flushRounds
        ((((state.node.noteArrival pocket).handleCarriedAck
          pocket).handleIncomeData pocket).2.windowLen + 1)
      have stops : (flowStep state (.packet pocket)).sent =
          if 0 < (((state.node.noteArrival pocket).handleCarriedAck
            pocket).handleIncomeData pocket).1 then
            flushStops ((((state.node.noteArrival pocket).handleCarriedAck
              pocket).handleIncomeData pocket).2.windowLen + 1)
              (((state.node.noteArrival pocket).handleCarriedAck
                pocket).handleIncomeData pocket).2
          else [] := by
        show state.node.handlerStops pocket = _
        rw [handlerStops, if_neg ended, if_pos data]
      have last : (flowStep state (.packet pocket)).node =
          if 0 < (((state.node.noteArrival pocket).handleCarriedAck
            pocket).handleIncomeData pocket).1 then
            (((state.node.noteArrival pocket).handleCarriedAck
              pocket).handleIncomeData pocket).2.flushAll
          else (((state.node.noteArrival pocket).handleCarriedAck
            pocket).handleIncomeData pocket).2 := by
        show (state.node.packetHandler pocket).2 = _
        rw [handled, dispatch, data]
        rfl
      by_cases some : 0 < (((state.node.noteArrival pocket).handleCarriedAck
          pocket).handleIncomeData pocket).1
      · rw [if_pos some] at stops last
        refine ⟨?_, ⟨?_, ?_⟩⟩
        · rw [last]
          exact after
        · intro known member sent inside
          rw [stops] at inside
          exact (law sent inside).1 known member
        · intro zero
          rw [stops, List.eq_nil_iff_forall_not_mem]
          intro sent inside
          exact (law sent inside).2 zero
      · rw [if_neg some] at stops last
        exact .quiet (last ▸ before) stops
    · have small : (state.node.noteArrival pocket).windowLen < 2 ^ 16 :=
        credit.small
      refine .quiet ?_ ?_
      · show Credit _ _ (state.node.packetHandler pocket).2.creditView
        rw [handled, dispatch_creditView pocket live small data]
        exact credit
      · show state.node.handlerStops pocket = []
        rw [handlerStops, if_neg ended, if_neg data]

theorem Kept.step (holds : state.Kept) {call : FlowCall}
    (fits : state.Fits call) (formed : call.wellFormed) :
    (flowStep state call).Kept := by
  cases call with
  | send data =>
    have same : (state.node.send data).2.creditView =
        state.node.creditView := by
      unfold UdtNode.send
      split
      · rfl
      · split <;> rfl
    refine .quiet ?_ rfl
    exact same ▸ holds.credit
  | flushSendWindow =>
    obtain ⟨credit, law⟩ := holds.credit.flushSendWindow
    refine ⟨credit, ?_⟩
    by_cases some : 0 < state.node.flushSendWindow.1
    · obtain ⟨within, open_⟩ := law some
      have sent : (flowStep state .flushSendWindow).sent =
          [state.node.flushSendWindow.2.sendSequence] := if_pos some
      refine ⟨?_, fun zero => absurd zero open_⟩
      intro known member number inside
      rw [sent, List.mem_singleton] at inside
      rw [inside]
      exact within known member
    · have none : (flowStep state .flushSendWindow).sent = [] :=
        if_neg some
      exact (Kept.quiet credit none).law
  | packet pocket => exact holds.packet fits formed
  | elapse now => exact .quiet holds.credit rfl

end Steps

/-- In every run whose packets fit, new data is sent into the window of the
peer only. -/
theorem flowRun_withinWindow {state : FlowState} (opened : state.Opened)
    {calls : List FlowCall} (formed : ∀ call ∈ calls, call.wellFormed)
    (fits : Meets flowStep Fits state calls) :
    ∀ visited ∈ states flowStep state calls, visited.WithinWindow := by
  have preserved (state : FlowState) (call : FlowCall) (holds : state.Kept)
      (met : state.Fits call ∧ call.wellFormed) : (flowStep state call).Kept :=
    holds.step met.1 met.2
  intro visited member
  exact (invariant_of_meets preserved opened.kept (fits.and_forall formed)
    visited member).law

section Samples

/-- An established connection whose peer has announced a window of 100. -/
def openedFlow : FlowState :=
  { node :=
      { connectedUdt 0 7 [] with
        windowLen := 100
        recvBuffer := ⟨false, packetSize, 0, 0, List.replicate packetSize 0⟩
        sendBuffer := ⟨false, packetSize, 0, 0, List.replicate packetSize 0⟩ }
    heard := some (0, 100)
    announced := some 100
    sent := [] }

theorem openedFlow_opened : openedFlow.Opened :=
  { status := by decide
    window := by decide
    heard := by
      intro known member
      cases member
      rfl
    announced := by
      intro window member
      cases member
      rfl
    sent := rfl }

def ackPacket (ackSeq : Seq) (window : Nat) : UdtPocket :=
  { UdtPocket.init.setAck ackSeq with udtType := .ack, windowLen := window }

/-- Everything is acknowledged before the window is announced anew. -/
theorem flowRun_withinWindow_acked :
    openedFlow.Opened ∧
      ∀ visited ∈ states flowStep openedFlow
          [.send [1, 2, 3, 4], .flushSendWindow, .packet (ackPacket 4 2),
            .send [5, 6, 7], .flushSendWindow, .packet (ackPacket 6 0),
            .flushSendWindow],
        visited.WithinWindow :=
  ⟨openedFlow_opened,
    flowRun_withinWindow openedFlow_opened (by decide) (by decide)⟩

theorem flushSendWindow_sends {state : FlowState} {unAck len : Nat}
    (idle : (state.node.status.has sendclose || state.node.isRetranslate) =
      false)
    (start : state.node.sendWindowStart = some (unAck, len)) (some : len ≠ 0)
    (taken : state.node.writeResults.head?.getD .sent = .sent) :
    (flowStep state .flushSendWindow).sent =
      [state.node.sendSequence + BitVec.ofNat 32 len] := by
  have written : 0 < state.node.flushSendWindow.1 ∧
      state.node.flushSendWindow.2.sendSequence =
        state.node.sendSequence + BitVec.ofNat 32 len := by
    unfold UdtNode.flushSendWindow
    rw [idle, if_neg Bool.false_ne_true, start]
    dsimp only
    rw [if_neg some]
    unfold writePocketToSocket
    dsimp only
    rw [taken]
    have header : 0 < (state.node.windowPocket unAck len).headerSize := by
      unfold UdtPocket.headerSize
      split <;> decide
    exact ⟨Int.natCast_pos.mpr (Nat.add_pos_left header _), rfl⟩
  show (if 0 < state.node.flushSendWindow.1 then
    [state.node.flushSendWindow.2.sendSequence] else []) = _
  rw [if_pos written.1, written.2]

/-- Data that is in flight is not taken from a window that is announced again,
and a window of 0 is passed over. -/
theorem flowRun_exceedsWindow :
    openedFlow.Opened ∧
      ¬ ([FlowCall.send [1, 2, 3, 4], .flushSendWindow,
          .packet (ackPacket 0 4), .send [5, 6, 7, 8],
          .flushSendWindow].foldl flowStep openedFlow).WithinWindow ∧
      ¬ ([FlowCall.packet (ackPacket 0 0), .send [1, 2, 3, 4],
          .flushSendWindow].foldl flowStep openedFlow).WithinWindow := by
  refine ⟨openedFlow_opened, ?_, ?_⟩
  · intro law
    have sent : (flowStep ([FlowCall.send [1, 2, 3, 4], .flushSendWindow,
        .packet (ackPacket 0 4), .send [5, 6, 7, 8]].foldl flowStep
          openedFlow) .flushSendWindow).sent = [_] :=
      flushSendWindow_sends (by decide) (show _ = some (4, 4) by decide)
        (by decide) (by decide)
    have within := law.within (0, 4) rfl 8 (sent ▸ List.mem_singleton_self _)
    exact absurd within (by decide)
  · intro law
    have sent : (flowStep ([FlowCall.packet (ackPacket 0 0),
        .send [1, 2, 3, 4]].foldl flowStep openedFlow)
          .flushSendWindow).sent = [_] :=
      flushSendWindow_sends (by decide) (show _ = some (0, 4) by decide)
        (by decide) (by decide)
    exact List.cons_ne_nil _ _ (sent.symm.trans (law.closed rfl))

end Samples

end FlowState

end NdNet
