import Mathlib.Data.List.Perm.Basic
import Mathlib.Logic.Function.Basic
import NdNet.Net.TcpFraming
import NdNet.Net.TcpSend

/-!
# Keep-alive packets between two endpoints

A silent endpoint sends an alive packet when its timer runs out, in
`_tcp_node_update` or `_tcp_session_update`, and `nd_net_sysmsg_hander` answers
every alive packet that arrives with one of its own.  A `Link` is the two
endpoints with the packets in flight between them; each packet is marked with
the code that sent it, so that the answers can be told from the others.

An answer is an alive packet, and is answered in turn.  As long as none is
delivered to a valid connection, each packet of a timer is answered once; one
delivered answer is enough to keep an exchange going for ever.
-/

namespace NdNet

open List

def ndAliveTimeout : UInt32 := 30000

/-- The fields of a connection that its update looks at, besides the node. -/
structure Endpoint where
  node : TcpNode
  lastRecv : UInt32
  disconnTimeout : UInt32
  withoutAlive : Bool

/-- What an update comes back with: its result, the result of sending the alive
packet if it sends one, and the node. -/
structure Updated where
  result : Int
  alive : Option Int
  node : TcpNode

def esfUrgency : SendFlag := ⟨true, false⟩

namespace Endpoint

/-- The alive packet in `_tcp_node_update`, after the send buffer has been
pushed with this result. -/
def nodeAlive (endpoint : Endpoint) (pushed : Int × TcpNode) : Updated :=
  let half := endpoint.disconnTimeout >>> 1
  let aliveTimeout := if half = 0 then ndAliveTimeout else half
  if pushed.1 = 0 ∧ endpoint.withoutAlive = false ∧
      aliveTimeout < pushed.2.now - pushed.2.lastPush then
    let sent := pushed.2.send (packetSwap makeAlivePack) esfUrgency
    ⟨sent.1, some sent.1, sent.2⟩
  else ⟨0, none, pushed.2⟩

def tcpNodeUpdate (endpoint : Endpoint) : Updated :=
  let node := endpoint.node
  if node.fd = 0 ∨ node.checkError ∨ node.status ≠ .connected then
    ⟨-1, none, node⟩
  else
    let updated := endpoint.nodeAlive node.pushSendbuf
    if endpoint.disconnTimeout < node.now - endpoint.lastRecv then
      ⟨-1, updated.alive, { updated.node with myerrno := .timeout }⟩
    else updated

def tcpSessionUpdate (endpoint : Endpoint) : Updated :=
  let pushed := endpoint.node.pushSendbuf
  if pushed.1 ≤ 0 ∧ endpoint.withoutAlive = false ∧
      ndAliveTimeout < pushed.2.now - pushed.2.lastPush then
    let sent := pushed.2.connectorSend makeAlivePack esfUrgency
    ⟨sent.1, some sent.1, sent.2⟩
  else ⟨pushed.1, none, pushed.2⟩

end Endpoint

namespace TcpNode

/-- The call of `nd_connector_send` in `nd_net_sysmsg_hander`, when the message
is an alive packet that passes the tests. -/
def answerAlive (node : TcpNode) : Option (Int × TcpNode) :=
  let pack := node.recvStream
  let summed := resum pack
  if hostU16 pack 6 = summed.1 ∧ hostU16 summed.2 4 = ersvAliveId ∧
      packLen summed.2 = 8 ∧ stuffLen summed.2 = 5 then
    some ((node.rewriteStream (summed.2.take 8)).connectorSend makeAlivePack
      esfUrgency)
  else none

/-- The tests that lead from `__net_fetch_msg` to `nd_net_sysmsg_hander`. -/
def FetchesSysmsg (node : TcpNode) : Prop :=
  node.connectorValid = true ∧ packetHdrSize ≤ node.recvBuffer.datalen ∧
    minPacketLen ≤ getPackSize node.recvStream ∧
    getPackSize node.recvStream ≤ packetSize ∧
    getPackSize node.recvStream ≤ node.recvBuffer.datalen ∧
    node.userDefinePacket = false ∧ ndsysMsg node.recvStream = true

instance (node : TcpNode) : Decidable node.FetchesSysmsg :=
  inferInstanceAs (Decidable (_ ∧ _))

/-- The result of sending the answer to the first packet that
`__net_fetch_msg` finds, if it sends one. -/
def fetchAnswer (node : TcpNode) : Option Int :=
  if node.FetchesSysmsg then node.answerAlive.map fun sent => sent.1 else none

def load (node : TcpNode) (packet : List Byte) : TcpNode :=
  { node with recvBuffer := node.recvBuffer.reset.append packet }

end TcpNode

inductive ConnSide where
  | left
  | right
  deriving DecidableEq, Repr

def ConnSide.other : ConnSide → ConnSide
  | .left => .right
  | .right => .left

/-- The code that has sent a packet. -/
inductive Origin where
  /-- `_tcp_node_update` or `_tcp_session_update` -/
  | timer
  /-- `nd_net_sysmsg_hander` -/
  | answer
  /-- The program that uses the connection. -/
  | message
  deriving DecidableEq, Repr

structure Flying where
  origin : Origin
  packet : List Byte
  deriving DecidableEq

/-- Two connected endpoints.  `flying` holds the packets on their way to a
side; `timers` and `answers` count the alive packets sent so far. -/
structure Link where
  ends : ConnSide → Endpoint
  flying : ConnSide → List Flying
  timers : Nat
  answers : Nat

/-- What the system gives to a step: the time and the results of the next socket
writes. -/
structure Surroundings where
  now : UInt32
  writes : List WriteResult

/-- A message of the program; it does not carry the mark of system messages. -/
structure ProgramMsg where
  bytes : List Byte
  user : ndsysMsg bytes = false

/-- The packet that `nd_connector_send` makes of a message. -/
def ProgramMsg.packet (msg : ProgramMsg) : List Byte :=
  TcpNode.packetOf
    (packetSwap (Store.overwrite msg.bytes 2 [ndnetmsgVersion]))

inductive LinkStep where
  | nodeUpdate (side : ConnSide) (given : Surroundings)
  | sessionUpdate (side : ConnSide) (given : Surroundings)
  | send (side : ConnSide) (msg : ProgramMsg) (flag : SendFlag)
      (given : Surroundings)
  | deliver (side : ConnSide) (index : Nat) (given : Surroundings)
  /-- Code that sends nothing changes an endpoint. -/
  | change (side : ConnSide) (endpoint : Endpoint)

namespace Link

/-- An endpoint in the surroundings of a step. -/
def ready (link : Link) (side : ConnSide) (given : Surroundings) : Endpoint :=
  { link.ends side with
    node := { (link.ends side).node with
      now := given.now
      writeResults := given.writes } }

def setNode (link : Link) (side : ConnSide) (node : TcpNode) : Link :=
  { link with
    ends := Function.update link.ends side
      { link.ends side with node := node } }

/-- Count a packet that has been sent; a packet that is reported as sent whole
is on its way to the other side. -/
def record (link : Link) (side : ConnSide) (origin : Origin)
    (packet : List Byte) (result : Int) : Link :=
  { link with
    flying :=
      if result = packet.length then
        Function.update link.flying side.other
          (link.flying side.other ++ [⟨origin, packet⟩])
      else link.flying
    timers := link.timers + if origin = .timer ∧ 0 < result then 1 else 0
    answers := link.answers + if origin = .answer ∧ 0 < result then 1 else 0 }

def recordAlive (link : Link) (side : ConnSide) (origin : Origin) :
    Option Int → Link
  | none => link
  | some result => link.record side origin (packetSwap makeAlivePack) result

def without (link : Link) (side : ConnSide) (index : Nat) : Link :=
  { link with
    flying := Function.update link.flying side
      ((link.flying side).eraseIdx index) }

/-- The packet leaves the network, and `__net_fetch_msg` looks at it. -/
def deliver (link : Link) (side : ConnSide) (index : Nat) (given : Surroundings)
    (packet : List Byte) : Link :=
  let node := (link.ready side given).node.load packet
  ((link.without side index).setNode side node.fetchMsg.2.2).recordAlive side
    .answer node.fetchAnswer

def step (link : Link) : LinkStep → Link
  | .nodeUpdate side given =>
    let updated := (link.ready side given).tcpNodeUpdate
    (link.setNode side updated.node).recordAlive side .timer updated.alive
  | .sessionUpdate side given =>
    let updated := (link.ready side given).tcpSessionUpdate
    (link.setNode side updated.node).recordAlive side .timer updated.alive
  | .send side msg flag given =>
    let sent := (link.ready side given).node.connectorSend msg.bytes flag
    (link.setNode side sent.2).record side .message msg.packet sent.1
  | .deliver side index given =>
    match (link.flying side)[index]? with
    | none => link
    | some flying => link.deliver side index given flying.packet
  | .change side endpoint =>
    { link with ends := Function.update link.ends side endpoint }

def Quiet (link : Link) : LinkStep → Prop
  | .deliver side index _ =>
    ∀ flying, (link.flying side)[index]? = some flying →
      flying.origin = .answer → (link.ends side).node.connectorValid = false
  | _ => True

def total (link : Link) : Nat := link.timers + link.answers

end Link

variable {packet : List Byte}

namespace TcpNode

open Store

theorem byteAt_load (node : TcpNode) {offset : Nat}
    (inside : offset < packet.length) :
    byteAt (node.load packet).recvStream offset = byteAt packet offset ∨
      byteAt (node.load packet).recvStream offset = 0 := by
  have start : (node.load packet).recvBuffer.startOff = 0 := by
    rw [load, LineBuf.append_startOff]
    rfl
  have cell : (node.load packet).recvBuffer.storage[offset]? =
      if offset < node.recvBuffer.storage.length then packet[offset]?
      else none := by
    have loaded : (overwrite (overwrite node.recvBuffer.storage 0 [0]) 0
        packet)[offset]? =
          if offset < node.recvBuffer.storage.length then packet[offset]?
          else none := by
      rw [getElem?_overwrite, length_overwrite, Nat.zero_add, Nat.sub_zero]
      by_cases stored : offset < node.recvBuffer.storage.length
      · rw [if_pos ⟨stored, Nat.zero_le _, inside⟩, if_pos stored]
      · rw [if_neg (fun all => stored all.1), if_neg stored, getElem?_eq_none]
        rw [length_overwrite]
        exact Nat.le_of_not_lt stored
    simp only [load, LineBuf.append, LineBuf.addData, LineBuf.setZeroTail,
      LineBuf.reset, Nat.zero_add]
    by_cases tail : packet.length < node.recvBuffer.capacity
    · rw [if_pos tail, getElem?_overwrite, if_neg (by omega)]
      exact loaded
    · rw [if_neg tail]
      exact loaded
  simp only [byteAt, getD_eq_getElem?_getD, recvStream, start,
    getElem?_slice, Nat.zero_add]
  rw [cell]
  by_cases stored : offset < node.recvBuffer.storage.length
  · by_cases seen : offset < (node.load packet).recvBuffer.storage.length
    · rw [if_pos seen, if_pos stored]
      exact .inl rfl
    · rw [if_neg seen]
      exact .inr rfl
  · right
    split <;> rfl

theorem ndsysMsg_load (node : TcpNode) (header : packetHdrSize ≤ packet.length)
    (user : ndsysMsg packet = false) :
    ndsysMsg (node.load packet).recvStream = false := by
  have flags : 3 < packet.length := header
  rcases node.byteAt_load flags with same | zero
  · rw [ndsysMsg, same]
    exact user
  · rw [ndsysMsg, zero]
    rfl

theorem fetchAnswer_message (node : TcpNode) (user : ndsysMsg packet = false) :
    (node.load packet).fetchAnswer = none := by
  unfold fetchAnswer
  rw [if_neg]
  rintro ⟨-, header, -, -, -, -, system⟩
  have length : (node.load packet).recvBuffer.datalen = packet.length := by
    rw [LineBuf.datalen, load, LineBuf.append_endOff, LineBuf.append_startOff]
    exact (sizeSub_of_le (Nat.zero_le _)).trans (Nat.zero_add _)
  rw [length] at header
  rw [node.ndsysMsg_load header user] at system
  cases system

end TcpNode

theorem ProgramMsg.packet_user (msg : ProgramMsg) : ndsysMsg msg.packet = false := by
  have user := msg.user
  have flags : byteAt msg.packet 3 = byteAt msg.bytes 3 ∨
      byteAt msg.packet 3 = 0 := by
    unfold ProgramMsg.packet TcpNode.packetOf
    by_cases header : 3 < getPackSize
        (packetSwap (Store.overwrite msg.bytes 2 [ndnetmsgVersion]))
    · left
      rw [byteAt_take header, byteAt_packetSwap (by omega), byteAt, byteAt,
        getD_eq_getElem?_getD, getD_eq_getElem?_getD,
        Store.getElem?_overwrite, if_neg (by simp)]
    · right
      rw [byteAt, getD_eq_getElem?_getD, getElem?_eq_none]
      · rfl
      · rw [length_take]
        omega
  rcases flags with same | zero
  · rw [ndsysMsg, same]
    exact user
  · rw [ndsysMsg, zero]
    rfl

variable {flying : Flying} {side : ConnSide}

namespace Link

open Runs

/-- The alive packets of the timers that have not been answered yet. -/
def awaiting (link : Link) : Nat :=
  (link.flying .left).countP (fun flying => flying.origin = .timer) +
    (link.flying .right).countP (fun flying => flying.origin = .timer)

/-- Every answer, given or still to come, has its own packet of a timer. -/
structure Counted (link : Link) : Prop where
  covered : link.answers + link.awaiting ≤ link.timers
  user : ∀ side, ∀ flying ∈ link.flying side, flying.origin = .message →
    ndsysMsg flying.packet = false

section Steps

variable {link : Link}

theorem Counted.ends (counted : Counted link) (ends : ConnSide → Endpoint) :
    Counted { link with ends := ends } :=
  ⟨counted.covered, counted.user⟩

theorem Counted.setNode (counted : Counted link) (side : ConnSide)
    (node : TcpNode) : Counted (link.setNode side node) :=
  counted.ends _

theorem mem_record {side target : ConnSide} {origin : Origin} {result : Int}
    (member : flying ∈
      (link.record side origin packet result).flying target) :
    flying ∈ link.flying target ∨ flying = ⟨origin, packet⟩ := by
  unfold record at member
  dsimp only at member
  by_cases whole : result = packet.length
  · rw [if_pos whole] at member
    by_cases same : target = side.other
    · rw [same, Function.update_self, mem_append, mem_singleton] at member
      rw [same]
      exact member
    · rw [Function.update_of_ne same] at member
      exact .inl member
  · rw [if_neg whole] at member
    exact .inl member

theorem awaiting_record (link : Link) (side : ConnSide) (origin : Origin)
    (packet : List Byte) (result : Int) :
    (link.record side origin packet result).awaiting =
      link.awaiting +
        if origin = .timer ∧ result = packet.length then 1 else 0 := by
  unfold record awaiting
  by_cases whole : result = packet.length
  · cases side <;>
      simp [whole, ConnSide.other, Function.update, countP_append,
        countP_singleton] <;>
      omega
  · simp [whole]

theorem Counted.recordTimer (counted : Counted link) (side : ConnSide)
    (alive : Option Int) : Counted (link.recordAlive side .timer alive) := by
  cases alive with
  | none => exact counted
  | some result =>
    have covered := counted.covered
    refine ⟨?_, ?_⟩
    · have length := makeAlivePack_alive.size
      rw [recordAlive, awaiting_record, length]
      by_cases whole : result = 8
      · simp only [record, whole]
        simp
        omega
      · simp only [record]
        simp [whole]
        omega
    · intro target flying member message
      rcases mem_record member with old | new
      · exact counted.user target flying old message
      · rw [new] at message
        cases message

theorem Counted.recordMessage (counted : Counted link) (side : ConnSide)
    (msg : ProgramMsg) (result : Int) :
    Counted (link.record side .message msg.packet result) := by
  refine ⟨?_, ?_⟩
  · rw [awaiting_record]
    simpa [record] using counted.covered
  · intro target flying member message
    rcases mem_record member with old | new
    · exact counted.user target flying old message
    · rw [new]
      exact msg.packet_user

theorem Counted.recordAnswer (counted : Counted link)
    (spare : link.answers + 1 + link.awaiting ≤ link.timers) (side : ConnSide)
    (alive : Option Int) : Counted (link.recordAlive side .answer alive) := by
  cases alive with
  | none => exact counted
  | some result =>
    refine ⟨?_, ?_⟩
    · rw [recordAlive, awaiting_record]
      by_cases sent : 0 < result
      · simp only [record]
        simp [sent]
        omega
      · simp only [record]
        simp [sent]
        omega
    · intro target flying member message
      rcases mem_record member with old | new
      · exact counted.user target flying old message
      · rw [new] at message
        cases message

theorem awaiting_without {index : Nat}
    (found : (link.flying side)[index]? = some flying) :
    (link.without side index).awaiting +
        (if flying.origin = .timer then 1 else 0) =
      link.awaiting := by
  obtain ⟨inside, here⟩ := List.getElem?_eq_some_iff.mp found
  have counts := (getElem_cons_eraseIdx_perm inside).countP_eq
    (fun flying => decide (flying.origin = .timer))
  rw [countP_cons, here] at counts
  simp only [decide_eq_true_eq] at counts
  unfold awaiting without
  cases side with
  | left =>
    simp only [Function.update_self,
      Function.update_of_ne (show ConnSide.right ≠ ConnSide.left by decide)]
    omega
  | right =>
    simp only [Function.update_self,
      Function.update_of_ne (show ConnSide.left ≠ ConnSide.right by decide)]
    omega

theorem Counted.without (counted : Counted link) {index : Nat}
    (found : (link.flying side)[index]? = some flying) :
    Counted (link.without side index) := by
  have covered := counted.covered
  have fewer := awaiting_without found
  refine ⟨?_, ?_⟩
  · show link.answers + _ ≤ link.timers
    omega
  · intro target kept member message
    unfold Link.without at member
    dsimp only at member
    by_cases same : target = side
    · rw [same, Function.update_self] at member
      exact counted.user side kept (mem_of_mem_eraseIdx member) message
    · rw [Function.update_of_ne same] at member
      exact counted.user target kept member message

theorem Counted.deliver (counted : Counted link) {index : Nat}
    (found : (link.flying side)[index]? = some flying)
    (quiet : flying.origin = .answer →
      (link.ends side).node.connectorValid = false)
    (given : Surroundings) :
    Counted (link.deliver side index given flying.packet) := by
  have covered := counted.covered
  have fewer := awaiting_without found
  have taken := counted.without found
  unfold Link.deliver
  cases origin : flying.origin with
  | timer =>
    refine (taken.setNode side _).recordAnswer ?_ side _
    rw [if_pos origin] at fewer
    show link.answers + 1 + (link.without side index).awaiting ≤ link.timers
    omega
  | answer =>
    have silent : ((link.ready side given).node.load
        flying.packet).fetchAnswer = none := by
      unfold TcpNode.fetchAnswer
      rw [if_neg]
      rintro ⟨valid, -⟩
      exact absurd ((quiet origin).symm.trans valid) Bool.false_ne_true
    dsimp only
    rw [silent]
    exact taken.setNode side _
  | message =>
    have user := counted.user side flying
      (mem_of_getElem? found) origin
    dsimp only
    rw [TcpNode.fetchAnswer_message _ user]
    exact taken.setNode side _

theorem Counted.step (counted : Counted link) (input : LinkStep)
    (quiet : Quiet link input) : Counted (link.step input) := by
  cases input with
  | nodeUpdate side given => exact (counted.setNode side _).recordTimer side _
  | sessionUpdate side given =>
    exact (counted.setNode side _).recordTimer side _
  | send side msg flag given =>
    exact (counted.setNode side _).recordMessage side msg _
  | deliver side index given =>
    unfold Link.step
    dsimp only
    cases found : (link.flying side)[index]? with
    | none => exact counted
    | some flying => exact counted.deliver found (quiet flying found) given
  | change side endpoint => exact counted.ends _

end Steps

def initial (ends : ConnSide → Endpoint) : Link :=
  { ends := ends
    flying := fun _ => []
    timers := 0
    answers := 0 }

theorem initial_counted (ends : ConnSide → Endpoint) : Counted (initial ends) :=
  ⟨Nat.le_refl 0, fun _ _ member => absurd member not_mem_nil⟩

/-- While no answer reaches a valid connection, there are at most twice as many
alive packets as the timers have sent. -/
theorem aliveRun_bounded (ends : ConnSide → Endpoint) (inputs : List LinkStep)
    (quiet : Meets step Quiet (initial ends) inputs) :
    ∀ visited ∈ states step (initial ends) inputs,
      visited.total ≤ 2 * visited.timers := by
  intro visited member
  have preserved (link : Link) (input : LinkStep) (counted : Counted link)
      (meets : Quiet link input) : Counted (link.step input) :=
    counted.step input meets
  have counted : Counted visited :=
    invariant_of_meets preserved (initial_counted ends) quiet visited member
  have covered := counted.covered
  unfold total
  omega

end Link

namespace TcpNode

open Store

section Answer

variable {node : TcpNode}

/-- `answerAlive` is the sending in `nd_net_sysmsg_hander`. -/
theorem sysmsgHander_answers {sent : Int × TcpNode}
    (answers : node.answerAlive = some sent) :
    node.sysmsgHander = (0, sent.2) := by
  unfold answerAlive at answers
  dsimp only at answers
  split at answers
  · rename_i tests
    obtain ⟨summed, msgid, length, stuffing⟩ := tests
    cases answers
    unfold sysmsgHander
    rw [if_neg (not_not.mpr summed), if_pos msgid, if_neg (by
      rw [length, stuffing]
      simp)]
    rfl
  · cases answers

end Answer

/-- A connection that answers: it is valid, sends at once, and has a receive
buffer for standard packets. -/
structure Responds (node : TcpNode) : Prop where
  valid : node.connectorValid = true
  standard : node.userDefinePacket = false
  empty : node.sendBuffer.datalen = 0
  storage : node.recvBuffer.storage.length = node.recvBuffer.capacity
  large : 32 ≤ node.recvBuffer.capacity

section Responds

variable {node : TcpNode}

/-- With an empty send buffer and a socket that takes the packet, a packet is
sent and the send buffer stays empty. -/
theorem send_whole (empty : node.sendBuffer.datalen = 0) {msg : List Byte}
    {count : Nat} (takes : node.writeResults.head? = some (.took count))
    (whole : (packetOf msg).length ≤ count) (some : 0 < (packetOf msg).length)
    (flag : SendFlag) :
    node.send msg flag =
      (((packetOf msg).length : Int),
        { node with
          writeResults := node.writeResults.tail
          wire := node.wire ++ packetOf msg
          lastPush := node.now }) := by
  have small := length_packetOf_lt msg
  have int : intOfSize (packetOf msg).length = (packetOf msg).length :=
    intOfSize_of_lt (by
      rw [packetSize] at small
      omega)
  have offered : min count (packetOf msg).length = (packetOf msg).length :=
    Nat.min_eq_right whole
  have written : node.sysSocketWrite (packetOf msg) =
      (((packetOf msg).length : Int),
        { node with
          writeResults := node.writeResults.tail
          wire := node.wire ++ packetOf msg
          lastPush := node.now }) := by
    unfold sysSocketWrite
    rw [takes]
    simp only [offered, if_pos some, take_of_length_le whole]
  have sent : ∀ flag, node.sendBytes (packetOf msg) flag true =
      (((packetOf msg).length : Int),
        { node with
          writeResults := node.writeResults.tail
          wire := node.wire ++ packetOf msg
          lastPush := node.now }) := by
    intro flag
    unfold sendBytes sendWithSave
    rw [if_pos empty, written]
    rw [if_neg (by omega), if_pos rfl, int]
  unfold send
  by_cases session : node.isSession = true
  · rw [if_pos session, sent]
    rw [if_neg (by omega)]
  · rw [if_neg session, sent]

theorem Responds.connectorSend (responds : Responds node)
    (takes : node.writeResults.head? = some (.took 8)) :
    (node.connectorSend makeAlivePack esfUrgency).1 = 8 ∧
      Responds (node.connectorSend makeAlivePack esfUrgency).2 := by
  have valid := responds.valid
  have packet : packetOf (packetSwap
      (overwrite makeAlivePack 2 [ndnetmsgVersion])) =
        packetSwap makeAlivePack := by decide
  have length := makeAlivePack_alive.size
  have connected : node.status = .connected := by
    simp only [connectorValid, Bool.and_eq_true, decide_eq_true_eq] at valid
    exact valid.2
  have counts : (packetOf (packetSwap
      (overwrite makeAlivePack 2 [ndnetmsgVersion]))).length = 8 := by
    rw [packet, length]
  have cleared : ({ node with myerrno := .success } : TcpNode).sendBuffer.datalen =
      0 := responds.empty
  have sent := send_whole cleared takes (Nat.le_of_eq counts)
    (by rw [counts]; decide) esfUrgency
  rw [packet, length] at sent
  have whole : node.connectorSend makeAlivePack esfUrgency =
      (8, { node with
        myerrno := .success
        writeResults := node.writeResults.tail
        wire := node.wire ++ packetSwap makeAlivePack
        lastPush := node.now }) := by
    unfold TcpNode.connectorSend tcpConnectorSend
    rw [valid, trytoClearErr_of_valid valid]
    simp only [Bool.not_true, Bool.false_eq_true, if_false]
    rw [if_neg (not_not.mpr connected)]
    by_cases checked : node.checkedWrite = true
    · rw [if_pos checked]
      exact sent
    · rw [if_neg checked]
      exact sent
  rw [whole]
  refine ⟨rfl, ?_, responds.standard, responds.empty, responds.storage,
    responds.large⟩
  simp only [connectorValid, Bool.and_eq_true] at valid
  simp only [connectorValid, checkError, connected, valid.1.1]
  rfl

theorem answerAlive_alive (holds : node.recvBuffer.Represents packet)
    (alive : AlivePacket packet) :
    node.answerAlive =
      some ((node.rewriteStream ((resum node.recvStream).2.take 8)).connectorSend
        makeAlivePack esfUrgency) := by
  have stream := recvStream_eq holds
  obtain ⟨sum, msgid, length, stuffing⟩ := resum_alive alive
    (slice node.recvBuffer.storage node.recvBuffer.endOff
      node.recvBuffer.storage.length)
  rw [← stream] at sum msgid length stuffing
  unfold answerAlive
  dsimp only
  rw [if_pos ⟨sum, msgid, length, stuffing⟩]

theorem Responds.rewriteStream (responds : Responds node) (block : List Byte) :
    Responds (node.rewriteStream block) :=
  { valid := responds.valid
    standard := responds.standard
    empty := responds.empty
    storage := by
      show (overwrite _ _ _).length = _
      rw [length_overwrite]
      exact responds.storage
    large := responds.large }

theorem Responds.load (responds : Responds node) (small : packet.length ≤ 32) :
    Responds (node.load packet) ∧
      (node.load packet).recvBuffer.Represents packet := by
  have large := responds.large
  have drained := LineBuf.reset_represents responds.storage
  have fits : packet.length ≤ node.recvBuffer.reset.freespace := by
    rw [drained.freespace_eq]
    show packet.length ≤ node.recvBuffer.capacity - 0
    omega
  have holds := LineBuf.append_represents drained fits
  rw [nil_append] at holds
  refine ⟨?_, holds⟩
  exact
    { valid := responds.valid
      standard := responds.standard
      empty := responds.empty
      storage := holds.storage_length
      large := by simpa [TcpNode.load, LineBuf.reset] using large }

theorem refetch_drained (drained : node.recvBuffer.datalen = 0)
    (rounds : Nat) : node.refetch rounds = (0, [], node) := by
  cases rounds with
  | zero => rfl
  | succ rounds =>
    unfold refetch
    dsimp only
    rw [drained, if_pos (by decide)]

theorem Responds.subData (responds : Responds node) {count : Nat}
    (all : node.recvBuffer.endOff ≤ node.recvBuffer.startOff + count) :
    Responds { node with recvBuffer := node.recvBuffer.subData count } ∧
      (node.recvBuffer.subData count).datalen = 0 := by
  have emptied : node.recvBuffer.subData count =
      { node.recvBuffer with startOff := node.recvBuffer.startOff + count }.reset := by
    unfold LineBuf.subData
    exact if_pos all
  rw [emptied]
  refine ⟨?_, rfl⟩
  exact
    { valid := responds.valid
      standard := responds.standard
      empty := responds.empty
      storage := by
        show (overwrite _ _ _).length = _
        rw [length_overwrite]
        exact responds.storage
      large := responds.large }

theorem Responds.fetchMsg (responds : Responds node)
    (takes : node.writeResults.head? = some (.took 8)) :
    (node.load (packetSwap makeAlivePack)).fetchAnswer = some 8 ∧
      Responds (node.load (packetSwap makeAlivePack)).fetchMsg.2.2 := by
  have alive := makeAlivePack_alive
  have size := alive.size
  obtain ⟨loaded, holds⟩ := responds.load (Nat.le_trans
    (Nat.le_of_eq size) (by decide : 8 ≤ 32))
  have answers := answerAlive_alive holds alive
  obtain ⟨sent, after⟩ := (loaded.rewriteStream
    ((resum (node.load (packetSwap makeAlivePack)).recvStream).2.take
      8)).connectorSend takes
  have view := connectorSend_recvView
    ((node.load (packetSwap makeAlivePack)).rewriteStream
      ((resum (node.load (packetSwap makeAlivePack)).recvStream).2.take 8))
    makeAlivePack esfUrgency
  generalize ((node.load (packetSwap makeAlivePack)).rewriteStream
    ((resum (node.load (packetSwap makeAlivePack)).recvStream).2.take
      8)).connectorSend makeAlivePack esfUrgency = answer
    at answers sent after view
  have queued := holds.queue_length
  have counts : getPackSize
      (node.load (packetSwap makeAlivePack)).recvStream = 8 := by
    rw [getPackSize_recvStream holds (by omega), alive.counts, size]
  have system : ndsysMsg
      (node.load (packetSwap makeAlivePack)).recvStream = true := by
    rw [ndsysMsg_recvStream holds (by omega), alive.system]
  refine ⟨?_, ?_⟩
  · have fetches : (node.load (packetSwap makeAlivePack)).FetchesSysmsg := by
      refine ⟨loaded.valid, ?_, ?_, ?_, ?_, loaded.standard, system⟩
      · show 4 ≤ _
        omega
      · rw [counts]
        decide
      · rw [counts]
        decide
      · omega
    rw [fetchAnswer, if_pos fetches, answers, Option.map_some, sent]
  · have handled := sysmsgHander_answers answers
    have alone : (node.load (packetSwap makeAlivePack)).recvBuffer.Represents
        (packetSwap makeAlivePack ++ []) := by rwa [append_nil]
    have round := refetch_packet alone alive.toFramed loaded.standard
      (node.load (packetSwap makeAlivePack)).recvBuffer.datalen
    have fine : ¬ ((0 : Int) = -1) := by decide
    rw [if_pos alive.system, handled, size] at round
    dsimp only at round
    rw [if_neg fine] at round
    have buffer : answer.2.recvBuffer.startOff =
          (node.load (packetSwap makeAlivePack)).recvBuffer.startOff ∧
        answer.2.recvBuffer.endOff =
          (node.load (packetSwap makeAlivePack)).recvBuffer.endOff := by
      have same := congrArg Prod.fst view
      dsimp only [recvView] at same
      rw [same]
      exact ⟨rfl, rfl⟩
    have extent := holds.datalen_eq
    have all : answer.2.recvBuffer.endOff ≤
        answer.2.recvBuffer.startOff + 8 := by omega
    obtain ⟨responding, drained⟩ := after.subData all
    have valid : ¬ (!(node.load (packetSwap
        makeAlivePack)).connectorValid) = true := by
      rw [loaded.valid]
      decide
    unfold TcpNode.fetchMsg
    rw [if_neg valid, round, refetch_drained drained]
    exact responding

theorem Responds.given (responds : Responds node) (given : Surroundings) :
    Responds { node with now := given.now, writeResults := given.writes } :=
  { valid := responds.valid
    standard := responds.standard
    empty := responds.empty
    storage := responds.storage
    large := responds.large }

theorem tcpNodeUpdate_sends {endpoint : Endpoint}
    (responds : Responds endpoint.node)
    (takes : endpoint.node.writeResults.head? = some (.took 8))
    (active : endpoint.withoutAlive = false)
    (silent : (if endpoint.disconnTimeout >>> 1 = 0 then ndAliveTimeout
        else endpoint.disconnTimeout >>> 1) <
      endpoint.node.now - endpoint.node.lastPush)
    (heard : ¬ endpoint.disconnTimeout <
      endpoint.node.now - endpoint.lastRecv) :
    endpoint.tcpNodeUpdate.alive = some 8 ∧
      Responds endpoint.tcpNodeUpdate.node := by
  have valid := responds.valid
  simp only [connectorValid, Bool.and_eq_true, Bool.not_eq_true',
    decide_eq_true_eq] at valid
  obtain ⟨⟨descriptor, fine⟩, connected⟩ := valid
  have usable : ¬ (endpoint.node.fd = 0 ∨ endpoint.node.checkError = true ∨
      endpoint.node.status ≠ .connected) := by
    rintro (closed | error | status)
    · exact descriptor closed
    · rw [fine] at error
      cases error
    · exact status connected
  have counts : (packetOf (packetSwap makeAlivePack)).length = 8 := by decide
  have sent := send_whole responds.empty takes (Nat.le_of_eq counts)
    (by rw [counts]; decide) esfUrgency
  rw [counts] at sent
  have pushed : endpoint.node.pushSendbuf = (0, endpoint.node) :=
    if_pos responds.empty
  have alive : endpoint.nodeAlive (0, endpoint.node) =
      ⟨8, some 8, (endpoint.node.send (packetSwap makeAlivePack)
        esfUrgency).2⟩ := by
    unfold Endpoint.nodeAlive
    dsimp only
    rw [if_pos ⟨rfl, active, silent⟩, sent]
    rfl
  unfold Endpoint.tcpNodeUpdate
  dsimp only
  rw [if_neg usable, pushed, alive, if_neg heard, sent]
  exact ⟨rfl,
    { valid := responds.valid
      standard := responds.standard
      empty := responds.empty
      storage := responds.storage
      large := responds.large }⟩

end Responds

end TcpNode

namespace Link

open Runs TcpNode

def exchange : ConnSide → Nat → List LinkStep
  | _, 0 => []
  | side, count + 1 =>
    .deliver side 0 ⟨0, [.took 8]⟩ :: exchange side.other count

/-- An alive packet is on its way to a side, nothing else is, and both
connections respond. -/
structure Echoes (link : Link) (side : ConnSide) : Prop where
  responds : ∀ each, Responds (link.ends each).node
  arriving : ∃ origin, link.flying side = [⟨origin, packetSwap makeAlivePack⟩]
  quiet : link.flying side.other = []

theorem Echoes.step {link : Link} {side : ConnSide} (echoes : Echoes link side)
    (given : Surroundings) (takes : given.writes.head? = some (.took 8)) :
    Echoes (link.step (.deliver side 0 given)) side.other ∧
      (link.step (.deliver side 0 given)).timers = link.timers ∧
      (link.step (.deliver side 0 given)).answers = link.answers + 1 := by
  obtain ⟨origin, arriving⟩ := echoes.arriving
  have ready : Responds (link.ready side given).node :=
    (echoes.responds side).given given
  obtain ⟨answered, responding⟩ := ready.fetchMsg takes
  have found : (link.flying side)[0]? =
      some ⟨origin, packetSwap makeAlivePack⟩ := by
    rw [arriving]
    rfl
  have distinct : side ≠ side.other := by cases side <;> decide
  have length := makeAlivePack_alive.size
  have next : link.step (.deliver side 0 given) =
      { ends := Function.update link.ends side
          { link.ends side with
            node := ((link.ready side given).node.load
              (packetSwap makeAlivePack)).fetchMsg.2.2 }
        flying := Function.update (Function.update link.flying side [])
          side.other [⟨.answer, packetSwap makeAlivePack⟩]
        timers := link.timers
        answers := link.answers + 1 } := by
    unfold Link.step
    dsimp only
    rw [found]
    unfold Link.deliver
    dsimp only
    rw [answered, recordAlive, record, length, without, arriving, setNode]
    simp [Function.update_of_ne distinct.symm, echoes.quiet]
  rw [next]
  refine ⟨⟨?_, ⟨.answer, Function.update_self _ _ _⟩, ?_⟩, rfl, rfl⟩
  · intro each
    by_cases same : each = side
    · rw [same]
      dsimp only
      rw [Function.update_self]
      exact responding
    · dsimp only
      rw [Function.update_of_ne same]
      exact echoes.responds each
  · have back : side.other.other = side := by cases side <;> rfl
    dsimp only
    rw [back, Function.update_of_ne distinct, Function.update_self]

/-- One alive packet in flight is enough for as many answers as the network
delivers, without any timer. -/
theorem exchange_sustains (count : Nat) {link : Link}
    (echoes : Echoes link side) :
    ((exchange side count).foldl step link).timers = link.timers ∧
      ((exchange side count).foldl step link).answers =
        link.answers + count := by
  induction count generalizing link side with
  | zero => exact ⟨rfl, rfl⟩
  | succ count induction =>
    obtain ⟨later, timers, answers⟩ := echoes.step ⟨0, [.took 8]⟩ rfl
    obtain ⟨sameTimers, moreAnswers⟩ := induction later
    refine ⟨sameTimers.trans timers, ?_⟩
    rw [exchange, foldl_cons, moreAnswers, answers]
    omega

/-- Endpoints as they are after connecting, with a timeout of a minute. -/
def connectedEnds (_ : ConnSide) : Endpoint :=
  { node := { connectedNode [] with
      recvBuffer := LineBuf.init (List.replicate packetSize 0)
      sendBuffer := LineBuf.init (List.replicate packetSize 0) }
    lastRecv := 0
    disconnTimeout := 60000
    withoutAlive := false }

theorem connectedEnds_responds (side : ConnSide) :
    Responds (connectedEnds side).node :=
  { valid := rfl
    standard := rfl
    empty := rfl
    storage := (LineBuf.init_represents _).storage_length
    large := by
      show 32 ≤ (replicate packetSize 0).length
      rw [length_replicate]
      decide }

def silentGiven : Surroundings := ⟨40000, [.took 8]⟩

theorem firstTimer_sends :
    ((initial connectedEnds).ready .left silentGiven).tcpNodeUpdate.alive =
        some 8 ∧
      Responds ((initial connectedEnds).ready .left
        silentGiven).tcpNodeUpdate.node :=
  tcpNodeUpdate_sends ((connectedEnds_responds .left).given silentGiven) rfl
    rfl (by decide) (by decide)

theorem step_firstTimer :
    (initial connectedEnds).step (.nodeUpdate .left silentGiven) =
      { ends := Function.update connectedEnds .left
          { connectedEnds .left with
            node := ((initial connectedEnds).ready .left
              silentGiven).tcpNodeUpdate.node }
        flying := Function.update (fun _ => []) .right
          [⟨.timer, packetSwap makeAlivePack⟩]
        timers := 1
        answers := 0 } := by
  have length := makeAlivePack_alive.size
  rfl

theorem firstTimer_echoes :
    Echoes ((initial connectedEnds).step (.nodeUpdate .left silentGiven))
      .right := by
  refine ⟨?_, ⟨.timer, rfl⟩, rfl⟩
  intro each
  cases each with
  | left => exact firstTimer_sends.2
  | right => exact connectedEnds_responds .right

/-- The packet of the timer arrives, and is answered. -/
theorem aliveRun_bounded_answered :
    Meets step Quiet (initial connectedEnds)
        [.nodeUpdate .left silentGiven, .deliver .right 0 silentGiven] ∧
      ∀ visited ∈ states step (initial connectedEnds)
          [.nodeUpdate .left silentGiven, .deliver .right 0 silentGiven],
        visited.total ≤ 2 * visited.timers := by
  have quiet : Meets step Quiet (initial connectedEnds)
      [.nodeUpdate .left silentGiven, .deliver .right 0 silentGiven] := by
    refine ⟨trivial, ?_, trivial⟩
    intro flying found answer
    cases found
    cases answer
  exact ⟨quiet, aliveRun_bounded connectedEnds _ quiet⟩

/-- The answer is answered: three alive packets for one timer. -/
theorem aliveRun_exceeds :
    ¬ ∀ inputs, ∀ visited ∈ states step (initial connectedEnds) inputs,
      visited.total ≤ 2 * visited.timers := by
  intro bounded
  obtain ⟨sameTimers, moreAnswers⟩ := exchange_sustains 2 firstTimer_echoes
  rw [step_firstTimer] at sameTimers moreAnswers
  have least := bounded
    (.nodeUpdate .left silentGiven :: exchange .right 2) _
    (foldl_mem_states step (initial connectedEnds) _)
  rw [foldl_cons, step_firstTimer, total, sameTimers, moreAnswers] at least
  exact absurd least (by decide)

end Link

end NdNet
