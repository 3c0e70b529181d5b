import NdNet.Udt.Sessions

/-!
# The end of a session

A session may end in four ways: the peer resets it, both sides send a FIN, it
runs into a time-out, or a connect arrives that does not belong to it.  A run
interleaves the packet pump with update passes, sends and closes.  The law says
that the user is told exactly once of the end of every session he was told of,
that an update pass releases the sessions that are reset, and that no released
session stays linked.

`Sound` describes the states in between.
-/

namespace NdNet

namespace UdtListener

open NetStat UdtNode

/-- The session was released, or the flag is gone that makes its end known. -/
def Ended (listener : UdtListener) (addr : Nat) : Prop :=
  addr ∈ listener.freed ∨
    (listener.heap addr).node.status.has established = false

instance (listener : UdtListener) (addr : Nat) :
    Decidable (listener.Ended addr) :=
  inferInstanceAs (Decidable (_ ∨ _))

def IdFree (listener : UdtListener) (nodeId : Nat) : Prop :=
  ∀ index, listener.connManager.root.indexOf nodeId = some index →
    (listener.connManager.root.info index).used = 0

/-- The sessions whose status contains `NETSTAT_RESET`. -/
def marked (listener : UdtListener) : List (LiveNode Nat) :=
  listener.connManager.live.filter fun node =>
    (listener.heap node.addr).node.status.has reset

/-- No linked session was released, and the callbacks tell how far each session
has come. -/
structure Sound (listener : UdtListener) : Prop extends Tidy listener where
  present : ∀ addr ∈ listener.sessionsList,
    ∃ node ∈ listener.connManager.live, node.addr = addr
  unlinked : ∀ addr, addr ∉ listener.sessionsList →
    (listener.heap addr).node.status.has established = false
  connectIn : ∀ addr, (addr, .connectIn) ∈ listener.callbacks ↔
    addr ∈ listener.sessionsList
  connectOut : ∀ addr, listener.callbacks.count (addr, .connectOut) =
    if addr ∈ listener.sessionsList ∧
      (listener.heap addr).node.status.has established = false then 1 else 0

section Steps

variable {listener : UdtListener} {addr : Nat} {node : UdtNode}

section

variable (sound : listener.Sound)
include sound

theorem Sound.setNode (tidy : (listener.setNode addr node).Tidy)
    (steady : Steady True (listener.heap addr).node node) :
    (listener.setNode addr node).Sound := by
  have live := steady.established trivial
  refine { tidy with present := sound.present, unlinked := ?_,
                     connectIn := sound.connectIn, connectOut := ?_ }
  · intro other out
    by_cases same : other = addr
    · subst same
      rw [heap_setNode_self, live]
      exact sound.unlinked other out
    · rw [heap_setNode_other same]
      exact sound.unlinked other out
  · intro other
    have told := sound.connectOut other
    by_cases same : other = addr
    · subst same
      rw [heap_setNode_self, live]
      exact told
    · rw [heap_setNode_other same]
      exact told

theorem Sound.change
    (known : ∃ entry ∈ listener.connManager.live, entry.addr = addr)
    (steady : Steady True (listener.heap addr).node node) :
    (listener.setNode addr node).Sound :=
  sound.setNode (sound.toTidy.setNode known steady) steady

theorem Sound.accept {calm : Prop}
    (known : ∃ entry ∈ listener.connManager.live, entry.addr = addr)
    (out : addr ∉ listener.sessionsList)
    (steady : Steady calm (listener.heap addr).node node)
    (live : node.status.has established = true) :
    ((listener.setNode addr node).acceptUdt addr).Sound := by
  refine { sound.toTidy.accept known steady live with
           present := ?_, unlinked := ?_, connectIn := ?_, connectOut := ?_ }
  · intro other member
    rcases List.mem_append.mp member with old | new
    · exact sound.present other old
    · rw [List.mem_singleton.mp new]
      exact known
  · intro other absent
    change ((listener.setNode addr node).heap other).node.status.has _ = false
    have absent : other ∉ listener.sessionsList ++ [addr] := absent
    rw [List.mem_append, List.mem_singleton, not_or] at absent
    rw [heap_setNode_other absent.2]
    exact sound.unlinked other absent.1
  · intro other
    change (other, UdtCallback.connectIn) ∈
      listener.callbacks ++ [(addr, .connectIn)] ↔
        other ∈ listener.sessionsList ++ [addr]
    rw [List.mem_append, List.mem_append, sound.connectIn other]
    simp
  · intro other
    change (listener.callbacks ++ [(addr, UdtCallback.connectIn)]).count
      (other, .connectOut) = if other ∈ listener.sessionsList ++ [addr] ∧
        ((listener.setNode addr node).heap other).node.status.has _ = false
          then 1 else 0
    have told := sound.connectOut other
    rw [List.count_append, told]
    by_cases same : other = addr
    · subst same
      rw [heap_setNode_self, live]
      simp [out]
    · rw [heap_setNode_other same]
      simp [same]

theorem Sound.connectOut_closing
    (closing : (listener.heap addr).node.status.has finsend = true) :
    (listener.connectOut addr).Sound := by
  have tidy := sound.toTidy.connectOut closing
  unfold UdtListener.connectOut at tidy ⊢
  dsimp only at tidy ⊢
  by_cases live : (listener.heap addr).node.status.has established = true
  · rw [if_pos live] at tidy ⊢
    have inside : addr ∈ listener.sessionsList := by
      by_contra out
      rw [sound.unlinked addr out] at live
      exact Bool.false_ne_true live
    have quiet := sound.connectOut addr
    rw [live, if_neg (fun gone => Bool.noConfusion gone.2)] at quiet
    refine { tidy with present := sound.present, unlinked := ?_,
                       connectIn := ?_, connectOut := ?_ }
    · intro other out
      have differs : other ≠ addr := fun same => out (same ▸ inside)
      rw [heap_setNode_other differs]
      exact sound.unlinked other out
    · intro other
      change (other, UdtCallback.connectIn) ∈
        listener.callbacks ++ [(addr, .connectOut)] ↔
          other ∈ listener.sessionsList
      rw [List.mem_append, sound.connectIn other]
      simp
    · intro other
      change (listener.callbacks ++ [(addr, UdtCallback.connectOut)]).count
        (other, .connectOut) = _
      rw [List.count_append]
      by_cases same : other = addr
      · subst same
        rw [heap_setNode_self, clearEstablished_established, quiet]
        simp [inside, call]
      · have none : [(addr, UdtCallback.connectOut)].count
            (other, .connectOut) = 0 := by
          simp [Ne.symm same]
        rw [heap_setNode_other same, sound.connectOut other, none, Nat.add_zero]
        rfl
  · rw [if_neg live]
    exact sound

theorem Sound.connectOut_unlinked (out : addr ∉ listener.sessionsList) :
    listener.connectOut addr = listener := by
  unfold UdtListener.connectOut
  dsimp only
  rw [sound.unlinked addr out, if_neg Bool.false_ne_true]

theorem Sound.closeSession (force : Bool) :
    (listener.closeSession addr force).Sound := by
  have noted : Steady True (listener.heap addr).node
      (listener.heap addr).node.noteClose :=
    .of_linkView (noteClose_linkView _)
  obtain ⟨closed, finished⟩ :=
    @closeListendSocket_steady True (listener.heap addr).node.noteClose
      (sound.passive_steady noted).1 force
  have steady := noted.trans closed
  have kept := sound.setNode
    (sound.toTidy.set steady (fun _ => .inl (.inr finished))) steady
  unfold UdtListener.closeSession
  dsimp only
  split
  · exact kept
  · refine kept.connectOut_closing ?_
    rw [heap_setNode_self]
    exact finished

theorem Sound.releaseDeadNode {entry : LiveNode Nat}
    (known : entry ∈ listener.connManager.live)
    (out : entry.addr ∉ listener.sessionsList)
    (closing : (listener.heap entry.addr).node.status.has finsend = true) :
    (listener.releaseDeadNode entry.addr).Sound := by
  have tidy := sound.toTidy.releaseDeadNode known closing
  have number := (sound.live entry known).2.2
  unfold UdtListener.releaseDeadNode at tidy ⊢
  dsimp only at tidy ⊢
  split at tidy
  · rename_i port
    rw [if_pos port]
    exact sound
  rename_i port
  rw [if_neg port]
  rw [sound.connectOut_unlinked out, number] at tidy ⊢
  refine { tidy with present := ?_, unlinked := ?_,
                     connectIn := sound.connectIn, connectOut := ?_ }
  · intro other member
    obtain ⟨session, present, rfl⟩ := sound.present other member
    refine ⟨session, List.mem_filter.mpr ⟨present, decide_eq_true ?_⟩, rfl⟩
    intro same
    have equal : session = entry :=
      List.inj_on_of_nodup_map sound.manager.distinct present known same
    exact out (equal ▸ member)
  · intro other absent
    by_cases same : other = entry.addr
    · subst same
      rw [heap_setNode_self]
      exact has_closed _
    · rw [heap_setNode_other same]
      exact sound.unlinked other absent
  · intro other
    have told := sound.connectOut other
    by_cases same : other = entry.addr
    · subst same
      rw [if_neg (fun linked => out linked.1)] at told ⊢
      exact told
    · rw [heap_setNode_other same]
      exact told

theorem Sound.acceptSyn (moment : Moment)
    (info : UdtPacketInfo) : (listener.acceptSyn moment info).2.Sound := by
  have tidy := sound.toTidy.acceptSyn moment info
  rcases sound.toTidy.acceptSyn_cases moment info with
    full | ⟨conns, session, nodeId, new, -, grown, -, -, -, early⟩
  · rw [full] at tidy ⊢
    exact { tidy with present := sound.present, unlinked := sound.unlinked,
                      connectIn := sound.connectIn,
                      connectOut := sound.connectOut }
  · have below : ∀ other ∈ listener.sessionsList,
        other ≠ listener.allocated :=
      fun other member => Nat.ne_of_lt (sound.linked other member).1
    rw [new] at tidy ⊢
    refine { tidy with present := ?_, unlinked := ?_,
                       connectIn := sound.connectIn, connectOut := ?_ }
    · intro other member
      obtain ⟨entry, there, same⟩ := sound.present other member
      refine ⟨entry, ?_, same⟩
      change entry ∈ conns.live
      rw [grown]
      exact List.mem_append_left _ there
    · intro other absent
      dsimp only
      split
      · exact early
      · exact sound.unlinked other absent
    · intro other
      have told := sound.connectOut other
      by_cases inside : other ∈ listener.sessionsList
      · simp only [if_neg (below other inside)]
        exact told
      · rw [if_neg (fun linked => inside linked.1)] at told ⊢
        exact told

theorem Sound.repeatSyn (moment : Moment) (info : UdtPacketInfo)
    (known : ∃ entry ∈ listener.connManager.live, entry.addr = addr)
    (out : addr ∉ listener.sessionsList) :
    (listener.repeatSyn moment info addr).2.Sound := by
  have answered := @Tidy.repeatSyn_steady listener addr sound.toTidy moment
    info.pocket
  unfold UdtListener.repeatSyn
  dsimp only
  split
  · have accepted := (sound.passive_steady answered).1
    have reset := answered.trans (resetUdt_steady accepted false)
    have kept := sound.change known reset
    obtain ⟨entry, member, rfl⟩ := known
    refine kept.releaseDeadNode member out ?_
    rw [heap_setNode_self, (resetUdt_status accepted false).2.2, has_or]
    exact Bool.or_true _
  · exact sound.change known answered

theorem Sound.arrive_packet
    (known : ∃ entry ∈ listener.connManager.live, entry.addr = addr)
    (same : node.linkView = (listener.heap addr).node.linkView)
    (pocket : UdtPocket) :
    (listener.arrive addr node (node.packetHandler pocket).2).Sound := by
  unfold arrive
  rcases sound.toTidy.arrive known same pocket with
    ⟨ends, out, steady, live⟩ | ⟨ends, steady⟩
  · rw [ends]
    exact sound.accept known out steady live
  · rw [ends]
    exact sound.change known steady

theorem Sound.udtSessionDataHandle
    (known : ∃ entry ∈ listener.connManager.live, entry.addr = addr)
    (info : UdtPacketInfo) (handled : DataHandled) :
    (listener.udtSessionDataHandle addr info handled).2.Sound := by
  have arrived := sound.arrive_packet known
    (clearUserData_linkView (listener.heap addr).node) info.pocket
  unfold UdtListener.udtSessionDataHandle
  dsimp only
  split
  · split
    · exact arrived
    split
    · refine arrived.change ?_ (.of_linkView ?_)
      · rw [arrive_connManager]
        exact known
      · rw [arrive_node]
        rfl
    · exact arrived
  · exact sound.change known (.of_linkView rfl)

theorem Sound.atMoment {localPort : UInt16}
    (found : listener.lock localPort = some addr) (moment : Moment) :
    (listener.setNode addr
      ((listener.heap addr).node.atMoment moment addr)).Sound :=
  sound.change (sound.lock_live found) (.of_linkView rfl)

theorem Sound.dataHandle (moment : Moment) (info : UdtPacketInfo)
    (handled : DataHandled) :
    (listener.dataHandle moment info handled).2.Sound := by
  unfold UdtListener.dataHandle
  split
  · exact sound
  · rename_i addr found
    have served := (sound.atMoment found moment).udtSessionDataHandle
      (sound.lock_live found) info handled
    dsimp only
    split
    · exact served.closeSession true
    · exact served

theorem Sound.updateClient (linked : addr ∈ listener.sessionsList)
    (moment : Moment) :
    (listener.updateClient moment addr).Sound := by
  have known := sound.present addr linked
  have present : Steady True (listener.heap addr).node
      ((listener.heap addr).node.atMoment moment addr) :=
    .of_linkView rfl
  have steady := present.trans
    (updateUdtSession_steady (sound.passive_steady present).1)
  have updated := sound.change known steady
  unfold UdtListener.updateClient
  dsimp only
  rw [if_neg (sound.not_isReset linked moment)]
  split
  · exact updated.closeSession true
  · exact updated

end

theorem Sound.updateRounds (moment : Moment) {clients : List Nat}
    (sound : listener.Sound)
    (linked : ∀ client ∈ clients, client ∈ listener.sessionsList) :
    (clients.foldl (UdtListener.updateClient moment) listener).Sound := by
  induction clients generalizing listener with
  | nil => exact sound
  | cons client clients induction =>
    obtain ⟨first, later⟩ := List.forall_mem_cons.mp linked
    have list := (sound.toTidy.updateClient first moment).2.1
    exact induction (sound.updateClient first moment)
      (by rw [list]; exact later)

def Apart (listener : UdtListener) (info : UdtPacketInfo) : Prop :=
  info.pocket.udtType = .syn → info.pocket.localPort ≠ 0 →
    ∀ addr, listener.lock info.pocket.localPort = some addr →
      addr ∉ listener.sessionsList

variable (sound : listener.Sound)
include sound

variable (moment : Moment)

theorem Sound.pumpInsrvUdtData {info : UdtPacketInfo} (memory : Bool)
    (handled : DataHandled) (apart : listener.Apart info) :
    (listener.pumpInsrvUdtData moment info memory handled).2.Sound := by
  unfold UdtListener.pumpInsrvUdtData
  split
  · rename_i connect
    split
    · split
      · exact sound.acceptSyn moment info
      · exact sound
    · rename_i named
      split
      · exact sound.dataHandle moment info handled
      · rename_i addr found
        exact sound.repeatSyn moment info (sound.lock_live found)
          (apart connect named addr found)
  · exact sound.dataHandle moment info handled

theorem Sound.forward (info : UdtPacketInfo) (handled : DataHandled) :
    (listener.msgUdtPackateHandler moment info handled).Sound := by
  unfold msgUdtPackateHandler
  split
  · exact sound
  split
  · exact sound
  · rename_i addr found
    exact (sound.atMoment found moment).udtSessionDataHandle
      (sound.lock_live found) info handled

theorem Sound.sendSession (localPort : UInt16) (data : List Byte) :
    (listener.sendSession moment localPort data).Sound := by
  unfold UdtListener.sendSession
  split
  · exact sound
  · rename_i addr found
    exact sound.change (sound.lock_live found)
      (.of_linkView (sendSession_linkView moment data))

theorem Sound.closeSessionId (localPort : UInt16) (force : Bool) :
    (listener.closeSessionId moment localPort force).Sound := by
  unfold UdtListener.closeSessionId
  split
  · exact sound
  · rename_i addr found
    exact (sound.atMoment found moment).closeSession force

theorem Sound.repeatSyn_linked (info : UdtPacketInfo)
    (known : ∃ entry ∈ listener.connManager.live, entry.addr = addr)
    (linked : addr ∈ listener.sessionsList) :
    addr ∈ (listener.repeatSyn moment info addr).2.freed ∧
      addr ∈ (listener.repeatSyn moment info addr).2.sessionsList := by
  have opened := sound.toTidy.opened known linked
  obtain ⟨entry, member, rfl⟩ := known
  have accepted := (sound.passive entry.addr).1
  have connecting : (listener.heap entry.addr).node.status ≠ synsend :=
    opened.ne (by decide)
  obtain ⟨low, -⟩ := sound.manager.inRange entry member
  have positive := sound.manager.base_pos
  have port : (listener.heap entry.addr).node.localPort ≠ 0 := by
    intro zero
    have number := (sound.live entry member).2.2
    rw [zero] at number
    have nothing : (0 : UInt16).toNat = 0 := rfl
    omega
  have release : ∀ node : UdtNode, node.isAccept = true → node.localPort ≠ 0 →
      entry.addr ∈ ((listener.setNode entry.addr
        (node.resetUdt false)).releaseDeadNode entry.addr).freed ∧
        entry.addr ∈ ((listener.setNode entry.addr
          (node.resetUdt false)).releaseDeadNode entry.addr).sessionsList := by
    intro node accepted number
    obtain ⟨gone, list⟩ := @releaseDeadNode_frame
      (listener.setNode entry.addr (node.resetUdt false)) entry.addr
      (by
        rw [heap_setNode_self, (resetUdt_status accepted false).1]
        exact number)
    exact ⟨gone, list ▸ linked⟩
  have refused := @handleSyn_refused
    ((listener.heap entry.addr).node.noteSyn moment entry.addr)
    (opened.ne (by decide)) connecting opened.not_lt info.pocket
  unfold UdtListener.repeatSyn
  dsimp only
  rw [refused, if_pos rfl]
  exact release _ accepted port

end Steps

end UdtListener

/-- The listener, and after an update pass the sessions that were marked with
`NETSTAT_RESET` before it. -/
structure ListenerRun where
  listener : UdtListener
  due : List (LiveNode Nat)

namespace ListenerRun

open NetStat Runs UdtListener

def start (thid fd maxNum startId : Nat) : ListenerRun :=
  { listener := UdtListener.create thid fd maxNum startId
    due := [] }

def listenerStep (run : ListenerRun) (step : ListenerStep) : ListenerRun :=
  { listener := run.listener.step step
    due :=
      match step with
      | .update _ => run.listener.marked
      | _ => [] }

/-- A session the user was told of is reported once when it ends; a session
that was marked before an update pass is unlinked and its id free after it;
and no released session is linked. -/
structure Law (run : ListenerRun) : Prop where
  reported : ∀ addr, (addr, .connectIn) ∈ run.listener.callbacks →
    run.listener.callbacks.count (addr, .connectOut) =
      if run.listener.Ended addr then 1 else 0
  released : ∀ node ∈ run.due, node.addr ∉ run.listener.sessionsList ∧
    run.listener.IdFree node.id
  unlinked : ∀ addr ∈ run.listener.freed, addr ∉ run.listener.sessionsList

/-- No connect names a linked session, and no session is marked when an update
pass begins. -/
def Orderly (run : ListenerRun) : ListenerStep → Prop
  | .pump _ info _ _ => run.listener.Apart info
  | .update _ => run.listener.marked = []
  | _ => True

structure Calm (run : ListenerRun) : Prop where
  sound : run.listener.Sound
  due : run.due = []

theorem create_sound {thid fd maxNum startId : Nat} (positive : 1 ≤ startId)
    (fits : startId + maxNum ≤ 65536) :
    (UdtListener.create thid fd maxNum startId).Sound :=
  { create_tidy positive fits with
    present := by simp [UdtListener.create]
    unlinked := fun _ _ => by
      change listen.has established = false
      decide
    connectIn := by simp [UdtListener.create]
    connectOut := by simp [UdtListener.create] }

theorem Calm.linked_unfreed {run : ListenerRun} (calm : run.Calm) {addr : Nat}
    (linked : addr ∈ run.listener.sessionsList) :
    addr ∉ run.listener.freed := by
  obtain ⟨entry, member, rfl⟩ := calm.sound.present addr linked
  exact (calm.sound.live entry member).2.1

theorem Calm.law (run : ListenerRun) (calm : run.Calm) : run.Law := by
  constructor
  case reported =>
    intro addr told
    have linked := (calm.sound.connectIn addr).mp told
    rw [calm.sound.connectOut addr]
    have present := calm.linked_unfreed linked
    simp only [linked, true_and, Ended, present, false_or]
  case released => simp [calm.due]
  case unlinked =>
    intro addr gone linked
    exact calm.linked_unfreed linked gone

theorem listenerStep_calm (run : ListenerRun) (step : ListenerStep)
    (calm : run.Calm) (orderly : run.Orderly step) :
    (run.listenerStep step).Calm := by
  cases step with
  | pump moment info memory handled =>
    exact ⟨calm.sound.pumpInsrvUdtData moment memory handled orderly, rfl⟩
  | forward moment info handled =>
    exact ⟨calm.sound.forward moment info handled, rfl⟩
  | update moment =>
    exact ⟨calm.sound.updateRounds moment fun _ member => member, orderly⟩
  | send moment localPort data =>
    exact ⟨calm.sound.sendSession moment localPort data, rfl⟩
  | close moment localPort force =>
    exact ⟨calm.sound.closeSessionId moment localPort force, rfl⟩

theorem listenerStep_breaks (run : ListenerRun) (step : ListenerStep)
    (calm : run.Calm) (disorderly : ¬ run.Orderly step) :
    ¬ (run.listenerStep step).Law := by
  intro law
  cases step with
  | pump moment info memory handled =>
    simp only [Orderly, Apart, Classical.not_forall, not_not] at disorderly
    obtain ⟨connect, named, addr, found, linked⟩ := disorderly
    have released := law.unlinked
    simp only [listenerStep, UdtListener.step, UdtListener.pumpInsrvUdtData,
      if_pos connect, if_neg named, found] at released
    obtain ⟨gone, still⟩ := calm.sound.repeatSyn_linked moment info
      (calm.sound.lock_live found) linked
    exact released addr gone still
  | forward moment info handled => exact disorderly trivial
  | update moment =>
    obtain ⟨node, member⟩ := List.exists_mem_of_ne_nil _ disorderly
    obtain ⟨-, free⟩ := law.released node member
    have live : node ∈ run.listener.connManager.live :=
      List.mem_of_mem_filter member
    have same := (calm.sound.toTidy.updateUdtSessions moment).2
    obtain ⟨low, high⟩ := calm.sound.manager.inRange node live
    have found : run.listener.connManager.root.indexOf node.id =
        some (node.id - run.listener.connManager.root.baseId) :=
      NodeMgr.indexOf_eq_some.mpr ⟨by omega, by omega⟩
    have used := calm.sound.manager.slot node live
    have unused := free (node.id - run.listener.connManager.root.baseId)
    simp only [listenerStep, UdtListener.step] at unused
    rw [same] at unused
    rw [used] at unused
    exact absurd (unused found) Int.one_ne_zero
  | send moment localPort data | close moment localPort force =>
    exact disorderly trivial

/-- The law holds throughout a run exactly if no connect names a linked session
and no update pass begins with a marked one. -/
theorem listenerRun_law_iff (thid fd : Nat) {maxNum startId : Nat}
    (positive : 1 ≤ startId) (fits : startId + maxNum ≤ 65536)
    (steps : List ListenerStep) :
    (∀ visited ∈ states listenerStep (start thid fd maxNum startId) steps,
      visited.Law) ↔
      Meets listenerStep Orderly (start thid fd maxNum startId) steps :=
  law_iff_meets Calm.law
    (fun run step calm _ orderly => listenerStep_calm run step calm orderly)
    (fun run step calm _ disorderly =>
      listenerStep_breaks run step calm disorderly)
    ⟨create_sound positive fits, rfl⟩
    (meets_of_forall (fun _ _ => trivial) _ steps)

def quietMoment (now : NdTime) : Moment :=
  { now := now
    writes := fun _ => [] }

def peerPacket (udtType : UdtMsgType) (localPort : UInt16) (ackSeq : Seq) :
    ListenerStep :=
  .pump (quietMoment 5)
    { addr := .inet 4000 1
      pocket :=
        { UdtPocket.init with
          udtType := udtType
          localPort := localPort
          sequence := 40
          ackSeq := ackSeq } }
    true { taken := 0, result := 0 }

/-- A handshake and an update pass. -/
theorem listenerRun_law_iff_handshake :
    let steps : List ListenerStep :=
      [peerPacket .syn 0 0, peerPacket .ack 1 1, .update (quietMoment 9)]
    (∀ visited ∈ states listenerStep (start 7 3 2 1) steps, visited.Law) ∧
      (steps.foldl listenerStep (start 7 3 2 1)).listener.sessionsList =
        [0] := by
  refine ⟨(listenerRun_law_iff 7 3 (by decide) (by decide) _).mpr ?_, by rfl⟩
  refine ⟨?_, ?_, ?_, trivial⟩
  · intro _ named
    exact absurd rfl named
  · intro connect
    exact absurd connect (by decide)
  · rfl

def resetSteps : List ListenerStep :=
  [peerPacket .syn 0 0, peerPacket .ack 1 1, peerPacket .reset 1 0,
    .update (quietMoment 9)]

/-- A peer resets its session: after the next update pass the session still
has its id. -/
theorem listenerRun_keeps_reset :
    ¬ ∀ (thid fd maxNum startId : Nat), 1 ≤ startId →
      startId + maxNum ≤ 65536 → ∀ steps : List ListenerStep,
        ∀ visited ∈ states listenerStep (start thid fd maxNum startId) steps,
          visited.Law := by
  intro always
  have law := always 7 3 2 1 (by decide) (by decide) resetSteps _
    (foldl_mem_states listenerStep (start 7 3 2 1) resetSteps)
  have due : (⟨1, 0, 7⟩ : LiveNode Nat) ∈
      (resetSteps.foldl listenerStep (start 7 3 2 1)).due := by
    decide +kernel
  have found : (resetSteps.foldl listenerStep
      (start 7 3 2 1)).listener.connManager.root.indexOf 1 = some 0 := by
    decide +kernel
  have used : ((resetSteps.foldl listenerStep
      (start 7 3 2 1)).listener.connManager.root.info 0).used ≠ 0 := by
    decide +kernel
  exact used ((law.released _ due).2 0 found)

end ListenerRun

end NdNet
