import NdNet.Common.NodeMgr

/-!
# Sessions and the threads that own them

The thread pool of a listener: `nd_listenth.c`, the session messages of
`nd_thmsg.c`, `session.c`.  A TCP session is linked in the `sessions_list` of
one thread; the node manager records this thread as its owner.
`nd_session_switch` unlinks it, records the new owner and sends a message, and
the new owner links it when he handles the message.

The steps of the threads interleave.  What a thread does to its own list it
does together with the next access to data of other threads.  Code of the user
runs while a connection is accepted and while a session is closed, and may call
the pool again.
-/

namespace NdNet

open List

/-- The messages `E_THMSGID_ADDTO_THREAD` and `E_THMSGID_CLOSE_SESSION`. -/
inductive PoolMsg where
  | addto (sessionid : Nat)
  | close (sessionid : Nat)
  deriving DecidableEq, Repr

/-- `struct nd_netth_context`, the messages that wait for the thread, and the
calls it is in. -/
structure NetthContext where
  sessionsList : List Nat
  sessionNum : Int
  messages : List PoolMsg
  /-- The session that `accetp_client_connect` shows to the user. -/
  accepting : Option Nat
  /-- The sessions that `nd_session_tcp_close` shows to the user, the last call
  first. -/
  closing : List Nat
  /-- The message `nd_thsrv_send` is called with, and its receiver. -/
  sending : Option (Nat × PoolMsg)
  deriving DecidableEq, Repr

namespace NetthContext

def create : NetthContext :=
  { sessionsList := []
    sessionNum := 0
    messages := []
    accepting := none
    closing := []
    sending := none }

/-- `list_add_tail` in `addto_thread_pool` -/
def addto (thread : NetthContext) (client : Nat) : NetthContext :=
  { thread with
    sessionsList := thread.sessionsList ++ [client]
    sessionNum := thread.sessionNum + 1 }

/-- `list_del_init`, seen from one of the lists. -/
def unlink (thread : NetthContext) (client : Nat) : NetthContext :=
  { thread with
    sessionsList := thread.sessionsList.filter (fun other => other ≠ client) }

def Idle (thread : NetthContext) : Prop :=
  thread.accepting = none ∧ thread.closing = [] ∧ thread.sending = none

instance (thread : NetthContext) : Decidable thread.Idle :=
  inferInstanceAs (Decidable (_ ∧ _ ∧ _))

end NetthContext

/-- A listener with its threads.  The sessions are numbered in the order of
their allocation; `sessionId` is the field of a session. -/
structure ThreadPool where
  listThread : List Nat
  connManager : NodeMgr Nat
  sessionId : Nat → Nat
  allocated : Nat
  thread : Nat → NetthContext

/-- The steps of the threads; `self` is the thread that takes the step. -/
inductive PoolStep where
  /-- `accetp_client_connect` up to the callback. -/
  | accept (self : Nat)
  /-- Its rest: the callback returns other than -1, or -1. -/
  | accepted (self : Nat) (welcome : Bool)
  /-- `nd_session_switch` up to `nd_thsrv_send`. -/
  | switch (self sessionid aimid : Nat)
  /-- `nd_session_closeex` up to the callback or to `nd_thsrv_send`. -/
  | closeex (self sessionid : Nat)
  /-- `nd_thsrv_send`; `memory` says that the message can be allocated. -/
  | send (self : Nat) (memory : Bool)
  /-- The next message of the thread. -/
  | handle (self : Nat)
  /-- `nd_session_close` for a session the thread has in its list, up to the
  callback. -/
  | close (self client : Nat)
  /-- The rest of `nd_session_tcp_close`. -/
  | closed (self : Nat)
  deriving DecidableEq, Repr

namespace ThreadPool

def create (listThread : List Nat) (maxNum startId : Nat) : ThreadPool :=
  { listThread := listThread
    connManager := ⟨NodeRoot.create maxNum startId, []⟩
    sessionId := fun _ => 0
    allocated := 0
    thread := fun _ => NetthContext.create }

def setThread (pool : ThreadPool) (self : Nat) (thread : NetthContext) :
    ThreadPool :=
  { pool with
    thread := fun other => if other = self then thread else pool.thread other }

def lock (pool : ThreadPool) (self sessionid : Nat) : Option Nat :=
  pool.connManager.root.lock self sessionid

def addtoThreadPool (pool : ThreadPool) (client self : Nat) : ThreadPool :=
  pool.setThread self ((pool.thread self).addto client)

/-- `delfrom_thread_pool`.  The session is taken off the list it is in, the
count is that of `self`. -/
def delfromThreadPool (pool : ThreadPool) (client self : Nat) : ThreadPool :=
  { pool with
    thread := fun other =>
      let thread := (pool.thread other).unlink client
      if other = self then
        { thread with sessionNum := thread.sessionNum - 1 }
      else thread }

/-- `_session_addto` up to `nd_thsrv_send`. -/
def sessionAddto (pool : ThreadPool) (self sessionid aimid : Nat) :
    ThreadPool :=
  let owned :=
    { pool with
      connManager := pool.connManager.nodeStep (.setOwner sessionid aimid) }
  owned.setThread self
    { owned.thread self with sending := some (aimid, .addto sessionid) }

def sessionSwitch (pool : ThreadPool) (self sessionid aimid : Nat) :
    ThreadPool :=
  if self = aimid then pool
  else if self ∉ pool.listThread then pool
  else
    match pool.lock self sessionid with
    | none => pool
    | some client =>
      let unlinked := pool.delfromThreadPool client self
      if aimid = 0 then unlinked
      else unlinked.sessionAddto self sessionid aimid

/-- `nd_session_close` up to the callback. -/
def sessionClose (pool : ThreadPool) (self client : Nat) : ThreadPool :=
  pool.setThread self
    { pool.thread self with closing := client :: (pool.thread self).closing }

def sessionCloseex (pool : ThreadPool) (self sessionid : Nat) : ThreadPool :=
  let thid := pool.connManager.root.getOwner sessionid
  if thid = self then
    match pool.lock self sessionid with
    | none => pool
    | some client => pool.sessionClose self client
  else
    pool.setThread self
      { pool.thread self with sending := some (thid, .close sessionid) }

/-- The rest of `nd_session_tcp_close`. -/
def tcpClose (pool : ThreadPool) (self client : Nat) : ThreadPool :=
  let unlinked :=
    if self ∈ pool.listThread then pool.delfromThreadPool client self else pool
  { unlinked with
    connManager :=
      unlinked.connManager.nodeStep (.deaccept (pool.sessionId client)) }

/-- `nd_thsrv_send`, called from `self`.  A thread that is not of the pool has
no handler for the messages. -/
def thsrvSend (pool : ThreadPool) (self srvid : Nat) (msg : PoolMsg)
    (memory : Bool) : ThreadPool :=
  let receiver := if srvid = 0 then self else srvid
  if receiver ∈ pool.listThread ∧ memory then
    pool.setThread receiver
      { pool.thread receiver with
        messages := (pool.thread receiver).messages ++ [msg] }
  else pool

/-- `session_add_handler` and `session_close_handler`.  The result of a handler
is not used: a message that cannot be handled is gone. -/
def handleMsg (pool : ThreadPool) (self : Nat) : PoolMsg → ThreadPool
  | .addto sessionid =>
    match pool.lock self sessionid with
    | none => pool
    | some client => pool.addtoThreadPool client self
  | .close sessionid =>
    match pool.lock self sessionid with
    | none => pool
    | some client =>
      if pool.sessionId client = sessionid then
        pool.sessionClose self client
      else pool

/-- `accetp_client_connect` up to the callback. -/
def acceptClient (pool : ThreadPool) (self : Nat) : ThreadPool :=
  let client := pool.allocated
  let sessionid := (pool.connManager.root.accept self client).1
  let accepted :=
    { pool with
      allocated := client + 1
      connManager := pool.connManager.nodeStep (.accept self client) }
  if sessionid = 0 then accepted
  else
    setThread
      { accepted with
        sessionId := fun other =>
          if other = client then sessionid else pool.sessionId other }
      self { pool.thread self with accepting := some client }

/-- The rest of `accetp_client_connect` and `addto_thread_pool`. -/
def acceptedClient (pool : ThreadPool) (self client : Nat) (welcome : Bool) :
    ThreadPool :=
  let ready :=
    pool.setThread self { pool.thread self with accepting := none }
  if welcome then ready.addtoThreadPool client self
  else
    { ready with
      connManager :=
        ready.connManager.nodeStep (.deaccept (pool.sessionId client)) }

/-- A thread that is in `nd_thsrv_send` goes on with it; otherwise the user may
call the pool, and in its main loop a thread also accepts and handles
messages. -/
def step (pool : ThreadPool) : PoolStep → ThreadPool
  | .accept self =>
    if self ∈ pool.listThread ∧ (pool.thread self).Idle then
      pool.acceptClient self
    else pool
  | .accepted self welcome =>
    match (pool.thread self).accepting, (pool.thread self).closing,
      (pool.thread self).sending with
    | some client, [], none => pool.acceptedClient self client welcome
    | _, _, _ => pool
  | .switch self sessionid aimid =>
    if (pool.thread self).sending = none then
      pool.sessionSwitch self sessionid aimid
    else pool
  | .closeex self sessionid =>
    if (pool.thread self).sending = none then
      pool.sessionCloseex self sessionid
    else pool
  | .send self memory =>
    match (pool.thread self).sending with
    | none => pool
    | some (srvid, msg) =>
      (pool.setThread self
        { pool.thread self with sending := none }).thsrvSend self srvid msg
          memory
  | .handle self =>
    if self ∈ pool.listThread ∧ (pool.thread self).Idle then
      match (pool.thread self).messages with
      | [] => pool
      | msg :: messages =>
        (pool.setThread self
          { pool.thread self with messages := messages }).handleMsg self msg
    else pool
  | .close self client =>
    if (pool.thread self).sending = none ∧
        client ∈ (pool.thread self).sessionsList then
      pool.sessionClose self client
    else pool
  | .closed self =>
    match (pool.thread self).closing, (pool.thread self).sending with
    | client :: closing, none =>
      (pool.setThread self
        { pool.thread self with closing := closing }).tcpClose self client
    | _, _ => pool

/-- Where a session can be: shown to the user by the thread that accepts it,
linked, or in a message that is sent or waits. -/
inductive Kind where
  | accepting
  | linked
  | sending (aimid : Nat)
  | waiting
  deriving DecidableEq, Repr

structure Place where
  thread : Nat
  kind : Kind
  deriving DecidableEq, Repr

/-- The thread that has the session or is to get it. -/
def Place.aim (place : Place) : Nat :=
  match place.kind with
  | .sending aimid => aimid
  | _ => place.thread

end ThreadPool

def NetthContext.occurs (thread : NetthContext) (node : LiveNode Nat) :
    ThreadPool.Kind → Nat
  | .accepting => if thread.accepting = some node.addr then 1 else 0
  | .linked => thread.sessionsList.count node.addr
  | .sending aimid =>
    if thread.sending = some (aimid, .addto node.id) then 1 else 0
  | .waiting => thread.messages.count (.addto node.id)

namespace NetthContext

open ThreadPool

variable {thread : NetthContext} {node : LiveNode Nat}

theorem addto_occurs (client : Nat) (kind : Kind) :
    (thread.addto client).occurs node kind = thread.occurs node kind +
      if kind = .linked ∧ client = node.addr then 1 else 0 := by
  cases kind with
  | linked =>
    simp only [occurs, addto, count_append, count_singleton,
      true_and, beq_iff_eq]
  | accepting | sending aimid | waiting => rfl

theorem calls_occurs (num : Int) (closing : List Nat) (kind : Kind) :
    ({ thread with
      sessionNum := num
      closing := closing } : NetthContext).occurs node kind =
        thread.occurs node kind := by
  cases kind with
  | accepting | linked | sending aimid | waiting => rfl

theorem accepting_occurs (kind : Kind) :
    ({ thread with accepting := none } : NetthContext).occurs node kind =
      if kind = .accepting then 0 else thread.occurs node kind := by
  cases kind with
  | accepting | linked | sending aimid | waiting => rfl

theorem sent_occurs {aimid sessionid : Nat}
    (sending : thread.sending = some (aimid, .addto sessionid)) (kind : Kind) :
    ({ thread with sending := none } : NetthContext).occurs node kind =
      if kind = .sending aimid ∧ sessionid = node.id then 0
      else thread.occurs node kind := by
  cases kind with
  | sending aim =>
    split
    next => rfl
    next elsewhere =>
      refine (if_neg ?_).symm
      rw [sending]
      intro same
      injection same with same
      injection same with aims ids
      injection ids with ids
      exact elsewhere ⟨by rw [aims], ids⟩
  | accepting | linked | waiting => rfl

theorem queued_occurs (sessionid : Nat) (kind : Kind) :
    ({ thread with
      messages := thread.messages ++ [.addto sessionid] } :
        NetthContext).occurs node kind = thread.occurs node kind +
          if kind = .waiting ∧ sessionid = node.id then 1 else 0 := by
  cases kind with
  | waiting =>
    simp only [occurs, count_append, count_singleton, true_and,
      beq_iff_eq, PoolMsg.addto.injEq]
  | accepting | linked | sending aimid => rfl

theorem taken_occurs {sessionid : Nat} {messages : List PoolMsg}
    (waiting : thread.messages = .addto sessionid :: messages) (kind : Kind) :
    ({ thread with messages := messages } : NetthContext).occurs node kind +
      (if kind = .waiting ∧ sessionid = node.id then 1 else 0) =
        thread.occurs node kind := by
  cases kind with
  | waiting =>
    simp only [occurs, waiting, count_cons, true_and, beq_iff_eq,
      PoolMsg.addto.injEq]
  | accepting | linked | sending aimid => rfl

theorem unlink_length (client : Nat) :
    (thread.unlink client).sessionsList.length +
      thread.sessionsList.count client = thread.sessionsList.length := by
  have whole := length_eq_length_filter_add
    (fun other => decide (other ≠ client)) (l := thread.sessionsList)
  have counted : thread.sessionsList.filter
      (fun other => !decide (other ≠ client)) =
        thread.sessionsList.filter (· == client) := by
    congr 1
    funext other
    simp [Bool.beq_eq_decide_eq]
  rw [counted, ← count_eq_length_filter] at whole
  exact whole.symm

theorem unlink_occurs (client : Nat) (kind : Kind) :
    (thread.unlink client).occurs node kind =
      if kind = .linked ∧ client = node.addr then 0
      else thread.occurs node kind := by
  cases kind with
  | linked =>
    by_cases same : client = node.addr
    · subst same
      simp [occurs, unlink, count_eq_zero]
    · simp only [occurs, unlink, true_and, if_neg same]
      exact count_filter (by simpa using Ne.symm same)
  | accepting | sending aimid | waiting => rfl

end NetthContext

namespace ThreadPool

/-- The session is in this place, once, and in no other. -/
def OnlyIn (pool : ThreadPool) (node : LiveNode Nat) (place : Place) : Prop :=
  ∀ other : Place, (pool.thread other.thread).occurs node other.kind =
    if other = place then 1 else 0

/-- Every open session is in one place, whose thread is the owner the node
manager has recorded; no other session is anywhere; the counts are right. -/
structure Law (pool : ThreadPool) : Prop where
  single : ∀ node ∈ pool.connManager.live, ∃ place : Place,
    place.aim = node.owner ∧ node.owner ∈ pool.listThread ∧
      pool.OnlyIn node place
  recorded : ∀ node ∈ pool.connManager.live,
    pool.connManager.root.getOwner node.id = node.owner
  linked : ∀ self client, client ∈ (pool.thread self).sessionsList ∨
    (pool.thread self).accepting = some client →
      ∃ node ∈ pool.connManager.live, node.addr = client
  messages : ∀ self sessionid,
    .addto sessionid ∈ (pool.thread self).messages ∨
      (∃ aimid, (pool.thread self).sending = some (aimid, .addto sessionid)) →
      ∃ node ∈ pool.connManager.live, node.id = sessionid
  sessionNum : ∀ self, (pool.thread self).sessionNum =
    (pool.thread self).sessionsList.length

/-- What keeps the law: a session is switched or closed only while it is
linked in the list of the thread that does this, a switch goes to a thread of
the pool, and its message can be allocated. -/
def Orderly (pool : ThreadPool) : PoolStep → Prop
  | .switch self sessionid aimid =>
    (pool.thread self).sending = none → self ≠ aimid →
      self ∈ pool.listThread → ∀ client,
        pool.lock self sessionid = some client →
          client ∈ (pool.thread self).sessionsList ∧ aimid ∈ pool.listThread
  | .send self memory => ∀ srvid sessionid,
      (pool.thread self).sending = some (srvid, .addto sessionid) →
        memory = true
  | .closed self => (pool.thread self).sending = none → ∀ client closing,
      (pool.thread self).closing = client :: closing →
        client ∈ (pool.thread self).sessionsList
  | _ => True

/-- The law, with what is known of the node manager and of the sessions. -/
structure Sound (pool : ThreadPool) : Prop extends Law pool where
  manager : pool.connManager.Keeps
  named : 0 ∉ pool.listThread
  known : ∀ node ∈ pool.connManager.live,
    node.addr < pool.allocated ∧ pool.sessionId node.addr = node.id
  apart : ∀ node ∈ pool.connManager.live, ∀ other ∈ pool.connManager.live,
    node.addr = other.addr → node = other

variable {thread : NetthContext}

section Sound

variable {pool : ThreadPool} {self client : Nat} {node : LiveNode Nat}

theorem Sound.of_id (sound : pool.Sound) {other : LiveNode Nat}
    (member : node ∈ pool.connManager.live)
    (also : other ∈ pool.connManager.live) (same : node.id = other.id) :
    node = other :=
  inj_on_of_nodup_map sound.manager.distinct member also same

theorem Law.onlyIn (law : pool.Law) (member : node ∈ pool.connManager.live)
    {place : Place}
    (found : (pool.thread place.thread).occurs node place.kind ≠ 0) :
    place.aim = node.owner ∧ node.owner ∈ pool.listThread ∧
      pool.OnlyIn node place := by
  obtain ⟨only, aim, owner, onlyIn⟩ := law.single node member
  have same : place = only := by
    by_contra differs
    exact found ((onlyIn place).trans (if_neg differs))
  subst same
  exact ⟨aim, owner, onlyIn⟩

theorem Law.single_same (law : pool.Law) {after : ThreadPool}
    (member : node ∈ pool.connManager.live)
    (threads : after.listThread = pool.listThread)
    (same : ∀ other kind, (after.thread other).occurs node kind =
      (pool.thread other).occurs node kind) :
    ∃ place : Place, place.aim = node.owner ∧
      node.owner ∈ after.listThread ∧ after.OnlyIn node place := by
  obtain ⟨place, aim, owner, onlyIn⟩ := law.single node member
  refine ⟨place, aim, threads ▸ owner, ?_⟩
  intro other
  exact (same other.thread other.kind).trans (onlyIn other)

theorem setThread_self (thread : NetthContext) :
    (pool.setThread self thread).thread self = thread :=
  if_pos rfl

theorem setThread_other (thread : NetthContext) {other : Nat}
    (differs : other ≠ self) :
    (pool.setThread self thread).thread other = pool.thread other :=
  if_neg differs

section

variable (sound : pool.Sound)
include sound

theorem Sound.quiet
    (list : thread.sessionsList = (pool.thread self).sessionsList)
    (num : thread.sessionNum = (pool.thread self).sessionNum)
    (accepting : thread.accepting = (pool.thread self).accepting)
    (sending : ∀ aimid sessionid,
      thread.sending = some (aimid, .addto sessionid) ↔
        (pool.thread self).sending = some (aimid, .addto sessionid))
    (messages : ∀ sessionid, thread.messages.count (.addto sessionid) =
      (pool.thread self).messages.count (.addto sessionid)) :
    (pool.setThread self thread).Sound := by
  have occurs : ∀ (node : LiveNode Nat) other kind,
      ((pool.setThread self thread).thread other).occurs node kind =
        (pool.thread other).occurs node kind := by
    intro node other kind
    by_cases same : other = self
    · subst same
      rw [setThread_self]
      cases kind with
      | accepting => simp only [NetthContext.occurs, accepting]
      | linked => simp only [NetthContext.occurs, list]
      | sending aimid => simp only [NetthContext.occurs, sending]
      | waiting => simp only [NetthContext.occurs, messages]
    · rw [setThread_other thread same]
  refine { manager := sound.manager, named := sound.named,
           known := sound.known, apart := sound.apart, single := ?_,
           recorded := sound.recorded, linked := ?_, messages := ?_,
           sessionNum := ?_ }
  · intro node member
    exact sound.single_same member rfl (occurs node)
  · intro other client found
    by_cases same : other = self
    · subst same
      rw [setThread_self, list, accepting] at found
      exact sound.linked other client found
    · rw [setThread_other thread same] at found
      exact sound.linked other client found
  · intro other sessionid found
    by_cases same : other = self
    · subst same
      rw [setThread_self] at found
      refine sound.toLaw.messages other sessionid ?_
      rcases found with waits | ⟨aimid, sent⟩
      · left
        rw [← count_pos_iff] at waits ⊢
        rw [← messages]
        exact waits
      · exact .inr ⟨aimid, (sending aimid sessionid).mp sent⟩
    · rw [setThread_other thread same] at found
      exact sound.toLaw.messages other sessionid found
  · intro other
    by_cases same : other = self
    · subst same
      rw [setThread_self, num, list]
      exact sound.sessionNum other
    · rw [setThread_other thread same]
      exact sound.sessionNum other

theorem Sound.sessionClose :
    (pool.sessionClose self client).Sound :=
  sound.quiet rfl rfl rfl (fun _ _ => Iff.rfl) fun _ => rfl

theorem Sound.sessionCloseex (free : (pool.thread self).sending = none)
    (sessionid : Nat) :
    (pool.sessionCloseex self sessionid).Sound := by
  unfold ThreadPool.sessionCloseex
  dsimp only
  split
  · split
    · exact sound
    · exact sound.sessionClose
  · refine sound.quiet rfl rfl rfl ?_ fun _ => rfl
    intro aimid sessionid
    simp [free]

theorem Sound.key (member : node ∈ pool.connManager.live) :
    ∀ other ∈ pool.connManager.live,
      other.addr = node.addr ↔ other.id = node.id := by
  intro other also
  constructor
  · intro same
    rw [sound.apart other also node member same]
  · intro same
    rw [sound.of_id also member same]

/-- A step that concerns one session: `node` is this session after the step.
The others stay as and where they are. -/
theorem Sound.change {after : ThreadPool}
    (threads : after.listThread = pool.listThread)
    (keeps : after.connManager.Keeps)
    (known : ∀ other ∈ after.connManager.live,
      other.addr < after.allocated ∧ after.sessionId other.addr = other.id)
    (key : ∀ other ∈ pool.connManager.live,
      other.addr = node.addr ↔ other.id = node.id)
    (live : ∀ other, other ∈ after.connManager.live →
      other = node ∨ other ∈ pool.connManager.live ∧ other.id ≠ node.id)
    (still : ∀ other ∈ pool.connManager.live, other.id ≠ node.id →
      other ∈ after.connManager.live)
    (others : ∀ other : LiveNode Nat, other.addr ≠ node.addr →
      other.id ≠ node.id → ∀ self kind,
        (after.thread self).occurs other kind =
          (pool.thread self).occurs other kind)
    (placed : node ∈ after.connManager.live → ∃ place : Place,
      place.aim = node.owner ∧ node.owner ∈ pool.listThread ∧
        after.OnlyIn node place)
    (gone : node ∉ after.connManager.live → ∀ self kind,
      (after.thread self).occurs node kind = 0)
    (num : ∀ self, (after.thread self).sessionNum =
      (after.thread self).sessionsList.length) :
    after.Sound := by
  refine { manager := keeps, named := threads ▸ sound.named, known := known,
           apart := ?apart, single := ?single,
           recorded := fun _ member => keeps.getOwner member,
           linked := ?linked, messages := ?messages, sessionNum := num }
  case apart =>
    intro first member second also same
    rcases live first member with rfl | ⟨old, apart⟩
    · rcases live second also with rfl | ⟨older, apart⟩
      · rfl
      · exact absurd ((key second older).mp same.symm) apart
    · rcases live second also with rfl | ⟨older, -⟩
      · exact absurd ((key first old).mp same) apart
      · exact sound.apart first old second older same
  case single =>
    intro other member
    rcases live other member with rfl | ⟨old, apart⟩
    · rw [threads]
      exact placed member
    · exact sound.single_same old threads
        (others other (fun same => apart ((key other old).mp same)) apart)
  case linked =>
    intro self client found
    by_cases same : client = node.addr
    · subst same
      by_cases member : node ∈ after.connManager.live
      · exact ⟨node, member, rfl⟩
      · have none := gone member self
        rcases found with linked | accepting
        · exact absurd linked (count_eq_zero.mp (none .linked))
        · have zero := none .accepting
          simp only [NetthContext.occurs, if_pos accepting] at zero
          exact absurd zero Nat.one_ne_zero
    · have alike := others ⟨node.id + 1, client, 0⟩ same
        (Nat.succ_ne_self node.id) self
      obtain ⟨other, member, rfl⟩ := sound.linked self client (by
        rcases found with linked | accepting
        · left
          rw [← count_pos_iff] at linked ⊢
          exact Nat.lt_of_lt_of_eq linked (alike .linked)
        · right
          have one := alike .accepting
          simp only [NetthContext.occurs, if_pos accepting] at one
          by_contra elsewhere
          rw [if_neg elsewhere] at one
          exact absurd one Nat.one_ne_zero)
      exact ⟨other, still other member
        (fun equal => same ((key other member).mpr equal)), rfl⟩
  case messages =>
    intro self sessionid found
    by_cases same : sessionid = node.id
    · subst same
      by_cases member : node ∈ after.connManager.live
      · exact ⟨node, member, rfl⟩
      · have none := gone member self
        rcases found with waits | ⟨aimid, sent⟩
        · exact absurd waits (count_eq_zero.mp (none .waiting))
        · have zero := none (.sending aimid)
          simp only [NetthContext.occurs, if_pos sent] at zero
          exact absurd zero Nat.one_ne_zero
    · have alike := others ⟨sessionid, node.addr + 1, 0⟩
        (Nat.succ_ne_self node.addr) same self
      obtain ⟨other, member, rfl⟩ := sound.toLaw.messages self sessionid (by
        rcases found with waits | ⟨aimid, sent⟩
        · left
          rw [← count_pos_iff] at waits ⊢
          exact Nat.lt_of_lt_of_eq waits (alike .waiting)
        · right
          refine ⟨aimid, ?_⟩
          have one := alike (.sending aimid)
          simp only [NetthContext.occurs, if_pos sent] at one
          by_contra elsewhere
          rw [if_neg elsewhere] at one
          exact absurd one Nat.one_ne_zero)
      exact ⟨other, still other member same, rfl⟩

end

theorem setThread_setThread (first second : NetthContext) :
    (pool.setThread self first).setThread self second =
      pool.setThread self second := by
  unfold setThread
  congr 1
  funext other
  dsimp only
  split <;> rfl

theorem OnlyIn.setThread {kind : Kind} (only : pool.OnlyIn node ⟨self, kind⟩)
    {next : Kind}
    (moved : ∀ kind, thread.occurs node kind = if kind = next then 1 else 0) :
    (pool.setThread self thread).OnlyIn node ⟨self, next⟩ := by
  rintro ⟨other, place⟩
  by_cases same : other = self
  · subst same
    rw [setThread_self, moved]
    simp
  · rw [setThread_other thread same, only ⟨other, place⟩]
    simp [same]

theorem Sound.setThread (sound : pool.Sound)
    (member : node ∈ pool.connManager.live) {kind next : Kind}
    (only : pool.OnlyIn node ⟨self, kind⟩)
    (aim : Place.aim ⟨self, next⟩ = node.owner)
    (owner : node.owner ∈ pool.listThread)
    (moved : ∀ kind, thread.occurs node kind = if kind = next then 1 else 0)
    (others : ∀ other : LiveNode Nat, other.addr ≠ node.addr →
      other.id ≠ node.id → ∀ kind,
        thread.occurs other kind = (pool.thread self).occurs other kind)
    (num : thread.sessionNum = thread.sessionsList.length) :
    (pool.setThread self thread).Sound := by
  refine sound.change rfl sound.manager sound.known (sound.key member) ?live
    (fun other old _ => old) ?others ?placed ?gone ?num
  case live =>
    intro other old
    by_cases same : other.id = node.id
    · exact .inl (sound.of_id old member same)
    · exact .inr ⟨old, same⟩
  case others =>
    intro other addr sessionid thread' kind
    by_cases same : thread' = self
    · subst same
      rw [setThread_self]
      exact others other addr sessionid kind
    · rw [setThread_other thread same]
  case placed => exact fun _ => ⟨⟨self, next⟩, aim, owner, only.setThread moved⟩
  case gone => exact fun none => absurd member none
  case num =>
    intro other
    by_cases same : other = self
    · subst same
      rw [setThread_self]
      exact num
    · rw [setThread_other thread same]
      exact sound.sessionNum other

theorem Sound.deaccept (sound : pool.Sound)
    (member : node ∈ pool.connManager.live) {threads : Nat → NetthContext}
    (others : ∀ other : LiveNode Nat, other.addr ≠ node.addr →
      other.id ≠ node.id → ∀ self kind,
        (threads self).occurs other kind = (pool.thread self).occurs other kind)
    (gone : ∀ self kind, (threads self).occurs node kind = 0)
    (num : ∀ self, (threads self).sessionNum =
      (threads self).sessionsList.length) :
    Sound
      { pool with
        connManager := pool.connManager.nodeStep (.deaccept node.id)
        thread := threads } := by
  have live : ∀ other, other ∈ (pool.connManager.nodeStep
      (.deaccept node.id)).live ↔
        other ∈ pool.connManager.live ∧ other.id ≠ node.id := by
    intro other
    unfold NodeMgr.nodeStep
    rw [mem_filter, decide_eq_true_iff]
  refine sound.change rfl
    (NodeMgr.deaccept_keeps sound.manager ⟨node, member, rfl⟩) ?_
    (sound.key member) ?_ ?_ others ?_ (fun _ => gone) num
  · intro other left
    exact sound.known other ((live other).mp left).1
  · intro other left
    exact .inr ((live other).mp left)
  · intro other old apart
    exact (live other).mpr ⟨old, apart⟩
  · intro left
    exact absurd rfl ((live node).mp left).2

theorem Law.nowhere (law : pool.Law)
    (addr : ∀ other ∈ pool.connManager.live, other.addr ≠ node.addr)
    (sessionid : ∀ other ∈ pool.connManager.live, other.id ≠ node.id)
    (kind : Kind) : (pool.thread self).occurs node kind = 0 := by
  cases kind with
  | accepting =>
    refine if_neg fun accepting => ?_
    obtain ⟨other, member, same⟩ := law.linked self node.addr (.inr accepting)
    exact addr other member same
  | linked =>
    refine count_eq_zero.mpr fun linked => ?_
    obtain ⟨other, member, same⟩ := law.linked self node.addr (.inl linked)
    exact addr other member same
  | sending aimid =>
    refine if_neg fun sending => ?_
    obtain ⟨other, member, same⟩ := law.messages self node.id
      (.inr ⟨aimid, sending⟩)
    exact sessionid other member same
  | waiting =>
    refine count_eq_zero.mpr fun waiting => ?_
    obtain ⟨other, member, same⟩ := law.messages self node.id (.inl waiting)
    exact sessionid other member same

theorem Sound.acceptClient (sound : pool.Sound) (own : self ∈ pool.listThread)
    (free : (pool.thread self).accepting = none) :
    (pool.acceptClient self).Sound := by
  have keeps := NodeMgr.accept_keeps sound.manager self pool.allocated
  unfold ThreadPool.acceptClient
  dsimp only
  rcases sound.manager.accept_cases self pool.allocated with
    ⟨index, inside, unused, answer⟩ | ⟨-, answer⟩
  · have positive := sound.manager.base_pos
    have number : (pool.connManager.root.accept self pool.allocated).1 =
        pool.connManager.root.baseId + index := by
      rw [answer]
    have grown : (pool.connManager.nodeStep
        (.accept self pool.allocated)).live = pool.connManager.live ++
          [⟨pool.connManager.root.baseId + index, pool.allocated, self⟩] := by
      unfold NodeMgr.nodeStep
      dsimp only
      rw [number, if_neg (by omega)]
    have young : ∀ other ∈ pool.connManager.live,
        other.addr ≠ pool.allocated := fun other member =>
      Nat.ne_of_lt (sound.known other member).1
    have dead : ∀ other ∈ pool.connManager.live,
        other.id ≠ pool.connManager.root.baseId + index :=
      fun other member same => unused ⟨other, member, same⟩
    rw [number, if_neg (by omega)]
    refine @Sound.change pool
      ⟨pool.connManager.root.baseId + index, pool.allocated, self⟩ sound _
      rfl keeps ?known ?key ?live ?still ?others ?placed ?gone ?num
    case known =>
      intro other member
      change other ∈ (pool.connManager.nodeStep
        (.accept self pool.allocated)).live at member
      rw [grown, mem_append, mem_singleton] at member
      rcases member with old | rfl
      · obtain ⟨before, sessionid⟩ := sound.known other old
        refine ⟨Nat.lt_succ_of_lt before, ?_⟩
        exact (if_neg (young other old)).trans sessionid
      · exact ⟨Nat.lt_succ_self _, if_pos rfl⟩
    case key =>
      intro other member
      exact iff_of_false (young other member) (dead other member)
    case live =>
      intro other member
      change other ∈ (pool.connManager.nodeStep
        (.accept self pool.allocated)).live at member
      rw [grown, mem_append, mem_singleton] at member
      rcases member with old | new
      · exact .inr ⟨old, dead other old⟩
      · exact .inl new
    case still =>
      intro other member _
      change other ∈ (pool.connManager.nodeStep
        (.accept self pool.allocated)).live
      rw [grown]
      exact mem_append_left _ member
    case others =>
      intro other addr _ thread kind
      by_cases same : thread = self
      · subst same
        rw [setThread_self]
        cases kind with
        | accepting =>
          refine (if_neg ?_).trans (if_neg ?_).symm
          · intro shown
            exact addr (Option.some.inj shown).symm
          · rw [free]
            exact nofun
        | linked | sending aimid | waiting => rfl
      · rw [setThread_other _ same]
    case placed =>
      intro _
      refine ⟨⟨self, .accepting⟩, rfl, own, ?_⟩
      rintro ⟨thread, kind⟩
      have nowhere := @Law.nowhere pool thread
        ⟨pool.connManager.root.baseId + index, pool.allocated, self⟩
        sound.toLaw young dead kind
      by_cases same : thread = self
      · subst same
        rw [setThread_self]
        cases kind with
        | accepting => exact (if_pos rfl).trans (if_pos rfl).symm
        | linked | sending aimid | waiting =>
          exact nowhere.trans (if_neg (by simp)).symm
      · rw [setThread_other _ same, if_neg (by simp [same])]
        exact nowhere
    case gone =>
      intro none
      refine absurd ?_ none
      change _ ∈ (pool.connManager.nodeStep (.accept self pool.allocated)).live
      rw [grown]
      exact mem_append_right _ (mem_singleton_self _)
    case num =>
      intro thread
      by_cases same : thread = self
      · subst same
        rw [setThread_self]
        exact sound.sessionNum thread
      · rw [setThread_other _ same]
        exact sound.sessionNum thread
  · have none : (pool.connManager.root.accept self pool.allocated).1 = 0 := by
      rw [answer]
    have kept : pool.connManager.nodeStep (.accept self pool.allocated) =
        pool.connManager := by
      unfold NodeMgr.nodeStep
      dsimp only
      rw [answer, if_pos rfl]
    rw [none, if_pos rfl, kept]
    refine { sound with known := ?_, single := sound.single }
    intro other member
    obtain ⟨before, sessionid⟩ := sound.known other member
    exact ⟨Nat.lt_succ_of_lt before, sessionid⟩

theorem Sound.acceptedClient (sound : pool.Sound)
    (shown : (pool.thread self).accepting = some client) (welcome : Bool) :
    (pool.acceptedClient self client welcome).Sound := by
  obtain ⟨node, member, rfl⟩ := sound.linked self client (.inr shown)
  obtain ⟨aim, owner, only⟩ := sound.onlyIn member
    (show (pool.thread (Place.mk self .accepting).thread).occurs node
      .accepting ≠ 0 by
        simp [NetthContext.occurs, shown])
  have apart : ∀ other : LiveNode Nat, other.addr ≠ node.addr → ∀ kind,
      ({ pool.thread self with accepting := none } : NetthContext).occurs
        other kind = (pool.thread self).occurs other kind := by
    intro other addr kind
    rw [NetthContext.accepting_occurs]
    split
    next same =>
      subst same
      refine (if_neg ?_).symm
      rw [shown]
      intro equal
      exact addr (Option.some.inj equal).symm
    next => rfl
  have left : ∀ kind, ({ pool.thread self with
      accepting := none } : NetthContext).occurs node kind = 0 := by
    intro kind
    rw [NetthContext.accepting_occurs]
    split
    next => rfl
    next other => exact (only ⟨self, kind⟩).trans (if_neg (by simp [other]))
  unfold acceptedClient
  cases welcome with
  | true =>
    unfold addtoThreadPool
    rw [if_pos rfl, setThread_setThread, setThread_self]
    refine sound.setThread member only
      (show Place.aim ⟨self, .linked⟩ = node.owner from aim) owner ?_ ?_ ?_
    · intro kind
      rw [NetthContext.addto_occurs, left, Nat.zero_add]
      exact ite_congr (by simp) (fun _ => rfl) fun _ => rfl
    · intro other addr _ kind
      rw [NetthContext.addto_occurs, apart other addr,
        if_neg (fun both => addr both.2.symm), Nat.add_zero]
    · have num := sound.sessionNum self
      simp only [NetthContext.addto, length_append, length_singleton]
      omega
  | false =>
    rw [if_neg Bool.false_ne_true, (sound.known node member).2]
    refine @Sound.deaccept pool node sound member (pool.setThread self
      { pool.thread self with accepting := none }).thread ?_ ?_ ?_
    · intro other addr _ thread kind
      by_cases same : thread = self
      · subst same
        rw [setThread_self]
        exact apart other addr kind
      · rw [setThread_other _ same]
    · intro thread kind
      by_cases same : thread = self
      · subst same
        rw [setThread_self]
        exact left kind
      · rw [setThread_other _ same]
        exact (only ⟨thread, kind⟩).trans (if_neg (by simp [same]))
    · intro thread
      by_cases same : thread = self
      · subst same
        rw [setThread_self]
        exact sound.sessionNum thread
      · rw [setThread_other _ same]
        exact sound.sessionNum thread

theorem Sound.linked_onlyIn (sound : pool.Sound)
    (linked : client ∈ (pool.thread self).sessionsList) :
    ∃ node ∈ pool.connManager.live, node.addr = client ∧
      node.owner = self ∧ self ∈ pool.listThread ∧
        pool.OnlyIn node ⟨self, .linked⟩ := by
  obtain ⟨node, member, rfl⟩ := sound.linked self client (.inl linked)
  obtain ⟨aim, owner, only⟩ := sound.onlyIn member
    (show (pool.thread (Place.mk self .linked).thread).occurs node
      .linked ≠ 0 from Nat.pos_iff_ne_zero.mp (count_pos_iff.mpr linked))
  have same : node.owner = self := aim.symm
  exact ⟨node, member, rfl, same, same ▸ owner, only⟩

theorem delfrom_occurs (other : LiveNode Nat) (thread : Nat) (kind : Kind) :
    ((pool.delfromThreadPool client self).thread thread).occurs other kind =
      if kind = .linked ∧ client = other.addr then 0
      else (pool.thread thread).occurs other kind := by
  unfold delfromThreadPool
  dsimp only
  split
  · exact (NetthContext.calls_occurs _ _ kind).trans
      (NetthContext.unlink_occurs client kind)
  · exact NetthContext.unlink_occurs client kind

theorem delfrom_sessionNum (law : pool.Law)
    (only : pool.OnlyIn node ⟨self, .linked⟩) (thread : Nat) :
    ((pool.delfromThreadPool node.addr self).thread thread).sessionNum =
      ((pool.delfromThreadPool node.addr self).thread
        thread).sessionsList.length := by
  have count : (pool.thread thread).sessionsList.count node.addr =
      if thread = self then 1 else 0 := by
    refine (only ⟨thread, .linked⟩).trans ?_
    simp
  have length := @NetthContext.unlink_length (pool.thread thread) node.addr
  have num := law.sessionNum thread
  rw [count] at length
  unfold delfromThreadPool
  dsimp only
  split
  next same =>
    rw [if_pos same] at length
    change (pool.thread thread).sessionNum - 1 =
      (((pool.thread thread).unlink node.addr).sessionsList.length : Int)
    omega
  next other =>
    rw [if_neg other] at length
    change (pool.thread thread).sessionNum = _
    rw [num, ← length]
    rfl

variable (sound : pool.Sound)
include sound

theorem Sound.tcpClose (linked : client ∈ (pool.thread self).sessionsList) :
    (pool.tcpClose self client).Sound := by
  obtain ⟨node, member, rfl, -, own, only⟩ := sound.linked_onlyIn linked
  unfold tcpClose
  rw [if_pos own, (sound.known node member).2]
  refine @Sound.deaccept pool node sound member
    (pool.delfromThreadPool node.addr self).thread ?_ ?_
    (delfrom_sessionNum sound.toLaw only)
  · intro other addr _ thread kind
    rw [delfrom_occurs, if_neg (fun both => addr both.2.symm)]
  · intro thread kind
    rw [delfrom_occurs]
    split
    next => rfl
    next elsewhere =>
      refine (only ⟨thread, kind⟩).trans (if_neg ?_)
      intro same
      exact elsewhere ⟨congrArg Place.kind same, rfl⟩

theorem mem_setOwner (member : node ∈ pool.connManager.live) (owner : Nat)
    (other : LiveNode Nat) :
    other ∈ (pool.connManager.nodeStep (.setOwner node.id owner)).live ↔
      other = { node with owner := owner } ∨
        other ∈ pool.connManager.live ∧ other.id ≠ node.id := by
  change other ∈ pool.connManager.live.map (NodeMgr.ownNode node.id owner) ↔ _
  rw [mem_map]
  unfold NodeMgr.ownNode
  constructor
  · rintro ⟨before, known, rfl⟩
    split
    next same =>
      left
      rw [sound.of_id known member same]
    next differs => exact .inr ⟨known, differs⟩
  · rintro (rfl | ⟨known, differs⟩)
    · exact ⟨node, member, if_pos rfl⟩
    · exact ⟨other, known, if_neg differs⟩

theorem Sound.sessionAddto (member : node ∈ pool.connManager.live)
    (only : pool.OnlyIn node ⟨self, .linked⟩)
    (free : (pool.thread self).sending = none) {aimid : Nat}
    (target : aimid ∈ pool.listThread) :
    ((pool.delfromThreadPool node.addr self).sessionAddto self node.id
      aimid).Sound := by
  have live := fun other => mem_setOwner sound member aimid other
  have keeps : (pool.connManager.nodeStep (.setOwner node.id aimid)).Keeps :=
    NodeMgr.setOwner_keeps sound.manager (.inr (.inr ⟨node, member, rfl⟩))
  have unsent : ((pool.delfromThreadPool node.addr self).thread
      self).sending = none := by
    unfold delfromThreadPool
    dsimp only
    rw [if_pos rfl]
    exact free
  unfold ThreadPool.sessionAddto
  refine @Sound.change pool { node with owner := aimid } sound _ rfl keeps
    ?known (fun other known => sound.key member other known) ?live ?still
    ?others ?placed ?gone ?num
  case known =>
    intro other left
    rcases (live other).mp left with rfl | ⟨known, -⟩
    · exact sound.known node member
    · exact sound.known other known
  case live => exact fun other left => (live other).mp left
  case still =>
    intro other known apart
    exact (live other).mpr (.inr ⟨known, apart⟩)
  case others =>
    intro other addr sessionid thread kind
    have same := @delfrom_occurs pool self node.addr other thread kind
    rw [if_neg (fun both => addr both.2.symm)] at same
    refine Eq.trans ?_ same
    by_cases here : thread = self
    · subst here
      rw [setThread_self]
      cases kind with
      | sending aim =>
        refine (if_neg ?_).trans (if_neg ?_).symm
        · intro sent
          injection sent with sent
          injection sent with _ sent
          injection sent with sent
          exact sessionid sent.symm
        · rw [unsent]
          exact nofun
      | accepting | linked | waiting => rfl
    · rw [setThread_other _ here]
  case placed =>
    intro _
    refine ⟨⟨self, .sending aimid⟩, rfl, target, ?_⟩
    rintro ⟨thread, kind⟩
    have empty : ((pool.delfromThreadPool node.addr self).thread
        thread).occurs { node with owner := aimid } kind = 0 := by
      rw [delfrom_occurs]
      split
      next => rfl
      next elsewhere =>
        refine (only ⟨thread, kind⟩).trans (if_neg ?_)
        intro same
        exact elsewhere ⟨congrArg Place.kind same, rfl⟩
    by_cases here : thread = self
    · subst here
      rw [setThread_self]
      cases kind with
      | sending aim =>
        refine ite_congr (propext ?_) (fun _ => rfl) fun _ => rfl
        simp [eq_comm]
      | accepting | linked | waiting =>
        exact empty.trans (if_neg (by simp)).symm
    · rw [setThread_other _ here, if_neg (by simp [here])]
      exact empty
  case gone => exact fun none => absurd ((live _).mpr (.inl rfl)) none
  case num =>
    intro thread
    have num := delfrom_sessionNum sound.toLaw only thread
    by_cases here : thread = self
    · subst here
      rw [setThread_self]
      exact num
    · rw [setThread_other _ here]
      exact num

theorem Sound.sessionSwitch (free : (pool.thread self).sending = none)
    {sessionid aimid : Nat}
    (orderly : self ≠ aimid → self ∈ pool.listThread → ∀ client,
      pool.lock self sessionid = some client →
        client ∈ (pool.thread self).sessionsList ∧ aimid ∈ pool.listThread) :
    (pool.sessionSwitch self sessionid aimid).Sound := by
  unfold ThreadPool.sessionSwitch
  split
  · exact sound
  next other =>
    split
    · exact sound
    next own =>
      have own := not_not.mp own
      split
      · exact sound
      next client found =>
        obtain ⟨linked, target⟩ := orderly other own client found
        have member := (sound.manager.lock_iff _ _ _).mp found
        obtain ⟨node, known, rfl, owner, -, only⟩ := sound.linked_onlyIn linked
        have same := sound.apart node known _ member rfl
        have number : node.id = sessionid := congrArg LiveNode.id same
        subst number
        rw [if_neg (show aimid ≠ 0 from fun zero =>
          sound.named (zero ▸ target))]
        exact sound.sessionAddto known only free target

theorem Sound.sendAddto {srvid sessionid : Nat}
    (sending : (pool.thread self).sending = some (srvid, .addto sessionid)) :
    ((pool.setThread self
      { pool.thread self with sending := none }).thsrvSend self srvid
        (.addto sessionid) true).Sound := by
  obtain ⟨node, member, rfl⟩ := sound.toLaw.messages self sessionid
    (.inr ⟨srvid, sending⟩)
  obtain ⟨aim, owner, only⟩ := sound.onlyIn member
    (show (pool.thread (Place.mk self (.sending srvid)).thread).occurs node
      (.sending srvid) ≠ 0 by
        simp [NetthContext.occurs, sending])
  have target : node.owner = srvid := aim.symm
  subst target
  have sent := fun (other : LiveNode Nat) (kind : Kind) =>
    @NetthContext.sent_occurs (pool.thread self) other node.owner node.id
      sending kind
  have rest : ∀ (other : LiveNode Nat) (thread : Nat) (kind : Kind),
      ((pool.setThread self { pool.thread self with
        sending := none }).thread thread).occurs other kind =
          if thread = self ∧ kind = .sending node.owner ∧
              node.id = other.id then 0
          else (pool.thread thread).occurs other kind := by
    intro other thread kind
    by_cases here : thread = self
    · subst here
      rw [setThread_self, sent]
      exact ite_congr (by simp) (fun _ => rfl) fun _ => rfl
    · rw [setThread_other _ here, if_neg (fun both => here both.1)]
  unfold thsrvSend
  rw [if_neg (show node.owner ≠ 0 from fun zero => sound.named (zero ▸ owner)),
    if_pos ⟨owner, rfl⟩]
  refine @Sound.change pool node sound _ rfl sound.manager sound.known
    (sound.key member) ?live (fun other old _ => old) ?others ?placed ?gone
    ?num
  case live =>
    intro other old
    by_cases same : other.id = node.id
    · exact .inl (sound.of_id old member same)
    · exact .inr ⟨old, same⟩
  case others =>
    intro other addr sessionid thread kind
    have before := rest other thread kind
    rw [if_neg (fun both => sessionid both.2.2.symm)] at before
    refine Eq.trans ?_ before
    by_cases there : thread = node.owner
    · subst there
      rw [setThread_self, NetthContext.queued_occurs,
        if_neg (fun both => sessionid both.2.symm), Nat.add_zero]
    · rw [setThread_other _ there]
  case placed =>
    intro _
    refine ⟨⟨node.owner, .waiting⟩, rfl, owner, ?_⟩
    rintro ⟨thread, kind⟩
    have empty : ((pool.setThread self { pool.thread self with
        sending := none }).thread thread).occurs node kind = 0 := by
      rw [rest]
      split
      next => rfl
      next elsewhere =>
        refine (only ⟨thread, kind⟩).trans (if_neg ?_)
        intro same
        exact elsewhere ⟨congrArg Place.thread same,
          congrArg Place.kind same, rfl⟩
    by_cases there : thread = node.owner
    · subst there
      rw [setThread_self, NetthContext.queued_occurs, empty, Nat.zero_add]
      exact ite_congr (by simp) (fun _ => rfl) fun _ => rfl
    · rw [setThread_other _ there, empty, if_neg (by simp [there])]
  case gone => exact fun none => absurd member none
  case num =>
    have num : ∀ thread, ((pool.setThread self { pool.thread self with
        sending := none }).thread thread).sessionNum =
          ((pool.setThread self { pool.thread self with
            sending := none }).thread thread).sessionsList.length := by
      intro thread
      by_cases here : thread = self
      · subst here
        rw [setThread_self]
        exact sound.sessionNum thread
      · rw [setThread_other _ here]
        exact sound.sessionNum thread
    intro thread
    by_cases there : thread = node.owner
    · subst there
      rw [setThread_self]
      exact num node.owner
    · rw [setThread_other _ there]
      exact num thread

theorem Sound.send {srvid : Nat} {msg : PoolMsg}
    (sending : (pool.thread self).sending = some (srvid, msg)) {memory : Bool}
    (orderly : ∀ sessionid, msg = .addto sessionid → memory = true) :
    ((pool.setThread self
      { pool.thread self with sending := none }).thsrvSend self srvid msg
        memory).Sound := by
  cases msg with
  | addto sessionid =>
    rw [orderly sessionid rfl]
    exact sound.sendAddto sending
  | close sessionid =>
    have sent : (pool.setThread self
        { pool.thread self with sending := none }).Sound := by
      refine sound.quiet rfl rfl rfl ?_ fun _ => rfl
      intro aimid other
      simp [sending]
    unfold thsrvSend
    dsimp only
    generalize (if srvid = 0 then self else srvid) = receiver
    split
    · refine sent.quiet rfl rfl rfl (fun _ _ => Iff.rfl) ?_
      intro other
      simp
    · exact sent

theorem Sound.handleAddto {sessionid : Nat} {messages : List PoolMsg}
    (waiting : (pool.thread self).messages = .addto sessionid :: messages) :
    ((pool.setThread self
      { pool.thread self with messages := messages }).handleMsg self
        (.addto sessionid)).Sound := by
  have first : PoolMsg.addto sessionid ∈ (pool.thread self).messages := by
    rw [waiting]
    exact mem_cons_self
  obtain ⟨node, member, rfl⟩ := sound.toLaw.messages self sessionid (.inl first)
  obtain ⟨aim, owner, only⟩ := sound.onlyIn member
    (show (pool.thread (Place.mk self .waiting).thread).occurs node
      .waiting ≠ 0 from Nat.pos_iff_ne_zero.mp (count_pos_iff.mpr first))
  have same : node.owner = self := aim.symm
  subst same
  have found : (pool.setThread node.owner { pool.thread node.owner with
      messages := messages }).lock node.owner node.id = some node.addr :=
    (sound.manager.lock_iff _ _ _).mpr member
  have taken := fun (other : LiveNode Nat) (kind : Kind) =>
    @NetthContext.taken_occurs (pool.thread node.owner) other node.id messages
      waiting kind
  unfold handleMsg
  dsimp only
  rw [found]
  dsimp only
  unfold addtoThreadPool
  rw [setThread_setThread, setThread_self]
  refine sound.setThread member only
    (show Place.aim ⟨node.owner, .linked⟩ = node.owner from rfl) owner ?_ ?_ ?_
  · intro kind
    have before := (taken node kind).trans (only ⟨node.owner, kind⟩)
    rw [NetthContext.addto_occurs]
    have empty : ({ pool.thread node.owner with
        messages := messages } : NetthContext).occurs node kind = 0 := by
      by_cases here : kind = .waiting
      · rw [if_pos ⟨here, rfl⟩, if_pos (by rw [here])] at before
        exact Nat.succ.inj before
      · rw [if_neg (fun both => here both.1), if_neg (by simp [here])] at before
        exact before
    rw [empty, Nat.zero_add]
    exact ite_congr (by simp) (fun _ => rfl) fun _ => rfl
  · intro other addr sessionid kind
    have before := taken other kind
    rw [if_neg (fun both => sessionid both.2.symm), Nat.add_zero] at before
    rw [NetthContext.addto_occurs, if_neg (fun both => addr both.2.symm),
      Nat.add_zero, before]
  · have num := sound.sessionNum node.owner
    simp only [NetthContext.addto, length_append, length_singleton]
    omega

theorem Sound.handleMsg {msg : PoolMsg} {messages : List PoolMsg}
    (waiting : (pool.thread self).messages = msg :: messages) :
    ((pool.setThread self
      { pool.thread self with messages := messages }).handleMsg self
        msg).Sound := by
  cases msg with
  | addto sessionid => exact sound.handleAddto waiting
  | close sessionid =>
    have taken : (pool.setThread self
        { pool.thread self with messages := messages }).Sound := by
      refine sound.quiet rfl rfl rfl (fun _ _ => Iff.rfl) ?_
      intro other
      simp [waiting]
    unfold ThreadPool.handleMsg
    dsimp only
    split
    · exact taken
    · split
      · exact taken.sessionClose
      · exact taken

theorem step_sound (step : PoolStep)
    (orderly : pool.Orderly step) : (pool.step step).Sound := by
  cases step with
  | accept self =>
    dsimp only [step]
    split
    next ready => exact sound.acceptClient ready.1 ready.2.1
    next => exact sound
  | accepted self welcome =>
    dsimp only [step]
    split
    next client shown _ _ => exact sound.acceptedClient shown welcome
    next => exact sound
  | switch self sessionid aimid =>
    dsimp only [step]
    split
    next free => exact sound.sessionSwitch free (orderly free)
    next => exact sound
  | closeex self sessionid =>
    dsimp only [step]
    split
    next free => exact sound.sessionCloseex free sessionid
    next => exact sound
  | send self memory =>
    dsimp only [step]
    split
    next => exact sound
    next srvid msg sending =>
      refine sound.send sending ?_
      rintro sessionid rfl
      exact orderly srvid sessionid sending
  | handle self =>
    dsimp only [step]
    split
    next =>
      split
      next => exact sound
      next msg messages waiting => exact sound.handleMsg waiting
    next => exact sound
  | close self client =>
    dsimp only [step]
    split
    next => exact sound.sessionClose
    next => exact sound
  | closed self =>
    dsimp only [step]
    split
    next client closing calls free =>
      have linked := orderly free client closing calls
      have returned : (pool.setThread self
          { pool.thread self with closing := closing }).Sound :=
        sound.quiet rfl rfl rfl (fun _ _ => Iff.rfl) fun _ => rfl
      refine returned.tcpClose ?_
      rw [setThread_self]
      exact linked
    next => exact sound

end Sound

theorem create_sound {listThread : List Nat} {maxNum startId : Nat}
    (named : 0 ∉ listThread) (positive : 1 ≤ startId)
    (fits : startId + maxNum ≤ 65536) :
    (create listThread maxNum startId).Sound where
  manager := NodeMgr.create_keeps positive fits
  named := named
  known := by simp [create]
  apart := by simp [create]
  single := by simp [create]
  recorded := by simp [create]
  linked := by simp [create, NetthContext.create]
  messages := by simp [create, NetthContext.create]
  sessionNum := fun _ => rfl

open Runs

/-- In every run whose steps are all orderly, the law holds at every moment. -/
theorem poolRun_law {listThread : List Nat} {maxNum startId : Nat}
    (named : 0 ∉ listThread) (positive : 1 ≤ startId)
    (fits : startId + maxNum ≤ 65536) (steps : List PoolStep)
    (orderly : Meets step Orderly (create listThread maxNum startId) steps) :
    ∀ visited ∈ states step (create listThread maxNum startId) steps,
      visited.Law := by
  intro visited member
  have sound := invariant_of_meets
    (fun pool next holds orderly => @step_sound pool holds next orderly)
    (create_sound named positive fits) orderly visited member
  exact sound.toLaw

/-- A session is accepted by thread 1, switched to thread 2 and closed from
thread 3. -/
def switchedRun : List PoolStep :=
  [.accept 1, .accepted 1 true, .switch 1 1 2, .send 1 true, .handle 2,
    .closeex 3 1, .send 3 true, .handle 2, .closed 2]

theorem poolRun_law_switched :
    (switchedRun.foldl step (create [1, 2] 4 1)).connManager.live = [] ∧
      (switchedRun.foldl step (create [1, 2] 4 1)).Law := by
  have orderly : Meets step Orderly (create [1, 2] 4 1) switchedRun := by
    refine ⟨trivial, trivial, ?_, fun _ _ _ => rfl, trivial, trivial,
      fun _ _ _ => rfl, trivial, ?_, trivial⟩
    · intro _ _ _ client found
      have first : client = 0 := by
        refine Option.some.inj (found.symm.trans ?_)
        decide +kernel
      rw [first]
      exact ⟨by decide +kernel, by decide +kernel⟩
    · intro _ client closing calls
      have first : client = 0 := by
        refine (cons.inj (calls.symm.trans (?_ : _ = [0]))).1
        decide +kernel
      rw [first]
      decide +kernel
  exact ⟨by decide +kernel, poolRun_law (by decide) (by decide) (by decide)
    switchedRun orderly _ (foldl_mem_states _ _ _)⟩

/-- The close of thread 3 arrives between the change of the owner and the
message of the switch. -/
def overtakenRun : List PoolStep :=
  [.accept 1, .accepted 1 true, .switch 1 1 2, .closeex 3 1, .send 3 true,
    .send 1 true, .handle 2, .closed 2]

/-- Thread 2 then counts a session less than it has, and has a message about a
session that is closed. -/
theorem poolRun_law_overtaken :
    ¬ ∀ visited ∈ states step (create [1, 2] 4 1) overtakenRun,
      visited.Law := by
  intro law
  have num := (law _ (foldl_mem_states step _ overtakenRun)).sessionNum 2
  revert num
  decide +kernel

end ThreadPool

end NdNet
