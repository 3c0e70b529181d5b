import NdNet.Common.NodeMgr
import NdNet.Net.Crypt

/-!
# Sending to sessions of other threads

`nd_session_send_id`, `nd_session_send_all` and `msg_sendto_client_handler` of
`nd_thmsg.c`.  A thread that does not own a session puts the message into the
queue of the thread that does.  On this way the header carries the id of the
session in the place of the length, the privilege level in the place of the
version and the request for encryption in the flag `encrypt`; the handler puts
the fields back and sends.

What both ways amount to is the list of calls of `nd_sessionmsg_sendex`.
-/

namespace NdNet

open List

/-- The fields of a session that the functions below read. -/
structure Session where
  sessionId : Nat
  level : Nat
  /-- There is no `check_valid_func` or it accepts the session. -/
  accepted : Bool
  conn : Connector
  deriving DecidableEq, Repr

/-- `struct thread_pool_info` -/
structure ThreadPoolInfo where
  thid : Nat
  sessionsList : List Session

/-- `struct listen_contex`: the node manager and the threads of the pool.  All
sessions the threads hold are counted in the manager. -/
structure ListenContex where
  manager : NodeRoot Session
  listThread : List ThreadPoolInfo
  distinct : (listThread.map ThreadPoolInfo.thid).Nodup
  counted : ((listThread.flatMap ThreadPoolInfo.sessionsList).length : Int) ≤
    manager.connectNum

/-- A call of `nd_sessionmsg_sendex`; `encrypt` and `post` are the bits of its
flag. -/
structure SendexCall where
  session : Session
  msg : List Byte
  encrypt : Bool
  post : Bool
  deriving DecidableEq, Repr

/-- What a call of a sending function does: the direct calls, the messages put
into the queues of threads, its result and the buffer of the caller. -/
structure SessionSent where
  calls : List SendexCall
  posted : List (Nat × List Byte)
  result : Int
  buffer : List Byte

/-- `ND_USERMSG_LEN(data) = value` -/
def setLength (msg : List Byte) (value : Nat) : List Byte :=
  Store.overwrite msg 0 (hostBytes value)

/-- `packet_hdr.version` -/
def msgVersion (msg : List Byte) : Byte :=
  byteAt msg 2

/-- `packet_hdr.version = value` -/
def setVersion (msg : List Byte) (value : Byte) : List Byte :=
  Store.overwrite msg 2 [value]

/-- `nd_sessionmsg_sendex`: the result and the buffer of the caller. -/
def sessionmsgSendex (crypt : NetEncrypt) (write : List Byte → Int)
    (session : Session) (msg : List Byte) (encrypt : Bool) :
    Int × List Byte :=
  let user := setFlags msg fun flags => flags &&& 0xfe
  let sent := session.conn.send crypt write user encrypt
  (sent.result, sent.buffer)

/-- The loop of a broadcast over the sessions of a thread: each is given the
buffer that the call for the one before has left. -/
def sendexEach (crypt : NetEncrypt) (write : List Byte → Int) (encrypt : Bool) :
    List Byte → List Session → List SendexCall
  | _, [] => []
  | netMsg, client :: clients =>
    let left := (sessionmsgSendex crypt write client netMsg encrypt).2
    ⟨client, netMsg, encrypt, true⟩ ::
      sendexEach crypt write encrypt left clients

def Session.validAsync (session : Session) (sid : Nat) : Bool :=
  session.conn.valid && session.sessionId = sid && session.level ≠ 0 &&
    session.accepted

namespace ListenContex

variable (lc : ListenContex) (crypt : NetEncrypt) (write : List Byte → Int)

def sessionSendAll (data : List Byte) (privLevel encrypt : Int) :
    SessionSent :=
  let size := packLen data
  if lc.manager.connectNum < 1 then ⟨[], [], 0, data⟩
  else if size = 0 ∨ packetSize < size then ⟨[], [], -1, data⟩
  else
    let ver := msgVersion data
    let levelled := setVersion (setLength data 0)
      (UInt8.ofNat (privLevel % 256).toNat)
    let carrier :=
      if encrypt ≠ 0 then setEncrypt levelled true else levelled
    { calls := []
      posted := lc.listThread.map fun info => (info.thid, carrier.take size)
      result := lc.listThread.length
      buffer :=
        setEncrypt (setVersion (setLength carrier size) ver) false }

/-- `nd_session_send_id`, called by the thread `self`. -/
def sessionSendId (self sessionid : Nat) (data : List Byte) (encrypt : Int) :
    SessionSent :=
  if sessionid = 0 then lc.sessionSendAll data 0 encrypt
  else
    let thid := lc.manager.getOwner sessionid
    if thid = 0 then ⟨[], [], -1, data⟩
    else if thid = self then
      match lc.manager.lock self sessionid with
      | none => ⟨[], [], -1, data⟩
      | some client =>
        if client.validAsync sessionid then
          let sent := sessionmsgSendex crypt write client data (encrypt ≠ 0)
          ⟨[⟨client, data, encrypt ≠ 0, false⟩], [], sent.1, sent.2⟩
        else ⟨[], [], 0, data⟩
    else
      let size := packLen data
      if size = 0 ∨ packetSize < size then ⟨[], [], -1, data⟩
      else
        let named := setLength data sessionid
        let carrier := if encrypt ≠ 0 then setEncrypt named true else named
        { calls := []
          posted := [(thid, carrier.take size)]
          result := size
          buffer := setLength (setEncrypt carrier false) size }

/-- `msg_sendto_client_handler` in the thread `info`: the calls it makes for a
queued message. -/
def msgSendtoClientHandler (info : ThreadPoolInfo) (msg : List Byte) :
    List SendexCall :=
  if msg.length < minPacketLen then []
  else
    let sessionId := packLen msg
    let privLevel := msgVersion msg
    let iscrypt := isEncrypt msg
    let netMsg := setEncrypt
      (setVersion (setLength msg msg.length) ndnetmsgVersion) false
    if sessionId ≠ 0 then
      match lc.manager.lock info.thid sessionId with
      | none => []
      | some client =>
        if client.validAsync sessionId then
          [⟨client, netMsg, iscrypt, false⟩]
        else []
    else
      let reached := info.sessionsList.filter fun client =>
        decide (privLevel.toNat ≤ client.level) && client.conn.valid
      sendexEach crypt write (if iscrypt then false else true) netMsg reached

/-- The calls made when the threads have handled what was put into their
queues. -/
def deliver (posted : List (Nat × List Byte)) : List SendexCall :=
  posted.flatMap fun post =>
    match lc.listThread.find? (fun info => info.thid = post.1) with
    | none => []
    | some info => lc.msgSendtoClientHandler crypt write info post.2

def made (sent : SessionSent) : List SendexCall :=
  sent.calls ++ lc.deliver crypt write sent.posted

/-- Sending from the thread `self` comes to the same calls as sending from the
owner of the session, and both leave the buffer of the caller alone. -/
def SendsAlike (self sessionid : Nat) (data : List Byte) (encrypt : Int) :
    Prop :=
  lc.made crypt write
        (lc.sessionSendId crypt write self sessionid data encrypt) =
      lc.made crypt write (lc.sessionSendId crypt write
        (lc.manager.getOwner sessionid) sessionid data encrypt) ∧
    (lc.sessionSendId crypt write self sessionid data encrypt).buffer = data ∧
    (lc.sessionSendId crypt write (lc.manager.getOwner sessionid) sessionid data
      encrypt).buffer = data

def sessions : List Session :=
  lc.listThread.flatMap ThreadPoolInfo.sessionsList

/-- Every connected session of sufficient level gets the message, encrypted as
it was asked for, and the buffer of the caller stays as it is. -/
def SendsAll (data : List Byte) (privLevel encrypt : Int) : Prop :=
  lc.made crypt write (lc.sessionSendAll data privLevel encrypt) =
      (lc.sessions.filter fun client =>
        decide (privLevel ≤ client.level) && client.conn.valid).map
        (fun client => ⟨client, data, encrypt ≠ 0, true⟩) ∧
    (lc.sessionSendAll data privLevel encrypt).buffer = data

end ListenContex

section Headers

theorem forall_byte {property : Byte → Prop}
    (all : ∀ value : Fin 256, property (UInt8.ofFin value)) (byte : Byte) :
    property byte := by
  have same : UInt8.ofFin byte.toFin = byte := rfl
  exact same ▸ all byte.toFin

theorem clear_encrypt (flags : Byte) :
    ((flags ||| 2) &&& 0xfd = flags &&& 0xfd) ∧
      (flags &&& 0xfd = flags ↔ ¬ flags.toNat / 2 % 2 = 1) ∧
      ((flags ||| 2).toNat / 2 % 2 = 1) := by
  revert flags
  apply forall_byte
  decide +kernel

theorem clear_ndsys (flags : Byte) :
    (flags &&& 0xfe = flags ↔ ¬ flags.toNat % 2 = 1) ∧
      ¬ (flags &&& 0xfe).toNat % 2 = 1 ∧
      ¬ (((flags &&& 0xfe) ||| 2) &&& 0xfd).toNat % 2 = 1 := by
  revert flags
  apply forall_byte
  decide +kernel

variable (low high version flags : Byte) (rest : List Byte)

theorem setLength_header (value : Nat) :
    setLength (low :: high :: rest) value = hostBytes value ++ rest := by
  simp [setLength, hostBytes, Store.overwrite]

theorem setVersion_header (value : Byte) :
    setVersion (low :: high :: version :: rest) value =
      low :: high :: value :: rest := by
  simp [setVersion, Store.overwrite]

theorem setEncrypt_header (on : Bool) :
    setEncrypt (low :: high :: version :: flags :: rest) on =
      low :: high :: version ::
        (if on then flags ||| 2 else flags &&& 0xfd) :: rest :=
  setFlags_header low high version flags rest _

theorem hostBytes_packLen :
    hostBytes (packLen (low :: high :: rest)) = [low, high] := by
  have first := low.toNat_lt
  have second := high.toNat_lt
  have value : packLen (low :: high :: rest) =
      low.toNat + 256 * high.toNat := rfl
  unfold hostBytes
  congr 1
  · apply UInt8.toNat_inj.mp
    rw [UInt8.toNat_ofNat']
    omega
  · congr 1
    apply UInt8.toNat_inj.mp
    rw [UInt8.toNat_ofNat']
    omega

end Headers

namespace ListenContex

variable {lc : ListenContex} {crypt : NetEncrypt} {write : List Byte → Int}
  {data : List Byte} {encrypt : Int}

def carriedCrypt (data : List Byte) (encrypt : Int) : Bool :=
  decide (encrypt ≠ 0) || isEncrypt data

def restored (data : List Byte) : List Byte :=
  setEncrypt (setVersion data ndnetmsgVersion) false

theorem restored_eq_iff (packet : HostPacket data) :
    restored data = data ↔
      msgVersion data = ndnetmsgVersion ∧ isEncrypt data = false := by
  obtain ⟨_, header⟩ := packet
  match data, header with
  | low :: high :: version :: flags :: rest, _ =>
    have mark := (clear_encrypt flags).2.1
    rw [restored, setVersion_header, setEncrypt_header, isEncrypt,
      decide_eq_false_iff_not]
    change _ ↔ version = ndnetmsgVersion ∧ ¬ flags.toNat / 2 % 2 = 1
    rw [← mark]
    simp [eq_comm]

/-- A message on its way, and what the handler reads out of it. -/
structure Carries (data carrier : List Byte) (value : Nat) (version : Byte)
    (encrypt : Int) : Prop where
  length : carrier.length = data.length
  value_eq : packLen carrier = value
  version_eq : msgVersion carrier = version
  crypt_eq : isEncrypt carrier = carriedCrypt data encrypt
  restores : setEncrypt (setVersion (setLength carrier carrier.length)
    ndnetmsgVersion) false = restored data
  /-- The sender puts length, version and mark of its own buffer back. -/
  given_back : setEncrypt (setVersion (setLength carrier data.length)
    (msgVersion data)) false = setEncrypt data false

theorem carrier_carries (packet : HostPacket data) {value : Nat}
    (small : value < 65536) (version : Byte) (encrypt : Int) :
    Carries data
      (if encrypt ≠ 0 then setEncrypt (setVersion (setLength data value) version)
        true
      else setVersion (setLength data value) version) value version encrypt := by
  obtain ⟨counts, header⟩ := packet
  match data, counts, header with
  | low :: high :: version' :: flags :: rest, counts, _ =>
    have again : hostBytes (low :: high :: version' :: flags :: rest).length =
        [low, high] := by
      rw [← counts]
      exact hostBytes_packLen low high _
    have shape : (if encrypt ≠ 0 then setEncrypt (setVersion (setLength
        (low :: high :: version' :: flags :: rest) value) version) true
        else setVersion (setLength (low :: high :: version' :: flags :: rest)
          value) version) =
        hostBytes value ++ version ::
          (if encrypt ≠ 0 then flags ||| 2 else flags) :: rest := by
      change (if encrypt ≠ 0 then setEncrypt (setVersion (_ :: _ :: _ :: _ :: _)
        version) true else setVersion (_ :: _ :: _ :: _ :: _) version) = _
      rw [setVersion_header, setEncrypt_header]
      split <;> rfl
    obtain ⟨clears, _, marks⟩ := clear_encrypt flags
    have cleared : (if encrypt ≠ 0 then flags ||| 2 else flags) &&& 0xfd =
        flags &&& 0xfd := by
      split
      · exact clears
      · rfl
    rw [shape]
    constructor
    case length => rfl
    case value_eq => exact packLen_hostBytes small _
    case version_eq => rfl
    case crypt_eq =>
      change decide ((if encrypt ≠ 0 then flags ||| 2 else flags).toNat / 2 % 2
        = 1) = (decide (encrypt ≠ 0) || decide (flags.toNat / 2 % 2 = 1))
      by_cases asked : encrypt ≠ 0
      · rw [if_pos asked, decide_eq_true marks, decide_eq_true asked,
          Bool.true_or]
      · rw [if_neg asked, decide_eq_false asked, Bool.false_or]
    case restores =>
      change setEncrypt (setVersion (setLength (_ :: _ :: _ :: _ :: rest)
        (low :: high :: version' :: flags :: rest).length) _) false = _
      rw [setLength_header, again, restored]
      change setEncrypt (setVersion (low :: high :: _ :: _ :: rest) _) false = _
      rw [setVersion_header, setEncrypt_header, setVersion_header,
        setEncrypt_header]
      simp only [Bool.false_eq_true, if_false, cleared]
    case given_back =>
      change setEncrypt (setVersion (setLength (_ :: _ :: _ :: _ :: rest)
        (low :: high :: version' :: flags :: rest).length) version') false = _
      rw [setLength_header, again]
      change setEncrypt (setVersion (low :: high :: _ :: _ :: rest) version')
        false = _
      rw [setVersion_header, setEncrypt_header, setEncrypt_header]
      simp only [Bool.false_eq_true, if_false, cleared]

theorem packLen_lt (msg : List Byte) : packLen msg < packetSize := by
  have low := (byteAt msg 0).toNat_lt
  have high := (byteAt msg (0 + 1)).toNat_lt
  unfold packLen hostU16 packetSize
  omega

theorem setLength_setEncrypt {msg : List Byte}
    (header : packetHdrSize ≤ msg.length) (value : Nat) :
    setLength (setEncrypt msg false) value =
      setEncrypt (setVersion (setLength msg value) (msgVersion msg)) false := by
  match msg, header with
  | low :: high :: version :: flags :: rest, _ =>
    rw [setEncrypt_header, setLength_header, setLength_header]
    change _ = setEncrypt (setVersion (_ :: _ :: version :: flags :: rest)
      version) false
    rw [setVersion_header, setEncrypt_header]
    rfl

theorem setVersion_msgVersion (packet : HostPacket data) (value : Nat) :
    setVersion (setLength data value) (msgVersion data) =
      setLength data value := by
  obtain ⟨_, header⟩ := packet
  match data, header with
  | low :: high :: version :: flags :: rest, _ =>
    exact setVersion_header _ _ version _ version

theorem setEncrypt_false_eq_iff (packet : HostPacket data) :
    setEncrypt data false = data ↔ isEncrypt data = false := by
  obtain ⟨_, header⟩ := packet
  match data, header with
  | low :: high :: version :: flags :: rest, _ =>
    have mark := (clear_encrypt flags).2.1
    rw [setEncrypt_header, isEncrypt, decide_eq_false_iff_not]
    change _ ↔ ¬ flags.toNat / 2 % 2 = 1
    rw [← mark]
    simp

theorem connectorSend_buffer (conn : Connector) (low high version flags : Byte)
    (rest : List Byte) (asked : Bool) :
    (conn.send crypt write (low :: high :: version :: flags :: rest) asked
        ).buffer =
      if !conn.valid || conn.errorStays then
        low :: high :: version :: flags :: rest
      else
        low :: high :: ndnetmsgVersion ::
          (if !ndsysMsg (low :: high :: version :: flags :: rest) &&
              conn.saveSendStream && asked then (flags ||| 2) &&& 0xfd
            else flags) :: rest := by
  unfold Connector.send
  split
  · rfl
  · split
    · rw [setEncrypt_header, setEncrypt_header]
      exact setVersion_header _ _ _ _ _
    · exact setVersion_header _ _ _ _ _

/-- `nd_sessionmsg_sendex` takes the mark of a system message out of the buffer
it is given; a current user message without marks stays as it is. -/
theorem sessionmsgSendex_buffer (packet : HostPacket data) (session : Session)
    (asked : Bool) :
    ndsysMsg (sessionmsgSendex crypt write session data asked).2 = false ∧
      (msgVersion data = ndnetmsgVersion → isEncrypt data = false →
        ndsysMsg data = false →
        (sessionmsgSendex crypt write session data asked).2 = data) := by
  obtain ⟨_, header⟩ := packet
  match data, header with
  | low :: high :: version :: flags :: rest, _ =>
    obtain ⟨same, cleared, twice⟩ := clear_ndsys flags
    unfold sessionmsgSendex
    rw [setFlags_header]
    dsimp only
    rw [connectorSend_buffer]
    constructor
    · split
      · exact decide_eq_false cleared
      · split
        · exact decide_eq_false twice
        · exact decide_eq_false cleared
    · intro current unmarked user
      have user' : flags &&& 0xfe = flags :=
        same.mpr (of_decide_eq_false user)
      have unmarked' : (flags ||| 2) &&& 0xfd = flags :=
        (clear_encrypt flags).1.trans
          ((clear_encrypt flags).2.1.mpr (of_decide_eq_false unmarked))
      have current' : version = ndnetmsgVersion := current
      rw [user', unmarked', ite_self, current', ite_self]

section Single

variable {self sessionid : Nat}

theorem sessionSendId_owner (named : sessionid ≠ 0)
    (owned : lc.manager.getOwner sessionid ≠ 0) :
    lc.sessionSendId crypt write (lc.manager.getOwner sessionid) sessionid data
        encrypt =
      match lc.manager.lock (lc.manager.getOwner sessionid) sessionid with
      | none => ⟨[], [], -1, data⟩
      | some client =>
        if client.validAsync sessionid then
          ⟨[⟨client, data, encrypt ≠ 0, false⟩], [],
            (sessionmsgSendex crypt write client data (encrypt ≠ 0)).1,
            (sessionmsgSendex crypt write client data (encrypt ≠ 0)).2⟩
        else ⟨[], [], 0, data⟩ := by
  unfold sessionSendId
  rw [if_neg named]
  simp only [if_neg owned, if_true]

theorem sessionSendId_other (packet : HostPacket data)
    (small : sessionid < 65536) (named : sessionid ≠ 0)
    (owned : lc.manager.getOwner sessionid ≠ 0)
    (other : self ≠ lc.manager.getOwner sessionid) {info : ThreadPoolInfo}
    (pooled : info ∈ lc.listThread)
    (owner : info.thid = lc.manager.getOwner sessionid) :
    lc.made crypt write
          (lc.sessionSendId crypt write self sessionid data encrypt) =
        (if data.length < minPacketLen then [] else
          match lc.manager.lock (lc.manager.getOwner sessionid) sessionid with
          | none => []
          | some client =>
            if client.validAsync sessionid then
              [⟨client, restored data, carriedCrypt data encrypt, false⟩]
            else []) ∧
      (lc.sessionSendId crypt write self sessionid data encrypt).buffer =
        setEncrypt data false := by
  have counts := packet.counts
  have header : 4 ≤ data.length := packet.header
  have bound := packLen_lt data
  have carries := carrier_carries packet small (msgVersion data) encrypt
  rw [setVersion_msgVersion packet] at carries
  have whole : ∀ carrier : List Byte, carrier.length = data.length →
      carrier.take (packLen data) = carrier := by
    intro carrier same
    exact take_of_length_le (by omega)
  unfold sessionSendId
  rw [if_neg named]
  simp only [if_neg owned, if_neg other.symm]
  rw [if_neg (by omega), whole _ carries.length]
  generalize (if encrypt ≠ 0 then setEncrypt (setLength data sessionid) true
    else setLength data sessionid) = carrier at carries
  constructor
  · have found : ∃ served, lc.listThread.find?
        (fun info => info.thid = lc.manager.getOwner sessionid) = some served ∧
          served.thid = lc.manager.getOwner sessionid := by
      cases search : lc.listThread.find?
          (fun info => info.thid = lc.manager.getOwner sessionid) with
      | none =>
        have all := find?_eq_none.mp search info pooled
        exact absurd (decide_eq_true owner) all
      | some served =>
        have passed := find?_some search
        exact ⟨served, rfl, of_decide_eq_true passed⟩
    obtain ⟨served, search, serves⟩ := found
    unfold made deliver
    simp only [nil_append, flatMap_cons, flatMap_nil, append_nil, search]
    unfold msgSendtoClientHandler
    rw [← carries.length]
    simp only [carries.value_eq, carries.crypt_eq, carries.restores, serves,
      if_pos named, ne_eq]
  · rw [setLength_setEncrypt (carries.length ▸ packet.header), carries.version_eq,
      counts]
    exact carries.given_back

/-- A session is told apart by the two ways of sending only by a message it
would get: then the message has to be a current user message that is not too
short for the handler.  The mark of encryption is lost in any case. -/
theorem sendsAlike_iff (packet : HostPacket data) (small : sessionid < 65536)
    (named : sessionid ≠ 0) (owned : lc.manager.getOwner sessionid ≠ 0)
    (other : self ≠ lc.manager.getOwner sessionid) {info : ThreadPoolInfo}
    (pooled : info ∈ lc.listThread)
    (owner : info.thid = lc.manager.getOwner sessionid) :
    lc.SendsAlike crypt write self sessionid data encrypt ↔
      isEncrypt data = false ∧
        ((∀ client,
            lc.manager.lock (lc.manager.getOwner sessionid) sessionid =
              some client → client.validAsync sessionid = false) ∨
          (msgVersion data = ndnetmsgVersion ∧ ndsysMsg data = false ∧
            minPacketLen ≤ data.length)) := by
  obtain ⟨calls, buffer⟩ := @sessionSendId_other lc crypt write data
    encrypt self sessionid packet small named owned other info pooled owner
  unfold SendsAlike
  rw [calls, buffer, sessionSendId_owner named owned,
    setEncrypt_false_eq_iff packet]
  cases locked : lc.manager.lock (lc.manager.getOwner sessionid) sessionid with
  | none => simp [made, deliver]
  | some client =>
    by_cases valid : client.validAsync sessionid = true
    case neg =>
      have invalid : client.validAsync sessionid = false := by simpa using valid
      simp [made, deliver, invalid]
    simp only [valid, if_true, made, deliver, flatMap_nil, append_nil]
    have got : ¬ ∀ other, some client = some other →
        other.validAsync sessionid = false := by
      intro none
      rw [none client rfl] at valid
      exact Bool.false_ne_true valid
    obtain ⟨cleared, kept⟩ := @sessionmsgSendex_buffer crypt write data
      packet client (decide (encrypt ≠ 0))
    rw [or_iff_right got]
    constructor
    · rintro ⟨same, unmarked, given⟩
      split at same
      · exact absurd same.symm (cons_ne_nil _ _)
      · rename_i long
        simp only [cons.injEq, SendexCall.mk.injEq] at same
        have current := (restored_eq_iff packet).mp same.1.2.1
        rw [given] at cleared
        exact ⟨unmarked, current.1, cleared, Nat.not_lt.mp long⟩
    · rintro ⟨unmarked, current, user, long⟩
      refine ⟨?_, unmarked, kept current unmarked user⟩
      rw [if_neg (Nat.not_lt.mpr long),
        (restored_eq_iff packet).mpr ⟨current, unmarked⟩]
      unfold carriedCrypt
      rw [unmarked, Bool.or_false]

end Single

section Broadcast

variable {privLevel : Int}

def reached (lc : ListenContex) (level : Int) : List Session :=
  lc.sessions.filter fun client =>
    decide (level ≤ client.level) && client.conn.valid

theorem deliver_all (lc : ListenContex) (msg : List Byte) :
    lc.deliver crypt write (lc.listThread.map fun info => (info.thid, msg)) =
      lc.listThread.flatMap fun info =>
        lc.msgSendtoClientHandler crypt write info msg := by
  have finds : ∀ infos : List ThreadPoolInfo,
      (infos.map ThreadPoolInfo.thid).Nodup → ∀ info ∈ infos,
      infos.find? (fun other => other.thid = info.thid) = some info := by
    intro infos distinct info member
    induction infos with
    | nil => exact absurd member not_mem_nil
    | cons first infos induction =>
      obtain ⟨fresh, later⟩ := nodup_cons.mp distinct
      rcases mem_cons.mp member with rfl | behind
      · exact find?_cons_of_pos (decide_eq_true rfl)
      · have differs : first.thid ≠ info.thid := by
          intro same
          rw [same] at fresh
          exact fresh (mem_map_of_mem behind)
        rw [find?_cons_of_neg (by simpa using differs)]
        exact induction later behind
  unfold deliver
  rw [flatMap_map]
  apply flatMap_congr
  intro info member
  simp only [finds lc.listThread lc.distinct info member]

theorem sendexEach_session (asked : Bool) (msg : List Byte)
    (clients : List Session) :
    (sendexEach crypt write asked msg clients).map SendexCall.session =
      clients := by
  induction clients generalizing msg with
  | nil => rfl
  | cons client clients induction =>
    rw [sendexEach, map_cons, induction]

theorem sendexEach_encrypt (asked : Bool) (msg : List Byte)
    (clients : List Session) :
    ∀ call ∈ sendexEach crypt write asked msg clients,
      call.encrypt = asked := by
  induction clients generalizing msg with
  | nil => exact nofun
  | cons client clients induction =>
    intro call member
    rcases mem_cons.mp member with rfl | later
    · rfl
    · exact induction _ call later

/-- What comes of a broadcast: the mark of the flag is turned round on its
way. -/
theorem sessionSendAll_made (packet : HostPacket data)
    (some : 1 ≤ lc.manager.connectNum) :
    (lc.made crypt write (lc.sessionSendAll data privLevel encrypt)).map
          SendexCall.session =
        (if data.length < minPacketLen then []
        else lc.reached (privLevel % 256)) ∧
      (∀ call ∈ lc.made crypt write (lc.sessionSendAll data privLevel encrypt),
        call.encrypt = !carriedCrypt data encrypt) ∧
      (lc.sessionSendAll data privLevel encrypt).buffer =
        setEncrypt data false := by
  have counts := packet.counts
  have header : 4 ≤ data.length := packet.header
  have bound := packLen_lt data
  have carries := carrier_carries packet (show 0 < 65536 by decide)
    (UInt8.ofNat (privLevel % 256).toNat) encrypt
  have level : ((UInt8.ofNat (privLevel % 256).toNat).toNat : Int) =
      privLevel % 256 := by
    rw [UInt8.toNat_ofNat']
    omega
  unfold sessionSendAll
  rw [if_neg (by omega), if_neg (by omega)]
  dsimp only
  generalize (if encrypt ≠ 0 then setEncrypt (setVersion (setLength data 0)
    (UInt8.ofNat (privLevel % 256).toNat)) true else setVersion
      (setLength data 0) (UInt8.ofNat (privLevel % 256).toNat)) = carrier
        at carries ⊢
  have whole : carrier.take (packLen data) = carrier := by
    have same := carries.length
    exact take_of_length_le (by omega)
  have handled : ∀ info, lc.msgSendtoClientHandler crypt write info carrier =
      if data.length < minPacketLen then []
      else sendexEach crypt write (!carriedCrypt data encrypt) (restored data)
        (info.sessionsList.filter fun client =>
          decide (privLevel % 256 ≤ (client.level : Int)) &&
            client.conn.valid) := by
    intro info
    have again := carries.restores
    rw [carries.length] at again
    unfold msgSendtoClientHandler
    simp only [carries.length, carries.value_eq, carries.version_eq,
      carries.crypt_eq, again, ne_eq, not_true_eq_false, if_false]
    have turned : (if carriedCrypt data encrypt = true then false else true) =
        !carriedCrypt data encrypt := by
      cases carriedCrypt data encrypt <;> rfl
    have filtered : (info.sessionsList.filter fun client =>
        decide ((UInt8.ofNat (privLevel % 256).toNat).toNat ≤ client.level) &&
          client.conn.valid) =
        info.sessionsList.filter fun client =>
          decide (privLevel % 256 ≤ (client.level : Int)) &&
            client.conn.valid := by
      apply filter_congr
      intro client _
      have enough : (UInt8.ofNat (privLevel % 256).toNat).toNat ≤
          client.level ↔ privLevel % 256 ≤ (client.level : Int) := by omega
      rw [decide_eq_decide.mpr enough]
    rw [turned, filtered]
  simp only [made, nil_append, whole]
  rw [deliver_all, counts]
  simp only [handled]
  refine ⟨?_, ?_, carries.given_back⟩
  · by_cases short : data.length < minPacketLen
    · simp only [if_pos short]
      rw [flatMap_eq_nil_iff.mpr fun _ _ => rfl, map_nil]
    · simp only [if_neg short]
      rw [map_flatMap]
      simp only [sendexEach_session]
      exact filter_flatMap.symm
  · intro call member
    obtain ⟨info, -, made⟩ := mem_flatMap.mp member
    by_cases short : data.length < minPacketLen
    · rw [if_pos short] at made
      cases made
    · rw [if_neg short] at made
      exact sendexEach_encrypt _ _ _ call made

/-- A broadcast does what it should exactly if nobody is to get it: no
connected session has the level asked for or, for a message the handler takes,
its last eight bits.  The mark of encryption is lost unless there is no session
at all. -/
theorem sendsAll_iff (packet : HostPacket data) :
    lc.SendsAll crypt write data privLevel encrypt ↔
      lc.reached privLevel = [] ∧
        (lc.manager.connectNum < 1 ∨
          (isEncrypt data = false ∧
            (data.length < minPacketLen ∨
              lc.reached (privLevel % 256) = []))) := by
  unfold SendsAll
  by_cases none : lc.manager.connectNum < 1
  · have empty : lc.sessions = [] := by
      have counted := lc.counted
      apply length_eq_zero_iff.mp
      unfold sessions
      omega
    have nobody : ∀ level, lc.reached level = [] := by
      intro level
      rw [reached, empty]
      rfl
    have sent : lc.sessionSendAll data privLevel encrypt = ⟨[], [], 0, data⟩ := by
      unfold sessionSendAll
      exact if_pos none
    rw [sent, empty]
    exact iff_of_true ⟨rfl, rfl⟩ ⟨nobody _, .inl none⟩
  · obtain ⟨sessions, marks, buffer⟩ := @sessionSendAll_made lc crypt write data
      encrypt privLevel packet (by omega)
    rw [buffer, setEncrypt_false_eq_iff packet, or_iff_right none]
    change _ = (lc.reached privLevel).map _ ∧ _ ↔ _
    generalize lc.made crypt write (lc.sessionSendAll data privLevel encrypt) =
      calls at sessions marks
    constructor
    · rintro ⟨same, unmarked⟩
      -- The mark of a call that is made is never the one that was asked for.
      have nobody : calls = [] := by
        refine eq_nil_iff_forall_not_mem.mpr fun call member => ?_
        have mark := marks call member
        rw [same] at member
        obtain ⟨client, -, rfl⟩ := mem_map.mp member
        simp only [carriedCrypt, unmarked, Bool.or_false] at mark
        revert mark
        cases decide (encrypt ≠ 0) <;> simp
      rw [nobody] at same sessions
      refine ⟨map_eq_nil_iff.mp same.symm, unmarked, ?_⟩
      by_cases short : data.length < minPacketLen
      · exact .inl short
      · rw [if_neg short] at sessions
        exact .inr sessions.symm
    · rintro ⟨asked, unmarked, nobody⟩
      have quiet : calls.map SendexCall.session = [] := by
        rw [sessions]
        obtain short | actual := nobody
        · exact if_pos short
        · rw [actual, ite_self]
      rw [map_eq_nil_iff.mp quiet, asked]
      exact ⟨rfl, unmarked⟩

end Broadcast

/-- When the two ways of sending to a session agree, and when a broadcast
reaches the sessions as it should. -/
theorem sessionSend_iff {self sessionid : Nat} (packet : HostPacket data)
    (small : sessionid < 65536) (named : sessionid ≠ 0)
    (owned : lc.manager.getOwner sessionid ≠ 0)
    (other : self ≠ lc.manager.getOwner sessionid)
    {info : ThreadPoolInfo} (pooled : info ∈ lc.listThread)
    (owner : info.thid = lc.manager.getOwner sessionid) (privLevel : Int) :
    (lc.SendsAlike crypt write self sessionid data encrypt ↔
      isEncrypt data = false ∧
        ((∀ client,
            lc.manager.lock (lc.manager.getOwner sessionid) sessionid =
              some client → client.validAsync sessionid = false) ∨
          (msgVersion data = ndnetmsgVersion ∧ ndsysMsg data = false ∧
            minPacketLen ≤ data.length))) ∧
    (lc.SendsAll crypt write data privLevel encrypt ↔
      lc.reached privLevel = [] ∧
        (lc.manager.connectNum < 1 ∨
          (isEncrypt data = false ∧
            (data.length < minPacketLen ∨
              lc.reached (privLevel % 256) = [])))) :=
  ⟨sendsAlike_iff packet small named owned other pooled owner,
    sendsAll_iff packet⟩

def onlySession : Session :=
  { sessionId := 1
    level := 1
    accepted := true
    conn := ⟨true, false, false, ⟨16, List.replicate 16 1⟩⟩ }

def onlyContex : ListenContex :=
  { manager := ((NodeRoot.create 2 1).accept 7 onlySession).2
    listThread := [⟨7, [onlySession]⟩]
    distinct := List.nodup_singleton 7
    counted := by decide }

/-- An encrypted message for the session from another thread, and a broadcast
for a level nobody has. -/
theorem sessionSend_iff_only :
    onlyContex.SendsAlike teaCrypt (fun bytes => bytes.length) 8 1
        [7, 0, 2, 0, 1, 1, 9] 1 ∧
      onlyContex.SendsAll teaCrypt (fun bytes => bytes.length)
        [7, 0, 2, 0, 1, 1, 9] 2 1 := by
  have agree := @sessionSend_iff onlyContex teaCrypt (fun bytes => bytes.length)
    [7, 0, 2, 0, 1, 1, 9] 1 8 1 ⟨by decide, by decide⟩ (by decide) (by decide)
    (by decide) (by decide) ⟨7, [onlySession]⟩ (mem_singleton_self _)
    (by decide) 2
  refine ⟨agree.1.mpr ⟨by decide, .inr (by decide)⟩, agree.2.mpr ⟨by decide, ?_⟩⟩
  exact .inr ⟨by decide, .inr (by decide)⟩

/-- A broadcast that asks for encryption is sent in plain text. -/
theorem sessionSendAll_plain :
    onlyContex.made teaCrypt (fun bytes => bytes.length)
          (onlyContex.sessionSendAll [7, 0, 2, 0, 1, 1, 9] 0 1) =
        [⟨onlySession, [7, 0, 2, 0, 1, 1, 9], false, true⟩] ∧
      ¬ onlyContex.SendsAll teaCrypt (fun bytes => bytes.length)
        [7, 0, 2, 0, 1, 1, 9] 0 1 := by
  refine ⟨by decide, ?_⟩
  rintro ⟨calls, _⟩
  exact absurd calls (by decide)

end ListenContex

end NdNet
