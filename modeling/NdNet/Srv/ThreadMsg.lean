import NdNet.Common.LineBuf
import NdNet.Lib.Ledger
import NdNet.Lib.Runs

/-!
# Messages between threads

The message queue of a service thread in `nd_thread.c`.  `nd_thsrv_send`
appends to the queue under its lock; a round of `_msg_entry` takes the queue
off under the lock, hands the messages to the handler one by one without it,
and puts those the handler has refused back in front.  Between any two of these
steps other threads may send.

A run interleaves the atomic steps in any order. Beside the thread it keeps a
ledger of the messages whose sending has succeeded and of the hand-outs to
installed handlers.
-/

namespace NdNet

/-- `struct nd_thread_msg`; `serial` stands for the address of the message. -/
structure ThreadMsg where
  serial : Nat
  msgId : Nat
  fromId : Nat
  data : List Byte
  deriving DecidableEq, Repr

/-- The local lists of `_msg_entry` while it walks. -/
structure MsgRound where
  header : List ThreadMsg
  unhandled : List ThreadMsg
  deriving DecidableEq, Repr

/-- `nd_thsrv_context_t` -/
structure ThsrvContext where
  thid : Nat
  /-- `msg_entry` is a function set with `nd_thsrv_hook`, and not
  `deft_msg_handler`. -/
  hooked : Bool
  /-- The message ids in `msg_entry_list`. -/
  msgEntryList : List Nat
  msgList : List ThreadMsg
  round : Option MsgRound
  /-- The messages allocated so far. -/
  allocated : Nat
  deriving DecidableEq, Repr

namespace ThsrvContext

/-- A service thread as `nd_thsrv_createex` leaves it. -/
def create (thid : Nat) : ThsrvContext :=
  { thid := thid
    hooked := false
    msgEntryList := []
    msgList := []
    round := none
    allocated := 0 }

/-- `deft_msg_handler`: whether an installed handler got the message, and the
result.  The `answer` of the handler is not used. -/
def deftMsgHandler (contex : ThsrvContext) (msg : ThreadMsg) (_answer : Int) :
    Bool × Int :=
  if msg.msgId ∈ contex.msgEntryList then (true, 0) else (false, 0)

/-- `contex->msg_entry(msg)`, when the handler that gets the message answers
`answer`. -/
def msgEntry (contex : ThsrvContext) (msg : ThreadMsg) (answer : Int) :
    Bool × Int :=
  if contex.hooked then (true, answer) else contex.deftMsgHandler msg answer

/-- The message a call of `nd_thsrv_send` builds. -/
def newMsg (contex : ThsrvContext) (fromId msgId : Nat) (data : List Byte) :
    ThreadMsg :=
  { serial := contex.allocated
    msgId := msgId
    fromId := fromId
    data := data }

/-- `nd_thsrv_gethandle`, called from the thread `fromId`, finds this thread. -/
def gethandle (contex : ThsrvContext) (srvid fromId : Nat) : Bool :=
  contex.thid = if srvid = 0 then fromId else srvid

/-- `nd_thsrv_sendex` without waiting, after the message was allocated.  A
message to the own id is handled at once, whatever comes of it. -/
def send (contex : ThsrvContext) (srvid fromId msgId : Nat) (data : List Byte)
    (answer : Int) : Int × ThsrvContext :=
  let msg := contex.newMsg fromId msgId data
  let contex := { contex with allocated := contex.allocated + 1 }
  if fromId = srvid then ((contex.msgEntry msg answer).2, contex)
  else
    ((data.length : Int), { contex with msgList := contex.msgList ++ [msg] })

/-- The begin of `_msg_entry`: the queue is taken off. -/
def detach (contex : ThsrvContext) : ThsrvContext :=
  match contex.round with
  | some _ => contex
  | none =>
    if contex.msgList.isEmpty then contex
    else
      { contex with
        round := some ⟨contex.msgList, []⟩
        msgList := [] }

/-- One step of the loop of `_msg_entry`. -/
def handOut (contex : ThsrvContext) (answer : Int) : ThsrvContext :=
  match contex.round with
  | some ⟨msg :: header, unhandled⟩ =>
    if (contex.msgEntry msg answer).2 = -1 then
      { contex with round := some ⟨header, unhandled ++ [msg]⟩ }
    else { contex with round := some ⟨header, unhandled⟩ }
  | _ => contex

/-- The end of `_msg_entry`: the refused messages are put back in front. -/
def join (contex : ThsrvContext) : ThsrvContext :=
  match contex.round with
  | some ⟨[], unhandled⟩ =>
    { contex with
      round := none
      msgList := unhandled ++ contex.msgList }
  | _ => contex

end ThsrvContext

/-- The steps that the threads of a server interleave on one queue. -/
inductive ThreadStep where
  /-- `nd_thsrv_send` to `srvid` from any thread; `memory` says that the message
  could be allocated, `answer` is that of the handler if the thread sends to
  itself. -/
  | send (srvid fromId msgId : Nat) (data : List Byte) (memory : Bool)
      (answer : Int)
  | detach
  | handOut (answer : Int)
  | join
  /-- `nd_thsrv_install_msg` -/
  | install (msgId : Nat)
  /-- `nd_thsrv_hook` with a function of the user, or with the one it has
  returned, `deft_msg_handler`. -/
  | hook (own : Bool)
  deriving DecidableEq, Repr

/-- The thread, the messages whose sending has succeeded, and the hand-outs of
these messages to installed handlers, with whether the answer was other than
-1. -/
structure ThreadRun where
  contex : ThsrvContext
  sent : List ThreadMsg
  handed : List (ThreadMsg × Bool)
  deriving DecidableEq, Repr

variable {base : List (ThreadMsg × Bool)}

namespace ThreadRun

open Runs Ledger

def start (thid : Nat) : ThreadRun :=
  { contex := ThsrvContext.create thid
    sent := []
    handed := [] }

def record (contex : ThsrvContext) (msg : ThreadMsg) (answer : Int) :
    List (ThreadMsg × Bool) :=
  if (contex.msgEntry msg answer).1 then [(msg, answer ≠ -1)] else []

def threadStep (run : ThreadRun) : ThreadStep → ThreadRun
  | .send srvid fromId msgId data memory answer =>
    if !(run.contex.gethandle srvid fromId && memory) then run
    else
      let msg := run.contex.newMsg fromId msgId data
      let sent := run.contex.send srvid fromId msgId data answer
      if sent.1 = -1 then { run with contex := sent.2 }
      else
        { contex := sent.2
          sent := run.sent ++ [msg]
          handed :=
            if fromId = srvid then
              run.handed ++ record run.contex msg answer
            else run.handed }
  | .detach => { run with contex := run.contex.detach }
  | .handOut answer =>
    { run with
      contex := run.contex.handOut answer
      handed :=
        match run.contex.round with
        | some ⟨msg :: _, _⟩ => run.handed ++ record run.contex msg answer
        | _ => run.handed }
  | .join => { run with contex := run.contex.join }
  | .install msgId =>
    { run with
      contex := { run.contex with
        msgEntryList := run.contex.msgEntryList ++ [msgId] } }
  | .hook own => { run with contex := { run.contex with hooked := own } }

/-- The messages a round still has to hand out, then those it has had refused,
then the queue. -/
def pending (contex : ThsrvContext) : List ThreadMsg :=
  match contex.round with
  | none => contex.msgList
  | some round => round.header ++ round.unhandled ++ contex.msgList

/-- The law of the ledger: messages that were sent are taken once and, as far
as they are not refused, in the order of their sender. -/
def Delivers (run : ThreadRun) : Prop :=
  Law ThreadMsg.fromId run.sent run.handed (pending run.contex)

/-- The answer to a message is heeded: the thread has its own `msg_entry`, or a
handler for the message is installed and does not refuse it. -/
def Heeded (contex : ThsrvContext) (msgId : Nat) (answer : Int) : Prop :=
  contex.hooked = true ∨ (msgId ∈ contex.msgEntryList ∧ answer ≠ -1)

instance (contex : ThsrvContext) (msgId : Nat) (answer : Int) :
    Decidable (Heeded contex msgId answer) :=
  inferInstanceAs (Decidable (_ ∨ _))

def HeedsFront (contex : ThsrvContext) (answer : Int) :
    Option MsgRound → Prop
  | some ⟨msg :: _, _⟩ => Heeded contex msg.msgId answer
  | _ => True

instance (contex : ThsrvContext) (answer : Int) :
    (round : Option MsgRound) → Decidable (HeedsFront contex answer round)
  | some ⟨msg :: _, _⟩ =>
    inferInstanceAs (Decidable (Heeded contex msg.msgId answer))
  | some ⟨[], _⟩ => .isTrue trivial
  | none => .isTrue trivial

/-- Every answer the step gets is heeded, and a message that is handled at once
does not overtake another of the thread. -/
def Heeds (run : ThreadRun) : ThreadStep → Prop
  | .send srvid fromId msgId _ memory answer =>
    run.contex.gethandle srvid fromId = true → memory = true →
      fromId = srvid → Heeded run.contex msgId answer ∧
        ∀ msg ∈ pending run.contex, msg.fromId ≠ fromId
  | .handOut answer => HeedsFront run.contex answer run.contex.round
  | _ => True

instance (run : ThreadRun) : (step : ThreadStep) → Decidable (run.Heeds step)
  | .send srvid fromId msgId _ memory answer =>
    inferInstanceAs (Decidable (run.contex.gethandle srvid fromId = true →
      memory = true → fromId = srvid → Heeded run.contex msgId answer ∧
        ∀ msg ∈ pending run.contex, msg.fromId ≠ fromId))
  | .handOut answer =>
    inferInstanceAs (Decidable (HeedsFront run.contex answer run.contex.round))
  | .detach => .isTrue trivial
  | .join => .isTrue trivial
  | .install _ => .isTrue trivial
  | .hook _ => .isTrue trivial

structure Sound (run : ThreadRun) : Prop where
  ledger : Keeps ThreadMsg.fromId run.sent run.handed (pending run.contex)
  old : ∀ msg ∈ run.sent, msg.serial < run.contex.allocated

theorem start_sound (thid : Nat) : (start thid).Sound where
  ledger := .nil
  old := by simp [start]

section Entry

variable {contex : ThsrvContext} {msg : ThreadMsg} {answer : Int}

theorem msgEntry_heeded (heeded : Heeded contex msg.msgId answer) :
    (contex.msgEntry msg answer).1 = true ∧
      ((contex.msgEntry msg answer).2 = -1 ↔ answer = -1) := by
  unfold ThsrvContext.msgEntry
  rcases heeded with hooked | ⟨installed, took⟩
  · rw [if_pos hooked]
    exact ⟨rfl, Iff.rfl⟩
  · split
    · exact ⟨rfl, Iff.rfl⟩
    · unfold ThsrvContext.deftMsgHandler
      rw [if_pos installed]
      exact ⟨rfl, iff_of_false (by decide) took⟩

theorem record_heeded (heeded : Heeded contex msg.msgId answer) :
    record contex msg answer = [(msg, decide (answer ≠ -1))] := by
  unfold record
  rw [if_pos (msgEntry_heeded heeded).1]

end Entry

section Steps

variable {run : ThreadRun}

theorem Sound.new (sound : run.Sound) (fromId msgId : Nat) (data : List Byte) :
    run.contex.newMsg fromId msgId data ∉ run.sent := by
  intro was
  exact absurd (sound.old _ was) (Nat.lt_irrefl _)

theorem Sound.old_append (sound : run.Sound) (fromId msgId : Nat)
    (data : List Byte) :
    ∀ msg ∈ run.sent ++ [run.contex.newMsg fromId msgId data],
      msg.serial < run.contex.allocated + 1 := by
  intro msg member
  rcases List.mem_append.mp member with before | new
  · exact Nat.lt_succ_of_lt (sound.old msg before)
  · rw [List.mem_singleton.mp new]
    exact Nat.lt_succ_self _

theorem send_queued_sound (sound : run.Sound) {srvid fromId : Nat} (msgId : Nat)
    (data : List Byte) (answer : Int)
    (here : run.contex.gethandle srvid fromId = true) (other : fromId ≠ srvid) :
    (run.threadStep (.send srvid fromId msgId data true answer)).Sound := by
  have queued : run.threadStep (.send srvid fromId msgId data true answer) =
      { contex := { run.contex with
          allocated := run.contex.allocated + 1
          msgList := run.contex.msgList ++
            [run.contex.newMsg fromId msgId data] }
        sent := run.sent ++ [run.contex.newMsg fromId msgId data]
        handed := run.handed } := by
    have result : (data.length : Int) ≠ -1 := by omega
    simp only [threadStep, ThsrvContext.send, here, Bool.and_true,
      Bool.not_true, Bool.false_eq_true, if_false, if_neg other, if_neg result]
  have behind : pending { run.contex with
      allocated := run.contex.allocated + 1
      msgList := run.contex.msgList ++ [run.contex.newMsg fromId msgId data] } =
        pending run.contex ++ [run.contex.newMsg fromId msgId data] := by
    unfold pending
    cases run.contex.round <;> simp
  rw [queued]
  constructor
  case ledger =>
    rw [behind]
    exact sound.ledger.append (sound.new fromId msgId data)
  case old => exact sound.old_append fromId msgId data

theorem send_self {srvid : Nat} (msgId : Nat) (data : List Byte) (answer : Int)
    (here : run.contex.gethandle srvid srvid = true) :
    run.threadStep (.send srvid srvid msgId data true answer) =
      if (run.contex.msgEntry (run.contex.newMsg srvid msgId data)
          answer).2 = -1 then
        { run with
          contex := { run.contex with
            allocated := run.contex.allocated + 1 } }
      else
        { contex := { run.contex with allocated := run.contex.allocated + 1 }
          sent := run.sent ++ [run.contex.newMsg srvid msgId data]
          handed := run.handed ++ record run.contex
            (run.contex.newMsg srvid msgId data) answer } := by
  simp only [threadStep, ThsrvContext.send, here, Bool.and_true, Bool.not_true,
    Bool.false_eq_true, if_false, if_true]
  rfl

section

variable (sound : run.Sound)
include sound

theorem send_self_sound {srvid msgId : Nat} {data : List Byte} {answer : Int}
    (here : run.contex.gethandle srvid srvid = true)
    (heeded : Heeded run.contex msgId answer)
    (first : ∀ msg ∈ pending run.contex, msg.fromId ≠ srvid) :
    (run.threadStep (.send srvid srvid msgId data true answer)).Sound := by
  have heeded' : Heeded run.contex
      (run.contex.newMsg srvid msgId data).msgId answer := heeded
  rw [send_self msgId data answer here, record_heeded heeded']
  split
  · constructor
    case ledger => exact sound.ledger
    case old =>
      intro msg member
      exact Nat.lt_succ_of_lt (sound.old msg member)
  · rename_i result
    have took : answer ≠ -1 :=
      fun refused => result ((msgEntry_heeded heeded').2.mpr refused)
    rw [decide_eq_true took]
    constructor
    case ledger => exact sound.ledger.takeNew (sound.new _ msgId data) first
    case old => exact sound.old_append _ msgId data

theorem Sound.of_pending {contex : ThsrvContext}
    (same : pending contex = pending run.contex)
    (allocated : contex.allocated = run.contex.allocated) :
    Sound { run with contex := contex } where
  ledger := same ▸ sound.ledger
  old := allocated ▸ sound.old

theorem detach_sound : (run.threadStep .detach).Sound := by
  refine sound.of_pending ?_ ?_
  · unfold ThsrvContext.detach pending
    cases during : run.contex.round with
    | some round => simp [during]
    | none =>
      by_cases empty : run.contex.msgList.isEmpty = true <;>
        simp [during, empty]
  · unfold ThsrvContext.detach
    split
    · rfl
    · split <;> rfl

theorem join_sound : (run.threadStep .join).Sound := by
  refine sound.of_pending ?_ ?_
  · unfold ThsrvContext.join
    split
    · rename_i unhandled during
      simp [pending, during]
    · rfl
  · unfold ThsrvContext.join
    split <;> rfl

theorem handOut_sound {answer : Int}
    (heeds : HeedsFront run.contex answer run.contex.round) :
    (run.threadStep (.handOut answer)).Sound := by
  match during : run.contex.round with
  | none => simpa [threadStep, ThsrvContext.handOut, during] using sound
  | some ⟨[], unhandled⟩ =>
    simpa [threadStep, ThsrvContext.handOut, during] using sound
  | some ⟨msg :: header, unhandled⟩ =>
    rw [during] at heeds
    have heeded : Heeded run.contex msg.msgId answer := heeds
    have front : pending run.contex =
        msg :: (header ++ unhandled ++ run.contex.msgList) := by
      simp [pending, during]
    have ledger := sound.ledger
    rw [front] at ledger
    simp only [threadStep, ThsrvContext.handOut, during,
      record_heeded heeded, (msgEntry_heeded heeded).2]
    by_cases refused : answer = -1
    · rw [if_pos refused, decide_eq_false (not_not.mpr refused)]
      constructor
      case ledger =>
        have back := ledger.refuse
        simpa [pending] using back
      case old => exact sound.old
    · rw [if_neg refused, decide_eq_true refused]
      constructor
      case ledger =>
        have took := ledger.take
        simpa [pending] using took
      case old => exact sound.old

theorem threadStep_sound {step : ThreadStep}
    (heeds : run.Heeds step) : (run.threadStep step).Sound := by
  cases step with
  | send srvid fromId msgId data memory answer =>
    by_cases possible : (run.contex.gethandle srvid fromId && memory) = true
    · obtain ⟨here, rfl⟩ := Bool.and_eq_true_iff.mp possible
      by_cases own : fromId = srvid
      · subst own
        obtain ⟨heeded, first⟩ := heeds here rfl rfl
        exact send_self_sound sound here heeded first
      · exact send_queued_sound sound msgId data answer here own
    · simpa [threadStep, possible] using sound
  | detach => exact detach_sound sound
  | handOut answer => exact handOut_sound sound heeds
  | join => exact join_sound sound
  | install msgId | hook own => exact sound.of_pending rfl rfl

end

def header (contex : ThsrvContext) : List ThreadMsg :=
  match contex.round with
  | none => []
  | some round => round.header

/-- The message was handed out after the hand-outs `base`. -/
def HandedSince (base : List (ThreadMsg × Bool)) (msg : ThreadMsg)
    (run : ThreadRun) : Prop :=
  ∃ more, run.handed = base ++ more ∧ msg ∈ more.map Prod.fst

/-- The message was handed out after the hand-outs `base`, or is next in the
round. -/
def Owed (base : List (ThreadMsg × Bool)) (msg : ThreadMsg)
    (run : ThreadRun) : Prop :=
  ∃ more, run.handed = base ++ more ∧
    (msg ∈ more.map Prod.fst ∨ msg ∈ header run.contex)

variable {msg : ThreadMsg}

theorem Owed.of_header (owed : run.Owed base msg) {next : ThreadRun}
    {added : List (ThreadMsg × Bool)}
    (record : next.handed = run.handed ++ added)
    (same : header next.contex = header run.contex) : next.Owed base msg := by
  obtain ⟨more, handed, before | waits⟩ := owed
  · refine ⟨more ++ added, ?_, Or.inl ?_⟩
    · rw [record, handed, List.append_assoc]
    · rw [List.map_append]
      exact List.mem_append_left _ before
  · refine ⟨more ++ added, ?_, Or.inr (same ▸ waits)⟩
    rw [record, handed, List.append_assoc]

theorem send_owed (owed : run.Owed base msg) (srvid fromId msgId : Nat)
    (data : List Byte) (memory : Bool) (answer : Int)
    :
    (run.threadStep (.send srvid fromId msgId data memory answer)).Owed
      base msg := by
  have same : header (run.contex.send srvid fromId msgId data answer).2 =
      header run.contex := by
    unfold ThsrvContext.send
    split <;> rfl
  unfold threadStep
  dsimp only
  split
  · exact owed
  · split
    · exact owed.of_header (List.append_nil _).symm same
    · split
      · exact owed.of_header rfl same
      · exact owed.of_header (List.append_nil _).symm same

theorem handOut_owed (owed : run.Owed base msg) {answer : Int}
    (heeds : HeedsFront run.contex answer run.contex.round) :
    (run.threadStep (.handOut answer)).Owed base msg := by
  match during : run.contex.round with
  | none => simpa [threadStep, ThsrvContext.handOut, during] using owed
  | some ⟨[], unhandled⟩ =>
    simpa [threadStep, ThsrvContext.handOut, during] using owed
  | some ⟨front :: rest, unhandled⟩ =>
    rw [during] at heeds
    have heeded : Heeded run.contex front.msgId answer := heeds
    have recorded : (run.threadStep (.handOut answer)).handed =
        run.handed ++ [(front, decide (answer ≠ -1))] := by
      simp only [threadStep, during, record_heeded heeded]
    have remaining :
        header (run.threadStep (.handOut answer)).contex = rest := by
      simp only [threadStep, ThsrvContext.handOut, during]
      split <;> rfl
    obtain ⟨more, handed, before | waits⟩ := owed
    · refine ⟨more ++ [(front, decide (answer ≠ -1))], ?_, Or.inl ?_⟩
      · rw [recorded, handed, List.append_assoc]
      · rw [List.map_append]
        exact List.mem_append_left _ before
    · refine ⟨more ++ [(front, decide (answer ≠ -1))], ?_, ?_⟩
      · rw [recorded, handed, List.append_assoc]
      · simp only [header, during] at waits
        rcases List.mem_cons.mp waits with now | later
        · exact Or.inl (by simp [now])
        · exact Or.inr (remaining ▸ later)

theorem threadStep_owed {step : ThreadStep} (owed : run.Owed base msg)
    (heeds : run.Heeds step) :
    (run.threadStep step).Owed base msg := by
  cases step with
  | send srvid fromId msgId data memory answer =>
    exact send_owed owed srvid fromId msgId data memory answer
  | detach =>
    match during : run.contex.round with
    | some round =>
      simpa [threadStep, ThsrvContext.detach, during] using owed
    | none =>
      obtain ⟨more, handed, before | waits⟩ := owed
      · exact ⟨more, handed, Or.inl before⟩
      · simp [header, during] at waits
  | handOut answer => exact handOut_owed owed heeds
  | join =>
    refine owed.of_header (List.append_nil _).symm ?_
    unfold threadStep ThsrvContext.join
    dsimp only
    split
    · rename_i unhandled during
      simp [header, during]
    · rfl
  | install msgId | hook own => exact owed

theorem detach_owed (idle : run.contex.round = none)
    (waits : msg ∈ run.contex.msgList) :
    (run.threadStep .detach).Owed run.handed msg := by
  have some : run.contex.msgList.isEmpty = false := by
    cases queue : run.contex.msgList with
    | nil => simp [queue] at waits
    | cons => rfl
  refine ⟨[], (List.append_nil _).symm, Or.inr ?_⟩
  simpa [threadStep, ThsrvContext.detach, idle, some, header] using waits

theorem round_hands_out {during : List ThreadStep}
    (idle : run.contex.round = none) (waits : msg ∈ run.contex.msgList)
    (heeds : Meets threadStep Heeds (run.threadStep .detach) during)
    (finished : (during.foldl threadStep
      (run.threadStep .detach)).contex.round = none) :
    HandedSince run.handed msg
      (during.foldl threadStep (run.threadStep .detach)) := by
  have owed := invariant_of_meets
    (fun state step holds meets => threadStep_owed holds meets)
    (detach_owed idle waits) heeds _ (foldl_mem_states threadStep _ during)
  obtain ⟨more, handed, since | next⟩ := owed
  · exact ⟨more, handed, since⟩
  · simp [header, finished] at next

end Steps

/-- In a run in which every answer is heeded and no message that is handled at
once overtakes another, the law of the ledger holds throughout, and each round
hands out every message that waited at its begin. -/
theorem threadRun_delivers (thid : Nat) (steps : List ThreadStep)
    (heeds : Meets threadStep Heeds (start thid) steps) :
    (∀ visited ∈ states threadStep (start thid) steps, visited.Delivers) ∧
      ∀ before during, steps = before ++ .detach :: during →
        (before.foldl threadStep (start thid)).contex.round = none →
        (steps.foldl threadStep (start thid)).contex.round = none →
        ∀ msg ∈ (before.foldl threadStep (start thid)).contex.msgList,
          HandedSince (before.foldl threadStep (start thid)).handed msg
            (steps.foldl threadStep (start thid)) := by
  constructor
  · intro visited member
    have sound := @invariant_of_meets _ _ threadStep Heeds Sound
      (fun state step holds meets => threadStep_sound holds meets)
      _ _ (start_sound thid) heeds visited member
    exact sound.ledger.law
  · rintro before during rfl idle finished msg waits
    rw [meets_append] at heeds
    rw [List.foldl_append] at finished ⊢
    exact round_hands_out idle waits heeds.2.2 finished

/-- Two messages of one sender to a thread with its own `msg_entry`, the first
of which is refused once. -/
theorem threadRun_delivers_refused :
    let steps : List ThreadStep :=
      [.hook true, .send 1 2 5 [] true 0, .send 1 2 6 [] true 0, .detach,
        .handOut (-1), .handOut 0, .join, .detach, .handOut 0, .join]
    Meets threadStep Heeds (start 1) steps ∧
      ∀ visited ∈ states threadStep (start 1) steps, visited.Delivers :=
  have heeds : Meets threadStep Heeds (start 1)
      [.hook true, .send 1 2 5 [] true 0, .send 1 2 6 [] true 0, .detach,
        .handOut (-1), .handOut 0, .join, .detach, .handOut 0, .join] := by
    decide
  ⟨heeds, (threadRun_delivers 1 _ heeds).1⟩

/-- The answer -1 of an installed handler does not reach `_msg_entry`: the
message is freed. -/
theorem threadRun_loses_refused :
    ¬ ∀ (thid : Nat) (steps : List ThreadStep),
      ∀ visited ∈ states threadStep (start thid) steps, visited.Delivers := by
  intro always
  let steps : List ThreadStep :=
    [.install 5, .send 1 2 5 [] true 0, .detach, .handOut (-1), .join]
  have last := always 1 steps (steps.foldl threadStep (start 1))
    (foldl_mem_states threadStep (start 1) steps)
  refine @not_law_of_lost _ _ _ _ ThreadMsg.fromId _ _ _ ⟨0, 5, 2, []⟩
    ?_ ?_ ?_ last
  · decide
  · decide
  · decide

end ThreadRun

end NdNet
