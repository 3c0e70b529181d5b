import NdNet.Common.Str
import NdNet.Lib.Runs

/-!
# The session ids of `nd_httpListener.cpp`

A `SessionIdMgr` holds the values of the sessions under the ids that it has
computed.  An id is looked up when it has been computed, to see if it is new,
and `Update` takes the sessions away whose time is over.  What has been done with
the ids is written down beside it, the last first, to say what has to be found.
-/

namespace NdNet.Http

open Str

abbrev SessionId := List Char

/-- `sessionIdVal`; names that `ndstricmp` takes for one are one name. -/
abbrev SessionIdVal := List Char → Option (List Char)

/-- `operator[]` with an assignment, or `erase` -/
def SessionIdVal.put (val : SessionIdVal) (name : List Char)
    (value : Option (List Char)) : SessionIdVal :=
  fun other => if stricmp other name = 0 then value else val other

structure SessionValInfo where
  val : SessionIdVal
  invalidTm : Int
  path : List Char

def sessionDefaultTimeout : Int :=
  1800

def sessionDefaultPath : List Char :=
  ['/']

/-- What `MD5Crypt32` computes for `BuildSessionId`: 32 digits. -/
abbrev BuiltId := { sid : SessionId // sid.length = 32 }

structure SessionIdMgr where
  data : SessionId → Option SessionValInfo

namespace SessionIdMgr

def update (mgr : SessionIdMgr) (now : Int) : SessionIdMgr :=
  ⟨fun sid => (mgr.data sid).filter fun info => !decide (now ≥ info.invalidTm)⟩

/-- `BuildSessionId`, for the id it computes -/
def buildSessionId (mgr : SessionIdMgr) (sid : SessionId) : Bool :=
  (mgr.data sid).isNone

/-- The loop of `CreateSessionId`, before `--reTrytimes > 0`.  `ids` are the ids
that are computed one after the other; `none` is the `return` in the loop. -/
def retry (mgr : SessionIdMgr) (ids : Nat → BuiltId) :
    Nat → Nat → SessionId → Option SessionId
  | 0, _, sid => some sid
  | reTrytimes + 1, index, sid =>
    if 0 < reTrytimes then
      let sid := (ids index).val
      if mgr.buildSessionId sid then some sid
      else if reTrytimes = 0 then none
      else retry mgr ids reTrytimes (index + 1) sid
    else some sid

/-- `valInfo`, as `CreateSessionId` fills it -/
def valInfo (now : Int) (val : SessionIdVal) (lifeOfSeconds : Int)
    (path : Option (List Char)) : SessionValInfo where
  val := val
  invalidTm :=
    if lifeOfSeconds = 0 then now + sessionDefaultTimeout
    else now + lifeOfSeconds
  path :=
    match path with
    | some (c :: rest) => c :: rest
    | _ => sessionDefaultPath

def createSessionId (mgr : SessionIdMgr) (now : Int) (ids : Nat → BuiltId)
    (val : SessionIdVal) (lifeOfSeconds : Int) (path : Option (List Char)) :
    SessionId × SessionIdMgr :=
  match mgr.retry ids 100 0 [] with
  | none => ([], mgr)
  | some sid =>
    (sid, ⟨Function.update mgr.data sid
      (some (valInfo now val lifeOfSeconds path))⟩)

def destroySessionId (mgr : SessionIdMgr) (sid : SessionId) : SessionIdMgr :=
  ⟨Function.update mgr.data sid none⟩

def getSessionIdVal (mgr : SessionIdMgr) (sid : SessionId) :
    Option SessionValInfo :=
  mgr.data sid

/-- The value that `SaveSessionIdValue` stores; an empty one erases. -/
def savedVal : Option (List Char) → Option (List Char)
  | some (c :: rest) => some (c :: rest)
  | _ => none

def saveSessionIdValue (mgr : SessionIdMgr) (sid : SessionId)
    (name val : Option (List Char)) : Bool × SessionIdMgr :=
  match name with
  | some (c :: rest) =>
    match mgr.data sid with
    | none => (false, mgr)
    | some info =>
      (true, ⟨Function.update mgr.data sid
        (some { info with val := info.val.put (c :: rest) (savedVal val) })⟩)
  | _ => (false, mgr)

end SessionIdMgr

/-- `NDHttpSession::sessionIdTrytoSet`, with what becomes of
`m_cookieSessionId` -/
def sessionIdTrytoSet (mgr : SessionIdMgr) (clientSendSid : SessionId) :
    Bool × SessionId :=
  match mgr.getSessionIdVal clientSendSid with
  | some _ => (true, clientSendSid)
  | none => (false, [])

inductive SessionEvent where
  | created (sid : SessionId) (val : SessionIdVal) (invalidTm : Int)
  | saved (sid : SessionId) (name : List Char) (val : Option (List Char))
  | destroyed (sid : SessionId)
  | updated (now : Int)

namespace SessionEvent

/-- The end of the lifetime of an id, if it has been created and not destroyed
since. -/
def lifetime (sid : SessionId) : List SessionEvent → Option Int
  | [] => none
  | created other _ invalidTm :: past =>
    if other = sid then some invalidTm else lifetime sid past
  | destroyed other :: past =>
    if other = sid then none else lifetime sid past
  | saved _ _ _ :: past => lifetime sid past
  | updated _ :: past => lifetime sid past

/-- What has been saved under an id and a name since the id has been created. -/
def savedValue (sid : SessionId) (name : List Char) :
    List SessionEvent → Option (List Char)
  | [] => none
  | created other val _ :: past =>
    if other = sid then val name else savedValue sid name past
  | saved other written val :: past =>
    if other = sid ∧ stricmp name written = 0 then val
    else savedValue sid name past
  | destroyed _ :: past => savedValue sid name past
  | updated _ :: past => savedValue sid name past

/-- There has been an `Update` since the id has been created, at or behind
`invalidTm`. -/
def swept (sid : SessionId) (invalidTm : Int) : List SessionEvent → Bool
  | [] => false
  | created other _ _ :: past =>
    if other = sid then false else swept sid invalidTm past
  | updated now :: past => decide (invalidTm ≤ now) || swept sid invalidTm past
  | saved _ _ _ :: past => swept sid invalidTm past
  | destroyed _ :: past => swept sid invalidTm past

end SessionEvent

/-- The sessions, the time, and what has been done, the last first. -/
structure SessionWorld where
  mgr : SessionIdMgr
  now : Int
  past : List SessionEvent

/-- A call; the ids are those that `BuildSessionId` computes. -/
inductive SessionCall where
  | create (ids : Nat → BuiltId) (val : SessionIdVal) (lifeOfSeconds : Int)
      (path : Option (List Char))
  | save (sid : SessionId) (name val : Option (List Char))
  | get (sid : SessionId)
  | destroy (sid : SessionId)
  | update
  | trytoSet (clientSendSid : SessionId)

namespace SessionWorld

def initial (now : Int) : SessionWorld :=
  ⟨⟨fun _ => none⟩, now, []⟩

def step (world : SessionWorld) (input : Nat × SessionCall) : SessionWorld :=
  let now := world.now + input.1
  match input.2 with
  | .create ids val lifeOfSeconds path =>
    let (sid, mgr) :=
      world.mgr.createSessionId now ids val lifeOfSeconds path
    if sid.isEmpty then ⟨mgr, now, world.past⟩
    else ⟨mgr, now, .created sid val
      (SessionIdMgr.valInfo now val lifeOfSeconds path).invalidTm :: world.past⟩
  | .save sid name val =>
    let (accepted, mgr) := world.mgr.saveSessionIdValue sid name val
    if accepted then
      ⟨mgr, now, .saved sid (name.getD []) (SessionIdMgr.savedVal val) ::
        world.past⟩
    else ⟨mgr, now, world.past⟩
  | .destroy sid =>
    ⟨world.mgr.destroySessionId sid, now, .destroyed sid :: world.past⟩
  | .update => ⟨world.mgr.update now, now, .updated now :: world.past⟩
  | .get _ => { world with now := now }
  | .trytoSet _ => { world with now := now }

open SessionEvent in
/-- What is found under an id: if anything, its values are those that have been
saved since it has been created; and it is found while its lifetime lasts. -/
def Finds (world : SessionWorld) (now : Int) (sid : SessionId) : Prop :=
  (∀ info, world.mgr.getSessionIdVal sid = some info →
    lifetime sid world.past = some info.invalidTm ∧
      ∀ name, info.val name = savedValue sid name world.past) ∧
  ∀ invalidTm, lifetime sid world.past = some invalidTm → now < invalidTm →
    (world.mgr.getSessionIdVal sid).isSome

/-- A call answers as it has to: a new id is empty or was not in the store, what
is found are the values that have been saved, and an id is not accepted if its
lifetime has ended. -/
def Right (world : SessionWorld) (input : Nat × SessionCall) : Prop :=
  let now := world.now + input.1
  match input.2 with
  | .create ids val lifeOfSeconds path =>
    let sid :=
      (world.mgr.createSessionId now ids val lifeOfSeconds path).1
    sid = [] ∨ world.mgr.data sid = none
  | .get sid => world.Finds now sid
  | .trytoSet clientSendSid =>
    (sessionIdTrytoSet world.mgr clientSendSid).1 = true →
      ∃ invalidTm, SessionEvent.lifetime clientSendSid world.past =
        some invalidTm ∧ now < invalidTm
  | _ => True

/-- One of the 99 ids that are computed for a new session is not in the store,
and an id whose lifetime has ended comes back behind an `Update` only. -/
def Fine (world : SessionWorld) (input : Nat × SessionCall) : Prop :=
  match input.2 with
  | .create ids _ _ _ =>
    ∃ index < 99, world.mgr.data (ids index).val = none
  | .trytoSet clientSendSid =>
    ∀ invalidTm,
      SessionEvent.lifetime clientSendSid world.past = some invalidTm →
      invalidTm ≤ world.now + input.1 →
      SessionEvent.swept clientSendSid invalidTm world.past = true
  | _ => True

end SessionWorld

namespace SessionIdMgr

theorem buildSessionId_iff (mgr : SessionIdMgr) (sid : SessionId) :
    mgr.buildSessionId sid = true ↔ mgr.data sid = none :=
  Option.isNone_iff_eq_none

attribute [local simp] retry SessionEvent.swept SessionEvent.lifetime
  SessionEvent.savedValue in
/-- The loop always ends with an id: with the first new one, or with the last
one it has computed. -/
theorem retry_cases (mgr : SessionIdMgr) (ids : Nat → BuiltId) (tries : Nat)
    (index : Nat) (sid : SessionId) :
    ∃ built : BuiltId, mgr.retry ids (tries + 2) index sid = some built.val ∧
      (mgr.data built.val = none ↔
        ∃ later ≤ tries, mgr.data (ids (index + later)).val = none) := by
  induction tries generalizing index sid with
  | zero =>
    refine ⟨ids index, ?_, ?_⟩
    · simp [retry]
    · constructor
      · intro new
        exact ⟨0, Nat.le_refl 0, new⟩
      · rintro ⟨later, atMost, new⟩
        rw [Nat.le_zero.mp atMost] at new
        exact new
  | succ tries induction =>
    by_cases new : mgr.data (ids index).val = none
    · refine ⟨ids index, ?_, ?_⟩
      · exact if_pos ((mgr.buildSessionId_iff _).mpr new)
      · exact ⟨fun _ => ⟨0, Nat.zero_le _, new⟩, fun _ => new⟩
    · obtain ⟨built, ends, first⟩ := induction (index + 1) (ids index).val
      refine ⟨built, ?_, first.trans ?_⟩
      · have collides : mgr.buildSessionId (ids index).val ≠ true :=
          fun isNew => new ((mgr.buildSessionId_iff _).mp isNew)
        refine (if_neg collides).trans ?_
        exact ends
      · constructor
        · rintro ⟨later, atMost, found⟩
          refine ⟨later + 1, Nat.succ_le_succ atMost, ?_⟩
          rw [← Nat.add_right_comm] at found
          exact found
        · rintro ⟨later, atMost, found⟩
          cases later with
          | zero => exact absurd found new
          | succ later =>
            refine ⟨later, Nat.le_of_succ_le_succ atMost, ?_⟩
            rw [Nat.add_right_comm]
            exact found

/-- `CreateSessionId` always gives an id, and a new one exactly if one of the 99
that it may compute is new. -/
theorem createSessionId_eq (mgr : SessionIdMgr) (now : Int)
    (ids : Nat → BuiltId) (val : SessionIdVal) (lifeOfSeconds : Int)
    (path : Option (List Char)) :
    ∃ built : BuiltId,
      mgr.createSessionId now ids val lifeOfSeconds path =
        (built.val, ⟨Function.update mgr.data built.val
          (some (valInfo now val lifeOfSeconds path))⟩) ∧
      (mgr.data built.val = none ↔
        ∃ index < 99, mgr.data (ids index).val = none) := by
  obtain ⟨built, ends, new⟩ := mgr.retry_cases ids 98 0 []
  refine ⟨built, ?_, new.trans ?_⟩
  · unfold createSessionId
    rw [ends]
  · simp only [Nat.zero_add, Nat.lt_succ_iff]

end SessionIdMgr

namespace SessionEvent

theorem updated_of_swept {sid : SessionId} {invalidTm : Int}
    {past : List SessionEvent} (isSwept : swept sid invalidTm past = true) :
    ∃ now, updated now ∈ past ∧ invalidTm ≤ now := by
  induction past with
  | nil => cases isSwept
  | cons event past induction =>
    have later (rest : swept sid invalidTm past = true) :
        ∃ now, updated now ∈ event :: past ∧ invalidTm ≤ now := by
      obtain ⟨now, member, atMost⟩ := induction rest
      exact ⟨now, List.mem_cons_of_mem event member, atMost⟩
    cases event with
    | created other val tm =>
      rw [swept] at isSwept
      by_cases same : other = sid
      · rw [if_pos same] at isSwept
        cases isSwept
      · rw [if_neg same] at isSwept
        exact later isSwept
    | saved other name val | destroyed other => exact later isSwept
    | updated now =>
      rw [swept, Bool.or_eq_true, decide_eq_true_eq] at isSwept
      rcases isSwept with atMost | rest
      · exact ⟨now, List.mem_cons_self, atMost⟩
      · exact later rest

end SessionEvent

open SessionEvent

/-- What the store holds is what has been done with the ids. -/
structure Recorded (world : SessionWorld) : Prop where
  held : ∀ sid info, world.mgr.data sid = some info →
    lifetime sid world.past = some info.invalidTm ∧
      swept sid info.invalidTm world.past = false ∧
      ∀ name, info.val name = savedValue sid name world.past
  absent : ∀ sid, world.mgr.data sid = none → ∀ invalidTm,
    lifetime sid world.past = some invalidTm →
      swept sid invalidTm world.past = true
  before : ∀ now, updated now ∈ world.past → now ≤ world.now

namespace Recorded

variable {world : SessionWorld}

theorem initial (now : Int) : Recorded (SessionWorld.initial now) where
  held := by
    intro sid info found
    cases found
  absent := by
    intro sid _ invalidTm created
    cases created
  before := by
    intro now member
    cases member

variable (recorded : Recorded world)
include recorded

theorem before_cons {event : SessionEvent} (other : ∀ now, updated now ≠ event)
    :
    ∀ now, updated now ∈ event :: world.past → now ≤ world.now := by
  intro now member
  rcases List.mem_cons.mp member with first | rest
  · exact absurd first (other now)
  · exact recorded.before now rest

theorem later (elapsed : Nat) :
    Recorded { world with now := world.now + elapsed } :=
  { recorded with
    before := fun now member =>
      Int.le_trans (recorded.before now member)
        (Int.le_add_of_nonneg_right (Int.natCast_nonneg elapsed)) }

theorem created (sid : SessionId) (info : SessionValInfo) :
    Recorded ⟨⟨Function.update world.mgr.data sid (some info)⟩, world.now,
      .created sid info.val info.invalidTm :: world.past⟩ where
  held := by
    intro other found lookup
    dsimp only at lookup ⊢
    rw [lifetime, swept]
    by_cases same : other = sid
    · subst same
      rw [Function.update_self] at lookup
      cases lookup
      simp [savedValue]
    · rw [Function.update_of_ne same] at lookup
      obtain ⟨lasts, lives, values⟩ := recorded.held other found lookup
      rw [if_neg (Ne.symm same), if_neg (Ne.symm same)]
      refine ⟨lasts, lives, fun name => ?_⟩
      rw [savedValue, if_neg (Ne.symm same)]
      exact values name
  absent := by
    intro other lookup invalidTm lasts
    dsimp only at lookup lasts ⊢
    by_cases same : other = sid
    · rw [same, Function.update_self] at lookup
      cases lookup
    · rw [Function.update_of_ne same] at lookup
      rw [lifetime, if_neg (Ne.symm same)] at lasts
      rw [swept, if_neg (Ne.symm same)]
      exact recorded.absent other lookup invalidTm lasts
  before := recorded.before_cons nofun

theorem saved {sid : SessionId} {info : SessionValInfo}
    (holds : world.mgr.data sid = some info) (name : List Char)
    (value : Option (List Char)) :
    Recorded ⟨⟨Function.update world.mgr.data sid
        (some { info with val := info.val.put name value })⟩, world.now,
      .saved sid name value :: world.past⟩ where
  held := by
    intro other found lookup
    dsimp only at lookup ⊢
    by_cases same : other = sid
    · subst same
      rw [Function.update_self] at lookup
      cases lookup
      obtain ⟨lasts, lives, values⟩ := recorded.held other info holds
      refine ⟨lasts, lives, fun asked => ?_⟩
      rw [savedValue, ← values]
      simp only [true_and]
      rfl
    · rw [Function.update_of_ne same] at lookup
      obtain ⟨lasts, lives, values⟩ := recorded.held other found lookup
      refine ⟨lasts, lives, fun asked => ?_⟩
      rw [savedValue, if_neg fun both => same both.1.symm]
      exact values asked
  absent := by
    intro other lookup invalidTm lasts
    dsimp only at lookup lasts ⊢
    by_cases same : other = sid
    · rw [same, Function.update_self] at lookup
      cases lookup
    · rw [Function.update_of_ne same] at lookup
      exact recorded.absent other lookup invalidTm lasts
  before := recorded.before_cons nofun

theorem destroyed (sid : SessionId) :
    Recorded ⟨world.mgr.destroySessionId sid, world.now,
      .destroyed sid :: world.past⟩ where
  held := by
    intro other found lookup
    change Function.update world.mgr.data sid none other = some found at lookup
    rw [lifetime, swept]
    by_cases same : other = sid
    · rw [same, Function.update_self] at lookup
      cases lookup
    · rw [Function.update_of_ne same] at lookup
      rw [if_neg (Ne.symm same)]
      exact recorded.held other found lookup
  absent := by
    intro other lookup invalidTm lasts
    change Function.update world.mgr.data sid none other = none at lookup
    rw [lifetime] at lasts
    by_cases same : other = sid
    · rw [if_pos same.symm] at lasts
      cases lasts
    · rw [Function.update_of_ne same] at lookup
      rw [if_neg (Ne.symm same)] at lasts
      exact recorded.absent other lookup invalidTm lasts
  before := recorded.before_cons nofun

theorem updated :
    Recorded ⟨world.mgr.update world.now, world.now,
      .updated world.now :: world.past⟩ where
  held := by
    intro sid info lookup
    obtain ⟨found, remains⟩ := Option.filter_eq_some_iff.mp lookup
    obtain ⟨lasts, lives, values⟩ := recorded.held sid info found
    refine ⟨lasts, ?_, values⟩
    have future : ¬ info.invalidTm ≤ world.now := by
      simpa using remains
    rw [swept, lives, decide_eq_false future]
    rfl
  absent := by
    intro sid lookup invalidTm lasts
    rw [swept, Bool.or_eq_true, decide_eq_true_eq]
    cases found : world.mgr.data sid with
    | none => exact .inr (recorded.absent sid found invalidTm lasts)
    | some info =>
      have ended := Option.filter_eq_none_iff.mp lookup info found
      have same := (recorded.held sid info found).1.symm.trans lasts
      cases same
      left
      simpa using ended
  before := by
    intro now member
    rcases List.mem_cons.mp member with first | rest
    · cases first
      exact Int.le_refl _
    · exact recorded.before now rest

theorem step (input : Nat × SessionCall) :
    Recorded (world.step input) := by
  obtain ⟨elapsed, call⟩ := input
  have passed := recorded.later elapsed
  cases call with
  | create ids val lifeOfSeconds path =>
    obtain ⟨built, made, _⟩ := world.mgr.createSessionId_eq
      (world.now + elapsed) ids val lifeOfSeconds path
    have digits : built.val.isEmpty ≠ true := by
      intro empty
      have long := built.property
      rw [List.isEmpty_iff.mp empty] at long
      cases long
    unfold SessionWorld.step
    simp only [made, if_neg digits]
    exact passed.created built.val _
  | save sid name val =>
    unfold SessionWorld.step SessionIdMgr.saveSessionIdValue
    rcases name with none | ⟨_ | ⟨c, rest⟩⟩
    · exact passed
    · exact passed
    · cases holds : world.mgr.data sid with
      | none => simpa [holds] using passed
      | some info =>
        simp only [holds, if_true]
        exact passed.saved holds (c :: rest) _
  | get sid => exact passed
  | destroy sid => exact passed.destroyed sid
  | update => exact passed.updated
  | trytoSet sid => exact passed

theorem finds (elapsed : Nat) (sid : SessionId) :
    world.Finds (world.now + elapsed) sid := by
  constructor
  · intro info found
    obtain ⟨lasts, _, values⟩ := recorded.held sid info found
    exact ⟨lasts, values⟩
  · intro invalidTm lasts future
    apply Option.isSome_iff_ne_none.mpr
    intro missing
    obtain ⟨now, member, atMost⟩ :=
      updated_of_swept (recorded.absent sid missing invalidTm lasts)
    have past := recorded.before now member
    omega

/-- An id is accepted while the store holds it, and so only in its lifetime
exactly if an `Update` has been in between. -/
theorem trytoSet_iff (now : Int) (sid : SessionId) :
    ((sessionIdTrytoSet world.mgr sid).1 = true →
      ∃ invalidTm, lifetime sid world.past = some invalidTm ∧ now < invalidTm) ↔
      ∀ invalidTm, lifetime sid world.past = some invalidTm →
        invalidTm ≤ now → swept sid invalidTm world.past = true := by
  unfold sessionIdTrytoSet SessionIdMgr.getSessionIdVal
  cases found : world.mgr.data sid with
  | none =>
    constructor
    · intro _ invalidTm lasts _
      exact recorded.absent sid found invalidTm lasts
    · intro _ accepted
      cases accepted
  | some info =>
    obtain ⟨lasts, lives, _⟩ := recorded.held sid info found
    rw [lasts]
    constructor
    · intro inside invalidTm same ended
      obtain ⟨_, ends, future⟩ := inside rfl
      cases ends
      cases same
      omega
    · intro gone _
      refine ⟨info.invalidTm, rfl, ?_⟩
      by_contra notFuture
      have isSwept := gone info.invalidTm rfl (by omega)
      rw [lives] at isSwept
      cases isSwept

theorem right_iff (input : Nat × SessionCall) :
    world.Right input ↔ world.Fine input := by
  obtain ⟨elapsed, call⟩ := input
  cases call with
  | create ids val lifeOfSeconds path =>
    obtain ⟨built, made, new⟩ := world.mgr.createSessionId_eq
      (world.now + elapsed) ids val lifeOfSeconds path
    unfold SessionWorld.Right SessionWorld.Fine
    simp only [made]
    rw [← new]
    constructor
    · rintro (empty | absent)
      · have long := built.property
        rw [empty] at long
        cases long
      · exact absent
    · exact .inr
  | save sid name val => exact Iff.rfl
  | get sid => exact iff_of_true (recorded.finds elapsed sid) trivial
  | destroy sid | update => exact Iff.rfl
  | trytoSet sid => exact recorded.trytoSet_iff _ sid

end Recorded

/-- All calls of a run answer right exactly if each of them meets its
condition. -/
theorem sessions_right_iff (now : Int) (inputs : List (Nat × SessionCall)) :
    Runs.Meets SessionWorld.step SessionWorld.Right (SessionWorld.initial now)
        inputs ↔
      Runs.Meets SessionWorld.step SessionWorld.Fine (SessionWorld.initial now)
        inputs := by
  apply Runs.meets_iff_of_invariant
    (fun _ input (recorded : Recorded _) => recorded.right_iff input)
    (fun _ input recorded => recorded.step input)
  exact Recorded.initial now

/-- A second session replaces the first if its id is computed again and again;
and an id is accepted behind its lifetime if no `Update` has been. -/
theorem collision_and_late_not_right :
    let built : BuiltId := ⟨List.replicate 32 'a', rfl⟩
    let create := SessionCall.create (fun _ => built) (fun _ => none) 1 none
    ¬ Runs.Meets SessionWorld.step SessionWorld.Right (SessionWorld.initial 0)
        [(0, create), (0, create)] ∧
      ¬ Runs.Meets SessionWorld.step SessionWorld.Right
        (SessionWorld.initial 0)
          [(0, create), (2, .trytoSet built.val)] := by
  intro built create
  constructor
  · rintro ⟨_, second, _⟩
    rcases second with empty | absent
    · cases empty
    · cases absent
  · rintro ⟨_, tried, _⟩
    obtain ⟨invalidTm, lasts, future⟩ := tried rfl
    have one : invalidTm = 1 := (Option.some.inj lasts).symm
    subst one
    exact absurd future (by decide)

end NdNet.Http
