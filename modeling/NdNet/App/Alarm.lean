import Mathlib.Data.List.Induction
import Mathlib.Tactic.SplitIfs

/-!
# The alarms of `nd_alarms.cpp`

An `NDAlarm` keeps its pending alarms on `sub_list`, each with the time left
until it is due; `tick` is told how many milliseconds have passed and
`update_timer` is to age every alarm and to run those that are due.

`tick` reaches `update_timer` only under `list_empty(&sub_list)`, that is, only
when there is nothing to age.  So no alarm ever runs, and the runs on which the
component does what it is for are those in which no alarm comes due.
-/

namespace NdNet

variable {Obj Func : Type}

/-- `struct alarm_node`; the handle stands for the address of the node. -/
structure AlarmNode (Obj Func : Type) where
  handle : Nat
  target : Obj
  timerFunc : Func
  /-- An `NDINT32`, read as a signed number where it is compared. -/
  timeval : BitVec 32
  deriving DecidableEq, Repr

structure AlarmCall (Obj Func : Type) where
  handle : Nat
  target : Obj
  timerFunc : Func
  deriving DecidableEq, Repr

/-- `class NDAlarm`.  `nodes` counts the nodes `malloc` has handed out, which
makes every handle a new one. -/
structure NDAlarm (Obj Func : Type) where
  tminterval : BitVec 32
  tickMinute : BitVec 32
  tickSec : BitVec 32
  tickIndex : BitVec 32
  secondIndex : BitVec 32
  minuteIndex : BitVec 32
  subList : List (AlarmNode Obj Func)
  nodes : Nat
  deriving DecidableEq, Repr

/-- The virtual functions a derived class may override and whose result `tick`
looks at. -/
structure AlarmHooks (Obj Func : Type) where
  updateSecond : NDAlarm Obj Func → Int
  updateMinute : NDAlarm Obj Func → Int

/-- `NDAlarm::UpdateSecond` and `NDAlarm::UpdateMinute` -/
def AlarmHooks.base : AlarmHooks Obj Func where
  updateSecond _ := 0
  updateMinute _ := 0

namespace NDAlarm

/-- `NDAlarm::NDAlarm` -/
def new : NDAlarm Obj Func where
  tminterval := 0
  tickMinute := 0
  tickSec := 0
  tickIndex := 0
  secondIndex := 0
  minuteIndex := 0
  subList := []
  nodes := 0

/-- `NDAlarm::addAlarm`; `granted` says whether `malloc` returns a node. -/
def addAlarm (alarm : NDAlarm Obj Func) (granted : Bool) (target : Obj)
    (func : Func) (delay : BitVec 32) : NDAlarm Obj Func :=
  if granted then
    let node : AlarmNode Obj Func :=
      { handle := alarm.nodes, target := target, timerFunc := func,
        timeval := delay }
    { alarm with
      subList := node :: alarm.subList
      nodes := alarm.nodes + 1 }
  else alarm

def removeAlarm (alarm : NDAlarm Obj Func) (handle : Nat) :
    NDAlarm Obj Func :=
  { alarm with
    subList := alarm.subList.filter fun node => node.handle ≠ handle }

/-- The walk of `NDAlarm::update_timer`: the nodes that stay and the functions
that are called, in the order of the list. -/
def walkTimers (tminterval : BitVec 32) :
    List (AlarmNode Obj Func) →
      List (AlarmNode Obj Func) × List (AlarmCall Obj Func)
  | [] => ([], [])
  | node :: nodes =>
    let (kept, called) := walkTimers tminterval nodes
    let timeval := node.timeval - tminterval
    if timeval.toInt ≤ 1 then
      (kept, ⟨node.handle, node.target, node.timerFunc⟩ :: called)
    else ({ node with timeval := timeval } :: kept, called)

def updateTimer (alarm : NDAlarm Obj Func) (tminterval : BitVec 32) :
    NDAlarm Obj Func × List (AlarmCall Obj Func) :=
  let (kept, called) := walkTimers tminterval alarm.subList
  ({ alarm with subList := kept }, called)

/-- The part of `NDAlarm::tick` under `m_tick_sec >= 1000`; `none` is its
return of -1. -/
def tickSecond (hooks : AlarmHooks Obj Func) (alarm : NDAlarm Obj Func) :
    NDAlarm Obj Func × Option Unit :=
  if hooks.updateSecond alarm = -1 then (alarm, none)
  else
    let alarm := { alarm with
      tickSec :=
        if 2000 < alarm.tickSec.toNat then 0 else alarm.tickSec - 1000
      secondIndex := alarm.secondIndex + 1 }
    if 1000 * 60 ≤ alarm.tickMinute.toNat then
      if hooks.updateMinute alarm = -1 then (alarm, none)
      else
        -- `UpdateHour` is called here every 60 minutes; its result is dropped
        ({ alarm with
            minuteIndex := alarm.minuteIndex + 1
            tickMinute := alarm.tickMinute - 1000 * 60 }, some ())
    else (alarm, some ())

/-- What `NDAlarm::tick` does before it comes to the alarms; `none` is its
return of -1. -/
def tickClock (hooks : AlarmHooks Obj Func) (alarm : NDAlarm Obj Func)
    (tminterval : BitVec 32) : NDAlarm Obj Func × Option Unit :=
  let alarm := { alarm with
    tminterval := tminterval
    tickMinute := alarm.tickMinute + tminterval
    tickSec := alarm.tickSec + tminterval
    tickIndex := alarm.tickIndex + 1 }
  if 1000 ≤ alarm.tickSec.toNat then tickSecond hooks alarm
  else (alarm, some ())

def tick (hooks : AlarmHooks Obj Func) (alarm : NDAlarm Obj Func)
    (tminterval : BitVec 32) :
    NDAlarm Obj Func × List (AlarmCall Obj Func) × Int :=
  match tickClock hooks alarm tminterval with
  | (alarm, none) => (alarm, [], -1)
  | (alarm, some ()) =>
    if alarm.subList.isEmpty then
      let (alarm, called) := updateTimer alarm tminterval
      (alarm, called, 0)
    else (alarm, [], 0)

end NDAlarm

inductive AlarmOp (Obj Func : Type) where
  | addAlarm (granted : Bool) (target : Obj) (func : Func)
      (delay : BitVec 32)
  | removeAlarm (handle : Nat)
  | tick (tminterval : BitVec 32)
  deriving DecidableEq, Repr

namespace NDAlarm

def perform (hooks : AlarmHooks Obj Func) (alarm : NDAlarm Obj Func) :
    AlarmOp Obj Func → NDAlarm Obj Func × List (AlarmCall Obj Func)
  | .addAlarm granted target func delay =>
    (alarm.addAlarm granted target func delay, [])
  | .removeAlarm handle => (alarm.removeAlarm handle, [])
  | .tick tminterval =>
    let (alarm, called, _) := alarm.tick hooks tminterval
    (alarm, called)

def after (hooks : AlarmHooks Obj Func) (ops : List (AlarmOp Obj Func)) :
    NDAlarm Obj Func :=
  ops.foldl (fun alarm op => (alarm.perform hooks op).1) new

/-- The alarm functions `op` runs when it comes after `ops`. -/
def calledBy (hooks : AlarmHooks Obj Func) (ops : List (AlarmOp Obj Func))
    (op : AlarmOp Obj Func) : List (AlarmCall Obj Func) :=
  ((after hooks ops).perform hooks op).2

end NDAlarm

def nextAlarm (ops : List (AlarmOp Obj Func)) : Nat :=
  ops.countP fun op =>
    match op with
    | .addAlarm granted .. => granted
    | _ => false

def elapsed : List (AlarmOp Obj Func) → Nat
  | [] => 0
  | .tick tminterval :: ops => tminterval.toNat + elapsed ops
  | _ :: ops => elapsed ops

/-- A tick after which `between` and the tick itself have passed since an
alarm was added: the intervals add up to the delay less one millisecond. -/
def Reaches (delay : BitVec 32) (between : List (AlarmOp Obj Func))
    (tminterval : BitVec 32) : Prop :=
  delay.toNat ≤ elapsed between + tminterval.toNat + 1

instance (delay : BitVec 32) (between : List (AlarmOp Obj Func))
    (tminterval : BitVec 32) : Decidable (Reaches delay between tminterval) :=
  inferInstanceAs (Decidable (_ ≤ _))

/-- The tick is the one at which the alarm `handle`, added before `between`,
is to run: it has not been removed and no tick before reached its delay. -/
structure ComesDue (handle : Nat) (delay : BitVec 32)
    (between : List (AlarmOp Obj Func)) (tminterval : BitVec 32) : Prop where
  kept : .removeAlarm handle ∉ between
  reached : Reaches delay between tminterval
  first : ∀ early interval late, between = early ++ .tick interval :: late →
    ¬ Reaches delay early interval

/-- Where in a run an alarm is added and where a later tick stands. -/
structure AlarmTick (ops : List (AlarmOp Obj Func)) where
  before : List (AlarmOp Obj Func)
  target : Obj
  func : Func
  delay : BitVec 32
  between : List (AlarmOp Obj Func)
  tminterval : BitVec 32
  later : List (AlarmOp Obj Func)
  split : ops =
    before ++ .addAlarm true target func delay ::
      (between ++ .tick tminterval :: later)

namespace AlarmTick

variable {ops : List (AlarmOp Obj Func)}

def past (place : AlarmTick ops) : List (AlarmOp Obj Func) :=
  place.before ++ .addAlarm true place.target place.func place.delay ::
    place.between

def Due (place : AlarmTick ops) : Prop :=
  ComesDue (nextAlarm place.before) place.delay place.between place.tminterval

def calls (hooks : AlarmHooks Obj Func) (place : AlarmTick ops) :
    List (AlarmCall Obj Func) :=
  (NDAlarm.calledBy hooks place.past (.tick place.tminterval)).filter
    fun call => call.handle = nextAlarm place.before

end AlarmTick

/-- Every alarm of the run that is not removed runs its function exactly once,
at the first tick that reaches its delay, and at no other tick does it run. -/
structure AlarmsRunOnce (hooks : AlarmHooks Obj Func)
    (ops : List (AlarmOp Obj Func)) : Prop where
  atDue : ∀ place : AlarmTick ops, place.Due →
    place.calls hooks = [⟨nextAlarm place.before, place.target, place.func⟩]
  otherwise : ∀ place : AlarmTick ops, ¬ place.Due → place.calls hooks = []

namespace NDAlarm

variable {hooks : AlarmHooks Obj Func} {alarm : NDAlarm Obj Func}

theorem updateTimer_of_isEmpty (tminterval : BitVec 32)
    (empty : alarm.subList.isEmpty = true) :
    alarm.updateTimer tminterval = (alarm, []) := by
  cases alarm
  simp_all [updateTimer, walkTimers]

theorem tickClock_keeps (tminterval : BitVec 32) :
    (tickClock hooks alarm tminterval).1.subList = alarm.subList ∧
      (tickClock hooks alarm tminterval).1.nodes = alarm.nodes := by
  unfold tickClock tickSecond
  dsimp only
  split_ifs <;> exact ⟨rfl, rfl⟩

/-- `tick` runs no alarm and ages none: it walks the list only when the list is
empty. -/
theorem tick_spec (tminterval : BitVec 32) :
    (alarm.tick hooks tminterval).2.1 = [] ∧
      (alarm.tick hooks tminterval).1.subList = alarm.subList ∧
      (alarm.tick hooks tminterval).1.nodes = alarm.nodes := by
  have clock := @tickClock_keeps Obj Func hooks alarm tminterval
  unfold tick
  cases ticked : tickClock hooks alarm tminterval with
  | mk next went =>
    rw [ticked] at clock
    cases went with
    | none => exact ⟨rfl, clock⟩
    | some _ =>
      dsimp only
      split
      · rename_i empty
        rw [updateTimer_of_isEmpty tminterval empty]
        exact ⟨rfl, clock⟩
      · exact ⟨rfl, clock⟩

theorem perform_called (op : AlarmOp Obj Func) :
    (alarm.perform hooks op).2 = [] := by
  cases op with
  | addAlarm granted target func delay | removeAlarm handle => rfl
  | tick tminterval => exact (tick_spec tminterval).1

theorem perform_keeps {node : AlarmNode Obj Func} {op : AlarmOp Obj Func}
    (pending : node ∈ alarm.subList) (kept : op ≠ .removeAlarm node.handle) :
    node ∈ (alarm.perform hooks op).1.subList := by
  cases op with
  | addAlarm granted target func delay =>
    cases granted with
    | true => exact List.mem_cons_of_mem _ pending
    | false => exact pending
  | removeAlarm handle =>
    have other : node.handle ≠ handle := by
      intro same
      exact kept (by rw [same])
    exact List.mem_filter.mpr ⟨pending, by simpa using other⟩
  | tick tminterval =>
    change node ∈ (alarm.tick hooks tminterval).1.subList
    rw [(tick_spec tminterval).2.1]
    exact pending

theorem after_append (ops : List (AlarmOp Obj Func)) (op : AlarmOp Obj Func) :
    after hooks (ops ++ [op]) = ((after hooks ops).perform hooks op).1 := by
  simp [after]

theorem after_nodes (ops : List (AlarmOp Obj Func)) :
    (after hooks ops).nodes = nextAlarm ops := by
  induction ops using List.reverseRecOn with
  | nil => rfl
  | append_singleton ops op induction =>
    rw [after_append, nextAlarm, List.countP_append]
    rw [nextAlarm] at induction
    cases op with
    | addAlarm granted target func delay =>
      cases granted <;> simp [perform, addAlarm, induction]
    | removeAlarm handle => simp [perform, removeAlarm, induction]
    | tick tminterval =>
      change ((after hooks ops).tick hooks tminterval).1.nodes = _
      rw [(tick_spec tminterval).2.2, induction]
      simp

/-- In every run an alarm that is not removed is still pending at the end, with
the whole of its delay before it. -/
theorem after_keeps (before between : List (AlarmOp Obj Func)) (target : Obj)
    (func : Func) (delay : BitVec 32)
    (kept : .removeAlarm (nextAlarm before) ∉ between) :
    (⟨nextAlarm before, target, func, delay⟩ : AlarmNode Obj Func) ∈
      (after hooks
        (before ++ .addAlarm true target func delay :: between)).subList := by
  induction between using List.reverseRecOn with
  | nil =>
    rw [after_append]
    refine List.mem_cons.mpr (.inl ?_)
    rw [after_nodes]
  | append_singleton between op induction =>
    simp only [List.mem_append, List.mem_singleton, not_or] at kept
    have earlier := induction kept.1
    have joined :
        before ++ .addAlarm true target func delay :: (between ++ [op]) =
          (before ++ .addAlarm true target func delay :: between) ++ [op] := by
      simp
    rw [joined, after_append]
    exact perform_keeps earlier fun same => kept.2 same.symm

theorem after_keeps_second :
    (⟨1, 7, 8, 1000⟩ : AlarmNode Nat Nat) ∈
      (after AlarmHooks.base
        [.addAlarm true 0 0 5, .addAlarm true 7 8 1000, .removeAlarm 0,
          .tick 1000]).subList :=
  after_keeps [.addAlarm true 0 0 5]
    [.removeAlarm 0, .tick 1000] 7 8 1000 (by simp [nextAlarm])

end NDAlarm

theorem AlarmTick.calls_eq_nil {ops : List (AlarmOp Obj Func)}
    (hooks : AlarmHooks Obj Func) (place : AlarmTick ops) :
    place.calls hooks = [] := by
  unfold AlarmTick.calls NDAlarm.calledBy
  rw [NDAlarm.perform_called]
  rfl

/-- The alarms of a run are served as they should be exactly when none of them
ever comes due. -/
theorem alarmsRunOnce_iff (hooks : AlarmHooks Obj Func)
    (ops : List (AlarmOp Obj Func)) :
    AlarmsRunOnce hooks ops ↔ ∀ place : AlarmTick ops, ¬ place.Due := by
  constructor
  · intro served place due
    have called := served.atDue place due
    rw [place.calls_eq_nil hooks] at called
    exact List.cons_ne_nil _ _ called.symm
  · intro never
    refine ⟨fun place due => absurd due (never place), ?_⟩
    intro place _
    exact place.calls_eq_nil hooks

def secondAlarm : List (AlarmOp Nat Nat) :=
  [.addAlarm true 0 0 1000, .tick 1000]

theorem secondAlarm_never_runs :
    ¬ AlarmsRunOnce AlarmHooks.base secondAlarm := by
  intro served
  let place : AlarmTick secondAlarm :=
    { before := [], target := 0, func := 0, delay := 1000, between := [],
      tminterval := 1000, later := [], split := rfl }
  have due : place.Due := by
    refine ⟨List.not_mem_nil, by decide, ?_⟩
    intro early interval late split
    exact absurd split (by simp [place])
  exact absurd (served.atDue place due) (by decide)

end NdNet
