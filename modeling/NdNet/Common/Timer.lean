import NdNet.Lib.Runs
import Mathlib.Data.List.Nodup
import Mathlib.Data.List.Induction

/-!
# The timers of `nd_timer.c`

A timer root keeps its nodes on a list.  `nd_timer_add` appends one,
`nd_timer_del` leaves an id in a buffer of sixteen slots, and `nd_timer_update`
empties that buffer, detaches the list, runs the entries whose interval has
elapsed and joins the list again.

An entry may itself add and delete timers, and time passes while it runs; what
it does is chosen from outside, as a `TimerScript`.

`nd_compare_swap` answers 1 when it has stored the new value, and
`nd_timer_del` takes 0 for success.  On an empty buffer it therefore fills all
the slots and reports a failure, and on a filled one it stores nothing and
reports success.
-/

namespace NdNet

open List

variable {Entry Param : Type}

/-- `enum eTimeType` -/
inductive TimeType where
  | loop
  | once
  | destroy
  deriving DecidableEq, Repr

/-- `struct timer_node`; `node` stands for its address. -/
structure TimerNode (Entry Param : Type) where
  node : Nat
  timerId : BitVec 32
  runType : TimeType
  param : Param
  entry : Entry
  lastTime : BitVec 32
  interval : BitVec 32
  deriving DecidableEq, Repr

def delbufSize : Nat := 16

/-- `struct nd_timer_root`.  `nodes` counts the nodes the pool has handed out,
which makes every address a new one. -/
structure TimerRoot (Entry Param : Type) where
  num : BitVec 32
  startId : BitVec 32
  list : List (TimerNode Entry Param)
  delBuf : List (BitVec 32)
  nodes : Nat
  deriving DecidableEq, Repr

/-- `nd_compare_swap`, as `nd_atomic.h` documents it -/
def ndCompareSwap (dest cmp exch : BitVec 32) : BitVec 32 × Int :=
  if dest = cmp then (exch, 1) else (dest, 0)

namespace TimerRoot

def create : TimerRoot Entry Param where
  num := 0
  startId := 0
  list := []
  delBuf := List.replicate delbufSize 0
  nodes := 0

/-- `nd_timer_add`; `now` is what `nd_time` answers, no `func` is the null
pointer, and `granted` says whether the pool returns a node. -/
def ndTimerAdd (root : TimerRoot Entry Param) (now : BitVec 32)
    (func : Option Entry) (param : Param) (interval : BitVec 32)
    (runType : TimeType) (granted : Bool) :
    TimerRoot Entry Param × BitVec 32 :=
  match func with
  | none => (root, 0)
  | some entry =>
    if granted then
      let node : TimerNode Entry Param :=
        { node := root.nodes, timerId := root.startId + 1,
          runType := runType, param := param, entry := entry,
          lastTime := now, interval := interval }
      ({ root with
          startId := root.startId + 1
          list := root.list ++ [node]
          num := root.num + 1
          nodes := root.nodes + 1 }, node.timerId)
    else (root, 0)

/-- The loop of `nd_timer_del` over the slots, with the last answer of
`nd_compare_swap`. -/
def delSlots (id : BitVec 32) : Int → List (BitVec 32) → List (BitVec 32) × Int
  | ret, [] => ([], ret)
  | _, slot :: slots =>
    let (slot, ret) := ndCompareSwap slot 0 id
    if ret = 0 then (slot :: slots, ret)
    else
      let (slots, ret) := delSlots id ret slots
      (slot :: slots, ret)

def ndTimerDel (root : TimerRoot Entry Param) (id : BitVec 32) :
    TimerRoot Entry Param × Int :=
  if id = 0 then (root, -1)
  else
    let (delBuf, ret) := delSlots id (-1) root.delBuf
    ({ root with delBuf := delBuf }, if ret = 0 then 0 else -1)

def delFromList (root : TimerRoot Entry Param) (id : BitVec 32) :
    TimerRoot Entry Param :=
  if root.list.any fun node => node.timerId = id then
    { root with
      list := root.list.eraseP fun node => node.timerId = id
      num := root.num - 1 }
  else root

/-- The loop of `tryto_del_timer`. -/
def drainSlots (root : TimerRoot Entry Param) :
    List (BitVec 32) → TimerRoot Entry Param
  | [] => root
  | id :: slots =>
    drainSlots (if id ≠ 0 then root.delFromList id else root) slots

def trytoDelTimer (root : TimerRoot Entry Param) : TimerRoot Entry Param :=
  { drainSlots root root.delBuf with
    delBuf := List.replicate root.delBuf.length 0 }

end TimerRoot

/-- What an entry, or the program outside, does between two steps of an update:
the calls of `nd_timer.h`, and the clock moving on to `now`. -/
inductive TimerEdit (Entry Param : Type) where
  | time (now : BitVec 32)
  | add (func : Option Entry) (param : Param) (interval : BitVec 32)
      (runType : TimeType) (granted : Bool)
  | del (id : BitVec 32)
  deriving DecidableEq, Repr

/-- One run of an entry: what it does and what it returns. -/
structure TimerScript (Entry Param : Type) where
  edits : List (TimerEdit Entry Param)
  ret : Int
  deriving DecidableEq, Repr

/-- A timer as its user sees it: what was asked for, and the time of its last
run or else of its addition. -/
structure Timer (Entry Param : Type) where
  node : Nat
  timerId : BitVec 32
  runType : TimeType
  param : Param
  entry : Entry
  interval : Nat
  last : Nat
  deriving DecidableEq, Repr

/-- What can be seen from outside: the results of the calls and the runs of the
entries. -/
inductive TimerEvent (Entry Param : Type) where
  | added (timer : Timer Entry Param)
  | deleted (id : BitVec 32) (ret : Int)
  | ran (node : Nat) (entry : Entry) (param : Param) (now : BitVec 32)
      (ret : Int)
  deriving DecidableEq, Repr

def runsOf (events : List (TimerEvent Entry Param)) :
    List (Nat × Entry × Param) :=
  events.filterMap fun event =>
    match event with
    | .ran node entry param _ _ => some (node, entry, param)
    | _ => none

/-- A timer root and the time `nd_time` gives. -/
structure TimerWorld (Entry Param : Type) where
  clock : BitVec 32
  root : TimerRoot Entry Param
  deriving DecidableEq, Repr

namespace TimerWorld

variable (world : TimerWorld Entry Param)

def start (clock : BitVec 32) : TimerWorld Entry Param :=
  { clock := clock, root := .create }

def edit : TimerEdit Entry Param →
    TimerWorld Entry Param × List (TimerEvent Entry Param)
  | .time now => ({ world with clock := now }, [])
  | .add func param interval runType granted =>
    let (root, id) := world.root.ndTimerAdd world.clock func param interval
      runType granted
    match func, granted with
    | some entry, true =>
      ({ world with root := root },
        [.added
          { node := world.root.nodes, timerId := id, runType := runType,
            param := param, entry := entry, interval := interval.toNat,
            last := world.clock.toNat }])
    | _, _ => ({ world with root := root }, [])
  | .del id =>
    let (root, ret) := world.root.ndTimerDel id
    ({ world with root := root }, [.deleted id ret])

def editAll : TimerWorld Entry Param → List (TimerEdit Entry Param) →
    TimerWorld Entry Param × List (TimerEvent Entry Param)
  | world, [] => (world, [])
  | world, change :: changes =>
    let (world, events) := world.edit change
    let (world, later) := editAll world changes
    (world, events ++ later)

end TimerWorld

/-- The test of `nd_timer_update` on a node. -/
def TimerNode.elapsed (node : TimerNode Entry Param) (now : BitVec 32) :
    Bool :=
  node.interval ≤ now - node.lastTime || node.interval < 10

def TimerNode.afterRun (node : TimerNode Entry Param) (now : BitVec 32)
    (ret : Int) : List (TimerNode Entry Param) :=
  if node.runType = .once ∨ ret = -1 then []
  else [{ node with lastTime := now }]

def nextScript (scripts : List (TimerScript Entry Param)) :
    TimerScript Entry Param :=
  scripts.headD { edits := [], ret := 0 }

namespace TimerWorld

/-- The walk of `nd_timer_update` over the detached list: `kept` is the part
behind it. -/
def walk (now : BitVec 32) : List (TimerNode Entry Param) →
    List (TimerNode Entry Param) → List (TimerScript Entry Param) →
    TimerWorld Entry Param →
    List (TimerNode Entry Param) × TimerWorld Entry Param ×
      List (TimerEvent Entry Param)
  | kept, [], _, world => (kept, world, [])
  | kept, node :: nodes, scripts, world =>
    if node.runType = .destroy then
      walk now (kept ++ [node]) nodes scripts world
    else if node.elapsed now then
      let script := nextScript scripts
      let (world, changes) := world.editAll script.edits
      let (list, world, events) :=
        walk now (kept ++ node.afterRun now script.ret) nodes scripts.tail
          world
      (list, world,
        changes ++
          .ran node.node node.entry node.param now script.ret :: events)
    else walk now (kept ++ [node]) nodes scripts world

/-- `nd_timer_update`, with what is seen of it. -/
def ndTimerUpdate (world : TimerWorld Entry Param)
    (scripts : List (TimerScript Entry Param)) :
    TimerWorld Entry Param × Nat × List (TimerEvent Entry Param) :=
  if world.root.num.toInt < 1 then (world, 0, [])
  else
    let root := world.root.trytoDelTimer
    let (list, world, events) :=
      walk world.clock [] root.list scripts
        { world with root := { root with list := [] } }
    -- `list_join` puts the detached nodes in front of the ones added meanwhile
    ({ world with root := { world.root with list := list ++ world.root.list } },
      (runsOf events).length, events)

end TimerWorld

/-- One step of a program that uses a timer root. -/
inductive TimerOp (Entry Param : Type) where
  | edit (change : TimerEdit Entry Param)
  | update (scripts : List (TimerScript Entry Param))
  deriving DecidableEq, Repr

namespace TimerWorld

def perform (world : TimerWorld Entry Param) :
    TimerOp Entry Param → TimerWorld Entry Param × List (TimerEvent Entry Param)
  | .edit change => world.edit change
  | .update scripts =>
    let (world, _, events) := world.ndTimerUpdate scripts
    (world, events)

def after (world : TimerWorld Entry Param) (ops : List (TimerOp Entry Param)) :
    TimerWorld Entry Param :=
  ops.foldl (fun world op => (world.perform op).1) world

def trace : TimerWorld Entry Param → List (TimerOp Entry Param) →
    List (TimerEvent Entry Param)
  | _, [] => []
  | world, op :: ops =>
    (world.perform op).2 ++ trace (world.perform op).1 ops

end TimerWorld

/-- The timers that are registered, by what has been seen, and how many have
left by themselves. -/
structure TimerRoll (Entry Param : Type) where
  timers : List (Timer Entry Param)
  expired : Nat
  deriving DecidableEq, Repr

namespace Timer

variable (timer : Timer Entry Param)

/-- A timer is due when its interval has elapsed since its last run. -/
def due (now : Nat) : Bool :=
  timer.runType ≠ .destroy && timer.last + timer.interval ≤ now

/-- The run of a timer was its last: it was to run once, or its entry asked to
be removed. -/
def leaves (ret : Int) : Bool :=
  timer.runType = .once || ret = -1

def call : Nat × Entry × Param :=
  (timer.node, timer.entry, timer.param)

/-- What becomes of a timer when the entry of `node` has run. -/
def afterRun (node now : Nat) (ret : Int) : List (Timer Entry Param) :=
  if timer.node = node then
    if timer.leaves ret then [] else [{ timer with last := now }]
  else [timer]

end Timer

namespace TimerRoll

/-- What is registered after an event.  A deletion counts by what it reports:
with 0 the timer is gone, otherwise it stays. -/
def see (roll : TimerRoll Entry Param) :
    TimerEvent Entry Param → TimerRoll Entry Param
  | .added timer => { roll with timers := roll.timers ++ [timer] }
  | .deleted id ret =>
    if ret = 0 then
      { roll with
        timers := roll.timers.filter fun timer => timer.timerId ≠ id }
    else roll
  | .ran node _ _ now ret =>
    { timers :=
        roll.timers.flatMap fun timer => timer.afterRun node now.toNat ret
      expired := roll.expired +
        roll.timers.countP fun timer =>
          timer.node = node && timer.leaves ret }

def ofTrace (events : List (TimerEvent Entry Param)) :
    TimerRoll Entry Param :=
  events.foldl see { timers := [], expired := 0 }

/-- The runs an update at `now` is to make. -/
def runs (roll : TimerRoll Entry Param) (now : Nat) :
    List (Nat × Entry × Param) :=
  (roll.timers.filter fun timer => timer.due now).map Timer.call

end TimerRoll

/-- In a run from a new root every update runs exactly the registered timers
whose interval has elapsed since their last run. -/
def TimersServed (clock : BitVec 32) (ops : List (TimerOp Entry Param)) :
    Prop :=
  ∀ past scripts later, ops = past ++ .update scripts :: later →
    let world := (TimerWorld.start clock).after past
    runsOf (world.perform (.update scripts)).2 =
      (TimerRoll.ofTrace ((TimerWorld.start clock).trace past)).runs
        world.clock.toNat

def TimersCounted (clock : BitVec 32) (ops : List (TimerOp Entry Param)) :
    Prop :=
  ((TimerWorld.start clock).after ops).root.num.toInt =
    (TimerRoll.ofTrace
      ((TimerWorld.start clock).trace ops)).timers.length

/-- An edit made while `detached` are the nodes taken off the list: the clock
does not go back, an interval is at least 10, the counter has room and the new
id does not stand in the buffer; an id that is deleted is no timer's. -/
def EditAllowed (detached : List (TimerNode Entry Param))
    (world : TimerWorld Entry Param) : TimerEdit Entry Param → Prop
  | .time now => world.clock ≤ now
  | .add func _ interval _ granted =>
    func.isSome = true → granted = true →
      10 ≤ interval ∧ world.root.num.toInt < 2147483647 ∧
        (world.root.startId + 1 ∈ world.root.delBuf →
          world.root.startId + 1 = 0)
  | .del id =>
    id = 0 ∨ ∀ node ∈ detached ++ world.root.list, node.timerId ≠ id

instance (detached : List (TimerNode Entry Param))
    (world : TimerWorld Entry Param) :
    ∀ change, Decidable (EditAllowed detached world change)
  | .time _ => inferInstanceAs (Decidable (_ ≤ _))
  | .add _ _ _ _ _ => inferInstanceAs (Decidable (_ → _ → _))
  | .del _ => inferInstanceAs (Decidable (_ ∨ _))

def WalkAllowed (now : BitVec 32) : List (TimerNode Entry Param) →
    List (TimerNode Entry Param) → List (TimerScript Entry Param) →
    TimerWorld Entry Param → Prop
  | _, [], _, _ => True
  | kept, node :: nodes, scripts, world =>
    if node.runType = .destroy then
      WalkAllowed now (kept ++ [node]) nodes scripts world
    else if node.elapsed now then
      let script := nextScript scripts
      Runs.Meets (fun world change => (world.edit change).1)
        (EditAllowed (kept ++ node :: nodes)) world script.edits ∧
      WalkAllowed now (kept ++ node.afterRun now script.ret) nodes
        scripts.tail (world.editAll script.edits).1
    else WalkAllowed now (kept ++ [node]) nodes scripts world

instance instDecidableWalkAllowed (now : BitVec 32) :
    ∀ (kept nodes : List (TimerNode Entry Param))
      (scripts : List (TimerScript Entry Param))
      (world : TimerWorld Entry Param),
      Decidable (WalkAllowed now kept nodes scripts world)
  | _, [], _, _ => .isTrue trivial
  | kept, node :: nodes, scripts, world =>
    if destroy : node.runType = .destroy then
      have := instDecidableWalkAllowed now (kept ++ [node]) nodes scripts
        world
      decidable_of_iff (WalkAllowed now (kept ++ [node]) nodes scripts world)
        (by rw [WalkAllowed, if_pos destroy])
    else if elapsed : node.elapsed now then
      have := instDecidableWalkAllowed now
        (kept ++ node.afterRun now (nextScript scripts).ret) nodes
        scripts.tail (world.editAll (nextScript scripts).edits).1
      decidable_of_iff (_ ∧ _)
        (by rw [WalkAllowed, if_neg destroy, if_pos elapsed])
    else
      have := instDecidableWalkAllowed now (kept ++ [node]) nodes scripts
        world
      decidable_of_iff (WalkAllowed now (kept ++ [node]) nodes scripts world)
        (by rw [WalkAllowed, if_neg destroy, if_neg elapsed])

def OpAllowed (world : TimerWorld Entry Param) : TimerOp Entry Param → Prop
  | .edit change => EditAllowed [] world change
  | .update scripts =>
    1 ≤ world.root.num.toInt →
      WalkAllowed world.clock [] world.root.trytoDelTimer.list scripts
        { world with root := { world.root.trytoDelTimer with list := [] } }

namespace TimerRoot

variable {root : TimerRoot Entry Param}

theorem mem_delSlots {id value : BitVec 32} {ret : Int}
    {slots : List (BitVec 32)} (member : value ∈ (delSlots id ret slots).1) :
    value = id ∨ value ∈ slots := by
  induction slots generalizing ret with
  | nil => exact .inr member
  | cons slot slots induction =>
    rw [delSlots, ndCompareSwap] at member
    by_cases free : slot = 0
    · simp only [if_pos free] at member
      rcases mem_cons.mp member with here | later
      · exact .inl here
      · exact (induction later).imp_right (mem_cons_of_mem _)
    · simp only [if_neg free, if_true] at member
      exact .inr member

theorem delFromList_of_absent {id : BitVec 32}
    (absent : ∀ node ∈ root.list, node.timerId ≠ id) :
    root.delFromList id = root := by
  unfold delFromList
  rw [if_neg]
  simpa using absent

theorem drainSlots_of_absent {slots : List (BitVec 32)}
    (absent : ∀ id ∈ slots, id ≠ 0 → ∀ node ∈ root.list, node.timerId ≠ id) :
    drainSlots root slots = root := by
  induction slots with
  | nil => rfl
  | cons id slots induction =>
    obtain ⟨first, others⟩ := forall_mem_cons.mp absent
    rw [drainSlots]
    by_cases used : id ≠ 0
    · rw [if_pos used, delFromList_of_absent (first used)]
      exact induction others
    · rw [if_neg used]
      exact induction others

end TimerRoot

theorem toInt_add_one {value : BitVec 32} (nonnegative : 0 ≤ value.toInt)
    (room : value.toInt < 2147483647) :
    (value + 1).toInt = value.toInt + 1 := by
  rw [BitVec.toInt_add]
  have one : (1 : BitVec 32).toInt = 1 := by decide
  refine Int.bmod_eq_of_le ?_ ?_
  · omega
  · omega

theorem TimerRoll.see_deleted_of_absent {roll : TimerRoll Entry Param}
    {id : BitVec 32} {ret : Int}
    (absent : ∀ timer ∈ roll.timers, timer.timerId ≠ id) :
    roll.see (.deleted id ret) = roll := by
  rw [TimerRoll.see]
  split
  · have all : (roll.timers.filter fun timer => timer.timerId ≠ id) =
        roll.timers := by
      refine filter_eq_self.mpr ?_
      intro timer member
      simpa using absent timer member
    rw [all]
  · rfl

def TimerNode.timer (node : TimerNode Entry Param) : Timer Entry Param where
  node := node.node
  timerId := node.timerId
  runType := node.runType
  param := node.param
  entry := node.entry
  interval := node.interval.toNat
  last := node.lastTime.toNat

/-- The registered timers are those on the detached part of the list and on
the list itself, and no id in the buffer is one of theirs. -/
structure Tracks (detached : List (TimerNode Entry Param))
    (world : TimerWorld Entry Param) (roll : TimerRoll Entry Param) :
    Prop where
  timers : roll.timers = (detached ++ world.root.list).map TimerNode.timer
  fresh : ∀ node ∈ detached ++ world.root.list, node.node < world.root.nodes
  distinct : ((detached ++ world.root.list).map TimerNode.node).Nodup
  begun : ∀ node ∈ detached ++ world.root.list, node.lastTime ≤ world.clock
  patient : ∀ node ∈ detached ++ world.root.list, 10 ≤ node.interval
  unwanted : ∀ id ∈ world.root.delBuf, id ≠ 0 →
    ∀ node ∈ detached ++ world.root.list, node.timerId ≠ id
  counted : world.root.num.toInt =
    (detached ++ world.root.list).length + roll.expired

variable {changes : List (TimerEdit Entry Param)}

namespace Tracks

variable {detached : List (TimerNode Entry Param)}
  {world : TimerWorld Entry Param} {roll : TimerRoll Entry Param}

theorem start (clock : BitVec 32) :
    Tracks [] (TimerWorld.start clock : TimerWorld Entry Param)
      { timers := [], expired := 0 } where
  timers := rfl
  fresh := by simp [TimerWorld.start, TimerRoot.create]
  distinct := nodup_nil
  begun := by simp [TimerWorld.start, TimerRoot.create]
  patient := by simp [TimerWorld.start, TimerRoot.create]
  unwanted := by simp [TimerWorld.start, TimerRoot.create]
  counted := rfl

variable (tracks : Tracks detached world roll)
include tracks

theorem time {now : BitVec 32} (onward : world.clock ≤ now) :
    Tracks detached { world with clock := now } roll :=
  { tracks with
    begun := fun node member =>
      BitVec.le_trans (tracks.begun node member) onward }

theorem add (entry : Entry) (param : Param) {interval : BitVec 32}
    (runType : TimeType) (patient : 10 ≤ interval)
    (room : world.root.num.toInt < 2147483647)
    (unlisted : world.root.startId + 1 ∈ world.root.delBuf →
      world.root.startId + 1 = 0) :
    Tracks detached
      (world.edit (.add (some entry) param interval runType true)).1
      ((world.edit (.add (some entry) param interval runType true)).2.foldl
        TimerRoll.see roll) := by
  let node : TimerNode Entry Param :=
    { node := world.root.nodes, timerId := world.root.startId + 1,
      runType := runType, param := param, entry := entry,
      lastTime := world.clock, interval := interval }
  have listed : detached ++ (world.root.list ++ [node]) =
      (detached ++ world.root.list) ++ [node] := by simp
  refine
    { timers := ?_, fresh := ?_, distinct := ?_, begun := ?_, patient := ?_,
      unwanted := ?_, counted := ?_ }
  · change roll.timers ++ [node.timer] =
      (detached ++ (world.root.list ++ [node])).map TimerNode.timer
    rw [listed, map_append, ← tracks.timers]
    rfl
  · change ∀ other ∈ detached ++ (world.root.list ++ [node]),
      other.node < world.root.nodes + 1
    rw [listed]
    intro other member
    rcases mem_append.mp member with old | new
    · exact Nat.lt_succ_of_lt (tracks.fresh other old)
    · rw [mem_singleton.mp new]
      exact Nat.lt_succ_self _
  · change ((detached ++ (world.root.list ++ [node])).map
      TimerNode.node).Nodup
    rw [listed, map_append]
    refine List.Nodup.append tracks.distinct (nodup_singleton _) ?_
    intro address old new
    obtain ⟨other, member, rfl⟩ := mem_map.mp old
    have same : other.node = world.root.nodes := mem_singleton.mp new
    exact absurd (tracks.fresh other member) (by omega)
  · change ∀ other ∈ detached ++ (world.root.list ++ [node]),
      other.lastTime ≤ world.clock
    rw [listed]
    intro other member
    rcases mem_append.mp member with old | new
    · exact tracks.begun other old
    · rw [mem_singleton.mp new]
      exact BitVec.le_refl _
  · change ∀ other ∈ detached ++ (world.root.list ++ [node]),
      10 ≤ other.interval
    rw [listed]
    intro other member
    rcases mem_append.mp member with old | new
    · exact tracks.patient other old
    · rw [mem_singleton.mp new]
      exact patient
  · change ∀ id ∈ world.root.delBuf, id ≠ 0 →
      ∀ other ∈ detached ++ (world.root.list ++ [node]), other.timerId ≠ id
    rw [listed]
    intro id standing used other member
    rcases mem_append.mp member with old | new
    · exact tracks.unwanted id standing used other old
    · rw [mem_singleton.mp new]
      intro same
      have same : world.root.startId + 1 = id := same
      rw [← same] at standing used
      exact used (unlisted standing)
  · change (world.root.num + 1).toInt =
      ((detached ++ (world.root.list ++ [node])).length : Int) + roll.expired
    have counted := tracks.counted
    have added := toInt_add_one (by omega) room
    simp only [length_append, length_singleton] at counted ⊢
    omega

theorem del {id : BitVec 32}
    (absent : id = 0 ∨
      ∀ node ∈ detached ++ world.root.list, node.timerId ≠ id) :
    Tracks detached (world.edit (.del id)).1
      ((world.edit (.del id)).2.foldl TimerRoll.see roll) := by
  by_cases zero : id = 0
  · have same : world.edit (.del id) = (world, [.deleted id (-1)]) := by
      simp [TimerWorld.edit, TimerRoot.ndTimerDel, zero]
    rw [same]
    exact tracks
  · have absent := absent.resolve_left zero
    have root : (world.edit (.del id)).1 =
        { world with root := { world.root with
          delBuf := (TimerRoot.delSlots id (-1) world.root.delBuf).1 } } := by
      rw [TimerWorld.edit, TimerRoot.ndTimerDel, if_neg zero]
    have unchanged :
        ((world.edit (.del id)).2.foldl TimerRoll.see roll) = roll := by
      refine TimerRoll.see_deleted_of_absent ?_
      intro timer member
      rw [tracks.timers] at member
      obtain ⟨node, listed, rfl⟩ := mem_map.mp member
      exact absent node listed
    rw [root, unchanged]
    refine { tracks with unwanted := ?_ }
    intro value member used
    rcases TimerRoot.mem_delSlots member with same | old
    · rw [same]
      exact absent
    · exact tracks.unwanted value old used

theorem edit {change : TimerEdit Entry Param}
    (allowed : EditAllowed detached world change) :
    Tracks detached (world.edit change).1
      ((world.edit change).2.foldl TimerRoll.see roll) := by
  cases change with
  | time now => exact tracks.time allowed
  | add func param interval runType granted =>
    cases func with
    | none => exact tracks
    | some entry =>
      cases granted with
      | false => exact tracks
      | true =>
        obtain ⟨patient, room, unlisted⟩ := allowed rfl rfl
        exact tracks.add entry param runType patient room unlisted
  | del id => exact tracks.del allowed

theorem editAll
    (allowed : Runs.Meets (fun world change => (world.edit change).1)
      (EditAllowed detached) world changes) :
    Tracks detached (world.editAll changes).1
      ((world.editAll changes).2.foldl TimerRoll.see roll) := by
  induction changes generalizing world roll with
  | nil => exact tracks
  | cons change changes induction =>
    have later := induction (tracks.edit allowed.1) allowed.2
    rw [← foldl_append] at later
    exact later

end Tracks

namespace TimerNode

variable {node other : TimerNode Entry Param} {now : BitVec 32} {ret : Int}

theorem leaves_timer :
    node.timer.leaves ret = true ↔ node.runType = .once ∨ ret = -1 := by
  change (decide (node.runType = .once) || decide (ret = -1)) = true ↔ _
  rw [Bool.or_eq_true, decide_eq_true_eq, decide_eq_true_eq]

attribute [local simp] afterRun in
theorem afterRun_timer :
    (node.afterRun now ret).map timer =
      node.timer.afterRun node.node now.toNat ret := by
  have own : node.timer.node = node.node := rfl
  unfold afterRun Timer.afterRun
  rw [if_pos own]
  by_cases leaves : node.runType = .once ∨ ret = -1
  · rw [if_pos leaves, if_pos (leaves_timer.mpr leaves)]
    rfl
  · rw [if_neg leaves, if_neg (mt leaves_timer.mp leaves)]
    rfl

theorem eq_of_mem_afterRun (member : other ∈ node.afterRun now ret) :
    other = { node with lastTime := now } := by
  unfold afterRun at member
  split at member
  · exact absurd member not_mem_nil
  · exact mem_singleton.mp member

theorem afterRun_sublist :
    ((node.afterRun now ret).map TimerNode.node).Sublist [node.node] := by
  unfold TimerNode.afterRun
  split
  · exact nil_sublist _
  · exact List.Sublist.refl _

theorem afterRun_length :
    (node.afterRun now ret).length +
      (if node.timer.leaves ret then 1 else 0) = 1 := by
  unfold afterRun
  by_cases leaves : node.runType = .once ∨ ret = -1
  · rw [if_pos leaves, if_pos (leaves_timer.mpr leaves)]
    rfl
  · rw [if_neg leaves, if_neg (mt leaves_timer.mp leaves)]
    rfl

theorem elapsed_iff (patient : 10 ≤ node.interval) (begun : node.lastTime ≤ now)
    :
    node.elapsed now = true ↔
      node.timer.last + node.timer.interval ≤ now.toNat := by
  unfold elapsed
  have slow : ¬ node.interval < 10 := by
    rw [BitVec.not_lt]
    exact patient
  have since : (now - node.lastTime).toNat =
      now.toNat - node.lastTime.toNat := BitVec.toNat_sub_of_le begun
  have before : node.lastTime.toNat ≤ now.toNat := BitVec.le_def.mp begun
  simp only [slow, decide_false, Bool.or_false, decide_eq_true_eq,
    BitVec.le_def, since, timer]
  omega

end TimerNode

namespace Timer

variable {timers : List (Timer Entry Param)} {node now : Nat} {ret : Int}

theorem flatMap_afterRun (others : ∀ timer ∈ timers, timer.node ≠ node) :
    (timers.flatMap fun timer => timer.afterRun node now ret) = timers := by
  induction timers with
  | nil => rfl
  | cons timer timers induction =>
    obtain ⟨first, later⟩ := forall_mem_cons.mp others
    rw [flatMap_cons, induction later, afterRun, if_neg first]
    rfl

theorem countP_leaves (others : ∀ timer ∈ timers, timer.node ≠ node) :
    (timers.countP fun timer => timer.node = node && timer.leaves ret) = 0 := by
  refine countP_eq_zero.mpr ?_
  intro timer member
  simp [others timer member]

end Timer

namespace Tracks

variable {kept nodes : List (TimerNode Entry Param)}
  {node : TimerNode Entry Param} {world : TimerWorld Entry Param}
  {roll : TimerRoll Entry Param} {now : BitVec 32}

theorem ran (tracks : Tracks (kept ++ node :: nodes) world roll)
    (reached : now ≤ world.clock) (ret : Int) :
    Tracks ((kept ++ node.afterRun now ret) ++ nodes) world
      (roll.see (.ran node.node node.entry node.param now ret)) := by
  have shape : kept ++ node :: nodes ++ world.root.list =
      kept ++ node :: (nodes ++ world.root.list) := by simp
  have shape' : kept ++ node.afterRun now ret ++ nodes ++ world.root.list =
      kept ++ (node.afterRun now ret ++ (nodes ++ world.root.list)) := by simp
  have distinct := tracks.distinct
  rw [shape, map_append, map_cons, nodup_middle,
    nodup_cons, mem_append, not_or] at distinct
  have before : ∀ timer ∈ kept.map TimerNode.timer,
      timer.node ≠ node.node := by
    intro timer member same
    obtain ⟨other, listed, rfl⟩ := mem_map.mp member
    exact distinct.1.1 (mem_map.mpr ⟨other, listed, same⟩)
  have behind : ∀ timer ∈ (nodes ++ world.root.list).map TimerNode.timer,
      timer.node ≠ node.node := by
    intro timer member same
    obtain ⟨other, listed, rfl⟩ := mem_map.mp member
    exact distinct.1.2 (mem_map.mpr ⟨other, listed, same⟩)
  have timers := tracks.timers
  rw [shape, map_append, map_cons] at timers
  -- a node of the new list is one of the old list or the one that has run
  have origin : ∀ other ∈
      kept ++ node.afterRun now ret ++ nodes ++ world.root.list,
      other ∈ kept ++ node :: nodes ++ world.root.list ∨
        other = { node with lastTime := now } := by
    intro other member
    rw [shape', mem_append, mem_append] at member
    rw [shape, mem_append, mem_cons]
    rcases member with old | new | old
    · exact .inl (.inl old)
    · exact .inr (TimerNode.eq_of_mem_afterRun new)
    · exact .inl (.inr (.inr old))
  have self : node ∈ kept ++ node :: nodes ++ world.root.list := by simp
  refine
    { timers := ?_, fresh := ?_, distinct := ?_, begun := ?_, patient := ?_,
      unwanted := ?_, counted := ?_ }
  · change (roll.timers.flatMap fun timer =>
      timer.afterRun node.node now.toNat ret) = _
    rw [timers, shape', flatMap_append, flatMap_cons,
      Timer.flatMap_afterRun before, Timer.flatMap_afterRun behind,
      ← TimerNode.afterRun_timer, ← map_append, ← map_append]
  · intro other member
    rcases origin other member with old | rfl
    · exact tracks.fresh other old
    · exact tracks.fresh node self
  · refine tracks.distinct.sublist ?_
    have untouched : node :: (nodes ++ world.root.list) =
        [node] ++ (nodes ++ world.root.list) := rfl
    rw [shape, shape', untouched]
    simp only [map_append]
    refine (List.Sublist.refl _).append ?_
    exact TimerNode.afterRun_sublist.append (List.Sublist.refl _)
  · intro other member
    rcases origin other member with old | rfl
    · exact tracks.begun other old
    · exact reached
  · intro other member
    rcases origin other member with old | rfl
    · exact tracks.patient other old
    · exact tracks.patient node self
  · intro id standing used other member
    rcases origin other member with old | rfl
    · exact tracks.unwanted id standing used other old
    · exact tracks.unwanted id standing used node self
  · change world.root.num.toInt = _ + ((roll.expired +
      roll.timers.countP fun timer =>
        timer.node = node.node && timer.leaves ret : Nat) : Int)
    have counted := tracks.counted
    have length := @TimerNode.afterRun_length Entry Param node now ret
    have leaving : (roll.timers.countP fun timer =>
        timer.node = node.node && timer.leaves ret) =
          if node.timer.leaves ret then 1 else 0 := by
      rw [timers, countP_append, countP_cons,
        Timer.countP_leaves before, Timer.countP_leaves behind]
      have own : node.timer.node = node.node := rfl
      simp [own]
    simp only [length_append, length_cons] at counted ⊢
    omega

end Tracks

namespace TimerWorld

variable {world : TimerWorld Entry Param}
  {detached : List (TimerNode Entry Param)}

theorem edit_clock {change : TimerEdit Entry Param}
    (allowed : EditAllowed detached world change) :
    world.clock ≤ (world.edit change).1.clock := by
  cases change with
  | time now => exact allowed
  | add func param interval runType granted =>
    cases func with
    | none => exact BitVec.le_refl _
    | some entry => cases granted <;> exact BitVec.le_refl _
  | del id => exact BitVec.le_refl _

theorem edit_runs (change : TimerEdit Entry Param) :
    runsOf (world.edit change).2 = [] := by
  cases change with
  | time now => rfl
  | add func param interval runType granted =>
    cases func with
    | none => rfl
    | some entry => cases granted <;> rfl
  | del id => rfl

theorem editAll_clock
    (allowed : Runs.Meets (fun world change => (world.edit change).1)
      (EditAllowed detached) world changes) :
    world.clock ≤ (world.editAll changes).1.clock := by
  induction changes generalizing world with
  | nil => exact BitVec.le_refl _
  | cons change changes induction =>
    exact BitVec.le_trans (edit_clock allowed.1) (induction allowed.2)

theorem runsOf_append (first later : List (TimerEvent Entry Param)) :
    runsOf (first ++ later) = runsOf first ++ runsOf later :=
  filterMap_append

theorem editAll_runs (changes : List (TimerEdit Entry Param)) :
    runsOf (world.editAll changes).2 = [] := by
  induction changes generalizing world with
  | nil => rfl
  | cons change changes induction =>
    change runsOf ((world.edit change).2 ++ _) = []
    rw [runsOf_append, edit_runs, nil_append]
    exact induction

end TimerWorld

def dueRuns (now : BitVec 32) (nodes : List (TimerNode Entry Param)) :
    List (Nat × Entry × Param) :=
  ((nodes.map TimerNode.timer).filter fun timer => timer.due now.toNat).map
    Timer.call

theorem dueRuns_cons_of_due {now : BitVec 32} {node : TimerNode Entry Param}
    {nodes : List (TimerNode Entry Param)}
    (due : node.timer.due now.toNat = true) :
    dueRuns now (node :: nodes) = node.timer.call :: dueRuns now nodes := by
  unfold dueRuns
  rw [map_cons, filter_cons, if_pos due, map_cons]

theorem dueRuns_cons_of_not_due {now : BitVec 32} {node : TimerNode Entry Param}
    {nodes : List (TimerNode Entry Param)}
    (later : ¬ node.timer.due now.toNat = true) :
    dueRuns now (node :: nodes) = dueRuns now nodes := by
  unfold dueRuns
  rw [map_cons, filter_cons, if_neg later]

variable {scripts : List (TimerScript Entry Param)}

namespace Tracks

variable {world : TimerWorld Entry Param} {roll : TimerRoll Entry Param}

theorem walk {now : BitVec 32} {nodes : List (TimerNode Entry Param)}
    {kept : List (TimerNode Entry Param)}
    (tracks : Tracks (kept ++ nodes) world roll) (reached : now ≤ world.clock)
    (begun : ∀ node ∈ nodes, node.lastTime ≤ now)
    (allowed : WalkAllowed now kept nodes scripts world) :
    Tracks (TimerWorld.walk now kept nodes scripts world).1
        (TimerWorld.walk now kept nodes scripts world).2.1
        ((TimerWorld.walk now kept nodes scripts world).2.2.foldl
          TimerRoll.see roll) ∧
      runsOf (TimerWorld.walk now kept nodes scripts world).2.2 =
        dueRuns now nodes := by
  induction nodes generalizing kept scripts world roll with
  | nil =>
    rw [append_nil] at tracks
    exact ⟨tracks, rfl⟩
  | cons node nodes induction =>
    obtain ⟨first, later⟩ := forall_mem_cons.mp begun
    have joined : kept ++ node :: nodes = (kept ++ [node]) ++ nodes := by simp
    have member : node ∈ kept ++ node :: nodes ++ world.root.list := by simp
    have exactly :=
      TimerNode.elapsed_iff (tracks.patient node member) first
    rw [WalkAllowed] at allowed
    rw [TimerWorld.walk]
    by_cases destroy : node.runType = .destroy
    · rw [if_pos destroy] at allowed ⊢
      rw [dueRuns_cons_of_not_due (by
        simp [Timer.due, TimerNode.timer, destroy])]
      rw [joined] at tracks
      exact induction tracks reached later allowed
    · rw [if_neg destroy] at allowed ⊢
      by_cases elapsed : node.elapsed now = true
      · rw [if_pos elapsed] at allowed ⊢
        have due : node.timer.due now.toNat = true := by
          simp only [Timer.due, Bool.and_eq_true, decide_eq_true_eq]
          exact ⟨destroy, exactly.mp elapsed⟩
        obtain ⟨edits, rest⟩ := allowed
        have onward : now ≤
            (world.editAll (nextScript scripts).edits).1.clock :=
          BitVec.le_trans reached (TimerWorld.editAll_clock edits)
        have edited := (tracks.editAll edits).ran onward
          (nextScript scripts).ret
        have walked := induction edited onward later rest
        refine ⟨?_, ?_⟩
        · simpa [foldl_append] using walked.1
        · rw [dueRuns_cons_of_due due]
          change runsOf (_ ++ _ :: _) = _
          rw [TimerWorld.runsOf_append, TimerWorld.editAll_runs]
          change _ :: runsOf _ = _
          rw [walked.2]
          rfl
      · rw [if_neg elapsed] at allowed ⊢
        rw [dueRuns_cons_of_not_due (by
          simp only [Timer.due, Bool.and_eq_true, decide_eq_true_eq]
          exact fun due => elapsed (exactly.mpr due.2))]
        rw [joined] at tracks
        exact induction tracks reached later allowed

theorem update (tracks : Tracks [] world roll)
    (allowed : OpAllowed world (.update scripts)) :
    Tracks [] (world.perform (.update scripts)).1
        ((world.perform (.update scripts)).2.foldl TimerRoll.see roll) ∧
      runsOf (world.perform (.update scripts)).2 =
        roll.runs world.clock.toNat := by
  have runs : roll.runs world.clock.toNat =
      dueRuns world.clock world.root.list := by
    rw [TimerRoll.runs, tracks.timers]
    rfl
  rw [TimerWorld.perform, TimerWorld.ndTimerUpdate, runs]
  by_cases idle : world.root.num.toInt < 1
  · rw [if_pos idle]
    have none : world.root.list = [] := by
      have counted := tracks.counted
      rw [nil_append] at counted
      exact eq_nil_of_length_eq_zero (by omega)
    rw [none]
    exact ⟨tracks, rfl⟩
  · rw [if_neg idle]
    have emptied : world.root.trytoDelTimer =
        { world.root with
          delBuf := replicate world.root.delBuf.length 0 } := by
      rw [TimerRoot.trytoDelTimer,
        TimerRoot.drainSlots_of_absent tracks.unwanted]
    have detached : Tracks ([] ++ world.root.list)
        { world with root :=
          { world.root.trytoDelTimer with list := [] } } roll := by
      rw [emptied]
      have same : ([] ++ world.root.list) ++ [] = [] ++ world.root.list :=
        append_nil _
      exact
        { timers := by rw [same]; exact tracks.timers
          fresh := by rw [same]; exact tracks.fresh
          distinct := by rw [same]; exact tracks.distinct
          begun := by rw [same]; exact tracks.begun
          patient := by rw [same]; exact tracks.patient
          unwanted := fun id standing used =>
            absurd (eq_of_mem_replicate standing) used
          counted := by rw [same]; exact tracks.counted }
    have listed : world.root.trytoDelTimer.list = world.root.list := by
      rw [emptied]
    have allowed := allowed (by omega)
    dsimp only
    rw [listed] at allowed ⊢
    have walked := detached.walk (BitVec.le_refl _) tracks.begun allowed
    exact
      ⟨{ timers := walked.1.timers
         fresh := walked.1.fresh
         distinct := walked.1.distinct
         begun := walked.1.begun
         patient := walked.1.patient
         unwanted := walked.1.unwanted
         counted := walked.1.counted }, walked.2⟩

theorem perform (tracks : Tracks [] world roll) {op : TimerOp Entry Param}
    (allowed : OpAllowed world op) :
    Tracks [] (world.perform op).1
      ((world.perform op).2.foldl TimerRoll.see roll) := by
  cases op with
  | edit change => exact tracks.edit allowed
  | update scripts => exact (tracks.update allowed).1

theorem run (tracks : Tracks [] world roll) {ops : List (TimerOp Entry Param)}
    (allowed : Runs.Meets (fun world op => (world.perform op).1) OpAllowed
      world ops) :
    Tracks [] (world.after ops)
      ((world.trace ops).foldl TimerRoll.see roll) := by
  induction ops generalizing world roll with
  | nil => exact tracks
  | cons op ops induction =>
    have later := induction (tracks.perform allowed.1) allowed.2
    rw [← foldl_append] at later
    exact later

end Tracks

/-- In every run whose edits are allowed the timers are served, and the counter
is right exactly as long as no timer has left by itself. -/
theorem timerRun_law (clock : BitVec 32) (ops : List (TimerOp Entry Param))
    (allowed : Runs.Meets (fun world op => (world.perform op).1) OpAllowed
      (TimerWorld.start clock) ops) :
    TimersServed clock ops ∧
      ∀ past later, ops = past ++ later →
        (TimersCounted clock past ↔
          (TimerRoll.ofTrace
            ((TimerWorld.start clock).trace past)).expired = 0) := by
  constructor
  · rintro past scripts later rfl
    obtain ⟨before, now⟩ := Runs.meets_append.mp allowed
    exact ((Tracks.start clock).run before |>.update now.1).2
  · rintro past later rfl
    obtain ⟨before, _⟩ := Runs.meets_append.mp allowed
    have tracks := (Tracks.start clock).run before
    have counted := tracks.counted
    have timers := congrArg length tracks.timers
    rw [length_map] at timers
    change _ = _ + ((TimerRoll.ofTrace _).expired : Int) at counted
    change (TimerRoll.ofTrace _).timers.length = _ at timers
    unfold TimersCounted
    rw [counted, timers]
    omega

instance (world : TimerWorld Entry Param) :
    ∀ op, Decidable (OpAllowed world op)
  | .edit change => inferInstanceAs (Decidable (EditAllowed [] world change))
  | .update _ => inferInstanceAs (Decidable (_ → _))

/-- A timer that runs once adds a loop timer when it runs; the loop timer is
then due at the second update. -/
def addingRun : List (TimerOp Nat Nat) :=
  [.edit (.add (some 7) 0 10 .once true), .edit (.time 10),
    .update [⟨[.add (some 8) 1 20 .loop true, .del 9], 0⟩],
    .edit (.time 30), .update []]

theorem timerRun_law_adding :
    TimersServed 0 addingRun ∧ ¬ TimersCounted 0 addingRun :=
  ⟨(timerRun_law 0 addingRun (by decide)).1,
    fun counted =>
      absurd (((timerRun_law 0 addingRun (by decide)).2 addingRun [] rfl).mp
        counted) (by decide)⟩

def deletingRun : List (TimerOp Nat Nat) :=
  [.edit (.add (some 7) 0 10 .loop true), .edit (.del 1), .edit (.time 10),
    .update []]

theorem deletingRun_stops :
    ((TimerWorld.start 0).trace deletingRun).contains (.deleted 1 (-1)) ∧
      ¬ TimersServed 0 deletingRun := by
  refine ⟨by decide, ?_⟩
  intro served
  have ran := served
    [.edit (.add (some 7) 0 10 .loop true), .edit (.del 1), .edit (.time 10)]
    [] [] rfl
  exact absurd ran (by decide)

end NdNet
