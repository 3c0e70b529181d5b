import Mathlib.Order.Lattice
import Mathlib.Order.Nat
import NdNet.Lib.Journal

/-!
# The transactions of `nd_affair.h`

An `NDAffair` keeps, for every change of a store, the operation that takes it
back.  `Rollback` of the outermost level hands these to `Undo`, the last one
first.  `Commit` of the outermost level inverts them once more and hands them to
`AffairDo`: additions and deletions in their order, and behind all of them one
modification for every key that has been modified.
-/

namespace NdNet

open Journal List

/-- `eAffairOp` -/
inductive AffairOp where
  | add
  | del
  | modified
  deriving DecidableEq, Repr

/-- `back_op`; also a call of `Undo` or of `AffairDo`. -/
structure BackOp (ι ν : Type) where
  optype : AffairOp
  first : ι
  second : ν

/-- `class NDAffair`, without the flags that only its users look at. -/
structure NDAffair (ι ν : Type) where
  nCount : Int
  affairStat : Bool
  enable : Bool
  commitNtf : Bool
  dataChanged : Bool
  buf : List (BackOp ι ν)

variable {ι ν : Type}

namespace NDAffair

/-- `_affair_begin`, and `Begin` -/
def affairBegin (affair : NDAffair ι ν) : NDAffair ι ν :=
  if !affair.enable then affair
  else
    let nCount := if affair.nCount < 0 then 0 else affair.nCount
    if nCount = 0 then
      -- the transaction of an outer level cannot be open here
      { affair with nCount := nCount + 1, buf := [], affairStat := true }
    else { affair with nCount := nCount + 1 }

/-- `std::map::operator[]`, with an assignment to what it returns. -/
def changedOperates [LinearOrder ι] (index : ι) (value : ν) :
    List (ι × ν) → List (ι × ν)
  | [] => [(index, value)]
  | entry :: entries =>
    if index < entry.1 then (index, value) :: entry :: entries
    else if index = entry.1 then (index, value) :: entries
    else entry :: changedOperates index value entries

/-- The loop of `Commit` over the log: the calls of `AffairDo`, and the
modifications it has put aside. -/
def commitLoop [LinearOrder ι] :
    List (BackOp ι ν) → List (ι × ν) → List (BackOp ι ν) × List (ι × ν)
  | [], changeAffair => ([], changeAffair)
  | op :: buf, changeAffair =>
    match op.optype with
    | .add =>
      let (calls, changeAffair) := commitLoop buf changeAffair
      (⟨.del, op.first, op.second⟩ :: calls, changeAffair)
    | .del =>
      let (calls, changeAffair) := commitLoop buf changeAffair
      (⟨.add, op.first, op.second⟩ :: calls, changeAffair)
    | .modified =>
      commitLoop buf (changedOperates op.first op.second changeAffair)

def commitCalls [LinearOrder ι] (buf : List (BackOp ι ν)) :
    List (BackOp ι ν) :=
  let (calls, changeAffair) := commitLoop buf []
  calls ++ changeAffair.map fun entry => ⟨.modified, entry.1, entry.2⟩

/-- `Commit`, with the calls of `AffairDo`. -/
def commit [LinearOrder ι] (affair : NDAffair ι ν) :
    NDAffair ι ν × List (BackOp ι ν) :=
  if !affair.enable || affair.nCount < 0 then (affair, [])
  else
    let affair := { affair with nCount := affair.nCount - 1 }
    if 0 < affair.nCount then (affair, [])
    else if affair.affairStat && affair.commitNtf then
      ({ affair with
          dataChanged := affair.dataChanged || !affair.buf.isEmpty
          affairStat := false
          buf := [] }, commitCalls affair.buf)
    else ({ affair with affairStat := false, buf := [] }, [])

/-- `Rollback`, with the calls of `Undo`. -/
def rollback (affair : NDAffair ι ν) : NDAffair ι ν × List (BackOp ι ν) :=
  if !affair.enable || affair.nCount ≤ 0 then (affair, [])
  else
    let affair := { affair with nCount := affair.nCount - 1 }
    if 0 < affair.nCount then (affair, [])
    else
      ({ affair with affairStat := false, buf := [] },
        if affair.affairStat then affair.buf.reverse else [])

def affairSet (affair : NDAffair ι ν) (index : ι) (val : ν)
    (affairOp : AffairOp) : NDAffair ι ν :=
  if affair.affairStat then
    { affair with buf := affair.buf ++ [⟨affairOp, index, val⟩] }
  else affair

/-- `AffairAdd`, `AffairDel` and `AffairModify`: in a transaction `inverse` is
put into the log, otherwise `AffairDo` is called with `affairOp`. -/
def affairReport (affairOp inverse : AffairOp) (affair : NDAffair ι ν)
    (index : ι) (oldVal : ν) : NDAffair ι ν × List (BackOp ι ν) :=
  if affair.affairStat then (affair.affairSet index oldVal inverse, [])
  else ({ affair with dataChanged := true }, [⟨affairOp, index, oldVal⟩])

def affairAdd (affair : NDAffair ι ν) (index : ι) (oldVal : ν) :
    NDAffair ι ν × List (BackOp ι ν) :=
  affairReport .add .del affair index oldVal

def affairDel (affair : NDAffair ι ν) (index : ι) (oldVal : ν) :
    NDAffair ι ν × List (BackOp ι ν) :=
  affairReport .del .add affair index oldVal

def affairModify (affair : NDAffair ι ν) (index : ι) (oldVal : ν) :
    NDAffair ι ν × List (BackOp ι ν) :=
  affairReport .modified .modified affair index oldVal

end NDAffair

/-- A store with its transactions, and the calls of `AffairDo` so far. -/
structure AffairStore (ι ν : Type) where
  affair : NDAffair ι ν
  store : ι → Option ν
  calls : List (BackOp ι ν)

/-- What is done with a store: `set` adds or modifies, `erase` deletes. -/
inductive StoreOp (ι ν : Type) where
  | set (key : ι) (value : ν)
  | erase (key : ι)
  | begin
  | commit
  | rollback

/-- What the store's `Undo` does: it applies the inverse it is given. -/
def undoOp [DecidableEq ι] (store : ι → Option ν) (op : BackOp ι ν) :
    ι → Option ν :=
  Function.update store op.first
    (match op.optype with
      | .add => some op.second
      | .del => none
      | .modified => some op.second)

namespace AffairStore

variable [LinearOrder ι]

/-- One operation; every change is reported with the old value, an addition with
the new one. -/
def step (world : AffairStore ι ν) : StoreOp ι ν → AffairStore ι ν
  | .set key value =>
    let (affair, calls) :=
      match world.store key with
      | none => world.affair.affairAdd key value
      | some old => world.affair.affairModify key old
    ⟨affair, Function.update world.store key (some value), world.calls ++ calls⟩
  | .erase key =>
    match world.store key with
    | none => world
    | some old =>
      let (affair, calls) := world.affair.affairDel key old
      ⟨affair, Function.update world.store key none, world.calls ++ calls⟩
  | .begin => { world with affair := world.affair.affairBegin }
  | .commit =>
    let (affair, calls) := world.affair.commit
    ⟨affair, world.store, world.calls ++ calls⟩
  | .rollback =>
    let (affair, calls) := world.affair.rollback
    ⟨affair, calls.foldl undoOp world.store, world.calls⟩

def run (world : AffairStore ι ν) (ops : List (StoreOp ι ν)) :
    AffairStore ι ν :=
  ops.foldl step world

end AffairStore

/-- Changes, and levels that are opened and closed in the right order. -/
inductive StoreOp.Nested : List (StoreOp ι ν) → Prop
  | nil : Nested []
  | set {ops : List (StoreOp ι ν)} (key : ι) (value : ν) :
      Nested ops → Nested (.set key value :: ops)
  | erase {ops : List (StoreOp ι ν)} (key : ι) :
      Nested ops → Nested (.erase key :: ops)
  | level {inner ops : List (StoreOp ι ν)} {close : StoreOp ι ν} :
      Nested inner → close = .commit ∨ close = .rollback → Nested ops →
        Nested (.begin :: inner ++ close :: ops)

/-- No level is open, and transactions are enabled. -/
structure NDAffair.Idle (affair : NDAffair ι ν) : Prop where
  closed : affair.nCount ≤ 0
  stat : affair.affairStat = false
  enabled : affair.enable = true

def BackOp.note (call : BackOp ι ν) : Note ι :=
  match call.optype with
  | .add => .added call.first
  | .del => .deleted call.first
  | .modified => .modified call.first

namespace StoreOp

variable [LinearOrder ι]

/-- The content of a store after some operations inside a transaction. -/
def contents (store : ι → Option ν) : List (StoreOp ι ν) → ι → Option ν
  | [] => store
  | .set key value :: ops =>
    contents (Function.update store key (some value)) ops
  | .erase key :: ops => contents (Function.update store key none) ops
  | .begin :: ops => contents store ops
  | .commit :: ops => contents store ops
  | .rollback :: ops => contents store ops

/-- The keys that are given a new value while they are there. -/
def modified (store : ι → Option ν) : List (StoreOp ι ν) → List ι
  | [] => []
  | .set key value :: ops =>
    (if (store key).isSome then [key] else []) ++
      modified (Function.update store key (some value)) ops
  | .erase key :: ops => modified (Function.update store key none) ops
  | .begin :: ops => modified store ops
  | .commit :: ops => modified store ops
  | .rollback :: ops => modified store ops

end StoreOp

namespace StoreOp

variable [LinearOrder ι]

theorem contents_append (store : ι → Option ν) (ops later : List (StoreOp ι ν))
    :
    contents store (ops ++ later) = contents (contents store ops) later := by
  induction ops generalizing store with
  | nil => rfl
  | cons op ops induction =>
    cases op with
    | set key value | erase key | begin | commit | rollback => exact induction _

theorem modified_append (store : ι → Option ν) (ops later : List (StoreOp ι ν))
    :
    modified store (ops ++ later) =
      modified store ops ++ modified (contents store ops) later := by
  induction ops generalizing store with
  | nil => rfl
  | cons op ops induction =>
    cases op with
    | set key value =>
      refine (congrArg (_ ++ ·) (induction _)).trans ?_
      exact (append_assoc _ _ _).symm
    | erase key | begin | commit | rollback => exact induction _

end StoreOp

namespace BackOp

def entry (op : BackOp ι ν) : ι × Option ν :=
  (op.first, match op.optype with
    | .add => some op.second
    | .del => none
    | .modified => some op.second)

def told (op : BackOp ι ν) : Option (Note ι) :=
  match op.optype with
  | .add => some (.deleted op.first)
  | .del => some (.added op.first)
  | .modified => none

def aside (op : BackOp ι ν) : Option ι :=
  match op.optype with
  | .modified => some op.first
  | _ => none

end BackOp

section Log

variable [LinearOrder ι]

theorem foldl_undoOp (buf : List (BackOp ι ν)) (store : ι → Option ν) :
    buf.reverse.foldl undoOp store = undo (buf.map BackOp.entry) store := by
  rw [foldl_reverse, undo, foldr_map]
  rfl

namespace NDAffair

theorem mem_changedOperates (index key : ι) (value : ν) (entries : List (ι × ν))
    :
    key ∈ (changedOperates index value entries).map Prod.fst ↔
      key = index ∨ key ∈ entries.map Prod.fst := by
  induction entries with
  | nil => simp [changedOperates]
  | cons entry entries induction =>
    rw [changedOperates]
    split
    · simp
    · split
      next same => simp [same]
      next =>
        rw [map_cons, mem_cons, induction, map_cons, mem_cons]
        exact or_left_comm

theorem commitLoop_notes (buf : List (BackOp ι ν)) (changes : List (ι × ν)) :
    (commitLoop buf changes).1.map BackOp.note =
      buf.filterMap BackOp.told := by
  induction buf generalizing changes with
  | nil => rfl
  | cons op buf induction =>
    rw [filterMap_cons]
    unfold BackOp.told commitLoop
    cases op.optype with
    | add | del => exact congrArg (_ :: ·) (induction changes)
    | modified => exact induction _

theorem mem_commitLoop (buf : List (BackOp ι ν)) (changes : List (ι × ν))
    (key : ι) :
    key ∈ (commitLoop buf changes).2.map Prod.fst ↔
      key ∈ changes.map Prod.fst ∨ key ∈ buf.filterMap BackOp.aside := by
  induction buf generalizing changes with
  | nil => simp [commitLoop]
  | cons op buf induction =>
    rw [filterMap_cons]
    unfold BackOp.aside commitLoop
    cases op.optype with
    | add | del => exact induction changes
    | modified =>
      refine (induction _).trans ?_
      rw [mem_changedOperates, mem_cons]
      exact or_assoc.trans or_left_comm

/-- The announcements of `Commit` make sense if the additions and deletions do
and every key that has been modified is there behind them. -/
theorem announce_commitCalls {before after : ι → Bool} {buf : List (BackOp ι ν)}
    (direct : announce before (buf.filterMap BackOp.told) = some after) :
    announce before ((commitCalls buf).map BackOp.note) = some after ↔
      ∀ key ∈ buf.filterMap BackOp.aside, after key = true := by
  have split : (commitCalls buf).map BackOp.note =
      buf.filterMap BackOp.told ++
        ((commitLoop buf []).2.map Prod.fst).map .modified := by
    unfold commitCalls
    rw [map_append, commitLoop_notes, map_map, map_map]
    rfl
  rw [split, announce_append, direct, Option.bind_some, announce_modified]
  constructor
  · intro all key member
    exact all key ((mem_commitLoop buf [] key).mpr (.inr member))
  · intro all key member
    rcases (mem_commitLoop buf [] key).mp member with none | aside
    · exact absurd none not_mem_nil
    · exact all key aside

end NDAffair

/-- A transaction that has been opened over `first` stands at a level: its log
undoes all changes, and tells in its order which keys have come and gone. -/
structure AffairStore.Open (first : AffairStore ι ν) (depth : Nat)
    (world : AffairStore ι ν) : Prop where
  counted : world.affair.nCount = depth + 1
  stat : world.affair.affairStat = true
  enabled : world.affair.enable = true
  notified : world.affair.commitNtf = first.affair.commitNtf
  silent : world.calls = first.calls
  undone :
    undo (world.affair.buf.map BackOp.entry) world.store = first.store
  direct : announce (present first.store)
    (world.affair.buf.filterMap BackOp.told) = some (present world.store)

namespace AffairStore.Open

variable {first world : AffairStore ι ν} {depth : Nat}

theorem begin_idle (idle : world.affair.Idle) :
    Open world 0 (world.step .begin) ∧
      (world.step .begin).affair.buf = [] := by
  have count : (if world.affair.nCount < 0 then 0 else world.affair.nCount) =
      0 := by
    have := idle.closed
    split <;> omega
  have opened : world.affair.affairBegin =
      { world.affair with nCount := 1, buf := [], affairStat := true } := by
    simp only [NDAffair.affairBegin, idle.enabled, count, Bool.not_true,
      Bool.false_eq_true, if_false, if_true]
    rfl
  simp only [AffairStore.step, opened]
  refine ⟨?_, trivial⟩
  constructor
  · rfl
  · rfl
  · exact idle.enabled
  · rfl
  · rfl
  · rfl
  · rfl

theorem begin_inner (opened : Open first depth world) :
    Open first (depth + 1) (world.step .begin) ∧
      (world.step .begin).affair.buf = world.affair.buf ∧
      (world.step .begin).store = world.store := by
  have step : world.affair.affairBegin =
      { world.affair with nCount := depth + 1 + 1 } := by
    simp only [NDAffair.affairBegin, opened.enabled, opened.counted,
      Bool.not_true, Bool.false_eq_true, if_false]
    rw [if_neg (by omega), if_neg (by omega)]
  simp only [AffairStore.step, step]
  exact ⟨{ opened with counted := by push_cast; rfl }, trivial, trivial⟩

/-- `Commit` or `Rollback` of an inner level. -/
theorem close_inner (opened : Open first (depth + 1) world)
    {close : StoreOp ι ν} (closes : close = .commit ∨ close = .rollback) :
    Open first depth (world.step close) ∧
      (world.step close).affair.buf = world.affair.buf ∧
      (world.step close).store = world.store := by
  have counted := opened.counted
  push_cast at counted
  have step : world.step close =
      { world with affair := { world.affair with nCount := depth + 1 } } := by
    rcases closes with commit | rollback
    · subst commit
      simp only [AffairStore.step, NDAffair.commit, opened.enabled, counted,
        Bool.not_true, Bool.false_or, decide_eq_true_eq]
      rw [if_neg (by omega), if_pos (by omega)]
      simp
    · subst rollback
      simp only [AffairStore.step, NDAffair.rollback, opened.enabled, counted,
        Bool.not_true, Bool.false_or, decide_eq_true_eq]
      rw [if_neg (by omega), if_pos (by omega)]
      simp
  rw [step]
  exact ⟨{ opened with counted := rfl }, rfl, rfl⟩

theorem change (opened : Open first depth world) (key : ι) (value : Option ν)
    (op : BackOp ι ν) (entered : op.entry = (key, world.store key))
    (possible : announce (present world.store) op.told.toList =
      some (Function.update (present world.store) key value.isSome)) :
    Open first depth
      ⟨{ world.affair with buf := world.affair.buf ++ [op] },
        Function.update world.store key value, world.calls⟩ :=
  { opened with
    undone := by
      rw [map_append, map_singleton, entered, undo_write, opened.undone]
    direct := by
      have last : [op].filterMap BackOp.told = op.told.toList := by
        rw [filterMap_cons]
        cases op.told with
        | none | some note => rfl
      rw [filterMap_append, last, announce_append, opened.direct,
        Option.bind_some, possible, present_update] }

theorem set (opened : Open first depth world) (key : ι) (value : ν) :
    Open first depth (world.step (.set key value)) ∧
      (world.step (.set key value)).affair.buf.filterMap BackOp.aside =
        world.affair.buf.filterMap BackOp.aside ++
          (if (world.store key).isSome then [key] else []) ∧
      (world.step (.set key value)).store =
        Function.update world.store key (some value) := by
  cases held : world.store key with
  | none =>
    have step : world.step (.set key value) =
        ⟨{ world.affair with
            buf := world.affair.buf ++ [⟨.del, key, value⟩] },
          Function.update world.store key (some value), world.calls⟩ := by
      simp only [AffairStore.step, held, NDAffair.affairAdd,
        NDAffair.affairReport, NDAffair.affairSet, opened.stat, if_true,
        append_nil]
    rw [step]
    refine ⟨opened.change key (some value) _ ?_ ?_, ?_, rfl⟩
    · exact congrArg (key, ·) held.symm
    · have absent : present world.store key = false := by
        unfold present
        rw [held]
        rfl
      simp [BackOp.told, announce, Note.apply, absent]
    · rw [filterMap_append]
      rfl
  | some old =>
    have step : world.step (.set key value) =
        ⟨{ world.affair with
            buf := world.affair.buf ++ [⟨.modified, key, old⟩] },
          Function.update world.store key (some value), world.calls⟩ := by
      simp only [AffairStore.step, held, NDAffair.affairModify,
        NDAffair.affairReport, NDAffair.affairSet, opened.stat, if_true,
        append_nil]
    rw [step]
    refine ⟨opened.change key (some value) _ ?_ ?_, ?_, rfl⟩
    · exact congrArg (key, ·) held.symm
    · have there : present world.store key = true := by
        unfold present
        rw [held]
        rfl
      have same : Function.update (present world.store) key true =
          present world.store := by
        rw [← there, Function.update_eq_self]
      exact congrArg some same.symm
    · rw [filterMap_append]
      rfl

theorem erase (opened : Open first depth world) (key : ι) :
    Open first depth (world.step (.erase key)) ∧
      (world.step (.erase key)).affair.buf.filterMap BackOp.aside =
        world.affair.buf.filterMap BackOp.aside ∧
      (world.step (.erase key)).store =
        Function.update world.store key none := by
  cases held : world.store key with
  | none =>
    have step : world.step (.erase key) = world := by
      simp only [AffairStore.step, held]
    have same : Function.update world.store key none = world.store := by
      rw [← held, Function.update_eq_self]
    rw [step, same]
    exact ⟨opened, rfl, rfl⟩
  | some old =>
    have step : world.step (.erase key) =
        ⟨{ world.affair with
            buf := world.affair.buf ++ [⟨.add, key, old⟩] },
          Function.update world.store key none, world.calls⟩ := by
      simp only [AffairStore.step, held, NDAffair.affairDel,
        NDAffair.affairReport, NDAffair.affairSet, opened.stat, if_true,
        append_nil]
    rw [step]
    refine ⟨opened.change key none _ ?_ ?_, ?_, rfl⟩
    · exact congrArg (key, ·) held.symm
    · have there : present world.store key = true := by
        unfold present
        rw [held]
        rfl
      simp [BackOp.told, announce, Note.apply, there]
    · rw [filterMap_append]
      exact append_nil _

/-- Changes and inner levels leave the transaction open.  Its log puts aside
what has been modified. -/
theorem nested {ops : List (StoreOp ι ν)} (wellNested : StoreOp.Nested ops)
    (opened : Open first depth world) :
    Open first depth (world.run ops) ∧
      (world.run ops).affair.buf.filterMap BackOp.aside =
        world.affair.buf.filterMap BackOp.aside ++
          StoreOp.modified world.store ops ∧
      (world.run ops).store = StoreOp.contents world.store ops := by
  induction wellNested generalizing world depth with
  | nil => exact ⟨opened, (append_nil _).symm, rfl⟩
  | set key value _ induction =>
    obtain ⟨next, aside, store⟩ := opened.set key value
    obtain ⟨kept, later, content⟩ := induction next
    rw [store] at later content
    refine ⟨kept, later.trans ?_, content⟩
    rw [aside, append_assoc, StoreOp.modified]
  | erase key _ induction =>
    obtain ⟨next, aside, store⟩ := opened.erase key
    obtain ⟨kept, later, content⟩ := induction next
    rw [aside, store] at later
    rw [store] at content
    exact ⟨kept, later, content⟩
  | @level inner ops close _ closes _ innerInduction induction =>
    obtain ⟨deeper, bufBegin, storeBegin⟩ := opened.begin_inner
    obtain ⟨within, asideInner, storeInner⟩ := innerInduction deeper
    obtain ⟨back, bufClose, storeClose⟩ := within.close_inner closes
    obtain ⟨kept, later, content⟩ := induction back
    have runs : world.run (.begin :: inner ++ close :: ops) =
        ((((world.step .begin).run inner).step close).run ops) := by
      simp only [AffairStore.run, cons_append, foldl_cons, foldl_append]
    have modified : StoreOp.modified world.store
        (.begin :: inner ++ close :: ops) =
          StoreOp.modified world.store inner ++
            StoreOp.modified (StoreOp.contents world.store inner) ops := by
      refine (StoreOp.modified_append world.store inner _).trans ?_
      rcases closes with commit | rollback
      · rw [commit, StoreOp.modified]
      · rw [rollback, StoreOp.modified]
    have contents : StoreOp.contents world.store
        (.begin :: inner ++ close :: ops) =
          StoreOp.contents (StoreOp.contents world.store inner) ops := by
      refine (StoreOp.contents_append world.store inner _).trans ?_
      rcases closes with commit | rollback
      · rw [commit, StoreOp.contents]
      · rw [rollback, StoreOp.contents]
    rw [storeClose, storeInner, storeBegin] at later content
    rw [bufClose, asideInner, bufBegin, storeBegin] at later
    rw [runs, modified, contents, ← append_assoc]
    exact ⟨kept, later, content⟩

/-- `Rollback` of the outermost level takes everything back. -/
theorem rollback (opened : Open first 0 world) :
    world.step .rollback =
      ⟨{ world.affair with nCount := 0, affairStat := false, buf := [] },
        first.store, world.calls⟩ := by
  have counted : world.affair.nCount = 1 := opened.counted
  simp only [AffairStore.step, NDAffair.rollback, opened.enabled, counted,
    opened.stat, Bool.not_true, Bool.false_or, decide_eq_true_eq]
  rw [if_neg (by omega), if_neg (by omega)]
  simp only [if_true, foldl_undoOp, opened.undone]
  rfl

/-- `Commit` of the outermost level leaves the store, and with notifications
enabled calls `AffairDo` for the log. -/
theorem commit (opened : Open first 0 world) :
    (world.step .commit).affair.nCount = 0 ∧
      (world.step .commit).affair.buf = [] ∧
      (world.step .commit).store = world.store ∧
      (first.affair.commitNtf = true → (world.step .commit).calls =
        first.calls ++ NDAffair.commitCalls world.affair.buf) := by
  have counted : world.affair.nCount = 1 := opened.counted
  cases notified : first.affair.commitNtf with
  | true =>
    have on : world.affair.commitNtf = true :=
      opened.notified.trans notified
    simp only [AffairStore.step, NDAffair.commit, opened.enabled, counted,
      opened.stat, on, opened.silent, Bool.not_true, Bool.false_or,
      decide_eq_true_eq]
    simp
  | false =>
    have off : world.affair.commitNtf = false :=
      opened.notified.trans notified
    simp only [AffairStore.step, NDAffair.commit, opened.enabled, counted,
      opened.stat, off, Bool.not_true, Bool.false_or, decide_eq_true_eq]
    simp

end AffairStore.Open

namespace AffairStore

/-- Both ways to close a transaction do what they are for: `Rollback` gives
back the old content, and the calls of `AffairDo` that `Commit` makes lead from
the old keys to the new ones, each of them possible at its place. -/
def Transacts (world : AffairStore ι ν) (body : List (StoreOp ι ν)) : Prop :=
  let back := world.run (.begin :: body ++ [.rollback])
  let done := world.run (.begin :: body ++ [.commit])
  (back.store = world.store ∧ back.affair.nCount = 0 ∧ back.affair.buf = []) ∧
  (done.affair.nCount = 0 ∧ done.affair.buf = []) ∧
  (world.affair.commitNtf = true →
    ∃ calls, done.calls = world.calls ++ calls ∧
      announce (present world.store) (calls.map BackOp.note) =
        some (present done.store))

/-- A transaction does that exactly if every key that is modified in it is
there when it is committed. -/
theorem transacts_iff {world : AffairStore ι ν} (idle : world.affair.Idle)
    {body : List (StoreOp ι ν)} (wellNested : StoreOp.Nested body) :
    world.Transacts body ↔
      (world.affair.commitNtf = true →
        ∀ key ∈ StoreOp.modified world.store body,
          present (StoreOp.contents world.store body) key = true) := by
  obtain ⟨start, emptyLog⟩ := Open.begin_idle idle
  obtain ⟨opened, aside, content⟩ := start.nested wellNested
  rw [emptyLog] at aside
  have closes (close : StoreOp ι ν) :
      world.run (.begin :: body ++ [close]) =
        ((world.step .begin).run body).step close := by
    simp only [run, cons_append, foldl_cons, foldl_append, foldl_nil]
  obtain ⟨count, emptied, kept, calls⟩ := opened.commit
  have told := NDAffair.announce_commitCalls opened.direct
  rw [aside, content] at told
  unfold Transacts
  rw [closes, closes, opened.rollback]
  constructor
  · rintro ⟨_, _, announced⟩ notified
    obtain ⟨made, madeCalls, sensible⟩ := announced notified
    have same : NDAffair.commitCalls
        ((world.step .begin).run body).affair.buf = made :=
      append_cancel_left ((calls notified).symm.trans madeCalls)
    rw [kept, content, ← same] at sensible
    exact told.mp sensible
  · intro there
    refine ⟨⟨rfl, rfl, rfl⟩, ⟨count, emptied⟩, fun notified => ?_⟩
    refine ⟨_, calls notified, ?_⟩
    rw [kept, content]
    exact told.mpr (there notified)

theorem transacts_iff_inner :
    (⟨⟨0, false, true, true, false, []⟩, fun _ => none, []⟩ :
      AffairStore Nat Nat).Transacts
        [.set 1 6, .begin, .set 1 7, .rollback, .erase 2] :=
  (transacts_iff ⟨Int.le_refl 0, rfl, rfl⟩
    (.set 1 6 (.level (.set 1 7 .nil) (.inr rfl) (.erase 2 .nil)))).mpr
      fun _ => forall_mem_singleton.mpr rfl

/-- A key that is modified and deleted is announced as modified when it is gone
already. -/
theorem modified_erased_not_transacts :
    ¬ Transacts
      (⟨⟨0, false, true, true, false, []⟩,
        fun key => if key = 1 then some 5 else none, []⟩ : AffairStore Nat Nat)
      [.set 1 6, .erase 1] := by
  intro transacts
  obtain ⟨calls, made, announced⟩ := transacts.2.2 rfl
  have same : calls = [⟨.del, 1, 6⟩, ⟨.modified, 1, 5⟩] := made.symm
  rw [same] at announced
  cases announced

end AffairStore

end Log

end NdNet
