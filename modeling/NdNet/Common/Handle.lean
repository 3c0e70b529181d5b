import Mathlib.Data.Multiset.AddSub
import Mathlib.Data.Multiset.Filter
import NdNet.Lib.Runs

/-!
# The callbacks of a handle

A handle keeps callbacks that release what belongs to it. They are registered
with a type, and passes over them run those of one type or, when the handle is
destroyed, all.
-/

namespace NdNet.Handle

open List

/-- `release_callback_source_node` -/
structure ReleaseNode (F P : Type) where
  func : F
  param : P
  type : Int
  deriving DecidableEq, Repr

/-- A handle, with `__release_cb_hdr` as the nodes of its ring from the front.
Beside it stand all nodes that have been registered and those whose callbacks
have been run, in this order.  The callbacks themselves leave the ring alone. -/
structure NdHandle (F P : Type) where
  releaseCbHdr : List (ReleaseNode F P)
  registered : List (ReleaseNode F P)
  called : List (ReleaseNode F P)
  deriving DecidableEq, Repr

variable {F P : Type} [DecidableEq F] [DecidableEq P]

/-- `nd_object_add_destroy_cb`; `found` says whether there is memory. -/
def addDestroyCb (handle : NdHandle F P) (callback : F) (param : P) (type : Int)
    (found : Bool) : Int × NdHandle F P :=
  if found then
    let node := ⟨callback, param, type⟩
    (0, { handle with
      releaseCbHdr := node :: handle.releaseCbHdr
      registered := handle.registered ++ [node] })
  else (-1, handle)

def delDestroyCb (handle : NdHandle F P) (callback : F) (param : P) :
    Int × NdHandle F P :=
  if handle.releaseCbHdr.isEmpty then (-1, handle)
  else
    match handle.releaseCbHdr.find? fun node =>
        node.func == callback && node.param == param with
    | none => (0, handle)
    | some node =>
      (0, { handle with
        releaseCbHdr := handle.releaseCbHdr.erase node
        called := handle.called ++ [node] })

def ofType (type : Int) (node : ReleaseNode F P) : Bool :=
  type == -1 || node.type == type

/-- The loop of `_nd_object_on_destroy`: the nodes it takes out of the ring and
those that it leaves there. -/
def onDestroyLoop (type : Int) :
    List (ReleaseNode F P) → List (ReleaseNode F P) × List (ReleaseNode F P)
  | [] => ([], [])
  | node :: ring =>
    let later := onDestroyLoop type ring
    if ofType type node then (node :: later.1, later.2)
    else (later.1, node :: later.2)

/-- `_nd_object_on_destroy`: behind the loop `INIT_LIST_HEAD` makes the ring
empty, whatever the loop has left there. -/
def onDestroy (handle : NdHandle F P) (type : Int) : Int × NdHandle F P :=
  if handle.releaseCbHdr.isEmpty then (0, handle)
  else
    (0, { handle with
      releaseCbHdr := []
      called := handle.called ++ (onDestroyLoop type handle.releaseCbHdr).1 })

/-- A call for the handle. -/
inductive HandleOp (F P : Type) where
  | addDestroyCb (callback : F) (param : P) (type : Int) (found : Bool)
  | delDestroyCb (callback : F) (param : P)
  | onDestroy (type : Int)

def step (handle : NdHandle F P) : HandleOp F P → NdHandle F P
  | .addDestroyCb callback param type found =>
    (addDestroyCb handle callback param type found).2
  | .delDestroyCb callback param => (delDestroyCb handle callback param).2
  | .onDestroy type => (onDestroy handle type).2

def start : NdHandle F P :=
  ⟨[], [], []⟩

def pending (handle : NdHandle F P) : Multiset (ReleaseNode F P) :=
  (handle.registered : Multiset (ReleaseNode F P)) - handle.called

/-- A call runs what it is for: a pass all that is pending of its type, a
deletion one callback with its function and parameter if one is pending. -/
def Serves (handle : NdHandle F P) (op : HandleOp F P) : Prop :=
  ∃ now : Multiset (ReleaseNode F P),
    ((step handle op).called : Multiset (ReleaseNode F P)) =
      handle.called + now ∧
    match op with
    | .addDestroyCb .. => now = 0
    | .onDestroy type => now = (pending handle).filter (ofType type ·)
    | .delDestroyCb callback param =>
      (∃ node ∈ pending handle, node.func = callback ∧ node.param = param ∧
          now = {node}) ∨
        now = 0 ∧ ∀ node ∈ pending handle,
          ¬ (node.func = callback ∧ node.param = param)

/-- The calls, and the destruction of the handle behind them, run every
callback once, and each call runs what it is for. -/
structure RunsOnce (ops : List (HandleOp F P)) : Prop where
  serves : Runs.Meets step Serves start (ops ++ [.onDestroy (-1)])
  once : (step (ops.foldl step start) (.onDestroy (-1))).called.Perm
    (ops.foldl step start).registered
  nothingLeft :
    (step (ops.foldl step start) (.onDestroy (-1))).releaseCbHdr = []

/-- No pass meets a callback that is not for it. -/
def MeetsItsOwn (handle : NdHandle F P) : HandleOp F P → Prop
  | .onDestroy type => ∀ node ∈ handle.releaseCbHdr, ofType type node = true
  | _ => True

section Steps

variable {handle : NdHandle F P} {op : HandleOp F P}

omit [DecidableEq F] [DecidableEq P] in
theorem onDestroyLoop_eq (type : Int) (ring : List (ReleaseNode F P)) :
    onDestroyLoop type ring =
      (ring.filter (ofType type), ring.filter fun node => !ofType type node) := by
  induction ring with
  | nil => rfl
  | cons node ring induction =>
    by_cases own : ofType type node = true <;>
      simp [onDestroyLoop, induction, own]

theorem onDestroy_ring (handle : NdHandle F P) (type : Int) :
    (step handle (.onDestroy type)).releaseCbHdr = [] := by
  cases ring : handle.releaseCbHdr <;> simp [step, onDestroy, ring]

theorem onDestroy_called (handle : NdHandle F P) (type : Int) :
    (step handle (.onDestroy type)).called =
      handle.called ++ handle.releaseCbHdr.filter (ofType type) := by
  cases ring : handle.releaseCbHdr <;>
    simp [step, onDestroy, ring, onDestroyLoop_eq]

theorem onDestroy_registered (handle : NdHandle F P) (type : Int) :
    (step handle (.onDestroy type)).registered = handle.registered := by
  cases ring : handle.releaseCbHdr <;> simp [step, onDestroy, ring]

def Accounted (handle : NdHandle F P) : Prop :=
  (handle.called ++ handle.releaseCbHdr).Perm handle.registered

def Short (handle : NdHandle F P) : Prop :=
  handle.called.length + handle.releaseCbHdr.length < handle.registered.length

theorem Accounted.pending (accounted : Accounted handle) :
    pending handle = handle.releaseCbHdr := by
  have same := Multiset.coe_eq_coe.mpr accounted
  rw [Handle.pending, ← same, ← Multiset.coe_add, Multiset.add_comm,
    Multiset.add_sub_cancel_right]

theorem delDestroyCb_cases (handle : NdHandle F P) (callback : F) (param : P) :
    (∃ node ∈ handle.releaseCbHdr, node.func = callback ∧ node.param = param ∧
        step handle (.delDestroyCb callback param) =
          { handle with
            releaseCbHdr := handle.releaseCbHdr.erase node
            called := handle.called ++ [node] }) ∨
      step handle (.delDestroyCb callback param) = handle ∧
        ∀ node ∈ handle.releaseCbHdr,
          ¬ (node.func = callback ∧ node.param = param) := by
  cases found : handle.releaseCbHdr.find? fun node =>
      node.func == callback && node.param == param with
  | none =>
    right
    constructor
    · simp only [step, delDestroyCb, found]
      split <;> rfl
    · intro node member
      simpa using find?_eq_none.mp found node member
  | some node =>
    left
    have member := mem_of_find?_eq_some found
    have same := find?_some found
    simp only [Bool.and_eq_true, beq_iff_eq] at same
    have filled : handle.releaseCbHdr ≠ [] := ne_nil_of_mem member
    exact ⟨node, member, same.1, same.2,
      by simp [step, delDestroyCb, found, filled]⟩

theorem Accounted.step (accounted : Accounted handle)
    (own : MeetsItsOwn handle op) :
    Accounted (step handle op) ∧ Serves handle op := by
  cases op with
  | addDestroyCb callback param type found =>
    cases found with
    | false => exact ⟨accounted, 0, by simp [step, addDestroyCb], rfl⟩
    | true =>
      refine ⟨?_, 0, by simp [step, addDestroyCb], rfl⟩
      exact (perm_middle.trans
        (accounted.cons _)).trans (perm_append_singleton _ _).symm
  | onDestroy type =>
    have all : handle.releaseCbHdr.filter (ofType type) =
        handle.releaseCbHdr := filter_eq_self.mpr own
    constructor
    · rw [Accounted, onDestroy_ring, onDestroy_called, onDestroy_registered,
        all, append_nil]
      exact accounted
    · refine ⟨handle.releaseCbHdr, ?_, ?_⟩
      · rw [onDestroy_called, all, Multiset.coe_add]
      · rw [accounted.pending]
        exact (Multiset.filter_eq_self.mpr fun node => own node).symm
  | delDestroyCb callback param =>
    rw [Serves]
    rcases delDestroyCb_cases handle callback param with
      ⟨node, member, func, parameter, taken⟩ | ⟨kept, absent⟩
    · rw [taken]
      constructor
      · rw [Accounted, append_assoc]
        exact ((perm_cons_erase member).symm.append_left _).trans accounted
      · refine ⟨{node}, (Multiset.coe_add _ _).symm,
          .inl ⟨node, ?_, func, parameter, rfl⟩⟩
        rw [accounted.pending]
        exact member
    · rw [kept]
      refine ⟨accounted, 0, by simp, .inr ⟨rfl, ?_⟩⟩
      rw [accounted.pending]
      exact absent

theorem Short.step (short : Short handle) : Short (step handle op) := by
  rw [Short] at short ⊢
  cases op with
  | addDestroyCb callback param type found =>
    cases found <;> simp [step, addDestroyCb] <;> omega
  | onDestroy type =>
    have fewer := length_filter_le (ofType type) handle.releaseCbHdr
    rw [onDestroy_ring, onDestroy_called, onDestroy_registered,
      length_append, length_nil]
    omega
  | delDestroyCb callback param =>
    rcases delDestroyCb_cases handle callback param with
      ⟨node, member, -, -, taken⟩ | ⟨kept, -⟩
    · have one := length_erase_add_one member
      rw [taken]
      simp only [length_append, length_singleton]
      omega
    · rw [kept]
      exact short

theorem Accounted.short (accounted : Accounted handle)
    (foreign : ¬ MeetsItsOwn handle op) : Short (Handle.step handle op) := by
  cases op with
  | addDestroyCb | delDestroyCb => exact (foreign trivial).elim
  | onDestroy type =>
    have fewer : (handle.releaseCbHdr.filter (ofType type)).length <
        handle.releaseCbHdr.length := by
      apply length_filter_lt_length_iff_exists.mpr
      simpa [MeetsItsOwn] using foreign
    have total := accounted.length_eq
    rw [length_append] at total
    rw [Short, onDestroy_ring, onDestroy_called, onDestroy_registered,
      length_append, length_nil]
    omega

end Steps

section Law

theorem meets_of_perm {handle : NdHandle F P} (accounted : Accounted handle)
    {ops : List (HandleOp F P)}
    (once : (step (ops.foldl step handle) (.onDestroy (-1))).called.Perm
      (ops.foldl step handle).registered) :
    Runs.Meets step MeetsItsOwn handle ops := by
  induction ops generalizing handle with
  | nil => trivial
  | cons op ops induction =>
    by_cases own : MeetsItsOwn handle op
    · exact ⟨own, induction (accounted.step own).1 once⟩
    have short : Short (ops.foldl step (step handle op)) :=
      Runs.invariant_of_preserved (fun _ _ short => short.step)
        (accounted.short own) ops _ (Runs.foldl_mem_states step _ ops)
    have lost : Short (step _ (.onDestroy (-1))) := short.step
    rw [Short, onDestroy_registered] at lost
    have total := once.length_eq
    rw [foldl_cons] at total
    omega

/-- Every callback runs once and in time exactly if no pass meets a callback
that is not of its type. -/
theorem runsOnce_iff (ops : List (HandleOp F P)) :
    RunsOnce ops ↔ Runs.Meets step MeetsItsOwn start ops := by
  have accounted : Accounted (start : NdHandle F P) := List.Perm.refl _
  constructor
  · intro runs
    exact meets_of_perm accounted runs.once
  · intro meets
    have whole : Runs.Meets step MeetsItsOwn start
        (ops ++ [.onDestroy (-1)]) :=
      Runs.meets_append.mpr ⟨meets, fun _ _ => rfl, trivial⟩
    have preserved (state : NdHandle F P) (op : HandleOp F P)
        (accounted : Accounted state) (own : MeetsItsOwn state op) :
        Accounted (step state op) :=
      (accounted.step own).1
    have kept := Runs.invariant_of_meets preserved accounted whole _
      (Runs.foldl_mem_states step start _)
    have nothing := onDestroy_ring (ops.foldl step start) (-1)
    refine ⟨?_, ?_, nothing⟩
    · exact whole.of_invariant
        (fun _ _ accounted own => (Accounted.step accounted own).2)
        preserved accounted
    · rw [foldl_append, foldl_cons, foldl_nil, Accounted,
        nothing, append_nil, onDestroy_registered] at kept
      exact kept

/-- A callback for the destruction is registered, and the connection is
closed first. -/
def closedFirst : List (HandleOp Nat Nat) :=
  [.addDestroyCb 1 0 0 true, .onDestroy 1]

/-- The callback never runs. -/
theorem closedFirst_not_runsOnce : ¬ RunsOnce closedFirst := by
  intro runs
  have lost := runs.once.length_eq
  exact absurd lost (by decide)

end Law

end NdNet.Handle
