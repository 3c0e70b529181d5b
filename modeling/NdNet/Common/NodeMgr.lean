import NdNet.Lib.Runs
import Mathlib.Data.List.Count
import Mathlib.Data.List.Nodup

/-!
# The node manager of `node_mgr.c`

`node_root` hands out ids for objects: slot `i` of its table belongs to the id
`base_id + i`, and a slot remembers whether it is taken, the thread that owns
the node and the address of the object.  Objects are taken from an arbitrary
type; a pointer is an optional object.

Beside the table a run keeps the nodes that are live, as a client of the
manager would count them from the answers he got. `Keeps` says how the table
stands for these nodes.
-/

namespace NdNet

open List

/-- `struct srvnode_info` -/
structure SrvnodeInfo (α : Type) where
  used : Int
  owner : Nat
  nodeAddr : Option α
  deriving DecidableEq, Repr

/-- `struct node_root`, as far as the operations below use it. -/
structure NodeRoot (α : Type) where
  maxConnNum : Nat
  connectNum : Int
  baseId : Nat
  param : Nat
  connmgrAddr : List (SrvnodeInfo α)
  deriving DecidableEq, Repr

/-- `node_iterator`; all three fields have 16 bits. -/
structure NodeIterator where
  nodeId : Nat
  numbers : Nat
  total : Nat
  deriving DecidableEq, Repr

namespace NodeRoot

open Runs

variable {α : Type}

/-- A slot as `memset` leaves it. -/
def clearInfo : SrvnodeInfo α :=
  { used := 0
    owner := 0
    nodeAddr := none }

def create (maxNum startId : Nat) : NodeRoot α :=
  { maxConnNum := maxNum
    connectNum := 0
    baseId := startId
    param := 0
    connmgrAddr := List.replicate maxNum clearInfo }

/-- `root->connmgr_addr[index]` -/
def info (root : NodeRoot α) (index : Nat) : SrvnodeInfo α :=
  root.connmgrAddr.getD index clearInfo

/-- `node_id - root->base_id`, if this is the index of a slot. -/
def indexOf (root : NodeRoot α) (nodeId : Nat) : Option Nat :=
  if root.baseId ≤ nodeId ∧ nodeId < root.baseId + root.maxConnNum then
    some (nodeId - root.baseId)
  else none

/-- The loop of `_nd_node_accept`, with the number of rounds that are left. -/
def acceptLoop (root : NodeRoot α) (self : Nat) (socketNode : α) :
    Nat → Nat → Nat × NodeRoot α
  | 0, _ => (0, root)
  | rounds + 1, next =>
    let index := if root.maxConnNum ≤ next then 0 else next
    if (root.info index).used = 0 then
      ((index + root.baseId) % 65536,
        { root with
          connectNum := root.connectNum + 1
          connmgrAddr := root.connmgrAddr.set index
            { used := 1
              owner := self
              nodeAddr := some socketNode } })
    else root.acceptLoop self socketNode rounds (index + 1)

/-- `_nd_node_accept`, called by the thread `self`. -/
def accept (root : NodeRoot α) (self : Nat) (socketNode : α) :
    Nat × NodeRoot α :=
  root.acceptLoop self socketNode root.maxConnNum root.param

def deaccept (root : NodeRoot α) (nodeId : Nat) : Int × NodeRoot α :=
  match root.indexOf nodeId with
  | none => (-1, root)
  | some index =>
    (0,
      { root with
        connectNum := root.connectNum - 1
        connmgrAddr := root.connmgrAddr.set index clearInfo })

/-- `_nd_node_lock`, called by the thread `self`; `trylock`, `safe_lock` and
`search` are the same function. -/
def lock (root : NodeRoot α) (self nodeId : Nat) : Option α :=
  match root.indexOf nodeId with
  | none => none
  | some index =>
    if (root.info index).used = 0 then none
    else if (root.info index).owner ≠ self then none
    else (root.info index).nodeAddr

def setOwner (root : NodeRoot α) (nodeId owner : Nat) : NodeRoot α :=
  match root.indexOf nodeId with
  | none => root
  | some index =>
    { root with
      connmgrAddr := root.connmgrAddr.set index
        { root.info index with owner := owner } }

def getOwner (root : NodeRoot α) (nodeId : Nat) : Nat :=
  match root.indexOf nodeId with
  | none => 0
  | some index => (root.info index).owner

def changeOwnerLoop (root : NodeRoot α) (owner : Nat) :
    Nat → Nat → NodeRoot α
  | 0, _ => root
  | rounds + 1, nodeId =>
    (root.setOwner nodeId owner).changeOwnerLoop owner rounds
      ((nodeId + 1) % 65536)

/-- `nd_node_change_owner`.  The number of nodes is read once and never counted
down, so the loop runs over all slots or over none. -/
def changeOwner (root : NodeRoot α) (owner : Nat) : NodeRoot α :=
  if 0 < root.connectNum then
    root.changeOwnerLoop owner root.maxConnNum (root.baseId % 65536)
  else root

/-- The loops of `_nd_node_lock_first` and `_nd_node_lock_next` over the slots
that are left.  Only the second one stops at the number of nodes. -/
def lockWalk (self : Nat) (counted : Bool) :
    List (SrvnodeInfo α) → NodeIterator → Option α × NodeIterator
  | [], it => (none, { it with nodeId := 0 })
  | node :: nodes, it =>
    if counted ∧ it.total ≤ it.numbers then (none, { it with nodeId := 0 })
    else
      let seen :=
        if 0 < node.used then
          { it with numbers := (it.numbers + 1) % 65536 }
        else it
      if 0 < node.used ∧ node.owner = self then (node.nodeAddr, seen)
      else
        lockWalk self counted nodes
          { seen with nodeId := (seen.nodeId + 1) % 65536 }

def lockFirst (root : NodeRoot α) (self : Nat) (it : NodeIterator) :
    Option α × NodeIterator :=
  if root.connectNum < 1 then (none, it)
  else
    lockWalk self false root.connmgrAddr
      { nodeId := root.baseId % 65536
        numbers := 0
        total := (root.connectNum % 65536).toNat }

def lockNext (root : NodeRoot α) (self : Nat) (it : NodeIterator) :
    Option α × NodeIterator :=
  lockWalk self true
    (root.connmgrAddr.drop ((it.nodeId : Int) - root.baseId + 1).toNat)
    { it with nodeId := (it.nodeId + 1) % 65536 }

/-- The loop in which the callers go on with `lock_next` until it gives `NULL`:
the ids and the objects they get, if the loop ends within `fuel` calls. -/
def visit (root : NodeRoot α) (self : Nat) :
    Nat → Option α × NodeIterator → Option (List (Nat × α))
  | 0, _ => none
  | _ + 1, (none, _) => some []
  | fuel + 1, (some addr, it) =>
    (root.visit self fuel (root.lockNext self it)).map ((it.nodeId, addr) :: ·)

/-- A scan with `lock_first` and `lock_next`. -/
def scan (root : NodeRoot α) (self : Nat) (it : NodeIterator) (fuel : Nat) :
    Option (List (Nat × α)) :=
  root.visit self fuel (root.lockFirst self it)

end NodeRoot

/-- A node between its accept and its deaccept. -/
structure LiveNode (α : Type) where
  id : Nat
  addr : α
  owner : Nat
  deriving DecidableEq, Repr

/-- The manager and the nodes its answers have made live. -/
structure NodeMgr (α : Type) where
  root : NodeRoot α
  live : List (LiveNode α)
  deriving DecidableEq, Repr

inductive NodeCall (α : Type) where
  | accept (self : Nat) (socketNode : α)
  | deaccept (nodeId : Nat)
  | setOwner (nodeId owner : Nat)
  | changeOwner (owner : Nat)
  deriving DecidableEq, Repr

variable {index : Nat}

namespace NodeMgr

open Runs NodeRoot

variable {α : Type}

def Live (mgr : NodeMgr α) (nodeId : Nat) : Prop :=
  ∃ node ∈ mgr.live, node.id = nodeId

instance (mgr : NodeMgr α) (nodeId : Nat) : Decidable (mgr.Live nodeId) :=
  inferInstanceAs (Decidable (∃ node ∈ mgr.live, node.id = nodeId))

def ownNode (nodeId owner : Nat) (node : LiveNode α) : LiveNode α :=
  if node.id = nodeId then { node with owner := owner } else node

def nodeStep (mgr : NodeMgr α) : NodeCall α → NodeMgr α
  | .accept self socketNode =>
    let answer := mgr.root.accept self socketNode
    { root := answer.2
      live :=
        if answer.1 = 0 then mgr.live
        else mgr.live ++ [⟨answer.1, socketNode, self⟩] }
  | .deaccept nodeId =>
    { root := (mgr.root.deaccept nodeId).2
      live := mgr.live.filter (fun node => node.id ≠ nodeId) }
  | .setOwner nodeId owner =>
    { root := mgr.root.setOwner nodeId owner
      live := mgr.live.map (ownNode nodeId owner) }
  | .changeOwner owner =>
    { root := mgr.root.changeOwner owner
      live := mgr.live.map (fun node => { node with owner := owner }) }

def Allowed (mgr : NodeMgr α) : NodeCall α → Prop
  | .deaccept nodeId => mgr.Live nodeId
  | _ => True

def OwnsLive (mgr : NodeMgr α) : NodeCall α → Prop
  | .setOwner nodeId owner =>
    owner = 0 ∨ mgr.root.indexOf nodeId = none ∨ mgr.Live nodeId
  | .changeOwner owner =>
    owner = 0 ∨ mgr.live = [] ∨ mgr.live.length = mgr.root.maxConnNum
  | _ => True

instance (mgr : NodeMgr α) : (call : NodeCall α) → Decidable (mgr.Allowed call)
  | .accept _ _ => .isTrue trivial
  | .deaccept nodeId => inferInstanceAs (Decidable (mgr.Live nodeId))
  | .setOwner _ _ => .isTrue trivial
  | .changeOwner _ => .isTrue trivial

instance [DecidableEq α] (mgr : NodeMgr α) :
    (call : NodeCall α) → Decidable (mgr.OwnsLive call)
  | .accept _ _ => .isTrue trivial
  | .deaccept _ => .isTrue trivial
  | .setOwner nodeId owner =>
    inferInstanceAs (Decidable
      (owner = 0 ∨ mgr.root.indexOf nodeId = none ∨ mgr.Live nodeId))
  | .changeOwner owner =>
    inferInstanceAs (Decidable
      (owner = 0 ∨ mgr.live = [] ∨ mgr.live.length = mgr.root.maxConnNum))

/-- What the users of the manager rely on. -/
structure Law (mgr : NodeMgr α) : Prop where
  distinct : (mgr.live.map LiveNode.id).Nodup
  inRange : ∀ node ∈ mgr.live,
    mgr.root.baseId ≤ node.id ∧ node.id < mgr.root.baseId + mgr.root.maxConnNum
  accept_zero : ∀ self socketNode,
    (mgr.root.accept self socketNode).1 = 0 ↔
      mgr.live.length = mgr.root.maxConnNum
  count : mgr.root.connectNum = mgr.live.length
  dead : ∀ nodeId, ¬ mgr.Live nodeId → mgr.root.getOwner nodeId = 0
  lock_iff : ∀ self nodeId addr,
    mgr.root.lock self nodeId = some addr ↔ ⟨nodeId, addr, self⟩ ∈ mgr.live
  scan_owned : ∀ self it fuel, mgr.root.maxConnNum < fuel →
    ∃ visited, mgr.root.scan self it fuel = some visited ∧
      (visited.map Prod.fst).Pairwise (· < ·) ∧
      ∀ nodeId addr, (nodeId, addr) ∈ visited ↔ ⟨nodeId, addr, self⟩ ∈ mgr.live

/-- The table stands for the live nodes: their slots hold their data, every
other slot is clear. -/
structure Keeps (mgr : NodeMgr α) : Prop where
  base_pos : 1 ≤ mgr.root.baseId
  ids_fit : mgr.root.baseId + mgr.root.maxConnNum ≤ 65536
  param_zero : mgr.root.param = 0
  length : mgr.root.connmgrAddr.length = mgr.root.maxConnNum
  distinct : (mgr.live.map LiveNode.id).Nodup
  inRange : ∀ node ∈ mgr.live,
    mgr.root.baseId ≤ node.id ∧ node.id < mgr.root.baseId + mgr.root.maxConnNum
  slot : ∀ node ∈ mgr.live,
    mgr.root.info (node.id - mgr.root.baseId) = ⟨1, node.owner, some node.addr⟩
  clear : ∀ index < mgr.root.maxConnNum,
    ¬ mgr.Live (mgr.root.baseId + index) → mgr.root.info index = clearInfo
  count : mgr.root.connectNum = mgr.live.length
  used : mgr.root.connmgrAddr.countP (fun node => 0 < node.used) =
    mgr.live.length

variable {node : SrvnodeInfo α}

section Slots

variable {root : NodeRoot α}

theorem indexOf_eq_some {nodeId index : Nat} :
    root.indexOf nodeId = some index ↔
      nodeId = root.baseId + index ∧ index < root.maxConnNum := by
  unfold NodeRoot.indexOf
  split
  · rw [Option.some.injEq]
    omega
  · simp only [reduceCtorEq, false_iff]
    omega

theorem indexOf_eq_none {nodeId : Nat} :
    root.indexOf nodeId = none ↔
      ¬ (root.baseId ≤ nodeId ∧ nodeId < root.baseId + root.maxConnNum) := by
  unfold NodeRoot.indexOf
  split <;> simp_all

theorem info_set {index other : Nat} {num : Int}
    (inside : index < root.connmgrAddr.length) :
    NodeRoot.info
        { root with
          connectNum := num
          connmgrAddr := root.connmgrAddr.set index node } other =
      if other = index then node else root.info other := by
  unfold NodeRoot.info
  rw [getD_eq_getElem?_getD, getD_eq_getElem?_getD, getElem?_set]
  split
  · rename_i same
    rw [if_pos same.symm]
    exact rfl
  · rename_i differs
    rw [if_neg (Ne.symm differs)]

theorem info_eq_getElem (inside : index < root.connmgrAddr.length)
    :
    root.info index = root.connmgrAddr[index] := by
  unfold NodeRoot.info
  rw [getD_eq_getElem?_getD, getElem?_eq_getElem inside]
  rfl

theorem acceptLoop_cases (self : Nat) (socketNode : α) (rounds next : Nat)
    (whole : next + rounds = root.maxConnNum) :
    (∃ index, index < root.maxConnNum ∧ (root.info index).used = 0 ∧
      root.acceptLoop self socketNode rounds next =
        ((index + root.baseId) % 65536,
          { root with
            connectNum := root.connectNum + 1
            connmgrAddr := root.connmgrAddr.set index
              ⟨1, self, some socketNode⟩ })) ∨
      ((∀ index, next ≤ index → index < root.maxConnNum →
          (root.info index).used ≠ 0) ∧
        root.acceptLoop self socketNode rounds next = (0, root)) := by
  induction rounds generalizing next with
  | zero =>
    refine .inr ⟨?_, rfl⟩
    intro index after before
    omega
  | succ rounds induction =>
    have inside : ¬ root.maxConnNum ≤ next := by omega
    rw [NodeRoot.acceptLoop, if_neg inside]
    by_cases free : (root.info next).used = 0
    · refine .inl ⟨next, by omega, free, ?_⟩
      rw [if_pos free]
    rw [if_neg free]
    rcases induction (next + 1) (by omega) with found | ⟨taken, answer⟩
    · exact .inl found
    · refine .inr ⟨?_, answer⟩
      intro index after before
      rcases Nat.eq_or_lt_of_le after with same | later
      · exact same ▸ free
      · exact taken index later before

theorem accept_cases (param : root.param = 0)
    (fits : root.baseId + root.maxConnNum ≤ 65536) (self : Nat)
    (socketNode : α) :
    (∃ index, index < root.maxConnNum ∧ (root.info index).used = 0 ∧
      root.accept self socketNode =
        (root.baseId + index,
          { root with
            connectNum := root.connectNum + 1
            connmgrAddr := root.connmgrAddr.set index
              ⟨1, self, some socketNode⟩ })) ∨
      ((∀ index < root.maxConnNum, (root.info index).used ≠ 0) ∧
        root.accept self socketNode = (0, root)) := by
  have start : root.accept self socketNode =
      root.acceptLoop self socketNode root.maxConnNum 0 :=
    congrArg (root.acceptLoop self socketNode root.maxConnNum) param
  rw [start]
  rcases acceptLoop_cases self socketNode root.maxConnNum 0
      (Nat.zero_add _) with ⟨index, inside, free, answer⟩ | ⟨taken, answer⟩
  · refine .inl ⟨index, inside, free, ?_⟩
    rw [answer, Nat.mod_eq_of_lt (by omega), Nat.add_comm]
  · exact .inr ⟨fun index => taken index (Nat.zero_le _), answer⟩

theorem setOwner_eq {nodeId owner index : Nat}
    (found : root.indexOf nodeId = some index) :
    root.setOwner nodeId owner =
      { root with
        connmgrAddr := root.connmgrAddr.set index
          { root.info index with owner := owner } } := by
  unfold NodeRoot.setOwner
  rw [found]

theorem info_setOwner {nodeId owner index other : Nat}
    (found : root.indexOf nodeId = some index)
    (length : root.connmgrAddr.length = root.maxConnNum) :
    (root.setOwner nodeId owner).info other =
      if other = index then { root.info index with owner := owner }
      else root.info other := by
  rw [setOwner_eq found]
  exact info_set (length ▸ (indexOf_eq_some.mp found).2)

/-- The part of the manager that no change of owners touches. -/
structure SameNodes (root other : NodeRoot α) : Prop where
  maxConnNum : other.maxConnNum = root.maxConnNum
  connectNum : other.connectNum = root.connectNum
  baseId : other.baseId = root.baseId
  param : other.param = root.param
  length : other.connmgrAddr.length = root.connmgrAddr.length
  used : other.connmgrAddr.map SrvnodeInfo.used =
    root.connmgrAddr.map SrvnodeInfo.used

theorem SameNodes.trans {middle other : NodeRoot α}
    (first : SameNodes root middle) (second : SameNodes middle other) :
    SameNodes root other where
  maxConnNum := second.maxConnNum.trans first.maxConnNum
  connectNum := second.connectNum.trans first.connectNum
  baseId := second.baseId.trans first.baseId
  param := second.param.trans first.param
  length := second.length.trans first.length
  used := second.used.trans first.used

theorem setOwner_sameNodes (root : NodeRoot α) (nodeId owner : Nat) :
    SameNodes root (root.setOwner nodeId owner) := by
  cases found : root.indexOf nodeId with
  | none =>
    have kept : root.setOwner nodeId owner = root := by
      unfold NodeRoot.setOwner
      rw [found]
    rw [kept]
    exact ⟨rfl, rfl, rfl, rfl, rfl, rfl⟩
  | some index =>
    rw [setOwner_eq found]
    refine ⟨rfl, rfl, rfl, rfl, length_set, ?_⟩
    by_cases inside : index < root.connmgrAddr.length
    · rw [map_set, info_eq_getElem inside]
      apply ext_getElem
      · rw [length_set]
      · intro position _ _
        rw [getElem_set]
        split
        · rename_i same
          subst same
          rw [getElem_map]
        · rfl
    · rw [set_eq_of_length_le (by omega)]

theorem changeOwnerLoop_spec (owner rounds index : Nat)
    (fits : root.baseId + root.maxConnNum ≤ 65536)
    (length : root.connmgrAddr.length = root.maxConnNum)
    (whole : index + rounds = root.maxConnNum) :
    SameNodes root
        (root.changeOwnerLoop owner rounds ((root.baseId + index) % 65536)) ∧
      ∀ other, (root.changeOwnerLoop owner rounds
          ((root.baseId + index) % 65536)).info other =
        if index ≤ other ∧ other < root.maxConnNum then
          { root.info other with owner := owner }
        else root.info other := by
  induction rounds generalizing root index with
  | zero =>
    refine ⟨⟨rfl, rfl, rfl, rfl, rfl, rfl⟩, ?_⟩
    intro other
    rw [if_neg (by omega)]
    rfl
  | succ rounds induction =>
    have found : root.indexOf ((root.baseId + index) % 65536) = some index :=
      indexOf_eq_some.mpr ⟨Nat.mod_eq_of_lt (by omega), by omega⟩
    have same := setOwner_sameNodes root ((root.baseId + index) % 65536) owner
    have next : ((root.baseId + index) % 65536 + 1) % 65536 =
        ((root.setOwner ((root.baseId + index) % 65536) owner).baseId +
          (index + 1)) % 65536 := by
      rw [same.baseId]
      omega
    rw [NodeRoot.changeOwnerLoop, next]
    obtain ⟨later, slots⟩ := @induction
      (root.setOwner ((root.baseId + index) % 65536) owner) (index + 1)
      (by rw [same.baseId, same.maxConnNum]; exact fits)
      (by rw [same.length, same.maxConnNum]; exact length)
      (by rw [same.maxConnNum]; omega)
    refine ⟨same.trans later, ?_⟩
    intro other
    rw [slots other, same.maxConnNum, info_setOwner found length]
    by_cases first : other = index
    · subst first
      rw [if_neg (by omega), if_pos rfl, if_pos (by omega)]
    · rw [if_neg first]
      by_cases behind : index + 1 ≤ other ∧ other < root.maxConnNum
      · rw [if_pos behind, if_pos (by omega)]
      · rw [if_neg behind, if_neg (by omega)]

end Slots

variable {nodes : List (SrvnodeInfo α)}

section Steps

variable {mgr : NodeMgr α}

theorem create_keeps {maxNum startId : Nat} (positive : 1 ≤ startId)
    (fits : startId + maxNum ≤ 65536) :
    Keeps (⟨NodeRoot.create maxNum startId, []⟩ : NodeMgr α) where
  base_pos := positive
  ids_fit := fits
  param_zero := rfl
  length := length_replicate
  distinct := nodup_nil
  inRange := by simp
  slot := by simp
  clear := by
    intro index inside _
    unfold NodeRoot.info NodeRoot.create
    rw [getD_eq_getElem?_getD, getElem?_replicate]
    split <;> rfl
  count := rfl
  used := by
    rw [length_nil, countP_eq_zero]
    intro node member
    rw [eq_of_mem_replicate member]
    exact Bool.false_ne_true

theorem Keeps.info_live (keeps : mgr.Keeps)
    (inside : index < mgr.root.maxConnNum) :
    (∃ node ∈ mgr.live, node.id = mgr.root.baseId + index ∧
        mgr.root.info index = ⟨1, node.owner, some node.addr⟩) ∨
      (¬ mgr.Live (mgr.root.baseId + index) ∧
        mgr.root.info index = clearInfo) := by
  by_cases live : mgr.Live (mgr.root.baseId + index)
  · obtain ⟨node, member, same⟩ := live
    refine .inl ⟨node, member, same, ?_⟩
    rw [← keeps.slot node member, same, Nat.add_sub_cancel_left]
  · exact .inr ⟨live, keeps.clear index inside live⟩

theorem Keeps.getOwner (keeps : mgr.Keeps) {node : LiveNode α}
    (member : node ∈ mgr.live) :
    mgr.root.getOwner node.id = node.owner := by
  obtain ⟨low, high⟩ := keeps.inRange node member
  have index : mgr.root.indexOf node.id =
      some (node.id - mgr.root.baseId) := by
    rw [indexOf_eq_some]
    omega
  unfold NodeRoot.getOwner
  rw [index]
  exact congrArg SrvnodeInfo.owner (keeps.slot node member)

theorem Keeps.used_eq_zero_iff (keeps : mgr.Keeps)
    (inside : index < mgr.root.maxConnNum) :
    (mgr.root.info index).used = 0 ↔
      ¬ mgr.Live (mgr.root.baseId + index) := by
  rcases keeps.info_live inside with ⟨node, member, same, slot⟩ | ⟨dead, slot⟩
  · rw [slot]
    exact iff_of_false Int.one_ne_zero
      (not_not_intro ⟨node, member, same⟩)
  · rw [slot]
    exact iff_of_true rfl dead

theorem Keeps.all_used_iff (keeps : mgr.Keeps) :
    (∀ index < mgr.root.maxConnNum, (mgr.root.info index).used ≠ 0) ↔
      mgr.live.length = mgr.root.maxConnNum := by
  rw [← keeps.used, ← keeps.length, countP_eq_length]
  constructor
  · intro all node member
    obtain ⟨index, inside, same⟩ := getElem_of_mem member
    have taken := all index inside
    rcases keeps.info_live (keeps.length ▸ inside) with
      ⟨_, _, _, slot⟩ | ⟨_, slot⟩
    · rw [info_eq_getElem inside, same] at slot
      rw [slot]
      exact rfl
    · rw [slot] at taken
      exact absurd rfl taken
  · intro all index inside
    have positive := all _ (getElem_mem inside)
    rw [info_eq_getElem inside]
    intro zero
    rw [zero] at positive
    exact absurd positive (by decide)

/-- `accept` either makes a new id live, or all ids are live and nothing
changes. -/
theorem Keeps.accept_cases (keeps : mgr.Keeps) (self : Nat) (socketNode : α) :
    (∃ index, index < mgr.root.maxConnNum ∧
      ¬ mgr.Live (mgr.root.baseId + index) ∧
      mgr.root.accept self socketNode =
        (mgr.root.baseId + index,
          { mgr.root with
            connectNum := mgr.root.connectNum + 1
            connmgrAddr := mgr.root.connmgrAddr.set index
              ⟨1, self, some socketNode⟩ })) ∨
      (mgr.live.length = mgr.root.maxConnNum ∧
        mgr.root.accept self socketNode = (0, mgr.root)) := by
  rcases NodeMgr.accept_cases keeps.param_zero keeps.ids_fit self socketNode with
    ⟨index, inside, free, answer⟩ | ⟨taken, answer⟩
  · exact .inl
      ⟨index, inside, (keeps.used_eq_zero_iff inside).mp free, answer⟩
  · exact .inr ⟨keeps.all_used_iff.mp taken, answer⟩

theorem countP_set_add (node : SrvnodeInfo α) (test : SrvnodeInfo α → Bool)
    (inside : index < nodes.length) :
    (nodes.set index node).countP test + (if test nodes[index] then 1 else 0) =
      nodes.countP test + if test node then 1 else 0 := by
  induction nodes generalizing index with
  | nil => exact absurd inside (Nat.not_lt_zero _)
  | cons first nodes induction =>
    cases index with
    | zero =>
      simp only [set_cons_zero, countP_cons, getElem_cons_zero]
      omega
    | succ index =>
      have later := induction (Nat.lt_of_succ_lt_succ inside)
      simp only [set_cons_succ, countP_cons, getElem_cons_succ]
      omega

section

variable (keeps : mgr.Keeps)
include keeps

theorem accept_keeps (self : Nat) (socketNode : α) :
    (mgr.nodeStep (.accept self socketNode)).Keeps := by
  unfold nodeStep
  rcases keeps.accept_cases self socketNode with
    ⟨index, inside, free, answer⟩ | ⟨_, answer⟩
  · have positive := keeps.base_pos
    have space : index < mgr.root.connmgrAddr.length := keeps.length ▸ inside
    simp only [answer]
    rw [if_neg (by omega)]
    have fresh : ∀ node ∈ mgr.live, node.id ≠ mgr.root.baseId + index :=
      fun node member same => free ⟨node, member, same⟩
    constructor
    case base_pos => exact keeps.base_pos
    case ids_fit => exact keeps.ids_fit
    case param_zero => exact keeps.param_zero
    case length => exact length_set.trans keeps.length
    case distinct =>
      rw [map_append, nodup_append]
      refine ⟨keeps.distinct, nodup_singleton _, ?_⟩
      intro id member other single
      obtain ⟨node, memberNode, rfl⟩ := mem_map.mp member
      rw [mem_singleton.mp single]
      exact fresh node memberNode
    case inRange =>
      intro node member
      rcases mem_append.mp member with old | new
      · exact keeps.inRange node old
      · rw [mem_singleton.mp new]
        exact ⟨Nat.le_add_right _ _, Nat.add_lt_add_left inside _⟩
    case slot =>
      intro node member
      rw [info_set space]
      rcases mem_append.mp member with old | new
      · have range := keeps.inRange node old
        have other := fresh node old
        have elsewhere : node.id - mgr.root.baseId ≠ index := by omega
        rw [if_neg elsewhere]
        exact keeps.slot node old
      · rw [mem_singleton.mp new, if_pos (Nat.add_sub_cancel_left _ _)]
    case clear =>
      intro other below dead
      have differs : other ≠ index := by
        intro same
        refine dead ⟨⟨mgr.root.baseId + index, socketNode, self⟩, ?_, ?_⟩
        · exact mem_append_right _ (mem_singleton_self _)
        · rw [same]
      rw [info_set space, if_neg differs]
      refine keeps.clear other below ?_
      rintro ⟨node, member, same⟩
      exact dead ⟨node, mem_append_left _ member, same⟩
    case count =>
      rw [length_append, keeps.count]
      rfl
    case used =>
      have old := keeps.clear index inside free
      rw [info_eq_getElem space] at old
      have counted := countP_set_add ⟨1, self, some socketNode⟩
        (fun node => decide (0 < node.used)) space
      rw [old] at counted
      rw [length_append, ← keeps.used]
      exact counted
  · simp only [answer]
    exact keeps

theorem deaccept_keeps {nodeId : Nat}
    (live : mgr.Live nodeId) : (mgr.nodeStep (.deaccept nodeId)).Keeps := by
  obtain ⟨node, member, rfl⟩ := live
  obtain ⟨low, high⟩ := keeps.inRange node member
  have found : mgr.root.indexOf node.id = some (node.id - mgr.root.baseId) :=
    indexOf_eq_some.mpr ⟨by omega, by omega⟩
  have space : node.id - mgr.root.baseId < mgr.root.connmgrAddr.length := by
    rw [keeps.length]
    omega
  have fewer : (mgr.live.filter (fun other => other.id ≠ node.id)).length + 1 =
      mgr.live.length := by
    have once := count_eq_one_of_mem keeps.distinct
      (mem_map_of_mem (f := LiveNode.id) member)
    have split := length_eq_countP_add_countP
      (fun other : LiveNode α => other.id = node.id) (l := mgr.live)
    rw [count, countP_map] at once
    have same : mgr.live.countP (fun other => other.id = node.id) = 1 := by
      rw [← once]
      apply countP_congr
      intro other _
      simp
    rw [same, Nat.add_comm] at split
    rw [split, countP_eq_length_filter]
    simp
  unfold nodeStep NodeRoot.deaccept
  simp only [found]
  constructor
  case base_pos => exact keeps.base_pos
  case ids_fit => exact keeps.ids_fit
  case param_zero => exact keeps.param_zero
  case length => exact length_set.trans keeps.length
  case distinct =>
    exact keeps.distinct.sublist (filter_sublist.map LiveNode.id)
  case inRange =>
    intro other memberOther
    exact keeps.inRange other (mem_filter.mp memberOther).1
  case slot =>
    intro other memberOther
    obtain ⟨old, differs⟩ := mem_filter.mp memberOther
    have range := keeps.inRange other old
    have ids : other.id ≠ node.id := by simpa using differs
    have elsewhere : other.id - mgr.root.baseId ≠
        node.id - mgr.root.baseId := by omega
    rw [info_set space, if_neg elsewhere]
    exact keeps.slot other old
  case clear =>
    intro other below dead
    rw [info_set space]
    split
    · rfl
    · rename_i differs
      refine keeps.clear other below ?_
      rintro ⟨still, memberStill, same⟩
      refine dead ⟨still, mem_filter.mpr ⟨memberStill, ?_⟩, same⟩
      have ids : still.id ≠ node.id := by omega
      simpa using ids
  case count =>
    have number := keeps.count
    change mgr.root.connectNum - 1 =
      ((mgr.live.filter (fun other => other.id ≠ node.id)).length : Int)
    omega
  case used =>
    have old := keeps.slot node member
    rw [info_eq_getElem space] at old
    have counted := countP_set_add clearInfo
      (fun node => decide (0 < node.used)) space
    rw [old, keeps.used, ← fewer] at counted
    exact Nat.add_right_cancel counted

/-- Changing owners keeps the table and the nodes together if it writes the
slots of live nodes as it changes the nodes, and no other slot. -/
theorem Keeps.change {other : NodeRoot α} {change : LiveNode α → LiveNode α}
    (same : SameNodes mgr.root other) (ids : ∀ node, (change node).id = node.id)
    (addrs : ∀ node, (change node).addr = node.addr)
    (slots : ∀ node ∈ mgr.live,
      other.info (node.id - mgr.root.baseId) =
        ⟨1, (change node).owner, some node.addr⟩)
    (others : ∀ index < mgr.root.maxConnNum,
      ¬ mgr.Live (mgr.root.baseId + index) → other.info index = clearInfo) :
    Keeps (⟨other, mgr.live.map change⟩ : NodeMgr α) := by
  have sameIds : (mgr.live.map change).map LiveNode.id =
      mgr.live.map LiveNode.id := by
    rw [map_map]
    exact map_congr_left (fun node _ => ids node)
  have counts : ∀ nodes : List (SrvnodeInfo α),
      nodes.countP (fun node => 0 < node.used) =
        (nodes.map SrvnodeInfo.used).countP (fun used => 0 < used) := by
    intro nodes
    rw [countP_map]
    rfl
  constructor
  case base_pos => exact same.baseId ▸ keeps.base_pos
  case ids_fit =>
    have fits := keeps.ids_fit
    rw [← same.baseId, ← same.maxConnNum] at fits
    exact fits
  case param_zero => exact same.param.trans keeps.param_zero
  case length =>
    exact same.length.trans (keeps.length.trans same.maxConnNum.symm)
  case distinct => exact sameIds ▸ keeps.distinct
  case inRange =>
    intro node member
    obtain ⟨old, memberOld, rfl⟩ := mem_map.mp member
    have range := keeps.inRange old memberOld
    rw [← same.baseId, ← same.maxConnNum, ← ids old] at range
    exact range
  case slot =>
    intro node member
    obtain ⟨old, memberOld, rfl⟩ := mem_map.mp member
    have slot := slots old memberOld
    rw [← same.baseId, ← ids old, ← addrs old] at slot
    exact slot
  case clear =>
    intro index inside dead
    refine others index (same.maxConnNum ▸ inside) ?_
    rintro ⟨node, member, number⟩
    refine dead ⟨change node, mem_map_of_mem member, ?_⟩
    exact (ids node).trans (number.trans (congrArg (· + index) same.baseId.symm))
  case count =>
    rw [length_map]
    exact same.connectNum.trans keeps.count
  case used =>
    rw [length_map, ← keeps.used, counts, counts]
    exact congrArg _ same.used

theorem setOwner_keeps {nodeId owner : Nat}
    (owns : mgr.OwnsLive (.setOwner nodeId owner)) :
    (mgr.nodeStep (.setOwner nodeId owner)).Keeps := by
  have same := setOwner_sameNodes mgr.root nodeId owner
  have ids : ∀ node : LiveNode α, (ownNode nodeId owner node).id = node.id := by
    intro node
    unfold ownNode
    split <;> rfl
  have addrs : ∀ node : LiveNode α,
      (ownNode nodeId owner node).addr = node.addr := by
    intro node
    unfold ownNode
    split <;> rfl
  refine keeps.change same ids addrs ?_ ?_
  · intro node member
    obtain ⟨low, high⟩ := keeps.inRange node member
    have slot := keeps.slot node member
    unfold ownNode
    cases found : mgr.root.indexOf nodeId with
    | none =>
      have away := indexOf_eq_none.mp found
      have differs : node.id ≠ nodeId := by omega
      unfold NodeRoot.setOwner
      rw [found, if_neg differs]
      exact slot
    | some index =>
      obtain ⟨rfl, inside⟩ := indexOf_eq_some.mp found
      rw [info_setOwner found keeps.length]
      by_cases here : node.id = mgr.root.baseId + index
      · have position : node.id - mgr.root.baseId = index := by omega
        rw [position] at slot
        rw [if_pos position, if_pos here, slot]
      · rw [if_neg (by omega), if_neg here]
        exact slot
  · intro index inside dead
    have clear := keeps.clear index inside dead
    cases found : mgr.root.indexOf nodeId with
    | none =>
      unfold NodeRoot.setOwner
      rw [found]
      exact clear
    | some position =>
      obtain ⟨rfl, _⟩ := indexOf_eq_some.mp found
      rw [info_setOwner found keeps.length]
      split
      · rename_i here
        subst here
        rcases owns with zero | away | live
        · rw [clear, zero]
          rfl
        · rw [found] at away
          exact absurd away (Option.some_ne_none _)
        · exact absurd live dead
      · exact clear

theorem Keeps.changeOwner_spec (owner : Nat) (live : mgr.live ≠ []) :
    SameNodes mgr.root (mgr.root.changeOwner owner) ∧
      ∀ index < mgr.root.maxConnNum, (mgr.root.changeOwner owner).info index =
        { mgr.root.info index with owner := owner } := by
  have some : 0 < mgr.root.connectNum := by
    rw [keeps.count]
    exact_mod_cast length_pos_iff.mpr live
  unfold NodeRoot.changeOwner
  rw [if_pos some]
  obtain ⟨same, slots⟩ := changeOwnerLoop_spec owner mgr.root.maxConnNum 0
    keeps.ids_fit keeps.length (Nat.zero_add _)
  refine ⟨same, ?_⟩
  intro index inside
  exact (slots index).trans (if_pos ⟨Nat.zero_le _, inside⟩)

theorem changeOwner_of_no_live (owner : Nat)
    (none : mgr.live = []) : mgr.root.changeOwner owner = mgr.root := by
  unfold NodeRoot.changeOwner
  rw [keeps.count, none]
  exact if_neg (Int.lt_irrefl 0)

theorem changeOwner_keeps {owner : Nat}
    (owns : mgr.OwnsLive (.changeOwner owner)) :
    (mgr.nodeStep (.changeOwner owner)).Keeps := by
  by_cases none : mgr.live = []
  · have same : mgr.nodeStep (.changeOwner owner) = mgr := by
      simp only [nodeStep]
      rw [changeOwner_of_no_live keeps owner none, none, map_nil, ← none]
    rw [same]
    exact keeps
  · obtain ⟨same, slots⟩ := keeps.changeOwner_spec owner none
    refine keeps.change same (fun _ => rfl) (fun _ => rfl) ?_ ?_
    · intro node member
      have range := keeps.inRange node member
      rw [slots _ (by omega), keeps.slot node member]
    · intro index inside dead
      rw [slots index inside, keeps.clear index inside dead]
      rcases owns with zero | empty | full
      · rw [zero]
        rfl
      · exact absurd empty none
      · exact absurd (keeps.clear index inside dead ▸ rfl)
          (keeps.all_used_iff.mpr full index inside)

end

theorem nodeStep_keeps (mgr : NodeMgr α) (call : NodeCall α) (keeps : mgr.Keeps)
    (allowed : mgr.Allowed call)
    (owns : mgr.OwnsLive call) : (mgr.nodeStep call).Keeps := by
  cases call with
  | accept self socketNode => exact accept_keeps keeps self socketNode
  | deaccept nodeId => exact deaccept_keeps keeps allowed
  | setOwner nodeId owner => exact setOwner_keeps keeps owns
  | changeOwner owner => exact changeOwner_keeps keeps owns

theorem nodeStep_marks_dead (mgr : NodeMgr α) (call : NodeCall α)
    (keeps : mgr.Keeps) (stray : ¬ mgr.OwnsLive call) :
    ∃ nodeId, ¬ (mgr.nodeStep call).Live nodeId ∧
      (mgr.nodeStep call).root.getOwner nodeId ≠ 0 := by
  cases call with
  | accept self socketNode | deaccept nodeId => exact absurd trivial stray
  | setOwner nodeId owner =>
    simp only [OwnsLive, not_or] at stray
    obtain ⟨nonzero, here, dead⟩ := stray
    refine ⟨nodeId, ?_, ?_⟩
    · rintro ⟨node, member, same⟩
      obtain ⟨old, memberOld, rfl⟩ := mem_map.mp member
      refine dead ⟨old, memberOld, ?_⟩
      rw [← same]
      unfold ownNode
      split <;> rfl
    · obtain ⟨index, found⟩ := Option.ne_none_iff_exists'.mp here
      have moved : (mgr.root.setOwner nodeId owner).indexOf nodeId =
          some index := by
        rw [setOwner_eq found]
        exact found
      unfold nodeStep NodeRoot.getOwner
      simp only [moved, info_setOwner found keeps.length, if_pos]
      exact nonzero
  | changeOwner owner =>
    simp only [OwnsLive, not_or] at stray
    obtain ⟨nonzero, live, room⟩ := stray
    have free : ∃ index < mgr.root.maxConnNum,
        (mgr.root.info index).used = 0 := by
      by_contra full
      refine room (keeps.all_used_iff.mp ?_)
      intro index inside unused
      exact full ⟨index, inside, unused⟩
    obtain ⟨index, inside, unused⟩ := free
    have dead := (keeps.used_eq_zero_iff inside).mp unused
    obtain ⟨same, slots⟩ := keeps.changeOwner_spec owner live
    refine ⟨mgr.root.baseId + index, ?_, ?_⟩
    · rintro ⟨node, member, number⟩
      obtain ⟨old, memberOld, rfl⟩ := mem_map.mp member
      exact dead ⟨old, memberOld, number⟩
    · have found : (mgr.root.changeOwner owner).indexOf
          (mgr.root.baseId + index) = some index := by
        rw [indexOf_eq_some, same.baseId, same.maxConnNum]
        exact ⟨rfl, inside⟩
      unfold nodeStep NodeRoot.getOwner
      simp only [found, slots index inside]
      exact nonzero

end Steps

section Scan

variable {root : NodeRoot α} {self : Nat}

/-- The nodes of a row of slots, the first of which has the id `start`, that
are used and belong to `self`. -/
def Owned (self start : Nat) (nodes : List (SrvnodeInfo α)) (nodeId : Nat)
    (addr : α) : Prop :=
  ∃ index node, nodes[index]? = some node ∧ nodeId = start + index ∧
    0 < node.used ∧ node.owner = self ∧ node.nodeAddr = some addr

theorem owned_cons {start nodeId : Nat} {addr : α} :
    Owned self start (node :: nodes) nodeId addr ↔
      (nodeId = start ∧ 0 < node.used ∧ node.owner = self ∧
        node.nodeAddr = some addr) ∨
      Owned self (start + 1) nodes nodeId addr := by
  constructor
  · rintro ⟨index, other, found, same, facts⟩
    cases index with
    | zero =>
      rw [getElem?_cons_zero, Option.some.injEq] at found
      exact .inl ⟨same, found ▸ facts⟩
    | succ index =>
      exact .inr ⟨index, other, found, by omega, facts⟩
  · rintro (⟨same, facts⟩ | ⟨index, other, found, same, facts⟩)
    · exact ⟨0, node, rfl, same, facts⟩
    · exact ⟨index + 1, other, found, by omega, facts⟩

/-- The list is what a scan over the slots should give. -/
structure Visited (thread start : Nat) (nodes : List (SrvnodeInfo α))
    (visited : List (Nat × α)) : Prop where
  increasing : (visited.map Prod.fst).Pairwise (· < ·)
  mem_iff : ∀ nodeId addr,
    (nodeId, addr) ∈ visited ↔ Owned thread start nodes nodeId addr

theorem Visited.skip {start : Nat} {visited : List (Nat × α)}
    (foreign : ¬ (0 < node.used ∧ node.owner = self))
    (later : Visited self (start + 1) nodes visited) :
    Visited self start (node :: nodes) visited where
  increasing := later.increasing
  mem_iff := by
    intro nodeId addr
    rw [later.mem_iff, owned_cons]
    constructor
    · exact .inr
    · rintro (⟨_, used, owner, _⟩ | owned)
      · exact absurd ⟨used, owner⟩ foreign
      · exact owned

theorem Visited.cons {start : Nat} {node : SrvnodeInfo α}
    {nodes : List (SrvnodeInfo α)} {visited : List (Nat × α)} {addr : α}
    (own : 0 < node.used ∧ node.owner = self) (slot : node.nodeAddr = some addr)
    (later : Visited self (start + 1) nodes visited) :
    Visited self start (node :: nodes) ((start, addr) :: visited) where
  increasing := by
    rw [map_cons, pairwise_cons]
    refine ⟨?_, later.increasing⟩
    intro nodeId member
    obtain ⟨⟨_, other⟩, entry, rfl⟩ := mem_map.mp member
    obtain ⟨index, _, _, same, _⟩ := (later.mem_iff _ _).mp entry
    omega
  mem_iff := by
    intro nodeId other
    rw [mem_cons, later.mem_iff, owned_cons, Prod.mk.injEq, slot,
      Option.some.injEq, eq_comm (a := addr)]
    constructor
    · rintro (⟨same, addrs⟩ | owned)
      · exact .inl ⟨same, own.1, own.2, addrs⟩
      · exact .inr owned
    · rintro (⟨same, _, _, addrs⟩ | owned)
      · exact .inl ⟨same, addrs⟩
      · exact .inr owned

theorem Visited.of_unused {start : Nat}
    (unused : nodes.countP (fun node => 0 < node.used) = 0) :
    Visited self start nodes [] where
  increasing := List.Pairwise.nil
  mem_iff := by
    intro nodeId addr
    rw [countP_eq_zero] at unused
    constructor
    · intro member
      exact absurd member not_mem_nil
    · rintro ⟨index, node, found, _, used, _⟩
      have free := unused node (mem_of_getElem? found)
      exact absurd (decide_eq_true used) free

/-- A scan that has come to a slot goes on to all own nodes from there: the
count of the iterator ends it only when no used slot is left. -/
theorem visit_lockWalk {nodes : List (SrvnodeInfo α)} {index fuel : Nat}
    {counted : Bool} {it : NodeIterator}
    (rest : nodes = root.connmgrAddr.drop index)
    (fits : root.baseId + index + nodes.length ≤ 65536)
    (addrs : ∀ node ∈ nodes, 0 < node.used → ∃ addr, node.nodeAddr = some addr)
    (position : it.nodeId = (root.baseId + index) % 65536)
    (total : it.numbers + nodes.countP (fun node => 0 < node.used) = it.total)
    (small : it.total < 65536) (enough : nodes.length < fuel) :
    ∃ visited,
      root.visit self fuel (NodeRoot.lockWalk self counted nodes it) =
        some visited ∧
      Visited self (root.baseId + index) nodes visited := by
  induction nodes generalizing index fuel counted it with
  | nil =>
    obtain ⟨fuel, rfl⟩ := Nat.exists_eq_succ_of_ne_zero (Nat.ne_of_gt enough)
    exact ⟨[], rfl, .of_unused rfl⟩
  | cons node nodes induction =>
    rw [length_cons] at fits enough
    have behind : nodes = root.connmgrAddr.drop (index + 1) := by
      rw [← drop_drop, ← rest, drop_succ_cons, drop_zero]
    have addrsBehind := fun other member =>
      addrs other (mem_cons_of_mem node member)
    have here : it.nodeId = root.baseId + index := by omega
    have next : (it.nodeId + 1) % 65536 =
        (root.baseId + (index + 1)) % 65536 := by omega
    rw [countP_cons] at total
    rw [NodeRoot.lockWalk]
    split
    · rename_i finished
      obtain ⟨fuel, rfl⟩ := Nat.exists_eq_succ_of_ne_zero
        (show fuel ≠ 0 by omega)
      refine ⟨[], rfl, .of_unused ?_⟩
      rw [countP_cons]
      omega
    · by_cases used : 0 < node.used
      · rw [if_pos (decide_eq_true used)] at total
        have count : (it.numbers + 1) % 65536 = it.numbers + 1 := by omega
        simp only [if_pos used, count]
        split
        · rename_i own
          obtain ⟨addr, slot⟩ := addrs node mem_cons_self used
          obtain ⟨fuel, rfl⟩ := Nat.exists_eq_succ_of_ne_zero
            (show fuel ≠ 0 by omega)
          obtain ⟨visited, scanned, facts⟩ := @induction (index + 1) fuel true
            ⟨(it.nodeId + 1) % 65536, it.numbers + 1, it.total⟩ behind
            (by omega) addrsBehind next (by simp only; omega) small (by omega)
          refine ⟨(root.baseId + index, addr) :: visited, ?_,
            .cons own slot facts⟩
          have after : ((it.nodeId : Int) - root.baseId + 1).toNat =
              index + 1 := by omega
          simp only [slot, NodeRoot.visit, NodeRoot.lockNext, after,
            ← behind, scanned, Option.map_some]
          rw [here]
        · rename_i foreign
          obtain ⟨visited, scanned, facts⟩ := @induction (index + 1) fuel
            counted ⟨(it.nodeId + 1) % 65536, it.numbers + 1, it.total⟩ behind
            (by omega) addrsBehind next (by simp only; omega) small (by omega)
          exact ⟨visited, scanned, .skip foreign facts⟩
      · rw [if_neg (by simpa using used)] at total
        have foreign : ¬ (0 < node.used ∧ node.owner = self) :=
          fun both => used both.1
        rw [if_neg foreign]
        simp only [if_neg used]
        obtain ⟨visited, scanned, facts⟩ := @induction (index + 1) fuel
          counted ⟨(it.nodeId + 1) % 65536, it.numbers, it.total⟩ behind
          (by omega) addrsBehind next (by simp only; omega) small (by omega)
        exact ⟨visited, scanned, .skip foreign facts⟩

end Scan

section Runs

variable {mgr : NodeMgr α}

theorem Keeps.lock_iff (keeps : mgr.Keeps) (self nodeId : Nat) (addr : α) :
    mgr.root.lock self nodeId = some addr ↔
      ⟨nodeId, addr, self⟩ ∈ mgr.live := by
  unfold NodeRoot.lock
  constructor
  · intro locked
    cases found : mgr.root.indexOf nodeId with
    | none =>
      rw [found] at locked
      exact absurd locked.symm (Option.some_ne_none addr)
    | some index =>
      obtain ⟨rfl, inside⟩ := indexOf_eq_some.mp found
      simp only [found] at locked
      rcases keeps.info_live inside with
        ⟨⟨id, own, owner⟩, member, same, slot⟩ | ⟨_, slot⟩
      · rw [slot, if_neg Int.one_ne_zero] at locked
        split at locked
        · exact absurd locked.symm (Option.some_ne_none addr)
        · rename_i mine
          rw [Option.some.injEq] at locked
          rw [← same, ← locked, ← not_not.mp mine]
          exact member
      · rw [slot] at locked
        exact absurd locked.symm (Option.some_ne_none addr)
  · intro member
    obtain ⟨low, high⟩ : mgr.root.baseId ≤ nodeId ∧
        nodeId < mgr.root.baseId + mgr.root.maxConnNum := keeps.inRange _ member
    have found : mgr.root.indexOf nodeId = some (nodeId - mgr.root.baseId) :=
      indexOf_eq_some.mpr ⟨by omega, by omega⟩
    simp only [found, keeps.slot _ member]
    rw [if_neg Int.one_ne_zero, if_neg (not_not_intro rfl)]

theorem Keeps.owned_iff (keeps : mgr.Keeps) (self nodeId : Nat) (addr : α) :
    Owned self mgr.root.baseId mgr.root.connmgrAddr nodeId addr ↔
      ⟨nodeId, addr, self⟩ ∈ mgr.live := by
  constructor
  · rintro ⟨index, node, found, rfl, used, owner, slotAddr⟩
    obtain ⟨inside, same⟩ := List.getElem?_eq_some_iff.mp found
    rcases keeps.info_live (keeps.length ▸ inside) with
      ⟨⟨id, own, thread⟩, member, number, slot⟩ | ⟨_, slot⟩
    · rw [info_eq_getElem inside, same] at slot
      rw [slot] at owner slotAddr
      rw [← number, ← owner, ← Option.some.inj slotAddr]
      exact member
    · rw [info_eq_getElem inside, same] at slot
      rw [slot] at used
      exact absurd used (Int.lt_irrefl 0)
  · intro member
    obtain ⟨low, high⟩ : mgr.root.baseId ≤ nodeId ∧
        nodeId < mgr.root.baseId + mgr.root.maxConnNum := keeps.inRange _ member
    have inside : nodeId - mgr.root.baseId < mgr.root.connmgrAddr.length := by
      rw [keeps.length]
      omega
    have slot := keeps.slot _ member
    rw [info_eq_getElem inside] at slot
    refine ⟨nodeId - mgr.root.baseId, _, getElem?_eq_getElem inside,
      by omega, ?_⟩
    rw [slot]
    exact ⟨Int.one_pos, rfl, rfl⟩

theorem Keeps.scan_owned (keeps : mgr.Keeps) (self : Nat) (it : NodeIterator)
    {fuel : Nat} (enough : mgr.root.maxConnNum < fuel) :
    ∃ visited, mgr.root.scan self it fuel = some visited ∧
      (visited.map Prod.fst).Pairwise (· < ·) ∧
      ∀ nodeId addr,
        (nodeId, addr) ∈ visited ↔ ⟨nodeId, addr, self⟩ ∈ mgr.live := by
  have fits := keeps.ids_fit
  have positive := keeps.base_pos
  have used := keeps.used
  have atMost := countP_le_length (l := mgr.root.connmgrAddr)
    (p := fun node => decide (0 < node.used))
  rw [keeps.length, used] at atMost
  unfold NodeRoot.scan NodeRoot.lockFirst
  rw [keeps.count]
  split
  · rename_i none
    obtain ⟨fuel, rfl⟩ := Nat.exists_eq_succ_of_ne_zero
      (show fuel ≠ 0 by omega)
    have empty : mgr.live = [] := length_eq_zero_iff.mp (by omega)
    refine ⟨[], rfl, List.Pairwise.nil, ?_⟩
    intro nodeId addr
    rw [empty]
    exact iff_of_false not_mem_nil not_mem_nil
  · have total : ((mgr.live.length : Int) % 65536).toNat = mgr.live.length := by
      omega
    rw [total]
    have addrs : ∀ node ∈ mgr.root.connmgrAddr, 0 < node.used →
        ∃ addr, node.nodeAddr = some addr := by
      intro node member positive
      obtain ⟨index, inside, same⟩ := getElem_of_mem member
      rcases keeps.info_live (keeps.length ▸ inside) with
        ⟨live, _, _, slot⟩ | ⟨_, slot⟩
      · rw [info_eq_getElem inside, same] at slot
        exact ⟨live.addr, slot ▸ rfl⟩
      · rw [info_eq_getElem inside, same] at slot
        rw [slot] at positive
        exact absurd positive (Int.lt_irrefl 0)
    obtain ⟨visited, scanned, facts⟩ := @visit_lockWalk α mgr.root self
      mgr.root.connmgrAddr 0 fuel false
      ⟨mgr.root.baseId % 65536, 0, mgr.live.length⟩ rfl
      (by rw [keeps.length]; exact fits) addrs rfl
      (by rw [used]; exact Nat.zero_add _) (by simp only; omega)
      (keeps.length ▸ enough)
    refine ⟨visited, scanned, facts.increasing, ?_⟩
    intro nodeId addr
    rw [facts.mem_iff]
    exact keeps.owned_iff self nodeId addr

theorem Keeps.law (mgr : NodeMgr α) (keeps : mgr.Keeps) : mgr.Law where
  distinct := keeps.distinct
  inRange := keeps.inRange
  accept_zero := by
    intro self socketNode
    have positive := keeps.base_pos
    rcases keeps.accept_cases self socketNode with
      ⟨index, inside, free, answer⟩ | ⟨full, answer⟩
    · rw [answer]
      refine iff_of_false (show mgr.root.baseId + index ≠ 0 by omega) ?_
      intro full
      refine keeps.all_used_iff.mpr full index inside ?_
      exact (keeps.used_eq_zero_iff inside).mpr free
    · rw [answer]
      exact iff_of_true rfl full
  count := keeps.count
  dead := by
    intro nodeId dead
    unfold NodeRoot.getOwner
    cases found : mgr.root.indexOf nodeId with
    | none => rfl
    | some index =>
      obtain ⟨rfl, inside⟩ := indexOf_eq_some.mp found
      simp only [keeps.clear index inside dead]
      rfl
  lock_iff := keeps.lock_iff
  scan_owned := fun self it _ enough => keeps.scan_owned self it enough

/-- The laws of the manager hold throughout a run exactly if no call of the run
writes an owner into a slot that is not live. -/
theorem nodeRun_law_iff {maxNum startId : Nat} (positive : 1 ≤ startId)
    (fits : startId + maxNum - 1 ≤ 65535) {calls : List (NodeCall α)}
    (allowed : Meets nodeStep Allowed ⟨NodeRoot.create maxNum startId, []⟩
      calls) :
    (∀ visited ∈ states nodeStep
        (⟨NodeRoot.create maxNum startId, []⟩ : NodeMgr α) calls,
      visited.Law) ↔
      Meets nodeStep OwnsLive ⟨NodeRoot.create maxNum startId, []⟩ calls := by
  refine law_iff_meets Keeps.law nodeStep_keeps ?_
    (create_keeps positive (by omega)) allowed
  intro mgr call keeps _ stray law
  obtain ⟨nodeId, dead, marked⟩ := nodeStep_marks_dead mgr call keeps stray
  exact marked (law.dead nodeId dead)

/-- Two nodes, one of them handed to another thread and one given back. -/
theorem nodeRun_law_iff_handed :
    Meets nodeStep Allowed (⟨NodeRoot.create 3 1, []⟩ : NodeMgr Nat)
        [.accept 7 100, .accept 7 101, .setOwner 2 8, .deaccept 1] ∧
      ∀ visited ∈ states nodeStep (⟨NodeRoot.create 3 1, []⟩ : NodeMgr Nat)
          [.accept 7 100, .accept 7 101, .setOwner 2 8, .deaccept 1],
        visited.Law :=
  ⟨by decide,
    (nodeRun_law_iff (by decide) (by decide) (by decide)).mpr (by decide)⟩

/-- `nd_node_change_owner` with one live node out of two leaves its owner in
the slot of the dead one. -/
theorem nodeRun_law_fails :
    Meets nodeStep Allowed (⟨NodeRoot.create 2 1, []⟩ : NodeMgr Nat)
        [.accept 7 100, .changeOwner 8] ∧
      ¬ ∀ visited ∈ states nodeStep (⟨NodeRoot.create 2 1, []⟩ : NodeMgr Nat)
          [.accept 7 100, .changeOwner 8],
        visited.Law := by
  refine ⟨by decide, ?_⟩
  intro law
  have last := law _ (foldl_mem_states nodeStep _ _)
  exact absurd (last.dead 2 (by decide)) (by decide)

end Runs

end NodeMgr

end NdNet
