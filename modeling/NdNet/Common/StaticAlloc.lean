import Mathlib.Algebra.Group.Int.Defs
import Mathlib.Data.Finset.Card
import Mathlib.Data.Finset.Range
import NdNet.Lib.LinkBytes
import NdNet.Lib.Runs

/-!
# The allocator of `nd_static_alloc.c`

One block of a memory pool holds the allocator and its nodes.  The nodes that
are not handed out stand in a ring that runs through the nodes themselves; the
others belong to the user, who may write into them what he likes.
-/

namespace NdNet

open Bytes List

/-- Where the members of `nd_static_alloc_t` are: its size, behind which `addr`
begins, and the offset of `__free_list`. -/
structure SaLayout where
  size : Nat
  freeList : Nat
  inside : freeList + 16 ≤ size
  bounded : size < 2 ^ 64

/-- `myerrno` -/
inductive SaErrno where
  | success
  | limited
  deriving DecidableEq, Repr

/-- `nd_static_alloc_t`, with its address and the memory it is in. -/
structure StaticAlloc where
  address : Nat
  nodeSize : Nat
  capacity : Int
  allocatedNum : Int
  myerrno : SaErrno
  bytes : Bytes

namespace StaticAlloc

variable (layout : SaLayout)

def getSaAllocMinSize (size : Nat) : Nat :=
  max 16 size

/-- `raw_len`, in a `size_t` -/
def rawLen (nodeNum : Int) (nodeSize : Nat) : Nat :=
  ((nodeNum * nodeSize + layout.size) % 2 ^ 64).toNat

/-- The address of `__free_list` -/
def freeList (allocator : StaticAlloc) : Nat :=
  allocator.address + layout.freeList

/-- The loop of `nd_sa_create`, for the nodes from `addr` on. -/
def createLoop (nodeSize head : Nat) : Nat → Nat → Bytes → Bytes
  | 0, _, bytes => bytes
  | nodes + 1, addr, bytes =>
    createLoop nodeSize head nodes (addr + nodeSize)
      ((bytes.init addr).add addr head)

/-- `nd_sa_create`; `pool` is what `nd_pool_alloc` answers to a length. -/
def create (pool : Nat → Option Nat) (bytes : Bytes) (nodeNum : Int)
    (nodeSize : Nat) : Option StaticAlloc :=
  let nodeSize := getSaAllocMinSize nodeSize
  match pool (rawLen layout nodeNum nodeSize) with
  | none => none
  | some address =>
    let head := address + layout.freeList
    some
      { address := address
        nodeSize := nodeSize
        capacity := nodeNum
        allocatedNum := 0
        myerrno := .success
        bytes := createLoop nodeSize head nodeNum.toNat
          (address + layout.size) (bytes.init head) }

def alloc (allocator : StaticAlloc) : Option Nat × StaticAlloc :=
  let head := allocator.freeList layout
  let pos := allocator.bytes.pointers.next head
  if pos = head then (none, { allocator with myerrno := .limited })
  else
    (some pos,
      { allocator with
        myerrno := .success
        bytes := allocator.bytes.delInit pos
        allocatedNum := allocator.allocatedNum + 1 })

def free (allocator : StaticAlloc) (addr : Nat) : StaticAlloc :=
  if addr = 0 then allocator
  else
    { allocator with
      bytes := (allocator.bytes.init addr).addTail addr
        (allocator.freeList layout)
      allocatedNum := allocator.allocatedNum - 1 }

def freenum (allocator : StaticAlloc) : Int :=
  allocator.capacity - allocator.allocatedNum

def nodes (allocator : StaticAlloc) : List Nat :=
  (List.range allocator.capacity.toNat).map fun index =>
    allocator.address + layout.size + index * allocator.nodeSize

end StaticAlloc

/-- An allocator, and the nodes that have been handed out and not freed. -/
structure SaRun where
  allocator : StaticAlloc
  live : List Nat

/-- A call, or whatever the user writes into his nodes. -/
inductive SaCall where
  | alloc
  | free (addr : Nat)
  | write (bytes : Bytes)

namespace SaRun

variable (layout : SaLayout)

def step (run : SaRun) : SaCall → SaRun
  | .alloc =>
    let answer := run.allocator.alloc layout
    ⟨answer.2, answer.1.toList ++ run.live⟩
  | .free addr => ⟨run.allocator.free layout addr, run.live.erase addr⟩
  | .write bytes => { run with allocator := { run.allocator with bytes } }

/-- Nodes are freed that have been handed out, and only their bytes are
written. -/
def Allowed (run : SaRun) : SaCall → Prop
  | .alloc => True
  | .free addr => addr ∈ run.live
  | .write bytes => ∀ target,
      (∀ node ∈ run.live,
        ¬ (node ≤ target ∧ target < node + run.allocator.nodeSize)) →
      bytes target = run.allocator.bytes target

/-- What an allocator keeps in a block of `rawLen` bytes. -/
structure Sound (rawLen : Nat) (run : SaRun) : Prop where
  distinct : run.live.Nodup
  disjoint : run.live.Pairwise fun a b =>
    a + run.allocator.nodeSize ≤ b ∨ b + run.allocator.nodeSize ≤ a
  inside : ∀ node ∈ run.live,
    run.allocator.address + layout.size ≤ node ∧
      node + run.allocator.nodeSize ≤ run.allocator.address + rawLen
  members : ∀ node ∈ run.live, node ∈ run.allocator.nodes layout
  others : ∃ free,
    run.allocator.bytes.pointers.Ring (run.allocator.freeList layout) free ∧
      (∀ node, node ∈ free ↔
        node ∈ run.allocator.nodes layout ∧ node ∉ run.live) ∧
      run.allocator.freenum = free.length
  null : (run.allocator.alloc layout).1 = none ↔
    ∀ node ∈ run.allocator.nodes layout, node ∈ run.live

/-- A block of `rawLen` bytes is long enough for the nodes, and ends in the
address space. -/
structure Roomy (rawLen : Nat) (allocator : StaticAlloc) : Prop where
  counted : 0 ≤ allocator.capacity
  large : 16 ≤ allocator.nodeSize
  room : layout.size + allocator.capacity.toNat * allocator.nodeSize ≤ rawLen
  ends : allocator.address + rawLen ≤ 2 ^ 64

section Places

variable {layout} {rawLen : Nat} {allocator : StaticAlloc}

def places (layout : SaLayout) (allocator : StaticAlloc) : Set Nat :=
  { place | place = allocator.freeList layout ∨ place ∈ allocator.nodes layout }

theorem mem_nodes {node : Nat} : node ∈ allocator.nodes layout ↔
    ∃ index < allocator.capacity.toNat,
      allocator.address + layout.size + index * allocator.nodeSize = node := by
  simp [StaticAlloc.nodes]

theorem nodes_apart {a b : Nat} (first : a ∈ allocator.nodes layout)
    (second : b ∈ allocator.nodes layout) (differ : a ≠ b) :
    a + allocator.nodeSize ≤ b ∨ b + allocator.nodeSize ≤ a := by
  obtain ⟨i, _, rfl⟩ := mem_nodes.mp first
  obtain ⟨j, _, rfl⟩ := mem_nodes.mp second
  have ordered (low high : Nat) (less : low < high) :
      low * allocator.nodeSize + allocator.nodeSize ≤
        high * allocator.nodeSize := by
    rw [← Nat.succ_mul]
    exact Nat.mul_le_mul_right _ less
  rcases Nat.lt_trichotomy i j with less | same | greater
  · have := ordered i j less
    omega
  · rw [same] at differ
    exact absurd rfl differ
  · have := ordered j i greater
    omega

theorem node_end {node : Nat} (member : node ∈ allocator.nodes layout) :
    allocator.address + layout.size ≤ node ∧
      node + allocator.nodeSize ≤ allocator.address + layout.size +
        allocator.capacity.toNat * allocator.nodeSize := by
  obtain ⟨index, less, rfl⟩ := mem_nodes.mp member
  have atMost : (index + 1) * allocator.nodeSize ≤
      allocator.capacity.toNat * allocator.nodeSize :=
    Nat.mul_le_mul_right _ less
  rw [Nat.succ_mul] at atMost
  omega

theorem nodes_nodup (large : 16 ≤ allocator.nodeSize) :
    (allocator.nodes layout).Nodup := by
  apply nodup_range.map
  intro i j same
  have equal : i * allocator.nodeSize = j * allocator.nodeSize := by
    dsimp only at same
    omega
  exact Nat.eq_of_mul_eq_mul_right (by omega) equal

theorem head_not_node : allocator.freeList layout ∉ allocator.nodes layout := by
  intro member
  have behind := (node_end member).1
  have inside := layout.inside
  unfold StaticAlloc.freeList at behind
  omega

theorem spaced (roomy : Roomy layout rawLen allocator) :
    Spaced (places layout allocator) := by
  have inside := layout.inside
  have large := roomy.large
  have room := roomy.room
  have ends := roomy.ends
  have front {node : Nat} (member : node ∈ allocator.nodes layout) :
      allocator.freeList layout + 16 ≤ node := by
    have := (node_end member).1
    unfold StaticAlloc.freeList
    omega
  constructor
  · rintro a (first | first) b (second | second) differ
    · exact absurd (first.trans second.symm) differ
    · rw [first]
      exact .inl (front second)
    · rw [second]
      exact .inr (front first)
    · have := nodes_apart first second differ
      omega
  · rintro a (first | first)
    · rw [first]
      unfold StaticAlloc.freeList
      omega
    · have := (node_end first).2
      omega

end Places

/-- The ring of the nodes that are not handed out. -/
structure Kept (run : SaRun) (free : List Nat) : Prop where
  ring : run.allocator.bytes.pointers.Ring (run.allocator.freeList layout) free
  split : (run.live ++ free).Perm (run.allocator.nodes layout)
  count : run.allocator.allocatedNum = run.live.length

namespace Kept

variable {layout} {rawLen : Nat} {run : SaRun} {free : List Nat} {node : Nat}

theorem inside (kept : Kept layout run free) :
    ∀ e ∈ run.allocator.freeList layout :: free,
      e ∈ places layout run.allocator := by
  intro e member
  rcases mem_cons.mp member with head | inFree
  · exact .inl head
  · exact .inr (kept.split.mem_iff.mp (mem_append_right _ inFree))

theorem nodup (kept : Kept layout run free)
    (large : 16 ≤ run.allocator.nodeSize) : (run.live ++ free).Nodup :=
  kept.split.nodup_iff.mpr (nodes_nodup large)

theorem live_outside (kept : Kept layout run free)
    (large : 16 ≤ run.allocator.nodeSize) (member : node ∈ run.live) :
    node ∈ run.allocator.nodes layout ∧
      node ∉ run.allocator.freeList layout :: free := by
  have isNode := kept.split.mem_iff.mp (mem_append_left free member)
  refine ⟨isNode, fun inRing => ?_⟩
  rcases mem_cons.mp inRing with head | inFree
  · rw [head] at isNode
    exact head_not_node isNode
  · exact (nodup_append.mp (kept.nodup large)).2.2 node member node
      inFree rfl

theorem alloc_nil (kept : Kept layout run []) :
    run.allocator.alloc layout =
      (none, { run.allocator with myerrno := .limited }) :=
  if_pos kept.ring.1.1

theorem alloc_cons (kept : Kept layout run (node :: free)) :
    run.allocator.alloc layout = (some node,
      { run.allocator with
        myerrno := .success
        bytes := run.allocator.bytes.delInit node
        allocatedNum := run.allocator.allocatedNum + 1 }) := by
  have next : run.allocator.bytes.pointers.next
      (run.allocator.freeList layout) = node := kept.ring.1.1.1
  have differs : node ≠ run.allocator.freeList layout := by
    rintro rfl
    exact (nodup_cons.mp kept.ring.2).1 mem_cons_self
  unfold StaticAlloc.alloc
  dsimp only
  rw [next]
  exact if_neg differs

variable (kept : Kept layout run free)
include kept

variable (roomy : Roomy layout rawLen run.allocator)
include roomy

theorem alloc :
    ∃ rest, Kept layout (run.step layout .alloc) rest := by
  cases free with
  | nil =>
    refine ⟨[], ?_⟩
    unfold step
    rw [kept.alloc_nil]
    exact { kept with }
  | cons node rest =>
    refine ⟨rest, ?_⟩
    unfold step
    rw [kept.alloc_cons]
    constructor
    · exact ring_delInit kept.ring (spaced roomy) kept.inside
    · exact perm_middle.symm.trans kept.split
    · have count := kept.count
      simp only [Option.toList_some, singleton_append, length_cons]
      omega

theorem free_live (member : node ∈ run.live) :
    Kept layout (run.step layout (.free node)) (free ++ [node]) := by
  obtain ⟨isNode, alone⟩ := kept.live_outside roomy.large member
  have real : node ≠ 0 := by
    have := (node_end isNode).1
    have := layout.inside
    omega
  have called : run.allocator.free layout node =
      { run.allocator with
        bytes := (run.allocator.bytes.init node).addTail node
          (run.allocator.freeList layout)
        allocatedNum := run.allocator.allocatedNum - 1 } := if_neg real
  unfold step
  dsimp only
  rw [called]
  constructor
  · have place : node ∈ places layout run.allocator := .inr isNode
    have inited := ring_init kept.ring (spaced roomy) kept.inside place alone
    dsimp only
    exact ring_addTail inited (spaced roomy) kept.inside place alone
  · have moved : (run.live.erase node ++ (free ++ [node])).Perm
        (run.live ++ free) := by
      rw [← append_assoc]
      refine perm_append_comm.trans ?_
      exact ((perm_cons_erase member).append_right free).symm
    exact moved.trans kept.split
  · have count := kept.count
    have positive := length_pos_of_mem member
    simp only [length_erase_of_mem member]
    omega

theorem write {bytes : Bytes} (allowed : run.Allowed (.write bytes)) :
    Kept layout (run.step layout (.write bytes)) free := by
  refine { kept with ring := ring_congr kept.ring ?_ }
  intro e member target low high
  apply allowed
  intro node inLive within
  obtain ⟨isNode, alone⟩ := kept.live_outside roomy.large inLive
  have differs : e ≠ node := by
    rintro rfl
    exact alone member
  have large := roomy.large
  rcases kept.inside e member with head | other
  · have := (node_end isNode).1
    have := layout.inside
    unfold StaticAlloc.freeList at head
    omega
  · have := nodes_apart other isNode differs
    omega

theorem step (call : SaCall) (allowed : run.Allowed call) :
    ∃ rest, Kept layout (run.step layout call) rest := by
  cases call with
  | alloc => exact kept.alloc roomy
  | free addr => exact ⟨_, kept.free_live roomy allowed⟩
  | write bytes => exact ⟨free, kept.write roomy allowed⟩

theorem sound :
    Sound layout rawLen run := by
  have nodup := kept.nodup roomy.large
  obtain ⟨distinct, _, separate⟩ := nodup_append.mp nodup
  have members (node : Nat) (member : node ∈ run.live) :
      node ∈ run.allocator.nodes layout :=
    (kept.live_outside roomy.large member).1
  constructor
  · exact distinct
  · apply distinct.imp_of_mem
    intro a b first second differ
    exact nodes_apart (members a first) (members b second) differ
  · intro node member
    have room := roomy.room
    have ends := node_end (members node member)
    omega
  · exact members
  · refine ⟨free, kept.ring, fun node => ?_, ?_⟩
    · constructor
      · intro inFree
        refine ⟨kept.split.mem_iff.mp (mem_append_right _ inFree), ?_⟩
        intro inLive
        exact separate node inLive node inFree rfl
      · rintro ⟨isNode, notLive⟩
        have either := kept.split.mem_iff.mpr isNode
        exact (mem_append.mp either).resolve_left notLive
    · have lengths := kept.split.length_eq
      rw [length_append, StaticAlloc.nodes, length_map, length_range] at lengths
      have count := kept.count
      have counted := roomy.counted
      unfold StaticAlloc.freenum
      omega
  · cases free with
    | nil =>
      refine iff_of_true (by rw [kept.alloc_nil]) ?_
      intro node isNode
      have either := kept.split.mem_iff.mpr isNode
      rwa [append_nil] at either
    | cons node rest =>
      refine iff_of_false (by simp [kept.alloc_cons]) ?_
      intro all
      have isNode := kept.split.mem_iff.mp
        (mem_append_right run.live mem_cons_self)
      exact separate node (all node isNode) node mem_cons_self rfl

end Kept

section Steps

variable {layout}

theorem step_fields (layout : SaLayout) (run : SaRun) (call : SaCall) :
    (run.step layout call).allocator.address = run.allocator.address ∧
      (run.step layout call).allocator.nodeSize = run.allocator.nodeSize ∧
      (run.step layout call).allocator.capacity = run.allocator.capacity := by
  cases call with
  | alloc =>
    unfold step StaticAlloc.alloc
    dsimp only
    split <;> exact ⟨rfl, rfl, rfl⟩
  | free addr =>
    unfold step StaticAlloc.free
    dsimp only
    split <;> exact ⟨rfl, rfl, rfl⟩
  | write bytes => exact ⟨rfl, rfl, rfl⟩

theorem Roomy.step {rawLen : Nat} {run : SaRun}
    (roomy : Roomy layout rawLen run.allocator) (call : SaCall) :
    Roomy layout rawLen (run.step layout call).allocator := by
  obtain ⟨address, nodeSize, capacity⟩ := run.step_fields layout call
  constructor
  · rw [capacity]
    exact roomy.counted
  · rw [nodeSize]
    exact roomy.large
  · rw [capacity, nodeSize]
    exact roomy.room
  · rw [address]
    exact roomy.ends

theorem sound_of_kept {rawLen : Nat} {run : SaRun} {free : List Nat}
    (kept : Kept layout run free) (roomy : Roomy layout rawLen run.allocator)
    {calls : List SaCall} (legal : Runs.Meets (step layout) Allowed run calls) :
    ∀ visited ∈ Runs.states (step layout) run calls,
      Sound layout rawLen visited := by
  have invariant : ∀ visited ∈ Runs.states (step layout) run calls,
      Roomy layout rawLen visited.allocator ∧
        ∃ free, Kept layout visited free := by
    refine Runs.invariant_of_meets ?_ ⟨roomy, free, kept⟩ legal
    rintro visited call ⟨roomy, free, kept⟩ allowed
    exact ⟨roomy.step call, kept.step roomy call allowed⟩
  intro visited member
  obtain ⟨roomy, free, kept⟩ := invariant visited member
  exact kept.sound roomy

end Steps

section Create

variable {layout} {pool : Nat → Option Nat} {bytes : Bytes} {nodeNum : Int}
  {nodeSize : Nat} {allocator : StaticAlloc}

theorem createLoop_ring {places : Set Nat} (spaced : Spaced places)
    {size head : Nat} (positive : 0 < size) (count : Nat) (addr : Nat)
    {bytes : Bytes} {entries : List Nat}
    (ring : bytes.pointers.Ring head entries)
    (inside : ∀ e ∈ head :: entries, e ∈ places)
    (coming : ∀ index < count, addr + index * size ∈ places ∧
      addr + index * size ∉ head :: entries) :
    ∃ free, (StaticAlloc.createLoop size head count addr
        bytes).pointers.Ring head free ∧
      free.Perm ((List.range count).map (addr + · * size) ++ entries) := by
  induction count generalizing addr bytes entries with
  | zero => exact ⟨entries, ring, .refl _⟩
  | succ count induction =>
    obtain ⟨place, alone⟩ := coming 0 (Nat.succ_pos _)
    rw [Nat.zero_mul, Nat.add_zero] at place alone
    have inited := ring_init ring spaced inside place alone
    have added := ring_add inited spaced inside place alone
    have next : ∀ e ∈ head :: addr :: entries, e ∈ places := by
      rintro e (_ | ⟨_, _ | ⟨_, member⟩⟩)
      · exact inside head mem_cons_self
      · exact place
      · exact inside e (mem_cons_of_mem head member)
    have shifted (index : Nat) :
        addr + size + index * size = addr + (index + 1) * size := by
      rw [Nat.succ_mul, Nat.add_assoc, Nat.add_comm size]
    obtain ⟨free, whole, perm⟩ := induction (addr + size) added next (by
      intro index less
      obtain ⟨later, apart⟩ := coming (index + 1) (Nat.succ_lt_succ less)
      rw [shifted]
      refine ⟨later, ?_⟩
      have grown : 0 < (index + 1) * size :=
        Nat.mul_pos (Nat.succ_pos _) positive
      simp only [mem_cons, not_or] at apart ⊢
      exact ⟨apart.1, by omega, apart.2⟩)
    refine ⟨free, whole, perm.trans ?_⟩
    rw [range_succ_eq_map, map_cons, map_map]
    simp only [Nat.zero_mul, Nat.add_zero, cons_append,
      Function.comp_def, Nat.succ_eq_add_one, shifted]
    exact perm_middle

theorem create_eq (created : StaticAlloc.create layout pool bytes nodeNum
      nodeSize = some allocator) :
    ∃ address,
      pool (StaticAlloc.rawLen layout nodeNum
        (StaticAlloc.getSaAllocMinSize nodeSize)) = some address ∧
      allocator =
        { address := address
          nodeSize := StaticAlloc.getSaAllocMinSize nodeSize
          capacity := nodeNum
          allocatedNum := 0
          myerrno := .success
          bytes := StaticAlloc.createLoop
            (StaticAlloc.getSaAllocMinSize nodeSize)
            (address + layout.freeList) nodeNum.toNat (address + layout.size)
            (bytes.init (address + layout.freeList)) } := by
  unfold StaticAlloc.create at created
  dsimp only at created
  split at created
  · cases created
  next address block => exact ⟨address, block, (Option.some.inj created).symm⟩

theorem create_kept {rawLen : Nat}
    (created : StaticAlloc.create layout pool bytes nodeNum nodeSize =
      some allocator)
    (roomy : Roomy layout rawLen allocator) :
    ∃ free, Kept layout ⟨allocator, []⟩ free := by
  have spaced := spaced roomy
  have places (index : Nat) (less : index < allocator.capacity.toNat) :
      allocator.address + layout.size + index * allocator.nodeSize ∈
        allocator.nodes layout := mem_nodes.mpr ⟨index, less, rfl⟩
  obtain ⟨address, _, same⟩ := create_eq created
  have head : ∀ e ∈ [allocator.freeList layout],
      e ∈ SaRun.places layout allocator :=
    forall_mem_singleton.mpr (.inl rfl)
  have started : (bytes.init (allocator.freeList layout)).pointers.Ring
      (allocator.freeList layout) [] := by
    have held := (holds_pointers (SaRun.places layout allocator) bytes).init
      spaced (.inl rfl)
    exact held.ring (LinkTable.ring_nil (Function.update_self _ _ _)
      (Function.update_self _ _ _)) head
  obtain ⟨free, ring, perm⟩ := createLoop_ring spaced
    (Nat.lt_of_lt_of_le (by decide) roomy.large) allocator.capacity.toNat
    (allocator.address + layout.size) started head (by
      intro index less
      have isNode := places index less
      refine ⟨.inr isNode, ?_⟩
      rw [mem_singleton]
      intro isHead
      rw [isHead] at isNode
      exact head_not_node isNode)
  rw [append_nil] at perm
  refine ⟨free, ?_, perm, ?_⟩
  · subst same
    exact ring
  · subst same
    rfl

/-- `raw_len` is the room for everything, if that fits into a `size_t`. -/
theorem rawLen_eq {size : Nat} (counted : 0 ≤ nodeNum)
    (small : nodeNum * size + layout.size < 2 ^ 64) :
    StaticAlloc.rawLen layout nodeNum size =
      layout.size + nodeNum.toNat * size := by
  obtain ⟨count, rfl⟩ := Int.eq_ofNat_of_zero_le counted
  unfold StaticAlloc.rawLen
  have cast : (count : Int) * size + layout.size =
      ((layout.size + count * size : Nat) : Int) := by
    push_cast
    exact Int.add_comm _ _
  rw [cast] at small ⊢
  rw [Int.emod_eq_of_lt (Int.natCast_nonneg _) small, Int.toNat_natCast,
    Int.toNat_natCast]

theorem rawLen_lt (layout : SaLayout) (nodeNum : Int) (size : Nat) :
    StaticAlloc.rawLen layout nodeNum size < 2 ^ 64 := by
  unfold StaticAlloc.rawLen
  omega

/-- In every state of a legal run an allocator keeps what it has to. -/
def AlwaysSound (layout : SaLayout) (rawLen : Nat)
    (allocator : StaticAlloc) : Prop :=
  ∀ calls, Runs.Meets (step layout) Allowed ⟨allocator, []⟩ calls →
    ∀ visited ∈ Runs.states (step layout) ⟨allocator, []⟩ calls,
      Sound layout rawLen visited

theorem meets_allocs (run : SaRun) (count : Nat) :
    Runs.Meets (step layout) Allowed run (List.replicate count .alloc) := by
  induction count generalizing run with
  | zero => trivial
  | succ count induction => exact ⟨trivial, induction _⟩

theorem step_alloc_live (run : SaRun) : (run.step layout .alloc).live =
    (run.allocator.alloc layout).1.toList ++ run.live :=
  rfl

/-- If a node is not inside the block, then it is handed out at some time: until
then every call hands out another piece of the block. -/
theorem not_alwaysSound {rawLen node : Nat}
    (isNode : node ∈ allocator.nodes layout)
    (ends : allocator.address + rawLen < node + allocator.nodeSize) :
    ¬ AlwaysSound layout rawLen allocator := by
  intro law
  have grows (count : Nat) : ∃ run : SaRun,
      run = (replicate count .alloc).foldl (step layout)
        ⟨allocator, []⟩ ∧
      run.live.length = count ∧
      run.allocator.address = allocator.address ∧
      run.allocator.nodeSize = allocator.nodeSize ∧
      run.allocator.capacity = allocator.capacity ∧
      Sound layout rawLen run := by
    induction count with
    | zero =>
      refine ⟨_, rfl, rfl, rfl, rfl, rfl, ?_⟩
      exact law [] trivial _ mem_cons_self
    | succ count induction =>
      obtain ⟨run, reached, length, address, nodeSize, capacity, sound⟩ :=
        induction
      obtain ⟨address', nodeSize', capacity'⟩ :=
        run.step_fields layout .alloc
      refine ⟨run.step layout .alloc, ?_, ?_, address'.trans address,
        nodeSize'.trans nodeSize, capacity'.trans capacity, ?_⟩
      · rw [replicate_succ', foldl_append, ← reached]
        rfl
      · have sameNodes :
            run.allocator.nodes layout = allocator.nodes layout := by
          unfold StaticAlloc.nodes
          rw [address, nodeSize, capacity]
        cases answer : (run.allocator.alloc layout).1 with
        | none =>
          rw [← sameNodes] at isNode
          have handedOut := sound.null.mp answer node isNode
          have inside := (sound.inside node handedOut).2
          omega
        | some other =>
          rw [step_alloc_live, answer, Option.toList_some,
            singleton_append, length_cons, length]
      · have later := law (replicate (count + 1) .alloc)
          (meets_allocs _ _) _ (Runs.foldl_mem_states _ _ _)
        rw [replicate_succ', foldl_append, ← reached] at later
        exact later
  obtain ⟨run, _, length, address, _, _, sound⟩ :=
    grows (allocator.address + rawLen + 2)
  have bounded : run.live.toFinset ⊆
      Finset.range (allocator.address + rawLen + 1) := by
    intro other member
    have inside := (sound.inside other (mem_toFinset.mp member)).2
    rw [Finset.mem_range]
    omega
  have few := Finset.card_le_card bounded
  rw [toFinset_card_of_nodup sound.distinct, length, Finset.card_range] at few
  omega

theorem overflow_not_alwaysSound
    (created : StaticAlloc.create layout pool bytes nodeNum nodeSize =
      some allocator) (counted : 0 ≤ nodeNum)
    (large : 2 ^ 64 ≤ nodeNum *
      (StaticAlloc.getSaAllocMinSize nodeSize : Nat) + layout.size) :
    ¬ AlwaysSound layout (StaticAlloc.rawLen layout nodeNum
      (StaticAlloc.getSaAllocMinSize nodeSize)) allocator := by
  obtain ⟨address, _, same⟩ := create_eq created
  obtain ⟨count, rfl⟩ := Int.eq_ofNat_of_zero_le counted
  have bounded := layout.bounded
  generalize StaticAlloc.getSaAllocMinSize nodeSize = size at *
  have total : 2 ^ 64 ≤ count * size + layout.size := by
    exact_mod_cast large
  cases count with
  | zero =>
    omega
  | succ count =>
    have isNode : address + layout.size + count * size ∈
        allocator.nodes layout := by
      subst same
      exact mem_nodes.mpr ⟨count, Nat.lt_succ_self count, rfl⟩
    apply not_alwaysSound isNode
    have short := rawLen_lt layout ((count + 1 : Nat) : Int) size
    rw [Nat.succ_mul] at total
    subst same
    dsimp only
    omega

/-- A static allocator keeps what it has to in all legal runs exactly if the
number of its nodes is not negative and all of them, with the allocator, fit into
a `size_t`; the block that the pool gives for it ends inside the address
space. -/
theorem alwaysSound_iff
    (fits : ∀ address, pool (StaticAlloc.rawLen layout nodeNum
        (StaticAlloc.getSaAllocMinSize nodeSize)) = some address →
      address + StaticAlloc.rawLen layout nodeNum
        (StaticAlloc.getSaAllocMinSize nodeSize) ≤ 2 ^ 64)
    (created : StaticAlloc.create layout pool bytes nodeNum nodeSize =
      some allocator) :
    AlwaysSound layout (StaticAlloc.rawLen layout nodeNum
        (StaticAlloc.getSaAllocMinSize nodeSize)) allocator ↔
      0 ≤ nodeNum ∧ nodeNum *
        (StaticAlloc.getSaAllocMinSize nodeSize : Nat) + layout.size <
          2 ^ 64 := by
  obtain ⟨address, block, same⟩ := create_eq created
  constructor
  · intro law
    have counted : 0 ≤ nodeNum := by
      obtain ⟨free, _, _, number⟩ :=
        (law [] trivial _ mem_cons_self).others
      subst same
      unfold StaticAlloc.freenum at number
      dsimp only at number
      omega
    refine ⟨counted, ?_⟩
    by_contra tooLarge
    exact overflow_not_alwaysSound created counted (by omega) law
  · rintro ⟨counted, small⟩
    have length := rawLen_eq counted small
    have roomy : Roomy layout (StaticAlloc.rawLen layout nodeNum
        (StaticAlloc.getSaAllocMinSize nodeSize)) allocator := by
      subst same
      exact ⟨counted, Nat.le_max_left 16 nodeSize, Nat.le_of_eq length.symm,
        fits address block⟩
    obtain ⟨free, kept⟩ := create_kept created roomy
    intro calls legal
    exact sound_of_kept kept roomy legal

end Create

def exampleLayout : SaLayout where
  size := 184
  freeList := 168
  inside := by decide
  bounded := by decide

def examplePool (size : Nat) : Option Nat :=
  if size ≤ 4096 then some 65536 else none

theorem examplePool_fits (size address : Nat)
    (block : examplePool size = some address) : address + size ≤ 2 ^ 64 := by
  unfold examplePool at block
  split at block
  next small =>
    cases block
    omega
  next => cases block

theorem alwaysSound_hundred :
    AlwaysSound exampleLayout (StaticAlloc.rawLen exampleLayout 100
        (StaticAlloc.getSaAllocMinSize 32))
      ((StaticAlloc.create exampleLayout examplePool (fun _ => 0) 100 32).get
        rfl) :=
  (alwaysSound_iff (examplePool_fits _) (Option.some_get _).symm).mpr
    (by decide)

/-- Sixteen nodes of 2^60 bytes get a block without room for any of them. -/
theorem wrapped_not_alwaysSound :
    ¬ AlwaysSound exampleLayout (StaticAlloc.rawLen exampleLayout 16
        (StaticAlloc.getSaAllocMinSize (2 ^ 60)))
      ((StaticAlloc.create exampleLayout examplePool (fun _ => 0) 16
        (2 ^ 60)).get rfl) :=
  overflow_not_alwaysSound (Option.some_get _).symm (by decide) (by decide)

end SaRun

end NdNet
