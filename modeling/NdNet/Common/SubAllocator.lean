import NdNet.Lib.Tiling
import NdNet.Lib.Runs
import Mathlib.Tactic.SplitIfs

/-!
# The sub-allocator of `nd_mempool.c`

A sub-allocator cuts an arena into blocks.  It takes them from the region
between `start` and `end`, which shrinks from below, and from lists of free
chunks, one for every multiple of 16 below 1 KB and one for every multiple of
1 KB up to 64 KB.  When the region is too small for a request, a chunk of the
lists becomes the region and the old region goes to the lists; a block that is
freed joins the region in front of it, becomes the region itself, or goes to
the lists.

Addresses are offsets from any base.  A chunk's `size` field has flags in its
two lowest bits; of a block that is handed out the field holds the number of
its list instead, which is all that `nd_allocator_free` gets to know of it.
-/

namespace NdNet

open List

open Tiling (Span Packed push)

def bigSize : Nat := 0x400

/-- `MIN_SIZE`, and `ALIGN_SIZE` too -/
def minSize : Nat := 16

def bigChunkNum : Nat := 64

def littleChunkNum : Nat := 64

/-- `_ND_ALINE`, in the arithmetic of `size_t` -/
def ndAline (size aline : Nat) : Nat :=
  (size + (aline - 1)) % 18446744073709551616 / aline * aline

def sizeAline (size : Nat) : Nat :=
  max (ndAline size minSize) minSize

def bigAline (size : Nat) : Nat :=
  max (ndAline size bigSize) bigSize

/-- `struct free_node` at `addr`. -/
structure FreeNode where
  addr : Nat
  size : Nat
  deriving DecidableEq, Repr

/-- A block that is handed out: where it is, the low bits of its header, and
what was asked for. -/
structure LiveBlock where
  addr : Nat
  header : Nat
  request : UInt64
  deriving DecidableEq, Repr

/-- `sizeof(struct alloc_node)` -/
def allocNodeSize : Nat := 8

/-- `nd_sub_allocator`.  `live` are the blocks handed out and not yet freed,
with the headers that stand in front of them. -/
structure SubAllocator where
  start : Nat
  stop : Nat
  bigList : List (List FreeNode)
  freeLittles : List (List FreeNode)
  allocatedSize : UInt64
  live : List LiveBlock
  deriving DecidableEq, Repr

/-- One of the lists of free chunks. -/
inductive ChunkList where
  | big (index : Nat)
  | little (index : Nat)
  deriving DecidableEq, Repr

namespace ChunkList

/-- `GET_BIG_SIZE` and `GET_LITTLE_SIZE` -/
def size : ChunkList → Nat
  | big index => (index + 1) * bigSize
  | little index => (index + 1) * minSize

/-- `BIG_INDEX` and `CHUNK_INDEX` -/
def ofSize (size : Nat) : ChunkList :=
  if bigSize ≤ size then big (size / bigSize - 1)
  else little (size / minSize - 1)

def Exists : ChunkList → Prop
  | big index => index < bigChunkNum
  | little index => index < littleChunkNum

instance : ∀ list : ChunkList, Decidable list.Exists
  | big index => inferInstanceAs (Decidable (index < bigChunkNum))
  | little index => inferInstanceAs (Decidable (index < littleChunkNum))

/-- `__alloc_addr_size2index`, the bits below the page address -/
def header : ChunkList → Nat
  | big index => (index * 8 + 4) % 0x1000
  | little index => index * 8 % 0x1000

/-- `__index2_alloc_size` -/
def ofHeader (header : Nat) : ChunkList :=
  if header / 4 % 2 = 1 then big (header / 8) else little (header / 8)

end ChunkList

namespace SubAllocator

variable (sub : SubAllocator)

def chunks : ChunkList → List FreeNode
  | .big index => sub.bigList.getD index []
  | .little index => sub.freeLittles.getD index []

def setChunks (list : ChunkList) (nodes : List FreeNode) : SubAllocator :=
  match list with
  | .big index => { sub with bigList := sub.bigList.set index nodes }
  | .little index => { sub with freeLittles := sub.freeLittles.set index nodes }

/-- `pool_add_free`; without a result the index is none of the array's, which
an assertion rules out. -/
def poolAddFree (insertNode : FreeNode) : Option SubAllocator :=
  let size := insertNode.size / 4 * 4
  let node := { insertNode with size := insertNode.size / 2 * 2 + 1 }
  let list :=
    if bigSize ≤ size then ChunkList.ofSize (size / bigSize * bigSize)
    else ChunkList.ofSize (size / minSize * minSize)
  if list.Exists then
    some (sub.setChunks list (node :: sub.chunks list))
  else none

/-- The first part of `add_freeto_list`: whole kilobytes go to a list of their
own. -/
def addBigToList : Option SubAllocator :=
  let freeSize := sub.stop - sub.start
  if bigSize < freeSize then
    let size := freeSize / bigSize * bigSize
    (sub.poolAddFree ⟨sub.start, size⟩).map fun sub =>
      { sub with start := sub.start + size }
  else some sub

/-- The second part of `add_freeto_list`. -/
def addRestToList : Option SubAllocator :=
  let freeSize := sub.stop - sub.start
  if minSize ≤ freeSize then
    (sub.poolAddFree ⟨sub.start, freeSize⟩).map fun sub =>
      { sub with start := sub.stop }
  else some { sub with start := sub.stop }

def addFreetoList : Option SubAllocator :=
  sub.addBigToList.bind addRestToList

/-- A loop of `_find_free_chunk` downwards from the list before `count`: no
result where the lists get too small, `some none` at the end of the loop. -/
def scanLists (listAt : Nat → ChunkList) (minimum : Nat) :
    Nat → Option (Option ChunkList)
  | 0 => some none
  | count + 1 =>
    if (listAt count).size < minimum then none
    else if sub.chunks (listAt count) ≠ [] then some (some (listAt count))
    else scanLists listAt minimum count

/-- The list `_find_free_chunk` takes a chunk from. -/
def findList (minimum : Nat) : Option ChunkList :=
  match sub.scanLists .big minimum bigChunkNum with
  | none => none
  | some (some list) => some list
  | some none =>
    if minimum < bigSize then
      match sub.scanLists .little minimum littleChunkNum with
      | some (some list) => some list
      | _ => none
    else none

def takeChunk (list : ChunkList) : Option (FreeNode × SubAllocator) :=
  match sub.chunks list with
  | [] => none
  | node :: nodes => some (node, sub.setChunks list nodes)

def findFreeChunk (minimum : Nat) : Option (FreeNode × SubAllocator) :=
  (sub.findList minimum).bind sub.takeChunk

/-- The size `__allocator_alloc` looks for. -/
def neededSize (request : UInt64) : Nat :=
  let allocSize := (request + 8).toNat
  let size := sizeAline allocSize
  if bigSize ≤ size then bigAline allocSize else size

/-- The end of `__allocator_alloc`: a block from the start of the region, with
its size. -/
def cutRegion (size : Nat) : (Nat × Nat) × SubAllocator :=
  ((sub.start, size), { sub with start := sub.start + size })

def setRegion (node : FreeNode) (size : Nat) : SubAllocator :=
  { sub with start := node.addr, stop := node.addr + size }

/-- `__allocator_alloc`: the block with its size, if there is one.  No result is
a failed assertion on the index. -/
def allocatorAlloc (request : UInt64) :
    Option (Option (Nat × Nat) × SubAllocator) :=
  let size := neededSize request
  let list := ChunkList.ofSize size
  if ¬ list.Exists then none
  else
    match sub.takeChunk list with
    | some (chunk, sub) =>
      some (some (chunk.addr, chunk.size / 2 * 2), sub)
    | none =>
      let freeSize := sub.stop - sub.start
      if freeSize < size then
        match sub.findFreeChunk size with
        | none => some (none, sub)
        | some (chunk, sub) =>
          (if minSize ≤ freeSize then sub.addFreetoList else some sub).map
            fun sub =>
              let (block, sub) :=
                (sub.setRegion chunk (chunk.size / 4 * 4)).cutRegion size
              (some block, sub)
      else
        let (block, sub) := sub.cutRegion size
        some (some block, sub)

/-- `nd_allocator_alloc`: the address of the user's data, if there is one. -/
def ndAllocatorAlloc (request : UInt64) :
    Option (Option Nat × SubAllocator) :=
  (sub.allocatorAlloc request).map fun (block, sub) =>
    match block with
    | none => (none, sub)
    | some (addr, size) =>
      (some (addr + allocNodeSize),
        { sub with
          allocatedSize :=
            sub.allocatedSize + UInt64.ofNat (size % 4294967296)
          live :=
            ⟨addr, (ChunkList.ofSize size).header, request⟩ :: sub.live })

/-- `__allocator_free` of the block at `chunk`. -/
def allocatorFree (chunk : FreeNode) : Option SubAllocator :=
  let size := chunk.size / 16 * 16
  if chunk.addr + size = sub.start then
    some { sub with start := chunk.addr }
  else
    let freeSize := sub.stop - sub.start
    if freeSize = 0 then some (sub.setRegion chunk size)
    else if freeSize + 3 < chunk.size then
      sub.addFreetoList.map fun sub => sub.setRegion chunk size
    else sub.poolAddFree chunk

/-- `nd_allocator_free` of the block whose `alloc_node` is at `addr`, with its
result; the size in the header has been put back by `__index2_alloc_size`.  A
block that is not handed out is not freed. -/
def ndAllocatorFree (addr : Nat) : Option (Nat × SubAllocator) :=
  match sub.live.find? fun block => block.addr = addr with
  | none => some (1, sub)
  | some block =>
    let size := (ChunkList.ofHeader block.header).size
    let sub := { sub with
      allocatedSize := sub.allocatedSize - UInt64.ofNat (size / 4 * 4)
      live := sub.live.eraseP fun block => block.addr = addr }
    (sub.allocatorFree ⟨addr, size⟩).map fun sub =>
      (if sub.allocatedSize = 0 then 0 else 1, sub)

/-- `__sub_allocator_init` on an arena. -/
def init (base length : Nat) : SubAllocator where
  start := base
  stop := base + length
  bigList := List.replicate bigChunkNum []
  freeLittles := List.replicate littleChunkNum []
  allocatedSize := 0
  live := []

end SubAllocator

/-- The calls of a user. -/
inductive AllocatorOp where
  | alloc (request : UInt64)
  | free (addr : Nat)
  deriving DecidableEq, Repr

namespace SubAllocator

def perform (sub : SubAllocator) : AllocatorOp → Option SubAllocator
  | .alloc request => (sub.ndAllocatorAlloc request).map Prod.snd
  | .free addr => (sub.ndAllocatorFree addr).map Prod.snd

end SubAllocator

def FreeNode.span (node : FreeNode) : Span Nat :=
  ⟨node.addr, node.addr + node.size / 4 * 4⟩

def LiveBlock.size (block : LiveBlock) : Nat :=
  (ChunkList.ofHeader block.header).size

def LiveBlock.span (block : LiveBlock) : Span Nat :=
  ⟨block.addr, block.addr + block.size⟩

namespace SubAllocator

def frees (sub : SubAllocator) : List FreeNode :=
  sub.bigList.flatten ++ sub.freeLittles.flatten

def pieces (sub : SubAllocator) : List (Span Nat) :=
  ⟨sub.start, sub.stop⟩ ::
    (sub.live.map LiveBlock.span ++ sub.frees.map FreeNode.span)

/-- The pieces lie in the arena without common points, every block is as large
as its request and its header, and no chunk is on the list of a larger size. -/
structure Tiles (base length : Nat) (sub : SubAllocator) : Prop where
  packed : Packed (Set.Ico base (base + length)) sub.pieces
  large : ∀ block ∈ sub.live, block.request.toNat + allocNodeSize ≤ block.size
  sorted : ∀ list, ∀ node ∈ sub.chunks list, list.size ≤ node.size / 4 * 4

end SubAllocator

variable {list : ChunkList}

namespace ChunkList

theorem ofHeader_header (here : list.Exists) :
    ofHeader list.header = list := by
  cases list with
  | big index =>
    have bound : index < 64 := here
    have small : (index * 8 + 4) % 0x1000 = index * 8 + 4 := by omega
    rw [header, ofHeader, small, if_pos (by omega)]
    congr 1
    omega
  | little index =>
    have bound : index < 64 := here
    have small : index * 8 % 0x1000 = index * 8 := by omega
    rw [header, ofHeader, small, if_neg (by omega)]
    congr 1
    omega

theorem size_ofSize {size : Nat} (least : minSize ≤ size) :
    (ofSize size).size ≤ size ∧ (ofSize size).size / 16 * 16 = (ofSize size).size := by
  unfold minSize at least
  unfold ofSize
  split
  · rename_i big
    unfold bigSize at big ⊢
    unfold ChunkList.size bigSize
    dsimp only
    omega
  · unfold ChunkList.size minSize
    dsimp only
    omega

theorem exists_ofSize {size : Nat} (bound : size < 66560) :
    (ofSize size).Exists := by
  unfold ofSize
  split
  · change size / bigSize - 1 < 64
    unfold bigSize
    omega
  · rename_i little
    change size / minSize - 1 < 64
    unfold bigSize at little
    unfold minSize
    omega

theorem size_of_exists (here : list.Exists) :
    minSize ≤ list.size ∧ list.size ≤ 65536 ∧ list.size / 16 * 16 = list.size := by
  cases list with
  | big index =>
    have bound : index < 64 := here
    unfold size bigSize minSize
    dsimp only
    omega
  | little index =>
    have bound : index < 64 := here
    unfold size minSize
    dsimp only
    omega

theorem ofSize_flagged (size : Nat) :
    ofSize (size / 2 * 2 + 1) =
      if bigSize ≤ size / 4 * 4 then
        ofSize (size / 4 * 4 / bigSize * bigSize)
      else ofSize (size / 4 * 4 / minSize * minSize) := by
  unfold ofSize bigSize minSize
  split_ifs with flagged big rounded little <;> first | omega | (congr 1; omega)

theorem ofSize_even (size : Nat) : ofSize (size / 2 * 2) = ofSize size := by
  unfold ofSize bigSize minSize
  split_ifs <;> first | omega | (congr 1; omega)

end ChunkList

theorem ndAline_of_small {size aline : Nat}
    (small : size + (aline - 1) < 18446744073709551616) :
    ndAline size aline = (size + (aline - 1)) / aline * aline := by
  unfold ndAline
  rw [Nat.mod_eq_of_lt small]

variable {request : UInt64}

/-- What is asked for fits into the size that is looked for, which fills its
class. -/
theorem SubAllocator.neededSize_spec
    (bound : request.toNat + allocNodeSize ≤ 65536) :
    request.toNat + allocNodeSize ≤ neededSize request ∧
      minSize ≤ neededSize request ∧ neededSize request ≤ 65536 ∧
      (ChunkList.ofSize (neededSize request)).size = neededSize request := by
  unfold allocNodeSize at bound ⊢
  have added : (request + 8).toNat = request.toNat + 8 := by
    exact Nat.mod_eq_of_lt (by
      change request.toNat + 8 < 18446744073709551616
      omega)
  have shape : neededSize request =
      if bigSize ≤ sizeAline (request.toNat + 8) then
        bigAline (request.toNat + 8)
      else sizeAline (request.toNat + 8) := by
    unfold neededSize
    rw [added]
  rw [shape]
  generalize request.toNat + 8 = total at bound
  have little : sizeAline total = max ((total + 15) / 16 * 16) 16 := by
    unfold sizeAline
    rw [ndAline_of_small (by unfold minSize; omega)]
    rfl
  have large : bigAline total = max ((total + 1023) / 1024 * 1024) 1024 := by
    unfold bigAline
    rw [ndAline_of_small (by unfold bigSize; omega)]
    rfl
  unfold ChunkList.ofSize ChunkList.size bigSize minSize
  split_ifs <;> dsimp only <;> omega

variable {node : FreeNode} {next : SubAllocator}

namespace SubAllocator

/-- What holds between two moves of a piece; `hand` are the pieces that are in
none of the three places at the moment. -/
structure Holds (base length : Nat) (hand : List (Span Nat))
    (sub : SubAllocator) : Prop where
  packed : Packed (Set.Ico base (base + length)) (hand ++ sub.pieces)
  ordered : sub.start ≤ sub.stop
  bigs : sub.bigList.length = bigChunkNum
  littles : sub.freeLittles.length = littleChunkNum
  shelved : ∀ list, ∀ node ∈ sub.chunks list,
    list = ChunkList.ofSize node.size ∧ minSize ≤ node.size ∧ node.size < 66560
  headed : ∀ block ∈ sub.live,
    ∃ list : ChunkList, list.Exists ∧ block.header = list.header ∧
      block.request.toNat + allocNodeSize ≤ list.size

variable {base length : Nat} {hand : List (Span Nat)} {sub : SubAllocator}

theorem LiveBlock.size_of_header {block : LiveBlock} {list : ChunkList}
    (here : list.Exists) (header : block.header = list.header) :
    block.size = list.size := by
  unfold LiveBlock.size
  rw [header, ChunkList.ofHeader_header here]

theorem Holds.tiles (holds : Holds base length [] sub) :
    Tiles base length sub where
  packed := holds.packed
  large := by
    intro block member
    obtain ⟨list, here, header, large⟩ := holds.headed block member
    rw [LiveBlock.size_of_header here header]
    exact large
  sorted := by
    intro list node member
    obtain ⟨same, least, _⟩ := holds.shelved list node member
    have class_ := ChunkList.size_ofSize least
    rw [← same] at class_
    omega

theorem holds_init (base length : Nat) :
    Holds base length [] (init base length) where
  packed := by
    have none : (init base length).pieces = [⟨base, base + length⟩] := by
      unfold pieces frees init
      simp
    exact ⟨fun span member => by
      rw [mem_singleton.mp member]
      exact Set.Subset.refl _, pairwise_singleton _ _⟩
  ordered := Nat.le_add_right _ _
  bigs := length_replicate
  littles := length_replicate
  shelved := by
    intro list node member
    have empty : ∀ index : Nat,
        (replicate 64 ([] : List FreeNode)).getD index [] = [] := by
      intro index
      rw [getD_eq_getElem?_getD, getElem?_replicate]
      split <;> rfl
    cases list with
    | big index | little index =>
      change node ∈ (replicate 64 []).getD index [] at member
      rw [empty] at member
      exact absurd member not_mem_nil
  headed := by
    intro block member
    exact absurd member not_mem_nil

section SetChunks

variable (sub) (list : ChunkList) (nodes : List FreeNode)

@[simp]
theorem setChunks_start : (sub.setChunks list nodes).start = sub.start := by
  cases list <;> rfl

@[simp]
theorem setChunks_stop : (sub.setChunks list nodes).stop = sub.stop := by
  cases list <;> rfl

@[simp]
theorem setChunks_live : (sub.setChunks list nodes).live = sub.live := by
  cases list <;> rfl

@[simp]
theorem setChunks_bigs :
    (sub.setChunks list nodes).bigList.length = sub.bigList.length := by
  cases list with
  | big index => exact length_set
  | little index => rfl

@[simp]
theorem setChunks_littles :
    (sub.setChunks list nodes).freeLittles.length =
      sub.freeLittles.length := by
  cases list with
  | big index => rfl
  | little index => exact length_set

end SetChunks

theorem setChunks_frees (here : list.Exists)
    (holds : Holds base length hand sub) (node : FreeNode) :
    (sub.setChunks list (node :: sub.chunks list)).frees.Perm
      (node :: sub.frees) := by
  cases list with
  | big index =>
    have there : index < sub.bigList.length := by
      rw [holds.bigs]
      exact here
    exact (Tiling.push_flatten there node).append_right _
  | little index =>
    have there : index < sub.freeLittles.length := by
      rw [holds.littles]
      exact here
    exact ((Tiling.push_flatten there node).append_left _).trans
      perm_middle

theorem mem_setChunks {list place : ChunkList} {node other : FreeNode}
    (member :
      other ∈ (sub.setChunks list (node :: sub.chunks list)).chunks place) :
    (other = node ∧ place = list) ∨ other ∈ sub.chunks place := by
  cases list with
  | big index =>
    cases place with
    | big position =>
      exact (Tiling.mem_push member).imp_left fun ⟨same, here⟩ =>
        ⟨same, congrArg ChunkList.big here⟩
    | little position => exact .inr member
  | little index =>
    cases place with
    | big position => exact .inr member
    | little position =>
      exact (Tiling.mem_push member).imp_left fun ⟨same, here⟩ =>
        ⟨same, congrArg ChunkList.little here⟩

theorem takeChunk_frees {nodes : List FreeNode}
    (top : sub.chunks list = node :: nodes) :
    sub.frees.Perm (node :: (sub.setChunks list nodes).frees) := by
  cases list with
  | big index => exact (Tiling.pop_flatten top).append_right _
  | little index =>
    exact ((Tiling.pop_flatten top).append_left _).trans perm_middle

theorem mem_takeChunk {list place : ChunkList} {node other : FreeNode}
    {nodes : List FreeNode} (top : sub.chunks list = node :: nodes)
    (member : other ∈ (sub.setChunks list nodes).chunks place) :
    other ∈ sub.chunks place := by
  cases list with
  | big index =>
    cases place with
    | big position => exact Tiling.mem_pop top member
    | little position => exact member
  | little index =>
    cases place with
    | big position => exact member
    | little position => exact Tiling.mem_pop top member

theorem perm_pieces (region : next.start = sub.start ∧ next.stop = sub.stop)
    (live : next.live = sub.live) (frees : sub.frees.Perm (node :: next.frees))
    :
    sub.pieces.Perm (node.span :: next.pieces) := by
  unfold pieces
  rw [region.1, region.2, live]
  have mapped := frees.map FreeNode.span
  refine (List.Perm.cons _ ?_).trans (List.Perm.swap _ _ _)
  exact (mapped.append_left _).trans perm_middle

theorem perm_hand {first : Span Nat} {spans others : List (Span Nat)}
    (moved : spans.Perm (first :: others)) :
    (hand ++ spans).Perm (first :: hand ++ others) :=
  (moved.append_left hand).trans perm_middle

theorem Holds.poolAddFree {node : FreeNode}
    (holds : Holds base length (node.span :: hand) sub)
    (least : minSize ≤ node.size) (bound : node.size < 66560) :
    ∃ next, sub.poolAddFree node = some next ∧ Holds base length hand next ∧
      next.start = sub.start ∧ next.stop = sub.stop ∧ next.live = sub.live := by
  let flagged : FreeNode := { node with size := node.size / 2 * 2 + 1 }
  let list := ChunkList.ofSize flagged.size
  have low : flagged.size < 66560 := by
    change node.size / 2 * 2 + 1 < 66560
    omega
  have high : minSize ≤ flagged.size := by
    change minSize ≤ node.size / 2 * 2 + 1
    omega
  have here : list.Exists := ChunkList.exists_ofSize low
  have spans : flagged.span = node.span := by
    change Span.mk _ (_ + (node.size / 2 * 2 + 1) / 4 * 4) = Span.mk _ _
    congr 2
    omega
  have next : sub.poolAddFree node =
      some (sub.setChunks list (flagged :: sub.chunks list)) := by
    unfold SubAllocator.poolAddFree
    dsimp only
    rw [← ChunkList.ofSize_flagged]
    exact if_pos here
  have pieces :
      (sub.setChunks list (flagged :: sub.chunks list)).pieces.Perm
        (node.span :: sub.pieces) := by
    rw [← spans]
    refine perm_pieces ⟨?_, ?_⟩ ?_ (setChunks_frees here holds flagged) <;> simp
  refine ⟨_, next, ?_, by simp⟩
  exact
    { packed := holds.packed.perm (perm_hand pieces).symm
      ordered := by simpa using holds.ordered
      bigs := by simpa using holds.bigs
      littles := by simpa using holds.littles
      shelved := by
        intro place other member
        rcases mem_setChunks member with ⟨rfl, rfl⟩ | old
        · exact ⟨rfl, high, low⟩
        · exact holds.shelved place other old
      headed := by simpa using holds.headed }

theorem Holds.takeChunk (holds : Holds base length hand sub)
    (taken : sub.takeChunk list = some (node, next)) :
    Holds base length (node.span :: hand) next ∧
      (list = ChunkList.ofSize node.size ∧ minSize ≤ node.size ∧
        node.size < 66560) ∧
      next.start = sub.start ∧ next.stop = sub.stop ∧
      next.live = sub.live := by
  unfold SubAllocator.takeChunk at taken
  split at taken
  · cases taken
  rename_i first nodes top
  cases taken
  have pieces : sub.pieces.Perm
      (node.span :: (sub.setChunks list nodes).pieces) := by
    refine perm_pieces ⟨?_, ?_⟩ ?_ (takeChunk_frees top) <;> simp
  refine ⟨?_, ?_, by simp⟩
  · exact
      { packed := holds.packed.perm (perm_hand pieces)
        ordered := by simpa using holds.ordered
        bigs := by simpa using holds.bigs
        littles := by simpa using holds.littles
        shelved := fun place other member =>
          holds.shelved place other (mem_takeChunk top member)
        headed := by simpa using holds.headed }
  · exact holds.shelved list node (by rw [top]; exact mem_cons_self)

theorem Holds.cut {mid : Nat} (holds : Holds base length hand sub)
    (low : sub.start ≤ mid) (high : mid ≤ sub.stop) :
    Holds base length (⟨sub.start, mid⟩ :: hand) { sub with start := mid } where
  packed := by
    have front := holds.packed.perm (perm_middle : (hand ++
      ⟨sub.start, sub.stop⟩ :: (sub.live.map LiveBlock.span ++
        sub.frees.map FreeNode.span)).Perm _)
    refine (front.split low high).perm (List.Perm.cons _ ?_)
    exact perm_middle.symm
  ordered := high
  bigs := holds.bigs
  littles := holds.littles
  shelved := holds.shelved
  headed := holds.headed

theorem Holds.setRegion {size : Nat}
    (holds : Holds base length (⟨node.addr, node.addr + size⟩ :: hand) sub) :
    Holds base length hand (sub.setRegion node size) where
  packed := by
    have old := holds.packed.perm (perm_middle :
      ((⟨node.addr, node.addr + size⟩ :: hand) ++
        ⟨sub.start, sub.stop⟩ :: (sub.live.map LiveBlock.span ++
          sub.frees.map FreeNode.span)).Perm _)
    exact old.tail.perm perm_middle.symm
  ordered := Nat.le_add_right _ _
  bigs := holds.bigs
  littles := holds.littles
  shelved := holds.shelved
  headed := holds.headed

theorem Holds.join {addr : Nat}
    (holds : Holds base length (⟨addr, sub.start⟩ :: hand) sub)
    (below : addr ≤ sub.start) :
    Holds base length hand { sub with start := addr } where
  packed := by
    have front := holds.packed.perm (List.Perm.cons _ (perm_middle :
      (hand ++ ⟨sub.start, sub.stop⟩ :: (sub.live.map LiveBlock.span ++
        sub.frees.map FreeNode.span)).Perm _))
    exact front.join.perm perm_middle.symm
  ordered := Nat.le_trans below holds.ordered
  bigs := holds.bigs
  littles := holds.littles
  shelved := holds.shelved
  headed := holds.headed

theorem Holds.shrink {first second : Span Nat}
    (holds : Holds base length (first :: hand) sub)
    (within : second.points ⊆ first.points) :
    Holds base length (second :: hand) sub :=
  { holds with packed := holds.packed.shrink within }

theorem Holds.release {first : Span Nat}
    (holds : Holds base length (first :: hand) sub) :
    Holds base length hand sub :=
  { holds with packed := holds.packed.tail }

theorem Holds.handOut {block : LiveBlock} {list : ChunkList}
    (holds : Holds base length (block.span :: hand) sub) (here : list.Exists)
    (header : block.header = list.header)
    (large : block.request.toNat + allocNodeSize ≤ list.size) :
    Holds base length hand { sub with live := block :: sub.live } where
  packed := by
    refine holds.packed.perm ?_
    refine (perm_middle.symm : (block.span :: (hand ++
      sub.pieces)).Perm (hand ++ block.span :: sub.pieces)).trans ?_
    exact (List.Perm.swap _ _ _).append_left hand
  ordered := holds.ordered
  bigs := holds.bigs
  littles := holds.littles
  shelved := holds.shelved
  headed := by
    intro other member
    rcases mem_cons.mp member with rfl | old
    · exact ⟨list, here, header, large⟩
    · exact holds.headed other old

theorem Holds.takeBack {block : LiveBlock} {addr : Nat}
    (holds : Holds base length hand sub)
    (found : (sub.live.find? fun block => block.addr = addr) = some block) :
    Holds base length (block.span :: hand)
        { sub with
          live := sub.live.eraseP fun block => block.addr = addr } ∧
      block.addr = addr ∧ block ∈ sub.live := by
  obtain ⟨same, before, after, split, none⟩ :=
    find?_eq_some_iff_append.mp found
  have here : block.addr = addr := by simpa using same
  have rest : (sub.live.eraseP fun block => block.addr = addr) =
      before ++ after := by
    rw [split, eraseP_append_right _ (by
      intro other member
      simpa using none other member)]
    simp [here]
  refine ⟨?_, here, by rw [split]; simp⟩
  rw [rest]
  exact
    { packed := by
        refine holds.packed.perm (perm_hand ?_)
        unfold pieces
        rw [split, map_append, map_cons, map_append, append_assoc, append_assoc]
        refine (List.Perm.cons _ perm_middle).trans ?_
        exact List.Perm.swap _ _ _
      ordered := holds.ordered
      bigs := holds.bigs
      littles := holds.littles
      shelved := holds.shelved
      headed := by
        intro other member
        refine holds.headed other ?_
        rw [split]
        rcases mem_append.mp member with early | late
        · exact mem_append_left _ early
        · exact mem_append_right _ (mem_cons_of_mem _ late) }

theorem poolAddFree_moved (node : FreeNode) (place : Nat → Nat → Nat) :
    poolAddFree
        { sub with start := place sub.start sub.stop } node =
      (sub.poolAddFree node).map fun next =>
        { next with start := place next.start next.stop } := by
  unfold poolAddFree
  dsimp only
  generalize (if bigSize ≤ node.size / 4 * 4 then
    ChunkList.ofSize (node.size / 4 * 4 / bigSize * bigSize)
    else ChunkList.ofSize (node.size / 4 * 4 / minSize * minSize)) = list
  by_cases here : list.Exists
  · rw [if_pos here, if_pos here]
    cases list <;> rfl
  · rw [if_neg here, if_neg here]
    rfl

theorem Holds.addBigToList (holds : Holds base length hand sub)
    (small : sub.stop - sub.start < 66560) :
    ∃ next, sub.addBigToList = some next ∧ Holds base length hand next ∧
      next.stop - next.start < 66560 ∧ next.stop = sub.stop ∧
      next.live = sub.live := by
  unfold SubAllocator.addBigToList
  dsimp only
  split
  · rename_i much
    unfold bigSize at much ⊢
    rw [← @poolAddFree_moved sub _ fun start _ =>
      start + (sub.stop - sub.start) / 1024 * 1024]
    generalize sized : (sub.stop - sub.start) / 1024 * 1024 = size
    have whole : size / 4 * 4 = size := by omega
    have cut := @Holds.cut base length hand sub (sub.start + size) holds
      (by omega) (by omega)
    obtain ⟨next, added, later, start, stop, live⟩ :=
      @Holds.poolAddFree base length hand _ ⟨sub.start, size⟩
        (by
          have spans : (FreeNode.mk sub.start size).span =
              ⟨sub.start, sub.start + size⟩ := by
            unfold FreeNode.span
            rw [whole]
          rw [spans]
          exact cut)
        (by change 16 ≤ size; omega) (by change size < 66560; omega)
    refine ⟨next, added, later, ?_, stop, live⟩
    rw [start, stop]
    change sub.stop - (sub.start + size) < 66560
    omega
  · exact ⟨sub, rfl, holds, small, rfl, rfl⟩

theorem Holds.addRestToList (holds : Holds base length hand sub)
    (small : sub.stop - sub.start < 66560) :
    ∃ next, sub.addRestToList = some next ∧ Holds base length hand next ∧
      next.live = sub.live := by
  have cut := holds.cut holds.ordered (Nat.le_refl _)
  unfold SubAllocator.addRestToList
  dsimp only
  split
  · rename_i enough
    unfold minSize at enough
    rw [← @poolAddFree_moved sub _ fun _ stop => stop]
    generalize sized : sub.stop - sub.start = size at small enough
    obtain ⟨next, added, later, _, _, live⟩ :=
      @Holds.poolAddFree base length hand _ ⟨sub.start, size⟩
        (cut.shrink (Set.Ico_subset_Ico_right (by
          change sub.start + size / 4 * 4 ≤ sub.stop
          omega)))
        enough small
    exact ⟨next, added, later, live⟩
  · exact ⟨_, rfl, cut.release, rfl⟩

theorem Holds.addFreetoList (holds : Holds base length hand sub)
    (small : sub.stop - sub.start < 66560) :
    ∃ next, sub.addFreetoList = some next ∧ Holds base length hand next ∧
      next.live = sub.live := by
  obtain ⟨middle, big, first, rest, _, same⟩ := holds.addBigToList small
  obtain ⟨next, little, later, live⟩ := first.addRestToList rest
  refine ⟨next, ?_, later, live.trans same⟩
  unfold SubAllocator.addFreetoList
  rw [big]
  exact little

theorem scanLists_spec {listAt : Nat → ChunkList} {minimum count : Nat}
    {list : ChunkList}
    (found : sub.scanLists listAt minimum count = some (some list)) :
    minimum ≤ list.size := by
  induction count with
  | zero => cases found
  | succ count induction =>
    rw [scanLists] at found
    split_ifs at found with small there
    · cases found
      exact Nat.le_of_not_lt small
    · exact induction found

theorem findList_spec {minimum : Nat} {list : ChunkList}
    (found : sub.findList minimum = some list) : minimum ≤ list.size := by
  unfold findList at found
  split at found
  · cases found
  · rename_i big
    cases found
    exact scanLists_spec big
  · split at found
    · split at found
      · rename_i little
        cases found
        exact scanLists_spec little
      · cases found
    · cases found

theorem Holds.findFreeChunk {minimum : Nat} (holds : Holds base length hand sub)
    (found : sub.findFreeChunk minimum = some (node, next)) :
    Holds base length (node.span :: hand) next ∧
      minimum ≤ node.size / 4 * 4 ∧ next.start = sub.start ∧
      next.stop = sub.stop ∧ next.live = sub.live := by
  obtain ⟨list, chosen, taken⟩ := Option.bind_eq_some_iff.mp found
  obtain ⟨later, ⟨same, least, _⟩, frame⟩ := holds.takeChunk taken
  refine ⟨later, ?_, frame⟩
  have enough := findList_spec chosen
  have fits := ChunkList.size_ofSize least
  rw [← same] at fits
  omega

def Found (base length : Nat) (size : Nat) :
    Option (Nat × Nat) × SubAllocator → Prop
  | (none, sub) => Holds base length [] sub
  | (some (addr, given), sub) =>
    Holds base length [⟨addr, addr + (ChunkList.ofSize given).size⟩] sub ∧
      (ChunkList.ofSize given).Exists ∧
      size ≤ (ChunkList.ofSize given).size

theorem Holds.cutRegion {size : Nat} (holds : Holds base length [] sub)
    (enough : sub.start + size ≤ sub.stop)
    (class_ : (ChunkList.ofSize size).size = size) (bound : size ≤ 65536) :
    Found base length size
      (some (sub.cutRegion size).1, (sub.cutRegion size).2) := by
  have cut := @Holds.cut base length [] sub (sub.start + size) holds
    (Nat.le_add_right _ _) enough
  have here : (ChunkList.ofSize size).Exists :=
    ChunkList.exists_ofSize (by omega)
  refine ⟨?_, here, Nat.le_of_eq class_.symm⟩
  change Holds base length
    [⟨sub.start, sub.start + (ChunkList.ofSize size).size⟩] _
  rw [class_]
  exact cut

theorem Holds.allocatorAlloc (holds : Holds base length [] sub)
    (bound : request.toNat + allocNodeSize ≤ 65536) :
    ∃ result, sub.allocatorAlloc request = some result ∧
      result.2.live = sub.live ∧
      Found base length (neededSize request) result := by
  obtain ⟨_, least, most, class_⟩ := neededSize_spec bound
  have ordered := holds.ordered
  unfold SubAllocator.allocatorAlloc
  dsimp only
  generalize neededSize request = size at least most class_
  have here : (ChunkList.ofSize size).Exists :=
    ChunkList.exists_ofSize (by omega)
  rw [if_neg (not_not.mpr here)]
  cases taken : sub.takeChunk (ChunkList.ofSize size) with
  | some result =>
    obtain ⟨chunk, next⟩ := result
    obtain ⟨later, ⟨same, floor, _⟩, _, _, live⟩ := holds.takeChunk taken
    refine ⟨_, rfl, live, ?_⟩
    have fits := ChunkList.size_ofSize floor
    change Holds base length
      [⟨chunk.addr, chunk.addr + (ChunkList.ofSize (chunk.size / 2 * 2)).size⟩]
      next ∧ (ChunkList.ofSize (chunk.size / 2 * 2)).Exists ∧
        size ≤ (ChunkList.ofSize (chunk.size / 2 * 2)).size
    rw [ChunkList.ofSize_even]
    refine ⟨later.shrink (Set.Ico_subset_Ico_right ?_), ?_, ?_⟩
    · change chunk.addr + (ChunkList.ofSize chunk.size).size ≤
        chunk.addr + chunk.size / 4 * 4
      omega
    · rw [← same]
      exact here
    · rw [← same, class_]
  | none =>
    dsimp only
    by_cases short : sub.stop - sub.start < size
    · rw [if_pos short]
      cases found : sub.findFreeChunk size with
      | none => exact ⟨_, rfl, rfl, holds⟩
      | some result =>
        obtain ⟨chunk, next⟩ := result
        obtain ⟨later, enough, start, stop, live⟩ :=
          holds.findFreeChunk found
        -- the old region goes to the lists or is given up
        have cleared : ∃ clear,
            (if minSize ≤ sub.stop - sub.start then next.addFreetoList
              else some next) = some clear ∧
            Holds base length [chunk.span] clear ∧
            clear.live = next.live := by
          split
          · exact later.addFreetoList (by rw [start, stop]; omega)
          · exact ⟨next, rfl, later, rfl⟩
        obtain ⟨clear, cleared, held, kept⟩ := cleared
        refine ⟨_, congrArg (Option.map _) cleared, ?_, ?_⟩
        · exact kept.trans live
        · exact held.setRegion.cutRegion
            (Nat.add_le_add_left enough _) class_ most
    · rw [if_neg short]
      exact ⟨_, rfl, rfl, holds.cutRegion (by omega) class_ most⟩

theorem Holds.ndAllocatorAlloc (holds : Holds base length [] sub)
    (bound : request.toNat + allocNodeSize ≤ 65536) :
    ∃ result, sub.ndAllocatorAlloc request = some result ∧
      Holds base length [] result.2 := by
  obtain ⟨fits, _, _, _⟩ := neededSize_spec bound
  obtain ⟨result, done, live, found⟩ := holds.allocatorAlloc bound
  unfold SubAllocator.ndAllocatorAlloc
  rw [done]
  obtain ⟨block, next⟩ := result
  cases block with
  | none => exact ⟨_, rfl, found⟩
  | some block =>
    obtain ⟨addr, size⟩ := block
    obtain ⟨later, here, enough⟩ := found
    refine ⟨_, rfl, ?_⟩
    let given : LiveBlock :=
      ⟨addr, (ChunkList.ofSize size).header, request⟩
    have span : given.span =
        ⟨addr, addr + (ChunkList.ofSize size).size⟩ := by
      change Span.mk addr (addr + given.size) = _
      rw [LiveBlock.size_of_header here rfl]
    have out := @Holds.handOut base length [] next given
      (ChunkList.ofSize size) (by rw [span]; exact later) here rfl
      (Nat.le_trans fits enough)
    exact
      { packed := out.packed
        ordered := out.ordered
        bigs := out.bigs
        littles := out.littles
        shelved := out.shelved
        headed := out.headed }

theorem Holds.allocatorFree {chunk : FreeNode}
    (holds : Holds base length [⟨chunk.addr, chunk.addr + chunk.size⟩] sub)
    (least : minSize ≤ chunk.size) (most : chunk.size ≤ 65536)
    (whole : chunk.size / 16 * 16 = chunk.size) :
    ∃ next, sub.allocatorFree chunk = some next ∧
      Holds base length [] next := by
  have ordered := holds.ordered
  unfold SubAllocator.allocatorFree
  dsimp only
  rw [whole]
  split_ifs with touches none larger
  · rw [touches] at holds
    exact ⟨_, rfl, holds.join (by omega)⟩
  · exact ⟨_, rfl, holds.setRegion⟩
  · obtain ⟨next, added, later, _⟩ := holds.addFreetoList (by omega)
    rw [added]
    exact ⟨_, rfl, later.setRegion⟩
  · have span : chunk.span = ⟨chunk.addr, chunk.addr + chunk.size⟩ := by
      unfold FreeNode.span
      have four : chunk.size / 4 * 4 = chunk.size := by omega
      rw [four]
    rw [← span] at holds
    obtain ⟨next, added, later, _⟩ := holds.poolAddFree least (by omega)
    exact ⟨next, added, later⟩

theorem Holds.ndAllocatorFree (holds : Holds base length [] sub) (addr : Nat) :
    ∃ result, sub.ndAllocatorFree addr = some result ∧
      Holds base length [] result.2 := by
  unfold SubAllocator.ndAllocatorFree
  cases found : sub.live.find? fun block => block.addr = addr with
  | none => exact ⟨_, rfl, holds⟩
  | some block =>
    obtain ⟨later, here, live⟩ := holds.takeBack found
    obtain ⟨list, there, header, _⟩ := holds.headed block live
    have size : (ChunkList.ofHeader block.header).size = list.size :=
      LiveBlock.size_of_header there header
    obtain ⟨least, most, whole⟩ := ChunkList.size_of_exists there
    have span : block.span = ⟨addr, addr + list.size⟩ := by
      unfold LiveBlock.span
      rw [here]
      congr 2
    rw [span] at later
    dsimp only
    rw [size]
    have ready : Holds base length [⟨addr, addr + list.size⟩]
        { sub with
          allocatedSize :=
            sub.allocatedSize - UInt64.ofNat (list.size / 4 * 4)
          live := sub.live.eraseP fun block => block.addr = addr } :=
      { packed := later.packed
        ordered := later.ordered
        bigs := later.bigs
        littles := later.littles
        shelved := later.shelved
        headed := later.headed }
    obtain ⟨next, freed, done⟩ :=
      @Holds.allocatorFree base length _ ⟨addr, list.size⟩ ready least most
        whole
    rw [freed]
    exact ⟨_, rfl, done⟩

def step (sub : SubAllocator) (op : AllocatorOp) : SubAllocator :=
  (sub.perform op).getD sub

end SubAllocator

/-- A request that has a list: with its header it is at most 64 KB. -/
def AllocatorOp.Sized : AllocatorOp → Prop
  | alloc request => request.toNat + allocNodeSize ≤ 65536
  | free _ => True

instance : ∀ op : AllocatorOp, Decidable op.Sized
  | .alloc request =>
    inferInstanceAs (Decidable (request.toNat + allocNodeSize ≤ 65536))
  | .free _ => .isTrue trivial

namespace SubAllocator

variable {base length : Nat} {sub : SubAllocator}

theorem Holds.perform {op : AllocatorOp} (holds : Holds base length [] sub)
    (sized : op.Sized) :
    ∃ next, sub.perform op = some next ∧ Holds base length [] next := by
  cases op with
  | alloc request =>
    obtain ⟨result, done, later⟩ := holds.ndAllocatorAlloc sized
    refine ⟨result.2, ?_, later⟩
    rw [SubAllocator.perform, done]
    rfl
  | free addr =>
    obtain ⟨result, done, later⟩ := holds.ndAllocatorFree addr
    refine ⟨result.2, ?_, later⟩
    rw [SubAllocator.perform, done]
    rfl

theorem Holds.step {op : AllocatorOp} (holds : Holds base length [] sub)
    (sized : op.Sized) : Holds base length [] (sub.step op) := by
  obtain ⟨next, done, later⟩ := holds.perform sized
  unfold SubAllocator.step
  rw [done]
  exact later

/-- On an arena of any length every run of requests that have a list keeps the
arena tiled, and no assertion on an index fails. -/
theorem allocatorRun_tiles (base length : Nat) (ops : List AllocatorOp)
    (sized : ∀ op ∈ ops, op.Sized) :
    ∀ sub ∈ Runs.states step (init base length) ops,
      Tiles base length sub ∧
        ∀ op : AllocatorOp, op.Sized → (sub.perform op).isSome = true := by
  have meets : Runs.Meets step
      (fun _ op => True ∧ op.Sized) (init base length) ops :=
    Runs.Meets.and_forall (Runs.meets_of_forall (fun _ _ => trivial) _ _) sized
  have holds := Runs.invariant_of_meets
    (fun sub op (holds : Holds base length [] sub) (allowed : True ∧ op.Sized) =>
      holds.step allowed.2)
    (holds_init base length) meets
  intro sub visited
  refine ⟨(holds sub visited).tiles, ?_⟩
  intro op fits
  obtain ⟨next, done, _⟩ := (holds sub visited).perform fits
  rw [done]
  rfl

/-- Blocks of both kinds, one of which becomes the region when it is freed; the
last request is met from the list the old region went to. -/
def mixedOps : List AllocatorOp :=
  [.alloc 100, .alloc 3000, .alloc 500, .free 112, .alloc 2000, .alloc 900,
    .alloc 380]

theorem allocatorRun_tiles_mixed :
    ((mixedOps.foldl step (init 0 4096)).live.map LiveBlock.addr) =
        [3696, 2160, 112, 3184, 0] ∧
      ∀ sub ∈ Runs.states step (init 0 4096) mixedOps,
        Tiles 0 4096 sub :=
  ⟨by decide +kernel, fun sub visited =>
    (allocatorRun_tiles 0 4096 mixedOps (by decide) sub visited).1⟩

/-- The size of a request and its header comes out as 0. -/
theorem wrappedRequest_not_tiles :
    ¬ Tiles 0 64 ((init 0 64).step (.alloc 18446744073709551608)) := by
  intro tiles
  have large := tiles.large ⟨0, 0, 18446744073709551608⟩ (by decide +kernel)
  exact absurd large (by decide +kernel)

end SubAllocator

end NdNet
