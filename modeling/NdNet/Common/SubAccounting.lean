import NdNet.Common.SubAllocator

/-!
# The accounts of the sub-allocator

`allocated_size` grows by the size a block has when it is handed out and
shrinks by the size its header is decoded to when it is freed; the arena is
recycled when it is 0.  The header only keeps the class of the size, so that
the two sizes differ for a block that is larger than its class.  Such a block
comes from the list of its class: what is left of a region goes there as it is,
and may have any size.

The sizes at the handing out are kept beside the allocator, and a run is
followed until the two accounts part.
-/

namespace NdNet

open List

open Tiling (Span Packed)

variable {request : UInt64} {addr size : Nat}

namespace SubAllocator

def rebook (live : List LiveBlock) (allocated : UInt64)
    (sub : SubAllocator) : SubAllocator :=
  { sub with live := live, allocatedSize := allocated }

section Rebook

variable (live : List LiveBlock) (allocated : UInt64) (sub : SubAllocator)

@[simp]
theorem rebook_self : sub.rebook sub.live sub.allocatedSize = sub := rfl

@[simp]
theorem chunks_rebook (list : ChunkList) :
    (sub.rebook live allocated).chunks list = sub.chunks list := by
  cases list <;> rfl

theorem setChunks_rebook (list : ChunkList) (nodes : List FreeNode) :
    (sub.rebook live allocated).setChunks list nodes =
      (sub.setChunks list nodes).rebook live allocated := by
  cases list <;> rfl

theorem poolAddFree_rebook (node : FreeNode) :
    (sub.rebook live allocated).poolAddFree node =
      (sub.poolAddFree node).map (rebook live allocated) := by
  unfold poolAddFree
  simp only [chunks_rebook, setChunks_rebook]
  split <;> split <;> rfl

theorem addBigToList_rebook :
    (sub.rebook live allocated).addBigToList =
      sub.addBigToList.map (rebook live allocated) := by
  unfold addBigToList
  simp only [poolAddFree_rebook, Option.map_map]
  change (if bigSize < sub.stop - sub.start then _ else _) =
    Option.map _ (if bigSize < sub.stop - sub.start then _ else _)
  split
  · rw [Option.map_map]
    rfl
  · rfl

theorem addRestToList_rebook :
    (sub.rebook live allocated).addRestToList =
      sub.addRestToList.map (rebook live allocated) := by
  unfold addRestToList
  simp only [poolAddFree_rebook, Option.map_map]
  change (if minSize ≤ sub.stop - sub.start then _ else _) =
    Option.map _ (if minSize ≤ sub.stop - sub.start then _ else _)
  split
  · rw [Option.map_map]
    rfl
  · rfl

theorem addFreetoList_rebook :
    (sub.rebook live allocated).addFreetoList =
      sub.addFreetoList.map (rebook live allocated) := by
  unfold addFreetoList
  rw [addBigToList_rebook]
  cases sub.addBigToList with
  | none => rfl
  | some next => exact addRestToList_rebook live allocated next

theorem scanLists_rebook (listAt : Nat → ChunkList) (minimum count : Nat) :
    (sub.rebook live allocated).scanLists listAt minimum count =
      sub.scanLists listAt minimum count := by
  induction count with
  | zero => rfl
  | succ count induction =>
    simp only [scanLists, chunks_rebook, induction]

theorem takeChunk_rebook (list : ChunkList) :
    (sub.rebook live allocated).takeChunk list =
      (sub.takeChunk list).map fun (node, next) =>
        (node, next.rebook live allocated) := by
  unfold takeChunk
  rw [chunks_rebook]
  split
  · rfl
  · rw [setChunks_rebook]
    rfl

theorem findFreeChunk_rebook (minimum : Nat) :
    (sub.rebook live allocated).findFreeChunk minimum =
      (sub.findFreeChunk minimum).map fun (node, next) =>
        (node, next.rebook live allocated) := by
  have same : (sub.rebook live allocated).findList minimum =
      sub.findList minimum := by
    unfold findList
    simp only [scanLists_rebook]
  unfold findFreeChunk
  rw [same]
  cases sub.findList minimum with
  | none => rfl
  | some list => exact takeChunk_rebook live allocated sub list

theorem allocatorAlloc_rebook (request : UInt64) :
    (sub.rebook live allocated).allocatorAlloc request =
      (sub.allocatorAlloc request).map fun (block, next) =>
        (block, next.rebook live allocated) := by
  unfold allocatorAlloc
  simp only [takeChunk_rebook, findFreeChunk_rebook]
  split
  · rfl
  cases sub.takeChunk (ChunkList.ofSize (neededSize request)) with
  | some taken => rfl
  | none =>
    change (if sub.stop - sub.start < neededSize request then _ else _) =
      Option.map _
        (if sub.stop - sub.start < neededSize request then _ else _)
    split
    · cases sub.findFreeChunk (neededSize request) with
      | none => rfl
      | some found =>
        change Option.map _ (if minSize ≤ sub.stop - sub.start then
            (found.2.rebook live allocated).addFreetoList else _) =
          Option.map _ (Option.map _ (if minSize ≤ sub.stop - sub.start
            then _ else _))
        split
        · rw [addFreetoList_rebook, Option.map_map, Option.map_map]
          rfl
        · rfl
    · rfl

theorem allocatorFree_rebook (chunk : FreeNode) :
    (sub.rebook live allocated).allocatorFree chunk =
      (sub.allocatorFree chunk).map (rebook live allocated) := by
  unfold allocatorFree
  simp only [addFreetoList_rebook, poolAddFree_rebook, Option.map_map]
  change (if chunk.addr + chunk.size / 16 * 16 = sub.start then _ else
      if sub.stop - sub.start = 0 then _ else
        if sub.stop - sub.start + 3 < chunk.size then _ else _) =
    Option.map _ (if chunk.addr + chunk.size / 16 * 16 = sub.start then _ else
      if sub.stop - sub.start = 0 then _ else
        if sub.stop - sub.start + 3 < chunk.size then _ else _)
  split
  · rfl
  · split
    · rfl
    · split
      · rw [Option.map_map]
        rfl
      · rfl

end Rebook

theorem neededSize_shape (request : UInt64) :
    (16 ≤ neededSize request ∧ neededSize request < 1024 ∧
        neededSize request % 16 = 0) ∨
      (1024 ≤ neededSize request ∧ neededSize request % 1024 = 0) := by
  unfold neededSize sizeAline bigAline ndAline bigSize minSize
  generalize (request + 8).toNat = total
  dsimp only
  split <;> omega

theorem exists_fitting (here : (ChunkList.ofSize (neededSize request)).Exists) :
    ∃ fitting : UInt64, fitting.toNat + allocNodeSize ≤ 65536 ∧
      neededSize fitting = neededSize request := by
  have shape := neededSize_shape request
  generalize neededSize request = size at here shape
  have most : size ≤ 65536 := by
    unfold ChunkList.ofSize at here
    split at here
    · have bound : size / bigSize - 1 < 64 := here
      unfold bigSize at bound
      omega
    · rename_i little
      unfold bigSize at little
      omega
  have value : (UInt64.ofNat (size - 8)).toNat = size - 8 :=
    UInt64.toNat_ofNat_of_lt' (by
      change size - 8 < 18446744073709551616
      omega)
  have total : (UInt64.ofNat (size - 8) + 8).toNat = size := by
    rw [UInt64.toNat_add, value]
    change (size - 8 + 8) % 18446744073709551616 = size
    omega
  refine ⟨UInt64.ofNat (size - 8), ?_, ?_⟩
  · unfold allocNodeSize
    omega
  · unfold neededSize
    unfold sizeAline bigAline ndAline bigSize minSize
    dsimp only
    split <;> omega

theorem size_ofSize_neededSize (request : UInt64) :
    (ChunkList.ofSize (neededSize request)).size = neededSize request := by
  have shape := neededSize_shape request
  unfold ChunkList.ofSize ChunkList.size bigSize minSize
  split_ifs <;> dsimp only <;> omega

theorem allocatorAlloc_size {sub next : SubAllocator}
    (done : sub.allocatorAlloc request = some (some (addr, size), next)) :
    match (sub.chunks (ChunkList.ofSize (neededSize request))).head? with
    | some chunk => size = chunk.size / 2 * 2
    | none => size = neededSize request := by
  unfold allocatorAlloc takeChunk at done
  dsimp only at done
  split at done
  · cases done
  cases stored : sub.chunks (ChunkList.ofSize (neededSize request)) with
  | cons chunk chunks =>
    rw [stored] at done
    cases done
    rfl
  | nil =>
    rw [stored] at done
    dsimp only at done
    split at done
    · split at done
      · cases done
      · obtain ⟨_, _, same⟩ := Option.map_eq_some_iff.mp done
        cases same
        rfl
    · cases done
      rfl

theorem allocatorAlloc_none {sub next : SubAllocator}
    (done : sub.allocatorAlloc request = some (none, next)) :
    sub.chunks (ChunkList.ofSize (neededSize request)) = [] := by
  cases stored : sub.chunks (ChunkList.ofSize (neededSize request)) with
  | nil => rfl
  | cons chunk chunks =>
    unfold allocatorAlloc takeChunk at done
    dsimp only at done
    rw [stored] at done
    split at done <;> cases done

end SubAllocator

theorem ChunkList.size_units (list : ChunkList) : list.size % 16 = 0 := by
  cases list with
  | big index =>
    unfold ChunkList.size bigSize
    dsimp only
    omega
  | little index =>
    unfold ChunkList.size minSize
    dsimp only
    omega

namespace SubAllocator

/-- The region is a number of units of 16 bytes, and every chunk has the size
of its list. -/
structure Aligned (sub : SubAllocator) : Prop where
  region : ∃ units, sub.stop = sub.start + 16 * units
  shelved : ∀ list, ∀ node ∈ sub.chunks list, node.size / 2 * 2 = list.size

def Exact (size : Nat) : Prop :=
  minSize ≤ size ∧ (ChunkList.ofSize size).size = size

variable {base length : Nat} {hand : List (Span Nat)}
  {sub next : SubAllocator}

theorem exact_neededSize (request : UInt64) : Exact (neededSize request) := by
  refine ⟨?_, size_ofSize_neededSize request⟩
  have shape := neededSize_shape request
  unfold minSize
  omega

theorem exact_of_units {size : Nat} (positive : 0 < size)
    (units : size % 16 = 0) (kilobytes : size % 1024 = 0 ∨ size < 1024) :
    Exact size := by
  unfold Exact ChunkList.ofSize ChunkList.size bigSize minSize
  split_ifs <;> dsimp only <;> omega

theorem Exact.units {size : Nat} (exact_ : Exact size) :
    size % 16 = 0 ∧ (size % 1024 = 0 ∨ size < 1024) := by
  obtain ⟨least, same⟩ := exact_
  unfold ChunkList.ofSize ChunkList.size bigSize minSize at *
  split_ifs at same <;> dsimp only at same <;> omega

theorem aligned_init (base : Nat) {length : Nat} (whole : length % 16 = 0) :
    (init base length).Aligned where
  region := ⟨length / 16, by
    change base + length = base + 16 * (length / 16)
    omega⟩
  shelved := by
    intro list node member
    have empty : (init base length).chunks list = [] := by
      cases list with
      | big index | little index =>
        change (replicate 64 []).getD index [] = []
        rw [getD_eq_getElem?_getD, getElem?_replicate]
        split <;> rfl
    rw [empty] at member
    exact absurd member not_mem_nil

theorem Aligned.rebook (aligned : sub.Aligned) (live : List LiveBlock)
    (allocated : UInt64) : (sub.rebook live allocated).Aligned where
  region := aligned.region
  shelved := by
    intro list node member
    exact aligned.shelved list node member

theorem Aligned.poolAddFree {node : FreeNode} (aligned : sub.Aligned)
    (exact_ : Exact node.size) (done : sub.poolAddFree node = some next) :
    next.Aligned ∧ next.start = sub.start ∧ next.stop = sub.stop := by
  obtain ⟨units, _⟩ := exact_.units
  unfold SubAllocator.poolAddFree at done
  dsimp only at done
  rw [← ChunkList.ofSize_flagged] at done
  split at done
  · cases done
    have class_ : ChunkList.ofSize (node.size / 2 * 2 + 1) =
        ChunkList.ofSize node.size := by
      unfold ChunkList.ofSize bigSize minSize
      split_ifs <;> first | omega | (congr 1; omega)
    refine ⟨⟨?_, ?_⟩, by simp⟩
    · simpa using aligned.region
    · intro place other member
      rcases mem_setChunks member with ⟨rfl, rfl⟩ | old
      · change (node.size / 2 * 2 + 1) / 2 * 2 = _
        rw [class_, exact_.2]
        omega
      · exact aligned.shelved place other old
  · cases done

theorem Aligned.takeChunk {list : ChunkList} {node : FreeNode}
    (aligned : sub.Aligned) (taken : sub.takeChunk list = some (node, next)) :
    next.Aligned ∧ node.size / 2 * 2 = list.size ∧
      next.start = sub.start ∧ next.stop = sub.stop := by
  unfold SubAllocator.takeChunk at taken
  split at taken
  · cases taken
  · rename_i first nodes top
    cases taken
    refine ⟨⟨?_, ?_⟩, ?_, by simp⟩
    · simpa using aligned.region
    · intro place other member
      exact aligned.shelved place other (mem_takeChunk top member)
    · exact aligned.shelved list node (by rw [top]; exact mem_cons_self)

theorem Aligned.addFreetoList (aligned : sub.Aligned)
    (done : sub.addFreetoList = some next) : next.Aligned := by
  obtain ⟨middle, big, rest⟩ := Option.bind_eq_some_iff.mp done
  obtain ⟨units, region⟩ := aligned.region
  have first : middle.Aligned ∧ middle.stop - middle.start ≤ 1024 := by
    unfold addBigToList bigSize at big
    dsimp only at big
    split at big
    · rename_i much
      obtain ⟨added, shelf, rfl⟩ := Option.map_eq_some_iff.mp big
      have fits : Exact ((sub.stop - sub.start) / 1024 * 1024) :=
        exact_of_units (by omega) (by omega) (.inl (Nat.mul_mod_left _ _))
      obtain ⟨later, start, stop⟩ := @Aligned.poolAddFree _ _
        ⟨sub.start, (sub.stop - sub.start) / 1024 * 1024⟩ aligned fits shelf
      refine ⟨⟨⟨(sub.stop - sub.start) % 1024 / 16, ?_⟩, later.shelved⟩, ?_⟩
      · change added.stop = added.start +
          (sub.stop - sub.start) / 1024 * 1024 + _
        omega
      · change added.stop - (added.start +
          (sub.stop - sub.start) / 1024 * 1024) ≤ 1024
        omega
    · cases big
      exact ⟨aligned, by omega⟩
  obtain ⟨middleAligned, small⟩ := first
  obtain ⟨units, region⟩ := middleAligned.region
  unfold addRestToList minSize at rest
  dsimp only at rest
  split at rest
  · obtain ⟨added, shelf, rfl⟩ := Option.map_eq_some_iff.mp rest
    have fits : Exact (middle.stop - middle.start) :=
      exact_of_units (by omega) (by omega) (by omega)
    obtain ⟨later, _⟩ := @Aligned.poolAddFree _ _
      ⟨middle.start, middle.stop - middle.start⟩ middleAligned fits shelf
    exact ⟨⟨0, rfl⟩, later.shelved⟩
  · cases rest
    exact ⟨⟨0, rfl⟩, middleAligned.shelved⟩

theorem Aligned.allocatorAlloc {block : Option (Nat × Nat)}
    (aligned : sub.Aligned)
    (done : sub.allocatorAlloc request = some (block, next)) :
    next.Aligned := by
  obtain ⟨units, _⟩ := (exact_neededSize request).units
  unfold SubAllocator.allocatorAlloc at done
  dsimp only at done
  generalize neededSize request = size at done units
  obtain ⟨_, region⟩ := aligned.region
  split at done
  · cases done
  split at done
  · rename_i taken
    cases done
    exact (aligned.takeChunk taken).1
  · split at done
    · split at done
      · cases done
        exact aligned
      rename_i chunk rest found
      obtain ⟨list, chosen, taken⟩ := Option.bind_eq_some_iff.mp found
      obtain ⟨later, whole, _⟩ := aligned.takeChunk taken
      have enough := findList_spec chosen
      have class_ := list.size_units
      obtain ⟨clear, cleared, same⟩ := Option.map_eq_some_iff.mp done
      have kept : clear.Aligned := by
        split at cleared
        · exact later.addFreetoList cleared
        · cases cleared
          exact later
      cases same
      refine ⟨⟨(chunk.size / 4 * 4 - size) / 16, ?_⟩, kept.shelved⟩
      change chunk.addr + chunk.size / 4 * 4 = chunk.addr + size + _
      omega
    · cases done
      refine ⟨?_, aligned.shelved⟩
      refine ⟨(sub.stop - sub.start - size) / 16, ?_⟩
      change sub.stop = sub.start + size + _
      omega

theorem Aligned.allocatorFree {chunk : FreeNode} (aligned : sub.Aligned)
    (exact_ : Exact chunk.size) (done : sub.allocatorFree chunk = some next) :
    next.Aligned := by
  obtain ⟨units, _⟩ := exact_.units
  obtain ⟨count, region⟩ := aligned.region
  have whole : chunk.size / 16 * 16 = chunk.size := by omega
  unfold SubAllocator.allocatorFree at done
  dsimp only at done
  rw [whole] at done
  split at done
  · cases done
    refine ⟨⟨chunk.size / 16 + count, ?_⟩, aligned.shelved⟩
    change sub.stop = chunk.addr + _
    omega
  · split at done
    · cases done
      refine ⟨⟨chunk.size / 16, ?_⟩, aligned.shelved⟩
      change chunk.addr + chunk.size = chunk.addr + _
      omega
    · split at done
      · obtain ⟨added, shelf, rfl⟩ := Option.map_eq_some_iff.mp done
        refine ⟨⟨chunk.size / 16, ?_⟩, (aligned.addFreetoList shelf).shelved⟩
        change chunk.addr + chunk.size = chunk.addr + _
        omega
      · exact (aligned.poolAddFree exact_ done).1

theorem exact_size {list : ChunkList} (here : list.Exists) :
    Exact list.size := by
  cases list with
  | big index =>
    refine exact_of_units ?_ (ChunkList.size_units _) (.inl ?_)
    · unfold ChunkList.size bigSize
      dsimp only
      omega
    · exact Nat.mul_mod_left _ _
  | little index =>
    have bound : index < 64 := here
    refine exact_of_units ?_ (ChunkList.size_units _) ?_
    · unfold ChunkList.size minSize
      dsimp only
      omega
    · unfold ChunkList.size minSize
      dsimp only
      omega

end SubAllocator

def AllocatorOp.Listed : AllocatorOp → Prop
  | alloc request =>
    (ChunkList.ofSize (SubAllocator.neededSize request)).Exists
  | free _ => True

/-- A sub-allocator beside the blocks it has handed out and not got back, with
the sizes they were handed out with. -/
structure Booked where
  sub : SubAllocator
  handedOut : List (Nat × Nat)
  deriving DecidableEq, Repr

namespace Booked

def record (state : Booked) : AllocatorOp → List (Nat × Nat)
  | .alloc request =>
    match state.sub.allocatorAlloc request with
    | some (some block, _) => block :: state.handedOut
    | _ => state.handedOut
  | .free addr => state.handedOut.eraseP fun block => block.1 = addr

def step (state : Booked) (op : AllocatorOp) : Booked :=
  ⟨state.sub.step op, state.record op⟩

def init (base length : Nat) : Booked :=
  ⟨SubAllocator.init base length, []⟩

def Answers (state : Booked) (op : AllocatorOp) : Prop :=
  (state.sub.perform op).isSome = true

/-- The sizes the headers are decoded to are those of the handing out, the
count is their sum, and the arena is recycled when no block is left. -/
structure Accounts (state : Booked) : Prop where
  recovered : (state.sub.live.map fun block => (block.addr, block.size)) =
    state.handedOut
  total : state.sub.allocatedSize.toNat = (state.handedOut.map Prod.snd).sum
  recycled : state.sub.allocatedSize = 0 ↔ state.sub.live = []

/-- The list of the request is one of the allocator's, and its first chunk is
not larger than the size that is looked for. -/
def FillsClass (state : Booked) : AllocatorOp → Prop
  | .alloc request =>
    let size := SubAllocator.neededSize request
    (ChunkList.ofSize size).Exists ∧
      ∀ chunk ∈ (state.sub.chunks (ChunkList.ofSize size)).head?,
        chunk.size / 2 * 2 = size
  | .free _ => True

instance (state : Booked) : ∀ op : AllocatorOp, Decidable (state.FillsClass op)
  | .alloc _ => inferInstanceAs (Decidable (_ ∧ _))
  | .free _ => .isTrue trivial

end Booked

def LiveBlock.entry (block : LiveBlock) : Nat × Nat :=
  (block.addr, block.header)

variable {block : LiveBlock}

namespace SubAllocator

variable {base length : Nat} {sub next : SubAllocator}

/-- The arena is tiled if some requests, which the allocator does not keep, are
put in the place of those of the live blocks. -/
def Tiled (base length : Nat) (sub : SubAllocator) : Prop :=
  ∃ live : List LiveBlock,
    live.map LiveBlock.entry = sub.live.map LiveBlock.entry ∧
      Holds base length [] (sub.rebook live 0)

theorem Holds.recount {live : List LiveBlock} {first second : UInt64}
    (holds : Holds base length [] (sub.rebook live first)) :
    Holds base length [] (sub.rebook live second) where
  packed := holds.packed
  ordered := holds.ordered
  bigs := holds.bigs
  littles := holds.littles
  shelved := holds.shelved
  headed := holds.headed

theorem map_size_of_entries {first second : List LiveBlock}
    (same : first.map LiveBlock.entry = second.map LiveBlock.entry) :
    first.map LiveBlock.size = second.map LiveBlock.size := by
  have sizes : ∀ blocks : List LiveBlock, blocks.map LiveBlock.size =
      (blocks.map LiveBlock.entry).map fun entry =>
        (ChunkList.ofHeader entry.2).size := by
    intro blocks
    rw [map_map]
    rfl
  rw [sizes first, sizes second, same]

theorem Tiled.sum_le (tiled : Tiled base length sub) :
    (sub.live.map LiveBlock.size).sum ≤ length := by
  obtain ⟨live, same, holds⟩ := tiled
  have whole : Packed ((Finset.Ico base (base + length) : Finset Nat) : Set Nat)
      (sub.rebook live 0).pieces := by
    rw [Finset.coe_Ico]
    exact holds.packed
  have least := whole.total_le
  have widths : ∀ block : LiveBlock,
      (Finset.Ico block.span.lo block.span.hi).card = block.size := by
    intro block
    rw [Nat.card_Ico]
    exact Nat.add_sub_cancel_left _ _
  have split : ((sub.rebook live 0).pieces.map fun span =>
      (Finset.Ico span.lo span.hi).card).sum =
        (Finset.Ico sub.start sub.stop).card +
          ((live.map LiveBlock.size).sum +
            ((sub.frees.map FreeNode.span).map fun span =>
              (Finset.Ico span.lo span.hi).card).sum) := by
    unfold pieces
    rw [map_cons, map_append, sum_cons, sum_append, map_map]
    congr 3
    exact map_congr_left fun block _ => widths block
  rw [split, Nat.card_Ico base (base + length), Nat.add_sub_cancel_left]
    at least
  rw [← map_size_of_entries same]
  omega

theorem Tiled.headed (tiled : Tiled base length sub) (member : block ∈ sub.live)
    :
    ∃ list : ChunkList, list.Exists ∧ block.size = list.size := by
  obtain ⟨live, same, holds⟩ := tiled
  have entry : block.entry ∈ live.map LiveBlock.entry := by
    rw [same]
    exact mem_map_of_mem member
  obtain ⟨other, there, equal⟩ := mem_map.mp entry
  obtain ⟨list, here, header, _⟩ := holds.headed other there
  have headers : block.header = list.header := by
    rw [← header]
    exact (congrArg Prod.snd equal).symm
  exact ⟨list, here, LiveBlock.size_of_header here headers⟩

theorem Tiled.recycled (tiled : Tiled base length sub)
    (total : sub.allocatedSize.toNat = (sub.live.map LiveBlock.size).sum) :
    sub.allocatedSize = 0 ↔ sub.live = [] := by
  constructor
  · intro zero
    rw [zero] at total
    cases blocks : sub.live with
    | nil => rfl
    | cons block rest =>
      obtain ⟨list, here, size⟩ := tiled.headed
        (by rw [blocks]; exact mem_cons_self : block ∈ sub.live)
      have least := (ChunkList.size_of_exists here).1
      rw [blocks, map_cons, sum_cons, size] at total
      change 0 = _ at total
      unfold minSize at least
      omega
  · intro none
    rw [none] at total
    exact UInt64.toNat_inj.mp total

theorem Tiled.allocatorAlloc (tiled : Tiled base length sub)
    (here : (ChunkList.ofSize (neededSize request)).Exists) :
    ∃ block next, sub.allocatorAlloc request = some (block, next) ∧
      next.live = sub.live ∧ next.allocatedSize = sub.allocatedSize ∧
      ∃ live : List LiveBlock,
        live.map LiveBlock.entry = sub.live.map LiveBlock.entry ∧
          Found base length (neededSize request)
            (block, next.rebook live 0) := by
  obtain ⟨live, same, holds⟩ := tiled
  obtain ⟨fitting, bound, needed⟩ := exists_fitting here
  obtain ⟨_, done, _, found⟩ := holds.allocatorAlloc bound
  have moved : sub.allocatorAlloc fitting = sub.allocatorAlloc request := by
    unfold SubAllocator.allocatorAlloc
    rw [needed]
  rw [allocatorAlloc_rebook, moved] at done
  obtain ⟨⟨block, next⟩, here, rfl⟩ := Option.map_eq_some_iff.mp done
  have frame := allocatorAlloc_rebook sub.live sub.allocatedSize sub request
  rw [rebook_self, here] at frame
  have kept : next = next.rebook sub.live sub.allocatedSize :=
    Option.some.inj (congrArg (Option.map Prod.snd) frame)
  refine ⟨block, next, here, ?_, ?_, live, same, needed ▸ found⟩
  · rw [kept]
    rfl
  · rw [kept]
    rfl

theorem Tiled.ofSize_found (tiled : Tiled base length sub)
    (done : sub.allocatorAlloc request = some (some (addr, size), next)) :
    ChunkList.ofSize size = ChunkList.ofSize (neededSize request) := by
  have given := allocatorAlloc_size done
  cases first : (sub.chunks (ChunkList.ofSize (neededSize request))).head? with
  | none =>
    rw [first] at given
    exact congrArg _ given
  | some chunk =>
    rw [first] at given
    obtain ⟨blocks, _, holds⟩ := tiled
    have member : chunk ∈ (sub.rebook blocks 0).chunks
        (ChunkList.ofSize (neededSize request)) := by
      exact mem_of_head? first
    rw [(given : size = _), ChunkList.ofSize_even,
      ← (holds.shelved _ chunk member).1]

theorem Tiled.handOut {request : UInt64} {addr size : Nat} {count : UInt64}
    {blocks : List LiveBlock}
    (same : blocks.map LiveBlock.entry = sub.live.map LiveBlock.entry)
    (here : (ChunkList.ofSize (neededSize request)).Exists)
    (found : Found base length (neededSize request)
      (some (addr, size), next.rebook blocks 0)) :
    Tiled base length (next.rebook
      (⟨addr, (ChunkList.ofSize size).header, request⟩ :: sub.live)
      count) := by
  obtain ⟨fitting, bound, needed⟩ := exists_fitting here
  obtain ⟨fits, _⟩ := neededSize_spec bound
  rw [needed] at fits
  obtain ⟨held, there, enough⟩ := found
  let given : LiveBlock := ⟨addr, (ChunkList.ofSize size).header, fitting⟩
  refine ⟨given :: blocks, ?_, ?_⟩
  · change _ :: _ = _ :: _
    rw [same]
    rfl
  · have inHand : Holds base length [given.span] (next.rebook blocks 0) := by
      unfold LiveBlock.span
      rw [LiveBlock.size_of_header there rfl]
      exact held
    exact inHand.handOut there rfl (Nat.le_trans fits enough)

theorem ndAllocatorFree_found {addr : Nat} {block : LiveBlock}
    (found : (sub.live.find? fun block => block.addr = addr) = some block) :
    sub.ndAllocatorFree addr =
      (sub.allocatorFree ⟨addr, block.size⟩).map fun next =>
        let next := next.rebook
          (sub.live.eraseP fun block => block.addr = addr)
          (sub.allocatedSize - UInt64.ofNat (block.size / 4 * 4))
        (if next.allocatedSize = 0 then 0 else 1, next) := by
  unfold ndAllocatorFree
  rw [found]
  change Option.map _ ((sub.rebook _ _).allocatorFree _) = _
  rw [allocatorFree_rebook, Option.map_map]
  rfl

theorem perm_eraseP_of_find? {α : Type} {test : α → Bool} {elements : List α}
    {element : α} (found : elements.find? test = some element) :
    elements.Perm (element :: elements.eraseP test) := by
  obtain ⟨here, before, after, split, none⟩ :=
    find?_eq_some_iff_append.mp found
  have rest : elements.eraseP test = before ++ after := by
    rw [split, eraseP_append_right _ (by
      intro other member
      simpa using none other member), eraseP_cons_of_pos here]
  rw [rest, split]
  exact perm_middle

theorem sum_eraseP {blocks : List LiveBlock} {addr : Nat}
    (found : (blocks.find? fun block => block.addr = addr) = some block) :
    (blocks.map LiveBlock.size).sum = block.size +
      ((blocks.eraseP fun block => block.addr = addr).map
        LiveBlock.size).sum :=
  ((perm_eraseP_of_find? found).map LiveBlock.size).sum_eq

theorem find?_entry (blocks : List LiveBlock) (addr : Nat) :
    (blocks.find? fun block => block.addr = addr).map LiveBlock.entry =
      (blocks.map LiveBlock.entry).find? fun entry => entry.1 = addr := by
  rw [find?_map]
  rfl

theorem eraseP_entry (blocks : List LiveBlock) (addr : Nat) :
    (blocks.eraseP fun block => block.addr = addr).map LiveBlock.entry =
      (blocks.map LiveBlock.entry).eraseP fun entry => entry.1 = addr := by
  rw [eraseP_map]
  rfl

theorem Tiled.ndAllocatorFree {addr : Nat} (tiled : Tiled base length sub)
    (found : (sub.live.find? fun block => block.addr = addr) = some block) :
    ∃ next, sub.allocatorFree ⟨addr, block.size⟩ = some next ∧
      Tiled base length (next.rebook
        (sub.live.eraseP fun block => block.addr = addr)
        (sub.allocatedSize - UInt64.ofNat (block.size / 4 * 4))) := by
  obtain ⟨live, same, holds⟩ := tiled
  have entries := find?_entry live addr
  rw [same, ← find?_entry, found] at entries
  obtain ⟨other, first, equal⟩ := Option.map_eq_some_iff.mp entries
  have sizes : other.size = block.size := by
    unfold LiveBlock.size
    rw [show other.header = block.header from congrArg Prod.snd equal]
  obtain ⟨result, done, later⟩ := holds.ndAllocatorFree addr
  rw [@ndAllocatorFree_found (sub.rebook live 0) addr other first, sizes,
    allocatorFree_rebook, Option.map_map] at done
  obtain ⟨next, freed, rfl⟩ := Option.map_eq_some_iff.mp done
  refine ⟨next, freed, live.eraseP fun block => block.addr = addr, ?_, ?_⟩
  · rw [eraseP_entry, same, ← eraseP_entry]
    rfl
  · exact @Holds.recount base length next _ _ 0 later

end SubAllocator

namespace Booked

open SubAllocator (Tiled neededSize)

variable {base length : Nat} {state : Booked}

/-- What holds between two calls. -/
structure Kept (base length : Nat) (state : Booked) : Prop where
  tiled : Tiled base length state.sub
  accounts : state.Accounts

theorem kept_init (base length : Nat) : (init base length).Kept base length where
  tiled := ⟨[], rfl, SubAllocator.holds_init base length⟩
  accounts := ⟨rfl, rfl, by simp [init, SubAllocator.init]⟩

theorem sum_handedOut
    (recovered : (state.sub.live.map fun block => (block.addr, block.size)) =
      state.handedOut) :
    (state.handedOut.map Prod.snd).sum =
      (state.sub.live.map LiveBlock.size).sum := by
  rw [← recovered, map_map]
  rfl

theorem Kept.of_tiled (tiled : Tiled base length state.sub)
    (recovered : (state.sub.live.map fun block => (block.addr, block.size)) =
      state.handedOut)
    (total : state.sub.allocatedSize.toNat =
      (state.handedOut.map Prod.snd).sum) : state.Kept base length where
  tiled := tiled
  accounts :=
    { recovered := recovered
      total := total
      recycled := tiled.recycled (total.trans (sum_handedOut recovered)) }

theorem step_alloc_none {next : SubAllocator}
    (done : state.sub.allocatorAlloc request = some (none, next)) :
    state.Answers (.alloc request) ∧
      state.step (.alloc request) = ⟨next, state.handedOut⟩ := by
  have performed : state.sub.perform (.alloc request) = some next := by
    unfold SubAllocator.perform SubAllocator.ndAllocatorAlloc
    dsimp only
    rw [done]
    rfl
  unfold Answers step SubAllocator.step record
  dsimp only
  rw [performed, done]
  exact ⟨rfl, rfl⟩

theorem step_alloc_some {next : SubAllocator}
    (done : state.sub.allocatorAlloc request = some (some (addr, size), next)) :
    state.Answers (.alloc request) ∧
      state.step (.alloc request) =
        ⟨next.rebook
            (⟨addr, (ChunkList.ofSize size).header, request⟩ :: next.live)
            (next.allocatedSize + UInt64.ofNat (size % 4294967296)),
          (addr, size) :: state.handedOut⟩ := by
  have performed : state.sub.perform (.alloc request) =
      some (next.rebook
        (⟨addr, (ChunkList.ofSize size).header, request⟩ :: next.live)
        (next.allocatedSize + UInt64.ofNat (size % 4294967296))) := by
    unfold SubAllocator.perform SubAllocator.ndAllocatorAlloc
    dsimp only
    rw [done]
    rfl
  unfold Answers step SubAllocator.step record
  dsimp only
  rw [performed, done]
  exact ⟨rfl, rfl⟩

theorem Kept.alloc (short : length < 18446744073709551616)
    (kept : state.Kept base length) (fills : state.FillsClass (.alloc request))
    :
    state.Answers (.alloc request) ∧
      (state.step (.alloc request)).Kept base length := by
  obtain ⟨here, whole⟩ := fills
  obtain ⟨block, next, done, live, allocated, blocks, same, found⟩ :=
    kept.tiled.allocatorAlloc here
  have recovered := kept.accounts.recovered
  have total := kept.accounts.total
  cases block with
  | none =>
    obtain ⟨answered, after⟩ := step_alloc_none done
    rw [after]
    refine ⟨answered, Kept.of_tiled ⟨blocks, ?_, found⟩ ?_ ?_⟩
    · rw [same, live]
    · rw [live]
      exact recovered
    · rw [allocated]
      exact total
  | some block =>
    obtain ⟨addr, size⟩ := block
    obtain ⟨answered, after⟩ := step_alloc_some done
    have exact_ : size = neededSize request := by
      have size := SubAllocator.allocatorAlloc_size done
      cases first : (state.sub.chunks
          (ChunkList.ofSize (neededSize request))).head? with
      | none =>
        rw [first] at size
        exact size
      | some chunk =>
        rw [first] at size whole
        rw [size, whole chunk rfl]
    subst exact_
    have decoded : (LiveBlock.mk addr
        (ChunkList.ofSize (neededSize request)).header request).size =
          neededSize request := by
      rw [SubAllocator.LiveBlock.size_of_header here rfl,
        SubAllocator.size_ofSize_neededSize]
    have tiled : Tiled base length (next.rebook
        (⟨addr, (ChunkList.ofSize (neededSize request)).header, request⟩ ::
          next.live)
        (next.allocatedSize +
          UInt64.ofNat (neededSize request % 4294967296))) := by
      rw [live]
      exact SubAllocator.Tiled.handOut same here found
    rw [after]
    refine ⟨answered, Kept.of_tiled tiled ?_ ?_⟩
    · change (_, _) :: _ = (_, _) :: _
      rw [decoded, live, recovered]
    · have room := tiled.sum_le
      change (LiveBlock.size _ :: next.live.map LiveBlock.size).sum ≤ _ at room
      rw [sum_cons, decoded, live, ← sum_handedOut recovered] at room
      change (next.allocatedSize +
        UInt64.ofNat (neededSize request % 4294967296)).toNat =
          (neededSize request :: state.handedOut.map Prod.snd).sum
      have most : neededSize request ≤ 65536 := by
        rw [← SubAllocator.size_ofSize_neededSize]
        exact (ChunkList.size_of_exists here).2.1
      rw [UInt64.toNat_add, allocated, total, sum_cons, UInt64.toNat_ofNat']
      omega

theorem Kept.fillsClass (kept : state.Kept base length)
    (answers : state.Answers (.alloc request))
    (accounts : (state.step (.alloc request)).Accounts) :
    state.FillsClass (.alloc request) := by
  have here : (ChunkList.ofSize (neededSize request)).Exists := by
    by_contra missing
    unfold Answers SubAllocator.perform SubAllocator.ndAllocatorAlloc
      SubAllocator.allocatorAlloc at answers
    dsimp only at answers
    rw [if_pos missing] at answers
    exact absurd answers Bool.false_ne_true
  refine ⟨here, ?_⟩
  intro chunk first
  obtain ⟨block, next, done, _⟩ := kept.tiled.allocatorAlloc here
  cases block with
  | none =>
    rw [SubAllocator.allocatorAlloc_none done] at first
    cases first
  | some block =>
    obtain ⟨addr, size⟩ := block
    have given := SubAllocator.allocatorAlloc_size done
    rw [show (state.sub.chunks (ChunkList.ofSize
      (neededSize request))).head? = some chunk from first] at given
    have class_ := kept.tiled.ofSize_found done
    have recovered := accounts.recovered
    rw [(step_alloc_some done).2] at recovered
    have heads := (cons.inj recovered).1
    have sizes : (ChunkList.ofSize size).size = size := by
      rw [← SubAllocator.LiveBlock.size_of_header
        (class_ ▸ here) (rfl : (LiveBlock.mk addr _ request).header = _)]
      exact congrArg Prod.snd heads
    rw [← (given : size = _), ← sizes, class_,
      SubAllocator.size_ofSize_neededSize]

theorem Kept.free {addr : Nat} (kept : state.Kept base length) :
    state.Answers (.free addr) ∧ (state.step (.free addr)).Kept base length := by
  have recovered := kept.accounts.recovered
  have total := kept.accounts.total
  have erased : state.handedOut.eraseP (fun block => block.1 = addr) =
      (state.sub.live.eraseP fun block => block.addr = addr).map fun block =>
        (block.addr, block.size) := by
    rw [← recovered, eraseP_map]
    rfl
  cases found : state.sub.live.find? fun block => block.addr = addr with
  | none =>
    have performed : state.sub.perform (.free addr) = some state.sub := by
      unfold SubAllocator.perform SubAllocator.ndAllocatorFree
      dsimp only
      rw [found]
      rfl
    have nothing : (state.sub.live.eraseP fun block => block.addr = addr) =
        state.sub.live :=
      eraseP_of_forall_not (by simpa using found)
    have after : state.step (.free addr) = state := by
      unfold step SubAllocator.step record
      dsimp only
      rw [performed, erased, nothing, recovered]
      rfl
    unfold Answers
    rw [performed, after]
    exact ⟨rfl, kept⟩
  | some block =>
    obtain ⟨next, freed, tiled⟩ := kept.tiled.ndAllocatorFree found
    have performed : state.sub.perform (.free addr) = some (next.rebook
        (state.sub.live.eraseP fun block => block.addr = addr)
        (state.sub.allocatedSize - UInt64.ofNat (block.size / 4 * 4))) := by
      unfold SubAllocator.perform
      dsimp only
      rw [SubAllocator.ndAllocatorFree_found found, freed]
      rfl
    have after : state.step (.free addr) = ⟨next.rebook
        (state.sub.live.eraseP fun block => block.addr = addr)
        (state.sub.allocatedSize - UInt64.ofNat (block.size / 4 * 4)),
        state.handedOut.eraseP fun block => block.1 = addr⟩ := by
      unfold step SubAllocator.step record
      dsimp only
      rw [performed]
      rfl
    unfold Answers
    rw [performed, after]
    refine ⟨rfl, Kept.of_tiled tiled erased.symm ?_⟩
    obtain ⟨list, here, size⟩ :=
      kept.tiled.headed (mem_of_find?_eq_some found)
    obtain ⟨_, most, whole⟩ := ChunkList.size_of_exists here
    have sum := SubAllocator.sum_eraseP found
    rw [← sum_handedOut recovered, ← total] at sum
    have value : (UInt64.ofNat (block.size / 4 * 4)).toNat = block.size := by
      rw [UInt64.toNat_ofNat']
      omega
    rw [sum_handedOut erased.symm]
    change (state.sub.allocatedSize -
      UInt64.ofNat (block.size / 4 * 4)).toNat =
        ((state.sub.live.eraseP fun block => block.addr = addr).map
          LiveBlock.size).sum
    rw [UInt64.toNat_sub_of_le _ _ (by
      rw [UInt64.le_iff_toNat_le, value]
      omega), value]
    omega

theorem Kept.step {op : AllocatorOp} (short : length < 18446744073709551616)
    (kept : state.Kept base length) (fills : state.FillsClass op) :
    state.Answers op ∧ (state.step op).Kept base length := by
  cases op with
  | alloc request => exact kept.alloc short fills
  | free addr => exact kept.free

/-- On an arena of any length the two accounts agree through a run of calls,
and no assertion on an index fails, exactly when every block that is taken from
a list has the size of the list. -/
theorem accounts_iff (base : Nat) (length : UInt64) (ops : List AllocatorOp) :
    ((∀ visited ∈ Runs.states step (init base length.toNat) ops,
        visited.Accounts) ∧
      Runs.Meets step Answers (init base length.toNat) ops) ↔
      Runs.Meets step FillsClass (init base length.toNat) ops := by
  have short : length.toNat < 18446744073709551616 := length.toNat_lt
  have start := kept_init base length.toNat
  constructor
  · rintro ⟨accounts, answers⟩
    have broken : ∀ (state : Booked) (op : AllocatorOp),
        state.Kept base length.toNat → state.Answers op →
          ¬ state.FillsClass op → ¬ (state.step op).Accounts := by
      intro state op kept answers fails accounts
      cases op with
      | alloc request => exact fails (kept.fillsClass answers accounts)
      | free addr => exact fails trivial
    exact (Runs.law_iff_meets (fun _ kept => kept.accounts)
      (fun _ _ kept _ fills => (Kept.step short kept fills).2) broken start
      answers).mp accounts
  · intro fills
    have preserved : ∀ (state : Booked) (op : AllocatorOp),
        state.Kept base length.toNat → state.FillsClass op →
          (state.step op).Kept base length.toNat :=
      fun _ _ kept fills => (kept.step short fills).2
    refine ⟨?_, ?_⟩
    · intro visited member
      exact (Runs.invariant_of_meets preserved start fills visited
        member).accounts
    · exact fills.of_invariant
        (fun _ _ kept fills => (kept.step short fills).1) preserved start

theorem fillsClass_of_aligned (aligned : state.sub.Aligned)
    (here : (ChunkList.ofSize (neededSize request)).Exists) :
    state.FillsClass (.alloc request) := by
  refine ⟨here, ?_⟩
  intro chunk first
  rw [aligned.shelved _ chunk (mem_of_head? first),
    SubAllocator.size_ofSize_neededSize]

theorem Kept.aligned {op : AllocatorOp} (kept : state.Kept base length)
    (aligned : state.sub.Aligned) (listed : op.Listed) :
    (state.step op).sub.Aligned := by
  cases op with
  | alloc request =>
    obtain ⟨block, next, done, _⟩ := kept.tiled.allocatorAlloc listed
    have later := aligned.allocatorAlloc done
    cases block with
    | none =>
      rw [(step_alloc_none done).2]
      exact later
    | some block =>
      rw [(step_alloc_some done).2]
      exact later.rebook _ _
  | free addr =>
    change (state.sub.step (.free addr)).Aligned
    unfold SubAllocator.step SubAllocator.perform
    dsimp only
    cases found : state.sub.live.find? fun block => block.addr = addr with
    | none =>
      unfold SubAllocator.ndAllocatorFree
      rw [found]
      exact aligned
    | some block =>
      obtain ⟨next, freed, _⟩ := kept.tiled.ndAllocatorFree found
      obtain ⟨list, here, size⟩ :=
        kept.tiled.headed (mem_of_find?_eq_some found)
      have exact_ : SubAllocator.Exact block.size := by
        rw [size]
        exact SubAllocator.exact_size here
      rw [SubAllocator.ndAllocatorFree_found found, freed]
      exact (@SubAllocator.Aligned.allocatorFree _ _ ⟨addr, block.size⟩
        aligned exact_ freed).rebook _ _

theorem accounts_of_aligned (base : Nat) (length : UInt64)
    (whole : length.toNat % 16 = 0) (ops : List AllocatorOp)
    (listed : ∀ op ∈ ops, op.Listed) :
    ∀ visited ∈ Runs.states step (init base length.toNat) ops,
      visited.Accounts := by
  have short : length.toNat < 18446744073709551616 := length.toNat_lt
  have meets : Runs.Meets step (fun _ op => True ∧ op.Listed)
      (init base length.toNat) ops :=
    Runs.Meets.and_forall (Runs.meets_of_forall (fun _ _ => trivial) _ _) listed
  have holds := Runs.invariant_of_meets
    (fun (state : Booked) (op : AllocatorOp)
        (holds : state.Kept base length.toNat ∧ state.sub.Aligned)
        (allowed : True ∧ op.Listed) => by
      have fills : state.FillsClass op := by
        cases op with
        | alloc request => exact fillsClass_of_aligned holds.2 allowed.2
        | free addr => exact trivial
      exact (⟨(Kept.step short holds.1 fills).2,
        holds.1.aligned holds.2 allowed.2⟩ :
        (state.step op).Kept base length.toNat ∧ (state.step op).sub.Aligned))
    ⟨kept_init base length.toNat, SubAllocator.aligned_init base whole⟩ meets
  intro visited member
  exact (holds visited member).1.accounts

theorem accounts_of_aligned_free :
    ([.alloc 40, .free 0, .alloc 24].foldl step (init 0 96)).Accounts :=
  accounts_of_aligned 0 96 (by decide) [.alloc 40, .free 0, .alloc 24]
    (by
      have listed (request : UInt64)
          (here : (ChunkList.ofSize (SubAllocator.neededSize request)).Exists) :
          (AllocatorOp.alloc request).Listed := here
      simp only [forall_mem_cons]
      exact ⟨listed 40 (by decide), trivial, listed 24 (by decide), nofun⟩)
    _ (Runs.foldl_mem_states step _ _)

/-- What is left of the region, 40 bytes, goes to the list of 32 and is handed
out from there. -/
def restOps : List AllocatorOp :=
  [.alloc 40, .alloc 8, .free 0, .alloc 24]

theorem rest_not_accounts :
    ¬ (restOps.foldl step (init 0 104)).Accounts := by
  intro accounts
  exact absurd accounts.recovered (by decide +kernel)

end Booked

end NdNet
