import NdNet.Common.MemPool
import NdNet.Common.SubAccounting
import Mathlib.Order.Interval.Set.Disjoint

/-!
# `nd_pool_realloc` and the bytes of a pool

A block that is too small is copied into a new one and freed.  The size of the
old block is recovered from its header, and how much is copied depends on it
alone: the copy is in place if the new block is at least as large.  The size
that decides between the old block and a new one counts the header twice, so
that a block may be given up for one that is smaller.

The bytes stand beside the pool of `MemPool`.  What the allocator itself writes
lies in front of the blocks and in the free chunks and is left out.
-/

namespace NdNet

open List

open SubAllocator (neededSize)

abbrev PoolBytes : Type := PoolAddr → UInt8

def PoolAddr.shift (addr : PoolAddr) (count : Nat) : PoolAddr :=
  ⟨addr.page, addr.offset + count⟩

def PoolAddr.Covers (addr : PoolAddr) (count : Nat) (place : PoolAddr) : Prop :=
  place.page = addr.page ∧ addr.offset ≤ place.offset ∧
    place.offset < addr.offset + count

instance (addr : PoolAddr) (count : Nat) (place : PoolAddr) :
    Decidable (addr.Covers count place) :=
  inferInstanceAs (Decidable (_ ∧ _ ∧ _))

def PoolBytes.memcpy (bytes : PoolBytes) (dest src : PoolAddr) (count : Nat) :
    PoolBytes := fun place =>
  if dest.Covers count place then
    bytes (src.shift (place.offset - dest.offset))
  else bytes place

structure PoolHeap where
  world : PoolWorld
  bytes : PoolBytes

/-- `nd_pool_realloc`; without the checks of the debugging version the user
sees all of a block but its header.  No result is a call that does not come
back: a page was refused, and `__sys_page_alloc` writes through `MAP_FAILED`. -/
def PoolHeap.poolRealloc (heap : PoolHeap) (oldaddr : PoolAddr)
    (newsize : UInt64) (grants : List Bool) :
    Option (Option PoolAddr × PoolHeap) :=
  match heap.world.allocLen oldaddr with
  | none => some (none, heap)
  | some allocLen =>
    let userLen := allocLen - allocNodeSize
    if PoolWorld.getNeedSize (newsize + 8) ≤ allocLen then
      some (some oldaddr, heap)
    else if heap.world.pageRefused newsize grants then none
    else
      match heap.world.poolAlloc newsize grants with
      | (none, world) => some (none, { heap with world := world })
      | (some newaddr, world) =>
        some (some newaddr,
          { world := world.poolFree oldaddr
            bytes := heap.bytes.memcpy newaddr oldaddr userLen })

variable {grants : List Bool} {newsize : UInt64}

theorem PoolHeap.poolRealloc_world {heap : PoolHeap} {oldaddr : PoolAddr}
    {result : Option PoolAddr × PoolHeap}
    (done : heap.poolRealloc oldaddr newsize grants = some result) :
    heap.world.poolRealloc oldaddr newsize grants =
      (result.1, result.2.world) := by
  unfold PoolHeap.poolRealloc at done
  unfold PoolWorld.poolRealloc
  cases found : heap.world.allocLen oldaddr with
  | none =>
    rw [found] at done
    cases done
    rfl
  | some allocLen =>
    rw [found] at done
    dsimp only at done ⊢
    split_ifs at done ⊢
    · cases done
      rfl
    · revert done
      cases heap.world.poolAlloc newsize grants with
      | mk newaddr world =>
        intro done
        cases newaddr <;> cases done <;> rfl

def PoolSub.blocks (sub : PoolSub) : List (PoolAddr × Nat) :=
  sub.arena.live.map fun block =>
    (⟨sub.page, block.addr + allocNodeSize⟩, block.size)

def BigChunk.block (chunk : BigChunk) : PoolAddr × Nat :=
  (⟨chunk.page, bigChunkListSize⟩, chunk.size / 4 * 4)

def MmPool.liveBlocks (pool : MmPool) : List (PoolAddr × Nat) :=
  pool.pageList.map BigChunk.block ++ pool.allocatorList.flatMap PoolSub.blocks

def MmPool.extent (pool : MmPool) (sub : PoolSub) : Nat :=
  if sub.page = pool.page then pool.size else sub.size

def MmPool.OnPage (pool : MmPool) (addr : PoolAddr) (count : Nat) : Prop :=
  (∃ chunk ∈ pool.pageList, addr.page = chunk.page ∧
      addr.offset + count + allocNodeSize ≤
        chunk.size / 4 * 4 + bigChunkListSize) ∨
    ∃ sub ∈ pool.allocatorList, addr.page = sub.page ∧
      addr.offset + count ≤ pool.extent sub

/-- What a reallocation of a live block is for: the block that is returned is
live and large enough, it has the old bytes as far as both blocks reach, nothing
outside it is written, all other blocks stay what they are, and so does the old
one when there is no new one. -/
structure PoolHeap.KeepsData (heap : PoolHeap) (oldaddr : PoolAddr) (len : Nat)
    (newsize : UInt64) (result : Option PoolAddr × PoolHeap) : Prop where
  grown : ∀ newaddr ∈ result.1, ∃ newlen,
    (newaddr, newlen) ∈ result.2.world.pool.liveBlocks ∧
      newsize.toNat ≤ newlen - allocNodeSize ∧
      result.2.world.pool.OnPage newaddr newsize.toNat ∧
      ∀ place, result.2.bytes place ≠ heap.bytes place →
        newaddr.Covers (newlen - allocNodeSize) place
  copied : ∀ newaddr ∈ result.1, ∀ count, count < len - allocNodeSize →
    count < newsize.toNat →
      result.2.bytes (newaddr.shift count) = heap.bytes (oldaddr.shift count)
  others : ∀ other otherLen,
    (other, otherLen) ∈ heap.world.pool.liveBlocks → other ≠ oldaddr →
      (other, otherLen) ∈ result.2.world.pool.liveBlocks ∧
        ∀ count, count < otherLen - allocNodeSize →
          result.2.bytes (other.shift count) = heap.bytes (other.shift count)
  kept : result.1 = none →
    (oldaddr, len) ∈ result.2.world.pool.liveBlocks ∧
      ∀ count, count < len - allocNodeSize →
        result.2.bytes (oldaddr.shift count) = heap.bytes (oldaddr.shift count)

def PoolHeap.ReallocKeeps (heap : PoolHeap) (oldaddr : PoolAddr) (len : Nat)
    (newsize : UInt64) (grants : List Bool) : Prop :=
  ∃ result, heap.poolRealloc oldaddr newsize grants = some result ∧
    heap.KeepsData oldaddr len newsize result

/-- A block that has to move finds the pool exhausted; or the new size can be
rounded up to pages, no page is refused, and a block with a page of its own
does not move to a sub-allocator. -/
def PoolWorld.Fits (world : PoolWorld) (len : Nat) (newsize : UInt64)
    (grants : List Bool) : Prop :=
  (len < PoolWorld.getNeedSize (newsize + 8) ∧
      world.pool.capacity < world.pool.allocatedSize) ∨
    newsize.toNat + bigChunkListSize + (sysPageSize - 1) <
        18446744073709551616 ∧
      (len < PoolWorld.getNeedSize (newsize + 8) →
        world.pageRefused newsize grants = false ∧
          ¬ (directAllocSize < len ∧
            newsize.toNat + allocNodeSize ≤ directAllocSize))

instance (world : PoolWorld) (len : Nat) (newsize : UInt64)
    (grants : List Bool) : Decidable (world.Fits len newsize grants) :=
  inferInstanceAs (Decidable (_ ∨ _ ∧ (_ → _ ∧ _)))

/-- A page for a new sub-allocator has at least the size `least`. -/
def PoolWorld.PageFits (least : Nat) (world : PoolWorld) (size : UInt64)
    (grants : List Bool) : Prop :=
  size.toNat + allocNodeSize ≤ directAllocSize →
    world.pool.freeAllocator = [] →
      ∀ allocSize ∈ pageTries size.toNat
          (max (world.pool.allocGranularity * minPageSize) size.toNat) grants,
        least ≤ allocSize

instance (least : Nat) (world : PoolWorld) (size : UInt64)
    (grants : List Bool) : Decidable (world.PageFits least size grants) :=
  inferInstanceAs (Decidable (_ → _ → _))

/-- A call with which a user keeps to the blocks there are, and no page that is
asked for is refused. -/
def PoolWorld.Careful (world : PoolWorld) : PoolOp → Prop
  | .alloc size grants =>
    size.toNat + allocNodeSize < 18446744073709551616 ∧
      world.pageRefused size grants = false
  | .free addr => addr ∈ world.pool.liveBlocks.map Prod.fst
  | .realloc addr newsize grants =>
    addr ∈ world.pool.liveBlocks.map Prod.fst ∧
      ∀ block ∈ world.pool.liveBlocks, block.1 = addr →
        world.Fits block.2 newsize grants
  | .reset => True

instance (world : PoolWorld) : ∀ op : PoolOp, Decidable (world.Careful op)
  | .alloc _ _ => inferInstanceAs (Decidable (_ ∧ _))
  | .free _ => inferInstanceAs (Decidable (_ ∈ _))
  | .realloc _ _ _ => inferInstanceAs (Decidable (_ ∧ _))
  | .reset => .isTrue trivial

variable {request : UInt64} {block : LiveBlock}

namespace SubAllocator

variable {base length : Nat} {arena next : SubAllocator}

section

variable (tiled : Tiled base length arena)
include tiled

theorem Tiled.ndAllocatorAlloc
    (here : (ChunkList.ofSize (neededSize request)).Exists) :
    ∃ offset next, arena.ndAllocatorAlloc request = some (offset, next) ∧
      Tiled base length next ∧
      match offset with
      | none => next.live = arena.live
      | some offset => ∃ block : LiveBlock,
          offset = block.addr + allocNodeSize ∧
            block.size = neededSize request ∧
            next.live = block :: arena.live := by
  obtain ⟨block, next, done, live, _, blocks, same, found⟩ :=
    tiled.allocatorAlloc here
  unfold SubAllocator.ndAllocatorAlloc
  rw [done]
  cases block with
  | none =>
    refine ⟨none, next, rfl, ⟨blocks, ?_, found⟩, live⟩
    rw [same, live]
  | some block =>
    obtain ⟨addr, size⟩ := block
    have class_ := tiled.ofSize_found done
    refine ⟨_, _, rfl, ?_, ⟨addr, (ChunkList.ofSize size).header, request⟩,
      rfl, ?_, ?_⟩
    · rw [live]
      exact Tiled.handOut same here found
    · rw [LiveBlock.size_of_header (class_ ▸ here) rfl, class_,
        size_ofSize_neededSize]
    · rw [live]

theorem Tiled.ndAllocatorFree' {addr : Nat}
    (found : (arena.live.find? fun block => block.addr = addr) = some block) :
    ∃ result next, arena.ndAllocatorFree addr = some (result, next) ∧
      Tiled base length next ∧
      next.live = (arena.live.eraseP fun block => block.addr = addr) ∧
      (result = 0 → next.allocatedSize = 0) := by
  obtain ⟨next, freed, later⟩ := tiled.ndAllocatorFree found
  rw [ndAllocatorFree_found found, freed]
  refine ⟨_, _, rfl, later, rfl, ?_⟩
  intro empty
  by_contra left
  rw [if_neg left] at empty
  cases empty

theorem Tiled.apart :
    arena.live.Pairwise fun first second =>
      first.addr + first.size ≤ second.addr ∨
        second.addr + second.size ≤ first.addr := by
  have positive : ∀ block ∈ arena.live, 0 < block.size := by
    intro block member
    obtain ⟨list, here, size⟩ := tiled.headed member
    have least := (ChunkList.size_of_exists here).1
    unfold minSize at least
    omega
  obtain ⟨live, same, holds⟩ := tiled
  have spans : ∀ blocks : List LiveBlock, blocks.map LiveBlock.span =
      (blocks.map LiveBlock.entry).map fun entry =>
        ⟨entry.1, entry.1 + (ChunkList.ofHeader entry.2).size⟩ := by
    intro blocks
    rw [map_map]
    rfl
  have disjoint := (pairwise_append.mp
    (pairwise_cons.mp holds.packed.apart).2).1
  change (live.map LiveBlock.span).Pairwise _ at disjoint
  rw [spans live, same, ← spans, pairwise_map] at disjoint
  refine disjoint.imp_of_mem ?_
  intro first second here there apart
  have order := Set.Ico_disjoint_Ico.mp apart
  have left := positive first here
  have right := positive second there
  change min (first.addr + first.size) (second.addr + second.size) ≤
    max first.addr second.addr at order
  omega

theorem Tiled.inside (member : block ∈ arena.live) :
    block.addr + block.size ≤ base + length := by
  obtain ⟨list, there, size⟩ := tiled.headed member
  have least := (ChunkList.size_of_exists there).1
  unfold minSize at least
  obtain ⟨live, same, holds⟩ := tiled
  have entry : block.entry ∈ live.map LiveBlock.entry := by
    rw [same]
    exact mem_map_of_mem member
  obtain ⟨other, here, equal⟩ := mem_map.mp entry
  have within := holds.packed.inside other.span
    (mem_cons_of_mem _ (mem_append_left _
      (mem_map_of_mem here)))
  have span : other.span = ⟨block.addr, block.addr + block.size⟩ := by
    unfold LiveBlock.span LiveBlock.size
    rw [show other.header = block.header from congrArg Prod.snd equal,
      show other.addr = block.addr from congrArg Prod.fst equal]
  rw [span] at within
  have last := within (show block.addr + block.size - 1 ∈
    Set.Ico block.addr (block.addr + block.size) from ⟨by omega, by omega⟩)
  have bound : block.addr + block.size - 1 < base + length := last.2
  omega

end

def Counted (length : Nat) (arena : SubAllocator) : Prop :=
  length < 18446744073709551616 ∧ arena.Aligned ∧
    ∃ handedOut, (Booked.mk arena handedOut).Accounts

theorem Counted.perform {op : AllocatorOp} (counted : Counted length arena)
    (tiled : Tiled base length arena) (listed : op.Listed)
    (done : arena.perform op = some next) : Counted length next := by
  obtain ⟨short, aligned, handedOut, accounts⟩ := counted
  have kept : (Booked.mk arena handedOut).Kept base length := ⟨tiled, accounts⟩
  have fills : (Booked.mk arena handedOut).FillsClass op := by
    cases op with
    | alloc request => exact Booked.fillsClass_of_aligned aligned listed
    | free addr => exact trivial
  have after : ((Booked.mk arena handedOut).step op).sub = next := by
    change arena.step op = next
    unfold step
    rw [done]
    rfl
  have later := (kept.step short fills).2.accounts
  refine ⟨short, ?_, ((Booked.mk arena handedOut).step op).handedOut, ?_⟩
  · rw [← after]
    exact kept.aligned aligned listed
  · rw [← after]
    exact later

theorem neededSize_of_small
    (small : request.toNat + allocNodeSize ≤ directAllocSize) :
    neededSize request =
      if request.toNat + allocNodeSize ≤ 1008 then
        max ((request.toNat + allocNodeSize + 15) / 16 * 16) 16
      else (request.toNat + allocNodeSize + 1023) / 1024 * 1024 := by
  unfold directAllocSize minPageSize sysPageSize allocNodeSize at *
  have added : (request + 8).toNat = request.toNat + 8 := by
    exact Nat.mod_eq_of_lt (by
      change request.toNat + 8 < 18446744073709551616
      omega)
  unfold neededSize
  rw [added]
  generalize request.toNat + 8 = total at small
  unfold sizeAline bigAline ndAline bigSize minSize
  dsimp only
  split_ifs <;> omega

theorem exists_of_small
    (small : request.toNat + allocNodeSize ≤ directAllocSize) :
    (ChunkList.ofSize (neededSize request)).Exists ∧
      neededSize request ≤ directAllocSize ∧
      request.toNat + allocNodeSize ≤ neededSize request := by
  rw [neededSize_of_small small]
  unfold directAllocSize minPageSize sysPageSize at *
  split_ifs
  · exact ⟨ChunkList.exists_ofSize (by omega), by omega, by omega⟩
  · exact ⟨ChunkList.exists_ofSize (by omega), by omega, by omega⟩

theorem init_serves (base : Nat)
    (here : (ChunkList.ofSize (neededSize request)).Exists)
    (room : neededSize request ≤ length) :
    ∃ offset next, (init base length).ndAllocatorAlloc request =
      some (some offset, next) := by
  have none : (init base length).takeChunk
      (ChunkList.ofSize (neededSize request)) = none := by
    have empty : (init base length).chunks
        (ChunkList.ofSize (neededSize request)) = [] := by
      cases ChunkList.ofSize (neededSize request) <;>
        · simp only [chunks, init, getD_eq_getElem?_getD, getElem?_replicate]
          split <;> rfl
    unfold takeChunk
    rw [empty]
  have enough : ¬ (init base length).stop - (init base length).start <
      neededSize request := by
    change ¬ base + length - base < neededSize request
    omega
  unfold ndAllocatorAlloc allocatorAlloc
  rw [if_neg (not_not.mpr here), none]
  rw [if_neg enough]
  exact ⟨_, _, rfl⟩

end SubAllocator

theorem PoolWorld.getNeedSize_eq
    (bound : newsize.toNat + 4111 < 18446744073709551616) :
    PoolWorld.getNeedSize (newsize + 8) =
      if directAllocSize < newsize.toNat + 16 then
        max ((newsize.toNat + 4111) / 4096 * 4096) 65536
      else if newsize.toNat + 16 ≤ 1008 then
        (newsize.toNat + 31) / 16 * 16
      else (newsize.toNat + 1039) / 1024 * 1024 := by
  have added : (newsize + 8 + 8).toNat = newsize.toNat + 16 := by
    change ((newsize.toNat + 8) % 18446744073709551616 + 8) %
      18446744073709551616 = _
    omega
  unfold PoolWorld.getNeedSize
  rw [added]
  generalize newsize.toNat = size at bound
  unfold pageAline sizeAline bigAline ndAline bigSize minSize directAllocSize
    minPageSize sysPageSize
  dsimp only
  split_ifs <;> omega

theorem find?_of_nodup {α β : Type} [DecidableEq β] {key : α → β}
    {elements : List α} {element : α} (distinct : (elements.map key).Nodup)
    (member : element ∈ elements) :
    (elements.find? fun other => key other = key element) = some element := by
  induction elements with
  | nil => exact absurd member not_mem_nil
  | cons first rest induction =>
    obtain ⟨fresh, later⟩ := nodup_cons.mp distinct
    rcases mem_cons.mp member with rfl | member
    · exact find?_cons_of_pos (decide_eq_true rfl)
    · rw [find?_cons_of_neg]
      · exact induction later member
      · intro same
        refine fresh ?_
        rw [of_decide_eq_true same]
        exact mem_map_of_mem member

namespace MmPool

variable {pool other : MmPool} {before after : List PoolSub} {sub : PoolSub}

section

variable (split : pool.allocatorList = before ++ sub :: after)
include split

theorem liveBlocks_split :
    pool.liveBlocks.Perm (sub.blocks ++
      (pool.pageList.map BigChunk.block ++
        (before ++ after).flatMap PoolSub.blocks)) := by
  unfold liveBlocks
  rw [split, flatMap_append, flatMap_cons, flatMap_append]
  refine (List.Perm.append_left _ ?_).trans
    (perm_append_comm_assoc _ _ _)
  exact perm_append_comm_assoc _ _ _

theorem setArena_split (distinct : (pool.allocatorList.map PoolSub.page).Nodup)
    (arena : SubAllocator) :
    (pool.setArena sub.page arena).allocatorList =
      before ++ { sub with arena := arena } :: after := by
  rw [split, map_append, map_cons, nodup_append] at distinct
  obtain ⟨_, later, apart⟩ := distinct
  obtain ⟨fresh, _⟩ := nodup_cons.mp later
  have same : ∀ subs : List PoolSub, sub.page ∉ subs.map PoolSub.page →
      (subs.map fun each => if each.page = sub.page then
        { each with arena := arena } else each) = subs := by
    intro subs absent
    refine (map_congr_left ?_).trans (map_id subs)
    intro each member
    rw [if_neg]
    · rfl
    · intro equal
      exact absent (mem_map.mpr ⟨each, member, equal⟩)
  unfold setArena
  rw [split, map_append, map_cons, if_pos rfl, same after fresh,
    same before (fun early => apart _ early _ mem_cons_self rfl)]

theorem filter_split (distinct : (pool.allocatorList.map PoolSub.page).Nodup) :
    (pool.allocatorList.filter fun other => other.page ≠ sub.page) =
      before ++ after := by
  rw [split, map_append, map_cons, nodup_append] at distinct
  obtain ⟨_, later, apart⟩ := distinct
  obtain ⟨fresh, _⟩ := nodup_cons.mp later
  have same : ∀ subs : List PoolSub, sub.page ∉ subs.map PoolSub.page →
      (subs.filter fun other => other.page ≠ sub.page) = subs := by
    intro subs absent
    refine filter_eq_self.mpr ?_
    intro each member
    refine decide_eq_true ?_
    intro equal
    exact absent (mem_map.mpr ⟨each, member, equal⟩)
  rw [split, filter_append, filter_cons, if_neg (by simp), same after fresh,
    same before (fun early => apart _ early _ mem_cons_self rfl)]

end

theorem findSub_split {page : Nat} (found : pool.findSub page = some sub) :
    sub.page = page ∧ ∃ before after,
      pool.allocatorList = before ++ sub :: after := by
  obtain ⟨same, before, after, split, _⟩ :=
    find?_eq_some_iff_append.mp found
  exact ⟨by simpa using same, before, after, split⟩

end MmPool

/-- The size of a page that can be put by and used again: at least `least`. -/
def PoolSub.Reusable (least : Nat) (sub : PoolSub) : Prop :=
  least ≤ sub.size ∧ sub.size % 16 = 0 ∧ sub.size < 4294967296

/-- A sub-allocator in use: its arena is tiled and on its page.  If it can be
put by, its count is right. -/
structure MmPool.SubSound (least : Nat) (pool : MmPool) (sub : PoolSub)
    (base length : Nat) : Prop where
  tiled : SubAllocator.Tiled base length sub.arena
  extent : base + length ≤ pool.extent sub
  small : ∀ block ∈ sub.arena.live, block.size ≤ directAllocSize
  counted : sub.page ≠ pool.page →
    SubAllocator.Counted length sub.arena ∧ sub.Reusable least

def BigChunk.Sound (chunk : BigChunk) : Prop :=
  ∃ pages, chunk.size + 24 = pages * 4096 ∧ 16 ≤ pages ∧
    pages * 4096 < 18446744073709551616

/-- What holds between two calls on a pool whose pages for sub-allocators have
at least the size `least`. -/
structure PoolWorld.Sound (least : Nat) (world : PoolWorld) : Prop where
  accounts : Accounts world
  enough : subAllocatorSize ≤ least
  granularity : 1 ≤ world.pool.allocGranularity ∧
    world.pool.allocGranularity ≤ 64
  room : world.pool.header + subAllocatorSize ≤ world.pool.size
  subs : ∀ sub ∈ world.pool.allocatorList,
    ∃ base length, world.pool.SubSound least sub base length
  cached : ∀ sub ∈ world.pool.freeAllocator, sub.Reusable least
  chunks : ∀ chunk ∈ world.pool.pageList, chunk.Sound

def givenSize (size : UInt64) : Nat :=
  if directAllocSize < (size + 8).toNat then
    pageAline (size + 32).toNat - bigChunkListSize + allocNodeSize
  else neededSize size

/-- A request is met with a new block, or nothing changes for the user. -/
def MmPool.Served (before after : MmPool) (size : UInt64) :
    Option PoolAddr → Prop
  | none => after.liveBlocks.Perm before.liveBlocks
  | some addr =>
    after.liveBlocks.Perm ((addr, givenSize size) :: before.liveBlocks)

theorem MmPool.SubSound.congr {least : Nat} {pool other : MmPool}
    {sub : PoolSub} {base length : Nat}
    (sound : pool.SubSound least sub base length)
    (page : other.page = pool.page) (size : other.size = pool.size) :
    other.SubSound least sub base length where
  tiled := sound.tiled
  extent := by
    unfold MmPool.extent
    rw [page, size]
    exact sound.extent
  small := sound.small
  counted := by
    rw [page]
    exact sound.counted

variable {size : UInt64} {addr : PoolAddr} {len : Nat} {chunk : BigChunk}

namespace PoolWorld

variable {least : Nat} {world : PoolWorld} {sub : PoolSub}

theorem Sound.pages (sound : world.Sound least) :
    (world.pool.allocatorList.map PoolSub.page).Nodup :=
  (nodup_append.mp sound.accounts.distinct).1

theorem Sound.setArena {arena : SubAllocator} {base length : Nat}
    (sound : world.Sound least) (here : sub ∈ world.pool.allocatorList)
    (after : world.pool.SubSound least { sub with arena := arena } base
      length) :
    Sound least { world with pool := world.pool.setArena sub.page arena } := by
  have same := @MmPool.setArena_pages world.pool sub.page arena
  obtain ⟨first, second, split⟩ := append_of_mem here
  refine { accounts := ?_, enough := sound.enough,
           granularity := sound.granularity,
           room := sound.room, subs := ?_,
           cached := sound.cached, chunks := sound.chunks }
  · refine sound.accounts.move
      (List.Perm.of_eq (MmPool.places_congr same rfl rfl)) ?_
    rw [same]
    exact sound.accounts.own
  · intro each member
    rw [MmPool.setArena_split split sound.pages] at member
    have old : each ∈ first ∨ each = { sub with arena := arena } ∨
        each ∈ second := by simpa using member
    rcases old with early | rfl | late
    · obtain ⟨base, length, before⟩ := sound.subs each (by
        rw [split]
        exact mem_append_left _ early)
      exact ⟨base, length, before.congr rfl rfl⟩
    · exact ⟨base, length, after.congr rfl rfl⟩
    · obtain ⟨base, length, before⟩ := sound.subs each (by
        rw [split]
        exact mem_append_right _ (mem_cons_of_mem _ late))
      exact ⟨base, length, before.congr rfl rfl⟩

theorem Sound.allocIn (sound : world.Sound least) (page : Nat)
    (small : size.toNat + allocNodeSize ≤ directAllocSize) :
    Sound least { world with pool := (world.pool.allocIn page size).2 } ∧
      world.pool.Served (world.pool.allocIn page size).2 size
        (world.pool.allocIn page size).1 := by
  obtain ⟨here, most, _⟩ := SubAllocator.exists_of_small small
  have given : givenSize size = neededSize size := by
    unfold givenSize
    rw [if_neg]
    unfold allocNodeSize at small
    change ¬ _ < (size.toNat + 8) % 18446744073709551616
    omega
  unfold MmPool.allocIn
  cases found : world.pool.findSub page with
  | none => exact ⟨sound, List.Perm.refl _⟩
  | some sub =>
    obtain ⟨rfl, before, after, split⟩ := MmPool.findSub_split found
    have member : sub ∈ world.pool.allocatorList := by
      rw [split]
      exact mem_append_right _ mem_cons_self
    obtain ⟨base, length, old⟩ := sound.subs sub member
    obtain ⟨offset, next, done, tiled, live⟩ :=
      old.tiled.ndAllocatorAlloc here
    have counted : sub.page ≠ world.pool.page →
        SubAllocator.Counted length next ∧ sub.Reusable least := by
      intro foreign
      obtain ⟨counted, reusable⟩ := old.counted foreign
      refine ⟨@SubAllocator.Counted.perform _ _ _ _ (.alloc size) counted
        old.tiled here ?_, reusable⟩
      unfold SubAllocator.perform
      dsimp only
      rw [done]
      rfl
    have blocks := MmPool.liveBlocks_split split
    have changed := MmPool.liveBlocks_split
      (MmPool.setArena_split split sound.pages next)
    dsimp only
    rw [done]
    cases offset with
    | none =>
      have same : next.live = sub.arena.live := live
      refine ⟨sound.setArena member
        { tiled := tiled
          extent := old.extent
          small := by
            rw [same]
            exact old.small
          counted := counted }, ?_⟩
      refine changed.trans (List.Perm.trans (List.Perm.of_eq ?_)
        blocks.symm)
      change (next.live.map _) ++ _ = (sub.arena.live.map _) ++ _
      rw [same]
      rfl
    | some offset =>
      obtain ⟨block, rfl, length_, same⟩ := live
      refine ⟨sound.setArena member
        { tiled := tiled
          extent := old.extent
          small := by
            rw [same]
            refine forall_mem_cons.mpr ⟨?_, old.small⟩
            rw [length_]
            exact most
          counted := counted }, ?_⟩
      refine changed.trans (List.Perm.trans (List.Perm.of_eq ?_)
        (blocks.symm.cons _))
      change (next.live.map _) ++ _ = _ :: ((sub.arena.live.map _) ++ _)
      rw [same, given, ← length_]
      rfl

theorem pageTries_halved {size unit tries result : Nat} (few : unit ≤ 64)
    (start : (∃ halvings, tries = unit * 2 ^ halvings) ∨ tries ≤ 64)
    (granted : pageTries size tries grants = some result) :
    (∃ halvings, result = unit * 2 ^ halvings) ∨ result ≤ 64 := by
  induction grants generalizing tries with
  | nil => cases granted
  | cons grant grants induction =>
    cases grant with
    | true =>
      cases granted
      exact start
    | false =>
      rw [pageTries] at granted
      split at granted
      · refine induction ?_ granted
        rcases start with ⟨halvings, rfl⟩ | tiny
        · cases halvings with
          | zero => exact .inr (by omega)
          | succ halvings =>
            refine .inl ⟨halvings, ?_⟩
            rw [Nat.pow_succ, ← Nat.mul_assoc]
            omega
        · exact .inr (by omega)
      · cases granted

theorem pageTries_le {size tries result : Nat}
    (granted : pageTries size tries grants = some result) :
    result ≤ tries := by
  induction grants generalizing tries with
  | nil => cases granted
  | cons grant grants induction =>
    cases grant with
    | true =>
      cases granted
      exact Nat.le_refl _
    | false =>
      rw [pageTries] at granted
      split at granted
      · exact Nat.le_trans (induction granted) (Nat.div_le_self _ _)
      · cases granted

theorem subInit_sound {pool : MmPool} {page size : Nat}
    (foreign : page ≠ pool.page) (enough : subAllocatorSize ≤ least)
    (large : least ≤ size) (units : size % 16 = 0) (bound : size < 4294967296) :
    pool.SubSound least (subInit page 0 size) (0 + subAllocatorSize)
      (size - subAllocatorSize) where
  tiled := ⟨[], rfl, SubAllocator.holds_init _ _⟩
  extent := by
    unfold MmPool.extent
    rw [if_neg (show (subInit page 0 size).page ≠ pool.page from foreign)]
    have room := enough.trans large
    change _ ≤ size % 4294967296
    omega
  small := by
    intro block member
    exact absurd member not_mem_nil
  counted := by
    intro _
    have room := enough.trans large
    refine ⟨⟨by omega, SubAllocator.aligned_init _ ?_, [],
      (Booked.kept_init _ _).accounts⟩, ?_⟩
    · unfold subAllocatorSize at room ⊢
      omega
    · have same : (subInit page 0 size).size = size :=
        Nat.mod_eq_of_lt bound
      exact ⟨by rw [same]; exact large, by rw [same]; exact units,
        by rw [same]; exact bound⟩

theorem Sound.allocSubAllocator {page : Nat} {next : PoolWorld}
    (sound : world.Sound least)
    (small : size.toNat + allocNodeSize ≤ directAllocSize)
    (fits : world.PageFits least size grants)
    (done : world.allocSubAllocator size grants = some (page, next)) :
    next.Sound least ∧ next.pool.liveBlocks = world.pool.liveBlocks := by
  have accounts := sound.accounts.allocSubAllocator done
  have own : world.pool.page ∈ world.pool.places :=
    mem_append_left _ sound.accounts.own
  unfold PoolWorld.allocSubAllocator at done
  dsimp only at done
  split at done
  · rename_i empty
    split at done
    · cases done
    rename_i allocSize granted
    cases done
    have foreign : world.system.next ≠ world.pool.page := by
      intro same
      have known := sound.accounts.numbered world.pool.page
        (mem_append_left _ (sound.accounts.held.mem_iff.mpr own))
      omega
    have large := fits small empty allocSize granted
    have room := sound.enough.trans large
    have first : max (world.pool.allocGranularity * minPageSize)
        size.toNat = world.pool.allocGranularity * 2 ^ 16 := by
      have least := sound.granularity.1
      unfold minPageSize
      unfold directAllocSize minPageSize sysPageSize at small
      omega
    rw [first] at granted
    have most := pageTries_le granted
    have units : allocSize % 16 = 0 := by
      have halved := pageTries_halved sound.granularity.2
        (.inl ⟨16, rfl⟩) granted
      unfold subAllocatorSize at room
      rcases halved with ⟨halvings, same⟩ | tiny
      · have high : 4 ≤ halvings := by
          by_contra low
          have power : 2 ^ halvings ≤ 2 ^ 4 :=
            Nat.pow_le_pow_right (by decide) (by omega)
          have product := Nat.mul_le_mul sound.granularity.2 power
          omega
        obtain ⟨more, rfl⟩ := Nat.exists_eq_add_of_le high
        rw [same, Nat.pow_add, Nat.mul_left_comm]
        exact Nat.mul_mod_right _ _
      · omega
    have fresh := @subInit_sound least world.pool world.system.next
      allocSize foreign sound.enough large units (by
        have few := sound.granularity.2
        omega)
    refine ⟨{ accounts := accounts, enough := sound.enough,
              granularity := sound.granularity,
              room := sound.room, subs := ?_, cached := sound.cached,
              chunks := sound.chunks }, rfl⟩
    refine forall_mem_cons.mpr ⟨⟨_, _, fresh.congr rfl rfl⟩, ?_⟩
    intro each member
    obtain ⟨base, length, before⟩ := sound.subs each member
    exact ⟨base, length, before.congr rfl rfl⟩
  · rename_i sub subs stored
    cases done
    have reusable := sound.cached sub (by rw [stored]; exact mem_cons_self)
    have foreign : sub.page ≠ world.pool.page := by
      intro same
      have distinct := sound.accounts.distinct
      unfold MmPool.places at distinct
      rw [stored] at distinct
      exact (nodup_append.mp distinct).2.2 _ sound.accounts.own _
        mem_cons_self same.symm
    have fresh := @subInit_sound least world.pool sub.page sub.size foreign
      sound.enough reusable.1 reusable.2.1 reusable.2.2
    refine ⟨{ accounts := accounts, enough := sound.enough,
              granularity := sound.granularity,
              room := sound.room, subs := ?_, cached := ?_, chunks := sound.chunks }, rfl⟩
    · refine forall_mem_cons.mpr ⟨⟨_, _, fresh.congr rfl rfl⟩, ?_⟩
      intro each member
      obtain ⟨base, length, before⟩ := sound.subs each member
      exact ⟨base, length, before.congr rfl rfl⟩
    · intro each member
      exact sound.cached each (by
        rw [stored]
        exact mem_cons_of_mem _ member)

theorem Sound.allocDirect (sound : world.Sound least)
    (large : directAllocSize < (size + 8).toNat) (grants : List Bool) :
    (world.allocDirect size grants).2.Sound least ∧
      world.pool.Served (world.allocDirect size grants).2.pool size
        (world.allocDirect size grants).1 := by
  have accounts := sound.accounts.allocDirect size grants
  have pages : ∃ pages, pageAline (size + 32).toNat = pages * 4096 ∧
      16 ≤ pages ∧ pages * 4096 < 18446744073709551616 := by
    unfold pageAline ndAline minPageSize sysPageSize
    generalize (size + 32).toNat = total
    refine ⟨max ((total + (4096 - 1)) % 18446744073709551616 / 4096) 16, ?_, ?_,
      ?_⟩ <;> omega
  obtain ⟨pages, aligned, least, most⟩ := pages
  unfold PoolWorld.allocDirect at accounts ⊢
  split
  · refine ⟨{ accounts := accounts, enough := sound.enough,
              granularity := sound.granularity,
              room := sound.room, subs := ?_, cached := sound.cached, chunks := ?_ }, ?_⟩
    · intro each member
      obtain ⟨base, length, before⟩ := sound.subs each member
      exact ⟨base, length, before.congr rfl rfl⟩
    · refine forall_mem_cons.mpr ⟨⟨pages, ?_, least, most⟩, sound.chunks⟩
      dsimp only
      unfold bigChunkListSize allocNodeSize
      omega
    · refine List.Perm.of_eq ?_
      change (_, _) :: _ = (_, _) :: _
      congr 2
      unfold givenSize
      rw [if_pos large, aligned]
      dsimp only
      unfold bigChunkListSize allocNodeSize
      omega
  · exact ⟨sound, List.Perm.refl _⟩

theorem Sound.mark (sound : world.Sound least) (cur : Nat) (used : Bool) :
    Sound least { world with
      pool := { world.pool with curAllocator := cur, inUsed := used } } where
  accounts := sound.accounts.move (List.Perm.refl _) sound.accounts.own
  enough := sound.enough
  granularity := sound.granularity
  room := sound.room
  subs := by
    intro each member
    obtain ⟨base, length, before⟩ := sound.subs each member
    exact ⟨base, length, before.congr rfl rfl⟩
  cached := sound.cached
  chunks := sound.chunks

theorem allocIn_cached (pool : MmPool) (page : Nat) (size : UInt64) :
    (pool.allocIn page size).2.freeAllocator = pool.freeAllocator ∧
      (pool.allocIn page size).2.allocGranularity = pool.allocGranularity := by
  unfold MmPool.allocIn
  split
  · exact ⟨rfl, rfl⟩
  · split <;> exact ⟨rfl, rfl⟩

theorem Sound.allocInSub (sound : world.Sound least)
    (small : size.toNat + allocNodeSize ≤ directAllocSize)
    (fits : (world.pool.allocIn world.pool.curAllocator size).1 = none →
      world.PageFits least size grants) :
    (world.allocInSub size grants).2.Sound least ∧
      world.pool.Served (world.allocInSub size grants).2.pool size
        (world.allocInSub size grants).1 := by
  have tried := sound.allocIn world.pool.curAllocator small
  have cached := allocIn_cached world.pool world.pool.curAllocator size
  unfold PoolWorld.allocInSub
  cases got : world.pool.allocIn world.pool.curAllocator size with
  | mk addr pool =>
    rw [got] at tried cached
    obtain ⟨later, served⟩ := tried
    cases addr with
    | some addr => exact ⟨later.mark _ true, served⟩
    | none =>
      have kept : pool.liveBlocks.Perm world.pool.liveBlocks := served
      have still : PageFits least { world with pool := pool } size grants := by
        intro small empty
        have before := fits (congrArg Prod.fst got) small
          (cached.1.symm.trans empty)
        rw [← cached.2] at before
        exact before
      dsimp only
      cases opened : PoolWorld.allocSubAllocator
          { world with pool := pool } size grants with
      | none => exact ⟨later.mark _ true, served⟩
      | some result =>
        obtain ⟨page, next⟩ := result
        obtain ⟨fresh, same⟩ := later.allocSubAllocator small still opened
        obtain ⟨last, given⟩ := fresh.allocIn page small
        dsimp only
        have blocks : world.pool.Served
            (next.pool.allocIn page size).2 size
            (next.pool.allocIn page size).1 := by
          cases answer : (next.pool.allocIn page size).1 with
          | none =>
            rw [answer] at given
            exact List.Perm.trans given
              ((List.Perm.of_eq same).trans kept)
          | some addr =>
            rw [answer] at given
            exact List.Perm.trans given
              (((List.Perm.of_eq same).trans kept).cons _)
        split
        · exact ⟨last.mark _ true, blocks⟩
        · exact ⟨last.mark _ true, blocks⟩

theorem Sound.poolAlloc (sound : world.Sound least)
    (bound : size.toNat + allocNodeSize < 18446744073709551616)
    (fits : world.PageFits least size grants) :
    (world.poolAlloc size grants).2.Sound least ∧
      world.pool.Served (world.poolAlloc size grants).2.pool size
        (world.poolAlloc size grants).1 := by
  have added : (size + 8).toNat = size.toNat + allocNodeSize := by
    exact Nat.mod_eq_of_lt bound
  unfold PoolWorld.poolAlloc
  split_ifs with zero full direct
  · exact ⟨sound, List.Perm.refl _⟩
  · exact ⟨sound, List.Perm.refl _⟩
  · exact sound.allocDirect direct grants
  · rw [added] at direct
    exact sound.allocInSub (Nat.le_of_not_lt direct) fun _ => fits

theorem allocIn_fresh {pool : MmPool} {page length : Nat} {subs : List PoolSub}
    (listed : pool.allocatorList = subInit page 0 length :: subs)
    (whole : minPageSize ≤ length)
    (small : size.toNat + allocNodeSize ≤ directAllocSize) :
    (pool.allocIn page size).1 ≠ none := by
  obtain ⟨here, most, _⟩ := SubAllocator.exists_of_small small
  have found : pool.findSub page = some (subInit page 0 length) := by
    unfold MmPool.findSub
    rw [listed]
    exact find?_cons_of_pos (by simp [subInit])
  have least : directAllocSize + subAllocatorSize ≤ minPageSize := by decide
  have room : neededSize size ≤ length - subAllocatorSize := by omega
  obtain ⟨offset, next, served⟩ : ∃ offset next,
      (subInit page 0 length).arena.ndAllocatorAlloc size =
        some (some offset, next) := SubAllocator.init_serves _ here room
  unfold MmPool.allocIn
  rw [found]
  dsimp only
  rw [served]
  exact Option.some_ne_none _

/-- A pool whose pages are whole finds a sub-allocator with room for a small
request, if the page for it is not refused. -/
theorem Sound.allocSubAllocator_serves (sound : world.Sound minPageSize)
    (small : size.toNat + allocNodeSize ≤ directAllocSize)
    (granted : world.pool.freeAllocator = [] → grants.headD false = true) :
    ∃ page next, world.allocSubAllocator size grants = some (page, next) ∧
      (next.pool.allocIn page size).1 ≠ none := by
  unfold PoolWorld.allocSubAllocator
  dsimp only
  split
  · rename_i empty
    obtain _ | ⟨_ | _, grants⟩ := grants
    · cases granted empty
    · cases granted empty
    · refine ⟨_, _, rfl, allocIn_fresh rfl ?_ small⟩
      have least := sound.granularity.1
      unfold minPageSize
      omega
  · rename_i sub subs stored
    have reusable := sound.cached sub (by rw [stored]; exact mem_cons_self)
    exact ⟨_, _, rfl, allocIn_fresh rfl reusable.1 small⟩

theorem Sound.pageFits (sound : world.Sound least) (whole : least ≤ minPageSize)
    (granted : grants.headD false = true) :
    world.PageFits least size grants := by
  intro _ _ allocSize tried
  obtain _ | ⟨_ | _, grants⟩ := grants
  · cases granted
  · cases granted
  · cases tried
    have least := sound.granularity.1
    unfold minPageSize at *
    omega

theorem Sound.allocInSub_serves (sound : world.Sound minPageSize)
    (small : size.toNat + allocNodeSize ≤ directAllocSize)
    (granted : (world.pool.allocIn world.pool.curAllocator size).1 = none →
      world.pool.freeAllocator = [] → grants.headD false = true) :
    (world.allocInSub size grants).1 ≠ none := by
  obtain ⟨later, _⟩ := sound.allocIn world.pool.curAllocator small
  have cached := allocIn_cached world.pool world.pool.curAllocator size
  unfold PoolWorld.allocInSub
  cases got : world.pool.allocIn world.pool.curAllocator size with
  | mk addr pool =>
    rw [got] at later cached granted
    cases addr with
    | some addr => exact Option.some_ne_none _
    | none =>
      obtain ⟨page, next, opened, serves⟩ :=
        later.allocSubAllocator_serves small fun empty =>
          granted rfl (cached.1.symm.trans empty)
      dsimp only at opened ⊢
      rw [opened]
      exact serves

theorem Sound.poolAlloc_granted (sound : world.Sound minPageSize)
    (bound : size.toNat + allocNodeSize < 18446744073709551616)
    (granted : world.pageRefused size grants = false) :
    (world.poolAlloc size grants).2.Sound minPageSize ∧
      world.pool.Served (world.poolAlloc size grants).2.pool size
        (world.poolAlloc size grants).1 ∧
      ((world.poolAlloc size grants).1 = none →
        size = 0 ∨ world.pool.capacity < world.pool.allocatedSize) := by
  have added : (size + 8).toNat = size.toNat + allocNodeSize := by
    exact Nat.mod_eq_of_lt bound
  unfold pageRefused at granted
  unfold PoolWorld.poolAlloc
  split_ifs at granted ⊢ with zero full direct
  · exact ⟨sound, List.Perm.refl _, fun _ => .inl zero⟩
  · exact ⟨sound, List.Perm.refl _, fun _ => .inr full⟩
  · obtain ⟨later, served⟩ := sound.allocDirect direct grants
    refine ⟨later, served, ?_⟩
    obtain _ | ⟨_ | _, grants⟩ := grants
    · cases granted
    · cases granted
    · intro none
      cases none
  · rw [added] at direct
    have small := Nat.le_of_not_lt direct
    have head : (world.pool.allocIn world.pool.curAllocator size).1 = none →
        world.pool.freeAllocator = [] → grants.headD false = true := by
      intro none empty
      simpa [none, empty] using granted
    obtain ⟨later, served⟩ := sound.allocInSub small fun none => by
      by_cases empty : world.pool.freeAllocator = []
      · exact sound.pageFits (Nat.le_refl _) (head none empty)
      · exact fun _ stored => absurd stored empty
    refine ⟨later, served, fun none => ?_⟩
    exact absurd none (sound.allocInSub_serves small head)

section

variable (sound : world.Sound least)
include sound

theorem Sound.chunkPages :
    (world.pool.pageList.map BigChunk.page).Nodup :=
  (nodup_append.mp
    (nodup_append.mp sound.accounts.distinct).2.1).2.1

theorem Sound.find_chunk (member : chunk ∈ world.pool.pageList) :
    (world.pool.pageList.find? fun other => other.page = chunk.page) =
      some chunk :=
  find?_of_nodup sound.chunkPages member

theorem Sound.find_sub (member : sub ∈ world.pool.allocatorList) :
    (world.pool.pageList.find? fun chunk => chunk.page = sub.page) = none ∧
      world.pool.findSub sub.page = some sub := by
  refine ⟨?_, find?_of_nodup sound.pages member⟩
  refine find?_eq_none.mpr ?_
  intro chunk there same
  have apart := (nodup_append.mp sound.accounts.distinct).2.2
  refine apart sub.page (mem_map_of_mem member) chunk.page ?_
    (of_decide_eq_true same).symm
  exact mem_append_right _ (mem_map_of_mem there)

theorem Sound.find_block (member : sub ∈ world.pool.allocatorList)
    (live : block ∈ sub.arena.live) :
    (sub.arena.live.find? fun other => other.addr = block.addr) =
      some block := by
  obtain ⟨base, length, old⟩ := sound.subs sub member
  refine find?_of_nodup ?_ live
  refine pairwise_map.mpr (old.tiled.apart.imp_of_mem ?_)
  intro first second here there apart same
  obtain ⟨list, exists_, size⟩ := old.tiled.headed here
  obtain ⟨other, exists', size'⟩ := old.tiled.headed there
  have least := (ChunkList.size_of_exists exists_).1
  have least' := (ChunkList.size_of_exists exists').1
  unfold minSize at least least'
  omega

end

theorem mem_liveBlocks {pool : MmPool} :
    (addr, len) ∈ pool.liveBlocks ↔
      (∃ chunk ∈ pool.pageList,
        addr = ⟨chunk.page, bigChunkListSize⟩ ∧ len = chunk.size / 4 * 4) ∨
      ∃ sub ∈ pool.allocatorList, ∃ block ∈ sub.arena.live,
        addr = ⟨sub.page, block.addr + allocNodeSize⟩ ∧ len = block.size := by
  unfold MmPool.liveBlocks PoolSub.blocks BigChunk.block
  simp only [mem_append, mem_map, mem_flatMap, Prod.mk.injEq]
  constructor <;>
  · rintro (⟨chunk, member, rfl, rfl⟩ | ⟨sub, member, block, live, rfl, rfl⟩)
    · exact .inl ⟨chunk, member, rfl, rfl⟩
    · exact .inr ⟨sub, member, block, live, rfl, rfl⟩

theorem Sound.allocLen (sound : world.Sound least)
    (live : (addr, len) ∈ world.pool.liveBlocks) :
    world.allocLen addr = some len := by
  unfold PoolWorld.allocLen
  rcases mem_liveBlocks.mp live with
    ⟨chunk, member, rfl, rfl⟩ | ⟨sub, member, block, here, rfl, rfl⟩
  · rw [sound.find_chunk member]
  · obtain ⟨none, found⟩ := sound.find_sub member
    rw [none, found]
    dsimp only
    rw [Nat.add_sub_cancel, sound.find_block member here]
    rfl

/-- The lengths of live blocks: a class below the direct ones, or whole pages
less the header. -/
def LenShape (len : Nat) : Prop :=
  (len ≤ directAllocSize ∧ 16 ≤ len ∧ len % 16 = 0 ∧
      (len % 1024 = 0 ∨ len < 1024)) ∨
    (65536 ≤ len + 24 ∧ (len + 24) % 4096 = 0 ∧ len + 24 < 18446744073709551616)

section

variable (sound : world.Sound least)
include sound

theorem Sound.len_shape
    (live : (addr, len) ∈ world.pool.liveBlocks) : LenShape len := by
  rcases mem_liveBlocks.mp live with
    ⟨chunk, member, rfl, rfl⟩ | ⟨sub, member, block, here, rfl, rfl⟩
  · obtain ⟨pages, size, least, most⟩ := sound.chunks chunk member
    exact .inr ⟨by omega, by omega, by omega⟩
  · obtain ⟨base, length, old⟩ := sound.subs sub member
    obtain ⟨list, there, size⟩ := old.tiled.headed here
    obtain ⟨units, kilobytes⟩ := (SubAllocator.exact_size there).units
    refine .inl ⟨old.small block here, ?_⟩
    rw [size]
    exact ⟨(ChunkList.size_of_exists there).1, units, kilobytes⟩

theorem Sound.freeSubAllocator (member : sub ∈ world.pool.allocatorList)
    (foreign : sub.page ≠ world.pool.page) (empty : sub.arena.live = []) :
    (world.freeSubAllocator sub).Sound least ∧
      (world.freeSubAllocator sub).pool.liveBlocks.Perm
        world.pool.liveBlocks := by
  have accounts := sound.accounts.freeSubAllocator
    (mem_map_of_mem member) foreign
  obtain ⟨base, length, old⟩ := sound.subs sub member
  have reusable := (old.counted foreign).2
  obtain ⟨before, after, split⟩ := append_of_mem member
  have filtered := MmPool.filter_split split sound.pages
  have blocks := MmPool.liveBlocks_split split
  have none : sub.blocks = [] := by
    unfold PoolSub.blocks
    rw [empty]
    rfl
  rw [none, nil_append] at blocks
  have rest : ∀ each ∈ before ++ after,
      ∃ base length, world.pool.SubSound least each base length := by
    intro each there
    refine sound.subs each ?_
    rw [split]
    rcases mem_append.mp there with early | late
    · exact mem_append_left _ early
    · exact mem_append_right _ (mem_cons_of_mem _ late)
  unfold PoolWorld.freeSubAllocator at accounts ⊢
  dsimp only at accounts ⊢
  rw [filtered] at accounts ⊢
  split
  · rename_i many
    rw [if_pos many] at accounts
    refine ⟨{ accounts := accounts, enough := sound.enough,
              granularity := sound.granularity,
              room := sound.room, subs := ?_, cached := sound.cached,
              chunks := sound.chunks }, blocks.symm⟩
    intro each there
    obtain ⟨base, length, before⟩ := rest each there
    exact ⟨base, length, before.congr rfl rfl⟩
  · rename_i few
    rw [if_neg few] at accounts
    refine ⟨{ accounts := accounts, enough := sound.enough,
              granularity := sound.granularity,
              room := sound.room, subs := ?_, cached := forall_mem_cons.mpr
                ⟨reusable, sound.cached⟩,
              chunks := sound.chunks }, blocks.symm⟩
    intro each there
    obtain ⟨base, length, before⟩ := rest each there
    exact ⟨base, length, before.congr rfl rfl⟩

theorem Sound.freeInSub (member : sub ∈ world.pool.allocatorList)
    (live : block ∈ sub.arena.live) :
    (world.freeInSub sub (block.addr + allocNodeSize)).Sound least ∧
      world.pool.liveBlocks.Perm
        ((⟨sub.page, block.addr + allocNodeSize⟩, block.size) ::
          (world.freeInSub sub
            (block.addr + allocNodeSize)).pool.liveBlocks) := by
  obtain ⟨base, length, old⟩ := sound.subs sub member
  have found := sound.find_block member live
  obtain ⟨result, next, done, tiled, erased, zero⟩ :=
    old.tiled.ndAllocatorFree' found
  have moved := SubAllocator.perm_eraseP_of_find? found
  rw [← erased] at moved
  have counted : sub.page ≠ world.pool.page →
      SubAllocator.Counted length next ∧ sub.Reusable least := by
    intro foreign
    obtain ⟨counted, reusable⟩ := old.counted foreign
    refine ⟨@SubAllocator.Counted.perform _ _ _ _ (.free block.addr) counted
      old.tiled trivial ?_, reusable⟩
    unfold SubAllocator.perform
    dsimp only
    rw [done]
    rfl
  have changed : world.pool.SubSound least { sub with arena := next } base length :=
    { tiled := tiled
      extent := old.extent
      small := fun other there =>
        old.small other (moved.mem_iff.mpr (mem_cons_of_mem _ there))
      counted := counted }
  have later := sound.setArena member changed
  obtain ⟨before, after, split⟩ := append_of_mem member
  have set := MmPool.setArena_split split sound.pages next
  have blocks : world.pool.liveBlocks.Perm
      ((⟨sub.page, block.addr + allocNodeSize⟩, block.size) ::
        (world.pool.setArena sub.page next).liveBlocks) := by
    refine (MmPool.liveBlocks_split split).trans
      (List.Perm.trans ?_ ((MmPool.liveBlocks_split set).symm.cons _))
    exact (moved.map _).append_right _
  unfold PoolWorld.freeInSub
  rw [Nat.add_sub_cancel, done]
  dsimp only
  split_ifs with empty released larger
  · have count := (counted released.1).1
    obtain ⟨_, _, handedOut, accounts⟩ := count
    have none : next.live = [] := accounts.recycled.mp (zero empty)
    have here : { sub with arena := next } ∈
        (world.pool.setArena sub.page next).allocatorList := by
      rw [set]
      exact mem_append_right _ mem_cons_self
    obtain ⟨final, same⟩ := @Sound.freeSubAllocator _ _
      { sub with arena := next } later here released.1 none
    exact ⟨final, blocks.trans (same.symm.cons _)⟩
  · exact ⟨later, blocks⟩
  · exact ⟨later.mark _ _, blocks⟩
  · exact ⟨later, blocks⟩

theorem Sound.dropChunk (member : chunk ∈ world.pool.pageList)
    (allocated : UInt64) {system : PageSystem}
    (accounts : Accounts
      { pool := { world.pool with
          allocatedSize := allocated
          pageList := world.pool.pageList.filter fun other =>
            other.page ≠ chunk.page }
        system := system }) :
    Sound least
        { pool := { world.pool with
            allocatedSize := allocated
            pageList := world.pool.pageList.filter fun other =>
              other.page ≠ chunk.page }
          system := system } ∧
      world.pool.liveBlocks.Perm (chunk.block ::
        MmPool.liveBlocks { world.pool with
          allocatedSize := allocated
          pageList := world.pool.pageList.filter fun other =>
            other.page ≠ chunk.page }) := by
  obtain ⟨before, after, split⟩ := append_of_mem member
  have distinct := sound.chunkPages
  have filtered : (world.pool.pageList.filter fun other =>
      other.page ≠ chunk.page) = before ++ after := by
    rw [split, map_append, map_cons, nodup_append] at distinct
    obtain ⟨_, later, apart⟩ := distinct
    obtain ⟨fresh, _⟩ := nodup_cons.mp later
    have same : ∀ chunks : List BigChunk,
        chunk.page ∉ chunks.map BigChunk.page →
          (chunks.filter fun other => other.page ≠ chunk.page) = chunks := by
      intro chunks absent
      refine filter_eq_self.mpr ?_
      intro each there
      refine decide_eq_true ?_
      intro equal
      exact absent (mem_map.mpr ⟨each, there, equal⟩)
    rw [split, filter_append, filter_cons, if_neg (by simp), same after fresh,
      same before (fun early => apart _ early _ mem_cons_self rfl)]
  constructor
  · refine { accounts := accounts, enough := sound.enough,
              granularity := sound.granularity,
             room := sound.room, subs := ?_, cached := sound.cached, chunks := ?_ }
    · intro each there
      obtain ⟨base, length, before⟩ := sound.subs each there
      exact ⟨base, length, before.congr rfl rfl⟩
    · intro each there
      exact sound.chunks each (mem_of_mem_filter there)
  · unfold MmPool.liveBlocks
    rw [filtered, split, map_append, map_cons, map_append,
      append_assoc, append_assoc]
    exact perm_middle

theorem Sound.freeDirect (member : chunk ∈ world.pool.pageList) :
    (world.freeDirect chunk).Sound least ∧
      world.pool.liveBlocks.Perm
        (chunk.block :: (world.freeDirect chunk).pool.liveBlocks) :=
  sound.dropChunk member _ (sound.accounts.freeDirect member)

theorem Sound.poolFree (live : (addr, len) ∈ world.pool.liveBlocks) :
    (world.poolFree addr).Sound least ∧
      world.pool.liveBlocks.Perm
        ((addr, len) :: (world.poolFree addr).pool.liveBlocks) := by
  unfold PoolWorld.poolFree
  rcases mem_liveBlocks.mp live with
    ⟨chunk, member, rfl, rfl⟩ | ⟨sub, member, block, here, rfl, rfl⟩
  · rw [sound.find_chunk member]
    exact sound.freeDirect member
  · obtain ⟨none, found⟩ := sound.find_sub member
    rw [none, found]
    exact sound.freeInSub member here

end

theorem ownSub_sound {pool : MmPool}
    (room : pool.header + subAllocatorSize ≤ pool.size) :
    pool.SubSound least pool.ownSub (pool.header + subAllocatorSize)
      (pool.size - pool.header - subAllocatorSize) where
  tiled := ⟨[], rfl, SubAllocator.holds_init _ _⟩
  extent := by
    unfold MmPool.extent
    rw [if_pos (show pool.ownSub.page = pool.page from rfl)]
    omega
  small := by
    intro block member
    exact absurd member not_mem_nil
  counted := fun foreign => absurd rfl foreign

theorem Sound.poolReset (sound : world.Sound least) :
    world.poolReset.Sound least where
  accounts := sound.accounts.poolReset
  enough := sound.enough
  granularity := sound.granularity
  room := sound.room
  subs := by
    intro each member
    have own : each = world.pool.ownSub := mem_singleton.mp member
    rw [own]
    exact ⟨_, _, (ownSub_sound sound.room).congr rfl rfl⟩
  cached := sound.cached
  chunks := by
    intro chunk member
    exact absurd member not_mem_nil

theorem sound_create {maxsize : UInt64} {header firstPage : Nat}
    (enough : subAllocatorSize ≤ least)
    (room : header + subAllocatorSize ≤ minPageSize)
    (created : poolCreate maxsize header firstPage = some world) :
    world.Sound least := by
  have accounts := Accounts.create created
  unfold poolCreate at created
  unfold minPageSize at room
  split at created
  · cases created
  generalize picked : (if maxsize = 18446744073709551615 then
    (minPageSize * 64, maxsize, 64)
    else if maxsize ≤ 65536 then (minPageSize, 65536, 1)
    else if maxsize ≤ 262144 then (minPageSize, 65536, 1)
    else (1048576, UInt64.ofNat (ndAline maxsize.toNat minPageSize), 1) :
      Nat × UInt64 × Nat) = triple at created
  have bounds : 65536 ≤ triple.1 ∧ 1 ≤ triple.2.2 ∧ triple.2.2 ≤ 64 := by
    rw [← picked]
    unfold minPageSize
    split_ifs <;> simp
  obtain ⟨size, capacity, gran⟩ := triple
  obtain ⟨large, low, high⟩ := bounds
  cases created
  refine { accounts := accounts, enough := enough,
           granularity := ⟨low, high⟩, room := ?_,
           subs := ?_, cached := ?_, chunks := ?_ }
  · change header + subAllocatorSize ≤ size
    omega
  · intro each member
    rw [mem_singleton.mp member]
    refine ⟨_, _, (ownSub_sound ?_).congr rfl rfl⟩
    change header + subAllocatorSize ≤ size
    omega
  · intro each member
    exact absurd member not_mem_nil
  · intro chunk member
    exact absurd member not_mem_nil

def Apart (first second : PoolAddr × Nat) : Prop :=
  first.1.page ≠ second.1.page ∨
    first.1.offset + first.2 ≤ second.1.offset ∨
      second.1.offset + second.2 ≤ first.1.offset

theorem Apart.symm {first second : PoolAddr × Nat}
    (apart : Apart first second) : Apart second first := by
  rcases apart with page | before | after
  · exact .inl (Ne.symm page)
  · exact .inr (.inr before)
  · exact .inr (.inl after)

theorem Sound.apart (sound : world.Sound least) :
    world.pool.liveBlocks.Pairwise Apart := by
  refine pairwise_append.mpr ⟨?_, ?_, ?_⟩
  · refine pairwise_map.mpr ?_
    exact (pairwise_map.mp sound.chunkPages).imp fun different =>
      .inl different
  · refine pairwise_flatMap.mpr ⟨?_, ?_⟩
    · intro sub member
      obtain ⟨base, length, old⟩ := sound.subs sub member
      refine pairwise_map.mpr (old.tiled.apart.imp ?_)
      intro first second apart
      rcases apart with before | after
      · refine .inr (.inl ?_)
        dsimp only
        omega
      · refine .inr (.inr ?_)
        dsimp only
        omega
    · refine (pairwise_map.mp sound.pages).imp ?_
      intro first second different block here other there
      obtain ⟨_, _, rfl⟩ := mem_map.mp here
      obtain ⟨_, _, rfl⟩ := mem_map.mp there
      exact .inl different
  · intro block here other there
    obtain ⟨chunk, member, rfl⟩ := mem_map.mp here
    obtain ⟨sub, inUse, member'⟩ := mem_flatMap.mp there
    obtain ⟨_, _, rfl⟩ := mem_map.mp member'
    refine .inl ?_
    have apart := (nodup_append.mp sound.accounts.distinct).2.2
    exact Ne.symm (apart sub.page (mem_map_of_mem inUse) chunk.page
      (mem_append_right _ (mem_map_of_mem member)))

theorem Sound.onPage (sound : world.Sound least) {len count : Nat}
    (live : (addr, len) ∈ world.pool.liveBlocks)
    (within : count + allocNodeSize ≤ len) :
    world.pool.OnPage addr count := by
  unfold allocNodeSize at within
  rcases mem_liveBlocks.mp live with
    ⟨chunk, member, rfl, rfl⟩ | ⟨sub, member, block, here, rfl, rfl⟩
  · refine .inl ⟨chunk, member, rfl, ?_⟩
    unfold allocNodeSize bigChunkListSize
    dsimp only
    omega
  · obtain ⟨base, length, old⟩ := sound.subs sub member
    refine .inr ⟨sub, member, rfl, ?_⟩
    have inside := old.tiled.inside here
    have extent := old.extent
    unfold allocNodeSize
    dsimp only
    omega

theorem givenSize_eq
    (bound : newsize.toNat + allocNodeSize < 18446744073709551616) :
    givenSize newsize =
      if directAllocSize < newsize.toNat + allocNodeSize then
        max (((newsize.toNat + 32) % 18446744073709551616 + 4095) %
          18446744073709551616 / 4096 * 4096) 65536 - 24
      else if newsize.toNat + allocNodeSize ≤ 1008 then
        max ((newsize.toNat + allocNodeSize + 15) / 16 * 16) 16
      else (newsize.toNat + allocNodeSize + 1023) / 1024 * 1024 := by
  have added : (newsize + 8).toNat = newsize.toNat + allocNodeSize := by
    exact Nat.mod_eq_of_lt bound
  unfold givenSize
  rw [added]
  split
  · change max (((newsize.toNat + 32) % 18446744073709551616 + (4096 - 1)) %
      18446744073709551616 / 4096 * 4096) 65536 - 32 + 8 = _
    omega
  · rename_i small
    exact SubAllocator.neededSize_of_small (Nat.le_of_not_lt small)

/-- The old block is large enough to stay, if the new size is none of the
largest. -/
theorem stays_iff (shape : LenShape len)
    (stays : getNeedSize (newsize + 8) ≤ len) :
    newsize.toNat ≤ len - allocNodeSize ↔
      newsize.toNat + bigChunkListSize + (sysPageSize - 1) <
        18446744073709551616 := by
  unfold bigChunkListSize sysPageSize allocNodeSize
  unfold LenShape directAllocSize minPageSize sysPageSize at shape
  constructor
  · intro fits
    omega
  · intro bound
    rw [getNeedSize_eq (by omega)] at stays
    split_ifs at stays <;> omega

theorem bound_of_moves (shape : LenShape len)
    (moves : len < getNeedSize (newsize + 8)) :
    newsize.toNat + allocNodeSize < 18446744073709551616 := by
  by_contra wraps
  have low := newsize.toNat_lt
  unfold allocNodeSize at wraps
  have added : (newsize + 8 + 8).toNat =
      newsize.toNat + 16 - 18446744073709551616 := by
    change ((newsize.toNat + 8) % 18446744073709551616 + 8) %
      18446744073709551616 = _
    omega
  unfold getNeedSize at moves
  unfold LenShape directAllocSize minPageSize sysPageSize at shape
  unfold pageAline sizeAline bigAline ndAline bigSize minSize directAllocSize
    minPageSize sysPageSize at moves
  dsimp only at moves
  split_ifs at moves <;> omega

theorem moves_iff (shape : LenShape len)
    (bound : newsize.toNat + allocNodeSize < 18446744073709551616)
    (moves : len < getNeedSize (newsize + 8)) :
    (newsize.toNat ≤ givenSize newsize - allocNodeSize ∧
        len ≤ givenSize newsize) ↔
      newsize.toNat + bigChunkListSize + (sysPageSize - 1) <
          18446744073709551616 ∧
        ¬ (directAllocSize < len ∧
          newsize.toNat + allocNodeSize ≤ directAllocSize) := by
  rw [givenSize_eq bound]
  unfold LenShape at shape
  unfold directAllocSize minPageSize sysPageSize bigChunkListSize
    allocNodeSize at *
  constructor
  · rintro ⟨large, copy⟩
    split_ifs at large copy <;> omega
  · rintro ⟨small, own⟩
    rw [getNeedSize_eq (by omega)] at moves
    unfold directAllocSize minPageSize sysPageSize at moves
    split_ifs at moves ⊢ <;> omega

theorem Sound.len_unique (sound : world.Sound least) {len other : Nat}
    (live : (addr, len) ∈ world.pool.liveBlocks)
    (also : (addr, other) ∈ world.pool.liveBlocks) : other = len :=
  Option.some.inj ((sound.allocLen also).symm.trans (sound.allocLen live))

theorem memcpy_of_covers {bytes : PoolBytes} {dest src : PoolAddr}
    {count place : Nat} (inside : place < count) :
    bytes.memcpy dest src count (dest.shift place) = bytes (src.shift place) := by
  unfold PoolBytes.memcpy
  rw [if_pos ⟨rfl, Nat.le_add_right _ _, Nat.add_lt_add_left inside _⟩]
  change bytes (src.shift (dest.offset + place - dest.offset)) = _
  rw [Nat.add_sub_cancel_left]

theorem memcpy_of_not_covers {bytes : PoolBytes} {dest src place : PoolAddr}
    {count : Nat} (outside : ¬ dest.Covers count place) :
    bytes.memcpy dest src count place = bytes place :=
  if_neg outside

theorem Sound.keeps_same_iff (sound : world.Sound least)
    (live : (addr, len) ∈ world.pool.liveBlocks) (newsize : UInt64)
    (bytes : PoolBytes) :
    PoolHeap.KeepsData ⟨world, bytes⟩ addr len newsize
        (some addr, ⟨world, bytes⟩) ↔
      newsize.toNat ≤ len - allocNodeSize := by
  have shape := sound.len_shape live
  constructor
  · intro keeps
    obtain ⟨newlen, known, large, _⟩ := keeps.grown addr rfl
    rw [sound.len_unique live known] at large
    exact large
  · intro large
    refine { grown := ?_, copied := ?_, others := ?_, kept := ?_ }
    · rintro newaddr ⟨⟩
      refine ⟨len, live, large, sound.onPage live ?_, ?_⟩
      · unfold LenShape at shape
        unfold allocNodeSize at large ⊢
        omega
      · intro place changed
        exact absurd rfl changed
    · rintro newaddr ⟨⟩ count _ _
      rfl
    · intro other otherLen known _
      exact ⟨known, fun _ _ => rfl⟩
    · intro none
      cases none

theorem keeps_none {next : PoolWorld}
    (live : (addr, len) ∈ world.pool.liveBlocks) (newsize : UInt64)
    (bytes : PoolBytes) (same : next.pool.liveBlocks.Perm world.pool.liveBlocks)
    :
    PoolHeap.KeepsData ⟨world, bytes⟩ addr len newsize
      (none, ⟨next, bytes⟩) where
  grown := by
    intro newaddr member
    cases member
  copied := by
    intro newaddr member
    cases member
  others := fun _ _ known _ => ⟨same.mem_iff.mpr known, fun _ _ => rfl⟩
  kept := fun _ => ⟨same.mem_iff.mpr live, fun _ _ => rfl⟩

theorem Sound.keeps_moved_iff {next after : PoolWorld} {addr newaddr : PoolAddr}
    {len newlen : Nat} (live : (addr, len) ∈ world.pool.liveBlocks)
    (newsize : UInt64) (sound : next.Sound least)
    (found : next.pool.liveBlocks.Perm
      ((newaddr, newlen) :: world.pool.liveBlocks))
    (freed : after.Sound least)
    (rest : next.pool.liveBlocks.Perm ((addr, len) :: after.pool.liveBlocks)) :
    (∀ bytes : PoolBytes, PoolHeap.KeepsData ⟨world, bytes⟩ addr len newsize
        (some newaddr, ⟨after,
          bytes.memcpy newaddr addr (len - allocNodeSize)⟩)) ↔
      newsize.toNat ≤ newlen - allocNodeSize ∧ len ≤ newlen := by
  have apart : ∀ other ∈ world.pool.liveBlocks,
      Apart (newaddr, newlen) other := by
    have pairs := (found.pairwise_iff Apart.symm).mp sound.apart
    exact (pairwise_cons.mp pairs).1
  have shape : LenShape newlen :=
    sound.len_shape (found.mem_iff.mpr mem_cons_self)
  have least : 16 ≤ newlen := by
    unfold LenShape at shape
    omega
  have distinct : newaddr ≠ addr := by
    rintro rfl
    rcases apart _ live with page | before | behind
    · exact page rfl
    · dsimp only at before
      omega
    · have oldShape := sound.len_shape
        (found.mem_iff.mpr (mem_cons_of_mem _ live))
      unfold LenShape at oldShape
      dsimp only at behind
      omega
  have there : (newaddr, newlen) ∈ after.pool.liveBlocks := by
    have known := rest.mem_iff.mp (found.mem_iff.mpr mem_cons_self)
    rcases mem_cons.mp known with same | known
    · exact absurd (congrArg Prod.fst same) distinct
    · exact known
  constructor
  · intro keeps
    have large : newsize.toNat ≤ newlen - allocNodeSize := by
      obtain ⟨other, known, large, _⟩ :=
        (keeps fun _ => 0).grown newaddr rfl
      rw [freed.len_unique there known] at large
      exact large
    refine ⟨large, ?_⟩
    by_contra short
    -- the first byte behind the new block is written
    let source := addr.shift (newlen - allocNodeSize)
    let target := newaddr.shift (newlen - allocNodeSize)
    have different : target ≠ source := by
      intro same
      refine distinct ?_
      have page : target.page = source.page := congrArg PoolAddr.page same
      have offset : target.offset = source.offset :=
        congrArg PoolAddr.offset same
      cases newaddr
      cases addr
      rw [PoolAddr.mk.injEq]
      exact ⟨page, Nat.add_right_cancel offset⟩
    let bytes : PoolBytes := fun place => if place = source then 1 else 0
    obtain ⟨other, known, _, _, written⟩ := (keeps bytes).grown newaddr rfl
    rw [freed.len_unique there known] at written
    have covered := written target (by
      change bytes.memcpy newaddr addr (len - allocNodeSize) target ≠
        bytes target
      have copied : bytes.memcpy newaddr addr (len - allocNodeSize) target =
          bytes source := memcpy_of_covers (by
        unfold allocNodeSize
        omega)
      rw [copied]
      change (if source = source then 1 else 0) ≠
        if target = source then 1 else 0
      rw [if_pos rfl, if_neg different]
      decide)
    exact absurd covered.2.2 (Nat.lt_irrefl _)
  · rintro ⟨large, copy⟩ bytes
    have within : ∀ place, bytes.memcpy newaddr addr (len - allocNodeSize)
        place ≠ bytes place → newaddr.Covers (newlen - allocNodeSize) place := by
      intro place changed
      by_contra outside
      refine changed (memcpy_of_not_covers fun covered => outside ?_)
      exact ⟨covered.1, covered.2.1, by
        have bound := covered.2.2
        omega⟩
    refine { grown := ?_, copied := ?_, others := ?_, kept := ?_ }
    · rintro _ ⟨⟩
      refine ⟨newlen, there, large, freed.onPage there ?_, within⟩
      unfold allocNodeSize at large ⊢
      omega
    · rintro _ ⟨⟩ count inside _
      exact memcpy_of_covers inside
    · intro other otherLen known different
      constructor
      · have kept := rest.mem_iff.mp
          (found.mem_iff.mpr (mem_cons_of_mem _ known))
        rcases mem_cons.mp kept with same | kept
        · exact absurd (congrArg Prod.fst same) different
        · exact kept
      · intro count inside
        by_contra changed
        have covered := within _ changed
        obtain ⟨page, low, high⟩ := covered
        change newaddr.offset ≤ other.offset + count at low
        change other.offset + count < _ at high
        rcases apart _ known with pages | before | behind
        · exact pages page.symm
        · dsimp only at before
          omega
        · dsimp only at behind
          omega
    · intro none
      cases none

/-- A reallocation of a live block comes back and keeps the data exactly under
the condition. -/
theorem Sound.poolRealloc_keeps_iff (sound : world.Sound minPageSize)
    (live : (addr, len) ∈ world.pool.liveBlocks) :
    (∀ bytes : PoolBytes,
        PoolHeap.ReallocKeeps ⟨world, bytes⟩ addr len newsize grants) ↔
      world.Fits len newsize grants := by
  have shape := sound.len_shape live
  have found := sound.allocLen live
  unfold PoolHeap.ReallocKeeps PoolHeap.poolRealloc Fits
  dsimp only
  rw [found]
  by_cases stays : getNeedSize (newsize + 8) ≤ len
  · simp only [if_pos stays, Option.some.injEq, exists_eq_left',
      sound.keeps_same_iff live, stays_iff shape stays, Nat.not_lt.mpr stays,
      false_and, false_implies, and_true, false_or, forall_const]
  have moves := Nat.lt_of_not_le stays
  have bound := bound_of_moves shape moves
  have some : newsize ≠ 0 := by
    rintro rfl
    exact absurd moves (by
      unfold LenShape at shape
      rw [show getNeedSize (0 + 8) = 16 by decide]
      omega)
  simp only [if_neg stays]
  by_cases refused : world.pageRefused newsize grants = true
  · have going : ¬ world.pool.capacity < world.pool.allocatedSize := by
      intro full
      rw [pageRefused, if_neg some, if_pos full] at refused
      cases refused
    simp [going, moves, refused]
  obtain ⟨later, served, unmet⟩ :=
    sound.poolAlloc_granted bound (Bool.eq_false_of_not_eq_true refused)
  simp only [if_neg refused]
  cases answer : world.poolAlloc newsize grants with
  | mk result next =>
    rw [answer] at later served unmet
    cases result with
    | none =>
      refine iff_of_true (fun bytes => ⟨_, rfl, ?_⟩)
        (.inl ⟨moves, (unmet rfl).resolve_left some⟩)
      exact keeps_none live newsize bytes served
    | some newaddr =>
      have known : (addr, len) ∈ next.pool.liveBlocks :=
        (List.Perm.mem_iff served).mpr (mem_cons_of_mem _ live)
      have going : ¬ world.pool.capacity < world.pool.allocatedSize := by
        intro full
        rw [PoolWorld.poolAlloc, if_neg some, if_pos full] at answer
        cases answer
      obtain ⟨freed, rest⟩ := later.poolFree known
      simp only [Option.some.injEq, exists_eq_left']
      rw [Sound.keeps_moved_iff live newsize later served freed rest,
        moves_iff shape bound moves]
      simp [moves, going, refused]

theorem Fits.granted (fits : world.Fits len newsize grants)
    (moves : len < getNeedSize (newsize + 8)) :
    world.pageRefused newsize grants = false := by
  rcases fits with ⟨_, full⟩ | ⟨_, rest⟩
  · unfold pageRefused
    rw [if_pos full, ite_self]
  · exact (rest moves).1

theorem Sound.step {op : PoolOp} (sound : world.Sound minPageSize)
    (careful : world.Careful op) : (world.step op).Sound minPageSize := by
  cases op with
  | alloc size grants => exact (sound.poolAlloc_granted careful.1 careful.2).1
  | free addr =>
    obtain ⟨⟨_, len⟩, live, rfl⟩ := mem_map.mp careful
    exact (sound.poolFree live).1
  | realloc addr newsize grants =>
    obtain ⟨member, fits⟩ := careful
    obtain ⟨⟨_, len⟩, live, rfl⟩ := mem_map.mp member
    have found := sound.allocLen live
    unfold PoolWorld.step PoolWorld.poolRealloc
    dsimp only at found ⊢
    rw [found]
    dsimp only
    split
    · exact sound
    rename_i moves
    have moves := Nat.lt_of_not_le moves
    have bound := bound_of_moves (sound.len_shape live) moves
    obtain ⟨later, served, -⟩ := sound.poolAlloc_granted bound
      ((fits _ live rfl).granted moves)
    cases answer : world.poolAlloc newsize grants with
    | mk result next =>
      rw [answer] at later served
      cases result with
      | none => exact later
      | some newaddr =>
        exact (later.poolFree ((List.Perm.mem_iff served).mpr
          (mem_cons_of_mem _ live))).1
  | reset => exact sound.poolReset

end PoolWorld

def unlimitedPool : PoolWorld where
  pool :=
    { page := 0, size := 4194304, header := 224,
      capacity := 18446744073709551615, allocatedSize := 4194304,
      allocGranularity := 64, freeAllocatorNum := 0, inUsed := false,
      allocatorList := [subInit 0 224 4194080], freeAllocator := [],
      pageList := [], curAllocator := 0 }
  system := { next := 1, held := [0], returned := [] }

theorem unlimitedPool_created :
    poolCreate 18446744073709551615 224 0 = some unlimitedPool := by
  decide +kernel

def growingOps : List PoolOp :=
  [.alloc 100 [], .alloc 40 [], .realloc ⟨0, 1320⟩ 3000 [],
    .free ⟨0, 1432⟩, .realloc ⟨0, 1480⟩ 100000 [true]]

end NdNet
