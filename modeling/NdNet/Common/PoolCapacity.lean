import NdNet.Common.PoolRealloc
import NdNet.Lib.Budget
import Mathlib.Algebra.Order.Group.Nat

/-!
# The capacity of a pool

`_pool_alloc_real` compares one counter with the capacity, before it looks for a
block.  The counter starts with the size of the pool's own page and follows the
blocks with pages of their own; the pages of further sub-allocators are in no
place added to it.  A block with its own pages is taken off by `nd_atomic_sub`,
which only works on the low half of the counter.

What the user asked for stands beside the pool, as the pool keeps the sizes of
its blocks only.
-/

namespace NdNet

open List

open Budget (Within Matched total)

structure PoolBook where
  world : PoolWorld
  requests : List (PoolAddr × Nat)

namespace PoolBook

def without (book : PoolBook) (addr : PoolAddr) : List (PoolAddr × Nat) :=
  book.requests.filter fun request => request.1 ≠ addr

def step (book : PoolBook) : PoolOp → PoolBook
  | .alloc size grants =>
    match book.world.poolAlloc size grants with
    | (none, world) => { book with world := world }
    | (some addr, world) =>
      { world := world, requests := (addr, size.toNat) :: book.requests }
  | .free addr =>
    { world := book.world.poolFree addr, requests := book.without addr }
  | .realloc addr newsize grants =>
    match book.world.poolRealloc addr newsize grants with
    | (none, world) => { book with world := world }
    | (some newaddr, world) =>
      { world := world
        requests := (newaddr, newsize.toNat) :: book.without addr }
  | .reset => { world := book.world.poolReset, requests := [] }

theorem step_world (book : PoolBook) (op : PoolOp) :
    (book.step op).world = book.world.step op := by
  cases op with
  | alloc size grants =>
    unfold step PoolWorld.step
    dsimp only
    cases book.world.poolAlloc size grants with
    | mk addr world => cases addr <;> rfl
  | free addr => rfl
  | realloc addr newsize grants =>
    unfold step PoolWorld.step
    dsimp only
    cases book.world.poolRealloc addr newsize grants with
    | mk addr world => cases addr <;> rfl
  | reset => rfl

/-- What the capacity of a pool is for: the requests of the live blocks are at
most one beyond it, and when all blocks are freed the counter is what it was
when the pool was created, and the test of the capacity passes. -/
structure Bounded (start : PoolWorld) (book : PoolBook) : Prop where
  within : Within start.pool.capacity.toNat book.requests
  recovered : book.requests = [] →
    book.world.pool.allocatedSize = start.pool.allocatedSize ∧
      ¬ book.world.pool.capacity < book.world.pool.allocatedSize

end PoolBook

def MmPool.uncounted (pool : MmPool) : Nat :=
  ((pool.allocatorList.filter fun sub => sub.page ≠ pool.page).map
    PoolSub.size).sum

namespace PoolWorld

variable (world : PoolWorld)

def Rounds (size : UInt64) : Prop :=
  size.toNat + bigChunkListSize + (sysPageSize - 1) < 18446744073709551616

/-- A request that passes the test would pass it with all pages counted; the
counter has room for its pages, and a page for a new sub-allocator has room for
the sub-allocator itself. -/
def Admits (size : UInt64) (grants : List Bool) : Prop :=
  Rounds size ∧ world.PageFits subAllocatorSize size grants ∧
    world.pool.allocatedSize.toNat + world.pool.uncounted ≤
      world.pool.capacity.toNat ∧
    (directAllocSize < size.toNat + allocNodeSize →
      world.pool.allocatedSize.toNat + givenSize size < 18446744073709551616)

/-- A request does not come as far as the test, or is refused by it. -/
def Refuses (size : UInt64) : Prop :=
  size = 0 ∨ world.pool.capacity < world.pool.allocatedSize

/-- The low half of the counter is not smaller than a block that is taken off
it, after `given` has been added. -/
def NoBorrow (len given : Nat) : Prop :=
  directAllocSize < len →
    len ≤ (world.pool.allocatedSize.toNat + given) % 4294967296

/-- A call with which the counter stands for the pages. -/
def Counts : PoolOp → Prop
  | .alloc size grants => world.Refuses size ∨ world.Admits size grants
  | .free addr =>
    addr ∈ world.pool.liveBlocks.map Prod.fst ∧
      ∀ block ∈ world.pool.liveBlocks, block.1 = addr → world.NoBorrow block.2 0
  | .realloc addr newsize grants =>
    addr ∈ world.pool.liveBlocks.map Prod.fst ∧
      ∀ block ∈ world.pool.liveBlocks, block.1 = addr →
        (getNeedSize (newsize + 8) ≤ block.2 → Rounds newsize) ∧
          (block.2 < getNeedSize (newsize + 8) →
            world.Refuses newsize ∨
              (world.Admits newsize grants ∧
                -- the copy stays within the new block
                (directAllocSize < block.2 →
                  directAllocSize < newsize.toNat + allocNodeSize) ∧
                world.NoBorrow block.2 (givenSize newsize)))
  | .reset => True

instance (size : UInt64) : Decidable (Rounds size) :=
  inferInstanceAs (Decidable (_ < _))

instance (size : UInt64) (grants : List Bool) :
    Decidable (world.Admits size grants) :=
  inferInstanceAs (Decidable (_ ∧ _ ∧ _ ∧ (_ → _)))

instance (size : UInt64) : Decidable (world.Refuses size) :=
  inferInstanceAs (Decidable (_ ∨ _))

instance (len given : Nat) : Decidable (world.NoBorrow len given) :=
  inferInstanceAs (Decidable (_ → _))

instance : ∀ op : PoolOp, Decidable (world.Counts op)
  | .alloc _ _ => inferInstanceAs (Decidable (_ ∨ _))
  | .free _ => inferInstanceAs (Decidable (_ ∧ _))
  | .realloc _ _ _ => inferInstanceAs (Decidable (_ ∧ _))
  | .reset => .isTrue trivial

end PoolWorld

variable {grants : List Bool}

namespace MmPool

/-- What the test of the capacity depends on is the same. -/
structure SameCount (before after : MmPool) : Prop where
  capacity : after.capacity = before.capacity
  size : after.size = before.size
  allocatedSize : after.allocatedSize = before.allocatedSize
  pageList : after.pageList = before.pageList

namespace SameCount

variable {before middle after : MmPool}

theorem refl (pool : MmPool) : SameCount pool pool := ⟨rfl, rfl, rfl, rfl⟩

theorem trans (first : SameCount before middle)
    (later : SameCount middle after) : SameCount before after where
  capacity := later.capacity.trans first.capacity
  size := later.size.trans first.size
  allocatedSize := later.allocatedSize.trans first.allocatedSize
  pageList := later.pageList.trans first.pageList

theorem allocIn (pool : MmPool) (page : Nat) (size : UInt64) :
    SameCount pool (pool.allocIn page size).2 := by
  unfold MmPool.allocIn
  split
  · exact refl pool
  · split
    · exact refl pool
    · exact ⟨rfl, rfl, rfl, rfl⟩

theorem allocSubAllocator {world next : PoolWorld} {size : UInt64} {page : Nat}
    (done : world.allocSubAllocator size grants = some (page, next)) :
    SameCount world.pool next.pool := by
  unfold PoolWorld.allocSubAllocator at done
  dsimp only at done
  split at done
  · split at done
    · cases done
    · cases done
      exact ⟨rfl, rfl, rfl, rfl⟩
  · cases done
    exact ⟨rfl, rfl, rfl, rfl⟩

theorem allocInSub (world : PoolWorld) (size : UInt64) (grants : List Bool) :
    SameCount world.pool (world.allocInSub size grants).2.pool := by
  have tried := allocIn world.pool world.pool.curAllocator size
  unfold PoolWorld.allocInSub
  cases got : world.pool.allocIn world.pool.curAllocator size with
  | mk addr pool =>
    rw [got] at tried
    cases addr with
    | some addr => exact tried.trans ⟨rfl, rfl, rfl, rfl⟩
    | none =>
      dsimp only
      split
      · exact tried.trans ⟨rfl, rfl, rfl, rfl⟩
      · rename_i page next opened
        have fresh := (tried.trans (allocSubAllocator opened)).trans
          (allocIn next.pool page size)
        split
        · exact fresh.trans ⟨rfl, rfl, rfl, rfl⟩
        · exact fresh.trans ⟨rfl, rfl, rfl, rfl⟩

theorem freeSubAllocator (world : PoolWorld) (sub : PoolSub) :
    SameCount world.pool (world.freeSubAllocator sub).pool := by
  unfold PoolWorld.freeSubAllocator
  dsimp only
  split <;> exact ⟨rfl, rfl, rfl, rfl⟩

theorem freeInSub (world : PoolWorld) (sub : PoolSub) (offset : Nat) :
    SameCount world.pool (world.freeInSub sub offset).pool := by
  unfold PoolWorld.freeInSub
  split
  · exact refl _
  rename_i result arena freed
  have kept : SameCount world.pool (world.pool.setArena sub.page arena) :=
    ⟨rfl, rfl, rfl, rfl⟩
  dsimp only
  split_ifs
  · exact kept.trans (freeSubAllocator
      { world with pool := world.pool.setArena sub.page arena } _)
  · exact kept
  · exact kept.trans ⟨rfl, rfl, rfl, rfl⟩
  · exact kept

end SameCount

/-- The counter is the size of the pool's own page and of the blocks with pages
of their own. -/
def Counted (pool : MmPool) : Prop :=
  pool.allocatedSize.toNat = pool.size + (pool.pageList.map BigChunk.size).sum

theorem Counted.congr {before after : MmPool} (counted : before.Counted)
    (same : SameCount before after) : after.Counted := by
  unfold Counted
  rw [same.allocatedSize, same.size, same.pageList]
  exact counted

def SameLimits (before after : MmPool) : Prop :=
  after.capacity = before.capacity ∧ after.size = before.size

theorem counted_dropChunk {pool : MmPool} {allocated : UInt64}
    {chunks : List BigChunk}
    (sum : allocated.toNat = pool.size + (chunks.map BigChunk.size).sum) :
    Counted { pool with allocatedSize := allocated, pageList := chunks } ∧
      pool.SameLimits
        { pool with allocatedSize := allocated, pageList := chunks } :=
  ⟨sum, rfl, rfl⟩

end MmPool

theorem toNat_subLow {value : UInt64} {size : Nat}
    (fits : size ≤ value.toNat % 4294967296) :
    (PoolWorld.subLow value size).toNat = value.toNat - size := by
  have bound := value.toNat_lt
  unfold PoolWorld.subLow
  rw [UInt64.toNat_ofNat']
  omega

variable {size : UInt64}

namespace PoolWorld

variable {world : PoolWorld}

theorem Rounds.added (rounds : Rounds size) :
    (size + 8).toNat = size.toNat + allocNodeSize ∧
      size.toNat + allocNodeSize < 18446744073709551616 := by
  unfold Rounds bigChunkListSize sysPageSize at rounds
  unfold allocNodeSize
  change (size.toNat + 8) % 18446744073709551616 = _ ∧ _
  omega

theorem Rounds.le_givenSize (rounds : Rounds size) :
    size.toNat + allocNodeSize ≤ givenSize size := by
  rw [givenSize_eq rounds.added.2]
  unfold Rounds bigChunkListSize sysPageSize at rounds
  unfold directAllocSize minPageSize sysPageSize allocNodeSize
  split_ifs <;> omega

theorem poolAlloc_refused (refuses : world.Refuses size)
    (grants : List Bool) : world.poolAlloc size grants = (none, world) := by
  unfold poolAlloc
  rcases refuses with zero | full
  · rw [if_pos zero]
  · rw [if_pos full, ite_self]

theorem counted_allocDirect (counted : world.pool.Counted)
    (large : directAllocSize < (size + 8).toNat)
    (sums : world.pool.allocatedSize.toNat + givenSize size <
      18446744073709551616) :
    (world.allocDirect size grants).2.pool.Counted ∧
      world.pool.SameLimits (world.allocDirect size grants).2.pool := by
  unfold allocDirect
  split
  · refine ⟨?_, rfl, rfl⟩
    have given : givenSize size = pageAline (size + 32).toNat -
        bigChunkListSize + allocNodeSize := if_pos large
    unfold MmPool.Counted at counted ⊢
    rw [UInt64.toNat_add, UInt64.toNat_ofNat', map_cons, sum_cons]
    dsimp only
    omega
  · exact ⟨counted, rfl, rfl⟩

theorem counted_poolAlloc (counted : world.pool.Counted)
    (fits : world.Refuses size ∨ world.Admits size grants) :
    (world.poolAlloc size grants).2.pool.Counted ∧
      world.pool.SameLimits (world.poolAlloc size grants).2.pool := by
  rcases fits with refuses | ⟨rounds, _, _, sums⟩
  · rw [poolAlloc_refused refuses]
    exact ⟨counted, rfl, rfl⟩
  rw [← rounds.added.1] at sums
  unfold poolAlloc
  split_ifs with zero full direct
  · exact ⟨counted, rfl, rfl⟩
  · exact ⟨counted, rfl, rfl⟩
  · exact counted_allocDirect counted direct (sums direct)
  · have same := MmPool.SameCount.allocInSub world size grants
    exact ⟨counted.congr same, same.capacity, same.size⟩

end PoolWorld

theorem perm_filter_of_nodup {α β : Type} [DecidableEq β] {key : α → β}
    {elements : List α} {element : α} (distinct : (elements.map key).Nodup)
    (member : element ∈ elements) :
    elements.Perm
      (element :: elements.filter fun other => key other ≠ key element) := by
  obtain ⟨before, after, rfl⟩ := append_of_mem member
  have moved := @perm_middle _ element before after
  obtain ⟨absent, _⟩ :=
    nodup_cons.mp ((moved.map key).nodup_iff.mp distinct)
  have kept : ((before ++ after).filter fun other =>
      key other ≠ key element) = before ++ after := by
    refine filter_eq_self.mpr ?_
    intro other there
    refine decide_eq_true ?_
    intro same
    refine absent ?_
    rw [← same]
    exact mem_map_of_mem there
  have filtered := moved.filter fun other => key other ≠ key element
  rw [filter_cons, if_neg (by simp), kept] at filtered
  exact moved.trans (filtered.symm.cons _)

variable {addr : PoolAddr} {len : Nat} {next : PoolWorld}

namespace PoolWorld

variable {least : Nat} {world : PoolWorld}

theorem Sound.counted_freeDirect (sound : world.Sound least) {chunk : BigChunk}
    (member : chunk ∈ world.pool.pageList)
    (borrows : world.NoBorrow (chunk.size / 4 * 4) 0)
    (counted : world.pool.Counted) :
    (world.freeDirect chunk).pool.Counted ∧
      world.pool.SameLimits (world.freeDirect chunk).pool := by
  obtain ⟨pages, size, least, most⟩ := sound.chunks chunk member
  have whole : chunk.size / 4 * 4 = chunk.size := by omega
  have large : directAllocSize < chunk.size / 4 * 4 := by
    unfold directAllocSize minPageSize sysPageSize
    omega
  have fits := borrows large
  have rest := ((perm_filter_of_nodup sound.chunkPages member).map
    BigChunk.size).sum_eq
  rw [map_cons, sum_cons] at rest
  refine MmPool.counted_dropChunk ?_
  rw [toNat_subLow fits, whole, counted, rest]
  omega

theorem Sound.counted_poolFree (sound : world.Sound least)
    (live : (addr, len) ∈ world.pool.liveBlocks)
    (borrows : world.NoBorrow len 0) (counted : world.pool.Counted) :
    (world.poolFree addr).pool.Counted ∧
      world.pool.SameLimits (world.poolFree addr).pool := by
  unfold PoolWorld.poolFree
  rcases mem_liveBlocks.mp live with
    ⟨chunk, member, rfl, rfl⟩ | ⟨sub, member, block, here, rfl, rfl⟩
  · rw [sound.find_chunk member]
    exact sound.counted_freeDirect member borrows counted
  · obtain ⟨none, found⟩ := sound.find_sub member
    rw [none, found]
    have same := MmPool.SameCount.freeInSub world sub
      (block.addr + allocNodeSize)
    exact ⟨counted.congr same, same.capacity, same.size⟩

theorem poolAlloc_counter (large : directAllocSize < (size + 8).toNat)
    (sums : world.pool.allocatedSize.toNat + givenSize size <
      18446744073709551616)
    (done : world.poolAlloc size grants = (some addr, next)) :
    next.pool.allocatedSize.toNat =
      world.pool.allocatedSize.toNat + givenSize size := by
  have given : givenSize size = pageAline (size + 32).toNat -
      bigChunkListSize + allocNodeSize := if_pos large
  unfold poolAlloc at done
  split_ifs at done with zero full
  · cases done
  · cases done
  · unfold allocDirect at done
    split at done
    · cases done
      dsimp only
      rw [UInt64.toNat_add, UInt64.toNat_ofNat']
      omega
    · cases done

theorem total_blocks_le (pool : MmPool) (sub : PoolSub) {base length : Nat}
    (sound : pool.SubSound least sub base length) :
    total sub.blocks ≤ pool.extent sub := by
  have same : total sub.blocks = (sub.arena.live.map LiveBlock.size).sum := by
    unfold total PoolSub.blocks
    rw [map_map]
    rfl
  have least := sound.tiled.sum_le
  have most := sound.extent
  omega

theorem total_chunks_le (chunks : List BigChunk) :
    total (chunks.map BigChunk.block) ≤ (chunks.map BigChunk.size).sum := by
  induction chunks with
  | nil => exact Nat.le_refl _
  | cons chunk chunks induction =>
    rw [map_cons, map_cons, Budget.total_cons, sum_cons]
    have rounded : chunk.block.2 ≤ chunk.size :=
      Nat.div_mul_le_self _ _
    omega

theorem total_subs_le {pool : MmPool} {subs : List PoolSub}
    (sound : ∀ sub ∈ subs, sub.page ≠ pool.page ∧
      ∃ base length, pool.SubSound least sub base length) :
    total (subs.flatMap PoolSub.blocks) ≤ (subs.map PoolSub.size).sum := by
  induction subs with
  | nil => exact Nat.le_refl _
  | cons sub subs induction =>
    obtain ⟨⟨foreign, base, length, first⟩, later⟩ :=
      forall_mem_cons.mp sound
    have most := total_blocks_le pool sub first
    unfold MmPool.extent at most
    rw [if_neg foreign] at most
    have rest := induction later
    rw [flatMap_cons, Budget.total_append, map_cons, sum_cons]
    omega

theorem Sound.total_le (sound : world.Sound least)
    (counted : world.pool.Counted) :
    total world.pool.liveBlocks ≤
      world.pool.allocatedSize.toNat + world.pool.uncounted := by
  obtain ⟨own, member, page⟩ := mem_map.mp sound.accounts.own
  obtain ⟨before, after, split⟩ := append_of_mem member
  have filtered := MmPool.filter_split split sound.pages
  rw [page] at filtered
  have others : ∀ sub ∈ before ++ after, sub.page ≠ world.pool.page ∧
      ∃ base length, world.pool.SubSound least sub base length := by
    intro sub there
    rw [← filtered] at there
    obtain ⟨listed, foreign⟩ := mem_filter.mp there
    exact ⟨of_decide_eq_true foreign, sound.subs sub listed⟩
  obtain ⟨base, length, first⟩ := sound.subs own member
  have ownBlocks := total_blocks_le world.pool own first
  unfold MmPool.extent at ownBlocks
  rw [if_pos page] at ownBlocks
  have chunks := total_chunks_le world.pool.pageList
  have subs := total_subs_le others
  rw [Budget.total_perm (MmPool.liveBlocks_split split), Budget.total_append,
    Budget.total_append]
  unfold MmPool.Counted at counted
  unfold MmPool.uncounted
  rw [filtered]
  omega

theorem Sound.addrs_nodup (sound : world.Sound least) :
    (world.pool.liveBlocks.map Prod.fst).Nodup := by
  refine pairwise_map.mpr (sound.apart.imp_of_mem ?_)
  intro first second here there apart same
  have shape := sound.len_shape here
  have shape' := sound.len_shape there
  unfold LenShape at shape shape'
  rcases apart with page | before | behind
  · exact page (congrArg PoolAddr.page same)
  · rw [same] at before
    omega
  · rw [same] at behind
    omega

theorem Sound.within_poolAlloc (sound : world.Sound least)
    (counted : world.pool.Counted) {size : UInt64}
    (admits : world.Admits size grants)
    (found : next.pool.liveBlocks.Perm
      ((addr, givenSize size) :: world.pool.liveBlocks)) :
    Within world.pool.capacity.toNat next.pool.liveBlocks := by
  have most := sound.total_le counted
  exact (Budget.within_cons (most.trans admits.2.2.1) _).perm found

end PoolWorld

variable {maxsize : UInt64} {header firstPage : Nat}

namespace PoolBook

variable {start : PoolWorld} {book : PoolBook}

/-- What holds between two calls on a pool whose counter stands for its
pages. -/
structure Kept (start : PoolWorld) (book : PoolBook) : Prop where
  sound : book.world.Sound subAllocatorSize
  counted : book.world.pool.Counted
  limits : start.pool.SameLimits book.world.pool
  matched : Matched book.requests book.world.pool.liveBlocks
  within : Within start.pool.capacity.toNat book.world.pool.liveBlocks

variable {newsize : UInt64}

section

variable (kept : Kept start book)
include kept

theorem Kept.unserved (sound : next.Sound subAllocatorSize)
    (counted : next.pool.Counted)
    (limits : book.world.pool.SameLimits next.pool)
    (same : next.pool.liveBlocks.Perm book.world.pool.liveBlocks) :
    Kept start { book with world := next } where
  sound := sound
  counted := counted
  limits := ⟨limits.1.trans kept.limits.1, limits.2.trans kept.limits.2⟩
  matched := kept.matched.perm same
  within := kept.within.perm same

theorem Kept.served {size : UInt64} (admits : book.world.Admits size grants)
    (sound : next.Sound subAllocatorSize) (counted : next.pool.Counted)
    (limits : book.world.pool.SameLimits next.pool)
    (found : next.pool.liveBlocks.Perm
      ((addr, givenSize size) :: book.world.pool.liveBlocks)) :
    Kept start
      { world := next, requests := (addr, size.toNat) :: book.requests } where
  sound := sound
  counted := counted
  limits := ⟨limits.1.trans kept.limits.1, limits.2.trans kept.limits.2⟩
  matched := by
    have fresh : addr ∉ book.world.pool.liveBlocks.map Prod.fst :=
      (nodup_cons.mp
        ((found.map Prod.fst).nodup_iff.mp sound.addrs_nodup)).1
    have enough : size.toNat ≤ givenSize size :=
      (Nat.le_add_right _ _).trans admits.1.le_givenSize
    have later : Matched ((addr, size.toNat) :: book.requests)
        ((addr, givenSize size) :: book.world.pool.liveBlocks) :=
      kept.matched.cons fresh rfl enough
    exact later.perm found
  within := by
    rw [← kept.limits.1]
    exact kept.sound.within_poolAlloc kept.counted admits found

theorem Kept.alloc
    (fits : book.world.Refuses size ∨ book.world.Admits size grants) :
    Kept start (book.step (.alloc size grants)) := by
  obtain ⟨counted, limits⟩ := PoolWorld.counted_poolAlloc kept.counted fits
  unfold step
  dsimp only
  rcases fits with refuses | admits
  · rw [PoolWorld.poolAlloc_refused refuses]
    exact kept
  obtain ⟨sound, served⟩ :=
    kept.sound.poolAlloc admits.1.added.2 admits.2.1
  cases answer : book.world.poolAlloc size grants with
  | mk addr next =>
    rw [answer] at counted limits sound served
    cases addr with
    | none => exact kept.unserved sound counted limits served
    | some addr => exact kept.served admits sound counted limits served

theorem Kept.free (live : (addr, len) ∈ book.world.pool.liveBlocks)
    (borrows : book.world.NoBorrow len 0) :
    Kept start (book.step (.free addr)) := by
  obtain ⟨sound, rest⟩ := kept.sound.poolFree live
  obtain ⟨counted, limits⟩ :=
    kept.sound.counted_poolFree live borrows kept.counted
  exact
    { sound := sound
      counted := counted
      limits := ⟨limits.1.trans kept.limits.1, limits.2.trans kept.limits.2⟩
      matched := (kept.matched.perm rest.symm).remove
      within := (kept.within.perm rest.symm).tail }

theorem Kept.stays (live : (addr, len) ∈ book.world.pool.liveBlocks)
    (stays : PoolWorld.getNeedSize (newsize + 8) ≤ len)
    (rounds : PoolWorld.Rounds newsize) :
    Kept start
      { book with requests := (addr, newsize.toNat) :: book.without addr } where
  sound := kept.sound
  counted := kept.counted
  limits := kept.limits
  matched := by
    have enough : newsize.toNat ≤ len :=
      ((PoolWorld.stays_iff (kept.sound.len_shape live) stays).mpr
        rounds).trans (Nat.sub_le _ _)
    have moved := perm_cons_erase live
    have first := kept.matched.perm moved.symm
    have fresh := (nodup_cons.mp first.distinct).1
    have later : Matched ((addr, newsize.toNat) :: book.without addr)
        ((addr, len) :: book.world.pool.liveBlocks.erase (addr, len)) :=
      first.remove.cons fresh rfl enough
    exact later.perm moved
  within := kept.within

theorem Kept.moves {addr newaddr : PoolAddr}
    (live : (addr, len) ∈ book.world.pool.liveBlocks)
    (admits : book.world.Admits newsize grants)
    (copies : directAllocSize < len →
      directAllocSize < newsize.toNat + allocNodeSize)
    (borrows : book.world.NoBorrow len (givenSize newsize))
    (answer : book.world.poolAlloc newsize grants = (some newaddr, next)) :
    Kept start
      { world := next.poolFree addr
        requests := (newaddr, newsize.toNat) :: book.without addr } := by
  obtain ⟨counted, limits⟩ :=
    PoolWorld.counted_poolAlloc kept.counted (.inr admits)
  obtain ⟨sound, served⟩ := kept.sound.poolAlloc admits.1.added.2 admits.2.1
  rw [answer] at counted limits sound served
  have found : next.pool.liveBlocks.Perm
      ((newaddr, givenSize newsize) :: book.world.pool.liveBlocks) := served
  have first := kept.served admits sound counted limits found
  have known : (addr, len) ∈ next.pool.liveBlocks :=
    found.mem_iff.mpr (mem_cons_of_mem _ live)
  have lower : next.NoBorrow len 0 := by
    intro large
    have direct : directAllocSize < (newsize + 8).toNat := by
      rw [admits.1.added.1]
      exact copies large
    have counter := PoolWorld.poolAlloc_counter direct
      (admits.2.2.2 (copies large)) answer
    rw [Nat.add_zero, counter]
    exact borrows large
  have freed : Kept start
      { world := next.poolFree addr
        requests := without
          ⟨next, (newaddr, newsize.toNat) :: book.requests⟩ addr } :=
    first.free known lower
  have different : newaddr ≠ addr := by
    rintro rfl
    have distinct := (found.map Prod.fst).nodup_iff.mp sound.addrs_nodup
    exact (nodup_cons.mp distinct).1
      (mem_map.mpr ⟨(newaddr, len), live, rfl⟩)
  have rest : without
      ⟨next, (newaddr, newsize.toNat) :: book.requests⟩ addr =
        (newaddr, newsize.toNat) :: book.without addr := by
    exact filter_cons_of_pos (decide_eq_true different)
  rw [rest] at freed
  exact freed

theorem Kept.realloc (counts : book.world.Counts (.realloc addr newsize grants))
    :
    Kept start (book.step (.realloc addr newsize grants)) := by
  obtain ⟨member, each⟩ := counts
  obtain ⟨⟨_, len⟩, live, rfl⟩ := mem_map.mp member
  obtain ⟨rounds, moving⟩ := each _ live rfl
  have found := kept.sound.allocLen live
  unfold step PoolWorld.poolRealloc
  dsimp only at found ⊢
  rw [found]
  dsimp only at rounds moving ⊢
  by_cases stays : PoolWorld.getNeedSize (newsize + 8) ≤ len
  · rw [if_pos stays]
    exact kept.stays live stays (rounds stays)
  rw [if_neg stays]
  rcases moving (Nat.lt_of_not_le stays) with
    refuses | ⟨admits, copies, borrows⟩
  · rw [PoolWorld.poolAlloc_refused refuses]
    exact kept
  cases answer : book.world.poolAlloc newsize grants with
  | mk result next =>
    cases result with
    | none =>
      obtain ⟨counted, limits⟩ :=
        PoolWorld.counted_poolAlloc kept.counted (.inr admits)
      obtain ⟨sound, served⟩ :=
        kept.sound.poolAlloc admits.1.added.2 admits.2.1
      rw [answer] at counted limits sound served
      exact kept.unserved sound counted limits served
    | some newaddr =>
      exact kept.moves live admits copies borrows answer

theorem Kept.reset :
    Kept start (book.step .reset) := by
  have short : book.world.pool.size < 18446744073709551616 := by
    have bound := book.world.pool.allocatedSize.toNat_lt
    have counted := kept.counted
    unfold MmPool.Counted at counted
    omega
  have none : book.world.poolReset.pool.liveBlocks = [] := rfl
  exact
    { sound := kept.sound.poolReset
      counted := by
        unfold MmPool.Counted
        exact (UInt64.toNat_ofNat_of_lt' short)
      limits := kept.limits
      matched := by
        unfold step
        rw [none]
        exact Matched.nil
      within := .inl (Nat.zero_le _) }

theorem Kept.step {op : PoolOp}
    (counts : book.world.Counts op) : Kept start (book.step op) := by
  cases op with
  | alloc size grants => exact kept.alloc counts
  | free addr =>
    obtain ⟨member, each⟩ := counts
    obtain ⟨⟨_, len⟩, live, rfl⟩ := mem_map.mp member
    exact kept.free live (each _ live rfl)
  | realloc addr newsize grants => exact kept.realloc counts
  | reset => exact kept.reset

end

theorem create_counted
    (created : poolCreate maxsize header firstPage = some start) :
    start.pool.Counted ∧ start.pool.liveBlocks = [] := by
  unfold poolCreate at created
  split at created
  · cases created
  generalize picked : (if maxsize = 18446744073709551615 then
    (minPageSize * 64, maxsize, 64)
    else if maxsize ≤ 65536 then (minPageSize, 65536, 1)
    else if maxsize ≤ 262144 then (minPageSize, 65536, 1)
    else (1048576, UInt64.ofNat (ndAline maxsize.toNat minPageSize), 1) :
      Nat × UInt64 × Nat) = triple at created
  have short : triple.1 < 18446744073709551616 := by
    rw [← picked]
    unfold minPageSize
    split_ifs <;> simp
  cases created
  refine ⟨?_, rfl⟩
  unfold MmPool.Counted
  exact UInt64.toNat_ofNat_of_lt' short

theorem kept_create (room : header + subAllocatorSize ≤ minPageSize)
    (created : poolCreate maxsize header firstPage = some start) :
    Kept start ⟨start, []⟩ := by
  obtain ⟨counted, none⟩ := create_counted created
  exact
    { sound := PoolWorld.sound_create (Nat.le_refl _) room created
      counted := counted
      limits := ⟨rfl, rfl⟩
      matched := by
        rw [none]
        exact Matched.nil
      within := by
        rw [none]
        exact .inl (Nat.zero_le _) }

theorem Kept.recovered (kept : Kept start book) (counted : start.pool.Counted)
    (unused : start.pool.liveBlocks = []) (none : book.requests = []) :
    book.world.pool.allocatedSize = start.pool.allocatedSize := by
  have chunks : ∀ pool : MmPool, pool.liveBlocks = [] → pool.pageList = [] := by
    intro pool empty
    exact map_eq_nil_iff.mp (append_eq_nil_iff.mp empty).1
  have free : book.world.pool.liveBlocks = [] := by
    have keys := kept.matched.keys
    rw [none] at keys
    exact map_eq_nil_iff.mp keys.symm.eq_nil
  have now := kept.counted
  unfold MmPool.Counted at now counted
  rw [chunks _ free, kept.limits.2] at now
  rw [chunks _ unused] at counted
  exact UInt64.toNat_inj.mp (now.trans counted.symm)

end PoolBook

/-- The capacity that a maximum size is rounded to is not below the size of the
pool's own page. -/
def Roomy (maxsize : UInt64) : Prop :=
  maxsize.toNat ≤ 262144 ∨
    (983040 < maxsize.toNat ∧ maxsize.toNat ≤ 18446744073709486080)

instance (maxsize : UInt64) : Decidable (Roomy maxsize) :=
  inferInstanceAs (Decidable (_ ∨ _))

/-- Only with such a size does a pool accept requests after its creation. -/
theorem create_accepts_iff {start : PoolWorld}
    (finite : maxsize ≠ 18446744073709551615)
    (created : poolCreate maxsize header firstPage = some start) :
    ¬ start.pool.capacity < start.pool.allocatedSize ↔ Roomy maxsize := by
  have bound := maxsize.toNat_lt
  unfold poolCreate at created
  split at created
  · cases created
  have same : ¬ (65536 : UInt64) < UInt64.ofNat minPageSize := by decide
  unfold Roomy
  split_ifs at created with small normal
  · cases created
    have least : maxsize.toNat ≤ 65536 := UInt64.le_iff_toNat_le.mp small
    exact iff_of_true same (.inl (by omega))
  · cases created
    have least : maxsize.toNat ≤ 262144 := UInt64.le_iff_toNat_le.mp normal
    exact iff_of_true same (.inl least)
  · cases created
    have large : ¬ maxsize.toNat ≤ 262144 := fun least =>
      normal (UInt64.le_iff_toNat_le.mpr least)
    dsimp only
    rw [UInt64.lt_iff_toNat_lt, UInt64.toNat_ofNat', UInt64.toNat_ofNat']
    unfold ndAline minPageSize
    omega

/-- For every pool with a finite maximum size and every run in which the counter
stands for the pages of the pool, the requests stay within the capacity and the
pool recovers if the capacity is not below the pool's own page, and only
then. -/
theorem poolRun_bounded_iff {maxsize : UInt64} {header firstPage : Nat}
    {start : PoolWorld} (room : header + subAllocatorSize ≤ minPageSize)
    (finite : maxsize ≠ 18446744073709551615)
    (created : poolCreate maxsize header firstPage = some start)
    (ops : List PoolOp)
    (counts : Runs.Meets PoolBook.step
      (fun book op => book.world.Counts op) ⟨start, []⟩ ops) :
    (∀ book ∈ Runs.states PoolBook.step ⟨start, []⟩ ops, book.Bounded start) ↔
      Roomy maxsize := by
  rw [← create_accepts_iff finite created]
  constructor
  · intro bounded
    have first := bounded _ (Runs.mem_states_self PoolBook.step _ ops)
    exact (first.recovered rfl).2
  · intro accepts
    have kept := Runs.invariant_of_meets
      (fun (book : PoolBook) (op : PoolOp) (kept : PoolBook.Kept start book)
        (counts : book.world.Counts op) => kept.step counts)
      (PoolBook.kept_create room created) counts
    obtain ⟨counted, unused⟩ := PoolBook.create_counted created
    intro book visited
    have now := kept book visited
    refine ⟨now.matched.within now.within, ?_⟩
    intro none
    have same := now.recovered counted unused none
    refine ⟨same, ?_⟩
    rw [same, now.limits.1]
    exact accepts

/-- The pool with a maximum of two million bytes, as it is created. -/
def hugePool : PoolWorld where
  pool :=
    { page := 0, size := 1048576, header := 224, capacity := 2031616,
      allocatedSize := 1048576, allocGranularity := 1, freeAllocatorNum := 0,
      inUsed := false, allocatorList := [subInit 0 224 1048352],
      freeAllocator := [], pageList := [], curAllocator := 0 }
  system := { next := 1, held := [0], returned := [] }

/-- Blocks on the pool's own page and with pages of their own, the last of them
beyond the capacity, a request that is refused, and all blocks freed. -/
def exhaustingOps : List PoolOp :=
  [.alloc 100 [], .alloc 700000 [true], .realloc ⟨0, 1320⟩ 3000 [],
    .alloc 600000 [true], .alloc 40 [], .free ⟨1, 32⟩, .free ⟨2, 32⟩,
    .free ⟨0, 1432⟩]

theorem poolRun_bounded_exhausting :
    PoolBook.Bounded hugePool
      (exhaustingOps.foldl PoolBook.step ⟨hugePool, []⟩) :=
  (poolRun_bounded_iff (by decide : 224 + subAllocatorSize ≤ minPageSize)
    (by decide : (2000000 : UInt64) ≠ 18446744073709551615)
    (by decide +kernel : poolCreate 2000000 224 0 = some hugePool)
    exhaustingOps (by decide +kernel)).mpr (by decide) _
      (Runs.foldl_mem_states _ _ _)

def uncountedOps : List PoolOp :=
  [.alloc 60000 [], .alloc 60000 [true], .alloc 60000 [true]]

/-- The pages of the second and the third sub-allocator are not counted. -/
theorem uncounted_not_bounded :
    poolCreate 65536 200 0 = some samplePool ∧
      ¬ PoolBook.Bounded samplePool
        (uncountedOps.foldl PoolBook.step ⟨samplePool, []⟩) := by
  refine ⟨samplePool_created, ?_⟩
  intro bounded
  have sum : total
      (uncountedOps.foldl PoolBook.step ⟨samplePool, []⟩).requests = 180000 := by
    decide +kernel
  have each : ∀ request ∈
      (uncountedOps.foldl PoolBook.step ⟨samplePool, []⟩).requests,
        request.2 = 60000 := by
    decide +kernel
  have capacity : samplePool.pool.capacity.toNat = 65536 := by decide
  rcases bounded.within with fits | ⟨request, member, fits⟩
  · omega
  · have one := each request member
    omega

end NdNet
