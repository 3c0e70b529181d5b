import NdNet.Common.SubAllocator
import Mathlib.Data.List.Perm.Subperm

/-!
# The memory pools of `nd_mempool.c`

A pool gets pages from the system: its own page, on which its first
sub-allocator lies, a page for every further sub-allocator, and one for every
request that is too large for these.  A sub-allocator that has become empty is
put by, up to two of them, and used again when the pool needs another one.

`nd_pool_destroy` is a `nd_pool_reset` and the return of the pool's own page,
and `nd_pool_reset` returns the pages of the sub-allocators in use and of the
large blocks.  Neither looks at the sub-allocators that were put by.
-/

namespace NdNet

open List

/-- The pages the system has given: which are out and which have come back.
Every page gets a new number. -/
structure PageSystem where
  next : Nat
  held : List Nat
  returned : List Nat
  deriving DecidableEq, Repr

namespace PageSystem

/-- `__sys_page_alloc`, when the system grants it -/
def pageAlloc (system : PageSystem) : Nat × PageSystem :=
  (system.next,
    { system with
      next := system.next + 1
      held := system.next :: system.held })

def pageFree (system : PageSystem) (page : Nat) : PageSystem :=
  { system with
    held := system.held.erase page
    returned := page :: system.returned }

end PageSystem

/-- A sub-allocator on its page; `size` is its `size` field. -/
structure PoolSub where
  page : Nat
  size : Nat
  arena : SubAllocator
  deriving DecidableEq, Repr

/-- `struct big_chunk_list` -/
structure BigChunk where
  page : Nat
  size : Nat
  deriving DecidableEq, Repr

/-- `sizeof(nd_sub_allocator)` -/
def subAllocatorSize : Nat := 1088

/-- `sizeof(struct big_chunk_list)` -/
def bigChunkListSize : Nat := 32

/-- `MIN_PAGE_SIZE` and `DEFAULT_PAGE_SIZE` -/
def minPageSize : Nat := 65536

def sysPageSize : Nat := 4096

def directAllocSize : Nat := minPageSize - sysPageSize

def pageAline (size : Nat) : Nat :=
  max (ndAline size sysPageSize) minPageSize

/-- `nd_mmpool_t`; `header` is its own size, and `cur_allocator`, which is never
null, is given by its page. -/
structure MmPool where
  page : Nat
  size : Nat
  header : Nat
  capacity : UInt64
  allocatedSize : UInt64
  allocGranularity : Nat
  freeAllocatorNum : Nat
  inUsed : Bool
  allocatorList : List PoolSub
  freeAllocator : List PoolSub
  pageList : List BigChunk
  curAllocator : Nat
  deriving DecidableEq, Repr

/-- A pool and the system it gets its pages from. -/
structure PoolWorld where
  pool : MmPool
  system : PageSystem
  deriving DecidableEq, Repr

/-- An address a user gets: a page and an offset on it. -/
structure PoolAddr where
  page : Nat
  offset : Nat
  deriving DecidableEq, Repr

/-- `__sub_allocator_init` of a sub-allocator that starts at `offset`. -/
def subInit (page offset size : Nat) : PoolSub where
  page := page
  size := size % 4294967296
  arena := SubAllocator.init (offset + subAllocatorSize)
    (size - subAllocatorSize)

namespace MmPool

variable (pool : MmPool)

/-- `pool->_allocator` as it is set up. -/
def ownSub : PoolSub :=
  subInit pool.page pool.header (pool.size - pool.header)

def findSub (page : Nat) : Option PoolSub :=
  pool.allocatorList.find? fun sub => sub.page = page

def setArena (page : Nat) (arena : SubAllocator) : MmPool :=
  { pool with
    allocatorList := pool.allocatorList.map fun sub =>
      if sub.page = page then { sub with arena := arena } else sub }

def maxFreeChunk (page : Nat) : Nat :=
  match pool.findSub page with
  | none => 0
  | some sub => sub.arena.stop - sub.arena.start

/-- `nd_allocator_alloc` in a sub-allocator in use. -/
def allocIn (page : Nat) (size : UInt64) : Option PoolAddr × MmPool :=
  match pool.findSub page with
  | none => (none, pool)
  | some sub =>
    match sub.arena.ndAllocatorAlloc size with
    | none => (none, pool)
    | some (offset, arena) =>
      (offset.map fun offset => ⟨page, offset⟩, pool.setArena page arena)

end MmPool

/-- The tries of `__alloc_sub_allocator`, each with half the size of the one
before; `grants` says which of them the system grants.  A refusal is taken for
a null pointer, as `VirtualAlloc` gives it. -/
def pageTries (size : Nat) : Nat → List Bool → Option Nat
  | _, [] => none
  | allocSize, true :: _ => some allocSize
  | allocSize, false :: grants =>
    if size < allocSize / 2 then pageTries size (allocSize / 2) grants
    else none

namespace PoolWorld

variable (world : PoolWorld)

/-- `__alloc_sub_allocator`: the page of the new sub-allocator. -/
def allocSubAllocator (size : UInt64) (grants : List Bool) :
    Option (Nat × PoolWorld) :=
  let pool := world.pool
  match pool.freeAllocator with
  | [] =>
    let allocSize := max (pool.allocGranularity * minPageSize) size.toNat
    match pageTries size.toNat allocSize grants with
    | none => none
    | some allocSize =>
      let (page, system) := world.system.pageAlloc
      some (page,
        { pool := { pool with
            allocatorList := subInit page 0 allocSize :: pool.allocatorList }
          system := system })
  | sub :: subs =>
    some (sub.page,
      { world with pool := { pool with
          freeAllocator := subs
          freeAllocatorNum := pool.freeAllocatorNum - 1
          allocatorList := subInit sub.page 0 sub.size ::
            pool.allocatorList } })

/-- The part of `_pool_alloc_real` that asks the system; a refusal is null. -/
def allocDirect (size : UInt64) (grants : List Bool) :
    Option PoolAddr × PoolWorld :=
  match grants with
  | true :: _ =>
    let allocSize := pageAline (size + 32).toNat
    let (page, system) := world.system.pageAlloc
    let chunk : BigChunk :=
      ⟨page, allocSize - bigChunkListSize + allocNodeSize⟩
    (some ⟨page, bigChunkListSize⟩,
      { pool := { world.pool with
          allocatedSize :=
            world.pool.allocatedSize + UInt64.ofNat chunk.size
          pageList := chunk :: world.pool.pageList
          inUsed := true }
        system := system })
  | _ => (none, world)

/-- The part of `_pool_alloc_real` that asks the sub-allocators. -/
def allocInSub (size : UInt64) (grants : List Bool) :
    Option PoolAddr × PoolWorld :=
  let (addr, pool) := world.pool.allocIn world.pool.curAllocator size
  let world := { world with pool := pool }
  let (addr, world) :=
    match addr with
    | some addr => (some addr, world)
    | none =>
      match world.allocSubAllocator size grants with
      | none => (none, world)
      | some (page, world) =>
        let (addr, pool) := world.pool.allocIn page size
        let pool :=
          if pool.maxFreeChunk pool.curAllocator < pool.maxFreeChunk page
          then { pool with curAllocator := page }
          else pool
        (addr, { world with pool := pool })
  (addr, { world with pool := { world.pool with inUsed := true } })

/-- `_pool_alloc_real` -/
def poolAlloc (size : UInt64) (grants : List Bool) :
    Option PoolAddr × PoolWorld :=
  if size = 0 then (none, world)
  else if world.pool.capacity < world.pool.allocatedSize then (none, world)
  else if directAllocSize < (size + 8).toNat then
    world.allocDirect size grants
  else world.allocInSub size grants

/-- `nd_pool_alloc` asks the system for a page and does not get it.  Where
`nd_mmap` is `mmap`, whose refusal is not null, `__sys_page_alloc` takes it for
a page and writes the size there. -/
def pageRefused (size : UInt64) (grants : List Bool) : Bool :=
  if size = 0 then false
  else if world.pool.capacity < world.pool.allocatedSize then false
  else if directAllocSize < (size + 8).toNat then !grants.headD false
  else
    (world.pool.allocIn world.pool.curAllocator size).1.isNone &&
      world.pool.freeAllocator.isEmpty && !grants.headD false

def freeSubAllocator (sub : PoolSub) : PoolWorld :=
  let pool := { world.pool with
    allocatorList :=
      world.pool.allocatorList.filter fun other => other.page ≠ sub.page }
  if 2 ≤ pool.freeAllocatorNum then
    { pool := pool, system := world.system.pageFree sub.page }
  else
    { world with pool := { pool with
        freeAllocator := sub :: pool.freeAllocator
        freeAllocatorNum := pool.freeAllocatorNum + 1 } }

/-- The part of `_pool_free_real` for a block of a sub-allocator. -/
def freeInSub (sub : PoolSub) (offset : Nat) : PoolWorld :=
  match sub.arena.ndAllocatorFree (offset - allocNodeSize) with
  | none => world
  | some (result, arena) =>
    let world := { world with pool := world.pool.setArena sub.page arena }
    let pool := world.pool
    if result = 0 then
      if sub.page ≠ pool.page ∧ sub.page ≠ pool.curAllocator then
        world.freeSubAllocator { sub with arena := arena }
      else world
    else if pool.maxFreeChunk pool.curAllocator < pool.maxFreeChunk sub.page
    then { world with pool := { pool with curAllocator := sub.page } }
    else world

/-- `nd_atomic_sub` on the low half of a `size_t`. -/
def subLow (value : UInt64) (size : Nat) : UInt64 :=
  UInt64.ofNat (value.toNat / 4294967296 * 4294967296 +
    (value.toNat % 4294967296 + (4294967296 - size % 4294967296)) % 4294967296)

/-- The part of `_pool_free_real` for a block with a page of its own. -/
def freeDirect (chunk : BigChunk) : PoolWorld :=
  { pool := { world.pool with
      allocatedSize := subLow world.pool.allocatedSize (chunk.size / 4 * 4)
      pageList :=
        world.pool.pageList.filter fun other => other.page ≠ chunk.page }
    system := world.system.pageFree chunk.page }

/-- `_pool_free_real`; an address that is not handed out is not freed. -/
def poolFree (addr : PoolAddr) : PoolWorld :=
  match world.pool.pageList.find? fun chunk => chunk.page = addr.page with
  | some chunk => world.freeDirect chunk
  | none =>
    match world.pool.findSub addr.page with
    | none => world
    | some sub => world.freeInSub sub addr.offset

/-- The size of a block, as `_user_addr_2sys` finds it. -/
def allocLen (addr : PoolAddr) : Option Nat :=
  match world.pool.pageList.find? fun chunk => chunk.page = addr.page with
  | some chunk => some (chunk.size / 4 * 4)
  | none =>
    match world.pool.findSub addr.page with
    | none => none
    | some sub =>
      (sub.arena.live.find? fun block =>
        block.addr = addr.offset - allocNodeSize).map LiveBlock.size

def getNeedSize (userSize : UInt64) : Nat :=
  let userSize := (userSize + 8).toNat
  if directAllocSize < userSize then pageAline userSize
  else
    let userSize := sizeAline userSize
    if bigSize ≤ userSize then bigAline userSize else userSize

def poolRealloc (addr : PoolAddr) (newsize : UInt64) (grants : List Bool) :
    Option PoolAddr × PoolWorld :=
  match world.allocLen addr with
  | none => (none, world)
  | some allocLen =>
    -- a block is `sizeof(struct alloc_node)` larger than what its user sees
    if getNeedSize (newsize + 8) ≤ allocLen then (some addr, world)
    else
      match world.poolAlloc newsize grants with
      | (none, world) => (none, world)
      | (some newaddr, world) => (some newaddr, world.poolFree addr)

def poolReset : PoolWorld :=
  let pool := world.pool
  let subs := pool.allocatorList.filter fun sub => sub.page ≠ pool.page
  let system := (subs.map PoolSub.page).foldl PageSystem.pageFree world.system
  let system := (pool.pageList.map BigChunk.page).foldl PageSystem.pageFree
    system
  { pool := { pool with
      allocatedSize := UInt64.ofNat pool.size
      allocatorList := [pool.ownSub]
      pageList := []
      curAllocator := pool.page }
    system := system }

/-- `nd_pool_destroy`, which leaves no pool behind -/
def poolDestroy : PageSystem :=
  world.poolReset.system.pageFree world.pool.page

end PoolWorld

/-- `nd_pool_create`, when the system grants the page; `header` is
`sizeof(nd_mmpool_t)`. -/
def poolCreate (maxsize : UInt64) (header firstPage : Nat) :
    Option PoolWorld :=
  if maxsize = 0 then none
  else
    let (size, maxsize, gran) :=
      if maxsize = 18446744073709551615 then
        (minPageSize * 64, maxsize, 64)
      else if maxsize ≤ 65536 then (minPageSize, 65536, 1)
      else if maxsize ≤ 262144 then (minPageSize, 65536, 1)
      else
        (1048576, UInt64.ofNat (ndAline maxsize.toNat minPageSize), 1)
    let (page, system) :=
      PageSystem.pageAlloc { next := firstPage, held := [], returned := [] }
    let pool : MmPool :=
      { page := page, size := size, header := header, capacity := maxsize,
        allocatedSize := UInt64.ofNat size, allocGranularity := gran,
        freeAllocatorNum := 0, inUsed := false, allocatorList := [],
        freeAllocator := [], pageList := [], curAllocator := page }
    some
      { pool := { pool with allocatorList := [pool.ownSub] }
        system := system }

/-- The calls of a user between `nd_pool_create` and `nd_pool_destroy`. -/
inductive PoolOp where
  | alloc (size : UInt64) (grants : List Bool)
  | free (addr : PoolAddr)
  | realloc (addr : PoolAddr) (newsize : UInt64) (grants : List Bool)
  | reset
  deriving DecidableEq, Repr

namespace PoolWorld

def step (world : PoolWorld) : PoolOp → PoolWorld
  | .alloc size grants => (world.poolAlloc size grants).2
  | .free addr => world.poolFree addr
  | .realloc addr newsize grants => (world.poolRealloc addr newsize grants).2
  | .reset => world.poolReset

def run (world : PoolWorld) (ops : List PoolOp) : PoolWorld :=
  ops.foldl step world

end PoolWorld

def MmPool.places (pool : MmPool) : List Nat :=
  pool.allocatorList.map PoolSub.page ++
    (pool.freeAllocator.map PoolSub.page ++ pool.pageList.map BigChunk.page)

/-- Every page that is out is in one of the places, and none has been returned
twice. -/
structure Accounts (world : PoolWorld) : Prop where
  held : world.system.held.Perm world.pool.places
  once : (world.system.held ++ world.system.returned).Nodup
  numbered : ∀ page ∈ world.system.held ++ world.system.returned,
    page < world.system.next
  own : world.pool.page ∈ world.pool.allocatorList.map PoolSub.page

namespace PageSystem

variable {system : PageSystem} {page : Nat}

theorem pageFree_perm (out : page ∈ system.held) :
    ((system.pageFree page).held ++ (system.pageFree page).returned).Perm
      (system.held ++ system.returned) := by
  refine perm_middle.trans ?_
  exact (perm_cons_erase out).symm.append_right _

theorem foldl_pageFree {pages rest : List Nat}
    (out : system.held.Perm (pages ++ rest)) :
    (pages.foldl pageFree system).held.Perm rest ∧
      ((pages.foldl pageFree system).held ++
        (pages.foldl pageFree system).returned).Perm
          (system.held ++ system.returned) ∧
      (pages.foldl pageFree system).next = system.next := by
  induction pages generalizing system with
  | nil => exact ⟨out, List.Perm.refl _, rfl⟩
  | cons page pages induction =>
    have listed : page ∈ system.held :=
      out.mem_iff.mpr mem_cons_self
    have erased : (system.pageFree page).held.Perm (pages ++ rest) := by
      have erased := out.erase page
      rw [cons_append, erase_cons_head] at erased
      exact erased
    obtain ⟨held, moved, next⟩ := induction erased
    exact ⟨held, moved.trans (pageFree_perm listed), next⟩

end PageSystem

namespace Accounts

variable {world : PoolWorld}

theorem move (accounts : Accounts world) {pool : MmPool}
    (places : pool.places.Perm world.pool.places)
    (own : pool.page ∈ pool.allocatorList.map PoolSub.page) :
    Accounts { world with pool := pool } :=
  { held := accounts.held.trans places.symm
    once := accounts.once
    numbered := accounts.numbered
    own := own }

theorem gain (accounts : Accounts world) {pool : MmPool}
    (places : pool.places.Perm (world.system.next :: world.pool.places))
    (own : pool.page ∈ pool.allocatorList.map PoolSub.page) :
    Accounts { pool := pool, system := world.system.pageAlloc.2 } where
  held := (accounts.held.cons _).trans places.symm
  once := by
    refine nodup_cons.mpr ⟨?_, accounts.once⟩
    intro known
    exact Nat.lt_irrefl _ (accounts.numbered _ known)
  numbered := by
    intro page known
    rcases mem_cons.mp known with rfl | old
    · exact Nat.lt_succ_self _
    · exact Nat.lt_succ_of_lt (accounts.numbered page old)
  own := own

theorem lose (accounts : Accounts world) {pool : MmPool} {page : Nat}
    (places : world.pool.places.Perm (page :: pool.places))
    (own : pool.page ∈ pool.allocatorList.map PoolSub.page) :
    Accounts { pool := pool, system := world.system.pageFree page } := by
  have listed : page ∈ world.system.held := by
    rw [accounts.held.mem_iff, places.mem_iff]
    exact mem_cons_self
  have moved := PageSystem.pageFree_perm listed
  refine { held := ?_, once := ?_, numbered := ?_, own := own }
  · have erased := (accounts.held.trans places).erase page
    rw [erase_cons_head] at erased
    exact erased
  · exact moved.nodup_iff.mpr accounts.once
  · intro other known
    exact accounts.numbered other (moved.mem_iff.mp known)

end Accounts

namespace MmPool

variable {pool : MmPool}

theorem setArena_pages (page : Nat) (arena : SubAllocator) :
    (pool.setArena page arena).allocatorList.map PoolSub.page =
      pool.allocatorList.map PoolSub.page := by
  change ((pool.allocatorList.map _).map PoolSub.page) = _
  rw [map_map]
  refine map_congr_left ?_
  intro sub _
  change (if sub.page = page then { sub with arena := arena } else sub).page =
    sub.page
  split <;> rfl

theorem places_congr {other : MmPool}
    (subs : other.allocatorList.map PoolSub.page =
      pool.allocatorList.map PoolSub.page)
    (cached : other.freeAllocator = pool.freeAllocator)
    (chunks : other.pageList = pool.pageList) :
    other.places = pool.places := by
  unfold places
  rw [subs, cached, chunks]

theorem allocIn_frame (page : Nat) (size : UInt64) :
    (pool.allocIn page size).2.places = pool.places ∧
      (pool.allocIn page size).2.page = pool.page ∧
      (pool.allocIn page size).2.allocatorList.map PoolSub.page =
        pool.allocatorList.map PoolSub.page := by
  unfold allocIn
  cases pool.findSub page with
  | none => exact ⟨rfl, rfl, rfl⟩
  | some sub =>
    dsimp only
    cases sub.arena.ndAllocatorAlloc size with
    | none => exact ⟨rfl, rfl, rfl⟩
    | some result =>
      obtain ⟨offset, arena⟩ := result
      have same := @setArena_pages pool page arena
      exact ⟨places_congr same rfl rfl, rfl, same⟩

theorem filter_pages_perm {subs : List PoolSub} {page : Nat}
    (distinct : (subs.map PoolSub.page).Nodup)
    (here : page ∈ subs.map PoolSub.page) :
    (subs.map PoolSub.page).Perm
      (page :: (subs.filter fun sub => sub.page ≠ page).map PoolSub.page) := by
  have rest : (subs.filter fun sub => sub.page ≠ page).map PoolSub.page =
      (subs.map PoolSub.page).erase page := by
    rw [distinct.erase_eq_filter, filter_map]
    congr 1
    refine filter_congr ?_
    intro sub _
    by_cases same : sub.page = page <;> simp [same]
  rw [rest]
  exact perm_cons_erase here

end MmPool

namespace Accounts

variable {world : PoolWorld}

section

variable (accounts : Accounts world)
include accounts

theorem distinct : world.pool.places.Nodup :=
  accounts.held.nodup_iff.mp (nodup_append.mp accounts.once).1

theorem allocIn (page : Nat) (size : UInt64) :
    Accounts { world with pool := (world.pool.allocIn page size).2 } := by
  obtain ⟨places, same, subs⟩ := @MmPool.allocIn_frame world.pool page size
  refine accounts.move (List.Perm.of_eq places) ?_
  rw [same, subs]
  exact accounts.own

theorem allocSubAllocator {size : UInt64} {grants : List Bool} {page : Nat}
    {next : PoolWorld}
    (done : world.allocSubAllocator size grants = some (page, next)) :
    Accounts next := by
  unfold PoolWorld.allocSubAllocator at done
  dsimp only at done
  split at done
  · rename_i empty
    split at done
    · cases done
    · cases done
      refine accounts.gain (List.Perm.refl _) ?_
      exact mem_cons_of_mem _ accounts.own
  · rename_i sub subs cached
    cases done
    refine accounts.move ?_ (mem_cons_of_mem _ accounts.own)
    unfold MmPool.places
    rw [cached]
    exact perm_middle.symm

theorem allocDirect (size : UInt64)
    (grants : List Bool) : Accounts (world.allocDirect size grants).2 := by
  unfold PoolWorld.allocDirect
  split
  · refine accounts.gain ?_ accounts.own
    unfold MmPool.places
    rw [← append_assoc, ← append_assoc]
    exact perm_middle
  · exact accounts

theorem allocInSub (size : UInt64)
    (grants : List Bool) : Accounts (world.allocInSub size grants).2 := by
  have tried := accounts.allocIn world.pool.curAllocator size
  have marked : ∀ {world : PoolWorld}, Accounts world →
      Accounts { world with pool := { world.pool with inUsed := true } } :=
    fun accounts => accounts.move (List.Perm.refl _) accounts.own
  unfold PoolWorld.allocInSub
  refine marked ?_
  cases got : world.pool.allocIn world.pool.curAllocator size with
  | mk addr pool =>
    rw [got] at tried
    cases addr with
    | some addr => exact tried
    | none =>
      dsimp only
      split
      · exact tried
      · rename_i page next opened
        have fresh := (tried.allocSubAllocator opened).allocIn page size
        split
        · exact fresh.move (List.Perm.refl _) fresh.own
        · exact fresh

theorem poolAlloc (size : UInt64)
    (grants : List Bool) : Accounts (world.poolAlloc size grants).2 := by
  unfold PoolWorld.poolAlloc
  split_ifs
  · exact accounts
  · exact accounts
  · exact accounts.allocDirect size grants
  · exact accounts.allocInSub size grants

theorem freeSubAllocator {sub : PoolSub}
    (here : sub.page ∈ world.pool.allocatorList.map PoolSub.page)
    (other : sub.page ≠ world.pool.page) :
    Accounts (world.freeSubAllocator sub) := by
  have subs : (world.pool.allocatorList.map PoolSub.page).Nodup :=
    (nodup_append.mp accounts.distinct).1
  have taken := MmPool.filter_pages_perm subs here
  have own : world.pool.page ∈
      (world.pool.allocatorList.filter fun each =>
        each.page ≠ sub.page).map PoolSub.page := by
    have known := accounts.own
    rw [taken.mem_iff, mem_cons] at known
    exact known.resolve_left (Ne.symm other)
  unfold PoolWorld.freeSubAllocator
  dsimp only
  split
  · exact accounts.lose (taken.append_right _) own
  · refine accounts.move ?_ own
    refine List.Perm.trans ?_ (taken.append_right _).symm
    exact perm_middle

theorem freeInSub {sub : PoolSub}
    (here : sub.page ∈ world.pool.allocatorList.map PoolSub.page)
    (offset : Nat) : Accounts (world.freeInSub sub offset) := by
  unfold PoolWorld.freeInSub
  split
  · exact accounts
  rename_i result arena freed
  have same := @MmPool.setArena_pages world.pool sub.page arena
  have kept : Accounts
      { world with pool := world.pool.setArena sub.page arena } := by
    refine accounts.move
      (List.Perm.of_eq (MmPool.places_congr same rfl rfl)) ?_
    rw [same]
    exact accounts.own
  dsimp only
  split_ifs with empty released larger
  · refine kept.freeSubAllocator ?_ released.1
    rw [same]
    exact here
  · exact kept
  · exact kept.move (List.Perm.refl _) kept.own
  · exact kept

theorem freeDirect {chunk : BigChunk} (here : chunk ∈ world.pool.pageList) :
    Accounts (world.freeDirect chunk) := by
  have chunks : (world.pool.pageList.map BigChunk.page).Nodup :=
    (nodup_append.mp (nodup_append.mp accounts.distinct).2.1).2.1
  have rest : (world.pool.pageList.filter fun other =>
      other.page ≠ chunk.page).map BigChunk.page =
        (world.pool.pageList.map BigChunk.page).erase chunk.page := by
    rw [chunks.erase_eq_filter, filter_map]
    congr 1
    refine filter_congr ?_
    intro other _
    by_cases same : other.page = chunk.page <;> simp [same]
  have taken : (world.pool.pageList.map BigChunk.page).Perm
      (chunk.page :: (world.pool.pageList.filter fun other =>
        other.page ≠ chunk.page).map BigChunk.page) := by
    rw [rest]
    exact perm_cons_erase (mem_map_of_mem here)
  refine accounts.lose ?_ accounts.own
  unfold MmPool.places
  rw [← append_assoc, ← append_assoc]
  exact (taken.append_left _).trans perm_middle

theorem poolFree (addr : PoolAddr) :
    Accounts (world.poolFree addr) := by
  unfold PoolWorld.poolFree
  split
  · rename_i chunk found
    exact accounts.freeDirect (mem_of_find?_eq_some found)
  · split
    · exact accounts
    · rename_i sub found
      exact accounts.freeInSub
        (mem_map_of_mem (mem_of_find?_eq_some found)) addr.offset

theorem poolRealloc (addr : PoolAddr) (newsize : UInt64) (grants : List Bool) :
    Accounts (world.poolRealloc addr newsize grants).2 := by
  have allocated := accounts.poolAlloc newsize grants
  unfold PoolWorld.poolRealloc
  split
  · exact accounts
  split
  · exact accounts
  · split
    · rename_i next refused
      rw [refused] at allocated
      exact allocated
    · rename_i newaddr next granted
      rw [granted] at allocated
      exact allocated.poolFree addr

/-- A reset returns the pages of the sub-allocators in use, its own excepted,
and of the large blocks. -/
theorem poolReset : Accounts world.poolReset := by
  have subs : (world.pool.allocatorList.map PoolSub.page).Nodup :=
    (nodup_append.mp accounts.distinct).1
  have taken := MmPool.filter_pages_perm subs accounts.own
  have split : world.system.held.Perm
      ((world.pool.allocatorList.filter fun sub =>
        sub.page ≠ world.pool.page).map PoolSub.page ++
          (world.pool.pageList.map BigChunk.page ++
            world.poolReset.pool.places)) := by
    have kept : world.poolReset.pool.places =
        world.pool.page :: world.pool.freeAllocator.map PoolSub.page := by
      unfold MmPool.places PoolWorld.poolReset
      simp [MmPool.ownSub, subInit]
    rw [kept]
    refine accounts.held.trans ?_
    refine (taken.append_right _).trans ?_
    refine perm_middle.symm.trans ?_
    refine List.Perm.append_left _ ?_
    refine List.Perm.trans ?_ perm_middle.symm
    exact perm_append_comm.cons _
  obtain ⟨first, early, next⟩ := PageSystem.foldl_pageFree split
  obtain ⟨second, late, last⟩ := PageSystem.foldl_pageFree first
  have moved := late.trans early
  refine { held := second, once := ?_, numbered := ?_, own := ?_ }
  · exact moved.nodup_iff.mpr accounts.once
  · intro page known
    have counted := accounts.numbered page (moved.mem_iff.mp known)
    rw [← next, ← last] at counted
    exact counted
  · exact mem_singleton.mpr rfl

theorem step (op : PoolOp) :
    Accounts (world.step op) := by
  cases op with
  | alloc size grants => exact accounts.poolAlloc size grants
  | free addr => exact accounts.poolFree addr
  | realloc addr newsize grants =>
    exact accounts.poolRealloc addr newsize grants
  | reset => exact accounts.poolReset

theorem run (ops : List PoolOp) :
    Accounts (world.run ops) := by
  induction ops generalizing world with
  | nil => exact accounts
  | cons op ops induction => exact induction (accounts.step op)

end

theorem create {maxsize : UInt64} {header firstPage : Nat}
    (created : poolCreate maxsize header firstPage = some world) :
    Accounts world := by
  unfold poolCreate at created
  split at created
  · cases created
  cases created
  refine { held := ?_, once := ?_, numbered := ?_, own := ?_ }
  · exact List.Perm.refl _
  · exact pairwise_singleton _ _
  · intro page known
    rw [mem_singleton.mp known]
    exact Nat.lt_succ_self _
  · exact mem_singleton.mpr rfl

theorem poolDestroy (accounts : Accounts world) :
    world.poolDestroy.held.Perm
        (world.pool.freeAllocator.map PoolSub.page) ∧
      world.poolDestroy.returned.Nodup := by
  have reset := accounts.poolReset
  have places : world.poolReset.pool.places =
      world.pool.page :: world.pool.freeAllocator.map PoolSub.page := by
    unfold MmPool.places PoolWorld.poolReset
    simp [MmPool.ownSub, subInit]
  have held := reset.held
  rw [places] at held
  have listed : world.pool.page ∈ world.poolReset.system.held :=
    held.mem_iff.mpr mem_cons_self
  constructor
  · have erased := held.erase world.pool.page
    rw [erase_cons_head] at erased
    exact erased
  · have once := (PageSystem.pageFree_perm listed).nodup_iff.mpr reset.once
    exact (nodup_append.mp once).2.1

end Accounts

/-- For every pool and every sequence of calls on it: no page is returned
twice, and when the pool is destroyed all its pages have been returned exactly
if no sub-allocator is put by. -/
theorem poolRun_released_iff {maxsize : UInt64} {header firstPage : Nat}
    {world : PoolWorld}
    (created : poolCreate maxsize header firstPage = some world)
    (ops : List PoolOp) :
    (world.run ops).poolDestroy.returned.Nodup ∧
      ((world.run ops).poolDestroy.held = [] ↔
        (world.run ops).pool.freeAllocator = []) := by
  have accounts := (Accounts.create created).run ops
  obtain ⟨held, once⟩ := accounts.poolDestroy
  refine ⟨once, ?_⟩
  constructor
  · intro none
    rw [none] at held
    exact map_eq_nil_iff.mp held.nil_eq.symm
  · intro none
    rw [none] at held
    exact held.eq_nil

/-- A pool with three sub-allocators, each with one block, and a block with a
page of its own; the blocks of the last two are freed. -/
def cachingOps : List PoolOp :=
  [.alloc 60000 [], .alloc 60000 [true], .alloc 60000 [true],
    .alloc 100000 [true], .free ⟨3, 32⟩, .free ⟨2, 1096⟩]

def samplePool : PoolWorld where
  pool :=
    { page := 0, size := 65536, header := 200, capacity := 65536,
      allocatedSize := 65536, allocGranularity := 1, freeAllocatorNum := 0,
      inUsed := false, allocatorList := [subInit 0 200 65336],
      freeAllocator := [], pageList := [], curAllocator := 0 }
  system := { next := 1, held := [0], returned := [] }

theorem samplePool_created : poolCreate 65536 200 0 = some samplePool := by
  decide +kernel

theorem poolRun_released_iff_direct :
    (samplePool.run (cachingOps.take 5)).poolDestroy.held = [] :=
  (poolRun_released_iff samplePool_created (cachingOps.take 5)).2.mpr
    (by decide +kernel)

/-- The page of the sub-allocator put by is still out when the pool is gone. -/
theorem cachingOps_not_released :
    poolCreate 65536 200 0 = some samplePool ∧
      (samplePool.run cachingOps).poolDestroy.held = [2] := by
  decide +kernel

end NdNet
