import NdNet.Stl.RefTree

/-!
# What the two counters of `nd_reftree.h` protect

Whatever is erased and whichever iterators there are: a node waits in the list
exactly if its count is zero, the list is empty when there is no iterator, and a
node with an iterator at it is in the tree.  So a node is destroyed once, and
only when no iterator is left.
-/

namespace NdNet.RefTree

open List

variable {κ ν : Type}

namespace Rbtree

def entries (t : Rbtree κ ν) : List (Nat × κ × ν) :=
  t.header.map fun node => (node.id, node.first, node.second)

variable {t after : Rbtree κ ν} {addr other refCount : Nat}
  {node : RbtreeNode κ ν}

theorem addresses_eq (t : Rbtree κ ν) :
    t.addresses = t.entries.map Prod.fst := by
  rw [addresses, entries, map_map]
  rfl

theorem addresses_of_entries (same : after.entries = t.entries) :
    after.addresses = t.addresses := by
  rw [addresses_eq, addresses_eq, same]

theorem keys_eq (t : Rbtree κ ν) :
    t.header.map RbtreeNode.first = t.entries.map fun entry => entry.2.1 := by
  rw [entries, map_map]
  rfl

theorem keys_of_entries (same : after.entries = t.entries) :
    after.header.map RbtreeNode.first = t.header.map RbtreeNode.first := by
  rw [keys_eq, keys_eq, same]

theorem node?_some (found : t.node? addr = some node) :
    node ∈ t.header ∧ node.id = addr := by
  have here : decide (node.id = addr) = true :=
    find?_some (p := fun node : RbtreeNode κ ν => decide (node.id = addr))
      found
  exact ⟨mem_of_find?_eq_some found, of_decide_eq_true here⟩

theorem node?_none (missing : t.node? addr = none) :
    addr ∉ t.addresses := by
  intro inside
  obtain ⟨node, there, same⟩ := mem_map.mp inside
  have different := find?_eq_none.mp missing node there
  exact different (decide_eq_true same)

theorem node?_of_mem (inside : addr ∈ t.addresses) :
    ∃ node, t.node? addr = some node := by
  cases found : t.node? addr with
  | none => exact absurd inside (node?_none found)
  | some node => exact ⟨node, rfl⟩

theorem node?_of_header (apart : t.addresses.Nodup) (there : node ∈ t.header) :
    t.node? node.id = some node := by
  obtain ⟨found, look⟩ := node?_of_mem (mem_map_of_mem there)
  obtain ⟨inside, same⟩ := node?_some look
  rw [look, inj_on_of_nodup_map apart inside there same]

@[simp]
theorem entries_setRef (t : Rbtree κ ν) (addr refCount : Nat) :
    (t.setRef addr refCount).entries = t.entries := by
  rw [entries, entries, setRef, map_map]
  apply map_congr_left
  intro node _
  rw [Function.comp_apply]
  split <;> rfl

theorem mem_setRef_iff :
    node ∈ (t.setRef addr refCount).header ↔
      (node.id ≠ addr ∧ node ∈ t.header) ∨
        (node.id = addr ∧ node.refCount = refCount ∧
          ∃ old ∈ t.header, old.id = addr ∧
            node = { old with refCount := refCount }) := by
  rw [setRef, mem_map]
  constructor
  · rintro ⟨old, there, rfl⟩
    by_cases here : old.id = addr
    · rw [if_pos here]
      exact .inr ⟨here, rfl, old, there, here, rfl⟩
    · rw [if_neg here]
      exact .inl ⟨here, there⟩
  · rintro (⟨elsewhere, there⟩ | ⟨here, counted, old, there, same, rfl⟩)
    · exact ⟨node, there, if_neg elsewhere⟩
    · exact ⟨old, there, if_pos same⟩

theorem key_eq (it : Iterator) (t : Rbtree κ ν) :
    it.key t = it.treenode.bind fun addr =>
      (t.entries.find? fun entry => entry.1 = addr).map
        fun entry => entry.2.1 := by
  apply Option.bind_congr
  intro addr _
  rw [entries, find?_map, Option.map_map]
  rfl

theorem key_of_entries (same : after.entries = t.entries) (it : Iterator) :
    it.key after = it.key t := by
  rw [key_eq, key_eq, same]

theorem key_of_entry (apart : t.addresses.Nodup) {it : Iterator}
    {entry : Nat × κ × ν} (inside : entry ∈ t.entries)
    (here : it.treenode = some entry.1) : it.key t = some entry.2.1 := by
  rw [addresses_eq] at apart
  rw [key_eq, here, Option.bind_some]
  cases found : t.entries.find? fun other => other.1 = entry.1 with
  | none =>
    have different := find?_eq_none.mp found entry inside
    exact absurd (decide_eq_true rfl) different
  | some other =>
    have same : decide (other.1 = entry.1) = true :=
      find?_some (p := fun other : Nat × κ × ν =>
        decide (other.1 = entry.1)) found
    have equal := inj_on_of_nodup_map apart
      (mem_of_find?_eq_some found) inside (of_decide_eq_true same)
    rw [equal]
    rfl

theorem entry_of_key {it : Iterator} {key : κ} (stands : it.key t = some key) :
    ∃ entry ∈ t.entries, it.treenode = some entry.1 ∧ entry.2.1 = key := by
  rw [key_eq] at stands
  obtain ⟨addr, here, found⟩ := Option.bind_eq_some_iff.mp stands
  obtain ⟨entry, look, rfl⟩ := Option.map_eq_some_iff.mp found
  have same : decide (entry.1 = addr) = true :=
    find?_some (p := fun entry : Nat × κ × ν =>
      decide (entry.1 = addr)) look
  rw [← of_decide_eq_true same] at here
  exact ⟨entry, mem_of_find?_eq_some look, here, rfl⟩

section Waiting

theorem eraseNode_of_mem (inside : addr ∈ t.addresses) :
    t.eraseNode addr =
      { t with
        count := t.count - 1
        header := t.header.filter fun node => node.id ≠ addr
        destroyed := t.destroyed ++ [addr] } := by
  obtain ⟨node, found⟩ := node?_of_mem inside
  rw [eraseNode, if_pos (by rw [found]; rfl)]
  rfl

theorem trytoErase_fold (waiting : List Nat) (apart : waiting.Nodup)
    (inside : ∀ addr ∈ waiting, addr ∈ t.addresses) :
    waiting.foldl (fun t addr => t.eraseNode addr) t =
      { t with
        count := t.count - waiting.length
        header := t.header.filter fun node => node.id ∉ waiting
        destroyed := t.destroyed ++ waiting } := by
  induction waiting generalizing t with
  | nil => simp
  | cons addr waiting induction =>
    obtain ⟨here, inside⟩ := forall_mem_cons.mp inside
    obtain ⟨other, apart⟩ := nodup_cons.mp apart
    rw [foldl_cons, eraseNode_of_mem here, induction apart]
    · simp only [filter_filter, length_cons, append_assoc,
        singleton_append, mem_cons, not_or]
      congr 1
      · apply filter_congr
        intro node _
        simp only [ne_eq, Bool.decide_and, Bool.and_comm]
      · push_cast
        omega
    · intro later within
      obtain ⟨node, there, rfl⟩ := mem_map.mp (inside later within)
      refine mem_map_of_mem (mem_filter.mpr ⟨there, ?_⟩)
      refine decide_eq_true fun same => ?_
      exact other (same ▸ within)

theorem trytoErase_eq (apart : t.delList.Nodup)
    (inside : ∀ addr ∈ t.delList, addr ∈ t.addresses) :
    t.trytoErase =
      { t with
        count := t.count - t.delList.length
        header := t.header.filter fun node => node.id ∉ t.delList
        delList := []
        destroyed := t.destroyed ++ t.delList } :=
  trytoErase_fold (t := { t with delList := [] }) t.delList apart inside

end Waiting

@[simp]
theorem delList_incRef (t : Rbtree κ ν) (addr : Nat) :
    (t.incRef addr).2.delList = t.delList := by
  unfold incRef
  split
  · rfl
  · split <;> rfl

@[simp]
theorem delList_seize (t : Rbtree κ ν) (nodes : List Nat) :
    (t.seize nodes).2.delList = t.delList := by
  induction nodes generalizing t with
  | nil => rfl
  | cons addr nodes induction =>
    rw [seize]
    split
    · exact delList_incRef t addr
    · exact (induction _).trans (delList_incRef t addr)

theorem node?_setRef (found : t.node? addr = some node) :
    (t.setRef addr refCount).node? addr =
      some { node with refCount := refCount } := by
  have here := (node?_some found).2
  have same : (fun other : RbtreeNode κ ν => decide (other.id = addr)) ∘
      (fun node => if node.id = addr then { node with refCount } else node) =
        fun other => decide (other.id = addr) := by
    funext other
    rw [Function.comp_apply]
    split <;> rfl
  rw [node?, setRef, find?_map, same]
  change Option.map _ (t.node? addr) = _
  rw [found, Option.map_some, if_pos here]

theorem incRef_shared (taken : (t.incRef addr).1 = true) :
    ∃ node, (t.incRef addr).2.node? addr = some node ∧
      2 ≤ node.refCount := by
  unfold incRef at taken ⊢
  cases found : t.node? addr with
  | none =>
    rw [found] at taken
    cases taken
  | some node =>
    rw [found] at taken
    dsimp only at taken ⊢
    by_cases zero : node.refCount = 0
    · rw [if_pos zero] at taken
      cases taken
    · rw [if_neg zero]
      refine ⟨_, node?_setRef found, ?_⟩
      dsimp only
      omega

theorem seize_shared {nodes : List Nat} (taken : (t.seize nodes).1 = some addr)
    :
    ∃ node, (t.seize nodes).2.node? addr = some node ∧
      2 ≤ node.refCount := by
  induction nodes generalizing t with
  | nil => cases taken
  | cons first nodes induction =>
    rw [seize] at taken ⊢
    by_cases here : (t.incRef first).1 = true
    · rw [if_pos here] at taken ⊢
      cases taken
      exact incRef_shared here
    · rw [if_neg here] at taken ⊢
      exact induction taken

theorem decSelfRef_incSelfRef (flushed : t.selfRef = 0 → t.delList = []) :
    t.incSelfRef.decSelfRef = t := by
  rw [incSelfRef, decSelfRef, if_neg (Nat.succ_ne_zero _)]
  rw [Nat.add_sub_cancel]
  by_cases none : t.selfRef = 0
  · rw [if_pos none, trytoErase]
    have empty := flushed none
    rw [empty, foldl_nil, ← empty]
  · rw [if_neg none]

variable [LinearOrder κ]

/-- The tree is in order, and every node created is in it or destroyed. -/
structure Sane (t : Rbtree κ ν) : Prop where
  ordered : t.header.Pairwise fun one other => one.first < other.first
  apart : t.addresses.Nodup
  size : t.count = t.header.length
  destroyedOnce : t.destroyed.Nodup
  destroyed_iff : ∀ addr,
    addr ∈ t.destroyed ↔ addr < t.created ∧ addr ∉ t.addresses
  created : ∀ addr ∈ t.addresses, addr < t.created
  whole : t.misused = false

/-- The nodes that wait are those whose count is zero. -/
structure Waits (t : Rbtree κ ν) : Prop where
  sane : t.Sane
  once : t.delList.Nodup
  iff_zero : ∀ addr, addr ∈ t.delList ↔
    ∃ node ∈ t.header, node.id = addr ∧ node.refCount = 0

/-- The counters are right, for so many iterators on the tree. -/
structure Held (attached : Nat) (t : Rbtree κ ν) : Prop where
  waits : t.Waits
  selfRef : t.selfRef = attached
  flushed : attached = 0 → t.delList = []

theorem ordered_of_entries (same : after.entries = t.entries) :
    (after.header.Pairwise fun one other => one.first < other.first) ↔
      t.header.Pairwise fun one other => one.first < other.first := by
  have keys := keys_of_entries same
  rw [← pairwise_map (f := RbtreeNode.first) (R := (· < ·)), keys, pairwise_map]

theorem Sane.of_entries (sane : t.Sane) (same : after.entries = t.entries)
    (count : after.count = t.count) (created : after.created = t.created)
    (destroyed : after.destroyed = t.destroyed)
    (misused : after.misused = t.misused) : after.Sane where
  ordered := (ordered_of_entries same).mpr sane.ordered
  apart := by
    rw [addresses_of_entries same]
    exact sane.apart
  size := by
    have lengths := congrArg length same
    rw [entries, entries, length_map, length_map] at lengths
    rw [count, lengths]
    exact sane.size
  destroyedOnce := destroyed ▸ sane.destroyedOnce
  destroyed_iff := by
    rw [destroyed, created, addresses_of_entries same]
    exact sane.destroyed_iff
  created := by
    rw [created, addresses_of_entries same]
    exact sane.created
  whole := misused.trans sane.whole

theorem Sane.drop (sane : t.Sane) {gone : List Nat} (apart : gone.Nodup)
    (inside : ∀ addr ∈ gone, addr ∈ t.addresses) {selfRef : Nat}
    {delList : List Nat} :
    Sane { t with
      count := t.count - gone.length
      header := t.header.filter fun node => node.id ∉ gone
      selfRef := selfRef
      delList := delList
      destroyed := t.destroyed ++ gone } := by
  have kept (addr : Nat) :
      addr ∈ (t.header.filter fun node => node.id ∉ gone).map
        RbtreeNode.id ↔ addr ∈ t.addresses ∧ addr ∉ gone := by
    constructor
    · intro within
      obtain ⟨node, there, rfl⟩ := mem_map.mp within
      obtain ⟨there, stays⟩ := mem_filter.mp there
      exact ⟨mem_map_of_mem there, of_decide_eq_true stays⟩
    · rintro ⟨within, stays⟩
      obtain ⟨node, there, rfl⟩ := mem_map.mp within
      refine mem_map_of_mem (mem_filter.mpr ⟨there, ?_⟩)
      exact decide_eq_true stays
  have whole : gone.length + (t.header.filter fun node =>
      node.id ∉ gone).length = t.header.length := by
    have split : t.addresses.Perm
        (gone ++ (t.header.filter fun node => node.id ∉ gone).map
          RbtreeNode.id) := by
      refine (perm_ext_iff_of_nodup sane.apart ?_).mpr fun addr => ?_
      · refine apart.append
          (sane.apart.sublist (filter_sublist.map _)) ?_
        intro addr left right
        exact ((kept addr).mp right).2 left
      · rw [mem_append, kept]
        constructor
        · intro within
          by_cases gone' : addr ∈ gone
          · exact .inl gone'
          · exact .inr ⟨within, gone'⟩
        · rintro (left | ⟨within, -⟩)
          · exact inside addr left
          · exact within
    have lengths := split.length_eq
    rw [length_append, length_map, addresses, length_map]
      at lengths
    exact lengths.symm
  refine
    { ordered := sane.ordered.sublist filter_sublist
      apart := sane.apart.sublist (filter_sublist.map _)
      size := ?_
      destroyedOnce := ?_
      destroyed_iff := fun addr => ?_
      created := fun addr within => sane.created addr ((kept addr).mp within).1
      whole := sane.whole }
  · have size := sane.size
    dsimp only
    omega
  · refine sane.destroyedOnce.append apart fun addr left right => ?_
    exact ((sane.destroyed_iff addr).mp left).2 (inside addr right)
  · rw [mem_append, sane.destroyed_iff]
    refine Iff.trans ?_ (and_congr_right' (not_congr (kept addr)).symm)
    constructor
    · rintro (⟨before, outside⟩ | left)
      · exact ⟨before, fun both => outside both.1⟩
      · exact ⟨sane.created addr (inside addr left), fun both => both.2 left⟩
    · rintro ⟨before, outside⟩
      by_cases left : addr ∈ gone
      · exact .inr left
      · exact .inl ⟨before, fun within => outside ⟨within, left⟩⟩

theorem Waits.inside (waits : t.Waits) :
    ∀ addr ∈ t.delList, addr ∈ t.addresses := by
  intro addr waiting
  obtain ⟨node, there, rfl, -⟩ := (waits.iff_zero addr).mp waiting
  exact mem_map_of_mem there

theorem Waits.flush (waits : t.Waits) :
    t.trytoErase.Waits ∧ t.trytoErase.delList = [] ∧
      t.trytoErase.selfRef = t.selfRef := by
  rw [trytoErase_eq waits.once waits.inside]
  refine ⟨?_, rfl, rfl⟩
  refine ⟨waits.sane.drop waits.once waits.inside, nodup_nil, ?_⟩
  intro addr
  refine iff_of_false not_mem_nil ?_
  rintro ⟨node, there, rfl, zero⟩
  obtain ⟨there, stays⟩ := mem_filter.mp there
  exact of_decide_eq_true stays ((waits.iff_zero _).mpr ⟨node, there, rfl, zero⟩)

theorem Waits.setRef (waits : t.Waits) (found : t.node? addr = some node)
    (alive : node.refCount ≠ 0) (positive : refCount ≠ 0) :
    (t.setRef addr refCount).Waits where
  sane := waits.sane.of_entries (entries_setRef t addr refCount)
    rfl rfl rfl rfl
  once := waits.once
  iff_zero := by
    intro other
    refine (waits.iff_zero other).trans ?_
    constructor
    · rintro ⟨old, there, rfl, zero⟩
      refine ⟨old, mem_setRef_iff.mpr (.inl ⟨fun same => ?_, there⟩), rfl, zero⟩
      subst same
      rw [node?_of_header waits.sane.apart there] at found
      cases found
      exact alive zero
    · rintro ⟨new, there, rfl, zero⟩
      rcases mem_setRef_iff.mp there with ⟨-, there⟩ | ⟨-, counted, -⟩
      · exact ⟨new, there, rfl, zero⟩
      · exact absurd (counted.symm.trans zero) positive

theorem Waits.wait (waits : t.Waits) (found : t.node? addr = some node)
    (alive : node.refCount ≠ 0) :
    Waits { t.setRef addr 0 with delList := addr :: t.delList } where
  sane := waits.sane.of_entries (entries_setRef t addr 0) rfl rfl rfl rfl
  once := by
    refine nodup_cons.mpr ⟨fun waiting => ?_, waits.once⟩
    obtain ⟨old, there, rfl, zero⟩ := (waits.iff_zero addr).mp waiting
    rw [node?_of_header waits.sane.apart there] at found
    cases found
    exact alive zero
  iff_zero := by
    intro other
    rw [mem_cons, waits.iff_zero]
    constructor
    · rintro (rfl | ⟨old, there, rfl, zero⟩)
      · obtain ⟨there, here⟩ := node?_some found
        exact ⟨{ node with refCount := 0 }, mem_setRef_iff.mpr
          (.inr ⟨here, rfl, node, there, here, rfl⟩), here, rfl⟩
      · by_cases same : old.id = addr
        · subst same
          rw [node?_of_header waits.sane.apart there] at found
          cases found
          exact absurd zero alive
        · exact ⟨old, mem_setRef_iff.mpr (.inl ⟨same, there⟩), rfl, zero⟩
    · rintro ⟨new, there, rfl, zero⟩
      rcases mem_setRef_iff.mp there with ⟨-, there⟩ | ⟨here, -⟩
      · exact .inr ⟨new, there, rfl, zero⟩
      · exact .inl here

theorem Waits.incSelfRef (waits : t.Waits) : t.incSelfRef.Waits :=
  ⟨waits.sane.of_entries rfl rfl rfl rfl rfl, waits.once, waits.iff_zero⟩

variable {attached : Nat}

theorem Held.incSelfRef (held : t.Held attached) :
    t.incSelfRef.Held (attached + 1) where
  waits := held.waits.incSelfRef
  selfRef := congrArg (· + 1) held.selfRef
  flushed none := by cases none

/-- What a function leaves that counts: the tree is held as before, and has the
same nodes. -/
structure Counts (attached : Nat) (t after : Rbtree κ ν) : Prop where
  held : after.Held attached
  same : after.entries = t.entries

theorem Held.incRef (held : t.Held attached) (inside : addr ∈ t.addresses) :
    Counts attached t (t.incRef addr).2 := by
  obtain ⟨node, found⟩ := node?_of_mem inside
  rw [Rbtree.incRef, found]
  dsimp only
  by_cases zero : node.refCount = 0
  · rw [if_pos zero]
    exact ⟨held, rfl⟩
  · rw [if_neg zero]
    exact ⟨⟨held.waits.setRef found zero (Nat.succ_ne_zero _), held.selfRef,
      held.flushed⟩, entries_setRef _ _ _⟩

theorem Held.decRef (held : t.Held (attached + 1)) (inside : addr ∈ t.addresses)
    :
    Counts (attached + 1) t (t.decRef addr).2 := by
  obtain ⟨node, found⟩ := node?_of_mem inside
  rw [Rbtree.decRef, found]
  dsimp only
  by_cases zero : node.refCount = 0
  · rw [if_pos zero]
    exact ⟨held, rfl⟩
  rw [if_neg zero]
  by_cases last : node.refCount = 1
  · have some : ({ t.setRef addr 0 with delList := addr :: t.delList } :
        Rbtree κ ν).selfRef ≠ 0 := by
      intro none
      have attached := held.selfRef
      change t.selfRef = 0 at none
      omega
    rw [last, if_pos rfl, addtoEraseList]
    rw [if_neg some]
    exact ⟨⟨held.waits.wait found zero, held.selfRef, nofun⟩,
      entries_setRef _ _ _⟩
  · rw [if_neg last]
    exact ⟨⟨held.waits.setRef found zero (by omega), held.selfRef,
      held.flushed⟩, entries_setRef _ _ _⟩

theorem Held.decRef_zero (held : t.Held 0) (inside : addr ∈ t.addresses) :
    (t.decRef addr).2.Held 0 := by
  obtain ⟨node, found⟩ := node?_of_mem inside
  rw [Rbtree.decRef, found]
  dsimp only
  by_cases zero : node.refCount = 0
  · rw [if_pos zero]
    exact held
  rw [if_neg zero]
  by_cases last : node.refCount = 1
  · have none : ({ t.setRef addr 0 with delList := addr :: t.delList } :
        Rbtree κ ν).selfRef = 0 :=
      held.selfRef
    rw [last, if_pos rfl, addtoEraseList]
    rw [if_pos none]
    obtain ⟨waits, empty, selfRef⟩ := (held.waits.wait found zero).flush
    exact ⟨waits, selfRef.trans none, fun _ => empty⟩
  · rw [if_neg last]
    exact ⟨held.waits.setRef found zero (by omega), held.selfRef, held.flushed⟩

theorem Held.decSelfRef (held : t.Held (attached + 1)) :
    t.decSelfRef.Held attached := by
  have selfRef := held.selfRef
  have some : t.selfRef ≠ 0 := by omega
  rw [Rbtree.decSelfRef, if_neg some]
  have waits : Waits { t with selfRef := t.selfRef - 1 } :=
    ⟨held.waits.sane.of_entries rfl rfl rfl rfl rfl, held.waits.once,
      held.waits.iff_zero⟩
  by_cases last : t.selfRef - 1 = 0
  · rw [if_pos last]
    obtain ⟨waits, empty, same⟩ := waits.flush
    refine ⟨waits, ?_, fun _ => empty⟩
    rw [same]
    dsimp only
    omega
  · rw [if_neg last]
    exact ⟨waits, by dsimp only; omega, fun none => by omega⟩

theorem Counts.trans {middle : Rbtree κ ν} (first : Counts attached t middle)
    {attached' : Nat} (second : Counts attached' middle after) :
    Counts attached' t after :=
  ⟨second.held, second.same.trans first.same⟩

theorem Held.seize (held : t.Held attached) {nodes : List Nat}
    (inside : ∀ addr ∈ nodes, addr ∈ t.addresses) :
    Counts attached t (t.seize nodes).2 ∧
      ∀ addr, (t.seize nodes).1 = some addr → addr ∈ nodes := by
  induction nodes generalizing t with
  | nil => exact ⟨⟨held, rfl⟩, nofun⟩
  | cons first nodes induction =>
    obtain ⟨here, inside⟩ := forall_mem_cons.mp inside
    have counts := held.incRef here
    rw [seize]
    split
    · refine ⟨counts, fun addr taken => ?_⟩
      cases taken
      exact mem_cons_self
    · obtain ⟨later, among⟩ := induction counts.held fun addr within => by
        rw [addresses_of_entries counts.same]
        exact inside addr within
      refine ⟨counts.trans later, fun addr taken => ?_⟩
      exact mem_cons_of_mem first (among addr taken)

theorem Held.header_decSelfRef (held : t.Held (attached + 1))
    (flushed : attached = 0 → t.delList = []) :
    t.decSelfRef.header = t.header := by
  have selfRef := held.selfRef
  have some : t.selfRef ≠ 0 := by omega
  rw [Rbtree.decSelfRef, if_neg some]
  dsimp only
  by_cases last : t.selfRef - 1 = 0
  · rw [if_pos last, trytoErase]
    dsimp only
    rw [flushed (by omega)]
    rfl
  · rw [if_neg last]

theorem Held.decSelfRef_same (held : t.Held (attached + 1))
    (flushed : attached = 0 → t.delList = []) :
    Counts attached t t.decSelfRef :=
  ⟨held.decSelfRef, by
    rw [entries, held.header_decSelfRef flushed]
    rfl⟩

theorem Held.decRef_shared (held : t.Held attached)
    (found : t.node? addr = some node) (shared : 2 ≤ node.refCount) :
    t.decRef addr = (true, t.setRef addr (node.refCount - 1)) ∧
      Counts attached t (t.setRef addr (node.refCount - 1)) := by
  constructor
  · rw [Rbtree.decRef, found]
    dsimp only
    rw [if_neg (by omega), if_neg (by omega)]
  · exact ⟨⟨held.waits.setRef found (by omega) (by omega), held.selfRef,
      held.flushed⟩, entries_setRef _ _ _⟩

end Rbtree

namespace Iterator

open Rbtree

variable {t after : Rbtree κ ν} {it r : Iterator}

def attachedOf (it : Iterator) : Nat :=
  if it.parent then 1 else 0

theorem attachedOf_parent (attached : it.parent = true) : it.attachedOf = 1 :=
  if_pos attached

theorem attachedOf_free (free : ¬ it.parent = true) : it.attachedOf = 0 :=
  if_neg free

def Rooted (it : Iterator) (t : Rbtree κ ν) : Prop :=
  ∀ addr, it.treenode = some addr → it.parent = true ∧ addr ∈ t.addresses

theorem Rooted.of_entries (rooted : it.Rooted t)
    (same : after.entries = t.entries) : it.Rooted after := by
  rw [Rooted, addresses_of_entries same]
  exact rooted

theorem rooted_none (nothing : it.treenode = none) : it.Rooted t := by
  intro addr here
  rw [nothing] at here
  cases here

theorem onwards_inside {backwards : Bool} {addr : Nat} :
    ∀ other ∈ t.onwards backwards addr, other ∈ t.addresses := by
  have subset (sought : Nat → Bool) (nodes : List Nat) :
      ∀ other ∈ InOrder.behind sought nodes, other ∈ nodes := by
    intro other later
    induction nodes with
    | nil => cases later
    | cons first nodes induction =>
      rw [InOrder.behind] at later
      split at later
      · exact mem_cons_of_mem first later
      · exact mem_cons_of_mem first (induction later)
  intro other later
  have within := subset _ _ other later
  cases backwards with
  | false => exact within
  | true => exact mem_reverse.mp within

variable [LinearOrder κ] {attached : Nat}

/-- What a function leaves that makes an iterator. -/
structure Makes (attached : Nat) (t : Rbtree κ ν)
    (result : Iterator × Rbtree κ ν) : Prop where
  counts : Counts (attached + result.1.attachedOf) t result.2
  rooted : result.1.Rooted result.2

theorem nowhere_makes (held : t.Held attached) (backwards : Bool) :
    Makes attached t (.nowhere backwards, t) :=
  ⟨⟨held, rfl⟩, rooted_none rfl⟩

theorem Makes.of_counts {middle : Rbtree κ ν} {attached' : Nat}
    {result : Iterator × Rbtree κ ν} (makes : Makes attached' middle result)
    (counts : Counts attached t middle) : Makes attached' t result :=
  ⟨counts.trans makes.counts, makes.rooted⟩

theorem incRefRbtree_makes (held : t.Held attached) (rooted : it.Rooted t) :
    Makes attached t (it.incRefRbtree t) := by
  rw [incRefRbtree]
  by_cases parent : it.parent = true
  · rw [if_pos parent]
    cases here : it.treenode with
    | none =>
      refine ⟨?_, rooted_none here⟩
      rw [attachedOf_parent parent]
      exact ⟨held.incSelfRef, rfl⟩
    | some addr =>
      have inside := (rooted addr here).2
      have counts := held.incSelfRef.incRef inside
      dsimp only
      split
      · refine ⟨?_, rooted.of_entries counts.same⟩
        rw [attachedOf_parent parent]
        exact ⟨counts.held, counts.same⟩
      · have attached :
            ({ it with treenode := none } : Iterator).attachedOf = 1 :=
          if_pos parent
        refine ⟨?_, rooted_none rfl⟩
        rw [attached]
        exact ⟨counts.held, counts.same⟩
  · rw [if_neg parent]
    refine ⟨?_, rooted⟩
    rw [attachedOf_free parent]
    exact ⟨held, rfl⟩

theorem incRefOf_counts (held : t.Held attached) (rooted : it.Rooted t) :
    Counts (attached + it.attachedOf) t (it.incRefOf t) := by
  rw [incRefOf]
  by_cases parent : it.parent = true
  · rw [if_pos parent, attachedOf_parent parent]
    cases here : it.treenode with
    | none => exact ⟨held.incSelfRef, rfl⟩
    | some addr =>
      have inside := (rooted addr here).2
      have counts := held.incSelfRef.incRef inside
      exact ⟨counts.held, counts.same⟩
  · rw [if_neg parent, attachedOf_free parent]
    exact ⟨held, rfl⟩

/-- What a function leaves that gives an iterator back: if others are left, no
node is destroyed. -/
structure Frees (attached : Nat) (t after : Rbtree κ ν) : Prop where
  held : after.Held attached
  same : attached ≠ 0 → after.entries = t.entries

variable (held : t.Held (attached + it.attachedOf))
include held

theorem decRefRbtree_frees
    (rooted : it.Rooted t) : Frees attached t (it.decRefRbtree t) := by
  rw [decRefRbtree]
  by_cases parent : it.parent = true
  · rw [attachedOf_parent parent] at held
    rw [if_pos parent]
    cases here : it.treenode with
    | none =>
      refine ⟨held.decSelfRef, fun others => ?_⟩
      exact (held.decSelfRef_same fun none => absurd none others).same
    | some addr =>
      have inside := (rooted addr here).2
      have counts := held.decRef inside
      refine ⟨counts.held.decSelfRef, fun others => ?_⟩
      have same := (counts.held.decSelfRef_same
        fun none => absurd none others).same
      exact same.trans counts.same
  · rw [attachedOf_free parent] at held
    rw [if_neg parent]
    exact ⟨held, fun _ => rfl⟩

theorem assign_frees (rooted : it.Rooted t) (other : r.Rooted t) :
    Frees (attached + r.attachedOf) t (it.assign r t).2 := by
  have counts := incRefOf_counts held other
  have held : (r.incRefOf t).Held
      (attached + r.attachedOf + it.attachedOf) := by
    have order : attached + it.attachedOf + r.attachedOf =
        attached + r.attachedOf + it.attachedOf := by omega
    rw [← order]
    exact counts.held
  have frees := decRefRbtree_frees held (rooted.of_entries counts.same)
  exact ⟨frees.held, fun others => (frees.same others).trans counts.same⟩

theorem increment_makes
    (rooted : it.Rooted t) : Makes attached t (it.increment t) := by
  rw [increment]
  cases here : it.treenode with
  | none => exact ⟨⟨held, rfl⟩, rooted⟩
  | some addr =>
    obtain ⟨parent, inside⟩ := rooted addr here
    rw [attachedOf_parent parent] at held
    have counts := held.decRef inside
    have stays : addr ∈ (t.decRef addr).2.addresses := by
      rw [addresses_of_entries counts.same]
      exact inside
    obtain ⟨node, found⟩ := node?_of_mem stays
    dsimp only
    rw [found, if_neg (by simp)]
    have behind : ∀ other ∈ (t.decRef addr).2.onwards it.backwards addr,
        other ∈ (t.decRef addr).2.addresses :=
      onwards_inside
    obtain ⟨later, among⟩ := counts.held.seize behind
    refine ⟨?_, fun next taken => ⟨parent, ?_⟩⟩
    · have attached (next : Option Nat) :
          ({ it with treenode := next } : Iterator).attachedOf = 1 :=
        if_pos parent
      rw [attached]
      exact counts.trans later
    · rw [addresses_of_entries later.same]
      exact behind next (among next taken)

end Iterator

end NdNet.RefTree
