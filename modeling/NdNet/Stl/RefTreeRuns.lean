import NdNet.Stl.RefTreeShared

/-!
# When the map of `nd_reftree.h` is a map

While nothing is erased that an iterator could keep from being destroyed, the
map holds the keys that have been inserted and not erased, and its iterators
walk through them in order.  An erase while there is an iterator leaves a node
behind that is counted by `size` and, if the iterator is at it, found.
-/

namespace NdNet.RefTree

open Rbtree Iterator InOrder List

variable {κ ν : Type} [LinearOrder κ] {backwards : Bool}

namespace World

/-- The keys an iterator comes to until it is at no node, if that many steps are
enough. -/
def visits (i : Nat) : Nat → World κ ν → Option (List κ)
  | 0, _ => none
  | steps + 1, w =>
    match (w.iterator i).bind fun it => it.key w.tree with
    | none => some []
    | some key =>
      (visits i steps (w.step (.increment i))).map fun keys => key :: keys

/-- The map holds the keys that have been inserted and not erased; its iterators
walk through them in order; each node is destroyed once, and only when no
iterator is at it. -/
structure Sound (w : World κ ν) : Prop where
  size : w.tree.count = w.kept.card
  found : ∀ key, (w.tree.find key).1.key (w.tree.find key).2 =
    if key ∈ w.kept then some key else none
  erasedOnce : ∀ key, key ∉ w.kept → (w.tree.eraseKey key).1 = false
  first : FirstOf (inDirection false) {key | key ∈ w.kept}
    (w.tree.beginIterator.1.key w.tree.beginIterator.2)
  last : FirstOf (inDirection true) {key | key ∈ w.kept}
    (w.tree.rbeginIterator.1.key w.tree.rbeginIterator.2)
  next : ∀ i it key, w.iterator i = some it → it.key w.tree = some key →
    FirstOf (inDirection it.backwards)
      {other | other ∈ w.kept ∧ inDirection it.backwards key other}
      ((it.increment w.tree).1.key (it.increment w.tree).2)
  behind : ∀ i it key, w.iterator i = some it → it.key w.tree = some key →
    FirstOf (inDirection it.backwards)
      {other | other ∈ w.kept ∧ inDirection it.backwards key other}
      ((w.tree.eraseAt it).1.key (w.tree.eraseAt it).2)
  forwards : ∃ steps keys,
    (w.step .atBegin).visits w.iterators.length steps = some keys ∧
      keys.Pairwise (inDirection false) ∧ ∀ key, key ∈ keys ↔ key ∈ w.kept
  backwards : ∃ steps keys,
    (w.step .atRbegin).visits w.iterators.length steps = some keys ∧
      keys.Pairwise (inDirection true) ∧ ∀ key, key ∈ keys ↔ key ∈ w.kept
  destroyedOnce : w.tree.destroyed.Nodup
  destroyed_iff : ∀ addr, addr ∈ w.tree.destroyed ↔
    addr < w.tree.created ∧ addr ∉ w.tree.addresses
  unwatched : ∀ i it addr, w.iterator i = some it →
    it.treenode = some addr → addr ∉ w.tree.destroyed
  whole : w.tree.misused = false

def AlwaysSound (inputs : List (Input κ ν)) : Prop :=
  ∀ w ∈ Runs.states step (empty : World κ ν) inputs, w.Sound

/-- No key that is there is erased while there is an iterator on the map, and
none through an iterator. -/
def Unwatched (w : World κ ν) : Input κ ν → Prop
  | .erase key => w.tree.search key = none ∨ w.tree.selfRef = 0
  | .eraseAt i => w.iterator i = none
  | _ => True

def heldAt (addr : Nat) (it : Iterator) : Nat :=
  refOf it.treenode addr

/-- Each node has a reference of the map and those of the iterators at it, and
the nodes hold the keys that are kept. -/
structure Plain (w : World κ ν) : Prop where
  safe : w.Safe
  shared : w.tree.Shared fun addr => total (heldAt addr) w.iterators
  kept : ∀ key, key ∈ w.kept ↔ key ∈ w.tree.header.map RbtreeNode.first

variable {w : World κ ν} {i : Nat} {it : Iterator}
  {result : Iterator × Rbtree κ ν} {t : Rbtree κ ν}

theorem plain_push {kept : Finset κ} (safe : (w.push result).Safe)
    (shared : result.2.Shared fun addr =>
      total (heldAt addr) w.iterators + refOf result.1.treenode addr)
    (keys : ∀ key, key ∈ kept ↔ key ∈ result.2.header.map RbtreeNode.first) :
    Plain { w.push result with kept := kept } where
  safe := safe.of_kept
  shared := shared.congr fun addr =>
    (total_append (heldAt addr) w.iterators result.1).symm
  kept := keys

section

variable (plain : w.Plain)
include plain

theorem Plain.push_makes
    (makes : Makes (total attachedOf w.iterators) w.tree result)
    (shared : result.2.Shared fun addr =>
      total (heldAt addr) w.iterators + refOf result.1.treenode addr) :
    (w.push result).Plain :=
  plain_push (plain.safe.push_makes makes) shared fun key => by
    rw [keys_of_entries makes.counts.same]
    exact plain.kept key

variable (there : w.iterator i = some it)
include there

theorem Plain.put {new : Option Iterator} (safe : (w.put i new t).Safe)
    (shared : t.Shared fun addr =>
      total (heldAt addr) (w.iterators.set i none) + new.elim 0 (heldAt addr))
    (same : t.entries = w.tree.entries) : (w.put i new t).Plain where
  safe := safe
  shared := shared.congr fun addr => by
    have after := total_set (heldAt addr) new there
    have rest := total_set (heldAt addr) none there
    dsimp only [Option.elim_none, World.put] at rest ⊢
    omega
  kept key := by
    change _ ↔ key ∈ t.header.map RbtreeNode.first
    rw [keys_of_entries same]
    exact plain.kept key

theorem Plain.rest :
    w.tree.Held (total attachedOf (w.iterators.set i none) + it.attachedOf) ∧
      (w.tree.Shared fun addr =>
        total (heldAt addr) (w.iterators.set i none) + refOf it.treenode addr) ∧
      it.Rooted w.tree := by
  refine ⟨total_rest there ▸ plain.safe.held, ?_,
    plain.safe.rooted it (mem_of_iterator there)⟩
  exact plain.shared.congr fun addr =>
    (total_set (heldAt addr) none there).symm

theorem Plain.step_assign {j : Nat} {r : Iterator}
    (other : w.iterator j = some r) :
    (w.put i (some (it.assign r w.tree).1) (it.assign r w.tree).2).Plain := by
  obtain ⟨held, shared, rooted⟩ := plain.rest there
  obtain ⟨left, same⟩ := assign_shared held shared rooted
    (plain.safe.rooted r (mem_of_iterator other))
  exact plain.put there (plain.safe.step_assign there other) left same

theorem Plain.step_increment :
    (w.put i (some (it.increment w.tree).1)
      (it.increment w.tree).2).Plain := by
  obtain ⟨held, shared, rooted⟩ := plain.rest there
  exact plain.put there (plain.safe.step_increment there)
    (increment_shared held shared rooted).1
    (increment_makes held rooted).counts.same

theorem Plain.step_destroy :
    (w.put i none (it.decRefRbtree w.tree)).Plain := by
  obtain ⟨held, shared, rooted⟩ := plain.rest there
  obtain ⟨left, same⟩ := decRefRbtree_shared held shared rooted
  exact plain.put there (plain.safe.step_destroy there) left same

end

theorem Safe.unused (safe : w.Safe) :
    total (heldAt w.tree.created) w.iterators = 0 := by
  refine total_eq_zero _ fun it there => if_neg fun here => ?_
  have within := (safe.rooted it there _ here).2
  exact Nat.lt_irrefl _ (safe.held.waits.sane.created _ within)

theorem Safe.free (safe : w.Safe) (none : w.tree.selfRef = 0) (addr : Nat) :
    total (heldAt addr) w.iterators = 0 := by
  refine total_eq_zero _ fun it there => if_neg fun here => ?_
  have parent := (safe.rooted it there _ here).1
  have counted := le_total attachedOf there
  have attached := safe.held.selfRef
  rw [attachedOf_parent parent] at counted
  omega

theorem Plain.step_insert (plain : w.Plain) (key : κ) (value : ν) :
    Plain { w.push (w.tree.insert key value) with
      kept := Insert.insert key w.kept } := by
  have safe := plain.safe
  obtain ⟨held, rooted, stay⟩ := insert_makes safe.held key value
  obtain ⟨shared, keys⟩ := plain.shared.insert safe.held safe.unused key value
  refine plain_push (safe.push held rooted stay) shared fun other => ?_
  rw [Finset.mem_insert, plain.kept, keys]

theorem Plain.step_erase (plain : w.Plain) (key : κ)
    (unwatched : w.Unwatched (.erase key)) :
    (w.step (.erase key)).Plain := by
  have safe := plain.safe.step_erase key
  cases found : w.tree.search key with
  | none =>
    have nothing : w.step (.erase key) = w := by
      rw [step, eraseKey, found]
      rfl
    rw [nothing]
    exact plain
  | some addr =>
    have none : w.tree.selfRef = 0 := by
      rcases unwatched with missing | none
      · rw [found] at missing
        cases missing
      · exact none
    have held : w.tree.Held 0 := by
      have attached := plain.safe.held.selfRef
      rw [none] at attached
      exact attached ▸ plain.safe.held
    obtain ⟨answer, shared, keys⟩ := plain.shared.eraseKey held
      (plain.safe.free none) found
    refine ⟨safe, shared, fun other => ?_⟩
    rw [step]
    rw [answer, if_pos rfl, Finset.mem_erase, plain.kept, keys]

theorem Plain.step (plain : w.Plain) {input : Input κ ν}
    (unwatched : w.Unwatched input) : (w.step input).Plain := by
  have held := plain.safe.held
  have nowhere (backwards : Bool) :
      (w.push (.nowhere backwards, w.tree)).Plain :=
    plain.push_makes (nowhere_makes held backwards) plain.shared
  cases input with
  | insert key value room =>
    rw [World.step]
    split
    · exact plain.step_insert key value
    · exact nowhere false
  | erase key => exact plain.step_erase key unwatched
  | eraseAt i =>
    rw [World.step, show w.iterator i = none from unwatched]
    exact plain
  | find key =>
    exact plain.push_makes (find_makes held key) (plain.shared.find key).2
  | atBegin =>
    obtain ⟨same, shared⟩ := plain.shared.firstOf held
      (fun _ within => within) false
    refine plain.push_makes (beginIterator_makes held) ?_
    rw [beginIterator, same, treenode_iteratorAt]
    exact shared
  | atRbegin =>
    have inside : ∀ addr ∈ w.tree.addresses.getLast?.toList,
        addr ∈ w.tree.addresses := fun addr last =>
      mem_of_getLast? (Option.mem_toList.mp last)
    obtain ⟨same, shared⟩ := plain.shared.firstOf held inside true
    refine plain.push_makes (rbeginIterator_makes held) ?_
    rw [rbeginIterator, same, treenode_iteratorAt]
    exact shared
  | atEnd => exact nowhere false
  | atRend =>
    exact plain.push_makes (rendIterator_makes held) plain.shared
  | copy i =>
    rw [World.step]
    cases there : w.iterator i with
    | none => exact plain
    | some it =>
      have rooted := plain.safe.rooted it (mem_of_iterator there)
      obtain ⟨same, shared⟩ := incRefRbtree_shared plain.shared rooted
      refine plain.push_makes (incRefRbtree_makes held rooted) ?_
      rw [same]
      exact shared
  | assign i j =>
    rw [World.step]
    cases there : w.iterator i with
    | none => exact plain
    | some it =>
      cases other : w.iterator j with
      | none => exact plain
      | some r =>
        dsimp only
        split
        · exact plain.step_assign there other
        · exact plain
  | increment i =>
    rw [World.step]
    cases there : w.iterator i with
    | none => exact plain
    | some it => exact plain.step_increment there
  | destroy i =>
    rw [World.step]
    cases there : w.iterator i with
    | none => exact plain
    | some it => exact plain.step_destroy there

theorem plain_empty : (empty : World κ ν).Plain where
  safe := safe_empty
  shared := nofun
  kept key := iff_of_false (Finset.notMem_empty key) not_mem_nil

def keysOf (entries : List (Nat × κ × ν)) : List κ :=
  entries.map fun entry => entry.2.1

theorem pairwise_keysOf (sane : t.Sane) (backwards : Bool) :
    (keysOf (directed backwards t.entries)).Pairwise
      (inDirection backwards) := by
  have ordered : (keysOf t.entries).Pairwise fun one other => one < other := by
    rw [keysOf, ← keys_eq]
    exact pairwise_map.mpr sane.ordered
  rw [keysOf, map_directed]
  exact pairwise_directed ordered backwards

theorem onwards_eq (sane : t.Sane) {front rest : List (Nat × κ × ν)}
    {entry : Nat × κ × ν}
    (split : directed backwards t.entries = front ++ entry :: rest) :
    t.onwards backwards entry.1 = rest.map Prod.fst := by
  have walk : (if backwards then t.addresses.reverse else t.addresses) =
      (directed backwards t.entries).map Prod.fst := by
    rw [map_directed, ← addresses_eq]
    rfl
  have apart : ((directed backwards t.entries).map Prod.fst).Nodup := by
    rw [map_directed, ← addresses_eq]
    cases backwards with
    | false => exact sane.apart
    | true => exact nodup_reverse.mpr sane.apart
  rw [split, map_append, map_cons] at apart
  have different := (nodup_append.mp apart).2.2
  rw [onwards, walk, split, map_append, map_cons]
  refine behind_append (fun other inside => ?_) (decide_eq_true rfl)
  exact decide_eq_false (different other inside entry.1 mem_cons_self)

theorem key_head? (sane : t.Sane) {rest : List (Nat × κ × ν)}
    (inside : ∀ entry ∈ rest, entry ∈ t.entries)
    (here : it.treenode = (rest.map Prod.fst).head?) :
    it.key t = (keysOf rest).head? := by
  cases rest with
  | nil =>
    rw [Iterator.key, here]
    rfl
  | cons entry rest =>
    exact key_of_entry sane.apart (inside entry mem_cons_self) here

variable (plain : w.Plain)
include plain

theorem Plain.mem_iff (backwards : Bool) (key : κ) :
    key ∈ w.kept ↔ key ∈ keysOf (directed backwards w.tree.entries) := by
  rw [plain.kept, keys_eq, keysOf, map_directed, mem_directed]

theorem Plain.firstOf {result : Iterator × Rbtree κ ν}
    (made : result.1 = iteratorAt backwards
      ((directed backwards w.tree.entries).map Prod.fst).head?)
    (same : result.2.entries = w.tree.entries) :
    FirstOf (inDirection backwards) {key | key ∈ w.kept}
      (result.1.key result.2) := by
  have sane := plain.safe.held.waits.sane
  have kept : {key | key ∈ w.kept} =
      {key | key ∈ keysOf (directed backwards w.tree.entries)} := by
    ext key
    exact plain.mem_iff backwards key
  rw [key_of_entries same, made, kept,
    key_head? sane (fun entry => (mem_directed backwards).mp)
      (treenode_iteratorAt backwards _)]
  exact firstOf_head? (pairwise_keysOf sane backwards)

theorem Plain.begins :
    w.tree.beginIterator.1 = iteratorAt false
        ((directed false w.tree.entries).map Prod.fst).head? ∧
      w.tree.beginIterator.2.entries = w.tree.entries := by
  have held := plain.safe.held
  refine ⟨?_, (beginIterator_makes held).counts.same⟩
  have made := (plain.shared.firstOf held (fun _ within => within) false).1
  rw [addresses_eq] at made
  rw [beginIterator, addresses_eq]
  exact made

theorem Plain.rbegins :
    w.tree.rbeginIterator.1 = iteratorAt true
        ((directed true w.tree.entries).map Prod.fst).head? ∧
      w.tree.rbeginIterator.2.entries = w.tree.entries := by
  have held := plain.safe.held
  refine ⟨?_, (rbeginIterator_makes held).counts.same⟩
  have inside : ∀ addr ∈ w.tree.addresses.getLast?.toList,
      addr ∈ w.tree.addresses := fun addr last =>
    mem_of_getLast? (Option.mem_toList.mp last)
  have made := (plain.shared.firstOf held inside true).1
  have last : w.tree.addresses.getLast?.toList.head? =
      ((directed true w.tree.entries).map Prod.fst).head? := by
    rw [map_directed, ← addresses_eq]
    change _ = w.tree.addresses.reverse.head?
    rw [head?_reverse]
    cases w.tree.addresses.getLast? <;> rfl
  rw [last] at made
  exact made

theorem Plain.after {key : κ} (stands : it.key w.tree = some key) :
    ∃ front entry rest, directed it.backwards w.tree.entries =
        front ++ entry :: rest ∧
      it.treenode = some entry.1 ∧ entry.2.1 = key ∧
      ∀ result : Iterator × Rbtree κ ν, result.2.entries = w.tree.entries →
        result.1.treenode = (w.tree.onwards it.backwards entry.1).head? →
        FirstOf (inDirection it.backwards)
          {other | other ∈ w.kept ∧ inDirection it.backwards key other}
          (result.1.key result.2) := by
  have sane := plain.safe.held.waits.sane
  obtain ⟨entry, inside, here, rfl⟩ := entry_of_key stands
  obtain ⟨front, rest, split⟩ :=
    append_of_mem ((mem_directed it.backwards).mpr inside)
  refine ⟨front, entry, rest, split, here, rfl, fun result same moved => ?_⟩
  have ordered := pairwise_keysOf sane it.backwards
  have kept : {other | other ∈ w.kept ∧
        inDirection it.backwards entry.2.1 other} =
      {other | other ∈ keysOf front ++ entry.2.1 :: keysOf rest ∧
        inDirection it.backwards entry.2.1 other} := by
    ext other
    change other ∈ w.kept ∧ _ ↔ _
    rw [plain.mem_iff it.backwards, split, keysOf, map_append, map_cons]
    rfl
  rw [split, keysOf, map_append, map_cons] at ordered
  rw [onwards_eq sane split] at moved
  rw [key_of_entries same, kept, key_head? sane (fun other later => ?_) moved]
  · exact firstOf_after ordered
  · rw [← mem_directed it.backwards, split]
    exact mem_append_right _ (mem_cons_of_mem _ later)

theorem Plain.visits {front rest : List (Nat × κ × ν)}
    (there : w.iterator i = some it)
    (split : directed it.backwards w.tree.entries = front ++ rest)
    (here : it.treenode = (rest.map Prod.fst).head?) :
    w.visits i (rest.length + 1) = some (keysOf rest) := by
  induction rest generalizing w it front with
  | nil =>
    have nowhere : it.key w.tree = none := by
      rw [Iterator.key, here]
      rfl
    rw [World.visits, there, Option.bind_some, nowhere]
    rfl
  | cons entry rest induction =>
    have sane := plain.safe.held.waits.sane
    obtain ⟨held, shared, rooted⟩ := plain.rest there
    have inside : entry ∈ w.tree.entries := by
      rw [← mem_directed it.backwards, split]
      exact mem_append_right _ mem_cons_self
    have stands := key_of_entry sane.apart inside here
    have moved := (increment_shared held shared rooted).2
    have same := (increment_makes held rooted).counts.same
    have stepped : w.step (.increment i) =
        w.put i (some (it.increment w.tree).1) (it.increment w.tree).2 := by
      rw [World.step, there]
    have later : (w.step (.increment i)).iterator i =
        some (it.increment w.tree).1 := by
      rw [stepped, World.put, iterator]
      have within : i < w.iterators.length := by
        by_contra outside
        rw [iterator, getElem?_eq_none (not_lt.mp outside)] at there
        cases there
      rw [getElem?_set_self within]
      rfl
    have onward : directed (it.increment w.tree).1.backwards
        (w.step (.increment i)).tree.entries = (front ++ [entry]) ++ rest := by
      rw [stepped, moved]
      change directed it.backwards (it.increment w.tree).2.entries = _
      rw [same, split, append_assoc, singleton_append]
    have reached : (it.increment w.tree).1.treenode =
        (rest.map Prod.fst).head? := by
      rw [moved]
      rw [here, map_cons, head?_cons, Option.bind_some, onwards_eq sane split]
    have next := induction (stepped ▸ plain.step_increment there) later
      onward reached
    rw [World.visits, there, Option.bind_some, stands]
    rw [length_cons, next]
    rfl

theorem Plain.walks {result : Iterator × Rbtree κ ν}
    (after : (w.push result).Plain)
    (made : result.1 = iteratorAt backwards
      ((directed backwards w.tree.entries).map Prod.fst).head?)
    (same : result.2.entries = w.tree.entries) :
    ∃ steps keys,
      (w.push result).visits w.iterators.length steps = some keys ∧
        keys.Pairwise (inDirection backwards) ∧ ∀ key, key ∈ keys ↔ key ∈ w.kept := by
  have there : (w.push result).iterator w.iterators.length =
      some result.1 := by
    rw [iterator, push, getElem?_concat_length]
    rfl
  have direction : result.1.backwards = backwards := by
    rw [made]
    cases ((directed backwards w.tree.entries).map Prod.fst).head? <;> rfl
  have split : directed result.1.backwards (w.push result).tree.entries =
      [] ++ directed backwards w.tree.entries := by
    rw [direction]
    exact congrArg _ same
  refine ⟨_, _, after.visits there split ?_, ?_, fun key => ?_⟩
  · rw [made, treenode_iteratorAt]
  · exact pairwise_keysOf plain.safe.held.waits.sane backwards
  · exact (plain.mem_iff backwards key).symm

theorem Plain.card :
    w.kept.card = w.tree.header.length := by
  have apart : (w.tree.header.map RbtreeNode.first).Nodup :=
    (pairwise_map.mpr plain.safe.held.waits.sane.ordered).imp
      fun before => before.ne
  have same : w.kept = (w.tree.header.map RbtreeNode.first).toFinset := by
    ext key
    rw [mem_toFinset, plain.kept]
  rw [same, toFinset_card_of_nodup apart, length_map]

theorem Plain.found (key : κ) :
    (w.tree.find key).1.key (w.tree.find key).2 =
      if key ∈ w.kept then some key else none := by
  have sane := plain.safe.held.waits.sane
  have made := (plain.shared.find key).1
  have same := (find_makes plain.safe.held key).counts.same
  rw [key_of_entries same, made]
  cases found : w.tree.holder key with
  | none =>
    have missing := holder_none_iff.mp found
    rw [← plain.kept] at missing
    rw [if_neg missing]
    rfl
  | some node =>
    obtain ⟨there, rfl⟩ := holder_some found
    have kept : node.first ∈ w.kept :=
      (plain.kept _).mpr (mem_map_of_mem there)
    have inside : (node.id, node.first, node.second) ∈ w.tree.entries :=
      mem_map_of_mem there
    rw [if_pos kept]
    exact key_of_entry sane.apart inside rfl

theorem Plain.erasedOnce {key : κ}
    (missing : key ∉ w.kept) : (w.tree.eraseKey key).1 = false := by
  rw [plain.kept, ← holder_none_iff] at missing
  rw [eraseKey, plain.shared.search, missing]
  rfl

theorem Plain.sound : w.Sound := by
  have held := plain.safe.held
  have sane := held.waits.sane
  refine
    { size := by rw [plain.card, sane.size]
      found := plain.found
      erasedOnce := fun key missing => plain.erasedOnce missing
      first := plain.firstOf plain.begins.1 plain.begins.2
      last := plain.firstOf plain.rbegins.1 plain.rbegins.2
      next := fun i it key there stands => ?_
      behind := fun i it key there stands => ?_
      forwards := ?_
      backwards := ?_
      destroyedOnce := sane.destroyedOnce
      destroyed_iff := sane.destroyed_iff
      unwatched := fun i it addr there here destroyed => ?_
      whole := sane.whole }
  · obtain ⟨held, shared, rooted⟩ := plain.rest there
    obtain ⟨front, entry, rest, -, here, -, moves⟩ := plain.after stands
    refine moves _ (increment_makes held rooted).counts.same ?_
    rw [(increment_shared held shared rooted).2, here]
    rfl
  · obtain ⟨held, shared, rooted⟩ := plain.rest there
    obtain ⟨front, entry, rest, -, here, -, moves⟩ := plain.after stands
    have somewhere : it.treenode ≠ none := by
      rw [here]
      exact Option.some_ne_none entry.1
    refine moves _ (eraseAt_makes held rooted somewhere).counts.same ?_
    have one := attachedOf_parent (rooted entry.1 here).1
    rw [one] at held
    rw [Shared.eraseAt held shared rooted here, treenode_iteratorAt]
  · have begun : (w.step .atBegin).Plain := plain.step trivial
    exact plain.walks begun plain.begins.1 plain.begins.2
  · have begun : (w.step .atRbegin).Plain := plain.step trivial
    exact plain.walks begun plain.rbegins.1 plain.rbegins.2
  · have inside := (plain.safe.rooted it (mem_of_iterator there) addr here).2
    exact ((sane.destroyed_iff addr).mp destroyed).2 inside

theorem Plain.not_sound {after : World κ ν} (safe : after.Safe)
    (same : after.tree.entries = w.tree.entries) {key : κ}
    (there : key ∈ w.kept) (erased : after.kept = w.kept.erase key) :
    ¬ after.Sound := by
  intro sound
  have lengths := congrArg length same
  rw [entries, entries, length_map, length_map] at lengths
  have counted := safe.held.waits.sane.size
  have size := sound.size
  have card := Finset.card_erase_of_mem there
  have positive := Finset.card_pos.mpr ⟨key, there⟩
  have before := plain.card
  rw [erased] at size
  omega

theorem Plain.broken {input : Input κ ν}
    (watched : ¬ w.Unwatched input) : ¬ (w.step input).Sound := by
  have safe := plain.safe
  cases input with
  | insert | find | atBegin | atRbegin | atEnd | atRend | copy | assign |
      increment | destroy => exact absurd trivial watched
  | erase key =>
    obtain ⟨there, watching⟩ := not_or.mp watched
    obtain ⟨addr, found⟩ := Option.ne_none_iff_exists'.mp there
    obtain ⟨node, inside, rfl, rfl, alive⟩ := search_some found
    have frees := eraseKey_frees safe.held node.first
    have attached := safe.held.selfRef
    have same := frees.same (by omega)
    have look := node?_of_header safe.held.waits.sane.apart inside
    have answer : (w.tree.eraseKey node.first).1 = true := by
      rw [eraseKey, found]
      dsimp only
      rw [decRef, look]
      dsimp only
      rw [if_neg alive]
    refine plain.not_sound (safe.step_erase node.first) same
      ((plain.kept _).mpr (mem_map_of_mem inside)) ?_
    rw [World.step]
    rw [answer, if_pos rfl]
  | eraseAt i =>
    obtain ⟨it, there⟩ := Option.ne_none_iff_exists'.mp watched
    have stepped : w.step (.eraseAt i) =
        { w.push (w.tree.eraseAt it) with
          kept := (it.key w.tree).elim w.kept w.kept.erase } := by
      rw [World.step, there]
    rw [stepped]
    cases here : it.treenode with
    | none =>
      intro sound
      have whole := sound.whole
      rw [World.push, eraseAt, here] at whole
      cases whole
    | some addr =>
      obtain ⟨held, shared, rooted⟩ := plain.rest there
      have somewhere : it.treenode ≠ none := by
        rw [here]
        exact Option.some_ne_none addr
      have within := (rooted addr here).2
      rw [addresses_eq] at within
      obtain ⟨entry, inside, rfl⟩ := mem_map.mp within
      have stands := key_of_entry safe.held.waits.sane.apart inside here
      have kept : entry.2.1 ∈ w.kept := by
        rw [plain.kept, keys_eq]
        exact mem_map_of_mem inside
      refine plain.not_sound (safe.step_eraseAt there somewhere).of_kept
        (eraseAt_makes held rooted somewhere).counts.same kept ?_
      rw [stands]
      rfl

end World

/-- A map is sound in every state of a run exactly if no key that is there is
erased while there is an iterator on the map. -/
theorem refTree_sound_iff (inputs : List (Input κ ν)) :
    World.AlwaysSound inputs ↔
      Runs.Meets World.step World.Unwatched World.empty inputs := by
  have legal : Runs.Meets World.step (fun _ _ => True)
      (World.empty : World κ ν) inputs :=
    Runs.meets_of_forall (fun _ _ => trivial) _ _
  exact Runs.law_iff_meets (fun _ plain => plain.sound)
    (fun _ _ plain _ unwatched => plain.step unwatched)
    (fun _ _ plain _ watched => plain.broken watched) World.plain_empty legal

/-- Two keys are inserted, and one is erased while there is an iterator at the
first. -/
def watchedErase (erased : Nat) : World Nat Unit :=
  [.insert 1 () true, .insert 2 () true, .destroy 1, .erase erased].foldl
    World.step World.empty

/-- The first key is still found and erased once more.  When it is the last that
has been erased, nothing is visited backwards. -/
theorem watchedErase_not_sound :
    ¬ World.AlwaysSound (κ := Nat) (ν := Unit)
        [.insert 1 () true, .insert 2 () true, .destroy 1, .erase 1] ∧
      1 ∉ (watchedErase 1).kept ∧
      (((watchedErase 1).tree.find 1).1.key
        ((watchedErase 1).tree.find 1).2) = some 1 ∧
      ((watchedErase 1).tree.eraseKey 1).1 = true ∧
      (watchedErase 1).tree.count = 2 ∧
      (watchedErase 2).kept = {1} ∧
      (watchedErase 2).tree.rbeginIterator.1 = .nowhere true := by
  refine ⟨fun always => ?_, by decide, by decide, by decide, by decide,
    by decide, by decide⟩
  have sound : (watchedErase 1).Sound :=
    always _ (Runs.foldl_mem_states _ _ _)
  exact absurd (sound.found 1) (by decide)

end NdNet.RefTree
