import NdNet.Stl.RefTreeSafe

/-!
# Nodes that have the reference of the map

As long as each node has one reference more than there are iterators at it, no
node waits: what `inc_ref` is asked for it takes, what `dec_ref` gives back is
not the last, and a key that is there is found.
-/

namespace NdNet.RefTree

open Rbtree Iterator InOrder List

variable {κ ν : Type}

def refOf (treenode : Option Nat) (addr : Nat) : Nat :=
  if treenode = some addr then 1 else 0

namespace Rbtree

variable {t after : Rbtree κ ν} {refs : Nat → Nat} {addr : Nat}

def Shared (refs : Nat → Nat) (t : Rbtree κ ν) : Prop :=
  ∀ node ∈ t.header, node.refCount = 1 + refs node.id

theorem Shared.congr (shared : t.Shared refs) {refs' : Nat → Nat}
    (same : ∀ addr, refs addr = refs' addr) : t.Shared refs' :=
  fun node there => (shared node there).trans (by rw [same])

theorem Shared.of_header (shared : t.Shared refs)
    (same : after.header = t.header) : after.Shared refs := by
  rw [Shared, same]
  exact shared

theorem entries_of_header (same : after.header = t.header) :
    after.entries = t.entries := by
  rw [entries, entries, same]

theorem Shared.setRef (shared : t.Shared refs) {refs' : Nat → Nat}
    (others : ∀ other, other ≠ addr → refs other = refs' other) :
    (t.setRef addr (1 + refs' addr)).Shared refs' := by
  intro node there
  rcases mem_setRef_iff.mp there with ⟨elsewhere, there⟩ | ⟨here, counted, -⟩
  · rw [shared node there, others node.id elsewhere]
  · rw [counted, here]

theorem Shared.incRef (shared : t.Shared refs) (inside : addr ∈ t.addresses) :
    (t.incRef addr).1 = true ∧
      (t.incRef addr).2.Shared fun other =>
        refs other + refOf (some addr) other := by
  obtain ⟨node, found⟩ := node?_of_mem inside
  obtain ⟨there, rfl⟩ := node?_some found
  have counted := shared node there
  rw [incRef, found]
  dsimp only
  rw [if_neg (by omega), counted]
  refine ⟨rfl, ?_⟩
  have own : refOf (some node.id) node.id = 1 := if_pos rfl
  have adds : (t.setRef node.id
      (1 + (refs node.id + refOf (some node.id) node.id))).Shared
        fun other => refs other + refOf (some node.id) other := by
    refine shared.setRef fun other different => ?_
    rw [refOf, if_neg fun same => different (Option.some.inj same).symm]
    rfl
  rw [own, ← Nat.add_assoc] at adds
  exact adds

theorem Shared.seize (shared : t.Shared refs) {nodes : List Nat}
    (inside : ∀ addr ∈ nodes, addr ∈ t.addresses) :
    (t.seize nodes).1 = nodes.head? ∧
      (t.seize nodes).2.Shared fun other =>
        refs other + refOf nodes.head? other := by
  cases nodes with
  | nil => exact ⟨rfl, shared⟩
  | cons addr nodes =>
    obtain ⟨taken, counted⟩ := shared.incRef
      (inside addr mem_cons_self)
    rw [Rbtree.seize, if_pos taken]
    exact ⟨rfl, counted⟩

variable [LinearOrder κ] {attached : Nat}

theorem Shared.delList (shared : t.Shared refs) (waits : t.Waits) :
    t.delList = [] := by
  refine eq_nil_iff_forall_not_mem.mpr fun addr waiting => ?_
  obtain ⟨node, there, -, zero⟩ := (waits.iff_zero addr).mp waiting
  have counted := shared node there
  omega

theorem Shared.decSelfRef (shared : t.Shared refs)
    (held : t.Held (attached + 1)) :
    t.decSelfRef.header = t.header :=
  held.header_decSelfRef fun _ => shared.delList held.waits

theorem Shared.decRef (held : t.Held attached)
    (shared : t.Shared fun other => refs other + refOf (some addr) other)
    (inside : addr ∈ t.addresses) :
    (t.decRef addr).1 = true ∧ (t.decRef addr).2.Shared refs ∧
      Counts attached t (t.decRef addr).2 := by
  obtain ⟨node, found⟩ := node?_of_mem inside
  obtain ⟨there, rfl⟩ := node?_some found
  have own : refOf (some node.id) node.id = 1 := if_pos rfl
  have counted : node.refCount =
      1 + (refs node.id + refOf (some node.id) node.id) :=
    shared node there
  obtain ⟨result, counts⟩ := held.decRef_shared found (by omega)
  rw [result]
  refine ⟨rfl, ?_, counts⟩
  have left : node.refCount - 1 = 1 + refs node.id := by omega
  rw [left]
  refine shared.setRef fun other different => ?_
  rw [refOf, if_neg fun same => different (Option.some.inj same).symm]
  rfl

end Rbtree

namespace Iterator

variable {t : Rbtree κ ν} {refs : Nat → Nat} {attached : Nat}
  {it r : Iterator}

theorem incRefRbtree_shared (shared : t.Shared refs) (rooted : it.Rooted t) :
    (it.incRefRbtree t).1 = it ∧
      (it.incRefRbtree t).2.Shared fun other =>
        refs other + refOf it.treenode other := by
  rw [incRefRbtree]
  cases here : it.treenode with
  | none =>
    split <;> exact ⟨rfl, shared⟩
  | some addr =>
    obtain ⟨parent, inside⟩ := rooted addr here
    have shared : t.incSelfRef.Shared refs := shared
    obtain ⟨taken, counted⟩ := shared.incRef inside
    rw [if_pos parent]
    dsimp only
    rw [taken, if_pos rfl]
    exact ⟨rfl, counted⟩

theorem incRefOf_shared (shared : t.Shared refs) (rooted : it.Rooted t) :
    (it.incRefOf t).Shared fun other =>
      refs other + refOf it.treenode other := by
  rw [incRefOf]
  cases here : it.treenode with
  | none =>
    split <;> exact shared
  | some addr =>
    obtain ⟨parent, inside⟩ := rooted addr here
    have shared : t.incSelfRef.Shared refs := shared
    rw [if_pos parent]
    exact (shared.incRef inside).2

theorem onwards_of_entries {after : Rbtree κ ν}
    (same : after.entries = t.entries) (backwards : Bool) (addr : Nat) :
    after.onwards backwards addr = t.onwards backwards addr := by
  rw [onwards, onwards, addresses_of_entries same]

variable [LinearOrder κ]

theorem decRefRbtree_shared (held : t.Held (attached + it.attachedOf))
    (shared : t.Shared fun other => refs other + refOf it.treenode other)
    (rooted : it.Rooted t) :
    (it.decRefRbtree t).Shared refs ∧
      (it.decRefRbtree t).entries = t.entries := by
  rw [decRefRbtree]
  by_cases parent : it.parent = true
  · rw [attachedOf_parent parent] at held
    rw [if_pos parent]
    cases here : it.treenode with
    | none =>
      rw [here] at shared
      have header := shared.decSelfRef held
      exact ⟨shared.of_header header, entries_of_header header⟩
    | some addr =>
      rw [here] at shared
      obtain ⟨-, counted, counts⟩ := Shared.decRef held shared
        (rooted addr here).2
      have header := counted.decSelfRef counts.held
      exact ⟨counted.of_header header,
        (entries_of_header header).trans counts.same⟩
  · rw [if_neg parent]
    refine ⟨shared.congr fun other => ?_, rfl⟩
    rw [refOf, if_neg fun here => parent (rooted other here).1]
    rfl

theorem assign_shared (held : t.Held (attached + it.attachedOf))
    (shared : t.Shared fun other => refs other + refOf it.treenode other)
    (rooted : it.Rooted t) (other : r.Rooted t) :
    ((it.assign r t).2.Shared fun other =>
        refs other + refOf r.treenode other) ∧
      (it.assign r t).2.entries = t.entries := by
  have counts := incRefOf_counts held other
  have counted := incRefOf_shared shared other
  have held : (r.incRefOf t).Held
      (attached + r.attachedOf + it.attachedOf) := by
    have order : attached + it.attachedOf + r.attachedOf =
        attached + r.attachedOf + it.attachedOf := by omega
    rw [← order]
    exact counts.held
  have swapped : (r.incRefOf t).Shared fun other =>
      refs other + refOf r.treenode other + refOf it.treenode other :=
    counted.congr fun other => by omega
  obtain ⟨left, same⟩ := decRefRbtree_shared held swapped
    (rooted.of_entries counts.same)
  exact ⟨left, same.trans counts.same⟩

theorem increment_shared (held : t.Held attached)
    (shared : t.Shared fun other => refs other + refOf it.treenode other)
    (rooted : it.Rooted t) :
    ((it.increment t).2.Shared fun other =>
        refs other + refOf (it.increment t).1.treenode other) ∧
      (it.increment t).1 =
        { it with treenode := it.treenode.bind fun addr =>
            (t.onwards it.backwards addr).head? } := by
  rw [increment]
  cases here : it.treenode with
  | none =>
    dsimp only
    refine ⟨shared, ?_⟩
    rw [Option.bind_none, ← here]
  | some addr =>
    rw [here] at shared
    have inside := (rooted addr here).2
    obtain ⟨-, counted, counts⟩ := Shared.decRef held shared inside
    have stays : addr ∈ (t.decRef addr).2.addresses := by
      rw [addresses_of_entries counts.same]
      exact inside
    obtain ⟨node, found⟩ := node?_of_mem stays
    have behind : ∀ other ∈ (t.decRef addr).2.onwards it.backwards addr,
        other ∈ (t.decRef addr).2.addresses :=
      onwards_inside
    obtain ⟨taken, left⟩ := counted.seize behind
    dsimp only
    rw [found, if_neg (by simp), Option.bind_some,
      ← onwards_of_entries counts.same, taken]
    exact ⟨left, rfl⟩

end Iterator

namespace Rbtree

variable {t : Rbtree κ ν} {refs : Nat → Nat} {addr : Nat}
  {node : RbtreeNode κ ν}

def holder [DecidableEq κ] (key : κ) (t : Rbtree κ ν) :
    Option (RbtreeNode κ ν) :=
  t.header.find? fun node => node.first = key

def iteratorAt (backwards : Bool) : Option Nat → Iterator
  | none => .nowhere backwards
  | some addr => ⟨some addr, true, backwards⟩

@[simp]
theorem treenode_iteratorAt (backwards : Bool) (addr : Option Nat) :
    (iteratorAt backwards addr).treenode = addr := by
  cases addr <;> rfl

variable [LinearOrder κ] {attached : Nat} {key : κ}

theorem holder_some (found : t.holder key = some node) :
    node ∈ t.header ∧ node.first = key := by
  have here : decide (node.first = key) = true :=
    find?_some (p := fun node : RbtreeNode κ ν =>
      decide (node.first = key)) found
  exact ⟨mem_of_find?_eq_some found, of_decide_eq_true here⟩

theorem holder_none_iff :
    t.holder key = none ↔ key ∉ t.header.map RbtreeNode.first := by
  rw [holder, find?_eq_none, mem_map]
  simp

theorem Shared.search (shared : t.Shared refs) (key : κ) :
    t.search key = (t.holder key).map RbtreeNode.id := by
  rw [Rbtree.search]
  cases found : t.holder key with
  | none =>
    rw [holder] at found
    rw [found]
    rfl
  | some node =>
    have counted := shared node (holder_some found).1
    rw [holder] at found
    rw [found]
    dsimp only
    rw [if_neg (by omega), Option.map_some]

theorem Shared.firstOf (shared : t.Shared refs) (held : t.Held attached)
    {nodes : List Nat} (inside : ∀ addr ∈ nodes, addr ∈ t.addresses)
    (backwards : Bool) :
    (t.firstOf backwards nodes).1 = iteratorAt backwards nodes.head? ∧
      (t.firstOf backwards nodes).2.Shared fun other =>
        refs other + refOf nodes.head? other := by
  have counts := (held.incSelfRef.seize inside).1
  have shared' : t.incSelfRef.Shared refs := shared
  obtain ⟨taken, counted⟩ := shared'.seize inside
  have header := counted.decSelfRef counts.held
  have left := counted.of_header header
  have dropped := counts.held.decSelfRef
  rw [Rbtree.firstOf, taken]
  cases nodes with
  | nil => exact ⟨rfl, left⟩
  | cons addr nodes =>
    have here : addr ∈
        (t.incSelfRef.seize (addr :: nodes)).2.decSelfRef.addresses := by
      rw [addresses_of_entries (entries_of_header header),
        addresses_of_entries counts.same]
      exact inside addr mem_cons_self
    obtain ⟨found, again, later⟩ := Shared.decRef dropped left here
    have rooted : Rooted ⟨some addr, true, backwards⟩
        ((t.incSelfRef.seize (addr :: nodes)).2.decSelfRef.decRef
          addr).2 := by
      intro other same
      cases same
      refine ⟨rfl, ?_⟩
      rw [addresses_of_entries later.same]
      exact here
    rw [head?_cons]
    dsimp only
    rw [found, if_pos rfl]
    exact incRefRbtree_shared again rooted

theorem Shared.find (shared : t.Shared refs) (key : κ) :
    (t.find key).1 = iteratorAt false ((t.holder key).map RbtreeNode.id) ∧
      (t.find key).2.Shared fun other =>
        refs other + refOf (t.find key).1.treenode other := by
  rw [Rbtree.find, shared.search]
  cases found : t.holder key with
  | none => exact ⟨rfl, shared⟩
  | some node =>
    have inside := mem_map_of_mem (f := RbtreeNode.id)
      (holder_some found).1
    have rooted : Rooted ⟨some node.id, true, false⟩ t := by
      intro other same
      cases same
      exact ⟨rfl, inside⟩
    obtain ⟨same, counted⟩ := incRefRbtree_shared shared rooted
    rw [Option.map_some]
    rw [same]
    exact ⟨rfl, counted⟩

theorem Shared.eraseAt (held : t.Held (attached + 1)) {it : Iterator}
    (shared : t.Shared fun other => refs other + refOf it.treenode other)
    (rooted : it.Rooted t) (here : it.treenode = some addr) :
    (t.eraseAt it).1 =
      iteratorAt it.backwards (t.onwards it.backwards addr).head? := by
  rw [here] at shared
  obtain ⟨-, counted, counts⟩ := Shared.decRef held shared
    (rooted addr here).2
  rw [Rbtree.eraseAt, here]
  dsimp only
  cases next : (t.onwards it.backwards addr).head? with
  | none => rfl
  | some other =>
    refine (incRefRbtree_shared counted ?_).1
    intro address same
    cases same
    refine ⟨rfl, ?_⟩
    rw [addresses_of_entries counts.same]
    exact onwards_inside other (mem_of_head? next)

theorem Shared.insert (shared : t.Shared refs) (held : t.Held attached)
    (unused : refs t.created = 0) (key : κ) (value : ν) :
    ((t.insert key value).2.Shared fun other =>
        refs other + refOf (t.insert key value).1.treenode other) ∧
      ∀ other, other ∈ (t.insert key value).2.header.map RbtreeNode.first ↔
        other = key ∨ other ∈ t.header.map RbtreeNode.first := by
  have flushed : ({ t with created := t.created + 1 } :
      Rbtree κ ν).selfRef = 0 → t.delList = [] := fun none =>
    held.flushed (held.selfRef.symm.trans none)
  rw [Rbtree.insert, insertNode_eq flushed]
  by_cases there : (t.header.any fun other => other.first = key) = true
  · rw [if_pos there]
    refine ⟨shared, fun other => ⟨.inr, ?_⟩⟩
    rintro (rfl | inside)
    · obtain ⟨node, inside, same⟩ := any_eq_true.mp there
      exact mem_map.mpr ⟨node, inside, of_decide_eq_true same⟩
    · exact inside
  · rw [if_neg there, if_pos rfl]
    have added : ({ t with created := t.created + 1 }.add
        ⟨t.created, 0, key, value⟩).Shared refs := by
      intro node inside
      rcases mem_add_iff.mp inside with rfl | inside
      · rw [unused]
      · exact shared node inside
    have rooted : Rooted ⟨some t.created, true, false⟩
        ({ t with created := t.created + 1 }.add
          ⟨t.created, 0, key, value⟩) := by
      intro addr same
      cases same
      exact ⟨rfl, mem_map.mpr ⟨_, mem_add_iff.mpr (.inl rfl), rfl⟩⟩
    have new : ∀ other ∈ t.header, other.first ≠ key := by
      intro other inside same
      exact there (any_eq_true.mpr ⟨other, inside, decide_eq_true same⟩)
    have heldAdded : Held attached ({ t with created := t.created + 1 }.add
        ⟨t.created, 0, key, value⟩) :=
      ⟨held.waits.add rfl new, held.selfRef, held.flushed⟩
    obtain ⟨same, counted⟩ := incRefRbtree_shared added rooted
    have entries := (incRefRbtree_makes heldAdded rooted).counts.same
    rw [same]
    refine ⟨counted, fun other => ?_⟩
    rw [keys_of_entries entries]
    have order := (perm_add (t := { t with created := t.created + 1 })
      ⟨t.created, 0, key, value⟩).map RbtreeNode.first
    rw [order.mem_iff, map_cons, mem_cons]

/-- The last reference to a node is that of the map: it is destroyed. -/
theorem Held.decRef_last (held : t.Held 0) (found : t.node? addr = some node)
    (last : node.refCount = 1) :
    (t.decRef addr).1 = true ∧ ∀ other,
      other ∈ (t.decRef addr).2.header ↔
        other ∈ t.header ∧ other.id ≠ addr := by
  have waits := held.waits.wait found (by omega)
  have result : t.decRef addr = (true, trytoErase
      { t.setRef addr 0 with delList := addr :: t.delList }) := by
    rw [Rbtree.decRef, found]
    dsimp only
    rw [last, if_neg (by decide), if_pos rfl, addtoEraseList]
    exact congrArg (Prod.mk true) (if_pos held.selfRef)
  rw [result, trytoErase_eq waits.once waits.inside]
  refine ⟨rfl, fun other => ?_⟩
  rw [mem_filter, held.flushed rfl, decide_eq_true_iff,
    mem_singleton, mem_setRef_iff]
  constructor
  · rintro ⟨⟨elsewhere, there⟩ | ⟨here, -⟩, stays⟩
    · exact ⟨there, elsewhere⟩
    · exact absurd here stays
  · rintro ⟨there, elsewhere⟩
    exact ⟨.inl ⟨elsewhere, there⟩, elsewhere⟩

theorem Shared.eraseKey (shared : t.Shared refs) (held : t.Held 0)
    (free : ∀ addr, refs addr = 0) (found : t.search key = some addr) :
    (t.eraseKey key).1 = true ∧ (t.eraseKey key).2.Shared refs ∧
      ∀ other, other ∈ (t.eraseKey key).2.header.map RbtreeNode.first ↔
        other ≠ key ∧ other ∈ t.header.map RbtreeNode.first := by
  obtain ⟨node, there, rfl, rfl, -⟩ := search_some found
  have sane := held.waits.sane
  have look := node?_of_header sane.apart there
  have last : node.refCount = 1 := by
    rw [shared node there, free]
  obtain ⟨answer, left⟩ := held.decRef_last look last
  have apart : (t.header.map RbtreeNode.first).Nodup :=
    (pairwise_map.mpr sane.ordered).imp fun before => before.ne
  rw [eraseKey, found]
  refine ⟨answer, fun other inside => shared other ((left other).mp inside).1,
    fun other => ?_⟩
  constructor
  · intro inside
    obtain ⟨node', within, rfl⟩ := mem_map.mp inside
    obtain ⟨before, elsewhere⟩ := (left node').mp within
    refine ⟨fun same => ?_, mem_map_of_mem before⟩
    exact elsewhere (congrArg RbtreeNode.id
      (inj_on_of_nodup_map apart before there same))
  · rintro ⟨different, inside⟩
    obtain ⟨node', before, rfl⟩ := mem_map.mp inside
    refine mem_map_of_mem ((left node').mpr ⟨before, fun same => ?_⟩)
    exact different (congrArg RbtreeNode.first
      (inj_on_of_nodup_map sane.apart before there same))

end Rbtree

end NdNet.RefTree
