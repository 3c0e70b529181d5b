import NdNet.Stl.RefTreeHeld

/-!
# Runs of the map of `nd_reftree.h`

The functions of the map are made of those that count, so in every run in which
nothing is erased through an iterator that is at no node, no node is used that
is no more.
-/

namespace NdNet.RefTree

open Rbtree Iterator List

variable {κ ν : Type}

namespace Rbtree

variable [LinearOrder κ] {t : Rbtree κ ν} {attached : Nat} {it : Iterator}
  {key : κ}

theorem firstOf_makes (held : t.Held attached) {nodes : List Nat}
    (inside : ∀ addr ∈ nodes, addr ∈ t.addresses) (backwards : Bool) :
    Makes attached t (t.firstOf backwards nodes) := by
  obtain ⟨counts, among⟩ := held.incSelfRef.seize inside
  have flushed : attached = 0 →
      (t.incSelfRef.seize nodes).2.delList = [] := by
    intro none
    rw [delList_seize]
    exact held.flushed none
  have dropped := counts.held.decSelfRef_same flushed
  have first : Counts attached t
      (t.incSelfRef.seize nodes).2.decSelfRef :=
    ⟨dropped.held, dropped.same.trans counts.same⟩
  have header := counts.held.header_decSelfRef flushed
  rw [firstOf]
  cases taken : (t.incSelfRef.seize nodes).1 with
  | none =>
    exact (nowhere_makes first.held backwards).of_counts
      ⟨first.held, first.same⟩
  | some addr =>
    have here : addr ∈
        (t.incSelfRef.seize nodes).2.decSelfRef.addresses := by
      rw [addresses_of_entries first.same]
      exact inside addr (among addr taken)
    obtain ⟨node, found, shared⟩ := seize_shared taken
    have found : (t.incSelfRef.seize nodes).2.decSelfRef.node? addr =
        some node := by
      rw [node?, header]
      exact found
    obtain ⟨dropped, later⟩ := first.held.decRef_shared found shared
    dsimp only
    rw [dropped, if_pos rfl]
    refine (incRefRbtree_makes later.held ?_).of_counts
      ⟨later.held, later.same.trans first.same⟩
    intro other same
    cases same
    refine ⟨rfl, ?_⟩
    rw [addresses_of_entries later.same]
    exact here

theorem beginIterator_makes (held : t.Held attached) :
    Makes attached t t.beginIterator :=
  firstOf_makes held (fun _ within => within) false

theorem rbeginIterator_makes (held : t.Held attached) :
    Makes attached t t.rbeginIterator := by
  refine firstOf_makes held (fun addr last => ?_) true
  exact mem_of_getLast? (Option.mem_toList.mp last)

theorem rendIterator_makes (held : t.Held attached) :
    Makes attached t t.rendIterator :=
  incRefRbtree_makes held (rooted_none rfl)

theorem eraseAt_makes (held : t.Held (attached + it.attachedOf))
    (rooted : it.Rooted t) (somewhere : it.treenode ≠ none) :
    Makes (attached + it.attachedOf) t (t.eraseAt it) := by
  obtain ⟨addr, here⟩ := Option.ne_none_iff_exists'.mp somewhere
  obtain ⟨parent, inside⟩ := rooted addr here
  rw [attachedOf_parent parent] at held ⊢
  have counts := held.decRef inside
  rw [eraseAt, here]
  dsimp only
  cases next : (t.onwards it.backwards addr).head? with
  | none => exact (nowhere_makes counts.held it.backwards).of_counts counts
  | some other =>
    refine (incRefRbtree_makes counts.held ?_).of_counts counts
    intro address same
    cases same
    refine ⟨rfl, ?_⟩
    rw [addresses_of_entries counts.same]
    exact onwards_inside other (mem_of_head? next)

theorem search_some {addr : Nat} (found : t.search key = some addr) :
    ∃ node ∈ t.header, node.id = addr ∧ node.first = key ∧
      node.refCount ≠ 0 := by
  unfold search at found
  split at found
  · cases found
  next node look =>
    split at found
    · cases found
    · next alive =>
        cases found
        have same : decide (node.first = key) = true :=
          find?_some (p := fun node : RbtreeNode κ ν =>
            decide (node.first = key)) look
        exact ⟨node, mem_of_find?_eq_some look, rfl,
          of_decide_eq_true same, alive⟩

theorem find_makes (held : t.Held attached) (key : κ) :
    Makes attached t (t.find key) := by
  rw [find]
  cases found : t.search key with
  | none => exact nowhere_makes held false
  | some addr =>
    refine incRefRbtree_makes held ?_
    intro other same
    cases same
    obtain ⟨node, there, rfl, -⟩ := search_some found
    exact ⟨rfl, mem_map_of_mem there⟩

theorem eraseKey_frees (held : t.Held attached) (key : κ) :
    Frees attached t (t.eraseKey key).2 := by
  rw [eraseKey]
  cases found : t.search key with
  | none => exact ⟨held, fun _ => rfl⟩
  | some addr =>
    obtain ⟨node, there, rfl, -⟩ := search_some found
    have inside := mem_map_of_mem (f := RbtreeNode.id) there
    cases attached with
    | zero => exact ⟨held.decRef_zero inside, fun some => absurd rfl some⟩
    | succ attached =>
      have counts := held.decRef inside
      exact ⟨counts.held, fun _ => counts.same⟩

def add (node : RbtreeNode κ ν) (t : Rbtree κ ν) : Rbtree κ ν :=
  { t with
    count := t.count + 1
    header := t.header.orderedInsert
      (fun one other => one.first < other.first) { node with refCount := 1 } }

theorem insertNode_eq (flushed : t.selfRef = 0 → t.delList = [])
    (node : RbtreeNode κ ν) :
    t.insertNode node =
      if t.header.any fun other => other.first = node.first then (false, t)
      else (true, t.add node) := by
  have keeps := decSelfRef_incSelfRef flushed
  have adds := decSelfRef_incSelfRef (t := t.add node) flushed
  change (if t.header.any (fun other => other.first = node.first) then
    (false, t.incSelfRef.decSelfRef)
    else (true, (t.add node).incSelfRef.decSelfRef)) = _
  rw [keeps, adds]

theorem mem_add_iff {node other : RbtreeNode κ ν} :
    other ∈ (t.add node).header ↔
      other = { node with refCount := 1 } ∨ other ∈ t.header :=
  mem_orderedInsert _

theorem perm_add (node : RbtreeNode κ ν) :
    (t.add node).header.Perm ({ node with refCount := 1 } :: t.header) :=
  perm_orderedInsert _ _ _

theorem Waits.add (waits : t.Waits) {node : RbtreeNode κ ν}
    (fresh : node.id = t.created)
    (new : ∀ other ∈ t.header, other.first ≠ node.first) :
    Waits ({ t with created := t.created + 1 }.add node) := by
  have sane := waits.sane
  have order := perm_add (t := { t with created := t.created + 1 }) node
  have addresses (addr : Nat) :
      addr ∈ ({ t with created := t.created + 1 }.add node).addresses ↔
        addr = t.created ∨ addr ∈ t.addresses := by
    rw [addresses, (order.map RbtreeNode.id).mem_iff, map_cons, mem_cons]
    exact or_congr_left (fresh ▸ Iff.rfl)
  have outside : t.created ∉ t.addresses := fun inside =>
    Nat.lt_irrefl _ (sane.created _ inside)
  refine
    { sane :=
        { ordered := InOrder.pairwise_orderedInsert sane.ordered new
          apart := ?_
          size := ?_
          destroyedOnce := sane.destroyedOnce
          destroyed_iff := fun addr => ?_
          created := fun addr inside => ?_
          whole := sane.whole }
      once := waits.once
      iff_zero := fun addr => (waits.iff_zero addr).trans ?_ }
  · refine (order.map RbtreeNode.id).nodup_iff.mpr ?_
    refine nodup_cons.mpr ⟨?_, sane.apart⟩
    rw [show ({ node with refCount := 1 } : RbtreeNode κ ν).id = t.created
      from fresh]
    exact outside
  · have length := order.length_eq
    have size := sane.size
    rw [length_cons] at length
    rw [length]
    change t.count + 1 = _
    push_cast
    rw [size]
  · rw [addresses]
    refine (sane.destroyed_iff addr).trans ?_
    change _ ↔ addr < t.created + 1 ∧ _
    constructor
    · rintro ⟨before, missing⟩
      exact ⟨by omega, not_or.mpr ⟨by omega, missing⟩⟩
    · rintro ⟨before, missing⟩
      obtain ⟨other, missing⟩ := not_or.mp missing
      exact ⟨by omega, missing⟩
  · rcases (addresses addr).mp inside with rfl | inside
    · exact Nat.lt_succ_self _
    · exact (sane.created addr inside).trans (Nat.lt_succ_self _)
  · constructor
    · rintro ⟨other, there, here, zero⟩
      exact ⟨other, mem_add_iff.mpr (.inr there), here, zero⟩
    · rintro ⟨other, there, here, zero⟩
      rcases mem_add_iff.mp there with rfl | there
      · cases zero
      · exact ⟨other, there, here, zero⟩

theorem Waits.refuse (waits : t.Waits) :
    Waits ({ t with created := t.created + 1 }.destroyObj t.created) := by
  have sane := waits.sane
  have outside : t.created ∉ t.addresses := fun inside =>
    Nat.lt_irrefl _ (sane.created _ inside)
  refine
    { sane :=
        { ordered := sane.ordered
          apart := sane.apart
          size := sane.size
          destroyedOnce := ?_
          destroyed_iff := fun addr => ?_
          created := fun addr inside =>
            (sane.created addr inside).trans (Nat.lt_succ_self _)
          whole := sane.whole }
      once := waits.once
      iff_zero := waits.iff_zero }
  · refine sane.destroyedOnce.append (nodup_singleton _) ?_
    intro addr before here
    rw [mem_singleton] at here
    have earlier := ((sane.destroyed_iff addr).mp before).1
    omega
  · change addr ∈ t.destroyed ++ [t.created] ↔
      addr < t.created + 1 ∧ addr ∉ t.addresses
    rw [mem_append, mem_singleton, sane.destroyed_iff]
    constructor
    · rintro (⟨before, missing⟩ | rfl)
      · exact ⟨by omega, missing⟩
      · exact ⟨Nat.lt_succ_self _, outside⟩
    · rintro ⟨before, missing⟩
      by_cases last : addr = t.created
      · exact .inr last
      · exact .inl ⟨by omega, missing⟩

theorem insert_makes (held : t.Held attached) (key : κ) (value : ν) :
    (t.insert key value).2.Held
        (attached + (t.insert key value).1.attachedOf) ∧
      (t.insert key value).1.Rooted (t.insert key value).2 ∧
      ∀ addr ∈ t.addresses, addr ∈ (t.insert key value).2.addresses := by
  have flushed : ({ t with created := t.created + 1 } :
      Rbtree κ ν).selfRef = 0 → t.delList = [] := fun none =>
    held.flushed (held.selfRef.symm.trans none)
  rw [insert, insertNode_eq flushed]
  by_cases there : (t.header.any fun other => other.first = key) = true
  · rw [if_pos there]
    exact ⟨⟨held.waits.refuse, held.selfRef, held.flushed⟩,
      rooted_none rfl, fun _ inside => inside⟩
  · rw [if_neg there]
    have new : ∀ other ∈ t.header, other.first ≠ key := by
      intro other inside same
      exact there (any_eq_true.mpr ⟨other, inside, decide_eq_true same⟩)
    have added : Held attached ({ t with created := t.created + 1 }.add
        ⟨t.created, 0, key, value⟩) :=
      ⟨held.waits.add rfl new, held.selfRef, held.flushed⟩
    have here : t.created ∈ ({ t with created := t.created + 1 }.add
        ⟨t.created, 0, key, value⟩).addresses :=
      mem_map.mpr ⟨_, mem_add_iff.mpr (.inl rfl), rfl⟩
    have rooted : Rooted ⟨some t.created, true, false⟩
        ({ t with created := t.created + 1 }.add
          ⟨t.created, 0, key, value⟩) := by
      intro addr same
      cases same
      exact ⟨rfl, here⟩
    have makes := incRefRbtree_makes added rooted
    rw [if_pos rfl]
    refine ⟨makes.counts.held, makes.rooted, fun addr inside => ?_⟩
    rw [addresses_of_entries makes.counts.same]
    obtain ⟨node, within, rfl⟩ := mem_map.mp inside
    exact mem_map_of_mem (mem_add_iff.mpr (.inr within))

end Rbtree

section Totals

variable {its : List (Option Iterator)} {i : Nat} {old it : Iterator}

def total (number : Iterator → Nat) : List (Option Iterator) → Nat
  | [] => 0
  | it :: its => it.elim 0 number + total number its

variable (number : Iterator → Nat)

theorem total_append (its : List (Option Iterator)) (it : Iterator) :
    total number (its ++ [some it]) = total number its + number it := by
  induction its with
  | nil => exact Nat.add_comm _ _
  | cons first its induction =>
    rw [cons_append, total, total, induction, Nat.add_assoc]

theorem total_set (new : Option Iterator) (there : its[i]?.join = some old) :
    total number (its.set i new) + number old =
      total number its + new.elim 0 number := by
  induction its generalizing i with
  | nil => simp at there
  | cons first its induction =>
    cases i with
    | zero =>
      subst there
      rw [set_cons_zero, total, total, Option.elim_some]
      omega
    | succ i =>
      have rest := induction there
      rw [set_cons_succ, total, total]
      omega

theorem le_total (inside : some it ∈ its) :
    number it ≤ total number its := by
  induction its with
  | nil => cases inside
  | cons first its induction =>
    rcases mem_cons.mp inside with rfl | later
    · exact Nat.le_add_right _ _
    · exact (induction later).trans (Nat.le_add_left _ _)

theorem total_eq_zero (none : ∀ it, some it ∈ its → number it = 0) :
    total number its = 0 := by
  induction its with
  | nil => rfl
  | cons first its induction =>
    rw [total, induction fun it later => none it (mem_cons_of_mem _ later)]
    cases first with
    | none => rfl
    | some it => exact none it mem_cons_self

end Totals

namespace World

variable {w : World κ ν} {i : Nat} {it : Iterator}
  {result : Iterator × Rbtree κ ν} {t : Rbtree κ ν}

theorem mem_of_iterator (there : w.iterator i = some it) :
    some it ∈ w.iterators :=
  mem_of_getElem? (Option.join_eq_some_iff.mp there)

theorem Rooted.mono {after : Rbtree κ ν} (rooted : it.Rooted t)
    (kept : ∀ addr ∈ t.addresses, addr ∈ after.addresses) :
    it.Rooted after :=
  fun addr here => ⟨(rooted addr here).1, kept addr (rooted addr here).2⟩

theorem total_rest (there : w.iterator i = some it) :
    total attachedOf (w.iterators.set i none) + it.attachedOf =
      total attachedOf w.iterators :=
  total_set attachedOf none there

variable [LinearOrder κ]

/-- The counter of the tree is right, and the nodes that iterators are at are in
the tree. -/
structure Safe (w : World κ ν) : Prop where
  held : w.tree.Held (total attachedOf w.iterators)
  rooted : ∀ it, some it ∈ w.iterators → it.Rooted w.tree

theorem Safe.push (safe : w.Safe)
    (held : result.2.Held
      (total attachedOf w.iterators + result.1.attachedOf))
    (rooted : result.1.Rooted result.2)
    (kept : ∀ addr ∈ w.tree.addresses, addr ∈ result.2.addresses) :
    (w.push result).Safe where
  held := by
    have counted := total_append attachedOf w.iterators result.1
    exact counted ▸ held
  rooted := by
    intro it inside
    rcases mem_append.mp inside with inside | inside
    · exact Rooted.mono (safe.rooted it inside) kept
    · cases mem_singleton.mp inside
      exact rooted

theorem Safe.push_makes (safe : w.Safe)
    (makes : Makes (total attachedOf w.iterators) w.tree result) :
    (w.push result).Safe :=
  safe.push makes.counts.held makes.rooted fun addr inside => by
    rw [addresses_of_entries makes.counts.same]
    exact inside

theorem Safe.put (safe : w.Safe) (there : w.iterator i = some it)
    {new : Option Iterator}
    (frees : Frees
      (total attachedOf (w.iterators.set i none) + new.elim 0 attachedOf)
      w.tree t)
    (rooted : ∀ it, new = some it → it.Rooted t) :
    (w.put i new t).Safe where
  held := by
    have after := total_set attachedOf new there
    have rest := total_rest there
    have counted : total attachedOf (w.iterators.set i new) =
        total attachedOf (w.iterators.set i none) +
          new.elim 0 attachedOf := by
      omega
    change t.Held (total attachedOf (w.iterators.set i new))
    rw [counted]
    exact frees.held
  rooted := by
    intro other inside
    change some other ∈ w.iterators.set i new at inside
    have twice : (w.iterators.set i none).set i new = w.iterators.set i new :=
      set_set none
    rw [← twice] at inside
    rcases mem_or_eq_of_mem_set inside with inside | same
    · have before : some other ∈ w.iterators := by
        rcases mem_or_eq_of_mem_set inside with before | none
        · exact before
        · cases none
      intro addr here
      obtain ⟨parent, within⟩ := safe.rooted other before addr here
      have counted := le_total attachedOf inside
      rw [attachedOf_parent parent] at counted
      have same := frees.same (by omega)
      refine ⟨parent, ?_⟩
      change addr ∈ t.addresses
      rw [addresses_of_entries same]
      exact within
    · exact rooted other same.symm

def Somewhere (w : World κ ν) : Input κ ν → Prop
  | .eraseAt i => ∀ it, w.iterator i = some it → it.treenode ≠ none
  | _ => True

section

variable (safe : w.Safe)
include safe

theorem Safe.of_kept {kept : Finset κ} :
    Safe { w with kept := kept } :=
  ⟨safe.held, safe.rooted⟩

theorem Safe.step_erase (key : κ) :
    (w.step (.erase key)).Safe := by
  have frees := eraseKey_frees safe.held key
  refine ⟨frees.held, fun it inside addr here => ?_⟩
  obtain ⟨parent, within⟩ := safe.rooted it inside addr here
  have counted : it.attachedOf ≤ total attachedOf w.iterators :=
    le_total attachedOf inside
  rw [attachedOf_parent parent] at counted
  refine ⟨parent, ?_⟩
  have same := frees.same (by omega)
  exact addresses_of_entries same ▸ within

section

variable (there : w.iterator i = some it)
include there

theorem Safe.step_assign {j : Nat} {r : Iterator}
    (other : w.iterator j = some r) :
    (w.put i (some (it.assign r w.tree).1) (it.assign r w.tree).2).Safe := by
  have rest := total_rest there
  have held : w.tree.Held
      (total attachedOf (w.iterators.set i none) + it.attachedOf) :=
    rest ▸ safe.held
  have rooted := safe.rooted it (mem_of_iterator there)
  have rooted' := safe.rooted r (mem_of_iterator other)
  have frees := assign_frees held rooted rooted'
  refine safe.put there frees fun after same => ?_
  cases same
  intro addr here
  obtain ⟨parent, inside⟩ := rooted' addr here
  have attached := attachedOf_parent parent
  refine ⟨parent, ?_⟩
  rw [addresses_of_entries (frees.same (by omega))]
  exact inside

theorem Safe.step_increment :
    (w.put i (some (it.increment w.tree).1) (it.increment w.tree).2).Safe := by
  have rest := total_rest there
  have held : w.tree.Held
      (total attachedOf (w.iterators.set i none) + it.attachedOf) :=
    rest ▸ safe.held
  have makes := increment_makes held (safe.rooted it (mem_of_iterator there))
  refine safe.put there ⟨makes.counts.held, fun _ => makes.counts.same⟩ ?_
  intro after same
  cases same
  exact makes.rooted

theorem Safe.step_destroy :
    (w.put i none (it.decRefRbtree w.tree)).Safe := by
  have rest := total_rest there
  have held : w.tree.Held
      (total attachedOf (w.iterators.set i none) + it.attachedOf) :=
    rest ▸ safe.held
  have frees := decRefRbtree_frees held
    (safe.rooted it (mem_of_iterator there))
  exact safe.put there frees nofun

theorem Safe.step_eraseAt
    (somewhere : it.treenode ≠ none) : (w.push (w.tree.eraseAt it)).Safe := by
  have rest := total_rest there
  have held : w.tree.Held
      (total attachedOf (w.iterators.set i none) + it.attachedOf) :=
    rest ▸ safe.held
  have makes := eraseAt_makes held (safe.rooted it (mem_of_iterator there))
    somewhere
  rw [rest] at makes
  exact safe.push_makes makes

end

theorem Safe.step {input : Input κ ν}
    (somewhere : w.Somewhere input) : (w.step input).Safe := by
  cases input with
  | insert key value room =>
    rw [World.step]
    split
    · obtain ⟨held, rooted, kept⟩ := insert_makes safe.held key value
      exact (safe.push held rooted kept).of_kept
    · exact safe.push_makes (nowhere_makes safe.held false)
  | erase key => exact safe.step_erase key
  | eraseAt i =>
    rw [World.step]
    cases there : w.iterator i with
    | none => exact safe
    | some it =>
      exact (safe.step_eraseAt there (somewhere it there)).of_kept
  | find key => exact safe.push_makes (find_makes safe.held key)
  | atBegin => exact safe.push_makes (beginIterator_makes safe.held)
  | atRbegin => exact safe.push_makes (rbeginIterator_makes safe.held)
  | atEnd => exact safe.push_makes (nowhere_makes safe.held false)
  | atRend => exact safe.push_makes (rendIterator_makes safe.held)
  | copy i =>
    rw [World.step]
    cases there : w.iterator i with
    | none => exact safe
    | some it =>
      exact safe.push_makes (incRefRbtree_makes safe.held
        (safe.rooted it (mem_of_iterator there)))
  | assign i j =>
    rw [World.step]
    cases there : w.iterator i with
    | none => exact safe
    | some it =>
      cases other : w.iterator j with
      | none => exact safe
      | some r =>
        dsimp only
        split
        · exact safe.step_assign there other
        · exact safe
  | increment i =>
    rw [World.step]
    cases there : w.iterator i with
    | none => exact safe
    | some it => exact safe.step_increment there
  | destroy i =>
    rw [World.step]
    cases there : w.iterator i with
    | none => exact safe
    | some it => exact safe.step_destroy there

end

theorem safe_empty : (empty : World κ ν).Safe where
  held :=
    { waits :=
        { sane :=
            { ordered := List.Pairwise.nil
              apart := nodup_nil
              size := rfl
              destroyedOnce := nodup_nil
              destroyed_iff := fun addr =>
                iff_of_false not_mem_nil fun both =>
                  Nat.not_lt_zero addr both.1
              created := nofun
              whole := rfl }
          once := nodup_nil
          iff_zero := fun _ => iff_of_false not_mem_nil (by
            rintro ⟨node, there, -⟩
            cases there) }
      selfRef := rfl
      flushed := fun _ => rfl }
  rooted := nofun

/-- In a run in which nothing is erased through an iterator at no node, no node
is used that is no more: what is destroyed is destroyed once, and no iterator is
at it. -/
theorem safeRun {inputs : List (Input κ ν)}
    (somewhere : Runs.Meets step Somewhere empty inputs) :
    ∀ w ∈ Runs.states step (empty : World κ ν) inputs, w.Safe :=
  Runs.invariant_of_meets (fun _ _ safe meets => safe.step meets) safe_empty
    somewhere

/-- A node is erased through its iterator, of which there is a copy. -/
theorem safeRun_copied :
    ([.insert 1 () true, .copy 0, .eraseAt 0, .increment 1, .destroy 1].foldl
      step (empty : World Nat Unit)).Safe := by
  have somewhere : Runs.Meets step Somewhere
      (empty : World Nat Unit)
      [.insert 1 () true, .copy 0, .eraseAt 0, .increment 1, .destroy 1] :=
    ⟨trivial, trivial, fun it same => by
      cases same
      exact Option.some_ne_none 0, trivial, trivial, trivial⟩
  exact safeRun somewhere _ (Runs.foldl_mem_states step _ _)

end World

end NdNet.RefTree
