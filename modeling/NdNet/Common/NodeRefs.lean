import NdNet.Common.NodeMgr

/-!
# References to the slots of the node manager

Next to accept and deaccept the node manager counts references to its slots in
the word that also says whether a slot is used. A client that balances its
calls keeps a ledger of the ids that are live and of the references that are
outstanding. The law below says what the references are for.
-/

namespace NdNet

open List

namespace NodeRoot

variable {α : Type}

/-- The value an atomic operation leaves in an `ndatomic_t` of 32 bits. -/
def atomicWrap (value : Int) : Int :=
  Int.bmod value 4294967296

def incRef (root : NodeRoot α) (nodeId : Nat) : Int × NodeRoot α :=
  match root.indexOf nodeId with
  | none => (-1, root)
  | some index =>
    if 0 < (root.info index).used then
      (0,
        { root with
          connmgrAddr := root.connmgrAddr.set index
            { root.info index with
              used := atomicWrap ((root.info index).used + 1) } })
    else (-1, root)

def decRef (root : NodeRoot α) (nodeId : Nat) : NodeRoot α :=
  match root.indexOf nodeId with
  | none => root
  | some index =>
    { root with
      connmgrAddr := root.connmgrAddr.set index
        { root.info index with
          used := atomicWrap ((root.info index).used - 1) } }

/-- The slot is one that the loop of `_nd_node_accept` takes when it comes to
it. -/
def Available (root : NodeRoot α) (index : Nat) : Prop :=
  (root.info index).used = 0

instance (root : NodeRoot α) (index : Nat) : Decidable (root.Available index) :=
  inferInstanceAs (Decidable ((root.info index).used = 0))

end NodeRoot

/-- The manager with the ids its clients hold: those that were accepted and not
yet deaccepted, and one entry for every reference that is outstanding. -/
structure NodeRefs (α : Type) where
  root : NodeRoot α
  live : List Nat
  refs : List Nat
  deriving DecidableEq, Repr

inductive RefCall (α : Type) where
  | accept (self : Nat) (socketNode : α)
  | incRef (nodeId : Nat)
  | decRef (nodeId : Nat)
  | deaccept (nodeId : Nat)
  deriving DecidableEq, Repr

variable {nodeId : Nat}

namespace NodeRefs

open Runs NodeRoot

variable {α : Type}

def fresh (maxNum startId : Nat) : NodeRefs α :=
  { root := NodeRoot.create maxNum startId
    live := []
    refs := [] }

def refStep (mgr : NodeRefs α) : RefCall α → NodeRefs α
  | .accept self socketNode =>
    let answer := mgr.root.accept self socketNode
    { mgr with
      root := answer.2
      live := if answer.1 = 0 then mgr.live else answer.1 :: mgr.live }
  | .incRef nodeId =>
    let answer := mgr.root.incRef nodeId
    { mgr with
      root := answer.2
      refs := if answer.1 = 0 then nodeId :: mgr.refs else mgr.refs }
  | .decRef nodeId =>
    { mgr with
      root := mgr.root.decRef nodeId
      refs := mgr.refs.erase nodeId }
  | .deaccept nodeId =>
    { mgr with
      root := (mgr.root.deaccept nodeId).2
      live := mgr.live.filter (fun other => other ≠ nodeId) }

/-- Every `dec_ref` gives back a reference that `inc_ref` has given. -/
def Matched (mgr : NodeRefs α) : RefCall α → Prop
  | .decRef nodeId => nodeId ∈ mgr.refs
  | _ => True

/-- A call of `deaccept` names no slot, or it names a live id to which no
reference is outstanding. -/
def LastOut (mgr : NodeRefs α) : RefCall α → Prop
  | .deaccept nodeId =>
    mgr.root.indexOf nodeId = none ∨ (nodeId ∈ mgr.live ∧ nodeId ∉ mgr.refs)
  | _ => True

instance (mgr : NodeRefs α) : (call : RefCall α) → Decidable (mgr.Matched call)
  | .accept _ _ => .isTrue trivial
  | .incRef _ => .isTrue trivial
  | .decRef nodeId => inferInstanceAs (Decidable (nodeId ∈ mgr.refs))
  | .deaccept _ => .isTrue trivial

instance (mgr : NodeRefs α) : (call : RefCall α) → Decidable (mgr.LastOut call)
  | .accept _ _ => .isTrue trivial
  | .incRef _ => .isTrue trivial
  | .decRef _ => .isTrue trivial
  | .deaccept nodeId =>
    inferInstanceAs (Decidable
      (mgr.root.indexOf nodeId = none ∨
        (nodeId ∈ mgr.live ∧ nodeId ∉ mgr.refs)))

/-- What the references are for: `accept` takes a slot that is available and
answers zero if there is none, it hands out no id to which a reference is
outstanding, a slot is available exactly if it is neither live nor referred to,
and the manager counts the slots that are not available. -/
structure Law (mgr : NodeRefs α) : Prop where
  takes : ∀ self socketNode,
    (∃ index < mgr.root.maxConnNum, mgr.root.Available index ∧
        (mgr.root.accept self socketNode).1 = mgr.root.baseId + index) ∨
      ((mgr.root.accept self socketNode).1 = 0 ∧
        ∀ index < mgr.root.maxConnNum, ¬ mgr.root.Available index)
  notReused : ∀ self socketNode, (mgr.root.accept self socketNode).1 ∉ mgr.refs
  available_iff : ∀ index < mgr.root.maxConnNum,
    mgr.root.Available index ↔
      mgr.root.baseId + index ∉ mgr.live ∧ mgr.root.baseId + index ∉ mgr.refs
  count : mgr.root.connectNum =
    (List.range mgr.root.maxConnNum).countP
      (fun index => ¬ mgr.root.Available index)

/-- The word of a live slot is one more than the references to it, that of any
other slot is zero. -/
structure Counts (mgr : NodeRefs α) : Prop where
  base_pos : 1 ≤ mgr.root.baseId
  ids_fit : mgr.root.baseId + mgr.root.maxConnNum ≤ 65536
  param_zero : mgr.root.param = 0
  length : mgr.root.connmgrAddr.length = mgr.root.maxConnNum
  live_range : ∀ nodeId ∈ mgr.live,
    mgr.root.baseId ≤ nodeId ∧ nodeId < mgr.root.baseId + mgr.root.maxConnNum
  refs_live : ∀ nodeId ∈ mgr.refs, nodeId ∈ mgr.live
  few : ∀ nodeId, mgr.refs.count nodeId < 2147483648
  used : ∀ index < mgr.root.maxConnNum, (mgr.root.info index).used =
    if mgr.root.baseId + index ∈ mgr.live then
      atomicWrap (1 + mgr.refs.count (mgr.root.baseId + index))
    else 0
  count : mgr.root.connectNum =
    mgr.root.connmgrAddr.countP (fun node => node.used ≠ 0)

section Words

theorem atomicWrap_of_lt {count : Nat} (few : count + 1 < 2147483648) :
    atomicWrap (1 + count) = 1 + count := by
  exact Int.bmod_eq_of_le (by omega) (by omega)

theorem atomicWrap_ne_zero {count : Nat} (few : count < 2147483648) :
    atomicWrap (1 + count) ≠ 0 := by
  by_cases full : count + 1 < 2147483648
  · rw [atomicWrap_of_lt full]
    omega
  · have last : count = 2147483647 := by omega
    rw [last]
    decide

theorem atomicWrap_pred (count : Nat) :
    atomicWrap (atomicWrap (1 + (count + 1 : Nat)) - 1) =
      atomicWrap (1 + count) := by
  unfold atomicWrap
  rw [Int.bmod_sub_bmod]
  congr 1
  omega

end Words

section Steps

variable {mgr : NodeRefs α}

theorem fresh_counts {maxNum startId : Nat} (positive : 1 ≤ startId)
    (fits : startId + maxNum ≤ 65536) :
    Counts (fresh maxNum startId : NodeRefs α) where
  base_pos := positive
  ids_fit := fits
  param_zero := rfl
  length := length_replicate
  live_range := by
    intro nodeId member
    exact absurd member not_mem_nil
  refs_live := by
    intro nodeId member
    exact absurd member not_mem_nil
  few := by
    intro nodeId
    rw [fresh, count_nil]
    omega
  used := by
    intro index inside
    have clear : (NodeRoot.create maxNum startId : NodeRoot α).info index =
        clearInfo := by
      unfold NodeRoot.info NodeRoot.create
      rw [getD_eq_getElem?_getD, getElem?_replicate]
      split <;> rfl
    change ((NodeRoot.create maxNum startId : NodeRoot α).info index).used = _
    rw [clear]
    exact (if_neg not_mem_nil).symm
  count := by
    symm
    apply Int.ofNat_eq_zero.mpr
    rw [countP_eq_zero]
    intro node member
    rw [eq_of_mem_replicate member]
    exact Bool.false_ne_true

theorem Counts.available_iff (counts : mgr.Counts) {index : Nat}
    (inside : index < mgr.root.maxConnNum) :
    mgr.root.Available index ↔ mgr.root.baseId + index ∉ mgr.live := by
  unfold NodeRoot.Available
  rw [counts.used index inside]
  by_cases live : mgr.root.baseId + index ∈ mgr.live
  · rw [if_pos live]
    exact iff_of_false (atomicWrap_ne_zero (counts.few _)) (not_not_intro live)
  · rw [if_neg live]
    exact iff_of_true rfl live

theorem Counts.count_eq_zero (counts : mgr.Counts)
    (dead : nodeId ∉ mgr.live) : mgr.refs.count nodeId = 0 :=
  List.count_eq_zero.mpr fun held => dead (counts.refs_live nodeId held)

theorem Counts.indexOf_live (counts : mgr.Counts) (live : nodeId ∈ mgr.live) :
    ∃ index < mgr.root.maxConnNum, nodeId = mgr.root.baseId + index ∧
      mgr.root.indexOf nodeId = some index := by
  obtain ⟨low, high⟩ := counts.live_range nodeId live
  refine ⟨nodeId - mgr.root.baseId, by omega, by omega, ?_⟩
  exact NodeMgr.indexOf_eq_some.mpr ⟨by omega, by omega⟩

theorem countP_range (root : NodeRoot α)
    (length : root.connmgrAddr.length = root.maxConnNum) :
    (List.range root.maxConnNum).countP (fun index => ¬ root.Available index) =
      root.connmgrAddr.countP (fun node => node.used ≠ 0) := by
  have slots : root.connmgrAddr =
      (range root.maxConnNum).map root.info := by
    apply ext_getElem
    · rw [length_map, length_range, length]
    · intro index inside _
      rw [getElem_map, getElem_range, NodeMgr.info_eq_getElem inside]
  rw [slots, countP_map]
  rfl

theorem Counts.law (counts : mgr.Counts) : mgr.Law where
  takes := by
    intro self socketNode
    rcases NodeMgr.accept_cases counts.param_zero counts.ids_fit self
        socketNode with
      ⟨index, inside, free, answer⟩ | ⟨taken, answer⟩
    · refine .inl ⟨index, inside, free, ?_⟩
      rw [answer]
    · refine .inr ⟨?_, taken⟩
      rw [answer]
  notReused := by
    intro self socketNode held
    have live := counts.refs_live _ held
    rcases NodeMgr.accept_cases counts.param_zero counts.ids_fit self
        socketNode with
      ⟨index, inside, free, answer⟩ | ⟨_, answer⟩
    · rw [answer] at live
      exact (counts.available_iff inside).mp free live
    · rw [answer] at live
      have low := (counts.live_range 0 live).1
      have positive := counts.base_pos
      omega
  available_iff := by
    intro index inside
    rw [counts.available_iff inside]
    constructor
    · intro dead
      exact ⟨dead, fun held => dead (counts.refs_live _ held)⟩
    · exact And.left
  count := by
    rw [countP_range mgr.root counts.length]
    exact counts.count

theorem Counts.write (counts : mgr.Counts) {index : Nat}
    (inside : index < mgr.root.maxConnNum) {node : SrvnodeInfo α} {num : Int}
    {live refs : List Nat}
    (live_range : ∀ nodeId ∈ live, mgr.root.baseId ≤ nodeId ∧
      nodeId < mgr.root.baseId + mgr.root.maxConnNum)
    (refs_live : ∀ nodeId ∈ refs, nodeId ∈ live)
    (few : ∀ nodeId, refs.count nodeId < 2147483648)
    (word : node.used =
      if mgr.root.baseId + index ∈ live then
        atomicWrap (1 + refs.count (mgr.root.baseId + index))
      else 0)
    (others : ∀ nodeId, nodeId ≠ mgr.root.baseId + index →
      (nodeId ∈ live ↔ nodeId ∈ mgr.live) ∧
        refs.count nodeId = mgr.refs.count nodeId)
    (number : num + (if (mgr.root.info index).used ≠ 0 then 1 else 0) =
      mgr.root.connectNum + if node.used ≠ 0 then 1 else 0) :
    Counts
      { root :=
          { mgr.root with
            connectNum := num
            connmgrAddr := mgr.root.connmgrAddr.set index node }
        live := live
        refs := refs } := by
  have space : index < mgr.root.connmgrAddr.length := counts.length ▸ inside
  constructor
  case base_pos => exact counts.base_pos
  case ids_fit => exact counts.ids_fit
  case param_zero => exact counts.param_zero
  case length => exact length_set.trans counts.length
  case live_range => exact live_range
  case refs_live => exact refs_live
  case few => exact few
  case used =>
    intro other below
    rw [NodeMgr.info_set space]
    by_cases same : other = index
    · rw [if_pos same, same]
      exact word
    · rw [if_neg same, counts.used other below]
      obtain ⟨lives, held⟩ := others (mgr.root.baseId + other) (by omega)
      simp only [lives, held]
  case count =>
    have counted := NodeMgr.countP_set_add node
      (fun node => decide (node.used ≠ 0)) space
    simp only [decide_eq_true_eq] at counted
    rw [NodeMgr.info_eq_getElem space] at number
    have before := counts.count
    simp only
    split_ifs at counted number <;> omega

theorem accept_counts (counts : mgr.Counts) (self : Nat) (socketNode : α) :
    (mgr.refStep (.accept self socketNode)).Counts := by
  rcases NodeMgr.accept_cases counts.param_zero counts.ids_fit self
      socketNode with
    ⟨index, inside, free, answer⟩ | ⟨_, answer⟩
  · have dead := (counts.available_iff inside).mp free
    have unheld := counts.count_eq_zero dead
    have positive := counts.base_pos
    unfold refStep
    simp only [answer]
    rw [if_neg (by omega)]
    refine counts.write inside ?_ ?_ counts.few ?_ ?_ ?_
    · intro nodeId member
      rcases mem_cons.mp member with rfl | old
      · exact ⟨Nat.le_add_right _ _, Nat.add_lt_add_left inside _⟩
      · exact counts.live_range nodeId old
    · intro nodeId held
      exact mem_cons_of_mem _ (counts.refs_live nodeId held)
    · rw [if_pos mem_cons_self, unheld]
      rfl
    · intro nodeId differs
      exact ⟨mem_cons.trans (or_iff_right differs), rfl⟩
    · rw [show (mgr.root.info index).used = 0 from free,
        if_neg (not_not_intro rfl), if_pos Int.one_ne_zero]
      exact Int.add_zero _
  · unfold refStep
    simp only [answer]
    exact counts

theorem incRef_cases (root : NodeRoot α) (nodeId : Nat) :
    (∃ index < root.maxConnNum, nodeId = root.baseId + index ∧
      0 < (root.info index).used ∧
      root.incRef nodeId =
        (0,
          { root with
            connmgrAddr := root.connmgrAddr.set index
              { root.info index with
                used := atomicWrap ((root.info index).used + 1) } })) ∨
      root.incRef nodeId = (-1, root) := by
  unfold NodeRoot.incRef
  cases found : root.indexOf nodeId with
  | none => exact .inr rfl
  | some index =>
    obtain ⟨same, inside⟩ := NodeMgr.indexOf_eq_some.mp found
    by_cases used : 0 < (root.info index).used
    · exact .inl ⟨index, inside, same, used, if_pos used⟩
    · exact .inr (if_neg used)

theorem incRef_counts (counts : mgr.Counts) (nodeId : Nat) :
    (mgr.refStep (.incRef nodeId)).Counts := by
  rcases incRef_cases mgr.root nodeId with
    ⟨index, inside, rfl, used, answer⟩ | answer
  · have word := counts.used index inside
    have live : mgr.root.baseId + index ∈ mgr.live := by
      by_contra dead
      rw [if_neg dead] at word
      omega
    rw [if_pos live] at word
    have few := counts.few (mgr.root.baseId + index)
    -- a count that has wrapped around would have been refused
    have room : mgr.refs.count (mgr.root.baseId + index) + 1 < 2147483648 := by
      by_contra full
      have last : mgr.refs.count (mgr.root.baseId + index) = 2147483647 := by
        omega
      rw [word, last] at used
      exact absurd used (by decide)
    have next : atomicWrap ((mgr.root.info index).used + 1) =
        atomicWrap (1 + (mgr.refs.count (mgr.root.baseId + index) + 1 :
          Nat)) := by
      rw [word, atomicWrap_of_lt room]
      exact congrArg atomicWrap (by omega)
    unfold refStep
    simp only [answer, if_true]
    refine counts.write inside counts.live_range ?_ ?_ ?_ ?_ ?_
    · intro other held
      rcases mem_cons.mp held with rfl | old
      · exact live
      · exact counts.refs_live other old
    · intro other
      rw [count_cons]
      split
      · rename_i same
        rw [← beq_iff_eq.mp same]
        exact room
      · exact counts.few other
    · rw [if_pos live, count_cons_self]
      exact next
    · intro other differs
      exact ⟨Iff.rfl, count_cons_of_ne (Ne.symm differs)⟩
    · have kept := atomicWrap_ne_zero room
      rw [← next] at kept
      rw [if_pos (Int.ne_of_gt used), if_pos kept]
  · unfold refStep
    simp only [answer]
    exact counts

theorem decRef_counts (counts : mgr.Counts)
    (held : nodeId ∈ mgr.refs) : (mgr.refStep (.decRef nodeId)).Counts := by
  have live := counts.refs_live nodeId held
  obtain ⟨index, inside, rfl, found⟩ := counts.indexOf_live live
  have word := counts.used index inside
  rw [if_pos live] at word
  have few := counts.few (mgr.root.baseId + index)
  obtain ⟨rest, some⟩ := Nat.exists_eq_succ_of_ne_zero
    (Nat.ne_of_gt (count_pos_iff.mpr held))
  have fewer : (mgr.refs.erase (mgr.root.baseId + index)).count
      (mgr.root.baseId + index) = rest := by
    rw [count_erase_self, some, Nat.succ_sub_one]
  have next : atomicWrap ((mgr.root.info index).used - 1) =
      atomicWrap (1 + rest) := by
    rw [word, some]
    exact atomicWrap_pred rest
  unfold refStep NodeRoot.decRef
  simp only [found]
  refine counts.write inside counts.live_range ?_ ?_ ?_ ?_ ?_
  · intro other member
    exact counts.refs_live other (mem_of_mem_erase member)
  · intro other
    exact Nat.lt_of_le_of_lt (erase_sublist.count_le other)
      (counts.few other)
  · rw [if_pos live, fewer]
    exact next
  · intro other differs
    exact ⟨Iff.rfl, count_erase_of_ne differs⟩
  · have before := atomicWrap_ne_zero few
    rw [← word] at before
    have after := @atomicWrap_ne_zero rest (by omega)
    rw [← next] at after
    rw [if_pos before, if_pos after]

theorem deaccept_counts (counts : mgr.Counts)
    (last : mgr.LastOut (.deaccept nodeId)) :
    (mgr.refStep (.deaccept nodeId)).Counts := by
  rcases last with away | ⟨live, unheld⟩
  · have stays : mgr.live.filter (fun other => other ≠ nodeId) = mgr.live := by
      rw [filter_eq_self]
      intro other member
      apply decide_eq_true
      rintro rfl
      exact NodeMgr.indexOf_eq_none.mp away (counts.live_range other member)
    unfold refStep NodeRoot.deaccept
    simp only [away, stays]
    exact counts
  · obtain ⟨index, inside, rfl, found⟩ := counts.indexOf_live live
    have word := counts.used index inside
    rw [if_pos live] at word
    have nonzero := atomicWrap_ne_zero (counts.few (mgr.root.baseId + index))
    rw [← word] at nonzero
    unfold refStep NodeRoot.deaccept
    simp only [found]
    refine counts.write inside ?_ ?_ counts.few ?_ ?_ ?_
    · intro other member
      exact counts.live_range other (mem_filter.mp member).1
    · intro other held
      refine mem_filter.mpr ⟨counts.refs_live other held, ?_⟩
      apply decide_eq_true
      rintro rfl
      exact unheld held
    · symm
      apply if_neg
      intro member
      exact of_decide_eq_true (mem_filter.mp member).2 rfl
    · intro other differs
      refine ⟨?_, rfl⟩
      rw [mem_filter]
      exact and_iff_left (decide_eq_true differs)
    · rw [if_pos nonzero, show (clearInfo : SrvnodeInfo α).used = 0 from rfl,
        if_neg (not_not_intro rfl)]
      omega

/-- A deaccept that is the last release keeps the counts, and so does every
other call. -/
theorem refStep_counts (mgr : NodeRefs α) (call : RefCall α)
    (counts : mgr.Counts) (matched : mgr.Matched call)
    (last : mgr.LastOut call) : (mgr.refStep call).Counts := by
  cases call with
  | accept self socketNode => exact accept_counts counts self socketNode
  | incRef nodeId => exact incRef_counts counts nodeId
  | decRef nodeId => exact decRef_counts counts matched
  | deaccept nodeId => exact deaccept_counts counts last

/-- Any other deaccept makes a slot available to which there is a reference, or
counts down for a slot that was available before. -/
theorem refStep_breaks (mgr : NodeRefs α) (call : RefCall α)
    (counts : mgr.Counts) (early : ¬ mgr.LastOut call) :
    ¬ (mgr.refStep call).Law := by
  intro law
  cases call with
  | accept self socketNode | incRef nodeId | decRef nodeId =>
    exact early trivial
  | deaccept nodeId =>
    simp only [LastOut, not_or, not_and, not_not] at early
    obtain ⟨here, held⟩ := early
    obtain ⟨index, found⟩ := Option.ne_none_iff_exists'.mp here
    obtain ⟨rfl, inside⟩ := NodeMgr.indexOf_eq_some.mp found
    have space : index < mgr.root.connmgrAddr.length :=
      counts.length ▸ inside
    have after : (mgr.refStep (.deaccept (mgr.root.baseId + index))).root =
        { mgr.root with
          connectNum := mgr.root.connectNum - 1
          connmgrAddr := mgr.root.connmgrAddr.set index clearInfo } := by
      simp only [refStep, NodeRoot.deaccept, found]
    by_cases live : mgr.root.baseId + index ∈ mgr.live
    · have free := law.available_iff index
      rw [after] at free
      refine ((free inside).mp ?_).2 (held live)
      unfold NodeRoot.Available
      rw [NodeMgr.info_set space, if_pos rfl]
      rfl
    · have unused := (counts.available_iff inside).mpr live
      unfold NodeRoot.Available at unused
      have number := law.count
      rw [after, countP_range _ (length_set.trans counts.length)]
        at number
      have counted := NodeMgr.countP_set_add (clearInfo : SrvnodeInfo α)
        (fun node => decide (node.used ≠ 0)) space
      rw [← NodeMgr.info_eq_getElem space, unused] at counted
      have before := counts.count
      simp only [show (clearInfo : SrvnodeInfo α).used = 0 from rfl] at counted
      simp only at number
      omega

/-- A slot is never handed out again while it is referred to, is available
exactly when it was deaccepted and all references are dropped, and the number
of nodes is that of the slots that are not available, throughout a run in which
the references are balanced, exactly if no deaccept comes before the last
reference was dropped or for an id that is not live. -/
theorem nodeRefs_law_iff {maxNum startId : Nat} (positive : 1 ≤ startId)
    (fits : startId + maxNum ≤ 65536) (calls : List (RefCall α))
    (matched : Meets refStep Matched (fresh maxNum startId) calls) :
    (∀ mgr ∈ states refStep (fresh maxNum startId) calls, mgr.Law) ↔
      Meets refStep LastOut (fresh maxNum startId) calls :=
  law_iff_meets (fun _ counts => counts.law) refStep_counts
    (fun mgr call counts _ early => refStep_breaks mgr call counts early)
    (fresh_counts positive fits) matched

/-- A node is released once its reference was dropped, and another one that
never had a reference. -/
theorem nodeRefs_law_balanced :
    Meets refStep LastOut (fresh 2 1 : NodeRefs Nat)
        [.accept 7 100, .incRef 1, .accept 7 101, .decRef 1, .deaccept 1,
          .deaccept 2, .accept 7 102] ∧
      ∀ mgr ∈ states refStep (fresh 2 1 : NodeRefs Nat)
        [.accept 7 100, .incRef 1, .accept 7 101, .decRef 1, .deaccept 1,
          .deaccept 2, .accept 7 102], mgr.Law :=
  ⟨by decide,
    (nodeRefs_law_iff (by decide) (by decide) _ (by decide)).mpr (by decide)⟩

/-- With a reference to the node `1` outstanding its slot is handed out again;
dropping the reference then makes the slot of the new node available while both
nodes are counted. -/
theorem nodeRefs_reused :
    Meets refStep Matched (fresh 2 1 : NodeRefs Nat)
        [.accept 7 100, .incRef 1, .deaccept 1, .accept 7 101, .decRef 1] ∧
      ¬ ∀ mgr ∈ states refStep (fresh 2 1 : NodeRefs Nat)
        [.accept 7 100, .incRef 1, .deaccept 1, .accept 7 101, .decRef 1],
        mgr.Law := by
  refine ⟨by decide, ?_⟩
  intro law
  have held := (law
    (foldl refStep (fresh 2 1)
      [.accept 7 100, .incRef 1, .deaccept 1]) (by decide)).notReused 7 101
  exact absurd held (by decide)

end Steps

end NodeRefs

end NdNet
