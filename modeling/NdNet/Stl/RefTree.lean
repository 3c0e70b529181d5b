import Mathlib.Data.Finset.Basic
import Mathlib.Data.Finset.Card
import NdNet.Lib.InOrder
import NdNet.Lib.Runs

/-!
# The map of `nd_reftree.h`

The nodes of `nd_refcount_rbtree` are counted: one reference is that of the map
itself, and each iterator at a node holds another.  A node whose count has come
down to zero waits in `m_del_list` until no iterator on the tree is left, which
`m_self_ref` counts.

The functions of the red-black tree are taken to be right: the tree is the list
of its nodes in the order of their keys, `rb_next` and `rb_prev` step through it.
A node is known by the number of nodes created before it.  Where a node is used
that is no more, or none at all, `misused` is set.
-/

namespace NdNet.RefTree

variable {κ ν : Type}

/-- `rbtree_node`; its key and value are `first` and `second` of `_data`. -/
structure RbtreeNode (κ ν : Type) where
  id : Nat
  refCount : Nat
  first : κ
  second : ν
  deriving DecidableEq, Repr

/-- `nd_refcount_rbtree`, with the nodes that have been destroyed. -/
structure Rbtree (κ ν : Type) where
  header : List (RbtreeNode κ ν)
  count : Int
  selfRef : Nat
  delList : List Nat
  created : Nat
  destroyed : List Nat
  misused : Bool
  deriving DecidableEq, Repr

namespace Rbtree

def empty : Rbtree κ ν where
  header := []
  count := 0
  selfRef := 0
  delList := []
  created := 0
  destroyed := []
  misused := false

def node? (addr : Nat) (t : Rbtree κ ν) : Option (RbtreeNode κ ν) :=
  t.header.find? fun node => node.id = addr

/-- The addresses of the nodes, from `rb_first` to `rb_last`. -/
def addresses (t : Rbtree κ ν) : List Nat :=
  t.header.map RbtreeNode.id

def misuse (t : Rbtree κ ν) : Rbtree κ ν :=
  { t with misused := true }

def setRef (addr refCount : Nat) (t : Rbtree κ ν) : Rbtree κ ν :=
  { t with header := t.header.map fun node =>
      if node.id = addr then { node with refCount } else node }

def destroyObj (addr : Nat) (t : Rbtree κ ν) : Rbtree κ ν :=
  { t with destroyed := t.destroyed ++ [addr] }

/-- `_erase` -/
def eraseNode (addr : Nat) (t : Rbtree κ ν) : Rbtree κ ν :=
  if (t.node? addr).isSome then
    { t with
      count := t.count - 1
      header := t.header.filter fun node => node.id ≠ addr }.destroyObj addr
  else t.misuse

def trytoErase (t : Rbtree κ ν) : Rbtree κ ν :=
  t.delList.foldl (fun t addr => t.eraseNode addr) { t with delList := [] }

def addtoEraseList (addr : Nat) (t : Rbtree κ ν) : Rbtree κ ν :=
  let t := { t with delList := addr :: t.delList }
  if t.selfRef = 0 then t.trytoErase else t

def incRef (addr : Nat) (t : Rbtree κ ν) : Bool × Rbtree κ ν :=
  match t.node? addr with
  | none => (false, t.misuse)
  | some node =>
    if node.refCount = 0 then (false, t)
    else (true, t.setRef addr (node.refCount + 1))

def decRef (addr : Nat) (t : Rbtree κ ν) : Bool × Rbtree κ ν :=
  match t.node? addr with
  | none => (false, t.misuse)
  | some node =>
    if node.refCount = 0 then (false, t)
    else
      let t := t.setRef addr (node.refCount - 1)
      (true, if node.refCount = 1 then t.addtoEraseList addr else t)

def incSelfRef (t : Rbtree κ ν) : Rbtree κ ν :=
  { t with selfRef := t.selfRef + 1 }

def decSelfRef (t : Rbtree κ ν) : Rbtree κ ν :=
  if t.selfRef = 0 then t.trytoErase
  else
    let t := { t with selfRef := t.selfRef - 1 }
    if t.selfRef = 0 then t.trytoErase else t

/-- The loops over nodes that end with the first that `inc_ref` takes. -/
def seize : List Nat → Rbtree κ ν → Option Nat × Rbtree κ ν
  | [], t => (none, t)
  | addr :: rest, t =>
    let taken := t.incRef addr
    if taken.1 then (some addr, taken.2) else seize rest taken.2

/-- The addresses of the nodes behind one of them, as `rb_next` gives them one
after the other, or in the other direction `rb_prev`. -/
def onwards (backwards : Bool) (addr : Nat) (t : Rbtree κ ν) : List Nat :=
  InOrder.behind (fun other => other = addr)
    (if backwards then t.addresses.reverse else t.addresses)

end Rbtree

/-- `_ref_base_iterator`: the node it is at, whether it has a `parent`, and
whether it is a `ref_tree_reverse_iterator`. -/
structure Iterator where
  treenode : Option Nat
  parent : Bool
  backwards : Bool
  deriving DecidableEq, Repr

namespace Iterator

/-- `iterator(NULL,NULL)` -/
def nowhere (backwards : Bool) : Iterator :=
  ⟨none, false, backwards⟩

/-- `_inc_ref_rbtree`, with which a constructor ends. -/
def incRefRbtree (it : Iterator) (t : Rbtree κ ν) : Iterator × Rbtree κ ν :=
  if it.parent then
    match it.treenode with
    | none => (it, t.incSelfRef)
    | some addr =>
      let taken := t.incSelfRef.incRef addr
      (if taken.1 then it else { it with treenode := none }, taken.2)
  else (it, t)

/-- `_dec_ref_rbtree`, with which the destructor begins. -/
def decRefRbtree (it : Iterator) (t : Rbtree κ ν) : Rbtree κ ν :=
  if it.parent then
    match it.treenode with
    | none => t.decSelfRef
    | some addr => (t.decRef addr).2.decSelfRef
  else t

/-- `__inc_ref`, which does not look at whether the node can be taken. -/
def incRefOf (it : Iterator) (t : Rbtree κ ν) : Rbtree κ ν :=
  if it.parent then
    match it.treenode with
    | none => t.incSelfRef
    | some addr => (t.incSelfRef.incRef addr).2
  else t

/-- `operator=` -/
def assign (it r : Iterator) (t : Rbtree κ ν) : Iterator × Rbtree κ ν :=
  ({ r with backwards := it.backwards }, it.decRefRbtree (r.incRefOf t))

/-- `operator++` of both iterators -/
def increment (it : Iterator) (t : Rbtree κ ν) : Iterator × Rbtree κ ν :=
  match it.treenode with
  | none => (it, t)
  | some addr =>
    let t := (t.decRef addr).2
    if (t.node? addr).isNone then ({ it with treenode := none }, t.misuse)
    else
      let found := t.seize (t.onwards it.backwards addr)
      ({ it with treenode := found.1 }, found.2)

def key (it : Iterator) (t : Rbtree κ ν) : Option κ :=
  it.treenode.bind fun addr => (t.node? addr).map RbtreeNode.first

end Iterator

namespace Rbtree

/-- `begin` and `rbegin`, given the nodes they look at. -/
def firstOf (backwards : Bool) (nodes : List Nat) (t : Rbtree κ ν) :
    Iterator × Rbtree κ ν :=
  let found := t.incSelfRef.seize nodes
  let t := found.2.decSelfRef
  match found.1 with
  | none => (.nowhere backwards, t)
  | some addr =>
    let dropped := t.decRef addr
    if dropped.1 then
      Iterator.incRefRbtree ⟨some addr, true, backwards⟩ dropped.2
    else (.nowhere backwards, dropped.2)

/-- `begin` -/
def beginIterator (t : Rbtree κ ν) : Iterator × Rbtree κ ν :=
  t.firstOf false t.addresses

/-- `rbegin`; from the last node on it goes on with `rb_next`, which finds
nothing there. -/
def rbeginIterator (t : Rbtree κ ν) : Iterator × Rbtree κ ν :=
  t.firstOf true t.addresses.getLast?.toList

/-- `rend` -/
def rendIterator (t : Rbtree κ ν) : Iterator × Rbtree κ ν :=
  Iterator.incRefRbtree ⟨none, true, true⟩ t

/-- `erase` of an iterator; what it returns is at the node behind. -/
def eraseAt (it : Iterator) (t : Rbtree κ ν) : Iterator × Rbtree κ ν :=
  match it.treenode with
  | none => (.nowhere it.backwards, t.misuse)
  | some addr =>
    let next := (t.onwards it.backwards addr).head?
    let t := (t.decRef addr).2
    match next with
    | none => (.nowhere it.backwards, t)
    | some addr => Iterator.incRefRbtree ⟨some addr, true, it.backwards⟩ t

variable [LinearOrder κ]

def search (key : κ) (t : Rbtree κ ν) : Option Nat :=
  match t.header.find? fun node => node.first = key with
  | none => none
  | some node => if node.refCount = 0 then none else some node.id

def find (key : κ) (t : Rbtree κ ν) : Iterator × Rbtree κ ν :=
  match t.search key with
  | none => (.nowhere false, t)
  | some addr => Iterator.incRefRbtree ⟨some addr, true, false⟩ t

/-- `erase` of a key -/
def eraseKey (key : κ) (t : Rbtree κ ν) : Bool × Rbtree κ ν :=
  match t.search key with
  | none => (false, t)
  | some addr => t.decRef addr

/-- `_insert` -/
def insertNode (node : RbtreeNode κ ν) (t : Rbtree κ ν) :
    Bool × Rbtree κ ν :=
  let t := t.incSelfRef
  if t.header.any fun other => other.first = node.first then
    (false, t.decSelfRef)
  else
    (true, { t with
      count := t.count + 1
      header := t.header.orderedInsert
        (fun one other => one.first < other.first)
        { node with refCount := 1 } }.decSelfRef)

/-- `insert`, when the pool has room for a node. -/
def insert (key : κ) (value : ν) (t : Rbtree κ ν) : Iterator × Rbtree κ ν :=
  let addr := t.created
  let inserted := { t with created := t.created + 1 }.insertNode
    ⟨addr, 0, key, value⟩
  if inserted.1 then
    Iterator.incRefRbtree ⟨some addr, true, false⟩ inserted.2
  else (.nowhere false, inserted.2.destroyObj addr)

end Rbtree

variable [LinearOrder κ]

/-- A map, the iterators that a program has, by the order of their creation,
and the keys that have been inserted and not erased. -/
structure World (κ ν : Type) where
  tree : Rbtree κ ν
  iterators : List (Option Iterator)
  kept : Finset κ

/-- What a program does.  An iterator that is returned is a new one; `room`
says whether the pool has room for a node. -/
inductive Input (κ ν : Type) where
  | insert (key : κ) (value : ν) (room : Bool)
  | erase (key : κ)
  | eraseAt (i : Nat)
  | find (key : κ)
  | atBegin
  | atRbegin
  | atEnd
  | atRend
  | copy (i : Nat)
  | assign (i j : Nat)
  | increment (i : Nat)
  | destroy (i : Nat)
  deriving DecidableEq, Repr

namespace World

def empty : World κ ν where
  tree := .empty
  iterators := []
  kept := ∅

def iterator (i : Nat) (w : World κ ν) : Option Iterator :=
  w.iterators[i]?.join

def push (w : World κ ν) (result : Iterator × Rbtree κ ν) : World κ ν :=
  { w with tree := result.2, iterators := w.iterators ++ [some result.1] }

def put (w : World κ ν) (i : Nat) (it : Option Iterator) (t : Rbtree κ ν) :
    World κ ν :=
  { w with tree := t, iterators := w.iterators.set i it }

def step (w : World κ ν) : Input κ ν → World κ ν
  | .insert key value room =>
    if room then
      { w.push (w.tree.insert key value) with
        kept := Insert.insert key w.kept }
    else w.push (.nowhere false, w.tree)
  | .erase key =>
    let erased := w.tree.eraseKey key
    { w with
      tree := erased.2
      kept := if erased.1 then w.kept.erase key else w.kept }
  | .eraseAt i =>
    match w.iterator i with
    | none => w
    | some it =>
      { w.push (w.tree.eraseAt it) with
        kept := (it.key w.tree).elim w.kept w.kept.erase }
  | .find key => w.push (w.tree.find key)
  | .atBegin => w.push w.tree.beginIterator
  | .atRbegin => w.push w.tree.rbeginIterator
  | .atEnd => w.push (.nowhere false, w.tree)
  | .atRend => w.push w.tree.rendIterator
  | .copy i =>
    match w.iterator i with
    | none => w
    | some it => w.push (it.incRefRbtree w.tree)
  | .assign i j =>
    match w.iterator i, w.iterator j with
    | some it, some r =>
      if it.backwards = r.backwards then
        let assigned := it.assign r w.tree
        w.put i (some assigned.1) assigned.2
      else w
    | _, _ => w
  | .increment i =>
    match w.iterator i with
    | none => w
    | some it =>
      let incremented := it.increment w.tree
      w.put i (some incremented.1) incremented.2
  | .destroy i =>
    match w.iterator i with
    | none => w
    | some it => w.put i none (it.decRefRbtree w.tree)

end World

end NdNet.RefTree
