import NdNet.Net.Packet
import Mathlib.Data.List.Induction

/-!
# The message table of `nd_msgentry.c`

A listener keeps a table of handlers, one row for each main message id from
`msgid_base` on and 64 entries in a row.  An entry holds a function or, with
the flag `is_script`, the text of a script; the privilege level it needs and
the mark of a system message stand beside it.  Handlers are taken from an
arbitrary type; what a handler does is of no interest here, only which one is
called.

`expectedCall` says which handler a message should reach, read off the history
of edits alone.
-/

namespace NdNet

def subMsgNum : Nat := 64

/-- What `entry` of a table node points to. -/
inductive EntryPtr (F : Type) where
  | func (entry : F)
  | text (script : List Char)
  deriving DecidableEq, Repr

/-- A call of a function the table knows. -/
inductive MsgCall (F : Type) where
  | direct (entry : EntryPtr F)
  | script (entry : EntryPtr F)
  | byDefault (entry : F)
  | print (entry : F)
  deriving DecidableEq, Repr

/-- `struct nd_msg_entry_node`; `level` has 16 bits. -/
structure MsgEntryNode (F : Type) where
  level : Nat
  sysMsg : Bool
  isScript : Bool
  isPrint : Bool
  entry : Option (EntryPtr F)

/-- The call an installed entry stands for: a script goes to the script
engine, anything else is called as a function. -/
def MsgEntryNode.call {F : Type} (node : MsgEntryNode F) :
    Option (MsgCall F) :=
  node.entry.map fun entry =>
    if node.isScript then .script entry else .direct entry

/-- `struct sub_msgentry` -/
structure SubMsgentry (F : Type) where
  isClose : Bool
  msgBuf : Nat → MsgEntryNode F

/-- `struct nd_msgentry_root` -/
structure MsgEntryRoot (F : Type) where
  mainNum : Nat
  msgidBase : Nat
  defEntry : Option F
  printEntry : Option F
  subBuf : Nat → SubMsgentry F

/-- The fields of a user message that the dispatcher reads. -/
structure UserMsg where
  length : Nat
  ndsysMsg : Bool
  maxid : Byte
  minid : Byte

/-- The flags of `struct nd_srv_node` that the dispatcher reads. -/
structure SrvFlags where
  unregMsgClose : Bool
  errorPrivilageClose : Bool

inductive MsgError where
  | unhandledMsg
  | noPrivilage
  | user
  deriving DecidableEq, Repr

/-- What came of a message: the calls made for it in order, the error left in
the connection and the value returned. -/
structure Translated (F : Type) where
  called : List (MsgCall F)
  error : Option MsgError
  result : Int

namespace MsgEntryRoot

variable {F : Type}

/-- A node as `memset` leaves it. -/
def clearNode : MsgEntryNode F :=
  { level := 0
    sysMsg := false
    isScript := false
    isPrint := false
    entry := none }

/-- `create_msgroot`, followed by `nd_msgentry_def_handler`. -/
def create (maxMainmsg base : Nat) (defEntry : Option F) : MsgEntryRoot F :=
  { mainNum := maxMainmsg
    msgidBase := base
    defEntry := defEntry
    printEntry := none
    subBuf := fun _ =>
      { isClose := false
        msgBuf := fun _ => clearNode } }

/-- `(ndmsgid_t) (maxid - root->msgid_base)` -/
def mainIndex (root : MsgEntryRoot F) (maxid : Int) : Nat :=
  ((maxid - root.msgidBase) % 256).toNat

/-- `_nd_msgentry_get_node`: the place of the node in the table. -/
def getNode (root : MsgEntryRoot F) (maxid minid : Byte) : Option (Nat × Nat) :=
  if root.mainNum ≤ root.mainIndex maxid.toNat then none
  else if subMsgNum ≤ minid.toNat then none
  else some (root.mainIndex maxid.toNat, minid.toNat)

def getNodeRun (root : MsgEntryRoot F) (maxid minid : Byte) :
    Option (MsgEntryNode F) :=
  if subMsgNum ≤ minid.toNat then none
  else if root.mainNum ≤ root.mainIndex maxid.toNat then none
  else if (root.subBuf (root.mainIndex maxid.toNat)).isClose then none
  else
    some ((root.subBuf (root.mainIndex maxid.toNat)).msgBuf minid.toNat)

def setSub (root : MsgEntryRoot F) (row : Nat)
    (change : SubMsgentry F → SubMsgentry F) : MsgEntryRoot F :=
  { root with
    subBuf := fun other =>
      if other = row then change (root.subBuf other) else root.subBuf other }

def setNodes (root : MsgEntryRoot F) (row : Nat) (which : Nat → Bool)
    (change : MsgEntryNode F → MsgEntryNode F) : MsgEntryRoot F :=
  root.setSub row fun sub =>
    { sub with
      msgBuf := fun index =>
        if which index then change (sub.msgBuf index) else sub.msgBuf index }

def install (root : MsgEntryRoot F) (func : Option F) (maxid minid : Byte)
    (level : Int) : Int × MsgEntryRoot F :=
  match root.getNode maxid minid with
  | none => (-1, root)
  | some (row, index) =>
    (0,
      root.setNodes row (· = index) fun node =>
        { node with
          entry := func.map .func
          level := (level % 65536).toNat
          isScript := false })

/-- `nd_msgentry_script_install`; a `NULL` script is an empty one. -/
def scriptInstall (root : MsgEntryRoot F) (script : List Char)
    (maxid minid : Byte) (level : Int) : Int × MsgEntryRoot F :=
  match root.getNode maxid minid with
  | none => (-1, root)
  | some (row, index) =>
    if script.isEmpty then (-1, root)
    else
      (0,
        root.setNodes row (· = index) fun node =>
          { node with
            entry := some (.text script)
            level := (level % 65536).toNat
            isScript := true })

/-- `nd_message_disable_group`; the flag `is_close` has one bit. -/
def disableGroup (root : MsgEntryRoot F) (maxId disable : Int) :
    Int × MsgEntryRoot F :=
  if root.mainNum ≤ root.mainIndex maxId then (-1, root)
  else
    ((root.subBuf (root.mainIndex maxId)).isClose.toNat,
      root.setSub (root.mainIndex maxId) fun sub =>
        { sub with isClose := disable % 2 = 1 })

def setSystem (root : MsgEntryRoot F) (maxid minid : Byte) (issystem : Int) :
    Int × MsgEntryRoot F :=
  if root.mainNum ≤ root.mainIndex maxid.toNat then (-1, root)
  else if minid = 255 then
    (0,
      root.setNodes (root.mainIndex maxid.toNat) (· < subMsgNum) fun node =>
        { node with sysMsg := issystem ≠ 0 })
  else if minid.toNat < subMsgNum then
    (0,
      root.setNodes (root.mainIndex maxid.toNat) (· = minid.toNat) fun node =>
        { node with sysMsg := issystem ≠ 0 })
  else (0, root)

/-- `_call_message_func`; `answer` gives the values the handlers return. -/
def callMessageFunc (root : MsgEntryRoot F) (node : Option (MsgEntryNode F))
    (answer : MsgCall F → Int) : List (MsgCall F) × Option MsgError :=
  match (node.bind MsgEntryNode.call).or (root.defEntry.map .byDefault) with
  | none => ([], some .unhandledMsg)
  | some call => ([call], if answer call = -1 then some .user else none)

/-- `nd_srv_translate_message` for a connection of the given level. -/
def srvTranslateMessage (root : MsgEntryRoot F) (srv : SrvFlags)
    (level : Fin 64) (msg : UserMsg) (answer : MsgCall F → Int) :
    Translated F :=
  match root.getNodeRun msg.maxid msg.minid with
  | none =>
    { called := []
      error := if srv.unregMsgClose then some .unhandledMsg else none
      result := if srv.unregMsgClose then -1 else msg.length }
  | some node =>
    let printed :=
      if node.isPrint then root.printEntry.toList.map .print else []
    if node.entry.isNone ∧ root.defEntry.isNone then
      { called := printed
        error := if srv.unregMsgClose then some .unhandledMsg else none
        result := if srv.unregMsgClose then -1 else msg.length }
    else if level < node.level ∨ (node.sysMsg ∧ ¬ msg.ndsysMsg) then
      { called := printed
        error := if srv.errorPrivilageClose then some .noPrivilage else none
        result := if srv.errorPrivilageClose then -1 else msg.length }
    else
      let outcome := root.callMessageFunc (some node) answer
      { called := printed ++ outcome.1
        error := outcome.2
        result := if outcome.2.isSome then -1 else msg.length }

end MsgEntryRoot

/-- The edits of a table. -/
inductive MsgEdit (F : Type) where
  | install (func : Option F) (maxid minid : Byte) (level : Int)
  | scriptInstall (script : List Char) (maxid minid : Byte) (level : Int)
  | setSystem (maxid minid : Byte) (issystem : Int)
  | disableGroup (maxId disable : Int)
  deriving DecidableEq, Repr

variable {which : Nat → Bool}

namespace MsgEdit

open MsgEntryRoot

variable {F : Type}

def apply (root : MsgEntryRoot F) : MsgEdit F → MsgEntryRoot F
  | .install func maxid minid level => (root.install func maxid minid level).2
  | .scriptInstall script maxid minid level =>
    (root.scriptInstall script maxid minid level).2
  | .setSystem maxid minid issystem => (root.setSystem maxid minid issystem).2
  | .disableGroup maxId disable => (root.disableGroup maxId disable).2

/-- The handler and the level of an installation for exactly this pair. -/
def installs (maxid minid : Byte) :
    MsgEdit F → Option (Option (MsgCall F) × Int)
  | .install func maxid' minid' level =>
    if maxid' = maxid ∧ minid' = minid then
      some (func.map fun entry => .direct (.func entry), level)
    else none
  | .scriptInstall script maxid' minid' level =>
    if maxid' = maxid ∧ minid' = minid ∧ script ≠ [] then
      some (some (.script (.text script)), level)
    else none
  | _ => none

/-- The mark an edit gives to the pair; the id 255 stands for a whole row. -/
def marks (maxid minid : Byte) : MsgEdit F → Option Bool
  | .setSystem maxid' minid' issystem =>
    if maxid' = maxid ∧ (minid' = 255 ∨ minid' = minid) then
      some (issystem ≠ 0)
    else none
  | _ => none

/-- The `disable` argument of an edit for this group. -/
def disables (maxid : Byte) : MsgEdit F → Option Int
  | .disableGroup maxId disable =>
    if maxId % 256 = maxid.toNat then some disable else none
  | _ => none

/-- The most recent edit that answers the question, or else what holds of a
fresh table. -/
def latest {β : Type} (question : MsgEdit F → Option β) (fresh : β)
    (edits : List (MsgEdit F)) : β :=
  (edits.reverse.findSome? question).getD fresh

def installed (maxid minid : Byte) (edits : List (MsgEdit F)) :
    Option (MsgCall F) × Int :=
  latest (installs maxid minid) (none, 0) edits

def marked (maxid minid : Byte) (edits : List (MsgEdit F)) : Bool :=
  latest (marks maxid minid) false edits

def disabled (maxid : Byte) (edits : List (MsgEdit F)) : Int :=
  latest (disables maxid) 0 edits

/-- The pair has an entry in a table with `mainNum` rows from `base` on. -/
def InTable (mainNum base : Nat) (maxid minid : Byte) : Prop :=
  ((maxid.toNat : Int) - base) % 256 < mainNum ∧ minid.toNat < subMsgNum

instance (mainNum base : Nat) (maxid minid : Byte) :
    Decidable (InTable mainNum base maxid minid) :=
  inferInstanceAs (Decidable (_ ∧ _))

/-- The handler the pair stands for: the one installed last, else the default
handler. -/
def handler (defEntry : Option F) (edits : List (MsgEdit F))
    (maxid minid : Byte) : Option (MsgCall F) :=
  (installed maxid minid edits).1.or (defEntry.map .byDefault)

def expectedCall (mainNum base : Nat) (defEntry : Option F)
    (edits : List (MsgEdit F)) (level : Fin 64) (msg : UserMsg) :
    Option (MsgCall F) :=
  if ¬ InTable mainNum base msg.maxid msg.minid then none
  else if disabled msg.maxid edits ≠ 0 then none
  else if (level : Int) < (installed msg.maxid msg.minid edits).2 then none
  else if marked msg.maxid msg.minid edits ∧ ¬ msg.ndsysMsg then none
  else handler defEntry edits msg.maxid msg.minid

/-- Cut to 16 bits, the level refuses the same connections. -/
def LevelKept (level : Int) : Prop :=
  level % 65536 = level ∨ (64 ≤ level ∧ 64 ≤ level % 65536) ∨
    (level < 0 ∧ level % 65536 = 0)

instance (level : Int) : Decidable (LevelKept level) :=
  inferInstanceAs (Decidable (_ ∨ _))

/-- The bit fields keep what the edits asked for: the group was disabled by an
odd number, or it is not disabled and the level is kept, or it was disabled by
an even number and no connection has the level that is left. -/
def GuardsKept (disable level : Int) : Prop :=
  disable % 2 = 1 ∨ (disable = 0 ∧ LevelKept level) ∨
    (disable ≠ 0 ∧ 64 ≤ level % 65536)

instance (disable level : Int) : Decidable (GuardsKept disable level) :=
  inferInstanceAs (Decidable (_ ∨ _))

variable {change : MsgEntryNode F → MsgEntryNode F}

section Follows

variable {mainNum base : Nat} {defEntry : Option F}
  {edits : List (MsgEdit F)} {root : MsgEntryRoot F}

theorem latest_append {β : Type} (question : MsgEdit F → Option β) (fresh : β)
    (edits : List (MsgEdit F)) (edit : MsgEdit F) :
    latest question fresh (edits ++ [edit]) =
      (question edit).getD (latest question fresh edits) := by
  unfold latest
  rw [List.reverse_append, List.reverse_singleton, List.singleton_append,
    List.findSome?_cons]
  cases question edit <;> rfl

/-- The table after some edits, as far as messages can tell. -/
structure Follows (mainNum base : Nat) (defEntry : Option F)
    (edits : List (MsgEdit F)) (root : MsgEntryRoot F) : Prop where
  mainNum_eq : root.mainNum = mainNum
  msgidBase_eq : root.msgidBase = base
  defEntry_eq : root.defEntry = defEntry
  closed : ∀ maxid : Byte, root.mainIndex maxid.toNat < mainNum →
    (root.subBuf (root.mainIndex maxid.toNat)).isClose =
      decide (disabled maxid edits % 2 = 1)
  level : ∀ maxid minid : Byte, InTable mainNum base maxid minid →
    ((root.subBuf (root.mainIndex maxid.toNat)).msgBuf minid.toNat).level =
      ((installed maxid minid edits).2 % 65536).toNat
  call : ∀ maxid minid : Byte, InTable mainNum base maxid minid →
    ((root.subBuf (root.mainIndex maxid.toNat)).msgBuf minid.toNat).call =
      (installed maxid minid edits).1
  sysMsg : ∀ maxid minid : Byte, InTable mainNum base maxid minid →
    ((root.subBuf (root.mainIndex maxid.toNat)).msgBuf minid.toNat).sysMsg =
      marked maxid minid edits
  isPrint : ∀ row index, ((root.subBuf row).msgBuf index).isPrint = false

theorem create_follows :
    Follows mainNum base defEntry []
      (MsgEntryRoot.create mainNum base defEntry) where
  mainNum_eq := rfl
  msgidBase_eq := rfl
  defEntry_eq := rfl
  closed := fun _ _ => rfl
  level := fun _ _ _ => rfl
  call := fun _ _ _ => rfl
  sysMsg := fun _ _ _ => rfl
  isPrint := fun _ _ => rfl

theorem mainIndex_eq_iff {maxId : Int} {maxid : Byte} :
    root.mainIndex maxid.toNat = root.mainIndex maxId ↔
      maxId % 256 = maxid.toNat := by
  have small := maxid.toNat_lt
  unfold MsgEntryRoot.mainIndex
  omega

theorem mainIndex_toNat_eq_iff {maxid other : Byte} :
    root.mainIndex maxid.toNat = root.mainIndex other.toNat ↔
      other = maxid := by
  have small := other.toNat_lt
  rw [mainIndex_eq_iff, ← UInt8.toNat_inj]
  omega

theorem inTable_iff (follows : Follows mainNum base defEntry edits root)
    {maxid minid : Byte} :
    InTable mainNum base maxid minid ↔
      root.mainIndex maxid.toNat < root.mainNum ∧ minid.toNat < subMsgNum := by
  unfold InTable MsgEntryRoot.mainIndex
  rw [follows.mainNum_eq, follows.msgidBase_eq]
  omega

theorem msgBuf_setNodes {row other index : Nat} :
    ((root.setNodes row which change).subBuf other).msgBuf index =
      if other = row ∧ which index then change ((root.subBuf other).msgBuf index)
      else (root.subBuf other).msgBuf index := by
  unfold MsgEntryRoot.setNodes MsgEntryRoot.setSub
  by_cases same : other = row
  · simp only [same, true_and, if_true]
  · simp only [same, false_and, if_false]

theorem isClose_setNodes {row other : Nat} :
    ((root.setNodes row which change).subBuf other).isClose =
      (root.subBuf other).isClose := by
  unfold MsgEntryRoot.setNodes MsgEntryRoot.setSub
  by_cases same : other = row
  · simp only [if_pos same]
  · simp only [if_neg same]

section

variable (follows : Follows mainNum base defEntry edits root)
include follows

/-- Writing nodes keeps the table in step with the history if it writes just
the nodes the edit speaks about, and as the edit says. -/
theorem Follows.setNodes (edit : MsgEdit F) {row : Nat}
    (groups : ∀ maxid, disables maxid edit = none)
    (unprinted : ∀ node, (change node).isPrint = node.isPrint)
    (written : ∀ maxid minid : Byte, InTable mainNum base maxid minid →
      root.mainIndex maxid.toNat = row → which minid.toNat = true →
      ∀ node, (change node).level =
          ((((installs maxid minid edit).map
            fun answer => (answer.2 % 65536).toNat)).getD node.level) ∧
        (change node).call =
          ((installs maxid minid edit).map Prod.fst).getD node.call ∧
        (change node).sysMsg = (marks maxid minid edit).getD node.sysMsg)
    (others : ∀ maxid minid : Byte, InTable mainNum base maxid minid →
      ¬ (root.mainIndex maxid.toNat = row ∧ which minid.toNat = true) →
      installs maxid minid edit = none ∧ marks maxid minid edit = none) :
    Follows mainNum base defEntry (edits ++ [edit])
      (root.setNodes row which change) := by
  have index : ∀ maxid, (root.setNodes row which change).mainIndex maxid =
      root.mainIndex maxid := fun _ => rfl
  constructor
  case mainNum_eq => exact follows.mainNum_eq
  case msgidBase_eq => exact follows.msgidBase_eq
  case defEntry_eq => exact follows.defEntry_eq
  case closed =>
    intro maxid inside
    rw [index, isClose_setNodes, disabled, latest_append, groups]
    exact follows.closed maxid inside
  case level =>
    intro maxid minid inside
    rw [index, msgBuf_setNodes, installed, latest_append]
    split
    · rename_i here
      rw [(written maxid minid inside here.1 here.2 _).1]
      cases installs maxid minid edit with
      | none => exact follows.level maxid minid inside
      | some answer => rfl
    · rename_i away
      rw [(others maxid minid inside away).1]
      exact follows.level maxid minid inside
  case call =>
    intro maxid minid inside
    rw [index, msgBuf_setNodes, installed, latest_append]
    split
    · rename_i here
      rw [(written maxid minid inside here.1 here.2 _).2.1]
      cases installs maxid minid edit with
      | none => exact follows.call maxid minid inside
      | some answer => rfl
    · rename_i away
      rw [(others maxid minid inside away).1]
      exact follows.call maxid minid inside
  case sysMsg =>
    intro maxid minid inside
    rw [index, msgBuf_setNodes, marked, latest_append]
    split
    · rename_i here
      rw [(written maxid minid inside here.1 here.2 _).2.2]
      cases marks maxid minid edit with
      | none => exact follows.sysMsg maxid minid inside
      | some answer => rfl
    · rename_i away
      rw [(others maxid minid inside away).2]
      exact follows.sysMsg maxid minid inside
  case isPrint =>
    intro other position
    rw [msgBuf_setNodes]
    split
    · rw [unprinted]
      exact follows.isPrint other position
    · exact follows.isPrint other position

theorem Follows.append_silent {edit : MsgEdit F}
    (groups : ∀ maxid : Byte, root.mainIndex maxid.toNat < mainNum →
      disables maxid edit = none)
    (silent : ∀ maxid minid : Byte, InTable mainNum base maxid minid →
      installs maxid minid edit = none ∧ marks maxid minid edit = none) :
    Follows mainNum base defEntry (edits ++ [edit]) root := by
  constructor
  case mainNum_eq => exact follows.mainNum_eq
  case msgidBase_eq => exact follows.msgidBase_eq
  case defEntry_eq => exact follows.defEntry_eq
  case closed =>
    intro maxid inside
    rw [disabled, latest_append, groups maxid inside]
    exact follows.closed maxid inside
  case level =>
    intro maxid minid inside
    rw [installed, latest_append, (silent maxid minid inside).1]
    exact follows.level maxid minid inside
  case call =>
    intro maxid minid inside
    rw [installed, latest_append, (silent maxid minid inside).1]
    exact follows.call maxid minid inside
  case sysMsg =>
    intro maxid minid inside
    rw [marked, latest_append, (silent maxid minid inside).2]
    exact follows.sysMsg maxid minid inside
  case isPrint => exact follows.isPrint

theorem getNode_cases (maxid minid : Byte) :
    (InTable mainNum base maxid minid ∧
      root.getNode maxid minid =
        some (root.mainIndex maxid.toNat, minid.toNat)) ∨
      (¬ InTable mainNum base maxid minid ∧
        root.getNode maxid minid = none) := by
  rw [inTable_iff follows]
  unfold MsgEntryRoot.getNode
  split
  · rename_i out
    exact .inr ⟨fun both => absurd both.1 (Nat.not_lt.mpr out), rfl⟩
  · split
    · rename_i out
      exact .inr ⟨fun both => absurd both.2 (Nat.not_lt.mpr out), rfl⟩
    · rename_i row index
      exact .inl ⟨⟨Nat.not_le.mp row, Nat.not_le.mp index⟩, rfl⟩

end

theorem samePair_iff {maxid minid maxid' minid' : Byte} :
    root.mainIndex maxid.toNat = root.mainIndex maxid'.toNat ∧
        decide (minid.toNat = minid'.toNat) = true ↔
      maxid' = maxid ∧ minid' = minid := by
  rw [mainIndex_toNat_eq_iff, decide_eq_true_iff, UInt8.toNat_inj,
    eq_comm (a := minid)]

section

variable (follows : Follows mainNum base defEntry edits root)
include follows

theorem Follows.setOne (edit : MsgEdit F) {maxid' minid' : Byte}
    (groups : ∀ maxid, disables maxid edit = none)
    (unprinted : ∀ node, (change node).isPrint = node.isPrint)
    (written : ∀ node, (change node).level =
          ((((installs maxid' minid' edit).map
            fun answer => (answer.2 % 65536).toNat)).getD node.level) ∧
        (change node).call =
          ((installs maxid' minid' edit).map Prod.fst).getD node.call ∧
        (change node).sysMsg = (marks maxid' minid' edit).getD node.sysMsg)
    (others : ∀ maxid minid : Byte, InTable mainNum base maxid minid →
      ¬ (maxid' = maxid ∧ minid' = minid) →
      installs maxid minid edit = none ∧ marks maxid minid edit = none) :
    Follows mainNum base defEntry (edits ++ [edit])
      (root.setNodes (root.mainIndex maxid'.toNat) (· = minid'.toNat)
        change) := by
  refine follows.setNodes edit groups unprinted ?_ ?_
  · intro maxid minid _ sameRow sameIndex
    obtain ⟨rfl, rfl⟩ := samePair_iff.mp ⟨sameRow, sameIndex⟩
    exact written
  · intro maxid minid inside away
    exact others maxid minid inside (fun same => away (samePair_iff.mpr same))

theorem install_follows (func : Option F) (maxid' minid' : Byte) (level : Int) :
    Follows mainNum base defEntry
      (edits ++ [.install func maxid' minid' level])
      (root.install func maxid' minid' level).2 := by
  have away : ∀ maxid minid : Byte, ¬ (maxid' = maxid ∧ minid' = minid) →
      installs maxid minid (.install func maxid' minid' level) = none ∧
        marks maxid minid (.install func maxid' minid' level) = none :=
    fun _ _ differ => ⟨if_neg differ, rfl⟩
  unfold MsgEntryRoot.install
  rcases getNode_cases follows maxid' minid' with
    ⟨inside, found⟩ | ⟨outside, found⟩
  · simp only [found]
    refine follows.setOne _ ?_ ?_ ?_ (fun maxid minid _ => away maxid minid)
    · exact fun _ => rfl
    · exact fun _ => rfl
    · intro node
      rw [installs, if_pos ⟨rfl, rfl⟩]
      refine ⟨rfl, ?_, rfl⟩
      cases func <;> rfl
  · simp only [found]
    refine follows.append_silent (fun _ _ => rfl) ?_
    intro maxid minid inside
    refine away maxid minid ?_
    rintro ⟨rfl, rfl⟩
    exact outside inside

theorem scriptInstall_follows (script : List Char) (maxid' minid' : Byte)
    (level : Int) :
    Follows mainNum base defEntry
      (edits ++ [.scriptInstall script maxid' minid' level])
      (root.scriptInstall script maxid' minid' level).2 := by
  have away : ∀ maxid minid : Byte,
      ¬ (maxid' = maxid ∧ minid' = minid ∧ script ≠ []) →
      installs maxid minid
          (.scriptInstall script maxid' minid' level : MsgEdit F) = none ∧
        marks maxid minid
          (.scriptInstall script maxid' minid' level : MsgEdit F) = none :=
    fun _ _ differ => ⟨if_neg differ, rfl⟩
  unfold MsgEntryRoot.scriptInstall
  rcases getNode_cases follows maxid' minid' with
    ⟨inside, found⟩ | ⟨outside, found⟩
  · simp only [found]
    by_cases empty : script = []
    · rw [if_pos (List.isEmpty_iff.mpr empty)]
      refine follows.append_silent (fun _ _ => rfl) ?_
      intro maxid minid _
      exact away maxid minid (fun all => all.2.2 empty)
    · rw [if_neg (fun isEmpty => empty (List.isEmpty_iff.mp isEmpty))]
      dsimp only
      refine follows.setOne _ ?_ ?_ ?_ ?_
      · exact fun _ => rfl
      · exact fun _ => rfl
      · intro node
        rw [installs, if_pos ⟨rfl, rfl, empty⟩]
        exact ⟨rfl, rfl, rfl⟩
      · intro maxid minid _ differ
        exact away maxid minid (fun all => differ ⟨all.1, all.2.1⟩)
  · simp only [found]
    refine follows.append_silent (fun _ _ => rfl) ?_
    intro maxid minid inside
    refine away maxid minid ?_
    rintro ⟨rfl, rfl, _⟩
    exact outside inside

theorem setSystem_follows (maxid' minid' : Byte) (issystem : Int) :
    Follows mainNum base defEntry (edits ++ [.setSystem maxid' minid' issystem])
      (root.setSystem maxid' minid' issystem).2 := by
  have away : ∀ maxid minid : Byte,
      ¬ (maxid' = maxid ∧ (minid' = 255 ∨ minid' = minid)) →
      installs maxid minid (.setSystem maxid' minid' issystem : MsgEdit F) =
          none ∧
        marks maxid minid (.setSystem maxid' minid' issystem : MsgEdit F) =
          none :=
    fun _ _ differ => ⟨rfl, if_neg differ⟩
  unfold MsgEntryRoot.setSystem
  split
  · rename_i outside
    refine follows.append_silent (fun _ _ => rfl) ?_
    intro maxid minid inside
    refine away maxid minid ?_
    rintro ⟨rfl, _⟩
    exact absurd ((inTable_iff follows).mp inside).1 (Nat.not_lt.mpr outside)
  · split
    · rename_i whole
      dsimp only
      refine follows.setNodes _ ?_ ?_ ?_ ?_
      · exact fun _ => rfl
      · exact fun _ => rfl
      · intro maxid minid _ sameRow _ node
        have same := mainIndex_toNat_eq_iff.mp sameRow
        rw [marks, if_pos ⟨same, .inl whole⟩]
        exact ⟨rfl, rfl, rfl⟩
      · intro maxid minid inside differ
        refine away maxid minid ?_
        rintro ⟨rfl, _⟩
        refine differ ⟨rfl, decide_eq_true ?_⟩
        exact ((inTable_iff follows).mp inside).2
    · rename_i single
      split
      · dsimp only
        refine follows.setOne _ ?_ ?_ ?_ ?_
        · exact fun _ => rfl
        · exact fun _ => rfl
        · intro node
          rw [marks, if_pos ⟨rfl, .inr rfl⟩]
          exact ⟨rfl, rfl, rfl⟩
        · intro maxid minid _ differ
          refine away maxid minid ?_
          rintro ⟨same, row | index⟩
          · exact single row
          · exact differ ⟨same, index⟩
      · rename_i outside
        refine follows.append_silent (fun _ _ => rfl) ?_
        intro maxid minid inside
        refine away maxid minid ?_
        rintro ⟨_, row | rfl⟩
        · exact single row
        · exact outside ((inTable_iff follows).mp inside).2

theorem disableGroup_follows (maxId disable : Int) :
    Follows mainNum base defEntry (edits ++ [.disableGroup maxId disable])
      (root.disableGroup maxId disable).2 := by
  unfold MsgEntryRoot.disableGroup
  split
  · rename_i outside
    refine follows.append_silent ?_ (fun _ _ _ => ⟨rfl, rfl⟩)
    intro maxid inside
    refine if_neg ?_
    intro same
    rw [mainIndex_eq_iff.mpr same] at inside
    exact absurd inside (Nat.not_lt.mpr (follows.mainNum_eq ▸ outside))
  · -- The nodes of the row stay as they are; only its flag is written.
    have nodes : ∀ row index,
        (((root.setSub (root.mainIndex maxId) fun sub =>
          { sub with isClose := disable % 2 = 1 }).subBuf row).msgBuf index) =
          (root.subBuf row).msgBuf index := by
      intro row index
      unfold MsgEntryRoot.setSub
      by_cases same : row = root.mainIndex maxId
      · simp only [if_pos same]
      · simp only [if_neg same]
    constructor
    case mainNum_eq => exact follows.mainNum_eq
    case msgidBase_eq => exact follows.msgidBase_eq
    case defEntry_eq => exact follows.defEntry_eq
    case closed =>
      intro maxid inside
      change (if root.mainIndex maxid.toNat = root.mainIndex maxId then _
        else _ : SubMsgentry F).isClose = _
      rw [disabled, latest_append, disables]
      by_cases same : maxId % 256 = maxid.toNat
      · rw [if_pos (mainIndex_eq_iff.mpr same), if_pos same]
        rfl
      · rw [if_neg (fun rows => same (mainIndex_eq_iff.mp rows)), if_neg same]
        exact follows.closed maxid inside
    case level =>
      intro maxid minid inside
      rw [nodes, installed, latest_append]
      exact follows.level maxid minid inside
    case call =>
      intro maxid minid inside
      rw [nodes, installed, latest_append]
      exact follows.call maxid minid inside
    case sysMsg =>
      intro maxid minid inside
      rw [nodes, marked, latest_append]
      exact follows.sysMsg maxid minid inside
    case isPrint =>
      intro row index
      rw [nodes]
      exact follows.isPrint row index

theorem apply_follows (edit : MsgEdit F) :
    Follows mainNum base defEntry (edits ++ [edit]) (apply root edit) := by
  cases edit with
  | install func maxid minid level =>
    exact install_follows follows func maxid minid level
  | scriptInstall script maxid minid level =>
    exact scriptInstall_follows follows script maxid minid level
  | setSystem maxid minid issystem =>
    exact setSystem_follows follows maxid minid issystem
  | disableGroup maxId disable =>
    exact disableGroup_follows follows maxId disable

end

theorem run_follows (edits : List (MsgEdit F)) :
    Follows mainNum base defEntry edits
      (edits.foldl apply (MsgEntryRoot.create mainNum base defEntry)) := by
  induction edits using List.reverseRecOn with
  | nil => exact create_follows
  | append_singleton edits edit induction =>
    rw [List.foldl_append]
    exact apply_follows induction edit

theorem getNodeRun_eq (follows : Follows mainNum base defEntry edits root)
    (maxid minid : Byte) :
    root.getNodeRun maxid minid =
      if InTable mainNum base maxid minid ∧ disabled maxid edits % 2 ≠ 1 then
        some ((root.subBuf (root.mainIndex maxid.toNat)).msgBuf minid.toNat)
      else none := by
  unfold MsgEntryRoot.getNodeRun
  have table : InTable mainNum base maxid minid ↔ _ := inTable_iff follows
  split
  · rename_i index
    rw [if_neg (fun all => absurd (table.mp all.1).2 (Nat.not_lt.mpr index))]
  rename_i index
  split
  · rename_i row
    rw [if_neg (fun all => absurd (table.mp all.1).1 (Nat.not_lt.mpr row))]
  · rename_i row
    have inside := table.mpr ⟨Nat.not_le.mp row, Nat.not_le.mp index⟩
    rw [follows.closed maxid (follows.mainNum_eq ▸ Nat.not_le.mp row)]
    by_cases odd : disabled maxid edits % 2 = 1
    · rw [if_pos (decide_eq_true odd), if_neg (fun all => all.2 odd)]
    · rw [if_neg (by simpa using odd), if_pos ⟨inside, odd⟩]

theorem called_eq (follows : Follows mainNum base defEntry edits root)
    (srv : SrvFlags) (level : Fin 64) (msg : UserMsg) (answer : MsgCall F → Int)
    :
    (root.srvTranslateMessage srv level msg answer).called =
      (if ¬ InTable mainNum base msg.maxid msg.minid then none
        else if disabled msg.maxid edits % 2 = 1 then none
        else if (level : Int) <
          (installed msg.maxid msg.minid edits).2 % 65536 then none
        else if marked msg.maxid msg.minid edits ∧ ¬ msg.ndsysMsg then none
        else handler defEntry edits msg.maxid msg.minid).toList := by
  unfold MsgEntryRoot.srvTranslateMessage
  rw [getNodeRun_eq follows]
  by_cases inside : InTable mainNum base msg.maxid msg.minid
  case neg =>
    rw [if_neg (fun all => inside all.1), if_pos inside]
    rfl
  rw [if_neg (not_not_intro inside)]
  by_cases closed : disabled msg.maxid edits % 2 = 1
  case pos =>
    rw [if_neg (fun all => all.2 closed), if_pos closed]
    rfl
  rw [if_pos ⟨inside, closed⟩, if_neg closed]
  have needs := follows.level msg.maxid msg.minid inside
  have call := follows.call msg.maxid msg.minid inside
  have system := follows.sysMsg msg.maxid msg.minid inside
  have silent := follows.isPrint (root.mainIndex msg.maxid.toNat)
    msg.minid.toNat
  have default := follows.defEntry_eq
  generalize (root.subBuf (root.mainIndex msg.maxid.toNat)).msgBuf
    msg.minid.toNat = node at needs call system silent
  have guard : (level : Nat) < node.level ↔
      (level : Int) < (installed msg.maxid msg.minid edits).2 % 65536 := by
    omega
  simp only [silent, Bool.false_eq_true, if_false, List.nil_append, guard,
    system, default]
  unfold MsgEntryRoot.callMessageFunc handler
  rw [← call, default]
  -- Without a handler nothing is called, whatever the guards say.
  cases found : node.call.or (defEntry.map MsgCall.byDefault) with
  | none =>
    obtain ⟨noEntry, noDefault⟩ := Option.or_eq_none_iff.mp found
    have empty : node.entry.isNone ∧ defEntry.isNone := by
      unfold MsgEntryNode.call at noEntry
      simpa using And.intro noEntry noDefault
    simp only [if_pos empty, ite_self]
    rfl
  | some call =>
    have present : ¬ (node.entry.isNone ∧ defEntry.isNone) := by
      rintro ⟨noEntry, noDefault⟩
      unfold MsgEntryNode.call at found
      simp [Option.isNone_iff_eq_none.mp noEntry,
        Option.isNone_iff_eq_none.mp noDefault] at found
    rw [if_neg present]
    by_cases low : (level : Int) <
        (installed msg.maxid msg.minid edits).2 % 65536
    · rw [if_pos (.inl low), if_pos low]
      rfl
    · by_cases foreign : marked msg.maxid msg.minid edits ∧ ¬ msg.ndsysMsg
      · rw [if_pos (.inr foreign), if_neg low, if_pos foreign]
        rfl
      · rw [if_neg (not_or_intro low foreign), if_neg low, if_neg foreign]
        simp only [Option.bind_some, found]
        rfl

/-- A connection tells a level from what is left of it in 16 bits only if the
level is not kept. -/
theorem levelKept_iff {level : Int} :
    LevelKept level ↔ ∀ own : Fin 64,
      (own : Int) < level ↔ (own : Int) < level % 65536 := by
  constructor
  · intro kept own
    have small := own.isLt
    unfold LevelKept at kept
    omega
  · intro same
    have lowest := same 0
    have highest := same 63
    by_contra lost
    unfold LevelKept at lost
    -- The smaller of the two levels separates them, if it is a level at all.
    by_cases reachable : 0 ≤ min level (level % 65536) ∧
        min level (level % 65536) < 64
    · have middle := same ⟨(min level (level % 65536)).toNat, by omega⟩
      simp only at middle
      omega
    · simp only [Fin.val_zero] at lowest
      have top : ((63 : Fin 64) : Nat) = 63 := rfl
      rw [top] at highest
      omega

/-- For a pair that has a handler, every connection is treated as expected
exactly if the bit fields keep the arguments. -/
theorem guards_iff {disable level : Int} {call : MsgCall F} :
    (∀ own : Fin 64,
      (if disable % 2 = 1 then none
        else if (own : Int) < level % 65536 then none else some call) =
      (if disable ≠ 0 then none
        else if (own : Int) < level then none else some call)) ↔
      GuardsKept disable level := by
  unfold GuardsKept
  by_cases odd : disable % 2 = 1
  · have nonzero : disable ≠ 0 := by omega
    refine iff_of_true ?_ (.inl odd)
    intro own
    rw [if_pos odd, if_pos nonzero]
  rw [or_iff_right odd]
  by_cases zero : disable = 0
  · have kept : (disable = 0 ∧ LevelKept level) ∨
        (disable ≠ 0 ∧ 64 ≤ level % 65536) ↔ LevelKept level := by
      simp [zero]
    rw [kept, levelKept_iff]
    refine forall_congr' fun own => ?_
    rw [if_neg odd, if_neg (not_not_intro zero)]
    by_cases left : (own : Int) < level % 65536
    · by_cases given : (own : Int) < level <;> simp [left, given]
    · by_cases given : (own : Int) < level <;> simp [left, given]
  · have kept : (disable = 0 ∧ LevelKept level) ∨
        (disable ≠ 0 ∧ 64 ≤ level % 65536) ↔ 64 ≤ level % 65536 := by
      simp [zero]
    rw [kept]
    constructor
    · intro refused
      have highest := refused 63
      rw [if_neg odd, if_pos zero] at highest
      split at highest
      · rename_i above
        have top : (((63 : Fin 64) : Nat) : Int) = 63 := rfl
        omega
      · exact absurd highest (Option.some_ne_none call)
    · intro outOfReach own
      have below : ((own : Nat) : Int) < level % 65536 := by omega
      rw [if_neg odd, if_pos below, if_pos zero]

/-- Which handler `nd_srv_translate_message` calls is for all messages and
connections the one the history of edits says, exactly if for every pair with
a handler the bit fields keep the last `disable` and the last level. -/
theorem srvTranslateMessage_exact_iff (mainNum base : Nat)
    (defEntry : Option F) (edits : List (MsgEdit F)) (srv : SrvFlags)
    (answer : MsgCall F → Int) :
    (∀ (level : Fin 64) (msg : UserMsg),
      ((edits.foldl apply (MsgEntryRoot.create mainNum base defEntry)
          ).srvTranslateMessage srv level msg answer).called =
        (expectedCall mainNum base defEntry edits level msg).toList) ↔
      ∀ maxid minid, InTable mainNum base maxid minid →
        handler defEntry edits maxid minid = none ∨
          GuardsKept (disabled maxid edits) (installed maxid minid edits).2 := by
  have follows : Follows mainNum base defEntry edits _ := run_follows edits
  constructor
  · intro exact maxid minid inside
    cases found : handler defEntry edits maxid minid with
    | none => exact .inl rfl
    | some call =>
      refine .inr ((@guards_iff F _ _ call).mp ?_)
      intro own
      -- A message marked as a system message meets no other guard.
      have here := exact own ⟨6, true, maxid, minid⟩
      rw [called_eq follows] at here
      have same := congrArg List.head? here
      rw [Option.head?_toList, Option.head?_toList] at same
      simpa [expectedCall, inside, found] using same
  · intro kept level msg
    rw [called_eq follows]
    unfold expectedCall
    split
    · rfl
    rename_i inside
    rw [not_not] at inside
    rcases kept msg.maxid msg.minid inside with nothing | guards
    · simp only [nothing, ite_self]
    cases found : handler defEntry edits msg.maxid msg.minid with
    | none => simp only [ite_self]
    | some call =>
      by_cases foreign :
          marked msg.maxid msg.minid edits ∧ ¬ msg.ndsysMsg
      · simp only [if_pos foreign, ite_self]
      · simp only [if_neg foreign]
        rw [guards_iff.mpr guards level]

/-- A group disabled with the argument 2 still has its handler called. -/
theorem srvTranslateMessage_disabled_called :
    expectedCall 4 0 none
        [.install (some 7) 1 2 0, .disableGroup 1 2] 0 ⟨6, false, 1, 2⟩ =
      (none : Option (MsgCall Nat)) ∧
    (([.install (some 7) 1 2 0, .disableGroup 1 2].foldl apply
        (MsgEntryRoot.create 4 0 none)).srvTranslateMessage ⟨false, false⟩ 0
        ⟨6, false, 1, 2⟩ (fun _ => 0)).called =
      [.direct (.func 7)] := by
  decide

end Follows

end MsgEdit

end NdNet
