import NdNet.Common.XmlText
import NdNet.Lib.Ring

/-!
# Editing XML trees

The nodes of `nd_xml.c` in a store, with the lists they are chained in by
pointers, and the operations that edit them.  A node stands in the list of its
parent with its entry `lst_self`; the head of its own list is `lst_sub`.  Its
attributes, whose entries no caller sees, are a list.

A pointer is the number of its node, and numbers are not given twice.  `none`
stands for an operation that does not return: one that follows a pointer to a
node that has been freed, or one whose loops run longer than `fuel`.  Memory can
always be allocated.
-/

namespace NdNet.Xml

open NdNet.Str

/-- An entry of a list of nodes: `lst_self` of a node, or `lst_sub`, the head
of the list of its children. -/
inductive Entry where
  | self (node : Nat)
  | sub (node : Nat)
  deriving DecidableEq

/-- `ndxml` without the pointers of its lists. -/
structure XmlNode where
  name : List Char
  value : List Char
  parent : Option Nat
  attrNum : Int
  attrs : List (List Char × List Char)
  subNum : Int

/-- `init_xml_node`, but for the lists. -/
def initXmlNode : XmlNode where
  name := []
  value := []
  parent := none
  attrNum := 0
  attrs := []
  subNum := 0

/-- The nodes that have not been freed, the pointers of all lists, and the
first number that has not been given to a node. -/
structure Store where
  nodes : Nat → Option XmlNode
  links : LinkTable Entry
  fresh : Nat

namespace Store

def empty : Store where
  nodes := fun _ => none
  links := { next := id, prev := id }
  fresh := 0

def Live (s : Store) (x : Nat) : Prop :=
  (s.nodes x).isSome = true

instance (s : Store) (x : Nat) : Decidable (s.Live x) :=
  inferInstanceAs (Decidable (_ = _))

section Nodes

def modify (s : Store) (x : Nat) (write : XmlNode → XmlNode) : Store :=
  { s with nodes := Function.update s.nodes x ((s.nodes x).map write) }

def relink (s : Store) (links : LinkTable Entry) : Store :=
  { s with links }

def allocXml (s : Store) : Store × Nat :=
  ({ nodes := Function.update s.nodes s.fresh (some initXmlNode)
     links := (s.links.init (.self s.fresh)).init (.sub s.fresh)
     fresh := s.fresh + 1 }, s.fresh)

/-- `_create_xmlnode`; it returns `NULL` without a name. -/
def createXmlnode (s : Store) (name value : Option (List Char)) :
    Store × Option Nat :=
  match name with
  | none => (s, none)
  | some name =>
    let (s, x) := s.allocXml
    (s.modify x fun node =>
      { node with name := name.take maxXmlnameSize
                  value := value.getD [] }, some x)

/-- `child->parent = parent; parent->sub_num++` -/
def adopted (s : Store) (parent child : Nat) : Store :=
  (s.modify child fun node => { node with parent := some parent }).modify
    parent fun node => { node with subNum := node.subNum + 1 }

/-- `ndxml_insert`, and how every new node is added to its parent. -/
def ndxmlInsert (s : Store) (parent child : Nat) : Store :=
  (s.relink (s.links.addTail (.self child) (.sub parent))).adopted parent child

def ndxmlAddsubnode (s : Store) (parent : Nat)
    (name value : Option (List Char)) : Store :=
  match s.createXmlnode name value with
  | (s, none) => s
  | (s, some child) => s.ndxmlInsert parent child

def ndxmlAddnode (s : Store) (xmlroot : Nat)
    (name value : Option (List Char)) : Store :=
  s.ndxmlAddsubnode xmlroot name value

end Nodes

section Searches

/-- The loops over the children of `parent`: the first one that `stop` accepts,
given its index, or none of them. -/
def seek (s : Store) (parent : Nat) (stop : Nat → Nat → Bool) :
    Nat → Nat → Entry → Option (Option Nat)
  | 0, _, _ => none
  | fuel + 1, index, position =>
    if position = .sub parent then some none
    else
      match position with
      | .sub _ => none
      | .self child =>
        if stop index child then some (some child)
        else s.seek parent stop fuel (index + 1) (s.links.next position)

def search (s : Store) (fuel parent : Nat) (stop : Nat → Nat → Bool) :
    Option (Option Nat) :=
  s.seek parent stop fuel 0 (s.links.next (.sub parent))

def ndxmlRefsub (s : Store) (fuel root : Nat) (name : List Char) :
    Option (Option Nat) :=
  s.search fuel root fun _ child =>
    (s.nodes child).any fun node => stricmp name node.name == 0

def ndxmlRefsubi (s : Store) (fuel root : Nat) (index : Int) :
    Option (Option Nat) :=
  s.search fuel root fun i _ => (i : Int) == index

def ndxmlGetnode (s : Store) (fuel xmlroot : Nat) (name : List Char) :
    Option (Option Nat) :=
  s.ndxmlRefsub fuel xmlroot name

def ndxmlGetnodei (s : Store) (fuel xmlroot : Nat) (index : Int) :
    Option (Option Nat) :=
  s.ndxmlRefsubi fuel xmlroot index

end Searches

section Insertion

def ndxmlInsertEx (s : Store) (fuel parent child : Nat) (index : Int) :
    Option Store :=
  if index ≠ -1 then
    match s.search fuel parent fun i _ => decide (index ≤ i) with
    | none => none
    | some (some place) =>
      some ((s.relink (s.links.add (.self child) (.self place))).modify
        parent fun node => { node with subNum := node.subNum + 1 })
    | some none => some (s.ndxmlInsert parent child)
  else some (s.ndxmlInsert parent child)

def ndxmlInsertAfter (s : Store) (parent insertNode brother : Nat) : Store :=
  if brother = parent then
    (s.relink (s.links.add (.self insertNode) (.sub parent))).adopted parent
      insertNode
  else if (s.nodes brother).bind XmlNode.parent ≠ some parent then s
  else
    (s.relink (s.links.add (.self insertNode) (.self brother))).adopted parent
      insertNode

def ndxmlInsertBefore (s : Store) (parent insertNode brother : Nat) : Store :=
  if brother = parent then
    (s.relink (s.links.addTail (.self insertNode) (.sub parent))).adopted
      parent insertNode
  else if (s.nodes brother).bind XmlNode.parent ≠ some parent then s
  else
    (s.relink (s.links.addTail (.self insertNode) (.self brother))).adopted
      parent insertNode

def ndxmlInitroot (s : Store) (root : Nat) : Store :=
  (s.modify root fun _ => initXmlNode).relink
    ((s.links.init (.self root)).init (.sub root))

def ndxmlMerge (s : Store) (host merged : Nat) : Store :=
  match s.nodes merged with
  | none => s
  | some node =>
    if 0 < node.subNum then
      ((s.relink (s.links.join (.sub merged) (.sub host))).modify host
        fun host => { host with subNum := host.subNum + node.subNum }
      ).ndxmlInitroot merged
    else s

end Insertion

section Deletion

def free (s : Store) (x : Nat) : Store :=
  { s with nodes := Function.update s.nodes x none }

mutual

def deallocXml : Nat → Store → Nat → Option Store
  | 0, _, _ => none
  | fuel + 1, s, x =>
    (releaseSubs fuel s x (s.links.next (.sub x))).map fun s => s.free x

/-- The loop of `_release_xml` over the children. -/
def releaseSubs : Nat → Store → Nat → Entry → Option Store
  | 0, _, _, _ => none
  | fuel + 1, s, x, position =>
    if position = .sub x then some s
    else
      match position with
      | .sub _ => none
      | .self child =>
        match deallocXml fuel (s.relink (s.links.del position)) child with
        | none => none
        | some freed => releaseSubs fuel freed x (s.links.next position)

end

/-- A child that has been found is taken out of the list and freed. -/
def delFound (s : Store) (fuel parent : Nat) :
    Option (Option Nat) → Option Store
  | none => none
  | some none => some s
  | some (some child) =>
    deallocXml fuel ((s.relink (s.links.del (.self child))).modify parent
      fun node => { node with subNum := node.subNum - 1 }) child

def ndxmlDelsubnode (s : Store) (fuel parent : Nat) (name : List Char) :
    Option Store :=
  s.delFound fuel parent (s.ndxmlRefsub fuel parent name)

def ndxmlDelsubnodei (s : Store) (fuel parent : Nat) (index : Int) :
    Option Store :=
  s.delFound fuel parent (s.ndxmlRefsubi fuel parent index)

def ndxmlDelnode (s : Store) (fuel xmlroot : Nat) (name : List Char) :
    Option Store :=
  s.delFound fuel xmlroot (s.ndxmlGetnode fuel xmlroot name)

def ndxmlDelnodei (s : Store) (fuel xmlroot : Nat) (index : Int) :
    Option Store :=
  s.delFound fuel xmlroot (s.ndxmlGetnodei fuel xmlroot index)

def ndxmlDelAllChildren (s : Store) (fuel parent : Nat) : Option Store :=
  (releaseSubs fuel s parent (s.links.next (.sub parent))).map fun s =>
    s.modify parent fun node => { node with subNum := 0 }

/-- `ndxml_delall_children`; its loop runs over the head that it has taken out
of the list before, and frees nothing. -/
def ndxmlDelallChildren (s : Store) (xml : Nat) : Store :=
  (s.relink (s.links.delInit (.sub xml))).modify xml fun node =>
    { node with subNum := 0 }

/-- `ndxml_unlink` with what it returns. -/
def ndxmlUnlink (s : Store) (fuel node : Nat) (xmlParent : Option Nat) :
    Option (Store × Int) :=
  match xmlParent <|> (s.nodes node).bind XmlNode.parent with
  | none => some (s.relink (s.links.delInit (.self node)), 0)
  | some parent =>
    if ¬ s.Live parent then none
    else
      match s.search fuel parent fun _ child => child == node with
      | none => none
      | some none => some (s, -1)
      | some (some _) =>
        some (((s.relink (s.links.delInit (.self node))).modify node
          fun node => { node with parent := none }).modify parent
            fun node => { node with subNum := node.subNum - 1 }, 0)

def ndxmlDelxml (s : Store) (fuel node : Nat) (xmlParent : Option Nat) :
    Option Store :=
  match xmlParent <|> (s.nodes node).bind XmlNode.parent with
  | some parent =>
    match s.ndxmlUnlink fuel node (some parent) with
    | none => none
    | some (s, ret) => if ret = 0 then deallocXml fuel s node else some s
  | none => deallocXml fuel (s.relink (s.links.del (.self node))) node

end Deletion

section Attributes

/-- `ndxml_getattrib`, as an index. -/
def getattrib (node : XmlNode) (name : List Char) : Option Nat :=
  node.attrs.findIdx? fun attr => stricmp name attr.1 == 0

/-- `ndxml_getattribi`, as an index. -/
def getattribi (node : XmlNode) (index : Int) : Option Nat :=
  if 0 ≤ index ∧ index < node.attrs.length then some index.toNat else none

def delAttr (node : XmlNode) : Option Nat → XmlNode
  | none => node
  | some index =>
    { node with attrs := node.attrs.eraseIdx index
                attrNum := node.attrNum - 1 }

/-- The attribute that has been found gets a value: in its place, or in a new
one that takes its place in the list. -/
def setAttr (node : XmlNode) (index : Nat) (value : List Char) : XmlNode :=
  { node with attrs := node.attrs.modify index fun attr => (attr.1, value) }

/-- `ndxml_addattrib` on the node. -/
def addAttr (node : XmlNode) (name value : Option (List Char)) : XmlNode :=
  match name, value with
  | some name, some value =>
    { node with attrs := node.attrs ++ [(name, value)]
                attrNum := node.attrNum + 1 }
  | _, _ => node

def ndxmlAddattrib (s : Store) (parent : Nat)
    (name value : Option (List Char)) : Store :=
  s.modify parent fun node => addAttr node name value

def ndxmlDelattrib (s : Store) (parent : Nat) (name : List Char) : Store :=
  s.modify parent fun node => delAttr node (getattrib node name)

def ndxmlDelattribi (s : Store) (parent : Nat) (index : Int) : Store :=
  s.modify parent fun node => delAttr node (getattribi node index)

def ndxmlSetattrval (s : Store) (parent : Nat)
    (name value : Option (List Char)) : Store :=
  match name with
  | none => s
  | some name =>
    if (value.getD []).isEmpty then s.ndxmlDelattrib parent name
    else
      s.modify parent fun node =>
        match getattrib node name with
        | none => addAttr node (some name) value
        | some index => setAttr node index (value.getD [])

def ndxmlSetattrvali (s : Store) (parent : Nat) (index : Int)
    (value : Option (List Char)) : Store :=
  s.modify parent fun node =>
    if index < 0 ∨ node.attrNum ≤ index then node
    else if (value.getD []).isEmpty then delAttr node (getattribi node index)
    else
      match getattribi node index with
      | none => node
      | some index => setAttr node index (value.getD [])

/-- `ndxml_delall_attrib`: like `ndxml_delall_children` it frees nothing, and
it clears the counter of the children. -/
def ndxmlDelallAttrib (s : Store) (xml : Nat) : Store :=
  s.modify xml fun node => { node with attrs := [], subNum := 0 }

end Attributes

section Copies

/-- A text that is given as `NULL` if it is empty: `ndxml_getattr_name` and
`ndxml_getattr_vali`. -/
def nonEmpty (text : List Char) : Option (List Char) :=
  if text.isEmpty then none else some text

/-- The loop of `ndxml_copy` over the attributes. -/
def copyAttrs (attrs : List (List Char × List Char)) (node : XmlNode) :
    XmlNode :=
  attrs.foldl (fun node attr =>
    addAttr node (nonEmpty attr.1) (nonEmpty attr.2)) node

mutual

/-- `ndxml_copy`; the node that is copied is not `NULL`. -/
def ndxmlCopy : Nat → Store → Nat → Option (Store × Nat)
  | 0, _, _ => none
  | fuel + 1, s, x =>
    match s.nodes x with
    | none => none
    | some node =>
      match s.createXmlnode (some node.name) (nonEmpty node.value) with
      | (_, none) => none
      | (s, some new) =>
        (copySubs fuel
          (s.modify new (copyAttrs (node.attrs.take node.attrNum.toNat)))
          x new 0).map fun s => (s, new)

/-- The loop of `ndxml_copy` over the children, from an index on. -/
def copySubs : Nat → Store → Nat → Nat → Nat → Option Store
  | 0, _, _, _, _ => none
  | fuel + 1, s, x, new, index =>
    match s.nodes x with
    | none => none
    | some node =>
      if node.subNum ≤ index then some s
      else
        match s.ndxmlRefsubi fuel x index with
        | none => none
        | some none => copySubs fuel s x new (index + 1)
        | some (some sub) =>
          match ndxmlCopy fuel s sub with
          | none => none
          | some (s, subNew) =>
            copySubs fuel (s.ndxmlInsert new subNew) x new (index + 1)

end

mutual

/-- The nodes `parse_xmlbuf` makes for what it has read. -/
def parsed (s : Store) : Ndxml → Store × Nat
  | .mk name attrs value subs =>
    let (s, x) := s.allocXml
    (parsedSubs (s.modify x fun node =>
      attrs.foldl (fun node attr => addAttr node (some attr.1) (some attr.2))
        { node with name, value }) x subs, x)

def parsedSubs (s : Store) (x : Nat) : List Ndxml → Store
  | [] => s
  | sub :: subs =>
    let (s, newXml) := parsed s sub
    parsedSubs (s.ndxmlInsert x newXml) x subs

end

/-- `ndxml_from_text`; what has been allocated before an error is freed
again. -/
def ndxmlFromText (s : Store) (code : CodeType) (text : List Char) :
    Option Store :=
  match Xml.ndxmlFromText code text with
  | none => none
  | some (.null _ _) => some s
  | some (.node xmlnode _ _) => some (parsed s xmlnode).1

end Copies

end Store

end NdNet.Xml
