import NdNet.Common.Str

/-!
# Writing and parsing XML

`xml_tobuf` and `parse_xmlbuf` of `nd_xml.c` with what they call.  A tree holds
what the source keeps in its nodes; a null `value` and an empty one are the same
to every reader and are both `[]` here.

A position in a text is the text from there on.  `none` stands for undefined
behaviour: a null pointer that is followed, a character that reaches over the
end of the text, a byte that is written behind its buffer.  For an entity of
unknown name no character is written: `stale` is what the buffer held there, or
`none` where that counts as undefined too.
-/

namespace NdNet.Xml

open NdNet.Str

/-- `ndxml` without its links and counters. -/
inductive Ndxml where
  | mk (name : List Char) (attrs : List (List Char × List Char))
      (value : List Char) (subs : List Ndxml)

def maxXmlnameSize : Nat := 64

/-- `sizeof (textBuf)`, and the buffer `parse_xmlbuf` reads an attribute in. -/
def textBufSize : Nat := 4096

section Writer

/-- The entity `_out_replace_text` writes for a character. -/
def entity (c : Char) : Option (List Char) :=
  if c = '\'' then some "&apos;".toList
  else if c = '"' then some "&quot;".toList
  else if c = '&' then some "&amp;".toList
  else if c = '<' then some "&lt;".toList
  else if c = '>' then some "&gt;".toList
  else none

/-- The loop of `_out_replace_text` with `bufSize` bytes left.  It leaves the
loop when none is left; then already the closing NUL lies behind the buffer. -/
def outReplaceFrom (code : CodeType) :
    Nat → Int → List Char → Option (List Char)
  | _, bufSize, [] => if 0 < bufSize then some [] else none
  | 0, _, _ :: _ => none
  | fuel + 1, bufSize, c :: rest =>
    if bufSize ≤ 0 then none
    else
      match entity c with
      | some text =>
        (outReplaceFrom code fuel (bufSize - text.length) rest).map
          (text ++ ·)
      | none =>
        match readUtf8char code (c :: rest) with
        | none => none
        | some (word, after) =>
          (outReplaceFrom code fuel (bufSize - word.length) after).map
            (word ++ ·)

def outReplaceText (code : CodeType) (src : List Char) (len : Nat) :
    Option (List Char) :=
  outReplaceFrom code src.length len src

/-- What `xml_tobuf` writes for one attribute. -/
def attribToBuf (code : CodeType) (attr : List Char × List Char) :
    Option (List Char) :=
  if attr.2.isEmpty then some (' ' :: attr.1 ++ "=\"\"".toList)
  else
    (outReplaceText code attr.2 textBufSize).map fun text =>
      ' ' :: attr.1 ++ "=\"".toList ++ text ++ "\"".toList

def attribsToBuf (code : CodeType) :
    List (List Char × List Char) → Option (List Char)
  | [] => some []
  | attr :: attrs =>
    match attribToBuf code attr, attribsToBuf code attrs with
    | some first, some others => some (first ++ others)
    | _, _ => none

mutual

/-- `xml_tobuf`, into a buffer that is large enough. -/
def xmlTobuf (code : CodeType) : Ndxml → Option (List Char)
  | .mk name attrs value subs =>
    match attribsToBuf code attrs with
    | none => none
    | some attribs =>
      if !value.isEmpty then
        (outReplaceText code value textBufSize).map fun text =>
          '<' :: name ++ attribs ++ '>' :: text ++
            '<' :: '/' :: name ++ "> ".toList
      else if !subs.isEmpty then
        (xmlsTobuf code subs).map fun text =>
          '<' :: name ++ attribs ++ "> ".toList ++ text ++
            '<' :: '/' :: name ++ "> ".toList
      else some ('<' :: name ++ attribs ++ "/> ".toList)

/-- The loop of `xml_tobuf` over the children. -/
def xmlsTobuf (code : CodeType) : List Ndxml → Option (List Char)
  | [] => some []
  | sub :: subs =>
    match xmlTobuf code sub, xmlsTobuf code subs with
    | some first, some others => some (first ++ others)
    | _, _ => none

end

end Writer

section Reader

def isMarkEnd (p : List Char) : Bool :=
  "/>".toList.isPrefixOf p

def isMarkStart (p : List Char) : Bool :=
  "</".toList.isPrefixOf p

/-- Where an entity can begin: at `&` in front of a letter. -/
def entityAhead : List Char → Bool
  | '&' :: c :: _ => littleLatin c || bigLatin c
  | _ => false

/-- `_read_replace_text`: the character it writes, if it writes one, and the
text behind what it has read. -/
def readReplaceText (src : List Char) : Option Char × List Char :=
  let found := nstrAnsi ';' 15 (src.drop 1)
  match found.2 with
  | ';' :: rest =>
    if stricmp found.1 "amp".toList = 0 then (some '&', rest)
    else if stricmp found.1 "lt".toList = 0 then (some '<', rest)
    else if stricmp found.1 "gt".toList = 0 then (some '>', rest)
    else if stricmp found.1 "quot".toList = 0 then (some '"', rest)
    else if stricmp found.1 "apos".toList = 0 then (some '\'', rest)
    else (none, rest)
  | _ => (some '&', src.drop 1)

/-- The second loop of `_xml_read_attrval` with `size` bytes left. -/
def readAttrvalFrom (stale : Option Char) (code : CodeType) :
    Nat → Nat → List Char → Option (List Char × List Char)
  | _, 0, _ => none
  | _, _ + 1, [] => some ([], [])
  | 0, _ + 1, _ :: _ => none
  | fuel + 1, size + 1, c :: rest =>
    if c = '"' then some ([], rest)
    else if entityAhead (c :: rest) then
      let (out, after) := readReplaceText (c :: rest)
      match out.or stale with
      | none => none
      | some out =>
        (readAttrvalFrom stale code fuel size after).map fun found =>
          (out :: found.1, found.2)
    else
      match readUtf8char code (c :: rest) with
      | none => none
      | some (word, after) =>
        (readAttrvalFrom stale code fuel (size + 1 - word.length) after).map
          fun found => (word ++ found.1, found.2)

/-- `_xml_read_attrval`; it returns `NULL` if no quotation mark opens. -/
def xmlReadAttrval (stale : Option Char) (code : CodeType)
    (xmlbuf : List Char) (size : Nat) :
    Option (Option (List Char × List Char)) :=
  match xmlbuf.dropWhile fun c => c != '"' && c != '>' with
  | '"' :: rest => (readAttrvalFrom stale code rest.length size rest).map some
  | _ => some none

/-- The loop of `_xml_read_value`; the value's buffer is as long as
`_xml_get_value_size` has counted. -/
def readValueFrom (stale : Option Char) (code : CodeType) :
    Nat → List Char → Option (List Char × List Char)
  | _, [] => some ([], [])
  | 0, _ :: _ => none
  | fuel + 1, c :: rest =>
    if entityAhead (c :: rest) then
      let (out, after) := readReplaceText (c :: rest)
      match out.or stale with
      | none => none
      | some out =>
        (readValueFrom stale code fuel after).map fun found =>
          (out :: found.1, found.2)
    else if isMarkStart (c :: rest) then some ([], c :: rest)
    else
      match readUtf8char code (c :: rest) with
      | none => none
      | some (word, after) =>
        (readValueFrom stale code fuel after).map fun found =>
          (word ++ found.1, found.2)

def xmlReadValue (stale : Option Char) (code : CodeType) (xmlbuf : List Char) :
    Option (List Char × List Char) :=
  readValueFrom stale code xmlbuf.length xmlbuf

/-- Behind a comment or a declaration: where it is closed and how many bytes
are left from there. -/
def skipMark (left : Int) (pstart closing rest : List Char) :
    Option (Int × List Char) :=
  match strstr closing rest with
  | none => none
  | some found =>
    if left ≤ pstart.length - found.length then none
    else
      some (left - (pstart.length - found.length) - closing.length,
        found.drop closing.length)

/-- The loop of `parse_marked`: `pstart` is `left` bytes in front of the end
of the text.  It returns where the first tag begins that is no comment and no
declaration, and what it leaves in `error_addr`. -/
def parseMarkedFrom : Nat → Int → List Char → Option (List Char) →
    Option (List Char) × Option (List Char)
  | 0, _, _, error => (none, error)
  | fuel + 1, left, pstart, error =>
    if left ≤ 0 then (none, error)
    else
      match firstValid pstart with
      | none => (none, some pstart)
      | some paddr =>
        if paddr.head? ≠ some '<' then (none, some pstart)
        else if left ≤ pstart.length - paddr.length then (none, none)
        else
          match paddr.drop 1 with
          | '?' :: rest =>
            match skipMark left pstart "?>".toList rest with
            | none => (none, some pstart)
            | some (left, next) =>
              parseMarkedFrom fuel left next (some pstart)
          | '!' :: '-' :: '-' :: rest =>
            match skipMark left pstart "-->".toList rest with
            | none => (none, some pstart)
            | some (left, next) =>
              parseMarkedFrom fuel left next (some pstart)
          | '!' :: _ => (none, some pstart)
          | _ => (some paddr, none)

def parseMarked (xmlbuf : List Char) (size : Int)
    (error : Option (List Char)) : Option (List Char) × Option (List Char) :=
  parseMarkedFrom (xmlbuf.length + 1) size xmlbuf error

/-- What `parse_xmlbuf` leaves in `parse_end` when it returns `NULL`. -/
inductive ParseEnd where
  | unset
  | null
  | here (paddr : List Char)

/-- What `parse_xmlbuf` returns, with `parse_end` and `error_addr`. -/
inductive Parsed where
  | node (xmlnode : Ndxml) (parseEnd : List Char)
      (error : Option (List Char))
  | null (parseEnd : ParseEnd) (error : Option (List Char))

/-- How the loop over the attributes ends: the tag closes the node, it opens
it, or there is an error. -/
inductive AttribsRead where
  | closed (attrs : List (List Char × List Char)) (paddr : List Char)
      (error : Option (List Char))
  | opened (attrs : List (List Char × List Char)) (paddr : List Char)
      (error : Option (List Char))
  | failed (parseEnd : ParseEnd) (error : Option (List Char))

def AttribsRead.add (attr : List Char × List Char) :
    AttribsRead → AttribsRead
  | .closed attrs paddr error => .closed (attr :: attrs) paddr error
  | .opened attrs paddr error => .opened (attr :: attrs) paddr error
  | .failed parseEnd error => .failed parseEnd error

/-- The loop of `parse_xmlbuf` over the attributes. -/
def readAttribs (stale : Option Char) (code : CodeType) :
    Nat → List Char → Option (List Char) → Option AttribsRead
  | _, [], error => some (.opened [] [] error)
  | 0, _ :: _, _ => none
  | fuel + 1, c :: rest, error =>
    match firstValid (c :: rest) with
    | none => none
    | some paddr =>
      if isMarkEnd paddr then some (.closed [] (paddr.drop 2) error)
      else if paddr.head? = some '>' then
        some (.opened [] (paddr.drop 1) error)
      else
        match parseVariantN code paddr maxXmlnameSize with
        | none => none
        | some (ret, attrName, behind) =>
          if ret ≤ 0 then some (.failed .null (some paddr))
          else if maxXmlnameSize ≤ attrName.length then none
          else
            match strchr behind '=' with
            | none => some (.failed .null (some behind))
            | some mark =>
              match xmlReadAttrval stale code mark textBufSize with
              | none => none
              | some none => some (.failed .unset (some mark))
              | some (some (value, after)) =>
                (readAttribs stale code fuel after (some mark)).map
                  (AttribsRead.add (attrName, value))

/-- `READ_END` of `parse_xmlbuf` -/
def readEnd (code : CodeType) (name : List Char)
    (attrs : List (List Char × List Char)) (value : List Char)
    (subs : List Ndxml) (paddr : List Char) (error : Option (List Char)) :
    Option Parsed :=
  if !isMarkStart paddr then some (.null .null (some paddr))
  else
    match firstValid (paddr.drop 2) with
    | none => none
    | some paddr =>
      match parseWord code paddr with
      | none => none
      | some (endName, behind) =>
        if maxXmlnameSize ≤ endName.length then none
        else if stricmp name endName ≠ 0 then some (.null .null behind)
        else
          match behind.bind (strchr · '>') with
          | none => none
          | some closing =>
            some (.node (.mk name attrs value subs) (closing.drop 1)
              error)

/-- How the loop over the children ends: at `</`, or at a child that is in
error. -/
inductive SubsRead where
  | read (subs : List Ndxml) (paddr : List Char) (error : Option (List Char))
  | failed (error : List Char)

def SubsRead.add (first : List Ndxml) : SubsRead → SubsRead
  | .read subs paddr error => .read (first ++ subs) paddr error
  | .failed error => .failed error

mutual

def parseXmlbuf (stale : Option Char) (code : CodeType) :
    Nat → List Char → Int → Option (List Char) → Option Parsed
  | 0, _, _, _ => none
  | fuel + 1, xmlbuf, size, error =>
    match parseMarked xmlbuf size error with
    | (none, error) => some (.null .null (some (error.getD xmlbuf)))
    | (some paddr, error) =>
      if isMarkStart paddr then some (.null (.here paddr) none)
      else
        match firstValid (paddr.drop 1) with
        | none => some (.null .null error)
        | some paddr =>
          if paddr.head?.any fun c => c ∈ ['>', '<', '"', '/'] then
            some (.null .null (some paddr))
          else parseElement stale code fuel xmlbuf size paddr error

/-- `parse_xmlbuf` from the name of the first tag on. -/
def parseElement (stale : Option Char) (code : CodeType) :
    Nat → List Char → Int → List Char → Option (List Char) → Option Parsed
  | 0, _, _, _, _ => none
  | fuel + 1, xmlbuf, size, paddr, error =>
    match parseVariantN code paddr maxXmlnameSize with
    | none => none
    | some (ret, name, behind) =>
      if ret ≤ 0 then some (.null .null error)
      else if maxXmlnameSize ≤ name.length then none
      else
        match readAttribs stale code behind.length behind error with
        | none => none
        | some (.failed parseEnd error) => some (.null parseEnd error)
        | some (.closed attrs paddr error) =>
          some (.node (.mk name attrs [] []) paddr error)
        | some (.opened attrs paddr error) =>
          parseContent stale code fuel xmlbuf size name attrs paddr error

/-- `parse_xmlbuf` behind the first tag of a node: its value or its children,
and its end. -/
def parseContent (stale : Option Char) (code : CodeType) :
    Nat → List Char → Int → List Char → List (List Char × List Char) →
      List Char → Option (List Char) → Option Parsed
  | 0, _, _, _, _, _, _ => none
  | fuel + 1, xmlbuf, size, name, attrs, paddr, error =>
    match firstValid paddr with
    | none => none
    | some paddr =>
      if isMarkStart paddr then readEnd code name attrs [] [] paddr error
      else if paddr.head? = some '<' then
        match parseSubs stale code fuel paddr
            (size - (xmlbuf.length - paddr.length)) error with
        | none => none
        | some (.failed error) => some (.null .null (some error))
        | some (.read subs paddr error) =>
          readEnd code name attrs [] subs paddr error
      else
        match xmlReadValue stale code paddr with
        | none => none
        | some (value, paddr) =>
          readEnd code name attrs value [] paddr error

/-- The loop of `parse_xmlbuf` over the children.  A child that is missing
without an error leaves a null pointer for the next round. -/
def parseSubs (stale : Option Char) (code : CodeType) :
    Nat → List Char → Int → Option (List Char) → Option SubsRead
  | 0, _, _, _ => none
  | fuel + 1, paddr, leftSize, error =>
    match parseXmlbuf stale code fuel paddr leftSize error with
    | some (.node newXml parsed error) =>
      nextSub stale code fuel paddr leftSize [newXml] parsed error
    | some (.null (.here parsed) error) =>
      nextSub stale code fuel paddr leftSize [] parsed error
    | some (.null .null (some error)) => some (.failed error)
    | _ => none

def nextSub (stale : Option Char) (code : CodeType) :
    Nat → List Char → Int → List Ndxml → List Char → Option (List Char) →
      Option SubsRead
  | 0, _, _, _, _, _ => none
  | fuel + 1, paddr, leftSize, first, parsed, error =>
    match firstValid parsed with
    | none => none
    | some next =>
      if isMarkStart next then some (.read first next error)
      else
        (parseSubs stale code fuel next
          (leftSize - (paddr.length - next.length)) error).map
            (SubsRead.add first)

end

/-- `ndxml_from_text`, with `parse_end` and `error_addr`; the text has at most
one tag for each of its bytes. -/
def ndxmlFromText (code : CodeType) (text : List Char) : Option Parsed :=
  parseXmlbuf none code (4 * text.length + 4) text text.length none

end Reader

end NdNet.Xml
