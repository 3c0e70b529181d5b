import NdNet.Common.LineBlock
import NdNet.Common.Str
import NdNet.Lib.Drain

/-!
# The HTTP parser of `httpParser.cpp`

`NDHttpParser` collects the bytes that arrive in `m_bodyBuf` and takes a
request apart in stages: the first line, one header line after the other, the
body.  A subclass gives the first line and what happens at the end; it is
modelled by its fields, of type `δ`, and its two virtual functions.

The stages are modelled on the bytes of the buffer as they are while
`nd_linebuf` has room for a NUL behind them: what the scanners see is the text
in front of the first NUL, and a pointer into it is the rest of that text.
`Buffered` adds the block the bytes are in.  Where they fill it up there is no
NUL behind them, and a stage whose scan looks at the byte behind them has no
result.  No result also means that a call writes behind one of its local
buffers or behind the block, follows a null pointer, or reads behind a text.
-/

namespace NdNet.Http

open NdNet.Str

def cString (bytes : List Char) : List Char :=
  bytes.takeWhile (· != '\x00')

/-- `q - p` for a pointer `q` behind `p`. -/
def distance (p q : List Char) : Nat :=
  p.length - q.length

def parserValid : List Char → Int → Option (List Char)
  | [], _ => none
  | c :: rest, size =>
    if c ≤ ' ' then
      if size - 1 ≤ 0 then none else parserValid rest (size - 1)
    else some (c :: rest)

/-- `parser_check_end`: the text behind the line end. -/
def parserCheckEnd : List Char → Int → Option (List Char)
  | [], _ => none
  | a :: rest, size =>
    if size - 1 < 0 then none
    else if a = '\r' ∧ rest.head? = some '\n' then some rest.tail
    else parserCheckEnd rest (size - 1)

def fromHexChar (c : Char) : Nat :=
  if 'A' ≤ c ∧ c ≤ 'Z' then c.toNat - 'A'.toNat + 10
  else if 'a' ≤ c ∧ c ≤ 'z' then c.toNat - 'a'.toNat + 10
  else if '0' ≤ c ∧ c ≤ '9' then c.toNat - '0'.toNat
  else 0

def urlcodeTotext : List Char → List Char
  | [] => []
  | '%' :: hiBits4 :: loBits4 :: rest =>
    Char.ofNat ((fromHexChar hiBits4 * 16 ||| fromHexChar loBits4) % 256) ::
      urlcodeTotext rest
  | '%' :: _ => []
  | c :: rest => (if c = '+' then ' ' else c) :: urlcodeTotext rest

/-- `httpHeaderNode` -/
structure HttpHeaderNode where
  name : List Char
  value : List Char
  deriving DecidableEq, Repr

/-- `eAction` -/
inductive Action where
  | get
  | post
  | response
  deriving DecidableEq, Repr

/-- `NDHttpParser`; `m_status` is left to the responses. -/
structure HttpParser (δ : Type) where
  parseError : Bool
  /-- 0 empty, 1 start parse, 2 parse body, 3 parse ok -/
  parseStat : Nat
  parseProgress : Nat
  action : Action
  bodyBuf : List Char
  header : List HttpHeaderNode
  derived : δ
  deriving DecidableEq, Repr

/-- The virtual functions of a subclass. -/
structure Virtual (δ : Type) where
  parseProtocol : HttpParser δ → Option (Int × HttpParser δ)
  onParseEnd : HttpParser δ → Option (HttpParser δ)

section Headers

def getNode (name : List Char) (headers : List HttpHeaderNode) :
    Option HttpHeaderNode :=
  headers.find? fun node => stricmp node.name name = 0

def adNode (name value : List Char) :
    List HttpHeaderNode → List HttpHeaderNode
  | [] => [⟨name, value⟩]
  | node :: headers =>
    if stricmp node.name name = 0 then { node with value } :: headers
    else node :: adNode name value headers

def getHeader (name : List Char) (header : List HttpHeaderNode) :
    Option (List Char) :=
  (getNode name header).map HttpHeaderNode.value

def findBodySize (header : List HttpHeaderNode) : Int :=
  match getHeader "content-length".toList header with
  | some p => atoi p
  | none => 0

end Headers

/-- The scan of `_parseHeader` for a line: its name and value, and the text
behind it; `none` if the line is not complete. -/
def headerLine (code : CodeType) (data : List Char) :
    Option (Option (HttpHeaderNode × List Char)) :=
  let datasize : Int := data.length
  let start := cString data
  match parserValid start datasize with
  | none => some none
  | some p =>
    match nstrEnd code p ':' (datasize - distance start p) with
    | none => none
    | some (hdrName, p) =>
      -- the name and its NUL go to a buffer of 1024 bytes
      if 1024 ≤ hdrName.length then none
      else if p.head? ≠ some ':' then some none
      else
        match parserValid p.tail (datasize - distance start p.tail) with
        | none => some none
        | some st =>
          match parserCheckEnd st (datasize - distance start st) with
          | none => some none
          | some p =>
            let len := distance st p
            if 1024 ≤ len - 2 then none
            else some (some (⟨hdrName, st.take (len - 2)⟩, p))

section Stages

variable {δ : Type}

def setParseEnd (virtual : Virtual δ) (s : HttpParser δ) :
    Option (HttpParser δ) :=
  if s.parseStat ≠ 3 then virtual.onParseEnd { s with parseStat := 3 }
  else some s

/-- `ndlbuf_sub_data` of the text in front of `p`, which is returned. -/
def subData (p : List Char) (s : HttpParser δ) : Int × HttpParser δ :=
  let len := distance (cString s.bodyBuf) p
  (len, { s with bodyBuf := s.bodyBuf.drop len })

/-- The end of the headers, in `_parseHeader`. -/
def headerEnd (virtual : Virtual δ) (s : HttpParser δ) :
    Option (HttpParser δ) :=
  let s := { s with
    parseStat := 2
    parseProgress := if findBodySize s.header = 0 then 3 else s.parseProgress }
  if s.action = .get then setParseEnd virtual s else some s

def parseHeader (code : CodeType) (virtual : Virtual δ) (s : HttpParser δ) :
    Option (Int × HttpParser δ) :=
  match headerLine code s.bodyBuf with
  | none => none
  | some none => some (0, s)
  | some (some (node, p)) =>
    let s := { s with header := s.header ++ [node] }
    if ['\r', '\n'].isPrefixOf p then
      (headerEnd virtual s).map (subData (p.drop 2))
    else some (subData p s)

def parseBody (virtual : Virtual δ) (s : HttpParser δ) :
    Option (Int × HttpParser δ) :=
  let contentSize := findBodySize s.header
  let datasize : Int := s.bodyBuf.length
  if contentSize = 0 ∨ contentSize = -1 then
    let start := cString s.bodyBuf
    match strstr ['\r', '\n', '\r', '\n'] start with
    | none => some (0, s)
    | some p =>
      let realSize := Nat.toDigits 10 (distance start p)
      let header := adNode "content-length".toList realSize s.header
      (setParseEnd virtual { s with header }).map fun s => (datasize, s)
  else if contentSize ≤ datasize then
    (setParseEnd virtual s).map fun s => (datasize, s)
  else some (0, s)

def parseData (code : CodeType) (virtual : Virtual δ) (s : HttpParser δ) :
    Option (Int × HttpParser δ) :=
  if s.parseStat = 0 then virtual.parseProtocol s
  else if s.parseStat = 1 then parseHeader code virtual s
  else if s.parseStat = 2 then
    if s.action = .get then (setParseEnd virtual s).map fun s => (0, s)
    else parseBody virtual s
  else some (0, s)

/-- A turn of the loop of `InData`, with a NUL behind the data. -/
def turn (code : CodeType) (virtual : Virtual δ) (s : HttpParser δ) :
    Option (Pass (HttpParser δ)) :=
  if s.parseStat < 3 then
    (parseData code virtual s).map fun (ret, s) =>
      if 0 < ret ∧ s.bodyBuf ≠ [] ∧ s.parseError = false then .again s
      else .stop s
  else some (.stop s)

end Stages

section Buffers

variable {δ : Type}

/-- Whether the scan of `_parseHeader` looks at the byte behind the data. -/
def headerReadsEnd (code : CodeType) (data : List Char) : Bool :=
  let datasize : Int := data.length
  let start := cString data
  match parserValid start datasize with
  | none => false
  | some p =>
    match nstrEnd code p ':' (datasize - distance start p) with
    | none => true
    | some (_, p) =>
      match parserValid p.tail (datasize - distance start p.tail) with
      | none => p.tail.isEmpty
      | some st =>
        match parserCheckEnd st (datasize - distance start st) with
        | none => true
        | some p => p.isEmpty || p == ['\r']

theorem headerReadsEnd_line {code : CodeType} {data p : List Char}
    {node : HttpHeaderNode}
    (line : headerLine code data = some (some (node, p))) :
    headerReadsEnd code data = (p.isEmpty || p == ['\r']) := by
  rw [headerLine] at line
  rw [headerReadsEnd]
  cases begins : parserValid (cString data) data.length with
  | none =>
    rw [begins] at line
    cases line
  | some q =>
    rw [begins] at line
    dsimp only at line ⊢
    split at line
    · cases line
    split at line
    · cases line
    split at line
    · cases line
    split at line
    · cases line
    split at line
    · cases line
    split at line
    · cases line
    · cases line
      rfl

/-- Whether the scan of `_parseBody` looks at the byte behind the data. -/
def bodyReadsEnd (s : HttpParser δ) : Bool :=
  let contentSize := findBodySize s.header
  (contentSize == 0 || contentSize == -1) &&
    (strstr ['\r', '\n', '\r', '\n'] s.bodyBuf).isNone

def readsEnd (code : CodeType) (s : HttpParser δ) : Bool :=
  if s.parseStat = 1 then headerReadsEnd code s.bodyBuf
  else if s.parseStat = 2 then s.action != .get && bodyReadsEnd s
  else false

/-- A parser with the block that `m_bodyBuf` has its bytes in. -/
structure Buffered (δ : Type) where
  parser : HttpParser δ
  block : LineBlock
  deriving DecidableEq, Repr

namespace Buffered

def full (s : Buffered δ) : Bool :=
  decide (s.block.Full s.parser.bodyBuf.length) &&
    !s.parser.bodyBuf.contains '\x00'

theorem full_eq_false_iff {s : Buffered δ} (whole : '\x00' ∉ s.parser.bodyBuf) :
    s.full = false ↔ ¬ s.block.Full s.parser.bodyBuf.length := by
  have none : s.parser.bodyBuf.contains '\x00' = false :=
    Bool.eq_false_iff.mpr fun member => whole (List.contains_iff_mem.mp member)
  rw [full, none, Bool.not_false, Bool.and_true, decide_eq_false_iff_not]

def advance (s : Buffered δ) (parser : HttpParser δ) : Buffered δ :=
  let len := s.parser.bodyBuf.length
  let taken := len - parser.bodyBuf.length
  ⟨parser, if taken = 0 then s.block else s.block.subData len taken⟩

/-- A turn of the loop of `InData`; the virtual functions are told whether
there is a NUL. -/
def turn (code : CodeType) (virtual : Bool → Virtual δ) (s : Buffered δ) :
    Option (Pass (Buffered δ)) :=
  if s.full && readsEnd code s.parser then none
  else (Http.turn code (virtual s.full) s.parser).map (Pass.map s.advance)

def inData (code : CodeType) (virtual : Bool → Virtual δ) (s : Buffered δ)
    (data : List Char) : Option (Buffered δ) :=
  (s.block.write '\x00' s.parser.bodyBuf data).bind fun (block, bodyBuf) =>
    Pass.drain (turn code virtual) (bodyBuf.length + 2)
      ⟨{ s.parser with bodyBuf }, block⟩

/-- A parser whose buffer is as `ndlbuf_init` leaves it. -/
def init (parser : HttpParser δ) : Buffered δ :=
  ⟨parser, ⟨4096, 0⟩⟩

end Buffered

end Buffers

end NdNet.Http
