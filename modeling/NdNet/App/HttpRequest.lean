import NdNet.App.HttpParser

/-!
# The HTTP requests of `httpParser.cpp`

`NDHttpRequest` gives the parser its first line and, when the request is
complete, takes the form values out of the body and the cookies out of the
headers.  A part of a multipart body is taken apart by a parser of its own.

The maps of files and cookies are lists of what has been put into them.
`m_userData` is not touched by the parser and left out; so are the numbers that
`_parsePathInfo` and the functions behind `_postBodyToJson` return, which nobody
looks at.
-/

namespace NdNet.Http

open NdNet.Str

/-- `fileCacheInfo` -/
structure FileCacheInfo where
  fileName : List Char
  data : List Char
  deriving DecidableEq, Repr

structure RequestFields where
  upfiles : List (List Char × FileCacheInfo)
  requestForms : List HttpHeaderNode
  path : List Char
  cookies : List (List Char × List Char)
  deriving DecidableEq, Repr

abbrev HttpRequest := HttpParser RequestFields

def HttpRequest.reset : HttpRequest where
  parseError := false
  parseStat := 0
  parseProgress := 0
  action := .get
  bodyBuf := []
  header := []
  derived := { upfiles := [], requestForms := [], path := [], cookies := [] }

section FirstLine

/-- `ndstr_nstr_ansi` into a buffer of `size` bytes, given the limit it gets; no
result if the NUL does not fit in. -/
def copyTo (size : Nat) (final : Char) (limit : Nat) (text : List Char) :
    Option (List Char × List Char) :=
  let found := nstrAnsi final limit text
  if size ≤ found.1.length then none else some found

/-- `if (*p == c) ++p` -/
def skip (c : Char) : List Char → List Char
  | [] => []
  | d :: rest => if d = c then rest else d :: rest

/-- The loop of `_parsePathInfo` behind the question mark. -/
def pathForms : Nat → List Char → Option (List HttpHeaderNode)
  | 0, _ => none
  | fuel + 1, p => do
      let (buf, p) ← copyTo 4096 '=' 4096 p
      if p.head? ≠ some '=' then return []
      let (val, p) ← copyTo 4096 '&' 4096 p.tail
      let p := skip '&' p
      let node : List HttpHeaderNode :=
        if buf = [] ∨ val = [] then [] else [⟨buf, urlcodeTotext val⟩]
      if p = [] then return node
      return node ++ (← pathForms fuel p)

/-- `_parsePathInfo`: the path and the form values in it. -/
def parsePathInfo (path : List Char) :
    Option (List Char × List HttpHeaderNode) := do
  let (buf, p) ← copyTo 4096 '?' 4096 path
  if p.head? ≠ some '?' then return (buf, [])
  return (buf, ← pathForms p.length p.tail)

/-- The method at the beginning of a request, and the text behind it. -/
def matchMethod (start : List Char) : Option Action × List Char :=
  if stricmpN start "POST".toList 4 = 0 then (some .post, start.drop 4)
  else if stricmpN start "GET".toList 3 = 0 then (some .get, start.drop 3)
  else (none, start)

def pathText (p : List Char) : Option (List Char × List Char) :=
  if p.head? = some ' ' then some ([], p) else copyTo 1024 ' ' 1024 p

def pushPath (s : HttpRequest) (buf : List Char) : Option HttpRequest :=
  if buf = [] then some s
  else
    let myFullPath := cString (urlcodeTotext buf)
    (parsePathInfo myFullPath).map fun (path, forms) =>
      { s with
        header := s.header ++ [⟨"PATH".toList, myFullPath⟩]
        derived := { s.derived with
          path
          requestForms := s.derived.requestForms ++ forms } }

/-- The scan of `ParseProtocol`: the method, the path, and the text behind the
line if it is complete. -/
def firstLine (data : List Char) :
    Option (Option Action × List Char × Option (List Char)) :=
  let datasize : Int := data.length
  let start := cString data
  let method := matchMethod start
  match strchr method.2 '/' with
  | none => some (method.1, [], none)
  | some p =>
    match pathText p.tail with
    | none => none
    | some (buf, p) =>
      match stristr p "HTTP".toList with
      | none => some (method.1, buf, none)
      | some p =>
        let p := p.drop 4
        some (method.1, buf, parserCheckEnd p (datasize - distance start p))

/-- Whether the scan of `ParseProtocol` looks at the byte behind the data. -/
def lineReadsEnd (data : List Char) : Bool :=
  (firstLine data).any fun found => found.2.2.isNone

/-- `NDHttpRequest::ParseProtocol`; method and path are taken over even if the
line is not complete. -/
def parseProtocol (s : HttpRequest) : Option (Int × HttpRequest) :=
  match firstLine s.bodyBuf with
  | none => none
  | some (action, buf, line) =>
    (pushPath { s with action := action.getD s.action } buf).map fun s =>
      match line with
      | none => (0, s)
      | some p =>
        let found := subData p s
        (found.1, { found.2 with parseStat := 1 })

end FirstLine

section End

/-- The loop of `_parse_x_form`: the form values, and whether the rest of the
body is none.  In a full buffer it must not get to the end of the text. -/
def formsOf (full : Bool) :
    Nat → List Char → Option (List HttpHeaderNode × Bool)
  | 0, _ => none
  | fuel + 1, p =>
    let (buf, p) := nstrAnsi '=' 1023 p
    if p = [] ∧ full = true then none
    else if p.head? ≠ some '=' then some ([], true)
    else
      let (val, p) := nstrAnsi '&' 4095 p.tail
      let p := skip '&' p
      let node : List HttpHeaderNode :=
        if buf = [] then [] else [⟨buf, urlcodeTotext val⟩]
      if p = [] then if full then none else some (node, false)
      else
        (formsOf full fuel p).map fun (nodes, parseError) =>
          (node ++ nodes, parseError)

def parseXForm (full : Bool) (s : HttpRequest) : Option HttpRequest := do
  let p ← firstValid (cString s.bodyBuf)
  let (nodes, parseError) ← formsOf full (p.length + 1) p
  return { s with
    parseError := s.parseError || parseError
    derived := { s.derived with
      requestForms := s.derived.requestForms ++ nodes } }

/-- `_insertFile`; the name of a file that is there already is refused. -/
def insertFile (varname : List Char) (cacheInfo : FileCacheInfo)
    (upfiles : List (List Char × FileCacheInfo)) :
    List (List Char × FileCacheInfo) :=
  if upfiles.any fun file => file.1 == varname then upfiles
  else upfiles ++ [(varname, cacheInfo)]

def tmpParser : HttpParser Unit where
  parseError := false
  parseStat := 1
  parseProgress := 0
  action := .post
  bodyBuf := []
  header := []
  derived := ()

/-- The virtual functions of `NDHttpParser` itself. -/
def parserVirtual : Virtual Unit where
  parseProtocol s := some (-1, s)
  onParseEnd s := some s

def parseOnePart (code : CodeType) (part : List Char) (s : HttpRequest) :
    Option HttpRequest := do
  let tmp ← Buffered.inData code (fun _ => parserVirtual) (.init tmpParser) part
  match getHeader "Content-Disposition".toList tmp.parser.header with
  | none => return s
  | some p =>
    match stristr p ("name=".toList ++ ['"']) with
    | none => return s
    | some pName =>
      let (name, _) ← copyTo 1024 '"' 1024 (pName.drop 6)
      match stristr p ("filename=".toList ++ ['"']) with
      | none =>
        -- the value is read up to a NUL
        if tmp.full then none
        else
          return { s with derived := { s.derived with
            requestForms := s.derived.requestForms ++
              [⟨name, cString tmp.parser.bodyBuf⟩] } }
      | some pFileName =>
        -- the name of the file replaces that of the value in the buffer
        let (buf, _) ← copyTo 1024 '"' 1024 (pFileName.drop 10)
        return { s with derived := { s.derived with
          upfiles :=
            insertFile name ⟨buf, tmp.parser.bodyBuf⟩ s.derived.upfiles
          requestForms := s.derived.requestForms ++ [⟨buf, buf⟩] } }

/-- The loop of `_parseMultipart` over the body from `p` on; a part of negative
length is none that can be taken apart.  In a full buffer a delimiter that is
not found is looked for behind the text. -/
def parseParts (code : CodeType) (full : Bool) (body boundary : List Char)
    (bodySize : Int) : Nat → List Char → HttpRequest → Option HttpRequest
  | 0, _, _ => none
  | fuel + 1, p, s =>
    if bodySize ≤ distance body p then some s
    else
      match strstr boundary p with
      | none => if full then none else some s
      | some partStart =>
        let partStart := partStart.drop boundary.length
        match strstr boundary partStart with
        | none => if full then none else some s
        | some partEnd =>
          let len := distance partStart partEnd
          let front := boundary ++ partStart.take len
          let back := if ['\r', '\n'].isSuffixOf front then 2 else 0
          if len < back then none
          else
            (parseOnePart code (partStart.take (len - back)) s).bind
              fun s => parseParts code full body boundary bodySize fuel
                (partStart.drop (len - back + boundary.length)) s

def parseMultipart (code : CodeType) (full : Bool) (headerText : List Char)
    (s : HttpRequest) : Option HttpRequest :=
  let bodySize := findBodySize s.header
  if bodySize = 0 then some s
  else
    match stristr headerText "boundary=".toList with
    | none => some s
    | some pbound =>
      let body := cString s.bodyBuf
      parseParts code full body ("--".toList ++ pbound.drop 9) bodySize
        (body.length + 1) body s

/-- What the content type says about the body. -/
inductive Content where
  | missing
  | multipart (headerText : List Char)
  | xForm
  | other

/-- The tests of `_postBodyToJson`. -/
def contentOf (header : List HttpHeaderNode) : Content :=
  match getHeader "Content-Type".toList header with
  | none => .missing
  | some text =>
    if text = [] then .missing
    else
      match stristr text "multipart/form-data".toList with
      | some headerText => .multipart (headerText.drop 19)
      | none =>
        match stristr text "application/x-www-form-urlencoded".toList with
        | some _ => .xForm
        | none => .other

def postBodyToJson (code : CodeType) (full : Bool) (s : HttpRequest) :
    Option HttpRequest :=
  match contentOf s.header with
  | .missing => some s
  | .multipart headerText => parseMultipart code full headerText s
  | .xForm => parseXForm full s
  | .other => some { s with parseError := true }

/-- `m_cookies[name] = val` -/
def setCookie (name val : List Char) :
    List (List Char × List Char) → List (List Char × List Char)
  | [] => [(name, val)]
  | cookie :: cookies =>
    if stricmp cookie.1 name = 0 then (cookie.1, val) :: cookies
    else cookie :: setCookie name val cookies

/-- `_parseCookies`: the loop over the headers. -/
def parseCookies (code : CodeType) :
    List HttpHeaderNode → List (List Char × List Char) →
      Option (List (List Char × List Char))
  | [], cookies => some cookies
  | node :: header, cookies =>
    if stricmp node.name "Cookie".toList ≠ 0 then
      parseCookies code header cookies
    else
      match firstValid node.value with
      | none => none
      | some p =>
        match nstrEnd code p '=' 4096 with
        | none => none
        | some (name, p) =>
          if 4096 ≤ name.length then none
          else if p.head? ≠ some '=' then
            parseCookies code header cookies
          else
            let val := urlcodeTotext p.tail
            if val = [] then some cookies
            else parseCookies code header (setCookie name val cookies)

def onParseEnd (code : CodeType) (full : Bool) (s : HttpRequest) :
    Option HttpRequest :=
  let posted := if s.action = .post ∧ s.bodyBuf ≠ [] then
    postBodyToJson code full s else some s
  posted.bind fun s =>
    (parseCookies code s.header s.derived.cookies).map fun cookies =>
      { s with derived := { s.derived with cookies } }

/-- The virtual functions of `NDHttpRequest`. -/
def requestVirtual (code : CodeType) (full : Bool) :
    Virtual RequestFields where
  parseProtocol s :=
    if full && lineReadsEnd s.bodyBuf then none else parseProtocol s
  onParseEnd := onParseEnd code full

/-- A call of `NDHttpRequest::InData`. -/
def requestInData (code : CodeType) (s : Buffered RequestFields)
    (data : List Char) : Option (Buffered RequestFields) :=
  s.inData code (requestVirtual code) data

def requestInDataAll (code : CodeType) (s : Buffered RequestFields) :
    List (List Char) → Option (Buffered RequestFields)
  | [] => some s
  | data :: pieces =>
    (requestInData code s data).bind fun s => requestInDataAll code s pieces

end End

end NdNet.Http
