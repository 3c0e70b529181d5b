import NdNet.Lib.Runs
import NdNet.Net.Decrypt

/-!
# The encrypted files of `nd_cryptfile.c`

An `NDC_FILE` that is written gathers bytes in a page, encrypts whole blocks and
fills up the last one at the end.  One that is read decrypts a page at a time.
Beside it stands a plain file, as a reader of the bytes that have been written
would like to have it.
-/

namespace NdNet.CryptFile

def ndcFileBuf : Nat :=
  1024

/-- A `size_t` -/
def sizeT (value : Int) : Nat :=
  (value % 2 ^ 64).toNat

/-- A `long` -/
def long (value : Int) : Int :=
  Int.bmod value (2 ^ 64)

/-- `NDC_FILE`; `pf` is the content of the file. -/
structure NdcFile where
  pf : List Byte
  pagePos : Nat
  curFilePos : Nat
  fileEnd : Nat
  sizeInbuf : Nat
  passwd : List Byte
  isload : Bool
  iswrite : Bool
  pageBuf : Nat → Byte

def pagePut (page : Nat → Byte) (offset : Nat) (data : List Byte) :
    Nat → Byte :=
  fun index =>
    if offset ≤ index then (data[index - offset]?).getD (page index)
    else page index

def pageGet (page : Nat → Byte) (offset count : Nat) : List Byte :=
  (List.range count).map fun index => page (offset + index)

namespace NdcFile

/-- `ndc_fopen_w`; the page holds what it happens to hold. -/
def fopenW (passwd : List Byte) (pageBuf : Nat → Byte) : NdcFile where
  pf := []
  pagePos := 0
  curFilePos := 0
  fileEnd := 0
  sizeInbuf := 0
  passwd := passwd
  isload := false
  iswrite := true
  pageBuf := pageBuf

/-- `write2file`, for `count` blocks from an offset of the page on -/
def write2file (file : NdcFile) (offset count : Nat) : Nat × NdcFile :=
  let out := teaBlocks file.passwd count
    (pageGet file.pageBuf offset (count * teaUnit))
  (out.length, { file with pf := file.pf ++ out })

/-- The part of `_ndc_fflush` that writes whole blocks. -/
def flushBlocks (file : NdcFile) : NdcFile :=
  let count := (file.sizeInbuf - file.pagePos) / teaUnit
  if 0 < count then
    let (count, file) := file.write2file file.pagePos count
    let file := { file with pagePos := file.pagePos + count }
    if file.pagePos = file.sizeInbuf then
      { file with pagePos := 0, sizeInbuf := 0 }
    else file
  else file

/-- The part of `_ndc_fflush` that fills up the last block. -/
def flushEnd (file : NdcFile) : NdcFile :=
  let fillData := teaUnit - (file.sizeInbuf - file.pagePos) % teaUnit
  let file :=
    { file with
      pageBuf := pagePut file.pageBuf file.sizeInbuf
        (List.replicate fillData (UInt8.ofNat fillData))
      sizeInbuf := file.sizeInbuf + fillData }
  (file.write2file file.pagePos
    ((file.sizeInbuf - file.pagePos) / teaUnit)).2

def fflush (file : NdcFile) (isEnd : Bool) : NdcFile :=
  if !file.iswrite then file
  else if file.sizeInbuf - file.pagePos = 0 then
    let file := { file with pagePos := 0, sizeInbuf := 0 }
    if isEnd then file.flushEnd else file
  else
    let file := file.flushBlocks
    if isEnd then file.flushEnd else file

/-- The body of the loops of `ndc_fwrite` -/
def putByte (file : NdcFile) (byte : Byte) : NdcFile :=
  let file :=
    { file with
      pageBuf := pagePut file.pageBuf file.sizeInbuf [byte]
      sizeInbuf := file.sizeInbuf + 1 }
  if file.sizeInbuf ≥ ndcFileBuf then file.fflush false else file

/-- How often a loop runs that counts an `int` up to a `size_t`: `i++` behind
`INT_MAX` makes it negative, which is large for a `size_t`. -/
def intLoop (count : Nat) : Nat :=
  min count (2 ^ 31)

def fwrite (file : NdcFile) (buf : List Byte) (elementsize count : Nat) :
    NdcFile :=
  ((buf.take (intLoop count * intLoop elementsize)).foldl putByte
    file).fflush false

/-- `ndc_fclose`: what is in the file at the end -/
def fclose (file : NdcFile) : List Byte :=
  (file.fflush true).pf

def fopenR (pf passwd : List Byte) (pageBuf : Nat → Byte) : Option NdcFile :=
  let fsize := pf.length
  if fsize = 0 ∨ fsize % teaUnit ≠ 0 then none
  else
    let tail := teaDec passwd ((pf.drop (fsize - teaUnit)).take teaUnit)
    let p := (byteAt tail (teaUnit - 1)).toNat
    if p > teaUnit then none
    else
      some
        { pf := pf
          pagePos := 0
          curFilePos := 0
          fileEnd := fsize - p
          sizeInbuf := 0
          passwd := passwd
          isload := false
          iswrite := false
          pageBuf := pageBuf }

def loadPage (file : NdcFile) : Nat × NdcFile :=
  let data := (file.pf.drop file.curFilePos).take ndcFileBuf
  let file := { file with sizeInbuf := data.length }
  if file.sizeInbuf = 0 then (0, file)
  else
    (file.sizeInbuf,
      { file with
        pageBuf := pagePut file.pageBuf 0 (teaDecrypt file.passwd data).2
        isload := true
        curFilePos := file.curFilePos + data.length })

/-- The loop of `ndc_fread_node` that copies `len` bytes, with the bytes. -/
def copyBytes : Nat → NdcFile → List Byte × NdcFile
  | 0, file => ([], file)
  | len + 1, file =>
    let byte := file.pageBuf file.pagePos
    let file := { file with pagePos := file.pagePos + 1 }
    if file.pagePos ≥ file.sizeInbuf then
      let file := { file with isload := false, sizeInbuf := 0, pagePos := 0 }
      if 0 < len then
        let (loaded, file) := file.loadPage
        if loaded = 0 then ([byte], file)
        else
          let (bytes, file) := copyBytes len file
          (byte :: bytes, file)
      else ([byte], file)
    else
      let (bytes, file) := copyBytes len file
      (byte :: bytes, file)

def freadNode (file : NdcFile) (elementsize : Nat) : List Byte × NdcFile :=
  let leftData := sizeT
    (file.fileEnd - (file.curFilePos - file.sizeInbuf) - file.pagePos)
  if leftData < elementsize then ([], file)
  else if file.isload = false ∨ file.sizeInbuf = file.pagePos then
    let (loaded, file) := file.loadPage
    if loaded = 0 then ([], file) else copyBytes elementsize file
  else copyBytes elementsize file

/-- `ndc_fread`: the number of elements, and the bytes that have been copied -/
def fread (elementsize : Nat) : Nat → NdcFile → (Nat × List Byte) × NdcFile
  | 0, file => ((0, []), file)
  | count + 1, file =>
    let (bytes, file) := file.freadNode elementsize
    if bytes.length = 0 then ((0, []), file)
    else
      let ((more, rest), file) := fread elementsize count file
      ((more + 1, bytes ++ rest), file)

end NdcFile

/-- The last argument of `ndc_fseek` -/
inductive SeekFlag where
  | set
  | cur
  | fromEnd
  | other
  deriving DecidableEq

def clamp (fileEnd : Nat) (position : Int) : Nat :=
  if position < 0 then 0
  else if position > fileEnd then fileEnd
  else position.toNat

namespace NdcFile

/-- `new_pos` of `ndc_fseek`, before it is brought into the file -/
def newPos (file : NdcFile) (offset : Int) : SeekFlag → Option Int
  | .set => if offset < 0 then none else some offset
  | .cur => some (long ((file.curFilePos + file.pagePos : Nat) + offset))
  | .fromEnd => if offset > 0 then none else some (file.fileEnd + offset)
  | .other => none

def fseek (file : NdcFile) (offset : Int) (flag : SeekFlag) : Int × NdcFile :=
  if file.iswrite then (-1, file)
  else
    match file.newPos offset flag with
    | none => (-1, file)
    | some newPos =>
      let newPos := clamp file.fileEnd newPos
      let oldPos := file.curFilePos
      let pagePos := newPos % ndcFileBuf
      let curFilePos := newPos - pagePos
      (0,
        { file with
          pagePos := pagePos
          curFilePos := curFilePos
          isload := if oldPos ≠ curFilePos then false else file.isload })

def ftell (file : NdcFile) : Int :=
  long (file.curFilePos + file.pagePos : Nat)

end NdcFile

inductive WriteCall where
  | fwrite (buf : List Byte) (elementsize count : Nat)
  | fflush

def NdcFile.write (file : NdcFile) : WriteCall → NdcFile
  | .fwrite buf elementsize count => file.fwrite buf elementsize count
  | .fflush => file.fflush false

def WriteCall.bytes : WriteCall → List Byte
  | .fwrite buf elementsize count => buf.take (count * elementsize)
  | .fflush => []

/-- The file after some calls of a writer and `ndc_fclose`. -/
def writeFile (passwd : List Byte) (pageBuf : Nat → Byte)
    (calls : List WriteCall) : List Byte :=
  (calls.foldl NdcFile.write (NdcFile.fopenW passwd pageBuf)).fclose

def written (calls : List WriteCall) : List Byte :=
  calls.flatMap WriteCall.bytes

inductive ReadCall where
  | fread (elementsize count : Nat)
  | fseek (offset : Int) (flag : SeekFlag)
  | ftell

inductive ReadAnswer where
  | elements (count : Nat) (bytes : List Byte)
  | number (value : Int)
  deriving DecidableEq

def NdcFile.read (file : NdcFile) : ReadCall → ReadAnswer × NdcFile
  | .fread elementsize count =>
    let ((elements, bytes), file) := NdcFile.fread elementsize count file
    (.elements elements bytes, file)
  | .fseek offset flag =>
    let (answer, file) := file.fseek offset flag
    (.number answer, file)
  | .ftell => (.number file.ftell, file)

structure PlainFile where
  content : List Byte
  position : Nat

namespace PlainFile

def refuses (offset : Int) : SeekFlag → Bool
  | .set => offset < 0
  | .cur => false
  | .fromEnd => offset > 0
  | .other => true

def base (length position : Nat) : SeekFlag → Nat
  | .set => 0
  | .cur => position
  | .fromEnd => length
  | .other => position

/-- What a plain file answers: whole elements, as many as there are; positions
inside the file. -/
def read (file : PlainFile) : ReadCall → ReadAnswer × PlainFile
  | .fread elementsize count =>
    let left := file.content.drop file.position
    let elements :=
      if elementsize = 0 then 0 else min count (left.length / elementsize)
    (.elements elements (left.take (elements * elementsize)),
      { file with position := file.position + elements * elementsize })
  | .fseek offset flag =>
    if refuses offset flag then (.number (-1), file)
    else
      (.number 0,
        { file with
          position := clamp file.content.length
            (base file.content.length file.position flag + offset) })
  | .ftell => (.number file.position, file)

end PlainFile

end NdNet.CryptFile
