import Mathlib.Algebra.Group.Int.Defs
import Mathlib.Algebra.GroupWithZero.Nat
import NdNet.App.HttpForms

/-!
# The buffers of `httpParser.cpp`

The functions that take a request apart copy its texts into buffers of fixed
sizes, and those that print one write into a buffer of the caller.

A scanner that copies words of several bytes may step over the NUL at the end of
a text; the memory behind it may hold anything.
-/

namespace NdNet.Http

open NdNet.Str List

def memoryOf (text behind : List Char) : List Char :=
  text ++ '\x00' :: behind

def charAt (memory : List Char) (address : Nat) : Char :=
  memory.getD address '\x00'

/-- `ndstr_nstr_end` copies no further from here. -/
def stopsAt (memory : List Char) (final : Char) (address : Nat) : Prop :=
  charAt memory address = '\x00' ∨ charAt memory address = final

instance (memory : List Char) (final : Char) (address : Nat) :
    Decidable (stopsAt memory final address) :=
  inferInstanceAs (Decidable (_ ∨ _))

/-- How many bytes `ndstr_nstr_end` copies from `src` on; the limit `n` is
counted down by the bytes of a word.  There are no more turns than `n` at the
beginning. -/
def wordCopyTurns (code : CodeType) (memory : List Char) (final : Char) :
    Nat → Int → Nat → Nat
  | 0, _, _ => 0
  | turns + 1, n, src =>
    if n ≤ 0 ∨ stopsAt memory final src then 0
    else
      let ret := wordSize code (charAt memory src)
      ret + wordCopyTurns code memory final turns (n - ret) (src + ret)

def wordCopy (code : CodeType) (memory : List Char) (final : Char) (n : Int)
    (src : Nat) : Nat :=
  wordCopyTurns code memory final n.toNat n src

/-- `parser_valid` -/
def parserValidAt (memory : List Char) : Nat → Nat → Option Nat
  | 0, tmp => if ' ' < charAt memory tmp then some tmp else none
  | size + 1, tmp =>
    if ' ' < charAt memory tmp then some tmp
    else if charAt memory tmp = '\x00' ∨ size = 0 then none
    else parserValidAt memory size (tmp + 1)

/-- `parser_check_end` -/
def parserCheckEndAt (memory : List Char) : Nat → Nat → Option Nat
  | 0, _ => none
  | size + 1, src =>
    if charAt memory src = '\x00' then none
    else if charAt memory src = '\r' ∧ charAt memory (src + 1) = '\n' then
      some (src + 2)
    else parserCheckEndAt memory size (src + 1)

/-- Bytes written from the beginning of a buffer on. -/
structure BufWrite where
  size : Nat
  count : Nat
  deriving DecidableEq

def BufWrite.Fits (write : BufWrite) : Prop :=
  write.count ≤ write.size

instance (write : BufWrite) : Decidable write.Fits :=
  inferInstanceAs (Decidable (_ ≤ _))

/-- The name of a header in `_parseHeader`: where it begins, and how many bytes
are copied. -/
def headerName (code : CodeType) (memory : List Char) (datasize : Nat) :
    Option (Nat × Nat) :=
  (parserValidAt memory datasize 0).map fun p =>
    (p, wordCopy code memory ':' (datasize - p) p)

def valueStart (code : CodeType) (memory : List Char) (datasize : Nat) :
    Option Nat :=
  match headerName code memory datasize with
  | none => none
  | some (p, count) =>
    if charAt memory (p + count) ≠ ':' then none
    else
      parserValidAt memory (datasize - (p + count + 1)) (p + count + 1)

/-- The value of a header in `_parseHeader`, if the line is complete: where it
begins, and where the next line does. -/
def headerValue (code : CodeType) (memory : List Char) (datasize : Nat) :
    Option (Nat × Nat) :=
  match valueStart code memory datasize with
  | none => none
  | some st =>
    (parserCheckEndAt memory (datasize - st) st).map fun next => (st, next)

/-- What `_parseHeader` writes into `buf` -/
def headerWrites (code : CodeType) (memory : List Char) (datasize : Nat) :
    List BufWrite :=
  (headerName code memory datasize).toList.map (fun name =>
      ⟨1024, name.2 + 1⟩) ++
    (headerValue code memory datasize).toList.map fun value =>
      ⟨1024, value.2 - value.1 - 2 + 1⟩

/-- What `ndstr_nstr_ansi` writes into a buffer of `size` bytes -/
def ansiWrite (size : Nat) (final : Char) (limit : Nat) (text : List Char) :
    BufWrite :=
  ⟨size, (nstrAnsi final limit text).1.length + 1⟩

/-- What the loop of `_parsePathInfo` writes into `buf` and `val` -/
def formWrites : Nat → List Char → List BufWrite
  | 0, _ => []
  | fuel + 1, p =>
    ⟨4096, 1⟩ :: ansiWrite 4096 '=' 4096 p :: (let p := (nstrAnsi '=' 4096 p).2
      if p.head? ≠ some '=' then []
      else
        ansiWrite 4096 '&' 4096 p.tail ::
          (let p := skip '&' (nstrAnsi '&' 4096 p.tail).2
          if p = [] then [] else formWrites fuel p))

/-- What `_parsePathInfo` writes into `buf` and `val` -/
def pathWrites (path : List Char) : List BufWrite :=
  ansiWrite 4096 '?' 4096 path :: (let p := (nstrAnsi '?' 4096 path).2
    if p.head? ≠ some '?' then [] else formWrites p.length p.tail)

/-- The text that `ParseProtocol` copies the path from. -/
def protocolPath (data : List Char) : Option (List Char) :=
  match strchr (matchMethod (cString data)).2 '/' with
  | none => none
  | some p => if p.tail.head? = some ' ' then none else some p.tail

/-- What `ParseProtocol` writes into `buf`, and `_parsePathInfo` for it -/
def protocolWrites (data : List Char) : List BufWrite :=
  match protocolPath data with
  | none => []
  | some p =>
    let buf := (nstrAnsi ' ' 1024 p).1
    ⟨1024, 1⟩ :: ansiWrite 1024 ' ' 1024 p ::
      if buf = [] then [] else pathWrites (cString (urlcodeTotext buf))

/-- The texts that `_parseOnePart` copies the name and the name of the file
from. -/
def partTexts (header : List HttpHeaderNode) : List (List Char) :=
  match getHeader "Content-Disposition".toList header with
  | none => []
  | some p =>
    match stristr p ("name=".toList ++ ['"']) with
    | none => []
    | some pName =>
      pName.drop 6 ::
        ((stristr p ("filename=".toList ++ ['"'])).toList.map
          fun pFileName => pFileName.drop 10)

/-- What `_parseOnePart` writes into `buf`, if its parser has found these
headers -/
def partWrites (header : List HttpHeaderNode) : List BufWrite :=
  (partTexts header).map (ansiWrite 1024 '"' 1024)

/-- The values that `_parseCookies` copies a name from, each with the memory
behind it. -/
def cookieTexts (code : CodeType) :
    List (HttpHeaderNode × List Char) → List (List Char)
  | [] => []
  | (node, behind) :: header =>
    if stricmp node.name "Cookie".toList ≠ 0 then cookieTexts code header
    else
      match firstValid node.value with
      | none => []
      | some p =>
        let memory := memoryOf p behind
        let name := wordCopy code memory '=' 4096 0
        memory ::
          if charAt memory name ≠ '=' then cookieTexts code header
          else if urlcodeTotext (cString (memory.drop (name + 1))) = [] then
            []
          else cookieTexts code header

/-- What `_parseCookies` writes into `buf` -/
def cookieWrites (code : CodeType)
    (header : List (HttpHeaderNode × List Char)) : List BufWrite :=
  (cookieTexts code header).map fun memory =>
    ⟨4096, wordCopy code memory '=' 4096 0 + 1⟩

/-- What `snprintf` answers for a text of this length: an `int`, and something
negative where it cannot count so far. -/
def snprintfAnswer (len : Nat) : Int :=
  if len < 2 ^ 31 then len else -1

/-- A call of `ndsnprintf`: where it begins to write, how much it may, how long
the text is, and how much room is thought to be left behind it. -/
structure Printed where
  offset : Int
  size : Nat
  len : Nat
  left : Nat
  deriving DecidableEq

/-- Where the bytes end that `snprintf` writes, the NUL included; without room
it writes nothing. -/
def Printed.stop (call : Printed) : Int :=
  call.offset + (min (call.len + 1) call.size : Nat)

/-- The loop over the texts of `HeaderToBuf` and of `RequestValueTobuf`: the
calls, and `p - buf` at the end.  They count down the room each in its way. -/
def printAll (left : Nat → Int → Nat) :
    List (List Char) → Int → Nat → List Printed × Int
  | [], p, _ => ([], p)
  | text :: texts, p, size =>
    let len := snprintfAnswer text.length
    let rest := printAll left texts (p + len) (left size len)
    (⟨p, size, text.length, left size len⟩ :: rest.1, rest.2)

/-- The line that `HeaderToBuf` prints. -/
def headerLineOf (node : HttpHeaderNode) : List Char :=
  cString node.name ++ ':' :: cString node.value ++ ['\r', '\n']

def headerTexts (header : List HttpHeaderNode) : List (List Char) :=
  (header.filter fun node => 0 < node.value.length).map headerLineOf

/-- `if (size >= len) size -= len`, where `len` is compared as a `size_t` -/
def guardedRoom (size : Nat) (len : Int) : Nat :=
  if (len % 2 ^ 64).toNat ≤ size then size - (len % 2 ^ 64).toNat else size

def headerToBuf (header : List HttpHeaderNode) (size : Nat) :
    List Printed × Int :=
  printAll guardedRoom (headerTexts header) 0 size

def formOf (last : Bool) (node : HttpHeaderNode) : List Char :=
  cString node.name ++ '=' :: cString node.value ++
    if last then [] else ['&']

def formTexts : List HttpHeaderNode → List (List Char)
  | [] => []
  | node :: forms =>
    if node.value.length = 0 then formTexts forms
    else formOf forms.isEmpty node :: formTexts forms

/-- `size -= len`, where `size` is a `size_t` -/
def wrappedRoom (size : Nat) (len : Int) : Nat :=
  ((size - len) % 2 ^ 64).toNat

def requestValueTobuf (forms : List HttpHeaderNode) (size : Nat) :
    List Printed × Int :=
  printAll wrappedRoom (formTexts forms) 0 size

/-- Nothing is written outside the `size` bytes, the room never wraps, and no
more than `size` is answered. -/
def Keeps (size : Nat) (result : List Printed × Int) : Prop :=
  (∀ call ∈ result.1,
    0 ≤ call.offset ∧ call.stop ≤ size ∧ call.left ≤ call.size) ∧
    0 ≤ result.2 ∧ result.2 ≤ size

instance (size : Nat) (result : List Printed × Int) :
    Decidable (Keeps size result) :=
  inferInstanceAs (Decidable (_ ∧ _ ∧ _))

variable {text : List Char}

section Scanners

variable {code : CodeType} {memory : List Char} {final : Char}

/-- From an address one comes so many bytes further word by word. -/
inductive Words (code : CodeType) (memory : List Char) : Nat → Nat → Prop
  | none (src : Nat) : Words code memory src 0
  | word {src count : Nat} :
      Words code memory (src + wordSize code (charAt memory src)) count →
      Words code memory src (wordSize code (charAt memory src) + count)

attribute [local simp] wordCopyTurns parserCheckEndAt formWrites printAll in
theorem wordCopyTurns_ends {turns : Nat} {n : Int} (src : Nat)
    (enough : n.toNat ≤ turns) :
    Words code memory src (wordCopyTurns code memory final turns n src) ∧
      (n ≤ wordCopyTurns code memory final turns n src ∨
        stopsAt memory final
          (src + wordCopyTurns code memory final turns n src)) := by
  induction turns generalizing n src with
  | zero =>
    refine ⟨.none src, .inl ?_⟩
    omega
  | succ turns induction =>
    rw [wordCopyTurns]
    by_cases ends : n ≤ 0 ∨ stopsAt memory final src
    · rw [if_pos ends]
      exact ⟨.none src, ends⟩
    rw [if_neg ends]
    have positive := wordSize_pos code (charAt memory src)
    have fewer : (n - wordSize code (charAt memory src)).toNat ≤ turns := by
      omega
    obtain ⟨words, stops⟩ := induction _ fewer
    refine ⟨.word words, stops.imp (fun least => ?_) fun stops => ?_⟩
    · push_cast
      omega
    · rwa [← Nat.add_assoc]

theorem wordCopyTurns_le {n : Int} {src count : Nat} (turns : Nat)
    (words : Words code memory src count)
    (stops : n ≤ count ∨ stopsAt memory final (src + count)) :
    wordCopyTurns code memory final turns n src ≤ count := by
  induction turns generalizing n src count with
  | zero => exact Nat.zero_le _
  | succ turns induction =>
    rw [wordCopyTurns]
    by_cases ends : n ≤ 0 ∨ stopsAt memory final src
    · rw [if_pos ends]
      exact Nat.zero_le _
    rw [if_neg ends]
    cases words with
    | none => exact absurd stops ends
    | word words =>
      refine Nat.add_le_add_left (induction words ?_) _
      refine stops.imp (fun least => ?_) fun stops => ?_
      · push_cast at least
        omega
      · rwa [Nat.add_assoc]

theorem wordCopy_lt_iff {n : Int} {src room : Nat} :
    wordCopy code memory final n src + 1 ≤ room ↔
      ∃ count < room, Words code memory src count ∧
        (n ≤ count ∨ stopsAt memory final (src + count)) := by
  constructor
  · intro fits
    obtain ⟨words, stops⟩ := wordCopyTurns_ends src (Nat.le_refl n.toNat)
    exact ⟨_, fits, words, stops⟩
  · rintro ⟨count, less, words, stops⟩
    have most := wordCopyTurns_le n.toNat words stops
    unfold wordCopy
    omega

theorem nstrAnsi_lt_iff {limit : Nat} :
    (nstrAnsi final limit text).1.length < limit ↔
      text.length < limit ∨ final ∈ text.take limit := by
  induction limit generalizing text with
  | zero => simp [nstrAnsi]
  | succ limit induction =>
    cases text with
    | nil => simp [nstrAnsi]
    | cons c text =>
      rw [nstrAnsi]
      by_cases ends : c = final
      · simp [ends]
      · have ends' : final ≠ c := fun same => ends same.symm
        simp only [if_neg ends, length_cons, Nat.add_lt_add_iff_right,
          take_succ_cons, mem_cons, ends', false_or]
        exact induction

theorem nstrAnsi_fst_le (final : Char) (limit : Nat) (text : List Char) :
    (nstrAnsi final limit text).1.length ≤ min limit text.length := by
  induction limit generalizing text with
  | zero => exact Nat.zero_le _
  | succ limit induction =>
    cases text with
    | nil => exact Nat.zero_le _
    | cons c text =>
      rw [nstrAnsi]
      split
      · exact Nat.zero_le _
      · have most := induction text
        simp only [length_cons]
        omega

theorem ansiWrite_fits_iff {size : Nat} :
    (ansiWrite size final size text).Fits ↔
      text.length < size ∨ final ∈ text.take size :=
  nstrAnsi_lt_iff

theorem ansiWrite_fits_of_short {size limit : Nat}
    (short : text.length < size) : (ansiWrite size final limit text).Fits := by
  exact Nat.lt_of_le_of_lt
    ((nstrAnsi_fst_le final limit text).trans (Nat.min_le_right _ _)) short

def lineEnds (memory : List Char) (address : Nat) : Prop :=
  charAt memory address = '\r' ∧ charAt memory (address + 1) = '\n'

instance (memory : List Char) (address : Nat) :
    Decidable (lineEnds memory address) :=
  inferInstanceAs (Decidable (_ ∧ _))

theorem parserCheckEndAt_spec {size src next : Nat}
    (found : parserCheckEndAt memory size src = some next) :
    ∃ count, next = src + count + 2 ∧ lineEnds memory (src + count) ∧
      ∀ other, lineEnds memory (src + other) → count ≤ other := by
  induction size generalizing src with
  | zero => cases found
  | succ size induction =>
    rw [parserCheckEndAt] at found
    by_cases ended : charAt memory src = '\x00'
    · rw [if_pos ended] at found
      cases found
    rw [if_neg ended] at found
    by_cases ends : charAt memory src = '\r' ∧ charAt memory (src + 1) = '\n'
    · rw [if_pos ends] at found
      cases found
      exact ⟨0, rfl, ends, fun other _ => Nat.zero_le other⟩
    · rw [if_neg ends] at found
      obtain ⟨count, rfl, here, first⟩ := induction found
      refine ⟨count + 1, by omega, ?_, fun other there => ?_⟩
      · rwa [Nat.add_comm count, ← Nat.add_assoc]
      · cases other with
        | zero => exact absurd there ends
        | succ other =>
          refine Nat.succ_le_succ (first other ?_)
          rwa [Nat.add_assoc, Nat.add_comm 1]

end Scanners

section Functions

variable {code : CodeType} {memory : List Char} {datasize : Nat}

/-- `_parseHeader` keeps to its buffer if and only if the name ends within it
and the value of a complete line does. -/
theorem headerWrites_fit_iff :
    (∀ write ∈ headerWrites code memory datasize, write.Fits) ↔
      (∀ p, parserValidAt memory datasize 0 = some p →
        ∃ count < 1024, Words code memory p count ∧
          ((datasize : Int) - p ≤ count ∨ stopsAt memory ':' (p + count))) ∧
      ∀ st, valueStart code memory datasize = some st →
        (parserCheckEndAt memory (datasize - st) st).isSome →
        ∃ count < 1024, lineEnds memory (st + count) := by
  rw [headerWrites, forall_mem_append]
  refine and_congr ?_ ?_
  · rw [headerName]
    cases parserValidAt memory datasize 0 with
    | none => simp
    | some p =>
      simp only [Option.map_some, Option.toList_some, map_cons,
        map_nil, mem_singleton, forall_eq, Option.some.injEq,
        forall_eq']
      exact wordCopy_lt_iff
  · rw [headerValue]
    cases valueStart code memory datasize with
    | none => simp
    | some st =>
      cases found : parserCheckEndAt memory (datasize - st) st with
      | none => simp [found]
      | some next =>
        obtain ⟨count, rfl, here, first⟩ := parserCheckEndAt_spec found
        simp only [found, Option.map_some, Option.toList_some,
          map_cons, map_nil, mem_singleton, forall_eq,
          Option.some.injEq, forall_eq', Option.isSome_some,
          forall_const]
        have extent : st + count + 2 - st - 2 + 1 = count + 1 := by omega
        rw [BufWrite.Fits, extent]
        constructor
        · intro fits
          exact ⟨count, fits, here⟩
        · rintro ⟨other, less, there⟩
          exact Nat.lt_of_le_of_lt (first other there) less

theorem formWrites_fit {fuel : Nat} {p : List Char}
    (short : p.length < 4096) : ∀ write ∈ formWrites fuel p, write.Fits := by
  induction fuel generalizing p with
  | zero => simp [formWrites]
  | succ fuel induction =>
    have name := nstrAnsi_length '=' 4096 p
    have value := nstrAnsi_length '&' 4096 (nstrAnsi '=' 4096 p).2.tail
    have shorter : (nstrAnsi '=' 4096 p).2.tail.length < 4096 := by
      rw [length_tail]
      omega
    refine forall_mem_cons.mpr ⟨by decide, ?_⟩
    refine forall_mem_cons.mpr ⟨ansiWrite_fits_of_short short, ?_⟩
    dsimp only
    split
    · simp
    · refine forall_mem_cons.mpr ⟨ansiWrite_fits_of_short shorter, ?_⟩
      split
      · simp
      · refine induction (Nat.lt_of_le_of_lt ?_ shorter)
        exact (length_skip_le _ _).trans value

theorem pathWrites_fit {path : List Char} (short : path.length < 4096) :
    ∀ write ∈ pathWrites path, write.Fits := by
  have rest := nstrAnsi_length '?' 4096 path
  refine forall_mem_cons.mpr ⟨ansiWrite_fits_of_short short, ?_⟩
  dsimp only
  split
  · simp
  · refine formWrites_fit ?_
    rw [length_tail]
    omega

/-- `ParseProtocol` keeps to its buffer, and `_parsePathInfo` to its own, if and
only if the path ends within it. -/
theorem protocolWrites_fit_iff {data : List Char} :
    (∀ write ∈ protocolWrites data, write.Fits) ↔
      ∀ p, protocolPath data = some p →
        p.length < 1024 ∨ ' ' ∈ p.take 1024 := by
  rw [protocolWrites]
  cases protocolPath data with
  | none => simp
  | some p =>
    simp only [Option.some.injEq, forall_eq', forall_mem_cons,
      ansiWrite_fits_iff]
    refine ⟨fun fits => fits.2.1, fun fits => ⟨by decide, fits, ?_⟩⟩
    split
    · simp
    · refine pathWrites_fit ?_
      have copied := (nstrAnsi_fst_le ' ' 1024 p).trans (Nat.min_le_left _ _)
      have decoded := length_urlcodeTotext_le (nstrAnsi ' ' 1024 p).1
      have cut := length_cString_le (urlcodeTotext (nstrAnsi ' ' 1024 p).1)
      omega

theorem partWrites_fit_iff {header : List HttpHeaderNode} :
    (∀ write ∈ partWrites header, write.Fits) ↔
      ∀ text ∈ partTexts header,
        text.length < 1024 ∨ '"' ∈ text.take 1024 := by
  rw [partWrites, forall_mem_map]
  exact forall₂_congr fun text _ => ansiWrite_fits_iff

theorem cookieWrites_fit_iff {header : List (HttpHeaderNode × List Char)} :
    (∀ write ∈ cookieWrites code header, write.Fits) ↔
      ∀ text ∈ cookieTexts code header,
        ∃ count < 4096, Words code text 0 count ∧ stopsAt text '=' count := by
  rw [cookieWrites, forall_mem_map]
  refine forall₂_congr fun text _ => wordCopy_lt_iff.trans ?_
  dsimp only
  refine exists_congr fun count => and_congr_right fun less => ?_
  rw [Nat.zero_add, or_iff_right]
  omega

variable {left : Nat → Int → Nat} {texts : List (List Char)}

theorem snprintfAnswer_eq {len : Nat} (counted : len < 2 ^ 31) :
    snprintfAnswer len = len :=
  if_pos counted

theorem printAll_snd (left : Nat → Int → Nat)
    (counted : ∀ text ∈ texts, text.length < 2 ^ 31) (p : Int) (room : Nat) :
    (printAll left texts p room).2 = p + texts.flatten.length := by
  induction texts generalizing p room with
  | nil => simp [printAll]
  | cons text texts induction =>
    obtain ⟨first, later⟩ := forall_mem_cons.mp counted
    rw [printAll, snprintfAnswer_eq first]
    rw [induction later, flatten_cons, length_append]
    push_cast
    omega

theorem printAll_within {size : Nat}
    (exactRoom : ∀ room ≤ size, ∀ len ≤ room, len < 2 ^ 31 →
      left room len = room - len)
    (counted : ∀ text ∈ texts, text.length < 2 ^ 31) {p room : Nat}
    (adds : p + room = size) (fits : texts.flatten.length ≤ room) :
    ∀ call ∈ (printAll left texts p room).1,
      0 ≤ call.offset ∧ call.stop ≤ size ∧ call.left ≤ call.size := by
  induction texts generalizing p room with
  | nil => simp [printAll]
  | cons text texts induction =>
    obtain ⟨first, later⟩ := forall_mem_cons.mp counted
    rw [flatten_cons, length_append] at fits
    have leaves := exactRoom room (by omega) text.length (by omega) first
    rw [printAll, snprintfAnswer_eq first]
    rw [leaves]
    refine forall_mem_cons.mpr ⟨⟨by simp, ?_, by simp⟩, ?_⟩
    · unfold Printed.stop
      dsimp only
      omega
    · exact induction later (by omega) (by omega)

/-- A function that prints keeps to its buffer if and only if its texts fit in
without a NUL. -/
theorem keeps_printAll_iff {size : Nat}
    (exactRoom : ∀ room ≤ size, ∀ len ≤ room, len < 2 ^ 31 →
      left room len = room - len)
    (counted : ∀ text ∈ texts, text.length < 2 ^ 31) :
    Keeps size (printAll left texts 0 size) ↔
      texts.flatten.length ≤ size := by
  have answer := printAll_snd left counted 0 size
  constructor
  · rintro ⟨-, -, most⟩
    omega
  · intro fits
    refine ⟨?_, ?_, ?_⟩
    · exact printAll_within exactRoom counted (Nat.zero_add size) fits
    · omega
    · omega

theorem guardedRoom_eq {room len : Nat} (fits : len ≤ room)
    (counted : len < 2 ^ 31) : guardedRoom room len = room - len := by
  have same : ((len : Int) % 2 ^ 64).toNat = len := by omega
  rw [guardedRoom, same, if_pos fits]

theorem wrappedRoom_eq {room len : Nat} (fits : len ≤ room)
    (within : room < 2 ^ 64) : wrappedRoom room len = room - len := by
  unfold wrappedRoom
  omega

end Functions

/-- What the functions are given: the memory that the received bytes lie in and
how many they are, the headers of a part, the headers that cookies are taken
from, each with the memory behind its value, and what is printed into a buffer
of `size` bytes. -/
structure Parsing where
  code : CodeType
  memory : List Char
  datasize : Nat
  part : List HttpHeaderNode
  cookies : List (HttpHeaderNode × List Char)
  header : List HttpHeaderNode
  forms : List HttpHeaderNode
  size : Nat
  sizeWithin : size < 2 ^ 64

namespace Parsing

/-- Nothing is written behind a buffer. -/
def BuffersKept (input : Parsing) : Prop :=
  (∀ write ∈ headerWrites input.code input.memory input.datasize, write.Fits) ∧
    (∀ write ∈ protocolWrites input.memory, write.Fits) ∧
    (∀ write ∈ partWrites input.part, write.Fits) ∧
    (∀ write ∈ cookieWrites input.code input.cookies, write.Fits) ∧
    Keeps input.size (headerToBuf input.header input.size) ∧
    Keeps input.size (requestValueTobuf input.forms input.size)

/-- No text is longer than the `int` counts that `snprintf` answers. -/
def Counted (input : Parsing) : Prop :=
  ∀ text ∈ headerTexts input.header ++ formTexts input.forms,
    text.length < 2 ^ 31

instance (input : Parsing) : Decidable input.Counted :=
  inferInstanceAs (Decidable (∀ text ∈ _, _))

/-- Every text ends early enough for its buffer. -/
structure WithinLimits (input : Parsing) : Prop where
  name : ∀ p, parserValidAt input.memory input.datasize 0 = some p →
    ∃ count < 1024, Words input.code input.memory p count ∧
      ((input.datasize : Int) - p ≤ count ∨
        stopsAt input.memory ':' (p + count))
  value : ∀ st, valueStart input.code input.memory input.datasize = some st →
    (parserCheckEndAt input.memory (input.datasize - st) st).isSome →
    ∃ count < 1024, lineEnds input.memory (st + count)
  path : ∀ p, protocolPath input.memory = some p →
    p.length < 1024 ∨ ' ' ∈ p.take 1024
  part : ∀ text ∈ partTexts input.part,
    text.length < 1024 ∨ '"' ∈ text.take 1024
  cookies : ∀ text ∈ cookieTexts input.code input.cookies,
    ∃ count < 4096, Words input.code text 0 count ∧ stopsAt text '=' count
  header : (headerTexts input.header).flatten.length ≤ input.size
  forms : (formTexts input.forms).flatten.length ≤ input.size

end Parsing

/-- The functions keep to their buffers exactly while every text ends early
enough for its buffer. -/
theorem buffersKept_iff (input : Parsing) (counted : input.Counted) :
    input.BuffersKept ↔ input.WithinLimits := by
  obtain ⟨headerCounted, formsCounted⟩ := forall_mem_append.mp counted
  have header : Keeps input.size (headerToBuf input.header input.size) ↔ _ :=
    keeps_printAll_iff
      (fun room _ len fits counted => guardedRoom_eq fits counted)
      headerCounted
  have forms : Keeps input.size (requestValueTobuf input.forms input.size) ↔
      _ :=
    keeps_printAll_iff
      (fun room within len fits _ =>
        wrappedRoom_eq fits (Nat.lt_of_le_of_lt within input.sizeWithin))
      formsCounted
  rw [Parsing.BuffersKept, headerWrites_fit_iff, protocolWrites_fit_iff,
    partWrites_fit_iff, cookieWrites_fit_iff, header, forms]
  constructor
  · rintro ⟨⟨name, value⟩, path, part, cookies, header, forms⟩
    exact ⟨name, value, path, part, cookies, header, forms⟩
  · intro within
    exact ⟨⟨within.name, within.value⟩, within.path, within.part,
      within.cookies, within.header, within.forms⟩

def smallParsing : Parsing where
  code := .utf8
  memory := "Host: a\r\n".toList
  datasize := 9
  part := []
  cookies := []
  header := [⟨"a".toList, "b".toList⟩]
  forms := [⟨"a".toList, "b".toList⟩]
  size := 5
  sizeWithin := by decide

theorem buffersKept_iff_small :
    smallParsing.BuffersKept ↔ smallParsing.WithinLimits :=
  buffersKept_iff smallParsing (by decide)

/-- A path of 1024 bytes, and a header for a buffer of three bytes. -/
def longParsing : Parsing where
  code := .utf8
  memory := "GET /".toList ++ List.replicate 1024 'a' ++
    " HTTP/1.1\r\n".toList
  datasize := 1040
  part := []
  cookies := []
  header := [⟨"a".toList, "b".toList⟩]
  forms := []
  size := 3
  sizeWithin := by decide

/-- The NUL of the path is written behind the buffer, and five bytes of three are
answered. -/
theorem longPath_not_buffersKept :
    ¬ longParsing.BuffersKept ∧
      (⟨1024, 1025⟩ : BufWrite) ∈ protocolWrites longParsing.memory ∧
      (headerToBuf longParsing.header 3).2 = 5 := by
  have path : (⟨1024, 1025⟩ : BufWrite) ∈ protocolWrites longParsing.memory := by
    decide +kernel
  refine ⟨fun kept => ?_, path, by decide +kernel⟩
  exact absurd (kept.2.1 _ path) (by decide)

end NdNet.Http
