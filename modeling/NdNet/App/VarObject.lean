import NdNet.App.VarType
import NdNet.Lib.Owners

/-!
# `NDVarType` in memory

An object is its kind and the eight bytes of a union, in which a number lies in
the low bytes and a string or a binary is a pointer to a block of the heap, or
null.  A constructor that stores a number leaves the rest of the union as it
found it, and those that begin with `destroy` look at what they found.

A function gives nothing where the program has no defined behaviour: where it
follows a null pointer or frees what is not there.
-/

namespace NdNet

/-- `NDVTYPE_ELEMENT_TYPE` -/
inductive VarKind where
  | int
  | float
  | string
  | int8
  | int16
  | int64
  | binary
  deriving DecidableEq, Repr

def VarKind.pointer : VarKind → Bool
  | string => true
  | binary => true
  | _ => false

/-- What `malloc` was asked for: a text with its zero, or an `ndvtype_bin`. -/
inductive VarBlock where
  | text (text : CText)
  | bin (data : List Byte)
  deriving DecidableEq

abbrev VarHeap := UInt64 → Option VarBlock

/-- `NDVarType`: `m_type` and `m_data`.  What lies where an object is going to be
constructed is taken for an object too; `destroy` takes a kind that is none of
the seven for a number. -/
structure VarObject where
  kind : VarKind
  word : UInt64
  deriving DecidableEq, Repr

inductive VarMath where
  | add
  | sub
  | mul
  deriving DecidableEq, Repr

/-- What is left to the platform: `malloc`, which gives null or what is free,
the arithmetic and the conversions of floats, and the numbers in texts. -/
structure VarHost where
  malloc : VarHeap → Nat → UInt64
  free : ∀ heap size, malloc heap size = 0 ∨ heap (malloc heap size) = none
  math : VarMath → UInt32 → UInt32 → UInt32
  divide : UInt32 → UInt32 → UInt32
  isZero : UInt32 → Bool
  toInt : UInt32 → Int32
  toInt8 : UInt32 → UInt8
  toInt16 : UInt32 → UInt16
  toInt64 : UInt32 → UInt64
  ofInt64 : UInt64 → UInt32
  atoi : CText → Int32
  atoll : CText → UInt64
  atof : CText → UInt32

def VarMath.int (op : VarMath) (left right : Int32) : Int32 :=
  match op with
  | add => left + right
  | sub => left - right
  | mul => left * right

def VarMath.int64 (op : VarMath) (left right : UInt64) : UInt64 :=
  match op with
  | add => left + right
  | sub => left - right
  | mul => left * right

inductive VarNumber where
  | int (value : Int32)
  | float (value : UInt32)
  | int8 (value : UInt8)
  | int16 (value : UInt16)
  | int64 (value : UInt64)
  deriving DecidableEq, Repr

namespace VarNumber

def kind : VarNumber → VarKind
  | int _ => .int
  | float _ => .float
  | int8 _ => .int8
  | int16 _ => .int16
  | int64 _ => .int64

def storeLow (word : UInt64) (low : UInt32) : UInt64 :=
  UInt64.ofNat (word.toNat / 4294967296 * 4294967296 + low.toNat)

/-- The union behind the assignment to `i_val`, `f_val` or `i64_val`. -/
def store (word : UInt64) : VarNumber → UInt64
  | int value => storeLow word value.toUInt32
  | float value => storeLow word value
  | int8 value => storeLow word value.toUInt32
  | int16 value => storeLow word value.toUInt32
  | int64 value => value

end VarNumber

namespace VarObject

/-- `free` -/
def freeAt (heap : VarHeap) (address : UInt64) : Option VarHeap :=
  if (heap address).isSome then some (Function.update heap address none)
  else none

def destroy (heap : VarHeap) (this : VarObject) :
    Option (VarHeap × VarObject) :=
  if this.kind.pointer ∧ this.word ≠ 0 then do
    let heap ← freeAt heap this.word
    return (heap, { this with word := 0 })
  else some (heap, { this with word := 0 })

def emptyText : CText :=
  ⟨[], List.not_mem_nil⟩

/-- The text at `str_val`; a null pointer stands for an empty one. -/
def textAt (heap : VarHeap) (address : UInt64) : Option CText :=
  if address = 0 then some emptyText
  else
    match heap address with
    | some (.text text) => some text
    | _ => none

/-- `initSet(const char *)`; the text is looked at behind `destroy`. -/
def initText (host : VarHost) (heap : VarHeap) (this : VarObject)
    (source : VarHeap → Option CText) : Option (VarHeap × VarObject) := do
  let (heap, this) ← this.destroy heap
  let this := { this with kind := .string }
  let text ← source heap
  if text.val = [] then return (heap, this)
  else
    let address := host.malloc heap (text.val.length + 1)
    if address = 0 then return (heap, this)
    else return (Function.update heap address (some (.text text)),
      { this with word := address })

/-- `initSet(void *, size_t)`; `sizeof(ndvtype_bin)` is 8. -/
def initBin (host : VarHost) (heap : VarHeap) (this : VarObject) (size : Nat)
    (source : VarHeap → Option (List Byte)) : Option (VarHeap × VarObject) := do
  let (heap, this) ← this.destroy heap
  let this := { this with kind := .binary }
  if size = 0 then return (heap, this)
  else
    let address := host.malloc heap (size + 12)
    if address = 0 then return (heap, this)
    else
      let data ← source heap
      return (Function.update heap address (some (.bin data)),
        { this with word := address })

def setNumber (heap : VarHeap) (this : VarObject) (number : VarNumber) :
    Option (VarHeap × VarObject) := do
  let (heap, this) ← this.destroy heap
  return (heap, ⟨number.kind, number.store this.word⟩)

def initType (heap : VarHeap) (this : VarObject) (kind : VarKind) :
    Option (VarHeap × VarObject) := do
  let (heap, this) ← this.destroy heap
  return (heap, { this with kind := kind })

/-- `m_data.i_val` -/
def low (this : VarObject) : UInt32 :=
  UInt32.ofNat this.word.toNat

def getInt (host : VarHost) (heap : VarHeap) (this : VarObject) :
    Option Int32 :=
  match this.kind with
  | .float => some (host.toInt this.low)
  | .string => (textAt heap this.word).map fun text =>
    if text.val = [] then 0 else host.atoi text
  | _ => some this.low.toInt32

def getInt64 (host : VarHost) (heap : VarHeap) (this : VarObject) :
    Option UInt64 :=
  match this.kind with
  | .float => some (host.toInt64 this.low)
  | .string => (textAt heap this.word).map fun text =>
    if text.val = [] then 0 else host.atoll text
  | _ => some this.word

def getFloat (host : VarHost) (heap : VarHeap) (this : VarObject) :
    Option UInt32 :=
  match this.kind with
  | .float => some this.low
  | .string => (textAt heap this.word).map fun text =>
    if text.val = [] then 0 else host.atof text
  | _ => some (host.ofInt64 this.word)

/-- `operator =(const NDVarType &)`.  `source` is the right side, which is
another object or, in `a = a`, what has become of `*this` by then. -/
def assign (host : VarHost) (heap : VarHeap) (this : VarObject)
    (source : VarObject → VarObject) : Option (VarHeap × VarObject) := do
  let (heap, this) ← this.destroy heap
  let r := source this
  match r.kind with
  | .int => setNumber heap this (.int r.low.toInt32)
  | .float => setNumber heap this (.float r.low)
  | .string => initText host heap this fun heap => textAt heap r.word
  | .int8 => do
      let value ← r.getInt host heap
      setNumber heap this (.int8 value.toUInt32.toUInt8)
  | .int16 => do
      let value ← r.getInt host heap
      setNumber heap this (.int16 value.toUInt32.toUInt16)
  | .int64 => do
      let value ← r.getInt64 host heap
      setNumber heap this (.int64 value)
  | .binary =>
    -- the size is that of `m_data.bin_val`, not of `r.m_data.bin_val`
    if this.word = 0 then none
    else
      match heap this.word with
      | some (.bin data) =>
        initBin host heap this data.length fun heap =>
          match heap this.word with
          | some (.bin data) => some data
          | _ => none
      | _ => none

/-- The constructors that store a number into what they find. -/
def ofNumber (found : VarObject) (number : VarNumber) : VarObject :=
  ⟨number.kind, number.store found.word⟩

/-- `NDVarType(const NDVarType &)` -/
def copy (host : VarHost) (heap : VarHeap) (found r : VarObject) :
    Option (VarHeap × VarObject) :=
  (found.ofNumber (.int 0)).assign host heap fun _ => r

/-- `ND_VARDATA_MATH_OP`, and a copy for the other kinds. -/
def math (host : VarHost) (op : VarMath) (heap : VarHeap)
    (this r found : VarObject) : Option (VarHeap × VarObject) :=
  match this.kind with
  | .int | .int8 | .int16 => do
      let left ← this.getInt host heap
      let right ← r.getInt host heap
      return (heap, found.ofNumber (.int (op.int left right)))
  | .int64 => do
      let left ← this.getInt64 host heap
      let right ← r.getInt64 host heap
      return (heap, found.ofNumber (.int64 (op.int64 left right)))
  | .float => do
      let left ← this.getFloat host heap
      let right ← r.getFloat host heap
      return (heap, found.ofNumber (.float (host.math op left right)))
  | .string | .binary => copy host heap found this

/-- `operator/` -/
def divide (host : VarHost) (heap : VarHeap) (this r found : VarObject) :
    Option (VarHeap × VarObject) := do
  let f1 ← this.getFloat host heap
  let f2 ← r.getFloat host heap
  let val := if host.isZero f2 then f1 else host.divide f1 f2
  match this.kind with
  | .int8 => return (heap, found.ofNumber (.int8 (host.toInt8 val)))
  | .int16 => return (heap, found.ofNumber (.int16 (host.toInt16 val)))
  | .int => return (heap, found.ofNumber (.int (host.toInt val)))
  | .int64 => return (heap, found.ofNumber (.int64 (host.toInt64 val)))
  | .float => return (heap, found.ofNumber (.float val))
  | .string | .binary => copy host heap found this

def joinText (first second : CText) : CText :=
  ⟨first.val ++ second.val, by
    rw [List.mem_append, not_or]
    exact ⟨first.property, second.property⟩⟩

/-- `operator+(const char *)` -/
def addText (host : VarHost) (heap : VarHeap) (this : VarObject)
    (text : CText) (found : VarObject) : Option (VarHeap × VarObject) :=
  if this.kind = .string then do
    let own ← textAt heap this.word
    let whole := joinText own text
    if whole.val = [] then found.initText host heap fun _ => some emptyText
    else
      let address := host.malloc heap (whole.val.length + 1)
      if address = 0 then found.initText host heap fun _ => some emptyText
      else return (Function.update heap address (some (.text whole)),
        ⟨.string, address⟩)
  else found.initText host heap fun _ => some text

end VarObject

inductive VarOperation (ρ : Type) where
  | math (op : VarMath) (right : ρ)
  | divide (right : ρ)
  | addText (text : CText)

/-- The value of an operation, in an object where `found` lies. -/
def VarOperation.value (host : VarHost) (heap : VarHeap) (this : VarObject)
    (found : VarObject) :
    VarOperation VarObject → Option (VarHeap × VarObject)
  | math op right => this.math host op heap right found
  | divide right => this.divide host heap right found
  | addText text => this.addText host heap text found

/-- `+=`, `-=`, `*=` and `/=`: the value of a copy is assigned. -/
def VarOperation.set (host : VarHost) (heap : VarHeap) (this : VarObject)
    (first second : VarObject) (operation : VarOperation VarObject) :
    Option (VarHeap × VarObject) := do
  let (heap, val) ← VarObject.copy host heap first this
  let (heap, sum) ← operation.value host heap val second
  let (heap, this) ← this.assign host heap fun _ => sum
  let (heap, _) ← sum.destroy heap
  let (heap, _) ← val.destroy heap
  return (heap, this)

/-- The heap and the objects there are. -/
structure VarWorld where
  heap : VarHeap
  objects : List VarObject

/-- What a program does with its objects, which it numbers. -/
inductive VarEvent where
  | zero
  | number (number : VarNumber) (found : VarObject)
  | text (text : CText) (found : VarObject)
  | bin (data : List Byte) (found : VarObject)
  | type (kind : VarKind) (found : VarObject)
  | copy (r : Nat) (found : VarObject)
  | operation (this : Nat) (operation : VarOperation Nat) (found : VarObject)
  | setNumber (this : Nat) (number : VarNumber)
  | setText (this : Nat) (text : CText)
  | setBin (this : Nat) (data : List Byte)
  | setType (this : Nat) (kind : VarKind)
  | assign (this r : Nat)
  | operationSet (this : Nat) (operation : VarOperation Nat)
      (first second : VarObject)
  | delete (this : Nat)

namespace VarWorld

def start : VarWorld :=
  { heap := fun _ => none
    objects := [] }

def construct (world : VarWorld) (made : Option (VarHeap × VarObject)) :
    Option VarWorld :=
  made.map fun made => ⟨made.1, world.objects ++ [made.2]⟩

def change (world : VarWorld) (this : Nat)
    (changed : VarObject → Option (VarHeap × VarObject)) : Option VarWorld := do
  let object ← world.objects[this]?
  let (heap, object) ← changed object
  return ⟨heap, world.objects.set this object⟩

def resolve (world : VarWorld) :
    VarOperation Nat → Option (VarOperation VarObject)
  | .math op right => (world.objects[right]?).map (.math op)
  | .divide right => (world.objects[right]?).map .divide
  | .addText text => some (.addText text)

def step (host : VarHost) (world : VarWorld) : VarEvent → Option VarWorld
  | .zero => world.construct (some (world.heap, ⟨.int, 0⟩))
  | .number number found =>
    world.construct (some (world.heap, found.ofNumber number))
  | .text text found =>
    world.construct (found.initText host world.heap fun _ => some text)
  | .bin data found =>
    world.construct
      (found.initBin host world.heap data.length fun _ => some data)
  | .type kind found => world.construct (found.initType world.heap kind)
  | .copy r found => do
      let r ← world.objects[r]?
      world.construct (VarObject.copy host world.heap found r)
  | .operation this operation found => do
      let this ← world.objects[this]?
      let operation ← world.resolve operation
      world.construct (operation.value host world.heap this found)
  | .setNumber this number =>
    world.change this fun this => this.setNumber world.heap number
  | .setText this text =>
    world.change this fun this =>
      -- `operator =(const char *)` destroys, and so does `initSet`
      do
        let (heap, this) ← this.destroy world.heap
        this.initText host heap fun _ => some text
  | .setBin this data =>
    world.change this fun this =>
      this.initBin host world.heap data.length fun _ => some data
  | .setType this kind =>
    world.change this fun this => this.initType world.heap kind
  | .assign this r => do
      let right ← world.objects[r]?
      world.change this fun object =>
        object.assign host world.heap fun current =>
          if r = this then current else right
  | .operationSet this operation first second => do
      let operation ← world.resolve operation
      world.change this fun this =>
        operation.set host world.heap this first second
  | .delete this => do
      let object ← world.objects[this]?
      let (heap, _) ← object.destroy world.heap
      return ⟨heap, world.objects.eraseIdx this⟩

end VarWorld

end NdNet
