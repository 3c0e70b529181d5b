import NdNet.App.ProtoReads

/-!
# The markers

`_ReadTypeSize` takes markers off the stream until one of them belongs to a
value or is an end mark that counts.  What it finds is a function of the bytes
and of the two flags that make it skip end marks.
-/

namespace NdNet

/-- What comes next in the stream: nothing, an end mark that counts, or a
field. -/
inductive NextThing where
  | nothing
  | endMark
  | field (type size : Nat)
  deriving DecidableEq, Repr

namespace NextThing

def ret : NextThing → Int
  | nothing => -1
  | _ => 0

def type : NextThing → Nat
  | field type _ => type
  | _ => 0

def size : NextThing → Nat
  | field _ size => size
  | _ => 0

def struck : NextThing → Bool
  | endMark => true
  | _ => false

def expected : NextThing → Nat
  | field type _ => type
  | _ => StreamMarker.undefine.code

end NextThing

/-- What comes next, whether end marks are skipped behind the commands in front
of it, and the bytes behind it. -/
def nextThing (all skip : Bool) : List Byte → NextThing × Bool × List Byte
  | [] => (.nothing, skip, [])
  | marker :: behind =>
    if marker = netStreamStructEndMark then
      if skip || all then nextThing all skip behind
      else (.endMark, skip, behind)
    else if marker.toNat / 16 = StreamMarker.cmdSkipStructMark.code then
      nextThing all true behind
    else if marker.toNat / 16 = StreamMarker.cmdEnableStructMark.code then
      nextThing all false behind
    else (.field (marker.toNat / 16) (marker.toNat % 16), skip, behind)

variable {bytes : List Byte} {next : NextThing × Bool × List Byte}

namespace ReadCursor

variable {cursor : ReadCursor}

/-- The reader has gone on over bytes that may not be there. -/
structure Strode (cursor after : ReadCursor) (length : Nat) : Prop where
  size : after.size = cursor.size
  memory : after.memory = cursor.memory
  pos : after.pos = cursor.pos + length
  struckEndMarker : after.struckEndMarker = cursor.struckEndMarker
  skipEndMarker : after.skipEndMarker = cursor.skipEndMarker
  skipEndAllStream : after.skipEndAllStream = cursor.skipEndAllStream

theorem readOrg_cases (size : Nat) (here : cursor.At bytes)
    :
    (bytes.length < size ∧ cursor.readOrg size = (-1, 0, cursor)) ∨
      ∃ after, size ≤ bytes.length ∧
        cursor.readOrg size = (0, fromNetstream (bytes.take size), after) ∧
        Strode cursor after size := by
  have length := here.size
  rw [readOrg]
  by_cases there : cursor.pos + size ≤ cursor.size
  · have taken : cursor.bytesAt cursor.pos size = bytes.take size := by
      rw [← stream_take there, here.left]
    rw [if_pos there, taken]
    exact .inr ⟨_, by omega, rfl, rfl, rfl, rfl, rfl, rfl, rfl⟩
  · rw [if_neg there]
    exact .inl ⟨by omega, rfl⟩

theorem Strode.still (cursor : ReadCursor) : Strode cursor cursor 0 :=
  ⟨rfl, rfl, rfl, rfl, rfl, rfl⟩

theorem Strode.at {after : ReadCursor} {length : Nat}
    (strode : Strode cursor after length) (here : cursor.At bytes)
    (inside : length ≤ bytes.length) : after.At (bytes.drop length) where
  left := by
    rw [← here.left, stream_drop, ← strode.pos, ← strode.size]
    change after.bytesAt _ _ = _
    rw [bytesAt, bytesAt, strode.memory]
  inside := by
    have size := here.size
    rw [strode.pos, strode.size]
    omega

theorem Strode.leftData {after : ReadCursor} {length : Nat}
    (strode : Strode cursor after length) (here : cursor.At bytes) :
    after.leftData = Int.bmod (bytes.length - length) 4294967296 := by
  have size := here.size
  rw [ReadCursor.leftData, strode.pos, strode.size, size]
  congr 1
  push_cast
  omega

structure Behind (cursor after : ReadCursor)
    (next : NextThing × Bool × List Byte) : Prop where
  here : after.At next.2.2
  memory : after.memory = cursor.memory
  size : after.size = cursor.size
  skipEndMarker : after.skipEndMarker = next.2.1
  skipEndAllStream : after.skipEndAllStream = cursor.skipEndAllStream
  struckEndMarker : after.struckEndMarker = next.1.struck

theorem Behind.of_strode {middle after : ReadCursor} {length : Nat}
    (strode : Strode cursor middle length) (found : Behind middle after next) :
    Behind cursor after next where
  here := found.here
  memory := found.memory.trans strode.memory
  size := found.size.trans strode.size
  skipEndMarker := found.skipEndMarker
  skipEndAllStream := found.skipEndAllStream.trans strode.skipEndAllStream
  struckEndMarker := found.struckEndMarker

theorem readMarkers_eq {bytes : List Byte} (here : cursor.At bytes)
    (unstruck : cursor.struckEndMarker = false)
    {next : NextThing × Bool × List Byte}
    (is : nextThing cursor.skipEndAllStream cursor.skipEndMarker bytes = next) :
    ∃ after, readMarkers bytes.length cursor =
        (next.1.ret, next.1.type, next.1.size, after) ∧
      Behind cursor after next := by
  induction bytes generalizing cursor with
  | nil =>
    subst is
    exact ⟨cursor, rfl, here, rfl, rfl, rfl, rfl, unstruck⟩
  | cons marker behind induction =>
    obtain ⟨short, -⟩ | ⟨first, -, read, strode⟩ := readOrg_cases 1 here
    · rw [List.length_cons] at short
      omega
    · have there : first.At behind := strode.at here (by simp)
      have value : fromNetstream ((marker :: behind).take 1) =
          marker.toNat := by
        simp [fromNetstream]
      have every := strode.skipEndAllStream
      have flag := strode.skipEndMarker
      have clear := strode.struckEndMarker.trans unstruck
      rw [value] at read
      rw [nextThing] at is
      rw [List.length_cons, readMarkers, read]
      dsimp only
      have flags : (first.skipEndMarker || first.skipEndAllStream) =
          (cursor.skipEndMarker || cursor.skipEndAllStream) := by
        rw [every, flag]
      rw [if_neg (by decide), flags]
      by_cases ends : marker = netStreamStructEndMark
      · rw [if_pos ends] at is
        rw [if_pos (by rw [ends])]
        by_cases skips : (cursor.skipEndMarker ||
            cursor.skipEndAllStream) = true
        · rw [if_pos skips] at is ⊢
          obtain ⟨after, found, reached⟩ :=
            induction there clear (by rw [every, flag]; exact is)
          exact ⟨after, found, reached.of_strode strode⟩
        · rw [if_neg skips] at is ⊢
          subst is
          exact ⟨_, rfl, ⟨there.left, there.inside⟩, strode.memory,
            strode.size, flag, every, rfl⟩
      · rw [if_neg (fun number => ends (UInt8.toNat_inj.mp number))]
        have onward (skip : Bool)
            (is : nextThing cursor.skipEndAllStream skip behind = next) :
            ∃ after, readMarkers behind.length
                { first with skipEndMarker := skip } =
              (next.1.ret, next.1.type, next.1.size, after) ∧
              Behind cursor after next := by
          obtain ⟨after, found, reached⟩ :=
            @induction { first with skipEndMarker := skip }
              ⟨there.left, there.inside⟩ clear (by rw [← is, ← every])
          refine ⟨after, found, ?_⟩
          exact
            { here := reached.here
              memory := reached.memory.trans strode.memory
              size := reached.size.trans strode.size
              skipEndMarker := reached.skipEndMarker
              skipEndAllStream := reached.skipEndAllStream.trans every
              struckEndMarker := reached.struckEndMarker }
        split_ifs at is ⊢ with skips enables
        · exact onward true is
        · exact onward false is
        · subst is
          exact ⟨first, rfl, there, strode.memory, strode.size, flag, every,
            clear⟩

theorem readTypeSize_eq (here : cursor.At bytes)
    (is : nextThing cursor.skipEndAllStream cursor.skipEndMarker bytes = next) :
    ∃ after, cursor.readTypeSize =
        (next.1.ret, next.1.type, next.1.size, after) ∧
      Behind cursor after next := by
  have length : cursor.size - cursor.pos = bytes.length := by
    have size := here.size
    omega
  obtain ⟨after, found, reached⟩ :=
    @readMarkers_eq { cursor with struckEndMarker := false } bytes
      ⟨here.left, here.inside⟩ rfl next is
  refine ⟨after, ?_, ?_⟩
  · rw [readTypeSize, length, found]
  · exact ⟨reached.here, reached.memory, reached.size, reached.skipEndMarker,
      reached.skipEndAllStream, reached.struckEndMarker⟩

end ReadCursor

end NdNet
