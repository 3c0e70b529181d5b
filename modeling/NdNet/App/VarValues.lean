import NdNet.App.VarOwnership

/-!
# Variants as values

What an object stands for is its content, the type and the number or the bytes.
An assignment and a copy go by the content unless it is a binary or the object
is assigned to itself; a comparison goes by the whole union.
-/

namespace NdNet

open List

def VarObject.binAt (heap : VarHeap) (address : UInt64) : List Byte :=
  if address = 0 then []
  else
    match heap address with
    | some (.bin data) => data
    | _ => []

def VarObject.content (heap : VarHeap) (this : VarObject) : NdVarType :=
  match this.kind with
  | .int => .int this.low.toInt32
  | .float => .float this.low
  | .string => .string ((textAt heap this.word).getD emptyText)
  | .int8 => .int8 this.low.toUInt8
  | .int16 => .int16 this.low.toUInt16
  | .int64 => .int64 this.word
  | .binary => .binary (binAt heap this.word)

def VarKind.zero : VarKind → NdVarType
  | int => .int 0
  | float => .float 0
  | string => .string VarObject.emptyText
  | int8 => .int8 0
  | int16 => .int16 0
  | int64 => .int64 0
  | binary => .binary []

def VarNumber.content : VarNumber → NdVarType
  | int value => .int value
  | float value => .float value
  | int8 value => .int8 value
  | int16 value => .int16 value
  | int64 value => .int64 value

variable {rest : List VarObject}

namespace VarObject

section Content

variable {host : VarHost} {heap after : VarHeap} {this result found r : VarObject}

theorem content_null (heap : VarHeap) (kind : VarKind) :
    content heap ⟨kind, 0⟩ = kind.zero := by
  cases kind <;> rfl

theorem content_ofNumber (heap : VarHeap) (found : VarObject)
    (number : VarNumber) : (found.ofNumber number).content heap =
      number.content := by
  cases number with
  | int value =>
    change NdVarType.int (low ⟨.int, _⟩).toInt32 = .int value
    rw [VarNumber.store, low_storeLow, Int32.toInt32_toUInt32]
  | float value =>
    change NdVarType.float (low ⟨.float, _⟩) = .float value
    rw [VarNumber.store, low_storeLow]
  | int8 value =>
    change NdVarType.int8 (low ⟨.int8, _⟩).toUInt8 = .int8 value
    rw [VarNumber.store, low_storeLow, UInt8.toUInt8_toUInt32]
  | int16 value =>
    change NdVarType.int16 (low ⟨.int16, _⟩).toUInt16 = .int16 value
    rw [VarNumber.store, low_storeLow, UInt16.toUInt16_toUInt32]
  | int64 value => rfl

theorem content_congr (same : ∀ address, r.owns = some address →
    after address = heap address) : r.content after = r.content heap := by
  unfold content
  cases kind : r.kind with
  | string =>
    unfold textAt
    by_cases null : r.word = 0
    · rw [if_pos null, if_pos null]
    · rw [if_neg null, if_neg null, same r.word (if_pos ⟨by rw [kind]; rfl, null⟩)]
  | binary =>
    unfold binAt
    by_cases null : r.word = 0
    · rw [if_pos null, if_pos null]
    · rw [if_neg null, if_neg null, same r.word (if_pos ⟨by rw [kind]; rfl, null⟩)]
  | _ => rfl

def HasMemory (host : VarHost) (heap : VarHeap) (this r : VarObject) : Prop :=
  ∀ text, r.content heap = .string text → text.val = [] ∨
    host.malloc (without heap this) (text.val.length + 1) ≠ 0

theorem content_without (kept : Kept heap (this :: rest)) (member : r ∈ rest) :
    r.content (without heap this) = r.content heap :=
  content_congr fun _ owned =>
    ((destroy_moves this.kind).turns.others kept member owned).2

theorem textAt_eq (holds : Holds heap r) (kind : r.kind = .string) :
    ∃ text, textAt heap r.word = some text ∧
      r.content heap = .string text ∧ (text.val = [] ↔ r.word = 0) := by
  unfold content
  rw [kind]
  by_cases null : r.word = 0
  · have nothing : textAt heap r.word = some emptyText := by
      rw [textAt, if_pos null]
    exact ⟨emptyText, nothing, by dsimp only; rw [nothing]; rfl,
      iff_of_true rfl null⟩
  · obtain ⟨block, there, fits⟩ :=
      holds r.word (if_pos ⟨by rw [kind]; rfl, null⟩)
    cases block with
    | bin data =>
      obtain ⟨other, -⟩ := fits
      rw [kind] at other
      cases other
    | text text =>
      have found : textAt heap r.word = some text := by
        rw [textAt, if_neg null, there]
      exact ⟨text, found, by dsimp only; rw [found]; rfl,
        iff_of_false fits.2 null⟩

theorem assign_content (kept : Kept heap (this :: rest)) (member : r ∈ rest) :
    (∃ after result, this.assign host heap (fun _ => r) =
        some (after, result) ∧ result.content after = r.content heap) ↔
      r.kind ≠ .binary ∧ HasMemory host heap this r := by
  have holds := kept.holds this mem_cons_self
  rw [assign_eq holds]
  dsimp only
  have number : ∀ {after : VarHeap} {number : VarNumber},
      r.kind ≠ .binary → r.kind ≠ .string →
      number.content = r.content heap →
      ((∃ end_ result, some (after, ofNumber ⟨this.kind, 0⟩ number) =
          some (end_, result) ∧ result.content end_ = r.content heap) ↔
        r.kind ≠ .binary ∧ HasMemory host heap this r) := by
    intro after number plain noText same
    refine iff_of_true ⟨_, _, rfl, (content_ofNumber ..).trans same⟩
      ⟨plain, fun text string => ?_⟩
    exfalso
    unfold content at string
    split at string <;> first | exact noText ‹_› | cases string
  cases kind : r.kind with
  | string =>
    have later : Kept (without heap this) (⟨this.kind, 0⟩ :: rest) :=
      (destroy_moves this.kind).turns.kept kept
    obtain ⟨text, found, stands, -⟩ :=
      textAt_eq (later.holds r (mem_cons_of_mem _ member)) kind
    rw [content_without kept member] at stands
    have start : Holds (without heap this) ⟨this.kind, 0⟩ := holds_null _
    have source : (fun heap => textAt heap r.word)
        (without (without heap this) ⟨this.kind, 0⟩) = some text := by
      rw [without_null]
      exact found
    have memory : (VarKind.string ≠ .binary ∧ HasMemory host heap this r) ↔
        (text.val = [] ∨
          host.malloc (without heap this) (text.val.length + 1) ≠ 0) := by
      constructor
      · exact fun good => good.2 text stands
      · intro good
        refine ⟨by decide, fun other same => ?_⟩
        rw [stands] at same
        cases same
        exact good
    have nothing : ∀ after, content after ⟨.string, 0⟩ =
        NdVarType.string text ↔ text.val = [] := by
      intro after
      rw [content_null, VarKind.zero, NdVarType.string.injEq, eq_comm,
        Subtype.ext_iff]
      rfl
    dsimp only
    rw [initText_eq start source, without_null, stands, memory]
    split
    · rename_i none_
      exact iff_of_true ⟨_, _, rfl, (nothing _).mpr none_⟩ (.inl none_)
    rename_i some_
    dsimp only
    split
    · rename_i refused
      refine iff_of_false ?_ (not_or.mpr ⟨some_, not_not_intro refused⟩)
      rintro ⟨after, result, made, same⟩
      cases made
      exact some_ ((nothing _).mp same)
    · rename_i given
      refine iff_of_true ⟨_, _, rfl, ?_⟩ (.inr given)
      unfold content textAt
      rw [if_neg given, Function.update_self]
      rfl
  | binary =>
    refine iff_of_false ?_ fun good => good.1 rfl
    rintro ⟨after, result, impossible, -⟩
    cases impossible
  | _ =>
    rw [kind] at number
    refine number (by decide) (by decide) ?_
    unfold content
    rw [kind]
    rfl

theorem assign_self (holds : Holds heap this) :
    this.assign host heap (fun current => current) =
      if this.kind = .binary then none
      else some (without heap this, ⟨this.kind, 0⟩) := by
  rw [assign_eq holds]
  cases kind : this.kind with
  | string =>
    have start : Holds (without heap this) ⟨.string, 0⟩ := holds_null _
    have source : (fun heap => textAt heap 0)
        (without (without heap this) ⟨.string, 0⟩) = some emptyText :=
      rfl
    rfl
  | _ => rfl

theorem assign_self_content (holds : Holds heap this) :
    (∃ after result, this.assign host heap (fun current => current) =
        some (after, result) ∧ result.content after = this.content heap) ↔
      this.kind ≠ .binary ∧ this.content heap = this.kind.zero := by
  rw [assign_self holds]
  split
  · rename_i binary
    refine iff_of_false ?_ fun good => good.1 binary
    rintro ⟨after, result, impossible, -⟩
    cases impossible
  · rename_i plain
    constructor
    · rintro ⟨after, result, made, same⟩
      cases made
      exact ⟨plain, same.symm⟩
    · rintro ⟨-, zero⟩
      exact ⟨_, _, rfl, (content_null ..).trans zero.symm⟩

end Content

def lt (left right : VarObject) : Bool := decide (left.word < right.word)

def gt (left right : VarObject) : Bool := decide (left.word > right.word)

def eq (left right : VarObject) : Bool := decide (left.word = right.word)

def ge (left right : VarObject) : Bool := decide (left.word ≥ right.word)

def le (left right : VarObject) : Bool := decide (left.word ≤ right.word)

def ne (left right : VarObject) : Bool := decide (left.word ≠ right.word)

/-- The operators say what the numbers say. -/
structure Ordered (left right : VarObject) (m n : Int) : Prop where
  lt : left.lt right = decide (m < n)
  gt : left.gt right = decide (m > n)
  eq : left.eq right = decide (m = n)
  ge : left.ge right = decide (m ≥ n)
  le : left.le right = decide (m ≤ n)
  ne : left.ne right = decide (m ≠ n)

theorem ordered_iff {left right : VarObject} {m n : Int} :
    Ordered left right m n ↔
      (left.word.toNat < right.word.toNat ↔ m < n) ∧
        (left.word.toNat = right.word.toNat ↔ m = n) := by
  constructor
  · intro ordered
    refine ⟨?_, ?_⟩
    · have same := ordered.lt
      unfold lt at same
      rw [decide_eq_decide, UInt64.lt_iff_toNat_lt] at same
      exact same
    · have same := ordered.eq
      unfold eq at same
      rw [decide_eq_decide, ← UInt64.toNat_inj] at same
      exact same
  · rintro ⟨less, same⟩
    refine ⟨?_, ?_, ?_, ?_, ?_, ?_⟩
    all_goals
      refine decide_eq_decide.mpr ?_
      simp only [gt_iff_lt, ge_iff_le, ne_eq, UInt64.lt_iff_toNat_lt,
        UInt64.le_iff_toNat_le, ← UInt64.toNat_inj]
      omega

/-- What lies in the union above `i_val`. -/
def leftOver (this : VarObject) : Nat :=
  this.word.toNat / 4294967296

end VarObject

def NdVarType.number : NdVarType → Option Int
  | int value => some value.toInt
  | int8 value => some value.toNat
  | int16 value => some value.toNat
  | int64 value => some value.toNat
  | _ => none

namespace VarObject

section Comparisons

variable {heap : VarHeap} {left right : VarObject} {m n : Int}

/-- The whole unions are in the order of the numbers: all of `i64_val` is the
number, or what lies above `i_val` is the same and so is the sign, or it is in
the order of the numbers too. -/
def InOrder (left right : VarObject) (m n : Int) : Prop :=
  left.kind = .int64 ∨
    left.leftOver = right.leftOver ∧ (left.kind = .int → (m < 0 ↔ n < 0)) ∨
    left.leftOver < right.leftOver ∧ m < n ∨
    right.leftOver < left.leftOver ∧ n < m

theorem word_eq (this : VarObject) :
    this.word.toNat = this.leftOver * 4294967296 + this.low.toNat := by
  unfold leftOver low
  rw [UInt32.toNat_ofNat']
  omega

theorem number_eq (ranged : left.Ranged)
    (number : (left.content heap).number = some m) :
    (left.kind = .int ∧ m = Int.bmod left.low.toNat 4294967296) ∨
      ((left.kind = .int8 ∨ left.kind = .int16) ∧ m = left.low.toNat) ∨
      (left.kind = .int64 ∧ m = left.word.toNat) := by
  unfold content at number
  cases kind : left.kind with
  | int =>
    rw [kind] at number
    obtain rfl := Option.some.inj number
    exact .inl ⟨rfl, BitVec.toInt_eq_toNat_bmod left.low.toBitVec⟩
  | int8 =>
    rw [kind] at number
    obtain rfl := Option.some.inj number
    refine .inr (.inl ⟨.inl rfl, ?_⟩)
    have small := ranged.1 kind
    rw [UInt32.toNat_toUInt8]
    omega
  | int16 =>
    rw [kind] at number
    obtain rfl := Option.some.inj number
    refine .inr (.inl ⟨.inr rfl, ?_⟩)
    have small := ranged.2 kind
    rw [UInt32.toNat_toUInt16]
    omega
  | int64 =>
    rw [kind] at number
    obtain rfl := Option.some.inj number
    exact .inr (.inr ⟨rfl, rfl⟩)
  | _ =>
    rw [kind] at number
    cases number

theorem ordered_iff_inOrder (same : left.kind = right.kind)
    (leftRanged : left.Ranged) (rightRanged : right.Ranged)
    (first : (left.content heap).number = some m)
    (second : (right.content heap).number = some n) :
    Ordered left right m n ↔ InOrder left right m n := by
  have leftWord := left.word_eq
  have rightWord := right.word_eq
  have leftLow := left.low.toNat_lt
  have rightLow := right.low.toNat_lt
  rw [ordered_iff]
  unfold InOrder
  rcases number_eq leftRanged first with
    ⟨kind, number⟩ | ⟨kind, rfl⟩ | ⟨kind, rfl⟩
  · have other : n = Int.bmod right.low.toNat 4294967296 := by
      rcases number_eq rightRanged second with
        ⟨-, number⟩ | ⟨other | other, -⟩ | ⟨other, -⟩
      · exact number
      all_goals
        rw [← same, kind] at other
        cases other
    rw [Int.bmod_def] at number other
    simp only [kind, reduceCtorEq, true_implies, false_or]
    split at number <;> split at other <;> omega
  · have other : n = right.low.toNat := by
      rcases number_eq rightRanged second with
        ⟨other, -⟩ | ⟨-, number⟩ | ⟨other, -⟩
      · rw [← same] at other
        rcases kind with kind | kind <;> rw [kind] at other <;> cases other
      · exact number
      · rw [← same] at other
        rcases kind with kind | kind <;> rw [kind] at other <;> cases other
    have small : ¬ left.kind = .int64 ∧ ¬ left.kind = .int := by
      rcases kind with kind | kind <;> rw [kind] <;> decide
    simp only [small.1, small.2, false_implies, and_true, false_or]
    omega
  · have other : n = right.word.toNat := by
      rcases number_eq rightRanged second with
        ⟨other, -⟩ | ⟨other | other, -⟩ | ⟨-, number⟩
      · rw [← same, kind] at other
        cases other
      · rw [← same, kind] at other
        cases other
      · rw [← same, kind] at other
        cases other
      · exact number
    refine iff_of_true ?_ (.inl kind)
    omega

/-- The comparison operators go by the content, for integers of one kind and for
texts. -/
def Compares (heap : VarHeap) (left right : VarObject) : Prop :=
  (left.kind = right.kind → ∀ m n, (left.content heap).number = some m →
    (right.content heap).number = some n → Ordered left right m n) ∧
  ∀ s t, left.content heap = .string s → right.content heap = .string t →
    left.eq right = decide (s = t) ∧ left.ne right = decide (s ≠ t)

/-- Integers whose unions are in their order, and texts of one object, or
different, or empty. -/
def Comparable (heap : VarHeap) (same : Prop) (left right : VarObject) : Prop :=
  (left.kind = right.kind → ∀ m n, (left.content heap).number = some m →
    (right.content heap).number = some n → InOrder left right m n) ∧
  ∀ s t, left.content heap = .string s → right.content heap = .string t →
    same ∨ s ≠ t ∨ s.val = []

theorem string_word_eq (kept : Kept heap (left :: rest)) (member : right ∈ rest)
    {s t : CText} (first : left.content heap = .string s)
    (second : right.content heap = .string t) :
    left.word = right.word ↔ s.val = [] ∧ t.val = [] := by
  have string : ∀ {this : VarObject} {text : CText},
      this.content heap = .string text → this.kind = .string := by
    intro this text stands
    unfold content at stands
    split at stands
    case h_3 => assumption
    all_goals cases stands
  have null : ∀ {this : VarObject} {text : CText}, Holds heap this →
      this.content heap = .string text → (text.val = [] ↔ this.word = 0) := by
    intro this text holds stands
    obtain ⟨found, -, same, null⟩ := textAt_eq holds (string stands)
    cases same.symm.trans stands
    exact null
  rw [null (kept.holds left mem_cons_self) first,
    null (kept.holds right (mem_cons_of_mem _ member)) second]
  constructor
  · intro same
    by_contra some_
    have there : right.word ≠ 0 := by
      intro zero
      exact some_ ⟨same.trans zero, zero⟩
    have pointer : ∀ {this : VarObject} {text : CText},
        this.content heap = .string text → this.kind.pointer = true := by
      intro this text stands
      rw [string stands]
      rfl
    refine kept.ne member (if_pos ⟨pointer second, there⟩) ?_
    rw [← same] at there ⊢
    exact if_pos ⟨pointer first, there⟩
  · rintro ⟨one, two⟩
    exact one.trans two.symm

theorem compares_iff {same : Prop}
    (apart : same ∧ left = right ∨
      ¬ same ∧ ∃ rest, Kept heap (left :: rest) ∧ right ∈ rest)
    (leftRanged : left.Ranged) (rightRanged : right.Ranged) :
    Compares heap left right ↔ Comparable heap same left right := by
  refine and_congr ?_ ?_
  · refine forall_congr' fun kinds => forall_congr' fun m =>
      forall_congr' fun n => forall_congr' fun first =>
        forall_congr' fun second => ?_
    exact ordered_iff_inOrder kinds leftRanged rightRanged first second
  · refine forall_congr' fun s => forall_congr' fun t =>
      forall_congr' fun first => forall_congr' fun second => ?_
    rw [eq, ne, decide_eq_decide, decide_eq_decide, not_iff_not, and_self]
    rcases apart with ⟨one, rfl⟩ | ⟨two, rest, kept, member⟩
    · cases first.symm.trans second
      exact iff_of_true (iff_of_true rfl rfl) (.inl one)
    rw [string_word_eq kept member first second, Subtype.ext_iff]
    constructor
    · intro same
      by_cases equal : s.val = t.val
      · exact .inr (.inr (same.mpr equal).1)
      · exact .inr (.inl fun both => equal (congrArg _ both))
    · rintro (one | different | empty)
      · exact absurd one two
      · have unequal : ¬ s.val = t.val := fun both =>
          different (Subtype.ext both)
        refine iff_of_false (fun none_ => ?_) unequal
        exact unequal (none_.1.trans none_.2.symm)
      · rw [empty]
        exact ⟨fun none_ => none_.2.symm, fun none_ => ⟨rfl, none_.symm⟩⟩

end Comparisons

end VarObject

namespace VarWorld

open VarObject

/-- The states that are reached by constructing, assigning and computing. -/
inductive Reached (host : VarHost) : VarWorld → Prop where
  | start : Reached host start
  | step {world next : VarWorld} {event : VarEvent} :
      Reached host world → event.Clean →
      world.step host event = some next → Reached host next

theorem Reached.sound {host : VarHost} {world : VarWorld}
    (reached : Reached host world) : world.Sound := by
  induction reached with
  | start => exact start_sound
  | step _ clean done induction => exact induction.step clean done

def content (world : VarWorld) (this : Nat) : Option NdVarType :=
  (world.objects[this]?).map (VarObject.content world.heap)

/-- `a = b` makes the content of `a` that of `b` and leaves `b`. -/
def AssignsValue (host : VarHost) (world : VarWorld) (this r : Nat) : Prop :=
  ∃ next, world.step host (.assign this r) = some next ∧
    next.content this = world.content r ∧ next.content r = world.content r

/-- A copy has the content of what is copied, which is left as it is. -/
def CopiesValue (host : VarHost) (world : VarWorld) (r : Nat) : Prop :=
  ∀ found, ∃ next, world.step host (.copy r found) = some next ∧
    next.content world.objects.length = world.content r ∧
      next.content r = world.content r

section Values

variable {host : VarHost} {world : VarWorld} {this r : Nat}
  {left right : VarObject}

theorem content_eq (there : world.objects[r]? = some right) :
    world.content r = some (right.content world.heap) := by
  rw [content, there]
  rfl

theorem Sound.apart (sound : world.Sound)
    (here : world.objects[this]? = some left)
    (there : world.objects[r]? = some right) (two : r ≠ this) :
    Kept world.heap (left :: world.objects.eraseIdx this) ∧
      right ∈ world.objects.eraseIdx this := by
  refine ⟨sound.kept.perm (objects_perm here), ?_⟩
  exact mem_eraseIdx_iff_getElem?.mpr ⟨r, two, there⟩

theorem assigns_iff (sound : world.Sound)
    (here : world.objects[this]? = some left)
    (there : world.objects[r]? = some right) :
    AssignsValue host world this r ↔ right.kind ≠ .binary ∧
      if r = this then right.content world.heap = right.kind.zero
      else HasMemory host world.heap left right := by
  have bound := (List.getElem?_eq_some_iff.mp here).1
  have stepped : ∀ next, world.step host (.assign this r) = some next ↔
      ∃ after result, left.assign host world.heap
        (fun current => if r = this then current else right) =
          some (after, result) ∧
        next = ⟨after, world.objects.set this result⟩ := by
    intro next
    change (world.objects[r]? >>= _) = _ ↔ _
    rw [there]
    change world.change this _ = _ ↔ _
    unfold change
    rw [here]
    change (left.assign host world.heap _ >>= _) = _ ↔ _
    rw [Option.bind_eq_bind, Option.bind_eq_some_iff]
    constructor
    · rintro ⟨⟨after, result⟩, made, same⟩
      exact ⟨after, result, made, (Option.some.inj same).symm⟩
    · rintro ⟨after, result, made, rfl⟩
      exact ⟨⟨after, result⟩, made, rfl⟩
  have target : ∀ after result,
      content ⟨after, world.objects.set this result⟩ this =
        some (result.content after) := by
    intro after result
    exact content_eq (by
      change (world.objects.set this result)[this]? = _
      rw [getElem?_set_self bound])
  unfold AssignsValue
  rw [content_eq there]
  by_cases one : r = this
  · rw [if_pos one]
    subst one
    obtain rfl := Option.some.inj (here.symm.trans there)
    have holds := sound.kept.holds left (mem_of_getElem? here)
    rw [← assign_self_content holds]
    constructor
    · rintro ⟨next, done, same, -⟩
      obtain ⟨after, result, made, rfl⟩ := (stepped next).mp done
      rw [target] at same
      simp only [if_true] at made
      exact ⟨after, result, made, Option.some.inj same⟩
    · rintro ⟨after, result, made, same⟩
      have found := target after result
      rw [same] at found
      refine ⟨_, (stepped _).mpr ⟨after, result, ?_, rfl⟩, found, found⟩
      simp only [if_true]
      exact made
  · rw [if_neg one]
    obtain ⟨kept, member⟩ := sound.apart here there one
    rw [← assign_content kept member]
    constructor
    · rintro ⟨next, done, same, -⟩
      obtain ⟨after, result, made, rfl⟩ := (stepped next).mp done
      rw [target] at same
      simp only [if_neg one] at made
      exact ⟨after, result, made, Option.some.inj same⟩
    · rintro ⟨after, result, made, same⟩
      have found := target after result
      rw [same] at found
      refine ⟨_, (stepped _).mpr ⟨after, result, ?_, rfl⟩, found, ?_⟩
      · simp only [if_neg one]
        exact made
      · have moves := assign_moves (kept.holds left mem_cons_self) made
        have stays : right.content after = right.content world.heap :=
          content_congr fun _ owned =>
            (moves.turns.others kept member owned).2
        rw [← stays]
        exact content_eq (by
          change (world.objects.set this result)[r]? = _
          rw [getElem?_set_ne (Ne.symm one), there])

theorem copies_iff (sound : world.Sound)
    (there : world.objects[r]? = some right) :
    CopiesValue host world r ↔ right.kind ≠ .binary ∧
      HasMemory host world.heap ⟨.int, 0⟩ right := by
  have member := mem_of_getElem? there
  have bound := (List.getElem?_eq_some_iff.mp there).1
  have kept : ∀ found : VarObject, Kept world.heap
      (found.ofNumber (.int 0) :: world.objects) :=
    fun found => sound.kept.cons_free (owns_number ..)
  have memory : ∀ found : VarObject,
      HasMemory host world.heap (found.ofNumber (.int 0)) right ↔
        HasMemory host world.heap ⟨.int, 0⟩ right := by
    intro found
    have nothing : (found.ofNumber (.int 0)).owns = none := owns_number ..
    unfold HasMemory
    rw [without_free nothing, without_null]
  have stepped : ∀ found next, world.step host (.copy r found) = some next ↔
      ∃ after result, (found.ofNumber (.int 0)).assign host world.heap
        (fun _ => right) = some (after, result) ∧
        next = ⟨after, world.objects ++ [result]⟩ := by
    intro found next
    change (world.objects[r]? >>= _) = _ ↔ _
    rw [there]
    change (copy host world.heap found right).map _ = _ ↔ _
    rw [Option.map_eq_some_iff]
    constructor
    · rintro ⟨⟨after, result⟩, made, same⟩
      exact ⟨after, result, made, same.symm⟩
    · rintro ⟨after, result, made, rfl⟩
      exact ⟨⟨after, result⟩, made, rfl⟩
  have target : ∀ after result,
      content ⟨after, world.objects ++ [result]⟩ world.objects.length =
        some (result.content after) :=
    fun after result => content_eq getElem?_concat_length
  unfold CopiesValue
  rw [content_eq there]
  constructor
  · intro all
    obtain ⟨next, done, same, -⟩ := all ⟨.int, 0⟩
    obtain ⟨after, result, made, rfl⟩ := (stepped _ next).mp done
    rw [target] at same
    rw [← memory ⟨.int, 0⟩, ← assign_content (kept _) member]
    exact ⟨after, result, made, Option.some.inj same⟩
  · intro good found
    rw [← memory found, ← assign_content (kept _) member] at good
    obtain ⟨after, result, made, same⟩ := good
    have behind := target after result
    rw [same] at behind
    refine ⟨_, (stepped _ _).mpr ⟨after, result, made, rfl⟩, behind, ?_⟩
    have moves := assign_moves
      ((kept found).holds _ mem_cons_self) made
    have stays : right.content after = right.content world.heap :=
      content_congr fun _ owned =>
        (moves.turns.others (kept found) member owned).2
    rw [← stays]
    exact content_eq (by
      change (world.objects ++ [result])[r]? = _
      rw [getElem?_append_left bound, there])

end Values

/-- In every state that is reached, an assignment, a copy and the comparisons of
two objects go by their contents exactly if what is read is no binary, an object
assigned to itself is zero and there is memory for a text; and if the unions are
in the order of the integers, and equal texts are empty or of one object. -/
theorem values_iff (host : VarHost) {world : VarWorld}
    (reached : Reached host world) {this r : Nat} {left right : VarObject}
    (here : world.objects[this]? = some left)
    (there : world.objects[r]? = some right) :
    (AssignsValue host world this r ↔ right.kind ≠ .binary ∧
      if r = this then right.content world.heap = right.kind.zero
      else HasMemory host world.heap left right) ∧
    (CopiesValue host world r ↔ right.kind ≠ .binary ∧
      HasMemory host world.heap ⟨.int, 0⟩ right) ∧
    (Compares world.heap left right ↔
      Comparable world.heap (r = this) left right) := by
  have sound := reached.sound
  refine ⟨assigns_iff sound here there, copies_iff sound there,
    compares_iff ?_ (sound.ranged left (mem_of_getElem? here))
      (sound.ranged right (mem_of_getElem? there))⟩
  by_cases one : r = this
  · subst one
    exact .inl ⟨rfl, Option.some.inj (here.symm.trans there)⟩
  · exact .inr ⟨one, _, sound.apart here there one⟩

def smallHost : VarHost where
  malloc heap _ :=
    if (heap 4096).isNone then 4096
    else if (heap 8192).isNone then 8192 else 0
  free heap size := by
    split
    · rename_i free
      exact .inr (Option.isNone_iff_eq_none.mp free)
    · split
      · rename_i free
        exact .inr (Option.isNone_iff_eq_none.mp free)
      · exact .inl rfl
  math _ left _ := left
  divide left _ := left
  isZero value := decide (value = 0)
  toInt value := value.toInt32
  toInt8 value := value.toUInt8
  toInt16 value := value.toUInt16
  toInt64 value := value.toUInt64
  ofInt64 value := value.toUInt32
  atoi _ := 0
  atoll _ := 0
  atof _ := 0

/-- An `int` and a binary of one byte. -/
def binaryWorld : VarWorld where
  heap := Function.update (fun _ => none) 4096 (some (.bin [7]))
  objects := [⟨.int, 5⟩, ⟨.binary, 4096⟩]

theorem reached_binaryWorld : Reached smallHost binaryWorld := by
  have one : Reached smallHost ⟨fun _ => none, [⟨.int, 5⟩]⟩ :=
    @Reached.step smallHost _ _ (.number (.int 5) ⟨.int, 0⟩) .start trivial rfl
  exact @Reached.step smallHost _ _ (.bin [7] ⟨.int, 0⟩) one rfl rfl

/-- The binary is assigned to the `int`. -/
theorem binary_not_assigned : Reached smallHost binaryWorld ∧
    ¬ AssignsValue smallHost binaryWorld 0 1 := by
  refine ⟨reached_binaryWorld, ?_⟩
  rintro ⟨next, done, -⟩
  cases done

/-- The `int` is assigned to the binary. -/
theorem values_iff_binaryWorld :
    (AssignsValue smallHost binaryWorld 1 0 ↔ VarKind.int ≠ .binary ∧
      if 0 = 1 then (VarObject.mk .int 5).content binaryWorld.heap =
        VarKind.int.zero
      else HasMemory smallHost binaryWorld.heap ⟨.binary, 4096⟩ ⟨.int, 5⟩) ∧
    (CopiesValue smallHost binaryWorld 0 ↔ VarKind.int ≠ .binary ∧
      HasMemory smallHost binaryWorld.heap ⟨.int, 0⟩ ⟨.int, 5⟩) ∧
    (Compares binaryWorld.heap ⟨.binary, 4096⟩ ⟨.int, 5⟩ ↔
      Comparable binaryWorld.heap (0 = 1) ⟨.binary, 4096⟩ ⟨.int, 5⟩) :=
  @values_iff smallHost binaryWorld reached_binaryWorld 1 0 ⟨.binary, 4096⟩
    ⟨.int, 5⟩ rfl rfl

end VarWorld

end NdNet
