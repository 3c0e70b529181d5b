import Mathlib.Data.List.Perm.Basic
import NdNet.App.VarObject

/-!
# The blocks of the variants

An object owns the block its union points at, and no two objects own the same.
Every operation keeps to this as long as no constructor begins with `destroy`
where a pointer has been left behind.
-/

namespace NdNet

variable (kind : VarKind) {source : VarHeap → Option CText}

namespace VarObject

def owns (this : VarObject) : Option UInt64 :=
  if this.kind.pointer ∧ this.word ≠ 0 then some this.word else none

/-- A string owns a text and a binary its bytes, and neither is empty. -/
def Fits (this : VarObject) : VarBlock → Prop
  | .text text => this.kind = .string ∧ text.val ≠ []
  | .bin data => this.kind = .binary ∧ data ≠ []

/-- The small integers have no bits that are not theirs in `i_val`. -/
def Ranged (this : VarObject) : Prop :=
  (this.kind = .int8 → this.low.toNat < 256) ∧
    (this.kind = .int16 → this.low.toNat < 65536)

abbrev Holds := Owners.Holds owns Fits

abbrev Kept := Owners.Kept owns Fits

structure Moves (heap : VarHeap) (this : VarObject) (after : VarHeap)
    (result : VarObject) : Prop where
  turns : Owners.Turns owns Fits heap this after result
  ranged : result.Ranged

section Operations

variable {host : VarHost} {heap after last : VarHeap}
  {this result final found r : VarObject}

theorem Moves.trans (first : Moves heap this after result)
    (second : Moves after result last final) : Moves heap this last final :=
  ⟨first.turns.trans second.turns, second.ranged⟩

theorem owns_null : owns ⟨kind, 0⟩ = none :=
  if_neg fun pointer => pointer.2 rfl

theorem owns_number (number : VarNumber) (word : UInt64) :
    owns ⟨number.kind, word⟩ = none :=
  if_neg fun pointer => by
    cases number <;> exact absurd pointer.1 Bool.false_ne_true

theorem ranged_null : Ranged ⟨kind, 0⟩ := by
  constructor
  · exact fun _ => (by decide : (UInt32.ofNat (0 : UInt64).toNat).toNat < 256)
  · exact fun _ =>
      (by decide : (UInt32.ofNat (0 : UInt64).toNat).toNat < 65536)

theorem toNat_storeLow (word : UInt64) (low : UInt32) :
    (VarNumber.storeLow word low).toNat =
      word.toNat / 4294967296 * 4294967296 + low.toNat := by
  have wide := word.toNat_lt
  have narrow := low.toNat_lt
  refine UInt64.toNat_ofNat_of_lt' ?_
  change _ < 18446744073709551616
  omega

theorem low_storeLow (word : UInt64) (value : UInt32) :
    low ⟨kind, VarNumber.storeLow word value⟩ = value := by
  have narrow := value.toNat_lt
  refine UInt32.toNat_inj.mp ?_
  unfold low
  rw [toNat_storeLow, UInt32.toNat_ofNat']
  omega

theorem ranged_number (number : VarNumber) (word : UInt64) :
    Ranged ⟨number.kind, number.store word⟩ := by
  cases number with
  | int8 value =>
    refine ⟨fun _ => ?_, nofun⟩
    have narrow := value.toNat_lt
    have same : low ⟨.int8, VarNumber.storeLow word value.toUInt32⟩ =
        value.toUInt32 := low_storeLow ..
    change (low ⟨.int8, VarNumber.storeLow word value.toUInt32⟩).toNat < 256
    rw [same, UInt8.toNat_toUInt32]
    exact narrow
  | int16 value =>
    refine ⟨nofun, fun _ => ?_⟩
    have narrow := value.toNat_lt
    have same : low ⟨.int16, VarNumber.storeLow word value.toUInt32⟩ =
        value.toUInt32 := low_storeLow ..
    change (low ⟨.int16, VarNumber.storeLow word value.toUInt32⟩).toNat < 65536
    rw [same, UInt16.toNat_toUInt32]
    exact narrow
  | _ => exact ⟨nofun, nofun⟩

def without (heap : VarHeap) (this : VarObject) : VarHeap :=
  if this.kind.pointer ∧ this.word ≠ 0 then
    Function.update heap this.word none
  else heap

theorem destroy_eq (holds : Holds heap this) :
    this.destroy heap = some (without heap this, { this with word := 0 }) := by
  unfold destroy without
  split
  · rename_i pointer
    obtain ⟨block, there, -⟩ := holds this.word (if_pos pointer)
    rw [freeAt, there]
    rfl
  · rfl

theorem destroy_moves :
    Moves heap this (without heap this) ⟨kind, 0⟩ := by
  refine ⟨?_, ranged_null kind⟩
  unfold without
  split
  · rename_i pointer
    exact Owners.Turns.release (if_pos pointer) (owns_null kind)
  · rename_i number
    exact Owners.Turns.idle (if_neg number) (owns_null kind)

theorem Moves.number (nothing : this.owns = none) (number : VarNumber)
    (word : UInt64) :
    Moves heap this heap ⟨number.kind, number.store word⟩ :=
  ⟨Owners.Turns.idle nothing (owns_number ..), ranged_number ..⟩

theorem Moves.malloc (nothing : this.owns = none) {size : Nat} {kind : VarKind}
    (pointer : kind.pointer = true) (given : host.malloc heap size ≠ 0)
    {block : VarBlock} (fits : Fits ⟨kind, host.malloc heap size⟩ block) :
    Moves heap this
      (Function.update heap (host.malloc heap size) (some block))
      ⟨kind, host.malloc heap size⟩ := by
  refine ⟨Owners.Turns.take nothing (if_pos ⟨pointer, given⟩)
    ((host.free heap size).resolve_left given) fits, ?_⟩
  refine ⟨fun same => ?_, fun same => ?_⟩
  all_goals
    change kind = _ at same
    rw [same] at pointer
    cases pointer

theorem initText_eq (holds : Holds heap this) {text : CText}
    (found : source (without heap this) = some text) :
    this.initText host heap source =
      if text.val = [] then some (without heap this, ⟨.string, 0⟩)
      else
        let address := host.malloc (without heap this) (text.val.length + 1)
        if address = 0 then some (without heap this, ⟨.string, 0⟩)
        else some
          (Function.update (without heap this) address (some (.text text)),
            ⟨.string, address⟩) := by
  unfold initText
  rw [destroy_eq holds]
  change (source (without heap this) >>= _) = _
  rw [found]
  rfl

theorem initText_moves (holds : Holds heap this)
    (made : this.initText host heap source = some (after, result)) :
    Moves heap this after result := by
  cases found : source (without heap this) with
  | none =>
    unfold initText at made
    rw [destroy_eq holds] at made
    change (source (without heap this) >>= _) = _ at made
    rw [found] at made
    cases made
  | some text =>
    rw [initText_eq holds found] at made
    have cleared : Moves heap this (without heap this) ⟨.string, 0⟩ :=
      destroy_moves .string
    dsimp only at made
    split at made
    · cases made
      exact cleared
    rename_i some_
    split at made
    · cases made
      exact cleared
    · rename_i given
      cases made
      exact cleared.trans
        (.malloc (owns_null .string) rfl given ⟨rfl, some_⟩)

theorem initBin_moves (holds : Holds heap this) {size : Nat}
    {source : VarHeap → Option (List Byte)}
    (full : ∀ data, source (without heap this) = some data → data.length = size)
    (made : this.initBin host heap size source = some (after, result)) :
    Moves heap this after result := by
  have cleared : Moves heap this (without heap this) ⟨.binary, 0⟩ :=
    destroy_moves .binary
  unfold initBin at made
  rw [destroy_eq holds] at made
  change (if size = 0 then _ else _) = _ at made
  split at made
  · cases made
    exact cleared
  rename_i some_
  split at made
  · cases made
    exact cleared
  rename_i given
  cases found : source (without heap this) with
  | none =>
    rw [found] at made
    cases made
  | some data =>
    rw [found] at made
    cases made
    refine cleared.trans
      (.malloc (owns_null .binary) rfl given ⟨rfl, ?_⟩)
    rintro rfl
    exact some_ (full [] found).symm

theorem setNumber_eq (holds : Holds heap this) (number : VarNumber) :
    this.setNumber heap number =
      some (without heap this, ofNumber ⟨this.kind, 0⟩ number) := by
  unfold setNumber
  rw [destroy_eq holds]
  rfl

theorem setNumber_moves (number : VarNumber) :
    Moves heap this (without heap this) (ofNumber ⟨this.kind, 0⟩ number) :=
  (destroy_moves .int).trans (.number (owns_null .int) number 0)

theorem initType_moves (holds : Holds heap this) {kind : VarKind}
    (made : this.initType heap kind = some (after, result)) :
    Moves heap this after result := by
  unfold initType at made
  rw [destroy_eq holds] at made
  cases made
  exact destroy_moves kind

theorem without_free (nothing : this.owns = none) : without heap this = heap := by
  refine if_neg fun pointer => ?_
  rw [owns, if_pos pointer] at nothing
  cases nothing

theorem without_null : without heap ⟨kind, 0⟩ = heap :=
  without_free (owns_null kind)

theorem holds_null : Holds heap ⟨kind, 0⟩ := by
  intro address owned
  rw [owns_null] at owned
  cases owned

/-- The assignment of what `*this` is not destroyed for: a null pointer is left
to be read where a binary is assigned. -/
theorem assign_eq (holds : Holds heap this) (source : VarObject → VarObject) :
    this.assign host heap source =
      let cleared : VarObject := { this with word := 0 }
      let right := source cleared
      match right.kind with
      | .int => some (without heap this,
          cleared.ofNumber (.int right.low.toInt32))
      | .float => some (without heap this, cleared.ofNumber (.float right.low))
      | .string =>
        cleared.initText host (without heap this) fun heap =>
          textAt heap right.word
      | .int8 => some (without heap this,
          cleared.ofNumber (.int8 right.low.toInt32.toUInt32.toUInt8))
      | .int16 => some (without heap this,
          cleared.ofNumber (.int16 right.low.toInt32.toUInt32.toUInt16))
      | .int64 => some (without heap this, cleared.ofNumber (.int64 right.word))
      | .binary => none := by
  unfold assign
  rw [destroy_eq holds]
  change (match (source { this with word := 0 }).kind with
    | .int => _ | .float => _ | .string => _ | .int8 => _ | .int16 => _
    | .int64 => _ | .binary => _) = _
  dsimp only
  have number : ∀ number : VarNumber,
      setNumber (without heap this) ⟨this.kind, 0⟩ number =
        some (without heap this, ofNumber ⟨this.kind, 0⟩ number) := by
    intro number
    rw [setNumber_eq (holds_null _), without_null]
  cases kind : (source ⟨this.kind, 0⟩).kind with
  | int | float => exact number _
  | string => rfl
  | int8 | int16 =>
    rw [getInt, kind]
    exact number _
  | int64 =>
    rw [getInt64, kind]
    exact number _
  | binary => rfl

theorem assign_moves (holds : Holds heap this) {source : VarObject → VarObject}
    (made : this.assign host heap source = some (after, result)) :
    Moves heap this after result := by
  have cleared : Moves heap this (without heap this) ⟨this.kind, 0⟩ :=
    destroy_moves this.kind
  rw [assign_eq holds] at made
  dsimp only at made
  split at made
  case h_3 =>
    exact cleared.trans (initText_moves (holds_null _) made)
  case h_7 => cases made
  all_goals
    cases made
    exact setNumber_moves _

theorem copy_moves (made : copy host heap found r = some (after, result)) :
    Moves heap ⟨.int, 0⟩ after result := by
  have nothing : (found.ofNumber (.int 0)).owns = none := owns_number ..
  have holds : Holds heap (found.ofNumber (.int 0)) := by
    intro address owned
    cases owned
  have start : Moves heap ⟨.int, 0⟩ heap (found.ofNumber (.int 0)) :=
    .number (owns_null .int) (.int 0) found.word
  exact start.trans (assign_moves holds made)

theorem ofNumber_moves (found : VarObject) (number : VarNumber) :
    Moves heap ⟨.int, 0⟩ heap (found.ofNumber number) :=
  .number (owns_null .int) number found.word

theorem math_moves {op : VarMath}
    (made : this.math host op heap r found = some (after, result)) :
    Moves heap ⟨.int, 0⟩ after result := by
  unfold math at made
  split at made
  case h_6 => exact copy_moves made
  case h_7 => exact copy_moves made
  all_goals
    simp only [Option.bind_eq_bind, Option.bind_eq_some_iff,
      Option.pure_def, Option.some.injEq, Prod.mk.injEq] at made
    obtain ⟨left, -, right, -, rfl, rfl⟩ := made
    exact ofNumber_moves ..

theorem divide_moves
    (made : this.divide host heap r found = some (after, result)) :
    Moves heap ⟨.int, 0⟩ after result := by
  unfold divide at made
  simp only [Option.bind_eq_bind, Option.bind_eq_some_iff] at made
  obtain ⟨f1, -, f2, -, made⟩ := made
  split at made
  case h_6 => exact copy_moves made
  case h_7 => exact copy_moves made
  all_goals
    cases made
    exact ofNumber_moves ..

theorem Moves.of_free {start : VarObject} (nothing : this.owns = none)
    (free : start.owns = none) (moves : Moves heap this after result) :
    Moves heap start after result :=
  ⟨(Owners.Turns.idle free nothing).trans moves.turns, moves.ranged⟩

theorem holds_free (nothing : this.owns = none) : Holds heap this := by
  intro address owned
  rw [nothing] at owned
  cases owned

theorem addText_moves {text : CText} (clean : found.owns = none)
    (made : this.addText host heap text found = some (after, result)) :
    Moves heap ⟨.int, 0⟩ after result := by
  have constructed : ∀ {source : VarHeap → Option CText},
      found.initText host heap source = some (after, result) →
        Moves heap ⟨.int, 0⟩ after result :=
    fun made => .of_free clean (owns_null .int)
      (initText_moves (holds_free clean) made)
  unfold addText at made
  split at made
  · simp only [Option.bind_eq_bind, Option.bind_eq_some_iff] at made
    obtain ⟨own, -, made⟩ := made
    split at made
    · exact constructed made
    · rename_i some_
      split at made
      · exact constructed made
      · rename_i given
        cases made
        exact .malloc (owns_null .int) rfl given ⟨rfl, some_⟩
  · exact constructed made

end Operations

end VarObject

namespace VarOperation

open VarObject

def Clean {ρ : Type} (found : VarObject) : VarOperation ρ → Prop
  | addText _ => found.owns = none
  | _ => True

variable {host : VarHost} {heap after : VarHeap}
  {this result found first second : VarObject}
  {operation : VarOperation VarObject} {rest : List VarObject}

theorem value_moves (clean : operation.Clean found)
    (made : operation.value host heap this found = some (after, result)) :
    Moves heap ⟨.int, 0⟩ after result := by
  cases operation with
  | math op right => exact math_moves made
  | divide right => exact divide_moves made
  | addText text => exact addText_moves clean made

theorem set_kept (kept : Kept heap (this :: rest))
    (clean : operation.Clean second)
    (made : operation.set host heap this first second = some (after, result)) :
    Kept after (result :: rest) ∧ result.Ranged := by
  unfold set at made
  simp only [Option.bind_eq_bind, Option.bind_eq_some_iff] at made
  obtain ⟨⟨heap1, val⟩, copied, ⟨heap2, sum⟩, valued, ⟨heap3, assigned⟩,
    set, ⟨heap4, sumGone⟩, sumDestroyed, ⟨heap5, valGone⟩, valDestroyed,
    ended⟩ := made
  obtain ⟨rfl, rfl⟩ := Prod.mk.inj (Option.some.inj ended)
  have withVal : Kept heap1 (val :: this :: rest) :=
    (copy_moves copied).turns.kept (kept.cons_free (owns_null .int))
  have withSum : Kept heap2 (sum :: val :: this :: rest) :=
    (value_moves clean valued).turns.kept
      (withVal.cons_free (owns_null .int))
  have thisFirst : Kept heap2 (this :: sum :: val :: rest) :=
    withSum.perm (((List.Perm.swap ..).cons sum).trans (List.Perm.swap ..))
  have moves := assign_moves (thisFirst.holds this List.mem_cons_self) set
  have done : Kept heap3 (assigned :: sum :: val :: rest) :=
    moves.turns.kept thisFirst
  have destroyed : ∀ {heap after : VarHeap} {gone object : VarObject}
      {others : List VarObject}, Kept heap (object :: others) →
      object.destroy heap = some (after, gone) → Kept after others := by
    intro heap after gone object others kept destroyed
    rw [destroy_eq (kept.holds object List.mem_cons_self)] at destroyed
    obtain ⟨rfl, rfl⟩ := Prod.mk.inj (Option.some.inj destroyed)
    exact ((destroy_moves object.kind).turns.kept kept).tail
  have sumFirst : Kept heap3 (sum :: val :: assigned :: rest) :=
    done.perm ((List.Perm.swap ..).trans ((List.Perm.swap ..).cons sum))
  exact ⟨destroyed (destroyed sumFirst sumDestroyed) valDestroyed, moves.ranged⟩

end VarOperation

/-- No constructor that begins with `destroy` finds a pointer. -/
def VarEvent.Clean : VarEvent → Prop
  | text _ found => found.owns = none
  | bin _ found => found.owns = none
  | type _ found => found.owns = none
  | operation _ what found => what.Clean found
  | operationSet _ what _ second => what.Clean second
  | _ => True

namespace VarWorld

open VarObject

/-- Every object owns its block, alone, and is in its range. -/
structure Sound (world : VarWorld) : Prop where
  kept : Kept world.heap world.objects
  ranged : ∀ object ∈ world.objects, object.Ranged

section Sound

variable {host : VarHost} {world next : VarWorld} {event : VarEvent}

theorem start_sound : Sound start :=
  ⟨.nil, fun _ member => (nomatch member)⟩

theorem objects_perm {this : Nat} {object : VarObject}
    (here : world.objects[this]? = some object) :
    world.objects.Perm (object :: world.objects.eraseIdx this) := by
  obtain ⟨bound, rfl⟩ := List.getElem?_eq_some_iff.mp here
  exact (List.getElem_cons_eraseIdx_perm bound).symm

theorem Sound.construct (sound : world.Sound)
    {made : Option (VarHeap × VarObject)}
    (moves : ∀ after result, made = some (after, result) →
      Moves world.heap ⟨.int, 0⟩ after result)
    (done : world.construct made = some next) : next.Sound := by
  obtain ⟨⟨after, result⟩, made, rfl⟩ := Option.map_eq_some_iff.mp done
  have moves := moves after result made
  refine ⟨?_, fun object member => ?_⟩
  · exact (moves.turns.kept (sound.kept.cons_free (owns_null .int))).perm
      (List.perm_append_singleton ..).symm
  · rcases List.mem_append.mp member with old | new
    · exact sound.ranged object old
    · rw [List.mem_singleton.mp new]
      exact moves.ranged

theorem Sound.change (sound : world.Sound) {this : Nat}
    {changed : VarObject → Option (VarHeap × VarObject)}
    (keeps : ∀ object, object.Ranged →
      Kept world.heap (object :: world.objects.eraseIdx this) →
      ∀ after result, changed object = some (after, result) →
        Kept after (result :: world.objects.eraseIdx this) ∧ result.Ranged)
    (done : world.change this changed = some next) : next.Sound := by
  unfold VarWorld.change at done
  simp only [Option.bind_eq_bind, Option.bind_eq_some_iff] at done
  obtain ⟨object, here, ⟨after, result⟩, set, ended⟩ := done
  obtain rfl := Option.some.inj ended
  have bound := (List.getElem?_eq_some_iff.mp here).1
  obtain ⟨kept, ranged⟩ := keeps object
    (sound.ranged object (List.mem_of_getElem? here))
    (sound.kept.perm (objects_perm here)) after result set
  refine ⟨kept.perm (List.set_perm_cons_eraseIdx bound result).symm,
    fun other member => ?_⟩
  rcases List.mem_or_eq_of_mem_set member with old | rfl
  · exact sound.ranged other old
  · exact ranged

theorem Sound.move (sound : world.Sound) {this : Nat}
    {changed : VarObject → Option (VarHeap × VarObject)}
    (moves : ∀ object, Holds world.heap object →
      ∀ after result, changed object = some (after, result) →
        Moves world.heap object after result)
    (done : world.change this changed = some next) : next.Sound :=
  sound.change (fun object _ kept after result set =>
    have moves := moves object (kept.holds object List.mem_cons_self)
      after result set
    ⟨moves.turns.kept kept, moves.ranged⟩) done

theorem resolve_clean {what : VarOperation Nat} {found : VarObject}
    {resolved : VarOperation VarObject}
    (here : world.resolve what = some resolved) (clean : what.Clean found) :
    resolved.Clean found := by
  cases what with
  | addText text =>
    cases here
    exact clean
  | _ =>
    obtain ⟨right, -, rfl⟩ := Option.map_eq_some_iff.mp here
    trivial

theorem Sound.step (sound : world.Sound) (clean : event.Clean)
    (done : world.step host event = some next) : next.Sound := by
  cases event with
  | zero =>
    refine sound.construct (fun after result made => ?_) done
    cases made
    exact ⟨.refl (holds_null .int), ranged_null .int⟩
  | number number found =>
    refine sound.construct (fun after result made => ?_) done
    cases made
    exact ofNumber_moves found number
  | text text found =>
    exact sound.construct (fun after result made =>
      .of_free clean (owns_null .int)
        (initText_moves (holds_free clean) made)) done
  | bin data found =>
    exact sound.construct (fun after result made =>
      .of_free clean (owns_null .int) (initBin_moves (holds_free clean)
        (fun _ same => by cases same; rfl) made)) done
  | type kind found =>
    exact sound.construct (fun after result made =>
      .of_free clean (owns_null .int)
        (initType_moves (holds_free clean) made)) done
  | copy r found =>
    obtain ⟨right, -, done⟩ := Option.bind_eq_some_iff.mp done
    exact sound.construct (fun after result made => copy_moves made) done
  | operation this what found =>
    obtain ⟨object, -, done⟩ := Option.bind_eq_some_iff.mp done
    obtain ⟨resolved, found', done⟩ := Option.bind_eq_some_iff.mp done
    exact sound.construct (fun after result made =>
      VarOperation.value_moves (resolve_clean found' clean) made) done
  | setNumber this number =>
    refine sound.move (fun object holds after result made => ?_) done
    rw [setNumber_eq holds] at made
    cases made
    exact setNumber_moves number
  | setText this text =>
    refine sound.move (fun object holds after result made => ?_) done
    rw [destroy_eq holds] at made
    change initText host (without world.heap object) ⟨object.kind, 0⟩
      (fun _ => some text) = _ at made
    exact (destroy_moves object.kind).trans
      (initText_moves (holds_null object.kind) made)
  | setBin this data =>
    exact sound.move (fun object holds after result made =>
      initBin_moves holds (fun _ same => by cases same; rfl) made) done
  | setType this kind =>
    exact sound.move (fun object holds after result made =>
      initType_moves holds made) done
  | assign this r =>
    obtain ⟨right, -, done⟩ := Option.bind_eq_some_iff.mp done
    exact sound.move (fun object holds after result made =>
      assign_moves holds made) done
  | operationSet this what first second =>
    obtain ⟨resolved, found, done⟩ := Option.bind_eq_some_iff.mp done
    exact sound.change (fun object _ kept after result made =>
      VarOperation.set_kept kept (resolve_clean found clean) made) done
  | delete this =>
    obtain ⟨object, here, done⟩ := Option.bind_eq_some_iff.mp done
    have kept := sound.kept.perm (objects_perm here)
    rw [destroy_eq (kept.holds object List.mem_cons_self)] at done
    cases done
    exact ⟨((destroy_moves object.kind).turns.kept kept).tail,
      fun other member =>
        sound.ranged other (List.mem_of_mem_eraseIdx member)⟩

end Sound

end VarWorld

end NdNet
