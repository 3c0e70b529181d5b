import Mathlib.Data.List.Basic
import Mathlib.Logic.Function.Basic

/-!
# Journals of a keyed store

A store gives some of its keys a value.  A journal holds, for every write, the
key and what it had before; written back in reverse order it undoes the writes.
Announcements tell somebody else which keys come and go.  They make sense if
each of them is possible where it stands: a key that is added is not there, and
one that is deleted or modified is.
-/

namespace NdNet.Journal

variable {ι ν : Type} [DecidableEq ι]

def undo (journal : List (ι × Option ν)) (store : ι → Option ν) :
    ι → Option ν :=
  journal.foldr (fun entry store => Function.update store entry.1 entry.2) store

theorem undo_write (journal : List (ι × Option ν)) (store : ι → Option ν)
    (key : ι) (value : Option ν) :
    undo (journal ++ [(key, store key)]) (Function.update store key value) =
      undo journal store := by
  unfold undo
  rw [List.foldr_append, List.foldr_cons, List.foldr_nil,
    Function.update_idem, Function.update_eq_self]

/-- What is told about a key. -/
inductive Note (ι : Type) where
  | added (key : ι)
  | deleted (key : ι)
  | modified (key : ι)
  deriving DecidableEq

/-- The keys that are there after an announcement, if it is possible. -/
def Note.apply (present : ι → Bool) : Note ι → Option (ι → Bool)
  | .added key =>
    if present key then none else some (Function.update present key true)
  | .deleted key =>
    if present key then some (Function.update present key false) else none
  | .modified key => if present key then some present else none

/-- The keys that are there after some announcements, if all are possible. -/
def announce : (ι → Bool) → List (Note ι) → Option (ι → Bool)
  | present, [] => some present
  | present, note :: notes =>
    (note.apply present).bind fun present => announce present notes

theorem announce_append (present : ι → Bool) (first later : List (Note ι)) :
    announce present (first ++ later) =
      (announce present first).bind fun present => announce present later := by
  induction first generalizing present with
  | nil => rfl
  | cons note notes induction =>
    rw [List.cons_append, announce, announce, Option.bind_assoc]
    congr 1
    funext next
    exact induction next

theorem announce_modified (present : ι → Bool) (keys : List ι) :
    announce present (keys.map .modified) = some present ↔
      ∀ key ∈ keys, present key = true := by
  induction keys with
  | nil => simp [announce]
  | cons key keys induction =>
    rw [List.map_cons, announce, List.forall_mem_cons, ← induction]
    unfold Note.apply
    cases there : present key with
    | false | true => simp [there]

def present (store : ι → Option ν) (key : ι) : Bool :=
  (store key).isSome

theorem present_update (store : ι → Option ν) (key : ι) (value : Option ν) :
    present (Function.update store key value) =
      Function.update (present store) key value.isSome := by
  funext other
  unfold present
  by_cases same : other = key
  · subst same
    rw [Function.update_self, Function.update_self]
  · rw [Function.update_of_ne same, Function.update_of_ne same]

end NdNet.Journal
