import Mathlib.Data.List.Basic

/-!
# Pieces of a stream

A piece agrees with a stream from some position on if every element of it that
still lies inside the stream is the stream's own.  Pieces that continue each
other build up a prefix.
-/

namespace NdNet.Pieces

variable {α : Type} {stream piece more : List α} {position : Nat}

/-- Where the stream reaches, the piece has its elements. -/
def Agrees (stream : List α) (position : Nat) (piece : List α) : Prop :=
  ∀ index < piece.length, position + index < stream.length →
    piece[index]? = stream[position + index]?

theorem agrees_nil (stream : List α) (position : Nat) :
    Agrees stream position [] := by
  intro index inside
  simp at inside

theorem Agrees.append (first : Agrees stream position piece)
    (second : Agrees stream (position + piece.length) more) :
    Agrees stream position (piece ++ more) := by
  intro index inside reached
  by_cases early : index < piece.length
  · rw [List.getElem?_append_left early]
    exact first index early reached
  · rw [List.length_append] at inside
    have shifted : position + piece.length + (index - piece.length) =
        position + index := by omega
    rw [List.getElem?_append_right (by omega), ← shifted]
    exact second _ (by omega) (by omega)

/-- A piece inside the stream does not see what the stream is extended by. -/
theorem Agrees.extend (holds : Agrees stream position piece)
    (inside : position + piece.length ≤ stream.length) (later : List α) :
    Agrees (stream ++ later) position piece := by
  intro index within _
  rw [List.getElem?_append_left (by omega)]
  exact holds index within (by omega)

theorem Agrees.take_isPrefix (holds : Agrees stream 0 piece) {count : Nat}
    (long : count ≤ piece.length) : stream.take count <+: piece := by
  rw [List.prefix_iff_eq_take]
  apply List.ext_getElem?
  intro index
  by_cases within : index < min count stream.length
  · have agreed := holds index (by omega) (by omega)
    rw [Nat.zero_add] at agreed
    rw [List.getElem?_take_of_lt (by omega), List.length_take,
      List.getElem?_take_of_lt within, agreed]
  · rw [List.getElem?_eq_none (by rw [List.length_take]; omega),
      List.getElem?_eq_none (by simp only [List.length_take]; omega)]

theorem Agrees.isPrefix (holds : Agrees stream 0 piece)
    (short : piece.length ≤ stream.length) : piece <+: stream := by
  have covered := holds.take_isPrefix (Nat.le_refl piece.length)
  have whole : stream.take piece.length = piece := by
    apply covered.eq_of_length
    rw [List.length_take]
    omega
  rw [← whole]
  exact List.take_prefix _ _

end NdNet.Pieces
