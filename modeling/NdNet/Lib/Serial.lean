import Mathlib.Data.BitVec

/-!
# Serial numbers

Numbers of `w` bits that count the elements of a stream and wrap around.  Two of
them are compared through the signed value of their difference.  `base` is the
number of the first element, and `base + BitVec.ofNat w count` that of the one
with `count` elements in front of it.
-/

namespace NdNet.Serial

variable {w : Nat} {low middle high base : BitVec w}

theorem toNat_toInt {value : BitVec w} (nonneg : 0 ≤ value.toInt) :
    value.toInt.toNat = value.toNat := by
  rw [BitVec.toInt_eq_toNat_cond] at nonneg ⊢
  by_cases small : 2 * value.toNat < 2 ^ w
  · rw [if_pos small]
    exact Int.toNat_natCast _
  · omega

theorem distance_between (after : 0 ≤ (middle - low).toInt)
    (before : 0 ≤ (high - middle).toInt) :
    (high - low).toNat = (middle - low).toNat + (high - middle).toNat := by
  have whole : high - low = (middle - low) + (high - middle) :=
    (sub_add_sub_cancel' middle low high).symm
  rw [BitVec.toInt_eq_toNat_cond] at after before
  rw [whole, BitVec.toNat_add, Nat.mod_eq_of_lt]
  split at after <;> split at before <;> omega

theorem add_distance (low high : BitVec w) :
    low + BitVec.ofNat w (high - low).toNat = high := by
  rw [BitVec.ofNat_toNat, BitVec.setWidth_eq, add_sub_cancel]

theorem add_counts (base : BitVec w) (first second : Nat) :
    base + BitVec.ofNat w first + BitVec.ofNat w second =
      base + BitVec.ofNat w (first + second) := by
  rw [add_assoc, BitVec.ofNat_add]

variable {first second : Nat}

theorem count_eq (firstSmall : first < 2 ^ w) (secondSmall : second < 2 ^ w)
    (same : base + BitVec.ofNat w first = base + BitVec.ofNat w second) :
    first = second := by
  have numbers := congrArg BitVec.toNat (add_left_cancel same)
  simpa [Nat.mod_eq_of_lt firstSmall, Nat.mod_eq_of_lt secondSmall] using
    numbers

theorem distance_counts (ordered : first ≤ second)
    (near : second - first < 2 ^ w) :
    ((base + BitVec.ofNat w second) - (base + BitVec.ofNat w first)).toNat =
      second - first := by
  have split : base + BitVec.ofNat w second =
      base + BitVec.ofNat w first + BitVec.ofNat w (second - first) := by
    rw [add_counts]
    congr 2
    omega
  rw [split, add_sub_cancel_left]
  simpa using Nat.mod_eq_of_lt near

theorem toInt_counts (firstSmall : 2 * first < 2 ^ w)
    (secondSmall : 2 * second < 2 ^ w) :
    ((base + BitVec.ofNat w first) - (base + BitVec.ofNat w second)).toInt =
      (first : Int) - second := by
  have number (count : Nat) : (BitVec.ofNat w count).toInt =
      (count : Int).bmod (2 ^ w) := BitVec.toInt_ofNat count
  rw [add_sub_add_left_eq_sub, BitVec.toInt_sub, number, number, ← Int.sub_bmod]
  apply Int.bmod_eq_of_le_mul_two <;> omega

/-- Counting on does not overflow while the signed distance stays below half
the numbers. -/
theorem toInt_advance {distance : BitVec w} {count : Nat}
    (near : 2 * (distance.toInt + count) < 2 ^ w) :
    (distance + BitVec.ofNat w count).toInt = distance.toInt + count := by
  have number : (BitVec.ofNat w count).toInt = (count : Int).bmod (2 ^ w) :=
    BitVec.toInt_ofNat count
  have low := distance.le_two_mul_toInt
  rw [BitVec.toInt_add, number, Int.add_bmod_bmod]
  apply Int.bmod_eq_of_le_mul_two
  · push_cast
    omega
  · push_cast
    omega

end NdNet.Serial
