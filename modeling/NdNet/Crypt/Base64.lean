import Mathlib.Algebra.GroupWithZero.Nat
import Mathlib.Data.List.Basic
import Mathlib.Tactic.SplitIfs

/-!
# Base64

`base64_encode` writes four characters for three bytes, breaks its lines by the
number of characters written so far, and ends with a pad character in any case.
`base64_decode` collects six bits from every character of the alphabet, passes
over all others and stops at the first pad character.  So it reads the groups of
the encoder back, whatever stands between their characters.
-/

namespace NdNet.Base64

def alphabet : List UInt8 :=
  ("ABCDEFGHIJKLMNOPQRSTUVWXYZabcdefghijklmnopqrstuvwxyz0123456789+/".toList).map
    fun c => UInt8.ofNat c.toNat

/-- `END_OF_BASE64_ENCODED_DATA` -/
def endOfData : UInt8 := 61

def charactersPerLine : Nat := 72

def letter (bits : UInt8) : UInt8 :=
  alphabet.getD bits.toNat 0

def second (byte1 byte2 : UInt8) : UInt8 :=
  letter (((byte1 &&& 0x03) <<< 4) ||| ((byte2 &&& 0xF0) >>> 4))

def third (byte2 byte3 : UInt8) : UInt8 :=
  letter (((byte2 &&& 0x0F) <<< 2) ||| ((byte3 &&& 0xC0) >>> 6))

/-- The loop of `base64_encode` behind `encoded` characters, up to the NUL it
writes at the end. -/
def encodeFrom : Nat → List UInt8 → List UInt8
  | _, [] => [endOfData]
  | _, [byte1] =>
    [letter (byte1 >>> 2), second byte1 0, endOfData, endOfData]
  | _, [byte1, byte2] =>
    [letter (byte1 >>> 2), second byte1 byte2, third byte2 0, endOfData]
  | encoded, byte1 :: byte2 :: byte3 :: source =>
    letter (byte1 >>> 2) :: second byte1 byte2 :: third byte2 byte3 ::
      letter (byte3 &&& 0x3F) ::
        if (encoded + 4) % charactersPerLine = 0 then
          13 :: 10 :: encodeFrom (encoded + 6) source
        else encodeFrom (encoded + 4) source

/-- `base64_encode`: the text in front of the NUL.  The counter is an `NDUINT32`;
it stays below 2^32 for every length that is an `int`. -/
def base64Encode (source : List UInt8) : List UInt8 :=
  encodeFrom 0 source

/-- `inalphabet`; the table is filled with the NUL behind the alphabet too. -/
def inalphabet (c : UInt8) : Bool :=
  c ∈ alphabet || c == 0

def decoder (c : UInt8) : Nat :=
  (alphabet ++ [0]).idxOf c

/-- What `base64_decode` makes of an incomplete group in front of the pad
character: the bytes, and the number of errors. -/
def finish (bits charCount : Nat) : List UInt8 × Nat :=
  match charCount with
  | 1 => ([], 1)
  | 2 => ([UInt8.ofNat (bits >>> 10)], 0)
  | 3 => ([UInt8.ofNat (bits >>> 16), UInt8.ofNat ((bits >>> 8) &&& 0xff)], 0)
  | _ => ([], 0)

/-- The loop of `base64_decode` with the group it has collected, and what comes
behind it. -/
def decodeFrom : Nat → Nat → List UInt8 → List UInt8 × Nat
  | _, _, [] => ([], 0)
  | bits, charCount, c :: input =>
    if c = endOfData then finish bits charCount
    else if !inalphabet c then decodeFrom bits charCount input
    else
      let bits := bits + decoder c
      if charCount + 1 = 4 then
        let (output, errors) := decodeFrom 0 0 input
        (UInt8.ofNat (bits >>> 16) :: UInt8.ofNat ((bits >>> 8) &&& 0xff) ::
          UInt8.ofNat (bits &&& 0xff) :: output, errors)
      else decodeFrom (bits <<< 6) (charCount + 1) input

/-- `base64_decode`: what it returns, and the output with its length. -/
def base64Decode (input : List UInt8) : Int × List UInt8 × Nat :=
  let (output, errors) := decodeFrom 0 0 input
  (if errors = 0 then 0 else -1, output, output.length)

theorem decoder_letter {bits : UInt8} (six : bits.toNat < 64) :
    decoder (letter bits) = bits.toNat ∧ inalphabet (letter bits) = true ∧
      letter bits ≠ endOfData := by
  have all : ∀ n < 64, decoder (alphabet.getD n 0) = n ∧
      inalphabet (alphabet.getD n 0) = true ∧
        alphabet.getD n 0 ≠ endOfData := by decide +kernel
  exact all _ six

section Bits

variable (byte byte1 byte2 byte3 : UInt8)

theorem byte_induction {property : UInt8 → Prop}
    (all : ∀ n < 256, property (UInt8.ofNat n)) : property byte := by
  have found := all byte.toNat byte.toNat_lt
  rwa [UInt8.ofNat_toNat] at found

theorem toNat_pieces :
    (byte >>> 2).toNat = byte.toNat / 4 ∧
      (byte &&& 0x3F).toNat = byte.toNat % 64 ∧
      ((byte &&& 0x03) <<< 4).toNat = byte.toNat % 4 * 16 ∧
      ((byte &&& 0xF0) >>> 4).toNat = byte.toNat / 16 ∧
      ((byte &&& 0x0F) <<< 2).toNat = byte.toNat % 16 * 4 ∧
      ((byte &&& 0xC0) >>> 6).toNat = byte.toNat / 64 := by
  refine @byte_induction byte (fun byte =>
    (byte >>> 2).toNat = byte.toNat / 4 ∧
      (byte &&& 0x3F).toNat = byte.toNat % 64 ∧
      ((byte &&& 0x03) <<< 4).toNat = byte.toNat % 4 * 16 ∧
      ((byte &&& 0xF0) >>> 4).toNat = byte.toNat / 16 ∧
      ((byte &&& 0x0F) <<< 2).toNat = byte.toNat % 16 * 4 ∧
      ((byte &&& 0xC0) >>> 6).toNat = byte.toNat / 64) ?_
  decide +kernel

theorem toNat_high : (byte >>> 2).toNat = byte.toNat / 4 :=
  (toNat_pieces byte).1

theorem toNat_low : (byte &&& 0x3F).toNat = byte.toNat % 64 :=
  (toNat_pieces byte).2.1

theorem toNat_joined {high low : UInt8} {width : Nat}
    (multiple : ∃ count, high.toNat = 2 ^ width * count)
    (small : low.toNat < 2 ^ width) :
    (high ||| low).toNat = high.toNat + low.toNat := by
  obtain ⟨count, same⟩ := multiple
  rw [UInt8.toNat_or, same, ← Nat.two_pow_add_eq_or_of_lt small]

theorem toNat_second :
    (((byte1 &&& 0x03) <<< 4) ||| ((byte2 &&& 0xF0) >>> 4)).toNat =
      byte1.toNat % 4 * 16 + byte2.toNat / 16 := by
  obtain ⟨-, -, high, -, -, -⟩ := toNat_pieces byte1
  obtain ⟨-, -, -, low, -, -⟩ := toNat_pieces byte2
  have small := byte2.toNat_lt
  rw [@toNat_joined _ _ 4 ⟨byte1.toNat % 4, by omega⟩ (by omega), high, low]

theorem toNat_third :
    (((byte2 &&& 0x0F) <<< 2) ||| ((byte3 &&& 0xC0) >>> 6)).toNat =
      byte2.toNat % 16 * 4 + byte3.toNat / 64 := by
  obtain ⟨-, -, -, -, high, -⟩ := toNat_pieces byte2
  obtain ⟨-, -, -, -, -, low⟩ := toNat_pieces byte3
  have small := byte3.toNat_lt
  rw [@toNat_joined _ _ 2 ⟨byte2.toNat % 16, by omega⟩ (by omega), high, low]

end Bits

section Groups

variable {bits : UInt8} {source input : List UInt8}

attribute [local simp] decodeFrom in
theorem decodeFrom_letter (six : bits.toNat < 64) {charCount : Nat}
    (inside : charCount + 1 ≠ 4) (collected : Nat) (input : List UInt8) :
    decodeFrom collected charCount (letter bits :: input) =
      decodeFrom ((collected + bits.toNat) * 64) (charCount + 1) input := by
  obtain ⟨value, member, other⟩ := decoder_letter six
  rw [decodeFrom, if_neg other, member, value]
  rw [Bool.not_true, if_neg Bool.false_ne_true, if_neg inside, Nat.shiftLeft_eq]

theorem ofNat_and (n : Nat) : UInt8.ofNat (n &&& 0xff) = UInt8.ofNat n := by
  apply UInt8.toNat_inj.mp
  rw [UInt8.toNat_ofNat', UInt8.toNat_ofNat',
    show (0xff : Nat) = 2 ^ 8 - 1 from rfl, Nat.and_two_pow_sub_one_eq_mod]
  omega

theorem decodeFrom_last (six : bits.toNat < 64) (collected : Nat)
    (input : List UInt8) :
    decodeFrom collected 3 (letter bits :: input) =
      (UInt8.ofNat ((collected + bits.toNat) / 65536) ::
        UInt8.ofNat ((collected + bits.toNat) / 256) ::
          UInt8.ofNat (collected + bits.toNat) :: (decodeFrom 0 0 input).1,
        (decodeFrom 0 0 input).2) := by
  obtain ⟨value, member, other⟩ := decoder_letter six
  rw [decodeFrom, if_neg other, member, value]
  rw [Bool.not_true, if_neg Bool.false_ne_true, if_pos rfl, ofNat_and,
    ofNat_and,    Nat.shiftRight_eq_div_pow,
    Nat.shiftRight_eq_div_pow]

theorem decodeFrom_end (collected charCount : Nat) (input : List UInt8) :
    decodeFrom collected charCount (endOfData :: input) =
      finish collected charCount := by
  rw [decodeFrom, if_pos rfl]

theorem second_eq (byte1 byte2 : UInt8) :
    ∃ bits, second byte1 byte2 = letter bits ∧ bits.toNat < 64 ∧
      bits.toNat = byte1.toNat % 4 * 16 + byte2.toNat / 16 := by
  have small := byte2.toNat_lt
  exact ⟨_, rfl, by rw [toNat_second]; omega, toNat_second byte1 byte2⟩

theorem third_eq (byte2 byte3 : UInt8) :
    ∃ bits, third byte2 byte3 = letter bits ∧ bits.toNat < 64 ∧
      bits.toNat = byte2.toNat % 16 * 4 + byte3.toNat / 64 := by
  have small := byte3.toNat_lt
  exact ⟨_, rfl, by rw [toNat_third]; omega, toNat_third byte2 byte3⟩

theorem ofNat_eq {byte : UInt8} {n : Nat} (same : n % 256 = byte.toNat) :
    UInt8.ofNat n = byte := by
  apply UInt8.toNat_inj.mp
  exact same

theorem decodeFrom_foreign {c : UInt8} (foreign : inalphabet c = false)
    (other : c ≠ endOfData) (collected charCount : Nat) (input : List UInt8) :
    decodeFrom collected charCount (c :: input) =
      decodeFrom collected charCount input := by
  rw [decodeFrom, if_neg other, foreign]
  rfl

theorem decodeFrom_group (byte1 byte2 byte3 : UInt8) (input : List UInt8) :
    decodeFrom 0 0 (letter (byte1 >>> 2) :: second byte1 byte2 ::
      third byte2 byte3 :: letter (byte3 &&& 0x3F) :: input) =
        (byte1 :: byte2 :: byte3 :: (decodeFrom 0 0 input).1,
          (decodeFrom 0 0 input).2) := by
  obtain ⟨bits2, same2, six2, value2⟩ := second_eq byte1 byte2
  obtain ⟨bits3, same3, six3, value3⟩ := third_eq byte2 byte3
  have value1 := toNat_high byte1
  have value4 := toNat_low byte3
  have bound1 := byte1.toNat_lt
  have bound2 := byte2.toNat_lt
  have bound3 := byte3.toNat_lt
  rw [same2, same3, decodeFrom_letter (by omega) (by decide),
    decodeFrom_letter six2 (by decide), decodeFrom_letter six3 (by decide),
    decodeFrom_last (by omega)]
  have sum : (((0 + (byte1 >>> 2).toNat) * 64 + bits2.toNat) * 64 +
      bits3.toNat) * 64 + (byte3 &&& 0x3F).toNat =
        byte1.toNat * 65536 + byte2.toNat * 256 + byte3.toNat := by omega
  have first : UInt8.ofNat
      ((byte1.toNat * 65536 + byte2.toNat * 256 + byte3.toNat) / 65536) =
        byte1 := ofNat_eq (by omega)
  have middle : UInt8.ofNat
      ((byte1.toNat * 65536 + byte2.toNat * 256 + byte3.toNat) / 256) =
        byte2 := ofNat_eq (by omega)
  have last : UInt8.ofNat
      (byte1.toNat * 65536 + byte2.toNat * 256 + byte3.toNat) = byte3 :=
    ofNat_eq (by omega)
  rw [sum, first, middle, last]

theorem finish_two (bits : Nat) :
    finish bits 2 = ([UInt8.ofNat (bits / 1024)], 0) := by
  change ([UInt8.ofNat (bits >>> 10)], 0) = _
  rw [Nat.shiftRight_eq_div_pow]

theorem finish_three (bits : Nat) :
    finish bits 3 =
      ([UInt8.ofNat (bits / 65536), UInt8.ofNat (bits / 256)], 0) := by
  change ([UInt8.ofNat (bits >>> 16), UInt8.ofNat ((bits >>> 8) &&& 0xff)], 0) =
    _
  rw [ofNat_and, Nat.shiftRight_eq_div_pow, Nat.shiftRight_eq_div_pow]

theorem decodeFrom_one (byte1 : UInt8) (input : List UInt8) :
    decodeFrom 0 0 (letter (byte1 >>> 2) :: second byte1 0 :: endOfData ::
      input) = ([byte1], 0) := by
  obtain ⟨bits2, same2, six2, value2⟩ := second_eq byte1 0
  have value1 := toNat_high byte1
  have bound1 := byte1.toNat_lt
  have zero : (0 : UInt8).toNat = 0 := rfl
  rw [same2, decodeFrom_letter (by omega) (by decide),
    decodeFrom_letter six2 (by decide), decodeFrom_end, finish_two]
  have first : UInt8.ofNat
      (((0 + (byte1 >>> 2).toNat) * 64 + bits2.toNat) * 64 / 1024) = byte1 :=
    ofNat_eq (by omega)
  rw [first]

theorem decodeFrom_two (byte1 byte2 : UInt8) (input : List UInt8) :
    decodeFrom 0 0 (letter (byte1 >>> 2) :: second byte1 byte2 ::
      third byte2 0 :: endOfData :: input) = ([byte1, byte2], 0) := by
  obtain ⟨bits2, same2, six2, value2⟩ := second_eq byte1 byte2
  obtain ⟨bits3, same3, six3, value3⟩ := third_eq byte2 0
  have value1 := toNat_high byte1
  have bound1 := byte1.toNat_lt
  have bound2 := byte2.toNat_lt
  have zero : (0 : UInt8).toNat = 0 := rfl
  rw [same2, same3, decodeFrom_letter (by omega) (by decide),
    decodeFrom_letter six2 (by decide), decodeFrom_letter six3 (by decide),
    decodeFrom_end, finish_three]
  have sum : (((0 + (byte1 >>> 2).toNat) * 64 + bits2.toNat) * 64 +
      bits3.toNat) * 64 = byte1.toNat * 65536 + byte2.toNat * 256 := by omega
  have first : UInt8.ofNat
      ((byte1.toNat * 65536 + byte2.toNat * 256) / 65536) = byte1 :=
    ofNat_eq (by omega)
  have middle : UInt8.ofNat
      ((byte1.toNat * 65536 + byte2.toNat * 256) / 256) = byte2 :=
    ofNat_eq (by omega)
  rw [sum, first, middle]

theorem decodeFrom_encodeFrom (encoded : Nat) (source : List UInt8) :
    decodeFrom 0 0 (encodeFrom encoded source) = (source, 0) := by
  fun_induction encodeFrom encoded source with
  | case1 => rfl
  | case2 encoded byte1 => exact decodeFrom_one byte1 _
  | case3 encoded byte1 byte2 => exact decodeFrom_two byte1 byte2 _
  | case4 encoded byte1 byte2 byte3 source broken unbroken =>
    rw [decodeFrom_group]
    split_ifs with full
    · rw [decodeFrom_foreign rfl (by decide), decodeFrom_foreign rfl (by decide),
        broken]
    · rw [unbroken]

/-- `wider` is `text` with foreign characters inserted. -/
inductive Interspersed (foreign : UInt8 → Prop) :
    List UInt8 → List UInt8 → Prop
  | nil : Interspersed foreign [] []
  | keep {text wider : List UInt8} (c : UInt8) :
      Interspersed foreign text wider →
        Interspersed foreign (c :: text) (c :: wider)
  | insert {text wider : List UInt8} {c : UInt8} : foreign c →
      Interspersed foreign text wider → Interspersed foreign text (c :: wider)

theorem Interspersed.refl (foreign : UInt8 → Prop) (text : List UInt8) :
    Interspersed foreign text text := by
  induction text with
  | nil => exact .nil
  | cons c text induction => exact .keep c induction

/-- Outside the alphabet, and neither the pad character nor NUL. -/
def Foreign (c : UInt8) : Prop :=
  c ∉ alphabet ∧ c ≠ endOfData ∧ c ≠ 0

theorem Interspersed.decodeFrom {text wider : List UInt8}
    (interspersed : Interspersed Foreign text wider) (collected charCount : Nat)
    :
    Base64.decodeFrom collected charCount wider =
      Base64.decodeFrom collected charCount text := by
  induction interspersed generalizing collected charCount with
  | nil => rfl
  | keep c _ induction =>
    rw [Base64.decodeFrom, Base64.decodeFrom]
    simp only [induction]
  | insert foreign _ induction =>
    obtain ⟨outside, other, visible⟩ := foreign
    rw [decodeFrom_foreign (by simp [inalphabet, outside, visible]) other,
      induction]

/-- The text that is written for some bytes gives the bytes back, also with
other characters in it. -/
theorem base64_roundTrip {source wider : List UInt8}
    (interspersed : Interspersed Foreign (base64Encode source) wider) :
    base64Decode (base64Encode source) = (0, source, source.length) ∧
      base64Decode wider = (0, source, source.length) := by
  have decoded : decodeFrom 0 0 (base64Encode source) = (source, 0) :=
    decodeFrom_encodeFrom 0 source
  constructor
  · unfold base64Decode
    rw [decoded]
    rfl
  · unfold base64Decode
    rw [interspersed.decodeFrom, decoded]
    rfl

theorem base64_roundTrip_blank :
    base64Decode (base64Encode [0, 255]) = (0, [0, 255], 2) ∧
      base64Decode (32 :: base64Encode [0, 255]) = (0, [0, 255], 2) :=
  base64_roundTrip (.insert (by unfold Foreign; decide +kernel) (.refl _ _))

end Groups

end NdNet.Base64
