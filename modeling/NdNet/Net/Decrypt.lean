import NdNet.Net.Crypt
import Mathlib.Data.Nat.Bitwise

/-!
# Decryption of packets

`tea_dec` of `tea.c`, `nd_TEAdecrypt` of `ndcrypt.c`, and what the receiver
makes of a packet that `nd_packet_encrypt_key` has encrypted: the copy it has
read out of its buffer goes through `nd_packet_decrypt_key` and gets its new
length.

The cipher is inverted by going through its rounds backwards.  Whether the
packet comes back is then a matter of the header and of two limits: sender and
receiver compare the length with the same bound, one before the stuffing, the
other behind it.
-/

namespace NdNet

open List

/-- The decrypting loop of `tean`, with the number of rounds until `sum` is
zero. -/
def teanDec (key : List Byte) :
    Nat → UInt32 → UInt32 → UInt32 → UInt32 × UInt32
  | 0, _, y, z => (y, z)
  | rounds + 1, sum, y, z =>
    let word (index : UInt32) := hostU32 key (4 * index.toNat)
    let z := z -
      (((y <<< 4) ^^^ (y >>> 5)) + (y ^^^ sum) + word ((sum >>> 11) &&& 3))
    let sum := sum - teaDelta
    let y := y -
      (((z <<< 4) ^^^ (z >>> 5)) + (z ^^^ sum) + word (sum &&& 3))
    teanDec key rounds sum y z

def teaDec (key block : List Byte) : List Byte :=
  let out := teanDec key teaRounds (teaDelta * UInt32.ofNat teaRounds)
    (hostU32 block 0) (hostU32 block 4)
  hostBytes32 out.1 ++ hostBytes32 out.2

/-- The loop of `nd_TEAdecrypt` over the blocks of the data. -/
def teaDecBlocks (key : List Byte) : Nat → List Byte → List Byte
  | 0, data => data
  | count + 1, data =>
    teaDec key (data.take teaUnit) ++ teaDecBlocks key count (data.drop teaUnit)

/-- `nd_TEAdecrypt`: the length and the data. -/
def teaDecrypt (key data : List Byte) : Int × List Byte :=
  if data.length % teaUnit ≠ 0 then (-1, data)
  else (data.length, teaDecBlocks key (data.length / teaUnit) data)

/-- The decryption of a connection with this key, as the applications register
it. -/
def teaNetCrypt (key : CryptKey) : NetCrypt :=
  { unitLen := teaUnit
    decrypt := if key.valid then some (teaDecrypt key.key) else none }

/-- The bound that `nd_packet_encrypt_key` and `nd_packet_decrypt_key` have for
the number of bytes behind the header. -/
def cryptDataLimit : Nat :=
  packetSize - packetHdrSize - teaUnit

/-- `sent`, that was made of the packet `msg` in host order, is within the
limit, and its receiver gets the length and the payload of `msg` back. -/
structure Restored (node : TcpNode) (msg sent : List Byte) : Prop where
  fits : sent.length ≤ packetSize
  counts : packLen sent = sent.length
  result : (node.openPacket (packetSwap sent)).1 = msg.length
  length : packLen (node.openPacket (packetSwap sent)).2.1 = packLen msg
  data : payload ((node.openPacket (packetSwap sent)).2.1.take msg.length) =
    payload msg

/-- If `nd_packet_encrypt_key` reports success, a node with the same key gets
the packet back. -/
def CryptRoundTrips (node : TcpNode) (key : CryptKey) (msg : List Byte) : Prop :=
  (packetEncryptKey teaCrypt key msg).1 ≠ 0 →
    Restored { node with crypt := teaNetCrypt key } msg
      (packetEncryptKey teaCrypt key msg).2

/-- There is nothing to encrypt, or too much for the sender; or the payload
fits into the whole blocks below the limit, and the packet is not marked as
stuffed where no stuffing will replace the mark. -/
def Restorable (msg : List Byte) : Prop :=
  (payload msg).length = 0 ∨ cryptDataLimit < (payload msg).length ∨
    ((payload msg).length ≤ cryptDataLimit / teaUnit * teaUnit ∧
      ((payload msg).length % teaUnit ≠ 0 ∨ isStuff msg = false ∨
        (stuffLen msg = 0 ∧ byteAt msg (msg.length - 1) = 0)))

instance (msg : List Byte) : Decidable (Restorable msg) :=
  inferInstanceAs (Decidable (_ ∨ _ ∨ _))

section Tea

variable {key : List Byte}

theorem teanDec_tean (rounds more : Nat) (sum y z : UInt32) :
    teanDec key (rounds + more) (sum + teaDelta * UInt32.ofNat rounds)
        (tean key rounds sum y z).1 (tean key rounds sum y z).2 =
      teanDec key more sum y z := by
  induction rounds generalizing sum y z more with
  | zero => simp [tean]
  | succ rounds induction =>
    have shifted : rounds + 1 + more = rounds + (more + 1) := by omega
    have total : sum + teaDelta * UInt32.ofNat (rounds + 1) =
        sum + teaDelta + teaDelta * UInt32.ofNat rounds := by
      rw [UInt32.ofNat_add, UInt32.mul_add, show UInt32.ofNat 1 = 1 from rfl,
        UInt32.mul_one, UInt32.add_comm _ teaDelta, ← UInt32.add_assoc]
    rw [shifted, total, tean]
    rw [induction, teanDec]
    simp

theorem hostU32_hostBytes32 (value : UInt32) (rest : List Byte) :
    hostU32 (hostBytes32 value ++ rest) 0 = value := by
  have small := value.toNat_lt
  have low : hostU16 (hostBytes32 value ++ rest) 0 = value.toNat % 65536 := by
    rw [hostBytes32, append_assoc, hostU16_hostBytes_mod]
  have high : hostU16 (hostBytes32 value ++ rest) 2 =
      value.toNat / 65536 % 65536 := hostU16_hostBytes_mod (value.toNat / 65536) rest
  rw [hostU32, low, high]
  have total : value.toNat % 65536 + 65536 * (value.toNat / 65536 % 65536) =
      value.toNat := by omega
  rw [total, UInt32.ofNat_toNat]

theorem hostBytes_hostU16 (low high : Byte) (rest : List Byte) :
    hostBytes (hostU16 (low :: high :: rest) 0) = [low, high] := by
  have first := low.toNat_lt
  change [UInt8.ofNat (low.toNat + 256 * high.toNat),
    UInt8.ofNat ((low.toNat + 256 * high.toNat) / 256)] = _
  have upper : (low.toNat + 256 * high.toNat) / 256 = high.toNat := by omega
  rw [upper, UInt8.ofNat_toNat]
  congr 1
  apply UInt8.toNat.inj
  rw [UInt8.toNat_ofNat']
  omega

theorem hostBytes_congr {value other : Nat}
    (same : value % 65536 = other % 65536) :
    hostBytes value = hostBytes other := by
  have low : UInt8.ofNat value = UInt8.ofNat other := by
    apply UInt8.toNat.inj
    rw [UInt8.toNat_ofNat', UInt8.toNat_ofNat']
    omega
  have high : UInt8.ofNat (value / 256) = UInt8.ofNat (other / 256) := by
    apply UInt8.toNat.inj
    rw [UInt8.toNat_ofNat', UInt8.toNat_ofNat']
    omega
  rw [hostBytes, hostBytes, low, high]

theorem hostBytes32_hostU32 (a b c d : Byte) (rest : List Byte) :
    hostBytes32 (hostU32 (a :: b :: c :: d :: rest) 0) = [a, b, c, d] := by
  have low : hostU16 (a :: b :: c :: d :: rest) 0 < 65536 := by
    have first := a.toNat_lt
    have second := b.toNat_lt
    change a.toNat + 256 * b.toNat < _
    omega
  have high : hostU16 (a :: b :: c :: d :: rest) 2 < 65536 := by
    have first := c.toNat_lt
    have second := d.toNat_lt
    change c.toNat + 256 * d.toNat < _
    omega
  have number : (hostU32 (a :: b :: c :: d :: rest) 0).toNat =
      hostU16 (a :: b :: c :: d :: rest) 0 +
        65536 * hostU16 (a :: b :: c :: d :: rest) 2 := by
    rw [hostU32, UInt32.toNat_ofNat', Nat.zero_add]
    omega
  have front := hostBytes_hostU16 a b (c :: d :: rest)
  have back : hostBytes (hostU16 (a :: b :: c :: d :: rest) 2) = [c, d] :=
    hostBytes_hostU16 c d rest
  rw [hostBytes32, number, ← hostBytes_congr (show _ from (Nat.add_mul_mod_self_left
      (hostU16 (a :: b :: c :: d :: rest) 0) 65536
      (hostU16 (a :: b :: c :: d :: rest) 2)).symm), front,
    ← hostBytes_congr (show hostU16 (a :: b :: c :: d :: rest) 2 % 65536 =
      _ by omega), back]
  rfl

theorem hostU32_second (first second : UInt32) :
    hostU32 (hostBytes32 first ++ hostBytes32 second) 4 = second := by
  have alone := hostU32_hostBytes32 second []
  exact alone

theorem hostBytes32_block {block : List Byte} (whole : block.length = 8) :
    hostBytes32 (hostU32 block 0) ++ hostBytes32 (hostU32 block 4) = block := by
  match block, whole with
  | [a, b, c, d, e, f, g, h], _ =>
    have front := hostBytes32_hostU32 a b c d [e, f, g, h]
    have back : hostBytes32 (hostU32 [a, b, c, d, e, f, g, h] 4) =
        [e, f, g, h] := hostBytes32_hostU32 e f g h []
    rw [front, back]
    rfl

theorem teaDec_teaEnc {block : List Byte} (whole : block.length = teaUnit) :
    teaDec key (teaEnc key block) = block := by
  have rounds := @teanDec_tean key teaRounds 0 0 (hostU32 block 0)
    (hostU32 block 4)
  rw [Nat.add_zero, UInt32.zero_add] at rounds
  unfold teaDec teaEnc
  rw [hostU32_hostBytes32, hostU32_second, rounds, teanDec]
  exact hostBytes32_block whole

theorem teaDecBlocks_teaBlocks {count : Nat} {data : List Byte}
    (whole : data.length = count * teaUnit) :
    teaDecBlocks key count (teaBlocks key count data) = data := by
  induction count generalizing data with
  | zero => rfl
  | succ count induction =>
    have unit : (data.take teaUnit).length = teaUnit := by
      rw [length_take, whole, Nat.succ_mul]
      omega
    have rest : (data.drop teaUnit).length = count * teaUnit := by
      rw [length_drop, whole, Nat.succ_mul, Nat.add_sub_cancel]
    rw [teaBlocks, teaDecBlocks, take_left' (length_teaEnc _ _),
      drop_left' (length_teaEnc _ _), teaDec_teaEnc unit,
      induction rest, take_append_drop]

/-- The data with the bytes `nd_TEAencrypt` stuffs it with. -/
def stuffedData (data : List Byte) : List Byte :=
  if data.length % teaUnit ≠ 0 then
    cryptStuff data ((data.length / teaUnit + 1) * teaUnit)
  else data

theorem length_stuffedData (data : List Byte) :
    (stuffedData data).length % teaUnit = 0 ∧
      data.length ≤ (stuffedData data).length ∧
      (stuffedData data).length < data.length + teaUnit := by
  have parts := Nat.div_add_mod' data.length teaUnit
  have next : (data.length / teaUnit + 1) * teaUnit =
      data.length / teaUnit * teaUnit + teaUnit := Nat.succ_mul _ _
  have rest : data.length % teaUnit < teaUnit := Nat.mod_lt _ (by decide)
  unfold stuffedData
  split
  · rw [length_cryptStuff (by omega), Nat.mul_mod_left]
    omega
  · omega

theorem teaDecrypt_teaEncrypt (data : List Byte) :
    teaEncrypt key data =
        (((stuffedData data).length : Int), (teaEncrypt key data).2) ∧
      (teaEncrypt key data).2.length = (stuffedData data).length ∧
      teaDecrypt key (teaEncrypt key data).2 =
        (((stuffedData data).length : Int), stuffedData data) := by
  obtain ⟨multiple, _, _⟩ := length_stuffedData data
  have blocks : teaEncrypt key data =
      (((stuffedData data).length : Int),
        teaBlocks key ((stuffedData data).length / teaUnit)
          (stuffedData data)) := by
    unfold teaEncrypt stuffedData
    split
    · have parts := Nat.div_add_mod' data.length teaUnit
      have rest : data.length % teaUnit < teaUnit := Nat.mod_lt _ (by decide)
      have next : (data.length / teaUnit + 1) * teaUnit =
          data.length / teaUnit * teaUnit + teaUnit := Nat.succ_mul _ _
      rw [length_cryptStuff (by omega), Nat.mul_div_cancel _ (by decide)]
    · rfl
  have whole : (stuffedData data).length =
      (stuffedData data).length / teaUnit * teaUnit := by
    have parts := Nat.div_add_mod' (stuffedData data).length teaUnit
    omega
  have same := length_teaBlocks key whole
  rw [blocks]
  refine ⟨rfl, same, ?_⟩
  unfold teaDecrypt
  rw [same, if_neg (not_not_intro multiple), teaDecBlocks_teaBlocks whole]

end Tea

variable (node : TcpNode)
variable {cipher : List Byte} {low' high' version' flags' : Byte}

section Packets

variable {key : CryptKey} {low high version flags : Byte} {data : List Byte}

theorem stuffFlags_fields (flags : Byte) {pad : Nat} (few : pad < 32) :
    ((((flags ||| 2) &&& 3) ||| 4 ||| UInt8.ofNat (8 * pad)) &&&
        0xfd).toNat / 4 % 2 = 1 ∧
      ((((flags ||| 2) &&& 3) ||| 4 ||| UInt8.ofNat (8 * pad)) &&&
        0xfd).toNat / 8 = pad := by
  have stuffing : (UInt8.ofNat (8 * pad)).toNat = 8 * pad := by
    rw [UInt8.toNat_ofNat']
    omega
  constructor
  · have bit := Nat.testBit_eq_decide_div_mod_eq
      (x := ((((flags ||| 2) &&& 3) ||| 4 ||| UInt8.ofNat (8 * pad)) &&&
        0xfd).toNat) (i := 2)
    have set : ((((flags ||| 2) &&& 3) ||| 4 ||| UInt8.ofNat (8 * pad)) &&&
        0xfd).toNat.testBit 2 = true := by
      have four : Nat.testBit 4 2 = true := rfl
      have mask : Nat.testBit 253 2 = true := rfl
      simp [UInt8.toNat_or, UInt8.toNat_and, Nat.testBit_or, Nat.testBit_and,
        four, mask]
    rw [set] at bit
    exact of_decide_eq_true bit.symm
  · have three : (UInt8.toNat 3) >>> 3 = 0 := rfl
    have four : (UInt8.toNat 4) >>> 3 = 0 := rfl
    have mask : (UInt8.toNat 0xfd) >>> 3 = 2 ^ 5 - 1 := rfl
    rw [UInt8.toNat_and, UInt8.toNat_or, UInt8.toNat_or, UInt8.toNat_and,
      stuffing, show (8 : Nat) = 2 ^ 3 from rfl, ← Nat.shiftRight_eq_div_pow,
      Nat.shiftRight_and_distrib, Nat.shiftRight_or_distrib,
      Nat.shiftRight_or_distrib, Nat.shiftRight_and_distrib, three, four, mask,
      Nat.and_zero, Nat.zero_or, Nat.zero_or, Nat.and_two_pow_sub_one_eq_mod,
      Nat.shiftRight_eq_div_pow]
    omega

theorem plainFlags_fields (flags : Byte) :
    ((flags ||| 2) &&& 0xfd).toNat / 4 = flags.toNat / 4 := by
  have small := flags.toNat_lt
  have two : (UInt8.toNat 2) >>> 2 = 0 := rfl
  have mask : (UInt8.toNat 0xfd) >>> 2 = 2 ^ 6 - 1 := rfl
  rw [UInt8.toNat_and, UInt8.toNat_or, show (4 : Nat) = 2 ^ 2 from rfl,
    ← Nat.shiftRight_eq_div_pow, Nat.shiftRight_and_distrib,
    Nat.shiftRight_or_distrib, two, mask, Nat.or_zero,
    Nat.and_two_pow_sub_one_eq_mod, Nat.shiftRight_eq_div_pow]
  omega

def cryptHeader (low high version flags : Byte) (data : List Byte) : List Byte :=
  if data.length < (stuffedData data).length then
    hostBytes ((stuffedData data).length + packetHdrSize) ++
      [version, ((flags ||| 2) &&& 3) ||| 4 |||
        UInt8.ofNat (8 * ((stuffedData data).length - data.length))]
  else [low, high, version, flags ||| 2]

theorem packetEncryptKey_eq (valid : key.valid = true)
    (packet : HostPacket (low :: high :: version :: flags :: data))
    (some : data ≠ []) (fits : data.length ≤ cryptDataLimit) :
    packetEncryptKey teaCrypt key (low :: high :: version :: flags :: data) =
      (((stuffedData data).length : Int),
        cryptHeader low high version flags data ++
          (teaEncrypt key.key data).2) := by
  have limit : cryptDataLimit = 65524 := rfl
  have unit : packetSize - teaUnit = 65528 := rfl
  have header : packetHdrSize = 4 := rfl
  obtain ⟨encrypted, same, _⟩ := @teaDecrypt_teaEncrypt key.key data
  have answer : (teaEncrypt key.key data).1 = (stuffedData data).length := by
    rw [encrypted]
  rw [packetEncryptKey_tea valid packet some (by omega), answer, same,
    cryptHeader]

theorem overwrite_payload {old new : List Byte} (same : new.length = old.length) :
    Store.overwrite (low :: high :: version :: flags :: old) packetHdrSize new =
      low :: high :: version :: flags :: new := by
  have whole : Store.overwrite old 0 new = new := by
    rw [Store.overwrite_eq_append (by omega), Nat.zero_add, same,
      drop_length, append_nil]
    rfl
  change low :: high :: version :: flags :: Store.overwrite old 0 new = _
  rw [whole]

theorem packetDecrypt_eq (valid : key.valid = true) {cipher plain : List Byte}
    (counts : packLen (low :: high :: version :: flags :: cipher) =
      cipher.length + 4)
    (some : 0 < cipher.length) (fits : cipher.length ≤ cryptDataLimit)
    (decrypted : teaDecrypt key.key cipher = ((cipher.length : Int), plain))
    (same : plain.length = cipher.length) :
    TcpNode.packetDecrypt { node with crypt := teaNetCrypt key }
        (low :: high :: version :: flags :: cipher) =
      (let opened := low :: high :: version :: (flags &&& 0xfd) :: plain
       if isStuff opened then
         let last := (byteAt opened (cipher.length + 3)).toInt8.toInt
         if (stuffLen opened : Int) ≠ last then (0, opened)
         else if last < (cipher.length : Int) + 4 then
           ((cipher.length : Int) + 4 - last, opened)
         else (0, opened)
       else ((cipher.length : Int) + 4, opened)) := by
  have limit : cryptDataLimit = 65524 := rfl
  have header : packetHdrSize = 4 := rfl
  have size : packetSize = 65536 := rfl
  have unit : teaUnit = 8 := rfl
  have datalen : (packLen (low :: high :: version :: flags :: cipher) : Int) -
      packetHdrSize = cipher.length := by omega
  have whole : ((low :: high :: version :: flags :: cipher).drop
      packetHdrSize).take cipher.length = cipher := take_length
  have flagged : byteAt (low :: high :: version :: flags :: cipher) 3 = flags :=
    rfl
  have cleared : Store.overwrite (low :: high :: version :: flags :: plain) 3
      [flags &&& 0xfd] =
        low :: high :: version :: (flags &&& 0xfd) :: plain := by
    simp [Store.overwrite]
  have packed : packLen
      (low :: high :: version :: (flags &&& 0xfd) :: plain) =
        cipher.length + 4 := counts
  unfold TcpNode.packetDecrypt
  simp only [datalen, teaNetCrypt, valid, if_true, Int.toNat_natCast, whole,
    decrypted, flagged, overwrite_payload same, cleared, packed]
  rw [if_neg (by omega), if_neg (by omega)]
  push_cast
  rfl

theorem stuffedData_take (data : List Byte) :
    (stuffedData data).take data.length = data := by
  unfold stuffedData cryptStuff
  split
  · split
    · exact take_length
    · rw [append_assoc, take_left]
  · exact take_length

theorem stuffedData_last (data : List Byte)
    (stuffed : data.length < (stuffedData data).length) :
    ∃ front, stuffedData data = front ++
      [UInt8.ofNat ((stuffedData data).length - data.length)] := by
  have parts := Nat.div_add_mod' data.length teaUnit
  have rest : data.length % teaUnit < teaUnit := Nat.mod_lt _ (by decide)
  have next : (data.length / teaUnit + 1) * teaUnit =
      data.length / teaUnit * teaUnit + teaUnit := Nat.succ_mul _ _
  by_cases odd : data.length % teaUnit ≠ 0
  · have shape : stuffedData data =
        cryptStuff data ((data.length / teaUnit + 1) * teaUnit) := if_pos odd
    have length := @length_cryptStuff data
      ((data.length / teaUnit + 1) * teaUnit) (by omega)
    rw [shape, length]
    unfold cryptStuff
    rw [if_neg (by omega)]
    exact ⟨_, rfl⟩
  · have shape : stuffedData data = data := if_neg odd
    rw [shape] at stuffed
    exact absurd stuffed (Nat.lt_irrefl _)

theorem restored_iff (valid : key.valid = true)
    (packet : HostPacket (low :: high :: version :: flags :: data))
    (some : data ≠ [])
    (marked : isEncrypt (low' :: high' :: version' :: flags' :: cipher) = true)
    (counts : packLen (low' :: high' :: version' :: flags' :: cipher) =
      cipher.length + 4)
    (size : cipher.length = (stuffedData data).length)
    (fits : cipher.length ≤ cryptDataLimit)
    (decrypted : teaDecrypt key.key cipher =
      ((cipher.length : Int), stuffedData data)) :
    Restored { node with crypt := teaNetCrypt key }
        (low :: high :: version :: flags :: data)
        (low' :: high' :: version' :: flags' :: cipher) ↔
      (TcpNode.packetDecrypt { node with crypt := teaNetCrypt key }
        (low' :: high' :: version' :: flags' :: cipher)).1 =
          (data.length : Int) + 4 := by
  have limit : cryptDataLimit = 65524 := rfl
  have large : packetSize = 65536 := rfl
  have own := packet.counts
  simp only [length_cons] at own
  obtain ⟨_, longer, _⟩ := length_stuffedData data
  have positive : 0 < data.length := length_pos_iff.mpr some
  have shape : ∃ f, (TcpNode.packetDecrypt
      { node with crypt := teaNetCrypt key }
      (low' :: high' :: version' :: flags' :: cipher)).2 =
        low' :: high' :: version' :: f :: stuffedData data := by
    refine ⟨flags' &&& 0xfd, ?_⟩
    rw [packetDecrypt_eq node valid counts (by omega) fits decrypted size.symm]
    dsimp only
    split_ifs <;> rfl
  obtain ⟨f, memory⟩ := shape
  constructor
  · intro restored
    have result := restored.result
    unfold TcpNode.openPacket at result
    simp only [packetSwap_packetSwap, marked, if_true] at result
    split at result
    · omega
    · rw [result]
      simp only [length_cons]
      omega
  · intro answer
    have openResult : TcpNode.openPacket { node with crypt := teaNetCrypt key }
        (packetSwap (low' :: high' :: version' :: flags' :: cipher)) =
        ((data.length : Int) + 4,
          hostBytes (data.length + 4) ++ version' :: f :: stuffedData data,
          { node with crypt := teaNetCrypt key, isCryptPacket := true }) := by
      unfold TcpNode.openPacket
      simp only [packetSwap_packetSwap, marked, if_true, answer, memory]
      have number : (((data.length : Int) + 4) % 65536).toNat =
          data.length + 4 := by omega
      rw [number]
      rfl
    constructor
    case fits =>
      simp only [length_cons]
      omega
    case counts => exact counts
    case result =>
      rw [openResult]
      rfl
    case length =>
      rw [openResult, packLen_hostBytes (by omega), own]
    case data =>
      rw [openResult]
      change payload (hostBytes (data.length + 4) ++ version' :: f ::
        (stuffedData data).take data.length) = data
      rw [stuffedData_take]
      rfl

theorem not_restored_of_long
    (marked : isEncrypt (low' :: high' :: version' :: flags' :: cipher) = true)
    (counts : packLen (low' :: high' :: version' :: flags' :: cipher) =
      cipher.length + 4)
    (long : cryptDataLimit < cipher.length) (msg : List Byte) :
    ¬ Restored { node with crypt := teaNetCrypt key } msg
      (low' :: high' :: version' :: flags' :: cipher) := by
  intro restored
  have limit : cryptDataLimit = 65524 := rfl
  have size : packetSize = 65536 := rfl
  have unit : (teaNetCrypt key).unitLen = 8 := rfl
  have refused : TcpNode.packetDecrypt { node with crypt := teaNetCrypt key }
      (low' :: high' :: version' :: flags' :: cipher) =
        (0, low' :: high' :: version' :: flags' :: cipher) := by
    unfold TcpNode.packetDecrypt
    simp only [counts]
    rw [if_pos (by omega)]
  have result := restored.result
  unfold TcpNode.openPacket at result
  simp only [packetSwap_packetSwap, marked, if_true, refused] at result
  omega

theorem cryptHeader_cases (packet : HostPacket
      (low :: high :: version :: flags :: data))
    (fits : (stuffedData data).length + packetHdrSize < 65536)
    (size : cipher.length = (stuffedData data).length) :
    ∃ low' high' version' flags',
      cryptHeader low high version flags data ++ cipher =
        low' :: high' :: version' :: flags' :: cipher ∧
      isEncrypt (low' :: high' :: version' :: flags' :: cipher) = true ∧
      packLen (low' :: high' :: version' :: flags' :: cipher) =
        cipher.length + 4 ∧
      flags' = if data.length < (stuffedData data).length then
        ((flags ||| 2) &&& 3) ||| 4 |||
          UInt8.ofNat (8 * ((stuffedData data).length - data.length))
        else flags ||| 2 := by
  have header : packetHdrSize = 4 := rfl
  have own := packet.counts
  simp only [length_cons] at own
  obtain ⟨_, longer, _⟩ := length_stuffedData data
  unfold cryptHeader
  by_cases stuffed : data.length < (stuffedData data).length
  · rw [if_pos stuffed, if_pos stuffed]
    refine ⟨_, _, _, _, rfl, ?_, ?_, rfl⟩
    · exact decide_eq_true (encryptFlags flags _).2
    · change packLen (hostBytes ((stuffedData data).length + packetHdrSize) ++
        _) = _
      rw [packLen_hostBytes fits, size, header]
  · rw [if_neg stuffed, if_neg stuffed]
    refine ⟨low, high, version, flags ||| 2, rfl, ?_, ?_, rfl⟩
    · exact decide_eq_true (encryptFlags flags 0).1
    · change packLen (low :: high :: version :: flags :: data) = _
      omega

theorem packetDecrypt_stuffed (valid : key.valid = true) {pad : Nat}
    (few : pad < 32) (padded : (stuffedData data).length = data.length + pad)
    (stuffed : 0 < pad)
    (counts : packLen (low :: high :: version :: (((flags ||| 2) &&& 3) ||| 4 |||
      UInt8.ofNat (8 * pad)) :: cipher) = cipher.length + 4)
    (size : cipher.length = (stuffedData data).length)
    (fits : cipher.length ≤ cryptDataLimit)
    (decrypted : teaDecrypt key.key cipher =
      ((cipher.length : Int), stuffedData data)) :
    (TcpNode.packetDecrypt { node with crypt := teaNetCrypt key }
      (low :: high :: version :: (((flags ||| 2) &&& 3) ||| 4 |||
        UInt8.ofNat (8 * pad)) :: cipher)).1 = (data.length : Int) + 4 := by
  obtain ⟨stuff, length⟩ := stuffFlags_fields flags few
  obtain ⟨front, shape⟩ := stuffedData_last data (by omega)
  rw [show (stuffedData data).length - data.length = pad by omega] at shape
  have behind : front.length + 1 = cipher.length := by
    rw [size, shape, length_append, length_singleton]
  have last (a b c d : Byte) : byteAt (a :: b :: c :: d :: stuffedData data)
      (cipher.length + 3) = UInt8.ofNat pad := by
    rw [← behind, shape]
    change (front ++ [UInt8.ofNat pad]).getD front.length 0 = _
    rw [getD_eq_getElem?_getD, getElem?_append_right (Nat.le_refl _),
      Nat.sub_self]
    rfl
  have number : (UInt8.ofNat pad).toInt8.toInt = pad :=
    Int8.toInt_ofNat_of_lt (by omega)
  rw [packetDecrypt_eq node valid counts (by omega) fits decrypted size.symm]
  dsimp only
  rw [last, number]
  have isStuffed : isStuff (low :: high :: version ::
      ((((flags ||| 2) &&& 3) ||| 4 ||| UInt8.ofNat (8 * pad)) &&& 0xfd) ::
        stuffedData data) = true := decide_eq_true stuff
  have counted : stuffLen (low :: high :: version ::
      ((((flags ||| 2) &&& 3) ||| 4 ||| UInt8.ofNat (8 * pad)) &&& 0xfd) ::
        stuffedData data) = pad := length
  rw [isStuffed, counted, if_pos rfl, if_neg (not_not_intro rfl),
    if_pos (by omega)]
  change (cipher.length : Int) + 4 - pad = _
  omega

/-- The answer for one that fills whole blocks: a mark of stuffing that was
there before is believed. -/
theorem packetDecrypt_plain (valid : key.valid = true) (some : data ≠ [])
    (counts : packLen (low :: high :: version :: (flags ||| 2) :: cipher) =
      cipher.length + 4)
    (size : cipher.length = data.length)
    (fits : cipher.length ≤ cryptDataLimit)
    (decrypted : teaDecrypt key.key cipher = ((cipher.length : Int), data)) :
    (TcpNode.packetDecrypt { node with crypt := teaNetCrypt key }
        (low :: high :: version :: (flags ||| 2) :: cipher)).1 =
          (data.length : Int) + 4 ↔
      isStuff (low :: high :: version :: flags :: data) = false ∨
        (stuffLen (low :: high :: version :: flags :: data) = 0 ∧
          byteAt (low :: high :: version :: flags :: data)
            (data.length + 3) = 0) := by
  have positive : 0 < data.length := length_pos_iff.mpr some
  have fields := plainFlags_fields flags
  have stuff : isStuff (low :: high :: version ::
      ((flags ||| 2) &&& 0xfd) :: data) =
        isStuff (low :: high :: version :: flags :: data) := by
    change decide (((flags ||| 2) &&& 0xfd).toNat / 4 % 2 = 1) =
      decide (flags.toNat / 4 % 2 = 1)
    rw [fields]
  have length : stuffLen (low :: high :: version ::
      ((flags ||| 2) &&& 0xfd) :: data) =
        stuffLen (low :: high :: version :: flags :: data) := by
    change ((flags ||| 2) &&& 0xfd).toNat / 8 = flags.toNat / 8
    omega
  have last : byteAt (low :: high :: version ::
      ((flags ||| 2) &&& 0xfd) :: data) (cipher.length + 3) =
        byteAt (low :: high :: version :: flags :: data)
          (data.length + 3) := by
    obtain ⟨rest, more⟩ := Nat.exists_eq_succ_of_ne_zero
      (Nat.ne_of_gt positive)
    rw [size, more]
    rfl
  rw [packetDecrypt_eq node valid counts (by omega) fits decrypted size.symm]
  dsimp only
  rw [stuff, length, last]
  generalize byteAt (low :: high :: version :: flags :: data)
    (data.length + 3) = final
  have zero : final.toInt8.toInt = 0 ↔ final = 0 := by
    constructor
    · intro none
      have same := Int8.toInt.inj (none.trans (rfl : (0 : Int8).toInt = 0).symm)
      exact (congrArg Int8.toUInt8 same)
    · intro none
      rw [none]
      rfl
  rw [size]
  cases isStuff (low :: high :: version :: flags :: data) with
  | false => simp
  | true =>
    simp only [if_true, Bool.true_eq_false, false_or]
    constructor
    · intro answer
      split_ifs at answer
      · simp only at answer
        omega
      · rename_i equal _
        simp only at answer
        have none : final.toInt8.toInt = 0 := by omega
        refine ⟨?_, zero.mp none⟩
        rw [none] at equal
        exact Int.ofNat_eq_zero.mp (not_not.mp equal)
      · simp only at answer
        omega
    · rintro ⟨none, clear⟩
      rw [none, zero.mpr clear, if_neg (not_not_intro Int.natCast_zero),
        if_pos (by omega)]
      exact Int.sub_zero _

/-- Between the last whole block below the limit and the limit itself the
sender reports success and the receiver refuses. -/
theorem not_cryptRoundTrips_of_long (valid : key.valid = true)
    (packet : HostPacket (low :: high :: version :: flags :: data))
    (long : 65520 < data.length) (fits : data.length ≤ 65524) :
    (packetEncryptKey teaCrypt key
        (low :: high :: version :: flags :: data)).1 = 65528 ∧
      ¬ CryptRoundTrips node key (low :: high :: version :: flags :: data) := by
  have limit : cryptDataLimit = 65524 := rfl
  have header : packetHdrSize = 4 := rfl
  have some : data ≠ [] := length_pos_iff.mp (by omega)
  obtain ⟨multiple, longer, shorter⟩ := length_stuffedData data
  change (stuffedData data).length % 8 = 0 at multiple
  change (stuffedData data).length < data.length + 8 at shorter
  have length : (stuffedData data).length = 65528 := by omega
  obtain ⟨_, size, _⟩ := @teaDecrypt_teaEncrypt key.key data
  obtain ⟨low', high', version', flags', sent, marked, counts, _⟩ :=
    cryptHeader_cases packet (by omega) size
  have encrypted := packetEncryptKey_eq valid packet some
    (Nat.le_trans fits (Nat.le_of_eq limit.symm))
  rw [sent] at encrypted
  refine ⟨?_, ?_⟩
  · rw [encrypted, length]
    rfl
  · intro roundTrips
    have restored := roundTrips (by
      rw [encrypted, length]
      exact Int.natCast_ne_zero.mpr (by decide))
    rw [encrypted] at restored
    exact not_restored_of_long node marked counts (by omega) _ restored

/-- For which packets the decryption restores what the encryption has reported
to have encrypted. -/
theorem cryptRoundTrips_iff (node : TcpNode) (valid : key.valid = true)
    {msg : List Byte} (packet : HostPacket msg) :
    CryptRoundTrips node key msg ↔ Restorable msg := by
  have limit : cryptDataLimit = 65524 := rfl
  have header : packetHdrSize = 4 := rfl
  match msg, packet with
  | low :: high :: version :: flags :: data, packet =>
    have own := packet.counts
    simp only [length_cons] at own
    change CryptRoundTrips node key _ ↔ data.length = 0 ∨ 65524 < data.length ∨
      (data.length ≤ 65520 ∧ (data.length % 8 ≠ 0 ∨
        isStuff (low :: high :: version :: flags :: data) = false ∨
        (stuffLen (low :: high :: version :: flags :: data) = 0 ∧
          byteAt (low :: high :: version :: flags :: data)
            (data.length + 3) = 0)))
    by_cases skipped : data.length = 0 ∨ 65524 < data.length
    · refine iff_of_true ?_ (by omega)
      intro reported
      refine absurd ?_ reported
      unfold packetEncryptKey
      rw [own, if_pos (by
        have size : packetSize = 65536 := rfl
        have unit : teaCrypt.unitLen = 8 := rfl
        omega)]
    · obtain ⟨nonempty, short⟩ := not_or.mp skipped
      have some : data ≠ [] := fun none => nonempty (none ▸ rfl)
      obtain ⟨multiple, longer, shorter⟩ := length_stuffedData data
      change (stuffedData data).length % 8 = 0 at multiple
      change (stuffedData data).length < data.length + 8 at shorter
      obtain ⟨_, size, decrypted⟩ := @teaDecrypt_teaEncrypt key.key data
      obtain ⟨low', high', version', flags', sent, marked, counts, change⟩ :=
        cryptHeader_cases packet (by omega) size
      by_cases many : 65520 < data.length
      · refine iff_of_false (not_cryptRoundTrips_of_long node valid packet many
          (by omega)).2 ?_
        omega
      · have fits : (teaEncrypt key.key data).2.length ≤ cryptDataLimit := by
          omega
        unfold CryptRoundTrips
        rw [packetEncryptKey_eq valid packet some (by omega), sent,
          imp_iff_right (by
            change ((stuffedData data).length : Int) ≠ 0
            omega)]
        rw [← size] at decrypted
        rw [restored_iff node valid packet some marked counts size fits
          decrypted]
        by_cases odd : data.length % 8 ≠ 0
        · have stuffed : data.length < (stuffedData data).length := by omega
          rw [if_pos stuffed] at change
          subst change
          refine iff_of_true (packetDecrypt_stuffed node valid (by omega)
            (by omega) (by omega) counts size fits decrypted) ?_
          exact .inr (.inr ⟨by omega, .inl odd⟩)
        · have same : stuffedData data = data := if_neg odd
          rw [same] at change size decrypted
          rw [if_neg (Nat.lt_irrefl _)] at change
          subst change
          rw [or_iff_right nonempty, or_iff_right short,
            and_iff_right (show data.length ≤ 65520 by omega),
            or_iff_right odd]
          exact packetDecrypt_plain node valid some counts size fits decrypted

/-- Six bytes are stuffed to a block and come back. -/
theorem cryptRoundTrips_short :
    CryptRoundTrips (TcpNode.connectedNode []) ⟨16, List.replicate 16 1⟩
      [10, 0, 2, 0, 1, 2, 3, 4, 5, 6] :=
  (cryptRoundTrips_iff _ (by decide) ⟨by decide, by decide⟩).mpr (by decide)

theorem encrypted_refused_of_length (valid : key.valid = true)
    (length : data.length = 65521) :
    HostPacket (245 :: 255 :: 2 :: 0 :: data) ∧
      (packetEncryptKey teaCrypt key (245 :: 255 :: 2 :: 0 :: data)).1 = 65528 ∧
      ¬ CryptRoundTrips node key (245 :: 255 :: 2 :: 0 :: data) := by
  have packet : HostPacket (245 :: 255 :: 2 :: 0 :: data) := by
    have counts : packLen (245 :: 255 :: 2 :: 0 :: data) = 65525 := by
      simp [packLen, hostU16, byteAt]
    have header : packetHdrSize = 4 := rfl
    refine ⟨?_, ?_⟩
    · simp only [counts, length_cons, length]
    · simp only [length_cons]
      omega
  exact ⟨packet, not_cryptRoundTrips_of_long node valid packet (by omega)
    (by omega)⟩

/-- A payload of 65521 bytes is encrypted to 65528, which the receiver does not
accept. -/
theorem encrypted_refused :
    HostPacket (245 :: 255 :: 2 :: 0 :: List.replicate 65521 65) ∧
      (packetEncryptKey teaCrypt ⟨16, List.replicate 16 1⟩
        (245 :: 255 :: 2 :: 0 :: List.replicate 65521 65)).1 = 65528 ∧
      ¬ CryptRoundTrips (TcpNode.connectedNode []) ⟨16, List.replicate 16 1⟩
        (245 :: 255 :: 2 :: 0 :: List.replicate 65521 65) :=
  encrypted_refused_of_length _ (by decide) length_replicate

end Packets

end NdNet
