import NdNet.Net.TcpNode

/-!
# Encryption of packets

`nd_TEAencrypt` of `ndcrypt.c` over the block cipher of `tea.c`, and the way of
a packet through `nd_connector_send` of `nd_netui.c` up to the call of
`packet_write`.

The sender copies the packet, asks `nd_packet_encrypt_key` to encrypt the copy
and does not look at the answer.
-/

namespace NdNet

open List

def teaDelta : UInt32 := 0x9e3779b9

def teaRounds : Nat := 32

/-- `sizeof(tea_v)` -/
def teaUnit : Nat := 8

def hostU32 (memory : List Byte) (offset : Nat) : UInt32 :=
  UInt32.ofNat (hostU16 memory offset + 65536 * hostU16 memory (offset + 2))

def hostBytes32 (value : UInt32) : List Byte :=
  hostBytes value.toNat ++ hostBytes (value.toNat / 65536)

/-- The encrypting loop of `tean`.  As `DELTA` is odd, `sum` meets its limit
after just as many rounds as were asked for. -/
def tean (key : List Byte) : Nat → UInt32 → UInt32 → UInt32 → UInt32 × UInt32
  | 0, _, y, z => (y, z)
  | rounds + 1, sum, y, z =>
    let word (index : UInt32) := hostU32 key (4 * index.toNat)
    let y := y + (((z <<< 4) ^^^ (z >>> 5)) + (z ^^^ sum) + word (sum &&& 3))
    let sum := sum + teaDelta
    let z := z +
      (((y <<< 4) ^^^ (y >>> 5)) + (y ^^^ sum) + word ((sum >>> 11) &&& 3))
    tean key rounds sum y z

def teaEnc (key block : List Byte) : List Byte :=
  let out := tean key teaRounds 0 (hostU32 block 0) (hostU32 block 4)
  hostBytes32 out.1 ++ hostBytes32 out.2

/-- `crypt_stuff`: blanks, and in the last byte the number of bytes added. -/
def cryptStuff (data : List Byte) (stufflen : Nat) : List Byte :=
  if stufflen < 1 ∨ stufflen ≤ data.length then data
  else
    data ++ List.replicate (stufflen - data.length - 1) 0x20 ++
      [UInt8.ofNat (stufflen - data.length)]

/-- The loop of `nd_TEAencrypt` over the blocks of the data. -/
def teaBlocks (key : List Byte) : Nat → List Byte → List Byte
  | 0, data => data
  | count + 1, data =>
    teaEnc key (data.take teaUnit) ++ teaBlocks key count (data.drop teaUnit)

/-- `nd_TEAencrypt`: the new length and the data. -/
def teaEncrypt (key data : List Byte) : Int × List Byte :=
  if data.length % teaUnit ≠ 0 then
    let count := data.length / teaUnit + 1
    ((count * teaUnit : Nat),
      teaBlocks key count (cryptStuff data (count * teaUnit)))
  else
    (data.length, teaBlocks key (data.length / teaUnit) data)

/-- `nd_cryptkey` -/
structure CryptKey where
  size : Int
  key : List Byte
  deriving DecidableEq, Repr

/-- `is_valid_crypt` -/
def CryptKey.valid (key : CryptKey) : Bool :=
  0 < key.size

/-- What `nd_net_set_crypt` registered for sending. -/
structure NetEncrypt where
  unitLen : Nat
  encrypt : Option (List Byte → List Byte → Int × List Byte)

def teaCrypt : NetEncrypt :=
  { unitLen := teaUnit
    encrypt := some teaEncrypt }

def setFlags (msg : List Byte) (change : Byte → Byte) : List Byte :=
  Store.overwrite msg 3 [change (byteAt msg 3)]

/-- `hdr.encrypt = ...` -/
def setEncrypt (msg : List Byte) (on : Bool) : List Byte :=
  setFlags msg fun flags => if on then flags ||| 2 else flags &&& 0xfd

/-- `nd_packet_encrypt_key` on a packet in host order: the result and the
packet. -/
def packetEncryptKey (crypt : NetEncrypt) (key : CryptKey) (msg : List Byte) :
    Int × List Byte :=
  let datalen : Int := (packLen msg : Int) - packetHdrSize
  if datalen ≤ 0 ∨
      ((packetSize - packetHdrSize : Nat) : Int) - crypt.unitLen < datalen then
    (0, msg)
  else
    match crypt.encrypt with
    | none => (0, msg)
    | some encrypt =>
      if !key.valid then (0, msg)
      else
        let result :=
          encrypt key.key ((msg.drop packetHdrSize).take datalen.toNat)
        if result.1 = 0 then (0, msg.take packetHdrSize ++ result.2)
        else
          let marked :=
            setEncrypt (msg.take packetHdrSize ++ result.2) true
          if datalen < result.1 then
            let stuffed := (result.1 - datalen).toNat % 32
            (result.1,
              Store.overwrite
                (setFlags marked fun flags =>
                  (flags &&& 3) ||| 4 ||| UInt8.ofNat (8 * stuffed))
                0 (hostBytes (packLen marked + stuffed)))
          else (result.1, marked)

/-- The fields of a connection that `nd_connector_send` reads. -/
structure Connector where
  /-- `nd_connector_valid` -/
  valid : Bool
  /-- `nd_tryto_clear_err` cannot clear the error. -/
  errorStays : Bool
  saveSendStream : Bool
  cryptKey : CryptKey
  deriving DecidableEq, Repr

/-- What `nd_connector_send` does with a packet. -/
structure SendOutcome where
  /-- The bytes handed to `packet_write`, if it is called. -/
  handed : Option (List Byte)
  result : Int
  /-- The buffer of the caller afterwards. -/
  buffer : List Byte

/-- `nd_connector_send` for a packet in host order; `encrypt` is the flag
`ESF_ENCRYPT` and `write` the result of `packet_write`. -/
def Connector.send (conn : Connector) (crypt : NetEncrypt)
    (write : List Byte → Int) (msg : List Byte) (encrypt : Bool) :
    SendOutcome :=
  if !conn.valid || conn.errorStays then
    { handed := none
      result := -1
      buffer := msg }
  else
    let saved :=
      if !ndsysMsg msg && conn.saveSendStream && encrypt then
        setEncrypt (setEncrypt msg true) false
      else msg
    let versioned := Store.overwrite saved 2 [ndnetmsgVersion]
    let sent :=
      if encrypt && !isEncrypt versioned then
        packetSwap (packetEncryptKey crypt conn.cryptKey
          (versioned.take (packLen versioned))).2
      else packetSwap versioned
    { handed := some sent
      result := write sent
      buffer := versioned }

def payload (packet : List Byte) : List Byte :=
  packet.drop packetHdrSize

/-- A packet in host order whose length field counts its bytes. -/
structure HostPacket (msg : List Byte) : Prop where
  counts : packLen msg = msg.length
  header : packetHdrSize ≤ msg.length

/-- The call fails, or the packet handed on is marked as encrypted and carries
the encrypted payload.  A packet that was marked before carries a payload its
sender has encrypted already. -/
def SendsEncrypted (key : CryptKey) (msg : List Byte) (outcome : SendOutcome) :
    Prop :=
  (outcome.handed = none ∧ outcome.result = -1) ∨
    ∃ bytes, outcome.handed = some bytes ∧ isEncrypt bytes = true ∧
      getPackSize bytes = bytes.length ∧
      (payload bytes = (teaEncrypt key.key (payload msg)).2 ∨
        (isEncrypt msg = true ∧ payload bytes = payload msg))

variable {data : List Byte}

section Tea

@[simp] theorem length_teaEnc (key block : List Byte) :
    (teaEnc key block).length = teaUnit :=
  rfl

theorem length_teaBlocks (key : List Byte) {count : Nat}
    (whole : data.length = count * teaUnit) :
    (teaBlocks key count data).length = data.length := by
  induction count generalizing data with
  | zero => rfl
  | succ count induction =>
    have rest : (data.drop teaUnit).length = count * teaUnit := by
      rw [length_drop, whole, Nat.succ_mul, Nat.add_sub_cancel]
    rw [teaBlocks, length_append, length_teaEnc, induction rest, rest,
      whole, Nat.succ_mul, Nat.add_comm]

theorem length_cryptStuff {data : List Byte} {stufflen : Nat}
    (longer : data.length < stufflen) :
    (cryptStuff data stufflen).length = stufflen := by
  unfold cryptStuff
  rw [if_neg (by omega), length_append, length_append,
    length_replicate, length_singleton]
  omega

/-- `nd_TEAencrypt` fills the data up to whole blocks and never answers 0 for
data. -/
theorem teaEncrypt_spec (key data : List Byte) :
    (teaEncrypt key data).1 = (teaEncrypt key data).2.length ∧
      data.length ≤ (teaEncrypt key data).2.length ∧
      (teaEncrypt key data).2.length < data.length + teaUnit := by
  have parts := Nat.div_add_mod' data.length teaUnit
  have next : (data.length / teaUnit + 1) * teaUnit =
      data.length / teaUnit * teaUnit + teaUnit := Nat.succ_mul _ _
  have rest : data.length % teaUnit < teaUnit := Nat.mod_lt _ (by decide)
  unfold teaEncrypt
  split
  · rename_i odd
    have stuffed : (cryptStuff data ((data.length / teaUnit + 1) * teaUnit)
        ).length = (data.length / teaUnit + 1) * teaUnit :=
      length_cryptStuff (by omega)
    simp only [length_teaBlocks key stuffed, stuffed, true_and]
    omega
  · rename_i even
    have whole : data.length = data.length / teaUnit * teaUnit := by omega
    simp only [length_teaBlocks key whole, true_and]
    omega

end Tea

variable {msg : List Byte}

section Sending

variable {key : CryptKey}

theorem encryptFlags (flags stuffing : Byte) :
    (flags ||| 2).toNat / 2 % 2 = 1 ∧
      (((flags ||| 2) &&& 3) ||| 4 ||| stuffing).toNat / 2 % 2 = 1 := by
  have bit : ∀ value : Byte,
      value.toNat / 2 % 2 = 1 ↔ value.toNat.testBit 1 = true := by
    intro value
    rw [Nat.testBit_eq_decide_div_mod_eq, decide_eq_true_iff]
  rw [bit, bit]
  have two : Nat.testBit 2 1 = true := rfl
  have three : Nat.testBit 3 1 = true := rfl
  simp [UInt8.toNat_or, UInt8.toNat_and, Nat.testBit_or, Nat.testBit_and, two,
    three]

theorem setFlags_header (low high version flags : Byte) (data : List Byte)
    (change : Byte → Byte) :
    setFlags (low :: high :: version :: flags :: data) change =
      low :: high :: version :: change flags :: data := by
  simp [setFlags, Store.overwrite, byteAt]

theorem overwrite_length (low high version flags : Byte) (data : List Byte)
    (value : Nat) :
    Store.overwrite (low :: high :: version :: flags :: data) 0
        (hostBytes value) =
      hostBytes value ++ version :: flags :: data :=
  rfl

theorem getPackSize_packetSwap (msg : List Byte) (header : 2 ≤ msg.length) :
    getPackSize (packetSwap msg) = packLen msg := by
  rw [← packLen_packetSwap _ ((length_packetSwap msg).symm ▸ header),
    packetSwap_packetSwap]

theorem packLen_hostBytes {value : Nat} (small : value < 65536)
    (rest : List Byte) : packLen (hostBytes value ++ rest) = value := by
  rw [packLen, hostU16_hostBytes_mod, Nat.mod_eq_of_lt small]

/-- `nd_packet_encrypt_key` on a packet that is neither empty nor too large for
one more block.  The length and the flags are written again where the data was
filled up. -/
theorem packetEncryptKey_tea {low high version flags : Byte}
    (valid : key.valid = true)
    (packet : HostPacket (low :: high :: version :: flags :: data))
    (some : data ≠ [])
    (fits : data.length + packetHdrSize ≤ packetSize - teaUnit) :
    packetEncryptKey teaCrypt key (low :: high :: version :: flags :: data) =
      ((teaEncrypt key.key data).1,
        (if data.length < (teaEncrypt key.key data).2.length then
          hostBytes ((teaEncrypt key.key data).2.length + packetHdrSize) ++
            [version, ((flags ||| 2) &&& 3) ||| 4 |||
              UInt8.ofNat
                (8 * ((teaEncrypt key.key data).2.length - data.length))]
        else [low, high, version, flags ||| 2]) ++
          (teaEncrypt key.key data).2) := by
  have header : packetHdrSize = 4 := rfl
  have unit : teaUnit = 8 := rfl
  have positive : 0 < data.length := length_pos_iff.mpr some
  have counts := packet.counts
  simp only [length_cons] at counts
  have datalen : (packLen (low :: high :: version :: flags :: data) : Int) -
      packetHdrSize = data.length := by omega
  obtain ⟨same, longer, shorter⟩ := teaEncrypt_spec key.key data
  have whole : ((low :: high :: version :: flags :: data).drop
      packetHdrSize).take data.length = data := take_length
  have front : (low :: high :: version :: flags :: data).take
      packetHdrSize ++ (teaEncrypt key.key data).2 =
        low :: high :: version :: flags :: (teaEncrypt key.key data).2 := rfl
  have old : packLen (low :: high :: version :: (flags ||| 2) ::
      (teaEncrypt key.key data).2) = data.length + 4 := counts
  unfold packetEncryptKey
  simp only [datalen, teaCrypt]
  rw [if_neg (by omega)]
  simp only [valid, Bool.not_true, Bool.false_eq_true, if_false,
    Int.toNat_natCast, whole]
  rw [if_neg (by omega), front, setEncrypt, setFlags_header]
  simp only [if_true]
  by_cases stuffed : data.length < (teaEncrypt key.key data).2.length
  · have pad : ((teaEncrypt key.key data).1 - (data.length : Int)).toNat % 32 =
        (teaEncrypt key.key data).2.length - data.length := by omega
    have total : data.length + 4 +
        ((teaEncrypt key.key data).2.length - data.length) =
          (teaEncrypt key.key data).2.length + packetHdrSize := by omega
    rw [if_pos (by omega), if_pos stuffed, pad, old, total, setFlags_header,
      overwrite_length, append_assoc]
    rfl
  · rw [if_neg (by omega), if_neg stuffed]
    rfl

theorem packetEncryptKey_encrypts (valid : key.valid = true)
    (packet : HostPacket msg) (some : packetHdrSize < msg.length)
    (fits : msg.length ≤ packetSize - teaUnit) :
    ∃ bytes, packetSwap (packetEncryptKey teaCrypt key msg).2 = bytes ∧
      isEncrypt bytes = true ∧ getPackSize bytes = bytes.length ∧
      payload bytes = (teaEncrypt key.key (payload msg)).2 := by
  have header : packetHdrSize = 4 := rfl
  have size : packetSize = 65536 := rfl
  match msg, packet, some, fits with
  | low :: high :: version :: flags :: data, packet, some, fits =>
    have counts := packet.counts
    simp only [length_cons] at some fits counts
    obtain ⟨_, longer, shorter⟩ := teaEncrypt_spec key.key data
    refine ⟨_, rfl, ?_⟩
    rw [packetEncryptKey_tea valid packet (length_pos_iff.mp (by omega))
      (by omega)]
    split
    · refine ⟨decide_eq_true (encryptFlags flags _).2, ?_, rfl⟩
      rw [getPackSize_packetSwap _ (by simp), append_assoc,
        packLen_hostBytes (by omega), length_packetSwap]
      simp only [length_append, hostBytes, length_cons, length_nil]
      omega
    · refine ⟨decide_eq_true (encryptFlags flags 0).1, ?_, rfl⟩
      rw [getPackSize_packetSwap _ (by simp), length_packetSwap]
      refine Eq.trans (show _ = data.length + 4 from counts) ?_
      simp only [length_append, length_cons, length_nil]
      omega

theorem packetEncryptKey_skips {crypt : NetEncrypt}
    (counts : packLen msg = msg.length)
    (skipped : msg.length ≤ packetHdrSize ∨
      packetSize - crypt.unitLen < msg.length) :
    (packetEncryptKey crypt key msg).2 = msg := by
  unfold packetEncryptKey
  rw [if_pos (by omega)]

theorem payload_packetSwap (msg : List Byte) :
    payload (packetSwap msg) = payload msg := by
  unfold payload packetSwap
  split <;> rfl

theorem prepared_facts (packet : HostPacket msg) (change : Byte → Byte) :
    HostPacket (Store.overwrite (setFlags msg change) 2 [ndnetmsgVersion]) ∧
      (Store.overwrite (setFlags msg change) 2 [ndnetmsgVersion]).length =
        msg.length ∧
      payload (Store.overwrite (setFlags msg change) 2 [ndnetmsgVersion]) =
        payload msg ∧
      byteAt (Store.overwrite (setFlags msg change) 2 [ndnetmsgVersion]) 3 =
        change (byteAt msg 3) := by
  obtain ⟨counts, header⟩ := packet
  match msg, counts, header with
  | low :: high :: version :: flags :: data, counts, header =>
    have shape : Store.overwrite (setFlags
        (low :: high :: version :: flags :: data) change) 2
          [ndnetmsgVersion] =
        low :: high :: ndnetmsgVersion :: change flags :: data := by
      rw [setFlags_header]
      simp [Store.overwrite]
    rw [shape]
    exact ⟨⟨counts, header⟩, rfl, rfl, rfl⟩

theorem Connector.send_result {conn : Connector} {crypt : NetEncrypt}
    {write : List Byte → Int} {msg bytes : List Byte} {encrypt : Bool}
    (handed : (conn.send crypt write msg encrypt).handed = some bytes) :
    (conn.send crypt write msg encrypt).result = write bytes := by
  unfold Connector.send at handed ⊢
  split at handed
  · exact absurd handed.symm (Option.some_ne_none bytes)
  · rename_i alive
    rw [if_neg alive]
    exact congrArg write (Option.some.inj handed)

/-- `TcpNode.connectorSend` hands on the packet that `nd_connector_send` makes
without `ESF_ENCRYPT`. -/
theorem connectorSend_eq_send (node : TcpNode) (msg : List Byte)
    (flag : SendFlag) (crypt : NetEncrypt) (write : List Byte → Int)
    (save : Bool) (key : CryptKey) :
    node.connectorSend msg flag =
      match (Connector.send
        ⟨node.connectorValid, node.trytoClearErr.1, save, key⟩ crypt write msg
          false).handed with
      | none =>
        (-1, if node.connectorValid then node.trytoClearErr.2 else node)
      | some bytes =>
        if node.checkedWrite then
          node.trytoClearErr.2.tcpConnectorSend bytes flag
        else node.trytoClearErr.2.send bytes flag := by
  unfold TcpNode.connectorSend Connector.send
  cases valid : node.connectorValid with
  | false => rfl
  | true =>
    cases stays : node.trytoClearErr.1 with
    | true => simp only [Bool.not_true, Bool.false_eq_true, if_false,
        stays, if_true, Bool.or_true]
    | false =>
      simp only [stays, Bool.not_true, Bool.false_or, Bool.false_eq_true, if_false,
        Bool.and_false, Bool.false_and]

theorem prepared_spec (packet : HostPacket msg) (cleared : Bool) :
    ∃ versioned,
      Store.overwrite
        (if cleared then setEncrypt (setEncrypt msg true) false else msg) 2
          [ndnetmsgVersion] = versioned ∧
      HostPacket versioned ∧ versioned.length = msg.length ∧
      payload versioned = payload msg ∧
      isEncrypt versioned = (isEncrypt msg && !cleared) := by
  have header := packet.header
  refine ⟨_, rfl, ?_⟩
  cases cleared with
  | true =>
    have once : setEncrypt (setEncrypt msg true) false =
        setFlags msg fun flags => (flags ||| 2) &&& 0xfd := by
      match msg, header with
      | low :: high :: version :: flags :: data, _ =>
        unfold setEncrypt
        rw [setFlags_header, setFlags_header, setFlags_header]
        rfl
    obtain ⟨host, length, data, flags⟩ := prepared_facts packet
      fun flags => (flags ||| 2) &&& 0xfd
    rw [if_pos rfl, once]
    refine ⟨host, length, data, ?_⟩
    rw [isEncrypt, flags, Bool.not_true, Bool.and_false, decide_eq_false_iff_not]
    have bit := Nat.testBit_eq_decide_div_mod_eq
      (x := (((byteAt msg 3) ||| 2) &&& 0xfd).toNat) (i := 1)
    have clear : (((byteAt msg 3) ||| 2) &&& 0xfd).toNat.testBit 1 = false := by
      have gone : Nat.testBit 253 1 = false := rfl
      simp [UInt8.toNat_and, Nat.testBit_and, gone]
    rw [clear] at bit
    exact of_decide_eq_false bit.symm
  | false =>
    have same : msg = setFlags msg id := by
      match msg, header with
      | low :: high :: version :: flags :: data, _ =>
        rw [setFlags_header]
        rfl
    obtain ⟨host, length, data, flags⟩ := prepared_facts packet id
    rw [← same] at host length data flags
    rw [if_neg Bool.false_ne_true]
    refine ⟨host, length, data, ?_⟩
    rw [isEncrypt, flags, Bool.not_false, Bool.and_true]
    rfl

/-- With `ESF_ENCRYPT`, either nothing is sent or an encrypted packet is handed
to `packet_write`, exactly if the connection cannot send at all, or the packet
comes encrypted and keeps its mark, or it has a payload and is at least one
block shorter than the largest packet. -/
theorem connectorSend_encrypted_iff (conn : Connector)
    (write : List Byte → Int) {msg : List Byte} (packet : HostPacket msg)
    (valid : conn.cryptKey.valid = true) :
    SendsEncrypted conn.cryptKey msg (conn.send teaCrypt write msg true) ↔
      (conn.valid = false ∨ conn.errorStays = true) ∨
        (isEncrypt msg = true ∧
          (ndsysMsg msg = true ∨ conn.saveSendStream = false)) ∨
        (packetHdrSize < msg.length ∧ msg.length ≤ packetSize - teaUnit) := by
  unfold Connector.send
  by_cases dead : conn.valid = false ∨ conn.errorStays = true
  · rw [if_pos (by rcases dead with invalid | stays <;> simp [*])]
    exact iff_of_true (.inl ⟨rfl, rfl⟩) (.inl dead)
  have alive : (!conn.valid || conn.errorStays) = false := by
    simpa using dead
  rw [if_neg (by simp [alive]), or_iff_right dead]
  have clears : (isEncrypt msg = true ∧
      (ndsysMsg msg = true ∨ conn.saveSendStream = false)) ↔
      (isEncrypt msg && !(!ndsysMsg msg && conn.saveSendStream)) = true := by
    cases isEncrypt msg <;> cases ndsysMsg msg <;>
      cases conn.saveSendStream <;> simp
  rw [clears]
  obtain ⟨versioned, prepared, host, length, data, mark⟩ :=
    prepared_spec packet (!ndsysMsg msg && conn.saveSendStream)
  simp only [Bool.and_true, prepared, Bool.true_and]
  rw [← mark]
  by_cases marked : isEncrypt versioned = true
  · -- The packet goes on as it came.
    rw [if_neg (by simp [marked])]
    refine iff_of_true (.inr ⟨_, rfl, ?_, ?_, .inr ⟨?_, ?_⟩⟩) (.inl marked)
    · rw [isEncrypt_packetSwap]
      exact marked
    · have two := Nat.le_trans (show 2 ≤ packetHdrSize by decide) host.header
      rw [getPackSize_packetSwap _ two, length_packetSwap]
      exact host.counts
    · rw [mark] at marked
      exact (Bool.and_eq_true_iff.mp marked).1
    · rw [payload_packetSwap]
      exact data
  · rw [if_pos (by simp [marked]), or_iff_right marked, host.counts,
      take_length, ← length]
    constructor
    · rintro (⟨nothing, _⟩ | ⟨bytes, handed, bit, _⟩)
      · exact absurd nothing (Option.some_ne_none _)
      · -- A packet that came back as it was is not marked.
        by_contra outside
        rw [packetEncryptKey_skips host.counts (by
          change _ ∨ packetSize - teaUnit < _
          omega)] at handed
        rw [← Option.some.inj handed, isEncrypt_packetSwap] at bit
        exact marked bit
    · rintro ⟨some, fits⟩
      obtain ⟨bytes, sent, bit, framed, cipher⟩ :=
        packetEncryptKey_encrypts valid host some fits
      rw [data] at cipher
      exact .inr ⟨bytes, congrArg _ sent, bit, framed, .inl cipher⟩

/-- A packet whose payload has six bytes. -/
theorem connectorSend_encrypted_iff_short :
    HostPacket [10, 0, 0, 0, 1, 2, 3, 4, 5, 6] ∧
      SendsEncrypted ⟨16, List.replicate 16 1⟩ [10, 0, 0, 0, 1, 2, 3, 4, 5, 6]
        (Connector.send ⟨true, false, false, ⟨16, List.replicate 16 1⟩⟩ teaCrypt
          (fun bytes => bytes.length) [10, 0, 0, 0, 1, 2, 3, 4, 5, 6] true) :=
  ⟨⟨by decide, by decide⟩,
    (connectorSend_encrypted_iff ⟨true, false, false, ⟨16, replicate 16 1⟩⟩
      (fun bytes => bytes.length) ⟨by decide, by decide⟩ (by decide)).mpr
        (.inr (.inr ⟨by decide, by decide⟩))⟩

theorem isEncrypt_plain (data : List Byte) :
    isEncrypt (255 :: 255 :: 2 :: 0 :: data) = false := by
  simp [isEncrypt, byteAt]

theorem connectorSend_largest {conn : Connector}
    (alive : (!conn.valid || conn.errorStays) = false)
    (unsaved : conn.saveSendStream = false) (long : data.length = 65531) :
    (conn.send teaCrypt (fun bytes => getPackSize bytes)
        (255 :: 255 :: 2 :: 0 :: data) true).handed =
      some (255 :: 255 :: 2 :: 0 :: data) ∧
    (conn.send teaCrypt (fun bytes => getPackSize bytes)
        (255 :: 255 :: 2 :: 0 :: data) true).result = 65535 ∧
    ¬ SendsEncrypted conn.cryptKey (255 :: 255 :: 2 :: 0 :: data)
      (conn.send teaCrypt (fun bytes => getPackSize bytes)
        (255 :: 255 :: 2 :: 0 :: data) true) := by
  have length : (255 :: 255 :: 2 :: 0 :: data).length = 65535 := by
    rw [length_cons, length_cons, length_cons, length_cons, long]
  have counts : packLen (255 :: 255 :: 2 :: 0 :: data) = 65535 := by
    simp [packLen, hostU16, byteAt]
  have plain : (packetEncryptKey teaCrypt conn.cryptKey
      (255 :: 255 :: 2 :: 0 :: data)).2 = 255 :: 255 :: 2 :: 0 :: data :=
    packetEncryptKey_skips (counts.trans length.symm)
      (.inr (length.symm ▸ by decide))
  have versioned : Store.overwrite (255 :: 255 :: 2 :: 0 :: data) 2
      [ndnetmsgVersion] = 255 :: 255 :: 2 :: 0 :: data := rfl
  have handed : (conn.send teaCrypt (fun bytes => getPackSize bytes)
      (255 :: 255 :: 2 :: 0 :: data) true).handed =
        some (255 :: 255 :: 2 :: 0 :: data) := by
    unfold Connector.send
    rw [if_neg (by simp [alive])]
    simp only [unsaved, Bool.and_false, Bool.false_eq_true, if_false, versioned,
      isEncrypt_plain, Bool.not_false, Bool.and_true, if_true, counts]
    rw [take_of_length_le (Nat.le_of_eq length), plain]
    rfl
  refine ⟨handed, ?_, ?_⟩
  · rw [Connector.send_result handed]
    simp [getPackSize, byteAt]
  · rintro (⟨nothing, _⟩ | ⟨bytes, some, bit, _⟩)
    · rw [handed] at nothing
      exact absurd nothing (Option.some_ne_none _)
    · rw [handed] at some
      rw [← Option.some.inj some, isEncrypt_plain] at bit
      exact absurd bit Bool.false_ne_true

/-- A packet of the largest size goes out in plain text, and the call
succeeds. -/
theorem connectorSend_plain :
    (Connector.send ⟨true, false, false, ⟨16, List.replicate 16 1⟩⟩ teaCrypt
        (fun bytes => getPackSize bytes)
        (255 :: 255 :: 2 :: 0 :: List.replicate 65531 65) true).handed =
      some (255 :: 255 :: 2 :: 0 :: List.replicate 65531 65) ∧
    (Connector.send ⟨true, false, false, ⟨16, List.replicate 16 1⟩⟩ teaCrypt
        (fun bytes => getPackSize bytes)
        (255 :: 255 :: 2 :: 0 :: List.replicate 65531 65) true).result = 65535 ∧
    ¬ SendsEncrypted ⟨16, List.replicate 16 1⟩
      (255 :: 255 :: 2 :: 0 :: List.replicate 65531 65)
      (Connector.send ⟨true, false, false, ⟨16, List.replicate 16 1⟩⟩ teaCrypt
        (fun bytes => getPackSize bytes)
        (255 :: 255 :: 2 :: 0 :: List.replicate 65531 65) true) :=
  connectorSend_largest rfl rfl length_replicate

end Sending

end NdNet
