import NdNet.App.ProtoPeek

/-!
# Addresses in a message

`ReadIp` reads the marker and then the bytes of the address with `ReadStream`,
which returns -1 as a `size_t` if there are too few.  This is more than 0, so
`ReadIp` returns 0 as soon as it has found the marker.
-/

namespace NdNet

def familyMarker (inet : Bool) : StreamMarker :=
  if inet then .ip else .ip6

def familySize (inet : Bool) : Nat :=
  if inet then 4 else 16

namespace ReadCursor

variable {cursor : ReadCursor}

def ahead (cursor : ReadCursor) : NextThing × Bool × List Byte :=
  nextThing cursor.skipEndAllStream cursor.skipEndMarker cursor.stream.left

/-- If `ReadIp` returns 0, there was a complete address and it has been taken,
and nothing else. -/
def ReportsAddress (cursor : ReadCursor) : Prop :=
  cursor.readIp.1 = 0 →
    ∃ inet size data rest,
      cursor.ahead.1 = .field (familyMarker inet).code size ∧
      cursor.ahead.2.2 = data ++ rest ∧ data.length = familySize inet ∧
      cursor.readIp.2.1 = some (inet, data) ∧ cursor.readIp.2.2.At rest

def AddressWhole (cursor : ReadCursor) : Prop :=
  ∀ inet size, cursor.ahead.1 = .field (familyMarker inet).code size →
    familySize inet ≤ cursor.ahead.2.2.length

theorem readIp_marker {inet : Bool} {size : Nat} {after : ReadCursor}
    (read : cursor.readTypeSize = (0, (familyMarker inet).code, size, after))
    (unstruck : after.struckEndMarker = false) :
    cursor.readIp =
      if 0 < (after.readStream (UInt64.ofNat (familySize inet))).1 then
        (0, some (inet,
            (after.readStream (UInt64.ofNat (familySize inet))).2.1),
          (after.readStream (UInt64.ofNat (familySize inet))).2.2)
      else (-1, none,
        (after.readStream (UInt64.ofNat (familySize inet))).2.2) := by
  rw [readIp, read]
  dsimp only
  rw [unstruck, if_neg (by decide)]
  cases inet with
  | true | false =>
    rfl

theorem readIp_other (start : cursor.pos ≤ cursor.size)
    (other : ∀ inet size,
      cursor.ahead.1 ≠ .field (familyMarker inet).code size) :
    cursor.readIp.1 = -1 := by
  obtain ⟨after, read, reached⟩ := readTypeSize_eq ⟨rfl, start⟩ rfl
  change cursor.readTypeSize = (cursor.ahead.1.ret, cursor.ahead.1.type,
    cursor.ahead.1.size, after) at read
  have struck := reached.struckEndMarker
  change after.struckEndMarker = cursor.ahead.1.struck at struck
  rw [readIp, read]
  dsimp only
  rw [struck]
  revert other
  cases cursor.ahead.1 with
  | nothing | endMark => exact fun _ => rfl
  | field type size =>
    intro other
    have fine : ¬ ((NextThing.field type size).ret = -1 ∨
        (NextThing.field type size).struck = true) := by
      simp [NextThing.ret, NextThing.struck]
    have inet : (NextThing.field type size).type ≠ StreamMarker.ip.code :=
      fun same => other true size (congrArg (NextThing.field · size) same)
    have inet6 : (NextThing.field type size).type ≠ StreamMarker.ip6.code :=
      fun same => other false size (congrArg (NextThing.field · size) same)
    rw [if_neg fine, if_neg inet, if_neg inet6]

theorem familySize_pos (inet : Bool) : 0 < familySize inet := by
  cases inet <;> decide

theorem familySize_toNat (inet : Bool) :
    (UInt64.ofNat (familySize inet)).toNat = familySize inet := by
  cases inet <;> decide

/-- In a message `ReadIp` reports what is there exactly if an address that has
begun is there as a whole. -/
theorem reportsAddress_iff (start : cursor.pos ≤ cursor.size)
    (short : cursor.size < 2147483648) :
    cursor.ReportsAddress ↔ cursor.AddressWhole := by
  by_cases marked : ∃ inet size,
      cursor.ahead.1 = .field (familyMarker inet).code size
  · obtain ⟨inet, size, field⟩ := marked
    obtain ⟨after, read, reached⟩ := readTypeSize_eq ⟨rfl, start⟩ rfl
    change cursor.readTypeSize = (cursor.ahead.1.ret, cursor.ahead.1.type,
      cursor.ahead.1.size, after) at read
    have struck := reached.struckEndMarker
    have here := reached.here
    have length := reached.size
    change after.struckEndMarker = cursor.ahead.1.struck at struck
    change after.At cursor.ahead.2.2 at here
    rw [field] at read struck
    have result := readIp_marker read struck
    have family : ∀ other others,
        cursor.ahead.1 = .field (familyMarker other).code others →
          other = inet := by
      intro other others same
      rw [field] at same
      have code := (NextThing.field.inj same).1
      cases inet <;> cases other <;> first | rfl | exact absurd code (by decide)
    constructor
    · intro reports other others same
      rw [family other others same]
      by_contra cut
      have fails : after.readStream (UInt64.ofNat (familySize inet)) =
          (sizeT (-1), [], after) := by
        have left := here.size
        rw [readStream, familySize_toNat,
          leftData_eq here.inside (by rw [length]; exact short),
          sizeT_of_lt (by omega), if_pos (by omega)]
      rw [fails, if_pos (show 0 < sizeT (-1) by decide)] at result
      obtain ⟨_, -, data, rest, -, -, count, found, -⟩ :=
        reports (by rw [result])
      rw [result] at found
      obtain ⟨rfl, rfl⟩ := Prod.mk.inj (Option.some.inj found)
      exact absurd count (Nat.ne_of_lt (familySize_pos _))
    · intro whole _
      have enough := whole inet size field
      have split := (List.take_append_drop (familySize inet)
        cursor.ahead.2.2).symm
      have count : (cursor.ahead.2.2.take (familySize inet)).length =
          familySize inet := by
        rw [List.length_take]
        omega
      rw [split] at here
      obtain ⟨beyond, taken, past⟩ := readStream_at here
        (by rw [length]; exact short) ((familySize_toNat inet).trans count.symm)
      rw [taken, count, if_pos (familySize_pos inet)] at result
      refine ⟨inet, size, _, _, field, split, count, ?_, ?_⟩
      · rw [result]
      · rw [result]
        exact past.at
  · have none := readIp_other start fun inet size same =>
      marked ⟨inet, size, same⟩
    constructor
    · exact fun _ inet size same => absurd ⟨inet, size, same⟩ marked
    · intro _ zero
      rw [none] at zero
      exact absurd zero (by decide)

end ReadCursor

/-- An address is read back as it was written and nothing else is taken.  In a
message, whose length has 16 bits, `ReadIp` returns 0 for complete addresses
only, exactly if no marker of an address has too few bytes behind it. -/
theorem readIp_iff {cursor : ReadCursor} (start : cursor.pos ≤ cursor.size)
    (message : cursor.size < 65536) :
    (∀ (stream : ProtoWriteStream) (a : NdIp), (stream.writeIp a).1 ≠ -1 →
      ∃ bytes, (stream.writeIp a).2.bytes = stream.bytes ++ bytes ∧
        ∀ rest, cursor.At (bytes ++ rest) →
          ∃ after, cursor.readIp = (0, some (a.inet, a.address), after) ∧
            after.At rest) ∧
      (cursor.ReportsAddress ↔ cursor.AddressWhole) := by
  have short : cursor.size < 2147483648 := Nat.lt_trans message (by decide)
  refine ⟨fun stream a written => ?_, ReadCursor.reportsAddress_iff start short⟩
  have whole := @ProtoWriteStream.perform_eq stream (.ip a)
  change stream.writeIp a = _ at whole
  refine ⟨(WriteCall.ip a).encode, ?_, ?_⟩
  · rw [whole] at written ⊢
    split_ifs at written ⊢
    · rfl
    · exact absurd rfl written
    · exact absurd rfl written
  · intro rest here
    obtain ⟨after, read, past⟩ := ReadCursor.readIp_at here short
    exact ⟨after, read, past.at⟩

/-- An address of the newer family with a byte behind it. -/
theorem readIp_whole :
    (∃ after, (ReadCursor.ofBytes
        ([0xaf] ++ List.replicate 16 1 ++ [0x10])).readIp =
      (0, some (false, List.replicate 16 1), after) ∧ after.At [0x10]) ∧
    (ReadCursor.ofBytes [0x94, 1, 2, 3, 4]).ReportsAddress := by
  constructor
  · obtain ⟨reads, -⟩ := @readIp_iff (ReadCursor.ofBytes
      ([0xaf] ++ List.replicate 16 1 ++ [0x10])) (by decide) (by decide)
    obtain ⟨bytes, written, read⟩ :=
      reads ⟨64, []⟩ ⟨false, List.replicate 16 1, by decide⟩ (by decide)
    have same : bytes = [0xaf] ++ List.replicate 16 1 := by
      exact written.symm.trans (by decide)
    subst same
    exact read [0x10] (ReadCursor.at_ofBytes _)
  · obtain ⟨-, reports⟩ :=
      @readIp_iff (ReadCursor.ofBytes [0x94, 1, 2, 3, 4]) (by decide)
        (by decide)
    refine reports.mpr fun inet size same => ?_
    have field : (ReadCursor.ofBytes [0x94, 1, 2, 3, 4]).ahead.1 =
        .field 9 4 := by decide
    cases inet with
    | true => decide
    | false =>
      exact absurd (NextThing.field.inj same).1 (by decide)

/-- The marker of an address and two bytes: 0 is returned, and nothing behind
the marker has been taken. -/
theorem readIp_cut :
    (ReadCursor.ofBytes [0x94, 1, 2]).readIp.1 = 0 ∧
      (ReadCursor.ofBytes [0x94, 1, 2]).readIp.2.1 = some (true, []) ∧
      (ReadCursor.ofBytes [0x94, 1, 2]).readIp.2.2.pos = 1 := by
  decide

end NdNet
