import NdNet.Crypt.CryptFile

/-!
# What a writer leaves in an encrypted file

Whatever the sizes of the elements and wherever the file is flushed, the blocks
in the file and the bytes in the page are together what has been written.
-/

namespace NdNet.CryptFile

open List

/-- Data with as many bytes as the last block lacks, each of them their
number. -/
def padded (data : List Byte) : List Byte :=
  let fill := teaUnit - data.length % teaUnit
  data ++ List.replicate fill (UInt8.ofNat fill)

/-- No `int` overflows in a call. -/
def WriteCall.Counts : WriteCall → Prop
  | .fwrite _ elementsize count =>
    count < 2 ^ 31 ∧ (count = 0 ∨ elementsize < 2 ^ 31)
  | .fflush => True

variable (page : Nat → Byte)

theorem pageGet_length (offset count : Nat) :
    (pageGet page offset count).length = count := by
  simp [pageGet]

theorem pageGet_add (offset count more : Nat) :
    pageGet page offset (count + more) =
      pageGet page offset count ++ pageGet page (offset + count) more := by
  simp [pageGet, range_add, Nat.add_assoc]

theorem pageGet_pagePut_before {offset count place : Nat} (data : List Byte)
    (before : offset + count ≤ place) :
    pageGet (pagePut page place data) offset count =
      pageGet page offset count := by
  apply map_congr_left
  intro index member
  have inside := mem_range.mp member
  exact if_neg (by omega)

theorem pageGet_pagePut (offset : Nat) (data : List Byte) :
    pageGet (pagePut page offset data) offset data.length = data := by
  apply ext_getElem
  · rw [pageGet_length]
  · intro index _ inside
    simp only [pageGet, getElem_map, getElem_range]
    unfold pagePut
    rw [if_pos (Nat.le_add_right _ _), Nat.add_sub_cancel_left,
      getElem?_eq_getElem inside, Option.getD_some]

theorem teaBlocks_append (key : List Byte) {count more : Nat}
    {front : List Byte} (whole : front.length = count * teaUnit)
    (back : List Byte) :
    teaBlocks key (count + more) (front ++ back) =
      teaBlocks key count front ++ teaBlocks key more back := by
  induction count generalizing front with
  | zero =>
    rw [length_eq_zero_iff.mp whole, Nat.zero_add]
    rfl
  | succ count induction =>
    rw [Nat.succ_mul] at whole
    have rest : (front.drop teaUnit).length = count * teaUnit := by
      rw [length_drop, whole, Nat.add_sub_cancel]
    rw [Nat.succ_add, teaBlocks, teaBlocks, take_append_of_le_length (by omega),
      drop_append_of_le_length (by omega), induction rest,
      append_assoc]

namespace NdcFile

/-- The blocks in the file and the bytes in the page are `data`. -/
structure Holds (key : List Byte) (file : NdcFile) (data : List Byte) :
    Prop where
  keyed : file.passwd = key
  writes : file.iswrite = true
  ordered : file.pagePos ≤ file.sizeInbuf
  aligned : file.pagePos % teaUnit = 0
  split : ∃ count front, front.length = count * teaUnit ∧
    file.pf = teaBlocks key count front ∧
    data = front ++
      pageGet file.pageBuf file.pagePos (file.sizeInbuf - file.pagePos)

namespace Holds

variable {key data : List Byte} {file : NdcFile}

theorem initial (key : List Byte) (pageBuf : Nat → Byte) :
    Holds key (fopenW key pageBuf) [] :=
  ⟨rfl, rfl, Nat.le_refl 0, rfl, 0, [], rfl, rfl, rfl⟩

variable (holds : Holds key file data)
include holds

theorem restart (empty : file.pagePos = file.sizeInbuf) :
    Holds key { file with pagePos := 0, sizeInbuf := 0 } data := by
  obtain ⟨count, front, whole, blocks, same⟩ := holds.split
  refine ⟨holds.keyed, holds.writes, Nat.le_refl 0, rfl, count, front, whole,
    blocks, ?_⟩
  rw [empty, Nat.sub_self] at same
  exact same

theorem write2file {count : Nat}
    (there : file.pagePos + count * teaUnit ≤ file.sizeInbuf) :
    (file.write2file file.pagePos count).1 = count * teaUnit ∧
      Holds key { (file.write2file file.pagePos count).2 with
        pagePos := file.pagePos + count * teaUnit } data := by
  obtain ⟨blocks, front, whole, encrypted, same⟩ := holds.split
  have gotten := pageGet_length file.pageBuf file.pagePos (count * teaUnit)
  have length : (file.write2file file.pagePos count).1 = count * teaUnit := by
    unfold NdcFile.write2file
    dsimp only
    rw [length_teaBlocks _ gotten, gotten]
  refine ⟨length, holds.keyed, holds.writes, there, ?_, blocks + count,
    front ++ pageGet file.pageBuf file.pagePos (count * teaUnit), ?_, ?_, ?_⟩
  · have aligned := holds.aligned
    rw [Nat.add_mul_mod_self_right, aligned]
  · rw [length_append, whole, gotten, Nat.add_mul]
  · unfold NdcFile.write2file
    rw [encrypted, holds.keyed, teaBlocks_append _ whole]
  · have rest : file.sizeInbuf - file.pagePos = count * teaUnit +
        (file.sizeInbuf - (file.pagePos + count * teaUnit)) := by omega
    rw [same, rest, pageGet_add, append_assoc]
    rfl

theorem flushBlocks (filled : file.pagePos < file.sizeInbuf)
    (small : file.sizeInbuf ≤ ndcFileBuf) :
    Holds key file.flushBlocks data ∧ file.flushBlocks.sizeInbuf < ndcFileBuf ∧
      file.flushBlocks.sizeInbuf - file.flushBlocks.pagePos < teaUnit := by
  have aligned : file.pagePos % 8 = 0 := holds.aligned
  change file.sizeInbuf ≤ 1024 at small
  have positive : 0 < ndcFileBuf ∧ 0 - 0 < teaUnit := by decide
  unfold NdcFile.flushBlocks
  dsimp only
  split
  next whole =>
    have there : file.pagePos +
        (file.sizeInbuf - file.pagePos) / teaUnit * teaUnit ≤
          file.sizeInbuf := by
      have := Nat.div_mul_le_self (file.sizeInbuf - file.pagePos) teaUnit
      omega
    obtain ⟨count, moved⟩ := holds.write2file there
    rw [count]
    split
    next all => exact ⟨moved.restart all, positive⟩
    next more =>
      have left : file.pagePos + (file.sizeInbuf - file.pagePos) / 8 * 8 ≠
          file.sizeInbuf := more
      refine ⟨moved, ?_, ?_⟩
      · change file.sizeInbuf < 1024
        omega
      · change file.sizeInbuf - (file.pagePos +
          (file.sizeInbuf - file.pagePos) / 8 * 8) < 8
        omega
  next none =>
    change ¬ 0 < (file.sizeInbuf - file.pagePos) / 8 at none
    refine ⟨holds, ?_, ?_⟩
    · change file.sizeInbuf < 1024
      omega
    · change file.sizeInbuf - file.pagePos < 8
      omega

theorem fflush (small : file.sizeInbuf ≤ ndcFileBuf) :
    Holds key (file.fflush false) data ∧
      (file.fflush false).sizeInbuf < ndcFileBuf := by
  have ordered := holds.ordered
  have writes : ¬ (!file.iswrite) = true := by simp [holds.writes]
  have positive : 0 < ndcFileBuf := by decide
  unfold NdcFile.fflush
  rw [if_neg writes]
  split
  next empty => exact ⟨holds.restart (by omega), positive⟩
  next filled =>
    obtain ⟨kept, room, _⟩ := holds.flushBlocks (by omega) small
    exact ⟨kept, room⟩

theorem putByte (small : file.sizeInbuf < ndcFileBuf) (byte : Byte) :
    Holds key (file.putByte byte) (data ++ [byte]) ∧
      (file.putByte byte).sizeInbuf < ndcFileBuf := by
  have ordered := holds.ordered
  have longer : Holds key
      { file with
        pageBuf := pagePut file.pageBuf file.sizeInbuf [byte]
        sizeInbuf := file.sizeInbuf + 1 } (data ++ [byte]) := by
    obtain ⟨count, front, whole, blocks, same⟩ := holds.split
    refine ⟨holds.keyed, holds.writes, Nat.le_succ_of_le ordered,
      holds.aligned, count, front, whole, blocks, ?_⟩
    have next : file.sizeInbuf + 1 - file.pagePos =
        file.sizeInbuf - file.pagePos + 1 := by omega
    have place : file.pagePos + (file.sizeInbuf - file.pagePos) =
        file.sizeInbuf := by omega
    rw [next, pageGet_add, place,
      pageGet_pagePut_before _ _ (Nat.le_of_eq place), same]
    have put := pageGet_pagePut file.pageBuf file.sizeInbuf [byte]
    rw [length_singleton] at put
    rw [put, append_assoc]
  unfold NdcFile.putByte
  dsimp only
  split
  next => exact longer.fflush small
  next room => exact ⟨longer, Nat.lt_of_not_le room⟩

theorem putBytes (small : file.sizeInbuf < ndcFileBuf) (bytes : List Byte) :
    Holds key (bytes.foldl NdcFile.putByte file) (data ++ bytes) ∧
      (bytes.foldl NdcFile.putByte file).sizeInbuf < ndcFileBuf := by
  induction bytes generalizing file data with
  | nil =>
    rw [append_nil]
    exact ⟨holds, small⟩
  | cons byte bytes induction =>
    obtain ⟨next, room⟩ := holds.putByte small byte
    have rest := induction next room
    rw [append_assoc, singleton_append] at rest
    exact rest

theorem write (small : file.sizeInbuf < ndcFileBuf) {call : WriteCall}
    (counts : call.Counts) :
    Holds key (file.write call) (data ++ call.bytes) ∧
      (file.write call).sizeInbuf < ndcFileBuf := by
  cases call with
  | fwrite buf elementsize count =>
    obtain ⟨rows, columns⟩ := counts
    have number :
        intLoop count * intLoop elementsize = count * elementsize := by
      have rowLoop : intLoop count = count := Nat.min_eq_left (by omega)
      rw [rowLoop]
      rcases columns with none | few
      · rw [none, Nat.zero_mul, Nat.zero_mul]
      · have columnLoop : intLoop elementsize = elementsize :=
          Nat.min_eq_left (by omega)
        rw [columnLoop]
    obtain ⟨kept, room⟩ :=
      holds.putBytes small (buf.take (count * elementsize))
    unfold NdcFile.write NdcFile.fwrite WriteCall.bytes
    dsimp only
    rw [number]
    exact kept.fflush (Nat.le_of_lt room)
  | fflush =>
    unfold WriteCall.bytes
    rw [append_nil]
    exact holds.fflush (Nat.le_of_lt small)

theorem flushEnd (few : file.sizeInbuf - file.pagePos < teaUnit) :
    file.flushEnd.pf =
      teaBlocks key (data.length / teaUnit + 1) (padded data) := by
  obtain ⟨count, front, whole, blocks, same⟩ := holds.split
  have ordered := holds.ordered
  obtain ⟨left, leftEq⟩ :
      ∃ left, left = file.sizeInbuf - file.pagePos := ⟨_, rfl⟩
  rw [← leftEq] at few same
  have pending := pageGet_length file.pageBuf file.pagePos left
  have length : data.length = left + teaUnit * count := by
    rw [same, length_append, whole, pending, Nat.add_comm, Nat.mul_comm]
  have rest : data.length % teaUnit = left := by
    rw [length, Nat.add_mul_mod_self_left, Nat.mod_eq_of_lt few]
  have number : data.length / teaUnit = count := by
    rw [length, Nat.add_mul_div_left _ _ (by decide),
      Nat.div_eq_of_lt few, Nat.zero_add]
  unfold NdcFile.flushEnd NdcFile.write2file padded
  dsimp only
  rw [← leftEq, Nat.mod_eq_of_lt few, rest, number]
  have full : file.sizeInbuf + (teaUnit - left) - file.pagePos = 1 * teaUnit := by
    omega
  have place : file.pagePos + left = file.sizeInbuf := by omega
  have content : pageGet (pagePut file.pageBuf file.sizeInbuf
      (replicate (teaUnit - left) (UInt8.ofNat (teaUnit - left))))
        file.pagePos (1 * teaUnit) =
      pageGet file.pageBuf file.pagePos left ++
        replicate (teaUnit - left) (UInt8.ofNat (teaUnit - left)) := by
    have parts : 1 * teaUnit = left + (teaUnit - left) := by omega
    have put := pageGet_pagePut file.pageBuf file.sizeInbuf
      (replicate (teaUnit - left) (UInt8.ofNat (teaUnit - left)))
    rw [length_replicate] at put
    rw [parts, pageGet_add, place,
      pageGet_pagePut_before _ _ (Nat.le_of_eq place), put]
  rw [full, Nat.mul_div_cancel _ (by decide), content, holds.keyed, blocks,
    ← teaBlocks_append _ whole, same, append_assoc]

theorem fclose (small : file.sizeInbuf < ndcFileBuf) :
    file.fclose =
      teaBlocks key (data.length / teaUnit + 1) (padded data) := by
  have ordered := holds.ordered
  have writes : ¬ (!file.iswrite) = true := by simp [holds.writes]
  unfold NdcFile.fclose NdcFile.fflush
  rw [if_neg writes]
  split
  next empty =>
    exact (holds.restart (by omega)).flushEnd (by decide : 0 - 0 < teaUnit)
  next filled =>
    obtain ⟨kept, _, few⟩ := holds.flushBlocks (by omega) (Nat.le_of_lt small)
    exact kept.flushEnd few

end Holds

end NdcFile

/-- After some calls and `ndc_fclose` a file is what has been written, filled up
and encrypted. -/
theorem writeFile_eq (key : List Byte) (pageBuf : Nat → Byte)
    {calls : List WriteCall} (counts : ∀ call ∈ calls, call.Counts) :
    writeFile key pageBuf calls =
      teaBlocks key ((written calls).length / teaUnit + 1)
        (padded (written calls)) := by
  have runs : ∀ (calls : List WriteCall) (file : NdcFile) (data : List Byte),
      NdcFile.Holds key file data → file.sizeInbuf < ndcFileBuf →
      (∀ call ∈ calls, call.Counts) →
      NdcFile.Holds key (calls.foldl NdcFile.write file)
          (data ++ written calls) ∧
        (calls.foldl NdcFile.write file).sizeInbuf < ndcFileBuf := by
    intro calls
    induction calls with
    | nil =>
      intro file data holds small _
      refine ⟨?_, small⟩
      rw [written, flatMap_nil, append_nil]
      exact holds
    | cons call calls induction =>
      intro file data holds small counts
      obtain ⟨first, others⟩ := forall_mem_cons.mp counts
      obtain ⟨next, room⟩ := holds.write small first
      have rest := induction _ _ next room others
      rw [append_assoc] at rest
      exact rest
  obtain ⟨holds, small⟩ := runs calls _ [] (NdcFile.Holds.initial key pageBuf)
    (by decide : 0 < ndcFileBuf) counts
  exact holds.fclose small

end NdNet.CryptFile
