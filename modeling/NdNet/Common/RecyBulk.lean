import NdNet.Common.RecyBuf
import Mathlib.Tactic.Tauto

/-!
# The zero-copy operations of the ring buffer

`ndcbuf_data_addr`, `ndcbuf_add_data` and `ndcbuf_sub_data` let a caller work in
the block itself and move the pointers afterwards.  They leave a pointer that
has come to the end of the block there, where `_cbuf_read` and `_cbuf_write`
turn it to the front; `fold` identifies the two.

A write through them is always that of `ndcbuf_write`.  A read through them is
that of `ndcbuf_read` as long as the start pointer stays in the block:
`ndcbuf_sub_data` does not wrap it.
-/

namespace NdNet

variable {data : List Byte}

namespace RecyBuf

open Store

def subData (buf : RecyBuf) (len : Nat) : RecyBuf :=
  resetEmpty { buf with startOff := buf.startOff + len }

def addData (buf : RecyBuf) (len : Nat) : RecyBuf :=
  { buf with endOff := buf.endOff + len }

/-- The caller puts bytes at `m_pend`. -/
def store (buf : RecyBuf) (data : List Byte) : RecyBuf :=
  { buf with storage := overwrite buf.storage buf.endOff data }

/-- The free bytes that follow `m_pend` without a gap. -/
def contiguous (buf : RecyBuf) : Nat :=
  min buf.freespace (cBufSize - buf.endOff)

/-- What a reader of all data gets; nothing is known of it when the data is said
to begin behind the block. -/
def queued (buf : RecyBuf) : Option (List Byte) :=
  if buf.datalen = 0 then some []
  else if cBufSize < buf.startOff then none
  else some (buf.readAt buf.datalen).1

/-- No caller can tell the two buffers apart by what is in them. -/
structure SameQueue (left right : RecyBuf) : Prop where
  queued_eq : left.queued = right.queued
  datalen_eq : left.datalen = right.datalen
  freespace_eq : left.freespace = right.freespace

/-- A valid buffer.  A pointer may stand at the end of the block, and the data
does not fill the block. -/
structure Within (buf : RecyBuf) : Prop where
  startOff_le : buf.startOff ≤ cBufSize
  endOff_le : buf.endOff ≤ cBufSize
  storage_length : buf.storage.length = cBufSize
  datalen_lt : buf.datalen < cBufSize

def foldOff (offset : Nat) : Nat :=
  if offset = cBufSize then 0 else offset

def fold (buf : RecyBuf) : RecyBuf :=
  { buf with
    startOff := foldOff buf.startOff
    endOff := foldOff buf.endOff }

theorem foldOff_of_lt {offset : Nat} (inside : offset < cBufSize) :
    foldOff offset = offset := by
  unfold foldOff
  rw [if_neg (Nat.ne_of_lt inside)]

theorem foldOff_cBufSize : foldOff cBufSize = 0 := if_pos rfl

theorem fold_of_lt {buf : RecyBuf} (start : buf.startOff < cBufSize)
    (last : buf.endOff < cBufSize) : buf.fold = buf := by
  unfold fold
  rw [foldOff_of_lt start, foldOff_of_lt last]

/-- Where the pointers of a valid buffer can be. -/
inductive Position (buf : RecyBuf) : Prop where
  | inside (start : buf.startOff < cBufSize) (last : buf.endOff < cBufSize)
  | startAtTail (start : buf.startOff = cBufSize) (last : buf.endOff < cBufSize)
  | endAtTail (start : 0 < buf.startOff) (inside : buf.startOff < cBufSize)
      (last : buf.endOff = cBufSize)
  | bothAtTail (start : buf.startOff = cBufSize) (last : buf.endOff = cBufSize)

section Within

variable {buf : RecyBuf}

section

variable (valid : buf.Within)
include valid

theorem Within.position : Position buf := by
  have start := valid.startOff_le
  have last := valid.endOff_le
  have short := valid.datalen_lt
  by_cases startInside : buf.startOff < cBufSize
  · by_cases endInside : buf.endOff < cBufSize
    · exact .inside startInside endInside
    refine .endAtTail ?_ startInside (by omega)
    apply Nat.pos_of_ne_zero
    intro front
    have ordered : buf.order = true := by
      rw [order, decide_eq_true_iff]
      omega
    rw [datalen, if_pos ordered] at short
    omega
  · by_cases endInside : buf.endOff < cBufSize
    · exact .startAtTail (by omega) endInside
    · exact .bothAtTail (by omega) (by omega)

theorem Within.fold_represents :
    buf.fold.Represents buf.content := by
  have whole := valid.storage_length
  cases valid.position with
  | inside start last =>
    rw [fold_of_lt start last]
    exact ⟨start, last, whole, rfl⟩
  | startAtTail start last =>
    refine ⟨?_, ?_, whole, ?_⟩
    · show foldOff buf.startOff < cBufSize
      rw [start, foldOff_cBufSize]
      exact Nat.zero_lt_succ _
    · show foldOff buf.endOff < cBufSize
      rw [foldOff_of_lt last]
      exact last
    · have behind : ¬ cBufSize ≤ buf.endOff := by omega
      simp [content, order, fold, start, foldOff_cBufSize,
        foldOff_of_lt last, behind]
  | endAtTail start inside last =>
    refine ⟨?_, ?_, whole, ?_⟩
    · show foldOff buf.startOff < cBufSize
      rw [foldOff_of_lt inside]
      exact inside
    · show foldOff buf.endOff < cBufSize
      rw [last, foldOff_cBufSize]
      exact Nat.zero_lt_succ _
    · have ordered : buf.startOff ≤ cBufSize := by omega
      have wrapped : buf.startOff ≠ 0 := by omega
      simp [content, order, fold, last, foldOff_cBufSize,
        foldOff_of_lt inside, ordered, wrapped]
  | bothAtTail start last =>
    refine ⟨?_, ?_, whole, ?_⟩
    · show foldOff buf.startOff < cBufSize
      rw [start, foldOff_cBufSize]
      exact Nat.zero_lt_succ _
    · show foldOff buf.endOff < cBufSize
      rw [last, foldOff_cBufSize]
      exact Nat.zero_lt_succ _
    · simp [content, order, fold, start, last, foldOff_cBufSize]

theorem Within.datalen_fold :
    buf.fold.datalen = buf.datalen := by
  cases valid.position with
  | inside start last => rw [fold_of_lt start last]
  | startAtTail start last =>
    have behind : ¬ cBufSize ≤ buf.endOff := by omega
    simp [datalen, order, fold, start, foldOff_cBufSize,
      foldOff_of_lt last, behind]
    omega
  | endAtTail start inside last =>
    have ordered : buf.startOff ≤ cBufSize := by omega
    have wrapped : buf.startOff ≠ 0 := by omega
    simp [datalen, order, fold, last, foldOff_cBufSize,
      foldOff_of_lt inside, ordered, wrapped]
  | bothAtTail start last =>
    simp [datalen, order, fold, start, last, foldOff_cBufSize]

theorem Within.freespace_fold :
    buf.fold.freespace = buf.freespace := by
  cases valid.position with
  | inside start last => rw [fold_of_lt start last]
  | startAtTail start last =>
    have behind : ¬ cBufSize ≤ buf.endOff := by omega
    simp [freespace, order, fold, start, foldOff_cBufSize,
      foldOff_of_lt last, behind]
  | endAtTail start inside last =>
    have ordered : buf.startOff ≤ cBufSize := by omega
    have wrapped : buf.startOff ≠ 0 := by omega
    have rest : cBufSize - (cBufSize - buf.startOff) = buf.startOff := by
      omega
    simp [freespace, order, fold, last, foldOff_cBufSize,
      foldOff_of_lt inside, ordered, wrapped, rest]
  | bothAtTail start last =>
    simp [freespace, order, fold, start, last, foldOff_cBufSize]

theorem Within.readAt_fold {size : Nat} (enough : size ≤ buf.datalen) :
    (buf.readAt size).1 = (buf.fold.readAt size).1 ∧
      (buf.readAt size).2.fold = (buf.fold.readAt size).2 := by
  have folded := valid.fold_represents
  have reached := enough
  rw [← valid.datalen_fold, folded.datalen_eq] at reached
  have after := (folded.readAt reached).2
  cases valid.position with
  | inside start last =>
    rw [fold_of_lt start last] at after ⊢
    exact ⟨rfl, fold_of_lt after.startOff_lt after.endOff_lt⟩
  | startAtTail start last =>
    have behind : ¬ cBufSize ≤ buf.endOff := by omega
    have front : buf.fold = { buf with startOff := 0 } := by
      unfold fold
      rw [start, foldOff_cBufSize, foldOff_of_lt last]
    have same : (buf.readAt size).1 = (buf.fold.readAt size).1 ∧
        (buf.readAt size).2 = (buf.fold.readAt size).2 := by
      rw [front]
      cases size with
      | zero =>
        simp only [readAt, order, start, behind, resetEmpty]
        by_cases empty : 0 = buf.endOff
        · simp [reset, ← empty]
        · simp [empty]
      | succ size => simp [readAt, order, start, behind]
    rw [← same.2] at after
    exact ⟨same.1, by rw [fold_of_lt after.startOff_lt after.endOff_lt, same.2]⟩
  | endAtTail start inside last =>
    have ordered : buf.startOff ≤ cBufSize := by omega
    have wrapped : buf.startOff ≠ 0 := by omega
    have back : buf.fold = { buf with endOff := 0 } := by
      unfold fold
      rw [last, foldOff_cBufSize, foldOff_of_lt inside]
    have length : buf.datalen = cBufSize - buf.startOff := by
      simp [datalen, order, last, ordered]
    have near : size ≤ cBufSize - buf.startOff := by omega
    rw [back]
    refine ⟨by simp [readAt, order, last, ordered, wrapped, near], ?_⟩
    by_cases full : buf.startOff + size = cBufSize
    · simp [readAt, order, last, ordered, wrapped, near, full, resetEmpty,
        reset, fold, foldOff]
    · have short : ¬ cBufSize ≤ buf.startOff + size := by omega
      simp [readAt, order, last, ordered, wrapped, near, full, short,
        resetEmpty, fold, foldOff]
  | bothAtTail start last =>
    have none : size = 0 := by
      have empty : buf.datalen = 0 := by simp [datalen, order, start, last]
      omega
    subst none
    simp [readAt, order, start, last, resetEmpty, reset, fold, foldOff]

theorem Within.subData_fold {len : Nat}
    (stays : buf.order ∨ len ≤ cBufSize - buf.startOff) :
    (buf.subData len).fold = (buf.readAt len).2.fold := by
  have start := valid.startOff_le
  rw [order, decide_eq_true_iff] at stays
  by_cases ordered : buf.startOff ≤ buf.endOff
  · simp [subData, readAt, order, ordered]
  have near : len ≤ cBufSize - buf.startOff := by tauto
  have apart : ¬ buf.startOff + len = buf.endOff := by omega
  simp only [subData, readAt, order, ordered, near, apart, decide_false,
    Bool.false_eq_true, if_false, if_true, resetEmpty, fold]
  by_cases full : cBufSize ≤ buf.startOff + len
  · have reach : buf.startOff + len = cBufSize := by omega
    simp [reach, foldOff]
  · simp [full]

theorem Within.store_fold (fits : data.length ≤ buf.contiguous) :
    ((buf.store data).addData data.length).fold = (buf.writeAt data).fold := by
  have last := valid.endOff_le
  have near : data.length ≤ cBufSize - buf.endOff :=
    Nat.le_trans fits (Nat.min_le_right _ _)
  unfold writeAt
  rw [if_pos near]
  by_cases full : cBufSize ≤ buf.endOff + data.length
  · have reach : buf.endOff + data.length = cBufSize := by omega
    simp [store, addData, fold, foldOff, reach]
  · simp [store, addData, fold, full]

end

theorem Within.of_bounds (start : buf.startOff ≤ cBufSize)
    (last : buf.endOff ≤ cBufSize) (whole : buf.storage.length = cBufSize)
    (free : 0 < buf.startOff ∨ buf.endOff < cBufSize) : buf.Within where
  startOff_le := start
  endOff_le := last
  storage_length := whole
  datalen_lt := by
    rw [datalen, order]
    by_cases ordered : buf.startOff ≤ buf.endOff
    · simp only [ordered, decide_true, if_true]
      omega
    · simp only [ordered, decide_false, Bool.false_eq_true, if_false]
      omega

section

variable (valid : buf.Within)
include valid

theorem Within.not_full :
    0 < buf.startOff ∨ buf.endOff < cBufSize := by
  cases valid.position with
  | inside start last | startAtTail start last => exact .inr last
  | endAtTail start inside last => exact .inl start
  | bothAtTail start last =>
    left
    rw [start]
    exact Nat.zero_lt_succ _

theorem Within.resetEmpty : buf.resetEmpty.Within := by
  unfold RecyBuf.resetEmpty
  split
  · exact .of_bounds (Nat.zero_le _) (Nat.zero_le _) valid.storage_length
      (.inr (Nat.zero_lt_succ _))
  · exact valid

theorem Within.subData {len : Nat}
    (stays : buf.startOff + len ≤ cBufSize) : (buf.subData len).Within := by
  apply Within.resetEmpty
  refine .of_bounds stays valid.endOff_le valid.storage_length ?_
  cases valid.not_full with
  | inl behind => exact .inl (Nat.lt_of_lt_of_le behind (Nat.le_add_right _ _))
  | inr before => exact .inr before

theorem Within.readAt {size : Nat}
    (enough : size ≤ buf.datalen) : (buf.readAt size).2.Within := by
  have start := valid.startOff_le
  have last := valid.endOff_le
  have whole := valid.storage_length
  rw [datalen, order] at enough
  by_cases ordered : buf.startOff ≤ buf.endOff
  · simp only [ordered, decide_true, if_true] at enough
    simp only [RecyBuf.readAt, order, ordered, decide_true, if_true]
    exact valid.subData (show buf.startOff + size ≤ cBufSize by omega)
  · simp only [ordered, decide_false, Bool.false_eq_true, if_false] at enough
    simp only [RecyBuf.readAt, order, ordered, decide_false,
      Bool.false_eq_true, if_false]
    have inside : buf.endOff < cBufSize := by omega
    by_cases near : size ≤ cBufSize - buf.startOff
    · rw [if_pos near]
      by_cases full : cBufSize ≤ buf.startOff + size
      · rw [if_pos full]
        exact .of_bounds (Nat.zero_le _) last whole (.inr inside)
      · rw [if_neg full]
        exact .of_bounds (Nat.le_of_not_le full) last whole (.inr inside)
    · rw [if_neg near]
      apply Within.resetEmpty
      refine .of_bounds ?_ last whole (.inr inside)
      show size - (cBufSize - buf.startOff) ≤ cBufSize
      omega

theorem Within.store (fits : data.length ≤ buf.contiguous) :
    ((buf.store data).addData data.length).Within := by
  have last := valid.endOff_le
  have room : data.length ≤ buf.freespace :=
    Nat.le_trans fits (Nat.min_le_left _ _)
  have near : data.length ≤ cBufSize - buf.endOff :=
    Nat.le_trans fits (Nat.min_le_right _ _)
  have balance := valid.fold_represents.datalen_add_freespace
  rw [valid.datalen_fold, valid.freespace_fold] at balance
  have size : cBufSize = 65536 := rfl
  have whole : (overwrite buf.storage buf.endOff data).length = cBufSize := by
    rw [length_overwrite, valid.storage_length]
  refine .of_bounds valid.startOff_le ?_ whole ?_
  · show buf.endOff + data.length ≤ cBufSize
    omega
  · show 0 < buf.startOff ∨ buf.endOff + data.length < cBufSize
    by_cases front : buf.startOff = 0
    · right
      have ordered : buf.order = true := by
        rw [order, decide_eq_true_iff]
        omega
      rw [datalen, if_pos ordered] at balance
      omega
    · exact .inl (Nat.pos_of_ne_zero front)

theorem Within.writeAt
    (fits : data.length ≤ buf.contiguous) : (buf.writeAt data).Within := by
  have stored := valid.store fits
  have near : data.length ≤ cBufSize - buf.endOff :=
    Nat.le_trans fits (Nat.min_le_right _ _)
  unfold RecyBuf.writeAt
  dsimp only
  rw [if_pos near]
  refine .of_bounds stored.startOff_le ?_ stored.storage_length ?_
  · split
    · exact Nat.zero_le _
    · exact stored.endOff_le
  · dsimp only
    split
    · exact .inr (Nat.zero_lt_succ _)
    · exact stored.not_full

theorem Within.queued_eq :
    buf.queued = some buf.content := by
  have holds := valid.fold_represents
  have length := holds.datalen_eq
  rw [valid.datalen_fold] at length
  unfold queued
  by_cases empty : buf.datalen = 0
  · rw [if_pos empty, List.length_eq_zero_iff.mp (length.symm.trans empty)]
  · rw [if_neg empty, if_neg (Nat.not_lt_of_le valid.startOff_le),
      (valid.readAt_fold (Nat.le_refl _)).1,
      (holds.readAt (Nat.le_of_eq length)).1, length, List.take_length]

end

theorem Within.sameQueue {left right : RecyBuf} (leftValid : left.Within)
    (rightValid : right.Within) (same : left.fold = right.fold) :
    SameQueue left right where
  queued_eq := by
    rw [leftValid.queued_eq, rightValid.queued_eq,
      ← leftValid.fold_represents.content_eq,
      ← rightValid.fold_represents.content_eq, same]
  datalen_eq := by
    rw [← leftValid.datalen_fold, ← rightValid.datalen_fold, same]
  freespace_eq := by
    rw [← leftValid.freespace_fold, ← rightValid.freespace_fold, same]

theorem Within.store_sameQueue (valid : buf.Within)
    (fits : data.length ≤ buf.contiguous) (flag : BufFlag) :
    SameQueue ((buf.store data).addData data.length)
      (buf.write data flag).2 := by
  have room : data.length ≤ buf.freespace :=
    Nat.le_trans fits (Nat.min_le_left _ _)
  have written : (buf.write data flag).2 = buf.writeAt data := by
    have enough : ¬ (flag = .specified ∧ buf.freespace < data.length) := by
      omega
    simp only [write]
    rw [if_neg enough, List.take_of_length_le room]
  rw [written]
  exact (valid.store fits).sameQueue (valid.writeAt fits)
    (valid.store_fold fits)

theorem read_eq_readAt {size : Nat} (enough : size ≤ buf.datalen)
    (flag : BufFlag) : (buf.read size flag).2 = buf.readAt size := by
  have met : ¬ (flag = .specified ∧ buf.datalen < size) := by omega
  simp only [read]
  rw [if_neg met, if_neg (Nat.not_lt_of_le enough)]

theorem Within.subData_lost (valid : buf.Within) {len : Nat}
    (wraps : buf.order = false) (leaves : cBufSize - buf.startOff < len)
    (some : len < buf.datalen) : (buf.subData len).queued = none := by
  have last := valid.endOff_le
  rw [order, decide_eq_false_iff_not] at wraps
  have apart : ¬ buf.startOff + len = buf.endOff := by omega
  have behind : ¬ buf.startOff + len ≤ buf.endOff := by omega
  simp only [datalen, order, wraps, decide_false, Bool.false_eq_true,
    if_false] at some
  have rest : ¬ cBufSize - (buf.startOff + len - buf.endOff) = 0 := by omega
  have outside : cBufSize < buf.startOff + len := by omega
  simp [RecyBuf.subData, RecyBuf.resetEmpty, queued, datalen, order, apart,
    behind, rest, outside]

theorem Within.subData_all (valid : buf.Within) (wraps : buf.order = false)
    (leaves : cBufSize - buf.startOff < buf.datalen) :
    SameQueue (buf.subData buf.datalen) (buf.readAt buf.datalen).2 := by
  have holds := valid.fold_represents
  have length := holds.datalen_eq
  rw [valid.datalen_fold] at length
  have balance := holds.datalen_add_freespace
  have size : cBufSize = 65536 := rfl
  have after := valid.readAt (Nat.le_refl buf.datalen)
  have drained := (holds.readAt (Nat.le_of_eq length)).2
  rw [length, List.drop_length] at drained
  rw [← length, ← (valid.readAt_fold (Nat.le_refl _)).2] at drained
  have readLength : (buf.readAt buf.datalen).2.datalen = 0 := by
    rw [← after.datalen_fold, drained.datalen_eq]
    rfl
  have readSpace : (buf.readAt buf.datalen).2.freespace = 65535 := by
    have total := drained.datalen_add_freespace
    rw [after.datalen_fold, after.freespace_fold] at total
    omega
  rw [order, decide_eq_false_iff_not] at wraps
  have count : buf.datalen = cBufSize - (buf.startOff - buf.endOff) := by
    simp [datalen, order, wraps]
  have apart : ¬ buf.startOff + buf.datalen = buf.endOff := by omega
  have reach : buf.startOff + buf.datalen = cBufSize + buf.endOff := by omega
  have behind : ¬ cBufSize + buf.endOff ≤ buf.endOff := by omega
  have left : buf.subData buf.datalen =
      { buf with startOff := cBufSize + buf.endOff } := by
    rw [RecyBuf.subData, RecyBuf.resetEmpty, if_neg apart, reach]
  have subLength : (buf.subData buf.datalen).datalen = 0 := by
    rw [left]
    simp [datalen, order, behind]
  have subSpace : (buf.subData buf.datalen).freespace = 65535 := by
    rw [left]
    simp [freespace, order, sizeSub, size]
  exact
    { queued_eq := by
        rw [queued, if_pos subLength, queued, if_pos readLength]
      datalen_eq := subLength.trans readLength.symm
      freespace_eq := subSpace.trans readSpace.symm }

/-- The zero-copy operations do what read and write do, exactly when the bytes
taken off do not lead the start pointer behind the block, or are all. -/
theorem bulk_agrees_iff (valid : buf.Within) {len : Nat} {data : List Byte}
    (enough : len ≤ buf.datalen) (fits : data.length ≤ buf.contiguous)
    (readFlag writeFlag : BufFlag) :
    (SameQueue (buf.subData len) (buf.read len readFlag).2.2 ∧
        SameQueue ((buf.store data).addData data.length)
          (buf.write data writeFlag).2) ↔
      (buf.order = true ∨ len ≤ cBufSize - buf.startOff ∨
        len = buf.datalen) := by
  have written := valid.store_sameQueue fits writeFlag
  have start := valid.startOff_le
  have last := valid.endOff_le
  rw [read_eq_readAt enough]
  constructor
  · intro agrees
    by_cases ordered : buf.order = true
    · exact .inl ordered
    right
    apply Classical.byContradiction
    intro neither
    have lost : (buf.subData len).queued = none := valid.subData_lost
      (Bool.eq_false_iff.mpr ordered) (by omega) (by omega)
    have kept := agrees.1.queued_eq
    rw [lost, (valid.readAt enough).queued_eq] at kept
    cases kept
  · intro stays
    refine ⟨?_, written⟩
    by_cases near : buf.order = true ∨ len ≤ cBufSize - buf.startOff
    · have inside : buf.startOff + len ≤ cBufSize := by
        rw [datalen] at enough
        by_cases ordered : buf.order = true
        · rw [if_pos ordered] at enough
          rw [order, decide_eq_true_iff] at ordered
          omega
        · have short : len ≤ cBufSize - buf.startOff := by tauto
          omega
      exact (valid.subData inside).sameQueue (valid.readAt enough)
        (valid.subData_fold near)
    · have wraps : ¬ buf.order = true := fun ordered => near (.inl ordered)
      have leaves : ¬ len ≤ cBufSize - buf.startOff :=
        fun short => near (.inr short)
      have all : len = buf.datalen := by tauto
      rw [all] at leaves ⊢
      exact valid.subData_all (Bool.eq_false_iff.mpr wraps)
        (Nat.lt_of_not_le leaves)

end Within

def wrappedBuf : RecyBuf :=
  { startOff := 65535
    endOff := 2
    storage := List.replicate cBufSize 0 }

theorem wrappedBuf_within : wrappedBuf.Within :=
  .of_bounds (by decide) (by decide) List.length_replicate (.inr (by decide))

/-- One byte of three is read in place. -/
theorem bulk_agrees_wrapped :
    SameQueue (wrappedBuf.subData 1) (wrappedBuf.read 1 .all).2.2 ∧
      SameQueue ((wrappedBuf.store [7]).addData 1)
        (wrappedBuf.write [7] .all).2 :=
  (bulk_agrees_iff wrappedBuf_within (by decide)
    (show ([7] : List Byte).length ≤ wrappedBuf.contiguous by decide)
      .all .all).mpr (.inr (.inl (by decide)))

/-- Two bytes of three: the start pointer is then behind the block, and the byte
that is left cannot be read. -/
theorem subData_ne_read :
    wrappedBuf.Within ∧ 2 ≤ wrappedBuf.datalen ∧
      (wrappedBuf.subData 2).startOff = cBufSize + 1 ∧
      (wrappedBuf.subData 2).queued = none ∧
      (wrappedBuf.read 2 .all).2.2.queued ≠ none := by
  refine ⟨wrappedBuf_within, by decide, by decide, ?_, ?_⟩
  · exact wrappedBuf_within.subData_lost (by decide) (by decide) (by decide)
  · exact Option.some_ne_none _

end RecyBuf

end NdNet
