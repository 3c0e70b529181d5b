import NdNet.Common.LineBufQueue
import NdNet.Lib.Runs

/-!
# Runs of the linear buffer

A run applies writes, reads, removals, additions at the tail and reallocations
to one initialised buffer.  `LbufState` carries next to the buffer the queue
that the return values promise: the bytes accepted so far minus those removed.

Two operations break the promise. A write that decides on the total free
capacity stores past the storage when the data starts at offset 1 to 7, since
`_lbuf_move_ahead` does not move it; and `_lbuf_realloc` clears the first byte
of the data it has just copied.
-/

namespace NdNet.LineBuf

open Store Runs

/-- One call on a linear buffer.  `addData` carries the bytes that the caller
has stored at the tail before the call; `realloc` carries the block that
`malloc` returned. -/
inductive LbufCall where
  | write (data : List Byte) (flag : BufFlag)
  | read (size : Nat) (flag : BufFlag)
  | subData (len : Nat)
  | addData (bytes : List Byte)
  | realloc (newsize : Nat) (fresh : Option (List Byte))
  deriving DecidableEq

/-- A buffer together with the queue promised by the return values. -/
structure LbufState where
  buf : LineBuf
  queue : List Byte
  deriving DecidableEq

/-- The memory allocator is never called by a write while automatic growth is
off. -/
def noMalloc : Nat → Option (List Byte) :=
  fun _ => none

def lbufStep (state : LbufState) : LbufCall → LbufState
  | .write data flag =>
    let result := state.buf.write data flag noMalloc
    ⟨result.2, state.queue ++ data.take result.1.toNat⟩
  | .read size flag =>
    let result := state.buf.read size flag
    ⟨result.2.2, state.queue.drop result.1.toNat⟩
  | .subData len => ⟨state.buf.subData len, state.queue.drop len⟩
  | .addData bytes => ⟨state.buf.append bytes, state.queue ++ bytes⟩
  | .realloc newsize fresh =>
    ⟨(state.buf.realloc newsize fresh).2, state.queue⟩

/-- What the callers promise: no more is removed than there is, no more is
added than fits behind the data, and a block has the size asked for. -/
def Allowed (state : LbufState) : LbufCall → Prop
  | .write _ _ => True
  | .read _ _ => True
  | .subData len => len ≤ state.buf.datalen
  | .addData bytes => bytes.length ≤ state.buf.freespace
  | .realloc newsize fresh => ∀ block ∈ fresh, block.length = newsize

instance (state : LbufState) (call : LbufCall) :
    Decidable (Allowed state call) := by
  cases call <;> unfold Allowed <;> infer_instance

/-- The step keeps the promise: a write has enough tail room, or can make it,
or is refused; a reallocation finds a zero byte or nothing where it clears;
and every count fits into the `int` that reports it. -/
def Keeps (state : LbufState) : LbufCall → Prop
  | .write data flag =>
    (state.buf.acceptedBytes data flag).length < 2 ^ 31 ∧
      (data.length ≤ state.buf.freespace ∨ state.buf.Compacts ∨
        flag = .specified ∧ state.buf.freeCapacity < data.length)
  | .read size flag =>
    min size state.buf.datalen < 2 ^ 31 ∨
      flag = .specified ∧ state.buf.datalen < size
  | .subData _ => True
  | .addData _ => True
  | .realloc newsize fresh =>
    newsize ≤ state.buf.capacity ∨ fresh = none ∨
      sizeOfInt (intOfSize state.buf.datalen) = state.buf.datalen ∧
        ∀ first ∈ state.buf.content.head?, first = 0

instance (state : LbufState) : ∀ call, Decidable (Keeps state call)
  | .write _ _ => inferInstanceAs (Decidable (_ < _ ∧ (_ ∨ _ ∨ _ ∧ _)))
  | .read _ _ => inferInstanceAs (Decidable (_ < _ ∨ _ ∧ _))
  | .subData _ => .isTrue trivial
  | .addData _ => .isTrue trivial
  | .realloc _ _ =>
    inferInstanceAs (Decidable (_ ≤ _ ∨ _ ∨ _ ∧ ∀ first ∈ _, first = 0))

/-- The pointers are in order and in bounds, and the buffer holds exactly the
promised queue. -/
structure FifoLaw (state : LbufState) : Prop where
  fixed : state.buf.autoInc = false
  represents : state.buf.Represents state.queue

section Steps

variable {state : LbufState}

private theorem write_law_iff (law : FifoLaw state) (data : List Byte)
    (flag : BufFlag) :
    FifoLaw (lbufStep state (.write data flag)) ↔
      Keeps state (.write data flag) := by
  have holds := law.represents
  have result := write_result holds data flag noMalloc law.fixed
  have grows := write_autoInc law.fixed data flag noMalloc
  by_cases refused : flag = .specified ∧ state.buf.freeCapacity < data.length
  · have none : state.buf.acceptedBytes data flag = [] := by
      rw [acceptedBytes, if_neg (Nat.not_le_of_lt refused.2), if_pos refused.1]
    have same := write_represents holds data flag noMalloc law.fixed
      (.inr (.inr refused))
    rw [none, List.append_nil] at same
    rw [if_pos refused] at result
    refine iff_of_true ⟨grows, ?_⟩ ⟨by simp [none], .inr (.inr refused)⟩
    simpa [lbufStep, result] using same
  · rw [if_neg refused] at result
    -- the bytes taken are a prefix of the data, of the reported length
    have prefixed : state.buf.acceptedBytes data flag =
        data.take (state.buf.acceptedBytes data flag).length := by
      unfold acceptedBytes
      split
      · simp
      · split <;> simp
    by_cases room : data.length ≤ state.buf.freespace ∨ state.buf.Compacts
    · have appended := write_represents holds data flag noMalloc law.fixed
        (room.elim .inl (fun compacts => .inr (.inl compacts)))
      by_cases small : (state.buf.acceptedBytes data flag).length < 2 ^ 31
      · refine iff_of_true ⟨grows, ?_⟩
          ⟨small, room.elim .inl (fun compacts => .inr (.inl compacts))⟩
        simp only [lbufStep, result, intOfSize_of_lt small, Int.toNat_natCast,
          ← prefixed]
        exact appended
      · refine iff_of_false ?_ (fun keeps => small keeps.1)
        intro broken
        have counted := broken.represents.queue_length
        have stored := appended.queue_length
        have reported := toNat_intOfSize_lt
          (state.buf.acceptedBytes data flag).length
        simp only [lbufStep, result, List.length_append,
          List.length_take] at counted stored
        omega
    · refine iff_of_false ?_ ?_
      · intro broken
        have past := write_overflows holds noMalloc law.fixed
          (Nat.lt_of_not_le (fun fits => room (.inl fits)))
          (fun compacts => room (.inr compacts)) refused
        exact Nat.not_le_of_lt past broken.represents.bounded
      · rintro ⟨_, tail | compacts | short⟩
        · exact room (.inl tail)
        · exact room (.inr compacts)
        · exact refused short

private theorem read_law_iff (law : FifoLaw state) (size : Nat) (flag : BufFlag)
    :
    FifoLaw (lbufStep state (.read size flag)) ↔
      Keeps state (.read size flag) := by
  have holds := law.represents
  by_cases short : flag = .specified ∧ state.buf.datalen < size
  · refine iff_of_true ?_ (.inr short)
    have refused : state.buf.read size flag = (-1, [], state.buf) := if_pos short
    simp only [lbufStep, refused]
    exact ⟨law.fixed, by simpa using holds⟩
  · have result : state.buf.read size flag =
        (intOfSize (min size state.buf.datalen),
          slice state.buf.storage state.buf.startOff
            (state.buf.startOff + min size state.buf.datalen),
          state.buf.subData (min size state.buf.datalen)) := by
      have count : (if state.buf.datalen < size then state.buf.datalen else size) =
          min size state.buf.datalen := by
        split <;> omega
      rw [read, if_neg short]
      simp only [count]
    have removed := subData_represents holds (min size state.buf.datalen)
    by_cases small : min size state.buf.datalen < 2 ^ 31
    · refine iff_of_true ?_ (.inl small)
      simp only [lbufStep, result, intOfSize_of_lt small, Int.toNat_natCast]
      exact ⟨by simpa using law.fixed, removed⟩
    · refine iff_of_false ?_ (fun keeps => keeps.elim small short)
      intro broken
      have counted := broken.represents.queue_length
      have stored := removed.queue_length
      have reported := toNat_intOfSize_lt (min size state.buf.datalen)
      have queued := holds.queue_length
      simp only [lbufStep, result, List.length_drop] at counted stored
      omega

private theorem realloc_law_iff (law : FifoLaw state) {newsize : Nat}
    {fresh : Option (List Byte)}
    (sized : ∀ block ∈ fresh, block.length = newsize) :
    FifoLaw (lbufStep state (.realloc newsize fresh)) ↔
      Keeps state (.realloc newsize fresh) := by
  have holds := law.represents
  by_cases larger : newsize ≤ state.buf.capacity
  · refine iff_of_true ?_ (.inl larger)
    simpa [lbufStep, realloc, larger] using law
  cases fresh with
  | none =>
    refine iff_of_true ?_ (.inr (.inl rfl))
    simpa [lbufStep, realloc, larger] using law
  | some block =>
    have larger : state.buf.capacity < newsize := by omega
    obtain ⟨base, grows, grown⟩ := realloc_eq holds block larger
    have queued := holds.queue_length
    have head := holds.content_eq
    constructor
    · intro kept
      have kept := kept.represents
      simp only [lbufStep, grown] at kept
      have survives : sizeOfInt (intOfSize state.buf.datalen) =
          state.buf.datalen := by
        have length := kept.queue_length
        rw [kept.datalen_eq, queued] at length
        simpa using length.symm
      refine .inr (.inr ⟨survives, ?_⟩)
      intro first leads
      rw [head] at leads
      -- the cell at offset 0 was cleared after the copy
      have cell := congrArg (fun bytes => bytes[0]?) kept.content_eq
      have nonempty : 0 < state.queue.length := by
        cases queue : state.queue with
        | nil => simp [queue] at leads
        | cons value rest => simp
      rw [List.head?_eq_getElem?, Option.mem_def] at leads
      have sizedBlock := sized block rfl
      simp only [content, survives, getElem?_slice, getElem?_overwrite,
        Nat.zero_add, length_overwrite, leads] at cell
      rw [if_pos (by omega), if_neg (by omega), if_pos (by simp; omega)] at cell
      simpa using cell.symm
    · rintro (small | none | ⟨survives, first⟩)
      · omega
      · cases none
      · refine ⟨?_, ?_⟩
        · simp only [lbufStep, grown]
          exact grows.trans law.fixed
        · exact realloc_represents holds larger (sized block rfl) survives
            (head ▸ first)

theorem lbufStep_law_iff (law : FifoLaw state) {call : LbufCall}
    (allowed : Allowed state call) :
    FifoLaw (lbufStep state call) ↔ Keeps state call := by
  cases call with
  | write data flag => exact write_law_iff law data flag
  | read size flag => exact read_law_iff law size flag
  | subData len =>
    refine iff_of_true ⟨?_, subData_represents law.represents len⟩ trivial
    simpa [lbufStep] using law.fixed
  | addData bytes =>
    refine iff_of_true ⟨?_, append_represents law.represents allowed⟩ trivial
    simpa [lbufStep] using law.fixed
  | realloc newsize fresh => exact realloc_law_iff law allowed

end Steps

/-- The state after `_lbuf_init` on any block. -/
def lbufInitial (block : List Byte) : LbufState :=
  ⟨init block, []⟩

theorem lbufInitial_law (block : List Byte) : FifoLaw (lbufInitial block) :=
  ⟨rfl, init_represents block⟩

/-- In every allowed run on an initialised buffer of any capacity, the pointers
stay in bounds and the data stays the promised queue exactly as long as every
step meets `Keeps`. -/
theorem lbufRun_fifo_iff (block : List Byte) (calls : List LbufCall)
    (allowed : Meets lbufStep Allowed (lbufInitial block) calls) :
    (∀ visited ∈ states lbufStep (lbufInitial block) calls, FifoLaw visited) ↔
      Meets lbufStep Keeps (lbufInitial block) calls :=
  invariant_iff_meets (fun _ _ law => lbufStep_law_iff law)
    (lbufInitial_law block) allowed

/-- A run with a partial read, a tail addition and a refused write. -/
theorem lbufRun_fifo_small :
    Meets lbufStep Allowed (lbufInitial [7, 7, 7, 7, 7, 7])
        [.write [1, 2, 3] .specified, .read 2 .all, .addData [4, 5],
          .write [6, 7, 8, 9] .specified] ∧
      ∀ visited ∈ states lbufStep (lbufInitial [7, 7, 7, 7, 7, 7])
        [.write [1, 2, 3] .specified, .read 2 .all, .addData [4, 5],
          .write [6, 7, 8, 9] .specified], FifoLaw visited :=
  ⟨by decide,
    (lbufRun_fifo_iff [7, 7, 7, 7, 7, 7]
      [.write [1, 2, 3] .specified, .read 2 .all, .addData [4, 5],
        .write [6, 7, 8, 9] .specified] (by decide)).mpr (by decide)⟩

/-- Six bytes of storage, filled, one byte read: a further write of one byte is
accepted and stored behind the storage.  And growing a buffer turns the first
byte of its data into zero. -/
theorem lbufRun_fifo_fails :
    (∃ (block : List Byte) (calls : List LbufCall),
      Meets lbufStep Allowed (lbufInitial block) calls ∧
      ∃ visited ∈ states lbufStep (lbufInitial block) calls,
        visited.buf.capacity < visited.buf.endOff) ∧
    (∃ (block : List Byte) (calls : List LbufCall),
      Meets lbufStep Allowed (lbufInitial block) calls ∧
      ∃ visited ∈ states lbufStep (lbufInitial block) calls,
        visited.buf.content ≠ visited.queue) := by
  let overflow : List LbufCall :=
    [.write [1, 2, 3, 4, 5, 6] .specified, .read 1 .specified,
      .write [7] .specified]
  let growth : List LbufCall :=
    [.write [1, 2] .specified, .realloc 6 (some [0, 0, 0, 0, 0, 0])]
  exact
    ⟨⟨[0, 0, 0, 0, 0, 0], overflow, by decide, overflow.foldl lbufStep _,
        foldl_mem_states _ _ _, by decide⟩,
      ⟨[0, 0, 0], growth, by decide, growth.foldl lbufStep _,
        foldl_mem_states _ _ _, by decide⟩⟩

end NdNet.LineBuf
