import NdNet.Crypt.CryptWrite

/-!
# Reading encrypted files like plain ones

Between the calls a reader either has no page, and its position is
`cur_file_pos + page_pos`; or it has one, and `cur_file_pos` is where the page
ends. `ndc_fread` goes from the one to the other. `ndc_ftell` and `ndc_fseek`
look at `cur_file_pos` as if there were no page, and `ndc_fread` looks at the
length of the last page even if it is no longer loaded.
-/

namespace NdNet.CryptFile

open List

variable {data : List Byte}

/-- The blocks of a stretch are those in front of a block boundary and those
behind it. -/
theorem teaBlocks_cut (key : List Byte) {count cut : Nat}
    (whole : data.length = count * teaUnit) (inside : cut ≤ count) :
    (teaBlocks key cut (data.take (cut * teaUnit))).length = cut * teaUnit ∧
      teaBlocks key count data =
        teaBlocks key cut (data.take (cut * teaUnit)) ++
          teaBlocks key (count - cut) (data.drop (cut * teaUnit)) := by
  have less := Nat.mul_le_mul_right teaUnit inside
  have front : (data.take (cut * teaUnit)).length = cut * teaUnit := by
    rw [length_take, whole]
    exact Nat.min_eq_left less
  have split := @teaBlocks_append key cut (count - cut) _ front
    (data.drop (cut * teaUnit))
  rw [take_append_drop, Nat.add_sub_cancel' inside] at split
  exact ⟨(length_teaBlocks _ front).trans front, split⟩

theorem teaBlocks_drop (key : List Byte) {count skipped : Nat}
    (whole : data.length = count * teaUnit) (inside : skipped ≤ count) :
    (teaBlocks key count data).drop (skipped * teaUnit) =
      teaBlocks key (count - skipped) (data.drop (skipped * teaUnit)) := by
  obtain ⟨front, split⟩ := teaBlocks_cut key whole inside
  rw [split, drop_left' front]

theorem teaBlocks_take (key : List Byte) {count taken : Nat}
    (whole : data.length = count * teaUnit) (inside : taken ≤ count) :
    (teaBlocks key count data).take (taken * teaUnit) =
      teaBlocks key taken (data.take (taken * teaUnit)) := by
  obtain ⟨front, split⟩ := teaBlocks_cut key whole inside
  rw [split, take_left' front]

theorem teaDecrypt_page (key : List Byte) {count skipped : Nat}
    (whole : data.length = count * teaUnit) (inside : skipped ≤ count) :
    (((teaBlocks key count data).drop (skipped * teaUnit)).take
        ndcFileBuf).length =
        ((data.drop (skipped * teaUnit)).take ndcFileBuf).length ∧
      (teaDecrypt key (((teaBlocks key count data).drop
        (skipped * teaUnit)).take ndcFileBuf)).2 =
          (data.drop (skipped * teaUnit)).take ndcFileBuf := by
  obtain ⟨rest, restEq⟩ : ∃ rest, rest = data.drop (skipped * teaUnit) :=
    ⟨_, rfl⟩
  obtain ⟨blocks, blocksEq⟩ : ∃ blocks, blocks = min 128 (count - skipped) :=
    ⟨_, rfl⟩
  have restWhole : rest.length = (count - skipped) * teaUnit := by
    rw [restEq, length_drop, whole, Nat.sub_mul]
  have page (bytes : List Byte)
      (length : bytes.length = (count - skipped) * teaUnit) :
      bytes.take ndcFileBuf = bytes.take (blocks * teaUnit) := by
    change bytes.length = (count - skipped) * 8 at length
    rw [take_eq_take_iff]
    change min 1024 bytes.length = min (blocks * 8) bytes.length
    omega
  have few : blocks ≤ count - skipped := by omega
  have front : (rest.take (blocks * teaUnit)).length = blocks * teaUnit := by
    rw [length_take, restWhole]
    exact Nat.min_eq_left (Nat.mul_le_mul_right _ few)
  have encrypted := length_teaBlocks key front
  rw [teaBlocks_drop key whole inside, ← restEq, page rest restWhole,
    page _ ((length_teaBlocks key restWhole).trans restWhole),
    teaBlocks_take key restWhole few]
  refine ⟨encrypted, ?_⟩
  unfold teaDecrypt
  rw [encrypted, front, if_neg (by rw [Nat.mul_mod_left]; simp),
    Nat.mul_div_cancel _ (by decide)]
  exact teaDecBlocks_teaBlocks front

/-- What a file holds: some blocks, of which the first `length` bytes are its
content. -/
structure Source where
  key : List Byte
  count : Nat
  plain : List Byte
  whole : plain.length = count * teaUnit
  length : Nat
  inside : length < plain.length
  small : length < 2 ^ 63

namespace NdcFile

structure Reads (source : Source) (file : NdcFile) : Prop where
  pf : file.pf = teaBlocks source.key source.count source.plain
  passwd : file.passwd = source.key
  iswrite : file.iswrite = false
  fileEnd : file.fileEnd = source.length

/-- No page is loaded at a position. -/
structure Away (source : Source) (position : Nat) (file : NdcFile) : Prop
    extends Reads source file where
  isload : file.isload = false
  place : file.curFilePos + file.pagePos = position
  aligned : file.curFilePos % teaUnit = 0
  inPage : file.pagePos < ndcFileBuf
  last : file.sizeInbuf ≤ ndcFileBuf

/-- The page around a position is loaded. -/
structure Loaded (source : Source) (position : Nat) (file : NdcFile) : Prop
    extends Reads source file where
  isload : file.isload = true
  first : ∃ first, file.curFilePos = first + file.sizeInbuf ∧
    first + file.pagePos = position ∧ first % teaUnit = 0 ∧
    file.sizeInbuf = ((source.plain.drop first).take ndcFileBuf).length ∧
    ∀ index < file.sizeInbuf,
      source.plain[first + index]? = some (file.pageBuf index)
  inPage : file.pagePos < file.sizeInbuf

def Settled (source : Source) (position : Nat) (file : NdcFile) : Prop :=
  Loaded source position file ∨ (Away source position file ∧ file.sizeInbuf = 0)

variable {source : Source} {file : NdcFile} {position : Nat}

theorem Away.loadPage (away : Away source position file)
    (inside : position < source.plain.length) :
    file.loadPage.1 ≠ 0 ∧ Loaded source position file.loadPage.2 := by
  have place := away.place
  have inPage := away.inPage
  have whole := source.whole
  obtain ⟨skipped, skip⟩ : ∃ skipped,
      file.curFilePos = skipped * teaUnit := by
    refine ⟨file.curFilePos / teaUnit, ?_⟩
    have parts := Nat.div_add_mod' file.curFilePos teaUnit
    rw [away.aligned] at parts
    exact parts.symm
  have few : skipped ≤ source.count := by
    apply Nat.le_of_mul_le_mul_right _ (by decide : 0 < teaUnit)
    omega
  obtain ⟨sizes, decrypted⟩ := teaDecrypt_page source.key whole few
  rw [← skip, ← away.pf] at sizes decrypted
  have size : ((source.plain.drop file.curFilePos).take ndcFileBuf).length =
      min ndcFileBuf (source.plain.length - file.curFilePos) := by
    rw [length_take, length_drop]
  have filled : ((file.pf.drop file.curFilePos).take ndcFileBuf).length ≠ 0 := by
    omega
  unfold NdcFile.loadPage
  rw [if_neg filled]
  refine ⟨filled, ⟨away.pf, away.passwd, away.iswrite, away.fileEnd⟩, rfl,
    ⟨file.curFilePos, rfl, place, away.aligned, sizes, ?_⟩, ?_⟩
  · intro index less
    dsimp only at less ⊢
    rw [away.passwd, decrypted]
    rw [sizes] at less
    unfold pagePut
    rw [if_pos (Nat.zero_le _), Nat.sub_zero, getElem?_eq_getElem less,
      Option.getD_some, getElem_take, getElem_drop,
      getElem?_eq_getElem]
  · change file.pagePos <
      ((file.pf.drop file.curFilePos).take ndcFileBuf).length
    omega

section

variable (loaded : Loaded source position file)
include loaded

theorem Loaded.byte :
    source.plain[position]? = some (file.pageBuf file.pagePos) := by
  obtain ⟨first, _, place, _, _, page⟩ := loaded.first
  rw [← place]
  exact page _ loaded.inPage

theorem Loaded.next (more : file.pagePos + 1 < file.sizeInbuf) :
    Loaded source (position + 1)
      { file with pagePos := file.pagePos + 1 } := by
  obtain ⟨first, ends, place, aligned, size, page⟩ := loaded.first
  refine { loaded with first := ⟨first, ends, ?_, aligned, size, page⟩,
                       inPage := more }
  rw [← Nat.add_assoc, place]

theorem Loaded.turn (last : file.sizeInbuf ≤ file.pagePos + 1) :
    Away source (position + 1)
      { file with
        pagePos := 0
        isload := false
        sizeInbuf := 0 } := by
  obtain ⟨first, ends, place, aligned, size, _⟩ := loaded.first
  have inPage := loaded.inPage
  have whole : source.plain.length = source.count * 8 := source.whole
  rw [length_take, length_drop] at size
  change file.sizeInbuf = min 1024 _ at size
  change first % 8 = 0 at aligned
  refine { loaded with
    isload := rfl
    place := ?_
    aligned := ?_
    inPage := (by decide : 0 < ndcFileBuf)
    last := Nat.zero_le _ }
  · dsimp only
    omega
  · change file.curFilePos % 8 = 0
    omega

theorem Loaded.copyBytes {len : Nat}
    (inside : position + len < source.plain.length) :
    (file.copyBytes len).1 = (source.plain.drop position).take len ∧
      Settled source (position + len) (file.copyBytes len).2 := by
  induction len generalizing file position with
  | zero => exact ⟨rfl, .inl loaded⟩
  | succ len induction =>
    have front : (source.plain.drop position).take (len + 1) =
        file.pageBuf file.pagePos ::
          (source.plain.drop (position + 1)).take len := by
      have byte := loaded.byte
      rw [getElem?_eq_getElem (by omega), Option.some.injEq] at byte
      rw [drop_eq_getElem_cons (by omega), take_succ_cons, byte]
    have further : position + 1 + len = position + (len + 1) := by omega
    rw [front]
    unfold copyBytes
    dsimp only
    split
    next last =>
      have away := loaded.turn last
      split
      next more =>
        obtain ⟨filled, again⟩ := away.loadPage (by omega)
        obtain ⟨bytes, settled⟩ := induction again (by omega)
        rw [if_neg filled]
        rw [further] at settled
        exact ⟨congrArg (_ :: ·) bytes, settled⟩
      next done =>
        have zero : len = 0 := by omega
        subst zero
        exact ⟨rfl, .inr ⟨away, rfl⟩⟩
    next more =>
      obtain ⟨bytes, settled⟩ :=
        induction (loaded.next (Nat.lt_of_not_le more)) (by omega)
      rw [further] at settled
      exact ⟨congrArg (_ :: ·) bytes, settled⟩

end

def At (source : Source) (position : Nat) (file : NdcFile) : Prop :=
  Loaded source position file ∨ Away source position file

theorem Settled.stands (settled : Settled source position file) :
    At source position file := by
  rcases settled with loaded | ⟨away, _⟩
  · exact .inl loaded
  · exact .inr away

/-- `left_data` of `ndc_fread_node` -/
def leftData (file : NdcFile) : Nat :=
  sizeT (file.fileEnd - (file.curFilePos - file.sizeInbuf) - file.pagePos)

theorem Loaded.leftData (loaded : Loaded source position file)
    (inside : position ≤ source.length) :
    file.leftData = source.length - position := by
  obtain ⟨first, ends, place, _⟩ := loaded.first
  have fileEnd := loaded.fileEnd
  have small := source.small
  unfold NdcFile.leftData sizeT
  omega

theorem Away.leftData (away : Away source position file)
    (inside : position ≤ source.length) :
    file.leftData = source.length - position + file.sizeInbuf := by
  have place := away.place
  have fileEnd := away.fileEnd
  have small := source.small
  have last : file.sizeInbuf ≤ 1024 := away.last
  unfold NdcFile.leftData sizeT
  omega

theorem Settled.leftData (settled : Settled source position file)
    (inside : position ≤ source.length) :
    file.leftData = source.length - position := by
  rcases settled with loaded | ⟨away, none⟩
  · exact loaded.leftData inside
  · rw [away.leftData inside, none, Nat.add_zero]

theorem At.freadNode (stands : At source position file)
    (inside : position ≤ source.length) {elementsize : Nat}
    (agrees : file.leftData < elementsize ↔
      source.length - position < elementsize) :
    if elementsize ≤ source.length - position then
      (file.freadNode elementsize).1 =
          (source.plain.drop position).take elementsize ∧
        Settled source (position + elementsize)
          (file.freadNode elementsize).2
    else file.freadNode elementsize = ([], file) := by
  have less := source.inside
  split
  next fits =>
    have enough : ¬ file.leftData < elementsize := by
      omega
    have start : file.freadNode elementsize =
        if file.isload = false ∨ file.sizeInbuf = file.pagePos then
          if file.loadPage.1 = 0 then ([], file.loadPage.2)
          else file.loadPage.2.copyBytes elementsize
        else file.copyBytes elementsize := if_neg enough
    rw [start]
    rcases stands with loaded | away
    · have inPage := loaded.inPage
      have ready : ¬ (file.isload = false ∨
          file.sizeInbuf = file.pagePos) := by
        rw [loaded.isload]
        rintro (no | same)
        · cases no
        · omega
      rw [if_neg ready]
      exact loaded.copyBytes (by omega)
    · obtain ⟨filled, loaded⟩ := away.loadPage (by omega)
      rw [if_pos (.inl away.isload), if_neg filled]
      exact loaded.copyBytes (by omega)
  next tooMany => exact if_pos (agrees.mpr (by omega))

def wholeElements (elementsize count left : Nat) : Nat :=
  if elementsize = 0 then 0 else min count (left / elementsize)

/-- `ndc_fread` gives whole elements from the position on. -/
structure FreadRight (source : Source) (position elementsize count : Nat)
    (file : NdcFile) : Prop where
  answer : (fread elementsize count file).1 =
    (wholeElements elementsize count (source.length - position),
      (source.plain.drop position).take
        (wholeElements elementsize count (source.length - position) *
          elementsize))
  stands : At source
    (position + wholeElements elementsize count (source.length - position) *
      elementsize) (fread elementsize count file).2

theorem At.fread_succ (stands : At source position file)
    (inside : position ≤ source.length) {elementsize count : Nat}
    (agrees : file.leftData < elementsize ↔
      source.length - position < elementsize)
    (others : ∀ next : NdcFile, position + elementsize ≤ source.length →
      Settled source (position + elementsize) next →
        FreadRight source (position + elementsize) elementsize count next) :
    FreadRight source position elementsize (count + 1) file := by
  have node := stands.freadNode inside agrees
  have less := source.inside
  by_cases fits : elementsize ≤ source.length - position
  · rw [if_pos fits] at node
    obtain ⟨bytes, settled⟩ := node
    have length : (file.freadNode elementsize).1.length = elementsize := by
      rw [bytes, length_take, length_drop]
      omega
    by_cases empty : elementsize = 0
    · have ends : fread elementsize (count + 1) file =
          ((0, []), (file.freadNode elementsize).2) := by
        rw [empty] at length ⊢
        exact if_pos length
      have none : wholeElements elementsize (count + 1)
          (source.length - position) = 0 := if_pos empty
      constructor
      · rw [ends, none, Nat.zero_mul, take_zero]
      · rw [ends, none, Nat.zero_mul]
        rw [empty] at settled ⊢
        exact settled.stands
    · obtain ⟨answer, stood⟩ := others _ (by omega) settled
      have more : wholeElements elementsize (count + 1)
          (source.length - position) =
          wholeElements elementsize count
            (source.length - (position + elementsize)) + 1 := by
        unfold wholeElements
        rw [if_neg empty, if_neg empty,
          Nat.div_eq_sub_div (Nat.pos_of_ne_zero empty) fits, ← Nat.sub_sub]
        omega
      have goes : fread elementsize (count + 1) file =
          (((fread elementsize count
              (file.freadNode elementsize).2).1.1 + 1,
            (file.freadNode elementsize).1 ++ (fread elementsize count
              (file.freadNode elementsize).2).1.2),
            (fread elementsize count
              (file.freadNode elementsize).2).2) := by
        have filled : (file.freadNode elementsize).1.length ≠ 0 := by
          rw [length]
          exact empty
        exact if_neg filled
      obtain ⟨rest, restEq⟩ : ∃ rest, rest = wholeElements elementsize count
          (source.length - (position + elementsize)) := ⟨_, rfl⟩
      rw [← restEq] at answer stood more
      have order : (rest + 1) * elementsize =
          elementsize + rest * elementsize := by
        rw [Nat.succ_mul, Nat.add_comm]
      constructor
      · rw [goes, answer, more, bytes, order, take_add, drop_drop]
      · rw [goes, more, order, ← Nat.add_assoc]
        exact stood
  · rw [if_neg fits] at node
    have ends : fread elementsize (count + 1) file =
        ((0, []), file) := by
      unfold fread
      rw [node]
      rfl
    have none : wholeElements elementsize (count + 1)
        (source.length - position) = 0 := by
      unfold wholeElements
      rw [if_neg (by omega), Nat.div_eq_of_lt (by omega), Nat.min_zero]
    constructor
    · rw [ends, none, Nat.zero_mul, take_zero]
    · rw [ends, none, Nat.zero_mul]
      exact stands

theorem fread_zero (stands : At source position file) (elementsize : Nat) :
    FreadRight source position elementsize 0 file := by
  have none : wholeElements elementsize 0 (source.length - position) = 0 := by
    unfold wholeElements
    rw [Nat.zero_min, ite_self]
  constructor
  · rw [none, Nat.zero_mul, take_zero]
    rfl
  · rw [none, Nat.zero_mul]
    exact stands

theorem Settled.fread (settled : Settled source position file)
    (inside : position ≤ source.length) (elementsize count : Nat) :
    FreadRight source position elementsize count file := by
  induction count generalizing file position with
  | zero => exact fread_zero settled.stands elementsize
  | succ count induction =>
    apply settled.stands.fread_succ inside
    · rw [settled.leftData inside]
    · intro next further again
      exact induction again further

/-- A page that is no longer loaded does not matter if the first element is left,
or is too long all the same. -/
theorem At.fread (stands : At source position file)
    (inside : position ≤ source.length) {elementsize count : Nat}
    (fine : file.isload = true ∨ file.sizeInbuf = 0 ∨ count = 0 ∨
      elementsize ≤ source.length - position ∨
      source.length - position + file.sizeInbuf < elementsize) :
    FreadRight source position elementsize count file := by
  cases count with
  | zero => exact fread_zero stands elementsize
  | succ count =>
    apply stands.fread_succ inside
    · rcases stands with loaded | away
      · rw [loaded.leftData inside]
      have unloaded := away.isload
      rw [away.leftData inside]
      rcases fine with isLoaded | empty | none | fits | tooLong
      · rw [unloaded] at isLoaded
        cases isLoaded
      · rw [empty, Nat.add_zero]
      · cases none
      · omega
      · omega
    · intro next further again
      exact again.fread further elementsize count

def readPos (file : NdcFile) : Nat :=
  if file.isload then file.curFilePos - file.sizeInbuf + file.pagePos
  else file.curFilePos + file.pagePos

theorem At.readPos (stands : At source position file) :
    file.readPos = position := by
  unfold NdcFile.readPos
  rcases stands with loaded | away
  · obtain ⟨first, ends, place, _⟩ := loaded.first
    rw [if_pos loaded.isload, ends, Nat.add_sub_cancel, place]
  · rw [if_neg (by simp [away.isload]), away.place]

theorem At.reads (stands : At source position file) : Reads source file := by
  rcases stands with loaded | away
  · exact loaded.toReads
  · exact away.toReads

theorem At.last (stands : At source position file) :
    file.sizeInbuf ≤ ndcFileBuf := by
  rcases stands with loaded | away
  · obtain ⟨first, _, _, _, size, _⟩ := loaded.first
    rw [size, length_take]
    exact Nat.min_le_left _ _
  · exact away.last

/-- The sum that `ndc_fseek` computes for `SEEK_CUR` is no other position than
the right one, once it is brought into the file. -/
def SameGoal (file : NdcFile) (offset : Int) : Prop :=
  -2 ^ 63 ≤ file.curFilePos + file.pagePos + offset ∧
    file.curFilePos + file.pagePos + offset < 2 ^ 63 ∧
    (file.isload = false ∨ file.fileEnd = 0 ∨
      file.curFilePos + file.pagePos + offset ≤ 0 ∨
      file.fileEnd ≤ file.readPos + offset)

/-- A reader behaves like a plain file in a call: `ndc_ftell` is called without a
page, `ndc_fseek` does not lead to the page behind the loaded one, and
`ndc_fread` does not count a page that is no longer loaded. -/
def Fine (file : NdcFile) : ReadCall → Prop
  | .fread elementsize count =>
    file.isload = true ∨ file.sizeInbuf = 0 ∨ count = 0 ∨
      elementsize ≤ file.fileEnd - file.readPos ∨
      file.fileEnd - file.readPos + file.sizeInbuf < elementsize
  | .fseek offset flag =>
    let goal := clamp file.fileEnd
      (PlainFile.base file.fileEnd file.readPos flag + offset)
    PlainFile.refuses offset flag = true ∨
      ((flag = .cur → file.SameGoal offset) ∧
        (file.isload = true → goal - goal % ndcFileBuf ≠ file.curFilePos))
  | .ftell => file.isload = false

theorem clamp_eq (length : Nat) (position : Int) :
    clamp length position = (min (max position 0) length).toNat := by
  unfold clamp
  split
  · omega
  · split <;> omega

theorem clamp_le (length : Nat) (position : Int) :
    clamp length position ≤ length := by
  rw [clamp_eq]
  omega

variable (stands : At source position file)
include stands

theorem At.newPos {offset : Int} {flag : SeekFlag}
    (allowed : PlainFile.refuses offset flag = false)
    (same : flag = .cur → file.SameGoal offset) :
    ∃ goal, file.newPos offset flag = some goal ∧
      clamp file.fileEnd goal = clamp file.fileEnd
        (PlainFile.base file.fileEnd position flag + offset) := by
  cases flag with
  | set =>
    refine ⟨offset, ?_, ?_⟩
    · exact if_neg (of_decide_eq_false allowed)
    · unfold PlainFile.base
      rw [Int.natCast_zero, Int.zero_add]
  | fromEnd => exact ⟨_, if_neg (of_decide_eq_false allowed), rfl⟩
  | other => cases allowed
  | cur =>
    obtain ⟨low, high, either⟩ := same rfl
    refine ⟨_, rfl, ?_⟩
    have exactSum :
        long ((file.curFilePos + file.pagePos : Nat) + offset) =
          file.curFilePos + file.pagePos + offset := by
      unfold long
      rw [Int.bmod_eq_of_le (by push_cast; omega) (by push_cast; omega)]
      push_cast
      rfl
    rw [exactSum]
    rw [stands.readPos] at either
    unfold PlainFile.base
    dsimp only
    rcases stands with loaded | away
    · obtain ⟨first, ends, place, _⟩ := loaded.first
      rw [clamp_eq, clamp_eq]
      rcases either with unloaded | empty | before | behind
      · rw [loaded.isload] at unloaded
        cases unloaded
      · omega
      · omega
      · omega
    · rw [← away.place]
      push_cast
      rfl

/-- `ndc_fseek` goes where it should, and forgets the page. -/
theorem At.fseek {offset : Int} {flag : SeekFlag}
    (fine : file.Fine (.fseek offset flag)) :
    if PlainFile.refuses offset flag then
      file.fseek offset flag = (-1, file)
    else
      (file.fseek offset flag).1 = 0 ∧
        At source (clamp source.length
          (PlainFile.base source.length position flag + offset))
            (file.fseek offset flag).2 := by
  have reads := stands.reads
  have readable : ¬ file.iswrite = true := by simp [reads.iswrite]
  cases refused : PlainFile.refuses offset flag with
  | true =>
    rw [if_pos rfl]
    have none : file.newPos offset flag = none := by
      cases flag with
      | set => exact if_pos (of_decide_eq_true refused)
      | cur => cases refused
      | fromEnd => exact if_pos (of_decide_eq_true refused)
      | other => rfl
    unfold NdcFile.fseek
    rw [if_neg readable, none]
  | false =>
    rw [if_neg Bool.false_ne_true]
    have both := fine.resolve_left (by simp [refused])
    obtain ⟨same, elsewhere⟩ := both
    obtain ⟨goal, new, right⟩ := stands.newPos refused same
    rw [stands.readPos, reads.fileEnd] at elsewhere
    rw [reads.fileEnd] at right
    obtain ⟨place, placeEq⟩ : ∃ place, place = clamp source.length
        (PlainFile.base source.length position flag + offset) := ⟨_, rfl⟩
    rw [← placeEq] at elsewhere right ⊢
    have seek : file.fseek offset flag = (0,
        { file with
          pagePos := place % ndcFileBuf
          curFilePos := place - place % ndcFileBuf
          isload :=
            if file.curFilePos ≠ place - place % ndcFileBuf then false
            else file.isload }) := by
      unfold NdcFile.fseek
      rw [if_neg readable, new]
      dsimp only
      rw [reads.fileEnd, right]
    rw [seek]
    refine ⟨rfl, .inr ?_⟩
    refine { reads with
      isload := ?_
      place := ?_
      aligned := ?_
      inPage := Nat.mod_lt _ (by decide)
      last := stands.last }
    · dsimp only
      split
      next => rfl
      next onPage =>
        cases isLoaded : file.isload with
        | false => rfl
        | true => exact absurd (elsewhere isLoaded).symm onPage
    · exact Nat.sub_add_cancel (Nat.mod_le _ _)
    · change (place - place % 1024) % 8 = 0
      omega

theorem At.ftell (inside : position ≤ source.length)
    (fine : file.isload = false) :
    file.ftell = position := by
  have small := source.small
  rcases stands with loaded | away
  · rw [loaded.isload] at fine
    cases fine
  · unfold NdcFile.ftell long
    rw [away.place, Int.bmod_eq_of_le (by omega) (by omega)]

end NdcFile

/-- A reader and a plain file are in the same state. -/
structure Related (source : Source) (file : NdcFile) (plain : PlainFile) :
    Prop where
  content : plain.content = source.plain.take source.length
  inside : plain.position ≤ source.length
  stands : NdcFile.At source plain.position file

theorem Related.read {source : Source} {file : NdcFile} {plain : PlainFile}
    (related : Related source file plain) {call : ReadCall}
    (fine : file.Fine call) :
    (file.read call).1 = (plain.read call).1 ∧
      Related source (file.read call).2 (plain.read call).2 := by
  obtain ⟨content, inside, stands⟩ := related
  have less := source.inside
  have length : plain.content.length = source.length := by
    rw [content, length_take]
    omega
  cases call with
  | fread elementsize count =>
    have condition := fine
    unfold NdcFile.Fine at condition
    dsimp only at condition
    rw [stands.readPos, stands.reads.fileEnd] at condition
    obtain ⟨answer, stood⟩ := stands.fread inside condition
    obtain ⟨elements, elementsEq⟩ : ∃ elements,
        elements = NdcFile.wholeElements elementsize count
          (source.length - plain.position) := ⟨_, rfl⟩
    rw [← elementsEq] at answer stood
    have fits : elements * elementsize ≤
        source.length - plain.position := by
      rw [elementsEq]
      unfold NdcFile.wholeElements
      split
      · rw [Nat.zero_mul]
        exact Nat.zero_le _
      · exact (Nat.mul_le_mul_right _ (Nat.min_le_right _ _)).trans
          (Nat.div_mul_le_self _ _)
    have same : (plain.content.drop plain.position).take
        (elements * elementsize) =
          (source.plain.drop plain.position).take
            (elements * elementsize) := by
      rw [content, drop_take, take_take, Nat.min_eq_left fits]
    have number : (if elementsize = 0 then 0 else min count
        ((plain.content.drop plain.position).length / elementsize)) =
          elements := by
      rw [elementsEq, length_drop, length]
      rfl
    unfold NdcFile.read PlainFile.read
    dsimp only
    rw [number, same]
    refine ⟨?_, content, by dsimp only; omega, stood⟩
    exact congrArg (fun got => ReadAnswer.elements got.1 got.2) answer
  | fseek offset flag =>
    have seek := stands.fseek fine
    unfold NdcFile.read PlainFile.read
    dsimp only
    rw [length]
    cases refused : PlainFile.refuses offset flag with
    | true =>
      rw [refused, if_pos rfl] at seek
      rw [seek, if_pos rfl]
      exact ⟨rfl, content, inside, stands⟩
    | false =>
      rw [refused, if_neg Bool.false_ne_true] at seek
      rw [if_neg Bool.false_ne_true, seek.1]
      exact ⟨rfl, content, NdcFile.clamp_le _ _, seek.2⟩
  | ftell =>
    have tell := stands.ftell inside fine
    unfold NdcFile.read PlainFile.read
    dsimp only
    rw [tell]
    exact ⟨rfl, content, inside, stands⟩

theorem Related.outputs {source : Source} {file : NdcFile} {plain : PlainFile}
    (related : Related source file plain) {calls : List ReadCall}
    (fine : Runs.Meets (fun file call => (NdcFile.read file call).2)
      NdcFile.Fine file calls) :
    Runs.outputs NdcFile.read file calls =
      Runs.outputs PlainFile.read plain calls :=
  Runs.outputs_eq_of_meets (fun _ _ _ related fine => related.read fine)
    related fine

/-- What `ndc_fclose` leaves is a source of what has been written. -/
def sourceOf (key data : List Byte) (small : data.length < 2 ^ 63) : Source where
  key := key
  count := data.length / teaUnit + 1
  plain := padded data
  whole := by
    have parts := Nat.div_add_mod' data.length teaUnit
    have rest := Nat.mod_lt data.length (by decide : 0 < teaUnit)
    unfold padded
    rw [List.length_append, List.length_replicate, Nat.succ_mul]
    omega
  length := data.length
  inside := by
    have rest := Nat.mod_lt data.length (by decide : 0 < teaUnit)
    unfold padded
    rw [List.length_append, List.length_replicate]
    omega
  small := small

theorem fopenR_written (key data : List Byte) (pageBuf : Nat → Byte)
    (small : data.length < 2 ^ 63) :
    ∃ file, NdcFile.fopenR
        (teaBlocks key (data.length / teaUnit + 1) (padded data)) key pageBuf =
          some file ∧
      Related (sourceOf key data small) file ⟨data, 0⟩ := by
  have whole := (sourceOf key data small).whole
  change (padded data).length = (data.length / teaUnit + 1) * teaUnit at whole
  obtain ⟨fill, fillEq⟩ : ∃ fill, fill = teaUnit - data.length % teaUnit :=
    ⟨_, rfl⟩
  have rest := Nat.mod_lt data.length (by decide : 0 < teaUnit)
  have unit : teaUnit = 8 := rfl
  have length : (padded data).length = data.length + fill := by
    unfold padded
    rw [length_append, length_replicate, fillEq]
  have encrypted := length_teaBlocks key whole
  have last : data.length / teaUnit ≤ data.length / teaUnit + 1 :=
    Nat.le_succ _
  obtain ⟨block, blockEq⟩ : ∃ block,
      block = (padded data).drop (data.length / teaUnit * teaUnit) := ⟨_, rfl⟩
  have blockLength : block.length = teaUnit := by
    rw [blockEq, length_drop, whole, Nat.succ_mul, Nat.add_sub_cancel_left]
  have before : (padded data).length - teaUnit =
      data.length / teaUnit * teaUnit := by
    rw [whole, Nat.succ_mul, Nat.add_sub_cancel]
  have tail : teaDec key (((teaBlocks key (data.length / teaUnit + 1)
      (padded data)).drop ((padded data).length - teaUnit)).take teaUnit) =
        block := by
    have only : teaBlocks key 1 block = teaEnc key block := by
      rw [teaBlocks, take_of_length_le (Nat.le_of_eq blockLength),
        drop_of_length_le (Nat.le_of_eq blockLength)]
      exact append_nil _
    rw [before, teaBlocks_drop key whole last, Nat.add_sub_cancel_left,
      ← blockEq, only, take_of_length_le
        (Nat.le_of_eq (length_teaEnc key block)), teaDec_teaEnc blockLength]
  have p : (byteAt block (teaUnit - 1)).toNat = fill := by
    have parts := Nat.div_add_mod' data.length teaUnit
    have ends : block[teaUnit - 1]? = some (UInt8.ofNat fill) := by
      rw [blockEq, getElem?_drop]
      unfold padded
      rw [getElem?_append_right (by omega), getElem?_replicate,
        if_pos (by omega), fillEq]
    unfold byteAt
    rw [getD_eq_getElem?_getD, ends, Option.getD_some, UInt8.toNat_ofNat']
    omega
  have opened : NdcFile.fopenR
      (teaBlocks key (data.length / teaUnit + 1) (padded data)) key pageBuf =
        some
          { pf := teaBlocks key (data.length / teaUnit + 1) (padded data)
            pagePos := 0
            curFilePos := 0
            fileEnd := data.length
            sizeInbuf := 0
            passwd := key
            isload := false
            iswrite := false
            pageBuf := pageBuf } := by
    unfold NdcFile.fopenR
    dsimp only
    rw [encrypted, tail, p, if_neg, if_neg (by omega)]
    · rw [length, Nat.add_sub_cancel]
    · rw [whole, Nat.mul_mod_left]
      omega
  refine ⟨_, opened, ?_, Nat.zero_le _, .inr ?_⟩
  · exact take_left.symm
  · exact { pf := rfl, passwd := rfl, iswrite := rfl, fileEnd := rfl,
            isload := rfl, place := rfl, aligned := rfl,
            inPage := (by decide : 0 < ndcFileBuf), last := Nat.zero_le _ }

/-- A file that has been written can be opened with its password, and answers the
calls of a reader like a plain file of the bytes that have been written. -/
def ReadsLikePlain (key : List Byte) (wpage rpage : Nat → Byte)
    (writes : List WriteCall) (calls : List ReadCall) : Prop :=
  ∃ file, NdcFile.fopenR (writeFile key wpage writes) key rpage = some file ∧
    Runs.outputs NdcFile.read file calls =
      Runs.outputs PlainFile.read ⟨written writes, 0⟩ calls

/-- It does so if no `int` of the writer overflows and all calls of the reader
meet their condition. -/
theorem readsLikePlain (key : List Byte) (wpage rpage : Nat → Byte)
    {writes : List WriteCall} (counts : ∀ call ∈ writes, call.Counts)
    (small : (written writes).length < 2 ^ 63) {calls : List ReadCall}
    (fine : ∀ file,
      NdcFile.fopenR (writeFile key wpage writes) key rpage = some file →
        Runs.Meets (fun file call => (NdcFile.read file call).2) NdcFile.Fine
          file calls) :
    ReadsLikePlain key wpage rpage writes calls := by
  obtain ⟨file, opened, related⟩ :=
    fopenR_written key (written writes) rpage small
  rw [← writeFile_eq key wpage counts] at opened
  exact ⟨file, opened, related.outputs (fine file opened)⟩

theorem fopenR_fields {pf key : List Byte} {pageBuf : Nat → Byte}
    {file : NdcFile} (opened : NdcFile.fopenR pf key pageBuf = some file) :
    file.sizeInbuf = 0 ∧ file.isload = false := by
  unfold NdcFile.fopenR at opened
  dsimp only at opened
  split at opened
  · cases opened
  · split at opened
    · cases opened
    · cases opened
      exact ⟨rfl, rfl⟩

theorem NdcFile.fseek_fields (file : NdcFile) (offset : Int) (flag : SeekFlag) :
    (file.fseek offset flag).2.sizeInbuf = file.sizeInbuf ∧
      (file.isload = false → (file.fseek offset flag).2.isload = false) := by
  unfold NdcFile.fseek
  split
  · exact ⟨rfl, id⟩
  · split
    · exact ⟨rfl, id⟩
    · refine ⟨rfl, fun away => ?_⟩
      dsimp only
      rw [away, ite_self]

theorem readsLikePlain_hello :
    ReadsLikePlain (List.replicate 16 7) (fun _ => 0) (fun _ => 0)
      [.fwrite [104, 101, 108, 108, 111] 1 5, .fflush]
      [.fseek 3 .set, .ftell, .fread 1 9] :=
  readsLikePlain _ _ _ (by simp [WriteCall.Counts]) (by decide) (by
    intro file opened
    obtain ⟨none, away⟩ := fopenR_fields opened
    obtain ⟨kept, stillAway⟩ := file.fseek_fields 3 .set
    refine ⟨.inr ⟨?_, ?_⟩, stillAway away, .inr (.inl (kept.trans none)),
      trivial⟩
    · intro current
      cases current
    · intro loaded
      rw [away] at loaded
      cases loaded)

/-- Behind one byte of five `ndc_ftell` gives 9. -/
theorem hello_not_readsLikePlain :
    ¬ ReadsLikePlain (List.replicate 16 7) (fun _ => 0) (fun _ => 0)
      [.fwrite [104, 101, 108, 108, 111] 1 5] [.fread 1 1, .ftell] := by
  rintro ⟨file, opened, same⟩
  have told := congrArg (fun answers => answers[1]?) same
  have nine : ((NdcFile.fopenR (writeFile (replicate 16 7) (fun _ => 0)
      [.fwrite [104, 101, 108, 108, 111] 1 5]) (replicate 16 7)
        (fun _ => 0)).map fun file =>
          (Runs.outputs NdcFile.read file [.fread 1 1, .ftell])[1]?) =
      some (some (.number 9)) := by
    decide +kernel
  rw [opened] at nine
  have both := told.symm.trans (Option.some.inj nine)
  cases both

end NdNet.CryptFile
