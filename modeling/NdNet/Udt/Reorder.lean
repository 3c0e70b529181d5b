import NdNet.Udt.Arrival

/-!
# Packets out of order

Data that is ahead of `received_sequence` is kept in `pre_list` until the gap
in front of it closes.  The list is ordered by the time of arrival, and the
drain stops at the first packet that does not fit.  Packets that tile a range
are used as soon as they can be exactly in the runs in which the kept packets
are in turn whenever a gap closes: those that continue the sequence stand one
behind the other at the front of the list.
-/

namespace NdNet

open Store List

namespace LineBuf

/-- The pointers are in order and `count` more bytes have room. -/
structure Roomy (buf : LineBuf) (count : Nat) : Prop where
  ordered : buf.startOff ≤ buf.endOff
  room : buf.datalen + count ≤ buf.capacity

section Roomy

variable {buf : LineBuf} {count rest : Nat} {data : List Byte}

theorem Roomy.free (roomy : buf.Roomy count) : count ≤ buf.freeCapacity := by
  have room := roomy.room
  rw [freeCapacity, sizeSub_of_le (by omega)]
  omega

theorem moveAhead_datalen (ordered : buf.startOff ≤ buf.endOff) :
    buf.moveAhead.startOff ≤ buf.moveAhead.endOff ∧
      buf.moveAhead.datalen = buf.datalen := by
  by_cases empty : buf.datalen = 0
  · rw [moveAhead, if_pos empty]
    exact ⟨Nat.le_refl 0, empty.symm⟩
  · by_cases far : sizeofSizeT ≤ buf.startOff
    · obtain ⟨start, last⟩ := moveAhead_offsets empty far
      rw [datalen, start, last, sizeSub_of_le (Nat.zero_le _)]
      exact ⟨Nat.zero_le _, rfl⟩
    · rw [moveAhead, if_neg empty, if_neg far]
      exact ⟨ordered, rfl⟩

theorem append_datalen (ordered : buf.startOff ≤ buf.endOff) (data : List Byte)
    :
    (buf.append data).datalen = buf.datalen + data.length := by
  rw [datalen, datalen, append_startOff, append_endOff,
    sizeSub_of_le ordered, sizeSub_of_le (by omega)]
  omega

theorem Roomy.write (roomy : buf.Roomy (data.length + rest)) :
    (buf.write data .all fun _ => none).2.Roomy rest := by
  have ordered := roomy.ordered
  have room := roomy.room
  have stored {moved : LineBuf} (sorted : moved.startOff ≤ moved.endOff)
      (length : moved.datalen = buf.datalen)
      (capacity : moved.capacity = buf.capacity) :
      (moved.append data).Roomy rest := by
    constructor
    · rw [append_startOff, append_endOff]
      omega
    · rw [append_datalen sorted, append_capacity]
      omega
  obtain ⟨sorted, length⟩ := moveAhead_datalen ordered
  have capacity := moveAhead_capacity buf
  have free : ¬ buf.moveAhead.freeCapacity < data.length := by
    rw [freeCapacity, length, capacity, sizeSub_of_le (by omega)]
    omega
  unfold LineBuf.write
  by_cases tail : data.length ≤ buf.freespace
  · rw [if_pos tail]
    exact stored ordered rfl rfl
  · rw [if_neg tail]
    rw [if_neg free]
    exact stored sorted length capacity

end Roomy

end LineBuf

namespace UdtNode

def rowLen (pockets : List UdtPocket) : Nat :=
  (pockets.map (·.data.length)).sum

/-- Data packets that continue one another from the number `next` on. -/
def Row (next : Seq) : List UdtPocket → Prop
  | [] => True
  | pocket :: later =>
    pocket.sequence = next ∧ pocket.data ≠ [] ∧
      Row (next + BitVec.ofNat 32 pocket.data.length) later

instance Row.decide : ∀ (next : Seq) (pockets : List UdtPocket),
    Decidable (Row next pockets)
  | _, [] => .isTrue trivial
  | next, pocket :: later =>
    have : Decidable (Row
        (next + BitVec.ofNat 32 pocket.data.length) later) :=
      Row.decide _ later
    inferInstanceAs (Decidable (pocket.sequence = next ∧ pocket.data ≠ [] ∧ _))

def filled (buffer : LineBuf) (pockets : List UdtPocket) : LineBuf :=
  pockets.foldl
    (fun buffer pocket => (buffer.write pocket.data .all fun _ => none).2) buffer

/-- The packets tile a range of sequence numbers that starts at
`received_sequence` of a node that keeps none, and `recv_buffer` has room for
the range. -/
structure Tiled (node : UdtNode) (tiles : List UdtPocket) : Prop where
  row : Row node.receivedSequence tiles
  buffer : node.recvBuffer.Represents node.recvBuffer.content
  capacity : node.recvBuffer.capacity = packetSize
  room : rowLen tiles ≤ node.recvBuffer.freeCapacity
  fresh : node.preList = []

/-- No kept packet starts at `received_sequence`. -/
def NoneReady (node : UdtNode) : Prop :=
  ∀ entry ∈ node.preList, entry.pack.sequence ≠ node.receivedSequence

instance (node : UdtNode) : Decidable node.NoneReady :=
  inferInstanceAs (Decidable (∀ entry ∈ node.preList, _))

/-- The packets of a list that continue the sequence from `next` on stand one
behind the other at its front. -/
def InOrder (next : Seq) : List PrePacket → Prop
  | [] => True
  | entry :: later =>
    if entry.pack.sequence = next then
      InOrder (next + BitVec.ofNat 32 entry.pack.data.length) later
    else ∀ other ∈ later, other.pack.sequence ≠ next

instance InOrder.decide : ∀ (next : Seq) (list : List PrePacket),
    Decidable (InOrder next list)
  | _, [] => .isTrue trivial
  | next, entry :: later =>
    have : Decidable (InOrder
        (next + BitVec.ofNat 32 entry.pack.data.length) later) :=
      InOrder.decide _ later
    inferInstanceAs (Decidable (if entry.pack.sequence = next then _
      else ∀ other ∈ later, _))

def inOrderArrival (node : UdtNode) (tiles : List UdtPocket) : UdtNode :=
  tiles.foldl (fun node pocket => (node.handleIncomeData pocket).2) node

end UdtNode

/-- A node and the data packets that have arrived at it. -/
structure Reception where
  node : UdtNode
  arrived : List UdtPocket

inductive Income where
  | packet (now : NdTime) (pocket : UdtPocket)
  | update (now : NdTime)

namespace Reception

open UdtNode

def step (state : Reception) : Income → Reception
  | .packet now pocket =>
    { node := (handleIncomeData { state.node with now := now } pocket).2
      arrived := pocket :: state.arrived }
  | .update now =>
    { state with node := updatePrelist { state.node with now := now } }

/-- The packets are those of the set, and none is kept for longer than the list
allows. -/
def Arrives (tiles : List UdtPocket) (state : Reception) : Income → Prop
  | .packet _ pocket => pocket ∈ tiles
  | .update now => ∀ entry ∈ state.node.preList,
      (now - entry.recvTm).toInt ≤ 60000

instance (tiles : List UdtPocket) (state : Reception) :
    ∀ input, Decidable (state.Arrives tiles input)
  | .packet _ pocket => inferInstanceAs (Decidable (pocket ∈ tiles))
  | .update _ => inferInstanceAs (Decidable (∀ entry ∈ state.node.preList, _))

/-- When the packet that is expected arrives, the kept ones behind it are in
order. -/
def InTurn (state : Reception) : Income → Prop
  | .packet _ pocket => pocket.sequence = state.node.receivedSequence →
      InOrder (pocket.sequence + BitVec.ofNat 32 pocket.data.length)
        state.node.preList
  | .update _ => True

instance (state : Reception) : ∀ input, Decidable (state.InTurn input)
  | .packet _ pocket => inferInstanceAs
      (Decidable (pocket.sequence = state.node.receivedSequence → _))
  | .update _ => .isTrue trivial

/-- No kept packet is left unused, and with all packets there the range is
received as in the order of its numbers. -/
structure Used (first : UdtNode) (tiles : List UdtPocket) (state : Reception) :
    Prop where
  ready : state.node.NoneReady
  whole : (∀ tile ∈ tiles, tile ∈ state.arrived) →
    state.node.receivedSequence =
        first.receivedSequence + BitVec.ofNat 32 (rowLen tiles) ∧
      state.node.recvBuffer.content =
        (first.inOrderArrival tiles).recvBuffer.content

end Reception

namespace UdtNode

section Rows

variable {next : Seq} {first later : List UdtPocket} {pocket : UdtPocket}

theorem rowLen_append :
    rowLen (first ++ later) = rowLen first + rowLen later := by
  rw [rowLen, map_append, sum_append]
  rfl

theorem rowLen_cons :
    rowLen (pocket :: later) = pocket.data.length + rowLen later :=
  rfl

theorem row_append :
    Row next (first ++ later) ↔
      Row next first ∧ Row (next + BitVec.ofNat 32 (rowLen first)) later := by
  induction first generalizing next with
  | nil => simp [Row, rowLen]
  | cons pocket first induction =>
    rw [cons_append, Row, Row, induction, Serial.add_counts,
      rowLen_cons, and_assoc, and_assoc]

theorem Row.number (row : Row next first) (member : pocket ∈ first) :
    ∃ before after, first = before ++ pocket :: after ∧
      pocket.sequence = next + BitVec.ofNat 32 (rowLen before) ∧
      0 < pocket.data.length := by
  obtain ⟨before, after, split⟩ := append_of_mem member
  subst split
  obtain ⟨-, number, some, -⟩ := row_append.mp row
  exact ⟨before, after, rfl, number, length_pos_of_ne_nil some⟩

end Rows

section Tiled

variable {node : UdtNode} {tiles done rest : List UdtPocket}
  {tile : UdtPocket}

theorem Tiled.roomy (tiled : node.Tiled tiles) :
    node.recvBuffer.Roomy (rowLen tiles) := by
  have free := tiled.buffer.freeCapacity_eq
  have room := tiled.room
  have bounded := tiled.buffer.datalen_le_capacity
  exact ⟨tiled.buffer.ordered, by omega⟩

theorem Tiled.small (tiled : node.Tiled tiles) :
    2 * rowLen tiles < 2 ^ 32 := by
  have room := tiled.roomy.room
  rw [tiled.capacity] at room
  have size : packetSize < 2 ^ 31 := by decide
  omega

theorem roomy_filled {buffer : LineBuf} (pockets : List UdtPocket) {count : Nat}
    (roomy : buffer.Roomy (rowLen pockets + count)) :
    (filled buffer pockets).Roomy count := by
  induction pockets generalizing buffer with
  | nil =>
    rw [show rowLen [] + count = count from Nat.zero_add _] at roomy
    exact roomy
  | cons pocket later induction =>
    rw [rowLen_cons, Nat.add_assoc] at roomy
    exact induction roomy.write

/-- A packet of the set is behind the bytes received so far, is the next one,
or is ahead. -/
theorem Tiled.cases (tiled : node.Tiled (done ++ rest))
    (member : tile ∈ done ++ rest) :
    (tile ∈ done ∧ (tile.sequence - (node.receivedSequence +
        BitVec.ofNat 32 (rowLen done))).toInt < 0) ∨
      (∃ later, rest = tile :: later ∧ tile.sequence =
        node.receivedSequence + BitVec.ofNat 32 (rowLen done)) ∨
      tile ∈ rest ∧ 0 < (tile.sequence - (node.receivedSequence +
        BitVec.ofNat 32 (rowLen done))).toInt := by
  have small := tiled.small
  obtain ⟨front, back⟩ := row_append.mp tiled.row
  rw [rowLen_append] at small
  rcases mem_append.mp member with stored | waiting
  · left
    obtain ⟨before, after, split, number, some⟩ := front.number stored
    have length := congrArg rowLen split
    rw [rowLen_append, rowLen_cons] at length
    refine ⟨stored, ?_⟩
    rw [number, Serial.toInt_counts (by omega) (by omega)]
    omega
  · right
    obtain ⟨before, after, split, number, some⟩ := back.number waiting
    cases before with
    | nil =>
      left
      refine ⟨after, split, ?_⟩
      rw [number, show rowLen [] = 0 from rfl, Serial.add_counts, Nat.add_zero]
    | cons head before =>
      right
      refine ⟨waiting, ?_⟩
      have length := congrArg rowLen split
      rw [cons_append, rowLen_cons, rowLen_append, rowLen_cons]
        at length
      have nonempty : head.data ≠ [] := by
        rw [split] at back
        exact back.2.1
      have positive := length_pos_of_ne_nil nonempty
      rw [number, Serial.add_counts, rowLen_cons,
        Serial.toInt_counts (by omega) (by omega)]
      omega

theorem Tiled.apart (tiled : node.Tiled (done ++ rest)) (stored : tile ∈ done) :
    tile ∉ rest := by
  intro waiting
  have small := tiled.small
  rw [rowLen_append] at small
  obtain ⟨front, back⟩ := row_append.mp tiled.row
  obtain ⟨before, after, split, number, some⟩ := front.number stored
  obtain ⟨between, last, split', number', -⟩ := back.number waiting
  have length := congrArg rowLen split
  have length' := congrArg rowLen split'
  rw [rowLen_append, rowLen_cons] at length length'
  rw [number, Serial.add_counts] at number'
  have same := Serial.count_eq (by omega) (by omega) number'
  omega

end Tiled

end UdtNode

namespace UdtNode

section Progress

variable {first node : UdtNode} {tiles done rest : List UdtPocket}
  {pocket : UdtPocket}

/-- `done` is in the receive buffer of a node. -/
structure Progress (first : UdtNode) (done : List UdtPocket) (node : UdtNode) :
    Prop where
  number : node.receivedSequence =
    first.receivedSequence + BitVec.ofNat 32 (rowLen done)
  buffer : node.recvBuffer = filled first.recvBuffer done

variable (holds : Progress first done node)
include holds

theorem Progress.storeData (pocket : UdtPocket) :
    Progress first (done ++ [pocket]) (node.storeData pocket.data).2 := by
  constructor
  · show node.receivedSequence + _ = _
    rw [holds.number, Serial.add_counts, rowLen_append]
    rfl
  · show (node.recvBuffer.write pocket.data .all fun _ => none).2 = _
    rw [holds.buffer, filled, filled, foldl_append]
    rfl

theorem Progress.free (tiled : first.Tiled (done ++ pocket :: rest)) :
    pocket.data.length ≤ node.recvBuffer.freeCapacity := by
  have roomy := tiled.roomy
  rw [rowLen_append, rowLen_cons] at roomy
  have free := (roomy_filled done roomy).free
  rw [holds.buffer]
  omega

/-- Draining a list stores packets from its front and keeps the others; nothing
that could be stored is left exactly if the list was in order. -/
theorem Progress.fetchPrelist (tiled : first.Tiled (done ++ rest))
    {list : List PrePacket} (kept : ∀ entry ∈ list, entry.pack ∈ done ++ rest) :
    ∃ more later, rest = more ++ later ∧
      Progress first (done ++ more) (node.fetchPrelist list) ∧
      (∀ entry ∈ (node.fetchPrelist list).preList, entry ∈ list) ∧
      (∀ entry ∈ list, entry.pack ∈ later →
        entry ∈ (node.fetchPrelist list).preList) ∧
      ((node.fetchPrelist list).NoneReady ↔
        InOrder node.receivedSequence list) := by
  induction list generalizing node done rest with
  | nil =>
    refine ⟨[], rest, rfl, ?_, ?_, ?_, ?_⟩
    · rw [append_nil]
      exact ⟨holds.number, holds.buffer⟩
    · intro entry member
      exact member
    · intro entry member
      cases member
    · refine ⟨fun _ => trivial, fun _ entry member => ?_⟩
      cases member
  | cons entry later induction =>
    by_cases expected : entry.pack.sequence = node.receivedSequence
    · have number := expected.trans holds.number
      obtain ⟨behind, rfl⟩ : ∃ behind, rest = entry.pack :: behind := by
        rcases tiled.cases (kept entry mem_cons_self) with
          ⟨-, offset⟩ | ⟨behind, split, -⟩ | ⟨-, offset⟩
        · rw [number, sub_self] at offset
          exact absurd offset (by decide)
        · exact ⟨behind, split⟩
        · rw [number, sub_self] at offset
          exact absurd offset (by decide)
      have room := Nat.not_lt_of_le (holds.free tiled)
      have handled : node.handlePrePacket entry.pack =
          (0, (node.storeData entry.pack.data).2) := by
        unfold handlePrePacket
        rw [if_neg (not_not_intro expected), if_neg room]
      have fetched : node.fetchPrelist (entry :: later) =
          (node.storeData entry.pack.data).2.fetchPrelist later := by
        rw [fetchPrelist, handled]
        rfl
      have whole : done ++ entry.pack :: behind =
          (done ++ [entry.pack]) ++ behind := by
        rw [append_assoc]
        rfl
      rw [whole] at tiled kept
      obtain ⟨more, left, split, progress, old, waiting, ready⟩ :=
        induction (holds.storeData entry.pack) tiled
          fun other member => kept other (mem_cons_of_mem _ member)
      rw [fetched]
      refine ⟨entry.pack :: more, left, ?_, ?_, ?_, ?_, ?_⟩
      · rw [split]
        rfl
      · rw [append_assoc] at progress
        exact progress
      · intro other member
        exact mem_cons_of_mem _ (old other member)
      · intro other member inside
        rcases mem_cons.mp member with same | further
        · refine absurd (split ▸ mem_append_right more inside) ?_
          rw [same]
          exact tiled.apart (mem_append_right _ (mem_singleton_self _))
        · exact waiting other further inside
      · rw [ready, InOrder, if_pos expected]
        rfl
    · have handled : node.handlePrePacket entry.pack = (1, node) := by
        unfold handlePrePacket
        rw [if_pos expected]
      have fetched : node.fetchPrelist (entry :: later) =
          { node with preList := entry :: later } := by
        rw [fetchPrelist, handled]
        rfl
      rw [fetched]
      refine ⟨[], rest, rfl, ?_, ?_, ?_, ?_⟩
      · rw [append_nil]
        exact ⟨holds.number, holds.buffer⟩
      · intro other member
        exact member
      · intro other member _
        exact member
      · rw [InOrder, if_neg expected]
        constructor
        · intro ready other member
          exact ready other (mem_cons_of_mem _ member)
        · intro apart other member
          rcases mem_cons.mp member with same | further
          · rw [same]
            exact expected
          · exact apart other further

end Progress

end UdtNode

namespace UdtNode

section Income

variable {node : UdtNode} {pocket : UdtPocket}

theorem handleIncomeData_behind (some : pocket.data ≠ [])
    (offset : (pocket.sequence - node.receivedSequence).toInt < 0) :
    (node.handleIncomeData pocket).2 = node.sendAck.2 := by
  have length := length_pos_of_ne_nil some
  unfold handleIncomeData
  rw [if_neg (Nat.ne_of_gt length), if_neg (by omega), if_pos offset]

theorem handleIncomeData_ahead (some : pocket.data ≠ [])
    (offset : 0 < (pocket.sequence - node.receivedSequence).toInt) :
    (node.handleIncomeData pocket).2 = node.addtoPreList pocket := by
  have length := length_pos_of_ne_nil some
  unfold handleIncomeData
  rw [if_neg (Nat.ne_of_gt length), if_pos offset]

theorem handleIncomeData_next (some : pocket.data ≠ [])
    (expected : pocket.sequence = node.receivedSequence)
    (room : pocket.data.length ≤ node.recvBuffer.freeCapacity) :
    (node.handleIncomeData pocket).2 =
      (node.storeData pocket.data).2.fetchPrelist node.preList := by
  have length := length_pos_of_ne_nil some
  have offset : (pocket.sequence - node.receivedSequence).toInt = 0 := by
    rw [expected, sub_self]
    rfl
  unfold handleIncomeData
  rw [if_neg (Nat.ne_of_gt length), offset, if_neg (Int.lt_irrefl 0),
    if_neg (Int.lt_irrefl 0), if_neg (Nat.not_lt_of_le room)]
  show (if node.preList.isEmpty then (node.storeData pocket.data).2
    else (node.storeData pocket.data).2.fetchPrelist node.preList) = _
  by_cases empty : node.preList = []
  · rw [empty]
    show (node.storeData pocket.data).2 =
      { (node.storeData pocket.data).2 with preList := [] }
    rw [← empty]
    rfl
  · rw [if_neg (by rwa [List.isEmpty_iff])]

theorem sendAck_received :
    node.sendAck.2.receivedSequence = node.receivedSequence ∧
      node.sendAck.2.recvBuffer = node.recvBuffer ∧
      node.sendAck.2.preList = node.preList := by
  unfold sendAck writePocketToSocket
  cases node.writeResults.head?.getD .sent with
  | sent | wouldBlock | failed => exact ⟨rfl, rfl, rfl⟩

theorem mem_insertPre_iff {packet entry : PrePacket} {list : List PrePacket} :
    entry ∈ insertPre packet list ↔ entry = packet ∨ entry ∈ list := by
  constructor
  · exact mem_insertPre
  · induction list with
    | nil =>
      intro member
      exact mem_singleton.mpr (member.resolve_right not_mem_nil)
    | cons head later induction =>
      intro member
      unfold insertPre
      grind

end Income

end UdtNode

namespace Reception

open UdtNode

section Steps

variable {first : UdtNode} {tiles : List UdtPocket} {state : Reception}
  {pocket : UdtPocket} {now : NdTime}

/-- A node that has received the front of the range keeps every packet of the
rest that has arrived. -/
structure Received (first : UdtNode) (tiles : List UdtPocket)
    (state : Reception) : Prop where
  kept : ∀ entry ∈ state.node.preList, entry.pack ∈ tiles
  progress : ∃ done rest, tiles = done ++ rest ∧
    Progress first done state.node ∧
    ∀ tile ∈ rest, tile ∈ state.arrived →
      ∃ entry ∈ state.node.preList, entry.pack = tile

theorem Received.packet (tiled : first.Tiled tiles)
    (holds : Received first tiles state) (ready : state.node.NoneReady)
    (member : pocket ∈ tiles) :
    Received first tiles (state.step (.packet now pocket)) ∧
      ((state.step (.packet now pocket)).node.NoneReady ↔
        state.InTurn (.packet now pocket)) := by
  obtain ⟨done, rest, rfl, progress, waiting⟩ := holds.progress
  have number := progress.number
  have some : pocket.data ≠ [] := by
    obtain ⟨before, after, -, -, positive⟩ := tiled.row.number member
    exact ne_nil_of_length_pos positive
  rcases tiled.cases member with
    ⟨stored, offset⟩ | ⟨later, rfl, expected⟩ | ⟨ahead, offset⟩
  · -- an old packet, which is answered with an acknowledgement
    rw [← number] at offset
    obtain ⟨received, buffer, list⟩ :=
      @sendAck_received { state.node with now := now }
    have handled : (state.step (.packet now pocket)).node =
        (sendAck { state.node with now := now }).2 :=
      handleIncomeData_behind some offset
    constructor
    · refine ⟨?_, done, rest, rfl, ⟨?_, ?_⟩, ?_⟩
      · rw [handled, list]
        exact holds.kept
      · rw [handled, received]
        exact number
      · rw [handled, buffer]
        exact progress.buffer
      · intro tile inside arrived
        rw [handled, list]
        rcases mem_cons.mp arrived with same | before
        · exact absurd (same ▸ inside) (tiled.apart stored)
        · exact waiting tile inside before
    · constructor
      · intro _ expected
        rw [expected, sub_self] at offset
        exact absurd offset (by decide)
      · intro _ entry listed
        rw [handled, list] at listed
        rw [handled, received]
        exact ready entry listed
  · -- the packet that was expected closes the gap
    have next : pocket.sequence = state.node.receivedSequence :=
      expected.trans number.symm
    have handled : (state.step (.packet now pocket)).node =
        (storeData { state.node with now := now } pocket.data).2.fetchPrelist
          state.node.preList :=
      handleIncomeData_next some next (progress.free tiled)
    have whole : done ++ pocket :: later = (done ++ [pocket]) ++ later := by
      rw [append_assoc]
      rfl
    have moved : Progress first done { state.node with now := now } :=
      ⟨number, progress.buffer⟩
    have kept := holds.kept
    rw [whole] at tiled kept
    obtain ⟨more, left, split, stored, old, remains, drained⟩ :=
      (moved.storeData pocket).fetchPrelist tiled kept
    rw [← handled] at stored old remains drained
    rw [append_assoc] at stored
    constructor
    · refine ⟨?_, done ++ pocket :: more, left, ?_, stored, ?_⟩
      · intro entry listed
        rw [whole]
        exact kept entry (old entry listed)
      · rw [split, append_assoc]
        rfl
      · intro tile inside arrived
        have further : tile ∈ later := split ▸ mem_append_right more inside
        rcases mem_cons.mp arrived with same | before
        · refine absurd (same ▸ further) (tiled.apart ?_)
          exact mem_append_right _ (mem_singleton_self _)
        · obtain ⟨entry, listed, same⟩ :=
            waiting tile (mem_cons_of_mem _ further) before
          exact ⟨entry, remains entry listed (same ▸ inside), same⟩
    · rw [drained]
      show InOrder (state.node.receivedSequence + _) _ ↔ (_ → InOrder _ _)
      rw [← next]
      exact ⟨fun turn _ => turn, fun turn => turn rfl⟩
  · -- a packet behind a gap is kept
    rw [← number] at offset
    have handled : (state.step (.packet now pocket)).node =
        addtoPreList { state.node with now := now } pocket :=
      handleIncomeData_ahead some offset
    have listed (entry : PrePacket) :
        entry ∈ (state.step (.packet now pocket)).node.preList ↔
          entry = ⟨now, pocket⟩ ∨ entry ∈ state.node.preList := by
      rw [handled]
      exact mem_insertPre_iff
    constructor
    · refine ⟨?_, done, rest, rfl, ?_, ?_⟩
      · intro entry inside
        rcases (listed entry).mp inside with same | old
        · rw [same]
          exact member
        · exact holds.kept entry old
      · rw [handled]
        exact ⟨number, progress.buffer⟩
      · intro tile inside arrived
        rcases mem_cons.mp arrived with same | before
        · exact ⟨⟨now, pocket⟩, (listed _).mpr (.inl rfl), same.symm⟩
        · obtain ⟨entry, old, same⟩ := waiting tile inside before
          exact ⟨entry, (listed entry).mpr (.inr old), same⟩
    · constructor
      · intro _ expected
        rw [expected, sub_self] at offset
        exact absurd offset (by decide)
      · intro _ entry inside
        have same : (state.step (.packet now pocket)).node.receivedSequence =
            state.node.receivedSequence := by
          rw [handled]
          rfl
        rw [same]
        rcases (listed entry).mp inside with new | old
        · rw [new]
          intro expected
          have expected : pocket.sequence = state.node.receivedSequence :=
            expected
          rw [expected, sub_self] at offset
          exact absurd offset (by decide)
        · exact ready entry old

theorem Received.update (tiled : first.Tiled tiles)
    (holds : Received first tiles state) (ready : state.node.NoneReady)
    (young : state.Arrives tiles (.update now)) :
    Received first tiles (state.step (.update now)) ∧
      (state.step (.update now)).node.NoneReady := by
  obtain ⟨done, rest, rfl, progress, waiting⟩ := holds.progress
  have old (entry : PrePacket)
      (listed : entry ∈ (state.step (.update now)).node.preList) :
      entry ∈ state.node.preList := (mem_filter.mp listed).1
  refine ⟨⟨?_, done, rest, rfl, ?_, ?_⟩, ?_⟩
  · intro entry listed
    exact holds.kept entry (old entry listed)
  · exact ⟨progress.number, progress.buffer⟩
  · intro tile inside arrived
    obtain ⟨entry, listed, same⟩ := waiting tile inside arrived
    have offset : 0 ≤ (entry.pack.sequence -
        state.node.receivedSequence).toInt := by
      rw [progress.number, same]
      rcases tiled.cases (mem_append_right done inside) with
        ⟨stored, -⟩ | ⟨-, -, expected⟩ | ⟨-, offset⟩
      · exact absurd inside (tiled.apart stored)
      · rw [expected, sub_self]
        decide
      · omega
    have age := young entry listed
    refine ⟨entry, mem_filter.mpr ⟨listed, ?_⟩, same⟩
    simp only [Bool.not_eq_true', Bool.or_eq_false_iff, decide_eq_false_iff_not]
    exact ⟨Int.not_lt.mpr offset, Int.not_lt.mpr age⟩
  · intro entry listed
    exact ready entry (old entry listed)

theorem inOrderArrival_buffer {done rest : List UdtPocket} {node : UdtNode}
    (tiled : first.Tiled (done ++ rest)) (progress : Progress first done node)
    (empty : node.preList = []) :
    (node.inOrderArrival rest).recvBuffer =
      filled first.recvBuffer (done ++ rest) := by
  induction rest generalizing done node with
  | nil =>
    rw [append_nil]
    exact progress.buffer
  | cons tile rest induction =>
    obtain ⟨-, back⟩ := row_append.mp tiled.row
    have expected : tile.sequence = node.receivedSequence :=
      back.1.trans progress.number.symm
    have handled : (node.handleIncomeData tile).2 =
        { (node.storeData tile.data).2 with preList := [] } := by
      rw [handleIncomeData_next back.2.1 expected (progress.free tiled), empty]
      rfl
    have stored := progress.storeData tile
    have whole : done ++ tile :: rest = (done ++ [tile]) ++ rest := by
      rw [append_assoc]
      rfl
    rw [whole] at tiled ⊢
    show (inOrderArrival (node.handleIncomeData tile).2 rest).recvBuffer = _
    rw [handled]
    exact induction tiled ⟨stored.number, stored.buffer⟩ rfl

theorem Received.used (tiled : first.Tiled tiles)
    (holds : Received first tiles state) (ready : state.node.NoneReady) :
    Used first tiles state := by
  refine ⟨ready, ?_⟩
  intro all
  obtain ⟨done, rest, rfl, progress, waiting⟩ := holds.progress
  cases rest with
  | nil =>
    have start : Progress first [] first :=
      ⟨(add_zero first.receivedSequence).symm, rfl⟩
    have whole : first.Tiled ([] ++ (done ++ [])) := tiled
    have sorted := inOrderArrival_buffer whole start tiled.fresh
    rw [nil_append] at sorted
    rw [sorted, append_nil, ← progress.buffer, progress.number]
    exact ⟨rfl, rfl⟩
  | cons tile later =>
    have member : tile ∈ done ++ tile :: later :=
      mem_append_right done mem_cons_self
    obtain ⟨entry, listed, same⟩ :=
      waiting tile mem_cons_self (all tile member)
    obtain ⟨-, back⟩ := row_append.mp tiled.row
    refine absurd ?_ (ready entry listed)
    rw [same, progress.number]
    exact back.1

end Steps

/-- Every packet of a range is used as soon as it can be, and the range is
complete when all its packets have arrived, exactly in the runs in which the
kept packets are in turn whenever the expected one arrives. -/
theorem reorderRun_used_iff {node : UdtNode} {tiles : List UdtPocket}
    (tiled : node.Tiled tiles) {inputs : List Income}
    (arrives : Runs.Meets step (Arrives tiles) ⟨node, []⟩ inputs) :
    (∀ visited ∈ Runs.states step ⟨node, []⟩ inputs, Used node tiles visited) ↔
      Runs.Meets step InTurn ⟨node, []⟩ inputs := by
  refine Runs.law_iff_meets (fun state (kept : Received node tiles state ∧
    state.node.NoneReady) => kept.1.used tiled kept.2) ?_ ?_ ?_ arrives
  · rintro state input ⟨received, ready⟩ allowed turn
    cases input with
    | packet now pocket =>
      obtain ⟨kept, same⟩ := received.packet tiled ready allowed
      exact ⟨kept, same.mpr turn⟩
    | update now => exact received.update tiled ready allowed
  · rintro state input ⟨received, ready⟩ allowed stuck used
    cases input with
    | packet now pocket =>
      exact stuck ((received.packet tiled ready allowed).2.mp used.ready)
    | update now => exact stuck trivial
  · have none (entry : PrePacket) : entry ∉ node.preList := by
      rw [tiled.fresh]
      exact not_mem_nil
    refine ⟨⟨fun entry member => absurd member (none entry), [], tiles, rfl,
      ⟨(add_zero node.receivedSequence).symm, rfl⟩, ?_⟩,
      fun entry member => absurd member (none entry)⟩
    intro tile _ arrived
    cases arrived

end Reception

section Samples

open UdtNode Reception

def bytePacket (sequence : Seq) (byte : Byte) : UdtPocket :=
  { UdtPocket.init with sequence := sequence, data := [byte] }

def gapNode : UdtNode :=
  { connectedUdt 0 0xffffffff [] with
    recvBuffer :=
      { autoInc := false
        capacity := packetSize
        startOff := 0
        endOff := 0
        storage := List.replicate packetSize 0 } }

def gapTiles : List UdtPocket :=
  [bytePacket 0xffffffff 1, bytePacket 0 2, bytePacket 1 3]

theorem gapTiles_tiled : gapNode.Tiled gapTiles :=
  { row := by decide
    buffer :=
      { ordered := Nat.le_refl 0
        bounded := Nat.zero_le _
        storage_length := length_replicate
        content_eq := rfl }
    capacity := rfl
    room := by decide
    fresh := rfl }

/-- The second and the third packet arrive in order, each at a time of its own,
before the first; so they are used as soon as it is there. -/
theorem reorderRun_used_inTurn :
    gapNode.Tiled gapTiles ∧
      ∀ visited ∈ Runs.states step ⟨gapNode, []⟩
          [.packet 1 (bytePacket 0 2), .packet 2 (bytePacket 1 3), .update 3,
            .packet 4 (bytePacket 0xffffffff 1), .packet 5 (bytePacket 0 2)],
        Used gapNode gapTiles visited :=
  ⟨gapTiles_tiled,
    (reorderRun_used_iff gapTiles_tiled (by decide)).mpr (by decide)⟩

/-- Three orders that leave a packet unused when the gap closes: the third
packet before the second, both in order at the same moment, and the second one
twice. -/
theorem reorderRun_leaves_packet :
    gapNode.Tiled gapTiles ∧
      ∀ inputs ∈
        [[Income.packet 1 (bytePacket 1 3), .packet 2 (bytePacket 0 2),
          .packet 3 (bytePacket 0xffffffff 1)],
        [.packet 1 (bytePacket 0 2), .packet 1 (bytePacket 1 3),
          .packet 1 (bytePacket 0xffffffff 1)],
        [.packet 1 (bytePacket 0 2), .packet 2 (bytePacket 0 2),
          .packet 3 (bytePacket 1 3), .packet 4 (bytePacket 0xffffffff 1)]],
      Runs.Meets step (Arrives gapTiles) ⟨gapNode, []⟩ inputs ∧
        ¬ ∀ visited ∈ Runs.states step ⟨gapNode, []⟩ inputs,
          Used gapNode gapTiles visited := by
  refine ⟨gapTiles_tiled, ?_⟩
  intro inputs member
  have fails : Runs.Meets step (Arrives gapTiles) ⟨gapNode, []⟩ inputs ∧
      ¬ (inputs.foldl step ⟨gapNode, []⟩).node.NoneReady := by
    revert inputs
    decide
  refine ⟨fails.1, ?_⟩
  intro used
  exact fails.2 (used _ (Runs.foldl_mem_states step _ inputs)).ready

end Samples

end NdNet
