import Mathlib.Data.Finset.Card
import MoonProto.Protocol.Slicing

/-!
# Reassembly of sliced datagrams

The receiver of `src/protocol/slicing.rs` seen from outside: it collects the set
of blocks of a message that have arrived. `Collects` ties the buffer, the spans,
the counter and the ACK flags of a `SlicedData` to that set, and `Entry` ties the
receiver to it. Both ways of assembling give the message, whatever the order of
arrival was, and a block that is already there changes nothing.
-/

namespace MoonProto

open Codec List Option Function Bool

/-! ## A message in blocks -/

/-- A message under a datagram number, cut into at most 256 blocks. Block 0 starts
with the command. -/
structure Cut where
  num : UInt16
  cmd : UInt8
  first : Bytes
  tail : List Bytes
  tail_le : tail.length ≤ 255

namespace Cut

def data (m : Cut) : Bytes := m.first ++ m.tail.flatten

def count (m : Cut) : Nat := m.tail.length + 1

/-- The bytes of the blocks behind their headers. -/
def chunks (m : Cut) : List Bytes := (m.cmd :: m.first) :: m.tail

def chunk (m : Cut) (i : Nat) : Bytes := m.chunks.getD i []

def maxBlockNum (m : Cut) : UInt8 := UInt8.ofNat m.tail.length

def header (m : Cut) (i : Nat) : SliceHeader := ⟨m.num, UInt8.ofNat i, m.maxBlockNum⟩

def block (m : Cut) (i : Nat) : Bytes := (m.header i).toBytes ++ m.chunk i

/-- The blocks as they are sent. -/
def blocks (m : Cut) : List Bytes := m.chunks.mapIdx fun i chunk => (m.header i).toBytes ++ chunk

theorem count_pos (m : Cut) : 0 < m.count := Nat.succ_pos _

theorem empty_ne_range (m : Cut) : (∅ : Finset Nat) ≠ Finset.range m.count := by
  intro h
  exact absurd (h ▸ Finset.mem_range.mpr m.count_pos) (Finset.notMem_empty 0)

theorem mem_blocks {m : Cut} {payload : Bytes} :
    payload ∈ m.blocks ↔ ∃ i < m.count, payload = m.block i := by
  rw [blocks, mem_mapIdx]
  constructor
  · rintro ⟨i, hi, rfl⟩
    refine ⟨i, hi, ?_⟩
    rw [block, chunk, getD_eq_getElem _ _ hi]
  · rintro ⟨i, hi, rfl⟩
    refine ⟨i, hi, ?_⟩
    rw [block, chunk, getD_eq_getElem _ _ hi]

theorem maxBlockNum_toNat (m : Cut) : m.maxBlockNum.toNat + 1 = m.count := by
  have hle := m.tail_le
  rw [maxBlockNum, UInt8.toNat_ofNat', Nat.mod_eq_of_lt (by omega)]
  rfl

theorem blockNum_toNat {m : Cut} {i : Nat} (hi : i < m.count) : (UInt8.ofNat i).toNat = i := by
  have hle := m.tail_le
  unfold count at hi
  rw [UInt8.toNat_ofNat', Nat.mod_eq_of_lt (by omega)]

theorem fromBytes_block (m : Cut) (i : Nat) :
    SliceHeader.fromBytes (m.block i) = some (m.header i) :=
  SliceHeader.fromBytes_toBytes _ _

theorem block_injective {m : Cut} {i j : Nat} (hi : i < m.count) (hj : j < m.count)
    (h : m.block i = m.block j) : i = j := by
  have hhdr : m.header i = m.header j := by
    have hbytes := m.fromBytes_block i
    rw [h, m.fromBytes_block j] at hbytes
    exact (Option.some.inj hbytes).symm
  have hnum := congrArg (fun h => h.blockNum.toNat) hhdr
  rwa [header, header, blockNum_toNat hi, blockNum_toNat hj] at hnum

theorem drop_block (m : Cut) (i : Nat) : (m.block i).drop sliceHeaderSize = m.chunk i :=
  SliceHeader.drop_toBytes _ _

theorem flatMap_getD (l : List Bytes) :
    (range l.length).flatMap (fun i => l.getD i []) = l.flatten := by
  rw [flatMap_def]
  refine congrArg List.flatten (ext_getElem (by simp) fun i h₁ h₂ => ?_)
  simp [getElem?_eq_getElem h₂]

theorem flatMap_chunk (m : Cut) : (range m.count).flatMap m.chunk = m.cmd :: m.data :=
  flatMap_getD m.chunks

theorem flatMap_chunk_tail (m : Cut) : ((range m.count).tail).flatMap m.chunk = m.tail.flatten := by
  have hall := m.flatMap_chunk
  have hrange : range m.count = 0 :: (range m.count).tail := by
    rw [count, range_succ_eq_map]
    rfl
  rw [hrange, flatMap_cons] at hall
  have hsplit : (m.cmd :: m.first) ++ (range m.count).tail.flatMap m.chunk
      = (m.cmd :: m.first) ++ m.tail.flatten := hall
  exact append_cancel_left hsplit

end Cut

/-! ## One datagram -/

open SlicedData

/-- The blocks `S` of the message are in, and nothing else. -/
structure Collects (m : Cut) (S : Finset Nat) (s : SlicedData) : Prop where
  subset : S ⊆ Finset.range m.count
  blocksCount : s.blocksCount = m.count
  present : ∀ i, (s.blockSpans i).present = true ↔ i ∈ S
  holds : Scatter.Holds m.chunk S s.blockPayloads fun i => (s.blockSpans i).toSpan
  received : s.receivedCount = S.card
  flags : ∀ i, ByteSet.mem s.ackFlags i = true ↔ i ∈ S
  returned : s.completionReturned = false

namespace Collects

variable {m : Cut} {S : Finset Nat} {s : SlicedData}

theorem new (m : Cut) : Collects m ∅ (SlicedData.new m.maxBlockNum) where
  subset := Finset.empty_subset _
  blocksCount := m.maxBlockNum_toNat
  present := fun i => by simp [SlicedData.new, BlockSpan.default]
  holds := .empty _ _
  received := rfl
  flags := fun i => by simp [SlicedData.new]
  returned := rfl

/-- The counter is full exactly when all blocks are in. -/
theorem received_eq_iff (h : Collects m S s) :
    s.receivedCount = s.blocksCount ↔ S = Finset.range m.count := by
  rw [h.received, h.blocksCount]
  constructor
  · intro hcard
    refine Finset.eq_of_subset_of_card_le h.subset ?_
    rw [hcard, Finset.card_range]
  · intro hS
    rw [hS, Finset.card_range]

theorem byte_lt {i : Nat} (hi : i < m.count) : i / 8 < 32 := by
  have hle := m.tail_le
  unfold Cut.count at hi
  omega

/-- **A block arrives**: it joins the set, and the datagram counts as complete
exactly when the set is full. -/
theorem receivePiece (h : Collects m S s) {i : Nat} (hi : i < m.count) :
    Collects m (insert i S) (s.receivePiece (UInt8.ofNat i) (m.chunk i)).2 ∧
      ((s.receivePiece (UInt8.ofNat i) (m.chunk i)).1 = true ↔
        insert i S = Finset.range m.count) := by
  have hsub : insert i S ⊆ Finset.range m.count :=
    Finset.insert_subset (Finset.mem_range.mpr hi) h.subset
  have hflags : ∀ j, ByteSet.mem (ByteSet.insert s.ackFlags i) j = true ↔ j ∈ insert i S := by
    intro j
    rw [ByteSet.mem_insert _ (byte_lt hi), h.flags, Finset.mem_insert]
  have hcollects : Collects m (insert i S) (s.receivePiece (UInt8.ofNat i) (m.chunk i)).2 := by
    unfold SlicedData.receivePiece
    rw [Cut.blockNum_toNat hi, if_neg (by rw [h.blocksCount]; exact Nat.not_le.mpr hi)]
    by_cases hin : i ∈ S
    · have hpresent := (h.present i).mpr hin
      rw [Finset.insert_eq_of_mem hin] at hsub hflags ⊢
      simp only [hpresent, if_true]
      exact ⟨hsub, h.blocksCount, h.present, h.holds, h.received, hflags, h.returned⟩
    · have habsent : (s.blockSpans i).present = false := by
        rw [← not_eq_true, h.present]
        exact hin
      simp only [habsent, false_eq_true, if_false]
      refine ⟨hsub, h.blocksCount, fun j => ?_, ?_, ?_, hflags, h.returned⟩
      · show (Function.update s.blockSpans i _ j).present = true ↔ _
        rw [Finset.mem_insert, ← h.present j]
        by_cases hj : j = i
        · rw [hj, update_self]
          exact iff_of_true rfl (.inl rfl)
        · rw [update_of_ne hj, or_iff_right hj]
      · show Scatter.Holds m.chunk _ _ fun j => (Function.update s.blockSpans i _ j).toSpan
        rw [funext (apply_update (fun _ => BlockSpan.toSpan) s.blockSpans i _)]
        exact h.holds.insert hin
      · show s.receivedCount + 1 = _
        rw [Finset.card_insert_of_notMem hin, h.received]
  refine ⟨hcollects, ?_⟩
  rw [← hcollects.received_eq_iff]
  unfold SlicedData.receivePiece
  rw [Cut.blockNum_toNat hi, if_neg (by rw [h.blocksCount]; exact Nat.not_le.mpr hi)]
  exact beq_iff_eq

/-- **Assembly**: with all blocks in, the message comes out, moved or copied. -/
theorem assemble (h : Collects m (Finset.range m.count) s) :
    ∃ payload, s.assemble.1 = some (m.cmd, payload) ∧ payload.view = m.data := by
  have hzero : 0 ∈ Finset.range m.count := Finset.mem_range.mpr (Nat.succ_pos _)
  have hread : Scatter.read s.blockPayloads (s.blockSpans 0).toSpan = m.cmd :: m.first :=
    h.holds.read 0 hzero
  have hlen : (s.blockSpans 0).len ≠ 0 := by
    have hfirst : (s.blockSpans 0).len = (m.chunk 0).length := h.holds.len 0 hzero
    rw [hfirst]
    exact Nat.succ_ne_zero _
  have hcmd : byteAt s.blockPayloads (s.blockSpans 0).offset = m.cmd :=
    Scatter.getD_offset hread 0
  have hcomplete : s.isComplete = true := beq_iff_eq.mpr (h.received_eq_iff.mpr rfl)
  unfold SlicedData.assemble
  simp only [hcomplete, Bool.not_true, false_eq_true, if_false, if_neg hlen, hcmd]
  split
  · next hordered =>
    refine ⟨_, rfl, ?_⟩
    rw [spans, h.blocksCount] at hordered
    have hbuf : s.blockPayloads = m.cmd :: m.data := by
      rw [← m.flatMap_chunk]
      have hrange : (range m.count).toFinset = Finset.range m.count := by
        ext i
        simp
      exact Scatter.Holds.eq_of_contiguous nodup_range (hrange ▸ h.holds) hordered
    show s.blockPayloads.drop (min 1 s.blockPayloads.length) = m.data
    rw [hbuf, length_cons, Nat.min_eq_left (Nat.succ_pos _)]
    rfl
  · refine ⟨_, rfl, ?_⟩
    have hrest : Scatter.gather s.blockPayloads s.spans.tail = m.tail.flatten := by
      rw [spans, h.blocksCount, ← map_tail, ← m.flatMap_chunk_tail]
      refine h.holds.gather fun i hi => ?_
      exact Finset.mem_range.mpr (mem_range.mp (mem_of_mem_tail hi))
    unfold Scatter.gather at hrest
    rw [Payload.view_ofBytes, Scatter.gather, flatMap_cons, hrest,
      Scatter.read_skip _ (s.blockSpans 0).toSpan, hread]
    rfl

end Collects

/-! ## The receiver -/

/-- The message that `on_new_sliced_with_session` returned is `m`. -/
structure Assembled.IsOf (m : Cut) (a : Assembled) : Prop where
  datagramNum : a.datagramNum = m.num
  cmd : a.cmd = m.cmd
  data : a.data.view = m.data

/-- A datagram that has been handed out and still has its entry. -/
structure HandedOut (m : Cut) (s : SlicedData) : Prop where
  blocksCount : s.blocksCount = m.count
  returned : s.completionReturned = true

namespace SlicingReceiver

variable {m : Cut} {S : Finset Nat}

/-- What the receiver has of a message while its slot is inside the window: an
entry with the blocks `S`, or, once all are in, none or a finished one. -/
inductive Entry (m : Cut) (S : Finset Nat) (r : SlicingReceiver) : Prop
  | partly (s : SlicedData) (hS : S ≠ Finset.range m.count) (hs : r.receiving m.num = some s)
      (h : Collects m S s)
  | wholly (hS : S = Finset.range m.count)
      (h : ∀ s, r.receiving m.num = some s → HandedOut m s)

variable {r : SlicingReceiver} {n : UInt16}

theorem Entry.of_receiving {r' : SlicingReceiver} (h : Entry m S r)
    (hsame : r'.receiving m.num = r.receiving m.num) : Entry m S r' := by
  rcases h with ⟨s, hS, hs, hcollects⟩ | ⟨hS, hhanded⟩
  · exact .partly s hS (hsame.trans hs) hcollects
  · exact .wholly hS fun s hs => hhanded s (hsame.symm.trans hs)

/-- A block of the message meets the receiver in order: as the first one while the
slot is stale, or while the slot is inside the window and the receiver has what
arrived before. -/
inductive Meets (m : Cut) (S : Finset Nat) (r : SlicingReceiver) : Prop
  | first (hstale : r.isStale m.num = true) (hS : S = ∅)
  | later (hstale : r.isStale m.num = false) (h : Entry m S r)

/-- What one block does: the answer, and the receiver behind it. -/
structure Takes (m : Cut) (S : Finset Nat) (i : Nat) (ackSession : UInt32) (r : SlicingReceiver)
    (out : (Option Assembled × Bytes) × SlicingReceiver) : Prop where
  /-- The message comes out exactly when this block is the last one. -/
  assembled : if insert i S = Finset.range m.count ∧ S ≠ Finset.range m.count
    then ∃ a, out.1.1 = some a ∧ a.IsOf m else out.1.1 = none
  /-- The ACK names only blocks that are in. -/
  ack : ∃ flags, out.1.2 = buildAckBytes flags m.num ackSession ∧
    ∀ j < m.count, ByteSet.mem flags j = true → j ∈ insert i S
  entry : Entry m (insert i S) out.2
  others : ∀ n, n ≠ m.num → out.2.receiving n = r.receiving n
  lastOnline : out.2.lastOnline = r.lastOnline
  lastCleaned : out.2.lastCleanedReceived = r.lastCleanedReceived
  stamped : out.2.lastRecvdTs = if r.isStale m.num = true
    then Function.update r.lastRecvdTs (bucket m.num) r.lastOnline else r.lastRecvdTs

/-- `addPiece` on an entry that has the blocks `S`. -/
theorem addPiece_takes (r : SlicingReceiver) {s : SlicedData} (h : Collects m S s)
    {i : Nat} (hi : i < m.count) (ackSession : UInt32) :
    ∃ s' flags, (r.addPiece (m.header i) (m.chunk i) s ackSession).2 = r.put m.num s' ∧
      (r.addPiece (m.header i) (m.chunk i) s ackSession).1.2
        = buildAckBytes flags m.num ackSession ∧
      (∀ j, ByteSet.mem flags j = true ↔ j ∈ insert i S) ∧
      if insert i S = Finset.range m.count
        then HandedOut m s' ∧
          ∃ a, (r.addPiece (m.header i) (m.chunk i) s ackSession).1.1 = some a ∧ a.IsOf m
        else Collects m (insert i S) s' ∧
          (r.addPiece (m.header i) (m.chunk i) s ackSession).1.1 = none := by
  obtain ⟨hcollects, hcomplete⟩ := h.receivePiece hi
  unfold addPiece
  simp only [Cut.header]
  by_cases hfull : insert i S = Finset.range m.count
  · rw [hfull] at hcollects
    obtain ⟨payload, hout, hview⟩ := hcollects.assemble
    have hblocks : (s.receivePiece (UInt8.ofNat i) (m.chunk i)).2.assemble.2.blocksCount
        = (s.receivePiece (UInt8.ofNat i) (m.chunk i)).2.blocksCount := by
      unfold SlicedData.assemble
      split
      · rfl
      · simp only
        split <;> rfl
    simp only [hcomplete.mpr hfull, if_true, hfull, hout, map_some]
    refine ⟨_, _, rfl, rfl, fun j => ?_, ⟨?_, rfl⟩, _, rfl, ⟨rfl, rfl, hview⟩⟩
    · exact hcollects.flags j
    · exact hblocks.trans hcollects.blocksCount
  · have hmissing : (s.receivePiece (UInt8.ofNat i) (m.chunk i)).1 = false := by
      rw [← not_eq_true, hcomplete]
      exact hfull
    simp only [hmissing, false_eq_true, if_false, if_neg hfull]
    exact ⟨_, _, rfl, rfl, hcollects.flags, hcollects, trivial⟩

@[simp] theorem receiving_put (r : SlicingReceiver) (n : UInt16) (s : SlicedData) :
    (r.put n s).receiving n = some s := update_self ..

theorem receiving_put_of_ne (r : SlicingReceiver) {n' : UInt16} (s : SlicedData) (h : n' ≠ n) :
    (r.put n s).receiving n' = r.receiving n' := update_of_ne h _ r.receiving

/-- A block for an open entry, from the receiver `r₀` whose slot may just have
been stamped. -/
theorem addPiece_takes_of {r₀ : SlicingReceiver} {s : SlicedData} (h : Collects m S s)
    (hS : S ≠ Finset.range m.count) {i : Nat} (hi : i < m.count) (ackSession : UInt32)
    (hothers : ∀ n, n ≠ m.num → r.receiving n = r₀.receiving n)
    (hlast : r.lastOnline = r₀.lastOnline)
    (hcleaned : r.lastCleanedReceived = r₀.lastCleanedReceived)
    (hstamped : r.lastRecvdTs = if r₀.isStale m.num = true
      then Function.update r₀.lastRecvdTs (bucket m.num) r₀.lastOnline else r₀.lastRecvdTs) :
    Takes m S i ackSession r₀ (r.addPiece (m.header i) (m.chunk i) s ackSession) := by
  obtain ⟨s', flags, hr, hack, hflags, hout⟩ := addPiece_takes r h hi ackSession
  refine ⟨?_, ⟨flags, hack, fun j _ hj => (hflags j).mp hj⟩, ?_, fun n hn => ?_, ?_, ?_, ?_⟩
  · split at hout
    · next hfull =>
      rw [if_pos ⟨hfull, hS⟩]
      exact hout.2
    · next hpartly =>
      rw [if_neg fun hc => hpartly hc.1]
      exact hout.2
  · rw [hr]
    split at hout
    · next hfull =>
      refine .wholly hfull fun t ht => ?_
      rw [receiving_put] at ht
      cases ht
      exact hout.1
    · next hpartly => exact .partly s' hpartly (receiving_put r m.num s') hout.1
  · rw [hr, receiving_put_of_ne r s' hn]
    exact hothers n hn
  · rw [hr]
    exact hlast
  · rw [hr]
    exact hcleaned
  · rw [hr]
    exact hstamped

theorem fullAck_takes (hstale : r.isStale m.num = false)
    (hS : S = Finset.range m.count) (hs : ∀ s, r.receiving m.num = some s → HandedOut m s)
    {i : Nat} (hi : i < m.count) (ackSession : UInt32) :
    Takes m S i ackSession r ((none, buildAckBytes ByteSet.full m.num ackSession), r) := by
  have hin : insert i S = S := by
    rw [hS]
    exact Finset.insert_eq_of_mem (Finset.mem_range.mpr hi)
  refine ⟨?_, ⟨_, rfl, fun j hj _ => ?_⟩, ?_, fun _ _ => rfl, rfl, rfl, ?_⟩
  · rw [if_neg fun hc => hc.2 hS]
  · rw [hin, hS]
    exact Finset.mem_range.mpr hj
  · exact .wholly (hin.trans hS) hs
  · rw [if_neg (by rw [hstale]; exact Bool.false_ne_true)]

/-- **One block of a message**, met in order. -/
theorem onNewSliced_takes (h : Meets m S r) {i : Nat} (hi : i < m.count) (ackSession : UInt32) :
    Takes m S i ackSession r (r.onNewSlicedWithSession (m.block i) ackSession) := by
  unfold onNewSlicedWithSession
  rw [m.fromBytes_block]
  simp only [m.drop_block]
  have hnum : (m.header i).datagramNum = m.num := rfl
  have hmax : (m.header i).maxBlockNum = m.maxBlockNum := rfl
  rcases h with ⟨hstale, rfl⟩ | ⟨hstale, hentry⟩
  · -- the slot is stale: whatever the receiver had under the number is dropped
    have hne : (∅ : Finset Nat) ≠ Finset.range m.count := by
      intro hempty
      exact absurd (hempty ▸ Finset.mem_range.mpr (Nat.succ_pos m.tail.length))
        (Finset.notMem_empty 0)
    simp only [isNewDatagram, hnum, hstale, if_true, entryFor, hmax, SlicedData.new,
      false_eq_true, if_false]
    refine addPiece_takes_of (Collects.new m) hne hi ackSession (fun n hn => ?_) rfl rfl ?_
    · exact receiving_put_of_ne _ _ hn
    · rw [if_pos hstale]
      rfl
  · cases hentry with
    | partly s hS hs hcollects =>
      have hcount : ¬ s.blocksCount - 1 ≠ m.maxBlockNum.toNat := by
        rw [hcollects.blocksCount, ← m.maxBlockNum_toNat, Nat.add_sub_cancel]
        exact fun hc => hc rfl
      simp only [isNewDatagram, hnum, hstale, entryFor, hmax, hs, map_some, if_neg hcount,
        hcollects.returned, false_eq_true, if_false]
      refine addPiece_takes_of hcollects hS hi ackSession (fun n hn => ?_) rfl rfl ?_
      · exact receiving_put_of_ne _ _ hn
      · rw [if_neg (by rw [hstale]; exact Bool.false_ne_true)]
        rfl
    | wholly hS hs =>
      cases hreceiving : r.receiving m.num with
      | none =>
        simp only [isNewDatagram, hnum, hstale, entryFor, hreceiving, map_none,
          false_eq_true, if_false]
        exact fullAck_takes hstale hS hs hi ackSession
      | some s =>
        have hdone := hs s hreceiving
        have hcount : ¬ s.blocksCount - 1 ≠ m.maxBlockNum.toNat := by
          rw [hdone.blocksCount, ← m.maxBlockNum_toNat, Nat.add_sub_cancel]
          exact fun hc => hc rfl
        have hput : r.put m.num s = r := by
          unfold put
          rw [← hreceiving, update_eq_self]
        simp only [isNewDatagram, hnum, hstale, entryFor, hmax, hreceiving, map_some,
          if_neg hcount, hdone.returned, if_true, hput, false_eq_true, if_false]
        exact fullAck_takes hstale hS hs hi ackSession

/-! ## What other traffic leaves alone -/

/-- The slot of `n` and the entry under `n` are as they were. -/
structure Keeps (n : UInt16) (r r' : SlicingReceiver) : Prop where
  receiving : r'.receiving n = r.receiving n
  lastRecvdTs : r'.lastRecvdTs (bucket n) = r.lastRecvdTs (bucket n)

/-- A stale slot is the only one that is stamped. -/
theorem stamp_keeps {n' : UInt16} (hn : r.isStale n = false)
    (hn' : r.isStale n' = true) :
    (r.stamp n').lastRecvdTs (bucket n) = r.lastRecvdTs (bucket n) := by
  refine update_of_ne ?_ _ _
  intro hbucket
  rw [isStale, hbucket] at hn
  exact absurd hn' (eq_false_iff.mp hn)

/-- Blocks of other datagrams, and bytes that are no block, while the slot of `n`
is inside the window. -/
theorem onNewSliced_keeps (hn : r.isStale n = false) {payload : Bytes}
    (hother : ∀ hdr, SliceHeader.fromBytes payload = some hdr → hdr.datagramNum ≠ n)
    (ackSession : UInt32) :
    Keeps n r (r.onNewSlicedWithSession payload ackSession).2 ∧
      (r.onNewSlicedWithSession payload ackSession).2.lastOnline = r.lastOnline := by
  unfold onNewSlicedWithSession
  cases hdr : SliceHeader.fromBytes payload with
  | none => exact ⟨⟨rfl, rfl⟩, rfl⟩
  | some h =>
    have hne : n ≠ h.datagramNum := fun heq => hother h hdr heq.symm
    have hnew : Keeps n r (r.isNewDatagram h.datagramNum).2 ∧
        (r.isNewDatagram h.datagramNum).2.lastOnline = r.lastOnline := by
      unfold isNewDatagram
      split
      · next hstale => exact ⟨⟨rfl, stamp_keeps hn hstale⟩, rfl⟩
      · exact ⟨⟨rfl, rfl⟩, rfl⟩
    have hput : ∀ s, Keeps n r ((r.isNewDatagram h.datagramNum).2.put h.datagramNum s) :=
      fun s => ⟨(receiving_put_of_ne _ s hne).trans hnew.1.receiving, hnew.1.lastRecvdTs⟩
    simp only
    split
    · exact hnew
    split
    · exact ⟨hput _, hnew.2⟩
    unfold addPiece
    simp only
    have hagain : ∀ s s' : SlicedData, Keeps n r
        (((r.isNewDatagram h.datagramNum).2.put h.datagramNum s).put h.datagramNum s') :=
      fun s s' => ⟨(receiving_put_of_ne _ s' hne).trans (hput s).receiving, (hput s).lastRecvdTs⟩
    split
    · exact ⟨hagain _ _, hnew.2⟩
    · exact ⟨hagain _ _, hnew.2⟩

theorem onNewSliced_num {payload : Bytes} {ackSession : UInt32}
    {a : Assembled} (h : (r.onNewSlicedWithSession payload ackSession).1.1 = some a) :
    ∃ hdr, SliceHeader.fromBytes payload = some hdr ∧ a.datagramNum = hdr.datagramNum := by
  unfold onNewSlicedWithSession at h
  cases hdr : SliceHeader.fromBytes payload with
  | none =>
    rw [hdr] at h
    cases h
  | some hd =>
    refine ⟨hd, rfl, ?_⟩
    rw [hdr] at h
    simp only at h
    split at h
    · cases h
    split at h
    · cases h
    unfold addPiece at h
    simp only at h
    split at h
    · obtain ⟨out, -, rfl⟩ := Option.map_eq_some_iff.mp h
      rfl
    · cases h

/-- One visit of the cleanup leaves a slot and its entries alone, or finds the
slot stale and stamps it. -/
theorem clearOne_slot (r : SlicingReceiver) (num n : UInt16) :
    (r.clearOne num).lastOnline = r.lastOnline ∧
    (Keeps n r (r.clearOne num) ∨
      r.isStale n = true ∧ (r.clearOne num).lastRecvdTs (bucket n) = r.lastOnline) := by
  unfold clearOne
  split
  · next hcond =>
    obtain ⟨-, hstale⟩ := and_eq_true_iff.mp hcond
    refine ⟨rfl, ?_⟩
    by_cases hbucket : bucket n = bucket num
    · refine .inr ⟨?_, ?_⟩
      · rw [isStale, hbucket]
        exact hstale
      · rw [hbucket]
        exact update_self ..
    · refine .inl ⟨update_of_ne ?_ _ _, update_of_ne hbucket _ _⟩
      rintro rfl
      exact hbucket rfl
  · exact ⟨rfl, .inl ⟨rfl, rfl⟩⟩

theorem isStale_of_stamped (h : r.lastRecvdTs (bucket n) = r.lastOnline) : r.isStale n = false := by
  unfold isStale
  rw [h, Int.sub_self]
  rfl

theorem clearOld_slot (n : UInt16) : ∀ (order : List UInt16) (r : SlicingReceiver),
    (r.clearOld order).lastOnline = r.lastOnline ∧
    (Keeps n r (r.clearOld order) ∨
      r.isStale n = true ∧ (r.clearOld order).lastRecvdTs (bucket n) = r.lastOnline)
  | [], _ => ⟨rfl, .inl ⟨rfl, rfl⟩⟩
  | num :: order, r => by
    obtain ⟨hlast, hslot⟩ := clearOne_slot r num n
    obtain ⟨hlast', hslot'⟩ := clearOld_slot n order (r.clearOne num)
    refine ⟨hlast'.trans hlast, ?_⟩
    show Keeps n r ((r.clearOne num).clearOld order) ∨ _
    rcases hslot with hkeeps | ⟨hstale, hts⟩
    · rcases hslot' with hkeeps' | ⟨hstale', hts'⟩
      · exact .inl ⟨hkeeps'.receiving.trans hkeeps.receiving,
          hkeeps'.lastRecvdTs.trans hkeeps.lastRecvdTs⟩
      · refine .inr ⟨?_, hts'.trans hlast⟩
        rw [isStale, hkeeps.lastRecvdTs, hlast] at hstale'
        exact hstale'
    · -- the slot has just been stamped, so no later visit finds it stale
      refine .inr ⟨hstale, ?_⟩
      have hfresh : (r.clearOne num).isStale n = false := isStale_of_stamped (hts.trans hlast.symm)
      rcases hslot' with hkeeps' | ⟨hstale', -⟩
      · exact hkeeps'.lastRecvdTs.trans hts
      · exact absurd hstale' (eq_false_iff.mp hfresh)

/-- **The cleanup** leaves a slot and its entries alone, or finds the slot stale
and stamps it. -/
theorem doCleanup_slot (r : SlicingReceiver) (order : List UInt16) (n : UInt16) :
    (r.doCleanup order).lastOnline = r.lastOnline ∧
    (Keeps n r (r.doCleanup order) ∨
      r.isStale n = true ∧ (r.doCleanup order).lastRecvdTs (bucket n) = r.lastOnline) := by
  unfold doCleanup
  split
  · obtain ⟨hlast, hslot⟩ := clearOld_slot n order r
    refine ⟨hlast, ?_⟩
    rcases hslot with hkeeps | hstamped
    · exact .inl ⟨hkeeps.receiving, hkeeps.lastRecvdTs⟩
    · exact .inr hstamped
  · exact ⟨rfl, .inl ⟨rfl, rfl⟩⟩

end SlicingReceiver

end MoonProto
