import MoonProto.Client.SendQueue
import MoonProto.Protocol.Reassembly

/-!
# Sliced datagrams in flight

What the sender keeps of a sliced datagram until it is acknowledged
(`SentSliced` in `src/client/transport_state.rs`), how a message is cut into
blocks, how an ACK is merged and how a retry pass picks the blocks it sends
(`create_sliced_and_send`, `apply_sliced_ack` and `retry_sliced`). The functions
here work on the list of datagrams in flight; the client embeds them.

The retry clocks are integers. The path delay and the byte budget of a pass,
which the source computes in floating point, are arguments.
-/

namespace MoonProto

open Codec

/-- `tag` is not in the source: it says where the datagram comes from, and no
function looks at it. -/
structure SentSliced (τ : Type) where
  datagramNum : UInt16
  slices : List Bytes
  pieceLastChecked : List Int
  ackFlags : Vector UInt8 32
  blocksCount : Nat
  sentCount : Nat
  lastChecked : Int
  retryCount : Int
  lastRetryInc : Int
  maxRetryCount : Int
  uKey : UniqueKey
  tag : τ
deriving DecidableEq

namespace SentSliced

variable {τ : Type}

/-! ## Cutting a message -/

/-- The loop of `create_sliced_and_send` from block `blockNum` on, with `left`
blocks to go and `rest` not yet written. Block 0 starts with the command. -/
def cutFrom (datagramNum : UInt16) (maxBlockNum : UInt8) (pmtu : Nat) (wireCmd : UInt8) :
    (left blockNum : Nat) → (rest : Bytes) → List Bytes
  | 0, _, _ => []
  | left + 1, blockNum, rest =>
    let header := (SliceHeader.mk datagramNum (UInt8.ofNat blockNum) maxBlockNum).toBytes
    let writeSize := if blockNum = 0 then pmtu - 1 else pmtu
    let slice :=
      header ++ ((if blockNum = 0 then [wireCmd] else []) ++ rest.take writeSize)
    slice :: cutFrom datagramNum maxBlockNum pmtu wireCmd left (blockNum + 1)
      (rest.drop writeSize)

/-- The number of blocks: one more byte than the data, for the command. -/
def blocksNeeded (pmtu : Nat) (wireData : Bytes) : Nat :=
  max ((wireData.length + 1 + (pmtu - 1)) / pmtu) 1

/-- The `SentSliced` that `create_sliced_and_send` builds. -/
def create (datagramNum : UInt16) (pmtu : Nat) (wireCmd : UInt8) (wireData : Bytes)
    (maxRetries : Int) (uKey : UniqueKey) (tag : τ) : SentSliced τ :=
  let nBlocks := blocksNeeded pmtu wireData
  { datagramNum
    slices := cutFrom datagramNum (UInt8.ofNat (nBlocks - 1)) pmtu wireCmd nBlocks 0 wireData
    pieceLastChecked := List.replicate nBlocks 0
    ackFlags := ByteSet.empty
    blocksCount := nBlocks
    sentCount := 0
    lastChecked := 0
    retryCount := 0
    lastRetryInc := 0
    maxRetryCount := maxRetries
    uKey
    tag }

/-! ### What the blocks carry -/

/-- `left` pieces of `pmtu` bytes each. -/
def chunks (pmtu : Nat) : (left : Nat) → (rest : Bytes) → List Bytes
  | 0, _ => []
  | left + 1, rest => rest.take pmtu :: chunks pmtu left (rest.drop pmtu)

section Cut

variable {datagramNum : UInt16} {maxBlockNum : UInt8} {pmtu : Nat} {wireCmd : UInt8}

@[simp] theorem chunks_length : ∀ (left : Nat) (rest : Bytes), (chunks pmtu left rest).length = left
  | 0, _ => rfl
  | left + 1, rest => by rw [chunks, List.length_cons, chunks_length left]

theorem chunks_flatten : ∀ {left : Nat} {rest : Bytes}, rest.length ≤ left * pmtu →
    (chunks pmtu left rest).flatten = rest
  | 0, rest, hle => by
    rw [Nat.zero_mul, Nat.le_zero, List.length_eq_zero_iff] at hle
    rw [hle]
    rfl
  | left + 1, rest, hle => by
    rw [Nat.succ_mul] at hle
    have ih : (chunks pmtu left (rest.drop pmtu)).flatten = rest.drop pmtu :=
      chunks_flatten (by rw [List.length_drop]; omega)
    rw [chunks, List.flatten_cons, ih, List.take_append_drop]

theorem cutFrom_eq : ∀ (left blockNum : Nat) (rest : Bytes), blockNum ≠ 0 →
    cutFrom datagramNum maxBlockNum pmtu wireCmd left blockNum rest
      = (chunks pmtu left rest).mapIdx fun i chunk =>
          (SliceHeader.mk datagramNum (UInt8.ofNat (blockNum + i)) maxBlockNum).toBytes ++ chunk
  | 0, _, _, _ => rfl
  | left + 1, blockNum, rest, hb => by
    have ih := cutFrom_eq left (blockNum + 1) (rest.drop pmtu) (Nat.succ_ne_zero blockNum)
    simp only [cutFrom, if_neg hb, List.nil_append, ih, chunks, List.mapIdx_cons, Nat.add_zero,
      Nat.add_assoc, Nat.add_comm 1]

theorem le_blocksNeeded (hpmtu : 0 < pmtu) (wireData : Bytes) :
    wireData.length + 1 ≤ blocksNeeded pmtu wireData * pmtu := by
  have hdiv := Nat.div_add_mod (wireData.length + 1 + (pmtu - 1)) pmtu
  have hmod := Nat.mod_lt (wireData.length + 1 + (pmtu - 1)) hpmtu
  have hmax : (wireData.length + 1 + (pmtu - 1)) / pmtu ≤ blocksNeeded pmtu wireData :=
    Nat.le_max_left _ _
  have hmul := Nat.mul_le_mul_right pmtu hmax
  rw [Nat.mul_comm] at hdiv
  omega

theorem blocksNeeded_pos (wireData : Bytes) : 0 < blocksNeeded pmtu wireData :=
  Nat.le_max_right _ _

theorem blocksNeeded_le (hpmtu : 0 < pmtu) {wireData : Bytes}
    (hfits : wireData.length + 1 ≤ 256 * pmtu) : blocksNeeded pmtu wireData ≤ 256 := by
  refine Nat.max_le.mpr ⟨?_, by decide⟩
  rw [Nat.div_le_iff_le_mul_add_pred hpmtu, Nat.mul_comm]
  omega

/-- The pieces of a message: block 0 with the command, and the blocks behind it. -/
theorem create_slices (wireData : Bytes) (maxRetries : Int) (uKey : UniqueKey) (tag : τ) :
    (create datagramNum pmtu wireCmd wireData maxRetries uKey tag).slices
      = ((wireCmd :: wireData.take (pmtu - 1)) ::
          chunks pmtu (blocksNeeded pmtu wireData - 1) (wireData.drop (pmtu - 1))).mapIdx
          fun i chunk => (SliceHeader.mk datagramNum (UInt8.ofNat i)
            (UInt8.ofNat (blocksNeeded pmtu wireData - 1))).toBytes ++ chunk := by
  obtain ⟨left, hleft⟩ : ∃ left, blocksNeeded pmtu wireData = left + 1 :=
    ⟨_, (Nat.succ_pred_eq_of_pos (blocksNeeded_pos wireData)).symm⟩
  simp only [create, hleft, cutFrom, if_true, Nat.zero_add, Nat.add_sub_cancel,
    cutFrom_eq left 1 _ Nat.one_ne_zero, List.mapIdx_cons, Nat.add_comm 1]
  rfl

theorem tail_chunks_flatten (hpmtu : 0 < pmtu) (wireData : Bytes) :
    (chunks pmtu (blocksNeeded pmtu wireData - 1) (wireData.drop (pmtu - 1))).flatten
      = wireData.drop (pmtu - 1) := by
  have hle := le_blocksNeeded hpmtu wireData
  obtain ⟨left, hleft⟩ : ∃ left, blocksNeeded pmtu wireData = left + 1 :=
    ⟨_, (Nat.succ_pred_eq_of_pos (blocksNeeded_pos wireData)).symm⟩
  rw [hleft, Nat.succ_mul] at hle
  rw [hleft, Nat.add_sub_cancel]
  refine chunks_flatten ?_
  rw [List.length_drop]
  omega

theorem map_drop_mapIdx (hdr : Nat → SliceHeader) (pieces : List Bytes) :
    (pieces.mapIdx fun i piece => (hdr i).toBytes ++ piece).map (List.drop sliceHeaderSize)
      = pieces := by
  refine List.ext_getElem (by simp) fun i _ _ => ?_
  rw [List.getElem_map, List.getElem_mapIdx, SliceHeader.drop_toBytes]

/-- **The blocks carry the message**: without their headers, one behind the
other, they are the command byte and the data. -/
theorem create_payload (hpmtu : 0 < pmtu) (wireData : Bytes) (maxRetries : Int) (uKey : UniqueKey)
    (tag : τ) :
    ((create datagramNum pmtu wireCmd wireData maxRetries uKey tag).slices.map
      (List.drop sliceHeaderSize)).flatten = wireCmd :: wireData := by
  rw [create_slices, map_drop_mapIdx, List.flatten_cons, tail_chunks_flatten hpmtu,
    List.cons_append,
    List.take_append_drop]

/-- The message as the receiver sees it. -/
def cut (datagramNum : UInt16) (pmtu : Nat) (wireCmd : UInt8) (wireData : Bytes)
    (hpmtu : 0 < pmtu) (hfits : wireData.length + 1 ≤ 256 * pmtu) : Cut where
  num := datagramNum
  cmd := wireCmd
  first := wireData.take (pmtu - 1)
  tail := chunks pmtu (blocksNeeded pmtu wireData - 1) (wireData.drop (pmtu - 1))
  tail_le := by
    have hle := blocksNeeded_le hpmtu hfits
    rw [chunks_length]
    omega

variable (datagramNum : UInt16) (wireCmd : UInt8) {wireData : Bytes} (hpmtu : 0 < pmtu)
  (hfits : wireData.length + 1 ≤ 256 * pmtu)

theorem cut_count :
    (cut datagramNum pmtu wireCmd wireData hpmtu hfits).count = blocksNeeded pmtu wireData := by
  unfold Cut.count cut
  simp only [chunks_length]
  exact Nat.sub_add_cancel (blocksNeeded_pos wireData)

/-- **The blocks in flight** are those of the cut message. -/
theorem create_eq_cut (maxRetries : Int) (uKey : UniqueKey) (tag : τ) :
    (create datagramNum pmtu wireCmd wireData maxRetries uKey tag).slices
      = (cut datagramNum pmtu wireCmd wireData hpmtu hfits).blocks := by
  rw [create_slices]
  simp only [Cut.blocks, Cut.chunks, Cut.header, Cut.maxBlockNum, cut, chunks_length]

end Cut

/-- Smaller datagrams go first: insert before the first one with more blocks. -/
def insertByBlocks (new : SentSliced τ) : List (SentSliced τ) → List (SentSliced τ)
  | [] => [new]
  | s :: rest =>
    if new.blocksCount < s.blocksCount then new :: s :: rest else s :: insertByBlocks new rest

/-! ## Acknowledgements -/

def isBlockAcked (s : SentSliced τ) (blockNum : Nat) : Bool := ByteSet.mem s.ackFlags blockNum

/-- `merge_ack_flags`, with whether anything was new. -/
def mergeAckFlags (s : SentSliced τ) (flags : Vector UInt8 32) : Bool × SentSliced τ :=
  let merged := ByteSet.union s.ackFlags flags
  (merged != s.ackFlags, { s with ackFlags := merged })

def isFullyAcked (s : SentSliced τ) : Bool := (List.range s.blocksCount).all s.isBlockAcked

/-- The earliest clock of the blocks still missing. -/
def refreshLastCheckedFromUnacked (s : SentSliced τ) (fallback : Int) : SentSliced τ :=
  let clocks := ((List.range s.blocksCount).filter fun b => !s.isBlockAcked b).map
    fun b => s.pieceLastChecked.getD b 0
  { s with lastChecked := clocks.min?.getD fallback }

/-- `apply_sliced_ack`: the first datagram with the number takes the flags. It
leaves the list when new flags complete it. -/
def applySlicedAck (ack : SlicedAck) (nowMs : Int) : List (SentSliced τ) → List (SentSliced τ)
  | [] => []
  | s :: rest =>
    if s.datagramNum = ack.datagramNum then
      let (changed, s) := s.mergeAckFlags ack.flags
      if changed then
        let s := { s with retryCount := 0 }
        if s.isFullyAcked then rest else s.refreshLastCheckedFromUnacked nowMs :: rest
      else s :: rest
    else s :: applySlicedAck ack nowMs rest

/-! ## Retries -/

def blockDueForRetry (s : SentSliced τ) (blockNum : Nat) (prevLastChecked curTm pathDelay : Int) :
    Bool :=
  !s.isBlockAcked blockNum && s.pieceLastChecked.getD blockNum 0 == prevLastChecked
    && decide (pathDelay < (curTm - s.pieceLastChecked.getD blockNum 0).natAbs)

/-- `mark_block_sent`, with whether the block had been sent before. -/
def markBlockSent (s : SentSliced τ) (blockNum : Nat) (curTm : Int) : Bool × SentSliced τ :=
  (decide (0 < s.pieceLastChecked.getD blockNum 0), { s with
      pieceLastChecked := s.pieceLastChecked.set blockNum curTm
      sentCount := s.sentCount + 1 })

def shouldIncrementRetry (s : SentSliced τ) (prevLastChecked curTm pathDelay : Int)
    (sentOnPathDelay : Bool) : Bool :=
  prevLastChecked != s.lastChecked && sentOnPathDelay
    && decide (pathDelay < (s.lastRetryInc - curTm).natAbs)

/-- The inner loop of `retry_sliced` over the blocks of one datagram: the
datagram behind it, the slices to send, the bytes spent in this pass and whether
one of the blocks was a retry. The loop stops when the budget is spent. -/
def retryBlocks (prevLastChecked curTm pathDelay : Int) (clientLimit : Nat) :
    List Nat → SentSliced τ → Nat → Bool → SentSliced τ × List Bytes × Nat × Bool
  | [], s, bytesSent, sentOnPathDelay => (s, [], bytesSent, sentOnPathDelay)
  | blockNum :: blocks, s, bytesSent, sentOnPathDelay =>
    if !s.blockDueForRetry blockNum prevLastChecked curTm pathDelay then
      retryBlocks prevLastChecked curTm pathDelay clientLimit blocks s bytesSent sentOnPathDelay
    else if clientLimit ≤ bytesSent then (s, [], bytesSent, sentOnPathDelay)
    else
      let slice := s.slices.getD blockNum []
      let (wasRetry, s) := s.markBlockSent blockNum curTm
      let (s, toSend, bytesSent, sentOnPathDelay) :=
        retryBlocks prevLastChecked curTm pathDelay clientLimit blocks s
          (bytesSent + slice.length) (sentOnPathDelay || wasRetry)
      (s, slice :: toSend, bytesSent, sentOnPathDelay)

/-- One round of the outer loop, for a datagram whose clock is due. -/
def retryDatagram (curTm pathDelay : Int) (clientLimit : Nat) (s : SentSliced τ) (bytesSent : Nat) :
    SentSliced τ × List Bytes × Nat :=
  let prevLastChecked := s.lastChecked
  let (s, toSend, bytesSent, sentOnPathDelay) :=
    retryBlocks prevLastChecked curTm pathDelay clientLimit (List.range s.slices.length)
      { s with lastChecked := curTm } bytesSent false
  let s := s.refreshLastCheckedFromUnacked curTm
  let s :=
    if s.shouldIncrementRetry prevLastChecked curTm pathDelay sentOnPathDelay then
      { s with retryCount := s.retryCount + 1, lastRetryInc := curTm }
    else s
  (s, toSend, bytesSent)

/-- What a retry pass leaves: the datagrams kept, the slices to send (each with
the tag of its datagram) and the clock of the next pass. -/
structure RetryPass (τ : Type) where
  kept : List (SentSliced τ)
  toSend : List (Bytes × τ)
  lastCheckedSlices : Int

/-- The outer loop of `retry_sliced`. A datagram out of retries is dropped, its
blocks of this pass are still sent. -/
def retryPass (curTm pathDelay : Int) (clientLimit : Nat) :
    List (SentSliced τ) → (bytesSent : Nat) → (lastCheckedSlices : Int) → RetryPass τ
  | [], _, lastCheckedSlices => ⟨[], [], lastCheckedSlices⟩
  | s :: rest, bytesSent, lastCheckedSlices =>
    if ((curTm - s.lastChecked).natAbs : Int) ≤ pathDelay then
      let pass := retryPass curTm pathDelay clientLimit rest bytesSent lastCheckedSlices
      { pass with kept := s :: pass.kept }
    else
      let (s, toSend, bytesSent) := s.retryDatagram curTm pathDelay clientLimit bytesSent
      let pass := retryPass curTm pathDelay clientLimit rest bytesSent
        (min lastCheckedSlices s.lastChecked)
      { pass with
        kept := if s.maxRetryCount < s.retryCount then pass.kept else s :: pass.kept
        toSend := toSend.map (·, s.tag) ++ pass.toSend }

/-! ## What the operations leave of a datagram -/

/-- Two states of one datagram in flight: the clocks, the counters and the blocks
acknowledged may differ. -/
structure Same (s s' : SentSliced τ) : Prop where
  datagramNum : s'.datagramNum = s.datagramNum
  slices : s'.slices = s.slices
  blocksCount : s'.blocksCount = s.blocksCount
  tag : s'.tag = s.tag

theorem Same.refl (s : SentSliced τ) : Same s s := ⟨rfl, rfl, rfl, rfl⟩

theorem insertByBlocks_perm (new : SentSliced τ) : ∀ sending : List (SentSliced τ),
    (new.insertByBlocks sending).Perm (new :: sending)
  | [] => List.Perm.refl _
  | s :: rest => by
    unfold insertByBlocks
    split
    · exact List.Perm.refl _
    · exact ((insertByBlocks_perm new rest).cons s).trans (List.Perm.swap new s rest)

theorem mem_insertByBlocks {new d : SentSliced τ} {sending : List (SentSliced τ)} :
    d ∈ new.insertByBlocks sending ↔ d = new ∨ d ∈ sending :=
  (insertByBlocks_perm new sending).mem_iff.trans List.mem_cons

end SentSliced

end MoonProto
