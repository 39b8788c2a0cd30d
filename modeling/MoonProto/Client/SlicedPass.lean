import MoonProto.Lib.Budget
import MoonProto.Client.SentSliced

/-!
# What an ACK and a retry pass do

A round of one datagram is described by the list of the blocks it sends: the due ones, cut
off by the budget. A pass is the list of its visits, one for each datagram in flight, and
everything that it does follows from these lists.
-/

namespace MoonProto

open Codec Budget List

namespace SentSliced

variable {τ : Type}

/-- What no operation changes: the key and the tag. -/
def ident (s : SentSliced τ) : UniqueKey × τ := (s.uKey, s.tag)

theorem tags_of_ident {l l' : List (SentSliced τ)}
    (h : (l'.map ident).Sublist (l.map ident)) : (l'.map (·.tag)).Sublist (l.map (·.tag)) := by
  have htags := h.map Prod.snd
  rwa [List.map_map, List.map_map] at htags

/-! ## ACKs -/

/-- What an ACK does to the datagram it is for. -/
def acked (s : SentSliced τ) (ack : SlicedAck) (nowMs : Int) : Option (SentSliced τ) :=
  let (changed, s) := s.mergeAckFlags ack.flags
  if changed then
    let s := { s with retryCount := 0 }
    if s.isFullyAcked then none else some (s.refreshLastCheckedFromUnacked nowMs)
  else some s

/-- **An ACK** finds no datagram with its number, or it is for the first one. -/
theorem applySlicedAck_eq (ack : SlicedAck) (nowMs : Int) : ∀ sending : List (SentSliced τ),
    (sending.find? (fun s => s.datagramNum == ack.datagramNum) = none ∧
      applySlicedAck ack nowMs sending = sending) ∨
    ∃ before s after, sending = before ++ s :: after ∧
      sending.find? (fun s => s.datagramNum == ack.datagramNum) = some s ∧
      applySlicedAck ack nowMs sending = before ++ ((s.acked ack nowMs).toList ++ after)
  | [] => .inl ⟨rfl, rfl⟩
  | s :: rest => by
    unfold applySlicedAck
    by_cases hnum : s.datagramNum = ack.datagramNum
    · rw [if_pos hnum]
      refine .inr ⟨[], s, rest, rfl, find?_cons_of_pos (by simpa using hnum), ?_⟩
      unfold acked
      dsimp only
      split
      · split
        · rfl
        · rfl
      · rfl
    · rw [if_neg hnum]
      have hfind : (s :: rest).find? (fun s => s.datagramNum == ack.datagramNum) =
          rest.find? fun s => s.datagramNum == ack.datagramNum :=
        find?_cons_of_neg (by simpa using hnum)
      rcases applySlicedAck_eq ack nowMs rest with ⟨hnone, heq⟩ |
        ⟨before, s₁, after, hsplit, hsome, heq⟩
      · exact .inl ⟨hfind.trans hnone, congrArg (s :: ·) heq⟩
      · exact .inr ⟨s :: before, s₁, after, congrArg (s :: ·) hsplit, hfind.trans hsome,
          congrArg (s :: ·) heq⟩

variable (s : SentSliced τ)

/-- The datagram leaves if the flags are new and the last ones, otherwise it takes them. -/
theorem acked_cases (ack : SlicedAck) (nowMs : Int) :
    (s.acked ack nowMs = none ∧ (s.mergeAckFlags ack.flags).2.isFullyAcked = true) ∨
    ∃ s', s.acked ack nowMs = some s' ∧ Same s s' ∧ s'.ident = s.ident ∧
      s'.ackFlags = ByteSet.union s.ackFlags ack.flags := by
  unfold acked
  dsimp only
  split
  · split
    · next hfull => exact .inl ⟨rfl, hfull⟩
    · exact .inr ⟨_, rfl, ⟨rfl, rfl, rfl, rfl⟩, rfl, rfl⟩
  · exact .inr ⟨_, rfl, ⟨rfl, rfl, rfl, rfl⟩, rfl, rfl⟩

theorem ident_applySlicedAck (ack : SlicedAck) (nowMs : Int) (sending : List (SentSliced τ)) :
    ((applySlicedAck ack nowMs sending).map ident).Sublist (sending.map ident) := by
  rcases applySlicedAck_eq ack nowMs sending with ⟨-, heq⟩ | ⟨before, s, after, rfl, -, heq⟩
  · rw [heq]
  · rw [heq]
    simp only [map_append, map_cons]
    refine (Sublist.refl _).append ?_
    rcases acked_cases s ack nowMs with ⟨hleft, -⟩ | ⟨s', hstays, -, hident, -⟩
    · rw [hleft]
      exact sublist_cons_self _ _
    · rw [hstays, Option.toList_some, map_singleton, hident]
      exact Sublist.refl _

/-! ## A round of one datagram -/

/-- When the block was sent last. -/
def clock (s : SentSliced τ) (blockNum : Nat) : Int := s.pieceLastChecked.getD blockNum 0

def sliceLen (s : SentSliced τ) (blockNum : Nat) : Nat := (s.slices.getD blockNum []).length

/-- The datagram after its blocks `nums` were sent. -/
def resent (s : SentSliced τ) (curTm : Int) (nums : List Nat) : SentSliced τ :=
  { s with
    pieceLastChecked := nums.foldl (fun clocks b => clocks.set b curTm) s.pieceLastChecked
    sentCount := s.sentCount + nums.length }

/-- The blocks that a round sends. -/
def roundBlocks (s : SentSliced τ) (prev curTm pathDelay : Int) (limit spent : Nat)
    (blocks : List Nat) : List Nat :=
  takeWithin s.sliceLen limit spent
    (blocks.filter fun b => s.blockDueForRetry b prev curTm pathDelay)

theorem roundBlocks_sublist (prev curTm pathDelay : Int) (limit spent : Nat) (blocks : List Nat) :
    (s.roundBlocks prev curTm pathDelay limit spent blocks).Sublist
      (blocks.filter fun b => s.blockDueForRetry b prev curTm pathDelay) :=
  takeWithin_sublist spent _

theorem clock_markBlockSent_of_ne {b b' : Nat} (curTm : Int) (h : b' ≠ b) :
    (s.markBlockSent b curTm).2.clock b' = s.clock b' := by
  show (s.pieceLastChecked.set b curTm).getD b' 0 = _
  rw [getD_eq_getElem?_getD, getElem?_set_ne h.symm, ← getD_eq_getElem?_getD]
  rfl

theorem blockDueForRetry_markBlockSent_of_ne {b b' : Nat}
    (prev curTm pathDelay : Int) (h : b' ≠ b) :
    (s.markBlockSent b curTm).2.blockDueForRetry b' prev curTm pathDelay =
      s.blockDueForRetry b' prev curTm pathDelay := by
  have hclock := clock_markBlockSent_of_ne s curTm h
  unfold clock at hclock
  unfold blockDueForRetry
  rw [hclock]
  rfl

/-- **The inner loop** sends the due blocks within the budget. -/
theorem retryBlocks_eq (prev curTm pathDelay : Int) (limit : Nat) :
    ∀ {blocks : List Nat} (_ : blocks.Nodup) (s : SentSliced τ) (spent : Nat) (onDelay : Bool),
    retryBlocks prev curTm pathDelay limit blocks s spent onDelay =
      let nums := s.roundBlocks prev curTm pathDelay limit spent blocks
      (s.resent curTm nums, nums.map (s.slices.getD · []), spent + total s.sliceLen nums,
        onDelay || nums.any fun b => decide (0 < s.clock b))
  | [], _, s, spent, onDelay => by
    simp [retryBlocks, roundBlocks, takeWithin, resent]
  | b :: blocks, hnodup, s, spent, onDelay => by
    obtain ⟨hb, hnodup⟩ := nodup_cons.mp hnodup
    have hne : ∀ b' ∈ blocks, b' ≠ b := fun b' hmem heq => hb (heq ▸ hmem)
    rw [retryBlocks]
    by_cases hdue : s.blockDueForRetry b prev curTm pathDelay = true
    · rw [if_neg (by rw [hdue]; decide)]
      have hfilter : ((b :: blocks).filter fun b => s.blockDueForRetry b prev curTm pathDelay) =
          b :: blocks.filter fun b => s.blockDueForRetry b prev curTm pathDelay :=
        filter_cons_of_pos hdue
      by_cases hspent : limit ≤ spent
      · rw [if_pos hspent]
        simp [roundBlocks, hfilter, takeWithin, hspent, resent]
      · rw [if_neg hspent]
        -- sending this block changes nothing for the later ones
        have hlater : (s.markBlockSent b curTm).2.roundBlocks prev curTm pathDelay limit
            (spent + s.sliceLen b) blocks =
            s.roundBlocks prev curTm pathDelay limit (spent + s.sliceLen b) blocks := by
          unfold roundBlocks
          refine congrArg _ (filter_congr fun b' hb' => ?_)
          exact blockDueForRetry_markBlockSent_of_ne s prev curTm pathDelay (hne b' hb')
        have hround : s.roundBlocks prev curTm pathDelay limit spent (b :: blocks) =
            b :: s.roundBlocks prev curTm pathDelay limit (spent + s.sliceLen b) blocks := by
          rw [roundBlocks, hfilter, takeWithin, if_neg hspent]
          rfl
        have hclocks : (s.roundBlocks prev curTm pathDelay limit (spent + s.sliceLen b)
            blocks).any (fun b' => decide (0 < (s.markBlockSent b curTm).2.clock b')) =
            (s.roundBlocks prev curTm pathDelay limit (spent + s.sliceLen b) blocks).any
              fun b' => decide (0 < s.clock b') := by
          rw [Bool.eq_iff_iff, List.any_eq_true, List.any_eq_true]
          refine exists_congr fun b' => and_congr_right fun hmem => ?_
          have hb' := (roundBlocks_sublist s _ _ _ _ _ _).trans filter_sublist |>.subset hmem
          rw [clock_markBlockSent_of_ne s curTm (hne b' hb')]
        have ih := retryBlocks_eq prev curTm pathDelay limit hnodup (s.markBlockSent b curTm).2
          (spent + s.sliceLen b) (onDelay || (s.markBlockSent b curTm).1)
        dsimp only at ih
        rw [hlater, hclocks] at ih
        rw [hround]
        dsimp only [markBlockSent, sliceLen] at ih ⊢
        rw [ih]
        simp only [resent, total_cons, map_cons, foldl_cons, length_cons, any_cons, Prod.mk.injEq]
        refine ⟨?_, trivial, Nat.add_assoc _ _ _, Bool.or_assoc _ _ _⟩
        rw [Nat.add_assoc, Nat.add_comm 1]
    · rw [if_pos (by rw [Bool.eq_false_iff.mpr hdue]; decide),
        retryBlocks_eq prev curTm pathDelay limit hnodup]
      have hfilter : ((b :: blocks).filter fun b => s.blockDueForRetry b prev curTm pathDelay) =
          blocks.filter fun b => s.blockDueForRetry b prev curTm pathDelay :=
        filter_cons_of_neg hdue
      simp only [roundBlocks, hfilter]

/-- The datagram with its new clocks, behind a round that sent the blocks `nums`. -/
def clocked (s : SentSliced τ) (curTm : Int) (nums : List Nat) : SentSliced τ :=
  ({ s with lastChecked := curTm }.resent curTm nums).refreshLastCheckedFromUnacked curTm

/-- The datagram behind that round. The round counts if the datagram's clock moved, a block
was sent again and the last round that counted is far enough. -/
def afterRound (s : SentSliced τ) (curTm pathDelay : Int) (nums : List Nat) : SentSliced τ :=
  let s' := s.clocked curTm nums
  if s'.shouldIncrementRetry s.lastChecked curTm pathDelay
      (nums.any fun b => decide (0 < s.clock b)) then
    { s' with retryCount := s'.retryCount + 1, lastRetryInc := curTm }
  else s'

/-- The blocks that a round of the datagram sends. -/
def round (s : SentSliced τ) (curTm pathDelay : Int) (limit spent : Nat) : List Nat :=
  s.roundBlocks s.lastChecked curTm pathDelay limit spent (range s.slices.length)

theorem round_eq_or (curTm pathDelay : Int) (limit spent : Nat) :
    s.round curTm pathDelay limit spent = ((range s.slices.length).filter fun b =>
        s.blockDueForRetry b s.lastChecked curTm pathDelay) ∨
      limit ≤ spent + total s.sliceLen (s.round curTm pathDelay limit spent) :=
  takeWithin_eq_or spent _

theorem retryDatagram_eq (curTm pathDelay : Int) (limit spent : Nat) :
    s.retryDatagram curTm pathDelay limit spent = let nums := s.round curTm pathDelay limit spent
      (s.afterRound curTm pathDelay nums, nums.map (s.slices.getD · []),
        spent + total s.sliceLen nums) := by
  have hblocks := retryBlocks_eq s.lastChecked curTm pathDelay limit
    (nodup_range (n := s.slices.length)) { s with lastChecked := curTm } spent false
  rw [retryDatagram, hblocks]
  rfl

theorem afterRound_cases (curTm pathDelay : Int) (nums : List Nat) :
    s.afterRound curTm pathDelay nums = s.clocked curTm nums ∨
      (nums.any (fun b => decide (0 < s.clock b)) = true ∧ s.afterRound curTm pathDelay nums =
        { s.clocked curTm nums with retryCount := s.retryCount + 1, lastRetryInc := curTm }) := by
  unfold afterRound
  dsimp only
  split
  · next h =>
    right
    simp only [shouldIncrementRetry, Bool.and_eq_true] at h
    exact ⟨h.1.2, rfl⟩
  · left
    rfl

/-- The frame of a round that sent the blocks `nums`: the blocks, their ACKs, the key and the
limit stay. -/
structure Framed (s : SentSliced τ) (curTm : Int) (nums : List Nat) (s' : SentSliced τ) :
    Prop where
  same : Same s s'
  ident : s'.ident = s.ident
  ackFlags : s'.ackFlags = s.ackFlags
  maxRetryCount : s'.maxRetryCount = s.maxRetryCount
  clocks : s'.pieceLastChecked =
    nums.foldl (fun clocks b => clocks.set b curTm) s.pieceLastChecked

theorem afterRound_framed (curTm pathDelay : Int) (nums : List Nat) :
    Framed s curTm nums (s.afterRound curTm pathDelay nums) := by
  rcases afterRound_cases s curTm pathDelay nums with heq | ⟨-, heq⟩
  · rw [heq]
    exact ⟨⟨rfl, rfl, rfl, rfl⟩, rfl, rfl, rfl, rfl⟩
  · rw [heq]
    exact ⟨⟨rfl, rfl, rfl, rfl⟩, rfl, rfl, rfl, rfl⟩

/-! ## One pass -/

/-- The quick check of a tick: the cached clock of the datagram is due. -/
def isDue (s : SentSliced τ) (curTm pathDelay : Int) : Bool :=
  decide (pathDelay < (curTm - s.lastChecked).natAbs)

/-- What a tick does to a datagram: the datagram behind it and the blocks that are sent. -/
structure Visit (τ : Type) where
  before : SentSliced τ
  after : SentSliced τ
  blocks : List Nat

def visit (s : SentSliced τ) (curTm pathDelay : Int) (limit spent : Nat) : Visit τ :=
  if s.isDue curTm pathDelay then
    let nums := s.round curTm pathDelay limit spent
    ⟨s, s.afterRound curTm pathDelay nums, nums⟩
  else ⟨s, s, []⟩

namespace Visit

/-- A datagram that was looked at and is out of rounds is given up. -/
def givenUp (v : Visit τ) (curTm pathDelay : Int) : Bool :=
  v.before.isDue curTm pathDelay && decide (v.after.maxRetryCount < v.after.retryCount)

def packets (v : Visit τ) : List (Bytes × τ) :=
  v.blocks.map fun b => (v.before.slices.getD b [], v.before.tag)

/-- A block that had been sent before is among the blocks. -/
def again (v : Visit τ) : Bool := v.blocks.any fun b => decide (0 < v.before.clock b)

def bytes (v : Visit τ) : Nat := total v.before.sliceLen v.blocks

end Visit

/-- The visits of a tick, in the order of the datagrams. -/
def visits (curTm pathDelay : Int) (limit : Nat) : List (SentSliced τ) → Nat → List (Visit τ)
  | [], _ => []
  | s :: rest, spent =>
    let v := s.visit curTm pathDelay limit spent
    v :: visits curTm pathDelay limit rest (spent + v.bytes)

section Pass

variable {curTm pathDelay : Int} {limit : Nat} {sending : List (SentSliced τ)} {v : Visit τ}

/-- **A tick** is its visits: it keeps the datagrams that are not given up and sends what the
visits send. -/
theorem retryPass_eq (curTm pathDelay : Int) (limit : Nat) :
    ∀ (sending : List (SentSliced τ)) (spent : Nat) (lastCheckedSlices : Int),
    (retryPass curTm pathDelay limit sending spent lastCheckedSlices).kept =
        ((visits curTm pathDelay limit sending spent).filter fun v =>
          !v.givenUp curTm pathDelay).map (·.after) ∧
      (retryPass curTm pathDelay limit sending spent lastCheckedSlices).toSend =
        (visits curTm pathDelay limit sending spent).flatMap (·.packets)
  | [], _, _ => ⟨rfl, rfl⟩
  | s :: rest, spent, lastCheckedSlices => by
    by_cases hdue : s.isDue curTm pathDelay = true
    · have hlate : ¬ ((curTm - s.lastChecked).natAbs : Int) ≤ pathDelay :=
        not_le.mpr (of_decide_eq_true hdue)
      obtain ⟨hkept, hsend⟩ := retryPass_eq curTm pathDelay limit rest
        (spent + total s.sliceLen (s.round curTm pathDelay limit spent))
        (min lastCheckedSlices (s.afterRound curTm pathDelay
          (s.round curTm pathDelay limit spent)).lastChecked)
      rw [retryPass, if_neg hlate, retryDatagram_eq, visits, visit, if_pos hdue]
      refine ⟨?_, ?_⟩
      · dsimp only [Visit.bytes]
        rw [hkept]
        by_cases hover : (s.afterRound curTm pathDelay
            (s.round curTm pathDelay limit spent)).maxRetryCount <
            (s.afterRound curTm pathDelay (s.round curTm pathDelay limit spent)).retryCount
        · rw [if_pos hover, filter_cons_of_neg (by simp [Visit.givenUp, hdue, hover])]
        · rw [if_neg hover, filter_cons_of_pos (by simp [Visit.givenUp, hover])]
          rfl
      · dsimp only [Visit.bytes]
        rw [hsend, flatMap_cons, List.map_map]
        refine congrArg (· ++ _) (map_congr_left fun b _ => ?_)
        show (s.slices.getD b [], _) = (s.slices.getD b [], s.tag)
        rw [(afterRound_framed s curTm pathDelay _).same.tag]
    · have hearly : ((curTm - s.lastChecked).natAbs : Int) ≤ pathDelay := by
        rw [isDue, decide_eq_true_iff, not_lt] at hdue
        exact hdue
      obtain ⟨hkept, hsend⟩ := retryPass_eq curTm pathDelay limit rest spent lastCheckedSlices
      rw [retryPass, if_pos hearly, visits, visit, if_neg hdue]
      dsimp only [Visit.bytes, total_nil, Nat.add_zero]
      rw [hkept, hsend, filter_cons_of_pos (by simp [Visit.givenUp, hdue])]
      exact ⟨rfl, rfl⟩

theorem visit_before (s : SentSliced τ) (spent : Nat) :
    (s.visit curTm pathDelay limit spent).before = s := by
  unfold visit
  split <;> rfl

theorem visit_framed (curTm pathDelay : Int) (limit : Nat) (s : SentSliced τ) (spent : Nat) :
    Framed s curTm (s.visit curTm pathDelay limit spent).blocks
      (s.visit curTm pathDelay limit spent).after := by
  unfold visit
  split
  · exact afterRound_framed s curTm pathDelay _
  · exact ⟨.refl s, rfl, rfl, rfl, rfl⟩

/-- A visit happens with what the visits before it have spent. -/
theorem eq_visit_of_mem : ∀ {sending : List (SentSliced τ)} {spent : Nat},
    v ∈ visits curTm pathDelay limit sending spent →
    v.before ∈ sending ∧ ∃ spent', v = v.before.visit curTm pathDelay limit spent' ∧
      spent' + v.bytes ≤ spent + total Visit.bytes (visits curTm pathDelay limit sending spent)
  | [], _, h => (nomatch h)
  | s :: rest, spent, h => by
    rw [visits] at h ⊢
    rw [total_cons, ← Nat.add_assoc]
    rcases mem_cons.mp h with heq | h
    · have hbefore : v.before = s := by rw [heq, visit_before]
      refine ⟨hbefore ▸ mem_cons_self, spent, by rw [hbefore, heq], ?_⟩
      rw [heq]
      exact Nat.le_add_right _ _
    · obtain ⟨hmem, spent', heq, hle⟩ := eq_visit_of_mem h
      exact ⟨mem_cons_of_mem s hmem, spent', heq, hle⟩

theorem framed_of_mem {spent : Nat} (h : v ∈ visits curTm pathDelay limit sending spent) :
    Framed v.before curTm v.blocks v.after := by
  obtain ⟨-, spent', heq, -⟩ := eq_visit_of_mem h
  have hframed := visit_framed curTm pathDelay limit v.before spent'
  rwa [← heq] at hframed

theorem map_before_visits (curTm pathDelay : Int) (limit : Nat) :
    ∀ (sending : List (SentSliced τ)) (spent : Nat),
    (visits curTm pathDelay limit sending spent).map (·.before) = sending
  | [], _ => rfl
  | s :: rest, spent => by
    rw [visits, map_cons, map_before_visits curTm pathDelay limit rest, visit_before]

theorem map_ident_visits (curTm pathDelay : Int) (limit : Nat) (sending : List (SentSliced τ))
    (spent : Nat) :
    (visits curTm pathDelay limit sending spent).map (·.after.ident) = sending.map ident := by
  conv_rhs => rw [← map_before_visits curTm pathDelay limit sending spent, List.map_map]
  exact map_congr_left fun v hv => (framed_of_mem hv).ident

theorem due_of_mem_blocks {spent : Nat} (h : v ∈ visits curTm pathDelay limit sending spent)
    {b : Nat} (hb : b ∈ v.blocks) :
    b < v.before.slices.length ∧ v.before.isBlockAcked b = false ∧
      pathDelay < (curTm - v.before.clock b).natAbs := by
  obtain ⟨-, spent', heq, -⟩ := eq_visit_of_mem h
  rw [heq, visit] at hb
  split at hb
  · have hmem := (roundBlocks_sublist v.before _ _ _ _ _ _).subset hb
    obtain ⟨hrange, hdue⟩ := mem_filter.mp hmem
    simp only [blockDueForRetry, Bool.and_eq_true, Bool.not_eq_true', decide_eq_true_iff] at hdue
    exact ⟨mem_range.mp hrange, hdue.1.1, hdue.2⟩
  · exact (nomatch hb)

/-- **A retry pass** keeps datagrams of the list, with the flags they had, and
sends blocks of them. -/
theorem retryPass_spec (curTm pathDelay : Int) (limit : Nat) (sending : List (SentSliced τ))
    (bytesSent : Nat) (last : Int) :
    (∀ d ∈ (retryPass curTm pathDelay limit sending bytesSent last).kept,
      ∃ s ∈ sending, Same s d ∧ d.ackFlags = s.ackFlags) ∧
    ∀ slice ∈ (retryPass curTm pathDelay limit sending bytesSent last).toSend,
      ∃ s ∈ sending, slice.1 ∈ s.slices ∧ slice.2 = s.tag := by
  obtain ⟨hkept, hsent⟩ := retryPass_eq curTm pathDelay limit sending bytesSent last
  rw [hkept, hsent]
  constructor
  · intro d hd
    obtain ⟨v, hv, rfl⟩ := List.mem_map.mp hd
    have hv := (mem_filter.mp hv).1
    exact ⟨v.before, (eq_visit_of_mem hv).1, (framed_of_mem hv).same, (framed_of_mem hv).ackFlags⟩
  · intro slice hslice
    obtain ⟨v, hv, hslice⟩ := mem_flatMap.mp hslice
    obtain ⟨b, hb, rfl⟩ := List.mem_map.mp hslice
    refine ⟨v.before, (eq_visit_of_mem hv).1, ?_, rfl⟩
    dsimp only
    rw [getD_eq_getElem _ _ (due_of_mem_blocks hv hb).1]
    exact getElem_mem _

theorem ident_retryPass (curTm pathDelay : Int) (limit : Nat) (sending : List (SentSliced τ))
    (bytesSent : Nat) (last : Int) :
    ((retryPass curTm pathDelay limit sending bytesSent last).kept.map ident).Sublist
      (sending.map ident) := by
  rw [(retryPass_eq curTm pathDelay limit sending bytesSent last).1, List.map_map,
    ← map_ident_visits curTm pathDelay limit sending bytesSent]
  exact filter_sublist.map _

end Pass

end SentSliced

end MoonProto
