import MoonProto.Client.SlicedPass
import MoonProto.Client.SlicedSend

/-!
# The retry clocks of sliced datagrams

Every block in flight has a clock, the time it was sent last (0 before), and every datagram
caches the earliest clock of its blocks without an ACK. A tick of `retry_sliced` looks at the
datagrams whose cached clock is due, sends their blocks with exactly that clock until the byte
budget of the tick is used up, and gives up a datagram after too many rounds without progress.
-/

namespace MoonProto

open Codec Budget List Function Option

namespace SentSliced

variable {τ : Type}

/-! ## One datagram -/

/-- The cached clock is the earliest clock of the blocks without an ACK: not later than any of
them, and one of them. -/
def Cached (s : SentSliced τ) : Prop :=
  ∀ b < s.blocksCount, s.isBlockAcked b = false → s.lastChecked ≤ s.clock b ∧
    ∃ b' < s.blocksCount, s.isBlockAcked b' = false ∧ s.clock b' = s.lastChecked

variable (s : SentSliced τ)

theorem refresh_cached (fallback : Int) : (s.refreshLastCheckedFromUnacked fallback).Cached := by
  intro b hb hacked
  have hclocks (c : Int) : c ∈ (((range s.blocksCount).filter fun b => !s.isBlockAcked b).map
      fun b => s.pieceLastChecked.getD b 0) ↔
      ∃ b < s.blocksCount, s.isBlockAcked b = false ∧ s.clock b = c := by
    simp only [List.mem_map, mem_filter, mem_range, Bool.not_eq_true', and_assoc]
    rfl
  have hmem := (hclocks (s.clock b)).mpr ⟨b, hb, hacked, rfl⟩
  obtain ⟨m, hm⟩ := isSome_iff_exists.mp (isSome_min?_of_mem hmem)
  obtain ⟨hin, hle⟩ := min?_eq_some_iff.mp hm
  have hcache : (s.refreshLastCheckedFromUnacked fallback).lastChecked = m := by
    show Option.getD _ fallback = m
    rw [hm, getD_some]
  rw [hcache]
  exact ⟨hle _ hmem, (hclocks m).mp hin⟩

theorem afterRound_cached (curTm pathDelay : Int) (nums : List Nat) :
    (s.afterRound curTm pathDelay nums).Cached := by
  have hcached : (s.clocked curTm nums).Cached := refresh_cached _ curTm
  rcases afterRound_cases s curTm pathDelay nums with heq | ⟨-, heq⟩
  · rw [heq]
    exact hcached
  · rw [heq]
    exact hcached

theorem afterRound_retryCount (curTm pathDelay : Int) (nums : List Nat) :
    (s.afterRound curTm pathDelay nums).retryCount ≤ s.retryCount +
      if nums.any (fun b => decide (0 < s.clock b)) then 1 else 0 := by
  rcases afterRound_cases s curTm pathDelay nums with heq | ⟨hagain, heq⟩
  · rw [heq]
    refine Int.le_add_of_nonneg_right ?_
    split <;> decide
  · rw [heq, if_pos hagain]

theorem mem_foldl_set {curTm : Int} {x : Int} : ∀ (nums : List Nat) (clocks : List Int),
    x ∈ nums.foldl (fun clocks b => clocks.set b curTm) clocks → x = curTm ∨ x ∈ clocks
  | [], _, h => .inr h
  | b :: nums, clocks, h => by
    rcases mem_foldl_set nums (clocks.set b curTm) h with heq | hmem
    · exact .inl heq
    · exact (mem_or_eq_of_mem_set hmem).symm

/-! ## One tick -/

section Tick

variable {curTm pathDelay : Int} {limit : Nat} {sending : List (SentSliced τ)} {v : Visit τ}

/-- A due block with the earliest clock of its datagram is sent, or the budget is used up. -/
theorem mem_blocks_of_due {spent : Nat} (h : v ∈ visits curTm pathDelay limit sending spent)
    (hdue : v.before.isDue curTm pathDelay = true) {b : Nat} (hb : b < v.before.slices.length)
    (hacked : v.before.isBlockAcked b = false)
    (hearliest : v.before.clock b = v.before.lastChecked) :
    b ∈ v.blocks ∨ limit ≤ spent + total Visit.bytes
      (visits curTm pathDelay limit sending spent) := by
  obtain ⟨-, spent', heq, hle⟩ := eq_visit_of_mem h
  have hblocks : v.blocks = v.before.round curTm pathDelay limit spent' := by
    conv_lhs => rw [heq, visit, if_pos hdue]
  have hmem : b ∈ (range v.before.slices.length).filter fun b =>
      v.before.blockDueForRetry b v.before.lastChecked curTm pathDelay := by
    refine mem_filter.mpr ⟨mem_range.mpr hb, ?_⟩
    unfold isDue at hdue
    unfold clock at hearliest
    simp only [blockDueForRetry, hacked, hearliest, hdue, Bool.not_false, beq_self_eq_true,
      Bool.and_self]
  rw [Visit.bytes, hblocks] at hle
  rcases round_eq_or v.before curTm pathDelay limit spent' with hall | hspent
  · left
    rw [hblocks, hall]
    exact hmem
  · right
    exact hspent.trans hle

theorem Visit.total_packets (v : Visit τ) :
    total (fun packet => packet.1.length) v.packets = v.bytes := by
  rw [Visit.packets, total_map]
  rfl

theorem visit_bound (s : SentSliced τ) (spent : Nat) :
    (s.visit curTm pathDelay limit spent).blocks = [] ∨
      ∃ b ∈ (s.visit curTm pathDelay limit spent).blocks,
        spent + (s.visit curTm pathDelay limit spent).bytes <
          limit + (s.visit curTm pathDelay limit spent).before.sliceLen b := by
  unfold visit
  split
  · exact takeWithin_bound spent _
  · left
    rfl

/-- The bytes of a tick stay below the limit plus one slice. -/
theorem visits_bound (curTm pathDelay : Int) (limit : Nat) :
    ∀ (sending : List (SentSliced τ)) (spent : Nat),
    (visits curTm pathDelay limit sending spent).flatMap (·.packets) = [] ∨
      ∃ packet ∈ (visits curTm pathDelay limit sending spent).flatMap (·.packets),
        spent + total (fun packet => packet.1.length)
          ((visits curTm pathDelay limit sending spent).flatMap (·.packets)) <
            limit + packet.1.length
  | [], _ => .inl rfl
  | s :: rest, spent => by
    have ih := visits_bound curTm pathDelay limit rest
      (spent + (s.visit curTm pathDelay limit spent).bytes)
    rw [visits, flatMap_cons]
    revert ih
    generalize (visits curTm pathDelay limit rest
      (spent + (s.visit curTm pathDelay limit spent).bytes)).flatMap (·.packets) = later
    intro ih
    rw [total_append, Visit.total_packets, ← Nat.add_assoc]
    rcases ih with rfl | ⟨packet, hmem, hlt⟩
    · rw [append_nil, total_nil, Nat.add_zero]
      rcases visit_bound s spent with hnone | ⟨b, hb, hlt⟩
      · left
        rw [Visit.packets, hnone]
        rfl
      · right
        exact ⟨_, List.mem_map.mpr ⟨b, hb, rfl⟩, hlt⟩
    · right
      exact ⟨packet, mem_append_right _ hmem, hlt⟩

end Tick

/-! ## ACKs and new datagrams -/

/-- An ACK without new flags leaves the datagram as it is; with new flags the datagram is
complete, or its counter starts over and its cached clock is computed again. -/
theorem acked_of_changed (ack : SlicedAck) (nowMs : Int) :
    ((s.mergeAckFlags ack.flags).1 = false ∧ s.acked ack nowMs = some s) ∨
    ((s.mergeAckFlags ack.flags).1 = true ∧ ∀ s' ∈ s.acked ack nowMs, s'.Cached ∧
      s'.tag = s.tag ∧ s'.retryCount = 0 ∧ s'.pieceLastChecked = s.pieceLastChecked) := by
  unfold acked
  cases hchanged : (s.mergeAckFlags ack.flags).1 with
  | false =>
    left
    have hflags : ByteSet.union s.ackFlags ack.flags = s.ackFlags := by
      simpa [mergeAckFlags] using hchanged
    refine ⟨rfl, ?_⟩
    dsimp only [mergeAckFlags] at hchanged ⊢
    rw [hchanged, hflags]
    rfl
  | true =>
    right
    refine ⟨rfl, fun s' hs' => ?_⟩
    dsimp only [mergeAckFlags] at hchanged hs'
    rw [hchanged, if_pos rfl] at hs'
    split at hs'
    · exact (nomatch hs')
    · obtain rfl := mem_some_iff.mp hs'
      exact ⟨refresh_cached _ nowMs, rfl, rfl, rfl⟩

theorem create_clock (datagramNum : UInt16) (pmtu : Nat) (wireCmd : UInt8) (wireData : Bytes)
    (maxRetries : Int) (uKey : UniqueKey) (tag : τ) :
    ∀ c ∈ (create datagramNum pmtu wireCmd wireData maxRetries uKey tag).pieceLastChecked,
      c = 0 := fun _ hc => eq_of_mem_replicate hc

theorem clock_mem_or_eq_zero (b : Nat) : s.clock b ∈ s.pieceLastChecked ∨ s.clock b = 0 := by
  unfold clock
  rcases Nat.lt_or_ge b s.pieceLastChecked.length with hlt | hge
  · left
    rw [getD_eq_getElem _ _ hlt]
    exact getElem_mem hlt
  · right
    exact getD_eq_default _ _ hge

end SentSliced

/-! ## Runs -/

/-- The datagrams in flight. Each has its place in the order of creation as its tag; `clock`
is the latest time of a tick, and `rounds` counts for every datagram the ticks since the last
ACK with progress that sent one of its blocks again. -/
structure Flight where
  sending : List (SentSliced Nat)
  lastCheckedSlices : Int
  created : Nat
  clock : Int
  rounds : Nat → Nat

inductive FlightEvent
  /-- Put a datagram in flight, in place of the first one with its key. -/
  | send (datagramNum : UInt16) (pmtu : Nat) (wireCmd : UInt8) (wireData : Bytes)
      (maxRetries : Int) (uKey : UniqueKey)
  | ack (ack : SlicedAck) (nowMs : Int)
  /-- A call of `retry_sliced` with the round trip time and the pacing of the moment. -/
  | tick (curTm roundTripDelay : Int) (pacing : Pacing)

namespace Flight

open SentSliced

def new : Flight := ⟨[], 0, 0, 0, fun _ => 0⟩

/-- `retry_sliced` goes on to the datagrams. -/
def passes (f : Flight) (curTm roundTripDelay : Int) : Bool :=
  !f.sending.isEmpty &&
    decide (slicedRetryRoundTripDelay roundTripDelay < (curTm - f.lastCheckedSlices).natAbs)

/-- The rounds with those of a tick. -/
def countRounds (rounds : Nat → Nat) (vs : List (SentSliced.Visit Nat)) (uid : Nat) : Nat :=
  rounds uid + vs.countP fun v => v.before.tag == uid && v.again

/-- The rounds behind an ACK: it starts over if it brings new flags. -/
def ackRounds (f : Flight) (ack : SlicedAck) : Nat → Nat :=
  match f.sending.find? fun s => s.datagramNum == ack.datagramNum with
  | none => f.rounds
  | some s =>
    if (s.mergeAckFlags ack.flags).1 then Function.update f.rounds s.tag 0 else f.rounds

def step (f : Flight) : FlightEvent → Flight
  | .send datagramNum pmtu wireCmd wireData maxRetries uKey =>
    let sending := if uKey.isNone then f.sending else f.sending.eraseP (·.uKey == uKey)
    let new := create datagramNum pmtu wireCmd wireData maxRetries uKey f.created
    { f with
      sending := new.insertByBlocks sending
      lastCheckedSlices := 0
      created := f.created + 1 }
  | .ack ack nowMs =>
    { f with sending := applySlicedAck ack nowMs f.sending, rounds := f.ackRounds ack }
  | .tick curTm roundTripDelay pacing =>
    if f.passes curTm roundTripDelay then
      let pass := retryPass curTm pacing.pathDelay pacing.clientLimit f.sending 0 curTm
      { f with
        sending := pass.kept
        lastCheckedSlices := pass.lastCheckedSlices
        clock := max f.clock curTm
        rounds := countRounds f.rounds
          (visits curTm pacing.pathDelay pacing.clientLimit f.sending 0) }
    else f

/-- What every run keeps of a datagram in flight. -/
structure Kept (clock : Int) (rounds : Nat → Nat) (s : SentSliced Nat) : Prop where
  cached : s.Cached
  past : ∀ c ∈ s.pieceLastChecked, c ≤ clock
  counted : s.retryCount ≤ rounds s.tag

structure Inv (f : Flight) : Prop where
  nodup : (f.sending.map (·.tag)).Nodup
  fresh : ∀ s ∈ f.sending, s.tag < f.created
  clock_nonneg : 0 ≤ f.clock
  kept : ∀ s ∈ f.sending, Kept f.clock f.rounds s

variable {f : Flight}

theorem inv_new : new.Inv where
  nodup := nodup_nil
  fresh := nofun
  clock_nonneg := Int.le_refl 0
  kept := nofun

variable {clock : Int} {vs : List (SentSliced.Visit Nat)} {rounds : Nat → Nat} {s : SentSliced Nat}

theorem kept_create (hclock : 0 ≤ clock) (rounds : Nat → Nat)
    (datagramNum : UInt16) (pmtu : Nat) (wireCmd : UInt8) (wireData : Bytes) (maxRetries : Int)
    (uKey : UniqueKey) (tag : Nat) :
    Kept clock rounds (create datagramNum pmtu wireCmd wireData maxRetries uKey tag) where
  cached b hb hacked := by
    have hzero : (create datagramNum pmtu wireCmd wireData maxRetries uKey tag).clock b = 0 := by
      rcases clock_mem_or_eq_zero
        (create datagramNum pmtu wireCmd wireData maxRetries uKey tag) b with hmem | hzero
      · exact create_clock _ _ _ _ _ _ _ _ hmem
      · exact hzero
    exact ⟨Int.le_of_eq hzero.symm, b, hb, hacked, hzero⟩
  past c hc := by
    rw [create_clock _ _ _ _ _ _ _ c hc]
    exact hclock
  counted := Int.natCast_nonneg _

theorem Inv.send (h : f.Inv) (datagramNum : UInt16) (pmtu : Nat) (wireCmd : UInt8)
    (wireData : Bytes) (maxRetries : Int) (uKey : UniqueKey) :
    (f.step (.send datagramNum pmtu wireCmd wireData maxRetries uKey)).Inv := by
  have hsub : (if uKey.isNone then f.sending else f.sending.eraseP (·.uKey == uKey)).Sublist
      f.sending := by
    split
    · exact Sublist.refl _
    · exact eraseP_sublist
  have hperm := insertByBlocks_perm
    (create datagramNum pmtu wireCmd wireData maxRetries uKey f.created)
    (if uKey.isNone then f.sending else f.sending.eraseP (·.uKey == uKey))
  refine ⟨?_, fun s hs => ?_, h.clock_nonneg, fun s hs => ?_⟩
  · refine (hperm.map (·.tag)).nodup_iff.mpr (nodup_cons.mpr ⟨fun hmem => ?_, ?_⟩)
    · obtain ⟨s, hs, htag⟩ := List.mem_map.mp hmem
      exact absurd (h.fresh s (hsub.subset hs)) (htag ▸ Nat.lt_irrefl _)
    · exact h.nodup.sublist (hsub.map _)
  · rcases mem_cons.mp (hperm.mem_iff.mp hs) with rfl | hs
    · exact Nat.lt_succ_self _
    · exact Nat.lt_succ_of_lt (h.fresh s (hsub.subset hs))
  · rcases mem_cons.mp (hperm.mem_iff.mp hs) with rfl | hs
    · exact kept_create h.clock_nonneg _ _ _ _ _ _ _ _
    · exact h.kept s (hsub.subset hs)

/-- The tags of datagrams that stay in flight are still fresh and different. -/
theorem Inv.tags (h : f.Inv) {l : List (SentSliced Nat)}
    (hsub : (l.map ident).Sublist (f.sending.map ident)) :
    (l.map (·.tag)).Nodup ∧ ∀ s ∈ l, s.tag < f.created := by
  have htags := tags_of_ident hsub
  refine ⟨h.nodup.sublist htags, fun s hs => ?_⟩
  obtain ⟨s', hs', heq⟩ := List.mem_map.mp (htags.subset (List.mem_map_of_mem hs))
  exact heq ▸ h.fresh s' hs'

theorem Inv.ack (h : f.Inv) (ack : SlicedAck) (nowMs : Int) : (f.step (.ack ack nowMs)).Inv := by
  rcases applySlicedAck_eq ack nowMs f.sending with ⟨hnone, heq⟩ |
    ⟨before, s, after, hsplit, hsome, heq⟩
  · have hrounds : f.ackRounds ack = f.rounds := by rw [ackRounds, hnone]
    simp only [step, heq, hrounds]
    exact h
  have hmem : ∀ d ∈ before ++ after, d ∈ f.sending := by
    intro d hd
    rw [hsplit]
    rcases mem_append.mp hd with hd | hd
    · exact mem_append_left _ hd
    · exact mem_append_right _ (mem_cons_of_mem s hd)
  have hs : s ∈ f.sending := hsplit ▸ mem_append_right _ mem_cons_self
  rcases acked_of_changed s ack nowMs with ⟨hsame, hacked⟩ | ⟨hnew, hacked⟩
  · -- nothing new: the list is the same
    have hrounds : f.ackRounds ack = f.rounds := by
      simp only [ackRounds, hsome, hsame, Bool.false_eq_true, if_false]
    have hsending : applySlicedAck ack nowMs f.sending = f.sending := by
      rw [heq, hacked, hsplit]
      rfl
    simp only [step, hsending, hrounds]
    exact h
  · have hrounds : f.ackRounds ack = Function.update f.rounds s.tag 0 := by
      simp only [ackRounds, hsome, hnew, if_true]
    have hnodup := h.nodup
    rw [hsplit, map_append, map_cons, nodup_middle, nodup_cons, ← map_append] at hnodup
    have hothers : ∀ d ∈ before ++ after, d.tag ≠ s.tag := fun d hd htag =>
      hnodup.1 (htag ▸ List.mem_map_of_mem hd)
    have hcases : ∀ d ∈ before ++ ((s.acked ack nowMs).toList ++ after),
        d ∈ before ++ after ∨ d ∈ s.acked ack nowMs := by
      intro d hd
      rcases mem_append.mp hd with hd | hd
      · exact .inl (mem_append_left _ hd)
      · rcases mem_append.mp hd with hd | hd
        · exact .inr (mem_toList.mp hd)
        · exact .inl (mem_append_right _ hd)
    obtain ⟨hnodup, hfresh⟩ := h.tags (ident_applySlicedAck ack nowMs f.sending)
    rw [heq] at hnodup hfresh
    simp only [step, heq, hrounds]
    refine ⟨hnodup, hfresh, h.clock_nonneg, fun d hd => ?_⟩
    rcases hcases d hd with hd | hd
    · have hkept := h.kept d (hmem d hd)
      refine ⟨hkept.cached, hkept.past, ?_⟩
      dsimp only
      rw [update_of_ne (hothers d hd)]
      exact hkept.counted
    · obtain ⟨hcached, htag, hcount, hclocks⟩ := hacked d hd
      refine ⟨hcached, hclocks ▸ (h.kept s hs).past, ?_⟩
      dsimp only
      rw [htag, update_self, hcount]
      exact Int.le_refl 0

theorem le_countRounds (rounds : Nat → Nat) {v : SentSliced.Visit Nat} (hv : v ∈ vs) :
    rounds v.before.tag + (if v.again then 1 else 0) ≤ countRounds rounds vs v.before.tag := by
  unfold countRounds
  refine Nat.add_le_add_left ?_ _
  split
  · next hagain =>
    refine countP_pos_iff.mpr ⟨v, hv, ?_⟩
    rw [hagain, Bool.and_true, beq_self_eq_true]
  · exact Nat.zero_le _

theorem visit_retryCount (s : SentSliced Nat) (curTm pathDelay : Int) (limit spent : Nat) :
    (s.visit curTm pathDelay limit spent).after.retryCount ≤
      s.retryCount + if (s.visit curTm pathDelay limit spent).again then 1 else 0 := by
  unfold visit
  split
  · exact afterRound_retryCount s curTm pathDelay _
  · exact Int.le_add_of_nonneg_right (Int.le_refl 0)

/-- The counter of a datagram behind a tick is within its rounds. -/
theorem Kept.counted_visit (h : Kept clock rounds s) {curTm pathDelay : Int} {limit spent : Nat}
    (hv : s.visit curTm pathDelay limit spent ∈ vs) :
    (s.visit curTm pathDelay limit spent).after.retryCount ≤ countRounds rounds vs s.tag := by
  have hcounted := h.counted
  have hretry := visit_retryCount s curTm pathDelay limit spent
  have hcount := le_countRounds rounds hv
  rw [visit_before] at hcount
  by_cases hagain : (s.visit curTm pathDelay limit spent).again = true
  · rw [if_pos hagain] at hretry hcount
    omega
  · rw [if_neg hagain] at hretry hcount
    omega

theorem Kept.visit (h : Kept clock rounds s) {curTm pathDelay : Int} {limit spent : Nat}
    (hv : s.visit curTm pathDelay limit spent ∈ vs) :
    Kept (max clock curTm) (countRounds rounds vs) (s.visit curTm pathDelay limit spent).after := by
  have hframed := visit_framed curTm pathDelay limit s spent
  refine ⟨?_, fun c hc => ?_, ?_⟩
  · unfold SentSliced.visit
    split
    · exact afterRound_cached s curTm pathDelay _
    · exact h.cached
  · rw [hframed.clocks] at hc
    rcases mem_foldl_set _ _ hc with rfl | hc
    · exact Int.le_max_right _ _
    · exact Int.le_trans (h.past c hc) (Int.le_max_left _ _)
  · rw [hframed.same.tag]
    exact h.counted_visit hv

theorem Inv.tick (h : f.Inv) (curTm roundTripDelay : Int) (pacing : Pacing) :
    (f.step (.tick curTm roundTripDelay pacing)).Inv := by
  unfold step
  dsimp only
  split
  · obtain ⟨hnodup, hfresh⟩ := h.tags (ident_retryPass curTm pacing.pathDelay pacing.clientLimit
      f.sending 0 curTm)
    refine ⟨hnodup, hfresh, Int.le_trans h.clock_nonneg (Int.le_max_left _ _), fun d hd => ?_⟩
    dsimp only at hd
    rw [(retryPass_eq curTm pacing.pathDelay pacing.clientLimit f.sending 0 curTm).1] at hd
    obtain ⟨v, hv, rfl⟩ := List.mem_map.mp hd
    have hv := (mem_filter.mp hv).1
    obtain ⟨hbefore, spent, heq, -⟩ := eq_visit_of_mem hv
    rw [heq] at hv ⊢
    exact (h.kept _ hbefore).visit hv
  · exact h

theorem Inv.step (h : f.Inv) (event : FlightEvent) : (f.step event).Inv := by
  cases event with
  | send datagramNum pmtu wireCmd wireData maxRetries uKey =>
    exact h.send datagramNum pmtu wireCmd wireData maxRetries uKey
  | ack ack nowMs => exact h.ack ack nowMs
  | tick curTm roundTripDelay pacing => exact h.tick curTm roundTripDelay pacing

theorem inv_run : ∀ (events : List FlightEvent) {f : Flight}, f.Inv → (events.foldl step f).Inv
  | [], _, h => h
  | event :: events, _, h => inv_run events (h.step event)

/-- What a tick with a given time and pacing does. -/
structure TickSound (f : Flight) (curTm : Int) (pacing : Pacing)
    (pass : RetryPass Nat) (vs : List (SentSliced.Visit Nat)) : Prop where
  /-- There is one visit for every datagram, and they say what is kept and sent. -/
  all : vs.map (·.before) = f.sending
  kept : pass.kept = (vs.filter fun v => !v.givenUp curTm pacing.pathDelay).map (·.after)
  sent : pass.toSend = vs.flatMap (·.packets)
  /-- Only blocks without an ACK whose own clock is due are sent. -/
  due : ∀ v ∈ vs, ∀ b ∈ v.blocks, b < v.before.slices.length ∧
    v.before.isBlockAcked b = false ∧ pacing.pathDelay < (curTm - v.before.clock b).natAbs
  /-- While the clock does not go back, a datagram with a due block is looked at. -/
  looked : f.clock ≤ curTm → ∀ v ∈ vs, ∀ b < v.before.blocksCount,
    v.before.isBlockAcked b = false → pacing.pathDelay < (curTm - v.before.clock b).natAbs →
      v.before.isDue curTm pacing.pathDelay = true
  /-- Of a datagram that is looked at, every block with the earliest clock is sent, or the
  limit is reached. -/
  earliest : ∀ v ∈ vs, v.before.isDue curTm pacing.pathDelay = true →
    ∀ b < v.before.slices.length, v.before.isBlockAcked b = false →
      v.before.clock b = v.before.lastChecked →
        b ∈ v.blocks ∨ pacing.clientLimit ≤ total SentSliced.Visit.bytes vs
  /-- The bytes stay below the limit plus one slice. -/
  bytes : pass.toSend = [] ∨ ∃ packet ∈ pass.toSend,
    total (fun packet => packet.1.length) pass.toSend < pacing.clientLimit + packet.1.length
  /-- A datagram is given up after more rounds than its maximum. -/
  exhausted : ∀ v ∈ vs, v.givenUp curTm pacing.pathDelay = true →
    v.before.maxRetryCount < countRounds f.rounds vs v.before.tag

theorem isDue_of_block {curTm pathDelay : Int}
    (h : Kept clock rounds s) (hpos : 0 ≤ clock) (hclock : clock ≤ curTm) {b : Nat}
    (hb : b < s.blocksCount) (hacked : s.isBlockAcked b = false)
    (hdue : pathDelay < (curTm - s.clock b).natAbs) : s.isDue curTm pathDelay = true := by
  have hcached := (h.cached b hb hacked).1
  have hpast : s.clock b ≤ clock := by
    rcases clock_mem_or_eq_zero s b with hmem | hzero
    · exact h.past _ hmem
    · rw [hzero]
      exact hpos
  rw [isDue, decide_eq_true_iff]
  omega

theorem Inv.tickSound (h : f.Inv) (curTm : Int) (pacing : Pacing) : TickSound f curTm pacing
      (retryPass curTm pacing.pathDelay pacing.clientLimit f.sending 0 curTm)
      (visits curTm pacing.pathDelay pacing.clientLimit f.sending 0) := by
  obtain ⟨hkept, hsent⟩ := retryPass_eq curTm pacing.pathDelay pacing.clientLimit f.sending 0 curTm
  have hmem : ∀ v ∈ visits curTm pacing.pathDelay pacing.clientLimit f.sending 0,
      Kept f.clock f.rounds v.before := fun v hv => h.kept _ (eq_visit_of_mem hv).1
  refine ⟨map_before_visits _ _ _ f.sending 0, hkept, hsent,
    fun v hv b hb => due_of_mem_blocks hv hb, ?_, ?_, ?_, ?_⟩
  · intro hclock v hv b hb hacked hdue
    exact isDue_of_block (hmem v hv) h.clock_nonneg hclock hb hacked hdue
  · intro v hv hdue b hb hacked hearliest
    have hsent := mem_blocks_of_due hv hdue hb hacked hearliest
    rwa [Nat.zero_add] at hsent
  · have hbound := visits_bound curTm pacing.pathDelay pacing.clientLimit f.sending 0
    rwa [Nat.zero_add, ← hsent] at hbound
  · intro v hv hgiven
    obtain ⟨-, spent, heq, -⟩ := eq_visit_of_mem hv
    rw [SentSliced.Visit.givenUp, Bool.and_eq_true, decide_eq_true_iff] at hgiven
    have hover := hgiven.2
    have hcounted := (hmem v hv).counted_visit (heq ▸ hv)
    rw [(framed_of_mem hv).maxRetryCount] at hover
    rw [← heq] at hcounted
    exact Int.lt_of_lt_of_le hover hcounted

/-- **Retry clocks.** In every run of sends, ACKs and ticks the cached clock of a datagram is
the earliest clock of its blocks without an ACK. Whatever the time and the pacing
of the next tick are, it sends only due blocks without an ACK, looks at every datagram that
has one (while the clock does not go back), sends all blocks with the earliest clock of such a
datagram unless the limit is reached, stays below the limit plus one slice, and gives up a
datagram only after more rounds than its maximum since the last ACK with progress. -/
theorem retry_clocks (events : List FlightEvent) :
    (∀ s ∈ (events.foldl step new).sending, s.Cached) ∧
    ∀ (curTm : Int) (pacing : Pacing), TickSound (events.foldl step new) curTm pacing
      (retryPass curTm pacing.pathDelay pacing.clientLimit (events.foldl step new).sending 0 curTm)
      (visits curTm pacing.pathDelay pacing.clientLimit (events.foldl step new).sending 0) :=
  ⟨fun s hs => ((inv_run events inv_new).kept s hs).cached,
    fun curTm pacing => (inv_run events inv_new).tickSound curTm pacing⟩

/-- Two blocks that two ticks send one at a time. -/
def oneByOne : List FlightEvent :=
  [.send 7 2 1 [1, 2] 5 .none, .tick 1000 1 ⟨100, 1⟩, .tick 1200 1 ⟨100, 1⟩]

/-- **A due block waits**: at 2000 both blocks are due, and the limit is far, but only the
one with the earlier clock is sent. -/
theorem due_block_waits : (visits 2000 100 100000 (oneByOne.foldl step new).sending 0).map (fun v =>
      (v.blocks, v.before.isBlockAcked 1, v.before.clock 0, v.before.clock 1)) =
        [([0], false, 1000, 1200)] ∧
    total SentSliced.Visit.bytes (visits 2000 100 100000 (oneByOne.foldl step new).sending 0) <
      100000 := by
  decide +kernel

end Flight

end MoonProto
