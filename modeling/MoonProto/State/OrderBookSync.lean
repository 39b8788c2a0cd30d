import MoonProto.Lib.Run
import MoonProto.State.OrderBooks

/-!
# Order of application and draining of the order books

Two properties of runs of packets. After a full snapshot diffs are applied one
number after the other, and what is kept for later never holds a packet that could
have been applied. Each has one hole in the code. The number 0 of the last applied
packet also stands for "nothing applied yet", and then any diff is let through; and
a number that is in the cache twice stops the drain behind its first copy.
-/

namespace MoonProto

open Serial List Function Option Bool

variable {lvl : Type} (merge : Bool → List lvl → List lvl → List lvl → List lvl) (a b : UInt16)

theorem compareSeq_neg_iff : compareSeq a b < 0 ↔ 32768 ≤ ahead b a :=
  toInt16_neg_iff b a

theorem compareSeq_eq_zero_iff : compareSeq a b = 0 ↔ a = b :=
  toInt16_eq_zero_iff b a

theorem compareSeq_nonneg_iff : 0 ≤ compareSeq a b ↔ ahead b a < 32768 := by
  rw [← Nat.not_le, ← compareSeq_neg_iff]
  exact Int16.not_lt.symm

theorem compareSeq_pos_iff : 0 < compareSeq a b ↔ 0 < ahead b a ∧ ahead b a < 32768 := by
  rw [← compareSeq_nonneg_iff, Nat.pos_iff_ne_zero, ne_eq, ahead_eq_zero, ← compareSeq_eq_zero_iff]
  constructor
  · intro hpos
    exact ⟨(Int16.ne_of_lt hpos).symm, Int16.le_of_lt hpos⟩
  · rintro ⟨hne, hle⟩
    exact Int16.lt_of_le_of_ne hle fun h => hne h.symm

/-! ## Diffs in sequence -/

/-- The numbers behind `s`, one after the other. -/
def Consecutive (s : UInt16) (ds : List UInt16) : Prop :=
  ds = (range ds.length).map fun i => s + 1 + UInt16.ofNat i

theorem consecutive_nil (s : UInt16) : Consecutive s [] := rfl

theorem Consecutive.snoc {s : UInt16} {ds : List UInt16} (h : Consecutive s ds) :
    Consecutive s (ds ++ [s + 1 + UInt16.ofNat ds.length]) := by
  unfold Consecutive at h ⊢
  rw [length_append, length_singleton, range_succ, map_append, ← h]
  rfl

/-- What was applied since the last full snapshot: its number and the diffs behind
it. There is none before the first one and once the book is corrupted. -/
abbrev Segment := Option (UInt16 × List UInt16)

def Segment.note (seg : Segment) : OrderBookEvent lvl → Segment
  | .apply _ _ true seq _ => some (seq, [])
  | .apply _ _ false seq _ => seg.map fun r => (r.1, r.2 ++ [seq])
  | _ => seg

/-- A cache whose expected number is the next one of the segment. -/
def Segment.Fits (seg : Segment) (c : OrderBookCache lvl) : Prop :=
  ∀ s ds, seg = some (s, ds) →
    c.corrupted = false ∧ Consecutive s ds ∧ c.expectedSeq = s + 1 + UInt16.ofNat ds.length

/-- Only diffs are kept. -/
def OrderBookCache.DiffsOnly (c : OrderBookCache lvl) : Prop :=
  ∀ p ∈ c.packets, p.pkt.isFull = false

namespace Segment

theorem fits_none (c : OrderBookCache lvl) : Fits none c := nofun

theorem Fits.congr {seg : Segment} {c c' : OrderBookCache lvl} (h : seg.Fits c)
    (hcorrupted : c'.corrupted = c.corrupted) (hexpected : c'.expectedSeq = c.expectedSeq) :
    seg.Fits c' := by
  intro s ds hseg
  rw [hcorrupted, hexpected]
  exact h s ds hseg

theorem Fits.snoc {seg : Segment} {c c' : OrderBookCache lvl} (h : seg.Fits c)
    (hcorrupted : c'.corrupted = c.corrupted) (hexpected : c'.expectedSeq = c.expectedSeq + 1) :
    Fits (seg.map fun r => (r.1, r.2 ++ [c.expectedSeq])) c' := by
  intro s ds hseg
  obtain ⟨⟨s', ds'⟩, hseg', hpair⟩ := map_eq_some_iff.mp hseg
  obtain ⟨rfl, rfl⟩ := Prod.mk.inj hpair
  obtain ⟨hok, hcons, hexp⟩ := h s' ds' hseg'
  refine ⟨hcorrupted.trans hok, ?_, ?_⟩
  · rw [hexp]
    exact hcons.snoc
  · rw [hexpected, hexp, length_append, length_singleton, UInt16.add_assoc]
    exact congrArg _ (UInt16.ofNat_add _ 1).symm

end Segment

/-! ### The drain -/

namespace BookSlot

theorem drainLoop_fits : ∀ (packets : List (CachedPacket lvl)) (s : BookSlot lvl) (seg : Segment),
    (∀ p ∈ packets, p.pkt.isFull = false) → seg.Fits s.cache →
    ((drainLoop merge packets s).1.foldl Segment.note seg).Fits
      (drainLoop merge packets s).2.cache ∧
      (drainLoop merge packets s).2.cache.DiffsOnly ∧
      (drainLoop merge packets s).2.cache.corrupted = s.cache.corrupted
  | [], s, seg, _, hseg => ⟨hseg.congr rfl rfl, nofun, rfl⟩
  | p :: rest, s, seg, hdiffs, hseg => by
    unfold drainLoop
    by_cases hseq : p.seq = s.cache.expectedSeq
    · rw [if_neg (not_not.mpr hseq)]
      have hdiff : p.pkt.isFull = false := hdiffs p mem_cons_self
      have hnote : seg.note (applyEvent { p.pkt with seq := p.seq } (s.applyPacket merge p.pkt))
          = seg.map fun r => (r.1, r.2 ++ [s.cache.expectedSeq]) := by
        rw [← hseq]
        simp only [applyEvent, hdiff, Segment.note]
      simp only [foldl_cons, hnote]
      refine drainLoop_fits rest _ _ (fun q hq => hdiffs q (mem_cons_of_mem p hq)) ?_
      refine hseg.snoc rfl ?_
      rw [hseq]
    · rw [if_pos hseq]
      exact ⟨hseg.congr rfl rfl, hdiffs, rfl⟩

variable (c : OrderBookCache lvl) {seg : Segment} {pkt : OrderBookUpdate lvl}

theorem checkCacheEmpty_fields :
    c.checkCacheEmpty.corrupted = c.corrupted ∧ c.checkCacheEmpty.expectedSeq = c.expectedSeq ∧
      c.checkCacheEmpty.lastAppliedSeq = c.lastAppliedSeq ∧
      c.checkCacheEmpty.packets = c.packets := by
  unfold OrderBookCache.checkCacheEmpty
  split
  · exact ⟨rfl, rfl, rfl, rfl⟩
  · exact ⟨rfl, rfl, rfl, rfl⟩

theorem drainCache_fits {s : BookSlot lvl} {seg : Segment} (hdiffs : s.cache.DiffsOnly)
    (hseg : seg.Fits s.cache) :
    ((drainCache merge s).1.foldl Segment.note seg).Fits (drainCache merge s).2.cache ∧
      (drainCache merge s).2.cache.DiffsOnly ∧
      (drainCache merge s).2.cache.corrupted = s.cache.corrupted := by
  have hkept : ∀ p ∈ s.cache.retainAhead.packets, p.pkt.isFull = false := fun p hp =>
    hdiffs p (mem_filter.mp hp).1
  have hloop := drainLoop_fits merge s.cache.retainAhead.packets
    { s with cache := s.cache.retainAhead } seg hkept (hseg.congr rfl rfl)
  obtain ⟨hfits, honly, hcorrupted⟩ := hloop
  obtain ⟨h₁, h₂, -, h₃⟩ := checkCacheEmpty_fields
    (drainLoop merge s.cache.retainAhead.packets { s with cache := s.cache.retainAhead }).2.cache
  refine ⟨hfits.congr h₁ h₂, ?_, h₁.trans hcorrupted⟩
  unfold OrderBookCache.DiffsOnly
  rw [show (drainCache merge s).2.cache.packets = _ from h₃]
  exact honly

/-! ### One packet -/

/-- The diff that the code lets through although it is not the expected one: the
last applied number is 0. -/
def skips (s : BookSlot lvl) (pkt : OrderBookUpdate lvl) : Bool :=
  !pkt.isFull && !s.cache.corrupted && s.cache.lastAppliedSeq == 0 &&
    pkt.seq != s.cache.expectedSeq

/-- The segment behind a packet. -/
def segment (seg : Segment) (out : BookEffects lvl × BookSlot lvl) : Segment :=
  if out.2.cache.corrupted then none else out.1.events.foldl Segment.note seg

theorem segment_fits {out : BookEffects lvl × BookSlot lvl}
    (h : (out.1.events.foldl Segment.note seg).Fits out.2.cache) :
    (segment seg out).Fits out.2.cache := by
  unfold segment
  split
  · exact Segment.fits_none _
  · exact h

theorem add_diffsOnly {c : OrderBookCache lvl} (h : c.DiffsOnly)
    (hpkt : pkt.isFull = false) (nowMs : Int) : (c.add pkt.seq pkt nowMs).DiffsOnly := by
  intro p hp
  rcases Slots.mem_insertIdx_cases hp with rfl | hp
  · exact hpkt
  · exact h p hp

theorem tryRequestFull_fields (nowMs : Int) : (c.tryRequestFull nowMs).2.packets = c.packets ∧
      (c.tryRequestFull nowMs).2.corrupted = c.corrupted ∧
      (c.tryRequestFull nowMs).2.expectedSeq = c.expectedSeq ∧
      (c.tryRequestFull nowMs).2.lastAppliedSeq = c.lastAppliedSeq := by
  unfold OrderBookCache.tryRequestFull
  split
  · exact ⟨rfl, rfl, rfl, rfl⟩
  split
  · exact ⟨rfl, rfl, rfl, rfl⟩
  · exact ⟨rfl, rfl, rfl, rfl⟩

/-- The cache a full snapshot leaves for the drain. -/
def resetBy (c : OrderBookCache lvl) (pkt : OrderBookUpdate lvl) : OrderBookCache lvl :=
  { c with corrupted := false, lastAppliedSeq := pkt.seq, expectedSeq := pkt.seq + 1 }

/-- The cache to which a corrupted book adds a diff. -/
def makeRoom (c : OrderBookCache lvl) (seq : UInt16) : OrderBookCache lvl :=
  let c := { c with lastAppliedSeq := seq }
  if bookCacheMaxPackets ≤ c.packets.length then c.dropOldest else c

/-- What a packet can do to a book. -/
inductive Handles (s : BookSlot lvl) (pkt : OrderBookUpdate lvl) (nowMs : Int) :
    BookEffects lvl × BookSlot lvl → Prop
  | full (hfull : pkt.isFull = true) : Handles s pkt nowMs
      (applyAndDrain merge s pkt (resetBy s.cache pkt).retainAhead.checkCacheEmpty)
  | corrupted {out : BookEffects lvl × BookSlot lvl} (hfull : pkt.isFull = false)
      (hcorrupted : s.cache.corrupted = true)
      (hpackets : out.2.cache.packets = ((makeRoom s.cache pkt.seq).add pkt.seq pkt nowMs).packets)
      (hstays : out.2.cache.corrupted = true)
      (hexpected : out.2.cache.expectedSeq = s.cache.expectedSeq) : Handles s pkt nowMs out
  | inOrder (hfull : pkt.isFull = false) (hcorrupted : s.cache.corrupted = false)
      (hseq : pkt.seq = s.cache.expectedSeq ∨ s.cache.lastAppliedSeq = 0) : Handles s pkt nowMs
      (applyAndDrain merge s pkt
        { s.cache with expectedSeq := pkt.seq + 1, lastAppliedSeq := pkt.seq })
  | stale {out : BookEffects lvl × BookSlot lvl} (hslot : out.2 = s)
      (hevents : ∀ seg : Segment, out.1.events.foldl Segment.note seg = seg) :
      Handles s pkt nowMs out
  | gap {out : BookEffects lvl × BookSlot lvl} (hfull : pkt.isFull = false)
      (hcorrupted : s.cache.corrupted = false) (hlast : s.cache.lastAppliedSeq ≠ 0)
      (hahead : 0 < ahead s.cache.expectedSeq pkt.seq ∧ ahead s.cache.expectedSeq pkt.seq < 32768)
      (hpackets : out.2.cache.packets = (s.cache.add pkt.seq pkt nowMs).packets)
      (hexpected : out.2.cache.expectedSeq = s.cache.expectedSeq)
      (hevents : ∀ seg : Segment, out.1.events.foldl Segment.note seg = seg) :
      Handles s pkt nowMs out

theorem makeRoom_fields (seq : UInt16) :
    (makeRoom c seq).corrupted = c.corrupted ∧ (makeRoom c seq).expectedSeq = c.expectedSeq ∧
      ((makeRoom c seq).packets = c.packets ∨ (makeRoom c seq).packets = c.packets.tail) := by
  unfold makeRoom
  simp only
  split
  · obtain ⟨h₁, h₂, -, h₃⟩ := checkCacheEmpty_fields
      { c with lastAppliedSeq := seq, packets := c.packets.tail }
    exact ⟨h₁, h₂, .inr h₃⟩
  · exact ⟨rfl, rfl, .inl rfl⟩

theorem onPacketInto_handles (s : BookSlot lvl) (pkt : OrderBookUpdate lvl) (nowMs : Int) :
    Handles merge s pkt nowMs (s.onPacketInto merge pkt nowMs) := by
  unfold onPacketInto
  by_cases hfull : pkt.isFull = true
  · rw [if_pos hfull]
    exact .full hfull
  · rw [if_neg hfull]
    rw [not_eq_true] at hfull
    by_cases hcorrupted : s.cache.corrupted = true
    · rw [if_pos hcorrupted]
      obtain ⟨h₁, h₂, h₃, -⟩ := tryRequestFull_fields
        ((makeRoom s.cache pkt.seq).add pkt.seq pkt nowMs) nowMs
      obtain ⟨hcorr, hexp, -⟩ := makeRoom_fields s.cache pkt.seq
      exact .corrupted hfull hcorrupted h₁ (h₂.trans (hcorr.trans hcorrupted)) (h₃.trans hexp)
    · rw [if_neg hcorrupted]
      rw [not_eq_true] at hcorrupted
      simp only
      split
      · next hcmp =>
        rw [compareSeq_eq_zero_iff] at hcmp
        exact .inOrder hfull hcorrupted hcmp
      · next hcmp =>
        obtain ⟨hne, hlast⟩ := not_or.mp hcmp
        rw [compareSeq_eq_zero_iff] at hne
        split
        · exact .stale rfl fun _ => rfl
        next hneg =>
        rw [compareSeq_neg_iff, Nat.not_le] at hneg
        have hpos : 0 < ahead s.cache.expectedSeq pkt.seq :=
          Nat.pos_of_ne_zero fun h0 => hne (ahead_eq_zero.mp h0)
        refine .gap hfull hcorrupted hlast ⟨hpos, hneg⟩ ?_ ?_ ?_
        · refine (tryRequestFull_fields _ nowMs).1.trans ?_
          split <;> rfl
        · refine (tryRequestFull_fields _ nowMs).2.2.1.trans ?_
          split <;> rfl
        · intro seg
          generalize (OrderBookCache.tryRequestFull _ nowMs).1 = request
          cases request <;> rfl

theorem applyAndDrain_fits {s : BookSlot lvl} {c : OrderBookCache lvl} (hdiffs : c.DiffsOnly)
    (hseg : (seg.note (applyEvent pkt (s.applyPacket merge pkt))).Fits c) :
    (segment seg (applyAndDrain merge s pkt c)).Fits (applyAndDrain merge s pkt c).2.cache ∧
      (applyAndDrain merge s pkt c).2.cache.DiffsOnly := by
  obtain ⟨hfits, honly, -⟩ :=
    @drainCache_fits _ merge ⟨c, some (s.applyPacket merge pkt)⟩ _ hdiffs hseg
  exact ⟨segment_fits hfits, honly⟩

/-- **One packet** keeps the segment in sequence, unless it is let through out of
turn. -/
theorem onPacketInto_fits {s : BookSlot lvl} (hdiffs : s.cache.DiffsOnly)
    (hseg : seg.Fits s.cache) (nowMs : Int)
    (hskips : seg.isSome = true → s.skips pkt = false) :
    (segment seg (s.onPacketInto merge pkt nowMs)).Fits (s.onPacketInto merge pkt nowMs).2.cache ∧
      (s.onPacketInto merge pkt nowMs).2.cache.DiffsOnly := by
  have hstep := onPacketInto_handles merge s pkt nowMs
  generalize s.onPacketInto merge pkt nowMs = out at hstep
  cases hstep with
  | full hfull =>
    obtain ⟨h₁, h₂, -, h₃⟩ := checkCacheEmpty_fields (resetBy s.cache pkt).retainAhead
    refine applyAndDrain_fits merge ?_ ?_
    · intro p hp
      rw [h₃] at hp
      exact hdiffs p (mem_filter.mp hp).1
    · have hnote : seg.note (applyEvent pkt (s.applyPacket merge pkt)) = some (pkt.seq, []) := by
        simp only [applyEvent, hfull, Segment.note]
      intro s₀ ds hsome
      rw [hnote] at hsome
      cases hsome
      exact ⟨h₁, consecutive_nil _, h₂.trans (UInt16.add_zero _).symm⟩
  | corrupted hfull hcorrupted hpackets hstays hexpected =>
    refine ⟨?_, ?_⟩
    · unfold segment
      rw [if_pos hstays]
      exact Segment.fits_none _
    · intro p hp
      rw [hpackets] at hp
      refine add_diffsOnly ?_ hfull nowMs p hp
      intro q hq
      rcases (makeRoom_fields s.cache pkt.seq).2.2 with hsame | htail
      · exact hdiffs q (hsame ▸ hq)
      · exact hdiffs q (mem_of_mem_tail (htail ▸ hq))
  | inOrder hfull hcorrupted hseq =>
    refine applyAndDrain_fits merge hdiffs ?_
    have hnote : seg.note (applyEvent pkt (s.applyPacket merge pkt))
        = seg.map fun r => (r.1, r.2 ++ [pkt.seq]) := by
      simp only [applyEvent, hfull, Segment.note]
    rw [hnote]
    cases hs : seg with
    | none => exact Segment.fits_none _
    | some r =>
      -- inside a segment only the expected number gets here
      have hnext : pkt.seq = s.cache.expectedSeq := by
        by_contra hne
        have hzero := hseq.resolve_left hne
        have hno := hskips (by rw [hs]; rfl)
        simp [skips, hfull, hcorrupted, hzero, hne] at hno
      rw [← hs, hnext]
      exact hseg.snoc rfl rfl
  | stale hslot hevents =>
    refine ⟨segment_fits ?_, ?_⟩
    · rw [hevents, hslot]
      exact hseg
    · rw [hslot]
      exact hdiffs
  | gap hfull hcorrupted hlast hahead hpackets hexpected hevents =>
    refine ⟨?_, ?_⟩
    · unfold segment
      split
      · exact Segment.fits_none _
      next hstays =>
      rw [hevents]
      exact hseg.congr ((eq_false_iff.mpr hstays).trans hcorrupted.symm) hexpected
    · intro p hp
      rw [hpackets] at hp
      exact add_diffsOnly hdiffs hfull nowMs p hp

end BookSlot

/-! ### Runs -/

inductive BookAction (lvl : Type)
  | packet (pkt : OrderBookUpdate lvl) (nowMs : Int)
  | reset

/-- All books, with what was applied to each since its last full snapshot. -/
structure BookRun (lvl : Type) where
  books : OrderBooks lvl
  since : BookKey → Segment

namespace BookRun

def new : BookRun lvl := ⟨.new, fun _ => none⟩

def step (r : BookRun lvl) : BookAction lvl → Option (BookRun lvl)
  | .packet pkt nowMs =>
    let out := (r.books.slot pkt.key).onPacketInto merge pkt nowMs
    some ⟨(r.books.onPacketInto merge pkt nowMs).2,
      Function.update r.since pkt.key (BookSlot.segment (r.since pkt.key) out)⟩
  | .reset => some ⟨r.books.resetCachesKeepBooks, fun _ => none⟩

/-- **In sequence**: the diffs applied to a book since its last full snapshot `s` are
`s + 1`, `s + 2` and so on. -/
def InSequence (r : BookRun lvl) : Prop :=
  ∀ key s ds, r.since key = some (s, ds) → Consecutive s ds

/-- Behind a full snapshot no diff comes out of turn while the last applied number
is 0. -/
def NoSkip (r : BookRun lvl) : BookAction lvl → Bool
  | .packet pkt _ => (r.since pkt.key).isNone || !(r.books.slot pkt.key).skips pkt
  | .reset => true

/-- Every book is in sequence, and keeps only diffs. -/
def Synced (r : BookRun lvl) : Prop :=
  ∀ key, (r.since key).Fits (r.books.slot key).cache ∧ (r.books.slot key).cache.DiffsOnly

theorem new_synced : (new : BookRun lvl).Synced :=
  fun _ => ⟨Segment.fits_none _, nofun⟩

theorem step_synced {r r' : BookRun lvl} {a : BookAction lvl} (h : r.Synced)
    (hskip : r.NoSkip a = true) (hstep : r.step merge a = some r') : r'.Synced := by
  cases a with
  | reset =>
    cases hstep
    exact fun _ => ⟨Segment.fits_none _, nofun⟩
  | packet pkt nowMs =>
    cases hstep
    intro key
    by_cases hkey : key = pkt.key
    · subst hkey
      simp only [OrderBooks.onPacketInto, OrderBooks.slot_setSlot, update_self]
      refine BookSlot.onPacketInto_fits merge (h pkt.key).2 (h pkt.key).1 nowMs ?_
      intro hsome
      rw [NoSkip, or_eq_true, not_eq_true'] at hskip
      refine hskip.resolve_left ?_
      rw [isNone_iff_eq_none]
      exact isSome_iff_ne_none.mp hsome
    · simp only [OrderBooks.onPacketInto, OrderBooks.slot_setSlot_of_ne _ _ hkey, update_of_ne hkey]
      exact h key

/-- **Diffs are applied in sequence** in every run in which no diff comes out of
turn while the number last applied behind a full snapshot is 0. -/
theorem diffs_applied_in_sequence {actions : List (BookAction lvl)} {r : BookRun lvl}
    (hskip : Run.Along (step merge) (fun r a => r.NoSkip a = true) new actions)
    (hrun : Run.run (step merge) new actions = some r) : r.InSequence := by
  have hsynced : r.Synced := Run.run_invariant (fun _ _ _ h hskip => step_synced merge h hskip)
    new_synced hskip hrun
  intro key s ds hseg
  exact ((hsynced key).1 s ds hseg).2.1

end BookRun

/-- A packet of book `(1, 0)` without levels. -/
def emptyPacket (seq : UInt16) (isFull : Bool) : OrderBookUpdate Nat := ⟨1, seq, isFull, 0, [], []⟩

namespace BookRun

/-- A full snapshot just before the wrap, the diffs up to it, one that is early and
the missing one. -/
def wrapInOrder : List (BookAction Nat) :=
  [.packet (emptyPacket 65534 true) 1000, .packet (emptyPacket 65535 false) 1010,
    .packet (emptyPacket 0 false) 1020, .packet (emptyPacket 1 false) 1030,
    .packet (emptyPacket 3 false) 1040, .packet (emptyPacket 2 false) 1050]

theorem diffs_applied_in_sequence_wrap :
    ∃ r, Run.run (step fun _ book _ _ => book) new wrapInOrder = some r ∧
      r.since (1, 0) = some (65534, [65535, 0, 1, 2, 3]) ∧ r.InSequence := by
  have hrun : ((Run.run (step fun _ book _ _ => book) new wrapInOrder).map fun r => r.since (1, 0))
      = some (some (65534, [65535, 0, 1, 2, 3])) := by decide +kernel
  obtain ⟨r, hr, hsince⟩ := map_eq_some_iff.mp hrun
  exact ⟨r, hr, hsince, diffs_applied_in_sequence _ (by decide +kernel) hr⟩

/-- The same, but number 1 is lost: behind number 0 the early diff is applied. -/
def wrapWithLoss : List (BookAction Nat) :=
  [.packet (emptyPacket 65534 true) 1000, .packet (emptyPacket 65535 false) 1010,
    .packet (emptyPacket 0 false) 1020, .packet (emptyPacket 7 false) 1030]

/-- **Skipped numbers**: number 7 is applied right behind number 0. -/
theorem diff_skips_behind_zero :
    ∃ r, Run.run (step fun _ book _ _ => book) new wrapWithLoss = some r ∧
      r.since (1, 0) = some (65534, [65535, 0, 7]) ∧ ¬ r.InSequence := by
  have hrun : ((Run.run (step fun _ book _ _ => book) new wrapWithLoss).map fun r => r.since (1, 0))
      = some (some (65534, [65535, 0, 7])) := by decide +kernel
  obtain ⟨r, hr, hsince⟩ := map_eq_some_iff.mp hrun
  refine ⟨r, hr, hsince, fun hseq => ?_⟩
  exact absurd (hseq (1, 0) 65534 _ hsince) (by unfold Consecutive; decide)

end BookRun

/-! ## Nothing left behind -/

/-- `q` comes after `p` by less than half the circle. -/
def CachedPacket.Before (p q : CachedPacket lvl) : Prop :=
  0 < ahead p.seq q.seq ∧ ahead p.seq q.seq < 32768

/-- A packet that waits for its turn: it is neither the expected one nor behind. -/
def CachedPacket.Waits (e : UInt16) (p : CachedPacket lvl) : Prop :=
  0 < ahead e p.seq ∧ ahead e p.seq < 32768

/-- **Drained**: what a sound cache holds is neither the expected packet nor behind
it. -/
def OrderBookCache.Drained (c : OrderBookCache lvl) : Prop :=
  c.corrupted = false → ∀ p ∈ c.packets,
    p.seq ≠ c.expectedSeq ∧ ¬ compareSeq p.seq c.expectedSeq < 0

/-- The packets are in order, and in a sound cache each waits for its turn. -/
structure OrderBookCache.Ordered (c : OrderBookCache lvl) : Prop where
  sorted : c.packets.Pairwise CachedPacket.Before
  waits : c.corrupted = false → ∀ p ∈ c.packets, p.Waits c.expectedSeq

theorem OrderBookCache.Ordered.drained {c : OrderBookCache lvl} (h : c.Ordered) : c.Drained := by
  intro hcorrupted p hp
  obtain ⟨hpos, hlt⟩ := h.waits hcorrupted p hp
  refine ⟨?_, ?_⟩
  · rintro heq
    rw [heq, ahead_self] at hpos
    exact Nat.lt_irrefl 0 hpos
  · rw [compareSeq_neg_iff]
    exact Nat.not_le.mpr hlt

/-- Seen from a base with all packets in the half circle ahead of it, packets in
order are in the order of their distances. -/
theorem before_iff {e : UInt16} {p q : CachedPacket lvl} (hp : ahead e p.seq < 32768)
    (hq : ahead e q.seq < 32768) : p.Before q ↔ ahead e p.seq < ahead e q.seq := by
  unfold CachedPacket.Before
  rcases Nat.lt_or_ge (ahead e q.seq) (ahead e p.seq) with hlt | hle
  · rw [ahead_of_lt hlt]
    omega
  · rw [ahead_of_le hle]
    omega

namespace BookSlot

/-- A packet whose number is not in the cache goes to its place, if some base has it
and the cached packets in the half circle ahead. -/
theorem add_sorted {c : OrderBookCache lvl} {e seq : UInt16}
    (h : c.packets.Pairwise CachedPacket.Before)
    (hne : ∀ p ∈ c.packets, p.seq ≠ seq) (hseq : ahead e seq < 32768)
    (hbase : ∀ p ∈ c.packets, ahead e p.seq < 32768) (pkt : OrderBookUpdate lvl) (nowMs : Int) :
    (c.add seq pkt nowMs).packets.Pairwise CachedPacket.Before := by
  have hkeys : c.packets.Pairwise fun p q => ahead e p.seq < ahead e q.seq :=
    h.imp_of_mem fun hp hq hbefore => (before_iff (hbase _ hp) (hbase _ hq)).mp hbefore
  have hall : ∀ p ∈ (c.add seq pkt nowMs).packets, ahead e p.seq < 32768 := by
    intro p hp
    rcases Slots.mem_insertIdx_cases hp with rfl | hp
    · exact hseq
    · exact hbase p hp
  refine List.Pairwise.imp_of_mem (fun hp hq hlt => (before_iff (hall _ hp) (hall _ hq)).mpr hlt)
    (Slots.pairwise_insertIdx ?_ ?_ hkeys)
  · intro p hp
    rw [decide_eq_true_eq, compareSeq_neg_iff]
    show 32768 ≤ ahead seq p.seq ↔ ahead e p.seq < ahead e seq
    have hdistinct : ahead e p.seq ≠ ahead e seq := fun heq => hne p hp (ahead_inj.mp heq)
    have hp' := hbase p hp
    rcases Nat.lt_or_ge (ahead e p.seq) (ahead e seq) with hlt | hle
    · rw [ahead_of_lt hlt]
      omega
    · rw [ahead_of_le hle]
      omega
  · exact fun p hp heq => hne p hp (ahead_inj.mp heq)

/-- **The drain** of packets in order, none of them behind, leaves those that wait. -/
theorem drainLoop_waits : ∀ (packets : List (CachedPacket lvl)) (s : BookSlot lvl),
    packets.Pairwise CachedPacket.Before →
    (∀ p ∈ packets, ahead s.cache.expectedSeq p.seq < 32768) →
    (drainLoop merge packets s).2.cache.packets.Pairwise CachedPacket.Before ∧
      ∀ p ∈ (drainLoop merge packets s).2.cache.packets,
        p.Waits (drainLoop merge packets s).2.cache.expectedSeq
  | [], s, _, _ => ⟨List.Pairwise.nil, nofun⟩
  | p :: rest, s, hsorted, hahead => by
    obtain ⟨hfirst, hrest⟩ := pairwise_cons.mp hsorted
    have hp := hahead p mem_cons_self
    unfold drainLoop
    by_cases hseq : p.seq = s.cache.expectedSeq
    · rw [if_neg (not_not.mpr hseq)]
      refine drainLoop_waits rest _ hrest ?_
      intro q hq
      have hnext : ahead p.seq (p.seq + 1) = 1 := ahead_add p.seq (by decide)
      have hpos := (hfirst q hq).1
      have hlt := (hfirst q hq).2
      show ahead (p.seq + 1) q.seq < 32768
      rw [ahead_of_le (a := p.seq) (by omega)]
      omega
    · rw [if_pos hseq]
      refine ⟨hsorted, ?_⟩
      have hpos : 0 < ahead s.cache.expectedSeq p.seq :=
        Nat.pos_of_ne_zero fun h0 => hseq (ahead_eq_zero.mp h0)
      intro q hq
      rcases mem_cons.mp hq with rfl | hmem
      · exact ⟨hpos, hp⟩
      · have hlt := (before_iff hp (hahead q hq)).mp (hfirst q hmem)
        exact ⟨Nat.lt_trans hpos hlt, hahead q hq⟩

theorem drainCache_ordered {s : BookSlot lvl} (h : s.cache.packets.Pairwise CachedPacket.Before) :
    (drainCache merge s).2.cache.Ordered := by
  have hahead : ∀ p ∈ s.cache.retainAhead.packets,
      ahead s.cache.retainAhead.expectedSeq p.seq < 32768 := by
    intro p hp
    have hge := of_decide_eq_true (mem_filter.mp hp).2
    exact (compareSeq_nonneg_iff _ _).mp hge
  obtain ⟨hsorted, hwaits⟩ := drainLoop_waits merge s.cache.retainAhead.packets
    { s with cache := s.cache.retainAhead } (h.filter _) hahead
  obtain ⟨-, h₂, -, h₃⟩ := checkCacheEmpty_fields
    (drainLoop merge s.cache.retainAhead.packets { s with cache := s.cache.retainAhead }).2.cache
  have hexpected : (drainCache merge s).2.cache.expectedSeq = _ := h₂
  have hpackets : (drainCache merge s).2.cache.packets = _ := h₃
  refine ⟨?_, fun _ => ?_⟩
  · rw [hpackets]
    exact hsorted
  · rw [hpackets, hexpected]
    exact hwaits

/-- Does the packet go to the cache? -/
def keeps (s : BookSlot lvl) (pkt : OrderBookUpdate lvl) : Bool :=
  !pkt.isFull && (s.cache.corrupted ||
    s.cache.lastAppliedSeq != 0 && decide (0 < compareSeq pkt.seq s.cache.expectedSeq))

/-- Some number has all of them in the half circle ahead. -/
def halfCircle (seqs : List UInt16) : Bool :=
  seqs.any fun base => seqs.all fun seq => 0 ≤ compareSeq seq base

/-- The numbers in the cache to which a packet is added. -/
def cachedSeqs (s : BookSlot lvl) (pkt : OrderBookUpdate lvl) : List UInt16 :=
  (if s.cache.corrupted then makeRoom s.cache pkt.seq else s.cache).packets.map (·.seq)

/-- A packet that goes to the cache is no copy of one there, and in a corrupted book
the cache with it spans at most half the circle. -/
def fitsCache (s : BookSlot lvl) (pkt : OrderBookUpdate lvl) : Bool :=
  !s.keeps pkt || (!(s.cachedSeqs pkt).contains pkt.seq &&
    (!s.cache.corrupted || halfCircle (pkt.seq :: s.cachedSeqs pkt)))

/-- **One packet** that fits keeps the cache in order. -/
theorem onPacketInto_ordered {s : BookSlot lvl} (h : s.cache.Ordered) {pkt : OrderBookUpdate lvl}
    (nowMs : Int) (hfits : s.fitsCache pkt = true) :
    (s.onPacketInto merge pkt nowMs).2.cache.Ordered := by
  have hstep := onPacketInto_handles merge s pkt nowMs
  generalize s.onPacketInto merge pkt nowMs = out at hstep
  cases hstep with
  | full hfull =>
    refine drainCache_ordered merge ?_
    obtain ⟨-, -, -, h₃⟩ := checkCacheEmpty_fields (resetBy s.cache pkt).retainAhead
    rw [h₃]
    exact h.sorted.filter _
  | inOrder hfull hcorrupted hseq => exact drainCache_ordered merge h.sorted
  | stale hslot hevents =>
    rw [hslot]
    exact h
  | corrupted hfull hcorrupted hpackets hstays hexpected =>
    have hkeeps : s.keeps pkt = true := by simp [keeps, hfull, hcorrupted]
    have hseqs : s.cachedSeqs pkt = (makeRoom s.cache pkt.seq).packets.map (·.seq) := by
      rw [cachedSeqs, if_pos hcorrupted]
    rw [fitsCache, hkeeps, hcorrupted, hseqs] at hfits
    obtain ⟨hnew, hhalf⟩ := and_eq_true_iff.mp hfits
    obtain ⟨e, -, he⟩ := List.any_eq_true.mp hhalf
    have hall := List.all_eq_true.mp he
    have hroom : (makeRoom s.cache pkt.seq).packets.Pairwise CachedPacket.Before := by
      rcases (makeRoom_fields s.cache pkt.seq).2.2 with hsame | htail
      · exact hsame ▸ h.sorted
      · exact htail ▸ h.sorted.tail
    refine ⟨?_, fun hsound => absurd hstays (eq_false_iff.mp hsound)⟩
    rw [hpackets]
    refine @add_sorted _ _ e _ hroom ?_ ?_ ?_ pkt nowMs
    · intro p hp heq
      rw [not_eq_true', contains_eq_mem, decide_eq_false_iff_not] at hnew
      exact hnew (List.mem_map.mpr ⟨p, hp, heq⟩)
    · have hhead := of_decide_eq_true (hall pkt.seq mem_cons_self)
      exact (compareSeq_nonneg_iff _ _).mp hhead
    · intro p hp
      have hmem : p.seq ∈ pkt.seq :: (makeRoom s.cache pkt.seq).packets.map (·.seq) :=
        mem_cons_of_mem _ (List.mem_map.mpr ⟨p, hp, rfl⟩)
      exact (compareSeq_nonneg_iff _ _).mp (of_decide_eq_true (hall _ hmem))
  | gap hfull hcorrupted hlast hahead hpackets hexpected hevents =>
    have hwaits := h.waits hcorrupted
    have hpos : 0 < compareSeq pkt.seq s.cache.expectedSeq :=
      (compareSeq_pos_iff _ _).mpr hahead
    have hkeeps : s.keeps pkt = true := by simp [keeps, hfull, hcorrupted, hlast, hpos]
    have hseqs : s.cachedSeqs pkt = s.cache.packets.map (·.seq) := by
      rw [cachedSeqs, if_neg (eq_false_iff.mp hcorrupted)]
    rw [fitsCache, hkeeps, hcorrupted, hseqs] at hfits
    have hnew := (and_eq_true_iff.mp hfits).1
    refine ⟨?_, fun _ => ?_⟩
    · rw [hpackets]
      refine add_sorted h.sorted ?_ hahead.2 (fun p hp => (hwaits p hp).2) pkt nowMs
      intro p hp heq
      rw [not_eq_true', contains_eq_mem, decide_eq_false_iff_not] at hnew
      exact hnew (List.mem_map.mpr ⟨p, hp, heq⟩)
    · rw [hpackets, hexpected]
      intro p hp
      rcases Slots.mem_insertIdx_cases hp with rfl | hp
      · exact hahead
      · exact hwaits p hp

end BookSlot

/-! ### Runs -/

namespace BookRun

/-- Every packet that goes to a cache fits there. -/
def CacheFits (r : BookRun lvl) : BookAction lvl → Bool
  | .packet pkt _ => (r.books.slot pkt.key).fitsCache pkt
  | .reset => true

def Drained (r : BookRun lvl) : Prop := ∀ key, (r.books.slot key).cache.Drained

def Ordered (r : BookRun lvl) : Prop := ∀ key, (r.books.slot key).cache.Ordered

theorem new_ordered : (new : BookRun lvl).Ordered :=
  fun _ => ⟨List.Pairwise.nil, nofun⟩

theorem step_ordered {r r' : BookRun lvl} {a : BookAction lvl} (h : r.Ordered)
    (hfits : r.CacheFits a = true) (hstep : r.step merge a = some r') : r'.Ordered := by
  cases a with
  | reset =>
    cases hstep
    exact fun _ => ⟨List.Pairwise.nil, nofun⟩
  | packet pkt nowMs =>
    cases hstep
    intro key
    by_cases hkey : key = pkt.key
    · subst hkey
      simp only [OrderBooks.onPacketInto, OrderBooks.slot_setSlot]
      exact BookSlot.onPacketInto_ordered merge (h pkt.key) nowMs hfits
    · simp only [OrderBooks.onPacketInto, OrderBooks.slot_setSlot_of_ne _ _ hkey]
      exact h key

/-- **The caches are drained completely** in every run in which no packet goes to a
cache that already has its number, and a corrupted book's cache spans at most half
the circle. -/
theorem caches_drained {actions : List (BookAction lvl)} {r : BookRun lvl}
    (hfits : Run.Along (step merge) (fun r a => r.CacheFits a = true) new actions)
    (hrun : Run.run (step merge) new actions = some r) : r.Drained := by
  have hordered : r.Ordered := Run.run_invariant (fun _ _ _ h hfits => step_ordered merge h hfits)
    new_ordered hfits hrun
  exact fun key => (hordered key).drained

/-- Two packets are early, one of them after the wrap, and the missing one comes
last. -/
def earlyPackets : List (BookAction Nat) :=
  [.packet (emptyPacket 65534 true) 1000, .packet (emptyPacket 0 false) 1010,
    .packet (emptyPacket 2 false) 1020, .packet (emptyPacket 65535 false) 1030]

theorem caches_drained_early :
    ∃ r, Run.run (step fun _ book _ _ => book) new earlyPackets = some r ∧
      (r.books.slot (1, 0)).cache.packets.map (·.seq) = [2] ∧ r.Drained := by
  have hrun : ((Run.run (step fun _ book _ _ => book) new earlyPackets).map fun r =>
      (r.books.slot (1, 0)).cache.packets.map (·.seq)) = some [2] := by decide +kernel
  obtain ⟨r, hr, hseqs⟩ := map_eq_some_iff.mp hrun
  exact ⟨r, hr, hseqs, caches_drained _ (by decide +kernel) hr⟩

/-- Number 3 comes twice while number 2 is missing. -/
def repeatedPacket : List (BookAction Nat) :=
  [.packet (emptyPacket 1 true) 1000, .packet (emptyPacket 3 false) 1010,
    .packet (emptyPacket 3 false) 1020, .packet (emptyPacket 4 false) 1030,
    .packet (emptyPacket 2 false) 1040]

/-- **Stuck packets**: the second copy of number 3 stops the drain in front of number
4, which is the expected one. -/
theorem repeated_packet_stops_drain :
    ∃ r, Run.run (step fun _ book _ _ => book) new repeatedPacket = some r ∧
      (r.books.slot (1, 0)).cache.packets.map (·.seq) = [3, 4] ∧
      (r.books.slot (1, 0)).cache.expectedSeq = 4 ∧ ¬ r.Drained := by
  have hrun : ((Run.run (step fun _ book _ _ => book) new repeatedPacket).map fun r =>
      ((r.books.slot (1, 0)).cache.packets.map (·.seq), (r.books.slot (1, 0)).cache.expectedSeq,
        (r.books.slot (1, 0)).cache.corrupted)) = some ([3, 4], 4, false) := by decide +kernel
  obtain ⟨r, hr, hfields⟩ := map_eq_some_iff.mp hrun
  simp only [Prod.mk.injEq] at hfields
  obtain ⟨hseqs, hexpected, hsound⟩ := hfields
  refine ⟨r, hr, hseqs, hexpected, fun hdrained => ?_⟩
  obtain ⟨p, hp, hseq⟩ := List.mem_map.mp (hseqs ▸ (by decide : (4 : UInt16) ∈ [3, 4]))
  exact (hdrained (1, 0) hsound p hp).1 (hseq.trans hexpected.symm)

end BookRun

end MoonProto
