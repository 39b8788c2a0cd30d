import Mathlib.Data.List.Forall2
import MoonProto.Lib.Run
import MoonProto.Lib.Slots
import MoonProto.State.Trades

/-!
# Gap tracking: representation invariant and live headers

`Valid` is what every handler relies on and none checks: the counter counts the
open buckets, and the bit vector of an open bucket covers its range. `Live` lists
what a live header can do in a valid state; results about live headers are case
analyses of it.
-/

namespace MoonProto

open Serial List Option

/-! ## Ranges -/

namespace GapBucket

/-- The packet number lies in the range of the bucket. -/
def Covers (b : GapBucket) (n : UInt16) : Prop :=
  ahead b.startNum n ≤ ahead b.startNum b.endNum

instance (b : GapBucket) (n : UInt16) : Decidable (b.Covers n) :=
  inferInstanceAs (Decidable (_ ≤ _))

theorem covers_iff (b : GapBucket) (n : UInt16) :
    isPacketInRange n b.startNum b.endNum = true ↔ b.Covers n := by
  rw [isPacketInRange, decide_eq_true_iff, UInt16.le_iff_toNat_le]
  rfl

/-- Range and bit vector of an open bucket. -/
structure Sized (b : GapBucket) : Prop where
  gapSize_le : b.gapSize ≤ maxRecvdSize
  recvd_le : b.gapSize ≤ b.recvd.length

theorem extendable_iff (b : GapBucket) (start stop : UInt16) : b.extendable start stop = true ↔
      b.active = true ∧ b.retryCount < 2 ∧ b.endNum = start - 2 ∧
        ahead b.startNum stop + 1 ≤ maxRecvdSize := by
  unfold extendable ahead
  rw [Bool.and_eq_true, Bool.and_eq_true, Bool.and_eq_true, decide_eq_true_iff, beq_iff_eq,
    decide_eq_true_iff, and_assoc, and_assoc]

end GapBucket

/-! ## Bit vectors -/

theorem length_growRecvd {recvd : List Bool} {n : Nat} (h : recvd.length ≤ n) :
    (growRecvd recvd n).length = n := by
  rw [growRecvd, length_append, length_replicate]
  omega

theorem length_resetRecvd (recvd : List Bool) (n : Nat) : n ≤ (resetRecvd recvd n).length := by
  unfold resetRecvd
  split
  · rename_i hshort
    rw [length_growRecvd (Nat.le_of_lt hshort)]
  · rw [length_append, length_replicate]
    omega

theorem length_extendRecvd (recvd : List Bool) (oldSize newSize : Nat) :
    newSize ≤ (extendRecvd recvd oldSize newSize).length := by
  have hgrown : newSize ≤
      (if recvd.length < newSize then growRecvd recvd newSize else recvd).length := by
    split
    · rename_i hshort
      rw [length_growRecvd (Nat.le_of_lt hshort)]
    · omega
  simp only [extendRecvd]
  generalize (if recvd.length < newSize then growRecvd recvd newSize else recvd) = grown at hgrown
  split
  · rw [length_append, length_append, length_take, length_replicate, length_drop, length_set]
    omega
  · rw [length_set]
    exact hgrown

namespace GapBucket

theorem Sized.extend {b : GapBucket} {stop : UInt16}
    (hsize : ahead b.startNum stop + 1 ≤ maxRecvdSize) : (b.extend stop).Sized :=
  ⟨hsize, length_extendRecvd _ _ _⟩

theorem Sized.markRecvd {b : GapBucket} (h : b.Sized) (n : UInt16) : (b.markRecvd n).Sized :=
  ⟨h.gapSize_le, h.recvd_le.trans (length_set ▸ Nat.le_refl _)⟩

end GapBucket

namespace TradesState

/-! ## Representation invariant -/

/-- The counter counts the open buckets, and every open bucket is sized. -/
structure Valid (s : TradesState) : Prop where
  length_eq : s.buckets.length = maxGapBuckets
  used_eq : s.usedBuckets = s.buckets.countP GapBucket.active
  sized : ∀ b ∈ s.buckets, b.active = true → b.Sized

variable {s : TradesState} {packetNum : UInt16} {nowMs : Int}

theorem Valid.used_le (h : s.Valid) : s.usedBuckets ≤ maxGapBuckets := by
  rw [h.used_eq, ← h.length_eq]
  exact countP_le_length

theorem Valid.congr {t : TradesState} (h : s.Valid) (hb : t.buckets = s.buckets)
    (hu : t.usedBuckets = s.usedBuckets) : t.Valid :=
  ⟨hb ▸ h.length_eq, by rw [hu, hb]; exact h.used_eq, hb ▸ h.sized⟩

theorem Valid.not_active_of_used_eq_zero (h : s.Valid) (hzero : s.usedBuckets = 0) :
    ∀ b ∈ s.buckets, b.active = false := by
  rw [h.used_eq] at hzero
  intro b hb
  exact Bool.eq_false_iff.mpr (countP_eq_zero.mp hzero b hb)

/-- **The counter is right where it matters**: below the limit there is a free
slot, so opening a bucket never evicts one. -/
theorem Valid.exists_free (h : s.Valid) (hroom : s.usedBuckets < maxGapBuckets) :
    ∃ i, s.buckets.findIdx? (fun b => !b.active) = some i := by
  cases hfind : s.buckets.findIdx? fun b => !b.active with
  | some i => exact ⟨i, rfl⟩
  | none =>
    have hall : ∀ b ∈ s.buckets, b.active = true := by
      intro b hb
      have hnot := findIdx?_eq_none_iff.mp hfind b hb
      simpa using hnot
    have hcount := countP_eq_length.mpr hall
    rw [← h.used_eq, h.length_eq] at hcount
    omega

theorem new_valid : TradesState.new.Valid where
  length_eq := length_replicate
  used_eq := by decide
  sized := by
    intro b hb hactive
    rw [eq_of_mem_replicate hb] at hactive
    exact absurd hactive Bool.false_ne_true

theorem resetGapBuckets_valid (h : s.Valid) (nowMs : Int) : (s.resetGapBuckets nowMs).Valid where
  length_eq := (length_map _).trans h.length_eq
  used_eq := by
    show 0 = (s.buckets.map _).countP _
    rw [countP_map, eq_comm, countP_eq_zero]
    exact fun _ _ => Bool.false_ne_true
  sized := by
    intro b hb hactive
    obtain ⟨a, -, rfl⟩ := List.mem_map.mp hb
    exact absurd hactive Bool.false_ne_true

theorem Valid.modify {t : TradesState} {i : Nat} {b : GapBucket} {f : GapBucket → GapBucket}
    (h : s.Valid) (hi : s.buckets[i]? = some b) (hbuckets : t.buckets = s.buckets.modify i f)
    (hused : t.usedBuckets + (if b.active then 1 else 0) =
      s.usedBuckets + (if (f b).active then 1 else 0))
    (hsized : (f b).active = true → (f b).Sized) : t.Valid where
  length_eq := by rw [hbuckets, length_modify, h.length_eq]
  used_eq := by
    have hcount := Slots.countP_modify (p := GapBucket.active) hi f
    have hbefore := h.used_eq
    rw [hbuckets]
    omega
  sized := by
    intro a ha hactive
    rw [hbuckets] at ha
    rcases Slots.mem_modify ha with ⟨b', hb', rfl⟩ | ⟨j, -, hj⟩
    · obtain rfl := Option.some.inj (hi.symm.trans hb')
      exact hsized hactive
    · exact h.sized a (mem_of_getElem? hj) hactive

/-- The slot that the next bucket takes. -/
def freeSlot (s : TradesState) : Option GapBucket :=
  (s.buckets.findIdx? fun b => !b.active).bind fun i => s.buckets[i]?

theorem createBucket_eq (h : s.Valid) (hroom : s.usedBuckets < maxGapBuckets)
    {start stop : UInt16} (hsize : ahead start stop + 1 ≤ maxRecvdSize) (nowMs : Int) :
    ∃ i b, s.buckets[i]? = some b ∧ s.freeSlot = some b ∧ b.active = false ∧
      (s.createBucket start stop nowMs).buckets = s.buckets.modify i (fun b =>
        { b.reuse start stop nowMs (ahead start stop + 1) with active := true }) ∧
      (s.createBucket start stop nowMs).usedBuckets = s.usedBuckets + 1 := by
  obtain ⟨i, hi⟩ := h.exists_free hroom
  obtain ⟨b, hb, hfree⟩ := Slots.findIdx?_some hi
  have hgap : min ((stop - start).toNat + 1) maxRecvdSize = ahead start stop + 1 :=
    Nat.min_eq_left hsize
  refine ⟨i, b, hb, by rw [freeSlot, hi, bind_some, hb], by simpa using hfree, ?_, ?_⟩
  · simp only [createBucket, hi, hgap]
  · simp only [createBucket, hi]

theorem createBucket_valid (h : s.Valid) (hroom : s.usedBuckets < maxGapBuckets)
    {start stop : UInt16} (hsize : ahead start stop + 1 ≤ maxRecvdSize) (nowMs : Int) :
    (s.createBucket start stop nowMs).Valid := by
  obtain ⟨i, b, hb, -, hfree, hbuckets, hused⟩ := createBucket_eq h hroom hsize nowMs
  refine h.modify hb hbuckets ?_ fun _ => ⟨hsize, length_resetRecvd _ _⟩
  rw [hused, hfree]
  rfl

/-! ## Live headers -/

/-- No open bucket contains the packet number. -/
def Outside (s : TradesState) (packetNum : UInt16) : Prop :=
  ∀ b ∈ s.buckets, b.active = true → ¬ b.Covers packetNum

/-- The search for a bucket finds the first open bucket that contains the packet;
otherwise it extends a bucket if it may and can. -/
theorem findBucketForPacket_cases (h : s.Valid) (packetNum : UInt16) (wantExtend : Bool)
    (start stop : UInt16) :
    (∃ i b, s.findBucketForPacket packetNum wantExtend start stop = (some i, s) ∧
      s.buckets[i]? = some b ∧ b.active = true ∧ b.Covers packetNum) ∨
    (s.Outside packetNum ∧ wantExtend = true ∧ ∃ i b,
      s.findBucketForPacket packetNum wantExtend start stop = (some i, { s with
          buckets := s.buckets.modify i fun b => b.extend stop
          lastPacketNum := packetNum }) ∧
      s.buckets[i]? = some b ∧ b.extendable start stop = true) ∨
    (s.Outside packetNum ∧ (wantExtend = true → ∀ b ∈ s.buckets, b.extendable start stop = false) ∧
      s.findBucketForPacket packetNum wantExtend start stop = (none, s)) := by
  by_cases hzero : s.usedBuckets = 0
  · right
    right
    refine ⟨fun b hb hactive => ?_, fun _ b hb => ?_, if_pos hzero⟩
    · rw [h.not_active_of_used_eq_zero hzero b hb] at hactive
      exact absurd hactive Bool.false_ne_true
    · rw [GapBucket.extendable, h.not_active_of_used_eq_zero hzero b hb]
      rfl
  unfold findBucketForPacket
  rw [if_neg hzero]
  cases hfind : s.buckets.findIdx? fun b =>
      b.active && isPacketInRange packetNum b.startNum b.endNum with
  | some i =>
    obtain ⟨b, hb, hp⟩ := Slots.findIdx?_some hfind
    obtain ⟨hactive, hrange⟩ := (Bool.and_eq_true _ _).mp hp
    exact .inl ⟨i, b, rfl, hb, hactive, (b.covers_iff packetNum).mp hrange⟩
  | none =>
    have hout : s.Outside packetNum := by
      intro b hb hactive hcovers
      have hnot := findIdx?_eq_none_iff.mp hfind b hb
      rw [hactive, (b.covers_iff packetNum).mpr hcovers] at hnot
      exact absurd hnot.symm Bool.false_ne_true
    cases wantExtend with
    | false => exact .inr (.inr ⟨hout, Bool.false_ne_true.elim, rfl⟩)
    | true =>
      cases hext : s.buckets.findIdx? fun b => b.extendable start stop with
      | none =>
        exact .inr (.inr ⟨hout, fun _ => findIdx?_eq_none_iff.mp hext, rfl⟩)
      | some i =>
        obtain ⟨b, hb, hp⟩ := Slots.findIdx?_some hext
        exact .inr (.inl ⟨hout, rfl, i, b, rfl, hb, hp⟩)

/-- Tracking runs: a packet has been seen since the last reset and the stream has
not paused. -/
def Tracking (s : TradesState) (nowMs : Int) : Prop :=
  s.tradesStarted = true ∧ s.pauseDetected nowMs = false

/-- A packet that is neither the last one nor the next one, while tracking runs. -/
def Jump (s : TradesState) (packetNum : UInt16) (nowMs : Int) : Prop :=
  s.Tracking nowMs ∧ packetNum ≠ s.lastPacketNum ∧ packetNum ≠ s.lastPacketNum + 1

/-- **What a live header can do**, with its effects and the state it leaves. -/
inductive Live (s : TradesState) (packetNum : UInt16) (nowMs : Int) :
    TradesPacketEffects → TradesState → Prop where
  | restart (hstart : ¬ s.Tracking nowMs) :
      Live s packetNum nowMs ⟨[.apply]⟩
        { s.resetGapBuckets nowMs with
          tradesStarted := true
          lastPacketNum := packetNum
          lastPacketTimeMs := nowMs }
  | duplicate (htrack : s.Tracking nowMs) (hnum : packetNum = s.lastPacketNum) :
      Live s packetNum nowMs ⟨[.duplicate, .apply]⟩ { s with lastPacketTimeMs := nowMs }
  | next (htrack : s.Tracking nowMs) (hnum : packetNum = s.lastPacketNum + 1) :
      Live s packetNum nowMs ⟨[.apply]⟩
        { s with
          lastPacketNum := packetNum
          lastPacketTimeMs := nowMs }
  | fill (hjump : s.Jump packetNum nowMs) {i : Nat} {b : GapBucket}
      (hb : s.buckets[i]? = some b) (hactive : b.active = true) (hcovers : b.Covers packetNum) :
      Live s packetNum nowMs ⟨[.gapFilled packetNum (b.startNum, b.endNum), .apply]⟩
        { s with
          buckets := s.buckets.modify i fun b => b.markRecvd packetNum
          lastPacketTimeMs := nowMs }
  | extend (hjump : s.Jump packetNum nowMs) (hout : s.Outside packetNum) {i : Nat} {b : GapBucket}
      (hb : s.buckets[i]? = some b)
      (hext : b.extendable (s.lastPacketNum + 1) (packetNum - 1) = true) :
      Live s packetNum nowMs ⟨[.gapDetected (s.lastPacketNum + 1) (packetNum - 1), .apply]⟩
        { s with
          buckets := s.buckets.modify i fun b => b.extend (packetNum - 1)
          lastPacketNum := packetNum
          lastPacketTimeMs := nowMs }
  | overflow (hjump : s.Jump packetNum nowMs) (hout : s.Outside packetNum)
      (hlarge : maxRecvdSize < ahead (s.lastPacketNum + 1) packetNum ∨
        maxGapBuckets ≤ s.usedBuckets) :
      Live s packetNum nowMs ⟨[.apply]⟩ (s.resetGapBuckets nowMs)
  | create (hjump : s.Jump packetNum nowMs) (hout : s.Outside packetNum)
      (hnone : ∀ b ∈ s.buckets, b.extendable (s.lastPacketNum + 1) (packetNum - 1) = false)
      (hsize : ahead (s.lastPacketNum + 1) packetNum ≤ maxRecvdSize)
      (hroom : s.usedBuckets < maxGapBuckets) :
      Live s packetNum nowMs ⟨[.gapDetected (s.lastPacketNum + 1) (packetNum - 1), .apply]⟩
        { s.createBucket (s.lastPacketNum + 1) (packetNum - 1) nowMs with
          lastPacketNum := packetNum
          lastPacketTimeMs := nowMs }

theorem openGap_live (hjump : s.Jump packetNum nowMs) (hout : s.Outside packetNum)
    (hnone : ∀ b ∈ s.buckets, b.extendable (s.lastPacketNum + 1) (packetNum - 1) = false) :
    Live s packetNum nowMs (s.openGap packetNum nowMs).1 (s.openGap packetNum nowMs).2 := by
  unfold openGap
  by_cases hlarge : (packetNum - (s.lastPacketNum + 1)).toNat > maxRecvdSize ∨
      s.usedBuckets ≥ maxGapBuckets
  · rw [if_pos hlarge]
    exact Live.overflow hjump hout hlarge
  · rw [if_neg hlarge]
    obtain ⟨hsize, hroom⟩ := not_or.mp hlarge
    exact Live.create hjump hout hnone (Nat.le_of_not_lt hsize) (Nat.lt_of_not_le hroom)

theorem not_covers_extend {b : GapBucket} (hne : packetNum ≠ b.startNum) :
    ¬ (b.extend (packetNum - 1)).Covers packetNum := by
  intro hcovers
  have hpred := ahead_pred hne
  have hle : ahead b.startNum packetNum ≤ ahead b.startNum (packetNum - 1) := hcovers
  omega

theorem onGapHeader_live (h : s.Valid) (hjump : s.Jump packetNum nowMs) :
    Live s packetNum nowMs (s.onGapHeader packetNum nowMs).1 (s.onGapHeader packetNum nowMs).2 := by
  unfold onGapHeader
  rcases findBucketForPacket_cases h packetNum true (s.lastPacketNum + 1) (packetNum - 1) with
    ⟨i, b, hfind, hb, hactive, hcovers⟩ | ⟨hout, -, i, b, hfind, hb, hext⟩ | ⟨hout, hnone, hfind⟩
  · simp only [hfind, hb, if_pos ((b.covers_iff packetNum).mpr hcovers)]
    exact Live.fill hjump hb hactive hcovers
  · have hslot : (s.buckets.modify i fun b => b.extend (packetNum - 1))[i]? =
        some (b.extend (packetNum - 1)) := Slots.getElem?_modify_self hb
    obtain ⟨hactive, -⟩ := (b.extendable_iff _ _).mp hext
    have hne : packetNum ≠ b.startNum := by
      rintro rfl
      refine hout b (mem_of_getElem? hb) hactive ?_
      show ahead b.startNum b.startNum ≤ _
      rw [ahead_self]
      exact Nat.zero_le _
    have hnot : ¬ isPacketInRange packetNum (b.extend (packetNum - 1)).startNum
        (b.extend (packetNum - 1)).endNum = true := fun hin =>
      not_covers_extend hne ((GapBucket.covers_iff _ _).mp hin)
    simp only [hfind, hslot, if_neg hnot]
    exact Live.extend hjump hout hb hext
  · simp only [hfind]
    exact openGap_live hjump hout (hnone rfl)

theorem onPacketHeader_live (h : s.Valid) (packetNum : UInt16) (baseTime : UInt64) (nowMs : Int) :
    Live (s.rememberPacket packetNum baseTime).2 packetNum nowMs
      (s.onPacketHeader packetNum baseTime nowMs).1
      (s.onPacketHeader packetNum baseTime nowMs).2 := by
  have hr : (s.rememberPacket packetNum baseTime).2.Valid := h.congr rfl rfl
  unfold onPacketHeader
  generalize (s.rememberPacket packetNum baseTime).2 = r at hr
  by_cases htrack : r.Tracking nowMs
  · have hrun : ¬ ((!r.tradesStarted || r.pauseDetected nowMs) = true) := by
      rw [htrack.1, htrack.2]
      exact Bool.false_ne_true
    simp only [if_neg hrun]
    by_cases hdup : packetNum = r.lastPacketNum
    · rw [if_pos hdup]
      exact Live.duplicate htrack hdup
    rw [if_neg hdup]
    by_cases hnext : packetNum = r.lastPacketNum + 1
    · rw [if_pos hnext]
      exact Live.next htrack hnext
    · rw [if_neg hnext]
      exact onGapHeader_live hr ⟨htrack, hdup, hnext⟩
  · have hrun : (!r.tradesStarted || r.pauseDetected nowMs) = true := by
      by_contra hnot
      refine htrack ?_
      simpa [Tracking] using hnot
    simp only [if_pos hrun]
    exact Live.restart htrack

theorem Live.count_apply {effects : TradesPacketEffects} {t : TradesState}
    (h : Live s packetNum nowMs effects t) :
    effects.items.count .apply = 1 ∧ effects.items.length < 4 := by
  cases h <;> simp

theorem Live.valid (h : s.Valid) {effects : TradesPacketEffects} {t : TradesState}
    (hlive : Live s packetNum nowMs effects t) : t.Valid := by
  cases hlive with
  | restart => exact (resetGapBuckets_valid h nowMs).congr rfl rfl
  | duplicate => exact h.congr rfl rfl
  | next => exact h.congr rfl rfl
  | fill hjump hb hactive hcovers =>
    refine h.modify hb rfl rfl fun _ => ?_
    exact (h.sized _ (mem_of_getElem? hb) hactive).markRecvd packetNum
  | extend hjump hout hb hext =>
    obtain ⟨-, -, -, hsize⟩ := (GapBucket.extendable_iff _ _ _).mp hext
    exact h.modify hb rfl rfl fun _ => GapBucket.Sized.extend hsize
  | overflow => exact resetGapBuckets_valid h nowMs
  | create hjump hout hnone hsize hroom =>
    refine (createBucket_valid h hroom ?_ nowMs).congr rfl rfl
    rw [ahead_pred hjump.2.2]
    exact hsize

/-! ## Resent headers -/

/-- A resent header sets a bit in a bucket that contains it, or changes no bucket. -/
theorem onPacketResendHeader_cases (h : s.Valid) (packetNum : UInt16) (baseTime : UInt64) :
    ∃ seen, (s.Outside packetNum ∧
        (s.onPacketResendHeader packetNum baseTime).2 = { s with seenPackets := seen }) ∨
      ∃ i b, s.buckets[i]? = some b ∧ b.active = true ∧ b.Covers packetNum ∧
        (s.onPacketResendHeader packetNum baseTime).2 =
          { s with
            buckets := s.buckets.modify i fun b => b.markRecvd packetNum
            seenPackets := seen } := by
  unfold onPacketResendHeader
  rcases findBucketForPacket_cases h packetNum false 0 0 with
    ⟨i, b, hfind, hb, hactive, hcovers⟩ | ⟨-, hfalse, -⟩ | ⟨hout, -, hfind⟩
  · exact ⟨_, .inr ⟨i, b, hb, hactive, hcovers, by simp only [hfind, hb]; rfl⟩⟩
  · exact absurd hfalse Bool.false_ne_true
  · exact ⟨_, .inl ⟨hout, by simp only [hfind]; rfl⟩⟩

theorem onPacketResendHeader_valid (h : s.Valid) (packetNum : UInt16) (baseTime : UInt64) :
    (s.onPacketResendHeader packetNum baseTime).2.Valid := by
  obtain ⟨seen, ⟨-, heq⟩ | ⟨i, b, hb, hactive, -, heq⟩⟩ :=
    onPacketResendHeader_cases h packetNum baseTime
  · rw [heq]
    exact h.congr rfl rfl
  · rw [heq]
    refine h.modify hb rfl rfl fun _ => ?_
    exact (h.sized _ (mem_of_getElem? hb) hactive).markRecvd packetNum

/-! ## Ticks -/

section Tick

variable {F : Type} {t : TradesTick F}

/-- The numbers that the tick asks for on behalf of an open bucket. -/
def due (t : TradesTick F) (b : GapBucket) : List UInt16 :=
  if b.retryCount < maxRetryCount ∧ t.overdue b = true then b.missingNums else []

/-- A slot before and after a tick: if it is open it was open before, with the same
range and bits. -/
def Kept (b b' : GapBucket) : Prop :=
  b'.active = true → b.active = true ∧ b'.startNum = b.startNum ∧ b'.endNum = b.endNum ∧
    b'.recvd = b.recvd

theorem Kept.sized {b b' : GapBucket} (h : Kept b b') (hb : b.active = true → b.Sized)
    (hactive : b'.active = true) : b'.Sized := by
  obtain ⟨hopen, hstart, hend, hrecvd⟩ := h hactive
  obtain ⟨hsize, hlen⟩ := hb hopen
  have hgap : b'.gapSize = b.gapSize := by rw [GapBucket.gapSize, hstart, hend, GapBucket.gapSize]
  exact ⟨hgap ▸ hsize, by rw [hgap, hrecvd]; exact hlen⟩

theorem missingNums_eq_nil {b : GapBucket} (hsized : b.Sized)
    (hall : (b.recvd.take b.gapSize).all id = true) : b.missingNums = [] := by
  unfold GapBucket.missingNums
  rw [map_eq_nil_iff, filter_eq_nil_iff]
  intro j hj
  have hlt : j < b.gapSize := mem_range.mp hj
  have hbit : b.recvd.getD j false = true := by
    have hget : (b.recvd.take b.gapSize)[j]? = some (b.recvd.getD j false) := by
      rw [getElem?_take_of_lt hlt, getD_eq_getElem?_getD,
        getElem?_eq_getElem (hlt.trans_le hsized.recvd_le)]
      rfl
    exact List.all_eq_true.mp hall _ (mem_of_getElem? hget)
  rw [hbit]
  exact Bool.false_ne_true

/-- **One open bucket** in the tick. -/
theorem bucket_tick {b : GapBucket} (hactive : b.active = true) (hsized : b.Sized)
    (t : TradesTick F) : ∃ b', b.tick t = some (due t b, b') ∧ Kept b b' := by
  unfold GapBucket.tick due
  by_cases hall : (b.recvd.take b.gapSize).all id = true
  · refine ⟨{ b with active := false }, ?_, Bool.false_ne_true.elim⟩
    rw [if_pos hall, missingNums_eq_nil hsized hall, ite_self]
  rw [if_neg hall]
  by_cases hretry : b.retryCount ≥ maxRetryCount
  · have hnot : ¬ (b.retryCount < maxRetryCount ∧ t.overdue b = true) := fun h =>
      absurd h.1 (Nat.not_lt_of_le hretry)
    refine ⟨_, by rw [if_pos hretry, if_neg hnot], fun h => ?_⟩
    split at h
    · exact absurd h Bool.false_ne_true
    rename_i hdue
    rw [if_neg hdue]
    exact ⟨h, rfl, rfl, rfl⟩
  rw [if_neg hretry]
  by_cases hdue : t.overdue b = true
  · have hboth : b.retryCount < maxRetryCount ∧ t.overdue b = true :=
      ⟨Nat.lt_of_not_le hretry, hdue⟩
    refine ⟨{ b with retryCount := min (b.retryCount + 1) 255, lastRetryMs := t.nowMs }, ?_,
      fun _ => ⟨hactive, rfl, rfl, rfl⟩⟩
    rw [if_pos hdue, if_pos hboth, GapBucket.missing, if_pos hsized.recvd_le, map_some]
  · have hnot : ¬ (b.retryCount < maxRetryCount ∧ t.overdue b = true) := fun h => hdue h.2
    exact ⟨b, by rw [if_neg hdue, if_neg hnot], fun h => ⟨h, rfl, rfl, rfl⟩⟩

/-- **The loop over the buckets**, by induction on the slots still to be visited. -/
theorem tickLoop_spec (t : TradesTick F) : ∀ (bs : List GapBucket) (scan : TickScan),
    (∀ b ∈ bs, b.active = true → b.Sized) → bs.countP GapBucket.active ≤ scan.usedBuckets →
    ∃ bs' used', tickLoop t bs scan = some ⟨scan.buckets ++ bs', used',
        scan.packetNums ++ (bs.filter GapBucket.active).flatMap (due t)⟩ ∧
      Forall₂ Kept bs bs' ∧
      used' + bs.countP GapBucket.active = scan.usedBuckets + bs'.countP GapBucket.active
  | [], scan, _, _ => ⟨[], scan.usedBuckets, by simp [tickLoop], Forall₂.nil, rfl⟩
  | b :: bs, scan, hsized, hused => by
    have hrest : ∀ b ∈ bs, b.active = true → b.Sized :=
      fun a ha => hsized a (mem_cons_of_mem _ ha)
    rw [countP_cons] at hused
    cases hactive : b.active with
    | false =>
      rw [hactive] at hused
      obtain ⟨bs', used', hloop, hkept, hcount⟩ :=
        tickLoop_spec t bs { scan with buckets := scan.buckets ++ [b] } hrest
          (by simpa using hused)
      refine ⟨b :: bs', used', ?_, hkept.cons fun h => ⟨h, rfl, rfl, rfl⟩, ?_⟩
      · rw [tickLoop, hactive]
        simpa [hactive] using hloop
      · simpa [countP_cons, hactive] using hcount
    | true =>
      rw [hactive] at hused
      obtain ⟨b', htick, hb'⟩ := bucket_tick hactive (hsized b mem_cons_self hactive) t
      have hbound : bs.countP GapBucket.active ≤
          if b'.active then scan.usedBuckets else scan.usedBuckets - 1 := by
        simp only [if_true] at hused
        split <;> omega
      obtain ⟨bs', used', hloop, hkept, hcount⟩ :=
        tickLoop_spec t bs ⟨scan.buckets ++ [b'],
          if b'.active then scan.usedBuckets else scan.usedBuckets - 1,
          scan.packetNums ++ due t b⟩ hrest hbound
      refine ⟨b' :: bs', used', ?_, hkept.cons hb', ?_⟩
      · rw [tickLoop, hactive, htick]
        simpa [hactive] using hloop
      · rw [countP_cons, countP_cons, hactive]
        simp only [if_true] at hused ⊢
        cases hopen : b'.active with
        | true =>
          simp only [hopen, if_true] at hcount ⊢
          omega
        | false =>
          simp only [hopen, Bool.false_eq_true, if_false] at hcount ⊢
          omega

theorem shrinkRecvd_kept (s : TradesState) (nowMs : Int) :
    Forall₂ Kept s.buckets (s.shrinkRecvd nowMs).buckets ∧
      (s.shrinkRecvd nowMs).usedBuckets = s.usedBuckets ∧
      (s.shrinkRecvd nowMs).buckets.countP GapBucket.active =
        s.buckets.countP GapBucket.active := by
  unfold shrinkRecvd
  by_cases hlate : nowMs - s.lastLargeRecvdMs > largeRecvdShrinkMs
  · rw [if_pos hlate]
    have hslot : ∀ b : GapBucket,
        (if !b.active && decide (b.recvd.length > defaultRecvdSize) then
          { b with recvd := b.recvd.take defaultRecvdSize } else b).active = b.active := by
      intro b
      split <;> rfl
    refine ⟨?_, rfl, ?_⟩
    · show Forall₂ Kept s.buckets (s.buckets.map _)
      rw [List.forall₂_map_right_iff]
      refine List.forall₂_same.mpr fun b _ hactive => ?_
      rw [hslot] at hactive
      rw [hactive]
      exact ⟨rfl, rfl, rfl, rfl⟩
    · show (s.buckets.map _).countP _ = _
      rw [countP_map]
      exact countP_congr fun b _ => by rw [Function.comp_apply, hslot]
  · rw [if_neg hlate]
    exact ⟨List.forall₂_same.mpr fun b _ hactive => ⟨hactive, rfl, rfl, rfl⟩, rfl, rfl⟩

theorem Kept.trans {a b c : GapBucket} (h₁ : Kept a b) (h₂ : Kept b c) : Kept a c := by
  intro hc
  obtain ⟨hb, hstart, hend, hrecvd⟩ := h₂ hc
  obtain ⟨ha, hstart', hend', hrecvd'⟩ := h₁ hb
  exact ⟨ha, hstart.trans hstart', hend.trans hend', hrecvd.trans hrecvd'⟩

theorem forall₂_kept_trans {as bs cs : List GapBucket} (h₁ : Forall₂ Kept as bs)
    (h₂ : Forall₂ Kept bs cs) : Forall₂ Kept as cs := by
  induction h₁ generalizing cs with
  | nil =>
    cases h₂
    exact Forall₂.nil
  | cons hab _ ih =>
    cases h₂ with
    | cons hbc hrest => exact Forall₂.cons (hab.trans hbc) (ih hrest)

@[simp] theorem shrinkRecvd_lastPacketNum (s : TradesState) (nowMs : Int) :
    (s.shrinkRecvd nowMs).lastPacketNum = s.lastPacketNum := by
  unfold shrinkRecvd
  split <;> rfl

@[simp] theorem shrinkRecvd_tradesStarted (s : TradesState) (nowMs : Int) :
    (s.shrinkRecvd nowMs).tradesStarted = s.tradesStarted := by
  unfold shrinkRecvd
  split <;> rfl

/-- What the tick asks for, in the order of the slots; a throttled tick asks for
nothing. -/
def requested (s : TradesState) (t : TradesTick F) : List UInt16 :=
  if t.nowMs - s.lastCheckMissingMs ≤ 100 then []
  else (s.buckets.filter GapBucket.active).flatMap (due t)

theorem Valid.of_kept {s' : TradesState} (h : s.Valid) (hkept : Forall₂ Kept s.buckets s'.buckets)
    (hused : s'.usedBuckets = s'.buckets.countP GapBucket.active) : s'.Valid where
  length_eq := hkept.length_eq.symm.trans h.length_eq
  used_eq := hused
  sized := by
    intro b' hb' hactive
    obtain ⟨i, hi, rfl⟩ := getElem_of_mem hb'
    have hi' : i < s.buckets.length := hkept.length_eq ▸ hi
    have hslot : Kept s.buckets[i] s'.buckets[i] := (List.forall₂_iff_get.mp hkept).2 i hi' hi
    exact hslot.sized (h.sized _ (getElem_mem hi')) hactive

/-- **The tick** does not panic, keeps the open buckets' ranges and bits, and its
request batches list what it asks for. -/
theorem tick_spec (h : s.Valid) (t : TradesTick F) :
    ∃ payloads s', s.tick t = some (payloads, s') ∧ s'.Valid ∧
      Forall₂ Kept s.buckets s'.buckets ∧ s'.lastPacketNum = s.lastPacketNum ∧
      s'.tradesStarted = s.tradesStarted ∧
      payloads.flatMap EngineRequest.resendNumbers = s.requested t := by
  have hrefl : Forall₂ Kept s.buckets s.buckets :=
    List.forall₂_same.mpr fun b _ hactive => ⟨hactive, rfl, rfl, rfl⟩
  unfold tick requested
  by_cases hthrottle : t.nowMs - s.lastCheckMissingMs ≤ 100
  · rw [if_pos hthrottle, if_pos hthrottle]
    exact ⟨_, _, rfl, h, hrefl, rfl, rfl, rfl⟩
  rw [if_neg hthrottle, if_neg hthrottle]
  by_cases hzero : s.usedBuckets = 0
  · have hnone : s.buckets.filter GapBucket.active = [] := by
      rw [filter_eq_nil_iff]
      intro b hb
      rw [h.not_active_of_used_eq_zero hzero b hb]
      exact Bool.false_ne_true
    rw [hnone]
    refine ⟨[], { s with lastCheckMissingMs := t.nowMs }, ?_, h.congr rfl rfl, hrefl, rfl, rfl, rfl⟩
    exact if_pos hzero
  obtain ⟨bs, used, hloop, hkept, hcount⟩ := tickLoop_spec t s.buckets ⟨[], s.usedBuckets, []⟩
    h.sized h.used_eq.ge
  rw [nil_append, nil_append] at hloop
  set nums := (s.buckets.filter GapBucket.active).flatMap (due t) with hnums
  set scanned : TradesState :=
    { s with lastCheckMissingMs := t.nowMs, buckets := bs, usedBuckets := used } with hscanned
  obtain ⟨hshrink, hused, hactive⟩ := shrinkRecvd_kept scanned t.nowMs
  have hall : Forall₂ Kept s.buckets (scanned.shrinkRecvd t.nowMs).buckets :=
    forall₂_kept_trans hkept hshrink
  refine ⟨if nums.isEmpty then [] else EngineRequest.tradesResendBatches t.uids nums,
    scanned.shrinkRecvd t.nowMs, ?_, h.of_kept hall ?_, hall, ?_, ?_, ?_⟩
  · simp only [if_neg hzero, hloop, map_some]
    rfl
  · rw [hused, hactive]
    have hbefore := h.used_eq
    show used = bs.countP GapBucket.active
    have hcount' : used + s.buckets.countP GapBucket.active =
      s.usedBuckets + bs.countP GapBucket.active := hcount
    omega
  · exact shrinkRecvd_lastPacketNum scanned t.nowMs
  · exact shrinkRecvd_tradesStarted scanned t.nowMs
  · cases hempty : nums.isEmpty with
    | true => exact (List.isEmpty_iff.mp hempty).symm
    | false => exact EngineRequest.tradesResendBatches_numbers t.uids nums

end Tick

end TradesState

/-! ## Runs -/

/-- What can happen to the gap state. A packet of a resend response that does not
decode reaches no handler. -/
inductive TradesInput (F : Type) where
  | live (packetNum : UInt16) (baseTime : UInt64) (nowMs : Int)
  | resend (packetNum : UInt16) (baseTime : UInt64)
  | resendFailed
  | reset (nowMs : Int)
  | tick (t : TradesTick F)

namespace TradesState

variable {F : Type} {s : TradesState}

/-- One input; `none` is a panic. -/
def step (s : TradesState) : TradesInput F → Option TradesState
  | .live packetNum baseTime nowMs => some (s.onPacketHeader packetNum baseTime nowMs).2
  | .resend packetNum baseTime => some (s.onPacketResendHeader packetNum baseTime).2
  | .resendFailed => some s
  | .reset nowMs => some (s.fullResetAt nowMs)
  | .tick t => (s.tick t).map Prod.snd

theorem step_valid (h : s.Valid) (input : TradesInput F) :
    ∃ s', s.step input = some s' ∧ s'.Valid := by
  cases input with
  | live packetNum baseTime nowMs =>
    refine ⟨_, rfl, (onPacketHeader_live h packetNum baseTime nowMs).valid ?_⟩
    exact h.congr rfl rfl
  | resend packetNum baseTime =>
    exact ⟨_, rfl, onPacketResendHeader_valid h packetNum baseTime⟩
  | resendFailed => exact ⟨s, rfl, h⟩
  | reset nowMs => exact ⟨_, rfl, (resetGapBuckets_valid h nowMs).congr rfl rfl⟩
  | tick t =>
    obtain ⟨payloads, s', htick, hs', -⟩ := tick_spec h t
    exact ⟨s', by rw [step, htick]; rfl, hs'⟩

theorem reachable_valid (inputs : List (TradesInput F)) :
    ∃ s, Run.run step TradesState.new inputs = some s ∧ s.Valid :=
  Run.run_total (P := fun _ _ => True) (fun _ input hs _ => step_valid hs input) new_valid
    (Run.along_of_forall (fun _ _ => trivial) _ _)

/-- **Representation invariant.** No sequence of inputs panics. In every state
reached the counter is the number of open buckets and at most the number of slots,
every open bucket has a range within the limit and a bit vector that covers it, a
bucket is only opened in a free slot, and a live header applies its packet exactly
once, within the four effects the buffer holds. -/
theorem representation_invariant (inputs : List (TradesInput F)) :
    ∃ s, Run.run step TradesState.new inputs = some s ∧
      s.usedBuckets = s.buckets.countP GapBucket.active ∧
      s.usedBuckets ≤ maxGapBuckets ∧ s.buckets.length = maxGapBuckets ∧
      (∀ b ∈ s.buckets, b.active = true → b.gapSize ≤ maxRecvdSize ∧ b.gapSize ≤ b.recvd.length) ∧
      (s.usedBuckets < maxGapBuckets → ∃ i, s.buckets.findIdx? (fun b => !b.active) = some i) ∧
      ∀ packetNum baseTime nowMs,
        (s.onPacketHeader packetNum baseTime nowMs).1.items.count .apply = 1 ∧
          (s.onPacketHeader packetNum baseTime nowMs).1.items.length < 4 := by
  obtain ⟨s, hrun, h⟩ := reachable_valid inputs
  refine ⟨s, hrun, h.used_eq, h.used_le, h.length_eq, ?_, h.exists_free, ?_⟩
  · intro b hb hactive
    exact ⟨(h.sized b hb hactive).gapSize_le, (h.sized b hb hactive).recvd_le⟩
  · intro packetNum baseTime nowMs
    exact (onPacketHeader_live h packetNum baseTime nowMs).count_apply

/-! ## Late live packets -/

/-- Every open bucket and the last packet number are as before. -/
def KeepsRecovery (s s' : TradesState) : Prop :=
  (∀ (i : Nat) (b : GapBucket), s.buckets[i]? = some b → b.active = true →
    s'.buckets[i]? = some b) ∧ s'.lastPacketNum = s.lastPacketNum

theorem ahead_of_behind {last packetNum : UInt16} (hbehind : (packetNum - last).toInt16 < 0) :
    maxRecvdSize < ahead (last + 1) packetNum := by
  rw [toInt16_neg_iff] at hbehind
  have hne : packetNum ≠ last := by
    rintro rfl
    rw [ahead_self] at hbehind
    omega
  have hsucc := ahead_succ hne
  show 3000 < _
  omega

theorem not_extendable_of_behind {b : GapBucket} {last packetNum : UInt16}
    (hbehind : (packetNum - last).toInt16 < 0) (hsized : b.Sized) (hout : ¬ b.Covers packetNum) :
    b.extendable (last + 1) (packetNum - 1) ≠ true := by
  intro hext
  obtain ⟨-, -, hend, hsize⟩ := (b.extendable_iff _ _).mp hext
  rw [toInt16_neg_iff] at hbehind
  have hgap : ahead b.startNum b.endNum + 1 ≤ 3000 := hsized.gapSize_le
  have hend' : b.endNum = last - 1 := hend.trans (succ_sub_two last)
  have hlastNe : last ≠ b.startNum := by
    rintro rfl
    have hround := ahead_pred_self b.startNum
    rw [← hend'] at hround
    omega
  have hlast : ahead b.startNum b.endNum + 1 = ahead b.startNum last := by
    rw [hend', ahead_pred hlastNe]
  have hbeyond : ahead b.startNum b.endNum < ahead b.startNum packetNum := Nat.lt_of_not_le hout
  have hne : packetNum ≠ b.startNum := by
    rintro rfl
    rw [ahead_self] at hbeyond
    omega
  have hdist := ahead_of_le (show ahead b.startNum last ≤ ahead b.startNum packetNum by omega)
  have hpred := ahead_pred hne
  have hsize' : ahead b.startNum (packetNum - 1) + 1 ≤ 3000 := hsize
  omega

/-- **A late live packet.** A live packet from behind that belongs to no open bucket
leaves open buckets and the last number as they are exactly when there is no open
bucket and tracking runs; otherwise it closes all buckets or restarts tracking from
its own number. -/
theorem late_packet_keeps_recovery_iff {inputs : List (TradesInput F)}
    (hrun : Run.run step TradesState.new inputs = some s) {packetNum : UInt16}
    (baseTime : UInt64) (nowMs : Int) (hbehind : (packetNum - s.lastPacketNum).toInt16 < 0)
    (hout : ∀ b ∈ s.buckets, b.active = true →
      isPacketInRange packetNum b.startNum b.endNum = false) :
    KeepsRecovery s (s.onPacketHeader packetNum baseTime nowMs).2 ↔
      (∀ b ∈ s.buckets, b.active = false) ∧ s.tradesStarted = true ∧
        s.pauseDetected nowMs = false := by
  have h : s.Valid := by
    obtain ⟨s', hrun', hs'⟩ := reachable_valid inputs
    rw [hrun] at hrun'
    exact Option.some.inj hrun' ▸ hs'
  have houtside : s.Outside packetNum := by
    intro b hb hactive hcovers
    have hnot := hout b hb hactive
    rw [(b.covers_iff packetNum).mpr hcovers] at hnot
    exact absurd hnot.symm Bool.false_ne_true
  have hfar := ahead_of_behind hbehind
  have hne : packetNum ≠ s.lastPacketNum := by
    rintro rfl
    rw [UInt16.sub_self] at hbehind
    exact absurd hbehind (by decide)
  have hlive := onPacketHeader_live h packetNum baseTime nowMs
  generalize (s.onPacketHeader packetNum baseTime nowMs).1 = effects,
    (s.onPacketHeader packetNum baseTime nowMs).2 = s' at hlive
  cases hlive with
  | restart hstart =>
    refine ⟨fun hkeeps => absurd hkeeps.2 hne, fun hcond => ?_⟩
    exact absurd ⟨hcond.2.1, hcond.2.2⟩ hstart
  | duplicate _ hnum => exact absurd hnum hne
  | next _ hnum =>
    have hzero : ahead (s.lastPacketNum + 1) packetNum = 0 := ahead_eq_zero.mpr hnum
    omega
  | fill _ hb hactive hcovers =>
    exact absurd hcovers (houtside _ (mem_of_getElem? hb) hactive)
  | extend _ _ hb hext =>
    have hmem := mem_of_getElem? hb
    have hactive := ((GapBucket.extendable_iff _ _ _).mp hext).1
    exact absurd hext
      (not_extendable_of_behind hbehind (h.sized _ hmem hactive) (houtside _ hmem hactive))
  | overflow hjump =>
    -- the reset closes every bucket and leaves the last number
    refine ⟨fun hkeeps => ⟨fun b hb => ?_, hjump.1.1, hjump.1.2⟩, fun hcond => ⟨?_, rfl⟩⟩
    · obtain ⟨i, hi⟩ := mem_iff_getElem?.mp hb
      by_contra hactive
      have hactive : b.active = true := Bool.not_eq_false b.active |>.mp hactive
      have hafter : (s.buckets.map fun b => { b with active := false })[i]? = some b :=
        hkeeps.1 i b hi hactive
      rw [getElem?_map, hi] at hafter
      have hclosed := congrArg GapBucket.active (Option.some.inj hafter)
      exact absurd (hclosed.trans hactive) Bool.false_ne_true
    · intro i b hi hactive
      rw [hcond.1 b (mem_of_getElem? hi)] at hactive
      exact absurd hactive Bool.false_ne_true
  | create _ _ _ hsize =>
    exact absurd hsize (Nat.not_le_of_lt hfar)

/-- A late packet of a stream without open gaps. -/
theorem late_packet_keeps_recovery_iff_no_gap :
    ∃ s, Run.run (step (F := ℚ)) TradesState.new [.live 100 0 1000, .live 101 0 1010] = some s ∧
      (KeepsRecovery s (s.onPacketHeader 99 0 1020).2 ↔
        (∀ b ∈ s.buckets, b.active = false) ∧ s.tradesStarted = true ∧
          s.pauseDetected 1020 = false) := by
  obtain ⟨s, hrun, hlast, hclosed⟩ : ∃ s, Run.run (step (F := ℚ)) TradesState.new
      [.live 100 0 1000, .live 101 0 1010] = some s ∧ s.lastPacketNum = 101 ∧
      ∀ b ∈ s.buckets, b.active = false := ⟨_, rfl, rfl, by decide⟩
  refine ⟨s, hrun, late_packet_keeps_recovery_iff hrun 0 1020 (by rw [hlast]; decide) ?_⟩
  intro b hb hactive
  rw [hclosed b hb] at hactive
  exact absurd hactive Bool.false_ne_true

/-- Packet 99 arrives late while 101 to 104 are being recovered: the bucket is gone. -/
theorem late_packet_cancels_recovery :
    ∃ s b, Run.run (step (F := ℚ)) TradesState.new [.live 100 0 1000, .live 105 0 1010] = some s ∧
      s.lastPacketNum = 105 ∧ s.buckets[0]? = some b ∧ b.active = true ∧
      b.startNum = 101 ∧ b.endNum = 104 ∧
      isPacketInRange 99 b.startNum b.endNum = false ∧
      (s.onPacketHeader 99 0 1020).2.usedBuckets = 0 ∧
      ¬ KeepsRecovery s (s.onPacketHeader 99 0 1020).2 := by
  obtain ⟨s, b, hrun, hlast, hb, hactive, hstart, hend, hout, hused, hslot⟩ : ∃ s b,
      Run.run (step (F := ℚ)) TradesState.new [.live 100 0 1000, .live 105 0 1010] = some s ∧
      s.lastPacketNum = 105 ∧ s.buckets[0]? = some b ∧ b.active = true ∧
      b.startNum = 101 ∧ b.endNum = 104 ∧
      isPacketInRange 99 b.startNum b.endNum = false ∧
      (s.onPacketHeader 99 0 1020).2.usedBuckets = 0 ∧
      ((s.onPacketHeader 99 0 1020).2.buckets[0]?.map GapBucket.active) = some false :=
    ⟨_, _, rfl, rfl, rfl, rfl, rfl, rfl, rfl, rfl, rfl⟩
  refine ⟨s, b, hrun, hlast, hb, hactive, hstart, hend, hout, hused, fun hkeeps => ?_⟩
  have hafter := hkeeps.1 0 b hb hactive
  rw [hafter, map_some, hactive] at hslot
  exact absurd (Option.some.inj hslot).symm Bool.false_ne_true

end TradesState

end MoonProto
