import Mathlib.Data.List.Nodup
import MoonProto.State.TradesInvariant

/-!
# What the recovery tick asks for

`TradesRun` records for each slot which packet numbers have been delivered since its
bucket was opened, the opening packet included. The tick should ask, for every
bucket that is due, for exactly the numbers of its range that are not among them.

Three things can break this. A slot that is reused for a gap longer than its bit
vector keeps its old bits. Numbers wrap, so the stream can come round to a bucket
that is still open, and the sequential branch does not look at buckets. And a bucket
that is extended takes the new numbers for missing even if a resend has brought one.
`Admitted` excludes these steps and nothing else.
-/

namespace MoonProto

open Serial List Option TradesState

/-! ## Distances round a range -/

/-- A number from `last` up to `packetNum` is outside a range that lies ahead of
both. -/
theorem GapBucket.not_covers_of_overtake {b : GapBucket} {last packetNum n : UInt16}
    (hlast : ¬ b.Covers last) (hahead : ahead last packetNum < ahead last b.startNum)
    (hn : ahead last n ≤ ahead last packetNum) : ¬ b.Covers n := by
  intro hcovers
  have hlt : ahead b.startNum n < ahead b.startNum last :=
    lt_of_le_of_lt hcovers (Nat.lt_of_not_le hlast)
  have hdist := ahead_of_lt hlt
  have hback := ahead_of_lt (a := b.startNum) (b := last) (c := b.startNum)
    (by rw [ahead_self]; omega)
  rw [ahead_self] at hback
  have hbound := ahead_lt b.startNum last
  omega

/-! ## Bit vectors -/

theorem getD_set_self {bits : List Bool} {j : Nat} (h : j < bits.length) :
    (bits.set j true).getD j false = true := by
  rw [getD_eq_getElem?_getD, getElem?_set_self h]
  rfl

theorem getD_set_of_ne {bits : List Bool} {i j : Nat} (h : i ≠ j) :
    (bits.set i true).getD j false = bits.getD j false := by
  rw [getD_eq_getElem?_getD, getElem?_set_ne h, ← getD_eq_getElem?_getD]

/-- A vector without set bits, or one that is long enough, is cleared for `n` numbers. -/
theorem getD_resetRecvd {recvd : List Bool} {n j : Nat}
    (hclean : n ≤ recvd.length ∨ ∀ bit ∈ recvd, bit = false) (hj : j < n) :
    (resetRecvd recvd n).getD j false = false := by
  unfold resetRecvd growRecvd
  by_cases hshort : recvd.length < n
  · rw [if_pos hshort, getD_eq_getElem?_getD]
    have hbits := hclean.resolve_left (Nat.not_le_of_lt hshort)
    rcases Nat.lt_or_ge j recvd.length with hold | hnew
    · rw [getElem?_append_left hold, getElem?_eq_getElem hold, getD_some]
      exact hbits _ (getElem_mem hold)
    · rw [getElem?_append_right hnew, getElem?_replicate]
      split <;> rfl
  · rw [if_neg hshort, getD_eq_getElem?_getD,
      getElem?_append_left (by rw [length_replicate]; exact hj),
      getElem?_replicate, if_pos hj]
    rfl

/-- The bits of an extended bucket: the old ones, the last packet, then nothing. -/
theorem getD_extendRecvd {recvd : List Bool} {oldSize newSize j : Nat}
    (hold : oldSize ≤ recvd.length) (hsize : oldSize < newSize) (hj : j < newSize) :
    (extendRecvd recvd oldSize newSize).getD j false =
      if j < oldSize then recvd.getD j false else decide (j = oldSize) := by
  have hgrown : ∃ grown : List Bool,
      (if recvd.length < newSize then growRecvd recvd newSize else recvd) = grown ∧
        newSize ≤ grown.length ∧ ∀ i, i < oldSize → grown.getD i false = recvd.getD i false := by
    by_cases hshort : recvd.length < newSize
    · refine ⟨_, if_pos hshort, (length_growRecvd (Nat.le_of_lt hshort)).ge, fun i hi => ?_⟩
      rw [growRecvd, getD_eq_getElem?_getD, getElem?_append_left (hi.trans_le hold),
        ← getD_eq_getElem?_getD]
    · exact ⟨_, if_neg hshort, Nat.le_of_not_lt hshort, fun i _ => rfl⟩
  obtain ⟨grown, heq, hlen, hbits⟩ := hgrown
  simp only [extendRecvd, heq]
  have hset : ∀ i, i ≤ oldSize → (grown.set oldSize true).getD i false =
      if i < oldSize then recvd.getD i false else decide (i = oldSize) := by
    intro i hi
    rcases Nat.lt_or_eq_of_le hi with hlt | rfl
    · rw [if_pos hlt, getD_set_of_ne (Nat.ne_of_gt hlt), hbits i hlt]
    · rw [if_neg (Nat.lt_irrefl i), getD_set_self (hsize.trans_le hlen), decide_eq_true rfl]
  by_cases hmore : oldSize + 1 < newSize
  · rw [if_pos hmore, append_assoc, getD_eq_getElem?_getD]
    have htake : ((grown.set oldSize true).take (oldSize + 1)).length = oldSize + 1 := by
      rw [length_take, length_set]
      omega
    rcases Nat.lt_or_ge j (oldSize + 1) with hin | hout
    · rw [getElem?_append_left (by rw [htake]; exact hin), getElem?_take_of_lt hin,
        ← getD_eq_getElem?_getD, hset j (Nat.le_of_lt_succ hin)]
    · rw [getElem?_append_right (by rw [htake]; exact hout), htake,
        getElem?_append_left (by rw [length_replicate]; omega), getElem?_replicate,
        if_pos (by omega), if_neg (by omega), decide_eq_false (by omega)]
      rfl
  · rw [if_neg hmore]
    exact hset j (by omega)

/-! ## Delivered numbers -/

/-- The gap state and, for each slot, the packet numbers delivered since its bucket
was opened. -/
structure TradesRun where
  state : TradesState
  delivered : Nat → List UInt16

namespace TradesRun

variable {last : UInt16} {i : Nat} {b : GapBucket}

def new : TradesRun := ⟨TradesState.new, fun _ => []⟩

def isOpen (s : TradesState) (i : Nat) : Bool :=
  (s.buckets[i]?.map GapBucket.active).getD false

/-- A number has been delivered on the way from the state of `w` to `s'`. A slot
opened on that way starts with this number. -/
def deliver (w : TradesRun) (s' : TradesState) (packetNum : UInt16) : TradesRun where
  state := s'
  delivered i := if !isOpen w.state i && isOpen s' i then [packetNum]
    else packetNum :: w.delivered i

def step {F : Type} (w : TradesRun) : TradesInput F → Option TradesRun
  | .live packetNum baseTime nowMs =>
    some (w.deliver (w.state.onPacketHeader packetNum baseTime nowMs).2 packetNum)
  | .resend packetNum baseTime =>
    some (w.deliver (w.state.onPacketResendHeader packetNum baseTime).2 packetNum)
  | .resendFailed => some w
  | .reset nowMs => some { w with state := w.state.fullResetAt nowMs }
  | .tick t => (w.state.tick t).map fun r => { w with state := r.2 }

/-- Numbers of the range that have not been delivered since the bucket in slot `i`
was opened. -/
def undelivered (w : TradesRun) (i : Nat) (b : GapBucket) : List UInt16 :=
  ((range b.gapSize).map fun j => b.startNum + UInt16.ofNat j).filter fun n =>
    decide (n ∉ w.delivered i)

/-- What a tick should ask for: nothing while it is throttled, otherwise the
undelivered numbers of every open bucket that is due. -/
def wanted {F : Type} (w : TradesRun) (t : TradesTick F) : List UInt16 :=
  if t.nowMs - w.state.lastCheckMissingMs ≤ 100 then []
  else w.state.buckets.zipIdx.flatMap fun bi =>
    if bi.1.active = true ∧ bi.1.retryCount < maxRetryCount ∧ t.overdue bi.1 = true then
      w.undelivered bi.2 bi.1
    else []

/-- Any tick sends requests that list exactly the wanted numbers, each once. -/
def AsksForMissing (F : Type) (w : TradesRun) : Prop :=
  ∀ t : TradesTick F, ∃ payloads s', w.state.tick t = some (payloads, s') ∧
    payloads.flatMap EngineRequest.resendNumbers = w.wanted t ∧ (w.wanted t).Nodup

/-! ## Admitted steps -/

/-- The live packet does not reach a bucket that is still open. -/
def NotOvertaking (s : TradesState) (packetNum : UInt16) : Prop :=
  ∀ b ∈ s.buckets, b.active = true →
    ahead s.lastPacketNum packetNum < ahead s.lastPacketNum b.startNum

/-- No bucket is extended over a number that has been delivered since it was opened. -/
def ExtendsOverMissing (w : TradesRun) (packetNum : UInt16) : Prop :=
  ∀ bi ∈ w.state.buckets.zipIdx,
    bi.1.extendable (w.state.lastPacketNum + 1) (packetNum - 1) = true →
    ∀ n ∈ w.delivered bi.2, ahead w.state.lastPacketNum n = 0 ∨
      ahead w.state.lastPacketNum packetNum ≤ ahead w.state.lastPacketNum n

/-- The slot for a new bucket has a vector that is long enough or holds no bits. -/
def CleanSlot (s : TradesState) (packetNum : UInt16) : Prop :=
  (∀ b ∈ s.buckets, b.extendable (s.lastPacketNum + 1) (packetNum - 1) = false) →
    ∀ b ∈ s.freeSlot.toList,
      ahead s.lastPacketNum packetNum ≤ b.recvd.length + 1 ∨ ∀ bit ∈ b.recvd, bit = false

/-- Conditions on a live packet that moves the last number forward. -/
def Admitted {F : Type} (w : TradesRun) : TradesInput F → Prop
  | .live packetNum _ nowMs =>
    w.state.tradesStarted = true → w.state.pauseDetected nowMs = false →
    ahead w.state.lastPacketNum packetNum ≠ 0 →
    ahead w.state.lastPacketNum packetNum ≤ maxRecvdSize + 1 →
      NotOvertaking w.state packetNum ∧ ExtendsOverMissing w packetNum ∧
        CleanSlot w.state packetNum
  | _ => True

/-! ## Invariant -/

/-- An open bucket and the numbers delivered since it was opened. -/
structure SlotInv (last : UInt16) (b : GapBucket) (delivered : List UInt16) : Prop where
  bits : ∀ n, b.Covers n → (b.recvd.getD (ahead b.startNum n) false = true ↔ n ∈ delivered)
  last_mem : last ∈ delivered
  last_out : ¬ b.Covers last

structure Inv (w : TradesRun) : Prop where
  valid : w.state.Valid
  slot : ∀ (i : Nat) (b : GapBucket), w.state.buckets[i]? = some b → b.active = true →
    SlotInv w.state.lastPacketNum b (w.delivered i)
  disjoint : ∀ (i j : Nat) (b c : GapBucket), w.state.buckets[i]? = some b →
    w.state.buckets[j]? = some c → b.active = true → c.active = true → i ≠ j →
    ∀ n, b.Covers n → ¬ c.Covers n

variable {w : TradesRun} {s' : TradesState} {packetNum : UInt16}

theorem delivered_of_open (w : TradesRun) (h : isOpen w.state i = true) :
    (w.deliver s' packetNum).delivered i = packetNum :: w.delivered i := by
  show (if !isOpen w.state i && isOpen s' i then _ else _) = _
  rw [h]
  rfl

theorem isOpen_of_getElem? {s : TradesState} (hb : s.buckets[i]? = some b) :
    isOpen s i = b.active := by
  rw [isOpen, hb]
  rfl

theorem resetGapBuckets_closed (s : TradesState) (nowMs : Int) :
    ∀ b ∈ (s.resetGapBuckets nowMs).buckets, b.active = false := by
  intro b hb
  obtain ⟨a, -, rfl⟩ := List.mem_map.mp hb
  rfl

theorem Inv.of_closed (hvalid : s'.Valid) (hclosed : ∀ b ∈ s'.buckets, b.active = false)
    (delivered : Nat → List UInt16) : Inv ⟨s', delivered⟩ where
  valid := hvalid
  slot := by
    intro i b hb hactive
    rw [hclosed b (mem_of_getElem? hb)] at hactive
    exact absurd hactive Bool.false_ne_true
  disjoint := by
    intro i j b c hb hc hactive
    rw [hclosed b (mem_of_getElem? hb)] at hactive
    exact absurd hactive Bool.false_ne_true

theorem SlotInv.deliver {last last' : UInt16} {delivered : List UInt16}
    (h : SlotInv last b delivered) (hout : ¬ b.Covers packetNum)
    (hlast : last' = last ∨ last' = packetNum) : SlotInv last' b (packetNum :: delivered) where
  bits := by
    intro n hn
    rw [h.bits n hn, mem_cons]
    refine ⟨.inr, fun hmem => hmem.resolve_left ?_⟩
    rintro rfl
    exact hout hn
  last_mem := by
    rcases hlast with rfl | rfl
    · exact mem_cons_of_mem _ h.last_mem
    · exact mem_cons_self
  last_out := by
    rcases hlast with rfl | rfl
    · exact h.last_out
    · exact hout

theorem SlotInv.mark {delivered : List UInt16}
    (h : SlotInv last b delivered) (hsized : b.Sized) (hcovers : b.Covers packetNum) :
    SlotInv last (b.markRecvd packetNum) (packetNum :: delivered) where
  bits := by
    intro n hn
    show (b.recvd.set (ahead b.startNum packetNum) true).getD (ahead b.startNum n) false = true ↔ _
    by_cases heq : n = packetNum
    · subst heq
      have hidx : ahead b.startNum n < b.recvd.length :=
        (Nat.lt_succ_of_le hcovers).trans_le hsized.recvd_le
      rw [getD_set_self hidx]
      exact ⟨fun _ => mem_cons_self, fun _ => rfl⟩
    · have hne : ahead b.startNum packetNum ≠ ahead b.startNum n := fun hsame =>
        heq (ahead_inj.mp hsame).symm
      rw [getD_set_of_ne hne, mem_cons]
      refine (h.bits n hn).trans ⟨.inr, fun hmem => hmem.resolve_left heq⟩
  last_mem := mem_cons_of_mem _ h.last_mem
  last_out := h.last_out

/-! ## Steps -/

/-- The slots stay as they are and the number belongs to none of them. -/
theorem Inv.deliver_outside (h : w.Inv) (hvalid : s'.Valid)
    (hbuckets : s'.buckets = w.state.buckets) (hout : w.state.Outside packetNum)
    (hlast : s'.lastPacketNum = w.state.lastPacketNum ∨ s'.lastPacketNum = packetNum) :
    (w.deliver s' packetNum).Inv where
  valid := hvalid
  slot := by
    intro i b hb hactive
    have hb' : w.state.buckets[i]? = some b := hbuckets ▸ hb
    rw [w.delivered_of_open ((isOpen_of_getElem? hb').trans hactive)]
    exact (h.slot i b hb' hactive).deliver (hout b (mem_of_getElem? hb') hactive) hlast
  disjoint := by
    intro i j b c hb hc
    exact h.disjoint i j b c (hbuckets ▸ hb) (hbuckets ▸ hc)

/-- The number sets its bit in the one bucket that contains it. -/
theorem Inv.deliver_mark (h : w.Inv) (hvalid : s'.Valid)
    (hb : w.state.buckets[i]? = some b) (hactive : b.active = true)
    (hcovers : b.Covers packetNum)
    (hbuckets : s'.buckets = w.state.buckets.modify i fun b => b.markRecvd packetNum)
    (hlast : s'.lastPacketNum = w.state.lastPacketNum) :
    (w.deliver s' packetNum).Inv := by
  -- every slot of the new state comes from one with the same range
  have hslot : ∀ (j : Nat) (c : GapBucket), s'.buckets[j]? = some c → c.active = true →
      ∃ c₀, w.state.buckets[j]? = some c₀ ∧ c₀.active = true ∧
        (∀ n, c.Covers n ↔ c₀.Covers n) ∧
        (j = i ∧ c₀ = b ∧ c = b.markRecvd packetNum ∨ j ≠ i ∧ c = c₀) := by
    intro j c hc hopen
    rw [hbuckets] at hc
    by_cases hij : i = j
    · subst hij
      rw [Slots.getElem?_modify_self hb] at hc
      obtain rfl := Option.some.inj hc
      exact ⟨b, hb, hactive, fun _ => Iff.rfl, .inl ⟨rfl, rfl, rfl⟩⟩
    · rw [Slots.getElem?_modify_of_ne hij] at hc
      exact ⟨c, hc, hopen, fun _ => Iff.rfl, .inr ⟨fun heq => hij heq.symm, rfl⟩⟩
  refine ⟨hvalid, fun j c hc hopen => ?_, fun j k c d hc hd hopen hopen' hjk n hn hn' => ?_⟩
  · obtain ⟨c₀, hc₀, hopen₀, -, hcase⟩ := hslot j c hc hopen
    rw [w.delivered_of_open ((isOpen_of_getElem? hc₀).trans hopen₀)]
    show SlotInv s'.lastPacketNum c _
    rw [hlast]
    rcases hcase with ⟨rfl, rfl, rfl⟩ | ⟨hne, rfl⟩
    · exact (h.slot j c₀ hc₀ hopen₀).mark
        (h.valid.sized c₀ (mem_of_getElem? hc₀) hopen₀) hcovers
    · refine (h.slot j c hc₀ hopen₀).deliver (fun hcov => ?_) (.inl rfl)
      exact h.disjoint i j b c hb hc₀ hactive hopen₀ (Ne.symm hne) packetNum hcovers hcov
  · obtain ⟨c₀, hc₀, hopen₀, hrange, -⟩ := hslot j c hc hopen
    obtain ⟨d₀, hd₀, hopen₀', hrange', -⟩ := hslot k d hd hopen'
    exact h.disjoint j k c₀ d₀ hc₀ hd₀ hopen₀ hopen₀' hjk n ((hrange n).mp hn) ((hrange' n).mp hn')

/-- One slot is replaced by an open bucket whose range is disjoint from the others,
and the number becomes the last one. -/
theorem Inv.deliver_replace (h : w.Inv) (hvalid : s'.Valid) {b' : GapBucket}
    (hout : w.state.Outside packetNum)
    (hself : s'.buckets[i]? = some b')
    (hother : ∀ j, j ≠ i → s'.buckets[j]? = w.state.buckets[j]?)
    (hlast : s'.lastPacketNum = packetNum)
    (hnew : SlotInv packetNum b' ((w.deliver s' packetNum).delivered i))
    (hapart : ∀ (j : Nat) (c : GapBucket), j ≠ i → w.state.buckets[j]? = some c →
      c.active = true → ∀ n, b'.Covers n → ¬ c.Covers n) :
    (w.deliver s' packetNum).Inv := by
  refine ⟨hvalid, fun j c hc hopen => ?_, fun j k c d hc hd hopen hopen' hjk n hn hn' => ?_⟩
  · show SlotInv s'.lastPacketNum c _
    rw [hlast]
    by_cases hij : j = i
    · subst hij
      obtain rfl := Option.some.inj (hself.symm.trans hc)
      exact hnew
    · have hc₀ : w.state.buckets[j]? = some c := (hother j hij).symm.trans hc
      rw [w.delivered_of_open ((isOpen_of_getElem? hc₀).trans hopen)]
      exact (h.slot j c hc₀ hopen).deliver (hout c (mem_of_getElem? hc₀) hopen) (.inr rfl)
  · by_cases hj : j = i
    · subst hj
      obtain rfl := Option.some.inj (hself.symm.trans hc)
      exact hapart k d (Ne.symm hjk) ((hother k (Ne.symm hjk)).symm.trans hd) hopen' n hn hn'
    by_cases hk : k = i
    · subst hk
      obtain rfl := Option.some.inj (hself.symm.trans hd)
      exact hapart j c hj ((hother j hj).symm.trans hc) hopen n hn' hn
    · exact h.disjoint j k c d ((hother j hj).symm.trans hc) ((hother k hk).symm.trans hd) hopen
        hopen' hjk n hn hn'

/-- Opening a bucket for the numbers between the last packet and this one. -/
theorem slotInv_create {nowMs : Int} (hne : packetNum ≠ last + 1)
    (hclean : ahead (last + 1) (packetNum - 1) + 1 ≤ b.recvd.length ∨
      ∀ bit ∈ b.recvd, bit = false) :
    SlotInv packetNum
      { b.reuse (last + 1) (packetNum - 1) nowMs (ahead (last + 1) (packetNum - 1) + 1) with
        active := true } [packetNum] := by
  have hpred := ahead_pred hne
  have hbeyond : ∀ n, ahead (last + 1) n ≤ ahead (last + 1) (packetNum - 1) → n ≠ packetNum := by
    rintro n hn rfl
    omega
  refine ⟨fun n hn => ?_, mem_singleton_self _, fun hcovers => hbeyond packetNum hcovers rfl⟩
  have hn' : ahead (last + 1) n ≤ ahead (last + 1) (packetNum - 1) := hn
  show (resetRecvd b.recvd _).getD (ahead (last + 1) n) false = true ↔ _
  rw [getD_resetRecvd hclean (Nat.lt_succ_of_le hn'), mem_singleton]
  exact ⟨Bool.false_ne_true.elim, fun heq => absurd heq (hbeyond n hn')⟩

/-- Where the last packet and the new packet lie, seen from the start of a bucket
that ends right before the last packet. -/
theorem extend_distances (hsized : b.Sized)
    (hend : b.endNum = last - 1) (hout : ¬ b.Covers packetNum) (hne : packetNum ≠ last) :
    packetNum ≠ b.startNum ∧ ahead b.startNum last = ahead b.startNum b.endNum + 1 ∧
      ahead b.startNum (packetNum - 1) + 1 = ahead b.startNum packetNum ∧
      ahead b.startNum last < ahead b.startNum packetNum := by
  have hgap : ahead b.startNum b.endNum + 1 ≤ 3000 := hsized.gapSize_le
  have hlastNe : last ≠ b.startNum := by
    rintro rfl
    have hround := ahead_pred_self b.startNum
    rw [← hend] at hround
    omega
  have hlast : ahead b.startNum b.endNum + 1 = ahead b.startNum last := by
    rw [hend, ahead_pred hlastNe]
  have hbeyond : ahead b.startNum b.endNum < ahead b.startNum packetNum := Nat.lt_of_not_le hout
  have hstart : packetNum ≠ b.startNum := by
    rintro rfl
    rw [ahead_self] at hbeyond
    omega
  have hdiffer : ahead b.startNum packetNum ≠ ahead b.startNum last := fun heq =>
    hne (ahead_inj.mp heq)
  exact ⟨hstart, hlast.symm, ahead_pred hstart, by omega⟩

/-- Extending a bucket over the last packet and the numbers up to this one. -/
theorem SlotInv.extend {delivered : List UInt16}
    (h : SlotInv last b delivered) (hsized : b.Sized) (hend : b.endNum = last - 1)
    (hout : ¬ b.Covers packetNum) (hne : packetNum ≠ last)
    (hmissing : ∀ n ∈ delivered, ahead last n = 0 ∨ ahead last packetNum ≤ ahead last n) :
    SlotInv packetNum (b.extend (packetNum - 1)) (packetNum :: delivered) := by
  obtain ⟨hstart, hlast, hpred, hlt⟩ := extend_distances hsized hend hout hne
  refine ⟨fun n hn => ?_, mem_cons_self, not_covers_extend hstart⟩
  have hn' : ahead b.startNum n ≤ ahead b.startNum (packetNum - 1) := hn
  have hneq : n ≠ packetNum := by
    rintro rfl
    omega
  show (extendRecvd b.recvd (ahead b.startNum b.endNum + 1)
    (ahead b.startNum (packetNum - 1) + 1)).getD (ahead b.startNum n) false = true ↔ _
  have hrecvd : ahead b.startNum b.endNum + 1 ≤ b.recvd.length := hsized.recvd_le
  rw [getD_extendRecvd hrecvd (by omega) (by omega), mem_cons]
  rcases Nat.lt_trichotomy (ahead b.startNum n) (ahead b.startNum b.endNum + 1) with
    hold | hsame | hnew
  · -- a number of the old range
    rw [if_pos hold, h.bits n (Nat.le_of_lt_succ hold)]
    exact ⟨.inr, fun hmem => hmem.resolve_left hneq⟩
  · -- the last packet
    have heq : n = last := ahead_inj.mp (hsame.trans hlast.symm)
    rw [if_neg (by omega), decide_eq_true hsame, heq]
    exact ⟨fun _ => .inr h.last_mem, fun _ => rfl⟩
  · -- a number of the new gap
    rw [if_neg (by omega), decide_eq_false (by omega)]
    refine ⟨Bool.false_ne_true.elim, fun hmem => ?_⟩
    have hn₁ := ahead_of_le (show ahead b.startNum last ≤ ahead b.startNum n by omega)
    have hp₁ := ahead_of_le (show ahead b.startNum last ≤ ahead b.startNum packetNum by omega)
    rcases hmissing n (hmem.resolve_left hneq) with hzero | hfar
    · omega
    · omega

/-- A jump that is not too far moves the last number forward by the size of the gap
and one. -/
theorem ahead_of_jump (hne : packetNum ≠ last) (hsize : ahead (last + 1) packetNum ≤ maxRecvdSize) :
    ahead last packetNum ≠ 0 ∧ ahead last packetNum ≤ maxRecvdSize + 1 := by
  have hsucc := ahead_succ hne
  constructor <;> omega

section Live

variable {nowMs : Int}

theorem Inv.next (h : w.Inv) (hvalid : s'.Valid) (hbuckets : s'.buckets = w.state.buckets)
    (hlast : s'.lastPacketNum = packetNum) (hahead : NotOvertaking w.state packetNum) :
    (w.deliver s' packetNum).Inv := by
  refine h.deliver_outside hvalid hbuckets (fun b hb hactive => ?_) (.inr hlast)
  obtain ⟨i, hi⟩ := mem_iff_getElem?.mp hb
  exact GapBucket.not_covers_of_overtake (h.slot i b hi hactive).last_out (hahead b hb hactive)
    (Nat.le_refl _)

theorem Inv.extend (h : w.Inv) (hvalid : s'.Valid) (hne : packetNum ≠ w.state.lastPacketNum)
    (hout : w.state.Outside packetNum) {i : Nat} {b : GapBucket}
    (hb : w.state.buckets[i]? = some b)
    (hext : b.extendable (w.state.lastPacketNum + 1) (packetNum - 1) = true)
    (hbuckets : s'.buckets = w.state.buckets.modify i fun b => b.extend (packetNum - 1))
    (hlast : s'.lastPacketNum = packetNum) (hahead : NotOvertaking w.state packetNum)
    (hmissing : ExtendsOverMissing w packetNum) : (w.deliver s' packetNum).Inv := by
  obtain ⟨hactive, -, hend, -⟩ := (b.extendable_iff _ _).mp hext
  rw [succ_sub_two] at hend
  have hmem := mem_of_getElem? hb
  have hself : s'.buckets[i]? = some (b.extend (packetNum - 1)) := by
    rw [hbuckets, Slots.getElem?_modify_self hb]
  have hslot := h.slot i b hb hactive
  have hnew := hslot.extend (h.valid.sized b hmem hactive) hend (hout b hmem hactive) hne
    (hmissing (b, i) (mem_zipIdx_iff_getElem?.mpr hb) hext)
  refine h.deliver_replace hvalid hout hself (fun j hj => ?_) hlast ?_ ?_
  · rw [hbuckets, Slots.getElem?_modify_of_ne (Ne.symm hj)]
  · rw [w.delivered_of_open ((isOpen_of_getElem? hb).trans hactive)]
    exact hnew
  · intro j c hj hc hopen n hn
    by_cases hold : b.Covers n
    · exact h.disjoint i j b c hb hc hactive hopen (Ne.symm hj) n hold
    · -- a new number lies between the last packet and this one
      refine GapBucket.not_covers_of_overtake (h.slot j c hc hopen).last_out
        (hahead c (mem_of_getElem? hc) hopen) ?_
      obtain ⟨-, hlast', hpred, hlt⟩ :=
        extend_distances (h.valid.sized b hmem hactive) hend (hout b hmem hactive) hne
      have hn' : ahead b.startNum n ≤ ahead b.startNum (packetNum - 1) := hn
      have hbeyond : ahead b.startNum b.endNum < ahead b.startNum n := Nat.lt_of_not_le hold
      rw [ahead_of_le (show ahead b.startNum w.state.lastPacketNum ≤ ahead b.startNum n by omega),
        ahead_of_le (Nat.le_of_lt hlt)]
      omega

theorem Inv.create (h : w.Inv) (hvalid : s'.Valid) (hne : packetNum ≠ w.state.lastPacketNum)
    (hnext : packetNum ≠ w.state.lastPacketNum + 1) (hout : w.state.Outside packetNum)
    (hroom : w.state.usedBuckets < maxGapBuckets)
    (hsize : ahead (w.state.lastPacketNum + 1) packetNum ≤ maxRecvdSize)
    (hbuckets : s'.buckets = (w.state.createBucket (w.state.lastPacketNum + 1) (packetNum - 1)
      nowMs).buckets)
    (hlast : s'.lastPacketNum = packetNum) (hahead : NotOvertaking w.state packetNum)
    (hclean : ∀ b, w.state.freeSlot = some b →
      ahead w.state.lastPacketNum packetNum ≤ b.recvd.length + 1 ∨
        ∀ bit ∈ b.recvd, bit = false) : (w.deliver s' packetNum).Inv := by
  have hpred := ahead_pred hnext
  have hsucc := ahead_succ hne
  obtain ⟨i, b, hb, hfree, hinactive, hcreate, -⟩ := createBucket_eq h.valid hroom
    (hpred.trans_le hsize) nowMs
  rw [hcreate] at hbuckets
  have hself : s'.buckets[i]? = some { b.reuse (w.state.lastPacketNum + 1) (packetNum - 1) nowMs
      (ahead (w.state.lastPacketNum + 1) (packetNum - 1) + 1) with active := true } := by
    rw [hbuckets, Slots.getElem?_modify_self hb]
  refine h.deliver_replace hvalid hout hself (fun j hj => ?_) hlast ?_ ?_
  · rw [hbuckets, Slots.getElem?_modify_of_ne (Ne.symm hj)]
  · have hopened : (w.deliver s' packetNum).delivered i = [packetNum] := by
      show (if !isOpen w.state i && isOpen s' i then _ else _) = _
      rw [isOpen_of_getElem? hb, isOpen_of_getElem? hself, hinactive]
      rfl
    rw [hopened]
    refine slotInv_create hnext ((hclean b hfree).imp (fun hlen => ?_) id)
    omega
  · intro j c hj hc hopen n hn
    refine GapBucket.not_covers_of_overtake (h.slot j c hc hopen).last_out
      (hahead c (mem_of_getElem? hc) hopen) ?_
    have hn' : ahead (w.state.lastPacketNum + 1) n ≤
      ahead (w.state.lastPacketNum + 1) (packetNum - 1) := hn
    rcases eq_or_ne n w.state.lastPacketNum with heq | hneq
    · rw [heq, ahead_self]
      exact Nat.zero_le _
    · have hsucc' := ahead_succ hneq
      omega

/-- **A live header** that is admitted keeps the bits right. -/
theorem Inv.live (h : w.Inv) {effects : TradesPacketEffects}
    (hlive : TradesState.Live w.state packetNum nowMs effects s')
    (hadm : w.state.Tracking nowMs → ahead w.state.lastPacketNum packetNum ≠ 0 →
      ahead w.state.lastPacketNum packetNum ≤ maxRecvdSize + 1 →
        NotOvertaking w.state packetNum ∧ ExtendsOverMissing w packetNum ∧
          CleanSlot w.state packetNum) :
    (w.deliver s' packetNum).Inv := by
  have hvalid := hlive.valid h.valid
  cases hlive with
  | restart => exact Inv.of_closed hvalid (resetGapBuckets_closed w.state nowMs) _
  | duplicate htrack hnum =>
    refine h.deliver_outside hvalid rfl (fun b hb hactive => ?_) (.inl rfl)
    obtain ⟨i, hi⟩ := mem_iff_getElem?.mp hb
    rw [hnum]
    exact (h.slot i b hi hactive).last_out
  | next htrack hnum =>
    have hone : ahead w.state.lastPacketNum packetNum = 1 := by
      rw [hnum]
      exact ahead_add w.state.lastPacketNum (by decide)
    exact h.next hvalid rfl rfl
      (hadm htrack (by rw [hone]; decide) (by rw [hone]; decide)).1
  | fill hjump hb hactive hcovers => exact h.deliver_mark hvalid hb hactive hcovers rfl rfl
  | @extend hjump hout i b hb hext =>
    obtain ⟨htrack, hne, hnext⟩ := hjump
    obtain ⟨hactive, -, hend, hsize⟩ := (b.extendable_iff _ _).mp hext
    have hmem := mem_of_getElem? hb
    obtain ⟨-, hlast, hpred, hlt⟩ := extend_distances (h.valid.sized b hmem hactive)
      (hend.trans (succ_sub_two _)) (hout b hmem hactive) hne
    have hdist := ahead_of_le (Nat.le_of_lt hlt)
    obtain ⟨hahead, hmissing, -⟩ := hadm htrack (by omega) (by omega)
    exact h.extend hvalid hne hout hb hext rfl rfl hahead hmissing
  | overflow => exact Inv.of_closed hvalid (resetGapBuckets_closed w.state nowMs) _
  | create hjump hout hnone hsize hroom =>
    obtain ⟨htrack, hne, hnext⟩ := hjump
    obtain ⟨hzero, hfar⟩ := ahead_of_jump hne hsize
    obtain ⟨hahead, -, hclean⟩ := hadm htrack hzero hfar
    refine h.create hvalid hne hnext hout hroom hsize rfl rfl hahead fun b hfree => ?_
    exact hclean hnone b (by rw [hfree]; exact mem_singleton_self b)

end Live

/-- **A resent header** needs no condition. -/
theorem Inv.resend (h : w.Inv) (packetNum : UInt16) (baseTime : UInt64) :
    (w.deliver (w.state.onPacketResendHeader packetNum baseTime).2 packetNum).Inv := by
  have hvalid := onPacketResendHeader_valid h.valid packetNum baseTime
  obtain ⟨seen, ⟨hout, heq⟩ | ⟨i, b, hb, hactive, hcovers, heq⟩⟩ :=
    onPacketResendHeader_cases h.valid packetNum baseTime
  · rw [heq] at hvalid ⊢
    exact h.deliver_outside hvalid rfl hout (.inl rfl)
  · rw [heq] at hvalid ⊢
    exact h.deliver_mark hvalid hb hactive hcovers rfl rfl

/-- **A tick** closes buckets and leaves the others alone. -/
theorem Inv.tick (h : w.Inv) (hvalid : s'.Valid)
    (hkept : Forall₂ TradesState.Kept w.state.buckets s'.buckets)
    (hlast : s'.lastPacketNum = w.state.lastPacketNum) :
    ({ w with state := s' } : TradesRun).Inv := by
  -- an open slot was open before, with the same range and bits
  have hslot : ∀ (i : Nat) (b : GapBucket), s'.buckets[i]? = some b → b.active = true →
      ∃ b₀, w.state.buckets[i]? = some b₀ ∧ b₀.active = true ∧ b.startNum = b₀.startNum ∧
        b.endNum = b₀.endNum ∧ b.recvd = b₀.recvd := by
    intro i b hb hactive
    obtain ⟨hi, rfl⟩ := List.getElem?_eq_some_iff.mp hb
    have hi₀ : i < w.state.buckets.length := hkept.length_eq ▸ hi
    have hboth := (List.forall₂_iff_get.mp hkept).2 i hi₀ hi hactive
    exact ⟨_, getElem?_eq_getElem hi₀, hboth⟩
  have hcovers : ∀ {b b₀ : GapBucket}, b.startNum = b₀.startNum → b.endNum = b₀.endNum →
      ∀ n, b.Covers n ↔ b₀.Covers n := by
    intro b b₀ hstart hend n
    rw [GapBucket.Covers, hstart, hend, GapBucket.Covers]
  refine ⟨hvalid, fun i b hb hactive => ?_, fun i j b c hb hc hactive hactive' hij n hn hn' => ?_⟩
  · obtain ⟨b₀, hb₀, hactive₀, hstart, hend, hrecvd⟩ := hslot i b hb hactive
    have hinv := h.slot i b₀ hb₀ hactive₀
    show SlotInv s'.lastPacketNum b (w.delivered i)
    rw [hlast]
    refine ⟨fun n hn => ?_, hinv.last_mem, fun hcov => hinv.last_out ?_⟩
    · rw [hrecvd, hstart]
      exact hinv.bits n ((hcovers hstart hend n).mp hn)
    · exact (hcovers hstart hend _).mp hcov
  · obtain ⟨b₀, hb₀, hactive₀, hstart, hend, -⟩ := hslot i b hb hactive
    obtain ⟨c₀, hc₀, hactive₀', hstart', hend', -⟩ := hslot j c hc hactive'
    exact h.disjoint i j b₀ c₀ hb₀ hc₀ hactive₀ hactive₀' hij n ((hcovers hstart hend n).mp hn)
      ((hcovers hstart' hend' n).mp hn')

theorem Inv.step {F : Type} (h : w.Inv) (input : TradesInput F) (hadm : w.Admitted input) :
    ∃ w', w.step input = some w' ∧ w'.Inv := by
  cases input with
  | live packetNum baseTime nowMs =>
    refine ⟨_, rfl, ?_⟩
    have hlive := onPacketHeader_live h.valid packetNum baseTime nowMs
    -- remembering the payload changes no field that the invariant reads
    set w₁ : TradesRun := ⟨(w.state.rememberPacket packetNum baseTime).2, w.delivered⟩ with hw₁
    have h₁ : w₁.Inv := ⟨h.valid.congr rfl rfl, h.slot, h.disjoint⟩
    exact h₁.live hlive fun htrack => hadm htrack.1 htrack.2
  | resend packetNum baseTime => exact ⟨_, rfl, h.resend packetNum baseTime⟩
  | resendFailed => exact ⟨w, rfl, h⟩
  | reset nowMs =>
    have hvalid : (w.state.fullResetAt nowMs).Valid :=
      (resetGapBuckets_valid h.valid nowMs).congr rfl rfl
    exact ⟨_, rfl, Inv.of_closed hvalid (resetGapBuckets_closed w.state nowMs) _⟩
  | tick t =>
    obtain ⟨payloads, s', htick, hvalid, hkept, hlast, -⟩ := tick_spec h.valid t
    exact ⟨{ w with state := s' }, by rw [TradesRun.step, htick]; rfl,
      h.tick hvalid hkept hlast⟩

theorem new_inv : new.Inv := by
  refine Inv.of_closed TradesState.new_valid (fun b hb => ?_) _
  rw [eq_of_mem_replicate hb]
  rfl

/-! ## Requests -/

/-- The unset bits of an open bucket are its undelivered numbers. -/
theorem Inv.missingNums_eq (h : w.Inv) {i : Nat} {b : GapBucket}
    (hb : w.state.buckets[i]? = some b) (hactive : b.active = true) :
    b.missingNums = w.undelivered i b := by
  have hslot := h.slot i b hb hactive
  rw [undelivered, List.filter_map, GapBucket.missingNums]
  congr 1
  refine filter_congr fun j hj => ?_
  have hlt : j < ahead b.startNum b.endNum + 1 := mem_range.mp hj
  have hbound := ahead_lt b.startNum b.endNum
  have hidx : ahead b.startNum (b.startNum + UInt16.ofNat j) = j := ahead_add _ (by omega)
  have hbit := hslot.bits (b.startNum + UInt16.ofNat j)
    (by rw [GapBucket.Covers, hidx]; exact Nat.le_of_lt_succ hlt)
  rw [hidx] at hbit
  rw [Function.comp_apply]
  by_cases hmem : b.startNum + UInt16.ofNat j ∈ w.delivered i
  · rw [hbit.mpr hmem, decide_eq_false (not_not_intro hmem)]
    rfl
  · rw [Bool.eq_false_iff.mpr fun hset => hmem (hbit.mp hset), decide_eq_true hmem]
    rfl

theorem mem_undelivered {i : Nat} {b : GapBucket} {n : UInt16} (hn : n ∈ w.undelivered i b) :
    b.Covers n := by
  obtain ⟨j, hj, rfl⟩ := List.mem_map.mp (mem_filter.mp hn).1
  have hlt : j < ahead b.startNum b.endNum + 1 := mem_range.mp hj
  have hbound := ahead_lt b.startNum b.endNum
  rw [GapBucket.Covers, ahead_add _ (by omega)]
  exact Nat.le_of_lt_succ hlt

theorem nodup_undelivered (w : TradesRun) (i : Nat) (b : GapBucket) :
    (w.undelivered i b).Nodup := by
  refine Nodup.filter _ (Nodup.map_on ?_ nodup_range)
  intro j hj k hk heq
  have hbound := ahead_lt b.startNum b.endNum
  have hj' : j < ahead b.startNum b.endNum + 1 := mem_range.mp hj
  have hk' : k < ahead b.startNum b.endNum + 1 := mem_range.mp hk
  have hdist : ahead b.startNum (b.startNum + UInt16.ofNat j) =
      ahead b.startNum (b.startNum + UInt16.ofNat k) := by rw [heq]
  rwa [ahead_add _ (by omega), ahead_add _ (by omega)] at hdist

theorem Inv.requested_eq {F : Type} (h : w.Inv) (t : TradesTick F) :
    w.state.requested t = w.wanted t := by
  unfold requested wanted
  split
  · rfl
  rw [Slots.flatMap_filter_eq]
  refine flatMap_congr fun bi hbi => ?_
  have hb := mem_zipIdx_iff_getElem?.mp hbi
  by_cases hactive : bi.1.active = true
  · rw [if_pos hactive, due, h.missingNums_eq hb hactive]
    by_cases hdue : bi.1.retryCount < maxRetryCount ∧ t.overdue bi.1 = true
    · rw [if_pos hdue, if_pos ⟨hactive, hdue⟩]
    · rw [if_neg hdue, if_neg fun hall => hdue hall.2]
  · rw [if_neg hactive, if_neg fun hall => hactive hall.1]

theorem Inv.nodup_wanted {F : Type} (h : w.Inv) (t : TradesTick F) : (w.wanted t).Nodup := by
  unfold wanted
  split
  · exact nodup_nil
  rw [nodup_flatMap]
  constructor
  · intro bi _
    split
    · exact nodup_undelivered w bi.2 bi.1
    · exact nodup_nil
  · rw [pairwise_iff_getElem]
    intro i j hi hj hij n hn hn'
    rw [getElem_zipIdx, Nat.zero_add] at hn hn'
    rw [length_zipIdx] at hi hj
    simp only at hn hn'
    split at hn
    · split at hn'
      · rename_i hopen hopen'
        exact h.disjoint i j _ _ (getElem?_eq_getElem hi) (getElem?_eq_getElem hj)
          hopen.1 hopen'.1 (Nat.ne_of_lt hij) n (mem_undelivered hn) (mem_undelivered hn')
      · exact absurd hn' not_mem_nil
    · exact absurd hn not_mem_nil

theorem Inv.asksForMissing (F : Type) (h : w.Inv) : w.AsksForMissing F := by
  intro t
  obtain ⟨payloads, s', htick, -, -, -, -, hnums⟩ := tick_spec h.valid t
  exact ⟨payloads, s', htick, hnums.trans (h.requested_eq t), h.nodup_wanted t⟩

/-- **Recovery asks exactly for what is missing.** In every run whose live packets
do not overtake an open bucket, do not extend one over a delivered number and open
buckets in clean slots only, any tick requests, for every bucket that is due,
exactly the numbers of its range that have not been delivered since it was opened,
and the batches list each of them once. -/
theorem asks_exactly_for_missing {F : Type} {inputs : List (TradesInput F)}
    (hadm : Run.Along step Admitted new inputs) :
    ∃ w, Run.run step new inputs = some w ∧ w.AsksForMissing F := by
  obtain ⟨w, hrun, hinv⟩ := Run.run_total (I := Inv) (fun _ input hw hP => hw.step input hP)
    new_inv hadm
  exact ⟨w, hrun, hinv.asksForMissing F⟩

instance decidableAdmitted {F : Type} (w : TradesRun) :
    ∀ input : TradesInput F, Decidable (w.Admitted input)
  | .live packetNum _ nowMs =>
    -- the numbers and bits are looked up in their lists, not in the whole type
    have : ∀ i, Decidable (∀ n ∈ w.delivered i, ahead w.state.lastPacketNum n = 0 ∨
        ahead w.state.lastPacketNum packetNum ≤ ahead w.state.lastPacketNum n) :=
      fun _ => List.decidableBAll _ _
    have : ∀ b : GapBucket, Decidable (∀ bit ∈ b.recvd, bit = false) :=
      fun _ => List.decidableBAll _ _
    inferInstanceAs (Decidable (
      w.state.tradesStarted = true → w.state.pauseDetected nowMs = false →
      ahead w.state.lastPacketNum packetNum ≠ 0 →
      ahead w.state.lastPacketNum packetNum ≤ maxRecvdSize + 1 →
      (∀ b ∈ w.state.buckets, b.active = true →
        ahead w.state.lastPacketNum packetNum < ahead w.state.lastPacketNum b.startNum) ∧
      (∀ bi ∈ w.state.buckets.zipIdx,
        bi.1.extendable (w.state.lastPacketNum + 1) (packetNum - 1) = true →
        ∀ n ∈ w.delivered bi.2, ahead w.state.lastPacketNum n = 0 ∨
          ahead w.state.lastPacketNum packetNum ≤ ahead w.state.lastPacketNum n) ∧
      ((∀ b ∈ w.state.buckets, b.extendable (w.state.lastPacketNum + 1) (packetNum - 1) = false) →
        ∀ b ∈ w.state.freeSlot.toList,
          ahead w.state.lastPacketNum packetNum ≤ b.recvd.length + 1 ∨
            ∀ bit ∈ b.recvd, bit = false)))
  | .resend _ _ => isTrue trivial
  | .resendFailed => isTrue trivial
  | .reset _ => isTrue trivial
  | .tick _ => isTrue trivial

/-- A tick at `nowMs` with exact arithmetic, 100 ms round trip and 85% delivery. -/
def tickAt (nowMs : Int) : TradesTick ℚ where
  ops := FloatOps.rat
  rttMs := 100
  deliveryRatio := 17 / 20
  nowMs := nowMs
  uids := fun _ => 0

/-- Numbers wrap: 65534 to 1 are missing, 65535 is resent, the bucket is extended to
3, and 1 arrives late. -/
theorem asks_exactly_for_missing_wrap :
    ∃ w, Run.run step new [.live 65533 0 1000, .live 2 0 1010, .resend 65535 0,
        .tick (tickAt 1200), .live 4 0 1210, .live 1 0 1220] = some w ∧
      w.AsksForMissing ℚ :=
  asks_exactly_for_missing (by decide +kernel)

/-- Slot 0 recovered 1001 and 1002 and is then reused for the 101 numbers 1004 to
1104. Its vector is one bit too short, is grown and keeps the two old bits, so 1004
and 1005 are never asked for. -/
theorem reused_slot_hides_missing :
    ∃ w, Run.run step new [.live 1000 0 1000, .live 1003 0 1010, .resend 1001 0, .resend 1002 0,
        .tick (tickAt 1200), .live 1105 0 1210] = some w ∧
      (∃ payloads s', w.state.tick (tickAt 2000) = some (payloads, s') ∧
        payloads.flatMap EngineRequest.resendNumbers =
          (range 99).map fun j => 1006 + UInt16.ofNat j) ∧
      w.wanted (tickAt 2000) = ((range 101).map fun j => 1004 + UInt16.ofNat j) ∧
      ¬ w.AsksForMissing ℚ := by
  have hrun : ((Run.run step new [.live 1000 0 1000, .live 1003 0 1010, .resend 1001 0,
      .resend 1002 0, .tick (tickAt 1200), .live 1105 0 1210]).map fun w =>
        ((w.state.tick (tickAt 2000)).map fun r => r.1.flatMap EngineRequest.resendNumbers,
          w.wanted (tickAt 2000))) =
      some (some ((range 99).map fun j => 1006 + UInt16.ofNat j),
        (range 101).map fun j => 1004 + UInt16.ofNat j) := by
    decide +kernel
  obtain ⟨w, hw, hresult⟩ := map_eq_some_iff.mp hrun
  obtain ⟨hsent, hwanted⟩ := Prod.mk.inj hresult
  obtain ⟨⟨payloads, s'⟩, htick, hnums⟩ := map_eq_some_iff.mp hsent
  refine ⟨w, hw, ⟨payloads, s', htick, hnums⟩, hwanted, fun hasks => ?_⟩
  obtain ⟨payloads', s'', htick', hnums', -⟩ := hasks (tickAt 2000)
  obtain ⟨rfl, -⟩ := Prod.mk.inj (Option.some.inj (htick.symm.trans htick'))
  have hsame := congrArg List.length (hnums.symm.trans (hnums'.trans hwanted))
  simp at hsame

end TradesRun

end MoonProto
