import MoonProto.State.SeqRingRefinement

/-!
# Reads by time range

The rows of a history ring carry a time in milliseconds. They stand in the order of their
arrival, and a late resend may be older than the rows before it, so a read by time is a scan:
one pass finds the first row that is new enough and the oldest time of all, a second one walks
on from there and filters. Both walk the array slot by slot and jump at its end. The result is
the filter of the retained rows, cut to the limit.
-/

namespace MoonProto

open List

variable {T : Type*}

/-- A row with a domain time coordinate (`SeqRingTimedRow`). -/
class SeqRingTimedRow (T : Type*) where
  seqRingTimeMs : T → Int64

open SeqRingTimedRow (seqRingTimeMs)

namespace SeqRingState

/-! ## The scans -/

/-- `slot += 1; if slot == self.capacity { slot = 0 }`. -/
def nextSlot (s : SeqRingState T) (slot : Nat) : Nat :=
  if slot + 1 = s.capacity then 0 else slot + 1

section Scan

variable [SeqRingTimedRow T]

/-- The loop of `first_seq_at_or_after_time_with_clip_ms` over the next `n` sequence numbers. -/
def firstSeqLoop (s : SeqRingState T) (timeMs : Int64) (nextSeq : Nat) :
    (n seq slot first : Nat) → Int64 → Option (Nat × Int64)
  | 0, _, _, first, minTimeMs => some (first, minTimeMs)
  | n + 1, seq, slot, first, minTimeMs =>
    match s.rows[slot]? with
    | none => none
    | some row =>
      firstSeqLoop s timeMs nextSeq n (seq + 1) (s.nextSlot slot)
        (if first = nextSeq ∧ timeMs ≤ seqRingTimeMs row then seq else first)
        (min minTimeMs (seqRingTimeMs row))

def firstSeqAtOrAfterTimeWithClipMs (s : SeqRingState T) (timeMs : Int64) :
    Option (Nat × Bool) :=
  let bounds := s.bounds
  if bounds.len = 0 then some (bounds.nextSeq, false)
  else
    (s.firstSeqLoop timeMs bounds.nextSeq (bounds.nextSeq - bounds.oldestSeq) bounds.oldestSeq
      (s.slotIndex bounds.oldestSeq) bounds.nextSeq Int64.maxValue).map
      fun (first, minTimeMs) => (first, decide (timeMs < minTimeMs))

/-- The condition under which a row is visited. -/
def inTimeRange (fromMs toMs : Int64) (row : T) : Bool :=
  decide (fromMs ≤ seqRingTimeMs row ∧ seqRingTimeMs row < toMs)

/-- The loop of `fold_time_range` over the next `n` sequence numbers. -/
def foldTimeRangeLoop {R : Type*} (s : SeqRingState T) (fromMs toMs : Int64) (limit : Nat)
    (f : R → T → R) : (n slot : Nat) → R → (copied : Nat) → Option (R × Nat)
  | 0, _, acc, copied => some (acc, copied)
  | n + 1, slot, acc, copied =>
    if copied < limit then
      match s.rows[slot]? with
      | none => none
      | some row =>
        if inTimeRange fromMs toMs row then
          foldTimeRangeLoop s fromMs toMs limit f n (s.nextSlot slot) (f acc row) (copied + 1)
        else foldTimeRangeLoop s fromMs toMs limit f n (s.nextSlot slot) acc copied
    else some (acc, copied)

variable [Inhabited T]

def foldTimeRange {R : Type*} (s : SeqRingState T) (fromMs toMs : Int64) (limit : Nat) (init : R)
    (f : R → T → R) : Option ((R × SeqRingReadMeta) × SeqRingState T) :=
  let state := s.readMaterialized
  let bounds := state.bounds
  match state.firstSeqAtOrAfterTimeWithClipMs fromMs with
  | none => none
  | some (startSeq, timeClipped) =>
    let startSeq := min (max startSeq bounds.oldestSeq) bounds.nextSeq
    let scanned :=
      if 0 < limit ∧ fromMs < toMs then
        state.foldTimeRangeLoop fromMs toMs limit f (bounds.nextSeq - startSeq)
          (state.slotIndex startSeq) init 0
      else some (init, 0)
    scanned.map fun (acc, copied) =>
      ((acc,
        { requestedStartSeq := startSeq
          actualStartSeq := startSeq
          nextSeq := bounds.nextSeq
          copied := copied
          clipped := timeClipped
          concurrentMiss := false }), state)

def copyTimeRange (s : SeqRingState T) (fromMs toMs : Int64) (limit : Nat) :
    Option ((List T × SeqRingReadMeta) × SeqRingState T) :=
  s.foldTimeRange fromMs toMs limit [] fun out row => out ++ [row]

end Scan

/-! ## What they find -/

section Spec

variable {s : SeqRingState T} {w : List T} {start : Nat}

/-- The index that is advanced slot by slot is the slot of the advanced number. -/
theorem nextSlot_mod (hdense : s.rows.length = s.capacity) (hpos : 0 < s.capacity) :
    s.nextSlot (start % s.rows.length) = (start + 1) % s.rows.length := by
  rw [nextSlot, ← hdense]
  exact (Ring.slot_succ (hdense ▸ hpos) start).symm

variable [SeqRingTimedRow T]

/-- The oldest time of the rows, or `m`. -/
def minTime (m : Int64) (w : List T) : Int64 :=
  w.foldl (fun m row => min m (seqRingTimeMs row)) m

theorem firstSeqLoop_spec (hdense : s.rows.length = s.capacity) (hpos : 0 < s.capacity)
    (timeMs : Int64) (nextSeq : Nat) : ∀ {w : List T} {start seq : Nat} (first : Nat) (m : Int64),
    Ring.Holds s.rows start w → seq + w.length = nextSeq →
    s.firstSeqLoop timeMs nextSeq w.length seq (start % s.rows.length) first m =
      some (if first = nextSeq then seq + w.findIdx (fun row => timeMs ≤ seqRingTimeMs row)
        else first, minTime m w)
  | [], _, seq, first, m, _, hseq => by
    rw [length_nil, Nat.add_zero] at hseq
    rw [length_nil, firstSeqLoop, hseq]
    by_cases hfirst : first = nextSeq
    · rw [if_pos hfirst, hfirst]
      rfl
    · rw [if_neg hfirst]
      rfl
  | row :: w, start, seq, first, m, h, hseq => by
    have hnext : seq + 1 + w.length = nextSeq := by
      rw [← hseq, length_cons, Nat.add_assoc, Nat.add_comm 1]
    rw [length_cons, firstSeqLoop, h.head]
    simp only [nextSlot_mod hdense hpos]
    rw [firstSeqLoop_spec hdense hpos _ _ _ _ h.tail hnext, findIdx_cons]
    refine congrArg some (Prod.ext ?_ rfl)
    have hne : seq ≠ nextSeq := by omega
    by_cases hfirst : first = nextSeq
    · by_cases hrow : timeMs ≤ seqRingTimeMs row
      · simp [hfirst, hrow, hne]
      · simp only [hfirst, hrow, and_false, if_false, if_true, decide_false, cond_false]
        omega
    · simp only [hfirst, false_and, if_false]

theorem lt_min_ms {t a b : Int64} : t < min a b ↔ t < a ∧ t < b := by
  have hmin : min a b = if a ≤ b then a else b := rfl
  rw [hmin]
  split
  · next hle => exact ⟨fun ht => ⟨ht, Int64.lt_of_lt_of_le ht hle⟩, And.left⟩
  · next hle => exact ⟨fun ht => ⟨Int64.lt_trans ht (Int64.not_le.mp hle), ht⟩, And.right⟩

theorem lt_minTime {t : Int64} : ∀ {w : List T} {m : Int64},
    t < minTime m w ↔ t < m ∧ ∀ row ∈ w, t < seqRingTimeMs row
  | [], m => by simp [minTime]
  | row :: w, m => by
    have hstep : minTime m (row :: w) = minTime (min m (seqRingTimeMs row)) w := rfl
    rw [hstep, lt_minTime, lt_min_ms, forall_mem_cons, and_assoc]

/-- The rows before the first one that is new enough are outside the range. -/
theorem filter_drop_findIdx (fromMs toMs : Int64) (w : List T) :
    (w.drop (w.findIdx fun row => fromMs ≤ seqRingTimeMs row)).filter (inTimeRange fromMs toMs) =
      w.filter (inTimeRange fromMs toMs) := by
  induction w with
  | nil => rfl
  | cons row w ih =>
    rw [findIdx_cons]
    by_cases hrow : fromMs ≤ seqRingTimeMs row
    · simp only [hrow, decide_true, cond_true, drop_zero]
    · have hout : inTimeRange fromMs toMs row = false := by
        rw [inTimeRange, decide_eq_false_iff_not]
        exact fun h => hrow h.1
      rw [filter_cons_of_neg (by rw [hout]; decide), ← ih]
      simp only [hrow, decide_false, cond_false, drop_succ_cons]

theorem foldTimeRangeLoop_spec {R : Type*} (hdense : s.rows.length = s.capacity)
    (hpos : 0 < s.capacity) (fromMs toMs : Int64) (limit : Nat) (f : R → T → R) :
    ∀ {w : List T} {start copied : Nat} (acc : R), Ring.Holds s.rows start w → copied ≤ limit →
    s.foldTimeRangeLoop fromMs toMs limit f w.length (start % s.rows.length) acc copied =
      some (((w.filter (inTimeRange fromMs toMs)).take (limit - copied)).foldl f acc,
        copied + ((w.filter (inTimeRange fromMs toMs)).take (limit - copied)).length)
  | [], _, _, _, _, _ => by
    rw [length_nil, foldTimeRangeLoop, filter_nil, take_nil]
    rfl
  | row :: w, start, copied, acc, h, hle => by
    rw [length_cons, foldTimeRangeLoop, h.head]
    simp only [nextSlot_mod hdense hpos]
    rcases hle.lt_or_eq with hlt | rfl
    · rw [if_pos hlt]
      by_cases hin : inTimeRange fromMs toMs row = true
      · have hroom : limit - copied = limit - (copied + 1) + 1 := by omega
        rw [if_pos hin, foldTimeRangeLoop_spec hdense hpos _ _ _ _ _ h.tail hlt,
          filter_cons_of_pos hin, hroom, take_succ_cons, foldl_cons,
          length_cons, Nat.succ_add_eq_add_succ]
      · rw [if_neg hin, foldTimeRangeLoop_spec hdense hpos _ _ _ _ _ h.tail hle,
          filter_cons_of_neg hin]
    · rw [if_neg (lt_irrefl _), Nat.sub_self, take_zero]
      rfl

theorem filter_inTimeRange_of_le {fromMs toMs : Int64} (h : ¬ fromMs < toMs) (w : List T) :
    w.filter (inTimeRange fromMs toMs) = [] := by
  rw [filter_eq_nil_iff]
  intro row _ hin
  rw [inTimeRange, decide_eq_true_iff] at hin
  exact h (Int64.lt_of_le_of_lt hin.1 hin.2)

variable [Inhabited T]

/-- The first pass finds the number of the first row that is new enough, and reports a clip
if there are rows and all of them are newer than the time asked for. -/
theorem firstSeqAtOrAfterTimeWithClipMs_spec (h : s.Retains w)
    (hrows : s.len = 0 ∨ s.rows.length = s.capacity) (timeMs : Int64) :
    ∃ clipped, s.firstSeqAtOrAfterTimeWithClipMs timeMs =
        some (s.nextSeq - s.len + w.findIdx (fun row => timeMs ≤ seqRingTimeMs row), clipped) ∧
      (clipped = true ↔ w ≠ [] ∧ ∀ row ∈ w, timeMs < seqRingTimeMs row) := by
  have hlen := h.length_eq
  have hle := h.len_le_seq
  rcases Nat.eq_zero_or_pos s.len with hzero | hsome
  · obtain rfl : w = [] := eq_nil_of_length_eq_zero (hlen.trans hzero)
    refine ⟨false, ?_, by simp⟩
    rw [firstSeqAtOrAfterTimeWithClipMs]
    dsimp only
    rw [if_pos (show s.bounds.len = 0 from hzero), hzero]
    rfl
  · have hdense := hrows.resolve_left (Nat.ne_of_gt hsome)
    have hcount : s.nextSeq - (s.nextSeq - s.len) = w.length := by omega
    have hloop := firstSeqLoop_spec hdense h.capacity_pos timeMs s.nextSeq s.nextSeq
      Int64.maxValue (h.holds hdense) (show s.nextSeq - s.len + w.length = s.nextSeq by omega)
    rw [if_pos rfl, hdense] at hloop
    refine ⟨decide (timeMs < minTime Int64.maxValue w), ?_, ?_⟩
    · rw [firstSeqAtOrAfterTimeWithClipMs]
      dsimp only
      rw [if_neg (show ¬ s.bounds.len = 0 from Nat.ne_of_gt hsome)]
      dsimp only [bounds, slotIndex]
      rw [hcount, hloop]
      rfl
    · rw [decide_eq_true_iff, lt_minTime]
      have hne : w ≠ [] := by
        rw [← length_pos_iff, hlen]
        exact hsome
      constructor
      · rintro ⟨-, hall⟩
        exact ⟨hne, hall⟩
      · rintro ⟨-, hall⟩
        obtain ⟨row, hrow⟩ := exists_mem_of_ne_nil w hne
        -- a time that is before some other time is before the largest one
        exact ⟨Int64.lt_of_lt_of_le (hall row hrow) (Int64.le_maxValue _), hall⟩

theorem scan_spec {R : Type*} (h : s.Retains w)
    (hrows : s.len = 0 ∨ s.rows.length = s.capacity) (fromMs toMs : Int64) (limit : Nat)
    (init : R) (f : R → T → R) {skipped : Nat}
    (hskipped : skipped = w.findIdx fun row => fromMs ≤ seqRingTimeMs row) :
    (if 0 < limit ∧ fromMs < toMs then
      s.foldTimeRangeLoop fromMs toMs limit f (w.length - skipped)
        (s.slotIndex (s.nextSeq - s.len + skipped)) init 0
    else some (init, 0)) =
      some (((w.filter (inTimeRange fromMs toMs)).take limit).foldl f init,
        ((w.filter (inTimeRange fromMs toMs)).take limit).length) := by
  by_cases hask : 0 < limit ∧ fromMs < toMs
  · rw [if_pos hask, slotIndex]
    rcases hrows with hzero | hdense
    · obtain rfl : w = [] := eq_nil_of_length_eq_zero (h.length_eq.trans hzero)
      rw [length_nil, Nat.zero_sub, foldTimeRangeLoop, filter_nil, take_nil]
      rfl
    · have hskip : skipped ≤ w.length := hskipped ▸ findIdx_le_length
      have hloop := foldTimeRangeLoop_spec hdense h.capacity_pos fromMs toMs limit f
        init ((h.holds hdense).drop hskip) (Nat.zero_le limit)
      rw [hskipped, filter_drop_findIdx, Nat.sub_zero, Nat.zero_add, ← hskipped,
        length_drop, hdense] at hloop
      exact hloop
  · rw [if_neg hask]
    have hnone : (w.filter (inTimeRange fromMs toMs)).take limit = [] := by
      rcases not_and_or.mp hask with hlimit | hrange
      · rw [Nat.le_zero.mp (Nat.le_of_not_lt hlimit), take_zero]
      · rw [filter_inTimeRange_of_le hrange, take_nil]
    rw [hnone]
    rfl

/-- **A read by time range** visits the retained rows of the range, oldest first, and stops
at the limit. -/
theorem foldTimeRange_spec {R : Type*} (h : s.Retains w) (fromMs toMs : Int64) (limit : Nat)
    (init : R) (f : R → T → R) :
    ∃ readMeta, s.foldTimeRange fromMs toMs limit init f =
        some ((((w.filter (inTimeRange fromMs toMs)).take limit).foldl f init, readMeta),
          s.readMaterialized) ∧
      readMeta.copied = ((w.filter (inTimeRange fromMs toMs)).take limit).length ∧
      (readMeta.clipped = true ↔ w ≠ [] ∧ ∀ row ∈ w, fromMs < seqRingTimeMs row) := by
  obtain ⟨hretains, hrows⟩ := h.readMaterialized
  have hrows' : s.readMaterialized.len = 0 ∨
      s.readMaterialized.rows.length = s.readMaterialized.capacity := by
    rwa [readMaterialized_len, readMaterialized_capacity]
  obtain ⟨clipped, hfirst, hclipped⟩ :=
    firstSeqAtOrAfterTimeWithClipMs_spec hretains hrows' fromMs
  have hscan := scan_spec hretains hrows' fromMs toMs limit init f rfl
  unfold foldTimeRange
  dsimp only
  generalize s.readMaterialized = state at hretains hfirst hscan ⊢
  have hlen := hretains.length_eq
  have hle := hretains.len_le_seq
  have hskip : (w.findIdx fun row => fromMs ≤ seqRingTimeMs row) ≤ w.length :=
    findIdx_le_length
  generalize (w.findIdx fun row => decide (fromMs ≤ seqRingTimeMs row)) = skipped
    at hfirst hscan hskip
  rw [hfirst]
  dsimp only [bounds]
  have hclamp : min (max (state.nextSeq - state.len + skipped) (state.nextSeq - state.len))
      state.nextSeq = state.nextSeq - state.len + skipped := by omega
  have hcount : state.nextSeq - (state.nextSeq - state.len + skipped) = w.length - skipped := by
    omega
  rw [hclamp, hcount, hscan]
  exact ⟨_, rfl, rfl, hclipped⟩

end Spec

/-- **Reads by time are a filter.** In every ring that operations can build, a read from a time
up to another visits exactly the retained rows of that range, in the order of their arrival
and whatever the order of their times, up to the limit. It reports a clip exactly if there
are retained rows and all of them are newer than the start of the range. -/
theorem time_range_reads_filter [SeqRingTimedRow T] [Inhabited T] (capacity : Nat)
    (hcapacity : 0 < capacity) (ops : List (SeqRingOp T))
    (happends : (ops.map fun op => (op.appended capacity).length).sum < 2 ^ 64) :
    ∃ s₀ s : SeqRingState T, SeqRingState.new capacity = .ok s₀ ∧
      s₀.execAll ops = some (SeqLog.empty.evictedAll capacity ops, s) ∧
      let retained := (ops.foldl (SeqLog.step capacity) SeqLog.empty).kept capacity
      ∀ {R : Type} (fromMs toMs : Int64) (limit : Nat) (init : R) (f : R → T → R),
      let visited := (retained.filter (inTimeRange fromMs toMs)).take limit
      ∃ readMeta t, s.foldTimeRange fromMs toMs limit init f =
          some ((visited.foldl f init, readMeta), t) ∧
        readMeta.copied = visited.length ∧
        (readMeta.clipped = true ↔
          retained ≠ [] ∧ ∀ row ∈ retained, fromMs < seqRingTimeMs row) := by
  obtain ⟨s, hrun, hrefines, -⟩ := execAll_refines ops (new_refines (T := T) hcapacity)
    ((Nat.zero_add _).trans_lt happends)
  refine ⟨_, s, ?_, hrun, ?_⟩
  · rw [new, if_neg (Nat.ne_of_gt hcapacity)]
  · intro retained R fromMs toMs limit init f visited
    obtain ⟨readMeta, hread, hcopied, hclipped⟩ :=
      foldTimeRange_spec hrefines.retains fromMs toMs limit init f
    exact ⟨readMeta, _, hread, hcopied, hclipped⟩

/-- A row that is nothing but its time. -/
instance : SeqRingTimedRow Int64 := ⟨id⟩

/-- Five rows in a ring of four, a late resend among them. -/
theorem time_range_reads_filter_late : ∃ s₀ s : SeqRingState Int64,
    SeqRingState.new 4 = .ok s₀ ∧
    s₀.execAll [.pushBatch [10, 15, 30, 20, 35]] = some ([[]], s) ∧
    (s.copyTimeRange 20 40 2).map (·.1.1) = some [30, 20] := by
  obtain ⟨s₀, s, hnew, hrun, hread⟩ := time_range_reads_filter (T := Int64) 4 (by decide)
    [.pushBatch [10, 15, 30, 20, 35]] (by decide)
  obtain ⟨readMeta, t, hcopy, -⟩ := hread 20 40 2 [] fun out row => out ++ [row]
  refine ⟨s₀, s, hnew, hrun, ?_⟩
  rw [copyTimeRange, hcopy, Option.map_some]
  dsimp only
  decide +kernel

/-- **An empty ring is not clipped**, although every time is earlier than all of its rows. -/
theorem time_range_empty_not_clipped : ∃ s₀ : SeqRingState Int64,
    SeqRingState.new 4 = .ok s₀ ∧
    (∀ row ∈ (SeqLog.empty : SeqLog Int64).kept 4, 20 < seqRingTimeMs row) ∧
    (s₀.copyTimeRange 20 40 2).map (·.1.2.clipped) = some false := by
  refine ⟨⟨[], 4, 0, 0⟩, by decide, fun row hrow => (nomatch hrow), by decide⟩

end SeqRingState

end MoonProto
