import Mathlib.Data.List.Induction
import Mathlib.Data.List.Nodup
import MoonProto.Lib.BitField

/-!
# The receive slider

`Slider` is the 4096-bit replay window of `src/protocol/slider.rs`: 64 words of
64 bits, one bit a message number, starting at a multiple of 64. The window
moves forward by whole words when a number past its end arrives.

An index outside the bit field is a panic in the source and `none` here. The
specification keeps the list of all numbers accepted so far and nothing else:
`windowStart` is computed from that list, and `Slider.Represents` says that the
bit field is the list, cut to the window.
-/

namespace MoonProto

open BitField

/-! ## The model of the code -/

/-- Bits in the bit field (`SLIDER_LEN_BITS`): `SLIDER_LEN = 64` words of 64. -/
def sliderLenBits : UInt64 := 4096

structure Slider where
  bitField : Vector UInt64 64
  startNum : UInt64
  epoch : UInt8
  hasNewData : Bool
  rCount : Int
deriving DecidableEq

namespace Slider

def new : Slider where
  bitField := Vector.replicate 64 0
  startNum := 0
  epoch := 0
  hasNewData := false
  rCount := 0

/-- How many words the window has to move for `num` to fall into its last word
(`diff` in `check_revd`, an `i64`). -/
def slideDiff (s : Slider) (num : UInt64) : Int :=
  (num >>> 6).toNat - (s.startNum >>> 6).toNat - 64 + 1

/-- The first half of `check_revd`: move the window if `num` lies past it. -/
def slide (s : Slider) (num : UInt64) : Slider :=
  if 0 < s.slideDiff num then
    let diffU := (s.slideDiff num).toNat
    { s with
      -- the source bumps the epoch before and after the move
      epoch := s.epoch + 1 + 1
      startNum := ((num >>> 6) - 64 + 1) <<< 6
      bitField :=
        clearFrom (if diffU < 64 then moveDown s.bitField diffU else s.bitField)
          (64 - diffU) }
  else s

/-- `set_bit`: the old value of the bit, and the slider with the bit set. -/
def setBit (s : Slider) (num : UInt32) : Option (Bool × Slider) :=
  let wordIdx := (num >>> 6).toNat
  let mask : UInt64 := 1 <<< (num &&& 63).toUInt64
  if h : wordIdx < 64 then
    let wasSet := s.bitField[wordIdx] &&& mask != 0
    some (wasSet, { s with bitField := s.bitField.set wordIdx (s.bitField[wordIdx] ||| mask) h })
  else none

/-- `check_revd`: `true` for a number not seen before. -/
def checkRevd (s : Slider) (num : UInt64) : Option (Bool × Slider) :=
  let s := s.slide num
  if s.startNum ≤ num then
    let d := (num - s.startNum).toUInt32
    if d.toUInt64 < sliderLenBits then
      (s.setBit d).map fun r => (!r.1, r.2)
    else some (false, s)
  else some (false, s)

/-- The loop of `build_ack_half` that steps back over zero words. -/
def ackCount (buf : List UInt64) : Nat → Nat
  | 0 => 0
  | count + 1 => if buf.getD count 0 = 0 then ackCount buf count else count + 1

/-- `build_ack_half`: the upper half of the window without its trailing zero
words, and the number its first bit stands for. -/
def buildAckHalf (s : Slider) : UInt64 × List UInt64 :=
  let localBuf := s.bitField.toList.drop 32
  (s.startNum + 32 * 64, localBuf.take (ackCount localBuf 32))

/-- `ack_confirms_msg`, on a slider filled from the peer's bitmap. -/
def ackConfirmsMsg (s : Slider) (msgNum : UInt64) : Option Bool :=
  if msgNum < s.startNum then some false
  else
    let limit := (max s.rCount 0).toNat * 64
    let offset := msgNum - s.startNum
    if limit ≤ offset.toNat then some false
    else
      let wordIdx := (offset >>> 6).toNat
      if h : wordIdx < 64 then some ((s.bitField[wordIdx] >>> (offset &&& 63)) &&& 1 != 0)
      else none

/-- Feed a sequence of numbers, with the verdict on each one. -/
def feed : Slider → List UInt64 → Option (Slider × List (UInt64 × Bool))
  | s, [] => some (s, [])
  | s, m :: ms => do
      let (ok, s') ← s.checkRevd m
      let (s'', log) ← s'.feed ms
      some (s'', (m, ok) :: log)

end Slider

/-! ## The specification -/

/-- The numbers a log of verdicts accepts, in order. -/
def accepted (log : List (UInt64 × Bool)) : List UInt64 :=
  (log.filter (·.2)).map (·.1)

theorem accepted_snoc (log : List (UInt64 × Bool)) (m : UInt64) (ok : Bool) :
    accepted (log ++ [(m, ok)]) = accepted log ++ if ok then [m] else [] := by
  cases ok <;> simp [accepted]

/-- The highest 64-bit word index among the accepted numbers, `0` for none. -/
def highestWord : List UInt64 → Nat
  | [] => 0
  | a :: as => max (a.toNat / 64) (highestWord as)

/-- The window covers the 64 words up to the highest accepted one; truncated
subtraction makes it start at 0 while that word is below 63. -/
def windowStart (as : List UInt64) : Nat := 64 * (highestWord as - 63)

theorem div_le_highestWord : ∀ {as : List UInt64} {a : UInt64}, a ∈ as →
    a.toNat / 64 ≤ highestWord as
  | b :: bs, a, h => by
    simp only [highestWord]
    rcases List.mem_cons.mp h with rfl | h
    · exact Nat.le_max_left _ _
    · exact Nat.le_trans (div_le_highestWord h) (Nat.le_max_right _ _)

theorem highestWord_lt : ∀ as : List UInt64, highestWord as < 2 ^ 58
  | [] => by simp [highestWord]
  | a :: as => by
    have ih := highestWord_lt as
    have ha := a.toNat_lt
    simp only [highestWord]
    omega

theorem lt_windowEnd {as : List UInt64} {a : UInt64} (h : a ∈ as) :
    a.toNat < windowStart as + 4096 := by
  have := div_le_highestWord h
  unfold windowStart
  omega

/-- The slider holds exactly the accepted numbers of its window. -/
structure Slider.Represents (s : Slider) (as : List UInt64) : Prop where
  start : s.startNum.toNat = windowStart as
  bits : ∀ i < 4096, bit s.bitField i = true ↔ ∃ a ∈ as, a.toNat = windowStart as + i

theorem highestWord_le_iff {k : Nat} : ∀ {as : List UInt64},
    highestWord as ≤ k ↔ ∀ a ∈ as, a.toNat / 64 ≤ k
  | [] => by simp [highestWord]
  | b :: bs => by
    simp only [highestWord, Nat.max_le, List.forall_mem_cons]
    rw [@highestWord_le_iff k bs]

/-- The window depends on which numbers were accepted, not on their order. -/
theorem windowStart_congr {as bs : List UInt64} (h : ∀ a, a ∈ as ↔ a ∈ bs) :
    windowStart as = windowStart bs := by
  have h1 : highestWord as ≤ highestWord bs :=
    highestWord_le_iff.mpr fun a ha => div_le_highestWord ((h a).mp ha)
  have h2 : highestWord bs ≤ highestWord as :=
    highestWord_le_iff.mpr fun a ha => div_le_highestWord ((h a).mpr ha)
  rw [windowStart, windowStart, Nat.le_antisymm h1 h2]

namespace Slider

variable {as : List UInt64} {s : Slider}

theorem Represents.congr {bs : List UInt64} (h : s.Represents as)
    (hab : ∀ a, a ∈ as ↔ a ∈ bs) : s.Represents bs where
  start := by rw [h.start, windowStart_congr hab]
  bits := fun i hi => by
    rw [h.bits i hi, windowStart_congr hab]
    simp only [hab]

theorem represents_new : Slider.new.Represents [] where
  start := by simp [Slider.new, windowStart, highestWord]
  bits := fun i _ => by simp [Slider.new, bit_replicate_zero]

/-! ## One number -/

theorem shiftRight_six (x : UInt64) : (x >>> 6).toNat = x.toNat / 64 := by
  rw [UInt64.toNat_shiftRight]
  exact Nat.shiftRight_eq_div_pow _ 6

theorem slideDiff_eq (h : s.Represents as) (num : UInt64) :
    s.slideDiff num = (num.toNat / 64 : Nat) - ((highestWord as - 63 : Nat) : Int) - 63 := by
  have hstart : s.startNum.toNat / 64 = highestWord as - 63 := by
    rw [h.start, windowStart]
    omega
  unfold slideDiff
  rw [shiftRight_six, shiftRight_six, hstart]
  omega

/-- After the slide the window is the one of the accepted numbers together with
`num`, and it still holds exactly the accepted numbers. -/
theorem slide_spec (h : s.Represents as) (num : UInt64) :
    (s.slide num).startNum.toNat = windowStart (num :: as) ∧
    ∀ i < 4096, bit (s.slide num).bitField i = true ↔
      ∃ a ∈ as, a.toNat = windowStart (num :: as) + i := by
  have hdiff := slideDiff_eq h num
  have hw := highestWord_lt as
  have hnum := num.toNat_lt
  unfold slide
  by_cases hpos : 0 < s.slideDiff num
  · rw [if_pos hpos]
    have hn : highestWord as < num.toNat / 64 ∧ 63 < num.toNat / 64 := by omega
    have hhw : highestWord (num :: as) = num.toNat / 64 := by
      simp only [highestWord]; omega
    have hws : windowStart (num :: as) = 64 * (num.toNat / 64 - 63) := by
      rw [windowStart, hhw]
    -- the window moves by exactly the difference of the two starts
    have hmove : windowStart (num :: as) = windowStart as + 64 * (s.slideDiff num).toNat := by
      rw [hws, windowStart]; omega
    refine ⟨?_, ?_⟩
    · have h64 : (64 : UInt64) ≤ num >>> 6 := by
        rw [UInt64.le_iff_toNat_le, shiftRight_six]
        show 64 ≤ _
        omega
      show (((num >>> 6) - 64 + 1) <<< 6).toNat = _
      rw [hws, UInt64.toNat_shiftLeft, UInt64.toNat_add, UInt64.toNat_sub_of_le _ _ h64,
        shiftRight_six]
      simp only [UInt64.reduceToNat, Nat.reduceMod, Nat.shiftLeft_eq]
      omega
    · intro i hi
      show bit (clearFrom _ _) i = true ↔ _
      by_cases hd : (s.slideDiff num).toNat < 64
      · rw [if_pos hd, bit_clearFrom_moveDown]
        by_cases hin : i + 64 * (s.slideDiff num).toNat < 4096
        · rw [h.bits _ hin, hmove]
          simp only [Nat.add_assoc, Nat.add_comm i]
        · -- the words behind the old end are cleared, and nothing was accepted there
          have hlast : ¬ ((i + 64 * (s.slideDiff num).toNat) / 64 < 64) := by omega
          rw [show bit s.bitField (i + 64 * (s.slideDiff num).toNat) = false from by
            simp only [bit, dif_neg hlast]]
          refine ⟨fun hf => Bool.noConfusion hf, ?_⟩
          rintro ⟨a, ha, hai⟩
          have := lt_windowEnd ha
          omega
      · rw [if_neg hd, show 64 - (s.slideDiff num).toNat = 0 from by omega,
          bit_clearFrom_zero]
        refine ⟨fun hf => Bool.noConfusion hf, ?_⟩
        rintro ⟨a, ha, hai⟩
        have := lt_windowEnd ha
        omega
  · rw [if_neg hpos]
    have hws : windowStart (num :: as) = windowStart as := by
      simp only [windowStart, highestWord]
      omega
    rw [hws]
    exact ⟨h.start, h.bits⟩

theorem lt_slide_end (num : UInt64) (as : List UInt64) :
    num.toNat < windowStart (num :: as) + 4096 :=
  lt_windowEnd List.mem_cons_self

/-- The distance to the window start survives the cast to `u32`. -/
theorem slide_cast_lossless (h : s.Represents as)
    {num : UInt64} (hle : (s.slide num).startNum ≤ num) :
    (num - (s.slide num).startNum).toUInt32.toNat = num.toNat - windowStart (num :: as) ∧
    (num - (s.slide num).startNum).toNat = num.toNat - windowStart (num :: as) := by
  have hend := lt_slide_end num as
  have hsub : (num - (s.slide num).startNum).toNat = num.toNat - windowStart (num :: as) := by
    rw [UInt64.toNat_sub_of_le _ _ hle, (slide_spec h num).1]
  refine ⟨?_, hsub⟩
  rw [UInt64.toNat_toUInt32, hsub]
  omega

theorem setBit_spec (s : Slider) {d : UInt32} (hd : d.toNat < 4096) :
    ∃ s', s.setBit d = some (bit s.bitField d.toNat, s') ∧ s'.startNum = s.startNum ∧
      ∀ i, bit s'.bitField i = (bit s.bitField i || decide (d.toNat = i)) := by
  have hword : (d >>> 6).toNat = d.toNat / 64 := by
    rw [UInt32.toNat_shiftRight]
    exact Nat.shiftRight_eq_div_pow _ 6
  have hbit : (d &&& 63).toUInt64.toNat = d.toNat % 64 := by
    rw [UInt32.toNat_toUInt64, UInt32.toNat_and]
    exact Nat.and_two_pow_sub_one_eq_mod d.toNat 6
  have hlt : d.toNat / 64 < 64 := by omega
  have hmask := and_mask64_ne_zero s.bitField[d.toNat / 64] (d &&& 63).toUInt64 (by omega)
  unfold setBit
  simp only [hword, dif_pos hlt]
  refine ⟨_, Option.some_inj.mpr (Prod.ext ?_ rfl), rfl,
    fun i => bit_set_mask s.bitField d.toNat _ hlt hbit i⟩
  show (s.bitField[d.toNat / 64] &&& (1 : UInt64) <<< (d &&& 63).toUInt64 != 0) = _
  rw [bit_eq hlt, ← hbit, Bool.eq_iff_iff, bne_iff_ne]
  exact hmask

/-- **One step of the replay window.** The slider never indexes outside its
field; it accepts a number exactly when the number is new and not below the
window, and then represents the accepted numbers with this one added. -/
theorem checkRevd_spec (h : s.Represents as) (num : UInt64) :
    ∃ ok s', s.checkRevd num = some (ok, s') ∧ (ok = true ↔ num ∉ as ∧ windowStart as ≤ num.toNat) ∧
      s'.Represents (if ok then num :: as else as) := by
  obtain ⟨hstart, hbits⟩ := slide_spec h num
  have hend := lt_slide_end num as
  -- a number inside the moved window was inside or past the old one
  have hbelow : windowStart as ≤ num.toNat ↔ windowStart (num :: as) ≤ num.toNat := by
    simp only [windowStart, highestWord]
    omega
  unfold checkRevd
  by_cases hle : (s.slide num).startNum ≤ num
  · obtain ⟨hcast, -⟩ := slide_cast_lossless h hle
    have hge : windowStart (num :: as) ≤ num.toNat := by
      rw [← hstart]; exact UInt64.le_iff_toNat_le.mp hle
    have hd : (num - (s.slide num).startNum).toUInt32.toNat < 4096 := by omega
    have hlt : (num - (s.slide num).startNum).toUInt32.toUInt64 < sliderLenBits := by
      rw [UInt64.lt_iff_toNat_lt, UInt32.toNat_toUInt64]
      exact hd
    obtain ⟨s', hset, hs', hbit'⟩ := setBit_spec (s.slide num) hd
    have hold : bit (s.slide num).bitField (num.toNat - windowStart (num :: as)) = true
        ↔ num ∈ as := by
      rw [hbits _ (by omega)]
      constructor
      · rintro ⟨a, ha, hai⟩
        have : a = num := UInt64.toNat_inj.mp (by omega)
        exact this ▸ ha
      · intro hm
        exact ⟨num, hm, by omega⟩
    simp only [if_pos hle, if_pos hlt, hset, Option.map_some, hcast]
    by_cases hmem : num ∈ as
    · -- a duplicate: the bit was set, so the field does not change
      rw [hold.mpr hmem]
      refine ⟨_, _, rfl, by simp [hmem], ?_⟩
      have hws : windowStart (num :: as) = windowStart as := by
        have := div_le_highestWord hmem
        simp only [windowStart, highestWord]
        omega
      refine ⟨by simp only [hs', hstart, hws, Bool.not_true, Bool.false_eq_true, if_false], ?_⟩
      intro i hi
      simp only [Bool.not_true, Bool.false_eq_true, if_false, hbit', hcast, Bool.or_eq_true,
        decide_eq_true_eq]
      rw [hbits i hi, hws]
      constructor
      · rintro (h1 | h1)
        · exact h1
        · exact ⟨num, hmem, by omega⟩
      · exact .inl
    · have hf : bit (s.slide num).bitField (num.toNat - windowStart (num :: as)) = false := by
        rw [← Bool.not_eq_true, hold]
        exact hmem
      rw [hf]
      refine ⟨_, _, rfl, by simp [hmem, hbelow, hge], ?_⟩
      simp only [Bool.not_false, if_true]
      refine ⟨by rw [hs', hstart], ?_⟩
      intro i hi
      simp only [hbit', hcast, Bool.or_eq_true, decide_eq_true_eq, List.mem_cons]
      rw [hbits i hi]
      constructor
      · rintro (⟨a, ha, hai⟩ | h1)
        · exact ⟨a, .inr ha, hai⟩
        · exact ⟨num, .inl rfl, by omega⟩
      · rintro ⟨a, rfl | ha, hai⟩
        · exact .inr (by omega)
        · exact .inl ⟨a, ha, hai⟩
  · -- below the window: nothing was moved and nothing is recorded
    have hlow : num.toNat < windowStart (num :: as) := by
      rw [← hstart]; exact UInt64.lt_iff_toNat_lt.mp (by simpa using hle)
    have hws : windowStart (num :: as) = windowStart as := by
      simp only [windowStart, highestWord] at hlow ⊢
      omega
    rw [if_neg hle]
    refine ⟨_, _, rfl, ?_, ?_⟩
    · simp only [Bool.false_eq_true, false_iff, not_and]
      omega
    · simp only [Bool.false_eq_true, if_false]
      exact ⟨by rw [hstart, hws], fun i hi => by rw [hbits i hi, hws]⟩

/-- `check_revd` never indexes out of bounds, whatever the slider holds. -/
theorem checkRevd_isSome (s : Slider) (num : UInt64) : (s.checkRevd num).isSome := by
  unfold checkRevd
  simp only
  split
  · split
    · rename_i _ hlt
      have hd := UInt64.lt_iff_toNat_lt.mp hlt
      rw [UInt32.toNat_toUInt64] at hd
      obtain ⟨s', hset, -⟩ := setBit_spec (s.slide num) hd
      rw [hset]
      rfl
    · rfl
  · rfl

/-- `check_revd` without the panic, which does not occur. -/
def judge (s : Slider) (num : UInt64) : Bool × Slider :=
  (s.checkRevd num).get (checkRevd_isSome s num)

theorem checkRevd_eq_judge (s : Slider) (num : UInt64) : s.checkRevd num = some (s.judge num) := by
  simp [judge]

theorem judge_spec (h : s.Represents as) (num : UInt64) :
    ((s.judge num).1 = true ↔ num ∉ as ∧ windowStart as ≤ num.toNat) ∧
    (s.judge num).2.Represents (if (s.judge num).1 then num :: as else as) := by
  obtain ⟨ok, s', hstep, hok, hrep⟩ := checkRevd_spec h num
  rw [checkRevd_eq_judge, Option.some_inj] at hstep
  rw [hstep]
  exact ⟨hok, hrep⟩

/-! ## Any sequence of numbers -/

theorem feed_snoc (s : Slider) (m : UInt64) : ∀ nums : List UInt64,
    s.feed (nums ++ [m]) = (s.feed nums).bind fun r =>
      (r.1.checkRevd m).bind fun q => some (q.2, r.2 ++ [(m, q.1)])
  | [] => by
    simp only [List.nil_append, feed, Option.bind_some]
    cases s.checkRevd m <;> rfl
  | k :: ks => by
    simp only [List.cons_append, feed]
    cases s.checkRevd k with
    | none => rfl
    | some q =>
      show (q.2.feed (ks ++ [m])).bind _ = ((q.2.feed ks).bind _).bind _
      rw [feed_snoc q.2 m ks]
      cases q.2.feed ks with
      | none => rfl
      | some r =>
        show ((r.1.checkRevd m).bind _).bind _ = (r.1.checkRevd m).bind _
        cases r.1.checkRevd m <;> rfl

/-- The verdict on every entry of a log is the specified one: a number is
rejected when it was accepted before or lies below the window. -/
def Judged (log : List (UInt64 × Bool)) : Prop :=
  ∀ pre m ok post, log = pre ++ (m, ok) :: post →
    (ok = false ↔ m ∈ accepted pre ∨ m.toNat < windowStart (accepted pre))

theorem Judged.snoc {log : List (UInt64 × Bool)} {m : UInt64} {ok : Bool} (h : Judged log)
    (hm : ok = false ↔ m ∈ accepted log ∨ m.toNat < windowStart (accepted log)) :
    Judged (log ++ [(m, ok)]) := by
  intro pre k v post heq
  rcases List.eq_nil_or_concat post with rfl | ⟨post', x, rfl⟩
  · obtain ⟨rfl, hkv⟩ := List.append_inj' heq rfl
    cases hkv
    exact hm
  · have heq' : log ++ [(m, ok)] = (pre ++ (k, v) :: post') ++ [x] := by simpa using heq
    obtain ⟨hlog, -⟩ := List.append_inj' heq' rfl
    exact h pre k v post' hlog

/-- The state after any sequence: the slider represents the accepted numbers,
which are pairwise different, and every verdict was the specified one. -/
theorem feed_spec (nums : List UInt64) :
    ∃ s log, Slider.new.feed nums = some (s, log) ∧ log.map Prod.fst = nums ∧
      s.Represents (accepted log) ∧ (accepted log).Nodup ∧ Judged log := by
  induction nums using List.reverseRecOn with
  | nil =>
    exact ⟨_, [], rfl, rfl, represents_new, List.nodup_nil, fun pre m ok post h => by
      simp at h⟩
  | append_singleton nums m ih =>
    obtain ⟨s, log, hfeed, hnums, hrep, hnd, hj⟩ := ih
    obtain ⟨ok, s', hstep, hok, hrep'⟩ := checkRevd_spec hrep m
    refine ⟨s', log ++ [(m, ok)], ?_, by simp [hnums], ?_, ?_, hj.snoc ?_⟩
    · rw [feed_snoc, hfeed]
      simp [hstep]
    · refine hrep'.congr fun a => ?_
      rw [accepted_snoc]
      cases ok <;> simp [or_comm]
    · rw [accepted_snoc]
      cases ok with
      | false => simpa using hnd
      | true =>
        have hnew : m ∉ accepted log := (hok.mp rfl).1
        exact hnd.append (List.nodup_singleton m) (by simpa using hnew)
    · rw [← Bool.not_eq_true, hok, not_and_or, not_not, Nat.not_le]

/-- **Replay window exactness.** Whatever numbers arrive, in whatever order and
however often, the slider never indexes outside its 64 words; each number is
accepted at most once; a number is rejected exactly when it was accepted before
or lies below the window, whose start is `64 * (w - 63)` for the highest
accepted word `w`; and on the next number the window difference fits an `i64`
and the distance to the window start fits the `u32` it is cast to. -/
theorem replay_window_exact (nums : List UInt64) :
    ∃ s log, Slider.new.feed nums = some (s, log) ∧ log.map Prod.fst = nums ∧ (accepted log).Nodup ∧
      (∀ pre m ok post, log = pre ++ (m, ok) :: post →
        (ok = false ↔ m ∈ accepted pre ∨ m.toNat < windowStart (accepted pre))) ∧
      s.startNum.toNat = 64 * (highestWord (accepted log) - 63) ∧
      ∀ next : UInt64, (s.checkRevd next).isSome ∧
        (-2 ^ 63 ≤ s.slideDiff next ∧ s.slideDiff next < 2 ^ 63) ∧
        ((s.slide next).startNum ≤ next → (next - (s.slide next).startNum).toUInt32.toNat
            = (next - (s.slide next).startNum).toNat) := by
  obtain ⟨s, log, hfeed, hnums, hrep, hnd, hj⟩ := feed_spec nums
  refine ⟨s, log, hfeed, hnums, hnd, hj, hrep.start, fun next => ⟨?_, ?_, ?_⟩⟩
  · obtain ⟨ok, s', hstep, -⟩ := checkRevd_spec hrep next
    simp [hstep]
  · have hn := next.toNat_lt
    have hw := highestWord_lt (accepted log)
    rw [slideDiff_eq hrep next]
    omega
  · intro hle
    obtain ⟨h1, h2⟩ := slide_cast_lossless hrep hle
    rw [h1, h2]

end Slider

end MoonProto
