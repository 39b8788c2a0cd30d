import MoonProto.Lib.Run
import MoonProto.Client.SendQueue

/-!
# The ACK bitmap across the wire

One side builds the ACK half of its receive slider into a Ping; the other side
reads it back into the slider it keeps for pending High packets. The middle of
the module follows one Ping, the end a link on which Pings are lost, repeated
and reordered while the slider moves on.
-/

namespace MoonProto

open BitField Codec List Option SendLockState Slider

/-! ## The upper half of a slider -/

namespace Slider

theorem ackCount_le (buf : List UInt64) : ∀ n, ackCount buf n ≤ n
  | 0 => Nat.le_refl _
  | n + 1 => by
    unfold ackCount
    split
    · exact Nat.le_succ_of_le (ackCount_le buf n)
    · exact Nat.le_refl _

theorem getD_of_ackCount_le (buf : List UInt64) : ∀ {n k : Nat}, ackCount buf n ≤ k → k < n →
    buf.getD k 0 = 0
  | n + 1, k, hle, hlt => by
    unfold ackCount at hle
    split at hle
    · rename_i hz
      rcases Nat.lt_succ_iff_lt_or_eq.mp hlt with h | rfl
      · exact getD_of_ackCount_le buf hle h
      · exact hz
    · omega

theorem getD_ackCount_ne_zero (buf : List UInt64) : ∀ {n : Nat}, ackCount buf n ≠ 0 →
    buf.getD (ackCount buf n - 1) 0 ≠ 0
  | 0, h => absurd rfl h
  | n + 1, h => by
    unfold ackCount at h ⊢
    split
    · rename_i hz
      rw [if_pos hz] at h
      exact getD_ackCount_ne_zero buf h
    · rename_i hz
      exact hz

theorem buildAckHalf_length_le (s : Slider) : s.buildAckHalf.2.length ≤ 32 := by
  simp only [buildAckHalf, length_take]
  exact Nat.le_trans (Nat.min_le_left _ _) (ackCount_le _ _)

theorem toList_drop_getD (s : Slider) {k : Nat} (hk : k < 32) :
    (s.bitField.toList.drop 32).getD k 0 = s.bitField[32 + k] := by
  rw [getD_eq_getElem?_getD, getElem?_drop, getElem?_eq_getElem (by simp; omega)]
  simp

/-- Trimmed or not, the half reads as the upper 32 words of the field. -/
theorem buildAckHalf_getD (s : Slider) {k : Nat} (hk : k < 32) :
    s.buildAckHalf.2.getD k 0 = s.bitField[32 + k] := by
  have hbuf := toList_drop_getD s hk
  simp only [buildAckHalf]
  by_cases hc : k < ackCount (s.bitField.toList.drop 32) 32
  · rw [← hbuf, getD_eq_getElem?_getD, getD_eq_getElem?_getD, getElem?_take_of_lt hc]
  · rw [← hbuf, getD_of_ackCount_le _ (Nat.le_of_not_lt hc) hk, getD_eq_getElem?_getD,
      getElem?_eq_none (by rw [length_take]; omega), getD_none]

theorem bit_ackField (words : List UInt64) (i : Nat) : bit (ackField words) i
      = (decide (i / 64 < 64) && (words.getD (i / 64) 0).toNat.testBit (i % 64)) := by
  unfold bit ackField
  by_cases h : i / 64 < 64 <;> simp [h]

/-- The half, laid into an empty field, is the upper half of the field. -/
theorem bit_buildAckHalf (s : Slider) (i : Nat) :
    bit (ackField s.buildAckHalf.2) i = bit s.bitField (2048 + i) := by
  have hdiv : (2048 + i) / 64 = 32 + i / 64 := by omega
  have hmod : (2048 + i) % 64 = i % 64 := by omega
  rw [bit_ackField]
  by_cases h : i / 64 < 32
  · have h64 : (2048 + i) / 64 < 64 := by omega
    rw [bit_eq h64, buildAckHalf_getD s h]
    simp only [hdiv, hmod]
    simp [show i / 64 < 64 by omega]
  · have hlen := buildAckHalf_length_le s
    rw [getD_eq_getElem?_getD, getElem?_eq_none (by omega)]
    unfold bit
    rw [dif_neg (by omega)]
    simp

theorem bit_ackField_of_le {words : List UInt64} {i : Nat} (h : words.length * 64 ≤ i) :
    bit (ackField words) i = false := by
  rw [bit_ackField, getD_eq_getElem?_getD, getElem?_eq_none (by omega)]
  simp

variable {s : Slider} {as : List UInt64}

theorem buildAckHalf_start (h : s.Represents as) :
    s.buildAckHalf.1.toNat = windowStart as + 2048 := by
  have hw := highestWord_lt as
  show (s.startNum + 32 * 64).toNat = _
  rw [UInt64.toNat_add, h.start]
  simp only [windowStart, UInt64.reduceMul, UInt64.reduceToNat]
  omega

theorem bit_upperHalf (h : s.Represents as) {m : UInt64} (hm : windowStart as + 2048 ≤ m.toNat) :
    bit s.bitField (2048 + (m.toNat - (windowStart as + 2048))) = true ↔ m ∈ as := by
  have hidx : 2048 + (m.toNat - (windowStart as + 2048)) = m.toNat - windowStart as := by omega
  rw [hidx]
  by_cases hin : m.toNat - windowStart as < 4096
  · rw [h.bits _ hin]
    constructor
    · rintro ⟨a, ha, hai⟩
      have : a = m := UInt64.toNat_inj.mp (by omega)
      exact this ▸ ha
    · intro hmem
      exact ⟨m, hmem, by omega⟩
  · have hout : bit s.bitField (m.toNat - windowStart as) = false := by
      unfold bit
      rw [dif_neg (by omega)]
    rw [hout]
    refine ⟨fun hf => Bool.noConfusion hf, fun hmem => ?_⟩
    have := lt_windowEnd hmem
    omega

theorem buildAckHalf_eq_nil_iff (h : s.Represents as) :
    s.buildAckHalf.2 = [] ↔ ∀ a ∈ as, a.toNat < windowStart as + 2048 := by
  constructor
  · intro hnil a ha
    by_contra hge
    have hbit := (bit_upperHalf h (Nat.le_of_not_lt hge)).mpr ha
    rw [← bit_buildAckHalf, hnil, bit_ackField_of_le (by simp)] at hbit
    exact Bool.noConfusion hbit
  · intro hall
    by_contra hne
    have hcount : ackCount (s.bitField.toList.drop 32) 32 ≠ 0 := by
      intro h0
      apply hne
      simp [buildAckHalf, h0]
    have hle := ackCount_le (s.bitField.toList.drop 32) 32
    -- the last transmitted word has a bit set, and that bit is an accepted number
    obtain ⟨k, hk, hword⟩ : ∃ k, ∃ hk : k < 32, s.bitField[32 + k] ≠ 0 := by
      refine ⟨ackCount (s.bitField.toList.drop 32) 32 - 1, by omega, ?_⟩
      rw [← toList_drop_getD s (by omega)]
      exact getD_ackCount_ne_zero _ hcount
    obtain ⟨j, hj, hbit⟩ := exists_testBit_lt hword
    have hdiv : (64 * (32 + k) + j) / 64 = 32 + k := by omega
    have hmod : (64 * (32 + k) + j) % 64 = j := by omega
    have hset : bit s.bitField (64 * (32 + k) + j) = true := by
      rw [bit_eq (by omega)]
      simp only [hdiv, hmod]
      exact hbit
    obtain ⟨a, ha, hai⟩ := (h.bits _ (by omega)).mp hset
    have := hall a ha
    omega

/-! ## Reading a bitmap -/

variable {t : Slider}

theorem shiftRight_six_lt {m : UInt64} (hr : t.rCount ≤ 64)
    (hlim : (m - t.startNum).toNat < (max t.rCount 0).toNat * 64) :
    ((m - t.startNum) >>> 6).toNat < 64 := by
  rw [shiftRight_six]
  omega

theorem ackConfirmsMsg_isSome (hr : t.rCount ≤ 64) (m : UInt64) : (t.ackConfirmsMsg m).isSome := by
  unfold ackConfirmsMsg
  by_cases hlt : m < t.startNum
  · simp [hlt]
  · by_cases hlim : (max t.rCount 0).toNat * 64 ≤ (m - t.startNum).toNat
    · simp [hlt, hlim]
    · rw [if_neg hlt, if_neg hlim, dif_pos (shiftRight_six_lt hr (Nat.lt_of_not_le hlim))]
      rfl

/-- A bitmap whose bits end with its words answers with the bit of the message. -/
theorem ackConfirmsMsg_eq (hr0 : 0 ≤ t.rCount) (hr : t.rCount ≤ 64)
    (hzero : ∀ i, t.rCount.toNat * 64 ≤ i → bit t.bitField i = false) (m : UInt64) :
    t.ackConfirmsMsg m = some (decide (t.startNum.toNat ≤ m.toNat) &&
      bit t.bitField (m.toNat - t.startNum.toNat)) := by
  unfold ackConfirmsMsg
  by_cases hlt : m < t.startNum
  · have hn := UInt64.lt_iff_toNat_lt.mp hlt
    rw [if_pos hlt, decide_eq_false (by omega), Bool.false_and]
  · have hle : t.startNum ≤ m := by simpa using hlt
    have hn := UInt64.le_iff_toNat_le.mp hle
    have hsub := UInt64.toNat_sub_of_le _ _ hle
    rw [if_neg hlt, decide_eq_true hn, Bool.true_and]
    have hmax : max t.rCount 0 = t.rCount := by omega
    by_cases hlim : (max t.rCount 0).toNat * 64 ≤ (m - t.startNum).toNat
    · rw [hmax] at hlim
      simp only [hmax, if_pos hlim]
      rw [hzero _ (by rw [← hsub]; exact hlim)]
    · have hidx := shiftRight_six_lt hr (Nat.lt_of_not_le hlim)
      have hword : ((m - t.startNum) >>> 6).toNat = (m.toNat - t.startNum.toNat) / 64 := by
        rw [shiftRight_six, hsub]
      have hbit : ((m - t.startNum) &&& 63).toNat = (m.toNat - t.startNum.toNat) % 64 := by
        rw [UInt64.toNat_and, hsub]
        exact Nat.and_two_pow_sub_one_eq_mod _ 6
      simp only [if_neg hlim, dif_pos hidx]
      rw [bit_eq (by omega), some_inj, Bool.eq_iff_iff, bne_iff_ne,
        shiftRight_and_one_ne_zero _ _ (by omega), hbit]
      simp only [hword]

/-- A slider filled with the half of `s` confirms the accepted numbers of that
half and no others. -/
theorem ackConfirmsMsg_buildAckHalf (h : s.Represents as) (hstart : t.startNum = s.buildAckHalf.1)
    (hfield : t.bitField = ackField s.buildAckHalf.2)
    (hcount : t.rCount = s.buildAckHalf.2.length) (m : UInt64) :
    t.ackConfirmsMsg m = some (decide (m ∈ as ∧ windowStart as + 2048 ≤ m.toNat)) := by
  have hle := buildAckHalf_length_le s
  have hzero : ∀ i, t.rCount.toNat * 64 ≤ i → bit t.bitField i = false := by
    intro i hi
    rw [hfield]
    refine bit_ackField_of_le ?_
    rw [hcount] at hi
    exact hi
  rw [ackConfirmsMsg_eq (by omega) (by omega) hzero, hstart, hfield, bit_buildAckHalf,
    buildAckHalf_start h, some_inj, Bool.eq_iff_iff, Bool.and_eq_true, decide_eq_true_eq,
    decide_eq_true_eq]
  constructor
  · rintro ⟨hm, hbit⟩
    exact ⟨(bit_upperHalf h hm).mp hbit, hm⟩
  · rintro ⟨hmem, hm⟩
    exact ⟨hm, (bit_upperHalf h hm).mpr hmem⟩

end Slider

namespace SendLockState

theorem mapM_eq_some_map {α β : Type} {f : α → Option β} {g : α → β} :
    ∀ {l : List α}, (∀ x ∈ l, f x = some (g x)) → l.mapM f = some (l.map g)
  | [], _ => rfl
  | x :: xs, h => by
    rw [mapM_cons, h x mem_cons_self, mapM_eq_some_map fun y hy => h y (mem_cons_of_mem x hy)]
    rfl

theorem readAckWords_append (pre : Bytes) (ws : List UInt64) :
    readAckWords (pre ++ u64sBytes ws) pre.length ws.length = some ws := by
  unfold readAckWords
  rw [mapM_eq_some_map (g := fun i => ws.getD i 0)]
  · refine congrArg some (ext_getElem (by simp) fun i h1 h2 => ?_)
    simp [getD_eq_getElem?_getD, getElem?_eq_getElem h2]
  · intro i hi
    have hlt : i < ws.length := mem_range.mp hi
    rw [Nat.add_assoc, slice_append_right, Nat.mul_comm i 8, slice_u64sBytes hlt, map_some,
      readU64_u64Bytes, getD_eq_getElem?_getD, getElem?_eq_getElem hlt, getD_some]

theorem readAckWords_isSome {payload : Bytes} {offset count : Nat}
    (h : offset + count * 8 ≤ payload.length) :
    ∃ ws, readAckWords payload offset count = some ws := by
  refine ⟨_, mapM_eq_some_map
    (g := fun i => readU64 ((payload.drop (offset + i * 8)).take 8)) fun i hi => ?_⟩
  have hlt : i < count := mem_range.mp hi
  rw [slice_eq (by omega) (by omega), map_some, Nat.add_sub_cancel_left]

variable (lock : SendLockState)

theorem applyPingAckBitmap_eq {payload : Bytes} {offset : Nat}
    {start : Bytes} {words : List UInt64} (h : offset < payload.length ∧ pingSize ≤ offset)
    (hstart : slice payload 42 50 = some start)
    (hwords : readAckWords payload offset (min ((payload.length - offset) / 8) 64) = some words) :
    lock.applyPingAckBitmap payload offset = some { lock with tmpSlider := { lock.tmpSlider with
      bitField := ackField words
      startNum := readU64 start
      hasNewData := true
      rCount := (min ((payload.length - offset) / 8) 64 : Nat) } } := by
  unfold applyPingAckBitmap
  rw [if_pos h, hstart]
  show (readAckWords payload offset (min ((payload.length - offset) / 8) 64)).bind _ = _
  rw [hwords]
  rfl

theorem applyPingAckBitmap_append {pre start : Bytes} {ws : List UInt64}
    (hpre : 57 ≤ pre.length) (hpos : 0 < ws.length) (hle : ws.length ≤ 64)
    (hstart : slice (pre ++ u64sBytes ws) 42 50 = some start) :
    lock.applyPingAckBitmap (pre ++ u64sBytes ws) pre.length
      = some { lock with tmpSlider := { lock.tmpSlider with
          bitField := ackField ws
          startNum := readU64 start
          hasNewData := true
          rCount := ws.length } } := by
  have hlen : (pre ++ u64sBytes ws).length = pre.length + 8 * ws.length := by
    rw [length_append, u64sBytes_length]
  have hcount : min (((pre ++ u64sBytes ws).length - pre.length) / 8) 64 = ws.length := by
    omega
  have hread := readAckWords_append pre ws
  rw [applyPingAckBitmap_eq lock ⟨by omega, show 57 ≤ _ from hpre⟩ hstart (by rw [hcount, hread]),
    hcount]

/-- **No payload panics.** Whatever the payload and the offset, the bitmap is
parsed without a slice out of bounds, and it never holds more than 64 words. -/
theorem applyPingAckBitmap_some (payload : Bytes) (offset : Nat) :
    ∃ lock', lock.applyPingAckBitmap payload offset = some lock' ∧
      (lock.tmpSlider.rCount ≤ 64 → lock'.tmpSlider.rCount ≤ 64) := by
  by_cases h : offset < payload.length ∧ pingSize ≤ offset
  · have hsize : pingSize = 57 := rfl
    have hfit : offset + min ((payload.length - offset) / 8) 64 * 8 ≤ payload.length := by omega
    obtain ⟨ws, hws⟩ := readAckWords_isSome hfit
    refine ⟨_, applyPingAckBitmap_eq lock h (slice_eq (by omega) (by omega)) hws, fun _ => ?_⟩
    show ((min ((payload.length - offset) / 8) 64 : Nat) : Int) ≤ 64
    omega
  · exact ⟨lock, if_neg h, id⟩

theorem applyPingAckBitmap_total {lock : SendLockState} (hr : lock.tmpSlider.rCount ≤ 64)
    (payload : Bytes) (offset : Nat) :
    ∃ lock', lock.applyPingAckBitmap payload offset = some lock' ∧ lock'.tmpSlider.rCount ≤ 64 := by
  obtain ⟨lock', hlock, hle⟩ := applyPingAckBitmap_some lock payload offset
  exact ⟨lock', hlock, hle hr⟩

end SendLockState

/-! ## One Ping -/

/-- The Ping payload that `apply_ping_and_build_response` answers with: the
response record followed by the words of the ACK half. -/
def ackPing (ping : PingFrame) (now sent recv : UInt64) (session : UInt32)
    (telemetry : PingTelemetry) (slider : Slider) : Bytes :=
  ping.responseBytes now sent recv slider.buildAckHalf.1 session telemetry
    ++ u64sBytes slider.buildAckHalf.2

/-- The ACK part of receiving a Ping in `apply_ping_and_build_response`. -/
def receivePingAck (session : UInt32) (lock : SendLockState) (payload : Bytes) :
    Option SendLockState :=
  match PingFrame.read payload with
  | none => some lock
  | some frame =>
    if frame.ackSession = session then
      lock.applyPingAckBitmap payload frame.ackWordsOffset
    else some lock

theorem receivePingAck_isSome (session : UInt32) (lock : SendLockState) (payload : Bytes) :
    (receivePingAck session lock payload).isSome := by
  unfold receivePingAck
  split
  · rfl
  split
  · obtain ⟨lock', hlock, -⟩ := lock.applyPingAckBitmap_some payload _
    rw [hlock]
    rfl
  · rfl

section OnePing

variable (ping : PingFrame) (now sent recv : UInt64) (session : UInt32)
  (telemetry : PingTelemetry) {s : Slider} {as : List UInt64} (lock : SendLockState)

theorem receivePingAck_ackPing :
    receivePingAck session lock (ackPing ping now sent recv session telemetry s)
      = lock.applyPingAckBitmap (ackPing ping now sent recv session telemetry s)
          (PingFrame.ackWordsStart telemetry) := by
  obtain ⟨f, hread, hsession, hoffset⟩ := PingFrame.read_responseBytes ping now sent recv
    s.buildAckHalf.1 session telemetry (u64sBytes s.buildAckHalf.2)
  unfold receivePingAck ackPing
  rw [hread]
  simp only [hsession, hoffset, if_true]

theorem receivePingAck_of_empty (h : s.Represents as)
    (hempty : ∀ a ∈ as, a.toNat < windowStart as + 2048) :
    receivePingAck session lock (ackPing ping now sent recv session telemetry s) = some lock := by
  have hnil := (buildAckHalf_eq_nil_iff h).mpr hempty
  rw [receivePingAck_ackPing]
  refine if_neg fun hlt => ?_
  have hlen : (ackPing ping now sent recv session telemetry s).length
      = PingFrame.ackWordsStart telemetry := by
    simp [ackPing, hnil, PingFrame.responseBytes_length]
  omega

/-- A Ping with words confirms exactly the accepted numbers of the upper half,
whatever the bitmap held before. -/
theorem receivePingAck_of_nonempty (h : s.Represents as)
    (hne : ∃ a ∈ as, windowStart as + 2048 ≤ a.toNat) :
    ∃ lock', receivePingAck session lock (ackPing ping now sent recv session telemetry s)
        = some lock' ∧
      ∀ m, lock'.tmpSlider.ackConfirmsMsg m
        = some (decide (m ∈ as ∧ windowStart as + 2048 ≤ m.toNat)) := by
  have hwords : s.buildAckHalf.2 ≠ [] := by
    intro hnil
    obtain ⟨a, ha, hge⟩ := hne
    have := (buildAckHalf_eq_nil_iff h).mp hnil a ha
    omega
  have hpos := length_pos_iff.mpr hwords
  have hle := buildAckHalf_length_le s
  have hpre := PingFrame.responseBytes_length ping now sent recv s.buildAckHalf.1 session telemetry
  have hge : 57 ≤ PingFrame.ackWordsStart telemetry := by
    unfold PingFrame.ackWordsStart
    split <;> omega
  have happly := applyPingAckBitmap_append lock (by rw [hpre]; exact hge) hpos
    (by omega) (PingFrame.slice_ackStart ping now sent recv s.buildAckHalf.1 session telemetry
      (u64sBytes s.buildAckHalf.2))
  rw [receivePingAck_ackPing, ← hpre]
  exact ⟨_, happly, ackConfirmsMsg_buildAckHalf h (readU64_u64Bytes _) rfl rfl⟩

end OnePing

/-! ## The link

Pings are built whenever the peer asks for one and delivered in any order, any
number of times or never, while the slider goes on accepting numbers. -/

structure AckLink where
  slider : Slider
  log : List (UInt64 × Bool)
  wire : List Bytes
  lock : SendLockState

inductive AckAction
  /-- The receiving side judges a message number. -/
  | judge (num : UInt64)
  /-- It answers a Ping with its ACK half. -/
  | sendPing (ping : PingFrame) (now sent recv : UInt64) (telemetry : PingTelemetry)
  /-- The network delivers the `i`th Ping of all that were ever sent. -/
  | deliver (i : Nat)
  /-- The writer tick copies the bitmap. -/
  | writerTick

namespace AckLink

def init : AckLink := ⟨new, [], [], empty⟩

def step (session : UInt32) (l : AckLink) : AckAction → Option AckLink
  | .judge num => do
      let (ok, slider) ← l.slider.checkRevd num
      some { l with slider := slider, log := l.log ++ [(num, ok)] }
  | .sendPing ping now sent recv telemetry =>
    some { l with
      wire := l.wire ++ [ackPing ping now sent recv session telemetry l.slider] }
  | .deliver i =>
    match l.wire[i]? with
    | none => some l
    | some payload => (receivePingAck session l.lock payload).map fun lock =>
      { l with lock := lock }
  | .writerTick => some { l with lock := l.lock.copyTmpSlider.2 }

/-- The bitmap can be read and confirms accepted numbers only. -/
def Sound (t : Slider) (as : List UInt64) : Prop :=
  ∀ m, ∃ b, t.ackConfirmsMsg m = some b ∧ (b = true → m ∈ as)

/-- What holds of every link: the slider is the accepted numbers, every Ping on
the wire was built from an earlier set of them, and the bitmap is sound. -/
structure Inv (session : UInt32) (l : AckLink) : Prop where
  slider : l.slider.Represents (accepted l.log)
  wire : ∀ p ∈ l.wire, ∃ ping now sent recv telemetry s as,
    p = ackPing ping now sent recv session telemetry s ∧ s.Represents as ∧
      as ⊆ accepted l.log
  lock : Sound l.lock.tmpSlider (accepted l.log)

theorem Sound.mono {t : Slider} {as bs : List UInt64} (h : Sound t as) (hsub : as ⊆ bs) :
    Sound t bs := by
  intro m
  obtain ⟨b, hb, hmem⟩ := h m
  exact ⟨b, hb, fun ht => hsub (hmem ht)⟩

theorem sound_new (as : List UInt64) : Sound new as := by
  intro m
  refine ⟨false, ?_, fun h => Bool.noConfusion h⟩
  rw [ackConfirmsMsg_eq (t := new) (Int.le_refl 0) (by decide)
    fun i _ => bit_replicate_zero i]
  simp [new, bit_replicate_zero]

theorem receivePingAck_sound (session : UInt32) (ping : PingFrame) (now sent recv : UInt64)
    (telemetry : PingTelemetry) {s : Slider} {as bs : List UInt64} (h : s.Represents as)
    (hsub : as ⊆ bs) {lock : SendLockState} (hlock : Sound lock.tmpSlider bs) :
    ∃ lock', receivePingAck session lock (ackPing ping now sent recv session telemetry s)
      = some lock' ∧ Sound lock'.tmpSlider bs := by
  by_cases hne : ∃ a ∈ as, windowStart as + 2048 ≤ a.toNat
  · obtain ⟨lock', happly, hconf⟩ :=
      receivePingAck_of_nonempty ping now sent recv session telemetry lock h hne
    refine ⟨lock', happly, fun m => ⟨_, hconf m, fun ht => ?_⟩⟩
    exact hsub (of_decide_eq_true ht).1
  · refine ⟨lock, receivePingAck_of_empty ping now sent recv session telemetry lock h ?_, hlock⟩
    intro a ha
    by_contra hge
    exact hne ⟨a, ha, Nat.le_of_not_lt hge⟩

theorem init_inv (session : UInt32) : Inv session init where
  slider := represents_new
  wire := fun _ hp => absurd hp not_mem_nil
  lock := sound_new []

/-- One action of the link never panics and keeps the invariant. -/
theorem step_inv (session : UInt32) (l : AckLink) (a : AckAction) (h : Inv session l) :
    ∃ l', step session l a = some l' ∧ Inv session l' := by
  cases a with
  | judge num =>
    obtain ⟨ok, s', hstep, -, hrep⟩ := checkRevd_spec h.slider num
    have hsub : accepted l.log ⊆ accepted (l.log ++ [(num, ok)]) := by
      rw [accepted_snoc]
      exact subset_append_left _ _
    refine ⟨{ l with slider := s', log := l.log ++ [(num, ok)] },
      by simp [step, hstep], ?_, ?_, h.lock.mono hsub⟩
    · refine hrep.congr fun a => ?_
      rw [accepted_snoc]
      cases ok <;> simp [or_comm]
    · intro p hp
      obtain ⟨ping, now, sent, recv, telemetry, s, as, hpe, hs, has⟩ := h.wire p hp
      exact ⟨ping, now, sent, recv, telemetry, s, as, hpe, hs, fun x hx => hsub (has hx)⟩
  | sendPing ping now sent recv telemetry =>
    refine ⟨_, rfl, h.slider, ?_, h.lock⟩
    intro p hp
    rcases mem_append.mp hp with hp | hp
    · exact h.wire p hp
    · exact ⟨ping, now, sent, recv, telemetry, l.slider, accepted l.log,
        mem_singleton.mp hp, h.slider, List.Subset.refl _⟩
  | deliver i =>
    simp only [step]
    cases hi : l.wire[i]? with
    | none => exact ⟨l, rfl, h⟩
    | some payload =>
      obtain ⟨ping, now, sent, recv, telemetry, s, as, rfl, hs, has⟩ :=
        h.wire payload (mem_of_getElem? hi)
      obtain ⟨lock', happly, hsound⟩ :=
        receivePingAck_sound session ping now sent recv telemetry hs has h.lock
      refine ⟨{ l with lock := lock' }, ?_, h.slider, h.wire, hsound⟩
      simp only [happly, map_some]
  | writerTick =>
    -- only `has_new_data` changes, which reading a bitmap does not look at
    exact ⟨_, rfl, h.slider, h.wire, h.lock⟩

end AckLink

/-! ## The bitmap end to end -/

/-- **The ACK bitmap across the wire.** The ACK half of any reachable slider,
written into a Ping with or without memory record, parses on the other side.

If something was accepted in the upper half of the window, the parsed bitmap
confirms exactly the accepted numbers of the upper half, whatever was there
before. If nothing was, the Ping carries no words and leaves the old bitmap in
place, which is exact too if that bitmap is a fresh one. However Pings are
delayed, repeated and reordered, only accepted numbers are ever confirmed. No
sequence of payloads, well formed or not, leads to an index out of bounds. -/
theorem ack_bitmap_exact_unless_half_empty :
    (∀ (nums : List UInt64) (ping : PingFrame) (now sent recv : UInt64) (session : UInt32)
        (telemetry : PingTelemetry) (lock : SendLockState),
      ∃ s log f lock', new.feed nums = some (s, log) ∧
        PingFrame.read (ackPing ping now sent recv session telemetry s) = some f ∧
        f.ackSession = session ∧
        lock.applyPingAckBitmap (ackPing ping now sent recv session telemetry s)
          f.ackWordsOffset = some lock' ∧
        ((∃ a ∈ accepted log, s.startNum.toNat + 2048 ≤ a.toNat) ∨ lock.tmpSlider = new →
          ∀ m, lock'.tmpSlider.ackConfirmsMsg m
            = some (decide (m ∈ accepted log ∧ s.startNum.toNat + 2048 ≤ m.toNat))) ∧
        ((¬ ∃ a ∈ accepted log, s.startNum.toNat + 2048 ≤ a.toNat) → lock' = lock)) ∧
    (∀ (session : UInt32) (actions : List AckAction),
      ∃ l, Run.run (AckLink.step session) AckLink.init actions = some l ∧
        ∀ m, ∃ b, l.lock.tmpSlider.ackConfirmsMsg m = some b ∧ (b = true → m ∈ accepted l.log)) ∧
    ∀ payloads : List (Bytes × Nat),
      ∃ lock, Run.run (fun l p => applyPingAckBitmap l p.1 p.2)
          empty payloads = some lock ∧
        ∀ m, (lock.tmpSlider.ackConfirmsMsg m).isSome := by
  refine ⟨?_, ?_, ?_⟩
  · intro nums ping now sent recv session telemetry lock
    obtain ⟨s, log, hfeed, -, hrep, -⟩ := feed_spec nums
    obtain ⟨f, hread, hsession, hoffset⟩ := PingFrame.read_responseBytes ping now sent recv
      s.buildAckHalf.1 session telemetry (u64sBytes s.buildAckHalf.2)
    have hpair := receivePingAck_ackPing ping now sent recv session telemetry (s := s) lock
    refine ⟨s, log, ?_⟩
    simp only [hrep.start]
    by_cases hne : ∃ a ∈ accepted log, windowStart (accepted log) + 2048 ≤ a.toNat
    · obtain ⟨lock', happly, hconf⟩ :=
        receivePingAck_of_nonempty ping now sent recv session telemetry lock hrep hne
      refine ⟨f, lock', hfeed, hread, hsession, ?_, fun _ => hconf, fun h => absurd hne h⟩
      rw [hoffset, ← hpair, happly]
    · have hempty : ∀ a ∈ accepted log, a.toNat < windowStart (accepted log) + 2048 := by
        intro a ha
        by_contra hge
        exact hne ⟨a, ha, Nat.le_of_not_lt hge⟩
      refine ⟨f, lock, hfeed, hread, hsession, ?_, ?_, fun _ => rfl⟩
      · rw [hoffset, ← hpair,
          receivePingAck_of_empty ping now sent recv session telemetry lock hrep hempty]
      · rintro (h | hfresh) m
        · exact absurd h hne
        · obtain ⟨b, hb, hmem⟩ := AckLink.sound_new [] m
          rw [hfresh, hb, some_inj]
          cases b with
          | true => exact absurd (hmem rfl) not_mem_nil
          | false =>
            refine (decide_eq_false ?_).symm
            rintro ⟨hm, hge⟩
            exact hne ⟨m, hm, hge⟩
  · intro session actions
    obtain ⟨l, hrun, hinv⟩ := Run.run_total
      (fun l a h _ => AckLink.step_inv session l a h)
      (AckLink.init_inv session) (Run.along_of_forall (P := fun _ _ => True)
        (fun _ _ => trivial) AckLink.init actions)
    exact ⟨l, hrun, hinv.lock⟩
  · intro payloads
    obtain ⟨lock, hrun, hr⟩ := Run.run_total
      (I := fun l : SendLockState => l.tmpSlider.rCount ≤ 64)
      (fun l p h _ => applyPingAckBitmap_total h p.1 p.2)
      (show empty.tmpSlider.rCount ≤ 64 by decide)
      (Run.along_of_forall (P := fun _ _ => True) (fun _ _ => trivial) _ payloads)
    exact ⟨lock, hrun, ackConfirmsMsg_isSome hr⟩

/-- A Ping with every field zero and no memory record. -/
def idlePing (session : UInt32) (slider : Slider) : Bytes :=
  ackPing ⟨0, 0, 0, 0, 0, 0, 0, 0, 0, 0, none, 57⟩ 0 0 0 session ⟨0, 0, none⟩ slider

/-- **A Ping with an empty half does not clear the bitmap.** A slider answers a
Ping before it accepted anything and another one after it accepted 2048. If the
second answer overtakes the first, the bitmap read from the first still confirms
2048, which the slider it was built from had not accepted. -/
theorem empty_half_keeps_old_bitmap : new.feed [] = some (new, []) ∧ (do
      let (_, s) ← new.checkRevd 2048
      let lock ← receivePingAck 1 empty (idlePing 1 s)
      let lock' ← receivePingAck 1 lock (idlePing 1 new)
      lock'.tmpSlider.ackConfirmsMsg 2048) = some true := by
  decide +kernel

end MoonProto
