import Mathlib
import MoonProto.Lib.Run

/-!
# Clock synchronisation

The sync thread of `ntp.rs`: a first measurement of up to four SNTP requests,
then one round every half second, of which two in a thousand measure again. Two
delays guard what is applied. `best_delay_ms` is the bar inside a measurement
and is raised by every call; `min_delay_ms` is the bar of the loop and is
raised every thousand rounds. Both are `i64` and start from a sentinel, 0 and
`i64::MAX`.

The offsets are opaque. What the float code does to a delay is a parameter.
-/

namespace MoonProto

open Option

/-- `i64::MAX`. -/
def i64Max : Int := 9223372036854775807

/-- The sum of two `i64` that are not negative; `none` where it overflows. -/
def i64Add (a b : Int) : Option Int := if a + b ≤ i64Max then some (a + b) else none

theorem i64Add_eq_some {a b : Int} (h : a + b ≤ i64Max) : i64Add a b = some (a + b) := if_pos h

namespace Ntp

variable {O : Type*}

/-- The answer to an SNTP request, its round trip rounded to milliseconds. -/
structure Answer (O : Type*) where
  offset : O
  roundTripMs : Fin 2001

/-- `(delay as f64 * factor) as i64`, for a factor above one. -/
structure Scaling where
  scale : Int → Int
  le_scale : ∀ d, 0 ≤ d → d ≤ i64Max → d ≤ scale d
  scale_zero : scale 0 = 0

/-- The float code: the two scalings and the test for an offset above a minute. -/
structure FloatCode (O : Type*) where
  times105 : Scaling
  times110 : Scaling
  isLarge : O → Bool

structure NtpState where
  bestDelayMs : Int
  receiveTimeoutMs : Nat
  syncedOnce : Bool

def NtpState.default : NtpState := ⟨0, 500, false⟩

/-- What a measurement returns: the accepted answer, the state, and (for the
statements below) every answer that arrived. -/
structure Measured (O : Type*) where
  result : Option (Answer O)
  state : NtpState
  arrived : List (Answer O)

/-- An answer that arrived and was not taken. -/
def Measured.passed (m : Measured O) (a : Answer O) : Measured O :=
  { m with arrived := a :: m.arrived }

/-- The loop of `get_best_ntp_with_state`; `request` is asked for attempt after attempt. -/
def requestLoop (isLarge : O → Bool) (request : Nat → Option (Answer O)) (forceSync : Bool)
    (state : NtpState) (attempts effectiveTryCount largeOffsetRetryCount : Nat) : Measured O :=
  if attempts < effectiveTryCount then
    match request attempts with
    | none =>
      requestLoop isLarge request forceSync state (attempts + 1) effectiveTryCount
        largeOffsetRetryCount
    | some a =>
      if a.roundTripMs.val < 50 ∨ forceSync ∨ (a.roundTripMs.val : Int) < state.bestDelayMs then
        if isLarge a.offset ∧ state.syncedOnce ∧ largeOffsetRetryCount < 2 then
          (requestLoop isLarge request forceSync state (attempts + 1)
            (min 6 (effectiveTryCount + 1)) (largeOffsetRetryCount + 1)).passed a
        else
          ⟨some a, { state with bestDelayMs := a.roundTripMs.val, syncedOnce := true }, [a]⟩
      else
        (requestLoop isLarge request forceSync state (attempts + 1) effectiveTryCount
          largeOffsetRetryCount).passed a
  else if state.syncedOnce then ⟨none, state, []⟩
  else ⟨none, { state with receiveTimeoutMs := min (state.receiveTimeoutMs + 100) 2000 }, []⟩
termination_by (2 - largeOffsetRetryCount) + (effectiveTryCount - attempts)

def getBestNtpWithState (fl : FloatCode O) (state : NtpState) (tryCount : Nat)
    (request : Nat → Option (Answer O)) : Option (Measured O) :=
  (i64Add (fl.times105.scale state.bestDelayMs) 1).map fun best =>
    requestLoop fl.isLarge request (state.bestDelayMs == 0) { state with bestDelayMs := best } 0
      tryCount 0

/-- The variables of the sync thread, the offsets it has applied and the answers
that have arrived. -/
structure SyncThread (O : Type*) where
  ntpState : NtpState
  minDelayMs : Int
  tryCount : Nat
  applied : List O
  arrived : List (Answer O)

namespace SyncThread

/-- `spawn_sync_thread` up to its loop. -/
def start (fl : FloatCode O) (request : Nat → Option (Answer O)) : Option (SyncThread O) :=
  (getBestNtpWithState fl .default 4 request).map fun first => {
    ntpState := first.state
    minDelayMs := first.result.elim i64Max (·.roundTripMs.val)
    tryCount := 1
    applied := first.result.toList.map Answer.offset
    arrived := first.arrived }

/-- A new round begins; every thousandth raises the bar. -/
def countRound (fl : FloatCode O) (s : SyncThread O) : Option (SyncThread O) :=
  if 1000 < s.tryCount + 1 then
    (i64Add (fl.times110.scale s.minDelayMs) 10).map fun d =>
      { s with tryCount := 2, minDelayMs := d }
  else some { s with tryCount := s.tryCount + 1 }

/-- The accepted answer of a measurement is applied if it is below the bar. -/
def adopt (s : SyncThread O) (m : Measured O) : SyncThread O :=
  let s := { s with ntpState := m.state, arrived := s.arrived ++ m.arrived }
  match m.result with
  | none => s
  | some a =>
    if (a.roundTripMs.val : Int) < s.minDelayMs then
      { s with minDelayMs := a.roundTripMs.val, applied := s.applied ++ [a.offset] }
    else s

/-- One round of the loop, with the outcomes of the requests it makes. -/
def round (fl : FloatCode O) (s : SyncThread O) (request : Nat → Option (Answer O)) :
    Option (SyncThread O) :=
  (s.countRound fl).bind fun s =>
    if s.tryCount < 4 then (getBestNtpWithState fl s.ntpState 2 request).map s.adopt else some s

end SyncThread

/-! ## The first answer -/

/-- No answer was passed over: the accepted one is all that arrived. -/
structure Measured.TakesFirst (m : Measured O) : Prop where
  arrived : m.arrived = m.result.toList
  fresh : m.result = none → m.state.syncedOnce = false

/-- Attempt `k` brings the first answer. -/
def IsFirst (request : Nat → Option (Answer O)) (k : Nat) (a : Answer O) : Prop :=
  request k = some a ∧ ∀ j < k, request j = none

/-- While nothing was accepted, a measurement takes the first answer, if that passes
one of the bars. -/
theorem requestLoop_takesFirst {isLarge : O → Bool} {request : Nat → Option (Answer O)}
    {forceSync : Bool} {state : NtpState} (hnew : state.syncedOnce = false)
    (hquick : ∀ k a, IsFirst request k a →
      a.roundTripMs.val < 50 ∨ forceSync ∨ (a.roundTripMs.val : Int) < state.bestDelayMs)
    (attempts tries retries : Nat) (hbefore : ∀ j < attempts, request j = none) :
    (requestLoop isLarge request forceSync state attempts tries retries).TakesFirst := by
  induction attempts, tries, retries using requestLoop.induct isLarge request forceSync state with
  | case1 attempts tries retries hlt hnone ih =>
    rw [requestLoop, if_pos hlt, hnone]
    refine ih fun j hj => ?_
    rcases Nat.lt_succ_iff_lt_or_eq.mp hj with hj | rfl
    · exact hbefore j hj
    · exact hnone
  | case2 attempts tries retries hlt a hsome hbar hlarge =>
    exact absurd hlarge.2.1 (by simp [hnew])
  | case3 attempts tries retries hlt a hsome hbar hlarge =>
    rw [requestLoop, if_pos hlt, hsome]
    simp only [if_pos hbar, if_neg hlarge]
    exact ⟨rfl, nofun⟩
  | case4 attempts tries retries hlt a hsome hbar =>
    exact absurd (hquick attempts a ⟨hsome, hbefore⟩) hbar
  | case5 attempts tries retries hlt hsynced => exact absurd hsynced (by simp [hnew])
  | case6 attempts tries retries hlt hsynced =>
    rw [requestLoop, if_neg hlt, if_neg hsynced]
    exact ⟨rfl, fun _ => hnew⟩

theorem getBestNtpWithState_eq {fl : FloatCode O} {state : NtpState}
    (h : fl.times105.scale state.bestDelayMs + 1 ≤ i64Max) (tryCount : Nat)
    (request : Nat → Option (Answer O)) :
    ∃ m, getBestNtpWithState fl state tryCount request = some m ∧ (state.syncedOnce = false →
      (∀ k a, IsFirst request k a → a.roundTripMs.val < 50 ∨ state.bestDelayMs = 0 ∨
        (a.roundTripMs.val : Int) ≤ fl.times105.scale state.bestDelayMs) → m.TakesFirst) := by
  rw [getBestNtpWithState, i64Add_eq_some h]
  refine ⟨_, rfl, fun hnew hquick => ?_⟩
  refine requestLoop_takesFirst ?_ (fun k a hk => ?_) _ _ _ nofun
  · exact hnew
  · simpa only [beq_iff_eq, Int.lt_add_one_iff] using hquick k a hk

namespace SyncThread

/-- The offset applied first is that of the first answer; before it, the thread
is as it was started. -/
structure FirstApplied (s : SyncThread O) : Prop where
  first : s.applied.head? = s.arrived.head?.map Answer.offset
  fresh : s.applied = [] → s.minDelayMs = i64Max ∧ s.ntpState.syncedOnce = false

/-- The condition on a round, from the state before it and its answers: raising a
delay does not overflow, and while nothing was applied the first answer of a round
that measures is below 50 ms or not above the raised best delay. -/
structure Timely (fl : FloatCode O) (s : SyncThread O) (request : Nat → Option (Answer O)) :
    Prop where
  widens : 1000 ≤ s.tryCount → fl.times110.scale s.minDelayMs + 10 ≤ i64Max
  calls : s.tryCount < 3 ∨ 1000 ≤ s.tryCount →
    fl.times105.scale s.ntpState.bestDelayMs + 1 ≤ i64Max
  quick : s.applied = [] → s.tryCount < 3 ∨ 1000 ≤ s.tryCount → ∀ k a, IsFirst request k a →
    a.roundTripMs.val < 50 ∨ (a.roundTripMs.val : Int) ≤ fl.times105.scale s.ntpState.bestDelayMs

/-- A measurement that takes the first answer applies it; later ones do not
change what was applied first. -/
theorem FirstApplied.adopt {s : SyncThread O} (h : s.FirstApplied) {m : Measured O}
    (hm : s.applied = [] → m.TakesFirst) : (s.adopt m).FirstApplied := by
  have hfirst := h.first
  cases happlied : s.applied with
  | nil =>
    obtain ⟨hmin, -⟩ := h.fresh happlied
    obtain ⟨harrived, hfresh⟩ := hm happlied
    have hnone : s.arrived = [] := by simpa [happlied] using hfirst.symm
    cases hresult : m.result with
    | none => exact ⟨by simp [SyncThread.adopt, *], fun _ => by simp [SyncThread.adopt, *]⟩
    | some a =>
      have hlt : (a.roundTripMs.val : Int) < i64Max :=
        (Int.ofNat_lt.mpr a.roundTripMs.isLt).trans (by decide)
      exact ⟨by simp [SyncThread.adopt, *], fun hnil => by simp [SyncThread.adopt, *] at hnil⟩
  | cons o os =>
    rw [happlied] at hfirst
    obtain ⟨a, harrived, ho⟩ := map_eq_some_iff.mp hfirst.symm
    obtain ⟨as, has⟩ := List.head?_eq_some_iff.mp harrived
    simp only [SyncThread.adopt]
    split
    · exact ⟨by simp [happlied, has, ho], by simp [happlied]⟩
    split
    · exact ⟨by simp [happlied, has, ho], by simp⟩
    · exact ⟨by simp [happlied, has, ho], by simp [happlied]⟩

theorem start_firstApplied (fl : FloatCode O) (request : Nat → Option (Answer O)) :
    ∃ s, start fl request = some s ∧ s.FirstApplied := by
  have hzero : fl.times105.scale NtpState.default.bestDelayMs + 1 ≤ i64Max := by
    rw [show NtpState.default.bestDelayMs = 0 from rfl, fl.times105.scale_zero]
    decide
  obtain ⟨m, hm, hfirst⟩ := getBestNtpWithState_eq hzero 4 request
  obtain ⟨harrived, hfresh⟩ := hfirst rfl fun _ _ _ => .inr (.inl rfl)
  rw [start, hm]
  refine ⟨_, rfl, ?_, fun hnil => ?_⟩
  · cases hresult : m.result <;> simp [hresult, harrived]
  · have hnone : m.result = none := by simpa using hnil
    exact ⟨by simp [hnone], hfresh hnone⟩

/-- **One round.** -/
theorem round_firstApplied {fl : FloatCode O} {s : SyncThread O}
    {request : Nat → Option (Answer O)} (h : s.FirstApplied) (ht : s.Timely fl request) :
    ∃ s', s.round fl request = some s' ∧ s'.FirstApplied := by
  obtain ⟨s₁, hcount, hs₁, hstate, happlied, hcalls⟩ : ∃ s₁, s.countRound fl = some s₁ ∧
      s₁.FirstApplied ∧ s₁.ntpState = s.ntpState ∧ s₁.applied = s.applied ∧
      (s₁.tryCount < 4 → s.tryCount < 3 ∨ 1000 ≤ s.tryCount) := by
    unfold countRound
    split
    · next hlast =>
      have hle : 1000 ≤ s.tryCount := Nat.lt_succ_iff.mp hlast
      have hwide := ht.widens hle
      rw [i64Add_eq_some hwide]
      refine ⟨_, rfl, ⟨h.first, fun hnil => ?_⟩, rfl, rfl, fun _ => .inr hle⟩
      -- a bar of `i64::MAX` cannot be raised
      have hscale := fl.times110.le_scale i64Max (by decide) le_rfl
      rw [(h.fresh hnil).1] at hwide
      omega
    · exact ⟨_, rfl, ⟨h.first, h.fresh⟩, rfl, rfl, fun hlt => .inl (Nat.lt_of_succ_lt_succ hlt)⟩
  rw [round, hcount, bind_some]
  split
  · next hlt =>
    obtain ⟨m, hm, hfirst⟩ := getBestNtpWithState_eq (ht.calls (hcalls hlt)) 2 request
    rw [hstate, hm]
    refine ⟨_, rfl, hs₁.adopt fun hnil => ?_⟩
    rw [happlied] at hnil
    refine hfirst (h.fresh hnil).2 fun k a hk => ?_
    exact (ht.quick hnil (hcalls hlt) k a hk).imp_right .inr
  · exact ⟨_, rfl, hs₁⟩

/-- **A failed start is made up for.** The thread always starts, and through
every sequence of rounds that meet the condition no delay overflows, and the
first answer that arrived, in whatever call, is the first whose offset was
applied. -/
theorem clock_sync_recovers (fl : FloatCode O) (first : Nat → Option (Answer O))
    (rounds : List (Nat → Option (Answer O))) :
    ∃ s₀, start fl first = some s₀ ∧ (Run.Along (round fl) (Timely fl) s₀ rounds →
      ∃ s, Run.run (round fl) s₀ rounds = some s ∧
        s.applied.head? = s.arrived.head?.map Answer.offset) := by
  obtain ⟨s₀, hstart, h₀⟩ := start_firstApplied fl first
  refine ⟨s₀, hstart, fun halong => ?_⟩
  obtain ⟨s, hrun, hs⟩ := Run.run_total (fun _ _ => round_firstApplied) h₀ halong
  exact ⟨s, hrun, hs.first⟩

/-- Scaling by an integer approximation from above. -/
def sampleScaling : Scaling where
  scale d := d + d / 20
  le_scale _ h _ := Int.le_add_of_nonneg_right (Int.ediv_nonneg h (by decide))
  scale_zero := rfl

def sampleFloats : FloatCode Nat := ⟨sampleScaling, sampleScaling, fun o => decide (60 < o)⟩

/-- The thread after a first call without an answer. -/
def unanswered : SyncThread Nat := ⟨⟨1, 600, false⟩, i64Max, 1, [], []⟩

theorem start_unanswered : start sampleFloats (fun _ => none) = some unanswered := by
  simp [start, getBestNtpWithState, requestLoop, i64Add, NtpState.default, sampleFloats,
    sampleScaling, unanswered, i64Max]

/-- **A failed start is not made up for**: after a first call without an answer,
an answer of 120 ms is refused, and the bar of the loop is still `i64::MAX`, so
raising it in the thousandth round overflows. -/
theorem first_answer_refused : start sampleFloats (fun _ => none) = some unanswered ∧
    ((unanswered.round sampleFloats fun _ => some ⟨7, 120⟩).map fun s =>
      (s.arrived.map Answer.offset, s.applied)) = some ([7, 7], []) ∧
    ({ unanswered with tryCount := 1000 }.round sampleFloats fun _ => none).isNone := by
  refine ⟨start_unanswered, ?_, by decide⟩
  simp [round, countRound, adopt, getBestNtpWithState, requestLoop, i64Add, sampleFloats,
    sampleScaling, unanswered, i64Max, Measured.passed]

theorem clock_sync_recovers_late : ∃ s₀, start sampleFloats (fun _ => none) = some s₀ ∧
    ∃ s, Run.run (round sampleFloats) s₀ [fun _ => some ⟨7, 30⟩] = some s ∧
      s.applied.head? = s.arrived.head?.map Answer.offset := by
  obtain ⟨s₀, hstart, h⟩ := clock_sync_recovers sampleFloats (fun _ => none) [fun _ => some ⟨7, 30⟩]
  refine ⟨s₀, hstart, h ?_⟩
  rw [start_unanswered] at hstart
  cases hstart
  refine ⟨⟨fun h => ?_, fun _ => by decide, fun _ _ _ a ha => ?_⟩, fun _ _ => trivial⟩
  · exact absurd h (by decide)
  · cases ha.1
    exact .inl (by decide)

end SyncThread

end Ntp

end MoonProto
