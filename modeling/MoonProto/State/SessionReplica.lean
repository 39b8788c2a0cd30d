import MoonProto.State.SessionProfits

/-!
# Session profits as a replica

The server of one session token numbers its session-profit states; a packet carries the
low 16 bits of its number, and either all values that are not zero or all that changed
since the number before. The client stores the last number and a readiness mark. While
the mark stands for the current token, every market the client knows has exactly the
value of the stored state, whatever was lost, repeated or overtaken, and every market it
does not know has none. That second half is what lets a market that is added later start
at zero.
-/

namespace MoonProto

open MarketsState List Option

variable {N F : Type}

/-! ## Runs -/

/-- The client's replica of the session profits: the market tables, the current server
token, and what the run has seen: the tokens used, the newest number delivered for the
current token, and the number of the last packet applied. -/
structure ProfitReplica (N F : Type) where
  markets : MarketsState N F
  token : UInt64
  used : List UInt64
  newest : Option Nat
  stored : Nat

inductive ProfitEvent (N F : Type)
  | packet (full : Bool) (number : Nat) (items : List (MarketSessionProfitItem F))
      (nowMs : Int64)
  | digest (sessionEpoch : Option UInt16) (nowMs : Int64)
  | tokenChanged (token : UInt64)
  | tables (input : MarketsInput N F)

namespace ProfitReplica

variable (env : MarketEnv N F) (srv : ProfitServer N F)

def start (copyMaxLeverage : Bool) (eps epsM : F) : ProfitReplica N F :=
  ⟨.new copyMaxLeverage eps epsM, 0, [0], none, 0⟩

/-- The newest number after a delivery. -/
def delivered (r : ProfitReplica N F) (number : Nat) : Option Nat :=
  some (max (r.newest.getD 0) number)

def step [DecidableEq N] (r : ProfitReplica N F) : ProfitEvent N F → Option (ProfitReplica N F)
  | .packet full number items nowMs => do
    let (markets, answer) ←
      r.markets.applySessionProfitState env ⟨UInt16.ofNat number, items⟩ full r.token
    match answer with
    | .ok none => return { r with markets := markets, newest := r.delivered number }
    | .ok (some _) =>
      return { r with markets := markets, newest := r.delivered number, stored := number }
    | .error _ =>
      return { r with
        markets := (markets.requestSessionProfits nowMs).1
        newest := r.delivered number }
  | .digest sessionEpoch nowMs =>
    some { r with markets := (r.markets.onSessionDigest sessionEpoch r.token nowMs).1 }
  | .tokenChanged token => some { r with token := token, used := token :: r.used, newest := none }
  | .tables input => (r.markets.step env input).map fun markets => { r with markets := markets }

/-- What the network and the server may do. A packet is one of the server of the current
token; it is late by less than 1000 numbers and, if the replica has a number of that
token, less than 60000 ahead of it; and the adopted name list is one of that server. A
new token was not used before. The market tables are kept coherent. -/
def Admitted [DecidableEq N] (r : ProfitReplica N F) : ProfitEvent N F → Prop
  | .packet full number items _ =>
    srv.Packet env.zero r.token full number items ∧
    (∀ newest, r.newest = some newest → newest < number + 1000) ∧
    (r.markets.sessionProfitServerToken = r.token → number < r.stored + 60000) ∧
    r.markets.CurrentFor srv r.token
  | .digest .. => True
  | .tokenChanged token => token ∉ r.used
  | .tables (.sessionProfits ..) => False
  | .tables input => r.markets.Adoptable env input

/-- The replica is marked ready for the current token. -/
def Ready (r : ProfitReplica N F) : Prop :=
  r.markets.sessionProfitReady = true ∧ r.markets.sessionProfitServerToken = r.token

/-- The invariant of every run. -/
structure Inv (r : ProfitReplica N F) : Prop where
  coherent : ∃ names, r.markets.Coherent names
  used : 0 ∈ r.used ∧ r.token ∈ r.used ∧ r.markets.sessionProfitServerToken ∈ r.used
  live : r.markets.sessionProfitReady = true → r.markets.sessionProfitServerToken ≠ 0
  epoch : r.markets.sessionProfitServerToken = r.token → r.token ≠ 0 →
    r.markets.lastSessionProfitEpoch = some (UInt16.ofNat r.stored) ∧
    ∃ newest, r.newest = some newest ∧ r.stored ≤ newest
  exact : r.Ready → r.markets.Profits env.zero (srv.states r.token r.stored)

variable {env srv} {r r' : ProfitReplica N F}

theorem inv_start (copyMaxLeverage : Bool) (eps epsM : F) :
    (start copyMaxLeverage eps epsM : ProfitReplica N F).Inv env srv := by
  refine ⟨⟨[], coherent_new copyMaxLeverage eps epsM⟩, by simp [start, MarketsState.new], ?_,
    fun _ hne => absurd rfl hne, ?_⟩
  · exact nofun
  · exact fun hready => (nomatch hready.1)

/-- Steps of the tables that leave the replica's own fields and every market's value. -/
theorem Inv.tables (h : r.Inv env srv) {markets : MarketsState N F}
    (hcoherent : ∃ names, markets.Coherent names) (hsession : r.markets.SameSession markets)
    (hprofits : ∀ S, r.markets.lastSessionProfitEpoch.isSome → r.markets.Profits env.zero S →
      markets.Profits env.zero S) :
    ({ r with markets := markets } : ProfitReplica N F).Inv env srv := by
  obtain ⟨hlast, htoken, hready⟩ := hsession
  refine ⟨hcoherent, ?_, ?_, ?_, ?_⟩
  · rw [htoken]
    exact h.used
  · rw [hready, htoken]
    exact h.live
  · rw [hlast, htoken]
    exact h.epoch
  · intro hr
    have hr' : r.Ready := by
      obtain ⟨hr₁, hr₂⟩ := hr
      exact ⟨hready ▸ hr₁, htoken ▸ hr₂⟩
    have hne : r.token ≠ 0 := hr'.2 ▸ h.live hr'.1
    obtain ⟨hsome, -⟩ := h.epoch hr'.2 hne
    exact hprofits _ (by rw [hsome]; rfl) (h.exact hr')

theorem Inv.repriced (h : r.Inv env srv) {markets : MarketsState N F}
    (hw : Repriced profitView r.markets markets)
    (hwn : Repriced Market.bnMarketName r.markets markets) :
    ({ r with markets := markets } : ProfitReplica N F).Inv env srv := by
  obtain ⟨names, hc⟩ := h.coherent
  refine h.tables ⟨names, hc.repriced hwn⟩ ?_ (fun S _ hp => hp.repriced hw)
  obtain ⟨needed, objects, rfl, -⟩ := hw
  exact ⟨rfl, rfl, rfl⟩

theorem Inv.requestTime (h : r.Inv env srv) (time : Int64) :
    ({ r with markets := { r.markets with sessionProfitRequestTime := time } } :
      ProfitReplica N F).Inv env srv := by
  obtain ⟨names, hc⟩ := h.coherent
  exact h.tables ⟨names, hc.lookup, hc.positions, hc.cold⟩ ⟨rfl, rfl, rfl⟩
    fun S _ hp => ⟨hp.known, hp.unknown⟩

theorem requestSessionProfits_state (s : MarketsState N F) (nowMs : Int64) :
    ∃ time, (s.requestSessionProfits nowMs).1 = { s with sessionProfitRequestTime := time } := by
  unfold requestSessionProfits
  split
  · exact ⟨s.sessionProfitRequestTime, rfl⟩
  · exact ⟨nowMs, rfl⟩

theorem Inv.request (h : r.Inv env srv) (nowMs : Int64) :
    ({ r with markets := (r.markets.requestSessionProfits nowMs).1 } : ProfitReplica N F).Inv
      env srv := by
  obtain ⟨time, heq⟩ := requestSessionProfits_state r.markets nowMs
  rw [heq]
  exact h.requestTime time

theorem Inv.deliver (h : r.Inv env srv) (number : Nat) :
    ({ r with newest := r.delivered number } : ProfitReplica N F).Inv env srv := by
  refine ⟨h.coherent, h.used, h.live, fun htoken hne => ?_, h.exact⟩
  obtain ⟨hlast, newest, hnewest, hle⟩ := h.epoch htoken hne
  refine ⟨hlast, max newest number, ?_, le_trans hle (le_max_left _ _)⟩
  show r.delivered number = _
  rw [delivered, hnewest, getD_some]

theorem Inv.packet [DecidableEq N] (h : r.Inv env srv) {full : Bool} {number : Nat}
    {items : List (MarketSessionProfitItem F)} {nowMs : Int64}
    (hok : r.Admitted env srv (.packet full number items nowMs)) :
    ∃ r', r.step env (.packet full number items nowMs) = some r' ∧ r'.Inv env srv := by
  obtain ⟨hpacket, hlate, hahead, hcurrent⟩ := hok
  obtain ⟨names, hc⟩ := h.coherent
  rcases applySessionProfitState_cases env hc ⟨UInt16.ofNat number, items⟩ full r.token with
    heq | heq | ⟨htoken, hsync, hvalid, hnext, markets, event, hrun, hw, heq⟩
  · refine ⟨{ r with newest := r.delivered number }, ?_, h.deliver number⟩
    rw [step, heq]
    rfl
  · -- refused: the mark is taken back and a full packet is asked for
    have hback : ({ r with markets := { r.markets with sessionProfitReady := false } } :
        ProfitReplica N F).Inv env srv :=
      ⟨⟨names, hc.lookup, hc.positions, hc.cold⟩, h.used, nofun, h.epoch,
        fun hready => (nomatch hready.1)⟩
    refine ⟨_, ?_, (hback.deliver number).request nowMs⟩
    rw [step, heq]
    rfl
  · refine ⟨{ r with
        markets := { markets with
          lastSessionProfitEpoch := some (UInt16.ofNat number)
          sessionProfitServerToken := r.token
          sessionProfitReady := true
          sessionProfitRequestTime := 0 }
        newest := r.delivered number
        stored := number }, ?_, ?_⟩
    · rw [step, heq]
      rfl
    have hc' := hc.rewrites hw
    have hbefore : ∀ before, full = false → number = before + 1 →
        r.markets.Profits env.zero (srv.states r.token before) := by
      intro before hinc hnumber
      obtain ⟨hsame, hready, hone⟩ := hnext hinc
      obtain ⟨hlast, newest, hnewest, hle⟩ := h.epoch hsame.symm htoken
      have hwindow := hlate newest hnewest
      have hstored := hahead hsame.symm
      rw [hlast, getD_some, ofNat_sub_eq_one (by omega) (by omega)] at hone
      have hbefore : before = r.stored := by omega
      rw [hbefore]
      exact h.exact ⟨hready, hsame.symm⟩
    have hprofits := profits_of_items env hc hsync hcurrent hvalid hpacket hbefore hrun hw
    refine ⟨⟨names, hc'.lookup, hc'.positions, hc'.cold⟩, ⟨h.used.1, h.used.2.1, h.used.2.1⟩,
      fun _ => htoken, fun _ _ => ⟨rfl, _, rfl, le_max_right _ _⟩, fun _ => ?_⟩
    exact ⟨hprofits.known, hprofits.unknown⟩

theorem Inv.step [DecidableEq N] (h : r.Inv env srv) {event : ProfitEvent N F}
    (hok : r.Admitted env srv event) :
    ∃ r', r.step env event = some r' ∧ r'.Inv env srv := by
  obtain ⟨names, hc⟩ := h.coherent
  match event, hok with
  | .packet full number items nowMs, hok => exact h.packet hok
  | .digest sessionEpoch nowMs, _ =>
    refine ⟨_, rfl, ?_⟩
    unfold onSessionDigest
    split
    · exact h.request nowMs
    · exact h
  | .tokenChanged token, hfresh =>
    -- the token the replica belongs to was used before, so it is not the new one
    have hother : r.markets.sessionProfitServerToken ≠ token :=
      fun heq => hfresh (heq ▸ h.used.2.2)
    refine ⟨_, rfl, h.coherent, ?_, h.live, fun heq => absurd heq hother,
      fun hready => absurd hready.2 hother⟩
    exact ⟨mem_cons_of_mem _ h.used.1, mem_cons_self, mem_cons_of_mem _ h.used.2.2⟩
  | .tables (.marketsList data ver shiftDays), hok =>
    obtain ⟨hsession, -⟩ := applyMarketsListPayload_profits (S := fun _ => env.zero) env hc hok
    exact ⟨_, rfl, h.tables (applyMarketsListPayload_coherent env hc hok).1 hsession
      fun S => (applyMarketsListPayload_profits env hc hok).2⟩
  | .tables (.marketsIndexes newNames), hok =>
    exact ⟨_, rfl, h.tables ⟨names, hc.lookup, rfl, hok⟩ ⟨rfl, rfl, rfl⟩
      fun S _ hp => ⟨hp.known, hp.unknown⟩⟩
  | .tables (.marketsPrices data shiftDays), _ =>
    exact ⟨_, rfl, h.repriced
      (applyMarketsPricesPayload_repriced env (fun _ _ _ _ => rfl) (fun _ => rfl) _ data shiftDays)
      (applyMarketsPricesPayload_repriced env (fun _ _ _ _ => rfl) (fun _ => rfl) _ data shiftDays)⟩
  | .tables .indexesStale, _ =>
    exact ⟨_, rfl, h.tables ⟨names, hc.lookup, hc.positions, hc.cold⟩ ⟨rfl, rfl, rfl⟩
      fun S _ hp => ⟨hp.known, hp.unknown⟩⟩
  | .tables (.balance upd), _ =>
    exact ⟨_, rfl, h.repriced
      (applyBalanceUpdate_rewrites env (fun _ _ _ _ => rfl) (fun _ => rfl) _ upd).repriced
      (applyBalanceUpdate_rewrites env (fun _ _ _ _ => rfl) (fun _ => rfl) _ upd).repriced⟩
  | .tables .newWorld, _ =>
    obtain ⟨objects, hclear, hsame⟩ := r.markets.clearSessionProfitsForNewWorld_rewrites
    refine ⟨_, rfl, ?_⟩
    show ({ r with markets := r.markets.clearSessionProfitsForNewWorld } :
      ProfitReplica N F).Inv env srv
    rw [hclear]
    exact ⟨⟨names, hc.lookup.congr_names hsame, hc.positions, hc.cold⟩,
      ⟨h.used.1, h.used.2.1, h.used.1⟩, nofun,
      fun hzero hne => absurd hzero.symm hne, fun hready => (nomatch hready.1)⟩

end ProfitReplica

/-- What holds of the replica in every state of a run. -/
structure ProfitReplica.Sound (env : MarketEnv N F) (srv : ProfitServer N F)
    (r : ProfitReplica N F) : Prop where
  /-- While the replica is marked ready for the current token, every known market has its
  value in the state of the stored number. -/
  exact : r.Ready → r.markets.lastSessionProfitEpoch = some (UInt16.ofNat r.stored) ∧
    ∀ p m, r.markets.marketAt p = some m →
      m.sessionProfit = some (srv.states r.token r.stored m.bnMarketName)
  /-- A packet that is refused or ignored changes no market. -/
  unchanged : ∀ upd full markets answer,
    r.markets.applySessionProfitState env upd full r.token = some (markets, answer) →
    (∀ event, answer ≠ .ok (some event)) →
    markets.markets = r.markets.markets ∧ markets.objects = r.markets.objects
  /-- A digest with a number in the same window asks for a full packet exactly when the
  replica is not ready for the current token or behind, unless one was asked for less than
  five seconds ago. -/
  digest : r.markets.indexesSynchronized = true → ∀ number nowMs,
    (r.Ready → r.stored < number + 1000 ∧ number < r.stored + 60000) →
    ((r.markets.onSessionDigest (some (UInt16.ofNat number)) r.token nowMs).2 = true ↔
      (¬ r.Ready ∨ r.stored < number) ∧ ¬ (r.markets.sessionProfitRequestTime ≠ 0 ∧
        (nowMs.toInt - r.markets.sessionProfitRequestTime.toInt).natAbs < 5000))

namespace ProfitReplica

variable {env : MarketEnv N F} {srv : ProfitServer N F} {r : ProfitReplica N F}

theorem Inv.unchanged (h : r.Inv env srv) {upd : MarketSessionProfitUpdate F} {full : Bool}
    {markets : MarketsState N F} {answer : Except Unit (Option BalanceEvent)}
    (hrun : r.markets.applySessionProfitState env upd full r.token = some (markets, answer))
    (hnot : ∀ event, answer ≠ .ok (some event)) :
    markets.markets = r.markets.markets ∧ markets.objects = r.markets.objects := by
  obtain ⟨names, hc⟩ := h.coherent
  rcases applySessionProfitState_cases env hc upd full r.token with
    heq | heq | ⟨-, -, -, -, _, event, -, -, heq⟩
  · rw [heq] at hrun
    cases hrun
    exact ⟨rfl, rfl⟩
  · rw [heq] at hrun
    cases hrun
    exact ⟨rfl, rfl⟩
  · rw [heq] at hrun
    cases hrun
    exact absurd rfl (hnot event)

/-- Within the window a digest finds the replica behind exactly when its number is newer. -/
theorem Inv.needSnapshot_iff (h : r.Inv env srv) (hsync : r.markets.indexesSynchronized = true)
    {number : Nat}
    (hwindow : r.Ready → r.stored < number + 1000 ∧ number < r.stored + 60000) :
    r.markets.sessionProfitsNeedSnapshot (UInt16.ofNat number) r.token = true ↔
      ¬ r.Ready ∨ r.stored < number := by
  unfold sessionProfitsNeedSnapshot
  rw [hsync, Bool.true_and]
  by_cases hr : r.Ready
  · obtain ⟨hlate, hahead⟩ := hwindow hr
    obtain ⟨hready, htoken⟩ := hr
    obtain ⟨hlast, -⟩ := h.epoch htoken (htoken ▸ h.live hready)
    rw [hlast, getD_some, epochIsOk_ofNat (by omega) (by omega)]
    simp [hready, htoken, Ready]
  · refine iff_of_true ?_ (.inl hr)
    by_contra hno
    simp only [Bool.or_eq_true, Bool.not_eq_true', bne_iff_ne, ne_eq, not_or, Bool.not_eq_false,
      not_not] at hno
    exact hr hno.1

theorem Inv.sound (h : r.Inv env srv) : r.Sound env srv := by
  refine ⟨fun hready => ?_, fun _ _ _ _ => h.unchanged, fun hsync number nowMs hwindow => ?_⟩
  · obtain ⟨hlast, -⟩ := h.epoch hready.2 (hready.2 ▸ h.live hready.1)
    refine ⟨hlast, fun p m hm => ?_⟩
    obtain ⟨handle, hhandle, hm⟩ := bind_eq_some_iff.mp hm
    exact (h.exact hready).known handle (mem_of_getElem? hhandle) m hm
  · rw [← h.needSnapshot_iff hsync hwindow, onSessionDigest, any_some]
    split
    · rename_i hneed
      rw [iff_true_intro hneed, true_and, requestSessionProfits]
      split
      · rename_i hrecent
        exact iff_of_false Bool.false_ne_true (not_not.mpr hrecent)
      · rename_i hdue
        exact iff_of_true rfl hdue
    · rename_i hneed
      exact iff_of_false Bool.false_ne_true fun hboth => hneed hboth.1

end ProfitReplica

/-- **The session-profit replica is exact while it is ready**: in every run, whatever
packets were lost, repeated or overtaken, and however the tables and the token changed in
between, the values of the known markets are those of the stored number, refused and
ignored packets change no market, and a digest asks for what is missing. -/
theorem session_profits_exact [DecidableEq N] (env : MarketEnv N F) (srv : ProfitServer N F)
    (copyMaxLeverage : Bool) (eps epsM : F) (events : List (ProfitEvent N F))
    (hok : Run.Along (ProfitReplica.step env) (ProfitReplica.Admitted env srv)
      (.start copyMaxLeverage eps epsM) events) :
    ∃ r, Run.run (ProfitReplica.step env) (.start copyMaxLeverage eps epsM) events = some r ∧
      r.Sound env srv := by
  obtain ⟨r, hrun, h⟩ := Run.run_total (I := fun r : ProfitReplica N F => r.Inv env srv)
    (fun r event h hok => h.step hok)
    (ProfitReplica.inv_start copyMaxLeverage eps epsM) hok
  exact ⟨r, hrun, h.sound⟩

/-! ## One market across the wrap -/

namespace ProfitSample

/-- One market at index 0, whose value in the state of a number is that number. -/
def srv : ProfitServer Bytes ℚ where
  states _ number n := if n = [65] then (number : ℚ) else 0
  meaning _ i := if i = 0 then some [65] else none

theorem packet (token : UInt64) (full : Bool) (before : Nat) :
    srv.Packet 0 token full (before + 1) [⟨0, ((before + 1 : Nat) : ℚ)⟩] := by
  have hmention : ∀ n, n = ([65] : Bytes) →
      srv.Mentions token [(⟨0, ((before + 1 : Nat) : ℚ)⟩ : MarketSessionProfitItem ℚ)] n := by
    rintro n rfl
    exact ⟨_, List.mem_singleton.mpr rfl, rfl⟩
  refine ⟨fun item hitem => ?_, ?_⟩
  · rw [List.mem_singleton.mp hitem]
    exact ⟨[65], rfl, rfl⟩
  · cases full with
    | true =>
      intro n hne
      exact hmention n (by by_contra hn; exact hne (if_neg hn))
    | false =>
      refine ⟨before, rfl, fun n hne => hmention n ?_⟩
      by_contra hn
      exact hne ((if_neg hn).trans (if_neg hn).symm)

def events : List (ProfitEvent Bytes ℚ) :=
  [.tokenChanged 7, .tables (MarketSample.list [MarketSample.row 65 0]),
    .packet true 65535 [⟨0, (65535 : Nat)⟩] 0, .packet false 65536 [⟨0, (65536 : Nat)⟩] 0]

theorem currentFor (token : UInt64) {s : MarketsState Bytes ℚ} (hs : s.marketIndexes = [[65]]) :
    s.CurrentFor srv token := by
  intro _ i n hn
  rw [hs, getElem?_singleton] at hn
  split at hn
  · rename_i hi
    have hzero : i = 0 := by
      rw [← UInt16.toNat_inj]
      exact hi
    rw [hzero, ← hn]
    rfl
  · cases hn

/-- The run over the first events. -/
def runFirst (count : Nat) : Option (ProfitReplica Bytes ℚ) :=
  Run.run (ProfitReplica.step MarketSample.env) (.start false 0 0) (events.take count)

theorem admitted_list {r : ProfitReplica Bytes ℚ} (hr : r.markets = .new false 0 0) :
    r.Admitted MarketSample.env srv (.tables (MarketSample.list [MarketSample.row 65 0])) := by
  have hok : MarketsState.Adoptable MarketSample.env (.new false 0 0)
    (MarketSample.list [MarketSample.row 65 0]) := by decide +kernel
  rw [← hr] at hok
  exact hok

theorem admitted_full {r : ProfitReplica Bytes ℚ} (hr : runFirst 2 = some r) :
    r.Admitted MarketSample.env srv (.packet true 65535 [⟨0, (65535 : Nat)⟩] 0) := by
  have hview : (runFirst 2).any (fun r => r.newest == none &&
      r.markets.sessionProfitServerToken != r.token &&
      r.markets.marketIndexes == [[65]]) = true := by decide +kernel
  simp only [hr, any_some, Bool.and_eq_true, beq_iff_eq, bne_iff_ne] at hview
  obtain ⟨⟨hnewest, hserver⟩, hindexes⟩ := hview
  refine ⟨packet r.token true 65534, ?_, fun heq => absurd heq hserver, currentFor _ hindexes⟩
  rw [hnewest]
  exact nofun

theorem admitted_next {r : ProfitReplica Bytes ℚ} (hr : runFirst 3 = some r) :
    r.Admitted MarketSample.env srv (.packet false 65536 [⟨0, (65536 : Nat)⟩] 0) := by
  have hview : (runFirst 3).any (fun r => r.newest == some 65535 && r.stored == 65535 &&
      r.markets.marketIndexes == [[65]]) = true := by decide +kernel
  simp only [hr, any_some, Bool.and_eq_true, beq_iff_eq] at hview
  obtain ⟨⟨hnewest, hstored⟩, hindexes⟩ := hview
  refine ⟨packet r.token false 65535, ?_, ?_, currentFor _ hindexes⟩
  · rw [hnewest]
    rintro newest ⟨⟩
    decide
  · rw [hstored]
    exact fun _ => by decide

end ProfitSample

open ProfitSample in
/-- A full packet with number 65535 and the next one, whose epoch is 0. -/
theorem session_profits_exact_sample :
    (∃ r, Run.run (ProfitReplica.step MarketSample.env) (.start false 0 0) events = some r ∧
      r.Sound MarketSample.env srv) ∧
    (Run.run (ProfitReplica.step MarketSample.env) (.start false 0 0) events).map
      (fun r => (r.markets.sessionProfitReady, r.markets.sessionProfitServerToken,
        r.markets.lastSessionProfitEpoch, (r.markets.marketAt 0).map (·.sessionProfit))) =
      some (true, 7, some 0, some (some 65536)) := by
  refine ⟨session_profits_exact MarketSample.env srv false 0 0 events ?_, by decide +kernel⟩
  have htoken : (7 : UInt64) ∉ [(0 : UInt64)] := by decide
  refine ⟨htoken, fun r₁ h₁ => ⟨?_, fun r₂ h₂ => ⟨admitted_full ?_, fun r₃ h₃ =>
    ⟨admitted_next ?_, fun _ _ => trivial⟩⟩⟩⟩
  · have hr : r₁.markets = .new false 0 0 := by
      rw [← some_inj.mp h₁]
      rfl
    exact admitted_list hr
  · simp only [runFirst, events, List.take, Run.run]
    rw [h₁, bind_some, h₂]
    rfl
  · simp only [runFirst, events, List.take, Run.run]
    rw [h₁, bind_some, h₂, bind_some, h₃]
    rfl

end MoonProto
