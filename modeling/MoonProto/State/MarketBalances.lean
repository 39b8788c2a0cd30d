import MoonProto.State.Markets

/-!
# Balances and session profits of the markets

What balance commands write into the market objects: balance and position rows, gated
market by market by a 16-bit epoch, the account totals beside them, and the session
profits, which form one replica with a readiness flag, a last epoch and the token of
the server process it belongs to.
-/

namespace MoonProto

/-- Forward progress of a 16-bit epoch: neither a duplicate nor up to 1000 steps back. -/
def epochIsOk (last new : UInt16) : Bool :=
  if last = new then false else decide (1000 < last - new)

/-- Epochs are the low 16 bits of a running number. Within 1000 numbers back and 64535
ahead the test is the order of the numbers. -/
theorem epochIsOk_ofNat {last new : Nat} (hlate : last ≤ new + 1000) (hahead : new < last + 64536) :
    epochIsOk (UInt16.ofNat last) (UInt16.ofNat new) = decide (last < new) := by
  unfold epochIsOk
  have hsub : (UInt16.ofNat last - UInt16.ofNat new).toNat =
      (65536 - new % 65536 + last % 65536) % 65536 := by
    rw [UInt16.toNat_sub, UInt16.toNat_ofNat', UInt16.toNat_ofNat']
  have heq : UInt16.ofNat last = UInt16.ofNat new ↔ last % 65536 = new % 65536 := by
    rw [← UInt16.toNat_inj, UInt16.toNat_ofNat', UInt16.toNat_ofNat']
  have hgt : (1000 : UInt16) < UInt16.ofNat last - UInt16.ofNat new ↔
      1000 < (65536 - new % 65536 + last % 65536) % 65536 := by
    rw [UInt16.lt_iff_toNat_lt, hsub]
    rfl
  by_cases hsame : UInt16.ofNat last = UInt16.ofNat new
  · rw [if_pos hsame]
    have := heq.mp hsame
    exact (decide_eq_false (by omega)).symm
  · rw [if_neg hsame, decide_eq_decide, hgt]
    have := mt heq.mpr hsame
    omega

/-- The next epoch is that of the next number. -/
theorem ofNat_sub_eq_one {last new : Nat} (hlate : last ≤ new + 1000)
    (hahead : new < last + 64536) :
    UInt16.ofNat new - UInt16.ofNat last = 1 ↔ new = last + 1 := by
  rw [← UInt16.toNat_inj, UInt16.toNat_sub, UInt16.toNat_ofNat', UInt16.toNat_ofNat']
  show (65536 - last % 65536 + new % 65536) % 65536 = 1 ↔ _
  omega

structure BalanceItem (N F : Type) where
  marketName : N
  position : BalancePosition F
  maxValue : F

structure BalanceUpdate (N F : Type) where
  cmdId : UInt8
  epoch : UInt16
  globalChanged : Bool
  btcBalanceTotal : F
  btcBalanceLocked : F
  btcBalanceFull : F
  specialCoinBalance : F
  items : List (BalanceItem N F)

structure MarketSessionProfitItem (F : Type) where
  marketIndex : UInt16
  sessionProfit : F

structure MarketSessionProfitUpdate (F : Type) where
  epoch : UInt16
  items : List (MarketSessionProfitItem F)

inductive BalanceEvent
  | snapshotApplied (count : Nat)
  | incrementalApplied (count : Nat) (globalChanged : Bool)
  | sessionProfitsApplied (nonzeroCount : Nat)
  | sessionProfitsUpdated (count : Nat)
deriving DecidableEq

namespace MarketsState

variable {N F : Type} (env : MarketEnv N F)

/-! ## Session profits -/

/-- The writes of a packet's rows. `none` is the panic of an index that was validated
and has no market. -/
def applySessionProfitItems (s : MarketsState N F) :
    List (MarketSessionProfitItem F) → Option (MarketsState N F)
  | [] => some s
  | item :: items => do
    let handle ← s.marketByIndex item.marketIndex
    (s.withMut handle fun m => { m with sessionProfit := some item.sessionProfit })
      |>.applySessionProfitItems items

/-- A packet of the current server token. The answer is an event, nothing, or `error` when
a snapshot has to be asked for. -/
def applySessionProfitState (s : MarketsState N F) (upd : MarketSessionProfitUpdate F)
    (full : Bool) (serverToken : UInt64) :
    Option (MarketsState N F × Except Unit (Option BalanceEvent)) :=
  if serverToken = 0 ∨ s.indexesSynchronized = false then some (s, .ok none)
  else
    let sameServer := serverToken == s.sessionProfitServerToken
    let last := s.lastSessionProfitEpoch.getD 0
    if sameServer && ((upd.epoch != last && !epochIsOk last upd.epoch) ||
        (upd.epoch == last && (s.sessionProfitReady || !full))) then
      some (s, .ok none)
    else if (!full && (!sameServer || !s.sessionProfitReady || upd.epoch - last != 1)) ||
        upd.items.any (fun item => !s.hasServerMarketIndex item.marketIndex) then
      some ({ s with sessionProfitReady := false }, .error ())
    else do
      let s :=
        if full then s.forEachMarket fun m => { m with sessionProfit := some env.zero } else s
      let s ← s.applySessionProfitItems upd.items
      return ({ s with
          lastSessionProfitEpoch := some upd.epoch
          sessionProfitServerToken := serverToken
          sessionProfitReady := true
          sessionProfitRequestTime := 0 },
        .ok (some (if full then .sessionProfitsApplied upd.items.length
          else .sessionProfitsUpdated upd.items.length)))

def sessionProfitsNeedSnapshot (s : MarketsState N F) (epoch : UInt16)
    (serverToken : UInt64) : Bool :=
  s.indexesSynchronized && (!s.sessionProfitReady || s.sessionProfitServerToken != serverToken ||
    epochIsOk (s.lastSessionProfitEpoch.getD 0) epoch)

/-- A request for a full packet, at most one in five seconds by either direction of the clock. -/
def requestSessionProfits (s : MarketsState N F) (nowMs : Int64) : MarketsState N F × Bool :=
  if s.sessionProfitRequestTime ≠ 0 ∧
      (nowMs.toInt - s.sessionProfitRequestTime.toInt).natAbs < 5000 then (s, false)
  else ({ s with sessionProfitRequestTime := nowMs }, true)

/-- The session part of a balance digest: a request is sent when the replica is behind. -/
def onSessionDigest (s : MarketsState N F) (sessionEpoch : Option UInt16) (serverToken : UInt64)
    (nowMs : Int64) : MarketsState N F × Bool :=
  if sessionEpoch.any fun epoch => s.sessionProfitsNeedSnapshot epoch serverToken then
    s.requestSessionProfits nowMs
  else (s, false)

def clearSessionProfitsForNewWorld (s : MarketsState N F) : MarketsState N F :=
  { s with
    lastSessionProfitEpoch := none
    sessionProfitServerToken := 0
    sessionProfitReady := false
    sessionProfitRequestTime := 0 }.forEachMarket fun m => { m with sessionProfit := none }

/-! ## Balance rows -/

def applyBalanceItem (item : BalanceItem N F) (epoch : UInt16) (eps : F) (m : Market N F) :
    Market N F :=
  { m with
    position := item.position
    bnMaxValue := if env.f64.lt eps item.maxValue then item.maxValue else m.bnMaxValue
    lastBalanceEpoch := epoch }

def resetMissingBalance (m : Market N F) : Market N F :=
  { m with position := BalancePosition.missing env.zero }

/-- The rows of a full snapshot that name a known market, with their number. -/
def applySnapshotItems (upd : BalanceUpdate N F) (s : MarketsState N F) :
    List (BalanceItem N F) → MarketsState N F × Nat
  | [] => (s, 0)
  | item :: items =>
    match s.handlesByName item.marketName with
    | none => applySnapshotItems upd s items
    | some handle =>
      let s := s.withMut handle (applyBalanceItem env item upd.epoch s.eps)
      let (s, count) := applySnapshotItems upd s items
      (s, count + 1)

/-- The names of a snapshot's rows that are known. -/
def seenNames (s : MarketsState N F) (upd : BalanceUpdate N F) : List N :=
  (upd.items.map (·.marketName)).filter fun name => (s.handlesByName name).isSome

/-- The name a handle was made with. -/
def handleName (s : MarketsState N F) (handle : MarketHandle) : Option N :=
  (s.objects[handle]?).map (·.bnMarketName)

def applyBalanceSnapshot [DecidableEq N] (s : MarketsState N F) (upd : BalanceUpdate N F) :
    MarketsState N F × BalanceEvent :=
  let seen := s.seenNames upd
  let (s, count) := applySnapshotItems env upd s upd.items
  let s := s.markets.foldl (fun s handle =>
    if ∃ name ∈ seen, s.handleName handle = some name then s
    else s.withMut handle (resetMissingBalance env)) s
  (s, .snapshotApplied count)

/-- The rows of an incremental update, each gated by its market's own epoch. -/
def applyIncrementItems (upd : BalanceUpdate N F) (s : MarketsState N F) :
    List (BalanceItem N F) → MarketsState N F × Nat
  | [] => (s, 0)
  | item :: items =>
    match s.handlesByName item.marketName with
    | none => applyIncrementItems upd s items
    | some handle =>
      if (s.objects[handle]?).any fun m => epochIsOk m.lastBalanceEpoch upd.epoch then
        let s := s.withMut handle (applyBalanceItem env item upd.epoch s.eps)
        let (s, count) := applyIncrementItems upd s items
        (s, count + 1)
      else applyIncrementItems upd s items

def applyBalanceIncrement (s : MarketsState N F) (upd : BalanceUpdate N F) :
    MarketsState N F × BalanceEvent :=
  let (s, count) := applyIncrementItems env upd s upd.items
  (s, .incrementalApplied count upd.globalChanged)

/-- Full snapshots and incremental updates; other balance commands change nothing. -/
def applyBalanceUpdate [DecidableEq N] (s : MarketsState N F) (upd : BalanceUpdate N F) :
    MarketsState N F × Option BalanceEvent :=
  if upd.cmdId = 3 then
    let (s, ev) := s.applyBalanceSnapshot env upd
    (s, some ev)
  else if upd.cmdId = 4 then
    let (s, ev) := s.applyBalanceIncrement env upd
    (s, some ev)
  else (s, none)

end MarketsState

/-! ## Account totals -/

structure GlobalBalance (F : Type) where
  btcBalanceTotal : F
  btcBalanceLocked : F
  btcBalanceFull : F
  specialCoinBalance : F
deriving DecidableEq

structure BalancesState (F : Type) where
  global : GlobalBalance F
  lastEpoch : UInt16

variable {N F : Type}

/-- The totals a balance update carries. -/
def BalanceUpdate.totals (upd : BalanceUpdate N F) : GlobalBalance F :=
  ⟨upd.btcBalanceTotal, upd.btcBalanceLocked, upd.btcBalanceFull, upd.specialCoinBalance⟩

/-- The totals after a balance update: a full one always sets them, an incremental one if
it says that they changed. -/
def BalancesState.applyGlobal (b : BalancesState F) (upd : BalanceUpdate N F) : BalancesState F :=
  if upd.cmdId = 3 ∨ upd.cmdId = 4 then
    let setBtc := upd.cmdId == 3 || upd.globalChanged
    { global := if setBtc then upd.totals else b.global
      lastEpoch :=
        if upd.cmdId == 3 || epochIsOk b.lastEpoch upd.epoch then upd.epoch else b.lastEpoch }
  else b

/-- The markets and the account totals, which a balance command updates in this order. -/
structure Account (N F : Type) where
  markets : MarketsState N F
  balances : BalancesState F

def Account.clientNewDataBalance [DecidableEq N] (env : MarketEnv N F) (a : Account N F)
    (upd : BalanceUpdate N F) : Account N F :=
  match a.markets.applyBalanceUpdate env upd with
  | (markets, some _) => ⟨markets, a.balances.applyGlobal upd⟩
  | (markets, none) => { a with markets := markets }

end MoonProto
