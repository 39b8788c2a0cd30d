import MoonProto.Commands.Market

/-!
# The market tables

The client's markets and the tables that find them: by name, by handle, and by the
index the server's streams carry. A market object is shared: the market vector and the
handle table hold handles of it, and a write through a handle is seen by both. The model
keeps the objects in one list and a handle is a position in that list.

A list payload is applied while it is read. A known market is written at once; a new one
enters the name table at once, but the market vector and the handle table only after the
last row, so that a row that cannot be read leaves the two apart.
-/

namespace MoonProto

open Codec EngineStreamReader

/-- The position of a shared market object among all objects made. -/
abbrev MarketHandle := Nat

structure MarketsState (N F : Type) where
  objects : List (Market N F)
  markets : List MarketHandle
  byName : N → Option Nat
  handlesByName : N → Option MarketHandle
  marketIndexes : List N
  serverMarketPositions : List (Option Nat)
  indexesSynchronized : Bool
  marketsListRefreshNeeded : Bool
  copyMaxLeverageFromMarketsList : Bool
  eps : F
  epsM : F
  lastSessionProfitEpoch : Option UInt16
  sessionProfitServerToken : UInt64
  sessionProfitReady : Bool
  sessionProfitRequestTime : Int64

inductive MarketsEvent
  | marketsListReplaced (count corrCount : Nat)
  | indexesUpdated (count : Nat)
  | pricesUpdated (count : Nat) (includedFunding includedCorr : Bool)
deriving DecidableEq

namespace MarketsState

variable {N F : Type}

/-- No market and no name list; the configured thresholds are given. -/
def new (copyMaxLeverage : Bool) (eps epsM : F) : MarketsState N F where
  objects := []
  markets := []
  byName := fun _ => none
  handlesByName := fun _ => none
  marketIndexes := []
  serverMarketPositions := []
  indexesSynchronized := false
  marketsListRefreshNeeded := false
  copyMaxLeverageFromMarketsList := copyMaxLeverage
  eps := eps
  epsM := epsM
  lastSessionProfitEpoch := none
  sessionProfitServerToken := 0
  sessionProfitReady := false
  sessionProfitRequestTime := 0

/-- `handle.with_mut(f)`. -/
def withMut (s : MarketsState N F) (handle : MarketHandle) (f : Market N F → Market N F) :
    MarketsState N F :=
  { s with objects := s.objects.modify handle f }

/-- `for handle in self.markets.iter() { handle.with_mut(f) }`. -/
def forEachMarket (s : MarketsState N F) (f : Market N F → Market N F) : MarketsState N F :=
  s.markets.foldl (fun s handle => s.withMut handle f) s

/-! ## Server indexes -/

def rebuildServerMarketPositions (s : MarketsState N F) : MarketsState N F :=
  { s with serverMarketPositions := s.marketIndexes.map s.byName }

def replaceMarketIndexesCow (s : MarketsState N F) (names : List N) : MarketsState N F :=
  { s with marketIndexes := names }.rebuildServerMarketPositions

def applyMarketsIndexes (s : MarketsState N F) (names : List N) : MarketsState N F × MarketsEvent :=
  ({ s.replaceMarketIndexesCow names with indexesSynchronized := true },
    .indexesUpdated names.length)

def markIndexesStale (s : MarketsState N F) : MarketsState N F :=
  { s with indexesSynchronized := false }

def hasServerMarketIndex (s : MarketsState N F) (mIndex : UInt16) : Bool :=
  s.indexesSynchronized && (s.serverMarketPositions[mIndex.toNat]?).join.isSome

def localPosForServerIndex (s : MarketsState N F) (mIndex : UInt16) : Option Nat :=
  if s.indexesSynchronized then (s.serverMarketPositions[mIndex.toNat]?).join
  else if s.marketIndexes.isEmpty && decide (mIndex.toNat < s.markets.length) then
    -- before the first name list, markets stand in the order of the server
    some mIndex.toNat
  else none

def priceRowPointsToMissingMarket (s : MarketsState N F) (mIndex : UInt16) : Bool :=
  if s.indexesSynchronized then !s.hasServerMarketIndex mIndex
  else s.marketIndexes.isEmpty && decide (s.markets.length ≤ mIndex.toNat)

def marketByIndex (s : MarketsState N F) (mIndex : UInt16) : Option MarketHandle :=
  if s.indexesSynchronized then (s.localPosForServerIndex mIndex).bind (s.markets[·]?)
  else none

end MarketsState

/-! ## Market lists -/

section lists

variable {N F : Type} [DecidableEq N] (env : MarketEnv N F)

def mergeMarketFromList (dst src : Market N F) (copyMaxLeverage : Bool) (eps : F) : Market N F :=
  { dst with
    bnTickSize := src.bnTickSize
    bnStepSize := src.bnStepSize
    bnMinPrice := src.bnMinPrice
    bnMaxPrice := src.bnMaxPrice
    bnMinQty := src.bnMinQty
    bnMaxQty := src.bnMaxQty
    bnMinNotional := src.bnMinNotional
    bnMaxValue := if env.f64.lt eps src.bnMaxValue then src.bnMaxValue else dst.bnMaxValue
    bnIcebergParts := src.bnIcebergParts
    bnIceberg := src.bnIceberg
    bnMultiplierDown := src.bnMultiplierDown
    bnMultiplierUp := src.bnMultiplierUp
    bnPricePrecision := src.bnPricePrecision
    bnQuantityPrecision := src.bnQuantityPrecision
    statusTrading := src.statusTrading
    bnOnlyIsolated := src.bnOnlyIsolated
    bnMarginTableId := src.bnMarginTableId
    bidMultiplierUp := src.bidMultiplierUp
    bidMultiplierDown := src.bidMultiplierDown
    askMultiplierUp := src.askMultiplierUp
    askMultiplierDown := src.askMultiplierDown
    maxLeverage := if copyMaxLeverage then src.maxLeverage else dst.maxLeverage
    fundingTime := src.fundingTime
    volume := src.volume }

/-- A known market after a list row for it. -/
def mergeListRow (copyMaxLeverage : Bool) (eps : F) (row existing : Market N F) : Market N F :=
  let merged := mergeMarketFromList env existing row copyMaxLeverage eps
  { merged with price := { merged.price with fundingTime := row.fundingTime } }

def seedPriceFundingFromMarket (m : Market N F) : Market N F :=
  { m with price := { m.price with fundingRate := m.fundingRate, fundingTime := m.fundingTime } }

/-- The object made for a row of an unknown market. While session profits are kept, a market
that they do not mention has none. -/
def newListMarket (lastSessionProfitEpoch : Option UInt16) (row : Market N F) : Market N F :=
  seedPriceFundingFromMarket
    (if lastSessionProfitEpoch.isSome then { row with sessionProfit := some env.zero } else row)

/-- The state while the rows of one payload are applied: the tables, the market vector
and handle table to be published after the last row, and the names read. -/
structure ListBatch (N F : Type) where
  state : MarketsState N F
  pendingMarkets : Option (List MarketHandle)
  pendingHandlesByName : Option (N → Option MarketHandle)
  incomingServerNames : List N

namespace ListBatch

def start (s : MarketsState N F) : ListBatch N F := ⟨s, none, none, []⟩

/-- The merge of a row into the market its name was found for. -/
def mergeInto (b : ListBatch N F) (handle : MarketHandle) (market : Market N F) : ListBatch N F :=
  { b with
    state := b.state.withMut handle
      (mergeListRow env b.state.copyMaxLeverageFromMarketsList b.state.eps market) }

/-- A new market: its object and its name enter the tables, its handle the pending ones. -/
def addNew (b : ListBatch N F) (market : Market N F) : ListBatch N F :=
  let name := market.bnMarketName
  let handle := b.state.objects.length
  let markets := b.pendingMarkets.getD b.state.markets
  let idx := markets.length
  let handlesByName := b.pendingHandlesByName.getD b.state.handlesByName
  { b with
    state := { b.state with
      objects := b.state.objects ++ [newListMarket env b.state.lastSessionProfitEpoch market]
      byName := Function.update b.state.byName name (some idx) }
    pendingMarkets := some (markets ++ [handle])
    pendingHandlesByName := some (Function.update handlesByName name (some handle)) }

def applyOneMarketFromListPayloadBatch (allowNewMarkets : Bool) (b : ListBatch N F)
    (market : Market N F) : ListBatch N F :=
  match b.state.byName market.bnMarketName with
  | some idx =>
    match (b.state.markets[idx]?).or (b.pendingMarkets.bind (·[idx]?)) with
    | some handle => b.mergeInto env handle market
    | none => b
  | none => if allowNewMarkets then b.addNew env market else b

/-- One row of the read loop: its name is noted when the index list is rebuilt. -/
def applyRow (allowNewMarkets rebuildServerIndexes : Bool) (b : ListBatch N F)
    (market : Market N F) : ListBatch N F :=
  let b :=
    if rebuildServerIndexes then
      { b with incomingServerNames := b.incomingServerNames ++ [market.bnMarketName] }
    else b
  b.applyOneMarketFromListPayloadBatch env allowNewMarkets market

/-- The read loop over `count` rows, with what is unread after the last one, or `none`
when a row could not be read. -/
def applyRows (ver : UInt16) (shiftDays : F) (allowNewMarkets rebuildServerIndexes : Bool) :
    Nat → Bytes → ListBatch N F → ListBatch N F × Option Bytes
  | 0, r, b => (b, some r)
  | count + 1, r, b =>
    match readMarket env ver shiftDays r with
    | none => (b, none)
    | some (market, r) =>
      applyRows ver shiftDays allowNewMarkets rebuildServerIndexes count r
        (b.applyRow env allowNewMarkets rebuildServerIndexes market)

/-- The market vector and the handle table after the last row. -/
def publish (b : ListBatch N F) : MarketsState N F :=
  match b.pendingMarkets with
  | some markets =>
    { b.state with
      markets := markets
      handlesByName := b.pendingHandlesByName.getD b.state.handlesByName }
  | none => b.state

end ListBatch

/-- `count` reads of one kind of row whose values are not kept. -/
def skipRows (row : StreamRead Unit) : Nat → StreamRead Unit
  | 0 => return
  | count + 1 => do
    row
    skipRows row count

namespace MarketsState

def allowNewMarkets (s : MarketsState N F) : Bool :=
  s.markets.isEmpty || s.marketsListRefreshNeeded

def rebuildsServerIndexes (s : MarketsState N F) : Bool :=
  s.allowNewMarkets || !s.indexesSynchronized

/-- The second part of a list payload, after all its market rows. -/
def finishMarketsList (s : MarketsState N F) (r : Bytes) : MarketsState N F × Option MarketsEvent :=
  let corrRows : StreamRead Nat := do
    let corrCount ← readCountBounded corrMarketMinWireSize maxMarketsListRows
    skipRows (readCorrMarket env) corrCount
    return corrCount
  match corrRows r with
  | none => (s, none)
  | some (corrCount, _) =>
    ({ s with marketsListRefreshNeeded := false },
      some (.marketsListReplaced s.markets.length corrCount))

def applyMarketsListPayload (s : MarketsState N F) (data : Bytes) (ver : UInt16)
    (shiftDays : F) : MarketsState N F × Option MarketsEvent :=
  let allowNewMarkets := s.allowNewMarkets
  let rebuildServerIndexes := s.rebuildsServerIndexes
  match readCountBounded marketMinWireSize maxMarketsListRows data with
  | none => (s, none)
  | some (count, r) =>
    match (ListBatch.start s).applyRows env ver shiftDays allowNewMarkets
        rebuildServerIndexes count r with
    | (b, none) => (b.state, none)
    | (b, some r) =>
      let s := b.publish
      let s :=
        if rebuildServerIndexes then
          { s.replaceMarketIndexesCow b.incomingServerNames with indexesSynchronized := true }
        else s
      s.finishMarketsList env r

/-! ## Prices -/

/-- A price row written into its market. -/
def priceRow (p : MarketPriceUpdate F) (sendFunding : Bool) (epsM : F) (m : Market N F) :
    Market N F :=
  let f := env.f64
  let pLast := f.mul (f.add p.bid p.ask) (f.lit 5 1)
  { m with
    fundingRate := if sendFunding then p.fundingRate else m.fundingRate
    fundingTime := if sendFunding then p.fundingTime else m.fundingTime
    price :=
      { bid := p.bid
        ask := p.ask
        lastBid := p.bid
        lastAsk := p.ask
        pLast := pLast
        minLotSize := f.max (f.mul (f.max m.bnStepSize m.bnMinQty) pLast) m.bnMinNotional
        chartPriceStep :=
          if f.lt epsM p.ask then f.max epsM (f.div p.ask (f.ofInt 5000))
          else m.price.chartPriceStep
        fundingRate := if sendFunding then p.fundingRate else m.price.fundingRate
        fundingTime := if sendFunding then p.fundingTime else m.price.fundingTime
        markPrice := p.markPrice
        markPriceFound := p.markPriceFound } }

def applyOneMarketPriceUpdate (sendFunding : Bool) (s : MarketsState N F)
    (p : MarketPriceUpdate F) : MarketsState N F :=
  match s.localPosForServerIndex p.mIndex with
  | some idx =>
    match s.markets[idx]? with
    | some handle => s.withMut handle (priceRow env p sendFunding s.epsM)
    | none => s
  | none =>
    if s.priceRowPointsToMissingMarket p.mIndex then { s with marketsListRefreshNeeded := true }
    else s

/-- The read loop over `count` price rows. -/
def applyPriceRows (sendFunding : Bool) (shiftDays : F) :
    Nat → Bytes → MarketsState N F → MarketsState N F × Option Bytes
  | 0, r, s => (s, some r)
  | count + 1, r, s =>
    match readMarketPriceUpdate env sendFunding shiftDays r with
    | none => (s, none)
    | some (update, r) =>
      applyPriceRows sendFunding shiftDays count r
        (s.applyOneMarketPriceUpdate env sendFunding update)

/-- The second part of a price payload: whether it carries further rows, and those rows. -/
def readCorrPrices : StreamRead Bool := do
  let sendCorrMarkets ← readBool
  if sendCorrMarkets then
    let corrCount ← readCountBounded corrPriceRowMinSize (2 ^ 64 - 1)
    skipRows (readCorrPriceUpdate env) corrCount
  return sendCorrMarkets

def applyMarketsPricesPayload (s : MarketsState N F) (data : Bytes) (shiftDays : F) :
    MarketsState N F × Option MarketsEvent :=
  let s := s.forEachMarket fun m => { m with price := { m.price with markPriceFound := false } }
  let header : StreamRead (Bool × Nat) := do
    let sendFunding ← readBool
    let minPriceRowSize :=
      if sendFunding then marketPriceRowMinSizeWithFunding else marketPriceRowMinSizeNoFunding
    return (sendFunding, ← readCountBounded minPriceRowSize maxMarketPriceUpdateRows)
  match header data with
  | none => (s, none)
  | some ((sendFunding, count), r) =>
    match s.applyPriceRows env sendFunding shiftDays count r with
    | (s, none) => (s, none)
    | (s, some r) =>
      match readCorrPrices env r with
      | none => (s, none)
      | some (sendCorrMarkets, _) => (s, some (.pricesUpdated count sendFunding sendCorrMarkets))

end MarketsState

end lists

end MoonProto
