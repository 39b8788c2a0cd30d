import MoonProto.Commands.OrderV2

/-!
# Market rows on the wire

The rows of `GetMarketsList` and `UpdateMarketsList` answers and the reader they are
read with. Fixed-width reads never fail: past the end of the payload they yield zeros.
Only a string, whose declared length has to be there, and a row count can be refused;
that is what ends a truncated payload in the middle of its rows.
-/

namespace MoonProto

open Codec

/-- What the market model leaves open: the name that a string is, the value of a double's
bits, and arithmetic on doubles. -/
structure MarketEnv (N F : Type) where
  nameOf : Bytes → N
  f64OfBits : UInt64 → F
  f64 : FloatOps F

/-! ## The reader -/

/-- A read from an `EngineStreamReader`: the state is what is still unread. -/
abbrev StreamRead (α : Type) := StateT Bytes Option α

namespace EngineStreamReader

variable {N F : Type}

def readZeroTail (k : Nat) : StreamRead Bytes := fun r =>
  some (r.take k ++ List.replicate (k - r.length) 0, r.drop k)

def readByte : StreamRead UInt8 := do return byteAt (← readZeroTail 1) 0
def readBool : StreamRead Bool := do return (← readByte) != 0
def readWord : StreamRead UInt16 := do return readU16 (← readZeroTail 2)
def readInt : StreamRead Int32 := do return (readU32 (← readZeroTail 4)).toInt32
def readInt64 : StreamRead Int64 := do return (readU64 (← readZeroTail 8)).toInt64

def readDouble (env : MarketEnv N F) : StreamRead F := do
  return env.f64OfBits (readU64 (← readZeroTail 8))

def readStr (env : MarketEnv N F) : StreamRead N := fun r =>
  if r.length < 2 then none
  else
    let len := (readU16 (r.take 2)).toNat
    let body := r.drop 2
    if body.length < len then none
    else some (env.nameOf (decodeUtf8Delphi (body.take len)), body.drop len)

/-- A row count, refused when it is negative, above the hard bound, or more than the
rest of the payload can hold. -/
def readCountBounded (minElemSize hardMax : Nat) : StreamRead Nat := do
  let raw ← readInt
  if raw < 0 then failure
  let count := raw.toInt.toNat
  if hardMax < count then failure
  let rest ← get
  if rest.length / minElemSize < count then failure
  return count

end EngineStreamReader

open EngineStreamReader

/-! ## Markets -/

structure PositionType where
  byte : UInt8
deriving DecidableEq

def PositionType.cross : PositionType := ⟨0⟩

/-- The balance and position fields of a market, the ones a balance row carries. -/
structure BalancePosition (F : Type) where
  initialBalance : F
  lockedBalance : F
  posSize : F
  posPrice : F
  liqPrice : F
  posDir : OrderType
  longPosSize : F
  longPosPrice : F
  longLiqPrice : F
  longPositionType : PositionType
  shortPosSize : F
  shortPosPrice : F
  shortLiqPrice : F
  shortPositionType : PositionType
  assetBalance : F
  assetBalanceFull : F
  totalProfitB : F
  totalProfitL : F
  totalProfitS : F
  leverageX : Int32
  positionType : PositionType
  balanceHash : UInt64
deriving DecidableEq

/-- The fields of a market without a balance row. -/
def BalancePosition.missing {F : Type} (zero : F) : BalancePosition F where
  initialBalance := zero
  lockedBalance := zero
  posSize := zero
  posPrice := zero
  liqPrice := zero
  posDir := OrderType.sell
  longPosSize := zero
  longPosPrice := zero
  longLiqPrice := zero
  longPositionType := PositionType.cross
  shortPosSize := zero
  shortPosPrice := zero
  shortLiqPrice := zero
  shortPositionType := PositionType.cross
  assetBalance := zero
  assetBalanceFull := zero
  totalProfitB := zero
  totalProfitL := zero
  totalProfitS := zero
  leverageX := 1
  positionType := PositionType.cross
  balanceHash := 0

structure MarketPrice (F : Type) where
  bid : F
  ask : F
  lastBid : F
  lastAsk : F
  pLast : F
  minLotSize : F
  chartPriceStep : F
  fundingRate : F
  fundingTime : F
  markPrice : F
  markPriceFound : Bool
deriving DecidableEq

/-- `MarketPrice::default()`. -/
def MarketPrice.empty {F : Type} (zero : F) : MarketPrice F :=
  ⟨zero, zero, zero, zero, zero, zero, zero, zero, zero, zero, false⟩

structure Market (N F : Type) where
  bnMarketName : N
  bnPricePrecision : Int32
  bnQuantityPrecision : Int32
  maxLeverage : Int32
  bnIcebergParts : Int32
  bnMarginTableId : Int32
  bnTickSize : F
  bnStepSize : F
  bnMinQty : F
  bnMaxQty : F
  bnMinNotional : F
  bnMinPrice : F
  bnMaxPrice : F
  bnMaxValue : F
  bnMultiplierUp : F
  bnMultiplierDown : F
  bidMultiplierUp : F
  bidMultiplierDown : F
  askMultiplierUp : F
  askMultiplierDown : F
  fundingRate : F
  fundingTime : F
  volume : F
  statusTrading : Bool
  bnIceberg : Bool
  bnOnlyIsolated : Bool
  position : BalancePosition F
  lastBalanceEpoch : UInt16
  sessionProfit : Option F
  price : MarketPrice F
deriving DecidableEq

section rows

variable {N F : Type} (env : MarketEnv N F)

def MarketEnv.zero : F := env.f64.ofInt 0

/-- A funding time of the wire in local time; `shiftDays` is the rounded local shift in
minutes over the minutes of a day. -/
def applyDelphiLocalFundingShift (wireFundingTime shiftDays : F) : F :=
  if env.f64.lt env.zero wireFundingTime then env.f64.add wireFundingTime shiftDays else env.zero

/-- One row of `GetMarketsList`. Fields that nothing below reads are read and dropped. -/
def readMarket (ver : UInt16) (shiftDays : F) : StreamRead (Market N F) := do
  let bnMarketName ← readStr env
  let _marketCurrency ← readStr env
  let _bnMarketCurrency ← readStr env
  let _baseCurrency ← readStr env
  let _marketCurrencyLong ← readStr env
  let _marketCurrencyCanonic ← readStr env
  let _marketName ← readStr env
  let _marketNameMbClassic ← readStr env
  let _bnStatus ← readStr env
  let _leading1000 ← readStr env
  let bnPricePrecision ← readInt
  let bnQuantityPrecision ← readInt
  let maxLeverage ← readInt
  let _k1000 ← readInt
  let bnIcebergParts ← readInt
  let bnMarginTableId ← readInt
  let _bnDeliveryTime ← readInt64
  let bnTickSize ← readDouble env
  let bnStepSize ← readDouble env
  let bnMinQty ← readDouble env
  let bnMaxQty ← readDouble env
  let bnMinNotional ← readDouble env
  let _bnMaxNotional ← readDouble env
  let _bnContractSize ← readDouble env
  let bnMinPrice ← readDouble env
  let bnMaxPrice ← readDouble env
  let bnMaxValue ← readDouble env
  let bnMultiplierUp ← readDouble env
  let bnMultiplierDown ← readDouble env
  let bidMultiplierUp ← readDouble env
  let bidMultiplierDown ← readDouble env
  let askMultiplierUp ← readDouble env
  let askMultiplierDown ← readDouble env
  let _intBnMaxQty ← readDouble env
  let fundingRate ← readDouble env
  let fundingTime := applyDelphiLocalFundingShift env (← readDouble env) shiftDays
  let volume ← readDouble env
  let _isBtcMarket ← readBool
  let statusTrading ← readBool
  let _has1000Alias ← readBool
  let bnIceberg ← readBool
  let bnOnlyIsolated ← readBool
  -- version 1 rows have no futures type
  if 2 ≤ ver then
    let _futuresType ← readByte
  return {
    bnMarketName, bnPricePrecision, bnQuantityPrecision, maxLeverage, bnIcebergParts,
    bnMarginTableId, bnTickSize, bnStepSize, bnMinQty, bnMaxQty, bnMinNotional, bnMinPrice,
    bnMaxPrice, bnMaxValue, bnMultiplierUp, bnMultiplierDown, bidMultiplierUp,
    bidMultiplierDown, askMultiplierUp, askMultiplierDown, fundingRate, fundingTime, volume,
    statusTrading, bnIceberg, bnOnlyIsolated
    position := BalancePosition.missing env.zero
    lastBalanceEpoch := 0
    sessionProfit := none
    price := MarketPrice.empty env.zero }

/-- One row of the second part of `GetMarketsList`; its values are not kept here. -/
def readCorrMarket : StreamRead Unit := do
  let _bnMarketName ← readStr env
  let _bnMarketCurrency ← readStr env
  let _bnTickSize ← readDouble env
  let _baseCurrencyName ← readStr env

structure MarketPriceUpdate (F : Type) where
  mIndex : UInt16
  bid : F
  ask : F
  fundingRate : F
  fundingTime : F
  markPrice : F
  markPriceFound : Bool

/-- One row of `UpdateMarketsList`. -/
def readMarketPriceUpdate (sendFunding : Bool) (shiftDays : F) :
    StreamRead (MarketPriceUpdate F) := do
  let mIndex ← readWord
  let bid ← readDouble env
  let ask ← readDouble env
  let (fundingRate, fundingTime) ←
    if sendFunding then do
      let rate ← readDouble env
      pure (rate, applyDelphiLocalFundingShift env (← readDouble env) shiftDays)
    else pure (env.zero, env.zero)
  let markPrice ← readDouble env
  let markPriceFound ← readBool
  return { mIndex, bid, ask, fundingRate, fundingTime, markPrice, markPriceFound }

/-- One row of the second part of `UpdateMarketsList`; its values are not kept here. -/
def readCorrPriceUpdate : StreamRead Unit := do
  let _bnMarketName ← readStr env
  let _lastPrice ← readDouble env

end rows

def marketMinWireSize : Nat := 20
def corrMarketMinWireSize : Nat := 6
def maxMarketsListRows : Nat := 65536
def marketPriceRowMinSizeNoFunding : Nat := 27
def marketPriceRowMinSizeWithFunding : Nat := 43
def maxMarketPriceUpdateRows : Nat := 65536
def corrPriceRowMinSize : Nat := 10

end MoonProto
