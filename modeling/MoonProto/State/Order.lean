import MoonProto.Commands.OrderV2

/-!
# The order projection

`state/orders/model.rs`, `types.rs` and `apply_helpers.rs`: one retained order as the
application sees it. It is materialised from the canonical state section by section
and carries local drafts and chart lines beside it. What the life of an order depends on
is small: its id and instance, its status, and the time of an unconfirmed replace.
`Order.core` collects these, and a lemma per update says how they change.
-/

namespace MoonProto

/-! ## Chart lines -/

structure OrderTraceChartPoint where
  time : F64 := 0
  price : F32 := 0
deriving DecidableEq

structure OrderTraceLine where
  orderType : OrderType
  orderId : Int
  preventDelete : Bool := true
  points : List OrderTraceChartPoint := []
  tmpPoint : Option OrderTraceChartPoint := none
  canFinish : Bool := false
  stopPrice : Option F32 := none
  stopTime : Option Int := none
deriving DecidableEq

namespace OrderTraceLine

def setPointTrade (line : OrderTraceLine) (time : F64) (price : F32) (isTemp isFinish : Bool) :
    OrderTraceLine :=
  if isFinish then
    match line.points.getLast? with
    | some last =>
      if line.points.length > 1 && line.canFinish then
        { line with
          points := line.points.dropLast ++ [{ last with price := price }], canFinish := false }
      else { line with canFinish := false }
    | none => { line with canFinish := false }
  else if isTemp then { line with tmpPoint := some ⟨time, price⟩ }
  else
    match line.points.getLast? with
    | none => { line with points := [⟨time, price⟩] }
    | some last =>
      { line with
        points := line.points ++
          [{ last with time := time }, line.tmpPoint.getD {}, ⟨time, price⟩]
        tmpPoint := none
        canFinish := true }

/-- One anchor point, then three points per segment. -/
def lineCount (line : OrderTraceLine) : Nat := (line.points.length - 1) / 3

def needsShrink (env : OrderEnv) (line : OrderTraceLine) (toCount : Nat) : Bool :=
  line.points.length ≥ 4 &&
    env.f64.lt (env.f64.mul (env.f64.ofInt toCount) (env.f64.lit 12 1))
      (env.f64.ofInt line.lineCount)

/-- The number of removed segments and the shorter line. -/
def shrinkPoints (env : OrderEnv) (line : OrderTraceLine) (toCount : Nat) : Nat × OrderTraceLine :=
  if line.needsShrink env toCount then
    let removeLines := line.lineCount - toCount
    (removeLines, { line with points := line.points.drop (3 * removeLines) })
  else (0, line)

end OrderTraceLine

/-! ## Orders -/

/-- One retained order. -/
structure Order where
  uid : Nat
  marketName : Bytes
  currency : UInt8
  platform : UInt8
  status : OrderWorkerStatus := OrderWorkerStatus.none
  buyOrder : ExchangeOrder
  sellOrder : ExchangeOrder
  buyPrice : F64 := 0
  buySize : F64 := 0
  sellPrice : F64 := 0
  stops : StopSettings := {}
  vstopOn : Bool := false
  vstopFixed : Bool := false
  vstopLevel : F64 := 0
  vstopVol : F64 := 0
  panicSell : Bool := false
  panicSellAuto : Bool := false
  isMoonShot : Bool := false
  corridorPriceDown : F32 := 0
  corridorPriceUp : F32 := 0
  stratId : UInt64 := 0
  isShort : Bool
  emulatorMode : Bool
  immuneForClicks : Bool := false
  pendingBuyCondPrice : Option F64 := none
  pendingCancel : Bool := false
  bulkReplaceBuy : Bool := false
  bulkReplaceSell : Bool := false
  buyTraceLine : Option OrderTraceLine := none
  sellTraceLine : Option OrderTraceLine := none
  jobIsDone : Bool := false
  sellReason : SellReason := ⟨0⟩
  plannedSellPrice : F64 := 0
  useMarketStop : Bool := false
  instanceId : Nat
  replaceSentTimeMs : Int := 0
  lastSentTargetIsBuy : Bool := true
  lastSentTargetPrice : F64 := 0
  lastSentTargetSize : F64 := 0
deriving DecidableEq

/-- What the life of an order depends on. -/
structure Order.Core where
  uid : Nat
  instanceId : Nat
  status : OrderWorkerStatus
  replaceSentTimeMs : Int

namespace Order

def core (o : Order) : Core := ⟨o.uid, o.instanceId, o.status, o.replaceSentTimeMs⟩

def new (uid : Nat) (desc : OrderDescription) (instanceId : Nat)
    (currency platform : UInt8) : Order where
  uid := uid
  marketName := desc.marketName
  currency := currency
  platform := platform
  buyOrder := { isShort := DelphiBool.fromBool desc.isShort }
  sellOrder := { isShort := DelphiBool.fromBool desc.isShort }
  isShort := desc.isShort
  emulatorMode := desc.emulator
  instanceId := instanceId

/-! ## Materialising sections -/

def applyExec (s : CanonicalOrderState) (offset : Nat) (o : ExchangeOrder) : ExchangeOrder :=
  { o with
    quantityRemaining := s.readF64 offset
    actualQ := s.readF64 (offset + 8)
    totalBtc := s.readF64 (offset + 16)
    meanPrice := s.readF64 (offset + 24)
    partialDone := s.readU8 (offset + 32) }

def wireTimeDays (env : OrderEnv) (unixMs : Int) : F64 :=
  if unixMs = 0 then 0 else env.toDelphiDays unixMs

def applyPlacement (env : OrderEnv) (s : CanonicalOrderState) (offset : Nat) (o : ExchangeOrder) :
    ExchangeOrder :=
  { o with
    intId := s.readI64 offset
    actualPrice := s.readF64 (offset + 8)
    openTime := wireTimeDays env (s.readI64 (offset + 16))
    quantity := s.readF64 (offset + 24)
    quantityBase := s.readF64 (offset + 32)
    closeTime := wireTimeDays env (s.readI64 (offset + 40))
    createTime := wireTimeDays env (s.readI64 (offset + 48))
    stopFlag := s.readU8 (offset + 56)
    orderType := ⟨s.readU8 (offset + 57)⟩
    subType := ⟨s.readU8 (offset + 58)⟩
    leverage := s.readU8 (offset + 59)
    isOpened := s.readU8 (offset + 60)
    isClosed := s.readU8 (offset + 61)
    canceled := s.readU8 (offset + 62) }

def applySlow (s : CanonicalOrderState) (offset : Nat) (o : ExchangeOrder) : ExchangeOrder :=
  { o with
    spentBtc := s.readF64 offset
    tmpBtc := s.readF64 (offset + 8)
    panicSellDown := s.readF32 (offset + 16) }

def applyFlags (s : CanonicalOrderState) (o : Order) : Order :=
  let reason := s.readU8 9
  let flags := s.readU8 10
  { o with
    sellReason := if reason != 0 then ⟨reason⟩ else o.sellReason
    immuneForClicks := flags &&& oflImmune != 0
    panicSell := flags &&& oflPanicOn != 0
    panicSellAuto := flags &&& oflPanicAuto != 0 }

def applyBuyTarget (env : OrderEnv) (s : CanonicalOrderState) (o : Order) : Order :=
  let price := s.readF64 11
  let size := s.readF64 19
  { o with
    pendingBuyCondPrice :=
      if o.status = OrderWorkerStatus.none then some price else o.pendingBuyCondPrice
    buySize := if env.f64.lt 0 size then size else o.buySize
    bulkReplaceBuy := s.readU8 27 != 0 }

def applyVstop (s : CanonicalOrderState) (o : Order) : Order :=
  { o with
    vstopOn := s.readU8 315 != 0
    vstopFixed := s.readU8 316 != 0
    vstopLevel := s.readF64 317
    vstopVol := s.readF64 325 }

def applyPlanned (s : CanonicalOrderState) (o : Order) : Order :=
  { o with
    plannedSellPrice := s.readF64 333
    useMarketStop := s.readU8 341 != 0 }

/-- A change of status seeds the drafts anew and forgets an unconfirmed replace. -/
def applyPhase (s : CanonicalOrderState) (o : Order) : Order :=
  let status : OrderWorkerStatus := ⟨s.readU8 0⟩
  let o := { o with stratId := s.readU64 1, jobIsDone := status.isTerminal }
  if status = o.status then o
  else
    { o with
      status := status
      buyPrice := o.buyOrder.actualPrice
      sellPrice := o.sellOrder.actualPrice
      replaceSentTimeMs := 0
      pendingCancel := false
      pendingBuyCondPrice :=
        if status = OrderWorkerStatus.none then o.pendingBuyCondPrice else none }

/-- Does the state repeat the target that was sent last? -/
def targetConfirmed (env : OrderEnv) (s : CanonicalOrderState) (mask : Nat) (o : Order) : Bool :=
  if o.lastSentTargetIsBuy && mask.testBit osecBuyTarget then
    env.f64Eq (s.readF64 11) o.lastSentTargetPrice && env.f64Eq (s.readF64 19) o.lastSentTargetSize
  else if !o.lastSentTargetIsBuy && mask.testBit osecSellTarget then
    env.f64Eq (s.readF64 28) o.lastSentTargetPrice
  else false

def confirmTarget (env : OrderEnv) (s : CanonicalOrderState) (mask : Nat) (o : Order) : Order :=
  if o.replaceSentTimeMs = 0 then o
  else if o.targetConfirmed env s mask then { o with replaceSentTimeMs := 0 }
  else o

/-- Apply `f` where the mask has the section. -/
def onSection (mask : Nat) (i : OrderSection) (f : Order → Order) (o : Order) : Order :=
  if mask.testBit i then f o else o

def applyCanonical (env : OrderEnv) (o : Order) (s : CanonicalOrderState) (mask : Nat) : Order :=
  let o := onSection mask osecFlags (applyFlags s) o
  let o := onSection mask osecBuyTarget (applyBuyTarget env s) o
  let o := onSection mask osecSellTarget
    (fun o => { o with bulkReplaceSell := s.readU8 36 != 0 }) o
  let o := onSection mask osecBuyExec
    (fun o => { o with buyOrder := applyExec s 37 o.buyOrder }) o
  let o := onSection mask osecBuyPlacement
    (fun o => { o with buyOrder := applyPlacement env s 70 o.buyOrder }) o
  let o := onSection mask osecBuySlow
    (fun o => { o with buyOrder := applySlow s 133 o.buyOrder }) o
  let o := onSection mask osecSellExec
    (fun o => { o with sellOrder := applyExec s 153 o.sellOrder }) o
  let o := onSection mask osecSellPlacement
    (fun o => { o with sellOrder := applyPlacement env s 186 o.sellOrder }) o
  let o := onSection mask osecSellSlow
    (fun o => { o with sellOrder := applySlow s 249 o.sellOrder }) o
  let o := onSection mask osecStops (fun o => { o with stops := s.stops }) o
  let o := onSection mask osecVstop (applyVstop s) o
  let o := onSection mask osecPlanned (applyPlanned s) o
  let o := onSection mask osecPhase (applyPhase s) o
  confirmTarget env s mask o

def fromCanonical (env : OrderEnv) (uid : Nat) (desc : OrderDescription) (instanceId : Nat)
    (currency platform : UInt8) (s : CanonicalOrderState) : Order :=
  let o := (new uid desc instanceId currency platform).applyCanonical env s orderSectionAllMask
  { o with buyPrice := o.buyOrder.actualPrice, sellPrice := o.sellOrder.actualPrice }

/-! ## Chart lines of an order -/

def traceLine (o : Order) (buySide : Bool) : Option OrderTraceLine :=
  if buySide then o.buyTraceLine else o.sellTraceLine

def setTraceLine (o : Order) (buySide : Bool) (line : Option OrderTraceLine) : Order :=
  if buySide then { o with buyTraceLine := line } else { o with sellTraceLine := line }

def applyTraceLine (env : OrderEnv) (o : Order) (tp : OrderTracePoint) : Order :=
  let buySide := tp.ordType == OrderType.buy
  let leg := if buySide then o.buyOrder else o.sellOrder
  let slot := o.traceLine buySide
  if tp.isFinish then
    o.setTraceLine buySide (slot.map (·.setPointTrade tp.traceTime tp.tracePrice false true))
  else
    let slot := slot.filter (·.orderType == tp.ordType)
    let slot :=
      if slot.isNone && tp.isInitial then
        some (({ orderType := tp.ordType, orderId := leg.intId } : OrderTraceLine).setPointTrade
          leg.createTime tp.basePrice false false)
      else slot
    let slot := slot.map fun line =>
      { line.setPointTrade tp.traceTime tp.tracePrice tp.isTemp false with orderId := leg.intId }
    let o := o.setTraceLine buySide slot
    if env.f32.lt 0 tp.stopPrice then
      { o with
        sellTraceLine := o.sellTraceLine.map fun line =>
          { line with
            stopPrice := some tp.stopPrice, stopTime := some (env.moonTimeOfDays tp.traceTime) } }
    else o

def needsShrink (env : OrderEnv) (o : Order) (toCount : Nat) : Bool :=
  o.buyTraceLine.any (·.needsShrink env toCount) || o.sellTraceLine.any (·.needsShrink env toCount)

/-- Whether a segment was removed, and the order with shorter lines. -/
def shrinkLines (env : OrderEnv) (o : Order) (toCount : Nat) : Bool × Order :=
  let buy := o.buyTraceLine.map (·.shrinkPoints env toCount)
  let sell := o.sellTraceLine.map (·.shrinkPoints env toCount)
  (buy.any (·.1 > 0) || sell.any (·.1 > 0),
    { o with buyTraceLine := buy.map (·.2), sellTraceLine := sell.map (·.2) })

/-! ## How updates change the core -/

theorem core_onSection (mask : Nat) (i : OrderSection) {f : Order → Order}
    (h : ∀ o, (f o).core = o.core) (o : Order) : (onSection mask i f o).core = o.core := by
  unfold onSection
  split
  · exact h o
  · rfl

variable (env : OrderEnv)

/-- All sections but the phase leave the core alone. -/
theorem applyCanonical_eq (o : Order) (s : CanonicalOrderState) (mask : Nat) :
    ∃ pre : Order, pre.core = o.core ∧ o.applyCanonical env s mask =
        confirmTarget env s mask (onSection mask osecPhase (applyPhase s) pre) := by
  refine ⟨_, ?_, rfl⟩
  -- one section after the other, from the last to the first
  iterate 12 rw [core_onSection]
  all_goals
    intro o
    rfl

theorem core_applyPhase (s : CanonicalOrderState) (o : Order) : (applyPhase s o).core =
      ⟨o.uid, o.instanceId, ⟨s.statusByte⟩,
        if (⟨s.statusByte⟩ : OrderWorkerStatus) = o.status then o.replaceSentTimeMs else 0⟩ := by
  unfold applyPhase
  dsimp only
  rw [show s.readU8 0 = s.statusByte from rfl]
  split
  next h => rw [core, h]
  next => rfl

theorem core_confirmTarget (s : CanonicalOrderState) (mask : Nat) (o : Order) :
    (confirmTarget env s mask o).core = o.core ∨
      (confirmTarget env s mask o).core = { o.core with replaceSentTimeMs := 0 } := by
  unfold confirmTarget
  split
  · exact .inl rfl
  split
  · exact .inr rfl
  · exact .inl rfl

/-- The core behind an update: the status follows the phase section if it is applied,
and an unconfirmed replace is kept or forgotten, never started. -/
structure Materialized (s : CanonicalOrderState) (mask : Nat) (o o' : Order) : Prop where
  uid : o'.uid = o.uid
  instanceId : o'.instanceId = o.instanceId
  status : o'.status = if mask.testBit osecPhase then ⟨s.statusByte⟩ else o.status
  replaceSent : o'.replaceSentTimeMs = o.replaceSentTimeMs ∨ o'.replaceSentTimeMs = 0

theorem materialized_applyCanonical (o : Order) (s : CanonicalOrderState)
    (mask : Nat) : Materialized s mask o (o.applyCanonical env s mask) := by
  obtain ⟨pre, hpre, heq⟩ := applyCanonical_eq env o s mask
  obtain ⟨huid, hinst, hstatus, hsent⟩ := Core.mk.inj hpre
  have hphase : Materialized s mask o (onSection mask osecPhase (applyPhase s) pre) := by
    unfold onSection
    split
    next hbit =>
      obtain ⟨huid', hinst', hstatus', hsent'⟩ := Core.mk.inj (core_applyPhase s pre)
      refine ⟨huid'.trans huid, hinst'.trans hinst, ?_, ?_⟩
      · rw [if_pos hbit]
        exact hstatus'
      · rw [hsent']
        split
        · exact .inl hsent
        · exact .inr rfl
    next hbit =>
      refine ⟨huid, hinst, ?_, .inl hsent⟩
      rw [if_neg hbit]
      exact hstatus
  rw [heq]
  rcases core_confirmTarget env s mask (onSection mask osecPhase (applyPhase s) pre) with h | h
  · obtain ⟨h1, h2, h3, h4⟩ := Core.mk.inj h
    exact ⟨h1.trans hphase.uid, h2.trans hphase.instanceId, h3.trans hphase.status,
      hphase.replaceSent.imp h4.trans h4.trans⟩
  · obtain ⟨h1, h2, h3, h4⟩ := Core.mk.inj h
    exact ⟨h1.trans hphase.uid, h2.trans hphase.instanceId, h3.trans hphase.status, .inr h4⟩

theorem core_fromCanonical (uid : Nat) (desc : OrderDescription)
    (instanceId : Nat) (currency platform : UInt8) (s : CanonicalOrderState) :
    (fromCanonical env uid desc instanceId currency platform s).core =
      ⟨uid, instanceId, ⟨s.statusByte⟩, 0⟩ := by
  have h := materialized_applyCanonical env (new uid desc instanceId currency platform) s
    orderSectionAllMask
  have hbit : orderSectionAllMask.testBit osecPhase = true := by decide
  have hstatus := h.status
  rw [if_pos hbit] at hstatus
  have hsent : ((new uid desc instanceId currency platform).applyCanonical env s
      orderSectionAllMask).replaceSentTimeMs = 0 := by
    rcases h.replaceSent with h | h
    · exact h
    · exact h
  unfold fromCanonical core
  dsimp only
  rw [h.uid, h.instanceId, hstatus, hsent]
  rfl

@[simp] theorem core_setTraceLine (o : Order) (buySide : Bool) (line : Option OrderTraceLine) :
    (o.setTraceLine buySide line).core = o.core := by
  unfold setTraceLine
  split <;> rfl

@[simp] theorem core_applyTraceLine (o : Order) (tp : OrderTracePoint) :
    (o.applyTraceLine env tp).core = o.core := by
  unfold applyTraceLine
  dsimp only
  split
  · exact core_setTraceLine _ _ _
  split
  · exact core_setTraceLine _ _ _
  · exact core_setTraceLine _ _ _

@[simp] theorem core_shrinkLines (o : Order) (toCount : Nat) :
    (o.shrinkLines env toCount).2.core = o.core := rfl

end Order

end MoonProto
