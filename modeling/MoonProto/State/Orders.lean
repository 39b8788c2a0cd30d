import Mathlib.Data.List.AList
import MoonProto.State.OrderMirror

/-!
# The order state

`state/orders.rs` with `orders/maintenance.rs` and `orders/actions.rs`. The state keeps a
mirror for every order the core has announced and, for the orders whose market is known,
an entry of the read model. Terminal orders are removed later, on a deadline; removed ids
are remembered in a ring of tombstones. Two cached deadlines tell the tick whether there
is anything to do.

The sinks for events, repairs and commands, which the source passes along, are part of
`OrderChannel`. Maps are association lists, and an input may permute them at any time, so
that nothing depends on the order of iteration. Times are milliseconds.
-/

namespace MoonProto

open AList

def targetConfirmTimeoutMs : Int := 5000
def sellDoneRemovalGraceMs : Int := 400
def orderTraceLineShrinkTo : Nat := 800
def orderTraceLineShrinkIntervalMs : Int := 30000
def orderTombstoneCount : Nat := 128

/-- `i64::saturating_add`. -/
def saturatingAdd (a b : Int) : Int := max (-2 ^ 63) (min (2 ^ 63 - 1) (a + b))

/-- A map from order ids. -/
abbrev OrderMap (α : Type) := AList fun _ : Nat => α

structure OrderRepair where
  orderId : Nat
  exactRev : Nat
deriving DecidableEq

structure PendingRemoval where
  uid : Nat
  dueMs : Int
  instanceId : Nat
deriving DecidableEq

inductive OrderEvent
  | created (order : Order)
  | updated (order : Order)
  | removed (order : Order)
  | tracePoint (uid : Nat)
  | corridorChanged (uid : Nat)
  | snapshot
deriving DecidableEq

/-- The state owned by the runtime, with the read model. Of the tolerances only `eps_m` is
read here. -/
structure OrderState where
  read : OrderMap Order := ∅
  epsM : F64
  mirrors : OrderMap OrderMirror := ∅
  pendingRemovals : List PendingRemoval := []
  tombstones : List Nat := List.replicate orderTombstoneCount 0
  tombstoneIndex : Nat := 0
  worldAppToken : Nat := 0
  nextInstanceId : Nat := 0
  routeCurrency : UInt8 := 26
  routePlatform : UInt8 := 0
  nextPendingRemovalMs : Option Int := none
  nextReplaceTimeoutMs : Option Int := none
  nextOrderLineShrinkMs : Int := orderTraceLineShrinkIntervalMs

/-- The order state with all it has emitted so far. -/
structure OrderChannel extends OrderState where
  events : List OrderEvent := []
  repairs : List OrderRepair := []
  commands : List OrderCommandPayload := []

namespace OrderState

/-! ## Ids, tombstones and pending removals -/

/-- The next instance id; 0 is skipped when the counter wraps. -/
def allocatedInstanceId (s : OrderState) : Nat :=
  if (s.nextInstanceId + 1) % 2 ^ 64 = 0 then 1 else (s.nextInstanceId + 1) % 2 ^ 64

def sectionSeen (s : OrderState) (uid : Nat) (i : OrderSection) : Bool :=
  (s.mirrors.lookup uid).any fun m => m.seenRev i != 0

def isTombstoned (s : OrderState) (uid : Nat) : Bool := uid != 0 && s.tombstones.contains uid

def recordTombstone (s : OrderState) (uid : Nat) : OrderState :=
  if uid = 0 || s.isTombstoned uid then s
  else
    { s with
      tombstones := s.tombstones.set s.tombstoneIndex uid
      tombstoneIndex := (s.tombstoneIndex + 1) &&& (orderTombstoneCount - 1) }

/-- The earlier of a cached deadline and a new one. -/
def earlier (cached : Option Int) (dueMs : Int) : Option Int :=
  some (cached.elim dueMs fun current => min current dueMs)

/-- Put off the entry of this instance, or add one. -/
def putRemoval (pending : List PendingRemoval) (uid instanceId : Nat) (dueMs : Int) :
    List PendingRemoval :=
  let own := fun p : PendingRemoval => p.uid == uid && p.instanceId == instanceId
  match pending.findIdx? own with
  | some i => pending.modify i fun p => { p with dueMs := max p.dueMs dueMs }
  | none => pending ++ [⟨uid, dueMs, instanceId⟩]

def markPendingRemoval (s : OrderState) (uid : Nat) (nowMs delayMs : Int) : OrderState :=
  match s.read.lookup uid with
  | none => s
  | some order =>
    let dueMs := saturatingAdd nowMs (max delayMs 0)
    { s with
      pendingRemovals := putRemoval s.pendingRemovals uid order.instanceId dueMs
      nextPendingRemovalMs := earlier s.nextPendingRemovalMs dueMs }

/-- A sold order stays for a while, so that late chart packets still find it. -/
def removalDelayMs (s : OrderState) (uid : Nat) : Int :=
  if (s.read.lookup uid).any (·.status == OrderWorkerStatus.sellDone) then sellDoneRemovalGraceMs
  else 0

/-! ## Maintenance -/

/-- One pending removal in the drain loop: kept, forgotten, or carried out. -/
def drainItem (nowMs : Int) (acc : List PendingRemoval × List Order × OrderState)
    (item : PendingRemoval) : List PendingRemoval × List Order × OrderState :=
  if nowMs < item.dueMs then (acc.1 ++ [item], acc.2)
  else
    match acc.2.2.read.lookup item.uid with
    | none => acc
    | some order =>
      if order.instanceId = item.instanceId ∧ order.status.isTerminal then
        (acc.1, acc.2.1 ++ [order],
          { ({ acc.2.2 with
              mirrors := acc.2.2.mirrors.erase item.uid }).recordTombstone item.uid with
            read := acc.2.2.read.erase item.uid })
      else acc

/-- The removed orders and the new state. -/
def drainPendingRemovalsDue (s : OrderState) (nowMs : Int) : List Order × OrderState :=
  if s.nextPendingRemovalMs.all (nowMs < ·) then ([], s)
  else
    let r := s.pendingRemovals.foldl (drainItem nowMs) ([], [], s)
    (r.2.1, { r.2.2 with
        pendingRemovals := r.1
        nextPendingRemovalMs := (r.1.map (·.dueMs)).min? })

/-- When an unconfirmed replace is given up. -/
def replaceDueMs (sentMs : Int) : Int :=
  saturatingAdd (saturatingAdd sentMs targetConfirmTimeoutMs) 1

def replaceTimedOut (nowMs : Int) (order : Order) : Bool :=
  0 < order.replaceSentTimeMs &&
    targetConfirmTimeoutMs < ((nowMs - order.replaceSentTimeMs).natAbs : Int)

/-- Give up the replace of one order. -/
def timeOutReplace (acc : List OrderEvent × OrderState) (uid : Nat) :
    List OrderEvent × OrderState :=
  match acc.2.read.lookup uid with
  | none => acc
  | some order =>
    let order :=
      { order with replaceSentTimeMs := 0, bulkReplaceBuy := false, bulkReplaceSell := false }
    (acc.1 ++ [.updated order], { acc.2 with read := acc.2.read.insert uid order })

def tickBulkReplaceTimeouts (s : OrderState) (nowMs : Int) : List OrderEvent × OrderState :=
  if s.nextReplaceTimeoutMs.all (nowMs < ·) then ([], s)
  else
    let uids := (s.read.entries.filter fun e => replaceTimedOut nowMs e.2).map (·.2.uid)
    let r := uids.foldl timeOutReplace ([], s)
    (r.1, { r.2 with
        nextReplaceTimeoutMs :=
          ((r.2.read.entries.filter fun e => 0 < e.2.replaceSentTimeMs).map fun e =>
            replaceDueMs e.2.replaceSentTimeMs).min? })

/-- Shorten the chart lines of one order. -/
def shrinkOrder (env : OrderEnv) (acc : List OrderEvent × OrderState) (uid : Nat) :
    List OrderEvent × OrderState :=
  match acc.2.read.lookup uid with
  | none => acc
  | some order =>
    if order.needsShrink env orderTraceLineShrinkTo then
      let r := order.shrinkLines env orderTraceLineShrinkTo
      (if r.1 then acc.1 ++ [.tracePoint order.uid] else acc.1,
        { acc.2 with read := acc.2.read.insert uid r.2 })
    else acc

def tickOrderTraceLineShrink (env : OrderEnv) (s : OrderState) (nowMs : Int) :
    List OrderEvent × OrderState :=
  if nowMs < s.nextOrderLineShrinkMs then ([], s)
  else
    let s :=
      { s with nextOrderLineShrinkMs := saturatingAdd nowMs orderTraceLineShrinkIntervalMs }
    let uids :=
      (s.read.entries.filter fun e => e.2.needsShrink env orderTraceLineShrinkTo).map (·.2.uid)
    uids.foldl (shrinkOrder env) ([], s)

def hasDueTickWork (s : OrderState) (nowMs : Int) : Bool :=
  s.nextPendingRemovalMs.any (· ≤ nowMs) || s.nextReplaceTimeoutMs.any (· ≤ nowMs) ||
    s.nextOrderLineShrinkMs ≤ nowMs

/-! ## Local actions -/

/-- `order_mut`, where the order exists. -/
def modifyOrder (s : OrderState) (uid : Nat) (f : Order → Order) : OrderState :=
  match s.read.lookup uid with
  | none => s
  | some order => { s with read := s.read.insert uid (f order) }

def setImmuneClick (acc : List OrderCommandPayload × OrderState) (item : ImmuneItem) :
    List OrderCommandPayload × OrderState :=
  match acc.2.read.lookup item.uid with
  | none => acc
  | some order =>
    if order.status.isTerminal || order.immuneForClicks == item.value then acc
    else
      (acc.1 ++ [.immune item.uid item.value],
        acc.2.modifyOrder item.uid fun o => { o with immuneForClicks := item.value })

def setImmuneClicks (s : OrderState) (items : List ImmuneItem) :
    List OrderCommandPayload × OrderState :=
  items.foldl setImmuneClick ([], s)

def sendStopsIfChanged (s : OrderState) (uid : Nat) (stops : StopSettings) :
    Option OrderCommandPayload × OrderState :=
  if !s.sectionSeen uid osecStops then (none, s)
  else
    match s.read.lookup uid with
    | none => (none, s)
    | some order =>
      let tpChanged := DelphiBool.get order.stops.takeProfitChanged ||
        stops.useTakeProfit != order.stops.useTakeProfit ||
        stops.takeProfit != order.stops.takeProfit
      let stops := { stops with takeProfitChanged := DelphiBool.fromBool tpChanged }
      if order.stops = stops then (none, s)
      else (some (.stops uid stops), s.modifyOrder uid fun o => { o with stops := stops })

def sendVstopIfChanged (env : OrderEnv) (s : OrderState) (uid : Nat) (enabled fixed : Bool)
    (level volume : F64) : Option OrderCommandPayload × OrderState :=
  if !s.sectionSeen uid osecVstop then (none, s)
  else
    match s.read.lookup uid with
    | none => (none, s)
    | some order =>
      if order.vstopOn == enabled && order.vstopFixed == fixed &&
          env.f64Eq order.vstopLevel level && env.f64Eq order.vstopVol volume then (none, s)
      else
        (some (.vstop uid enabled fixed level volume), s.modifyOrder uid fun o =>
            { o with
              vstopOn := enabled, vstopFixed := fixed, vstopLevel := level, vstopVol := volume })

/-- The command for a new price and the order with its draft, by status. -/
def replaceTarget (env : OrderEnv) (epsM : F64) (uid : Nat) (newPrice : F64) (order : Order) :
    Option (OrderCommandPayload × Order) :=
  if order.status = OrderWorkerStatus.none then
    match order.pendingBuyCondPrice with
    | none => none
    | some old =>
      if env.within old newPrice epsM then none
      else
        some (.targetBuy uid newPrice order.buySize,
          { order with pendingBuyCondPrice := some newPrice })
  else if order.status = OrderWorkerStatus.buySet then
    let size := if env.f64.lt 0 order.buySize then order.buySize else order.buyOrder.quantity
    some (.targetBuy uid newPrice size, { order with buyPrice := newPrice, bulkReplaceBuy := true })
  else if order.status = OrderWorkerStatus.sellSet then
    some (.targetSell uid newPrice, { order with sellPrice := newPrice, bulkReplaceSell := true })
  else none

/-- Remember what was sent, so that the state can confirm it. -/
def rememberTarget (payload : OrderCommandPayload) (newPrice : F64) (nowMs : Int) (order : Order) :
    Order :=
  { order with
    lastSentTargetIsBuy := match payload with
      | .targetSell .. => false
      | _ => true
    lastSentTargetPrice := newPrice
    lastSentTargetSize := match payload with
      | .targetBuy _ _ size => size
      | _ => 0
    replaceSentTimeMs := max nowMs 1 }

def sendReplaceIfRequested (env : OrderEnv) (s : OrderState) (uid : Nat) (newPrice : F64)
    (nowMs : Int) : Option OrderCommandPayload × OrderState :=
  match s.read.lookup uid with
  | none => (none, s)
  | some order =>
    match replaceTarget env s.epsM uid newPrice order with
    | none => (none, s)
    | some (payload, order) =>
      let order := rememberTarget payload newPrice nowMs order
      (some payload, { s with
          read := s.read.insert uid order
          nextReplaceTimeoutMs :=
            earlier s.nextReplaceTimeoutMs (replaceDueMs order.replaceSentTimeMs) })

def sendCancelIfRequested (s : OrderState) (uid : Nat) : Option OrderCommandPayload × OrderState :=
  match s.read.lookup uid with
  | none => (none, s)
  | some order =>
    let cancel := fun payload : OrderCommandPayload =>
      (some payload, s.modifyOrder uid fun o =>
        { o with pendingCancel := o.status == OrderWorkerStatus.none })
    if order.status = OrderWorkerStatus.none then cancel (.pendingCancel uid)
    else if order.status = OrderWorkerStatus.buySet then cancel (.cancelBuy uid)
    else if order.status = OrderWorkerStatus.sellSet then cancel (.cancelSell uid)
    else (none, s)

def sendPanicSellIfChanged (s : OrderState) (uid : Nat) (enabled : Bool) :
    Option OrderCommandPayload × OrderState :=
  match s.read.lookup uid with
  | none => (none, s)
  | some order =>
    if order.status ≠ OrderWorkerStatus.sellSet || order.panicSell == enabled then (none, s)
    else (some (.panic uid enabled), s.modifyOrder uid fun o => { o with panicSell := enabled })

/-- One order of the market panic switch: the panic command, the stop commands and the state. -/
def switchPanicOrder (env : OrderEnv) (enabled : Bool)
    (acc : (List OrderCommandPayload × List OrderCommandPayload) × OrderState) (uid : Nat) :
    (List OrderCommandPayload × List OrderCommandPayload) × OrderState :=
  match acc.2.read.lookup uid with
  | none => acc
  | some order =>
    let clearAutoStops := !enabled && order.panicSellAuto
    let s := acc.2.modifyOrder uid fun o =>
      { o with
        panicSell := enabled
        panicSellAuto := if clearAutoStops then false else o.panicSellAuto }
    let commands := acc.1.1 ++ [.panic uid enabled]
    if clearAutoStops then
      let stops := s.sendStopsIfChanged uid { order.stops with stopLossOn := 0, trailingOn := 0 }
      let vstop := stops.2.sendVstopIfChanged env uid false order.vstopFixed order.vstopLevel
        order.vstopVol
      ((commands, acc.1.2 ++ stops.1.toList ++ vstop.1.toList), vstop.2)
    else ((commands, acc.1.2), s)

/-- The orders of a market that wait for their sell. -/
def sellingUids (s : OrderState) (p : Order → Bool) : List Nat :=
  (s.read.entries.filter fun e => e.2.status == OrderWorkerStatus.sellSet && p e.2).map (·.2.uid)

def switchPanicSellByMarket (env : OrderEnv) (s : OrderState) (marketName : Bytes)
    (turnOn : Bool) : List OrderCommandPayload × OrderState :=
  let uids := s.sellingUids (·.marketName == marketName)
  let anyOn := uids.any fun uid => (s.read.lookup uid).any (·.panicSell)
  if uids.isEmpty || (!anyOn && !turnOn) then ([], s)
  else
    let r := uids.foldl (switchPanicOrder env !anyOn) (([], []), s)
    (r.1.1 ++ r.1.2, r.2)

def markPanicSellAll (s : OrderState) : Bool × OrderState :=
  let uids := s.sellingUids (!·.panicSell)
  (!uids.isEmpty,
    uids.foldl (fun s uid => s.modifyOrder uid fun o => { o with panicSell := true }) s)

end OrderState

/-- `slice::binary_search_by_key` of the standard library, on a list of ids: is the id found? -/
def binarySearchIds (ids : List Nat) (uid : Nat) : Bool :=
  let rec go (base : Nat) : (fuel size : Nat) → Nat
    | 0, _ => base
    | fuel + 1, size =>
      if size ≤ 1 then base
      else
        let half := size / 2
        let mid := base + half
        go (if uid < ids.getD mid 0 then base else mid) fuel (size - half)
  if ids.isEmpty then false else ids.getD (go 0 ids.length ids.length) 0 == uid

namespace OrderChannel

variable (env : OrderEnv) (c : OrderChannel) (uid : Nat)

/-! ## Protocol commands -/

def emit (c : OrderChannel) (event : OrderEvent) : OrderChannel :=
  { c with events := c.events ++ [event] }

def pushRepair (c : OrderChannel) (orderId exactRev : Nat) : OrderChannel :=
  { c with repairs := c.repairs ++ [⟨orderId, exactRev⟩] }

/-- Materialise a mirror in the read model. -/
def attach (env : OrderEnv) (c : OrderChannel) (uid : Nat) (m : OrderMirror) : OrderChannel :=
  let order := Order.fromCanonical env uid m.desc c.allocatedInstanceId c.routeCurrency
    c.routePlatform m.state
  { c with
    nextInstanceId := c.allocatedInstanceId
    read := c.read.insert uid order
    events := c.events ++ [.created order] }

/-- Plan the removal of an order that is done. -/
def planRemoval (c : OrderChannel) (uid : Nat) (nowMs : Int) (done : Bool) : OrderChannel :=
  if done then { c with toOrderState := c.markPendingRemoval uid nowMs (c.removalDelayMs uid) }
  else c

/-- Has the entry of the read model a terminal status? -/
def showsTerminal (c : OrderChannel) (uid : Nat) : Bool :=
  (c.read.lookup uid).any (·.status.isTerminal)

/-- The rest of `merge_state` once the mirror is updated. -/
def afterMerge (env : OrderEnv) (c : OrderChannel) (uid : Nat) (r : OrderMirror.MergeResult)
    (marketExists : Bytes → Bool) (nowMs : Int) : OrderChannel :=
  match c.read.lookup uid with
  | none =>
    if marketExists (r.mirror.desc.marketName) then
      let c := c.attach env uid r.mirror
      c.planRemoval uid nowMs (r.exact && c.showsTerminal uid)
    else c
  | some order =>
    if r.appliedMask = 0 then c
    else
      let order := order.applyCanonical env r.mirror.state r.appliedMask
      let c :=
        { c with
          read := c.read.insert uid order
          events := c.events ++ [OrderEvent.updated order] }
      c.planRemoval uid nowMs (r.exact && c.showsTerminal uid)

/-- `merge_state` on the mirror of an order. -/
def mergeMirror (env : OrderEnv) (c : OrderChannel) (uid : Nat) (m : OrderMirror)
    (msg : OrderMirror.Message) (marketExists : Bytes → Bool) (nowMs : Int) : OrderChannel :=
  let r := m.merge env msg
  let c := { c with mirrors := c.mirrors.insert uid r.mirror }
  let c := if r.proofMatches then c else c.pushRepair uid 0
  c.afterMerge env uid r marketExists nowMs

def mergeState (env : OrderEnv) (c : OrderChannel) (uid : Nat) (msg : OrderMirror.Message)
    (marketExists : Bytes → Bool) (nowMs : Int) : OrderChannel :=
  match c.mirrors.lookup uid with
  | none =>
    if c.isTombstoned uid then c
    else
      match msg.desc with
      | none => c.pushRepair uid 0
      | some desc => c.mergeMirror env uid (OrderMirror.new desc) msg marketExists nowMs
  | some m =>
    -- an image with another description is dropped
    if msg.desc.any (· ≠ m.desc) then c else c.mergeMirror env uid m msg marketExists nowMs

def ensureWorld (c : OrderChannel) (peerAppToken : Nat) : OrderChannel :=
  if peerAppToken = 0 || peerAppToken = c.worldAppToken then c
  else
    { c with
      events := c.events ++ c.read.entries.map (.removed ·.2)
      read := ∅
      mirrors := ∅
      pendingRemovals := []
      nextPendingRemovalMs := none
      nextReplaceTimeoutMs := none
      tombstones := List.replicate orderTombstoneCount 0
      tombstoneIndex := 0
      worldAppToken := peerAppToken }

/-- One line of a catalog page. -/
def reconcileItem (env : OrderEnv) (c : OrderChannel) (item : OrderCatalogRecord) : OrderChannel :=
  match c.mirrors.lookup item.orderId with
  | none => if c.isTombstoned item.orderId then c else c.pushRepair item.orderId 0
  | some m =>
    if m.state.isTerminal && m.isExact then c
    else if !m.isExact then c.pushRepair item.orderId 0
    else if m.replicaRev ≠ item.stateRev then c.pushRepair item.orderId m.replicaRev
    else
      match c.read.lookup item.orderId with
      | none => c
      | some order =>
        let order := order.applyCanonical env m.state orderReconcileMask
        { c with
          read := c.read.insert item.orderId order
          events := c.events ++ [.updated order] }

/-- Ask about a mirror of the page's range that the page does not list. -/
def repairUnlisted (fromUid rangeEndUid : Nat) (ids : List Nat) (c : OrderChannel)
    (e : Sigma fun _ : Nat => OrderMirror) : OrderChannel :=
  if e.1 < fromUid || (rangeEndUid ≠ 0 && rangeEndUid < e.1) then c
  else if e.2.state.isTerminal && e.2.isExact then c
  else if binarySearchIds ids e.1 then c
  else c.pushRepair e.1 (if e.2.isExact then e.2.replicaRev else 0)

def processColdPage (env : OrderEnv) (c : OrderChannel) (fromUid rangeEndUid : Nat)
    (catalog : List OrderCatalogRecord) : OrderChannel :=
  let c := catalog.foldl (reconcileItem env) c
  c.mirrors.entries.foldl (repairUnlisted fromUid rangeEndUid (catalog.map (·.orderId))) c

def applyGone (c : OrderChannel) (uid : Nat) : OrderChannel :=
  match c.mirrors.lookup uid with
  | none => { c with toOrderState := c.recordTombstone uid }
  | some m =>
    if m.state.isTerminal then c
    else
      let s := { c.toOrderState with
        mirrors := c.mirrors.erase uid
        pendingRemovals := c.pendingRemovals.filter (·.uid != uid) }
      let s := { s.recordTombstone uid with read := c.read.erase uid }
      match c.read.lookup uid with
      | none => { c with toOrderState := s }
      | some order => { c with toOrderState := s, events := c.events ++ [.removed order] }

/-- A chart packet for an order with a mirror. -/
def touchOrder (c : OrderChannel) (uid : Nat) (f : Order → Order) (event : Order → OrderEvent) :
    OrderChannel :=
  if (c.mirrors.lookup uid).isSome then
    match c.read.lookup uid with
    | none => c
    | some order =>
      { c with read := c.read.insert uid (f order), events := c.events ++ [event order] }
  else c

/-- What an image says to `merge_state`. -/
def imageMessage (env : OrderEnv) (stateRev : Nat) (desc : OrderDescription) (mask : Nat)
    (state : CanonicalOrderState) : OrderMirror.Message :=
  ⟨stateRev, stateHash env stateRev desc state, mask, state, some desc⟩

def patchMessage (patch : OrderPatch) : OrderMirror.Message :=
  ⟨patch.stateRev, patch.stateHash, patch.sectionMask, patch.state, none⟩

/-- What comes with a command: the time, the tokens of transport and application world, the
server's time difference and the known markets. -/
structure Context where
  nowMs : Int
  serverToken : Nat
  peerAppToken : Nat
  serverTimeDelta : F64
  marketExists : Bytes → Bool

/-- One record of a snapshot page. -/
def mergeRecord (env : OrderEnv) (ctx : Context) (c : OrderChannel) (record : OrderImageRecord) :
    OrderChannel :=
  c.mergeState env record.orderId
    (imageMessage env record.stateRev record.desc record.sectionMask record.state)
    ctx.marketExists ctx.nowMs

def applyCommand (env : OrderEnv) (c : OrderChannel) (ctx : Context) : TradeCommand → OrderChannel
  | .orderImage image =>
    c.mergeState env image.uid
      (imageMessage env image.stateRev image.desc image.sectionMask image.state)
      ctx.marketExists ctx.nowMs
  | .orderPatch patch =>
    c.mergeState env patch.uid (patchMessage patch) ctx.marketExists ctx.nowMs
  | .ordersSnapshot page =>
    ((page.records.foldl (mergeRecord env ctx) c).processColdPage env page.fromUid
      page.rangeEndUid (page.records.map fun r => ⟨r.orderId, r.stateRev⟩)).emit .snapshot
  | .ordersCatalog page =>
    (c.processColdPage env page.fromUid page.rangeEndUid page.records).emit .snapshot
  | .orderNotFound uid => c.applyGone uid
  | .orderTracePoint point =>
    c.touchOrder point.uid (·.applyTraceLine env (point.adjustTime env ctx.serverTimeDelta))
      (.tracePoint ·.uid)
  | .corridorUpdate corridor =>
    c.touchOrder corridor.uid
      (fun o =>
        { o with
          isMoonShot := true
          corridorPriceDown := corridor.priceDown
          corridorPriceUp := corridor.priceUp })
      fun _ => .corridorChanged corridor.uid
  | .other => c

def applyProtocol (env : OrderEnv) (c : OrderChannel) (ctx : Context) (command : TradeCommand) :
    OrderChannel :=
  if ctx.serverToken = 0 then c
  else (c.ensureWorld ctx.peerAppToken).applyCommand env ctx command

/-- Attach one mirror that waited for its market. -/
def attachParked (env : OrderEnv) (nowMs : Int) (c : OrderChannel) (uid : Nat) : OrderChannel :=
  match c.mirrors.lookup uid with
  | none => { c with nextInstanceId := c.allocatedInstanceId }
  | some m => (c.attach env uid m).planRemoval uid nowMs (m.isExact && m.state.isTerminal)

def rescanParked (env : OrderEnv) (c : OrderChannel) (nowMs : Int)
    (marketExists : Bytes → Bool) : OrderChannel :=
  let parked := (c.mirrors.entries.filter fun e =>
    (c.read.lookup e.1).isNone && marketExists (e.2.desc.marketName)).map (·.1)
  parked.foldl (attachParked env nowMs) c

/-! ## The order state as a machine -/

/-- `drain_deferred_order_removals_due`. -/
def drainRemovals (c : OrderChannel) (nowMs : Int) : OrderChannel :=
  let r := c.drainPendingRemovalsDue nowMs
  { c with toOrderState := r.2, events := c.events ++ r.1.map .removed }

def replaceTimeouts (c : OrderChannel) (nowMs : Int) : OrderChannel :=
  let r := c.tickBulkReplaceTimeouts nowMs
  { c with toOrderState := r.2, events := c.events ++ r.1 }

def shrinkTraces (env : OrderEnv) (c : OrderChannel) (nowMs : Int) : OrderChannel :=
  let r := c.tickOrderTraceLineShrink env nowMs
  { c with toOrderState := r.2, events := c.events ++ r.1 }

/-- `tick_orders_active_actions`: the cached deadlines decide whether anything is done. -/
def tick (env : OrderEnv) (c : OrderChannel) (nowMs : Int) : OrderChannel :=
  if c.hasDueTickWork nowMs then
    ((c.replaceTimeouts nowMs).shrinkTraces env nowMs).drainRemovals nowMs
  else c

/-- What the application can do to orders. -/
inductive Action
  | immune (items : List ImmuneItem)
  | stops (uid : Nat) (stops : StopSettings)
  | vstop (uid : Nat) (enabled fixed : Bool) (level volume : F64)
  | replace (uid : Nat) (newPrice : F64) (nowMs : Int)
  | cancel (uid : Nat)
  | panic (uid : Nat) (enabled : Bool)
  | panicByMarket (marketName : Bytes) (turnOn : Bool)
  | panicAll

/-- The commands to send and the new state. -/
def actOn (env : OrderEnv) (s : OrderState) : Action → List OrderCommandPayload × OrderState
  | .immune items => s.setImmuneClicks items
  | .stops uid stops => (s.sendStopsIfChanged uid stops).map Option.toList id
  | .vstop uid enabled fixed level volume =>
    (s.sendVstopIfChanged env uid enabled fixed level volume).map Option.toList id
  | .replace uid newPrice nowMs =>
    (s.sendReplaceIfRequested env uid newPrice nowMs).map Option.toList id
  | .cancel uid => (s.sendCancelIfRequested uid).map Option.toList id
  | .panic uid enabled => (s.sendPanicSellIfChanged uid enabled).map Option.toList id
  | .panicByMarket marketName turnOn => s.switchPanicSellByMarket env marketName turnOn
  | .panicAll => ([], s.markPanicSellAll.2)

/-- Everything that happens to the order state. `rehash` stands for the maps, whose order
of iteration is their own affair. -/
inductive Input
  | command (ctx : Context) (command : TradeCommand)
  | rescan (nowMs : Int) (marketExists : Bytes → Bool)
  | action (action : Action)
  | tick (nowMs : Int)
  | replaceTimeouts (nowMs : Int)
  | shrinkTraces (nowMs : Int)
  | drainRemovals (nowMs : Int)
  | setRoute (currency platform : UInt8)
  | setEpsProfile (epsM : F64)
  | rehash (read : OrderMap Order) (mirrors : OrderMap OrderMirror)

def step (env : OrderEnv) (c : OrderChannel) : Input → OrderChannel
  | .command ctx command => c.applyProtocol env ctx command
  | .rescan nowMs marketExists => c.rescanParked env nowMs marketExists
  | .action action =>
    let r := actOn env c.toOrderState action
    { c with toOrderState := r.2, commands := c.commands ++ r.1 }
  | .tick nowMs => c.tick env nowMs
  | .replaceTimeouts nowMs => c.replaceTimeouts nowMs
  | .shrinkTraces nowMs => c.shrinkTraces env nowMs
  | .drainRemovals nowMs => c.drainRemovals nowMs
  | .setRoute currency platform => { c with routeCurrency := currency, routePlatform := platform }
  | .setEpsProfile epsM => { c with epsM := epsM }
  | .rehash read mirrors =>
    if read.entries.Perm c.read.entries ∧ mirrors.entries.Perm c.mirrors.entries then
      { c with read := read, mirrors := mirrors }
    else c

def new (epsM : F64) : OrderChannel := { epsM := epsM }

/-- The channel behind a sequence of inputs. -/
def after (env : OrderEnv) (epsM : F64) (inputs : List Input) : OrderChannel :=
  inputs.foldl (step env) (new epsM)

theorem after_snoc (epsM : F64) (inputs : List Input) (input : Input) :
    after env epsM (inputs ++ [input]) = step env (after env epsM inputs) input := by
  unfold after
  rw [List.foldl_append]
  rfl

/-! ## Mirrors behind a merge -/

@[simp] theorem planRemoval_mirrors (nowMs : Int) (done : Bool) :
    (c.planRemoval uid nowMs done).mirrors = c.mirrors := by
  unfold planRemoval OrderState.markPendingRemoval
  split
  · split <;> rfl
  · rfl

@[simp] theorem planRemoval_read (nowMs : Int) (done : Bool) :
    (c.planRemoval uid nowMs done).read = c.read := by
  unfold planRemoval OrderState.markPendingRemoval
  split
  · split <;> rfl
  · rfl

@[simp] theorem afterMerge_mirrors
    (r : OrderMirror.MergeResult) (marketExists : Bytes → Bool) (nowMs : Int) :
    (c.afterMerge env uid r marketExists nowMs).mirrors = c.mirrors := by
  unfold afterMerge
  split
  · split
    · exact planRemoval_mirrors _ _ _ _
    · rfl
  · split
    · rfl
    · exact planRemoval_mirrors _ _ _ _

theorem mergeMirror_mirrors (m : OrderMirror)
    (msg : OrderMirror.Message) (marketExists : Bytes → Bool) (nowMs : Int) :
    (c.mergeMirror env uid m msg marketExists nowMs).mirrors =
      c.mirrors.insert uid (m.merge env msg).mirror := by
  unfold mergeMirror
  dsimp only
  rw [afterMerge_mirrors]
  split <;> rfl

theorem lookup_mergeState_of_ne {uid other : Nat}
    (h : other ≠ uid) (msg : OrderMirror.Message) (marketExists : Bytes → Bool) (nowMs : Int) :
    (c.mergeState env uid msg marketExists nowMs).mirrors.lookup other =
      c.mirrors.lookup other := by
  have hmerge : ∀ m, (c.mergeMirror env uid m msg marketExists nowMs).mirrors.lookup other =
      c.mirrors.lookup other := by
    intro m
    rw [mergeMirror_mirrors, lookup_insert_ne h]
  unfold mergeState
  split
  · split
    · rfl
    · split
      · rfl
      · exact hmerge _
  · split
    · rfl
    · exact hmerge _

theorem lookup_mergeState_of_some {c : OrderChannel} {uid : Nat}
    {m : OrderMirror} (h : c.mirrors.lookup uid = some m) {msg : OrderMirror.Message}
    (hdesc : ∀ d, msg.desc = some d → d = m.desc) (marketExists : Bytes → Bool) (nowMs : Int) :
    (c.mergeState env uid msg marketExists nowMs).mirrors.lookup uid =
      some (m.merge env msg).mirror := by
  have hsame : msg.desc.any (· ≠ m.desc) = false := by
    cases hd : msg.desc with
    | none => rfl
    | some d => simp [hdesc d hd]
  unfold mergeState
  simp only [h, hsame, Bool.false_eq_true, if_false]
  rw [mergeMirror_mirrors, lookup_insert]

theorem lookup_mergeState_of_none {c : OrderChannel} {uid : Nat}
    (h : c.mirrors.lookup uid = none) (htomb : c.isTombstoned uid = false)
    {msg : OrderMirror.Message} {desc : OrderDescription} (hdesc : msg.desc = some desc)
    (marketExists : Bytes → Bool) (nowMs : Int) :
    (c.mergeState env uid msg marketExists nowMs).mirrors.lookup uid =
      some ((OrderMirror.new desc).merge env msg).mirror := by
  unfold mergeState
  simp only [h, htomb, hdesc, Bool.false_eq_true, if_false]
  rw [mergeMirror_mirrors, lookup_insert]

end OrderChannel

end MoonProto
