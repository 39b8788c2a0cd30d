import MoonProto.Commands.EngineRequest
import MoonProto.Lib.FloatOps
import MoonProto.Lib.Serial

/-!
# Gap recovery of the trades stream

`state/trades.rs` with `gap_bucket.rs`, `packet_tracking.rs` and `recovery.rs`. Live
packets carry a wrapping 16-bit number. A jump opens a gap bucket, or extends the
one that ends right before the last packet; late and resent packets set bits in
the bucket that contains them; the tick asks for what a bucket still misses, closes
filled and hopeless buckets and shrinks the bit vectors of free slots.

Times are milliseconds. The retry delay is computed in doubles, so the tick takes
the floating-point operations as a parameter. The base time of a packet enters only
through its bits. The events that exist in diagnostics builds only are left out.
-/

namespace MoonProto

def maxGapBuckets : Nat := 50
def defaultRecvdSize : Nat := 100
def maxRecvdSize : Nat := 3000
def maxRetryCount : Nat := 3
def tradesPauseTimeoutMs : Nat := 30000
def largeRecvdShrinkMs : Int := 30 * 60 * 1000

/-! ## Gap buckets -/

/-- Inclusive range of packet numbers, with a bit for each number received. -/
structure GapBucket where
  active : Bool
  startNum : UInt16
  endNum : UInt16
  createdMs : Int
  lastRetryMs : Int
  retryCount : Nat
  refundUsed : Bool
  recvd : List Bool
deriving DecidableEq

namespace GapBucket

def new : GapBucket where
  active := false
  startNum := 0
  endNum := 0
  createdMs := 0
  lastRetryMs := 0
  retryCount := 0
  refundUsed := false
  recvd := List.replicate defaultRecvdSize false

def gapSize (b : GapBucket) : Nat :=
  (b.endNum - b.startNum).toNat + 1

end GapBucket

def isPacketInRange (packet start stop : UInt16) : Bool :=
  decide (packet - start ≤ stop - start)

/-- `Vec::resize(n, false)` of a vector that is not longer than `n`. -/
def growRecvd (recvd : List Bool) (n : Nat) : List Bool :=
  recvd ++ List.replicate (n - recvd.length) false

/-- The bit vector of a slot that is opened for `n` numbers. A vector that is too
short is only grown: the bits it holds stay as they are. -/
def resetRecvd (recvd : List Bool) (n : Nat) : List Bool :=
  if recvd.length < n then growRecvd recvd n
  else List.replicate n false ++ recvd.drop n

/-- The bit vector of a bucket whose range grows from `oldSize` to `newSize`
numbers: the first new number has been received, the others are missing. -/
def extendRecvd (recvd : List Bool) (oldSize newSize : Nat) : List Bool :=
  let recvd := if recvd.length < newSize then growRecvd recvd newSize else recvd
  let recvd := recvd.set oldSize true
  if oldSize + 1 < newSize then
    recvd.take (oldSize + 1) ++ List.replicate (newSize - (oldSize + 1)) false ++
      recvd.drop newSize
  else recvd

namespace GapBucket

/-- Take over a slot for a new gap; `active` is the caller's business. -/
def reuse (b : GapBucket) (startNum endNum : UInt16) (nowMs : Int) (gapSize : Nat) : GapBucket :=
  { b with
    startNum := startNum
    endNum := endNum
    createdMs := nowMs
    lastRetryMs := nowMs
    retryCount := 0
    refundUsed := false
    recvd := resetRecvd b.recvd gapSize }

/-- The bucket ends right before the last packet and may still grow. -/
def extendable (b : GapBucket) (newGapStart newGapEnd : UInt16) : Bool :=
  b.active && decide (b.retryCount < 2) && b.endNum == newGapStart - 2 &&
    decide ((newGapEnd - b.startNum).toNat + 1 ≤ maxRecvdSize)

/-- Extend the range to `newGapEnd`. The number right behind the old range is the
last packet, which has been received. One retry is refunded, once. -/
def extend (b : GapBucket) (newGapEnd : UInt16) : GapBucket :=
  let oldSize := (b.endNum - b.startNum).toNat + 1
  let newSize := (newGapEnd - b.startNum).toNat + 1
  let refund := decide (b.retryCount ≥ 1) && !b.refundUsed
  { b with
    endNum := newGapEnd
    recvd := extendRecvd b.recvd oldSize newSize
    retryCount := if refund then b.retryCount - 1 else b.retryCount
    refundUsed := b.refundUsed || refund }

/-- Set the bit of a number inside the range. -/
def markRecvd (b : GapBucket) (packetNum : UInt16) : GapBucket :=
  { b with recvd := b.recvd.set (packetNum - b.startNum).toNat true }

end GapBucket

/-! ## Effects of a packet header -/

inductive TradesPacketEffect where
  | apply
  | gapDetected (start stop : UInt16)
  | duplicate
  | outOfOrder (packetNum : UInt16)
  | gapFilled (packetNum : UInt16) (bucketSeqRange : UInt16 × UInt16)
deriving DecidableEq

/-- Stack buffer of four effects; a fifth would be dropped (and asserted against in
debug builds). -/
structure TradesPacketEffects where
  items : List TradesPacketEffect
deriving DecidableEq

namespace TradesPacketEffects

def new : TradesPacketEffects := ⟨[]⟩

def push (effects : TradesPacketEffects) (effect : TradesPacketEffect) : TradesPacketEffects :=
  if effects.items.length < 4 then ⟨effects.items ++ [effect]⟩ else effects

end TradesPacketEffects

/-! ## State -/

structure TradesState where
  buckets : List GapBucket
  usedBuckets : Nat
  lastPacketNum : UInt16
  lastPacketTimeMs : Int
  tradesStarted : Bool
  lastCheckMissingMs : Int
  lastLargeRecvdMs : Int
  /-- payload identities by the low 13 bits of the packet number -/
  seenPackets : UInt16 → UInt64

namespace TradesState

def new : TradesState where
  buckets := List.replicate maxGapBuckets GapBucket.new
  usedBuckets := 0
  lastPacketNum := 0
  lastPacketTimeMs := 0
  tradesStarted := false
  lastCheckMissingMs := 0
  lastLargeRecvdMs := 0
  seenPackets := fun _ => 0

def resetGapBuckets (s : TradesState) (nowMs : Int) : TradesState :=
  { s with
    buckets := s.buckets.map fun b => { b with active := false }
    usedBuckets := 0
    lastPacketTimeMs := nowMs
    tradesStarted := false }

def fullResetAt (s : TradesState) (nowMs : Int) : TradesState :=
  { s.resetGapBuckets nowMs with
    lastPacketNum := 0
    seenPackets := fun _ => 0 }

/-- Remember the identity of a payload; the result tells whether it was there. -/
def rememberPacket (s : TradesState) (packetNum : UInt16) (baseTime : UInt64) :
    Bool × TradesState :=
  let key := baseTime ^^^ (packetNum.toUInt64 <<< 48)
  let slot := packetNum &&& 8191
  (s.seenPackets slot == key,
    { s with seenPackets := fun i => if i = slot then key else s.seenPackets i })

/-! ## Packet tracking -/

/-- First slot with the smallest creation time. -/
def oldestIdx : List GapBucket → Nat
  | [] => 0
  | b :: bs =>
    match bs[oldestIdx bs]? with
    | none => 0
    | some oldest => if b.createdMs ≤ oldest.createdMs then 0 else oldestIdx bs + 1

/-- Open a bucket in the first free slot, or evict the oldest bucket. -/
def createBucket (s : TradesState) (startNum endNum : UInt16) (nowMs : Int) : TradesState :=
  let gapSize := min ((endNum - startNum).toNat + 1) maxRecvdSize
  -- remembers when a vector grew, for the lazy shrink
  let lastLargeRecvdMs := if gapSize > defaultRecvdSize then nowMs else s.lastLargeRecvdMs
  match s.buckets.findIdx? fun b => !b.active with
  | some i =>
    { s with
      buckets := s.buckets.modify i fun b =>
        { b.reuse startNum endNum nowMs gapSize with active := true }
      usedBuckets := s.usedBuckets + 1
      lastLargeRecvdMs := lastLargeRecvdMs }
  | none =>
    { s with
      buckets := s.buckets.modify (oldestIdx s.buckets) fun b =>
        b.reuse startNum endNum nowMs gapSize
      lastLargeRecvdMs := lastLargeRecvdMs }

/-- The bucket that contains a packet. With `wantExtend` an adjacent bucket is
extended over the new gap instead, which also moves the last packet number. -/
def findBucketForPacket (s : TradesState) (packetNum : UInt16) (wantExtend : Bool)
    (newGapStart newGapEnd : UInt16) : Option Nat × TradesState :=
  if s.usedBuckets = 0 then (none, s)
  else
    match s.buckets.findIdx? fun b => b.active && isPacketInRange packetNum b.startNum b.endNum with
    | some i => (some i, s)
    | none =>
      if !wantExtend then (none, s)
      else
        match s.buckets.findIdx? fun b => b.extendable newGapStart newGapEnd with
        | none => (none, s)
        | some i =>
          (some i, { s with
              buckets := s.buckets.modify i fun b => b.extend newGapEnd
              lastPacketNum := packetNum })

def pauseDetected (s : TradesState) (nowMs : Int) : Bool :=
  s.tradesStarted && decide (s.lastPacketTimeMs ≠ 0) &&
    decide ((nowMs - s.lastPacketTimeMs).natAbs > tradesPauseTimeoutMs)

/-- A new gap that no bucket was extended over. -/
def openGap (s : TradesState) (packetNum : UInt16) (nowMs : Int) :
    TradesPacketEffects × TradesState :=
  let last := s.lastPacketNum
  let gapSize := (packetNum - (last + 1)).toNat
  if gapSize > maxRecvdSize ∨ s.usedBuckets ≥ maxGapBuckets then
    -- `last_packet_num` stays; the next packet restarts tracking
    (TradesPacketEffects.new.push .apply, s.resetGapBuckets nowMs)
  else
    ((TradesPacketEffects.new.push (.gapDetected (last + 1) (packetNum - 1))).push .apply,
      { s.createBucket (last + 1) (packetNum - 1) nowMs with
        lastPacketNum := packetNum
        lastPacketTimeMs := nowMs })

/-- A packet that is neither the last one nor the next one: it fills a bucket,
extends one or opens a gap. -/
def onGapHeader (s : TradesState) (packetNum : UInt16) (nowMs : Int) :
    TradesPacketEffects × TradesState :=
  let newGapStart := s.lastPacketNum + 1
  let newGapEnd := packetNum - 1
  match s.findBucketForPacket packetNum true newGapStart newGapEnd with
  | (none, s) => s.openGap packetNum nowMs
  | (some i, s) =>
    match s.buckets[i]? with
    | none => s.openGap packetNum nowMs
    | some b =>
      if isPacketInRange packetNum b.startNum b.endNum then
        ((TradesPacketEffects.new.push (.gapFilled packetNum (b.startNum, b.endNum))).push .apply,
          { s with
            buckets := s.buckets.modify i fun b => b.markRecvd packetNum
            lastPacketTimeMs := nowMs })
      else
        ((TradesPacketEffects.new.push (.gapDetected newGapStart newGapEnd)).push .apply, { s with
            lastPacketNum := packetNum
            lastPacketTimeMs := nowMs })

/-- Packet-number branch of the live stream. -/
def onPacketHeader (s : TradesState) (packetNum : UInt16) (baseTime : UInt64) (nowMs : Int) :
    TradesPacketEffects × TradesState :=
  let s := (s.rememberPacket packetNum baseTime).2
  if !s.tradesStarted || s.pauseDetected nowMs then
    (TradesPacketEffects.new.push .apply, { s.resetGapBuckets nowMs with
        tradesStarted := true
        lastPacketNum := packetNum
        lastPacketTimeMs := nowMs })
  else if packetNum = s.lastPacketNum then
    ((TradesPacketEffects.new.push .duplicate).push .apply, { s with lastPacketTimeMs := nowMs })
  else if packetNum = s.lastPacketNum + 1 then
    (TradesPacketEffects.new.push .apply, { s with
        lastPacketNum := packetNum
        lastPacketTimeMs := nowMs })
  else s.onGapHeader packetNum nowMs

/-- Packet-number branch of a resent packet: it only sets bits, and its payload is
applied unless the same payload was the last one seen under this number. -/
def onPacketResendHeader (s : TradesState) (packetNum : UInt16) (baseTime : UInt64) :
    TradesPacketEffects × TradesState :=
  let (effects, s) :=
    match s.findBucketForPacket packetNum false 0 0 with
    | (none, s) => (TradesPacketEffects.new.push (.outOfOrder packetNum), s)
    | (some i, s) =>
      match s.buckets[i]? with
      | none => (TradesPacketEffects.new.push (.outOfOrder packetNum), s)
      | some b =>
        (TradesPacketEffects.new.push (.gapFilled packetNum (b.startNum, b.endNum)),
          { s with buckets := s.buckets.modify i fun b => b.markRecvd packetNum })
  let (duplicate, s) := s.rememberPacket packetNum baseTime
  (if duplicate then effects else effects.push .apply, s)

end TradesState

/-! ## Recovery tick -/

/-- What the tick reads besides the state. -/
structure TradesTick (F : Type) where
  ops : FloatOps F
  rttMs : Int
  deliveryRatio : F
  nowMs : Int
  /-- random ids of the requests it builds -/
  uids : Nat → UInt64

namespace TradesTick

variable {F : Type} (t : TradesTick F)

/-- Delay before the next request of a bucket; the first request of a bucket that
never got a refund comes sooner the better packets are delivered. -/
def pathDelayMs (retryCount : Nat) (refundUsed : Bool) : F :=
  let ops := t.ops
  let retryDelayMs := ops.ofInt (max t.rttMs 250)
  let minDelayMs := ops.lit 300 0
  let firstRetryFactor :=
    ops.clamp (ops.div (ops.sub (ops.lit 97 2) t.deliveryRatio) (ops.lit 12 2))
      (ops.lit 0 0) (ops.lit 1 0)
  let delay := ops.min
    (ops.max
      (ops.mul retryDelayMs (ops.add (ops.lit 12 1) (ops.mul (ops.ofInt retryCount) (ops.lit 7 1))))
      minDelayMs)
    (ops.lit 1800 0)
  if retryCount = 0 && !refundUsed then
    ops.add (ops.lit 32 0) (ops.mul (ops.sub delay (ops.lit 32 0)) firstRetryFactor)
  else delay

def overdue (b : GapBucket) : Bool :=
  t.ops.lt (t.pathDelayMs b.retryCount b.refundUsed)
    (t.ops.ofInt (t.nowMs - b.lastRetryMs).natAbs)

end TradesTick

/-- The numbers of a bucket whose bit is not set. -/
def GapBucket.missingNums (b : GapBucket) : List UInt16 :=
  ((List.range b.gapSize).filter fun j => !b.recvd.getD j false).map fun j =>
    b.startNum + UInt16.ofNat j

/-- The loop over the bits of a bucket; indexing behind the vector panics. -/
def GapBucket.missing (b : GapBucket) : Option (List UInt16) :=
  if b.gapSize ≤ b.recvd.length then some b.missingNums else none

/-- One active bucket in the tick: the numbers asked for and the bucket afterwards. -/
def GapBucket.tick {F : Type} (b : GapBucket) (t : TradesTick F) :
    Option (List UInt16 × GapBucket) :=
  if (b.recvd.take b.gapSize).all id then some ([], { b with active := false })
  else if b.retryCount ≥ maxRetryCount then
    some ([], if t.overdue b then { b with active := false } else b)
  else if t.overdue b then
    b.missing.map fun nums =>
      (nums, { b with retryCount := min (b.retryCount + 1) 255, lastRetryMs := t.nowMs })
  else some ([], b)

/-- What the loop over the buckets has gathered. -/
structure TickScan where
  buckets : List GapBucket
  usedBuckets : Nat
  packetNums : List UInt16

namespace TradesState

def tickLoop {F : Type} (t : TradesTick F) : List GapBucket → TickScan → Option TickScan
  | [], scan => some scan
  | b :: bs, scan =>
    if !b.active then tickLoop t bs { scan with buckets := scan.buckets ++ [b] }
    else
      (b.tick t).bind fun (nums, b) =>
        tickLoop t bs
          { buckets := scan.buckets ++ [b]
            usedBuckets := if b.active then scan.usedBuckets else scan.usedBuckets - 1
            packetNums := scan.packetNums ++ nums }

/-- Give back the memory of free slots that once held a large gap. -/
def shrinkRecvd (s : TradesState) (nowMs : Int) : TradesState :=
  if nowMs - s.lastLargeRecvdMs > largeRecvdShrinkMs then
    { s with
      buckets := s.buckets.map fun b =>
        if !b.active && decide (b.recvd.length > defaultRecvdSize) then
          { b with recvd := b.recvd.take defaultRecvdSize }
        else b
      lastLargeRecvdMs := nowMs }
  else s

/-- `tick_impl`: the request payloads to send and the state afterwards. -/
def tick {F : Type} (s : TradesState) (t : TradesTick F) : Option (List Bytes × TradesState) :=
  if t.nowMs - s.lastCheckMissingMs ≤ 100 then some ([], s)
  else
    let s := { s with lastCheckMissingMs := t.nowMs }
    if s.usedBuckets = 0 then some ([], s)
    else
      (tickLoop t s.buckets ⟨[], s.usedBuckets, []⟩).map fun scan =>
        let s := { s with buckets := scan.buckets, usedBuckets := scan.usedBuckets }
        let s := s.shrinkRecvd t.nowMs
        (if scan.packetNums.isEmpty then []
          else EngineRequest.tradesResendBatches t.uids scan.packetNums, s)

end TradesState

end MoonProto
