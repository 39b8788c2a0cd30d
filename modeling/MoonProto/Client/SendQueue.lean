import MoonProto.Protocol.Slider
import MoonProto.Protocol.Control

/-!
# Send queues

The state behind `SendLock` in `src/client/send_queue.rs`: the three queues of
commands waiting for the writer tick, the sliced ACKs waiting for it, and the
slider holding the last ACK bitmap of the peer.
-/

namespace MoonProto

open Codec

inductive SendPriority
  | sliced
  | high
  | low
deriving DecidableEq

/-- Deduplication key; kind 0 (`UK_NONE`) means no deduplication. -/
structure UniqueKey where
  kind : UInt8
  uid : UInt64
deriving DecidableEq

def UniqueKey.none : UniqueKey := ⟨0, 0⟩

def UniqueKey.isNone (k : UniqueKey) : Bool := k.kind == 0

structure SendItem where
  data : Bytes
  cmd : UInt8
  encrypted : Bool
  priority : SendPriority
  retryLeft : Int
  maxRetries : Int
  msgNum : UInt64
  lastSentAt : Int
  uKey : UniqueKey
deriving DecidableEq

def initialRetryLeft (encrypted : Bool) (maxRetries : Int) : Int :=
  if encrypted then max (maxRetries - 1) 0 else 0

structure SendQueues where
  sliced : List SendItem
  high : List SendItem
  low : List SendItem
deriving DecidableEq

namespace SendQueues

def empty : SendQueues := ⟨[], [], []⟩

/-- Remove the first queued item with this key, if the key deduplicates. -/
def dropOlder (key : UniqueKey) (queue : List SendItem) : List SendItem :=
  if key.isNone then queue else queue.eraseP (·.uKey == key)

def pushSendCmdInt (q : SendQueues) (item : SendItem) : SendQueues :=
  match item.priority with
  | .sliced => { q with sliced := dropOlder item.uKey q.sliced ++ [item] }
  | .high => { q with high := dropOlder item.uKey q.high ++ [item] }
  | .low => { q with low := q.low ++ [item] }

end SendQueues

/-- A sliced ACK as it was read off the wire (`SlicedAck`): one bit a block. -/
structure SlicedAck where
  flags : Vector UInt8 32
  datagramNum : UInt16
  session : UInt32
deriving DecidableEq

structure SendLockState where
  sendQueues : SendQueues
  incomingSlicedAcks : List SlicedAck
  tmpSlider : Slider
deriving DecidableEq

namespace SendLockState

/-- The initial state (`Default`). -/
def empty : SendLockState := ⟨SendQueues.empty, [], Slider.new⟩

def pushSendCmdInt (s : SendLockState) (item : SendItem) : SendLockState :=
  { s with sendQueues := s.sendQueues.pushSendCmdInt item }

def pushSlicedAck (s : SendLockState) (ack : SlicedAck) : SendLockState :=
  { s with incomingSlicedAcks := s.incomingSlicedAcks ++ [ack] }

def copyTmpSlider (s : SendLockState) : Option Slider × SendLockState :=
  (if s.tmpSlider.hasNewData then some s.tmpSlider else none,
    { s with tmpSlider := { s.tmpSlider with hasNewData := false } })

/-- The words of an ACK bitmap laid into an empty field. -/
def ackField (words : List UInt64) : Vector UInt64 64 :=
  Vector.ofFn fun i => words.getD i 0

/-- The `count` words of a Ping payload from `offset` on; `none` where the
source would slice out of bounds. -/
def readAckWords (payload : Bytes) (offset count : Nat) : Option (List UInt64) :=
  (List.range count).mapM fun i =>
    (slice payload (offset + i * 8) (offset + i * 8 + 8)).map readU64

/-- `apply_ping_ack_bitmap`. A payload that ends at the offset carries no words
and is ignored. -/
def applyPingAckBitmap (s : SendLockState) (payload : Bytes) (ackWordsOffset : Nat) :
    Option SendLockState :=
  if ackWordsOffset < payload.length ∧ pingSize ≤ ackWordsOffset then do
    let srvAckStart ← (slice payload 42 50).map readU64
    let rCount := min ((payload.length - ackWordsOffset) / 8) 64
    let words ← readAckWords payload ackWordsOffset rCount
    some { s with tmpSlider := { s.tmpSlider with
      bitField := ackField words
      startNum := srvAckStart
      hasNewData := true
      rCount := rCount } }
  else some s

def resetTmpSlider (s : SendLockState) : SendLockState := { s with tmpSlider := Slider.new }

/-- `take_send_snapshot`: the queues and ACKs are emptied, the bitmap copied. -/
def takeSendSnapshot (s : SendLockState) :
    (SendQueues × List SlicedAck × Option Slider) × SendLockState :=
  let (slider, s') := s.copyTmpSlider
  ((s.sendQueues, s.incomingSlicedAcks, slider),
    { s' with sendQueues := SendQueues.empty, incomingSlicedAcks := [] })

end SendLockState

end MoonProto
