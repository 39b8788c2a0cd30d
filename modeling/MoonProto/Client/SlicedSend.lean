import MoonProto.Client.DirectSend

/-!
# Sending sliced commands, and the send phase

`src/client/protocol_sliced_send.rs` and `src/client/protocol_send.rs`: a Sliced
item is cut into blocks and kept until acknowledged, retry passes send the
blocks, and `check_sening_data` runs the whole send phase of a writer tick in
its fixed order.
-/

namespace MoonProto

open Codec

/-- Path delay and byte budget of a retry pass; the source computes both in
floating point from the round-trip time, the send rate and the tick length. -/
structure Pacing where
  pathDelay : Int
  clientLimit : Nat
deriving DecidableEq

/-- `sliced_retry_round_trip_delay`. -/
def slicedRetryRoundTripDelay (roundTripDelay : Int) : Int :=
  if roundTripDelay ≤ 0 then 200 else roundTripDelay

/-- The bytes of a block behind the transport header and the slice header. -/
def slicePmtu (actualPmtu : UInt16) : Int := (actualPmtu.toNat : Int) - 15 - sliceHeaderSize

/-- `max_sliced_data_size`: 256 blocks less crypto header, IV, tag, padding and
the command byte. -/
def maxSlicedDataSize (pmtu : Nat) : Nat := pmtu * 256 - (12 + 12 + 16 + 16 + 1)

namespace Client

/-- `apply_sliced_send_u_key_cleanup`: each new item replaces the first datagram
in flight with its key. -/
def applySlicedSendUKeyCleanup (c : Client) (sliced : List SendItem) : Client :=
  { c with out := { c.out with
    sending := sliced.foldl (fun sending item =>
      if item.uKey.isNone then sending else sending.eraseP (·.uKey == item.uKey))
      c.out.sending } }

/-- `apply_copy_acks`. -/
def applyCopyAcks (c : Client) (copyAcks : List SlicedAck) (curTm : Int) : Client :=
  { c with out := { c.out with
    sending := copyAcks.foldl (fun sending ack => SentSliced.applySlicedAck ack curTm sending)
      c.out.sending } }

/-- The end of `create_sliced_and_send`: cut the message and put it in flight. -/
def putInFlight (c : Client) (pmtu : Nat) (wireCmd : UInt8) (wireData : Bytes) (item : SendItem)
    (sealedBy : Option Nat) : Client :=
  let new := SentSliced.create c.out.sendDatagramNum pmtu wireCmd wireData item.maxRetries
    item.uKey sealedBy
  { c with out := { c.out with
    sendDatagramNum := c.out.sendDatagramNum + 1
    sending := new.insertByBlocks c.out.sending
    lastCheckedSlices := 0 } }

/-- Does `create_sliced_and_send` take a message of this size? -/
def admitsSliced (c : Client) (sendData : Bytes) : Bool :=
  decide (0 < slicePmtu c.session.actualPmtu)
    && decide (sendData.length < maxSlicedDataSize (slicePmtu c.session.actualPmtu).toNat)
    && !sendData.isEmpty

/-- `create_sliced_and_send`. -/
def createSlicedAndSend (env : Env) (c : Client) (item : SendItem) : Client :=
  let (sendCmd, sendData) := maybeCompress item.cmd item.data
  let pmtu := (slicePmtu c.session.actualPmtu).toNat
  if !c.admitsSliced sendData then c
  else if item.encrypted then
    let (msgNum, c) := c.msgNumFor item
    match c.sealCommand env sendCmd sendData msgNum (decide (0 < item.retryLeft)) with
    | none => c.drew
    | some (wireCmd, wireData) =>
      c.drew.putInFlight pmtu wireCmd wireData item (some c.trace.ciphers)
  else c.putInFlight pmtu sendCmd sendData item none

/-- Send one slice with the command byte of sliced blocks. -/
def sendSlice (env : Env) (c : Client) (slice : Bytes × Option Nat) : Client :=
  { c with out := { c.out with slices := c.out.slices ++ [slice.1] } }.sendRawPacketCmd env
    Command.sliced.toByte slice.1 slice.2.toList

/-- `retry_sliced`. -/
def retrySliced (env : Env) (c : Client) (curTm : Int) (pacing : Pacing) : Client :=
  if c.out.sending.isEmpty then c
  else if ((curTm - c.out.lastCheckedSlices).natAbs : Int)
      ≤ slicedRetryRoundTripDelay c.session.roundTripDelay then c
  else
    let pass := SentSliced.retryPass curTm pacing.pathDelay pacing.clientLimit c.out.sending 0 curTm
    let c := pass.toSend.foldl (fun c slice => c.sendSlice env slice) c
    { c with out := { c.out with
      sending := pass.kept, lastCheckedSlices := pass.lastCheckedSlices } }

/-- `send_low_items_around_sliced_retry`. -/
def sendLowItemsAroundSlicedRetry (env : Env) (c : Client) (lItems : List SendItem) (curTm : Int)
    (pacing : Pacing) : Client :=
  let c := (lItems.take 1).foldl (fun c item => c.batchSendDirect env item) c
  let c := (c.flushSendBatch env).retrySliced env curTm pacing
  let c := (lItems.drop 1).foldl (fun c item => c.batchSendDirect env item) c
  c.flushSendBatch env

/-- `check_sening_data`. -/
def checkSeningData (env : Env) (c : Client) (queues : SendQueues) (acks : List SlicedAck)
    (curTm : Int) (pacing : Pacing) : Client :=
  let c := c.applySlicedSendUKeyCleanup queues.sliced
  let c := queues.sliced.foldl (fun c item => c.createSlicedAndSend env item) c
  let c := (c.applyCopyAcks acks curTm).applyRegularHlAck
  let c := c.applyHighSendUKeyCleanup queues.high
  let c := queues.high.foldl (fun c item => c.sendHItem env item curTm) c
  let c := c.retryPendingH env curTm
  c.sendLowItemsAroundSlicedRetry env queues.low curTm pacing

/-- `copy_send_ack_and_check_sening_data`: take a snapshot under the send lock,
then run the send phase on it. -/
def copySendAckAndCheckSeningData (env : Env) (c : Client) (curTm : Int) (pacing : Pacing) :
    Client :=
  let ((queues, acks, tmpSlider), sendLock) := c.sendLock.takeSendSnapshot
  let c := { c with
    sendLock := sendLock
    inb := { c.inb with recvdSlider := tmpSlider.getD c.inb.recvdSlider } }
  c.checkSeningData env queues acks curTm pacing

end Client

end MoonProto
