import MoonProto.Client.State

/-!
# Sending commands directly

`src/client/protocol_direct_send.rs` and the two helpers of
`src/client/protocol_io.rs` it shares with the sliced path: compression, the
crypto envelope, the batch buffer that collects small messages into one
datagram, the High queue with its retries and the Low queue.
-/

namespace MoonProto

open Codec SynLZ

/-- `MIN_SIZE_TO_COMPRESS`. -/
def minSizeToCompress : Nat := 64

/-- `maybe_compress`: a command that is not yet marked is compressed where that
pays, and then marked. -/
def maybeCompress (cmd : UInt8) (data : Bytes) : UInt8 × Bytes :=
  if cmd &&& compressedFlag = 0 ∧ minSizeToCompress < data.length then
    match mpCompress data with
    | some compressed => (cmd ||| compressedFlag, compressed)
    | none => (cmd, data)
  else (cmd, data)

/-- `crypted_wire_cmd`: the envelope is marked like the command inside. -/
def cryptedWireCmd (innerCmd : UInt8) : UInt8 :=
  if innerCmd &&& compressedFlag ≠ 0 then Command.crypted.toByte ||| compressedFlag
  else Command.crypted.toByte

/-- `pending_h_path_delay`: `round(1.1 * rtt + 10)` between 200 and 500. -/
def pendingHPathDelay (roundTripDelay : Int) : Int :=
  max 200 (min 500 ((11 * roundTripDelay + 105) / 10))

def retryDue (lastSentAt curTm pathDelay : Int) : Bool :=
  decide (pathDelay < (lastSentAt - curTm).natAbs)

namespace Client

/-! ## The crypto envelope -/

/-- Take the next message number. -/
def nextMsgNum (c : Client) : UInt64 × Client :=
  (c.out.cryptMsgCounter + 1,
    { c with out := { c.out with cryptMsgCounter := c.out.cryptMsgCounter + 1 } })

/-- The number of an item: its own if it was sent before. -/
def msgNumFor (c : Client) (item : SendItem) : UInt64 × Client :=
  if item.msgNum ≠ 0 then (item.msgNum, c) else c.nextMsgNum

/-- The crypto header and the command, sealed under the encode cipher: command
byte and bytes for the wire. Without a cipher there is nothing to send. -/
def sealCommand (env : Env) (c : Client) (cmd : UInt8) (data : Bytes) (msgNum : UInt64)
    (wantAck : Bool) : Option (UInt8 × Bytes) :=
  c.session.encodeCipher.map fun cipher =>
    let cryptoHdr : CryptoHeader := ⟨env.rnd c.trace.draws, msgNum, cmd, wantAck⟩
    (cryptedWireCmd cmd, encryptWithCipher env.aead cipher (env.iv c.trace.draws).toList
      (cryptoHdr.toBytes ++ data) [])

/-! ## The batch buffer -/

/-- `flush_send_batch`: several messages go out as one Grouped packet, a single
one without the group header. -/
def flushSendBatch (env : Env) (c : Client) : Client :=
  if c.out.tmpSendCount = 0 then c
  else
    let buf := c.out.tmpSendBuf
    let c :=
      if 1 < c.out.tmpSendCount then c.sendCommand env .grouped buf c.out.tmpSealedBy
      else if 3 ≤ buf.length then
        c.sendCommandRaw env (byteAt buf 0) (buf.drop 3) c.out.tmpSealedBy
      else c
    { c with out := { c.out with
      tmpSendBuf := [], tmpSendCount := 0, tmpSendSize := 0, tmpSealedBy := [] } }

/-- `push_tmp_send_item`. -/
def pushTmpSendItem (c : Client) (wireCmd : UInt8) (wireData : Bytes) (accountedSize : Nat)
    (sealedBy : List Nat) : Client :=
  { c with out := { c.out with
    tmpSendBuf := c.out.tmpSendBuf
      ++ (wireCmd :: (u16Bytes (UInt16.ofNat wireData.length) ++ wireData))
    tmpSendCount := c.out.tmpSendCount + 1
    tmpSendSize := c.out.tmpSendSize + accountedSize
    tmpSealedBy := c.out.tmpSealedBy ++ sealedBy } }

/-- What a message counts in the batch: its bytes, a transport header and a group
header. -/
def accountedSize (wireData : Bytes) : Nat := wireData.length + 15 + 3

/-- `do_send_mp_data_wire`. A message that does not fit goes out directly if it is
at least as large as what is buffered; otherwise the buffer goes out and the
message starts the next one. -/
def doSendMpDataWire (env : Env) (c : Client) (wireCmd : UInt8) (wireData : Bytes)
    (sealedBy : List Nat) : Client :=
  let c := c.record (.handedOver wireCmd wireData)
  let size := accountedSize wireData
  if c.session.actualPmtu.toNat < c.out.tmpSendSize + size then
    if size < c.out.tmpSendSize then
      (c.flushSendBatch env).pushTmpSendItem wireCmd wireData size sealedBy
    else c.sendCommandRaw env wireCmd wireData sealedBy
  else c.pushTmpSendItem wireCmd wireData size sealedBy

/-! ## High and Low commands -/

/-- The copy of a High item that is kept for retries: compressed, and with its
number. -/
def pendingCopy (item : SendItem) (cmd : UInt8) (data : Bytes) (msgNum : UInt64) (curTm : Int) :
    SendItem :=
  { item with msgNum := msgNum, lastSentAt := curTm, cmd := cmd, data := data }

/-- `send_h_item`. The caller's item is not used again, so its new `last_sent_at`
is not modelled. -/
def sendHItem (env : Env) (c : Client) (item : SendItem) (curTm : Int) : Client :=
  let (effCmd, effData) := maybeCompress item.cmd item.data
  if item.encrypted then
    let (msgNum, c) := c.msgNumFor item
    match c.sealCommand env effCmd effData msgNum (decide (0 < item.retryLeft)) with
    | none => c.drew
    | some (wireCmd, wireData) =>
      let c := c.drew.doSendMpDataWire env wireCmd wireData [c.trace.ciphers]
      if 0 < item.retryLeft ∧ item.msgNum = 0 then
        { c with out := { c.out with
          pendingH := c.out.pendingH ++ [pendingCopy item effCmd effData msgNum curTm] } }
      else c
  else c.doSendMpDataWire env effCmd effData []

/-- `apply_regular_hl_ack`: drop what the peer's last bitmap confirms. A bitmap
has at most 64 words, so the lookup does not panic (`ackConfirmsMsg_isSome`). -/
def applyRegularHlAck (c : Client) : Client :=
  let slider := c.inb.recvdSlider
  if !slider.hasNewData then c
  else
    { c with
      inb := { c.inb with recvdSlider := { slider with hasNewData := false } }
      out := { c.out with
        pendingH := c.out.pendingH.filter fun d => slider.ackConfirmsMsg d.msgNum != some true } }

/-- `apply_high_send_u_key_cleanup`: each new item replaces the first pending one
with its key. -/
def applyHighSendUKeyCleanup (c : Client) (hItems : List SendItem) : Client :=
  { c with out := { c.out with
    pendingH := hItems.foldl (fun pending item => SendQueues.dropOlder item.uKey pending)
      c.out.pendingH } }

/-- The copy of a pending item that `retry_pending_h` sends now, if it is due. -/
def resendOf (curTm pathDelay : Int) (item : SendItem) : Option SendItem :=
  if retryDue item.lastSentAt curTm pathDelay then some { item with lastSentAt := curTm }
  else none

/-- What `retry_pending_h` keeps of a pending item. -/
def keptOf (curTm pathDelay : Int) (item : SendItem) : Option SendItem :=
  if retryDue item.lastSentAt curTm pathDelay then
    if item.retryLeft - 1 ≤ 0 then none
    else some { item with lastSentAt := curTm, retryLeft := item.retryLeft - 1 }
  else some item

/-- `retry_pending_h`. -/
def retryPendingH (env : Env) (c : Client) (curTm : Int) : Client :=
  let pathDelay := pendingHPathDelay c.session.roundTripDelay
  let toResend := c.out.pendingH.filterMap (resendOf curTm pathDelay)
  let c := { c with out := { c.out with
    pendingH := c.out.pendingH.filterMap (keptOf curTm pathDelay) } }
  toResend.foldl (fun c item => c.sendHItem env item curTm) c

/-- `batch_send_direct`: a Low item, always under a fresh number. -/
def batchSendDirect (env : Env) (c : Client) (item : SendItem) : Client :=
  let (effCmd, effData) := maybeCompress item.cmd item.data
  if item.encrypted then
    let (msgNum, c) := c.nextMsgNum
    match c.sealCommand env effCmd effData msgNum (decide (0 < item.retryLeft)) with
    | none => c.drew
    | some (wireCmd, wireData) =>
      c.drew.doSendMpDataWire env wireCmd wireData [c.trace.ciphers]
  else c.doSendMpDataWire env effCmd effData []

end Client

end MoonProto
