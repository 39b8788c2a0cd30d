import Mathlib.Data.List.Sort
import MoonProto.Client.AckBitmap
import MoonProto.Client.Connect

/-!
# Receiving

`src/client/protocol_recv.rs`, `protocol_recv_handlers.rs`,
`protocol_recv_state.rs` and the receive helpers of `protocol_helpers.rs`: what a
datagram that passed the transport MAC does to the client.

Handshake answers must fit the state of the handshake and carry the random value
of the window. Encrypted commands that arrive before authorization wait in a
list of their own. Every command that passes decoding ends in
`finish_decoded_command`; what the domain layer does with it afterwards is not
modelled, except that it may enqueue commands.
-/

namespace MoonProto

open Codec SynLZ

/-- `NEED_HELLO_AGAIN_THROTTLE_MS`. -/
def needHelloAgainThrottleMs : Int := 700

/-- `PRE_AUTH_CRYPTED_MAX_MSG_NUM`: the window of a fresh slider. -/
def preAuthCryptedMaxMsgNum : UInt64 := 64 * 64 - 1

/-- What a Ping response carries besides the state of the client. -/
structure PingInputs where
  now : UInt64
  totalSent : UInt64
  totalRecv : UInt64
  telemetry : PingTelemetry

/-- A datagram behind the transport MAC, with the clock at its arrival, the order
in which a cleanup would walk the sliced datagrams, and the inputs of a Ping
response. -/
structure Datagram where
  rawCmd : UInt8
  payload : Payload
  timestampMs : Int
  cleanupOrder : List UInt16
  ping : PingInputs

/-! ## Service records -/

/-- `padded_client_payload` with the record written to its front. -/
def paddedClientPayload (totalDatagramSize : UInt16) (record : Bytes) : Option Bytes :=
  let payloadLen := totalDatagramSize.toNat - 15
  if totalDatagramSize.toNat < 15 ∨ payloadLen < record.length then none
  else some (record ++ List.replicate (payloadLen - record.length) 0)

/-- `build_size_ack_payload`; the series number it stores is only ever read back
here. -/
def buildSizeAckPayload (payload : Bytes) : Option Bytes :=
  if payload.length < 6 then none
  else
    let size := readU16 (field payload 0 2)
    let seriesNum := readU16 (field payload 4 2)
    if size.toNat < 6 then none
    else paddedClientPayload size (u16Bytes size ++ (u16Bytes 0 ++ u16Bytes seriesNum))

/-- `build_probe_mtu_ack_payload`. -/
def buildProbeMtuAckPayload (payload : Bytes) : Option Bytes :=
  if payload.length < 5 then none
  else
    let probeId := readU16 (field payload 0 2)
    let testSize := readU16 (field payload 3 2)
    if testSize.toNat < 5 then none
    else paddedClientPayload testSize (u16Bytes probeId ++ (byteAt payload 2 :: u16Bytes testSize))

/-! ## Grouped packets -/

/-- The commands of a Grouped packet (command, length, bytes), up to the first one
that is cut off. The first argument bounds their number. -/
def groupedCommands : Nat → Bytes → List (UInt8 × Bytes)
  | 0, _ => []
  | n + 1, payload =>
    let sz := (readU16 (field payload 1 2)).toNat
    if payload.length < 3 ∨ payload.length < 3 + sz then []
    else (byteAt payload 0, (payload.drop 3).take sz)
      :: groupedCommands n (payload.drop (3 + sz))

/-! ## The owned decode cannot panic -/

theorem decodeCommandPayloadOwned_isSome {A : Aead} (st : DataReadState) (rawCmd : UInt8)
    (payload : Payload) : (decodeCommandPayloadOwned A st rawCmd payload).isSome := by
  obtain ⟨r, hr, -⟩ := decodeCommandPayloadOwned_eq (A := A) st rawCmd payload
  rw [hr]
  rfl

/-- `decode_command_payload_owned` without the panic, which does not occur. -/
def decodeOwned (A : Aead) (st : DataReadState) (rawCmd : UInt8) (payload : Payload) :
    Option (UInt8 × Payload) × DataReadState :=
  (decodeCommandPayloadOwned A st rawCmd payload).get
    (decodeCommandPayloadOwned_isSome st rawCmd payload)

theorem decodeOwned_eq {A : Aead} (st : DataReadState) (rawCmd : UInt8) (payload : Payload) :
    ((decodeOwned A st rawCmd payload).1.map seen, (decodeOwned A st rawCmd payload).2)
      = decodeCommandPayloadShared A st rawCmd payload.view := by
  obtain ⟨r, hr, heq⟩ := decodeCommandPayloadOwned_eq (A := A) st rawCmd payload
  simp only [decodeOwned, hr, Option.get_some]
  exact heq

/-- The ACK part of a Ping without the panic, which does not occur. -/
def pingAck (session : UInt32) (lock : SendLockState) (payload : Bytes) : SendLockState :=
  (receivePingAck session lock payload).get (receivePingAck_isSome session lock payload)

/-- The content of an encrypted command: its payload is decompressed if the
command byte says so. -/
def unpackInner (cmd : UInt8) (payload : Bytes) : Option (UInt8 × Bytes) :=
  if cmd &&& compressedFlag ≠ 0 then (mpDecompress payload).map fun d => (cmd &&& 0x7F, d)
  else some (cmd, payload)

namespace Client

/-! ## Handshake answers -/

/-- `decode_handshake_hello`. -/
def decodeHandshakeHello (env : Env) (cfg : ClientConfig) (cmd : Command) (payload : Bytes) :
    Option Hello :=
  (decryptWithCipher env.aead cfg.masterKey payload (handshakeAad cfg.clientId cmd.toByte)).bind
    Hello.fromBytes

/-- The record of a Fine message, which is sealed under the session's key. -/
def decodeFine (env : Env) (cfg : ClientConfig) (cipher : MoonKey) (payload : Bytes) :
    Option Hello :=
  (decryptWithCipher env.aead cipher payload (handshakeAad cfg.clientId Command.fine.toByte)).bind
    Hello.fromBytes

def applyWrongHello (c : Client) : Client :=
  { c with session := { c.session with authStatus := .connected } }

def applyWantNewHello (c : Client) : Client :=
  let c := c.fullReset
  { c with session := { c.session with
    lastSentHello := neverSentMs
    authStatus := .connected
    authorized := false
    needConnect := true
    softReconnect := false } }.markNextPrimaryHelloNewSession

def applyNeedHelloAgain (c : Client) (timestampMs : Int) : Client :=
  if needHelloAgainThrottleMs < (timestampMs - c.session.lastNeedHelloAgain).natAbs then
    let s := { c.session with
      lastNeedHelloAgain := timestampMs
      needConnect := true
      softReconnect := true
      lastSentHello := neverSentMs }
    if s.helloWaitState.allowsHelloAgainRetry then { c with session := s }
    else { c with session := { s with helloWaitState := .idle, waitingHelloStart := 0 } }
  else c

/-- The part of `apply_hello_and_build_imfriend` that adopts the server's session:
tokens, keys and ciphers. -/
def adoptSession (env : Env) (c : Client) (hello : Hello) : Client :=
  let c := c.acceptedServerMixTs hello.mixTs
  let prevAppToken := c.session.peerAppToken
  let c := { c with session := { c.session with
    serverToken := hello.serverToken, peerAppToken := hello.appToken } }
  let c := if prevAppToken ≠ 0 ∧ prevAppToken ≠ hello.appToken then
      c.record (.lifecycle .serverRestart) else c
  let (encodeKey, decodeKey) := generateSessionSubKeys env.shake128 c.cfg.masterKey
    c.cfg.clientId hello.serverToken hello.rnd
  let c := { c with
    session := { c.session with sessionRnd := hello.rnd, encodeCipher := some encodeKey }
    inb := { c.inb with
      dataReadState := { c.inb.dataReadState with decodeCipher := some decodeKey } }
    trace := { c.trace with ciphers := c.trace.ciphers + 1 } }
  let c := c.refreshAckSession32 env
  { c with session := { c.session with handshakePeerMix := hello.peerMix } }

def applyHelloAndBuildImfriend (env : Env) (c : Client) (hello : Hello) : Bytes × Client :=
  let (packet, c) := (c.adoptSession env hello).buildImfriendPacket env
  (packet.getD [], c)

/-- `apply_fine_auth_done`; restoring the subscriptions of the domain enqueues
commands and nothing else. -/
def applyFineAuthDone (c : Client) : Client :=
  { c with session := { c.session with
    needConnect := false
    authStatus := .authDone
    authorized := true
    helloWaitState := .idle
    handshakePeerMix := 0 } }

/-- `on_handshake_control`. -/
def onHandshakeControl (env : Env) (c : Client) (cmd : Command) (payload : Bytes) : Client :=
  if cmd = .wrongHello then
    if c.session.helloWaitState.allowsWrongHello then c.applyWrongHello else c
  else if cmd = .wantNewHello then
    if !c.shouldAcceptWantNewHello then c
    else
      match decodeHandshakeHello env c.cfg .wantNewHello payload with
      | none => c
      | some hello =>
        if !c.matchesRequestBoundReset hello then c
        else (c.acceptedServerMixTs hello.mixTs).applyWantNewHello
  else c

/-- `on_who_are_you`; the packet is sent twice, with a pause between. -/
def onWhoAreYou (env : Env) (c : Client) (payload : Bytes) (timestampMs : Int) : Client :=
  if !c.session.helloWaitState.allowsWhoAreYou || c.session.serverToken != 0 then c
  else
    match decodeHandshakeHello env c.cfg .whoAreYou payload with
    | none => c
    | some hello =>
      if !c.matchesCurrentHandshake hello then c
      else
        let (encrypted, c) := c.applyHelloAndBuildImfriend env hello
        let c := c.startHelloWait .primaryImFriendSent timestampMs
        let c := c.sendCommand env .imFriend encrypted [c.trace.ciphers]
        c.sendCommand env .imFriend encrypted [c.trace.ciphers]

def onFine (env : Env) (c : Client) (payload : Bytes) : Client :=
  if !c.session.helloWaitState.allowsFine then c
  else
    match c.inb.dataReadState.decodeCipher with
    | none => c
    | some cipher =>
      match decodeFine env c.cfg cipher payload with
      | none => c
      | some hello =>
        if !c.matchesCurrentFine hello then c
        else (c.acceptedServerMixTs hello.mixTs).applyFineAuthDone

/-! ## Service packets -/

def onNewSizeTest (env : Env) (c : Client) (payload : Bytes) : Client :=
  match buildSizeAckPayload payload with
  | none => c
  | some ack => c.sendCommand env .sizeAck ack []

def onNewProbeMtu (env : Env) (c : Client) (payload : Bytes) : Client :=
  match buildProbeMtuAckPayload payload with
  | none => c
  | some ack => c.sendCommand env .probeMTUAck ack []

/-- `on_new_sliced_ack`: an ACK of this hard session waits for the writer tick. -/
def onNewSlicedAck (c : Client) (payload : Bytes) : Client :=
  match parseAckBytes payload with
  | none => c
  | some (flags, datagramNum, session) =>
    if session = c.session.ackSession32Value then
      { c with sendLock := c.sendLock.pushSlicedAck ⟨flags, datagramNum, session⟩ }
    else c

/-- `apply_ping_and_build_response`: the response and the client behind it. The
rates, clock deltas and health figures it also stores are read by no modelled
function. -/
def applyPingAndBuildResponse (c : Client) (payload : Bytes) (inputs : PingInputs) :
    Option (Bytes × Client) :=
  (PingFrame.read payload).map fun ping =>
    let c := { c with
      session := { c.session with
        roundTripDelay := ping.tripDelay.toInt32.toInt
        actualPmtu := ping.pmtu
        needConnect := c.session.authStatus != .authDone && c.session.needConnect }
      sendLock := pingAck c.session.ackSession32Value c.sendLock payload }
    (ackPing ping inputs.now inputs.totalSent inputs.totalRecv c.session.ackSession32Value
      inputs.telemetry c.inb.dataReadState.slider, c)

def onNewPing (env : Env) (c : Client) (payload : Bytes) (inputs : PingInputs) : Client :=
  match c.applyPingAndBuildResponse payload inputs with
  | none => c
  | some (response, c) =>
    (c.sendCommand env .ping response []).record (.newData Command.ping.toByte payload)

/-! ## Commands -/

/-- `finish_decoded_command`. -/
def finishDecodedCommand (c : Client) (cmd : UInt8) (payload : Bytes) (timestampMs : Int)
    (origin : Origin) : Client :=
  let c := c.record (.finished ⟨cmd, payload, origin, c.session.authorized,
    c.inb.dataReadState.decodeCipher⟩)
  if Command.fromByte cmd = .needHelloAgain then c.applyNeedHelloAgain timestampMs
  else if Command.fromByte cmd = .sessionClose then c
  else c.record (.newData cmd payload)

/-- Where the content of a command comes from, as decoding will find it. -/
def originOf (env : Env) (c : Client) (rawCmd : UInt8) (payload : Bytes) : Origin :=
  if Command.fromByte (rawCmd &&& 0x7F) = Command.crypted then
    match c.inb.dataReadState.decodeCipher with
    | none => .plain
    | some cipher =>
      match decryptCommandNoReplay env.aead cipher payload with
      | none => .plain
      | some (hdr, plaintext) =>
        .opened ⟨cipher, payload, hdr, plaintext, c.inb.dataReadState.slider,
          c.trace.ciphers, false⟩
  else .plain

/-- `defer_crypted_before_auth`: is the command kept from dispatch, and the client
behind it. -/
def deferCryptedBeforeAuth (env : Env) (c : Client) (rawCmd : UInt8) (payload : Bytes)
    (timestampMs : Int) : Bool × Client :=
  if c.session.authorized || Command.fromByte rawCmd != Command.crypted then (false, c)
  else if !c.session.helloWaitState.allowsFine then (true, c)
  else
    match c.inb.dataReadState.decodeCipher with
    | none => (true, c)
    | some cipher =>
      match decryptCommandNoReplay env.aead cipher payload with
      | none => (true, c)
      | some (hdr, plaintext) =>
        if hdr.msgNum ≤ preAuthCryptedMaxMsgNum then
          (true, { c with inb := { c.inb with
            preAuthCrypted := c.inb.preAuthCrypted ++ [{
              msgNum := hdr.msgNum
              cmd := hdr.cmd
              payload := plaintext.drop 12
              timestampMs, cipher, data := payload, plaintext, hdr }] } })
        else (true, c)

def setDataReadState (c : Client) (st : DataReadState) : Client :=
  { c with inb := { c.inb with dataReadState := st } }

/-- `dispatch_command`. -/
def dispatchCommand (env : Env) (c : Client) (rawCmd : UInt8) (payload : Bytes)
    (timestampMs : Int) : Client :=
  let (deferred, c) := c.deferCryptedBeforeAuth env rawCmd payload timestampMs
  if deferred then c
  else
    let origin := c.originOf env rawCmd payload
    let (decoded, st) := decodeCommandPayloadShared env.aead c.inb.dataReadState rawCmd payload
    let c := c.setDataReadState st
    match decoded with
    | none => c
    | some (cmd, payload) => c.finishDecodedCommand cmd payload timestampMs origin

/-- `dispatch_command_owned`. -/
def dispatchCommandOwned (env : Env) (c : Client) (rawCmd : UInt8) (payload : Payload)
    (timestampMs : Int) : Client :=
  let (deferred, c) := c.deferCryptedBeforeAuth env rawCmd payload.view timestampMs
  if deferred then c
  else
    let origin := c.originOf env rawCmd payload.view
    let (decoded, st) := decodeOwned env.aead c.inb.dataReadState rawCmd payload
    let c := c.setDataReadState st
    match decoded with
    | none => c
    | some (cmd, payload) => c.finishDecodedCommand cmd payload.view timestampMs origin

/-- `dispatch_packet_commands`; a compressed Grouped packet is dropped. -/
def dispatchPacketCommands (env : Env) (c : Client) (rawCmd : UInt8) (payload : Bytes)
    (timestampMs : Int) : Client :=
  if Command.fromByte (rawCmd &&& 0x7F) ≠ Command.grouped then
    c.dispatchCommand env rawCmd payload timestampMs
  else if rawCmd &&& compressedFlag ≠ 0 then c
  else
    (groupedCommands payload.length payload).foldl
      (fun c sub => c.dispatchCommand env sub.1 sub.2 timestampMs) c

/-- One deferred command in `drain_deferred_pre_auth_crypted`. -/
def finishDeferred (c : Client) (item : PreAuthCryptedCommand) : Client :=
  let slider := c.inb.dataReadState.slider
  let (isNew, slider') := slider.judge item.msgNum
  let c := c.setDataReadState { c.inb.dataReadState with slider := slider' }
  if !isNew then c
  else
    let origin := Origin.opened ⟨item.cipher, item.data, item.hdr, item.plaintext, slider,
      c.trace.ciphers, true⟩
    match unpackInner item.cmd item.payload with
    | none => c
    | some (cmd, payload) => c.finishDecodedCommand cmd payload item.timestampMs origin

/-- `drain_deferred_pre_auth_crypted`: in the order of the message numbers, in the
order of arrival among equal ones. -/
def drainDeferredPreAuthCrypted (c : Client) : Client :=
  if !c.session.authorized || c.inb.preAuthCrypted.isEmpty then c
  else
    let deferred := c.inb.preAuthCrypted.insertionSort (fun a b => a.msgNum ≤ b.msgNum)
    deferred.foldl finishDeferred { c with inb := { c.inb with preAuthCrypted := [] } }

/-- `on_new_sliced`. -/
def onNewSliced (env : Env) (c : Client) (payload : Bytes) (timestampMs : Int) : Client :=
  if (SliceHeader.fromBytes payload).isNone then c
  else
    let ((assembled, ack), slicer) :=
      c.inb.recvSlicer.onNewSlicedWithSession payload c.session.ackSession32Value
    let c := { c with inb := { c.inb with recvSlicer := slicer } }
    let c := c.sendCommand env .slicedACK ack []
    match assembled with
    | none => c
    | some m =>
      let c := c.dispatchCommandOwned env m.cmd m.data timestampMs
      { c with inb := { c.inb with recvSlicer := c.inb.recvSlicer.remove m.datagramNum } }

/-! ## Datagrams -/

/-- The slicer's clock and cleanup in front of every command. -/
def tidySlicer (c : Client) (timestampMs : Int) (order : List UInt16) : Client :=
  { c with inb := { c.inb with
    recvSlicer := (c.inb.recvSlicer.setLastOnline timestampMs).doCleanup order } }

/-- `route_command_inner` behind the check for WantNewHello. -/
def routeByCommand (env : Env) (c : Client) (d : Datagram) : Client :=
  let cmd := Command.fromByte d.rawCmd
  let payload := d.payload.view
  if cmd = .ping then
    if !c.session.authorized then c else c.onNewPing env payload d.ping
  else if cmd = .wrongHello then c.onHandshakeControl env cmd payload
  else if cmd = .whoAreYou then c.onWhoAreYou env payload d.timestampMs
  else if cmd = .fine then (c.onFine env payload).drainDeferredPreAuthCrypted
  else if cmd = .sizeTest then c.onNewSizeTest env payload
  else if cmd = .probeMTU then c.onNewProbeMtu env payload
  else if cmd = .slicedACK then c.onNewSlicedAck payload
  else if cmd = .sliced then c.onNewSliced env payload d.timestampMs
  else if Command.fromByte (d.rawCmd &&& 0x7F) = .grouped then
    c.dispatchPacketCommands env d.rawCmd payload d.timestampMs
  else c.dispatchCommandOwned env d.rawCmd d.payload d.timestampMs

/-- `route_command`. -/
def routeCommand (env : Env) (c : Client) (d : Datagram) : Client :=
  if Command.fromByte d.rawCmd = .wantNewHello then
    c.onHandshakeControl env .wantNewHello d.payload.view
  else (c.tidySlicer d.timestampMs d.cleanupOrder).routeByCommand env d

/-- `apply_recv_side_effects`. -/
def applyRecvSideEffects (c : Client) (timestampMs : Int) : Client :=
  { c with session := { c.session with
    connected := true
    authStatus := if c.session.authStatus = .base then .connected else c.session.authStatus
    lastOnline := timestampMs } }

/-- `process_datagram` behind the transport MAC. -/
def processDatagram (env : Env) (c : Client) (d : Datagram) : Client :=
  if Command.fromByte d.rawCmd = .wantNewHello then c.routeCommand env d
  else (c.applyRecvSideEffects d.timestampMs).routeCommand env d

variable {d : Datagram} (env : Env)

theorem processDatagram_wantNewHello (c : Client)
    (hcmd : Command.fromByte d.rawCmd = .wantNewHello) :
    c.processDatagram env d = c.onHandshakeControl env .wantNewHello d.payload.view := by
  unfold processDatagram routeCommand
  rw [if_pos hcmd, if_pos hcmd]

theorem processDatagram_whoAreYou (c : Client) (hcmd : Command.fromByte d.rawCmd = .whoAreYou) :
    c.processDatagram env d = ((c.applyRecvSideEffects d.timestampMs).tidySlicer d.timestampMs
      d.cleanupOrder).onWhoAreYou env d.payload.view d.timestampMs := by
  unfold processDatagram routeCommand routeByCommand
  rw [hcmd]
  rfl

theorem processDatagram_fine (c : Client) (hcmd : Command.fromByte d.rawCmd = .fine) :
    c.processDatagram env d = (((c.applyRecvSideEffects d.timestampMs).tidySlicer d.timestampMs
      d.cleanupOrder).onFine env d.payload.view).drainDeferredPreAuthCrypted := by
  unfold processDatagram routeCommand routeByCommand
  rw [hcmd]
  rfl

theorem dispatchCommandOwned_eq (c : Client) (rawCmd : UInt8) (payload : Payload)
    (timestampMs : Int) :
    c.dispatchCommandOwned env rawCmd payload timestampMs
      = c.dispatchCommand env rawCmd payload.view timestampMs := by
  unfold dispatchCommandOwned dispatchCommand
  simp only
  split
  · rfl
  generalize (c.deferCryptedBeforeAuth env rawCmd payload.view timestampMs).2 = c'
  have heq := decodeOwned_eq (A := env.aead) c'.inb.dataReadState rawCmd payload
  rw [← heq]
  cases (decodeOwned env.aead c'.inb.dataReadState rawCmd payload).1 with
  | none => rfl
  | some r => rfl

end Client

end MoonProto
