import MoonProto.Client.SlicedSend

/-!
# Connecting

`src/client/protocol_connect.rs`: the handshake packets the client sends, the
timers that start and repeat them, offline detection, and the forced disconnect
with its `SessionClose`.

A primary handshake starts a hard session (new token, new keys, nothing carried
over), a rebind keeps the session and proves it with the old keys. Each of them
opens a window with a random value of its own, which the answers must carry.
-/

namespace MoonProto

open Codec

/-- `OFFLINE_BASE_MS`. -/
def offlineBaseMs : Int := 2300

/-- `RECONNECT_WAITING_MS`. -/
def reconnectWaitingMs : Int := 7000

/-- `RECONNECT_THROTTLE_MS`. -/
def reconnectThrottleMs : Int := 15000

/-- `DEAD_ZONE_MS`. -/
def deadZoneMs : Int := 5000

namespace Client

/-! ## Handshake packets -/

/-- `new_handshake_rnd`: open a window. -/
def newHandshakeRnd (env : Env) (c : Client) : Client :=
  let rnd := env.handshakeRnd c.trace.draws
  { c.drew with
    session := { c.session with handshakeRnd := rnd, handshakePeerMix := 0 }
    trace := { c.drew.trace with windows := c.trace.windows ++ [rnd] } }

/-- Every handshake packet carries the next token. -/
def bumpClientToken (c : Client) : Client :=
  { c with session := { c.session with clientToken := c.session.clientToken + 1 } }

/-- A handshake record of the current window with the tokens of both sides. -/
def handshakeRecord (env : Env) (c : Client) (serverToken peerMix : UInt64) : Hello where
  rnd := c.session.handshakeRnd
  mixTs := c.session.clientToken
  timestamp := env.now c.trace.draws
  serverToken
  peerMix
  appToken := c.session.appToken

/-- Seal a handshake record for a command. -/
def sealHandshake (env : Env) (c : Client) (key : MoonKey) (cmd : Command) (hello : Hello) :
    Bytes :=
  encryptWithCipher env.aead key (env.iv c.trace.draws).toList hello.toBytesPacked
    (handshakeAad c.cfg.clientId cmd.toByte)

def sendHello (env : Env) (c : Client) : Client :=
  let c := c.bumpClientToken
  let payload := c.sealHandshake env c.cfg.masterKey .hello (c.handshakeRecord env 0 0)
  c.drew.sendCommand env .hello payload []

def buildHelloAgainPacket (env : Env) (c : Client) : Option (Bytes × Client) :=
  if c.session.serverToken = 0 then none
  else
    let c := c.bumpClientToken
    let peerMix := calculateHelloAgainPeerMix env.shake128 c.session.handshakeRnd
      c.session.clientToken c.session.serverToken c.session.sessionRnd
    some (c.sealHandshake env c.cfg.masterKey .helloAgain
      (c.handshakeRecord env c.session.serverToken peerMix), c.drew)

def sendHelloAgain (env : Env) (c : Client) : Client :=
  match c.buildHelloAgainPacket env with
  | none => c
  | some (encrypted, c) => c.sendCommand env .helloAgain encrypted []

/-- `build_imfriend_packet`: the packet, if there is one, and the client that has
drawn for it. Only this packet is sealed under the encode cipher. -/
def buildImfriendPacket (env : Env) (c : Client) : Option Bytes × Client :=
  if c.session.serverToken = 0 then (none, c)
  else
    let c := c.bumpClientToken
    (c.session.encodeCipher.map fun cipher => c.sealHandshake env cipher .imFriend
      (c.handshakeRecord env c.session.serverToken c.session.handshakePeerMix), c.drew)

def sendImfriend (env : Env) (c : Client) : Client :=
  match c.buildImfriendPacket env with
  | (none, c) => c
  | (some encrypted, c) => c.sendCommand env .imFriend encrypted [c.trace.ciphers]

/-! ## Windows -/

def nextPrimaryHelloState (c : Client) : HelloWaitState :=
  if c.session.nextPrimaryHelloNewSession || c.session.wasEverConnected
      || c.session.serverToken != 0 then .primaryHelloNewSession
  else .primaryHelloCold

/-- What `begin_primary_hello` clears before it opens the window. -/
def dropSession (c : Client) : Client :=
  let c := { c with session := { c.session with softReconnect := false } }
  let c := c.fullReset.clearOutboundSessionData
  { c with session := { c.session with serverToken := 0, peerAppToken := 0, authorized := false } }

def beginPrimaryHello (env : Env) (c : Client) (curTm : Int) : Client :=
  let state := c.nextPrimaryHelloState
  let c := ((c.dropSession.newHandshakeRnd env).startHelloWait state curTm).sendHello env
  { c with session := { c.session with nextPrimaryHelloNewSession := false } }

def sendRebindHelloAgain (env : Env) (c : Client) (curTm : Int) (newWindow : Bool) : Client :=
  let c :=
    if newWindow then
      ({ c with inb := { c.inb with preAuthCrypted := [] } }.newHandshakeRnd env).startHelloWait
        .rebindHelloAgain curTm
    else c.setHelloWaitState .rebindHelloAgain
  c.sendHelloAgain env

/-! ## Timers -/

def checkHelloSend (env : Env) (c : Client) (curTm : Int) : Client :=
  if !c.session.needConnect || c.session.forceDisconnect then c
  else if ((curTm - c.session.lastSentHello).natAbs : Int) ≤ max c.session.roundTripDelay 1000 * 2
    then c
  else
    let c :=
      match c.session.helloWaitState with
      | .idle =>
        if c.session.softReconnect && c.session.serverToken != 0 then
          c.sendRebindHelloAgain env curTm true
        else c.beginPrimaryHello env curTm
      | .primaryHelloCold | .primaryHelloNewSession => c.sendHello env
      | .primaryImFriendSent => c.sendImfriend env
      | .rebindHelloAgain => c.sendHelloAgain env
    { c with session := { c.session with lastSentHello := curTm } }

/-- An authorized session that has been silent for too long. -/
def staleAuthorized (c : Client) (curTm : Int) : Bool :=
  c.session.authorized && !c.session.needConnect
    && decide (offlineBaseMs + c.session.roundTripDelay < (curTm - c.session.lastOnline).natAbs)

def checkOfflineReconnect (env : Env) (c : Client) (curTm : Int) : Client :=
  let throttle := max 200 (min 1500 (c.session.roundTripDelay + 50))
  let waitingRebind := c.session.helloWaitState.allowsHelloAgainRetry
  if !waitingRebind && !c.staleAuthorized curTm then c
  else if ((curTm - c.session.lastSentHello).natAbs : Int) ≤ throttle then c
  else if c.session.serverToken = 0 then
    { c with session := { c.session with
      authStatus := .connected
      authorized := false
      needConnect := true
      softReconnect := false
      lastSentHello := neverSentMs } }.markNextPrimaryHelloNewSession
  else
    let c := { c with session := { c.session with authStatus := .offline } }
    let c := c.sendRebindHelloAgain env curTm (!waitingRebind)
    { c with session := { c.session with lastSentHello := curTm } }

def checkReconnectTimeout (c : Client) (curTm : Int) : Client :=
  let s := c.session
  if s.helloWaitState.isWaiting
      && decide (reconnectWaitingMs < (curTm - s.waitingHelloStart).natAbs)
      && decide (reconnectThrottleMs < (curTm - s.lastSocketRecreate).natAbs) then
    let soft := s.helloWaitState.allowsHelloAgainRetry && s.serverToken != 0
    { c with session := { s with
      lastSocketRecreate := curTm
      softReconnect := soft
      forceDisconnect := true
      needConnect := true
      nextPrimaryHelloNewSession :=
        (!soft && s.helloWaitState != .primaryHelloCold) || s.nextPrimaryHelloNewSession
      helloWaitState := .idle
      waitingHelloStart := 0
      lastSentHello := if soft then s.lastSentHello else neverSentMs } }
  else c

def checkDeadZone (c : Client) (curTm : Int) : Client :=
  if !c.session.authorized && !c.session.needConnect
      && decide (deadZoneMs < (curTm - c.session.lastOnline).natAbs) then
    { c with session := { c.session with
      softReconnect := false, forceDisconnect := true, needConnect := true } }
  else c

/-! ## Disconnecting -/

/-- The `SessionClose` item; it is sent once and not kept for retries. -/
def sessionCloseItem : SendItem where
  data := []
  cmd := Command.sessionClose.toByte
  encrypted := true
  priority := .high
  retryLeft := initialRetryLeft true 1
  maxRetries := 1
  msgNum := 0
  lastSentAt := 0
  uKey := UniqueKey.none

def sendSessionClose (env : Env) (c : Client) (curTm : Int) : Client :=
  c.sendHItem env sessionCloseItem curTm

/-- Does `do_force_disconnect` announce the close? -/
def announcesClose (c : Client) : Bool :=
  c.session.connected && !c.session.softReconnect && c.session.authorized
    && c.session.serverToken != 0

/-- `do_force_disconnect`; `closeTm` is the clock it reads for the announcement. -/
def doForceDisconnect (env : Env) (c : Client) (closeTm : Int) : Client :=
  let c := if c.announcesClose then c.sendSessionClose env closeTm else c
  let c := c.closeForRebind
  let c := if !c.session.softReconnect then c.fullReset.clearOutboundSessionData else c
  { c with session := { c.session with
    connected := false
    authorized := false
    forceDisconnect := false
    helloWaitState := .idle } }

/-- The four checks of `transport_reconnect_tail_tick`. -/
def reconnectChecks (env : Env) (c : Client) (curTm : Int) : Client :=
  let c := (c.checkHelloSend env curTm).checkOfflineReconnect env curTm
  (c.checkReconnectTimeout curTm).checkDeadZone curTm

def transportReconnectTailTick (env : Env) (c : Client) (curTm closeTm : Int) : Client :=
  let c := c.reconnectChecks env curTm
  if c.session.forceDisconnect then c.doForceDisconnect env closeTm else c

end Client

end MoonProto
