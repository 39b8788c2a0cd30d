import MoonProto.Client.Decode
import MoonProto.Client.SentSliced
import MoonProto.Crypto.Keys
import MoonProto.Protocol.Handshake

/-!
# The client session

The state of `Client` (`src/client.rs`, `src/client/socket.rs`) that the protocol
core reads and writes, grouped by who owns it, and the lowest sending functions.

What the code takes from outside is collected in `Env`: the ciphers, SHAKE-128,
and oracles for random numbers, the clock of time stamps and name resolution,
each read at a counter that the state carries. Nothing about the oracles is
assumed here.

The last part of the state, `Trace`, is not in the source. It records what the
client did (datagrams given to a socket, sockets closed, commands finished,
lifecycle events), how many pairs of ciphers it installed, and the random values
of its handshake windows, so that runs can be talked about.
-/

namespace MoonProto

open Codec

/-! ## Phases -/

inductive HelloWaitState
  | idle
  | primaryHelloCold
  | primaryHelloNewSession
  | primaryImFriendSent
  | rebindHelloAgain
deriving DecidableEq

namespace HelloWaitState

def isWaiting (s : HelloWaitState) : Bool := s != idle
def allowsHelloAgainRetry (s : HelloWaitState) : Bool := s == rebindHelloAgain
def allowsWhoAreYou (s : HelloWaitState) : Bool :=
  s == primaryHelloCold || s == primaryHelloNewSession
def allowsFine (s : HelloWaitState) : Bool := s == primaryImFriendSent || s == rebindHelloAgain
def allowsWrongHello (s : HelloWaitState) : Bool :=
  s == primaryHelloCold || s == primaryHelloNewSession || s == primaryImFriendSent

theorem not_allowsHelloAgainRetry_of_allowsWhoAreYou {s : HelloWaitState} :
    s.allowsWhoAreYou = true → s.allowsHelloAgainRetry = false := by
  cases s <;> decide

theorem not_allowsFine_of_allowsWhoAreYou {s : HelloWaitState} :
    s.allowsWhoAreYou = true → s.allowsFine = false := by
  cases s <;> decide

end HelloWaitState

inductive AuthStatus
  | base
  | connected
  | authDone
  | offline
deriving DecidableEq

/-- The lifecycle events that the protocol core itself fires. -/
inductive LifecycleEvent
  | connecting
  | connected (fresh : Bool)
  | reconnecting
  | disconnected
  | serverRestart
deriving DecidableEq

/-- `NEVER_SENT_MS`. -/
def neverSentMs : Int := -(2 ^ 62)

/-- `INITIAL_CRYPTED_MSG_COUNTER`. -/
def initialCryptedMsgCounter : UInt64 := 2047

/-! ## Outside -/

structure Env where
  aead : Aead
  shake128 : Bytes → MoonKey
  rnd : Nat → UInt16
  iv : Nat → Vector UInt8 12
  handshakeRnd : Nat → Vector UInt8 16
  now : Nat → UInt64
  resolves : Nat → Bool

/-- A closed environment for examples. -/
def Env.sample : Env where
  aead := Aead.tagged
  shake128 := fun absorbed => Vector.ofFn fun i => byteAt absorbed (24 + i)
  rnd := fun n => UInt16.ofNat n
  iv := fun n => Vector.replicate 12 (UInt8.ofNat n)
  handshakeRnd := fun n => Vector.replicate 16 (UInt8.ofNat n)
  now := fun n => UInt64.ofNat n
  resolves := fun _ => true

structure ClientConfig where
  clientId : UInt64
  masterKey : MoonKey
  macKey : MoonKey
deriving DecidableEq

def ClientConfig.sample : ClientConfig := ⟨7, Vector.replicate 16 1, Vector.replicate 16 2⟩

/-! ## Trace -/

/-- An encrypted command that was opened: the key and the bytes it came from,
what they opened to, the slider that judged its number and how many pairs of
ciphers the client had installed by then. -/
structure Opened where
  cipher : MoonKey
  data : Bytes
  hdr : CryptoHeader
  plaintext : Bytes
  slider : Slider
  ciphers : Nat
  deferred : Bool
deriving DecidableEq

inductive Origin
  | plain
  | opened (o : Opened)
deriving DecidableEq

/-- A call of `finish_decoded_command`, with whether the client was authorized and
the decode cipher it had. -/
structure Finished where
  cmd : UInt8
  payload : Bytes
  origin : Origin
  authorized : Bool
  decodeCipher : Option MoonKey
deriving DecidableEq

inductive Effect
  /-- `send_to` on a socket. `sealedBy` lists the encode ciphers whose ciphertext
  the payload carries, `current` is the one installed now. -/
  | sent (socket : Nat) (cmd : UInt8) (payload : Bytes) (sealedBy : List Nat) (current : Nat)
  | closed (socket : Nat)
  /-- A message handed to `do_send_mp_data_wire`. -/
  | handedOver (cmd : UInt8) (data : Bytes)
  | finished (f : Finished)
  /-- A call of `client_new_data`. -/
  | newData (cmd : UInt8) (payload : Bytes)
  | lifecycle (ev : LifecycleEvent)
deriving DecidableEq

structure Trace where
  draws : Nat
  lookups : Nat
  ciphers : Nat
  windows : List (Vector UInt8 16)
  log : List Effect
deriving DecidableEq

/-! ## State -/

/-- Connection and handshake. A cipher is identified with its key. -/
structure Session where
  connected : Bool
  authorized : Bool
  lastOnline : Int
  authStatus : AuthStatus
  prevAuthStatus : AuthStatus
  wasEverConnected : Bool
  runtimeShutdown : Bool
  needConnect : Bool
  forceDisconnect : Bool
  softReconnect : Bool
  helloWaitState : HelloWaitState
  nextPrimaryHelloNewSession : Bool
  handshakeRnd : Vector UInt8 16
  handshakePeerMix : UInt64
  sessionRnd : Vector UInt8 16
  ackSession32Value : UInt32
  clientToken : UInt64
  serverToken : UInt64
  appToken : UInt64
  peerAppToken : UInt64
  encodeCipher : Option MoonKey
  lastSentHello : Int
  waitingHelloStart : Int
  lastSocketRecreate : Int
  lastNeedHelloAgain : Int
  roundTripDelay : Int
  actualPmtu : UInt16
deriving DecidableEq

/-- What waits to be sent or acknowledged. `tmpSealedBy` and `slices` are not in the
source: the one lists the encode ciphers of the encrypted messages in the batch
buffer, the other the slices that were sent. A sliced datagram is tagged with the
number of the cipher its message was encrypted under, and with `none` for a
plaintext message. -/
structure Outbound where
  pendingH : List SendItem
  sending : List (SentSliced (Option Nat))
  cryptMsgCounter : UInt64
  sendDatagramNum : UInt16
  lastCheckedSlices : Int
  tmpSendBuf : Bytes
  tmpSendCount : Nat
  tmpSendSize : Nat
  tmpSealedBy : List Nat
  slices : List Bytes
deriving DecidableEq

/-- A command opened before authorization. The last four fields are not in the
source: they are what it was opened from. -/
structure PreAuthCryptedCommand where
  msgNum : UInt64
  cmd : UInt8
  payload : Bytes
  timestampMs : Int
  cipher : MoonKey
  data : Bytes
  plaintext : Bytes
  hdr : CryptoHeader
deriving DecidableEq

structure Inbound where
  dataReadState : DataReadState
  recvdSlider : Slider
  preAuthCrypted : List PreAuthCryptedCommand
  recvSlicer : SlicingReceiver

structure Client where
  cfg : ClientConfig
  session : Session
  out : Outbound
  inb : Inbound
  sendLock : SendLockState
  socket : Option Nat
  socketsBound : Nat
  cachedServerAddr : Bool
  trace : Trace

namespace Client

/-- `new_with_shared`; the two tokens are drawn at random by the source. -/
def new (cfg : ClientConfig) (clientToken appToken : UInt64) : Client where
  cfg
  session := {
    connected := false
    authorized := false
    lastOnline := 0
    authStatus := .base
    prevAuthStatus := .base
    wasEverConnected := false
    runtimeShutdown := false
    needConnect := true
    forceDisconnect := false
    softReconnect := false
    helloWaitState := .idle
    nextPrimaryHelloNewSession := false
    handshakeRnd := Vector.replicate 16 0
    handshakePeerMix := 0
    sessionRnd := Vector.replicate 16 0
    ackSession32Value := 0
    clientToken
    serverToken := 0
    appToken
    peerAppToken := 0
    encodeCipher := none
    lastSentHello := neverSentMs
    waitingHelloStart := 0
    lastSocketRecreate := neverSentMs
    lastNeedHelloAgain := neverSentMs
    roundTripDelay := 0
    actualPmtu := 508 }
  out := {
    pendingH := []
    sending := []
    cryptMsgCounter := initialCryptedMsgCounter
    sendDatagramNum := 0
    lastCheckedSlices := 0
    tmpSendBuf := []
    tmpSendCount := 0
    tmpSendSize := 0
    tmpSealedBy := []
    slices := [] }
  inb := {
    dataReadState := ⟨none, Slider.new⟩
    recvdSlider := Slider.new
    preAuthCrypted := []
    recvSlicer := SlicingReceiver.new }
  sendLock := SendLockState.empty
  socket := none
  socketsBound := 0
  cachedServerAddr := false
  trace := ⟨0, 0, 0, [], []⟩

/-! ## Trace and oracles -/

def record (c : Client) (e : Effect) : Client :=
  { c with trace := { c.trace with log := c.trace.log ++ [e] } }

/-- Move every oracle on, for a function that has read them. -/
def drew (c : Client) : Client := { c with trace := { c.trace with draws := c.trace.draws + 1 } }

@[simp] theorem record_log (c : Client) (e : Effect) :
    (c.record e).trace.log = c.trace.log ++ [e] := rfl

/-! ## Sending a datagram -/

/-- `server_socket_addr`: is there an address? A resolved address is kept until
the next bind. -/
def serverSocketAddr (env : Env) (c : Client) : Bool × Client :=
  if c.cachedServerAddr then (true, c)
  else
    let ok := env.resolves c.trace.lookups
    (ok, { c with
      cachedServerAddr := ok
      trace := { c.trace with lookups := c.trace.lookups + 1 } })

/-- `send_raw_packet_cmd` and `send_raw_packet` with `dispatch_send`: the datagram
goes to the socket if there is an address and a socket. -/
def sendRawPacketCmd (env : Env) (c : Client) (cmd : UInt8) (payload : Bytes)
    (sealedBy : List Nat) : Client :=
  let (hasAddr, c) := c.serverSocketAddr env
  if !hasAddr then c
  else
    match c.socket with
    | none => c
    | some socket => c.record (.sent socket cmd payload sealedBy c.trace.ciphers)

/-- `send_command_raw`. -/
def sendCommandRaw (env : Env) (c : Client) (cmd : UInt8) (payload : Bytes)
    (sealedBy : List Nat) : Client :=
  c.sendRawPacketCmd env cmd payload sealedBy

/-- `send_command`. -/
def sendCommand (env : Env) (c : Client) (cmd : Command) (payload : Bytes)
    (sealedBy : List Nat) : Client :=
  c.sendRawPacketCmd env cmd.toByte payload sealedBy

/-! ## Handshake waiting -/

/-- `set_hello_wait_state`; the source keeps `is_waiting` of it in a second
field. -/
def setHelloWaitState (c : Client) (state : HelloWaitState) : Client :=
  { c with session := { c.session with helloWaitState := state } }

def startHelloWait (c : Client) (state : HelloWaitState) (curTm : Int) : Client :=
  { c with session := { c.session with waitingHelloStart := curTm, helloWaitState := state } }

/-- `accepted_server_mix_ts`: the token never runs behind the server's. -/
def acceptedServerMixTs (c : Client) (mixTs : UInt64) : Client :=
  if 0 < (mixTs - c.session.clientToken).toInt64.toInt then
    { c with session := { c.session with clientToken := mixTs } }
  else c

def markNextPrimaryHelloNewSession (c : Client) : Client :=
  { c with session := { c.session with
    nextPrimaryHelloNewSession := true, helloWaitState := .idle } }

def matchesCurrentHandshake (c : Client) (hello : Hello) : Bool :=
  c.session.handshakeRnd == hello.rnd

def matchesRequestBoundReset (c : Client) (hello : Hello) : Bool :=
  c.matchesCurrentHandshake hello && hello.serverToken == 0 && hello.peerMix == 0

def matchesCurrentFine (c : Client) (hello : Hello) : Bool :=
  c.matchesCurrentHandshake hello && hello.peerMix == 0

def shouldAcceptWantNewHello (c : Client) : Bool :=
  c.session.helloWaitState.allowsHelloAgainRetry

def refreshAckSession32 (env : Env) (c : Client) : Client :=
  { c with session := { c.session with
    ackSession32Value := ackSession32 env.shake128 c.cfg.macKey c.cfg.clientId
      c.session.serverToken c.session.sessionRnd } }

/-! ## Resets -/

/-- `full_reset`. It keeps the server token, the PMTU, the pending and sliced
messages, the batch buffer and both ciphers. -/
def fullReset (c : Client) : Client :=
  { c with
    session := { c.session with
      lastOnline := 0
      lastSentHello := neverSentMs
      helloWaitState := .idle
      handshakePeerMix := 0
      ackSession32Value := 0 }
    out := { c.out with cryptMsgCounter := initialCryptedMsgCounter }
    inb := {
      dataReadState := { c.inb.dataReadState with slider := Slider.new }
      recvdSlider := Slider.new
      preAuthCrypted := []
      recvSlicer := c.inb.recvSlicer.resetSession }
    sendLock := c.sendLock.resetTmpSlider }

def clearOutboundSessionData (c : Client) : Client :=
  { c with out := { c.out with
    pendingH := []
    sending := []
    cryptMsgCounter := initialCryptedMsgCounter
    lastCheckedSlices := 0 } }

/-- `close_for_rebind`; the packet counters are not modelled. -/
def closeForRebind (c : Client) : Client :=
  match c.socket with
  | none => c
  | some socket => { c with socket := none }.record (.closed socket)

/-- `bind_socket`; `bound` says whether one of the 200 ports could be bound. -/
def bindSocket (c : Client) (bound : Bool) : Client :=
  let c := { c with session := { c.session with forceDisconnect := false } }
  if bound then
    { c with
      socket := some c.socketsBound
      socketsBound := c.socketsBound + 1
      cachedServerAddr := false
      inb := { c.inb with recvSlicer := c.inb.recvSlicer.resetSession } }
  else c

end Client

end MoonProto
