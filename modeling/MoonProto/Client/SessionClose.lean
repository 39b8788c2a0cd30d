import MoonProto.Client.ReceiveFrame
import MoonProto.Client.SessionSafety

/-!
# The announcement of a close

`do_force_disconnect` sends `SessionClose` through the path of ordinary High
commands, which may leave it in the batch buffer, and closes the socket at once.
The main result says in which states the message reaches the socket, and that no
run of a client comes to a state in which the close is announced at all.
-/

namespace MoonProto

open Codec List Bool

namespace Client

/-- The encrypted `SessionClose` message under `key`. -/
def sessionCloseWire (env : Env) (c : Client) (key : MoonKey) : Bytes :=
  encryptWithCipher env.aead key (env.iv c.trace.draws).toList
    (CryptoHeader.toBytes ⟨env.rnd c.trace.draws, c.out.cryptMsgCounter + 1,
      Command.sessionClose.toByte, false⟩) []

variable {env : Env} {c : Client} {key : MoonKey} {socket : Nat}

/-- The client that has taken a number and drawn for the announcement. -/
def closing (c : Client) : Client := c.nextMsgNum.2.drew

theorem sessionCloseWire_length : (c.sessionCloseWire env key).length = 44 := by
  have hiv : (env.iv c.trace.draws).toList.length = 12 := by simp
  rw [sessionCloseWire, encryptWithCipher_length key hiv, CryptoHeader.toBytes_length]
  decide

theorem accountedSize_sessionCloseWire : accountedSize (c.sessionCloseWire env key) = 62 := by
  rw [accountedSize, sessionCloseWire_length]

/-- `SessionClose` is handed to the batch buffer like every High command. -/
theorem sendSessionClose_eq (hkey : c.session.encodeCipher = some key) (closeTm : Int) :
    c.sendSessionClose env closeTm
      = c.closing.doSendMpDataWire env Command.crypted.toByte (c.sessionCloseWire env key)
          [c.trace.ciphers] := by
  have hcmd : maybeCompress Command.sessionClose.toByte [] = (Command.sessionClose.toByte, []) := by
    simp [maybeCompress]
  have hwire : cryptedWireCmd Command.sessionClose.toByte = Command.crypted.toByte := by decide
  have hkey' : c.nextMsgNum.2.session.encodeCipher = some key := hkey
  unfold sendSessionClose sendHItem sessionCloseItem
  simp only [hcmd, if_true]
  rw [show c.msgNumFor _ = c.nextMsgNum from if_neg (by simp)]
  simp only [sealCommand, hkey', Option.map_some, hwire, append_nil]
  rw [if_neg (by decide)]
  rfl

/-- Behind the announcement the socket is closed and the session dropped; the batch
buffer stays as it is. -/
theorem doForceDisconnect_of_announces (env : Env) (hann : c.announcesClose = true)
    (hsocket : c.socket = some socket) (closeTm : Int) :
    (c.doForceDisconnect env closeTm).trace.log
        = (c.sendSessionClose env closeTm).trace.log ++ [.closed socket] ∧
      (c.doForceDisconnect env closeTm).out.tmpSendBuf
        = (c.sendSessionClose env closeTm).out.tmpSendBuf := by
  have hsends : Sends c (c.sendSessionClose env closeTm) := sendHItem_sends env c _ closeTm
  have hs : (c.sendSessionClose env closeTm).socket = some socket := hsends.socket.trans hsocket
  unfold doForceDisconnect closeForRebind
  simp only [hann, if_true, hs]
  split
  · exact ⟨rfl, rfl⟩
  · exact ⟨rfl, rfl⟩

/-- A message pushed into the batch buffer is in it. -/
theorem infix_pushTmpSendItem (c : Client) (cmd : UInt8) (wire : Bytes) (size : Nat)
    (by' : List Nat) : wire <:+: (c.pushTmpSendItem cmd wire size by').out.tmpSendBuf := by
  refine ⟨c.out.tmpSendBuf ++ cmd :: u16Bytes (UInt16.ofNat wire.length), [], ?_⟩
  simp [pushTmpSendItem]

theorem sendCommandRaw_log (env : Env) (c : Client) (cmd : UInt8) (payload : Bytes) (by' : List Nat)
    (hsocket : c.socket = some socket) :
    (c.sendCommandRaw env cmd payload by').trace.log = c.trace.log
      ++ (if (c.serverSocketAddr env).1 then [.sent socket cmd payload by' c.trace.ciphers]
          else []) ∧
    (c.sendCommandRaw env cmd payload by').out = c.out := by
  have haddr := serverSocketAddr_sends env c
  have hlog : (c.serverSocketAddr env).2.trace.log = c.trace.log ∧
      (c.serverSocketAddr env).2.out = c.out := by
    unfold serverSocketAddr
    split
    · exact ⟨rfl, rfl⟩
    · exact ⟨rfl, rfl⟩
  unfold sendCommandRaw sendRawPacketCmd
  simp only
  cases hok : (c.serverSocketAddr env).1 with
  | false =>
    refine ⟨?_, hlog.2⟩
    simp [hlog.1]
  | true =>
    simp only [Bool.not_true, false_eq_true, if_false, haddr.socket, hsocket, if_true]
    refine ⟨?_, hlog.2⟩
    rw [record_log, hlog.1, haddr.ciphers]

theorem serverSocketAddr_closing (e : Effect) :
    ((c.closing.record e).serverSocketAddr env).1 = (c.serverSocketAddr env).1 := by
  show (if c.cachedServerAddr then _ else _ : Bool × Client).1 = _
  unfold serverSocketAddr
  cases c.cachedServerAddr with
  | false => rfl
  | true => rfl

/-- Does the message go to the socket at once? -/
def sendsAtOnce (c : Client) : Prop :=
  c.session.actualPmtu.toNat < c.out.tmpSendSize + 62 ∧ c.out.tmpSendSize ≤ 62

theorem sendSessionClose_buffered (env : Env) (hkey : c.session.encodeCipher = some key)
    (h : ¬ c.sendsAtOnce) (closeTm : Int) :
    c.sessionCloseWire env key <:+: (c.sendSessionClose env closeTm).out.tmpSendBuf := by
  rw [sendSessionClose_eq hkey]
  unfold doSendMpDataWire
  simp only [accountedSize_sessionCloseWire]
  split
  · next hfull =>
    split
    · exact infix_pushTmpSendItem _ _ _ _ _
    · next hbig => exact absurd ⟨hfull, Nat.not_lt.mp hbig⟩ h
  · exact infix_pushTmpSendItem _ _ _ _ _

/-- Sent at once, the message goes to the socket if there is an address, and the
buffer stays as it was. -/
theorem sendSessionClose_direct (env : Env) (hkey : c.session.encodeCipher = some key)
    (hsocket : c.socket = some socket) (h : c.sendsAtOnce) (closeTm : Int) :
    (c.sendSessionClose env closeTm).trace.log = c.trace.log
      ++ (.handedOver Command.crypted.toByte (c.sessionCloseWire env key)
        :: if (c.serverSocketAddr env).1 then [.sent socket Command.crypted.toByte
          (c.sessionCloseWire env key) [c.trace.ciphers] c.trace.ciphers] else []) ∧
    (c.sendSessionClose env closeTm).out.tmpSendBuf = c.out.tmpSendBuf := by
  have hraw := sendCommandRaw_log env (c.closing.record (.handedOver
    Command.crypted.toByte (c.sessionCloseWire env key))) Command.crypted.toByte
    (c.sessionCloseWire env key) [c.trace.ciphers] hsocket
  rw [sendSessionClose_eq hkey]
  unfold doSendMpDataWire
  simp only [accountedSize_sessionCloseWire]
  split
  · split
    · next hbig => exact absurd hbig (Nat.not_lt.mpr h.2)
    · refine ⟨hraw.1.trans ?_, (congrArg Outbound.tmpSendBuf hraw.2).trans rfl⟩
      rw [record_log, append_assoc, serverSocketAddr_closing]
      rfl
  · next hroom => exact absurd h.1 hroom

/-! ## Forced disconnects of a run -/

/-- Between two steps only `disconnect` has asked for a close. -/
def ForcedByCaller (c : Client) : Prop :=
  c.session.forceDisconnect = true →
    c.session.runtimeShutdown = true ∧ c.session.authorized = false

theorem adoptSession_forced {hello : Hello}
    (h : (c.adoptSession env hello).session.forceDisconnect = true) :
    c.session.forceDisconnect = true := by
  refine (acceptedServerMixTs_steady c hello.mixTs).forced ?_
  unfold adoptSession refreshAckSession32 at h
  simp only at h
  generalize c.acceptedServerMixTs hello.mixTs = c₁ at h ⊢
  split at h
  · exact h
  · exact h

/-- The client of which a maintenance asks whether it is to be disconnected. -/
def checked (env : Env) (c : Client) (m : Maintenance) : Client :=
  (c.copySendAckAndCheckSeningData env m.curTm m.pacing).reconnectChecks env m.curTm

theorem maintain_eq (env : Env) (c : Client) (m : Maintenance) : c.maintain env m =
    if c.socket.isNone then c
    else if (c.checked env m).session.forceDisconnect then
      (c.checked env m).doForceDisconnect env m.closeTm
    else c.checked env m := by
  unfold maintain transportReconnectTailTick checked
  rfl

theorem ForcedByCaller.step (h : c.ForcedByCaller) (e : Event) :
    (c.step env e).ForcedByCaller := by
  cases e with
  | enqueue item => exact h
  | requestShutdown => exact fun hf => ⟨rfl, (h hf).2⟩
  | disconnect => exact fun _ => ⟨rfl, rfl⟩
  | wake bound =>
    intro hf
    obtain ⟨hshut, hauth⟩ := h ((wake_steady c bound).forced hf)
    exact ⟨(runtimeShutdown_wake c bound).trans hshut,
      (congrArg SessionView.authorized (wake_view c bound)).trans hauth⟩
  | receive d =>
    show (c.receive env d).ForcedByCaller
    unfold receive
    split
    · exact h
    next hup =>
    intro hf
    have hf' : c.session.forceDisconnect = true := by
      rcases processDatagram_cases env c d with hs | ⟨c₁, hello, htidy, -, hs⟩
      · exact hs.forced hf
      · exact htidy.forced (adoptSession_forced (hs.forced hf))
    simp [(h hf').1] at hup
  | maintain m =>
    show (c.maintain env m).ForcedByCaller
    rw [maintain_eq]
    split
    · exact h
    split
    · exact Bool.false_ne_true.elim
    next hnot => exact fun hf => absurd hf hnot

/-- A disconnect is not announced. -/
def Silent (c : Client) : Prop := c.session.forceDisconnect = true → c.announcesClose = false

theorem silent_of_not_authorized (h : c.session.authorized = false) : c.Silent := fun _ => by
  simp [announcesClose, h]

theorem Silent.checkReconnectTimeout (h : c.Silent) (hinv : c.view.Inv env) (curTm : Int) :
    (c.checkReconnectTimeout curTm).Silent := by
  unfold Client.checkReconnectTimeout
  simp only
  split
  · next hwait =>
    simp only [and_eq_true] at hwait
    cases hre : c.session.helloWaitState.allowsHelloAgainRetry with
    | true =>
      -- the close is soft, unless there is no token
      intro _
      simp [announcesClose]
      tauto
    | false => exact silent_of_not_authorized (hinv.waiting hwait.1.1 hre)
  · exact h

theorem Silent.checkDeadZone (h : c.Silent) (curTm : Int) : (c.checkDeadZone curTm).Silent := by
  unfold Client.checkDeadZone
  split
  · next hdead =>
    simp only [and_eq_true, not_eq_true'] at hdead
    exact silent_of_not_authorized hdead.1.1
  · exact h

/-- Each check that asks for a disconnect finds the session unauthorized or makes
the close a soft one. -/
theorem reconnectChecks_silent (hinv : c.view.Inv env) (h : c.ForcedByCaller) (curTm : Int) :
    (c.reconnectChecks env curTm).Silent := by
  have hpath : SessionView.Path env (fun _ => False) c.view
      ((c.checkHelloSend env curTm).checkOfflineReconnect env curTm).view :=
    (checkHelloSend_path c curTm).trans (checkOfflineReconnect_path _ curTm)
  refine (Silent.checkReconnectTimeout (fun hf => ?_) (hinv.of_path hpath) curTm).checkDeadZone
    curTm
  -- the request is older than the checks, so the caller made it
  have hold : c.session.forceDisconnect = true := by
    have hf := (checkOfflineReconnect_steady env _ curTm).forced hf
    rcases checkHelloSend_cases env c curTm with hs | hs
    · exact hs.forced hf
    · exact hs.forced hf
  refine silent_of_not_authorized (eq_false_of_not_eq_true fun hauth => ?_) hf
  obtain ⟨-, -, hfine⟩ := SessionView.auth_of_path hpath (h hold).2 hauth
  exact hfine

/-- **No forced disconnect announces the close**, whatever the client has received
and been asked for. -/
theorem checked_silent {cfg : ClientConfig} {clientToken appToken : UInt64} {events : List Event}
    (hrun : Run.run (next env) (Client.new cfg clientToken appToken) events = some c)
    (m : Maintenance) : (c.checked env m).Silent := by
  have hforced : c.ForcedByCaller := by
    refine Run.run_invariant (I := ForcedByCaller) (P := fun _ _ => True) ?_
      (fun hf => absurd hf Bool.false_ne_true)
      (Run.along_of_forall (fun _ _ => trivial) _ events) hrun
    intro s e s' hs _ hstep
    cases hstep
    exact hs.step e
  have hview : (c.copySendAckAndCheckSeningData env m.curTm m.pacing).view = c.view :=
    (checkSeningData_sends env _ _ _ _ _).view
  have hsession : (c.copySendAckAndCheckSeningData env m.curTm m.pacing).session = c.session :=
    (checkSeningData_sends env _ _ _ _ _).session
  refine reconnectChecks_silent (hview ▸ reachable_inv hrun) ?_ m.curTm
  unfold ForcedByCaller
  exact hsession ▸ hforced

/-- **When `SessionClose` leaves.** In no run of a client does `do_force_disconnect`
announce the close: whatever asked for the disconnect found the session ended or
means to resume it. In a state in which it would, with a cipher and a socket, the
message goes to the socket only if the batch buffer is too full to take it and yet
holds no more than the message itself counts (62 bytes). Then it is sent before the
socket is closed, if there is an address, and the buffer stays as it was. In all
other states it is in the buffer behind the close, and nobody flushes that. -/
theorem session_close_leaves (env : Env) :
    (∀ cfg clientToken appToken events c m,
      Run.run (next env) (Client.new cfg clientToken appToken) events = some c →
      (c.checked env m).session.forceDisconnect = true →
      (c.checked env m).announcesClose = false) ∧
    ∀ (c : Client) key socket closeTm, c.announcesClose = true →
      c.session.encodeCipher = some key → c.socket = some socket →
      let wire := c.sessionCloseWire env key
      let c' := c.doForceDisconnect env closeTm
      (c.sendsAtOnce →
        c'.trace.log = c.trace.log ++ .handedOver Command.crypted.toByte wire ::
          ((if (c.serverSocketAddr env).1 then [.sent socket Command.crypted.toByte wire
            [c.trace.ciphers] c.trace.ciphers] else []) ++ [.closed socket]) ∧
        c'.out.tmpSendBuf = c.out.tmpSendBuf) ∧
      (¬ c.sendsAtOnce → wire <:+: c'.out.tmpSendBuf) := by
  refine ⟨fun cfg clientToken appToken events c m hrun => checked_silent hrun m,
    fun c key socket closeTm hann hkey hsocket => ?_⟩
  obtain ⟨hlog, hbuf⟩ := doForceDisconnect_of_announces env hann hsocket closeTm
  simp only
  rw [hlog, hbuf]
  refine ⟨fun hnow => ?_, fun hnot => sendSessionClose_buffered env hkey hnot closeTm⟩
  obtain ⟨hlog', hbuf'⟩ := sendSessionClose_direct env hkey hsocket hnow closeTm
  rw [hlog', append_assoc]
  exact ⟨rfl, hbuf'⟩

/-- An authorized session of the sample environment with an empty batch buffer. -/
def sampleAuthorized : Client :=
  let c := Client.new .sample 1 2
  { c with
    session := { c.session with
      connected := true
      authorized := true
      authStatus := .authDone
      serverToken := 5
      encodeCipher := some (Vector.replicate 16 3)
      forceDisconnect := true }
    socket := some 0 }

/-- The same session at a path MTU that leaves the message no room. -/
def sampleNarrow : Client :=
  { sampleAuthorized with session := { sampleAuthorized.session with actualPmtu := 60 } }

/-- A Hello without an answer ends in a silent disconnect; the narrow session would
announce its close. -/
theorem session_close_leaves_narrow :
    let c := (Sample.after [.wake true, .maintain (Sample.maintenance 10000)]).checked .sample
      (Sample.maintenance 18000)
    let c' := sampleNarrow.doForceDisconnect .sample 100
    let wire := sampleNarrow.sessionCloseWire .sample (Vector.replicate 16 3)
    c.session.forceDisconnect = true ∧ c.announcesClose = false ∧
    c'.trace.log = [.handedOver Command.crypted.toByte wire,
      .sent 0 Command.crypted.toByte wire [0] 0, .closed 0] ∧ c'.out.tmpSendBuf = [] := by
  have hforced : ((Sample.after [.wake true, .maintain (Sample.maintenance 10000)]).checked .sample
      (Sample.maintenance 18000)).session.forceDisconnect = true := by decide +kernel
  have hnow : sampleNarrow.sendsAtOnce := ⟨by decide, by decide⟩
  exact ⟨hforced, (session_close_leaves .sample).1 _ _ _ _ _ _ (Sample.run_after _) hforced,
    ((session_close_leaves .sample).2 sampleNarrow (Vector.replicate 16 3) 0 100 (by decide) rfl
      rfl).1 hnow⟩

/-- **The message stays in the buffer.** With an empty buffer and the default path
MTU the socket is closed and `SessionClose` is still buffered. -/
theorem session_close_stays_buffered : sampleAuthorized.announcesClose = true ∧
    sampleAuthorized.session.encodeCipher = some (Vector.replicate 16 3) ∧
    sampleAuthorized.socket = some 0 ∧
    sampleAuthorized.sessionCloseWire .sample (Vector.replicate 16 3)
      <:+: (sampleAuthorized.doForceDisconnect .sample 100).out.tmpSendBuf :=
  ⟨by decide, rfl, rfl, by decide +kernel⟩

end Client

end MoonProto
