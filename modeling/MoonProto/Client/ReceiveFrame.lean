import MoonProto.Client.Tick
import MoonProto.Client.SendFrame

/-!
# What receiving leaves alone

No received datagram touches the send queues or what waits to be sent again, and
none hands a message to the batch. The one thing it may do to the outbound side
is to start the message numbers anew (WantNewHello). The timers behind the send
phase are as quiet, up to the start of a primary handshake and a forced
disconnect, which give up everything outbound.

`Quiet` says so in one relation that is closed under composition; every function
of the receive path and every timer has one lemma here.
-/

namespace MoonProto

open List Option

/-- Messages handed to the batch, and reports of a server restart. -/
def Effect.noted : Effect → Bool
  | .handedOver _ _ => true
  | .lifecycle .serverRestart => true
  | _ => false

/-- **Nothing old on the wire**: every datagram of the log carries ciphertext of
the encode cipher that was installed when it was sent, or none. -/
def CurrentOnly (log : List Effect) : Prop :=
  ∀ socket cmd payload sealedBy current, .sent socket cmd payload sealedBy current ∈ log →
    ∀ k ∈ sealedBy, k = current

theorem CurrentOnly.snoc {log : List Effect} (h : CurrentOnly log) {e : Effect}
    (he : ∀ socket cmd payload sealedBy current, e = .sent socket cmd payload sealedBy current →
      ∀ k ∈ sealedBy, k = current) : CurrentOnly (log ++ [e]) := by
  intro socket cmd payload by' current hmem
  rcases mem_append.mp hmem with hmem | hmem
  · exact h socket cmd payload by' current hmem
  · exact he socket cmd payload by' current (mem_singleton.mp hmem).symm

namespace Client

/-- The noted effects of the log. -/
def noted (c : Client) : List Effect := c.trace.log.filter Effect.noted

theorem handovers_eq_noted (c : Client) : c.handovers = handoversOf c.noted := by
  unfold handovers handoversOf noted
  rw [filterMap_filter]
  refine filterMap_congr fun e _ => ?_
  cases e with
  | lifecycle ev => cases ev <;> rfl
  | sent | closed | handedOver | finished | newData => rfl

/-- The same message numbers, or they start anew. -/
def SameOut (o o' : Outbound) : Prop :=
  o' = o ∨ o' = { o with cryptMsgCounter := initialCryptedMsgCounter }

theorem SameOut.trans {o₁ o₂ o₃ : Outbound} (h : SameOut o₁ o₂) (h' : SameOut o₂ o₃) :
    SameOut o₁ o₃ := by
  rcases h with rfl | rfl
  · exact h'
  · rcases h' with rfl | rfl
    · exact .inr rfl
    · exact .inr rfl

/-- From `c` to `c'` nothing was queued, kept or handed over, no session was
adopted and no primary handshake began. -/
structure Quiet (c c' : Client) : Prop where
  out : SameOut c.out c'.out
  queues : c'.sendLock.sendQueues = c.sendLock.sendQueues
  noted : c'.noted = c.noted
  peerAppToken : c'.session.peerAppToken = c.session.peerAppToken
  primary : c'.session.helloWaitState.allowsWhoAreYou = true →
    c.session.helloWaitState.allowsWhoAreYou = true

namespace Quiet

theorem refl (c : Client) : Quiet c c := ⟨.inl rfl, rfl, rfl, rfl, id⟩

theorem trans {c₁ c₂ c₃ : Client} (h : Quiet c₁ c₂) (h' : Quiet c₂ c₃) : Quiet c₁ c₃ where
  out := h.out.trans h'.out
  queues := h'.queues.trans h.queues
  noted := h'.noted.trans h.noted
  peerAppToken := h'.peerAppToken.trans h.peerAppToken
  primary := h.primary ∘ h'.primary

end Quiet

/-- A quiet step that installed no cipher and sent nothing old. -/
structure Still (c c' : Client) : Prop extends Quiet c c' where
  ciphers : c'.trace.ciphers = c.trace.ciphers
  current : CurrentOnly c.trace.log → CurrentOnly c'.trace.log

/-- A still step that asked for no disconnect. -/
structure Steady (c c' : Client) : Prop extends Still c c' where
  forced : c'.session.forceDisconnect = true → c.session.forceDisconnect = true

namespace Steady

theorem refl (c : Client) : Steady c c := ⟨⟨.refl c, rfl, id⟩, id⟩

theorem trans {c₁ c₂ c₃ : Client} (h : Steady c₁ c₂) (h' : Steady c₂ c₃) : Steady c₁ c₃ :=
  ⟨⟨h.toQuiet.trans h'.toQuiet, h'.ciphers.trans h.ciphers, h'.current ∘ h.current⟩,
    h.forced ∘ h'.forced⟩

theorem foldl {α : Type*} {f : Client → α → Client} (hf : ∀ c a, Steady c (f c a)) :
    ∀ (as : List α) (c : Client), Steady c (as.foldl f c)
  | [], c => refl c
  | a :: as, c => (hf c a).trans (foldl hf as (f c a))

theorem of_session (c : Client) {s : Session} (hpeer : s.peerAppToken = c.session.peerAppToken)
    (hs : s.helloWaitState.allowsWhoAreYou = true →
      c.session.helloWaitState.allowsWhoAreYou = true)
    (hforced : s.forceDisconnect = true → c.session.forceDisconnect = true) :
    Steady c { c with session := s } :=
  ⟨⟨⟨.inl rfl, rfl, rfl, hpeer, hs⟩, rfl, id⟩, hforced⟩

theorem of_inb (c : Client) (inb : Inbound) : Steady c { c with inb := inb } :=
  ⟨⟨⟨.inl rfl, rfl, rfl, rfl, id⟩, rfl, id⟩, id⟩

end Steady

variable (env : Env) (c : Client) (payload : Bytes) (ts : Int) (d : Datagram) (curTm : Int)

theorem record_steady {e : Effect} (he : e.noted = false)
    (hsent : ∀ socket cmd payload by' current, e ≠ .sent socket cmd payload by' current) :
    Steady c (c.record e) :=
  ⟨⟨⟨.inl rfl, rfl, by simp [noted, he], rfl, id⟩, rfl, fun h => h.snoc
    fun socket cmd payload by' current heq => absurd heq (hsent socket cmd payload by' current)⟩,
      id⟩

theorem sendRawPacketCmd_log {env : Env} {c : Client} (h : CurrentOnly c.trace.log) (cmd : UInt8)
    (payload : Bytes) {by' : List Nat} (hby : ∀ k ∈ by', k = c.trace.ciphers) :
    CurrentOnly (c.sendRawPacketCmd env cmd payload by').trace.log := by
  obtain ⟨-, hlog⟩ := serverSocketAddr_out env c
  have hciphers := (serverSocketAddr_sends env c).ciphers
  unfold sendRawPacketCmd
  simp only
  split
  · rw [hlog]
    exact h
  · split
    · rw [hlog]
      exact h
    · rw [record_log, hlog]
      refine h.snoc fun socket' cmd' payload' by'' current heq k hk => ?_
      cases heq
      rw [hciphers]
      exact hby k hk

theorem sendRawPacketCmd_steady (cmd : UInt8) (payload : Bytes)
    {by' : List Nat} (hby : ∀ k ∈ by', k = c.trace.ciphers) :
    Steady c (c.sendRawPacketCmd env cmd payload by') := by
  have hsends := sendRawPacketCmd_sends env c cmd payload by'
  have haddr : Quiet c (c.serverSocketAddr env).2 := by
    unfold serverSocketAddr
    split
    · exact .refl c
    · exact ⟨.inl rfl, rfl, rfl, rfl, id⟩
  refine ⟨⟨?_, hsends.ciphers, fun h => sendRawPacketCmd_log h cmd payload hby⟩, ?_⟩
  swap
  · rw [hsends.session]
    exact id
  unfold sendRawPacketCmd
  simp only
  split
  · exact haddr
  split
  · exact haddr
  · exact haddr.trans ⟨.inl rfl, rfl, by simp [noted, Effect.noted], rfl, id⟩

variable (cmd : Command) (rawCmd : UInt8)

theorem sendCommand_steady (payload : Bytes) : Steady c (c.sendCommand env cmd payload []) :=
  sendRawPacketCmd_steady env c _ _ nofun

theorem sendSealed_steady (payload : Bytes) :
    Steady c (c.sendCommand env cmd payload [c.trace.ciphers]) :=
  sendRawPacketCmd_steady env c _ _ fun _ hk => mem_singleton.mp hk

/-! ## Commands -/

theorem applyNeedHelloAgain_steady : Steady c (c.applyNeedHelloAgain ts) := by
  unfold applyNeedHelloAgain
  split
  · simp only
    split
    · exact .of_session c rfl id id
    · exact .of_session c rfl (Bool.false_ne_true.elim) id
  · exact .refl c

theorem finishDecodedCommand_steady (cmd : UInt8) (payload : Bytes) (ts : Int)
    (origin : Origin) : Steady c (c.finishDecodedCommand cmd payload ts origin) := by
  have hfinished : ∀ f : Finished, Steady c (c.record (.finished f)) := fun f =>
    record_steady c rfl (by simp)
  unfold finishDecodedCommand
  simp only
  split
  · exact (hfinished _).trans (applyNeedHelloAgain_steady _ ts)
  split
  · exact hfinished _
  · exact (hfinished _).trans (record_steady _ rfl (by simp))

theorem deferCryptedBeforeAuth_steady (payload : Bytes)
    (ts : Int) : Steady c (c.deferCryptedBeforeAuth env rawCmd payload ts).2 := by
  unfold deferCryptedBeforeAuth
  split
  · exact .refl c
  split
  · exact .refl c
  split
  · exact .refl c
  split
  · exact .refl c
  split
  · exact .of_inb c _
  · exact .refl c

theorem dispatchCommand_steady (payload : Bytes)
    (ts : Int) : Steady c (c.dispatchCommand env rawCmd payload ts) := by
  unfold dispatchCommand
  refine (deferCryptedBeforeAuth_steady env c rawCmd payload ts).trans ?_
  simp only
  split
  · exact .refl _
  split
  · exact .of_inb _ _
  · exact (Steady.of_inb _ _).trans (finishDecodedCommand_steady _ _ _ ts _)

theorem dispatchPacketCommands_steady (payload : Bytes)
    (ts : Int) : Steady c (c.dispatchPacketCommands env rawCmd payload ts) := by
  unfold dispatchPacketCommands
  split
  · exact dispatchCommand_steady env c rawCmd payload ts
  split
  · exact .refl c
  · exact .foldl (fun c (sub : UInt8 × Bytes) => dispatchCommand_steady env c sub.1 sub.2 ts) _ c

theorem finishDeferred_steady (item : PreAuthCryptedCommand) :
    Steady c (c.finishDeferred item) := by
  unfold finishDeferred
  simp only
  split
  · exact .of_inb c _
  split
  · exact .of_inb c _
  · exact (Steady.of_inb c _).trans (finishDecodedCommand_steady _ _ _ _ _)

theorem drainDeferredPreAuthCrypted_steady : Steady c c.drainDeferredPreAuthCrypted := by
  unfold drainDeferredPreAuthCrypted
  split
  · exact .refl c
  · exact (Steady.of_inb c _).trans (.foldl finishDeferred_steady _ _)

theorem onNewSliced_steady : Steady c (c.onNewSliced env payload ts) := by
  unfold onNewSliced
  split
  · exact .refl c
  have hack : ∀ inb ack, Steady c ({ c with inb := inb }.sendCommand env .slicedACK ack []) :=
    fun inb ack => (Steady.of_inb c inb).trans (sendCommand_steady env _ .slicedACK ack)
  simp only
  split
  · exact hack _ _
  · rw [dispatchCommandOwned_eq]
    exact ((hack _ _).trans (dispatchCommand_steady env _ _ _ ts)).trans (.of_inb _ _)

/-! ## Handshake answers and service packets -/

theorem acceptedServerMixTs_steady (mixTs : UInt64) : Steady c (c.acceptedServerMixTs mixTs) := by
  unfold acceptedServerMixTs
  split
  · exact .of_session c rfl id id
  · exact .refl c

/-- A WantNewHello starts the numbers anew and keeps what is pending. -/
theorem applyWantNewHello_steady : Steady c c.applyWantNewHello :=
  ⟨⟨⟨.inr rfl, rfl, rfl, rfl, Bool.false_ne_true.elim⟩, rfl, id⟩, id⟩

theorem onHandshakeControl_steady (payload : Bytes) :
    Steady c (c.onHandshakeControl env cmd payload) := by
  unfold onHandshakeControl
  split
  · split
    · exact .of_session c rfl id id
    · exact .refl c
  · split
    · split
      · exact .refl c
      · split
        · exact .refl c
        · next hello _ =>
          split
          · exact .refl c
          · exact (acceptedServerMixTs_steady c hello.mixTs).trans (applyWantNewHello_steady _)
    · exact .refl c

theorem onFine_steady : Steady c (c.onFine env payload) := by
  unfold onFine
  split
  · exact .refl c
  split
  · exact .refl c
  split
  · exact .refl c
  split
  · exact .refl c
  · refine (acceptedServerMixTs_steady c _).trans (.of_session _ rfl (fun hp => ?_) id)
    exact absurd hp Bool.false_ne_true

theorem receivePingAck_queues {session : UInt32} {lock lock' : SendLockState} {payload : Bytes}
    (h : receivePingAck session lock payload = some lock') :
    lock'.sendQueues = lock.sendQueues := by
  unfold receivePingAck SendLockState.applyPingAckBitmap at h
  split at h
  · cases h
    rfl
  · split at h
    · split at h
      · obtain ⟨start, -, h⟩ := bind_eq_some_iff.mp h
        obtain ⟨words, -, h⟩ := bind_eq_some_iff.mp h
        cases h
        rfl
      · cases h
        rfl
    · cases h
      rfl

theorem onNewPing_steady (inputs : PingInputs) : Steady c (c.onNewPing env payload inputs) := by
  unfold onNewPing
  split
  · exact .refl c
  next response c' heq =>
  obtain ⟨ping, -, hping⟩ := map_eq_some_iff.mp heq
  have hfields : Steady c c' := by
    rw [← (Prod.mk.inj hping).2]
    exact ⟨⟨⟨.inl rfl, receivePingAck_queues (some_get _).symm, rfl, rfl, id⟩, rfl, id⟩, id⟩
  exact (hfields.trans (sendCommand_steady env c' .ping response)).trans
    (record_steady _ rfl (by simp))

theorem onNewSlicedAck_steady : Steady c (c.onNewSlicedAck payload) := by
  unfold onNewSlicedAck
  split
  · exact .refl c
  split
  · exact ⟨⟨⟨.inl rfl, rfl, rfl, rfl, id⟩, rfl, id⟩, id⟩
  · exact .refl c

theorem routeByCommand_steady
    (hcmd : Command.fromByte d.rawCmd ≠ .whoAreYou) : Steady c (c.routeByCommand env d) := by
  unfold routeByCommand
  simp only
  split
  · split
    · exact .refl c
    · exact onNewPing_steady env c _ d.ping
  split
  · exact onHandshakeControl_steady env c _ _
  split
  · exact (onFine_steady env c _).trans (drainDeferredPreAuthCrypted_steady _)
  split
  · unfold onNewSizeTest
    split
    · exact .refl c
    · exact sendCommand_steady env c .sizeAck _
  split
  · unfold onNewProbeMtu
    split
    · exact .refl c
    · exact sendCommand_steady env c .probeMTUAck _
  split
  · exact onNewSlicedAck_steady c _
  split
  · exact onNewSliced_steady env c _ _
  split
  · exact dispatchPacketCommands_steady env c _ _ _
  · rw [dispatchCommandOwned_eq]
    exact dispatchCommand_steady env c _ _ _

theorem tidy_steady :
    Steady c ((c.applyRecvSideEffects d.timestampMs).tidySlicer d.timestampMs d.cleanupOrder) :=
  ⟨⟨⟨.inl rfl, rfl, rfl, rfl, id⟩, rfl, id⟩, id⟩

theorem processDatagram_steady
    (hcmd : Command.fromByte d.rawCmd ≠ .whoAreYou) : Steady c (c.processDatagram env d) := by
  by_cases hreset : Command.fromByte d.rawCmd = .wantNewHello
  · rw [processDatagram_wantNewHello env c hreset]
    exact onHandshakeControl_steady env c _ _
  · unfold processDatagram routeCommand
    rw [if_neg hreset, if_neg hreset]
    exact (tidy_steady c d).trans (routeByCommand_steady env _ d hcmd)

/-! ## Adopting a session -/

/-- The part of `Quiet` that also holds where a session is adopted. -/
structure Calm (c c' : Client) : Prop where
  out : SameOut c.out c'.out
  queues : c'.sendLock.sendQueues = c.sendLock.sendQueues
  handovers : c'.handovers = c.handovers

theorem Quiet.calm {c c' : Client} (h : Quiet c c') : Calm c c' :=
  ⟨h.out, h.queues, by rw [handovers_eq_noted, h.noted, handovers_eq_noted]⟩

theorem Calm.trans {c₁ c₂ c₃ : Client} (h : Calm c₁ c₂) (h' : Calm c₂ c₃) : Calm c₁ c₃ :=
  ⟨h.out.trans h'.out, h'.queues.trans h.queues, h'.handovers.trans h.handovers⟩

theorem adoptSession_calm (hello : Hello) : Calm c (c.adoptSession env hello) := by
  refine (acceptedServerMixTs_steady c hello.mixTs).calm.trans ?_
  unfold adoptSession refreshAckSession32
  simp only
  generalize c.acceptedServerMixTs hello.mixTs = c₁
  split
  · exact ⟨.inl rfl, rfl, (handoversOf_append _ _).trans (append_nil _)⟩
  · exact ⟨.inl rfl, rfl, rfl⟩

theorem buildImfriendPacket_steady : Steady c (c.buildImfriendPacket env).2 := by
  unfold buildImfriendPacket
  split
  · exact .refl c
  · exact ⟨⟨⟨.inl rfl, rfl, rfl, rfl, id⟩, rfl, id⟩, id⟩

theorem startHelloWait_steady : Steady c (c.startHelloWait .primaryImFriendSent ts) :=
  .of_session c rfl (Bool.false_ne_true.elim) id

theorem onWhoAreYou_adopts {env : Env} {c : Client} {payload : Bytes} {hello : Hello}
    (hwait : c.session.helloWaitState.allowsWhoAreYou = true) (htoken : c.session.serverToken = 0)
    (hopen : decodeHandshakeHello env c.cfg .whoAreYou payload = some hello)
    (hmatch : c.matchesCurrentHandshake hello = true) (ts : Int) :
    Steady (c.adoptSession env hello) (c.onWhoAreYou env payload ts) ∧
      (c.onWhoAreYou env payload ts).session.helloWaitState = .primaryImFriendSent := by
  have hbuilt := buildImfriendPacket_steady env (c.adoptSession env hello)
  unfold onWhoAreYou applyHelloAndBuildImfriend
  rw [hwait, htoken, hopen, if_neg (by decide)]
  simp only [hmatch, Bool.not_true, Bool.false_eq_true, if_false]
  generalize (c.adoptSession env hello).buildImfriendPacket env = built at hbuilt ⊢
  constructor
  · exact ((hbuilt.trans (startHelloWait_steady built.2 ts)).trans
      (sendSealed_steady env _ .imFriend _)).trans (sendSealed_steady env _ .imFriend _)
  · rw [sendCommand, (sendRawPacketCmd_sends env _ _ _ _).session, sendCommand,
      (sendRawPacketCmd_sends env _ _ _ _).session]
    rfl

theorem onWhoAreYou_cases : c.onWhoAreYou env payload ts = c ∨
      ∃ hello, c.session.helloWaitState.allowsWhoAreYou = true ∧ c.session.serverToken = 0 ∧
        decodeHandshakeHello env c.cfg .whoAreYou payload = some hello ∧
        c.matchesCurrentHandshake hello = true ∧
        Steady (c.adoptSession env hello) (c.onWhoAreYou env payload ts) ∧
        (c.onWhoAreYou env payload ts).session.helloWaitState = .primaryImFriendSent := by
  by_cases hcond : (!c.session.helloWaitState.allowsWhoAreYou || c.session.serverToken != 0) = true
  · unfold onWhoAreYou
    exact .inl (if_pos hcond)
  · have hopen : c.session.helloWaitState.allowsWhoAreYou = true ∧ c.session.serverToken = 0 := by
      simpa using hcond
    cases hhello : decodeHandshakeHello env c.cfg .whoAreYou payload with
    | none =>
      unfold onWhoAreYou
      rw [if_neg hcond, hhello]
      exact .inl rfl
    | some hello =>
      cases hmatch : c.matchesCurrentHandshake hello with
      | false =>
        refine .inl ?_
        unfold onWhoAreYou
        rw [if_neg hcond, hhello]
        simp only [hmatch, Bool.not_false, if_true]
      | true =>
        exact .inr ⟨hello, hopen.1, hopen.2, rfl, hmatch,
          onWhoAreYou_adopts hopen.1 hopen.2 hhello hmatch ts⟩

/-- A datagram is a steady step, or its WhoAreYou is adopted. -/
theorem processDatagram_cases : Steady c (c.processDatagram env d) ∨
    ∃ c₁ hello, Steady c c₁ ∧ c₁.session.helloWaitState.allowsWhoAreYou = true ∧
      Steady (c₁.adoptSession env hello) (c.processDatagram env d) := by
  by_cases hcmd : Command.fromByte d.rawCmd = .whoAreYou
  · rw [processDatagram_whoAreYou env c hcmd]
    rcases onWhoAreYou_cases env _ d.payload.view d.timestampMs with
      heq | ⟨hello, hphase, -, -, -, hsteady, -⟩
    · rw [heq]
      exact .inl (tidy_steady c d)
    · exact .inr ⟨_, hello, tidy_steady c d, hphase, hsteady⟩
  · exact .inl (processDatagram_steady env c d hcmd)

theorem processDatagram_calm : Calm c (c.processDatagram env d) := by
  rcases processDatagram_cases env c d with h | ⟨c₁, hello, htidy, -, h⟩
  · exact h.calm
  · exact (htidy.calm.trans (adoptSession_calm env c₁ hello)).trans h.calm

theorem receive_calm : Calm c (c.receive env d) := by
  unfold receive
  split
  · exact (Quiet.refl c).calm
  · exact processDatagram_calm env c d

/-! ## Timers -/

theorem transitionEvent_not_noted {ev : LifecycleEvent}
    (h : c.transitionEvent = some ev) : (Effect.lifecycle ev).noted = false := by
  unfold transitionEvent at h
  split at h
  · cases h
    rfl
  · cases h
    rfl
  · cases h
    rfl
  · cases h
    rfl
  · split at h
    · cases h
      rfl
    · cases h
  · cases h

theorem wake_steady (bound : Bool) : Steady c (c.wake bound) := by
  have htransition : Steady c c.checkLifecycleTransition := by
    unfold checkLifecycleTransition
    split
    · exact .refl c
    simp only
    split
    · exact .of_session c rfl id id
    next ev heq =>
    refine Steady.trans ?_ (record_steady _ (transitionEvent_not_noted c heq) (by simp))
    exact .of_session c rfl id id
  refine htransition.trans ?_
  unfold wake ensureSocketBound bindSocket
  split
  · simp only
    split
    · exact ⟨⟨⟨.inl rfl, rfl, rfl, rfl, id⟩, rfl, id⟩, nofun⟩
    · exact .of_session _ rfl id nofun
  · exact .refl _

theorem sendHello_steady : Steady c (c.sendHello env) :=
  (⟨⟨⟨.inl rfl, rfl, rfl, rfl, id⟩, rfl, id⟩, id⟩ : Steady c c.bumpClientToken.drew).trans
    (sendCommand_steady env _ .hello _)

theorem sendHelloAgain_steady : Steady c (c.sendHelloAgain env) := by
  unfold sendHelloAgain buildHelloAgainPacket
  by_cases htoken : c.session.serverToken = 0
  · rw [if_pos htoken]
    exact .refl c
  · rw [if_neg htoken]
    exact (⟨⟨⟨.inl rfl, rfl, rfl, rfl, id⟩, rfl, id⟩, id⟩ : Steady c c.bumpClientToken.drew).trans
      (sendCommand_steady env _ .helloAgain _)

theorem sendImfriend_steady : Steady c (c.sendImfriend env) := by
  have hbuild := buildImfriendPacket_steady env c
  unfold sendImfriend
  split
  · next heq =>
    rw [heq] at hbuild
    exact hbuild
  · next heq =>
    rw [heq] at hbuild
    exact hbuild.trans (sendSealed_steady env _ .imFriend _)

theorem sendRebindHelloAgain_steady (newWindow : Bool) :
    Steady c (c.sendRebindHelloAgain env curTm newWindow) := by
  unfold sendRebindHelloAgain
  refine Steady.trans ?_ (sendHelloAgain_steady env _)
  split
  · exact ⟨⟨⟨.inl rfl, rfl, rfl, rfl, Bool.false_ne_true.elim⟩, rfl, id⟩, id⟩
  · exact .of_session c rfl (Bool.false_ne_true.elim) id

theorem checkOfflineReconnect_steady : Steady c (c.checkOfflineReconnect env curTm) := by
  unfold checkOfflineReconnect
  simp only
  split
  · exact .refl c
  split
  · exact .refl c
  split
  · exact .of_session c rfl (Bool.false_ne_true.elim) id
  refine Steady.trans ?_ (.of_session _ rfl id id)
  refine Steady.trans ?_ (sendRebindHelloAgain_steady env _ curTm _)
  exact .of_session c rfl id id

theorem checkReconnectTimeout_still : Still c (c.checkReconnectTimeout curTm) := by
  unfold checkReconnectTimeout
  simp only
  split
  · exact ⟨⟨.inl rfl, rfl, rfl, rfl, Bool.false_ne_true.elim⟩, rfl, id⟩
  · exact (Steady.refl c).toStill

theorem checkDeadZone_still : Still c (c.checkDeadZone curTm) := by
  unfold checkDeadZone
  split
  · exact ⟨⟨.inl rfl, rfl, rfl, rfl, id⟩, rfl, id⟩
  · exact (Steady.refl c).toStill

theorem closeForRebind_steady : Steady c c.closeForRebind := by
  unfold closeForRebind
  split
  · exact .refl c
  · exact ⟨⟨⟨.inl rfl, rfl, by simp [noted, Effect.noted, record], rfl, id⟩, rfl,
      fun h => h.snoc nofun⟩, id⟩

/-- Everything outbound was given up, except for the batch buffer. -/
structure GaveUp (c c' : Client) : Prop where
  pendingH : c'.out.pendingH = []
  sending : c'.out.sending = []
  counter : c'.out.cryptMsgCounter = initialCryptedMsgCounter
  slices : c'.out.slices = c.out.slices
  queues : c'.sendLock.sendQueues = c.sendLock.sendQueues

theorem GaveUp.steady {c c₁ c₂ : Client} (h : GaveUp c c₁) (hq : Steady c₁ c₂) : GaveUp c c₂ := by
  rcases hq.out with heq | heq
  · exact ⟨heq ▸ h.pendingH, heq ▸ h.sending, heq ▸ h.counter, heq ▸ h.slices,
      hq.queues.trans h.queues⟩
  · exact ⟨heq ▸ h.pendingH, heq ▸ h.sending, heq ▸ rfl, heq ▸ h.slices,
      hq.queues.trans h.queues⟩

/-- The client with a primary handshake opened and its Hello not sent yet. -/
def openedPrimary (env : Env) (c : Client) (curTm : Int) : Client :=
  (c.dropSession.newHandshakeRnd env).startHelloWait c.nextPrimaryHelloState curTm

/-- The start of a primary handshake gives up the session, its app token included. -/
theorem openedPrimary_gaveUp {env : Env} {c c' : Client} {curTm : Int}
    (h : Steady (c.openedPrimary env curTm) c') :
    GaveUp c c' ∧ c'.noted = c.noted ∧ c'.session.peerAppToken = 0 := by
  have hopen : GaveUp c (c.openedPrimary env curTm) := ⟨rfl, rfl, rfl, rfl, rfl⟩
  exact ⟨hopen.steady h, h.noted, h.peerAppToken⟩

theorem checkHelloSend_cases : Steady c (c.checkHelloSend env curTm) ∨
      Steady (c.openedPrimary env curTm) (c.checkHelloSend env curTm) := by
  have hstamp : ∀ c' : Client,
      Steady c' { c' with session := { c'.session with lastSentHello := curTm } } :=
    fun c' => .of_session c' rfl id id
  unfold checkHelloSend
  split
  · exact .inl (.refl c)
  split
  · exact .inl (.refl c)
  split
  · split
    · exact .inl ((sendRebindHelloAgain_steady env c curTm true).trans (hstamp _))
    · have hbegun : Steady (c.openedPrimary env curTm) (c.beginPrimaryHello env curTm) :=
        (sendHello_steady env _).trans (.of_session _ rfl id id)
      exact .inr (hbegun.trans (hstamp _))
  · exact .inl ((sendHello_steady env c).trans (hstamp _))
  · exact .inl ((sendHello_steady env c).trans (hstamp _))
  · exact .inl ((sendImfriend_steady env c).trans (hstamp _))
  · exact .inl ((sendHelloAgain_steady env c).trans (hstamp _))

end Client

end MoonProto
