import MoonProto.Client.SessionMachine
import MoonProto.Client.Tick

/-!
# The client refines the session machine

Each function of the client is a path of the session machine: most of them do
not change the view at all, the others are one or a few moves. `step_path`
collects them, and with it the invariant of the machine holds in every state
that a client can reach.
-/

namespace MoonProto

open Codec SessionView

namespace Client

variable (c : Client) (payload : Bytes) (curTm ts : Int)

def view (c : Client) : SessionView where
  authorized := c.session.authorized
  phase := c.session.helloWaitState
  soft := c.session.softReconnect
  serverToken := c.session.serverToken
  rnd := c.session.handshakeRnd
  decodeCipher := c.inb.dataReadState.decodeCipher
  slider := c.inb.dataReadState.slider
  deferred := c.inb.preAuthCrypted
  ciphers := c.trace.ciphers
  windows := c.trace.windows
  finished := c.finished

theorem path_of_eq {env : Env} {auth : SessionView → Prop} {v v' : SessionView} (h : v' = v) :
    Path env auth v v' := h ▸ .refl

theorem Sends.view {c c' : Client} (h : Sends c c') : c'.view = c.view := by
  simp only [Client.view, h.session, h.dataReadState, h.preAuthCrypted, h.ciphers, h.windows,
    h.finished]

theorem view_record {e : Effect} (he : finishedOf [e] = []) : (c.record e).view = c.view := by
  simp only [view, finished, record_log, finishedOf_append, he, List.append_nil]
  rfl

/-- A Fine is at hand: the session is still in the view `v₀` in which the event
found it, and the event brings a message that opens under the decode cipher and
carries the random value of the window. -/
def FineAtHand (env : Env) (cfg : ClientConfig) (v₀ : SessionView) (e : Event) (v : SessionView) :
    Prop :=
  v = v₀ ∧ ∃ d key hello, e = .receive d ∧ Command.fromByte d.rawCmd = .fine ∧
    v₀.decodeCipher = some key ∧ decodeFine env cfg key d.payload.view = some hello ∧
    hello.rnd = v₀.rnd ∧ hello.peerMix = 0

variable {env : Env} {auth : SessionView → Prop}

/-! ## Handshake packets and windows -/

theorem sendHello_view : (c.sendHello env).view = c.view :=
  (sendRawPacketCmd_sends env _ _ _ _).view

theorem sendHelloAgain_view : (c.sendHelloAgain env).view = c.view := by
  unfold sendHelloAgain buildHelloAgainPacket
  by_cases htoken : c.session.serverToken = 0
  · rw [if_pos htoken]
  · rw [if_neg htoken]
    exact (sendRawPacketCmd_sends env _ _ _ _).view

theorem buildImfriendPacket_view (env : Env) (c : Client) :
    (c.buildImfriendPacket env).2.view = c.view := by
  unfold buildImfriendPacket
  split <;> rfl

theorem sendImfriend_view : (c.sendImfriend env).view = c.view := by
  have hbuild := buildImfriendPacket_view env c
  unfold sendImfriend
  split
  · next heq =>
    rw [heq] at hbuild
    exact hbuild
  · next heq =>
    rw [heq] at hbuild
    exact (sendRawPacketCmd_sends env _ _ _ _).view.trans hbuild

theorem nextPrimaryHelloState_primary : c.nextPrimaryHelloState.allowsWhoAreYou = true := by
  unfold nextPrimaryHelloState
  split <;> rfl

theorem beginPrimaryHello_view (env : Env) (c : Client) (curTm : Int) :
    ∃ rnd, (c.beginPrimaryHello env curTm).view = c.view.openPrimary c.nextPrimaryHelloState rnd :=
  ⟨_, sendHello_view _⟩

theorem rebind_newWindow_view (env : Env) (c : Client) (curTm : Int) :
    ∃ rnd, (c.sendRebindHelloAgain env curTm true).view = c.view.openRebind rnd :=
  ⟨_, sendHelloAgain_view _⟩

theorem rebind_sameWindow_view (env : Env) {c : Client} (curTm : Int)
    (hphase : c.session.helloWaitState = .rebindHelloAgain) :
    (c.sendRebindHelloAgain env curTm false).view = c.view := by
  refine (sendHelloAgain_view _).trans ?_
  simp only [Bool.false_eq_true, if_false, setHelloWaitState, view, hphase]
  rfl

/-! ## Timers -/

theorem checkHelloSend_path : Path env auth c.view (c.checkHelloSend env curTm).view := by
  unfold checkHelloSend
  split
  · exact .refl
  split
  · exact .refl
  simp only
  split
  · split
    · next hcond =>
      rw [Bool.and_eq_true] at hcond
      obtain ⟨rnd, hv⟩ := rebind_newWindow_view env c curTm
      refine .single (hv ▸ Moves.openRebind rnd ?_ (.inl hcond.1))
      exact bne_iff_ne.mp hcond.2
    · obtain ⟨rnd, hv⟩ := beginPrimaryHello_view env c curTm
      exact .single (hv ▸ Moves.openPrimary _ rnd (nextPrimaryHelloState_primary c))
  · exact path_of_eq (sendHello_view c)
  · exact path_of_eq (sendHello_view c)
  · exact path_of_eq (sendImfriend_view c)
  · exact path_of_eq (sendHelloAgain_view c)

theorem checkOfflineReconnect_path :
    Path env auth c.view (c.checkOfflineReconnect env curTm).view := by
  unfold checkOfflineReconnect
  simp only
  split
  · exact .refl
  next hcond =>
  split
  · exact .refl
  split
  · exact .single Moves.giveUp
  next htoken =>
  cases hre : c.session.helloWaitState.allowsHelloAgainRetry with
  | true =>
    have hphase : c.session.helloWaitState = .rebindHelloAgain := by
      simpa [HelloWaitState.allowsHelloAgainRetry] using hre
    exact path_of_eq (rebind_sameWindow_view env curTm hphase)
  | false =>
    have hstale : c.staleAuthorized curTm = true := by
      simpa [hre] using hcond
    have hauth : c.session.authorized = true := by
      unfold staleAuthorized at hstale
      simp only [Bool.and_eq_true] at hstale
      exact hstale.1.1
    obtain ⟨rnd, hv⟩ := rebind_newWindow_view env
      { c with session := { c.session with authStatus := .offline } } curTm
    exact .single (hv ▸ Moves.openRebind rnd htoken (.inr hauth))

theorem checkReconnectTimeout_path : Path env auth c.view (c.checkReconnectTimeout curTm).view := by
  unfold checkReconnectTimeout
  simp only
  split
  · exact .single Moves.timeout
  · exact .refl

theorem checkDeadZone_path : Path env auth c.view (c.checkDeadZone curTm).view := by
  unfold checkDeadZone
  split
  · exact .single Moves.deadZone
  · exact .refl

theorem closeForRebind_view : c.closeForRebind.view = c.view := by
  unfold closeForRebind
  split
  · rfl
  · simp [view, finished, record, finishedOf]

theorem doForceDisconnect_path (closeTm : Int) :
    Path env auth c.view (c.doForceDisconnect env closeTm).view := by
  have hclose :
      ((if c.announcesClose then c.sendSessionClose env closeTm else c).closeForRebind).view
      = c.view := by
    rw [closeForRebind_view]
    split
    · exact (sendHItem_sends env c _ closeTm).view
    · rfl
  unfold doForceDisconnect
  simp only
  revert hclose
  generalize (if c.announcesClose then c.sendSessionClose env closeTm else c).closeForRebind = c'
  intro hclose
  rw [← hclose]
  split
  · next hhard =>
    have hsoft : c'.session.softReconnect = false := by simpa using hhard
    have hmove : Moves env auth c'.view { c'.view.hardClose with soft := c'.view.soft } := by
      rw [show c'.view.soft = false from hsoft]
      exact Moves.hardClose
    exact .single hmove
  · exact .single Moves.softClose

theorem transportReconnectTailTick_path (curTm closeTm : Int) :
    Path env auth c.view (c.transportReconnectTailTick env curTm closeTm).view := by
  have hchecks : Path env auth c.view (c.reconnectChecks env curTm).view :=
    (((checkHelloSend_path c curTm).trans (checkOfflineReconnect_path _ curTm)).trans
      (checkReconnectTimeout_path _ curTm)).trans (checkDeadZone_path _ curTm)
  unfold transportReconnectTailTick
  simp only
  split
  · exact hchecks.trans (doForceDisconnect_path _ closeTm)
  · exact hchecks

theorem maintain_path (m : Maintenance) : Path env auth c.view (c.maintain env m).view := by
  unfold maintain
  split
  · exact .refl
  · refine Relation.ReflTransGen.trans (path_of_eq ?_) (transportReconnectTailTick_path _ _ _)
    exact (checkSeningData_sends env _ _ _ _ _).view

/-! ## Commands -/

/-- Finishing a command records it; only an encrypted `NeedHelloAgain` does more. -/
theorem finishDecodedCommand_path {c : Client} {cmd : UInt8} (origin : Origin)
    (hneed : Command.fromByte cmd = .needHelloAgain → c.session.authorized = true) :
    Path env auth (c.view.finish cmd payload origin)
      (c.finishDecodedCommand cmd payload ts origin).view := by
  have hrec : (c.record (.finished ⟨cmd, payload, origin, c.session.authorized,
      c.inb.dataReadState.decodeCipher⟩)).view = c.view.finish cmd payload origin := by
    simp only [view, finish, finished, record_log, finishedOf_append]
    rfl
  unfold finishDecodedCommand
  simp only
  rw [← hrec]
  revert hneed
  generalize hc' : c.record _ = c'
  intro hneed
  have hauth : c'.session.authorized = c.session.authorized := by
    rw [← hc']
    rfl
  split
  · next hcmd =>
    unfold applyNeedHelloAgain
    split
    · simp only
      have hmove : Moves env auth c'.view _ :=
        Moves.needHelloAgain (hauth.trans (hneed hcmd))
      split
      · next hre =>
        rw [show c'.view.phase.allowsHelloAgainRetry = true from hre, if_pos rfl] at hmove
        exact .single hmove
      · next hre =>
        rw [if_neg (show ¬ c'.view.phase.allowsHelloAgainRetry = true from hre)] at hmove
        exact .single hmove
    · exact .refl
  · split
    · exact .refl
    · exact path_of_eq (view_record c' rfl)

theorem fromByte_and_seven_f : ∀ cmd : UInt8, Command.fromByte (cmd &&& 0x7F) = .fromByte cmd :=
  byte_cases (by decide +kernel)

theorem dropPlaintextApi_of_not_bulk {payload : Bytes} (h : ¬ BulkResponse payload) :
    dropPlaintextApi payload = true := by
  unfold dropPlaintextApi
  split
  · next info hinfo =>
    rw [Bool.not_eq_true']
    by_contra hbulk
    rw [Bool.not_eq_false] at hbulk
    refine h ⟨info, hinfo, ?_⟩
    simpa [EngineMethod.isPublicBulk, or_assoc] using hbulk
  · rfl

variable {data : Bytes} {rawCmd : UInt8}

theorem not_sensitive_of_gateShared {cmd : UInt8} {payload : Bytes}
    (h : gateShared false rawCmd data = some (cmd, payload)) : ¬ Sensitive cmd payload := by
  unfold gateShared at h
  split at h
  · cases h
  next hdrop =>
  obtain ⟨r, hr, hgate⟩ := Option.bind_eq_some_iff.mp h
  split at hgate
  · cases hgate
  next hapi =>
  cases hgate
  have hkind : Command.fromByte cmd = Command.fromByte (rawCmd &&& 0x7F) := by
    split at hr
    · obtain ⟨d, -, hd⟩ := Option.map_eq_some_iff.mp hr
      rw [(Prod.mk.inj hd).1]
    · cases hr
      exact (fromByte_and_seven_f _).symm
  rintro (hs | ⟨hcmd, hbulk⟩)
  · rw [hkind] at hs
    exact hdrop (List.contains_iff_mem.mpr hs)
  · refine hapi ?_
    have hbyte : cmd &&& 0x7F = Command.api.toByte := congrArg Command.toByte hcmd
    simp [blocksApi, hbyte, dropPlaintextApi_of_not_bulk hbulk]

theorem gateShared_crypted (cmd : UInt8) (payload : Bytes) :
    gateShared true cmd payload = unpackInner cmd payload := by
  unfold gateShared unpackInner
  simp only [Bool.not_true, Bool.false_and, Bool.false_eq_true, if_false, blocksApi]
  exact Option.bind_fun_some _

theorem deferCryptedBeforeAuth_path (rawCmd : UInt8) (payload : Bytes) (ts : Int) :
    Path env auth c.view (c.deferCryptedBeforeAuth env rawCmd payload ts).2.view := by
  unfold deferCryptedBeforeAuth
  split
  · exact .refl
  next hcond =>
  split
  · exact .refl
  next hfine =>
  split
  · exact .refl
  next cipher hcipher =>
  split
  · exact .refl
  next hdr plaintext hopen =>
  have hphase : c.session.helloWaitState.allowsFine = true := by simpa using hfine
  simp only [Bool.or_eq_true, not_or, Bool.not_eq_true] at hcond
  split
  · exact .single (Moves.defer _ hcond.1 hphase ⟨hopen, rfl, rfl, rfl⟩ hcipher)
  · exact .refl

theorem deferCryptedBeforeAuth_of_not {c : Client} {payload : Bytes} {ts : Int}
    (h : (c.deferCryptedBeforeAuth env rawCmd payload ts).1 = false) :
    (c.deferCryptedBeforeAuth env rawCmd payload ts).2 = c ∧
      (Command.fromByte rawCmd = .crypted → c.session.authorized = true) := by
  unfold deferCryptedBeforeAuth at h ⊢
  by_cases hcond : (c.session.authorized || Command.fromByte rawCmd != .crypted) = true
  · rw [if_pos hcond]
    refine ⟨rfl, fun hcmd => ?_⟩
    simpa [hcmd] using hcond
  · rw [if_neg hcond] at h
    -- every other branch keeps the command
    repeat' split at h
    all_goals exact absurd h.symm Bool.false_ne_true

/-- Decoding an encrypted message that opens: its number is judged, and with a new
number its content is unpacked. -/
theorem decodeShared_opened {A : Aead} {st : DataReadState} {cipher : MoonKey}
    {plaintext : Bytes} {hdr : CryptoHeader}
    (hcmd : Command.fromByte (rawCmd &&& 0x7F) = .crypted) (hcipher : st.decodeCipher = some cipher)
    (hopen : decryptCommandNoReplay A cipher data = some (hdr, plaintext)) :
    decodeCommandPayloadShared A st rawCmd data
      = (if (st.slider.judge hdr.msgNum).1 then unpackInner hdr.cmd (plaintext.drop 12) else none,
        { st with slider := (st.slider.judge hdr.msgNum).2 }) := by
  unfold decodeCommandPayloadShared
  rw [if_pos hcmd, hcipher]
  simp only [decryptCommand, hopen]
  cases (st.slider.judge hdr.msgNum).1 with
  | false => rfl
  | true =>
    simp only [if_true]
    rw [gateShared_crypted]

theorem decodeShared_unopened {A : Aead} {st : DataReadState}
    (hcmd : Command.fromByte (rawCmd &&& 0x7F) = .crypted)
    (hopen : ∀ cipher, st.decodeCipher = some cipher →
      decryptCommandNoReplay A cipher data = none) :
    decodeCommandPayloadShared A st rawCmd data = (none, st) := by
  unfold decodeCommandPayloadShared
  rw [if_pos hcmd]
  cases hcipher : st.decodeCipher with
  | none => rfl
  | some cipher =>
    simp only [decryptCommand, hopen cipher hcipher]
    rw [← hcipher]

/-- The client behind the judgement of a message number. -/
def judged (c : Client) (num : UInt64) : Client :=
  c.setDataReadState { c.inb.dataReadState with
    slider := (c.inb.dataReadState.slider.judge num).2 }

/-- A message that opened is judged, and finished if its number is new and its
content unpacks. -/
theorem judged_path {c : Client} {o : Opened} (hauth : c.session.authorized = true)
    (hcipher : c.inb.dataReadState.decodeCipher = some o.cipher) (ho : o.Genuine env)
    (hslider : o.slider = c.inb.dataReadState.slider) (hciphers : o.ciphers = c.trace.ciphers) :
    Path env auth c.view (match (if (c.inb.dataReadState.slider.judge o.hdr.msgNum).1 then
          unpackInner o.hdr.cmd (o.plaintext.drop 12) else none) with
        | none => c.judged o.hdr.msgNum
        | some (cmd, payload) =>
          (c.judged o.hdr.msgNum).finishDecodedCommand cmd payload ts (.opened o)).view := by
  have hjudge : Path env auth c.view (c.judged o.hdr.msgNum).view :=
    .single (Moves.judge o.hdr.msgNum)
  cases hnew : (c.inb.dataReadState.slider.judge o.hdr.msgNum).1 with
  | false => exact hjudge
  | true =>
    simp only [if_true]
    cases hcontent : unpackInner o.hdr.cmd (o.plaintext.drop 12) with
    | none => exact hjudge
    | some r =>
      refine Relation.ReflTransGen.head (Moves.finishOpened o r.1 r.2 hauth hcipher ho hslider
        hciphers hnew hcontent) ?_
      exact finishDecodedCommand_path (c := c.judged o.hdr.msgNum) r.2 ts (.opened o)
        fun _ => hauth

theorem dispatchCommand_path (rawCmd : UInt8) (payload : Bytes) (ts : Int) :
    Path env auth c.view (c.dispatchCommand env rawCmd payload ts).view := by
  have hdefer : Path env auth c.view (c.deferCryptedBeforeAuth env rawCmd payload ts).2.view :=
    deferCryptedBeforeAuth_path c rawCmd payload ts
  unfold dispatchCommand
  simp only
  cases hkept : (c.deferCryptedBeforeAuth env rawCmd payload ts).1 with
  | true => exact hdefer
  | false =>
    obtain ⟨hsame, hcrypted⟩ := deferCryptedBeforeAuth_of_not hkept
    rw [hsame]
    simp only [Bool.false_eq_true, if_false]
    by_cases hcmd : Command.fromByte (rawCmd &&& 0x7F) = .crypted
    · have hauth := hcrypted (fromByte_and_seven_f rawCmd ▸ hcmd)
      by_cases hopens : ∃ cipher hdr plaintext, c.inb.dataReadState.decodeCipher = some cipher ∧
          decryptCommandNoReplay env.aead cipher payload = some (hdr, plaintext)
      · obtain ⟨cipher, hdr, plaintext, hcipher, hopen⟩ := hopens
        have horigin : c.originOf env rawCmd payload = .opened ⟨cipher, payload, hdr, plaintext,
            c.inb.dataReadState.slider, c.trace.ciphers, false⟩ := by
          simp only [originOf, if_pos hcmd, hcipher, hopen]
        rw [decodeShared_opened hcmd hcipher hopen, horigin]
        exact judged_path (o := ⟨cipher, payload, hdr, plaintext, c.inb.dataReadState.slider,
          c.trace.ciphers, false⟩) ts hauth hcipher hopen rfl rfl
      · have hnone : ∀ cipher, c.inb.dataReadState.decodeCipher = some cipher →
            decryptCommandNoReplay env.aead cipher payload = none := by
          intro cipher hcipher
          by_contra hsome
          obtain ⟨r, hr⟩ := Option.ne_none_iff_exists'.mp hsome
          exact hopens ⟨cipher, r.1, r.2, hcipher, hr⟩
        rw [decodeShared_unopened hcmd hnone]
        exact .refl
    · simp only [originOf, decodeCommandPayloadShared, if_neg hcmd]
      cases hgate : gateShared false rawCmd payload with
      | none => exact .refl
      | some r =>
        have hplain := not_sensitive_of_gateShared hgate
        refine Relation.ReflTransGen.head (Moves.finishPlain r.1 r.2 hplain) ?_
        refine finishDecodedCommand_path (c := c) r.2 ts .plain fun hneed => ?_
        exact absurd (.inl (by rw [hneed]; decide)) hplain

theorem foldl_path {α : Type} {f : Client → α → Client}
    (hf : ∀ c a, Path env auth c.view (f c a).view) :
    ∀ (as : List α) (c : Client), Path env auth c.view (as.foldl f c).view
  | [], _ => .refl
  | a :: as, c => (hf c a).trans (foldl_path hf as (f c a))

theorem dispatchPacketCommands_path (rawCmd : UInt8) (payload : Bytes) (ts : Int) :
    Path env auth c.view (c.dispatchPacketCommands env rawCmd payload ts).view := by
  have hsub : ∀ (c : Client) (sub : UInt8 × Bytes),
      Path env auth c.view (c.dispatchCommand env sub.1 sub.2 ts).view :=
    fun c sub => dispatchCommand_path c sub.1 sub.2 ts
  unfold dispatchPacketCommands
  split
  · exact dispatchCommand_path c rawCmd payload ts
  split
  · exact .refl
  · exact foldl_path hsub _ c

theorem view_recvSlicer (r : SlicingReceiver) :
    { c with inb := { c.inb with recvSlicer := r } }.view = c.view := rfl

theorem onNewSliced_path : Path env auth c.view (c.onNewSliced env payload ts).view := by
  unfold onNewSliced
  split
  · exact .refl
  simp only
  have hsend : ∀ slicer ack, ({ c with inb := { c.inb with recvSlicer := slicer } }.sendCommand env
      .slicedACK ack []).view = c.view := fun slicer ack =>
    (sendRawPacketCmd_sends env _ _ _ _).view
  split
  · exact path_of_eq (hsend _ _)
  next m _ =>
  rw [view_recvSlicer, dispatchCommandOwned_eq]
  exact (path_of_eq (hsend _ _)).trans (dispatchCommand_path _ m.cmd m.data.view ts)

/-! ## Handshake answers -/

theorem acceptedServerMixTs_view (mixTs : UInt64) :
    (c.acceptedServerMixTs mixTs).view = c.view := by
  unfold acceptedServerMixTs
  split <;> rfl

theorem adoptSession_view (env : Env) (c : Client) (hello : Hello) :
    ∃ key, (c.adoptSession env hello).view
      = { c.view.adopt hello.serverToken key with phase := c.view.phase } := by
  have hmix := acceptedServerMixTs_view c hello.mixTs
  refine ⟨(generateSessionSubKeys env.shake128 c.cfg.masterKey c.cfg.clientId hello.serverToken
    hello.rnd).2, ?_⟩
  have hcfg : (c.acceptedServerMixTs hello.mixTs).cfg = c.cfg := by
    unfold acceptedServerMixTs
    split <;> rfl
  unfold adoptSession
  rw [← hmix, ← hcfg]
  generalize c.acceptedServerMixTs hello.mixTs = c'
  simp only
  split
  · simp only [view, SessionView.adopt, finished, refreshAckSession32, record, finishedOf_append]
    rw [show finishedOf [.lifecycle .serverRestart] = [] from rfl, List.append_nil]
  · rfl

theorem onWhoAreYou_path : Path env auth c.view (c.onWhoAreYou env payload ts).view := by
  unfold onWhoAreYou
  split
  · exact .refl
  next hcond =>
  split
  · exact .refl
  next hello _ =>
  split
  · exact .refl
  obtain ⟨key, hadopt⟩ := adoptSession_view env c hello
  have hphase : c.session.helloWaitState.allowsWhoAreYou = true := by
    simp only [Bool.or_eq_true, not_or] at hcond
    simpa using hcond.1
  have hbuild : (c.applyHelloAndBuildImfriend env hello).2.view
      = { c.view.adopt hello.serverToken key with phase := c.view.phase } :=
    (buildImfriendPacket_view env _).trans hadopt
  simp only
  revert hbuild
  generalize (c.applyHelloAndBuildImfriend env hello).2 = c'
  intro hbuild
  have hview : (c'.startHelloWait .primaryImFriendSent ts).view
      = c.view.adopt hello.serverToken key := by
    show { c'.view with phase := .primaryImFriendSent } = _
    rw [hbuild]
    rfl
  have hsend := fun (cl : Client) (packet : Bytes) (by' : List Nat) =>
    (sendRawPacketCmd_sends env cl Command.imFriend.toByte packet by').view
  refine Relation.ReflTransGen.trans (.single (Moves.adopt hello.serverToken key hphase))
    (path_of_eq ?_)
  exact ((hsend _ _ _).trans (hsend _ _ _)).trans hview

theorem onHandshakeControl_path (cmd : Command) (payload : Bytes) :
    Path env auth c.view (c.onHandshakeControl env cmd payload).view := by
  unfold onHandshakeControl
  split
  · split
    · exact .refl
    · exact .refl
  · split
    · split
      · exact .refl
      · split
        · exact .refl
        · next hello _ =>
          split
          · exact .refl
          · rw [← acceptedServerMixTs_view c hello.mixTs]
            exact .single Moves.hardClose
    · exact .refl

theorem finishDeferred_path {c : Client} {p : PreAuthCryptedCommand} (hp : p.Genuine env)
    (hauth : c.session.authorized = true)
    (hcipher : c.inb.dataReadState.decodeCipher = some p.cipher) :
    Path env auth c.view (c.finishDeferred p).view := by
  obtain ⟨hopen, hnum, hcmd, hpayload⟩ := hp
  have hjudged := @judged_path p.timestampMs env auth c ⟨p.cipher, p.data, p.hdr, p.plaintext,
    c.inb.dataReadState.slider, c.trace.ciphers, true⟩ hauth hcipher hopen rfl rfl
  unfold finishDeferred
  simp only [hnum, hcmd, hpayload]
  cases hnew : (c.inb.dataReadState.slider.judge p.hdr.msgNum).1 with
  | false =>
    rw [hnew] at hjudged
    exact hjudged
  | true =>
    rw [hnew] at hjudged
    exact hjudged

theorem finishDecodedCommand_keeps (cmd : UInt8) (payload : Bytes) (ts : Int) (origin : Origin) :
    (c.finishDecodedCommand cmd payload ts origin).session.authorized = c.session.authorized ∧
      (c.finishDecodedCommand cmd payload ts origin).inb = c.inb := by
  unfold finishDecodedCommand applyNeedHelloAgain
  simp only
  split
  · split
    · split <;> exact ⟨rfl, rfl⟩
    · exact ⟨rfl, rfl⟩
  · split <;> exact ⟨rfl, rfl⟩

theorem finishDeferred_keeps (p : PreAuthCryptedCommand) :
    (c.finishDeferred p).session.authorized = c.session.authorized ∧
      (c.finishDeferred p).inb.dataReadState.decodeCipher = c.inb.dataReadState.decodeCipher := by
  unfold finishDeferred
  simp only
  split
  · exact ⟨rfl, rfl⟩
  split
  · exact ⟨rfl, rfl⟩
  next r _ =>
  obtain ⟨hauth, hinb⟩ := finishDecodedCommand_keeps _ _ _ _ _
  exact ⟨hauth, congrArg (·.dataReadState.decodeCipher) hinb⟩

theorem finishAllDeferred_path : ∀ (ps : List PreAuthCryptedCommand) {c : Client},
    (∀ p ∈ ps, p.Genuine env ∧ c.inb.dataReadState.decodeCipher = some p.cipher) →
    c.session.authorized = true → Path env auth c.view (ps.foldl finishDeferred c).view
  | [], _, _, _ => .refl
  | p :: ps, c, hps, hauth => by
    obtain ⟨hp, hcipher⟩ := hps p List.mem_cons_self
    obtain ⟨hauth', hcipher'⟩ := finishDeferred_keeps c p
    refine (finishDeferred_path hp hauth hcipher).trans (finishAllDeferred_path ps ?_ ?_)
    · intro q hq
      obtain ⟨hgenuine, hq'⟩ := hps q (List.mem_cons_of_mem p hq)
      exact ⟨hgenuine, hcipher'.trans hq'⟩
    · exact hauth'.trans hauth

theorem drainDeferred_eq {c : Client} (h : c.view.Inv env) : c.drainDeferredPreAuthCrypted = c := by
  unfold drainDeferredPreAuthCrypted
  split
  · rfl
  next hcond =>
  simp only [Bool.or_eq_true, not_or, Bool.not_eq_true', Bool.not_eq_false] at hcond
  have hnil : c.inb.preAuthCrypted = [] := h.drained hcond.1
  rw [hnil] at hcond
  exact absurd rfl hcond.2

theorem drainDeferred_path {c : Client} (hauth : c.session.authorized = true)
    (hps : ∀ p ∈ c.inb.preAuthCrypted,
      p.Genuine env ∧ c.inb.dataReadState.decodeCipher = some p.cipher) :
    Path env auth { c.view with deferred := [] } c.drainDeferredPreAuthCrypted.view := by
  unfold drainDeferredPreAuthCrypted
  cases hdef : c.inb.preAuthCrypted with
  | nil =>
    simp only [List.isEmpty_nil, Bool.or_true, if_true]
    rw [← hdef]
    exact .refl
  | cons p ps =>
    simp only [hauth, Bool.not_true, List.isEmpty_cons, Bool.or_self, Bool.false_eq_true, if_false]
    rw [← hdef]
    refine finishAllDeferred_path (c := { c with inb := { c.inb with preAuthCrypted := [] } }) _
      (fun q hq => hps q ?_) hauth
    exact (List.perm_insertionSort _ _).mem_iff.mp hq

/-- A Fine that is accepted authorizes, and what was deferred is finished. -/
theorem onFine_path {c : Client} {d : Datagram} (h : c.view.Inv env)
    (hcmd : Command.fromByte d.rawCmd = .fine) :
    Path env (FineAtHand env c.cfg c.view (.receive d)) c.view
      ((c.onFine env d.payload.view).drainDeferredPreAuthCrypted).view := by
  unfold onFine
  split
  · rw [drainDeferred_eq h]
  next hphase =>
  split
  · rw [drainDeferred_eq h]
  next cipher hcipher =>
  split
  · rw [drainDeferred_eq h]
  next hello hopen =>
  split
  · rw [drainDeferred_eq h]
  next hmatch =>
  have hfine : c.view.phase.allowsFine = true := by
    simpa [view] using hphase
  simp only [matchesCurrentFine, matchesCurrentHandshake, Bool.not_eq_true',
    Bool.not_eq_false, Bool.and_eq_true, beq_iff_eq] at hmatch
  have hhand : FineAtHand env c.cfg c.view (.receive d) c.view :=
    ⟨rfl, d, cipher, hello, rfl, hcmd, hcipher, hopen, hmatch.1.symm, hmatch.2⟩
  have hmix := acceptedServerMixTs_view c hello.mixTs
  refine Relation.ReflTransGen.head (Moves.authorize hfine hhand) ?_
  rw [← hmix] at h ⊢
  exact drainDeferred_path
    (c := (c.acceptedServerMixTs hello.mixTs).applyFineAuthDone) rfl h.deferred

/-! ## Events -/

theorem onNewPing_view (inputs : PingInputs) : (c.onNewPing env payload inputs).view = c.view := by
  unfold onNewPing applyPingAndBuildResponse
  cases PingFrame.read payload with
  | none => rfl
  | some ping =>
    exact (view_record _ rfl).trans (sendRawPacketCmd_sends env _ _ _ _).view

theorem onNewSizeTest_view : (c.onNewSizeTest env payload).view = c.view := by
  unfold onNewSizeTest
  split
  · rfl
  · exact (sendRawPacketCmd_sends env _ _ _ _).view

theorem onNewProbeMtu_view : (c.onNewProbeMtu env payload).view = c.view := by
  unfold onNewProbeMtu
  split
  · rfl
  · exact (sendRawPacketCmd_sends env _ _ _ _).view

theorem onNewSlicedAck_view : (c.onNewSlicedAck payload).view = c.view := by
  unfold onNewSlicedAck
  split
  · rfl
  · split <;> rfl

theorem routeByCommand_path {c : Client} (d : Datagram) (h : c.view.Inv env) :
    Path env (FineAtHand env c.cfg c.view (.receive d)) c.view (c.routeByCommand env d).view := by
  unfold routeByCommand
  simp only
  split
  · split
    · exact .refl
    · exact path_of_eq (onNewPing_view c _ _)
  split
  · exact onHandshakeControl_path c _ _
  split
  · exact onWhoAreYou_path c _ _
  split
  · next hcmd => exact onFine_path h hcmd
  split
  · exact path_of_eq (onNewSizeTest_view c _)
  split
  · exact path_of_eq (onNewProbeMtu_view c _)
  split
  · exact path_of_eq (onNewSlicedAck_view c _)
  split
  · exact onNewSliced_path c _ _
  split
  · exact dispatchPacketCommands_path c _ _ _
  · rw [dispatchCommandOwned_eq]
    exact dispatchCommand_path c _ _ _

theorem receive_path {c : Client} (d : Datagram) (h : c.view.Inv env) :
    Path env (FineAtHand env c.cfg c.view (.receive d)) c.view (c.receive env d).view := by
  unfold receive processDatagram routeCommand
  split
  · exact .refl
  split
  · exact onHandshakeControl_path c _ _
  · exact routeByCommand_path
      (c := (c.applyRecvSideEffects d.timestampMs).tidySlicer d.timestampMs d.cleanupOrder) d h

theorem wake_view (bound : Bool) : (c.wake bound).view = c.view := by
  have htransition : c.checkLifecycleTransition.view = c.view := by
    unfold checkLifecycleTransition
    split
    · rfl
    simp only
    split
    · rfl
    · exact view_record _ rfl
  rw [← htransition]
  unfold wake ensureSocketBound bindSocket
  split
  · simp only
    split <;> rfl
  · rfl

/-- **The client refines the session machine**: every step is a path of it, and
along the path only a Fine that the step brings can authorize. -/
theorem step_path {c : Client} (e : Event) (h : c.view.Inv env) :
    Path env (FineAtHand env c.cfg c.view e) c.view (c.step env e).view := by
  cases e with
  | enqueue item => exact .refl
  | requestShutdown => exact .refl
  | disconnect => exact .single Moves.disconnect
  | wake bound => exact path_of_eq (wake_view c bound)
  | receive d => exact receive_path d h
  | maintain m => exact maintain_path c m

theorem new_inv (cfg : ClientConfig) (clientToken appToken : UInt64) :
    (Client.new cfg clientToken appToken).view.Inv env where
  primary := Bool.false_ne_true.elim
  rebind := nofun
  waiting := fun _ _ => rfl
  drained := fun _ => rfl
  window := fun hp => absurd rfl hp
  deferred := fun _ hp => absurd hp List.not_mem_nil
  slider := ⟨[], Slider.represents_new, .inl ⟨rfl, rfl, rfl, .inl rfl⟩⟩
  finished := fun _ hf => absurd hf List.not_mem_nil
  known := fun _ ho => absurd ho List.not_mem_nil
  once := List.nodup_nil

/-- **The invariant holds in every state a client reaches.** -/
theorem reachable_inv {cfg : ClientConfig} {clientToken appToken : UInt64} {events : List Event}
    {c : Client} (hrun : Run.run (next env) (Client.new cfg clientToken appToken) events = some c) :
    c.view.Inv env := by
  refine Run.run_invariant (I := fun c => c.view.Inv env) (P := fun _ _ => True) ?_
    (new_inv cfg clientToken appToken) (Run.along_of_forall (fun _ _ => trivial) _ events) hrun
  intro s e s' hs _ hstep
  cases hstep
  exact hs.of_path (step_path e hs)

end Client

end MoonProto
