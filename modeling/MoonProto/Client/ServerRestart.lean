import MoonProto.Client.ReceiveFrame
import MoonProto.Client.SessionSafety

/-!
# Reports of a server restart

`apply_hello_and_build_imfriend` reports a restart of the server when the app token
of an accepted WhoAreYou differs from the one the client holds, and then drops the
marks of the market indexes (`ReconnectRestore`). A WhoAreYou is accepted in a primary
window only, and `begin_primary_hello`, which opens that window, drops the held app
token first. So the comparison always sees zero: the invariant `Forgotten`, kept by
every step.
-/

namespace MoonProto

open Option

/-! ## Marks of the market indexes -/

/-- `ReconnectRestore`, as far as it concerns the market indexes. -/
structure ReconnectRestore where
  trackedIndexesPeerAppToken : UInt64
  indexesFetchInFlight : Bool
  indexesFetchStartedMs : Int
deriving DecidableEq

/-- `INDEXES_FETCH_TIMEOUT_MS`. -/
def indexesFetchTimeoutMs : Int := 12000

namespace ReconnectRestore

def new : ReconnectRestore := ⟨0, false, 0⟩

/-- The marks in `apply_hello_and_build_imfriend`. -/
def applyHello (r : ReconnectRestore) (prevAppToken appToken : UInt64) : ReconnectRestore :=
  if prevAppToken ≠ 0 ∧ prevAppToken ≠ appToken then
    { r with indexesFetchInFlight := false, trackedIndexesPeerAppToken := 0 }
  else r

def marketIndexesCurrentForPeer (r : ReconnectRestore) (peerAppToken : UInt64) : Bool :=
  peerAppToken != 0 && peerAppToken == r.trackedIndexesPeerAppToken

/-- Fresh indexes are needed; `wanted` is `domain_ready` together with
`domain_restore_needs_indexes`. -/
def indexesStale (r : ReconnectRestore) (peerAppToken : UInt64) (wanted : Bool) : Bool :=
  wanted && peerAppToken != 0 && !r.marketIndexesCurrentForPeer peerAppToken

def sendMarketsIndexesRestoreRequest (r : ReconnectRestore) (nowMs : Int) : ReconnectRestore :=
  if r.indexesFetchInFlight then r
  else { r with indexesFetchInFlight := true, indexesFetchStartedMs := nowMs }

/-- `restore_domain_after_reconnect` and `tick_periodic_refresh_at`: a request for
indexes that are stale. -/
def requestStaleIndexes (r : ReconnectRestore) (peerAppToken : UInt64) (wanted : Bool)
    (nowMs : Int) : ReconnectRestore :=
  if r.indexesStale peerAppToken wanted then r.sendMarketsIndexesRestoreRequest nowMs else r

def checkIndexesFetchTimeout (r : ReconnectRestore) (peerAppToken : UInt64) (wanted : Bool)
    (nowMs : Int) : ReconnectRestore :=
  if r.indexesFetchInFlight && decide (indexesFetchTimeoutMs < nowMs - r.indexesFetchStartedMs) then
    { r with indexesFetchInFlight := false }.requestStaleIndexes peerAppToken wanted nowMs
  else r

/-- `apply_engine_response_client_bookkeeping` on an answer to GetMarketsIndexes. -/
def applyIndexesResponse (r : ReconnectRestore) (peerAppToken : UInt64) (payloadOk : Bool) :
    ReconnectRestore where
  trackedIndexesPeerAppToken := if payloadOk then peerAppToken else r.trackedIndexesPeerAppToken
  indexesFetchInFlight := false
  indexesFetchStartedMs := r.indexesFetchStartedMs

/-- The init step GetMarketsList. -/
def applyMarketsList (r : ReconnectRestore) (peerAppToken : UInt64) : ReconnectRestore :=
  { r with trackedIndexesPeerAppToken := peerAppToken }

end ReconnectRestore

/-! ## The client with its marks -/

namespace Client

/-- The record that `on_who_are_you` accepts, if it does. -/
def acceptsWhoAreYou (env : Env) (c : Client) (payload : Bytes) : Option Hello :=
  if !c.session.helloWaitState.allowsWhoAreYou || c.session.serverToken != 0 then none
  else (decodeHandshakeHello env c.cfg .whoAreYou payload).filter c.matchesCurrentHandshake

/-- The WhoAreYou that a step accepts, if it does. -/
def acceptedHello (env : Env) (c : Client) : Event → Option Hello
  | .receive d =>
    if c.session.runtimeShutdown || c.socket.isNone
        || Command.fromByte d.rawCmd != .whoAreYou then none
    else c.acceptsWhoAreYou env d.payload.view
  | _ => none

end Client

/-- `lastAppToken` is not in the source: it is the app token of the WhoAreYou that was
accepted last, and zero before the first one. -/
structure Restarting where
  client : Client
  restore : ReconnectRestore
  lastAppToken : UInt64

inductive RestartEvent
  | client (e : Event)
  | requestIndexes (wanted : Bool) (nowMs : Int)
  | checkFetchTimeout (wanted : Bool) (nowMs : Int)
  | indexesResponse (payloadOk : Bool)
  | marketsList

namespace Restarting

def start (c : Client) : Restarting := ⟨c, .new, 0⟩

/-- The domain's own steps only move the marks. -/
def step (env : Env) (s : Restarting) : RestartEvent → Restarting
  | .client e =>
    match s.client.acceptedHello env e with
    | none => { s with client := s.client.step env e }
    | some hello => {
        client := s.client.step env e
        restore := s.restore.applyHello s.client.session.peerAppToken hello.appToken
        lastAppToken := hello.appToken }
  | .requestIndexes wanted nowMs => { s with
      restore := s.restore.requestStaleIndexes s.client.session.peerAppToken wanted nowMs }
  | .checkFetchTimeout wanted nowMs => { s with
      restore := s.restore.checkIndexesFetchTimeout s.client.session.peerAppToken wanted nowMs }
  | .indexesResponse payloadOk => { s with
      restore := s.restore.applyIndexesResponse s.client.session.peerAppToken payloadOk }
  | .marketsList => { s with
      restore := s.restore.applyMarketsList s.client.session.peerAppToken }

def next (env : Env) (s : Restarting) (e : RestartEvent) : Option Restarting := some (s.step env e)

/-- The step accepts a WhoAreYou of another server process than the one before. -/
def SeesRestart (env : Env) (s : Restarting) (e : RestartEvent) : Prop :=
  ∃ ev hello, e = .client ev ∧ s.client.acceptedHello env ev = some hello ∧ hello.appToken ≠ 0 ∧
    s.lastAppToken ≠ 0 ∧ hello.appToken ≠ s.lastAppToken

/-- A restart is reported in the step that sees it, with the marks cleared, and in no
other. -/
def Reports (env : Env) (s : Restarting) (e : RestartEvent) : Prop :=
  (s.SeesRestart env e → s.client.restarts < (s.step env e).client.restarts ∧
    (s.step env e).restore.indexesFetchInFlight = false ∧
    (s.step env e).restore.trackedIndexesPeerAppToken = 0) ∧
  (¬ s.SeesRestart env e → (s.step env e).client.restarts = s.client.restarts)

end Restarting

/-! ## No step reports -/

namespace Client

/-- Whoever waits for a WhoAreYou has forgotten the app token. -/
def Forgotten (c : Client) : Prop :=
  c.session.helloWaitState.allowsWhoAreYou = true → c.session.peerAppToken = 0

/-- From `c` to `c'` no restart is reported, the app token is kept or dropped, and a
forgotten token stays forgotten. -/
structure Unreported (c c' : Client) : Prop where
  restarts : c'.restarts = c.restarts
  held : c'.session.peerAppToken = c.session.peerAppToken ∨ c'.session.peerAppToken = 0
  forgotten : c.Forgotten → c'.Forgotten

namespace Unreported

variable {env : Env} {c : Client}

theorem trans {c₁ c₂ c₃ : Client} (h : Unreported c₁ c₂) (h' : Unreported c₂ c₃) :
    Unreported c₁ c₃ where
  restarts := h'.restarts.trans h.restarts
  held := by
    rcases h'.held with heq | hzero
    · rw [heq]
      exact h.held
    · exact .inr hzero
  forgotten := h'.forgotten ∘ h.forgotten

theorem restarts_eq_noted (c : Client) : c.restarts = restartsOf c.noted :=
  (List.count_filter rfl).symm

theorem of_quiet {c' : Client} (h : Quiet c c') : Unreported c c' where
  restarts := by rw [restarts_eq_noted, h.noted, ← restarts_eq_noted]
  held := .inl h.peerAppToken
  forgotten := fun hforgotten hwait => h.peerAppToken.trans (hforgotten (h.primary hwait))

theorem of_steady {c' : Client} (h : Steady c c') : Unreported c c' := of_quiet h.toQuiet

theorem of_sends {c' : Client} (h : Sends c c') : Unreported c c' where
  restarts := h.restarts
  held := .inl (congrArg Session.peerAppToken h.session)
  forgotten := fun hforgotten => by
    unfold Forgotten
    rw [h.session]
    exact hforgotten

/-- A client that does not wait for a WhoAreYou has nothing to forget. -/
theorem of_not_waiting {c' : Client} (hrestarts : c'.restarts = c.restarts)
    (hpeer : c'.session.peerAppToken = c.session.peerAppToken)
    (hidle : c'.session.helloWaitState.allowsWhoAreYou = false) : Unreported c c' :=
  ⟨hrestarts, .inl hpeer, fun _ hwait => absurd hwait (by rw [hidle]; exact Bool.false_ne_true)⟩

theorem checkHelloSend (env : Env) (c : Client) (curTm : Int) :
    Unreported c (c.checkHelloSend env curTm) := by
  rcases checkHelloSend_cases env c curTm with hsteady | hopened
  · exact of_steady hsteady
  · obtain ⟨-, hnoted, hpeer⟩ := openedPrimary_gaveUp hopened
    exact ⟨by rw [restarts_eq_noted, hnoted, ← restarts_eq_noted], .inr hpeer, fun _ _ => hpeer⟩

theorem doForceDisconnect (env : Env) (c : Client) (closeTm : Int) :
    Unreported c (c.doForceDisconnect env closeTm) := by
  have hclose : Unreported c (if c.announcesClose then c.sendSessionClose env closeTm else c) := by
    split
    · exact of_sends (sendHItem_sends env c _ closeTm)
    · exact of_sends (.refl c)
  refine (hclose.trans (of_steady (closeForRebind_steady _))).trans ?_
  unfold Client.doForceDisconnect
  simp only
  generalize (if c.announcesClose then c.sendSessionClose env closeTm else c).closeForRebind = c'
  refine of_not_waiting ?_ ?_ rfl
  · split
    · rfl
    · rfl
  · split
    · rfl
    · rfl

theorem copySendAck (env : Env) (c : Client) (curTm : Int) (pacing : Pacing) :
    Unreported c (c.copySendAckAndCheckSeningData env curTm pacing) := by
  unfold copySendAckAndCheckSeningData
  generalize c.sendLock.takeSendSnapshot = snapshot
  have htaken : Unreported c { c with
      sendLock := snapshot.2
      inb := { c.inb with recvdSlider := snapshot.1.2.2.getD c.inb.recvdSlider } } :=
    ⟨rfl, .inl rfl, id⟩
  exact htaken.trans (of_sends (checkSeningData_sends env _ _ _ curTm pacing))

theorem maintain (env : Env) (c : Client) (m : Maintenance) : Unreported c (c.maintain env m) := by
  unfold Client.maintain
  split
  · exact of_sends (.refl c)
  refine (copySendAck env c m.curTm m.pacing).trans ?_
  generalize c.copySendAckAndCheckSeningData env m.curTm m.pacing = c₁
  have htimers := ((checkHelloSend env c₁ m.curTm).trans
    (of_steady (checkOfflineReconnect_steady env _ m.curTm))).trans
    ((of_quiet (checkReconnectTimeout_still _ m.curTm).toQuiet).trans
      (of_quiet (checkDeadZone_still _ m.curTm).toQuiet))
  unfold transportReconnectTailTick reconnectChecks
  simp only
  split
  · exact htimers.trans (doForceDisconnect env _ m.closeTm)
  · exact htimers

end Unreported

/-- A forgotten token cannot differ from the new one. -/
theorem adoptSession_restarts (env : Env) {c : Client} (h : c.session.peerAppToken = 0)
    (hello : Hello) :
    (c.adoptSession env hello).restarts = c.restarts ∧
      (c.adoptSession env hello).session.peerAppToken = hello.appToken := by
  have hmix := Unreported.of_steady (acceptedServerMixTs_steady c hello.mixTs)
  have hpeer := (acceptedServerMixTs_steady c hello.mixTs).peerAppToken.trans h
  unfold adoptSession refreshAckSession32
  simp only
  rw [if_neg fun hne => hne.1 hpeer]
  exact ⟨hmix.restarts, rfl⟩

theorem onWhoAreYou_refused {env : Env} {c : Client} {payload : Bytes}
    (h : c.acceptsWhoAreYou env payload = none) (ts : Int) :
    c.onWhoAreYou env payload ts = c := by
  rcases onWhoAreYou_cases env c payload ts with heq | ⟨hello, hwait, htoken, hopen, hmatch, -⟩
  · exact heq
  · have haccept : c.acceptsWhoAreYou env payload = some hello := by
      unfold acceptsWhoAreYou
      rw [hwait, htoken, hopen, if_neg (by decide), filter_some, if_pos hmatch]
    rw [h] at haccept
    cases haccept

theorem onWhoAreYou_accepted {env : Env} {c : Client} {payload : Bytes} {hello : Hello}
    (h : c.acceptsWhoAreYou env payload = some hello) (hforgotten : c.Forgotten) (ts : Int) :
    (c.onWhoAreYou env payload ts).restarts = c.restarts ∧
      (c.onWhoAreYou env payload ts).session.peerAppToken = hello.appToken ∧
      (c.onWhoAreYou env payload ts).Forgotten := by
  unfold acceptsWhoAreYou at h
  split at h
  · cases h
  next hcond =>
  obtain ⟨hopen, hmatch⟩ := filter_eq_some_iff.mp h
  have hwait : c.session.helloWaitState.allowsWhoAreYou = true ∧ c.session.serverToken = 0 := by
    simpa using hcond
  obtain ⟨hrestarts, hpeer⟩ := adoptSession_restarts env (hforgotten hwait.1) hello
  obtain ⟨hquiet, hphase⟩ := onWhoAreYou_adopts hwait.1 hwait.2 hopen hmatch ts
  refine ⟨(Unreported.of_steady hquiet).restarts.trans hrestarts,
    hquiet.peerAppToken.trans hpeer, fun hwait' => ?_⟩
  rw [hphase] at hwait'
  exact absurd hwait' Bool.false_ne_true

theorem acceptsWhoAreYou_tidy (env : Env) (c : Client) (d : Datagram) (payload : Bytes) :
    acceptsWhoAreYou env ((c.applyRecvSideEffects d.timestampMs).tidySlicer d.timestampMs
      d.cleanupOrder) payload = c.acceptsWhoAreYou env payload := rfl

theorem receive_refused {env : Env} {c : Client} {d : Datagram}
    (h : c.acceptedHello env (.receive d) = none) : Unreported c (c.receive env d) := by
  unfold receive
  split
  · exact .of_steady (.refl c)
  next hon =>
  by_cases hcmd : Command.fromByte d.rawCmd = .whoAreYou
  · have hrefused : c.acceptsWhoAreYou env d.payload.view = none := by
      simpa only [acceptedHello, Bool.eq_false_of_not_eq_true hon, hcmd, bne_self_eq_false,
        Bool.or_self, Bool.false_eq_true, if_false] using h
    rw [← acceptsWhoAreYou_tidy env c d] at hrefused
    rw [processDatagram_whoAreYou env c hcmd, onWhoAreYou_refused hrefused]
    exact .of_steady (tidy_steady c d)
  · exact .of_steady (processDatagram_steady env c d hcmd)

theorem receive_accepted {env : Env} {c : Client} {d : Datagram} {hello : Hello}
    (h : c.acceptedHello env (.receive d) = some hello) (hforgotten : c.Forgotten) :
    (c.receive env d).restarts = c.restarts ∧
      (c.receive env d).session.peerAppToken = hello.appToken ∧ (c.receive env d).Forgotten := by
  simp only [acceptedHello] at h
  split at h
  · cases h
  next hon =>
  rw [Bool.not_eq_true, Bool.or_eq_false_iff] at hon
  have hcmd : Command.fromByte d.rawCmd = .whoAreYou := by simpa using hon.2
  have htidy := Unreported.of_steady (tidy_steady c d)
  rw [← acceptsWhoAreYou_tidy env c d] at h
  have haccepted := onWhoAreYou_accepted h (htidy.forgotten hforgotten) d.timestampMs
  rw [receive, hon.1, if_neg Bool.false_ne_true, processDatagram_whoAreYou env c hcmd]
  exact ⟨haccepted.1.trans htidy.restarts, haccepted.2⟩

theorem step_unreported {env : Env} {c : Client} {e : Event} (h : c.acceptedHello env e = none) :
    Unreported c (c.step env e) := by
  cases e with
  | enqueue item => exact ⟨rfl, .inl rfl, id⟩
  | requestShutdown => exact ⟨rfl, .inl rfl, id⟩
  | disconnect => exact .of_not_waiting rfl rfl rfl
  | wake bound => exact .of_steady (wake_steady c bound)
  | receive d => exact receive_refused h
  | maintain m => exact .maintain env c m

end Client

/-! ## Runs -/

namespace Restarting

variable {env : Env} {s : Restarting}

/-- The app token is forgotten while a WhoAreYou is awaited, and otherwise it is that
of the last WhoAreYou, or dropped. -/
structure Inv (s : Restarting) : Prop where
  forgotten : s.client.Forgotten
  held : s.client.session.peerAppToken = s.lastAppToken ∨ s.client.session.peerAppToken = 0

theorem inv_start (cfg : ClientConfig) (clientToken appToken : UInt64) :
    (start (Client.new cfg clientToken appToken)).Inv := ⟨fun _ => rfl, .inl rfl⟩

/-- **No step reports a restart.** -/
theorem Inv.step (h : s.Inv) (e : RestartEvent) :
    (s.step env e).client.restarts = s.client.restarts ∧ (s.step env e).Inv := by
  cases e with
  | client ev =>
    simp only [Restarting.step]
    split
    · next hrefused =>
      have hstep := Client.step_unreported hrefused
      refine ⟨hstep.restarts, hstep.forgotten h.forgotten, ?_⟩
      rcases hstep.held with hkept | hdropped
      · rw [hkept]
        exact h.held
      · exact .inr hdropped
    · next hello haccepted =>
      cases ev with
      | receive d =>
        obtain ⟨hrestarts, hpeer, hforgotten⟩ :=
          Client.receive_accepted haccepted h.forgotten
        exact ⟨hrestarts, hforgotten, .inl hpeer⟩
      | enqueue | requestShutdown | disconnect | wake | maintain => cases haccepted
  | requestIndexes | checkFetchTimeout | indexesResponse | marketsList =>
    exact ⟨rfl, h.forgotten, h.held⟩

theorem Inv.reports_iff (h : s.Inv) (e : RestartEvent) :
    s.Reports env e ↔ ¬ s.SeesRestart env e := by
  obtain ⟨hsame, -⟩ := @Inv.step env s h e
  constructor
  · intro hreports hsees
    exact absurd (hreports.1 hsees).1 (hsame ▸ Nat.lt_irrefl _)
  · intro hnot
    exact ⟨fun hsees => absurd hsees hnot, fun _ => hsame⟩

/-- **A restart of the server is never reported.** In a run from the fresh state every
restart is reported, with the marks cleared, exactly if the run has none to report:
no accepted WhoAreYou carries an app token that differs from the one accepted before.
No run reports one. -/
theorem restart_reported_iff (env : Env) (cfg : ClientConfig) (clientToken appToken : UInt64)
    (events : List RestartEvent) :
    (Run.Along (next env) (Reports env) (start (Client.new cfg clientToken appToken)) events ↔
      Run.Along (next env) (fun s e => ¬ s.SeesRestart env e)
        (start (Client.new cfg clientToken appToken)) events) ∧
    ∃ s, Run.run (next env) (start (Client.new cfg clientToken appToken)) events = some s ∧
      s.client.restarts = 0 := by
  have hstart := inv_start cfg clientToken appToken
  constructor
  · refine Run.along_congr (I := Inv) ?_ (fun s e h => h.reports_iff e) hstart
    rintro s e s' h hstep
    cases hstep
    exact (h.step e).2
  · have hrun : ∃ s, Run.run (next env) (start (Client.new cfg clientToken appToken)) events
        = some s ∧ s.Inv ∧ s.client.restarts = 0 :=
      Run.run_total (P := fun _ _ => True)
        (fun s e h _ => ⟨_, rfl, (h.1.step e).2, (h.1.step e).1.trans h.2⟩)
        ⟨hstart, rfl⟩ (Run.along_of_forall (fun _ _ => trivial) _ _)
    obtain ⟨s, hs, -, hrestarts⟩ := hrun
    exact ⟨s, hs, hrestarts⟩

end Restarting

namespace Sample

/-- The client with its marks, before the new process answers the Hello: a request for
indexes is in flight and the indexes are those of the old process. -/
def beforeRestart : List RestartEvent :=
  session.map .client ++ [.requestIndexes true 10040, .marketsList] ++
    (startedOver.drop session.length).map .client

/-- The WhoAreYou of the new process. -/
def newProcess : RestartEvent := .client (answerFor (after startedOver) .whoAreYou 6 10 13030)

end Sample

namespace Restarting

/-- The new process has the app token 10 after 9. Its WhoAreYou is accepted, and
neither is the restart reported nor are the marks cleared. -/
theorem restart_not_reported :
    ∃ s : Restarting, s = Sample.beforeRestart.foldl (step .sample) (start (.new .sample 1 2)) ∧
      s.SeesRestart .sample Sample.newProcess ∧ ¬ s.Reports .sample Sample.newProcess ∧
      (s.step .sample Sample.newProcess).client.restarts = 0 ∧
      (s.step .sample Sample.newProcess).restore.indexesFetchInFlight = true ∧
      (s.step .sample Sample.newProcess).restore.trackedIndexesPeerAppToken = 9 := by
  have hsees : (Sample.beforeRestart.foldl (step .sample) (start (.new .sample 1 2))).SeesRestart
      .sample Sample.newProcess :=
    ⟨_, Hello.mk (Sample.after Sample.startedOver).session.handshakeRnd 200 0 6 0 10, rfl,
      by decide +kernel, by decide +kernel, by decide +kernel, by decide +kernel⟩
  refine ⟨_, rfl, hsees, fun hreports => ?_, ?_, ?_, ?_⟩
  · exact absurd (hreports.1 hsees).1 (by decide +kernel)
  · decide +kernel
  · decide +kernel
  · decide +kernel

end Restarting

end MoonProto
