import MoonProto.Client.SessionRefinement

/-!
# Safety of the session

Two results about every run of a client, whatever packets it receives: what may
be finished by `finish_decoded_command`, and what the handshake guarantees.
Both are read off the invariant of the session machine.
-/

namespace MoonProto

open Codec SessionView

/-! ## Finished commands -/

namespace Client

variable {env : Env} {cfg : ClientConfig} {clientToken appToken : UInt64} {events : List Event}
  {c : Client}

/-- **The plaintext gate.** In every run, on every path that leads to
`finish_decoded_command` (a direct command, a part of a Grouped packet, a
reassembled sliced message, a deferred command):

* a sensitive command was decrypted: its bytes are the content of a message that
  opened under the decode cipher and whose number the slider newly accepted;
* no message, identified by its keys and its number, is finished twice;
* a deferred command is finished in an authorized session only. -/
theorem sensitive_commands_were_decrypted
    (hrun : Run.run (next env) (Client.new cfg clientToken appToken) events = some c) :
    (∀ f ∈ c.finished, Sensitive f.cmd f.payload → ∃ o, f.origin = .opened o ∧ f.FromOpened env o) ∧
    ((openedOf c.finished).map Opened.id).Nodup ∧
    (∀ f ∈ c.finished, ∀ o, f.origin = .opened o → o.deferred = true → f.authorized = true) := by
  have hinv := reachable_inv hrun
  refine ⟨fun f hf hs => ?_, hinv.once, fun f hf o ho _ => ?_⟩
  · have hsound := hinv.finished f hf
    unfold Finished.Sound at hsound
    cases ho : f.origin with
    | plain =>
      rw [ho] at hsound
      exact absurd hs hsound
    | opened o =>
      rw [ho] at hsound
      exact ⟨o, rfl, hsound⟩
  · have hsound := hinv.finished f hf
    unfold Finished.Sound at hsound
    rw [ho] at hsound
    exact hsound.authorized

end Client

/-! ## A sample session -/

namespace Sample

def hello (rnd : Vector UInt8 16) : Hello := ⟨rnd, 100, 0, 5, 0, 9⟩

/-- An answer of the server, sealed under `key`. -/
def answer (cmd : Command) (key : MoonKey) (rnd : Vector UInt8 16) : Payload :=
  Payload.ofBytes (encryptWithCipher Aead.tagged key (List.replicate 12 0)
    (hello rnd).toBytesPacked (handshakeAad ClientConfig.sample.clientId cmd.toByte))

def datagram (cmd : Command) (payload : Payload) (timestampMs : Int) : Datagram :=
  ⟨cmd.toByte, payload, timestampMs, [], ⟨0, 0, 0, ⟨0, 0, none⟩⟩⟩

def maintenance (curTm : Int) : Maintenance := ⟨curTm, curTm, ⟨0, 100000⟩⟩

def whoAreYou (rnd : Vector UInt8 16) (timestampMs : Int) : Event :=
  .receive (datagram .whoAreYou (answer .whoAreYou ClientConfig.sample.masterKey rnd) timestampMs)

/-- The decode key of the session with the server's token and `rnd`. -/
def decodeKey (rnd : Vector UInt8 16) : MoonKey :=
  (generateSessionSubKeys Env.sample.shake128 ClientConfig.sample.masterKey
    ClientConfig.sample.clientId 5 rnd).2

/-- An encrypted order under message number 1. -/
def order (rnd : Vector UInt8 16) : Payload :=
  Payload.ofBytes (encryptWithCipher Aead.tagged (decodeKey rnd) (List.replicate 12 0)
    ((CryptoHeader.mk 0 1 Command.order.toByte false).toBytes ++ [1, 2, 3]) [])

/-- The random value of the first window. -/
def rnd : Vector UInt8 16 := Env.sample.handshakeRnd 0

/-- A handshake; the order comes once before the Fine and once behind it. -/
def session : List Event := [ .wake true, .maintain (maintenance 10000), whoAreYou rnd 10010,
  .receive (datagram .crypted (order rnd) 10015),
  .receive (datagram .fine (answer .fine (decodeKey rnd) rnd) 10020),
  .receive (datagram .crypted (order rnd) 10030)]

def start : Client := Client.new .sample 1 2

/-- The client behind a run from the start. -/
def after (events : List Event) : Client := events.foldl (Client.step .sample) start

/-- An answer of the server for the open window of `c`, under the master key. -/
def answerFor (c : Client) (cmd : Command) (serverToken appToken : UInt64) (timestampMs : Int) :
    Event :=
  .receive (datagram cmd (Payload.ofBytes (encryptWithCipher Aead.tagged
    ClientConfig.sample.masterKey (List.replicate 12 0)
    (Hello.mk c.session.handshakeRnd 200 0 serverToken 0 appToken).toBytesPacked
    (handshakeAad ClientConfig.sample.clientId cmd.toByte))) timestampMs)

/-- Behind the session the server falls silent; the client tries to resume. -/
def silence : List Event := session ++ [.maintain (maintenance 13000)]

/-- The new server process does not know the session; the client starts over. -/
def startedOver : List Event :=
  silence ++ [answerFor (after silence) .wantNewHello 0 10 13010, .maintain (maintenance 13020)]

theorem run_after (events : List Event) :
    Run.run (Client.next .sample) (Client.new .sample 1 2) events = some (after events) :=
  Client.run_eq_foldl .sample events start

end Sample

namespace Client

theorem sensitive_commands_were_decrypted_sample :
    (Sample.after Sample.session).finished.map (fun f => (f.cmd, f.payload))
      = [(Command.order.toByte, [1, 2, 3])] ∧
    ∀ f ∈ (Sample.after Sample.session).finished, Sensitive f.cmd f.payload →
      ∃ o, f.origin = .opened o ∧ f.FromOpened .sample o :=
  ⟨by decide +kernel, (sensitive_commands_were_decrypted (Sample.run_after Sample.session)).1⟩

/-! ## Answers for an earlier window -/

/-- Under whatever key the message opens as an answer to this client, the record
in it carries `rnd`. With an authentic AEAD this is how the server sealed it. -/
def ProducedFor (env : Env) (cfg : ClientConfig) (cmd : Command) (payload : Bytes)
    (rnd : Vector UInt8 16) : Prop :=
  ∀ key hello, (decryptWithCipher env.aead key payload
    (handshakeAad cfg.clientId cmd.toByte)).bind Hello.fromBytes = some hello → hello.rnd = rnd

/-- The random value of a window that is not open any more. -/
def EarlierWindow (c : Client) (rnd : Vector UInt8 16) : Prop :=
  rnd ∈ c.trace.windows.dropLast ∨
    (rnd ∈ c.trace.windows ∧ c.session.helloWaitState = .idle)

/-- A WhoAreYou, Fine or WantNewHello that was produced for an earlier window. -/
def StaleAnswer (env : Env) (c : Client) (d : Datagram) : Prop :=
  Command.fromByte d.rawCmd ∈ [Command.whoAreYou, .fine, .wantNewHello] ∧
  ∃ rnd, c.EarlierWindow rnd ∧ ProducedFor env c.cfg (.fromByte d.rawCmd) d.payload.view rnd

/-- What every received datagram but WantNewHello changes: the connected flag, the
status of a client that was not connected, the time of the last packet, and the
clock and cleanup of the slicer. -/
def receiveBookkeeping (c : Client) (d : Datagram) : Client :=
  if c.session.runtimeShutdown || c.socket.isNone || Command.fromByte d.rawCmd == .wantNewHello
    then c
  else (c.applyRecvSideEffects d.timestampMs).tidySlicer d.timestampMs d.cleanupOrder

variable {env : Env} {c : Client} {rnd : Vector UInt8 16}

/-- With fresh random values an earlier one is not that of an open window. -/
theorem ne_handshakeRnd_of_earlier (h : c.view.Inv env) (hfresh : c.trace.windows.Nodup)
    (hearly : c.EarlierWindow rnd)
    (hphase : c.session.helloWaitState ≠ .idle) : rnd ≠ c.session.handshakeRnd := by
  rcases hearly with hdrop | ⟨-, hidle⟩
  · have hlast : c.trace.windows.dropLast ++ [c.session.handshakeRnd] = c.trace.windows :=
      List.dropLast_append_getLast? _ (h.window hphase)
    rw [← hlast] at hfresh
    intro heq
    exact (List.nodup_append.mp hfresh).2.2 rnd hdrop rnd (by simp [heq]) rfl
  · exact absurd hidle hphase

section stale

variable {payload : Bytes} (hne : c.session.helloWaitState ≠ .idle → rnd ≠ c.session.handshakeRnd)

include hne

theorem matchesCurrentHandshake_stale {hello : Hello} (hrnd : hello.rnd = rnd)
    (hphase : c.session.helloWaitState ≠ .idle) : c.matchesCurrentHandshake hello = false := by
  rw [matchesCurrentHandshake, hrnd, beq_eq_false_iff_ne]
  exact (hne hphase).symm

theorem onWhoAreYou_stale (ts : Int) (hprod : ProducedFor env c.cfg .whoAreYou payload rnd) :
    c.onWhoAreYou env payload ts = c := by
  unfold onWhoAreYou
  split
  · rfl
  next hcond =>
  split
  · rfl
  next hello hopen =>
  rw [matchesCurrentHandshake_stale hne (hprod _ hello hopen) fun hidle => by
    simp [hidle, HelloWaitState.allowsWhoAreYou] at hcond]
  rfl

theorem onFine_stale (hprod : ProducedFor env c.cfg .fine payload rnd) :
    c.onFine env payload = c := by
  unfold onFine
  split
  · rfl
  next hcond =>
  split
  · rfl
  next cipher _ =>
  split
  · rfl
  next hello hopen =>
  rw [matchesCurrentFine, matchesCurrentHandshake_stale hne (hprod cipher hello hopen)
    fun hidle => by simp [hidle, HelloWaitState.allowsFine] at hcond]
  rfl

theorem onWantNewHello_stale (hprod : ProducedFor env c.cfg .wantNewHello payload rnd) :
    c.onHandshakeControl env .wantNewHello payload = c := by
  unfold onHandshakeControl
  rw [if_neg (by decide), if_pos rfl]
  split
  · rfl
  next hcond =>
  split
  · rfl
  next hello hopen =>
  rw [matchesRequestBoundReset, matchesCurrentHandshake_stale hne (hprod _ hello hopen)
    fun hidle => by
      simp [shouldAcceptWantNewHello, hidle, HelloWaitState.allowsHelloAgainRetry] at hcond]
  rfl

end stale

/-- A stale answer is received and changes nothing else. -/
theorem receive_stale {d : Datagram} (h : c.view.Inv env) (hfresh : c.trace.windows.Nodup)
    (hstale : StaleAnswer env c d) : c.receive env d = c.receiveBookkeeping d := by
  obtain ⟨hcmd, rnd, hearly, hprod⟩ := hstale
  have hne := ne_handshakeRnd_of_earlier h hfresh hearly
  unfold receive receiveBookkeeping
  by_cases hoff : (c.session.runtimeShutdown || c.socket.isNone) = true
  · rw [if_pos hoff, if_pos (by rw [hoff]; rfl)]
  · rw [if_neg hoff]
    rw [Bool.not_eq_true] at hoff
    simp only [List.mem_cons, List.not_mem_nil, or_false] at hcmd
    rcases hcmd with hcmd | hcmd | hcmd
    · rw [hcmd] at hprod ⊢
      rw [processDatagram_whoAreYou env c hcmd, hoff, if_neg (by decide)]
      exact onWhoAreYou_stale (by exact hne) _ hprod
    · rw [hcmd] at hprod ⊢
      have hfine := @onFine_stale env
        ((c.applyRecvSideEffects d.timestampMs).tidySlicer d.timestampMs d.cleanupOrder)
        rnd d.payload.view hne hprod
      rw [processDatagram_fine env c hcmd, hoff, if_neg (by decide), hfine]
      exact @drainDeferred_eq env _ h
    · rw [hcmd] at hprod ⊢
      rw [processDatagram_wantNewHello env c hcmd, if_pos (by simp)]
      exact onWantNewHello_stale hne hprod

/-! ## The handshake -/

/-- **Handshake safety.** In every state that a client reaches, whatever it
received and however ticks and packets interleaved:

* a step authorizes the client only by a Fine that opens under its decode cipher
  and carries the random value of its window;
* while it waits for the answer to a primary Hello it has no server token and is
  not authorized;
* while it rebinds it has a server token;
* if the random values of its windows are fresh, a WhoAreYou, Fine or WantNewHello
  that was produced for an earlier window changes nothing but the bookkeeping of
  a received datagram, and a WantNewHello not even that. -/
theorem handshake_safety {cfg : ClientConfig} {clientToken appToken : UInt64} {events : List Event}
    (hrun : Run.run (next env) (Client.new cfg clientToken appToken) events = some c) :
    (∀ e, c.session.authorized = false → (c.step env e).session.authorized = true →
      ∃ d key hello, e = .receive d ∧ Command.fromByte d.rawCmd = .fine ∧
        c.inb.dataReadState.decodeCipher = some key ∧
        decodeFine env c.cfg key d.payload.view = some hello ∧
        hello.rnd = c.session.handshakeRnd) ∧
    (c.session.helloWaitState = .primaryHelloCold ∨
        c.session.helloWaitState = .primaryHelloNewSession →
      c.session.serverToken = 0 ∧ c.session.authorized = false) ∧
    (c.session.helloWaitState = .rebindHelloAgain → c.session.serverToken ≠ 0) ∧
    (c.trace.windows.Nodup → ∀ d, StaleAnswer env c d →
      c.receive env d = c.receiveBookkeeping d) := by
  have hinv := reachable_inv hrun
  refine ⟨fun e hnot hauth => ?_, fun hphase => ?_, hinv.rebind,
    fun hfresh d hstale => receive_stale hinv hfresh hstale⟩
  · obtain ⟨w, -, -, d, key, hello, he, hcmd, hcipher, hopen, hrnd, -⟩ :=
      auth_of_path (step_path e hinv) hnot hauth
    exact ⟨d, key, hello, he, hcmd, hcipher, hopen, hrnd⟩
  · have hprimary : c.view.phase.allowsWhoAreYou = true := by
      rcases hphase with hp | hp
      · rw [show c.view.phase = _ from hp]
        rfl
      · rw [show c.view.phase = _ from hp]
        rfl
    obtain ⟨htoken, hbarred⟩ := hinv.primary hprimary
    exact ⟨htoken, hbarred.authorized⟩

end Client

namespace Sample

/-- The first window times out and a second one is opened. -/
def reopened : List Event := [
  .wake true, .maintain (maintenance 10000), .maintain (maintenance 18000),
  .wake true, .maintain (maintenance 18010)]

/-- The WhoAreYou of the first window, delivered late. -/
def lateAnswer : Datagram :=
  datagram .whoAreYou (answer .whoAreYou ClientConfig.sample.masterKey rnd) 18020

/-- What opens under two keys opens to the same plaintext. -/
theorem tagged_unique {key key' : MoonKey} {data aad plain plain' : Bytes}
    (h : decryptWithCipher Aead.tagged key data aad = some plain)
    (h' : decryptWithCipher Aead.tagged key' data aad = some plain') : plain = plain' := by
  unfold decryptWithCipher at h h'
  split at h
  · cases h
  next hlen =>
  rw [if_neg hlen] at h'
  simp only at h h'
  split at h
  · cases h
  next hempty =>
  rw [if_neg hempty] at h'
  simp only [Aead.tagged] at h h'
  split at h
  · split at h'
    · rw [h] at h'
      exact Option.some.inj h'
    · cases h'
  · cases h

theorem lateAnswer_stale : Client.StaleAnswer .sample (after reopened) lateAnswer := by
  refine ⟨by decide, rnd, .inl (by decide +kernel), fun key hello hopen => ?_⟩
  obtain ⟨plain, hplain, hhello⟩ := Option.bind_eq_some_iff.mp hopen
  have hmaster : decryptWithCipher Aead.tagged ClientConfig.sample.masterKey
      lateAnswer.payload.view (handshakeAad ClientConfig.sample.clientId
        Command.whoAreYou.toByte) = some (Sample.hello rnd).toBytesPacked :=
    decryptWithCipher_encryptWithCipher Aead.tagged_inverts _ rfl _ _
  have hcfg : (after reopened).cfg = ClientConfig.sample := by decide +kernel
  rw [hcfg] at hplain
  rw [tagged_unique hplain hmaster] at hhello
  have hrecord : Hello.fromBytes (Sample.hello rnd).toBytesPacked = some (Sample.hello rnd) := by
    decide +kernel
  rw [hrecord] at hhello
  cases hhello
  rfl

end Sample

namespace Client

/-- **A late answer does leave a mark**: it counts as a sign of life of the server. -/
theorem stale_answer_refreshes_last_online :
    Run.run (next .sample) (Client.new .sample 1 2) Sample.reopened
      = some (Sample.after Sample.reopened) ∧
    (Sample.after Sample.reopened).trace.windows.Nodup ∧
    StaleAnswer .sample (Sample.after Sample.reopened) Sample.lateAnswer ∧
    (Sample.after Sample.reopened).receive .sample Sample.lateAnswer
      ≠ Sample.after Sample.reopened := by
  refine ⟨Sample.run_after _, by decide +kernel, Sample.lateAnswer_stale, fun h => ?_⟩
  have honline := congrArg (fun c : Client => c.session.lastOnline) h
  revert honline
  decide +kernel

theorem handshake_safety_sample :
    (Sample.after Sample.reopened).session.helloWaitState = .primaryHelloCold ∧
    ((Sample.after Sample.reopened).session.serverToken = 0 ∧
      (Sample.after Sample.reopened).session.authorized = false) ∧
    (Sample.after Sample.reopened).receive .sample Sample.lateAnswer
      = (Sample.after Sample.reopened).receiveBookkeeping Sample.lateAnswer := by
  obtain ⟨-, hprimary, -, hstale⟩ := handshake_safety (Sample.run_after Sample.reopened)
  have hphase : (Sample.after Sample.reopened).session.helloWaitState
      = .primaryHelloCold := by decide +kernel
  refine ⟨hphase, hprimary (.inl hphase), ?_⟩
  exact hstale (by decide +kernel) _ Sample.lateAnswer_stale

end Client

end MoonProto
