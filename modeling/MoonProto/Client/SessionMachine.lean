import Mathlib.Logic.Relation
import MoonProto.Client.Receive
import MoonProto.Client.SendFrame

/-!
# The session machine

What the handshake and the gate in front of the commands are for, without
packets, timers and sockets. A `SessionView` is the part of the client that
decides whose commands are finished; `Moves` says how it may change.

The invariant of the machine carries the safety results. Its delicate part is
the replay slider: a hard reset empties it while the old keys are still
installed. What keeps old commands out is that the session is then *barred*:
until new keys are there it can neither be authorized nor rebound.
-/

namespace MoonProto

open Codec

/-! ## Commands that must have been encrypted -/

/-- The kinds of command that are not accepted as plaintext. -/
def sensitiveKinds : List Command :=
  [.order, .strat, .ui, .balance, .logMsg, .needHelloAgain, .sessionClose]

/-- An API response to one of the methods that may answer in plaintext. -/
def BulkResponse (payload : Bytes) : Prop :=
  ∃ info, engineResponseMeta payload = some info ∧
    info.method ∈ [EngineMethod.getMarketsList, EngineMethod.updateMarketsList,
      EngineMethod.requestCandlesData]

/-- **Commands that must have been encrypted.** -/
def Sensitive (cmd : UInt8) (payload : Bytes) : Prop :=
  Command.fromByte cmd ∈ sensitiveKinds ∨
    (Command.fromByte cmd = .api ∧ ¬ BulkResponse payload)

/-- The message opens, under the key and to the header and plaintext it is
recorded with. -/
def Opened.Genuine (env : Env) (o : Opened) : Prop :=
  decryptCommandNoReplay env.aead o.cipher o.data = some (o.hdr, o.plaintext)

def PreAuthCryptedCommand.Genuine (env : Env) (p : PreAuthCryptedCommand) : Prop :=
  decryptCommandNoReplay env.aead p.cipher p.data = some (p.hdr, p.plaintext) ∧
    p.msgNum = p.hdr.msgNum ∧ p.cmd = p.hdr.cmd ∧ p.payload = p.plaintext.drop 12

/-- A finished command whose content was decrypted: under the decode cipher of the
moment, from a message whose number the slider newly accepted, in an authorized
session. -/
structure Finished.FromOpened (env : Env) (f : Finished) (o : Opened) : Prop where
  genuine : o.Genuine env
  isNew : (o.slider.judge o.hdr.msgNum).1 = true
  content : unpackInner o.hdr.cmd (o.plaintext.drop 12) = some (f.cmd, f.payload)
  cipher : f.decodeCipher = some o.cipher
  authorized : f.authorized = true

/-- A finished command either was plaintext and not sensitive, or was decrypted. -/
def Finished.Sound (env : Env) (f : Finished) : Prop :=
  match f.origin with
  | .plain => ¬ Sensitive f.cmd f.payload
  | .opened o => f.FromOpened env o

/-- The decrypted messages behind a list of finished commands. -/
def openedOf (fs : List Finished) : List Opened :=
  fs.filterMap fun f => match f.origin with
    | .plain => none
    | .opened o => some o

/-- A message is identified by the keys it came under and its number. -/
def Opened.id (o : Opened) : Nat × UInt64 := (o.ciphers, o.hdr.msgNum)

/-! ## The machine -/

structure SessionView where
  authorized : Bool
  phase : HelloWaitState
  soft : Bool
  serverToken : UInt64
  rnd : Vector UInt8 16
  decodeCipher : Option MoonKey
  slider : Slider
  deferred : List PreAuthCryptedCommand
  ciphers : Nat
  windows : List (Vector UInt8 16)
  finished : List Finished

namespace SessionView

/-- Start a hard session. -/
def openPrimary (v : SessionView) (phase : HelloWaitState) (rnd : Vector UInt8 16) : SessionView :=
  { v with
    authorized := false, phase, soft := false, serverToken := 0, rnd
    slider := Slider.new, deferred := [], windows := v.windows ++ [rnd] }

/-- Ask the server to go on with the session. -/
def openRebind (v : SessionView) (rnd : Vector UInt8 16) : SessionView :=
  { v with phase := .rebindHelloAgain, rnd, deferred := [], windows := v.windows ++ [rnd] }

/-- Leave the session for good. -/
def hardClose (v : SessionView) : SessionView :=
  { v with
    authorized := false, phase := .idle, soft := false, slider := Slider.new, deferred := [] }

/-- Adopt the keys of a new session. -/
def adopt (v : SessionView) (serverToken : UInt64) (key : MoonKey) : SessionView :=
  { v with
    serverToken, decodeCipher := some key, ciphers := v.ciphers + 1
    phase := .primaryImFriendSent }

def authorize (v : SessionView) : SessionView :=
  { v with authorized := true, phase := .idle, deferred := [] }

/-- The record of a command that is finished now. -/
def finish (v : SessionView) (cmd : UInt8) (payload : Bytes) (origin : Origin) : SessionView :=
  { v with finished := v.finished ++ [⟨cmd, payload, origin, v.authorized, v.decodeCipher⟩] }

def judge (v : SessionView) (num : UInt64) : SessionView :=
  { v with slider := (v.slider.judge num).2 }

end SessionView

/-- The moves of the machine. `auth` says in which views a Fine is at hand. -/
inductive Moves (env : Env) (auth : SessionView → Prop) : SessionView → SessionView → Prop
  | openPrimary {v} (phase rnd) (hphase : phase.allowsWhoAreYou = true) :
      Moves env auth v (v.openPrimary phase rnd)
  | openRebind {v} (rnd) (htoken : v.serverToken ≠ 0)
      (hown : v.soft = true ∨ v.authorized = true) : Moves env auth v (v.openRebind rnd)
  /-- An authorized session without a token cannot be rebound. -/
  | giveUp {v} :
      Moves env auth v { v with authorized := false, soft := false, phase := .idle }
  | timeout {v} :
      Moves env auth v { v with
        phase := .idle, soft := v.phase.allowsHelloAgainRetry && v.serverToken != 0 }
  | deadZone {v} : Moves env auth v { v with soft := false }
  | softClose {v} : Moves env auth v { v with authorized := false, phase := .idle }
  | hardClose {v} : Moves env auth v v.hardClose
  | disconnect {v} :
      Moves env auth v { v with authorized := false, phase := .idle, deferred := [] }
  | adopt {v} (token key) (hphase : v.phase.allowsWhoAreYou = true) :
      Moves env auth v (v.adopt token key)
  | authorize {v} (hphase : v.phase.allowsFine = true) (hauth : auth v) :
      Moves env auth v v.authorize
  | defer {v} (p : PreAuthCryptedCommand) (hnot : v.authorized = false)
      (hphase : v.phase.allowsFine = true) (hp : p.Genuine env)
      (hcipher : v.decodeCipher = some p.cipher) :
      Moves env auth v { v with deferred := v.deferred ++ [p] }
  | judge {v} (num) : Moves env auth v (v.judge num)
  | finishPlain {v} (cmd payload) (h : ¬ Sensitive cmd payload) :
      Moves env auth v (v.finish cmd payload .plain)
  | finishOpened {v} (o : Opened) (cmd payload) (hauth : v.authorized = true)
      (hcipher : v.decodeCipher = some o.cipher) (ho : o.Genuine env)
      (hslider : o.slider = v.slider)
      (hciphers : o.ciphers = v.ciphers) (hnew : (v.slider.judge o.hdr.msgNum).1 = true)
      (hcontent : unpackInner o.hdr.cmd (o.plaintext.drop 12) = some (cmd, payload)) :
      Moves env auth v ((v.judge o.hdr.msgNum).finish cmd payload (.opened o))
  | needHelloAgain {v} (hauth : v.authorized = true) :
      Moves env auth v { v with
        soft := true
        phase := if v.phase.allowsHelloAgainRetry then v.phase else .idle }

/-! ## The invariant -/

namespace SessionView

/-- Hard reset, and no new keys yet. -/
structure Barred (v : SessionView) : Prop where
  authorized : v.authorized = false
  soft : v.soft = false
  deferred : v.deferred = []
  phase : v.phase = .idle ∨ v.phase.allowsWhoAreYou = true

/-- The numbers that were finished under the current keys are in the slider. -/
def Remembers (v : SessionView) (as : List UInt64) : Prop :=
  ∀ o ∈ openedOf v.finished, o.ciphers = v.ciphers → o.hdr.msgNum ∈ as

structure Inv (env : Env) (v : SessionView) : Prop where
  primary : v.phase.allowsWhoAreYou = true → v.serverToken = 0 ∧ v.Barred
  rebind : v.phase = .rebindHelloAgain → v.serverToken ≠ 0
  waiting : v.phase.isWaiting = true → v.phase.allowsHelloAgainRetry = false →
    v.authorized = false
  drained : v.authorized = true → v.deferred = []
  window : v.phase ≠ .idle → v.windows.getLast? = some v.rnd
  deferred : ∀ p ∈ v.deferred, p.Genuine env ∧ v.decodeCipher = some p.cipher
  slider : ∃ as, v.slider.Represents as ∧ (v.Barred ∨ v.Remembers as)
  finished : ∀ f ∈ v.finished, f.Sound env
  known : ∀ o ∈ openedOf v.finished, o.ciphers ≤ v.ciphers
  once : ((openedOf v.finished).map Opened.id).Nodup

variable {env : Env} {v : SessionView}

theorem not_barred_of_authorized (h : v.authorized = true) : ¬ v.Barred := by
  intro hb
  rw [hb.authorized] at h
  exact Bool.false_ne_true h

theorem not_barred_of_allowsFine (h : v.phase.allowsFine = true) : ¬ v.Barred := by
  intro hb
  rcases hb.phase with hp | hp
  · rw [hp] at h
    exact absurd h (by decide)
  · rw [HelloWaitState.not_allowsFine_of_allowsWhoAreYou hp] at h
    exact Bool.false_ne_true h

theorem Inv.remembers (h : v.Inv env) (hb : ¬ v.Barred) :
    ∃ as, v.slider.Represents as ∧ v.Remembers as := by
  obtain ⟨as, hrep, hbar | hrem⟩ := h.slider
  · exact absurd hbar hb
  · exact ⟨as, hrep, hrem⟩

/-- Whatever ends the handshake without new keys keeps the invariant. -/
theorem Inv.toIdle (h : v.Inv env) {authorized soft : Bool}
    {deferred : List PreAuthCryptedCommand} (hauth : authorized = true → v.authorized = true)
    (hdef : deferred = [] ∨ deferred = v.deferred) (hsoft : v.Barred → soft = false) :
    Inv env { v with authorized, soft, deferred, phase := .idle } :=
  { h with
    primary := Bool.false_ne_true.elim
    rebind := nofun
    waiting := nofun
    drained := fun ha => by
      rcases hdef with hd | hd
      · exact hd
      · exact hd.trans (h.drained (hauth ha))
    window := fun hp => absurd rfl hp
    deferred := by
      intro p hp
      rcases hdef with rfl | rfl
      · cases hp
      · exact h.deferred p hp
    slider := by
      obtain ⟨as, hrep, hbar | hrem⟩ := h.slider
      · refine ⟨as, hrep, .inl ⟨?_, hsoft hbar, ?_, .inl rfl⟩⟩
        · rw [← Bool.not_eq_true]
          exact fun ha => not_barred_of_authorized (hauth ha) hbar
        · rcases hdef with hd | hd
          · exact hd
          · exact hd.trans hbar.deferred
      · exact ⟨as, hrep, .inr hrem⟩ }

theorem Inv.openPrimary (h : v.Inv env) {phase : HelloWaitState}
    (hphase : phase.allowsWhoAreYou = true) (rnd : Vector UInt8 16) :
    (v.openPrimary phase rnd).Inv env :=
  { h with
    primary := fun _ => ⟨rfl, rfl, rfl, rfl, .inr hphase⟩
    rebind := fun hp => by
      have hp' : phase = .rebindHelloAgain := hp
      rw [hp'] at hphase
      exact absurd hphase (by decide)
    waiting := fun _ _ => rfl
    drained := fun _ => rfl
    window := fun _ => List.getLast?_concat
    deferred := fun _ hp => absurd hp List.not_mem_nil
    slider := ⟨[], Slider.represents_new, .inl ⟨rfl, rfl, rfl, .inr hphase⟩⟩ }

theorem Inv.openRebind (h : v.Inv env) (htoken : v.serverToken ≠ 0)
    (hown : v.soft = true ∨ v.authorized = true) (rnd : Vector UInt8 16) :
    (v.openRebind rnd).Inv env :=
  { h with
    primary := Bool.false_ne_true.elim
    rebind := fun _ => htoken
    waiting := nofun
    drained := fun _ => rfl
    window := fun _ => List.getLast?_concat
    deferred := fun _ hp => absurd hp List.not_mem_nil
    slider := by
      -- a barred session is neither soft nor authorized, so it is not rebound
      have hbar : ¬ v.Barred := by
        intro hb
        rcases hown with hs | ha
        · rw [hb.soft] at hs
          exact Bool.false_ne_true hs
        · exact not_barred_of_authorized ha hb
      obtain ⟨as, hrep, hrem⟩ := h.remembers hbar
      exact ⟨as, hrep, .inr hrem⟩ }

theorem Inv.deadZone (h : v.Inv env) : Inv env { v with soft := false } :=
  { h with
    primary := fun hp =>
      have hb := (h.primary hp).2
      ⟨(h.primary hp).1, hb.authorized, rfl, hb.deferred, hb.phase⟩
    slider := by
      obtain ⟨as, hrep, hbar | hrem⟩ := h.slider
      · exact ⟨as, hrep, .inl ⟨hbar.authorized, rfl, hbar.deferred, hbar.phase⟩⟩
      · exact ⟨as, hrep, .inr hrem⟩ }

theorem Inv.hardClose (h : v.Inv env) : v.hardClose.Inv env :=
  { h with
    primary := Bool.false_ne_true.elim
    rebind := nofun
    waiting := fun _ _ => rfl
    drained := fun _ => rfl
    window := fun hp => absurd rfl hp
    deferred := fun _ hp => absurd hp List.not_mem_nil
    slider := ⟨[], Slider.represents_new, .inl ⟨rfl, rfl, rfl, .inl rfl⟩⟩ }

theorem Inv.adopt (h : v.Inv env) (hphase : v.phase.allowsWhoAreYou = true) (token : UInt64)
    (key : MoonKey) : (v.adopt token key).Inv env :=
  { h with
    primary := Bool.false_ne_true.elim
    rebind := nofun
    waiting := fun _ _ => (h.primary hphase).2.authorized
    drained := fun ha => absurd (h.primary hphase).2 (not_barred_of_authorized ha)
    window := fun _ => h.window fun hidle => by
      rw [hidle] at hphase
      exact absurd hphase (by decide)
    deferred := by
      intro p hp
      have hnil : v.deferred = [] := (h.primary hphase).2.deferred
      exact absurd (hnil ▸ hp) List.not_mem_nil
    slider := by
      -- nothing has been finished under the new keys
      obtain ⟨as, hrep, -⟩ := h.slider
      refine ⟨as, hrep, .inr fun o ho heq => ?_⟩
      have hle := h.known o ho
      have heq' : o.ciphers = v.ciphers + 1 := heq
      omega
    known := fun o ho => Nat.le_succ_of_le (h.known o ho) }

theorem Inv.authorize (h : v.Inv env) (hphase : v.phase.allowsFine = true) :
    v.authorize.Inv env :=
  { h with
    primary := Bool.false_ne_true.elim
    rebind := nofun
    waiting := nofun
    drained := fun _ => rfl
    window := fun hp => absurd rfl hp
    deferred := fun _ hp => absurd hp List.not_mem_nil
    slider := by
      obtain ⟨as, hrep, hrem⟩ := h.remembers (not_barred_of_allowsFine hphase)
      exact ⟨as, hrep, .inr hrem⟩ }

theorem Inv.defer (h : v.Inv env) {p : PreAuthCryptedCommand} (hnot : v.authorized = false)
    (hphase : v.phase.allowsFine = true) (hp : p.Genuine env)
    (hcipher : v.decodeCipher = some p.cipher) :
    Inv env { v with deferred := v.deferred ++ [p] } :=
  { h with
    primary := fun hprim => absurd (h.primary hprim).2 (not_barred_of_allowsFine hphase)
    drained := fun ha => absurd ha (by simp [hnot])
    deferred := by
      intro q hq
      rcases List.mem_append.mp hq with hq | hq
      · exact h.deferred q hq
      · rw [List.mem_singleton.mp hq]
        exact ⟨hp, hcipher⟩
    slider := by
      obtain ⟨as, hrep, hrem⟩ := h.remembers (not_barred_of_allowsFine hphase)
      exact ⟨as, hrep, .inr hrem⟩ }

theorem Inv.needHelloAgain (h : v.Inv env) (hauth : v.authorized = true) : Inv env { v with
      soft := true
      phase := if v.phase.allowsHelloAgainRetry then v.phase else .idle } := by
  obtain ⟨as, hrep, hrem⟩ := h.remembers (not_barred_of_authorized hauth)
  by_cases hre : v.phase = .rebindHelloAgain
  · have hphase : (if v.phase.allowsHelloAgainRetry then v.phase else .idle) = v.phase := by
      rw [hre]
      rfl
    rw [hphase]
    exact { h with
      primary := fun hp => absurd (h.primary hp).2 (not_barred_of_authorized hauth)
      slider := ⟨as, hrep, .inr hrem⟩ }
  · have hphase : (if v.phase.allowsHelloAgainRetry then v.phase else .idle)
        = HelloWaitState.idle := if_neg (by simpa [HelloWaitState.allowsHelloAgainRetry] using hre)
    rw [hphase]
    exact h.toIdle id (.inr rfl) fun hb => absurd hb (not_barred_of_authorized hauth)

theorem barred_judge (hb : v.Barred) (num : UInt64) : (v.judge num).Barred :=
  ⟨hb.authorized, hb.soft, hb.deferred, hb.phase⟩

theorem barred_finish (hb : v.Barred) (cmd : UInt8) (payload : Bytes) (origin : Origin) :
    (v.finish cmd payload origin).Barred :=
  ⟨hb.authorized, hb.soft, hb.deferred, hb.phase⟩

theorem Inv.judge (h : v.Inv env) (num : UInt64) : (v.judge num).Inv env :=
  { h with
    primary := fun hp => ⟨(h.primary hp).1, barred_judge (h.primary hp).2 num⟩
    slider := by
      obtain ⟨as, hrep, hor⟩ := h.slider
      refine ⟨_, (Slider.judge_spec hrep num).2, hor.imp (barred_judge · num) fun hrem o ho heq =>
        ?_⟩
      have hmem := hrem o ho heq
      split
      · exact List.mem_cons_of_mem _ hmem
      · exact hmem }

theorem openedOf_append (fs gs : List Finished) :
    openedOf (fs ++ gs) = openedOf fs ++ openedOf gs := List.filterMap_append

theorem Inv.finishPlain (h : v.Inv env) {cmd : UInt8} {payload : Bytes}
    (hplain : ¬ Sensitive cmd payload) : (v.finish cmd payload .plain).Inv env := by
  have hopened : openedOf (v.finish cmd payload .plain).finished = openedOf v.finished := by
    rw [SessionView.finish, openedOf_append]
    exact List.append_nil _
  exact { h with
    primary := fun hp => ⟨(h.primary hp).1, barred_finish (h.primary hp).2 _ _ _⟩
    slider := by
      obtain ⟨as, hrep, hor⟩ := h.slider
      refine ⟨as, hrep, hor.imp (barred_finish · _ _ _) fun hrem o ho heq => ?_⟩
      rw [hopened] at ho
      exact hrem o ho heq
    finished := by
      intro f hf
      rcases List.mem_append.mp hf with hf | hf
      · exact h.finished f hf
      · rw [List.mem_singleton.mp hf]
        exact hplain
    known := by
      rw [hopened]
      exact h.known
    once := by
      rw [hopened]
      exact h.once }

/-- **At most once.** A number that the slider newly accepts was not finished
before under the same keys. -/
theorem Inv.finishOpened (h : v.Inv env) {o : Opened} {cmd : UInt8} {payload : Bytes}
    (hauth : v.authorized = true) (hcipher : v.decodeCipher = some o.cipher)
    (ho : o.Genuine env) (hslider : o.slider = v.slider) (hciphers : o.ciphers = v.ciphers)
    (hnew : (v.slider.judge o.hdr.msgNum).1 = true)
    (hcontent : unpackInner o.hdr.cmd (o.plaintext.drop 12) = some (cmd, payload)) :
    ((v.judge o.hdr.msgNum).finish cmd payload (.opened o)).Inv env := by
  have hbar := not_barred_of_authorized hauth
  obtain ⟨as, hrep, hrem⟩ := h.remembers hbar
  obtain ⟨hok, hrep'⟩ := Slider.judge_spec hrep o.hdr.msgNum
  rw [hnew, if_pos rfl] at hrep'
  have hopened : openedOf ((v.judge o.hdr.msgNum).finish cmd payload (.opened o)).finished
      = openedOf v.finished ++ [o] := openedOf_append _ _
  exact { h with
    primary := fun hp => absurd (h.primary hp).2 hbar
    slider := by
      refine ⟨_, hrep', .inr fun o' ho' heq => ?_⟩
      rw [hopened] at ho'
      rcases List.mem_append.mp ho' with ho' | ho'
      · exact List.mem_cons_of_mem _ (hrem o' ho' heq)
      · rw [List.mem_singleton.mp ho']
        exact List.mem_cons_self
    finished := by
      intro f hf
      rcases List.mem_append.mp hf with hf | hf
      · exact h.finished f hf
      · rw [List.mem_singleton.mp hf]
        exact ⟨ho, hslider ▸ hnew, hcontent, hcipher, hauth⟩
    known := by
      rw [hopened]
      intro o' ho'
      rcases List.mem_append.mp ho' with ho' | ho'
      · exact h.known o' ho'
      · rw [List.mem_singleton.mp ho']
        exact Nat.le_of_eq hciphers
    once := by
      rw [hopened, List.map_append]
      refine List.nodup_append.mpr ⟨h.once, List.nodup_singleton _, ?_⟩
      intro a ha b hb heq
      obtain ⟨o', ho', rfl⟩ := List.mem_map.mp ha
      have hid : o'.id = o.id := heq.trans (List.mem_singleton.mp hb)
      have hsame : o'.ciphers = v.ciphers := (congrArg Prod.fst hid).trans hciphers
      have hnum : o'.hdr.msgNum = o.hdr.msgNum := congrArg Prod.snd hid
      exact (hok.mp hnew).1 (hnum ▸ hrem o' ho' hsame) }

variable {auth : SessionView → Prop} {v' : SessionView}

/-- **Every move keeps the invariant.** -/
theorem Inv.of_moves (h : v.Inv env) (hm : Moves env auth v v') : v'.Inv env := by
  cases hm with
  | openPrimary phase rnd hphase => exact h.openPrimary hphase rnd
  | openRebind rnd htoken hown => exact h.openRebind htoken hown rnd
  | giveUp => exact h.toIdle nofun (.inr rfl) fun _ => rfl
  | timeout =>
    refine h.toIdle id (.inr rfl) fun hb => ?_
    rcases hb.phase with hp | hp
    · rw [hp]
      rfl
    · rw [HelloWaitState.not_allowsHelloAgainRetry_of_allowsWhoAreYou hp]
      rfl
  | deadZone => exact h.deadZone
  | softClose => exact h.toIdle nofun (.inr rfl) fun hb => hb.soft
  | hardClose => exact h.hardClose
  | disconnect => exact h.toIdle nofun (.inl rfl) fun hb => hb.soft
  | adopt token key hphase => exact h.adopt hphase token key
  | authorize hphase hauth => exact h.authorize hphase
  | defer p hnot hphase hp hcipher => exact h.defer hnot hphase hp hcipher
  | judge num => exact h.judge num
  | finishPlain cmd payload hplain => exact h.finishPlain hplain
  | finishOpened o cmd payload hauth hcipher ho hslider hciphers hnew hcontent =>
    exact h.finishOpened hauth hcipher ho hslider hciphers hnew hcontent
  | needHelloAgain hauth => exact h.needHelloAgain hauth

/-- Any number of moves. -/
abbrev Path (env : Env) (auth : SessionView → Prop) : SessionView → SessionView → Prop :=
  Relation.ReflTransGen (Moves env auth)

theorem Inv.of_path (h : v.Inv env) (hp : Path env auth v v') : v'.Inv env := by
  induction hp with
  | refl => exact h
  | tail _ hm ih => exact ih.of_moves hm

/-- **Only a Fine authorizes.** -/
theorem auth_of_path (hp : Path env auth v v')
    (hnot : v.authorized = false) (hauth : v'.authorized = true) :
    ∃ w, w.phase.allowsFine = true ∧ auth w := by
  induction hp with
  | refl => exact absurd hauth (by simp [hnot])
  | @tail w w' _ hm ih =>
    -- either the session was authorized before the last move, or that move did it
    cases hm with
    | authorize hphase h => exact ⟨w, hphase, h⟩
    | openPrimary | giveUp | softClose | hardClose | disconnect => exact nomatch hauth
    | openRebind | timeout | deadZone | adopt | defer | judge | finishPlain | finishOpened
    | needHelloAgain => exact ih hauth

end SessionView

end MoonProto
