import MoonProto.Client.Receive

/-!
# The client as a transition system

`run_step` (`src/client/protocol_core.rs`, `protocol_tick.rs`, `lifecycle.rs`,
`runtime.rs`) is one turn of the single thread that owns the client: fire
lifecycle events and bind a socket, receive at most one datagram, run the send
phase, run the reconnect timers. Other threads enqueue commands and ask for a
shutdown at any time.

The events below are these parts. They may come in any order, so that a run of
the system covers every interleaving; `runStep_eq_run` says that a turn of the
source is one such run.
-/

namespace MoonProto

/-- What the send phase and the timers take from outside: the clock of the turn,
the clock that an announced close reads, and the pacing of slice retries. -/
structure Maintenance where
  curTm : Int
  closeTm : Int
  pacing : Pacing

inductive Event
  | enqueue (item : SendItem)
  | requestShutdown
  | disconnect
  /-- The start of a turn; `bound` says whether a socket could be bound. -/
  | wake (bound : Bool)
  | receive (d : Datagram)
  | maintain (m : Maintenance)

namespace Client

/-- `push_send_cmd_int`, which every sending call of the API ends in. -/
def enqueue (c : Client) (item : SendItem) : Client :=
  { c with sendLock := c.sendLock.pushSendCmdInt item }

def requestShutdown (c : Client) : Client :=
  { c with session := { c.session with runtimeShutdown := true } }

def disconnect (c : Client) : Client :=
  { c with
    session := { c.session with
      runtimeShutdown := true
      needConnect := false
      forceDisconnect := true
      authorized := false
      authStatus := .base
      nextPrimaryHelloNewSession := false
      helloWaitState := .idle }
    inb := { c.inb with preAuthCrypted := [] } }

/-- The event of a change of the status, if it has one. -/
def transitionEvent (c : Client) : Option LifecycleEvent :=
  match c.session.prevAuthStatus, c.session.authStatus with
  | .base, .connected => some .connecting
  | .offline, .connected => some .connecting
  | _, .authDone => some (.connected (!c.session.wasEverConnected))
  | .authDone, .offline => some .reconnecting
  | _, .base => if !c.session.needConnect then some .disconnected else none
  | _, _ => none

/-- `check_lifecycle_transition`. -/
def checkLifecycleTransition (c : Client) : Client :=
  if c.session.authStatus = c.session.prevAuthStatus then c
  else
    let event := c.transitionEvent
    let c := { c with session := { c.session with
      wasEverConnected := c.session.authStatus == .authDone || c.session.wasEverConnected
      prevAuthStatus := c.session.authStatus } }
    match event with
    | none => c
    | some ev => c.record (.lifecycle ev)

/-- `ensure_socket_bound`. -/
def ensureSocketBound (c : Client) (bound : Bool) : Client :=
  if c.socket.isNone && c.session.needConnect then c.bindSocket bound else c

/-- The start of a turn: `writer_tick_prologue` and `ensure_socket_bound`. -/
def wake (c : Client) (bound : Bool) : Client :=
  c.checkLifecycleTransition.ensureSocketBound bound

/-- `recv_one_phase` with a datagram at hand. -/
def receive (env : Env) (c : Client) (d : Datagram) : Client :=
  if c.session.runtimeShutdown || c.socket.isNone then c else c.processDatagram env d

/-- `send_maintenance_phase`: the send phase, then the timers. The domain's own
periodic ticks between them only enqueue commands. -/
def maintain (env : Env) (c : Client) (m : Maintenance) : Client :=
  if c.socket.isNone then c
  else (c.copySendAckAndCheckSeningData env m.curTm m.pacing).transportReconnectTailTick env
    m.curTm m.closeTm

def step (env : Env) (c : Client) : Event → Client
  | .enqueue item => c.enqueue item
  | .requestShutdown => c.requestShutdown
  | .disconnect => c.disconnect
  | .wake bound => c.wake bound
  | .receive d => c.receive env d
  | .maintain m => c.maintain env m

/-- The step as `Run` takes it; no step panics. -/
def next (env : Env) (c : Client) (e : Event) : Option Client := some (c.step env e)

theorem run_eq_foldl (env : Env) : ∀ (events : List Event) (c : Client),
    Run.run (next env) c events = some (events.foldl (step env) c)
  | [], _ => rfl
  | e :: events, c => run_eq_foldl env events (c.step env e)

/-- `run_step`: one turn with at most one datagram, and with the commands that
were enqueued while it was handled. -/
def runStep (env : Env) (c : Client) (bound : Bool) (d : Option Datagram)
    (queued : List SendItem) (m : Maintenance) : Client :=
  if c.session.runtimeShutdown then c.disconnect
  else
    let c := c.wake bound
    if c.socket.isNone then queued.foldl enqueue c
    else
      let c := match d with
        | none => c
        | some d => c.processDatagram env d
      (queued.foldl enqueue c).maintain env m

theorem run_enqueue (env : Env) (rest : List Event) : ∀ (items : List SendItem) (c : Client),
    Run.run (next env) c (items.map .enqueue ++ rest)
      = Run.run (next env) (items.foldl enqueue c) rest
  | [], _ => rfl
  | item :: items, c => run_enqueue env rest items (c.enqueue item)

theorem runtimeShutdown_wake (c : Client) (bound : Bool) :
    (c.wake bound).session.runtimeShutdown = c.session.runtimeShutdown := by
  have htransition : c.checkLifecycleTransition.session.runtimeShutdown
      = c.session.runtimeShutdown := by
    unfold checkLifecycleTransition
    split
    · rfl
    · simp only
      split <;> rfl
  unfold wake ensureSocketBound bindSocket
  rw [← htransition]
  split
  · simp only
    split <;> rfl
  · rfl

/-- **A turn of the source is a run of the system.** -/
theorem runStep_eq_run (env : Env) (c : Client) (bound : Bool) (d : Option Datagram)
    (queued : List SendItem) (m : Maintenance) :
    ∃ events, Run.run (next env) c events = some (c.runStep env bound d queued m) := by
  unfold runStep
  by_cases hshut : c.session.runtimeShutdown = true
  · rw [if_pos hshut]
    exact ⟨[.disconnect], rfl⟩
  · rw [if_neg hshut]
    have hup : (c.wake bound).session.runtimeShutdown = false := by
      rw [runtimeShutdown_wake]
      simpa using hshut
    by_cases hsocket : (c.wake bound).socket.isNone = true
    · simp only [hsocket, if_true]
      refine ⟨.wake bound :: (queued.map .enqueue ++ []), ?_⟩
      exact run_enqueue env [] queued (c.wake bound)
    · simp only [hsocket, if_false, Bool.false_eq_true]
      cases d with
      | none =>
        refine ⟨.wake bound :: (queued.map .enqueue ++ [.maintain m]), ?_⟩
        exact run_enqueue env [.maintain m] queued (c.wake bound)
      | some d =>
        refine ⟨.wake bound :: .receive d :: (queued.map .enqueue ++ [.maintain m]), ?_⟩
        have hrecv : (c.wake bound).receive env d = (c.wake bound).processDatagram env d := by
          unfold receive
          rw [hup]
          simp [hsocket]
        show Run.run (next env) ((c.wake bound).receive env d) _ = _
        rw [hrecv]
        exact run_enqueue env [.maintain m] queued _

end Client

end MoonProto
