import MoonProto.Client.SendSpec

/-!
# The ledger of the send path

The client does not say which enqueued item a transmission belongs to: a pending
copy is compressed and numbered, a sliced datagram is only blocks. The ledger is
a second state that runs along with the client and says it. Every enqueued item
gets a stamp, its place in the order of arrival, and the ledger keeps the stamps
of what is queued, pending and in flight, and a log of what was sent for whom.

The ledger decides nothing: `Tracks.run` says that the client of a stamped run is
the client of the plain run, that the stamped lists are the client's own lists,
and that the log has exactly the messages the client handed over.
-/

namespace MoonProto

open Codec LatestWins List

/-! ## The ledger -/

inductive Entry
  /-- A message that `send_h_item` handed over for an item, with its number. -/
  | high (mark : Mark UniqueKey) (num : Option UInt64) (msg : UInt8 × Bytes)
  /-- Any other message that was handed over. -/
  | direct (msg : UInt8 × Bytes)
  | slice (mark : Mark UniqueKey) (bytes : Bytes)
  /-- A bitmap that `apply_regular_hl_ack` applied. -/
  | acked (slider : Slider)

def Entry.handed : Entry → Option (UInt8 × Bytes)
  | .high _ _ msg => some msg
  | .direct msg => some msg
  | _ => none

def Entry.sliceBytes : Entry → Option Bytes
  | .slice _ bytes => some bytes
  | _ => none

/-- The items that arrived, in order, and the stamps of what the client holds. -/
structure Ledger where
  born : List SendItem
  sliced : List (Nat × SendItem)
  high : List (Nat × SendItem)
  pendingH : List (Nat × SendItem)
  sending : List (SentSliced (Option Nat × Mark UniqueKey))
  log : List Entry

structure Stamped where
  client : Client
  ledger : Ledger

def markOf (x : Nat × SendItem) : Mark UniqueKey := ⟨x.2.dedupKey, x.1⟩

namespace Stamped

def start (c : Client) : Stamped := ⟨c, ⟨[], [], [], [], [], []⟩⟩

/-- The client moves on; what it handed over is written down. -/
def note (t : Stamped) (c : Client) (entry : UInt8 × Bytes → Entry) : Stamped where
  client := c
  ledger := { t.ledger with
    log := t.ledger.log ++ (c.handovers.drop t.client.handovers.length).map entry }

/-- An item behind the queued ones, in place of the older one with its key. -/
def pushStamped (stamp : Nat) (item : SendItem) (queued : List (Nat × SendItem)) :
    List (Nat × SendItem) :=
  dropKey (SendItem.dedupKey ∘ Prod.snd) item.dedupKey queued ++ [(stamp, item)]

def enqueue (t : Stamped) (item : SendItem) : Stamped where
  client := t.client.enqueue item
  ledger := { t.ledger with
    born := t.ledger.born ++ [item]
    sliced := if item.priority = .sliced then
        pushStamped t.ledger.born.length item t.ledger.sliced else t.ledger.sliced
    high := if item.priority = .high then
        pushStamped t.ledger.born.length item t.ledger.high else t.ledger.high }

/-! ### The send phase -/

def applySlicedSendUKeyCleanup (t : Stamped) (sliced : List (Nat × SendItem)) : Stamped where
  client := t.client.applySlicedSendUKeyCleanup (sliced.map Prod.snd)
  ledger := { t.ledger with
    sending := dropKeys SentSliced.dedupKey (sliced.map (SendItem.dedupKey ∘ Prod.snd))
      t.ledger.sending }

def createSlicedAndSend (env : Env) (t : Stamped) (x : Nat × SendItem) : Stamped where
  client := t.client.createSlicedAndSend env x.2
  ledger := { t.ledger with
    sending := match t.client.slicedMessage env x.2 with
      | none => t.ledger.sending
      | some (msg, sealedBy) =>
        (t.client.newSliced x.2 msg (sealedBy, markOf x)).insertByBlocks t.ledger.sending }

def applyCopyAcks (t : Stamped) (copyAcks : List SlicedAck) (curTm : Int) : Stamped where
  client := t.client.applyCopyAcks copyAcks curTm
  ledger := { t.ledger with
    sending := copyAcks.foldl (fun sending ack => SentSliced.applySlicedAck ack curTm sending)
      t.ledger.sending }

def applyRegularHlAck (t : Stamped) : Stamped where
  client := t.client.applyRegularHlAck
  ledger :=
    let slider := t.client.inb.recvdSlider
    if !slider.hasNewData then t.ledger
    else { t.ledger with
      pendingH := t.ledger.pendingH.filter fun x => slider.ackConfirmsMsg x.2.msgNum != some true
      log := t.ledger.log ++ [.acked slider] }

def applyHighSendUKeyCleanup (t : Stamped) (high : List (Nat × SendItem)) : Stamped where
  client := t.client.applyHighSendUKeyCleanup (high.map Prod.snd)
  ledger := { t.ledger with
    pendingH := dropKeys (SendItem.dedupKey ∘ Prod.snd) (high.map (SendItem.dedupKey ∘ Prod.snd))
      t.ledger.pendingH }

/-- What the call hands over and keeps belongs to the item. -/
def sendHItem (env : Env) (t : Stamped) (x : Nat × SendItem) (curTm : Int) : Stamped :=
  let c := t.client.sendHItem env x.2 curTm
  let num := if x.2.encrypted then some (t.client.msgNumFor x.2).1 else none
  let t' := t.note c (.high (markOf x) num)
  { t' with ledger := { t'.ledger with
    pendingH := t.ledger.pendingH
      ++ (c.out.pendingH.drop t.client.out.pendingH.length).map (x.1, ·) } }

def sendHItems (env : Env) (t : Stamped) (xs : List (Nat × SendItem)) (curTm : Int) : Stamped :=
  xs.foldl (fun t x => t.sendHItem env x curTm) t

/-- Apply a function that may drop the item under its stamp. -/
def stamped (f : SendItem → Option SendItem) (x : Nat × SendItem) : Option (Nat × SendItem) :=
  (f x.2).map (x.1, ·)

/-- `retry_pending_h` before it sends: what is kept. -/
def keepPendingH (t : Stamped) (curTm pathDelay : Int) : Stamped where
  client := { t.client with out := { t.client.out with
    pendingH := t.client.out.pendingH.filterMap (Client.keptOf curTm pathDelay) } }
  ledger := { t.ledger with
    pendingH := t.ledger.pendingH.filterMap (stamped (Client.keptOf curTm pathDelay)) }

def retryPendingH (env : Env) (t : Stamped) (curTm : Int) : Stamped :=
  let pathDelay := pendingHPathDelay t.client.session.roundTripDelay
  let toResend := t.ledger.pendingH.filterMap (stamped (Client.resendOf curTm pathDelay))
  (t.keepPendingH curTm pathDelay).sendHItems env toResend curTm

def batchSendDirect (env : Env) (t : Stamped) (item : SendItem) : Stamped :=
  t.note (t.client.batchSendDirect env item) .direct

def flushSendBatch (env : Env) (t : Stamped) : Stamped :=
  t.note (t.client.flushSendBatch env) .direct

def retrySliced (env : Env) (t : Stamped) (curTm : Int) (pacing : Pacing) : Stamped where
  client := t.client.retrySliced env curTm pacing
  ledger :=
    if t.client.slicedRetryDue curTm then
      let pass := SentSliced.retryPass curTm pacing.pathDelay pacing.clientLimit
        t.ledger.sending 0 curTm
      { t.ledger with
        sending := pass.kept
        log := t.ledger.log ++ pass.toSend.map fun slice => .slice slice.2.2 slice.1 }
    else t.ledger

def sendLowItemsAroundSlicedRetry (env : Env) (t : Stamped) (lItems : List SendItem) (curTm : Int)
    (pacing : Pacing) : Stamped :=
  let t := (lItems.take 1).foldl (fun t item => t.batchSendDirect env item) t
  let t := (t.flushSendBatch env).retrySliced env curTm pacing
  let t := (lItems.drop 1).foldl (fun t item => t.batchSendDirect env item) t
  t.flushSendBatch env

def checkSeningData (env : Env) (t : Stamped) (sliced high : List (Nat × SendItem))
    (low : List SendItem) (acks : List SlicedAck) (curTm : Int) (pacing : Pacing) : Stamped :=
  let t := t.applySlicedSendUKeyCleanup sliced
  let t := sliced.foldl (fun t x => t.createSlicedAndSend env x) t
  let t := (t.applyCopyAcks acks curTm).applyRegularHlAck
  let t := (t.applyHighSendUKeyCleanup high).sendHItems env high curTm
  let t := t.retryPendingH env curTm
  t.sendLowItemsAroundSlicedRetry env low curTm pacing

/-- The snapshot under the send lock empties the stamped queues too. -/
def takeSnapshot (t : Stamped) : Stamped where
  client :=
    let ((_, _, tmpSlider), sendLock) := t.client.sendLock.takeSendSnapshot
    { t.client with
      sendLock := sendLock
      inb := { t.client.inb with recvdSlider := tmpSlider.getD t.client.inb.recvdSlider } }
  ledger := { t.ledger with sliced := [], high := [] }

def copySendAckAndCheckSeningData (env : Env) (t : Stamped) (curTm : Int) (pacing : Pacing) :
    Stamped :=
  t.takeSnapshot.checkSeningData env t.ledger.sliced t.ledger.high
    t.client.sendLock.sendQueues.low t.client.sendLock.incomingSlicedAcks curTm pacing

/-! ### Steps -/

/-- The timers may give up what is pending and in flight. -/
def transportReconnectTailTick (env : Env) (t : Stamped) (curTm closeTm : Int) : Stamped :=
  let c := t.client.transportReconnectTailTick env curTm closeTm
  let t' := t.note c .direct
  if c.out.pendingH = t.client.out.pendingH ∧ c.out.sending = t.client.out.sending then t'
  else { t' with ledger := { t'.ledger with pendingH := [], sending := [] } }

def maintain (env : Env) (t : Stamped) (m : Maintenance) : Stamped :=
  if t.client.socket.isNone then t
  else (t.copySendAckAndCheckSeningData env m.curTm m.pacing).transportReconnectTailTick env
    m.curTm m.closeTm

def step (env : Env) (t : Stamped) : Event → Stamped
  | .enqueue item => t.enqueue item
  | .maintain m => t.maintain env m
  | e => t.note (t.client.step env e) .direct

def run (env : Env) (t : Stamped) (events : List Event) : Stamped := events.foldl (step env) t

/-! ### The ledger follows the client -/

/-- `t` is the client `c` with its own lists under stamps, and the log has every
message it handed over and every slice it sent. -/
structure Tracks (t : Stamped) (c : Client) : Prop where
  client : t.client = c
  sliced : t.ledger.sliced.map Prod.snd = c.sendLock.sendQueues.sliced
  high : t.ledger.high.map Prod.snd = c.sendLock.sendQueues.high
  pendingH : t.ledger.pendingH.map Prod.snd = c.out.pendingH
  sending : t.ledger.sending.map (SentSliced.mapTag Prod.fst) = c.out.sending
  handed : t.ledger.log.filterMap Entry.handed = c.handovers
  slices : t.ledger.log.filterMap Entry.sliceBytes = c.out.slices

namespace Tracks

variable {t : Stamped} {c c' : Client}

theorem start (c : Client) (hqueues : c.sendLock.sendQueues = SendQueues.empty)
    (hpending : c.out.pendingH = []) (hsending : c.out.sending = []) (hhand : c.handovers = [])
    (hslices : c.out.slices = []) : Tracks (Stamped.start c) c := by
  refine ⟨rfl, ?_, ?_, hpending.symm, hsending.symm, hhand.symm, hslices.symm⟩
  · rw [hqueues]
    rfl
  · rw [hqueues]
    rfl

theorem handed_note (h : Tracks t c) {msgs : List (UInt8 × Bytes)}
    (hmsgs : c'.handovers = c.handovers ++ msgs) (entry : UInt8 × Bytes → Entry)
    (hentry : ∀ msg, (entry msg).handed = some msg ∧ (entry msg).sliceBytes = none)
    (hslices : c'.out.slices = c.out.slices) :
    (t.note c' entry).ledger.log.filterMap Entry.handed = c'.handovers ∧
      (t.note c' entry).ledger.log.filterMap Entry.sliceBytes = c'.out.slices := by
  have hlog : (t.note c' entry).ledger.log = t.ledger.log ++ msgs.map entry := by
    unfold Stamped.note
    simp only
    rw [h.client, hmsgs, drop_left]
  rw [hlog, filterMap_append, filterMap_append, h.handed, h.slices, hmsgs, hslices, filterMap_map,
    filterMap_map, show Entry.handed ∘ entry = some from funext fun msg => (hentry msg).1,
    show Entry.sliceBytes ∘ entry = fun _ => none from funext fun msg => (hentry msg).2]
  simp

theorem note (h : Tracks t c) (hqueues : c'.sendLock.sendQueues = c.sendLock.sendQueues)
    (hpending : c'.out.pendingH = c.out.pendingH) (hsending : c'.out.sending = c.out.sending)
    (hslices : c'.out.slices = c.out.slices) {msgs : List (UInt8 × Bytes)}
    (hmsgs : c'.handovers = c.handovers ++ msgs) :
    Tracks (t.note c' .direct) c' where
  client := rfl
  sliced := by rw [hqueues]; exact h.sliced
  high := by rw [hqueues]; exact h.high
  pendingH := by rw [hpending]; exact h.pendingH
  sending := by rw [hsending]; exact h.sending
  handed := (h.handed_note hmsgs .direct (fun _ => ⟨rfl, rfl⟩) hslices).1
  slices := (h.handed_note hmsgs .direct (fun _ => ⟨rfl, rfl⟩) hslices).2

theorem calm (h : Tracks t c) (hc : Client.Calm c c') : Tracks (t.note c' .direct) c' := by
  have hout : c'.out.pendingH = c.out.pendingH ∧ c'.out.sending = c.out.sending := by
    rcases hc.out with heq | heq
    · exact heq ▸ ⟨rfl, rfl⟩
    · exact heq ▸ ⟨rfl, rfl⟩
  exact h.note hc.queues hout.1 hout.2 hc.tails.slices (hc.handovers.trans (append_nil _).symm)

theorem map_pushStamped {queued : List (Nat × SendItem)} {items : List SendItem}
    (h : queued.map Prod.snd = items) (stamp : Nat) (item : SendItem) :
    (pushStamped stamp item queued).map Prod.snd
      = SendQueues.dropOlder item.uKey items ++ [item] := by
  unfold pushStamped
  rw [map_append, map_dropKey, h, dropOlder_eq]
  rfl

theorem enqueue (h : Tracks t c) (item : SendItem) : Tracks (t.enqueue item) (c.enqueue item) := by
  obtain ⟨rfl, hsliced, hhigh, hpending, hsending, hhanded, hslices⟩ := h
  refine ⟨rfl, ?_, ?_, hpending, hsending, hhanded, hslices⟩
  · unfold Stamped.enqueue Client.enqueue SendLockState.pushSendCmdInt SendQueues.pushSendCmdInt
    cases hprio : item.priority with
    | sliced => exact map_pushStamped hsliced _ item
    | high => exact hsliced
    | low => exact hsliced
  · unfold Stamped.enqueue Client.enqueue SendLockState.pushSendCmdInt SendQueues.pushSendCmdInt
    cases hprio : item.priority with
    | sliced => exact hhigh
    | high => exact map_pushStamped hhigh _ item
    | low => exact hhigh

theorem applySlicedSendUKeyCleanup (h : Tracks t c) (sliced : List (Nat × SendItem)) :
    Tracks (t.applySlicedSendUKeyCleanup sliced)
      (c.applySlicedSendUKeyCleanup (sliced.map Prod.snd)) := by
  obtain ⟨rfl, hsliced, hhigh, hpending, hsending, hhanded, hslices⟩ := h
  refine ⟨rfl, hsliced, hhigh, hpending, ?_, hhanded, hslices⟩
  unfold Stamped.applySlicedSendUKeyCleanup Client.applySlicedSendUKeyCleanup
  simp only
  rw [foldl_dropSending, ← hsending, List.map_map]
  exact @map_dropKeys _ _ _ _ SentSliced.dedupKey (SentSliced.mapTag Prod.fst) _ t.ledger.sending

theorem createSlicedAndSend (h : Tracks t c) (env : Env) (x : Nat × SendItem) :
    Tracks (t.createSlicedAndSend env x) (c.createSlicedAndSend env x.2) := by
  obtain ⟨rfl, hsliced, hhigh, hpending, hsending, hhanded, hslices⟩ := h
  obtain ⟨hhand, hpend, -, hsend, hsame⟩ := Client.createSlicedAndSend_spec env t.client x.2
  have hlock := (Client.createSlicedAndSend_sends env t.client x.2).sendLock
  refine ⟨rfl, ?_, ?_, ?_, ?_, ?_, ?_⟩
  · rw [hlock]
    exact hsliced
  · rw [hlock]
    exact hhigh
  · rw [hpend]
    exact hpending
  · rw [hsend]
    unfold Stamped.createSlicedAndSend
    simp only
    cases t.client.slicedMessage env x.2 with
    | none => exact hsending
    | some m =>
      simp only
      rw [SentSliced.map_insertByBlocks, hsending]
      rfl
  · rw [hhand]
    exact hhanded
  · rw [hsame]
    exact hslices

theorem applyCopyAcks (h : Tracks t c) (copyAcks : List SlicedAck) (curTm : Int) :
    Tracks (t.applyCopyAcks copyAcks curTm) (c.applyCopyAcks copyAcks curTm) := by
  obtain ⟨rfl, hsliced, hhigh, hpending, hsending, hhanded, hslices⟩ := h
  refine ⟨rfl, hsliced, hhigh, hpending, ?_, hhanded, hslices⟩
  have hacks : ∀ (acks : List SlicedAck) {tagged : List (SentSliced (Option Nat × Mark UniqueKey))}
      {sending : List (SentSliced (Option Nat))},
      tagged.map (SentSliced.mapTag Prod.fst) = sending →
      (acks.foldl (fun s ack => SentSliced.applySlicedAck ack curTm s) tagged).map
          (SentSliced.mapTag Prod.fst)
        = acks.foldl (fun s ack => SentSliced.applySlicedAck ack curTm s) sending := by
    intro acks
    induction acks with
    | nil => exact fun heq => heq
    | cons ack acks ih =>
      intro tagged sending heq
      refine ih ?_
      rw [SentSliced.map_applySlicedAck, heq]
  exact hacks copyAcks hsending

theorem applyRegularHlAck (h : Tracks t c) : Tracks t.applyRegularHlAck c.applyRegularHlAck := by
  obtain ⟨rfl, hsliced, hhigh, hpending, hsending, hhanded, hslices⟩ := h
  unfold Stamped.applyRegularHlAck Client.applyRegularHlAck
  simp only
  split
  · exact ⟨rfl, hsliced, hhigh, hpending, hsending, hhanded, hslices⟩
  refine ⟨rfl, hsliced, hhigh, ?_, hsending, ?_, ?_⟩
  · simp only
    rw [← hpending, List.filter_map]
    rfl
  · simp only
    rw [filterMap_append, hhanded]
    exact append_nil _
  · simp only
    rw [filterMap_append, hslices]
    exact append_nil _

theorem applyHighSendUKeyCleanup (h : Tracks t c) (high : List (Nat × SendItem)) :
    Tracks (t.applyHighSendUKeyCleanup high) (c.applyHighSendUKeyCleanup (high.map Prod.snd)) := by
  obtain ⟨rfl, hsliced, hhigh, hpending, hsending, hhanded, hslices⟩ := h
  refine ⟨rfl, hsliced, hhigh, ?_, hsending, hhanded, hslices⟩
  unfold Stamped.applyHighSendUKeyCleanup Client.applyHighSendUKeyCleanup
  simp only
  rw [foldl_dropOlder, ← hpending, List.map_map, map_dropKeys]

theorem sendHItem (h : Tracks t c) (env : Env) (x : Nat × SendItem) (curTm : Int) :
    Tracks (t.sendHItem env x curTm) (c.sendHItem env x.2 curTm) := by
  obtain ⟨msgs, kept, -, hmsgs, hheld⟩ := Client.sendHItem_spec env c x.2 curTm
  have hlock := (Client.sendHItem_sends env c x.2 curTm).sendLock
  have hpend : (c.sendHItem env x.2 curTm).out.pendingH = c.out.pendingH ++ kept :=
    congrArg Prod.fst hheld
  have hsend : (c.sendHItem env x.2 curTm).out.sending = c.out.sending :=
    congrArg (fun held => held.2.1) hheld
  have hnote := h.handed_note hmsgs (.high (markOf x) (if x.2.encrypted then
    some (t.client.msgNumFor x.2).1 else none)) (fun _ => ⟨rfl, rfl⟩) (congrArg (·.2.2.2) hheld)
  obtain ⟨rfl, hsliced, hhigh, hpending, hsending, hhanded, hslices⟩ := h
  refine ⟨rfl, ?_, ?_, ?_, ?_, hnote.1, hnote.2⟩
  · rw [hlock]
    exact hsliced
  · rw [hlock]
    exact hhigh
  · unfold Stamped.sendHItem
    simp only
    rw [hpend, drop_left, map_append, hpending, List.map_map]
    exact congrArg (t.client.out.pendingH ++ ·) (List.map_id kept)
  · rw [hsend]
    exact hsending

theorem foldl {α β : Type} {f : Stamped → α → Stamped} {g : Client → β → Client} {p : α → β}
    (hf : ∀ t c a, Tracks t c → Tracks (f t a) (g c (p a))) :
    ∀ (as : List α) {t : Stamped} {c : Client}, Tracks t c →
      Tracks (as.foldl f t) ((as.map p).foldl g c)
  | [], _, _, h => h
  | a :: as, t, c, h => foldl hf as (hf t c a h)

theorem sendHItems (h : Tracks t c) (env : Env) (xs : List (Nat × SendItem)) (curTm : Int) :
    Tracks (t.sendHItems env xs curTm)
      ((xs.map Prod.snd).foldl (fun c item => c.sendHItem env item curTm) c) :=
  foldl (fun _ _ x h => h.sendHItem env x curTm) xs h

theorem map_filterMap_stamped (f : SendItem → Option SendItem) : ∀ xs : List (Nat × SendItem),
    (xs.filterMap (stamped f)).map Prod.snd = (xs.map Prod.snd).filterMap f
  | [] => rfl
  | x :: xs => by
    have ih := map_filterMap_stamped f xs
    rw [map_cons]
    cases hx : f x.2 with
    | none =>
      rw [filterMap_cons_none hx, filterMap_cons_none (by simp [stamped, hx]), ih]
    | some y =>
      rw [filterMap_cons_some hx, filterMap_cons_some
        (show stamped f x = some (x.1, y) by simp [stamped, hx]), map_cons, ih]

theorem retryPendingH (h : Tracks t c) (env : Env) (curTm : Int) :
    Tracks (t.retryPendingH env curTm) (c.retryPendingH env curTm) := by
  obtain ⟨rfl, hsliced, hhigh, hpending, hsending, hhanded, hslices⟩ := h
  have hkeep : ∀ pathDelay, Tracks (t.keepPendingH curTm pathDelay)
      (t.keepPendingH curTm pathDelay).client := by
    refine fun pathDelay => ⟨rfl, hsliced, hhigh, ?_, hsending, hhanded, hslices⟩
    unfold keepPendingH
    rw [← hpending, ← map_filterMap_stamped]
  have hall := (hkeep (pendingHPathDelay t.client.session.roundTripDelay)).sendHItems env
    (t.ledger.pendingH.filterMap (stamped (Client.resendOf curTm
      (pendingHPathDelay t.client.session.roundTripDelay)))) curTm
  rw [map_filterMap_stamped, hpending] at hall
  exact hall

theorem flushSendBatch (h : Tracks t c) (env : Env) :
    Tracks (t.flushSendBatch env) (c.flushSendBatch env) := by
  have hheld := Client.held_flushSendBatch env c
  have hhand : (c.flushSendBatch env).handovers = c.handovers ++ [] :=
    (Client.handovers_flushSendBatch c).trans (append_nil _).symm
  obtain rfl := h.client
  exact h.note (by rw [(Client.flushSendBatch_sends env t.client).sendLock])
    (congrArg Prod.fst hheld) (congrArg (·.2.1) hheld) (congrArg (·.2.2.2) hheld) hhand

theorem batchSendDirect (h : Tracks t c) (env : Env) (item : SendItem) :
    Tracks (t.batchSendDirect env item) (c.batchSendDirect env item) := by
  obtain ⟨⟨msgs, hmsgs⟩, hheld⟩ := Client.batchSendDirect_spec env c item
  obtain rfl := h.client
  exact h.note (by rw [(Client.batchSendDirect_sends env t.client item).sendLock])
    (congrArg Prod.fst hheld) (congrArg (·.2.1) hheld) (congrArg (·.2.2.2) hheld) hmsgs

theorem retrySliced (h : Tracks t c) (env : Env) (curTm : Int) (pacing : Pacing) :
    Tracks (t.retrySliced env curTm pacing) (c.retrySliced env curTm pacing) := by
  obtain ⟨rfl, hsliced, hhigh, hpending, hsending, hhanded, hslices⟩ := h
  obtain ⟨hhand, hheld⟩ := Client.retrySliced_spec env t.client curTm pacing
  have hlock := (Client.retrySliced_sends env t.client curTm pacing).sendLock
  have hpend := congrArg Prod.fst hheld
  have hsend := congrArg (fun held => held.2.1) hheld
  have hpass := congrArg (fun held => held.2.2.2) hheld
  simp only [Outbound.held] at hpend hsend hpass
  unfold Stamped.retrySliced
  cases hdue : t.client.slicedRetryDue curTm with
  | false =>
    rw [hdue, if_neg Bool.false_ne_true] at hsend hpass
    rw [if_neg Bool.false_ne_true]
    refine ⟨rfl, ?_, ?_, ?_, ?_, ?_, ?_⟩
    · rw [hlock]
      exact hsliced
    · rw [hlock]
      exact hhigh
    · rw [hpend]
      exact hpending
    · rw [hsend]
      exact hsending
    · rw [hhand]
      exact hhanded
    · rw [hpass]
      exact hslices
  | true =>
    rw [hdue, if_pos rfl, ← hsending, SentSliced.map_retryPass] at hsend hpass
    rw [if_pos rfl]
    refine ⟨rfl, ?_, ?_, ?_, ?_, ?_, ?_⟩
    · rw [hlock]
      exact hsliced
    · rw [hlock]
      exact hhigh
    · rw [hpend]
      exact hpending
    · rw [hsend]
    · rw [hhand, filterMap_append, filterMap_map, show (Entry.handed ∘ _) = fun _ => none from rfl,
        filterMap_none, append_nil]
      exact hhanded
    · rw [hpass, filterMap_append, hslices, filterMap_map, List.map_map]
      exact congrArg (_ ++ ·) (congrFun filterMap_eq_map _)

theorem sendLowItems (h : Tracks t c) (env : Env) (lItems : List SendItem) (curTm : Int)
    (pacing : Pacing) :
    Tracks (t.sendLowItemsAroundSlicedRetry env lItems curTm pacing)
      (c.sendLowItemsAroundSlicedRetry env lItems curTm pacing) := by
  have hloop : ∀ (items : List SendItem) {t : Stamped} {c : Client}, Tracks t c →
      Tracks (items.foldl (fun t item => t.batchSendDirect env item) t)
        (items.foldl (fun c item => c.batchSendDirect env item) c) := by
    intro items t c h
    have hall := foldl (p := id) (fun t c item (h : Tracks t c) => h.batchSendDirect env item)
      items h
    rwa [List.map_id] at hall
  exact (hloop _ (((hloop _ h).flushSendBatch env).retrySliced env curTm pacing)).flushSendBatch env

theorem checkSeningData (h : Tracks t c) (env : Env) (sliced high : List (Nat × SendItem))
    (low : List SendItem) (acks : List SlicedAck) (curTm : Int) (pacing : Pacing) :
    Tracks (t.checkSeningData env sliced high low acks curTm pacing)
      (c.checkSeningData env ⟨sliced.map Prod.snd, high.map Prod.snd, low⟩ acks curTm pacing) := by
  have hcreate := foldl (fun t c x (h : Tracks t c) => h.createSlicedAndSend env x) sliced
    (h.applySlicedSendUKeyCleanup sliced)
  have hacked := (hcreate.applyCopyAcks acks curTm).applyRegularHlAck
  have hsent := (hacked.applyHighSendUKeyCleanup high).sendHItems env high curTm
  exact (hsent.retryPendingH env curTm).sendLowItems env low curTm pacing

/-- **The send phase.** -/
theorem copySendAck (h : Tracks t c) (env : Env) (curTm : Int) (pacing : Pacing) :
    Tracks (t.copySendAckAndCheckSeningData env curTm pacing)
      (c.copySendAckAndCheckSeningData env curTm pacing) := by
  obtain ⟨rfl, hsliced, hhigh, hpending, hsending, hhanded, hslices⟩ := h
  have hsnap : Tracks t.takeSnapshot t.takeSnapshot.client :=
    ⟨rfl, rfl, rfl, hpending, hsending, hhanded, hslices⟩
  have hall := hsnap.checkSeningData env t.ledger.sliced t.ledger.high
    t.client.sendLock.sendQueues.low t.client.sendLock.incomingSlicedAcks curTm pacing
  rw [hsliced, hhigh] at hall
  exact hall

theorem transportReconnectTailTick (h : Tracks t c) (env : Env) (curTm closeTm : Int) :
    Tracks (t.transportReconnectTailTick env curTm closeTm)
      (c.transportReconnectTailTick env curTm closeTm) := by
  obtain ⟨hqueues, ⟨msgs, hmsgs⟩, hslices, hlists⟩ :=
    Client.transportReconnectTailTick_tails env c curTm closeTm
  have hhanded := h.handed_note hmsgs .direct (fun _ => ⟨rfl, rfl⟩) hslices
  obtain rfl := h.client
  unfold Stamped.transportReconnectTailTick
  simp only
  split
  · next hsame => exact h.note hqueues hsame.1 hsame.2 hslices hmsgs
  next hother =>
  rcases hlists with ⟨hp, hs, -⟩ | ⟨hp, hs, -⟩
  · exact absurd ⟨hp, hs⟩ hother
  · exact {
      client := rfl
      sliced := by rw [hqueues]; exact h.sliced
      high := by rw [hqueues]; exact h.high
      pendingH := hp.symm
      sending := hs.symm
      handed := hhanded.1
      slices := hhanded.2 }

theorem maintain (h : Tracks t c) (env : Env) (m : Maintenance) :
    Tracks (t.maintain env m) (c.maintain env m) := by
  obtain rfl := h.client
  unfold Stamped.maintain Client.maintain
  split
  · exact h
  · exact (h.copySendAck env m.curTm m.pacing).transportReconnectTailTick env m.curTm m.closeTm

/-- **One step.** -/
theorem step (h : Tracks t c) (env : Env) (e : Event) : Tracks (t.step env e) (c.step env e) := by
  obtain rfl := h.client
  cases e with
  | enqueue item => exact h.enqueue item
  | requestShutdown => exact h.calm (Client.Quiet.calm ⟨.inl rfl, rfl, rfl, rfl, id⟩)
  | disconnect =>
    refine h.calm (Client.Quiet.calm ⟨.inl rfl, rfl, rfl, rfl, fun hp => ?_⟩)
    exact absurd hp Bool.false_ne_true
  | wake bound => exact h.calm (Client.wake_steady t.client bound).calm
  | receive d => exact h.calm (Client.receive_calm env t.client d)
  | maintain m => exact h.maintain env m

/-- **The stamped run is the run of the client.** -/
theorem run (env : Env) : ∀ (events : List Event) {t : Stamped} {c : Client}, Tracks t c →
    Tracks (t.run env events) (events.foldl (Client.step env) c)
  | [], _, _, h => h
  | e :: events, _, _, h => run env events (h.step env e)

end Tracks

end Stamped

end MoonProto
