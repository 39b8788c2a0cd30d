import MoonProto.Client.ReceiveFrame
import MoonProto.Client.SendRoundTrip
import MoonProto.Client.SlicedPass
import MoonProto.Lib.LatestWins

/-!
# What sending does to the outbound lists

One lemma for each function of the send path that says what it hands over and
what it does to the pending High items, the sliced datagrams in flight and the
message counter. The cleanup loops by key are instances of `dropKeys`, and the
operations on datagrams in flight look at no tag, so that a tag can carry
whatever a proof wants to follow.
-/

namespace MoonProto

open Codec LatestWins List

/-! ## Keys -/

/-- The key an item is deduplicated by, if any. -/
def UniqueKey.dedup (k : UniqueKey) : Option UniqueKey := if k.isNone then Option.none else some k

def SendItem.dedupKey (item : SendItem) : Option UniqueKey := item.uKey.dedup

def SentSliced.dedupKey {τ : Type} (s : SentSliced τ) : Option UniqueKey := s.uKey.dedup

theorem UniqueKey.dedup_eq_some {k key : UniqueKey} :
    k.dedup = some key ↔ k.isNone = false ∧ k = key := by
  unfold dedup
  cases hk : k.isNone with
  | true => simp
  | false => simp

theorem UniqueKey.beq_dedup {key : UniqueKey} (hkey : key.isNone = false) (k : UniqueKey) :
    (k == key) = (k.dedup == some key) := by
  rw [Bool.eq_iff_iff, beq_iff_eq, beq_iff_eq, dedup_eq_some]
  exact ⟨fun h => ⟨h ▸ hkey, h⟩, And.right⟩

theorem dropOlder_eq (key : UniqueKey) (queue : List SendItem) :
    SendQueues.dropOlder key queue = dropKey SendItem.dedupKey key.dedup queue := by
  unfold SendQueues.dropOlder UniqueKey.dedup
  cases hkey : key.isNone with
  | true => rfl
  | false =>
    refine congrArg (List.eraseP · queue) (funext fun item => ?_)
    exact UniqueKey.beq_dedup hkey item.uKey

theorem foldl_dropOlder (items : List SendItem) : ∀ pending : List SendItem,
    items.foldl (fun pending item => SendQueues.dropOlder item.uKey pending) pending
      = dropKeys SendItem.dedupKey (items.map SendItem.dedupKey) pending := by
  induction items with
  | nil => exact fun _ => rfl
  | cons item items ih =>
    intro pending
    rw [foldl_cons, ih, dropOlder_eq]
    rfl

theorem foldl_dropSending {τ : Type} (items : List SendItem) : ∀ sending : List (SentSliced τ),
    items.foldl (fun sending item => if item.uKey.isNone then sending
      else sending.eraseP (·.uKey == item.uKey)) sending
      = dropKeys SentSliced.dedupKey (items.map SendItem.dedupKey) sending := by
  induction items with
  | nil => exact fun _ => rfl
  | cons item items ih =>
    intro sending
    have hstep : (if item.uKey.isNone then sending else sending.eraseP (·.uKey == item.uKey))
        = dropKey SentSliced.dedupKey item.dedupKey sending := by
      unfold SendItem.dedupKey UniqueKey.dedup
      cases hkey : item.uKey.isNone with
      | true => rfl
      | false =>
        refine congrArg (List.eraseP · sending) (funext fun s => ?_)
        exact UniqueKey.beq_dedup hkey s.uKey
    rw [foldl_cons, ih, hstep]
    rfl

/-! ## Tags of datagrams in flight -/

namespace SentSliced

variable {τ σ : Type} (f : τ → σ)

/-- The datagram under another tag. -/
@[simps] def mapTag (s : SentSliced τ) : SentSliced σ where
  datagramNum := s.datagramNum
  slices := s.slices
  pieceLastChecked := s.pieceLastChecked
  ackFlags := s.ackFlags
  blocksCount := s.blocksCount
  sentCount := s.sentCount
  lastChecked := s.lastChecked
  retryCount := s.retryCount
  lastRetryInc := s.lastRetryInc
  maxRetryCount := s.maxRetryCount
  uKey := s.uKey
  tag := f s.tag

theorem map_insertByBlocks (new : SentSliced τ) : ∀ sending : List (SentSliced τ),
    (new.insertByBlocks sending).map (mapTag f)
      = (new.mapTag f).insertByBlocks (sending.map (mapTag f))
  | [] => rfl
  | s :: rest => by
    have ih := map_insertByBlocks new rest
    by_cases hlt : new.blocksCount < s.blocksCount
    · simp only [insertByBlocks, map_cons, mapTag_blocksCount, if_pos hlt]
    · simp only [insertByBlocks, map_cons, mapTag_blocksCount, if_neg hlt, ih]

theorem map_applySlicedAck (ack : SlicedAck) (nowMs : Int) : ∀ sending : List (SentSliced τ),
    (applySlicedAck ack nowMs sending).map (mapTag f)
      = applySlicedAck ack nowMs (sending.map (mapTag f))
  | [] => rfl
  | s :: rest => by
    have ih := map_applySlicedAck ack nowMs rest
    by_cases hnum : s.datagramNum = ack.datagramNum
    · simp only [applySlicedAck, map_cons, mapTag_datagramNum, if_pos hnum]
      rw [apply_ite (List.map (mapTag f)), apply_ite (List.map (mapTag f))]
      rfl
    · simp only [applySlicedAck, map_cons, mapTag_datagramNum, if_neg hnum, ih]

theorem mapTag_retryDatagram (curTm pathDelay : Int) (limit : Nat) (s : SentSliced τ)
    (bytesSent : Nat) :
    (s.mapTag f).retryDatagram curTm pathDelay limit bytesSent
      = ((s.retryDatagram curTm pathDelay limit bytesSent).1.mapTag f,
          (s.retryDatagram curTm pathDelay limit bytesSent).2) := by
  rw [retryDatagram_eq, retryDatagram_eq]
  refine Prod.ext ?_ rfl
  dsimp only [afterRound]
  rw [apply_ite (mapTag f)]
  rfl

/-- **A retry pass** looks at no tag. -/
theorem map_retryPass (curTm pathDelay : Int) (limit : Nat) :
    ∀ (sending : List (SentSliced τ)) (bytesSent : Nat) (last : Int),
      retryPass curTm pathDelay limit (sending.map (mapTag f)) bytesSent last
        = ⟨(retryPass curTm pathDelay limit sending bytesSent last).kept.map (mapTag f),
            (retryPass curTm pathDelay limit sending bytesSent last).toSend.map (Prod.map id f),
            (retryPass curTm pathDelay limit sending bytesSent last).lastCheckedSlices⟩
  | [], _, _ => rfl
  | s :: rest, bytesSent, last => by
    rw [map_cons]
    unfold retryPass
    rw [mapTag_lastChecked]
    by_cases hearly : ((curTm - s.lastChecked).natAbs : Int) ≤ pathDelay
    · rw [if_pos hearly, if_pos hearly, map_retryPass curTm pathDelay limit rest]
      rfl
    · rw [if_neg hearly, if_neg hearly, mapTag_retryDatagram]
      simp only [mapTag_lastChecked, mapTag_maxRetryCount, mapTag_retryCount, mapTag_tag]
      rw [map_retryPass curTm pathDelay limit rest, apply_ite (List.map (mapTag f)),
        map_append, List.map_map]
      rfl

end SentSliced

/-! ## What sending does to the outbound lists -/

/-- What waits for an acknowledgement, the last message number, and the slices sent. -/
def Outbound.held (o : Outbound) :
    List SendItem × List (SentSliced (Option Nat)) × UInt64 × List Bytes :=
  (o.pendingH, o.sending, o.cryptMsgCounter, o.slices)

namespace Client

variable (env : Env) (c : Client)

theorem held_flushSendBatch : (c.flushSendBatch env).out.held = c.out.held := by
  unfold flushSendBatch
  split
  · rfl
  simp only
  show Outbound.held (Client.out (if _ then _ else _)) = _
  split
  · exact congrArg Outbound.held (sendRawPacketCmd_out env c _ _ _)
  split
  · exact congrArg Outbound.held (sendRawPacketCmd_out env c _ _ _)
  · rfl

theorem held_doSendMpDataWire (cmd : UInt8) (data : Bytes) (by' : List Nat) :
    (c.doSendMpDataWire env cmd data by').out.held = c.out.held := by
  unfold doSendMpDataWire
  simp only
  split
  · split
    · exact held_flushSendBatch env _
    · exact congrArg Outbound.held (sendRawPacketCmd_out env _ _ _ _)
  · rfl

/-- The message seals the command and the data under the number, in some state of
the client. -/
def Seals (msg : UInt8 × Bytes) (num : UInt64) (cmd : UInt8) (data : Bytes) : Prop :=
  ∃ (c : Client) (wantAck : Bool), c.sealCommand env cmd data num wantAck = some msg

/-- What `send_h_item` does with an item: the messages it hands over and the copies
it keeps. -/
inductive HSend (c : Client) (item : SendItem) (curTm : Int) :
    List (UInt8 × Bytes) → List SendItem → Prop
  /-- There is no cipher. -/
  | unsealed (henc : item.encrypted = true) : HSend c item curTm [] []
  | plain (henc : item.encrypted = false) :
      HSend c item curTm [maybeCompress item.cmd item.data] []
  /-- A retry, or an item without retries. -/
  | once {msg} (henc : item.encrypted = true)
      (hseals : Seals env msg (c.msgNumFor item).1 (maybeCompress item.cmd item.data).1
        (maybeCompress item.cmd item.data).2) (hdone : ¬ (0 < item.retryLeft ∧ item.msgNum = 0)) :
      HSend c item curTm [msg] []
  | kept {msg} (henc : item.encrypted = true)
      (hseals : Seals env msg (c.msgNumFor item).1 (maybeCompress item.cmd item.data).1
        (maybeCompress item.cmd item.data).2) (hretry : 0 < item.retryLeft)
      (hfirst : item.msgNum = 0) :
      HSend c item curTm [msg] [pendingCopy item (maybeCompress item.cmd item.data).1
        (maybeCompress item.cmd item.data).2 (c.msgNumFor item).1 curTm]

/-- **`send_h_item`**: what is handed over, what is kept, and that a number is drawn
for an encrypted item without one. -/
theorem sendHItem_spec (item : SendItem) (curTm : Int) :
    ∃ msgs kept, HSend env c item curTm msgs kept ∧
      (c.sendHItem env item curTm).handovers = c.handovers ++ msgs ∧
      (c.sendHItem env item curTm).out.held = (c.out.pendingH ++ kept, c.out.sending,
        (if item.encrypted = true ∧ item.msgNum = 0 then c.out.cryptMsgCounter + 1
        else c.out.cryptMsgCounter), c.out.slices) := by
  have hnum : (c.msgNumFor item).2.out.held = (c.out.pendingH, c.out.sending,
      (if item.msgNum = 0 then c.out.cryptMsgCounter + 1 else c.out.cryptMsgCounter),
      c.out.slices) := by
    unfold msgNumFor nextMsgNum
    by_cases hfirst : item.msgNum = 0
    · rw [if_neg (not_not_intro hfirst), if_pos hfirst]
      rfl
    · rw [if_pos hfirst, if_neg hfirst]
      rfl
  have hhand := handovers_msgNumFor c item
  cases henc : item.encrypted with
  | false =>
    refine ⟨_, _, .plain henc, ?_, ?_⟩
    · simp only [sendHItem, henc, Bool.false_eq_true, if_false]
      exact handovers_doSendMpDataWire _ _ _ _
    · simp only [sendHItem, henc, Bool.false_eq_true, if_false, false_and, append_nil]
      exact held_doSendMpDataWire env _ _ _ _
  | true =>
    simp only [true_and]
    rw [← hhand]
    cases hseal : (c.msgNumFor item).2.sealCommand env (maybeCompress item.cmd item.data).1
        (maybeCompress item.cmd item.data).2 (c.msgNumFor item).1
        (decide (0 < item.retryLeft)) with
    | none =>
      refine ⟨_, _, .unsealed henc, ?_, ?_⟩
      · simp only [sendHItem, henc, if_true, hseal, append_nil]
        rfl
      · simp only [sendHItem, henc, if_true, hseal, append_nil]
        exact hnum
    | some msg =>
      have hsent : ∀ by', ((c.msgNumFor item).2.drew.doSendMpDataWire env msg.1 msg.2
          by').handovers = (c.msgNumFor item).2.handovers ++ [msg] :=
        fun by' => handovers_doSendMpDataWire _ _ _ _
      have hheld : ∀ by', ((c.msgNumFor item).2.drew.doSendMpDataWire env msg.1 msg.2
          by').out.held = (c.msgNumFor item).2.out.held :=
        fun by' => held_doSendMpDataWire env _ _ _ _
      by_cases hkeep : 0 < item.retryLeft ∧ item.msgNum = 0
      · refine ⟨_, _, .kept henc ⟨_, _, hseal⟩ hkeep.1 hkeep.2, ?_, ?_⟩
        · simp only [sendHItem, henc, if_true, hseal, if_pos hkeep]
          exact hsent _
        · simp only [sendHItem, henc, if_true, hseal, if_pos hkeep]
          exact congrArg (fun h : List SendItem × _ => (h.1 ++ [_], h.2)) ((hheld _).trans hnum)
      · refine ⟨_, _, .once henc ⟨_, _, hseal⟩ hkeep, ?_, ?_⟩
        · simp only [sendHItem, henc, if_true, hseal, if_neg hkeep]
          exact hsent _
        · simp only [sendHItem, henc, if_true, hseal, if_neg hkeep, append_nil]
          exact (hheld _).trans hnum

theorem held_sendSlices (slices : List (Bytes × Option Nat)) : ∀ c : Client,
    (slices.foldl (fun c slice => c.sendSlice env slice) c).out
        = { c.out with slices := c.out.slices ++ slices.map Prod.fst } ∧
      (slices.foldl (fun c slice => c.sendSlice env slice) c).handovers = c.handovers := by
  induction slices with
  | nil => exact fun _ => ⟨by simp, rfl⟩
  | cons slice slices ih =>
    intro c
    obtain ⟨hout, hhand⟩ := ih (c.sendSlice env slice)
    refine ⟨hout.trans ?_, hhand.trans (handovers_sendRawPacketCmd _ _ _ _)⟩
    rw [sendSlice, sendRawPacketCmd_out]
    simp

/-- Does `retry_sliced` make a pass? -/
def slicedRetryDue (c : Client) (curTm : Int) : Bool :=
  !c.out.sending.isEmpty && decide (slicedRetryRoundTripDelay c.session.roundTripDelay
    < ((curTm - c.out.lastCheckedSlices).natAbs : Int))

/-- **`retry_sliced`**: the pass decides what stays in flight. -/
theorem retrySliced_spec (curTm : Int) (pacing : Pacing) :
    (c.retrySliced env curTm pacing).handovers = c.handovers ∧
      (c.retrySliced env curTm pacing).out.held = (c.out.pendingH,
        (if c.slicedRetryDue curTm then (SentSliced.retryPass curTm pacing.pathDelay
          pacing.clientLimit c.out.sending 0 curTm).kept else c.out.sending),
        c.out.cryptMsgCounter, if c.slicedRetryDue curTm then c.out.slices ++
          (SentSliced.retryPass curTm pacing.pathDelay pacing.clientLimit c.out.sending 0
            curTm).toSend.map Prod.fst else c.out.slices) := by
  unfold retrySliced slicedRetryDue
  by_cases hempty : c.out.sending.isEmpty = true
  · rw [if_pos hempty, hempty]
    exact ⟨rfl, rfl⟩
  · rw [if_neg hempty, Bool.eq_false_of_not_eq_true hempty]
    by_cases hearly : ((curTm - c.out.lastCheckedSlices).natAbs : Int)
        ≤ slicedRetryRoundTripDelay c.session.roundTripDelay
    · rw [if_pos hearly, decide_eq_false (Int.not_lt.mpr hearly)]
      exact ⟨rfl, rfl⟩
    · rw [if_neg hearly, decide_eq_true (Int.not_le.mp hearly)]
      obtain ⟨hout, hhand⟩ := held_sendSlices env (SentSliced.retryPass curTm pacing.pathDelay
        pacing.clientLimit c.out.sending 0 curTm).toSend c
      exact ⟨hhand, congrArg (fun o : Outbound => (o.pendingH, _, o.cryptMsgCounter, o.slices))
        hout⟩

/-- **`batch_send_direct`** keeps nothing, and draws at most one number. -/
theorem batchSendDirect_spec (item : SendItem) :
    (∃ msgs, (c.batchSendDirect env item).handovers = c.handovers ++ msgs) ∧
      (c.batchSendDirect env item).out.held = (c.out.pendingH, c.out.sending,
        (if item.encrypted then c.out.cryptMsgCounter + 1 else c.out.cryptMsgCounter),
        c.out.slices) := by
  cases henc : item.encrypted with
  | false =>
    simp only [batchSendDirect, henc, Bool.false_eq_true, if_false]
    exact ⟨⟨_, handovers_doSendMpDataWire _ _ _ _⟩, held_doSendMpDataWire env _ _ _ _⟩
  | true =>
    simp only [batchSendDirect, henc, if_true]
    split
    · exact ⟨⟨[], (append_nil _).symm⟩, rfl⟩
    · exact ⟨⟨_, handovers_doSendMpDataWire _ _ _ _⟩, held_doSendMpDataWire env _ _ _ _⟩

/-- The message that `create_sliced_and_send` puts in flight, with the cipher it is
sealed by. -/
def slicedMessage (c : Client) (item : SendItem) : Option ((UInt8 × Bytes) × Option Nat) :=
  let (sendCmd, sendData) := maybeCompress item.cmd item.data
  if !c.admitsSliced sendData then none
  else if item.encrypted then
    let (msgNum, c) := c.msgNumFor item
    (c.sealCommand env sendCmd sendData msgNum (decide (0 < item.retryLeft))).map
      (·, some c.trace.ciphers)
  else some ((sendCmd, sendData), none)

/-- The datagram of a message. -/
def newSliced {τ : Type} (c : Client) (item : SendItem) (msg : UInt8 × Bytes) (tag : τ) :
    SentSliced τ :=
  SentSliced.create c.out.sendDatagramNum (slicePmtu c.session.actualPmtu).toNat msg.1 msg.2
    item.maxRetries item.uKey tag

/-- **`create_sliced_and_send`** puts the message in flight, if there is one. -/
theorem createSlicedAndSend_spec (item : SendItem) :
    (c.createSlicedAndSend env item).handovers = c.handovers ∧
      (c.createSlicedAndSend env item).out.pendingH = c.out.pendingH ∧
      ((c.createSlicedAndSend env item).out.cryptMsgCounter = c.out.cryptMsgCounter ∨
        (c.createSlicedAndSend env item).out.cryptMsgCounter = c.out.cryptMsgCounter + 1) ∧
      ((c.createSlicedAndSend env item).out.sending = match c.slicedMessage env item with
        | none => c.out.sending
        | some (msg, sealedBy) => (c.newSliced item msg sealedBy).insertByBlocks c.out.sending) ∧
      (c.createSlicedAndSend env item).out.slices = c.out.slices := by
  have hnum : (c.msgNumFor item).2.out.cryptMsgCounter = c.out.cryptMsgCounter ∨
      (c.msgNumFor item).2.out.cryptMsgCounter = c.out.cryptMsgCounter + 1 := by
    unfold msgNumFor nextMsgNum
    split
    · exact .inl rfl
    · exact .inr rfl
  have hhand := handovers_msgNumFor c item
  have hpend := pendingH_msgNumFor c item
  have hsend := sending_msgNumFor c item
  have hdgram : (c.msgNumFor item).2.out.sendDatagramNum = c.out.sendDatagramNum ∧
      (c.msgNumFor item).2.out.slices = c.out.slices := by
    unfold msgNumFor nextMsgNum
    split <;> exact ⟨rfl, rfl⟩
  unfold createSlicedAndSend slicedMessage newSliced
  by_cases hadm : (!c.admitsSliced (maybeCompress item.cmd item.data).2) = true
  · simp only [hadm, if_true]
    exact ⟨trivial, trivial, .inl trivial, trivial, trivial⟩
  · cases henc : item.encrypted with
    | false =>
      simp only [hadm, Bool.false_eq_true, if_false]
      exact ⟨rfl, rfl, .inl rfl, rfl, rfl⟩
    | true =>
      simp only [hadm, if_true, Bool.false_eq_true, if_false]
      cases (c.msgNumFor item).2.sealCommand env (maybeCompress item.cmd item.data).1
          (maybeCompress item.cmd item.data).2 (c.msgNumFor item).1
          (decide (0 < item.retryLeft)) with
      | none => exact ⟨hhand, hpend, hnum, hsend, hdgram.2⟩
      | some msg =>
        refine ⟨hhand, hpend, hnum, ?_, hdgram.2⟩
        simp only [Option.map_some, putInFlight]
        rw [← hsend, ← hdgram.1]
        rfl

end Client

/-! ## The timers behind the send phase -/

namespace Client

variable (env : Env)

/-- From `c` to `c'` the lists stayed as they were, or everything was given up. -/
structure Tails (c c' : Client) : Prop where
  queues : c'.sendLock.sendQueues = c.sendLock.sendQueues
  handed : ∃ msgs, c'.handovers = c.handovers ++ msgs
  slices : c'.out.slices = c.out.slices
  lists : (c'.out.pendingH = c.out.pendingH ∧ c'.out.sending = c.out.sending ∧
      (c'.out.cryptMsgCounter = c.out.cryptMsgCounter ∨
        c'.out.cryptMsgCounter = initialCryptedMsgCounter)) ∨
    (c'.out.pendingH = [] ∧ c'.out.sending = [] ∧ c'.out.cryptMsgCounter = initialCryptedMsgCounter)

theorem Calm.tails {c c' : Client} (h : Calm c c') : Tails c c' where
  queues := h.queues
  handed := ⟨[], h.handovers.trans (append_nil _).symm⟩
  slices := by
    rcases h.out with heq | heq
    · rw [heq]
    · rw [heq]
  lists := by
    rcases h.out with heq | heq
    · rw [heq]
      exact .inl ⟨rfl, rfl, .inl rfl⟩
    · rw [heq]
      exact .inl ⟨rfl, rfl, .inr rfl⟩

theorem GaveUp.tails {c c' : Client} (h : GaveUp c c')
    (hh : ∃ msgs, c'.handovers = c.handovers ++ msgs) : Tails c c' :=
  ⟨h.queues, hh, h.slices, .inr ⟨h.pendingH, h.sending, h.counter⟩⟩

theorem Tails.trans {c₁ c₂ c₃ : Client} (h : Tails c₁ c₂) (h' : Tails c₂ c₃) : Tails c₁ c₃ where
  queues := h'.queues.trans h.queues
  handed := by
    obtain ⟨msgs, hmsgs⟩ := h.handed
    obtain ⟨msgs', hmsgs'⟩ := h'.handed
    exact ⟨msgs ++ msgs', by rw [hmsgs', hmsgs, append_assoc]⟩
  slices := h'.slices.trans h.slices
  lists := by
    rcases h'.lists with ⟨hp', hs', hc'⟩ | hgone
    · rw [hp', hs']
      rcases h.lists with ⟨hp, hs, hc⟩ | ⟨hp, hs, hc⟩
      · refine .inl ⟨hp, hs, ?_⟩
        rcases hc' with hc' | hc'
        · exact hc'.symm ▸ hc
        · exact .inr hc'
      · refine .inr ⟨hp, hs, ?_⟩
        rcases hc' with hc' | hc'
        · exact hc'.trans hc
        · exact hc'
    · exact .inr hgone

theorem doForceDisconnect_tails (c : Client) (closeTm : Int) :
    Tails c (c.doForceDisconnect env closeTm) := by
  have hclose : (∃ msgs, (if c.announcesClose then c.sendSessionClose env closeTm
      else c).handovers = c.handovers ++ msgs) ∧
      (if c.announcesClose then c.sendSessionClose env closeTm else c).out.slices
        = c.out.slices := by
    split
    · obtain ⟨msgs, _, -, hmsgs, hheld⟩ := sendHItem_spec env c sessionCloseItem closeTm
      exact ⟨⟨msgs, hmsgs⟩, congrArg (·.2.2.2) hheld⟩
    · exact ⟨⟨[], (append_nil _).symm⟩, rfl⟩
  have hsends : Sends c (if c.announcesClose then c.sendSessionClose env closeTm else c) := by
    split
    · exact sendHItem_sends env c _ closeTm
    · exact Sends.refl c
  have hrebind : ∀ c' : Client, c'.closeForRebind.session = c'.session := by
    intro c'
    unfold closeForRebind
    split
    · rfl
    · rfl
  unfold doForceDisconnect
  by_cases hsoft : c.session.softReconnect = true
  · have hquiet : c.announcesClose = false := by
      unfold announcesClose
      rw [hsoft]
      simp
    simp only [hquiet, Bool.false_eq_true, if_false]
    rw [hrebind, hsoft]
    refine ((closeForRebind_steady c).toQuiet.trans ?_).calm.tails
    exact ⟨.inl rfl, rfl, rfl, rfl, Bool.false_ne_true.elim⟩
  · obtain ⟨⟨msgs, hmsgs⟩, hslices⟩ := hclose
    generalize (if c.announcesClose then c.sendSessionClose env closeTm else c) = c₁
      at hmsgs hslices hsends ⊢
    have hq := closeForRebind_steady c₁
    simp only
    rw [hrebind, hsends.session, Bool.eq_false_of_not_eq_true hsoft]
    refine ⟨?_, ⟨msgs, ?_⟩, hq.calm.tails.slices.trans hslices, .inr ⟨rfl, rfl, rfl⟩⟩
    · exact hq.queues.trans (congrArg SendLockState.sendQueues hsends.sendLock)
    · exact hq.calm.handovers.trans hmsgs

/-- **`transport_reconnect_tail_tick`** leaves the lists alone or gives them up. -/
theorem transportReconnectTailTick_tails (c : Client) (curTm closeTm : Int) :
    Tails c (c.transportReconnectTailTick env curTm closeTm) := by
  have hhello : Tails c (c.checkHelloSend env curTm) := by
    rcases checkHelloSend_cases env c curTm with hq | hopened
    · exact hq.calm.tails
    · obtain ⟨hgave, hnoted, -⟩ := openedPrimary_gaveUp hopened
      refine hgave.tails ⟨[], ?_⟩
      rw [handovers_eq_noted, hnoted, ← handovers_eq_noted, append_nil]
  have htimers := ((hhello.trans (checkOfflineReconnect_steady env _ curTm).calm.tails).trans
    (checkReconnectTimeout_still _ curTm).calm.tails).trans (checkDeadZone_still _ curTm).calm.tails
  unfold transportReconnectTailTick reconnectChecks
  simp only
  split
  · exact htimers.trans (doForceDisconnect_tails env _ closeTm)
  · exact htimers

end Client

end MoonProto
