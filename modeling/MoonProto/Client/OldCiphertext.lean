import MoonProto.Client.ReceiveFrame
import MoonProto.Client.SessionSafety
import MoonProto.Client.SlicedPass

/-!
# Ciphertext of an earlier session

A hard reconnect keeps the old encode cipher until the server's WhoAreYou
installs a new one. What is encrypted in between must not be sent behind the
switch. High and Low commands are safe: they leave with the flush at the end of
the send phase, and their retries are encrypted anew. A Sliced message is
encrypted once and cut, and its blocks are repeated as they are.

The module shows that this is the only way out: in a run that admits no
encrypted Sliced message between the reset and the new cipher, everything that
is sent was encrypted under the cipher of the moment.
-/

namespace MoonProto

open Codec List Option

/-! ## Datagrams in flight keep their seal -/

namespace SentSliced

/-- Every datagram in flight was sealed as `P` says. -/
def AllSealed (P : Option Nat → Prop) (sending : List (SentSliced (Option Nat))) : Prop :=
  ∀ d ∈ sending, P d.tag

variable {P : Option Nat → Prop} {sending : List (SentSliced (Option Nat))}

theorem AllSealed.sublist {l : List (SentSliced (Option Nat))} (h : AllSealed P sending)
    (hl : l.Sublist sending) : AllSealed P l :=
  fun d hd => h d (hl.subset hd)

theorem AllSealed.insertByBlocks {new : SentSliced (Option Nat)} (hnew : P new.tag)
    (h : AllSealed P sending) : AllSealed P (new.insertByBlocks sending) := by
  intro d hd
  rcases mem_insertByBlocks.mp hd with rfl | hd
  · exact hnew
  · exact h d hd

theorem AllSealed.applySlicedAck (h : AllSealed P sending) (ack : SlicedAck) (nowMs : Int) :
    AllSealed P (SentSliced.applySlicedAck ack nowMs sending) := by
  intro d hd
  obtain ⟨s, hs, htag⟩ := List.mem_map.mp ((tags_of_ident
    (ident_applySlicedAck ack nowMs sending)).subset (List.mem_map_of_mem hd))
  exact htag ▸ h s hs

/-- A retry pass keeps and sends what was sealed before. -/
theorem AllSealed.retryPass (h : AllSealed P sending) (curTm pathDelay : Int)
    (limit bytesSent : Nat)
    (last : Int) :
    AllSealed P (SentSliced.retryPass curTm pathDelay limit sending bytesSent last).kept ∧
      ∀ slice ∈ (SentSliced.retryPass curTm pathDelay limit sending bytesSent last).toSend,
        P slice.2 := by
  obtain ⟨hkept, hsent⟩ := retryPass_spec curTm pathDelay limit sending bytesSent last
  constructor
  · intro d hd
    obtain ⟨s, hs, hsame, -⟩ := hkept d hd
    exact hsame.tag ▸ h s hs
  · intro slice hslice
    obtain ⟨s, hs, -, htag⟩ := hsent slice hslice
    exact htag ▸ h s hs

end SentSliced

/-! ## The send phase -/

namespace Client

/-- The client holds and has sent ciphertext of its current cipher only, the
`n`-th one; `P` says how the datagrams in flight were sealed. -/
structure Sealed (n : Nat) (P : Option Nat → Prop) (c : Client) : Prop where
  ciphers : c.trace.ciphers = n
  log : CurrentOnly c.trace.log
  batch : ∀ k ∈ c.out.tmpSealedBy, k = n
  counted : c.out.tmpSendCount = 0 → c.out.tmpSealedBy = []
  sending : SentSliced.AllSealed P c.out.sending

variable {env : Env} {n : Nat} {P : Option Nat → Prop} {c : Client}

namespace Sealed

variable {by' : List Nat}

theorem sendRawPacketCmd (h : c.Sealed n P) (cmd : UInt8) (payload : Bytes)
    (hby : ∀ k ∈ by', k = n) : (c.sendRawPacketCmd env cmd payload by').Sealed n P := by
  have hout := sendRawPacketCmd_out env c cmd payload by'
  exact {
    ciphers := (sendRawPacketCmd_sends env c cmd payload by').ciphers.trans h.ciphers
    log := sendRawPacketCmd_log h.log cmd payload (h.ciphers ▸ hby)
    batch := by rw [hout]; exact h.batch
    counted := by rw [hout]; exact h.counted
    sending := by rw [hout]; exact h.sending }

theorem record (h : c.Sealed n P) {e : Effect}
    (he : ∀ socket cmd payload by' current, e ≠ .sent socket cmd payload by' current) :
    (c.record e).Sealed n P where
  ciphers := h.ciphers
  log := h.log.snoc fun socket cmd payload by' current heq =>
    absurd heq (he socket cmd payload by' current)
  batch := h.batch
  counted := h.counted
  sending := h.sending

theorem congr {c' : Client} (h : c.Sealed n P) (hciphers : c'.trace.ciphers = c.trace.ciphers)
    (hlog : c'.trace.log = c.trace.log) (hbatch : c'.out.tmpSealedBy = c.out.tmpSealedBy)
    (hcount : c'.out.tmpSendCount = c.out.tmpSendCount)
    (hsending : c'.out.sending = c.out.sending) :
    c'.Sealed n P where
  ciphers := hciphers.trans h.ciphers
  log := hlog ▸ h.log
  batch := hbatch ▸ h.batch
  counted := by rw [hcount, hbatch]; exact h.counted
  sending := hsending ▸ h.sending

theorem drew (h : c.Sealed n P) : c.drew.Sealed n P := h.congr rfl rfl rfl rfl rfl

theorem flushSendBatch (h : c.Sealed n P) :
    (c.flushSendBatch env).Sealed n P ∧ (c.flushSendBatch env).out.tmpSendCount = 0 := by
  unfold Client.flushSendBatch
  split
  · next hzero => exact ⟨h, hzero⟩
  simp only
  have hsent : (if 1 < c.out.tmpSendCount then
      c.sendCommand env .grouped c.out.tmpSendBuf c.out.tmpSealedBy
    else if 3 ≤ c.out.tmpSendBuf.length then
      c.sendCommandRaw env (byteAt c.out.tmpSendBuf 0) (c.out.tmpSendBuf.drop 3)
        c.out.tmpSealedBy
    else c).Sealed n P := by
    split
    · exact h.sendRawPacketCmd _ _ h.batch
    split
    · exact h.sendRawPacketCmd _ _ h.batch
    · exact h
  refine ⟨⟨hsent.ciphers, hsent.log, nofun, fun _ => rfl, hsent.sending⟩, ?_⟩
  trivial

theorem pushTmpSendItem (h : c.Sealed n P) (cmd : UInt8) (data : Bytes) (size : Nat)
    (hby : ∀ k ∈ by', k = n) :
    (c.pushTmpSendItem cmd data size by').Sealed n P where
  ciphers := h.ciphers
  log := h.log
  batch := forall_mem_append.mpr ⟨h.batch, hby⟩
  counted := fun hzero => absurd hzero (Nat.succ_ne_zero _)
  sending := h.sending

theorem doSendMpDataWire (h : c.Sealed n P) (cmd : UInt8) (data : Bytes)
    (hby : ∀ k ∈ by', k = n) : (c.doSendMpDataWire env cmd data by').Sealed n P := by
  have hrec : (c.record (.handedOver cmd data)).Sealed n P := h.record nofun
  unfold Client.doSendMpDataWire
  simp only
  split
  · split
    · exact hrec.flushSendBatch.1.pushTmpSendItem cmd data _ hby
    · exact hrec.sendRawPacketCmd cmd data hby
  · exact hrec.pushTmpSendItem cmd data _ hby

theorem msgNumFor (h : c.Sealed n P) (item : SendItem) : (c.msgNumFor item).2.Sealed n P := by
  unfold Client.msgNumFor
  split
  · exact h
  · exact h.congr rfl rfl rfl rfl rfl

theorem sendHItem (h : c.Sealed n P) (item : SendItem) (curTm : Int) :
    (c.sendHItem env item curTm).Sealed n P := by
  have hnum := h.msgNumFor item
  unfold Client.sendHItem
  simp only
  split
  · split
    · exact hnum.drew
    · next cmd data _ =>
      have hsend : ((c.msgNumFor item).2.drew.doSendMpDataWire env cmd data
          [(c.msgNumFor item).2.drew.trace.ciphers]).Sealed n P :=
        hnum.drew.doSendMpDataWire cmd data fun k hk =>
          (mem_singleton.mp hk).trans hnum.ciphers
      split
      · exact hsend.congr rfl rfl rfl rfl rfl
      · exact hsend
  · exact h.doSendMpDataWire _ _ nofun

theorem batchSendDirect (h : c.Sealed n P) (item : SendItem) :
    (c.batchSendDirect env item).Sealed n P := by
  have hnum : c.nextMsgNum.2.Sealed n P := h.congr rfl rfl rfl rfl rfl
  unfold Client.batchSendDirect
  simp only
  split
  · split
    · exact hnum.drew
    · exact hnum.drew.doSendMpDataWire _ _ fun k hk => (mem_singleton.mp hk).trans h.ciphers
  · exact h.doSendMpDataWire _ _ nofun

theorem foldl {α : Type} {f : Client → α → Client}
    (hf : ∀ a c', Sealed n P c' → (f c' a).Sealed n P) :
    ∀ (as : List α) {c' : Client}, c'.Sealed n P → (as.foldl f c').Sealed n P
  | [], _, h => h
  | a :: as, c', h => foldl hf as (hf a c' h)

theorem putInFlight (h : c.Sealed n P) (pmtu : Nat) (cmd : UInt8) (data : Bytes) (item : SendItem)
    {by' : Option Nat} (hby : P by') : (c.putInFlight pmtu cmd data item by').Sealed n P :=
  ⟨h.ciphers, h.log, h.batch, h.counted, h.sending.insertByBlocks hby⟩

/-- A Sliced item that is taken is sealed under the current cipher, or not at all. -/
theorem createSlicedAndSend (h : c.Sealed n P) (item : SendItem) (hplain : P none)
    (hseal : item.encrypted = true → c.session.encodeCipher.isSome = true →
      c.admitsSliced (maybeCompress item.cmd item.data).2 = true → P (some n)) :
    (c.createSlicedAndSend env item).Sealed n P := by
  have hnum := h.msgNumFor item
  have hsends := msgNumFor_sends c item
  unfold Client.createSlicedAndSend
  simp only
  split
  · exact h
  next hadm =>
  rw [Bool.not_eq_true', Bool.not_eq_false] at hadm
  split
  · next henc =>
    split
    · exact hnum.drew
    next heq =>
    have hcipher : c.session.encodeCipher.isSome = true := by
      rw [← hsends.session]
      unfold sealCommand at heq
      obtain ⟨key, hkey, -⟩ := map_eq_some_iff.mp heq
      rw [hkey]
      rfl
    refine hnum.drew.putInFlight _ _ _ item ?_
    rw [hnum.ciphers]
    exact hseal henc hcipher hadm
  · exact h.putInFlight _ _ _ item hplain

theorem retrySliced (h : c.Sealed n P) (hP : ∀ k, P (some k) → k = n) (curTm : Int)
    (pacing : Pacing) : (c.retrySliced env curTm pacing).Sealed n P := by
  unfold Client.retrySliced
  split
  · exact h
  split
  · exact h
  obtain ⟨hkept, hsend⟩ := h.sending.retryPass curTm pacing.pathDelay pacing.clientLimit 0 curTm
  have hslices : ∀ (slices : List (Bytes × Option Nat)) {c' : Client},
      (∀ slice ∈ slices, P slice.2) → c'.Sealed n P →
      (slices.foldl (fun c slice => c.sendSlice env slice) c').Sealed n P := by
    intro slices
    induction slices with
    | nil => exact fun _ h' => h'
    | cons slice slices ih =>
      intro c' hP' h'
      refine ih (fun s hs => hP' s (mem_cons_of_mem slice hs)) ?_
      have hnoted : Sealed n P { c' with out := { c'.out with
        slices := c'.out.slices ++ [slice.1] } } := h'.congr rfl rfl rfl rfl rfl
      refine hnoted.sendRawPacketCmd _ _ fun k hk => hP k ?_
      rw [← mem_toList.mp hk]
      exact hP' slice mem_cons_self
  have hall := hslices _ hsend h
  exact ⟨hall.ciphers, hall.log, hall.batch, hall.counted, hkept⟩

theorem retryPendingH (h : c.Sealed n P) (curTm : Int) :
    (c.retryPendingH env curTm).Sealed n P := by
  unfold Client.retryPendingH
  exact foldl (fun item c' h' => h'.sendHItem item curTm) _ (h.congr rfl rfl rfl rfl rfl)

theorem sendLowItems (h : c.Sealed n P) (hP : ∀ k, P (some k) → k = n) (lItems : List SendItem)
    (curTm : Int) (pacing : Pacing) :
    (c.sendLowItemsAroundSlicedRetry env lItems curTm pacing).Sealed n P ∧
      (c.sendLowItemsAroundSlicedRetry env lItems curTm pacing).out.tmpSendCount = 0 := by
  have hbatch : ∀ (items : List SendItem) {c : Client}, c.Sealed n P →
      (items.foldl (fun c item => c.batchSendDirect env item) c).Sealed n P :=
    foldl fun item c' h' => h'.batchSendDirect item
  refine (hbatch (lItems.drop 1) ?_).flushSendBatch
  exact (hbatch (lItems.take 1) h).flushSendBatch.1.retrySliced hP curTm pacing

theorem applySlicedSendUKeyCleanup (h : c.Sealed n P) (sliced : List SendItem) :
    (c.applySlicedSendUKeyCleanup sliced).Sealed n P := by
  have hsub : ∀ (sliced : List SendItem) (sending : List (SentSliced (Option Nat))),
      (sliced.foldl (fun sending item => if item.uKey.isNone then sending
        else sending.eraseP (·.uKey == item.uKey)) sending).Sublist sending := by
    intro sliced
    induction sliced with
    | nil => exact fun sending => Sublist.refl sending
    | cons item sliced ih =>
      intro sending
      rw [foldl_cons]
      split
      · exact ih sending
      · exact (ih _).trans eraseP_sublist
  exact ⟨h.ciphers, h.log, h.batch, h.counted, h.sending.sublist (hsub sliced c.out.sending)⟩

theorem applyCopyAcks (h : c.Sealed n P) (acks : List SlicedAck) (curTm : Int) :
    (c.applyCopyAcks acks curTm).Sealed n P := by
  have hacks : ∀ (acks : List SlicedAck) {sending : List (SentSliced (Option Nat))},
      SentSliced.AllSealed P sending → SentSliced.AllSealed P
        (acks.foldl (fun sending ack => SentSliced.applySlicedAck ack curTm sending) sending) := by
    intro acks
    induction acks with
    | nil => exact id
    | cons ack acks ih => exact fun hs => ih (hs.applySlicedAck ack curTm)
  exact ⟨h.ciphers, h.log, h.batch, h.counted, hacks acks h.sending⟩

theorem applyRegularHlAck (h : c.Sealed n P) : c.applyRegularHlAck.Sealed n P := by
  unfold Client.applyRegularHlAck
  simp only
  split
  · exact h
  · exact h.congr rfl rfl rfl rfl rfl

theorem applyHighSendUKeyCleanup (h : c.Sealed n P) (hItems : List SendItem) :
    (c.applyHighSendUKeyCleanup hItems).Sealed n P :=
  h.congr rfl rfl rfl rfl rfl

theorem createAll (h : c.Sealed n P) (hplain : P none) {items : List SendItem}
    (hqueue : ∀ item ∈ items, item.encrypted = true → c.session.encodeCipher.isSome = true →
      c.admitsSliced (maybeCompress item.cmd item.data).2 = true → P (some n)) :
    (items.foldl (fun c item => c.createSlicedAndSend env item) c).Sealed n P := by
  induction items generalizing c with
  | nil => exact h
  | cons item items ih =>
    have hsession := (createSlicedAndSend_sends env c item).session
    refine ih (h.createSlicedAndSend item hplain (hqueue item mem_cons_self)) ?_
    intro item' hmem
    rw [hsession, admitsSliced, hsession]
    exact hqueue item' (mem_cons_of_mem item hmem)

/-- **The send phase** keeps the seals and empties the batch buffer. -/
theorem checkSeningData (h : c.Sealed n P) (hP : ∀ k, P (some k) → k = n) (hplain : P none)
    {queues : SendQueues}
    (hqueue : ∀ item ∈ queues.sliced, item.encrypted = true → c.session.encodeCipher.isSome = true →
      c.admitsSliced (maybeCompress item.cmd item.data).2 = true → P (some n))
    (acks : List SlicedAck) (curTm : Int) (pacing : Pacing) :
    (c.checkSeningData env queues acks curTm pacing).Sealed n P ∧
      (c.checkSeningData env queues acks curTm pacing).out.tmpSendCount = 0 := by
  have hsliced : (queues.sliced.foldl (fun c item => c.createSlicedAndSend env item)
      (c.applySlicedSendUKeyCleanup queues.sliced)).Sealed n P :=
    (h.applySlicedSendUKeyCleanup queues.sliced).createAll hplain hqueue
  have hacked := (hsliced.applyCopyAcks acks curTm).applyRegularHlAck
  have hclean := hacked.applyHighSendUKeyCleanup queues.high
  have hitem : ∀ (item : SendItem) c', Sealed n P c' → (c'.sendHItem env item curTm).Sealed n P :=
    fun item c' h' => h'.sendHItem item curTm
  exact ((foldl hitem queues.high hclean).retryPendingH curTm).sendLowItems hP queues.low curTm
    pacing

end Sealed

/-! ## Adopting a session -/

theorem adoptSession_fields (env : Env) (c : Client) (hello : Hello) :
    (c.adoptSession env hello).trace.ciphers = c.trace.ciphers + 1 ∧
    (CurrentOnly c.trace.log → CurrentOnly (c.adoptSession env hello).trace.log) ∧
    (c.adoptSession env hello).out = c.out := by
  have hmix : (c.acceptedServerMixTs hello.mixTs).trace = c.trace ∧
      (c.acceptedServerMixTs hello.mixTs).out = c.out := by
    unfold acceptedServerMixTs
    split
    · exact ⟨rfl, rfl⟩
    · exact ⟨rfl, rfl⟩
  rw [← hmix.1, ← hmix.2]
  unfold adoptSession refreshAckSession32
  simp only
  split
  · exact ⟨rfl, fun h => h.snoc nofun, rfl⟩
  · exact ⟨rfl, id, rfl⟩

/-! ## The invariant -/

/-- Sealed by the `n`-th cipher, or in plain text. -/
def Under (n : Nat) (sealedBy : Option Nat) : Prop := ∀ k, sealedBy = some k → k = n

theorem under_none (n : Nat) : Under n none := nofun

/-- What the client holds is sealed by its current cipher; while it waits for the
WhoAreYou that will replace the cipher, it holds nothing sealed at all. -/
structure HoldsCurrent (c : Client) : Prop where
  current : c.Sealed c.trace.ciphers (Under c.trace.ciphers)
  primary : c.session.helloWaitState.allowsWhoAreYou = true →
    c.out.tmpSendCount = 0 ∧ SentSliced.AllSealed (· = none) c.out.sending

/-- The client waits for WhoAreYou and has the cipher of the session before. -/
def awaitsNewCipher (c : Client) : Bool :=
  c.session.helloWaitState.allowsWhoAreYou && c.session.encodeCipher.isSome

/-- The next send phase takes an encrypted Sliced message from the queue. -/
def takesEncryptedSliced (c : Client) : Bool :=
  c.sendLock.sendQueues.sliced.any fun item =>
    item.encrypted && c.admitsSliced (maybeCompress item.cmd item.data).2

/-- Nothing encrypted under the old cipher is cut into blocks by this step. -/
def TakesNoOldSliced (c : Client) : Event → Prop
  | .maintain _ => c.awaitsNewCipher = true → c.takesEncryptedSliced = false
  | _ => True

instance (c : Client) (e : Event) : Decidable (TakesNoOldSliced c e) :=
  match e with
  | .maintain _ => inferInstanceAs (Decidable (c.awaitsNewCipher = true → _ = false))
  | .enqueue _ | .requestShutdown | .disconnect | .wake _ | .receive _ => isTrue trivial

namespace HoldsCurrent

variable {c' : Client}

theorem still (h : c.HoldsCurrent) (hr : Still c c') : c'.HoldsCurrent where
  current := by
    rw [hr.ciphers]
    rcases hr.out with heq | heq
    · exact ⟨hr.ciphers, hr.current h.current.log, heq ▸ h.current.batch, heq ▸ h.current.counted,
        heq ▸ h.current.sending⟩
    · exact ⟨hr.ciphers, hr.current h.current.log, heq ▸ h.current.batch, heq ▸ h.current.counted,
        heq ▸ h.current.sending⟩
  primary := by
    rcases hr.out with heq | heq
    · exact heq ▸ h.primary ∘ hr.primary
    · exact heq ▸ h.primary ∘ hr.primary

theorem steady (h : c.HoldsCurrent) (hr : Steady c c') : c'.HoldsCurrent := h.still hr.toStill

/-- A new cipher, while nothing sealed is held. -/
theorem adoptSession (h : c.HoldsCurrent)
    (hphase : c.session.helloWaitState.allowsWhoAreYou = true) (hello : Hello) :
    (c.adoptSession env hello).HoldsCurrent := by
  obtain ⟨hcount, hplain⟩ := h.primary hphase
  obtain ⟨hciphers, hlog, hout⟩ := adoptSession_fields env c hello
  refine ⟨⟨rfl, hlog h.current.log, ?_, ?_, ?_⟩, fun _ => ?_⟩
  · rw [hout, h.current.counted hcount]
    exact nofun
  · rw [hout]
    exact h.current.counted
  · rw [hout]
    intro d hd k hk
    rw [hplain d hd] at hk
    cases hk
  · rw [hout]
    exact ⟨hcount, hplain⟩

theorem receive (h : c.HoldsCurrent) (d : Datagram) : (c.receive env d).HoldsCurrent := by
  unfold Client.receive
  split
  · exact h
  rcases processDatagram_cases env c d with hs | ⟨c₁, hello, htidy, hphase, hs⟩
  · exact h.steady hs
  · exact ((h.steady htidy).adoptSession hphase hello).steady hs

theorem copySendAck (env : Env) (h : c.HoldsCurrent) {m : Maintenance}
    (hm : TakesNoOldSliced c (.maintain m)) :
    (c.copySendAckAndCheckSeningData env m.curTm m.pacing).HoldsCurrent ∧
      (c.copySendAckAndCheckSeningData env m.curTm m.pacing).out.tmpSendCount = 0 := by
  have hsnapshot : ∀ {P : Option Nat → Prop} (lock : SendLockState) (inb : Inbound),
      c.Sealed c.trace.ciphers P →
      { c with sendLock := lock, inb := inb }.Sealed c.trace.ciphers P :=
    fun _ _ h' => h'.congr rfl rfl rfl rfl rfl
  unfold copySendAckAndCheckSeningData
  simp only
  obtain ⟨hcur, hcount⟩ := (hsnapshot _ _ h.current).checkSeningData (fun k hk => hk k rfl)
    (under_none _) (fun _ _ _ _ _ k hk => (Option.some.inj hk).symm) _ m.curTm m.pacing
  refine ⟨⟨hcur.ciphers.symm ▸ hcur, fun hp => ⟨hcount, ?_⟩⟩, hcount⟩
  rw [(checkSeningData_sends env _ _ _ m.curTm m.pacing).session] at hp
  have hplain : c.Sealed c.trace.ciphers (· = none) :=
    { h.current with sending := (h.primary hp).2 }
  refine ((hsnapshot _ _ hplain).checkSeningData nofun rfl ?_ _ m.curTm
    m.pacing).1.sending
  intro item hmem henc hcipher hadmits
  have hnone := List.any_eq_false.mp (hm (Bool.and_eq_true_iff.mpr ⟨hp, hcipher⟩)) item hmem
  exact absurd (Bool.and_eq_true_iff.mpr ⟨henc, hadmits⟩) hnone

/-- The start of a primary handshake drops what is in flight. -/
theorem checkHelloSend (env : Env) (h : c.HoldsCurrent) (hcount : c.out.tmpSendCount = 0)
    (curTm : Int) : (c.checkHelloSend env curTm).HoldsCurrent := by
  rcases checkHelloSend_cases env c curTm with hsteady | hopened
  · exact h.steady hsteady
  · have hopen : (c.openedPrimary env curTm).HoldsCurrent :=
      ⟨⟨rfl, h.current.log, h.current.batch, h.current.counted, nofun⟩,
        fun _ => ⟨hcount, nofun⟩⟩
    exact hopen.steady hopened

/-- A forced disconnect may put a sealed `SessionClose` into the batch, but leaves
no handshake open. -/
theorem doForceDisconnect (h : c.HoldsCurrent) (closeTm : Int) :
    (c.doForceDisconnect env closeTm).HoldsCurrent := by
  have hclose : (if c.announcesClose then c.sendSessionClose env closeTm else c).Sealed
      c.trace.ciphers (Under c.trace.ciphers) := by
    split
    · exact h.current.sendHItem sessionCloseItem closeTm
    · exact h.current
  unfold Client.doForceDisconnect
  simp only
  generalize (if c.announcesClose then c.sendSessionClose env closeTm else c) = c₁ at hclose ⊢
  have hsocket : c₁.closeForRebind.Sealed c.trace.ciphers (Under c.trace.ciphers) := by
    unfold closeForRebind
    split
    · exact hclose
    · exact ⟨hclose.ciphers, hclose.log.snoc nofun, hclose.batch,
        hclose.counted, hclose.sending⟩
  generalize c₁.closeForRebind = c₂ at hsocket ⊢
  rw [← hsocket.ciphers] at hsocket
  split
  · exact ⟨⟨rfl, hsocket.log, hsocket.batch, hsocket.counted, nofun⟩,
      Bool.false_ne_true.elim⟩
  · exact ⟨hsocket.congr rfl rfl rfl rfl rfl, Bool.false_ne_true.elim⟩

theorem maintain (h : c.HoldsCurrent) {m : Maintenance} (hm : TakesNoOldSliced c (.maintain m)) :
    (c.maintain env m).HoldsCurrent := by
  unfold Client.maintain transportReconnectTailTick reconnectChecks
  split
  · exact h
  obtain ⟨hsend, hcount⟩ := h.copySendAck env hm
  have hhello := hsend.checkHelloSend env hcount m.curTm
  have htimers := ((hhello.steady (checkOfflineReconnect_steady env _ m.curTm)).still
    (checkReconnectTimeout_still _ m.curTm)).still (checkDeadZone_still _ m.curTm)
  simp only
  split
  · exact htimers.doForceDisconnect m.closeTm
  · exact htimers

/-- **One step.** -/
theorem step (h : c.HoldsCurrent) (e : Event) (he : TakesNoOldSliced c e) :
    (c.step env e).HoldsCurrent := by
  cases e with
  | enqueue item => exact ⟨h.current.congr rfl rfl rfl rfl rfl, h.primary⟩
  | requestShutdown => exact h.steady (.of_session c rfl id id)
  | disconnect =>
    exact ⟨h.current.congr rfl rfl rfl rfl rfl, Bool.false_ne_true.elim⟩
  | wake bound => exact h.steady (wake_steady c bound)
  | receive d => exact h.receive d
  | maintain m => exact h.maintain he

theorem new (cfg : ClientConfig) (clientToken appToken : UInt64) :
    (Client.new cfg clientToken appToken).HoldsCurrent :=
  ⟨⟨rfl, nofun, nofun, fun _ => rfl,
    nofun⟩, Bool.false_ne_true.elim⟩

end HoldsCurrent

/-! ## Runs -/

/-- **Nothing old is sent.** In every run in which no maintenance tick takes an
encrypted Sliced message from the queue while the client waits for WhoAreYou with
the cipher of the session before, every datagram, batch and slice that was ever
sent carries ciphertext of the cipher installed when it was sent, or none. -/
theorem only_current_ciphertext_sent {cfg : ClientConfig} {clientToken appToken : UInt64}
    {events : List Event}
    (halong : Run.Along (next env) TakesNoOldSliced (Client.new cfg clientToken appToken) events)
    (hrun : Run.run (next env) (Client.new cfg clientToken appToken) events = some c) :
    CurrentOnly c.trace.log := by
  have hstep : ∀ (c : Client) e c', c.HoldsCurrent → TakesNoOldSliced c e →
      next env c e = some c' → c'.HoldsCurrent :=
    fun c e c' h he heq => Option.some.inj heq ▸ h.step e he
  exact (Run.run_invariant hstep (HoldsCurrent.new cfg clientToken appToken) halong
    hrun).current.log

end Client

namespace Sample

/-- An encrypted engine request, which is sent as a Sliced message. -/
def slicedRequest : SendItem where
  data := [1, 2, 3]
  cmd := Command.api.toByte
  encrypted := true
  priority := .sliced
  retryLeft := 3
  maxRetries := 3
  msgNum := 0
  lastSentAt := 0
  uKey := UniqueKey.none

/-- The request is enqueued under the new cipher and retried. -/
def sentRequest : List Event := [
  .wake true, .maintain (maintenance 10000), whoAreYou rnd 10010, .enqueue slicedRequest,
  .maintain (maintenance 10020), .maintain (maintenance 11000)]

/-- A server that does not know the session any more has the client start over. The request is
enqueued behind the new Hello, sent, and retried behind its WhoAreYou. -/
def retriedRequest : List Event := startedOver ++ [.enqueue slicedRequest,
  .maintain (maintenance 13025), answerFor (after startedOver) .whoAreYou 6 10 13030,
  .maintain (maintenance 14000)]

/-- The seals of the slices on the wire, each with the cipher of the moment. -/
def slices (log : List Effect) : List (List Nat × Nat) :=
  log.filterMap fun
    | .sent _ cmd _ sealedBy current =>
      if Command.fromByte cmd = .sliced then some (sealedBy, current) else none
    | _ => none

theorem slices_current {log : List Effect} (h : CurrentOnly log) {slice : List Nat × Nat}
    (hslice : slice ∈ slices log) : ∀ k ∈ slice.1, k = slice.2 := by
  obtain ⟨e, hmem, he⟩ := mem_filterMap.mp hslice
  cases e with
  | sent socket cmd payload sealedBy current =>
    simp only at he
    split at he
    · cases he
      exact h socket cmd payload sealedBy current hmem
    · cases he
  | closed | handedOver | finished | newData | lifecycle => cases he

end Sample

namespace Client

theorem only_current_ciphertext_sent_sample :
    Sample.slices (Sample.after Sample.sentRequest).trace.log = [([1], 1), ([1], 1)] ∧
    CurrentOnly (Sample.after Sample.sentRequest).trace.log :=
  ⟨by decide +kernel,
    only_current_ciphertext_sent (by decide +kernel) (Sample.run_after Sample.sentRequest)⟩

/-- **An old slice is retried**: the request was encrypted under the first cipher and
goes out once more under the second. -/
theorem old_slice_retried : Run.run (next .sample) (Client.new .sample 1 2) Sample.retriedRequest
      = some (Sample.after Sample.retriedRequest) ∧
    Sample.slices (Sample.after Sample.retriedRequest).trace.log = [([1], 1), ([1], 2)] ∧
    ¬ CurrentOnly (Sample.after Sample.retriedRequest).trace.log := by
  have hslices : Sample.slices (Sample.after Sample.retriedRequest).trace.log
      = [([1], 1), ([1], 2)] := by decide +kernel
  refine ⟨Sample.run_after _, hslices, fun h => ?_⟩
  have hold : (([1], 2) : List Nat × Nat) ∈ Sample.slices
      (Sample.after Sample.retriedRequest).trace.log := by
    rw [hslices]
    exact mem_cons_of_mem _ mem_cons_self
  exact absurd (Sample.slices_current h hold 1 mem_cons_self) (by decide)

end Client

end MoonProto
