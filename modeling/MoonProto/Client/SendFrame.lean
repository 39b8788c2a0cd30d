import MoonProto.Client.SlicedSend

/-!
# What sending leaves alone

No function of the send phase touches the handshake, the receive state or the
socket, installs a cipher or finishes a command. `Sends` says so in one relation
that is closed under composition; every sending function has one lemma here, and
later modules only use that lemma.
-/

namespace MoonProto

open List

/-- The finished commands of a log. -/
def finishedOf (log : List Effect) : List Finished :=
  log.filterMap fun
    | .finished f => some f
    | _ => none

/-- The messages of a log that were handed to `do_send_mp_data_wire`. -/
def handoversOf (log : List Effect) : List (UInt8 × Bytes) :=
  log.filterMap fun
    | .handedOver cmd data => some (cmd, data)
    | _ => none

/-- How often a log reports a restart of the server. -/
def restartsOf (log : List Effect) : Nat := log.count (.lifecycle .serverRestart)

variable (l₁ l₂ : List Effect)

@[simp] theorem restartsOf_append :
    restartsOf (l₁ ++ l₂) = restartsOf l₁ + restartsOf l₂ := count_append

@[simp] theorem finishedOf_append :
    finishedOf (l₁ ++ l₂) = finishedOf l₁ ++ finishedOf l₂ := filterMap_append

@[simp] theorem handoversOf_append :
    handoversOf (l₁ ++ l₂) = handoversOf l₁ ++ handoversOf l₂ := filterMap_append

namespace Client

def finished (c : Client) : List Finished := finishedOf c.trace.log

def restarts (c : Client) : Nat := restartsOf c.trace.log

def handovers (c : Client) : List (UInt8 × Bytes) := handoversOf c.trace.log

/-- From `c` to `c'` the client only sent: outbound data, the address cache, the
oracles and the log may differ, and the log has no new finished command and no new
restart. No ACK bitmap becomes new. -/
structure Sends (c c' : Client) : Prop where
  cfg : c'.cfg = c.cfg
  session : c'.session = c.session
  dataReadState : c'.inb.dataReadState = c.inb.dataReadState
  preAuthCrypted : c'.inb.preAuthCrypted = c.inb.preAuthCrypted
  recvSlicer : c'.inb.recvSlicer = c.inb.recvSlicer
  sendLock : c'.sendLock = c.sendLock
  socket : c'.socket = c.socket
  ciphers : c'.trace.ciphers = c.trace.ciphers
  windows : c'.trace.windows = c.trace.windows
  finished : c'.finished = c.finished
  restarts : c'.restarts = c.restarts
  noAck : c.inb.recvdSlider.hasNewData = false → c'.inb.recvdSlider.hasNewData = false

namespace Sends

theorem refl (c : Client) : Sends c c := ⟨rfl, rfl, rfl, rfl, rfl, rfl, rfl, rfl, rfl, rfl, rfl, id⟩

theorem trans {c₁ c₂ c₃ : Client} (h : Sends c₁ c₂) (h' : Sends c₂ c₃) : Sends c₁ c₃ where
  cfg := h'.cfg.trans h.cfg
  session := h'.session.trans h.session
  dataReadState := h'.dataReadState.trans h.dataReadState
  preAuthCrypted := h'.preAuthCrypted.trans h.preAuthCrypted
  recvSlicer := h'.recvSlicer.trans h.recvSlicer
  sendLock := h'.sendLock.trans h.sendLock
  socket := h'.socket.trans h.socket
  ciphers := h'.ciphers.trans h.ciphers
  windows := h'.windows.trans h.windows
  finished := h'.finished.trans h.finished
  restarts := h'.restarts.trans h.restarts
  noAck := h'.noAck ∘ h.noAck

theorem foldl {α : Type*} {f : Client → α → Client} (hf : ∀ c a, Sends c (f c a)) :
    ∀ (as : List α) (c : Client), Sends c (as.foldl f c)
  | [], c => refl c
  | a :: as, c => (hf c a).trans (foldl hf as (f c a))

theorem of_out (c : Client) (out : Outbound) : Sends c { c with out := out } :=
  ⟨rfl, rfl, rfl, rfl, rfl, rfl, rfl, rfl, rfl, rfl, rfl, id⟩

end Sends

variable (env : Env) (c : Client) (item : SendItem)

theorem serverSocketAddr_sends : Sends c (c.serverSocketAddr env).2 := by
  unfold serverSocketAddr
  split
  · exact Sends.refl c
  · exact ⟨rfl, rfl, rfl, rfl, rfl, rfl, rfl, rfl, rfl, rfl, rfl, id⟩

/-- What is recorded of a send is neither a finished command nor a restart. -/
theorem record_sends {e : Effect} (he : finishedOf [e] = [])
    (hr : restartsOf [e] = 0) : Sends c (c.record e) :=
  ⟨rfl, rfl, rfl, rfl, rfl, rfl, rfl, rfl, rfl, by simp [finished, he], by simp [restarts, hr], id⟩

theorem serverSocketAddr_out (env : Env) (c : Client) : (c.serverSocketAddr env).2.out = c.out ∧
      (c.serverSocketAddr env).2.trace.log = c.trace.log := by
  unfold serverSocketAddr
  split
  · exact ⟨rfl, rfl⟩
  · exact ⟨rfl, rfl⟩

theorem sendRawPacketCmd_out (env : Env) (c : Client) (cmd : UInt8) (payload : Bytes)
    (by' : List Nat) :
    (c.sendRawPacketCmd env cmd payload by').out = c.out := by
  obtain ⟨hout, -⟩ := serverSocketAddr_out env c
  unfold sendRawPacketCmd
  simp only
  split
  · exact hout
  split
  · exact hout
  · exact hout

theorem sendRawPacketCmd_sends (cmd : UInt8) (payload : Bytes) (by' : List Nat) :
    Sends c (c.sendRawPacketCmd env cmd payload by') := by
  have haddr := serverSocketAddr_sends env c
  unfold sendRawPacketCmd
  simp only
  split
  · exact haddr
  split
  · exact haddr
  · exact haddr.trans (record_sends _ rfl rfl)

theorem flushSendBatch_sends : Sends c (c.flushSendBatch env) := by
  unfold flushSendBatch
  split
  · exact Sends.refl c
  simp only
  refine Sends.trans ?_ (Sends.of_out _ _)
  split
  · exact sendRawPacketCmd_sends env c _ _ _
  split
  · exact sendRawPacketCmd_sends env c _ _ _
  · exact Sends.refl c

theorem doSendMpDataWire_sends (cmd : UInt8) (data : Bytes) (by' : List Nat) :
    Sends c (c.doSendMpDataWire env cmd data by') := by
  have hrec : Sends c (c.record (.handedOver cmd data)) := record_sends c rfl rfl
  unfold doSendMpDataWire
  simp only
  split
  · split
    · exact (hrec.trans (flushSendBatch_sends env _)).trans (Sends.of_out _ _)
    · exact hrec.trans (sendRawPacketCmd_sends env _ _ _ _)
  · exact hrec.trans (Sends.of_out _ _)

theorem drew_sends : Sends c c.drew :=
  ⟨rfl, rfl, rfl, rfl, rfl, rfl, rfl, rfl, rfl, rfl, rfl, id⟩

theorem msgNumFor_sends : Sends c (c.msgNumFor item).2 := by
  unfold msgNumFor
  split
  · exact Sends.refl c
  · exact Sends.of_out c _

variable (curTm : Int)

theorem sendHItem_sends : Sends c (c.sendHItem env item curTm) := by
  have hnum := msgNumFor_sends c item
  unfold sendHItem
  simp only
  split
  · split
    · exact hnum.trans (drew_sends _)
    · have hsend := fun cmd data by' =>
        (hnum.trans (drew_sends _)).trans (doSendMpDataWire_sends env _ cmd data by')
      split
      · exact (hsend _ _ _).trans (Sends.of_out _ _)
      · exact hsend _ _ _
  · exact doSendMpDataWire_sends env c _ _ _

theorem batchSendDirect_sends : Sends c (c.batchSendDirect env item) := by
  have hnum : Sends c c.nextMsgNum.2 := Sends.of_out c _
  unfold batchSendDirect
  simp only
  split
  · split
    · exact hnum.trans (drew_sends _)
    · exact (hnum.trans (drew_sends _)).trans (doSendMpDataWire_sends env _ _ _ _)
  · exact doSendMpDataWire_sends env c _ _ _

theorem createSlicedAndSend_sends : Sends c (c.createSlicedAndSend env item) := by
  have hnum := msgNumFor_sends c item
  unfold createSlicedAndSend
  simp only
  split
  · exact Sends.refl c
  split
  · split
    · exact hnum.trans (drew_sends _)
    · exact (hnum.trans (drew_sends _)).trans (Sends.of_out _ _)
  · exact Sends.of_out c _

theorem retryPendingH_sends : Sends c (c.retryPendingH env curTm) :=
  (Sends.of_out c _).trans (Sends.foldl (fun c item => sendHItem_sends env c item curTm) _ _)

theorem retrySliced_sends (pacing : Pacing) : Sends c (c.retrySliced env curTm pacing) := by
  unfold retrySliced
  split
  · exact Sends.refl c
  split
  · exact Sends.refl c
  · exact (Sends.foldl (fun c slice => (Sends.of_out c _).trans
      (sendRawPacketCmd_sends env _ _ _ _)) _ c).trans (Sends.of_out _ _)

theorem applyRegularHlAck_sends : Sends c c.applyRegularHlAck := by
  unfold applyRegularHlAck
  simp only
  split
  · exact Sends.refl c
  · exact ⟨rfl, rfl, rfl, rfl, rfl, rfl, rfl, rfl, rfl, rfl, rfl, fun _ => rfl⟩

theorem sendLowItems_sends (lItems : List SendItem) (curTm : Int) (pacing : Pacing) :
    Sends c (c.sendLowItemsAroundSlicedRetry env lItems curTm pacing) := by
  have hbatch := fun (c : Client) (item : SendItem) => batchSendDirect_sends env c item
  exact ((((Sends.foldl hbatch _ c).trans (flushSendBatch_sends env _)).trans
    (retrySliced_sends env _ curTm pacing)).trans (Sends.foldl hbatch _ _)).trans
    (flushSendBatch_sends env _)

/-- **The send phase only sends.** -/
theorem checkSeningData_sends (queues : SendQueues) (acks : List SlicedAck)
    (curTm : Int) (pacing : Pacing) : Sends c (c.checkSeningData env queues acks curTm pacing) := by
  have hsliced := Sends.foldl (fun c item => createSlicedAndSend_sends env c item) queues.sliced
  have hhigh := Sends.foldl (fun c item => sendHItem_sends env c item curTm) queues.high
  unfold checkSeningData
  simp only
  refine Sends.trans ?_ (sendLowItems_sends env _ _ _ _)
  refine Sends.trans ?_ (retryPendingH_sends env _ _)
  refine Sends.trans ?_ (hhigh _)
  refine Sends.trans ?_ (Sends.of_out _ _)
  refine Sends.trans ?_ (applyRegularHlAck_sends _)
  refine Sends.trans ?_ (Sends.of_out _ _)
  exact (Sends.of_out c _).trans (hsliced _)

end Client

end MoonProto
