import MoonProto.Client.SlicedPass
import MoonProto.Lib.Run

/-!
# Sender and receiver of sliced datagrams

Both ends of the sliced path with a network between them that loses, repeats,
delays and reorders what it is given: every block and every ACK that was ever
sent may be delivered at any later time, any number of times or never. The sender
is the list of datagrams in flight of `transport_state.rs` and
`protocol_sliced_send.rs`, the receiver is the one of `slicing.rs`, and their
clocks are independent.

The sender takes a datagram for delivered when the flags of all ACKs it got for
the number cover its blocks. The receiver forgets a datagram 9 s after its first
block, and answers for a datagram it does not know but whose slot is fresh with a
full ACK. The two agree as long as no block reaches the receiver outside the
window its datagram opened, and that is the invariant below.
-/

namespace MoonProto

open Codec Finset Function

/-! ## The system -/

/-- A datagram is known by its place in `created`, on the wire and in the sender's
list too, so that datagrams with the same number stay apart. The last five fields
are history, which no step but the bookkeeping reads. -/
structure Link where
  sending : List (SentSliced Nat)
  nextNum : UInt16
  receiver : SlicingReceiver
  /-- The blocks sent so far. -/
  blocks : List (Bytes × Nat)
  /-- The ACKs sent so far, each with the datagram whose block it answered. -/
  acks : List (Bytes × Nat)
  created : List Cut
  /-- Datagram and number of every block that was delivered. -/
  delivered : List (Nat × Nat)
  /-- Whose first block stamped the slot last, unless a cleanup did. -/
  opened : Nat → Option Nat
  /-- The messages handed up, with the datagram whose block completed them. -/
  handed : List (Nat × UInt8 × Bytes)
  /-- The datagrams that left the sender's list as fully acknowledged. -/
  confirmed : List Nat

inductive LinkEvent
  /-- Cut a message and put it in flight; it replaces one with its key. -/
  | send (pmtu : Nat) (wireCmd : UInt8) (wireData : Bytes) (maxRetries : Int) (uKey : UniqueKey)
  /-- A retry pass, which is also what sends the blocks the first time. -/
  | retry (curTm pathDelay : Int) (clientLimit : Nat)
  /-- The receiver's clock moves and a cleanup may run. -/
  | tidy (ms : Int) (cleanupOrder : List UInt16)
  | deliverBlock (i : Nat)
  | deliverAck (i : Nat) (nowMs : Int)

namespace Link

def new : Link where
  sending := []
  nextNum := 0
  receiver := SlicingReceiver.new
  blocks := []
  acks := []
  created := []
  delivered := []
  opened := fun _ => none
  handed := []
  confirmed := []

def send (l : Link) (pmtu : Nat) (wireCmd : UInt8) (wireData : Bytes) (maxRetries : Int)
    (uKey : UniqueKey) : Link :=
  if h : 0 < pmtu ∧ wireData.length + 1 ≤ 256 * pmtu then
    let sending := if uKey.isNone then l.sending else l.sending.eraseP (·.uKey == uKey)
    { l with
      sending := (SentSliced.create l.nextNum pmtu wireCmd wireData maxRetries uKey
        l.created.length).insertByBlocks sending
      nextNum := l.nextNum + 1
      created := l.created ++ [SentSliced.cut l.nextNum pmtu wireCmd wireData h.1 h.2] }
  else l

def retry (l : Link) (curTm pathDelay : Int) (clientLimit : Nat) : Link :=
  let pass := SentSliced.retryPass curTm pathDelay clientLimit l.sending 0 curTm
  { l with sending := pass.kept, blocks := l.blocks ++ pass.toSend }

def tidy (l : Link) (ms : Int) (order : List UInt16) : Link :=
  let receiver := (l.receiver.setLastOnline ms).doCleanup order
  { l with
    receiver
    opened := fun b =>
      if receiver.lastRecvdTs b = l.receiver.lastRecvdTs b then l.opened b else none }

/-- `on_new_sliced` with a block of datagram `uid`: the ACK goes out, and a message
that is complete is handed up and then removed. -/
def accept (session : UInt32) (l : Link) (payload : Bytes) (uid : Nat) : Link :=
  match SliceHeader.fromBytes payload with
  | none => l
  | some hdr =>
    let ((assembled, ack), receiver) := l.receiver.onNewSlicedWithSession payload session
    { l with
      receiver := match assembled with
        | none => receiver
        | some a => receiver.remove a.datagramNum
      acks := l.acks ++ [(ack, uid)]
      delivered := l.delivered ++ [(uid, hdr.blockNum.toNat)]
      opened := if l.receiver.isStale hdr.datagramNum
        then update l.opened (bucket hdr.datagramNum) (some uid) else l.opened
      handed := l.handed ++ (assembled.map fun a => (uid, a.cmd, a.data.view)).toList }

/-- `on_new_sliced_ack` and `apply_sliced_ack`. -/
def merge (session : UInt32) (l : Link) (ack : Bytes) (nowMs : Int) : Link :=
  match parseAckBytes ack with
  | none => l
  | some (flags, datagramNum, ackSession) =>
    if ackSession = session then
      let sending := SentSliced.applySlicedAck ⟨flags, datagramNum, ackSession⟩ nowMs l.sending
      { l with
        sending
        confirmed := l.confirmed
          ++ (l.sending.map (·.tag)).filter fun uid => uid ∉ sending.map (·.tag) }
    else l

/-- One event; none of them panics. -/
def step (session : UInt32) (l : Link) : LinkEvent → Option Link
  | .send pmtu wireCmd wireData maxRetries uKey =>
    some (l.send pmtu wireCmd wireData maxRetries uKey)
  | .retry curTm pathDelay clientLimit => some (l.retry curTm pathDelay clientLimit)
  | .tidy ms order => some (l.tidy ms order)
  | .deliverBlock i =>
    match l.blocks[i]? with
    | none => some l
    | some (payload, uid) => some (l.accept session payload uid)
  | .deliverAck i nowMs =>
    match l.acks[i]? with
    | none => some l
    | some (ack, _) => some (l.merge session ack nowMs)

/-! ## What is claimed, and when -/

/-- The messages handed up for a datagram. -/
def handedOf (l : Link) (uid : Nat) : List (Nat × UInt8 × Bytes) := l.handed.filter (·.1 == uid)

/-- **Confirmed is delivered**: for every datagram that left the sender's list as
fully acknowledged, its message was handed up, once. -/
def ConfirmedDelivered (l : Link) : Prop :=
  ∀ uid ∈ l.confirmed, ∃ m, l.created[uid]? = some m ∧ l.handedOf uid = [(uid, m.cmd, m.data)]

/-- The receiver's slot fits a block of datagram `uid`: stale for its first block,
and afterwards fresh and stamped by that first block. -/
def slotFits (l : Link) (uid : Nat) (m : Cut) : Bool :=
  if l.receiver.isStale m.num then !l.delivered.any (·.1 == uid)
  else l.opened (bucket m.num) == some uid

/-- An ACK for datagram `uid` is not merged into another one. -/
def ackFits (l : Link) (uid : Nat) (m : Cut) : Bool :=
  (l.sending.find? (·.datagramNum == m.num)).all (·.tag == uid)

/-- The condition on a step: what is delivered fits. -/
def Fits (l : Link) : LinkEvent → Bool
  | .deliverBlock i => (l.blocks[i]?).all fun packet =>
    (l.created[packet.2]?).all fun m => l.slotFits packet.2 m
  | .deliverAck i _ => (l.acks[i]?).all fun packet =>
    (l.created[packet.2]?).all fun m => l.ackFits packet.2 m
  | _ => true

/-! ## The invariant -/

/-- The numbers of the blocks of a datagram that were delivered. -/
def got (delivered : List (Nat × Nat)) (uid : Nat) (m : Cut) : Finset Nat :=
  (range m.count).filter fun j => (uid, j) ∈ delivered

/-- A datagram in flight is the message `m`, and only blocks that were delivered
are acknowledged. -/
structure Tracks (l : Link) (s : SentSliced Nat) (m : Cut) : Prop where
  created : l.created[s.tag]? = some m
  datagramNum : s.datagramNum = m.num
  slices : s.slices = m.blocks
  blocksCount : s.blocksCount = m.count
  acked : ∀ j < m.count, s.isBlockAcked j = true → (s.tag, j) ∈ l.delivered

/-- An ACK on the wire names only blocks that were delivered. -/
def Answers (session : UInt32) (l : Link) (packet : Bytes × Nat) (m : Cut) : Prop :=
  l.created[packet.2]? = some m ∧
  ∃ flags, packet.1 = buildAckBytes flags m.num session ∧
    ∀ j < m.count, ByteSet.mem flags j = true → (packet.2, j) ∈ l.delivered

structure Inv (session : UInt32) (l : Link) : Prop where
  sending : ∀ s ∈ l.sending, ∃ m, l.Tracks s m
  blocks : ∀ packet ∈ l.blocks, ∃ m, l.created[packet.2]? = some m ∧ packet.1 ∈ m.blocks
  acks : ∀ packet ∈ l.acks, ∃ m, l.Answers session packet m
  delivered : ∀ d ∈ l.delivered, d.1 < l.created.length
  handed : ∀ h ∈ l.handed, h.1 < l.created.length
  /-- A slot knows what arrived of the datagram that opened it. -/
  slots : ∀ b uid, l.opened b = some uid → ∃ m, l.created[uid]? = some m ∧ bucket m.num = b ∧
    SlicingReceiver.Entry m (got l.delivered uid m) l.receiver
  /-- A message was handed up once, exactly if all its blocks were delivered. -/
  messages : ∀ uid m, l.created[uid]? = some m → l.handedOf uid
    = if got l.delivered uid m = range m.count then [(uid, m.cmd, m.data)] else []
  confirmed : ∀ uid ∈ l.confirmed, ∃ m, l.created[uid]? = some m ∧
    got l.delivered uid m = range m.count

variable {session : UInt32} {l l' : Link}

theorem inv_new (session : UInt32) : Inv session new where
  sending _ h := nomatch h
  blocks _ h := nomatch h
  acks _ h := nomatch h
  delivered _ h := nomatch h
  handed _ h := nomatch h
  slots _ _ h := nomatch h
  messages _ _ h := nomatch h
  confirmed _ h := nomatch h

theorem Inv.confirmedDelivered (h : Inv session l) : l.ConfirmedDelivered := by
  intro uid huid
  obtain ⟨m, hm, hfull⟩ := h.confirmed uid huid
  refine ⟨m, hm, ?_⟩
  rw [h.messages uid m hm, if_pos hfull]

/-! ### Facts about the history -/

variable {delivered : List (Nat × Nat)} {s : SentSliced Nat}

theorem mem_got {uid : Nat} {m : Cut} {j : Nat} :
    j ∈ got delivered uid m ↔ j < m.count ∧ (uid, j) ∈ delivered := by
  rw [got, mem_filter, mem_range]

theorem got_eq_empty {uid : Nat}
    (h : ∀ d ∈ delivered, d.1 ≠ uid) (m : Cut) : got delivered uid m = ∅ :=
  filter_false_of_mem fun _ _ hmem => h _ hmem rfl

theorem got_snoc {uid i : Nat} {m : Cut} (hi : i < m.count) :
    got (delivered ++ [(uid, i)]) uid m = insert i (got delivered uid m) := by
  ext j
  rw [mem_got, mem_insert, mem_got, List.mem_append, List.mem_singleton]
  constructor
  · rintro ⟨hj, hmem | heq⟩
    · exact .inr ⟨hj, hmem⟩
    · exact .inl (Prod.mk.inj heq).2
  · rintro (rfl | ⟨hj, hmem⟩)
    · exact ⟨hi, .inr rfl⟩
    · exact ⟨hj, .inl hmem⟩

theorem got_snoc_of_ne {uid uid' i : Nat} (h : uid ≠ uid')
    (m : Cut) : got (delivered ++ [(uid', i)]) uid m = got delivered uid m := by
  ext j
  rw [mem_got, mem_got, List.mem_append, List.mem_singleton]
  refine and_congr_right fun _ => or_iff_left fun heq => h (Prod.mk.inj heq).1

theorem got_full_mono {delivered' : List (Nat × Nat)} {uid : Nat} {m : Cut}
    (hsub : ∀ d ∈ delivered, d ∈ delivered')
    (h : got delivered uid m = range m.count) :
    got delivered' uid m = range m.count := by
  refine filter_true_of_mem fun j hj => hsub _ ?_
  exact (mem_got.mp (h ▸ hj)).2

/-- What is known of a datagram stays known when more is created and delivered. -/
theorem Tracks.mono {m : Cut} (h : l.Tracks s m)
    (hcreated : ∀ (uid : Nat) (m : Cut), l.created[uid]? = some m → l'.created[uid]? = some m)
    (hdelivered : ∀ d ∈ l.delivered, d ∈ l'.delivered) : l'.Tracks s m :=
  ⟨hcreated _ m h.created, h.datagramNum, h.slices, h.blocksCount,
    fun j hj hacked => hdelivered _ (h.acked j hj hacked)⟩

theorem Tracks.of_same {s' : SentSliced Nat} {m : Cut} (h : l.Tracks s m)
    (hsame : SentSliced.Same s s')
    (hacked : ∀ j < m.count, s'.isBlockAcked j = true → (s.tag, j) ∈ l.delivered) :
    l.Tracks s' m :=
  ⟨hsame.tag ▸ h.created, hsame.datagramNum.trans h.datagramNum, hsame.slices.trans h.slices,
    hsame.blocksCount.trans h.blocksCount, hsame.tag ▸ hacked⟩

theorem Answers.mono {packet : Bytes × Nat} {m : Cut} (h : l.Answers session packet m)
    (hcreated : ∀ (uid : Nat) (m : Cut), l.created[uid]? = some m → l'.created[uid]? = some m)
    (hdelivered : ∀ d ∈ l.delivered, d ∈ l'.delivered) : l'.Answers session packet m := by
  obtain ⟨hm, flags, hbytes, hflags⟩ := h
  exact ⟨hcreated _ m hm, flags, hbytes, fun j hj hmem => hdelivered _ (hflags j hj hmem)⟩

/-! ### Steps of the sender -/

theorem send_inv (h : Inv session l) (pmtu : Nat) (wireCmd : UInt8) (wireData : Bytes)
    (maxRetries : Int) (uKey : UniqueKey) :
    Inv session (l.send pmtu wireCmd wireData maxRetries uKey) := by
  unfold send
  split
  · next hcut =>
    have hgrows : ∀ (uid : Nat) (m m' : Cut), l.created[uid]? = some m →
        (l.created ++ [m'])[uid]? = some m := fun uid m m' hm =>
      (List.getElem?_append_left (List.getElem?_eq_some_iff.mp hm).1).trans hm
    have hlen : ∀ {uid : Nat} (m' : Cut), uid < l.created.length →
        uid < (l.created ++ [m']).length := fun m' huid => by
      rw [List.length_append]
      exact Nat.lt_add_right _ huid
    constructor
    case sending =>
      intro s hs
      rcases SentSliced.mem_insertByBlocks.mp hs with rfl | hs
      · refine ⟨SentSliced.cut l.nextNum pmtu wireCmd wireData hcut.1 hcut.2, ?_, rfl,
          SentSliced.create_eq_cut .., (SentSliced.cut_count ..).symm, ?_⟩
        · exact List.getElem?_concat_length
        · intro j _ hacked
          exact absurd hacked (Bool.eq_false_iff.mp (ByteSet.mem_empty j))
      · have hmem : s ∈ l.sending := by
          split at hs
          · exact hs
          · exact List.mem_of_mem_eraseP hs
        obtain ⟨m, hm⟩ := h.sending s hmem
        exact ⟨m, hm.mono (fun uid m hm => hgrows uid m _ hm) fun _ hd => hd⟩
    case blocks =>
      intro packet hp
      obtain ⟨m, hm, hblock⟩ := h.blocks packet hp
      exact ⟨m, hgrows _ m _ hm, hblock⟩
    case acks =>
      intro packet hp
      obtain ⟨m, hm⟩ := h.acks packet hp
      exact ⟨m, hm.mono (fun uid m hm => hgrows uid m _ hm) fun _ hd => hd⟩
    case delivered => exact fun d hd => hlen _ (h.delivered d hd)
    case handed => exact fun d hd => hlen _ (h.handed d hd)
    case slots =>
      intro b uid hopened
      obtain ⟨m, hm, hslot⟩ := h.slots b uid hopened
      exact ⟨m, hgrows uid m _ hm, hslot⟩
    case messages =>
      intro uid m hm
      by_cases huid : uid < l.created.length
      · exact h.messages uid m ((List.getElem?_append_left huid).symm.trans hm)
      · -- the new datagram
        have hnew : ∀ d ∈ l.delivered, d.1 ≠ uid := fun d hd heq =>
          huid (heq ▸ h.delivered d hd)
        simp only [got_eq_empty hnew, if_neg m.empty_ne_range]
        refine List.filter_eq_nil_iff.mpr fun d hd heq => ?_
        exact huid (beq_iff_eq.mp heq ▸ h.handed d hd)
    case confirmed =>
      intro uid huid
      obtain ⟨m, hm, hfull⟩ := h.confirmed uid huid
      exact ⟨m, hgrows uid m _ hm, hfull⟩
  · exact h

theorem retry_inv (h : Inv session l) (curTm pathDelay : Int) (clientLimit : Nat) :
    Inv session (l.retry curTm pathDelay clientLimit) := by
  obtain ⟨hkept, hsent⟩ :=
    SentSliced.retryPass_spec curTm pathDelay clientLimit l.sending 0 curTm
  unfold retry
  refine { h with sending := ?_, blocks := ?_ }
  · intro d hd
    obtain ⟨s, hs, hsame, hflags⟩ := hkept d hd
    obtain ⟨m, hm⟩ := h.sending s hs
    refine ⟨m, (hm.of_same hsame ?_).mono (fun _ _ h => h) fun _ h => h⟩
    intro j hj hacked
    rw [SentSliced.isBlockAcked, hflags] at hacked
    exact hm.acked j hj hacked
  · intro packet hp
    rcases List.mem_append.mp hp with hp | hp
    · exact h.blocks packet hp
    · obtain ⟨s, hs, hslice, htag⟩ := hsent packet hp
      obtain ⟨m, hm⟩ := h.sending s hs
      exact ⟨m, htag ▸ hm.created, hm.slices ▸ hslice⟩

/-- The clock of the receiver and its cleanup: a slot whose stamp stays keeps its
entry. -/
theorem tidy_inv (h : Inv session l) (ms : Int) (order : List UInt16) :
    Inv session (l.tidy ms order) := by
  unfold tidy
  refine { h with sending := ?_, acks := ?_, slots := ?_ }
  · intro s hs
    obtain ⟨m, hm⟩ := h.sending s hs
    exact ⟨m, hm.mono (fun _ _ h => h) fun _ h => h⟩
  · exact h.acks
  · intro b uid hopened
    simp only at hopened
    split at hopened
    · next hts =>
      obtain ⟨m, hm, rfl, hentry⟩ := h.slots b uid hopened
      refine ⟨m, hm, rfl, hentry.of_receiving ?_⟩
      obtain ⟨-, hkeeps | ⟨hstale, hstamp⟩⟩ :=
        SlicingReceiver.doCleanup_slot (l.receiver.setLastOnline ms) order m.num
      · exact hkeeps.receiving
      · -- a stale slot that is stamped gets another stamp than it had
        have hfresh : (l.receiver.setLastOnline ms).isStale m.num = false :=
          SlicingReceiver.isStale_of_stamped (hts.symm.trans hstamp)
        exact absurd hstale (Bool.eq_false_iff.mp hfresh)
    · cases hopened

/-! ### Delivery of a block -/

/-- The slot fits, so the block meets the receiver in order. -/
theorem Inv.meets (h : Inv session l) {uid : Nat} {m : Cut} (hm : l.created[uid]? = some m)
    (hfits : l.slotFits uid m = true) :
    SlicingReceiver.Meets m (got l.delivered uid m) l.receiver := by
  unfold slotFits at hfits
  split at hfits
  · next hstale =>
    refine .first hstale (got_eq_empty ?_ m)
    intro d hd heq
    rw [Bool.not_eq_true', List.any_eq_false] at hfits
    exact hfits d hd (beq_iff_eq.mpr heq)
  · next hstale =>
    obtain ⟨m', hm', -, hentry⟩ := h.slots _ uid (beq_iff_eq.mp hfits)
    obtain rfl : m' = m := Option.some.inj (hm'.symm.trans hm)
    exact .later (Bool.eq_false_iff.mpr hstale) hentry

theorem opened_accept {uid : Nat} {m : Cut} (hfits : l.slotFits uid m = true) :
    (if l.receiver.isStale m.num then update l.opened (bucket m.num) (some uid)
      else l.opened) = update l.opened (bucket m.num) (some uid) := by
  unfold slotFits at hfits
  split at hfits
  · next hstale => rw [if_pos hstale]
  · next hstale =>
    rw [if_neg hstale, ← beq_iff_eq.mp hfits, update_eq_self]

/-- The receiver behind a block, with a completed message removed. -/
def afterBlock (out : (Option Assembled × Bytes) × SlicingReceiver) : SlicingReceiver :=
  match out.1.1 with
  | none => out.2
  | some a => out.2.remove a.datagramNum

theorem accept_block (l : Link) (m : Cut) {i : Nat} (hi : i < m.count) (uid : Nat)
    (hfits : l.slotFits uid m = true) :
    l.accept session (m.block i) uid =
      let out := l.receiver.onNewSlicedWithSession (m.block i) session
      { l with
        receiver := afterBlock out
        acks := l.acks ++ [(out.1.2, uid)]
        delivered := l.delivered ++ [(uid, i)]
        opened := update l.opened (bucket m.num) (some uid)
        handed := l.handed ++ (out.1.1.map fun a => (uid, a.cmd, a.data.view)).toList } := by
  have hopened := opened_accept hfits
  have hnum : (m.header i).blockNum.toNat = i := Cut.blockNum_toNat hi
  unfold accept
  rw [Cut.fromBytes_block]
  simp only [hnum, afterBlock]
  exact congrArg (fun o => Link.mk _ _ _ _ _ _ _ o _ _) hopened

section Accept

variable {m : Cut} {uid i : Nat} {S : Finset Nat}
  {out : (Option Assembled × Bytes) × SlicingReceiver}

theorem afterBlock_others (h : SlicingReceiver.Takes m S i session l.receiver out) {n : UInt16}
    (hn : n ≠ m.num) : (afterBlock out).receiving n = l.receiver.receiving n := by
  have hout := h.assembled
  unfold afterBlock
  split at hout
  · obtain ⟨a, ha, hof⟩ := hout
    rw [ha]
    show update out.2.receiving a.datagramNum none n = _
    rw [hof.datagramNum, update_of_ne hn]
    exact h.others n hn
  · rw [hout]
    exact h.others n hn

theorem afterBlock_entry (h : SlicingReceiver.Takes m S i session l.receiver out) :
    SlicingReceiver.Entry m (insert i S) (afterBlock out) := by
  have hout := h.assembled
  unfold afterBlock
  split at hout
  · next hlast =>
    obtain ⟨a, ha, hof⟩ := hout
    rw [ha]
    refine .wholly hlast.1 fun s hs => ?_
    have hnone : (out.2.remove a.datagramNum).receiving m.num = none := by
      rw [← hof.datagramNum]
      exact update_self ..
    cases hnone.symm.trans hs
  · rw [hout]
    exact h.entry

/-- What is handed up for the datagram with the block: its message, if the block is
the last one. -/
theorem handed_block (h : SlicingReceiver.Takes m S i session l.receiver out) (hi : i < m.count)
    (hbefore : l.handedOf uid = if S = range m.count then [(uid, m.cmd, m.data)] else []) :
    (l.handed ++ (out.1.1.map fun a => (uid, a.cmd, a.data.view)).toList).filter (·.1 == uid)
      = if insert i S = range m.count then [(uid, m.cmd, m.data)] else [] := by
  have hout := h.assembled
  rw [List.filter_append]
  change l.handedOf uid ++ _ = _
  rw [hbefore]
  by_cases hS : S = range m.count
  · have hfull : insert i S = range m.count := by
      rw [hS]
      exact insert_eq_of_mem (mem_range.mpr hi)
    rw [if_neg fun hc => hc.2 hS] at hout
    rw [if_pos hS, if_pos hfull, hout]
    rfl
  · rw [if_neg hS]
    by_cases hlast : insert i S = range m.count
    · rw [if_pos ⟨hlast, hS⟩] at hout
      obtain ⟨a, ha, hof⟩ := hout
      rw [if_pos hlast, ha, ← hof.cmd, ← hof.data]
      refine (List.nil_append _).trans (List.filter_cons_of_pos ?_)
      exact beq_self_eq_true uid
    · rw [if_neg fun hc => hlast hc.1] at hout
      rw [if_neg hlast, hout]
      rfl

theorem handed_block_of_ne {uid' : Nat} (h : uid' ≠ uid) (assembled : Option Assembled) :
    (l.handed ++ (assembled.map fun a => (uid, a.cmd, a.data.view)).toList).filter (·.1 == uid')
      = l.handedOf uid' := by
  rw [List.filter_append]
  refine (congrArg _ ?_).trans (List.append_nil _)
  cases assembled with
  | none => rfl
  | some a => exact List.filter_cons_of_neg fun heq => h (beq_iff_eq.mp heq).symm

/-- **A block** that fits is collected, and completes its message at most once. -/
theorem accept_inv (h : Inv session l) (hm : l.created[uid]? = some m) (hi : i < m.count)
    (hfits : l.slotFits uid m = true) : Inv session (l.accept session (m.block i) uid) := by
  have htakes := SlicingReceiver.onNewSliced_takes (h.meets hm hfits) hi session
  have hmore : ∀ d ∈ l.delivered, d ∈ l.delivered ++ [(uid, i)] := fun d hd =>
    List.mem_append_left _ hd
  have hpast : uid < l.created.length := (List.getElem?_eq_some_iff.mp hm).1
  rw [accept_block l m hi uid hfits]
  constructor
  case sending =>
    intro s hs
    obtain ⟨m', hm'⟩ := h.sending s hs
    exact ⟨m', hm'.mono (fun _ _ h => h) hmore⟩
  case blocks => exact h.blocks
  case acks =>
    intro packet hp
    rcases List.mem_append.mp hp with hp | hp
    · obtain ⟨m', hm'⟩ := h.acks packet hp
      exact ⟨m', hm'.mono (fun _ _ h => h) hmore⟩
    · obtain ⟨flags, hbytes, hflags⟩ := htakes.ack
      rw [List.mem_singleton.mp hp]
      refine ⟨m, hm, flags, hbytes, fun j hj hmem => ?_⟩
      have hgot := hflags j hj hmem
      rw [← got_snoc hi] at hgot
      exact (mem_got.mp hgot).2
  case delivered =>
    intro d hd
    rcases List.mem_append.mp hd with hd | hd
    · exact h.delivered d hd
    · rw [List.mem_singleton.mp hd]
      exact hpast
  case handed =>
    intro d hd
    rcases List.mem_append.mp hd with hd | hd
    · exact h.handed d hd
    · obtain ⟨a, -, rfl⟩ := Option.map_eq_some_iff.mp (Option.mem_toList.mp hd)
      exact hpast
  case slots =>
    intro b uid' hopened
    simp only at hopened
    by_cases hb : b = bucket m.num
    · rw [hb, update_self] at hopened
      cases hopened
      refine ⟨m, hm, hb.symm, ?_⟩
      simp only [got_snoc hi]
      exact afterBlock_entry htakes
    · rw [update_of_ne hb] at hopened
      obtain ⟨m', hm', hbucket, hentry⟩ := h.slots b uid' hopened
      -- another bucket, so another datagram under another number
      have huid : uid' ≠ uid := by
        rintro rfl
        cases hm'.symm.trans hm
        exact hb hbucket.symm
      have hnum : m'.num ≠ m.num := fun heq => hb (hbucket.symm.trans (congrArg bucket heq))
      refine ⟨m', hm', hbucket, ?_⟩
      simp only [got_snoc_of_ne huid]
      exact hentry.of_receiving (afterBlock_others htakes hnum)
  case messages =>
    intro uid' m' hm'
    by_cases huid : uid' = uid
    · subst huid
      cases hm'.symm.trans hm
      simp only [got_snoc hi]
      exact handed_block htakes hi (h.messages _ m hm)
    · simp only [got_snoc_of_ne huid]
      exact (handed_block_of_ne huid _).trans (h.messages uid' m' hm')
  case confirmed =>
    intro uid' huid'
    obtain ⟨m', hm', hfull⟩ := h.confirmed uid' huid'
    exact ⟨m', hm', got_full_mono hmore hfull⟩

end Accept

/-! ### Delivery of an ACK -/

theorem filter_tags_removed {before after : List (SentSliced Nat)} {uid : Nat}
    (h : uid ∈ ((before ++ s :: after).map (·.tag)).filter
      fun uid => uid ∉ (before ++ after).map (·.tag)) : uid = s.tag := by
  obtain ⟨hmem, hout⟩ := List.mem_filter.mp h
  rw [List.map_append, List.map_cons, List.mem_append, List.mem_cons] at hmem
  have hnot := of_decide_eq_true hout
  rw [List.map_append, List.mem_append, not_or] at hnot
  rcases hmem with hbefore | htag | hafter
  · exact absurd hbefore hnot.1
  · exact htag
  · exact absurd hafter hnot.2

theorem filter_tags_same (tags : List Nat) : tags.filter (fun uid => uid ∉ tags) = [] :=
  List.filter_eq_nil_iff.mpr fun _ hmem hnot => of_decide_eq_true hnot hmem

section Merge

variable {m : Cut} {uid : Nat} {flags : Vector UInt8 32}

/-- The flags behind the ACK still name only blocks that were delivered. -/
theorem union_delivered {s : SentSliced Nat} (hs : l.Tracks s m) (htag : s.tag = uid)
    (hflags : ∀ j < m.count, ByteSet.mem flags j = true → (uid, j) ∈ l.delivered) {j : Nat}
    (hj : j < m.count) (hmem : ByteSet.mem (ByteSet.union s.ackFlags flags) j = true) :
    (s.tag, j) ∈ l.delivered := by
  rw [ByteSet.mem_union] at hmem
  rcases hmem with hmem | hmem
  · exact hs.acked j hj hmem
  · exact htag ▸ hflags j hj hmem

/-- **An ACK** that fits confirms a datagram only if all its blocks were
delivered. -/
theorem merge_inv (h : Inv session l) {ack : Bytes} (hanswers : l.Answers session (ack, uid) m)
    (hfits : l.ackFits uid m = true) (nowMs : Int) : Inv session (l.merge session ack nowMs) := by
  obtain ⟨hm, flags, rfl, hflags⟩ := hanswers
  unfold merge
  rw [parseAckBytes_buildAckBytes]
  simp only [if_true]
  rcases SentSliced.applySlicedAck_eq (⟨flags, m.num, session⟩ : SlicedAck) nowMs l.sending with
    ⟨-, hsame⟩ | ⟨before, s, after, hsplit, hfound, hr⟩
  · rw [hsame, filter_tags_same, List.append_nil]
    exact h
  · rw [hr]
    have htag : s.tag = uid := by
      rw [ackFits, hfound] at hfits
      exact beq_iff_eq.mp hfits
    have hmem : s ∈ l.sending := hsplit ▸ List.mem_append_right _ List.mem_cons_self
    have hs : l.Tracks s m := by
      obtain ⟨m', hm'⟩ := h.sending s hmem
      have heq : m' = m := Option.some.inj (hm'.created.symm.trans (htag ▸ hm))
      exact heq ▸ hm'
    have hothers : ∀ d, d ∈ before ∨ d ∈ after → ∃ m, l.Tracks d m := by
      intro d hd
      refine h.sending d (hsplit ▸ List.mem_append.mpr ?_)
      exact hd.imp_right (List.mem_cons_of_mem s)
    rcases SentSliced.acked_cases s _ nowMs with ⟨hleft, hfull⟩ | ⟨s', hstays, hsame, -, hunion⟩
    · -- the datagram leaves the list
      rw [hleft, Option.toList_none, List.nil_append]
      refine { h with sending := ?_, acks := h.acks, confirmed := ?_ }
      · intro d hd
        obtain ⟨m', hm'⟩ := hothers d (List.mem_append.mp hd)
        exact ⟨m', hm'.mono (fun _ _ h => h) fun _ h => h⟩
      · intro uid' huid'
        rcases List.mem_append.mp huid' with hold | hnew
        · exact h.confirmed uid' hold
        · rw [hsplit] at hnew
          obtain rfl := filter_tags_removed hnew
          refine ⟨m, hs.created, filter_true_of_mem fun j hj => ?_⟩
          have hlt := mem_range.mp hj
          refine union_delivered hs htag hflags hlt ?_
          refine List.all_eq_true.mp hfull j (List.mem_range.mpr ?_)
          exact hs.blocksCount.symm ▸ hlt
    · -- it stays, with the flags of both
      have htags : (l.sending.map (·.tag)) = (before ++ s' :: after).map (·.tag) := by
        rw [hsplit, List.map_append, List.map_append, List.map_cons, List.map_cons, hsame.tag]
      rw [hstays, Option.toList_some, List.singleton_append, htags, filter_tags_same,
        List.append_nil]
      refine { h with sending := ?_, acks := h.acks }
      intro d hd
      rcases List.mem_append.mp hd with hd | hd
      · obtain ⟨m', hm'⟩ := hothers d (.inl hd)
        exact ⟨m', hm'.mono (fun _ _ h => h) fun _ h => h⟩
      · rcases List.mem_cons.mp hd with rfl | hd
        · refine ⟨m, (hs.of_same hsame fun j hj hacked => ?_).mono (fun _ _ h => h) fun _ h => h⟩
          rw [SentSliced.isBlockAcked, hunion] at hacked
          exact union_delivered hs htag hflags hj hacked
        · obtain ⟨m', hm'⟩ := hothers d (.inr hd)
          exact ⟨m', hm'.mono (fun _ _ h => h) fun _ h => h⟩

end Merge

/-! ## Runs -/

/-- **One step** that fits does not panic and keeps the invariant. -/
theorem step_inv (h : Inv session l) {e : LinkEvent} (hfits : l.Fits e = true) :
    ∃ l', l.step session e = some l' ∧ Inv session l' := by
  cases e with
  | send pmtu wireCmd wireData maxRetries uKey =>
    exact ⟨_, rfl, send_inv h pmtu wireCmd wireData maxRetries uKey⟩
  | retry curTm pathDelay clientLimit => exact ⟨_, rfl, retry_inv h curTm pathDelay clientLimit⟩
  | tidy ms order => exact ⟨_, rfl, tidy_inv h ms order⟩
  | deliverBlock i =>
    cases hpacket : l.blocks[i]? with
    | none =>
      refine ⟨l, ?_, h⟩
      simp only [step, hpacket]
    | some packet =>
      obtain ⟨m, hm, hblock⟩ := h.blocks packet (List.mem_of_getElem? hpacket)
      obtain ⟨k, hk, heq⟩ := Cut.mem_blocks.mp hblock
      have hslot : l.slotFits packet.2 m = true := by
        simpa only [Fits, hpacket, hm, Option.all_some] using hfits
      refine ⟨l.accept session (m.block k) packet.2, ?_, accept_inv h hm hk hslot⟩
      simp only [step, hpacket, heq]
  | deliverAck i nowMs =>
    cases hpacket : l.acks[i]? with
    | none =>
      refine ⟨l, ?_, h⟩
      simp only [step, hpacket]
    | some packet =>
      obtain ⟨m, hanswers⟩ := h.acks packet (List.mem_of_getElem? hpacket)
      have hack : l.ackFits packet.2 m = true := by
        simpa only [Fits, hpacket, hanswers.1, Option.all_some] using hfits
      refine ⟨l.merge session packet.1 nowMs, ?_, merge_inv h hanswers hack nowMs⟩
      simp only [step, hpacket]

/-- **A fully acknowledged datagram was delivered**, in every run in which blocks
arrive inside the window that their datagram opened and ACKs are merged into the
datagram they answer: for each datagram that left the sender's list as fully
acknowledged, the message was handed up exactly once. -/
theorem confirmed_datagrams_delivered (session : UInt32) {events : List LinkEvent}
    (hfits : Run.Along (step session) (fun l e => l.Fits e = true) new events) :
    ∃ l, Run.run (step session) new events = some l ∧ l.ConfirmedDelivered := by
  obtain ⟨l, hrun, hinv⟩ := Run.run_total (fun _ _ h hfits => step_inv h hfits)
    (inv_new session) hfits
  exact ⟨l, hrun, hinv.confirmedDelivered⟩

/-- A message of two blocks at the initial path MTU. The second block arrives first,
and once more when the message is complete; the ACKs confirm it. -/
def reorderedRun : List LinkEvent :=
  [.send 489 1 (List.replicate 500 7) 100 UniqueKey.none, .retry 10000 100 100000, .tidy 10000 [],
    .deliverBlock 1, .deliverAck 0 10000, .deliverBlock 0, .deliverBlock 1, .deliverAck 1 10100]

theorem confirmed_datagrams_delivered_reordered :
    ((Run.run (step 5) new reorderedRun).map fun l => (l.confirmed, l.handed))
        = some ([0], [(0, 1, List.replicate 500 7)]) ∧
      ∃ l, Run.run (step 5) new reorderedRun = some l ∧ l.ConfirmedDelivered :=
  ⟨by decide +kernel, confirmed_datagrams_delivered 5 (by decide +kernel)⟩

/-- The second block comes 10 s after the first one, behind a cleanup that removes
the unfinished datagram and stamps its slot anew. The receiver takes the block for
a copy of a finished datagram and answers with a full ACK. -/
def lateBlockRun : List LinkEvent :=
  [.send 489 1 (List.replicate 500 7) 100 UniqueKey.none, .retry 10000 100 100000, .tidy 10000 [],
    .deliverBlock 0, .tidy 20000 [0], .deliverBlock 1, .deliverAck 1 20000]

/-- The second block comes 9.5 s after the first one, with no cleanup in between
that finds the slot stale. The receiver starts the datagram over with it, and the
sender puts the two ACKs together. -/
def rebuiltRun : List LinkEvent :=
  [.send 489 1 (List.replicate 500 7) 100 UniqueKey.none, .retry 10000 100 100000, .tidy 10000 [],
    .deliverBlock 0, .tidy 15500 [0], .tidy 19500 [0], .deliverBlock 1, .deliverAck 0 19500,
    .deliverAck 1 19500]

theorem not_confirmedDelivered {events : List LinkEvent}
    (h : ((Run.run (step session) new events).map fun l => (l.confirmed, l.handed))
      = some ([0], [])) :
    ∃ l, Run.run (step session) new events = some l ∧ ¬ l.ConfirmedDelivered := by
  obtain ⟨l, hl, hfields⟩ := Option.map_eq_some_iff.mp h
  obtain ⟨hconfirmed, hhanded⟩ := Prod.mk.inj hfields
  refine ⟨l, hl, fun hdelivered => ?_⟩
  obtain ⟨m, -, hof⟩ := hdelivered 0 (hconfirmed ▸ List.mem_singleton_self 0)
  rw [handedOf, hhanded] at hof
  cases hof

/-- **Confirmed without delivery**: the sender drops the datagram as fully
acknowledged, and nothing was handed up. -/
theorem late_blocks_confirm_undelivered :
    (∃ l, Run.run (step 5) new lateBlockRun = some l ∧ ¬ l.ConfirmedDelivered) ∧
    ∃ l, Run.run (step 5) new rebuiltRun = some l ∧ ¬ l.ConfirmedDelivered :=
  ⟨not_confirmedDelivered (by decide +kernel), not_confirmedDelivered (by decide +kernel)⟩

end Link

end MoonProto
