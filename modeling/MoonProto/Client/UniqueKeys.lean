import MoonProto.Client.LedgerPhases
import MoonProto.Client.SessionSafety

/-!
# Latest wins

An item with a deduplication key replaces the older item with its key: in the
queue when it is enqueued, among the pending High items or the datagrams in
flight when the send phase takes it. Each of these steps removes the first match
only. The ledger runs two senders in the sense of `LatestWins`, one for the High
items and one for the Sliced items, and a tick of the writer is a tick of both.

There is one condition. The source reads message number 0 as "not sent yet", and
the number is drawn from a 64-bit counter that starts at 2048. A wrap of the
counter would give 0 to a pending copy, and its retry would be taken for a first
send.
-/

namespace MoonProto

open Codec LatestWins List Option Bool SendItem

namespace Stamped

/-! ## The tick -/

/-- What the cleanup for the High items of a snapshot leaves. -/
def cleanedH (high pending : List (Nat × SendItem)) : List (Nat × SendItem) :=
  dropKeys (dedupKey ∘ Prod.snd) (high.map (dedupKey ∘ Prod.snd)) pending

/-- What the cleanup for the Sliced items of a snapshot leaves. -/
def cleanedSliced (sliced : List (Nat × SendItem))
    (sending : List (SentSliced (Option Nat × Mark UniqueKey))) :
    List (SentSliced (Option Nat × Mark UniqueKey)) :=
  dropKeys SentSliced.dedupKey (sliced.map (dedupKey ∘ Prod.snd)) sending

/-- **The first half of a tick**: cleanup, new datagrams, ACKs. -/
theorem slicedPhase (env : Env) (t : Stamped) (sliced : List (Nat × SendItem))
    (acks : List SlicedAck) (curTm : Int) (htag : t.Tagged) :
    ∃ t', t' = ((sliced.foldl (fun t x => t.createSlicedAndSend env x)
        (t.applySlicedSendUKeyCleanup sliced)).applyCopyAcks acks curTm).applyRegularHlAck ∧
      t'.ledger.pendingH.Sublist t.ledger.pendingH ∧
      t'.ledger.highEntries = t.ledger.highEntries ∧
      t'.ledger.slicedLog = t.ledger.slicedLog ∧ t'.Tagged ∧
      (t'.ledger.sending.map (·.tag.2)).Subperm
        ((cleanedSliced sliced t.ledger.sending).map (·.tag.2) ++ sliced.map markOf) ∧
      Draws sliced.length t t' := by
  refine ⟨_, rfl, ?_⟩
  obtain ⟨hhigh, hlog, hperm, htag₁, hcount⟩ := createAll env sliced
    (t.applySlicedSendUKeyCleanup sliced)
  replace htag₁ := htag₁ fun s hs => htag s ((dropKeys_sublist _ _).subset hs)
  generalize sliced.foldl (fun t x => t.createSlicedAndSend env x)
    (t.applySlicedSendUKeyCleanup sliced) = t₁ at *
  obtain ⟨htag₂, hsub⟩ := tagged_of_ident htag₁ (applyCopyAcks_sending t₁ acks curTm)
  obtain ⟨hsame, hentries, hpending, hcounter⟩ :=
    applyRegularHlAck_same (t₁.applyCopyAcks acks curTm)
  refine ⟨?_, ?_, ?_, ?_, ?_, ?_⟩
  · rw [← show t₁.ledger.pendingH = t.ledger.pendingH from hhigh.pendingH]
    exact hpending
  · exact hentries.trans hhigh.entries
  · exact hsame.log.trans hlog
  · unfold Tagged
    rw [hsame.sending]
    exact htag₂
  · rw [hsame.sending]
    exact hsub.subperm.trans hperm
  · have hclean : Draws 0 t (t.applySlicedSendUKeyCleanup sliced) := .of_eq rfl
    have hall := (hclean.trans hcount).trans (.of_eq (n := 0) hcounter)
    rwa [Nat.zero_add, Nat.add_zero] at hall

/-- **The second half of a tick**: cleanup, first sends, retries of the High items. -/
theorem highPhase (env : Env) (t : Stamped) (high : List (Nat × SendItem)) (curTm : Int)
    (hnum : ∀ x ∈ t.ledger.pendingH, x.2.msgNum ≠ 0) (hbound : t.counter + high.length < 2 ^ 64) :
    ∃ t', t' = ((t.applyHighSendUKeyCleanup high).sendHItems env high curTm).retryPendingH env
        curTm ∧
      SameSliced t t' ∧ (∀ x ∈ t'.ledger.pendingH, x.2.msgNum ≠ 0) ∧
      t'.counter ≤ t.counter + high.length ∧ ∃ firsts held repeats,
        t'.ledger.highLog = t.ledger.highLog ++ firsts ++ repeats ∧
        firsts.Sublist (high.map markOf) ∧
        held.Sublist ((cleanedH high t.ledger.pendingH).map markOf ++ high.map markOf) ∧
        repeats.Sublist held ∧ (t'.ledger.pendingH.map markOf).Sublist held := by
  refine ⟨_, rfl, ?_⟩
  obtain ⟨hsame₁, kept, firsts, hpend, hlog, hkept, hfirsts, hcount, -, hnew⟩ :=
    sendHItems_marks env curTm high (t.applyHighSendUKeyCleanup high)
  have hnum₁ : ∀ x ∈ ((t.applyHighSendUKeyCleanup high).sendHItems env high curTm).ledger.pendingH,
      x.2.msgNum ≠ 0 := by
    intro x hx
    rw [hpend] at hx
    rcases mem_append.mp hx with hx | hx
    · exact hnum x ((dropKeys_sublist _ _).subset hx)
    · exact hnew hbound x hx
  obtain ⟨hsame₂, hrest, hnum₂, ⟨repeats, hlog₂, hrep⟩, hcount₂⟩ := retryPendingH_marks env
    ((t.applyHighSendUKeyCleanup high).sendHItems env high curTm) curTm hnum₁
  have hsame₀ : SameSliced t (t.applyHighSendUKeyCleanup high) := ⟨rfl, rfl⟩
  refine ⟨(hsame₀.trans hsame₁).trans hsame₂, hnum₂, ?_, firsts, _, repeats, ?_, hfirsts, ?_, hrep,
    hrest⟩
  · rw [hcount₂]
    exact hcount
  · rw [hlog₂, hlog]
    rfl
  · rw [hpend, map_append]
    exact (Sublist.refl _).append hkept

theorem high_disjoint {high pending : List (Nat × SendItem)} (h : Unique (pending.map markOf)) :
    ∀ m ∈ (cleanedH high pending).map markOf, ∀ w ∈ high.map markOf, ∀ k, m.key = some k →
      w.key ≠ some k := by
  intro m hm w hw k hmk hwk
  obtain ⟨x, hx, rfl⟩ := List.mem_map.mp hm
  obtain ⟨y, hy, rfl⟩ := List.mem_map.mp hw
  have hnodup : (pending.filterMap (dedupKey ∘ Prod.snd)).Nodup := by
    unfold LatestWins.Unique at h
    rwa [filterMap_map] at h
  exact key_ne_of_mem_dropKeys hnodup (List.mem_map.mpr ⟨y, hy, hwk⟩) hx hmk

theorem sliced_disjoint {sliced : List (Nat × SendItem)}
    {sending : List (SentSliced (Option Nat × Mark UniqueKey))}
    (htag : ∀ s ∈ sending, s.tag.2.key = s.dedupKey) (h : Unique (sending.map (·.tag.2))) :
    ∀ m ∈ (cleanedSliced sliced sending).map (·.tag.2), ∀ w ∈ sliced.map markOf, ∀ k,
      m.key = some k → w.key ≠ some k := by
  intro m hm w hw k hmk hwk
  obtain ⟨s, hs, rfl⟩ := List.mem_map.mp hm
  obtain ⟨y, hy, rfl⟩ := List.mem_map.mp hw
  have hnodup : (sending.filterMap SentSliced.dedupKey).Nodup := by
    unfold LatestWins.Unique at h
    rw [filterMap_map] at h
    exact (filterMap_congr htag) ▸ h
  rw [htag s ((dropKeys_sublist _ _).subset hs)] at hmk
  exact key_ne_of_mem_dropKeys hnodup (List.mem_map.mpr ⟨y, hy, hwk⟩) hs hmk

/-- How many numbers the next tick may draw. -/
def queued (t : Stamped) : Nat :=
  t.ledger.sliced.length + t.ledger.high.length + t.client.sendLock.sendQueues.low.length

/-- What holds between any two steps. -/
structure Disciplined (t : Stamped) : Prop where
  high : t.ledger.highSender.Inv t.ledger.born.length
  sliced : t.ledger.slicedSender.Inv t.ledger.born.length
  tagged : t.Tagged
  numbered : ∀ x ∈ t.ledger.pendingH, x.2.msgNum ≠ 0
  queued : t.queued ≤ t.ledger.born.length
  -- every queued item may still draw a number
  counter : t.counter + t.queued ≤ 2047 + t.ledger.born.length

theorem Disciplined.checkSeningData {t : Stamped} {sliced high : List (Nat × SendItem)}
    {low : List SendItem} {next : Nat} (env : Env) (acks : List SlicedAck) (curTm : Int)
    (pacing : Pacing)
    (hhigh : Sender.Inv next ⟨high.map markOf, t.ledger.pendingH.map markOf, t.ledger.highLog⟩)
    (hsliced : Sender.Inv next
      ⟨sliced.map markOf, t.ledger.sending.map (·.tag.2), t.ledger.slicedLog⟩)
    (htag : t.Tagged) (hnum : ∀ x ∈ t.ledger.pendingH, x.2.msgNum ≠ 0)
    (hbound : t.counter + (sliced.length + high.length + low.length) < 2 ^ 64) :
    ∃ t', t' = t.checkSeningData env sliced high low acks curTm pacing ∧
      Sender.Inv next ⟨[], t'.ledger.pendingH.map markOf, t'.ledger.highLog⟩ ∧
      Sender.Inv next ⟨[], t'.ledger.sending.map (·.tag.2), t'.ledger.slicedLog⟩ ∧
      t'.Tagged ∧ (∀ x ∈ t'.ledger.pendingH, x.2.msgNum ≠ 0) ∧
      t'.counter ≤ t.counter + (sliced.length + high.length + low.length) := by
  obtain ⟨t₁, ht₁, hpend₁, hentries₁, hslog₁, htag₁, hsend₁, hcount₁⟩ :=
    slicedPhase env t sliced acks curTm htag
  obtain ⟨t₂, ht₂, hsame₂, hnum₂, hcount₂, firsts, held, repeats, hhlog₂, hfirsts, hheld, hrep,
    hrest⟩ := highPhase env t₁ high curTm (fun x hx => hnum x (hpend₁.subset hx))
      (by have := hcount₁.le; omega)
  obtain ⟨hhigh₃, hident, ⟨slices, hslog₃, hslices⟩, hcount₃⟩ :=
    sendLowItems_marks env t₂ low curTm pacing
  have hdef : t.checkSeningData env sliced high low acks curTm pacing
      = t₂.sendLowItemsAroundSlicedRetry env low curTm pacing := by
    rw [ht₂, ht₁]
    rfl
  rw [← hdef] at hhigh₃ hident hslog₃ hcount₃
  have htag₂ : t₂.Tagged := fun s hs => htag₁ s (hsame₂.sending ▸ hs)
  obtain ⟨htag₃, hkept⟩ := tagged_of_ident htag₂ hident
  rw [hsame₂.sending] at hslices hkept
  have hhlog₁ : t₁.ledger.highLog = t.ledger.highLog := by
    rw [Ledger.highLog_eq, Ledger.highLog_eq, hentries₁]
  refine ⟨_, rfl, ?_, ?_, htag₃, ?_, by have := hcount₁.le; have := hcount₃.le; omega⟩
  · rw [hhigh₃.pendingH, hhigh₃.highLog, hhlog₂, hhlog₁]
    have hclean : (cleanedH high t₁.ledger.pendingH).Sublist t.ledger.pendingH :=
      (dropKeys_sublist _ _).trans hpend₁
    refine hhigh.tick (hclean.map markOf) (high_disjoint ?_) hfirsts hheld.subperm
      (fun m hm => hrep.subset hm) hrest.subperm
    exact hhigh.kept.subperm (hpend₁.map markOf).subperm
  · rw [hslog₃, hsame₂.log, hslog₁, ← append_nil t.ledger.slicedLog]
    exact hsliced.tick ((dropKeys_sublist _ _).map _) (sliced_disjoint htag hsliced.kept)
      (nil_sublist _) hsend₁ hslices hkept.subperm
  · rw [hhigh₃.pendingH]
    exact hnum₂

/-! ## The steps -/

namespace Disciplined

variable {t : Stamped}

theorem copySendAck (h : t.Disciplined) (ht : Tracks t t.client) (env : Env) (curTm : Int)
    (pacing : Pacing) (hfew : 2047 + t.ledger.born.length < 2 ^ 64) :
    ∃ t', t' = t.copySendAckAndCheckSeningData env curTm pacing ∧ t'.Disciplined ∧
      t'.ledger.born = t.ledger.born ∧ t'.queued = 0 := by
  obtain ⟨t', ht', hhigh, hsliced, htag, hnum, hcount⟩ := checkSeningData (t := t.takeSnapshot)
    env t.client.sendLock.incomingSlicedAcks curTm pacing h.high h.sliced h.tagged h.numbered
    (Nat.lt_of_le_of_lt h.counter hfew)
  have harr := (writes_checkSeningData env t.takeSnapshot t.ledger.sliced t.ledger.high
    t.client.sendLock.sendQueues.low t.client.sendLock.incomingSlicedAcks curTm pacing).arrivals
  have hclient := (ht.copySendAck env curTm pacing).client
  rw [show t.copySendAckAndCheckSeningData env curTm pacing = t' from ht'.symm] at hclient
  rw [← ht'] at harr
  have hlow : t'.client.sendLock.sendQueues.low = [] := by
    rw [hclient, show (t.client.copySendAckAndCheckSeningData env curTm pacing).sendLock = _ from
      (Client.checkSeningData_sends env _ _ _ curTm pacing).sendLock]
    rfl
  obtain ⟨hborn, hs, hh⟩ : t'.ledger.born = t.ledger.born ∧ t'.ledger.sliced = [] ∧
      t'.ledger.high = [] :=
    ⟨congrArg Prod.fst harr, congrArg (·.2.1) harr, congrArg (·.2.2) harr⟩
  have hqueued : t'.queued = 0 := by
    unfold Stamped.queued
    rw [hs, hh, hlow]
    rfl
  refine ⟨t', ht', ⟨?_, ?_, htag, hnum, ?_, ?_⟩, hborn, hqueued⟩
  · unfold Ledger.highSender
    rw [hh, hborn]
    exact hhigh
  · unfold Ledger.slicedSender
    rw [hs, hborn]
    exact hsliced
  · rw [hqueued]
    exact Nat.zero_le _
  · rw [hqueued, hborn]
    exact Nat.le_trans hcount h.counter

theorem note (h : t.Disciplined) {c : Client}
    (hqueues : c.sendLock.sendQueues = t.client.sendLock.sendQueues)
    (hcounter : c.out.cryptMsgCounter = t.client.out.cryptMsgCounter ∨
      c.out.cryptMsgCounter = initialCryptedMsgCounter) :
    (t.note c .direct).Disciplined := by
  obtain ⟨hhigh, hsliced⟩ := note_same t c
  have hqueued : (t.note c .direct).queued = t.queued := by
    show _ + c.sendLock.sendQueues.low.length = _
    rw [hqueues]
    rfl
  refine ⟨?_, ?_, h.tagged, h.numbered, ?_, ?_⟩
  · unfold Ledger.highSender
    rw [hhigh.highLog]
    exact h.high
  · unfold Ledger.slicedSender
    rw [hsliced.log]
    exact h.sliced
  · rw [hqueued]
    exact h.queued
  · rw [hqueued]
    show c.out.cryptMsgCounter.toNat + t.queued ≤ 2047 + t.ledger.born.length
    rcases hcounter with heq | heq
    · rw [heq]
      exact h.counter
    · rw [heq]
      exact Nat.add_le_add_left h.queued 2047

theorem giveUp (h : t.Disciplined) :
    Disciplined { t with ledger := { t.ledger with pendingH := [], sending := [] } } where
  high := h.high.forget
  sliced := h.sliced.forget
  tagged := nofun
  numbered := nofun
  queued := h.queued
  counter := h.counter

theorem transportReconnectTailTick (h : t.Disciplined) (env : Env) (curTm closeTm : Int) :
    (t.transportReconnectTailTick env curTm closeTm).Disciplined ∧
      (t.transportReconnectTailTick env curTm closeTm).ledger.born = t.ledger.born := by
  have htails := Client.transportReconnectTailTick_tails env t.client curTm closeTm
  have hnote := h.note htails.queues (by
    rcases htails.lists with ⟨-, -, hc⟩ | ⟨-, -, hc⟩
    · exact hc
    · exact .inr hc)
  unfold Stamped.transportReconnectTailTick
  simp only
  split
  · exact ⟨hnote, rfl⟩
  · exact ⟨hnote.giveUp, rfl⟩

theorem maintain (h : t.Disciplined) (ht : Tracks t t.client) (env : Env) (m : Maintenance)
    (hfew : 2047 + t.ledger.born.length < 2 ^ 64) :
    (t.maintain env m).Disciplined ∧ (t.maintain env m).ledger.born = t.ledger.born := by
  unfold Stamped.maintain
  split
  · exact ⟨h, rfl⟩
  obtain ⟨t', ht', hdis, hborn, -⟩ := h.copySendAck ht env m.curTm m.pacing hfew
  rw [← ht']
  obtain ⟨hdis', hborn'⟩ := hdis.transportReconnectTailTick env m.curTm m.closeTm
  exact ⟨hdis', hborn'.trans hborn⟩

theorem pushStamped_push {stamp : Nat} {item : SendItem} {queued : List (Nat × SendItem)}
    {kept log : List (Mark UniqueKey)} (h : Sender.Inv stamp ⟨queued.map markOf, kept, log⟩) :
    Sender.Inv (stamp + 1) ⟨(pushStamped stamp item queued).map markOf, kept, log⟩ ∧
      (pushStamped stamp item queued).length ≤ queued.length + 1 := by
  have hsub : (dropKey (dedupKey ∘ Prod.snd) item.dedupKey queued).Sublist queued :=
    dropKey_sublist _ _
  have hnodup : (queued.filterMap (dedupKey ∘ Prod.snd)).Nodup := by
    have hunique := h.waiting
    unfold LatestWins.Unique at hunique
    rwa [filterMap_map] at hunique
  unfold pushStamped
  constructor
  · rw [map_append]
    refine h.enqueue (hsub.map markOf) ?_
    intro m hm k hk hmk
    obtain ⟨x, hx, rfl⟩ := List.mem_map.mp hm
    rw [hk] at hx
    exact key_ne_of_mem_dropKey hnodup hx hmk
  · rw [length_append]
    exact Nat.add_le_add_right hsub.length_le 1

theorem enqueue (h : t.Disciplined) (item : SendItem) : (t.enqueue item).Disciplined := by
  obtain ⟨hhigh, hsliced, htag, hnum, hqueued, hcounter⟩ := h
  have hborn : (t.enqueue item).ledger.born.length = t.ledger.born.length + 1 :=
    length_append
  have hboth : (t.enqueue item).ledger.highSender.Inv (t.ledger.born.length + 1) ∧
      (t.enqueue item).ledger.slicedSender.Inv (t.ledger.born.length + 1) ∧
      (t.enqueue item).queued ≤ t.queued + 1 := by
    unfold Stamped.enqueue Ledger.highSender Ledger.slicedSender Stamped.queued Client.enqueue
      SendLockState.pushSendCmdInt SendQueues.pushSendCmdInt
    cases hprio : item.priority with
    | sliced =>
      obtain ⟨hpush, hlen⟩ := @pushStamped_push _ item _ _ _ hsliced
      exact ⟨hhigh.mono (Nat.le_succ _), hpush, by simpa using by omega⟩
    | high =>
      obtain ⟨hpush, hlen⟩ := @pushStamped_push _ item _ _ _ hhigh
      exact ⟨hpush, hsliced.mono (Nat.le_succ _), by simpa using by omega⟩
    | low =>
      refine ⟨hhigh.mono (Nat.le_succ _), hsliced.mono (Nat.le_succ _), ?_⟩
      simp only [length_append, length_singleton, reduceCtorEq, if_false]
      omega
  have hsame : (t.enqueue item).counter = t.counter := rfl
  refine ⟨?_, ?_, htag, hnum, by omega, by omega⟩
  · rw [hborn]
    exact hboth.1
  · rw [hborn]
    exact hboth.2.1

theorem step (h : t.Disciplined) (ht : Tracks t t.client) (env : Env) (e : Event)
    (hfew : 2047 + t.ledger.born.length < 2 ^ 64) :
    (t.step env e).Disciplined ∧
      (t.step env e).ledger.born = t.ledger.born ++ enqueuedItems [e] := by
  -- the steps that leave the outbound lists alone
  have hcalm : ∀ c, Client.Calm t.client c → (t.note c .direct).Disciplined := by
    intro c hc
    refine h.note hc.queues ?_
    rcases hc.out with heq | heq
    · rw [heq]
      exact .inl rfl
    · rw [heq]
      exact .inr rfl
  cases e with
  | enqueue item => exact ⟨h.enqueue item, rfl⟩
  | maintain m =>
    obtain ⟨hdis, hborn⟩ := h.maintain ht env m hfew
    exact ⟨hdis, hborn.trans (append_nil _).symm⟩
  | requestShutdown =>
    refine ⟨hcalm _ ?_, (append_nil _).symm⟩
    exact Client.Quiet.calm ⟨.inl rfl, rfl, rfl, rfl, id⟩
  | disconnect =>
    refine ⟨hcalm _ ?_, (append_nil _).symm⟩
    exact Client.Quiet.calm ⟨.inl rfl, rfl, rfl, rfl, Bool.false_ne_true.elim⟩
  | wake bound =>
    exact ⟨hcalm _ (Client.wake_steady t.client bound).calm, (append_nil _).symm⟩
  | receive d =>
    exact ⟨hcalm _ (Client.receive_calm env t.client d), (append_nil _).symm⟩

/-- **Every run.** -/
theorem run (env : Env) : ∀ (events : List Event) {t : Stamped}, t.Disciplined →
    Tracks t t.client → 2047 + (t.ledger.born ++ enqueuedItems events).length < 2 ^ 64 →
    (t.run env events).Disciplined ∧
      (t.run env events).ledger.born = t.ledger.born ++ enqueuedItems events
  | [], t, h, _, _ => ⟨h, (append_nil _).symm⟩
  | e :: events, t, h, ht, hfew => by
    have hsplit : enqueuedItems (e :: events) = enqueuedItems [e] ++ enqueuedItems events :=
      filterMap_append (l := [e])
    rw [hsplit, ← append_assoc] at hfew
    have hnow : 2047 + t.ledger.born.length < 2 ^ 64 := by
      rw [length_append, length_append] at hfew
      omega
    obtain ⟨hdis, hborn⟩ := h.step ht env e hnow
    have hnext := ht.step env e
    have htrack : Tracks (t.step env e) (t.step env e).client := by
      rw [hnext.client]
      exact hnext
    rw [← hborn] at hfew
    obtain ⟨hdis', hborn'⟩ := run env events hdis htrack hfew
    refine ⟨hdis', hborn'.trans ?_⟩
    rw [hborn, hsplit, append_assoc]

theorem start (c : Client) (hcounter : c.out.cryptMsgCounter = initialCryptedMsgCounter)
    (hlow : c.sendLock.sendQueues.low = []) : (Stamped.start c).Disciplined where
  high := .empty
  sliced := .empty
  tagged := nofun
  numbered := nofun
  queued := by
    show 0 + 0 + c.sendLock.sendQueues.low.length ≤ 0
    rw [hlow]
    exact Nat.le_refl 0
  counter := by
    show c.out.cryptMsgCounter.toNat + (0 + 0 + c.sendLock.sendQueues.low.length) ≤ 2047 + 0
    rw [hlow, hcounter]
    exact Nat.le_refl 2047

end Disciplined

end Stamped

/-! ## Latest wins -/

namespace Client

/-- No key but the empty one occurs twice. -/
structure UniqueKeys (c : Client) : Prop where
  sliced : (c.sendLock.sendQueues.sliced.filterMap dedupKey).Nodup
  high : (c.sendLock.sendQueues.high.filterMap dedupKey).Nodup
  sending : (c.out.sending.filterMap SentSliced.dedupKey).Nodup
  pendingH : (c.out.pendingH.filterMap dedupKey).Nodup

theorem uniqueKeys_of_disciplined {t : Stamped} {c : Client} (h : t.Disciplined)
    (ht : Stamped.Tracks t c) : c.UniqueKeys := by
  have hitems : ∀ xs : List (Nat × SendItem), Unique (xs.map markOf) →
      ((xs.map Prod.snd).filterMap dedupKey).Nodup := by
    intro xs hxs
    unfold LatestWins.Unique at hxs
    rw [filterMap_map] at hxs ⊢
    exact hxs
  refine ⟨?_, ?_, ?_, ?_⟩
  · rw [← ht.sliced]
    exact hitems _ h.sliced.waiting
  · rw [← ht.high]
    exact hitems _ h.high.waiting
  · have hkept := h.sliced.kept
    unfold LatestWins.Unique Ledger.slicedSender at hkept
    rw [filterMap_map] at hkept
    rw [← ht.sending, filterMap_map]
    exact (filterMap_congr h.tagged) ▸ hkept
  · rw [← ht.pendingH]
    exact hitems _ h.high.kept

/-- Without a key, or with a key that none of the items has. -/
def Others (items : List SendItem) (key : Option UniqueKey) : Bool :=
  key.isNone || !(items.map dedupKey).contains key

theorem ne_of_others {items : List SendItem} {key : Option UniqueKey} {k : UniqueKey}
    (h : Others items key = true) (hk : some k ∈ items.map dedupKey) : key ≠ some k := by
  rintro rfl
  simp only [Others, isNone_some, Bool.false_or, not_eq_true',
    contains_eq_mem, decide_eq_false_iff_not] at h
  exact h hk

/-- What a new item does not replace keeps its place, in the queues, among the
pending items and in flight. -/
structure LeavesOthers (c : Client) : Prop where
  sliced : ∀ item, (c.enqueue item).sendLock.sendQueues.sliced.filter (Others [item] ·.dedupKey)
    = (c.sendLock.sendQueues.sliced ++ if item.priority = .sliced then [item] else []).filter
        (Others [item] ·.dedupKey)
  high : ∀ item, (c.enqueue item).sendLock.sendQueues.high.filter (Others [item] ·.dedupKey)
    = (c.sendLock.sendQueues.high ++ if item.priority = .high then [item] else []).filter
        (Others [item] ·.dedupKey)
  low : ∀ item, (c.enqueue item).sendLock.sendQueues.low
    = c.sendLock.sendQueues.low ++ if item.priority = .low then [item] else []
  sending : ∀ items, (c.applySlicedSendUKeyCleanup items).out.sending.filter
      (Others items ·.dedupKey) = c.out.sending.filter (Others items ·.dedupKey)
  pendingH : ∀ items, (c.applyHighSendUKeyCleanup items).out.pendingH.filter
      (Others items ·.dedupKey) = c.out.pendingH.filter (Others items ·.dedupKey)

theorem filter_dropOlder (item : SendItem) (queue : List SendItem) :
    (SendQueues.dropOlder item.uKey queue).filter (Others [item] ·.dedupKey)
      = queue.filter (Others [item] ·.dedupKey) := by
  rw [dropOlder_eq]
  refine filter_dropKey (fun x hx k hk => ne_of_others hx ?_) queue
  exact mem_singleton.mpr hk.symm

theorem leavesOthers (c : Client) : c.LeavesOthers where
  sliced := by
    intro item
    unfold enqueue SendLockState.pushSendCmdInt SendQueues.pushSendCmdInt
    cases hprio : item.priority with
    | sliced => simp only [if_true, filter_append, filter_dropOlder]
    | high | low => simp
  high := by
    intro item
    unfold enqueue SendLockState.pushSendCmdInt SendQueues.pushSendCmdInt
    cases hprio : item.priority with
    | high => simp only [if_true, filter_append, filter_dropOlder]
    | sliced | low => simp
  low := by
    intro item
    unfold enqueue SendLockState.pushSendCmdInt SendQueues.pushSendCmdInt
    cases hprio : item.priority with
    | low => rfl
    | sliced | high => simp
  sending := by
    intro items
    unfold applySlicedSendUKeyCleanup
    simp only
    rw [foldl_dropSending]
    exact filter_dropKeys (fun s hs k hk => ne_of_others hs hk) _
  pendingH := by
    intro items
    unfold applyHighSendUKeyCleanup
    simp only
    rw [foldl_dropOlder]
    exact filter_dropKeys (fun x hx k hk => ne_of_others hx hk) _

/-- **Latest wins.** In every run with fewer than `2 ^ 64 - 2047` enqueued items:

* no key occurs twice in the queued Sliced items, in the queued High items, among
  the datagrams in flight or among the pending High items;
* along the High messages, and along the slices, the items of one key only get
  newer: once an item was sent, no older one with its key is sent again. Which item
  a message belongs to is what the ledger says, and the ledger has the client's own
  lists, every message that the client handed over and every slice that it sent;
* what the deduplication does not replace keeps its place. -/
theorem latest_item_wins {env : Env} {cfg : ClientConfig} {clientToken appToken : UInt64}
    {events : List Event} {c : Client}
    (hrun : Run.run (next env) (Client.new cfg clientToken appToken) events = some c)
    (hfew : (enqueuedItems events).length < 2 ^ 64 - 2047) :
    c.UniqueKeys ∧
    (∃ t : Stamped, t = (Stamped.start (Client.new cfg clientToken appToken)).run env events ∧
      Stamped.Tracks t c ∧ t.ledger.born = enqueuedItems events ∧
      Renews t.ledger.highLog ∧ Renews t.ledger.slicedLog) ∧
    c.LeavesOthers := by
  have htrack := (Stamped.Tracks.start (Client.new cfg clientToken appToken) rfl rfl rfl rfl rfl)
  have hall := htrack.run env events
  have hc : events.foldl (Client.step env) (Client.new cfg clientToken appToken) = c :=
    Option.some.inj ((run_eq_foldl env events _).symm.trans hrun)
  rw [hc] at hall
  obtain ⟨hdis, hborn⟩ := (Stamped.Disciplined.start (Client.new cfg clientToken appToken) rfl
    rfl).run env events htrack (by
      show 2047 + (enqueuedItems events).length < 2 ^ 64
      omega)
  exact ⟨uniqueKeys_of_disciplined hdis hall,
    ⟨_, rfl, hall, hborn, hdis.high.log, hdis.sliced.log⟩, leavesOthers c⟩

end Client

/-! ## A run that is too long -/

namespace Client

theorem held_sendHItem_sealed (env : Env) {c : Client} {key : MoonKey}
    (hkey : c.session.encodeCipher = some key) {item : SendItem} (henc : item.encrypted = true)
    (hfirst : item.msgNum = 0) (hretry : 0 < item.retryLeft) (curTm : Int) :
    (c.sendHItem env item curTm).out.held = (c.out.pendingH
      ++ [pendingCopy item (maybeCompress item.cmd item.data).1
        (maybeCompress item.cmd item.data).2 (c.out.cryptMsgCounter + 1) curTm],
      c.out.sending, c.out.cryptMsgCounter + 1, c.out.slices) := by
  obtain ⟨msgs, kept, hsend, hmsgs, hheld⟩ := sendHItem_spec env c item curTm
  obtain ⟨msg, hhands, -⟩ := sendHItem_hands env hkey item curTm
  rw [hheld, if_pos ⟨henc, hfirst⟩]
  cases hsend with
  | unsealed =>
    have hlen := congrArg List.length (hmsgs.symm.trans hhands.handovers)
    simp at hlen
  | plain hplain => exact absurd henc (by rw [hplain]; exact Bool.false_ne_true)
  | once _ _ hdone => exact absurd ⟨hretry, hfirst⟩ hdone
  | kept => rw [msgNumFor_num, if_neg (not_not_intro hfirst)]

variable {c : Client}

theorem held_sendLowItems (env : Env) (hsending : c.out.sending = []) {low : Option SendItem}
    (henc : ∀ item ∈ low, item.encrypted = true) (curTm : Int) (pacing : Pacing) :
    (c.sendLowItemsAroundSlicedRetry env low.toList curTm pacing).out.held
      = (c.out.pendingH, [], (if low.isSome then c.out.cryptMsgCounter + 1
        else c.out.cryptMsgCounter), c.out.slices) := by
  have hfirst : ((low.toList.take 1).foldl (fun c item => c.batchSendDirect env item) c).out.held
      = (c.out.pendingH, [], (if low.isSome then c.out.cryptMsgCounter + 1
        else c.out.cryptMsgCounter), c.out.slices) := by
    rw [← hsending]
    cases low with
    | none => rfl
    | some item =>
      have hone := (batchSendDirect_spec env c item).2
      rw [if_pos (henc item rfl)] at hone
      exact hone
  unfold sendLowItemsAroundSlicedRetry
  simp only
  rw [show low.toList.drop 1 = [] by cases low <;> rfl, foldl_nil, held_flushSendBatch]
  generalize (low.toList.take 1).foldl (fun c item => c.batchSendDirect env item) c = c₁
    at hfirst ⊢
  rw [← held_flushSendBatch env c₁] at hfirst
  generalize c₁.flushSendBatch env = c₂ at hfirst ⊢
  have hempty : c₂.out.sending = [] := congrArg (·.2.1) hfirst
  rw [(retrySliced_spec env c₂ curTm pacing).2, slicedRetryDue, hempty, if_neg (by simp),
    if_neg (by simp), ← hfirst, ← hempty]
  rfl

/-- The timers behind the send phase have nothing to do. -/
def quietAt (s : Session) (curTm : Int) : Bool :=
  !s.needConnect && !s.forceDisconnect && s.authorized && s.helloWaitState == .idle
    && decide (((curTm - s.lastOnline).natAbs : Int) ≤ offlineBaseMs + s.roundTripDelay)

theorem transportReconnectTailTick_quietAt (env : Env) {curTm : Int}
    (h : quietAt c.session curTm = true) (closeTm : Int) :
    c.transportReconnectTailTick env curTm closeTm = c := by
  simp only [quietAt, and_eq_true, not_eq_true', beq_iff_eq, decide_eq_true_eq] at h
  obtain ⟨⟨⟨⟨hneed, hforce⟩, hauth⟩, hidle⟩, honline⟩ := h
  have hfresh : c.staleAuthorized curTm = false := by
    unfold staleAuthorized
    rw [decide_eq_false (Int.not_lt.mpr honline), Bool.and_false]
  have hhello : c.checkHelloSend env curTm = c := by
    unfold checkHelloSend
    rw [hneed]
    rfl
  have hoffline : c.checkOfflineReconnect env curTm = c := by
    unfold checkOfflineReconnect
    rw [hidle, hfresh]
    rfl
  have htimeout : c.checkReconnectTimeout curTm = c := by
    unfold checkReconnectTimeout
    simp only [hidle]
    rfl
  have hdead : c.checkDeadZone curTm = c := by
    unfold checkDeadZone
    rw [hauth]
    rfl
  unfold transportReconnectTailTick reconnectChecks
  simp only [hhello, hoffline, htimeout, hdead, hforce]
  rfl

/-- No ACK waits and nothing is in flight. -/
structure Undisturbed (c : Client) : Prop where
  socket : c.socket.isNone = false
  acks : c.sendLock.incomingSlicedAcks = []
  tmpSlider : c.sendLock.tmpSlider.hasNewData = false
  noAck : c.inb.recvdSlider.hasNewData = false
  sending : c.out.sending = []

/-- The High items of a tick. -/
def highSent (env : Env) (c : Client) (high : List SendItem) (curTm : Int) : Client :=
  (high.foldl (fun c item => c.sendHItem env item curTm)
    (c.applyHighSendUKeyCleanup high)).retryPendingH env curTm

theorem sending_sendHItems (env : Env) (curTm : Int) : ∀ (items : List SendItem) (c : Client),
    (items.foldl (fun c item => c.sendHItem env item curTm) c).out.sending = c.out.sending
  | [], _ => rfl
  | item :: items, c => by
    obtain ⟨_, _, -, -, hheld⟩ := sendHItem_spec env c item curTm
    exact (sending_sendHItems env curTm items _).trans (congrArg (fun held => held.2.1) hheld)

theorem highSent_sends (env : Env) (c : Client) (high : List SendItem) (curTm : Int) :
    Sends c (c.highSent env high curTm) ∧
      (c.highSent env high curTm).out.sending = c.out.sending := by
  constructor
  · refine Sends.trans ?_ (retryPendingH_sends env _ curTm)
    exact (Sends.of_out c _).trans
      (Sends.foldl (fun c item => sendHItem_sends env c item curTm) high _)
  · exact (sending_sendHItems env curTm _ _).trans (sending_sendHItems env curTm high _)

/-- **A tick of an undisturbed client** is the High items and the Low items. -/
theorem maintain_undisturbed (env : Env) (h : c.Undisturbed) (m : Maintenance)
    (high : List SendItem) (low : Option SendItem)
    (hq : c.sendLock.sendQueues = ⟨[], high, low.toList⟩)
    (hlow : ∀ item ∈ low, item.encrypted = true) (hquiet : quietAt c.session m.curTm = true) :
    ∃ c₀ c' : Client, c' = c.maintain env m ∧ c'.Undisturbed ∧ c'.session = c.session ∧
      c'.sendLock.sendQueues = SendQueues.empty ∧ c₀.session = c.session ∧ c₀.out = c.out ∧
      ∃ sent : Client, sent = c₀.highSent env high m.curTm ∧ c'.out.held = (sent.out.pendingH, [],
        (if low.isSome then sent.out.cryptMsgCounter + 1 else sent.out.cryptMsgCounter),
        sent.out.slices) := by
  obtain ⟨hsocket, hacks, htmp, hnoAck, hsending⟩ := h
  obtain ⟨c₀, hc₀⟩ : ∃ c₀, c₀ = { c with sendLock := c.sendLock.takeSendSnapshot.2 } := ⟨_, rfl⟩
  have hcopy : c.copySendAckAndCheckSeningData env m.curTm m.pacing
      = (c₀.highSent env high m.curTm).sendLowItemsAroundSlicedRetry env low.toList m.curTm
        m.pacing := by
    have hregular : c₀.applyRegularHlAck = c₀ := by
      unfold applyRegularHlAck
      rw [hc₀]
      simp only
      rw [hnoAck]
      rfl
    rw [hc₀] at hregular ⊢
    unfold copySendAckAndCheckSeningData SendLockState.takeSendSnapshot SendLockState.copyTmpSlider
    simp only [htmp, hacks, hq, false_eq_true, if_false, getD_none]
    exact congrArg (fun c₁ => (highSent env c₁ high m.curTm).sendLowItemsAroundSlicedRetry env
      low.toList m.curTm m.pacing) hregular
  obtain ⟨hsends, hnone⟩ := highSent_sends env c₀ high m.curTm
  have hphase := hsends.trans (sendLowItems_sends env _ low.toList m.curTm m.pacing)
  have hheld := held_sendLowItems env (hnone.trans (by rw [hc₀]; exact hsending)) hlow m.curTm
    m.pacing
  rw [← hcopy] at hphase hheld
  have hmaintain : c.maintain env m = c.copySendAckAndCheckSeningData env m.curTm m.pacing := by
    unfold maintain
    rw [hsocket, if_neg Bool.false_ne_true]
    refine transportReconnectTailTick_quietAt env ?_ m.closeTm
    rw [hphase.session, hc₀]
    exact hquiet
  refine ⟨c₀, _, rfl, ?_, ?_, ?_, by rw [hc₀], by rw [hc₀], _, rfl, ?_⟩
  all_goals rw [hmaintain]
  · refine ⟨?_, ?_, ?_, ?_, congrArg (·.2.1) hheld⟩
    · rw [hphase.socket, hc₀]
      exact hsocket
    · rw [hphase.sendLock, hc₀]
      rfl
    · rw [hphase.sendLock, hc₀]
      rfl
    · exact hphase.noAck (by rw [hc₀]; exact hnoAck)
  · rw [hphase.session, hc₀]
  · rw [hphase.sendLock, hc₀]
    rfl
  · exact hheld

theorem highSent_nothing (env : Env) (hpend : c.out.pendingH = []) (curTm : Int) :
    (c.highSent env [] curTm).out.held = c.out.held := by
  unfold highSent retryPendingH applyHighSendUKeyCleanup
  simp only [foldl_nil, hpend, filterMap_nil]
  rw [← hpend]

/-- A first send, with nothing pending: the copy is not due in the same tick. -/
theorem highSent_first (env : Env) {c : Client} {key : MoonKey}
    (hkey : c.session.encodeCipher = some key) (hpend : c.out.pendingH = []) {item : SendItem}
    (henc : item.encrypted = true) (hfirst : item.msgNum = 0) (hretry : 0 < item.retryLeft)
    (curTm : Int) :
    (c.highSent env [item] curTm).out.held = ([pendingCopy item
      (maybeCompress item.cmd item.data).1 (maybeCompress item.cmd item.data).2
      (c.out.cryptMsgCounter + 1) curTm], c.out.sending, c.out.cryptMsgCounter + 1,
      c.out.slices) := by
  have hclean : (c.applyHighSendUKeyCleanup [item]).out = c.out := by
    unfold applyHighSendUKeyCleanup SendQueues.dropOlder
    simp only [foldl_cons, foldl_nil, hpend, eraseP_nil, ite_self]
    rw [← hpend]
  have hsent := held_sendHItem_sealed env (c := c.applyHighSendUKeyCleanup [item]) hkey henc hfirst
    hretry curTm
  rw [hclean, hpend, nil_append] at hsent
  have hnow : ∀ delay, retryDue curTm curTm (pendingHPathDelay delay) = false := by
    intro delay
    unfold retryDue pendingHPathDelay
    rw [Int.sub_self]
    exact decide_eq_false (by simp)
  unfold highSent
  simp only [foldl_cons, foldl_nil]
  generalize (c.applyHighSendUKeyCleanup [item]).sendHItem env item curTm = c₁ at hsent ⊢
  have hp : c₁.out.pendingH = [_] := congrArg Prod.fst hsent
  unfold retryPendingH resendOf keptOf
  simp only [hp, filterMap_cons, filterMap_nil, pendingCopy, hnow, false_eq_true,
    if_false, foldl_nil]
  exact Prod.ext rfl (show (c₁.out.sending, c₁.out.cryptMsgCounter, c₁.out.slices) = _ from
    congrArg Prod.snd hsent)

/-- A copy under number 0 is sent as if for the first time, and is kept twice. -/
theorem highSent_zero (env : Env) {c : Client} {key : MoonKey}
    (hkey : c.session.encodeCipher = some key) {copy : SendItem} (hpend : c.out.pendingH = [copy])
    (henc : copy.encrypted = true) (hzero : copy.msgNum = 0) (hretry : 1 < copy.retryLeft)
    {curTm : Int} (hdue : retryDue copy.lastSentAt curTm
      (pendingHPathDelay c.session.roundTripDelay) = true) :
    (c.highSent env [] curTm).out.pendingH.map dedupKey
      = [copy.dedupKey, copy.dedupKey] := by
  unfold highSent retryPendingH resendOf keptOf
  simp only [applyHighSendUKeyCleanup, foldl_nil, foldl_cons, hpend, filterMap_cons,
    filterMap_nil, hdue, if_true, if_neg (show ¬ copy.retryLeft - 1 ≤ 0 by omega)]
  have hsent := @held_sendHItem_sealed env { c with out := { c.out with pendingH :=
    [{ copy with lastSentAt := curTm, retryLeft := copy.retryLeft - 1 }] } } key hkey
    { copy with lastSentAt := curTm } henc hzero (show 0 < copy.retryLeft by omega) curTm
  rw [show Outbound.pendingH _ = _ from congrArg Prod.fst hsent]
  rfl

end Client

namespace Sample

def lowItem : SendItem := { Client.sampleItem with priority := .low }

/-- A High item with a key and three sends. -/
def keyedItem : SendItem := { Client.sampleItem with uKey := ⟨1, 7⟩ }

/-- `n` ticks with a message each. -/
def lowTicks : Nat → List Event
  | 0 => []
  | n + 1 => .enqueue lowItem :: .maintain (maintenance 10040) :: lowTicks n

/-- `n` messages, then the keyed item, and time for a retry. -/
def busy (n : Nat) : List Event := lowTicks n ++ [.enqueue keyedItem,
  .maintain (maintenance 10050), .maintain (maintenance 11000)]

/-- Nothing is queued, pending or in flight, and `num` was the last number. -/
structure AtRest (s : Session) (num : UInt64) (c : Client) : Prop extends c.Undisturbed where
  session : c.session = s
  queues : c.sendLock.sendQueues = SendQueues.empty
  pendingH : c.out.pendingH = []
  counter : c.out.cryptMsgCounter = num

variable {s : Session} {num : UInt64} {c : Client}

/-- A tick with an item of its own. -/
theorem AtRest.tick (h : AtRest s num c) (item : SendItem) (high : List SendItem)
    (low : Option SendItem)
    (hq : SendQueues.empty.pushSendCmdInt item = ⟨[], high, low.toList⟩)
    (hlow : ∀ item ∈ low, item.encrypted = true) {tm : Int}
    (hquiet : Client.quietAt s tm = true) :
    ∃ d c' : Client, c' = (c.enqueue item).maintain .sample (maintenance tm) ∧ c'.Undisturbed ∧
      c'.session = s ∧ c'.sendLock.sendQueues = SendQueues.empty ∧ d.session = s ∧
      d.out = c.out ∧ ∃ sent : Client, sent = d.highSent .sample high tm ∧
        c'.out.held = (sent.out.pendingH, [],
          (if low.isSome then sent.out.cryptMsgCounter + 1 else sent.out.cryptMsgCounter),
          sent.out.slices) := by
  obtain ⟨d, c', hc', hund, hs, hq', hds, hall⟩ := Client.maintain_undisturbed .sample
    (c := c.enqueue item) ⟨h.socket, h.acks, h.tmpSlider, h.noAck, h.sending⟩ (maintenance tm)
    high low (by rw [← hq, ← h.queues]; rfl) hlow (h.session ▸ hquiet)
  exact ⟨d, c', hc', hund, hs.trans h.session, hq', hds.trans h.session, hall⟩

/-- The Low items use up the numbers. -/
theorem AtRest.lowTicks (hquiet : Client.quietAt s 10040 = true) : ∀ (n : Nat) {num : UInt64}
    {c : Client}, AtRest s num c →
    AtRest s (num + UInt64.ofNat n) ((Sample.lowTicks n).foldl (Client.step .sample) c)
  | 0, num, c, h => (UInt64.add_zero num).symm ▸ h
  | n + 1, num, c, h => by
    obtain ⟨d, c', hc', hund, hs, hq, -, hd, sent, hsent, hheld⟩ :=
      h.tick lowItem [] (some lowItem) rfl (by simp [lowItem, Client.sampleItem]) hquiet
    have hnone : d.out.pendingH = [] := by
      rw [hd]
      exact h.pendingH
    have hsame := Client.highSent_nothing .sample hnone 10040
    rw [← hsent, hd] at hsame
    have hrest : AtRest s (num + 1) c' := ⟨hund, hs, hq,
      (congrArg Prod.fst hheld).trans ((congrArg Prod.fst hsame).trans h.pendingH),
      (congrArg (·.2.2.1) hheld).trans (congrArg (· + 1) ((congrArg (·.2.2.1) hsame).trans
        h.counter))⟩
    have hall := AtRest.lowTicks hquiet n hrest
    rw [UInt64.add_assoc, UInt64.add_comm 1] at hall
    rw [hc'] at hall
    rw [UInt64.ofNat_add]
    exact hall

/-- Behind enough messages the keyed item gets number 0. -/
theorem busy_wraps {n : Nat} (hn : num + UInt64.ofNat n + 1 = 0) {key : MoonKey}
    (hkey : s.encodeCipher = some key) (hc : AtRest s num c)
    (hquiet : ∀ tm ∈ [10040, 10050, 11000], Client.quietAt s tm = true)
    (hdue : retryDue 10050 11000 (pendingHPathDelay s.roundTripDelay) = true) :
    ((busy n).foldl (Client.step .sample) c).out.pendingH.map dedupKey
      = [keyedItem.dedupKey, keyedItem.dedupKey] := by
  unfold busy
  rw [foldl_append]
  have hrest := AtRest.lowTicks (hquiet 10040 (by decide)) n hc
  generalize (lowTicks n).foldl (Client.step .sample) c = c₁ at hrest ⊢
  -- the keyed item goes out under number 0
  obtain ⟨d₂, c₂, hc₂, hund₂, hs₂, hq₂, hds₂, hd₂, sent₂, hsent₂, hheld₂⟩ :=
    hrest.tick keyedItem [keyedItem] none rfl nofun (hquiet 10050 (by decide))
  have hfirst := @Client.highSent_first .sample d₂ key (hds₂ ▸ hkey) (hd₂ ▸ hrest.pendingH)
    keyedItem rfl rfl (by decide) 10050
  rw [← hsent₂, hd₂, hrest.counter, hn] at hfirst
  -- its retry is taken for a first send
  obtain ⟨d₃, c₃, hc₃, -, -, -, hds₃, hd₃, sent₃, hsent₃, hheld₃⟩ :=
    Client.maintain_undisturbed .sample hund₂ (maintenance 11000) [] none hq₂ nofun
      (hs₂ ▸ hquiet 11000 (by decide))
  have hpend : d₃.out.pendingH = [Client.pendingCopy keyedItem
      (maybeCompress keyedItem.cmd keyedItem.data).1
      (maybeCompress keyedItem.cmd keyedItem.data).2 0 10050] := by
    rw [hd₃]
    exact (congrArg Prod.fst hheld₂).trans (congrArg Prod.fst hfirst)
  have hzero := @Client.highSent_zero .sample d₃ key (by rw [hds₃, hs₂, hkey]) _ hpend rfl rfl
    (by decide) 11000 (by rw [hds₃, hs₂]; exact hdue)
  simp only [foldl_cons, foldl_nil, Client.step]
  rw [← hc₂, ← hc₃, show c₃.out.pendingH = _ from congrArg Prod.fst hheld₃, hsent₃]
  exact hzero

theorem session_busy_wraps {n : Nat} (hn : 2047 + UInt64.ofNat n + 1 = 0) :
    (after (session ++ busy n)).out.pendingH.map dedupKey
      = [keyedItem.dedupKey, keyedItem.dedupKey] := by
  obtain ⟨key, hkey⟩ : ∃ key, (after session).session.encodeCipher = some key :=
    Option.isSome_iff_exists.mp (by decide +kernel)
  have hsession : AtRest (after session).session 2047 (after session) :=
    ⟨⟨by decide +kernel, by decide +kernel, by decide +kernel, by decide +kernel,
      by decide +kernel⟩, rfl, by decide +kernel, by decide +kernel, by decide +kernel⟩
  have hall := busy_wraps hn hkey hsession (by decide +kernel) (by decide +kernel)
  unfold after
  rw [foldl_append]
  exact hall

theorem enqueuedItems_busy (n : Nat) : (enqueuedItems (session ++ busy n)).length = n + 1 := by
  have hlow : ∀ n, (enqueuedItems (lowTicks n)).length = n := by
    intro n
    induction n with
    | zero => rfl
    | succ n ih => exact congrArg (· + 1) ih
  simpa [busy, enqueuedItems, session, whoAreYou] using hlow n

/-- The keyed item is replaced while the older one waits for its retry. -/
def renewed : List Event := session ++ [.enqueue keyedItem, .maintain (maintenance 10040),
  .enqueue { keyedItem with data := [4] }, .maintain (maintenance 10050),
  .maintain (maintenance 11000)]

end Sample

namespace Client

theorem latest_item_wins_sample :
    ((Stamped.start (Client.new .sample 1 2)).run .sample Sample.renewed).ledger.highLog.map
      Mark.stamp = [0, 1, 1] ∧ (Sample.after Sample.renewed).UniqueKeys := by
  refine ⟨by decide +kernel, (latest_item_wins (Sample.run_after Sample.renewed) ?_).1⟩
  decide +kernel

/-- One item more: the keyed item goes out under number 0, its retry is taken for a
first send, and the key is pending twice. -/
theorem latest_item_wins_wrap :
    (enqueuedItems (Sample.session ++ Sample.busy (2 ^ 64 - 2048))).length = 2 ^ 64 - 2047 ∧
    ∃ c, Run.run (next .sample) (Client.new .sample 1 2)
      (Sample.session ++ Sample.busy (2 ^ 64 - 2048)) = some c ∧ ¬ c.UniqueKeys := by
  refine ⟨(Sample.enqueuedItems_busy _).trans (by decide), _, Sample.run_after _, fun h => ?_⟩
  have htwice := Sample.session_busy_wraps (n := 2 ^ 64 - 2048) (by decide)
  have hnodup := h.pendingH
  rw [show dedupKey = id ∘ dedupKey from rfl, ← filterMap_map, htwice]
    at hnodup
  exact absurd hnodup (by decide)

end Client

end MoonProto
