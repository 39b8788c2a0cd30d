import MoonProto.Client.Ledger

/-!
# The phases of the send phase, on the ledger

What each phase of a tick does to the stamped lists and to the log, in terms of the
marks alone: which items a phase sends for, which it keeps, and how many numbers
it draws. The High side and the Sliced side are separate: every phase leaves one of
them as it was.
-/

namespace MoonProto

open Codec LatestWins List Option

def Entry.highMark : Entry → Option (Mark UniqueKey)
  | .high mark _ _ => some mark
  | _ => none

def Entry.sliceMark : Entry → Option (Mark UniqueKey)
  | .slice mark _ => some mark
  | _ => none

def Entry.highEntry : Entry → Option (Mark UniqueKey × Option UInt64 × UInt8 × Bytes)
  | .high mark num msg => some (mark, num, msg)
  | _ => none

def Entry.ackedSlider : Entry → Option Slider
  | .acked slider => some slider
  | _ => none

/-- The items that a run enqueues. -/
def enqueuedItems (events : List Event) : List SendItem :=
  events.filterMap fun
    | .enqueue item => some item
    | _ => none

namespace Ledger

/-- The items that High messages were sent for, in order. -/
def highLog (l : Ledger) : List (Mark UniqueKey) := l.log.filterMap Entry.highMark

/-- The High messages, each with its item and its number. -/
def highEntries (l : Ledger) : List (Mark UniqueKey × Option UInt64 × UInt8 × Bytes) :=
  l.log.filterMap Entry.highEntry

theorem highLog_eq (l : Ledger) : l.highLog = l.highEntries.map Prod.fst := by
  unfold highLog highEntries
  rw [map_filterMap]
  refine filterMap_congr fun e _ => ?_
  cases e with
  | high | direct | slice | acked => rfl

/-- The items that slices were sent for, in order. -/
def slicedLog (l : Ledger) : List (Mark UniqueKey) := l.log.filterMap Entry.sliceMark

def highSender (l : Ledger) : Sender UniqueKey :=
  ⟨l.high.map markOf, l.pendingH.map markOf, l.highLog⟩

def slicedSender (l : Ledger) : Sender UniqueKey :=
  ⟨l.sliced.map markOf, l.sending.map (·.tag.2), l.slicedLog⟩

/-- The bitmaps that were applied, in order. -/
def acks (l : Ledger) : List Slider := l.log.filterMap Entry.ackedSlider

/-- What only `enqueue` and the snapshot touch. -/
def arrivals (l : Ledger) : List SendItem × List (Nat × SendItem) × List (Nat × SendItem) :=
  (l.born, l.sliced, l.high)

end Ledger

namespace Stamped

variable (env : Env) (t : Stamped) (lItems : List SendItem) (curTm : Int) (pacing : Pacing)

/-- The last message number. -/
def counter (t : Stamped) : Nat := t.client.out.cryptMsgCounter.toNat

theorem toNat_succ_le (n : UInt64) : (n + 1).toNat ≤ n.toNat + 1 := by
  rw [UInt64.toNat_add]
  exact Nat.mod_le _ _

theorem toNat_succ {n : UInt64} (h : n.toNat + 1 < 2 ^ 64) : (n + 1).toNat = n.toNat + 1 := by
  rw [UInt64.toNat_add]
  exact Nat.mod_eq_of_lt h

theorem succ_ne_zero_of_lt {n : UInt64} (h : n.toNat + 1 < 2 ^ 64) : n + 1 ≠ 0 := by
  intro hzero
  have hnat := toNat_succ h
  rw [hzero] at hnat
  exact absurd hnat.symm (Nat.succ_ne_zero _)

/-- The High side is as it was. -/
structure SameHigh (t t' : Stamped) : Prop where
  pendingH : t'.ledger.pendingH = t.ledger.pendingH
  entries : t'.ledger.highEntries = t.ledger.highEntries

theorem SameHigh.trans {t₁ t₂ t₃ : Stamped} (h : SameHigh t₁ t₂) (h' : SameHigh t₂ t₃) :
    SameHigh t₁ t₃ := ⟨h'.pendingH.trans h.pendingH, h'.entries.trans h.entries⟩

theorem SameHigh.highLog {t t' : Stamped} (h : SameHigh t t') :
    t'.ledger.highLog = t.ledger.highLog := by
  rw [Ledger.highLog_eq, Ledger.highLog_eq, h.entries]

/-- The Sliced side is as it was. -/
structure SameSliced (t t' : Stamped) : Prop where
  sending : t'.ledger.sending = t.ledger.sending
  log : t'.ledger.slicedLog = t.ledger.slicedLog

theorem SameSliced.trans {t₁ t₂ t₃ : Stamped} (h : SameSliced t₁ t₂) (h' : SameSliced t₂ t₃) :
    SameSliced t₁ t₃ := ⟨h'.sending.trans h.sending, h'.log.trans h.log⟩

/-- From `t` to `t'` at most `n` numbers were drawn. -/
structure Draws (n : Nat) (t t' : Stamped) : Prop where
  le : t'.counter ≤ t.counter + n
  mono : t.counter + n < 2 ^ 64 → t.counter ≤ t'.counter

theorem Draws.of_eq {n : Nat} {t t' : Stamped} (h : t'.counter = t.counter) : Draws n t t' :=
  ⟨h ▸ Nat.le_add_right _ _, fun _ => Nat.le_of_eq h.symm⟩

theorem Draws.trans {n n' : Nat} {t₁ t₂ t₃ : Stamped} (h : Draws n t₁ t₂) (h' : Draws n' t₂ t₃) :
    Draws (n + n') t₁ t₃ := by
  obtain ⟨hle, hmono⟩ := h
  obtain ⟨hle', hmono'⟩ := h'
  refine ⟨by omega, fun hbound => ?_⟩
  exact Nat.le_trans (hmono (by omega)) (hmono' (by omega))

theorem Draws.one {t t' : Stamped}
    (h : t'.client.out.cryptMsgCounter = t.client.out.cryptMsgCounter ∨
      t'.client.out.cryptMsgCounter = t.client.out.cryptMsgCounter + 1) : Draws 1 t t' := by
  rcases h with heq | heq
  · exact .of_eq (congrArg UInt64.toNat heq)
  · refine ⟨?_, fun hbound => ?_⟩
    · show t'.client.out.cryptMsgCounter.toNat ≤ _
      rw [heq]
      exact toNat_succ_le _
    · show _ ≤ t'.client.out.cryptMsgCounter.toNat
      rw [heq, toNat_succ hbound]
      exact Nat.le_succ _

/-! ## The phases -/

/-- What is written down besides High messages has no mark. -/
theorem note_same (c : Client) :
    SameHigh t (t.note c .direct) ∧ SameSliced t (t.note c .direct) := by
  have hnone : ∀ {α : Type} {f : Entry → Option α}, (∀ msg, f (.direct msg) = none) →
      ∀ msgs : List (UInt8 × Bytes),
        (t.ledger.log ++ msgs.map Entry.direct).filterMap f = t.ledger.log.filterMap f := by
    intro α f hf msgs
    have hnil : msgs.filterMap (f ∘ Entry.direct) = [] :=
      filterMap_eq_nil_iff.mpr fun m _ => hf m
    rw [filterMap_append, filterMap_map, hnil, append_nil]
  exact ⟨⟨rfl, hnone (fun _ => rfl) _⟩, ⟨rfl, hnone (fun _ => rfl) _⟩⟩

/-- Every datagram in flight carries the mark of its item. -/
def Tagged (t : Stamped) : Prop := ∀ s ∈ t.ledger.sending, s.tag.2.key = s.dedupKey

theorem createAll : ∀ (xs : List (Nat × SendItem)) (t : Stamped),
    SameHigh t (xs.foldl (fun t x => t.createSlicedAndSend env x) t) ∧
    (xs.foldl (fun t x => t.createSlicedAndSend env x) t).ledger.slicedLog = t.ledger.slicedLog ∧
    ((xs.foldl (fun t x => t.createSlicedAndSend env x) t).ledger.sending.map
      (·.tag.2)).Subperm (t.ledger.sending.map (·.tag.2) ++ xs.map markOf) ∧
    (t.Tagged → (xs.foldl (fun t x => t.createSlicedAndSend env x) t).Tagged) ∧
    Draws xs.length t (xs.foldl (fun t x => t.createSlicedAndSend env x) t)
  | [], t => ⟨⟨rfl, rfl⟩, rfl, (sublist_append_left _ _).subperm, id, .of_eq rfl⟩
  | x :: xs, t => by
    obtain ⟨hhigh, hlog, hperm, htag, hcount⟩ := createAll xs (t.createSlicedAndSend env x)
    obtain ⟨-, -, hcounter, -⟩ := Client.createSlicedAndSend_spec env t.client x.2
    have hone : ((t.createSlicedAndSend env x).ledger.sending.map (·.tag.2)).Subperm
        (t.ledger.sending.map (·.tag.2) ++ [markOf x]) ∧
        (t.Tagged → (t.createSlicedAndSend env x).Tagged) := by
      unfold Tagged Stamped.createSlicedAndSend
      simp only
      cases t.client.slicedMessage env x.2 with
      | none => exact ⟨(sublist_append_left _ _).subperm, id⟩
      | some m =>
        simp only
        constructor
        · have hins := (SentSliced.insertByBlocks_perm (t.client.newSliced x.2 m.1
            (m.2, markOf x)) t.ledger.sending).map (·.tag.2)
          exact (hins.trans (@List.perm_append_comm _ [_] _)).subperm
        · intro h s hs
          rcases SentSliced.mem_insertByBlocks.mp hs with rfl | hs
          · rfl
          · exact h s hs
    refine ⟨⟨hhigh.pendingH, hhigh.entries⟩, hlog, ?_, htag ∘ hone.2, ?_⟩
    · rw [map_cons, append_cons]
      exact hperm.trans ((subperm_append_right _).mpr hone.1)
    · rw [length_cons, Nat.add_comm]
      exact (Draws.one hcounter).trans hcount

theorem applyCopyAcks_sending (acks : List SlicedAck) (curTm : Int) :
    ((t.applyCopyAcks acks curTm).ledger.sending.map SentSliced.ident).Sublist
      (t.ledger.sending.map SentSliced.ident) := by
  have hacks : ∀ (acks : List SlicedAck)
      (sending : List (SentSliced (Option Nat × Mark UniqueKey))),
      ((acks.foldl (fun s ack => SentSliced.applySlicedAck ack curTm s) sending).map
        SentSliced.ident).Sublist (sending.map SentSliced.ident) := by
    intro acks
    induction acks with
    | nil => exact fun _ => Sublist.refl _
    | cons ack acks ih =>
      exact fun sending => (ih _).trans (SentSliced.ident_applySlicedAck ack curTm sending)
  exact hacks acks t.ledger.sending

/-- Keys and tags are kept together. -/
theorem tagged_of_ident {l l' : List (SentSliced (Option Nat × Mark UniqueKey))}
    (h : ∀ s ∈ l, s.tag.2.key = s.dedupKey)
    (hsub : (l'.map SentSliced.ident).Sublist (l.map SentSliced.ident)) :
    (∀ s ∈ l', s.tag.2.key = s.dedupKey) ∧ (l'.map (·.tag.2)).Sublist (l.map (·.tag.2)) := by
  constructor
  · intro s hs
    obtain ⟨s', hs', heq⟩ := List.mem_map.mp (hsub.subset (List.mem_map_of_mem hs))
    obtain ⟨hkey, htag⟩ := Prod.mk.inj heq
    unfold SentSliced.dedupKey
    rw [← htag, ← hkey]
    exact h s' hs'
  · have hmap := hsub.map fun p : UniqueKey × Option Nat × Mark UniqueKey => p.2.2
    rw [List.map_map, List.map_map] at hmap
    exact hmap

theorem applyRegularHlAck_same : SameSliced t t.applyRegularHlAck ∧
      t.applyRegularHlAck.ledger.highEntries = t.ledger.highEntries ∧
      t.applyRegularHlAck.ledger.pendingH.Sublist t.ledger.pendingH ∧
      t.applyRegularHlAck.counter = t.counter := by
  have hcounter : t.applyRegularHlAck.counter = t.counter := by
    unfold counter Stamped.applyRegularHlAck Client.applyRegularHlAck
    simp only
    split <;> rfl
  refine ⟨?_, ?_, ?_, hcounter⟩
  · unfold Stamped.applyRegularHlAck
    simp only
    split
    · exact ⟨rfl, rfl⟩
    · exact ⟨rfl, by simp [Ledger.slicedLog, Entry.sliceMark]⟩
  · unfold Stamped.applyRegularHlAck
    simp only
    split
    · rfl
    · simp [Ledger.highEntries, Entry.highEntry]
  · unfold Stamped.applyRegularHlAck
    simp only
    split
    · exact Sublist.refl _
    · exact filter_sublist

/-- **A High item**: the ledger behind `send_h_item`. -/
theorem sendHItem_ledger (x : Nat × SendItem) (curTm : Int) :
    ∃ msgs kept, Client.HSend env t.client x.2 curTm msgs kept ∧
      (t.sendHItem env x curTm).ledger.pendingH = t.ledger.pendingH ++ kept.map (x.1, ·) ∧
      (t.sendHItem env x curTm).ledger.log = t.ledger.log ++ msgs.map (.high (markOf x)
        (if x.2.encrypted then some (t.client.msgNumFor x.2).1 else none)) ∧
      (t.sendHItem env x curTm).client.out.cryptMsgCounter
        = if x.2.encrypted = true ∧ x.2.msgNum = 0 then t.client.out.cryptMsgCounter + 1
          else t.client.out.cryptMsgCounter := by
  obtain ⟨msgs, kept, hsend, hmsgs, hheld⟩ := Client.sendHItem_spec env t.client x.2 curTm
  have hpend : (t.client.sendHItem env x.2 curTm).out.pendingH = t.client.out.pendingH ++ kept :=
    congrArg Prod.fst hheld
  refine ⟨msgs, kept, hsend, ?_, ?_, congrArg (fun held => held.2.2.1) hheld⟩
  · unfold Stamped.sendHItem
    simp only [hpend, drop_left]
  · unfold Stamped.sendHItem note
    simp only [hmsgs, drop_left]

/-- One High item: at most one entry and at most one copy, both under its mark. -/
theorem sendHItem_marks (x : Nat × SendItem) (curTm : Int) :
    SameSliced t (t.sendHItem env x curTm) ∧ ∃ kept firsts,
      (t.sendHItem env x curTm).ledger.pendingH = t.ledger.pendingH ++ kept ∧
      (t.sendHItem env x curTm).ledger.highLog = t.ledger.highLog ++ firsts ∧
      (kept.map markOf).Sublist [markOf x] ∧ firsts.Sublist [markOf x] ∧
      (t.sendHItem env x curTm).counter ≤ t.counter + 1 ∧
      (x.2.msgNum ≠ 0 → kept = [] ∧ (t.sendHItem env x curTm).counter = t.counter) ∧
      (t.counter + 1 < 2 ^ 64 → ∀ y ∈ kept, y.2.msgNum ≠ 0) := by
  obtain ⟨msgs, kept, hsend, hpending, hlog, hcounter⟩ := sendHItem_ledger env t x curTm
  have hle : (t.sendHItem env x curTm).counter ≤ t.counter + 1 := by
    unfold counter
    rw [hcounter]
    split
    · exact toNat_succ_le _
    · exact Nat.le_succ _
  have hsame : x.2.msgNum ≠ 0 → (t.sendHItem env x curTm).counter = t.counter := by
    intro hnum
    unfold counter
    rw [hcounter, if_neg fun h => hnum h.2]
  have hsliced : (t.sendHItem env x curTm).ledger.slicedLog = t.ledger.slicedLog := by
    unfold Ledger.slicedLog
    rw [hlog, filterMap_append, filterMap_map]
    exact (congrArg _ (filterMap_eq_nil_iff.mpr fun _ _ => rfl)).trans (append_nil _)
  have hhigh : (t.sendHItem env x curTm).ledger.highLog
      = t.ledger.highLog ++ msgs.map fun _ => markOf x := by
    unfold Ledger.highLog
    rw [hlog, filterMap_append, filterMap_map]
    exact congrArg _ (filterMap_eq_map' ▸ rfl)
  refine ⟨⟨rfl, hsliced⟩, kept.map (x.1, ·), msgs.map fun _ => markOf x, hpending, hhigh, ?_, ?_,
    hle, ?_, ?_⟩
  · cases hsend with
    | unsealed | plain | once => exact nil_sublist _
    | kept => exact Sublist.refl _
  · cases hsend with
    | unsealed => exact nil_sublist _
    | plain | once | kept => exact Sublist.refl _
  · intro hnum
    refine ⟨?_, hsame hnum⟩
    cases hsend with
    | unsealed | plain | once => rfl
    | kept _ _ _ hfirst => exact absurd hfirst hnum
  · intro hbound
    cases hsend with
    | unsealed | plain | once => exact nofun
    | kept _ _ _ hfirst =>
      intro y hy
      rw [mem_singleton.mp hy]
      show (t.client.msgNumFor x.2).1 ≠ 0
      rw [Client.msgNumFor_num, if_neg (not_not_intro hfirst)]
      exact succ_ne_zero_of_lt hbound

theorem sendHItems_marks : ∀ (xs : List (Nat × SendItem)) (t : Stamped),
    SameSliced t (t.sendHItems env xs curTm) ∧ ∃ kept firsts,
      (t.sendHItems env xs curTm).ledger.pendingH = t.ledger.pendingH ++ kept ∧
      (t.sendHItems env xs curTm).ledger.highLog = t.ledger.highLog ++ firsts ∧
      (kept.map markOf).Sublist (xs.map markOf) ∧ firsts.Sublist (xs.map markOf) ∧
      (t.sendHItems env xs curTm).counter ≤ t.counter + xs.length ∧
      ((∀ x ∈ xs, x.2.msgNum ≠ 0) → kept = [] ∧ (t.sendHItems env xs curTm).counter = t.counter) ∧
      (t.counter + xs.length < 2 ^ 64 → ∀ y ∈ kept, y.2.msgNum ≠ 0)
  | [], t => ⟨⟨rfl, rfl⟩, [], [], (append_nil _).symm, (append_nil _).symm,
      Sublist.refl _, Sublist.refl _, Nat.le_refl _, fun _ => ⟨rfl, rfl⟩,
      nofun⟩
  | x :: xs, t => by
    obtain ⟨hsliced, kept, firsts, hpend, hlog, hkept, hfirsts, hle, hretry, hnum⟩ :=
      sendHItem_marks env t x curTm
    obtain ⟨hsliced', kept', firsts', hpend', hlog', hkept', hfirsts', hle', hretry', hnum'⟩ :=
      sendHItems_marks xs (t.sendHItem env x curTm)
    refine ⟨hsliced.trans hsliced', kept ++ kept', firsts ++ firsts', ?_, ?_, ?_, ?_, ?_, ?_, ?_⟩
    · rw [← append_assoc, ← hpend]
      exact hpend'
    · rw [← append_assoc, ← hlog]
      exact hlog'
    · rw [map_append]
      exact hkept.append hkept'
    · exact hfirsts.append hfirsts'
    · rw [length_cons]
      exact Nat.le_trans hle' (by omega)
    · intro hx
      obtain ⟨hnil, hc⟩ := hretry (hx x mem_cons_self)
      obtain ⟨hnil', hc'⟩ := hretry' fun y hy => hx y (mem_cons_of_mem x hy)
      exact ⟨by rw [hnil, hnil']; rfl, hc'.trans hc⟩
    · intro hbound y hy
      rw [length_cons] at hbound
      rcases mem_append.mp hy with hy | hy
      · exact hnum (by omega) y hy
      · exact hnum' (by omega) y hy

theorem markOf_stamped {f : SendItem → Option SendItem} (hf : ∀ i j, f i = some j → j.uKey = i.uKey)
    {x y : Nat × SendItem} (h : stamped f x = some y) : markOf y = markOf x := by
  obtain ⟨j, hj, rfl⟩ := map_eq_some_iff.mp h
  unfold markOf SendItem.dedupKey
  rw [hf _ _ hj]

theorem keptOf_spec {curTm pathDelay : Int} {i j : SendItem}
    (h : Client.keptOf curTm pathDelay i = some j) : j.uKey = i.uKey ∧ j.msgNum = i.msgNum := by
  unfold Client.keptOf at h
  split at h
  · split at h
    · cases h
    · cases h
      exact ⟨rfl, rfl⟩
  · cases h
    exact ⟨rfl, rfl⟩

theorem resendOf_spec {curTm pathDelay : Int} {i j : SendItem}
    (h : Client.resendOf curTm pathDelay i = some j) : j.uKey = i.uKey ∧ j.msgNum = i.msgNum := by
  unfold Client.resendOf at h
  split at h
  · cases h
    exact ⟨rfl, rfl⟩
  · cases h

theorem map_markOf_filterMap {f : SendItem → Option SendItem}
    (hf : ∀ i j, f i = some j → j.uKey = i.uKey) : ∀ xs : List (Nat × SendItem),
    ((xs.filterMap (stamped f)).map markOf).Sublist (xs.map markOf)
  | [] => Sublist.refl _
  | x :: xs => by
    have ih := map_markOf_filterMap hf xs
    rw [map_cons]
    cases hx : stamped f x with
    | none =>
      rw [filterMap_cons_none hx]
      exact ih.cons _
    | some y =>
      rw [filterMap_cons_some hx, map_cons, markOf_stamped hf hx]
      exact ih.cons_cons _

/-- **Retries** send and keep some of what is pending, under the same numbers. -/
theorem retryPendingH_marks (hnum : ∀ x ∈ t.ledger.pendingH, x.2.msgNum ≠ 0) :
    SameSliced t (t.retryPendingH env curTm) ∧
      ((t.retryPendingH env curTm).ledger.pendingH.map markOf).Sublist
        (t.ledger.pendingH.map markOf) ∧
      (∀ x ∈ (t.retryPendingH env curTm).ledger.pendingH, x.2.msgNum ≠ 0) ∧
      (∃ repeats, (t.retryPendingH env curTm).ledger.highLog = t.ledger.highLog ++ repeats ∧
        repeats.Sublist (t.ledger.pendingH.map markOf)) ∧
      (t.retryPendingH env curTm).counter = t.counter := by
  unfold Stamped.retryPendingH
  simp only
  generalize pendingHPathDelay t.client.session.roundTripDelay = pathDelay
  have hresend : ∀ x ∈ t.ledger.pendingH.filterMap (stamped (Client.resendOf curTm pathDelay)),
      x.2.msgNum ≠ 0 := by
    intro y hy
    obtain ⟨x, hx, hxy⟩ := mem_filterMap.mp hy
    obtain ⟨j, hj, rfl⟩ := map_eq_some_iff.mp hxy
    exact (resendOf_spec hj).2 ▸ hnum x hx
  obtain ⟨hsliced, kept, repeats, hpend, hlog, -, hrep, -, hretry, -⟩ := sendHItems_marks env curTm
    (t.ledger.pendingH.filterMap (stamped (Client.resendOf curTm pathDelay)))
    (t.keepPendingH curTm pathDelay)
  obtain ⟨rfl, hcount⟩ := hretry hresend
  rw [append_nil] at hpend
  refine ⟨⟨hsliced.sending, hsliced.log⟩, ?_, ?_, ⟨repeats, hlog, ?_⟩, hcount⟩
  · rw [hpend]
    exact map_markOf_filterMap (fun _ _ h => (keptOf_spec h).1) _
  · rw [hpend]
    intro y hy
    obtain ⟨x, hx, hxy⟩ := mem_filterMap.mp hy
    obtain ⟨j, hj, rfl⟩ := map_eq_some_iff.mp hxy
    exact (keptOf_spec hj).2 ▸ hnum x hx
  · exact hrep.trans (map_markOf_filterMap (fun _ _ h => (resendOf_spec h).1) _)

/-- Low items touch neither side and draw a number each. -/
theorem batchAll_same : ∀ (items : List SendItem) (t : Stamped),
    SameHigh t (items.foldl (fun t item => t.batchSendDirect env item) t) ∧
    SameSliced t (items.foldl (fun t item => t.batchSendDirect env item) t) ∧
    Draws items.length t (items.foldl (fun t item => t.batchSendDirect env item) t)
  | [], _ => ⟨⟨rfl, rfl⟩, ⟨rfl, rfl⟩, .of_eq rfl⟩
  | item :: items, t => by
    obtain ⟨hhigh, hsliced⟩ := note_same t (t.client.batchSendDirect env item)
    obtain ⟨hhigh', hsliced', hdraws⟩ := batchAll_same items (t.batchSendDirect env item)
    have hheld := (Client.batchSendDirect_spec env t.client item).2
    have hone : Draws 1 t (t.batchSendDirect env item) := by
      refine .one ?_
      rw [show (t.batchSendDirect env item).client.out.cryptMsgCounter = _ from
        congrArg (fun held => held.2.2.1) hheld]
      simp only
      split
      · exact .inr rfl
      · exact .inl rfl
    refine ⟨hhigh.trans hhigh', hsliced.trans hsliced', ?_⟩
    rw [length_cons, Nat.add_comm]
    exact hone.trans hdraws

theorem flushSendBatch_same :
    SameHigh t (t.flushSendBatch env) ∧ SameSliced t (t.flushSendBatch env) ∧
      (t.flushSendBatch env).counter = t.counter := by
  obtain ⟨hhigh, hsliced⟩ := note_same t (t.client.flushSendBatch env)
  exact ⟨hhigh, hsliced, congrArg (fun held : _ × _ × UInt64 × _ => held.2.2.1.toNat)
    (Client.held_flushSendBatch env t.client)⟩

/-- **A pass over the datagrams in flight** sends slices of some and keeps some. -/
theorem retrySliced_marks : SameHigh t (t.retrySliced env curTm pacing) ∧
      ((t.retrySliced env curTm pacing).ledger.sending.map SentSliced.ident).Sublist
        (t.ledger.sending.map SentSliced.ident) ∧
      (∃ repeats, (t.retrySliced env curTm pacing).ledger.slicedLog
          = t.ledger.slicedLog ++ repeats ∧
        ∀ m ∈ repeats, m ∈ t.ledger.sending.map (·.tag.2)) ∧
      (t.retrySliced env curTm pacing).counter = t.counter := by
  have hcounter : (t.retrySliced env curTm pacing).counter = t.counter :=
    congrArg (fun held : _ × _ × UInt64 × _ => held.2.2.1.toNat)
      (Client.retrySliced_spec env t.client curTm pacing).2
  obtain ⟨-, hsent⟩ := SentSliced.retryPass_spec curTm pacing.pathDelay pacing.clientLimit
    t.ledger.sending 0 curTm
  have hkept := SentSliced.ident_retryPass curTm pacing.pathDelay pacing.clientLimit
    t.ledger.sending 0 curTm
  refine and_assoc.mp (and_assoc.mp ⟨?_, hcounter⟩)
  unfold Stamped.retrySliced
  simp only
  split
  · refine ⟨⟨⟨rfl, ?_⟩, hkept⟩, _, filterMap_append, ?_⟩
    · unfold Ledger.highEntries
      rw [filterMap_append, filterMap_map]
      exact (congrArg _ (filterMap_eq_nil_iff.mpr fun _ _ => rfl)).trans (append_nil _)
    · intro m hm
      rw [filterMap_map] at hm
      obtain ⟨slice, hslice, hmark⟩ := mem_filterMap.mp hm
      obtain ⟨s, hs, -, htag⟩ := hsent slice hslice
      refine List.mem_map.mpr ⟨s, hs, ?_⟩
      rw [← htag]
      exact Option.some.inj hmark
  · exact ⟨⟨⟨rfl, rfl⟩, Sublist.refl _⟩, [], (append_nil _).symm, nofun⟩

/-- The end of the send phase: the Low items around a pass over the datagrams. -/
theorem sendLowItems_marks : SameHigh t (t.sendLowItemsAroundSlicedRetry env lItems curTm pacing) ∧
      ((t.sendLowItemsAroundSlicedRetry env lItems curTm pacing).ledger.sending.map
        SentSliced.ident).Sublist (t.ledger.sending.map SentSliced.ident) ∧
      (∃ repeats, (t.sendLowItemsAroundSlicedRetry env lItems curTm pacing).ledger.slicedLog
          = t.ledger.slicedLog ++ repeats ∧
        ∀ m ∈ repeats, m ∈ t.ledger.sending.map (·.tag.2)) ∧
      Draws lItems.length t (t.sendLowItemsAroundSlicedRetry env lItems curTm pacing) := by
  unfold Stamped.sendLowItemsAroundSlicedRetry
  simp only
  obtain ⟨hh₁, hs₁, hc₁⟩ := batchAll_same env (lItems.take 1) t
  generalize (lItems.take 1).foldl (fun t item => t.batchSendDirect env item) t = t₁ at *
  obtain ⟨hh₂, hs₂, hc₂⟩ := flushSendBatch_same env t₁
  generalize t₁.flushSendBatch env = t₂ at *
  obtain ⟨hh₃, hident, ⟨repeats, hlog, hrep⟩, hc₃⟩ := retrySliced_marks env t₂ curTm pacing
  generalize t₂.retrySliced env curTm pacing = t₃ at *
  obtain ⟨hh₄, hs₄, hc₄⟩ := batchAll_same env (lItems.drop 1) t₃
  generalize (lItems.drop 1).foldl (fun t item => t.batchSendDirect env item) t₃ = t₄ at *
  obtain ⟨hh₅, hs₅, hc₅⟩ := flushSendBatch_same env t₄
  have hbefore := hs₁.trans hs₂
  have hbehind := hs₄.trans hs₅
  have hlen : (lItems.take 1).length + (lItems.drop 1).length = lItems.length := by
    rw [← length_append, take_append_drop]
  refine ⟨(((hh₁.trans hh₂).trans hh₃).trans hh₄).trans hh₅, ?_, ⟨repeats, ?_, ?_⟩, ?_⟩
  · rw [hbehind.sending, ← hbefore.sending]
    exact hident
  · rw [hbehind.log, ← hbefore.log]
    exact hlog
  · rw [← hbefore.sending]
    exact hrep
  · have hnone : Draws 0 t₁ t₃ := .of_eq (hc₃.trans hc₂)
    have hall := ((hc₁.trans hnone).trans hc₄).trans (.of_eq (n := 0) hc₅)
    rwa [Nat.add_zero, Nat.add_zero, hlen] at hall

/-! ## What the send phase leaves alone -/

/-- A phase touches no queue and adds entries of a kind to the log. -/
structure Writes (p : Entry → Prop) (t t' : Stamped) : Prop where
  arrivals : t'.ledger.arrivals = t.ledger.arrivals
  log : ∃ new, t'.ledger.log = t.ledger.log ++ new ∧ ∀ entry ∈ new, p entry

/-- No bitmap is among the entries. -/
abbrev WritesNoAck : Stamped → Stamped → Prop := Writes fun entry => entry.ackedSlider = none

namespace Writes

variable {p : Entry → Prop} {t t' t₁ t₂ t₃ : Stamped}

theorem nothing (harr : t'.ledger.arrivals = t.ledger.arrivals)
    (hlog : t'.ledger.log = t.ledger.log) : Writes p t t' :=
  ⟨harr, [], by rw [hlog, append_nil], nofun⟩

theorem note (t : Stamped) (c : Client) {entry : UInt8 × Bytes → Entry}
    (h : ∀ msg, p (entry msg)) : Writes p t (t.note c entry) :=
  ⟨rfl, _, rfl, List.forall_mem_map.mpr fun msg _ => h msg⟩

theorem trans (h : Writes p t₁ t₂) (h' : Writes p t₂ t₃) : Writes p t₁ t₃ := by
  obtain ⟨new, hnew, hp⟩ := h.log
  obtain ⟨new', hnew', hp'⟩ := h'.log
  refine ⟨h'.arrivals.trans h.arrivals, new ++ new', ?_, forall_mem_append.mpr ⟨hp, hp'⟩⟩
  rw [hnew', hnew, append_assoc]

theorem foldl {α : Type} {f : Stamped → α → Stamped} (hf : ∀ t a, Writes p t (f t a)) :
    ∀ (as : List α) (t : Stamped), Writes p t (as.foldl f t)
  | [], _ => nothing rfl rfl
  | a :: as, t => (hf t a).trans (foldl hf as (f t a))

theorem any (h : Writes p t t') : Writes (fun _ => True) t t' :=
  ⟨h.arrivals, h.log.imp fun _ hnew => ⟨hnew.1, fun _ _ => trivial⟩⟩

theorem isPrefix (h : Writes p t t') : t.ledger.log <+: t'.ledger.log :=
  h.log.imp fun _ hnew => hnew.1.symm

theorem acks (h : WritesNoAck t t') : t'.ledger.acks = t.ledger.acks := by
  obtain ⟨new, hnew, hnone⟩ := h.log
  unfold Ledger.acks
  rw [hnew, filterMap_append, filterMap_eq_nil_iff.mpr hnone, append_nil]

end Writes

theorem writes_sendHItems (xs : List (Nat × SendItem)) (curTm : Int) :
    WritesNoAck t (t.sendHItems env xs curTm) :=
  Writes.foldl (f := fun t x => t.sendHItem env x curTm)
    (fun _ _ => ⟨rfl, _, rfl, List.forall_mem_map.mpr fun _ _ => rfl⟩) xs t

theorem writes_retryPendingH (curTm : Int) : WritesNoAck t (t.retryPendingH env curTm) := by
  unfold Stamped.retryPendingH
  refine Writes.trans ?_ (writes_sendHItems env (t.keepPendingH curTm _) _ curTm)
  exact .nothing rfl rfl

theorem writes_retrySliced : WritesNoAck t (t.retrySliced env curTm pacing) := by
  unfold Stamped.retrySliced
  simp only
  split
  · exact ⟨rfl, _, rfl, List.forall_mem_map.mpr fun _ _ => rfl⟩
  · exact .nothing rfl rfl

theorem writes_sendLowItems :
    WritesNoAck t (t.sendLowItemsAroundSlicedRetry env lItems curTm pacing) := by
  have hlow : ∀ (items : List SendItem) (t : Stamped),
      WritesNoAck t (items.foldl (fun t item => t.batchSendDirect env item) t) :=
    Writes.foldl fun t item => .note t (t.client.batchSendDirect env item) fun _ => rfl
  have hflush : ∀ t : Stamped, WritesNoAck t (t.flushSendBatch env) := fun t =>
    .note t _ fun _ => rfl
  -- from the last phase to the first
  refine Writes.trans ?_ (hflush _)
  refine Writes.trans ?_ (hlow _ _)
  refine Writes.trans ?_ (writes_retrySliced env _ curTm pacing)
  exact (hlow _ t).trans (hflush _)

theorem writes_create (xs : List (Nat × SendItem)) :
    WritesNoAck t (xs.foldl (fun t x => t.createSlicedAndSend env x) t) :=
  Writes.foldl (f := fun t x => t.createSlicedAndSend env x) (fun _ _ => .nothing rfl rfl) xs t

theorem writes_slicedPhase (sliced : List (Nat × SendItem)) (acks : List SlicedAck) (curTm : Int) :
    Writes (fun _ => True) t ((sliced.foldl (fun t x => t.createSlicedAndSend env x)
      (t.applySlicedSendUKeyCleanup sliced)).applyCopyAcks acks curTm).applyRegularHlAck := by
  have hcreate := (writes_create env (t.applySlicedSendUKeyCleanup sliced) sliced).any
  unfold Stamped.applyRegularHlAck
  simp only
  split
  · exact ⟨hcreate.arrivals, hcreate.log⟩
  · exact .trans ⟨hcreate.arrivals, hcreate.log⟩ ⟨rfl, _, rfl, fun _ _ => trivial⟩

theorem writes_checkSeningData (sliced high : List (Nat × SendItem))
    (low : List SendItem) (acks : List SlicedAck) (curTm : Int) (pacing : Pacing) :
    Writes (fun _ => True) t (t.checkSeningData env sliced high low acks curTm pacing) := by
  refine Writes.trans ?_ (writes_sendLowItems env _ low curTm pacing).any
  refine Writes.trans ?_ (writes_retryPendingH env _ curTm).any
  refine Writes.trans ?_ (writes_sendHItems env _ high curTm).any
  have hphase := writes_slicedPhase env t sliced acks curTm
  exact ⟨hphase.arrivals, hphase.log⟩

/-- The bitmap that is applied confirms nothing of what stays pending. -/
theorem applyRegularHlAck_acks : ∃ new,
    t.applyRegularHlAck.ledger.acks = t.ledger.acks ++ new ∧ ∀ slider ∈ new,
      ∀ x ∈ t.applyRegularHlAck.ledger.pendingH, slider.ackConfirmsMsg x.2.msgNum ≠ some true := by
  unfold Stamped.applyRegularHlAck
  simp only
  split
  · exact ⟨[], (append_nil _).symm, nofun⟩
  refine ⟨[t.client.inb.recvdSlider], filterMap_append, fun slider hs x hx => ?_⟩
  rw [mem_singleton.mp hs]
  have hkeep := (mem_filter.mp hx).2
  exact fun heq => absurd hkeep (by rw [heq]; decide)

/-! ### The log only grows -/

theorem log_step (e : Event) : t.ledger.log <+: (t.step env e).ledger.log := by
  cases e with
  | enqueue => exact prefix_refl _
  | maintain m =>
    show t.ledger.log <+: (t.maintain env m).ledger.log
    unfold Stamped.maintain
    split
    · exact prefix_refl _
    have hphase := writes_checkSeningData env t.takeSnapshot t.ledger.sliced t.ledger.high
      t.client.sendLock.sendQueues.low t.client.sendLock.incomingSlicedAcks m.curTm m.pacing
    refine hphase.isPrefix.trans ?_
    show (t.copySendAckAndCheckSeningData env m.curTm m.pacing).ledger.log <+: _
    unfold Stamped.transportReconnectTailTick
    simp only
    split
    · exact prefix_append _ _
    · exact prefix_append _ _
  | requestShutdown | disconnect | wake | receive => exact prefix_append _ _

theorem log_run : ∀ (events : List Event) (t : Stamped),
    t.ledger.log <+: (t.run env events).ledger.log
  | [], _ => prefix_refl _
  | e :: events, t => (log_step env t e).trans (log_run events (t.step env e))

end Stamped

end MoonProto
