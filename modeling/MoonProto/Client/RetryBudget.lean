import MoonProto.Client.UniqueKeys
import MoonProto.Lib.Retries

/-!
# The retry budget of High items

The High side of the client refines the sender of `Retries`: an item waits in the
queue, is sent under a new number, and a copy is kept for its retries; ACKs and
newer items with the key make the client forget a copy. Every step of the client
that keeps its session is a sequence of acts of that sender (`step_acts`), and the
limits follow from its invariant.

What the sender does not see is the content of the messages. `Faithful` adds it: a
copy stands for its item, and every message seals the item's command.
-/

namespace MoonProto

open Codec LatestWins Retries List Option

/-! ## The client as a sender with retries -/

/-- As the client's constructors build an item. -/
structure SendItem.Fresh (item : SendItem) : Prop where
  msgNum : item.msgNum = 0
  retryLeft : item.retryLeft = initialRetryLeft item.encrypted item.maxRetries

/-- How often an item may be sent. -/
def SendItem.retryLimit (item : SendItem) : Nat := max 1 item.maxRetries.toNat

def retryLimits (items : List SendItem) (i : Nat) : Nat :=
  (items[i]?.map SendItem.retryLimit).getD 0

/-- What goes over the wire for an item. -/
def SendItem.wire (item : SendItem) : UInt8 × Bytes := maybeCompress item.cmd item.data

def copyOf (x : Nat × SendItem) : Copy := ⟨x.1, x.2.msgNum.toNat, x.2.retryLeft.toNat⟩

def sentOf (e : Mark UniqueKey × Option UInt64 × UInt8 × Bytes) : Option Sent :=
  e.2.1.map fun k => ⟨e.1.stamp, k.toNat⟩

namespace Stamped

/-- The High side, with the items that wait to be sent for the first time. -/
def retries (t : Stamped) (waiting : List (Nat × SendItem)) : Retries.Sender where
  next := t.ledger.born.length
  used := t.counter
  waiting := waiting.map Prod.fst
  kept := t.ledger.pendingH.map copyOf
  log := t.ledger.highEntries.filterMap sentOf

/-- A pending copy stands for an encrypted item. -/
structure StandsFor (all : List SendItem) (x : Nat × SendItem) : Prop where
  item : ∃ item, all[x.1]? = some item ∧ item.encrypted = true ∧ x.2.wire = item.wire
  encrypted : x.2.encrypted = true
  msgNum : x.2.msgNum ≠ 0
  retryLeft : 0 < x.2.retryLeft

/-- A message seals the command of its item under its number. -/
def Carries (env : Env) (all : List SendItem)
    (e : Mark UniqueKey × Option UInt64 × UInt8 × Bytes) : Prop :=
  ∃ item, all[e.1.stamp]? = some item ∧ (item.encrypted = false → e.2.1 = none) ∧
    (item.encrypted = true → ∃ num, e.2.1 = some num ∧
      Client.Seals env e.2.2 num item.wire.1 item.wire.2)

structure Faithful (env : Env) (all : List SendItem) (waiting : List (Nat × SendItem))
    (t : Stamped) : Prop where
  waiting : ∀ x ∈ waiting, all[x.1]? = some x.2
  pendingH : ∀ x ∈ t.ledger.pendingH, StandsFor all x
  entries : ∀ e ∈ t.ledger.highEntries, Carries env all e

variable {env : Env} {all : List SendItem} {t t' : Stamped} {waiting : List (Nat × SendItem)}

/-- Any number of acts. -/
abbrev Acts (all : List SendItem) : Retries.Sender → Retries.Sender → Prop :=
  Relation.ReflTransGen (Act (retryLimits all))

/-! ## The phases as acts -/

/-- A phase that sends nothing may draw numbers for other messages, and forget copies
for ACKs and newer items with the key. -/
theorem acts_of_shrink (hpend : t'.ledger.pendingH.Sublist t.ledger.pendingH)
    (hentries : t'.ledger.highEntries = t.ledger.highEntries)
    (hborn : t'.ledger.born = t.ledger.born) (hle : t.counter ≤ t'.counter)
    (waiting : List (Nat × SendItem)) : Acts all (t.retries waiting) (t'.retries waiting) := by
  have heq : t'.retries waiting = { t.retries waiting with
      used := t'.counter, kept := t'.ledger.pendingH.map copyOf } := by
    unfold retries
    rw [hentries, hborn]
  rw [heq]
  refine .trans (.single (.draw hle)) (.single ?_)
  exact Act.forget (hpend.map copyOf)

theorem Faithful.shrink (h : t.Faithful env all waiting)
    (hpend : t'.ledger.pendingH.Sublist t.ledger.pendingH)
    (hentries : t'.ledger.highEntries = t.ledger.highEntries) : t'.Faithful env all waiting where
  waiting := h.waiting
  pendingH := fun x hx => h.pendingH x (hpend.subset hx)
  entries := hentries ▸ h.entries

theorem entries_sendHItem (t : Stamped) (x : Nat × SendItem) (curTm : Int)
    {msgs : List (UInt8 × Bytes)} {num : Option UInt64}
    (hlog : (t.sendHItem env x curTm).ledger.log
      = t.ledger.log ++ msgs.map (.high (markOf x) num)) :
    (t.sendHItem env x curTm).ledger.highEntries
      = t.ledger.highEntries ++ msgs.map fun msg => (markOf x, num, msg) := by
  unfold Ledger.highEntries
  rw [hlog, filterMap_append, filterMap_map]
  exact congrArg _ (filterMap_eq_map' ▸ rfl)

theorem retryLimits_of_getElem? {i : Nat} {item : SendItem} (h : all[i]? = some item) :
    retryLimits all i = item.retryLimit := by
  unfold retryLimits
  rw [h]
  rfl

theorem retryLeft_lt_limit {item : SendItem} (h : item.Fresh) :
    item.retryLeft.toNat + 1 ≤ item.retryLimit := by
  have hleft := h.retryLeft
  unfold SendItem.retryLimit initialRetryLeft at *
  split at hleft
  · omega
  · omega

variable {x : Nat × SendItem}

theorem first_number (hfirst : x.2.msgNum = 0) (hbound : t.counter + 1 < 2 ^ 64) :
    (t.client.msgNumFor x.2).1.toNat = t.counter + 1 ∧ (t.client.msgNumFor x.2).1 ≠ 0 := by
  rw [Client.msgNumFor_num, if_neg (not_not_intro hfirst)]
  exact ⟨toNat_succ hbound, succ_ne_zero_of_lt hbound⟩

/-- **A first send**: the item leaves the queue, and if it is encrypted it draws the
next number. -/
theorem first_send (hfresh : ∀ item ∈ all, item.Fresh)
    {rest : List (Nat × SendItem)} (h : t.Faithful env all (x :: rest))
    (hbound : t.counter + 1 < 2 ^ 64) (curTm : Int) :
    Acts all (t.retries (x :: rest)) ((t.sendHItem env x curTm).retries rest) ∧
      (t.sendHItem env x curTm).Faithful env all rest := by
  have hx := h.waiting x mem_cons_self
  have hitem : x.2.Fresh := hfresh x.2 (mem_of_getElem? hx)
  have hrest : ∀ y ∈ rest, all[y.1]? = some y.2 := fun y hy =>
    h.waiting y (mem_cons_of_mem x hy)
  obtain ⟨hnum, hnonzero⟩ := first_number hitem.msgNum hbound
  obtain ⟨msgs, kept, hsend, hpend, hlog, hcounter⟩ := sendHItem_ledger env t x curTm
  have hentries := entries_sendHItem t x curTm hlog
  have hdrawn : x.2.encrypted = true → (t.sendHItem env x curTm).counter = t.counter + 1 := by
    intro henc
    unfold counter
    rw [hcounter, if_pos ⟨henc, hitem.msgNum⟩]
    exact toNat_succ hbound
  have hskip : Acts all (t.retries (x :: rest)) (t.retries rest) := .single (.skip rfl)
  -- a sealed message is a first send with the retries of the item
  have hsealed : x.2.encrypted = true → ∀ {msg}, msgs = [msg] →
      (t.sendHItem env x curTm).ledger.pendingH.map copyOf = t.ledger.pendingH.map copyOf
        ++ (if x.2.retryLeft.toNat = 0 then []
          else [⟨x.1, t.counter + 1, x.2.retryLeft.toNat⟩]) →
      Acts all (t.retries (x :: rest)) ((t.sendHItem env x curTm).retries rest) := by
    intro henc msg hmsgs hkept
    have heq : (t.sendHItem env x curTm).retries rest = { t.retries (x :: rest) with
        used := t.counter + 1
        waiting := rest.map Prod.fst
        kept := t.ledger.pendingH.map copyOf ++ (if x.2.retryLeft.toNat = 0 then []
          else [⟨x.1, t.counter + 1, x.2.retryLeft.toNat⟩])
        log := t.ledger.highEntries.filterMap sentOf ++ [⟨x.1, t.counter + 1⟩] } := by
      unfold retries
      rw [hdrawn henc, hkept, hentries, hmsgs, henc, if_pos rfl, filterMap_append]
      simp only [map_cons, map_nil, filterMap_cons, filterMap_nil, sentOf, map_some, hnum]
      rfl
    rw [heq]
    refine .single (.first rfl ?_)
    rw [retryLimits_of_getElem? hx]
    exact retryLeft_lt_limit hitem
  -- what the ledger has behind the call
  have hfaithful : (∀ y ∈ kept, StandsFor all (x.1, y)) → (∀ msg ∈ msgs, Carries env all (markOf x,
      if x.2.encrypted then some (t.client.msgNumFor x.2).1 else none, msg)) →
      (t.sendHItem env x curTm).Faithful env all rest := by
    refine fun hkept hmsgs => ⟨hrest, ?_, ?_⟩
    · rw [hpend]
      exact forall_mem_append.mpr ⟨h.pendingH, forall_mem_map.mpr hkept⟩
    · rw [hentries]
      exact forall_mem_append.mpr ⟨h.entries, forall_mem_map.mpr hmsgs⟩
  have hcarries : ∀ {msg}, x.2.encrypted = true → Client.Seals env msg (t.client.msgNumFor x.2).1
      x.2.wire.1 x.2.wire.2 → Carries env all (markOf x,
        if x.2.encrypted then some (t.client.msgNumFor x.2).1 else none, msg) := by
    intro msg henc hseals
    refine ⟨x.2, hx, fun hplain => ?_, fun _ => ⟨_, if_pos henc, hseals⟩⟩
    exact absurd henc (by rw [hplain]; exact Bool.false_ne_true)
  cases hsend with
  | unsealed henc =>
    have hsame : (t.sendHItem env x curTm).ledger.pendingH.Sublist t.ledger.pendingH := by
      rw [hpend, map_nil, append_nil]
    have hle : t.counter ≤ (t.sendHItem env x curTm).counter := by
      rw [hdrawn henc]
      exact Nat.le_succ _
    rw [map_nil, append_nil] at hentries
    exact ⟨hskip.trans (acts_of_shrink hsame hentries rfl hle rest),
      hfaithful nofun nofun⟩
  | plain henc =>
    have heq : (t.sendHItem env x curTm).retries rest = t.retries rest := by
      unfold retries counter
      rw [hpend, hentries, hcounter, henc, filterMap_append]
      simp only [Bool.false_eq_true, if_false, false_and, map_cons, map_nil,
        append_nil, filterMap_cons, filterMap_nil, sentOf, map_none]
      rfl
    rw [heq]
    refine ⟨hskip, hfaithful nofun fun msg _ => ?_⟩
    refine ⟨x.2, hx, fun _ => ?_, fun hcrypt => ?_⟩
    · exact if_neg (by rw [henc]; exact Bool.false_ne_true)
    · exact absurd hcrypt (by rw [henc]; exact Bool.false_ne_true)
  | once henc hseals hdone =>
    have hzero : x.2.retryLeft.toNat = 0 := by
      by_contra hpos
      exact hdone ⟨by omega, hitem.msgNum⟩
    refine ⟨hsealed henc rfl ?_, hfaithful nofun fun msg hmsg => ?_⟩
    · rw [hpend, if_pos hzero]
      simp only [map_nil, append_nil]
    · rw [mem_singleton.mp hmsg]
      exact hcarries henc hseals
  | kept henc hseals hretry _ =>
    refine ⟨hsealed henc rfl ?_, hfaithful (fun y hy => ?_) fun msg hmsg => ?_⟩
    · rw [hpend, if_neg (by omega), map_append, ← hnum]
      rfl
    · rw [mem_singleton.mp hy]
      exact ⟨⟨x.2, hx, henc, maybeCompress_idem x.2.cmd x.2.data⟩, henc, hnonzero, hretry⟩
    · rw [mem_singleton.mp hmsg]
      exact hcarries henc hseals

theorem first_sends (hfresh : ∀ item ∈ all, item.Fresh) (curTm : Int) :
    ∀ (xs : List (Nat × SendItem)) {t : Stamped}, t.Faithful env all xs →
      t.counter + xs.length < 2 ^ 64 →
      Acts all (t.retries xs) ((t.sendHItems env xs curTm).retries []) ∧
        (t.sendHItems env xs curTm).Faithful env all []
  | [], t, h, _ => ⟨.refl, h⟩
  | x :: xs, t, h, hbound => by
    rw [length_cons] at hbound
    obtain ⟨hacts, hfaithful⟩ := first_send hfresh h (by omega) curTm
    have hle : (t.sendHItem env x curTm).counter ≤ t.counter + 1 := by
      obtain ⟨-, -, -, -, -, -, -, hle, -⟩ := sendHItem_marks env t x curTm
      exact hle
    obtain ⟨hacts', hfaithful'⟩ := first_sends hfresh curTm xs hfaithful (by omega)
    exact ⟨hacts.trans hacts', hfaithful'⟩

/-- One retry: the same number and the same content, and no new copy. -/
theorem resend (hx : StandsFor all x) (env : Env) (t : Stamped) (curTm : Int) :
    (t.sendHItem env x curTm).ledger.pendingH = t.ledger.pendingH ∧
      (t.sendHItem env x curTm).counter = t.counter ∧ ∃ new,
      (t.sendHItem env x curTm).ledger.highEntries = t.ledger.highEntries ++ new ∧
      (new.filterMap sentOf).Sublist [(copyOf x).sent] ∧ ∀ e ∈ new, Carries env all e := by
  obtain ⟨⟨item, hitem, hcrypt, hwire⟩, henc, hnum, -⟩ := hx
  obtain ⟨msgs, kept, hsend, hpend, hlog, hcounter⟩ := sendHItem_ledger env t x curTm
  have hentries := entries_sendHItem t x curTm hlog
  have hsame : (t.sendHItem env x curTm).counter = t.counter := by
    unfold counter
    rw [hcounter, if_neg fun h => hnum h.2]
  cases hsend with
  | unsealed =>
    refine ⟨?_, hsame, [], ?_, nil_sublist _, nofun⟩
    · rw [hpend]
      exact append_nil _
    · rw [hentries]
      rfl
  | plain hplain => exact absurd henc (by rw [hplain]; exact Bool.false_ne_true)
  | kept _ _ _ hfirst => exact absurd hfirst hnum
  | @once msg _ hseals _ =>
    rw [Client.msgNumFor_num, if_pos hnum] at hseals
    rw [henc, if_pos rfl, Client.msgNumFor_num, if_pos hnum] at hentries
    refine ⟨?_, hsame, _, hentries, Sublist.refl _, fun e he => ?_⟩
    · rw [hpend]
      exact append_nil _
    · rw [mem_singleton.mp he]
      refine ⟨item, hitem, fun hplain => ?_, fun _ => ⟨_, rfl, ?_⟩⟩
      · exact absurd hcrypt (by rw [hplain]; exact Bool.false_ne_true)
      · rw [← hwire]
        exact hseals

theorem resends (env : Env) (curTm : Int) : ∀ (xs : List (Nat × SendItem)) (t : Stamped),
    (∀ x ∈ xs, StandsFor all x) →
    (t.sendHItems env xs curTm).ledger.pendingH = t.ledger.pendingH ∧
      (t.sendHItems env xs curTm).counter = t.counter ∧ ∃ new,
      (t.sendHItems env xs curTm).ledger.highEntries = t.ledger.highEntries ++ new ∧
      (new.filterMap sentOf).Sublist (xs.map (Copy.sent ∘ copyOf)) ∧ ∀ e ∈ new, Carries env all e
  | [], t, _ => ⟨rfl, rfl, [], (append_nil _).symm, nil_sublist _, nofun⟩
  | x :: xs, t, h => by
    obtain ⟨hpend, hcount, new, hentries, hsub, hnew⟩ :=
      resend (h x mem_cons_self) env t curTm
    obtain ⟨hpend', hcount', new', hentries', hsub', hnew'⟩ := resends env curTm xs
      (t.sendHItem env x curTm) fun y hy => h y (mem_cons_of_mem x hy)
    refine ⟨hpend'.trans hpend, hcount'.trans hcount, new ++ new', ?_, ?_,
      forall_mem_append.mpr ⟨hnew, hnew'⟩⟩
    · rw [← append_assoc, ← hentries]
      exact hentries'
    · rw [filterMap_append]
      exact hsub.append hsub'

/-- The pending items, each with whether it is due. -/
def dueMarks (pending : List (Nat × SendItem)) (curTm pathDelay : Int) : List (Copy × Bool) :=
  pending.map fun x => (copyOf x, retryDue x.2.lastSentAt curTm pathDelay)

theorem dueMarks_kept {curTm pathDelay : Int} : ∀ {pending : List (Nat × SendItem)},
    (∀ x ∈ pending, 0 < x.2.retryLeft) →
    (dueMarks pending curTm pathDelay).filterMap Copy.after
      = (pending.filterMap (stamped (Client.keptOf curTm pathDelay))).map copyOf := by
  intro pending hpos
  unfold dueMarks
  rw [filterMap_map, map_filterMap]
  refine filterMap_congr fun x hx => ?_
  have hleft := hpos x hx
  simp only [Function.comp_apply, Copy.after, stamped, Client.keptOf, copyOf]
  split
  · by_cases hlast : x.2.retryLeft - 1 ≤ 0
    · rw [if_pos hlast, if_pos (by omega)]
      rfl
    · rw [if_neg hlast, if_neg (by omega)]
      have hpred : x.2.retryLeft.toNat - 1 = (x.2.retryLeft - 1).toNat := by omega
      exact congrArg (fun left => some (Copy.mk x.1 x.2.msgNum.toNat left)) hpred
  · rfl

theorem dueMarks_sent (curTm pathDelay : Int) : ∀ pending : List (Nat × SendItem),
    ((dueMarks pending curTm pathDelay).filter Prod.snd).map (Copy.sent ∘ Prod.fst)
      = (pending.filterMap (stamped (Client.resendOf curTm pathDelay))).map (Copy.sent ∘ copyOf)
  | [] => rfl
  | x :: pending => by
    have ih := dueMarks_sent curTm pathDelay pending
    unfold dueMarks at ih ⊢
    rw [map_cons]
    cases hdue : retryDue x.2.lastSentAt curTm pathDelay with
    | false =>
      have hnone : stamped (Client.resendOf curTm pathDelay) x = none := by
        simp [stamped, Client.resendOf, hdue]
      rw [filter_cons_of_neg (by simp), filterMap_cons_none hnone, ih]
    | true =>
      have hsome : stamped (Client.resendOf curTm pathDelay) x
          = some (x.1, { x.2 with lastSentAt := curTm }) := by
        simp [stamped, Client.resendOf, hdue]
      rw [filter_cons_of_pos (by simp), filterMap_cons_some hsome, map_cons, ih]
      rfl

theorem StandsFor.resendOf {y : Nat × SendItem} {curTm pathDelay : Int} (hx : StandsFor all x)
    (hy : stamped (Client.resendOf curTm pathDelay) x = some y) : StandsFor all y := by
  obtain ⟨j, hj, rfl⟩ := map_eq_some_iff.mp hy
  unfold Client.resendOf at hj
  split at hj
  · cases hj
    exact ⟨hx.item, hx.encrypted, hx.msgNum, hx.retryLeft⟩
  · cases hj

theorem StandsFor.keptOf {y : Nat × SendItem} {curTm pathDelay : Int} (hx : StandsFor all x)
    (hy : stamped (Client.keptOf curTm pathDelay) x = some y) : StandsFor all y := by
  obtain ⟨j, hj, rfl⟩ := map_eq_some_iff.mp hy
  obtain ⟨hitem, henc, hnum, hleft⟩ := hx
  unfold Client.keptOf at hj
  split at hj
  · split at hj
    · cases hj
    · cases hj
      exact ⟨hitem, henc, hnum, by simp only; omega⟩
  · cases hj
    exact ⟨hitem, henc, hnum, hleft⟩

/-- **A round of retries.** -/
theorem retry_round (h : t.Faithful env all []) (curTm : Int) :
    Acts all (t.retries []) ((t.retryPendingH env curTm).retries []) ∧
      (t.retryPendingH env curTm).Faithful env all [] := by
  unfold Stamped.retryPendingH
  simp only
  generalize pendingHPathDelay t.client.session.roundTripDelay = pathDelay
  have hresend : ∀ x ∈ t.ledger.pendingH.filterMap (stamped (Client.resendOf curTm pathDelay)),
      StandsFor all x := by
    intro y hy
    obtain ⟨x, hx, hxy⟩ := mem_filterMap.mp hy
    exact (h.pendingH x hx).resendOf hxy
  have hkept : ∀ x ∈ t.ledger.pendingH.filterMap (stamped (Client.keptOf curTm pathDelay)),
      StandsFor all x := by
    intro y hy
    obtain ⟨x, hx, hxy⟩ := mem_filterMap.mp hy
    exact (h.pendingH x hx).keptOf hxy
  obtain ⟨hpend, hcount, new, hentries, hsub, hnew⟩ := resends env curTm _
    (t.keepPendingH curTm pathDelay) hresend
  have hmarks := dueMarks_sent curTm pathDelay t.ledger.pendingH
  have hleft := @dueMarks_kept curTm pathDelay t.ledger.pendingH fun x hx =>
    (h.pendingH x hx).retryLeft
  generalize t.ledger.pendingH.filterMap (stamped (Client.resendOf curTm pathDelay)) = xs at *
  have heq : ((t.keepPendingH curTm pathDelay).sendHItems env xs curTm).retries []
      = { t.retries [] with
        kept := (dueMarks t.ledger.pendingH curTm pathDelay).filterMap Copy.after
        log := t.ledger.highEntries.filterMap sentOf ++ new.filterMap sentOf } := by
    have hborn : ((t.keepPendingH curTm pathDelay).sendHItems env xs curTm).ledger.born
        = t.ledger.born :=
      congrArg Prod.fst (writes_sendHItems env (t.keepPendingH curTm pathDelay) xs curTm).arrivals
    unfold retries
    rw [hborn, hcount, hpend, hentries, hleft, filterMap_append]
    rfl
  rw [heq]
  refine ⟨.single (.round (dueMarks t.ledger.pendingH curTm pathDelay) ?_ ?_), ?_, ?_, ?_⟩
  · unfold dueMarks
    rw [List.map_map]
    rfl
  · rw [hmarks]
    exact hsub
  · exact nofun
  · rw [hpend]
    exact hkept
  · rw [hentries]
    exact forall_mem_append.mpr ⟨h.entries, hnew⟩

/-! ## The tick as acts -/

/-- **The send phase.** Up to its ACKs nothing is sent for a High item. -/
theorem tick_acts (hfresh : ∀ item ∈ all, item.Fresh) {sliced high : List (Nat × SendItem)}
    {low : List SendItem} (h : t.Faithful env all high) (htag : t.Tagged)
    (hbound : t.counter + (sliced.length + high.length + low.length) < 2 ^ 64)
    (acks : List SlicedAck) (curTm : Int) (pacing : Pacing) :
    ∃ t₁ t' : Stamped, t' = t.checkSeningData env sliced high low acks curTm pacing ∧
      Acts all (t.retries high) (t₁.retries high) ∧
      t₁.ledger.highEntries = t.ledger.highEntries ∧
      (∃ new, t'.ledger.acks = t.ledger.acks ++ new ∧ ∀ slider ∈ new,
        ∀ x ∈ t₁.ledger.pendingH, slider.ackConfirmsMsg x.2.msgNum ≠ some true) ∧
      Acts all (t₁.retries high) (t'.retries []) ∧ t'.Faithful env all [] := by
  obtain ⟨t₁, ht₁, hpend₁, hentries₁, -, -, -, hdraws₁⟩ := slicedPhase env t sliced acks curTm htag
  have hborn₁ : t₁.ledger.born = t.ledger.born := by
    rw [ht₁]
    exact congrArg Prod.fst (writes_slicedPhase env t sliced acks curTm).arrivals
  have hle₁ := hdraws₁.le
  have hacts₁ : Acts all (t.retries high) (t₁.retries high) :=
    acts_of_shrink hpend₁ hentries₁ hborn₁ (hdraws₁.mono (by omega)) high
  have hfaithful₁ := h.shrink hpend₁ hentries₁
  -- the keys of the queued items
  have hclean : (t₁.applyHighSendUKeyCleanup high).ledger.pendingH.Sublist t₁.ledger.pendingH :=
    dropKeys_sublist _ _
  have hactsC : Acts all (t₁.retries high) ((t₁.applyHighSendUKeyCleanup high).retries high) :=
    acts_of_shrink hclean rfl rfl (Nat.le_refl _) high
  have hfaithfulC := hfaithful₁.shrink hclean rfl
  have hboundC : (t₁.applyHighSendUKeyCleanup high).counter + high.length < 2 ^ 64 := by
    show t₁.counter + high.length < 2 ^ 64
    omega
  obtain ⟨hacts₂, hfaithful₂⟩ := first_sends hfresh curTm high hfaithfulC hboundC
  obtain ⟨-, -, -, -, -, -, -, hle₂, -⟩ := sendHItems_marks env curTm high
    (t₁.applyHighSendUKeyCleanup high)
  replace hle₂ : _ ≤ t₁.counter + high.length := hle₂
  have hacks₂ := (writes_sendHItems env (t₁.applyHighSendUKeyCleanup high) high curTm).acks
  have hdef : t.checkSeningData env sliced high low acks curTm pacing
      = (((t₁.applyHighSendUKeyCleanup high).sendHItems env high curTm).retryPendingH env
          curTm).sendLowItemsAroundSlicedRetry env low curTm pacing := by
    rw [ht₁]
    rfl
  generalize (t₁.applyHighSendUKeyCleanup high).sendHItems env high curTm = t₂ at *
  obtain ⟨hacts₃, hfaithful₃⟩ := retry_round hfaithful₂ curTm
  obtain ⟨-, -, -, -, hcounter₃⟩ := retryPendingH_marks env t₂ curTm fun x hx =>
    (hfaithful₂.pendingH x hx).msgNum
  have hacks₃ := (writes_retryPendingH env t₂ curTm).acks
  generalize t₂.retryPendingH env curTm = t₃ at *
  obtain ⟨hhigh₄, -, -, hdraws₄⟩ := sendLowItems_marks env t₃ low curTm pacing
  have hwrites₄ := writes_sendLowItems env t₃ low curTm pacing
  have hpend₄ : (t₃.sendLowItemsAroundSlicedRetry env low curTm pacing).ledger.pendingH.Sublist
      t₃.ledger.pendingH := by
    rw [hhigh₄.pendingH]
  have hacts₄ : Acts all (t₃.retries [])
      ((t₃.sendLowItemsAroundSlicedRetry env low curTm pacing).retries []) :=
    acts_of_shrink hpend₄ hhigh₄.entries (congrArg Prod.fst hwrites₄.arrivals)
      (hdraws₄.mono (by omega)) []
  refine ⟨t₁, _, hdef.symm, hacts₁, hentries₁, ?_,
    ((hactsC.trans hacts₂).trans hacts₃).trans hacts₄, hfaithful₃.shrink hpend₄ hhigh₄.entries⟩
  obtain ⟨new, hnew, hconfirmed⟩ := applyRegularHlAck_acks ((sliced.foldl (fun t x =>
    t.createSlicedAndSend env x) (t.applySlicedSendUKeyCleanup sliced)).applyCopyAcks acks curTm)
  rw [← ht₁] at hnew hconfirmed
  have hcreate := (writes_create env (t.applySlicedSendUKeyCleanup sliced) sliced).acks
  refine ⟨new, ?_, hconfirmed⟩
  rw [hwrites₄.acks, hacks₃, hacks₂]
  exact hnew.trans (congrArg (· ++ new) hcreate)

end Stamped

/-! ## Runs without a session reset -/

/-- The step neither restarts the message numbers nor gives up what is pending or in
flight: outside the send phase the outbound side stays as it is. -/
def Client.KeepsSession (env : Env) (c : Client) : Event → Prop
  | .enqueue _ => True
  | .maintain m => c.socket.isNone = false →
      ((c.copySendAckAndCheckSeningData env m.curTm m.pacing).transportReconnectTailTick env
        m.curTm m.closeTm).out.held
        = (c.copySendAckAndCheckSeningData env m.curTm m.pacing).out.held
  | e => (c.step env e).out = c.out

instance (env : Env) (c : Client) : ∀ e, Decidable (c.KeepsSession env e)
  | .enqueue _ => isTrue trivial
  | .maintain _ => inferInstanceAs (Decidable (_ → _))
  | .requestShutdown => inferInstanceAs (Decidable (_ = _))
  | .disconnect => inferInstanceAs (Decidable (_ = _))
  | .wake _ => inferInstanceAs (Decidable (_ = _))
  | .receive _ => inferInstanceAs (Decidable (_ = _))

namespace Stamped

variable {env : Env} {all : List SendItem} {t : Stamped}

/-- A step that writes down what the client did, without touching the High side. -/
theorem note_acts (h : t.Faithful env all t.ledger.high) {c : Client}
    (hcounter : c.out.cryptMsgCounter = t.client.out.cryptMsgCounter) :
    Acts all (t.retries t.ledger.high) ((t.note c .direct).retries (t.note c .direct).ledger.high) ∧
      (t.note c .direct).Faithful env all (t.note c .direct).ledger.high := by
  obtain ⟨hsame, -⟩ := note_same t c
  have hpend : (t.note c .direct).ledger.pendingH.Sublist t.ledger.pendingH := Sublist.refl _
  exact ⟨acts_of_shrink hpend hsame.entries rfl (Nat.le_of_eq (congrArg UInt64.toNat hcounter).symm)
    t.ledger.high, h.shrink hpend hsame.entries⟩

theorem enqueue_acts (h : t.Faithful env all t.ledger.high) {item : SendItem}
    (hall : all[t.ledger.born.length]? = some item) :
    Acts all (t.retries t.ledger.high) ((t.enqueue item).retries (t.enqueue item).ledger.high) ∧
      (t.enqueue item).Faithful env all (t.enqueue item).ledger.high := by
  have hborn : (t.enqueue item).ledger.born.length = t.ledger.born.length + 1 := length_append
  by_cases hprio : item.priority = .high
  · have hhigh : (t.enqueue item).ledger.high
        = dropKey (SendItem.dedupKey ∘ Prod.snd) item.dedupKey t.ledger.high
          ++ [(t.ledger.born.length, item)] := if_pos hprio
    have hsub : (dropKey (SendItem.dedupKey ∘ Prod.snd) item.dedupKey t.ledger.high).Sublist
        t.ledger.high := dropKey_sublist _ _
    rw [hhigh]
    constructor
    · have heq : (t.enqueue item).retries (dropKey (SendItem.dedupKey ∘ Prod.snd) item.dedupKey
          t.ledger.high ++ [(t.ledger.born.length, item)]) = { t.retries t.ledger.high with
            next := t.ledger.born.length + 1
            waiting := (dropKey (SendItem.dedupKey ∘ Prod.snd) item.dedupKey
              t.ledger.high).map Prod.fst ++ [t.ledger.born.length] } := by
        unfold retries
        rw [hborn, map_append]
        rfl
      rw [heq]
      exact .single (.arrive (hsub.map Prod.fst) (.inr rfl))
    · refine ⟨fun x hx => ?_, h.pendingH, h.entries⟩
      rcases mem_append.mp hx with hx | hx
      · exact h.waiting x (hsub.subset hx)
      · rw [mem_singleton.mp hx]
        exact hall
  · have hhigh : (t.enqueue item).ledger.high = t.ledger.high := if_neg hprio
    rw [hhigh]
    refine ⟨?_, h.waiting, h.pendingH, h.entries⟩
    have heq : (t.enqueue item).retries t.ledger.high = { t.retries t.ledger.high with
        next := t.ledger.born.length + 1
        waiting := t.ledger.high.map Prod.fst ++ [] } := by
      unfold retries
      rw [hborn, append_nil]
      rfl
    rw [heq]
    exact .single (.arrive (Sublist.refl _) (.inl rfl))

/-- **A tick** that keeps the session. -/
theorem maintain_acts (hfresh : ∀ item ∈ all, item.Fresh) (hd : t.Disciplined)
    (ht : Tracks t t.client) (h : t.Faithful env all t.ledger.high)
    (hfew : 2047 + t.ledger.born.length < 2 ^ 64) {m : Maintenance}
    (hkeep : t.client.KeepsSession env (.maintain m)) :
    ∃ t₁ t' : Stamped, t' = t.maintain env m ∧
      Acts all (t.retries t.ledger.high) (t₁.retries t.ledger.high) ∧
      t₁.ledger.highEntries = t.ledger.highEntries ∧
      (∃ new, t'.ledger.acks = t.ledger.acks ++ new ∧ ∀ slider ∈ new,
        ∀ x ∈ t₁.ledger.pendingH, slider.ackConfirmsMsg x.2.msgNum ≠ some true) ∧
      Acts all (t₁.retries t.ledger.high) (t'.retries t'.ledger.high) ∧
      t'.Faithful env all t'.ledger.high := by
  unfold Stamped.maintain
  by_cases hsocket : t.client.socket.isNone = true
  · rw [if_pos hsocket]
    exact ⟨t, t, rfl, .refl, rfl, ⟨[], (append_nil _).symm, nofun⟩, .refl, h⟩
  · rw [if_neg hsocket]
    have hheld := hkeep (Bool.eq_false_of_not_eq_true hsocket)
    have hcopy := (ht.copySendAck env m.curTm m.pacing).client
    rw [← hcopy] at hheld
    obtain ⟨t₁, t', ht', hacts₁, hentries₁, hacks, hacts₂, hfaithful⟩ :=
      tick_acts hfresh (t := t.takeSnapshot) ⟨h.waiting, h.pendingH, h.entries⟩ hd.tagged
        (Nat.lt_of_le_of_lt hd.counter hfew) t.client.sendLock.incomingSlicedAcks m.curTm m.pacing
    have hhigh : t'.ledger.high = [] := by
      rw [ht']
      exact congrArg (·.2.2) (writes_checkSeningData env t.takeSnapshot t.ledger.sliced
        t.ledger.high t.client.sendLock.sendQueues.low t.client.sendLock.incomingSlicedAcks m.curTm
        m.pacing).arrivals
    rw [show t.copySendAckAndCheckSeningData env m.curTm m.pacing = t' from ht'.symm] at hheld ⊢
    -- the tail leaves the lists alone
    have htail : t'.transportReconnectTailTick env m.curTm m.closeTm
        = t'.note (t'.client.transportReconnectTailTick env m.curTm m.closeTm) .direct := by
      unfold Stamped.transportReconnectTailTick
      exact if_pos ⟨congrArg Prod.fst hheld, congrArg (·.2.1) hheld⟩
    rw [← hhigh] at hfaithful
    obtain ⟨hacts₃, hfaithful₃⟩ := note_acts hfaithful (congrArg (·.2.2.1) hheld)
    rw [htail]
    refine ⟨t₁, _, rfl, hacts₁, hentries₁, ?_, ?_, hfaithful₃⟩
    · have hnote : ∀ c, WritesNoAck t' (t'.note c .direct) := fun c => .note t' c fun _ => rfl
      rw [(hnote _).acks]
      exact hacks
    · rw [hhigh] at hacts₃
      exact hacts₂.trans hacts₃

/-- **One step** that keeps the session. -/
theorem step_acts (hfresh : ∀ item ∈ all, item.Fresh) (hd : t.Disciplined)
    (ht : Tracks t t.client) (h : t.Faithful env all t.ledger.high)
    (hfew : 2047 + t.ledger.born.length < 2 ^ 64) {e : Event}
    (hall : ∀ item, e = .enqueue item → all[t.ledger.born.length]? = some item)
    (hkeep : t.client.KeepsSession env e) :
    Acts all (t.retries t.ledger.high) ((t.step env e).retries (t.step env e).ledger.high) ∧
      (t.step env e).Faithful env all (t.step env e).ledger.high := by
  cases e with
  | enqueue item => exact enqueue_acts h (hall item rfl)
  | maintain m =>
    obtain ⟨t₁, t', ht', hacts₁, -, -, hacts₂, hfaithful⟩ :=
      maintain_acts hfresh hd ht h hfew hkeep
    rw [show t.step env (.maintain m) = t' from ht'.symm]
    exact ⟨hacts₁.trans hacts₂, hfaithful⟩
  | requestShutdown | disconnect | wake | receive =>
    exact note_acts h (congrArg Outbound.cryptMsgCounter hkeep)

/-! ### Runs -/

/-- What the steps of a run without a reset hand on. -/
structure Sound (env : Env) (all : List SendItem) (t : Stamped) : Prop where
  disciplined : t.Disciplined
  tracks : Tracks t t.client
  faithful : t.Faithful env all t.ledger.high

theorem Sound.step (h : t.Sound env all) (hfresh : ∀ item ∈ all, item.Fresh) {e : Event}
    (hfew : 2047 + t.ledger.born.length < 2 ^ 64)
    (hall : t.ledger.born ++ enqueuedItems [e] <+: all)
    (hkeep : t.client.KeepsSession env e) :
    Acts all (t.retries t.ledger.high) ((t.step env e).retries (t.step env e).ledger.high) ∧
      (t.step env e).Sound env all := by
  have hitem : ∀ item, e = .enqueue item → all[t.ledger.born.length]? = some item := by
    rintro item rfl
    obtain ⟨rest, rfl⟩ := hall
    rw [append_assoc, getElem?_append_right (Nat.le_refl _), Nat.sub_self]
    rfl
  obtain ⟨hacts, hfaithful⟩ := step_acts hfresh h.disciplined h.tracks h.faithful hfew hitem hkeep
  have hnext := h.tracks.step env e
  refine ⟨hacts, (h.disciplined.step h.tracks env e hfew).1, ?_, hfaithful⟩
  rw [hnext.client]
  exact hnext

/-- **A run without a reset is a sequence of acts.** -/
theorem Sound.run (hfresh : ∀ item ∈ all, item.Fresh) :
    ∀ (events : List Event) {t : Stamped}, t.Sound env all →
      2047 + (t.ledger.born ++ enqueuedItems events).length < 2 ^ 64 →
      t.ledger.born ++ enqueuedItems events <+: all →
      Run.Along (Client.next env) (Client.KeepsSession env) t.client events →
      Acts all (t.retries t.ledger.high)
          ((t.run env events).retries (t.run env events).ledger.high) ∧
        (t.run env events).Sound env all
  | [], t, h, _, _, _ => ⟨.refl, h⟩
  | e :: events, t, h, hfew, hall, hkeep => by
    have hsplit : enqueuedItems (e :: events) = enqueuedItems [e] ++ enqueuedItems events :=
      filterMap_append (l := [e])
    rw [hsplit, ← append_assoc] at hfew hall
    have hnow : 2047 + t.ledger.born.length < 2 ^ 64 := by
      rw [length_append, length_append] at hfew
      omega
    obtain ⟨hacts, hsound⟩ := h.step hfresh hnow ((prefix_append _ _).trans hall) hkeep.1
    rw [← (h.disciplined.step h.tracks env e hnow).2] at hfew hall
    have hrest := hkeep.2 _ rfl
    rw [← (h.tracks.step env e).client] at hrest
    obtain ⟨hacts', hsound'⟩ := Sound.run hfresh events hsound hfew hall hrest
    exact ⟨hacts.trans hacts', hsound'⟩

theorem Sound.start (env : Env) (all : List SendItem) (cfg : ClientConfig)
    (clientToken appToken : UInt64) :
    (Stamped.start (Client.new cfg clientToken appToken)).Sound env all where
  disciplined := .start _ rfl rfl
  tracks := .start _ rfl rfl rfl rfl rfl
  faithful := ⟨nofun, nofun, nofun⟩

/-! ## The budget -/

theorem sent_of_entry {l : List (Mark UniqueKey × Option UInt64 × UInt8 × Bytes)}
    {e : Mark UniqueKey × Option UInt64 × UInt8 × Bytes} {num : UInt64} (he : e ∈ l)
    (hnum : e.2.1 = some num) : ⟨e.1.stamp, num.toNat⟩ ∈ l.filterMap sentOf := by
  refine mem_filterMap.mpr ⟨e, he, ?_⟩
  unfold sentOf
  rw [hnum]
  rfl

/-- Where all messages of an item have a number, they are all in the sender's log. -/
theorem length_filter_stamp {i : Nat} :
    ∀ {l : List (Mark UniqueKey × Option UInt64 × UInt8 × Bytes)},
    (∀ e ∈ l, e.1.stamp = i → e.2.1 ≠ none) →
    (l.filter fun e => e.1.stamp = i).length = ((l.filterMap sentOf).map Sent.item).count i
  | [], _ => rfl
  | e :: l, h => by
    have ih := length_filter_stamp fun e' he' => h e' (mem_cons_of_mem e he')
    by_cases hi : e.1.stamp = i
    · obtain ⟨num, hnum⟩ := ne_none_iff_exists'.mp (h e mem_cons_self hi)
      have hsent : sentOf e = some ⟨i, num.toNat⟩ := by
        unfold sentOf
        rw [hnum, hi]
        rfl
      rw [filter_cons_of_pos (by simpa using hi), filterMap_cons_some hsent,
        length_cons, map_cons, count_cons_self, ih]
    · rw [filter_cons_of_neg (by simpa using hi), ih]
      cases hsent : sentOf e with
      | none => rw [filterMap_cons_none hsent]
      | some sent =>
        have hitem : sent.item ≠ i := by
          obtain ⟨num, -, rfl⟩ := map_eq_some_iff.mp hsent
          exact hi
        rw [filterMap_cons_some hsent, map_cons, count_cons_of_ne hitem]

/-- **After an ACK.** A number that was used before a tick, and that a bitmap applied
in the tick confirms, is not sent again, neither in the tick nor behind it. -/
theorem Sound.acked (hfresh : ∀ item ∈ all, item.Fresh) (h : t.Sound env all)
    (hinv : (t.retries t.ledger.high).Inv (retryLimits all)) {m : Maintenance}
    {post : List Event} (hfew : 2047 + (t.ledger.born ++ enqueuedItems post).length < 2 ^ 64)
    (hall : t.ledger.born ++ enqueuedItems post <+: all)
    (hkeep : Run.Along (Client.next env) (Client.KeepsSession env) t.client (.maintain m :: post))
    {slider : Slider}
    (hslider : slider ∈ (t.maintain env m).ledger.acks.drop t.ledger.acks.length) {num : UInt64}
    (hused : ∃ e ∈ t.ledger.highEntries, e.2.1 = some num)
    (hconfirms : slider.ackConfirmsMsg num = some true) :
    ∀ e ∈ ((t.maintain env m).run env post).ledger.highEntries.drop t.ledger.highEntries.length,
      e.2.1 ≠ some num := by
  have hnow : 2047 + t.ledger.born.length < 2 ^ 64 := by
    rw [length_append] at hfew
    omega
  obtain ⟨t₁, t', ht', hacts₁, hentries₁, ⟨new, hacks, hnew⟩, hacts₂, -⟩ :=
    maintain_acts hfresh h.disciplined h.tracks h.faithful hnow hkeep.1
  obtain ⟨-, hsound⟩ := h.step hfresh hnow ((append_nil _).symm ▸
    (prefix_append _ _).trans hall) hkeep.1
  have hborn := (h.disciplined.step h.tracks env (.maintain m) hnow).2
  rw [← ht'] at hslider ⊢
  rw [show t.step env (.maintain m) = t' from ht'.symm] at hsound hborn
  rw [hacks, drop_left] at hslider
  -- the tick kills the number before it sends anything
  have hdead : (t₁.retries t.ledger.high).Dead num.toNat := by
    have hinv₁ := hinv.acts hacts₁
    obtain ⟨e, he, hnum⟩ := hused
    have hsent := sent_of_entry (hentries₁ ▸ he) hnum
    refine ⟨(hinv₁.born _ hsent).2, fun c hc heq => ?_⟩
    obtain ⟨x, hx, rfl⟩ := List.mem_map.mp hc
    refine hnew slider hslider x hx ?_
    rw [UInt64.toNat_inj.mp heq]
    exact hconfirms
  have hkeep' := hkeep.2 _ rfl
  rw [show t.client.step env (.maintain m) = t'.client by
    rw [← (h.tracks.step env (.maintain m)).client, ht']; rfl] at hkeep'
  have hborn' : t'.ledger.born = t.ledger.born := hborn.trans (append_nil _)
  rw [← hborn'] at hfew hall
  obtain ⟨hacts₃, -⟩ := hsound.run hfresh post hfew hall hkeep'
  obtain ⟨-, silent, hsilent, hnone⟩ := hdead.acts (hacts₂.trans hacts₃)
  obtain ⟨later, hlater⟩ : t.ledger.highEntries <+: (t'.run env post).ledger.highEntries := by
    have hstep := (log_step env t (.maintain m)).filterMap Entry.highEntry
    rw [show t.step env (.maintain m) = t' from ht'.symm] at hstep
    exact hstep.trans ((log_run env post t').filterMap Entry.highEntry)
  have hlog : (t'.run env post).ledger.highEntries.filterMap sentOf
      = t.ledger.highEntries.filterMap sentOf ++ silent := by
    rw [← hentries₁]
    exact hsilent
  rw [← hlater, filterMap_append, append_cancel_left_eq] at hlog
  rw [← hlater, drop_left]
  intro e he hnum
  exact hnone _ (hlog ▸ sent_of_entry he hnum) rfl

theorem run_append (env : Env) (t : Stamped) (pre post : List Event) :
    t.run env (pre ++ post) = (t.run env pre).run env post := foldl_append

end Stamped

namespace Client

/-- **The retry budget.** Take a run without a session reset, in which every item is
enqueued as the constructors build it, and fewer than `2 ^ 64 - 2047` of them. Then,
with the ledger of the run:

* an encrypted item is transmitted at most as often as its limit says, always under
  the same number, and every message seals the same command and payload;
* a number belongs to one item;
* when a tick applies an ACK bitmap that confirms a number already transmitted, that
  number is not transmitted in the tick or behind it;
* what is pending has retries left. -/
theorem retry_budget {env : Env} {cfg : ClientConfig} {clientToken appToken : UInt64}
    {events : List Event} {c : Client}
    (hrun : Run.run (next env) (Client.new cfg clientToken appToken) events = some c)
    (hfresh : ∀ item ∈ enqueuedItems events, item.Fresh)
    (hfew : (enqueuedItems events).length < 2 ^ 64 - 2047)
    (hkeep : Run.Along (next env) (KeepsSession env) (Client.new cfg clientToken appToken) events) :
    ∃ t₀ t : Stamped, t₀ = Stamped.start (Client.new cfg clientToken appToken) ∧
      t = t₀.run env events ∧ Stamped.Tracks t c ∧ t.ledger.born = enqueuedItems events ∧
      (∀ i item, (enqueuedItems events)[i]? = some item → item.encrypted = true →
        (t.ledger.highEntries.filter fun e => e.1.stamp = i).length ≤ max 1 item.maxRetries.toNat ∧
        ∃ num, ∀ e ∈ t.ledger.highEntries, e.1.stamp = i → e.2.1 = some num ∧
          Seals env e.2.2 num item.wire.1 item.wire.2) ∧
      (∀ e ∈ t.ledger.highEntries, ∀ e' ∈ t.ledger.highEntries, ∀ num, e.2.1 = some num →
        e'.2.1 = some num → e.1.stamp = e'.1.stamp) ∧
      (∀ pre m post, events = pre ++ .maintain m :: post →
        ∀ slider ∈ ((t₀.run env pre).maintain env m).ledger.acks.drop
          (t₀.run env pre).ledger.acks.length,
        ∀ num, (∃ e ∈ (t₀.run env pre).ledger.highEntries, e.2.1 = some num) →
        slider.ackConfirmsMsg num = some true →
        ∀ e ∈ t.ledger.highEntries.drop (t₀.run env pre).ledger.highEntries.length,
          e.2.1 ≠ some num) ∧
      ∀ item ∈ c.out.pendingH, 0 < item.retryLeft := by
  refine ⟨_, _, rfl, rfl, ?_⟩
  have hstart := Stamped.Sound.start env (enqueuedItems events) cfg clientToken appToken
  have hbound : 2047 + (enqueuedItems events).length < 2 ^ 64 := by omega
  obtain ⟨hacts, hsound⟩ := hstart.run hfresh events hbound (prefix_refl _) hkeep
  have hborn := (hstart.disciplined.run env events hstart.tracks hbound).2
  have hinv := (Retries.Sender.Inv.empty 2047).acts hacts
  have htracks : Stamped.Tracks _ (events.foldl (Client.step env)
      (Client.new cfg clientToken appToken)) := hstart.tracks.run env events
  rw [show events.foldl (Client.step env) (Client.new cfg clientToken appToken) = c from
    Option.some.inj ((run_eq_foldl env events _).symm.trans hrun)] at htracks
  refine ⟨htracks, hborn, fun i item hitem henc => ?_, fun e he e' he' num hnum hnum' => ?_, ?_, ?_⟩
  · -- every message of the item carries its command under a number
    have hcarries : ∀ e ∈ (Stamped.run env (Stamped.start (Client.new cfg clientToken appToken))
        events).ledger.highEntries, e.1.stamp = i → ∃ num, e.2.1 = some num ∧
          Seals env e.2.2 num item.wire.1 item.wire.2 := by
      intro e he hstamp
      obtain ⟨item', hitem', -, hseals⟩ := hsound.faithful.entries e he
      rw [hstamp, hitem] at hitem'
      cases hitem'
      exact hseals henc
    constructor
    · rw [Stamped.length_filter_stamp fun e he hstamp => ?_]
      · refine Nat.le_trans (hinv.limit i) (Nat.le_of_eq ?_)
        rw [Stamped.retryLimits_of_getElem? hitem]
        rfl
      · obtain ⟨num, hnum, -⟩ := hcarries e he hstamp
        rw [hnum]
        exact some_ne_none num
    · by_cases hany : ∃ e ∈ (Stamped.run env (Stamped.start (Client.new cfg clientToken appToken))
          events).ledger.highEntries, e.1.stamp = i
      · obtain ⟨e, he, hstamp⟩ := hany
        obtain ⟨num, hnum, -⟩ := hcarries e he hstamp
        refine ⟨num, fun e' he' hstamp' => ?_⟩
        obtain ⟨num', hnum', hseals'⟩ := hcarries e' he' hstamp'
        have heq := (hinv.number _ (Stamped.sent_of_entry he hnum) _
          (Stamped.sent_of_entry he' hnum')).mp (hstamp.trans hstamp'.symm)
        rw [UInt64.toNat_inj.mp heq]
        exact ⟨hnum', hseals'⟩
      · exact ⟨0, fun e he hstamp => absurd ⟨e, he, hstamp⟩ hany⟩
  · exact (hinv.number _ (Stamped.sent_of_entry he hnum) _
      (Stamped.sent_of_entry he' hnum')).mpr rfl
  · rintro pre m post rfl slider hslider num hused hconfirms
    have hsplit : enqueuedItems (pre ++ .maintain m :: post)
        = enqueuedItems pre ++ enqueuedItems post := filterMap_append
    have hshort : 2047 + (enqueuedItems pre).length < 2 ^ 64 := by
      rw [hsplit, length_append] at hbound
      omega
    obtain ⟨hacts₀, hsound₀⟩ := hstart.run hfresh pre hshort
      (hsplit ▸ prefix_append _ _) (Run.along_of_append hkeep)
    have hborn₀ := (hstart.disciplined.run env pre hstart.tracks hshort).2
    have hkeep₀ := Run.along_append_right hkeep (run_eq_foldl env pre _)
    rw [← show _ = pre.foldl (Client.step env) (Client.new cfg clientToken appToken) from
      (hstart.tracks.run env pre).client] at hkeep₀
    rw [Stamped.run_append]
    rw [hsplit] at hbound
    refine hsound₀.acked hfresh ((Retries.Sender.Inv.empty 2047).acts hacts₀) ?_ ?_ hkeep₀ hslider
      hused hconfirms
    · rw [hborn₀]
      exact hbound
    · rw [hborn₀, hsplit]
      exact prefix_refl _
  · intro item hitem
    rw [← htracks.pendingH] at hitem
    obtain ⟨x, hx, rfl⟩ := List.mem_map.mp hitem
    exact (hsound.faithful.pendingH x hx).retryLeft

end Client

namespace Sample

/-- A Ping of the session whose bitmap starts at `ackStart` and has one word. -/
def ackPing (ackStart word : UInt64) : Bytes :=
  List.replicate 20 0 ++ u16Bytes 1400 ++ List.replicate 20 0 ++ u64Bytes ackStart
    ++ u32Bytes (after session).session.ackSession32Value ++ [0, 0, 0] ++ u64Bytes word

/-- An item that may be sent three times, with time for all of them. -/
def resentItem : List Event := session ++ [.enqueue Client.sampleItem,
  .maintain (maintenance 10040), .maintain (maintenance 11000), .maintain (maintenance 12000),
  .maintain (maintenance 12300)]

/-- The peer confirms number 2048 before it was used. -/
def earlyAck : List Event := session ++ [
  .receive (datagram .ping (Payload.ofBytes (ackPing 2048 1)) 10035), .enqueue Client.sampleItem]

end Sample

namespace Client

section

set_option maxRecDepth 10000

theorem retry_budget_sample : (Sample.after Sample.resentItem).out.pendingH = [] ∧
    ∃ t : Stamped, t = (Stamped.start (Client.new .sample 1 2)).run .sample Sample.resentItem ∧
      t.ledger.highEntries.map (·.2.1) = [some 2048, some 2048, some 2048] ∧
      (t.ledger.highEntries.filter fun e => e.1.stamp = 0).length ≤ 3 := by
  obtain ⟨t₀, t, rfl, ht, -, -, hlimit, -⟩ := retry_budget (Sample.run_after Sample.resentItem)
    (by rintro item hitem; rw [mem_singleton.mp hitem]; exact ⟨rfl, rfl⟩) (by decide)
    (by decide +kernel)
  refine ⟨by decide +kernel, t, ht, by rw [ht]; decide +kernel, ?_⟩
  exact (hlimit 0 sampleItem rfl rfl).1

/-- A bitmap that confirms a number before it is used: the tick that applies it sends
the item under that number, and the next tick sends it again. -/
theorem retry_budget_early_ack : ∃ t₀ t₁ t₂ : Stamped,
      t₀ = (Stamped.start (Client.new .sample 1 2)).run .sample Sample.earlyAck ∧
      t₁ = t₀.maintain .sample (Sample.maintenance 10040) ∧
      t₂ = t₁.maintain .sample (Sample.maintenance 11000) ∧
      Run.Along (next .sample) (KeepsSession .sample) (Client.new .sample 1 2)
        (Sample.earlyAck ++ [.maintain (Sample.maintenance 10040),
          .maintain (Sample.maintenance 11000)]) ∧
      (t₁.ledger.acks.drop t₀.ledger.acks.length).map (·.ackConfirmsMsg 2048) = [some true] ∧
      (t₁.ledger.highEntries.drop t₀.ledger.highEntries.length).map (·.2.1) = [some 2048] ∧
      (t₂.ledger.highEntries.drop t₁.ledger.highEntries.length).map (·.2.1) = [some 2048] := by
  refine ⟨_, _, _, rfl, rfl, rfl, ?_, ?_, ?_, ?_⟩
  · decide +kernel
  · decide +kernel
  · decide +kernel
  · decide +kernel

end

end Client

end MoonProto
