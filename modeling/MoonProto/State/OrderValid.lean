import MoonProto.Lib.Slots
import MoonProto.State.OrderEvents

/-!
# The invariant of the order state

`Valid` ties the seven structures of the order state together: read model, mirrors,
tombstones, pending removals, instance ids and the two cached deadlines, with the events
emitted so far. The operations change the state in a few ways only, and there is one rule
for each: an entry is touched, a mirror is projected into the read model, a removal is
planned, an order is erased, a pending removal is dropped. The operations of the source are
then put together from these rules.

An operation that projects a mirror plans the removal of the order only afterwards. In
between the invariant holds but for that order, which is the first argument of `Valid`.
-/

namespace MoonProto

open List AList

/-- What an update may do to an attached order whose mirror stays as it is. -/
structure Order.Keeps (o o' : Order) : Prop where
  uid : o'.uid = o.uid
  instanceId : o'.instanceId = o.instanceId
  status : o'.status = o.status
  replaceSent : o'.replaceSentTimeMs = o.replaceSentTimeMs ∨ o'.replaceSentTimeMs = 0

theorem Order.Keeps.of_core {o o' : Order} (h : o'.core = o.core) : o.Keeps o' := by
  obtain ⟨huid, hinst, hstatus, hsent⟩ := Order.Core.mk.inj h
  exact ⟨huid, hinst, hstatus, .inl hsent⟩

namespace OrderState

/-- Is the removal of this instance of the order planned? -/
def Planned (pending : List PendingRemoval) (uid instanceId : Nat) : Prop :=
  ∃ p ∈ pending, p.uid = uid ∧ p.instanceId = instanceId

/-- The invariant, where the removal of the order `but` is still to be planned. -/
structure Valid (env : OrderEnv) (but : Option Nat) (s : OrderState) (events : List OrderEvent) :
    Prop where
  ids : ∀ u o, s.read.lookup u = some o → o.uid = u
  mirrored : ∀ u o, s.read.lookup u = some o →
    ∃ m, s.mirrors.lookup u = some m ∧ o.status = ⟨m.state.statusByte⟩
  unburied : ∀ u m, s.mirrors.lookup u = some m → s.isTombstoned u = false
  settled : ∀ u m, s.mirrors.lookup u = some m → m.Settled env
  planned : ∀ u o m, but ≠ some u → s.read.lookup u = some o → s.mirrors.lookup u = some m →
    m.isExact = true → m.state.isTerminal = true → Planned s.pendingRemovals u o.instanceId
  removals : ∀ p ∈ s.pendingRemovals, ∃ d, s.nextPendingRemovalMs = some d ∧ d ≤ p.dueMs
  replaces : ∀ u o, s.read.lookup u = some o → 0 < o.replaceSentTimeMs →
    ∃ d, s.nextReplaceTimeoutMs = some d ∧ d ≤ replaceDueMs o.replaceSentTimeMs
  traced : Traced events s.read

/-- Tombstones, pending removals and deadlines are the same. -/
structure SameDeadlines (s s' : OrderState) : Prop where
  tombstones : s'.tombstones = s.tombstones
  pending : s'.pendingRemovals = s.pendingRemovals
  nextRemoval : s'.nextPendingRemovalMs = s.nextPendingRemovalMs
  nextReplace : s'.nextReplaceTimeoutMs = s.nextReplaceTimeoutMs

theorem isTombstoned_congr {s s' : OrderState} (h : s'.tombstones = s.tombstones) (u : Nat) :
    s'.isTombstoned u = s.isTombstoned u := by
  unfold isTombstoned
  rw [h]

section Rules

variable {env : OrderEnv} {but : Option Nat} {s s' : OrderState} {es es' : List OrderEvent}
  {uid : Nat} {o o' : Order} {m m' : OrderMirror}

/-! ## Rules -/

theorem Valid.congr (h : Valid env but s es) (hread : ∀ u, s'.read.lookup u = s.read.lookup u)
    (hmirrors : ∀ u, s'.mirrors.lookup u = s.mirrors.lookup u) (hsame : SameDeadlines s s') :
    Valid env but s' es where
  ids := fun u o ho => h.ids u o (hread u ▸ ho)
  mirrored := fun u o ho => by
    rw [hmirrors]
    exact h.mirrored u o (hread u ▸ ho)
  unburied := fun u m hm => by
    rw [isTombstoned_congr hsame.tombstones]
    exact h.unburied u m (hmirrors u ▸ hm)
  settled := fun u m hm => h.settled u m (hmirrors u ▸ hm)
  planned := fun u o m hu ho hm => by
    rw [hsame.pending]
    exact h.planned u o m hu (hread u ▸ ho) (hmirrors u ▸ hm)
  removals := by
    rw [hsame.pending, hsame.nextRemoval]
    exact h.removals
  replaces := fun u o ho => by
    rw [hsame.nextReplace]
    exact h.replaces u o (hread u ▸ ho)
  traced := h.traced.congr fun u => by rw [hread]

theorem Valid.empty (hread : s.read = ∅) (hmirrors : s.mirrors = ∅)
    (hpending : s.pendingRemovals = []) (htraced : Traced es s.read) : Valid env but s es := by
  have hread' : ∀ u o, s.read.lookup u ≠ some o := fun u o => by
    rw [hread, lookup_empty]
    exact nofun
  have hmirrors' : ∀ u m, s.mirrors.lookup u ≠ some m := fun u m => by
    rw [hmirrors, lookup_empty]
    exact nofun
  exact
    { ids := fun u o ho => absurd ho (hread' u o)
      mirrored := fun u o ho => absurd ho (hread' u o)
      unburied := fun u m hm => absurd hm (hmirrors' u m)
      settled := fun u m hm => absurd hm (hmirrors' u m)
      planned := fun u o m _ ho => absurd ho (hread' u o)
      removals := fun p hp => absurd (hpending ▸ hp) not_mem_nil
      replaces := fun u o ho => absurd ho (hread' u o)
      traced := htraced }

theorem Valid.of_events (h : Valid env but s es) (htraced : Traced es' s.read) :
    Valid env but s es' := { h with traced := htraced }

/-- An entry is replaced by one with the same status and instance, and the cached timeout by
one that is no later. -/
theorem Valid.touchReplace (h : Valid env but s es) (ho : s.read.lookup uid = some o)
    (huid : o'.uid = o.uid) (hinst : o'.instanceId = o.instanceId) (hstatus : o'.status = o.status)
    {next : Option Int}
    (hown : 0 < o'.replaceSentTimeMs → ∃ d, next = some d ∧ d ≤ replaceDueMs o'.replaceSentTimeMs)
    (hnext : ∀ c, s.nextReplaceTimeoutMs = some c → ∃ d, next = some d ∧ d ≤ c) :
    Valid env but { s with read := s.read.insert uid o', nextReplaceTimeoutMs := next } es where
  ids := fun u x hx => by
    rcases OrderMap.lookup_insert_some hx with ⟨rfl, rfl⟩ | ⟨-, hx⟩
    · exact huid.trans (h.ids u o ho)
    · exact h.ids u x hx
  mirrored := fun u x hx => by
    rcases OrderMap.lookup_insert_some hx with ⟨rfl, rfl⟩ | ⟨-, hx⟩
    · obtain ⟨m, hm, hm'⟩ := h.mirrored u o ho
      exact ⟨m, hm, hstatus.trans hm'⟩
    · exact h.mirrored u x hx
  unburied := h.unburied
  settled := h.settled
  planned := fun u x m hu hx hm hexact hterm => by
    rcases OrderMap.lookup_insert_some hx with ⟨rfl, rfl⟩ | ⟨-, hx⟩
    · rw [hinst]
      exact h.planned u o m hu ho hm hexact hterm
    · exact h.planned u x m hu hx hm hexact hterm
  removals := h.removals
  replaces := fun u x hx hsent => by
    rcases OrderMap.lookup_insert_some hx with ⟨rfl, rfl⟩ | ⟨-, hx⟩
    · exact hown hsent
    · obtain ⟨c, hc, hle⟩ := h.replaces u x hx hsent
      obtain ⟨d, hd, hdc⟩ := hnext c hc
      exact ⟨d, hd, hdc.trans hle⟩
  traced := h.traced.touched ho

/-- **Touch**: an entry is replaced by one that it keeps. -/
theorem Valid.touch (h : Valid env but s es) (ho : s.read.lookup uid = some o)
    (hk : o.Keeps o') : Valid env but { s with read := s.read.insert uid o' } es := by
  refine h.touchReplace ho hk.uid hk.instanceId hk.status (fun hsent => ?_)
    fun c hc => ⟨c, hc, le_rfl⟩
  rcases hk.replaceSent with heq | heq
  · rw [heq] at hsent ⊢
    exact h.replaces uid o ho hsent
  · rw [heq] at hsent
    exact absurd hsent (lt_irrefl 0)

/-- **Project**: a mirror and its entry in the read model are set together. -/
theorem Valid.project (h : Valid env none s es)
    (hread : ∀ u, u ≠ uid → s'.read.lookup u = s.read.lookup u)
    (ho' : s'.read.lookup uid = some o')
    (hmirrors : ∀ u, u ≠ uid → s'.mirrors.lookup u = s.mirrors.lookup u)
    (hm' : s'.mirrors.lookup uid = some m') (hsame : SameDeadlines s s')
    (huid : o'.uid = uid) (hstatus : o'.status = ⟨m'.state.statusByte⟩)
    (htomb : s.isTombstoned uid = false) (hsettled : m'.Settled env)
    (hsent : 0 < o'.replaceSentTimeMs →
      ∃ o, s.read.lookup uid = some o ∧ o.replaceSentTimeMs = o'.replaceSentTimeMs)
    (htraced : Traced es' s'.read) : Valid env (some uid) s' es' where
  ids := fun u x hx => by
    by_cases hu : u = uid
    · rw [hu, ho'] at hx
      rw [hu, ← Option.some.inj hx, huid]
    · exact h.ids u x (hread u hu ▸ hx)
  mirrored := fun u x hx => by
    by_cases hu : u = uid
    · rw [hu, ho'] at hx
      rw [hu, ← Option.some.inj hx]
      exact ⟨m', hm', hstatus⟩
    · rw [hmirrors u hu]
      exact h.mirrored u x (hread u hu ▸ hx)
  unburied := fun u m hm => by
    rw [isTombstoned_congr hsame.tombstones]
    by_cases hu : u = uid
    · rw [hu]
      exact htomb
    · exact h.unburied u m (hmirrors u hu ▸ hm)
  settled := fun u m hm => by
    by_cases hu : u = uid
    · rw [hu, hm'] at hm
      exact Option.some.inj hm ▸ hsettled
    · exact h.settled u m (hmirrors u hu ▸ hm)
  planned := fun u x m hu hx hm => by
    have hne : u ≠ uid := fun heq => hu (congrArg some heq.symm)
    rw [hsame.pending]
    exact h.planned u x m nofun (hread u hne ▸ hx) (hmirrors u hne ▸ hm)
  removals := by
    rw [hsame.pending, hsame.nextRemoval]
    exact h.removals
  replaces := fun u x hx hpos => by
    rw [hsame.nextReplace]
    by_cases hu : u = uid
    · rw [hu, ho'] at hx
      cases hx
      obtain ⟨o, ho, heq⟩ := hsent hpos
      rw [← heq] at hpos ⊢
      exact h.replaces uid o ho hpos
    · exact h.replaces u x (hread u hu ▸ hx) hpos
  traced := htraced

/-- **Park**: a mirror without an entry in the read model is set. -/
theorem Valid.park (h : Valid env but s es) (hno : s.read.lookup uid = none)
    (htomb : s.isTombstoned uid = false) (hsettled : m'.Settled env) :
    Valid env but { s with mirrors := s.mirrors.insert uid m' } es where
  ids := h.ids
  mirrored := fun u x hx => by
    have hne : u ≠ uid := by
      rintro rfl
      exact nomatch hno.symm.trans hx
    dsimp only
    rw [lookup_insert_ne hne]
    exact h.mirrored u x hx
  unburied := fun u m hm => by
    rcases OrderMap.lookup_insert_some hm with ⟨rfl, -⟩ | ⟨-, hm⟩
    · exact htomb
    · exact h.unburied u m hm
  settled := fun u m hm => by
    rcases OrderMap.lookup_insert_some hm with ⟨-, rfl⟩ | ⟨-, hm⟩
    · exact hsettled
    · exact h.settled u m hm
  planned := fun u x m hu hx hm => by
    rcases OrderMap.lookup_insert_some hm with ⟨rfl, -⟩ | ⟨-, hm⟩
    · exact nomatch hno.symm.trans hx
    · exact h.planned u x m hu hx hm
  removals := h.removals
  replaces := h.replaces
  traced := h.traced

/-- The order left out needs no removal, or has one. -/
theorem Valid.complete (h : Valid env (some uid) s es)
    (hplanned : ∀ o m, s.read.lookup uid = some o → s.mirrors.lookup uid = some m →
      m.isExact = true → m.state.isTerminal = true → Planned s.pendingRemovals uid o.instanceId) :
    Valid env none s es :=
  { h with
    planned := fun u o m _ ho hm hexact hterm => by
      by_cases hu : u = uid
      · subst hu
        exact hplanned o m ho hm hexact hterm
      · exact h.planned u o m (fun heq => hu (Option.some.inj heq).symm) ho hm hexact hterm }

/-! ## Planning removals -/

theorem planned_putRemoval (pending : List PendingRemoval) (uid instanceId : Nat) (dueMs : Int) :
    Planned (putRemoval pending uid instanceId dueMs) uid instanceId := by
  unfold putRemoval
  dsimp only
  split
  next i hi =>
    obtain ⟨p, hp, hown⟩ := Slots.findIdx?_some hi
    rw [Bool.and_eq_true, beq_iff_eq, beq_iff_eq] at hown
    exact ⟨_, mem_iff_getElem?.mpr ⟨i, Slots.getElem?_modify_self hp⟩, hown⟩
  next => exact ⟨_, mem_append_right _ mem_cons_self, rfl, rfl⟩

theorem Planned.putRemoval {pending : List PendingRemoval} {u i : Nat} (h : Planned pending u i)
    (uid instanceId : Nat) (dueMs : Int) :
    Planned (putRemoval pending uid instanceId dueMs) u i := by
  obtain ⟨p, hp, hkey⟩ := h
  unfold OrderState.putRemoval
  dsimp only
  split
  next j hj =>
    obtain ⟨q, hq, rfl | rfl⟩ := Slots.exists_mem_modify (fun p : PendingRemoval =>
      { p with dueMs := max p.dueMs dueMs }) j hp
    · exact ⟨q, hq, hkey⟩
    · exact ⟨_, hq, hkey⟩
  next => exact ⟨p, mem_append_left _ hp, hkey⟩

theorem due_of_mem_putRemoval {pending : List PendingRemoval} {uid instanceId : Nat} {dueMs : Int}
    {p : PendingRemoval} (hp : p ∈ putRemoval pending uid instanceId dueMs) :
    dueMs ≤ p.dueMs ∨ ∃ q ∈ pending, q.dueMs ≤ p.dueMs := by
  unfold putRemoval at hp
  dsimp only at hp
  split at hp
  next i _ =>
    rcases Slots.mem_modify hp with ⟨q, -, rfl⟩ | ⟨j, -, hj⟩
    · exact .inl (le_max_right _ _)
    · exact .inr ⟨p, mem_iff_getElem?.mpr ⟨j, hj⟩, le_rfl⟩
  next =>
    rcases List.mem_append.mp hp with hold | hnew
    · exact .inr ⟨p, hold, le_rfl⟩
    · rw [List.mem_singleton.mp hnew]
      exact .inl le_rfl

theorem earlier_le (cached : Option Int) (dueMs : Int) :
    ∃ d, earlier cached dueMs = some d ∧ d ≤ dueMs ∧ ∀ c, cached = some c → d ≤ c := by
  cases cached with
  | none => exact ⟨dueMs, rfl, le_rfl, nofun⟩
  | some c =>
    refine ⟨min c dueMs, rfl, min_le_right _ _, fun c' hc' => ?_⟩
    rw [← Option.some.inj hc']
    exact min_le_left _ _

/-- **Plan**: the removal of an order is put on the list. -/
theorem Valid.plan (h : Valid env (some uid) s es) (nowMs delayMs : Int) :
    Valid env none (s.markPendingRemoval uid nowMs delayMs) es := by
  unfold markPendingRemoval
  split
  next hno => exact h.complete fun o m ho => nomatch hno.symm.trans ho
  next order horder =>
    obtain ⟨d, hd, hdue, hold⟩ :=
      earlier_le s.nextPendingRemovalMs (saturatingAdd nowMs (max delayMs 0))
    exact
      { ids := h.ids
        mirrored := h.mirrored
        unburied := h.unburied
        settled := h.settled
        planned := fun u o m _ ho hm hexact hterm => by
          dsimp only at ho hm ⊢
          by_cases hu : u = uid
          · rw [hu, horder] at ho
            rw [hu, ← Option.some.inj ho]
            exact planned_putRemoval _ _ _ _
          · exact (h.planned u o m (fun heq => hu (Option.some.inj heq).symm) ho hm hexact
              hterm).putRemoval _ _ _
        removals := fun p hp => by
          refine ⟨d, hd, ?_⟩
          rcases due_of_mem_putRemoval hp with hle | ⟨q, hq, hle⟩
          · exact hdue.trans hle
          · obtain ⟨c, hc, hcq⟩ := h.removals q hq
            exact (hold c hc).trans (hcq.trans hle)
        replaces := h.replaces
        traced := h.traced }

/-! ## Erasing orders and dropping removals -/

theorem isTombstoned_recordTombstone {u : Nat}
    (h : (s.recordTombstone uid).isTombstoned u = true) : u = uid ∨ s.isTombstoned u = true := by
  unfold recordTombstone at h
  split at h
  next => exact .inr h
  unfold isTombstoned at h ⊢
  rw [Bool.and_eq_true, contains_iff_mem] at h ⊢
  rcases mem_or_eq_of_mem_set h.2 with hmem | heq
  · exact .inr ⟨h.1, hmem⟩
  · exact .inl heq

/-- **Bury**: an id without a mirror is remembered as removed. -/
theorem Valid.bury (h : Valid env but s es) (hno : s.mirrors.lookup uid = none) :
    Valid env but (s.recordTombstone uid) es := by
  have hunburied : ∀ u m, s.mirrors.lookup u = some m →
      (s.recordTombstone uid).isTombstoned u = false := by
    intro u m hm
    rw [Bool.eq_false_iff]
    intro htomb
    rcases isTombstoned_recordTombstone htomb with rfl | hold
    · exact nomatch hno.symm.trans hm
    · rw [h.unburied u m hm] at hold
      cases hold
  revert hunburied
  unfold recordTombstone
  split
  · exact fun _ => h
  · exact fun hunburied => { h with unburied := hunburied }

theorem recordTombstone_frame (s : OrderState) (uid : Nat) :
    (s.recordTombstone uid).mirrors = s.mirrors ∧
      (s.recordTombstone uid).pendingRemovals = s.pendingRemovals ∧
      (s.recordTombstone uid).nextPendingRemovalMs = s.nextPendingRemovalMs ∧
      (s.recordTombstone uid).nextReplaceTimeoutMs = s.nextReplaceTimeoutMs := by
  unfold recordTombstone
  split <;> exact ⟨rfl, rfl, rfl, rfl⟩

/-- **Erase**: an order leaves mirrors and read model and may be buried. The pending
removals of the others stay. -/
theorem Valid.erase (h : Valid env none s es) (hread : s'.read = s.read.erase uid)
    (hmirrors : s'.mirrors = s.mirrors.erase uid)
    (htombs : ∀ u, s'.isTombstoned u = true → u = uid ∨ s.isTombstoned u = true)
    (hothers : ∀ p ∈ s.pendingRemovals, p.uid ≠ uid → p ∈ s'.pendingRemovals)
    (hpending : ∀ p ∈ s'.pendingRemovals, p ∈ s.pendingRemovals)
    (hnext : s'.nextPendingRemovalMs = s.nextPendingRemovalMs)
    (hreplace : s'.nextReplaceTimeoutMs = s.nextReplaceTimeoutMs)
    (htraced : Traced es' s'.read) : Valid env none s' es' := by
  have hread' : ∀ {u x}, s'.read.lookup u = some x → u ≠ uid ∧ s.read.lookup u = some x :=
    fun hx => OrderMap.lookup_erase_some (hread ▸ hx)
  have hmirrors' : ∀ {u x}, s'.mirrors.lookup u = some x → u ≠ uid ∧ s.mirrors.lookup u = some x :=
    fun hx => OrderMap.lookup_erase_some (hmirrors ▸ hx)
  exact
    { ids := fun u x hx => h.ids u x (hread' hx).2
      mirrored := fun u x hx => by
        rw [hmirrors, lookup_erase_ne (hread' hx).1]
        exact h.mirrored u x (hread' hx).2
      unburied := fun u m hm => by
        rw [Bool.eq_false_iff]
        intro htomb
        rcases htombs u htomb with heq | hold
        · exact (hmirrors' hm).1 heq
        · rw [h.unburied u m (hmirrors' hm).2] at hold
          cases hold
      settled := fun u m hm => h.settled u m (hmirrors' hm).2
      planned := fun u x m _ hx hm hexact hterm => by
        obtain ⟨p, hp, hpu, hpi⟩ :=
          h.planned u x m nofun (hread' hx).2 (hmirrors' hm).2 hexact hterm
        exact ⟨p, hothers p hp (hpu ▸ (hread' hx).1), hpu, hpi⟩
      removals := fun p hp => by
        rw [hnext]
        exact h.removals p (hpending p hp)
      replaces := fun u x hx => by
        rw [hreplace]
        exact h.replaces u x (hread' hx).2
      traced := htraced }

/-- **Drop**: a pending removal that belongs to no finished order is forgotten. -/
theorem Valid.drop {before after : List PendingRemoval} {item : PendingRemoval}
    (h : Valid env none { s with pendingRemovals := before ++ item :: after } es)
    (hidle : ∀ o, s.read.lookup item.uid = some o → o.status.isTerminal = true →
      o.instanceId ≠ item.instanceId) :
    Valid env none { s with pendingRemovals := before ++ after } es :=
  { h with
    planned := fun u o m hu ho hm hexact hterm => by
      obtain ⟨p, hp, hpu, hpi⟩ := h.planned u o m hu ho hm hexact hterm
      obtain ⟨m', hm', hstatus⟩ := h.mirrored u o ho
      cases hm.symm.trans hm'
      have hne : p ≠ item := by
        rintro rfl
        apply hidle o (hpu ▸ ho) _ hpi.symm
        rw [hstatus, ← CanonicalOrderState.isTerminal_eq]
        exact hterm
      rcases Slots.mem_append_cons.mp hp with heq | hmem
      · exact absurd heq hne
      · exact ⟨p, hmem, hpu, hpi⟩
    removals := fun p hp => h.removals p (Slots.mem_append_cons.mpr (.inr hp)) }

end Rules

end OrderState

end MoonProto
