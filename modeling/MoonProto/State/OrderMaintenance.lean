import MoonProto.State.OrderValid

/-!
# Local actions and maintenance keep the order state valid

The operations that no message of the core causes: what the application does to an order
(`orders/actions.rs`) and what the tick does (`orders/maintenance.rs`). A local action only
touches an entry; a replace also brings the cached timeout forward. The drain loop moves
through the pending removals, and behind each turn the removals kept and those still to do
are the pending removals of a valid state. Each of the two ticks that recompute a cached
deadline leaves it at the minimum of what is left.
-/

namespace MoonProto

open List AList

namespace OrderState

variable {env : OrderEnv} {but : Option Nat} {s : OrderState} {es : List OrderEvent} {uid : Nat}

/-! ## Local actions -/

theorem Valid.modifyOrder (h : Valid env but s es) (uid : Nat) {f : Order → Order}
    (hf : ∀ o, (f o).core = o.core) : Valid env but (s.modifyOrder uid f) es := by
  unfold OrderState.modifyOrder
  split
  next => exact h
  next o ho => exact h.touch ho (.of_core (hf o))

theorem Valid.setImmuneClicks (h : Valid env but s es) (items : List ImmuneItem) :
    Valid env but (s.setImmuneClicks items).2 es := by
  unfold OrderState.setImmuneClicks
  refine foldlRecOn (motive := fun acc : List OrderCommandPayload × OrderState =>
    Valid env but acc.2 es) items _ h ?_
  intro acc hacc item _
  unfold setImmuneClick
  split
  next => exact hacc
  split
  · exact hacc
  · exact hacc.modifyOrder _ fun _ => rfl

theorem Valid.sendStopsIfChanged (h : Valid env but s es) (uid : Nat) (stops : StopSettings) :
    Valid env but (s.sendStopsIfChanged uid stops).2 es := by
  unfold OrderState.sendStopsIfChanged
  split
  next => exact h
  split
  next => exact h
  dsimp only
  split
  · exact h
  · exact h.modifyOrder _ fun _ => rfl

theorem Valid.sendVstopIfChanged (h : Valid env but s es) (uid : Nat) (enabled fixed : Bool)
    (level volume : F64) :
    Valid env but (s.sendVstopIfChanged env uid enabled fixed level volume).2 es := by
  unfold OrderState.sendVstopIfChanged
  split
  next => exact h
  split
  next => exact h
  split
  · exact h
  · exact h.modifyOrder _ fun _ => rfl

theorem core_replaceTarget {epsM newPrice : F64} {o o' : Order} {payload : OrderCommandPayload}
    (h : replaceTarget env epsM uid newPrice o = some (payload, o')) : o'.core = o.core := by
  unfold replaceTarget at h
  split at h
  next =>
    split at h
    · cases h
    split at h
    · cases h
    · cases h
      rfl
  next =>
    split at h
    · cases h
      rfl
    · split at h
      · cases h
        rfl
      · cases h

theorem Valid.sendReplaceIfRequested (h : Valid env but s es) (uid : Nat) (newPrice : F64)
    (nowMs : Int) : Valid env but (s.sendReplaceIfRequested env uid newPrice nowMs).2 es := by
  unfold OrderState.sendReplaceIfRequested
  split
  next => exact h
  next o ho =>
    split
    next => exact h
    next payload o' htarget =>
      obtain ⟨huid, hinst, hstatus, -⟩ := Order.Core.mk.inj (core_replaceTarget htarget)
      dsimp only
      generalize hsent : rememberTarget payload newPrice nowMs o' = o''
      have huid' : o''.uid = o.uid := hsent ▸ huid
      have hinst' : o''.instanceId = o.instanceId := hsent ▸ hinst
      have hstatus' : o''.status = o.status := hsent ▸ hstatus
      obtain ⟨d, hd, hdue, hold⟩ :=
        earlier_le s.nextReplaceTimeoutMs (replaceDueMs o''.replaceSentTimeMs)
      exact h.touchReplace ho huid' hinst' hstatus' (fun _ => ⟨d, hd, hdue⟩)
        fun c hc => ⟨d, hd, hold c hc⟩

theorem Valid.sendCancelIfRequested (h : Valid env but s es) (uid : Nat) :
    Valid env but (s.sendCancelIfRequested uid).2 es := by
  have hcancel : Valid env but (s.modifyOrder uid fun o =>
      { o with pendingCancel := o.status == OrderWorkerStatus.none }) es :=
    h.modifyOrder uid fun _ => rfl
  unfold OrderState.sendCancelIfRequested
  split
  next => exact h
  dsimp only
  split
  · exact hcancel
  split
  · exact hcancel
  split
  · exact hcancel
  · exact h

theorem Valid.sendPanicSellIfChanged (h : Valid env but s es) (uid : Nat) (enabled : Bool) :
    Valid env but (s.sendPanicSellIfChanged uid enabled).2 es := by
  unfold OrderState.sendPanicSellIfChanged
  split
  next => exact h
  split
  · exact h
  · exact h.modifyOrder _ fun _ => rfl

theorem Valid.switchPanicSellByMarket (h : Valid env but s es) (marketName : Bytes)
    (turnOn : Bool) : Valid env but (s.switchPanicSellByMarket env marketName turnOn).2 es := by
  unfold OrderState.switchPanicSellByMarket
  dsimp only
  split
  next => exact h
  refine foldlRecOn (motive := fun acc : (List OrderCommandPayload ×
    List OrderCommandPayload) × OrderState => Valid env but acc.2 es) _ _ h ?_
  intro acc hacc uid _
  unfold switchPanicOrder
  split
  next => exact hacc
  dsimp only
  split
  · refine Valid.sendVstopIfChanged (Valid.sendStopsIfChanged (hacc.modifyOrder uid ?_) _ _) _ _
      _ _ _
    intro o
    rfl
  · refine hacc.modifyOrder uid ?_
    intro o
    rfl

theorem Valid.markPanicSellAll (h : Valid env but s es) :
    Valid env but s.markPanicSellAll.2 es := by
  unfold OrderState.markPanicSellAll
  refine foldlRecOn (motive := fun acc => Valid env but acc es) _ _ h ?_
  intro acc hacc uid _
  exact hacc.modifyOrder uid fun _ => rfl

/-! ## Maintenance -/

theorem min?_le_of_mem {l : List Int} {d : Int} (h : d ∈ l) : ∃ c, l.min? = some c ∧ c ≤ d := by
  cases hmin : l.min? with
  | none =>
    rw [min?_eq_none_iff] at hmin
    rw [hmin] at h
    cases h
  | some c =>
    rw [min?_eq_some_iff] at hmin
    exact ⟨c, rfl, hmin.2 d h⟩

/-- One turn of the drain loop: `keep ++ todo` are the pending removals left. -/
theorem Valid.drainItem {nowMs : Int} {keep todo : List PendingRemoval} {removed : List Order}
    {item : PendingRemoval}
    (h : Valid env none { s with pendingRemovals := keep ++ item :: todo }
      (es ++ removed.map .removed)) :
    Valid env none
      { (OrderState.drainItem nowMs (keep, removed, s) item).2.2 with
        pendingRemovals := (OrderState.drainItem nowMs (keep, removed, s) item).1 ++ todo }
      (es ++ (OrderState.drainItem nowMs (keep, removed, s) item).2.1.map .removed) := by
  unfold OrderState.drainItem
  split
  next =>
    dsimp only
    rw [append_assoc]
    exact h
  next =>
    split
    next hno => exact h.drop fun o ho => nomatch hno.symm.trans ho
    next o ho =>
      dsimp only at ho
      split
      next howned =>
        dsimp only
        rw [map_append, ← append_assoc]
        obtain ⟨hmirrors, -, hnext, hreplace⟩ := recordTombstone_frame
          { s with mirrors := s.mirrors.erase item.uid } item.uid
        refine h.erase rfl hmirrors (fun u hu => ?_) (fun p hp hne => ?_) (fun p hp => ?_) hnext
          hreplace (h.traced.removed ho (h.ids _ _ ho))
        · change (({ s with mirrors := s.mirrors.erase item.uid } : OrderState).recordTombstone
            item.uid).isTombstoned u = true at hu
          have hold := isTombstoned_recordTombstone hu
          exact hold
        · rcases Slots.mem_append_cons.mp hp with rfl | hmem
          · exact absurd rfl hne
          · exact hmem
        · exact Slots.mem_append_cons.mpr (.inr hp)
      next hnot =>
        refine h.drop fun o' ho' hterm hinst => hnot ?_
        cases ho.symm.trans ho'
        exact ⟨hinst, hterm⟩

theorem Valid.foldl_drainItem (nowMs : Int) : ∀ (todo : List PendingRemoval)
    {keep : List PendingRemoval} {removed : List Order} {s : OrderState},
    Valid env none { s with pendingRemovals := keep ++ todo } (es ++ removed.map .removed) →
    Valid env none
      { (todo.foldl (OrderState.drainItem nowMs) (keep, removed, s)).2.2 with
        pendingRemovals := (todo.foldl (OrderState.drainItem nowMs) (keep, removed, s)).1 }
      (es ++ (todo.foldl (OrderState.drainItem nowMs) (keep, removed, s)).2.1.map .removed)
  | [], keep, removed, s, h => by
    rw [append_nil] at h
    exact h
  | item :: todo, keep, removed, s, h => Valid.foldl_drainItem nowMs todo h.drainItem

theorem Valid.drainPendingRemovalsDue (h : Valid env none s es) (nowMs : Int) :
    Valid env none (s.drainPendingRemovalsDue nowMs).2
      (es ++ (s.drainPendingRemovalsDue nowMs).1.map .removed) := by
  unfold OrderState.drainPendingRemovalsDue
  split
  next =>
    rw [map_nil, append_nil]
    exact h
  next =>
    have hstart : Valid env none { s with pendingRemovals := [] ++ s.pendingRemovals }
        (es ++ ([] : List Order).map .removed) := by
      rw [map_nil, append_nil]
      exact h
    have hend := Valid.foldl_drainItem nowMs s.pendingRemovals hstart
    exact
      { hend with
        removals := fun p hp => min?_le_of_mem (List.mem_map_of_mem hp) }

/-- Events are appended to what has been emitted: the rule for an update with its event. -/
theorem Valid.touchUpdated {new : List OrderEvent} {o o' : Order}
    (h : Valid env but s (es ++ new)) (ho : s.read.lookup uid = some o) (hk : o.Keeps o') :
    Valid env but { s with read := s.read.insert uid o' } (es ++ (new ++ [.updated o'])) := by
  have htouched := h.touch ho hk
  have huid : o'.uid = uid := hk.uid.trans (h.ids uid o ho)
  rw [← append_assoc]
  refine htouched.of_events (htouched.traced.updated (o := o') ?_)
  rw [huid]
  exact lookup_insert s.read

theorem Valid.tickBulkReplaceTimeouts (h : Valid env none s es) (nowMs : Int) :
    Valid env none (s.tickBulkReplaceTimeouts nowMs).2
      (es ++ (s.tickBulkReplaceTimeouts nowMs).1) := by
  unfold OrderState.tickBulkReplaceTimeouts
  split
  next =>
    rw [append_nil]
    exact h
  next =>
    dsimp only
    generalize (s.read.entries.filter fun e => replaceTimedOut nowMs e.2).map (·.2.uid) = uids
    have hend : Valid env none (uids.foldl timeOutReplace ([], s)).2
        (es ++ (uids.foldl timeOutReplace ([], s)).1) := by
      refine foldlRecOn (motive := fun acc : List OrderEvent × OrderState =>
        Valid env none acc.2 (es ++ acc.1)) uids _ (by rwa [append_nil]) ?_
      intro acc hacc uid _
      unfold timeOutReplace
      split
      next => exact hacc
      next o ho => exact hacc.touchUpdated ho ⟨rfl, rfl, rfl, .inr rfl⟩
    exact
      { hend with
        replaces := fun u o ho hsent => by
          refine min?_le_of_mem (List.mem_map.mpr ⟨⟨u, o⟩, mem_filter.mpr ⟨?_, ?_⟩, rfl⟩)
          · exact mem_lookup_iff.mp ho
          · exact decide_eq_true hsent }

theorem Valid.tickOrderTraceLineShrink (h : Valid env none s es) (nowMs : Int) :
    Valid env none (s.tickOrderTraceLineShrink env nowMs).2
      (es ++ (s.tickOrderTraceLineShrink env nowMs).1) := by
  unfold OrderState.tickOrderTraceLineShrink
  split
  next =>
    rw [append_nil]
    exact h
  next =>
    dsimp only
    refine foldlRecOn (motive := fun acc : List OrderEvent × OrderState =>
      Valid env none acc.2 (es ++ acc.1)) _ _ ?_ ?_
    · rw [append_nil]
      exact h.congr (fun _ => rfl) (fun _ => rfl) ⟨rfl, rfl, rfl, rfl⟩
    · intro acc hacc uid _
      unfold shrinkOrder
      split
      next => exact hacc
      next o ho =>
        split
        next =>
          have htouched := hacc.touch ho
            (.of_core (Order.core_shrinkLines env o orderTraceLineShrinkTo))
          dsimp only
          split
          · rw [← append_assoc]
            exact htouched.of_events (htouched.traced.neutral (fun _ => trivial) fun _ _ => rfl)
          · exact htouched
        next => exact hacc

end OrderState

end MoonProto
