import MoonProto.State.OrderMaintenance
import MoonProto.State.OrderReplica

/-!
# The life of an order

Every input of the order state keeps `Valid`, with one exception. A patch that carries no
section at all can still bring the checksum that proves the replica; the mirror is then
promoted, but as no section was applied `merge_state` returns before it plans the removal
of a finished order. `SkipsRemoval` is that case, and `lifecycle_iff` says that the runs in
which the life of every order is in order are exactly those without it.
-/

namespace MoonProto

open List Option AList

namespace OrderChannel

open OrderState (Valid Planned)

variable {env : OrderEnv} {c : OrderChannel} {uid : Nat} {m : OrderMirror} {nowMs : Int}
  {marketExists : Bytes → Bool}

/-- The invariant of a channel between operations. -/
def Sound (env : OrderEnv) (c : OrderChannel) : Prop := Valid env none c.toOrderState c.events

/-! ## Merging -/

theorem sound_planRemoval {done : Bool} (h : Valid env (some uid) c.toOrderState c.events)
    (hdone : ∀ o m, c.read.lookup uid = some o → c.mirrors.lookup uid = some m →
      m.isExact = true → m.state.isTerminal = true → done = true) :
    Sound env (c.planRemoval uid nowMs done) := by
  unfold planRemoval
  split
  next => exact h.plan _ _
  next hnot =>
    exact h.complete fun o m ho hm hexact hterm => absurd (hdone o m ho hm hexact hterm) hnot

theorem sound_attach {done : Bool} (h : Sound env c) (hno : c.read.lookup uid = none)
    (hm : c.mirrors.lookup uid = some m)
    (hdone : m.isExact = true → m.state.isTerminal = true → done = true) :
    Sound env ((c.attach env uid m).planRemoval uid nowMs done) := by
  obtain ⟨huid, -, hstatus, hsent⟩ := Order.Core.mk.inj (Order.core_fromCanonical env uid m.desc
    c.allocatedInstanceId c.routeCurrency c.routePlatform m.state)
  apply sound_planRemoval
  · refine h.project
      (fun u hu => lookup_insert_ne hu) (lookup_insert c.read) (fun _ _ => rfl) hm
      ⟨rfl, rfl, rfl, rfl⟩ huid hstatus (h.unburied uid m hm) (h.settled uid m hm) ?_
      (h.traced.created hno huid)
    rw [hsent]
    exact fun hpos => absurd hpos (lt_irrefl 0)
  · intro o m' _ hm' hexact hterm
    cases hm.symm.trans hm'
    exact hdone hexact hterm

theorem showsTerminal_of_status {o : Order} {state : CanonicalOrderState}
    (ho : c.read.lookup uid = some o) (hstatus : o.status = ⟨state.statusByte⟩) :
    c.showsTerminal uid = state.isTerminal := by
  unfold showsTerminal
  rw [ho, any_some, hstatus, CanonicalOrderState.isTerminal_eq]

theorem sound_attachMerged (h : Sound env c) (hno : c.read.lookup uid = none)
    (hm : c.mirrors.lookup uid = some m) :
    Sound env ((c.attach env uid m).planRemoval uid nowMs
      (m.isExact && (c.attach env uid m).showsTerminal uid)) := by
  refine sound_attach h hno hm fun hexact hterm => ?_
  obtain ⟨-, -, hstatus, -⟩ := Order.Core.mk.inj (Order.core_fromCanonical env uid m.desc
    c.allocatedInstanceId c.routeCurrency c.routePlatform m.state)
  rw [hexact, Bool.true_and, showsTerminal_of_status (lookup_insert c.read) hstatus]
  exact hterm

/-- A mirror that was merged without a newer section leaves the read model as it is. -/
theorem sound_keepMerged {o : Order} (h : Sound env c) (ho : c.read.lookup uid = some o)
    (htomb : c.isTombstoned uid = false) (hsettled : m.Settled env)
    (hstatus : o.status = ⟨m.state.statusByte⟩)
    (hplanned : m.isExact = true → m.state.isTerminal = true →
      Planned c.pendingRemovals uid o.instanceId) (repairs : List OrderRepair) :
    Sound env { c with mirrors := c.mirrors.insert uid m, repairs := repairs } := by
  apply Valid.complete
  · exact h.project (fun _ _ => rfl) ho (fun u hu => lookup_insert_ne hu)
      (lookup_insert c.mirrors) ⟨rfl, rfl, rfl, rfl⟩ (h.ids uid o ho) hstatus htomb hsettled
      (fun _ => ⟨o, ho, rfl⟩) h.traced
  · intro o' m' ho' hm'
    cases ho.symm.trans ho'
    cases (lookup_insert c.mirrors).symm.trans hm'
    exact hplanned

/-- The applied sections of a merged mirror are materialised. -/
theorem sound_applyMerged {o o' : Order} {mask : Nat} (h : Sound env c)
    (ho : c.read.lookup uid = some o) (htomb : c.isTombstoned uid = false)
    (hsettled : m.Settled env) (hmat : Order.Materialized m.state mask o o')
    (hstatus : mask.testBit osecPhase = false → o.status = ⟨m.state.statusByte⟩)
    {c' : OrderChannel}
    (hc' : c' = { c with
      mirrors := c.mirrors.insert uid m
      repairs := c'.repairs
      read := c.read.insert uid o'
      events := c.events ++ [.updated o'] }) :
    Sound env (c'.planRemoval uid nowMs (m.isExact && c'.showsTerminal uid)) := by
  have hid : o'.uid = uid := hmat.uid.trans (h.ids uid o ho)
  have hstatus' : o'.status = ⟨m.state.statusByte⟩ := by
    rw [hmat.status]
    split
    next => rfl
    next hbit => exact hstatus (Bool.not_eq_true _ ▸ hbit)
  have hread : c'.read.lookup uid = some o' := by
    rw [hc']
    exact lookup_insert c.read
  have hmirror : c'.mirrors.lookup uid = some m := by
    rw [hc']
    exact lookup_insert c.mirrors
  apply sound_planRemoval
  · rw [hc']
    refine h.project (fun u hu => lookup_insert_ne hu) (lookup_insert c.read)
      (fun u hu => lookup_insert_ne hu) (lookup_insert c.mirrors)
      ⟨rfl, rfl, rfl, rfl⟩ hid hstatus' htomb hsettled (fun hpos => ⟨o, ho, ?_⟩) ?_
    · rcases hmat.replaceSent with heq | heq
      · exact heq.symm
      · rw [heq] at hpos
        exact absurd hpos (lt_irrefl 0)
    · refine Traced.updated (o := o') (h.traced.touched ho) ?_
      rw [hid]
      exact lookup_insert c.read
  · intro _ m' _ hm' hexact hterm
    cases hmirror.symm.trans hm'
    rw [hexact, Bool.true_and, showsTerminal_of_status hread hstatus']
    exact hterm

/-- **Merge.** `hplanned` is what is missing: if nothing was applied to a finished order that
the merge makes exact, its removal must have been planned before. -/
theorem sound_mergeMirror {msg : OrderMirror.Message} (h : Sound env c)
    (hm : ∀ m', c.mirrors.lookup uid = some m' → m' = m) (htomb : c.isTombstoned uid = false)
    (hplanned : ∀ o, c.read.lookup uid = some o → m.appliedMask msg = 0 →
      (m.merge env msg).mirror.isExact = true →
      (m.merge env msg).mirror.state.isTerminal = true →
      Planned c.pendingRemovals uid o.instanceId) :
    Sound env (c.mergeMirror env uid m msg marketExists nowMs) := by
  have hsettled := OrderMirror.merge_settled env m msg
  have hexact := OrderMirror.merge_exact env m msg
  have happlied := OrderMirror.merge_appliedMask env m msg
  -- the status of an attached order is that of the merged mirror unless the phase was applied
  have hstatus : ∀ o, c.read.lookup uid = some o →
      (m.appliedMask msg).testBit osecPhase = false →
      o.status = ⟨(m.merge env msg).mirror.state.statusByte⟩ := by
    intro o ho hbit
    obtain ⟨m', hm', hstatus⟩ := h.mirrored uid o ho
    rw [hstatus, hm m' hm', OrderMirror.merge_statusByte env hbit]
  unfold mergeMirror
  dsimp only
  generalize m.merge env msg = r at hsettled hexact happlied hplanned hstatus ⊢
  -- a repair is asked for or not
  have hafter : ∀ repairs, Sound env
      (({ c with mirrors := c.mirrors.insert uid r.mirror, repairs := repairs } :
        OrderChannel).afterMerge env uid r marketExists nowMs) := by
    intro repairs
    unfold afterMerge
    split
    next hno =>
      have hpark : Sound env
          { c with mirrors := c.mirrors.insert uid r.mirror, repairs := repairs } :=
        h.park hno htomb hsettled
      split
      next =>
        rw [hexact]
        exact sound_attachMerged hpark hno (lookup_insert c.mirrors)
      next => exact hpark
    next o ho =>
      split
      next hzero =>
        rw [happlied] at hzero
        refine sound_keepMerged h ho htomb hsettled (hstatus o ho ?_) (hplanned o ho hzero) repairs
        rw [hzero, Nat.zero_testBit]
      next =>
        rw [happlied, hexact]
        exact sound_applyMerged h ho htomb hsettled
          (Order.materialized_applyCanonical env o r.mirror.state (m.appliedMask msg))
          (hstatus o ho) rfl
  split
  · exact hafter c.repairs
  · exact hafter _

/-- The message carries no section but proves a finished order in the read model, and the
removal of that order has not been planned. -/
def ProvesUnplanned (env : OrderEnv) (s : OrderState) (uid : Nat) (msg : OrderMirror.Message) :
    Prop :=
  ∃ o m, s.read.lookup uid = some o ∧ s.mirrors.lookup uid = some m ∧
    (∀ i, msg.carries i = false) ∧ m.replicaRev < msg.revision ∧ m.replicaRev ≠ 0 ∧
    stateHash env m.replicaRev m.desc m.state = msg.expectedHash ∧
    m.isExact = false ∧ m.state.isTerminal = true ∧
    ¬ Planned s.pendingRemovals uid o.instanceId

theorem sound_mergeState {msg : OrderMirror.Message} (h : Sound env c)
    (hskip : ¬ ProvesUnplanned env c.toOrderState uid msg) :
    Sound env (c.mergeState env uid msg marketExists nowMs) := by
  unfold mergeState
  split
  next hno =>
    split
    next => exact h
    next htomb =>
      split
      next => exact h
      next desc _ =>
        rw [Bool.not_eq_true] at htomb
        refine sound_mergeMirror h (fun m' hm' => nomatch hno.symm.trans hm') htomb ?_
        intro o ho
        obtain ⟨m, hm, -⟩ := h.mirrored uid o ho
        exact nomatch hno.symm.trans hm
  next m hm =>
    split
    next => exact h
    refine sound_mergeMirror h (fun m' hm' => Option.some.inj (hm'.symm.trans hm))
      (h.unburied uid m hm) ?_
    intro o ho hzero hexact' hterm
    have hsame : (m.merge env msg).mirror.state.statusByte = m.state.statusByte :=
      OrderMirror.merge_statusByte env (by rw [hzero, Nat.zero_testBit])
    rw [CanonicalOrderState.isTerminal_eq, hsame, ← CanonicalOrderState.isTerminal_eq] at hterm
    cases hexact : m.isExact with
    | true => exact h.planned uid o m nofun ho hm hexact hterm
    | false =>
      obtain ⟨hnone, hlt, hrev, hhash⟩ := OrderMirror.sectionless_of_promoted
        (h.settled uid m hm) hzero hexact hexact'
      by_contra hunplanned
      exact hskip ⟨o, m, ho, hm, hnone, hlt, hrev, hhash, hexact, hterm, hunplanned⟩

theorem sound_mergeImage (h : Sound env c) (stateRev : Nat) (desc : OrderDescription) (mask : Nat)
    (state : CanonicalOrderState) :
    Sound env (c.mergeState env uid (imageMessage env stateRev desc mask state) marketExists
      nowMs) := by
  apply sound_mergeState h
  rintro ⟨_, _, _, _, hnone, _⟩
  cases hnone 0

/-! ## Other commands -/

theorem sound_ensureWorld (h : Sound env c) (peerAppToken : Nat) :
    Sound env (c.ensureWorld peerAppToken) := by
  unfold ensureWorld
  split
  next => exact h
  have hentries : ∀ e ∈ c.read.entries, e.2.uid = e.1 := fun e he =>
    h.ids e.1 e.2 (mem_lookup_iff.mpr he)
  have huids : (c.read.entries.map (·.2)).map Order.uid = c.read.keys := by
    rw [List.map_map]
    exact map_congr_left hentries
  have hpresent : ∀ o ∈ c.read.entries.map (·.2), presentAfter c.events o.uid = true := by
    intro o ho
    obtain ⟨e, he, rfl⟩ := List.mem_map.mp ho
    rw [h.traced.present, hentries e he, mem_lookup_iff.mpr he]
    rfl
  obtain ⟨hwf, hlast⟩ := Traced.wellFormed_removedAll h.traced.wellFormed hpresent
    (huids ▸ c.read.keys_nodup)
  rw [huids, List.map_map] at hlast
  rw [List.map_map] at hwf
  have htraced : Traced (c.events ++ c.read.entries.map (.removed ·.2)) ∅ := by
    refine ⟨hwf, fun u => ?_⟩
    rw [lookup_empty]
    refine (hlast u).trans ?_
    rw [h.traced.present, isSome_none]
    by_cases hu : u ∈ c.read.keys
    · rw [contains_iff_mem.mpr hu, Bool.not_true, Bool.and_false]
    · rw [AList.lookup_eq_none.mpr hu, isSome_none, Bool.false_and]
  exact .empty rfl rfl rfl htraced

theorem sound_reconcileItem (h : Sound env c) (item : OrderCatalogRecord) :
    Sound env (c.reconcileItem env item) := by
  unfold reconcileItem
  split
  next =>
    split
    · exact h
    · exact h
  next m hm =>
    split
    next => exact h
    split
    next => exact h
    split
    next => exact h
    split
    next => exact h
    next o ho =>
      have hmat := Order.materialized_applyCanonical env o m.state orderReconcileMask
      have hstatus := hmat.status
      rw [if_neg (by decide)] at hstatus
      have h' : Valid env none c.toOrderState (c.events ++ []) := by
        rw [append_nil]
        exact h
      exact h'.touchUpdated ho ⟨hmat.uid, hmat.instanceId, hstatus, hmat.replaceSent⟩

theorem sound_repairUnlisted (h : Sound env c) (fromUid rangeEndUid : Nat) (ids : List Nat)
    (e : Sigma fun _ : Nat => OrderMirror) :
    Sound env (c.repairUnlisted fromUid rangeEndUid ids e) := by
  unfold repairUnlisted
  split
  · exact h
  split
  · exact h
  split
  · exact h
  · exact h

theorem sound_processColdPage (h : Sound env c) (fromUid rangeEndUid : Nat)
    (catalog : List OrderCatalogRecord) :
    Sound env (c.processColdPage env fromUid rangeEndUid catalog) := by
  unfold processColdPage
  refine foldlRecOn (motive := Sound env) _ _ ?_ fun c hc e _ => sound_repairUnlisted hc _ _ _ e
  exact foldlRecOn (motive := Sound env) _ _ h fun c hc item _ => sound_reconcileItem hc item

theorem sound_emitSnapshot (h : Sound env c) : Sound env (c.emit .snapshot) :=
  h.of_events (h.traced.neutral (fun _ => trivial) fun _ _ => rfl)

theorem sound_applyGone (h : Sound env c) (uid : Nat) : Sound env (c.applyGone uid) := by
  unfold applyGone
  split
  next hno => exact h.bury hno
  next m hm =>
    split
    next => exact h
    dsimp only
    generalize hs : ({ c.toOrderState with
      mirrors := c.mirrors.erase uid
      pendingRemovals := c.pendingRemovals.filter (·.uid != uid) } : OrderState) = s
    obtain ⟨hmirrors, hpending, hnext, hreplace⟩ := OrderState.recordTombstone_frame s uid
    have hgone : ∀ {es}, Traced es (c.read.erase uid) →
        Valid env none { s.recordTombstone uid with read := c.read.erase uid } es := by
      intro es htraced
      subst hs
      refine h.erase rfl hmirrors (fun u hu => ?_) (fun p hp hne => ?_) (fun p hp => ?_) hnext
        hreplace htraced
      · have hold := @OrderState.isTombstoned_recordTombstone _ uid u hu
        exact hold
      · rw [hpending]
        exact mem_filter.mpr ⟨hp, bne_iff_ne.mpr hne⟩
      · rw [hpending] at hp
        exact (mem_filter.mp hp).1
    split
    next hread =>
      refine hgone (h.traced.congr fun u => ?_)
      rw [OrderMap.isSome_lookup_erase]
      split
      next heq =>
        rw [← heq, hread]
        rfl
      next => rfl
    next o ho => exact hgone (h.traced.removed ho (h.ids uid o ho))

theorem sound_touchOrder (h : Sound env c) (uid : Nat) {f : Order → Order}
    {event : Order → OrderEvent} (hf : ∀ o, (f o).core = o.core)
    (hfits : ∀ o past, (event o).Fits past) (hmarks : ∀ o u b, (event o).marks u b = b) :
    Sound env (c.touchOrder uid f event) := by
  unfold touchOrder
  split
  next =>
    split
    next => exact h
    next o ho =>
      have htouched := h.touch ho (.of_core (hf o))
      exact htouched.of_events (htouched.traced.neutral (hfits o) (hmarks o))
  next => exact h

theorem sound_applyCommand (h : Sound env c) (ctx : Context) {command : TradeCommand}
    (hskip : ∀ patch, command = .orderPatch patch →
      ¬ ProvesUnplanned env c.toOrderState patch.uid (patchMessage patch)) :
    Sound env (c.applyCommand env ctx command) := by
  cases command with
  | orderImage image => exact sound_mergeImage h _ _ _ _
  | orderPatch patch => exact sound_mergeState h (hskip patch rfl)
  | ordersSnapshot page =>
    have hmerged : Sound env (page.records.foldl (mergeRecord env ctx) c) :=
      foldlRecOn (motive := Sound env) _ _ h fun c hc record _ =>
        sound_mergeImage hc _ _ _ _
    exact sound_emitSnapshot (sound_processColdPage hmerged _ _ _)
  | ordersCatalog page => exact sound_emitSnapshot (sound_processColdPage h _ _ _)
  | orderNotFound uid => exact sound_applyGone h uid
  | orderTracePoint point =>
    refine sound_touchOrder h _ (fun o => ?_) (fun _ _ => trivial) fun _ _ _ => rfl
    exact Order.core_applyTraceLine env o _
  | corridorUpdate corridor =>
    refine sound_touchOrder h _ (fun o => ?_) (fun _ _ => trivial) fun _ _ _ => rfl
    rfl
  | other => exact h

/-! ## Markets that become known -/

theorem lookup_read_attachParked {other : Nat} (hne : other ≠ uid) :
    (c.attachParked env nowMs uid).read.lookup other = c.read.lookup other := by
  unfold attachParked
  split
  next => rfl
  rw [planRemoval_read]
  exact lookup_insert_ne hne

theorem sound_attachParked (h : Sound env c) (hno : c.read.lookup uid = none) :
    Sound env (attachParked env nowMs c uid) := by
  unfold attachParked
  split
  next => exact h.congr (fun _ => rfl) (fun _ => rfl) ⟨rfl, rfl, rfl, rfl⟩
  next m hm =>
    refine sound_attach h hno hm fun hexact hterm => ?_
    rw [hexact, hterm]
    rfl

/-- The loop attaches distinct orders, each of them absent until its turn. -/
theorem sound_foldl_attachParked {parked : List Nat} (h : Sound env c) (hnodup : parked.Nodup)
    (habsent : ∀ u ∈ parked, c.read.lookup u = none) :
    Sound env (parked.foldl (attachParked env nowMs) c) := by
  induction parked generalizing c with
  | nil => exact h
  | cons uid parked ih =>
    obtain ⟨hfresh, hnodup⟩ := nodup_cons.mp hnodup
    rw [foldl_cons]
    apply ih (sound_attachParked h (habsent uid mem_cons_self)) hnodup
    intro u hu
    have hne : u ≠ uid := fun heq => hfresh (heq ▸ hu)
    rw [lookup_read_attachParked hne]
    exact habsent u (mem_cons_of_mem uid hu)

theorem sound_rescanParked (h : Sound env c) (nowMs : Int) (marketExists : Bytes → Bool) :
    Sound env (c.rescanParked env nowMs marketExists) := by
  unfold rescanParked
  refine sound_foldl_attachParked h ?_ fun u hu => ?_
  · exact c.mirrors.keys_nodup.sublist (filter_sublist.map _)
  · obtain ⟨e, he, rfl⟩ := List.mem_map.mp hu
    have hparked := (mem_filter.mp he).2
    rw [Bool.and_eq_true, isNone_iff_eq_none] at hparked
    exact hparked.1

/-! ## Steps and runs -/

theorem sound_tick (h : Sound env c) (nowMs : Int) : Sound env (c.tick env nowMs) := by
  unfold tick
  split
  next =>
    have hreplaced : Sound env (c.replaceTimeouts nowMs) :=
      Valid.tickBulkReplaceTimeouts h nowMs
    have hshrunk : Sound env ((c.replaceTimeouts nowMs).shrinkTraces env nowMs) :=
      Valid.tickOrderTraceLineShrink hreplaced nowMs
    exact Valid.drainPendingRemovalsDue hshrunk nowMs
  next => exact h

variable {s : OrderState}

theorem valid_actOn {es : List OrderEvent} (h : Valid env none s es)
    (action : Action) : Valid env none (actOn env s action).2 es := by
  cases action with
  | immune items => exact h.setImmuneClicks items
  | stops uid stops => exact h.sendStopsIfChanged uid stops
  | vstop uid enabled fixed level volume =>
    exact h.sendVstopIfChanged uid enabled fixed level volume
  | replace uid newPrice nowMs => exact h.sendReplaceIfRequested uid newPrice nowMs
  | cancel uid => exact h.sendCancelIfRequested uid
  | panic uid enabled => exact h.sendPanicSellIfChanged uid enabled
  | panicByMarket marketName turnOn => exact h.switchPanicSellByMarket marketName turnOn
  | panicAll => exact h.markPanicSellAll

/-- The input is a patch for the current world that proves a finished order without carrying
a section, before the removal of that order has been planned. -/
def SkipsRemoval (env : OrderEnv) (c : OrderChannel) : Input → Prop
  | .command ctx (.orderPatch patch) =>
    ctx.serverToken ≠ 0 ∧ (ctx.peerAppToken = 0 ∨ ctx.peerAppToken = c.worldAppToken) ∧
      ProvesUnplanned env c.toOrderState patch.uid (patchMessage patch)
  | _ => False

theorem sound_applyProtocol (h : Sound env c) (ctx : Context) (command : TradeCommand)
    (hskip : ¬ SkipsRemoval env c (.command ctx command)) :
    Sound env (c.applyProtocol env ctx command) := by
  unfold applyProtocol
  split
  next => exact h
  next htoken =>
    apply sound_applyCommand (sound_ensureWorld h ctx.peerAppToken)
    rintro patch rfl hproves
    -- in a new world no order is attached
    unfold ensureWorld at hproves
    split at hproves
    next hworld =>
      rw [Bool.or_eq_true, decide_eq_true_eq, decide_eq_true_eq] at hworld
      exact hskip ⟨htoken, hworld, hproves⟩
    next =>
      obtain ⟨o, -, ho, -⟩ := hproves
      rw [lookup_empty] at ho
      cases ho

/-- **One step** keeps the invariant unless it skips a removal. -/
theorem sound_step (h : Sound env c) {input : Input} (hskip : ¬ SkipsRemoval env c input) :
    Sound env (c.step env input) := by
  cases input with
  | command ctx command => exact sound_applyProtocol h ctx command hskip
  | rescan nowMs marketExists => exact sound_rescanParked h nowMs marketExists
  | action action => exact valid_actOn h action
  | tick nowMs => exact sound_tick h nowMs
  | replaceTimeouts nowMs => exact Valid.tickBulkReplaceTimeouts h nowMs
  | shrinkTraces nowMs => exact Valid.tickOrderTraceLineShrink h nowMs
  | drainRemovals nowMs => exact Valid.drainPendingRemovalsDue h nowMs
  | setRoute currency platform => exact h.congr (fun _ => rfl) (fun _ => rfl) ⟨rfl, rfl, rfl, rfl⟩
  | setEpsProfile epsM => exact h.congr (fun _ => rfl) (fun _ => rfl) ⟨rfl, rfl, rfl, rfl⟩
  | rehash read mirrors =>
    unfold step
    dsimp only
    split
    next hperm =>
      exact h.congr (fun _ => perm_lookup hperm.1) (fun _ => perm_lookup hperm.2)
        ⟨rfl, rfl, rfl, rfl⟩
    next => exact h

theorem sound_new (env : OrderEnv) (epsM : F64) : Sound env (new epsM) := by
  refine .empty rfl rfl rfl ⟨fun past event hpre => ?_, fun uid => ?_⟩
  · exact absurd (prefix_nil.mp hpre) (append_ne_nil_of_right_ne_nil past nofun)
  · change false = ((∅ : OrderMap Order).lookup uid).isSome
    rw [lookup_empty]
    rfl

/-- **Every run** without a skipped removal keeps the invariant. -/
theorem sound_after (env : OrderEnv) (epsM : F64) (inputs : List Input)
    (hskip : ∀ past input, past ++ [input] <+: inputs →
      ¬ SkipsRemoval env (after env epsM past) input) : Sound env (after env epsM inputs) := by
  induction inputs using reverseRecOn with
  | nil => exact sound_new env epsM
  | append_singleton inputs input ih =>
    rw [after_snoc]
    refine sound_step (ih fun past other hpre => ?_) (hskip inputs input prefix_rfl)
    exact hskip past other (hpre.trans (prefix_append inputs [input]))

/-! ## The life of orders -/

/-- What holds of orders, mirrors, tombstones, planned removals, deadlines and events. -/
structure Lifecycle (c : OrderChannel) : Prop where
  mirrored : ∀ uid o, c.read.lookup uid = some o →
    ∃ m, c.mirrors.lookup uid = some m ∧ o.status = ⟨m.state.statusByte⟩
  unburied : ∀ uid m, c.mirrors.lookup uid = some m → c.isTombstoned uid = false
  planned : ∀ uid o m, c.read.lookup uid = some o → c.mirrors.lookup uid = some m →
    m.isExact = true → m.state.isTerminal = true → Planned c.pendingRemovals uid o.instanceId
  removalDue : ∀ nowMs, ∀ p ∈ c.pendingRemovals, p.dueMs ≤ nowMs → c.hasDueTickWork nowMs = true
  replaceDue : ∀ nowMs uid o, c.read.lookup uid = some o → 0 < o.replaceSentTimeMs →
    targetConfirmTimeoutMs < nowMs - o.replaceSentTimeMs → c.hasDueTickWork nowMs = true
  traced : Traced c.events c.read

/-- Saturation only makes the deadline of a replace earlier. -/
theorem replaceDueMs_le {sentMs nowMs : Int} (hsent : 0 < sentMs)
    (hdue : targetConfirmTimeoutMs < nowMs - sentMs) : OrderState.replaceDueMs sentMs ≤ nowMs := by
  unfold targetConfirmTimeoutMs at hdue
  unfold OrderState.replaceDueMs saturatingAdd targetConfirmTimeoutMs
  omega

theorem hasDueTickWork_of_removal {d nowMs : Int}
    (hd : s.nextPendingRemovalMs = some d) (hle : d ≤ nowMs) : s.hasDueTickWork nowMs = true := by
  unfold OrderState.hasDueTickWork
  rw [hd, any_some, decide_eq_true hle, Bool.true_or, Bool.true_or]

theorem hasDueTickWork_of_replace {d nowMs : Int}
    (hd : s.nextReplaceTimeoutMs = some d) (hle : d ≤ nowMs) : s.hasDueTickWork nowMs = true := by
  unfold OrderState.hasDueTickWork
  rw [hd, any_some, decide_eq_true hle, Bool.or_true, Bool.true_or]

theorem Sound.lifecycle (h : Sound env c) : Lifecycle c where
  mirrored := h.mirrored
  unburied := h.unburied
  planned := fun uid o m => h.planned uid o m nofun
  removalDue := fun nowMs p hp hdue => by
    obtain ⟨d, hd, hle⟩ := h.removals p hp
    exact hasDueTickWork_of_removal hd (hle.trans hdue)
  replaceDue := fun nowMs uid o ho hsent hdue => by
    obtain ⟨d, hd, hle⟩ := h.replaces uid o ho hsent
    exact hasDueTickWork_of_replace hd (hle.trans (replaceDueMs_le hsent hdue))
  traced := h.traced

/-- A merge that applies nothing to an order of the read model returns early. -/
theorem mergeMirror_of_stale {msg : OrderMirror.Message} {o : Order}
    (ho : c.read.lookup uid = some o) (hzero : m.appliedMask msg = 0) :
    (c.mergeMirror env uid m msg marketExists nowMs).read = c.read ∧
      (c.mergeMirror env uid m msg marketExists nowMs).pendingRemovals = c.pendingRemovals := by
  rw [← OrderMirror.merge_appliedMask env] at hzero
  unfold mergeMirror
  dsimp only
  split
  · unfold afterMerge
    simp only [ho, hzero, if_true, and_self]
  · unfold afterMerge pushRepair
    simp only [ho, hzero, if_true, and_self]

/-- Where a removal is skipped, the order stays without one. -/
theorem not_lifecycle_of_skipsRemoval {input : Input} (h : SkipsRemoval env c input) :
    ¬ Lifecycle (c.step env input) := by
  intro hlife
  unfold SkipsRemoval at h
  split at h
  next ctx patch =>
    obtain ⟨htoken, hworld, o, m, ho, hm, hnone, hlt, hrev, hhash, -, hterm, hunplanned⟩ := h
    obtain ⟨hzero, hexact', hstate⟩ := OrderMirror.promoted_of_sectionless hnone hlt hrev hhash
    have hstep : c.step env (.command ctx (.orderPatch patch)) =
        c.mergeMirror env patch.uid m (patchMessage patch) ctx.marketExists ctx.nowMs := by
      have hensure : c.ensureWorld ctx.peerAppToken = c := by
        unfold ensureWorld
        rw [if_pos]
        rw [Bool.or_eq_true, decide_eq_true_eq, decide_eq_true_eq]
        exact hworld
      unfold step applyProtocol
      dsimp only
      rw [if_neg htoken, hensure]
      unfold applyCommand mergeState
      simp only [hm]
      rfl
    rw [hstep] at hlife
    obtain ⟨hread, hpending⟩ := @mergeMirror_of_stale env c patch.uid m ctx.nowMs
      ctx.marketExists (patchMessage patch) o ho hzero
    apply hunplanned
    rw [← hpending]
    refine hlife.planned patch.uid o (m.merge env (patchMessage patch)).mirror ?_ ?_ hexact' ?_
    · rw [hread]
      exact ho
    · rw [mergeMirror_mirrors, lookup_insert]
    · rw [hstate]
      exact hterm
  next => exact h

/-- **The life of orders.** The invariant holds in every state of a run exactly when no input
of the run is a patch that proves a finished order, without carrying a section, before its
removal has been planned. -/
theorem lifecycle_iff (env : OrderEnv) (epsM : F64) (inputs : List Input) :
    (∀ past, past <+: inputs → Lifecycle (after env epsM past)) ↔
      ∀ past input, past ++ [input] <+: inputs →
        ¬ SkipsRemoval env (after env epsM past) input := by
  constructor
  · intro hlife past input hpre hskip
    apply not_lifecycle_of_skipsRemoval hskip
    rw [← after_snoc]
    exact hlife (past ++ [input]) hpre
  · intro hskip past hpre
    refine (sound_after env epsM past fun past' input hpre' => ?_).lifecycle
    exact hskip past' input (hpre'.trans hpre)

/-! ### A finished order that stays -/

/-- Commands come at time 1000 in one world, with every market known. -/
def received (command : TradeCommand) : Input :=
  .command ⟨1000, 1, 1, 0, fun _ => true⟩ command

/-- An image of order 7; a patch that finishes it, with a checksum that does not match; and a
patch without sections that brings the checksum of revision 2 as it stands. -/
def provenLate : List Input :=
  [received (.orderImage ⟨7, 1, btcDescription, 0x1fff, default⟩),
    received (.orderPatch ⟨7, 2, 0, 1, (default : CanonicalOrderState).setByte 0 8⟩),
    received (.orderPatch ⟨7, 3, 3756360951, 0, default⟩)]

section Run

-- the checksum folds over some four hundred bytes
set_option maxRecDepth 10000

/-- The order is in the read model, its mirror is exact and terminal, and nothing plans to
remove it. -/
theorem finished_order_stays : (∃ o m, (after castagnoliEnv 0 provenLate).read.lookup 7 = some o ∧
      (after castagnoliEnv 0 provenLate).mirrors.lookup 7 = some m ∧
      m.isExact = true ∧ m.state.isTerminal = true ∧
      (after castagnoliEnv 0 provenLate).pendingRemovals = []) ∧
    ¬ Lifecycle (after castagnoliEnv 0 provenLate) := by
  have hrun : ((after castagnoliEnv 0 provenLate).read.lookup 7).isSome = true ∧
      ((after castagnoliEnv 0 provenLate).mirrors.lookup 7).any
        (fun m => m.isExact && m.state.isTerminal) = true ∧
      (after castagnoliEnv 0 provenLate).pendingRemovals = [] := by
    decide +kernel
  generalize after castagnoliEnv 0 provenLate = c at hrun
  obtain ⟨hread, hmirror, hpending⟩ := hrun
  obtain ⟨o, ho⟩ := Option.isSome_iff_exists.mp hread
  obtain ⟨m, hm, hdone⟩ := Option.any_eq_true _ _ |>.mp hmirror
  rw [Bool.and_eq_true] at hdone
  refine ⟨⟨o, m, ho, hm, hdone.1, hdone.2, hpending⟩, fun hlife => ?_⟩
  obtain ⟨p, hp, -⟩ := hlife.planned 7 o m ho hm hdone.1 hdone.2
  rw [hpending] at hp
  cases hp

end Run

end OrderChannel

end MoonProto
