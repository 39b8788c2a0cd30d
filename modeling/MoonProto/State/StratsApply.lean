import MoonProto.State.StratsInvariant

/-!
# What an in-place apply does

The callbacks of the in-place apply note the order, the latest date and whether something was
passed over or changed. When nothing is passed over, the streaming reader delivers what the
reader of whole batches returns. Strategies of different ids that are newer than their entries
are all stored.
-/

namespace MoonProto

open List Option AList

/-! ## A scan that skips nothing -/

def Visit.header? : Visit → Option StrategyHeader
  | .header h => some h
  | .strategy _ => none

section scan

variable {env : StrategyEnv} {old : StrategyHeader → Bool} {names paths : List Text}
  {readerFields : Option (List (Option UInt8))}

theorem scan_eq_of_not_old : ∀ {n : Nat} {data : Bytes},
    (∀ h, .header h ∈ (scan old names paths readerFields n data).1 → old h = false) →
    scan old names paths readerFields n data =
      scan (fun _ => false) names paths readerFields n data
  | 0, _, _ => rfl
  | n + 1, data, hnew => by
    unfold scan at hnew ⊢
    cases hheader : readStrategyHeader paths data with
    | none => rfl
    | some p =>
      obtain ⟨header, rest⟩ := p
      rw [hheader] at hnew
      dsimp only at hnew ⊢
      cases hcount : Cursor.u16 rest with
      | none => rfl
      | some q =>
        obtain ⟨fieldCount, rest⟩ := q
        rw [hcount] at hnew
        dsimp only at hnew ⊢
        have hold : ¬old header = true := by
          intro hold
          rw [if_pos hold] at hnew
          cases hskip : skipStrategyFields fieldCount.toNat rest with
          | none =>
            rw [hskip] at hnew
            rw [hnew header mem_cons_self] at hold
            cases hold
          | some rest =>
            rw [hskip] at hnew
            rw [hnew header mem_cons_self] at hold
            cases hold
        rw [if_neg hold] at hnew
        rw [if_neg hold, if_neg Bool.false_ne_true]
        cases hread : readStrategyFields names readerFields fieldCount.toNat rest with
        | none => rfl
        | some q =>
          rw [hread] at hnew
          dsimp only at hnew ⊢
          rw [scan_eq_of_not_old fun h hh =>
            hnew h (mem_cons_of_mem _ (mem_cons_of_mem _ hh))]

theorem scan_headers : ∀ {n : Nat} {data : Bytes},
    (scan (fun _ => false) names paths readerFields n data).2 = some () →
    ((scan (fun _ => false) names paths readerFields n data).1.filterMap Visit.header?).map
        (fun h => (h.strategyId, h.lastDate)) =
      ((scan (fun _ => false) names paths readerFields n data).1.filterMap
        Visit.strategy?).map fun s => (s.strategyId, s.lastDate)
  | 0, _, _ => rfl
  | n + 1, data, hend => by
    unfold scan at hend ⊢
    cases hheader : readStrategyHeader paths data with
    | none => rfl
    | some p =>
      obtain ⟨header, rest⟩ := p
      rw [hheader] at hend
      dsimp only at hend ⊢
      cases hcount : Cursor.u16 rest with
      | none => rfl
      | some q =>
        obtain ⟨fieldCount, rest⟩ := q
        rw [hcount] at hend
        dsimp only at hend ⊢
        rw [if_neg Bool.false_ne_true] at hend ⊢
        cases hread : readStrategyFields names readerFields fieldCount.toNat rest with
        | none =>
          rw [hread] at hend
          cases hend
        | some q =>
          rw [hread] at hend
          exact congrArg (List.cons (header.strategyId, header.lastDate)) (scan_headers hend)

theorem scanBatch_whole {types : Option FieldTypes} {data : Bytes} {count : Nat}
    {dict : List Text} (hend : (scanBatch env old types data).2 = some (count, dict))
    (hnew : ∀ h, .header h ∈ (scanBatch env old types data).1 → old h = false) :
    (∃ batch, parseStrategyBatch env types data = some batch ∧ batch.paths = dict ∧
      batch.strategies = (scanBatch env old types data).1.filterMap Visit.strategy?) ∧
    ((scanBatch env old types data).1.filterMap Visit.header?).map
        (fun h => (h.strategyId, h.lastDate)) =
      ((scanBatch env old types data).1.filterMap Visit.strategy?).map
        fun s => (s.strategyId, s.lastDate) := by
  unfold parseStrategyBatch parseStrategyBatchPlain
  unfold scanBatch at hend hnew ⊢
  cases hdata : env.readInflateToVec data with
  | none =>
    rw [hdata] at hend
    cases hend
  | some plain =>
    rw [hdata] at hend hnew
    dsimp only at hend hnew ⊢
    cases hnames : readDict plain with
    | none =>
      rw [hnames] at hend
      cases hend
    | some p =>
      rw [hnames] at hend hnew
      dsimp only at hend hnew ⊢
      cases hpaths : readDict p.2 with
      | none =>
        rw [hpaths] at hend
        cases hend
      | some q =>
        rw [hpaths] at hend hnew
        dsimp only at hend hnew ⊢
        cases hcount : Cursor.u16 q.2 with
        | none =>
          rw [hcount] at hend
          cases hend
        | some r =>
          rw [hcount] at hend hnew
          dsimp only at hend hnew ⊢
          rw [scan_eq_of_not_old hnew] at hend ⊢
          obtain ⟨_, hscan, heq⟩ := Option.map_eq_some_iff.mp hend
          obtain ⟨-, rfl⟩ := Prod.mk.inj heq
          refine ⟨?_, scan_headers hscan⟩
          simp only [bind_eq_bind, bind_some, hnames, hpaths, hcount,
            readStrategies_eq_scan, hscan, map_some]
          exact ⟨_, rfl, rfl, rfl⟩

end scan

namespace StratsState

variable {env : StrategyEnv} {st : StratsState}

/-! ## What the callbacks note -/

section replay

variable (env) (st) (visits : List Visit) (acc : InPlace)

theorem replay_order :
    (visits.foldl (replay (fun acc h => (st.shouldSkipOld acc h).2) (onStrategy env)) acc).order =
      acc.order ++ (visits.filterMap Visit.header?).map StrategyHeader.strategyId := by
  induction visits generalizing acc with
  | nil => exact (append_nil _).symm
  | cons v visits ih =>
    cases v with
    | header h => exact (ih _).trans (append_assoc acc.order [h.strategyId] _)
    | strategy s => exact ih _

theorem replay_clientMaxLastDate : (visits.foldl (replay (fun acc h => (st.shouldSkipOld acc h).2)
        (onStrategy env)) acc).clientMaxLastDate =
      (visits.filterMap Visit.header?).foldl (fun m h => max m h.lastDate)
        acc.clientMaxLastDate := by
  induction visits generalizing acc with
  | nil => rfl
  | cons v visits ih =>
    cases v with
    | header h => exact ih _
    | strategy s => exact ih _

theorem replay_skippedOld : (visits.foldl (replay (fun acc h => (st.shouldSkipOld acc h).2)
        (onStrategy env)) acc).skippedOld =
      (acc.skippedOld || (visits.filterMap Visit.header?).any st.skips) := by
  induction visits generalizing acc with
  | nil => exact (Bool.or_false _).symm
  | cons v visits ih =>
    cases v with
    | header h => exact (ih _).trans (Bool.or_assoc acc.skippedOld (st.skips h) _)
    | strategy s => exact ih _

theorem replay_changed_of_changed (h : acc.changed = true) :
    (visits.foldl (replay (fun acc h => (st.shouldSkipOld acc h).2)
      (onStrategy env)) acc).changed = true := by
  induction visits generalizing acc with
  | nil => exact h
  | cons v visits ih =>
    cases v with
    | header h' => exact ih _ h
    | strategy s =>
      refine ih _ ?_
      change (acc.changed || _) = true
      rw [h, Bool.true_or]

end replay

theorem Passes.changes {s : StrategySnapshot} (hs : st.Passes s)
    (outcome : StrategySnapshotApplyOutcome) :
    (st.applyServerSnapshot env s outcome).1 = true := by
  change ((st.upsertSnapshot env s).1 || (st.editResult env s).isSome) = true
  rcases hs.cases with hnew | hedit
  · rcases upsertSnapshot_cases env st s with ⟨entry, hentry, hge, -⟩ | ⟨-, hup⟩
    · rw [hnew entry hentry] at hge
      cases hge
    · rw [hup]
      rfl
  · rw [editResult_isSome_iff.mpr hedit, Bool.or_true]

theorem replay_changed (visits : List Visit) (acc : InPlace) (hacc : acc.state = st)
    (hpass : ∀ s ∈ visits.filterMap Visit.strategy?, st.Passes s)
    (hne : visits.filterMap Visit.strategy? ≠ []) :
    (visits.foldl (replay (fun acc h => (st.shouldSkipOld acc h).2)
      (onStrategy env)) acc).changed = true := by
  induction visits generalizing acc with
  | nil => exact absurd rfl hne
  | cons v visits ih =>
    cases v with
    | header h => exact ih _ hacc hpass hne
    | strategy s =>
      refine replay_changed_of_changed env st visits _ ?_
      change (acc.changed || (acc.state.applyServerSnapshot env s acc.outcome).1) = true
      rw [hacc, (hpass s mem_cons_self).changes, Bool.or_true]

/-! ## What the strategies of a payload leave -/

theorem upsertSnapshot_frame (env : StrategyEnv) (st : StratsState) (s : StrategySnapshot) :
    (st.upsertSnapshot env s).2.schema = st.schema ∧
      (st.upsertSnapshot env s).2.schemaFieldTypes = st.schemaFieldTypes ∧
      (st.upsertSnapshot env s).2.localFolders = st.localFolders ∧
      (st.upsertSnapshot env s).2.localSnapshots = st.localSnapshots := by
  rcases upsertSnapshot_cases env st s with ⟨-, -, -, h⟩ | ⟨-, h⟩
  · rw [h]
    exact ⟨rfl, rfl, rfl, rfl⟩
  · rw [h, store_eq]
    exact ⟨rfl, rfl, rfl, rfl⟩

theorem applied_frame (env : StrategyEnv) (st : StratsState) (s : StrategySnapshot) :
    (st.applied env s).schema = st.schema ∧
      (st.applied env s).schemaFieldTypes = st.schemaFieldTypes ∧
      (st.applied env s).localFolders = st.localFolders := by
  obtain ⟨hschema, htypes, hfolders, -⟩ := upsertSnapshot_frame env st s
  obtain ⟨_, _, _, h⟩ := settleLocal_shape (st.upsertSnapshot env s).2 s (st.editResult env s)
  unfold applied
  rw [h]
  exact ⟨hschema, htypes, hfolders⟩

theorem foldl_applied_frame (env : StrategyEnv) (ss : List StrategySnapshot) (st : StratsState) :
    (ss.foldl (applied env) st).schema = st.schema ∧
      (ss.foldl (applied env) st).schemaFieldTypes = st.schemaFieldTypes ∧
      (ss.foldl (applied env) st).localFolders = st.localFolders := by
  induction ss generalizing st with
  | nil => exact ⟨rfl, rfl, rfl⟩
  | cons s ss ih =>
    obtain ⟨hschema, htypes, hfolders⟩ := applied_frame env st s
    obtain ⟨hschema', htypes', hfolders'⟩ := ih (st.applied env s)
    exact ⟨hschema'.trans hschema, htypes'.trans htypes, hfolders'.trans hfolders⟩

theorem setLocalSnapshotFromServer_isSome (st : StratsState) (s : StrategySnapshot) (force : Bool) :
    (st.setLocalSnapshotFromServer s force).localSnapshots.isSome = st.localSnapshots.isSome := by
  unfold setLocalSnapshotFromServer
  cases hloc : st.localSnapshots with
  | none => exact congrArg Option.isSome hloc
  | some loc =>
    dsimp only
    split
    · split
      · rfl
      · exact congrArg Option.isSome hloc
    · rfl

theorem applied_isSome (env : StrategyEnv) (st : StratsState) (s : StrategySnapshot) :
    (st.applied env s).localSnapshots.isSome = st.localSnapshots.isSome := by
  have hframe := congrArg Option.isSome (upsertSnapshot_frame env st s).2.2.2
  rw [← hframe]
  unfold applied settleLocal
  cases st.editResult env s with
  | some kind => exact setLocalSnapshotFromServer_isSome _ s true
  | none =>
    dsimp only
    split
    · rfl
    · exact setLocalSnapshotFromServer_isSome _ s false

theorem foldl_applied_isSome (env : StrategyEnv) (ss : List StrategySnapshot) (st : StratsState) :
    (ss.foldl (applied env) st).localSnapshots.isSome = st.localSnapshots.isSome := by
  induction ss generalizing st with
  | nil => rfl
  | cons s ss ih => exact (ih _).trans (applied_isSome env st s)

variable {ss : List StrategySnapshot}

theorem foldl_applied_lookup_of_not_mem (env : StrategyEnv)
    {id : UInt64} (hid : id ∉ ss.map StrategySnapshot.strategyId) (st : StratsState) :
    (ss.foldl (applied env) st).snapshotsById.lookup id = st.snapshotsById.lookup id := by
  induction ss generalizing st with
  | nil => rfl
  | cons s ss ih =>
    rw [map_cons, mem_cons, not_or] at hid
    refine (ih hid.2 _).trans ?_
    rw [(applied_entries ..).2]
    rcases upsertSnapshot_cases env st s with ⟨-, -, -, h⟩ | ⟨-, h⟩
    · rw [h]
    · rw [h, store_eq]
      exact lookup_insert_ne hid.1

theorem foldl_applied_stored (env : StrategyEnv)
    (hnodup : (ss.map StrategySnapshot.strategyId).Nodup) (st : StratsState)
    (hnew : ∀ s ∈ ss, ∀ e, st.byId.lookup s.strategyId = some e →
      e.isNewerOrEqual s.lastDate s.strategyVer = false) :
    ∀ s ∈ ss, (ss.foldl (applied env) st).snapshotsById.lookup s.strategyId = some s := by
  induction ss generalizing st with
  | nil => exact fun s hs => absurd hs not_mem_nil
  | cons t ss ih =>
    obtain ⟨hfresh, hnodup⟩ := List.nodup_cons.mp hnodup
    intro s hs
    rcases List.mem_cons.mp hs with rfl | hs
    · refine (foldl_applied_lookup_of_not_mem env hfresh _).trans ?_
      rw [(applied_entries ..).2]
      rcases upsertSnapshot_cases env st s with ⟨entry, hentry, hge, -⟩ | ⟨-, h⟩
      · rw [hnew s mem_cons_self entry hentry] at hge
        cases hge
      · rw [h, store_eq]
        exact lookup_insert st.snapshotsById
    · refine ih hnodup _ (fun u hu e he => ?_) s hs
      have hne : u.strategyId ≠ t.strategyId := fun heq =>
        hfresh (heq ▸ List.mem_map_of_mem hu)
      rw [(applied_lookup_of_ne env st t hne).1] at he
      exact hnew u (mem_cons_of_mem _ hu) e he

/-- The snapshots in the order of a list whose strategies are all stored. -/
theorem filterMap_lookup_of_stored {snapshots : StratMap StrategySnapshot}
    (h : ∀ s ∈ ss, snapshots.lookup s.strategyId = some s) :
    (ss.map StrategySnapshot.strategyId).filterMap snapshots.lookup = ss := by
  induction ss with
  | nil => rfl
  | cons s ss ih =>
    rw [map_cons, filterMap_cons, h s mem_cons_self]
    exact congrArg (List.cons s) (ih fun t ht => h t (mem_cons_of_mem _ ht))

end StratsState

end MoonProto
