import MoonProto.Commands.StrategyRoundTrip
import MoonProto.Commands.StrategyStreaming
import MoonProto.State.Strats

/-!
# Strategy snapshots that cannot be decoded

`replace_from_core` decodes a payload before it touches the state, so a payload that cannot be
decoded changes nothing. The in-place apply hands each strategy to the state while the reader
is still running. What the reader has handed over before it fails stays applied, and it cannot
be undone by what follows: a strategy that passes the rollback guard changes its entry or
settles an edit, and neither comes back.
-/

namespace MoonProto

open Codec List Option AList Bool

/-! ## What the reader passes to its callbacks -/

section replay

variable {σ : Type} (env : StrategyEnv) (old : StrategyHeader → Bool)
  (note : σ → StrategyHeader → σ) (on : σ → StrategySnapshot → σ)

/-- The calls for a whole payload, and what the reader returns. -/
def scanBatch (types : Option FieldTypes) (deflateBytes : Bytes) :
    List Visit × Option (Nat × List Text) :=
  match env.readInflateToVec deflateBytes with
  | none => ([], none)
  | some data =>
    match readDict data with
    | none => ([], none)
    | some (names, data) =>
      match readDict data with
      | none => ([], none)
      | some (paths, data) =>
        match Cursor.u16 data with
        | none => ([], none)
        | some (count, data) =>
          let out := scan old names paths (types.map (buildReaderFields names)) count.toNat data
          (out.1, out.2.map fun _ => (count.toNat, paths))

theorem parseForEach_eq_scanBatch (types : Option FieldTypes) (deflateBytes : Bytes) (s : σ) :
    parseForEach env (fun s h => (old h, note s h)) on types deflateBytes s =
      ((scanBatch env old types deflateBytes).1.foldl (replay note on) s,
        (scanBatch env old types deflateBytes).2) := by
  unfold parseForEach scanBatch parseForEachPlain
  cases env.readInflateToVec deflateBytes with
  | none => rfl
  | some data =>
    dsimp only
    cases readDict data with
    | none => rfl
    | some p =>
      dsimp only
      cases readDict p.2 with
      | none => rfl
      | some q =>
        dsimp only
        cases Cursor.u16 q.2 with
        | none => rfl
        | some r =>
          dsimp only
          rw [forEachStrategy_eq_scan]

end replay

variable {data : Bytes}

theorem readStrategyHeader_path {paths : List Text} {rest : Bytes} {h : StrategyHeader}
    (hread : readStrategyHeader paths data = some (h, rest)) : h.path ∈ paths ∨ h.path = [] := by
  unfold readStrategyHeader at hread
  simp only [bind_eq_bind, bind_eq_some_iff] at hread
  obtain ⟨_, _, _, _, _, _, _, _, _, _, pathId, _, hread⟩ := hread
  obtain rfl := (Prod.mk.inj (some_inj.mp hread)).1
  rw [getD_eq_getElem?_getD]
  cases hpath : paths[pathId.1.toNat]? with
  | none => exact .inr rfl
  | some path => exact .inl (mem_of_getElem? hpath)

theorem scan_strategy {old : StrategyHeader → Bool} {names paths : List Text}
    {readerFields : Option (List (Option UInt8))} : ∀ {n : Nat} {data : Bytes}
    {s : StrategySnapshot}, .strategy s ∈ (scan old names paths readerFields n data).1 →
    ∃ h fields, s = StrategyHeader.withFields h fields ∧ old h = false ∧
      (h.path ∈ paths ∨ h.path = [])
  | 0, _, s, hs => absurd hs not_mem_nil
  | n + 1, data, s, hs => by
    unfold scan at hs
    cases hheader : readStrategyHeader paths data with
    | none =>
      rw [hheader] at hs
      cases hs
    | some p =>
      obtain ⟨header, rest⟩ := p
      rw [hheader] at hs
      dsimp only at hs
      cases hcount : Cursor.u16 rest with
      | none =>
        rw [hcount] at hs
        cases hs
      | some q =>
        obtain ⟨fieldCount, rest⟩ := q
        rw [hcount] at hs
        dsimp only at hs
        by_cases hold : old header = true
        · rw [if_pos hold] at hs
          cases hskip : skipStrategyFields fieldCount.toNat rest with
          | none =>
            rw [hskip] at hs
            simp at hs
          | some rest =>
            rw [hskip] at hs
            rcases mem_cons.mp hs with hs | hs
            · cases hs
            · exact scan_strategy hs
        · rw [if_neg hold] at hs
          cases hread : readStrategyFields names readerFields fieldCount.toNat rest with
          | none =>
            rw [hread] at hs
            simp at hs
          | some q =>
            rw [hread] at hs
            rcases mem_cons.mp hs with hs | hs
            · cases hs
            · rcases mem_cons.mp hs with hs | hs
              · obtain rfl := Visit.strategy.inj hs
                exact ⟨header, q.1, rfl, eq_false_iff.mpr hold,
                  readStrategyHeader_path hheader⟩
              · exact scan_strategy hs

/-- The paths of a payload. -/
def payloadPaths (env : StrategyEnv) (data : Bytes) : List Text :=
  match env.readInflateToVec data with
  | none => []
  | some data =>
    match readDict data with
    | none => []
    | some (_, data) => (readDict data).elim [] Prod.fst

theorem scanBatch_strategy {env : StrategyEnv} {old : StrategyHeader → Bool}
    {types : Option FieldTypes} {s : StrategySnapshot}
    (hs : s ∈ (scanBatch env old types data).1.filterMap Visit.strategy?) :
    ∃ h fields, s = StrategyHeader.withFields h fields ∧ old h = false ∧
      (h.path ∈ payloadPaths env data ∨ h.path = []) := by
  replace hs : .strategy s ∈ (scanBatch env old types data).1 := by
    obtain ⟨v, hv, hvs⟩ := mem_filterMap.mp hs
    cases v with
    | header h => cases hvs
    | strategy t =>
      obtain rfl := some_inj.mp hvs
      exact hv
  unfold scanBatch at hs
  unfold payloadPaths
  cases hdata : env.readInflateToVec data with
  | none =>
    rw [hdata] at hs
    cases hs
  | some data =>
    rw [hdata] at hs
    dsimp only at hs ⊢
    cases hnames : readDict data with
    | none =>
      rw [hnames] at hs
      cases hs
    | some p =>
      rw [hnames] at hs
      dsimp only at hs ⊢
      cases hpaths : readDict p.2 with
      | none =>
        rw [hpaths] at hs
        cases hs
      | some q =>
        rw [hpaths] at hs
        dsimp only at hs ⊢
        cases hcount : Cursor.u16 q.2 with
        | none =>
          rw [hcount] at hs
          cases hs
        | some r =>
          rw [hcount] at hs
          exact scan_strategy hs

/-- The reader of a whole batch hands over what the streaming reader does when it skips
nothing. -/
theorem readStrategies_eq_scan (names paths : List Text)
    (readerFields : Option (List (Option UInt8))) : ∀ (n : Nat) (data : Bytes),
    readStrategies names paths readerFields n data =
      (scan (fun _ => false) names paths readerFields n data).2.map fun _ =>
        (scan (fun _ => false) names paths readerFields n data).1.filterMap Visit.strategy?
  | 0, _ => rfl
  | n + 1, data => by
    unfold readStrategies scan
    cases readStrategyHeader paths data with
    | none => rfl
    | some p =>
      obtain ⟨header, rest⟩ := p
      dsimp only [bind_eq_bind, bind_some]
      cases Cursor.u16 rest with
      | none => rfl
      | some q =>
        obtain ⟨fieldCount, rest⟩ := q
        dsimp only [bind_some]
        rw [if_neg Bool.false_ne_true]
        cases readStrategyFields names readerFields fieldCount.toNat rest with
        | none => rfl
        | some q =>
          dsimp only [bind_some]
          rw [readStrategies_eq_scan names paths readerFields n q.2]
          cases (scan (fun _ => false) names paths readerFields n q.2).2 with
          | none => rfl
          | some u => rfl

theorem parseStrategyBatch_eq_scanBatch {env : StrategyEnv} {types : Option FieldTypes}
    {batch : StrategyBatch} (h : parseStrategyBatch env types data = some batch) :
    batch.paths = payloadPaths env data ∧ batch.strategies =
        (scanBatch env (fun _ => false) types data).1.filterMap Visit.strategy? := by
  unfold parseStrategyBatch parseStrategyBatchPlain at h
  simp only [bind_eq_bind, bind_eq_some_iff] at h
  obtain ⟨plain, hplain, p, hp, q, hq, r, hr, ss, hss, h⟩ := h
  obtain rfl := some_inj.mp h
  unfold payloadPaths scanBatch
  rw [hplain]
  dsimp only
  rw [hp]
  dsimp only
  rw [hq]
  dsimp only
  rw [hr]
  refine ⟨rfl, ?_⟩
  rw [readStrategies_eq_scan, map_eq_some_iff] at hss
  obtain ⟨-, -, rfl⟩ := hss
  rfl

theorem StrategyInfo.isNewerOrEqual_self (e : StrategyInfo) :
    e.isNewerOrEqual e.lastDate e.strategyVer = true := by
  unfold StrategyInfo.isNewerOrEqual
  simp

namespace StratsState

/-! ## One strategy of the core -/

section frame

variable (env : StrategyEnv) (st : StratsState) (s : StrategySnapshot)

theorem addFolderPath_of_not (folders : FolderMap) (path : Text)
    (h : (addFolderPath env folders path).1 = false) :
    (addFolderPath env folders path).2 = folders := by
  unfold addFolderPath at h ⊢
  split at h
  · next hold => rw [if_pos hold]
  · cases h

theorem createFoldersForPath_eq (path : Text) : st.createFoldersForPath env path = { st with
      foldersByKey := (addFolderPath env st.foldersByKey path).2
      snapshotPayloadCache :=
        if (addFolderPath env st.foldersByKey path).1 then none else st.snapshotPayloadCache } := by
  have hfolders := addFolderPath_of_not env st.foldersByKey path
  unfold createFoldersForPath
  generalize addFolderPath env st.foldersByKey path = p at hfolders ⊢
  obtain ⟨added, folders⟩ := p
  cases added with
  | true => rfl
  | false =>
    obtain rfl : folders = st.foldersByKey := hfolders rfl
    rfl

theorem store_eq : st.store env s = { st with
      byId := st.byId.insert s.strategyId (.ofSnapshot s)
      order := if s.strategyId ∈ st.byId then st.order else st.order ++ [s.strategyId]
      foldersByKey := (addFolderPath env st.foldersByKey s.path).2
      snapshotsById := st.snapshotsById.insert s.strategyId s
      snapshotPayloadCache :=
        if (addFolderPath env st.foldersByKey s.path).1 then none
        else st.snapshotPayloadCache } := by
  unfold store
  rw [createFoldersForPath_eq]
  rfl

theorem upsertSnapshot_cases : (∃ entry, st.byId.lookup s.strategyId = some entry ∧
      entry.isNewerOrEqual s.lastDate s.strategyVer ∧ st.upsertSnapshot env s = (false, st)) ∨
    ((∀ entry, st.byId.lookup s.strategyId = some entry →
      entry.isNewerOrEqual s.lastDate s.strategyVer = false) ∧
      st.upsertSnapshot env s = (true, st.store env s)) := by
  unfold upsertSnapshot
  cases hentry : st.byId.lookup s.strategyId with
  | none => exact .inr ⟨nofun, rfl⟩
  | some entry =>
    dsimp only
    by_cases hnew : entry.isNewerOrEqual s.lastDate s.strategyVer = true
    · exact .inl ⟨entry, rfl, hnew, if_pos hnew⟩
    · refine .inr ⟨?_, if_neg hnew⟩
      rintro entry' h
      obtain rfl := some_inj.mp h
      exact eq_false_iff.mpr hnew

theorem setLocalSnapshotFromServer_shape (force : Bool) :
    ∃ loc index panicked, st.setLocalSnapshotFromServer s force =
      { st with localSnapshots := loc, localSnapshotIndex := index, panicked } := by
  unfold setLocalSnapshotFromServer
  split
  · exact ⟨_, _, _, rfl⟩
  split
  · split
    · exact ⟨_, _, _, rfl⟩
    · exact ⟨_, _, _, rfl⟩
  · exact ⟨_, _, _, rfl⟩

/-- A settled edit is gone; apart from that only the local list is touched. -/
theorem settleLocal_shape (result : Option StrategyResolutionKind) :
    ∃ loc index panicked, st.settleLocal s result = { st with
        strategyEdits :=
          if result.isSome then st.strategyEdits.erase s.strategyId else st.strategyEdits
        localSnapshots := loc
        localSnapshotIndex := index
        panicked } := by
  unfold settleLocal
  cases result with
  | some kind =>
    exact setLocalSnapshotFromServer_shape
      { st with strategyEdits := st.strategyEdits.erase s.strategyId } s true
  | none =>
    dsimp only
    split
    · exact ⟨_, _, _, rfl⟩
    · exact setLocalSnapshotFromServer_shape st s false

/-- The state after one strategy; the outcome that is passed along does not matter. -/
def applied (env : StrategyEnv) (st : StratsState) (s : StrategySnapshot) : StratsState :=
  ((st.upsertSnapshot env s).2.settleLocal s (st.editResult env s)).recomputeDeadline

theorem applied_entries : (st.applied env s).byId = (st.upsertSnapshot env s).2.byId ∧
    (st.applied env s).snapshotsById = (st.upsertSnapshot env s).2.snapshotsById := by
  obtain ⟨_, _, _, h⟩ := settleLocal_shape (st.upsertSnapshot env s).2 s (st.editResult env s)
  unfold applied
  rw [h]
  exact ⟨rfl, rfl⟩

theorem upsertSnapshot_strategyEdits :
    (st.upsertSnapshot env s).2.strategyEdits = st.strategyEdits := by
  rcases upsertSnapshot_cases env st s with ⟨-, -, -, h⟩ | ⟨-, h⟩
  · rw [h]
  · rw [h, store_eq]

theorem applied_strategyEdits : (st.applied env s).strategyEdits =
      if (st.editResult env s).isSome then st.strategyEdits.erase s.strategyId
      else st.strategyEdits := by
  obtain ⟨_, _, _, h⟩ := settleLocal_shape (st.upsertSnapshot env s).2 s (st.editResult env s)
  unfold applied
  rw [h, upsertSnapshot_strategyEdits]
  rfl

end frame

/-! ## What a handed-over strategy leaves behind -/

/-- A revision settles an edit if it is at least as new in the date and in the version. -/
theorem editResult_isSome_iff {env : StrategyEnv} {st : StratsState} {s : StrategySnapshot} :
    (st.editResult env s).isSome ↔ ∃ edit, st.strategyEdits.lookup s.strategyId = some edit ∧
      edit.desired.lastDate ≤ s.lastDate ∧ edit.desired.strategyVer ≤ s.strategyVer := by
  unfold editResult
  cases st.strategyEdits.lookup s.strategyId with
  | none => simp
  | some edit =>
    simp only [bind_some, Option.some.injEq, exists_eq_left']
    by_cases hsame : sameRevision s edit.desired = true
    · rw [if_pos hsame]
      unfold sameRevision at hsame
      simp only [and_eq_true, beq_iff_eq] at hsame
      simp [hsame.1, hsame.2]
    · rw [if_neg hsame]
      simp [revisionStrictlyDominates, revisionDominates, hsame]

theorem resolvesPending_iff {st : StratsState} {h : StrategyHeader} :
    st.resolvesPending h = true ↔ ∃ edit, st.strategyEdits.lookup h.strategyId = some edit ∧
      edit.desired.lastDate ≤ h.lastDate ∧ edit.desired.strategyVer ≤ h.strategyVer := by
  unfold resolvesPending
  cases st.strategyEdits.lookup h.strategyId with
  | none => simp
  | some edit =>
    simp only [any_some, Option.some.injEq, exists_eq_left', or_eq_true,
      and_eq_true, beq_iff_eq, decide_eq_true_eq]
    constructor
    · rintro (⟨hd, hv⟩ | ⟨h, -⟩)
      · rw [hd, hv]
        exact ⟨UInt64.le_refl _, Int32.le_refl _⟩
      · exact h
    · rintro ⟨hd, hv⟩
      by_cases hdate : h.lastDate = edit.desired.lastDate
      · by_cases hver : h.strategyVer = edit.desired.strategyVer
        · exact .inl ⟨hdate, hver⟩
        · exact .inr ⟨⟨hd, hv⟩, .inr (Int32.lt_of_le_of_ne hv (Ne.symm hver))⟩
      · exact .inr ⟨⟨hd, hv⟩, .inl (UInt64.lt_of_le_of_ne hd (Ne.symm hdate))⟩

/-- A strategy that the state does not pass over. -/
def Passes (st : StratsState) (s : StrategySnapshot) : Prop :=
  ∃ h fields, s = StrategyHeader.withFields h fields ∧ st.skips h = false

theorem Passes.cases {st : StratsState} {s : StrategySnapshot} (hs : st.Passes s) :
    (∀ e, st.byId.lookup s.strategyId = some e →
      e.isNewerOrEqual s.lastDate s.strategyVer = false) ∨
    ∃ edit, st.strategyEdits.lookup s.strategyId = some edit ∧
      edit.desired.lastDate ≤ s.lastDate ∧ edit.desired.strategyVer ≤ s.strategyVer := by
  obtain ⟨h, fields, rfl, hskip⟩ := hs
  unfold skips at hskip
  rw [Bool.and_eq_false_iff] at hskip
  rcases hskip with hold | hpending
  · refine .inl fun e he => ?_
    unfold oldOrEqual at hold
    rw [show st.byId.lookup h.strategyId = some e from he] at hold
    exact hold
  · refine .inr (resolvesPending_iff (h := h) |>.mp ?_)
    simpa using hpending

/-- What cannot be undone while strategies are handed over: the edit of an id is settled, or
its entry has another revision than at the start. -/
def Touched (st : StratsState) (id : UInt64) (st' : StratsState) : Prop :=
  (st.strategyEdits.lookup id ≠ none ∧ st'.strategyEdits.lookup id = none) ∨
  (st'.strategyEdits.lookup id = st.strategyEdits.lookup id ∧
    ∃ e, st'.byId.lookup id = some e ∧ ∀ e₀, st.byId.lookup id = some e₀ →
      ¬(e.lastDate = e₀.lastDate ∧ e.strategyVer = e₀.strategyVer))

variable {id : UInt64}

theorem Touched.ne {st st' : StratsState} (h : Touched st id st') : st' ≠ st := by
  rintro rfl
  rcases h with ⟨hsome, hnone⟩ | ⟨-, e, he, hne⟩
  · exact hsome hnone
  · exact hne e he ⟨rfl, rfl⟩

/-- A strategy of the id is handed over while the edit is as it was. -/
theorem touched_of_passes (env : StrategyEnv) {st st' : StratsState} {s : StrategySnapshot}
    (hs : st.Passes s)
    (hedits : st'.strategyEdits.lookup s.strategyId = st.strategyEdits.lookup s.strategyId)
    (hbyId : st'.byId.lookup s.strategyId = st.byId.lookup s.strategyId ∨
      Touched st s.strategyId st') :
    Touched st s.strategyId (st'.applied env s) := by
  cases hresult : (st'.editResult env s).isSome with
  | true =>
    -- The edit is settled now.
    obtain ⟨edit, hedit, -⟩ := editResult_isSome_iff.mp hresult
    refine .inl ⟨?_, ?_⟩
    · rw [← hedits, hedit]
      exact some_ne_none edit
    · rw [applied_strategyEdits, if_pos hresult]
      exact lookup_erase s.strategyId st'.strategyEdits
  | false =>
    have hnew : ∀ e, st.byId.lookup s.strategyId = some e →
        e.isNewerOrEqual s.lastDate s.strategyVer = false := by
      rcases hs.cases with h | ⟨edit, hedit, hle⟩
      · exact h
      · have : (st'.editResult env s).isSome :=
          editResult_isSome_iff.mpr ⟨edit, hedits.trans hedit, hle⟩
        rw [hresult] at this
        cases this
    have hkept : (st'.applied env s).strategyEdits.lookup s.strategyId =
        st.strategyEdits.lookup s.strategyId := by
      rw [applied_strategyEdits, hresult]
      exact hedits
    rcases upsertSnapshot_cases env st' s with ⟨entry, hentry, hge, hup⟩ | ⟨-, hup⟩
    · rcases hbyId with hsame | htouched | ⟨-, e, he, hne⟩
      · rw [hnew entry (hsame.symm.trans hentry)] at hge
        cases hge
      · exact absurd (hedits.symm.trans htouched.2) htouched.1
      · refine .inr ⟨hkept, e, ?_, hne⟩
        rw [(applied_entries ..).1, hup]
        exact he
    · refine .inr ⟨hkept, .ofSnapshot s, ?_, ?_⟩
      · rw [(applied_entries ..).1, hup, store_eq]
        exact lookup_insert st'.byId
      · rintro e₀ he₀ ⟨hdate, hver⟩
        have hold := hnew e₀ he₀
        rw [show s.lastDate = e₀.lastDate from hdate, show s.strategyVer = e₀.strategyVer from hver,
          StrategyInfo.isNewerOrEqual_self] at hold
        cases hold

theorem applied_lookup_of_ne (env : StrategyEnv) (st : StratsState) (s : StrategySnapshot)
    (h : id ≠ s.strategyId) :
    (st.applied env s).byId.lookup id = st.byId.lookup id ∧
      (st.applied env s).strategyEdits.lookup id = st.strategyEdits.lookup id := by
  constructor
  · rw [(applied_entries ..).1]
    rcases upsertSnapshot_cases env st s with ⟨-, -, -, hup⟩ | ⟨-, hup⟩
    · rw [hup]
    · rw [hup, store_eq]
      exact lookup_insert_ne h
  · rw [applied_strategyEdits]
    split
    · exact lookup_erase_ne h
    · rfl

/-- One more strategy does not undo it. -/
theorem Touched.applied (env : StrategyEnv) {st st' : StratsState}
    (h : Touched st id st') {s : StrategySnapshot} (hs : st.Passes s) :
    Touched st id (st'.applied env s) := by
  by_cases hid : id = s.strategyId
  · subst hid
    rcases h with ⟨hsome, hnone⟩ | ⟨hedits, hentry⟩
    · refine .inl ⟨hsome, ?_⟩
      rw [applied_strategyEdits]
      split
      · exact lookup_erase s.strategyId st'.strategyEdits
      · exact hnone
    · exact touched_of_passes env hs hedits (.inr (.inr ⟨hedits, hentry⟩))
  · obtain ⟨hbyId, hedits⟩ := applied_lookup_of_ne env st' s hid
    unfold Touched
    rw [hbyId, hedits]
    exact h

/-- **What was handed over stays**: after one or more strategies that the state does not pass
over, the state is another one. -/
theorem foldl_applied_ne (env : StrategyEnv) (st : StratsState) {s : StrategySnapshot}
    {ss : List StrategySnapshot} (h : ∀ t ∈ s :: ss, st.Passes t) :
    (s :: ss).foldl (applied env) st ≠ st := by
  have hrun : ∀ (ss : List StrategySnapshot) (st' : StratsState), (∀ t ∈ ss, st.Passes t) →
      Touched st s.strategyId st' → Touched st s.strategyId (ss.foldl (applied env) st') := by
    intro ss
    induction ss with
    | nil => exact fun _ _ h => h
    | cons t ss ih =>
      intro st' hts htouched
      exact ih _ (fun u hu => hts u (mem_cons_of_mem _ hu))
        (htouched.applied env (hts t mem_cons_self))
  exact (hrun ss _ (fun t ht => h t (mem_cons_of_mem _ ht))
    (touched_of_passes env (h s mem_cons_self) rfl (.inl rfl))).ne

/-! ## A failed apply -/

/-- The strategies of a payload that are handed to the state: those that stand complete in
front of the place where the reader ends or fails, and that the state before the call does not
pass over as old. -/
def delivered (env : StrategyEnv) (st : StratsState) (data : Bytes) : List StrategySnapshot :=
  (scanBatch env st.skips st.schemaFieldTypes data).1.filterMap Visit.strategy?

theorem passes_of_delivered {env : StrategyEnv} {st : StratsState} {data : Bytes}
    {s : StrategySnapshot} (hs : s ∈ st.delivered env data) : st.Passes s := by
  obtain ⟨h, fields, hs, hskip, -⟩ := scanBatch_strategy hs
  exact ⟨h, fields, hs, hskip⟩

theorem replay_state (env : StrategyEnv) (st : StratsState) (visits : List Visit) (acc : InPlace) :
    (visits.foldl (replay (fun acc h => (st.shouldSkipOld acc h).2) (onStrategy env)) acc).state =
      (visits.filterMap Visit.strategy?).foldl (applied env) acc.state := by
  induction visits generalizing acc with
  | nil => rfl
  | cons v visits ih =>
    cases v with
    | header h => exact ih _
    | strategy s => exact ih _

/-- What the callbacks have done when the reader ends or fails. -/
def inPlaceAfter (env : StrategyEnv) (st : StratsState) (data : Bytes) : InPlace :=
  (scanBatch env st.skips st.schemaFieldTypes data).1.foldl
    (replay (fun acc h => (st.shouldSkipOld acc h).2) (onStrategy env)) { state := st }

theorem parseForEach_inPlace (env : StrategyEnv) (st : StratsState) (data : Bytes) :
    parseForEach env st.shouldSkipOld (onStrategy env) st.schemaFieldTypes data { state := st } =
      (st.inPlaceAfter env data, (scanBatch env st.skips st.schemaFieldTypes data).2) :=
  parseForEach_eq_scanBatch env st.skips (fun acc h => (st.shouldSkipOld acc h).2)
    (onStrategy env) st.schemaFieldTypes data { state := st }

theorem inPlaceAfter_state (env : StrategyEnv) (st : StratsState) (data : Bytes) :
    (st.inPlaceAfter env data).state = (st.delivered env data).foldl (applied env) st :=
  replay_state env st _ _

theorem applySnapshotInPlace_failed {env : StrategyEnv} {st : StratsState} {data : Bytes}
    (h : (st.applySnapshotInPlace env data).2 = none) :
    (st.applySnapshotInPlace env data).1 = (st.delivered env data).foldl (applied env) st := by
  unfold applySnapshotInPlace at h ⊢
  rw [parseForEach_inPlace] at h ⊢
  dsimp only at h ⊢
  cases hend : (scanBatch env st.skips st.schemaFieldTypes data).2 with
  | none => exact inPlaceAfter_state env st data
  | some p =>
    rw [hend] at h
    cases h

theorem updateCacheAfterApply_eq (env : StrategyEnv) (st : StratsState) (count : Nat)
    (paths : List Text) (date : UInt64) (data : Bytes) (changed skippedOld : Bool) :
    ∃ cache, st.updateCacheAfterApply env count paths date data changed skippedOld =
      { st with snapshotPayloadCache := cache } := by
  unfold updateCacheAfterApply
  repeat' split
  all_goals exact ⟨_, rfl⟩

/-- The in-place apply changes the state by the strategies it hands over, and the cache. -/
theorem applySnapshotInPlace_eq (env : StrategyEnv) (st : StratsState) (data : Bytes) :
    ∃ cache, (st.applySnapshotInPlace env data).1 =
      { (st.delivered env data).foldl (applied env) st with snapshotPayloadCache := cache } := by
  unfold applySnapshotInPlace
  rw [parseForEach_inPlace]
  dsimp only
  rw [← inPlaceAfter_state]
  cases (scanBatch env st.skips st.schemaFieldTypes data).2 with
  | none => exact ⟨_, rfl⟩
  | some p =>
    dsimp only
    obtain ⟨cache, hcache⟩ := updateCacheAfterApply_eq env (st.inPlaceAfter env data).state p.1
      p.2 (st.inPlaceAfter env data).clientMaxLastDate data (st.inPlaceAfter env data).changed
      (st.inPlaceAfter env data).skippedOld
    rw [hcache]
    split
    · exact ⟨none, rfl⟩
    · exact ⟨cache, rfl⟩

theorem replaceFromCore_failed {env : StrategyEnv} {st : StratsState} {snap : StratSnapshot}
    (h : (st.replaceFromCore env snap).2 = none) : (st.replaceFromCore env snap).1 = st := by
  unfold replaceFromCore at h ⊢
  cases hparse : parseStrategyBatch env st.schemaFieldTypes snap.data with
  | none => rfl
  | some batch =>
    rw [hparse] at h
    cases h

/-- **A payload that cannot be decoded**: `replace_from_core` leaves the state as it was. The
in-place apply does so exactly if every strategy in front of the failure is passed over, because
the state has its revision already and no edit is settled by it. -/
theorem failed_snapshot_no_effect_iff (env : StrategyEnv) (st : StratsState) :
    (∀ snap, (st.replaceFromCore env snap).2 = none → (st.replaceFromCore env snap).1 = st) ∧
    ∀ data, (st.applySnapshotInPlace env data).2 = none →
      ((st.applySnapshotInPlace env data).1 = st ↔ st.delivered env data = []) := by
  refine ⟨fun snap => replaceFromCore_failed, fun data hfail => ?_⟩
  rw [applySnapshotInPlace_failed hfail]
  cases hdel : st.delivered env data with
  | nil => exact iff_of_true rfl rfl
  | cons s ss =>
    refine iff_of_false (foldl_applied_ne env st fun t ht => ?_) (cons_ne_nil s ss)
    rw [← hdel] at ht
    exact passes_of_delivered ht

end StratsState

namespace StrategySample

/-- The payload of two strategies without its last byte. -/
def cutPayload : Bytes :=
  ((StrategyBatchBuilder.ofList env schema [first, second]).finalize env).dropLast

/-- A state with the schema and nothing else. -/
def empty : StratsState := StratsState.applySchema {} (some schema)

/-- The second strategy cannot be read, and the first one stays in the state. -/
theorem failed_snapshot_keeps_first : (empty.applySnapshotInPlace env cutPayload).2 = none ∧
      (empty.applySnapshotInPlace env cutPayload).1.byId.lookup 10 = some (.ofSnapshot first) ∧
      (empty.applySnapshotInPlace env cutPayload).1.snapshotsById.keys = [10] ∧
      (empty.applySnapshotInPlace env cutPayload).1.order = [10] ∧
      empty.byId.lookup 10 = none ∧
      (empty.replaceFromCore env ⟨1, cutPayload, 1⟩).2 = none := by
  decide +kernel

/-- A state that has the first strategy: the same payload fails without a trace. -/
theorem failed_snapshot_no_effect_known :
    ((empty.store env first).replaceFromCore env ⟨1, cutPayload, 1⟩).1 = empty.store env first ∧
      ((empty.store env first).applySnapshotInPlace env cutPayload).1 = empty.store env first :=
  ⟨(StratsState.failed_snapshot_no_effect_iff env (empty.store env first)).1 ⟨1, cutPayload, 1⟩
      (by decide +kernel),
    ((StratsState.failed_snapshot_no_effect_iff env (empty.store env first)).2 cutPayload
      (by decide +kernel)).mpr (by decide +kernel)⟩

end StrategySample

end MoonProto
