import MoonProto.Lib.Run
import MoonProto.State.StratsApply

/-!
# The cached payload of the strategy state

The payload that the client sends to the core is kept once it is built, and bytes of the core
are kept in its place if they say the same. Every operation drops the cached payload or leaves
what it depends on: the schema, the outgoing list and the outgoing folders. The received bytes
are kept only if no strategy in them was passed over. Then every strategy was stored, because
without a local list no edit is pending, and the order of the ids, which is compared last,
shows that the retained snapshots are the strategies of the payload.
-/

namespace MoonProto

open List AList Option StrategyBatchBuilder

open PathTree (Within)

namespace StratsState

variable {env : StrategyEnv} {st : StratsState}

/-! ## A payload that is up to date -/

/-- The builder with a list of strategies and some folders. -/
def builderOf (env : StrategyEnv) (schema : StrategySchema) (strategies : List StrategySnapshot)
    (paths : List Text) : StrategyBatchBuilder :=
  paths.foldl (fun b path => { b with pathDict := (b.pathDict.index path).2 })
    (ofList env schema strategies)

/-- The strategies that were read are the outgoing ones; those of a payload that was built from
them only stand for them. -/
def SameStrategies (env : StrategyEnv) (st : StratsState) (data : Bytes)
    (read : List StrategySnapshot) : Prop :=
  read = st.outgoing ∨ ∃ schema paths, st.schema = some schema ∧
    data = (builderOf env schema st.outgoing paths).finalize env ∧
    Forall₂ (StrategySnapshot.ReadsBack env schema) st.outgoing read

/-- A payload says what the state would send now: with the schema of the state it is decoded to
the outgoing list, its date is the latest one, and the folders of its paths are the outgoing
folders with those of the listed strategies. -/
def Current (env : StrategyEnv) (st : StratsState) (cache : StrategySnapshotPayloadCache) : Prop :=
  ∃ batch, parseStrategyBatch env st.schemaFieldTypes cache.data = some batch ∧
    SameStrategies env st cache.data batch.strategies ∧
    cache.clientMaxLastDate = maxLastDate st.outgoing ∧
    ∀ k, k ∈ addFolderPaths env ∅ batch.paths ↔
      k ∈ st.outgoingFolders ∨ ∃ s ∈ st.outgoing, k ∈ (addFolderPath env ∅ s.path).2

/-- The schema is the same. -/
structure SameSchema (st st' : StratsState) : Prop where
  schema : st'.schema = st.schema
  types : st'.schemaFieldTypes = st.schemaFieldTypes

/-- What is sent is the same. -/
structure SameOutgoing (st st' : StratsState) : Prop where
  strategies : st'.outgoing = st.outgoing
  folders : ∀ k, k ∈ st'.outgoingFolders ↔ k ∈ st.outgoingFolders

/-- A step that drops the cached payload or changes nothing that it depends on. -/
structure Keeps (st st' : StratsState) : Prop where
  sameSchema : SameSchema st st'
  cache : st'.snapshotPayloadCache = none ∨
    (st'.snapshotPayloadCache = st.snapshotPayloadCache ∧ SameOutgoing st st')

theorem SameSchema.refl (st : StratsState) : SameSchema st st := ⟨rfl, rfl⟩

variable {a b c st' : StratsState} {data : Bytes}

theorem SameSchema.trans (hab : SameSchema a b) (hbc : SameSchema b c) : SameSchema a c :=
  ⟨hbc.schema.trans hab.schema, hbc.types.trans hab.types⟩

theorem SameOutgoing.refl (st : StratsState) : SameOutgoing st st := ⟨rfl, fun _ => Iff.rfl⟩

theorem SameOutgoing.trans (hab : SameOutgoing a b) (hbc : SameOutgoing b c) : SameOutgoing a c :=
  ⟨hbc.strategies.trans hab.strategies, fun k => (hbc.folders k).trans (hab.folders k)⟩

theorem Keeps.refl (st : StratsState) : Keeps st st :=
  ⟨SameSchema.refl st, .inr ⟨rfl, SameOutgoing.refl st⟩⟩

theorem Keeps.drop (hschema : SameSchema st st')
    (hcache : st'.snapshotPayloadCache = none) : Keeps st st' := ⟨hschema, .inl hcache⟩

theorem Keeps.trans (hab : Keeps a b) (hbc : Keeps b c) : Keeps a c := by
  refine ⟨hab.sameSchema.trans hbc.sameSchema, ?_⟩
  rcases hbc.cache with hnone | ⟨hcache, hsame⟩
  · exact .inl hnone
  · rcases hab.cache with hnone | ⟨hcache', hsame'⟩
    · exact .inl (hcache.trans hnone)
    · exact .inr ⟨hcache.trans hcache', hsame'.trans hsame⟩

theorem Current.congr {cache : StrategySnapshotPayloadCache}
    (h : Current env st cache) (hschema : SameSchema st st') (hsame : SameOutgoing st st') :
    Current env st' cache := by
  obtain ⟨batch, hparse, hstrategies, hdate, hfolders⟩ := h
  refine ⟨batch, ?_, ?_, ?_, fun k => ?_⟩
  · rw [hschema.types]
    exact hparse
  · unfold SameStrategies
    rw [hsame.strategies, hschema.schema]
    exact hstrategies
  · rw [hsame.strategies]
    exact hdate
  · rw [hsame.strategies, hsame.folders]
    exact hfolders k

/-- A cached payload that is up to date, and field types that are those of the schema. -/
structure Fresh (env : StrategyEnv) (st : StratsState) : Prop where
  types : st.schemaFieldTypes = st.schema.map StrategySchema.fieldTypes
  current : ∀ cache, st.snapshotPayloadCache = some cache → Current env st cache

theorem Fresh.keeps (h : Fresh env st) (hkeeps : Keeps st st') : Fresh env st' := by
  refine ⟨?_, fun cache hcache => ?_⟩
  · rw [hkeeps.sameSchema.types, hkeeps.sameSchema.schema]
    exact h.types
  · rcases hkeeps.cache with hnone | ⟨hsame, hout⟩
    · rw [hnone] at hcache
      cases hcache
    · rw [hsame] at hcache
      exact (h.current cache hcache).congr hkeeps.sameSchema hout

/-! ## Operations that drop the payload or leave it -/

/-- A step of the folders drops the payload if it changes them. -/
theorem createFoldersForPath_keeps (env : StrategyEnv) (st : StratsState) (path : Text) :
    Keeps st (st.createFoldersForPath env path) := by
  unfold createFoldersForPath
  dsimp only
  split
  · exact Keeps.drop ⟨rfl, rfl⟩ rfl
  · exact Keeps.refl st

theorem Keeps.cache_none (h : Keeps st st')
    (hnone : st.snapshotPayloadCache = none) : st'.snapshotPayloadCache = none := by
  rcases h.cache with h | ⟨h, -⟩
  · exact h
  · exact h.trans hnone

theorem replaceWithSnapshots_drops (env : StrategyEnv) (st : StratsState)
    (ss : List StrategySnapshot) :
    SameSchema st (st.replaceWithSnapshots env ss) ∧
      (st.replaceWithSnapshots env ss).snapshotPayloadCache = none := by
  unfold replaceWithSnapshots
  have h : SameSchema st st.clearEntries ∧ st.clearEntries.snapshotPayloadCache = none :=
    ⟨⟨rfl, rfl⟩, rfl⟩
  generalize st.clearEntries = st₀ at h ⊢
  induction ss generalizing st₀ with
  | nil => exact h
  | cons s ss ih =>
    refine ih _ ⟨h.1.trans ?_, rfl⟩
    unfold insertSnapshotUnchecked
    rw [store_eq]
    exact ⟨rfl, rfl⟩

theorem replaceFromCore_keeps (env : StrategyEnv) (st : StratsState) (snap : StratSnapshot) :
    Keeps st (st.replaceFromCore env snap).1 := by
  unfold replaceFromCore
  cases parseStrategyBatch env st.schemaFieldTypes snap.data with
  | none => exact Keeps.refl st
  | some batch =>
    have hfold : ∀ (paths : List Text) (st₀ : StratsState),
        Keeps st₀ (paths.foldl (createFoldersForPath env) st₀) := by
      intro paths
      induction paths with
      | nil => exact Keeps.refl
      | cons path paths ih =>
        exact fun st₀ => (createFoldersForPath_keeps env st₀ path).trans (ih _)
    obtain ⟨hschema, hnone⟩ := replaceWithSnapshots_drops env st batch.strategies
    have hpaths := hfold batch.paths (st.replaceWithSnapshots env batch.strategies)
    have hall := hschema.trans hpaths.sameSchema
    exact Keeps.drop ⟨hall.schema, hall.types⟩ (hpaths.cache_none hnone)

theorem applyServerOrder_keeps (st : StratsState) (order : List UInt64) (date : UInt64)
    (updateLocal : Bool) : Keeps st (st.applyServerOrder order date updateLocal) := by
  unfold applyServerOrder
  split
  · exact Keeps.refl st
  dsimp only
  split
  · exact Keeps.drop ⟨rfl, rfl⟩ rfl
  · exact Keeps.drop ⟨rfl, rfl⟩ rfl

theorem applyServerFolders_keeps (laws : env.Lowercases) (st : StratsState) {paths : List Text}
    (hrel : ∀ p ∈ paths, Relative p) (date : Int) :
    Keeps st (st.applyServerFolders env paths date) := by
  rcases applyServerFolders_cases laws st hrel date with heq | ⟨folders, -, heq⟩
  · rw [heq]
    exact Keeps.refl st
  · rw [heq]
    exact Keeps.drop ⟨rfl, rfl⟩ rfl

theorem removeLocalSnapshot_sameSchema (st : StratsState) (id : UInt64) :
    SameSchema st (st.removeLocalSnapshot id) := by
  unfold removeLocalSnapshot
  dsimp only
  split
  · exact ⟨rfl, rfl⟩
  split
  · exact ⟨rfl, rfl⟩
  · exact ⟨rfl, rfl⟩

theorem removeStrategyById_keeps (st : StratsState) (id : UInt64) :
    Keeps st (st.removeStrategyById id).2 := by
  unfold removeStrategyById
  split
  · have hschema := removeLocalSnapshot_sameSchema { st with
      byId := st.byId.erase id
      order := st.order.filter (· ≠ id)
      snapshotsById := st.snapshotsById.erase id } id
    exact Keeps.drop ⟨hschema.schema, hschema.types⟩ rfl
  · exact Keeps.refl st

theorem deleteFolderByPath_keeps (env : StrategyEnv) (st : StratsState) (path : Text) :
    Keeps st (st.deleteFolderByPath env path).2 := by
  rcases deleteFolderByPath_cases env st path with heq | ⟨-, heq⟩
  · rw [heq]
    exact Keeps.refl st
  · rw [heq]
    exact Keeps.drop ⟨rfl, rfl⟩ rfl

theorem applyDelete_keeps (env : StrategyEnv) (st : StratsState) (id : UInt64)
    (folderPath : Text) : Keeps st (st.applyDelete env id folderPath).2 :=
  applyDelete_induction (Keeps.refl st) (removeStrategyById_keeps st id) fun st' h =>
    h.trans (deleteFolderByPath_keeps env st' folderPath)

theorem stageLocalFolders_keeps (env : StrategyEnv) (st : StratsState)
    (paths : Option (List Text)) (nowMs : Int) :
    Keeps st (st.stageLocalFolders env paths nowMs).2 := by
  rw [stageLocalFolders_eq]
  split
  · exact Keeps.refl st
  · exact Keeps.drop ⟨rfl, rfl⟩ rfl

theorem tickStrategyEditTimeouts_keeps (st : StratsState) (now : Int) :
    Keeps st (st.tickStrategyEditTimeouts now).2 := by
  unfold tickStrategyEditTimeouts
  split
  · exact Keeps.refl st
  · exact ⟨⟨rfl, rfl⟩, .inr ⟨rfl, rfl, fun _ => Iff.rfl⟩⟩

theorem rehash_keeps (st : StratsState) (byId : StratMap StrategyInfo) (folders : FolderMap)
    (edits : StratMap StrategyEdit) (staged : FolderMap) :
    Keeps st (st.rehash byId folders edits staged) := by
  unfold rehash
  split
  · next hperm =>
    refine ⟨⟨rfl, rfl⟩, .inr ⟨rfl, rfl, fun k => ?_⟩⟩
    unfold outgoingFolders
    dsimp only
    cases hstaged : st.localFolders with
    | none => exact mem_of_perm hperm.2.1
    | some p => exact mem_of_perm (hperm.2.2.2 p hstaged)
  · exact Keeps.refl st

/-! ## Checked flags -/

theorem setSnapshotChecked_cases (st : StratsState) (id : UInt64) (checked : Bool) :
    SameSchema st (st.setSnapshotChecked id checked).2 ∧
      ((st.setSnapshotChecked id checked).1 = false →
        (st.setSnapshotChecked id checked).2 = st) := by
  unfold setSnapshotChecked
  split
  · split
    · exact ⟨SameSchema.refl st, fun _ => rfl⟩
    · exact ⟨⟨rfl, rfl⟩, nofun⟩
  · exact ⟨SameSchema.refl st, fun _ => rfl⟩

theorem setLocalSnapshotChecked_cases (st : StratsState) (id : UInt64) (checked : Bool) :
    SameSchema st (st.setLocalSnapshotChecked id checked).2 ∧
      ((st.setLocalSnapshotChecked id checked).1 = false →
        (st.setLocalSnapshotChecked id checked).2 = st) := by
  unfold setLocalSnapshotChecked
  split
  · split
    · split
      · exact ⟨SameSchema.refl st, fun _ => rfl⟩
      · exact ⟨⟨rfl, rfl⟩, nofun⟩
    · exact ⟨⟨rfl, rfl⟩, nofun⟩
  · exact ⟨SameSchema.refl st, fun _ => rfl⟩

theorem updateEntry_keeps (st : StratsState) (byId : StratMap StrategyInfo) :
    Keeps st { st with byId } := ⟨⟨rfl, rfl⟩, .inr ⟨rfl, rfl, fun _ => Iff.rfl⟩⟩

/-- One item: if it changes no flag of a snapshot, only an entry has changed. -/
theorem applyCheckedItem_cases (acc : Bool × StratsState) (item : UInt64 × Bool) :
    SameSchema acc.2 (applyCheckedItem acc item).2 ∧ ((applyCheckedItem acc item).1 = false →
        acc.1 = false ∧ Keeps acc.2 (applyCheckedItem acc item).2) := by
  have hentry : ∃ st, Keeps acc.2 st ∧
      applyCheckedItem acc item =
        (acc.1 || (st.setSnapshotChecked item.1 item.2).1 ||
            ((st.setSnapshotChecked item.1 item.2).2.setLocalSnapshotChecked item.1 item.2).1,
          ((st.setSnapshotChecked item.1 item.2).2.setLocalSnapshotChecked item.1 item.2).2) := by
    unfold applyCheckedItem
    cases acc.2.byId.lookup item.1 with
    | none => exact ⟨acc.2, Keeps.refl acc.2, rfl⟩
    | some entry =>
      exact ⟨_, updateEntry_keeps acc.2 (acc.2.byId.insert item.1
        { entry with checked := item.2, prevChecked := item.2 }), rfl⟩
  obtain ⟨st, hkeeps, heq⟩ := hentry
  rw [heq]
  obtain ⟨hschema, hretained⟩ := setSnapshotChecked_cases st item.1 item.2
  obtain ⟨hschema', hlisted⟩ := setLocalSnapshotChecked_cases
    (st.setSnapshotChecked item.1 item.2).2 item.1 item.2
  refine ⟨(hkeeps.sameSchema.trans hschema).trans hschema', fun h => ?_⟩
  rw [Bool.or_eq_false_iff, Bool.or_eq_false_iff] at h
  refine ⟨h.1.1, ?_⟩
  rw [hlisted h.2, hretained h.1.2]
  exact hkeeps

theorem foldl_applyCheckedItem_cases (items : List (UInt64 × Bool)) (acc : Bool × StratsState) :
    SameSchema acc.2 (items.foldl applyCheckedItem acc).2 ∧
      ((items.foldl applyCheckedItem acc).1 = false →
        acc.1 = false ∧ Keeps acc.2 (items.foldl applyCheckedItem acc).2) := by
  induction items generalizing acc with
  | nil => exact ⟨SameSchema.refl acc.2, fun h => ⟨h, Keeps.refl acc.2⟩⟩
  | cons item items ih =>
    obtain ⟨hschema, hitem⟩ := applyCheckedItem_cases acc item
    obtain ⟨hschema', hitems⟩ := ih (applyCheckedItem acc item)
    refine ⟨hschema.trans hschema', fun h => ?_⟩
    obtain ⟨hflag, hkeeps'⟩ := hitems h
    obtain ⟨hacc, hkeeps⟩ := hitem hflag
    exact ⟨hacc, hkeeps.trans hkeeps'⟩

theorem applyCheckedSync_keeps (st : StratsState) (items : List (UInt64 × Bool)) :
    Keeps st (st.applyCheckedSync items) := by
  obtain ⟨hschema, hkeeps⟩ := foldl_applyCheckedItem_cases items (false, st)
  unfold applyCheckedSync
  dsimp only
  split
  · exact Keeps.drop ⟨hschema.schema, hschema.types⟩ rfl
  · next hflag => exact (hkeeps (Bool.eq_false_iff.mpr hflag)).2

theorem applyCheckedEcho_keeps (st : StratsState) (items : List (UInt64 × Bool)) :
    Keeps st (st.applyCheckedEcho items) := by
  unfold applyCheckedEcho
  induction items generalizing st with
  | nil => exact Keeps.refl st
  | cons item items ih =>
    refine Keeps.trans ?_ (ih _)
    unfold applyEchoItem
    split
    · split
      · exact updateEntry_keeps st _
      · exact Keeps.refl st
    · exact Keeps.refl st

theorem setChecked_keeps (st : StratsState) (id : UInt64) (checked : Bool) :
    Keeps st (st.setChecked id checked).2 := by
  have hlisted : ∀ st' : StratsState, Keeps st' (if (st'.setLocalSnapshotChecked id checked).1
      then (st'.setLocalSnapshotChecked id checked).2.invalidate
      else (st'.setLocalSnapshotChecked id checked).2) := by
    intro st'
    obtain ⟨hschema, hsame⟩ := setLocalSnapshotChecked_cases st' id checked
    split
    · exact Keeps.drop ⟨hschema.schema, hschema.types⟩ rfl
    next hnot =>
    rw [hsame (Bool.eq_false_iff.mpr hnot)]
    exact Keeps.refl st'
  unfold setChecked
  cases st.byId.lookup id with
  | none => exact Keeps.refl st
  | some entry =>
    refine Keeps.trans ?_ (hlisted _)
    split
    · have hschema := (setSnapshotChecked_cases
        { st with byId := st.byId.insert id { entry with checked } } id checked).1
      exact Keeps.drop ⟨hschema.schema, hschema.types⟩ rfl
    · exact updateEntry_keeps st _

/-! ## Bytes of the core -/

/-- What becomes of the cache after an apply: it is dropped, or nothing has changed, or the
received bytes are kept because nothing was passed over and the folders are the same. -/
theorem updateCacheAfterApply_cases (env : StrategyEnv) (st : StratsState) (count : Nat)
    (paths : List Text) (date : UInt64) (data : Bytes) (changed skippedOld : Bool) :
    (st.updateCacheAfterApply env count paths date data changed skippedOld).snapshotPayloadCache
        = none ∨
    (changed = false ∧ st.updateCacheAfterApply env count paths date data changed skippedOld = st) ∨
    (st.localSnapshots = none ∧ st.localFolders = none ∧ skippedOld = false ∧
      sameFolders st.foldersByKey (addFolderPaths env ∅ paths) = true ∧
      st.updateCacheAfterApply env count paths date data changed skippedOld =
        { st with snapshotPayloadCache := some ⟨date, data⟩ }) := by
  have hchanged : (if changed = true then st.invalidate else st).snapshotPayloadCache = none ∨
      (changed = false ∧ (if changed = true then st.invalidate else st) = st) := by
    cases changed with
    | true => exact .inl rfl
    | false => exact .inr ⟨rfl, rfl⟩
  unfold updateCacheAfterApply
  split
  · exact hchanged.imp_right .inl
  next hlocal =>
  split
  · exact hchanged.imp_right .inl
  next hskipped =>
  split
  · split
    · next hfolders =>
      rw [Bool.or_eq_true, not_or] at hlocal
      exact .inr (.inr ⟨not_isSome_iff_eq_none.mp hlocal.1,
        not_isSome_iff_eq_none.mp hlocal.2, Bool.eq_false_iff.mpr hskipped, hfolders,
        rfl⟩)
    · exact .inl rfl
  · exact hchanged.imp_right .inl

/-- Without a local list every strategy that is handed over is newer than its entry. -/
theorem newer_of_passes (h : Invariant env st) (hlocal : st.localSnapshots = none)
    {s : StrategySnapshot} (hs : st.Passes s) :
    ∀ e, st.byId.lookup s.strategyId = some e →
      e.isNewerOrEqual s.lastDate s.strategyVer = false := by
  rcases hs.cases with hnew | ⟨edit, hedit, -⟩
  · exact hnew
  · have hlisted := h.listed.listed s.strategyId
      (lookup_isSome.mp (by rw [hedit]; rfl))
    rw [hlocal] at hlisted
    cases hlisted

theorem maxLastDate_eq (ss : List StrategySnapshot) :
    maxLastDate ss = (ss.map StrategySnapshot.lastDate).foldl max 0 := by
  unfold maxLastDate
  rw [foldl_map]

/-- The headers that the reader comes to. -/
def headers (env : StrategyEnv) (st : StratsState) (data : Bytes) : List StrategyHeader :=
  (scanBatch env st.skips st.schemaFieldTypes data).1.filterMap Visit.header?

theorem inPlaceAfter_of_unchanged (h : (st.inPlaceAfter env data).changed = false) :
    (st.inPlaceAfter env data).state = st := by
  rw [inPlaceAfter_state]
  cases hdelivered : st.delivered env data with
  | nil => rfl
  | cons s ss =>
    have hchanged : (st.inPlaceAfter env data).changed = true :=
      replay_changed _ { state := st } rfl (fun t ht => passes_of_delivered ht)
        (show st.delivered env data ≠ [] by rw [hdelivered]; exact cons_ne_nil s ss)
    rw [h] at hchanged
    cases hchanged

/-- The order of the state shows that no id comes twice, so that each strategy was stored. -/
theorem outgoing_of_received (h : Invariant env st)
    (hlocal : (st.inPlaceAfter env data).state.localSnapshots = none)
    (horder : (st.delivered env data).map StrategySnapshot.strategyId =
      (st.inPlaceAfter env data).state.order)
    (hnodup : (st.inPlaceAfter env data).state.order.Nodup) :
    (st.inPlaceAfter env data).state.outgoing = st.delivered env data := by
  have hbefore : st.localSnapshots = none := by
    have hsome := foldl_applied_isSome env (st.delivered env data) st
    rw [← inPlaceAfter_state, hlocal] at hsome
    exact isSome_eq_false_iff.mp hsome.symm |> isNone_iff_eq_none.mp
  rw [← horder] at hnodup
  unfold outgoing snapshots
  rw [hlocal, ← horder, inPlaceAfter_state]
  exact filterMap_lookup_of_stored (foldl_applied_stored env hnodup st fun s hs =>
    newer_of_passes h hbefore (passes_of_delivered hs))

/-- Received bytes that are kept say what the state would send. -/
theorem current_of_received (laws : env.Lowercases) (h : Invariant env st)
    (hrel : ∀ p ∈ payloadPaths env data, Relative p) {count : Nat} {dict : List Text}
    (hend : (scanBatch env st.skips st.schemaFieldTypes data).2 = some (count, dict))
    (hlocal : (st.inPlaceAfter env data).state.localSnapshots = none)
    (hstaged : (st.inPlaceAfter env data).state.localFolders = none)
    (hskipped : (st.inPlaceAfter env data).skippedOld = false)
    (hfolders : sameFolders (st.inPlaceAfter env data).state.foldersByKey
      (addFolderPaths env ∅ dict) = true)
    (horder : (st.inPlaceAfter env data).order = (st.inPlaceAfter env data).state.order) :
    Current env (st.inPlaceAfter env data).state
      ⟨(st.inPlaceAfter env data).clientMaxLastDate, data⟩ := by
  have hpost : Invariant env (st.inPlaceAfter env data).state := by
    rw [inPlaceAfter_state]
    exact h.foldl_applied laws fun s hs => relative_of_scanned hrel hs
  replace hskipped : (st.headers env data).any st.skips = false :=
    (replay_skippedOld env st _ _).symm.trans hskipped
  rw [List.any_eq_false] at hskipped
  obtain ⟨⟨batch, hparse, rfl, hstrategies⟩, hheaders⟩ := scanBatch_whole hend fun hd hhd =>
    Bool.eq_false_iff.mpr (hskipped hd (mem_filterMap.mpr ⟨_, hhd, rfl⟩))
  change (st.headers env data).map _ = (st.delivered env data).map _ at hheaders
  change batch.strategies = st.delivered env data at hstrategies
  have hids : (st.headers env data).map StrategyHeader.strategyId =
      (st.delivered env data).map StrategySnapshot.strategyId := by
    have := congrArg (List.map Prod.fst) hheaders
    rwa [List.map_map, List.map_map] at this
  have hdates : (st.headers env data).map StrategyHeader.lastDate =
      (st.delivered env data).map StrategySnapshot.lastDate := by
    have := congrArg (List.map Prod.snd) hheaders
    rwa [List.map_map, List.map_map] at this
  replace horder := hids.symm.trans ((replay_order env st _ _).symm.trans horder)
  have houtgoing := outgoing_of_received h hlocal horder hpost.ids.nodup
  obtain ⟨hpaths, -⟩ := parseStrategyBatch_eq_scanBatch hparse
  refine ⟨batch, ?_, .inl (hstrategies.trans houtgoing.symm), ?_, fun k => ?_⟩
  · rw [inPlaceAfter_state, (foldl_applied_frame env _ st).2.1]
    exact hparse
  · rw [houtgoing, maxLastDate_eq, ← hdates, foldl_map]
    exact replay_clientMaxLastDate env st _ _
  · have hset : k ∈ addFolderPaths env ∅ batch.paths ↔
        k ∈ (st.inPlaceAfter env data).state.outgoingFolders := by
      unfold outgoingFolders
      rw [hstaged]
      exact (sameFolders_iff hfolders k).symm
    refine ⟨fun hk => .inl (hset.mp hk), ?_⟩
    rintro (hk | ⟨s, hs, hk⟩)
    · exact hset.mpr hk
    · -- The path of a strategy is one of the dictionary.
      rw [houtgoing] at hs
      have hsrel : Relative s.path := relative_of_scanned hrel hs
      rw [FolderTree.empty.mem_addFolderPath laws hsrel] at hk
      rcases hk with hk | ⟨hne, hk⟩
      · exact absurd hk (notMem_empty k)
      · rw [FolderTree.empty.mem_addFolderPaths laws (by rw [hpaths]; exact hrel)]
        refine .inr ⟨s.path, ?_, hne, hk⟩
        obtain ⟨hd, fields, rfl, -, hpath | hpath⟩ := scanBatch_strategy hs
        · rw [hpaths]
          exact hpath
        · exact absurd hpath hne

/-- **A snapshot of the core**: the payload is dropped, left as it was or replaced by the received
bytes, and it is up to date. -/
theorem Fresh.snapshot (hfresh : Fresh env st) (laws : env.Lowercases) (h : Invariant env st)
    (hrel : ∀ p ∈ payloadPaths env data, Relative p)
    (hok : (st.applySnapshotInPlace env data).2 ≠ none) :
    Fresh env (st.applySnapshotInPlace env data).1 := by
  refine ⟨?_, ?_⟩
  · obtain ⟨cache, heq⟩ := applySnapshotInPlace_eq env st data
    obtain ⟨hschema, htypes, -⟩ := foldl_applied_frame env (st.delivered env data) st
    rw [heq]
    exact htypes.trans (hfresh.types.trans (congrArg (Option.map _) hschema.symm))
  · unfold applySnapshotInPlace at hok ⊢
    rw [parseForEach_inPlace] at hok ⊢
    dsimp only at hok ⊢
    cases hend : (scanBatch env st.skips st.schemaFieldTypes data).2 with
    | none =>
      rw [hend] at hok
      exact absurd rfl hok
    | some p =>
      intro cache hcache
      dsimp only at hcache ⊢
      rcases updateCacheAfterApply_cases env (st.inPlaceAfter env data).state p.1 p.2
        (st.inPlaceAfter env data).clientMaxLastDate data (st.inPlaceAfter env data).changed
        (st.inPlaceAfter env data).skippedOld with
        hnone | ⟨hchanged, heq⟩ | ⟨hlocal, hstaged, hskipped, hfolders, heq⟩
      · split at hcache
        · cases hcache
        · rw [hnone] at hcache
          cases hcache
      · rw [heq, inPlaceAfter_of_unchanged hchanged] at hcache ⊢
        split at hcache
        · cases hcache
        next horder =>
        rw [if_neg horder]
        exact hfresh.current cache hcache
      · rw [heq] at hcache ⊢
        split at hcache
        · cases hcache
        next horder =>
        rw [if_neg horder]
        obtain rfl := some_inj.mp hcache
        have hcurrent := current_of_received laws h hrel hend hlocal hstaged hskipped hfolders
          (not_not.mp horder)
        exact hcurrent.congr ⟨rfl, rfl⟩ ⟨rfl, fun _ => Iff.rfl⟩

/-! ## A payload that is built -/

/-- The builder with the outgoing list and the outgoing folders. -/
def outgoingBuilder (env : StrategyEnv) (st : StratsState) (schema : StrategySchema) :
    StrategyBatchBuilder := builderOf env schema st.outgoing st.outgoingFolderPaths

/-- What is sent is within the limits of the format: the schema can be numbered, the strategies
and the folder paths can be written, and the batch can be inflated. -/
structure Buildable (env : StrategyEnv) (st : StratsState) : Prop where
  strategies : ∀ s ∈ st.outgoing, s.Writable
  folders : ∀ p ∈ st.outgoingFolderPaths, DictText p
  count : st.outgoing.length ≤ 65535
  batch : st.outgoing ≠ [] → ∀ schema, st.schema = some schema →
    schema.WellFormed ∧ (st.outgoingBuilder env schema).Fits
  empty : st.outgoing = [] → st.outgoingFolderPaths.length ≤ 65535 ∧
    (plainStrategyBatch [] st.outgoingFolderPaths [] 0).length ≤
      StrategyEnv.maxInflateOutputSize

theorem mem_outgoingFolderPaths {p : Text} :
    p ∈ st.outgoingFolderPaths ↔ ∃ k, st.outgoingFolders.lookup k = some p := by
  unfold outgoingFolderPaths
  rw [mem_insertionSort, List.mem_map]
  constructor
  · rintro ⟨e, he, rfl⟩
    exact ⟨e.1, mem_lookup_iff.mpr he⟩
  · rintro ⟨k, hk⟩
    exact ⟨⟨k, p⟩, mem_lookup_iff.mp hk, rfl⟩

/-- The folder paths stand for the folders. -/
theorem Core.mem_outgoingFolders_iff (h : Core env st) {k : Text} : k ∈ st.outgoingFolders ↔
      ∃ p ∈ st.outgoingFolderPaths, p ≠ [] ∧ Within 0x2F k (folderKey env p) := by
  have htree := h.outgoingFolders_tree
  constructor
  · intro hk
    obtain ⟨p, hp⟩ := isSome_iff_exists.mp (lookup_isSome.mpr hk)
    refine ⟨p, mem_outgoingFolderPaths.mpr ⟨k, hp⟩, (htree.relative k p hp).2, ?_⟩
    rw [htree.key k p hp]
    exact Within.refl k
  · rintro ⟨p, hp, -, hwithin⟩
    obtain ⟨key, hkey⟩ := mem_outgoingFolderPaths.mp hp
    rw [htree.key key p hkey] at hwithin
    exact htree.closed key (lookup_isSome.mp (by rw [hkey]; rfl)) k hwithin

/-- The folders of a dictionary that holds the folder paths and the paths of the strategies. -/
theorem Core.folders_of_dict (h : Core env st) (laws : env.Lowercases) {dict : List Text}
    (hdict : ∀ u, u ∈ dict ↔ (∃ s ∈ st.outgoing, s.path = u) ∨ u ∈ st.outgoingFolderPaths)
    (k : Text) :
    k ∈ StratsState.addFolderPaths env ∅ dict ↔ k ∈ st.outgoingFolders ∨
        ∃ s ∈ st.outgoing, k ∈ (StratsState.addFolderPath env ∅ s.path).2 := by
  have hrel : ∀ u ∈ dict, Relative u := by
    intro u hu
    rcases (hdict u).mp hu with ⟨s, hs, rfl⟩ | hu
    · exact h.outgoing_relative hs
    · obtain ⟨key, hkey⟩ := mem_outgoingFolderPaths.mp hu
      exact (h.outgoingFolders_tree.relative key u hkey).1
  rw [FolderTree.empty.mem_addFolderPaths laws hrel, h.mem_outgoingFolders_iff]
  constructor
  · rintro (hk | ⟨u, hu, hne, hk⟩)
    · exact absurd hk (notMem_empty k)
    · rcases (hdict u).mp hu with ⟨s, hs, rfl⟩ | hu
      · exact .inr ⟨s, hs, (FolderTree.empty.mem_addFolderPath laws (h.outgoing_relative hs) k).mpr
            (.inr ⟨hne, hk⟩)⟩
      · exact .inl ⟨u, hu, hne, hk⟩
  · rintro (⟨u, hu, hne, hk⟩ | ⟨s, hs, hk⟩)
    · exact .inr ⟨u, (hdict u).mpr (.inr hu), hne, hk⟩
    · rw [FolderTree.empty.mem_addFolderPath laws (h.outgoing_relative hs)] at hk
      rcases hk with hk | ⟨hne, hk⟩
      · exact absurd hk (notMem_empty k)
      · exact .inr ⟨s.path, (hdict s.path).mpr (.inl ⟨s, hs, rfl⟩), hne, hk⟩

theorem Core.outgoing_eq_nil_iff (h : Core env st) :
    st.localSnapshots.elim st.snapshotsById.keys.length List.length = 0 ↔ st.outgoing = [] := by
  unfold outgoing
  cases st.localSnapshots with
  | some loc => exact length_eq_zero_iff
  | none =>
    dsimp only [Option.elim, Option.getD]
    rw [length_eq_zero_iff, eq_nil_iff_forall_not_mem, eq_nil_iff_forall_not_mem]
    constructor
    · intro hnone s hs
      obtain ⟨id, -, hid⟩ := mem_filterMap.mp hs
      exact hnone id (lookup_isSome.mp (by rw [hid]; rfl))
    · intro hnone id hid
      obtain ⟨s, hs⟩ := isSome_iff_exists.mp (lookup_isSome.mpr hid)
      exact hnone s (mem_filterMap.mpr ⟨id, (h.ids.mem_order id).mpr (h.ids.known id s hs), hs⟩)

/-- **A payload that is built** says what the state sends. -/
theorem Fresh.payload (hfresh : Fresh env st) (laws : env.Lowercases)
    (hinflate : ∀ p, env.inflate (env.deflate p) = some p) (h : Invariant env st)
    (hbuild : st.snapshotPayloadCache = none → st.outgoing = [] ∨ st.schema ≠ none →
      Buildable env st) : Fresh env (st.payload env).2 := by
  unfold StratsState.payload
  cases hcache : st.snapshotPayloadCache with
  | some cache => exact hfresh
  | none =>
    dsimp only
    split
    · next hlen =>
      have hnil := h.toCore.outgoing_eq_nil_iff.mp hlen
      have hlimits := hbuild hcache (.inl hnil)
      obtain ⟨hcount, hsize⟩ := hlimits.empty hnil
      refine ⟨hfresh.types, fun cache heq => ?_⟩
      obtain rfl := some_inj.mp heq
      have hcurrent : Current env st
          ⟨0, folderPayload env st.outgoingFolderPaths⟩ := by
        refine ⟨_, parse_folderPayload hinflate hlimits.folders hcount hsize _,
          .inl hnil.symm, ?_, fun k => h.toCore.folders_of_dict laws (fun u => ?_) k⟩
        · rw [hnil]
          rfl
        · rw [hnil]
          simp
      exact hcurrent.congr ⟨rfl, rfl⟩ ⟨rfl, fun _ => Iff.rfl⟩
    · next hlen =>
      have hne : st.outgoing ≠ [] := fun hnil => hlen (h.toCore.outgoing_eq_nil_iff.mpr hnil)
      split
      · exact hfresh
      next schema hschema =>
      have hlimits := hbuild hcache (.inr (by simp [hschema]))
      obtain ⟨hwell, hfits⟩ := hlimits.batch hne schema hschema
      refine ⟨hfresh.types, fun cache heq => ?_⟩
      obtain rfl := some_inj.mp heq
      have hwrote := StrategyBatchBuilder.Wrote.addPaths st.outgoingFolderPaths
        ((wrote_new env schema).writeAll st.outgoing)
      have hparse := parse_finalize hinflate hwell hlimits.strategies
        hlimits.folders hwrote hlimits.count hfits.names hfits.paths hfits.size
      have htypes : some schema.fieldTypes = st.schemaFieldTypes := by
        rw [hfresh.types, hschema]
        rfl
      rw [htypes] at hparse
      have hcurrent : Current env st
          ⟨maxLastDate st.outgoing, (st.outgoingBuilder env schema).finalize env⟩ := by
        refine ⟨_, hparse, .inr ⟨schema, _, hschema, rfl, ?_⟩, rfl, fun k =>
          h.toCore.folders_of_dict laws (hwrote.mem_paths hfits.paths) k⟩
        rw [List.forall₂_map_right_iff, List.forall₂_same]
        exact fun s hs => readsBack_parsed hwell (hlimits.strategies s hs)
      exact hcurrent.congr ⟨rfl, rfl⟩ ⟨rfl, fun _ => Iff.rfl⟩

/-! ## Runs -/

/-- The steps of a run for which the cached payload is followed: no folder path begins with a
slash, snapshots can be decoded, and whenever a payload is built, it is within the limits of
the format and no strategy has a field name twice. -/
def Orderly (env : StrategyEnv) (st : StratsState) (input : Input) : Prop :=
  (∀ p ∈ input.paths env, Relative p) ∧
    match input with
    | .snapshot data => (st.applySnapshotInPlace env data).2 ≠ none
    | .payload => st.snapshotPayloadCache = none → st.outgoing = [] ∨ st.schema ≠ none →
      Buildable env st
    | _ => True

theorem Fresh.step (hfresh : Fresh env st) (laws : env.Lowercases)
    (hinflate : ∀ p, env.inflate (env.deflate p) = some p) (h : Invariant env st)
    {input : Input} (horderly : Orderly env st input) : Fresh env (st.step env input) := by
  obtain ⟨hrel, hok⟩ := horderly
  cases input with
  | snapshot data => exact hfresh.snapshot laws h hrel hok
  | payload => exact hfresh.payload laws hinflate h hok
  | replaceFromCore snap => exact hfresh.keeps (replaceFromCore_keeps env st snap)
  | replaceWith strategies =>
    obtain ⟨hschema, hnone⟩ := replaceWithSnapshots_drops env st strategies
    exact hfresh.keeps (Keeps.drop hschema hnone)
  | serverOrder order date updateLocal =>
    exact hfresh.keeps (applyServerOrder_keeps st order date updateLocal)
  | serverFolders paths date => exact hfresh.keeps (applyServerFolders_keeps laws st hrel date)
  | delete strategyId folderPath =>
    exact hfresh.keeps (applyDelete_keeps env st strategyId folderPath)
  | checkedSync items => exact hfresh.keeps (applyCheckedSync_keeps st items)
  | checkedEcho items => exact hfresh.keeps (applyCheckedEcho_keeps st items)
  | stageLocal strategies submittedAt deadline =>
    exact hfresh.keeps (Keeps.drop ⟨rfl, rfl⟩ rfl)
  | stageFolders paths nowMs => exact hfresh.keeps (stageLocalFolders_keeps env st paths nowMs)
  | setChecked strategyId checked => exact hfresh.keeps (setChecked_keeps st strategyId checked)
  | tick now => exact hfresh.keeps (tickStrategyEditTimeouts_keeps st now)
  | schema parsed =>
    -- A new schema drops the payload and brings its own field types.
    cases parsed with
    | none => exact hfresh
    | some schema => exact ⟨rfl, fun cache hcache => (nomatch hcache)⟩
  | rehash byId folders edits staged =>
    exact hfresh.keeps (rehash_keeps st byId folders edits staged)

/-- **The cached payload is never stale.** In every run of orderly steps, a payload that is cached
is decoded, with the schema of the state, to the list that the state would send now: the local
list if there is one, else the retained snapshots in their order. -/
theorem cached_payload_current (env : StrategyEnv) (laws : env.Lowercases)
    (hinflate : ∀ p, env.inflate (env.deflate p) = some p) (inputs : List Input)
    (hrun : Run.Along (fun st input => some (st.step env input)) (Orderly env) {} inputs) :
    ∀ cache, (after env inputs).snapshotPayloadCache = some cache →
      Current env (after env inputs) cache := by
  have hstart : Invariant env {} ∧ Fresh env {} :=
    ⟨Invariant.empty, rfl, fun cache hcache => (nomatch hcache)⟩
  have hend := Run.run_invariant
    (fun st input st' (h : Invariant env st ∧ Fresh env st) horderly heq => by
      obtain rfl := some_inj.mp heq
      exact ⟨h.1.step laws horderly.1, h.2.step laws hinflate h.1 horderly⟩)
    hstart hrun (Run.run_some (StratsState.step env) {} inputs)
  exact hend.2.current

end StratsState

namespace StrategySample

/-- The strategies of the core, an edit of the first one, and the payload with both. -/
def staged : List StratsState.Input :=
  [.schema (some schema),
    .snapshot ((ofList env schema [first, second]).finalize env),
    .stageLocal [{ first with strategyVer := 2 }, second] 5 20, .payload]

theorem staged_buildable : StratsState.Buildable env (StratsState.after env (staged.take 3)) := by
  have hout : (StratsState.after env (staged.take 3)).outgoing =
      [{ first with strategyVer := 2 }, second] := by decide +kernel
  have hfolders : (StratsState.after env (staged.take 3)).outgoingFolderPaths =
      [[0x61], [0x62]] := by decide +kernel
  have hschema : (StratsState.after env (staged.take 3)).schema = some schema := rfl
  refine ⟨?_, ?_, ?_, ?_, ?_⟩
  · rw [hout]
    intro s hs
    simp only [mem_cons, not_mem_nil, or_false] at hs
    rcases hs with rfl | rfl
    · exact ⟨first_writable.path, first_writable.names, first_writable.values⟩
    · exact second_writable
  · rw [hfolders]
    intro p hp
    simp only [mem_cons, not_mem_nil, or_false] at hp
    rcases hp with rfl | rfl
    · exact ⟨by decide, rfl⟩
    · exact ⟨by decide, rfl⟩
  · rw [hout]
    decide
  · intro _ other hother
    obtain rfl := some_inj.mp (hschema.symm.trans hother)
    refine ⟨schema_wellFormed, ?_⟩
    unfold StratsState.outgoingBuilder
    rw [hout, hfolders]
    exact ⟨by decide +kernel, by decide +kernel, by decide +kernel⟩
  · intro hnil
    rw [hout] at hnil
    cases hnil

theorem cached_payload_current_staged :
    ∃ cache, (StratsState.after env staged).snapshotPayloadCache = some cache ∧
      StratsState.Current env (StratsState.after env staged) cache := by
  have hsome : (StratsState.after env staged).snapshotPayloadCache.isSome = true := by
    decide +kernel
  obtain ⟨cache, hcache⟩ := isSome_iff_exists.mp hsome
  refine ⟨cache, hcache, StratsState.cached_payload_current env env_lowercases (fun _ => rfl)
    staged ?_ cache hcache⟩
  refine ⟨⟨by decide, trivial⟩, fun st₁ h₁ => ?_⟩
  obtain rfl := some_inj.mp h₁
  refine ⟨⟨by decide +kernel, by decide +kernel⟩, fun st₂ h₂ => ?_⟩
  obtain rfl := some_inj.mp h₂
  refine ⟨⟨by decide +kernel, trivial⟩, fun st₃ h₃ => ?_⟩
  obtain rfl := some_inj.mp h₃
  exact ⟨⟨by decide, fun _ _ => staged_buildable⟩, fun _ _ => trivial⟩

/-- A schema in which the number has no default. -/
def looseSchema : StrategySchema where
  fields := [⟨[0x4E], tidInt32, none, [1, 2], 6⟩]

/-- A strategy of the core with the number `N` twice: the default 7, which is what counts, and
5. -/
def twiceNamed : List StratsState.Input :=
  [.schema (some schema), .snapshot ((ofList env looseSchema
      [⟨10, 1, 100, true, 1, [0x61], [([0x4E], .int32 7), ([0x4E], .int32 5)]⟩]).finalize env),
    .checkedSync [(10, false)], .payload]

/-- The value that counts is left out as the default, and the other one is read. -/
theorem cached_payload_twice_named :
    ((StratsState.after env twiceNamed).outgoing.map fun s => s.fields.get [0x4E]) =
        [some (.int32 7)] ∧
      ((StratsState.after env twiceNamed).snapshotPayloadCache.bind fun cache =>
        (parseStrategyBatch env (some schema.fieldTypes) cache.data).map fun batch =>
          batch.strategies.map fun s => s.fields.get [0x4E]) = some [some (.int32 5)] := by
  decide +kernel

end StrategySample

end MoonProto
