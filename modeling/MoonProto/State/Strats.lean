import Mathlib.Data.List.AList
import MoonProto.Commands.StrategySerializer

/-!
# The strategy state

`state/strats.rs` with `strats/snapshots.rs` and `strats/folders.rs`. The core owns the
strategies: `by_id` and `snapshots_by_id` hold what it has confirmed, `order` the order of its
list. The application may stage a list of its own; it is kept beside the confirmed state, with
an edit for each strategy that the core has not answered yet. Folders are a set of paths that
is compared without regard to case. The payload for the core is cached once it is built, or
taken over from the core if it is the same.

Maps are association lists; where a result depends on the order of iteration, an input may
permute them at any time. Times are numbers on one clock. A position from the local index is
used without a check in the source; here a position outside the list changes nothing.
-/

namespace MoonProto

open Codec

abbrev StratMap (α : Type) := AList fun _ : UInt64 => α

/-- The folder tree: the key of a folder is its path in lower case, the value the spelling
that was seen first. -/
abbrev FolderMap := AList fun _ : Text => Text

structure StrategyInfo where
  strategyId : UInt64
  strategyVer : Int32
  lastDate : UInt64
  sellPrice : F64
  checked : Bool
  prevChecked : Bool
  folderPath : Text
deriving DecidableEq

inductive StrategyEditStatus
  | pending
  | timedOut
deriving DecidableEq

structure StrategyEdit where
  desired : StrategySnapshot
  submittedAt : Int
  status : StrategyEditStatus
  deadline : Int
deriving DecidableEq

def StrategyEdit.new (desired : StrategySnapshot) (submittedAt deadline : Int) : StrategyEdit :=
  ⟨desired, submittedAt, .pending, deadline⟩

inductive StrategyResolutionKind
  | confirmed
  | adjusted
  | superseded
deriving DecidableEq

structure StrategyResolution where
  desired : StrategySnapshot
  actual : StrategySnapshot
  outcome : StrategyResolutionKind
deriving DecidableEq

structure StrategySnapshotPayloadCache where
  clientMaxLastDate : UInt64
  data : Bytes
deriving DecidableEq

structure StrategyEditStageOutcome where
  submitted : List UInt64 := []
  superseded : List UInt64 := []
  resolved : List StrategyResolution := []
deriving DecidableEq

structure StrategySnapshotApplyOutcome where
  count : Nat := 0
  order : List UInt64 := []
  paths : List Text := []
  confirmed : List UInt64 := []
  adjusted : List UInt64 := []
  superseded : List UInt64 := []
  resolved : List StrategyResolution := []
deriving DecidableEq

/-- Of `StratSnapshot`, what the state reads. -/
structure StratSnapshot where
  serverEpoch : UInt64
  data : Bytes
  foldersLastModified : Int
deriving DecidableEq

structure StratsState where
  byId : StratMap StrategyInfo := ∅
  order : List UInt64 := []
  lastModified : UInt64 := 0
  foldersByKey : FolderMap := ∅
  foldersLastModified : Int := 0
  localFolders : Option (Int × FolderMap) := none
  snapshotsById : StratMap StrategySnapshot := ∅
  localSnapshots : Option (List StrategySnapshot) := none
  localSnapshotIndex : StratMap Nat := ∅
  strategyEdits : StratMap StrategyEdit := ∅
  nextStrategyEditDeadline : Option Int := none
  lastServerEpoch : UInt64 := 0
  schema : Option StrategySchema := none
  schemaFieldTypes : Option FieldTypes := none
  snapshotPayloadCache : Option StrategySnapshotPayloadCache := none
  /-- A local position was out of range, where the source panics. -/
  panicked : Bool := false

/-! ## Revisions -/

/-- `same_revision`. -/
def sameRevision (left right : StrategySnapshot) : Bool :=
  left.lastDate == right.lastDate && left.strategyVer == right.strategyVer

/-- `revision_dominates`. -/
def revisionDominates (left right : StrategySnapshot) : Bool :=
  decide (right.lastDate ≤ left.lastDate) && decide (right.strategyVer ≤ left.strategyVer)

/-- `revision_strictly_dominates`. -/
def revisionStrictlyDominates (left right : StrategySnapshot) : Bool :=
  revisionDominates left right && !sameRevision left right

/-- An entry that is not older than a revision: the rollback guard. -/
def StrategyInfo.isNewerOrEqual (info : StrategyInfo) (lastDate : UInt64) (strategyVer : Int32) :
    Bool :=
  decide (lastDate ≤ info.lastDate) && decide (strategyVer ≤ info.strategyVer)

/-- `sell_price_from_snapshot`; the name is `SellPrice`. -/
def sellPriceFromSnapshot (s : StrategySnapshot) : F64 :=
  match s.fields.get [0x53, 0x65, 0x6C, 0x6C, 0x50, 0x72, 0x69, 0x63, 0x65] with
  | some (.double v) => v
  | _ => 0

/-- The entry that a snapshot leaves; none of the old values is kept. -/
def StrategyInfo.ofSnapshot (s : StrategySnapshot) : StrategyInfo where
  strategyId := s.strategyId
  strategyVer := s.strategyVer
  lastDate := s.lastDate
  sellPrice := sellPriceFromSnapshot s
  checked := s.checked
  prevChecked := s.checked
  folderPath := s.path

namespace StratsState

/-! ## Folders -/

/-- `folder_key`. -/
def folderKey (env : StrategyEnv) (path : Text) : Text := env.toLowercase path

/-- One part of a path: the folder it leads to is entered unless it is there. -/
def addPart (env : StrategyEnv) (acc : Text × FolderMap) (part : Text) : Text × FolderMap :=
  let current := if acc.1.isEmpty then part else acc.1 ++ 0x2F :: part
  let key := folderKey env current
  (current, if key ∈ acc.2 then acc.2 else acc.2.insert key current)

/-- `add_folder_path`: whether the path was new, and the folders with it and its parents. -/
def addFolderPath (env : StrategyEnv) (folders : FolderMap) (path : Text) : Bool × FolderMap :=
  if path.isEmpty || decide (folderKey env path ∈ folders) then (false, folders)
  else (true, ((path.splitOn 0x2F).foldl (addPart env) ([], folders)).2)

/-- `add_folder_path` for each path. -/
def addFolderPaths (env : StrategyEnv) (folders : FolderMap) (paths : List Text) : FolderMap :=
  paths.foldl (fun folders path => (addFolderPath env folders path).2) folders

/-- `is_same_or_child_folder`. -/
def isSameOrChildFolder (candidateKey folderKey : Text) : Bool :=
  candidateKey == folderKey || (folderKey ++ [0x2F]).isPrefixOf candidateKey

/-- `invalidate_snapshot_payload_cache`. -/
def invalidate (st : StratsState) : StratsState := { st with snapshotPayloadCache := none }

/-- `create_folders_for_path`. -/
def createFoldersForPath (env : StrategyEnv) (st : StratsState) (path : Text) : StratsState :=
  let (added, folders) := addFolderPath env st.foldersByKey path
  if added then { st with foldersByKey := folders }.invalidate else st

/-- `folder_has_strategies`. -/
def folderHasStrategies (env : StrategyEnv) (st : StratsState) (key : Text) : Bool :=
  st.byId.entries.any fun e => isSameOrChildFolder (folderKey env e.2.folderPath) key

/-- `delete_folder_by_path`. -/
def deleteFolderByPath (env : StrategyEnv) (st : StratsState) (path : Text) : Bool × StratsState :=
  let key := folderKey env path
  if path.isEmpty then (false, st)
  else if key ∉ st.foldersByKey then (false, st)
  else if st.folderHasStrategies env key then (false, st)
  else
    let deletedKeys := st.foldersByKey.keys.filter fun k => isSameOrChildFolder k key
    (true, { st with
      foldersByKey := deletedKeys.foldl (fun m k => m.erase k) st.foldersByKey }.invalidate)

/-! ## Entries and the lists -/

/-- `clear_entries`. -/
def clearEntries (st : StratsState) : StratsState :=
  { st with
    byId := ∅
    order := []
    foldersByKey := ∅
    foldersLastModified := 0
    localFolders := none
    snapshotsById := ∅
    localSnapshots := none
    localSnapshotIndex := ∅
    strategyEdits := ∅
    nextStrategyEditDeadline := none }.invalidate

/-- An entry is written; a new id is put at the end of the order. -/
def putEntry (st : StratsState) (s : StrategySnapshot) : StratsState :=
  { st with
    byId := st.byId.insert s.strategyId (.ofSnapshot s)
    order := if s.strategyId ∈ st.byId then st.order else st.order ++ [s.strategyId] }

/-- A snapshot is stored: the entry, its folders and the snapshot itself. -/
def store (env : StrategyEnv) (st : StratsState) (s : StrategySnapshot) : StratsState :=
  let st := (st.putEntry s).createFoldersForPath env s.path
  { st with snapshotsById := st.snapshotsById.insert s.strategyId s }

/-- `insert_snapshot_unchecked`. -/
def insertSnapshotUnchecked (env : StrategyEnv) (st : StratsState) (s : StrategySnapshot) :
    StratsState :=
  (st.store env s).invalidate

/-- `upsert_snapshot_arc_without_cache_invalidation`: nothing that is not newer in its date or
its version replaces an entry. -/
def upsertSnapshot (env : StrategyEnv) (st : StratsState) (s : StrategySnapshot) :
    Bool × StratsState :=
  match st.byId.lookup s.strategyId with
  | some entry =>
    if entry.isNewerOrEqual s.lastDate s.strategyVer then (false, st) else (true, st.store env s)
  | none => (true, st.store env s)

/-- `snapshots`: the retained snapshots in list order. -/
def snapshots (st : StratsState) : List StrategySnapshot :=
  st.order.filterMap st.snapshotsById.lookup

/-- `recompute_next_strategy_edit_deadline`. -/
def recomputeDeadline (st : StratsState) : StratsState :=
  { st with
    nextStrategyEditDeadline :=
      ((st.strategyEdits.entries.filter fun e => e.2.status = .pending).map fun e =>
        e.2.deadline).min? }

/-- `set_local_snapshot_from_server`. -/
def setLocalSnapshotFromServer (st : StratsState) (snapshot : StrategySnapshot) (force : Bool) :
    StratsState :=
  match st.localSnapshots with
  | none => st
  | some loc =>
    match st.localSnapshotIndex.lookup snapshot.strategyId with
    | some position =>
      if force || !(loc[position]?.any fun old => revisionDominates old snapshot) then
        { st with
          localSnapshots := some (loc.set position snapshot)
          panicked := st.panicked || decide (loc.length ≤ position) }
      else st
    | none =>
      { st with
        localSnapshotIndex := st.localSnapshotIndex.insert snapshot.strategyId loc.length
        localSnapshots := some (loc ++ [snapshot]) }

/-- `set_local_snapshot_checked`. -/
def setLocalSnapshotChecked (st : StratsState) (strategyId : UInt64) (checked : Bool) :
    Bool × StratsState :=
  match st.localSnapshotIndex.lookup strategyId, st.localSnapshots with
  | some position, some loc =>
    match loc[position]? with
    | some snapshot =>
      if snapshot.checked = checked then (false, st)
      else (true, { st with localSnapshots := some (loc.set position { snapshot with checked }) })
    | none => (true, { st with panicked := true })
  | _, _ => (false, st)

/-- The index of a list: later positions of one id overwrite earlier ones. -/
def indexFrom (index : StratMap Nat) (loc : List StrategySnapshot) : StratMap Nat :=
  loc.zipIdx.foldl (fun index p => index.insert p.1.strategyId p.2) index

/-- `remove_local_snapshot`. -/
def removeLocalSnapshot (st : StratsState) (strategyId : UInt64) : StratsState :=
  let st := { st with strategyEdits := st.strategyEdits.erase strategyId }
  match st.localSnapshotIndex.lookup strategyId with
  | none => st.recomputeDeadline
  | some position =>
    match st.localSnapshots with
    | none => st.recomputeDeadline
    | some loc =>
      { st with
        localSnapshots := some (loc.eraseIdx position)
        localSnapshotIndex := indexFrom ∅ (loc.eraseIdx position)
        panicked := st.panicked || decide (loc.length ≤ position) }.recomputeDeadline

/-- `remove_strategy_by_id`. -/
def removeStrategyById (st : StratsState) (strategyId : UInt64) : Bool × StratsState :=
  if strategyId ∈ st.byId then
    let st := { st with
      byId := st.byId.erase strategyId
      order := st.order.filter (· ≠ strategyId)
      snapshotsById := st.snapshotsById.erase strategyId }
    (true, (st.removeLocalSnapshot strategyId).invalidate)
  else (false, st)

/-! ## Comparing strategies -/

/-- `field_matches`: a field that the other side does not store is compared with its default. -/
def fieldMatches (env : StrategyEnv) (st : StratsState) (name : Text) (value : FieldValue)
    (other : StrategySnapshot) : Bool :=
  match other.fields.get name with
  | some otherValue => value.eq env otherValue
  | none =>
    match st.schema.bind fun schema => schema.field name with
    | none => false
    | some field =>
      if !field.visibleForKind other.kind then false
      else
        (field.defaultValue.or (FieldValue.zeroForTypeId field.rawTypeId)).any fun d =>
          value.eq env d

/-- `strategy_effectively_equal`. -/
def strategyEffectivelyEqual (env : StrategyEnv) (st : StratsState)
    (left right : StrategySnapshot) : Bool :=
  sameRevision left right && left.strategyId == right.strategyId &&
    left.checked == right.checked && left.kind == right.kind && left.path == right.path &&
    left.fields.all (fun f => st.fieldMatches env f.1 f.2 right) &&
    right.fields.all fun f => st.fieldMatches env f.1 f.2 left

/-! ## The local list -/

/-- The submitted list with one place for each id: the last one in the place of the first. -/
def collectLocal : List StrategySnapshot → List StrategySnapshot × StratMap Nat × Bool →
    List StrategySnapshot × StratMap Nat × Bool
  | [], acc => acc
  | s :: rest, (loc, index, panicked) =>
    match index.lookup s.strategyId with
    | some position =>
      collectLocal rest (loc.set position s, index, panicked || decide (loc.length ≤ position))
    | none => collectLocal rest (loc ++ [s], index.insert s.strategyId loc.length, panicked)

/-- What staging makes of one submitted strategy. -/
inductive StageKind
  /-- The core has confirmed the same strategy. -/
  | same
  /-- The core has a newer revision. -/
  | superseded (confirmed : StrategySnapshot)
  /-- An edit that waits for the core. -/
  | submitted

def stageKind (env : StrategyEnv) (st : StratsState) (s : StrategySnapshot) : StageKind :=
  match st.snapshotsById.lookup s.strategyId with
  | none => .submitted
  | some confirmed =>
    if st.strategyEffectivelyEqual env s confirmed then .same
    else if revisionStrictlyDominates confirmed s then .superseded confirmed
    else .submitted

/-- What stands in the local list for a submitted strategy. -/
def StageKind.listed (s : StrategySnapshot) : StageKind → StrategySnapshot
  | superseded confirmed => confirmed
  | _ => s

/-- The edits with that of one submitted strategy. -/
def stageEdit (env : StrategyEnv) (st : StratsState) (submittedAt deadline : Int)
    (edits : StratMap StrategyEdit) (s : StrategySnapshot) : StratMap StrategyEdit :=
  match st.stageKind env s with
  | .submitted => edits.insert s.strategyId (.new s submittedAt deadline)
  | _ => edits

def noteStaged (env : StrategyEnv) (st : StratsState) (outcome : StrategyEditStageOutcome)
    (s : StrategySnapshot) : StrategyEditStageOutcome :=
  match st.stageKind env s with
  | .same => outcome
  | .superseded confirmed =>
    { outcome with
      resolved := outcome.resolved ++ [⟨s, confirmed, .superseded⟩]
      superseded := outcome.superseded ++ [confirmed.strategyId] }
  | .submitted => { outcome with submitted := outcome.submitted ++ [s.strategyId] }

/-- `stage_local_snapshot_batch`. -/
def stageLocalSnapshotBatch (env : StrategyEnv) (st : StratsState)
    (strategies : List StrategySnapshot) (submittedAt deadline : Int) :
    StrategyEditStageOutcome × StratsState :=
  let (loc, index, panicked) := collectLocal strategies ([], ∅, st.panicked)
  (loc.foldl (st.noteStaged env) {}, { st with
      localSnapshots := some (loc.map fun s => (st.stageKind env s).listed s)
      localSnapshotIndex := index
      strategyEdits := loc.foldl (st.stageEdit env submittedAt deadline) ∅
      panicked }.recomputeDeadline.invalidate)

/-- `strategy_edit_timeout_due`. -/
def strategyEditTimeoutDue (st : StratsState) (now : Int) : Bool :=
  st.nextStrategyEditDeadline.any fun deadline => decide (deadline ≤ now)

/-- Whether an edit times out. -/
def editTimesOut (now : Int) (edit : StrategyEdit) : Bool :=
  edit.status = .pending && decide (edit.deadline ≤ now)

/-- The edits with those that are due marked as timed out. -/
def markTimedOut (now : Int) (edits : StratMap StrategyEdit) : StratMap StrategyEdit :=
  ⟨edits.entries.map fun e =>
      ⟨e.1, if editTimesOut now e.2 then { e.2 with status := .timedOut } else e.2⟩, by
    have h := edits.nodupKeys
    unfold List.NodupKeys List.keys at h ⊢
    rwa [List.map_map]⟩

/-- `tick_strategy_edit_timeouts`. -/
def tickStrategyEditTimeouts (st : StratsState) (now : Int) : List UInt64 × StratsState :=
  if !st.strategyEditTimeoutDue now then ([], st)
  else
    let timedOut := (st.strategyEdits.entries.filter fun e => editTimesOut now e.2).map Sigma.fst
    (timedOut.insertionSort (· ≤ ·),
      { st with strategyEdits := markTimedOut now st.strategyEdits }.recomputeDeadline)

/-- `local_folders_last_modified`. -/
def localFoldersLastModified (st : StratsState) : Int :=
  st.localFolders.elim st.foldersLastModified Prod.fst

/-- The folders of the outgoing list: the staged ones if there are any. -/
def outgoingFolders (st : StratsState) : FolderMap := st.localFolders.elim st.foldersByKey Prod.snd

/-- `outgoing_folder_paths`. -/
def outgoingFolderPaths (st : StratsState) : List Text :=
  (st.outgoingFolders.entries.map Sigma.snd).insertionSort (· ≤ ·)

/-- The strategies of the outgoing list: the local list if there is one. -/
def outgoing (st : StratsState) : List StrategySnapshot := st.localSnapshots.getD st.snapshots

/-- The two maps have the same keys. -/
def sameFolders (a b : FolderMap) : Bool :=
  a.keys.length == b.keys.length && a.keys.all fun key => decide (key ∈ b)

/-- `stage_local_folders`: a folder of a listed strategy cannot be deleted by leaving it out. -/
def stageLocalFolders (env : StrategyEnv) (st : StratsState) (paths : Option (List Text))
    (nowMs : Int) : Bool × StratsState :=
  let previous := st.outgoingFolders
  let wanted := match paths with
    | some paths => addFolderPaths env ∅ paths
    | none => previous
  let wanted := addFolderPaths env wanted (st.outgoing.map StrategySnapshot.path)
  if sameFolders wanted previous then (false, st)
  else
    let date := max nowMs (min (2 ^ 63 - 1) (st.localFoldersLastModified + 1))
    (true, { st with localFolders := some (date, wanted) }.invalidate)

/-! ## What the core sends -/

/-- The folders that are not wanted any more are deleted, if no strategy keeps them. -/
def deleteFolders (env : StrategyEnv) (st : StratsState) (paths : List Text) : StratsState :=
  paths.foldl (fun st path => (st.deleteFolderByPath env path).2) st

/-- `apply_server_folders`. -/
def applyServerFolders (env : StrategyEnv) (st : StratsState) (paths : List Text) (date : Int) :
    StratsState :=
  if date ≤ st.foldersLastModified then st
  else
    let wanted := addFolderPaths env ∅ paths
    let st := paths.foldl (createFoldersForPath env) st
    let absent := (st.foldersByKey.entries.filter fun e => decide (e.1 ∉ wanted)).map Sigma.snd
    let st := st.deleteFolders env absent
    let st := { st with foldersLastModified := date }
    let st := if st.localFolders.any fun p => decide (p.1 ≤ date) then
        { st with localFolders := none }
      else st
    st.invalidate

/-- The rank of an id in the order of the core; of two places the later one counts. -/
def rank (order : List UInt64) (strategyId : UInt64) : Nat :=
  match order.reverse.idxOf? strategyId with
  | some i => order.length - 1 - i
  | none => 2 ^ 64 - 1

/-- `apply_server_order`: ids that the core does not list stay behind the others. -/
def applyServerOrder (st : StratsState) (order : List UInt64) (date : UInt64)
    (updateLocal : Bool) : StratsState :=
  if st.lastModified ≠ 0 ∧ date ≤ st.lastModified then st
  else
    let st := { st with order := st.order.insertionSort fun a b => rank order a ≤ rank order b }
    let st := match updateLocal, st.localSnapshots with
      | true, some loc =>
        let loc := loc.insertionSort fun a b : StrategySnapshot =>
          rank order a.strategyId ≤ rank order b.strategyId
        { st with
          localSnapshots := some loc
          localSnapshotIndex := indexFrom st.localSnapshotIndex loc }
      | _, _ => st
    { st with lastModified := date }.invalidate

/-- How a snapshot of the core settles the edit of its id, if it does. -/
def editResult (env : StrategyEnv) (st : StratsState) (snapshot : StrategySnapshot) :
    Option StrategyResolutionKind :=
  (st.strategyEdits.lookup snapshot.strategyId).bind fun edit =>
    if sameRevision snapshot edit.desired then
      some (if st.strategyEffectivelyEqual env snapshot edit.desired then .confirmed
        else .adjusted)
    else if revisionStrictlyDominates snapshot edit.desired then some .superseded
    else none

/-- The outcome with one more settled edit. -/
def noteResolved (outcome : StrategySnapshotApplyOutcome) (edit : Option StrategyEdit)
    (snapshot : StrategySnapshot) (kind : StrategyResolutionKind) :
    StrategySnapshotApplyOutcome :=
  let outcome := { outcome with
    resolved := outcome.resolved ++
      (edit.map fun e : StrategyEdit => StrategyResolution.mk e.desired snapshot kind).toList }
  match kind with
  | .confirmed => { outcome with confirmed := outcome.confirmed ++ [snapshot.strategyId] }
  | .adjusted => { outcome with adjusted := outcome.adjusted ++ [snapshot.strategyId] }
  | .superseded => { outcome with superseded := outcome.superseded ++ [snapshot.strategyId] }

/-- What a snapshot of the core does to the local list and its edits. -/
def settleLocal (st : StratsState) (snapshot : StrategySnapshot)
    (result : Option StrategyResolutionKind) : StratsState :=
  match result with
  | some _ =>
    { st with strategyEdits := st.strategyEdits.erase snapshot.strategyId }
      |>.setLocalSnapshotFromServer snapshot true
  | none =>
    if snapshot.strategyId ∈ st.strategyEdits then st
    else st.setLocalSnapshotFromServer snapshot false

/-- `apply_server_snapshot`. -/
def applyServerSnapshot (env : StrategyEnv) (st : StratsState) (snapshot : StrategySnapshot)
    (outcome : StrategySnapshotApplyOutcome) :
    Bool × StrategySnapshotApplyOutcome × StratsState :=
  let result := st.editResult env snapshot
  let outcome := result.elim outcome
    (noteResolved outcome (st.strategyEdits.lookup snapshot.strategyId) snapshot)
  let (canonicalChanged, st) := st.upsertSnapshot env snapshot
  (canonicalChanged || result.isSome, outcome, (st.settleLocal snapshot result).recomputeDeadline)

/-- `update_snapshot_payload_cache_after_apply`. -/
def updateCacheAfterApply (env : StrategyEnv) (st : StratsState) (count : Nat) (paths : List Text)
    (clientMaxLastDate : UInt64) (deflateData : Bytes) (changed skippedOld : Bool) :
    StratsState :=
  if st.localSnapshots.isSome || st.localFolders.isSome then
    if changed then st.invalidate else st
  else if skippedOld then
    if changed then st.invalidate else st
  else if count = st.snapshotsById.keys.length then
    if sameFolders st.foldersByKey (addFolderPaths env ∅ paths) then
      { st with snapshotPayloadCache := some ⟨clientMaxLastDate, deflateData⟩ }
    else st.invalidate
  else if changed then st.invalidate
  else st

/-- What the callbacks of the in-place apply change. -/
structure InPlace where
  state : StratsState
  changed : Bool := false
  clientMaxLastDate : UInt64 := 0
  skippedOld : Bool := false
  order : List UInt64 := []
  outcome : StrategySnapshotApplyOutcome := {}

/-- A revision that the state has already, in the state before the apply. -/
def oldOrEqual (st : StratsState) (h : StrategyHeader) : Bool :=
  (st.byId.lookup h.strategyId).any fun info => info.isNewerOrEqual h.lastDate h.strategyVer

/-- A revision that settles an edit which was pending before the apply. -/
def resolvesPending (st : StratsState) (h : StrategyHeader) : Bool :=
  (st.strategyEdits.lookup h.strategyId).any fun edit =>
    let d := edit.desired
    (h.lastDate == d.lastDate && h.strategyVer == d.strategyVer) ||
      (decide (d.lastDate ≤ h.lastDate) && decide (d.strategyVer ≤ h.strategyVer) &&
        (decide (d.lastDate < h.lastDate) || decide (d.strategyVer < h.strategyVer)))

/-- A strategy of a payload that is passed over. -/
def skips (st : StratsState) (h : StrategyHeader) : Bool :=
  st.oldOrEqual h && !st.resolvesPending h

/-- `should_skip_old` of the in-place apply. -/
def shouldSkipOld (st : StratsState) (acc : InPlace) (h : StrategyHeader) : Bool × InPlace :=
  (st.skips h, { acc with
    order := acc.order ++ [h.strategyId]
    clientMaxLastDate := max acc.clientMaxLastDate h.lastDate
    skippedOld := acc.skippedOld || st.skips h })

/-- `on_strategy` of the in-place apply. -/
def onStrategy (env : StrategyEnv) (acc : InPlace) (s : StrategySnapshot) : InPlace :=
  let out := acc.state.applyServerSnapshot env s acc.outcome
  { acc with changed := acc.changed || out.1, outcome := out.2.1, state := out.2.2 }

/-- `apply_snapshot_decoded_with_mode_in_place`. A failure of the reader returns at once. -/
def applySnapshotInPlace (env : StrategyEnv) (st : StratsState) (deflateData : Bytes) :
    StratsState × Option StrategySnapshotApplyOutcome :=
  let out := parseForEach env st.shouldSkipOld (onStrategy env) st.schemaFieldTypes deflateData
    { state := st }
  match out.2 with
  | none => (out.1.state, none)
  | some (count, paths) =>
    let outcome := { out.1.outcome with count, paths, order := out.1.order }
    let st := out.1.state.updateCacheAfterApply env count paths out.1.clientMaxLastDate deflateData
      out.1.changed out.1.skippedOld
    (if outcome.order ≠ st.order then st.invalidate else st, some outcome)

/-- `replace_from_core`. -/
def replaceFromCore (env : StrategyEnv) (st : StratsState) (snap : StratSnapshot) :
    StratsState × Option Unit :=
  match parseStrategyBatch env st.schemaFieldTypes snap.data with
  | none => (st, none)
  | some batch =>
    let st := batch.strategies.foldl (insertSnapshotUnchecked env) st.clearEntries
    let st := batch.paths.foldl (createFoldersForPath env) st
    ({ st with
      lastModified := snap.serverEpoch
      lastServerEpoch := snap.serverEpoch
      foldersLastModified := snap.foldersLastModified }, some ())

/-! ## Commands and local checks -/

/-- `StratCommand::Delete`. -/
def applyDelete (env : StrategyEnv) (st : StratsState) (strategyId : UInt64) (folderPath : Text) :
    (Bool × Bool) × StratsState :=
  let (strategyDeleted, st) :=
    if strategyId ≠ 0 then st.removeStrategyById strategyId else (false, st)
  let (folderDeleted, st) :=
    if folderPath.isEmpty then (false, st) else st.deleteFolderByPath env folderPath
  ((strategyDeleted, folderDeleted), st)

/-- The checked flag of a retained snapshot. -/
def setSnapshotChecked (st : StratsState) (strategyId : UInt64) (checked : Bool) :
    Bool × StratsState :=
  match st.snapshotsById.lookup strategyId with
  | some snapshot =>
    if snapshot.checked = checked then (false, st)
    else
      (true,
        { st with snapshotsById := st.snapshotsById.insert strategyId { snapshot with checked } })
  | none => (false, st)

/-- One item of `StratCommand::CheckedSync`: whether the payload has changed. -/
def applyCheckedItem (acc : Bool × StratsState) (item : UInt64 × Bool) : Bool × StratsState :=
  let st := match acc.2.byId.lookup item.1 with
    | some entry =>
      { acc.2 with
        byId := acc.2.byId.insert item.1 { entry with checked := item.2, prevChecked := item.2 } }
    | none => acc.2
  let (retained, st) := st.setSnapshotChecked item.1 item.2
  let (listed, st) := st.setLocalSnapshotChecked item.1 item.2
  (acc.1 || retained || listed, st)

/-- `StratCommand::CheckedSync`. -/
def applyCheckedSync (st : StratsState) (items : List (UInt64 × Bool)) : StratsState :=
  let (changed, st) := items.foldl applyCheckedItem (false, st)
  if changed then st.invalidate else st

/-- One item of `StratCommand::CheckedEcho`. -/
def applyEchoItem (st : StratsState) (item : UInt64 × Bool) : StratsState :=
  match st.byId.lookup item.1 with
  | some entry =>
    if entry.checked = item.2 then
      { st with byId := st.byId.insert item.1 { entry with prevChecked := item.2 } }
    else st
  | none => st

/-- `StratCommand::CheckedEcho`. -/
def applyCheckedEcho (st : StratsState) (items : List (UInt64 × Bool)) : StratsState :=
  items.foldl applyEchoItem st

/-- `set_checked`. -/
def setChecked (st : StratsState) (strategyId : UInt64) (checked : Bool) : Bool × StratsState :=
  match st.byId.lookup strategyId with
  | none => (false, st)
  | some entry =>
    let st := { st with byId := st.byId.insert strategyId { entry with checked } }
    let st := if strategyId ∈ st.snapshotsById then
        (st.setSnapshotChecked strategyId checked).2.invalidate
      else st
    let (listed, st) := st.setLocalSnapshotChecked strategyId checked
    (true, if listed then st.invalidate else st)

/-- `replace_with_snapshots`. -/
def replaceWithSnapshots (env : StrategyEnv) (st : StratsState)
    (strategies : List StrategySnapshot) : StratsState :=
  strategies.foldl (insertSnapshotUnchecked env) st.clearEntries

/-- `apply_schema_raw` with what `StrategySchema::parse_compressed` made of the blob. -/
def applySchema (st : StratsState) (parsed : Option StrategySchema) : StratsState :=
  match parsed with
  | some schema =>
    { st with schema := some schema, schemaFieldTypes := some schema.fieldTypes }.invalidate
  | none => st

/-- The maximum of the dates of a list, 0 if it is empty. -/
def maxLastDate (ss : List StrategySnapshot) : UInt64 :=
  ss.foldl (fun m s => max m s.lastDate) 0

/-- `snapshot_payload_cache`: the cached payload, or a new one. -/
def payload (env : StrategyEnv) (st : StratsState) :
    Option StrategySnapshotPayloadCache × StratsState :=
  match st.snapshotPayloadCache with
  | some cache => (some cache, st)
  | none =>
    let localLen := st.localSnapshots.elim st.snapshotsById.keys.length List.length
    if localLen = 0 then
      let cache := ⟨0, StrategyBatchBuilder.folderPayload env st.outgoingFolderPaths⟩
      (some cache, { st with snapshotPayloadCache := some cache })
    else
      match st.schema with
      | none => (none, st)
      | some schema =>
        let builder := st.outgoing.foldl (StrategyBatchBuilder.writeStrategy env) (.new schema)
        let builder := st.outgoingFolderPaths.foldl
          (fun b path => { b with pathDict := (b.pathDict.index path).2 }) builder
        let cache := ⟨maxLastDate st.outgoing, builder.finalize env⟩
        (some cache, { st with snapshotPayloadCache := some cache })

end StratsState

end MoonProto
