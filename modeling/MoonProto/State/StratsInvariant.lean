import Mathlib.Order.Bounds.Basic
import MoonProto.Lib.NameTable
import MoonProto.State.StratsFolders

/-!
# Invariants of the strategy state

What holds in every state that the operations reach, as long as no folder path begins with a
slash: the order lists each known id once, a retained snapshot belongs to a known id, the local
index gives the positions of the local list, each edit belongs to a listed strategy, the cached
deadline is the earliest one of the pending edits, and the folders form a tree with the folder
of each strategy in it.
-/

namespace MoonProto

open List AList Function Option StrategySnapshot

open PathTree (Within)

namespace StratsState

variable {env : StrategyEnv}

/-! ## Inputs -/

/-- Everything that happens to the strategy state. `schema` carries what the parser made of a
schema blob; `rehash` stands for the maps, whose order of iteration is their own affair. -/
inductive Input
  | snapshot (data : Bytes)
  | replaceFromCore (snap : StratSnapshot)
  | replaceWith (strategies : List StrategySnapshot)
  | serverOrder (order : List UInt64) (date : UInt64) (updateLocal : Bool)
  | serverFolders (paths : List Text) (date : Int)
  | delete (strategyId : UInt64) (folderPath : Text)
  | checkedSync (items : List (UInt64 × Bool))
  | checkedEcho (items : List (UInt64 × Bool))
  | stageLocal (strategies : List StrategySnapshot) (submittedAt deadline : Int)
  | stageFolders (paths : Option (List Text)) (nowMs : Int)
  | setChecked (strategyId : UInt64) (checked : Bool)
  | tick (now : Int)
  | schema (parsed : Option StrategySchema)
  | payload
  | rehash (byId : StratMap StrategyInfo) (folders : FolderMap) (edits : StratMap StrategyEdit)
      (staged : FolderMap)

/-- The folder paths that an input brings. -/
def Input.paths (env : StrategyEnv) : Input → List Text
  | snapshot data => payloadPaths env data
  | replaceFromCore snap => payloadPaths env snap.data
  | replaceWith strategies => strategies.map path
  | serverFolders paths _ => paths
  | stageLocal strategies _ _ => strategies.map path
  | stageFolders paths _ => paths.getD []
  | _ => []

/-- The maps in another order. -/
def rehash (st : StratsState) (byId : StratMap StrategyInfo) (folders : FolderMap)
    (edits : StratMap StrategyEdit) (staged : FolderMap) : StratsState :=
  if byId.entries.Perm st.byId.entries ∧ folders.entries.Perm st.foldersByKey.entries ∧
      edits.entries.Perm st.strategyEdits.entries ∧
      ∀ p ∈ st.localFolders, staged.entries.Perm p.2.entries then
    { st with
      byId, foldersByKey := folders, strategyEdits := edits
      localFolders := st.localFolders.map fun p => (p.1, staged) }
  else st

def step (env : StrategyEnv) (st : StratsState) : Input → StratsState
  | .snapshot data => (st.applySnapshotInPlace env data).1
  | .replaceFromCore snap => (st.replaceFromCore env snap).1
  | .replaceWith strategies => st.replaceWithSnapshots env strategies
  | .serverOrder order date updateLocal => st.applyServerOrder order date updateLocal
  | .serverFolders paths date => st.applyServerFolders env paths date
  | .delete strategyId folderPath => (st.applyDelete env strategyId folderPath).2
  | .checkedSync items => st.applyCheckedSync items
  | .checkedEcho items => st.applyCheckedEcho items
  | .stageLocal strategies submittedAt deadline =>
    (st.stageLocalSnapshotBatch env strategies submittedAt deadline).2
  | .stageFolders paths nowMs => (st.stageLocalFolders env paths nowMs).2
  | .setChecked strategyId checked => (st.setChecked strategyId checked).2
  | .tick now => (st.tickStrategyEditTimeouts now).2
  | .schema parsed => st.applySchema parsed
  | .payload => (st.payload env).2
  | .rehash byId folders edits staged => st.rehash byId folders edits staged

/-- The state behind a sequence of inputs. -/
def after (env : StrategyEnv) (inputs : List Input) : StratsState := inputs.foldl (step env) {}

/-! ## Ids -/

/-- The order lists the known ids, and snapshots are retained for them only. -/
structure Ids (byId : StratMap StrategyInfo) (order : List UInt64)
    (snapshots : StratMap StrategySnapshot) : Prop where
  nodup : order.Nodup
  mem_order : ∀ id, id ∈ order ↔ id ∈ byId
  known : ∀ id s, snapshots.lookup id = some s → id ∈ byId
  key : ∀ id s, snapshots.lookup id = some s → s.strategyId = id

section ids

variable {byId : StratMap StrategyInfo} {order : List UInt64}
  {snapshots : StratMap StrategySnapshot}

theorem Ids.empty : Ids ∅ [] ∅ where
  nodup := nodup_nil
  mem_order id := iff_of_false not_mem_nil (notMem_empty id)
  known id s h := by
    rw [lookup_empty] at h
    cases h
  key id s h := by
    rw [lookup_empty] at h
    cases h

theorem Ids.order_perm (h : Ids byId order snapshots) : order.Perm byId.keys := by
  refine (perm_ext_iff_of_nodup h.nodup byId.keys_nodup).mpr fun id => ?_
  rw [h.mem_order, AList.mem_keys]

theorem Ids.store (h : Ids byId order snapshots) (s : StrategySnapshot) (info : StrategyInfo) :
    Ids (byId.insert s.strategyId info)
      (if s.strategyId ∈ byId then order else order ++ [s.strategyId])
      (snapshots.insert s.strategyId s) := by
  have hlookup : ∀ id t, (snapshots.insert s.strategyId s).lookup id = some t →
      (id = s.strategyId ∧ t = s) ∨ snapshots.lookup id = some t := by
    intro id t ht
    by_cases hid : id = s.strategyId
    · subst hid
      rw [lookup_insert] at ht
      exact .inl ⟨rfl, (some_inj.mp ht).symm⟩
    · rw [lookup_insert_ne hid] at ht
      exact .inr ht
  refine ⟨?_, fun id => ?_, fun id t ht => ?_, fun id t ht => ?_⟩
  · split
    · exact h.nodup
    · next hnew =>
      refine nodup_append.mpr ⟨h.nodup, nodup_singleton _, ?_⟩
      rintro a ha b hb rfl
      obtain rfl := mem_singleton.mp hb
      exact hnew ((h.mem_order _).mp ha)
  · rw [AList.mem_insert]
    split
    · next hold =>
      rw [h.mem_order]
      constructor
      · exact .inr
      · rintro (rfl | hid)
        · exact hold
        · exact hid
    · rw [mem_append, mem_singleton, h.mem_order, or_comm]
  · rw [AList.mem_insert]
    rcases hlookup id t ht with ⟨rfl, -⟩ | ht
    · exact .inl rfl
    · exact .inr (h.known id t ht)
  · rcases hlookup id t ht with ⟨rfl, rfl⟩ | ht
    · rfl
    · exact h.key id t ht

variable {id : UInt64}

theorem Ids.update (h : Ids byId order snapshots) (hid : id ∈ byId)
    (info : StrategyInfo) : Ids (byId.insert id info) order snapshots := by
  have hmem : ∀ i, i ∈ byId.insert id info ↔ i ∈ byId := by
    intro i
    rw [AList.mem_insert]
    constructor
    · rintro (rfl | hi)
      · exact hid
      · exact hi
    · exact .inr
  exact ⟨h.nodup, fun i => (h.mem_order i).trans (hmem i).symm,
    fun i s hs => (hmem i).mpr (h.known i s hs), h.key⟩

theorem Ids.check (h : Ids byId order snapshots) {s : StrategySnapshot}
    (hs : snapshots.lookup id = some s) (checked : Bool) :
    Ids byId order (snapshots.insert id { s with checked }) := by
  refine ⟨h.nodup, h.mem_order, fun i t ht => ?_, fun i t ht => ?_⟩
  · by_cases hi : i = id
    · subst hi
      exact h.known i s hs
    · rw [lookup_insert_ne hi] at ht
      exact h.known i t ht
  · by_cases hi : i = id
    · subst hi
      rw [lookup_insert] at ht
      obtain rfl := some_inj.mp ht
      exact h.key i s hs
    · rw [lookup_insert_ne hi] at ht
      exact h.key i t ht

theorem lookup_of_lookup_erase {α : Type} {m : StratMap α} {i : UInt64} {a : α}
    (h : (m.erase id).lookup i = some a) : i ≠ id ∧ m.lookup i = some a := by
  have hne : i ≠ id := by
    rintro rfl
    rw [lookup_erase] at h
    cases h
  rw [lookup_erase_ne hne] at h
  exact ⟨hne, h⟩

theorem Ids.remove (h : Ids byId order snapshots) (id : UInt64) :
    Ids (byId.erase id) (order.filter (· ≠ id)) (snapshots.erase id) := by
  refine ⟨h.nodup.filter _, fun i => ?_, fun i s hs => ?_, fun i s hs => ?_⟩
  · rw [mem_filter, h.mem_order, mem_erase, decide_eq_true_eq, and_comm]
  · obtain ⟨hne, hs⟩ := lookup_of_lookup_erase hs
    exact mem_erase.mpr ⟨hne, h.known i s hs⟩
  · exact h.key i s (lookup_of_lookup_erase hs).2

theorem Ids.reorder (h : Ids byId order snapshots) {order' : List UInt64}
    (hperm : order'.Perm order) : Ids byId order' snapshots :=
  ⟨hperm.nodup_iff.mpr h.nodup, fun id => hperm.mem_iff.trans (h.mem_order id), h.known, h.key⟩

end ids

/-! ## The local list -/

def localIds (loc : Option (List StrategySnapshot)) : List UInt64 :=
  (loc.getD []).map strategyId

/-- The index gives the positions of the local list, and each edit has its strategy there. -/
structure Listed (loc : Option (List StrategySnapshot)) (index : StratMap Nat)
    (edits : StratMap StrategyEdit) : Prop where
  exact : NameTable.Exact (fun id => index.lookup id) (localIds loc)
  listed : ∀ id ∈ edits, id ∈ localIds loc

section listed

variable {loc : List StrategySnapshot} {index : StratMap Nat} {edits : StratMap StrategyEdit}

theorem Listed.empty : Listed none ∅ ∅ where
  exact := NameTable.exact_nil
  listed id h := absurd h (notMem_empty id)

theorem Listed.congr {loc' : List StrategySnapshot} (h : Listed (some loc) index edits)
    (hids : localIds (some loc') = localIds (some loc)) : Listed (some loc') index edits := by
  refine ⟨?_, ?_⟩
  · rw [hids]
    exact h.exact
  · rw [hids]
    exact h.listed

/-- The check of a position that the index gives does not fail. -/
theorem Listed.sound (h : Listed (some loc) index edits) {id : UInt64} {position : Nat}
    (hposition : index.lookup id = some position) {panicked : Bool} (hp : panicked = false) :
    (panicked || decide (loc.length ≤ position)) = false := by
  have hlt : position < (loc.map strategyId).length := h.exact.lt_length hposition
  rw [length_map] at hlt
  rw [hp, Bool.false_or, decide_eq_false (Nat.not_le_of_lt hlt)]

theorem localIds_set {position : Nat} {s : StrategySnapshot}
    (hp : (localIds (some loc))[position]? = some s.strategyId) :
    localIds (some (loc.set position s)) = localIds (some loc) := by
  change (loc.set position s).map strategyId = localIds (some loc)
  obtain ⟨hlt, heq⟩ := List.getElem?_eq_some_iff.mp hp
  rw [map_set, ← heq]
  exact set_getElem_self hlt

theorem lookup_insert_eq_update {α : Type} (m : StratMap α) (id : UInt64) (a : α) :
    (fun i => (m.insert id a).lookup i) = Function.update (fun i => m.lookup i) id (some a) := by
  funext i
  by_cases hi : i = id
  · subst hi
    rw [lookup_insert, update_self]
  · rw [lookup_insert_ne hi, update_of_ne hi]

theorem Listed.push (h : Listed (some loc) index edits) {s : StrategySnapshot}
    (hnew : index.lookup s.strategyId = none) :
    Listed (some (loc ++ [s])) (index.insert s.strategyId loc.length) edits := by
  have hids : localIds (some (loc ++ [s])) = localIds (some loc) ++ [s.strategyId] :=
    map_append
  refine ⟨?_, fun id hid => ?_⟩
  · rw [hids, lookup_insert_eq_update]
    have hlength : (localIds (some loc)).length = loc.length := length_map _
    rw [← hlength]
    exact h.exact.push hnew
  · rw [hids]
    exact mem_append_left _ (h.listed id hid)

theorem Listed.eraseEdit {loc : Option (List StrategySnapshot)} (h : Listed loc index edits)
    (id : UInt64) : Listed loc index (edits.erase id) :=
  ⟨h.exact, fun i hi => h.listed i (mem_erase.mp hi).2⟩

theorem lookup_indexFrom (index : StratMap Nat) (loc : List StrategySnapshot) :
    (fun id => (indexFrom index loc).lookup id) =
      NameTable.fill (fun id => index.lookup id) (loc.map strategyId) 0 := by
  have hzip : ∀ (loc : List StrategySnapshot) (index : StratMap Nat) (start : Nat),
      (fun id => ((loc.zipIdx start).foldl
        (fun index p => index.insert p.1.strategyId p.2) index).lookup id) =
      NameTable.fill (fun id => index.lookup id) (loc.map strategyId) start := by
    intro loc
    induction loc with
    | nil => intro index start; rfl
    | cons s loc ih =>
      intro index start
      rw [map_cons, NameTable.fill_cons, ← lookup_insert_eq_update]
      exact ih (index.insert s.strategyId start) (start + 1)
  exact hzip loc index 0

/-- The index of a list of unique ids, built over a table that knew no others. -/
theorem Listed.rebuild (hnodup : (localIds (some loc)).Nodup)
    (hold : ∀ id, id ∉ localIds (some loc) → index.lookup id = none)
    (hedits : ∀ id ∈ edits, id ∈ localIds (some loc)) :
    Listed (some loc) (indexFrom index loc) edits := by
  refine ⟨?_, hedits⟩
  rw [lookup_indexFrom]
  exact NameTable.exact_fill hnodup hold

theorem Listed.lookup_eq_none (h : Listed (some loc) index edits) {id : UInt64}
    (hid : id ∉ localIds (some loc)) : index.lookup id = none := by
  cases hlookup : index.lookup id with
  | none => rfl
  | some position => exact absurd (mem_of_getElem? ((h.exact id position).mp hlookup)) hid

/-- The list in another order, with the positions entered again. -/
theorem Listed.reorder (h : Listed (some loc) index edits) {loc' : List StrategySnapshot}
    (hperm : loc'.Perm loc) : Listed (some loc') (indexFrom index loc') edits := by
  have hids : (localIds (some loc')).Perm (localIds (some loc)) := hperm.map _
  exact Listed.rebuild (hids.nodup_iff.mpr h.exact.nodup)
    (fun id hid => h.lookup_eq_none fun hmem => hid (hids.mem_iff.mpr hmem))
    fun id hid => hids.mem_iff.mpr (h.listed id hid)

/-- A strategy is taken out of the list, with its edit. -/
theorem Listed.remove (h : Listed (some loc) index edits) {id : UInt64} {position : Nat}
    (hp : index.lookup id = some position) :
    Listed (some (loc.eraseIdx position)) (indexFrom ∅ (loc.eraseIdx position))
      (edits.erase id) := by
  have hids : localIds (some (loc.eraseIdx position)) = (localIds (some loc)).eraseIdx position :=
    (eraseIdx_map _ _ _).symm
  have hnodup := h.exact.nodup
  refine Listed.rebuild ?_ (fun _ _ => lookup_empty _) fun i hi => ?_
  · rw [hids]
    exact hnodup.eraseIdx position
  · obtain ⟨hne, hmem⟩ := mem_erase.mp hi
    rw [hids]
    obtain ⟨j, hj⟩ := mem_iff_getElem?.mp (h.listed i hmem)
    refine mem_eraseIdx_iff_getElem?.mpr ⟨j, ?_, hj⟩
    rintro rfl
    rw [(h.exact id j).mp hp] at hj
    exact hne (some_inj.mp hj).symm

end listed

variable {st : StratsState} {s : StrategySnapshot}

/-! ## Deadlines -/

/-- The deadlines of the pending edits. -/
def pendingDeadlines (edits : StratMap StrategyEdit) : Set Int :=
  { d | ∃ id e, edits.lookup id = some e ∧ e.status = .pending ∧ e.deadline = d }

/-- The next deadline is the earliest of the pending edits. -/
structure Earliest (edits : StratMap StrategyEdit) (next : Option Int) : Prop where
  least : ∀ d, next = some d ↔ IsLeast (pendingDeadlines edits) d
  none_iff : next = none ↔ pendingDeadlines edits = ∅

theorem mem_pendingDeadlines_iff {edits : StratMap StrategyEdit} {d : Int} :
    d ∈ ((edits.entries.filter fun e => e.2.status = .pending).map fun e => e.2.deadline) ↔
      d ∈ pendingDeadlines edits := by
  rw [List.mem_map]
  constructor
  · rintro ⟨e, he, rfl⟩
    obtain ⟨hmem, hpending⟩ := mem_filter.mp he
    exact ⟨e.1, e.2, mem_lookup_iff.mpr hmem, of_decide_eq_true hpending, rfl⟩
  · rintro ⟨id, e, he, hpending, rfl⟩
    exact ⟨⟨id, e⟩, mem_filter.mpr ⟨mem_lookup_iff.mp he, decide_eq_true hpending⟩, rfl⟩

theorem earliest_recomputeDeadline (st : StratsState) :
    Earliest st.strategyEdits st.recomputeDeadline.nextStrategyEditDeadline := by
  refine ⟨fun d => ?_, ?_⟩
  · unfold recomputeDeadline IsLeast lowerBounds
    rw [min?_eq_some_iff, mem_pendingDeadlines_iff]
    simp only [mem_pendingDeadlines_iff]
    rfl
  · unfold recomputeDeadline
    rw [min?_eq_none_iff, eq_nil_iff_forall_not_mem, Set.eq_empty_iff_forall_notMem]
    simp only [mem_pendingDeadlines_iff]

theorem Earliest.empty : Earliest ∅ none := earliest_recomputeDeadline {}

theorem Earliest.congr {edits edits' : StratMap StrategyEdit} {next : Option Int}
    (h : Earliest edits next) (hedits : ∀ id, edits'.lookup id = edits.lookup id) :
    Earliest edits' next := by
  have hset : pendingDeadlines edits' = pendingDeadlines edits := by
    unfold pendingDeadlines
    simp only [hedits]
  refine ⟨?_, ?_⟩
  · rw [hset]
    exact h.least
  · rw [hset]
    exact h.none_iff

/-! ## The invariant -/

/-- What holds between the operations and between their parts. -/
structure Core (env : StrategyEnv) (st : StratsState) : Prop where
  ids : Ids st.byId st.order st.snapshotsById
  listed : Listed st.localSnapshots st.localSnapshotIndex st.strategyEdits
  folders : Folders env st.byId st.foldersByKey
  staged : ∀ p, st.localFolders = some p → FolderTree env p.2
  retainedPaths : ∀ id s, st.snapshotsById.lookup id = some s → Relative s.path
  listedPaths : ∀ s ∈ st.localSnapshots.getD [], Relative s.path
  sound : st.panicked = false

/-- The invariant of the strategy state. -/
structure Invariant (env : StrategyEnv) (st : StratsState) : Prop extends Core env st where
  earliest : Earliest st.strategyEdits st.nextStrategyEditDeadline

theorem Folders.empty : Folders env ∅ ∅ where
  tree := FolderTree.empty
  covers id e h := by
    rw [lookup_empty] at h
    cases h

theorem Core.clearEntries (hsound : st.panicked = false) : Core env st.clearEntries where
  ids := Ids.empty
  listed := Listed.empty
  folders := Folders.empty
  staged p hp := nomatch hp
  retainedPaths id s hs := by
    rw [show st.clearEntries.snapshotsById = ∅ from rfl, lookup_empty] at hs
    cases hs
  listedPaths s hs := nomatch hs
  sound := hsound

theorem Invariant.empty : Invariant env {} where
  toCore := { Core.clearEntries (rfl : StratsState.panicked {} = false) with }
  earliest := Earliest.empty

theorem Core.recomputeDeadline (h : Core env st) : Invariant env st.recomputeDeadline where
  toCore := { h with }
  earliest := earliest_recomputeDeadline st

/-! ## Snapshots of the core -/

theorem Folders.store {byId : StratMap StrategyInfo} {folders : FolderMap}
    (h : Folders env byId folders) (laws : env.Lowercases)
    (hrel : Relative s.path) :
    Folders env (byId.insert s.strategyId (.ofSnapshot s))
      (StratsState.addFolderPath env folders s.path).2 where
  tree := h.tree.addFolderPath laws hrel
  covers id e he hne := by
    rw [h.tree.mem_addFolderPath laws hrel]
    by_cases hid : id = s.strategyId
    · subst hid
      rw [lookup_insert] at he
      obtain rfl := some_inj.mp he
      exact .inr ⟨hne, Within.refl _⟩
    · rw [lookup_insert_ne hid] at he
      exact .inl (h.covers id e he hne)

theorem Core.store (h : Core env st) (laws : env.Lowercases) (hrel : Relative s.path) :
    Core env (st.store env s) := by
  rw [store_eq]
  exact { h with
    ids := h.ids.store s _
    folders := h.folders.store laws hrel
    retainedPaths := by
      intro id t ht
      by_cases hid : id = s.strategyId
      · subst hid
        rw [lookup_insert] at ht
        obtain rfl := some_inj.mp ht
        exact hrel
      · rw [lookup_insert_ne hid] at ht
        exact h.retainedPaths id t ht }

theorem Core.upsertSnapshot (h : Core env st) (laws : env.Lowercases) (hrel : Relative s.path) :
    Core env (st.upsertSnapshot env s).2 := by
  rcases upsertSnapshot_cases env st s with ⟨-, -, -, hup⟩ | ⟨-, hup⟩
  · rw [hup]
    exact h
  · rw [hup]
    exact h.store laws hrel

theorem Core.setLocalSnapshotFromServer (h : Core env st) (hrel : Relative s.path) (force : Bool) :
    Core env (st.setLocalSnapshotFromServer s force) := by
  unfold StratsState.setLocalSnapshotFromServer
  cases hloc : st.localSnapshots with
  | none => exact h
  | some loc =>
    have hlisted := h.listed
    have hpaths := h.listedPaths
    rw [hloc] at hlisted hpaths
    dsimp only
    cases hposition : st.localSnapshotIndex.lookup s.strategyId with
    | some position =>
      dsimp only
      split
      · exact { h with
          listed := hlisted.congr (localIds_set ((hlisted.exact _ _).mp hposition))
          listedPaths := by
            intro t ht
            rcases mem_or_eq_of_mem_set ht with ht | rfl
            · exact hpaths t ht
            · exact hrel
          sound := hlisted.sound hposition h.sound }
      · exact h
    | none =>
      exact { h with
        listed := hlisted.push hposition
        listedPaths := by
          intro t ht
          rcases mem_append.mp ht with ht | ht
          · exact hpaths t ht
          · obtain rfl := mem_singleton.mp ht
            exact hrel }

theorem Core.settleLocal (h : Core env st)
    (hrel : Relative s.path) (result : Option StrategyResolutionKind) :
    Core env (st.settleLocal s result) := by
  unfold StratsState.settleLocal
  cases result with
  | some kind =>
    have herased : Core env { st with strategyEdits := st.strategyEdits.erase s.strategyId } :=
      { h with listed := h.listed.eraseEdit s.strategyId }
    exact herased.setLocalSnapshotFromServer hrel true
  | none =>
    dsimp only
    split
    · exact h
    · exact h.setLocalSnapshotFromServer hrel false

theorem Core.applied (h : Core env st) (laws : env.Lowercases) (hrel : Relative s.path) :
    Invariant env (st.applied env s) :=
  ((h.upsertSnapshot laws hrel).settleLocal hrel _).recomputeDeadline

theorem Invariant.foldl_applied (h : Invariant env st) (laws : env.Lowercases)
    {ss : List StrategySnapshot} (hrel : ∀ s ∈ ss, Relative s.path) :
    Invariant env (ss.foldl (StratsState.applied env) st) := by
  induction ss generalizing st with
  | nil => exact h
  | cons s ss ih =>
    exact ih (h.toCore.applied laws (hrel s mem_cons_self)) fun t ht =>
      hrel t (mem_cons_of_mem _ ht)

theorem Invariant.withCache (h : Invariant env st) (cache : Option StrategySnapshotPayloadCache) :
    Invariant env { st with snapshotPayloadCache := cache } :=
  { h with }

variable {data : Bytes} {id : UInt64}

theorem relative_of_scanned {old : StrategyHeader → Bool} {types : Option FieldTypes}
    (hrel : ∀ p ∈ payloadPaths env data, Relative p)
    (hs : s ∈ (scanBatch env old types data).1.filterMap Visit.strategy?) : Relative s.path := by
  obtain ⟨h, fields, rfl, -, hpath | hpath⟩ := scanBatch_strategy hs
  · exact hrel _ hpath
  · change Relative h.path
    rw [hpath]
    decide

theorem Invariant.snapshot (h : Invariant env st) (laws : env.Lowercases)
    (hrel : ∀ p ∈ payloadPaths env data, Relative p) :
    Invariant env (st.applySnapshotInPlace env data).1 := by
  obtain ⟨cache, heq⟩ := applySnapshotInPlace_eq env st data
  rw [heq]
  exact (h.foldl_applied laws fun s hs => relative_of_scanned hrel hs).withCache cache

/-! ## Replacements -/

theorem Invariant.insertSnapshotUnchecked (h : Invariant env st)
    (laws : env.Lowercases) (hrel : Relative s.path) :
    Invariant env (st.insertSnapshotUnchecked env s) := by
  have hcore := h.toCore.store laws hrel
  unfold StratsState.insertSnapshotUnchecked
  rw [store_eq] at hcore ⊢
  exact { hcore with earliest := h.earliest }

theorem Invariant.clearEntries (hsound : st.panicked = false) : Invariant env st.clearEntries where
  toCore := Core.clearEntries hsound
  earliest := Earliest.empty

theorem Invariant.replaceWithSnapshots (hsound : st.panicked = false) (laws : env.Lowercases)
    {ss : List StrategySnapshot} (hrel : ∀ s ∈ ss, Relative s.path) :
    Invariant env (st.replaceWithSnapshots env ss) := by
  unfold StratsState.replaceWithSnapshots
  have h : Invariant env st.clearEntries := Invariant.clearEntries hsound
  generalize st.clearEntries = st₀ at h ⊢
  induction ss generalizing st₀ with
  | nil => exact h
  | cons s ss ih =>
    exact ih (fun t ht => hrel t (mem_cons_of_mem _ ht)) _
      (h.insertSnapshotUnchecked laws (hrel s mem_cons_self))

theorem Invariant.folderStep {st st' : StratsState} (h : Invariant env st)
    (hstep : FolderStep env st st') : Invariant env st' := by
  rw [hstep.frame]
  exact { h with folders := hstep.keeps h.folders }

theorem Invariant.replaceFromCore (h : Invariant env st)
    (laws : env.Lowercases) {snap : StratSnapshot}
    (hrel : ∀ p ∈ payloadPaths env snap.data, Relative p) :
    Invariant env (st.replaceFromCore env snap).1 := by
  unfold StratsState.replaceFromCore
  cases hparse : parseStrategyBatch env st.schemaFieldTypes snap.data with
  | none => exact h
  | some batch =>
    obtain ⟨hpaths, hstrategies⟩ := parseStrategyBatch_eq_scanBatch hparse
    have hreplaced : Invariant env (st.replaceWithSnapshots env batch.strategies) :=
      Invariant.replaceWithSnapshots h.sound laws fun s hs => by
        rw [hstrategies] at hs
        exact relative_of_scanned hrel hs
    have hcreated := hreplaced.folderStep
      (FolderStep.foldl (fun st _ => createFoldersForPath_step laws st) batch.paths _ fun p hp => by
        rw [hpaths] at hp
        exact hrel p hp)
    exact { hcreated with }

/-! ## Order, folders and deletes -/

theorem Invariant.applyServerOrder (h : Invariant env st)
    (order : List UInt64) (date : UInt64) (updateLocal : Bool) :
    Invariant env (st.applyServerOrder order date updateLocal) := by
  unfold StratsState.applyServerOrder
  split
  · exact h
  have hids := h.ids.reorder (perm_insertionSort (fun a b => rank order a ≤ rank order b) st.order)
  dsimp only
  split
  · next loc hloc =>
    have hperm := perm_insertionSort (fun a b : StrategySnapshot =>
      rank order a.strategyId ≤ rank order b.strategyId) loc
    have hlisted := h.listed
    have hpaths := h.listedPaths
    rw [show st.localSnapshots = some loc from hloc] at hlisted hpaths
    exact { h with
      ids := hids
      listed := hlisted.reorder hperm
      listedPaths := fun s hs => hpaths s (hperm.mem_iff.mp hs) }
  · exact { h with ids := hids }

theorem Invariant.applyServerFolders (h : Invariant env st)
    (laws : env.Lowercases) {paths : List Text} (hrel : ∀ p ∈ paths, Relative p) (date : Int) :
    Invariant env (st.applyServerFolders env paths date) := by
  rcases applyServerFolders_cases laws st hrel date with heq | ⟨folders, hkeeps, heq⟩
  · rw [heq]
    exact h
  · rw [heq]
    exact { h with
      folders := hkeeps h.folders
      staged := by
        intro p hp
        dsimp only at hp
        split at hp
        · cases hp
        · exact h.staged p hp }

theorem Folders.remove {byId : StratMap StrategyInfo} {folders : FolderMap}
    (h : Folders env byId folders) (id : UInt64) : Folders env (byId.erase id) folders :=
  ⟨h.tree, fun i e he => h.covers i e (lookup_of_lookup_erase he).2⟩

theorem Core.removeLocalSnapshot (h : Core env st) (id : UInt64) :
    Invariant env (st.removeLocalSnapshot id) := by
  have herased : Core env { st with strategyEdits := st.strategyEdits.erase id } :=
    { h with listed := h.listed.eraseEdit id }
  unfold StratsState.removeLocalSnapshot
  dsimp only
  cases hposition : st.localSnapshotIndex.lookup id with
  | none => exact herased.recomputeDeadline
  | some position =>
    dsimp only
    split
    · exact herased.recomputeDeadline
    next loc hloc =>
    have hlisted := h.listed
    have hpaths := h.listedPaths
    rw [hloc] at hlisted hpaths
    have hremoved : Core env { st with
        strategyEdits := st.strategyEdits.erase id
        localSnapshots := some (loc.eraseIdx position)
        localSnapshotIndex := indexFrom ∅ (loc.eraseIdx position)
        panicked := st.panicked || decide (loc.length ≤ position) } :=
      { h with
        listed := hlisted.remove hposition
        listedPaths := fun s hs => hpaths s ((eraseIdx_sublist loc position).subset hs)
        sound := hlisted.sound hposition h.sound }
    exact hremoved.recomputeDeadline

theorem Invariant.removeStrategyById (h : Invariant env st) (id : UInt64) :
    Invariant env (st.removeStrategyById id).2 := by
  unfold StratsState.removeStrategyById
  split
  · have hcore : Core env { st with
        byId := st.byId.erase id
        order := st.order.filter (· ≠ id)
        snapshotsById := st.snapshotsById.erase id } :=
      { h with
        ids := h.ids.remove id
        folders := h.folders.remove id
        retainedPaths := fun i s hs => h.retainedPaths i s (lookup_of_lookup_erase hs).2 }
    exact (hcore.removeLocalSnapshot id).withCache none
  · exact h

/-- A delete removes a strategy or not, and then the folder or not. -/
theorem applyDelete_induction {P : StratsState → Prop} {id : UInt64} {folderPath : Text} (h : P st)
    (hremove : P (st.removeStrategyById id).2)
    (hfolder : ∀ st', P st' → P (st'.deleteFolderByPath env folderPath).2) :
    P (st.applyDelete env id folderPath).2 := by
  have hremoved : P (if id ≠ 0 then st.removeStrategyById id else (false, st)).2 := by
    split
    · exact hremove
    · exact h
  unfold StratsState.applyDelete
  generalize (if id ≠ 0 then st.removeStrategyById id else (false, st)) = p at hremoved ⊢
  dsimp only
  split
  · exact hremoved
  · exact hfolder _ hremoved

theorem Invariant.applyDelete (h : Invariant env st) (id : UInt64)
    (folderPath : Text) : Invariant env (st.applyDelete env id folderPath).2 :=
  applyDelete_induction h (h.removeStrategyById id) fun st' h' =>
    h'.folderStep (deleteFolderByPath_step st' folderPath)

/-! ## Checked flags -/

theorem Invariant.updateEntry (h : Invariant env st)
    {entry info : StrategyInfo} (hentry : st.byId.lookup id = some entry)
    (hpath : info.folderPath = entry.folderPath) :
    Invariant env { st with byId := st.byId.insert id info } :=
  { h with
    ids := h.ids.update (lookup_isSome.mp (by rw [hentry]; rfl)) info
    folders := by
      refine ⟨h.folders.tree, fun i e he hne => ?_⟩
      by_cases hi : i = id
      · subst hi
        rw [lookup_insert] at he
        obtain rfl := some_inj.mp he
        rw [hpath] at hne ⊢
        exact h.folders.covers i entry hentry hne
      · rw [lookup_insert_ne hi] at he
        exact h.folders.covers i e he hne }

theorem Invariant.setSnapshotChecked (h : Invariant env st) (id : UInt64)
    (checked : Bool) : Invariant env (st.setSnapshotChecked id checked).2 := by
  unfold StratsState.setSnapshotChecked
  cases hs : st.snapshotsById.lookup id with
  | none => exact h
  | some s =>
    dsimp only
    split
    · exact h
    exact { h with
      ids := h.ids.check hs checked
      retainedPaths := by
        intro i t ht
        by_cases hi : i = id
        · subst hi
          rw [lookup_insert] at ht
          obtain rfl := some_inj.mp ht
          exact h.retainedPaths i s hs
        · rw [lookup_insert_ne hi] at ht
          exact h.retainedPaths i t ht }

theorem Invariant.setLocalSnapshotChecked (h : Invariant env st) (id : UInt64)
    (checked : Bool) : Invariant env (st.setLocalSnapshotChecked id checked).2 := by
  unfold StratsState.setLocalSnapshotChecked
  split
  · next position loc hposition hloc =>
    have hlisted := h.listed
    have hpaths := h.listedPaths
    rw [hloc] at hlisted hpaths
    split
    · next s hs =>
      split
      · exact h
      have hp : (localIds (some loc))[position]? = some s.strategyId := by
        change (loc.map strategyId)[position]? = some s.strategyId
        rw [getElem?_map, hs]
        rfl
      exact { h with
        listed := hlisted.congr (localIds_set (s := { s with checked }) hp)
        listedPaths := by
          intro t ht
          rcases mem_or_eq_of_mem_set ht with ht | rfl
          · exact hpaths t ht
          · exact hpaths s (mem_of_getElem? hs) }
    · next hnone =>
      -- the index gives only positions of the list
      have hp := (hlisted.exact _ _).mp hposition
      change (loc.map strategyId)[position]? = some id at hp
      rw [getElem?_map, hnone] at hp
      cases hp
  · exact h

theorem Invariant.applyCheckedItem {acc : Bool × StratsState} (h : Invariant env acc.2)
    (item : UInt64 × Bool) : Invariant env (applyCheckedItem acc item).2 := by
  unfold StratsState.applyCheckedItem
  refine Invariant.setLocalSnapshotChecked ?_ item.1 item.2
  refine Invariant.setSnapshotChecked ?_ item.1 item.2
  split
  · next entry hentry => exact h.updateEntry hentry rfl
  · exact h

theorem Invariant.applyCheckedSync (h : Invariant env st)
    (items : List (UInt64 × Bool)) : Invariant env (st.applyCheckedSync items) := by
  have hfold : ∀ (items : List (UInt64 × Bool)) (acc : Bool × StratsState), Invariant env acc.2 →
      Invariant env (items.foldl StratsState.applyCheckedItem acc).2 := by
    intro items
    induction items with
    | nil => exact fun _ h => h
    | cons item items ih => exact fun acc h => ih _ (h.applyCheckedItem item)
  have hitems := hfold items (false, st) h
  unfold StratsState.applyCheckedSync
  dsimp only
  split
  · exact hitems.withCache none
  · exact hitems

theorem Invariant.applyCheckedEcho (h : Invariant env st)
    (items : List (UInt64 × Bool)) : Invariant env (st.applyCheckedEcho items) := by
  unfold StratsState.applyCheckedEcho
  induction items generalizing st with
  | nil => exact h
  | cons item items ih =>
    refine ih ?_
    unfold applyEchoItem
    split
    · next entry hentry =>
      split
      · exact h.updateEntry hentry rfl
      · exact h
    · exact h

theorem Invariant.setChecked (h : Invariant env st) (id : UInt64)
    (checked : Bool) : Invariant env (st.setChecked id checked).2 := by
  unfold StratsState.setChecked
  cases hentry : st.byId.lookup id with
  | none => exact h
  | some entry =>
    have hupdated : Invariant env
        { st with byId := st.byId.insert id { entry with checked } } := h.updateEntry hentry rfl
    dsimp only
    split
    · have hlisted := ((hupdated.setSnapshotChecked id checked).withCache none
        ).setLocalSnapshotChecked id checked
      split
      · exact hlisted.withCache none
      · exact hlisted
    · have hlisted := hupdated.setLocalSnapshotChecked id checked
      split
      · exact hlisted.withCache none
      · exact hlisted

/-! ## Staging -/

/-- The submitted list: an exact index, and strategies that were submitted. -/
theorem collectLocal_spec :
    ∀ (ss loc : List StrategySnapshot) (index : StratMap Nat) (panicked : Bool),
    Listed (some loc) index ∅ → panicked = false →
      let p := collectLocal ss (loc, index, panicked)
      Listed (some p.1) p.2.1 ∅ ∧ p.2.2 = false ∧ ∀ s ∈ p.1, s ∈ loc ∨ s ∈ ss := by
  intro ss
  induction ss with
  | nil => exact fun loc index panicked h hp => ⟨h, hp, fun s hs => .inl hs⟩
  | cons s ss ih =>
    intro loc index panicked h hp
    unfold collectLocal
    cases hposition : index.lookup s.strategyId with
    | some position =>
      have hset := h.congr (localIds_set ((h.exact _ _).mp hposition))
      obtain ⟨hlisted, hsound, hmem⟩ := ih _ _ _ hset (h.sound hposition hp)
      refine ⟨hlisted, hsound, fun t ht => ?_⟩
      rcases hmem t ht with ht | ht
      · rcases mem_or_eq_of_mem_set ht with ht | rfl
        · exact .inl ht
        · exact .inr mem_cons_self
      · exact .inr (mem_cons_of_mem _ ht)
    | none =>
      obtain ⟨hlisted, hsound, hmem⟩ := ih _ _ _ (h.push hposition) hp
      refine ⟨hlisted, hsound, fun t ht => ?_⟩
      rcases hmem t ht with ht | ht
      · rcases mem_append.mp ht with ht | ht
        · exact .inl ht
        · obtain rfl := mem_singleton.mp ht
          exact .inr mem_cons_self
      · exact .inr (mem_cons_of_mem _ ht)

/-- What is listed for a submitted strategy: itself, or what the core has for its id. -/
theorem listed_cases (env : StrategyEnv) (st : StratsState) (s : StrategySnapshot) :
    (st.stageKind env s).listed s = s ∨
      st.snapshotsById.lookup s.strategyId = some ((st.stageKind env s).listed s) := by
  unfold stageKind
  split
  · exact .inl rfl
  next confirmed hconfirmed =>
  split
  · exact .inl rfl
  split
  · exact .inr hconfirmed
  · exact .inl rfl

theorem mem_stageEdits {submittedAt deadline : Int} :
    ∀ {loc : List StrategySnapshot} {edits : StratMap StrategyEdit},
      id ∈ loc.foldl (st.stageEdit env submittedAt deadline) edits →
        id ∈ edits ∨ id ∈ loc.map strategyId := by
  intro loc
  induction loc with
  | nil => exact .inl
  | cons s loc ih =>
    intro edits h
    rcases ih h with h | h
    · unfold stageEdit at h
      split at h
      · rcases (AList.mem_insert edits).mp h with rfl | h
        · exact .inr mem_cons_self
        · exact .inl h
      · exact .inl h
    · exact .inr (mem_cons_of_mem _ h)

theorem Invariant.stageLocalSnapshotBatch (h : Invariant env st)
    {ss : List StrategySnapshot} (hrel : ∀ s ∈ ss, Relative s.path) (submittedAt deadline : Int) :
    Invariant env (st.stageLocalSnapshotBatch env ss submittedAt deadline).2 := by
  have hempty : Listed (some []) ∅ ∅ :=
    ⟨NameTable.exact_nil, fun id hid => absurd hid (notMem_empty id)⟩
  obtain ⟨hlisted, hsound, hmem⟩ := collectLocal_spec ss [] ∅ st.panicked hempty h.sound
  unfold StratsState.stageLocalSnapshotBatch
  generalize collectLocal ss ([], ∅, st.panicked) = p at hlisted hsound hmem ⊢
  obtain ⟨loc, index, panicked⟩ := p
  have hids : localIds (some (loc.map fun s => (st.stageKind env s).listed s)) =
      localIds (some loc) := by
    change (loc.map _).map strategyId = loc.map strategyId
    rw [List.map_map]
    refine map_congr_left fun s _ => ?_
    rcases listed_cases env st s with heq | hconfirmed
    · exact congrArg strategyId heq
    · exact h.ids.key _ _ hconfirmed
  have hcore : Core env { st with
      localSnapshots := some (loc.map fun s => (st.stageKind env s).listed s)
      localSnapshotIndex := index
      strategyEdits := loc.foldl (st.stageEdit env submittedAt deadline) ∅
      panicked } :=
    { h with
      listed := by
        refine ⟨?_, fun id hid => ?_⟩
        · rw [hids]
          exact hlisted.exact
        · rw [hids]
          rcases mem_stageEdits hid with hid | hid
          · exact absurd hid (notMem_empty id)
          · exact hid
      listedPaths := by
        intro t ht
        obtain ⟨s, hs, rfl⟩ := List.mem_map.mp ht
        rcases listed_cases env st s with heq | hconfirmed
        · rw [heq]
          rcases hmem s hs with hs | hs
          · cases hs
          · exact hrel s hs
        · exact h.retainedPaths _ _ hconfirmed
      sound := hsound }
  exact hcore.recomputeDeadline.withCache none

theorem Core.outgoing_relative (h : Core env st) (hs : s ∈ st.outgoing) : Relative s.path := by
  unfold outgoing at hs
  have hpaths := h.listedPaths
  cases hloc : st.localSnapshots with
  | some loc =>
    rw [hloc] at hs hpaths
    exact hpaths s hs
  | none =>
    rw [hloc] at hs
    obtain ⟨id, -, hid⟩ := mem_filterMap.mp hs
    exact h.retainedPaths id s hid

theorem Core.outgoingFolders_tree (h : Core env st) : FolderTree env st.outgoingFolders := by
  unfold outgoingFolders
  cases hstaged : st.localFolders with
  | none => exact h.folders.tree
  | some p => exact h.staged p hstaged

/-- The folders that are staged: the wanted ones and those of the outgoing list. -/
def wantedFolders (env : StrategyEnv) (st : StratsState) (paths : Option (List Text)) : FolderMap :=
  addFolderPaths env (paths.elim st.outgoingFolders (addFolderPaths env ∅))
    (st.outgoing.map path)

theorem stageLocalFolders_eq (env : StrategyEnv) (st : StratsState) (paths : Option (List Text))
    (nowMs : Int) :
    st.stageLocalFolders env paths nowMs =
      if sameFolders (st.wantedFolders env paths) st.outgoingFolders then (false, st)
      else (true, { st with
        localFolders := some (max nowMs (min (2 ^ 63 - 1) (st.localFoldersLastModified + 1)),
          st.wantedFolders env paths)
        snapshotPayloadCache := none }) := by
  cases paths with
  | none => rfl
  | some paths => rfl

theorem Core.wantedFolders_tree (h : Core env st) (laws : env.Lowercases)
    {paths : Option (List Text)} (hrel : ∀ p ∈ paths.getD [], Relative p) :
    FolderTree env (st.wantedFolders env paths) := by
  have hwanted : FolderTree env
      (paths.elim st.outgoingFolders (StratsState.addFolderPaths env ∅)) := by
    cases paths with
    | none => exact h.outgoingFolders_tree
    | some paths => exact FolderTree.empty.addFolderPaths laws hrel
  refine hwanted.addFolderPaths laws fun p hp => ?_
  obtain ⟨s, hs, rfl⟩ := List.mem_map.mp hp
  exact h.outgoing_relative hs

theorem Invariant.stageLocalFolders (h : Invariant env st)
    (laws : env.Lowercases) {paths : Option (List Text)} (hrel : ∀ p ∈ paths.getD [], Relative p)
    (nowMs : Int) : Invariant env (st.stageLocalFolders env paths nowMs).2 := by
  rw [stageLocalFolders_eq]
  split
  · exact h
  exact { h with
    staged := by
      intro p hp
      obtain rfl := some_inj.mp hp
      exact h.toCore.wantedFolders_tree laws hrel }

/-! ## Timeouts and the maps -/

theorem mem_markTimedOut {now : Int} {edits : StratMap StrategyEdit} :
    id ∈ markTimedOut now edits ↔ id ∈ edits := by
  rw [AList.mem_keys, AList.mem_keys]
  unfold markTimedOut AList.keys List.keys
  rw [List.map_map]
  rfl

theorem Invariant.tickStrategyEditTimeouts (h : Invariant env st) (now : Int) :
    Invariant env (st.tickStrategyEditTimeouts now).2 := by
  unfold StratsState.tickStrategyEditTimeouts
  split
  · exact h
  have hcore : Core env { st with strategyEdits := markTimedOut now st.strategyEdits } :=
    { h with
      listed := ⟨h.listed.exact, fun id hid => h.listed.listed id (mem_markTimedOut.mp hid)⟩ }
  exact hcore.recomputeDeadline

theorem Invariant.applySchema (h : Invariant env st)
    (parsed : Option StrategySchema) : Invariant env (st.applySchema parsed) := by
  unfold StratsState.applySchema
  cases parsed with
  | none => exact h
  | some schema => exact { h with }

theorem Invariant.payload (h : Invariant env st) : Invariant env (st.payload env).2 := by
  unfold StratsState.payload
  dsimp only
  split
  · exact h
  split
  · exact h.withCache _
  split
  · exact h
  · exact h.withCache _

theorem FolderTree.perm {folders folders' : FolderMap} (h : FolderTree env folders)
    (hperm : folders'.entries.Perm folders.entries) : FolderTree env folders' where
  key k v hv := h.key k v (by rw [← perm_lookup hperm]; exact hv)
  relative k v hv := h.relative k v (by rw [← perm_lookup hperm]; exact hv)
  closed k hk a ha :=
    (mem_of_perm hperm).mpr (h.closed k ((mem_of_perm hperm).mp hk) a ha)

theorem Invariant.rehash (h : Invariant env st) (byId : StratMap StrategyInfo)
    (folders : FolderMap) (edits : StratMap StrategyEdit) (staged : FolderMap) :
    Invariant env (st.rehash byId folders edits staged) := by
  unfold StratsState.rehash
  split
  · next hperm =>
    obtain ⟨hbyId, hfolders, hedits, hstaged⟩ := hperm
    exact {
      ids := ⟨h.ids.nodup, fun id => (h.ids.mem_order id).trans (mem_of_perm hbyId).symm,
        fun id s hs => (mem_of_perm hbyId).mpr (h.ids.known id s hs), h.ids.key⟩
      listed := ⟨h.listed.exact, fun id hid =>
        h.listed.listed id ((mem_of_perm hedits).mp hid)⟩
      folders := ⟨h.folders.tree.perm hfolders, fun id e he hne =>
        (mem_of_perm hfolders).mpr
          (h.folders.covers id e (by rw [← perm_lookup hbyId]; exact he) hne)⟩
      staged := by
        intro p hp
        obtain ⟨q, hq, rfl⟩ := map_eq_some_iff.mp hp
        exact (h.staged q hq).perm (hstaged q hq)
      retainedPaths := h.retainedPaths
      listedPaths := h.listedPaths
      sound := h.sound
      earliest := h.earliest.congr fun id => perm_lookup hedits }
  · exact h

/-! ## Runs -/

theorem Invariant.step (h : Invariant env st) (laws : env.Lowercases)
    {input : Input} (hrel : ∀ p ∈ input.paths env, Relative p) :
    Invariant env (st.step env input) := by
  cases input with
  | snapshot data => exact h.snapshot laws hrel
  | replaceFromCore snap => exact h.replaceFromCore laws hrel
  | replaceWith strategies =>
    exact Invariant.replaceWithSnapshots h.sound laws fun s hs => hrel _ (List.mem_map_of_mem hs)
  | serverOrder order date updateLocal => exact h.applyServerOrder order date updateLocal
  | serverFolders paths date => exact h.applyServerFolders laws hrel date
  | delete strategyId folderPath => exact h.applyDelete strategyId folderPath
  | checkedSync items => exact h.applyCheckedSync items
  | checkedEcho items => exact h.applyCheckedEcho items
  | stageLocal strategies submittedAt deadline =>
    exact h.stageLocalSnapshotBatch (fun s hs => hrel _ (List.mem_map_of_mem hs)) _ _
  | stageFolders paths nowMs => exact h.stageLocalFolders laws hrel nowMs
  | setChecked strategyId checked => exact h.setChecked strategyId checked
  | tick now => exact h.tickStrategyEditTimeouts now
  | schema parsed => exact h.applySchema parsed
  | payload => exact h.payload
  | rehash byId folders edits staged => exact h.rehash byId folders edits staged

theorem Invariant.run (h : Invariant env st) (laws : env.Lowercases)
    {inputs : List Input} (hrel : ∀ input ∈ inputs, ∀ p ∈ input.paths env, Relative p) :
    Invariant env (inputs.foldl (StratsState.step env) st) := by
  induction inputs generalizing st with
  | nil => exact h
  | cons input inputs ih =>
    exact ih (h.step laws (hrel input mem_cons_self)) fun i hi =>
      hrel i (mem_cons_of_mem _ hi)

theorem Listed.index_eq_empty {index : StratMap Nat} {edits : StratMap StrategyEdit}
    (h : Listed none index edits) : index = ∅ := by
  refine AList.ext ?_
  cases hentries : index.entries with
  | nil => rfl
  | cons e entries =>
    have hlookup : index.lookup e.1 = some e.2 :=
      mem_lookup_iff.mpr (by rw [hentries]; exact mem_cons_self)
    have hnil := (h.exact e.1 e.2).mp hlookup
    cases hnil

/-- **The invariant of the strategy state**, behind every sequence of inputs whose folder paths
do not begin with a slash. The first part says that no position of the local list was out of
range. The last two parts are about the folders: what lies above a folder is there, and so is
each folder that has a strategy in it or below it. -/
theorem strategy_state_consistent (env : StrategyEnv) (laws : env.Lowercases)
    (inputs : List Input) (hrel : ∀ input ∈ inputs, ∀ p ∈ input.paths env, Relative p) :
    let st := after env inputs
    st.panicked = false ∧ st.order.Nodup ∧ st.order.Perm st.byId.keys ∧
    (∀ id ∈ st.snapshotsById, id ∈ st.byId) ∧
    (∀ id i, st.localSnapshotIndex.lookup id = some i ↔
      ∃ s, (st.localSnapshots.getD [])[i]? = some s ∧ s.strategyId = id) ∧
    ((st.localSnapshots.getD []).map strategyId).Nodup ∧
    (st.localSnapshots = none → st.localSnapshotIndex = ∅) ∧
    (∀ id ∈ st.strategyEdits, ∃ s ∈ st.localSnapshots.getD [], s.strategyId = id) ∧
    (∀ d, st.nextStrategyEditDeadline = some d ↔ IsLeast (pendingDeadlines st.strategyEdits) d) ∧
    (st.nextStrategyEditDeadline = none ↔ pendingDeadlines st.strategyEdits = ∅) ∧
    (∀ k ∈ st.foldersByKey, ∀ parent rest, k = parent ++ 0x2F :: rest → parent ∈ st.foldersByKey) ∧
    ∀ id e key, st.byId.lookup id = some e → e.folderPath ≠ [] →
      isSameOrChildFolder (folderKey env e.folderPath) key = true → key ∈ st.foldersByKey := by
  intro st
  have h : Invariant env st := Invariant.empty.run laws hrel
  refine ⟨h.sound, h.ids.nodup, h.ids.order_perm, fun id hid => ?_, fun id i => ?_,
    h.listed.exact.nodup, fun hnone => ?_, fun id hid => ?_, h.earliest.least, h.earliest.none_iff,
    fun k hk parent rest hsplit => h.folders.tree.closed k hk parent (.inr ⟨rest, hsplit⟩),
    fun id e key he hne hchild => ?_⟩
  · obtain ⟨s, hs⟩ := isSome_iff_exists.mp (lookup_isSome.mpr hid)
    exact h.ids.known id s hs
  · refine (h.listed.exact id i).trans ?_
    unfold localIds
    rw [getElem?_map, map_eq_some_iff]
  · have hlisted := h.listed
    rw [hnone] at hlisted
    exact hlisted.index_eq_empty
  · exact List.mem_map.mp (h.listed.listed id hid)
  · exact h.folders.tree.closed _ (h.folders.covers id e he hne) key
      ((isSameOrChildFolder_iff _ _).mp hchild)

end StratsState

namespace StrategySample

theorem env_lowercases : env.Lowercases where
  parts := {
    append := fun a b => by
      change (a ++ 0x2F :: b).map _ = a.map _ ++ 0x2F :: b.map _
      rw [map_append, map_cons]
      rfl
    not_mem := fun a ha hmem => by
      obtain ⟨c, hc, hlower⟩ := List.mem_map.mp hmem
      split at hlower
      · next hupper =>
        have h := UInt8.toNat_inj.mpr hlower
        have h1 := UInt8.le_iff_toNat_le.mp hupper.1
        have h2 := UInt8.le_iff_toNat_le.mp hupper.2
        rw [UInt8.toNat_add] at h
        change 65 ≤ c.toNat at h1
        change c.toNat ≤ 90 at h2
        change (c.toNat + 32) % 256 = 47 at h
        omega
      · rw [hlower] at hc
        exact ha hc }

/-- Two strategies of the core, an edit of the first and a new strategy, then the second one is
deleted with its folder. -/
def edited : List StratsState.Input :=
  [.schema (some schema),
    .snapshot ((StrategyBatchBuilder.ofList env schema [first, second]).finalize env),
    .stageLocal [{ first with strategyVer := 2, path := [0x61, 0x2F, 0x63] },
      { second with strategyId := 12 }] 5 20,
    .delete 11 [0x62], .tick 30]

theorem strategy_state_consistent_edited :
    (StratsState.after env edited).order.Perm (StratsState.after env edited).byId.keys ∧
      (StratsState.after env edited).order = [10] ∧
      (StratsState.after env edited).strategyEdits.keys.length = 2 ∧
      (StratsState.after env edited).foldersByKey.keys = [[0x61]] :=
  ⟨(StratsState.strategy_state_consistent env env_lowercases edited (by decide +kernel)).2.2.1,
    by decide +kernel, by decide +kernel, by decide +kernel⟩

end StrategySample

end MoonProto
