import Mathlib.Data.List.Induction
import MoonProto.Lib.PathTree
import MoonProto.State.StratsDecode

/-!
# The folder tree of the strategy state

The keys of the folder map are paths in lower case. The map stays closed under the folders
above its keys: adding a path adds everything above it, deleting one deletes everything below
it. A folder with a strategy in it or below it is not deleted, so the folder of each strategy
stays. Paths that begin with a slash are outside of this: `add_folder_path` enters `/a` as an
empty folder and `a`.
-/

namespace MoonProto

open List AList

open PathTree (Within)

/-- What `str::to_lowercase` does to a path: the parts between the slashes are mapped one by one,
and no slash comes up in one. -/
structure StrategyEnv.Lowercases (env : StrategyEnv) : Prop where
  parts : PathTree.Respects 0x2F env.toLowercase

/-- A path that does not begin with a slash. -/
def Relative (path : Text) : Prop := path.head? ≠ some 0x2F

instance : DecidablePred Relative := fun _ => inferInstanceAs (Decidable (_ ≠ _))

theorem Relative.of_within {a p : Text} (hp : Relative p) (ha : Within 0x2F a p) : Relative a := by
  rcases ha with rfl | ⟨b, rfl⟩
  · exact hp
  · cases a with
    | nil => exact absurd rfl hp
    | cons x a => exact hp

theorem Relative.ne_nil_of_within {a p : Text} (hp : Relative p) (hne : p ≠ [])
    (ha : Within 0x2F a p) : a ≠ [] := by
  rintro rfl
  rcases ha with h | ⟨b, rfl⟩
  · exact hne h
  · exact hp rfl

namespace StratsState

variable {env : StrategyEnv} {folders : FolderMap} {path : Text}

/-! ## Adding a path -/

theorem addPart_snd (acc : Text × FolderMap) (part : Text) : (addPart env acc part).2 =
      if folderKey env (addPart env acc part).1 ∈ acc.2 then acc.2
      else acc.2.insert (folderKey env (addPart env acc part).1) (addPart env acc part).1 := rfl

theorem addPart_mem (acc : Text × FolderMap) (part k : Text) :
    k ∈ (addPart env acc part).2 ↔ k ∈ acc.2 ∨ folderKey env (addPart env acc part).1 = k := by
  rw [addPart_snd]
  split
  · next hmem =>
    constructor
    · exact .inl
    · rintro (h | rfl)
      · exact h
      · exact hmem
  · rw [AList.mem_insert, or_comm, eq_comm (a := k)]

theorem addPart_lookup {acc : Text × FolderMap} {part k v : Text}
    (h : (addPart env acc part).2.lookup k = some v) :
    acc.2.lookup k = some v ∨ (folderKey env v = k ∧ v = (addPart env acc part).1) := by
  rw [addPart_snd] at h
  split at h
  · exact .inl h
  by_cases hk : k = folderKey env (addPart env acc part).1
  · subst hk
    rw [lookup_insert] at h
    obtain rfl := Option.some_inj.mp h
    exact .inr ⟨rfl, rfl⟩
  · rw [lookup_insert_ne hk] at h
    exact .inl h

/-- What the parts of a path add: the path and the folders above it. -/
theorem foldl_addPart {first : Text} (hfirst : first ≠ []) (hslash : 0x2F ∉ first)
    (folders : FolderMap) (parts : List Text) (hparts : ∀ part ∈ parts, 0x2F ∉ part) :
    ((first :: parts).foldl (addPart env) ([], folders)).1 = PathTree.join 0x2F first parts ∧
    (∀ k, k ∈ ((first :: parts).foldl (addPart env) ([], folders)).2 ↔ k ∈ folders ∨
      ∃ a, Within 0x2F a (PathTree.join 0x2F first parts) ∧ folderKey env a = k) ∧
    ∀ k v, ((first :: parts).foldl (addPart env) ([], folders)).2.lookup k = some v →
      folders.lookup k = some v ∨
        (folderKey env v = k ∧ Within 0x2F v (PathTree.join 0x2F first parts)) := by
  induction parts using reverseRecOn with
  | nil =>
    have hjoin : PathTree.join 0x2F first [] = first := append_nil first
    rw [hjoin]
    refine ⟨rfl, fun k => ?_, fun k v h => ?_⟩
    · simp only [PathTree.within_iff_of_not_mem hslash, exists_eq_left]
      exact addPart_mem ([], folders) first k
    · have hpart : (addPart env ([], folders) first).2.lookup k = some v := h
      rcases addPart_lookup hpart with h | ⟨hkey, rfl⟩
      · exact .inl h
      · exact .inr ⟨hkey, Within.refl _⟩
  | append_singleton parts part ih =>
    have hpart := hparts part (mem_append_right parts mem_cons_self)
    obtain ⟨hcurrent, hmem, hlookup⟩ := ih fun p hp => hparts p (mem_append_left _ hp)
    rw [← cons_append, foldl_append, PathTree.join_snoc]
    generalize (first :: parts).foldl (addPart env) ([], folders) = acc at hcurrent hmem hlookup ⊢
    have hnext : (addPart env acc part).1 = PathTree.join 0x2F first parts ++ 0x2F :: part := by
      have hne : acc.1.isEmpty = false := by
        rw [hcurrent]
        cases first with
        | nil => exact absurd rfl hfirst
        | cons x first => rfl
      unfold addPart
      rw [hne, hcurrent]
      rfl
    refine ⟨hnext, fun k => ?_, fun k v h => ?_⟩
    · simp only [PathTree.within_append_iff hpart, or_and_right, exists_or, exists_eq_left]
      rw [show [part].foldl (addPart env) acc = addPart env acc part from rfl, addPart_mem, hmem,
        hnext, or_assoc, or_comm (b := folderKey env _ = k)]
    · rcases addPart_lookup h with h | ⟨hkey, hv⟩
      · rcases hlookup k v h with h | ⟨hkey, hv⟩
        · exact .inl h
        · exact .inr ⟨hkey, (PathTree.within_append_iff hpart).mpr (.inr hv)⟩
      · rw [hnext] at hv
        exact .inr ⟨hkey, .inl hv.symm⟩

/-- A folder map that is closed under the folders above its keys. -/
structure FolderTree (env : StrategyEnv) (folders : FolderMap) : Prop where
  key : ∀ k v, folders.lookup k = some v → folderKey env v = k
  relative : ∀ k v, folders.lookup k = some v → Relative v ∧ v ≠ []
  closed : ∀ k ∈ folders, ∀ a, Within 0x2F a k → a ∈ folders

theorem FolderTree.empty : FolderTree env ∅ where
  key k v h := by
    rw [lookup_empty] at h
    cases h
  relative k v h := by
    rw [lookup_empty] at h
    cases h
  closed k h := absurd h (notMem_empty k)

theorem first_ne_nil {first : Text} {parts : List Text}
    (hrel : Relative (PathTree.join 0x2F first parts))
    (hne : PathTree.join 0x2F first parts ≠ []) : first ≠ [] := by
  rintro rfl
  cases parts with
  | nil => exact hne rfl
  | cons part parts => exact hrel rfl

/-- The folders with a path: what was there, the path and everything above it. -/
theorem FolderTree.mem_addFolderPath (h : FolderTree env folders)
    (laws : env.Lowercases) (hrel : Relative path) (k : Text) :
    k ∈ (addFolderPath env folders path).2 ↔
      k ∈ folders ∨ (path ≠ [] ∧ Within 0x2F k (folderKey env path)) := by
  unfold addFolderPath
  by_cases hpath : path = []
  · subst hpath
    simp
  · have hempty : path.isEmpty = false := by
      cases path with
      | nil => exact absurd rfl hpath
      | cons x path => rfl
    by_cases hmem : folderKey env path ∈ folders
    · rw [if_pos (by simp [hmem])]
      constructor
      · exact .inl
      · rintro (hk | ⟨-, hk⟩)
        · exact hk
        · exact h.closed _ hmem k hk
    · rw [if_neg (by simp [hempty, hmem])]
      obtain ⟨first, parts, hsplit, rfl, hfirst, hparts⟩ := PathTree.splitOn_eq_join 0x2F path
      dsimp only
      rw [hsplit, (foldl_addPart (first_ne_nil hrel hpath) hfirst folders parts hparts).2.1 k]
      exact or_congr_right
        ⟨fun hk => ⟨hpath, laws.parts.within_iff.mpr hk⟩, fun hk => laws.parts.within_iff.mp hk.2⟩

theorem FolderTree.addFolderPath (h : FolderTree env folders)
    (laws : env.Lowercases) (hrel : Relative path) :
    FolderTree env (addFolderPath env folders path).2 := by
  have hlookup : ∀ k v, (StratsState.addFolderPath env folders path).2.lookup k = some v →
      folders.lookup k = some v ∨
        (path ≠ [] ∧ folderKey env v = k ∧ Within 0x2F v path) := by
    intro k v hv
    unfold StratsState.addFolderPath at hv
    split at hv
    · exact .inl hv
    next hnew =>
    have hpath : path ≠ [] := by
      rintro rfl
      exact hnew rfl
    obtain ⟨first, parts, hsplit, rfl, hfirst, hparts⟩ := PathTree.splitOn_eq_join 0x2F path
    rw [hsplit] at hv
    rcases (foldl_addPart (first_ne_nil hrel hpath) hfirst folders parts hparts).2.2 k v hv
      with hold | hnew
    · exact .inl hold
    · exact .inr ⟨hpath, hnew⟩
  refine ⟨fun k v hv => ?_, fun k v hv => ?_, fun k hk a ha => ?_⟩
  · rcases hlookup k v hv with hold | ⟨-, hkey, -⟩
    · exact h.key k v hold
    · exact hkey
  · rcases hlookup k v hv with hold | ⟨hpath, -, hwithin⟩
    · exact h.relative k v hold
    · exact ⟨hrel.of_within hwithin, hrel.ne_nil_of_within hpath hwithin⟩
  · rw [h.mem_addFolderPath laws hrel] at hk ⊢
    rcases hk with hk | ⟨hpath, hk⟩
    · exact .inl (h.closed k hk a ha)
    · exact .inr ⟨hpath, ha.trans hk⟩

variable {paths : List Text}

theorem FolderTree.addFolderPaths (h : FolderTree env folders)
    (laws : env.Lowercases) (hrel : ∀ p ∈ paths, Relative p) :
    FolderTree env (addFolderPaths env folders paths) := by
  induction paths generalizing folders with
  | nil => exact h
  | cons path paths ih =>
    exact ih (h.addFolderPath laws (hrel path mem_cons_self)) fun p hp =>
      hrel p (mem_cons_of_mem _ hp)

theorem FolderTree.mem_addFolderPaths (h : FolderTree env folders)
    (laws : env.Lowercases) (hrel : ∀ p ∈ paths, Relative p) (k : Text) :
    k ∈ StratsState.addFolderPaths env folders paths ↔
      k ∈ folders ∨ ∃ p ∈ paths, p ≠ [] ∧ Within 0x2F k (folderKey env p) := by
  induction paths generalizing folders with
  | nil => simp [StratsState.addFolderPaths]
  | cons p paths ih =>
    have hp := hrel p mem_cons_self
    refine (ih (h.addFolderPath laws hp) fun q hq => hrel q (mem_cons_of_mem _ hq)).trans ?_
    rw [h.mem_addFolderPath laws hp, or_assoc]
    simp only [mem_cons, exists_eq_or_imp]

theorem sameFolders_iff {a b : FolderMap} (h : sameFolders a b = true) (k : Text) :
    k ∈ a ↔ k ∈ b := by
  unfold sameFolders at h
  rw [Bool.and_eq_true, beq_iff_eq, List.all_eq_true] at h
  have hsub : a.keys ⊆ b.keys := by
    intro k hk
    have hmem : k ∈ b := by simpa using h.2 k hk
    exact hmem
  have hperm := (a.keys_nodup.subperm hsub).perm_of_length_le (Nat.le_of_eq h.1.symm)
  exact hperm.mem_iff

/-! ## Deleting a folder -/

theorem isSameOrChildFolder_iff (candidateKey key : Text) :
    isSameOrChildFolder candidateKey key = true ↔ Within 0x2F key candidateKey := by
  unfold isSameOrChildFolder Within
  rw [Bool.or_eq_true, beq_iff_eq, isPrefixOf_iff_prefix]
  refine or_congr_right ⟨?_, ?_⟩
  · rintro ⟨b, rfl⟩
    exact ⟨b, by rw [append_assoc]; rfl⟩
  · rintro ⟨b, rfl⟩
    exact ⟨b, by rw [append_assoc]; rfl⟩

theorem lookup_foldl_erase (keys : List Text) (folders : FolderMap) (k : Text) :
    (keys.foldl (fun m k => m.erase k) folders).lookup k =
      if k ∈ keys then none else folders.lookup k := by
  induction keys generalizing folders with
  | nil => simp
  | cons key keys ih =>
    rw [foldl_cons, ih]
    by_cases hkey : k = key
    · subst hkey
      simp [lookup_erase]
    · simp [lookup_erase_ne hkey, hkey]

/-- The folders without one of them and everything below it. -/
def withoutFolder (folders : FolderMap) (key : Text) : FolderMap :=
  (folders.keys.filter fun k => isSameOrChildFolder k key).foldl (fun m k => m.erase k) folders

theorem lookup_withoutFolder (folders : FolderMap) (key k : Text) :
    (withoutFolder folders key).lookup k =
      if isSameOrChildFolder k key then none else folders.lookup k := by
  unfold withoutFolder
  rw [lookup_foldl_erase]
  by_cases hchild : isSameOrChildFolder k key = true
  · rw [if_pos hchild]
    split
    · rfl
    · next h => exact AList.lookup_eq_none.mpr fun hk => h (mem_filter.mpr ⟨hk, hchild⟩)
  · rw [if_neg hchild]
    split
    · next h => exact absurd (mem_filter.mp h).2 hchild
    · rfl

theorem mem_withoutFolder {key k : Text} :
    k ∈ withoutFolder folders key ↔ k ∈ folders ∧ ¬Within 0x2F key k := by
  rw [← lookup_isSome, lookup_withoutFolder, ← isSameOrChildFolder_iff]
  split
  · next h => simp [h]
  · next h => simp [h, lookup_isSome]

theorem FolderTree.withoutFolder (h : FolderTree env folders) (key : Text) :
    FolderTree env (withoutFolder folders key) := by
  have hlookup : ∀ k v, (StratsState.withoutFolder folders key).lookup k = some v →
      folders.lookup k = some v := by
    intro k v hv
    rw [lookup_withoutFolder] at hv
    split at hv
    · cases hv
    · exact hv
  refine ⟨fun k v hv => h.key k v (hlookup k v hv),
    fun k v hv => h.relative k v (hlookup k v hv), fun k hk a ha => ?_⟩
  rw [mem_withoutFolder] at hk ⊢
  exact ⟨h.closed k hk.1 a ha, fun hkey => hk.2 (hkey.trans ha)⟩

/-! ## The folders of the entries -/

/-- The folder map is a tree with the folder of every entry. -/
structure Folders (env : StrategyEnv) (byId : StratMap StrategyInfo) (folders : FolderMap) :
    Prop where
  tree : FolderTree env folders
  covers : ∀ id e, byId.lookup id = some e → e.folderPath ≠ [] →
    folderKey env e.folderPath ∈ folders

theorem Folders.addFolderPath {byId : StratMap StrategyInfo}
    (h : Folders env byId folders) (laws : env.Lowercases) (hrel : Relative path) :
    Folders env byId (addFolderPath env folders path).2 where
  tree := h.tree.addFolderPath laws hrel
  covers id e he hne := (h.tree.mem_addFolderPath laws hrel _).mpr (.inl (h.covers id e he hne))

theorem Folders.withoutFolder {st : StratsState} (h : Folders env st.byId st.foldersByKey)
    {key : Text} (hempty : st.folderHasStrategies env key = false) :
    Folders env st.byId (withoutFolder st.foldersByKey key) where
  tree := h.tree.withoutFolder key
  covers id e he hne := by
    refine mem_withoutFolder.mpr ⟨h.covers id e he hne, fun hwithin => ?_⟩
    unfold folderHasStrategies at hempty
    rw [List.any_eq_false] at hempty
    exact hempty _ (AList.mem_lookup_iff.mp he) ((isSameOrChildFolder_iff _ _).mpr hwithin)

theorem deleteFolderByPath_cases (env : StrategyEnv) (st : StratsState) (path : Text) :
    (st.deleteFolderByPath env path).2 = st ∨
      (st.folderHasStrategies env (folderKey env path) = false ∧
        (st.deleteFolderByPath env path).2 = { st with
          foldersByKey := withoutFolder st.foldersByKey (folderKey env path)
          snapshotPayloadCache := none }) := by
  unfold deleteFolderByPath
  dsimp only
  split
  · exact .inl rfl
  split
  · exact .inl rfl
  split
  · exact .inl rfl
  · next h => exact .inr ⟨Bool.eq_false_iff.mpr h, rfl⟩

/-- A step that changes the folders and the cached payload at most, and keeps the folder of
every entry. -/
structure FolderStep (env : StrategyEnv) (st st' : StratsState) : Prop where
  frame : st' = { st with
    foldersByKey := st'.foldersByKey, snapshotPayloadCache := st'.snapshotPayloadCache }
  keeps : Folders env st.byId st.foldersByKey → Folders env st.byId st'.foldersByKey

theorem FolderStep.refl (st : StratsState) : FolderStep env st st := ⟨rfl, id⟩

theorem FolderStep.trans {a b c : StratsState} (hab : FolderStep env a b)
    (hbc : FolderStep env b c) : FolderStep env a c := by
  have hbyId : b.byId = a.byId := by rw [hab.frame]
  refine ⟨?_, fun h => ?_⟩
  · rw [hbc.frame, hab.frame]
  · rw [← hbyId] at h ⊢
    refine hbc.keeps ?_
    rw [hbyId] at h ⊢
    exact hab.keeps h

theorem FolderStep.foldl {α : Type} {f : StratsState → α → StratsState} {P : α → Prop}
    (hf : ∀ st a, P a → FolderStep env st (f st a)) :
    ∀ (as : List α) (st : StratsState), (∀ a ∈ as, P a) → FolderStep env st (as.foldl f st)
  | [], st, _ => FolderStep.refl st
  | a :: as, st, h =>
    (hf st a (h a mem_cons_self)).trans
      (FolderStep.foldl hf as (f st a) fun b hb => h b (mem_cons_of_mem _ hb))

theorem createFoldersForPath_step (laws : env.Lowercases) (st : StratsState)
    (hrel : Relative path) : FolderStep env st (st.createFoldersForPath env path) := by
  rw [createFoldersForPath_eq]
  exact ⟨rfl, fun h => h.addFolderPath laws hrel⟩

theorem deleteFolderByPath_step (st : StratsState) (path : Text) :
    FolderStep env st (st.deleteFolderByPath env path).2 := by
  rcases deleteFolderByPath_cases env st path with h | ⟨hempty, h⟩
  · rw [h]
    exact FolderStep.refl st
  · rw [h]
    exact ⟨rfl, fun hst => hst.withoutFolder hempty⟩

/-- What the folders of the core change: nothing, or the folders, their date, the staged
folders that they answer, and the cached payload. -/
theorem applyServerFolders_cases (laws : env.Lowercases) (st : StratsState)
    (hrel : ∀ p ∈ paths, Relative p) (date : Int) :
    st.applyServerFolders env paths date = st ∨ ∃ folders,
      (Folders env st.byId st.foldersByKey → Folders env st.byId folders) ∧
      st.applyServerFolders env paths date = { st with
        foldersByKey := folders
        foldersLastModified := date
        localFolders := if st.localFolders.any fun p => decide (p.1 ≤ date) then none
          else st.localFolders
        snapshotPayloadCache := none } := by
  unfold applyServerFolders
  split
  · exact .inl rfl
  refine .inr ?_
  have hadd := FolderStep.foldl (fun st _ => createFoldersForPath_step laws st) paths st hrel
  generalize paths.foldl (createFoldersForPath env) st = st₁ at hadd ⊢
  have hdel : FolderStep env st₁ (st₁.deleteFolders env ((st₁.foldersByKey.entries.filter
      fun e => decide (e.1 ∉ StratsState.addFolderPaths env ∅ paths)).map Sigma.snd)) :=
    FolderStep.foldl (P := fun _ => True) (fun st path _ => deleteFolderByPath_step st path) _ _
      fun _ _ => trivial
  have hboth := hadd.trans hdel
  dsimp only
  generalize st₁.deleteFolders env _ = st₂ at hboth ⊢
  refine ⟨st₂.foldersByKey, hboth.keeps, ?_⟩
  rw [hboth.frame]
  dsimp only
  split
  · rfl
  · rfl

end StratsState

end MoonProto
