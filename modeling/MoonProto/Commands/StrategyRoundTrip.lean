import MoonProto.Commands.StrategyFormat

/-!
# The strategy serializer round trip

What the reader stores of a strategy is less than what the strategy had, but it stands for the
same values: a field that was left out has the value that the reader assumes for it. Doubles
and singles within `1e-10` of zero or of the default count as equal to it.
-/

namespace MoonProto

open Codec List Option

/-! ## Effective values -/

namespace FieldValue

/-- A value that was read stands for the one that was written: it is the same, or both are
doubles or singles that the writer takes for equal. -/
def Agrees (env : StrategyEnv) (v p : FieldValue) : Prop :=
  v = p ∨
    match v, p with
    | double a, double b => (env.tiny64 a ∧ b = 0) ∨ env.tiny64 (env.f64.sub a b)
    | single a, single b => (env.tiny32 a ∧ b = 0) ∨ env.tiny32 (env.f32.sub a b)
    | _, _ => False

theorem agrees_zeroOf {env : StrategyEnv} {v : FieldValue} (h : v.isZero env) :
    v.Agrees env v.zeroOf := by
  cases v with
  | double v => exact .inr (.inl ⟨h, rfl⟩)
  | single v => exact .inr (.inl ⟨h, rfl⟩)
  | bool v => exact .inl (congrArg bool (by simpa [isZero] using h))
  | string v => exact .inl (congrArg string (List.isEmpty_iff.mp h))
  | int32 v => exact .inl (congrArg int32 (eq_of_beq h))
  | int64 v => exact .inl (congrArg int64 (eq_of_beq h))
  | byte v => exact .inl (congrArg byte (eq_of_beq h))
  | word v => exact .inl (congrArg word (eq_of_beq h))
  | uint32 v => exact .inl (congrArg uint32 (eq_of_beq h))
  | uint64 v => exact .inl (congrArg uint64 (eq_of_beq h))

theorem agrees_written (env : StrategyEnv) (v : FieldValue) : v.Agrees env (v.written env) := by
  unfold written
  split
  · next h => exact agrees_zeroOf h
  · exact .inl rfl

theorem agrees_of_equalsDelphi {env : StrategyEnv} {v d : FieldValue} {t : UInt8}
    (h : v.equalsDelphiValueForTypeId env d t) : v.Agrees env d := by
  unfold equalsDelphiValueForTypeId at h
  split at h
  · cases h
  split at h
  · exact .inr (.inr h)
  · exact .inr (.inr h)
  · exact .inl (eq_of_beq h)

end FieldValue

/-- The value of a field: what is stored, else the default, else zero. -/
def StrategySchemaField.effective (f : StrategySchemaField) (fields : StrategyFields) :
    Option FieldValue :=
  (fields.get f.name).or (f.defaultValue.or (FieldValue.zeroForTypeId f.rawTypeId))

/-- The strategy `p` that was read stands for the strategy `s` that was written. -/
structure StrategySnapshot.ReadsBack (env : StrategyEnv) (schema : StrategySchema)
    (s p : StrategySnapshot) : Prop where
  strategyId : p.strategyId = s.strategyId
  strategyVer : p.strategyVer = s.strategyVer
  lastDate : p.lastDate = s.lastDate
  checked : p.checked = s.checked
  kind : p.kind = s.kind
  path : p.path = s.path
  /-- The effective value of every visible field, unless the strategy stores one of another
  type under its name. -/
  values : ∀ f ∈ schema.fields, f.visibleForKind s.kind →
    (∀ v, s.fields.get f.name = some v → v.matchesTypeId f.rawTypeId) →
    ∃ v w, f.effective s.fields = some v ∧ f.effective p.fields = some w ∧ v.Agrees env w
  /-- Nothing else is there: what was read is known to the schema, visible for the kind and of
  the type of the schema. -/
  known : ∀ name w, p.fields.get name = some w → ∃ f ∈ schema.fields, f.name = name ∧
    f.visibleForKind s.kind ∧ ∃ v, s.fields.get name = some v ∧ v.matchesTypeId f.rawTypeId

theorem StrategyFields.get_eq_some {fields : StrategyFields}
    (h : (fields.map Prod.fst).Nodup) {name : Text} {v : FieldValue} :
    fields.get name = some v ↔ (name, v) ∈ fields := by
  unfold StrategyFields.get
  constructor
  · intro hget
    obtain ⟨p, hp, rfl⟩ := map_eq_some_iff.mp hget
    have hname : (p.1 == name) = true :=
      find?_some (p := fun f : Text × FieldValue => f.1 == name) hp
    rw [← eq_of_beq hname]
    exact mem_of_find?_eq_some hp
  · intro hmem
    have hsome : (fields.find? fun f => f.1 == name).isSome :=
      find?_isSome.mpr ⟨_, hmem, beq_self_eq_true name⟩
    obtain ⟨p, hp⟩ := isSome_iff_exists.mp hsome
    have hname : (p.1 == name) = true :=
      find?_some (p := fun f : Text × FieldValue => f.1 == name) hp
    have heq : p = (name, v) :=
      inj_on_of_nodup_map h (mem_of_find?_eq_some hp) hmem (eq_of_beq hname)
    rw [hp, heq]
    rfl

namespace StrategyBatchBuilder

variable {env : StrategyEnv} {schema : StrategySchema}

theorem fieldByName_of_mem (hnames : (schema.fields.map StrategySchemaField.name).Nodup)
    {f : StrategySchemaField} (hf : f ∈ schema.fields) :
    ∃ i, fieldByName schema.fields f.name = some (i, f) := by
  obtain ⟨i, hi, rfl⟩ := mem_iff_getElem.mp hf
  have hmem : (schema.fields[i], i) ∈ schema.fields.zipIdx.reverse :=
    mem_reverse.mpr (mem_zipIdx_iff_getElem?.mpr (getElem?_eq_getElem hi))
  have hsome : (schema.fields.zipIdx.reverse.find?
      fun p => p.1.name == schema.fields[i].name).isSome :=
    find?_isSome.mpr ⟨_, hmem, beq_self_eq_true _⟩
  obtain ⟨p, hp⟩ := isSome_iff_exists.mp hsome
  have hfound : fieldByName schema.fields schema.fields[i].name = some (p.2, p.1) := by
    unfold fieldByName
    rw [hp]
    rfl
  obtain ⟨hin, hname⟩ := fieldByName_some hfound
  have heq : p.1 = schema.fields[i] := inj_on_of_nodup_map hnames hin hf hname
  exact ⟨p.2, heq ▸ hfound⟩

theorem parsed_get (hschema : schema.WellFormed) {s : StrategySnapshot}
    (hs : s.Writable) {name : Text} {w : FieldValue} :
    (s.parsed env schema).fields.get name = some w ↔ ∃ f ∈ schema.fields, f.name = name ∧
      f.visibleForKind s.kind ∧ ∃ v, s.fields.get name = some v ∧
        strategySchemaFieldShouldWrite env f v ∧ w = v.written env := by
  have hnodup : ((s.parsed env schema).fields.map Prod.fst).Nodup := by
    show ((parsedFields env (fieldsToWrite env schema.fields s)).map Prod.fst).Nodup
    unfold parsedFields
    rw [List.map_map]
    exact fieldsToWrite_nodup env schema.fields hs.names
  rw [StrategyFields.get_eq_some hnodup]
  constructor
  · intro hmem
    obtain ⟨e, he, heq⟩ := List.mem_map.mp hmem
    obtain ⟨rfl, rfl⟩ := Prod.mk.inj heq
    obtain ⟨hstored, hfound, hvis, hwrite⟩ := mem_fieldsToWrite.mp he
    exact ⟨e.2.1, (fieldByName_some hfound).1, rfl, hvis, e.2.2,
      (StrategyFields.get_eq_some hs.names).mpr hstored, hwrite, rfl⟩
  · rintro ⟨f, hf, rfl, hvis, v, hget, hwrite, rfl⟩
    obtain ⟨i, hi⟩ := fieldByName_of_mem hschema.names hf
    exact List.mem_map.mpr ⟨(i, f, v), mem_fieldsToWrite.mpr
      ⟨(StrategyFields.get_eq_some hs.names).mp hget, hi, hvis, hwrite⟩, rfl⟩

/-- A value that is not written is the one that the reader assumes. -/
theorem agrees_of_not_shouldWrite (hschema : schema.WellFormed) {f : StrategySchemaField}
    (hf : f ∈ schema.fields) {v : FieldValue} (htype : v.matchesTypeId f.rawTypeId)
    (h : ¬ strategySchemaFieldShouldWrite env f v) :
    ∃ w, f.defaultValue.or (FieldValue.zeroForTypeId f.rawTypeId) = some w ∧ v.Agrees env w := by
  unfold strategySchemaFieldShouldWrite at h
  rw [htype] at h
  cases hdefault : f.defaultValue with
  | some d =>
    rw [hdefault] at h
    refine ⟨d, rfl, FieldValue.agrees_of_equalsDelphi (t := f.rawTypeId) ?_⟩
    simpa using h
  | none =>
    rw [hdefault] at h
    have hzero : v.isZeroForTypeId env f.rawTypeId := by simpa using h
    refine ⟨v.zeroOf, ?_, FieldValue.agrees_zeroOf (Bool.and_eq_true_iff.mp hzero).2⟩
    rw [none_or, ← typeId_of_shouldWrite hschema hf htype, v.zeroForTypeId_typeId]

theorem readsBack_parsed (hschema : schema.WellFormed) {s : StrategySnapshot}
    (hs : s.Writable) : s.ReadsBack env schema (s.parsed env schema) where
  strategyId := rfl
  strategyVer := rfl
  lastDate := rfl
  checked := rfl
  kind := rfl
  path := rfl
  values := by
    intro f hf hvis htyped
    cases hget : s.fields.get f.name with
    | none =>
      -- nothing stored, so nothing is written and both sides take the default
      have hnone : (s.parsed env schema).fields.get f.name = none := by
        by_contra hsome
        obtain ⟨w, hw⟩ := ne_none_iff_exists'.mp hsome
        obtain ⟨-, -, -, -, v, hv, -⟩ := (parsed_get hschema hs).mp hw
        rw [hget] at hv
        cases hv
      have hsome : (f.defaultValue.or (FieldValue.zeroForTypeId f.rawTypeId)).isSome := by
        cases f.defaultValue with
        | some d => rfl
        | none =>
          exact (by decide +kernel : ∀ t ∈ knownTypeIds, (FieldValue.zeroForTypeId t).isSome) _
            (hschema.types f hf)
      obtain ⟨w, hw⟩ := isSome_iff_exists.mp hsome
      refine ⟨w, w, ?_, ?_, .inl rfl⟩
      · rw [StrategySchemaField.effective, hget, none_or, hw]
      · rw [StrategySchemaField.effective, hnone, none_or, hw]
    | some v =>
      have heff : f.effective s.fields = some v := by
        rw [StrategySchemaField.effective, hget, some_or]
      by_cases hwrite : strategySchemaFieldShouldWrite env f v = true
      · have hparsed := (parsed_get hschema hs).mpr ⟨f, hf, rfl, hvis, v, hget, hwrite, rfl⟩
        refine ⟨v, v.written env, heff, ?_, FieldValue.agrees_written env v⟩
        rw [StrategySchemaField.effective, hparsed, some_or]
      · obtain ⟨w, hw, hagrees⟩ := agrees_of_not_shouldWrite hschema hf (htyped v hget) hwrite
        have hnone : (s.parsed env schema).fields.get f.name = none := by
          by_contra hsome
          obtain ⟨u, hu⟩ := ne_none_iff_exists'.mp hsome
          obtain ⟨g, hg, hname, -, v', hv', hwrite', -⟩ := (parsed_get hschema hs).mp hu
          obtain rfl : g = f := inj_on_of_nodup_map hschema.names hg hf hname
          obtain rfl : v = v' := some_inj.mp (hget.symm.trans hv')
          exact hwrite hwrite'
        refine ⟨v, w, heff, ?_, hagrees⟩
        rw [StrategySchemaField.effective, hnone, none_or, hw]
  known := by
    intro name w hw
    obtain ⟨f, hf, hname, hvis, v, hv, hwrite, -⟩ := (parsed_get hschema hs).mp hw
    exact ⟨f, hf, hname, hvis, v, hv, matchesTypeId_of_shouldWrite hwrite⟩

/-- The builder after a list of strategies. -/
def ofList (env : StrategyEnv) (schema : StrategySchema) (ss : List StrategySnapshot) :
    StrategyBatchBuilder :=
  ss.foldl (writeStrategy env) (new schema)

/-- The dictionaries can be numbered and the batch can be inflated. -/
structure Fits (b : StrategyBatchBuilder) : Prop where
  names : b.nameDict.entries.length ≤ 65535
  paths : b.pathDict.entries.length ≤ 65535
  size : (plainStrategyBatch b.nameDict.entries b.pathDict.entries b.body b.count).length
    ≤ StrategyEnv.maxInflateOutputSize

/-- **Serializer round trip.** If inflating undoes deflating, then what the builder writes for
a list of strategies within the limits of the format is parsed, with the same schema, to the
same strategies in the same order: the headers are equal, the effective values of the visible
fields agree, and no other field is there. -/
theorem strategies_read_back (env : StrategyEnv) (schema : StrategySchema)
    (ss : List StrategySnapshot) (hinflate : ∀ p, env.inflate (env.deflate p) = some p)
    (hschema : schema.WellFormed) (hss : ∀ s ∈ ss, s.Writable)
    (hcount : ss.length ≤ 65535) (hfits : (ofList env schema ss).Fits) :
    ∃ batch, parseStrategyBatch env (some schema.fieldTypes) ((ofList env schema ss).finalize env)
        = some batch ∧
      Forall₂ (StrategySnapshot.ReadsBack env schema) ss batch.strategies := by
  have hwrote : Wrote env schema ss [] (ofList env schema ss) := (wrote_new env schema).writeAll ss
  refine ⟨_, parse_finalize hinflate hschema hss (fun u hu => absurd hu not_mem_nil) hwrote
    hcount hfits.names hfits.paths hfits.size, ?_⟩
  rw [List.forall₂_map_right_iff, List.forall₂_same]
  exact fun s hs => readsBack_parsed hschema (hss s hs)

end StrategyBatchBuilder

/-! ## A batch of two -/

namespace StrategySample

/-- Uncompressed payloads, ASCII names, and whole numbers in place of doubles and singles. -/
def env : StrategyEnv where
  toLowercase := List.map fun c => if 0x41 ≤ c ∧ c ≤ 0x5A then c + 0x20 else c
  deflate := id
  inflate := some
  f64 := (OrderEnv.words OrderEnv.castagnoli).f64
  f64Eq := fun a b => a == b
  f32 := (OrderEnv.words OrderEnv.castagnoli).f32
  f32Eq := fun a b => a == b

/-- A number `N` with default 7 and a text `T`, both for kinds 1 and 2. -/
def schema : StrategySchema where
  fields :=
    [⟨[0x4E], tidInt32, some (.int32 7), [1, 2], 6⟩, ⟨[0x54], tidString, none, [1, 2], 6⟩]

/-- A strategy in the folder `a` with a text and a number equal to the default. -/
def first : StrategySnapshot :=
  ⟨10, 1, 100, true, 1, [0x61], [([0x54], .string [0x78]), ([0x4E], .int32 7)]⟩

/-- A strategy in the folder `b` with a number that is zero and an unknown field. -/
def second : StrategySnapshot :=
  ⟨11, 2, 90, false, 2, [0x62], [([0x4E], .int32 0), ([0x55], .bool true)]⟩

theorem schema_wellFormed : schema.WellFormed where
  names := by decide
  texts := by
    intro f hf
    simp only [schema, mem_cons, not_mem_nil, or_false] at hf
    rcases hf with rfl | rfl
    · exact ⟨by decide, rfl⟩
    · exact ⟨by decide, rfl⟩
  types := by decide

theorem first_writable : first.Writable where
  path := ⟨by decide, rfl⟩
  names := by decide
  values := by
    intro p hp
    simp only [first, mem_cons, not_mem_nil, or_false] at hp
    rcases hp with rfl | rfl
    · exact ⟨by decide, rfl⟩
    · trivial

theorem second_writable : second.Writable where
  path := ⟨by decide, rfl⟩
  names := by decide
  values := by
    intro p hp
    simp only [second, mem_cons, not_mem_nil, or_false] at hp
    rcases hp with rfl | rfl
    · trivial
    · trivial

theorem strategies_read_back_two : ∃ batch, parseStrategyBatch env (some schema.fieldTypes)
        ((StrategyBatchBuilder.ofList env schema [first, second]).finalize env) = some batch ∧
      Forall₂ (StrategySnapshot.ReadsBack env schema) [first, second] batch.strategies := by
  refine StrategyBatchBuilder.strategies_read_back env schema [first, second] (fun p => rfl)
    schema_wellFormed ?_ (by decide) ⟨by decide +kernel, by decide +kernel, by decide +kernel⟩
  intro s hs
  simp only [mem_cons, not_mem_nil, or_false] at hs
  rcases hs with rfl | rfl
  · exact first_writable
  · exact second_writable

end StrategySample

end MoonProto
