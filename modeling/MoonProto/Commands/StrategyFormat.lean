import MoonProto.Commands.StrategySerializer

/-!
# Reading what the strategy writer wrote

The dictionaries of the writer grow while strategies are written, so an index in the body was
given by a smaller dictionary than the one that stands in front of it. `Wrote` says that this
makes no difference: the body is what one gets by writing all strategies with the dictionaries
as they are now. On such a body the reader recovers every strategy, reduced to the fields that
were written.
-/

namespace MoonProto

open Codec List Option Function FieldValue

/-! ## Values -/

/-- The type ids that the format knows. -/
def knownTypeIds : List UInt8 :=
  [tidBool, tidInt32, tidInt64, tidDouble, tidString, tidByte, tidWord, tidUint32, tidUint64,
    tidSingle]

namespace FieldValue

/-- The zero of the type of a value. -/
def zeroOf : FieldValue → FieldValue
  | bool _ => bool false
  | int32 _ => int32 0
  | int64 _ => int64 0
  | double _ => double 0
  | string _ => string []
  | byte _ => byte 0
  | word _ => word 0
  | uint32 _ => uint32 0
  | uint64 _ => uint64 0
  | single _ => single 0

/-- What the reader makes of a value that was written. -/
def written (env : StrategyEnv) (v : FieldValue) : FieldValue :=
  if v.isZero env then v.zeroOf else v

/-- A value that the format can hold: a string of at most 65535 bytes. -/
def Fits : FieldValue → Prop
  | string v => v.length ≤ 65535 ∧ decodeUtf8Delphi v = v
  | _ => True

/-- The flag for zero is not part of a type id. -/
theorem flags_of_known {t : UInt8} (h : t ∈ knownTypeIds) :
    t &&& 0x7F = t ∧ t &&& tidZeroFlag = 0 ∧ (t ||| tidZeroFlag) &&& 0x7F = t ∧
      (t ||| tidZeroFlag) &&& tidZeroFlag ≠ 0 :=
  (by decide +kernel : ∀ t ∈ knownTypeIds, t &&& 0x7F = t ∧ t &&& tidZeroFlag = 0 ∧
    (t ||| tidZeroFlag) &&& 0x7F = t ∧ (t ||| tidZeroFlag) &&& tidZeroFlag ≠ 0) t h

theorem typeId_known (v : FieldValue) : v.typeId ∈ knownTypeIds := by
  cases v <;> simp [typeId, knownTypeIds]

theorem zeroForTypeId_typeId (v : FieldValue) : zeroForTypeId v.typeId = some v.zeroOf := by
  unfold zeroForTypeId
  rw [(flags_of_known v.typeId_known).1]
  cases v <;> rfl

end FieldValue

theorem writeU16LenBytes_eq {bs : Bytes} (h : bs.length ≤ 65535) :
    writeU16LenBytes bs = u16Bytes (UInt16.ofNat bs.length) ++ bs ∧
      (UInt16.ofNat bs.length).toNat = bs.length := by
  have hlen : (UInt16.ofNat bs.length).toNat = bs.length :=
    UInt16.toNat_ofNat_of_lt' (Nat.lt_succ_of_le h)
  refine ⟨?_, hlen⟩
  unfold writeU16LenBytes
  simp only [hlen, take_length]

theorem tryReadFieldValue_valueBytes {v : FieldValue} (h : v.Fits)
    (rest : Bytes) :
    tryReadFieldValue (v.valueBytes ++ rest) v.typeId = (some v, rest) := by
  unfold tryReadFieldValue
  cases v with
  | bool v => cases v <;> rfl
  | byte v => rfl
  | word v =>
    simp only [valueBytes, Cursor.zeroTail_append (u16Bytes_length v), readU16_u16Bytes]
    rfl
  | int32 v =>
    simp only [valueBytes, Cursor.zeroTail_append (u32Bytes_length v.toUInt32),
      readU32_u32Bytes]
    rfl
  | uint32 v =>
    simp only [valueBytes, Cursor.zeroTail_append (u32Bytes_length v), readU32_u32Bytes]
    rfl
  | int64 v =>
    simp only [valueBytes, Cursor.zeroTail_append (u64Bytes_length v.toUInt64),
      readU64_u64Bytes]
    rfl
  | uint64 v =>
    simp only [valueBytes, Cursor.zeroTail_append (u64Bytes_length v), readU64_u64Bytes]
    rfl
  | single v =>
    simp only [valueBytes, Cursor.zeroTail_append (u32Bytes_length v), readU32_u32Bytes]
    rfl
  | double v =>
    simp only [valueBytes, Cursor.zeroTail_append (u64Bytes_length v), readU64_u64Bytes]
    rfl
  | string v =>
    obtain ⟨hbytes, hlen⟩ := writeU16LenBytes_eq h.1
    simp only [valueBytes, hbytes, append_assoc, Cursor.u16_append, hlen,
      Cursor.zeroTail_append rfl, h.2]
    rfl

/-- **A written field reads back** under its name, if the reader knows the name with the type
of the value. -/
theorem readField_writeField (env : StrategyEnv) {names : List Text} {types : FieldTypes}
    {idx : UInt16} {name : Text} {v : FieldValue} (hname : names[idx.toNat]? = some name)
    (htype : types name = some v.typeId) (hfits : v.Fits) (rest : Bytes) :
    readField names (some (buildReaderFields names types))
      (u16Bytes idx ++ (writeField env v ++ rest)) = some ([(name, v.written env)], rest) := by
  obtain ⟨hreal, hflag, hreal', hflag'⟩ := flags_of_known v.typeId_known
  have haccepts : readerAccepts (some (buildReaderFields names types)) idx.toNat v.typeId := by
    show ((names.map types)[idx.toNat]? == some (some v.typeId)) = true
    rw [getElem?_map, hname, map_some, htype]
    exact beq_self_eq_true _
  unfold readField
  rw [Cursor.u16_append]
  unfold writeField written
  by_cases hz : v.isZero env = true
  · simp only [hz, if_true, singleton_append, bind_eq_bind, bind_some,
      Cursor.u8_cons, hreal', haccepts, bne_iff_ne.mpr hflag', zeroForTypeId_typeId,
      hname, map_some, toList_some]
    rfl
  · have hnz : (v.typeId &&& tidZeroFlag != 0) = false := by
      rw [hflag]
      rfl
    simp only [hz, if_false, Bool.false_eq_true, cons_append, bind_eq_bind,
      bind_some, Cursor.u8_cons, hreal, haccepts, if_true, hnz,
      tryReadFieldValue_valueBytes hfits, hname, map_some, toList_some]
    rfl

/-- The bytes of written fields, with the index of each name. -/
def encodeFields (env : StrategyEnv) (nameIdx : Text → Option UInt16)
    (entries : List (Nat × StrategySchemaField × FieldValue)) : Bytes :=
  entries.flatMap fun e => u16Bytes ((nameIdx e.2.1.name).getD 0) ++ writeField env e.2.2

/-- What the reader makes of written fields. -/
def parsedFields (env : StrategyEnv) (entries : List (Nat × StrategySchemaField × FieldValue)) :
    StrategyFields :=
  entries.map fun e => (e.2.1.name, e.2.2.written env)

theorem readStrategyFields_encodeFields (env : StrategyEnv) {names : List Text}
    {types : FieldTypes} {nameIdx : Text → Option UInt16} :
    ∀ (entries : List (Nat × StrategySchemaField × FieldValue)),
      (∀ e ∈ entries, names[((nameIdx e.2.1.name).getD 0).toNat]? = some e.2.1.name ∧
        types e.2.1.name = some e.2.2.typeId ∧ e.2.2.Fits) →
      ∀ rest, readStrategyFields names (some (buildReaderFields names types)) entries.length
        (encodeFields env nameIdx entries ++ rest) = some (parsedFields env entries, rest)
  | [], _, rest => rfl
  | e :: entries, h, rest => by
    obtain ⟨hname, htype, hfits⟩ := h e mem_cons_self
    have ih := readStrategyFields_encodeFields env entries
      (fun e' he' => h e' (mem_cons_of_mem e he')) rest
    have hsplit : encodeFields env nameIdx (e :: entries) ++ rest
        = u16Bytes ((nameIdx e.2.1.name).getD 0) ++
          (writeField env e.2.2 ++ (encodeFields env nameIdx entries ++ rest)) := by
      simp only [encodeFields, flatMap_cons, append_assoc]
    rw [length_cons, readStrategyFields, hsplit, readField_writeField env hname htype hfits]
    simp only [bind_eq_bind, bind_some, ih]
    rfl

/-! ## Dictionaries -/

theorem writeU8LenBytes_eq {bs : Bytes} (h : bs.length ≤ 255) :
    writeU8LenBytes bs = UInt8.ofNat bs.length :: bs ∧
      (UInt8.ofNat bs.length).toNat = bs.length := by
  have hlen : (UInt8.ofNat bs.length).toNat = bs.length :=
    UInt8.toNat_ofNat_of_lt' (Nat.lt_succ_of_le h)
  refine ⟨?_, hlen⟩
  unfold writeU8LenBytes
  simp only [hlen, take_length]

/-- A string that a dictionary can hold: at most 255 bytes. -/
def DictText (t : Text) : Prop :=
  t.length ≤ 255 ∧ decodeUtf8Delphi t = t

theorem readDictEntries_flatMap : ∀ (texts : List Text),
    (∀ t ∈ texts, DictText t) → ∀ rest,
      readDictEntries texts.length (texts.flatMap writeU8LenBytes ++ rest) = some (texts, rest)
  | [], _, rest => rfl
  | t :: texts, h, rest => by
    obtain ⟨hlen, hdecode⟩ := h t mem_cons_self
    obtain ⟨hbytes, hcount⟩ := writeU8LenBytes_eq hlen
    have ih := readDictEntries_flatMap texts
      (fun t' ht' => h t' (mem_cons_of_mem t ht')) rest
    rw [length_cons, readDictEntries, flatMap_cons, hbytes, append_assoc,
      cons_append, Cursor.u8_cons]
    simp only [bind_eq_bind, bind_some, hcount, Cursor.take_append rfl, ih, hdecode]
    rfl

theorem readDict_append {texts : List Text} (h : ∀ t ∈ texts, DictText t)
    (hcount : texts.length ≤ 65535) (rest : Bytes) :
    readDict (u16Bytes (UInt16.ofNat texts.length) ++
      (texts.flatMap writeU8LenBytes ++ rest)) = some (texts, rest) := by
  have hlen : (UInt16.ofNat texts.length).toNat = texts.length :=
    UInt16.toNat_ofNat_of_lt' (Nat.lt_succ_of_le hcount)
  unfold readDict
  rw [Cursor.u16_append]
  simp only [bind_eq_bind, bind_some, hlen, readDictEntries_flatMap texts h]

namespace TextDict

/-- Every index is that of a place with the text. -/
def Sound (d : TextDict) : Prop :=
  ∀ t i, d.idx t = some i → ∃ p, d.entries[p]? = some t ∧ i = UInt16.ofNat p

/-- What a text was numbered once it keeps. -/
def Extends (d d' : TextDict) : Prop := ∀ t i, d.idx t = some i → d'.idx t = some i

theorem sound_empty : Sound {} := nofun

theorem Extends.refl (d : TextDict) : Extends d d := fun _ _ h => h

variable {d : TextDict}

theorem Extends.trans {d' d'' : TextDict} (h : Extends d d') (h' : Extends d' d'') :
    Extends d d'' := fun t i ht => h' t i (h t i ht)

/-- **Looking up a text** numbers it, and no other text gets another number. -/
theorem index_spec (h : d.Sound) (t : Text) :
    (d.index t).2.Sound ∧ Extends d (d.index t).2 ∧ (d.index t).2.idx t = some (d.index t).1 ∧
      ∀ u ∈ (d.index t).2.entries, u ∈ d.entries ∨ u = t := by
  unfold index
  cases hidx : d.idx t with
  | some i => exact ⟨h, Extends.refl d, hidx, fun u hu => .inl hu⟩
  | none =>
    dsimp only
    refine ⟨?_, ?_, update_self _ _ _, ?_⟩
    · intro u i hu
      dsimp only at hu
      by_cases hut : u = t
      · subst hut
        rw [update_self, some_inj] at hu
        exact ⟨d.entries.length, by simp, hu.symm⟩
      · rw [update_of_ne hut] at hu
        obtain ⟨p, hp, hi⟩ := h u i hu
        exact ⟨p, by rw [getElem?_append_left (List.getElem?_eq_some_iff.mp hp).1, hp], hi⟩
    · intro u i hu
      have hut : u ≠ t := by
        rintro rfl
        rw [hidx] at hu
        cases hu
      exact (update_of_ne hut _ _).trans hu
    · intro u hu
      rcases mem_append.mp hu with hu | hu
      · exact .inl hu
      · exact .inr (mem_singleton.mp hu)

/-- In a dictionary of at most 65535 entries no number has wrapped. -/
theorem Sound.entry (h : d.Sound) (hlen : d.entries.length ≤ 65535) {t : Text}
    {i : UInt16} (ht : d.idx t = some i) : d.entries[i.toNat]? = some t := by
  obtain ⟨p, hp, rfl⟩ := h t i ht
  have hlt : p < d.entries.length := (List.getElem?_eq_some_iff.mp hp).1
  rwa [UInt16.toNat_ofNat_of_lt' (Nat.lt_of_lt_of_le hlt (Nat.le_succ_of_le hlen))]

end TextDict

/-- The entries have a number. -/
def FieldsNumbered (d : TextDict) (entries : List (Nat × StrategySchemaField × FieldValue)) :
    Prop :=
  ∀ e ∈ entries, (d.idx e.2.1.name).isSome

variable {d d' : TextDict}

theorem TextDict.Extends.getD (h : d.Extends d') {t : Text}
    (ht : (d.idx t).isSome) : (d'.idx t).getD 0 = (d.idx t).getD 0 ∧ (d'.idx t).isSome := by
  obtain ⟨i, hi⟩ := isSome_iff_exists.mp ht
  rw [hi, h t i hi]
  exact ⟨rfl, rfl⟩

theorem FieldsNumbered.mono
    {entries : List (Nat × StrategySchemaField × FieldValue)} (h : FieldsNumbered d entries)
    (hd : d.Extends d') : FieldsNumbered d' entries :=
  fun e he => (hd.getD (h e he)).2

/-- A dictionary that has grown numbers the entries as before. -/
theorem encodeFields_extends (env : StrategyEnv) (hd : d.Extends d')
    {entries : List (Nat × StrategySchemaField × FieldValue)} (h : FieldsNumbered d entries) :
    encodeFields env d'.idx entries = encodeFields env d.idx entries := by
  refine flatMap_congr fun e he => ?_
  rw [(hd.getD (h e he)).1]

namespace StrategyBatchBuilder

/-- What the bytes and the names of some entries have become in a dictionary that started
as `d`. -/
structure EntriesWritten (env : StrategyEnv) (d d' : TextDict)
    (entries : List (Nat × StrategySchemaField × FieldValue)) (bytes : Bytes) : Prop where
  sound : d'.Sound
  grows : d.Extends d'
  numbered : FieldsNumbered d' entries
  texts : ∀ u ∈ d'.entries, u ∈ d.entries ∨ ∃ e ∈ entries, e.2.1.name = u
  bytes : bytes = encodeFields env d'.idx entries

theorem EntriesWritten.cons {env : StrategyEnv} {d d' : TextDict}
    {e : Nat × StrategySchemaField × FieldValue}
    {entries : List (Nat × StrategySchemaField × FieldValue)} {bytes : Bytes} (hd : d.Sound)
    (h : EntriesWritten env (d.index e.2.1.name).2 d' entries bytes) :
    EntriesWritten env d d' (e :: entries)
      (u16Bytes (d.index e.2.1.name).1 ++ writeField env e.2.2 ++ bytes) := by
  obtain ⟨-, hext, hidx, htexts⟩ := TextDict.index_spec hd e.2.1.name
  have hhead : d'.idx e.2.1.name = some (d.index e.2.1.name).1 := h.grows _ _ hidx
  refine ⟨h.sound, hext.trans h.grows, ?_, ?_, ?_⟩
  · intro e' he'
    rcases mem_cons.mp he' with rfl | he'
    · exact isSome_iff_exists.mpr ⟨_, hhead⟩
    · exact h.numbered e' he'
  · intro u hu
    rcases h.texts u hu with hu | ⟨e', he', hu⟩
    · rcases htexts u hu with hu | hu
      · exact .inl hu
      · exact .inr ⟨e, mem_cons_self, hu.symm⟩
    · exact .inr ⟨e', mem_cons_of_mem e he', hu⟩
  · unfold encodeFields
    rw [flatMap_cons, hhead, h.bytes]
    rfl

theorem foldl_writeEntry (env : StrategyEnv) :
    ∀ (entries : List (Nat × StrategySchemaField × FieldValue)) (d : TextDict) (bytes : Bytes)
      (n : UInt16), d.Sound → ∃ d' written,
      entries.foldl (writeEntry env) (d, bytes, n)
        = (d', bytes ++ written, n + UInt16.ofNat entries.length) ∧
      EntriesWritten env d d' entries written
  | [], d, bytes, n, hd => by
    refine ⟨d, [], ?_, hd, TextDict.Extends.refl d, nofun,
      fun u hu => .inl hu, rfl⟩
    rw [append_nil]
    exact Prod.ext rfl (Prod.ext rfl (UInt16.add_zero n).symm)
  | e :: entries, d, bytes, n, hd => by
    obtain ⟨d', written, hfold, hwritten⟩ :=
      foldl_writeEntry env entries (d.index e.2.1.name).2
        (bytes ++ u16Bytes (d.index e.2.1.name).1 ++ writeField env e.2.2) (n + 1)
        (TextDict.index_spec hd e.2.1.name).1
    refine ⟨d', _, hfold.trans ?_, hwritten.cons hd⟩
    rw [length_cons, UInt16.ofNat_add, UInt16.add_assoc, UInt16.add_comm 1]
    simp only [append_assoc]
    rfl

/-- Declaring the fields of a kind adds names of the schema. -/
theorem declareKind_spec (b : StrategyBatchBuilder) (kind : UInt8) (hd : b.nameDict.Sound) :
    ∃ d kinds, b.declareKind kind = { b with nameDict := d, dictionaryKinds := kinds } ∧
      d.Sound ∧ b.nameDict.Extends d ∧
      ∀ u ∈ d.entries, u ∈ b.nameDict.entries ∨ ∃ f ∈ b.schemaFields, f.name = u := by
  have hfold : ∀ (fields : List StrategySchemaField) (d : TextDict), d.Sound →
      let d' := fields.foldl
        (fun d field => if field.visibleForKind kind then (d.index field.name).2 else d) d
      d'.Sound ∧ d.Extends d' ∧ ∀ u ∈ d'.entries, u ∈ d.entries ∨ ∃ f ∈ fields, f.name = u := by
    intro fields
    induction fields with
    | nil => exact fun d hd => ⟨hd, TextDict.Extends.refl d, fun u hu => .inl hu⟩
    | cons f fields ih =>
      intro d hd
      obtain ⟨hsound, hext, -, htexts⟩ := TextDict.index_spec hd f.name
      dsimp only
      rw [foldl_cons]
      by_cases hvis : f.visibleForKind kind = true
      · rw [if_pos hvis]
        obtain ⟨hsound', hext', htexts'⟩ := ih _ hsound
        refine ⟨hsound', hext.trans hext', fun u hu => ?_⟩
        rcases htexts' u hu with hu | ⟨f', hf', hu⟩
        · rcases htexts u hu with hu | hu
          · exact .inl hu
          · exact .inr ⟨f, mem_cons_self, hu.symm⟩
        · exact .inr ⟨f', mem_cons_of_mem f hf', hu⟩
      · rw [if_neg hvis]
        obtain ⟨hsound', hext', htexts'⟩ := ih _ hd
        refine ⟨hsound', hext', fun u hu => ?_⟩
        rcases htexts' u hu with hu | ⟨f', hf', hu⟩
        · exact .inl hu
        · exact .inr ⟨f', mem_cons_of_mem f hf', hu⟩
  unfold declareKind
  split
  · exact ⟨b.nameDict, b.dictionaryKinds, rfl, hd, TextDict.Extends.refl _, fun u hu => .inl hu⟩
  · exact ⟨_, _, rfl, hfold b.schemaFields b.nameDict hd⟩

/-! ## What the builder has written -/

/-- The bytes of one strategy, with the numbers of its path and of its names. -/
def encodeStrategy (env : StrategyEnv) (schemaFields : List StrategySchemaField)
    (names paths : TextDict) (s : StrategySnapshot) : Bytes :=
  u64Bytes s.strategyId ++ (u32Bytes s.strategyVer.toUInt32 ++ (u64Bytes s.lastDate ++
    ((if s.checked then 1 else 0) :: s.kind :: (u16Bytes ((paths.idx s.path).getD 0) ++
      (u16Bytes (UInt16.ofNat (fieldsToWrite env schemaFields s).length) ++
        encodeFields env names.idx (fieldsToWrite env schemaFields s))))))

/-- **The builder after some strategies and further paths**: whatever the dictionaries are now,
the body is what one gets by writing all strategies with them. -/
structure Wrote (env : StrategyEnv) (schema : StrategySchema) (ss : List StrategySnapshot)
    (extra : List Text) (b : StrategyBatchBuilder) : Prop where
  schemaFields : b.schemaFields = schema.fields
  names : b.nameDict.Sound
  paths : b.pathDict.Sound
  nameTexts : ∀ u ∈ b.nameDict.entries, ∃ f ∈ schema.fields, f.name = u
  pathTexts : ∀ u ∈ b.pathDict.entries, (∃ s ∈ ss, s.path = u) ∨ u ∈ extra
  pathsNumbered : ∀ s ∈ ss, (b.pathDict.idx s.path).isSome
  extraNumbered : ∀ u ∈ extra, (b.pathDict.idx u).isSome
  fieldsNumbered : ∀ s ∈ ss, FieldsNumbered b.nameDict (fieldsToWrite env schema.fields s)
  count : b.count = UInt16.ofNat ss.length
  body : b.body = ss.flatMap (encodeStrategy env schema.fields b.nameDict b.pathDict)

variable {fields : List StrategySchemaField}

theorem fieldByName_some {name : Text} {i : Nat}
    {f : StrategySchemaField} (h : fieldByName fields name = some (i, f)) :
    f ∈ fields ∧ f.name = name := by
  obtain ⟨p, hp, heq⟩ := map_eq_some_iff.mp h
  obtain ⟨rfl, rfl⟩ := Prod.mk.injEq .. ▸ heq
  have hmem := mem_reverse.mp (mem_of_find?_eq_some hp)
  have hname : (p.1.name == name) = true := 
    find?_some (p := fun p : StrategySchemaField × Nat => p.1.name == name) hp
  exact ⟨fst_mem_of_mem_zipIdx hmem, eq_of_beq hname⟩

theorem mem_fieldsToWrite {env : StrategyEnv}
    {s : StrategySnapshot} {e : Nat × StrategySchemaField × FieldValue} :
    e ∈ fieldsToWrite env fields s ↔ (e.2.1.name, e.2.2) ∈ s.fields ∧
      fieldByName fields e.2.1.name = some (e.1, e.2.1) ∧ e.2.1.visibleForKind s.kind ∧
      strategySchemaFieldShouldWrite env e.2.1 e.2.2 := by
  unfold fieldsToWrite
  rw [mem_insertionSort, mem_filterMap]
  constructor
  · rintro ⟨⟨name, value⟩, hmem, hsome⟩
    obtain ⟨⟨i, f⟩, hfound, hkept⟩ := bind_eq_some_iff.mp hsome
    obtain ⟨-, rfl⟩ := fieldByName_some hfound
    dsimp only at hkept
    split at hkept
    · cases hkept
    split at hkept
    · cases hkept
    obtain rfl := some_inj.mp hkept
    rename_i hvis hwrite
    refine ⟨hmem, hfound, ?_, ?_⟩
    · simpa using hvis
    · simpa using hwrite
  · rintro ⟨hmem, hfound, hvis, hwrite⟩
    refine ⟨_, hmem, ?_⟩
    simp only [hfound, bind_some, hvis, hwrite]
    rfl

theorem encodeStrategy_extends (env : StrategyEnv)
    {names names' paths paths' : TextDict} (hn : names.Extends names') (hp : paths.Extends paths')
    {s : StrategySnapshot} (hpath : (paths.idx s.path).isSome)
    (hfields : FieldsNumbered names (fieldsToWrite env fields s)) :
    encodeStrategy env fields names' paths' s = encodeStrategy env fields names paths s := by
  unfold encodeStrategy
  rw [(hp.getD hpath).1, encodeFields_extends env hn hfields]

theorem wrote_new (env : StrategyEnv) (schema : StrategySchema) :
    Wrote env schema [] [] (new schema) where
  schemaFields := rfl
  names := TextDict.sound_empty
  paths := TextDict.sound_empty
  nameTexts := nofun
  pathTexts := nofun
  pathsNumbered := nofun
  extraNumbered := nofun
  fieldsNumbered := nofun
  count := rfl
  body := rfl

section wrote

variable {env : StrategyEnv} {schema : StrategySchema} {ss : List StrategySnapshot}
  {extra : List Text} {b : StrategyBatchBuilder}

/-- `write_strategy` in one equation: the dictionaries have grown by what the strategy needs,
and its bytes stand at the end of the body. -/
theorem writeStrategy_eq (env : StrategyEnv) {b : StrategyBatchBuilder} (hn : b.nameDict.Sound)
    (hp : b.pathDict.Sound) (s : StrategySnapshot) :
    ∃ names paths kinds, b.writeStrategy env s = { b with
          nameDict := names
          pathDict := paths
          dictionaryKinds := kinds
          body := b.body ++ encodeStrategy env b.schemaFields names paths s
          count := b.count + 1 } ∧
      names.Sound ∧ paths.Sound ∧ b.nameDict.Extends names ∧ b.pathDict.Extends paths ∧
      (∀ u ∈ names.entries, u ∈ b.nameDict.entries ∨ ∃ f ∈ b.schemaFields, f.name = u) ∧
      (∀ u ∈ paths.entries, u ∈ b.pathDict.entries ∨ u = s.path) ∧
      (paths.idx s.path).isSome ∧ FieldsNumbered names (fieldsToWrite env b.schemaFields s) := by
  obtain ⟨hpaths, hpext, hpidx, hptexts⟩ := TextDict.index_spec hp s.path
  obtain ⟨d, kinds, hdeclare, hd, hdext, hdtexts⟩ :=
    declareKind_spec { b with pathDict := (b.pathDict.index s.path).2 } s.kind hn
  obtain ⟨d', bytes, hfold, hwritten⟩ :=
    foldl_writeEntry env (fieldsToWrite env b.schemaFields s) d [] 0 hd
  refine ⟨d', (b.pathDict.index s.path).2, kinds, ?_, hwritten.sound, hpaths,
    hdext.trans hwritten.grows, hpext, ?_, hptexts, isSome_iff_exists.mpr ⟨_, hpidx⟩,
    hwritten.numbered⟩
  · unfold writeStrategy
    simp only [hdeclare, hfold, hwritten.bytes, encodeStrategy, hpidx, getD_some,
      UInt16.zero_add, nil_append, append_assoc, cons_append]
  · intro u hu
    rcases hwritten.texts u hu with hu | ⟨e, he, rfl⟩
    · exact hdtexts u hu
    · exact .inr ⟨e.2.1, (fieldByName_some (mem_fieldsToWrite.mp he).2.1).1, rfl⟩

theorem Wrote.write (h : Wrote env schema ss extra b) (s : StrategySnapshot) :
    Wrote env schema (ss ++ [s]) extra (b.writeStrategy env s) := by
  obtain ⟨names, paths, kinds, heq, hn, hp, hnext, hpext, hntexts, hptexts, hpath, hfields⟩ :=
    writeStrategy_eq env h.names h.paths s
  rw [h.schemaFields] at heq hntexts hfields
  have hlast : ∀ {P : StrategySnapshot → Prop}, (∀ t ∈ ss, P t) → P s → ∀ t ∈ ss ++ [s], P t := by
    intro P hss hs t ht
    rcases mem_append.mp ht with ht | ht
    · exact hss t ht
    · rw [mem_singleton.mp ht]
      exact hs
  rw [heq]
  refine ⟨rfl, hn, hp, ?_, ?_, ?_, ?_, ?_, ?_, ?_⟩
  · intro u hu
    rcases hntexts u hu with hu | hu
    · exact h.nameTexts u hu
    · exact hu
  · intro u hu
    rcases hptexts u hu with hu | rfl
    · rcases h.pathTexts u hu with ⟨t, ht, rfl⟩ | hu
      · exact .inl ⟨t, mem_append_left _ ht, rfl⟩
      · exact .inr hu
    · exact .inl ⟨s, mem_append_right _ mem_cons_self, rfl⟩
  · exact hlast (fun t ht => (hpext.getD (h.pathsNumbered t ht)).2) hpath
  · exact fun u hu => (hpext.getD (h.extraNumbered u hu)).2
  · exact hlast (fun t ht => (h.fieldsNumbered t ht).mono hnext) hfields
  · show b.count + 1 = _
    rw [h.count, length_append, UInt16.ofNat_add]
    rfl
  · show b.body ++ _ = _
    rw [h.body, flatMap_append, flatMap_singleton]
    congr 1
    exact flatMap_congr fun t ht => (encodeStrategy_extends env hnext hpext
      (h.pathsNumbered t ht) (h.fieldsNumbered t ht)).symm

theorem Wrote.writeAll : ∀ (ts : List StrategySnapshot) {ss : List StrategySnapshot}
    {b : StrategyBatchBuilder}, Wrote env schema ss extra b →
    Wrote env schema (ss ++ ts) extra (ts.foldl (writeStrategy env) b)
  | [], ss, b, h => by rwa [append_nil]
  | t :: ts, ss, b, h => by
    have ih := Wrote.writeAll ts (h.write t)
    rwa [append_assoc] at ih

theorem Wrote.addPath (h : Wrote env schema ss extra b) (path : Text) :
    Wrote env schema ss (extra ++ [path]) { b with pathDict := (b.pathDict.index path).2 } := by
  obtain ⟨hp, hpext, hpidx, hptexts⟩ := TextDict.index_spec h.paths path
  refine ⟨h.schemaFields, h.names, hp, h.nameTexts, ?_, ?_, ?_, h.fieldsNumbered, h.count, ?_⟩
  · intro u hu
    rcases hptexts u hu with hu | rfl
    · exact (h.pathTexts u hu).imp_right (mem_append_left _)
    · exact .inr (mem_append_right _ mem_cons_self)
  · exact fun s hs => (hpext.getD (h.pathsNumbered s hs)).2
  · intro u hu
    rcases mem_append.mp hu with hu | hu
    · exact (hpext.getD (h.extraNumbered u hu)).2
    · rw [mem_singleton.mp hu]
      exact isSome_iff_exists.mpr ⟨_, hpidx⟩
  · exact h.body.trans (flatMap_congr fun s hs => (encodeStrategy_extends env
      (TextDict.Extends.refl _) hpext (h.pathsNumbered s hs) (h.fieldsNumbered s hs)).symm)

theorem Wrote.addPaths : ∀ (ps : List Text) {extra : List Text} {b : StrategyBatchBuilder},
    Wrote env schema ss extra b → Wrote env schema ss (extra ++ ps)
      (ps.foldl (fun b path => { b with pathDict := (b.pathDict.index path).2 }) b)
  | [], extra, b, h => by rwa [append_nil]
  | p :: ps, extra, b, h => by
    have ih := Wrote.addPaths ps (h.addPath p)
    rwa [append_assoc] at ih

end wrote

end StrategyBatchBuilder

/-! ## Reading a batch -/

/-- A schema the format can carry: distinct names of at most 255 bytes and known types. -/
structure StrategySchema.WellFormed (schema : StrategySchema) : Prop where
  names : (schema.fields.map StrategySchemaField.name).Nodup
  texts : ∀ f ∈ schema.fields, DictText f.name
  types : ∀ f ∈ schema.fields, f.rawTypeId ∈ knownTypeIds

/-- A strategy the format can carry. -/
structure StrategySnapshot.Writable (s : StrategySnapshot) : Prop where
  path : DictText s.path
  names : (s.fields.map Prod.fst).Nodup
  values : ∀ p ∈ s.fields, p.2.Fits

/-- What the reader makes of a strategy that was written. -/
def StrategySnapshot.parsed (env : StrategyEnv) (schema : StrategySchema) (s : StrategySnapshot) :
    StrategySnapshot :=
  { s with
    fields := parsedFields env (StrategyBatchBuilder.fieldsToWrite env schema.fields s) }

theorem StrategySchema.fieldTypes_eq {schema : StrategySchema}
    (hnames : (schema.fields.map StrategySchemaField.name).Nodup) {f : StrategySchemaField}
    (hf : f ∈ schema.fields) : schema.fieldTypes f.name = some f.rawTypeId := by
  have hfold : ∀ (fields : List StrategySchemaField) (types : FieldTypes),
      (fields.map StrategySchemaField.name).Nodup →
      (∀ g ∈ fields, fields.foldl FieldTypes.add types g.name = some g.rawTypeId) ∧
      ∀ n, n ∉ fields.map StrategySchemaField.name →
        fields.foldl FieldTypes.add types n = types n := by
    intro fields
    induction fields with
    | nil => exact fun types _ => ⟨fun g hg => (nomatch hg), fun _ _ => rfl⟩
    | cons g fields ih =>
      intro types hnodup
      obtain ⟨hfresh, hrest⟩ := nodup_cons.mp hnodup
      obtain ⟨hin, hout⟩ := ih (types.add g) hrest
      constructor
      · intro g' hg'
        rcases mem_cons.mp hg' with rfl | hg'
        · rw [foldl_cons, hout _ hfresh]
          exact update_self ..
        · exact hin g' hg'
      · intro n hn
        obtain ⟨hne, hn⟩ := not_or.mp (mt mem_cons.mpr hn)
        rw [foldl_cons, hout n hn]
        exact update_of_ne hne ..
  exact (hfold schema.fields _ hnames).1 f hf

theorem readStrategyHeader_append {paths : List Text} {s : StrategySnapshot} {pathId : UInt16}
    (hpath : paths[pathId.toNat]? = some s.path) (rest : Bytes) :
    readStrategyHeader paths (u64Bytes s.strategyId ++ (u32Bytes s.strategyVer.toUInt32 ++
      (u64Bytes s.lastDate ++ ((if s.checked then 1 else 0) :: s.kind ::
        (u16Bytes pathId ++ rest))))) =
      some (⟨s.strategyId, s.strategyVer, s.lastDate, s.checked, s.kind, s.path⟩, rest) := by
  unfold readStrategyHeader
  have hget : paths.getD pathId.toNat [] = s.path := by
    rw [getD_eq_getElem?_getD, hpath, getD_some]
  have hchecked : ((if s.checked then (1 : UInt8) else 0) != 0) = s.checked := by
    cases s.checked <;> rfl
  simp only [Cursor.u64_append, Cursor.i32_append, Cursor.u8_cons, Cursor.u16_append,
    bind_eq_bind, bind_some, hget, hchecked]
  rfl

namespace StrategyBatchBuilder

theorem map_filterMap_sublist {α β γ : Type} {f : α → Option β} {g : β → γ} {h : α → γ}
    (hfg : ∀ a b, f a = some b → g b = h a) :
    ∀ l : List α, ((l.filterMap f).map g).Sublist (l.map h)
  | [] => Sublist.slnil
  | a :: l => by
    have ih := map_filterMap_sublist hfg l
    rw [filterMap_cons, map_cons]
    cases hfa : f a with
    | none => exact ih.cons _
    | some b =>
      dsimp only
      rw [map_cons, hfg a b hfa]
      exact ih.cons_cons _

theorem fieldsToWrite_nodup (env : StrategyEnv) (fields : List StrategySchemaField)
    {s : StrategySnapshot} (h : (s.fields.map Prod.fst).Nodup) :
    ((fieldsToWrite env fields s).map fun e => e.2.1.name).Nodup := by
  unfold fieldsToWrite
  rw [((perm_insertionSort _ _).map _).nodup_iff]
  refine Nodup.sublist (map_filterMap_sublist ?_ s.fields) h
  rintro ⟨name, value⟩ e hsome
  obtain ⟨⟨i, f⟩, hfound, hkept⟩ := bind_eq_some_iff.mp hsome
  obtain ⟨-, rfl⟩ := fieldByName_some hfound
  dsimp only at hkept
  split at hkept
  · cases hkept
  split at hkept
  · cases hkept
  · obtain rfl := some_inj.mp hkept
    rfl

variable {env : StrategyEnv} {schema : StrategySchema} {ss : List StrategySnapshot}
  {extra : List Text} {b : StrategyBatchBuilder}

/-- What is written has the type that the schema gives the field. -/
theorem typeId_of_shouldWrite (hschema : schema.WellFormed) {f : StrategySchemaField}
    (hf : f ∈ schema.fields) {v : FieldValue} (hv : v.matchesTypeId f.rawTypeId) :
    v.typeId = f.rawTypeId := by
  rw [← (flags_of_known (hschema.types f hf)).1]
  exact eq_of_beq hv

theorem matchesTypeId_of_shouldWrite {f : StrategySchemaField} {v : FieldValue}
    (h : strategySchemaFieldShouldWrite env f v) : v.matchesTypeId f.rawTypeId := by
  by_contra hno
  unfold strategySchemaFieldShouldWrite at h
  rw [if_pos (by simpa using hno)] at h
  cases h

theorem readStrategies_encode (hschema : schema.WellFormed) {names paths : TextDict}
    (hnames : names.Sound) (hpaths : paths.Sound) (hnlen : names.entries.length ≤ 65535)
    (hplen : paths.entries.length ≤ 65535) : ∀ (ss : List StrategySnapshot),
    (∀ s ∈ ss, s.Writable) → (∀ s ∈ ss, (paths.idx s.path).isSome) →
    (∀ s ∈ ss, FieldsNumbered names (fieldsToWrite env schema.fields s)) →
    readStrategies names.entries paths.entries
      (some (buildReaderFields names.entries schema.fieldTypes)) ss.length
      (ss.flatMap (encodeStrategy env schema.fields names paths))
        = some (ss.map (StrategySnapshot.parsed env schema))
  | [], _, _, _ => rfl
  | s :: ss, hss, hpath, hfields => by
    have ih := readStrategies_encode hschema hnames hpaths hnlen hplen ss
      (fun t ht => hss t (mem_cons_of_mem s ht))
      (fun t ht => hpath t (mem_cons_of_mem s ht))
      (fun t ht => hfields t (mem_cons_of_mem s ht))
    have hs := hss s mem_cons_self
    obtain ⟨pathId, hpathId⟩ := isSome_iff_exists.mp (hpath s mem_cons_self)
    have hentries : ∀ e ∈ fieldsToWrite env schema.fields s,
        names.entries[((names.idx e.2.1.name).getD 0).toNat]? = some e.2.1.name ∧
        schema.fieldTypes e.2.1.name = some e.2.2.typeId ∧ e.2.2.Fits := by
      intro e he
      obtain ⟨i, hi⟩ := isSome_iff_exists.mp (hfields s mem_cons_self e he)
      obtain ⟨hstored, hfound, -, hwrite⟩ := mem_fieldsToWrite.mp he
      have hf := (fieldByName_some hfound).1
      refine ⟨?_, ?_, hs.values _ hstored⟩
      · rw [hi]
        exact hnames.entry hnlen hi
      · rw [schema.fieldTypes_eq hschema.names hf,
          typeId_of_shouldWrite hschema hf (matchesTypeId_of_shouldWrite hwrite)]
    have hcount : (UInt16.ofNat (fieldsToWrite env schema.fields s).length).toNat
        = (fieldsToWrite env schema.fields s).length := by
      have hsub : ((fieldsToWrite env schema.fields s).map fun e => e.2.1.name) ⊆
          names.entries := by
        intro u hu
        obtain ⟨e, he, rfl⟩ := List.mem_map.mp hu
        exact mem_of_getElem? (hentries e he).1
      have hle := ((fieldsToWrite_nodup env schema.fields hs.names).subperm hsub).length_le
      rw [length_map] at hle
      exact UInt16.toNat_ofNat_of_lt' (Nat.lt_succ_of_le (hle.trans hnlen))
    rw [length_cons, readStrategies, flatMap_cons]
    simp only [encodeStrategy, hpathId, getD_some, append_assoc, cons_append]
    rw [readStrategyHeader_append (hpaths.entry hplen hpathId)]
    simp only [bind_eq_bind, bind_some, Cursor.u16_append, hcount,
      readStrategyFields_encodeFields env _ hentries, ih]
    rfl

/-- **Parsing the output of the builder** gives the dictionaries and, for every strategy, what
the reader makes of it. -/
theorem parse_finalize (hinflate : ∀ p, env.inflate (env.deflate p) = some p)
    (hschema : schema.WellFormed) (hss : ∀ s ∈ ss, s.Writable)
    (hextra : ∀ u ∈ extra, DictText u) (hw : Wrote env schema ss extra b)
    (hcount : ss.length ≤ 65535) (hnlen : b.nameDict.entries.length ≤ 65535)
    (hplen : b.pathDict.entries.length ≤ 65535)
    (hsize : (plainStrategyBatch b.nameDict.entries b.pathDict.entries b.body b.count).length
      ≤ StrategyEnv.maxInflateOutputSize) :
    parseStrategyBatch env (some schema.fieldTypes) (b.finalize env) =
      some ⟨b.nameDict.entries, b.pathDict.entries,
        ss.map (StrategySnapshot.parsed env schema)⟩ := by
  have hnames : ∀ u ∈ b.nameDict.entries, DictText u := by
    intro u hu
    obtain ⟨f, hf, rfl⟩ := hw.nameTexts u hu
    exact hschema.texts f hf
  have hpaths : ∀ u ∈ b.pathDict.entries, DictText u := by
    intro u hu
    rcases hw.pathTexts u hu with ⟨s, hs, rfl⟩ | hu
    · exact (hss s hs).path
    · exact hextra u hu
  have hread : env.readInflateToVec (b.finalize env)
      = some (plainStrategyBatch b.nameDict.entries b.pathDict.entries b.body b.count) := by
    unfold StrategyEnv.readInflateToVec finalize finalizeStrategyBatch
    rw [hinflate, filter_some, if_pos (decide_eq_true hsize)]
  have hstrategies := readStrategies_encode hschema hw.names hw.paths hnlen hplen ss hss
    hw.pathsNumbered hw.fieldsNumbered
  have htotal : b.count.toNat = ss.length := by
    rw [hw.count]
    exact UInt16.toNat_ofNat_of_lt' (Nat.lt_succ_of_le hcount)
  unfold parseStrategyBatch
  simp only [bind_eq_bind, hread, bind_some]
  unfold parseStrategyBatchPlain plainStrategyBatch
  simp only [append_assoc, readDict_append hnames hnlen, readDict_append hpaths hplen,
    bind_eq_bind, bind_some, Cursor.u16_append, htotal, hw.body, map_some,
    hstrategies]
  rfl

theorem Wrote.mem_paths (hw : Wrote env schema ss extra b)
    (hplen : b.pathDict.entries.length ≤ 65535) (u : Text) :
    u ∈ b.pathDict.entries ↔ (∃ s ∈ ss, s.path = u) ∨ u ∈ extra := by
  refine ⟨hw.pathTexts u, ?_⟩
  rintro (⟨s, hs, rfl⟩ | hu)
  · obtain ⟨i, hi⟩ := isSome_iff_exists.mp (hw.pathsNumbered s hs)
    exact mem_of_getElem? (hw.paths.entry hplen hi)
  · obtain ⟨i, hi⟩ := isSome_iff_exists.mp (hw.extraNumbered u hu)
    exact mem_of_getElem? (hw.paths.entry hplen hi)

/-- A payload of folders reads back, with any schema or none. -/
theorem parse_folderPayload (hinflate : ∀ p, env.inflate (env.deflate p) = some p)
    {paths : List Text} (hpaths : ∀ u ∈ paths, DictText u) (hplen : paths.length ≤ 65535)
    (hsize : (plainStrategyBatch [] paths [] 0).length ≤ StrategyEnv.maxInflateOutputSize)
    (types : Option FieldTypes) :
    parseStrategyBatch env types (folderPayload env paths) = some ⟨[], paths, []⟩ := by
  have hread : env.readInflateToVec (folderPayload env paths)
      = some (plainStrategyBatch [] paths [] 0) := by
    unfold StrategyEnv.readInflateToVec folderPayload finalizeStrategyBatch
    rw [hinflate, filter_some, if_pos (decide_eq_true hsize)]
  have hnames : ∀ u ∈ ([] : List Text), DictText u := fun _ hu => absurd hu not_mem_nil
  unfold parseStrategyBatch
  simp only [bind_eq_bind, hread, bind_some]
  unfold parseStrategyBatchPlain plainStrategyBatch
  simp only [append_assoc, readDict_append hnames (Nat.zero_le _),
    readDict_append hpaths hplen, bind_eq_bind, bind_some, Cursor.u16_append]
  rfl

end StrategyBatchBuilder

end MoonProto
