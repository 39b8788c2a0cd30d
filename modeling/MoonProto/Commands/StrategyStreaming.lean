import MoonProto.Commands.StrategySerializer

/-!
# The streaming reader and the full reader

Reading a field and skipping it are written apart in `strategy_serializer/reader.rs`. They leave
the same bytes behind, except for a string without its length bytes: there the reading goes on
and the skipping fails. A reader with a schema, and one that skips whole strategies, therefore
stay in step with the full reader for as long as they go on.

What the streaming reader passes to its callbacks is a list of visits, which does not depend on
what the callbacks do.
-/

namespace MoonProto

open Codec List Option

/-! ## What the reader passes to its callbacks -/

/-- A call of the streaming reader. -/
inductive Visit
  | header (h : StrategyHeader)
  | strategy (s : StrategySnapshot)
deriving DecidableEq

/-- The calls of `forEachStrategy` when a header alone decides what is skipped, and whether the
loop came to its end. -/
def scan (old : StrategyHeader → Bool) (names paths : List Text)
    (readerFields : Option (List (Option UInt8))) : Nat → Bytes → List Visit × Option Unit
  | 0, _ => ([], some ())
  | n + 1, data =>
    match readStrategyHeader paths data with
    | none => ([], none)
    | some (header, data) =>
      match Cursor.u16 data with
      | none => ([], none)
      | some (fieldCount, data) =>
        if old header then
          match skipStrategyFields fieldCount.toNat data with
          | none => ([.header header], none)
          | some data =>
            let out := scan old names paths readerFields n data
            (.header header :: out.1, out.2)
        else
          match readStrategyFields names readerFields fieldCount.toNat data with
          | none => ([.header header], none)
          | some (fields, data) =>
            let out := scan old names paths readerFields n data
            (.header header :: .strategy (header.withFields fields) :: out.1, out.2)

def Visit.strategy? : Visit → Option StrategySnapshot
  | .header _ => none
  | .strategy s => some s

section replay

variable {σ : Type} (old : StrategyHeader → Bool)
  (note : σ → StrategyHeader → σ) (on : σ → StrategySnapshot → σ)

def replay (s : σ) : Visit → σ
  | .header h => note s h
  | .strategy t => on s t

theorem forEachStrategy_eq_scan (names paths : List Text)
    (readerFields : Option (List (Option UInt8))) : ∀ (n : Nat) (data : Bytes) (s : σ),
    forEachStrategy (fun s h => (old h, note s h)) on names paths readerFields n data s =
      ((scan old names paths readerFields n data).1.foldl (replay note on) s,
        (scan old names paths readerFields n data).2)
  | 0, _, s => rfl
  | n + 1, data, s => by
    unfold forEachStrategy scan
    cases readStrategyHeader paths data with
    | none => rfl
    | some p =>
      obtain ⟨header, rest⟩ := p
      dsimp only
      cases Cursor.u16 rest with
      | none => rfl
      | some q =>
        obtain ⟨fieldCount, rest⟩ := q
        dsimp only
        by_cases hold : old header = true
        · rw [if_pos hold, if_pos hold]
          cases skipStrategyFields fieldCount.toNat rest with
          | none => rfl
          | some rest => exact forEachStrategy_eq_scan names paths readerFields n rest _
        · rw [if_neg hold, if_neg hold]
          cases readStrategyFields names readerFields fieldCount.toNat rest with
          | none => rfl
          | some q => exact forEachStrategy_eq_scan names paths readerFields n q.2 _

end replay

/-- Whether a reader with these types keeps a field. -/
def keepsField (types : Option FieldTypes) (field : Text × FieldValue) : Bool :=
  types.all fun types => types field.1 == some field.2.typeId

namespace StrategySnapshot

def header (s : StrategySnapshot) : StrategyHeader where
  strategyId := s.strategyId
  strategyVer := s.strategyVer
  lastDate := s.lastDate
  checked := s.checked
  kind := s.kind
  path := s.path

/-- The strategy with the fields that are known with their type. -/
def reduced (types : Option FieldTypes) (s : StrategySnapshot) : StrategySnapshot :=
  { s with fields := s.fields.filter (keepsField types) }

end StrategySnapshot

/-! ## Strings without a length -/

/-- A string with a value behind its type, and not even the length of it is there. -/
def lengthMissing (typeId : UInt8) (data : Bytes) : Bool :=
  typeId &&& tidZeroFlag == 0 && typeId &&& 0x7F == tidString && decide (data.length < 2)

def hasLength (data : Bytes) : Bool :=
  (Cursor.u16 data).all fun p => (Cursor.u8 p.2).all fun q => !lengthMissing q.1 q.2

section lengths

variable (names paths : List Text)

/-- Every string field that the full reader comes to has its length bytes. -/
def fieldsHaveLengths : Nat → Bytes → Bool
  | 0, _ => true
  | n + 1, data =>
    hasLength data && (readField names none data).all fun p => fieldsHaveLengths n p.2

def strategiesHaveLengths : Nat → Bytes → Bool
  | 0, _ => true
  | n + 1, data =>
    (readStrategyHeader paths data).all fun p => (Cursor.u16 p.2).all fun q =>
      fieldsHaveLengths names q.1.toNat q.2 &&
        (readStrategyFields names none q.1.toNat q.2).all fun r => strategiesHaveLengths n r.2

def batchHasLengths (data : Bytes) : Bool :=
  (readDict data).all fun p => (readDict p.2).all fun q => (Cursor.u16 q.2).all fun r =>
    strategiesHaveLengths p.1 q.1 r.1.toNat r.2

end lengths

/-! ## One field -/

/-- The value behind a type byte and what follows it, as the reader takes them. -/
def fieldValue (typeId : UInt8) (data : Bytes) : Option FieldValue × Bytes :=
  if typeId &&& tidZeroFlag != 0 then (FieldValue.zeroForTypeId (typeId &&& 0x7F), data)
  else tryReadFieldValue data (typeId &&& 0x7F)

theorem tryReadFieldValue_spec (data : Bytes) (t : UInt8) :
    (∀ v, (tryReadFieldValue data t).1 = some v → v.typeId = t) ∧
      (t ≠ tidString → (tryReadFieldValue data t).2 = data.drop (fixedSize t)) := by
  generalize hp : tryReadFieldValue data t = p
  unfold tryReadFieldValue at hp
  repeat' split at hp
  all_goals subst hp
  -- The types of a fixed size first, then a string and an unknown type.
  any_goals
    subst t
    exact ⟨fun v hv => by cases hv; rfl, fun _ => rfl⟩
  · exact ⟨fun v hv => (nomatch hv), fun h => absurd ‹_› h⟩
  · exact ⟨fun v hv => by cases hv; exact Eq.symm ‹_›, fun h => absurd ‹_› h⟩
  · exact ⟨fun v hv => (nomatch hv), fun _ => by simp [fixedSize, *]⟩

theorem typeId_of_zeroForTypeId {t : UInt8} {v : FieldValue}
    (h : FieldValue.zeroForTypeId t = some v) : v.typeId = t &&& 0x7F := by
  unfold FieldValue.zeroForTypeId at h
  dsimp only at h
  generalize t &&& 0x7F = r at *
  repeat' split at h
  all_goals cases h
  all_goals exact Eq.symm (by assumption)

theorem fieldValue_typeId (typeId : UInt8) (data : Bytes) (v : FieldValue)
    (h : (fieldValue typeId data).1 = some v) : v.typeId = typeId &&& 0x7F := by
  unfold fieldValue at h
  split at h
  · rw [typeId_of_zeroForTypeId h, UInt8.and_assoc, UInt8.and_self]
  · exact (tryReadFieldValue_spec data _).1 v h

/-- Skipping leaves what reading leaves, unless the length is missing. -/
theorem skipFieldByTypeId_eq (typeId : UInt8) (data : Bytes) :
    skipFieldByTypeId data typeId =
      if lengthMissing typeId data then none else some (fieldValue typeId data).2 := by
  unfold skipFieldByTypeId fieldValue lengthMissing
  by_cases hzero : typeId &&& tidZeroFlag = 0
  · by_cases hstring : typeId &&& 0x7F = tidString
    · have hread : (tryReadFieldValue data tidString).2 =
          ((Cursor.u16 data).map fun p => p.2.drop p.1.toNat).getD data := by
        unfold tryReadFieldValue
        cases hlen : Cursor.u16 data <;> rfl
      by_cases hlen : data.length < 2
      · simp [hzero, hstring, Cursor.u16, Cursor.take, hlen]
      · simp [hzero, hstring, hread, Cursor.u16, Cursor.take, hlen]
    · simp [hzero, hstring, (tryReadFieldValue_spec data _).2 hstring]
  · simp [hzero]

/-- What is stored of a field under its name. -/
def storedField (names : List Text) (idx : UInt16) (value : Option FieldValue) : StrategyFields :=
  ((names[idx.toNat]?).bind fun name => value.map fun v => (name, v)).toList

theorem readField_eq (names : List Text)
    (readerFields : Option (List (Option UInt8))) (data : Bytes) :
    readField names readerFields data =
      (Cursor.u16 data).bind fun p => (Cursor.u8 p.2).bind fun q =>
        if readerAccepts readerFields p.1.toNat (q.1 &&& 0x7F) then
          some (storedField names p.1 (fieldValue q.1 q.2).1, (fieldValue q.1 q.2).2)
        else if lengthMissing q.1 q.2 then none
        else some ([], (fieldValue q.1 q.2).2) := by
  unfold readField
  simp only [skipFieldByTypeId_eq, bind_eq_bind]
  refine Option.bind_congr fun p _ => Option.bind_congr fun q _ => ?_
  split
  · rfl
  · split <;> rfl

theorem storedField_filter (names : List Text) (types : Option FieldTypes) (idx : UInt16)
    {t : UInt8} {value : Option FieldValue} (h : ∀ v, value = some v → v.typeId = t) :
    (storedField names idx value).filter (keepsField types) =
      if readerAccepts (types.map (buildReaderFields names)) idx.toNat t then
        storedField names idx value else [] := by
  unfold storedField keepsField readerAccepts buildReaderFields
  cases types with
  | none => simp
  | some types =>
    cases hname : names[idx.toNat]? with
    | none => simp
    | some name =>
      cases value with
      | none => simp
      | some v => simp [hname, h v rfl, filter_cons]

/-- The part of what the full reader has read that a reader with types keeps. -/
def keepFields (types : Option FieldTypes) (p : StrategyFields × Bytes) : StrategyFields × Bytes :=
  (p.1.filter (keepsField types), p.2)

/-- Only a string without its length stops a reader where the full reader goes on. -/
theorem readField_reduced (names : List Text) (types : Option FieldTypes)
    (data : Bytes) :
    readField names (types.map (buildReaderFields names)) data =
        (readField names none data).map (keepFields types) ∨
      readField names (types.map (buildReaderFields names)) data = none ∧
        hasLength data = false := by
  rw [readField_eq, readField_eq]
  unfold hasLength
  cases Cursor.u16 data with
  | none => exact .inl rfl
  | some p =>
    rw [bind_some, bind_some, all_some]
    cases Cursor.u8 p.2 with
    | none => exact .inl rfl
    | some q =>
      rw [bind_some, bind_some, all_some]
      have hfilter := storedField_filter names types p.1 (fieldValue_typeId q.1 q.2)
      split
      · rename_i haccept
        rw [if_pos haccept] at hfilter
        exact .inl (congrArg (fun fields => some (fields, _)) hfilter.symm)
      · rename_i haccept
        rw [if_neg haccept] at hfilter
        split
        · rename_i hmissing
          exact .inr ⟨rfl, by rw [hmissing]; rfl⟩
        · exact .inl (congrArg (fun fields => some (fields, _)) hfilter.symm)

/-! ## The fields of a strategy -/

theorem readStrategyFields_reduced (names : List Text)
    (types : Option FieldTypes) : ∀ (n : Nat) (data : Bytes),
    readStrategyFields names (types.map (buildReaderFields names)) n data =
        (readStrategyFields names none n data).map (keepFields types) ∨
      readStrategyFields names (types.map (buildReaderFields names)) n data = none ∧
        fieldsHaveLengths names n data = false
  | 0, data => .inl rfl
  | n + 1, data => by
    unfold readStrategyFields fieldsHaveLengths
    rcases readField_reduced names types data with h | ⟨h, hlen⟩
    · rw [h]
      cases readField names none data with
      | none => exact .inl rfl
      | some p =>
        simp only [map_some, bind_eq_bind, bind_some, all_some]
        rcases readStrategyFields_reduced names types n p.2 with hrec | ⟨hrec, hlen⟩
        · refine .inl ?_
          rw [show (keepFields types p).2 = p.2 from rfl, hrec]
          cases readStrategyFields names none n p.2 with
          | none => rfl
          | some q => simp [keepFields]
        · refine .inr ⟨?_, by simp [hlen]⟩
          rw [show (keepFields types p).2 = p.2 from rfl, hrec]
          rfl
    · exact .inr ⟨by rw [h]; rfl, by rw [hlen]; rfl⟩

/-- Only a string without its length stops the skipping where the full reader goes on. -/
theorem skipStrategyFields_reduced (names : List Text) :
    ∀ (n : Nat) (data : Bytes),
    skipStrategyFields n data = (readStrategyFields names none n data).map Prod.snd ∨
      skipStrategyFields n data = none ∧ fieldsHaveLengths names n data = false
  | 0, data => .inl rfl
  | n + 1, data => by
    unfold skipStrategyFields readStrategyFields fieldsHaveLengths hasLength
    simp only [readField_eq, skipFieldByTypeId_eq, readerAccepts, if_true]
    cases Cursor.u16 data with
    | none => exact .inl rfl
    | some p =>
      simp only [bind_eq_bind, bind_some, all_some]
      cases Cursor.u8 p.2 with
      | none => exact .inl rfl
      | some q =>
        by_cases hmissing : lengthMissing q.1 q.2 = true
        · exact .inr ⟨by simp [hmissing], by simp [hmissing]⟩
        · rcases skipStrategyFields_reduced names n (fieldValue q.1 q.2).2 with
            h | ⟨h, hlen⟩
          · refine .inl ?_
            simp only [bind_some, hmissing, Bool.false_eq_true, if_false, h]
            cases readStrategyFields names none n (fieldValue q.1 q.2).2 <;> rfl
          · exact .inr ⟨by simp [hmissing, h], by simp [hlen]⟩

/-! ## The strategies of a batch -/

theorem foldl_replay_collect : ∀ (visits : List Visit) (s : List StrategySnapshot),
    visits.foldl (replay (fun s _ => s) fun s x => s ++ [x]) s =
      s ++ visits.filterMap Visit.strategy?
  | [], s => (append_nil s).symm
  | .header _ :: visits, s => foldl_replay_collect visits s
  | .strategy x :: visits, s => by
    rw [foldl_cons, foldl_replay_collect, replay, append_assoc]
    rfl

section batch

variable (skip : StrategyHeader → Bool) (types : Option FieldTypes)

/-- What the streaming reader hands over of what the full reader has read. -/
def deliveredOf (strategies : List StrategySnapshot) : List StrategySnapshot :=
  (strategies.filter fun s => !skip s.header).map (StrategySnapshot.reduced types)

theorem header_withFields (h : StrategyHeader) (fields : StrategyFields) :
    (h.withFields fields).header = h := rfl

/-- **The streaming loop against the full one**, in every case. -/
theorem scan_reduced (names paths : List Text) : ∀ (n : Nat) (data : Bytes),
    (∃ full, readStrategies names paths none n data = some full ∧ full.length = n ∧
        (scan skip names paths (types.map (buildReaderFields names)) n data).2 = some () ∧
        (scan skip names paths (types.map (buildReaderFields names)) n data).1.filterMap
          Visit.strategy? = deliveredOf skip types full) ∨
      (scan skip names paths (types.map (buildReaderFields names)) n data).2 = none ∧
        (readStrategies names paths none n data = none ∨
          strategiesHaveLengths names paths n data = false)
  | 0, _ => .inl ⟨[], rfl, rfl, rfl, rfl⟩
  | n + 1, data => by
    unfold readStrategies strategiesHaveLengths scan
    cases readStrategyHeader paths data with
    | none => exact .inr ⟨rfl, .inl rfl⟩
    | some p =>
      simp only [bind_eq_bind, bind_some, all_some]
      cases Cursor.u16 p.2 with
      | none => exact .inr ⟨rfl, .inl rfl⟩
      | some q =>
        simp only [bind_some, all_some]
        have hskips := skipStrategyFields_reduced names q.1.toNat q.2
        have hreads := readStrategyFields_reduced names types q.1.toNat q.2
        cases hfields : readStrategyFields names none q.1.toNat q.2 with
        | none =>
          -- both readers have stopped, for one reason or the other
          rw [hfields] at hskips hreads
          have hskips := hskips.elim id And.left
          have hreads := hreads.elim id And.left
          refine .inr ⟨?_, .inl rfl⟩
          split
          · rw [hskips]
            rfl
          · rw [hreads]
            rfl
        | some r =>
          rw [hfields] at hskips hreads
          simp only [bind_some, all_some]
          have hfails : ∀ {b : Bool}, b = false → (b && strategiesHaveLengths names paths n r.2)
              = false := fun h => by rw [h]; rfl
          -- a skipped strategy and one that is handed over differ in the visits only
          split
          on_goal 1 => rcases hskips with h | ⟨h, hlen⟩
          on_goal 3 => rcases hreads with h | ⟨h, hlen⟩
          on_goal 2 => exact .inr ⟨by rw [h], .inr (hfails hlen)⟩
          on_goal 3 => exact .inr ⟨by rw [h], .inr (hfails hlen)⟩
          all_goals
            rename_i hold
            rw [h]
            rcases scan_reduced names paths n r.2 with ⟨full, hf, hn, hs, hd⟩ | ⟨hs, hf⟩
            · refine .inl ⟨p.1.withFields r.1 :: full, by rw [hf]; rfl, congrArg Nat.succ hn,
                hs, ?_⟩
              simp only [deliveredOf, filter_cons, header_withFields, hold, Bool.not_true,
                Bool.not_false, if_true, Bool.false_eq_true, if_false]
              first | exact hd | exact congrArg (_ :: ·) hd
            · refine .inr ⟨hs, hf.imp (fun hf => by rw [hf]; rfl) fun hf => ?_⟩
              rw [hf, Bool.and_false]

/-- **The streaming reader stays in step with the full one.** If it accepts a plain payload, the
full reader accepts it too, with as many strategies and the same paths, and the streaming one has
handed over those that are not skipped, in order, with the fields that are known with their type.
If the full reader accepts it and no string lacks its length bytes, the streaming one accepts. -/
theorem streaming_in_step (data : Bytes) : (∀ delivered count paths,
      parseForEachPlain (fun s h => (skip h, s)) (fun s x => s ++ [x]) types data [] =
        (delivered, some (count, paths)) →
      ∃ batch, parseStrategyBatchPlain none data = some batch ∧
        batch.strategies.length = count ∧ batch.paths = paths ∧
        delivered = (batch.strategies.filter fun s => !skip s.header).map
          (StrategySnapshot.reduced types)) ∧
    (∀ batch, parseStrategyBatchPlain none data = some batch → batchHasLengths data = true →
      (parseForEachPlain (fun s h => (skip h, s)) (fun s x => s ++ [x]) types data
        []).2.isSome) := by
  unfold parseForEachPlain parseStrategyBatchPlain batchHasLengths
  cases readDict data with
  | none => simp
  | some p =>
    simp only [bind_eq_bind, bind_some, all_some]
    cases readDict p.2 with
    | none => simp
    | some q =>
      simp only [bind_some, all_some]
      cases Cursor.u16 q.2 with
      | none => simp
      | some r =>
        simp only [bind_some, all_some, map_none]
        rw [forEachStrategy_eq_scan, foldl_replay_collect]
        rcases scan_reduced skip types p.1 q.1 r.1.toNat r.2 with
          ⟨full, hf, hn, hs, hd⟩ | ⟨hs, hf⟩
        · rw [hf, hs, hd]
          simp [deliveredOf, hn]
        · rw [hs]
          refine ⟨fun _ _ _ h => (nomatch (Prod.mk.inj h).2), fun batch hb hlen => ?_⟩
          rcases hf with hf | hf
          · rw [hf] at hb
            exact nomatch hb
          · exact absurd (hf.symm.trans hlen) Bool.false_ne_true

-- strategy 1 is skipped, and of strategy 2 the field `U`, which is not known, is dropped
example : parseForEachPlain (fun s h => (h.strategyId == 1, s)) (fun s x => s ++ [x])
    (some fun name => if name = [0x4E] then some tidByte else none)
    ([2, 0, 1, 0x4E, 1, 0x55, 1, 0, 1, 0x61, 2, 0] ++
      1 :: (replicate 23 0 ++ [1, 0, 1, 0, tidBool, 1]) ++
      2 :: (replicate 23 0 ++ [2, 0, 0, 0, tidByte, 5, 1, 0, tidBool, 1])) [] =
    ([⟨2, 0, 0, false, 0, [0x61], [([0x4E], .byte 5)]⟩], some (2, [[0x61]])) := by
  decide +kernel

end batch

end MoonProto
