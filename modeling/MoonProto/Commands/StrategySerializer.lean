import MoonProto.Lib.Cursor
import MoonProto.Commands.OrderV2
import Mathlib.Data.List.Sort

/-!
# The strategy serializer

`commands/strategy_serializer`. A batch of strategies is written behind two dictionaries,
of field names and of folder paths, and deflated. A strategy is a header and the fields
that differ from what the reader assumes: a field is left out when it is hidden for the
kind of the strategy, unknown to the schema, of another type than the schema says, or equal
to its default; a zero is written as its type with a flag and no value. The reader with a
schema drops what the schema does not know, the generic reader keeps it.

A Rust string is its UTF-8 bytes. `StrategyFields` is the list that its `iter` gives; the
dictionary that decoded strategies share is not kept apart.
-/

namespace MoonProto

open Codec

abbrev Text := Bytes

/-- What the model leaves open: the strings that `to_lowercase` gives, the deflate codec, and
arithmetic on the bits of doubles and singles. -/
structure StrategyEnv where
  toLowercase : Text → Text
  deflate : Bytes → Bytes
  inflate : Bytes → Option Bytes
  f64 : FloatOps F64
  f64Eq : F64 → F64 → Bool
  f32 : FloatOps F32
  f32Eq : F32 → F32 → Bool

namespace StrategyEnv

/-- `v.abs() < 1e-10`. -/
def tiny64 (env : StrategyEnv) (v : F64) : Bool :=
  env.f64.lt (v &&& 0x7fffffffffffffff) (env.f64.lit 1 10)

def tiny32 (env : StrategyEnv) (v : F32) : Bool :=
  env.f32.lt (v &&& 0x7fffffff) (env.f32.lit 1 10)

/-- `MAX_INFLATE_OUTPUT_SIZE`. -/
def maxInflateOutputSize : Nat := 512 * 1024 * 1024

/-- `read_inflate_to_vec` on a `DeflateDecoder`. -/
def readInflateToVec (env : StrategyEnv) (deflateBytes : Bytes) : Option Bytes :=
  (env.inflate deflateBytes).filter fun out => out.length ≤ maxInflateOutputSize

end StrategyEnv

/-! ## Field values -/

def tidBool : UInt8 := 1
def tidInt32 : UInt8 := 2
def tidInt64 : UInt8 := 3
def tidDouble : UInt8 := 4
def tidString : UInt8 := 5
def tidByte : UInt8 := 6
def tidWord : UInt8 := 7
def tidUint32 : UInt8 := 8
def tidUint64 : UInt8 := 9
def tidSingle : UInt8 := 10
def tidZeroFlag : UInt8 := 0x80

inductive FieldValue
  | bool (v : Bool)
  | int32 (v : Int32)
  | int64 (v : Int64)
  | double (v : F64)
  | string (v : Text)
  | byte (v : UInt8)
  | word (v : UInt16)
  | uint32 (v : UInt32)
  | uint64 (v : UInt64)
  | single (v : F32)
deriving DecidableEq

namespace FieldValue

/-- `zero_for_type_id`. -/
def zeroForTypeId (typeId : UInt8) : Option FieldValue :=
  let t := typeId &&& 0x7F
  if t = tidBool then some (.bool false)
  else if t = tidInt32 then some (.int32 0)
  else if t = tidInt64 then some (.int64 0)
  else if t = tidDouble then some (.double 0)
  else if t = tidString then some (.string [])
  else if t = tidByte then some (.byte 0)
  else if t = tidWord then some (.word 0)
  else if t = tidUint32 then some (.uint32 0)
  else if t = tidUint64 then some (.uint64 0)
  else if t = tidSingle then some (.single 0)
  else none

def typeId : FieldValue → UInt8
  | bool _ => tidBool
  | int32 _ => tidInt32
  | int64 _ => tidInt64
  | double _ => tidDouble
  | string _ => tidString
  | byte _ => tidByte
  | word _ => tidWord
  | uint32 _ => tidUint32
  | uint64 _ => tidUint64
  | single _ => tidSingle

/-- `matches_type_id_inner`. -/
def matchesTypeId (v : FieldValue) (typeId : UInt8) : Bool := v.typeId == typeId &&& 0x7F

def isZero (env : StrategyEnv) : FieldValue → Bool
  | bool v => !v
  | int32 v => v == 0
  | int64 v => v == 0
  | double v => env.tiny64 v
  | string v => v.isEmpty
  | byte v => v == 0
  | word v => v == 0
  | uint32 v => v == 0
  | uint64 v => v == 0
  | single v => env.tiny32 v

/-- `is_zero_for_type_id_inner`. -/
def isZeroForTypeId (env : StrategyEnv) (v : FieldValue) (typeId : UInt8) : Bool :=
  v.matchesTypeId typeId && v.isZero env

/-- `equals_delphi_value_for_type_id_inner`: doubles and singles are compared up to `1e-10`. -/
def equalsDelphiValueForTypeId (env : StrategyEnv) (v other : FieldValue) (typeId : UInt8) : Bool :=
  if !v.matchesTypeId typeId || !other.matchesTypeId typeId then false
  else
    match v, other with
    | double a, double b => env.tiny64 (env.f64.sub a b)
    | single a, single b => env.tiny32 (env.f32.sub a b)
    | a, b => a == b

/-- The derived `==`. -/
def eq (env : StrategyEnv) : FieldValue → FieldValue → Bool
  | double a, double b => env.f64Eq a b
  | single a, single b => env.f32Eq a b
  | a, b => a == b

end FieldValue

/-! ## Strategies and the schema -/

abbrev StrategyFields := List (Text × FieldValue)

namespace StrategyFields

/-- `get`: the first value under the name. -/
def get (fields : StrategyFields) (key : Text) : Option FieldValue :=
  (fields.find? fun f => f.1 == key).map Prod.snd

end StrategyFields

structure StrategySnapshot where
  strategyId : UInt64
  strategyVer : Int32
  lastDate : UInt64
  checked : Bool
  kind : UInt8
  path : Text
  fields : StrategyFields
deriving DecidableEq

/-- Of a schema field, what the serializer and the state read. -/
structure StrategySchemaField where
  name : Text
  rawTypeId : UInt8
  defaultValue : Option FieldValue
  visibleKindOrdinals : List UInt8
  visibleKindMask : UInt32
deriving DecidableEq

structure StrategySchema where
  fields : List StrategySchemaField
deriving DecidableEq

/-- `visible_for_kind`. -/
def StrategySchemaField.visibleForKind (f : StrategySchemaField) (kind : UInt8) : Bool :=
  if kind < 32 then f.visibleKindMask &&& (1 <<< kind.toUInt32) != 0
  else f.visibleKindOrdinals.contains kind

/-- `StrategySchema::field`. -/
def StrategySchema.field (schema : StrategySchema) (name : Text) : Option StrategySchemaField :=
  schema.fields.find? fun f => f.name == name

/-- `HashMap<String, u8>` from field names to type ids. -/
abbrev FieldTypes := Text → Option UInt8

def FieldTypes.add (types : FieldTypes) (f : StrategySchemaField) : FieldTypes :=
  Function.update types f.name (some f.rawTypeId)

/-- `build_schema_field_type_map`, also the `collect` of `apply_schema_raw`: of two fields
with one name the later one is kept. -/
def StrategySchema.fieldTypes (schema : StrategySchema) : FieldTypes :=
  schema.fields.foldl FieldTypes.add fun _ => none

/-! ## The writer -/

/-- `write_u8_len_bytes`: the length is cut to a byte and so are the bytes. -/
def writeU8LenBytes (bytes : Bytes) : Bytes :=
  let len := UInt8.ofNat bytes.length
  len :: bytes.take len.toNat

/-- `write_u16_len_bytes`. -/
def writeU16LenBytes (bytes : Bytes) : Bytes :=
  let len := UInt16.ofNat bytes.length
  u16Bytes len ++ bytes.take len.toNat

/-- The bytes of a value behind its type. -/
def FieldValue.valueBytes : FieldValue → Bytes
  | bool v => [if v then 1 else 0]
  | byte v => [v]
  | word v => u16Bytes v
  | int32 v => u32Bytes v.toUInt32
  | uint32 v => u32Bytes v
  | int64 v => u64Bytes v.toUInt64
  | uint64 v => u64Bytes v
  | single v => u32Bytes v
  | double v => u64Bytes v
  | string v => writeU16LenBytes v

/-- `write_field`. -/
def writeField (env : StrategyEnv) (v : FieldValue) : Bytes :=
  if v.isZero env then [v.typeId ||| tidZeroFlag] else v.typeId :: v.valueBytes

/-- `strategy_schema_field_should_write`. -/
def strategySchemaFieldShouldWrite (env : StrategyEnv) (field : StrategySchemaField)
    (value : FieldValue) : Bool :=
  if !value.matchesTypeId field.rawTypeId then false
  else
    match field.defaultValue with
    | some defaultValue => !value.equalsDelphiValueForTypeId env defaultValue field.rawTypeId
    | none => !value.isZeroForTypeId env field.rawTypeId

/-- A dictionary that grows: the entries and the index of each. -/
structure TextDict where
  entries : List Text := []
  idx : Text → Option UInt16 := fun _ => none

/-- `name_index` and `path_index`: an entry that is not there yet is added at the end. -/
def TextDict.index (d : TextDict) (text : Text) : UInt16 × TextDict :=
  match d.idx text with
  | some i => (i, d)
  | none =>
    let i := UInt16.ofNat d.entries.length
    (i, { entries := d.entries ++ [text], idx := Function.update d.idx text (some i) })

structure StrategyBatchBuilder where
  schemaFields : List StrategySchemaField
  dictionaryKinds : List UInt8 := []
  nameDict : TextDict := {}
  pathDict : TextDict := {}
  body : Bytes := []
  count : UInt16 := 0

namespace StrategyBatchBuilder

def new (schema : StrategySchema) : StrategyBatchBuilder := { schemaFields := schema.fields }

/-- `field_by_name`: of two fields with one name the later one is found. -/
def fieldByName (schemaFields : List StrategySchemaField) (name : Text) :
    Option (Nat × StrategySchemaField) :=
  (schemaFields.zipIdx.reverse.find? fun p => p.1.name == name).map fun p => (p.2, p.1)

/-- All names that are visible for the kind go into the dictionary, at the first strategy of
the kind. -/
def declareKind (b : StrategyBatchBuilder) (kind : UInt8) : StrategyBatchBuilder :=
  if b.dictionaryKinds.contains kind then b
  else
    { b with
      dictionaryKinds := kind :: b.dictionaryKinds
      nameDict := b.schemaFields.foldl
        (fun d field => if field.visibleForKind kind then (d.index field.name).2 else d)
        b.nameDict }

/-- The fields that are written, with their place in the schema. -/
def fieldsToWrite (env : StrategyEnv) (schemaFields : List StrategySchemaField)
    (s : StrategySnapshot) : List (Nat × StrategySchemaField × FieldValue) :=
  let found := s.fields.filterMap fun (name, value) =>
    (fieldByName schemaFields name).bind fun (schemaIdx, field) =>
      if !field.visibleForKind s.kind then none
      else if !strategySchemaFieldShouldWrite env field value then none
      else some (schemaIdx, field, value)
  found.insertionSort fun x y => x.1 ≤ y.1

/-- One written field: the index of its name and its value. -/
def writeEntry (env : StrategyEnv) (acc : TextDict × Bytes × UInt16)
    (entry : Nat × StrategySchemaField × FieldValue) : TextDict × Bytes × UInt16 :=
  let (idx, dict) := acc.1.index entry.2.1.name
  (dict, acc.2.1 ++ u16Bytes idx ++ writeField env entry.2.2, acc.2.2 + 1)

/-- `write_strategy`. The field count is known once the fields are written, and stands in
front of them. -/
def writeStrategy (env : StrategyEnv) (b : StrategyBatchBuilder) (s : StrategySnapshot) :
    StrategyBatchBuilder :=
  let (pathId, pathDict) := b.pathDict.index s.path
  let b := { b with pathDict }.declareKind s.kind
  let header := u64Bytes s.strategyId ++ u32Bytes s.strategyVer.toUInt32 ++ u64Bytes s.lastDate ++
    [if s.checked then 1 else 0] ++ [s.kind] ++ u16Bytes pathId
  let (nameDict, fields, fieldCount) :=
    (fieldsToWrite env b.schemaFields s).foldl (writeEntry env) (b.nameDict, [], 0)
  { b with
    nameDict
    body := b.body ++ header ++ u16Bytes fieldCount ++ fields
    count := b.count + 1 }

/-- The batch before it is deflated. -/
def plainStrategyBatch (names paths : List Text) (body : Bytes) (count : UInt16) : Bytes :=
  u16Bytes (UInt16.ofNat names.length) ++ names.flatMap writeU8LenBytes ++
    u16Bytes (UInt16.ofNat paths.length) ++ paths.flatMap writeU8LenBytes ++
    u16Bytes count ++ body

/-- `finalize_strategy_batch`. -/
def finalizeStrategyBatch (env : StrategyEnv) (names paths : List Text) (body : Bytes)
    (count : UInt16) : Bytes :=
  env.deflate (plainStrategyBatch names paths body count)

def finalize (env : StrategyEnv) (b : StrategyBatchBuilder) : Bytes :=
  finalizeStrategyBatch env b.nameDict.entries b.pathDict.entries b.body b.count

/-- `folder_payload`. -/
def folderPayload (env : StrategyEnv) (paths : List Text) : Bytes :=
  finalizeStrategyBatch env [] paths [] 0

end StrategyBatchBuilder

/-! ## The reader -/

structure StrategyBatch where
  names : List Text
  paths : List Text
  strategies : List StrategySnapshot
deriving DecidableEq

structure StrategyHeader where
  strategyId : UInt64
  strategyVer : Int32
  lastDate : UInt64
  checked : Bool
  kind : UInt8
  path : Text
deriving DecidableEq

def StrategyHeader.withFields (h : StrategyHeader) (fields : StrategyFields) :
    StrategySnapshot where
  strategyId := h.strategyId
  strategyVer := h.strategyVer
  lastDate := h.lastDate
  checked := h.checked
  kind := h.kind
  path := h.path
  fields := fields

def readDictEntries : Nat → Bytes → Option (List Text × Bytes)
  | 0, data => some ([], data)
  | n + 1, data => do
    let (len, data) ← Cursor.u8 data
    let (s, data) ← Cursor.take len.toNat data
    let (out, data) ← readDictEntries n data
    return (decodeUtf8Delphi s :: out, data)

/-- `read_dict` and `read_dict_arc`. -/
def readDict (data : Bytes) : Option (List Text × Bytes) := do
  let (count, data) ← Cursor.u16 data
  readDictEntries count.toNat data

/-- `build_reader_fields`. -/
def buildReaderFields (names : List Text) (types : FieldTypes) : List (Option UInt8) :=
  names.map types

/-- `read_strategy_header`: an index outside the dictionary is the root path. -/
def readStrategyHeader (paths : List Text) (data : Bytes) : Option (StrategyHeader × Bytes) := do
  let (strategyId, data) ← Cursor.u64 data
  let (strategyVer, data) ← Cursor.i32 data
  let (lastDate, data) ← Cursor.u64 data
  let (checked, data) ← Cursor.u8 data
  let (kind, data) ← Cursor.u8 data
  let (pathId, data) ← Cursor.u16 data
  let path := paths.getD pathId.toNat []
  return ({ strategyId, strategyVer, lastDate, checked := checked != 0, kind, path }, data)

/-- `try_read_field_value`: a string without its length bytes and a value of an unknown type
are no value, and the reading goes on. -/
def tryReadFieldValue (data : Bytes) (typeId : UInt8) :
    Option FieldValue × Bytes :=
  if typeId = tidBool then
    let p := Cursor.zeroTail 1 data
    (some (.bool (byteAt p.1 0 != 0)), p.2)
  else if typeId = tidByte then
    let p := Cursor.zeroTail 1 data
    (some (.byte (byteAt p.1 0)), p.2)
  else if typeId = tidWord then
    let p := Cursor.zeroTail 2 data
    (some (.word (readU16 p.1)), p.2)
  else if typeId = tidInt32 then
    let p := Cursor.zeroTail 4 data
    (some (.int32 (readU32 p.1).toInt32), p.2)
  else if typeId = tidUint32 then
    let p := Cursor.zeroTail 4 data
    (some (.uint32 (readU32 p.1)), p.2)
  else if typeId = tidInt64 then
    let p := Cursor.zeroTail 8 data
    (some (.int64 (readU64 p.1).toInt64), p.2)
  else if typeId = tidUint64 then
    let p := Cursor.zeroTail 8 data
    (some (.uint64 (readU64 p.1)), p.2)
  else if typeId = tidSingle then
    let p := Cursor.zeroTail 4 data
    (some (.single (readU32 p.1)), p.2)
  else if typeId = tidDouble then
    let p := Cursor.zeroTail 8 data
    (some (.double (readU64 p.1)), p.2)
  else if typeId = tidString then
    match Cursor.u16 data with
    | none => (none, data)
    | some (len, data) =>
      let p := Cursor.zeroTail len.toNat data
      (some (.string (decodeUtf8Delphi p.1)), p.2)
  else (none, data.drop 8)

/-- The size of a value that is skipped, for all types but strings. -/
def fixedSize (realType : UInt8) : Nat :=
  if realType = tidBool ∨ realType = tidByte then 1
  else if realType = tidWord then 2
  else if realType = tidInt32 ∨ realType = tidUint32 ∨ realType = tidSingle then 4
  else 8

/-- `skip_field_by_type_id`: here a string without its length bytes ends the reading. -/
def skipFieldByTypeId (data : Bytes) (typeId : UInt8) : Option Bytes :=
  if typeId &&& tidZeroFlag != 0 then some data
  else if typeId &&& 0x7F = tidString then do
    let (len, data) ← Cursor.u16 data
    return data.drop len.toNat
  else some (data.drop (fixedSize (typeId &&& 0x7F)))

/-- Whether the reader keeps a field: without a schema always, with one if the name is known
with this type. -/
def readerAccepts (readerFields : Option (List (Option UInt8))) (fieldIdx : Nat)
    (realType : UInt8) : Bool :=
  match readerFields with
  | none => true
  | some fields => fields[fieldIdx]? == some (some realType)

/-- One field of `read_strategy_fields`: what is stored of it and the bytes behind it. -/
def readField (names : List Text) (readerFields : Option (List (Option UInt8)))
    (data : Bytes) : Option (StrategyFields × Bytes) := do
  let (fieldIdx, data) ← Cursor.u16 data
  let (typeId, data) ← Cursor.u8 data
  let realType := typeId &&& 0x7F
  if readerAccepts readerFields fieldIdx.toNat realType then
    let (value, data) :=
      if typeId &&& tidZeroFlag != 0 then (FieldValue.zeroForTypeId realType, data)
      else tryReadFieldValue data realType
    return (((names[fieldIdx.toNat]?).bind fun name => value.map fun v => (name, v)).toList, data)
  else
    let data ← skipFieldByTypeId data typeId
    return ([], data)

/-- The loop of `read_strategy_fields`. -/
def readStrategyFields (names : List Text)
    (readerFields : Option (List (Option UInt8))) : Nat → Bytes → Option (StrategyFields × Bytes)
  | 0, data => some ([], data)
  | n + 1, data => do
    let (stored, data) ← readField names readerFields data
    let (fields, data) ← readStrategyFields names readerFields n data
    return (stored ++ fields, data)

/-- `skip_strategy_fields`. -/
def skipStrategyFields : Nat → Bytes → Option Bytes
  | 0, data => some data
  | n + 1, data => do
    let (_, data) ← Cursor.u16 data
    let (typeId, data) ← Cursor.u8 data
    let data ← skipFieldByTypeId data typeId
    skipStrategyFields n data

/-- The loop of `parse_strategy_batch_plain_with_schema_field_types`. -/
def readStrategies (names paths : List Text)
    (readerFields : Option (List (Option UInt8))) : Nat → Bytes → Option (List StrategySnapshot)
  | 0, _ => some []
  | n + 1, data => do
    let (header, data) ← readStrategyHeader paths data
    let (fieldCount, data) ← Cursor.u16 data
    let (fields, data) ← readStrategyFields names readerFields fieldCount.toNat data
    let strategies ← readStrategies names paths readerFields n data
    return header.withFields fields :: strategies

/-- `parse_strategy_batch_plain_with_schema_field_types`. -/
def parseStrategyBatchPlain (types : Option FieldTypes) (data : Bytes) :
    Option StrategyBatch := do
  let (names, data) ← readDict data
  let (paths, data) ← readDict data
  let readerFields := types.map (buildReaderFields names)
  let (count, data) ← Cursor.u16 data
  let strategies ← readStrategies names paths readerFields count.toNat data
  return { names, paths, strategies }

/-- `parse_strategy_batch_with_schema_field_types`. -/
def parseStrategyBatch (env : StrategyEnv) (types : Option FieldTypes) (deflateBytes : Bytes) :
    Option StrategyBatch := do
  parseStrategyBatchPlain types (← env.readInflateToVec deflateBytes)

section forEach

variable {σ : Type} (env : StrategyEnv) (shouldSkipOld : σ → StrategyHeader → Bool × σ)
  (onStrategy : σ → StrategySnapshot → σ)

/-- The loop of `parse_strategy_batch_plain_for_each_with_schema_field_types`. The callbacks
change `s`, and what they did before a failure stays. -/
def forEachStrategy (names paths : List Text) (readerFields : Option (List (Option UInt8))) :
    Nat → Bytes → σ → σ × Option Unit
  | 0, _, s => (s, some ())
  | n + 1, data, s =>
    match readStrategyHeader paths data with
    | none => (s, none)
    | some (header, data) =>
      match Cursor.u16 data with
      | none => (s, none)
      | some (fieldCount, data) =>
        let (skip, s) := shouldSkipOld s header
        if skip then
          match skipStrategyFields fieldCount.toNat data with
          | none => (s, none)
          | some data => forEachStrategy names paths readerFields n data s
        else
          match readStrategyFields names readerFields fieldCount.toNat data with
          | none => (s, none)
          | some (fields, data) =>
            forEachStrategy names paths readerFields n data
              (onStrategy s (header.withFields fields))

/-- `parse_strategy_batch_plain_for_each_with_schema_field_types`: the number of strategies
and the paths. -/
def parseForEachPlain (types : Option FieldTypes) (data : Bytes) (s : σ) :
    σ × Option (Nat × List Text) :=
  match readDict data with
  | none => (s, none)
  | some (names, data) =>
    match readDict data with
    | none => (s, none)
    | some (paths, data) =>
      match Cursor.u16 data with
      | none => (s, none)
      | some (count, data) =>
        let out := forEachStrategy shouldSkipOld onStrategy names paths
          (types.map (buildReaderFields names)) count.toNat data s
        (out.1, out.2.map fun _ => (count.toNat, paths))

/-- `parse_strategy_batch_for_each_with_schema_field_types_skip_old`. -/
def parseForEach (types : Option FieldTypes) (deflateBytes : Bytes) (s : σ) :
    σ × Option (Nat × List Text) :=
  match env.readInflateToVec deflateBytes with
  | none => (s, none)
  | some data => parseForEachPlain shouldSkipOld onStrategy types data s

end forEach

end MoonProto
