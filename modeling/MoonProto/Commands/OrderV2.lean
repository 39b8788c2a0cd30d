import MoonProto.Lib.Bytes
import MoonProto.Lib.FloatOps
import MoonProto.Lib.Scatter

/-!
# Canonical order state and order commands

`commands/trade/order_v2.rs`, with the enumerations and records of `enums.rs`,
`records.rs` and `trace.rs` that an order is made of. The core publishes an immutable
description per order and a state of 342 bytes, split into 13 sections. Images and
patches carry sections under a revision and a checksum of revision, description and
state.

Doubles and singles are kept as their bits; ids and revisions are natural numbers, as
they are only compared. Of a command header only the id is read.
-/

namespace MoonProto

open Codec List

/-- A double, as its bits. -/
abbrev F64 := UInt64

/-- A single, as its bits. -/
abbrev F32 := UInt32

/-- The ranges for the bytes behind the first one of a UTF-8 character. -/
def utf8Tail (first : UInt8) : Option (List (UInt8 × UInt8)) :=
  if first < 0x80 then some []
  else if first < 0xC2 then none
  else if first < 0xE0 then some [(0x80, 0xBF)]
  else if first < 0xF0 then some [(if first = 0xE0 then 0xA0 else 0x80,
    if first = 0xED then 0x9F else 0xBF), (0x80, 0xBF)]
  else if first < 0xF5 then some [(if first = 0xF0 then 0x90 else 0x80,
    if first = 0xF4 then 0x8F else 0xBF), (0x80, 0xBF), (0x80, 0xBF)]
  else none

/-- How many bytes from the front lie in their ranges. -/
def inRanges : List (UInt8 × UInt8) → Bytes → Nat
  | (low, high) :: ranges, b :: data =>
    if low ≤ b ∧ b ≤ high then inRanges ranges data + 1 else 0
  | _, _ => 0

/-- The loop of `decode_utf8_delphi` behind bytes that are done with. What `from_utf8` calls
an error, a character as far as it goes or a byte that starts none, is a `?`. -/
def decodeUtf8From : Nat → Bytes → Bytes
  | _, [] => []
  | done + 1, _ :: data => decodeUtf8From done data
  | 0, b :: data =>
    let ranges := utf8Tail b
    let n := inRanges (ranges.getD []) data
    (if ranges.any (·.length == n) then b :: data.take n else [0x3F]) ++ decodeUtf8From n data

/-- `decode_utf8_delphi`; a Rust string is its UTF-8 bytes. -/
def decodeUtf8Delphi (data : Bytes) : Bytes := decodeUtf8From 0 data

/-- What the order model leaves open: the checksum of the `crc32c` crate and arithmetic on the
bits of doubles and singles. -/
structure OrderEnv where
  crc32cAppend : UInt32 → Bytes → UInt32
  f64 : FloatOps F64
  f64Eq : F64 → F64 → Bool
  f32 : FloatOps F32
  /-- `MoonTime::from_delphi_days(days).unwrap_or(MoonTime::ZERO)`. -/
  moonTimeOfDays : F64 → Int

namespace OrderEnv

/-- `(a - b).abs() <= eps`. -/
def within (env : OrderEnv) (a b eps : F64) : Bool :=
  let diff := env.f64.sub a b &&& 0x7fffffffffffffff
  env.f64.lt diff eps || env.f64Eq diff eps

/-- `MoonTime::from_unix_millis(ms).to_delphi_days()`. -/
def toDelphiDays (env : OrderEnv) (unixMs : Int) : F64 :=
  env.f64.add (env.f64.div (env.f64.ofInt unixMs) (env.f64.lit 86400000 0)) (env.f64.lit 25569 0)

/-- An environment to run the model with: whole numbers in place of doubles and singles. -/
def words (crc32cAppend : UInt32 → Bytes → UInt32) : OrderEnv where
  crc32cAppend := crc32cAppend
  f64 := ⟨fun n => UInt64.ofNat n.toNat, fun m _ => UInt64.ofNat m.toNat, (· + ·), (· - ·),
    (· * ·), (· / ·), max, min, fun a b => a < b⟩
  f64Eq := fun a b => a == b
  f32 := ⟨fun n => UInt32.ofNat n.toNat, fun m _ => UInt32.ofNat m.toNat, (· + ·), (· - ·),
    (· * ·), (· / ·), max, min, fun a b => a < b⟩
  moonTimeOfDays := fun days => days.toNat

/-- One byte of the reflected CRC-32C, bit by bit. -/
def crc32cByte (crc : UInt32) (byte : UInt8) : UInt32 :=
  (range 8).foldl (fun c _ => if c &&& 1 = 1 then (c >>> 1) ^^^ 0x82f63b78 else c >>> 1)
    (crc ^^^ byte.toUInt32)

/-- `crc32c::crc32c_append`, for running the model on concrete checksums. -/
def castagnoli (crc : UInt32) (data : Bytes) : UInt32 := ~~~ (data.foldl crc32cByte (~~~ crc))

-- the check value of CRC-32C, for the bytes of "123456789"
example : castagnoli 0 [49, 50, 51, 52, 53, 54, 55, 56, 57] = 0xe3069283 := by
  decide +kernel

end OrderEnv

/-! ## Sections -/

def orderStateSize : Nat := 342
abbrev orderSectionCount : Nat := 13
def orderSectionAllMask : Nat := 0x1fff
def orderStateHashSeed : UInt32 := 0x4f726432
def orderDescNameMax : Nat := 64

/-- Number of a section. -/
abbrev OrderSection := Fin orderSectionCount

instance : NeZero orderSectionCount := ⟨by decide⟩

def osecPhase : OrderSection := 0
def osecFlags : OrderSection := 1
def osecBuyTarget : OrderSection := 2
def osecSellTarget : OrderSection := 3
def osecBuyExec : OrderSection := 4
def osecBuyPlacement : OrderSection := 5
def osecBuySlow : OrderSection := 6
def osecSellExec : OrderSection := 7
def osecSellPlacement : OrderSection := 8
def osecSellSlow : OrderSection := 9
def osecStops : OrderSection := 10
def osecVstop : OrderSection := 11
def osecPlanned : OrderSection := 12

def orderReconcileMask : Nat :=
  2 ^ osecFlags.val ||| 2 ^ osecStops.val ||| 2 ^ osecVstop.val ||| 2 ^ osecPlanned.val

def orderSectionOffset : List Nat := [0, 9, 11, 28, 37, 70, 133, 153, 186, 249, 269, 315, 333]
def orderSectionSize : List Nat := [9, 2, 17, 9, 33, 63, 20, 33, 63, 20, 46, 18, 9]

def orderSectionSpan (i : OrderSection) : Scatter.Span :=
  ⟨orderSectionOffset.getD i.val 0, orderSectionSize.getD i.val 0⟩

theorem orderSectionSpan_inside (i : OrderSection) :
    (orderSectionSpan i).offset + (orderSectionSpan i).len ≤ orderStateSize := by
  revert i
  decide

theorem orderSectionSpan_disjoint {i j : OrderSection} (h : i ≠ j) :
    (orderSectionSpan i).offset + (orderSectionSpan i).len ≤ (orderSectionSpan j).offset ∨
      (orderSectionSpan j).offset + (orderSectionSpan j).len ≤ (orderSectionSpan i).offset := by
  revert i j
  decide

/-! ## Description -/

def oflImmune : UInt8 := 1
def oflPanicOn : UInt8 := 2
def oflPanicAuto : UInt8 := 4
def odfEmulator : UInt8 := 1
def odfIsShort : UInt8 := 2

/-- The part of an order that never changes. -/
structure OrderDescription where
  nameLen : UInt8
  name : Bytes
  flags : UInt8
  length_name : name.length = orderDescNameMax
  nameLen_le : nameLen.toNat ≤ orderDescNameMax
deriving DecidableEq

namespace OrderDescription

def nameBytes (d : OrderDescription) : Bytes := d.name.take d.nameLen.toNat
def marketName (d : OrderDescription) : Bytes := decodeUtf8Delphi d.nameBytes
def emulator (d : OrderDescription) : Bool := d.flags &&& odfEmulator != 0
def isShort (d : OrderDescription) : Bool := d.flags &&& odfIsShort != 0

end OrderDescription

/-! ## Canonical state -/

/-- The state bytes of an order. -/
structure CanonicalOrderState where
  bytes : Bytes
  length_bytes : bytes.length = orderStateSize
deriving DecidableEq

namespace CanonicalOrderState

/-- All bytes zero. -/
instance : Inhabited CanonicalOrderState :=
  ⟨⟨List.replicate orderStateSize 0, length_replicate⟩⟩

/-- `section`. -/
def sectionBytes (s : CanonicalOrderState) (i : OrderSection) : Bytes :=
  Scatter.read s.bytes (orderSectionSpan i)

variable (s : CanonicalOrderState)

theorem inside (i : OrderSection) :
    (orderSectionSpan i).offset + (orderSectionSpan i).len ≤ s.bytes.length := by
  rw [s.length_bytes]
  exact orderSectionSpan_inside i

theorem length_sectionBytes (i : OrderSection) :
    (s.sectionBytes i).length = (orderSectionSpan i).len :=
  Scatter.length_read (s.inside i)

def copySectionFrom (s source : CanonicalOrderState) (i : OrderSection) : CanonicalOrderState where
  bytes := Scatter.overwrite s.bytes (orderSectionSpan i) (source.sectionBytes i)
  length_bytes := by
    rw [Scatter.length_overwrite (s.inside i) (source.length_sectionBytes i), s.length_bytes]

/-- The state with one byte replaced. -/
def setByte (s : CanonicalOrderState) (offset : Nat) (byte : UInt8) : CanonicalOrderState where
  bytes := s.bytes.set offset byte
  length_bytes := by rw [length_set, s.length_bytes]

def readU8 (s : CanonicalOrderState) (offset : Nat) : UInt8 := byteAt s.bytes offset

def readU64 (s : CanonicalOrderState) (offset : Nat) : UInt64 :=
  Codec.readU64 (field s.bytes offset 8)

def readI64 (s : CanonicalOrderState) (offset : Nat) : Int := (s.readU64 offset).toInt64.toInt

def readF64 (s : CanonicalOrderState) (offset : Nat) : F64 := s.readU64 offset

def readF32 (s : CanonicalOrderState) (offset : Nat) : F32 :=
  Codec.readU32 (field s.bytes offset 4)

def statusByte (s : CanonicalOrderState) : UInt8 := s.readU8 0

def isTerminal (s : CanonicalOrderState) : Bool := [1, 3, 5, 7, 8].contains s.statusByte

@[simp] theorem sectionBytes_copySectionFrom_self (source : CanonicalOrderState)
    (i : OrderSection) : (s.copySectionFrom source i).sectionBytes i = source.sectionBytes i :=
  Scatter.read_overwrite_self (s.inside i) (source.length_sectionBytes i)

theorem sectionBytes_copySectionFrom_of_ne (source : CanonicalOrderState) {i j : OrderSection}
    (h : j ≠ i) : (s.copySectionFrom source i).sectionBytes j = s.sectionBytes j :=
  Scatter.read_overwrite_of_disjoint (s.inside i) (source.length_sectionBytes i)
    (orderSectionSpan_disjoint h)

/-- **The sections are the state**: two states with the same sections are equal. -/
theorem ext_sections {s t : CanonicalOrderState} (h : ∀ i, s.sectionBytes i = t.sectionBytes i) :
    s = t := by
  have hbytes : s.bytes = t.bytes := by
    apply Scatter.eq_of_reads (ofFn orderSectionSpan) (by decide)
    · rw [s.length_bytes]
      decide
    · rw [s.length_bytes, t.length_bytes]
    · intro span hspan
      obtain ⟨i, rfl⟩ := mem_ofFn.mp hspan
      exact h i
  cases s
  cases t
  cases hbytes
  rfl

theorem statusByte_eq : s.statusByte = (s.sectionBytes osecPhase).getD 0 0 := by
  have hspan : orderSectionSpan osecPhase = ⟨0, 9⟩ := by decide
  unfold statusByte readU8 byteAt sectionBytes Scatter.read
  rw [hspan, drop_zero, getD_eq_getElem?_getD, getD_eq_getElem?_getD,
    getElem?_take_of_lt (by decide)]

end CanonicalOrderState

def stateHash (env : OrderEnv) (revision : Nat) (desc : OrderDescription)
    (state : CanonicalOrderState) : UInt32 :=
  let crc := env.crc32cAppend orderStateHashSeed (leEncode 8 revision)
  let crc := env.crc32cAppend crc [desc.nameLen]
  let crc := env.crc32cAppend crc desc.nameBytes
  let crc := env.crc32cAppend crc [desc.flags]
  env.crc32cAppend crc state.bytes

/-! ## Enumerations that keep unknown bytes -/

/-- Packed boolean byte of the wire. -/
abbrev DelphiBool := UInt8

def DelphiBool.fromBool (b : Bool) : DelphiBool := if b then 1 else 0
def DelphiBool.get (b : DelphiBool) : Bool := b != 0

structure OrderType where
  byte : UInt8
deriving DecidableEq

def OrderType.sell : OrderType := ⟨0⟩
def OrderType.buy : OrderType := ⟨1⟩

structure OrderSubType where
  byte : UInt8
deriving DecidableEq

structure SellReason where
  byte : UInt8
deriving DecidableEq

/-- Where an order stands. -/
structure OrderWorkerStatus where
  byte : UInt8
deriving DecidableEq

namespace OrderWorkerStatus

def none : OrderWorkerStatus := ⟨0⟩
def buyFail : OrderWorkerStatus := ⟨1⟩
def buySet : OrderWorkerStatus := ⟨2⟩
def buyCancel : OrderWorkerStatus := ⟨3⟩
def buyDone : OrderWorkerStatus := ⟨4⟩
def sellFail : OrderWorkerStatus := ⟨5⟩
def sellSet : OrderWorkerStatus := ⟨6⟩
def sellCancel : OrderWorkerStatus := ⟨7⟩
def sellDone : OrderWorkerStatus := ⟨8⟩
def sellAlmostDone : OrderWorkerStatus := ⟨9⟩

def isTerminal (s : OrderWorkerStatus) : Bool :=
  s == sellDone || s == buyCancel || s == buyFail || s == sellFail || s == sellCancel

end OrderWorkerStatus

/-- The two notions of a terminal status, on the read model and on the state bytes, agree. -/
theorem CanonicalOrderState.isTerminal_eq (s : CanonicalOrderState) :
    s.isTerminal = (OrderWorkerStatus.mk s.statusByte).isTerminal := by
  have hbyte : ∀ n : Fin 256, [1, 3, 5, 7, 8].contains (UInt8.ofNat n.val) =
      (OrderWorkerStatus.mk (UInt8.ofNat n.val)).isTerminal := by
    decide +kernel
  have h := hbyte ⟨s.statusByte.toNat, s.statusByte.toNat_lt⟩
  rwa [UInt8.ofNat_toNat] at h

/-! ## Records -/

/-- One side of an order on the exchange. -/
structure ExchangeOrder where
  intId : Int := 0
  quantity : F64 := 0
  quantityRemaining : F64 := 0
  totalBtc : F64 := 0
  spentBtc : F64 := 0
  openTime : F64 := 0
  closeTime : F64 := 0
  actualPrice : F64 := 0
  meanPrice : F64 := 0
  quantityBase : F64 := 0
  actualQ : F64 := 0
  tmpBtc : F64 := 0
  createTime : F64 := 0
  panicSellDown : F32 := 0
  orderType : OrderType := OrderType.sell
  subType : OrderSubType := ⟨0⟩
  stopFlag : UInt8 := 0
  partialDone : UInt8 := 0
  leverage : UInt8 := 0
  isOpened : DelphiBool := 0
  isClosed : DelphiBool := 0
  canceled : DelphiBool := 0
  isShort : DelphiBool := 0
deriving DecidableEq

/-- Stop settings; equality is equality of the bits, as in the source. -/
structure StopSettings where
  stopLossOn : DelphiBool := 0
  slFixed : DelphiBool := 0
  slLevel : F64 := 0
  slSpread : F64 := 0
  trailingOn : DelphiBool := 0
  trailingFixed : DelphiBool := 0
  trailingLevel : F64 := 0
  tsSpread : F64 := 0
  useTakeProfit : DelphiBool := 0
  takeProfit : F64 := 0
  takeProfitChanged : DelphiBool := 0
deriving DecidableEq

/-- `StopSettings::read_from_delphi_stream` on the packed record of 46 bytes. -/
def StopSettings.readFromDelphiStream (bytes : Bytes) : StopSettings where
  stopLossOn := byteAt bytes 0
  slFixed := byteAt bytes 1
  slLevel := Codec.readU64 (field bytes 2 8)
  slSpread := Codec.readU64 (field bytes 10 8)
  trailingOn := byteAt bytes 18
  trailingFixed := byteAt bytes 19
  trailingLevel := Codec.readU64 (field bytes 20 8)
  tsSpread := Codec.readU64 (field bytes 28 8)
  useTakeProfit := byteAt bytes 36
  takeProfit := Codec.readU64 (field bytes 37 8)
  takeProfitChanged := byteAt bytes 45

def CanonicalOrderState.stops (s : CanonicalOrderState) : StopSettings :=
  StopSettings.readFromDelphiStream (s.sectionBytes osecStops)

structure ImmuneItem where
  uid : Nat
  value : Bool

/-! ## Commands -/

structure OrderImage where
  uid : Nat
  stateRev : Nat
  desc : OrderDescription
  sectionMask : Nat
  state : CanonicalOrderState

structure OrderPatch where
  uid : Nat
  stateRev : Nat
  stateHash : UInt32
  sectionMask : Nat
  state : CanonicalOrderState

structure OrderImageRecord where
  orderId : Nat
  stateRev : Nat
  desc : OrderDescription
  sectionMask : Nat
  state : CanonicalOrderState

structure OrderCatalogRecord where
  orderId : Nat
  stateRev : Nat

structure OrdersSnapshot where
  fromUid : Nat
  rangeEndUid : Nat
  records : List OrderImageRecord

structure OrdersCatalog where
  fromUid : Nat
  rangeEndUid : Nat
  records : List OrderCatalogRecord

/-- A point of the line that a chart draws for an order. -/
structure OrderTracePoint where
  uid : Nat
  traceTime : F64
  tracePrice : F32
  basePrice : F32
  stopPrice : F32
  ordType : OrderType
  flags : UInt8

namespace OrderTracePoint

def isTemp (p : OrderTracePoint) : Bool := p.flags &&& 1 != 0
def isFinish (p : OrderTracePoint) : Bool := p.flags &&& 2 != 0
def isInitial (p : OrderTracePoint) : Bool := p.flags &&& 4 != 0

def adjustTime (env : OrderEnv) (p : OrderTracePoint) (delta : F64) : OrderTracePoint :=
  { p with traceTime := env.f64.sub p.traceTime delta }

end OrderTracePoint

structure CorridorUpdate where
  uid : Nat
  priceDown : F32
  priceUp : F32

/-- The commands that reach the order state; `other` stands for the rest. -/
inductive TradeCommand
  | orderImage (image : OrderImage)
  | orderPatch (patch : OrderPatch)
  | ordersSnapshot (snapshot : OrdersSnapshot)
  | ordersCatalog (catalog : OrdersCatalog)
  | orderNotFound (uid : Nat)
  | orderTracePoint (point : OrderTracePoint)
  | corridorUpdate (corridor : CorridorUpdate)
  | other

/-- The order commands that local actions send. -/
inductive OrderCommandPayload
  | targetBuy (orderId : Nat) (price size : F64)
  | targetSell (orderId : Nat) (price : F64)
  | stops (orderId : Nat) (stops : StopSettings)
  | vstop (orderId : Nat) (enabled fixed : Bool) (level volume : F64)
  | panic (orderId : Nat) (enabled : Bool)
  | immune (orderId : Nat) (enabled : Bool)
  | cancelBuy (orderId : Nat)
  | cancelSell (orderId : Nat)
  | pendingCancel (orderId : Nat)
deriving DecidableEq

end MoonProto
