import MoonProto.Lib.ByteSet
import MoonProto.Lib.Scatter
import MoonProto.Protocol.Crypted

/-!
# Receiving sliced datagrams

`src/protocol/slicing.rs`: a large message travels as up to 256 numbered blocks.
The receiver keeps one `SlicedData` per datagram number, answers every block
with the set of blocks it has, and hands the message out when the last one is
in. A table of 4096 time stamps, indexed by the datagram number modulo 4096,
tells a new datagram from a late copy of a finished one.

Arrays are functions of the index, the hash map of datagrams is a function of
the number. The order in which the hash map is walked is an argument where it
matters. The progress counters, which only the init deadlines read, are left
out.
-/

namespace MoonProto

open Codec

/-! ## Headers and ACKs -/

structure SliceHeader where
  datagramNum : UInt16
  blockNum : UInt8
  maxBlockNum : UInt8
deriving DecidableEq

/-- `SLICE_HEADER_SIZE`. -/
def sliceHeaderSize : Nat := 4

namespace SliceHeader

def fromBytes (data : Bytes) : Option SliceHeader :=
  if data.length < sliceHeaderSize then none
  else some ⟨readU16 (field data 0 2), byteAt data 2, byteAt data 3⟩

/-- `write_to`. -/
def toBytes (h : SliceHeader) : Bytes := u16Bytes h.datagramNum ++ [h.blockNum, h.maxBlockNum]

variable (h : SliceHeader)

@[simp] theorem toBytes_length : h.toBytes.length = sliceHeaderSize := by
  simp [toBytes, sliceHeaderSize]

theorem drop_toBytes (rest : Bytes) : (h.toBytes ++ rest).drop sliceHeaderSize = rest := by
  rw [← toBytes_length h, List.drop_left]

theorem fromBytes_toBytes (rest : Bytes) : fromBytes (h.toBytes ++ rest) = some h := by
  have hnum := field_append_left (u16Bytes h.datagramNum) ([h.blockNum, h.maxBlockNum] ++ rest)
  have hblock := byteAt_append_right (u16Bytes h.datagramNum)
    ([h.blockNum, h.maxBlockNum] ++ rest) 0
  have hmax := byteAt_append_right (u16Bytes h.datagramNum)
    ([h.blockNum, h.maxBlockNum] ++ rest) 1
  simp only [u16Bytes_length] at hnum hblock hmax
  have hlen : ¬ (h.toBytes ++ rest).length < sliceHeaderSize := by
    rw [List.length_append, toBytes_length]
    omega
  unfold fromBytes
  rw [if_neg hlen]
  unfold toBytes
  rw [List.append_assoc, hnum, hblock, hmax, readU16_u16Bytes]
  rfl

end SliceHeader

/-- `ACK256_WIRE_SIZE`. -/
def ack256WireSize : Nat := 38

def buildAckBytes (flags : Vector UInt8 32) (datagramNum : UInt16) (session : UInt32) : Bytes :=
  flags.toList ++ (u16Bytes datagramNum ++ u32Bytes session)

def parseAckBytes (payload : Bytes) : Option (Vector UInt8 32 × UInt16 × UInt32) :=
  if payload.length < ack256WireSize then none
  else some (Vector.ofFn fun i => byteAt payload i, readU16 (field payload 32 2),
    readU32 (field payload 34 4))

theorem parseAckBytes_buildAckBytes (flags : Vector UInt8 32) (datagramNum : UInt16)
    (session : UInt32) :
    parseAckBytes (buildAckBytes flags datagramNum session)
      = some (flags, datagramNum, session) := by
  have hnum := field_append_right flags.toList (u16Bytes datagramNum ++ u32Bytes session) 0 2
  have hsession := field_append_right flags.toList (u16Bytes datagramNum ++ u32Bytes session) 2 4
  have hinner := field_append_right (u16Bytes datagramNum) (u32Bytes session ++ []) 0 4
  have hleft := field_append_left (u16Bytes datagramNum) (u32Bytes session)
  have hright := field_append_left (u32Bytes session) []
  simp only [Vector.length_toList, u16Bytes_length, u32Bytes_length, List.append_nil] at *
  have hlen : ¬ (buildAckBytes flags datagramNum session).length < ack256WireSize := by
    simp [buildAckBytes, ack256WireSize]
  have hflags : Vector.ofFn (fun i : Fin 32 => byteAt (buildAckBytes flags datagramNum session) i)
      = flags := by
    ext i hi
    have hlt : i < flags.toList.length := by
      rw [Vector.length_toList]
      exact hi
    simp [buildAckBytes, byteAt, List.getElem?_append_left hlt, hi]
  unfold parseAckBytes
  rw [if_neg hlen, hflags]
  unfold buildAckBytes
  rw [hnum, hsession, hinner, hleft, hright, readU16_u16Bytes, readU32_u32Bytes]

/-! ## One datagram -/

structure BlockSpan extends Scatter.Span where
  present : Bool
deriving DecidableEq

def BlockSpan.default : BlockSpan := ⟨⟨0, 0⟩, false⟩

/-- The blocks of one datagram received so far: their bytes in the order of
arrival, and for each block number where its bytes are. -/
structure SlicedData where
  blocksCount : Nat
  blockSpans : Nat → BlockSpan
  blockPayloads : Bytes
  receivedCount : Nat
  completionReturned : Bool
  ackFlags : Vector UInt8 32
  dupCount : UInt8

namespace SlicedData

def new (maxBlockNum : UInt8) : SlicedData where
  blocksCount := maxBlockNum.toNat + 1
  blockSpans := fun _ => BlockSpan.default
  blockPayloads := []
  receivedCount := 0
  completionReturned := false
  ackFlags := ByteSet.empty
  dupCount := 0

/-- `receive_piece`, with whether the datagram is complete behind it. A block
number outside the datagram changes nothing; of two copies the first one stays. -/
def receivePiece (s : SlicedData) (blockNum : UInt8) (payload : Bytes) : Bool × SlicedData :=
  let idx := blockNum.toNat
  if s.blocksCount ≤ idx then (false, s)
  else
    let s := { s with ackFlags := ByteSet.insert s.ackFlags idx }
    let s :=
      if (s.blockSpans idx).present then
        { s with dupCount := if s.dupCount = 255 then 255 else s.dupCount + 1 }
      else
        { s with
          blockPayloads := s.blockPayloads ++ payload
          blockSpans := Function.update s.blockSpans idx
            ⟨⟨s.blockPayloads.length, payload.length⟩, true⟩
          receivedCount := s.receivedCount + 1 }
    (s.receivedCount == s.blocksCount, s)

def isComplete (s : SlicedData) : Bool := s.receivedCount == s.blocksCount

/-- The spans of the datagram in block order. -/
def spans (s : SlicedData) : List Scatter.Span :=
  (List.range s.blocksCount).map fun idx => (s.blockSpans idx).toSpan

/-- A buffer with its first `skip` bytes consumed. -/
def consumeFront (buf : Bytes) (skip : Nat) : Payload :=
  ⟨buf, min skip buf.length, Nat.min_le_right _ _⟩

/-- `assemble`. When the blocks came in order their buffer is the message and is
moved out; otherwise the spans are copied out in block order. The first byte of
block 0 is the command, an empty block 0 stands for command 0. -/
def assemble (s : SlicedData) : Option (UInt8 × Payload) × SlicedData :=
  if !s.isComplete then (none, s)
  else
    let first := s.blockSpans 0
    let cmd := if first.len = 0 then 0 else byteAt s.blockPayloads first.offset
    let skip := if first.len = 0 then 0 else 1
    if Scatter.contiguous 0 s.spans then
      (some (cmd, consumeFront s.blockPayloads skip), { s with blockPayloads := [] })
    else
      (some (cmd, Payload.ofBytes (Scatter.gather s.blockPayloads
        (⟨first.offset + skip, first.len - skip⟩ :: s.spans.tail))), s)

end SlicedData

/-! ## The receiver -/

/-- `LAST_RECVD_BUF_SIZE`. -/
def lastRecvdBufSize : Nat := 4096

/-- `TIME_WHEN_CAN_RECEIVE_RPT`, in milliseconds. -/
def timeWhenCanReceiveRpt : Nat := 9000

/-- `NEVER_RECEIVED_MS`. -/
def neverReceivedMs : Int := -timeWhenCanReceiveRpt - 1

/-- The slot of a datagram number in the table of time stamps. -/
def bucket (num : UInt16) : Nat := num.toNat % lastRecvdBufSize

structure SlicingReceiver where
  receiving : UInt16 → Option SlicedData
  lastRecvdTs : Nat → Int
  lastOnline : Int
  lastCleanedReceived : Int

/-- A message as `on_new_sliced_with_session` returns it. -/
structure Assembled where
  datagramNum : UInt16
  cmd : UInt8
  data : Payload
  dupCount : UInt8
  blocksCount : Nat

namespace SlicingReceiver

def new : SlicingReceiver where
  receiving := fun _ => none
  lastRecvdTs := fun _ => neverReceivedMs
  lastOnline := 0
  lastCleanedReceived := 0

def setLastOnline (r : SlicingReceiver) (ms : Int) : SlicingReceiver := { r with lastOnline := ms }

/-- `reset_session`; the counters it keeps are not modelled. -/
def resetSession (_ : SlicingReceiver) : SlicingReceiver := new

/-- Is the slot of `num` outside the window in which a datagram counts as seen? -/
def isStale (r : SlicingReceiver) (num : UInt16) : Bool :=
  timeWhenCanReceiveRpt < (r.lastOnline - r.lastRecvdTs (bucket num)).natAbs

def stamp (r : SlicingReceiver) (num : UInt16) : SlicingReceiver :=
  { r with lastRecvdTs := Function.update r.lastRecvdTs (bucket num) r.lastOnline }

/-- `is_new_datagram`. -/
def isNewDatagram (r : SlicingReceiver) (num : UInt16) : Bool × SlicingReceiver :=
  if r.isStale num then (true, r.stamp num) else (false, r)

def put (r : SlicingReceiver) (num : UInt16) (s : SlicedData) : SlicingReceiver :=
  { r with receiving := Function.update r.receiving num (some s) }

/-- `receiving.remove`. -/
def remove (r : SlicingReceiver) (num : UInt16) : SlicingReceiver :=
  { r with receiving := Function.update r.receiving num none }

/-- The entry a block goes to: a fresh one for a new datagram and for one whose
number of blocks changed, `none` for a datagram that is already finished. -/
def entryFor (r : SlicingReceiver) (isNew : Bool) (hdr : SliceHeader) : Option SlicedData :=
  if isNew then some (SlicedData.new hdr.maxBlockNum)
  else
    (r.receiving hdr.datagramNum).map fun existing =>
      if existing.blocksCount - 1 ≠ hdr.maxBlockNum.toNat then SlicedData.new hdr.maxBlockNum
      else existing

/-- A block for an entry that takes blocks: the message if this completes it,
and the ACK. -/
def addPiece (r : SlicingReceiver) (hdr : SliceHeader) (blockData : Bytes) (sliced : SlicedData)
    (ackSession : UInt32) : (Option Assembled × Bytes) × SlicingReceiver :=
  let (complete, sliced) := sliced.receivePiece hdr.blockNum blockData
  let ack := buildAckBytes sliced.ackFlags hdr.datagramNum ackSession
  if complete then
    let (assembled, sliced') := sliced.assemble
    let sliced' := { sliced' with completionReturned := assembled.isSome }
    ((assembled.map fun m =>
        ⟨hdr.datagramNum, m.1, m.2, sliced.dupCount, sliced.blocksCount⟩, ack),
      r.put hdr.datagramNum sliced')
  else ((none, ack), r.put hdr.datagramNum sliced)

/-- `on_new_sliced_with_session`: the message if the block completes it, and the
bytes of the ACK. A late block of a finished datagram is answered with a full
ACK. -/
def onNewSlicedWithSession (r : SlicingReceiver) (payload : Bytes) (ackSession : UInt32) :
    (Option Assembled × Bytes) × SlicingReceiver :=
  match SliceHeader.fromBytes payload with
  | none => ((none, List.replicate ack256WireSize 0), r)
  | some hdr =>
    let (isNew, r) := r.isNewDatagram hdr.datagramNum
    let fullAck := buildAckBytes ByteSet.full hdr.datagramNum ackSession
    match r.entryFor isNew hdr with
    | none => ((none, fullAck), r)
    | some sliced =>
      let r := r.put hdr.datagramNum sliced
      if sliced.completionReturned then ((none, fullAck), r)
      else r.addPiece hdr (payload.drop sliceHeaderSize) sliced ackSession

/-- One visit of `clear_old`: an entry whose slot is stale goes, and its slot is
stamped. -/
def clearOne (r : SlicingReceiver) (num : UInt16) : SlicingReceiver :=
  if (r.receiving num).isSome && r.isStale num then (r.remove num).stamp num else r

/-- `clear_old`, visiting the datagrams in the order the hash map yields them. -/
def clearOld (r : SlicingReceiver) (order : List UInt16) : SlicingReceiver :=
  order.foldl clearOne r

/-- `do_cleanup`. -/
def doCleanup (r : SlicingReceiver) (order : List UInt16) : SlicingReceiver :=
  if 5000 < (r.lastCleanedReceived - r.lastOnline).natAbs then
    { r.clearOld order with lastCleanedReceived := r.lastOnline }
  else r

end SlicingReceiver

end MoonProto
