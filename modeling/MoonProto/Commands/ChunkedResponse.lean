import Mathlib
import MoonProto.Lib.Bytes

/-!
# Chunked responses

`commands/chunked_response.rs`. Fragments of a response come in any order, each with its
index and the announced number of fragments. The collector keeps one slot per index and
hands the slots over with the fragment that fills the last one. It is compared with a plain
record of the fragments since the last completion or change of the total.

The buffers in the slots are owned, so the sum of their lengths does not overflow, and
tables of at most 65535 slots can be allocated: the two branches for this are left out.
A slot that is not there is a panic, `none`.
-/

namespace MoonProto

open Codec List

/-- `[chunk_index:u16][chunk_total:u16][payload]`. -/
structure Fragment where
  index : Nat
  total : Nat
  payload : Bytes
  pos : 0 < total

/-- The checks at the start of `on_chunk`. -/
def Fragment.parse (data : Bytes) : Option Fragment :=
  if data.length < 4 then none
  else
    let chunkIndex := (readU16 (data.take 2)).toNat
    let chunkTotal := (readU16 ((data.drop 2).take 2)).toNat
    if h : chunkTotal = 0 then none
    else some ⟨chunkIndex, chunkTotal, data.drop 4, Nat.pos_of_ne_zero h⟩

structure ChunkedPayload where
  chunks : List (Option Bytes)
  len : Nat

inductive ChunkedResponseResult
  | ignored
  | stored
  | complete (payload : ChunkedPayload)

structure ChunkedResponseAggregator where
  chunks : List (Option Bytes) := []
  received : Nat := 0
  total : Nat := 0
  payloadBytes : Nat := 0

namespace ChunkedResponseAggregator

/-- `on_chunk` behind the checks and the choice of the table. -/
def store (a : ChunkedResponseAggregator) (f : Fragment) :
    Option (ChunkedResponseResult × ChunkedResponseAggregator) :=
  if f.total ≤ f.index then some (.ignored, a)
  else
    match a.chunks[f.index]? with
    | none => none
    | some (some _) => some (.ignored, a)
    | some none =>
      let chunks := a.chunks.set f.index (some f.payload)
      let payloadBytes := a.payloadBytes + f.payload.length
      let received := a.received + 1
      if received ≠ a.total then some (.stored, ⟨chunks, received, a.total, payloadBytes⟩)
      else some (.complete ⟨chunks, payloadBytes⟩, {})

end ChunkedResponseAggregator

/-! ## Reading a payload -/

structure ChunkReader where
  chunks : List (Option Bytes)
  current : Bytes

namespace ChunkReader

/-- The loop of `fill_buf`. -/
def fillBuf : List (Option Bytes) → Bytes → ChunkReader
  | [], current => ⟨[], current⟩
  | chunk :: chunks, current =>
    if current = [] then fillBuf chunks (chunk.getD []) else ⟨chunk :: chunks, current⟩

/-- `read` into a buffer of the given size. -/
def read (r : ChunkReader) (size : Nat) : Bytes × ChunkReader :=
  let r := fillBuf r.chunks r.current
  let len := min r.current.length size
  (r.current.take len, { r with current := r.current.drop len })

/-- What the reader still has to give. -/
def rest (r : ChunkReader) : Bytes := r.current ++ r.chunks.flatMap (·.getD [])

end ChunkReader

/-- Reads with the given buffer sizes give `bytes` in order: no read overruns its buffer,
and a read into a buffer with room gives nothing only at the end of the data. -/
def Delivers : Bytes → List Nat → List Bytes → Prop
  | _, [], outs => outs = []
  | bytes, size :: sizes, outs => ∃ out left outs', outs = out :: outs' ∧ bytes = out ++ left ∧
      out.length ≤ size ∧ (0 < size → bytes ≠ [] → out ≠ []) ∧ Delivers left sizes outs'

namespace ChunkReader

end ChunkReader

/-! ## The record of the fragments -/

/-- The announced total, and the first copy of each fragment since the last completion or
change of the total. -/
structure Collected where
  total : Nat := 0
  copy : Nat → Option Bytes := fun _ => none

namespace Collected

/-- Every index below the total has been received. -/
def Full (c : Collected) : Prop := ∀ i < c.total, (c.copy i).isSome

instance (c : Collected) : Decidable c.Full :=
  inferInstanceAs (Decidable (∀ i < c.total, _))

/-- The record that a fragment joins: a new one if it announces another total. -/
def retotal (c : Collected) (total : Nat) : Collected :=
  if c.total ≠ total then { total } else c

def push (c : Collected) (f : Fragment) : Collected :=
  { c with copy := fun i => (c.copy i).or (if i = f.index then some f.payload else none) }

/-- The record with a fragment. -/
def announce (c : Collected) (f : Fragment) : Collected := (c.retotal f.total).push f

def step (c : Collected) (data : Bytes) : Collected :=
  match Fragment.parse data with
  | none => c
  | some f => if (c.announce f).Full then {} else c.announce f

/-- The record after a sequence of fragments. -/
def after (history : List Bytes) : Collected := history.foldl step {}

def slots (c : Collected) : List (Option Bytes) := (range c.total).map c.copy

/-- The bytes of a full record. -/
def bytes (c : Collected) : Bytes := c.slots.flatMap (·.getD [])

/-- The table that holds the record. -/
def table (c : Collected) : ChunkedResponseAggregator where
  chunks := c.slots
  received := c.slots.countP Option.isSome
  total := c.total
  payloadBytes := c.bytes.length

variable {c : Collected} {f : Fragment}

theorem full_iff : c.Full ↔ c.table.received = c.total := by
  have hlen : c.total = c.slots.length := by simp [slots]
  rw [table, hlen, countP_eq_length, slots, List.forall_mem_map]
  exact forall_congr' fun i => by rw [mem_range]

end Collected

end MoonProto
