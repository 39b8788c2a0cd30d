import MoonProto.Lib.Ring

/-!
# The retained history ring

Model of `SeqRing` (`state/seq_ring.rs`): the writer's operations, the reads by
sequence number and the per-consumer cursors. Rows are of an arbitrary type with a
default value. The backing array is empty until a row has to be stored, so
`capacity` is a field of its own; an index outside the array panics in the source
and is `none` here. Sequence numbers are 64-bit and wrap.

The lock makes every operation below atomic. The revision counter of the
diagnostics build is left out.
-/

namespace MoonProto

variable {T : Type*}

inductive SeqRingError where
  | zeroCapacity
deriving DecidableEq, Repr

structure SeqRingState (T : Type*) where
  /-- empty until the first materialized row -/
  rows : List T
  capacity : Nat
  nextSeq : Nat
  len : Nat
deriving DecidableEq, Repr

structure SeqRingBounds where
  oldestSeq : Nat
  /-- one past the newest published sequence -/
  nextSeq : Nat
  len : Nat
  capacity : Nat
deriving DecidableEq, Repr

structure SeqRingReadMeta where
  requestedStartSeq : Nat
  actualStartSeq : Nat
  nextSeq : Nat
  copied : Nat
  clipped : Bool
  concurrentMiss : Bool
deriving DecidableEq, Repr

structure SeqRingDrainMeta where
  copied : Nat
  clipped : Bool
  caughtUp : Bool
  concurrentMiss : Bool
deriving DecidableEq, Repr

structure SeqRingCursor where
  nextSeq : Nat
deriving DecidableEq, Repr

/-- A retained range as one or two physical slices, in sequence order. -/
structure SeqRingReadView (T : Type*) where
  first : List T
  second : List T
  readMeta : SeqRingReadMeta
deriving DecidableEq, Repr

namespace SeqRingReadView

/-- `for_each` with the state its closure captures made explicit. -/
def forEach {R : Type*} (view : SeqRingReadView T) (f : R → T → R) (init : R) : R :=
  view.second.foldl f (view.first.foldl f init)

def copyTo (view : SeqRingReadView T) : List T :=
  view.first ++ view.second

end SeqRingReadView

namespace SeqRingState

/-! ## State -/

def new (capacity : Nat) : Except SeqRingError (SeqRingState T) :=
  if capacity = 0 then .error .zeroCapacity
  else .ok { rows := [], capacity := capacity, nextSeq := 0, len := 0 }

def bounds (s : SeqRingState T) : SeqRingBounds where
  oldestSeq := s.nextSeq - s.len
  nextSeq := s.nextSeq
  len := s.len
  capacity := s.capacity

def slotIndex (s : SeqRingState T) (seq : Nat) : Nat :=
  seq % s.capacity

/-- `seq.wrapping_add(1)`. -/
def seqSucc (seq : Nat) : Nat :=
  (seq + 1) % 2 ^ 64

/-- Clamp the requested start to the retained range; the end is the sequence
number one past the last row read. -/
def readMeta (s : SeqRingState T) (startSeq limit : Nat) : SeqRingReadMeta × Nat :=
  let bounds := s.bounds
  let actualStartSeq := min (max startSeq bounds.oldestSeq) bounds.nextSeq
  let endSeq := min (min (actualStartSeq + limit) (2 ^ 64 - 1)) bounds.nextSeq
  ({ requestedStartSeq := startSeq
     actualStartSeq := actualStartSeq
     nextSeq := bounds.nextSeq
     copied := endSeq - actualStartSeq
     clipped := actualStartSeq != startSeq
     concurrentMiss := false }, endSeq)

/-- The physical slices of a range; `none` where slicing the array would panic. -/
def slices (s : SeqRingState T) (startSeq endSeq : Nat) : Option (List T × List T) :=
  let len := endSeq - startSeq
  if len = 0 then some ([], [])
  else
    let start := s.slotIndex startSeq
    let firstLen := min len (s.capacity - start)
    let secondLen := len - firstLen
    if start + firstLen ≤ s.rows.length ∧ secondLen ≤ s.rows.length then
      some ((s.rows.drop start).take firstLen, s.rows.take secondLen)
    else none

variable [Inhabited T]

def ensureRows (s : SeqRingState T) : SeqRingState T :=
  if s.rows.isEmpty then { s with rows := List.replicate s.capacity default } else s

/-- A read allocates the array if lazily pushed defaults have to be seen. -/
def readMaterialized (s : SeqRingState T) : SeqRingState T :=
  if s.len = 0 ∨ s.rows.isEmpty = false then s else s.ensureRows

/-! ## Writer -/

/-- Append a row and return the overwritten row when the ring was full. -/
def pushWithEvicted (s : SeqRingState T) (row : T) :
    Option ((Nat × Option T) × SeqRingState T) :=
  let s := s.ensureRows
  let seq := s.nextSeq
  let idx := s.slotIndex seq
  s.rows[idx]?.map fun old =>
    let full := s.len = s.capacity
    ((seq, if full then some old else none),
      { s with
        rows := s.rows.set idx row
        nextSeq := seqSucc seq
        len := if full then s.len else s.len + 1 })

def push (s : SeqRingState T) (row : T) : Option (Nat × SeqRingState T) :=
  (s.pushWithEvicted row).map fun r => (r.1.1, r.2)

/-- Advance the ring with a default-valued slot without allocating the array. -/
def pushDefaultLazy (s : SeqRingState T) : Option (Nat × SeqRingState T) :=
  let seq := s.nextSeq
  let idx := s.slotIndex seq
  let written := if s.rows.isEmpty then some s.rows
    else s.rows[idx]?.map fun _ => s.rows.set idx default
  written.map fun rows =>
    (seq, { s with
      rows := rows
      nextSeq := seqSucc seq
      len := if s.len < s.capacity then s.len + 1 else s.len })

/-- The loop of `push_batch_with_evicted`. -/
def pushBatchLoop : SeqRingState T → List T → List T → Option (List T × SeqRingState T)
  | s, [], evicted => some (evicted, s)
  | s, row :: rows, evicted =>
    let idx := s.slotIndex s.nextSeq
    s.rows[idx]?.bind fun old =>
      let room := s.len < s.capacity
      pushBatchLoop
        { s with
          rows := s.rows.set idx row
          nextSeq := seqSucc s.nextSeq
          len := if room then s.len + 1 else s.len }
        rows (if room then evicted else evicted ++ [old])

/-- Append a batch and collect overwritten rows behind those already in `evicted`. -/
def pushBatchWithEvicted (s : SeqRingState T) (rows evicted : List T) :
    Option (List T × SeqRingState T) :=
  if rows.isEmpty then some (evicted, s)
  else s.ensureRows.pushBatchLoop rows evicted

def pushBatch (s : SeqRingState T) (rows : List T) : Option (SeqRingState T) :=
  (s.pushBatchWithEvicted rows []).map Prod.snd

/-- The loop of `replace_batch`. -/
def replaceLoop : SeqRingState T → List T → Option (SeqRingState T)
  | s, [] => some s
  | s, row :: rows =>
    let idx := s.slotIndex s.nextSeq
    s.rows[idx]?.bind fun _ =>
      replaceLoop
        { s with
          rows := s.rows.set idx row
          nextSeq := seqSucc s.nextSeq
          len := s.len + 1 }
        rows

/-- Replace retained contents while keeping sequence numbers monotonic. -/
def replaceBatch (s : SeqRingState T) (rows : List T) : Option (SeqRingState T) :=
  let rows := if rows.length > s.capacity then rows.drop (rows.length - s.capacity) else rows
  let s := { s with len := 0 }
  if rows.isEmpty then some s else s.ensureRows.replaceLoop rows

/-- The array stays allocated; numbering starts again at 0. -/
def clear (s : SeqRingState T) : SeqRingState T :=
  { s with nextSeq := 0, len := 0 }

/-! ## Reader -/

def cursorFromOldest (s : SeqRingState T) : SeqRingCursor :=
  ⟨s.bounds.oldestSeq⟩

def cursorFromNow (s : SeqRingState T) : SeqRingCursor :=
  ⟨s.bounds.nextSeq⟩

def withFromSeqInternal (s : SeqRingState T) (startSeq limit : Nat) :
    Option (SeqRingReadView T × SeqRingState T) :=
  let s := s.readMaterialized
  let (readMeta, endSeq) := s.readMeta startSeq limit
  (s.slices readMeta.actualStartSeq endSeq).map fun (first, second) =>
    ({ first := first, second := second, readMeta := readMeta }, s)

def withFromCursor (s : SeqRingState T) (cursor : SeqRingCursor) (limit : Nat) :
    Option (SeqRingReadView T × SeqRingState T) :=
  s.withFromSeqInternal cursor.nextSeq limit

def withLast (s : SeqRingState T) (limit : Nat) :
    Option (SeqRingReadView T × SeqRingState T) :=
  let s := s.readMaterialized
  let bounds := s.bounds
  let limit := min limit bounds.len
  -- the subtraction of the start panics below zero
  if limit ≤ bounds.nextSeq then
    let (readMeta, endSeq) := s.readMeta (bounds.nextSeq - limit) limit
    (s.slices readMeta.actualStartSeq endSeq).map fun (first, second) =>
      ({ first := first, second := second, readMeta := readMeta }, s)
  else none

def copyLast (s : SeqRingState T) (limit : Nat) :
    Option ((List T × SeqRingReadMeta) × SeqRingState T) :=
  (s.withLast limit).map fun (view, s) => ((view.copyTo, view.readMeta), s)

def copyFromSeqInternal (s : SeqRingState T) (startSeq limit : Nat) :
    Option ((List T × SeqRingReadMeta) × SeqRingState T) :=
  (s.withFromSeqInternal startSeq limit).map fun (view, s) => ((view.copyTo, view.readMeta), s)

/-- The cursor is a position to read from and is not advanced. -/
def copyFromCursor (s : SeqRingState T) (cursor : SeqRingCursor) (limit : Nat) :
    Option ((List T × SeqRingReadMeta) × SeqRingState T) :=
  s.copyFromSeqInternal cursor.nextSeq limit

/-- Copy rows after a cursor and advance it by the rows copied. -/
def copyNewSince (s : SeqRingState T) (cursor : SeqRingCursor) (limit : Nat) :
    Option ((List T × SeqRingReadMeta × SeqRingCursor) × SeqRingState T) :=
  (s.copyFromSeqInternal cursor.nextSeq limit).map fun ((out, readMeta), s) =>
    ((out, readMeta, ⟨readMeta.actualStartSeq + readMeta.copied⟩), s)

/-- Copy new rows after a cursor and report whether the caller caught up. -/
def drainNewBounded (s : SeqRingState T) (cursor : SeqRingCursor) (limit : Nat) :
    Option ((List T × SeqRingDrainMeta × SeqRingCursor) × SeqRingState T) :=
  (s.copyFromSeqInternal cursor.nextSeq limit).map fun ((out, readMeta), s) =>
    let cursor : SeqRingCursor := ⟨readMeta.actualStartSeq + readMeta.copied⟩
    ((out,
      { copied := readMeta.copied
        clipped := readMeta.clipped
        caughtUp := decide (cursor.nextSeq ≥ readMeta.nextSeq)
        concurrentMiss := readMeta.concurrentMiss },
      cursor), s)

/-- Visit rows from a cursor in retained order. -/
def scanFromCursor {R : Type*} (s : SeqRingState T) (cursor : SeqRingCursor) (limit : Nat)
    (init : R) (f : R → T → R) : Option ((R × SeqRingReadMeta) × SeqRingState T) :=
  (s.withFromCursor cursor limit).map fun (view, s) => ((view.forEach f init, view.readMeta), s)

end SeqRingState

end MoonProto
