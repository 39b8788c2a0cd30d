import Mathlib.Logic.Function.Basic
import MoonProto.Lib.Serial
import MoonProto.Lib.Slots

/-!
# Order books

`order_books.rs` and `order_books/cache.rs`: one cache of out-of-order packets for
each book, and the applied books themselves. A full snapshot resets the cache, a
diff is applied in sequence, kept for later or dropped, and while the cache counts
as corrupted diffs are applied as they come.

The levels of a book stay a type parameter, and the merge of a diff side into a
book side is the parameter `merge`; no sequence number depends on either.
-/

namespace MoonProto

open Function

/-- `compare_seq`. -/
def compareSeq (a b : UInt16) : Int16 := (a - b).toInt16

/-- Cache lifetime, request interval and size limit (`BOOK_EXPIRED_TIMEOUT`,
`BOOK_FULL_REQUEST_THROTTLE`, `BOOK_CACHE_MAX_PACKETS`). -/
def bookExpiredTimeout : Nat := 800
def bookFullRequestThrottle : Nat := 5000
def bookCacheMaxPackets : Nat := 64

inductive OrderBookKind
  | futures
  | spot
deriving DecidableEq

/-- `from_u8(..).unwrap_or(Futures)`. -/
def OrderBookKind.ofByte (b : UInt8) : OrderBookKind := if b = 1 then .spot else .futures

structure OrderBookUpdate (lvl : Type) where
  marketIndex : UInt16
  seq : UInt16
  isFull : Bool
  bookKind : UInt8
  buys : List lvl
  sells : List lvl

structure CachedPacket (lvl : Type) where
  seq : UInt16
  pkt : OrderBookUpdate lvl

/-- The applied book; `market_index` and `kind` repeat its key. -/
structure OrderBookSnapshot (lvl : Type) where
  seq : UInt16
  revision : UInt64
  buys : List lvl
  sells : List lvl

structure TopOfBook (lvl : Type) where
  bid : Option lvl
  ask : Option lvl

inductive ApplyResult
  | cached
  | stale
deriving DecidableEq

inductive OrderBookEvent (lvl : Type)
  | apply (marketIndex : UInt16) (kind : OrderBookKind) (isFull : Bool) (seq : UInt16)
      (top : TopOfBook lvl)
  | requestFullNeeded (marketIndex : UInt16) (kind : OrderBookKind)
  | ignored (marketIndex : UInt16) (kind : OrderBookKind) (seq : UInt16) (reason : ApplyResult)

/-- `(market_index, raw book_kind)`. -/
abbrev BookKey := UInt16 × UInt8

variable {lvl : Type}

def OrderBookUpdate.key (pkt : OrderBookUpdate lvl) : BookKey := (pkt.marketIndex, pkt.bookKind)

namespace OrderBookSnapshot

def new : OrderBookSnapshot lvl := ⟨0, 0, [], []⟩

def markApplied (s : OrderBookSnapshot lvl) (seq : UInt16) : OrderBookSnapshot lvl :=
  { s with seq, revision := s.revision + 1 }

def top (s : OrderBookSnapshot lvl) : TopOfBook lvl := ⟨s.buys.head?, s.sells.head?⟩

/-- `apply_full_book`. -/
def applyFullBook (s : OrderBookSnapshot lvl) (pkt : OrderBookUpdate lvl) : OrderBookSnapshot lvl :=
  { s.markApplied pkt.seq with buys := pkt.buys, sells := pkt.sells }

/-- `apply_diff_book`: each side takes its own diff, and the other one's best price
shrinks it. -/
def applyDiffBook (merge : Bool → List lvl → List lvl → List lvl → List lvl)
    (s : OrderBookSnapshot lvl) (pkt : OrderBookUpdate lvl) : OrderBookSnapshot lvl :=
  { s.markApplied pkt.seq with
    buys := merge true s.buys pkt.buys pkt.sells
    sells := merge false s.sells pkt.sells pkt.buys }

end OrderBookSnapshot

/-! ## The cache -/

structure OrderBookCache (lvl : Type) where
  expectedSeq : UInt16
  lastAppliedSeq : UInt16
  packets : List (CachedPacket lvl)
  corrupted : Bool
  lastFullRequestMs : Int
  cacheNotEmptySinceMs : Int

namespace OrderBookCache

def new : OrderBookCache lvl := ⟨0, 0, [], false, 0, 0⟩

def binarySearchInsert (c : OrderBookCache lvl) (seq : UInt16) : Nat :=
  Slots.partitionPoint (fun p => compareSeq p.seq seq < 0) c.packets

def add (c : OrderBookCache lvl) (seq : UInt16) (pkt : OrderBookUpdate lvl) (nowMs : Int) :
    OrderBookCache lvl :=
  { c with
    cacheNotEmptySinceMs := if c.packets.isEmpty then nowMs else c.cacheNotEmptySinceMs
    packets := c.packets.insertIdx (c.binarySearchInsert seq) ⟨seq, pkt⟩ }

def checkCacheEmpty (c : OrderBookCache lvl) : OrderBookCache lvl :=
  if c.packets.isEmpty then { c with cacheNotEmptySinceMs := 0 } else c

def dropOldest (c : OrderBookCache lvl) : OrderBookCache lvl :=
  { c with packets := c.packets.tail }.checkCacheEmpty

def isExpired (c : OrderBookCache lvl) (nowMs : Int) : Bool :=
  0 < c.cacheNotEmptySinceMs && bookExpiredTimeout < (nowMs - c.cacheNotEmptySinceMs).natAbs

def tryRequestFull (c : OrderBookCache lvl) (nowMs : Int) : Bool × OrderBookCache lvl :=
  if !c.corrupted then (false, c)
  else if (nowMs - c.lastFullRequestMs).natAbs ≤ bookFullRequestThrottle then (false, c)
  else (true, { c with lastFullRequestMs := nowMs })

/-- The packets that are not behind the expected number. -/
def retainAhead (c : OrderBookCache lvl) : OrderBookCache lvl :=
  { c with packets := c.packets.filter fun p => 0 ≤ compareSeq p.seq c.expectedSeq }

end OrderBookCache

/-! ## One book -/

/-- A cache with the book it feeds. -/
structure BookSlot (lvl : Type) where
  cache : OrderBookCache lvl
  book : Option (OrderBookSnapshot lvl)

/-- What a packet brings about: events, and whether a full snapshot is requested
(the `OrderBookControl`). -/
structure BookEffects (lvl : Type) where
  events : List (OrderBookEvent lvl)
  requestFull : Bool

namespace BookSlot

variable (merge : Bool → List lvl → List lvl → List lvl → List lvl)

def applyEvent (pkt : OrderBookUpdate lvl) (book : OrderBookSnapshot lvl) : OrderBookEvent lvl :=
  .apply pkt.marketIndex (.ofByte pkt.bookKind) pkt.isFull pkt.seq book.top

/-- Apply a packet to the book, which the first one creates. -/
def applyPacket (s : BookSlot lvl) (pkt : OrderBookUpdate lvl) : OrderBookSnapshot lvl :=
  let book := s.book.getD .new
  if pkt.isFull then book.applyFullBook pkt else book.applyDiffBook merge pkt

/-- The loop of `drain_cache` over the packets of the cache: the front one is
applied as long as it is the expected one. -/
def drainLoop : List (CachedPacket lvl) → BookSlot lvl → List (OrderBookEvent lvl) × BookSlot lvl
  | [], s => ([], { s with cache := { s.cache with packets := [] } })
  | p :: rest, s =>
    if p.seq ≠ s.cache.expectedSeq then
      ([], { s with cache := { s.cache with packets := p :: rest } })
    else
      let book := s.applyPacket merge p.pkt
      let out := drainLoop rest
        { cache := { s.cache with expectedSeq := p.seq + 1, lastAppliedSeq := p.seq }
          book := some book }
      (applyEvent { p.pkt with seq := p.seq } book :: out.1, out.2)

def drainCache (s : BookSlot lvl) : List (OrderBookEvent lvl) × BookSlot lvl :=
  let cache := s.cache.retainAhead
  let out := drainLoop merge cache.packets { s with cache }
  (out.1, { out.2 with cache := out.2.cache.checkCacheEmpty })

/-- A packet that is applied in order, and the packets it lets through. -/
def applyAndDrain (s : BookSlot lvl) (pkt : OrderBookUpdate lvl) (cache : OrderBookCache lvl) :
    BookEffects lvl × BookSlot lvl :=
  let book := s.applyPacket merge pkt
  let out := drainCache merge ⟨cache, some book⟩
  (⟨applyEvent pkt book :: out.1, false⟩, out.2)

/-- `on_packet_into` for the book of the packet. -/
def onPacketInto (s : BookSlot lvl) (pkt : OrderBookUpdate lvl) (nowMs : Int) :
    BookEffects lvl × BookSlot lvl :=
  let kind := OrderBookKind.ofByte pkt.bookKind
  if pkt.isFull then
    let cache := { s.cache with
      corrupted := false, lastAppliedSeq := pkt.seq, expectedSeq := pkt.seq + 1 }
    applyAndDrain merge s pkt cache.retainAhead.checkCacheEmpty
  else if s.cache.corrupted then
    let book := s.applyPacket merge pkt
    let cache := { s.cache with lastAppliedSeq := pkt.seq }
    let cache := if bookCacheMaxPackets ≤ cache.packets.length then cache.dropOldest else cache
    let (request, cache) := (cache.add pkt.seq pkt nowMs).tryRequestFull nowMs
    (⟨applyEvent pkt book :: if request then [.requestFullNeeded pkt.marketIndex kind] else [],
      request⟩, ⟨cache, some book⟩)
  else
    let cmp := compareSeq pkt.seq s.cache.expectedSeq
    if cmp = 0 ∨ s.cache.lastAppliedSeq = 0 then
      applyAndDrain merge s pkt
        { s.cache with expectedSeq := pkt.seq + 1, lastAppliedSeq := pkt.seq }
    else if cmp < 0 then
      (⟨[.ignored pkt.marketIndex kind pkt.seq .stale], false⟩, s)
    else
      let cache := s.cache.add pkt.seq pkt nowMs
      let cache := if cache.isExpired nowMs || bookCacheMaxPackets < cache.packets.length
        then { cache with corrupted := true } else cache
      let (request, cache) := cache.tryRequestFull nowMs
      (⟨(if request then [.requestFullNeeded pkt.marketIndex kind] else [])
          ++ [.ignored pkt.marketIndex kind pkt.seq .cached], request⟩, { s with cache })

end BookSlot

/-! ## All books -/

structure OrderBooks (lvl : Type) where
  caches : BookKey → Option (OrderBookCache lvl)
  books : BookKey → Option (OrderBookSnapshot lvl)

namespace OrderBooks

def new : OrderBooks lvl := ⟨fun _ => none, fun _ => none⟩

/-- The cache of a book, or the default one that `entry` puts there. -/
def slot (b : OrderBooks lvl) (key : BookKey) : BookSlot lvl :=
  ⟨(b.caches key).getD .new, b.books key⟩

def setSlot (b : OrderBooks lvl) (key : BookKey) (s : BookSlot lvl) : OrderBooks lvl :=
  { caches := Function.update b.caches key (some s.cache)
    books := Function.update b.books key s.book }

def onPacketInto (merge : Bool → List lvl → List lvl → List lvl → List lvl) (b : OrderBooks lvl)
    (pkt : OrderBookUpdate lvl) (nowMs : Int) : BookEffects lvl × OrderBooks lvl :=
  let out := (b.slot pkt.key).onPacketInto merge pkt nowMs
  (out.1, b.setSlot pkt.key out.2)

/-- `reset_caches_keep_books`. -/
def resetCachesKeepBooks (b : OrderBooks lvl) : OrderBooks lvl := { b with caches := fun _ => none }

@[simp] theorem slot_setSlot (b : OrderBooks lvl) (key : BookKey) (s : BookSlot lvl) :
    (b.setSlot key s).slot key = s := by
  simp only [slot, setSlot, update_self, Option.getD_some]

@[simp] theorem caches_setSlot (b : OrderBooks lvl) (key : BookKey) (s : BookSlot lvl) :
    (b.setSlot key s).caches key = some s.cache := update_self _ _ _

theorem caches_setSlot_of_ne (b : OrderBooks lvl) {key key' : BookKey} (s : BookSlot lvl)
    (h : key' ≠ key) : (b.setSlot key s).caches key' = b.caches key' := update_of_ne h _ _

theorem slot_setSlot_of_ne (b : OrderBooks lvl) {key key' : BookKey} (s : BookSlot lvl)
    (h : key' ≠ key) : (b.setSlot key s).slot key' = b.slot key' := by
  simp only [slot, setSlot, update_of_ne h]

end OrderBooks

end MoonProto
