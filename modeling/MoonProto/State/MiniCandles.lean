import MoonProto.Lib.FloatOps
import MoonProto.Lib.Run
import MoonProto.State.SeqRingRefinement

/-!
# Compaction of evicted trades

Rows that leave the futures ring wait for compaction, and a compaction folds them into
mini-candles (`state/history.rs`, `state/history_store.rs`). A group of rows starts
with its anchor and takes every row within five seconds of it. A group is kept only if
its anchor is newer than the newest mini-candle, so a group whose anchor has the time
of the mini-candle before it is dropped with all its rows.

Prices and volumes are of an arbitrary type; no result here depends on them. Times and
counts are the machine integers of the source.
-/

namespace MoonProto

open List Option SeqRingState

variable {F : Type}

/-- The `f32` operations of trades. -/
structure TradeOps (F : Type) where
  float : FloatOps F
  abs : F → F
  signBit : F → Bool

structure TradeHistoryRow (F : Type) where
  time : Int64
  price : F
  qty : F
deriving Inhabited, DecidableEq

structure MiniCandle (F : Type) where
  time : Int64
  cnt : Int32
  minPrice : F
  maxPrice : F
  buyVol : F
  sellVol : F
deriving Inhabited, DecidableEq

/-- `MINI_CANDLE_SPLIT_MS`. -/
def miniCandleSplitMs : Int64 := 5000

/-! ## Groups of rows -/

def TradeHistoryRow.isBuy (ops : TradeOps F) (row : TradeHistoryRow F) : Bool :=
  !ops.signBit row.qty

def TradeHistoryRow.tradedValue (ops : TradeOps F) (row : TradeHistoryRow F) : F :=
  ops.float.mul row.price (ops.abs row.qty)

def emptyMiniCandle (ops : TradeOps F) (time : Int64) : MiniCandle F :=
  let zero := ops.float.ofInt 0
  ⟨time, 0, zero, zero, zero, zero⟩

/-- The part of the loop that adds a row to the open candle. -/
def MiniCandle.addRow (ops : TradeOps F) (candle : MiniCandle F) (row : TradeHistoryRow F) :
    MiniCandle F :=
  let candle :=
    if row.isBuy ops then
      { candle with buyVol := ops.float.add candle.buyVol (row.tradedValue ops) }
    else { candle with sellVol := ops.float.add candle.sellVol (row.tradedValue ops) }
  let minPrice := if candle.cnt = 0 then row.price else candle.minPrice
  { candle with
    maxPrice := ops.float.max candle.maxPrice row.price
    minPrice := ops.float.min minPrice row.price
    cnt := candle.cnt + 1 }

/-- The variables of the loop. -/
structure Compaction (F : Type) where
  newestMiniTime : Int64
  anchorTime : Int64
  candle : MiniCandle F
  out : List (MiniCandle F)

namespace Compaction

/-- The row is too far from the anchor of the open group. -/
def Splits (st : Compaction F) (row : TradeHistoryRow F) : Prop :=
  miniCandleSplitMs < (st.anchorTime - row.time).abs ∧ 0 < st.candle.cnt

instance (st : Compaction F) (row : TradeHistoryRow F) : Decidable (st.Splits row) :=
  inferInstanceAs (Decidable (_ ∧ _))

/-- Close the open group and start one at the row. -/
def split (ops : TradeOps F) (nowTime : Int64) (st : Compaction F) (row : TradeHistoryRow F) :
    Compaction F :=
  let kept := st.newestMiniTime < st.candle.time ∧ st.candle.time < nowTime
  { newestMiniTime := if kept then st.candle.time else st.newestMiniTime
    anchorTime := row.time
    candle := emptyMiniCandle ops row.time
    out := if kept then st.out ++ [st.candle] else st.out }

def step (ops : TradeOps F) (nowTime : Int64) (st : Compaction F) (row : TradeHistoryRow F) :
    Compaction F :=
  let st := if st.Splits row then st.split ops nowTime row else st
  { st with candle := st.candle.addRow ops row }

end Compaction

/-- `compact_trades_to_mini_candles`. -/
def compactTradesToMiniCandles (ops : TradeOps F) (rows : List (TradeHistoryRow F))
    (lastMiniTime nowTime : Int64) (out : List (MiniCandle F)) : List (MiniCandle F) :=
  match rows with
  | [] => out
  | first :: _ =>
    let st := rows.foldl (Compaction.step ops nowTime)
      ⟨lastMiniTime, first.time, emptyMiniCandle ops first.time, out⟩
    if 0 < st.candle.cnt ∧ st.newestMiniTime < st.candle.time then st.out ++ [st.candle]
    else st.out

/-! ## The store -/

/-- The part of `MarketHistoryStore` that holds futures trades and mini-candles. The
scratch list of a compaction is empty between two calls. -/
structure FuturesHistory (F : Type) where
  futuresTrades : Option (SeqRingState (TradeHistoryRow F))
  miniCandles : Option (SeqRingState (MiniCandle F))
  evictedFuturesForCompaction : List (TradeHistoryRow F)
  futuresArchiveEnd : Option Int64

/-- `optional_ring`. -/
def optionalRing (T : Type) (capacity : Nat) : Option (SeqRingState T) :=
  match (new capacity : Except SeqRingError (SeqRingState T)) with
  | .error _ => none
  | .ok ring => some ring

namespace FuturesHistory

def new (F : Type) (futuresTradesCapacity miniCandlesCapacity : Nat) : FuturesHistory F where
  futuresTrades := optionalRing _ futuresTradesCapacity
  miniCandles := optionalRing _ miniCandlesCapacity
  evictedFuturesForCompaction := []
  futuresArchiveEnd := none

variable [Inhabited F]

/-- `push_retained_futures_trade`. -/
def pushRetainedFuturesTrade (s : FuturesHistory F) (row : TradeHistoryRow F) :
    Option (Option Nat × FuturesHistory F) :=
  match s.futuresTrades with
  | none => some (none, s)
  | some ring => (ring.pushWithEvicted row).map fun ((seq, evicted), ring) =>
    (some seq, { s with
      futuresTrades := some ring
      evictedFuturesForCompaction := s.evictedFuturesForCompaction ++ evicted.toList })

/-- `append_futures_trade`, without the volumes and the open five-minute candle. -/
def appendFuturesTrade (s : FuturesHistory F) (row : TradeHistoryRow F) :
    Option (Option Nat × FuturesHistory F) :=
  if s.futuresArchiveEnd.any (fun archiveEnd => decide (row.time ≤ archiveEnd)) then some (none, s)
  else s.pushRetainedFuturesTrade row

/-- `last_mini_time`; reading may allocate the array of the ring. -/
def lastMiniTime (ring : Option (SeqRingState (MiniCandle F))) :
    Option (Option Int64 × Option (SeqRingState (MiniCandle F))) :=
  match ring with
  | none => some (none, none)
  | some ring => (ring.copyLast 1).map fun ((out, _), ring) =>
    (out.head?.map MiniCandle.time, some ring)

/-- Push the candles one after the other. -/
def pushMiniCandles (ring : SeqRingState (MiniCandle F)) (candles : List (MiniCandle F)) :
    Option (SeqRingState (MiniCandle F)) :=
  candles.foldlM (fun ring candle => (ring.push candle).map Prod.snd) ring

/-- `compact_evicted_futures`: the candles it appends (the source returns their
number) and the store. -/
def compactEvictedFutures (ops : TradeOps F) (s : FuturesHistory F) (nowTime : Int64) :
    Option (List (MiniCandle F) × FuturesHistory F) :=
  if s.evictedFuturesForCompaction.isEmpty then some ([], s)
  else
    (lastMiniTime s.miniCandles).bind fun (last, miniCandles) =>
      let scratch := compactTradesToMiniCandles ops s.evictedFuturesForCompaction
        (last.getD Int64.minValue) nowTime []
      match miniCandles with
      | none => some ([], { s with miniCandles := none, evictedFuturesForCompaction := [] })
      | some ring => (pushMiniCandles ring scratch).map fun ring =>
        (scratch, { s with
          miniCandles := some ring, evictedFuturesForCompaction := [] })

end FuturesHistory

/-! ## What a compaction keeps -/

/-- The trades that candles stand for. -/
def tradeCount (candles : List (MiniCandle F)) : Int := (candles.map fun c => c.cnt.toInt).sum

theorem tradeCount_append (l₁ l₂ : List (MiniCandle F)) :
    tradeCount (l₁ ++ l₂) = tradeCount l₁ + tradeCount l₂ := by
  rw [tradeCount, map_append, sum_append]
  rfl

theorem tradeCount_singleton (c : MiniCandle F) : tradeCount [c] = c.cnt.toInt :=
  sum_singleton

theorem length_le_tradeCount : ∀ {candles : List (MiniCandle F)},
    (∀ c ∈ candles, 0 < c.cnt.toInt) → (candles.length : Int) ≤ tradeCount candles
  | [], _ => Int.le_refl _
  | c :: candles, h => by
    have hc := h c mem_cons_self
    have hrest := length_le_tradeCount fun c' hc' => h c' (mem_cons_of_mem c hc')
    have hsum : tradeCount (c :: candles) = c.cnt.toInt + tradeCount candles := sum_cons
    rw [hsum, length_cons]
    omega

@[simp] theorem MiniCandle.addRow_time (ops : TradeOps F) (candle : MiniCandle F)
    (row : TradeHistoryRow F) : (candle.addRow ops row).time = candle.time := by
  unfold MiniCandle.addRow
  simp only
  split <;> rfl

@[simp] theorem MiniCandle.addRow_cnt (ops : TradeOps F) (candle : MiniCandle F)
    (row : TradeHistoryRow F) : (candle.addRow ops row).cnt = candle.cnt + 1 := by
  unfold MiniCandle.addRow
  simp only
  split <;> rfl

theorem toInt_succ {cnt : Int32} (h₀ : 0 ≤ cnt.toInt) (h : cnt.toInt + 1 < 2 ^ 31) :
    (cnt + 1).toInt = cnt.toInt + 1 := by
  rw [Int32.toInt_add, Int32.toInt_one]
  exact Int.bmod_eq_of_le (by omega) (by omega)

namespace Compaction

variable {ops : TradeOps F} {nowTime : Int64} {st : Compaction F} {n : Nat}

/-- After `n` rows: every one of them is in a candle that is kept, or in the open
group, and that group will be kept too. -/
structure Counts (nowTime : Int64) (n : Nat) (st : Compaction F) : Prop where
  time : st.candle.time = st.anchorTime
  newer : st.newestMiniTime < st.anchorTime
  earlier : st.anchorTime < nowTime
  count : tradeCount st.out + st.candle.cnt.toInt = n
  nonneg : 0 ≤ st.candle.cnt.toInt
  filled : ∀ c ∈ st.out, 0 < c.cnt.toInt

theorem Counts.cnt_le (h : Counts nowTime n st) : st.candle.cnt.toInt ≤ n := by
  have hout := length_le_tradeCount h.filled
  have hcount := h.count
  omega

theorem Counts.addRow (h : Counts nowTime n st) (hn : n + 1 < 2 ^ 31) (row : TradeHistoryRow F) :
    Counts nowTime (n + 1) { st with candle := st.candle.addRow ops row } := by
  have hle := h.cnt_le
  have hcnt : (st.candle.addRow ops row).cnt.toInt = st.candle.cnt.toInt + 1 := by
    rw [MiniCandle.addRow_cnt]
    exact toInt_succ h.nonneg (by omega)
  have hcount := h.count
  refine ⟨?_, h.newer, h.earlier, ?_, ?_, h.filled⟩
  · show (st.candle.addRow ops row).time = st.anchorTime
    rw [MiniCandle.addRow_time]
    exact h.time
  · show tradeCount st.out + (st.candle.addRow ops row).cnt.toInt = _
    rw [hcnt]
    omega
  · show 0 ≤ (st.candle.addRow ops row).cnt.toInt
    rw [hcnt]
    exact Int.le_add_one h.nonneg

/-- A row that starts a group is newer than the anchor before it. -/
theorem lt_of_splits {row : TradeHistoryRow F} (h : st.Splits row)
    (hle : st.anchorTime ≤ row.time) : st.anchorTime < row.time := by
  refine Int64.lt_of_le_of_ne hle fun heq => ?_
  have hsplit := h.1
  rw [heq, Int64.sub_self] at hsplit
  exact absurd hsplit (by decide)

theorem Counts.split (h : Counts nowTime n st) {row : TradeHistoryRow F} (hsplit : st.Splits row)
    (hle : st.anchorTime ≤ row.time) (hnow : row.time < nowTime) :
    Counts nowTime n (st.split ops nowTime row) := by
  have hkept : st.newestMiniTime < st.candle.time ∧ st.candle.time < nowTime := by
    rw [h.time]
    exact ⟨h.newer, h.earlier⟩
  have hpos : 0 < st.candle.cnt.toInt := Int32.lt_iff_toInt_lt.mp hsplit.2
  unfold Compaction.split
  simp only [if_pos hkept]
  refine ⟨rfl, ?_, hnow, ?_, Int.le_refl _, ?_⟩
  · show st.candle.time < row.time
    rw [h.time]
    exact lt_of_splits hsplit hle
  · show tradeCount (st.out ++ [st.candle]) + 0 = (n : Int)
    rw [tradeCount_append, tradeCount_singleton, Int.add_zero]
    exact h.count
  · intro c hc
    rcases mem_append.mp hc with hold | hnew
    · exact h.filled c hold
    · rw [mem_singleton.mp hnew]
      exact hpos

theorem Counts.step (h : Counts nowTime n st) {row : TradeHistoryRow F}
    (hle : st.anchorTime ≤ row.time) (hnow : row.time < nowTime) (hn : n + 1 < 2 ^ 31) :
    Counts nowTime (n + 1) (st.step ops nowTime row) ∧
      (st.step ops nowTime row).anchorTime ≤ row.time ∧
      0 < (st.step ops nowTime row).candle.cnt.toInt := by
  have hadd : ∀ {st' : Compaction F}, Counts nowTime n st' → st'.anchorTime ≤ row.time →
      Counts nowTime (n + 1) { st' with candle := st'.candle.addRow ops row } ∧
        st'.anchorTime ≤ row.time ∧ 0 < (st'.candle.addRow ops row).cnt.toInt := by
    intro st' h' hle'
    have hle := h'.cnt_le
    refine ⟨h'.addRow hn row, hle', ?_⟩
    rw [MiniCandle.addRow_cnt, toInt_succ h'.nonneg (by omega)]
    exact Int.lt_add_one_of_le h'.nonneg
  unfold Compaction.step
  split
  · next hsplit => exact hadd (h.split hsplit hle hnow) (Int64.le_refl _)
  · exact hadd h hle

/-- **The loop** counts every row. -/
theorem Counts.foldl : ∀ (rows : List (TradeHistoryRow F)) {st : Compaction F} {n : Nat},
    Counts nowTime n st → (∀ row ∈ rows, st.anchorTime ≤ row.time) →
    rows.Pairwise (fun r r' => r.time ≤ r'.time) → (∀ row ∈ rows, row.time < nowTime) →
    n + rows.length < 2 ^ 31 → rows ≠ [] →
    Counts nowTime (n + rows.length) (rows.foldl (Compaction.step ops nowTime) st) ∧
      0 < (rows.foldl (Compaction.step ops nowTime) st).candle.cnt.toInt
  | [], _, _, _, _, _, _, _, hne => absurd rfl hne
  | row :: rows, st, n, h, hle, hsorted, hnow, hn, _ => by
    rw [length_cons] at hn
    obtain ⟨hrow, hrows⟩ := pairwise_cons.mp hsorted
    obtain ⟨hstep, hanchor, hpos⟩ := @Counts.step F ops nowTime st n h row
      (hle row mem_cons_self) (hnow row mem_cons_self) (by omega)
    rw [foldl_cons, length_cons, Nat.add_comm rows.length 1, ← Nat.add_assoc]
    by_cases hempty : rows = []
    · subst hempty
      exact ⟨hstep, hpos⟩
    · exact Counts.foldl rows hstep
        (fun r hr => Int64.le_trans hanchor (hrow r hr)) hrows
        (fun r hr => hnow r (mem_cons_of_mem row hr)) (by omega) hempty

end Compaction

/-- **A compaction that starts behind the newest mini-candle** keeps every row. -/
theorem compactTrades_count (ops : TradeOps F) {first : TradeHistoryRow F}
    {rows : List (TradeHistoryRow F)} {last nowTime : Int64}
    (hsorted : (first :: rows).Pairwise fun r r' => r.time ≤ r'.time)
    (hnow : ∀ row ∈ first :: rows, row.time < nowTime) (hlast : last < first.time)
    (hsize : (first :: rows).length < 2 ^ 31) :
    tradeCount (compactTradesToMiniCandles ops (first :: rows) last nowTime [])
        = (first :: rows).length ∧
      ∀ c ∈ compactTradesToMiniCandles ops (first :: rows) last nowTime [], 0 < c.cnt.toInt := by
  have hopen : Compaction.Counts nowTime 0
      ⟨last, first.time, emptyMiniCandle ops first.time, []⟩ :=
    ⟨rfl, hlast, hnow first mem_cons_self, rfl, Int.le_refl _, nofun⟩
  obtain ⟨hcounts, hpos⟩ := @Compaction.Counts.foldl F ops nowTime (first :: rows) _ 0 hopen
    (fun row hrow => by
      rcases mem_cons.mp hrow with rfl | hrow
      · exact Int64.le_refl _
      · exact (pairwise_cons.mp hsorted).1 row hrow)
    hsorted hnow (by omega) (cons_ne_nil _ _)
  unfold compactTradesToMiniCandles
  simp only
  generalize (first :: rows).foldl (Compaction.step ops nowTime) _ = st at hcounts hpos ⊢
  have hkept : 0 < st.candle.cnt ∧ st.newestMiniTime < st.candle.time :=
    ⟨Int32.lt_iff_toInt_lt.mpr hpos, by rw [hcounts.time]; exact hcounts.newer⟩
  rw [if_pos hkept, tradeCount_append, tradeCount_singleton]
  refine ⟨by rw [hcounts.count, Nat.zero_add], fun c hc => ?_⟩
  rcases mem_append.mp hc with hold | hnew
  · exact hcounts.filled c hold
  · rw [mem_singleton.mp hnew]
    exact hpos

/-! ## The ring of mini-candles -/

theorem head?_rtake_one {α : Type} (l : List α) : (l.rtake 1).head? = l.getLast? := by
  rw [rtake, head?_drop, getLast?_eq_getElem?]

theorem rtake_one_rtake {α : Type} (l : List α) {n : Nat} (h : 0 < n) :
    (l.rtake n).rtake 1 = l.rtake 1 := by
  simp only [rtake, drop_drop, length_drop]
  congr 1
  omega

namespace FuturesHistory

variable [Inhabited F] {ring : SeqRingState (MiniCandle F)} {l w : List (MiniCandle F)}

theorem lastMiniTime_spec (h : ring.Retains (l.rtake ring.capacity))
    (hseq : ring.nextSeq < 2 ^ 64) :
    lastMiniTime (some ring)
      = some (l.getLast?.map MiniCandle.time, some ring.readMaterialized) := by
  obtain ⟨view, hview, hshows⟩ := withLast_spec h hseq 1
  simp only [lastMiniTime, copyLast, hview, map_some, hshows.copyTo_eq,
    rtake_one_rtake l h.capacity_pos, head?_rtake_one]

theorem pushMiniCandles_spec : ∀ (candles : List (MiniCandle F))
    {ring : SeqRingState (MiniCandle F)} {w : List (MiniCandle F)}, ring.Retains w →
    ring.nextSeq + candles.length < 2 ^ 64 →
    ∃ ring', pushMiniCandles ring candles = some ring' ∧ ring.Appended w candles ring'
  | [], ring, _, h, _ => ⟨ring, rfl, SeqRingState.Appended.nil h⟩
  | candle :: candles, ring, w, h, hseq => by
    rw [length_cons] at hseq
    obtain ⟨ring₁, hpush, happended⟩ := pushWithEvicted_spec h (by omega) candle
    have hnext : ring₁.nextSeq = ring.nextSeq + 1 := happended.nextSeq_eq
    obtain ⟨ring', hpushes, happended'⟩ :=
      pushMiniCandles_spec candles happended.retains (by omega)
    refine ⟨ring', ?_, happended.trans happended'⟩
    rw [← hpushes]
    unfold pushMiniCandles
    rw [foldlM_cons, push, hpush]
    rfl

end FuturesHistory

/-! ## Runs -/

/-- A store with its history: how many trades were appended, the time of the last one,
and every mini-candle that was ever appended. -/
structure HistoryRun (F : Type) where
  store : FuturesHistory F
  appended : Nat
  lastTime : Int64
  minis : List (MiniCandle F)

inductive HistoryEvent (F : Type)
  | append (row : TradeHistoryRow F)
  | compact (nowTime : Int64)

namespace HistoryRun

def start (F : Type) (futuresTradesCapacity miniCandlesCapacity : Nat) : HistoryRun F :=
  ⟨.new F futuresTradesCapacity miniCandlesCapacity, 0, Int64.minValue, []⟩

def newestMiniTime (s : HistoryRun F) : Int64 :=
  (s.minis.getLast?.map MiniCandle.time).getD Int64.minValue

/-- The rows in the futures ring. -/
def ringRows (s : HistoryRun F) : Nat := (s.store.futuresTrades.map len).getD 0

/-- Every trade is in the ring, waits for compaction or is in a mini-candle. -/
def Conserved (s : HistoryRun F) : Prop :=
  (s.appended : Int)
    = s.ringRows + s.store.evictedFuturesForCompaction.length + tradeCount s.minis

instance (s : HistoryRun F) : Decidable s.Conserved := inferInstanceAs (Decidable (_ = _))

variable [Inhabited F] {ops : TradeOps F}

def step (ops : TradeOps F) (s : HistoryRun F) : HistoryEvent F → Option (HistoryRun F)
  | .append row => (s.store.appendFuturesTrade row).map fun (_, store) =>
    { s with store := store, appended := s.appended + 1, lastTime := row.time }
  | .compact nowTime => (s.store.compactEvictedFutures ops nowTime).map fun (candles, store) =>
    { s with store := store, minis := s.minis ++ candles }

omit [Inhabited F] in
/-- Times do not decrease and a compaction comes later than every trade. -/
def InOrder (s : HistoryRun F) : HistoryEvent F → Prop
  | .append row => s.lastTime ≤ row.time
  | .compact nowTime => s.lastTime < nowTime

omit [Inhabited F] in
/-- The oldest row that waits for a compaction is newer than the newest mini-candle,
and no counter of the source overflows. -/
def Separated (s : HistoryRun F) : HistoryEvent F → Prop
  | .append _ => s.appended + 1 < 2 ^ 64
  | .compact _ => s.store.evictedFuturesForCompaction.length < 2 ^ 31 ∧
      ∀ row ∈ s.store.evictedFuturesForCompaction.head?, s.newestMiniTime < row.time

omit [Inhabited F] in
instance decidableInOrder (s : HistoryRun F) : ∀ e, Decidable (s.InOrder e)
  | .append row => inferInstanceAs (Decidable (s.lastTime ≤ row.time))
  | .compact nowTime => inferInstanceAs (Decidable (s.lastTime < nowTime))

omit [Inhabited F] in
instance decidableSeparated (s : HistoryRun F) : ∀ e, Decidable (s.Separated e)
  | .append _ => inferInstanceAs (Decidable (s.appended + 1 < 2 ^ 64))
  | .compact _ => inferInstanceAs (Decidable (_ ∧
      ∀ row ∈ s.store.evictedFuturesForCompaction.head?, s.newestMiniTime < row.time))

/-- The invariant: the futures ring retains `rows`, the ring of mini-candles the newest
ones, and the rows that wait and those retained are in the order of time. -/
structure Stands (s : HistoryRun F) (futures : SeqRingState (TradeHistoryRow F))
    (minis : SeqRingState (MiniCandle F)) (rows : List (TradeHistoryRow F)) : Prop where
  futuresTrades : s.store.futuresTrades = some futures
  miniCandles : s.store.miniCandles = some minis
  futuresRetains : futures.Retains rows
  futuresSeq : futures.nextSeq = s.appended
  minisRetains : minis.Retains (s.minis.rtake minis.capacity)
  minisSeq : minis.nextSeq = s.minis.length
  sorted : (s.store.evictedFuturesForCompaction ++ rows).Pairwise fun r r' => r.time ≤ r'.time
  past : ∀ row ∈ s.store.evictedFuturesForCompaction ++ rows, row.time ≤ s.lastTime
  noArchive : s.store.futuresArchiveEnd = none
  filled : ∀ c ∈ s.minis, 0 < c.cnt.toInt
  bounded : s.appended < 2 ^ 64
  conserved : s.Conserved

variable {s : HistoryRun F} {futures : SeqRingState (TradeHistoryRow F)}
  {minis : SeqRingState (MiniCandle F)} {rows : List (TradeHistoryRow F)}

/-- **An appended trade** goes to the ring, and the row it evicts waits. -/
theorem Stands.append (h : s.Stands futures minis rows) (row : TradeHistoryRow F)
    (horder : s.lastTime ≤ row.time) (hseq : s.appended + 1 < 2 ^ 64) :
    ∃ s' futures' rows', s.step ops (.append row) = some s' ∧ s'.Stands futures' minis rows' := by
  obtain ⟨futures', hpush, happended⟩ := pushWithEvicted_spec h.futuresRetains
    (by rw [h.futuresSeq]; exact hseq) row
  have hevicted := head?_toList_rdrop h.futuresRetains.fits row
  have hsplit : (rows ++ [row]).rdrop futures.capacity ++ (rows ++ [row]).rtake futures.capacity
      = rows ++ [row] := take_append_drop _ _
  have hall : (s.store.evictedFuturesForCompaction ++ (rows ++ [row]).rdrop futures.capacity)
      ++ (rows ++ [row]).rtake futures.capacity
        = (s.store.evictedFuturesForCompaction ++ rows) ++ [row] := by
    rw [append_assoc, hsplit, append_assoc]
  refine ⟨{ s with
      store := { s.store with
        futuresTrades := some futures'
        evictedFuturesForCompaction := s.store.evictedFuturesForCompaction
          ++ (rows ++ [row]).rdrop futures.capacity }
      appended := s.appended + 1
      lastTime := row.time }, futures', (rows ++ [row]).rtake futures.capacity, ?_, ?_⟩
  · simp only [step, FuturesHistory.appendFuturesTrade, h.noArchive, any_none,
      Bool.false_eq_true, if_false, FuturesHistory.pushRetainedFuturesTrade, h.futuresTrades, hpush,
      map_some, hevicted]
  · refine ⟨rfl, h.miniCandles, happended.retains, ?_, h.minisRetains, h.minisSeq, ?_, ?_,
      h.noArchive, h.filled, hseq, ?_⟩
    · rw [happended.nextSeq_eq, h.futuresSeq]
      rfl
    · show ((s.store.evictedFuturesForCompaction ++ _) ++ _).Pairwise _
      rw [hall]
      refine pairwise_append.mpr ⟨h.sorted, pairwise_singleton _ _, fun r hr r' hr' => ?_⟩
      rw [mem_singleton.mp hr']
      exact Int64.le_trans (h.past r hr) horder
    · intro r hr
      have hr' : r ∈ (s.store.evictedFuturesForCompaction ++ rows) ++ [row] := hall ▸ hr
      rcases mem_append.mp hr' with hold | hnew
      · exact Int64.le_trans (h.past r hold) horder
      · rw [mem_singleton.mp hnew]
        exact Int64.le_refl _
    · have hlen := congrArg List.length hsplit
      have hold := h.conserved
      have hrows := h.futuresRetains.length_eq
      have hrows' := happended.retains.length_eq
      simp only [Conserved, ringRows, h.futuresTrades, map_some, getD_some,
        length_append, length_singleton] at hold hlen hrows' ⊢
      push_cast
      omega

/-- **A compaction** turns every row that waits into a part of a mini-candle. -/
theorem Stands.compact (h : s.Stands futures minis rows) {nowTime : Int64}
    (horder : s.lastTime < nowTime) (hsize : s.store.evictedFuturesForCompaction.length < 2 ^ 31)
    (hnewer : ∀ row ∈ s.store.evictedFuturesForCompaction.head?, s.newestMiniTime < row.time) :
    ∃ s' minis', s.step ops (.compact nowTime) = some s' ∧ s'.Stands futures minis' rows := by
  cases hwaiting : s.store.evictedFuturesForCompaction with
  | nil =>
    refine ⟨s, minis, ?_, h⟩
    simp only [step, FuturesHistory.compactEvictedFutures, hwaiting, isEmpty_nil, if_true,
      map_some, append_nil]
  | cons first waiting =>
    rw [hwaiting] at hsize hnewer
    have hsorted := h.sorted
    have hpast := h.past
    have hconserved := h.conserved
    rw [hwaiting] at hsorted hpast
    simp only [Conserved, hwaiting] at hconserved
    obtain ⟨hcount, hfilled⟩ := compactTrades_count ops (pairwise_append.mp hsorted).1
      (fun row hrow => Int64.lt_of_le_of_lt (hpast row (mem_append_left _ hrow)) horder)
      (hnewer first rfl) hsize
    generalize hcandles : compactTradesToMiniCandles ops (first :: waiting) s.newestMiniTime
      nowTime [] = candles at hcount hfilled
    have hminis := length_le_tradeCount h.filled
    have hnew := length_le_tradeCount hfilled
    have hbounded := h.bounded
    have hlast := FuturesHistory.lastMiniTime_spec h.minisRetains
      (by rw [h.minisSeq]; omega)
    obtain ⟨minis', hpush, happended⟩ := FuturesHistory.pushMiniCandles_spec candles
      h.minisRetains.readMaterialized.1
      (by rw [readMaterialized_nextSeq, h.minisSeq]; omega)
    refine ⟨{ s with
        store := { s.store with
          miniCandles := some minis', evictedFuturesForCompaction := [] }
        minis := s.minis ++ candles }, minis', ?_, ?_⟩
    · simp only [step, FuturesHistory.compactEvictedFutures, hwaiting, isEmpty_cons,
        Bool.false_eq_true, if_false, h.miniCandles, hlast, bind_some]
      rw [show (s.minis.getLast?.map MiniCandle.time).getD Int64.minValue = s.newestMiniTime
        from rfl, hcandles, hpush]
      rfl
    · refine ⟨h.futuresTrades, rfl, h.futuresRetains, h.futuresSeq, ?_, ?_,
        (pairwise_append.mp hsorted).2.1, fun row hrow => hpast row ?_, h.noArchive, ?_,
        h.bounded, ?_⟩
      · have hretains := happended.retains
        rw [readMaterialized_capacity, List.rtake_append_rtake] at hretains
        rw [happended.capacity_eq, readMaterialized_capacity]
        exact hretains
      · rw [happended.nextSeq_eq, readMaterialized_nextSeq, h.minisSeq, length_append]
      · exact mem_append_right _ hrow
      · intro c hc
        rcases mem_append.mp hc with hold | hnew
        · exact h.filled c hold
        · exact hfilled c hnew
      · show (s.appended : Int) = s.ringRows + ([] : List (TradeHistoryRow F)).length
          + tradeCount (s.minis ++ candles)
        rw [tradeCount_append, hcount]
        simp only [length_cons, length_nil] at hconserved ⊢
        omega

theorem stands_start {futuresCapacity miniCapacity : Nat} (hfutures : 0 < futuresCapacity)
    (hmini : 0 < miniCapacity) :
    ∃ futures minis, (start F futuresCapacity miniCapacity).Stands futures minis [] := by
  have hring : ∀ (T : Type) [Inhabited T] {n : Nat}, 0 < n → ∃ ring : SeqRingState T,
      optionalRing T n = some ring ∧ ring.Retains [] ∧ ring.nextSeq = 0 ∧ ring.len = 0 := by
    intro T _ n hn
    refine ⟨⟨[], n, 0, 0⟩, ?_, ⟨hn, rfl, Nat.zero_le _, Nat.le_refl _, .inl ⟨rfl, rfl⟩⟩, rfl, rfl⟩
    rw [optionalRing, new, if_neg (Nat.ne_of_gt hn)]
  obtain ⟨futures, hf, hfretains, hfseq, hflen⟩ := hring (TradeHistoryRow F) hfutures
  obtain ⟨minis, hm, hmretains, hmseq, -⟩ := hring (MiniCandle F) hmini
  refine ⟨futures, minis, hf, hm, hfretains, hfseq, ?_, hmseq, .nil,
    fun _ hr => absurd hr not_mem_nil,
    rfl, fun _ hc => absurd hc not_mem_nil, Nat.pow_pos (Nat.succ_pos 1), ?_⟩
  · rw [show (start F futuresCapacity miniCapacity).minis.rtake minis.capacity = [] from drop_nil]
    exact hmretains
  · simp only [Conserved, ringRows, start, FuturesHistory.new, hf, map_some, getD_some, hflen]
    rfl

/-- **Evicted trades are not lost.** In every run that appends trades in the order of
time and compacts at arbitrary later moments, where the oldest row that waits for a
compaction is newer than the newest mini-candle, every appended trade is in the
ring, waits for compaction or is counted in a mini-candle, and the store keeps as
many of the mini-candles as it has room for. -/
theorem evicted_trades_conserved {futuresCapacity miniCapacity : Nat}
    (hfutures : 0 < futuresCapacity) (hmini : 0 < miniCapacity) {events : List (HistoryEvent F)}
    (hrun : Run.Along (step ops) (fun s e => s.InOrder e ∧ s.Separated e)
      (start F futuresCapacity miniCapacity) events) :
    ∃ s, Run.run (step ops) (start F futuresCapacity miniCapacity) events = some s ∧
      s.Conserved ∧ ∃ minis, s.store.miniCandles = some minis ∧
        minis.Retains (s.minis.rtake minis.capacity) := by
  have hstart : ∃ futures minis rows,
      (start F futuresCapacity miniCapacity).Stands futures minis rows := by
    obtain ⟨futures, minis, h⟩ := @stands_start F _ _ _ hfutures hmini
    exact ⟨futures, minis, [], h⟩
  have htotal : ∃ s, Run.run (step ops) (start F futuresCapacity miniCapacity) events = some s ∧
      ∃ futures minis rows, s.Stands futures minis rows := by
    refine Run.run_total (fun s e hs hadmitted => ?_) hstart hrun
    obtain ⟨futures, minis, rows, h⟩ := hs
    cases e with
    | append row =>
      obtain ⟨s', futures', rows', hstep, h'⟩ := h.append row hadmitted.1 hadmitted.2
      exact ⟨s', hstep, futures', minis, rows', h'⟩
    | compact nowTime =>
      obtain ⟨s', minis', hstep, h'⟩ := h.compact hadmitted.1 hadmitted.2.1 hadmitted.2.2
      exact ⟨s', hstep, futures, minis', rows, h'⟩
  obtain ⟨s, hs, _, minis, _, h⟩ := htotal
  exact ⟨s, hs, h.conserved, minis, h.miniCandles, h.minisRetains⟩

end HistoryRun

namespace Sample

def tradeOps : TradeOps ℚ := ⟨.rat, fun q => |q|, fun q => decide (q < 0)⟩

def trade (time : Int64) : HistoryEvent ℚ := .append ⟨time, 100, 1⟩

/-- A ring of one row with two compactions; the second one makes two mini-candles. -/
def compacted : List (HistoryEvent ℚ) :=
  [trade 1000, trade 3000, .compact 4000, trade 9000, trade 9500, .compact 10000]

/-- The second of two trades of one time is compacted after the first. -/
def sameTime : List (HistoryEvent ℚ) :=
  [trade 1000, trade 1000, .compact 2000, trade 1500, .compact 2000]

end Sample

namespace HistoryRun

theorem evicted_trades_conserved_sample :
    ∃ s, Run.run (step Sample.tradeOps) (start ℚ 1 8) Sample.compacted = some s ∧ s.Conserved := by
  obtain ⟨s, hs, h, -⟩ := @evicted_trades_conserved ℚ _ Sample.tradeOps 1 8 (by decide) (by decide)
    Sample.compacted (by decide +kernel)
  exact ⟨s, hs, h⟩

/-- The group of the second trade has the time of the mini-candle before it and is
dropped: of three trades one is in the ring and one in a mini-candle. -/
theorem evicted_trade_lost :
    Run.Along (step Sample.tradeOps) InOrder (start ℚ 1 8) Sample.sameTime ∧
    ∃ s, Run.run (step Sample.tradeOps) (start ℚ 1 8) Sample.sameTime = some s ∧
      s.appended = 3 ∧ s.ringRows = 1 ∧ s.store.evictedFuturesForCompaction = [] ∧
      tradeCount s.minis = 1 ∧ ¬ s.Conserved := by
  have hrun : (Run.run (step Sample.tradeOps) (start ℚ 1 8) Sample.sameTime).map (fun s =>
      (s.appended, s.ringRows, s.store.evictedFuturesForCompaction, tradeCount s.minis))
        = some (3, 1, [], 1) := by decide +kernel
  obtain ⟨s, hs, hvalues⟩ := Option.map_eq_some_iff.mp hrun
  obtain ⟨happended, hring, hwaiting, hcount⟩ : s.appended = 3 ∧ s.ringRows = 1 ∧
      s.store.evictedFuturesForCompaction = [] ∧ tradeCount s.minis = 1 := by
    simpa only [Prod.mk.injEq] using hvalues
  refine ⟨by decide +kernel, s, hs, happended, hring, hwaiting, hcount, ?_⟩
  rw [Conserved, happended, hring, hwaiting, hcount]
  decide

end HistoryRun

end MoonProto
