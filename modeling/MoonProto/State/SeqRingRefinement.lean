import MoonProto.State.SeqRingSpec

/-!
# The ring is a bounded list

The abstract machine `SeqLog` knows neither slots nor an array: it is the list of
rows and the number the next row gets. The ring refines it for every mix of writer
operations and reads, reads being operations because they may allocate the array.
-/

namespace MoonProto

open List Option

variable {T : Type*} [Inhabited T]

/-! ## The abstract machine -/

/-- What a writer or a reader may do with the ring. -/
inductive SeqRingOp (T : Type*) where
  | push (row : T)
  | pushWithEvicted (row : T)
  | pushDefaultLazy
  | pushBatch (rows : List T)
  | pushBatchWithEvicted (rows : List T)
  | replaceBatch (rows : List T)
  | clear
  | withLast (limit : Nat)
  | withFromSeq (startSeq limit : Nat)

/-- The rows that an operation writes. -/
def SeqRingOp.appended (capacity : Nat) : SeqRingOp T → List T
  | .push row => [row]
  | .pushWithEvicted row => [row]
  | .pushDefaultLazy => [default]
  | .pushBatch rows => rows
  | .pushBatchWithEvicted rows => rows
  | .replaceBatch rows => rows.rtake capacity
  | .clear => []
  | .withLast _ => []
  | .withFromSeq _ _ => []

/-- Execute one operation; the result lists the rows it reports as evicted. -/
def SeqRingState.exec (s : SeqRingState T) : SeqRingOp T → Option (List T × SeqRingState T)
  | .push row => (s.push row).map fun r => ([], r.2)
  | .pushWithEvicted row => (s.pushWithEvicted row).map fun r => (r.1.2.toList, r.2)
  | .pushDefaultLazy => s.pushDefaultLazy.map fun r => ([], r.2)
  | .pushBatch rows => (s.pushBatch rows).map fun s => ([], s)
  | .pushBatchWithEvicted rows => s.pushBatchWithEvicted rows []
  | .replaceBatch rows => (s.replaceBatch rows).map fun s => ([], s)
  | .clear => some ([], s.clear)
  | .withLast limit => (s.withLast limit).map fun r => ([], r.2)
  | .withFromSeq startSeq limit => (s.withFromSeqInternal startSeq limit).map fun r => ([], r.2)

def SeqRingState.execAll : SeqRingState T → List (SeqRingOp T) →
    Option (List (List T) × SeqRingState T)
  | s, [] => some ([], s)
  | s, op :: ops => (s.exec op).bind fun r =>
    (execAll r.2 ops).map fun rest => (r.1 :: rest.1, rest.2)

/-- A list of rows that only grows, until it is replaced or cleared; `nextSeq` is
the number the next row gets. -/
structure SeqLog (T : Type*) where
  rows : List T
  nextSeq : Nat

namespace SeqLog

def empty : SeqLog T := ⟨[], 0⟩

/-- The retained window. -/
def kept (l : SeqLog T) (capacity : Nat) : List T :=
  l.rows.rtake capacity

/-- The number of the oldest retained row. -/
def oldestSeq (l : SeqLog T) (capacity : Nat) : Nat :=
  l.nextSeq - (l.kept capacity).length

omit [Inhabited T] in
theorem kept_empty (capacity : Nat) : (empty : SeqLog T).kept capacity = [] :=
  rtake_nil capacity

/-- At most `limit` retained rows from number `seq` on. -/
def runFrom (l : SeqLog T) (capacity seq limit : Nat) : List T :=
  ((l.kept capacity).drop (seq - l.oldestSeq capacity)).take limit

def step (capacity : Nat) (l : SeqLog T) (op : SeqRingOp T) : SeqLog T :=
  match op with
  | .replaceBatch rows => ⟨rows, l.nextSeq + (op.appended capacity).length⟩
  | .clear => empty
  | _ => ⟨l.rows ++ op.appended capacity, l.nextSeq + (op.appended capacity).length⟩

theorem step_nextSeq_le (capacity : Nat) (l : SeqLog T) (op : SeqRingOp T) :
    (l.step capacity op).nextSeq ≤ l.nextSeq + (op.appended capacity).length := by
  cases op <;> first | exact Nat.le_refl _ | exact Nat.zero_le _

/-- The rows that leave the window, where the operation reports them. -/
def evicted (capacity : Nat) (l : SeqLog T) : SeqRingOp T → List T
  | .pushWithEvicted row => (l.kept capacity ++ [row]).rdrop capacity
  | .pushBatchWithEvicted rows => (l.kept capacity ++ rows).rdrop capacity
  | _ => []

def evictedAll (capacity : Nat) : SeqLog T → List (SeqRingOp T) → List (List T)
  | _, [] => []
  | l, op :: ops => l.evicted capacity op :: evictedAll capacity (l.step capacity op) ops

end SeqLog

/-- The ring stands for the list `l` cut to its capacity. -/
structure SeqRingState.Refines (s : SeqRingState T) (capacity : Nat) (l : SeqLog T) : Prop where
  capacity_eq : s.capacity = capacity
  nextSeq_eq : s.nextSeq = l.nextSeq
  retains : s.Retains (l.kept capacity)

/-! ## One operation -/

namespace SeqRingState

variable {s s' : SeqRingState T} {capacity : Nat} {l : SeqLog T}

theorem Refines.of_appended (h : s.Refines capacity l) {rs : List T}
    (happended : Appended s (l.kept capacity) rs s') :
    s'.Refines capacity ⟨l.rows ++ rs, l.nextSeq + rs.length⟩ where
  capacity_eq := happended.capacity_eq.trans h.capacity_eq
  nextSeq_eq := happended.nextSeq_eq.trans (by rw [h.nextSeq_eq])
  retains := by
    have hretains := happended.retains
    rwa [h.capacity_eq, SeqLog.kept, List.rtake_append_rtake] at hretains

theorem Refines.of_read (h : s.Refines capacity l) :
    s.readMaterialized.Refines capacity ⟨l.rows ++ [], l.nextSeq + 0⟩ where
  capacity_eq := (readMaterialized_capacity s).trans h.capacity_eq
  nextSeq_eq := (readMaterialized_nextSeq s).trans h.nextSeq_eq
  retains := by
    rw [append_nil]
    exact h.retains.readMaterialized.1

omit [Inhabited T] in
theorem head?_toList_rdrop {w : List T} {n : Nat} (h : w.length ≤ n) (row : T) :
    ((w ++ [row]).rdrop n).head?.toList = (w ++ [row]).rdrop n := by
  have hlen : ((w ++ [row]).rdrop n).length ≤ 1 := by
    rw [List.rdrop, length_take, length_append, length_singleton]
    omega
  match (w ++ [row]).rdrop n, hlen with
  | [], _ => rfl
  | [_], _ => rfl

/-- **One operation.** The ring does what the list does and reports the rows that
leave the window. -/
theorem exec_refines (h : s.Refines capacity l) (op : SeqRingOp T)
    (hseq : l.nextSeq + (op.appended capacity).length < 2 ^ 64) :
    ∃ s', s.exec op = some (l.evicted capacity op, s') ∧
      s'.Refines capacity (l.step capacity op) := by
  have hretains := h.retains
  rw [← h.nextSeq_eq] at hseq
  cases op with
  | push row =>
    obtain ⟨s', hpush, happended⟩ := pushWithEvicted_spec hretains hseq row
    refine ⟨s', ?_, h.of_appended happended⟩
    rw [exec, push, hpush]
    rfl
  | pushWithEvicted row =>
    obtain ⟨s', hpush, happended⟩ := pushWithEvicted_spec hretains hseq row
    refine ⟨s', ?_, h.of_appended happended⟩
    rw [exec, hpush, map_some, head?_toList_rdrop hretains.fits, h.capacity_eq]
    rfl
  | pushDefaultLazy =>
    obtain ⟨s', hpush, happended⟩ := pushDefaultLazy_spec hretains hseq
    refine ⟨s', ?_, h.of_appended happended⟩
    rw [exec, hpush]
    rfl
  | pushBatch rows =>
    obtain ⟨s', hpush, happended⟩ := pushBatchWithEvicted_spec hretains rows [] hseq
    refine ⟨s', ?_, h.of_appended happended⟩
    rw [exec, pushBatch, hpush]
    rfl
  | pushBatchWithEvicted rows =>
    obtain ⟨s', hpush, happended⟩ := pushBatchWithEvicted_spec hretains rows [] hseq
    refine ⟨s', ?_, h.of_appended happended⟩
    rw [exec, hpush, nil_append, h.capacity_eq]
    rfl
  | replaceBatch rows =>
    have hcapacity := h.capacity_eq
    subst hcapacity
    obtain ⟨s', hreplace, hcapacity', hnext, hkept⟩ := replaceBatch_spec hretains rows hseq
    refine ⟨s', ?_, hcapacity', hnext.trans (by rw [h.nextSeq_eq]; rfl), hkept⟩
    rw [exec, hreplace]
    rfl
  | clear =>
    refine ⟨s.clear, rfl, h.capacity_eq, rfl, ?_⟩
    rw [SeqLog.step, SeqLog.kept_empty]
    exact hretains.forget 0
  | withLast limit =>
    obtain ⟨view, hread, -⟩ := withLast_spec hretains hseq limit
    refine ⟨s.readMaterialized, ?_, h.of_read⟩
    rw [exec, hread]
    rfl
  | withFromSeq startSeq limit =>
    obtain ⟨view, hread, -⟩ := withFromSeqInternal_spec hretains hseq startSeq limit
    refine ⟨s.readMaterialized, ?_, h.of_read⟩
    rw [exec, hread]
    rfl

/-! ## Whole runs -/

/-- **Every run.** While the numbers last, no operation panics, and the ring stands
for the list that the same operations produce. -/
theorem execAll_refines : ∀ (ops : List (SeqRingOp T)) {s : SeqRingState T} {l : SeqLog T},
    s.Refines capacity l →
    l.nextSeq + (ops.map fun op => (op.appended capacity).length).sum < 2 ^ 64 →
    ∃ s', s.execAll ops = some (l.evictedAll capacity ops, s') ∧
      s'.Refines capacity (ops.foldl (SeqLog.step capacity) l) ∧ s'.nextSeq < 2 ^ 64
  | [], s, _, h, hseq => ⟨s, rfl, h, by rw [h.nextSeq_eq]; exact hseq⟩
  | op :: ops, s, l, h, hseq => by
    rw [map_cons, sum_cons] at hseq
    obtain ⟨t, hop, ht⟩ := exec_refines h op (by omega)
    have hnext := SeqLog.step_nextSeq_le capacity l op
    obtain ⟨s', hops, hs'⟩ := execAll_refines ops ht (by omega)
    refine ⟨s', ?_, hs'⟩
    rw [execAll, hop, bind_some, hops]
    rfl

theorem new_refines (hcapacity : 0 < capacity) :
    ({ rows := [], capacity := capacity, nextSeq := 0, len := 0 } : SeqRingState T).Refines
      capacity SeqLog.empty where
  capacity_eq := rfl
  nextSeq_eq := rfl
  retains := by
    rw [SeqLog.kept_empty]
    exact ⟨hcapacity, rfl, Nat.zero_le _, Nat.zero_le _, .inl ⟨rfl, rfl⟩⟩

/-- Everything a reader can see of the ring is the retained window of `l`: the
newest rows and the rows from a cursor on, as slices, as a copy and under a scan. -/
structure ReadsAs (s : SeqRingState T) (capacity : Nat) (l : SeqLog T) : Prop where
  bounds_eq : s.bounds = ⟨l.oldestSeq capacity, l.nextSeq, (l.kept capacity).length, capacity⟩
  last : ∀ limit, ∃ view t, s.withLast limit = some (view, t) ∧
    Shows view ((l.kept capacity).rtake limit)
  copy_last : ∀ limit, ∃ readMeta t,
    s.copyLast limit = some (((l.kept capacity).rtake limit, readMeta), t) ∧
      readMeta.copied = ((l.kept capacity).rtake limit).length
  from_cursor : ∀ (cursor : SeqRingCursor) (limit : Nat), ∃ view t,
    s.withFromCursor cursor limit = some (view, t) ∧
      Shows view (l.runFrom capacity cursor.nextSeq limit)
  copy_from_cursor : ∀ (cursor : SeqRingCursor) (limit : Nat), ∃ readMeta t,
    s.copyFromCursor cursor limit =
        some ((l.runFrom capacity cursor.nextSeq limit, readMeta), t) ∧
      readMeta.copied = (l.runFrom capacity cursor.nextSeq limit).length
  copy_new : ∀ (cursor : SeqRingCursor) (limit : Nat), ∃ readMeta cursor' t,
    s.copyNewSince cursor limit =
        some ((l.runFrom capacity cursor.nextSeq limit, readMeta, cursor'), t) ∧
      readMeta.copied = (l.runFrom capacity cursor.nextSeq limit).length
  drain : ∀ (cursor : SeqRingCursor) (limit : Nat), ∃ drainMeta cursor' t,
    s.drainNewBounded cursor limit =
        some ((l.runFrom capacity cursor.nextSeq limit, drainMeta, cursor'), t) ∧
      drainMeta.copied = (l.runFrom capacity cursor.nextSeq limit).length
  scan : ∀ {R : Type} (cursor : SeqRingCursor) (limit : Nat) (init : R) (f : R → T → R),
    ∃ readMeta t, s.scanFromCursor cursor limit init f =
        some (((l.runFrom capacity cursor.nextSeq limit).foldl f init, readMeta), t) ∧
      readMeta.copied = (l.runFrom capacity cursor.nextSeq limit).length

theorem Refines.readsAs (h : s.Refines capacity l) (hseq : s.nextSeq < 2 ^ 64) :
    s.ReadsAs capacity l := by
  have hlen := h.retains.length_eq
  have hoffset : s.nextSeq - s.len = l.oldestSeq capacity := by
    rw [SeqLog.oldestSeq, hlen, h.nextSeq_eq]
  have hlast := withLast_spec h.retains hseq
  have hfrom : ∀ startSeq limit, ∃ view,
      s.withFromSeqInternal startSeq limit = some (view, s.readMaterialized) ∧
        Shows view (l.runFrom capacity startSeq limit) := by
    intro startSeq limit
    obtain ⟨view, hread, -, hshows⟩ := withFromSeqInternal_spec h.retains hseq startSeq limit
    rw [hoffset] at hshows
    exact ⟨view, hread, hshows⟩
  have hcopy : ∀ startSeq limit, ∃ readMeta,
      s.copyFromSeqInternal startSeq limit =
        some ((l.runFrom capacity startSeq limit, readMeta), s.readMaterialized) ∧
      readMeta.copied = (l.runFrom capacity startSeq limit).length := by
    intro startSeq limit
    obtain ⟨hread, hcopied⟩ := copyFromSeqInternal_spec h.retains hseq startSeq limit
    rw [hoffset] at hread hcopied
    exact ⟨_, hread, hcopied⟩
  refine ⟨?_, ?_, ?_, ?_, ?_, ?_, ?_, ?_⟩
  · rw [bounds, hoffset, h.nextSeq_eq, hlen, h.capacity_eq]
  · intro limit
    obtain ⟨view, hread, hshows⟩ := hlast limit
    exact ⟨view, _, hread, hshows⟩
  · intro limit
    obtain ⟨view, hread, hshows⟩ := hlast limit
    refine ⟨view.readMeta, s.readMaterialized, ?_, hshows.copied_eq⟩
    simp only [copyLast, hread, map_some, hshows.copyTo_eq]
  · intro cursor limit
    obtain ⟨view, hread, hshows⟩ := hfrom cursor.nextSeq limit
    exact ⟨view, _, hread, hshows⟩
  · intro cursor limit
    obtain ⟨readMeta, hread, hcopied⟩ := hcopy cursor.nextSeq limit
    exact ⟨readMeta, _, hread, hcopied⟩
  · intro cursor limit
    obtain ⟨readMeta, hread, hcopied⟩ := hcopy cursor.nextSeq limit
    have hnew : s.copyNewSince cursor limit = some ((l.runFrom capacity cursor.nextSeq limit,
        readMeta, ⟨readMeta.actualStartSeq + readMeta.copied⟩), s.readMaterialized) := by
      rw [copyNewSince, hread, map_some]
    exact ⟨readMeta, _, _, hnew, hcopied⟩
  · intro cursor limit
    obtain ⟨readMeta, hread, hcopied⟩ := hcopy cursor.nextSeq limit
    have hdrain : s.drainNewBounded cursor limit = some ((l.runFrom capacity cursor.nextSeq limit,
        ⟨readMeta.copied, readMeta.clipped,
          decide (readMeta.actualStartSeq + readMeta.copied ≥ readMeta.nextSeq),
          readMeta.concurrentMiss⟩,
        ⟨readMeta.actualStartSeq + readMeta.copied⟩), s.readMaterialized) := by
      rw [drainNewBounded, hread, map_some]
    exact ⟨_, _, _, hdrain, hcopied⟩
  · intro R cursor limit init f
    obtain ⟨view, hread, hshows⟩ := hfrom cursor.nextSeq limit
    refine ⟨view.readMeta, s.readMaterialized, ?_, hshows.copied_eq⟩
    have hscan : view.forEach f init = (l.runFrom capacity cursor.nextSeq limit).foldl f init := by
      rw [← hshows.copyTo_eq, SeqRingReadView.copyTo, foldl_append]
      rfl
    simp only [scanFromCursor, withFromCursor, hread, map_some, hscan]

/-- **The ring is a bounded list.** Whatever the operations were, lazy defaults and
reads that allocate the array included, readers see the last `capacity` rows of the
list that the same operations build, every evicting push reported the rows that left
this window, and a batch does what single pushes do. -/
theorem refines_bounded_list (capacity : Nat) (hcapacity : 0 < capacity) (ops : List (SeqRingOp T))
    (happends : (ops.map fun op => (op.appended capacity).length).sum < 2 ^ 64) :
    ∃ s₀ s : SeqRingState T, SeqRingState.new capacity = .ok s₀ ∧
      s₀.execAll ops = some (SeqLog.empty.evictedAll capacity ops, s) ∧
      s.ReadsAs capacity (ops.foldl (SeqLog.step capacity) SeqLog.empty) ∧
      ∀ rows evicted, s.pushBatchWithEvicted rows evicted = s.pushEach rows evicted := by
  obtain ⟨s, hrun, hrefines, hseq⟩ := execAll_refines ops (new_refines (T := T) hcapacity)
    ((Nat.zero_add _).trans_lt happends)
  refine ⟨_, s, ?_, hrun, hrefines.readsAs hseq, ?_⟩
  · rw [new, if_neg (Nat.ne_of_gt hcapacity)]
  · intro rows evicted
    exact pushBatchWithEvicted_eq_pushEach hrefines.retains rows evicted

/-- A ring of two rows: a lazy default is read before the array exists, a batch of
three wraps and evicts. -/
theorem refines_bounded_list_wrapping :
    (SeqLog.empty.evictedAll 2 [.pushDefaultLazy, .withLast 1, .pushBatchWithEvicted [5, 6, 7]] =
        [[], [], [0, 5]]) ∧
      ∃ s₀ s : SeqRingState Nat, SeqRingState.new 2 = .ok s₀ ∧
        s₀.execAll [.pushDefaultLazy, .withLast 1, .pushBatchWithEvicted [5, 6, 7]] =
          some ([[], [], [0, 5]], s) ∧
        s.ReadsAs 2 ⟨[0, 5, 6, 7], 4⟩ := by
  obtain ⟨s₀, s, hnew, hrun, hreads, -⟩ := refines_bounded_list (T := Nat) 2 (by decide)
    [.pushDefaultLazy, .withLast 1, .pushBatchWithEvicted [5, 6, 7]] (by decide)
  exact ⟨by decide, s₀, s, hnew, hrun, hreads⟩

end SeqRingState

end MoonProto
