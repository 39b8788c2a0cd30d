import MoonProto.Lib.Run
import MoonProto.State.SeqRingRefinement

/-!
# A consumer that drains the ring through a cursor

One consumer keeps a cursor and calls `drain_new_bounded` with limits of its own
choice while the writer does what it likes. `DrainWorld` records next to the ring
what the consumer should get: the rows behind its cursor when it was taken and
every row written since.

A cursor is a sequence number, so it keeps its meaning as long as numbers only
grow. `push`, the batches and `replace_batch` see to that, but `clear` starts the
numbering again at 0, and a cursor that survives it points into the new rows.
-/

namespace MoonProto

open List Option SeqRingState

variable {T : Type*} [Inhabited T]

/-! ## The consumer and its history -/

/-- One call of `drain_new_bounded`: the rows that were waiting behind the
consumer's position, the rows returned and what the call reported. -/
structure DrainCall (T : Type*) where
  unread : List T
  out : List T
  clipped : Bool
  caughtUp : Bool

structure DrainWorld (T : Type*) where
  ring : SeqRingState T
  cursor : SeqRingCursor
  /-- rows behind the cursor when it was taken, and rows written since -/
  owed : List T
  /-- rows the consumer has neither been given nor been told to miss -/
  unread : List T
  /-- the numbering has been restarted since the consumer's last call -/
  cleared : Bool
  /-- the last event was a call that reported `caught_up` -/
  caughtUp : Bool
  calls : List (DrainCall T)

inductive DrainEvent (T : Type*) where
  | write (op : SeqRingOp T)
  | drain (limit : Nat)

namespace DrainWorld

def received (w : DrainWorld T) : List T :=
  w.calls.flatMap DrainCall.out

/-- The consumer takes a cursor: it is owed what a read from there would return. -/
def start (ring : SeqRingState T) (cursor : SeqRingCursor) : Option (DrainWorld T) :=
  (ring.copyFromCursor cursor ring.len).map fun r =>
    { ring := r.2
      cursor := cursor
      owed := r.1.1
      unread := r.1.1
      cleared := false
      caughtUp := false
      calls := [] }

/-- A `clear` that renumbers anything. -/
def restarts (ring : SeqRingState T) : SeqRingOp T → Bool
  | .clear => ring.nextSeq != 0
  | _ => false

def step (w : DrainWorld T) : DrainEvent T → Option (DrainWorld T)
  | .write op => (w.ring.exec op).map fun r =>
    { w with
      ring := r.2
      owed := w.owed ++ op.appended w.ring.capacity
      unread := w.unread ++ op.appended w.ring.capacity
      cleared := w.cleared || restarts w.ring op
      caughtUp := false }
  | .drain limit => (w.ring.drainNewBounded w.cursor limit).map fun
      ((out, drainMeta, cursor), ring) =>
    { w with
      ring := ring
      cursor := cursor
      -- a clipped call moves the position to the end of the rows it returned
      unread := if drainMeta.clipped then w.unread.rtake (ring.nextSeq - cursor.nextSeq)
        else w.unread.drop out.length
      cleared := false
      caughtUp := drainMeta.caughtUp
      calls := w.calls ++ [⟨w.unread, out, drainMeta.clipped, drainMeta.caughtUp⟩] }

/-- No call that reported `clipped = false` passed over a waiting row, and a
consumer that has caught up without a clipped call has everything. -/
structure NeverMisses (w : DrainWorld T) : Prop where
  nothing_skipped : ∀ call ∈ w.calls, call.clipped = false → call.out <+: call.unread
  in_order : (∀ call ∈ w.calls, call.clipped = false) → w.received <+: w.owed
  complete : w.caughtUp = true → (∀ call ∈ w.calls, call.clipped = false) → w.received = w.owed

/-- Sequence numbers last, and the consumer does not call after a restart once the
new numbers have reached its cursor. -/
def Admitted (w : DrainWorld T) : DrainEvent T → Prop
  | .write op => w.ring.nextSeq + (op.appended w.ring.capacity).length < 2 ^ 64
  | .drain _ => w.cleared = true → w.ring.nextSeq < w.cursor.nextSeq

instance decidableAdmitted (w : DrainWorld T) : ∀ event, Decidable (w.Admitted event)
  | .write op =>
    inferInstanceAs (Decidable (w.ring.nextSeq + (op.appended w.ring.capacity).length < 2 ^ 64))
  | .drain _ => inferInstanceAs (Decidable (w.cleared = true → w.ring.nextSeq < w.cursor.nextSeq))

/-! ## Invariant -/

/-- The consumer's position agrees with the numbers: the cursor stands right before
the unread rows, which are the newest rows written. -/
structure Synced (w : DrainWorld T) (kept : List T) : Prop where
  cursor_le : w.cursor.nextSeq ≤ w.ring.nextSeq
  unread_length : w.unread.length = w.ring.nextSeq - w.cursor.nextSeq
  newest : kept <:+ w.unread ∨ w.unread <:+ kept

structure Inv (capacity : Nat) (w : DrainWorld T) : Prop where
  refines : ∃ l, w.ring.Refines capacity l ∧ (w.cleared = false → w.Synced (l.kept capacity))
  seq_lt : w.ring.nextSeq < 2 ^ 64
  caught_up : w.caughtUp = true → w.unread = []
  accounted : (∀ call ∈ w.calls, call.clipped = false) → w.received ++ w.unread = w.owed
  nothing_skipped : ∀ call ∈ w.calls, call.clipped = false → call.out <+: call.unread

theorem Inv.neverMisses {capacity : Nat} {w : DrainWorld T} (h : w.Inv capacity) :
    w.NeverMisses where
  nothing_skipped := h.nothing_skipped
  in_order := fun hclip => ⟨w.unread, h.accounted hclip⟩
  complete := fun hcaught hclip => by
    have hall := h.accounted hclip
    rwa [h.caught_up hcaught, append_nil] at hall

/-! ## Writer steps -/

/-- A writer step that does not restart the numbering numbers its rows in sequence
and keeps the newest ones. -/
theorem step_of_not_restarts {capacity : Nat} {ring : SeqRingState T} {l : SeqLog T}
    (h : ring.Refines capacity l) {op : SeqRingOp T} (hop : restarts ring op = false) :
    (l.step capacity op).nextSeq = l.nextSeq + (op.appended capacity).length ∧
      (l.step capacity op).kept capacity <:+ l.kept capacity ++ op.appended capacity := by
  have hgrow : ∀ rs : List T, (l.rows ++ rs).rtake capacity <:+ l.kept capacity ++ rs := by
    intro rs
    rw [← List.rtake_append_rtake]
    exact drop_suffix _ _
  cases op with
  | replaceBatch rows => exact ⟨rfl, suffix_append _ _⟩
  | clear =>
    have hzero : l.nextSeq = 0 := by
      rw [← h.nextSeq_eq]
      simpa [restarts] using hop
    refine ⟨by rw [hzero]; rfl, ?_⟩
    rw [SeqLog.step, SeqLog.kept_empty]
    exact nil_suffix
  | _ => exact ⟨rfl, hgrow _⟩

omit [Inhabited T] in
theorem Synced.write {w w' : DrainWorld T} {kept kept' rs : List T} (h : w.Synced kept)
    (hcursor : w'.cursor = w.cursor) (hunread : w'.unread = w.unread ++ rs)
    (hnext : w'.ring.nextSeq = w.ring.nextSeq + rs.length) (hkept : kept' <:+ kept ++ rs) :
    w'.Synced kept' where
  cursor_le := by
    rw [hcursor, hnext]
    exact h.cursor_le.trans (Nat.le_add_right _ _)
  unread_length := by
    have hle := h.cursor_le
    rw [hcursor, hnext, hunread, length_append, h.unread_length]
    omega
  newest := by
    rw [hunread]
    rcases h.newest with ⟨older, hold⟩ | ⟨older, hold⟩
    · refine .inl (hkept.trans ⟨older, ?_⟩)
      rw [← append_assoc, hold]
    · -- both are suffixes of the rows kept before, followed by the new ones
      refine suffix_or_suffix_of_suffix hkept ⟨older, ?_⟩
      rw [← append_assoc, hold]

theorem Inv.write {capacity : Nat} {w : DrainWorld T} (h : w.Inv capacity) (op : SeqRingOp T)
    (hseq : w.ring.nextSeq + (op.appended w.ring.capacity).length < 2 ^ 64) :
    ∃ w', w.step (.write op) = some w' ∧ w'.Inv capacity := by
  obtain ⟨l, hrefines, hsynced⟩ := h.refines
  have hcapacity := hrefines.capacity_eq
  rw [hcapacity, hrefines.nextSeq_eq] at hseq
  obtain ⟨ring, hexec, hring⟩ := exec_refines hrefines op hseq
  refine ⟨_, by rw [step, hexec, map_some], ?_⟩
  refine ⟨⟨_, hring, ?_⟩, ?_, Bool.false_ne_true.elim, ?_,
    h.nothing_skipped⟩
  · intro hcleared
    obtain ⟨hbefore, hop⟩ := Bool.or_eq_false_iff.mp hcleared
    obtain ⟨hnext, hkept⟩ := step_of_not_restarts hrefines hop
    refine (hsynced hbefore).write rfl (by rw [hcapacity]) ?_ hkept
    rw [← hrefines.nextSeq_eq, ← hring.nextSeq_eq] at hnext
    exact hnext
  · show ring.nextSeq < 2 ^ 64
    rw [hring.nextSeq_eq]
    exact (SeqLog.step_nextSeq_le capacity l op).trans_lt hseq
  · intro hclip
    show w.received ++ (w.unread ++ op.appended w.ring.capacity) = w.owed ++ _
    rw [← append_assoc, h.accounted hclip]

/-! ## Calls -/

omit [Inhabited T] in
/-- A call that is not clipped returns the first unread rows. -/
theorem Synced.out_of_not_clipped {w : DrainWorld T} {kept : List T} (h : w.Synced kept)
    (hlen : kept.length = w.ring.len) (hle : w.ring.len ≤ w.ring.nextSeq)
    (hstart : w.ring.nextSeq - w.ring.len ≤ w.cursor.nextSeq) :
    kept.drop (w.cursor.nextSeq - (w.ring.nextSeq - w.ring.len)) = w.unread := by
  have hcursor := h.cursor_le
  have hcount := h.unread_length
  have hsuffix : w.unread <:+ kept := by
    rcases h.newest with hkept | hunread
    · have heq : kept = w.unread := hkept.eq_of_length_le (by omega)
      exact heq ▸ suffix_refl _
    · exact hunread
  rw [suffix_iff_eq_drop.mp hsuffix]
  congr 1
  omega

omit [Inhabited T] in
/-- A clipped call finds every retained row unread. -/
theorem Synced.kept_suffix_of_clipped {w : DrainWorld T} {kept : List T} (h : w.Synced kept)
    (hlen : kept.length = w.ring.len) (hstart : w.cursor.nextSeq < w.ring.nextSeq - w.ring.len) :
    kept <:+ w.unread := by
  have hcount := h.unread_length
  rcases h.newest with hkept | hunread
  · exact hkept
  · have heq : w.unread = kept := hunread.eq_of_length_le (by omega)
    exact heq ▸ suffix_refl _

/-- The world after a call that returned `out` from `start` on and left `unread`. -/
def called (w : DrainWorld T) (start : Nat) (out unread : List T) (clipped : Bool) : DrainWorld T :=
  { w with
    ring := w.ring.readMaterialized
    cursor := ⟨start + out.length⟩
    unread := unread
    cleared := false
    caughtUp := decide (start + out.length ≥ w.ring.nextSeq)
    calls := w.calls ++
      [⟨w.unread, out, clipped, decide (start + out.length ≥ w.ring.nextSeq)⟩] }

/-- A call keeps the invariant if what it leaves unread are the newest rows behind
the new cursor and, unless it is clipped, it returned the rows before them. -/
theorem Inv.called {capacity : Nat} {w : DrainWorld T} (h : w.Inv capacity) {l : SeqLog T}
    (hrefines : w.ring.Refines capacity l) {start : Nat} {out unread : List T} {clipped : Bool}
    (hcursor : start + out.length ≤ w.ring.nextSeq)
    (hlength : unread.length = w.ring.nextSeq - (start + out.length))
    (hnewest : unread <:+ l.kept capacity)
    (hclipped : clipped = false → out ++ unread = w.unread) :
    (w.called start out unread clipped).Inv capacity := by
  have hnext : w.ring.readMaterialized.nextSeq = w.ring.nextSeq :=
    readMaterialized_nextSeq _
  refine ⟨⟨l, ?_, fun _ => ⟨?_, ?_, .inr hnewest⟩⟩, ?_, ?_, ?_, ?_⟩
  · have hread := hrefines.of_read
    rwa [append_nil] at hread
  · exact hcursor.trans_eq hnext.symm
  · exact hlength.trans (by rw [← hnext]; rfl)
  · exact hnext.trans_lt h.seq_lt
  · intro hcaught
    have hend : start + out.length ≥ w.ring.nextSeq := of_decide_eq_true hcaught
    exact eq_nil_of_length_eq_zero (hlength.trans (Nat.sub_eq_zero_of_le hend))
  · intro hclip
    have hthis : clipped = false := hclip _ (mem_append_right _ mem_cons_self)
    have hbefore := h.accounted fun call hcall => hclip call (mem_append_left _ hcall)
    show (w.calls ++ [_]).flatMap DrainCall.out ++ unread = w.owed
    rw [flatMap_append, flatMap_singleton, append_assoc, hclipped hthis]
    exact hbefore
  · intro call hcall hclip
    rcases mem_append.mp hcall with hold | hnew
    · exact h.nothing_skipped call hold hclip
    · rw [mem_singleton] at hnew
      subst hnew
      exact ⟨unread, hclipped hclip⟩

section Drain

variable {capacity : Nat} {w : DrainWorld T} {l : SeqLog T}

/-- After a restart that the new numbers have not made up for, a call returns
nothing and says that it was clipped. -/
theorem Inv.drain_restarted (h : w.Inv capacity) (hrefines : w.ring.Refines capacity l)
    (hbehind : w.ring.nextSeq < w.cursor.nextSeq) (limit : Nat) :
    ∃ w', w.step (.drain limit) = some w' ∧ w'.Inv capacity := by
  have hlen := hrefines.retains.length_eq
  have hle := hrefines.retains.len_le_seq
  have hcall := drainNewBounded_spec hrefines.retains h.seq_lt w.cursor limit
    w.ring.nextSeq [] (by omega)
    (by rw [drop_of_length_le (by omega), take_nil])
  have hclip : (w.ring.nextSeq != w.cursor.nextSeq) = true := by
    simpa using Nat.ne_of_lt hbehind
  refine ⟨w.called w.ring.nextSeq [] [] true, ?_,
    h.called hrefines (Nat.le_refl _) (Nat.sub_self _).symm nil_suffix
      fun hfalse => absurd hfalse.symm Bool.false_ne_true⟩
  simp only [step, hcall, map_some, hclip, if_true, readMaterialized_nextSeq,
    length_nil, Nat.add_zero, Nat.sub_self, rtake_zero]
  rfl

/-- When unread rows have left the ring, a call starts at the oldest row and says
that it was clipped. -/
theorem Inv.drain_clipped (h : w.Inv capacity) (hrefines : w.ring.Refines capacity l)
    (hsynced : w.Synced (l.kept capacity))
    (hold : w.cursor.nextSeq < w.ring.nextSeq - w.ring.len) (limit : Nat) :
    ∃ w', w.step (.drain limit) = some w' ∧ w'.Inv capacity := by
  have hlen := hrefines.retains.length_eq
  have hle := hrefines.retains.len_le_seq
  have hsuffix := hsynced.kept_suffix_of_clipped hlen hold
  set start := w.ring.nextSeq - w.ring.len with hstart
  set out := (l.kept capacity).take limit with hout
  have houtLen : out.length ≤ w.ring.len := by
    rw [hout, length_take]
    omega
  have hleft : w.unread.rtake (w.ring.nextSeq - (start + out.length)) =
      (l.kept capacity).drop out.length := by
    have hcount := hsuffix.length_le
    rw [suffix_iff_eq_drop.mp hsuffix, drop_drop, rtake]
    congr 1
    omega
  have hcall := drainNewBounded_spec hrefines.retains h.seq_lt w.cursor limit
    start out (by omega)
    (by rw [Nat.sub_eq_zero_of_le (Nat.le_of_lt hold), drop_zero])
  have hclip : (start != w.cursor.nextSeq) = true := by
    simpa using Nat.ne_of_gt hold
  refine ⟨w.called start out ((l.kept capacity).drop out.length) true, ?_,
    h.called hrefines (by omega) ?_ (drop_suffix _ _)
      fun hfalse => absurd hfalse.symm Bool.false_ne_true⟩
  · simp only [step, hcall, map_some, hclip, if_true, readMaterialized_nextSeq, hleft]
    rfl
  · rw [length_drop]
    omega

/-- While every unread row is retained, a call returns the first of them. -/
theorem Inv.drain_synced (h : w.Inv capacity) (hrefines : w.ring.Refines capacity l)
    (hsynced : w.Synced (l.kept capacity))
    (hkept : w.ring.nextSeq - w.ring.len ≤ w.cursor.nextSeq) (limit : Nat) :
    ∃ w', w.step (.drain limit) = some w' ∧ w'.Inv capacity := by
  have hcursor := hsynced.cursor_le
  have hcount := hsynced.unread_length
  have hrows := hsynced.out_of_not_clipped hrefines.retains.length_eq hrefines.retains.len_le_seq
    hkept
  set out := w.unread.take limit with hout
  have houtLen : out.length = min limit w.unread.length := length_take
  have hsplit : out ++ w.unread.drop out.length = w.unread :=
    prefix_iff_eq_append.mp ( take_prefix _ _)
  have hcall := drainNewBounded_spec hrefines.retains h.seq_lt w.cursor limit
    w.cursor.nextSeq out (by omega) (by rw [hrows])
  refine ⟨w.called w.cursor.nextSeq out (w.unread.drop out.length) false, ?_,
    h.called hrefines (by omega) ?_ ?_ fun _ => hsplit⟩
  · simp only [step, hcall, map_some, bne_self_eq_false, Bool.false_eq_true, if_false]
    rfl
  · rw [length_drop]
    omega
  · rw [← hrows, drop_drop]
    exact drop_suffix _ _

end Drain

/-- **One event.** An admitted event neither panics nor breaks the invariant. -/
theorem Inv.step {capacity : Nat} {w : DrainWorld T} (h : w.Inv capacity) (event : DrainEvent T)
    (hadm : w.Admitted event) : ∃ w', w.step event = some w' ∧ w'.Inv capacity := by
  cases event with
  | write op => exact h.write op hadm
  | drain limit =>
    obtain ⟨l, hrefines, hsynced⟩ := h.refines
    cases hcleared : w.cleared with
    | true => exact h.drain_restarted hrefines (hadm hcleared) limit
    | false =>
      rcases Nat.lt_or_ge w.cursor.nextSeq (w.ring.nextSeq - w.ring.len) with hold | hkept
      · exact h.drain_clipped hrefines (hsynced hcleared) hold limit
      · exact h.drain_synced hrefines (hsynced hcleared) hkept limit

theorem start_inv {capacity : Nat} {ring : SeqRingState T} {l : SeqLog T}
    (hrefines : ring.Refines capacity l) (hseq : ring.nextSeq < 2 ^ 64) {cursor : SeqRingCursor}
    (holdest : ring.bounds.oldestSeq ≤ cursor.nextSeq)
    (hnext : cursor.nextSeq ≤ ring.bounds.nextSeq) :
    ∃ w, start ring cursor = some w ∧ w.Inv capacity := by
  have hlen := hrefines.retains.length_eq
  have hle := hrefines.retains.len_le_seq
  obtain ⟨hcopy, -⟩ := copyFromSeqInternal_spec hrefines.retains hseq
    cursor.nextSeq ring.len
  rw [take_of_length_le (by rw [length_drop]; omega)] at hcopy
  refine ⟨_, by rw [start, copyFromCursor, hcopy, map_some], ?_⟩
  have hnextSeq : ring.readMaterialized.nextSeq = ring.nextSeq :=
    readMaterialized_nextSeq _
  have hread := hrefines.of_read
  rw [append_nil] at hread
  refine ⟨⟨l, hread, fun _ => ⟨?_, ?_, .inr (drop_suffix _ _)⟩⟩, ?_, ?_, ?_, ?_⟩
  · exact hnext.trans_eq hnextSeq.symm
  · show ((l.kept capacity).drop _).length = ring.readMaterialized.nextSeq - cursor.nextSeq
    have hbound : cursor.nextSeq ≤ ring.nextSeq := hnext
    have holdest' : ring.nextSeq - ring.len ≤ cursor.nextSeq := holdest
    rw [length_drop, hnextSeq]
    omega
  · exact hnextSeq.trans_lt hseq
  · exact Bool.false_ne_true.elim
  · exact fun _ => rfl
  · exact fun _ hcall => absurd hcall not_mem_nil

/-! ## Whole runs -/

/-- **A drain never misses rows silently** in any interleaving in which the
consumer does not call between a restart of the numbering having been made up for
and noticing it: a call that is not clipped returns the rows that come next, and a
consumer that catches up without a clipped call has received every row since its
cursor was taken, once and in order. No such run panics. -/
theorem drains_never_miss (capacity : Nat) (hcapacity : 0 < capacity) (ops : List (SeqRingOp T))
    (happends : (ops.map fun op => (op.appended capacity).length).sum < 2 ^ 64)
    {s₀ s : SeqRingState T} {evicted : List (List T)} (hnew : new capacity = .ok s₀)
    (hring : s₀.execAll ops = some (evicted, s)) (cursor : SeqRingCursor)
    (holdest : s.bounds.oldestSeq ≤ cursor.nextSeq)
    (hnext : cursor.nextSeq ≤ s.bounds.nextSeq) :
    ∃ w₀, start s cursor = some w₀ ∧ ∀ events, Run.Along step Admitted w₀ events →
        ∃ w, Run.run step w₀ events = some w ∧ w.NeverMisses := by
  rw [new, if_neg (Nat.ne_of_gt hcapacity)] at hnew
  obtain rfl := Except.ok.inj hnew
  obtain ⟨s', hrun, hrefines, hseq⟩ := execAll_refines ops
    (new_refines (T := T) hcapacity) ((Nat.zero_add _).trans_lt happends)
  rw [hring] at hrun
  obtain ⟨-, rfl⟩ := Prod.mk.inj (Option.some.inj hrun)
  obtain ⟨w₀, hstart, hinv⟩ := start_inv hrefines hseq holdest hnext
  refine ⟨w₀, hstart, fun events hadm => ?_⟩
  obtain ⟨w, hw, hI⟩ := Run.run_total (I := Inv capacity)
    (fun v event hv hP => hv.step event hP) hinv hadm
  exact ⟨w, hw, hI.neverMisses⟩

/-- A ring of four rows, drained from the oldest: two bounded calls, a wrap, a
replacement that the next call reports, and a restart that the call after it
reports because only one row has been written since. -/
theorem drains_never_miss_restart : ∃ s₀ s : SeqRingState Nat, new 4 = .ok s₀ ∧
      s₀.execAll [.pushBatch [1, 2, 3]] = some ([[]], s) ∧
      ∃ w₀, start s s.cursorFromOldest = some w₀ ∧
        ∃ w, Run.run step w₀ [.drain 2, .write (.push 4), .drain 9, .write (.replaceBatch [8, 9]),
          .write .clear, .write (.push 5), .drain 9, .write (.push 6), .drain 9] = some w ∧
          w.NeverMisses := by
  have hring : ∃ s : SeqRingState Nat,
      ({ rows := [], capacity := 4, nextSeq := 0, len := 0 } : SeqRingState Nat).execAll
        [.pushBatch [1, 2, 3]] = some ([[]], s) ∧ s.bounds.oldestSeq = 0 ∧ s.bounds.nextSeq = 3 ∧
      ∀ w₀, start s s.cursorFromOldest = some w₀ → Run.Along step Admitted w₀ [.drain 2,
        .write (.push 4), .drain 9, .write (.replaceBatch [8, 9]), .write .clear,
        .write (.push 5), .drain 9, .write (.push 6), .drain 9] := by
    refine ⟨_, rfl, rfl, rfl, fun w₀ hw₀ => ?_⟩
    obtain rfl := Option.some.inj hw₀
    decide +kernel
  obtain ⟨s, hexec, holdest, hnext, hadm⟩ := hring
  obtain ⟨w₀, hstart, hall⟩ := drains_never_miss (T := Nat) 4 (by decide)
    [.pushBatch [1, 2, 3]] (by decide) rfl hexec s.cursorFromOldest
    (Nat.le_refl _) (by rw [cursorFromOldest, holdest, hnext]; decide)
  exact ⟨_, s, rfl, hexec, w₀, hstart, hall _ (hadm w₀ hstart)⟩

/-- After `clear` the cursor 3 points into the five new rows: the first three of
them, all still retained, are passed over by a call that reports neither a clip nor
anything left. -/
theorem restarted_numbering_skips_rows :
    ∃ (s₀ s : SeqRingState Nat) (w₀ w : DrainWorld Nat), new 8 = .ok s₀ ∧
      s₀.execAll [.pushBatch [1, 2, 3]] = some ([[]], s) ∧
      start s s.cursorFromNow = some w₀ ∧
      Run.run step w₀
        [.write .clear, .write (.pushBatch [10, 11, 12, 13, 14]), .drain 100] = some w ∧
      w.owed = [10, 11, 12, 13, 14] ∧
      (w.ring.copyLast 8).map (fun r => r.1.1) = some [10, 11, 12, 13, 14] ∧
      w.received = [13, 14] ∧ w.caughtUp = true ∧
      (∀ call ∈ w.calls, call.clipped = false) ∧ ¬ w.NeverMisses := by
  have hworld : ∃ (s : SeqRingState Nat) (w₀ w : DrainWorld Nat),
      ({ rows := [], capacity := 8, nextSeq := 0, len := 0 } : SeqRingState Nat).execAll
        [.pushBatch [1, 2, 3]] = some ([[]], s) ∧ start s s.cursorFromNow = some w₀ ∧
      Run.run step w₀
        [.write .clear, .write (.pushBatch [10, 11, 12, 13, 14]), .drain 100] = some w ∧
      w.owed = [10, 11, 12, 13, 14] ∧
      (w.ring.copyLast 8).map (fun r => r.1.1) = some [10, 11, 12, 13, 14] ∧
      w.received = [13, 14] ∧ w.caughtUp = true ∧ w.calls.map DrainCall.clipped = [false] :=
    ⟨_, _, _, rfl, rfl, rfl, rfl, rfl, rfl, rfl, rfl⟩
  obtain ⟨s, w₀, w, hexec, hstart, hrun, howed, hkept, hreceived, hcaught, hclipped⟩ := hworld
  have hclip : ∀ call ∈ w.calls, call.clipped = false := by
    intro call hcall
    have hmem := List.mem_map_of_mem (f := DrainCall.clipped) hcall
    rw [hclipped] at hmem
    exact mem_singleton.mp hmem
  refine ⟨_, s, w₀, w, rfl, hexec, hstart, hrun, howed, hkept, hreceived, hcaught, hclip, ?_⟩
  intro hmisses
  have hall := hmisses.complete hcaught hclip
  rw [hreceived, howed] at hall
  exact absurd hall (by decide)

end DrainWorld

end MoonProto
