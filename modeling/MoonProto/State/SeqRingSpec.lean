import MoonProto.State.SeqRing

/-!
# What the ring operations do to the retained rows

`Retains s w` ties a ring state to the rows it keeps, whether or not its array has
been allocated. Every writer operation has one specification lemma that says which
rows are kept and which leave, every reader one that says which run of the kept
rows it returns.
-/

namespace MoonProto

open List Option

variable {T : Type*} [Inhabited T]

namespace SeqRingState

/-! ## The abstraction -/

/-- The ring keeps exactly the rows `w`, oldest first. Without an array every row
kept was pushed lazily. -/
structure Retains (s : SeqRingState T) (w : List T) : Prop where
  capacity_pos : 0 < s.capacity
  length_eq : w.length = s.len
  len_le : s.len ≤ s.capacity
  len_le_seq : s.len ≤ s.nextSeq
  stored : (s.rows = [] ∧ w = List.replicate s.len default) ∨
    (s.rows.length = s.capacity ∧ Ring.Holds s.rows (s.nextSeq - s.len) w)

variable {s s' : SeqRingState T} {w : List T}

@[simp] theorem ensureRows_capacity (s : SeqRingState T) : s.ensureRows.capacity = s.capacity := by
  unfold ensureRows
  split <;> rfl

@[simp] theorem ensureRows_nextSeq (s : SeqRingState T) : s.ensureRows.nextSeq = s.nextSeq := by
  unfold ensureRows
  split <;> rfl

@[simp] theorem ensureRows_len (s : SeqRingState T) : s.ensureRows.len = s.len := by
  unfold ensureRows
  split <;> rfl

namespace Retains

theorem fits (h : s.Retains w) : w.length ≤ s.capacity :=
  h.length_eq ▸ h.len_le

theorem rows_eq_nil_or (h : s.Retains w) : s.rows = [] ∨ s.rows.length = s.capacity :=
  h.stored.imp And.left And.left

theorem holds (h : s.Retains w) (hdense : s.rows.length = s.capacity) :
    Ring.Holds s.rows (s.nextSeq - s.len) w := by
  rcases h.stored with ⟨hnil, -⟩ | ⟨-, hholds⟩
  · have := h.capacity_pos
    rw [hnil, length_nil] at hdense
    omega
  · exact hholds

theorem ensureRows (h : s.Retains w) :
    s.ensureRows.Retains w ∧ s.ensureRows.rows.length = s.ensureRows.capacity := by
  have hpos := h.capacity_pos
  unfold SeqRingState.ensureRows
  rcases h.stored with ⟨hnil, hw⟩ | ⟨hdense, hholds⟩
  · rw [if_pos (by rw [hnil]; rfl)]
    have hdense : (List.replicate s.capacity (default : T)).length = s.capacity :=
      length_replicate
    refine ⟨⟨hpos, h.length_eq, h.len_le, h.len_le_seq, .inr ⟨hdense, ?_⟩⟩, hdense⟩
    show Ring.Holds (List.replicate s.capacity default) _ w
    rw [hw]
    exact Ring.Holds.replicate _ _ _ h.len_le
  · have hne : s.rows.isEmpty = false := by
      rw [isEmpty_eq_false_iff_exists_mem]
      exact exists_mem_of_length_pos (hdense ▸ hpos)
    rw [if_neg (by rw [hne]; exact Bool.false_ne_true)]
    exact ⟨h, hdense⟩

end Retains

/-! ## Writing one row -/

/-- The state after the row at `next_seq` is written, as both push loops leave it. -/
def storeRow (s : SeqRingState T) (row : T) : SeqRingState T :=
  { s with
    rows := s.rows.set (s.slotIndex s.nextSeq) row
    nextSeq := seqSucc s.nextSeq
    len := if s.len < s.capacity then s.len + 1 else s.len }

theorem seqSucc_eq {seq : Nat} (h : seq + 1 < 2 ^ 64) : seqSucc seq = seq + 1 :=
  Nat.mod_eq_of_lt h

/-- From `s`, which keeps `w`, the rows `rs` were appended. -/
structure Appended (s : SeqRingState T) (w rs : List T) (s' : SeqRingState T) : Prop where
  capacity_eq : s'.capacity = s.capacity
  nextSeq_eq : s'.nextSeq = s.nextSeq + rs.length
  retains : s'.Retains ((w ++ rs).rtake s.capacity)

theorem Appended.trans {a b : List T} {t : SeqRingState T}
    (h₁ : Appended s w a s') (h₂ : Appended s' ((w ++ a).rtake s.capacity) b t) :
    Appended s w (a ++ b) t where
  capacity_eq := h₂.capacity_eq.trans h₁.capacity_eq
  nextSeq_eq := by
    rw [h₂.nextSeq_eq, h₁.nextSeq_eq, length_append, Nat.add_assoc]
  retains := by
    have h := h₂.retains
    rwa [h₁.capacity_eq, List.rtake_append_rtake, append_assoc] at h

theorem Appended.nil (h : s.Retains w) : Appended s w [] s where
  capacity_eq := rfl
  nextSeq_eq := rfl
  retains := by
    rw [append_nil, List.rtake_of_length_le h.fits]
    exact h

theorem Appended.of_ensureRows {rs : List T} (h : Appended s.ensureRows w rs s') :
    Appended s w rs s' where
  capacity_eq := h.capacity_eq.trans (ensureRows_capacity s)
  nextSeq_eq := h.nextSeq_eq.trans (by rw [ensureRows_nextSeq])
  retains := by
    have hretains := h.retains
    rwa [ensureRows_capacity] at hretains

namespace Retains

/-- The slot to be written next exists, and holds the oldest row if the ring is full. -/
theorem next_slot (h : s.Retains w) (hdense : s.rows.length = s.capacity) (row : T) :
    ∃ old, s.rows[s.slotIndex s.nextSeq]? = some old ∧
      (w ++ [row]).rdrop s.capacity = if s.len < s.capacity then [] else [old] := by
  have hpos := h.capacity_pos
  have hidx : s.slotIndex s.nextSeq < s.rows.length := by
    rw [hdense]
    exact Nat.mod_lt _ hpos
  refine ⟨s.rows[s.slotIndex s.nextSeq], getElem?_eq_getElem hidx, ?_⟩
  have hlen := h.length_eq
  by_cases hroom : s.len < s.capacity
  · rw [if_pos hroom, List.rdrop_of_length_le]
    rw [length_append, hlen, length_singleton]
    exact hroom
  · have hfull : w.length = s.capacity := by
      have := h.len_le
      omega
    have hslot := (h.holds hdense).next_slot (hfull.trans hdense.symm) (hfull ▸ hpos)
    rw [hlen, Nat.sub_add_cancel h.len_le_seq, hdense] at hslot
    obtain ⟨oldest, w', rfl⟩ := exists_cons_of_length_pos (hfull ▸ hpos)
    have hold : s.rows[s.slotIndex s.nextSeq] = oldest := by
      have hget : s.rows[s.slotIndex s.nextSeq]? = some oldest := hslot
      rw [getElem?_eq_getElem hidx] at hget
      exact Option.some.inj hget
    rw [if_neg hroom, hold, ← hfull, rdrop]
    simp

theorem storeRow (h : s.Retains w) (hdense : s.rows.length = s.capacity)
    (hseq : s.nextSeq + 1 < 2 ^ 64) (row : T) : Appended s w [row] (s.storeRow row) := by
  have hpos := h.capacity_pos
  have hlen := h.length_eq
  have hle := h.len_le
  have hleSeq := h.len_le_seq
  have hholds := h.holds hdense
  have hnext : s.nextSeq - s.len + w.length = s.nextSeq := by omega
  have hnextSeq : (s.storeRow row).nextSeq = s.nextSeq + 1 := seqSucc_eq hseq
  have hrows : (s.storeRow row).rows.length = s.capacity := length_set.trans hdense
  refine ⟨rfl, hnextSeq, ?_⟩
  by_cases hroom : s.len < s.capacity
  · have hlen' : (s.storeRow row).len = s.len + 1 := if_pos hroom
    have hshort : (w ++ [row]).length ≤ s.capacity := by
      rw [length_append, length_singleton]
      omega
    rw [List.rtake_of_length_le hshort]
    have hheld := hholds.append (by omega) row
    rw [hnext, hdense] at hheld
    refine ⟨hpos, ?_, ?_, ?_, .inr ⟨hrows, ?_⟩⟩
    · rw [length_append, length_singleton, hlen', hlen]
    · rw [hlen']
      exact hroom
    · omega
    · rw [hnextSeq, hlen', Nat.add_sub_add_right]
      exact hheld
  · have hlen' : (s.storeRow row).len = s.len := if_neg hroom
    have hfull : s.len = s.capacity := by omega
    have hheld := hholds.overwrite (by omega) (by omega) row
    rw [hnext, hdense] at hheld
    have hwindow : (w ++ [row]).rtake s.capacity = w.drop 1 ++ [row] := by
      rw [rtake, length_append, hlen, hfull, length_singleton,
        Nat.add_sub_cancel_left, drop_append_of_le_length (by omega)]
    rw [hwindow]
    refine ⟨hpos, ?_, ?_, ?_, .inr ⟨hrows, ?_⟩⟩
    · rw [length_append, length_drop, length_singleton, hlen']
      omega
    · rw [hlen']
      exact hle
    · omega
    · rw [hnextSeq, hlen', Nat.sub_add_comm hleSeq]
      exact hheld

end Retains

/-! ## Writer operations -/

/-- Both loops test for room; the single push tests for a full ring. -/
theorem full_iff (h : s.Retains w) : s.len = s.capacity ↔ ¬ s.len < s.capacity := by
  have := h.len_le
  omega

/-- **`push_with_evicted`** returns the row that leaves the window, if one does. -/
theorem pushWithEvicted_spec (h : s.Retains w) (hseq : s.nextSeq + 1 < 2 ^ 64) (row : T) :
    ∃ s', s.pushWithEvicted row = some ((s.nextSeq, ((w ++ [row]).rdrop s.capacity).head?), s') ∧
      Appended s w [row] s' := by
  obtain ⟨hretains, hdense⟩ := h.ensureRows
  obtain ⟨old, hold, hgone⟩ := hretains.next_slot hdense row
  have happended := hretains.storeRow hdense (by rwa [ensureRows_nextSeq]) row
  refine ⟨s.ensureRows.storeRow row, ?_, happended.of_ensureRows⟩
  rw [ensureRows_capacity] at hgone
  rw [pushWithEvicted, hold, map_some, hgone]
  by_cases hroom : s.len < s.capacity
  · have hnot : s.len ≠ s.capacity := Nat.ne_of_lt hroom
    simp only [storeRow, ensureRows_len, ensureRows_capacity, ensureRows_nextSeq, if_pos hroom,
      if_neg hnot, head?_nil]
  · have hfull : s.len = s.capacity := (full_iff h).mpr hroom
    simp only [storeRow, ensureRows_len, ensureRows_capacity, ensureRows_nextSeq, if_neg hroom,
      if_pos hfull, head?_cons]

/-- **`push_default_lazy`** appends a default row, also while there is no array. -/
theorem pushDefaultLazy_spec (h : s.Retains w) (hseq : s.nextSeq + 1 < 2 ^ 64) :
    ∃ s', s.pushDefaultLazy = some (s.nextSeq, s') ∧ Appended s w [default] s' := by
  have hpos := h.capacity_pos
  rcases h.stored with ⟨hnil, hw⟩ | ⟨hdense, -⟩
  · have hlazy : s.pushDefaultLazy = some (s.nextSeq, { s with
        nextSeq := seqSucc s.nextSeq
        len := if s.len < s.capacity then s.len + 1 else s.len }) := by
      simp only [pushDefaultLazy, hnil, isEmpty_nil, if_true, map_some]
    refine ⟨_, hlazy, rfl, seqSucc_eq hseq, ?_⟩
    have hle := h.len_le
    have hleSeq := h.len_le_seq
    have hwindow : (w ++ [default]).rtake s.capacity =
        List.replicate (if s.len < s.capacity then s.len + 1 else s.len) default := by
      rw [hw, ← replicate_succ', rtake, drop_replicate, length_replicate]
      congr 1
      split <;> omega
    rw [hwindow]
    refine ⟨hpos, length_replicate, ?_, ?_, .inl ⟨hnil, rfl⟩⟩
    · show (if s.len < s.capacity then s.len + 1 else s.len) ≤ s.capacity
      split <;> omega
    · show (if s.len < s.capacity then s.len + 1 else s.len) ≤ seqSucc s.nextSeq
      rw [seqSucc_eq hseq]
      split <;> omega
  · obtain ⟨old, hold, -⟩ := h.next_slot hdense default
    refine ⟨s.storeRow default, ?_, h.storeRow hdense hseq default⟩
    have hne : s.rows.isEmpty = false := by
      rw [isEmpty_eq_false_iff_exists_mem]
      exact exists_mem_of_length_pos (hdense ▸ hpos)
    simp only [pushDefaultLazy, hne, Bool.false_eq_true, if_false, hold, map_some, storeRow]

/-- The batch loop, by induction on the rows still to be written. -/
theorem pushBatchLoop_spec : ∀ {s : SeqRingState T} {w : List T} (rows evicted : List T),
    s.Retains w → s.rows.length = s.capacity → s.nextSeq + rows.length < 2 ^ 64 →
    ∃ s', s.pushBatchLoop rows evicted = some (evicted ++ (w ++ rows).rdrop s.capacity, s') ∧
      Appended s w rows s'
  | s, w, [], evicted, h, _, _ => by
    refine ⟨s, ?_, Appended.nil h⟩
    rw [pushBatchLoop, append_nil, List.rdrop_of_length_le h.fits, append_nil]
  | s, w, row :: rows, evicted, h, hdense, hseq => by
    rw [length_cons] at hseq
    obtain ⟨old, hold, hgone⟩ := h.next_slot hdense row
    have hone := h.storeRow hdense (by omega) row
    obtain ⟨s', hloop, hrest⟩ := pushBatchLoop_spec rows
      (if s.len < s.capacity then evicted else evicted ++ [old]) hone.retains
      (length_set.trans hdense)
      (by rw [hone.nextSeq_eq, length_singleton]; omega)
    refine ⟨s', ?_, by simpa using hone.trans hrest⟩
    rw [pushBatchLoop, hold, bind_some]
    refine hloop.trans ?_
    have hevicted : (if s.len < s.capacity then evicted else evicted ++ [old]) =
        evicted ++ (w ++ [row]).rdrop s.capacity := by
      rw [hgone]
      split
      · rw [append_nil]
      · rfl
    have hsplit := List.rdrop_append_append w [row] rows s.capacity
    rw [singleton_append] at hsplit
    rw [hevicted, hone.capacity_eq, hsplit, append_assoc]

/-- **`push_batch_with_evicted`** collects the rows that leave the window. -/
theorem pushBatchWithEvicted_spec (h : s.Retains w) (rows evicted : List T)
    (hseq : s.nextSeq + rows.length < 2 ^ 64) :
    ∃ s', s.pushBatchWithEvicted rows evicted = some (evicted ++ (w ++ rows).rdrop s.capacity, s') ∧
      Appended s w rows s' := by
  cases rows with
  | nil =>
    refine ⟨s, ?_, Appended.nil h⟩
    rw [append_nil, List.rdrop_of_length_le h.fits, append_nil]
    rfl
  | cons row rows =>
    obtain ⟨hretains, hdense⟩ := h.ensureRows
    obtain ⟨s', hloop, hall⟩ := pushBatchLoop_spec (row :: rows) evicted hretains hdense
      (by rwa [ensureRows_nextSeq])
    rw [ensureRows_capacity] at hloop
    exact ⟨s', hloop, hall.of_ensureRows⟩

omit [Inhabited T] in
/-- While everything fits, replacing is a batch push that evicts nothing. -/
theorem replaceLoop_eq : ∀ (rows : List T) (s : SeqRingState T) (evicted : List T),
    s.len + rows.length ≤ s.capacity →
    s.replaceLoop rows = (s.pushBatchLoop rows evicted).map Prod.snd
  | [], _, _, _ => rfl
  | row :: rows, s, evicted, hfits => by
    rw [length_cons] at hfits
    have hroom : s.len < s.capacity := by omega
    rw [replaceLoop, pushBatchLoop]
    cases s.rows[s.slotIndex s.nextSeq]? with
    | none => rfl
    | some old =>
      simp only [bind_some, if_pos hroom]
      refine replaceLoop_eq rows _ evicted ?_
      show s.len + 1 + rows.length ≤ s.capacity
      omega

theorem Retains.forget (h : s.Retains w) (seq : Nat) :
    ({ s with nextSeq := seq, len := 0 } : SeqRingState T).Retains [] where
  capacity_pos := h.capacity_pos
  length_eq := rfl
  len_le := Nat.zero_le _
  len_le_seq := Nat.zero_le _
  stored := h.rows_eq_nil_or.imp (fun hnil => ⟨hnil, rfl⟩) fun hdense =>
    ⟨hdense, Ring.Holds.nil _ _⟩

/-- **`replace_batch`** keeps the newest rows of the batch under fresh numbers. -/
theorem replaceBatch_spec (h : s.Retains w) (rows : List T)
    (hseq : s.nextSeq + (rows.rtake s.capacity).length < 2 ^ 64) :
    ∃ s', s.replaceBatch rows = some s' ∧ s'.capacity = s.capacity ∧
      s'.nextSeq = s.nextSeq + (rows.rtake s.capacity).length ∧
      s'.Retains (rows.rtake s.capacity) := by
  have hkept : (if rows.length > s.capacity then rows.drop (rows.length - s.capacity) else rows) =
      rows.rtake s.capacity := by
    split
    · rfl
    · rw [List.rtake_of_length_le (by omega)]
  have hshort : (rows.rtake s.capacity).length ≤ s.capacity := by
    rw [List.length_rtake]
    exact Nat.min_le_left _ _
  rw [replaceBatch, hkept]
  generalize rows.rtake s.capacity = kept at hseq hshort ⊢
  have hempty := h.forget s.nextSeq
  cases kept with
  | nil => exact ⟨_, rfl, rfl, rfl, hempty⟩
  | cons row kept =>
    obtain ⟨hretains, hdense⟩ := hempty.ensureRows
    obtain ⟨s', hloop, hall⟩ := pushBatchLoop_spec (row :: kept) [] hretains hdense
      (by rwa [ensureRows_nextSeq])
    have hall := hall.of_ensureRows
    refine ⟨s', ?_, hall.capacity_eq, hall.nextSeq_eq, ?_⟩
    · have hnonempty : ¬ (row :: kept).isEmpty = true := Bool.false_ne_true
      rw [if_neg hnonempty, replaceLoop_eq _ _ [], hloop, map_some]
      rw [ensureRows_len, ensureRows_capacity]
      exact (Nat.zero_add _).trans_le hshort
    · have hretained := hall.retains
      rwa [nil_append, List.rtake_of_length_le hshort] at hretained

/-! ## Readers -/

@[simp] theorem readMaterialized_capacity (s : SeqRingState T) :
    s.readMaterialized.capacity = s.capacity := by
  unfold readMaterialized
  split
  · rfl
  · exact ensureRows_capacity s

@[simp] theorem readMaterialized_nextSeq (s : SeqRingState T) :
    s.readMaterialized.nextSeq = s.nextSeq := by
  unfold readMaterialized
  split
  · rfl
  · exact ensureRows_nextSeq s

@[simp] theorem readMaterialized_len (s : SeqRingState T) : s.readMaterialized.len = s.len := by
  unfold readMaterialized
  split
  · rfl
  · exact ensureRows_len s

theorem readMaterialized_bounds (s : SeqRingState T) : s.readMaterialized.bounds = s.bounds := by
  simp only [bounds, readMaterialized_capacity, readMaterialized_nextSeq, readMaterialized_len]

/-- After materialization a read finds an array, or nothing to read. -/
theorem Retains.readMaterialized (h : s.Retains w) : s.readMaterialized.Retains w ∧
      (s.len = 0 ∨ s.readMaterialized.rows.length = s.capacity) := by
  unfold SeqRingState.readMaterialized
  by_cases hskip : s.len = 0 ∨ s.rows.isEmpty = false
  · rw [if_pos hskip]
    refine ⟨h, hskip.imp id fun hne => ?_⟩
    rcases h.rows_eq_nil_or with hnil | hdense
    · rw [hnil] at hne
      exact absurd hne.symm Bool.false_ne_true
    · exact hdense
  · rw [if_neg hskip]
    exact ⟨h.ensureRows.1, .inr (h.ensureRows.2.trans (ensureRows_capacity s))⟩

/-- The physical slices of a retained range are the run of rows it names. -/
theorem slices_spec (h : s.Retains w) (hrows : s.len = 0 ∨ s.rows.length = s.capacity)
    (startSeq endSeq : Nat) (hstart : s.nextSeq - s.len ≤ startSeq) (hle : startSeq ≤ endSeq)
    (hend : endSeq ≤ s.nextSeq) :
    ∃ first second, s.slices startSeq endSeq = some (first, second) ∧
      first ++ second = (w.drop (startSeq - (s.nextSeq - s.len))).take (endSeq - startSeq) := by
  have hlen := h.length_eq
  have hleSeq := h.len_le_seq
  have hcap := h.len_le
  rcases Nat.eq_zero_or_pos (endSeq - startSeq) with hzero | hsome
  · refine ⟨[], [], by rw [slices]; exact if_pos hzero, ?_⟩
    rw [hzero, take_zero, nil_append]
  have hdense : s.rows.length = s.capacity := hrows.resolve_left (by omega)
  have hpos := h.capacity_pos
  have hslot : s.slotIndex startSeq < s.capacity := Nat.mod_lt _ hpos
  have hheld := ((h.holds hdense).drop
    (show startSeq - (s.nextSeq - s.len) ≤ w.length by omega)).take (endSeq - startSeq)
  rw [Nat.add_sub_cancel' hstart] at hheld
  have hcount : ((w.drop (startSeq - (s.nextSeq - s.len))).take (endSeq - startSeq)).length =
      endSeq - startSeq := by
    rw [length_take, length_drop]
    omega
  have hread := hheld.slices rfl
  rw [hcount, hdense] at hread
  refine ⟨_, _, ?_, hread⟩
  show s.slices startSeq endSeq = some ((s.rows.drop (s.slotIndex startSeq)).take
      (min (endSeq - startSeq) (s.capacity - s.slotIndex startSeq)),
    s.rows.take (endSeq - startSeq - min (endSeq - startSeq) (s.capacity - s.slotIndex startSeq)))
  unfold slices
  rw [if_neg (by omega), if_pos (by omega)]

/-- What a view holds: the run `rows`, with its number of rows. -/
structure Shows (view : SeqRingReadView T) (rows : List T) : Prop where
  copyTo_eq : view.copyTo = rows
  copied_eq : view.readMeta.copied = rows.length

/-- **A read from a sequence number** returns the rows from there on, at most
`limit` of them; a number outside the retained range is clamped to it. -/
theorem withFromSeqInternal_spec (h : s.Retains w) (hseq : s.nextSeq < 2 ^ 64)
    (startSeq limit : Nat) :
    ∃ view, s.withFromSeqInternal startSeq limit = some (view, s.readMaterialized) ∧
      view.readMeta = (s.readMeta startSeq limit).1 ∧
      Shows view ((w.drop (startSeq - (s.nextSeq - s.len))).take limit) := by
  have hlen := h.length_eq
  have hleSeq := h.len_le_seq
  obtain ⟨hretains, hrows⟩ := h.readMaterialized
  have hmeta : s.readMaterialized.readMeta startSeq limit = s.readMeta startSeq limit := by
    simp only [readMeta, readMaterialized_bounds]
  set start := min (max startSeq (s.nextSeq - s.len)) s.nextSeq with hstart
  set stop := min (min (start + limit) (2 ^ 64 - 1)) s.nextSeq with hstop
  obtain ⟨first, second, hslices, hjoin⟩ := slices_spec hretains
    (by simpa only [readMaterialized_len, readMaterialized_capacity] using hrows) start stop
    (by rw [readMaterialized_nextSeq, readMaterialized_len]; omega) (by omega)
    (by rw [readMaterialized_nextSeq]; omega)
  rw [readMaterialized_nextSeq, readMaterialized_len] at hjoin
  have hrun : (w.drop (start - (s.nextSeq - s.len))).take (stop - start) =
      (w.drop (startSeq - (s.nextSeq - s.len))).take limit := by
    rcases Nat.lt_or_ge s.nextSeq startSeq with hfuture | hknown
    · rw [drop_of_length_le (by omega), drop_of_length_le (by omega), take_nil,
        take_nil]
    · have hoffset : start - (s.nextSeq - s.len) = startSeq - (s.nextSeq - s.len) := by omega
      rw [hoffset]
      apply take_eq_take_iff.mpr
      rw [length_drop]
      omega
  refine ⟨⟨first, second, (s.readMeta startSeq limit).1⟩, ?_, rfl, hjoin.trans hrun, ?_⟩
  · simp only [withFromSeqInternal, hmeta]
    show (s.readMaterialized.slices start stop).map _ = _
    rw [hslices]
    rfl
  · show stop - start = _
    rw [← hrun, length_take, length_drop]
    omega

theorem copyFromSeqInternal_spec (h : s.Retains w) (hseq : s.nextSeq < 2 ^ 64)
    (startSeq limit : Nat) :
    s.copyFromSeqInternal startSeq limit =
        some (((w.drop (startSeq - (s.nextSeq - s.len))).take limit,
          (s.readMeta startSeq limit).1), s.readMaterialized) ∧
      (s.readMeta startSeq limit).1.copied =
        ((w.drop (startSeq - (s.nextSeq - s.len))).take limit).length := by
  obtain ⟨view, hread, hmeta, hshows⟩ := withFromSeqInternal_spec h hseq startSeq limit
  refine ⟨?_, hmeta ▸ hshows.copied_eq⟩
  simp only [copyFromSeqInternal, hread, map_some, hshows.copyTo_eq, hmeta]

/-- **A drain** moves the cursor behind the rows it returns and reports whether the
start had to be moved and whether rows are left. -/
theorem drainNewBounded_spec (h : s.Retains w) (hseq : s.nextSeq < 2 ^ 64)
    (cursor : SeqRingCursor) (limit : Nat) (start : Nat) (out : List T)
    (hstart : start = min (max cursor.nextSeq (s.nextSeq - s.len)) s.nextSeq)
    (hout : out = (w.drop (cursor.nextSeq - (s.nextSeq - s.len))).take limit) :
    s.drainNewBounded cursor limit =
      some ((out, ⟨out.length, start != cursor.nextSeq, decide (start + out.length ≥ s.nextSeq),
        false⟩, ⟨start + out.length⟩), s.readMaterialized) := by
  obtain ⟨hcopy, hcopied⟩ := copyFromSeqInternal_spec h hseq cursor.nextSeq limit
  rw [← hout] at hcopy hcopied
  simp only [drainNewBounded, hcopy, map_some, hcopied]
  subst hstart
  rfl

/-- **The newest rows** are a read from the number that many rows back. -/
theorem withLast_spec (h : s.Retains w) (hseq : s.nextSeq < 2 ^ 64) (limit : Nat) :
    ∃ view, s.withLast limit = some (view, s.readMaterialized) ∧ Shows view (w.rtake limit) := by
  have hlen := h.length_eq
  have hleSeq := h.len_le_seq
  have hcount : min limit s.len ≤ s.nextSeq := by omega
  obtain ⟨view, hview, -, hshows⟩ :=
    withFromSeqInternal_spec h hseq (s.nextSeq - min limit s.len) (min limit s.len)
  have hrun : (w.drop (s.nextSeq - min limit s.len - (s.nextSeq - s.len))).take (min limit s.len) =
      w.rtake limit := by
    have hoffset : s.nextSeq - min limit s.len - (s.nextSeq - s.len) = w.length - limit := by omega
    rw [hoffset, rtake, take_of_length_le]
    rw [length_drop]
    omega
  refine ⟨view, ?_, hrun ▸ hshows⟩
  have hbounds := readMaterialized_bounds s
  simp only [withLast, hbounds]
  rw [← hview]
  exact if_pos hcount

/-! ## A batch is a fold of single pushes -/

/-- Push the rows one by one and collect what each push evicts. -/
def pushEach : SeqRingState T → List T → List T → Option (List T × SeqRingState T)
  | s, [], evicted => some (evicted, s)
  | s, row :: rows, evicted =>
    (s.pushWithEvicted row).bind fun r => pushEach r.2 rows (evicted ++ r.1.2.toList)

theorem ensureRows_of_dense (hpos : 0 < s.capacity) (hdense : s.rows.length = s.capacity) :
    s.ensureRows = s := by
  have hne : s.rows ≠ [] := ne_nil_of_length_pos (hdense ▸ hpos)
  rw [ensureRows, if_neg (by simpa using hne)]

theorem pushWithEvicted_of_dense (hpos : 0 < s.capacity) (hle : s.len ≤ s.capacity)
    (hdense : s.rows.length = s.capacity) (row : T) :
    s.pushWithEvicted row = s.rows[s.slotIndex s.nextSeq]?.map fun old =>
      ((s.nextSeq, if s.len < s.capacity then none else some old), s.storeRow row) := by
  rw [pushWithEvicted, ensureRows_of_dense hpos hdense]
  by_cases hroom : s.len < s.capacity
  · have hnot : s.len ≠ s.capacity := Nat.ne_of_lt hroom
    simp only [storeRow, if_pos hroom, if_neg hnot]
  · have hfull : s.len = s.capacity := by omega
    simp only [storeRow, if_neg hroom, if_pos hfull]

theorem pushBatchLoop_eq_pushEach : ∀ (rows : List T) (s : SeqRingState T) (evicted : List T),
    0 < s.capacity → s.len ≤ s.capacity → s.rows.length = s.capacity →
    s.pushBatchLoop rows evicted = s.pushEach rows evicted
  | [], _, _, _, _, _ => rfl
  | row :: rows, s, evicted, hpos, hle, hdense => by
    rw [pushBatchLoop, pushEach, pushWithEvicted_of_dense hpos hle hdense]
    cases s.rows[s.slotIndex s.nextSeq]? with
    | none => rfl
    | some old =>
      have hgone : evicted ++ (if s.len < s.capacity then none else some old).toList =
          if s.len < s.capacity then evicted else evicted ++ [old] := by
        split
        · exact append_nil evicted
        · rfl
      simp only [bind_some, map_some, hgone]
      refine pushBatchLoop_eq_pushEach rows (s.storeRow row) _ hpos ?_
        (length_set.trans hdense)
      show (if s.len < s.capacity then s.len + 1 else s.len) ≤ s.capacity
      split <;> omega

/-- **A batch acts as the fold of single pushes**, on the state and on what is
reported as evicted. -/
theorem pushBatchWithEvicted_eq_pushEach (h : s.Retains w) (rows evicted : List T) :
    s.pushBatchWithEvicted rows evicted = s.pushEach rows evicted := by
  cases rows with
  | nil => rfl
  | cons row rows =>
    obtain ⟨hretains, hdense⟩ := h.ensureRows
    have hloop := pushBatchLoop_eq_pushEach (row :: rows) s.ensureRows evicted
      hretains.capacity_pos hretains.len_le hdense
    have hfirst : s.ensureRows.pushWithEvicted row = s.pushWithEvicted row := by
      simp only [pushWithEvicted, ensureRows_of_dense hretains.capacity_pos hdense]
    rw [pushEach, ← hfirst]
    exact hloop

end SeqRingState

end MoonProto
