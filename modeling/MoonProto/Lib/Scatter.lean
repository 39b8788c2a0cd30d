import Mathlib.Algebra.GroupWithZero.Nat
import Mathlib.Algebra.BigOperators.Group.Finset.Basic
import Mathlib.Logic.Function.Basic

/-!
# Pieces scattered over a buffer

Numbered pieces are appended to one buffer in the order in which they arrive, and
a span per number says where a piece lies. `Holds` says that exactly the pieces
of a set are in the buffer. Reading the spans in the order of the numbers gives
the pieces back in that order; where the spans follow each other without a gap
the buffer itself is that reading, and nothing has to be copied.
-/

namespace Scatter

open List Function

structure Span where
  offset : Nat
  len : Nat
deriving DecidableEq

variable {α ι : Type*}

/-- The elements of a span. -/
def read (buf : List α) (span : Span) : List α := (buf.drop span.offset).take span.len

/-- The elements of several spans, one behind the other. -/
def gather (buf : List α) (spans : List Span) : List α := spans.flatMap (read buf)

/-- Do the spans follow each other without a gap, from `offset` on? -/
def contiguous : Nat → List Span → Bool
  | _, [] => true
  | offset, span :: rest => span.offset == offset && contiguous (offset + span.len) rest

/-! ## Reading -/

theorem read_append {buf : List α} (more : List α) {span : Span}
    (h : span.offset + span.len ≤ buf.length) : read (buf ++ more) span = read buf span := by
  have hdrop : (buf ++ more).drop span.offset = buf.drop span.offset ++ more :=
    drop_append_of_le_length (Nat.le_of_add_right_le h)
  unfold read
  rw [hdrop, take_append_of_le_length]
  rw [length_drop]
  exact Nat.le_sub_of_add_le' h

theorem read_end (buf piece : List α) : read (buf ++ piece) ⟨buf.length, piece.length⟩ = piece := by
  simp [read]

theorem read_skip (buf : List α) (span : Span) (skip : Nat) :
    read buf ⟨span.offset + skip, span.len - skip⟩ = (read buf span).drop skip := by
  unfold read
  rw [drop_take, drop_drop]

theorem getD_offset {buf : List α} {span : Span} {a : α} {rest : List α}
    (h : read buf span = a :: rest) (d : α) : buf.getD span.offset d = a := by
  have hhead : (buf.drop span.offset).head? = some a := by
    unfold read at h
    cases hdrop : buf.drop span.offset with
    | nil =>
      rw [hdrop, take_nil] at h
      cases h
    | cons b tail =>
      rw [hdrop] at h
      cases hlen : span.len with
      | zero =>
        rw [hlen, take_zero] at h
        cases h
      | succ n =>
        rw [hlen, take_succ_cons] at h
        rw [(List.cons.inj h).1]
        rfl
  rw [head?_drop] at hhead
  rw [getD_eq_getElem?_getD, hhead]
  rfl

/-- Spans without a gap read a single stretch of the buffer. -/
theorem gather_of_contiguous (buf : List α) : ∀ {spans : List Span} {offset : Nat},
    contiguous offset spans = true →
    gather buf spans = read buf ⟨offset, (spans.map Span.len).sum⟩
  | [], offset, _ => by simp [gather, read]
  | span :: rest, offset, h => by
    obtain ⟨hoff, hrest⟩ := Bool.and_eq_true_iff.mp h
    rw [beq_iff_eq] at hoff
    have ih := gather_of_contiguous buf hrest
    unfold gather at ih ⊢
    rw [flatMap_cons, ih, map_cons, sum_cons]
    unfold read
    rw [hoff, ← drop_drop, ← take_add]

/-! ## Overwriting a span -/

/-- The buffer with the elements of a span replaced. -/
def overwrite (buf : List α) (span : Span) (piece : List α) : List α :=
  buf.take span.offset ++ piece ++ buf.drop (span.offset + span.len)

section Overwrite

variable {buf piece : List α} {span other : Span}

theorem length_read (h : span.offset + span.len ≤ buf.length) :
    (read buf span).length = span.len := by
  unfold read
  rw [length_take, length_drop]
  exact Nat.min_eq_left (Nat.le_sub_of_add_le' h)

theorem length_overwrite (h : span.offset + span.len ≤ buf.length)
    (hlen : piece.length = span.len) : (overwrite buf span piece).length = buf.length := by
  simp only [overwrite, length_append, length_take, length_drop, hlen]
  omega

theorem read_overwrite_self (h : span.offset + span.len ≤ buf.length)
    (hlen : piece.length = span.len) : read (overwrite buf span piece) span = piece := by
  have hoff : (buf.take span.offset).length = span.offset :=
    length_take_of_le (Nat.le_of_add_right_le h)
  unfold read overwrite
  rw [append_assoc, drop_left' hoff, take_left' hlen]

theorem getElem?_overwrite (h : span.offset + span.len ≤ buf.length)
    (hlen : piece.length = span.len) {k : Nat}
    (hk : k < span.offset ∨ span.offset + span.len ≤ k) :
    (overwrite buf span piece)[k]? = buf[k]? := by
  have hoff : (buf.take span.offset).length = span.offset :=
    length_take_of_le (Nat.le_of_add_right_le h)
  unfold overwrite
  rw [append_assoc]
  rcases hk with hk | hk
  · rw [getElem?_append_left (by rw [hoff]; exact hk), getElem?_take_of_lt hk]
  · rw [getElem?_append_right (by omega), getElem?_append_right (by omega),
      getElem?_drop, hoff, hlen]
    congr 1
    omega

theorem read_overwrite_of_disjoint (h : span.offset + span.len ≤ buf.length)
    (hlen : piece.length = span.len)
    (hdisj : other.offset + other.len ≤ span.offset ∨ span.offset + span.len ≤ other.offset) :
    read (overwrite buf span piece) other = read buf other := by
  apply ext_getElem?
  intro k
  unfold read
  by_cases hk : k < other.len
  · rw [getElem?_take_of_lt hk, getElem?_take_of_lt hk, getElem?_drop,
      getElem?_drop, getElem?_overwrite h hlen]
    omega
  · rw [getElem?_take_eq_none (Nat.le_of_not_lt hk), getElem?_take_eq_none (Nat.le_of_not_lt hk)]

/-- Two buffers that agree on spans without a gap over their whole length are equal. -/
theorem eq_of_reads {buf' : List α} (spans : List Span) (hc : contiguous 0 spans = true)
    (hlen : buf.length = (spans.map Span.len).sum) (hlen' : buf'.length = buf.length)
    (h : ∀ span ∈ spans, read buf span = read buf' span) : buf = buf' := by
  have hgather : gather buf spans = gather buf' spans :=
    flatMap_congr h
  rw [gather_of_contiguous buf hc, gather_of_contiguous buf' hc, ← hlen] at hgather
  unfold read at hgather
  rwa [drop_zero, drop_zero, take_length, ← hlen', take_length] at hgather

end Overwrite

/-! ## Holding pieces -/

/-- Exactly the pieces of `S` are in the buffer, each where its span says. -/
structure Holds (pieces : ι → List α) (S : Finset ι) (buf : List α) (span : ι → Span) : Prop where
  len : ∀ i ∈ S, (span i).len = (pieces i).length
  inside : ∀ i ∈ S, (span i).offset + (span i).len ≤ buf.length
  read : ∀ i ∈ S, read buf (span i) = pieces i
  size : buf.length = ∑ i ∈ S, (pieces i).length

namespace Holds

variable {pieces : ι → List α} {S : Finset ι} {buf : List α} {span : ι → Span}

theorem empty (pieces : ι → List α) (span : ι → Span) : Holds pieces ∅ [] span :=
  ⟨nofun, nofun, nofun, rfl⟩

theorem insert [DecidableEq ι] (h : Holds pieces S buf span) {i : ι} (hi : i ∉ S) :
    Holds pieces (insert i S) (buf ++ pieces i)
      (Function.update span i ⟨buf.length, (pieces i).length⟩) := by
  have hother : ∀ j ∈ S, Function.update span i ⟨buf.length, (pieces i).length⟩ j = span j := by
    intro j hj
    refine update_of_ne ?_ _ span
    rintro rfl
    exact hi hj
  refine ⟨fun j hj => ?_, fun j hj => ?_, fun j hj => ?_, ?_⟩
  · rcases Finset.mem_insert.mp hj with rfl | hj
    · rw [update_self]
    · rw [hother j hj]
      exact h.len j hj
  · rw [length_append]
    rcases Finset.mem_insert.mp hj with rfl | hj
    · rw [update_self]
    · rw [hother j hj]
      exact Nat.le_add_right_of_le (h.inside j hj)
  · rcases Finset.mem_insert.mp hj with rfl | hj
    · rw [update_self, read_end]
    · rw [hother j hj, read_append _ (h.inside j hj)]
      exact h.read j hj
  · rw [length_append, Finset.sum_insert hi, h.size, Nat.add_comm]

/-- **Gathering** gives the pieces back in the order asked for. -/
theorem gather (h : Holds pieces S buf span) {order : List ι} (horder : ∀ i ∈ order, i ∈ S) :
    gather buf (order.map span) = order.flatMap pieces := by
  induction order with
  | nil => rfl
  | cons i order ih =>
    have ih' := ih fun j hj => horder j (mem_cons_of_mem i hj)
    unfold Scatter.gather at ih' ⊢
    rw [map_cons, flatMap_cons, flatMap_cons, ih', h.read i (horder i mem_cons_self)]

/-- **Nothing to copy**: without gaps the buffer is what gathering would give. -/
theorem eq_of_contiguous [DecidableEq ι] {order : List ι} (hnodup : order.Nodup)
    (h : Holds pieces order.toFinset buf span) (hc : contiguous 0 (order.map span) = true) :
    buf = order.flatMap pieces := by
  have hmem : ∀ i ∈ order, i ∈ order.toFinset := fun i hi => List.mem_toFinset.mpr hi
  have hlen : ((order.map span).map Span.len).sum = buf.length := by
    rw [h.size, sum_toFinset _ hnodup, List.map_map]
    refine congrArg List.sum (map_congr_left fun i hi => ?_)
    exact h.len i (hmem i hi)
  rw [← h.gather hmem, gather_of_contiguous buf hc, hlen]
  simp [Scatter.read]

end Holds

end Scatter
