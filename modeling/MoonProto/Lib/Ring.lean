import Mathlib.Data.List.DropRight
import Mathlib.Data.Nat.ModEq

/-!
# Circular buffers

A list of slots read round the circle from a start position. `Holds rows start w`
says that the slots from `start` on hold the list `w`; the lemmas below say how it
changes when a slot is written and how a contiguous run of it is read back as two
ordinary slices. The start position is not reduced: it may be any number, and the
slot it denotes is its remainder.

The last `n` elements of a list are `List.rtake`, the ones before them
`List.rdrop`; the first section collects what happens to them when a list grows.
-/

/-! ## The last elements of a growing list -/

namespace List

open List

variable {α : Type*}

@[simp]
theorem length_rtake (l : List α) (n : Nat) : (l.rtake n).length = min n l.length := by
  rw [rtake, length_drop]
  omega

theorem rtake_of_length_le {l : List α} {n : Nat} (h : l.length ≤ n) : l.rtake n = l := by
  rw [rtake, Nat.sub_eq_zero_of_le h, drop_zero]

theorem rdrop_of_length_le {l : List α} {n : Nat} (h : l.length ≤ n) : l.rdrop n = [] := by
  rw [rdrop, Nat.sub_eq_zero_of_le h, take_zero]

/-- A bounded window forgets nothing that a later window would keep. -/
theorem rtake_append_rtake (l r : List α) (n : Nat) :
    (l.rtake n ++ r).rtake n = (l ++ r).rtake n := by
  simp only [rtake, length_append, length_drop, drop_append, drop_drop]
  congr 2 <;> omega

/-- What leaves the window when `a` and then `b` is appended, in that order. -/
theorem rdrop_append_append (l a b : List α) (n : Nat) :
    (l ++ (a ++ b)).rdrop n = (l ++ a).rdrop n ++ ((l ++ a).rtake n ++ b).rdrop n := by
  have hsplit : l ++ (a ++ b) = (l ++ a).rdrop n ++ ((l ++ a).rtake n ++ b) := by
    rw [← append_assoc, ← append_assoc, rdrop, rtake, take_append_drop]
  have hfull : (l ++ a).rdrop n = [] ∨ ((l ++ a).rtake n).length = n := by
    rcases Nat.le_total (l ++ a).length n with hle | hle
    · exact .inl (rdrop_of_length_le hle)
    · right
      rw [length_rtake, Nat.min_eq_left hle]
  rw [hsplit]
  rcases hfull with hnone | hlen
  · rw [hnone, nil_append, nil_append]
  · generalize (l ++ a).rdrop n = gone, (l ++ a).rtake n = kept at hlen
    have hcount : (gone ++ (kept ++ b)).length - n = gone.length + ((kept ++ b).length - n) := by
      simp only [length_append]
      omega
    rw [rdrop, rdrop, hcount, take_length_add_append]

end List

/-! ## Slots round the circle -/

namespace Ring

variable {α : Type*} {rows w : List α} {start : Nat}

/-- The slots from `start` on, taken round the circle, hold `w`. -/
structure Holds (rows : List α) (start : Nat) (w : List α) : Prop where
  fits : w.length ≤ rows.length
  slot : ∀ i, i < w.length → rows[(start + i) % rows.length]? = w[i]?

theorem slot_ne {n i j : Nat} (hij : i < j) (hj : j < n) : (start + i) % n ≠ (start + j) % n := by
  intro h
  have hmod : i ≡ j [MOD n] := Nat.ModEq.add_left_cancel' start h
  have heq : i = j := hmod.eq_of_lt_of_lt (hij.trans hj) hj
  omega

/-- The slot after a slot, with the jump at the end of the array. -/
theorem slot_succ {n : Nat} (hpos : 0 < n) (start : Nat) :
    (start + 1) % n = if start % n + 1 = n then 0 else start % n + 1 := by
  rw [← Nat.mod_add_mod]
  split
  · next hend => rw [hend, Nat.mod_self]
  next hend =>
  have hlt := Nat.mod_lt start hpos
  exact Nat.mod_eq_of_lt (by omega)

namespace Holds

theorem nil (rows : List α) (start : Nat) : Holds rows start [] :=
  ⟨Nat.zero_le _, fun _ h => absurd h (Nat.not_lt_zero _)⟩

theorem replicate (n : Nat) (start : Nat) (a : α) {m : Nat} (hm : m ≤ n) :
    Holds (List.replicate n a) start (List.replicate m a) := by
  refine ⟨by simpa using hm, fun i hi => ?_⟩
  rw [List.length_replicate] at hi ⊢
  rw [List.getElem?_replicate, List.getElem?_replicate, if_pos hi, if_pos (Nat.mod_lt _ (by omega))]

theorem append (h : Holds rows start w) (hroom : w.length < rows.length) (x : α) :
    Holds (rows.set ((start + w.length) % rows.length) x) start (w ++ [x]) := by
  have hslot : (start + w.length) % rows.length < rows.length := Nat.mod_lt _ (by omega)
  refine ⟨?_, fun i hi => ?_⟩
  · rw [List.length_append, List.length_set]
    exact hroom
  · rw [List.length_append, List.length_singleton] at hi
    rw [List.length_set]
    rcases Nat.lt_succ_iff_lt_or_eq.mp hi with hlt | rfl
    · rw [List.getElem?_set_ne (slot_ne hlt hroom).symm, h.slot i hlt,
        List.getElem?_append_left hlt]
    · rw [List.getElem?_set_self hslot, List.getElem?_concat_length]

theorem drop (h : Holds rows start w) {k : Nat} (hk : k ≤ w.length) :
    Holds rows (start + k) (w.drop k) := by
  refine ⟨?_, fun i hi => ?_⟩
  · rw [List.length_drop]
    exact (Nat.sub_le _ _).trans h.fits
  · rw [List.length_drop] at hi
    rw [List.getElem?_drop, ← h.slot (k + i) (by omega), Nat.add_assoc]

theorem head {x : α} (h : Holds rows start (x :: w)) : rows[start % rows.length]? = some x := by
  have hslot := h.slot 0 (Nat.succ_pos _)
  rwa [Nat.add_zero] at hslot

theorem tail {x : α} (h : Holds rows start (x :: w)) : Holds rows (start + 1) w :=
  h.drop (k := 1) (Nat.succ_pos _)

theorem take (h : Holds rows start w) (k : Nat) : Holds rows start (w.take k) := by
  refine ⟨(List.length_take_le' k w).trans h.fits, fun i hi => ?_⟩
  rw [List.length_take, Nat.lt_min] at hi
  rw [List.getElem?_take_of_lt hi.1, h.slot i hi.2]

theorem next_slot (h : Holds rows start w) (hfull : w.length = rows.length) (hpos : 0 < w.length) :
    rows[(start + w.length) % rows.length]? = w[0]? := by
  rw [hfull, Nat.add_mod_right, ← h.slot 0 hpos, Nat.add_zero]

theorem overwrite (h : Holds rows start w) (hfull : w.length = rows.length)
    (hpos : 0 < w.length) (x : α) :
    Holds (rows.set ((start + w.length) % rows.length) x) (start + 1) (w.drop 1 ++ [x]) := by
  have hnext := (h.drop (k := 1) hpos).append (by rw [List.length_drop]; omega) x
  have hslot : start + 1 + (w.drop 1).length = start + w.length := by
    rw [List.length_drop]
    omega
  rwa [hslot] at hnext

/-- **Two slices.** What is held is the slots from the start to the end of the
array followed by slots from its beginning. -/
theorem slices (h : Holds rows start w) {first : Nat}
    (hfirst : first = min w.length (rows.length - start % rows.length)) :
    (rows.drop (start % rows.length)).take first ++ rows.take (w.length - first) = w := by
  rcases Nat.eq_zero_or_pos rows.length with hzero | hpos
  · have hnil : w = [] := List.eq_nil_of_length_eq_zero (Nat.le_zero.mp (hzero ▸ h.fits))
    subst hnil
    simp [hfirst]
  have hstart : start % rows.length < rows.length := Nat.mod_lt _ hpos
  have hfits := h.fits
  apply List.ext_getElem?
  intro i
  have hlen : ((rows.drop (start % rows.length)).take first).length = first := by
    rw [List.length_take, List.length_drop]
    omega
  by_cases hi : i < w.length
  · rw [← h.slot i hi, ← Nat.mod_add_mod]
    by_cases hleft : i < first
    · have hbefore : (start % rows.length + i) % rows.length = start % rows.length + i :=
        Nat.mod_eq_of_lt (by omega)
      rw [List.getElem?_append_left (by rw [hlen]; exact hleft), List.getElem?_take_of_lt hleft,
        List.getElem?_drop, hbefore]
    · -- the run has passed the end of the array
      have hwrap : (start % rows.length + i) % rows.length = i - first := by
        rw [Nat.mod_eq_sub_mod (by omega), Nat.mod_eq_of_lt (by omega)]
        omega
      rw [List.getElem?_append_right (by rw [hlen]; omega), hlen, hwrap,
        List.getElem?_take_of_lt (by omega)]
  · have hend : ((rows.drop (start % rows.length)).take first
        ++ rows.take (w.length - first)).length ≤ i := by
      rw [List.length_append, hlen, List.length_take]
      omega
    rw [List.getElem?_eq_none hend, List.getElem?_eq_none (by omega)]

end Holds

end Ring
