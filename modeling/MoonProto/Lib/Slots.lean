import Mathlib.Tactic.Common
import Mathlib.Data.List.Basic

/-!
# Lists of slots

A table of slots is a list in which single positions are searched for and updated.
The lemmas say what a search found, how membership and counting change when one
position is modified, and that a binary search finds the place of a new slot in a sorted
table.
-/

namespace Slots

open List

variable {α : Type*} {l : List α} {p : α → Bool} {f : α → α} {i j : Nat} {a b : α}

theorem findIdx?_some (h : l.findIdx? p = some i) : ∃ a, l[i]? = some a ∧ p a = true := by
  obtain ⟨hi, hp, -⟩ := findIdx?_eq_some_iff_getElem.mp h
  exact ⟨l[i], getElem?_eq_getElem hi, hp⟩

theorem getElem?_modify_self (h : l[i]? = some a) : (l.modify i f)[i]? = some (f a) := by
  rw [getElem?_modify, h]
  simp

theorem getElem?_modify_of_ne (h : i ≠ j) : (l.modify i f)[j]? = l[j]? := by
  rw [getElem?_modify]
  simp [h]

theorem mem_modify (hb : b ∈ l.modify i f) :
    (∃ a, l[i]? = some a ∧ b = f a) ∨ ∃ j, j ≠ i ∧ l[j]? = some b := by
  obtain ⟨j, hj⟩ := mem_iff_getElem?.mp hb
  by_cases hij : i = j
  · subst hij
    rw [getElem?_modify] at hj
    obtain ⟨a, ha, hfa⟩ := Option.map_eq_some_iff.mp hj
    exact .inl ⟨a, ha, by simpa using hfa.symm⟩
  · rw [getElem?_modify_of_ne hij] at hj
    exact .inr ⟨j, fun h => hij h.symm, hj⟩

theorem exists_mem_modify (f : α → α) (i : Nat) (ha : a ∈ l) :
    ∃ b ∈ l.modify i f, b = a ∨ b = f a := by
  obtain ⟨j, hj⟩ := mem_iff_getElem?.mp ha
  by_cases hij : i = j
  · subst hij
    exact ⟨f a, mem_iff_getElem?.mpr ⟨i, getElem?_modify_self hj⟩, .inr rfl⟩
  · refine ⟨a, mem_iff_getElem?.mpr ⟨j, ?_⟩, .inl rfl⟩
    rw [getElem?_modify_of_ne hij, hj]

/-- Counting moves by what the one slot gains or loses. -/
theorem countP_modify (h : l[i]? = some a) (f : α → α) :
    (l.modify i f).countP p + (if p a then 1 else 0) = l.countP p + (if p (f a) then 1 else 0) := by
  obtain ⟨hi, rfl⟩ := List.getElem?_eq_some_iff.mp h
  have hsplit : l = l.take i ++ l[i] :: l.drop (i + 1) := by
    rw [← drop_eq_getElem_cons hi, take_append_drop]
  have hbefore : l.countP p = (l.take i).countP p + ((l.drop (i + 1)).countP p +
      if p l[i] then 1 else 0) := by
    conv_lhs => rw [hsplit]
    rw [countP_append, countP_cons]
  rw [modify_eq_take_cons_drop hi, countP_append, countP_cons, hbefore]
  omega

theorem flatMap_filter_eq {β : Type*} (l : List α) (p : α → Bool) (f : α → List β) :
    (l.filter p).flatMap f = l.zipIdx.flatMap fun ai => if p ai.1 then f ai.1 else [] := by
  have hall : (l.filter p).flatMap f = l.flatMap fun a => if p a then f a else [] := by
    induction l with
    | nil => rfl
    | cons a l ih =>
      rw [filter_cons, flatMap_cons, ← ih]
      split
      · rw [flatMap_cons]
      · rw [nil_append]
  rw [hall]
  conv_lhs => rw [← zipIdx_map_fst 0 l, flatMap_map]

theorem mem_append_cons {before after : List α} :
    b ∈ before ++ a :: after ↔ b = a ∨ b ∈ before ++ after := by
  rw [mem_append, mem_cons, mem_append, or_left_comm]

theorem mem_insertIdx_cases (h : b ∈ l.insertIdx i a) : b = a ∨ b ∈ l := by
  by_cases hi : i ≤ l.length
  · exact (mem_insertIdx hi).mp h
  · rw [insertIdx_of_length_lt (Nat.not_le.mp hi)] at h
    exact .inr h

/-! ## Binary search -/

/-- The loop of a binary search: half of the window from `base` on is decided in each turn.
The fuel bounds the turns. -/
def partitionFrom (p : α → Bool) (l : List α) : (fuel base size : Nat) → Nat
  | 0, base, _ => base
  | fuel + 1, base, size =>
    if size ≤ 1 then base
    else
      let half := size / 2
      partitionFrom p l fuel (if l[base + half]?.any p then base + half else base) (size - half)

/-- `partition_point` of a slice. Where the condition holds of a first part of the list, this is
the length of that part; of other lists it is some position. -/
def partitionPoint (p : α → Bool) (l : List α) : Nat :=
  let base := partitionFrom p l l.length 0 l.length
  base + if l[base]?.any p then 1 else 0

theorem lt_length_of_any (h : l[i]?.any p = true) : i < l.length := by
  obtain ⟨a, ha, -⟩ := (Option.any_eq_true _ _).mp h
  exact (List.getElem?_eq_some_iff.mp ha).1

theorem partitionFrom_le : ∀ fuel base size, base ≤ l.length →
    partitionFrom p l fuel base size ≤ l.length
  | 0, _, _, h => h
  | fuel + 1, base, size, h => by
    unfold partitionFrom
    split
    · exact h
    · refine partitionFrom_le fuel _ _ ?_
      split
      · next hp => exact Nat.le_of_lt (lt_length_of_any hp)
      · exact h

theorem partitionPoint_le (p : α → Bool) (l : List α) : partitionPoint p l ≤ l.length := by
  unfold partitionPoint
  dsimp only
  split
  · next hp => exact lt_length_of_any hp
  · exact partitionFrom_le _ _ _ (Nat.zero_le _)

/-- The point lies in the window, and not at its start unless that is the start of the list. -/
theorem partitionFrom_spec {k : Nat} (hp : ∀ i, l[i]?.any p = true ↔ i < k) :
    ∀ fuel base size, size ≤ fuel + 1 → base < k ∨ base = 0 → k ≤ base + size →
    let found := partitionFrom p l fuel base size
    (found < k ∨ found = 0) ∧ k ≤ found + 1
  | 0, base, size, hfuel, hbase, hk => ⟨hbase, by dsimp only [partitionFrom]; omega⟩
  | fuel + 1, base, size, hfuel, hbase, hk => by
    unfold partitionFrom
    split
    · exact ⟨hbase, by omega⟩
    · refine partitionFrom_spec hp fuel _ _ (by omega) ?_ ?_
      · split
        · next hany => exact .inl ((hp _).mp hany)
        · exact hbase
      · split
        · omega
        · next hany =>
          have := mt (hp _).mpr hany
          omega

theorem any_iff_lt_takeWhile : ∀ {l : List α}, (l.Pairwise fun a b => p b = true → p a = true) →
    ∀ i, l[i]?.any p = true ↔ i < (l.takeWhile p).length
  | [], _, i => by simp
  | a :: l, h, i => by
    obtain ⟨hfirst, hrest⟩ := pairwise_cons.mp h
    by_cases ha : p a = true
    · rw [takeWhile_cons_of_pos ha, length_cons]
      cases i with
      | zero => simpa using ha
      | succ i => simpa using any_iff_lt_takeWhile hrest i
    · rw [takeWhile_cons_of_neg ha]
      refine ⟨fun hany => ?_, nofun⟩
      obtain ⟨b, hb, hpb⟩ := (Option.any_eq_true _ _).mp hany
      rcases mem_cons.mp (mem_of_getElem? hb) with rfl | hb
      · exact absurd hpb ha
      · exact absurd (hfirst b hb hpb) ha

theorem partitionPoint_eq (h : l.Pairwise fun a b => p b = true → p a = true) :
    partitionPoint p l = (l.takeWhile p).length := by
  have hp := any_iff_lt_takeWhile h
  obtain ⟨hlt, hle⟩ := partitionFrom_spec hp l.length 0 l.length (Nat.le_succ _) (.inr rfl)
    (by rw [Nat.zero_add]; exact (takeWhile_sublist p).length_le)
  unfold partitionPoint
  dsimp only
  split
  · next hany => exact Nat.le_antisymm ((hp _).mp hany) hle
  · next hany =>
    have := mt (hp _).mpr hany
    omega

theorem pairwise_insertIdx_takeWhile {key : α → Nat} (hbefore : ∀ b ∈ l, p b = true ↔ key b < key a)
    (hne : ∀ b ∈ l, key b ≠ key a) (hsorted : l.Pairwise fun b c => key b < key c) :
    (l.insertIdx (l.takeWhile p).length a).Pairwise fun b c => key b < key c := by
  induction l with
  | nil => exact pairwise_singleton _ a
  | cons b l ih =>
    obtain ⟨hfirst, hrest⟩ := pairwise_cons.mp hsorted
    by_cases hb : p b = true
    · rw [takeWhile_cons_of_pos hb, length_cons, insertIdx_succ_cons, pairwise_cons]
      constructor
      · intro c hc
        rcases mem_insertIdx_cases hc with rfl | hc
        · exact (hbefore b mem_cons_self).mp hb
        · exact hfirst c hc
      · exact ih (fun c hc => hbefore c (mem_cons_of_mem b hc))
          (fun c hc => hne c (mem_cons_of_mem b hc)) hrest
    · have hlt : key a < key b := by
        have hle := mt (hbefore b mem_cons_self).mpr hb
        exact Nat.lt_of_le_of_ne (Nat.le_of_not_lt hle) (hne b mem_cons_self).symm
      rw [takeWhile_cons_of_neg hb]
      refine pairwise_cons.mpr ⟨?_, hsorted⟩
      intro c hc
      rcases mem_cons.mp hc with rfl | hc
      · exact hlt
      · exact Nat.lt_trans hlt (hfirst c hc)

/-- In a list in the order of a key, the search puts the new element behind those before it. -/
theorem pairwise_insertIdx {key : α → Nat} (hbefore : ∀ b ∈ l, p b = true ↔ key b < key a)
    (hne : ∀ b ∈ l, key b ≠ key a) (hsorted : l.Pairwise fun b c => key b < key c) :
    (l.insertIdx (partitionPoint p l) a).Pairwise fun b c => key b < key c := by
  have hpart : l.Pairwise fun b c => p c = true → p b = true :=
    hsorted.imp_of_mem fun hb hc hlt hpc =>
      (hbefore _ hb).mpr (Nat.lt_trans hlt ((hbefore _ hc).mp hpc))
  rw [partitionPoint_eq hpart]
  exact pairwise_insertIdx_takeWhile hbefore hne hsorted

end Slots
