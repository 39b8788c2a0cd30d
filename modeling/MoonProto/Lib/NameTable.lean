import Mathlib.Logic.Function.Basic
import Mathlib.Data.List.Nodup

/-!
# Name tables

A table from names to positions next to a list of named things. It is exact when it
finds each name at the place where the list has it, and nothing else; a list that has an
exact table has no name twice. A fresh name is entered by pushing it on the list and
storing the old length. When the list is rearranged, the table is filled again.
-/

namespace NameTable

open List Function Option

variable {N : Type*} {t : N → Option Nat} {names : List N} {n : N} {p : Nat}

/-- `t` finds exactly the names of the list, each at its place. -/
def Exact (t : N → Option Nat) (names : List N) : Prop :=
  ∀ n p, t n = some p ↔ names[p]? = some n

theorem exact_nil : Exact (fun _ : N => none) [] := fun n p => by simp

theorem Exact.lt_length (h : Exact t names) (hp : t n = some p) : p < names.length :=
  (List.getElem?_eq_some_iff.mp ((h n p).mp hp)).1

theorem Exact.push [DecidableEq N] (h : Exact t names) (hn : t n = none) :
    Exact (Function.update t n (some names.length)) (names ++ [n]) := by
  intro m p
  rcases eq_or_ne m n with rfl | hm
  · rw [update_self, some_inj]
    constructor
    · rintro rfl
      simp
    · intro hp
      rcases Nat.lt_trichotomy p names.length with hlt | heq | hgt
      · rw [getElem?_append_left hlt, ← h, hn] at hp
        cases hp
      · exact heq.symm
      · rw [getElem?_eq_none (by simp; omega)] at hp
        cases hp
  · rw [update_of_ne hm, h]
    rcases Nat.lt_or_ge p names.length with hlt | hge
    · rw [getElem?_append_left hlt]
    · rw [getElem?_eq_none hge, getElem?_append_right hge]
      constructor
      · intro hp
        cases hp
      · intro hp
        rw [getElem?_singleton] at hp
        split at hp
        · exact absurd (some_inj.mp hp).symm hm
        · cases hp

theorem Exact.nodup (h : Exact t names) : names.Nodup := by
  rw [nodup_iff_pairwise_ne, pairwise_iff_getElem]
  intro i j hi hj hij heq
  have hti := (h names[i] i).mpr (getElem?_eq_getElem hi)
  have htj := (h names[i] j).mpr (by rw [heq]; exact getElem?_eq_getElem hj)
  rw [hti] at htj
  exact Nat.ne_of_lt hij (some_inj.mp htj)

/-! ## Filling a table from a list -/

section fill

variable [DecidableEq N]

/-- The table with the positions of a list, counted from a number on, written over it. -/
def fill (t : N → Option Nat) (names : List N) (start : Nat) : N → Option Nat :=
  (names.zipIdx start).foldl (fun t e => Function.update t e.1 (some e.2)) t

theorem fill_cons (m : N) (start : Nat) : fill t (m :: names) start =
      fill (Function.update t m (some start)) names (start + 1) := rfl

theorem fill_of_not_mem {start : Nat} (hn : n ∉ names) : fill t names start n = t n := by
  induction names generalizing t start with
  | nil => rfl
  | cons m names ih =>
    rw [mem_cons, not_or] at hn
    rw [fill_cons, ih hn.2, update_of_ne hn.1]

theorem fill_getElem? {start : Nat} (hnodup : names.Nodup) (hp : names[p]? = some n) :
    fill t names start n = some (start + p) := by
  induction names generalizing t start p with
  | nil => cases hp
  | cons m names ih =>
    obtain ⟨hm, hnodup⟩ := List.nodup_cons.mp hnodup
    rw [fill_cons]
    cases p with
    | zero =>
      obtain rfl : m = n := some_inj.mp hp
      rw [fill_of_not_mem hm, update_self, Nat.add_zero]
    | succ p =>
      rw [getElem?_cons_succ] at hp
      rw [ih hnodup hp, Nat.add_assoc, Nat.add_comm 1 p]

theorem exact_fill (hnodup : names.Nodup) (ht : ∀ n, n ∉ names → t n = none) :
    Exact (fill t names 0) names := by
  intro n p
  constructor
  · intro h
    by_cases hn : n ∈ names
    · obtain ⟨q, hq⟩ := mem_iff_getElem?.mp hn
      rw [fill_getElem? hnodup hq, Nat.zero_add] at h
      obtain rfl := some_inj.mp h
      exact hq
    · rw [fill_of_not_mem hn, ht n hn] at h
      cases h
  · intro h
    rw [fill_getElem? hnodup h, Nat.zero_add]

end fill

end NameTable
