import Mathlib.Tactic.Common

/-!
# Sets of small numbers as byte arrays

Number `i` is in the set when bit `i % 8` of byte `i / 8` is 1. An array of `n`
bytes holds the numbers below `8 * n`; every other number is outside.
-/

namespace ByteSet

variable {n : Nat}

def mask (i : Nat) : UInt8 := 1 <<< UInt8.ofNat (i % 8)

def mem (v : Vector UInt8 n) (i : Nat) : Bool := v.getD (i / 8) 0 &&& mask i != 0

def insert (v : Vector UInt8 n) (i : Nat) : Vector UInt8 n :=
  v.setIfInBounds (i / 8) (v.getD (i / 8) 0 ||| mask i)

def empty : Vector UInt8 n := Vector.replicate n 0

def full : Vector UInt8 n := Vector.replicate n 0xFF

def union (v w : Vector UInt8 n) : Vector UInt8 n := Vector.zipWith (· ||| ·) v w

theorem mask_and_mask : ∀ i j : Fin 8,
    ((1 : UInt8) <<< UInt8.ofNat i) &&& ((1 : UInt8) <<< UInt8.ofNat j) ≠ 0 ↔ i = j := by
  decide

theorem mask_and_ne_zero (i j : Nat) : mask i &&& mask j ≠ 0 ↔ i % 8 = j % 8 := by
  have h := mask_and_mask ⟨i % 8, Nat.mod_lt _ (by decide)⟩ ⟨j % 8, Nat.mod_lt _ (by decide)⟩
  rw [Fin.mk.injEq] at h
  exact h

theorem or_and_ne_zero (a b m : UInt8) : (a ||| b) &&& m ≠ 0 ↔ a &&& m ≠ 0 ∨ b &&& m ≠ 0 := by
  have hdist : (a ||| b) &&& m = (a &&& m) ||| (b &&& m) := by
    apply UInt8.eq_of_toBitVec_eq
    simp only [UInt8.toBitVec_and, UInt8.toBitVec_or]
    exact BitVec.and_or_distrib_right
  rw [hdist, ne_eq, UInt8.or_eq_zero_iff, not_and_or]

theorem mem_iff {v : Vector UInt8 n} {i : Nat} :
    mem v i = true ↔ v.getD (i / 8) 0 &&& mask i ≠ 0 := by
  simp [mem]

@[simp] theorem mem_empty (i : Nat) : mem (empty : Vector UInt8 n) i = false := by
  unfold mem empty
  by_cases h : i / 8 < n <;> simp [Vector.getD, h]

theorem mem_insert (v : Vector UInt8 n) {i : Nat} (h : i / 8 < n) (j : Nat) :
    mem (insert v i) j = true ↔ j = i ∨ mem v j = true := by
  rw [mem_iff, mem_iff]
  unfold insert
  by_cases hbyte : i / 8 = j / 8
  · have hget : (v.setIfInBounds (i / 8) (v.getD (i / 8) 0 ||| mask i)).getD (j / 8) 0
        = v.getD (j / 8) 0 ||| mask i := by
      simp [Vector.getD, ← hbyte, h]
    rw [hget, or_and_ne_zero, mask_and_ne_zero, or_comm]
    have hij : i % 8 = j % 8 ↔ j = i := by omega
    rw [hij]
  · have hget : (v.setIfInBounds (i / 8) (v.getD (i / 8) 0 ||| mask i)).getD (j / 8) 0
        = v.getD (j / 8) 0 := by
      by_cases hj : j / 8 < n
      · simp [Vector.getD, hj, hbyte]
      · simp [Vector.getD, hj]
    have hne : j ≠ i := by
      intro he
      exact hbyte (by rw [he])
    rw [hget]
    simp [hne]

theorem mem_union (v w : Vector UInt8 n) (i : Nat) :
    mem (union v w) i = true ↔ mem v i = true ∨ mem w i = true := by
  rw [mem_iff, mem_iff, mem_iff, ← or_and_ne_zero]
  have hget : (union v w).getD (i / 8) 0 = v.getD (i / 8) 0 ||| w.getD (i / 8) 0 := by
    by_cases h : i / 8 < n <;> simp [union, Vector.getD, h]
  rw [hget]

end ByteSet
