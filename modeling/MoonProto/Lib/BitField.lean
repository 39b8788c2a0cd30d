import Mathlib.Tactic.Common
import Mathlib.Data.Nat.Bitwise

/-!
# Bit fields over machine words

A field of 64-bit words read as one string of bits: bit `i` is bit `i % 64` of
word `i / 64`. The lemmas say what the three updates of a sliding window do to
the string: setting one bit, moving the words down, clearing the tail. Flag
sets kept in bytes use the same mask idiom on single bytes.
-/

namespace BitField

/-! ## One word -/

theorem and_two_pow_ne_zero (x b : Nat) : x &&& 2 ^ b ≠ 0 ↔ x.testBit b = true := by
  rw [Nat.and_two_pow]
  cases x.testBit b <;> simp

theorem mask64_toNat (b : UInt64) (h : b.toNat < 64) :
    ((1 : UInt64) <<< b).toNat = 2 ^ b.toNat := by
  rw [UInt64.toNat_shiftLeft, Nat.mod_eq_of_lt h, UInt64.toNat_one, Nat.one_shiftLeft]
  exact Nat.mod_eq_of_lt (Nat.pow_lt_pow_right (by decide) h)

theorem and_mask64_ne_zero (w b : UInt64) (h : b.toNat < 64) :
    w &&& ((1 : UInt64) <<< b) ≠ 0 ↔ w.toNat.testBit b.toNat = true := by
  rw [← and_two_pow_ne_zero, ← mask64_toNat b h, ← UInt64.toNat_and, ne_eq, ne_eq,
    ← UInt64.toNat_inj, UInt64.toNat_zero]

theorem testBit_or_mask64 (w b : UInt64) (h : b.toNat < 64) (i : Nat) :
    (w ||| ((1 : UInt64) <<< b)).toNat.testBit i = (w.toNat.testBit i || decide (b.toNat = i)) := by
  rw [UInt64.toNat_or, mask64_toNat b h, Nat.testBit_or, Nat.testBit_two_pow]

theorem exists_testBit_lt {w : UInt64} (h : w ≠ 0) : ∃ j < 64, w.toNat.testBit j = true := by
  have hne : w.toNat ≠ 0 := fun h0 => h (UInt64.toNat_inj.mp h0)
  obtain ⟨j, hj⟩ := Nat.exists_testBit_of_ne_zero hne
  refine ⟨j, ?_, hj⟩
  by_contra hge
  have hlt : w.toNat < 2 ^ j :=
    Nat.lt_of_lt_of_le w.toNat_lt (Nat.pow_le_pow_right (by decide) (Nat.le_of_not_lt hge))
  rw [Nat.testBit_lt_two_pow hlt] at hj
  exact Bool.noConfusion hj

/-- Shifting the tested bit down to bit 0 reads the same bit as the mask does. -/
theorem shiftRight_and_one_ne_zero (w b : UInt64) (h : b.toNat < 64) :
    (w >>> b) &&& 1 ≠ 0 ↔ w.toNat.testBit b.toNat = true := by
  rw [ne_eq, ← UInt64.toNat_inj, UInt64.toNat_and, UInt64.toNat_shiftRight, Nat.mod_eq_of_lt h,
    UInt64.toNat_one, UInt64.toNat_zero]
  have h1 := and_two_pow_ne_zero (w.toNat >>> b.toNat) 0
  rw [Nat.testBit_shiftRight, Nat.add_zero, Nat.pow_zero] at h1
  exact h1

/-! ## A field of words -/

variable {n : Nat}

/-- Bit `i` of the field; bits past the last word read as unset. -/
def bit (v : Vector UInt64 n) (i : Nat) : Bool :=
  if h : i / 64 < n then (v[i / 64]).toNat.testBit (i % 64) else false

theorem bit_eq {v : Vector UInt64 n} {i : Nat} (h : i / 64 < n) :
    bit v i = (v[i / 64]).toNat.testBit (i % 64) := by
  simp [bit, h]

theorem bit_replicate_zero (i : Nat) : bit (Vector.replicate n (0 : UInt64)) i = false := by
  unfold bit
  split
  · simp
  · rfl

theorem bit_set_mask (v : Vector UInt64 n) (d : Nat) (b : UInt64) (hd : d / 64 < n)
    (hb : b.toNat = d % 64) (i : Nat) :
    bit (v.set (d / 64) (v[d / 64] ||| ((1 : UInt64) <<< b)) hd) i
      = (bit v i || decide (d = i)) := by
  have hb64 : b.toNat < 64 := by omega
  by_cases hi : i / 64 < n
  · rw [bit_eq hi, bit_eq hi, Vector.getElem_set]
    by_cases hw : d / 64 = i / 64
    · rw [if_pos hw, testBit_or_mask64 _ _ hb64, hb]
      have hdi : (d % 64 = i % 64) ↔ d = i := by omega
      simp only [hw, hdi]
    · have hne : d ≠ i := fun h => hw (by rw [h])
      rw [if_neg hw]
      simp [hne]
  · have hne : d ≠ i := fun h => hi (h ▸ hd)
    simp [bit, hi, hne]

/-- Move the words from position `k` on to the front. The last `k` words keep
what they held. -/
def moveDown (v : Vector UInt64 n) (k : Nat) : Vector UInt64 n :=
  Vector.ofFn fun i => if h : i.val + k < n then v[i.val + k] else v[i]

/-- Clear every word from position `k` on. -/
def clearFrom (v : Vector UInt64 n) (k : Nat) : Vector UInt64 n :=
  Vector.ofFn fun i => if k ≤ i.val then 0 else v[i]

/-- Moving the words down by `k` and clearing the last `k` shifts the string. -/
theorem bit_clearFrom_moveDown (v : Vector UInt64 n) (k i : Nat) :
    bit (clearFrom (moveDown v k) (n - k)) i = bit v (i + 64 * k) := by
  have hdiv : (i + 64 * k) / 64 = i / 64 + k := by omega
  have hmod : (i + 64 * k) % 64 = i % 64 := by omega
  by_cases hi : i / 64 + k < n
  · rw [bit_eq (by omega : i / 64 < n), bit_eq (by omega : (i + 64 * k) / 64 < n)]
    have h1 : ¬ (n ≤ i / 64 + k) := by omega
    simp [clearFrom, moveDown, h1, hi, hdiv, hmod]
  · rw [show bit v (i + 64 * k) = false from by simp [bit, hdiv, hi]]
    by_cases hin : i / 64 < n
    · rw [bit_eq hin]
      have h1 : n ≤ i / 64 + k := by omega
      simp [clearFrom, h1]
    · simp [bit, hin]

theorem bit_clearFrom_zero (v : Vector UInt64 n) (i : Nat) : bit (clearFrom v 0) i = false := by
  unfold bit
  split
  · simp [clearFrom]
  · rfl

end BitField
