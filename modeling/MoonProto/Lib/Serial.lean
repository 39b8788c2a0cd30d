import Mathlib.Tactic.Common

/-!
# Serial numbers on the 16-bit circle

Sequence numbers that wrap have no order of their own. What they have is the
number of steps from one forward to another, and every comparison of them is a
statement about such distances. The lemmas move distances from one base to
another; seen from a fixed base the numbers are ordered like natural numbers.
-/

namespace Serial

variable {a b c : UInt16}

/-- Steps from `a` forward to `b`. -/
def ahead (a b : UInt16) : Nat := (b - a).toNat

theorem ahead_eq (a b : UInt16) : ahead a b = (65536 - a.toNat + b.toNat) % 65536 := by
  unfold ahead
  rw [UInt16.toNat_sub]

theorem ahead_lt (a b : UInt16) : ahead a b < 65536 := UInt16.toNat_lt _

@[simp] theorem ahead_self (a : UInt16) : ahead a a = 0 := by
  unfold ahead
  rw [UInt16.sub_self]
  rfl

theorem ahead_inj : ahead a b = ahead a c ↔ b = c := by
  unfold ahead
  rw [UInt16.toNat_inj]
  exact UInt16.sub_left_inj a

theorem ahead_eq_zero : ahead a b = 0 ↔ b = a := by
  rw [← ahead_self a, ahead_inj]

/-- The same number seen from another base. -/
theorem ahead_rebase (a b c : UInt16) : ahead b c = (65536 - ahead a b + ahead a c) % 65536 := by
  have ha := a.toNat_lt
  have hb := b.toNat_lt
  have hc := c.toNat_lt
  rw [ahead_eq, ahead_eq, ahead_eq]
  omega

theorem ahead_add (a : UInt16) {n : Nat} (hn : n < 65536) : ahead a (a + UInt16.ofNat n) = n := by
  unfold ahead
  rw [UInt16.add_comm, UInt16.add_sub_cancel, UInt16.toNat_ofNat']
  exact Nat.mod_eq_of_lt hn

theorem succ_sub_two (a : UInt16) : a + 1 - 2 = a - 1 := by
  have ha := a.toNat_lt
  have hone : (1 : UInt16).toNat = 1 := rfl
  have htwo : (2 : UInt16).toNat = 2 := rfl
  rw [← UInt16.toNat_inj, UInt16.toNat_sub, UInt16.toNat_add, UInt16.toNat_sub, hone, htwo]
  omega

/-- One step back from `b` is one step less from any other number. -/
theorem ahead_pred (h : b ≠ a) : ahead a (b - 1) + 1 = ahead a b := by
  have ha := a.toNat_lt
  have hb := b.toNat_lt
  have hne : b.toNat ≠ a.toNat := fun heq => h (UInt16.toNat_inj.mp heq)
  have hone : (1 : UInt16).toNat = 1 := rfl
  rw [ahead_eq, ahead_eq, UInt16.toNat_sub, hone]
  omega

/-- One step back from `a` is the whole circle but one. -/
theorem ahead_pred_self (a : UInt16) : ahead a (a - 1) = 65535 := by
  have ha := a.toNat_lt
  have hone : (1 : UInt16).toNat = 1 := rfl
  rw [ahead_eq, UInt16.toNat_sub, hone]
  omega

/-- One step forward from `a` is one step less to any other number. -/
theorem ahead_succ (h : b ≠ a) : ahead (a + 1) b + 1 = ahead a b := by
  have ha := a.toNat_lt
  have hb := b.toNat_lt
  have hne : b.toNat ≠ a.toNat := fun heq => h (UInt16.toNat_inj.mp heq)
  have hone : (1 : UInt16).toNat = 1 := rfl
  rw [ahead_eq, ahead_eq, UInt16.toNat_add, hone]
  omega

/-- Seen from a base that is not ahead of either, the later number is ahead by the
difference. -/
theorem ahead_of_le (h : ahead a b ≤ ahead a c) : ahead b c = ahead a c - ahead a b := by
  have hb := ahead_lt a b
  have hc := ahead_lt a c
  rw [ahead_rebase a b c]
  omega

theorem ahead_of_lt (h : ahead a c < ahead a b) : ahead b c = 65536 - (ahead a b - ahead a c) := by
  have hb := ahead_lt a b
  have hc := ahead_lt a c
  rw [ahead_rebase a b c]
  omega

/-- Behind by less than half the circle, or ahead: the sign of the difference read
as a signed 16-bit number. -/
theorem toInt16_neg_iff (a b : UInt16) : (b - a).toInt16 < 0 ↔ 32768 ≤ ahead a b := by
  have hlt := ahead_lt a b
  rw [Int16.lt_iff_toInt_lt]
  show (b - a).toBitVec.toInt < 0 ↔ _
  rw [BitVec.toInt_neg_iff]
  show 2 ^ 16 ≤ 2 * ahead a b ↔ _
  omega

theorem toInt16_eq_zero_iff (a b : UInt16) : (b - a).toInt16 = 0 ↔ b = a := by
  rw [← Int16.toBitVec_inj]
  show (b - a).toBitVec = (0 : UInt16).toBitVec ↔ _
  rw [UInt16.toBitVec_inj, UInt16.sub_eq_iff_eq_add, UInt16.zero_add]

end Serial
