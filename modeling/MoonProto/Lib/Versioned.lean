import Mathlib.Tactic.Common
import Mathlib.Algebra.Order.Group.Nat

/-!
# Registers with versions of their own

A source publishes a whole vector of registers under increasing versions, and
messages carry some of the registers of one version. A replica keeps, per register,
the value with the highest version seen; version 0 stands for a register not seen.
`Faithful` says that every register seen holds the source's value at its version. It
survives messages in any order, and raising all versions once the values are known
to be those of one version. `eq_of_covered` is convergence: a register whose later
changes have all been seen holds the value of the last version.
-/

namespace Versioned

open List

variable {ι V : Type*}

/-- Values of the registers with the version at which each was seen. -/
structure Replica (ι V : Type*) where
  value : ι → V
  seen : ι → Nat

/-- Registers of one version on their way to the replica. -/
structure Message (ι V : Type*) where
  version : Nat
  carries : ι → Bool
  value : ι → V

namespace Replica

/-- Does the message carry the register in a newer version? -/
def newer (r : Replica ι V) (m : Message ι V) (i : ι) : Bool :=
  m.carries i && r.seen i < m.version

/-- Take the registers that are newer than what was seen. -/
def receive (r : Replica ι V) (m : Message ι V) : Replica ι V where
  value i := if r.newer m i then m.value i else r.value i
  seen i := if r.newer m i then m.version else r.seen i

/-- Count every register as seen at `version`. -/
def raise (r : Replica ι V) (version : Nat) : Replica ι V := { r with seen := fun _ => version }

/-- Every register seen holds the value of the source at that version. -/
def Faithful (history : Nat → ι → V) (r : Replica ι V) : Prop :=
  ∀ i, r.seen i ≠ 0 → r.value i = history (r.seen i) i

variable {history : Nat → ι → V} {r : Replica ι V} {m : Message ι V}

theorem newer_iff {i : ι} : r.newer m i = true ↔ m.carries i = true ∧ r.seen i < m.version := by
  unfold newer
  rw [Bool.and_eq_true, decide_eq_true_eq]

theorem seen_le_receive (r : Replica ι V) (m : Message ι V) (i : ι) :
    r.seen i ≤ (r.receive m).seen i := by
  unfold receive
  dsimp only
  split
  next h => exact (newer_iff.mp h).2.le
  next => exact le_rfl

theorem version_le_receive {i : ι} (h : m.carries i = true) : m.version ≤ (r.receive m).seen i := by
  unfold receive
  dsimp only
  split
  next => exact le_rfl
  next hold => exact Nat.le_of_not_lt fun hlt => hold (newer_iff.mpr ⟨h, hlt⟩)

theorem receive_seen_le {bound : Nat} {i : ι} (h : r.seen i ≤ bound) (hm : m.version ≤ bound) :
    (r.receive m).seen i ≤ bound := by
  unfold receive
  dsimp only
  split
  · exact hm
  · exact h

/-- **A true message keeps the replica faithful**, however late it comes. -/
theorem Faithful.receive (h : Faithful history r)
    (hm : ∀ i, m.carries i = true → m.value i = history m.version i) :
    Faithful history (r.receive m) := by
  intro i hseen
  unfold Replica.receive at hseen ⊢
  dsimp only at hseen ⊢
  split
  next hnew => exact hm i (newer_iff.mp hnew).1
  next hold =>
    rw [if_neg hold] at hseen
    exact h i hseen

theorem faithful_raise {version : Nat} (h : ∀ i, r.value i = history version i) :
    Faithful history (r.raise version) :=
  fun i _ => h i

theorem eq_of_no_change {f : Nat → V} {a b : Nat} (hab : a ≤ b)
    (h : ∀ k, a < k → k ≤ b → f k = f (k - 1)) : f b = f a := by
  induction b, hab using Nat.le_induction with
  | base => rfl
  | succ b hab ih =>
    rw [h (b + 1) (Nat.lt_succ_of_le hab) le_rfl, Nat.add_sub_cancel]
    exact ih fun k hk hkb => h k hk (Nat.le_succ_of_le hkb)

/-- **Convergence of one register.** If every change after `first` was seen, the
register holds the value of the last version. -/
theorem Faithful.eq_of_covered (h : Faithful history r) {i : ι} {first last : Nat}
    (hpos : 0 < first) (hfirst : first ≤ r.seen i) (hlast : r.seen i ≤ last)
    (hcovered : ∀ k, first < k → k ≤ last → history k i ≠ history (k - 1) i → k ≤ r.seen i) :
    r.value i = history last i := by
  rw [h i (Nat.ne_of_gt (Nat.lt_of_lt_of_le hpos hfirst))]
  symm
  apply eq_of_no_change (f := fun k => history k i) hlast
  intro k hk hkl
  by_contra hne
  exact absurd (hcovered k (Nat.lt_of_le_of_lt hfirst hk) hkl hne) (Nat.not_le_of_lt hk)

/-- **The newest version wins.** A replica that takes numbered messages in any order, some
of them again, has seen every message that carried a register, and holds what the newest
of them carried, or what it held before. -/
theorem receive_all {msg : Nat → Message ι V} (hmsg : ∀ k, (msg k).version = k) (i : ι) :
    ∀ (ks : List Nat) (r : Replica ι V),
    let r' := ks.foldl (fun r k => r.receive (msg k)) r
    r.seen i ≤ r'.seen i ∧ (∀ k ∈ ks, (msg k).carries i = true → k ≤ r'.seen i) ∧
    ((r'.seen i = r.seen i ∧ r'.value i = r.value i) ∨
      ∃ k ∈ ks, (msg k).carries i = true ∧ r'.seen i = k ∧ r'.value i = (msg k).value i)
  | [], r => ⟨le_rfl, fun k hk => (nomatch hk), .inl ⟨rfl, rfl⟩⟩
  | k :: ks, r => by
    obtain ⟨hmono, hall, hlast⟩ := receive_all hmsg i ks (r.receive (msg k))
    refine ⟨(seen_le_receive r (msg k) i).trans hmono, fun j hj hc => ?_, ?_⟩
    · rcases mem_cons.mp hj with rfl | hj
      · exact (hmsg j ▸ version_le_receive hc).trans hmono
      · exact hall j hj hc
    · rcases hlast with ⟨hseen, hvalue⟩ | ⟨j, hj, hc, hseen, hvalue⟩
      · -- nothing newer came afterwards: the first message decides
        by_cases hnew : r.newer (msg k) i = true
        · refine .inr ⟨k, mem_cons_self, (newer_iff.mp hnew).1, ?_, ?_⟩
          · exact hseen.trans ((if_pos hnew).trans (hmsg k))
          · exact hvalue.trans (if_pos hnew)
        · exact .inl ⟨hseen.trans (if_neg hnew), hvalue.trans (if_neg hnew)⟩
      · exact .inr ⟨j, mem_cons_of_mem _ hj, hc, hseen, hvalue⟩

end Replica

end Versioned
