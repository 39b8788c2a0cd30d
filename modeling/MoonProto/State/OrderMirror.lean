import Mathlib.Data.Fintype.Basic
import MoonProto.Lib.BitField
import MoonProto.Lib.Versioned
import MoonProto.State.Order

/-!
# The replica of one order

`OrderMirror` of `state/orders.rs` and the part of `merge_state` that works on it. Every
section has a revision of its own. A message replaces the sections it carries with a newer
revision; the checksum of the highest revision proves that the whole state is the
state of that revision, and then all sections are promoted to it.

Section by section the mirror is a versioned replica: `replica_mergeSections` says that the
section loop receives a message, and `merge_eq` that a whole merge receives the message and
promotes the mirror if the checksum proves it.
-/

namespace MoonProto

open List Bool

structure OrderMirror where
  desc : OrderDescription
  state : CanonicalOrderState
  seenRev : OrderSection → Nat
  expectedHash : UInt32
deriving DecidableEq

namespace OrderMirror

def new (desc : OrderDescription) : OrderMirror where
  desc := desc
  state := default
  seenRev := fun _ => 0
  expectedHash := 0

def replicaRev (m : OrderMirror) : Nat := (ofFn m.seenRev).max?.getD 0

def isExact (m : OrderMirror) : Bool :=
  m.seenRev 0 != 0 && (List.finRange orderSectionCount).all fun i => m.seenRev i == m.seenRev 0

/-! ## Merging a message -/

/-- The arguments with which `merge_state` is called for an order. A description comes
with images only. -/
structure Message where
  revision : Nat
  expectedHash : UInt32
  mask : Nat
  incoming : CanonicalOrderState
  desc : Option OrderDescription

namespace Message

/-- An image carries every section, whatever its mask. -/
def carries (msg : Message) (i : OrderSection) : Bool := msg.desc.isSome || msg.mask.testBit i

end Message

variable (m : OrderMirror) (env : OrderEnv) (msg : Message) (i : OrderSection)

/-- One turn of the section loop, with the mask of the sections applied so far. -/
def mergeSection (msg : Message) (acc : OrderMirror × Nat) (i : OrderSection) : OrderMirror × Nat :=
  if msg.carries i && acc.1.seenRev i < msg.revision then
    ({ acc.1 with
        state := acc.1.state.copySectionFrom msg.incoming i
        seenRev := Function.update acc.1.seenRev i msg.revision },
      acc.2 ||| 2 ^ i.val)
  else acc

def mergeSections (m : OrderMirror) (msg : Message) : OrderMirror × Nat :=
  (List.finRange orderSectionCount).foldl (mergeSection msg) (m, 0)

/-- The mirror behind a merge, the sections applied, whether the proof matched and
whether the mirror is exact. -/
structure MergeResult where
  mirror : OrderMirror
  appliedMask : Nat
  proofMatches : Bool
  exact : Bool

def expect (m : OrderMirror) (msg : Message) : OrderMirror :=
  if msg.revision > m.replicaRev then { m with expectedHash := msg.expectedHash } else m

def merge (env : OrderEnv) (m : OrderMirror) (msg : Message) : MergeResult :=
  let previousRev := m.replicaRev
  let merged := (m.expect msg).mergeSections msg
  let replicaRev := if merged.2 ≠ 0 then max previousRev msg.revision else previousRev
  if stateHash env replicaRev merged.1.desc merged.1.state = merged.1.expectedHash then
    ⟨{ merged.1 with seenRev := fun _ => replicaRev }, merged.2, true, replicaRev != 0⟩
  else ⟨merged.1, merged.2, false, merged.1.isExact⟩

/-! ## Revisions -/

theorem seenRev_le_replicaRev : m.seenRev i ≤ m.replicaRev := by
  unfold replicaRev
  have hmem : m.seenRev i ∈ ofFn m.seenRev := mem_ofFn.mpr ⟨i, rfl⟩
  cases hmax : (ofFn m.seenRev).max? with
  | none =>
    rw [max?_eq_none_iff] at hmax
    rw [hmax] at hmem
    cases hmem
  | some r =>
    rw [max?_eq_some_iff] at hmax
    exact hmax.2 _ hmem

theorem exists_seenRev_eq : ∃ i, m.seenRev i = m.replicaRev := by
  unfold replicaRev
  cases hmax : (ofFn m.seenRev).max? with
  | none =>
    rw [max?_eq_none_iff] at hmax
    exact absurd (congrArg List.length hmax) (by simp)
  | some r =>
    rw [max?_eq_some_iff] at hmax
    exact mem_ofFn.mp hmax.1

theorem replicaRev_eq_of_forall {m : OrderMirror} {r : Nat} (h : ∀ i, m.seenRev i = r) :
    m.replicaRev = r := by
  obtain ⟨i, hi⟩ := m.exists_seenRev_eq
  rw [← hi, h i]

theorem isExact_iff : m.isExact = true ↔ m.replicaRev ≠ 0 ∧ ∀ i, m.seenRev i = m.replicaRev := by
  unfold isExact
  rw [and_eq_true, bne_iff_ne, List.all_eq_true]
  constructor
  · rintro ⟨hne, hall⟩
    have hsame : ∀ i, m.seenRev i = m.seenRev 0 := fun i =>
      beq_iff_eq.mp (hall i (mem_finRange i))
    rw [replicaRev_eq_of_forall hsame]
    exact ⟨hne, hsame⟩
  · rintro ⟨hne, hall⟩
    refine ⟨?_, fun i _ => ?_⟩
    · rw [hall 0]
      exact hne
    · rw [beq_iff_eq, hall i, hall 0]

/-! ## The mirror as a versioned replica -/

def replica (m : OrderMirror) : Versioned.Replica OrderSection Bytes where
  value := m.state.sectionBytes
  seen := m.seenRev

def Message.versioned (msg : Message) : Versioned.Message OrderSection Bytes where
  version := msg.revision
  carries := msg.carries
  value := msg.incoming.sectionBytes

/-! ## The section loop -/

/-- What the loop knows of one section: its bytes, its revision and whether it was applied. -/
def sectionView (acc : OrderMirror × Nat) (i : OrderSection) : Bytes × Nat × Bool :=
  (acc.1.state.sectionBytes i, acc.1.seenRev i, acc.2.testBit i)

theorem sectionView_mergeSection_self (acc : OrderMirror × Nat) (i : OrderSection) :
    sectionView (mergeSection msg acc i) i = if msg.carries i && acc.1.seenRev i < msg.revision then
        (msg.incoming.sectionBytes i, msg.revision, true)
      else sectionView acc i := by
  unfold mergeSection
  split
  · simp [sectionView]
  · rfl

theorem sectionView_mergeSection_of_ne (acc : OrderMirror × Nat) {i j : OrderSection} (h : i ≠ j) :
    sectionView (mergeSection msg acc j) i = sectionView acc i := by
  have hval : j.val ≠ i.val := fun he => h (Fin.ext he.symm)
  unfold mergeSection
  split
  · simp only [sectionView, CanonicalOrderState.sectionBytes_copySectionFrom_of_ne _ _ h,
      Function.update_of_ne h, Nat.testBit_or, Nat.testBit_two_pow_of_ne hval, Bool.or_false]
  · rfl

theorem sectionView_foldl_of_not_mem {i : OrderSection} :
    ∀ {l : List OrderSection} (acc : OrderMirror × Nat), i ∉ l →
      sectionView (l.foldl (mergeSection msg) acc) i = sectionView acc i
  | [], _, _ => rfl
  | j :: l, acc, h => by
    obtain ⟨hne, hl⟩ := ne_and_not_mem_of_not_mem_cons h
    rw [foldl_cons, sectionView_foldl_of_not_mem _ hl, sectionView_mergeSection_of_ne msg acc hne]

/-- The loop does to each section what receiving the message does to its register, and
the applied mask has exactly the sections that were newer. -/
theorem sectionView_mergeSections : sectionView (m.mergeSections msg) i =
      ((m.replica.receive msg.versioned).value i, (m.replica.receive msg.versioned).seen i,
        m.replica.newer msg.versioned i) := by
  -- the loop meets the section once
  obtain ⟨before, after, hsplit⟩ := append_of_mem (mem_finRange i)
  have hnodup := nodup_finRange orderSectionCount
  rw [hsplit, nodup_append] at hnodup
  have hafter : i ∉ after := (nodup_cons.mp hnodup.2.1).1
  have hbefore : i ∉ before := fun h => hnodup.2.2 i h i mem_cons_self rfl
  have hview := sectionView_foldl_of_not_mem msg (m, 0) hbefore
  have hseen : (before.foldl (mergeSection msg) (m, 0)).1.seenRev i = m.seenRev i :=
    congrArg (·.2.1) hview
  unfold mergeSections
  rw [hsplit, foldl_append, foldl_cons, sectionView_foldl_of_not_mem msg _ hafter,
    sectionView_mergeSection_self, hseen, hview]
  unfold Versioned.Replica.receive
  dsimp only
  by_cases hnew : m.replica.newer msg.versioned i = true
  · rw [if_pos hnew, if_pos hnew, hnew]
    exact if_pos hnew
  · rw [if_neg hnew, if_neg hnew, eq_false_iff.mpr hnew]
    refine (if_neg hnew).trans ?_
    unfold sectionView
    rw [Nat.zero_testBit]
    rfl

theorem foldl_mergeSection_frame : ∀ (l : List OrderSection) (acc : OrderMirror × Nat),
      (l.foldl (mergeSection msg) acc).1.desc = acc.1.desc ∧
      (l.foldl (mergeSection msg) acc).1.expectedHash = acc.1.expectedHash
  | [], _ => ⟨rfl, rfl⟩
  | i :: l, acc => by
    obtain ⟨hdesc, hhash⟩ := foldl_mergeSection_frame l (mergeSection msg acc i)
    have hstep : (mergeSection msg acc i).1.desc = acc.1.desc ∧
        (mergeSection msg acc i).1.expectedHash = acc.1.expectedHash := by
      unfold mergeSection
      split <;> exact ⟨rfl, rfl⟩
    exact ⟨hdesc.trans hstep.1, hhash.trans hstep.2⟩

theorem mergeSections_desc :
    (m.mergeSections msg).1.desc = m.desc := (foldl_mergeSection_frame msg _ (m, 0)).1

theorem mergeSections_expectedHash : (m.mergeSections msg).1.expectedHash = m.expectedHash :=
  (foldl_mergeSection_frame msg _ (m, 0)).2

/-- **The section loop receives a message** of the versioned replica. -/
theorem replica_mergeSections :
    (m.mergeSections msg).1.replica = m.replica.receive msg.versioned := by
  have hvalue : (m.mergeSections msg).1.state.sectionBytes =
      (m.replica.receive msg.versioned).value :=
    funext fun i => congrArg (·.1) (sectionView_mergeSections m msg i)
  have hseen : (m.mergeSections msg).1.seenRev = (m.replica.receive msg.versioned).seen :=
    funext fun i => congrArg (·.2.1) (sectionView_mergeSections m msg i)
  unfold replica at hvalue hseen ⊢
  rw [hvalue, hseen]

theorem testBit_mergeSections :
    (m.mergeSections msg).2.testBit i = m.replica.newer msg.versioned i :=
  congrArg (·.2.2) (sectionView_mergeSections m msg i)

/-! ## What a merge does -/

theorem foldl_mergeSection_lt :
    ∀ (l : List OrderSection) (acc : OrderMirror × Nat), acc.2 < 2 ^ orderSectionCount →
      (l.foldl (mergeSection msg) acc).2 < 2 ^ orderSectionCount
  | [], _, h => h
  | i :: l, acc, h => by
    refine foldl_mergeSection_lt l _ ?_
    unfold mergeSection
    split
    · exact Nat.or_lt_two_pow h (Nat.pow_lt_pow_right (by decide) i.isLt)
    · exact h

/-- The applied mask is empty exactly if no section was newer. -/
theorem mergeSections_eq_zero_iff :
    (m.mergeSections msg).2 = 0 ↔ ∀ i, m.replica.newer msg.versioned i = false := by
  constructor
  · intro h i
    rw [← testBit_mergeSections, h, Nat.zero_testBit]
  · intro h
    apply Nat.eq_of_testBit_eq
    intro j
    rw [Nat.zero_testBit]
    by_cases hj : j < orderSectionCount
    · exact (testBit_mergeSections m msg ⟨j, hj⟩).trans (h ⟨j, hj⟩)
    · apply Nat.testBit_lt_two_pow
      exact Nat.lt_of_lt_of_le (foldl_mergeSection_lt msg _ (m, 0) Nat.one_le_two_pow)
        (Nat.pow_le_pow_right (by decide) (Nat.le_of_not_lt hj))

theorem expect_replica : (m.expect msg).replica = m.replica := by
  unfold expect
  split <;> rfl

theorem expect_desc : (m.expect msg).desc = m.desc := by
  unfold expect
  split <;> rfl

theorem expect_expectedHash : (m.expect msg).expectedHash =
      if msg.revision > m.replicaRev then msg.expectedHash else m.expectedHash := by
  unfold expect
  split <;> rfl

/-- The mirror after the section loop, before the proof is checked. -/
def received (m : OrderMirror) (msg : Message) : OrderMirror := ((m.expect msg).mergeSections msg).1

/-- The sections that the loop applied. -/
def appliedMask (m : OrderMirror) (msg : Message) : Nat := ((m.expect msg).mergeSections msg).2

theorem received_replica : (m.received msg).replica = m.replica.receive msg.versioned := by
  rw [received, replica_mergeSections, expect_replica]

theorem received_desc : (m.received msg).desc = m.desc := by
  rw [received, mergeSections_desc, expect_desc]

theorem received_expectedHash : (m.received msg).expectedHash =
      if msg.revision > m.replicaRev then msg.expectedHash else m.expectedHash := by
  rw [received, mergeSections_expectedHash, expect_expectedHash]

theorem testBit_appliedMask : (m.appliedMask msg).testBit i = m.replica.newer msg.versioned i := by
  rw [appliedMask, testBit_mergeSections, expect_replica]

theorem appliedMask_eq_zero_iff :
    m.appliedMask msg = 0 ↔ ∀ i, m.replica.newer msg.versioned i = false := by
  rw [appliedMask, mergeSections_eq_zero_iff, expect_replica]

theorem seenRev_eq_of_replica_eq {m m' : OrderMirror} (h : m.replica = m'.replica) :
    m.seenRev = m'.seenRev := congrArg Versioned.Replica.seen h

theorem replicaRev_eq_of_replica_eq {m m' : OrderMirror} (h : m.replica = m'.replica) :
    m.replicaRev = m'.replicaRev := by
  unfold replicaRev
  rw [seenRev_eq_of_replica_eq h]

theorem state_eq_of_replica_eq {m m' : OrderMirror} (h : m.replica = m'.replica) :
    m.state = m'.state :=
  CanonicalOrderState.ext_sections fun i => congrFun (congrArg Versioned.Replica.value h) i

theorem received_replica_of_stale {m : OrderMirror} {msg : Message}
    (h : m.appliedMask msg = 0) : (m.received msg).replica = m.replica := by
  rw [appliedMask_eq_zero_iff] at h
  rw [received_replica]
  unfold Versioned.Replica.receive
  simp only [h, false_eq_true, if_false]

/-- The revision that the proof is checked for is that of the replica. -/
theorem received_replicaRev : (m.received msg).replicaRev =
      if m.appliedMask msg ≠ 0 then max m.replicaRev msg.revision else m.replicaRev := by
  split
  next happlied =>
    -- some section has been replaced, and no section has lost anything
    have hseen : (m.received msg).seenRev = (m.replica.receive msg.versioned).seen :=
      congrArg Versioned.Replica.seen (received_replica m msg)
    obtain ⟨i, hi⟩ : ∃ i, m.replica.newer msg.versioned i = true := by
      by_contra hnone
      apply happlied
      rw [appliedMask_eq_zero_iff]
      intro i
      rw [eq_false_iff]
      exact fun h => hnone ⟨i, h⟩
    apply le_antisymm
    · obtain ⟨j, hj⟩ := (m.received msg).exists_seenRev_eq
      rw [← hj, hseen]
      exact Versioned.Replica.receive_seen_le
        ((m.seenRev_le_replicaRev j).trans (le_max_left _ _)) (le_max_right _ _)
    · apply max_le
      · obtain ⟨j, hj⟩ := m.exists_seenRev_eq
        rw [← hj]
        refine le_trans ?_ ((m.received msg).seenRev_le_replicaRev j)
        rw [hseen]
        exact Versioned.Replica.seen_le_receive m.replica msg.versioned j
      · refine le_trans ?_ ((m.received msg).seenRev_le_replicaRev i)
        rw [hseen]
        exact Versioned.Replica.version_le_receive (Versioned.Replica.newer_iff.mp hi).1
  next hstale =>
    exact replicaRev_eq_of_replica_eq (received_replica_of_stale (not_not.mp hstale))

/-- Does the checksum prove that the state is that of the replica's revision? -/
def Proven (env : OrderEnv) (m : OrderMirror) : Prop :=
  stateHash env m.replicaRev m.desc m.state = m.expectedHash

/-- Count every section as seen at the replica's revision. -/
def promote (m : OrderMirror) : OrderMirror := { m with seenRev := fun _ => m.replicaRev }

/-- **What a merge does**: receive the message, and promote the mirror if it is proven. -/
theorem merge_eq (m : OrderMirror) (msg : Message) : (Proven env (m.received msg) ∧
      m.merge env msg =
        ⟨(m.received msg).promote, m.appliedMask msg, true, (m.received msg).replicaRev != 0⟩) ∨
    (¬ Proven env (m.received msg) ∧ m.merge env msg =
        ⟨m.received msg, m.appliedMask msg, false, (m.received msg).isExact⟩) := by
  have hrev := received_replicaRev m msg
  unfold Proven promote
  rw [hrev]
  unfold merge
  dsimp only
  by_cases h : stateHash env (if m.appliedMask msg ≠ 0 then max m.replicaRev msg.revision
      else m.replicaRev) (m.received msg).desc (m.received msg).state =
        (m.received msg).expectedHash
  · exact .inl ⟨h, if_pos h⟩
  · exact .inr ⟨h, if_neg h⟩

@[simp] theorem promote_desc : m.promote.desc = m.desc := by
  simp only [promote]

@[simp] theorem promote_state : m.promote.state = m.state := by
  simp only [promote]

theorem promote_replica : m.promote.replica = m.replica.raise m.replicaRev := by
  simp only [promote, replica, Versioned.Replica.raise]

@[simp] theorem promote_expectedHash : m.promote.expectedHash = m.expectedHash := by
  simp only [promote]

@[simp] theorem promote_replicaRev : m.promote.replicaRev = m.replicaRev :=
  replicaRev_eq_of_forall fun _ => rfl

theorem promote_isExact : m.promote.isExact = (m.replicaRev != 0) := by
  rw [Bool.eq_iff_iff, isExact_iff, promote_replicaRev, bne_iff_ne]
  exact ⟨And.left, fun h => ⟨h, fun _ => rfl⟩⟩

theorem merge_appliedMask (m : OrderMirror) (msg : Message) :
    (m.merge env msg).appliedMask = m.appliedMask msg := by
  rcases merge_eq env m msg with ⟨-, h⟩ | ⟨-, h⟩ <;> simp only [h]

theorem merge_desc (m : OrderMirror) (msg : Message) : (m.merge env msg).mirror.desc = m.desc := by
  rcases merge_eq env m msg with ⟨-, h⟩ | ⟨-, h⟩ <;> simp only [h, promote_desc, received_desc]

theorem merge_mirror_state (m : OrderMirror) (msg : Message) :
    (m.merge env msg).mirror.state = (m.received msg).state := by
  rcases merge_eq env m msg with ⟨-, h⟩ | ⟨-, h⟩ <;> simp only [h, promote_state]

theorem merge_replicaRev (m : OrderMirror) (msg : Message) :
    (m.merge env msg).mirror.replicaRev = (m.received msg).replicaRev := by
  rcases merge_eq env m msg with ⟨-, h⟩ | ⟨-, h⟩ <;> simp only [h, promote_replicaRev]

theorem merge_expectedHash (m : OrderMirror) (msg : Message) :
    (m.merge env msg).mirror.expectedHash = (m.received msg).expectedHash := by
  rcases merge_eq env m msg with ⟨-, h⟩ | ⟨-, h⟩ <;> simp only [h, promote_expectedHash]

theorem merge_exact (m : OrderMirror) (msg : Message) :
    (m.merge env msg).exact = (m.merge env msg).mirror.isExact := by
  rcases merge_eq env m msg with ⟨-, h⟩ | ⟨-, h⟩ <;> simp only [h, promote_isExact]

/-- A mirror that the checksum proves has been promoted. -/
def Settled (env : OrderEnv) (m : OrderMirror) : Prop :=
  Proven env m → m.replicaRev ≠ 0 → m.isExact = true

theorem merge_settled (m : OrderMirror) (msg : Message) : Settled env (m.merge env msg).mirror := by
  intro hproven hrev
  rcases merge_eq env m msg with ⟨-, h⟩ | ⟨hnot, h⟩
  · rw [merge_replicaRev] at hrev
    simp only [h, promote_isExact]
    exact bne_iff_ne.mpr hrev
  · simp only [h] at hproven
    exact absurd hproven hnot

/-- The status changes with the phase section only. -/
theorem merge_statusByte {m : OrderMirror} {msg : Message}
    (h : (m.appliedMask msg).testBit osecPhase = false) :
    (m.merge env msg).mirror.state.statusByte = m.state.statusByte := by
  rw [testBit_appliedMask] at h
  have hvalue : (m.received msg).state.sectionBytes osecPhase = m.state.sectionBytes osecPhase := by
    change (m.received msg).replica.value osecPhase = m.replica.value osecPhase
    rw [received_replica]
    unfold Versioned.Replica.receive
    dsimp only
    rw [h]
    rfl
  rw [merge_mirror_state, CanonicalOrderState.statusByte_eq, CanonicalOrderState.statusByte_eq,
    hvalue]

/-- A promotion without an applied section: the message carries no section, is newer than the
replica, and brings the checksum of the replica as it stands. -/
theorem sectionless_of_promoted {env : OrderEnv} {m : OrderMirror} {msg : Message}
    (hsettled : m.Settled env) (hzero : m.appliedMask msg = 0) (hexact : m.isExact = false)
    (hexact' : (m.merge env msg).mirror.isExact = true) :
    (∀ i, msg.carries i = false) ∧ m.replicaRev < msg.revision ∧ m.replicaRev ≠ 0 ∧
      stateHash env m.replicaRev m.desc m.state = msg.expectedHash := by
  have hreplica := received_replica_of_stale hzero
  have hseen := seenRev_eq_of_replica_eq hreplica
  have hstate := state_eq_of_replica_eq hreplica
  have hrev := replicaRev_eq_of_replica_eq hreplica
  rcases merge_eq env m msg with ⟨hproven, heq⟩ | ⟨-, heq⟩
  · rw [heq, promote_isExact, bne_iff_ne, hrev] at hexact'
    unfold Proven at hproven
    rw [hrev, hstate, received_desc, received_expectedHash] at hproven
    have hlt : m.replicaRev < msg.revision := by
      by_contra hle
      rw [if_neg hle] at hproven
      rw [hsettled hproven hexact'] at hexact
      cases hexact
    rw [if_pos hlt] at hproven
    refine ⟨fun i => ?_, hlt, hexact', hproven⟩
    have hnew := (appliedMask_eq_zero_iff m msg).mp hzero i
    rw [eq_false_iff] at hnew ⊢
    intro hcarries
    exact hnew (Versioned.Replica.newer_iff.mpr
      ⟨hcarries, Nat.lt_of_le_of_lt (m.seenRev_le_replicaRev i) hlt⟩)
  · rw [heq] at hexact'
    dsimp only at hexact'
    rw [isExact_iff, hrev, hseen, ← isExact_iff, hexact] at hexact'
    cases hexact'

/-- Conversely, such a message promotes the mirror and applies nothing. -/
theorem promoted_of_sectionless {env : OrderEnv} {m : OrderMirror} {msg : Message}
    (hnone : ∀ i, msg.carries i = false) (hlt : m.replicaRev < msg.revision)
    (hrev : m.replicaRev ≠ 0)
    (hhash : stateHash env m.replicaRev m.desc m.state = msg.expectedHash) :
    m.appliedMask msg = 0 ∧ (m.merge env msg).mirror.isExact = true ∧
      (m.merge env msg).mirror.state = m.state := by
  have hzero : m.appliedMask msg = 0 := by
    rw [appliedMask_eq_zero_iff]
    intro i
    rw [eq_false_iff]
    intro hnew
    exact eq_false_iff.mp (hnone i) (Versioned.Replica.newer_iff.mp hnew).1
  have hreplica := received_replica_of_stale hzero
  have hstate := state_eq_of_replica_eq hreplica
  have hrev' := replicaRev_eq_of_replica_eq hreplica
  have hproven : Proven env (m.received msg) := by
    unfold Proven
    rw [hrev', hstate, received_desc, received_expectedHash, if_pos hlt]
    exact hhash
  rcases merge_eq env m msg with ⟨-, heq⟩ | ⟨hnot, -⟩
  · refine ⟨hzero, ?_, ?_⟩
    · rw [heq, promote_isExact, hrev']
      exact bne_iff_ne.mpr hrev
    · rw [merge_mirror_state, hstate]
  · exact absurd hproven hnot

end OrderMirror

end MoonProto
