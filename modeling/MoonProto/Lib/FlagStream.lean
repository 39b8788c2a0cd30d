import MoonProto.Lib.Bytes
import MoonProto.Lib.BitField

/-!
# Streams of flagged items

A compressed stream is a sequence of items, each a byte string with one flag.
The flags of 32 consecutive items travel in a 32-bit control word in front of
them. A `Writer` emits items one at a time into a word it keeps open;
`controlWord` and `body` describe the finished stream from the reader's side,
item by item. `Writer.foldl_emit_bytes` says that the two agree.
-/

namespace FlagStream

open Codec BitField List

/-- An item: its flag and its bytes. -/
abbrev Item := Bool × Bytes

/-- The flag mask of the item at position `k` of its word. -/
def mask (k : Nat) : UInt32 := 1 <<< UInt32.ofNat k

/-- The control word of the items that share a word with the first one, which
stands at position `k`. -/
def controlWord : Nat → List Item → UInt32
  | _, [] => 0
  | k, t :: ts =>
    (if t.1 then mask k else 0) ||| (if k < 31 then controlWord (k + 1) ts else 0)

/-- The bytes from the item at position `k` of its word to the end. A word is
followed by the next one as soon as it is full, even if no item is left. -/
def body : Nat → List Item → Bytes
  | _, [] => []
  | k, t :: ts =>
    t.2 ++ if k < 31 then body (k + 1) ts else u32Bytes (controlWord 0 ts) ++ body 0 ts

/-- The whole stream. -/
def stream (items : List Item) : Bytes := u32Bytes (controlWord 0 items) ++ body 0 items

/-! ## Flags -/

theorem mask_toNat {k : Nat} (h : k < 32) : (mask k).toNat = 2 ^ k := by
  have hk : (UInt32.ofNat k).toNat = k :=
    UInt32.toNat_ofNat_of_lt (Nat.lt_trans h (by decide))
  unfold mask
  rw [UInt32.toNat_shiftLeft, hk, Nat.mod_eq_of_lt h]
  show 1 <<< k % 2 ^ 32 = 2 ^ k
  rw [Nat.one_shiftLeft]
  exact Nat.mod_eq_of_lt (Nat.pow_lt_pow_right (by decide) h)

theorem and_mask_ne_zero (w : UInt32) {k : Nat} (h : k < 32) :
    w &&& mask k ≠ 0 ↔ w.toNat.testBit k = true := by
  rw [← and_two_pow_ne_zero, ← mask_toNat h, ← UInt32.toNat_and, ne_eq, ne_eq,
    ← UInt32.toNat_inj, UInt32.toNat_zero]

/-- Shifting the mask walks through the word and falls out behind bit 31. -/
theorem mask_shiftLeft_one : ∀ k < 32, mask k <<< 1 = if k < 31 then mask (k + 1) else 0 := by
  decide

theorem mask_ne_zero {k : Nat} (h : k < 32) : mask k ≠ 0 := by
  intro h0
  have := mask_toNat h
  rw [h0] at this
  exact absurd this.symm (Nat.pos_iff_ne_zero.mp (Nat.two_pow_pos k))

theorem testBit_controlWord_of_lt : ∀ {k j : Nat} (items : List Item), k < 32 → j < k →
    (controlWord k items).toNat.testBit j = false
  | k, j, [], _, _ => by simp [controlWord]
  | k, j, t :: ts, hk, hj => by
    have hhead : ((if t.1 then mask k else 0 : UInt32)).toNat.testBit j = false := by
      split
      · rw [mask_toNat hk, Nat.testBit_two_pow]
        exact decide_eq_false (by omega)
      · simp
    rw [controlWord, UInt32.toNat_or, Nat.testBit_or, hhead, Bool.false_or]
    split
    · exact testBit_controlWord_of_lt ts (by omega) (by omega)
    · simp

/-- A control word that has the flags of `items` from position `k` on. -/
def Flags (cw : UInt32) (k : Nat) (items : List Item) : Prop :=
  ∀ j, k ≤ j → j < 32 → cw.toNat.testBit j = (controlWord k items).toNat.testBit j

theorem flags_controlWord (k : Nat) (items : List Item) : Flags (controlWord k items) k items :=
  fun _ _ _ => rfl

theorem Flags.head {cw : UInt32} {k : Nat} {t : Item} {ts : List Item}
    (h : Flags cw k (t :: ts)) (hk : k < 32) : cw.toNat.testBit k = t.1 := by
  have htail : ((if k < 31 then controlWord (k + 1) ts else 0 : UInt32)).toNat.testBit k
      = false := by
    split
    · exact testBit_controlWord_of_lt ts (by omega) (Nat.lt_succ_self k)
    · simp
  rw [h k (Nat.le_refl k) hk, controlWord, UInt32.toNat_or, Nat.testBit_or, htail, Bool.or_false]
  cases t.1 with
  | false => simp
  | true => simp [mask_toNat hk]

theorem Flags.tail {cw : UInt32} {k : Nat} {t : Item} {ts : List Item}
    (h : Flags cw k (t :: ts)) (hk : k < 31) : Flags cw (k + 1) ts := by
  intro j hj hj32
  have hhead : ((if t.1 then mask k else 0 : UInt32)).toNat.testBit j = false := by
    split
    · rw [mask_toNat (by omega), Nat.testBit_two_pow]
      exact decide_eq_false (by omega)
    · simp
  rw [h j (by omega) hj32, controlWord, UInt32.toNat_or, Nat.testBit_or, hhead, Bool.false_or,
    if_pos hk]

/-! ## Writing -/

/-- A stream under construction: everything before the open control word, the
open word, the bytes behind it, and the position of the next item in it. -/
structure Writer where
  done : Bytes
  cw : UInt32
  tail : Bytes
  cwbit : Nat

namespace Writer

/-- A writer behind `header`, with an empty word reserved. -/
def start (header : Bytes) : Writer := ⟨header, 0, [], 0⟩

def bytes (w : Writer) : Bytes := w.done ++ u32Bytes w.cw ++ w.tail

/-- Move to the next position, reserving a new word behind a full one. -/
def advance (w : Writer) : Writer :=
  if w.cwbit < 31 then { w with cwbit := w.cwbit + 1 }
  else ⟨w.bytes, 0, [], 0⟩

def emit (w : Writer) (t : Item) : Writer :=
  advance { w with
    cw := if t.1 then w.cw ||| mask w.cwbit else w.cw
    tail := w.tail ++ t.2 }

/-- **A writer writes the stream.** -/
theorem foldl_emit_bytes : ∀ (items : List Item) (w : Writer), (items.foldl emit w).bytes
      = w.done ++ u32Bytes (w.cw ||| controlWord w.cwbit items) ++ w.tail ++ body w.cwbit items
  | [], w => by simp [bytes, controlWord, body]
  | t :: ts, w => by
    have hcw : (if t.1 then w.cw ||| mask w.cwbit else w.cw)
        = w.cw ||| (if t.1 then mask w.cwbit else 0) := by
      split <;> simp
    rw [foldl_cons, foldl_emit_bytes ts]
    unfold emit advance
    by_cases hk : w.cwbit < 31
    · simp only [if_pos hk, hcw, controlWord, body, UInt32.or_assoc, append_assoc]
    · simp only [if_neg hk, hcw, controlWord, body, bytes, append_assoc, nil_append,
        UInt32.zero_or, UInt32.or_zero]

theorem start_foldl_emit_bytes (header : Bytes) (items : List Item) :
    (items.foldl emit (start header)).bytes = header ++ stream items := by
  rw [foldl_emit_bytes]
  simp [start, stream]

end Writer

end FlagStream
