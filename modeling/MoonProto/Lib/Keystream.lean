import MoonProto.Lib.Bytes

/-!
# Whitening with a keystream

A generator `next` gives a 64-bit word and its next state. A byte string is whitened by XOR
with its words: one word, least significant byte first, for each full block of eight bytes,
and one word of which only the low byte is used for each byte of the tail. What the generator
does never depends on the bytes, so whitening twice from one state gives them back.
-/

namespace Keystream

open Codec List

variable {S : Type*} (next : S → UInt64 × S)

/-- The tail: one step of the generator for each byte. -/
def whitenTail : S → Bytes → Bytes
  | _, [] => []
  | s, b :: bs => (b ^^^ (next s).1.toUInt8) :: whitenTail (next s).2 bs

/-- Blocks of eight bytes, then the tail. -/
def whiten : S → Bytes → Bytes
  | s, b0 :: b1 :: b2 :: b3 :: b4 :: b5 :: b6 :: b7 :: rest =>
    u64Bytes (readU64 [b0, b1, b2, b3, b4, b5, b6, b7] ^^^ (next s).1) ++
      whiten (next s).2 rest
  | s, tail => whitenTail next s tail

@[simp] theorem whitenTail_length : ∀ (s : S) (bs : Bytes),
    (whitenTail next s bs).length = bs.length
  | _, [] => rfl
  | s, b :: bs => by
    rw [whitenTail, length_cons, whitenTail_length, length_cons]

theorem whitenTail_whitenTail : ∀ (s : S) (bs : Bytes),
    whitenTail next s (whitenTail next s bs) = bs
  | _, [] => rfl
  | s, b :: bs => by
    rw [whitenTail, whitenTail, whitenTail_whitenTail, UInt8.xor_assoc, UInt8.xor_self,
      UInt8.xor_zero]

theorem whiten_block (s : S) {block : Bytes} (h : block.length = 8) (rest : Bytes) :
    whiten next s (block ++ rest) =
      u64Bytes (readU64 block ^^^ (next s).1) ++ whiten next (next s).2 rest := by
  obtain ⟨b0, b1, b2, b3, b4, b5, b6, b7, rfl⟩ :
      ∃ b0 b1 b2 b3 b4 b5 b6 b7, block = [b0, b1, b2, b3, b4, b5, b6, b7] := by
    match block, h with
    | [b0, b1, b2, b3, b4, b5, b6, b7], _ => exact ⟨b0, b1, b2, b3, b4, b5, b6, b7, rfl⟩
  rfl

theorem whiten_tail (s : S) {tail : Bytes} (h : tail.length < 8) :
    whiten next s tail = whitenTail next s tail := by
  unfold whiten
  split
  · simp only [length_cons] at h
    omega
  · rfl

/-- A byte string is blocks of eight bytes and less than eight bytes more. -/
theorem blocks_induction {P : S → Bytes → Prop} (tail : ∀ s bs, bs.length < 8 → P s bs)
    (block : ∀ s b rest, b.length = 8 → P (next s).2 rest → P s (b ++ rest)) :
    ∀ s bs, P s bs := by
  intro s bs
  induction hn : bs.length using Nat.strongRecOn generalizing s bs with
  | _ n ih =>
    rcases Nat.lt_or_ge bs.length 8 with hlt | hge
    · exact tail s bs hlt
    · have hrest : (bs.drop 8).length < n := by
        rw [length_drop]
        omega
      have h := block s (bs.take 8) (bs.drop 8) (length_take_of_le hge)
        (ih _ hrest _ _ rfl)
      rwa [take_append_drop] at h

@[simp] theorem whiten_length (s : S) (bs : Bytes) : (whiten next s bs).length = bs.length := by
  induction s, bs using blocks_induction next with
  | tail s bs h => rw [whiten_tail next s h, whitenTail_length]
  | block s b rest h ih =>
    rw [whiten_block next s h, length_append, u64Bytes_length, ih, length_append, h]

/-- **Whitening is its own inverse.** -/
theorem whiten_whiten (s : S) (bs : Bytes) : whiten next s (whiten next s bs) = bs := by
  induction s, bs using blocks_induction next with
  | tail s bs h =>
    rw [whiten_tail next s h, whiten_tail next s (by rwa [whitenTail_length]),
      whitenTail_whitenTail]
  | block s b rest h ih =>
    rw [whiten_block next s h, whiten_block next s (u64Bytes_length _), readU64_u64Bytes,
      UInt64.xor_assoc, UInt64.xor_self, UInt64.xor_zero, u64Bytes_readU64 h, ih]

end Keystream
