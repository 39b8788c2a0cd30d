import Mathlib.Algebra.Group.Nat.Defs
import Mathlib.Tactic.Common

/-!
# Byte strings: bounded slices and little-endian integers

Records on a wire are byte strings cut at fixed offsets. A slice whose end lies
outside the string is `none`, so a caller that never sees `none` never reads
outside its buffer. Integers are stored least significant byte first;
`leDecode` and `leEncode` are inverse up to the width of the field.
-/

abbrev Bytes : Type := List UInt8

namespace Codec

open List

/-! ## Slices -/

/-- The bytes `a..b` of `data`; `none` when the range is not inside `data`. -/
def slice (data : Bytes) (a b : Nat) : Option Bytes :=
  if a ≤ b ∧ b ≤ data.length then some ((data.drop a).take (b - a)) else none

theorem slice_eq {data : Bytes} {a b : Nat} (hab : a ≤ b) (hb : b ≤ data.length) :
    slice data a b = some ((data.drop a).take (b - a)) := by
  simp [slice, hab, hb]

/-- A slice that starts behind a prefix of known length does not see the prefix. -/
theorem slice_append_right (pre data : Bytes) (a b : Nat) :
    slice (pre ++ data) (pre.length + a) (pre.length + b) = slice data a b := by
  unfold slice
  have hdrop : (pre ++ data).drop (pre.length + a) = data.drop a := by
    rw [drop_append]
    simp
  have hlen : pre.length + b - (pre.length + a) = b - a := by omega
  rw [hdrop, hlen, length_append]
  by_cases h : a ≤ b ∧ b ≤ data.length
  · rw [if_pos h, if_pos (by omega)]
  · rw [if_neg h, if_neg (by omega)]

theorem slice_append_left (data post : Bytes) {a b : Nat} (hb : b ≤ data.length) :
    slice (data ++ post) a b = slice data a b := by
  unfold slice
  by_cases h : a ≤ b
  · have h1 : (data ++ post).drop a = data.drop a ++ post :=
      drop_append_of_le_length (by omega)
    rw [if_pos ⟨h, by rw [length_append]; omega⟩, if_pos ⟨h, hb⟩, h1,
      take_append_of_le_length]
    rw [length_drop]
    omega
  · rw [if_neg (fun hc => h hc.1), if_neg (fun hc => h hc.1)]

theorem slice_append_mid (pre data post : Bytes) :
    slice (pre ++ (data ++ post)) pre.length (pre.length + data.length) = some data := by
  have h := slice_append_right pre (data ++ post) 0 data.length
  rw [Nat.add_zero] at h
  rw [h, slice_eq (Nat.zero_le _) (by rw [length_append]; exact Nat.le_add_right _ _),
    drop_zero, Nat.sub_zero, take_left]

/-! ## Little-endian integers -/

/-- The `k` low bytes of `n`, least significant first. -/
def leEncode : Nat → Nat → Bytes
  | 0, _ => []
  | k + 1, n => UInt8.ofNat n :: leEncode k (n / 256)

def leDecode : Bytes → Nat
  | [] => 0
  | b :: bs => b.toNat + 256 * leDecode bs

@[simp] theorem leEncode_length : ∀ k n : Nat, (leEncode k n).length = k
  | 0, _ => rfl
  | k + 1, n => by simp [leEncode, leEncode_length k]

theorem leDecode_lt : ∀ bs : Bytes, leDecode bs < 256 ^ bs.length
  | [] => by simp [leDecode]
  | b :: bs => by
    have ih := leDecode_lt bs
    have hb := b.toNat_lt
    simp only [leDecode, length_cons, Nat.pow_succ]
    omega

theorem leDecode_leEncode : ∀ k n : Nat, leDecode (leEncode k n) = n % 256 ^ k
  | 0, n => by simp [leEncode, leDecode, Nat.mod_one]
  | k + 1, n => by
    simp only [leEncode, leDecode, leDecode_leEncode k]
    rw [Nat.pow_succ, Nat.mul_comm _ 256, Nat.mod_mul]
    simp

theorem leDecode_leEncode_of_lt {k n : Nat} (h : n < 256 ^ k) : leDecode (leEncode k n) = n := by
  rw [leDecode_leEncode, Nat.mod_eq_of_lt h]

theorem leEncode_leDecode : ∀ bs : Bytes, leEncode bs.length (leDecode bs) = bs
  | [] => rfl
  | b :: bs => by
    have hb := b.toNat_lt
    have hlow : UInt8.ofNat (leDecode (b :: bs)) = b := by
      apply UInt8.toNat_inj.mp
      rw [UInt8.toNat_ofNat', leDecode]
      omega
    have hhigh : leDecode (b :: bs) / 256 = leDecode bs := by
      rw [leDecode]
      omega
    rw [length_cons, leEncode, hlow, hhigh, leEncode_leDecode bs]

/-! ## Fixed-width unsigned integers -/

def u16Bytes (x : UInt16) : Bytes := leEncode 2 x.toNat
def u32Bytes (x : UInt32) : Bytes := leEncode 4 x.toNat
def u64Bytes (x : UInt64) : Bytes := leEncode 8 x.toNat

def readU16 (bs : Bytes) : UInt16 := UInt16.ofNat (leDecode bs)
def readU32 (bs : Bytes) : UInt32 := UInt32.ofNat (leDecode bs)
def readU64 (bs : Bytes) : UInt64 := UInt64.ofNat (leDecode bs)

@[simp] theorem u16Bytes_length (x : UInt16) : (u16Bytes x).length = 2 := by simp [u16Bytes]
@[simp] theorem u32Bytes_length (x : UInt32) : (u32Bytes x).length = 4 := by simp [u32Bytes]
@[simp] theorem u64Bytes_length (x : UInt64) : (u64Bytes x).length = 8 := by simp [u64Bytes]

@[simp] theorem readU16_u16Bytes (x : UInt16) : readU16 (u16Bytes x) = x := by
  simp [readU16, u16Bytes, leDecode_leEncode_of_lt (k := 2) x.toNat_lt]

@[simp] theorem readU32_u32Bytes (x : UInt32) : readU32 (u32Bytes x) = x := by
  simp [readU32, u32Bytes, leDecode_leEncode_of_lt (k := 4) x.toNat_lt]

@[simp] theorem readU64_u64Bytes (x : UInt64) : readU64 (u64Bytes x) = x := by
  simp [readU64, u64Bytes, leDecode_leEncode_of_lt (k := 8) x.toNat_lt]

theorem u64Bytes_readU64 {bs : Bytes} (h : bs.length = 8) : u64Bytes (readU64 bs) = bs := by
  have hlt := leDecode_lt bs
  rw [h] at hlt
  rw [u64Bytes, readU64, UInt64.toNat_ofNat_of_lt' hlt, ← h, leEncode_leDecode]

/-! ## Fields of a packed record -/

/-- The `len` bytes of a record at `off`. -/
def field (data : Bytes) (off len : Nat) : Bytes := (data.drop off).take len

/-- A single-byte field. -/
def byteAt (data : Bytes) (off : Nat) : UInt8 := data.getD off 0

theorem field_append_right (pre data : Bytes) (off len : Nat) :
    field (pre ++ data) (pre.length + off) len = field data off len := by
  unfold field
  rw [drop_append, drop_eq_nil_of_le (Nat.le_add_right _ _)]
  simp

theorem field_append_left (data post : Bytes) : field (data ++ post) 0 data.length = data := by
  simp [field]

theorem byteAt_append_right (pre data : Bytes) (off : Nat) :
    byteAt (pre ++ data) (pre.length + off) = byteAt data off := by
  unfold byteAt
  rw [getD_eq_getElem?_getD, getD_eq_getElem?_getD,
    getElem?_append_right (Nat.le_add_right _ _), Nat.add_sub_cancel_left]

/-! ## Arrays of 64-bit words -/

/-- Words written one behind the other. -/
def u64sBytes (ws : List UInt64) : Bytes := ws.flatMap u64Bytes

@[simp] theorem u64sBytes_length : ∀ ws : List UInt64, (u64sBytes ws).length = 8 * ws.length
  | [] => rfl
  | w :: ws => by
    have ih := u64sBytes_length ws
    simp only [u64sBytes, flatMap_cons, length_append, u64Bytes_length, length_cons] at ih ⊢
    omega

theorem slice_u64sBytes : ∀ {ws : List UInt64} {i : Nat} (h : i < ws.length),
    slice (u64sBytes ws) (8 * i) (8 * i + 8) = some (u64Bytes ws[i])
  | w :: ws, 0, _ => by
    show slice (u64Bytes w ++ u64sBytes ws) 0 8 = _
    rw [slice_append_left _ _ (by simp), slice_eq (by omega) (by simp)]
    simp [take_of_length_le]
  | w :: ws, i + 1, h => by
    have h' : i < ws.length := by simpa using h
    show slice (u64Bytes w ++ u64sBytes ws) (8 * (i + 1)) (8 * (i + 1) + 8) = _
    have hpos := slice_append_right (u64Bytes w) (u64sBytes ws) (8 * i) (8 * i + 8)
    rw [u64Bytes_length] at hpos
    rw [show 8 * (i + 1) = 8 + 8 * i by omega, Nat.add_assoc, hpos, slice_u64sBytes h']
    rfl

end Codec
