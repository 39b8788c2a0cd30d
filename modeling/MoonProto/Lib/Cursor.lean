import MoonProto.Lib.Bytes

/-!
# Reading from the front of a byte string

A strict read takes what it needs from the front of the unread bytes and fails if there is
too little; a soft read fills up with zeros. What was written comes back in front of the
rest.
-/

namespace Cursor

open Codec List Option

/-- The first `k` bytes, if there are that many. -/
def take (k : Nat) (data : Bytes) : Option (Bytes × Bytes) :=
  if data.length < k then none else some (data.take k, data.drop k)

def u8 : Bytes → Option (UInt8 × Bytes)
  | [] => none
  | b :: rest => some (b, rest)

def u16 (data : Bytes) : Option (UInt16 × Bytes) :=
  (take 2 data).map fun p => (readU16 p.1, p.2)

def u64 (data : Bytes) : Option (UInt64 × Bytes) :=
  (take 8 data).map fun p => (readU64 p.1, p.2)

def i32 (data : Bytes) : Option (Int32 × Bytes) :=
  (take 4 data).map fun p => ((readU32 p.1).toInt32, p.2)

/-- The first `k` bytes, with zeros for those that are missing. -/
def zeroTail (k : Nat) (data : Bytes) : Bytes × Bytes :=
  (data.take k ++ List.replicate (k - data.length) 0, data.drop k)

theorem take_append {k : Nat} {bs : Bytes} (h : bs.length = k) (rest : Bytes) :
    take k (bs ++ rest) = some (bs, rest) := by
  unfold take
  rw [if_neg (by rw [length_append]; omega), take_left' h, drop_left' h]

@[simp] theorem u8_cons (b : UInt8) (rest : Bytes) : u8 (b :: rest) = some (b, rest) := rfl

@[simp] theorem u16_append (x : UInt16) (rest : Bytes) :
    u16 (u16Bytes x ++ rest) = some (x, rest) := by
  rw [u16, take_append (u16Bytes_length x), map_some, readU16_u16Bytes]

@[simp] theorem u64_append (x : UInt64) (rest : Bytes) :
    u64 (u64Bytes x ++ rest) = some (x, rest) := by
  rw [u64, take_append (u64Bytes_length x), map_some, readU64_u64Bytes]

@[simp] theorem i32_append (x : Int32) (rest : Bytes) :
    i32 (u32Bytes x.toUInt32 ++ rest) = some (x, rest) := by
  rw [i32, take_append (u32Bytes_length _), map_some, readU32_u32Bytes]
  rfl

theorem zeroTail_append {k : Nat} {bs : Bytes} (h : bs.length = k) (rest : Bytes) :
    zeroTail k (bs ++ rest) = (bs, rest) := by
  unfold zeroTail
  rw [take_left' h, drop_left' h, length_append, h,
    Nat.sub_eq_zero_of_le (Nat.le_add_right _ _), replicate_zero, append_nil]

end Cursor
