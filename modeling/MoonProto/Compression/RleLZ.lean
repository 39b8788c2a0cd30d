import MoonProto.Compression.Decoder

/-!
# Bounds of the decompressors

`rlelz_decompress_exact` and `rle_decompress_exact` of `src/compression.rs`, and what every
decompressor promises of the length of its result: SynLZ stays within the declared size and
the cap, the exact decoders return the expected length or nothing. The run-length pass walks
the intermediate bytes; `0x5a` announces a count and the repeated byte.
-/

namespace MoonProto.SynLZ

open Codec Option

/-! ## The exact decoders -/

/-- The loop of `read_var_u32` over the bytes from `pos` on, `left` of them at most. -/
def readVarU32Loop (data : Bytes) : (left pos : Nat) → UInt32 → Option (UInt32 × Nat)
  | 0, _, _ => none
  | left + 1, pos, value =>
    match data[pos]? with
    | none => none
    | some byte =>
      if pos = 4 ∧ 0x0f < byte then none
      else
        let value := value ||| ((byte &&& 0x7f).toUInt32 <<< UInt32.ofNat (7 * pos))
        if byte &&& 0x80 = 0 then some (value, pos + 1)
        else readVarU32Loop data left (pos + 1) value

/-- `read_var_u32`: the value and the number of bytes read. -/
def readVarU32 (data : Bytes) : Option (UInt32 × Nat) := readVarU32Loop data 5 0 0

/-- `RLE_CONTROL`. -/
def rleControl : UInt8 := 0x5a

/-- The loop of `rle_decompress_exact` over the bytes that are left. -/
def rleLoop (expectedLen : Nat) : Bytes → Bytes → Option Bytes
  | [], out => some out
  | value :: rest, out =>
    if value ≠ rleControl then
      if out.length = expectedLen then none else rleLoop expectedLen rest (out ++ [value])
    else
      match rest with
      | count :: repeated :: rest =>
        if count.toNat = 0 ∨ expectedLen - out.length < count.toNat then none
        else rleLoop expectedLen rest (out ++ List.replicate count.toNat repeated)
      | _ => none

/-- `rle_decompress_exact`. -/
def rleDecompressExact (data : Bytes) (expectedLen : Nat) : Option Bytes :=
  (rleLoop expectedLen data []).filter fun out => out.length = expectedLen

/-- `rlelz_decompress_exact`. -/
def rlelzDecompressExact (data : Bytes) (expectedLen : Nat) : Option Bytes :=
  if maxDecompressedSize < expectedLen then none
  else
    match readVarU32 data with
    | none => none
    | some (declaredLen, pos) =>
      if declaredLen.toNat ≠ expectedLen then none
      else
        match data.drop pos with
        | [] => none
        | rleMode :: synlz =>
          match synlzDecompressBounded synlz expectedLen with
          | none => none
          | some intermediate =>
            if rleMode = 0 then
              if intermediate.length = expectedLen then some intermediate else none
            else if rleMode = 1 then rleDecompressExact intermediate expectedLen
            else none

/-! ## Lengths -/

/-- The size that the header of a SynLZ stream declares. -/
def declaredSize (src : Bytes) : Nat :=
  let firstWord := readU16 (src.take 2)
  if firstWord &&& 0x8000 ≠ 0 then
    (firstWord &&& 0x7FFF).toNat ||| ((readU16 ((src.drop 2).take 2)).toNat <<< 15)
  else firstWord.toNat

theorem decompressBody_length {src out : Bytes} {pos outSize maxOutput : Nat}
    (h : decompressBody src pos outSize maxOutput = some (some out)) :
    out.length ≤ min outSize maxOutput := by
  unfold decompressBody at h
  split at h
  · cases h
  next hcap =>
  obtain ⟨⟨dst, result⟩, -, hresult⟩ := map_eq_some_iff.mp h
  cases result with
  | corrupt => cases hresult
  | ok finalPos =>
    cases hresult
    rw [Nat.min_eq_left (Nat.le_of_not_lt hcap)]
    exact (List.length_take_le _ _).trans (Nat.min_le_right _ _)

theorem decompressBounded_length {src out : Bytes} {maxOutput : Nat}
    (h : decompressBounded src maxOutput = some (some out)) :
    out.length ≤ min (declaredSize src) maxOutput := by
  unfold decompressBounded at h
  split at h
  · cases h
  next hshort =>
  rw [slice_eq (Nat.zero_le 2) (Nat.le_of_not_lt hshort), map_some,
    bind_eq_bind, bind_some, List.drop_zero] at h
  split at h
  · cases h
    exact Nat.zero_le _
  · split at h
    · next hlong =>
      split at h
      · cases h
      next hshort4 =>
      rw [slice_eq (by decide) (Nat.le_of_not_lt hshort4), map_some,
        bind_some] at h
      unfold declaredSize
      rw [if_pos hlong]
      exact decompressBody_length h
    · next hshort2 =>
      unfold declaredSize
      rw [if_neg hshort2]
      exact decompressBody_length h

theorem rleDecompressExact_length {data out : Bytes} {expectedLen : Nat}
    (h : rleDecompressExact data expectedLen = some out) : out.length = expectedLen := by
  obtain ⟨-, hlength⟩ := filter_eq_some_iff.mp h
  exact of_decide_eq_true hlength

theorem rlelzDecompressExact_length {data out : Bytes} {expectedLen : Nat}
    (h : rlelzDecompressExact data expectedLen = some out) : out.length = expectedLen := by
  unfold rlelzDecompressExact at h
  split at h
  · cases h
  split at h
  · cases h
  split at h
  · cases h
  split at h
  · cases h
  split at h
  · cases h
  split at h
  · split at h
    · next hlength =>
      cases h
      exact hlength
    · cases h
  · split at h
    · exact rleDecompressExact_length h
    · cases h

/-- **The decompressors keep their bounds.** On every input and with every cap SynLZ
decompression ends without an access outside its buffers, and what it returns is no longer
than the declared size and the cap; an exact decoder returns the expected length or nothing. -/
theorem decompressors_bounded (src : Bytes) (maxOutput : Nat) :
    (∃ result, decompressBounded src maxOutput = some result ∧
      ∀ out, result = some out → out.length ≤ min (declaredSize src) maxOutput) ∧
    (∀ out, rlelzDecompressExact src maxOutput = some out → out.length = maxOutput) ∧
    ∀ out, rleDecompressExact src maxOutput = some out → out.length = maxOutput := by
  obtain ⟨result, hresult⟩ :=
    isSome_iff_exists.mp (decompressBounded_isSome src maxOutput)
  refine ⟨⟨result, hresult, ?_⟩, fun out => rlelzDecompressExact_length,
    fun out => rleDecompressExact_length⟩
  rintro out rfl
  exact decompressBounded_length hresult

/-- A run of three in the run-length pass, and a literal and a run behind a SynLZ stream. -/
theorem decompressors_bounded_runs : rleDecompressExact [1, 0x5a, 3, 7] 4 = some [1, 7, 7, 7] ∧
    rlelzDecompressExact [4, 1, 4, 0, 0, 0, 0, 0, 1, 0x5a, 3, 7] 4 = some [1, 7, 7, 7] ∧
    [1, 7, 7, 7].length = 4 :=
  ⟨by decide, by decide +kernel,
    (decompressors_bounded [1, 0x5a, 3, 7] 4).2.2 [1, 7, 7, 7] (by decide)⟩

end MoonProto.SynLZ
