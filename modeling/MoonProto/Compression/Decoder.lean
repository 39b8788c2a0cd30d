import Mathlib.Data.List.Induction
import MoonProto.Compression.SynLZ

/-!
# The SynLZ decompressor on arbitrary input

What each step of the decompressor does to its state, whatever the input: the
hash updates touch only the table, a copy writes its target range and nothing in
front of it, and no access is out of bounds. The last theorem turns the checked
model into the total function the rest of the development uses.
-/

namespace MoonProto.SynLZ

open Codec FlagStream List Option

theorem wordAt_eq {buf : Bytes} {i : Nat} (h : i + 4 ≤ buf.length) :
    wordAt buf i = some (readU32 ((buf.drop i).take 4)) := by
  rw [wordAt, slice_eq (Nat.le_add_right _ _) h, map_some, Nat.add_sub_cancel_left]

/-! ## Hash updates -/

namespace Decoder

/-- Everything but the table and `last_hashed` is the same. -/
structure SameBuffer (s s' : Decoder) : Prop where
  pos : s'.pos = s.pos
  dstPos : s'.dstPos = s.dstPos
  dst : s'.dst = s.dst

theorem SameBuffer.refl (s : Decoder) : SameBuffer s s := ⟨rfl, rfl, rfl⟩

theorem SameBuffer.trans {s s' s'' : Decoder} (h : SameBuffer s s') (h' : SameBuffer s' s'') :
    SameBuffer s s'' :=
  ⟨h'.pos.trans h.pos, h'.dstPos.trans h.dstPos, h'.dst.trans h.dst⟩

theorem recordNext_spec (s : Decoder) :
    ∃ s', s.recordNext = some s' ∧ SameBuffer s s' ∧ s'.lastHashed = s.lastHashed + 1 := by
  unfold recordNext
  by_cases h : (s.lastHashed + 1).toNat + 4 ≤ s.dst.length
  · simp only [if_pos h, wordAt_eq h]
    exact ⟨_, rfl, ⟨rfl, rfl, rfl⟩, rfl⟩
  · simp only [if_neg h]
    exact ⟨_, rfl, ⟨rfl, rfl, rfl⟩, rfl⟩

theorem recordMany_spec : ∀ (n : Nat) (s : Decoder),
    ∃ s', s.recordMany n = some s' ∧ SameBuffer s s' ∧ s'.lastHashed = s.lastHashed + n
  | 0, s => ⟨s, rfl, SameBuffer.refl s, by simp⟩
  | n + 1, s => by
    obtain ⟨s', hs', hsame, hlast⟩ := recordNext_spec s
    obtain ⟨s'', hs'', hsame', hlast'⟩ := recordMany_spec n s'
    refine ⟨s'', ?_, hsame.trans hsame', ?_⟩
    · rw [recordMany, hs', bind_some, hs'']
    · rw [hlast', hlast]
      omega

end Decoder

/-! ## Copies -/

theorem writeAt_eq {buf : Bytes} {i : Nat} (h : i < buf.length) (b : UInt8) :
    writeAt buf i b = some (buf.set i b) :=
  if_pos h

/-- The effect of a copy of `t` bytes: the bytes before the target stay, and the
target is a copy of the source range as it is afterwards, which for overlapping
ranges repeats it. -/
structure Copied (dst dst' : Bytes) (copyFrom dstPos t : Nat) : Prop where
  length : dst'.length = dst.length
  before : ∀ j < dstPos, dst'[j]? = dst[j]?
  target : ∀ k < t, dst'[dstPos + k]? = dst'[copyFrom + k]?

theorem moveByOne_spec (dst : Bytes) {copyFrom dstPos : Nat} (hle : copyFrom ≤ dstPos) :
    ∀ t, dstPos + t ≤ dst.length →
      ∃ dst', moveByOne dst copyFrom dstPos t = some dst' ∧ Copied dst dst' copyFrom dstPos t
  | 0, _ => ⟨dst, rfl, rfl, fun _ _ => rfl, fun k hk => absurd hk (Nat.not_lt_zero k)⟩
  | t + 1, ht => by
    obtain ⟨dst', hmove, hc⟩ := moveByOne_spec dst hle t (by omega)
    have hlen := hc.length
    have hread : copyFrom + t < dst'.length := by omega
    have hwrite : dstPos + t < dst'.length := by omega
    refine ⟨dst'.set (dstPos + t) dst'[copyFrom + t], ?_, ?_, ?_, ?_⟩
    · unfold moveByOne at hmove ⊢
      rw [range_succ, foldlM_append, hmove]
      simp [getElem?_eq_getElem hread, writeAt_eq hwrite]
    · rw [length_set, hlen]
    · intro j hj
      rw [getElem?_set_ne (by omega), hc.before j hj]
    · intro k hk
      rcases Nat.lt_succ_iff_lt_or_eq.mp hk with hk | rfl
      · rw [getElem?_set_ne (by omega), getElem?_set_ne (by omega), hc.target k hk]
      · rw [getElem?_set_self hwrite]
        by_cases heq : copyFrom = dstPos
        · subst heq
          rw [getElem?_set_self hwrite]
        · rw [getElem?_set_ne (by omega), getElem?_eq_getElem hread]

theorem copyWithin_spec {dst : Bytes} {copyFrom dstPos t : Nat} (hgap : copyFrom + t ≤ dstPos)
    (hlen : dstPos + t ≤ dst.length) :
    ∃ dst', copyWithin dst copyFrom dstPos t = some dst' ∧ Copied dst dst' copyFrom dstPos t := by
  have hslice : slice dst copyFrom (copyFrom + t) = some ((dst.drop copyFrom).take t) := by
    rw [slice_eq (Nat.le_add_right copyFrom t) (by omega), Nat.add_sub_cancel_left]
  have hchunk : ((dst.drop copyFrom).take t).length = t := by
    rw [length_take, length_drop]
    omega
  have htake : (dst.take dstPos).length = dstPos := by
    rw [length_take]
    omega
  have hbefore : ∀ j < dstPos,
      (dst.take dstPos ++ (dst.drop copyFrom).take t ++ dst.drop (dstPos + t))[j]? = dst[j]? := by
    intro j hj
    rw [append_assoc, getElem?_append_left (by omega), getElem?_take_of_lt hj]
  refine ⟨dst.take dstPos ++ (dst.drop copyFrom).take t ++ dst.drop (dstPos + t), ?_, ?_,
    hbefore, ?_⟩
  · simp [copyWithin, hslice, hlen]
  · simp only [length_append, htake, hchunk, length_drop]
    omega
  · intro k hk
    rw [hbefore (copyFrom + k) (by omega), append_assoc,
      getElem?_append_right (by omega), htake, Nat.add_sub_cancel_left,
      getElem?_append_left (by omega), getElem?_take_of_lt hk, getElem?_drop]

/-- Either copy the source chooses does the same. -/
theorem copy_spec {dst : Bytes} {copyFrom dstPos t : Nat} (hle : copyFrom ≤ dstPos)
    (hlen : dstPos + t ≤ dst.length) :
    ∃ dst', (if dstPos - copyFrom < t then moveByOne dst copyFrom dstPos t
        else copyWithin dst copyFrom dstPos t) = some dst' ∧
      Copied dst dst' copyFrom dstPos t := by
  by_cases h : dstPos - copyFrom < t
  · rw [if_pos h]
    exact moveByOne_spec dst hle t hlen
  · rw [if_neg h]
    exact copyWithin_spec (by omega) hlen

/-! ## The loop never panics -/

/-- The output buffer keeps its size and is never overrun. -/
structure Decoder.Fits (outSize : Nat) (s : Decoder) : Prop where
  length : s.dst.length = outSize
  dstPos : s.dstPos ≤ outSize

/-- What a branch may do: stop or go on, with the buffer intact and, if it goes
on, more input consumed. -/
def StepOk (src : Bytes) (outSize pos : Nat) (r : Decoder × Option DecompressResult) : Prop :=
  r.1.Fits outSize ∧ (r.2 = none → pos < r.1.pos ∧ r.1.pos < src.length)

section Safety

variable {src : Bytes} {outSize : Nat} {s : Decoder} {pos : Nat}

theorem afterLiteral_ok (h : s.Fits outSize) (hpos : pos < s.pos) :
    ∃ r, afterLiteral src s = some r ∧ StepOk src outSize pos r := by
  unfold afterLiteral
  by_cases hend : src.length ≤ s.pos
  · exact ⟨_, if_pos hend, h, fun hn => by cases hn⟩
  · rw [if_neg hend]
    by_cases hlag : s.lastHashed < (s.dstPos : Int) - 3
    · obtain ⟨s', hrec, hsame, -⟩ := s.recordNext_spec
      refine ⟨(s', none), by rw [if_pos hlag, hrec, map_some], ⟨?_, ?_⟩, fun _ => ?_⟩
      · rw [hsame.dst, h.length]
      · rw [hsame.dstPos]
        exact h.dstPos
      · show pos < s'.pos ∧ s'.pos < src.length
        rw [hsame.pos]
        omega
    · exact ⟨_, if_neg hlag, h, fun _ => ⟨hpos, Nat.lt_of_not_le hend⟩⟩

theorem literal_ok (h : s.Fits outSize) (hpos : s.pos < src.length) :
    ∃ r, literal src outSize s = some r ∧ StepOk src outSize s.pos r := by
  unfold literal
  by_cases hfull : outSize ≤ s.dstPos
  · exact ⟨_, if_pos hfull, h, fun hn => by cases hn⟩
  · have hlt : s.dstPos < s.dst.length := by
      rw [h.length]
      omega
    rw [if_neg hfull, getElem?_eq_getElem hpos, bind_some, writeAt_eq hlt, bind_some]
    refine afterLiteral_ok ⟨?_, ?_⟩ (Nat.lt_succ_self s.pos)
    · rw [length_set, h.length]
    · exact Nat.lt_of_not_le hfull

theorem afterCopy_ok (h : s.Fits outSize) {t : Nat} (hpos : pos < s.pos)
    (ht : s.dstPos + t ≤ outSize) :
    ∃ r, afterCopy src t s = some r ∧ StepOk src outSize pos r := by
  unfold afterCopy
  by_cases hend : src.length ≤ s.pos
  · exact ⟨_, if_pos hend, h, fun hn => by cases hn⟩
  · obtain ⟨s', hrec, hsame, -⟩ := Decoder.recordMany_spec (s.dstPos - s.lastHashed).toNat s
    rw [if_neg hend, hrec, map_some]
    refine ⟨_, rfl, ⟨?_, ?_⟩, fun _ => ?_⟩
    · show s'.dst.length = outSize
      rw [hsame.dst, h.length]
    · show s'.dstPos + t ≤ outSize
      rw [hsame.dstPos]
      exact ht
    · show pos < s'.pos ∧ s'.pos < src.length
      rw [hsame.pos]
      omega

theorem copyRef_ok (h : s.Fits outSize) (hpos : pos < s.pos) (hIdx t : Nat) :
    ∃ r, copyRef src outSize hIdx t s = some r ∧ StepOk src outSize pos r := by
  unfold copyRef
  by_cases hover : outSize < s.dstPos + t
  · exact ⟨_, if_pos hover, h, fun hn => by cases hn⟩
  · by_cases hbad : s.dst.length < s.offset hIdx + t ∨ s.dstPos < s.offset hIdx
    · refine ⟨(s, some .corrupt), ?_, h, fun hn => by cases hn⟩
      simp only [if_neg hover, if_pos hbad]
    · have hlen := h.length
      have hle : s.offset hIdx ≤ s.dstPos := by omega
      have hroom : s.dstPos + t ≤ s.dst.length := by omega
      obtain ⟨dst', hcopy, hc⟩ := copy_spec hle hroom
      simp only [if_neg hover, if_neg hbad, hcopy, bind_some]
      refine afterCopy_ok (s := { s with dst := dst' }) ⟨?_, h.dstPos⟩ hpos
        (Nat.le_of_not_lt hover)
      rw [hc.length, hlen]

theorem backRef_ok (h : s.Fits outSize) :
    ∃ r, backRef src outSize s = some r ∧ StepOk src outSize s.pos r := by
  unfold backRef
  by_cases hshort : src.length < s.pos + 2
  · exact ⟨_, if_pos hshort, h, fun hn => by cases hn⟩
  · rw [if_neg hshort, slice_eq (by omega) (by omega), map_some, bind_some]
    generalize readU16 ((src.drop s.pos).take (s.pos + 2 - s.pos)) = hWord
    have hfits : Decoder.Fits outSize { s with pos := s.pos + 2 } := ⟨h.length, h.dstPos⟩
    by_cases ht : (hWord &&& 15).toNat + 2 = 2
    · simp only [if_pos ht]
      by_cases hend : src.length ≤ s.pos + 2
      · exact ⟨_, if_pos hend, hfits, fun hn => by cases hn⟩
      · rw [if_neg hend, getElem?_eq_getElem (Nat.lt_of_not_le hend), bind_some]
        exact copyRef_ok (s := { s with pos := s.pos + 2 + 1 }) ⟨h.length, h.dstPos⟩
          (by show s.pos < s.pos + 2 + 1; omega) _ _
    · simp only [if_neg ht]
      exact copyRef_ok hfits (by show s.pos < s.pos + 2; omega) _ _

/-- With enough iterations left the loop ends, inside its buffers. -/
theorem decodeLoop_ok : ∀ {n : Nat} {s : Decoder} (ctl : Option (UInt32 × UInt32)),
    s.Fits outSize → s.pos ≤ src.length → src.length < s.pos + n →
    ∃ r, decodeLoop src outSize n ctl s = some r ∧ r.1.length = outSize
  | 0, s, ctl, h, hpos, hn => absurd hn (by omega)
  | n + 1, s, none, h, hpos, hn => by
    unfold decodeLoop
    by_cases hword : s.pos + 4 ≤ src.length
    · rw [if_pos hword, wordAt_eq hword, bind_some]
      exact decodeLoop_ok (s := { s with pos := s.pos + 4 }) _ ⟨h.length, h.dstPos⟩ hword
        (by show src.length < s.pos + 4 + n; omega)
    · exact ⟨_, if_neg hword, h.length⟩
  | n + 1, s, some (cw, cwbit), h, hpos, hn => by
    unfold decodeLoop
    by_cases hmore : s.pos < src.length
    · have hstep : ∃ r, (if cw &&& cwbit = 0 then literal src outSize s
          else backRef src outSize s) = some r ∧ StepOk src outSize s.pos r := by
        split
        · exact literal_ok h hmore
        · exact backRef_ok h
      obtain ⟨⟨s', stop⟩, hr, hfits, hgo⟩ := hstep
      rw [if_pos hmore, hr, bind_some]
      cases stop with
      | some result => exact ⟨_, rfl, hfits.length⟩
      | none =>
        obtain ⟨hlt, hin⟩ := hgo rfl
        have hpos' : s.pos < s'.pos := hlt
        exact decodeLoop_ok _ hfits (Nat.le_of_lt hin) (by show src.length < s'.pos + n; omega)
    · exact ⟨_, if_neg hmore, h.length⟩

theorem decompressBody_ok (hpos : pos ≤ src.length) (outSize maxOutput : Nat) :
    ∃ r, decompressBody src pos outSize maxOutput = some r := by
  unfold decompressBody
  by_cases hcap : maxOutput < outSize
  · exact ⟨_, if_pos hcap⟩
  · have hfits : Decoder.Fits outSize ⟨pos, 0, -1, List.replicate outSize 0, fun _ => 0⟩ :=
      ⟨length_replicate, Nat.zero_le _⟩
    have hfuel : src.length < pos + (src.length + 1) := by omega
    obtain ⟨r, hloop, -⟩ := decodeLoop_ok none hfits hpos hfuel
    rw [if_neg hcap, decompressInner, hloop]
    exact ⟨_, rfl⟩

end Safety

/-- **The decompressor never panics**, whatever the input and the cap. -/
theorem decompressBounded_isSome (src : Bytes) (maxOutput : Nat) :
    (decompressBounded src maxOutput).isSome := by
  unfold decompressBounded
  by_cases hshort : src.length < 2
  · simp [hshort]
  · have h2 : 2 ≤ src.length := Nat.le_of_not_lt hshort
    rw [if_neg hshort, slice_eq (by omega) h2, map_some, bind_eq_bind,
      bind_some]
    generalize readU16 ((src.drop 0).take (2 - 0)) = firstWord
    by_cases h0 : firstWord = 0
    · simp [h0]
    · rw [if_neg h0]
      by_cases hbig : firstWord &&& 0x8000 ≠ 0
      · rw [if_pos hbig]
        by_cases hshort4 : src.length < 4
        · simp [hshort4]
        · have h4 : 4 ≤ src.length := Nat.le_of_not_lt hshort4
          rw [if_neg hshort4, slice_eq (by omega) h4, map_some, bind_some]
          obtain ⟨r, hr⟩ := decompressBody_ok h4 ((firstWord &&& 0x7FFF).toNat |||
            ((readU16 ((src.drop 2).take (4 - 2))).toNat <<< 15)) maxOutput
          rw [hr]
          rfl
      · rw [if_neg hbig]
        obtain ⟨r, hr⟩ := decompressBody_ok h2 firstWord.toNat maxOutput
        rw [hr]
        rfl

/-- `synlz_decompress_bounded` without the panics, which do not occur. -/
def synlzDecompressBounded (src : Bytes) (maxOutput : Nat) : Option Bytes :=
  (decompressBounded src maxOutput).get (decompressBounded_isSome src maxOutput)

/-- `synlz_decompress`. -/
def synlzDecompress (src : Bytes) : Option Bytes :=
  synlzDecompressBounded src maxDecompressedSize

/-- `mp_decompress`. -/
def mpDecompress (data : Bytes) : Option Bytes := synlzDecompress data

end MoonProto.SynLZ
