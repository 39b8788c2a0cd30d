import MoonProto.Compression.Decoder

/-!
# SynLZ round trip

Compressor and decompressor keep a table each of where a hashed word was seen
last. The compressor records every position it stands on; the decompressor
records the same positions, but up to three bytes later, when the bytes are
there. `Tables` relates the two, `Replays` says what the decompressor makes of
the rest of a stream, and the induction over the main loop of the compressor
carries both.
-/

namespace MoonProto.SynLZ

open Codec FlagStream List Option Function

/-! ## Hashes see three bytes -/

/-- The low 24 bits of a word. -/
def low (v : UInt32) : Nat := v.toNat % 2 ^ 24

/-- The word at a position inside the buffer. -/
def word (buf : Bytes) (i : Nat) : UInt32 := readU32 ((buf.drop i).take 4)

theorem hash_eq (v : UInt32) : hash v = (low v / 2 ^ 12) ^^^ (low v % 2 ^ 12) := by
  unfold hash low
  rw [UInt32.toNat_and, UInt32.toNat_xor, UInt32.toNat_shiftRight]
  show (v.toNat >>> 12 ^^^ v.toNat) &&& (2 ^ 12 - 1) = _
  rw [Nat.and_two_pow_sub_one_eq_mod, Nat.xor_mod_two_pow, Nat.shiftRight_eq_div_pow]
  congr 1
  · omega
  · omega

theorem hash_lt (v : UInt32) : hash v < 4096 := by
  rw [hash_eq]
  refine Nat.xor_lt_two_pow (n := 12) ?_ (Nat.mod_lt _ (by decide))
  have : low v < 2 ^ 24 := Nat.mod_lt _ (by decide)
  omega

/-- The test of the compressor: the cached word has the same three bytes. -/
theorem xor_low_eq_zero (v w : UInt32) : (v ^^^ w) &&& 0x00FFFFFF = 0 ↔ low v = low w := by
  rw [← UInt32.toNat_inj, UInt32.toNat_and, UInt32.toNat_xor]
  show (v.toNat ^^^ w.toNat) &&& (2 ^ 24 - 1) = 0 ↔ _
  rw [Nat.and_two_pow_sub_one_eq_mod, Nat.xor_mod_two_pow]
  exact Nat.xor_eq_zero_iff

variable {buf src : Bytes} {items : List Item} {pos : Nat} {first : UInt16}

theorem low_word {i : Nat} (h : i + 4 ≤ buf.length) :
    low (word buf i) = buf[i].toNat + 256 * buf[i + 1].toNat + 65536 * buf[i + 2].toNat := by
  have hdrop : (buf.drop i).take 4 = [buf[i], buf[i + 1], buf[i + 2], buf[i + 3]] := by
    rw [drop_eq_getElem_cons (by omega), drop_eq_getElem_cons (by omega),
      drop_eq_getElem_cons (by omega), drop_eq_getElem_cons (by omega)]
    rfl
  have h0 := buf[i].toNat_lt
  have h1 := buf[i + 1].toNat_lt
  have h2 := buf[i + 2].toNat_lt
  have h3 := buf[i + 3].toNat_lt
  unfold low word readU32
  rw [hdrop, UInt32.toNat_ofNat']
  simp only [leDecode]
  omega

theorem low_word_congr {buf' : Bytes} {i j : Nat} (hi : i + 4 ≤ buf.length)
    (hj : j + 4 ≤ buf'.length) (h : ∀ k < 3, buf[i + k]? = buf'[j + k]?) :
    low (word buf i) = low (word buf' j) := by
  have h0 := h 0 (by decide)
  have h1 := h 1 (by decide)
  have h2 := h 2 (by decide)
  rw [getElem?_eq_getElem (by omega), getElem?_eq_getElem (by omega),
    some_inj] at h0 h1 h2
  rw [low_word hi, low_word hj, h1, h2]
  simp only [Nat.add_zero] at h0
  rw [h0]

theorem bytes_eq_of_low_word {i j : Nat} (hi : i + 4 ≤ buf.length)
    (hj : j + 4 ≤ buf.length) (h : low (word buf i) = low (word buf j)) :
    ∀ k < 3, buf[i + k]? = buf[j + k]? := by
  rw [low_word hi, low_word hj] at h
  have b0 := buf[i].toNat_lt
  have b1 := buf[i + 1].toNat_lt
  have b2 := buf[i + 2].toNat_lt
  have c0 := buf[j].toNat_lt
  have c1 := buf[j + 1].toNat_lt
  have c2 := buf[j + 2].toNat_lt
  intro k hk
  rw [getElem?_eq_getElem (by omega), getElem?_eq_getElem (by omega), some_inj,
    ← UInt8.toNat_inj]
  rcases k with _ | _ | _ | k
  · simp only [Nat.add_zero]
    omega
  · simp only [Nat.zero_add]
    omega
  · simp only [Nat.zero_add, Nat.reduceAdd]
    omega
  · omega

theorem hash_congr {v w : UInt32} (h : low v = low w) : hash v = hash w := by
  rw [hash_eq, hash_eq, h]

/-! ## The two tables -/

/-- The compressor's table `offC`, complete up to `p`, against the
decompressor's table `offD`, complete up to `lh`. No position inside the last
back-reference, which ends at `e`, was recorded. -/
structure Tables (inp : Bytes) (p e : Nat) (offC : Nat → Option Nat) (offD : Nat → Nat)
    (lh : Int) : Prop where
  own : ∀ h o, offC h = some o → o < p ∧ hash (word inp o) = h ∧ ((o : Int) ≤ lh → offD h = o)
  newest : ∀ q, e ≤ q → q < p → ∃ o, offC (hash (word inp q)) = some o ∧ q ≤ o
  front : (e : Int) - 1 ≤ lh

namespace Tables

variable {inp : Bytes} {p e : Nat} {offC : Nat → Option Nat} {offD : Nat → Nat} {lh : Int}

theorem visit (h : Tables inp p e offC offD lh) (hp : lh < p) :
    Tables inp (p + 1) e (Function.update offC (hash (word inp p)) (some p)) offD lh where
  own := by
    intro k o hk
    by_cases heq : k = hash (word inp p)
    · subst heq
      rw [update_self, some_inj] at hk
      subst hk
      exact ⟨Nat.lt_succ_self _, rfl, fun hle => absurd hle (by omega)⟩
    · rw [update_of_ne heq] at hk
      obtain ⟨h1, h2, h3⟩ := h.own k o hk
      exact ⟨by omega, h2, h3⟩
  newest := by
    intro q heq hq
    by_cases hh : hash (word inp q) = hash (word inp p)
    · exact ⟨p, by rw [hh, update_self], by omega⟩
    · have hne : q ≠ p := fun h => hh (by rw [h])
      rw [update_of_ne hh]
      exact h.newest q heq (by omega)
  front := h.front

theorem record (h : Tables inp p e offC offD lh) {q : Nat} (hq : lh + 1 = q) (hp : q < p) :
    Tables inp p e offC (Function.update offD (hash (word inp q)) q) q where
  own := by
    intro k o hk
    obtain ⟨h1, h2, h3⟩ := h.own k o hk
    refine ⟨h1, h2, fun hle => ?_⟩
    by_cases heq : k = hash (word inp q)
    · -- the compressor's entry is at least `q`, and not beyond it here
      obtain ⟨o', ho', hge⟩ := h.newest q (by have := h.front; omega) hp
      rw [← heq, hk, some_inj] at ho'
      rw [heq, update_self]
      omega
    · rw [update_of_ne heq]
      refine h3 ?_
      have hne : o ≠ q := by
        rintro rfl
        exact heq h2.symm
      omega
  newest := h.newest
  front := by
    have := h.front
    omega

/-- Behind a back-reference both tables are complete. -/
theorem jump {q : Nat} (h : Tables inp (p + 1) e offC offD p) (hq : p < q) :
    Tables inp q q offC offD (q - 1) where
  own := by
    intro k o hk
    obtain ⟨h1, h2, h3⟩ := h.own k o hk
    exact ⟨by omega, h2, fun _ => h3 (by omega)⟩
  newest := fun r h1 h2 => absurd h1 (by omega)
  front := Int.le_refl _

end Tables

/-! ## Decoding the rest of a stream -/

/-- The decompressor has written the first `p` bytes of `inp`. -/
structure Written (inp : Bytes) (p : Nat) (d : Decoder) : Prop where
  dstPos : d.dstPos = p
  le : p ≤ inp.length
  length : d.dst.length = inp.length
  bytes : ∀ i < p, d.dst[i]? = inp[i]?

/-- Wherever the rest of a stream stands, decoding it from `d` yields `inp`. -/
def Replays (inp : Bytes) (items : List Item) (d : Decoder) : Prop :=
  ∀ (src : Bytes) (pos k m : Nat) (cw : UInt32), k < 32 → Flags cw k items →
    pos ≤ src.length → src.drop pos = body k items → src.length < pos + m →
    decodeLoop src inp.length m (some (cw, mask k)) { d with pos := pos }
      = some (inp, .ok inp.length)

theorem Written.same {inp : Bytes} {p : Nat} {d d' : Decoder} (h : Written inp p d)
    (hs : d.SameBuffer d') : Written inp p d' :=
  ⟨hs.dstPos.trans h.dstPos, h.le, by rw [hs.dst, h.length], fun i hi => by
    rw [hs.dst, h.bytes i hi]⟩

theorem Written.eq {inp : Bytes} {d : Decoder} (h : Written inp inp.length d) : d.dst = inp := by
  refine ext_getElem? fun i => ?_
  by_cases hi : i < inp.length
  · exact h.bytes i hi
  · rw [getElem?_eq_none (by rw [h.length]; omega), getElem?_eq_none (by omega)]

theorem decodeLoop_end {outSize m : Nat} {d : Decoder} (h : src.length ≤ d.pos) :
    ∀ ctl, decodeLoop src outSize (m + 1) ctl d = some (d.dst, .ok d.dstPos)
  | none => if_neg (by omega)
  | some (_, _) => if_neg (by omega)

theorem replays_nil {inp : Bytes} {d : Decoder} (h : Written inp inp.length d) :
    Replays inp [] d := by
  intro src pos k m cw hk hflags hpos hdrop hm
  have hend : src.length ≤ pos := List.drop_eq_nil_iff.mp hdrop
  obtain ⟨m, rfl⟩ : ∃ m', m = m' + 1 := ⟨m - 1, by omega⟩
  rw [decodeLoop_end hend]
  show some (d.dst, DecompressResult.ok d.dstPos) = _
  rw [h.eq, h.dstPos]

/-- The loop behind an item: the next position of the same word, or the next
word. -/
theorem Replays.continue {inp : Bytes} {d : Decoder}
    (h : Replays inp items d) {k m : Nat} {cw : UInt32} {t : Item} (hk : k < 32)
    (hflags : Flags cw k (t :: items)) (hpos : pos ≤ src.length)
    (hdrop : src.drop pos = if k < 31 then body (k + 1) items
      else u32Bytes (controlWord 0 items) ++ body 0 items)
    (hm : src.length < pos + m) :
    decodeLoop src inp.length m
        (if mask k <<< 1 = 0 then none else some (cw, mask k <<< 1)) { d with pos := pos }
      = some (inp, .ok inp.length) := by
  by_cases hlast : k < 31
  · rw [mask_shiftLeft_one k hk, if_pos hlast, if_neg (mask_ne_zero (by omega))]
    rw [if_pos hlast] at hdrop
    exact h src pos (k + 1) m cw (by omega) (hflags.tail hlast) hpos hdrop hm
  · rw [mask_shiftLeft_one k hk, if_neg hlast, if_pos rfl]
    rw [if_neg hlast] at hdrop
    have hlen := congrArg List.length hdrop
    rw [length_drop, length_append, u32Bytes_length] at hlen
    have hword : pos + 4 ≤ src.length := by omega
    obtain ⟨m, rfl⟩ : ∃ m', m = m' + 1 := ⟨m - 1, by omega⟩
    have hcw : wordAt src pos = some (controlWord 0 items) := by
      rw [wordAt_eq hword, hdrop, take_append_of_le_length (by simp),
        take_of_length_le (by simp), readU32_u32Bytes]
    unfold decodeLoop
    simp only [if_pos hword, hcw, bind_some]
    refine h src (pos + 4) 0 m (controlWord 0 items) (by decide) (flags_controlWord 0 items)
      hword ?_ (by omega)
    rw [← drop_drop, hdrop, drop_append_of_le_length (by simp),
      drop_of_length_le (by simp), nil_append]

/-- If the input ends behind an item, everything was written. -/
theorem Replays.written_of_end {inp : Bytes} {d : Decoder}
    (h : Replays inp items d) {k m : Nat} {cw : UInt32} {t : Item} (hk : k < 32)
    (hflags : Flags cw k (t :: items)) (hpos : pos ≤ src.length)
    (hdrop : src.drop pos = if k < 31 then body (k + 1) items
      else u32Bytes (controlWord 0 items) ++ body 0 items)
    (hm : src.length < pos + m) (hend : src.length ≤ pos) :
    d.dst = inp ∧ d.dstPos = inp.length := by
  have hrun := h.continue hk hflags hpos hdrop hm
  obtain ⟨m, rfl⟩ : ∃ m', m = m' + 1 := ⟨m - 1, by omega⟩
  rw [decodeLoop_end (d := { d with pos := pos }) hend, some_inj, Prod.mk.injEq,
    DecompressResult.ok.injEq] at hrun
  exact hrun

/-! ## A literal -/

/-- Write one byte. -/
def put (d : Decoder) (b : UInt8) : Decoder :=
  { d with dst := d.dst.set d.dstPos b, dstPos := d.dstPos + 1 }

/-- The hash update behind a literal. -/
def settle (d : Decoder) : Option Decoder :=
  if d.lastHashed < (d.dstPos : Int) - 3 then d.recordNext else some d

theorem recordNext_pos (d : Decoder) (pos : Nat) :
    Decoder.recordNext { d with pos := pos }
      = d.recordNext.map fun d' => { d' with pos := pos } := by
  unfold Decoder.recordNext
  simp only
  split
  · cases wordAt d.dst (d.lastHashed + 1).toNat <;> rfl
  · rfl

theorem recordMany_pos (pos : Nat) : ∀ (n : Nat) (d : Decoder),
    Decoder.recordMany n { d with pos := pos }
      = (d.recordMany n).map fun d' => { d' with pos := pos }
  | 0, _ => rfl
  | n + 1, d => by
    rw [Decoder.recordMany, recordNext_pos, Decoder.recordMany]
    cases d.recordNext with
    | none => rfl
    | some d' => exact recordMany_pos pos n d'

theorem settle_spec (d : Decoder) : ∃ d', settle d = some d' ∧ d.SameBuffer d' := by
  unfold settle
  split
  · obtain ⟨d', hrec, hsame, -⟩ := d.recordNext_spec
    exact ⟨d', hrec, hsame⟩
  · exact ⟨d, rfl, Decoder.SameBuffer.refl d⟩

theorem afterLiteral_eq {d d' : Decoder} (h : settle d = some d') (hpos : pos < src.length) :
    afterLiteral src { d with pos := pos } = some ({ d' with pos := pos }, none) := by
  unfold afterLiteral
  rw [if_neg (by show ¬ src.length ≤ pos; omega)]
  unfold settle at h
  by_cases hlag : d.lastHashed < (d.dstPos : Int) - 3
  · rw [if_pos hlag] at h
    rw [if_pos hlag, recordNext_pos, h]
    rfl
  · rw [if_neg hlag, some_inj] at h
    rw [if_neg hlag, h]

theorem Written.put {inp : Bytes} {p : Nat} {d : Decoder} (h : Written inp p d) {b : UInt8}
    (hb : inp[p]? = some b) : Written inp (p + 1) (put d b) := by
  obtain ⟨hp, hpb⟩ := List.getElem?_eq_some_iff.mp hb
  refine ⟨congrArg (· + 1) h.dstPos, hp, ?_, ?_⟩
  · show (d.dst.set d.dstPos b).length = _
    rw [length_set, h.length]
  · intro i hi
    show (d.dst.set d.dstPos b)[i]? = _
    rw [h.dstPos]
    rcases Nat.lt_succ_iff_lt_or_eq.mp hi with hlt | rfl
    · rw [getElem?_set_ne (by omega), h.bytes i hlt]
    · rw [getElem?_set_self (by rw [h.length]; exact hp), hb]

/-- **A literal in front of a stream.** -/
theorem Replays.literal {inp : Bytes} {p : Nat} {d d' : Decoder} {b : UInt8}
    (hw : Written inp p d) (hb : inp[p]? = some b) (hd' : settle (put d b) = some d')
    (h : Replays inp items d') : Replays inp ((false, [b]) :: items) d := by
  intro src pos k m cw hk hflags hpos hdrop hm
  obtain ⟨hp, -⟩ := List.getElem?_eq_some_iff.mp hb
  have hrest : src.drop (pos + 1) = if k < 31 then body (k + 1) items
      else u32Bytes (controlWord 0 items) ++ body 0 items := by
    rw [← drop_drop, hdrop]
    rfl
  have hread : src[pos]? = some b := by
    rw [← Nat.add_zero pos, ← getElem?_drop, hdrop]
    rfl
  have hmore : pos < src.length := (List.getElem?_eq_some_iff.mp hread).1
  have hflag : cw &&& mask k = 0 := by
    by_contra hne
    have := (and_mask_ne_zero cw hk).mp hne
    rw [hflags.head hk] at this
    exact Bool.noConfusion this
  have hsame : (put d b).SameBuffer d' := by
    obtain ⟨d'', hd'', hs⟩ := settle_spec (put d b)
    rw [hd', some_inj] at hd''
    exact hd'' ▸ hs
  obtain ⟨m, rfl⟩ : ∃ m', m = m' + 1 := ⟨m - 1, by omega⟩
  have hdst : d.dstPos < d.dst.length := by rw [hw.dstPos, hw.length]; exact hp
  have hroom : ¬ inp.length ≤ d.dstPos := by rw [hw.dstPos]; omega
  have hlit : SynLZ.literal src inp.length { d with pos := pos }
      = afterLiteral src { put d b with pos := pos + 1 } := by
    unfold SynLZ.literal
    simp only [if_neg hroom, hread, bind_some, writeAt_eq hdst]
    rfl
  unfold decodeLoop
  simp only [if_pos hmore, if_pos hflag, hlit]
  by_cases hend : src.length ≤ pos + 1
  · -- the literal was the last byte of the input
    obtain ⟨hdone, hlen⟩ := h.written_of_end (m := m) hk hflags hmore hrest (by omega) hend
    unfold afterLiteral
    rw [if_pos (show src.length ≤ ({ put d b with pos := pos + 1 } : Decoder).pos from hend)]
    show some ((put d b).dst, DecompressResult.ok (put d b).dstPos) = _
    rw [← hsame.dst, ← hsame.dstPos, hdone, hlen]
  · rw [afterLiteral_eq hd' (Nat.lt_of_not_le hend), bind_some]
    exact h.continue hk hflags hmore hrest (by omega)

/-! ## A back-reference -/

theorem and_fifteen (x : UInt16) : (x &&& 15).toNat = x.toNat % 16 := by
  rw [UInt16.toNat_and]
  exact Nat.and_two_pow_sub_one_eq_mod x.toNat 4

theorem shiftRight_four (x : UInt16) : (x >>> 4).toNat = x.toNat / 16 := by
  rw [UInt16.toNat_shiftRight]
  exact Nat.shiftRight_eq_div_pow _ 4

theorem toNat_ofNat16 {n : Nat} (hn : n < 65536) : (UInt16.ofNat n).toNat = n := by
  rw [UInt16.toNat_ofNat']
  exact Nat.mod_eq_of_lt hn

theorem ofNat_shiftLeft_four {h : Nat} (hh : h < 4096) : (UInt16.ofNat h <<< 4).toNat = 16 * h := by
  rw [UInt16.toNat_shiftLeft, toNat_ofNat16 (by omega)]
  show h <<< 4 % 2 ^ 16 = _
  rw [Nat.shiftLeft_eq]
  omega

theorem ofNat_or_shiftLeft {h t : Nat} (hh : h < 4096) (ht : t ≤ 15) :
    (UInt16.ofNat t ||| UInt16.ofNat h <<< 4).toNat = 16 * h + t := by
  rw [UInt16.toNat_or, ofNat_shiftLeft_four hh, toNat_ofNat16 (by omega), Nat.or_comm]
  exact (Nat.two_pow_add_eq_or_of_lt (i := 4) (by omega) h).symm

/-- The header of a back-reference reads back, in front of anything. -/
theorem backRef_backRefBytes {rest : Bytes} {outSize h t : Nat} {d : Decoder}
    (hh : h < 4096) (ht : 1 ≤ t) (ht' : t ≤ 271)
    (hdrop : src.drop pos = backRefBytes h t ++ rest) :
    backRef src outSize { d with pos := pos }
      = copyRef src outSize h (t + 2) { d with pos := pos + (backRefBytes h t).length } := by
  have hlen := congrArg List.length hdrop
  rw [length_drop, length_append] at hlen
  have h2 : 2 ≤ (backRefBytes h t).length := by
    unfold backRefBytes
    simp only
    split <;> simp
  have hshort : ¬ src.length < pos + 2 := by omega
  have htake : slice src pos (pos + 2) = some ((src.drop pos).take 2) := by
    rw [slice_eq (by omega) (by omega), Nat.add_sub_cancel_left]
  unfold backRef
  simp only [if_neg hshort, htake, map_some, bind_some]
  unfold backRefBytes at hdrop ⊢
  by_cases hsmall : t ≤ 15
  · have hval := ofNat_or_shiftLeft hh hsmall
    simp only [if_pos hsmall] at hdrop ⊢
    have hhead : (src.drop pos).take 2 = u16Bytes (UInt16.ofNat t ||| UInt16.ofNat h <<< 4) := by
      rw [hdrop, take_append_of_le_length (by simp), take_of_length_le (by simp)]
    rw [hhead, readU16_u16Bytes, and_fifteen, shiftRight_four, hval, if_neg (by omega),
      show (16 * h + t) / 16 = h by omega, show (16 * h + t) % 16 = t by omega, u16Bytes_length]
  · have hval := ofNat_shiftLeft_four hh
    simp only [if_neg hsmall] at hdrop ⊢
    have hhead : (src.drop pos).take 2 = u16Bytes (UInt16.ofNat h <<< 4) := by
      rw [hdrop, append_assoc, take_append_of_le_length (by simp),
        take_of_length_le (by simp)]
    have hnext : src[pos + 2]? = some (UInt8.ofNat (t - 16)) := by
      rw [← getElem?_drop, hdrop, append_assoc, getElem?_append_right (by simp)]
      simp
    have hin : ¬ src.length ≤ pos + 2 := by
      have := (List.getElem?_eq_some_iff.mp hnext).1
      omega
    have hbyte : (UInt8.ofNat (t - 16)).toNat = t - 16 :=
      UInt8.toNat_ofNat_of_lt (by show t - 16 < 256; omega)
    rw [hhead, readU16_u16Bytes, and_fifteen, shiftRight_four, hval,
      show 16 * h / 16 = h by omega, if_pos (by omega), if_neg hin, hnext, bind_some, hbyte,
      show t - 16 + 18 = t + 2 by omega, length_append, u16Bytes_length]
    rfl

theorem Copied.bytes {inp dst dst' : Bytes} {o p t : Nat} (hc : Copied dst dst' o p t)
    (ho : o < p) (hbytes : ∀ i < p, dst[i]? = inp[i]?)
    (hmatch : ∀ k < t, inp[o + k]? = inp[p + k]?) :
    ∀ i < p + t, dst'[i]? = inp[i]? := by
  intro i
  induction i using Nat.strong_induction_on with
  | _ i ih =>
    intro hi
    by_cases hip : i < p
    · rw [hc.before i hip, hbytes i hip]
    · obtain ⟨k, rfl⟩ : ∃ k, i = p + k := ⟨i - p, by omega⟩
      rw [hc.target k (by omega), ih (o + k) (by omega) (by omega), hmatch k (by omega)]

/-- The decompressor behind a back-reference. -/
def jumpTo (d : Decoder) (p : Nat) : Decoder := { d with dstPos := p, lastHashed := (p : Int) - 1 }

/-- **A back-reference in front of a stream.** -/
theorem Replays.backRef {inp : Bytes} {p o h t : Nat} {d d' : Decoder} {dst' : Bytes}
    (hw : Written inp p d) (hoff : d.offset h = o) (ho : o < p)
    (hh : h < 4096) (ht : 1 ≤ t) (ht' : t ≤ 271) (hroom : p + (t + 2) < inp.length)
    (hcopy : (if p - o < t + 2 then moveByOne d.dst o p (t + 2)
      else copyWithin d.dst o p (t + 2)) = some dst')
    (hrec : Decoder.recordMany (p - d.lastHashed).toNat { d with dst := dst' } = some d')
    (hrep : Replays inp items (jumpTo d' (p + (t + 2)))) :
    Replays inp ((true, backRefBytes h t) :: items) d := by
  intro src pos k m cw hk hflags hpos hdrop hm
  have hrest : src.drop (pos + (backRefBytes h t).length) = if k < 31 then body (k + 1) items
      else u32Bytes (controlWord 0 items) ++ body 0 items := by
    rw [← drop_drop, hdrop]
    exact drop_left
  have hlen := congrArg List.length hdrop
  have h2 : 2 ≤ (backRefBytes h t).length := by
    unfold backRefBytes
    simp only
    split <;> simp
  have hpos' : pos + (backRefBytes h t).length ≤ src.length := by
    rw [length_drop] at hlen
    simp only [body, length_append] at hlen
    omega
  have hmore : pos < src.length := by omega
  have hflag : ¬ cw &&& mask k = 0 := (and_mask_ne_zero cw hk).mpr (hflags.head hk)
  obtain ⟨m, rfl⟩ : ∃ m', m = m' + 1 := ⟨m - 1, by omega⟩
  -- something follows: the stream is not complete yet
  have hmore' : ¬ src.length ≤ pos + (backRefBytes h t).length := by
    intro hend
    obtain ⟨-, hfull⟩ := hrep.written_of_end (m := m) hk hflags hpos' hrest (by omega) hend
    have : p + (t + 2) = inp.length := hfull
    omega
  have hdst := hw.dstPos
  have hdlen := hw.length
  have hstep : SynLZ.backRef src inp.length { d with pos := pos }
      = some ({ jumpTo d' (p + (t + 2)) with pos := pos + (backRefBytes h t).length }, none) := by
    rw [backRef_backRefBytes hh ht ht' hdrop]
    obtain ⟨d'', hd'', hsame, -⟩ :=
      Decoder.recordMany_spec (p - d.lastHashed).toNat { d with dst := dst' }
    rw [hrec, some_inj] at hd''
    subst hd''
    have hpos'' : d'.dstPos = p := hsame.dstPos.trans hdst
    unfold copyRef
    simp only [hoff, hdst]
    rw [if_neg (by omega), if_neg (by omega), hcopy, bind_some]
    unfold afterCopy
    simp only [if_neg hmore']
    rw [recordMany_pos (pos + (backRefBytes h t).length) (p - d.lastHashed).toNat
      { d with dst := dst', dstPos := p }]
    rw [show ({ d with dst := dst', dstPos := p } : Decoder) = { d with dst := dst' } by
      rw [← hdst], hrec]
    simp only [map_some, jumpTo, hpos'']
  unfold decodeLoop
  simp only [if_pos hmore, if_neg hflag, hstep, bind_some]
  exact hrep.continue hk hflags hpos' hrest (by omega)

/-! ## Literals up to the end -/

def literals (bs : Bytes) : List Item := bs.map fun b => (false, [b])

theorem replays_literals {inp : Bytes} : ∀ (left : Nat) {p : Nat} {d : Decoder},
    inp.length - p = left → Written inp p d → Replays inp (literals (inp.drop p)) d
  | 0, p, d, hleft, hw => by
    have hp : p = inp.length := by
      have := hw.le
      omega
    subst hp
    rw [drop_of_length_le (Nat.le_refl _)]
    exact replays_nil hw
  | left + 1, p, d, hleft, hw => by
    have hp : p < inp.length := by omega
    have hb : inp[p]? = some inp[p] := getElem?_eq_getElem hp
    obtain ⟨d', hd', hsame⟩ := settle_spec (put d inp[p])
    rw [drop_eq_getElem_cons hp]
    exact Replays.literal hw hb hd'
      (replays_literals left (by omega) ((hw.put hb).same hsame))

/-! ## Both sides in step -/

/-- The decompressor hashes a position whose three bytes are written. -/
theorem recordNext_eq {inp : Bytes} {w q : Nat} {d : Decoder} (hlen : d.dst.length = inp.length)
    (hbytes : ∀ i < w, d.dst[i]? = inp[i]?) (hq : d.lastHashed + 1 = q) (hw : q + 3 ≤ w)
    (hin : q + 4 ≤ inp.length) :
    d.recordNext = some { d with
      lastHashed := q
      offset := Function.update d.offset (hash (word inp q)) q } := by
  have hnat : (d.lastHashed + 1).toNat = q := by omega
  have hdst : q + 4 ≤ d.dst.length := by omega
  have hword : hash (word d.dst q) = hash (word inp q) :=
    hash_congr (low_word_congr hdst hin fun k hk => hbytes (q + k) (by omega))
  unfold Decoder.recordNext
  simp only [hnat, if_pos hdst, wordAt_eq hdst, bind_eq_bind, bind_some]
  rw [hq, ← hword]
  rfl

theorem recordMany_tables {inp : Bytes} {p e w : Nat} {offC : Nat → Option Nat}
    (hw : p + 2 ≤ w) (hin : p + 3 ≤ inp.length) : ∀ (n : Nat) {d : Decoder},
    d.dst.length = inp.length → (∀ i < w, d.dst[i]? = inp[i]?) →
    Tables inp p e offC d.offset d.lastHashed → d.lastHashed + n < p →
    ∃ d', d.recordMany n = some d' ∧ Tables inp p e offC d'.offset d'.lastHashed ∧
      d'.lastHashed = d.lastHashed + n ∧ d'.dst = d.dst
  | 0, d, _, _, ht, _ => ⟨d, rfl, ht, by simp, rfl⟩
  | n + 1, d, hlen, hbytes, ht, hn => by
    obtain ⟨q, hq⟩ : ∃ q : Nat, d.lastHashed + 1 = q := by
      have := ht.front
      exact ⟨(d.lastHashed + 1).toNat, by omega⟩
    have hnext := recordNext_eq hlen hbytes hq (by omega) (by omega)
    obtain ⟨d', hd', ht', hlast, hdst⟩ := recordMany_tables hw hin n
      (d := ⟨d.pos, d.dstPos, q, d.dst, Function.update d.offset (hash (word inp q)) q⟩)
      hlen hbytes (ht.record hq (by omega)) (by show (q : Int) + n < p; omega)
    refine ⟨d', ?_, ht', ?_, hdst⟩
    · rw [Decoder.recordMany, hnext, bind_some, hd']
    · rw [hlast]
      show (q : Int) + n = _
      omega

/-- Compressor and decompressor stand at the same position. -/
structure Sync (inp : Bytes) (c : Compressor) (d : Decoder) (e : Nat) : Prop where
  written : Written inp c.srcPos d
  tables : Tables inp c.srcPos e c.offset d.offset d.lastHashed
  /-- How far the decompressor's table lags behind. -/
  lag : d.lastHashed = max ((e : Int) - 1) (c.srcPos - 3)
  ends : e ≤ c.srcPos
  cached : ∀ h o, c.offset h = some o → o + 4 ≤ inp.length ∧ low (c.cache h) = low (word inp o)

theorem matchLen_spec (src : Bytes) (oPos srcPos : Nat) : ∀ (left t : Nat),
    srcPos + t + left ≤ src.length →
    ∃ t', matchLen src oPos srcPos left t = some t' ∧ t ≤ t' ∧ t' ≤ t + left ∧
      ∀ k, t ≤ k → k < t' → src[oPos + k]? = src[srcPos + k]?
  | 0, t, _ => ⟨t, rfl, Nat.le_refl t, Nat.le_refl t, fun k h1 h2 => absurd h1 (by omega)⟩
  | left + 1, t, h => by
    have hstop : ∃ t', some t = some t' ∧ t ≤ t' ∧ t' ≤ t + (left + 1) ∧
        ∀ k, t ≤ k → k < t' → src[oPos + k]? = src[srcPos + k]? :=
      ⟨t, rfl, Nat.le_refl t, Nat.le_add_right t _, fun k h1 h2 => absurd h1 (by omega)⟩
    unfold matchLen
    by_cases ho : oPos + t < src.length
    · have hs : srcPos + t < src.length := by omega
      simp only [if_pos ho, getElem?_eq_getElem ho, getElem?_eq_getElem hs, bind_eq_bind, bind_some]
      by_cases heq : src[oPos + t] = src[srcPos + t]
      · rw [if_pos heq]
        obtain ⟨t', hm, h1, h2, h3⟩ := matchLen_spec src oPos srcPos left (t + 1) (by omega)
        refine ⟨t', hm, by omega, by omega, fun k hk hk' => ?_⟩
        rcases Nat.eq_or_lt_of_le hk with rfl | hk
        · rw [getElem?_eq_getElem ho, getElem?_eq_getElem hs, heq]
        · exact h3 k hk hk'
      · rw [if_neg heq]
        exact hstop
    · rw [if_neg ho]
      exact hstop

section Round

variable {inp : Bytes} {c : Compressor} {d : Decoder} {e : Nat}

/-- What the compressor may rely on inside its main loop. -/
theorem Sync.lag_lt (h : Sync inp c d e) : d.lastHashed < c.srcPos := by
  have h1 := h.lag
  have h2 := h.ends
  omega

theorem Sync.visit_tables (h : Sync inp c d e) :
    Tables inp (c.srcPos + 1) e (c.visit (word inp c.srcPos)).offset d.offset d.lastHashed :=
  h.tables.visit h.lag_lt

theorem Sync.visit_cached (h : Sync inp c d e) (hin : c.srcPos + 4 ≤ inp.length) (k o : Nat)
    (hk : (c.visit (word inp c.srcPos)).offset k = some o) :
    o + 4 ≤ inp.length ∧ low ((c.visit (word inp c.srcPos)).cache k) = low (word inp o) := by
  simp only [Compressor.visit] at hk ⊢
  by_cases heq : k = hash (word inp c.srcPos)
  · subst heq
    rw [update_self, some_inj] at hk
    subst hk
    rw [update_self]
    exact ⟨hin, rfl⟩
  · rw [update_of_ne heq] at hk ⊢
    exact h.cached k o hk

/-- The result of one round: an item, and both sides in step behind it. -/
def RoundOk (inp : Bytes) (c : Compressor) (d : Decoder) (c' : Compressor) : Prop :=
  c.srcPos < c'.srcPos ∧ ∃ t d' e', c'.writer = c.writer.emit t ∧ Sync inp c' d' e' ∧
    ∀ items, Replays inp items d' → Replays inp (t :: items) d

theorem emitLiteral_ok (h : Sync inp c d e) (hin : c.srcPos + 4 ≤ inp.length) :
    ∃ c', (c.visit (word inp c.srcPos)).emitLiteral inp = some c' ∧ RoundOk inp c d c' := by
  have hp : c.srcPos < inp.length := by omega
  have hb : inp[c.srcPos]? = some inp[c.srcPos] := getElem?_eq_getElem hp
  have hw := h.written.put hb
  have hlag := h.lag
  have hput : (put d inp[c.srcPos]).lastHashed = d.lastHashed := rfl
  -- the decompressor hashes one position if it lags by more than two
  have hsettle : ∃ d', settle (put d inp[c.srcPos]) = some d' ∧
      Tables inp (c.srcPos + 1) e (c.visit (word inp c.srcPos)).offset d'.offset d'.lastHashed ∧
      d'.lastHashed = max ((e : Int) - 1) ((c.srcPos + 1 : Nat) - 3) ∧
      (put d inp[c.srcPos]).SameBuffer d' := by
    unfold settle
    by_cases hlt : d.lastHashed < (c.srcPos : Int) - 2
    · obtain ⟨q, hq⟩ : ∃ q : Nat, d.lastHashed + 1 = q := by
        have := h.tables.front
        exact ⟨(d.lastHashed + 1).toNat, by omega⟩
      rw [if_pos (by rw [hw.dstPos, hput]; omega),
        recordNext_eq hw.length hw.bytes hq (by omega) (by omega)]
      refine ⟨_, rfl, h.visit_tables.record hq (by omega), ?_, ⟨rfl, rfl, rfl⟩⟩
      show (q : Int) = _
      omega
    · rw [if_neg (by rw [hw.dstPos, hput]; omega)]
      refine ⟨_, rfl, h.visit_tables, ?_, Decoder.SameBuffer.refl _⟩
      rw [hput]
      omega
  obtain ⟨d', hd', htables, hlast, hsame⟩ := hsettle
  have hemit : (c.visit (word inp c.srcPos)).emitLiteral inp
      = some { c.visit (word inp c.srcPos) with
      srcPos := c.srcPos + 1
      writer := c.writer.emit (false, [inp[c.srcPos]]) } := by
    unfold Compressor.emitLiteral
    simp only [Compressor.visit, hb, map_some]
  refine ⟨_, hemit, Nat.lt_succ_self _, (false, [inp[c.srcPos]]), d', e, rfl, ?_, ?_⟩
  · exact ⟨hw.same hsame, htables, hlast, Nat.le_succ_of_le h.ends, h.visit_cached hin⟩
  · exact fun items hitems => Replays.literal h.written hb hd' hitems

theorem candidate_eq_some {o : Nat} {v : UInt32} (h : c.candidate v = some o) :
    c.offset (hash v) = some o ∧ low v = low (c.cache (hash v)) ∧ o + 2 < c.srcPos := by
  unfold Compressor.candidate at h
  obtain ⟨hoff, hcond⟩ := filter_eq_some_iff.mp h
  obtain ⟨hlow, hlt⟩ := of_decide_eq_true hcond
  exact ⟨hoff, (xor_low_eq_zero _ _).mp hlow, hlt⟩

theorem emitBackRef_ok (h : Sync inp c d e) (hmain : c.srcPos ≤ inp.length - 11) {o : Nat}
    (hcand : c.candidate (word inp c.srcPos) = some o) :
    ∃ c', (c.visit (word inp c.srcPos)).emitBackRef inp (hash (word inp c.srcPos)) o = some c' ∧
      RoundOk inp c d c' := by
  obtain ⟨hoff, hlow, hdist⟩ := candidate_eq_some hcand
  obtain ⟨hcached, hlow'⟩ := h.cached _ _ hoff
  have hlag := h.lag
  have hlt := h.lag_lt
  generalize hp : c.srcPos = p at *
  -- the compared length stays one byte short of the end
  obtain ⟨t, hmatch, ht1, ht2, hbytes⟩ := matchLen_spec inp (o + 2) (p + 2)
    (min (inp.length - (p + 2) - 1) (255 + 16) - 1) 1 (by omega)
  have hemit : (c.visit (word inp p)).emitBackRef inp (hash (word inp p)) o
      = some { c.visit (word inp p) with
          srcPos := p + 2 + t
          writer := c.writer.emit (true, backRefBytes (hash (word inp p)) t) } := by
    unfold Compressor.emitBackRef
    simp only [Compressor.visit, hp]
    rw [if_neg (by omega), hmatch, map_some]
  have hsame : ∀ k < t + 2, inp[o + k]? = inp[p + k]? := by
    intro k hk
    by_cases h3 : k < 3
    · exact bytes_eq_of_low_word hcached (by omega) (hlow'.symm.trans hlow.symm) k h3
    · have := hbytes (k - 2) (by omega) (by omega)
      rwa [show o + 2 + (k - 2) = o + k by omega, show p + 2 + (k - 2) = p + k by omega] at this
  have hw := h.written
  rw [hp] at hw
  obtain ⟨dst', hcopy, hc⟩ := @copy_spec d.dst o p (t + 2) (by omega)
    (show p + (t + 2) ≤ d.dst.length by rw [hw.length]; omega)
  have hlen' : dst'.length = inp.length := hc.length.trans hw.length
  have hbytes' := hc.bytes (by omega) hw.bytes hsame
  have htables := h.visit_tables
  rw [hp] at htables
  have hfront := h.tables.front
  obtain ⟨d', hrec, htables', hlast, hdst⟩ := recordMany_tables (w := p + (t + 2)) (by omega)
    (by omega) (p - d.lastHashed).toNat (d := { d with dst := dst' }) hlen' hbytes' htables
    (by show d.lastHashed + _ < _; omega)
  have hlast' : d'.lastHashed = p := by
    rw [hlast]
    show d.lastHashed + _ = _
    omega
  rw [hlast'] at htables'
  have hslot : d.offset (hash (word inp p)) = o := (h.tables.own _ _ hoff).2.2 (by omega)
  refine ⟨_, hemit, ?_, (true, backRefBytes (hash (word inp p)) t), jumpTo d' (p + (t + 2)),
    p + (t + 2), rfl, ?_, ?_⟩
  · show c.srcPos < p + 2 + t
    omega
  · have hpos : p + 2 + t = p + (t + 2) := by omega
    refine ⟨⟨hpos.symm, ?_, ?_, ?_⟩, ?_, ?_, ?_, ?_⟩
    · show p + 2 + t ≤ inp.length
      omega
    · show d'.dst.length = _
      rw [hdst]
      exact hlen'
    · show ∀ i < p + 2 + t, d'.dst[i]? = _
      rw [hdst, hpos]
      exact hbytes'
    · show Tables inp (p + 2 + t) (p + (t + 2)) _ d'.offset _
      rw [hpos]
      exact htables'.jump (by omega)
    · show ((p + (t + 2) : Nat) : Int) - 1 = max (((p + (t + 2) : Nat) : Int) - 1)
        (((p + 2 + t : Nat) : Int) - 3)
      omega
    · show p + (t + 2) ≤ p + 2 + t
      omega
    · have := h.visit_cached (by omega)
      rw [hp] at this
      exact this
  · exact fun items hitems => Replays.backRef hw hslot (by omega) (hash_lt _) ht1 (by omega)
      (by omega) hcopy hrec hitems

/-- **One round.** -/
theorem round_ok (h : Sync inp c d e) (hmain : c.srcPos ≤ inp.length - 11)
    (hin : c.srcPos + 3 < inp.length) :
    ∃ c', c.round inp = some c' ∧ RoundOk inp c d c' := by
  unfold Compressor.round
  rw [wordAt_eq (by omega), bind_eq_bind, bind_some]
  rw [← word]
  cases hcand : c.candidate (word inp c.srcPos) with
  | some o => exact emitBackRef_ok h hmain hcand
  | none => exact emitLiteral_ok h hin

end Round

/-! ## The whole stream -/

theorem foldl_literals (w : Writer) : ∀ bs : Bytes,
    bs.foldl (fun w b => w.emit (false, [b])) w = (literals bs).foldl Writer.emit w := by
  intro bs
  rw [literals, foldl_map]

/-- **The main loop.** What it still writes, the decompressor turns into the
rest of the input. -/
theorem mainLoop_ok {inp : Bytes} : ∀ (n : Nat) {c : Compressor} {d : Decoder} {e : Nat},
    Sync inp c d e → inp.length < c.srcPos + n →
    ∃ c' items, c.mainLoop inp n = some c' ∧ c'.finish inp = items.foldl Writer.emit c.writer ∧
      Replays inp items d
  | 0, c, d, e, h, hn => absurd h.written.le (by omega)
  | n + 1, c, d, e, h, hn => by
    unfold Compressor.mainLoop
    by_cases hmain : c.srcPos ≤ inp.length - 11 ∧ c.srcPos + 3 < inp.length
    · obtain ⟨c', hround, hlt, t, d', e', hwriter, hsync, hrep⟩ := round_ok h hmain.1 hmain.2
      obtain ⟨c'', items, hloop, hfinish, hitems⟩ := mainLoop_ok n hsync (by omega)
      refine ⟨c'', t :: items, ?_, ?_, hrep items hitems⟩
      · rw [if_pos hmain, hround, bind_some, hloop]
      · rw [hfinish, hwriter, foldl_cons]
    · refine ⟨c, literals (inp.drop c.srcPos), if_neg hmain, ?_, replays_literals _ rfl h.written⟩
      exact foldl_literals c.writer _

/-- The decompressor before the first byte. -/
def initialDecoder (size : Nat) : Decoder := ⟨0, 0, -1, List.replicate size 0, fun _ => 0⟩

theorem sync_initial (inp : Bytes) :
    Sync inp ⟨0, Writer.start (sizeHeader inp.length), fun _ => none, fun _ => 0⟩
      (initialDecoder inp.length) 0 where
  written := ⟨rfl, Nat.zero_le _, length_replicate, fun i hi => absurd hi (Nat.not_lt_zero i)⟩
  tables := ⟨fun h o ho => by simp at ho, fun q _ hq => absurd hq (Nat.not_lt_zero q),
    Int.le_refl _⟩
  lag := rfl
  ends := Nat.le_refl _
  cached := fun h o ho => by simp at ho

/-- The compressed form of a non-empty input is the header and a stream that
replays it. -/
theorem compressImpl_spec {inp : Bytes} (hne : inp.length ≠ 0) :
    ∃ items, compressImpl inp = some (sizeHeader inp.length ++ stream items) ∧
      Replays inp items (initialDecoder inp.length) := by
  obtain ⟨c', items, hloop, hfinish, hrep⟩ := mainLoop_ok (inp.length + 1) (sync_initial inp)
    (by show inp.length < 0 + (inp.length + 1); omega)
  refine ⟨items, ?_, hrep⟩
  unfold compressImpl
  rw [if_neg hne, hloop, map_some, hfinish]
  exact congrArg some (Writer.start_foldl_emit_bytes _ items)

/-- **The compressor never panics.** -/
theorem compressImpl_isSome (src : Bytes) : (compressImpl src).isSome := by
  by_cases hne : src.length = 0
  · simp [compressImpl, hne]
  · obtain ⟨items, himpl, -⟩ := compressImpl_spec hne
    simp [himpl]

/-- `synlz_compress` without the panics, which do not occur. -/
def synlzCompress (src : Bytes) : Bytes := (compressImpl src).get (compressImpl_isSome src)

/-- `mp_compress`: only worth it above 64 bytes and below 95 percent. -/
def mpCompress (data : Bytes) : Option Bytes :=
  if data.length ≤ 64 then none
  else
    let compressed := synlzCompress data
    if compressed.length < data.length * 95 / 100 then some compressed else none

/-! ## The size header -/

theorem low15 (size : Nat) :
    (0x8000 ||| (UInt16.ofNat size &&& 0x7FFF)).toNat = 2 ^ 15 + size % 2 ^ 15 := by
  have hand : (UInt16.ofNat size &&& 0x7FFF).toNat = size % 2 ^ 15 := by
    rw [UInt16.toNat_and, UInt16.toNat_ofNat']
    show size % 2 ^ 16 &&& (2 ^ 15 - 1) = _
    rw [Nat.and_two_pow_sub_one_eq_mod]
    omega
  rw [UInt16.toNat_or, hand]
  exact (Nat.two_pow_add_eq_or_of_lt (i := 15) (Nat.mod_lt _ (by decide)) 1).symm

/-- A first word without the top bit is the size. -/
theorem decompressBounded_word (hne0 : first ≠ 0)
    (hbit : ¬ first &&& 0x8000 ≠ 0) (rest : Bytes) (maxOutput : Nat) :
    decompressBounded (u16Bytes first ++ rest) maxOutput
      = decompressBody (u16Bytes first ++ rest) 2 first.toNat maxOutput := by
  unfold decompressBounded
  have hs1 := slice_append_mid [] (u16Bytes first) rest
  simp only [nil_append, length_nil, u16Bytes_length, Nat.zero_add] at hs1
  have hlen : (u16Bytes first ++ rest).length = 2 + rest.length := by
    rw [length_append, u16Bytes_length]
  rw [if_neg (by omega), hs1, map_some, readU16_u16Bytes, bind_eq_bind,
    bind_some, if_neg hne0, if_neg hbit]

/-- A first word with the top bit is continued by a second one. -/
theorem decompressBounded_words {second : UInt16} (hne0 : first ≠ 0)
    (hbit : first &&& 0x8000 ≠ 0) (rest : Bytes) (maxOutput : Nat) :
    decompressBounded (u16Bytes first ++ (u16Bytes second ++ rest)) maxOutput
      = decompressBody (u16Bytes first ++ (u16Bytes second ++ rest)) 4
          ((first &&& 0x7FFF).toNat ||| second.toNat <<< 15) maxOutput := by
  unfold decompressBounded
  have hs1 := slice_append_mid [] (u16Bytes first) (u16Bytes second ++ rest)
  have hs2 := slice_append_mid (u16Bytes first) (u16Bytes second) rest
  simp only [nil_append, length_nil, u16Bytes_length, Nat.zero_add, Nat.reduceAdd]
    at hs1 hs2
  have hlen : (u16Bytes first ++ (u16Bytes second ++ rest)).length = 4 + rest.length := by
    simp only [length_append, u16Bytes_length]
    omega
  rw [if_neg (by omega), hs1, map_some, readU16_u16Bytes, bind_eq_bind,
    bind_some, if_neg hne0, if_pos hbit, if_neg (by omega), hs2, map_some,
    readU16_u16Bytes, bind_some]

theorem join_halves {second : UInt16} {size : Nat}
    (hfirst : first.toNat = 2 ^ 15 + size % 2 ^ 15) (hsecond : second.toNat = size / 2 ^ 15) :
    (first &&& 0x7FFF).toNat ||| second.toNat <<< 15 = size := by
  have hand : (first &&& 0x7FFF).toNat = size % 2 ^ 15 := by
    rw [UInt16.toNat_and, hfirst]
    show (2 ^ 15 + size % 2 ^ 15) &&& (2 ^ 15 - 1) = _
    rw [Nat.and_two_pow_sub_one_eq_mod]
    omega
  rw [hand, hsecond, Nat.shiftLeft_eq, Nat.or_comm, Nat.mul_comm,
    ← Nat.two_pow_add_eq_or_of_lt (Nat.mod_lt _ (by decide))]
  omega

/-- The header of a size below 2^31 reads back, in front of anything. -/
theorem decompressBounded_sizeHeader {size : Nat} (hpos : size ≠ 0) (hlt : size < 2 ^ 31)
    (rest : Bytes) (maxOutput : Nat) :
    decompressBounded (sizeHeader size ++ rest) maxOutput
      = decompressBody (sizeHeader size ++ rest) (sizeHeader size).length size maxOutput := by
  unfold sizeHeader
  by_cases hbig : 0x8000 ≤ size
  · have hfirst := low15 size
    generalize (0x8000 ||| (UInt16.ofNat size &&& 0x7FFF) : UInt16) = first at hfirst
    have hsecond : (UInt16.ofNat (size >>> 15)).toNat = size / 2 ^ 15 := by
      rw [Nat.shiftRight_eq_div_pow, toNat_ofNat16 (by omega)]
    generalize UInt16.ofNat (size >>> 15) = second at hsecond
    have hne0 : first ≠ 0 := by
      intro h0
      rw [h0] at hfirst
      exact absurd hfirst (by simp only [UInt16.toNat_zero]; omega)
    have hbit : first &&& 0x8000 ≠ 0 := by
      rw [ne_eq, ← UInt16.toNat_inj, UInt16.toNat_and, hfirst]
      show (2 ^ 15 + size % 2 ^ 15) &&& 2 ^ 15 ≠ 0
      rw [BitField.and_two_pow_ne_zero, Nat.testBit_two_pow_add_eq,
        Nat.testBit_lt_two_pow (Nat.mod_lt _ (by decide))]
      rfl
    rw [if_pos hbig, append_assoc, decompressBounded_words hne0 hbit,
      join_halves hfirst hsecond, length_append, u16Bytes_length, u16Bytes_length]
  · have hval : (UInt16.ofNat size).toNat = size := toNat_ofNat16 (by omega)
    generalize UInt16.ofNat size = first at hval
    have hne0 : first ≠ 0 := by
      rintro rfl
      exact hpos hval.symm
    have hbit : ¬ first &&& 0x8000 ≠ 0 := by
      rw [not_not, ← UInt16.toNat_inj, UInt16.toNat_and, hval]
      show size &&& 2 ^ 15 = 0
      rw [Nat.and_two_pow, Nat.testBit_lt_two_pow (by omega)]
      rfl
    rw [if_neg hbig, decompressBounded_word hne0 hbit, hval, u16Bytes_length]

/-- The decoder undoes the compressor, under every limit that admits the data. -/
theorem decompressBounded_compressImpl {inp : Bytes} {maxOutput : Nat}
    (h : inp.length ≤ maxDecompressedSize) (hlimit : inp.length ≤ maxOutput) :
    ∃ c, compressImpl inp = some c ∧ decompressBounded c maxOutput = some (some inp) := by
  have hmax : maxDecompressedSize = 2 ^ 29 := rfl
  by_cases hne : inp.length = 0
  · obtain rfl := List.length_eq_zero_iff.mp hne
    exact ⟨_, rfl, rfl⟩
  · obtain ⟨items, himpl, hrep⟩ := compressImpl_spec hne
    refine ⟨_, himpl, ?_⟩
    rw [decompressBounded_sizeHeader hne (by omega)]
    have hdrop : (sizeHeader inp.length ++ stream items).drop (sizeHeader inp.length).length
        = u32Bytes (controlWord 0 items) ++ body 0 items := drop_left
    have hrun := hrep.continue (k := 31) (t := (false, []))
      (m := (sizeHeader inp.length ++ stream items).length + 1) (by decide)
      (flags_controlWord 31 ((false, []) :: items))
      (by rw [length_append]; exact Nat.le_add_right _ _) hdrop (by omega)
    rw [if_pos (by decide)] at hrun
    unfold decompressBody decompressInner
    rw [if_neg (by omega)]
    show Option.map _ (decodeLoop _ _ _ none
      { initialDecoder inp.length with pos := (sizeHeader inp.length).length }) = _
    rw [hrun]
    simp

theorem synlzDecompressBounded_synlzCompress {inp : Bytes} {maxOutput : Nat}
    (h : inp.length ≤ maxDecompressedSize) (hlimit : inp.length ≤ maxOutput) :
    synlzDecompressBounded (synlzCompress inp) maxOutput = some inp := by
  obtain ⟨c, hc, hd⟩ := decompressBounded_compressImpl h hlimit
  have hcomp : synlzCompress inp = c := by
    unfold synlzCompress
    simp only [hc, get_some]
  unfold synlzDecompressBounded
  simp only [hcomp, hd, get_some]

/-- **SynLZ round trip**: what the compressor makes of a byte string within the
decompression limit, the decompressor turns back into it, and no smaller limit that
still admits the string stops it. Neither of the two panics. -/
theorem synlz_round_trip {inp : Bytes} (h : inp.length ≤ maxDecompressedSize) :
    synlzDecompress (synlzCompress inp) = some inp ∧
    (∀ maxOutput, inp.length ≤ maxOutput →
      synlzDecompressBounded (synlzCompress inp) maxOutput = some inp) ∧
    ∃ c, compressImpl inp = some c ∧ decompressBounded c maxDecompressedSize = some (some inp) := by
  refine ⟨synlzDecompressBounded_synlzCompress h h, ?_, decompressBounded_compressImpl h h⟩
  intro maxOutput hlimit
  exact synlzDecompressBounded_synlzCompress h hlimit

/-- Literals, then a run of one byte that is copied from itself. -/
theorem synlz_round_trip_overlap :
    synlzDecompress (synlzCompress ([1, 2, 3] ++ List.replicate 30 7)) =
      some ([1, 2, 3] ++ List.replicate 30 7) :=
  (synlz_round_trip (by decide)).1

theorem mpCompress_eq_some {data c : Bytes} (h : mpCompress data = some c) :
    c = synlzCompress data := by
  unfold mpCompress at h
  by_cases hlen : data.length ≤ 64
  · rw [if_pos hlen] at h
    cases h
  · rw [if_neg hlen] at h
    simp only at h
    split at h
    · exact (some_inj.mp h).symm
    · cases h

theorem mpDecompress_mpCompress {data c : Bytes} (hlen : data.length ≤ maxDecompressedSize)
    (h : mpCompress data = some c) : mpDecompress c = some data := by
  rw [mpCompress_eq_some h]
  exact synlzDecompressBounded_synlzCompress hlen hlen

end MoonProto.SynLZ
