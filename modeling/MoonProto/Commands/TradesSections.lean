import MoonProto.Lib.Bytes

/-!
# The sections of a trades packet

`commands/trades_stream/decoder.rs`. A packet is a row of sections, each with a count from the
wire and rows of a fixed size, and the iterators hand out slices of the packet. A slice is kept
here as its two positions in the packet. An access outside the packet is a panic, `none`.
-/

namespace MoonProto.TradesStream

open Codec List Option

def tradesPacketHeaderSize : Nat := 10
def tradeRowSize : Nat := 10
def watcherFillRecordSize : Nat := 20

inductive SectionKind
  | trades (isSpot : Bool)
  | mmOrders (hasTaker : Bool)
  | liqOrders
  | watcherFills (user : Bytes)
deriving DecidableEq

def SectionKind.rowSize : SectionKind → Nat
  | trades _ => tradeRowSize
  | mmOrders hasTaker => tradeRowSize + if hasTaker then 20 else 0
  | liqOrders => tradeRowSize
  | watcherFills _ => watcherFillRecordSize

theorem SectionKind.rowSize_pos (kind : SectionKind) : 0 < kind.rowSize := by
  cases kind <;> simp only [rowSize, tradeRowSize, watcherFillRecordSize] <;> omega

structure TradeSectionRef where
  kind : SectionKind
  marketIndex : UInt16
  start : Nat
  stop : Nat
deriving DecidableEq

namespace TradeSectionRef

/-- `TradeRows::next` and `MMOrderRows::next`, called until they return nothing: the places of
the rows from `pos` on. -/
def rowsFrom (ref : TradeSectionRef) (pos : Nat) : List (Nat × Nat) :=
  if ref.stop < pos + ref.kind.rowSize then []
  else (pos, pos + ref.kind.rowSize) :: ref.rowsFrom (pos + ref.kind.rowSize)
termination_by ref.stop - pos
decreasing_by
  have := ref.kind.rowSize_pos
  omega

def rows (ref : TradeSectionRef) : List (Nat × Nat) := ref.rowsFrom ref.start

/-- The count in front of the rows. -/
def count (data : Bytes) (ref : TradeSectionRef) : Nat := (byteAt data (ref.start - 1)).toNat

/-- The announced rows do not fit. -/
def Truncated (data : Bytes) (ref : TradeSectionRef) : Prop :=
  data.length - ref.start < ref.count data * ref.kind.rowSize

end TradeSectionRef

structure TradeSectionIter where
  pos : Nat := tradesPacketHeaderSize
  done : Bool := false

namespace TradeSectionIter

variable (data : Bytes) (hasTaker : Bool) (it : TradeSectionIter)

/-- `take_complete_row_bytes`: the end of the slice and the iterator behind it. -/
def takeCompleteRowBytes (count rowSize : Nat) : Nat × TradeSectionIter :=
  let available := data.length - it.pos
  let stop := it.pos + min count (available / rowSize) * rowSize
  if available < count * rowSize then (stop, ⟨data.length, true⟩)
  else (stop, { it with pos := stop })

def finish : Option (Option TradeSectionRef × TradeSectionIter) :=
  some (none, { it with done := true })

/-- The sections of trades, market maker orders and liquidations: a count byte, then as many of
the rows as are complete. -/
def nextRows (kind : SectionKind) (marketIndex : UInt16) :
    Option (Option TradeSectionRef × TradeSectionIter) :=
  if data.length ≤ it.pos then it.finish
  else do
    let count ← data[it.pos]?
    let start := it.pos + 1
    let (stop, it) := takeCompleteRowBytes data { it with pos := start } count.toNat kind.rowSize
    let _ ← slice data start stop
    return (some ⟨kind, marketIndex, start, stop⟩, it)

/-- The watcher fills: all of them or none. -/
def nextFills (marketIndex : UInt16) : Option (Option TradeSectionRef × TradeSectionIter) :=
  if data.length < it.pos + 21 then it.finish
  else do
    let user ← slice data it.pos (it.pos + 20)
    let count ← data[it.pos + 20]?
    let start := it.pos + 21
    let stop := start + count.toNat * watcherFillRecordSize
    if data.length < stop then finish { it with pos := start }
    else
      let _ ← slice data start stop
      return (some ⟨.watcherFills user, marketIndex, start, stop⟩, { it with pos := stop })

/-- `TradeSectionIter::next`. -/
def next : Option (Option TradeSectionRef × TradeSectionIter) :=
  if it.done || data.length < it.pos + 2 then some (none, it)
  else do
    let lo ← data[it.pos]?
    let hi ← data[it.pos + 1]?
    let marketIndexAndFlags := readU16 [lo, hi]
    let marketIndex := marketIndexAndFlags &&& 0x3FFF
    let it := { it with pos := it.pos + 2 }
    match ((marketIndexAndFlags >>> 14) &&& 0x03).toNat with
    | 0 => it.nextRows data (.trades false) marketIndex
    | 1 => it.nextRows data (.mmOrders hasTaker) marketIndex
    | 2 => it.nextRows data (.trades true) marketIndex
    | 3 =>
      if data.length ≤ it.pos then it.finish
      else do
        let extType ← data[it.pos]?
        let it := { it with pos := it.pos + 1 }
        match extType.toNat with
        | 0 => it.nextRows data .liqOrders marketIndex
        | 1 => it.nextFills data marketIndex
        | _ => it.finish
    | _ => it.finish

/-! ## What a packet holds -/

/-- The head of the section at a position, if all its bytes are there: what the section is, its
market, and the size of the head with the count byte. -/
def header (data : Bytes) (hasTaker : Bool) (pos : Nat) : Option (SectionKind × UInt16 × Nat) :=
  let byte i := (byteAt data (pos + i)).toNat
  let head (kind : SectionKind) (size : Nat) := if data.length < pos + size then none
    else some (kind, UInt16.ofNat (byte 0 + 256 * (byte 1 % 64)), size)
  match byte 1 / 64, byte 2 with
  | 0, _ => head (.trades false) 3
  | 1, _ => head (.mmOrders hasTaker) 3
  | 2, _ => head (.trades true) 3
  | _, 0 => head .liqOrders 4
  | _, 1 => head (.watcherFills ((data.drop (pos + 3)).take 20)) 24
  | _, _ => none

/-- The section behind a head at a position: its announced rows as far as they are complete. -/
def sectionAt (data : Bytes) (pos : Nat) : SectionKind × UInt16 × Nat → TradeSectionRef
  | (kind, marketIndex, size) =>
    let available := data.length - (pos + size)
    let count := (byteAt data (pos + size - 1)).toNat
    ⟨kind, marketIndex, pos + size,
      pos + size + min count (available / kind.rowSize) * kind.rowSize⟩

/-- The sections from a position on, by the format alone: one behind the other as long as there
is a head. Where rows are missing the complete ones are the last, and fills are left out. -/
inductive Holds (data : Bytes) (hasTaker : Bool) : Nat → List TradeSectionRef → Prop
  | ends {pos} (head : header data hasTaker pos = none) : Holds data hasTaker pos []
  | whole {pos head refs} (found : header data hasTaker pos = some head)
      (fits : ¬(sectionAt data pos head).Truncated data)
      (rest : Holds data hasTaker (sectionAt data pos head).stop refs) :
      Holds data hasTaker pos (sectionAt data pos head :: refs)
  | cut {pos head} (found : header data hasTaker pos = some head)
      (rows : ∀ user, head.1 ≠ .watcherFills user)
      (short : (sectionAt data pos head).Truncated data) :
      Holds data hasTaker pos [sectionAt data pos head]
  | fills {pos user tail} (found : header data hasTaker pos = some (.watcherFills user, tail))
      (short : (sectionAt data pos (.watcherFills user, tail)).Truncated data) :
      Holds data hasTaker pos []

/-! ## One step -/

/-- `next` returns nothing and changes nothing. -/
def Stuck : Prop := it.done = true ∨ data.length < it.pos + 2

/-- What a call can do: nothing when the iteration is over, end it where the packet holds
nothing more, or hand out the section the packet holds there. -/
inductive Step (data : Bytes) (hasTaker : Bool) (it : TradeSectionIter) :
    Option TradeSectionRef → TradeSectionIter → Prop
  | stop (done : it.done = true) : Step data hasTaker it none it
  | finish {it'} (stuck : it'.Stuck data) (ends : Holds data hasTaker it.pos []) :
      Step data hasTaker it none it'
  | yield {ref it'} (front : it.pos < data.length) (behind : it.pos < it'.pos)
      (holds : ∀ refs, (it'.done = true → refs = []) →
        (it'.done = false → Holds data hasTaker it'.pos refs) →
        Holds data hasTaker it.pos (ref :: refs)) :
      Step data hasTaker it (some ref) it'

variable {data hasTaker it} {it' : TradeSectionIter} {marketIndex : UInt16}

theorem complete_le (count rowSize available : Nat) :
    min count (available / rowSize) * rowSize ≤ available :=
  Nat.le_trans (Nat.mul_le_mul_right _ (Nat.min_le_right _ _)) (Nat.div_mul_le_self _ _)

theorem complete_eq {count rowSize available : Nat} (hsize : 0 < rowSize)
    (h : count * rowSize ≤ available) : min count (available / rowSize) = count :=
  Nat.min_eq_left ((Nat.le_div_iff_mul_le hsize).mpr h)

theorem getElem?_of_lt {i : Nat} (h : i < data.length) : data[i]? = some (byteAt data i) := by
  simp [byteAt, getD_eq_getElem?_getD, h]

theorem finish_step (h : Holds data hasTaker it.pos []) :
    ∃ out it₁, it'.finish = some (out, it₁) ∧ Step data hasTaker it out it₁ :=
  ⟨_, _, rfl, .finish (.inl rfl) h⟩

theorem nextRows_step {kind : SectionKind} {n : Nat} (hdone : it.done = false)
    (hrows : ∀ user, kind ≠ .watcherFills user) (hhead : header data hasTaker it.pos =
      if data.length < it.pos + n + 1 then none else some (kind, marketIndex, n + 1)) :
    ∃ out it₁, nextRows data { it with pos := it.pos + n } kind marketIndex = some (out, it₁) ∧
      Step data hasTaker it out it₁ := by
  unfold nextRows
  split
  · rename_i hle
    exact finish_step (.ends (hhead.trans (if_pos (Nat.lt_succ_of_le hle))))
  rename_i hle
  have hlt : it.pos + n < data.length := Nat.lt_of_not_le hle
  rw [if_neg (by omega)] at hhead
  have hfit := complete_le (byteAt data (it.pos + n)).toNat kind.rowSize
    (data.length - (it.pos + n + 1))
  unfold takeCompleteRowBytes
  simp only [getElem?_of_lt hlt, bind_eq_bind, bind_some]
  split
  · rename_i hshort
    rw [slice_eq (Nat.le_add_right _ _) (by omega)]
    refine ⟨_, _, rfl, .yield (by omega) (by dsimp only; omega) fun refs hnil _ => ?_⟩
    rw [hnil rfl]
    exact .cut hhead hrows hshort
  · rename_i hall
    rw [slice_eq (Nat.le_add_right _ _) (by omega)]
    exact ⟨_, _, rfl, .yield (by omega) (by dsimp only; omega) fun refs _ hrest =>
      .whole hhead hall (hrest hdone)⟩

theorem nextFills_step (hdone : it.done = false) (hhead : header data hasTaker it.pos =
      if data.length < it.pos + 24 then none
      else some (.watcherFills ((data.drop (it.pos + 3)).take 20), marketIndex, 24)) :
    ∃ out it₁, nextFills data { it with pos := it.pos + 3 } marketIndex = some (out, it₁) ∧
      Step data hasTaker it out it₁ := by
  unfold nextFills
  split
  · rename_i hlt
    exact finish_step (.ends (hhead.trans (if_pos hlt)))
  rename_i hle
  dsimp only at hle ⊢
  rw [if_neg hle] at hhead
  have hlt : it.pos + 3 + 20 < data.length := by omega
  rw [slice_eq (Nat.le_add_right _ _) (Nat.le_of_lt hlt), Nat.add_sub_cancel_left]
  simp only [getElem?_of_lt hlt, bind_eq_bind, bind_some]
  split
  · rename_i hshort
    exact finish_step (.fills hhead (Nat.sub_lt_left_of_lt_add (Nat.le_of_not_lt hle) hshort))
  rename_i hstop
  have hstop := Nat.le_of_not_lt hstop
  rw [slice_eq (Nat.le_add_right _ _) hstop]
  -- All announced records fit, so they are the complete ones.
  have hall : (byteAt data (it.pos + 23)).toNat * watcherFillRecordSize ≤
      data.length - (it.pos + 24) := Nat.le_sub_of_add_le' hstop
  refine ⟨_, _, rfl, .yield (by omega) (by dsimp only; omega) fun refs _ hrest => ?_⟩
  have hwhole := @Holds.whole _ _ _ _ refs hhead (Nat.not_lt.mpr hall)
  simp only [sectionAt, Nat.add_succ_sub_one, SectionKind.rowSize,
    complete_eq (by decide) hall] at hwhole
  exact hwhole (hrest hdone)

theorem readU16_pair (lo hi : UInt8) : (readU16 [lo, hi]).toNat = lo.toNat + 256 * hi.toNat := by
  have hlo := lo.toNat_lt
  have hhi := hi.toNat_lt
  exact Nat.mod_eq_of_lt (by simp only [leDecode]; omega)

theorem sectionType_eq (lo hi : UInt8) :
    ((readU16 [lo, hi] >>> 14) &&& 0x03).toNat = hi.toNat / 64 := by
  have hlo := lo.toNat_lt
  have hhi := hi.toNat_lt
  rw [UInt16.toNat_and, UInt16.toNat_shiftRight, readU16_pair, Nat.shiftRight_eq_div_pow,
    show (14 : UInt16).toNat % 16 = 14 from rfl]
  exact (Nat.and_two_pow_sub_one_eq_mod _ 2).trans (by omega)

theorem marketIndex_eq (lo hi : UInt8) :
    readU16 [lo, hi] &&& 0x3FFF = .ofNat (lo.toNat + 256 * (hi.toNat % 64)) := by
  have hlo := lo.toNat_lt
  rw [← UInt16.toNat_inj, UInt16.toNat_and, readU16_pair, UInt16.toNat_ofNat']
  exact (Nat.and_two_pow_sub_one_eq_mod _ 14).trans (by omega)

theorem header_short {pos : Nat} (h : data.length < pos + 3) : header data hasTaker pos = none := by
  dsimp only [header]
  split <;> first | rfl | exact if_pos (by omega)

theorem header_le {pos : Nat} {head : SectionKind × UInt16 × Nat}
    (h : header data hasTaker pos = some head) : pos + head.2.2 ≤ data.length := by
  dsimp only [header] at h
  split at h <;> first | cases h | (split at h <;> cases h; exact Nat.le_of_not_lt ‹_›)

/-- No call reads outside the packet. -/
theorem next_step (data : Bytes) (hasTaker : Bool) (it : TradeSectionIter) :
    ∃ out it₁, it.next data hasTaker = some (out, it₁) ∧ Step data hasTaker it out it₁ := by
  unfold next
  split
  · rename_i hstuck
    refine ⟨_, _, rfl, ?_⟩
    rcases Bool.or_eq_true_iff.mp hstuck with hdone | hshort
    · exact .stop hdone
    · have hshort := of_decide_eq_true hshort
      exact .finish (.inr hshort) (.ends (header_short (Nat.lt_succ_of_lt hshort)))
  · rename_i hnot
    obtain ⟨hdone, hle⟩ : it.done = false ∧ it.pos + 2 ≤ data.length := by simpa using hnot
    simp only [getElem?_of_lt hle, getElem?_of_lt (Nat.lt_of_succ_lt hle), bind_eq_bind, bind_some,
      sectionType_eq, marketIndex_eq]
    have hhi := (byteAt data (it.pos + 1)).toNat_lt
    split
    iterate 3
      rename_i htype
      exact nextRows_step hdone (by simp) (by simp only [header, htype, Nat.add_zero])
    · rename_i htype
      split
      · rename_i hend
        exact finish_step (.ends (header_short (Nat.lt_succ_of_le hend)))
      · rename_i hext
        simp only [getElem?_of_lt (Nat.lt_of_not_le hext), bind_some]
        split
        · rename_i hkind
          exact nextRows_step (n := 3) hdone (by simp)
            (by simp only [header, htype, hkind, Nat.add_zero])
        · rename_i hkind
          exact nextFills_step hdone (by simp only [header, htype, hkind, Nat.add_zero])
        · refine finish_step (.ends ?_)
          simp only [header, htype]
    · grind

theorem next_of_stuck (hasTaker : Bool) (h : it.Stuck data) :
    it.next data hasTaker = some (none, it) := by
  unfold next
  rw [if_pos]
  simpa [Stuck] using h

/-! ## Whole runs -/

/-- A loop over the sections, and the iterator it leaves. -/
def sections (data : Bytes) (hasTaker : Bool) (it : TradeSectionIter) :
    Option (List TradeSectionRef × TradeSectionIter) :=
  match _h : it.next data hasTaker with
  | none => none
  | some (none, it') => some ([], it')
  | some (some ref, it') => (sections data hasTaker it').map fun out => (ref :: out.1, out.2)
termination_by data.length - it.pos
decreasing_by
  obtain ⟨_, _, heq, hstep⟩ := next_step data hasTaker it
  obtain ⟨rfl, rfl⟩ := Prod.mk.inj (Option.some_inj.mp (heq.symm.trans _h))
  cases hstep with
  | yield front behind => omega

end TradeSectionIter

/-! ## The places of the rows -/

/-- Disjoint places between two positions, in order. -/
structure Ordered (lo hi : Nat) (rows : List (Nat × Nat)) : Prop where
  within : ∀ row ∈ rows, lo ≤ row.1 ∧ row.1 < row.2 ∧ row.2 ≤ hi
  disjoint : rows.Pairwise fun a b => a.2 ≤ b.1

theorem Ordered.nil (lo hi : Nat) : Ordered lo hi [] := ⟨nofun, .nil⟩

theorem Ordered.append {lo mid mid' hi : Nat} {xs ys : List (Nat × Nat)} (hx : Ordered lo mid xs)
    (hy : Ordered mid' hi ys) (hlo : lo ≤ mid') (hmid : mid ≤ mid') (hhi : mid ≤ hi) :
    Ordered lo hi (xs ++ ys) where
  within row hrow := by
    rcases mem_append.mp hrow with hrow | hrow
    · obtain ⟨h1, h2, h3⟩ := hx.within row hrow
      exact ⟨h1, h2, Nat.le_trans h3 hhi⟩
    · obtain ⟨h1, h2, h3⟩ := hy.within row hrow
      exact ⟨Nat.le_trans hlo h1, h2, h3⟩
  disjoint := pairwise_append.mpr ⟨hx.disjoint, hy.disjoint, fun a ha b hb =>
    Nat.le_trans (hx.within a ha).2.2 (Nat.le_trans hmid (hy.within b hb).1)⟩

namespace TradeSectionRef

variable (ref : TradeSectionRef)

theorem rowsFrom_ordered (pos : Nat) : Ordered pos ref.stop (ref.rowsFrom pos) := by
  have hsize := ref.kind.rowSize_pos
  fun_induction ref.rowsFrom pos with
  | case1 pos h => exact .nil _ _
  | case2 pos h ih =>
    have first : Ordered pos (pos + ref.kind.rowSize) [(pos, pos + ref.kind.rowSize)] :=
      ⟨by simp [hsize], pairwise_singleton _ _⟩
    exact first.append ih (Nat.le_add_right _ _) (Nat.le_refl _) (Nat.le_of_not_lt h)

theorem rowsFrom_length (pos : Nat) :
    (ref.rowsFrom pos).length = (ref.stop - pos) / ref.kind.rowSize := by
  have hsize := ref.kind.rowSize_pos
  fun_induction ref.rowsFrom pos with
  | case1 pos h => rw [Nat.div_eq_of_lt (by omega), length_nil]
  | case2 pos h ih =>
    have hle : ref.kind.rowSize ≤ ref.stop - pos := Nat.le_sub_of_add_le' (Nat.le_of_not_lt h)
    rw [length_cons, ih, ← Nat.sub_sub, Nat.div_eq_sub_div hsize hle]

/-- The section hands out its announced rows as far as they are complete. -/
def CompleteRows (data : Bytes) : Prop :=
  ref.rows.length = min (ref.count data) ((data.length - ref.start) / ref.kind.rowSize)

end TradeSectionRef

namespace TradeSectionIter

/-- What a loop over the sections hands out, from a position on: the rows lie apart and in
order, each section has its complete rows, and one with missing rows is the last one. -/
structure Delivered (data : Bytes) (pos : Nat) (refs : List TradeSectionRef) : Prop where
  rows : Ordered pos data.length (refs.flatMap TradeSectionRef.rows)
  complete : ∀ ref ∈ refs, ref.CompleteRows data
  damaged : ∀ ref ∈ refs, ref.Truncated data → refs.getLast? = some ref

theorem Delivered.cons {pos : Nat} {ref : TradeSectionRef} {refs : List TradeSectionRef}
    (hend : ref.stop = ref.start + min (ref.count data)
      ((data.length - ref.start) / ref.kind.rowSize) * ref.kind.rowSize)
    (hstart : pos ≤ ref.start) (hbound : ref.start ≤ data.length)
    (hlast : ref.Truncated data → refs = []) (h : Delivered data ref.stop refs) :
    Delivered data pos (ref :: refs) := by
  refine ⟨?_, ?_, ?_⟩
  · have hrows := ref.rowsFrom_ordered ref.start
    have hfit := complete_le (ref.count data) ref.kind.rowSize (data.length - ref.start)
    have hfirst : Ordered pos ref.stop ref.rows := ⟨fun row hrow =>
      (hrows.within row hrow).imp_left (Nat.le_trans hstart), hrows.disjoint⟩
    exact hfirst.append h.rows (by omega) (Nat.le_refl _) (by omega)
  · refine forall_mem_cons.mpr ⟨?_, h.complete⟩
    rw [TradeSectionRef.CompleteRows, TradeSectionRef.rows, ref.rowsFrom_length, hend,
      Nat.add_sub_cancel_left, Nat.mul_div_cancel _ ref.kind.rowSize_pos]
  · refine forall_mem_cons.mpr ⟨fun htrunc => ?_, fun r hr htrunc => ?_⟩
    · rw [hlast htrunc, getLast?_singleton]
    · rw [getLast?_cons, h.damaged r hr htrunc, getD_some]

theorem Holds.delivered {pos : Nat} {refs : List TradeSectionRef}
    (h : Holds data hasTaker pos refs) : Delivered data pos refs := by
  have hnone (pos : Nat) : Delivered data pos [] := ⟨.nil _ _, by simp, by simp⟩
  induction h with
  | ends => exact hnone _
  | whole found fits rest ih =>
    exact .cons rfl (Nat.le_add_right _ _) (header_le found) (fun h => absurd h fits) ih
  | cut found rows short =>
    exact .cons rfl (Nat.le_add_right _ _) (header_le found) (fun _ => rfl) (hnone _)
  | fills => exact hnone _

theorem sections_holds (data : Bytes) (hasTaker : Bool) (it : TradeSectionIter) :
    ∃ refs last, sections data hasTaker it = some (refs, last) ∧ last.Stuck data ∧
      (it.done = true → refs = []) ∧ (it.done = false → Holds data hasTaker it.pos refs) := by
  fun_induction sections data hasTaker it with
  | case1 it h =>
    obtain ⟨_, _, hnext, -⟩ := next_step data hasTaker it
    cases h.symm.trans hnext
  | case2 it it' h =>
    obtain ⟨_, _, hnext, hstep⟩ := next_step data hasTaker it
    cases h.symm.trans hnext
    refine ⟨[], it', rfl, ?_, fun _ => rfl, fun hdone => ?_⟩
    · cases hstep with
      | stop done => exact .inl done
      | finish stuck ends => exact stuck
    · cases hstep with
      | stop done => cases done.symm.trans hdone
      | finish stuck ends => exact ends
  | case3 it ref it' h ih =>
    obtain ⟨_, _, hnext, hstep⟩ := next_step data hasTaker it
    cases h.symm.trans hnext
    obtain ⟨refs, last, hrec, hstuck, hnil, hrest⟩ := ih
    refine ⟨ref :: refs, last, by rw [hrec, map_some], hstuck, fun hdone => ?_, fun _ => ?_⟩
    · cases h.symm.trans (next_of_stuck hasTaker (.inl hdone))
    · cases hstep with
      | yield front behind holds => exact holds refs hnil hrest

/-- **Decoding the sections is total and faithful.** A loop over the sections of any packet ends
without a read outside of it and hands out what the packet holds behind its header, all of it
and nothing else; a further call returns nothing. -/
theorem trades_sections_total (data : Bytes) (hasTaker : Bool) :
    ∃ refs last, sections data hasTaker {} = some (refs, last) ∧
      Holds data hasTaker tradesPacketHeaderSize refs ∧
      Delivered data tradesPacketHeaderSize refs ∧
      last.next data hasTaker = some (none, last) := by
  obtain ⟨refs, last, hrun, hstuck, -, h⟩ := sections_holds data hasTaker {}
  exact ⟨refs, last, hrun, h rfl, (h rfl).delivered, next_of_stuck hasTaker hstuck⟩

end TradeSectionIter

end MoonProto.TradesStream
