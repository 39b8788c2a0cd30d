import Mathlib.Algebra.Order.Ring.Rat
import Mathlib.Data.List.TakeWhile
import Mathlib.Algebra.Order.Group.Abs
import Mathlib.Tactic.Linarith
import MoonProto.State.OrderBooks

/-!
# Merging a diff into one side of a book

`apply_order_book_diff_keep_zero_with_eps` (`order_books/apply.rs`) with exact prices and
quantities. A side is sorted best price first: highest first for bids, lowest first for asks.
Two cursors run over the old side and the diff; a price of the diff that is closer than
`eps_m` to the next price of the old side replaces or deletes that level. In the end the
levels that cross the best opposite price of the same packet are cut off.

The specification does not mention cursors: it says which levels the new side has, and that
it is sorted, which leaves one list. The two sides are treated together by measuring a price
as its distance from the best one.
-/

namespace MoonProto

open List Option

/-- A price level (`OrderLevel` of the packet and `OrderBookLevel` of the book). -/
structure OrderBookLevel where
  rate : ℚ
  quantity : ℚ
deriving DecidableEq, Repr

/-- The tolerances of an exchange: `eps` for quantities, `epsM` for prices. -/
structure EpsProfile where
  eps : ℚ
  epsM : ℚ
  epsM_pos : 0 < epsM

def EpsProfile.binance : EpsProfile := ⟨1 / 10 ^ 8, 9 / 10 ^ 9, by norm_num⟩

namespace OrderBookDiff

variable (isBuyBook : Bool) (eps : EpsProfile)

/-! ## The merge -/

/-- The condition of the loop that copies levels up to a price of the diff. -/
def copies (diffRate : ℚ) (level : OrderBookLevel) : Bool :=
  if isBuyBook then decide (level.rate > diffRate + eps.epsM)
  else decide (level.rate < diffRate - eps.epsM)

/-- The level under the cursor has the price of the diff level. -/
def sameRate (diffRate : ℚ) (level : OrderBookLevel) : Bool :=
  decide (|level.rate - diffRate| < eps.epsM)

/-- Step over the level under the cursor if it has the price of the diff level. -/
def skipSame (diffRate : ℚ) : List OrderBookLevel → List OrderBookLevel
  | [] => []
  | level :: rest => if sameRate eps diffRate level then rest else level :: rest

/-- One turn of the loop over the diff: the book built so far and the rest of the old one. -/
def mergeLevel : List OrderBookLevel × List OrderBookLevel → OrderBookLevel →
    List OrderBookLevel × List OrderBookLevel
  | (book, scratch), diffLevel =>
    let book := book ++ scratch.takeWhile (copies isBuyBook eps diffLevel.rate)
    let scratch := scratch.dropWhile (copies isBuyBook eps diffLevel.rate)
    (if diffLevel.quantity > eps.eps then book ++ [diffLevel] else book,
      skipSame eps diffLevel.rate scratch)

/-- The first valid price of the opposite diff, or `-1`. -/
def cutPrice (shrink : List OrderBookLevel) : ℚ :=
  ((shrink.find? fun level => level.rate > eps.epsM).map (·.rate)).getD (-1)

/-- The level is on the wrong side of the cut. -/
def crosses (cut : ℚ) (level : OrderBookLevel) : Bool :=
  if isBuyBook then decide (level.rate ≥ cut) else decide (level.rate ≤ cut)

def cutCrossed (cut : ℚ) (book : List OrderBookLevel) : List OrderBookLevel :=
  if cut > 0 then book.dropWhile (crosses isBuyBook cut) else book

/-- `apply_order_book_diff_keep_zero_with_eps`. -/
def applyOrderBookDiffKeepZeroWithEps (book diff shrink : List OrderBookLevel) :
    List OrderBookLevel :=
  if diff.isEmpty then book
  else
    let (book, scratch) := diff.foldl (mergeLevel isBuyBook eps) ([], book)
    cutCrossed isBuyBook (cutPrice eps shrink) (book ++ scratch)

/-! ## The price map -/

/-- How far a price is from the best one of its side. -/
def depth (rate : ℚ) : ℚ :=
  if isBuyBook then -rate else rate

/-- The side is strictly sorted, best price first. -/
def BestFirst (side : List OrderBookLevel) : Prop :=
  side.Pairwise fun a b => depth isBuyBook a.rate < depth isBuyBook b.rate

instance (side : List OrderBookLevel) : Decidable (BestFirst isBuyBook side) :=
  inferInstanceAs (Decidable (side.Pairwise _))

/-- The levels of the updated price map: what the diff puts, and what it does not mention. -/
def Updated (book diff : List OrderBookLevel) (level : OrderBookLevel) : Prop :=
  (level ∈ diff ∧ level.quantity > eps.eps) ∨
    (level ∈ book ∧ ∀ d ∈ diff, sameRate eps d.rate level = false)

/-- Every price of the diff is that of one book level at most, and no book level is better
than a price of the diff by exactly the tolerance. -/
structure Aligned (book diff : List OrderBookLevel) : Prop where
  unique : ∀ d ∈ diff, ∀ a ∈ book, ∀ b ∈ book, sameRate eps d.rate a = true →
    sameRate eps d.rate b = true → a = b
  apart : ∀ d ∈ diff, ∀ a ∈ book,
    depth isBuyBook a.rate ≠ depth isBuyBook d.rate - eps.epsM

/-- The first price of the opposite diff that is above the tolerance. -/
def FirstValid (shrink : List OrderBookLevel) (cut : ℚ) : Prop :=
  ∃ before level after, shrink = before ++ level :: after ∧ (∀ a ∈ before, a.rate ≤ eps.epsM) ∧
    eps.epsM < level.rate ∧ level.rate = cut

/-- The merged side is the updated price map without the levels that are as good as the first
valid opposite price or better. -/
structure Merged (book diff shrink result : List OrderBookLevel) : Prop where
  levels : ∀ level, level ∈ result ↔ Updated eps book diff level ∧
    ∀ cut, FirstValid eps shrink cut → depth isBuyBook cut < depth isBuyBook level.rate
  sorted : BestFirst isBuyBook result

section

variable {isBuyBook} {eps} {book diff shrink : List OrderBookLevel}

/-! ## One level of the diff -/

variable {level d : OrderBookLevel}

theorem copies_iff {d : ℚ} : copies isBuyBook eps d level = true ↔
    depth isBuyBook level.rate < depth isBuyBook d - eps.epsM := by
  cases isBuyBook
  · simp [copies, depth]
  · simp only [copies, depth, if_true, decide_eq_true_iff]
    constructor
    · intro h
      linarith
    · intro h
      linarith

theorem sameRate_iff (isBuyBook : Bool) {d : ℚ} :
    sameRate eps d level = true ↔ depth isBuyBook d - eps.epsM < depth isBuyBook level.rate ∧
      depth isBuyBook level.rate < depth isBuyBook d + eps.epsM := by
  rw [sameRate, decide_eq_true_iff, abs_lt]
  cases isBuyBook
  · simp only [depth, Bool.false_eq_true, if_false]
    constructor
    · rintro ⟨hlow, hhigh⟩
      constructor <;> linarith
    · rintro ⟨hlow, hhigh⟩
      constructor <;> linarith
  · simp only [depth, if_true]
    constructor
    · rintro ⟨hlow, hhigh⟩
      constructor <;> linarith
    · rintro ⟨hlow, hhigh⟩
      constructor <;> linarith

theorem behind {d : ℚ} (hapart : depth isBuyBook level.rate ≠ depth isBuyBook d - eps.epsM)
    (hcopies : copies isBuyBook eps d level = false) (hsame : sameRate eps d level = false) :
    depth isBuyBook d + eps.epsM ≤ depth isBuyBook level.rate := by
  rw [← Bool.not_eq_true, copies_iff, not_lt] at hcopies
  rw [← Bool.not_eq_true, sameRate_iff isBuyBook, not_and, not_lt] at hsame
  exact hsame (lt_of_le_of_ne hcopies hapart.symm)

theorem Aligned.of_cons {rest : List OrderBookLevel}
    (h : Aligned isBuyBook eps book (d :: diff)) (hsub : ∀ a ∈ rest, a ∈ book) :
    Aligned isBuyBook eps rest diff where
  unique d' hd' a ha b hb := h.unique d' (mem_cons_of_mem _ hd') a (hsub a ha) b (hsub b hb)
  apart d' hd' a ha := h.apart d' (mem_cons_of_mem _ hd') a (hsub a ha)

/-- **A price of the diff splits the old side** in the levels before it, the one it replaces,
if any, and the levels behind it. -/
theorem split_at (hsorted : BestFirst isBuyBook book) (h : Aligned isBuyBook eps book (d :: diff)) :
    ∃ same, book = book.takeWhile (copies isBuyBook eps d.rate) ++ (same ++
        skipSame eps d.rate (book.dropWhile (copies isBuyBook eps d.rate))) ∧
      (∀ a ∈ same, sameRate eps d.rate a = true) ∧
      ∀ a ∈ skipSame eps d.rate (book.dropWhile (copies isBuyBook eps d.rate)),
        depth isBuyBook d.rate + eps.epsM ≤ depth isBuyBook a.rate := by
  have happend := takeWhile_append_dropWhile (p := copies isBuyBook eps d.rate) (l := book)
  have hsub : ∀ a ∈ book.dropWhile (copies isBuyBook eps d.rate), a ∈ book := fun a ha =>
    happend ▸ mem_append_right _ ha
  have hrest : BestFirst isBuyBook (book.dropWhile (copies isBuyBook eps d.rate)) :=
    hsorted.sublist (dropWhile_sublist _)
  have hhead := head?_dropWhile_not (copies isBuyBook eps d.rate) book
  have hd : d ∈ d :: diff := mem_cons_self
  revert happend hsub hrest hhead
  generalize book.dropWhile (copies isBuyBook eps d.rate) = rest
  intro happend hsub hrest hhead
  cases rest with
  | nil =>
    exact ⟨[], happend.symm, fun a ha => (nomatch ha), fun a ha => (nomatch ha)⟩
  | cons level rest =>
    rw [BestFirst, pairwise_cons] at hrest
    have hlevel : level ∈ book := hsub level mem_cons_self
    simp only [skipSame]
    by_cases hsame : sameRate eps d.rate level = true
    · rw [if_pos hsame]
      refine ⟨[level], happend.symm, fun a ha => ?_, fun a ha => ?_⟩
      · rwa [mem_singleton.mp ha]
      · have hmem : a ∈ book := hsub a (mem_cons_of_mem _ ha)
        have hafter := hrest.1 a ha
        have hnot : sameRate eps d.rate a = false := by
          rw [← Bool.not_eq_true]
          intro hsame'
          rw [h.unique d hd a hmem level hlevel hsame' hsame] at hafter
          exact lt_irrefl _ hafter
        refine behind (h.apart d hd a hmem) ?_ hnot
        rw [← Bool.not_eq_true, copies_iff, not_lt]
        exact (((sameRate_iff isBuyBook).mp hsame).1.trans hafter).le
    · rw [if_neg hsame]
      have hfirst : depth isBuyBook d.rate + eps.epsM ≤ depth isBuyBook level.rate :=
        behind (h.apart d hd level hlevel) (by simpa using hhead) (by simpa using hsame)
      refine ⟨[], happend.symm, fun a ha => (nomatch ha), fun a ha => ?_⟩
      rcases mem_cons.mp ha with rfl | ha
      · exact hfirst
      · exact hfirst.trans (hrest.1 a ha).le

/-! ## The whole diff -/

variable (isBuyBook) (eps) in
/-- What the loop over the diff adds to the book, with the rest of the old side behind it. -/
def mergeFrom : List OrderBookLevel → List OrderBookLevel → List OrderBookLevel
  | [], scratch => scratch
  | d :: diff, scratch =>
    scratch.takeWhile (copies isBuyBook eps d.rate) ++
      ((if d.quantity > eps.eps then [d] else []) ++
        mergeFrom diff (skipSame eps d.rate (scratch.dropWhile (copies isBuyBook eps d.rate))))

theorem foldl_mergeLevel : ∀ (diff built scratch : List OrderBookLevel),
    (diff.foldl (mergeLevel isBuyBook eps) (built, scratch)).1 ++
      (diff.foldl (mergeLevel isBuyBook eps) (built, scratch)).2 =
    built ++ mergeFrom isBuyBook eps diff scratch
  | [], _, _ => rfl
  | d :: diff, built, scratch => by
    rw [foldl_cons, mergeLevel, foldl_mergeLevel, mergeFrom]
    split
    · rw [append_assoc, append_assoc]
    · rw [append_assoc, nil_append]

/-- Before a price of the diff nothing has that price or a later one. -/
theorem not_sameRate_of_copies {d' : OrderBookLevel}
    (hcopies : copies isBuyBook eps d.rate level = true)
    (hle : depth isBuyBook d.rate ≤ depth isBuyBook d'.rate) :
    sameRate eps d'.rate level = false := by
  rw [← Bool.not_eq_true, sameRate_iff isBuyBook]
  rintro ⟨hlow, -⟩
  rw [copies_iff] at hcopies
  linarith

theorem mem_put : level ∈ (if d.quantity > eps.eps then [d] else []) ↔
      level = d ∧ level.quantity > eps.eps := by
  split
  · next hput =>
    rw [mem_singleton]
    exact ⟨fun h => ⟨h, h ▸ hput⟩, And.left⟩
  · next hput =>
    refine ⟨nofun, ?_⟩
    rintro ⟨rfl, h⟩
    exact absurd h hput

variable (isBuyBook) (eps) in
/-- What one price of the diff does, with everything the two parts of the result need. -/
structure Split (d : OrderBookLevel) (diff scratch before same rest : List OrderBookLevel) :
    Prop where
  scratch_eq : scratch = before ++ (same ++ rest)
  merge_eq : mergeFrom isBuyBook eps (d :: diff) scratch =
    before ++ ((if d.quantity > eps.eps then [d] else []) ++ mergeFrom isBuyBook eps diff rest)
  before_copied : ∀ a ∈ before, copies isBuyBook eps d.rate a = true
  same_rate : ∀ a ∈ same, sameRate eps d.rate a = true
  rest_behind : ∀ a ∈ rest, depth isBuyBook d.rate + eps.epsM ≤ depth isBuyBook a.rate
  rest_sorted : BestFirst isBuyBook rest
  rest_aligned : Aligned isBuyBook eps rest diff

theorem exists_split {diff scratch : List OrderBookLevel} (hscratch : BestFirst isBuyBook scratch)
    (haligned : Aligned isBuyBook eps scratch (d :: diff)) :
    ∃ before same rest, Split isBuyBook eps d diff scratch before same rest := by
  obtain ⟨same, hsplit, hsame, hbehind⟩ := split_at hscratch haligned
  have hsub : (skipSame eps d.rate (scratch.dropWhile (copies isBuyBook eps d.rate))).Sublist
      scratch := by
    conv_rhs => rw [hsplit]
    exact (sublist_append_right same _).trans (sublist_append_right _ _)
  exact ⟨_, same, _, hsplit, rfl, fun a ha => mem_takeWhile_imp ha, hsame, hbehind,
    hscratch.sublist hsub, haligned.of_cons fun a ha => hsub.subset ha⟩

/-- **The levels of the merged side** are those of the updated price map. -/
theorem mem_mergeFrom : ∀ {diff scratch : List OrderBookLevel}, BestFirst isBuyBook scratch →
    BestFirst isBuyBook diff → Aligned isBuyBook eps scratch diff → ∀ level,
    level ∈ mergeFrom isBuyBook eps diff scratch ↔ Updated eps scratch diff level
  | [], scratch, _, _, _, level => by
    simp [mergeFrom, Updated]
  | d :: diff, scratch, hscratch, hdiff, haligned, level => by
    obtain ⟨before, same, rest, h⟩ := exists_split hscratch haligned
    obtain ⟨hlater, hdiff⟩ := pairwise_cons.mp hdiff
    have ih := mem_mergeFrom h.rest_sorted hdiff h.rest_aligned level
    rw [h.merge_eq, mem_append, mem_append, mem_put, ih, Updated, Updated,
      h.scratch_eq, forall_mem_cons]
    simp only [mem_append, mem_cons]
    constructor
    · rintro (hbefore | ⟨rfl, hput⟩ | ⟨hmem, hput⟩ | ⟨hmem, hnot⟩)
      · have hcopied := h.before_copied level hbefore
        refine .inr ⟨.inl hbefore, not_sameRate_of_copies hcopied le_rfl, ?_⟩
        intro d' hd'
        exact not_sameRate_of_copies hcopied (hlater d' hd').le
      · exact .inl ⟨.inl rfl, hput⟩
      · exact .inl ⟨.inr hmem, hput⟩
      · refine .inr ⟨.inr (.inr hmem), ?_, hnot⟩
        rw [← Bool.not_eq_true, sameRate_iff isBuyBook]
        rintro ⟨-, hhigh⟩
        exact absurd hhigh (not_lt.mpr (h.rest_behind level hmem))
    · rintro (⟨rfl | hmem, hput⟩ | ⟨hbefore | hmem | hmem, hnot, hnots⟩)
      · exact .inr (.inl ⟨rfl, hput⟩)
      · exact .inr (.inr (.inl ⟨hmem, hput⟩))
      · exact .inl hbefore
      · rw [h.same_rate level hmem] at hnot
        exact absurd hnot (by decide)
      · exact .inr (.inr (.inr ⟨hmem, hnots⟩))

/-- **The merged side is sorted**: what is copied is better than the price of the diff, and
everything that follows is worse. -/
theorem mergeFrom_bestFirst : ∀ {diff scratch : List OrderBookLevel},
    BestFirst isBuyBook scratch → BestFirst isBuyBook diff →
    Aligned isBuyBook eps scratch diff → BestFirst isBuyBook (mergeFrom isBuyBook eps diff scratch)
  | [], _, hscratch, _, _ => hscratch
  | d :: diff, scratch, hscratch, hdiff, haligned => by
    obtain ⟨before, same, rest, h⟩ := exists_split hscratch haligned
    obtain ⟨hlater, hdiff⟩ := pairwise_cons.mp hdiff
    have hpos := eps.epsM_pos
    have hworse : ∀ a ∈ mergeFrom isBuyBook eps diff rest,
        depth isBuyBook d.rate < depth isBuyBook a.rate := by
      intro a ha
      rcases (mem_mergeFrom h.rest_sorted hdiff h.rest_aligned a).mp ha with ⟨hmem, -⟩ | ⟨hmem, -⟩
      · exact hlater a hmem
      · linarith [h.rest_behind a hmem]
    rw [h.merge_eq, BestFirst, pairwise_append, pairwise_append]
    refine ⟨?_, ⟨?_, mergeFrom_bestFirst h.rest_sorted hdiff h.rest_aligned, ?_⟩, ?_⟩
    · rw [h.scratch_eq] at hscratch
      exact (pairwise_append.mp hscratch).1
    · split
      · exact pairwise_singleton _ d
      · exact List.Pairwise.nil
    · intro a ha b hb
      rw [(mem_put.mp ha).1]
      exact hworse b hb
    · intro a ha b hb
      have hbetter := copies_iff.mp (h.before_copied a ha)
      rcases mem_append.mp hb with hb | hb
      · rw [(mem_put.mp hb).1]
        linarith
      · linarith [hworse b hb]

/-! ## The cut -/

theorem crosses_iff {cut : ℚ} : crosses isBuyBook cut level = true ↔
    depth isBuyBook level.rate ≤ depth isBuyBook cut := by
  cases isBuyBook <;> simp [crosses, depth]

/-- In a sorted side the levels that cross come first, so the cut takes exactly these. -/
theorem mem_dropWhile_crosses {cut : ℚ} : ∀ {side : List OrderBookLevel}, BestFirst isBuyBook side →
    (level ∈ side.dropWhile (crosses isBuyBook cut) ↔
      level ∈ side ∧ depth isBuyBook cut < depth isBuyBook level.rate)
  | [], _ => by simp
  | a :: side, hside => by
    obtain ⟨hfirst, hside⟩ := pairwise_cons.mp hside
    rw [dropWhile_cons, mem_cons]
    by_cases ha : crosses isBuyBook cut a = true
    · rw [if_pos ha, mem_dropWhile_crosses hside]
      refine and_congr_left fun hlevel => (or_iff_right ?_).symm
      rintro rfl
      exact absurd (crosses_iff.mp ha) (not_le.mpr hlevel)
    · rw [if_neg ha, mem_cons]
      rw [crosses_iff, not_le] at ha
      refine (and_iff_left_of_imp ?_).symm
      rintro (rfl | hmem)
      · exact ha
      · exact ha.trans (hfirst level hmem)

theorem firstValid_iff {cut : ℚ} : FirstValid eps shrink cut ↔
    (shrink.find? fun level => level.rate > eps.epsM).map (·.rate) = some cut := by
  simp only [FirstValid, map_eq_some_iff, find?_eq_some_iff_append, decide_eq_true_iff,
    Bool.not_eq_true', decide_eq_false_iff_not, gt_iff_lt, not_lt]
  constructor
  · rintro ⟨before, level, after, heq, hbefore, hvalid, hcut⟩
    exact ⟨level, ⟨hvalid, before, after, heq, hbefore⟩, hcut⟩
  · rintro ⟨level, ⟨hvalid, before, after, heq, hbefore⟩, hcut⟩
    exact ⟨before, level, after, heq, hbefore, hvalid, hcut⟩

theorem mem_cutCrossed {side : List OrderBookLevel} (hside : BestFirst isBuyBook side) :
    level ∈ cutCrossed isBuyBook (cutPrice eps shrink) side ↔ level ∈ side ∧
      ∀ cut, FirstValid eps shrink cut → depth isBuyBook cut < depth isBuyBook level.rate := by
  simp only [firstValid_iff]
  cases hfind : shrink.find? fun level => level.rate > eps.epsM with
  | none =>
    have hcut : cutPrice eps shrink = -1 := by rw [cutPrice, hfind, map_none, getD_none]
    rw [cutCrossed, hcut, if_neg (by norm_num)]
    simp
  | some first =>
    have hcut : cutPrice eps shrink = first.rate := by rw [cutPrice, hfind, map_some, getD_some]
    have hvalid : eps.epsM < first.rate := by simpa using find?_some hfind
    rw [cutCrossed, hcut, if_pos (eps.epsM_pos.trans hvalid), mem_dropWhile_crosses hside]
    simp

theorem cutCrossed_sublist (cut : ℚ) (side : List OrderBookLevel) :
    (cutCrossed isBuyBook cut side).Sublist side := by
  unfold cutCrossed
  split
  · exact dropWhile_sublist _
  · exact Sublist.refl _

end

/-- **A diff updates the price map.** A diff that is not empty and sorted like the book puts
its levels with a quantity, deletes or replaces the levels it mentions and leaves the others,
in order; then the levels that cross the first valid opposite price are cut off. An empty diff
changes nothing. Prices must not be ambiguous: none of the diff is that of two book levels, and
none is worse than a book level by exactly the tolerance. -/
theorem diff_merge_updates_map (isBuyBook : Bool) (eps : EpsProfile)
    {book diff : List OrderBookLevel} (shrink : List OrderBookLevel)
    (hbook : BestFirst isBuyBook book) (hdiff : BestFirst isBuyBook diff)
    (haligned : Aligned isBuyBook eps book diff) :
    (diff ≠ [] → Merged isBuyBook eps book diff shrink
      (applyOrderBookDiffKeepZeroWithEps isBuyBook eps book diff shrink)) ∧
    (diff = [] → applyOrderBookDiffKeepZeroWithEps isBuyBook eps book diff shrink = book) := by
  refine ⟨fun hsome => ?_, fun hnone => ?_⟩
  · have hsorted := mergeFrom_bestFirst hbook hdiff haligned
    have hresult : applyOrderBookDiffKeepZeroWithEps isBuyBook eps book diff shrink =
        cutCrossed isBuyBook (cutPrice eps shrink) (mergeFrom isBuyBook eps diff book) := by
      rw [applyOrderBookDiffKeepZeroWithEps, if_neg (by rwa [List.isEmpty_iff])]
      dsimp only
      rw [foldl_mergeLevel, nil_append]
    rw [hresult]
    refine ⟨fun level => ?_, hsorted.sublist (cutCrossed_sublist _ _)⟩
    rw [mem_cutCrossed hsorted, mem_mergeFrom hbook hdiff haligned]
  · rw [applyOrderBookDiffKeepZeroWithEps, hnone]
    rfl

/-- Bids: one level deleted, one replaced, one put between, and the best cut off. -/
theorem diff_merge_updates_map_bids :
    applyOrderBookDiffKeepZeroWithEps true .binance [⟨11, 1⟩, ⟨10, 1⟩, ⟨9, 1⟩, ⟨7, 1⟩]
      [⟨10, 0⟩, ⟨9, 5⟩, ⟨8, 2⟩] [⟨0, 1⟩, ⟨21 / 2, 1⟩] = [⟨9, 5⟩, ⟨8, 2⟩, ⟨7, 1⟩] ∧
    Merged true .binance [⟨11, 1⟩, ⟨10, 1⟩, ⟨9, 1⟩, ⟨7, 1⟩] [⟨10, 0⟩, ⟨9, 5⟩, ⟨8, 2⟩]
      [⟨0, 1⟩, ⟨21 / 2, 1⟩] (applyOrderBookDiffKeepZeroWithEps true .binance
        [⟨11, 1⟩, ⟨10, 1⟩, ⟨9, 1⟩, ⟨7, 1⟩] [⟨10, 0⟩, ⟨9, 5⟩, ⟨8, 2⟩] [⟨0, 1⟩, ⟨21 / 2, 1⟩]) :=
  ⟨by decide +kernel, (diff_merge_updates_map true .binance _ (by decide +kernel)
    (by decide +kernel) ⟨by decide +kernel, by decide +kernel⟩).1 (by decide)⟩

/-- **Three bids that are no map update.** An empty diff leaves a crossed level; a price that
is worse than a level by the tolerance comes before it; a price between two levels that are
closer than twice the tolerance deletes only the first. -/
theorem diff_merge_corner_cases : let e := EpsProfile.binance.epsM
    (applyOrderBookDiffKeepZeroWithEps true .binance [⟨10, 1⟩] [] [⟨9, 1⟩] = [⟨10, 1⟩] ∧
      crosses true (cutPrice .binance [⟨9, 1⟩]) ⟨10, 1⟩ = true) ∧
    ¬ BestFirst true
      (applyOrderBookDiffKeepZeroWithEps true .binance [⟨10, 1⟩] [⟨10 - e, 1⟩] []) ∧
    applyOrderBookDiffKeepZeroWithEps true .binance [⟨10, 1⟩, ⟨10 - 3 / 2 * e, 1⟩]
      [⟨10 - 3 / 4 * e, 0⟩] [] = [⟨10 - 3 / 2 * e, 1⟩] ∧
    sameRate .binance (10 - 3 / 4 * e) ⟨10 - 3 / 2 * e, 1⟩ = true := by
  decide +kernel

end OrderBookDiff

end MoonProto
