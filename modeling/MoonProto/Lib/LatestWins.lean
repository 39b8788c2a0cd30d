import Mathlib.Data.List.Nodup
import Mathlib.Data.List.Perm.Subperm

/-!
# Latest wins

A sender has items that wait for their first transmission and items that it keeps
for repetition. An item may carry a key, and then it replaces an older item with
the same key, in both places. Every removal drops the first match only; that this
is enough rests on the invariant that no key occurs twice.

What the discipline is for is said about the log of transmissions: the items of
one key only get newer.
-/

namespace LatestWins

open List

/-- What the discipline looks at: the key of an item, if it has one, and the
number of its arrival. -/
structure Mark (κ : Type*) where
  key : Option κ
  stamp : Nat

variable {κ : Type*}

/-- No key occurs twice. -/
def Unique (l : List (Mark κ)) : Prop := (l.filterMap Mark.key).Nodup

/-- Along the list, the items of one key only get newer. -/
def Renews (log : List (Mark κ)) : Prop :=
  log.Pairwise fun a b => ∀ k, a.key = some k → b.key = some k → a.stamp ≤ b.stamp

namespace Unique

variable {l l' : List (Mark κ)}

theorem subperm (h : Unique l) (hl : l'.Subperm l) : Unique l' := by
  obtain ⟨l₁, hperm, hsub⟩ := hl
  exact (hperm.filterMap Mark.key).nodup_iff.mp (Nodup.sublist (hsub.filterMap Mark.key) h)

theorem append (h : Unique l) (h' : Unique l')
    (hdisj : ∀ m ∈ l, ∀ w ∈ l', ∀ k, m.key = some k → w.key ≠ some k) : Unique (l ++ l') := by
  unfold Unique
  rw [filterMap_append, nodup_append]
  refine ⟨h, h', ?_⟩
  rintro k hk k' hk' rfl
  obtain ⟨m, hm, hmk⟩ := mem_filterMap.mp hk
  obtain ⟨w, hw, hwk⟩ := mem_filterMap.mp hk'
  exact hdisj m hm w hw k hmk hwk

/-- A key points to one item. -/
theorem eq_of_key {a b : Mark κ} {k : κ} : ∀ {l : List (Mark κ)}, Unique l → a ∈ l → b ∈ l →
    a.key = some k → b.key = some k → a = b
  | m :: l, h, ha, hb, hka, hkb => by
    have hl : Unique l := Nodup.sublist ((sublist_cons_self m l).filterMap _) h
    -- an item with the key of the head cannot be in the tail
    have hhead : ∀ c ∈ l, m.key = some k → c.key = some k → False := by
      intro c hc hmk hck
      have hnodup : (k :: l.filterMap Mark.key).Nodup := by
        have := h
        unfold Unique at this
        rwa [filterMap_cons_some hmk] at this
      exact (nodup_cons.mp hnodup).1 (mem_filterMap.mpr ⟨c, hc, hck⟩)
    rcases mem_cons.mp ha with heq | ha'
    · rcases mem_cons.mp hb with heq' | hb'
      · exact heq.trans heq'.symm
      · exact (hhead b hb' (heq ▸ hka) hkb).elim
    · rcases mem_cons.mp hb with heq' | hb'
      · exact (hhead a ha' (heq' ▸ hkb) hka).elim
      · exact eq_of_key hl ha' hb' hka hkb

theorem stamp_le {a b : Mark κ} {k : κ} (h : Unique l) (ha : a ∈ l) (hb : b ∈ l)
    (hka : a.key = some k) (hkb : b.key = some k) : a.stamp ≤ b.stamp :=
  Nat.le_of_eq (congrArg Mark.stamp (h.eq_of_key ha hb hka hkb))

theorem renews (h : Unique l) : Renews l := by
  induction l with
  | nil => exact List.Pairwise.nil
  | cons m l ih =>
    have hl : Unique l := Nodup.sublist ((sublist_cons_self m l).filterMap _) h
    refine List.Pairwise.cons (fun b hb k hm hkb => ?_) (ih hl)
    exact h.stamp_le mem_cons_self (mem_cons_of_mem m hb) hm hkb

end Unique

/-! ## The sender -/

structure Sender (κ : Type*) where
  waiting : List (Mark κ)
  kept : List (Mark κ)
  log : List (Mark κ)

namespace Sender

/-- `next` is the number of items that have arrived. -/
structure Inv (next : Nat) (s : Sender κ) : Prop where
  waiting : Unique s.waiting
  kept : Unique s.kept
  log : Renews s.log
  above : ∀ w ∈ s.waiting, ∀ m, m ∈ s.kept ∨ m ∈ s.log → m.stamp ≤ w.stamp
  born : ∀ m, m ∈ s.waiting ∨ m ∈ s.kept ∨ m ∈ s.log → m.stamp < next
  latest : ∀ p ∈ s.kept, ∀ m ∈ s.log, ∀ k, m.key = some k → p.key = some k → m.stamp ≤ p.stamp

variable {s : Sender κ} {next : Nat}

theorem Inv.empty : Inv next (⟨[], [], []⟩ : Sender κ) where
  waiting := nodup_nil
  kept := nodup_nil
  log := List.Pairwise.nil
  above := nofun
  born := by
    rintro m (hm | hm | hm)
    · cases hm
    · cases hm
    · cases hm
  latest := nofun

theorem Inv.mono (h : s.Inv next) {next' : Nat} (hle : next ≤ next') : s.Inv next' :=
  { h with born := fun m hm => Nat.lt_of_lt_of_le (h.born m hm) hle }

theorem Inv.forget (h : s.Inv next) : Inv next { s with kept := [] } where
  waiting := h.waiting
  kept := nodup_nil
  log := h.log
  above := fun w hw m hm => h.above w hw m (.inr (hm.resolve_left not_mem_nil))
  born := by
    rintro m (hm | hm | hm)
    · exact h.born m (.inl hm)
    · cases hm
    · exact h.born m (.inr (.inr hm))
  latest := nofun

/-- **An item arrives** behind what is left of the waiting items without its key. -/
theorem Inv.enqueue (h : s.Inv next) {left : List (Mark κ)} {key : Option κ}
    (hleft : left.Sublist s.waiting) (hdrop : ∀ m ∈ left, ∀ k, key = some k → m.key ≠ some k) :
    Inv (next + 1) { s with waiting := left ++ [⟨key, next⟩] } where
  waiting := by
    refine (h.waiting.subperm hleft.subperm).append ?_ ?_
    · unfold Unique
      cases key with
      | none => exact nodup_nil
      | some k => exact nodup_singleton k
    · rintro m hm w hw k hmk hwk
      rw [mem_singleton.mp hw] at hwk
      exact hdrop m hm k hwk hmk
  kept := h.kept
  log := h.log
  above := by
    intro w hw m hm
    rcases mem_append.mp hw with hw | hw
    · exact h.above w (hleft.subset hw) m hm
    · rw [mem_singleton.mp hw]
      exact Nat.le_of_lt (h.born m (.inr hm))
  born := by
    rintro m (hm | hm)
    · rcases mem_append.mp hm with hm | hm
      · exact Nat.lt_succ_of_lt (h.born m (.inl (hleft.subset hm)))
      · rw [mem_singleton.mp hm]
        exact Nat.lt_succ_self next
    · exact Nat.lt_succ_of_lt (h.born m (.inr hm))
  latest := h.latest

/-- **A tick**: what is kept is cleaned of the keys of the waiting items, some of
these are sent and held together with what was kept, some of what is held is
repeated, and some of it stays. -/
theorem Inv.tick (h : s.Inv next) {cleaned firsts held repeats rest : List (Mark κ)}
    (hcleaned : cleaned.Sublist s.kept)
    (hdrop : ∀ m ∈ cleaned, ∀ w ∈ s.waiting, ∀ k, m.key = some k → w.key ≠ some k)
    (hfirsts : firsts.Sublist s.waiting) (hheld : held.Subperm (cleaned ++ s.waiting))
    (hrepeats : ∀ m ∈ repeats, m ∈ held) (hrest : rest.Subperm held) :
    Inv next ⟨[], rest, s.log ++ firsts ++ repeats⟩ := by
  have hunique : Unique held :=
    ((h.kept.subperm hcleaned.subperm).append h.waiting hdrop).subperm hheld
  have hmem : ∀ m ∈ held, m ∈ s.kept ∧ m ∈ cleaned ∨ m ∈ s.waiting := fun m hm =>
    (mem_append.mp (hheld.subset hm)).imp_left fun hc => ⟨hcleaned.subset hc, hc⟩
  -- what is held is at least as new as everything sent under its key
  have hlatest : ∀ p ∈ held, ∀ m, m ∈ s.log ∨ m ∈ firsts → ∀ k, m.key = some k →
      p.key = some k → m.stamp ≤ p.stamp := by
    intro p hp m hm k hmk hpk
    rcases hmem p hp with ⟨hkept, hclean⟩ | hwait
    · rcases hm with hm | hm
      · exact h.latest p hkept m hm k hmk hpk
      · exact absurd hmk (hdrop p hclean m (hfirsts.subset hm) k hpk)
    · rcases hm with hm | hm
      · exact h.above p hwait m (.inr hm)
      · exact h.waiting.stamp_le (hfirsts.subset hm) hwait hmk hpk
  have hrepeat : ∀ p ∈ held, ∀ m ∈ repeats, ∀ k, m.key = some k → p.key = some k →
      m.stamp ≤ p.stamp :=
    fun p hp m hm k hmk hpk => hunique.stamp_le (hrepeats m hm) hp hmk hpk
  have hborn : ∀ p ∈ held, p.stamp < next := fun p hp => by
    rcases hmem p hp with ⟨hkept, -⟩ | hwait
    · exact h.born p (.inr (.inl hkept))
    · exact h.born p (.inl hwait)
  refine ⟨nodup_nil, hunique.subperm hrest, ?_, nofun, ?_, ?_⟩
  · refine pairwise_append.mpr ⟨pairwise_append.mpr
      ⟨h.log, (h.waiting.subperm hfirsts.subperm).renews, ?_⟩, ?_, ?_⟩
    · exact fun m hm w hw _ _ _ => h.above w (hfirsts.subset hw) m (.inr hm)
    · refine List.Pairwise.imp_of_mem (R := fun _ _ => True) ?_ (pairwise_of_forall
        fun _ _ => trivial)
      exact fun ha hb _ k hak hbk => hrepeat _ (hrepeats _ hb) _ ha k hak hbk
    · exact fun m hm r hr k hmk hrk =>
        hlatest r (hrepeats r hr) m (mem_append.mp hm) k hmk hrk
  · rintro m (hm | hm | hm)
    · cases hm
    · exact hborn m (hrest.subset hm)
    · rcases mem_append.mp hm with hm | hm
      · rcases mem_append.mp hm with hm | hm
        · exact h.born m (.inr (.inr hm))
        · exact h.born m (.inl (hfirsts.subset hm))
      · exact hborn m (hrepeats m hm)
  · intro p hp m hm k hmk hpk
    rcases mem_append.mp hm with hm | hm
    · exact hlatest p (hrest.subset hp) m (mem_append.mp hm) k hmk hpk
    · exact hrepeat p (hrest.subset hp) m hm k hmk hpk

end Sender

/-! ## Dropping the first match -/

section Drop

variable {ε δ : Type*} [DecidableEq κ] (key : ε → Option κ)

/-- Remove the first element with the key, if there is a key. -/
def dropKey : Option κ → List ε → List ε
  | none, l => l
  | some k, l => l.eraseP fun x => key x == some k

/-- Remove the first match of each key in turn. -/
def dropKeys (ks : List (Option κ)) (l : List ε) : List ε :=
  ks.foldl (fun l k => dropKey key k l) l

variable {key}

theorem dropKey_sublist (k : Option κ) (l : List ε) : (dropKey key k l).Sublist l := by
  cases k with
  | none => exact Sublist.refl l
  | some k => exact eraseP_sublist

theorem dropKeys_sublist : ∀ (ks : List (Option κ)) (l : List ε), (dropKeys key ks l).Sublist l
  | [], l => Sublist.refl l
  | k :: ks, l => (dropKeys_sublist ks (dropKey key k l)).trans (dropKey_sublist k l)

theorem map_dropKey (f : δ → ε) (k : Option κ) (l : List δ) :
    (dropKey (key ∘ f) k l).map f = dropKey key k (l.map f) := by
  cases k with
  | none => rfl
  | some k =>
    rw [dropKey, dropKey, eraseP_map]
    rfl

theorem map_dropKeys (f : δ → ε) : ∀ (ks : List (Option κ)) (l : List δ),
    (dropKeys (key ∘ f) ks l).map f = dropKeys key ks (l.map f)
  | [], _ => rfl
  | k :: ks, l => by
    refine (map_dropKeys f ks (dropKey (key ∘ f) k l)).trans ?_
    rw [map_dropKey]
    rfl

/-- Where no key occurs twice, the first match is the only one. -/
theorem key_ne_of_mem_dropKey {k : κ} {x : ε} : ∀ {l : List ε}, (l.filterMap key).Nodup →
    x ∈ dropKey key (some k) l → key x ≠ some k
  | y :: l, hnodup, hx, hxk => by
    have htail : (l.filterMap key).Nodup :=
      Nodup.sublist ((sublist_cons_self y l).filterMap key) hnodup
    by_cases hy : key y = some k
    · have hx : x ∈ l := by simpa [dropKey, eraseP_cons, hy] using hx
      rw [filterMap_cons_some hy, nodup_cons] at hnodup
      exact hnodup.1 (mem_filterMap.mpr ⟨x, hx, hxk⟩)
    · have hx : x ∈ y :: dropKey key (some k) l := by
        simpa [dropKey, eraseP_cons, hy] using hx
      rcases mem_cons.mp hx with rfl | hx
      · exact hy hxk
      · exact key_ne_of_mem_dropKey htail hx hxk

theorem key_ne_of_mem_dropKeys {k : κ} {x : ε} : ∀ {ks : List (Option κ)} {l : List ε},
    (l.filterMap key).Nodup → some k ∈ ks → x ∈ dropKeys key ks l → key x ≠ some k
  | k' :: ks, l, hnodup, hk, hx => by
    have hsub : (dropKey key k' l).Sublist l := dropKey_sublist k' l
    rcases mem_cons.mp hk with rfl | hk
    · exact key_ne_of_mem_dropKey hnodup ((dropKeys_sublist ks _).subset hx)
    · exact key_ne_of_mem_dropKeys (Nodup.sublist (hsub.filterMap key) hnodup) hk hx

/-- The elements without a key, or with another key, stay as they are. -/
theorem filter_dropKey {p : ε → Bool} {k : Option κ}
    (hp : ∀ x, p x = true → ∀ k', k = some k' → key x ≠ some k') (l : List ε) :
    (dropKey key k l).filter p = l.filter p := by
  cases k with
  | none => rfl
  | some k =>
    induction l with
    | nil => rfl
    | cons y l ih =>
      by_cases hy : key y = some k
      · have hpy : p y = false := by
          rw [← Bool.not_eq_true]
          exact fun h => hp y h k rfl hy
        simp [dropKey, hy, hpy]
      · have heq : dropKey key (some k) (y :: l) = y :: dropKey key (some k) l := by
          simp [dropKey, hy]
        rw [heq, filter_cons, filter_cons, ih]

theorem filter_dropKeys {p : ε → Bool} : ∀ {ks : List (Option κ)},
    (∀ x, p x = true → ∀ k, some k ∈ ks → key x ≠ some k) → ∀ l : List ε,
    (dropKeys key ks l).filter p = l.filter p
  | [], _, _ => rfl
  | k :: ks, hp, l => by
    refine (filter_dropKeys (fun x hx k' hk' => hp x hx k' (mem_cons_of_mem k hk'))
      (dropKey key k l)).trans ?_
    refine filter_dropKey (fun x hx k' hk => hp x hx k' ?_) l
    rw [hk]
    exact mem_cons_self

end Drop

end LatestWins
