import Mathlib.Data.List.Nodup
import Mathlib.Logic.Relation

/-!
# Bounded retries

A sender gives each item a message number when it is first sent, keeps a copy
with the retries that are left, and repeats the copies in rounds until they are
used up or forgotten. `Act` lists what the sender may do in one step, whatever the
clock and the peer do; `Inv` is what every sequence of acts keeps. Items are named
by the order of their arrival.

The limit of an item bounds its transmissions. A number that is used and has no copy
is dead: it never appears in the log again.
-/

namespace Retries

open List

/-- A transmission. -/
structure Sent where
  item : Nat
  num : Nat
deriving DecidableEq

/-- What is kept of an item for its retries. -/
structure Copy where
  item : Nat
  num : Nat
  left : Nat

def Copy.sent (c : Copy) : Sent := ⟨c.item, c.num⟩

/-- `next` is the name of the next item, `used` the last number that was drawn. -/
structure Sender where
  next : Nat
  used : Nat
  waiting : List Nat
  kept : List Copy
  log : List Sent

/-- What a round leaves of a copy; it uses up one retry of those that are due. -/
def Copy.after (c : Copy × Bool) : Option Copy :=
  if c.2 then if c.1.left ≤ 1 then none else some { c.1 with left := c.1.left - 1 }
  else some c.1

theorem Copy.after_sent {c : Copy × Bool} {c' : Copy} (h : Copy.after c = some c') :
    c'.item = c.1.item ∧ c'.num = c.1.num := by
  unfold Copy.after at h
  split at h
  · split at h
    · cases h
    · cases h
      exact ⟨rfl, rfl⟩
  · cases h
    exact ⟨rfl, rfl⟩

/-- One step of the sender. -/
inductive Act (limit : Nat → Nat) : Sender → Sender → Prop
  /-- An item arrives, in place of some that wait, or somewhere else. -/
  | arrive {s : Sender} {left new : List Nat} (hleft : left.Sublist s.waiting)
      (hnew : new = [] ∨ new = [s.next]) :
      Act limit s { s with next := s.next + 1, waiting := left ++ new }
  /-- Numbers are drawn for something else. -/
  | draw {s : Sender} {used' : Nat} (hused : s.used ≤ used') :
      Act limit s { s with used := used' }
  | forget {s : Sender} {kept' : List Copy} (hkept : kept'.Sublist s.kept) :
      Act limit s { s with kept := kept' }
  /-- An item leaves without a transmission under a number. -/
  | skip {s : Sender} {i : Nat} {rest : List Nat} (hwaiting : s.waiting = i :: rest) :
      Act limit s { s with waiting := rest }
  | first {s : Sender} {i left : Nat} {rest : List Nat} (hwaiting : s.waiting = i :: rest)
      (hlimit : left + 1 ≤ limit i) :
      Act limit s { s with
        used := s.used + 1
        waiting := rest
        kept := s.kept ++ if left = 0 then [] else [⟨i, s.used + 1, left⟩]
        log := s.log ++ [⟨i, s.used + 1⟩] }
  /-- Some of the copies that are due are sent again. -/
  | round {s : Sender} (marked : List (Copy × Bool)) (hkept : s.kept = marked.map Prod.fst)
      {repeats : List Sent}
      (hrepeats : repeats.Sublist ((marked.filter Prod.snd).map (Copy.sent ∘ Prod.fst))) :
      Act limit s { s with kept := marked.filterMap Copy.after, log := s.log ++ repeats }

variable {limit : Nat → Nat} {s s' : Sender}

namespace Sender

/-- How often an item was sent. -/
def spent (s : Sender) (i : Nat) : Nat := (s.log.map Sent.item).count i

structure Inv (limit : Nat → Nat) (s : Sender) : Prop where
  nodup : (s.waiting ++ s.kept.map Copy.item).Nodup
  unsent : ∀ i ∈ s.waiting, ∀ e ∈ s.log, e.item ≠ i
  waiting : ∀ i ∈ s.waiting, i < s.next
  born : ∀ e ∈ s.log, e.item < s.next ∧ e.num ≤ s.used
  -- an item has one number, a number one item
  number : ∀ e ∈ s.log, ∀ e' ∈ s.log, e.item = e'.item ↔ e.num = e'.num
  kept : ∀ c ∈ s.kept, c.sent ∈ s.log ∧ 0 < c.left ∧ s.spent c.item + c.left ≤ limit c.item
  limit : ∀ i, s.spent i ≤ limit i

theorem Inv.empty (used : Nat) : Inv limit ⟨0, used, [], [], []⟩ where
  nodup := nodup_nil
  unsent := nofun
  waiting := nofun
  born := nofun
  number := nofun
  kept := nofun
  limit := fun _ => Nat.zero_le _

theorem spent_eq_zero {i : Nat} (h : ∀ e ∈ s.log, e.item ≠ i) : s.spent i = 0 := by
  refine count_eq_zero.mpr fun hmem => ?_
  obtain ⟨e, he, hei⟩ := List.mem_map.mp hmem
  exact h e he hei

theorem Inv.arrive (h : s.Inv limit) {left new : List Nat} (hleft : left.Sublist s.waiting)
    (hnew : new = [] ∨ new = [s.next]) :
    Inv limit { s with next := s.next + 1, waiting := left ++ new } := by
  have hmem : ∀ i ∈ left ++ new, i ∈ s.waiting ∨ i = s.next := by
    intro i hi
    rcases mem_append.mp hi with hi | hi
    · exact .inl (hleft.subset hi)
    · rcases hnew with rfl | rfl
      · cases hi
      · exact .inr (mem_singleton.mp hi)
  have hkept : ∀ i ∈ s.kept.map Copy.item, i < s.next := by
    intro i hi
    obtain ⟨c, hc, rfl⟩ := List.mem_map.mp hi
    exact (h.born _ (h.kept c hc).1).1
  refine ⟨?_, ?_, ?_, fun e he => ⟨Nat.lt_succ_of_lt (h.born e he).1, (h.born e he).2⟩, h.number,
    h.kept, h.limit⟩
  · have hold : (left ++ s.kept.map Copy.item).Nodup :=
      h.nodup.sublist (hleft.append (Sublist.refl _))
    rcases hnew with rfl | rfl
    · rw [append_nil]
      exact hold
    · rw [append_assoc, nodup_append] at *
      refine ⟨hold.1, nodup_cons.mpr ⟨fun hi => ?_, hold.2.1⟩, ?_⟩
      · exact absurd (hkept _ hi) (Nat.lt_irrefl _)
      · rintro i hi j hj rfl
        rcases mem_cons.mp hj with rfl | hj
        · exact absurd (h.waiting _ (hleft.subset hi)) (Nat.lt_irrefl _)
        · exact hold.2.2 i hi i hj rfl
  · intro i hi e he
    rcases hmem i hi with hi | rfl
    · exact h.unsent i hi e he
    · exact Nat.ne_of_lt (h.born e he).1
  · intro i hi
    rcases hmem i hi with hi | rfl
    · exact Nat.lt_succ_of_lt (h.waiting i hi)
    · exact Nat.lt_succ_self _

theorem Inv.draw (h : s.Inv limit) {used' : Nat} (hused : s.used ≤ used') :
    Inv limit { s with used := used' } :=
  { h with born := fun e he => ⟨(h.born e he).1, Nat.le_trans (h.born e he).2 hused⟩ }

theorem Inv.forget (h : s.Inv limit) {kept' : List Copy} (hkept : kept'.Sublist s.kept) :
    Inv limit { s with kept := kept' } :=
  { h with
    nodup := h.nodup.sublist ((Sublist.refl _).append (hkept.map _))
    kept := fun c hc => h.kept c (hkept.subset hc) }

theorem Inv.skip (h : s.Inv limit) {i : Nat} {rest : List Nat} (hwaiting : s.waiting = i :: rest) :
    Inv limit { s with waiting := rest } := by
  have hsub : rest.Sublist s.waiting := hwaiting ▸ sublist_cons_self i rest
  exact { h with
    nodup := h.nodup.sublist (hsub.append (Sublist.refl _))
    unsent := fun j hj => h.unsent j (hsub.subset hj)
    waiting := fun j hj => h.waiting j (hsub.subset hj) }

theorem spent_append (s : Sender) (new : List Sent) (i : Nat) :
    Sender.spent { s with log := s.log ++ new } i = s.spent i + (new.map Sent.item).count i := by
  unfold spent
  rw [map_append, count_append]

theorem Inv.first (h : s.Inv limit) {i left : Nat} {rest : List Nat}
    (hwaiting : s.waiting = i :: rest) (hlimit : left + 1 ≤ limit i) :
    Inv limit { s with
      used := s.used + 1
      waiting := rest
      kept := s.kept ++ if left = 0 then [] else [⟨i, s.used + 1, left⟩]
      log := s.log ++ [⟨i, s.used + 1⟩] } := by
  have hi : i ∈ s.waiting := hwaiting ▸ mem_cons_self
  have hrest : ∀ j ∈ rest, j ∈ s.waiting := fun j hj => hwaiting ▸ mem_cons_of_mem i hj
  have hnodup : (i :: (rest ++ s.kept.map Copy.item)).Nodup := by
    have := h.nodup
    rwa [hwaiting] at this
  have hspent : ∀ j, (([⟨i, s.used + 1⟩] : List Sent).map Sent.item).count j
      = if i = j then 1 else 0 := by
    intro j
    rw [map_singleton, count_singleton]
    simp only [beq_iff_eq]
  refine ⟨?_, ?_, fun j hj => h.waiting j (hrest j hj), ?_, ?_, ?_, ?_⟩
  · by_cases hleft : left = 0
    · rw [if_pos hleft, append_nil]
      exact (nodup_cons.mp hnodup).2
    · rw [if_neg hleft, map_append, ← append_assoc]
      exact (perm_append_singleton i _).nodup_iff.mpr hnodup
  · intro j hj e he
    rcases mem_append.mp he with he | he
    · exact h.unsent j (hrest j hj) e he
    · rw [mem_singleton.mp he]
      rintro rfl
      exact (nodup_cons.mp hnodup).1 (mem_append_left _ hj)
  · intro e he
    rcases mem_append.mp he with he | he
    · exact ⟨(h.born e he).1, Nat.le_succ_of_le (h.born e he).2⟩
    · rw [mem_singleton.mp he]
      exact ⟨h.waiting i hi, Nat.le_refl _⟩
  · -- the number is new and the item was not sent before
    have hnew : ∀ e ∈ s.log, e.item ≠ i ∧ e.num ≠ s.used + 1 := fun e he =>
      ⟨h.unsent i hi e he, fun heq => absurd (h.born e he).2 (by omega)⟩
    intro e he e' he'
    rcases mem_append.mp he with he | he
    · rcases mem_append.mp he' with he' | he'
      · exact h.number e he e' he'
      · rw [mem_singleton.mp he']
        exact ⟨fun heq => absurd heq (hnew e he).1, fun heq => absurd heq (hnew e he).2⟩
    · rw [mem_singleton.mp he]
      rcases mem_append.mp he' with he' | he'
      · exact ⟨fun heq => absurd heq.symm (hnew e' he').1,
          fun heq => absurd heq.symm (hnew e' he').2⟩
      · rw [mem_singleton.mp he']
        exact ⟨fun _ => rfl, fun _ => rfl⟩
  · intro c hc
    rcases mem_append.mp hc with hold | hc
    · have hne : i ≠ c.item := by
        intro heq
        refine (nodup_cons.mp hnodup).1 (mem_append_right _ ?_)
        exact heq ▸ List.mem_map_of_mem hold
      obtain ⟨hsent, hleft, hle⟩ := h.kept c hold
      refine ⟨mem_append_left _ hsent, hleft, ?_⟩
      show Sender.spent { s with log := _ } c.item + c.left ≤ limit c.item
      rw [spent_append, hspent, if_neg hne]
      exact hle
    · by_cases hleft : left = 0
      · rw [if_pos hleft] at hc
        cases hc
      · rw [if_neg hleft] at hc
        rw [mem_singleton.mp hc]
        refine ⟨mem_append_right _ (mem_singleton.mpr rfl), Nat.pos_of_ne_zero hleft, ?_⟩
        show Sender.spent { s with log := _ } i + left ≤ limit i
        rw [spent_append, hspent, if_pos rfl, spent_eq_zero (h.unsent i hi)]
        omega
  · intro j
    show Sender.spent { s with log := _ } j ≤ limit j
    rw [spent_append, hspent]
    by_cases hij : i = j
    · subst hij
      rw [if_pos rfl, spent_eq_zero (h.unsent i hi)]
      omega
    · rw [if_neg hij]
      exact h.limit j

theorem items_after (marked : List (Copy × Bool)) :
    ((marked.filterMap Copy.after).map Copy.item).Sublist (marked.map (Copy.item ∘ Prod.fst)) := by
  induction marked with
  | nil => exact Sublist.refl _
  | cons c marked ih =>
    rw [map_cons]
    cases hc : Copy.after c with
    | none =>
      rw [filterMap_cons_none hc]
      exact ih.cons _
    | some c' =>
      rw [filterMap_cons_some hc, map_cons, (Copy.after_sent hc).1]
      exact ih.cons_cons _

theorem Inv.round (h : s.Inv limit) (marked : List (Copy × Bool))
    (hkept : s.kept = marked.map Prod.fst) {repeats : List Sent}
    (hrepeats : repeats.Sublist ((marked.filter Prod.snd).map (Copy.sent ∘ Prod.fst))) :
    Inv limit { s with kept := marked.filterMap Copy.after, log := s.log ++ repeats } := by
  have hitems : s.kept.map Copy.item = marked.map (Copy.item ∘ Prod.fst) := by
    rw [hkept, List.map_map]
  have hnodup : (marked.map (Copy.item ∘ Prod.fst)).Nodup := by
    rw [← hitems]
    exact (nodup_append.mp h.nodup).2.1
  have hin : ∀ c ∈ marked, c.1 ∈ s.kept := fun c hc => hkept ▸ List.mem_map_of_mem hc
  have hfrom : ∀ e ∈ repeats, ∃ c ∈ marked, c.2 = true ∧ c.1.sent = e := by
    intro e he
    obtain ⟨c, hc, hce⟩ := List.mem_map.mp (hrepeats.subset he)
    exact ⟨c, (mem_filter.mp hc).1, (mem_filter.mp hc).2, hce⟩
  -- what is repeated was sent before
  have hlog : ∀ e ∈ s.log ++ repeats, e ∈ s.log := by
    intro e he
    rcases mem_append.mp he with he | he
    · exact he
    · obtain ⟨c, hc, -, rfl⟩ := hfrom e he
      exact (h.kept c.1 (hin c hc)).1
  have honce : ∀ i, (repeats.map Sent.item).count i ≤ 1 := by
    refine nodup_iff_count_le_one.mp (Nodup.sublist (hrepeats.map Sent.item) ?_)
    rw [List.map_map]
    exact Nodup.sublist (filter_sublist.map _) hnodup
  refine ⟨?_, fun i hi e he => h.unsent i hi e (hlog e he), h.waiting,
    fun e he => h.born e (hlog e he), fun e he e' he' => h.number e (hlog e he) e' (hlog e' he'),
    ?_, ?_⟩
  · refine h.nodup.sublist ((Sublist.refl _).append ?_)
    rw [hitems]
    exact items_after marked
  · intro c' hc'
    obtain ⟨c, hc, hafter⟩ := mem_filterMap.mp hc'
    obtain ⟨hsent, hleft, hle⟩ := h.kept c.1 (hin c hc)
    unfold Copy.after at hafter
    split at hafter
    · split at hafter
      · cases hafter
      · next hmore =>
        cases hafter
        refine ⟨mem_append_left _ hsent, by simp only; omega, ?_⟩
        show Sender.spent { s with log := _ } c.1.item + (c.1.left - 1) ≤ limit c.1.item
        rw [spent_append]
        have := honce c.1.item
        omega
    · next hdue =>
      cases hafter
      refine ⟨mem_append_left _ hsent, hleft, ?_⟩
      show Sender.spent { s with log := _ } c.1.item + c.1.left ≤ limit c.1.item
      -- a copy that is not due is not repeated
      have hnone : (repeats.map Sent.item).count c.1.item = 0 := by
        refine count_eq_zero.mpr fun hmem => ?_
        obtain ⟨e, he, hei⟩ := List.mem_map.mp hmem
        obtain ⟨d, hd, hdue', rfl⟩ := hfrom e he
        exact hdue (inj_on_of_nodup_map hnodup hd hc hei ▸ hdue')
      rw [spent_append, hnone]
      exact hle
  · intro i
    show Sender.spent { s with log := _ } i ≤ limit i
    rw [spent_append]
    by_cases hmem : i ∈ repeats.map Sent.item
    · obtain ⟨e, he, rfl⟩ := List.mem_map.mp hmem
      obtain ⟨c, hc, -, rfl⟩ := hfrom e he
      obtain ⟨-, hleft, hle⟩ := h.kept c.1 (hin c hc)
      exact Nat.le_trans (Nat.add_le_add_left (Nat.le_trans (honce _) hleft) _) hle
    · rw [count_eq_zero.mpr hmem]
      exact h.limit i

theorem Inv.act (h : s.Inv limit) (ha : Act limit s s') : s'.Inv limit := by
  cases ha with
  | arrive hleft hnew => exact h.arrive hleft hnew
  | draw hused => exact h.draw hused
  | forget hkept => exact h.forget hkept
  | skip hwaiting => exact h.skip hwaiting
  | first hwaiting hlimit => exact h.first hwaiting hlimit
  | round marked hkept hrepeats => exact h.round marked hkept hrepeats

/-- **Every sequence of acts keeps the limits.** -/
theorem Inv.acts (h : s.Inv limit) (ha : Relation.ReflTransGen (Act limit) s s') :
    s'.Inv limit := by
  induction ha with
  | refl => exact h
  | tail _ hact ih => exact ih.act hact

/-! ## Dead numbers -/

/-- The number was drawn and no copy carries it. -/
def Dead (k : Nat) (s : Sender) : Prop := k ≤ s.used ∧ ∀ c ∈ s.kept, c.num ≠ k

/-- From `s` to `s'` nothing is sent under the number. -/
def Silent (k : Nat) (s s' : Sender) : Prop :=
  ∃ new, s'.log = s.log ++ new ∧ ∀ e ∈ new, e.num ≠ k

theorem Silent.of_log_eq {k : Nat} (h : s'.log = s.log) : Silent k s s' :=
  ⟨[], h.trans (append_nil _).symm, nofun⟩

theorem Silent.trans {k : Nat} {s₁ s₂ s₃ : Sender} (h : Silent k s₁ s₂) (h' : Silent k s₂ s₃) :
    Silent k s₁ s₃ := by
  obtain ⟨new, hlog, hnew⟩ := h
  obtain ⟨new', hlog', hnew'⟩ := h'
  refine ⟨new ++ new', ?_, forall_mem_append.mpr ⟨hnew, hnew'⟩⟩
  rw [hlog', hlog, append_assoc]

theorem Dead.act {k : Nat} (h : s.Dead k) (ha : Act limit s s') : s'.Dead k ∧ Silent k s s' := by
  obtain ⟨hused, hkept⟩ := h
  cases ha with
  | arrive => exact ⟨⟨hused, hkept⟩, .of_log_eq rfl⟩
  | draw hle => exact ⟨⟨Nat.le_trans hused hle, hkept⟩, .of_log_eq rfl⟩
  | forget hsub => exact ⟨⟨hused, fun c hc => hkept c (hsub.subset hc)⟩, .of_log_eq rfl⟩
  | skip => exact ⟨⟨hused, hkept⟩, .of_log_eq rfl⟩
  | @first i left rest hwaiting hlimit =>
    have hne : s.used + 1 ≠ k := by omega
    refine ⟨⟨Nat.le_succ_of_le hused, fun c hc => ?_⟩, ⟨_, rfl, fun e he => ?_⟩⟩
    · rcases mem_append.mp hc with hc | hc
      · exact hkept c hc
      · split at hc
        · cases hc
        · rw [mem_singleton.mp hc]
          exact hne
    · rw [mem_singleton.mp he]
      exact hne
  | @round marked hmarked repeats hrepeats =>
    have hin : ∀ c ∈ marked, c.1.num ≠ k := fun c hc =>
      hkept c.1 (hmarked ▸ List.mem_map_of_mem hc)
    refine ⟨⟨hused, fun c hc => ?_⟩, ⟨_, rfl, fun e he => ?_⟩⟩
    · obtain ⟨d, hd, hafter⟩ := mem_filterMap.mp hc
      rw [(Copy.after_sent hafter).2]
      exact hin d hd
    · obtain ⟨d, hd, rfl⟩ := List.mem_map.mp (hrepeats.subset he)
      exact hin d (mem_filter.mp hd).1

/-- **A dead number stays dead**, and nothing is sent under it. -/
theorem Dead.acts {k : Nat} (h : s.Dead k) (ha : Relation.ReflTransGen (Act limit) s s') :
    s'.Dead k ∧ Silent k s s' := by
  induction ha with
  | refl => exact ⟨h, .of_log_eq rfl⟩
  | tail _ hact ih =>
    obtain ⟨hdead, hsilent⟩ := ih
    obtain ⟨hdead', hsilent'⟩ := hdead.act hact
    exact ⟨hdead', hsilent.trans hsilent'⟩

end Sender

end Retries
