import Mathlib.Tactic.Common
import Mathlib.Data.List.Basic

/-!
# Paths and the folders above them

A path is a list in which one element separates the parts. `Within sep a p` says that `a` is
`p` or lies above it: `p` goes on behind `a` with a separator. A function that acts on the parts
of a path carries the folders above a path to the folders above its image.
-/

namespace PathTree

open List

variable {α : Type*} {sep : α}

/-- `a` is the path `p` itself or a folder above it. -/
def Within (sep : α) (a p : List α) : Prop := p = a ∨ ∃ b, p = a ++ sep :: b

theorem Within.refl (p : List α) : Within sep p p := .inl rfl

theorem Within.trans {a b c : List α} (hab : Within sep a b) (hbc : Within sep b c) :
    Within sep a c := by
  rcases hab with rfl | ⟨x, rfl⟩
  · exact hbc
  · rcases hbc with rfl | ⟨y, rfl⟩
    · exact .inr ⟨x, rfl⟩
    · exact .inr ⟨x ++ sep :: y, by rw [append_assoc, cons_append]⟩

/-- Without a separator there is nothing above a path. -/
theorem within_iff_of_not_mem {a p : List α} (hp : sep ∉ p) : Within sep a p ↔ a = p := by
  constructor
  · rintro (rfl | ⟨b, rfl⟩)
    · rfl
    · exact absurd (mem_append_right a mem_cons_self) hp
  · rintro rfl
    exact Within.refl a

/-- One more part adds the path itself to the folders above it. -/
theorem within_append_iff {a p b : List α} (hb : sep ∉ b) :
    Within sep a (p ++ sep :: b) ↔ a = p ++ sep :: b ∨ Within sep a p := by
  constructor
  · rintro (h | ⟨c, h⟩)
    · exact .inl h.symm
    · rcases append_eq_append_iff.mp h with ⟨as, rfl, hbs⟩ | ⟨bs, rfl, hbs⟩
      · -- `a` ends behind the last separator only if `b` has another one.
        cases as with
        | nil => exact .inr (by rw [append_nil]; exact Within.refl p)
        | cons x as =>
          have hmem : sep ∈ b := by
            rw [cons_append, List.cons.injEq] at hbs
            rw [hbs.2]
            exact mem_append_right as mem_cons_self
          exact absurd hmem hb
      · cases bs with
        | nil => exact .inr (by rw [append_nil]; exact Within.refl a)
        | cons x bs =>
          rw [cons_append, List.cons.injEq] at hbs
          exact .inr (.inr ⟨bs, by rw [hbs.1]⟩)
  · rintro (rfl | h)
    · exact Within.refl _
    · exact h.trans (.inr ⟨b, rfl⟩)

/-- A path with a separator is a path with one more part. -/
theorem exists_last_part {p : List α} (h : sep ∈ p) : ∃ a b, p = a ++ sep :: b ∧ sep ∉ b := by
  obtain ⟨as, bs, hp, has⟩ := eq_append_cons_of_mem (mem_reverse.mpr h)
  refine ⟨bs.reverse, as.reverse, ?_, fun hmem => has (mem_reverse.mp hmem)⟩
  rw [← reverse_reverse p, hp, reverse_append, reverse_cons, append_assoc]
  rfl

/-! ## Functions on the parts -/

/-- A function that acts on each part of a path. -/
structure Respects (sep : α) (f : List α → List α) : Prop where
  append : ∀ a b, f (a ++ sep :: b) = f a ++ sep :: f b
  not_mem : ∀ a, sep ∉ a → sep ∉ f a

theorem Respects.within_iff {f : List α → List α} (hf : Respects sep f) {k p : List α} :
    Within sep k (f p) ↔ ∃ a, Within sep a p ∧ f a = k := by
  constructor
  · -- Induction on the length: the path without its last part is shorter.
    induction hn : p.length using Nat.strongRecOn generalizing p with
    | ind n ih =>
      intro h
      by_cases hp : sep ∈ p
      · obtain ⟨a, b, rfl, hb⟩ := exists_last_part hp
        rw [hf.append, within_append_iff (hf.not_mem b hb), ← hf.append] at h
        rcases h with rfl | h
        · exact ⟨_, Within.refl _, rfl⟩
        · have hlt : a.length < n := by
            rw [← hn, length_append, length_cons]
            exact Nat.lt_add_of_pos_right (Nat.succ_pos _)
          obtain ⟨a', ha', rfl⟩ := ih a.length hlt rfl h
          exact ⟨a', ha'.trans (.inr ⟨b, rfl⟩), rfl⟩
      · rw [within_iff_of_not_mem (hf.not_mem p hp)] at h
        exact ⟨p, Within.refl p, h.symm⟩
  · rintro ⟨a, rfl | ⟨b, rfl⟩, rfl⟩
    · exact Within.refl _
    · exact .inr ⟨f b, hf.append a b⟩

/-! ## The parts of a path -/

/-- The path with a first part and further parts. -/
def join (sep : α) (first : List α) (parts : List (List α)) : List α :=
  first ++ parts.flatMap fun part => sep :: part

theorem join_snoc (first part : List α) (parts : List (List α)) :
    join sep first (parts ++ [part]) = join sep first parts ++ sep :: part := by
  unfold join
  rw [flatMap_append, flatMap_singleton, append_assoc]

theorem splitOn_eq_join [BEq α] [LawfulBEq α] (sep : α) : ∀ p : List α, ∃ first parts,
    p.splitOn sep = first :: parts ∧ p = join sep first parts ∧ sep ∉ first ∧
      ∀ part ∈ parts, sep ∉ part
  | [] => ⟨[], [], rfl, rfl, not_mem_nil, fun _ h => absurd h not_mem_nil⟩
  | x :: p => by
    obtain ⟨first, parts, hsplit, hjoin, hfirst, hparts⟩ := splitOn_eq_join sep p
    have hcons : (x :: p).splitOn sep =
        if (x == sep) = true then [] :: p.splitOn sep
        else (p.splitOn sep).modifyHead (List.cons x) :=
      splitOnP_cons_eq_if_modifyHead x p
    by_cases hx : (x == sep) = true
    · rw [if_pos hx, hsplit] at hcons
      obtain rfl : x = sep := eq_of_beq hx
      refine ⟨[], first :: parts, hcons, ?_, not_mem_nil, ?_⟩
      · rw [hjoin]
        rfl
      · intro part hpart
        rcases mem_cons.mp hpart with rfl | hpart
        · exact hfirst
        · exact hparts part hpart
    · rw [if_neg hx, hsplit] at hcons
      refine ⟨x :: first, parts, hcons, by rw [hjoin]; rfl, ?_, hparts⟩
      intro hmem
      rcases mem_cons.mp hmem with rfl | hmem
      · exact hx BEq.rfl
      · exact hfirst hmem

end PathTree
