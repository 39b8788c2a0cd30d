import Mathlib

/-!
# Spending a budget

Things with a weight are taken from the front of a list until what was spent reaches a limit.
The limit is looked at before each one, so the last one may overrun it: what is spent stays
below the limit plus one weight, and either everything was taken or the limit is reached.
-/

namespace Budget

open List

variable {α : Type*} (weight : α → Nat) (limit : Nat)

def takeWithin : Nat → List α → List α
  | _, [] => []
  | spent, a :: as => if limit ≤ spent then [] else a :: takeWithin (spent + weight a) as

/-- The weight of all of them. -/
def total (as : List α) : Nat := (as.map weight).sum

@[simp] theorem total_nil : total weight [] = 0 := rfl

@[simp] theorem total_cons (a : α) (as : List α) :
    total weight (a :: as) = weight a + total weight as := rfl

@[simp] theorem total_append (as bs : List α) :
    total weight (as ++ bs) = total weight as + total weight bs := by
  rw [total, map_append, sum_append]
  rfl

@[simp] theorem total_map {β : Type*} (f : β → α) (bs : List β) :
    total weight (bs.map f) = total (weight ∘ f) bs := by
  rw [total, List.map_map]
  rfl

variable {weight} {limit}

theorem takeWithin_sublist : ∀ (spent : Nat) (as : List α),
    (takeWithin weight limit spent as).Sublist as
  | _, [] => List.Sublist.refl []
  | spent, a :: as => by
    rw [takeWithin]
    split
    · exact nil_sublist _
    · exact (takeWithin_sublist (spent + weight a) as).cons_cons a

/-- Everything was taken, or the limit is reached. -/
theorem takeWithin_eq_or : ∀ (spent : Nat) (as : List α), takeWithin weight limit spent as = as ∨
      limit ≤ spent + total weight (takeWithin weight limit spent as)
  | _, [] => .inl rfl
  | spent, a :: as => by
    rw [takeWithin]
    split
    · next hspent =>
      right
      exact hspent
    · rcases takeWithin_eq_or (spent + weight a) as with heq | hle
      · left
        rw [heq]
      · right
        rwa [total_cons, ← Nat.add_assoc]

/-- **The limit plus one.** Only the last one taken can overrun the limit. -/
theorem takeWithin_bound : ∀ (spent : Nat) (as : List α), takeWithin weight limit spent as = [] ∨
      ∃ a ∈ takeWithin weight limit spent as,
        spent + total weight (takeWithin weight limit spent as) < limit + weight a
  | _, [] => .inl rfl
  | spent, a :: as => by
    rw [takeWithin]
    split
    · left
      rfl
    · next hspent =>
      right
      rcases takeWithin_bound (spent + weight a) as with heq | ⟨b, hb, hlt⟩
      · refine ⟨a, mem_cons_self, ?_⟩
        rw [heq, total_cons, total_nil, Nat.add_zero]
        exact Nat.add_lt_add_right (Nat.lt_of_not_le hspent) _
      · refine ⟨b, mem_cons_of_mem a hb, ?_⟩
        rwa [total_cons, ← Nat.add_assoc]

end Budget
