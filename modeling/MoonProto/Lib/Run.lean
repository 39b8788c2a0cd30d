import Mathlib.Tactic.Common

/-!
# Runs of a step function

A system is a step function `σ → α → Option σ` on states and actions, where
`none` is a panic. A run feeds it a list of actions. `Along` restricts a run to
steps that meet a condition, and the two rules at the end are the only
inductions over runs: a step that keeps an invariant keeps it along the run, and
a step that cannot panic under the invariant cannot panic along the run.
-/

namespace Run

open List Option

variable {σ α : Type*}

/-- Execute the actions in order; `none` as soon as one step panics. -/
def run (step : σ → α → Option σ) : σ → List α → Option σ
  | s, [] => some s
  | s, a :: as => (step s a).bind fun s' => run step s' as

/-- A step that cannot panic: the run is the fold. -/
theorem run_some (f : σ → α → σ) :
    ∀ (s : σ) (as : List α), run (fun s a => some (f s a)) s as = some (as.foldl f s)
  | _, [] => rfl
  | s, a :: as => run_some f (f s a) as

/-- Every step of the run is taken in a state in which it meets `P`. -/
def Along (step : σ → α → Option σ) (P : σ → α → Prop) : σ → List α → Prop
  | _, [] => True
  | s, a :: as => P s a ∧ ∀ s', step s a = some s' → Along step P s' as

variable {step : σ → α → Option σ} {P : σ → α → Prop}

theorem along_of_forall (h : ∀ s a, P s a) : ∀ (s : σ) (as : List α), Along step P s as
  | _, [] => trivial
  | s, a :: as => ⟨h s a, fun s' _ => along_of_forall h s' as⟩

/-- The steps of a run can be checked one after the other. -/
instance decidableAlong [∀ s a, Decidable (P s a)] :
    ∀ (s : σ) (as : List α), Decidable (Along step P s as)
  | _, [] => isTrue trivial
  | s, a :: as =>
    match hstep : step s a with
    | none => decidable_of_iff (P s a) (by simp [Along, hstep])
    | some s' =>
      have := decidableAlong s' as
      decidable_of_iff (P s a ∧ Along step P s' as) (by simp [Along, hstep])

variable {I : σ → Prop}

/-- **Invariant rule.** A condition that every admitted step keeps holds in
every state that an admitted run reaches. -/
theorem run_invariant (hstep : ∀ s a s', I s → P s a → step s a = some s' → I s') :
    ∀ {s t : σ} {as : List α}, I s → Along step P s as → run step s as = some t → I t
  | s, t, [], hs, _, ht => by
    cases ht
    exact hs
  | s, t, a :: as, hs, ha, ht => by
    obtain ⟨s', hs', hrun⟩ := bind_eq_some_iff.mp ht
    exact run_invariant hstep (hstep s a s' hs ha.1 hs') (ha.2 s' hs') hrun

theorem along_of_append : ∀ {as bs : List α} {s : σ}, Along step P s (as ++ bs) → Along step P s as
  | [], _, _, _ => trivial
  | _ :: _, _, _, h => ⟨h.1, fun s' hs' => along_of_append (h.2 s' hs')⟩

theorem along_append_right : ∀ {as bs : List α} {s s' : σ}, Along step P s (as ++ bs) →
    run step s as = some s' → Along step P s' bs
  | [], _, _, _, h, hrun => by
    cases hrun
    exact h
  | _ :: _, _, _, _, h, hrun => by
    obtain ⟨s₁, hs₁, hrest⟩ := bind_eq_some_iff.mp hrun
    exact along_append_right (h.2 s₁ hs₁) hrest

/-- Under an invariant of every step, conditions that agree admit the same runs. -/
theorem along_congr {Q : σ → α → Prop} (hstep : ∀ s a s', I s → step s a = some s' → I s')
    (hPQ : ∀ s a, I s → (P s a ↔ Q s a)) :
    ∀ {s : σ} {as : List α}, I s → (Along step P s as ↔ Along step Q s as)
  | _, [], _ => Iff.rfl
  | s, a :: _, hs =>
    and_congr (hPQ s a hs) (forall_congr' fun s' => forall_congr' fun hs' =>
      along_congr hstep hPQ (hstep s a s' hs hs'))

/-- **Progress rule.** If an admitted step in an invariant state neither panics
nor leaves the invariant, then no admitted run does. -/
theorem run_total (hstep : ∀ s a, I s → P s a → ∃ s', step s a = some s' ∧ I s') :
    ∀ {s : σ} {as : List α}, I s → Along step P s as → ∃ t, run step s as = some t ∧ I t
  | s, [], hs, _ => ⟨s, rfl, hs⟩
  | s, a :: as, hs, ha => by
    obtain ⟨s', hs', hI⟩ := hstep s a hs ha.1
    obtain ⟨t, hrun, ht⟩ := run_total hstep hI (ha.2 s' hs')
    refine ⟨t, ?_, ht⟩
    rw [run, hs', bind_some, hrun]

end Run
