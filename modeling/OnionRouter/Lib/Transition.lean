import Mathlib.Data.Set.Basic
import Mathlib.Tactic.Common

/-!
# Transition systems

A machine has initial states and takes labelled steps. The steps of a run may be
restricted by a guard, which sees the state before the step and the label.

* `Reachable.invariant`: what holds initially and is kept by every step of a run
  holds in every state of it.
* `Reachable.simulation`: a map to another machine that takes every step of a run to
  a step, or to none, takes its states to states of the other's runs.
* `exists_of_run`: a run that was computed is one.
* `Inevitable`: every run comes to a state of some kind, whatever its steps are.
-/

namespace OnionRouter.Lib

/-- A labelled transition system. -/
structure Machine (σ α : Type*) where
  /-- The initial states. -/
  init : Set σ
  /-- The steps. -/
  step : σ → α → σ → Prop

namespace Machine

variable {σ τ α β : Type*}

/-- What a run takes for granted of its steps. -/
abbrev Guard (σ α : Type*) := σ → α → Prop

/-- The guard that allows all steps. -/
def anyStep : Guard σ α := fun _ _ => True

/-- The machine whose steps are computed; a label that is not possible has none. -/
def ofFun (init : Set σ) (f : σ → α → Option σ) : Machine σ α where
  init := init
  step s a s' := f s a = some s'

/-- Taking the steps of a list of labels. -/
def run (f : σ → α → Option σ) : σ → List α → Option σ
  | s, [] => some s
  | s, a :: as => (f s a).bind fun s' => run f s' as

variable (M : Machine σ α) (N : Machine τ β)

/-- The states of the runs whose steps all meet the guard. -/
inductive Reachable (G : Guard σ α) : σ → Prop
  | init {s : σ} : s ∈ M.init → Reachable G s
  | step {s s' : σ} {a : α} : Reachable G s → G s a → M.step s a s' → Reachable G s'

variable {M N} {G : Guard σ α} {H : Guard τ β}

/-- A property of the states of a run, by induction over its steps. -/
theorem Reachable.invariant {I : σ → Prop} (hinit : ∀ s ∈ M.init, I s)
    (hstep : ∀ s a s', I s → G s a → M.step s a s' → I s') {s : σ} (hs : M.Reachable G s) :
    I s := by
  induction hs with
  | init h => exact hinit _ h
  | step _ hG h ih => exact hstep _ _ _ ih hG h

/-- The runs under a guard are those of a weaker one, too. -/
theorem Reachable.mono {G' : Guard σ α} (hG : ∀ s a, G s a → G' s a) {s : σ}
    (hs : M.Reachable G s) : M.Reachable G' s := by
  induction hs with
  | init h => exact .init h
  | step _ h hstep ih => exact ih.step (hG _ _ h) hstep

/-- There is a run to `P`, if there is always a step that lowers a rank and keeps `Q`. By
    induction on the rank. -/
theorem Reachable.exists_of_rank {P Q : σ → Prop} (rank : σ → ℕ)
    (hstep : ∀ s, M.Reachable G s → Q s → ¬ P s →
      ∃ a s', G s a ∧ M.step s a s' ∧ Q s' ∧ rank s' < rank s)
    {s : σ} (hs : M.Reachable G s) (hQ : Q s) : ∃ s', M.Reachable G s' ∧ Q s' ∧ P s' := by
  induction hn : rank s using Nat.strong_induction_on generalizing s with
  | _ n ih =>
    by_cases hP : P s
    · exact ⟨s, hs, hQ, hP⟩
    · obtain ⟨a, s', hG, h, hQ', hlt⟩ := hstep s hs hQ hP
      exact ih _ (hn ▸ hlt) (hs.step hG h) hQ' rfl

/-- A simulation: every step of `M` is a step of `N`, or none. -/
theorem Reachable.simulation {I : σ → Prop} (abs : σ → τ) (hI : ∀ s, M.Reachable G s → I s)
    (hinit : ∀ s ∈ M.init, abs s ∈ N.init)
    (hstep : ∀ s a s', I s → G s a → M.step s a s' →
      abs s' = abs s ∨ ∃ b, H (abs s) b ∧ N.step (abs s) b (abs s'))
    {s : σ} (hs : M.Reachable G s) : N.Reachable H (abs s) := by
  induction hs with
  | init h => exact .init (hinit _ h)
  | step hs hG h ih =>
    rcases hstep _ _ _ (hI _ hs) hG h with heq | ⟨b, hH, hN⟩
    · exact heq ▸ ih
    · exact ih.step hH hN

/-- The guard checked before every step of a computed run. -/
def checked (G : Guard σ α) [∀ s a, Decidable (G s a)] (f : σ → α → Option σ) (s : σ) (a : α) :
    Option σ :=
  if G s a then f s a else none

theorem Reachable.run [∀ s a, Decidable (G s a)] {init : Set σ} {f : σ → α → Option σ}
    {s s' : σ} {as : List α} (hs : (ofFun init f).Reachable G s)
    (h : run (checked G f) s as = some s') : (ofFun init f).Reachable G s' := by
  induction as generalizing s with
  | nil => exact Option.some_inj.1 h ▸ hs
  | cons a as ih =>
    obtain ⟨s₁, h₁, h⟩ := Option.bind_eq_some_iff.1 h
    obtain ⟨hG, h₁⟩ := Option.ite_none_right_eq_some.1 h₁
    exact ih (hs.step hG h₁) h

/-- The last state of a computed run is reachable, if it is one of the machine and
    its steps meet the guard. -/
theorem exists_of_run [∀ s a, Decidable (G s a)] {init : Set σ} {f : σ → α → Option σ} {s : σ}
    (hs : s ∈ init) {as : List α} {p : σ → Bool}
    (h : (Machine.run (checked G f) s as).any p = true) :
    ∃ s', (ofFun init f).Reachable G s' ∧ p s' = true := by
  obtain ⟨s', hrun, hp⟩ := (Option.any_eq_true _ _).1 h
  exact ⟨s', (Reachable.init hs).run hrun, hp⟩

instance : ∀ (s : σ) (a : α), Decidable (anyStep s a) := fun _ _ => .isTrue trivial

/-! ## Progress -/

/-- Every run from a state comes to a state of `P`: as long as it has not, there is a
    next step, and it does so after every one. -/
inductive Inevitable (M : Machine σ α) (P : σ → Prop) : σ → Prop
  | now {s : σ} : P s → Inevitable M P s
  | next {s : σ} : (∃ a s', M.step s a s') → (∀ a s', M.step s a s' → Inevitable M P s') →
      Inevitable M P s

namespace Inevitable

variable {P Q : σ → Prop}

/-- From what is inevitable, what is inevitable from there. By induction on the way to
    it. -/
theorem trans {s : σ} (h : M.Inevitable P s) (hPQ : ∀ s, P s → M.Inevitable Q s) :
    M.Inevitable Q s := by
  induction h with
  | now hP => exact hPQ _ hP
  | next hex _ ih => exact .next hex ih

/-- If there is a step as long as `P` does not hold, and every step lowers a rank. By induction
    on the rank. -/
theorem of_rank {I : σ → Prop} (rank : σ → ℕ) (hex : ∀ s, I s → ¬ P s → ∃ a s', M.step s a s')
    (hstep : ∀ s a s', I s → M.step s a s' → I s' ∧ rank s' < rank s) {s : σ} (hs : I s) :
    M.Inevitable P s := by
  induction hn : rank s using Nat.strong_induction_on generalizing s with
  | _ n ih =>
    by_cases hP : P s
    · exact .now hP
    · refine .next (hex s hs hP) fun a s' h => ?_
      obtain ⟨hs', hlt⟩ := hstep s a s' hs h
      exact ih _ (hn ▸ hlt) hs' rfl

/-- A way to what is inevitable, along which `I` is kept. -/
theorem exists_of_kept {I : σ → Prop} {s : σ} (h : M.Inevitable P s) (hs : I s)
    (hI : ∀ s a s', I s → M.step s a s' → I s') : ∃ s', I s' ∧ P s' := by
  induction h with
  | now hP => exact ⟨_, hs, hP⟩
  | next hex _ ih =>
    obtain ⟨a, s', h⟩ := hex
    exact ih a s' h (hI _ _ _ hs h)

/-- A step that is there and has no alternative outside `P`. -/
theorem one {s : σ} (hex : ∃ a s', M.step s a s') (hall : ∀ a s', M.step s a s' → P s') :
    M.Inevitable P s :=
  .next hex fun a s' h => .now (hall a s' h)

end Inevitable

end Machine

end OnionRouter.Lib
