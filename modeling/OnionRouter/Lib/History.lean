import OnionRouter.Lib.Transition

/-!
# Histories of runs

What is noted of the steps of a run, in their order, beside the state that the run leads to.

* `Noted.reachable`, `Reachable.exists_noted`: the runs are those without the notes.
* `Noted.invariant`: a property of states and notes, by induction over the steps.
* `exists_noted_of_run`: a run that was computed, with what is noted of it.
-/

namespace OnionRouter.Lib.Machine

variable {σ α γ : Type*} (M : Machine σ α) (G : Guard σ α) (note : σ → α → List γ)

/-- A run under the guard leads to a state, and this is noted of its steps. -/
inductive Noted : σ → List γ → Prop
  | init {s : σ} : s ∈ M.init → Noted s []
  | step {s s' : σ} {a : α} {history : List γ} : Noted s history → G s a → M.step s a s' →
      Noted s' (history ++ note s a)

variable {M G note} {s : σ} {history : List γ}

theorem Noted.reachable (h : M.Noted G note s history) : M.Reachable G s := by
  induction h with
  | init h => exact .init h
  | step _ hG hstep ih => exact ih.step hG hstep

theorem Reachable.exists_noted (note : σ → α → List γ) (hs : M.Reachable G s) :
    ∃ history, M.Noted G note s history := by
  induction hs with
  | init h => exact ⟨[], .init h⟩
  | step _ hG hstep ih =>
    obtain ⟨history, hnoted⟩ := ih
    exact ⟨_, hnoted.step hG hstep⟩

/-- A property of the states of a run and what was noted, by induction over its steps. -/
theorem Noted.invariant {I : σ → List γ → Prop} (hinit : ∀ s ∈ M.init, I s [])
    (hstep : ∀ s a s' history, M.Reachable G s → I s history → G s a → M.step s a s' →
      I s' (history ++ note s a))
    (h : M.Noted G note s history) : I s history := by
  induction h with
  | init h => exact hinit _ h
  | step hs hG h ih => exact hstep _ _ _ _ hs.reachable ih hG h

/-! ## Computed runs -/

/-- What is noted of a computed run. -/
def notes (note : σ → α → List γ) (f : σ → α → Option σ) : σ → List α → List γ
  | _, [] => []
  | s, a :: as => note s a ++ ((f s a).map fun s' => notes note f s' as).getD []

theorem Noted.run [∀ s a, Decidable (G s a)] {init : Set σ} {f : σ → α → Option σ} {s' : σ}
    {as : List α} (hs : (ofFun init f).Noted G note s history)
    (h : run (checked G f) s as = some s') :
    (ofFun init f).Noted G note s' (history ++ notes note f s as) := by
  induction as generalizing s history with
  | nil =>
    rw [notes, List.append_nil]
    exact Option.some_inj.1 h ▸ hs
  | cons a as ih =>
    obtain ⟨s₁, h₁, h⟩ := Option.bind_eq_some_iff.1 h
    obtain ⟨hG, h₁⟩ := Option.ite_none_right_eq_some.1 h₁
    rw [notes, h₁, ← List.append_assoc]
    exact ih (hs.step hG h₁) h

theorem exists_noted_of_run [∀ s a, Decidable (G s a)] {init : Set σ} {f : σ → α → Option σ}
    (hs : s ∈ init) {as : List α} {p : σ → Bool}
    (h : (Machine.run (checked G f) s as).any p = true) :
    ∃ s', (ofFun init f).Noted G note s' (notes note f s as) ∧ p s' = true := by
  obtain ⟨s', hrun, hp⟩ := (Option.any_eq_true _ _).1 h
  exact ⟨s', (Noted.init hs).run hrun, hp⟩

end OnionRouter.Lib.Machine
