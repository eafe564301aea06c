import Mathlib.Order.Monotone.Basic
import OnionRouter.Lib.Transition

/-!
# Fair runs

The infinite runs of a transition system, in which nothing may happen for a while. A run
is fair to a set of labels if they are not put off forever: when from some time on there is
always a step with such a label, one is taken.

* `Run.eventually`: a fair run comes to a state of some kind, if there is a step with such a
  label as long as it has not, and a rank is lowered by these steps and raised by none.
* `exists_fair`: there is a fair run from every initial state.
-/

namespace OnionRouter.Lib.Machine

variable {σ α : Type*}

/-- An infinite run whose steps all meet the guard; at a time without a label nothing
    happens. -/
structure Run (M : Machine σ α) (G : Guard σ α) where
  state : ℕ → σ
  label : ℕ → Option α
  init : state 0 ∈ M.init
  idle : ∀ k, label k = none → state (k + 1) = state k
  step : ∀ k, ∀ a ∈ label k, G (state k) a ∧ M.step (state k) a (state (k + 1))

/-- There is a step with one of the labels. -/
def Enabled (M : Machine σ α) (G : Guard σ α) (A : Set α) (s : σ) : Prop :=
  ∃ a ∈ A, G s a ∧ ∃ s', M.step s a s'

variable {M : Machine σ α} {G : Guard σ α} {A : Set α} {P : σ → Prop}

namespace Run

variable (run : M.Run G)

/-- The labels are not put off forever. -/
def Fair (A : Set α) : Prop :=
  ∀ k, (∀ j ≥ k, M.Enabled G A (run.state j)) → ∃ j ≥ k, ∃ a ∈ run.label j, a ∈ A

theorem reachable (k : ℕ) : M.Reachable G (run.state k) := by
  induction k with
  | zero => exact .init run.init
  | succ k ih =>
    cases hlabel : run.label k with
    | none => rwa [run.idle k hlabel]
    | some a =>
      obtain ⟨hG, hstep⟩ := run.step k a hlabel
      exact ih.step hG hstep

/-- What every step keeps holds from then on. -/
theorem always (hkeep : ∀ s a s', P s → G s a → M.step s a s' → P s') {k : ℕ}
    (hk : P (run.state k)) : ∀ j ≥ k, P (run.state j) := by
  intro j hj
  induction j, hj using Nat.le_induction with
  | base => exact hk
  | succ j _ ih =>
    cases hlabel : run.label j with
    | none => rwa [run.idle j hlabel]
    | some a =>
      obtain ⟨hG, hstep⟩ := run.step j a hlabel
      exact hkeep _ _ _ ih hG hstep

section Ranks

variable {rank : σ → ℕ} {run}
  (hrank : ∀ s a s', M.Reachable G s → G s a → M.step s a s' →
    rank s' ≤ rank s ∧ (a ∈ A → rank s' < rank s))

include hrank

theorem rank_antitone : Antitone fun k => rank (run.state k) := by
  refine antitone_nat_of_succ_le fun k => ?_
  cases hlabel : run.label k with
  | none => rw [run.idle k hlabel]
  | some a =>
    obtain ⟨hG, hstep⟩ := run.step k a hlabel
    exact (hrank _ _ _ (run.reachable k) hG hstep).1

/-- A fair run comes to `P`, if from some time on there is always one of the steps as long as
    it has not. By induction on the rank: one of the labels is taken at last. -/
theorem eventually_after (hfair : run.Fair A) (k₀ : ℕ)
    (henabled : ∀ k ≥ k₀, ¬ P (run.state k) → M.Enabled G A (run.state k)) :
    ∃ k, P (run.state k) := by
  suffices h : ∀ n, ∀ k ≥ k₀, rank (run.state k) = n → ∃ j, P (run.state j) from h _ k₀ le_rfl rfl
  intro n
  induction n using Nat.strong_induction_on with
  | _ n ih =>
    intro k hk₀ hk
    by_contra hnever
    push Not at hnever
    obtain ⟨j, hj, a, hlabel, ha⟩ := hfair k fun j hj => henabled j (hk₀.trans hj) (hnever j)
    obtain ⟨hG, hstep⟩ := run.step j a hlabel
    have hlt := (hrank _ _ _ (run.reachable j) hG hstep).2 ha
    have hle : rank (run.state j) ≤ rank (run.state k) := rank_antitone hrank hj
    obtain ⟨i, hi⟩ := ih _ (hlt.trans_le (hle.trans_eq hk)) (j + 1)
      (hk₀.trans (hj.trans j.le_succ)) rfl
    exact hnever i hi

/-- A fair run comes to `P`, if there is always one of the steps as long as it has not. -/
theorem eventually (hfair : run.Fair A)
    (henabled : ∀ s, M.Reachable G s → ¬ P s → M.Enabled G A s) : ∃ k, P (run.state k) :=
  eventually_after hrank hfair 0 fun k _ hP => henabled _ (run.reachable k) hP

end Ranks

end Run

/-! ## There are fair runs -/

section Existence

open Classical in
/-- The label that is taken next: one of `A`, if there is a step. -/
noncomputable def nextLabel (M : Machine σ α) (G : Guard σ α) (A : Set α) (s : σ) : Option α :=
  if h : M.Enabled G A s then some h.choose else none

open Classical in
/-- The state after it. -/
noncomputable def nextState (M : Machine σ α) (G : Guard σ α) (A : Set α) (s : σ) : σ :=
  if h : M.Enabled G A s then h.choose_spec.2.2.choose else s

/-- Taking such steps as long as there are any is fair. -/
theorem exists_fair {s : σ} (hs : s ∈ M.init) (G : Guard σ α) (A : Set α) :
    ∃ run : M.Run G, run.state 0 = s ∧ run.Fair A := by
  let state (k : ℕ) : σ := (M.nextState G A)^[k] s
  have hnext : ∀ k, state (k + 1) = M.nextState G A (state k) := fun k =>
    Function.iterate_succ_apply' _ k s
  refine ⟨⟨state, fun k => M.nextLabel G A (state k), hs, ?_, ?_⟩, rfl, ?_⟩
  · intro k hlabel
    have hdisabled : ¬ M.Enabled G A (state k) := by
      intro henabled
      rw [nextLabel, dif_pos henabled] at hlabel
      cases hlabel
    rw [hnext, nextState, dif_neg hdisabled]
  · intro k a hlabel
    by_cases henabled : M.Enabled G A (state k)
    · rw [nextLabel, dif_pos henabled] at hlabel
      obtain rfl := Option.some_inj.1 hlabel
      rw [hnext, nextState, dif_pos henabled]
      exact ⟨henabled.choose_spec.2.1, henabled.choose_spec.2.2.choose_spec⟩
    · rw [nextLabel, dif_neg henabled] at hlabel
      cases hlabel
  · intro k henabled
    have hk : M.Enabled G A (state k) := henabled k le_rfl
    exact ⟨k, le_rfl, hk.choose, dif_pos hk, hk.choose_spec.1⟩

end Existence

end OnionRouter.Lib.Machine
