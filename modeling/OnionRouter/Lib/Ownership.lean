import Mathlib.Data.Set.Insert
import Mathlib.Logic.Function.Basic
import OnionRouter.Lib.Transition

/-!
# Parties that share a state

Parties that take turns, each with a state of its own and all with one that they share.
There are resources in the shared state, and every party owns some of them: its steps leave
the resources of the others as they are, and take only what there was not before.

* `SharedOut.step`: then no two parties own the same resource, and nothing happens to the
  resources of a party but by its own steps.
* `Framed.change`, `Framed.take`, `Framed.drop`, `Framed.trans`, `Framed.add`: such steps.
* `Parties.owned_reachable`: what a party knows of itself and of what it owns holds in
  every run, if its own steps keep it.
-/

namespace OnionRouter.Lib

/-- A shared state, and the states of the parties. -/
structure Joint (ι σ τ : Type*) where
  shared : σ
  party : ι → τ

/-- What a step of a party does to the shared state and to its own. -/
structure Parties (ι σ τ α : Type*) where
  init : Set (Joint ι σ τ)
  step : ι → σ → τ → α → Option (σ × τ)

/-- The resources of a shared state and what they are, and those that a party owns. -/
structure Ownership (σ τ ρ ν : Type*) where
  view : σ → ρ → Option ν
  owns : τ → Set ρ

variable {ι σ τ α ρ ν : Type*}

section Joint

variable [DecidableEq ι]

/-- After a step of the party `i`. -/
def Joint.update (s : Joint ι σ τ) (i : ι) (shared : σ) (t : τ) : Joint ι σ τ :=
  ⟨shared, Function.update s.party i t⟩

@[simp] theorem Joint.update_party_self (s : Joint ι σ τ) (i : ι) (shared : σ) (t : τ) :
    (s.update i shared t).party i = t := Function.update_self _ _ _

theorem Joint.update_party_of_ne (s : Joint ι σ τ) {i j : ι} (h : j ≠ i) (shared : σ) (t : τ) :
    (s.update i shared t).party j = s.party j := Function.update_of_ne h _ _

/-- The runs of the parties, in any order. -/
def Parties.machine (P : Parties ι σ τ α) : Machine (Joint ι σ τ) (ι × α) :=
  .ofFun P.init fun s a =>
    (P.step a.1 s.shared (s.party a.1) a.2).map fun r => s.update a.1 r.1 r.2

end Joint

namespace Ownership

variable (O : Ownership σ τ ρ ν)

/-- A party owns a resource, which is `x`. -/
def Holds (shared : σ) (t : τ) (r : ρ) (x : ν) : Prop := r ∈ O.owns t ∧ O.view shared r = some x

/-- What a step may do to the resources: it changes only those that its party owns, takes
    none that there was before, and gives up only what is gone then. -/
structure Framed (shared shared' : σ) (t t' : τ) : Prop where
  frame : ∀ r, r ∉ O.owns t → r ∉ O.owns t' → O.view shared' r = O.view shared r
  fresh : ∀ r ∈ O.owns t', r ∉ O.owns t → O.view shared r = none
  live : ∀ r ∈ O.owns t', (O.view shared' r).isSome
  gone : ∀ r ∈ O.owns t, r ∉ O.owns t' → O.view shared' r = none

/-- Every resource there is has one owner. -/
structure SharedOut (s : Joint ι σ τ) : Prop where
  live : ∀ i, ∀ r ∈ O.owns (s.party i), (O.view s.shared r).isSome
  unique : ∀ i j, ∀ r ∈ O.owns (s.party i), r ∈ O.owns (s.party j) → i = j
  owner : ∀ r, (O.view s.shared r).isSome → ∃ i, r ∈ O.owns (s.party i)

variable {O}

/-! ## Steps -/

namespace Framed

variable {s s' s'' : σ} {t t' t'' : τ} (hlive : ∀ r ∈ O.owns t, (O.view s r).isSome)

/-- One step after the other. -/
theorem trans (h : O.Framed s s' t t') (h' : O.Framed s' s'' t' t'') : O.Framed s s'' t t'' where
  frame r hr hr'' := by
    by_cases hr' : r ∈ O.owns t'
    · rw [h.fresh r hr' hr, h'.gone r hr' hr'']
    · rw [h'.frame r hr' hr'', h.frame r hr hr']
  fresh r hr'' hr := by
    by_cases hr' : r ∈ O.owns t'
    · exact h.fresh r hr' hr
    · rw [← h.frame r hr hr', h'.fresh r hr'' hr']
  live := h'.live
  gone r hr hr'' := by
    by_cases hr' : r ∈ O.owns t'
    · exact h'.gone r hr' hr''
    · rw [h'.frame r hr' hr'', h.gone r hr hr']

/-- What there was, and was not the party's, stays. -/
theorem view_eq (h : O.Framed s s' t t') {r : ρ} (hr : r ∉ O.owns t)
    (hsome : (O.view s r).isSome) : O.view s' r = O.view s r := by
  refine h.frame r hr fun hnew => ?_
  rw [h.fresh r hnew hr] at hsome
  cases hsome

/-- A step of a part of a party: the rest of what it owns is `R`. -/
theorem add {τ' : Type*} {O' : Ownership σ τ' ρ ν} {T T' : τ'} {R : Set ρ}
    (h : O.Framed s s' t t') (hview : O'.view = O.view) (hT : O'.owns T = O.owns t ∪ R)
    (hT' : O'.owns T' = O.owns t' ∪ R) (hdisjoint : ∀ r ∈ R, r ∉ O.owns t)
    (hlive : ∀ r ∈ R, (O.view s r).isSome) : O'.Framed s s' T T' where
  frame r hr hr' := by
    rw [hT] at hr
    rw [hT'] at hr'
    rw [hview, h.frame r (fun h => hr (.inl h)) fun h => hr' (.inl h)]
  fresh r hr' hr := by
    rw [hT] at hr
    rw [hT'] at hr'
    rw [hview, h.fresh r (hr'.resolve_right fun h => hr (.inr h)) fun h => hr (.inl h)]
  live r hr' := by
    rw [hT'] at hr'
    rw [hview]
    rcases hr' with hr' | hr'
    · exact h.live r hr'
    · rw [h.view_eq (hdisjoint r hr') (hlive r hr')]
      exact hlive r hr'
  gone r hr hr' := by
    rw [hT] at hr
    rw [hT'] at hr'
    rw [hview, h.gone r (hr.resolve_right fun h => hr' (.inr h)) fun h => hr' (.inl h)]

include hlive

/-- Nothing happens to the resources. -/
theorem of_eq (hview : O.view s' = O.view s) (howns : O.owns t' = O.owns t) : O.Framed s s' t t' where
  frame _ _ _ := congrFun hview _
  fresh _ hr hnot := absurd (howns ▸ hr) hnot
  live r hr := hview ▸ hlive r (howns ▸ hr)
  gone _ hr hnot := absurd (howns ▸ hr) hnot

variable [DecidableEq ρ] {r : ρ} {x : ν}

/-- A resource of the party is changed. -/
theorem change (hview : O.view s' = Function.update (O.view s) r (some x))
    (howns : O.owns t' = O.owns t) (hr : r ∈ O.owns t) : O.Framed s s' t t' where
  frame r' hr' _ := by
    have hne : r' ≠ r := fun heq => hr' (heq ▸ hr)
    rw [hview, Function.update_of_ne hne]
  fresh r' hr' hnot := absurd (howns ▸ hr') hnot
  live r' hr' := by
    rw [hview]
    by_cases hne : r' = r
    · rw [hne, Function.update_self]
      rfl
    · rw [Function.update_of_ne hne]
      exact hlive r' (howns ▸ hr')
  gone r' hr' hnot := absurd (howns ▸ hr') hnot

/-- The party takes a new resource. -/
theorem take (hview : O.view s' = Function.update (O.view s) r (some x))
    (howns : O.owns t' = insert r (O.owns t)) (hr : O.view s r = none) : O.Framed s s' t t' where
  frame r' _ hr' := by
    have hne : r' ≠ r := fun heq => hr' (howns ▸ .inl heq)
    rw [hview, Function.update_of_ne hne]
  fresh r' hr' hnot := by
    rw [howns] at hr'
    exact (hr'.resolve_right hnot) ▸ hr
  live r' hr' := by
    rw [hview]
    by_cases hne : r' = r
    · rw [hne, Function.update_self]
      rfl
    · rw [Function.update_of_ne hne]
      rw [howns] at hr'
      exact hlive r' (hr'.resolve_left hne)
  gone r' hr' hnot := absurd (howns ▸ .inr hr') hnot

/-- The party gives up a resource, which is gone then. -/
theorem drop (hview : O.view s' = Function.update (O.view s) r none)
    (howns : O.owns t' = O.owns t \ {r}) (hr : r ∈ O.owns t) : O.Framed s s' t t' where
  frame r' hr' _ := by
    have hne : r' ≠ r := fun heq => hr' (heq ▸ hr)
    rw [hview, Function.update_of_ne hne]
  fresh r' hr' hnot := absurd (howns ▸ hr' : r' ∈ O.owns t \ {r}).1 hnot
  live r' hr' := by
    obtain ⟨hold, hne⟩ : r' ∈ O.owns t \ {r} := howns ▸ hr'
    rw [hview, Function.update_of_ne hne]
    exact hlive r' hold
  gone r' hr' hnot := by
    have heq : r' = r := by
      by_contra hne
      exact hnot (howns ▸ ⟨hr', hne⟩)
    rw [hview, heq, Function.update_self]

end Framed

/-! ## Sharing out -/

variable {s : Joint ι σ τ} {shared : σ} {t : τ} {i : ι}

/-- What another party owns is untouched. -/
theorem SharedOut.view_eq (h : O.SharedOut s) (hf : O.Framed s.shared shared (s.party i) t) {j : ι}
    (hj : j ≠ i) {r : ρ} (hr : r ∈ O.owns (s.party j)) : O.view shared r = O.view s.shared r :=
  hf.view_eq (fun hi => hj (h.unique j i r hr hi)) (h.live j r hr)

theorem SharedOut.holds_eq (h : O.SharedOut s) (hf : O.Framed s.shared shared (s.party i) t) {j : ι}
    (hj : j ≠ i) : O.Holds shared (s.party j) = O.Holds s.shared (s.party j) := by
  funext r x
  exact propext (and_congr_right fun hr => by rw [h.view_eq hf hj hr])

theorem SharedOut.step [DecidableEq ι] (h : O.SharedOut s)
    (hf : O.Framed s.shared shared (s.party i) t) : O.SharedOut (s.update i shared t) := by
  -- Nobody else owns what the party owns after the step.
  have hother : ∀ j ≠ i, ∀ r ∈ O.owns t, r ∉ O.owns (s.party j) := by
    intro j hj r hr hrj
    by_cases hold : r ∈ O.owns (s.party i)
    · exact hj (h.unique j i r hrj hold)
    · have hlive := h.live j r hrj
      rw [hf.fresh r hr hold] at hlive
      cases hlive
  refine ⟨fun j r hr => ?_, fun j k r hj hk => ?_, fun r hr => ?_⟩
  · by_cases hj : j = i
    · subst hj
      rw [Joint.update_party_self] at hr
      exact hf.live r hr
    · rw [Joint.update_party_of_ne _ hj] at hr
      exact (h.view_eq hf hj hr).symm ▸ h.live j r hr
  · by_cases hj' : j = i <;> by_cases hk' : k = i
    · rw [hj', hk']
    · subst hj'
      rw [Joint.update_party_self] at hj
      rw [Joint.update_party_of_ne _ hk'] at hk
      exact absurd hk (hother k hk' r hj)
    · subst hk'
      rw [Joint.update_party_self] at hk
      rw [Joint.update_party_of_ne _ hj'] at hj
      exact absurd hj (hother j hj' r hk)
    · rw [Joint.update_party_of_ne _ hj'] at hj
      rw [Joint.update_party_of_ne _ hk'] at hk
      exact h.unique j k r hj hk
  · by_cases hnew : r ∈ O.owns t
    · exact ⟨i, by rwa [Joint.update_party_self]⟩
    · have hkept : r ∉ O.owns (s.party i) := by
        intro hold
        replace hr : (O.view shared r).isSome := hr
        rw [hf.gone r hold hnew] at hr
        cases hr
      obtain ⟨j, hj⟩ := h.owner r (by rw [← hf.frame r hkept hnew]; exact hr)
      have hne : j ≠ i := by
        rintro rfl
        exact hkept hj
      exact ⟨j, by rwa [Joint.update_party_of_ne _ hne]⟩

end Ownership

/-! ## Runs -/

namespace Parties

variable [DecidableEq ι] {P : Parties ι σ τ α} (O : Ownership σ τ ρ ν) (J : σ → Prop)
  (L : ι → τ → (ρ → ν → Prop) → Prop)

/-- What holds of the shared state, of every party with what it owns, and of who owns
    what. -/
structure Owned (s : Joint ι σ τ) : Prop where
  sharedOut : O.SharedOut s
  shared : J s.shared
  party : ∀ i, L i (s.party i) (O.Holds s.shared (s.party i))

variable {O J L}

/-- The rule for parties that know only of what they own: it is enough that their own steps
    keep what they know. By induction on the run. -/
theorem owned_reachable {G : Machine.Guard (Joint ι σ τ) (ι × α)}
    (hinit : ∀ s ∈ P.init, Owned O J L s)
    (hstep : ∀ (s : Joint ι σ τ) (i : ι) (a : α) (shared : σ) (t : τ), Owned O J L s →
      G s (i, a) → P.step i s.shared (s.party i) a = some (shared, t) →
        O.Framed s.shared shared (s.party i) t ∧ J shared ∧ L i t (O.Holds shared t))
    {s : Joint ι σ τ} (hs : P.machine.Reachable G s) : Owned O J L s := by
  refine hs.invariant hinit ?_
  rintro s ⟨i, a⟩ s' hinv hG h
  obtain ⟨⟨shared, t⟩, hstep', rfl⟩ := Option.map_eq_some_iff.1 h
  obtain ⟨hf, hJ, hL⟩ := hstep s i a shared t hinv hG hstep'
  refine ⟨hinv.sharedOut.step hf, hJ, fun j => ?_⟩
  by_cases hj : j = i
  · subst hj
    rw [Joint.update_party_self]
    exact hL
  · rw [Joint.update_party_of_ne _ hj]
    show L j (s.party j) (O.Holds shared (s.party j))
    rw [hinv.sharedOut.holds_eq hf hj]
    exact hinv.party j

end Parties

end OnionRouter.Lib
