import Mathlib.Data.Finset.Basic
import Mathlib.Data.Finset.Dedup
import Mathlib.Data.Finset.Lattice.Lemmas

/-!
# Acquiring and releasing

What was acquired and released so far, with the latest first. A resource may be acquired
again after it was released, as the operating system gives out descriptors again.

* `Clean`: only what is held was released.
* `clean_acquireAll_iff`, `clean_releaseAll_iff`: acquiring and releasing one after the other.
-/

namespace OnionRouter.Lib

/-- An entry of a ledger. -/
inductive Act (ρ : Type*)
  | acquire (r : ρ)
  | release (r : ρ)
  deriving DecidableEq

/-- What was acquired and released, with the latest first. -/
abbrev Ledger (ρ : Type*) := List (Act ρ)

namespace Ledger

variable {ρ : Type*} [DecidableEq ρ]

/-- What is held. -/
def held : Ledger ρ → Finset ρ
  | [] => ∅
  | .acquire r :: log => insert r (held log)
  | .release r :: log => (held log).erase r

/-- Only what is held was released. -/
def Clean : Ledger ρ → Prop
  | [] => True
  | .acquire _ :: log => Clean log
  | .release r :: log => r ∈ held log ∧ Clean log

/-- Acquiring one after the other. -/
def acquireAll (log : Ledger ρ) : List ρ → Ledger ρ
  | [] => log
  | r :: rs => acquireAll (.acquire r :: log) rs

/-- Releasing one after the other. -/
def releaseAll (log : Ledger ρ) : List ρ → Ledger ρ
  | [] => log
  | r :: rs => releaseAll (.release r :: log) rs

instance decidableClean : ∀ log : Ledger ρ, Decidable (Clean log)
  | [] => .isTrue trivial
  | .acquire _ :: log => decidableClean log
  | .release r :: log =>
    have := decidableClean log
    inferInstanceAs (Decidable (r ∈ held log ∧ Clean log))

variable {log : Ledger ρ} {r : ρ} {rs : List ρ}

@[simp] theorem held_acquire : held (.acquire r :: log) = insert r (held log) := rfl

@[simp] theorem held_release : held (.release r :: log) = (held log).erase r := rfl

theorem clean_release : Clean (.release r :: log) ↔ r ∈ held log ∧ Clean log := Iff.rfl

theorem held_acquireAll (log : Ledger ρ) (rs : List ρ) :
    held (acquireAll log rs) = held log ∪ rs.toFinset := by
  induction rs generalizing log with
  | nil => rw [acquireAll, List.toFinset_nil, Finset.union_empty]
  | cons r rs ih =>
    rw [acquireAll, ih, held_acquire, List.toFinset_cons, Finset.insert_union, Finset.union_insert]

theorem clean_acquireAll_iff : Clean (acquireAll log rs) ↔ Clean log := by
  induction rs generalizing log with
  | nil => rw [acquireAll]
  | cons r rs ih => rw [acquireAll, ih, Clean]

theorem held_releaseAll (log : Ledger ρ) (rs : List ρ) :
    held (releaseAll log rs) = held log \ rs.toFinset := by
  induction rs generalizing log with
  | nil => rw [releaseAll, List.toFinset_nil, Finset.sdiff_empty]
  | cons r rs ih =>
    rw [releaseAll, ih, held_release, List.toFinset_cons, Finset.erase_sdiff_comm,
      Finset.sdiff_insert]

/-- Releasing one after the other what is held, and nothing twice. By induction on what is
    released. -/
theorem clean_releaseAll_iff :
    Clean (releaseAll log rs) ↔ Clean log ∧ rs.Nodup ∧ ∀ r ∈ rs, r ∈ held log := by
  induction rs generalizing log with
  | nil => simp [releaseAll]
  | cons r rs ih =>
    rw [releaseAll, ih, clean_release, List.nodup_cons, held_release]
    constructor
    · rintro ⟨⟨hr, hclean⟩, hnodup, hrest⟩
      refine ⟨hclean, ⟨fun hmem => ?_, hnodup⟩, ?_⟩
      · exact (Finset.mem_erase.1 (hrest r hmem)).1 rfl
      · rintro r' (_ | ⟨_, hr'⟩)
        · exact hr
        · exact Finset.mem_of_mem_erase (hrest r' hr')
    · rintro ⟨hclean, ⟨hr, hnodup⟩, hall⟩
      refine ⟨⟨hall r List.mem_cons_self, hclean⟩, hnodup, fun r' hr' => ?_⟩
      refine Finset.mem_erase.2 ⟨?_, hall r' (List.mem_cons_of_mem _ hr')⟩
      rintro rfl
      exact hr hr'

end Ledger

end OnionRouter.Lib
