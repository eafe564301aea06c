import Mathlib.Algebra.Order.Group.Nat
import Mathlib.Data.List.Basic
import Mathlib.Tactic.Common

/-!
# Block by block

A function on blocks of `k` symbols, applied to a string block by block, with a
last block that may be shorter than `k`: it is padded, and what the function
returns is cut back to its length.

* `mapBlocks`: the whole blocks. Two functions inverse to each other on blocks
  are so on strings of whole blocks (`mapBlocks_mapBlocks`).
* `truncated`: the last, partial block. The symbols that are cut off are lost,
  so that an inverse does not undo it.
* `wrap` and `unwrap`: layers, put on from the last key to the first and taken
  off from the first to the last.
-/

namespace OnionRouter.Lib

variable {α κ : Type*}

/-! ## Whole blocks -/

/-- Applying `f` to each of the first `n` blocks of `k` symbols. -/
def mapBlocks (k : ℕ) (f : List α → List α) : ℕ → List α → List α
  | 0, _ => []
  | n + 1, l => f (l.take k) ++ mapBlocks k f n (l.drop k)

variable {k : ℕ} {f g : List α → List α}

theorem length_mapBlocks (hf : ∀ b, b.length = k → (f b).length = k) (n : ℕ) {l : List α}
    (hl : l.length = k * n) : (mapBlocks k f n l).length = k * n := by
  induction n generalizing l with
  | zero => rfl
  | succ n ih =>
    rw [Nat.mul_succ] at hl ⊢
    rw [mapBlocks, List.length_append, hf _ (by rw [List.length_take]; omega),
      ih (by rw [List.length_drop]; omega)]
    omega

/-- An inverse on blocks is an inverse on strings of whole blocks. -/
theorem mapBlocks_mapBlocks (hf : ∀ b, b.length = k → (f b).length = k)
    (hg : ∀ b, b.length = k → g (f b) = b) (n : ℕ) {l : List α} (hl : l.length = k * n) :
    mapBlocks k g n (mapBlocks k f n l) = l := by
  induction n generalizing l with
  | zero => exact (List.length_eq_zero_iff.1 hl).symm
  | succ n ih =>
    rw [Nat.mul_succ] at hl
    have htake : (l.take k).length = k := by rw [List.length_take]; omega
    have hdrop : (l.drop k).length = k * n := by rw [List.length_drop]; omega
    rw [mapBlocks, mapBlocks, List.take_left' (hf _ htake), List.drop_left' (hf _ htake),
      hg _ htake, ih hdrop, List.take_append_drop]

/-! ## A partial block -/

/-- Applying `f` to a partial block: padded with `z` before, cut back after. -/
def truncated (k : ℕ) (z : α) (f : List α → List α) (t : List α) : List α :=
  (f (t ++ List.replicate (k - t.length) z)).take t.length

variable {z : α}

theorem length_pad {t : List α} (ht : t.length ≤ k) :
    (t ++ List.replicate (k - t.length) z).length = k := by
  rw [List.length_append, List.length_replicate]; omega

theorem length_truncated (hf : ∀ b, b.length = k → (f b).length = k) {t : List α}
    (ht : t.length ≤ k) : (truncated k z f t).length = t.length := by
  rw [truncated, List.length_take, hf _ (length_pad ht)]; omega

/-- A whole block is not cut. -/
theorem truncated_of_length_eq (hf : ∀ b, b.length = k → (f b).length = k) {t : List α}
    (ht : t.length = k) : truncated k z f t = f t := by
  rw [truncated, ht, Nat.sub_self, List.replicate_zero, List.append_nil,
    List.take_of_length_le (hf t ht).le]

/-! ## Layers -/

/-- Putting on the layers of the keys, the last one first. -/
def wrap (e : κ → α → α) (keys : List κ) (x : α) : α := keys.foldr e x

/-- Taking off the layers of the keys, the first one first. -/
def unwrap (d : κ → α → α) (keys : List κ) (x : α) : α := keys.foldl (fun y key => d key y) x

section Layers

variable (e d : κ → α → α)

@[simp] theorem wrap_nil (x : α) : wrap e [] x = x := rfl

@[simp] theorem wrap_cons (key : κ) (keys : List κ) (x : α) :
    wrap e (key :: keys) x = e key (wrap e keys x) := rfl

@[simp] theorem unwrap_nil (x : α) : unwrap d [] x = x := rfl

@[simp] theorem unwrap_cons (key : κ) (keys : List κ) (x : α) :
    unwrap d (key :: keys) x = unwrap d keys (d key x) := rfl

/-- One key more, whose layer lies under the others. -/
theorem wrap_concat (keys : List κ) (key : κ) (x : α) :
    wrap e (keys ++ [key]) x = wrap e keys (e key x) := by
  rw [wrap, List.foldr_append]
  rfl

theorem unwrap_concat (keys : List κ) (key : κ) (x : α) :
    unwrap d (keys ++ [key]) x = d key (unwrap d keys x) := by
  rw [unwrap, List.foldl_append]
  rfl

/-- A property that every layer keeps holds under all of them. -/
theorem wrap_induction {P : α → Prop} {keys : List κ} (he : ∀ key ∈ keys, ∀ x, P x → P (e key x))
    {x : α} (hx : P x) : P (wrap e keys x) := by
  induction keys with
  | nil => exact hx
  | cons key keys ih =>
    exact he key List.mem_cons_self _ (ih fun key' h => he key' (List.mem_cons_of_mem _ h))

/-- A property that taking off a layer keeps holds after taking off all of them. -/
theorem unwrap_induction {P : α → Prop} {keys : List κ}
    (hd : ∀ key ∈ keys, ∀ x, P x → P (d key x)) {x : α} (hx : P x) : P (unwrap d keys x) := by
  induction keys generalizing x with
  | nil => exact hx
  | cons key keys ih =>
    exact ih (fun key' h => hd key' (List.mem_cons_of_mem _ h)) (hd key List.mem_cons_self _ hx)

/-- Layers that are undone one by one are undone altogether. -/
theorem unwrap_wrap {P : α → Prop} (he : ∀ key x, P x → P (e key x))
    (hd : ∀ key x, P x → d key (e key x) = x) (keys : List κ) {x : α} (hx : P x) :
    unwrap d keys (wrap e keys x) = x := by
  induction keys with
  | nil => rfl
  | cons key keys ih =>
    rw [wrap_cons, unwrap_cons, hd key _ (wrap_induction e (fun key _ => he key) hx), ih]

end Layers

end OnionRouter.Lib
