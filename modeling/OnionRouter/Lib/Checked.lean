import OnionRouter.Lib.Memory
import Mathlib.Algebra.Group.Nat.Defs

/-!
# Checked computations

Unsigned arithmetic of a fixed width, and accesses to arrays, that fail where a program
would wrap, divide by zero or leave the array. A function of a program, written with them,
returns exactly when it does none of this.

* `bind_eq_ok`: a computation that returns is made of parts that return.
* `ite_eq_ok`: when a part returns, and what.
-/

namespace OnionRouter.Lib

universe u

/-- What a checked computation can fail by. -/
inductive Fault
  /-- A number does not fit its width. -/
  | wrapped
  | remainderByZero
  /-- An access behind the end of an array. -/
  | outOfBounds
  /-- A pointer to no object. -/
  | dangling
  /-- A loop that has not ended after the rounds that it was given. -/
  | unfinished
  deriving DecidableEq

/-- A result, or a fault. -/
abbrev Checked (α : Type u) := Except Fault α

namespace Checked

variable {α β : Type u}

/-! ## Parts -/

/-- An addition of two numbers of `w` bits. -/
def add (w a b : ℕ) : Checked ℕ := if a + b < 2 ^ w then .ok (a + b) else .error .wrapped

/-- A multiplication of two numbers of `w` bits. -/
def mul (w a b : ℕ) : Checked ℕ := if a * b < 2 ^ w then .ok (a * b) else .error .wrapped

/-- A subtraction. -/
def sub (a b : ℕ) : Checked ℕ := if b ≤ a then .ok (a - b) else .error .wrapped

/-- A remainder. -/
def rem (a b : ℕ) : Checked ℕ := if b = 0 then .error .remainderByZero else .ok (a % b)

/-- Reading an element of an array of `length` elements. -/
def get (m : Memory α) (length i : ℕ) : Checked α :=
  if i < length then .ok (m i) else .error .outOfBounds

/-- Writing an element of an array of `length` elements. -/
def set (m : Memory α) (length i : ℕ) (x : α) : Checked (Memory α) :=
  if i < length then .ok (m.set i x) else .error .outOfBounds

/-- Writing `n` elements of an array of `length` elements, from `start` on. -/
def fill (m : Memory α) (length start n : ℕ) (x : α) : Checked (Memory α) :=
  if start + n ≤ length then .ok fun i => if start ≤ i ∧ i < start + n then x else m i
  else .error .outOfBounds

/-- What a pointer leads to. -/
def deref : Option α → Checked α
  | some x => .ok x
  | none => .error .dangling

/-! ## When they return -/

@[simp] theorem ok_bind (x : α) (f : α → Checked β) : ((Except.ok x : Checked α) >>= f) = f x := rfl

@[simp] theorem error_bind (e : Fault) (f : α → Checked β) :
    ((Except.error e : Checked α) >>= f) = .error e := rfl

/-- A computation that returns is made of parts that return. -/
theorem bind_eq_ok {x : Checked α} {f : α → Checked β} {y : β} :
    (x >>= f) = .ok y ↔ ∃ a, x = .ok a ∧ f a = .ok y := by
  cases x with
  | error e => simp
  | ok a => simp

variable {w a b c i start n length : ℕ} {m : Memory α} {x y : α}

/-- A part that checks a condition, and fails where it does not hold. -/
theorem ite_eq_ok {p : Prop} [Decidable p] {e : Fault} :
    (if p then .ok x else .error e : Checked α) = .ok y ↔ p ∧ x = y := by
  split_ifs with h
  · simp [h]
  · simp [h]

theorem add_eq_ok : add w a b = .ok c ↔ a + b < 2 ^ w ∧ a + b = c := ite_eq_ok

theorem mul_eq_ok : mul w a b = .ok c ↔ a * b < 2 ^ w ∧ a * b = c := ite_eq_ok

theorem sub_eq_ok : sub a b = .ok c ↔ b ≤ a ∧ a - b = c := ite_eq_ok

theorem rem_of_ne_zero (h : b ≠ 0) : rem a b = .ok (a % b) := if_neg h

theorem get_of_lt (h : i < length) : get m length i = .ok (m i) := if_pos h

theorem set_of_lt (h : i < length) (x : α) : set m length i x = .ok (m.set i x) := if_pos h

theorem fill_of_le (h : start + n ≤ length) (x : α) : fill m length start n x =
    .ok fun i => if start ≤ i ∧ i < start + n then x else m i := if_pos h

end Checked

end OnionRouter.Lib
