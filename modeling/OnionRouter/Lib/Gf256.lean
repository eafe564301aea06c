import OnionRouter.Lib.Bytes
import Mathlib.Algebra.Polynomial.Div
import Mathlib.Algebra.Field.ZMod
import Mathlib.Data.Nat.Size
import Mathlib.Tactic.ComputeDegree

/-!
# The field of 256 elements

Polynomials over the field of two elements, with the coefficients as the bits of a
number, and the multiplication of bytes modulo `X ^ 8 + X ^ 4 + X ^ 3 + X + 1`.

* `toPoly_mul`: the product of two bytes is the remainder of the product of their
  polynomials.
* `mul_inv`: every byte but zero has an inverse.
-/

namespace OnionRouter.Lib.Gf256

open Polynomial

/-! ## Numbers as polynomials -/

/-- A bit as a coefficient. -/
def coefficient (b : Bool) : ZMod 2 := if b then 1 else 0

theorem coefficient_xor (a b : Bool) : coefficient (a ^^ b) = coefficient a + coefficient b := by
  cases a <;> cases b <;> rfl

/-- The polynomial of the lowest `n` bits of a number. -/
noncomputable def terms (n b : ℕ) : (ZMod 2)[X] :=
  ∑ i ∈ Finset.range n, if b.testBit i then X ^ i else 0

/-- The polynomial whose coefficients are the bits of a number. -/
noncomputable def toPoly (b : ℕ) : (ZMod 2)[X] := terms b.size b

theorem coeff_terms (n b i : ℕ) :
    (terms n b).coeff i = if i < n then coefficient (b.testBit i) else 0 := by
  have hterm : ∀ j, (if b.testBit j then X ^ j else 0 : (ZMod 2)[X]).coeff i =
      if i = j then coefficient (b.testBit j) else 0 := by
    intro j
    cases hbit : b.testBit j with
    | true => simp [coefficient, coeff_X_pow]
    | false => simp [coefficient]
  rw [terms, finsetSum_coeff]
  simp only [hterm, Finset.sum_ite_eq, Finset.mem_range]

theorem testBit_eq_false {b n i : ℕ} (h : b < 2 ^ n) (hi : n ≤ i) : b.testBit i = false :=
  Nat.testBit_lt_two_pow (h.trans_le (Nat.pow_le_pow_right (by decide) hi))

@[simp] theorem coeff_toPoly (b i : ℕ) : (toPoly b).coeff i = coefficient (b.testBit i) := by
  rw [toPoly, coeff_terms]
  split_ifs with hi
  · rfl
  · rw [testBit_eq_false b.lt_size_self (not_lt.1 hi)]
    rfl

/-- Bits that are zero may be left out. -/
theorem terms_eq {b n : ℕ} (h : b < 2 ^ n) : terms n b = toPoly b := by
  ext i
  rw [coeff_terms, coeff_toPoly]
  split_ifs with hi
  · rfl
  · rw [testBit_eq_false h (not_lt.1 hi)]
    rfl

@[simp] theorem toPoly_zero : toPoly 0 = 0 := by
  ext i
  simp [coefficient]

@[simp] theorem toPoly_one : toPoly 1 = 1 := by
  rw [toPoly, Nat.size_one, terms, Finset.sum_range_one]
  exact if_pos rfl

@[simp] theorem toPoly_xor (a b : ℕ) : toPoly (a ^^^ b) = toPoly a + toPoly b := by
  ext i
  simp [coefficient_xor]

@[simp] theorem toPoly_shiftLeft (a n : ℕ) : toPoly (a <<< n) = X ^ n * toPoly a := by
  ext i
  rw [coeff_X_pow_mul', coeff_toPoly, Nat.testBit_shiftLeft]
  split_ifs with hle
  · simp [hle]
  · simp [hle, coefficient]

theorem degree_toPoly_lt {b n : ℕ} (h : b < 2 ^ n) : (toPoly b).degree < n := by
  rw [degree_lt_iff_coeff_zero]
  intro i hi
  rw [coeff_toPoly, testBit_eq_false h hi]
  rfl

/-! ## Multiplication -/

/-- The product of a polynomial with the lowest `n` terms of another one. -/
def polyMul (a b : ℕ) : ℕ → ℕ
  | 0 => 0
  | n + 1 => polyMul a b n ^^^ b / 2 ^ n % 2 * a <<< n

/-- The number of the modulus. -/
def modulusBits : ℕ := 0x11B

/-- Taking away multiples of the modulus, from the one shifted by `n - 1` down. -/
def reduce : ℕ → ℕ → ℕ
  | 0, v => v
  | n + 1, v => reduce n (v ^^^ v / 2 ^ (8 + n) % 2 * modulusBits <<< n)

/-- The product of two bytes in the field. -/
def mul (x y : UInt8) : UInt8 := UInt8.ofNat (reduce 7 (polyMul x.toNat y.toNat 8))

/-- The modulus of the field. -/
noncomputable def modulus : (ZMod 2)[X] := X ^ 8 + X ^ 4 + X ^ 3 + X + 1

/-- A bit times a number. -/
theorem bit_mul (b n v : ℕ) : b / 2 ^ n % 2 * v = if b.testBit n then v else 0 := by
  rw [← Nat.toNat_testBit]
  cases b.testBit n with
  | true => simp
  | false => simp

theorem toPoly_polyMul (a b n : ℕ) : toPoly (polyMul a b n) = toPoly a * terms n b := by
  induction n with
  | zero => simp [polyMul, terms]
  | succ n ih =>
    rw [polyMul, toPoly_xor, ih, bit_mul, terms, terms, Finset.sum_range_succ, mul_add]
    congr 1
    split_ifs
    · rw [toPoly_shiftLeft, mul_comm]
    · rw [toPoly_zero, mul_zero]

theorem shiftLeft_lt {a k : ℕ} (n : ℕ) (ha : a < 2 ^ k) : a <<< n < 2 ^ (k + n) := by
  rw [Nat.shiftLeft_eq, Nat.pow_add]
  exact Nat.mul_lt_mul_of_pos_right ha (Nat.two_pow_pos n)

theorem polyMul_lt {a k : ℕ} (b n : ℕ) (ha : a < 2 ^ k) : polyMul a b (n + 1) < 2 ^ (k + n) := by
  have hterm : ∀ j, b / 2 ^ j % 2 * a <<< j < 2 ^ (k + j) := by
    intro j
    rw [bit_mul]
    split_ifs
    · exact shiftLeft_lt j ha
    · exact Nat.two_pow_pos _
  induction n with
  | zero => exact Nat.xor_lt_two_pow (Nat.two_pow_pos _) (hterm 0)
  | succ n ih =>
    have hle : 2 ^ (k + n) ≤ 2 ^ (k + (n + 1)) :=
      Nat.pow_le_pow_right (by decide) (Nat.le_succ (k + n))
    exact Nat.xor_lt_two_pow (ih.trans_le hle) (hterm (n + 1))

theorem toPoly_modulusBits : toPoly modulusBits = modulus := by
  have hbits : modulusBits = 1 <<< 8 ^^^ 1 <<< 4 ^^^ 1 <<< 3 ^^^ 1 <<< 1 ^^^ 1 := rfl
  rw [hbits, toPoly_xor, toPoly_xor, toPoly_xor, toPoly_xor, toPoly_shiftLeft, toPoly_shiftLeft,
    toPoly_shiftLeft, toPoly_shiftLeft, toPoly_one, mul_one, mul_one, mul_one, mul_one, pow_one,
    modulus]

theorem modulus_monic : modulus.Monic := by
  rw [modulus]
  monicity!

theorem degree_modulus : modulus.degree = 8 := by
  rw [modulus]
  compute_degree!

/-- Taking away a multiple of the modulus clears the leading bit. -/
theorem xor_shiftLeft_lt {v n : ℕ} (h : v < 2 ^ (8 + n + 1)) (hbit : v.testBit (8 + n) = true) :
    v ^^^ modulusBits <<< n < 2 ^ (8 + n) := by
  refine Nat.lt_pow_two_of_testBit _ fun i hi => ?_
  rw [Nat.testBit_xor, Nat.testBit_shiftLeft, decide_eq_true (by omega), Bool.true_and]
  rcases Nat.eq_or_lt_of_le hi with rfl | hlt
  · rw [hbit, Nat.add_sub_cancel]
    rfl
  · have hmodulus : modulusBits < 2 ^ 9 := by decide
    rw [testBit_eq_false h hlt, testBit_eq_false hmodulus (show 9 ≤ i - n by omega)]
    rfl

/-- The reduction leaves a byte, and changes the polynomial by a multiple of the modulus. -/
theorem reduce_spec {n v : ℕ} (h : v < 2 ^ (8 + n)) :
    reduce n v < 2 ^ 8 ∧ ∃ q, toPoly (reduce n v) + modulus * q = toPoly v := by
  induction n generalizing v with
  | zero => exact ⟨h, 0, by rw [reduce, mul_zero, add_zero]⟩
  | succ n ih =>
    rw [reduce, bit_mul]
    split_ifs with hbit
    · obtain ⟨hlt, q, hq⟩ := ih (xor_shiftLeft_lt h hbit)
      refine ⟨hlt, q + X ^ n, ?_⟩
      rw [mul_add, ← add_assoc, hq, toPoly_xor, toPoly_shiftLeft, toPoly_modulusBits, add_assoc,
        mul_comm modulus, CharTwo.add_self_eq_zero, add_zero]
    · rw [Nat.xor_zero]
      refine ih (Nat.lt_pow_two_of_testBit _ fun i hi => ?_)
      rcases Nat.eq_or_lt_of_le hi with rfl | hlt
      · exact Bool.eq_false_of_not_eq_true hbit
      · exact testBit_eq_false h hlt

/-- The product of two bytes is the remainder of the product of their polynomials. -/
theorem toPoly_mul (x y : UInt8) :
    toPoly (mul x y).toNat = (toPoly x.toNat * toPoly y.toNat) %ₘ modulus := by
  have hproduct : polyMul x.toNat y.toNat 8 < 2 ^ (8 + 7) := polyMul_lt _ 7 x.toNat_lt
  obtain ⟨hlt, q, hq⟩ := reduce_spec hproduct
  rw [toPoly_polyMul, terms_eq y.toNat_lt] at hq
  rw [mul, UInt8.toNat_ofNat_of_lt' hlt]
  refine ((div_modByMonic_unique q _ modulus_monic ⟨hq, ?_⟩).2).symm
  rw [degree_modulus]
  exact degree_toPoly_lt hlt

/-! ## Inverses -/

/-- The power `x ^ (2 ^ (n + 1) - 1)`. -/
def powOnes (x : UInt8) : ℕ → UInt8
  | 0 => x
  | n + 1 => mul (mul (powOnes x n) (powOnes x n)) x

/-- The inverse of a byte, which is its power `x ^ 254`; zero has itself. -/
def inv (x : UInt8) : UInt8 := mul (powOnes x 6) (powOnes x 6)

/-- Every byte but zero has an inverse. -/
theorem mul_inv {x : UInt8} : x ≠ 0 → mul x (inv x) = 1 :=
  forall_byte (P := fun x => x ≠ 0 → mul x (inv x) = 1) (by decide +kernel) x

end OnionRouter.Lib.Gf256
