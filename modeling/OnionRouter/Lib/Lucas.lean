import Mathlib.NumberTheory.LucasPrimality

/-!
# Large primes

Numbers `k * 2 ^ n + 1` with a small `k` are shown to be prime by the test of Lucas. All of its
powers are made by squaring.
-/

namespace OnionRouter.Lib

/-- `x` squared `n` times, modulo `m`. -/
def squarings (m x : ℕ) : ℕ → ℕ
  | 0 => x % m
  | n + 1 => squarings m x n ^ 2 % m

theorem squarings_eq (m x n : ℕ) : squarings m x n = x ^ 2 ^ n % m := by
  induction n with
  | zero => rw [squarings, pow_zero, pow_one]
  | succ n ih => rw [squarings, ih, ← Nat.pow_mod, ← pow_mul, ← pow_succ]

theorem squarings_eq_one_iff {m : ℕ} (hm : 1 < m) (a k n : ℕ) :
    squarings m (a ^ k) n = 1 ↔ (a : ZMod m) ^ (k * 2 ^ n) = 1 := by
  have hcast := ZMod.natCast_eq_natCast_iff' (a ^ (k * 2 ^ n)) 1 m
  rw [Nat.mod_eq_of_lt hm, Nat.cast_pow, Nat.cast_one] at hcast
  rw [squarings_eq, ← pow_mul, hcast]

/-- The test of Lucas for `k * 2 ^ (n + 1) + 1`, with the prime factors of `k`. -/
theorem prime_of_squarings {k n : ℕ} (a : ℕ) (qs : List ℕ) (hqs : ∀ q ∈ qs, q.Prime)
    (hk : qs.prod = k) (hone : squarings (k * 2 ^ (n + 1) + 1) (a ^ k) (n + 1) = 1)
    (htwo : squarings (k * 2 ^ (n + 1) + 1) (a ^ k) n ≠ 1)
    (hne : ∀ q ∈ qs, squarings (k * 2 ^ (n + 1) + 1) (a ^ (k / q)) (n + 1) ≠ 1) :
    (k * 2 ^ (n + 1) + 1).Prime := by
  have hkpos : 0 < k := hk ▸ List.prod_pos_iff_forall_pos_nat.2 fun q hq => (hqs q hq).pos
  have hm : 1 < k * 2 ^ (n + 1) + 1 := Nat.lt_add_of_pos_left (by positivity)
  have hiff := squarings_eq_one_iff hm a
  refine lucas_primality _ a ?_ fun q hq hdvd => ?_
  · exact (hiff k (n + 1)).1 hone
  · rw [Nat.add_sub_cancel] at hdvd ⊢
    rcases hq.dvd_mul.1 hdvd with hdvd | hdvd
    · have hmem : q ∈ qs := by
        obtain ⟨q', hq', hdvd'⟩ := (hq.prime.dvd_prod_iff).1 (hk ▸ hdvd)
        rwa [(Nat.prime_dvd_prime_iff_eq hq (hqs q' hq')).1 hdvd']
      rw [← Nat.div_mul_right_comm hdvd]
      exact mt (hiff (k / q) (n + 1)).2 (hne q hmem)
    · obtain rfl := (Nat.prime_dvd_prime_iff_eq hq Nat.prime_two).1 (hq.dvd_of_dvd_pow hdvd)
      have hhalf : k * 2 ^ (n + 1) / 2 = k * 2 ^ n := by
        rw [pow_succ, ← mul_assoc, Nat.mul_div_cancel _ two_pos]
      rw [hhalf]
      exact mt (hiff k n).2 htwo

end OnionRouter.Lib
