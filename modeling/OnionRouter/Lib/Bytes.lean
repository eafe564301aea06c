import Mathlib.Data.Nat.Digits.Defs
import Mathlib.Data.Nat.Digits.Lemmas

/-!
# Bytes

Facts about all bytes, from their 256 numbers, and numbers as lists of bytes, from the
lowest one on.

* `ofBytesLE_toBytesLE`: a number is what its bytes make.
* `ofBytesLE_pad`: zeros behind the bytes change nothing.
* `slice_append_of_le`, `slice_zero_append`: a field of a record is read back at its offset.
-/

namespace OnionRouter.Lib

/-- What holds of the 256 numbers holds of all bytes. -/
theorem forall_byte {P : UInt8 → Prop} (h : ∀ n < 256, P (UInt8.ofNat n)) (b : UInt8) : P b := by
  have hb := h b.toNat b.toNat_lt
  rwa [UInt8.ofNat_toNat] at hb

/-- The number of a list of bytes, the lowest one first. -/
def ofBytesLE (l : List UInt8) : ℕ := Nat.ofDigits 256 (l.map UInt8.toNat)

/-- The bytes of a number, the lowest one first; none for zero. -/
def toBytesLE (n : ℕ) : List UInt8 := (Nat.digits 256 n).map UInt8.ofNat

@[simp] theorem ofBytesLE_nil : ofBytesLE [] = 0 := rfl

@[simp] theorem ofBytesLE_cons (b : UInt8) (l : List UInt8) :
    ofBytesLE (b :: l) = b.toNat + 256 * ofBytesLE l := Nat.ofDigits_cons

/-- A number is what its bytes make. -/
theorem ofBytesLE_toBytesLE (n : ℕ) : ofBytesLE (toBytesLE n) = n := by
  have hdigits : (Nat.digits 256 n).map (UInt8.toNat ∘ UInt8.ofNat) = Nat.digits 256 n := by
    refine (List.map_congr_left fun d hd => ?_).trans (List.map_id _)
    exact UInt8.toNat_ofNat_of_lt' (Nat.digits_lt_base (by decide) hd)
  rw [ofBytesLE, toBytesLE, List.map_map, hdigits, Nat.ofDigits_digits]

/-- Zeros behind the bytes change nothing. -/
theorem ofBytesLE_pad (l : List UInt8) (k : ℕ) :
    ofBytesLE (l ++ List.replicate k 0) = ofBytesLE l := by
  induction l with
  | nil =>
    induction k with
    | zero => rfl
    | succ k ih =>
      rw [List.nil_append] at ih ⊢
      rw [List.replicate_succ, ofBytesLE_cons, ih]
      rfl
  | cons b l ih => rw [List.cons_append, ofBytesLE_cons, ofBytesLE_cons, ih]

theorem length_toBytesLE_le {n k : ℕ} (h : n < 256 ^ k) : (toBytesLE n).length ≤ k := by
  rw [toBytesLE, List.length_map]
  exact (Nat.digits_length_le_iff (by decide) n).2 h

/-! ## Fields -/

section Fields

variable {α : Type*} {a b : List α} {off len : ℕ}

/-- The `len` values from the offset `off` on. -/
def slice (off len : ℕ) (l : List α) : List α := (l.drop off).take len

/-- A field behind those in front. -/
theorem slice_append_of_le (h : a.length ≤ off) :
    slice off len (a ++ b) = slice (off - a.length) len b := by
  rw [slice, slice, List.drop_append, List.drop_eq_nil_of_le h, List.nil_append]

/-- The field in front. -/
theorem slice_zero_append (h : a.length = len) : slice 0 len (a ++ b) = a := List.take_left' h

/-- What is behind a field does not matter to it. -/
theorem slice_append_left (h : off + len ≤ a.length) : slice off len (a ++ b) = slice off len a := by
  rw [slice, slice, List.drop_append_of_le_length (by omega), List.take_append_of_le_length]
  rw [List.length_drop]
  omega

theorem length_slice (h : off + len ≤ a.length) : (slice off len a).length = len := by
  rw [slice, List.length_take, List.length_drop]
  omega

end Fields

end OnionRouter.Lib
