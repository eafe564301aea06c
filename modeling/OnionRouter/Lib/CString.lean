import OnionRouter.Lib.Checked
import Mathlib.Data.List.TakeWhile

/-!
# Strings in memory

Strings of bytes that end with a zero, in an array: `strlen` and `memcmp`, which fail where
they would read behind the end of the array. `memcmp` reads all bytes that it is asked to
compare, also when the first ones differ.

* `StringAt`: an array holds a string at some position.
* `LinesAt`: it holds strings one behind the other, up to its end. `linesAt_splitOn`: a
  text whose separators were replaced by zeros is its pieces.
-/

namespace OnionRouter.Lib

open Memory

variable {m : Memory UInt8} {size off : ℕ}

/-- The bytes before the first zero, if there is one in the array. -/
def stringFrom (m : Memory UInt8) (size off : ℕ) : List UInt8 :=
  (m.read off (size - off)).takeWhile (· ≠ 0)

/-- `strlen` of the string at `off`, in an array of `size` bytes. -/
def strlen (m : Memory UInt8) (size off : ℕ) : Checked ℕ :=
  if off + (stringFrom m size off).length < size then .ok (stringFrom m size off).length
  else .error .outOfBounds

/-- Whether `memcmp` finds `key` at `off`, in an array of `size` bytes. -/
def memcmp (m : Memory UInt8) (size off : ℕ) (key : List UInt8) : Checked Bool :=
  if off + key.length ≤ size then .ok (m.read off key.length = key) else .error .outOfBounds

theorem takeWhile_ne_zero_append (data rest : List UInt8) :
    (data ++ 0 :: rest).takeWhile (· ≠ 0) = data.takeWhile (· ≠ 0) := by
  induction data with
  | nil => simp
  | cons c data ih => rw [List.cons_append, List.takeWhile_cons, List.takeWhile_cons, ih]

theorem takeWhile_ne_zero_eq_self_iff (data : List UInt8) :
    data.takeWhile (· ≠ 0) = data ↔ 0 ∉ data := by
  rw [List.takeWhile_eq_self_iff]
  constructor
  · exact fun h hmem => absurd rfl (of_decide_eq_true (h 0 hmem))
  · exact fun h c hc => decide_eq_true fun hzero => h (hzero ▸ hc)

/-! ## A string -/

/-- The array holds the string `s` at `off`, with its terminator. -/
structure StringAt (m : Memory UInt8) (size off : ℕ) (s : List UInt8) : Prop where
  lt : off + s.length < size
  read : m.read off s.length = s
  terminator : m (off + s.length) = 0
  noNul : 0 ∉ s

namespace StringAt

variable {s key : List UInt8}

theorem strlen (h : StringAt m size off s) : strlen m size off = .ok s.length := by
  obtain ⟨k, rfl⟩ := Nat.exists_eq_add_of_lt h.lt
  have hread : m.read off (off + s.length + k + 1 - off) =
      s ++ 0 :: m.read (off + s.length + 1) k := by
    rw [show off + s.length + k + 1 - off = s.length + (1 + k) by omega, read_add, read_add,
      h.read, read_one, h.terminator, List.singleton_append]
  have hstring : stringFrom m (off + s.length + k + 1) off = s := by
    rw [stringFrom, hread, takeWhile_ne_zero_append, (takeWhile_ne_zero_eq_self_iff s).2 h.noNul]
  rw [Lib.strlen, hstring, if_pos h.lt]

/-- A string without its first characters. -/
theorem drop (h : StringAt m size off s) {k : ℕ} (hk : k ≤ s.length) :
    StringAt m size (off + k) (s.drop k) := by
  have hlength : k + (s.length - k) = s.length := Nat.add_sub_cancel' hk
  refine ⟨?_, ?_, ?_, fun hmem => h.noNul (List.mem_of_mem_drop hmem)⟩
  · rw [List.length_drop, Nat.add_assoc, hlength]
    exact h.lt
  · have hsplit := h.read
    rw [← hlength, read_add] at hsplit
    have hdrop := congrArg (List.drop k) hsplit
    rwa [List.drop_left' (length_read _ _ _), ← List.length_drop] at hdrop
  · rw [List.length_drop, Nat.add_assoc, hlength]
    exact h.terminator

/-- A character before a string. -/
theorem cons (h : StringAt m size (off + 1) s) {c : UInt8} (hc : c ≠ 0) (hm : m off = c) :
    StringAt m size off (c :: s) where
  lt := by
    have := h.lt
    rw [List.length_cons]
    omega
  read := by rw [List.length_cons, Nat.add_comm, read_add, read_one, hm, h.read, List.singleton_append]
  terminator := by
    rw [List.length_cons, Nat.add_comm s.length, ← Nat.add_assoc]
    exact h.terminator
  noNul hmem := (List.mem_cons.1 hmem).elim (fun heq => hc heq.symm) h.noNul

/-- In the array, `memcmp` with a key finds out whether the string begins with it. -/
theorem memcmp (h : StringAt m size off s) (hkey : 0 ∉ key) (hroom : off + key.length ≤ size) :
    memcmp m size off key = .ok (key <+: s) := by
  rw [Lib.memcmp, if_pos hroom]
  refine congrArg Except.ok (decide_eq_decide.2 ?_)
  rcases Nat.lt_or_ge s.length key.length with hlong | hshort
  -- The key is longer than the string, which ends with a byte that the key does not have.
  · refine iff_of_false (fun heq => hkey ?_) fun hprefix => hprefix.length_le.not_gt hlong
    have hlt : s.length < (m.read off key.length).length := by rwa [length_read]
    have hmem := List.getElem_mem hlt
    rwa [getElem_read, h.terminator, heq] at hmem
  · have htake : m.read off key.length = s.take key.length := by
      rw [← take_read m off hshort, h.read]
    rw [htake, List.prefix_iff_eq_take]
    exact eq_comm

end StringAt

/-! ## Strings one behind the other -/

/-- The array holds the strings from `off` on, and then ends. -/
def LinesAt (m : Memory UInt8) (size : ℕ) : ℕ → List (List UInt8) → Prop
  | off, [] => off = size
  | off, line :: lines => StringAt m size off line ∧ LinesAt m size (off + line.length + 1) lines

/-- The bytes of strings with their terminators. -/
def linesSize : List (List UInt8) → ℕ
  | [] => 0
  | line :: lines => line.length + 1 + linesSize lines

theorem LinesAt.add_linesSize {lines : List (List UInt8)} (h : LinesAt m size off lines) :
    off + linesSize lines = size := by
  induction lines generalizing off with
  | nil => exact h
  | cons line lines ih =>
    rw [← ih h.2, linesSize]
    ac_rfl

/-- A text whose separators were replaced by zeros. By induction on the text. -/
theorem linesAt_splitOn {separator : UInt8} {bytes : List UInt8} (hnul : 0 ∉ bytes)
    (hbytes : ∀ i (hi : i < bytes.length),
      m (off + i) = if bytes[i] = separator then 0 else bytes[i])
    (hend : m (off + bytes.length) = 0) :
    LinesAt m (off + bytes.length + 1) off (bytes.splitOn separator) := by
  induction bytes generalizing off with
  | nil => exact ⟨⟨Nat.lt_succ_self _, read_zero _ _, hend, List.not_mem_nil⟩, rfl⟩
  | cons c bytes ih =>
    obtain ⟨hc, hnul⟩ := not_or.1 (mt List.mem_cons.2 hnul)
    have hfirst := hbytes 0 (Nat.succ_pos _)
    have hlength : off + (c :: bytes).length + 1 = off + 1 + bytes.length + 1 := by
      rw [List.length_cons]
      omega
    have hrest : LinesAt m (off + (c :: bytes).length + 1) (off + 1) (bytes.splitOn separator) := by
      rw [hlength]
      refine ih hnul (fun i hi => ?_) ?_
      · rw [Nat.add_right_comm]
        exact hbytes (i + 1) (Nat.succ_lt_succ hi)
      · rw [Nat.add_right_comm]
        exact hend
    rw [List.splitOn_cons_eq_if_modifyHead]
    rw [Nat.add_zero, List.getElem_cons_zero] at hfirst
    split_ifs with hsep
    · rw [if_pos (eq_of_beq hsep)] at hfirst
      refine ⟨⟨?_, read_zero _ _, hfirst, List.not_mem_nil⟩, hrest⟩
      rw [List.length_nil, List.length_cons]
      omega
    · rw [if_neg fun heq => hsep (beq_iff_eq.2 heq)] at hfirst
      cases hlines : bytes.splitOn separator with
      | nil => exact absurd hlines (List.splitOn_ne_nil _ _)
      | cons line lines =>
        rw [hlines] at hrest
        have hnext : off + (c :: line).length + 1 = off + 1 + line.length + 1 := by
          rw [List.length_cons]
          omega
        refine ⟨hrest.1.cons (Ne.symm hc) hfirst, ?_⟩
        rw [hnext]
        exact hrest.2

end OnionRouter.Lib
