import Mathlib.Data.List.Range
import Mathlib.Tactic.Common

/-!
# Memory

A memory holds a value at every address. `read` and `write` are `memcpy` out of and
into it.

* `read_write`, `read_write_of_disjoint`: what was written is read back, and only
  where it was written.
* `read_add`, `write_append`: adjacent pieces.
-/

namespace OnionRouter.Lib

/-- What every address holds. -/
abbrev Memory (α : Type*) := ℕ → α

namespace Memory

variable {α : Type*}

/-- The `n` values from the address `off` on. -/
@[irreducible] def read (m : Memory α) (off n : ℕ) : List α :=
  (List.range n).map fun i => m (off + i)

/-- Writing `data` from the address `off` on. -/
def write (m : Memory α) (off : ℕ) (data : List α) : Memory α :=
  fun a => if off ≤ a then data[a - off]?.getD (m a) else m a

/-- Writing one value. -/
def set (m : Memory α) (a : ℕ) (x : α) : Memory α := fun b => if b = a then x else m b

variable (m m' : Memory α) (off : ℕ) (data : List α)

/-! ## Addresses -/

@[simp] theorem set_self (a : ℕ) (x : α) : m.set a x a = x := if_pos rfl

theorem set_of_ne {a b : ℕ} (h : b ≠ a) (x : α) : m.set a x b = m b := if_neg h

@[simp] theorem set_set (a : ℕ) (x y : α) : (m.set a x).set a y = m.set a y := by
  funext b
  rcases eq_or_ne b a with rfl | hb
  · rw [set_self, set_self]
  · rw [set_of_ne _ hb, set_of_ne _ hb, set_of_ne _ hb]

theorem write_of_mem {i : ℕ} (hi : i < data.length) : m.write off data (off + i) = data[i] := by
  rw [write, if_pos (Nat.le_add_right off i), Nat.add_sub_cancel_left, List.getElem?_eq_getElem hi,
    Option.getD_some]

theorem write_of_lt {a : ℕ} (ha : a < off) : m.write off data a = m a :=
  if_neg (Nat.not_le.2 ha)

theorem write_of_ge {a : ℕ} (ha : off + data.length ≤ a) : m.write off data a = m a := by
  rw [write, if_pos (Nat.le_of_add_right_le ha), List.getElem?_eq_none (by omega), Option.getD_none]

@[simp] theorem write_nil : m.write off [] = m := by
  funext a
  rcases Nat.lt_or_ge a off with ha | ha
  · exact m.write_of_lt off [] ha
  · exact m.write_of_ge off [] ha

/-! ## Reading -/

@[simp] theorem length_read (n : ℕ) : (m.read off n).length = n := by
  rw [read, List.length_map, List.length_range]

@[simp] theorem getElem_read {n i : ℕ} (hi : i < (m.read off n).length) :
    (m.read off n)[i] = m (off + i) := by
  simp [read]

@[simp] theorem read_zero : m.read off 0 = [] := by rw [read]; rfl

theorem read_one : m.read off 1 = [m off] := by rw [read]; rfl

theorem read_add (a b : ℕ) : m.read off (a + b) = m.read off a ++ m.read (off + a) b := by
  rw [read, List.range_add, List.map_append, List.map_map]
  simp only [read, Function.comp_def, Nat.add_assoc]

theorem take_read {k n : ℕ} (hk : k ≤ n) : (m.read off n).take k = m.read off k := by
  obtain ⟨d, rfl⟩ := Nat.exists_eq_add_of_le hk
  rw [read_add, List.take_left' (m.length_read off k)]

theorem take_read_min (k n : ℕ) : (m.read off n).take k = m.read off (min k n) := by
  rcases Nat.le_total k n with hk | hn
  · rw [take_read m off hk, Nat.min_eq_left hk]
  · rw [List.take_of_length_le ((m.length_read off n).trans_le hn), Nat.min_eq_right hn]

theorem read_congr {off' n : ℕ} (h : ∀ i < n, m (off + i) = m' (off' + i)) :
    m.read off n = m'.read off' n := by
  rw [read, read]
  exact List.map_congr_left fun i hi => h i (List.mem_range.1 hi)

/-- Memories that are read alike hold the same values there. -/
theorem apply_of_read_eq {n i : ℕ} (h : m.read off n = m'.read off n) (hi : i < n) :
    m (off + i) = m' (off + i) := by
  rw [read, read] at h
  exact List.map_inj_left.1 h i (List.mem_range.2 hi)

/-- A memory that holds `data` at an address gives it back there. -/
theorem read_eq_of_getElem (h : ∀ i (hi : i < data.length), m (off + i) = data[i]) :
    m.read off data.length = data :=
  List.ext_getElem (m.length_read off _) fun i _ hi => (m.getElem_read off _).trans (h i hi)

/-- What was written is read back. -/
theorem read_write : (m.write off data).read off data.length = data :=
  read_eq_of_getElem _ off data fun _ hi => m.write_of_mem off data hi

theorem read_write_of_length_eq {n : ℕ} (h : data.length = n) :
    (m.write off data).read off n = data := h ▸ read_write m off data

/-- A write changes nothing elsewhere. -/
theorem read_write_of_disjoint {off' n : ℕ} (h : off' + n ≤ off ∨ off + data.length ≤ off') :
    (m.write off data).read off' n = m.read off' n := by
  refine read_congr _ _ _ fun i hi => ?_
  rcases h with h | h
  · exact m.write_of_lt off data (by omega)
  · exact m.write_of_ge off data (by omega)

/-- Writing behind what was written is one write. -/
theorem write_append (data' : List α) :
    (m.write off data).write (off + data.length) data' = m.write off (data ++ data') := by
  funext a
  rcases Nat.lt_or_ge a (off + data.length) with ha | ha
  · rw [write_of_lt _ _ _ ha, write, write]
    split_ifs with hoff
    · rw [List.getElem?_append_left (by omega)]
    · rfl
  · rw [write, if_pos ha, write_of_ge _ _ _ ha, write, if_pos (Nat.le_of_add_right_le ha),
      List.getElem?_append_right (by omega), Nat.sub_sub]

/-- A value that is written behind the others is read behind them. -/
theorem read_set_succ (n : ℕ) (x : α) : (m.set n x).read 0 (n + 1) = m.read 0 n ++ [x] := by
  rw [read_add, read_one, Nat.zero_add, set_self]
  congr 1
  refine read_congr _ _ _ fun i hi => m.set_of_ne ?_ x
  rw [Nat.zero_add]
  exact hi.ne

end Memory

end OnionRouter.Lib
