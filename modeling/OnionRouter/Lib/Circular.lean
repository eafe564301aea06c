import OnionRouter.Lib.Memory

/-!
# Circular buffers

The first `c` addresses of a memory, closed to a circle: `window m c t n` are the
`n` values from the position `t` on, going around.

* `window_writeWindow`, `window_writeWindow_of_before`: what was written around the
  circle is found there, and nothing before it is lost.
* `window_double_of_le`, `window_double_of_wrapped`: what becomes of a window when
  the circle is twice as large.
-/

namespace OnionRouter.Lib.Memory

variable {α : Type*} (m : Memory α) {c : ℕ}

/-- The `n` values from the position `t` on, around a circle of `c`. -/
def window (c t n : ℕ) : List α := (List.range n).map fun i => m ((t + i) % c)

/-- Reading a window piece by piece: up to the end, then from the start. -/
def readWindow (c t n : ℕ) : List α :=
  if t + n > c then m.read t (c - t) ++ m.read 0 (n - (c - t)) else m.read t n

/-- Writing a window piece by piece: up to the end, then from the start. -/
def writeWindow (c h : ℕ) (data : List α) : Memory α :=
  if h + data.length > c then (m.write h (data.take (c - h))).write 0 (data.drop (c - h))
  else m.write h data

@[simp] theorem length_window (t n : ℕ) : (m.window c t n).length = n := by
  rw [window, List.length_map, List.length_range]

theorem window_add (t a b : ℕ) : m.window c t (a + b) = m.window c t a ++ m.window c (t + a) b := by
  rw [window, List.range_add, List.map_append, List.map_map]
  simp only [window, Function.comp_def, Nat.add_assoc]

/-- Positions count around the circle. -/
theorem window_mod (t n : ℕ) : m.window c (t % c) n = m.window c t n :=
  List.map_congr_left fun i _ => congrArg m (Nat.mod_add_mod t c i)

/-- A window that does not reach the end is a piece of the memory. -/
theorem window_of_le {t n : ℕ} (h : t + n ≤ c) : m.window c t n = m.read t n := by
  rw [window, read]
  refine List.map_congr_left fun i hi => congrArg m (Nat.mod_eq_of_lt ?_)
  exact lt_of_lt_of_le (Nat.add_lt_add_left (List.mem_range.1 hi) t) h

/-- A window that starts at the end starts at the start. -/
theorem window_end (n : ℕ) : m.window c c n = m.window c 0 n := by
  rw [← window_mod, Nat.mod_self]

theorem readWindow_eq {t n : ℕ} (ht : t ≤ c) (hn : n ≤ c) : m.readWindow c t n = m.window c t n := by
  rw [readWindow]
  split_ifs with h
  · obtain ⟨k, rfl⟩ : ∃ k, n = (c - t) + k := ⟨n - (c - t), by omega⟩
    rw [window_add, window_of_le m (by omega), Nat.add_sub_cancel' ht, window_end,
      window_of_le m (by omega), Nat.add_sub_cancel_left]
  · rw [window_of_le m (by omega)]

/-- Where a window ends: at its end position, or a whole turn before or after. -/
theorem eq_of_mod_eq {t h n : ℕ} (ht : t < c) (hh : h ≤ c) (hn : n ≤ c)
    (hpos : (t + n) % c = h % c) : t + n = h ∨ t + n = h + c ∨ t + n + c = h := by
  have hmod : (t + n) % c = if t + n < c then t + n else t + n - c := by
    split_ifs with hlt
    · exact Nat.mod_eq_of_lt hlt
    · rw [Nat.mod_eq_sub_mod (Nat.not_lt.1 hlt), Nat.mod_eq_of_lt (by omega)]
  rcases Nat.eq_or_lt_of_le hh with rfl | hlt
  · rw [Nat.mod_self] at hpos
    split_ifs at hmod <;> omega
  · rw [Nat.mod_eq_of_lt hlt] at hpos
    split_ifs at hmod <;> omega

/-- A window that two memories share. -/
theorem window_congr {m' : Memory α} {c' t t' n : ℕ}
    (h : ∀ i < n, m ((t + i) % c) = m' ((t' + i) % c')) : m.window c t n = m'.window c' t' n :=
  List.map_congr_left fun i hi => h i (List.mem_range.1 hi)

/-- What was written around the circle is found there. -/
theorem window_writeWindow {h : ℕ} {data : List α} (hh : h ≤ c) (hlen : data.length ≤ c) :
    (m.writeWindow c h data).window c h data.length = data := by
  rw [writeWindow]
  split_ifs with hwrap
  · set front := data.take (c - h) with hfront
    set back := data.drop (c - h) with hback
    have hdata : data = front ++ back := (List.take_append_drop _ _).symm
    have hflen : front.length = c - h := by rw [hfront, List.length_take]; omega
    have hblen : back.length + (c - h) = data.length := by rw [hback, List.length_drop]; omega
    have hread : ((m.write h front).write 0 back).read h front.length = front := by
      rw [read_write_of_disjoint _ _ _ (by omega), read_write]
    rw [← hblen, Nat.add_comm, window_add, window_of_le _ (by omega), Nat.add_sub_cancel' hh,
      window_end, window_of_le _ (by omega), read_write, ← hflen, hread, ← hdata]
  · rw [window_of_le _ (by omega), read_write]

/-- Nothing in the window before the written one is lost. -/
theorem window_writeWindow_of_before {t h n : ℕ} {data : List α} (ht : t < c) (hh : h ≤ c)
    (hpos : (t + n) % c = h % c) (hlen : n + data.length ≤ c) :
    (m.writeWindow c h data).window c t n = m.window c t n := by
  refine window_congr _ fun i hi => ?_
  -- Where the position `t + i` and the written positions lie around the circle.
  have hti : (t + i) % c = if t + i < c then t + i else t + i - c := by
    split_ifs with hlt
    · exact Nat.mod_eq_of_lt hlt
    · rw [Nat.mod_eq_sub_mod (by omega), Nat.mod_eq_of_lt (by omega)]
  have htn := eq_of_mod_eq ht hh (Nat.le_of_add_right_le hlen) hpos
  rw [hti, writeWindow]
  split_ifs with hwrap hlt hlt
  · rw [write_of_ge _ _ _ (by rw [List.length_drop]; omega), write_of_lt _ _ _ (by omega)]
  · rw [write_of_ge _ _ _ (by rw [List.length_drop]; omega), write_of_lt _ _ _ (by omega)]
  · rcases Nat.lt_or_ge (t + i) h with hlt' | hge
    · exact write_of_lt _ _ _ hlt'
    · exact write_of_ge _ _ _ (by omega)
  · exact write_of_lt _ _ _ (by omega)

/-! ## A larger circle -/

/-- A window that does not reach the end stays where it is. -/
theorem window_double_of_le {t n : ℕ} (h : t + n ≤ c) :
    m.window (c * 2) t n = m.window c t n := by
  rw [window_of_le m h, window_of_le m (by omega)]

/-- A window that goes around stays a window when its first piece is moved to the
    end of the larger circle. -/
theorem window_double_of_wrapped {t n : ℕ} (ht : t < c) (hn : n ≤ c) (h : c ≤ t + n) :
    (m.write (c * 2 - (c - t)) (m.read t (c - t))).window (c * 2) (t + c) n = m.window c t n := by
  obtain ⟨k, rfl⟩ : ∃ k, n = (c - t) + k := ⟨n - (c - t), by omega⟩
  have hmoved := m.read_write (c * 2 - (c - t)) (m.read t (c - t))
  rw [length_read] at hmoved
  rw [window_add, window_add, window_of_le m (by omega), window_of_le _ (by omega),
    show t + c = c * 2 - (c - t) by omega, hmoved, Nat.add_sub_cancel' ht.le,
    Nat.sub_add_cancel (by omega), window_end, window_end, window_of_le _ (by omega),
    window_of_le _ (by omega), read_write_of_disjoint _ _ _ (by omega)]

end OnionRouter.Lib.Memory
