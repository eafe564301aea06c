import Mathlib.Algebra.Group.Nat.Defs
import Mathlib.Data.List.Rotate
import Mathlib.Data.List.Range

/-!
# Walking around a ring

The `N` slots of a ring in their cyclic order, of which some are marked. A walk from a
slot visits as many slots as it takes to meet a number of marked ones, and at most a
given list of slots.

* `filter_upTo`: what it meets are the first marked slots of the list.
* `ring_add`: from a slot further on, the ring is rotated.
* `filter_ring_add`: and so are its marked slots, by how many of them were passed.
-/

namespace OnionRouter.Lib

/-! ## The walk -/

section Walk

variable {α : Type*} (p : α → Bool)

/-- The elements of a list up to its `max`-th marked one, or all of them. -/
def upTo : ℕ → List α → List α
  | 0, _ => []
  | _ + 1, [] => []
  | max + 1, a :: l => if p a then a :: upTo max l else a :: upTo (max + 1) l

@[simp] theorem upTo_zero (l : List α) : upTo p 0 l = [] := by cases l <;> rfl

@[simp] theorem upTo_nil (max : ℕ) : upTo p max [] = [] := by cases max <;> rfl

theorem upTo_of_pos {a : α} (ha : p a = true) (max : ℕ) (l : List α) :
    upTo p (max + 1) (a :: l) = a :: upTo p max l := if_pos ha

theorem upTo_of_neg {a : α} (ha : p a = false) (max : ℕ) (l : List α) :
    upTo p (max + 1) (a :: l) = a :: upTo p (max + 1) l := if_neg (by simp [ha])

/-- The marked elements of the walk are the first ones of the list. By induction on the
    list. -/
theorem filter_upTo (max : ℕ) (l : List α) : (upTo p max l).filter p = (l.filter p).take max := by
  induction l generalizing max with
  | nil => simp
  | cons a l ih =>
    cases max with
    | zero => simp
    | succ max =>
      cases ha : p a with
      | true => simp [upTo_of_pos p ha, ha, ih]
      | false => simp [upTo_of_neg p ha, ha, ih]

/-- The walk is along the list. -/
theorem isPrefix_upTo (max : ℕ) (l : List α) : upTo p max l <+: l := by
  induction l generalizing max with
  | nil => simp
  | cons a l ih =>
    cases max with
    | zero => simp
    | succ max =>
      cases ha : p a with
      | true => simpa [upTo_of_pos p ha] using ih max
      | false => simpa [upTo_of_neg p ha] using ih (max + 1)

theorem take_length_upTo (max : ℕ) (l : List α) : l.take (upTo p max l).length = upTo p max l :=
  List.prefix_iff_eq_take.1 (isPrefix_upTo p max l) ▸ rfl

/-- A walk that meets all the marked elements it is to meet ends with the last one. By
    induction on the list. -/
theorem getLast?_upTo {max : ℕ} (hmax : max ≠ 0) {l : List α} (h : max ≤ (l.filter p).length) :
    (upTo p max l).getLast? = ((l.filter p).take max).getLast? := by
  induction l generalizing max with
  | nil => exact absurd (Nat.le_zero.1 h) hmax
  | cons a l ih =>
    obtain ⟨n, rfl⟩ := Nat.exists_eq_succ_of_ne_zero hmax
    cases ha : p a with
    | true =>
      rw [List.filter_cons_of_pos ha, List.length_cons] at h
      rw [upTo_of_pos p ha, List.filter_cons_of_pos ha, List.take_succ_cons, List.getLast?_cons,
        List.getLast?_cons]
      rcases Nat.eq_zero_or_pos n with rfl | hn
      · simp
      · rw [ih hn.ne' (Nat.le_of_succ_le_succ h)]
    | false =>
      rw [List.filter_cons_of_neg (by simp [ha])] at h
      have hne : (l.filter p).take (n + 1) ≠ [] := by
        refine List.ne_nil_of_length_pos ?_
        rw [List.length_take, Nat.min_eq_left h]
        exact Nat.succ_pos n
      rw [upTo_of_neg p ha, List.filter_cons_of_neg (by simp [ha]), List.getLast?_cons, ih hmax h,
        List.getLast?_eq_some_getLast hne, Option.getD_some]

theorem length_upTo_le (max : ℕ) (l : List α) : (upTo p max l).length ≤ l.length :=
  (isPrefix_upTo p max l).length_le

end Walk

/-! ## The ring -/

/-- The `n` slots from `s` on, in a ring of `N` slots. -/
def arc (N n s : ℕ) : List ℕ := (List.range n).map fun j => (s + j) % N

/-- The slots of the ring from `s` on, once around. -/
def ring (N s : ℕ) : List ℕ := arc N N s

section Ring

variable (N s : ℕ)

@[simp] theorem length_arc (n : ℕ) : (arc N n s).length = n := by
  rw [arc, List.length_map, List.length_range]

@[simp] theorem length_ring : (ring N s).length = N := length_arc N s N

@[simp] theorem arc_zero : arc N 0 s = [] := rfl

theorem arc_succ (n : ℕ) : arc N (n + 1) s = s % N :: arc N n (s + 1) := by
  rw [arc, List.range_succ_eq_map, List.map_cons, List.map_map, Nat.add_zero]
  refine congrArg _ (List.map_congr_left fun j _ => ?_)
  rw [Function.comp_apply, Nat.succ_eq_add_one, Nat.add_assoc, Nat.add_comm 1 j]

theorem arc_add (a b : ℕ) : arc N (a + b) s = arc N a s ++ arc N b (s + a) := by
  rw [arc, List.range_add, List.map_append, List.map_map]
  refine congrArg _ (List.map_congr_left fun j _ => ?_)
  rw [Function.comp_apply, Nat.add_assoc]

theorem getLast?_arc_succ (n : ℕ) : (arc N (n + 1) s).getLast? = some ((s + n) % N) := by
  rw [arc_add, arc_succ, arc_zero, List.getLast?_concat]

@[simp] theorem arc_mod (n : ℕ) : arc N n (s % N) = arc N n s :=
  List.map_congr_left fun j _ => Nat.mod_add_mod s N j

@[simp] theorem ring_mod : ring N (s % N) = ring N s := arc_mod N s N

/-- An arc that begins on the ring goes along it. -/
theorem take_ring {n : ℕ} (hn : n ≤ N) : (ring N s).take n = arc N n s := by
  obtain ⟨k, rfl⟩ := Nat.exists_eq_add_of_le hn
  rw [ring, arc_add]
  exact List.take_left' (length_arc _ _ _)

/-- From a slot further on, the ring is rotated. -/
theorem ring_add {k : ℕ} (hk : k ≤ N) : ring N (s + k) = (ring N s).rotate k := by
  obtain ⟨n, rfl⟩ := Nat.exists_eq_add_of_le hk
  have hfrom : ring (k + n) s = arc (k + n) k s ++ arc (k + n) n (s + k) := arc_add _ _ _ _
  have hwrap : arc (k + n) k (s + k + n) = arc (k + n) k s := by
    rw [Nat.add_assoc, ← arc_mod, Nat.add_mod_right, arc_mod]
  have hto : ring (k + n) (s + k) = arc (k + n) n (s + k) ++ arc (k + n) k s := by
    rw [← hwrap, ← arc_add, Nat.add_comm n k]
    rfl
  rw [hto, List.rotate_eq_drop_append_take (by rw [length_ring]; exact hk), hfrom,
    List.drop_left' (length_arc _ _ _), List.take_left' (length_arc _ _ _)]

theorem mem_ring {N : ℕ} (hN : 0 < N) {i : ℕ} : i ∈ ring N s ↔ i < N := by
  have hzero : i ∈ ring N 0 ↔ i < N := by
    rw [ring, arc, List.mem_map]
    constructor
    · rintro ⟨j, -, rfl⟩
      exact Nat.mod_lt _ hN
    · intro hi
      exact ⟨i, List.mem_range.2 hi, by rw [Nat.zero_add, Nat.mod_eq_of_lt hi]⟩
  have hle : s % N ≤ N := (Nat.mod_lt s hN).le
  rw [← ring_mod, ← Nat.zero_add (s % N), ring_add N 0 hle, List.mem_rotate, hzero]

theorem nodup_ring (hN : 0 < N) : (ring N s).Nodup := by
  have hzero : (ring N 0).Nodup := by
    refine List.nodup_range.map_on fun i hi j hj heq => ?_
    rwa [Nat.zero_add, Nat.zero_add, Nat.mod_eq_of_lt (List.mem_range.1 hi),
      Nat.mod_eq_of_lt (List.mem_range.1 hj)] at heq
  have hle : s % N ≤ N := (Nat.mod_lt s hN).le
  rw [← ring_mod, ← Nat.zero_add (s % N), ring_add N 0 hle, List.nodup_rotate]
  exact hzero

/-- The marked slots are rotated by how many of them the arc has. -/
theorem filter_ring_add (p : ℕ → Bool) {k : ℕ} (hk : k ≤ N) :
    (ring N (s + k)).filter p = ((ring N s).filter p).rotate ((arc N k s).filter p).length := by
  have hsplit : (ring N s).filter p = (arc N k s).filter p ++ ((ring N s).drop k).filter p := by
    rw [← take_ring N s hk, ← List.filter_append, List.take_append_drop]
  rw [ring_add N s hk, List.rotate_eq_drop_append_take (by rw [length_ring]; exact hk),
    List.filter_append, take_ring N s hk, hsplit, List.rotate_append_length_eq]

/-- The marked slots from the end of a walk on. -/
theorem filter_ring_upTo (p : ℕ → Bool) (max : ℕ) :
    (ring N (s + (upTo p max (ring N s)).length)).filter p =
      ((ring N s).filter p).rotate (((ring N s).filter p).take max).length := by
  have hle : (upTo p max (ring N s)).length ≤ N := by
    have h := length_upTo_le p max (ring N s)
    rwa [length_ring] at h
  rw [filter_ring_add N s p hle, ← take_ring N s hle, take_length_upTo, filter_upTo]

end Ring

end OnionRouter.Lib
