import Mathlib.Data.Nat.Basic
import Mathlib.Order.Basic
import Mathlib.Tactic.Common

/-!
# Rows of queues

Items enter the first queue of a row, go from each queue to the next one, and leave from the
last. Whatever the order of these moves, the row is a single queue.

* `inTransit_enter`, `inTransit_leave`, `inTransit_advance`: what the moves do to the items, in
  the order in which they will leave.
* `distance_advance`: a move within the row brings an item nearer to its end.
* `Carries`: rows of other things, which the items look like on their way.
-/

namespace OnionRouter.Lib.Pipeline

variable {α β : Type*}

/-- The items in the queues up to `n`, the next to leave first. -/
def inTransit (stages : ℕ → List α) : ℕ → List α
  | 0 => stages 0
  | n + 1 => stages (n + 1) ++ inTransit stages n

/-- How many moves are left until all items are in queue `n`. -/
def distance (stages : ℕ → List α) : ℕ → ℕ
  | 0 => 0
  | n + 1 => distance stages n + (inTransit stages n).length

/-! ## Moves -/

/-- Items enter the first queue. -/
def enter (stages : ℕ → List α) (items : List α) : ℕ → List α :=
  Function.update stages 0 (stages 0 ++ items)

/-- The first item leaves queue `n`. -/
def leave (stages : ℕ → List α) (n : ℕ) : ℕ → List α := Function.update stages n (stages n).tail

/-- The first item of queue `k` goes on to the next. -/
def advance (stages : ℕ → List α) (k : ℕ) : ℕ → List α :=
  Function.update (leave stages k) (k + 1) (stages (k + 1) ++ (stages k).take 1)

variable {stages stages' : ℕ → List α} {k n : ℕ}

theorem leave_of_ne (h : k ≠ n) : leave stages n k = stages k := Function.update_of_ne h _ _

theorem leave_self : leave stages n n = (stages n).tail := Function.update_self _ _ _

theorem enter_of_ne (h : k ≠ 0) (items : List α) : enter stages items k = stages k :=
  Function.update_of_ne h _ _

theorem enter_zero (items : List α) : enter stages items 0 = stages 0 ++ items :=
  Function.update_self _ _ _

theorem advance_succ : advance stages k (k + 1) = stages (k + 1) ++ (stages k).take 1 :=
  Function.update_self _ _ _

theorem advance_of_ne (h : n ≠ k + 1) : advance stages k n = leave stages k n :=
  Function.update_of_ne h _ _

theorem advance_self : advance stages k k = (stages k).tail :=
  (advance_of_ne k.lt_succ_self.ne).trans leave_self

/-! ## The row as a queue -/

theorem inTransit_congr (h : ∀ k ≤ n, stages k = stages' k) :
    inTransit stages n = inTransit stages' n := by
  induction n with
  | zero => exact h 0 le_rfl
  | succ n ih =>
    rw [inTransit, inTransit, h (n + 1) le_rfl, ih fun k hk => h k (hk.trans n.le_succ)]

theorem inTransit_enter (items : List α) :
    inTransit (enter stages items) n = inTransit stages n ++ items := by
  induction n with
  | zero => exact enter_zero items
  | succ n ih => rw [inTransit, inTransit, ih, enter_of_ne n.succ_ne_zero, List.append_assoc]

theorem inTransit_leave : (stages n).take 1 ++ inTransit (leave stages n) n = inTransit stages n := by
  have hsplit : (stages n).take 1 ++ (stages n).tail = stages n := by
    rw [← List.drop_one, List.take_append_drop]
  cases n with
  | zero =>
    rw [inTransit, leave_self]
    exact hsplit
  | succ n =>
    have hbefore : inTransit (leave stages (n + 1)) n = inTransit stages n :=
      inTransit_congr fun k hk => leave_of_ne (Nat.lt_succ_of_le hk).ne
    rw [inTransit, inTransit, leave_self, hbefore, ← List.append_assoc, hsplit]

/-- Moves within the row leave the order alone. By induction on its length. -/
theorem inTransit_advance (hk : k < n) : inTransit (advance stages k) n = inTransit stages n := by
  induction n with
  | zero => exact absurd hk k.not_lt_zero
  | succ n ih =>
    rw [inTransit, inTransit]
    rcases (Nat.le_of_lt_succ hk).lt_or_eq with hlt | rfl
    · rw [ih hlt, advance_of_ne (by omega), leave_of_ne (by omega)]
    · have hbefore : inTransit (advance stages k) k = inTransit (leave stages k) k :=
        inTransit_congr fun j hj => advance_of_ne (Nat.lt_succ_of_le hj).ne
      rw [advance_succ, hbefore, List.append_assoc, inTransit_leave]

theorem inTransit_of_nil (h : ∀ k < n, stages k = []) : inTransit stages n = stages n := by
  induction n with
  | zero => rfl
  | succ n ih =>
    rw [inTransit, ih fun k hk => h k (hk.trans n.lt_succ_self), h n n.lt_succ_self, List.append_nil]

theorem mem_inTransit {x : α} (hk : k ≤ n) (hx : x ∈ stages k) : x ∈ inTransit stages n := by
  induction n with
  | zero =>
    obtain rfl := Nat.le_zero.1 hk
    exact hx
  | succ n ih =>
    rw [inTransit, List.mem_append]
    rcases hk.lt_or_eq with hlt | rfl
    · exact .inr (ih (Nat.le_of_lt_succ hlt))
    · exact .inl hx

theorem inTransit_head {x : α} {items : List α} (h : stages n = x :: items) :
    inTransit stages n = x :: inTransit (leave stages n) n := by
  rw [← inTransit_leave, h]
  rfl

/-! ## Progress -/

theorem distance_congr (h : ∀ k < n, stages k = stages' k) : distance stages n = distance stages' n := by
  induction n with
  | zero => rfl
  | succ n ih =>
    rw [distance, distance, ih fun k hk => h k (hk.trans n.lt_succ_self),
      inTransit_congr fun k hk => h k (Nat.lt_succ_of_le hk)]

/-- By induction on the length of the row. -/
theorem distance_advance (hk : k < n) (hne : stages k ≠ []) :
    distance (advance stages k) n < distance stages n := by
  induction n with
  | zero => exact absurd hk k.not_lt_zero
  | succ n ih =>
    rw [distance, distance]
    rcases (Nat.le_of_lt_succ hk).lt_or_eq with hlt | rfl
    · rw [inTransit_advance hlt]
      exact Nat.add_lt_add_right (ih hlt) _
    · have hsame : distance (advance stages k) k = distance stages k :=
        distance_congr fun j hj => (advance_of_ne (by omega)).trans (leave_of_ne hj.ne)
      have hbefore : inTransit (advance stages k) k = inTransit (leave stages k) k :=
        inTransit_congr fun j hj => advance_of_ne (Nat.lt_succ_of_le hj).ne
      obtain ⟨x, items, hstage⟩ := List.exists_cons_of_ne_nil hne
      rw [hsame, hbefore, inTransit_head hstage]
      exact Nat.lt_succ_self _

/-! ## What the items look like -/

theorem length_inTransit_map (image : ℕ → α → β) :
    (inTransit (fun k => (stages k).map (image k)) n).length = (inTransit stages n).length := by
  induction n with
  | zero => exact List.length_map _
  | succ n ih => rw [inTransit, inTransit, List.length_append, List.length_append, ih, List.length_map]

theorem distance_map (image : ℕ → α → β) :
    distance (fun k => (stages k).map (image k)) n = distance stages n := by
  induction n with
  | zero => rfl
  | succ n ih => rw [distance, distance, ih, length_inTransit_map]

/-- In the row up to `n` are the items, each as it looks in the queue that it is in. -/
def Carries (image : ℕ → α → β) (queue : ℕ → List β) (n : ℕ) (items : List α) : Prop :=
  ∃ stages, (∀ k ≤ n, queue k = (stages k).map (image k)) ∧ inTransit stages n = items

namespace Carries

variable {image : ℕ → α → β} {queue queue' : ℕ → List β} {items : List α}

theorem nil (h : ∀ k ≤ n, queue k = []) : Carries image queue n [] :=
  ⟨fun _ => [], h, inTransit_of_nil fun _ _ => rfl⟩

theorem congr (h : Carries image queue n items) (hqueue : ∀ k ≤ n, queue' k = queue k) :
    Carries image queue' n items := by
  obtain ⟨stages, hstages, hitems⟩ := h
  exact ⟨stages, fun k hk => (hqueue k hk).trans (hstages k hk), hitems⟩

theorem length_eq (h : Carries image queue n items) : (inTransit queue n).length = items.length := by
  obtain ⟨stages, hstages, rfl⟩ := h
  rw [inTransit_congr hstages, length_inTransit_map]

/-- When all other queues are empty, all items are in the last. -/
theorem of_nil (h : Carries image queue n items) (hnil : ∀ k < n, queue k = []) :
    queue n = items.map (image n) := by
  obtain ⟨stages, hstages, rfl⟩ := h
  have hnone : ∀ k < n, stages k = [] := fun k hk =>
    List.map_eq_nil_iff.1 ((hstages k hk.le).symm.trans (hnil k hk))
  rw [hstages n le_rfl, inTransit_of_nil hnone]

theorem eq_nil (h : Carries image queue n items) (hnil : ∀ k ≤ n, queue k = []) : items = [] :=
  List.map_eq_nil_iff.1 ((h.of_nil fun k hk => hnil k hk.le).symm.trans (hnil n le_rfl))

/-- Without items all queues are empty. -/
theorem queue_eq_nil (h : Carries image queue n []) {k : ℕ} (hk : k ≤ n) : queue k = [] := by
  have hnone : inTransit queue n = [] := List.length_eq_zero_iff.1 h.length_eq
  refine List.eq_nil_iff_forall_not_mem.2 fun y hy => ?_
  have hmem := mem_inTransit hk hy
  rw [hnone] at hmem
  exact List.not_mem_nil hmem

/-- What is first in the last queue is the next item. -/
theorem head (h : Carries image queue n items) {y : β} {rest : List β} (hy : queue n = y :: rest) :
    ∃ x l, items = x :: l ∧ y = image n x := by
  obtain ⟨stages, hstages, rfl⟩ := h
  obtain ⟨x, l, hstage, hx, -⟩ := List.map_eq_cons_iff.1 ((hstages n le_rfl).symm.trans hy)
  exact ⟨x, _, inTransit_head hstage, hx.symm⟩

theorem leave (h : Carries image queue n items) (hne : queue n ≠ [])
    (hlast : queue' n = (queue n).tail) (hother : ∀ k < n, queue' k = queue k) :
    Carries image queue' n items.tail := by
  obtain ⟨stages, hstages, rfl⟩ := h
  refine ⟨Pipeline.leave stages n, fun k hk => ?_, ?_⟩
  · rcases hk.lt_or_eq with hlt | rfl
    · rw [leave_of_ne hlt.ne, hother k hlt, hstages k hk]
    · rw [leave_self, hlast, hstages k le_rfl, List.map_tail]
  · have hstage : stages n ≠ [] := fun hnil => hne (by rw [hstages n le_rfl, hnil]; rfl)
    obtain ⟨x, l, hstage⟩ := List.exists_cons_of_ne_nil hstage
    rw [inTransit_head hstage]
    rfl

theorem enter (h : Carries image queue n items) (new : List α)
    (hfirst : queue' 0 = queue 0 ++ new.map (image 0))
    (hother : ∀ k ≤ n, k ≠ 0 → queue' k = queue k) : Carries image queue' n (items ++ new) := by
  obtain ⟨stages, hstages, rfl⟩ := h
  refine ⟨Pipeline.enter stages new, fun k hk => ?_, inTransit_enter new⟩
  rcases eq_or_ne k 0 with rfl | hne
  · rw [enter_zero, hfirst, hstages 0 hk, List.map_append]
  · rw [enter_of_ne hne, hother k hk hne, hstages k hk]

/-- An item that goes on looks as it does in the next queue. -/
theorem advance (h : Carries image queue n items) (hk : k < n) {y : β} {rest : List β}
    (hy : queue k = y :: rest) : ∃ x ∈ items, y = image k x ∧
      ∀ queue', queue' k = rest → queue' (k + 1) = queue (k + 1) ++ [image (k + 1) x] →
        (∀ j ≤ n, j ≠ k → j ≠ k + 1 → queue' j = queue j) →
          Carries image queue' n items ∧ distance queue' n < distance queue n := by
  obtain ⟨stages, hstages, rfl⟩ := h
  obtain ⟨x, l, hstage, hx, hl⟩ := List.map_eq_cons_iff.1 ((hstages k hk.le).symm.trans hy)
  have hmem : x ∈ inTransit stages n := mem_inTransit hk.le (hstage ▸ List.mem_cons_self)
  refine ⟨x, hmem, hx.symm, fun queue' hleft hnext hother => ?_⟩
  have hstages' : ∀ j ≤ n, queue' j = (Pipeline.advance stages k j).map (image j) := by
    intro j hj
    rcases eq_or_ne j (k + 1) with rfl | hne
    · rw [advance_succ, hnext, hstages _ hj, hstage, List.map_append]
      rfl
    · rcases eq_or_ne j k with rfl | hne'
      · rw [advance_self, hleft, hstage]
        exact hl.symm
      · rw [advance_of_ne hne, leave_of_ne hne', hother j hj hne' hne, hstages j hj]
  refine ⟨⟨_, hstages', inTransit_advance hk⟩, ?_⟩
  have hbefore := distance_congr fun j hj => hstages j (Nat.le_of_lt hj)
  have hafter := distance_congr fun j hj => hstages' j (Nat.le_of_lt hj)
  rw [hbefore, hafter, distance_map, distance_map]
  exact distance_advance hk (hstage ▸ List.cons_ne_nil x l)

end Carries

end OnionRouter.Lib.Pipeline
