import OnionRouter.Protocol.Cell

/-!
# What was in a buffer before

A message is filled in over a buffer that holds anything. Its bytes are the same whatever
that was exactly when the writes cover all of them (`Stores.forall_read_eq_iff`). No sender
of a cell writes to `circ_id`, so none of them covers a cell (`not_covers_of_cmdOffset_le`).
-/

namespace OnionRouter.Protocol

open Lib Memory Net

namespace Stores

/-- One of the writes goes to the address `a`. -/
def WritesTo (stores : Stores) (a : ℕ) : Prop :=
  ∃ store ∈ stores, store.1 ≤ a ∧ a < store.1 + store.2.length

/-- The writes cover the `n` bytes from `off` on. -/
def Covers (stores : Stores) (off n : ℕ) : Prop := ∀ i < n, stores.WritesTo (off + i)

variable {stores : Stores} {a off n : ℕ}

theorem writesTo_cons {store : ℕ × List UInt8} : WritesTo (store :: stores) a ↔
    (store.1 ≤ a ∧ a < store.1 + store.2.length) ∨ stores.WritesTo a := by
  simp [WritesTo]

theorem writesTo_append {stores' : Stores} : WritesTo (stores ++ stores') a ↔
    stores.WritesTo a ∨ stores'.WritesTo a := by
  simp only [WritesTo, List.mem_append, or_and_right, exists_or]

@[simp] theorem write_nil (m : Memory UInt8) : write [] m = m := rfl

@[simp] theorem write_cons (store : ℕ × List UInt8) (stores : Stores) (m : Memory UInt8) :
    write (store :: stores) m = stores.write (m.write store.1 store.2) := rfl

/-- Where no write goes, the buffer keeps what it held. -/
theorem write_of_not_writesTo (h : ¬ stores.WritesTo a) (m : Memory UInt8) :
    stores.write m a = m a := by
  induction stores generalizing m with
  | nil => rfl
  | cons store stores ih =>
    obtain ⟨hstore, hrest⟩ := not_or.1 (mt writesTo_cons.2 h)
    rw [write_cons, ih hrest]
    rcases Nat.lt_or_ge a store.1 with hlt | hge
    · exact write_of_lt _ _ _ hlt
    · exact write_of_ge _ _ _ (Nat.le_of_not_lt fun hlt => hstore ⟨hge, hlt⟩)

/-- Where a write goes, what the buffer held is gone. -/
theorem write_of_writesTo (h : stores.WritesTo a) (m m' : Memory UInt8) :
    stores.write m a = stores.write m' a := by
  induction stores generalizing m m' with
  | nil =>
    obtain ⟨store, hstore, -⟩ := h
    cases hstore
  | cons store stores ih =>
    rw [write_cons, write_cons]
    by_cases hrest : WritesTo stores a
    · exact ih hrest _ _
    · obtain ⟨hle, hlt⟩ := (writesTo_cons.1 h).resolve_right hrest
      obtain ⟨i, rfl⟩ := Nat.exists_eq_add_of_le hle
      have hi : i < store.2.length := by omega
      rw [write_of_not_writesTo hrest, write_of_not_writesTo hrest, write_of_mem _ _ _ hi,
        write_of_mem _ _ _ hi]

/-- The bytes of a message are the same over all buffers exactly when the writes cover
    them. -/
theorem forall_read_eq_iff :
    (∀ m m', (stores.write m).read off n = (stores.write m').read off n) ↔
      stores.Covers off n := by
  constructor
  · intro h i hi
    by_contra hnot
    have hread := apply_of_read_eq _ _ _ (h (fun _ => 0) fun _ => 1) hi
    rw [write_of_not_writesTo hnot, write_of_not_writesTo hnot] at hread
    cases hread
  · intro h m m'
    exact read_congr _ _ _ fun i hi => write_of_writesTo (h i hi) m m'

/-- Writes that leave `circ_id` alone do not cover a cell. -/
theorem not_covers_of_cmdOffset_le (h : ∀ store ∈ stores, cmdOffset ≤ store.1) :
    ¬ stores.Covers 0 torMsgSize := by
  intro hcovers
  obtain ⟨store, hstore, hle, -⟩ := hcovers 0 (by decide)
  exact absurd ((h store hstore).trans hle) (by decide)

end Stores

end OnionRouter.Protocol
