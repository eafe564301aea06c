import Mathlib.Algebra.BigOperators.Group.Finset.Basic
import Mathlib.Data.Multiset.AddSub
import Mathlib.Data.Nat.ModEq
import Mathlib.Algebra.Order.Group.Multiset

/-!
# Open addressing

A hash table of `N` slots with linear probing: a key is looked for from its home
slot on, around the table, up to an empty slot. A removed entry leaves a tombstone
behind, which insertions use again.

What a table holds under a key is a multiset (`held`), as an insertion that meets a
tombstone first does not notice an entry of the same key further on. The path from
the home of an entry to its slot has no empty slots (`PathFull`), so that lookups
do not miss it.

* `find_eq_none_iff`, `mem_held_of_find`: a lookup finds an entry of the key, if any.
* `held_insert`, `held_erase`: what the operations do to the entries of every key.
* `First.find`, `First.of_insert`: a lookup finds the entry that was inserted last.
* `NoneDeletedBefore.ne_of_insert`: a key is inserted a second time only across a
  tombstone.
* `AtHome`: tables whose entries are all in their home slots have at most one of
  every key (`held_of_atHome`).
* `contents_insert`, `contents_erase`: what the operations do to the data of all entries.
-/

namespace OnionRouter.Lib

/-- A slot of a hash table. -/
inductive Slot (κ α : Type*)
  | empty
  | filled (key : κ) (data : α)
  | deleted
  deriving DecidableEq

/-- What every slot holds. -/
abbrev Table (κ α : Type*) := ℕ → Slot κ α

variable {κ α : Type*}

namespace Slot

/-- Whether the slot holds an entry. -/
def isFilled : Slot κ α → Bool
  | filled _ _ => true
  | _ => false

/-- The data of the entry in the slot, if there is one. -/
def data? : Slot κ α → Option α
  | filled _ d => some d
  | _ => none

theorem data?_eq_some {s : Slot κ α} {d : α} : s.data? = some d ↔ ∃ key, s = filled key d := by
  cases s <;> simp [data?]

theorem data?_of_not_isFilled {s : Slot κ α} (h : s.isFilled = false) : s.data? = none := by
  cases s with
  | empty => rfl
  | deleted => rfl
  | filled => cases h

variable [DecidableEq κ]

/-- What the slot holds under a key. -/
def under (s : Slot κ α) (key : κ) : Multiset α :=
  match s with
  | filled k d => if k = key then {d} else 0
  | _ => 0

@[simp] theorem under_empty (key : κ) : (empty : Slot κ α).under key = 0 := rfl

@[simp] theorem under_deleted (key : κ) : (deleted : Slot κ α).under key = 0 := rfl

@[simp] theorem under_filled_self (key : κ) (d : α) : (filled key d).under key = {d} := if_pos rfl

theorem under_filled_of_ne {k key : κ} (h : k ≠ key) (d : α) : (filled k d).under key = 0 := if_neg h

theorem mem_under {s : Slot κ α} {key : κ} {d : α} : d ∈ s.under key ↔ s = filled key d := by
  cases s with
  | empty => simp
  | deleted => simp
  | filled k e =>
    by_cases h : k = key
    · subst h
      rw [under_filled_self, Multiset.mem_singleton, filled.injEq, eq_comm]
      exact (and_iff_right rfl).symm
    · rw [under_filled_of_ne h]
      exact iff_of_false (Multiset.notMem_zero d) fun heq => h (filled.inj heq).1

end Slot

namespace Table

/-! ## The operations -/

/-- Writing one slot. -/
def set (t : Table κ α) (i : ℕ) (s : Slot κ α) : Table κ α := fun j => if j = i then s else t j

@[simp] theorem set_self (t : Table κ α) (i : ℕ) (s : Slot κ α) : t.set i s i = s := if_pos rfl

theorem set_of_ne {i j : ℕ} (h : j ≠ i) (t : Table κ α) (s : Slot κ α) : t.set i s j = t j :=
  if_neg h

/-- A slot has a content after a write only if it had it, or it was written. -/
theorem set_ne {t : Table κ α} {i j : ℕ} {s s' : Slot κ α} (hs : s ≠ s') (hj : t j ≠ s') :
    t.set i s j ≠ s' := by
  rw [set]
  split_ifs
  · exact hs
  · exact hj

section Operations

variable [DecidableEq κ] (N : ℕ) (home : κ → ℕ)

/-- The slot where probing for a key starts. -/
def start (key : κ) : ℕ := home key % N

/-- Probing for an entry of a key, from the slot `index` on: an empty slot ends it,
    as does coming around to the start. -/
def findLoop (t : Table κ α) (key : κ) : ℕ → ℕ → Option (ℕ × α)
  | 0, _ => none
  | rounds + 1, index =>
    let next := (index + 1) % N
    match t index with
    | .empty => none
    | .filled k d =>
      if k = key then some (index, d)
      else if next = start N home key then none else findLoop t key rounds next
    | .deleted => if next = start N home key then none else findLoop t key rounds next

/-- An entry of a key, with its slot. -/
def find (t : Table κ α) (key : κ) : Option (ℕ × α) :=
  findLoop N home t key N (start N home key)

/-- Probing for a slot for a new entry, from the slot `index` on: an entry of the
    same key ends it, as does coming around to the start. -/
def insertLoop (t : Table κ α) (key : κ) : ℕ → ℕ → Option ℕ
  | 0, _ => none
  | rounds + 1, index =>
    let next := (index + 1) % N
    match t index with
    | .filled k _ =>
      if k = key then none
      else if next = start N home key then none else insertLoop t key rounds next
    | _ => some index

/-- Inserting an entry, unless probing fails. -/
def insert (t : Table κ α) (key : κ) (d : α) : Option (Table κ α) :=
  (insertLoop N home t key N (start N home key)).map fun index =>
    set t index (.filled key d)

/-- Removing an entry of a key, if one is found. -/
def erase (t : Table κ α) (key : κ) : Option (Table κ α) :=
  (find N home t key).map fun entry => set t entry.1 .deleted

/-- What the table holds under a key. -/
@[irreducible] def held (t : Table κ α) (key : κ) : Multiset α := ∑ i ∈ Finset.range N, (t i).under key

/-- No lookup ends before an entry it passes on its way. -/
def PathFull (t : Table κ α) : Prop :=
  ∀ key d, ∀ j < N, t ((start N home key + j) % N) = .filled key d →
    ∀ l < j, t ((start N home key + l) % N) ≠ .empty

/-- All entries are in their home slots. -/
def AtHome (t : Table κ α) : Prop :=
  ∀ i < N, ∀ key d, t i = .filled key d → i = start N home key

end Operations

variable [DecidableEq κ] {N : ℕ} {home : κ → ℕ} {t t' : Table κ α} {key : κ}

/-! ## Entries -/

theorem mem_held {d : α} : d ∈ held N t key ↔ ∃ i < N, t i = .filled key d := by
  simp only [held, Multiset.mem_sum, Finset.mem_range, Slot.mem_under]

/-- What a write of one slot does to the entries. -/
theorem held_update (t : Table κ α) (key : κ) {i : ℕ} (hi : i < N) (s : Slot κ α) :
    held N (set t i s) key + (t i).under key = held N t key + s.under key := by
  have hmem : i ∈ Finset.range N := Finset.mem_range.2 hi
  have hrest : ∑ j ∈ (Finset.range N).erase i, (set t i s j).under key =
      ∑ j ∈ (Finset.range N).erase i, (t j).under key :=
    Finset.sum_congr rfl fun j hj => by rw [set_of_ne (Finset.ne_of_mem_erase hj)]
  rw [held, held, ← Finset.add_sum_erase _ _ hmem, ← Finset.add_sum_erase _ _ hmem, hrest,
    set_self]
  ac_rfl

theorem held_of_forall_ne (h : ∀ i < N, ∀ d, t i ≠ .filled key d) : held N t key = 0 :=
  Multiset.eq_zero_of_forall_notMem fun d hd => by
    obtain ⟨i, hi, heq⟩ := mem_held.1 hd
    exact h i hi d heq

omit [DecidableEq κ] in
theorem start_lt (hN : 0 < N) (home : κ → ℕ) (key : κ) : start N home key < N := Nat.mod_lt _ hN

omit [DecidableEq κ] in
/-- The slots from the start on, around the table. -/
theorem exists_position (hN : 0 < N) (home : κ → ℕ) (key : κ) {i : ℕ} (hi : i < N) :
    ∃ j < N, i = (start N home key + j) % N := by
  have hstart := start_lt hN home key
  rcases Nat.lt_or_ge i (start N home key) with h | h
  · refine ⟨i + N - start N home key, by omega, ?_⟩
    rw [Nat.add_sub_cancel' (by omega), Nat.add_mod_right, Nat.mod_eq_of_lt hi]
  · refine ⟨i - start N home key, by omega, ?_⟩
    rw [Nat.add_sub_cancel' h, Nat.mod_eq_of_lt hi]

omit [DecidableEq κ] in
/-- Probing comes around to the start after `N` slots, and not before. -/
theorem next_ne_start (hN : 0 < N) (home : κ → ℕ) (key : κ) {j : ℕ} (hj : j + 1 < N) :
    ((start N home key + j) % N + 1) % N ≠ start N home key := by
  have hstart := start_lt hN home key
  rw [Nat.mod_add_mod, Nat.add_assoc]
  rcases Nat.lt_or_ge (start N home key + (j + 1)) N with h | h
  · rw [Nat.mod_eq_of_lt h]
    omega
  · rw [Nat.mod_eq_sub_mod h, Nat.mod_eq_of_lt (by omega)]
    omega

/-! ## Lookups -/

theorem findLoop_eq_some {rounds index i : ℕ} {d : α} (hN : 0 < N) (hindex : index < N)
    (h : findLoop N home t key rounds index = some (i, d)) : i < N ∧ t i = .filled key d := by
  induction rounds generalizing index with
  | zero => cases h
  | succ rounds ih =>
    have hnext : (index + 1) % N < N := Nat.mod_lt _ hN
    rw [findLoop] at h
    cases hslot : t index with
    | empty => rw [hslot] at h; cases h
    | filled k d =>
      simp only [hslot] at h
      split_ifs at h with hkey
      · cases h
        exact ⟨hindex, hkey ▸ hslot⟩
      · exact ih hnext h
    | deleted =>
      simp only [hslot] at h
      split_ifs at h
      exact ih hnext h

/-- A lookup returns the slot of an entry of the key. -/
theorem slot_of_find (hN : 0 < N) {i : ℕ} {d : α} (h : find N home t key = some (i, d)) :
    i < N ∧ t i = .filled key d :=
  findLoop_eq_some hN (start_lt hN home key) h

theorem mem_held_of_find (hN : 0 < N) {i : ℕ} {d : α} (h : find N home t key = some (i, d)) :
    d ∈ held N t key :=
  mem_held.2 ⟨i, slot_of_find hN h⟩

/-- Probing reaches an entry that no empty slot precedes. -/
theorem findLoop_isSome (hN : 0 < N) {j₀ j rounds : ℕ} {d : α} (hj₀ : j₀ ≤ j) (hj : j < N)
    (hrounds : j < j₀ + rounds) (hentry : t ((start N home key + j) % N) = .filled key d)
    (hpath : ∀ l, j₀ ≤ l → l < j → t ((start N home key + l) % N) ≠ .empty) :
    (findLoop N home t key rounds ((start N home key + j₀) % N)).isSome := by
  induction rounds generalizing j₀ with
  | zero => omega
  | succ rounds ih =>
    rcases Nat.eq_or_lt_of_le hj₀ with rfl | hlt
    · simp only [findLoop, hentry, if_true]
      rfl
    · have hnext := next_ne_start hN home key (show j₀ + 1 < N by omega)
      have hrest := ih (Nat.succ_le_of_lt hlt) (by omega) fun l hl => hpath l (by omega)
      rw [Nat.succ_eq_add_one, ← Nat.add_assoc, ← Nat.mod_add_mod] at hrest
      have hslot := hpath j₀ le_rfl hlt
      cases h : t ((start N home key + j₀) % N) with
      | empty => exact absurd h hslot
      | filled k e =>
        simp only [findLoop, h, if_neg hnext]
        split_ifs
        · rfl
        · exact hrest
      | deleted => simpa only [findLoop, h, if_neg hnext] using hrest

/-- A lookup fails only for a key without entries. -/
theorem find_eq_none_iff (hN : 0 < N) (hpath : PathFull N home t) :
    find N home t key = none ↔ held N t key = 0 := by
  constructor
  · intro h
    refine held_of_forall_ne fun i hi d hentry => ?_
    obtain ⟨j, hj, rfl⟩ := exists_position hN home key hi
    have hsome : (findLoop N home t key N ((start N home key + 0) % N)).isSome :=
      findLoop_isSome hN (Nat.zero_le j) hj (by omega) hentry
        fun l _ hl => hpath key d j hj hentry l hl
    rw [Nat.add_zero, Nat.mod_eq_of_lt (start_lt hN home key)] at hsome
    rw [find] at h
    rw [h] at hsome
    cases hsome
  · intro h
    cases hfind : find N home t key with
    | none => rfl
    | some entry =>
      have hmem := mem_held_of_find hN hfind
      rw [h] at hmem
      cases Multiset.notMem_zero _ hmem

/-! ## Insertions and removals -/

/-- A slot that probing for a key to insert passes: it is filled, by another key. -/
def Passed (t : Table κ α) (key : κ) (i : ℕ) : Prop := ∃ k d, k ≠ key ∧ t i = .filled k d

theorem insertLoop_eq_some {rounds j₀ i : ℕ} (hN : 0 < N) (hj₀ : j₀ < N)
    (hpassed : ∀ l < j₀, Passed t key ((start N home key + l) % N))
    (h : insertLoop N home t key rounds ((start N home key + j₀) % N) = some i) :
    ∃ j < N, i = (start N home key + j) % N ∧ (t i).isFilled = false ∧
      ∀ l < j, Passed t key ((start N home key + l) % N) := by
  induction rounds generalizing j₀ with
  | zero => cases h
  | succ rounds ih =>
    rw [insertLoop] at h
    cases hslot : t ((start N home key + j₀) % N) with
    | empty =>
      rw [hslot] at h
      cases h
      exact ⟨j₀, hj₀, rfl, by rw [hslot]; rfl, hpassed⟩
    | deleted =>
      rw [hslot] at h
      cases h
      exact ⟨j₀, hj₀, rfl, by rw [hslot]; rfl, hpassed⟩
    | filled k d =>
      simp only [hslot] at h
      split_ifs at h with hkey hstart
      -- The loop goes on, so the next slot is not the first one again.
      have hj₁ : j₀ + 1 < N := by
        rcases Nat.lt_or_ge (j₀ + 1) N with hlt | hge
        · exact hlt
        · refine absurd ?_ hstart
          rw [Nat.mod_add_mod, Nat.add_assoc, show j₀ + 1 = N by omega, Nat.add_mod_right,
            Nat.mod_eq_of_lt (start_lt hN home key)]
      rw [Nat.mod_add_mod, Nat.add_assoc] at h
      refine ih hj₁ (fun l hl => ?_) h
      rcases Nat.eq_or_lt_of_le (Nat.le_of_lt_succ hl) with rfl | hlt
      · exact ⟨k, d, hkey, hslot⟩
      · exact hpassed l hlt

/-- Probing for a slot fails at an entry of the key, or after all slots were passed. -/
theorem insertLoop_eq_none {rounds j₀ : ℕ} (hN : 0 < N) (hrounds : N ≤ j₀ + rounds)
    (hj₀ : j₀ < N) (hpassed : ∀ l < j₀, Passed t key ((start N home key + l) % N))
    (h : insertLoop N home t key rounds ((start N home key + j₀) % N) = none) :
    (∃ j < N, ∃ d, t ((start N home key + j) % N) = .filled key d) ∨
      ∀ l < N, Passed t key ((start N home key + l) % N) := by
  induction rounds generalizing j₀ with
  | zero => exact absurd hj₀ (Nat.not_lt.2 hrounds)
  | succ rounds ih =>
    rw [insertLoop] at h
    cases hslot : t ((start N home key + j₀) % N) with
    | empty => rw [hslot] at h; cases h
    | deleted => rw [hslot] at h; cases h
    | filled k d =>
      simp only [hslot] at h
      by_cases hkey : k = key
      · exact .inl ⟨j₀, hj₀, d, hkey ▸ hslot⟩
      · have hpassed' : ∀ l < j₀ + 1, Passed t key ((start N home key + l) % N) := by
          intro l hl
          rcases Nat.eq_or_lt_of_le (Nat.le_of_lt_succ hl) with rfl | hlt
          · exact ⟨k, d, hkey, hslot⟩
          · exact hpassed l hlt
        -- At the last slot the loop comes back to the start, and all slots were passed.
        rcases Nat.lt_or_ge (j₀ + 1) N with hlt | hge
        · rw [if_neg hkey, if_neg (next_ne_start hN home key hlt), Nat.mod_add_mod,
            Nat.add_assoc] at h
          exact ih (by omega) hlt hpassed' h
        · exact .inr fun l hl => hpassed' l (Nat.lt_of_lt_of_le hl hge)

/-- An insertion fills a slot that was free, the first one on the way, before any
    entry of its key. -/
theorem exists_of_insert (hN : 0 < N) {d : α} (h : insert N home t key d = some t') :
    ∃ i < N, t' = set t i (.filled key d) ∧ (t i).isFilled = false ∧
      ∃ j < N, i = (start N home key + j) % N ∧
        ∀ l < j, Passed t key ((start N home key + l) % N) := by
  obtain ⟨i, hloop, rfl⟩ := Option.map_eq_some_iff.1 h
  have hstart := Nat.mod_eq_of_lt (start_lt hN home key)
  rw [← hstart] at hloop
  obtain ⟨j, hj, rfl, hfree, hpassed⟩ := insertLoop_eq_some hN hN
    (fun l (hl : l < 0) => absurd hl (Nat.not_lt_zero l)) hloop
  exact ⟨_, Nat.mod_lt _ hN, rfl, hfree, j, hj, rfl, hpassed⟩

/-- An insertion fails only for a key that has an entry, or in a table that is full. -/
theorem insert_eq_none (hN : 0 < N) {d : α} (h : insert N home t key d = none) :
    (∃ i < N, ∃ d, t i = .filled key d) ∨ ∀ i < N, (t i).isFilled := by
  have hloop := Option.map_eq_none_iff.1 h
  have hstart := Nat.mod_eq_of_lt (start_lt hN home key)
  rw [← hstart] at hloop
  rcases insertLoop_eq_none hN (Nat.le_of_eq (Nat.zero_add N).symm) hN
    (fun l (hl : l < 0) => absurd hl (Nat.not_lt_zero l)) hloop with ⟨j, -, d, hslot⟩ | hpassed
  · exact .inl ⟨_, Nat.mod_lt _ hN, d, hslot⟩
  · refine .inr fun i hi => ?_
    obtain ⟨j, hj, rfl⟩ := exists_position hN home key hi
    obtain ⟨k, d, -, hslot⟩ := hpassed j hj
    rw [hslot]
    rfl

theorem under_of_not_isFilled {s : Slot κ α} (h : s.isFilled = false) (k : κ) : s.under k = 0 := by
  cases s with
  | empty => rfl
  | deleted => rfl
  | filled => cases h

/-- An insertion adds its entry. -/
theorem held_insert (hN : 0 < N) {d : α} (h : insert N home t key d = some t') (k : κ) :
    held N t' k = if k = key then d ::ₘ held N t k else held N t k := by
  obtain ⟨i, hi, rfl, hfree, -⟩ := exists_of_insert hN h
  have hupdate := held_update t k hi (.filled key d)
  rw [under_of_not_isFilled hfree, add_zero] at hupdate
  rw [hupdate]
  split_ifs with hk
  · rw [hk, Slot.under_filled_self, add_comm, Multiset.singleton_add]
  · rw [Slot.under_filled_of_ne (Ne.symm hk), add_zero]

/-- A removal takes away one entry of its key. -/
theorem held_erase (hN : 0 < N) (h : erase N home t key = some t') :
    (∃ d, held N t key = d ::ₘ held N t' key) ∧ ∀ k, k ≠ key → held N t' k = held N t k := by
  obtain ⟨⟨i, d⟩, hfind, rfl⟩ := Option.map_eq_some_iff.1 h
  obtain ⟨hi, hentry⟩ := slot_of_find hN hfind
  refine ⟨⟨d, ?_⟩, fun k hk => ?_⟩
  · have hupdate := held_update t key hi .deleted
    rw [hentry, Slot.under_filled_self, Slot.under_deleted, add_zero, add_comm,
      Multiset.singleton_add] at hupdate
    exact hupdate.symm
  · have hupdate := held_update t k hi .deleted
    rwa [hentry, Slot.under_filled_of_ne (Ne.symm hk), Slot.under_deleted, add_zero, add_zero] at hupdate

omit [DecidableEq κ] in
/-- Writes that empty no slot, and fill one only at the end of a full path, keep
    paths full. -/
theorem PathFull.update (hpath : PathFull N home t) {i : ℕ} {s : Slot κ α} (hs : s ≠ .empty)
    (hnew : ∀ k d, s = .filled k d → ∀ j < N, i = (start N home k + j) % N →
      ∀ l < j, t ((start N home k + l) % N) ≠ .empty) :
    PathFull N home (set t i s) := by
  intro k d j hj hentry l hl
  have hold : t ((start N home k + l) % N) ≠ .empty := by
    by_cases hi : (start N home k + j) % N = i
    · rw [hi, set_self] at hentry
      exact hnew k d hentry j hj hi.symm l hl
    · rw [set_of_ne hi] at hentry
      exact hpath k d j hj hentry l hl
  by_cases hi : (start N home k + l) % N = i
  · rwa [hi, set_self]
  · rwa [set_of_ne hi]

/-- Positions around the table are told apart by their distance from the start. -/
theorem position_inj {s j j' : ℕ} (hj : j < N) (hj' : j' < N) (h : (s + j) % N = (s + j') % N) :
    j = j' := by
  have hmod : j ≡ j' [MOD N] := Nat.ModEq.add_left_cancel' s h
  rwa [Nat.ModEq, Nat.mod_eq_of_lt hj, Nat.mod_eq_of_lt hj'] at hmod

theorem PathFull.insert (hN : 0 < N) (hpath : PathFull N home t) {d : α}
    (h : insert N home t key d = some t') : PathFull N home t' := by
  obtain ⟨i, hi, rfl, hfree, j, hj, hij, hfilled⟩ := exists_of_insert hN h
  refine hpath.update (by simp) fun k e hk j' hj' hij' l hl hempty => ?_
  obtain ⟨rfl, -⟩ := Slot.filled.inj hk
  obtain rfl := position_inj hj hj' (hij.symm.trans hij')
  have hl' := hfilled l hl
  obtain ⟨k', d', -, hslot⟩ := hl'
  rw [hempty] at hslot
  cases hslot

theorem PathFull.erase (hpath : PathFull N home t) (h : erase N home t key = some t') :
    PathFull N home t' := by
  obtain ⟨entry, -, rfl⟩ := Option.map_eq_some_iff.1 h
  exact hpath.update (by simp) fun k d hk => by cases hk

/-! ## The first entry of a key -/

/-- The data of the first entry of a key on its way. -/
def First (N : ℕ) (home : κ → ℕ) (t : Table κ α) (key : κ) (d : α) : Prop :=
  ∃ j < N, t ((start N home key + j) % N) = .filled key d ∧
    ∀ l < j, ∀ d', t ((start N home key + l) % N) ≠ .filled key d'

/-- A lookup finds the first entry. -/
theorem findLoop_of_first (hN : 0 < N) {j₀ j rounds : ℕ} {d : α} (hj₀ : j₀ ≤ j) (hj : j < N)
    (hrounds : j < j₀ + rounds) (hentry : t ((start N home key + j) % N) = .filled key d)
    (hother : ∀ l < j, ∀ d', t ((start N home key + l) % N) ≠ .filled key d')
    (hpath : ∀ l < j, t ((start N home key + l) % N) ≠ .empty) :
    findLoop N home t key rounds ((start N home key + j₀) % N) =
      some ((start N home key + j) % N, d) := by
  induction rounds generalizing j₀ with
  | zero => omega
  | succ rounds ih =>
    rcases Nat.eq_or_lt_of_le hj₀ with rfl | hlt
    · simp only [findLoop, hentry, if_true]
    · have hnext := next_ne_start hN home key (show j₀ + 1 < N by omega)
      have hrest := ih (Nat.succ_le_of_lt hlt) (by omega)
      rw [Nat.succ_eq_add_one, ← Nat.add_assoc, ← Nat.mod_add_mod] at hrest
      cases h : t ((start N home key + j₀) % N) with
      | empty => exact absurd h (hpath j₀ hlt)
      | filled k e =>
        have hkey : k ≠ key := fun hkey => hother j₀ hlt e (hkey ▸ h)
        simpa only [findLoop, h, if_neg hkey, if_neg hnext] using hrest
      | deleted => simpa only [findLoop, h, if_neg hnext] using hrest

theorem First.find (hN : 0 < N) (hpath : PathFull N home t) {d : α}
    (h : First N home t key d) : ∃ i, find N home t key = some (i, d) := by
  obtain ⟨j, hj, hentry, hother⟩ := h
  have hrounds : j < 0 + N := by rwa [Nat.zero_add]
  have hfind := findLoop_of_first hN (Nat.zero_le j) hj hrounds hentry hother
    fun l hl => hpath key d j hj hentry l hl
  rw [Nat.add_zero, Nat.mod_eq_of_lt (start_lt hN home key)] at hfind
  exact ⟨_, hfind⟩

/-- An entry that is inserted comes first, even before older ones of its key. -/
theorem First.of_insert (hN : 0 < N) {d : α} (h : insert N home t key d = some t') :
    First N home t' key d := by
  obtain ⟨i, hi, rfl, -, j, hj, hij, hpassed⟩ := exists_of_insert hN h
  refine ⟨j, hj, by rw [← hij, set_self], fun l hl d' hslot => ?_⟩
  obtain ⟨k, e, hk, hslot'⟩ := hpassed l hl
  have hne : (start N home key + l) % N ≠ i := by
    intro heq
    rw [hij] at heq
    exact hl.ne (position_inj (hl.trans hj) hj heq)
  rw [set_of_ne hne, hslot'] at hslot
  exact hk (Slot.filled.inj hslot).1

omit [DecidableEq κ] in
/-- A write that neither takes the first entry away nor adds one of its key leaves it
    first. -/
theorem First.set {d : α} (h : First N home t key d) {i : ℕ} {s : Slot κ α}
    (hi : ∀ d', t i ≠ .filled key d') (hs : ∀ d', s ≠ .filled key d') :
    First N home (t.set i s) key d := by
  obtain ⟨j, hj, hentry, hother⟩ := h
  refine ⟨j, hj, ?_, fun l hl d' => ?_⟩
  · have hne : (start N home key + j) % N ≠ i := fun heq => hi d (heq ▸ hentry)
    rw [set_of_ne hne, hentry]
  · by_cases heq : (start N home key + l) % N = i
    · rw [heq, set_self]
      exact hs d'
    · rw [set_of_ne heq]
      exact hother l hl d'

/-! ## Tables without duplicates -/

/-- No two slots hold the same key. -/
def Distinct (N : ℕ) (t : Table κ α) : Prop :=
  ∀ i < N, ∀ j < N, ∀ key d d', t i = .filled key d → t j = .filled key d' → i = j

/-- No deleted slot lies on the way to an entry of a key. -/
def NoneDeletedBefore (N : ℕ) (home : κ → ℕ) (t : Table κ α) (key : κ) : Prop :=
  ∀ j < N, ∀ d, t ((start N home key + j) % N) = .filled key d →
    ∀ l < j, t ((start N home key + l) % N) ≠ .deleted

/-- Then a key that has an entry is not inserted again. -/
theorem NoneDeletedBefore.ne_of_insert (hN : 0 < N) (hpath : PathFull N home t)
    (h : NoneDeletedBefore N home t key) {d : α} (hinsert : insert N home t key d = some t') :
    ∀ i < N, ∀ d', t i ≠ .filled key d' := by
  intro i hi d' hslot
  obtain ⟨i', -, -, hfree, j, hj, rfl, hpassed⟩ := exists_of_insert hN hinsert
  obtain ⟨m, hm, rfl⟩ := exists_position hN home key hi
  rcases Nat.lt_trichotomy m j with hlt | rfl | hgt
  · obtain ⟨k, e, hk, hslot'⟩ := hpassed m hlt
    rw [hslot'] at hslot
    exact hk (Slot.filled.inj hslot).1
  · rw [hslot] at hfree
    cases hfree
  · -- The slot that was free lies on the way to the entry.
    cases hfirst : t ((start N home key + j) % N) with
    | empty => exact hpath key d' m hm hslot j hgt hfirst
    | deleted => exact h m hm d' hslot j hgt hfirst
    | filled k e =>
      rw [hfirst] at hfree
      cases hfree

namespace Distinct

omit [DecidableEq κ] in
theorem set (h : Distinct N t) {i : ℕ} {s : Slot κ α}
    (hs : ∀ key d, s = .filled key d → ∀ j < N, ∀ d', t j ≠ .filled key d') :
    Distinct N (t.set i s) := by
  intro j hj j' hj' key d d' hslot hslot'
  by_cases hij : j = i
  · by_cases hij' : j' = i
    · exact hij.trans hij'.symm
    · rw [hij, set_self] at hslot
      rw [set_of_ne hij'] at hslot'
      exact absurd hslot' (hs key d hslot j' hj' d')
  · by_cases hij' : j' = i
    · rw [set_of_ne hij] at hslot
      rw [hij', set_self] at hslot'
      exact absurd hslot (hs key d' hslot' j hj d)
    · rw [set_of_ne hij] at hslot
      rw [set_of_ne hij'] at hslot'
      exact h j hj j' hj' key d d' hslot hslot'

/-- A removal takes the only entry of its key away. -/
theorem ne_of_erase (h : Distinct N t) (hN : 0 < N) (herase : Table.erase N home t key = some t') :
    ∀ i < N, ∀ d, t' i ≠ .filled key d := by
  intro i hi d hslot
  obtain ⟨⟨j, e⟩, hfind, rfl⟩ := Option.map_eq_some_iff.1 herase
  obtain ⟨hj, hslot'⟩ := slot_of_find hN hfind
  by_cases hij : i = j
  · rw [hij, set_self] at hslot
    cases hslot
  · rw [set_of_ne hij] at hslot
    exact hij (h i hi j hj key d e hslot hslot')

end Distinct

/-! ## Tables without displaced entries -/

omit [DecidableEq κ] in
theorem AtHome.pathFull (hN : 0 < N) (hhome : AtHome N home t) : PathFull N home t := by
  intro k d j hj hentry l hl
  have hstart := hhome _ (Nat.mod_lt _ hN) k d hentry
  have hzero : (start N home k + j) % N = (start N home k + 0) % N := by
    rw [hstart, Nat.add_zero, Nat.mod_eq_of_lt (start_lt hN home k)]
  rw [position_inj hj hN hzero] at hl
  cases hl

/-- Such a table holds under a key what its home slot does. -/
theorem held_of_atHome (hN : 0 < N) (hhome : AtHome N home t) (key : κ) :
    held N t key = (t (start N home key)).under key := by
  rw [held, Finset.sum_eq_single_of_mem _ (Finset.mem_range.2 (start_lt hN home key))]
  intro i hi hne
  refine Multiset.eq_zero_of_forall_notMem fun d hd => hne ?_
  exact hhome i (Finset.mem_range.1 hi) key d (Slot.mem_under.1 hd)

/-- A key whose home slot is free is inserted there. -/
theorem insert_of_free (hN : 0 < N) (hfree : (t (start N home key)).isFilled = false) (d : α) :
    insert N home t key d =
      some (set t (start N home key) (.filled key d)) := by
  obtain ⟨n, rfl⟩ := Nat.exists_eq_succ_of_ne_zero hN.ne'
  rw [insert, insertLoop]
  cases h : t (start (n + 1) home key) with
  | empty => rfl
  | deleted => rfl
  | filled => rw [h] at hfree; cases hfree

omit [DecidableEq κ] in
theorem AtHome.update (hhome : AtHome N home t) {i : ℕ} {s : Slot κ α}
    (hs : ∀ k d, s = .filled k d → i = start N home k) :
    AtHome N home (set t i s) := by
  intro i' hi' k d hentry
  by_cases hi : i' = i
  · subst hi
    rw [set_self] at hentry
    exact hs k d hentry
  · rw [set_of_ne hi] at hentry
    exact hhome i' hi' k d hentry

/-- What holds of the data of all entries. -/
def ForAll (N : ℕ) (P : α → Prop) (t : Table κ α) : Prop :=
  ∀ i < N, ∀ key d, t i = .filled key d → P d

namespace ForAll

variable {P : α → Prop}

omit [DecidableEq κ] in
theorem update (h : ForAll N P t) (i : ℕ) {s : Slot κ α} (hs : ∀ k d, s = .filled k d → P d) :
    ForAll N P (set t i s) := by
  intro i' hi' k d hentry
  by_cases hi : i' = i
  · subst hi
    rw [set_self] at hentry
    exact hs k d hentry
  · rw [set_of_ne hi] at hentry
    exact h i' hi' k d hentry

theorem insert {d : α} (h : ForAll N P t) (hd : P d)
    (hinsert : Table.insert N home t key d = some t') : ForAll N P t' := by
  obtain ⟨i, -, rfl⟩ := Option.map_eq_some_iff.1 hinsert
  refine h.update i fun k d' hk => ?_
  rwa [← (Slot.filled.inj hk).2]

theorem erase (h : ForAll N P t) (herase : Table.erase N home t key = some t') :
    ForAll N P t' := by
  obtain ⟨entry, -, rfl⟩ := Option.map_eq_some_iff.1 herase
  exact h.update entry.1 nofun

theorem of_find (h : ForAll N P t) (hN : 0 < N) {i : ℕ} {d : α}
    (hfind : find N home t key = some (i, d)) : P d := by
  obtain ⟨hi, hslot⟩ := slot_of_find hN hfind
  exact h i hi key d hslot

end ForAll

/-! ## The data of all entries -/

/-- The data of the entries, slot by slot. -/
@[irreducible] def contents (N : ℕ) (t : Table κ α) : List α := (List.range N).filterMap fun i => (t i).data?

section Contents

omit [DecidableEq κ]

theorem mem_contents {d : α} : d ∈ contents N t ↔ ∃ i < N, ∃ key, t i = .filled key d := by
  simp only [contents, List.mem_filterMap, List.mem_range, Slot.data?_eq_some]

/-- Filling a free slot adds its data. -/
theorem contents_fill {i : ℕ} (hi : i < N) (hfree : (t i).isFilled = false) (key : κ) (d : α) :
    (contents N (set t i (.filled key d))).Perm (d :: contents N t) := by
  obtain ⟨before, after, hrange⟩ := List.append_of_mem (List.mem_range.2 hi)
  have hnodup := List.nodup_range (n := N)
  rw [hrange, List.nodup_middle, List.nodup_cons] at hnodup
  have hother : ∀ l : List ℕ, i ∉ l → (l.filterMap fun j => (set t i (.filled key d) j).data?) =
      l.filterMap fun j => (t j).data? := by
    intro l hl
    refine List.filterMap_congr fun j hj => ?_
    rw [set_of_ne (ne_of_mem_of_not_mem hj hl)]
  have hnot := not_or.1 (mt List.mem_append.2 hnodup.1)
  rw [contents, contents, hrange, List.filterMap_append, List.filterMap_append, hother _ hnot.1,
    List.filterMap_cons, List.filterMap_cons, hother _ hnot.2, set_self,
    Slot.data?_of_not_isFilled hfree]
  exact List.perm_middle

/-- Taking away an entry takes away its data. -/
theorem contents_delete {i : ℕ} (hi : i < N) {key : κ} {d : α} (hslot : t i = .filled key d) :
    (contents N t).Perm (d :: contents N (set t i .deleted)) := by
  have hback : set (set t i .deleted) i (.filled key d) = t := by
    funext j
    rcases eq_or_ne j i with rfl | hj
    · rw [set_self, hslot]
    · rw [set_of_ne hj, set_of_ne hj]
  have hfill := contents_fill hi (congrArg Slot.isFilled (set_self t i .deleted)) key d
  rwa [hback] at hfill

/-- An entry is in one slot only, where no data is there twice. -/
theorem slot_inj (hnodup : (contents N t).Nodup) {i j : ℕ} (hi : i < N) (hj : j < N)
    {k k' : κ} {d : α} (hslot : t i = .filled k d) (hslot' : t j = .filled k' d) : i = j := by
  by_contra hne
  have hperm := contents_delete hi hslot
  have hstill : d ∈ contents N (set t i .deleted) :=
    mem_contents.2 ⟨j, hj, k', by rw [set_of_ne (Ne.symm hne), hslot']⟩
  exact (List.nodup_cons.1 (hperm.nodup_iff.1 hnodup)).1 hstill

end Contents

theorem contents_insert (hN : 0 < N) {d : α} (h : insert N home t key d = some t') :
    (contents N t').Perm (d :: contents N t) := by
  obtain ⟨i, hi, rfl, hfree, -⟩ := exists_of_insert hN h
  exact contents_fill hi hfree key d

theorem contents_erase (hN : 0 < N) {i : ℕ} {d : α} (hfind : find N home t key = some (i, d))
    (h : erase N home t key = some t') : (contents N t).Perm (d :: contents N t') := by
  obtain ⟨⟨i', d'⟩, hfind', rfl⟩ := Option.map_eq_some_iff.1 h
  cases hfind.symm.trans hfind'
  obtain ⟨hi, hslot⟩ := slot_of_find hN hfind
  exact contents_delete hi hslot

end Table

end OnionRouter.Lib
