import OnionRouter.Lib.Transition
import OnionRouter.Streams.Hashmap

/-!
# Runs of the stream tables

All sequences of `socket_hashmap_insert`, `socket_hashmap_find` and
`socket_hashmap_remove` on a table from `socket_hashmap_init`, with what the last
insertion or removal of every id that succeeded has left (`last`).

Lookups are right in every run (`lookups_of_reachable`). An id may be there twice: when
the entries of two ids share a home slot and the first one is removed, an insertion of
the second one again stops at the tombstone, before it comes to the entry that is there
already. In runs without such insertions ids are unique (`uniqueIds_of_reachable`).
-/

namespace OnionRouter.Streams

open Lib

variable {α : Type*}

/-- A call on a table. -/
inductive TableCall (α : Type*)
  | insert (streamId : UInt16) (data : α)
  | find (streamId : UInt16)
  | remove (streamId : UInt16)

/-- A table after some calls. -/
structure TableRun (α : Type*) where
  map : Table UInt16 α
  /-- The data of the last insertion of an id that succeeded, unless its last removal
      that succeeded came after it. -/
  last : UInt16 → Option α

/-- A call, which changes nothing if it fails. -/
def TableRun.step (s : TableRun α) : TableCall α → Option (TableRun α)
  | .insert streamId data =>
    match socketHashmapInsert s.map streamId data with
    | none => some s
    | some map => some ⟨map, Function.update s.last streamId (some data)⟩
  | .find _ => some s
  | .remove streamId =>
    match socketHashmapFind s.map streamId with
    | none => some s
    | some _ => some ⟨socketHashmapRemove s.map streamId, Function.update s.last streamId none⟩

/-- The table from `socket_hashmap_init`. -/
def TableRun.start : TableRun α := ⟨socketHashmapInit, fun _ => none⟩

/-- The runs of a table. -/
def tableMachine (α : Type*) : Machine (TableRun α) (TableCall α) :=
  .ofFun {.start} TableRun.step

variable {s s' : TableRun α}

/-- What a call does: nothing, an insertion, or a removal. -/
theorem TableRun.step_cases {call : TableCall α} (h : s.step call = some s') :
    s' = s ∨
    (∃ streamId data map, call = .insert streamId data ∧
      socketHashmapInsert s.map streamId data = some map ∧
      s' = ⟨map, Function.update s.last streamId (some data)⟩) ∨
    ∃ streamId map, call = .remove streamId ∧ s.map.erase hashmapAmount home streamId = some map ∧
      s' = ⟨map, Function.update s.last streamId none⟩ := by
  cases call with
  | insert streamId data =>
    rw [TableRun.step] at h
    cases hinsert : socketHashmapInsert s.map streamId data with
    | none =>
      rw [hinsert] at h
      exact .inl (Option.some_inj.1 h).symm
    | some map =>
      rw [hinsert] at h
      exact .inr (.inl ⟨streamId, data, map, rfl, hinsert, (Option.some_inj.1 h).symm⟩)
  | find streamId => exact .inl (Option.some_inj.1 h).symm
  | remove streamId =>
    rw [TableRun.step] at h
    cases hfind : socketHashmapFind s.map streamId with
    | none =>
      rw [hfind] at h
      exact .inl (Option.some_inj.1 h).symm
    | some entry =>
      rw [hfind] at h
      have herase : s.map.erase hashmapAmount home streamId = some (s.map.set entry.1 .deleted) :=
        congrArg (Option.map _) hfind
      refine .inr (.inr ⟨streamId, _, rfl, herase, ?_⟩)
      rw [← Option.some_inj.1 h, socketHashmapRemove, herase, Option.getD_some]

/-! ## Lookups -/

/-- Lookups miss nothing: no slot on the way to an entry is `EMPTY`, the last entry of
    an id that was inserted is found, and an id without an entry can be inserted unless
    all slots are `FILLED`. -/
structure Lookups (s : TableRun α) : Prop where
  path : ∀ streamId data, ∀ j < hashmapAmount,
    s.map ((streamId.toNat % hashmapAmount + j) % hashmapAmount) = .filled streamId data →
    ∀ l < j, s.map ((streamId.toNat % hashmapAmount + l) % hashmapAmount) ≠ .empty
  found : ∀ streamId data, s.last streamId = some data →
    ∃ i, socketHashmapFind s.map streamId = some (i, data)
  full : ∀ streamId data, (∀ i < hashmapAmount, ∀ d, s.map i ≠ .filled streamId d) →
    socketHashmapInsert s.map streamId data = none → ∀ i < hashmapAmount, (s.map i).isFilled

/-- The entry of an id that was inserted last comes first on its way. -/
structure LookupInvariant (s : TableRun α) : Prop where
  sound : Sound s.map
  first : ∀ streamId data, s.last streamId = some data →
    Table.First hashmapAmount home s.map streamId data

theorem LookupInvariant.start : LookupInvariant (TableRun.start : TableRun α) where
  sound := sound_socketHashmapInit
  first _ _ h := by cases h

theorem LookupInvariant.step {call : TableCall α} (hinv : LookupInvariant s)
    (h : s.step call = some s') : LookupInvariant s' := by
  rcases TableRun.step_cases h with rfl | ⟨id, data, map, rfl, hinsert, rfl⟩ |
    ⟨id, map, rfl, herase, rfl⟩
  · exact hinv
  · refine ⟨sound_insert hinv.sound hinsert, fun id' data' hlast => ?_⟩
    dsimp only at hlast
    by_cases hid : id' = id
    · subst hid
      rw [Function.update_self] at hlast
      obtain rfl := Option.some_inj.1 hlast
      exact Table.First.of_insert hashmapAmount_pos hinsert
    · rw [Function.update_of_ne hid] at hlast
      obtain ⟨i, -, rfl, hfree, -⟩ := Table.exists_of_insert hashmapAmount_pos hinsert
      -- The slot that is filled was free, so it was not the entry of the other id.
      refine (hinv.first id' data' hlast).set (fun d hslot => ?_) fun d hslot => ?_
      · rw [hslot] at hfree
        cases hfree
      · exact hid (Slot.filled.inj hslot).1.symm
  · refine ⟨Table.PathFull.erase hinv.sound herase, fun id' data' hlast => ?_⟩
    dsimp only at hlast
    by_cases hid : id' = id
    · subst hid
      rw [Function.update_self] at hlast
      cases hlast
    · rw [Function.update_of_ne hid] at hlast
      obtain ⟨entry, hfind, rfl⟩ := Option.map_eq_some_iff.1 herase
      obtain ⟨-, hslot⟩ := Table.slot_of_find hashmapAmount_pos hfind
      refine (hinv.first id' data' hlast).set (fun d hslot' => ?_) nofun
      exact hid (Slot.filled.inj (hslot'.symm.trans hslot)).1

/-- Lookups are right in every run. -/
theorem lookups_of_reachable (hs : (tableMachine α).Reachable Machine.anyStep s) : Lookups s := by
  have hinv : LookupInvariant s := by
    refine hs.invariant ?_ fun _ _ _ hinv _ h => hinv.step h
    rintro _ rfl
    exact .start
  refine ⟨hinv.sound, fun id data hlast => ?_, fun id data hnone hinsert => ?_⟩
  · exact (hinv.first id data hlast).find hashmapAmount_pos hinv.sound
  · rcases Table.insert_eq_none hashmapAmount_pos hinsert with ⟨i, hi, d, hslot⟩ | hfull
    · exact absurd hslot (hnone i hi d)
    · exact hfull

theorem lookups_collision :
    ∃ s : TableRun ℕ, Lookups s ∧ s.last 2048 = some 7 := by
  have hrun : (Machine.run (Machine.checked Machine.anyStep TableRun.step)
      (TableRun.start : TableRun ℕ) [.insert 0 5, .insert 2048 6, .remove 0, .insert 2048 7]).any
      (·.last 2048 = some 7) = true := by
    decide +kernel
  obtain ⟨s, hs, hlast⟩ := Machine.exists_of_run (Set.mem_singleton _) hrun
  exact ⟨s, lookups_of_reachable hs, of_decide_eq_true hlast⟩

/-! ## Unique ids -/

/-- An id is inserted only when no `DELETED` slot lies on the way to an entry of it. -/
def KeepsUnique : Machine.Guard (TableRun α) (TableCall α)
  | s, .insert streamId _ => Table.NoneDeletedBefore hashmapAmount home s.map streamId
  | _, _ => True

/-- Ids are unique: at most one slot holds an id, an id that is there is not inserted
    again, and an id that was removed is not found. -/
structure UniqueIds (s : TableRun α) : Prop where
  distinct : ∀ i < hashmapAmount, ∀ j < hashmapAmount, ∀ streamId data data',
    s.map i = .filled streamId data → s.map j = .filled streamId data' → i = j
  insert : ∀ streamId data, (∃ i < hashmapAmount, ∃ d, s.map i = .filled streamId d) →
    KeepsUnique s (.insert streamId data) → socketHashmapInsert s.map streamId data = none
  removed : ∀ streamId, s.last streamId = none → socketHashmapFind s.map streamId = none

structure UniqueInvariant (s : TableRun α) : Prop where
  sound : Sound s.map
  distinct : Table.Distinct hashmapAmount s.map
  removed : ∀ streamId, s.last streamId = none →
    ∀ i < hashmapAmount, ∀ d, s.map i ≠ .filled streamId d

theorem UniqueInvariant.start : UniqueInvariant (TableRun.start : TableRun α) where
  sound := sound_socketHashmapInit
  distinct _ _ _ _ _ _ _ h := by cases h
  removed _ _ _ _ _ h := by cases h

theorem UniqueInvariant.step {call : TableCall α} (hinv : UniqueInvariant s)
    (hguard : KeepsUnique s call) (h : s.step call = some s') : UniqueInvariant s' := by
  rcases TableRun.step_cases h with rfl | ⟨id, data, map, rfl, hinsert, rfl⟩ |
    ⟨id, map, rfl, herase, rfl⟩
  · exact hinv
  -- An insertion: the guard says that no slot behind the tombstone has the id.
  · have hnone := hguard.ne_of_insert hashmapAmount_pos hinv.sound hinsert
    refine ⟨sound_insert hinv.sound hinsert, ?_, fun id' hlast i hi d => ?_⟩
    · obtain ⟨i, -, rfl, -⟩ := Table.exists_of_insert hashmapAmount_pos hinsert
      refine hinv.distinct.set fun key d hkey => ?_
      rw [← (Slot.filled.inj hkey).1]
      exact hnone
    · dsimp only at hlast
      by_cases hid : id' = id
      · subst hid
        rw [Function.update_self] at hlast
        cases hlast
      · rw [Function.update_of_ne hid] at hlast
        obtain ⟨i', -, rfl, -⟩ := Table.exists_of_insert hashmapAmount_pos hinsert
        refine Table.set_ne (fun hslot => ?_) (hinv.removed id' hlast i hi d)
        exact hid (Slot.filled.inj hslot).1.symm
  · refine ⟨Table.PathFull.erase hinv.sound herase, ?_, fun id' hlast i hi d => ?_⟩
    · obtain ⟨entry, -, rfl⟩ := Option.map_eq_some_iff.1 herase
      exact hinv.distinct.set nofun
    · dsimp only at hlast
      by_cases hid : id' = id
      · subst hid
        exact hinv.distinct.ne_of_erase hashmapAmount_pos herase i hi d
      · rw [Function.update_of_ne hid] at hlast
        obtain ⟨entry, -, rfl⟩ := Option.map_eq_some_iff.1 herase
        exact Table.set_ne nofun (hinv.removed id' hlast i hi d)

/-- Ids are unique in every run that inserts no id across a tombstone. -/
theorem uniqueIds_of_reachable (hs : (tableMachine α).Reachable KeepsUnique s) : UniqueIds s := by
  have hinv : UniqueInvariant s := by
    refine hs.invariant ?_ fun _ _ _ hinv hguard h => hinv.step hguard h
    rintro _ rfl
    exact .start
  refine ⟨hinv.distinct, fun id data hpresent hguard => ?_, fun id hlast => ?_⟩
  · obtain ⟨i, hi, d, hslot⟩ := hpresent
    cases hinsert : socketHashmapInsert s.map id data with
    | none => rfl
    | some map =>
      exact absurd hslot (hguard.ne_of_insert hashmapAmount_pos hinv.sound hinsert i hi d)
  · rw [find_eq_none_iff hinv.sound]
    exact Table.held_of_forall_ne (hinv.removed id hlast)

/-- The entry of 2048 is behind the tombstone of 0, which has the same home slot. -/
theorem uniqueIds_removed :
    ∃ s : TableRun ℕ, UniqueIds s ∧ s.map 0 = .deleted ∧ s.map 1 = .filled 2048 6 := by
  have hstart : (tableMachine ℕ).Reachable KeepsUnique .start := .init (Set.mem_singleton _)
  have hinsert : (tableMachine ℕ).Reachable KeepsUnique
      ⟨socketHashmapInit.set 0 (.filled 0 5), Function.update (fun _ => none) 0 (some 5)⟩ := by
    refine hstart.step (a := .insert 0 5) (fun j _ d hslot => ?_) rfl
    cases hslot
  have hcollide : KeepsUnique
      ⟨socketHashmapInit.set 0 (.filled 0 5), Function.update (fun _ => none) 0 (some 5)⟩
      (.insert 2048 6) := by
    intro j _ d hslot
    simp only [Table.set] at hslot
    split at hslot <;> cases hslot
  have hinserted := hinsert.step hcollide rfl
  have hremove := hinserted.step (show KeepsUnique _ (.remove 0) from trivial) rfl
  exact ⟨_, uniqueIds_of_reachable hremove, rfl, rfl⟩

/-- The entries of 0 and 2048 share a home slot. When 0 is removed, 2048 is inserted a
    second time. -/
theorem not_uniqueIds_collision :
    ∃ s : TableRun ℕ, (tableMachine ℕ).Reachable Machine.anyStep s ∧ ¬ UniqueIds s := by
  have hrun : (Machine.run (Machine.checked Machine.anyStep TableRun.step)
      (TableRun.start : TableRun ℕ) [.insert 0 5, .insert 2048 6, .remove 0, .insert 2048 7]).any
      (fun s => s.map 0 = .filled 2048 7 ∧ s.map 1 = .filled 2048 6) = true := by
    decide +kernel
  obtain ⟨s, hs, hslots⟩ := Machine.exists_of_run (Set.mem_singleton _) hrun
  obtain ⟨hslot, hslot'⟩ := of_decide_eq_true hslots
  refine ⟨s, hs, fun hunique => ?_⟩
  cases hunique.distinct 0 (by decide) 1 (by decide) 2048 7 6 hslot hslot'

end OnionRouter.Streams
