import OnionRouter.Directory.RelayManager

/-!
# The ids of the directory

The runs of the relay manager: calls of `gen_relay`, `get_relay` and `remove_relay`, in
any order, and writes to the descriptors in between. The number of relays that were live
at once so far is recorded beside the manager; it is what `max_item_index` counts
(`allocates_of_reachable`).
-/

namespace OnionRouter.Directory

open Lib Memory RelayManager

/-- The relay manager, and the largest number of relays that were live at once. -/
structure RelayRun where
  manager : RelayManager
  mostLive : ℕ

/-- A call of the relay manager; `calloc` gives the new object the address `addr`. -/
inductive RelayCall
  | gen (addr : ℕ)
  | get (id : ℕ)
  | remove (id : ℕ)
  | describe (addr : ℕ) (descriptor : RelayDescriptor)

/-- The manager after a call. -/
def RelayRun.update (s : RelayRun) (m : RelayManager) : RelayRun :=
  ⟨m, max s.mostLive m.liveIds.card⟩

/-- A call, if it returns. -/
def RelayRun.step (s : RelayRun) : RelayCall → Option RelayRun
  | .gen addr => (s.manager.genRelay addr).map s.update
  | .get _ => some s
  | .remove id => some (s.update (s.manager.removeRelay id).2)
  | .describe addr descriptor => some (s.update (s.manager.describe addr descriptor))

/-- The runs of the relay manager from `init_relay_manager`. -/
def relayMachine : Machine RelayRun RelayCall :=
  .ofFun {s | ∃ stack, s = ⟨initRelayManager stack, 0⟩} RelayRun.step

/-- Less than `2 ^ 31` relays are live at once, and `remove_relay` is given ids of the
    array. -/
def Bounded : Machine.Guard RelayRun RelayCall
  | s, .gen _ => s.manager.liveIds.card + 1 < 2 ^ 31
  | _, .get _ => True
  | s, .remove id => id < s.manager.itemsLength
  | _, .describe _ _ => True

instance : ∀ s call, Decidable (Bounded s call)
  | _, .gen _ => inferInstanceAs (Decidable (_ < _))
  | _, .get _ => .isTrue trivial
  | _, .remove _ => inferInstanceAs (Decidable (_ < _))
  | _, .describe _ _ => .isTrue trivial

/-- The ids are allocated as they should be. -/
structure Allocates (s : RelayRun) : Prop where
  nodup : s.manager.freeIds.Nodup
  disjoint : Disjoint s.manager.freeIds.toFinset s.manager.liveIds
  union : s.manager.freeIds.toFinset ∪ s.manager.liveIds = Finset.range s.manager.maxItemIndex
  relayId : ∀ i ∈ s.manager.liveIds, ∃ d, s.manager.relay i = some d ∧ d.relayId = i
  /-- `gen_relay` returns an object with an id that was not live. -/
  gen : ∀ addr, s.manager.heap addr = none → Bounded s (.gen addr) →
    ∃ m d, s.manager.genRelay addr = some m ∧ m.heap addr = some d ∧
      d.relayId ∉ s.manager.liveIds ∧ m.liveIds = insert d.relayId s.manager.liveIds ∧
      m.relay d.relayId = some d ∧ ∀ i ∈ s.manager.liveIds, m.relay i = s.manager.relay i
  get : ∀ id, (s.manager.getRelay id).bind s.manager.heap =
    if id ∈ s.manager.liveIds then s.manager.relay id else none
  remove : ∀ id, Bounded s (.remove id) →
    ((s.manager.removeRelay id).1 = true ↔ id ∈ s.manager.liveIds) ∧
      (s.manager.removeRelay id).2.liveIds = s.manager.liveIds.erase id ∧
      ∀ i ∈ s.manager.liveIds.erase id,
        (s.manager.removeRelay id).2.relay i = s.manager.relay i
  maxItemIndex : s.manager.maxItemIndex = s.mostLive

/-- What the calls keep. -/
structure RelayInvariant (s : RelayRun) : Prop where
  consistent : Consistent s.manager
  maxItemIndex : s.manager.maxItemIndex = s.mostLive

section Consistent

variable {m : RelayManager} (h : Consistent m)

include h

theorem relayId_of_consistent {i : ℕ} (hi : i ∈ m.liveIds) :
    ∃ d, m.relay i = some d ∧ d.relayId = i := by
  obtain ⟨addr, d, hdata, hd, hid⟩ := h.relay i hi
  refine ⟨d, ?_, hid⟩
  rw [relay, hdata]
  exact hd

theorem gen_of_consistent {addr : ℕ} (hfresh : m.heap addr = none)
    (hcard : m.liveIds.card + 1 < 2 ^ 31) :
    ∃ m' d, m.genRelay addr = some m' ∧ m'.heap addr = some d ∧ d.relayId ∉ m.liveIds ∧
      m'.liveIds = insert d.relayId m.liveIds ∧ m'.relay d.relayId = some d ∧
      ∀ i ∈ m.liveIds, m'.relay i = m.relay i := by
  obtain ⟨m', hgen⟩ := Option.isSome_iff_exists.1 (genRelay_isSome h hfresh hcard)
  obtain ⟨-, id, hgenerated⟩ := genRelay_spec h hgen
  refine ⟨m', _, hgen, hgenerated.new, hgenerated.notMem, hgenerated.liveIds, ?_,
    fun i hi => hgenerated.relay h hi⟩
  rw [relay, hgenerated.data]
  exact hgenerated.new

theorem remove_of_consistent (id : ℕ) :
    ((m.removeRelay id).1 = true ↔ id ∈ m.liveIds) ∧
      (m.removeRelay id).2.liveIds = m.liveIds.erase id ∧
      ∀ i ∈ m.liveIds.erase id, (m.removeRelay id).2.relay i = m.relay i := by
  by_cases hid : id ∈ m.liveIds
  · obtain ⟨addr, hremoved⟩ := removed_removeRelay h hid
    refine ⟨iff_of_true (removeRelay_fst hid) hid, hremoved.liveIds, fun i hi => ?_⟩
    obtain ⟨hne, hi⟩ := Finset.mem_erase.1 hi
    exact hremoved.relay h hi hne
  · rw [removeRelay_of_notMem hid, Finset.erase_eq_of_notMem hid]
    exact ⟨iff_of_false Bool.false_ne_true hid, rfl, fun _ _ => rfl⟩

/-- As many ids were given out as relays are live, or more. -/
theorem card_le_of_consistent : m.liveIds.card ≤ m.maxItemIndex :=
  Nat.le.intro h.card_liveIds_add

end Consistent

/-- `get_relay` gives the object of a live entry, and `NULL` for other ids. -/
theorem getRelay_eq (m : RelayManager) (id : ℕ) :
    m.getRelay id = if id ∈ m.liveIds then (m.items id).data else none := by
  rw [getRelay]
  exact if_congr mem_liveIds.symm rfl rfl

theorem RelayInvariant.allocates {s : RelayRun} (hinv : RelayInvariant s) : Allocates s where
  nodup := hinv.consistent.nodup
  disjoint := hinv.consistent.liveIds_disjUnion_freeIds.1
  union := hinv.consistent.liveIds_disjUnion_freeIds.2
  relayId _ hi := relayId_of_consistent hinv.consistent hi
  gen _ hfresh hcard := gen_of_consistent hinv.consistent hfresh hcard
  get id := by
    rw [getRelay_eq]
    split_ifs
    · rfl
    · rfl
  remove id _ := remove_of_consistent hinv.consistent id
  maxItemIndex := hinv.maxItemIndex

/-- A call that gives out no new id leaves the record where it is. -/
theorem RelayInvariant.update {s : RelayRun} {m : RelayManager} (hinv : RelayInvariant s)
    (hm : Consistent m) (hmax : m.maxItemIndex = max s.manager.maxItemIndex m.liveIds.card) :
    RelayInvariant (s.update m) :=
  ⟨hm, hmax.trans (congrArg (max · m.liveIds.card) hinv.maxItemIndex)⟩

theorem RelayInvariant.step {s s' : RelayRun} {call : RelayCall} (hinv : RelayInvariant s)
    (h : s.step call = some s') : RelayInvariant s' := by
  have hcard := card_le_of_consistent hinv.consistent
  cases call with
  | gen addr =>
    obtain ⟨m, hgen, rfl⟩ := Option.map_eq_some_iff.1 h
    obtain ⟨hm, id, hgenerated⟩ := genRelay_spec hinv.consistent hgen
    exact hinv.update hm hgenerated.max
  | get id => exact Option.some_inj.1 h ▸ hinv
  | remove id =>
    obtain rfl := Option.some_inj.1 h
    refine hinv.update (hinv.consistent.removeRelay id) ?_
    have hle : (s.manager.removeRelay id).2.liveIds.card ≤ s.manager.maxItemIndex := by
      rw [(remove_of_consistent hinv.consistent id).2.1]
      exact (Finset.card_erase_le).trans hcard
    rw [Nat.max_eq_left hle]
    by_cases hid : id ∈ s.manager.liveIds
    · exact removeRelay_maxItemIndex hid
    · rw [removeRelay_of_notMem hid]
  | describe addr descriptor =>
    obtain rfl := Option.some_inj.1 h
    exact hinv.update (hinv.consistent.describe addr descriptor) (Nat.max_eq_left hcard).symm

/-- The runs keep the invariant, however many relays there are. -/
theorem relayInvariant_of_reachable {G : Machine.Guard RelayRun RelayCall} {s : RelayRun}
    (hs : relayMachine.Reachable G s) : RelayInvariant s := by
  refine hs.invariant ?_ ?_
  · rintro _ ⟨stack, rfl⟩
    exact ⟨Consistent.initRelayManager stack, rfl⟩
  · intro s call s' hinv _ h
    exact hinv.step h

/-- In every run of the relay manager, the ids are allocated as they should be. -/
theorem allocates_of_reachable {s : RelayRun} (hs : relayMachine.Reachable Bounded s) :
    Allocates s :=
  (relayInvariant_of_reachable hs).allocates

/-- The id of a relay that was removed is given to the next one. -/
theorem allocates_recycled :
    ∃ s : RelayRun, Allocates s ∧ s.mostLive = 3 ∧ s.manager.liveIds = {0, 1, 2} := by
  have hrun : (Machine.run (Machine.checked Bounded RelayRun.step)
      ⟨initRelayManager fun _ => 0, 0⟩
      [.gen 10, .gen 11, .gen 12, .remove 0, .get 0, .gen 13]).any
      (fun s => s.mostLive = 3 ∧ s.manager.liveIds = {0, 1, 2}) = true := by
    decide +kernel
  have hinit : ⟨initRelayManager fun _ => 0, 0⟩ ∈ relayMachine.init := ⟨_, rfl⟩
  obtain ⟨s, hs, hrest⟩ := Machine.exists_of_run hinit hrun
  exact ⟨s, allocates_of_reachable hs, of_decide_eq_true hrest⟩

end OnionRouter.Directory
