import OnionRouter.Directory.Allocation
import OnionRouter.Lib.Ring

/-!
# Handing out the relays

`get_relay_batch`: a walk around the items, from a slot on, until it copied as many
descriptors as it was asked for, or came around.

* `getRelayBatch_spec`: it copies the first relays of their cyclic order, and stops behind
  the last one.
* `enumeratesFairly_of_reachable`: calls that go on from where the last one stopped
  enumerate the relays around the ring, without end.
-/

namespace OnionRouter.Directory

open Lib RelayManager

namespace RelayManager

/-- The loop of `get_relay_batch` at the slot `i`, after `found` relays and with `rounds`
    slots to go: the objects whose descriptors are copied, and the slot where it stops;
    `none` when it reads through a pointer to no object. -/
def getRelayBatchLoop (m : RelayManager) (max : ℕ) : ℕ → ℕ → ℕ → Option (List RelayData × ℕ)
  | 0, _, i => some ([], i)
  | rounds + 1, found, i =>
    if found < max then
      let next := (i + 1) % m.itemsLength
      if (m.items i).itemExists then do
        let data ← m.relay i
        let (rest, start) ← m.getRelayBatchLoop max rounds (found + 1) next
        return (data :: rest, start)
      else m.getRelayBatchLoop max rounds found next
    else some ([], i)

/-- `get_relay_batch`; what it writes to `*start` is beside the objects. A remainder by zero
    is undefined. -/
def getRelayBatch (m : RelayManager) (start max : ℕ) : Option (List RelayData × ℕ) :=
  if m.itemsLength = 0 then none
  else m.getRelayBatchLoop max m.itemsLength 0 (start % m.itemsLength)

/-- Calls with the numbers `maxes`, each from where the one before it stopped. -/
def getRelayBatches (m : RelayManager) : ℕ → List ℕ → Option (List (List RelayData) × ℕ)
  | start, [] => some ([], start)
  | start, max :: maxes => do
    let (out, start) ← m.getRelayBatch start max
    let (outs, start) ← m.getRelayBatches start maxes
    return (out :: outs, start)

/-! ## The cyclic order -/

/-- Whether a slot has a relay. -/
def isLive (m : RelayManager) (i : ℕ) : Bool := (m.items i).itemExists

/-- The live relays in slot order from `start` on, once around. -/
def relaysFrom (m : RelayManager) (start : ℕ) : List ℕ :=
  (ring m.itemsLength start).filter m.isLive

variable {m : RelayManager}

theorem Consistent.itemsLength_pos (h : Consistent m) : 0 < m.itemsLength := by
  obtain ⟨k, -, -, hk⟩ := h.itemsLength
  rw [hk]
  exact Nat.two_pow_pos k

theorem mem_relaysFrom (h : Consistent m) (start : ℕ) {i : ℕ} :
    i ∈ m.relaysFrom start ↔ i ∈ m.liveIds := by
  rw [relaysFrom, List.mem_filter, mem_ring start h.itemsLength_pos, mem_liveIds, isLive]

theorem nodup_relaysFrom (h : Consistent m) (start : ℕ) : (m.relaysFrom start).Nodup :=
  (nodup_ring _ start h.itemsLength_pos).filter _

theorem length_relaysFrom (h : Consistent m) (start : ℕ) :
    (m.relaysFrom start).length = m.liveIds.card := by
  rw [← List.toFinset_card_of_nodup (nodup_relaysFrom h start)]
  congr 1
  ext i
  rw [List.mem_toFinset, mem_relaysFrom h]

@[simp] theorem relaysFrom_mod (start : ℕ) :
    m.relaysFrom (start % m.itemsLength) = m.relaysFrom start := by
  rw [relaysFrom, relaysFrom, ring_mod]

/-! ## One call -/

/-- The slots that a call visits. -/
def visited (m : RelayManager) (start max : ℕ) : List ℕ :=
  upTo m.isLive max (ring m.itemsLength start)

/-- The objects of live relays, with their ids. -/
structure Objects (m : RelayManager) (ids : List ℕ) (out : List RelayData) : Prop where
  relay : out.map some = ids.map m.relay
  relayId : out.map RelayData.relayId = ids

theorem Objects.mem {ids : List ℕ} {out : List RelayData} (h : Objects m ids out)
    {data : RelayData} (hdata : data ∈ out) : m.relay data.relayId = some data := by
  obtain ⟨i, hi, rfl⟩ := List.mem_iff_getElem.1 hdata
  have hrelay := congrArg (·[i]?) (h.relayId ▸ h.relay)
  simpa [hi, eq_comm] using hrelay

theorem Objects.length {ids : List ℕ} {out : List RelayData} (h : Objects m ids out) :
    out.length = ids.length := by rw [← h.relayId, List.length_map]

/-- The walk of the loop. By induction on the slots to go. -/
theorem getRelayBatchLoop_spec (h : Consistent m) (max rounds found : ℕ) {i : ℕ}
    (hi : i < m.itemsLength) :
    ∃ out, m.getRelayBatchLoop max rounds found i = some (out,
        (i + (upTo m.isLive (max - found) (arc m.itemsLength rounds i)).length) % m.itemsLength) ∧
      Objects m ((upTo m.isLive (max - found) (arc m.itemsLength rounds i)).filter m.isLive) out := by
  induction rounds generalizing found i with
  | zero =>
    refine ⟨[], ?_, ?_⟩
    · simp [getRelayBatchLoop, Nat.mod_eq_of_lt hi]
    · simp only [arc_zero, upTo_nil, List.filter_nil]
      exact ⟨rfl, rfl⟩
  | succ rounds ih =>
    by_cases hfound : found < max
    · obtain ⟨n, hn⟩ : ∃ n, max - found = n + 1 := ⟨max - found - 1, by omega⟩
      have hnext : (i + 1) % m.itemsLength < m.itemsLength := Nat.mod_lt _ h.itemsLength_pos
      have hend : ∀ k, ((i + 1) % m.itemsLength + k) % m.itemsLength = (i + (k + 1)) % m.itemsLength :=
        fun k => by rw [Nat.mod_add_mod, Nat.add_assoc, Nat.add_comm 1 k]
      rw [hn, arc_succ, Nat.mod_eq_of_lt hi, getRelayBatchLoop, if_pos hfound]
      cases hlive : m.isLive i with
      | true =>
        -- The pointer of the item leads to an object with its id.
        obtain ⟨addr, data, hitem, hdata, hid⟩ := h.relay i (mem_liveIds.2 ⟨hi, hlive⟩)
        have hrelay : m.relay i = some data := by rw [RelayManager.relay, hitem, Option.bind_some, hdata]
        obtain ⟨out, hout, hobjects⟩ := ih (found + 1) hnext
        rw [arc_mod, show max - (found + 1) = n by omega] at hout hobjects
        refine ⟨data :: out, ?_, ?_⟩
        · simp only [isLive] at hlive
          simp [hlive, hrelay, hout, upTo_of_pos _ (show m.isLive i = true from hlive), hend]
        · rw [upTo_of_pos _ hlive, List.filter_cons_of_pos hlive]
          refine ⟨?_, ?_⟩
          · rw [List.map_cons, List.map_cons, hrelay, hobjects.relay]
          · rw [List.map_cons, hid, hobjects.relayId]
      | false =>
        obtain ⟨out, hout, hobjects⟩ := ih found hnext
        rw [arc_mod, hn] at hout hobjects
        refine ⟨out, ?_, ?_⟩
        · simp only [isLive] at hlive
          simp [hlive, hout, upTo_of_neg _ (show m.isLive i = false from hlive), hend]
        · rw [upTo_of_neg _ hlive, List.filter_cons_of_neg (by simp [hlive])]
          exact hobjects
    · -- The loop stops at a slot that it has not looked at.
      refine ⟨[], ?_, ?_⟩
      · rw [getRelayBatchLoop, if_neg hfound, Nat.sub_eq_zero_of_le (Nat.le_of_not_lt hfound)]
        simp [Nat.mod_eq_of_lt hi]
      · rw [Nat.sub_eq_zero_of_le (Nat.le_of_not_lt hfound), upTo_zero]
        exact ⟨rfl, rfl⟩

/-- A call copies the first relays from `start` on, and stops behind the slots that it
    visited. -/
theorem getRelayBatch_spec (h : Consistent m) (start max : ℕ) :
    ∃ out, m.getRelayBatch start max =
        some (out, (start + (m.visited start max).length) % m.itemsLength) ∧
      Objects m ((m.relaysFrom start).take max) out := by
  have hlt : start % m.itemsLength < m.itemsLength := Nat.mod_lt _ h.itemsLength_pos
  obtain ⟨out, hout, hobjects⟩ := getRelayBatchLoop_spec h max m.itemsLength 0 hlt
  rw [Nat.sub_zero, arc_mod, Nat.mod_add_mod] at hout
  rw [Nat.sub_zero, arc_mod, filter_upTo] at hobjects
  refine ⟨out, ?_, hobjects⟩
  rw [getRelayBatch, if_neg h.itemsLength_pos.ne']
  exact hout

/-- From where a call stops, the order goes on. -/
theorem relaysFrom_visited (m : RelayManager) (start max : ℕ) :
    m.relaysFrom (start + (m.visited start max).length) =
      (m.relaysFrom start).rotate ((m.relaysFrom start).take max).length :=
  filter_ring_upTo _ _ _ _

/-! ## Calls in a row -/

/-- Rotating a list that is read around and around. -/
theorem getElem?_rotate_mod {α : Type*} (l : List α) (c j : ℕ) :
    (l.rotate c)[j % l.length]? = l[(c + j) % l.length]? := by
  rcases Nat.eq_zero_or_pos l.length with hl | hl
  · simp [List.length_eq_zero_iff.1 hl]
  · rw [List.getElem?_rotate (Nat.mod_lt j hl), Nat.mod_add_mod, Nat.add_comm j c]

/-- What the calls copy, around and around. By induction on the calls. -/
theorem getRelayBatches_spec (h : Consistent m) (start : ℕ) (maxes : List ℕ) :
    ∃ outs next, m.getRelayBatches start maxes = some (outs, next) ∧
      (outs.flatten.map fun data => some data.relayId) = (List.range outs.flatten.length).map
        fun j => (m.relaysFrom start)[j % m.liveIds.card]? := by
  induction maxes generalizing start with
  | nil => exact ⟨[], start, rfl, rfl⟩
  | cons max maxes ih =>
    obtain ⟨out, hout, hobjects⟩ := getRelayBatch_spec h start max
    obtain ⟨outs, next, houts, hrest⟩ := ih ((start + (m.visited start max).length) % m.itemsLength)
    refine ⟨out :: outs, next, ?_, ?_⟩
    · simp [getRelayBatches, hout, houts]
    · have hlength := hobjects.length
      rw [relaysFrom_mod, relaysFrom_visited, ← hlength, ← length_relaysFrom h start] at hrest
      rw [List.flatten_cons, List.map_append, List.length_append, List.range_add, List.map_append,
        hrest, List.map_map, ← length_relaysFrom h start]
      refine congrArg₂ _ ?_ (List.map_congr_left fun j _ => getElem?_rotate_mod _ _ _)
      -- The first call does not come around.
      refine List.ext_getElem? fun j => ?_
      have hmap : out.map (fun data => some data.relayId) =
          ((m.relaysFrom start).take max).map some := by
        rw [← hobjects.relayId, List.map_map]
        rfl
      rw [hmap, List.getElem?_map, List.getElem?_map]
      rcases Nat.lt_or_ge j out.length with hj | hj
      · have hj' : j < ((m.relaysFrom start).take max).length := hlength ▸ hj
        rw [List.length_take] at hj'
        rw [List.getElem?_range hj, List.getElem?_take_of_lt (by omega), Option.map_some,
          Nat.mod_eq_of_lt (by omega), List.getElem?_eq_getElem (by omega)]
        rfl
      · rw [List.getElem?_eq_none (by rwa [← hlength]), List.getElem?_eq_none (by simpa using hj)]
        rfl

end RelayManager

/-- The calls of `get_relay_batch` from `start` on enumerate the live relays. -/
structure EnumeratesFairly (m : RelayManager) (start : ℕ) : Prop where
  /-- The cyclic order has every live relay once. -/
  mem_relaysFrom : ∀ i, i ∈ m.relaysFrom start ↔ i ∈ m.liveIds
  nodup : (m.relaysFrom start).Nodup
  batch : ∀ max, ∃ out next, m.getRelayBatch start max = some (out, next) ∧
    out.length = min max m.liveIds.card ∧
    out.map RelayData.relayId = (m.relaysFrom start).take max ∧
    ∀ data ∈ out, m.relay data.relayId = some data
  /-- What all calls copy is the order, repeated without end, up to somewhere. -/
  chain : ∀ maxes, ∃ outs next, m.getRelayBatches start maxes = some (outs, next) ∧
    (outs.flatten.map fun data => some data.relayId) = (List.range outs.flatten.length).map
      fun j => (m.relaysFrom start)[j % m.liveIds.card]?

/-- In every directory, `get_relay_batch` hands out the relays one after the other, around
    the items. -/
theorem enumeratesFairly_of_reachable {s : RelayRun}
    (hs : relayMachine.Reachable Machine.anyStep s) (start : ℕ) :
    EnumeratesFairly s.manager start := by
  have h := (relayInvariant_of_reachable hs).consistent
  refine ⟨fun i => mem_relaysFrom h start, nodup_relaysFrom h start, fun max => ?_,
    getRelayBatches_spec h start⟩
  obtain ⟨out, hout, hobjects⟩ := getRelayBatch_spec h start max
  refine ⟨out, _, hout, ?_, hobjects.relayId, fun data => hobjects.mem⟩
  rw [hobjects.length, List.length_take, length_relaysFrom h]

/-- Three relays, of which the second one signed out, from a start behind the items. -/
theorem enumeratesFairly_hole : ∃ s : RelayRun,
    EnumeratesFairly s.manager 5 ∧ s.manager.relaysFrom 5 = [2, 0] := by
  have hrun : (Machine.run (Machine.checked Machine.anyStep RelayRun.step)
      ⟨initRelayManager fun _ => 0, 0⟩ [.gen 10, .gen 11, .gen 12, .remove 1]).any
      (fun s => s.manager.relaysFrom 5 = [2, 0]) = true := by
    decide +kernel
  have hinit : ⟨initRelayManager fun _ => 0, 0⟩ ∈ relayMachine.init := ⟨_, rfl⟩
  obtain ⟨s, hs, hrest⟩ := Machine.exists_of_run hinit hrun
  exact ⟨s, enumeratesFairly_of_reachable hs 5, of_decide_eq_true hrest⟩

end OnionRouter.Directory
