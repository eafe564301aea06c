import OnionRouter.Directory.Batch
import OnionRouter.Protocol.Cell

/-!
# Paging through the directory

`client_handler.c`: a session of `process_client` answers GET_RELAY_MAP with relays from
its cursor `relay_start` on. `get_relay_batch` moves the cursor behind the last relay, and
`handle_get_relay_map` moves it on again, by as many slots as it got relays.

The live relays are numbered in slot order, around and around. A request hands out some
in a row, and the next one begins after those that the cursor passed over.

* `relaysFrom_handleGetRelayMap`: from where the next request goes on.
* `covered_iff`: which directories are handed out completely.
-/

namespace OnionRouter.Directory

open Lib Net Protocol RelayManager

/-- The constant `SERVER_RELAYS_MAP_AMOUNT`. -/
def serverRelaysMapAmount : ℕ := (serverMsgSize - 2 * 2) / (sockAddrSize + asymmetricKeyBytes)

/-- `handle_get_relay_map`, given `relay_start`: the relays of the response, and
    `relay_start` after it. -/
def handleGetRelayMap (m : RelayManager) (relayStart : ℕ) : Option (List RelayData × ℕ) := do
  let (relays, relayStart) ← m.getRelayBatch relayStart serverRelaysMapAmount
  -- `relay_amount` has 16 bits, `relay_start` 32.
  return (relays, (relayStart + relays.length % 2 ^ 16) % 2 ^ 32)

/-- The responses of `process_client` to a number of requests, from `relay_start` on. -/
def getRelayMaps (m : RelayManager) : ℕ → ℕ → Option (List (List RelayData))
  | 0, _ => some []
  | requests + 1, relayStart => do
    let (relays, relayStart) ← handleGetRelayMap m relayStart
    let rest ← getRelayMaps m requests relayStart
    return relays :: rest

/-- How many requests it takes to hand out the directory. -/
def requestsNeeded (m : RelayManager) : ℕ :=
  (m.liveIds.card + (serverRelaysMapAmount - 1)) / serverRelaysMapAmount

/-- After the first requests of a session, every live relay was in a response. -/
def Covered (m : RelayManager) : Prop :=
  ∃ responses, getRelayMaps m (requestsNeeded m) 0 = some responses ∧
    ∀ i ∈ m.liveIds, ∃ response ∈ responses, i ∈ response.map RelayData.relayId

/-! ## The numbers of the relays -/

/-- The slot of a relay, by its number. -/
def slotOf (m : RelayManager) (n : ℕ) : ℕ := ((m.relaysFrom 0)[n % m.liveIds.card]?).getD 0

/-- How many relays have one of the next `SERVER_RELAYS_MAP_AMOUNT` slots behind a relay. -/
def passedOver (m : RelayManager) (n : ℕ) : ℕ :=
  ((arc m.itemsLength serverRelaysMapAmount (slotOf m n + 1)).filter m.isLive).length

/-- The number that a request begins with, after one that began with `n`. -/
def nextFirst (m : RelayManager) (n : ℕ) : ℕ :=
  n + serverRelaysMapAmount + passedOver m (n + serverRelaysMapAmount - 1)

/-- The number that the request `k` begins with. -/
def firstOf (m : RelayManager) (k : ℕ) : ℕ := (nextFirst m)^[k] 0

/-- The blocks of numbers that the requests hand out make up all numbers. -/
def BlocksCover (m : RelayManager) : Prop :=
  ∀ n < m.liveIds.card, ∃ k < requestsNeeded m, ∃ j < serverRelaysMapAmount,
    n = (firstOf m k + j) % m.liveIds.card

/-! ## One request -/

variable {m : RelayManager}

theorem liveIds_card_le (m : RelayManager) : m.liveIds.card ≤ m.itemsLength := by
  refine (Finset.card_filter_le _ _).trans ?_
  rw [Finset.card_range]

theorem lt_requestsNeeded {k : ℕ} :
    k < requestsNeeded m ↔ k * serverRelaysMapAmount < m.liveIds.card := by
  have hM : serverRelaysMapAmount = 14 := rfl
  rw [requestsNeeded, hM]
  omega

/-- The visited slots are an arc. -/
theorem visited_eq_arc (m : RelayManager) (start max : ℕ) :
    m.visited start max = arc m.itemsLength (m.visited start max).length start := by
  have hle : (m.visited start max).length ≤ m.itemsLength := by
    have h := length_upTo_le m.isLive max (ring m.itemsLength start)
    rwa [length_ring] at h
  conv_lhs => rw [visited, ← take_length_upTo]
  exact take_ring _ _ hle

/-- A request to a directory with more relays than fit in a response stops behind the last
    relay that it hands out. -/
theorem slotOf_last (h : Consistent m) (hcard : serverRelaysMapAmount < m.liveIds.card)
    {start n : ℕ} (hstart : m.relaysFrom start = (m.relaysFrom 0).rotate n) :
    (slotOf m (n + serverRelaysMapAmount - 1) + 1) % m.itemsLength =
      (start + (m.visited start serverRelaysMapAmount).length) % m.itemsLength := by
  have hpos : serverRelaysMapAmount ≠ 0 := by decide
  have hlength := length_relaysFrom h start
  have hlast := getLast?_upTo m.isLive hpos
    (show _ ≤ (m.relaysFrom start).length by rw [hlength]; exact hcard.le)
  have hzero := length_relaysFrom h 0
  -- The last relay that is handed out, by its number.
  have hnumber : ((m.relaysFrom start).take serverRelaysMapAmount).getLast? =
      some (slotOf m (n + serverRelaysMapAmount - 1)) := by
    rw [List.getLast?_eq_getElem?, List.length_take, hlength, Nat.min_eq_left hcard.le,
      List.getElem?_take_of_lt (by omega), hstart, List.getElem?_rotate (by omega), slotOf, hzero,
      show serverRelaysMapAmount - 1 + n = n + serverRelaysMapAmount - 1 by omega,
      List.getElem?_eq_getElem (by rw [hzero]; exact Nat.mod_lt _ (by omega))]
    rfl
  -- And by where the walk ends.
  have hvisited : (m.visited start serverRelaysMapAmount).length ≠ 0 := by
    intro hnil
    have hempty := List.length_eq_zero_iff.1 hnil
    rw [visited] at hempty
    rw [hempty] at hlast
    cases hlast.trans hnumber
  obtain ⟨v, hv⟩ := Nat.exists_eq_succ_of_ne_zero hvisited
  have hend : (m.visited start serverRelaysMapAmount).getLast? =
      some ((start + v) % m.itemsLength) := by
    rw [visited_eq_arc, hv]
    exact getLast?_arc_succ _ _ _
  have hslot := Option.some.inj (hend.symm.trans (hlast.trans hnumber))
  rw [← hslot, Nat.mod_add_mod, hv]
  rfl

/-- From where the next request goes on. -/
theorem relaysFrom_handleGetRelayMap (h : Consistent m)
    (hcard : serverRelaysMapAmount < m.liveIds.card) {start n : ℕ}
    (hstart : m.relaysFrom start = (m.relaysFrom 0).rotate n) :
    ∃ out next, handleGetRelayMap m start = some (out, next) ∧
      Objects m (((m.relaysFrom 0).rotate n).take serverRelaysMapAmount) out ∧
      m.relaysFrom next = (m.relaysFrom 0).rotate (nextFirst m n) := by
  obtain ⟨out, hout, hobjects⟩ := getRelayBatch_spec h start serverRelaysMapAmount
  have hle := hcard.le.trans (liveIds_card_le m)
  have hlength : out.length = serverRelaysMapAmount := by
    rw [hobjects.length, List.length_take, length_relaysFrom h, Nat.min_eq_left hcard.le]
  have hlt := Nat.mod_lt (start + (m.visited start serverRelaysMapAmount).length) h.itemsLength_pos
  have hmax := h.itemsLength_le
  have hsmall : serverRelaysMapAmount < 2 ^ 16 := by decide
  refine ⟨out, _, by rw [handleGetRelayMap, hout]; rfl, hstart ▸ hobjects, ?_⟩
  rw [hlength, Nat.mod_eq_of_lt hsmall, Nat.mod_eq_of_lt (by omega)]
  generalize hstop : (start + (m.visited start serverRelaysMapAmount).length) % m.itemsLength = stop
  have harc : arc m.itemsLength serverRelaysMapAmount stop =
      arc m.itemsLength serverRelaysMapAmount (slotOf m (n + serverRelaysMapAmount - 1) + 1) := by
    rw [← hstop, ← slotOf_last h hcard hstart, arc_mod]
  have hbehind : m.relaysFrom stop = (m.relaysFrom 0).rotate (n + serverRelaysMapAmount) := by
    rw [← hstop, relaysFrom_mod, relaysFrom_visited, ← hobjects.length, hlength, hstart,
      List.rotate_rotate]
  -- The cursor passes over as many slots as there are relays in the response.
  calc m.relaysFrom (stop + serverRelaysMapAmount)
      = (m.relaysFrom stop).rotate (passedOver m (n + serverRelaysMapAmount - 1)) := by
        rw [passedOver, ← harc]
        exact filter_ring_add _ _ _ hle
    _ = (m.relaysFrom 0).rotate (nextFirst m n) := by rw [hbehind, List.rotate_rotate, nextFirst]

/-! ## A session -/

/-- The responses to requests that begin with the number `n`. By induction on the
    requests. -/
theorem getRelayMaps_spec (h : Consistent m) (hcard : serverRelaysMapAmount < m.liveIds.card)
    (requests : ℕ) {start n : ℕ} (hstart : m.relaysFrom start = (m.relaysFrom 0).rotate n) :
    ∃ responses, getRelayMaps m requests start = some responses ∧
      responses.map (List.map RelayData.relayId) = (List.range requests).map
        fun k => ((m.relaysFrom 0).rotate ((nextFirst m)^[k] n)).take serverRelaysMapAmount := by
  induction requests generalizing start n with
  | zero => exact ⟨[], rfl, rfl⟩
  | succ requests ih =>
    obtain ⟨out, next, hout, hobjects, hnext⟩ := relaysFrom_handleGetRelayMap h hcard hstart
    obtain ⟨responses, hresponses, hids⟩ := ih hnext
    refine ⟨out :: responses, ?_, ?_⟩
    · simp [getRelayMaps, hout, hresponses]
    · rw [List.map_cons, hobjects.relayId, hids, List.range_succ_eq_map, List.map_cons,
        List.map_map]
      rfl

/-- The relays that a request hands out, by their numbers. -/
theorem getElem_mem_take_rotate {l : List ℕ} (hl : l.Nodup) {n max first : ℕ} (hn : n < l.length)
    (hmax : max ≤ l.length) :
    l[n] ∈ (l.rotate first).take max ↔ ∃ j < max, n = (first + j) % l.length := by
  have hpos : 0 < l.length := Nat.zero_lt_of_lt hn
  have hget : ∀ j < max, ((l.rotate first).take max)[j]? =
      some (l.get ⟨(first + j) % l.length, Nat.mod_lt _ hpos⟩) := by
    intro j hj
    rw [List.getElem?_take_of_lt hj, List.getElem?_rotate (hj.trans_le hmax), Nat.add_comm j,
      List.getElem?_eq_getElem (Nat.mod_lt _ hpos)]
    rfl
  rw [List.mem_iff_getElem?]
  constructor
  · rintro ⟨j, hj⟩
    have hlt : j < max := by
      have h := (List.getElem?_eq_some_iff.1 hj).1
      rw [List.length_take] at h
      omega
    rw [hget j hlt] at hj
    exact ⟨j, hlt, (hl.getElem_inj_iff.1 (Option.some.inj hj)).symm⟩
  · rintro ⟨j, hj, rfl⟩
    exact ⟨j, hget j hj⟩

/-- A directory that fits in one response is handed out by it. -/
theorem covered_of_le (h : Consistent m) (hcard : m.liveIds.card ≤ serverRelaysMapAmount) :
    Covered m := by
  have hM : serverRelaysMapAmount = 14 := rfl
  rcases Nat.eq_zero_or_pos m.liveIds.card with hzero | hpos
  · refine ⟨[], by rw [requestsNeeded, hzero]; rfl, fun i hi => ?_⟩
    rw [Finset.card_eq_zero.1 hzero] at hi
    exact absurd hi (Finset.notMem_empty i)
  · have hone : requestsNeeded m = 1 := by
      rw [requestsNeeded, hM]
      omega
    obtain ⟨out, hout, hobjects⟩ := getRelayBatch_spec h 0 serverRelaysMapAmount
    refine ⟨[out], by rw [hone]; simp [getRelayMaps, handleGetRelayMap, hout], fun i hi => ?_⟩
    refine ⟨out, List.mem_singleton.2 rfl, ?_⟩
    rw [hobjects.relayId, List.take_of_length_le (by rwa [length_relaysFrom h])]
    exact (mem_relaysFrom h 0).2 hi

theorem blocksCover_of_le (hcard : m.liveIds.card ≤ serverRelaysMapAmount) : BlocksCover m := by
  intro n hn
  refine ⟨0, ?_, n, hn.trans_le hcard, ?_⟩
  · rw [lt_requestsNeeded, Nat.zero_mul]
    exact Nat.zero_lt_of_lt hn
  · rw [firstOf, Function.iterate_zero, id_eq, Nat.zero_add, Nat.mod_eq_of_lt hn]

/-- Where no live relay is close behind a response, the requests go on where the one before
    them stopped. -/
theorem blocksCover_of_passedOver
    (hpassed : ∀ k, (k + 1) * serverRelaysMapAmount < m.liveIds.card →
      passedOver m ((k + 1) * serverRelaysMapAmount - 1) = 0) : BlocksCover m := by
  have hpos : 0 < serverRelaysMapAmount := by decide
  have hfirst : ∀ k, k * serverRelaysMapAmount < m.liveIds.card →
      firstOf m k = k * serverRelaysMapAmount := by
    intro k
    induction k with
    | zero => intro _; rw [firstOf, Function.iterate_zero, id_eq, Nat.zero_mul]
    | succ k ih =>
      intro hk
      have hbefore : firstOf m k = k * serverRelaysMapAmount :=
        ih ((Nat.mul_le_mul_right _ (Nat.le_succ k)).trans_lt hk)
      have hstep : firstOf m (k + 1) = nextFirst m (firstOf m k) :=
        Function.iterate_succ_apply' _ _ _
      rw [hstep, hbefore, nextFirst, ← Nat.succ_mul, Nat.succ_eq_add_one, hpassed k hk,
        Nat.add_zero]
  intro n hn
  have hdiv : n / serverRelaysMapAmount * serverRelaysMapAmount < m.liveIds.card :=
    (Nat.div_mul_le_self n _).trans_lt hn
  refine ⟨n / serverRelaysMapAmount, lt_requestsNeeded.2 hdiv, n % serverRelaysMapAmount,
    Nat.mod_lt _ hpos, ?_⟩
  rw [hfirst _ hdiv, Nat.div_add_mod', Nat.mod_eq_of_lt hn]

/-- Exactly the directories whose blocks make up all numbers are handed out. -/
theorem covered_iff (h : Consistent m) : Covered m ↔ BlocksCover m := by
  rcases Nat.lt_or_ge serverRelaysMapAmount m.liveIds.card with hcard | hcard
  · obtain ⟨responses, hresponses, hids⟩ := getRelayMaps_spec h hcard (requestsNeeded m)
      (List.rotate_zero (m.relaysFrom 0)).symm
    have hlength := length_relaysFrom h 0
    have hmem : ∀ i, (∃ response ∈ responses, i ∈ response.map RelayData.relayId) ↔
        ∃ k < requestsNeeded m, i ∈ ((m.relaysFrom 0).rotate (firstOf m k)).take
          serverRelaysMapAmount := by
      intro i
      have hmap : (∃ response ∈ responses, i ∈ response.map RelayData.relayId) ↔
          ∃ ids ∈ responses.map (List.map RelayData.relayId), i ∈ ids := by simp
      rw [hmap, hids]
      simp [firstOf]
    have hcovered : Covered m ↔ ∀ i ∈ m.relaysFrom 0, ∃ k < requestsNeeded m,
        i ∈ ((m.relaysFrom 0).rotate (firstOf m k)).take serverRelaysMapAmount := by
      simp only [Covered, hresponses, Option.some.injEq, exists_eq_left', hmem, mem_relaysFrom h]
    -- From the relays to their numbers.
    rw [hcovered, List.forall_mem_iff_getElem, BlocksCover, ← hlength]
    refine forall_congr' fun n => forall_congr' fun hn => ?_
    simp only [getElem_mem_take_rotate (nodup_relaysFrom h 0) hn (hcard.le.trans_eq hlength.symm)]
  · exact iff_of_true (covered_of_le h hcard) (blocksCover_of_le hcard)

/-- The sessions over a directory that the calls can reach. -/
theorem covered_iff_of_reachable {s : RelayRun} (hs : relayMachine.Reachable Machine.anyStep s) :
    Covered s.manager ↔ BlocksCover s.manager :=
  covered_iff (relayInvariant_of_reachable hs).consistent

/-- Sixteen relays fill the items, and the second response is cut out of both ends. -/
theorem covered_iff_of_reachable_sixteen : ∃ s : RelayRun,
    s.manager.liveIds.card = 16 ∧ (Covered s.manager ↔ BlocksCover s.manager) := by
  have hrun : (Machine.run (Machine.checked Machine.anyStep RelayRun.step)
      ⟨initRelayManager fun _ => 0, 0⟩ ((List.range 16).map .gen)).any
      (fun s => s.manager.liveIds.card = 16) = true := by
    decide +kernel
  have hinit : ⟨initRelayManager fun _ => 0, 0⟩ ∈ relayMachine.init := ⟨_, rfl⟩
  obtain ⟨s, hs, hcard⟩ := Machine.exists_of_run hinit hrun
  exact ⟨s, of_decide_eq_true hcard, covered_iff_of_reachable hs⟩

/-- Of 29 relays, the three responses leave out those in the slots 14 to 26. -/
theorem not_covered_of_reachable :
    ∃ s : RelayRun, relayMachine.Reachable Machine.anyStep s ∧ ¬ Covered s.manager := by
  have hrun : (Machine.run (Machine.checked Machine.anyStep RelayRun.step)
      ⟨initRelayManager fun _ => 0, 0⟩ ((List.range 29).map .gen)).any
      (fun s => 14 ∈ s.manager.liveIds ∧
        ∀ responses ∈ getRelayMaps s.manager (requestsNeeded s.manager) 0,
          ∀ response ∈ responses, 14 ∉ response.map RelayData.relayId) = true := by
    decide +kernel
  have hinit : ⟨initRelayManager fun _ => 0, 0⟩ ∈ relayMachine.init := ⟨_, rfl⟩
  obtain ⟨s, hs, hmissed⟩ := Machine.exists_of_run hinit hrun
  obtain ⟨hlive, hmissed⟩ := of_decide_eq_true hmissed
  refine ⟨s, hs, fun ⟨responses, hresponses, hall⟩ => ?_⟩
  obtain ⟨response, hmem, hin⟩ := hall 14 hlive
  exact hmissed responses hresponses response hmem hin

end OnionRouter.Directory
