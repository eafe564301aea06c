import OnionRouter.Directory.Batch
import OnionRouter.Lib.Checked

/-!
# Accesses of the relay manager

The functions of `relay_manager.c` again, with every access to the items and to the stack
checked against their lengths. In every directory `get_relay`, `gen_relay` and
`get_relay_batch` stay inside of both arrays. `remove_relay` reads an item before it
compares the id with the number of items, while `get_relay` compares first.

* `Consistent.genRelayChecked`, `Consistent.getRelayBatchChecked`: the ids on the stack, the
  next id and the slots of a walk are in bounds.
* `Consistent.removeRelayChecked`, `removeRelayChecked_of_le`: `remove_relay` stays in bounds
  exactly for the ids below the number of items.
* `indexSafe_iff_of_reachable`: so in every run.
-/

namespace OnionRouter.Directory

open Lib Memory RelayManager

namespace RelayManager

/-! ## Checked functions -/

/-- `get_relay`. -/
def getRelayChecked (m : RelayManager) (id : ℕ) : Checked (Option ℕ) :=
  if id < m.itemsLength then do
    let item ← Checked.get m.items m.itemsLength id
    if item.itemExists then return item.data else return none
  else return none

/-- The entry that `gen_relay` fills in, all at one index. -/
def fillChecked (m : RelayManager) (id addr : ℕ) : Checked RelayManager := do
  let _ ← Checked.set m.items m.itemsLength id ⟨true, some addr⟩
  return m.fill id addr

/-- `gen_relay`. -/
def genRelayChecked (m : RelayManager) (addr : ℕ) : Checked RelayManager :=
  if m.maxStackIndex = 0 then
    if m.itemsLength ≤ m.maxItemIndex then do
      let itemsLength ← Checked.mul 32 m.itemsLength 2
      let added ← Checked.sub itemsLength m.itemsLength
      let items ← Checked.fill m.items itemsLength m.itemsLength added zeroItem
      let maxItemIndex ← Checked.add 32 m.maxItemIndex 1
      fillChecked { m with
        itemsLength := itemsLength
        items := items
        maxItemIndex := maxItemIndex } m.maxItemIndex addr
    else do
      let maxItemIndex ← Checked.add 32 m.maxItemIndex 1
      fillChecked { m with maxItemIndex := maxItemIndex } m.maxItemIndex addr
  else do
    let maxStackIndex ← Checked.sub m.maxStackIndex 1
    let removedId ← Checked.get m.removedIdStack m.stackLength maxStackIndex
    fillChecked { m with maxStackIndex := maxStackIndex } removedId addr

/-- The length of the stack, which `remove_relay` doubles when it is full. -/
def stackLengthChecked (m : RelayManager) : Checked ℕ :=
  if m.stackLength ≤ m.maxStackIndex then Checked.mul 32 m.stackLength 2 else .ok m.stackLength

/-- `remove_relay`. -/
def removeRelayChecked (m : RelayManager) (id : ℕ) : Checked (Bool × RelayManager) := do
  let item ← Checked.get m.items m.itemsLength id
  if item.itemExists = false ∨ m.itemsLength ≤ id then return (false, m)
  else
    let items ← Checked.set m.items m.itemsLength id ⟨false, item.data⟩
    let stackLength ← m.stackLengthChecked
    let removedIdStack ← Checked.set m.removedIdStack stackLength m.maxStackIndex id
    let maxStackIndex ← Checked.add 32 m.maxStackIndex 1
    let item ← Checked.get items m.itemsLength id
    let items ← Checked.set items m.itemsLength id ⟨false, none⟩
    return (true,
      { m with
        items := items
        stackLength := stackLength
        removedIdStack := removedIdStack
        maxStackIndex := maxStackIndex
        heap := match item.data with
          | none => m.heap
          | some addr => m.heap.set addr none })

/-- The loop of `get_relay_batch` at the slot `i`, after `found` relays and with `rounds`
    slots to go. -/
def getRelayBatchLoopChecked (m : RelayManager) (max : ℕ) :
    ℕ → ℕ → ℕ → Checked (List RelayData × ℕ)
  | 0, _, i => return ([], i)
  | rounds + 1, found, i =>
    if found < max then do
      let item ← Checked.get m.items m.itemsLength i
      let behind ← Checked.add 32 i 1
      let next ← Checked.rem behind m.itemsLength
      if item.itemExists then
        let data ← Checked.deref (item.data.bind m.heap)
        let (rest, start) ← m.getRelayBatchLoopChecked max rounds (found + 1) next
        return (data :: rest, start)
      else m.getRelayBatchLoopChecked max rounds found next
    else return ([], i)

/-- `get_relay_batch`. -/
def getRelayBatchChecked (m : RelayManager) (start max : ℕ) : Checked (List RelayData × ℕ) := do
  let i ← Checked.rem start m.itemsLength
  m.getRelayBatchLoopChecked max m.itemsLength 0 i

/-! ## Accesses in bounds -/

variable {m m' : RelayManager} {id addr : ℕ}

/-- `get_relay` compares the id with the number of items first. -/
theorem getRelayChecked_eq (m : RelayManager) (id : ℕ) :
    m.getRelayChecked id = .ok (m.getRelay id) := by
  rw [getRelayChecked, getRelay]
  by_cases hid : id < m.itemsLength
  · rw [if_pos hid, Checked.get_of_lt hid, Checked.ok_bind]
    simp only [hid, true_and]
    split_ifs
    · rfl
    · rfl
  · rw [if_neg hid, if_neg fun h => hid h.1]
    rfl

theorem fillChecked_of_lt (hid : id < m.itemsLength) (addr : ℕ) :
    m.fillChecked id addr = .ok (m.fill id addr) := by
  rw [fillChecked, Checked.set_of_lt hid, Checked.ok_bind]
  rfl

/-- `gen_relay` takes an id that is on the stack or next in the items, which it grows before
    there is no room. -/
theorem Consistent.genRelayChecked (h : Consistent m) (hgen : m.genRelay addr = some m') :
    m.genRelayChecked addr = .ok m' := by
  have hmax := h.max_le
  have hlength := h.itemsLength_le
  have hpos := h.itemsLength_pos
  rw [genRelay] at hgen
  rw [RelayManager.genRelayChecked]
  obtain ⟨-, hgen⟩ := Option.ite_none_left_eq_some.1 hgen
  split_ifs at hgen ⊢ with hstack hfull
  · obtain ⟨hne, hgen⟩ := Option.ite_none_left_eq_some.1 hgen
    obtain rfl := Option.some_inj.1 hgen
    have hlt : m.itemsLength * 2 < 2 ^ 32 := by
      by_contra hnot
      exact hne (by omega)
    have hdouble := Nat.mod_eq_of_lt hlt
    have hsucc : (m.maxItemIndex + 1) % 2 ^ 32 = m.maxItemIndex + 1 := Nat.mod_eq_of_lt (by omega)
    have hend : m.itemsLength + (m.itemsLength * 2 - m.itemsLength) = m.itemsLength * 2 := by omega
    rw [Checked.mul_eq_ok.2 ⟨hlt, rfl⟩, Checked.ok_bind,
      Checked.sub_eq_ok.2 ⟨by omega, rfl⟩, Checked.ok_bind, Checked.fill_of_le hend.le,
      Checked.ok_bind, Checked.add_eq_ok.2 ⟨by omega, rfl⟩, Checked.ok_bind,
      fillChecked_of_lt (show m.maxItemIndex < m.itemsLength * 2 by omega), hdouble, hsucc, hend]
  · obtain rfl := Option.some_inj.1 hgen
    have hsucc : (m.maxItemIndex + 1) % 2 ^ 32 = m.maxItemIndex + 1 := Nat.mod_eq_of_lt (by omega)
    rw [Checked.add_eq_ok.2 ⟨by omega, rfl⟩, Checked.ok_bind, hsucc]
    exact fillChecked_of_lt (m := { m with maxItemIndex := m.maxItemIndex + 1 })
      (Nat.lt_of_not_le hfull) addr
  · obtain rfl := Option.some_inj.1 hgen
    have hprepared := prepared_of_pop h hstack
    have hstackLe := h.stack_le
    rw [Checked.sub_eq_ok.2 ⟨Nat.pos_of_ne_zero hstack, rfl⟩, Checked.ok_bind,
      Checked.get_of_lt (by omega), Checked.ok_bind, fillChecked_of_lt hprepared.id_lt]

/-- `remove_relay` reads an item in any case. -/
theorem removeRelayChecked_of_le (hid : m.itemsLength ≤ id) :
    m.removeRelayChecked id = .error .outOfBounds := by
  rw [removeRelayChecked, Checked.get, if_neg (Nat.not_lt.2 hid)]
  rfl

theorem Consistent.removeRelayChecked (h : Consistent m) (hid : id < m.itemsLength) :
    m.removeRelayChecked id = .ok (m.removeRelay id) := by
  by_cases hlive : id ∈ m.liveIds
  · have hbranch := removeRelay_branch hlive
    have hstack := h.maxStackIndex_lt hlive
    have hle := h.stack_le
    obtain ⟨k, -, hpow⟩ := h.stackLength
    have hpos : 0 < m.stackLength := hpow ▸ Nat.two_pow_pos k
    have hsucc : (m.maxStackIndex + 1) % 2 ^ 32 = m.maxStackIndex + 1 := succ_mod_of_le hstack.le
    have hlength : m.stackLengthChecked =
        .ok (if m.stackLength ≤ m.maxStackIndex then m.stackLength * 2 % 2 ^ 32
          else m.stackLength) := by
      rw [stackLengthChecked]
      split_ifs with hfull
      · rw [Nat.mod_eq_of_lt (by omega)]
        exact Checked.mul_eq_ok.2 ⟨by omega, rfl⟩
      · rfl
    have hroom : m.maxStackIndex < if m.stackLength ≤ m.maxStackIndex then
        m.stackLength * 2 % 2 ^ 32 else m.stackLength := by
      split_ifs with hfull
      · omega
      · omega
    rw [RelayManager.removeRelayChecked, Checked.get_of_lt hid, Checked.ok_bind, if_neg hbranch,
      Checked.set_of_lt hid, Checked.ok_bind, hlength, Checked.ok_bind, Checked.set_of_lt hroom,
      Checked.ok_bind, Checked.add_eq_ok.2 ⟨by omega, rfl⟩, Checked.ok_bind,
      Checked.get_of_lt hid, Checked.ok_bind, Checked.set_of_lt hid, Checked.ok_bind, set_set,
      set_self, RelayManager.removeRelay, if_neg hbranch, hsucc]
    rfl
  · have hbranch : (m.items id).itemExists = false ∨ m.itemsLength ≤ id :=
      .inl (Bool.eq_false_iff.2 fun hexists => hlive (mem_liveIds.2 ⟨hid, hexists⟩))
    rw [RelayManager.removeRelayChecked, Checked.get_of_lt hid, Checked.ok_bind, if_pos hbranch,
      RelayManager.removeRelay, if_pos hbranch]
    rfl

/-- The slots of a walk are remainders by the number of items. By induction on the slots
    to go. -/
theorem Consistent.getRelayBatchLoopChecked (h : Consistent m) {max rounds found i : ℕ}
    {result : List RelayData × ℕ} (hi : i < m.itemsLength)
    (hloop : m.getRelayBatchLoop max rounds found i = some result) :
    m.getRelayBatchLoopChecked max rounds found i = .ok result := by
  have hlength := h.itemsLength_le
  induction rounds generalizing found i result with
  | zero => exact congrArg Except.ok (Option.some_inj.1 hloop)
  | succ rounds ih =>
    have hnext : (i + 1) % m.itemsLength < m.itemsLength := Nat.mod_lt _ h.itemsLength_pos
    rw [getRelayBatchLoop] at hloop
    rw [RelayManager.getRelayBatchLoopChecked]
    by_cases hfound : found < max
    · rw [if_pos hfound] at hloop ⊢
      rw [Checked.get_of_lt hi, Checked.ok_bind, Checked.add_eq_ok.2 ⟨by omega, rfl⟩,
        Checked.ok_bind, Checked.rem_of_ne_zero h.itemsLength_pos.ne', Checked.ok_bind]
      by_cases hlive : (m.items i).itemExists
      · simp only [if_pos hlive] at hloop ⊢
        obtain ⟨data, hdata, hloop⟩ := Option.bind_eq_some_iff.1 hloop
        obtain ⟨⟨rest, start⟩, hrest, hloop⟩ := Option.bind_eq_some_iff.1 hloop
        rw [RelayManager.relay] at hdata
        rw [hdata, Checked.deref, Checked.ok_bind, ih hnext hrest]
        exact congrArg Except.ok (Option.some_inj.1 hloop)
      · simp only [if_neg hlive] at hloop ⊢
        exact ih hnext hloop
    · rw [if_neg hfound] at hloop ⊢
      exact congrArg Except.ok (Option.some_inj.1 hloop)

theorem Consistent.getRelayBatchChecked (h : Consistent m) (start max : ℕ) :
    ∃ result, m.getRelayBatch start max = some result ∧
      m.getRelayBatchChecked start max = .ok result := by
  obtain ⟨out, hout, -⟩ := getRelayBatch_spec h start max
  refine ⟨_, hout, ?_⟩
  rw [getRelayBatch, if_neg h.itemsLength_pos.ne'] at hout
  rw [RelayManager.getRelayBatchChecked, Checked.rem_of_ne_zero h.itemsLength_pos.ne',
    Checked.ok_bind]
  exact h.getRelayBatchLoopChecked (Nat.mod_lt _ h.itemsLength_pos) hout

end RelayManager

/-! ## Runs -/

/-- No call of the relay manager leaves the items or the stack, or takes a remainder by zero,
    and removing a relay that is not there changes nothing. -/
structure IndexSafe (m : RelayManager) (id start max : ℕ) : Prop where
  get : m.getRelayChecked id = .ok (m.getRelay id)
  /-- Fewer than `2 ^ 31` relays are live with the new one. -/
  gen : ∀ addr, m.heap addr = none → m.liveIds.card + 1 < 2 ^ 31 →
    ∃ m', m.genRelay addr = some m' ∧ m.genRelayChecked addr = .ok m'
  remove : m.removeRelayChecked id = .ok (m.removeRelay id)
  removeAbsent : id ∉ m.liveIds → m.removeRelayChecked id = .ok (false, m)
  batch : ∃ result, m.getRelayBatch start max = some result ∧
    m.getRelayBatchChecked start max = .ok result

/-- In every run of the relay manager, the accesses are safe exactly for ids below the number
    of items. -/
theorem indexSafe_iff_of_reachable {s : RelayRun}
    (hs : relayMachine.Reachable Machine.anyStep s) (id start max : ℕ) :
    IndexSafe s.manager id start max ↔ id < s.manager.itemsLength := by
  have h := (relayInvariant_of_reachable hs).consistent
  constructor
  · intro hsafe
    by_contra hid
    have hremove := hsafe.remove
    rw [removeRelayChecked_of_le (Nat.not_lt.1 hid)] at hremove
    cases hremove
  · intro hid
    refine ⟨getRelayChecked_eq _ _, fun addr hfresh hcard => ?_, h.removeRelayChecked hid,
      fun hlive => ?_, h.getRelayBatchChecked start max⟩
    · obtain ⟨m', hgen⟩ := Option.isSome_iff_exists.1 (genRelay_isSome h hfresh hcard)
      exact ⟨m', hgen, h.genRelayChecked hgen⟩
    · rw [h.removeRelayChecked hid, removeRelay_of_notMem hlive]

/-- Three relays, of which the second one signed out and its id was given again, and the first
    one signed out. -/
theorem indexSafe_recycled :
    ∃ s : RelayRun, IndexSafe s.manager 3 5 3 ∧ s.manager.liveIds = {1, 2} := by
  have hrun : (Machine.run (Machine.checked Machine.anyStep RelayRun.step)
      ⟨initRelayManager fun _ => 0, 0⟩
      [.gen 10, .gen 11, .gen 12, .remove 1, .gen 13, .remove 0]).any
      (fun s => 3 < s.manager.itemsLength ∧ s.manager.liveIds = {1, 2}) = true := by
    decide +kernel
  have hinit : ⟨initRelayManager fun _ => 0, 0⟩ ∈ relayMachine.init := ⟨_, rfl⟩
  obtain ⟨s, hs, hrest⟩ := Machine.exists_of_run hinit hrun
  obtain ⟨hlt, hlive⟩ := of_decide_eq_true hrest
  exact ⟨s, (indexSafe_iff_of_reachable hs 3 5 3).2 hlt, hlive⟩

/-- Removing the relay 2 from a fresh directory reads behind its items. -/
theorem not_indexSafe_initRelayManager : ∃ s : RelayRun,
    relayMachine.Reachable Machine.anyStep s ∧ ¬ IndexSafe s.manager 2 0 0 := by
  refine ⟨⟨initRelayManager fun _ => 0, 0⟩, .init ⟨_, rfl⟩, fun hsafe => ?_⟩
  have hremove := hsafe.remove
  rw [removeRelayChecked_of_le (le_refl 2)] at hremove
  cases hremove

end OnionRouter.Directory
