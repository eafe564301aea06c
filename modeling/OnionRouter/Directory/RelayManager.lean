import OnionRouter.Lib.Memory
import OnionRouter.Lib.Transition
import Mathlib.Algebra.Group.Nat.Defs
import Mathlib.Data.Finset.Card
import Mathlib.Data.Finset.Range

/-!
# The relay manager

`relay_manager.c`: the relays of the directory, in an array that doubles when it is
full, and the stack of the ids that were removed, which are given out again first. The
objects that the entries point to are on a heap, where `calloc` takes a free address.

* `Consistent`: the ids on the stack and those of the entries partition the ids that
  were given out, and every entry has its own index as `relay_id`; the three functions
  keep it.
* `genRelay_spec`, `removed_removeRelay`: the entry that a call makes or takes away, and
  that the others stay.
-/

namespace OnionRouter.Directory

open Lib Memory

/-! ## The directory -/

/-- A `relay_descriptor_t`. -/
structure RelayDescriptor where
  sockAddr : List UInt8
  publicKey : List UInt8

/-- A `relay_data_t`, and the number of the `gen_relay` that made it. -/
structure RelayData where
  descriptor : RelayDescriptor
  relayId : ℕ
  registration : ℕ

/-- A `relay_data_item_t`; `data` is a pointer, which may be `NULL`. -/
structure Item where
  itemExists : Bool
  data : Option ℕ

/-- The static variables of the relay manager, and the heap. -/
structure RelayManager where
  itemsLength : ℕ
  items : Memory Item
  maxItemIndex : ℕ
  stackLength : ℕ
  removedIdStack : Memory ℕ
  maxStackIndex : ℕ
  /-- The objects that are allocated. -/
  heap : Memory (Option RelayData)
  /-- How many calls of `gen_relay` there were. -/
  registrations : ℕ

/-- An item after `memset` with zeros. -/
def zeroItem : Item := ⟨false, none⟩

/-- `init_relay_manager`. What the memory of the stack holds is not used. -/
def initRelayManager (stack : Memory ℕ) : RelayManager where
  itemsLength := 2
  items := fun _ => zeroItem
  maxItemIndex := 0
  stackLength := 1
  removedIdStack := stack
  maxStackIndex := 0
  heap := fun _ => none
  registrations := 0

namespace RelayManager

/-- `get_relay`. -/
def getRelay (m : RelayManager) (id : ℕ) : Option ℕ :=
  if id < m.itemsLength ∧ (m.items id).itemExists then (m.items id).data else none

/-- The entry that `gen_relay` fills in: `calloc` gives the object the address `addr`. -/
def fill (m : RelayManager) (id addr : ℕ) : RelayManager :=
  { m with
    items := m.items.set id ⟨true, some addr⟩
    heap := m.heap.set addr (some ⟨⟨List.replicate 20 0, List.replicate 256 0⟩, id, m.registrations⟩)
    registrations := m.registrations + 1 }

@[simp] theorem fill_items (m : RelayManager) (id addr : ℕ) :
    (m.fill id addr).items = m.items.set id ⟨true, some addr⟩ := rfl

@[simp] theorem fill_heap (m : RelayManager) (id addr : ℕ) :
    (m.fill id addr).heap = m.heap.set addr
      (some ⟨⟨List.replicate 20 0, List.replicate 256 0⟩, id, m.registrations⟩) := rfl

/-- `gen_relay`, which returns a pointer to `addr`; `none` when `addr` is in use, so that
    `calloc` does not return it, or when `realloc` is asked for 0 bytes and the assertion
    fails. -/
def genRelay (m : RelayManager) (addr : ℕ) : Option RelayManager :=
  if (m.heap addr).isSome then none
  else if m.maxStackIndex = 0 then
    if m.itemsLength ≤ m.maxItemIndex then
      let itemsLength := m.itemsLength * 2 % 2 ^ 32
      if itemsLength = 0 then none
      else
        let items := fun i =>
          if m.itemsLength ≤ i ∧ i < itemsLength then zeroItem else m.items i
        some ({ m with
          itemsLength := itemsLength
          items := items
          maxItemIndex := (m.maxItemIndex + 1) % 2 ^ 32 }.fill m.maxItemIndex addr)
    else some ({ m with maxItemIndex := (m.maxItemIndex + 1) % 2 ^ 32 }.fill m.maxItemIndex addr)
  else
    let maxStackIndex := m.maxStackIndex - 1
    some ({ m with maxStackIndex := maxStackIndex }.fill (m.removedIdStack maxStackIndex) addr)

/-- `remove_relay`. The length of the stack does not wrap (`stackLength_removeRelay`). -/
def removeRelay (m : RelayManager) (id : ℕ) : Bool × RelayManager :=
  if (m.items id).itemExists = false ∨ m.itemsLength ≤ id then (false, m)
  else
    (true,
      { m with
        items := m.items.set id ⟨false, none⟩
        stackLength := if m.stackLength ≤ m.maxStackIndex then m.stackLength * 2 % 2 ^ 32
          else m.stackLength
        removedIdStack := m.removedIdStack.set m.maxStackIndex id
        maxStackIndex := (m.maxStackIndex + 1) % 2 ^ 32
        heap := match (m.items id).data with
          | none => m.heap
          | some addr => m.heap.set addr none })

/-- A write to the descriptor that a pointer leads to. -/
def describe (m : RelayManager) (addr : ℕ) (descriptor : RelayDescriptor) : RelayManager :=
  { m with heap := m.heap.set addr ((m.heap addr).map fun d => { d with descriptor := descriptor }) }

@[simp] theorem describe_heap (m : RelayManager) (addr : ℕ) (descriptor : RelayDescriptor) :
    (m.describe addr descriptor).heap = m.heap.set addr
      ((m.heap addr).map fun d => { d with descriptor := descriptor }) := rfl

/-! ## Its entries -/

/-- The ids of the entries that exist. -/
def liveIds (m : RelayManager) : Finset ℕ :=
  {i ∈ Finset.range m.itemsLength | (m.items i).itemExists}

/-- The ids on the stack. -/
def freeIds (m : RelayManager) : List ℕ := m.removedIdStack.read 0 m.maxStackIndex

/-- The object of an entry. -/
def relay (m : RelayManager) (id : ℕ) : Option RelayData := (m.items id).data.bind m.heap

theorem mem_liveIds {m : RelayManager} {i : ℕ} :
    i ∈ m.liveIds ↔ i < m.itemsLength ∧ (m.items i).itemExists = true := by
  rw [liveIds, Finset.mem_filter, Finset.mem_range]

/-- The directories that the functions keep. -/
structure Consistent (m : RelayManager) : Prop where
  itemsLength : ∃ k, 1 ≤ k ∧ k ≤ 31 ∧ m.itemsLength = 2 ^ k
  stackLength : ∃ k ≤ 31, m.stackLength = 2 ^ k
  max_le : m.maxItemIndex ≤ m.itemsLength
  stack_le : m.maxStackIndex ≤ m.stackLength
  live_lt : ∀ i ∈ m.liveIds, i < m.maxItemIndex
  nodup : m.freeIds.Nodup
  mem_freeIds : ∀ i, i ∈ m.freeIds ↔ i < m.maxItemIndex ∧ i ∉ m.liveIds
  relay : ∀ i ∈ m.liveIds, ∃ addr d, (m.items i).data = some addr ∧ m.heap addr = some d ∧
    d.relayId = i

namespace Consistent

variable {m m' : RelayManager}

theorem itemsLength_le (h : Consistent m) : m.itemsLength ≤ 2 ^ 31 := by
  obtain ⟨k, -, hk, hlength⟩ := h.itemsLength
  rw [hlength]
  exact Nat.pow_le_pow_right (by decide) hk

/-- The ids that were given out are the live and the free ones. -/
theorem liveIds_disjUnion_freeIds (h : Consistent m) :
    Disjoint m.freeIds.toFinset m.liveIds ∧
      m.freeIds.toFinset ∪ m.liveIds = Finset.range m.maxItemIndex := by
  constructor
  · refine Finset.disjoint_left.2 fun i hfree hlive => ?_
    exact ((h.mem_freeIds i).1 (List.mem_toFinset.1 hfree)).2 hlive
  · ext i
    rw [Finset.mem_union, List.mem_toFinset, h.mem_freeIds, Finset.mem_range]
    constructor
    · rintro (hfree | hlive)
      · exact hfree.1
      · exact h.live_lt i hlive
    · intro hi
      by_cases hlive : i ∈ m.liveIds
      · exact .inr hlive
      · exact .inl ⟨hi, hlive⟩

theorem card_liveIds_add (h : Consistent m) :
    m.liveIds.card + m.maxStackIndex = m.maxItemIndex := by
  obtain ⟨hdisjoint, hunion⟩ := h.liveIds_disjUnion_freeIds
  have hcard := Finset.card_union_of_disjoint hdisjoint
  rw [hunion, Finset.card_range, List.toFinset_card_of_nodup h.nodup, RelayManager.freeIds,
    length_read] at hcard
  rw [hcard, Nat.add_comm]

/-- Two entries do not share an object. -/
theorem eq_of_data_eq (h : Consistent m) {i j addr : ℕ} (hi : i ∈ m.liveIds)
    (hj : j ∈ m.liveIds) (hdata : (m.items i).data = some addr)
    (hdata' : (m.items j).data = some addr) : i = j := by
  obtain ⟨_, d, hi', hd, rfl⟩ := h.relay i hi
  obtain ⟨_, d', hj', hd', rfl⟩ := h.relay j hj
  obtain rfl := Option.some_inj.1 (hdata.symm.trans hi')
  obtain rfl := Option.some_inj.1 (hdata'.symm.trans hj')
  rw [Option.some_inj.1 (hd.symm.trans hd')]

theorem initRelayManager (stack : Memory ℕ) : Consistent (initRelayManager stack) where
  itemsLength := ⟨1, le_rfl, by decide, rfl⟩
  stackLength := ⟨0, by decide, rfl⟩
  max_le := Nat.zero_le _
  stack_le := Nat.zero_le _
  live_lt i hi := by cases (mem_liveIds.1 hi).2
  nodup := by
    rw [RelayManager.freeIds, Directory.initRelayManager, read_zero]
    exact List.nodup_nil
  mem_freeIds i := by
    rw [RelayManager.freeIds, Directory.initRelayManager, read_zero]
    exact iff_of_false List.not_mem_nil fun h => Nat.not_lt_zero i h.1
  relay i hi := by cases (mem_liveIds.1 hi).2

end Consistent

/-! ## `gen_relay` -/

/-- What `gen_relay` does before it fills in the entry `id`: it takes the id from the
    stack, or a new one, for which there is room. -/
structure Prepared (m m₁ : RelayManager) (id : ℕ) : Prop where
  heap : m₁.heap = m.heap
  registrations : m₁.registrations = m.registrations
  itemsLength : ∃ k, 1 ≤ k ∧ k ≤ 31 ∧ m₁.itemsLength = 2 ^ k
  stackLength : m₁.stackLength = m.stackLength
  stack_le : m₁.maxStackIndex ≤ m.maxStackIndex
  liveIds : m₁.liveIds = m.liveIds
  items : ∀ i ∈ m.liveIds, m₁.items i = m.items i
  id_lt : id < m₁.itemsLength
  notMem : id ∉ m.liveIds
  max_le : m₁.maxItemIndex ≤ m₁.itemsLength
  lt_max : ∀ i, i < m₁.maxItemIndex ↔ i < m.maxItemIndex ∨ i = id
  max : m₁.maxItemIndex = max m.maxItemIndex (m.liveIds.card + 1)
  nodup : m₁.freeIds.Nodup
  mem_freeIds : ∀ i, i ∈ m₁.freeIds ↔ i ∈ m.freeIds ∧ i ≠ id

variable {m m' m₁ : RelayManager} {id addr : ℕ}

theorem freeIds_eq_nil (h : m.maxStackIndex = 0) : m.freeIds = [] := by
  rw [freeIds, h, read_zero]

theorem succ_mod_of_le {n : ℕ} (h : n ≤ 2 ^ 31) : (n + 1) % 2 ^ 32 = n + 1 :=
  Nat.mod_eq_of_lt (by omega)

/-- With an empty stack all ids that were given out are live. -/
theorem Consistent.max_succ (h : Consistent m) (hstack : m.maxStackIndex = 0) :
    m.maxItemIndex + 1 = max m.maxItemIndex (m.liveIds.card + 1) := by
  have hcard := h.card_liveIds_add
  rw [hstack, Nat.add_zero] at hcard
  rw [hcard]
  exact (Nat.max_eq_right (Nat.le_succ _)).symm

theorem lt_succ_iff (n i : ℕ) : i < n + 1 ↔ i < n ∨ i = n := by
  rw [Nat.lt_succ_iff, Nat.le_iff_lt_or_eq]

/-- Growing the array of items. -/
theorem prepared_of_grow (h : Consistent m) (hstack : m.maxStackIndex = 0)
    (hfull : m.itemsLength ≤ m.maxItemIndex) (hlength : m.itemsLength * 2 % 2 ^ 32 ≠ 0) :
    Prepared m
      { m with
        itemsLength := m.itemsLength * 2 % 2 ^ 32
        items := fun i =>
          if m.itemsLength ≤ i ∧ i < m.itemsLength * 2 % 2 ^ 32 then zeroItem else m.items i
        maxItemIndex := (m.maxItemIndex + 1) % 2 ^ 32 } m.maxItemIndex := by
  obtain ⟨k, hk, hk', hpow⟩ := h.itemsLength
  have hmax := le_antisymm h.max_le hfull
  -- A manager of `2 ^ 31` items would grow to none, which `hlength` excludes.
  have hlt : k < 31 := by
    refine lt_of_le_of_ne hk' ?_
    rintro rfl
    exact hlength (by simp [hpow])
  have hdouble : m.itemsLength * 2 % 2 ^ 32 = m.itemsLength * 2 := by
    refine Nat.mod_eq_of_lt ?_
    rw [hpow, ← Nat.pow_succ]
    exact Nat.pow_lt_pow_right (by decide) (by omega)
  have hsucc := succ_mod_of_le (hmax.trans_le h.itemsLength_le)
  have hpos : 0 < m.itemsLength := by
    rw [hpow]
    exact Nat.two_pow_pos k
  have hnone := freeIds_eq_nil hstack
  have hpow' : m.itemsLength * 2 = 2 ^ (k + 1) := by rw [hpow, Nat.pow_succ]
  rw [hdouble, hsucc]
  refine ⟨rfl, rfl, ⟨k + 1, Nat.le_add_left 1 k, hlt, hpow'⟩, rfl, le_rfl, ?_,
    fun i hi => ?_, ?_, fun hlive => (h.live_lt _ hlive).false, ?_, lt_succ_iff _,
    h.max_succ hstack, h.nodup, fun i => ?_⟩
  -- The new items are cleared, so none of them is live.
  · ext i
    simp only [mem_liveIds]
    constructor
    · rintro ⟨hi, hlive⟩
      split_ifs at hlive with hnew
      · cases hlive
      · exact ⟨Nat.lt_of_not_le fun hle => hnew ⟨hle, hi⟩, hlive⟩
    · rintro ⟨hi, hlive⟩
      rw [if_neg fun hnew => Nat.not_lt.2 hnew.1 hi]
      exact ⟨hi.trans_le (Nat.le_mul_of_pos_right _ (by decide)), hlive⟩
  · exact if_neg fun hnew => Nat.not_lt.2 hnew.1 (mem_liveIds.1 hi).1
  · show m.maxItemIndex < m.itemsLength * 2
    omega
  · show m.maxItemIndex + 1 ≤ m.itemsLength * 2
    omega
  · show i ∈ m.freeIds ↔ _
    rw [hnone]
    exact iff_of_false List.not_mem_nil fun hi => List.not_mem_nil hi.1

/-- A new id for which there is room already. -/
theorem prepared_of_lt (h : Consistent m) (hstack : m.maxStackIndex = 0)
    (hroom : m.maxItemIndex < m.itemsLength) :
    Prepared m { m with maxItemIndex := (m.maxItemIndex + 1) % 2 ^ 32 } m.maxItemIndex := by
  have hsucc := succ_mod_of_le (h.max_le.trans h.itemsLength_le)
  have hnone := freeIds_eq_nil hstack
  rw [hsucc]
  refine ⟨rfl, rfl, h.itemsLength, rfl, le_rfl, rfl, fun _ _ => rfl, hroom,
    fun hlive => (h.live_lt _ hlive).false, hroom, lt_succ_iff _, h.max_succ hstack, h.nodup,
    fun i => ?_⟩
  show i ∈ m.freeIds ↔ _
  rw [hnone]
  exact iff_of_false List.not_mem_nil fun hi => List.not_mem_nil hi.1

/-- An id from the stack. -/
theorem prepared_of_pop (h : Consistent m) (hstack : m.maxStackIndex ≠ 0) :
    Prepared m { m with maxStackIndex := m.maxStackIndex - 1 }
      (m.removedIdStack (m.maxStackIndex - 1)) := by
  obtain ⟨n, hn⟩ := Nat.exists_eq_succ_of_ne_zero hstack
  -- The stack is the ids below the top, and the top.
  have hsplit : m.freeIds = m.removedIdStack.read 0 n ++ [m.removedIdStack n] := by
    rw [freeIds, hn, Nat.succ_eq_add_one, read_add, read_one, Nat.zero_add]
  have hnodup := h.nodup
  rw [hsplit, List.nodup_append] at hnodup
  have hfree : m.removedIdStack n ∈ m.freeIds := by
    rw [hsplit]
    exact List.mem_append_right _ List.mem_cons_self
  obtain ⟨hlt, hnot⟩ := (h.mem_freeIds _).1 hfree
  rw [hn, Nat.succ_sub_one]
  refine ⟨rfl, rfl, h.itemsLength, rfl, hn ▸ Nat.le_succ n, rfl, fun _ _ => rfl,
    hlt.trans_le h.max_le, hnot, h.max_le, fun i => ?_, ?_, hnodup.1, fun i => ?_⟩
  · exact (or_iff_left_of_imp fun heq => heq ▸ hlt).symm
  · have hcard := h.card_liveIds_add
    have hle : m.liveIds.card + 1 ≤ m.maxItemIndex := by omega
    exact (Nat.max_eq_left hle).symm
  · show i ∈ m.removedIdStack.read 0 n ↔ _
    rw [hsplit, List.mem_append, List.mem_singleton]
    constructor
    · intro hi
      exact ⟨.inl hi, fun heq => hnodup.2.2 i hi _ (List.mem_singleton.2 rfl) heq⟩
    · rintro ⟨hi | hi, hne⟩
      · exact hi
      · exact absurd hi hne

theorem prepared_of_genRelay (h : Consistent m) (hgen : m.genRelay addr = some m') :
    m.heap addr = none ∧ ∃ id m₁, Prepared m m₁ id ∧ m' = m₁.fill id addr := by
  rw [genRelay] at hgen
  split_ifs at hgen with hused hstack hfull
  · have hfresh := Option.not_isSome_iff_eq_none.1 hused
    obtain ⟨hlength, hgen⟩ := Option.ite_none_left_eq_some.1 hgen
    exact ⟨hfresh, _, _, prepared_of_grow h hstack hfull hlength, (Option.some_inj.1 hgen).symm⟩
  · have hfresh := Option.not_isSome_iff_eq_none.1 hused
    exact ⟨hfresh, _, _, prepared_of_lt h hstack (Nat.lt_of_not_le hfull),
      (Option.some_inj.1 hgen).symm⟩
  · have hfresh := Option.not_isSome_iff_eq_none.1 hused
    exact ⟨hfresh, _, _, prepared_of_pop h hstack, (Option.some_inj.1 hgen).symm⟩

/-- `gen_relay` returns in a directory with less than `2 ^ 31 - 1` relays. -/
theorem genRelay_isSome (h : Consistent m) (hfresh : m.heap addr = none)
    (hcard : m.liveIds.card + 1 < 2 ^ 31) : (m.genRelay addr).isSome := by
  obtain ⟨k, -, hk, hpow⟩ := h.itemsLength
  have hmax := h.card_liveIds_add
  rw [genRelay, hfresh, if_neg (by decide)]
  split_ifs with hstack hfull
  · have hlength : m.itemsLength * 2 % 2 ^ 32 ≠ 0 := by
      have hpos := Nat.two_pow_pos k
      rw [hpow, Nat.mod_eq_of_lt (by omega)]
      omega
    exact congrArg Option.isSome (if_neg hlength)
  · rfl
  · rfl

/-- What `gen_relay` does: there is a new entry, with a new object, and the others stay
    what they were. -/
structure Generated (m m' : RelayManager) (id addr : ℕ) : Prop where
  fresh : m.heap addr = none
  notMem : id ∉ m.liveIds
  liveIds : m'.liveIds = insert id m.liveIds
  data : (m'.items id).data = some addr
  new : m'.heap addr =
    some ⟨⟨List.replicate 20 0, List.replicate 256 0⟩, id, m.registrations⟩
  items : ∀ i ∈ m.liveIds, m'.items i = m.items i
  heap : ∀ a, a ≠ addr → m'.heap a = m.heap a
  max : m'.maxItemIndex = max m.maxItemIndex m'.liveIds.card
  registrations : m'.registrations = m.registrations + 1

theorem Prepared.liveIds_fill (hm₁ : Prepared m m₁ id) (addr : ℕ) :
    (m₁.fill id addr).liveIds = insert id m.liveIds := by
  ext i
  rw [mem_liveIds, Finset.mem_insert, ← hm₁.liveIds, mem_liveIds]
  by_cases hi : i = id
  · subst hi
    exact iff_of_true ⟨hm₁.id_lt, congrArg Item.itemExists (set_self _ i _)⟩ (.inl rfl)
  · rw [or_iff_right hi]
    exact and_congr_right fun _ => by rw [fill_items, set_of_ne _ hi]

theorem Prepared.generated (hm₁ : Prepared m m₁ id) (hfresh : m.heap addr = none) :
    Generated m (m₁.fill id addr) id addr where
  fresh := hfresh
  notMem := hm₁.notMem
  liveIds := hm₁.liveIds_fill addr
  data := congrArg Item.data (set_self _ id _)
  new := by rw [fill_heap, set_self, hm₁.registrations]
  items i hi := by
    have hne : i ≠ id := fun heq => hm₁.notMem (heq ▸ hi)
    exact (set_of_ne _ hne _).trans (hm₁.items i hi)
  heap a ha := (set_of_ne _ ha _).trans (congrFun hm₁.heap a)
  max := by
    rw [hm₁.liveIds_fill, Finset.card_insert_of_notMem hm₁.notMem]
    exact hm₁.max
  registrations := congrArg (· + 1) hm₁.registrations

/-- An object of an entry is not at a free address. -/
theorem Consistent.ne_of_fresh (h : Consistent m) (hfresh : m.heap addr = none) {i a : ℕ}
    (hi : i ∈ m.liveIds) (hdata : (m.items i).data = some a) : a ≠ addr := by
  obtain ⟨a', d, hdata', hd, -⟩ := h.relay i hi
  obtain rfl := Option.some_inj.1 (hdata.symm.trans hdata')
  rintro rfl
  cases hd.symm.trans hfresh

theorem Prepared.consistent (h : Consistent m) (hm₁ : Prepared m m₁ id)
    (hfresh : m.heap addr = none) : Consistent (m₁.fill id addr) := by
  have hgenerated := hm₁.generated hfresh
  refine ⟨hm₁.itemsLength, hm₁.stackLength ▸ h.stackLength, hm₁.max_le, ?_, fun i hi => ?_,
    hm₁.nodup, fun i => ?_, fun i hi => ?_⟩
  · exact hm₁.stack_le.trans (h.stack_le.trans_eq hm₁.stackLength.symm)
  · rw [hgenerated.liveIds, Finset.mem_insert] at hi
    refine (hm₁.lt_max i).2 ?_
    rcases hi with heq | hi
    · exact .inr heq
    · exact .inl (h.live_lt i hi)
  · rw [hgenerated.liveIds, Finset.mem_insert]
    show i ∈ m₁.freeIds ↔ i < m₁.maxItemIndex ∧ _
    rw [hm₁.mem_freeIds, h.mem_freeIds, hm₁.lt_max, not_or]
    constructor
    · rintro ⟨⟨hlt, hnot⟩, hne⟩
      exact ⟨.inl hlt, hne, hnot⟩
    · rintro ⟨hlt, hne, hnot⟩
      exact ⟨⟨hlt.resolve_right hne, hnot⟩, hne⟩
  · rw [hgenerated.liveIds, Finset.mem_insert] at hi
    rcases hi with rfl | hi
    · exact ⟨addr, _, hgenerated.data, hgenerated.new, rfl⟩
    · obtain ⟨a, d, hdata, hd, hid⟩ := h.relay i hi
      refine ⟨a, d, ?_, ?_, hid⟩
      · rw [hgenerated.items i hi, hdata]
      · rw [hgenerated.heap a (h.ne_of_fresh hfresh hi hdata), hd]

/-- `gen_relay` makes an entry with an id that was not live. -/
theorem genRelay_spec (h : Consistent m) (hgen : m.genRelay addr = some m') :
    Consistent m' ∧ ∃ id, Generated m m' id addr := by
  obtain ⟨hfresh, id, m₁, hm₁, rfl⟩ := prepared_of_genRelay h hgen
  exact ⟨hm₁.consistent h hfresh, id, hm₁.generated hfresh⟩

/-- The other relays stay what they were. -/
theorem Generated.relay (h : Consistent m) (hgen : Generated m m' id addr) {i : ℕ}
    (hi : i ∈ m.liveIds) : m'.relay i = m.relay i := by
  obtain ⟨a, d, hdata, -⟩ := h.relay i hi
  rw [RelayManager.relay, RelayManager.relay, hgen.items i hi, hdata]
  exact hgen.heap a (h.ne_of_fresh hgen.fresh hi hdata)

/-! ## `remove_relay` -/

/-- What `remove_relay` does for an id that is live: its entry is gone, and its object
    freed. -/
structure Removed (m m' : RelayManager) (id addr : ℕ) : Prop where
  mem : id ∈ m.liveIds
  data : (m.items id).data = some addr
  liveIds : m'.liveIds = m.liveIds.erase id
  items : ∀ i, i ≠ id → m'.items i = m.items i
  freed : m'.heap addr = none
  heap : ∀ a, a ≠ addr → m'.heap a = m.heap a
  registrations : m'.registrations = m.registrations

theorem removeRelay_of_notMem (hid : id ∉ m.liveIds) : m.removeRelay id = (false, m) := by
  refine if_pos ?_
  by_contra hnot
  obtain ⟨hlive, hlt⟩ := not_or.1 hnot
  exact hid (mem_liveIds.2 ⟨Nat.lt_of_not_le hlt, Bool.of_not_eq_false hlive⟩)

section Live

variable (hid : id ∈ m.liveIds)

include hid

theorem removeRelay_branch : ¬ ((m.items id).itemExists = false ∨ m.itemsLength ≤ id) := by
  obtain ⟨hlt, hlive⟩ := mem_liveIds.1 hid
  rw [hlive]
  exact not_or.2 ⟨nofun, Nat.not_le.2 hlt⟩

theorem removeRelay_fst : (m.removeRelay id).1 = true := by
  rw [removeRelay, if_neg (removeRelay_branch hid)]

theorem removeRelay_items : (m.removeRelay id).2.items = m.items.set id ⟨false, none⟩ := by
  rw [removeRelay, if_neg (removeRelay_branch hid)]

theorem removeRelay_itemsLength : (m.removeRelay id).2.itemsLength = m.itemsLength := by
  rw [removeRelay, if_neg (removeRelay_branch hid)]

theorem removeRelay_maxItemIndex : (m.removeRelay id).2.maxItemIndex = m.maxItemIndex := by
  rw [removeRelay, if_neg (removeRelay_branch hid)]

theorem removeRelay_stackLength : (m.removeRelay id).2.stackLength =
    if m.stackLength ≤ m.maxStackIndex then m.stackLength * 2 % 2 ^ 32 else m.stackLength := by
  rw [removeRelay, if_neg (removeRelay_branch hid)]

theorem removeRelay_maxStackIndex :
    (m.removeRelay id).2.maxStackIndex = (m.maxStackIndex + 1) % 2 ^ 32 := by
  rw [removeRelay, if_neg (removeRelay_branch hid)]

theorem removeRelay_removedIdStack :
    (m.removeRelay id).2.removedIdStack = m.removedIdStack.set m.maxStackIndex id := by
  rw [removeRelay, if_neg (removeRelay_branch hid)]

theorem removeRelay_registrations : (m.removeRelay id).2.registrations = m.registrations := by
  rw [removeRelay, if_neg (removeRelay_branch hid)]

theorem removeRelay_heap (hdata : (m.items id).data = some addr) :
    (m.removeRelay id).2.heap = m.heap.set addr none := by
  rw [removeRelay, if_neg (removeRelay_branch hid)]
  simp only [hdata]

theorem removeRelay_liveIds : (m.removeRelay id).2.liveIds = m.liveIds.erase id := by
  ext i
  rw [mem_liveIds, Finset.mem_erase, mem_liveIds, removeRelay_items hid,
    removeRelay_itemsLength hid]
  by_cases hi : i = id
  · subst hi
    rw [set_self]
    exact iff_of_false (fun hboth => by cases hboth.2) fun hboth => hboth.1 rfl
  · rw [set_of_ne _ hi]
    exact (and_iff_right hi).symm

end Live

theorem removed_removeRelay (h : Consistent m) (hid : id ∈ m.liveIds) :
    ∃ addr, Removed m (m.removeRelay id).2 id addr := by
  obtain ⟨addr, d, hdata, -⟩ := h.relay id hid
  refine ⟨addr, hid, hdata, removeRelay_liveIds hid, fun i hi => ?_, ?_, fun a ha => ?_,
    removeRelay_registrations hid⟩
  · rw [removeRelay_items hid, set_of_ne _ hi]
  · rw [removeRelay_heap hid hdata, set_self]
  · rw [removeRelay_heap hid hdata, set_of_ne _ ha]

theorem Removed.ne (h : Consistent m) (hremove : Removed m m' id addr) {i a : ℕ}
    (hi : i ∈ m.liveIds) (hne : i ≠ id) (hdata : (m.items i).data = some a) : a ≠ addr := by
  rintro rfl
  exact hne (h.eq_of_data_eq hi hremove.mem hdata hremove.data)

/-- The other relays stay what they were. -/
theorem Removed.relay (h : Consistent m) (hremove : Removed m m' id addr) {i : ℕ}
    (hi : i ∈ m.liveIds) (hne : i ≠ id) : m'.relay i = m.relay i := by
  obtain ⟨a, d, hdata, -⟩ := h.relay i hi
  rw [RelayManager.relay, RelayManager.relay, hremove.items i hne, hdata]
  exact hremove.heap a (hremove.ne h hi hne hdata)

/-- The stack never overflows, as less than `2 ^ 31` ids are free while one is live. -/
theorem Consistent.maxStackIndex_lt (h : Consistent m) (hid : id ∈ m.liveIds) :
    m.maxStackIndex < 2 ^ 31 := by
  have hcard := h.card_liveIds_add
  have hpos : 0 < m.liveIds.card := Finset.card_pos.2 ⟨id, hid⟩
  have hmax := h.max_le.trans h.itemsLength_le
  omega

theorem Consistent.freeIds_removeRelay (h : Consistent m) (hid : id ∈ m.liveIds) :
    (m.removeRelay id).2.freeIds = m.freeIds ++ [id] := by
  rw [freeIds, removeRelay_maxStackIndex hid, removeRelay_removedIdStack hid,
    succ_mod_of_le (h.maxStackIndex_lt hid).le]
  exact read_set_succ _ _ _

theorem Consistent.stackLength_removeRelay (h : Consistent m) (hid : id ∈ m.liveIds) :
    (∃ k ≤ 31, (m.removeRelay id).2.stackLength = 2 ^ k) ∧
      (m.removeRelay id).2.maxStackIndex ≤ (m.removeRelay id).2.stackLength := by
  obtain ⟨k, hk, hpow⟩ := h.stackLength
  have hlt := h.maxStackIndex_lt hid
  rw [removeRelay_maxStackIndex hid, removeRelay_stackLength hid, succ_mod_of_le hlt.le]
  split_ifs with hfull
  · rw [hpow] at hfull
    have hexp : k < 31 := (Nat.pow_lt_pow_iff_right (by decide)).1 (hfull.trans_lt hlt)
    have hdouble : m.stackLength * 2 % 2 ^ 32 = 2 ^ (k + 1) := by
      rw [hpow, ← Nat.pow_succ]
      exact Nat.mod_eq_of_lt (Nat.pow_lt_pow_right (by decide) (Nat.succ_lt_succ hexp))
    refine ⟨⟨k + 1, hexp, hdouble⟩, ?_⟩
    have hle := h.stack_le
    have hpos := Nat.two_pow_pos k
    rw [hdouble, Nat.pow_succ]
    omega
  · exact ⟨⟨k, hk, hpow⟩, Nat.lt_of_not_le hfull⟩

theorem Consistent.removeRelay (h : Consistent m) (id : ℕ) : Consistent (m.removeRelay id).2 := by
  by_cases hid : id ∈ m.liveIds
  · obtain ⟨addr, hremove⟩ := removed_removeRelay h hid
    obtain ⟨hlength, hstack⟩ := h.stackLength_removeRelay hid
    -- A live id is not on the stack yet, so pushing it keeps the ids there distinct.
    have hnot : id ∉ m.freeIds := fun hmem => ((h.mem_freeIds id).1 hmem).2 hid
    refine ⟨?_, hlength, ?_, hstack, fun i hi => ?_, ?_, fun i => ?_, fun i hi => ?_⟩
    · exact removeRelay_itemsLength hid ▸ h.itemsLength
    · rw [removeRelay_itemsLength hid, removeRelay_maxItemIndex hid]
      exact h.max_le
    · rw [hremove.liveIds, Finset.mem_erase] at hi
      exact removeRelay_maxItemIndex hid ▸ h.live_lt i hi.2
    · rw [h.freeIds_removeRelay hid]
      refine List.nodup_append.2 ⟨h.nodup, List.nodup_singleton id, ?_⟩
      rintro i hi _ hid' rfl
      exact hnot (List.mem_singleton.1 hid' ▸ hi)
    · rw [h.freeIds_removeRelay hid, hremove.liveIds, removeRelay_maxItemIndex hid,
        List.mem_append, List.mem_singleton, h.mem_freeIds, Finset.mem_erase]
      by_cases hi : i = id
      · subst hi
        exact iff_of_true (.inr rfl) ⟨h.live_lt i hid, fun hne => hne.1 rfl⟩
      · rw [or_iff_left hi, and_iff_right hi]
    · rw [hremove.liveIds, Finset.mem_erase] at hi
      obtain ⟨a, d, hdata, hd, hrelay⟩ := h.relay i hi.2
      refine ⟨a, d, ?_, ?_, hrelay⟩
      · rw [hremove.items i hi.1, hdata]
      · rw [hremove.heap a (hremove.ne h hi.2 hi.1 hdata), hd]
  · rw [removeRelay_of_notMem hid]
    exact h

/-- Writing a descriptor changes no entry. -/
theorem Consistent.describe (h : Consistent m) (addr : ℕ) (descriptor : RelayDescriptor) :
    Consistent (m.describe addr descriptor) := by
  refine ⟨h.itemsLength, h.stackLength, h.max_le, h.stack_le, h.live_lt, h.nodup, h.mem_freeIds,
    fun i hi => ?_⟩
  obtain ⟨a, d, hdata, hd, hrelay⟩ := h.relay i hi
  by_cases ha : a = addr
  · subst ha
    refine ⟨a, { d with descriptor := descriptor }, hdata, ?_, hrelay⟩
    rw [describe_heap, set_self, hd, Option.map_some]
  · exact ⟨a, d, hdata, (set_of_ne _ ha _).trans hd, hrelay⟩

end RelayManager

end OnionRouter.Directory
