import OnionRouter.Client.StreamBuffers
import OnionRouter.Lib.Probe

/-!
# The stream tables

`stream_hashmap.c` of the client and `socket_hashmap.c` of the relay: the same hash
table of 2048 slots, with linear probing from `stream_id % 2048` on. The client keeps
a receive buffer for every stream, the end relay a socket.

The client draws the id of a new stream with `gen_stream_id`, from a counter that it
moves on to an id whose home slot is free, but not past it: an id that was drawn is
drawn again once its stream is gone.

* `genStreamId_spec`: the home slot of an id that is drawn is free.
* `streamHashmapInsert_spec`: so its entry is put there, and all entries of the
  client are in their home slots (`InPlace`).
* `allBuffers_remove`, `allBuffers_setBuffer`: what keeps a property of all receive
  buffers (`AllBuffers`).
-/

namespace OnionRouter.Streams

open Lib Client

/-! ## The tables -/

/-- The constant `HASHMAP_AMOUNT`. -/
def hashmapAmount : ℕ := 2048

/-- The slot of a `stream_id`, before the table goes around. -/
def home (streamId : UInt16) : ℕ := streamId.toNat

section Tables

variable {α : Type*} (map : Table UInt16 α)

/-- `socket_hashmap_find` of both tables: the entry, with its slot. -/
def socketHashmapFind (streamId : UInt16) : Option (ℕ × α) :=
  map.find hashmapAmount home streamId

/-- `socket_hashmap_insert` of both tables, with the data that it puts in the entry;
    `none` when it returns `NULL`. -/
def socketHashmapInsert (streamId : UInt16) (data : α) : Option (Table UInt16 α) :=
  map.insert hashmapAmount home streamId data

/-- `socket_hashmap_remove` of both tables, whose result no caller looks at. -/
def socketHashmapRemove (streamId : UInt16) : Table UInt16 α :=
  (map.erase hashmapAmount home streamId).getD map

/-- The slots of a table after `socket_hashmap_init`. -/
def socketHashmapInit : Table UInt16 α := fun _ => .empty

end Tables

/-- The `stream_data_t` of the client, and which connect command it was made for. -/
structure StreamData where
  recvBuffer : CircularBuffer
  connect : ℕ

/-- The table of the client. -/
abbrev StreamHashmap := Table UInt16 StreamData

/-- The table of the relay. A socket has the number of the connect command whose
    BEGIN it was opened for. -/
abbrev SocketHashmap := Table UInt16 ℕ

/-- `socket_hashmap_insert` of the client, with the memory of the new buffer. -/
def streamHashmapInsert (map : StreamHashmap) (streamId : UInt16) (memory : Memory UInt8)
    (connect : ℕ) : Option StreamHashmap :=
  socketHashmapInsert map streamId ⟨initStreamBuffer memory, connect⟩

/-- The loop of `gen_stream_id`; `none` when no slot is free, when it does not end. -/
def genLoop (map : StreamHashmap) : ℕ → UInt32 → Option UInt32
  | 0, _ => none
  | rounds + 1, streamId =>
    if (map (streamId.toNat % hashmapAmount)).isFilled then genLoop map rounds (streamId + 1)
    else some streamId

/-- `gen_stream_id`, given its static counter: the id that it returns, which is the
    counter afterwards. -/
def genStreamId (map : StreamHashmap) (counter : UInt32) : Option UInt32 :=
  genLoop map hashmapAmount counter

/-! ## Their entries -/

theorem hashmapAmount_pos : 0 < hashmapAmount := Nat.succ_pos _

section Entries

variable {α : Type*} {map map' : Table UInt16 α} {streamId : UInt16}

/-- What a table holds under an id. -/
def held (map : Table UInt16 α) (streamId : UInt16) : Multiset α :=
  Table.held hashmapAmount map streamId

/-- Lookups miss no entry. -/
def Sound (map : Table UInt16 α) : Prop := Table.PathFull hashmapAmount home map

@[simp] theorem held_socketHashmapInit : held (socketHashmapInit : Table UInt16 α) streamId = 0 :=
  Table.held_of_forall_ne fun _ _ _ h => by cases h

theorem sound_socketHashmapInit : Sound (socketHashmapInit : Table UInt16 α) :=
  fun _ _ _ _ h => by cases h

theorem find_eq_none_iff (hmap : Sound map) :
    socketHashmapFind map streamId = none ↔ held map streamId = 0 :=
  Table.find_eq_none_iff hashmapAmount_pos hmap

theorem mem_held_of_find {index : ℕ} {data : α}
    (h : socketHashmapFind map streamId = some (index, data)) : data ∈ held map streamId :=
  Table.mem_held_of_find hashmapAmount_pos
    (show map.find hashmapAmount home streamId = some (index, data) from h)

theorem held_insert {data : α} (h : socketHashmapInsert map streamId data = some map')
    (k : UInt16) : held map' k = if k = streamId then data ::ₘ held map k else held map k :=
  Table.held_insert hashmapAmount_pos h k

theorem sound_insert (hmap : Sound map) {data : α}
    (h : socketHashmapInsert map streamId data = some map') : Sound map' :=
  Table.PathFull.insert hashmapAmount_pos hmap h

theorem socketHashmapRemove_of_find (h : socketHashmapFind map streamId = none) :
    socketHashmapRemove map streamId = map := by
  rw [socketHashmapRemove, Table.erase,
    show map.find hashmapAmount home streamId = none from h, Option.map_none, Option.getD_none]

/-- A removal takes away an entry of its id, if there is one. -/
theorem held_remove (hmap : Sound map) (streamId : UInt16) :
    (∀ k, k ≠ streamId → held (socketHashmapRemove map streamId) k = held map k) ∧
      ((held map streamId = 0 ∧ held (socketHashmapRemove map streamId) streamId = 0) ∨
        ∃ d, held map streamId = d ::ₘ held (socketHashmapRemove map streamId) streamId) := by
  rw [socketHashmapRemove]
  cases herase : map.erase hashmapAmount home streamId with
  | none =>
    have hnone := (find_eq_none_iff hmap).1 (Option.map_eq_none_iff.1 herase)
    exact ⟨fun _ _ => rfl, .inl ⟨hnone, hnone⟩⟩
  | some map' =>
    obtain ⟨hheld, hother⟩ := Table.held_erase hashmapAmount_pos herase
    exact ⟨hother, .inr hheld⟩

theorem sound_remove (hmap : Sound map) (streamId : UInt16) :
    Sound (socketHashmapRemove map streamId) := by
  rw [socketHashmapRemove]
  cases herase : map.erase hashmapAmount home streamId with
  | none => exact hmap
  | some map' => exact Table.PathFull.erase hmap herase

end Entries

/-! ## The table of the client -/

/-- The entries of the client are in their home slots. -/
def InPlace (map : StreamHashmap) : Prop := Table.AtHome hashmapAmount home map

theorem InPlace.sound {map : StreamHashmap} (h : InPlace map) : Sound map :=
  Table.AtHome.pathFull hashmapAmount_pos h

theorem inPlace_socketHashmapInit : InPlace socketHashmapInit :=
  fun _ _ _ _ h => by cases h

theorem genLoop_spec {map : StreamHashmap} {rounds : ℕ} {counter drawn : UInt32}
    (h : genLoop map rounds counter = some drawn) :
    (map (drawn.toNat % hashmapAmount)).isFilled = false := by
  induction rounds generalizing counter with
  | zero => cases h
  | succ rounds ih =>
    rw [genLoop] at h
    split_ifs at h with hfilled
    · exact ih h
    · cases h
      exact Bool.eq_false_iff.2 hfilled

/-- The home slot of an id that was drawn is free. -/
theorem genStreamId_spec {map : StreamHashmap} {counter drawn : UInt32}
    (h : genStreamId map counter = some drawn) :
    (map (Table.start hashmapAmount home drawn.toUInt16)).isFilled = false := by
  have hslot : Table.start hashmapAmount home drawn.toUInt16 = drawn.toNat % hashmapAmount := by
    rw [Table.start, home, UInt32.toNat_toUInt16]
    exact Nat.mod_mod_of_dvd _ (by decide)
  rw [hslot]
  exact genLoop_spec h

/-- The client holds no stream under an id that it draws. -/
theorem held_of_genStreamId {map : StreamHashmap} (hmap : InPlace map) {counter drawn : UInt32}
    (h : genStreamId map counter = some drawn) : held map drawn.toUInt16 = 0 := by
  rw [held, Table.held_of_atHome hashmapAmount_pos hmap]
  exact Table.under_of_not_isFilled (genStreamId_spec h) _

/-- The entry of a new stream is put in its home slot. -/
theorem streamHashmapInsert_spec {map : StreamHashmap} (hmap : InPlace map)
    {counter drawn : UInt32} (h : genStreamId map counter = some drawn) (memory : Memory UInt8)
    (connect : ℕ) :
    ∃ map', streamHashmapInsert map drawn.toUInt16 memory connect = some map' ∧ InPlace map' ∧
      ∀ k, held map' k = if k = drawn.toUInt16 then
        ⟨initStreamBuffer memory, connect⟩ ::ₘ held map k else held map k := by
  have hinsert := Table.insert_of_free hashmapAmount_pos (genStreamId_spec h)
    (⟨initStreamBuffer memory, connect⟩ : StreamData)
  refine ⟨_, hinsert, ?_, held_insert hinsert⟩
  refine Table.AtHome.update hmap fun k d hk => ?_
  rw [(Slot.filled.inj hk).1]

theorem inPlace_remove {map : StreamHashmap} (hmap : InPlace map) (streamId : UInt16) :
    InPlace (socketHashmapRemove map streamId) := by
  rw [socketHashmapRemove]
  cases herase : map.erase hashmapAmount home streamId with
  | none => exact hmap
  | some map' =>
    obtain ⟨entry, -, rfl⟩ := Option.map_eq_some_iff.1 herase
    exact Table.AtHome.update hmap fun k d hk => by cases hk

/-- Changing the receive buffer of an entry. -/
def setBuffer (map : StreamHashmap) (index : ℕ) (streamId : UInt16) (data : StreamData)
    (buffer : CircularBuffer) : StreamHashmap :=
  map.set index (.filled streamId { data with recvBuffer := buffer })

/-- It leaves the streams as they are. -/
theorem setBuffer_spec {map : StreamHashmap} (hmap : InPlace map) {streamId : UInt16} {index : ℕ}
    {data : StreamData} (hfind : socketHashmapFind map streamId = some (index, data))
    (buffer : CircularBuffer) :
    InPlace (setBuffer map index streamId data buffer) ∧
      ∀ k, (held (setBuffer map index streamId data buffer) k).map StreamData.connect =
        (held map k).map StreamData.connect := by
  obtain ⟨hindex, hslot⟩ := Table.slot_of_find hashmapAmount_pos
    (show map.find hashmapAmount home streamId = some (index, data) from hfind)
  refine ⟨Table.AtHome.update hmap fun k d hk => ?_, fun k => ?_⟩
  · rw [← (Slot.filled.inj hk).1]
    exact hmap index hindex streamId data hslot
  · have hupdate := congrArg (Multiset.map StreamData.connect) (Table.held_update map k
      hindex (.filled streamId { data with recvBuffer := buffer }))
    rw [hslot, Multiset.map_add, Multiset.map_add] at hupdate
    by_cases hk : streamId = k
    · subst hk
      rw [Slot.under_filled_self, Slot.under_filled_self, Multiset.map_singleton,
        Multiset.map_singleton] at hupdate
      exact add_right_cancel hupdate
    · rw [Slot.under_filled_of_ne hk, Slot.under_filled_of_ne hk] at hupdate
      exact add_right_cancel hupdate

/-! ## The buffers of all streams -/

/-- What holds of the receive buffers of all streams. -/
abbrev AllBuffers (P : CircularBuffer → Prop) (map : StreamHashmap) : Prop :=
  Table.ForAll hashmapAmount (fun data => P data.recvBuffer) map

section AllBuffers

variable {P : CircularBuffer → Prop} {map : StreamHashmap} {streamId : UInt16}

theorem allBuffers_remove (hmap : AllBuffers P map) (streamId : UInt16) :
    AllBuffers P (socketHashmapRemove map streamId) := by
  rw [socketHashmapRemove]
  cases herase : map.erase hashmapAmount home streamId with
  | none => exact hmap
  | some map' => exact hmap.erase herase

theorem allBuffers_setBuffer (hmap : AllBuffers P map) {buffer : CircularBuffer} (hbuffer : P buffer)
    (index : ℕ) (streamId : UInt16) (data : StreamData) :
    AllBuffers P (setBuffer map index streamId data buffer) := by
  refine hmap.update index fun k d hk => ?_
  rwa [← (Slot.filled.inj hk).2]

theorem allBuffers_of_find (hmap : AllBuffers P map) {found : ℕ × StreamData}
    (hfind : socketHashmapFind map streamId = some found) : P found.2.recvBuffer :=
  hmap.of_find hashmapAmount_pos hfind

end AllBuffers

end OnionRouter.Streams
