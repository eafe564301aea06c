import OnionRouter.Directory.Paging
import OnionRouter.Protocol.Overwrite

/-!
# The relay-map response

`handle_get_relay_map` lets `get_relay_batch` fill in the `relay_list` on its stack, and
`send_enc_client_relay_map` copies all of it to the response. A directory with fewer relays
than the list has room for leaves the rest of the list as it was.

* `covers_relayListStores_iff`: which batches fill the list.
* `forall_relayMapMsg_eq_iff`: which directories hide what was in the list before.
-/

namespace OnionRouter.Directory

open Lib Memory Net Protocol RelayManager

/-! ## The list -/

/-- The bytes of a field of `n` bytes. -/
def fieldBytes (n : ℕ) (field : List UInt8) : List UInt8 := (field ++ List.replicate n 0).take n

@[simp] theorem length_fieldBytes (n : ℕ) (field : List UInt8) : (fieldBytes n field).length = n := by
  rw [fieldBytes, List.length_take, List.length_append, List.length_replicate]
  exact Nat.min_eq_left (Nat.le_add_left n _)

/-- The size of a `relay_descriptor_t`. -/
def relayDescriptorSize : ℕ := sockAddrSize + asymmetricKeyBytes

/-- The bytes of a `relay_descriptor_t`. -/
def RelayDescriptor.bytes (d : RelayDescriptor) : List UInt8 :=
  fieldBytes sockAddrSize d.sockAddr ++ fieldBytes asymmetricKeyBytes d.publicKey

@[simp] theorem RelayDescriptor.length_bytes (d : RelayDescriptor) :
    d.bytes.length = relayDescriptorSize := by
  rw [bytes, List.length_append, length_fieldBytes, length_fieldBytes, relayDescriptorSize]

/-- The offset of `relays` in a `server_relay_list_t`, behind `relay_amount`. -/
def relaysOffset : ℕ := 2

/-- The size of a `server_relay_list_t`. -/
def serverRelayListSize : ℕ := relaysOffset + serverRelaysMapAmount * relayDescriptorSize

/-- What `get_relay_batch` writes to `out`, from the index `found` on. -/
def relayStores (found : ℕ) : List RelayData → Stores
  | [] => []
  | data :: relays =>
    (relaysOffset + found * relayDescriptorSize, data.descriptor.bytes) ::
      relayStores (found + 1) relays

/-- What `handle_get_relay_map` writes to `relay_list`. -/
def relayListStores (relays : List RelayData) : Stores :=
  relayStores 0 relays ++ [(0, put16 (UInt16.ofNat relays.length))]

/-! ## The response -/

/-- The bytes of a number of `n` bytes. -/
def numberBytes (n x : ℕ) : List UInt8 := fieldBytes n (toBytesLE x)

/-- The constant `CLIENT_COMMAND_GET_RELAY_MAP`. -/
def clientCommandGetRelayMap : ℕ := 1

/-- The constant `server_response_success`. -/
def serverResponseSuccess : ℕ := 0

/-- What `send_enc_server_msg` encrypts: the data, and zeros behind them. -/
def serverMsg (data : List UInt8) : List UInt8 :=
  data ++ List.replicate (serverMsgSize - data.length) 0

/-- The `server_client_response_map_t` of `send_enc_client_relay_map`, with the `timestamp`
    and the list it is given. -/
def responseMap (timestamp : UInt64) (list : Memory UInt8) : List UInt8 :=
  numberBytes 8 timestamp.toNat ++ numberBytes 4 serverResponseSuccess ++
    numberBytes 2 clientCommandGetRelayMap ++ list.read 0 relaysOffset ++
      list.read relaysOffset (serverRelaysMapAmount * relayDescriptorSize)

/-- The message of `handle_get_relay_map`, before it is encrypted, where `relay_list` held
    `list` before. -/
def relayMapMsg (m : RelayManager) (relayStart : ℕ) (timestamp : UInt64) (list : Memory UInt8) :
    Option (List UInt8) := do
  let (relays, _) ← handleGetRelayMap m relayStart
  return serverMsg (responseMap timestamp ((relayListStores relays).write list))

/-! ## What is filled in -/

/-- The relays of a batch are written one behind the other. By induction on the relays. -/
theorem writesTo_relayStores {found a : ℕ} (relays : List RelayData) :
    (relayStores found relays).WritesTo a ↔
      relaysOffset + found * relayDescriptorSize ≤ a ∧
        a < relaysOffset + (found + relays.length) * relayDescriptorSize := by
  induction relays generalizing found with
  | nil =>
    refine iff_of_false ?_ fun h => ?_
    · rintro ⟨store, hstore, -⟩
      cases hstore
    · rw [List.length_nil, Nat.add_zero] at h
      exact h.2.not_ge h.1
  | cons data relays ih =>
    have hnext : (found + 1) * relayDescriptorSize = found * relayDescriptorSize + relayDescriptorSize :=
      Nat.succ_mul _ _
    have hend : (found + (relays.length + 1)) * relayDescriptorSize =
        found * relayDescriptorSize + (relays.length + 1) * relayDescriptorSize := Nat.add_mul _ _ _
    have hend' : (found + 1 + relays.length) * relayDescriptorSize =
        found * relayDescriptorSize + (relays.length + 1) * relayDescriptorSize := by
      rw [Nat.add_assoc, Nat.add_comm 1, hend]
    have hrest : relayDescriptorSize ≤ (relays.length + 1) * relayDescriptorSize :=
      Nat.le_mul_of_pos_left _ (Nat.succ_pos _)
    rw [relayStores, Stores.writesTo_cons, ih, RelayDescriptor.length_bytes, List.length_cons,
      hnext, hend, hend']
    omega

/-- A batch fills the list when it has as many relays as there is room for. -/
theorem covers_relayListStores_iff (relays : List RelayData) :
    (relayListStores relays).Covers 0 serverRelayListSize ↔
      serverRelaysMapAmount ≤ relays.length := by
  have hamount : ∀ a, Stores.WritesTo [(0, put16 (UInt16.ofNat relays.length))] a ↔ a < 2 := by
    intro a
    simp [Stores.WritesTo, put16]
  have hdescriptor : relayDescriptorSize = 276 := rfl
  have hoffset : relaysOffset = 2 := rfl
  have hroom : serverRelaysMapAmount = 14 := rfl
  simp only [Stores.Covers, relayListStores, Stores.writesTo_append, writesTo_relayStores, hamount,
    serverRelayListSize, hdescriptor, hoffset, hroom]
  constructor
  · intro h
    -- The last byte of the list.
    have hlast := h 3865 (by decide)
    omega
  · intro h i hi
    omega

/-! ## What is sent -/

theorem responseMap_eq_iff (timestamp : UInt64) (list list' : Memory UInt8) :
    responseMap timestamp list = responseMap timestamp list' ↔
      list.read 0 serverRelayListSize = list'.read 0 serverRelayListSize := by
  have hlist : ∀ l : Memory UInt8, responseMap timestamp l =
      (numberBytes 8 timestamp.toNat ++ numberBytes 4 serverResponseSuccess ++
        numberBytes 2 clientCommandGetRelayMap) ++ l.read 0 serverRelayListSize := by
    intro l
    rw [serverRelayListSize, read_add, Nat.zero_add, responseMap, List.append_assoc]
  rw [hlist, hlist, List.append_cancel_left_eq]

theorem length_responseMap (timestamp : UInt64) (list : Memory UInt8) :
    (responseMap timestamp list).length = 3880 := by
  simp only [responseMap, numberBytes, List.length_append, length_fieldBytes, length_read]
  rfl

/-- The message of a directory is the same whatever the list held before exactly when there
    are as many relays as it has room for. -/
theorem forall_relayMapMsg_eq_iff {m : RelayManager} (h : Consistent m) (relayStart : ℕ)
    (timestamp : UInt64) :
    (∀ list list', relayMapMsg m relayStart timestamp list =
        relayMapMsg m relayStart timestamp list') ↔
      serverRelaysMapAmount ≤ m.liveIds.card := by
  obtain ⟨out, hout, hobjects⟩ := getRelayBatch_spec h relayStart serverRelaysMapAmount
  have hlength : out.length = min serverRelaysMapAmount m.liveIds.card := by
    rw [hobjects.length, List.length_take, length_relaysFrom h]
  have hmsg : ∀ list, relayMapMsg m relayStart timestamp list =
      some (serverMsg (responseMap timestamp ((relayListStores out).write list))) := by
    intro list
    simp only [relayMapMsg, handleGetRelayMap, hout]
    rfl
  have hserver : ∀ list list', serverMsg (responseMap timestamp list) =
      serverMsg (responseMap timestamp list') ↔
        responseMap timestamp list = responseMap timestamp list' := by
    intro list list'
    rw [serverMsg, serverMsg, length_responseMap, length_responseMap, List.append_cancel_right_eq]
  simp only [hmsg, Option.some_inj, hserver, responseMap_eq_iff]
  rw [Stores.forall_read_eq_iff, covers_relayListStores_iff, hlength, Nat.le_min]
  exact and_iff_right le_rfl

end OnionRouter.Directory
