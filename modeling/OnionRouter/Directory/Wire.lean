import OnionRouter.Directory.RelayHandler
import OnionRouter.Directory.RelayMap

/-!
# Messages to and from the directory

`server_net_structs.h`: the messages of the handshake, the requests and the responses. Each
is in front of a buffer of `SERVER_MSG_SIZE` bytes that was zeroed before; those behind the
handshake are encrypted. The relays, the clients and the server send and receive them by the
same functions.

* `recvServerMsg_serverMsg`, `recvEncServerMsg_sendEncServerMsg`: what is received is what
  was sent.
* `ofBytes_serverMsg`, `command_serverMsg`: and it is read as it was meant.
* `descriptors_relayMap`: also the list of relays, of which the client reads a number.
-/

namespace OnionRouter.Directory

open Crypto Lib Memory Net Protocol

/-! ## Buffers -/

/-- The number in the `len` bytes from the offset `off` on. -/
def numberAt (off len : ℕ) (buffer : List UInt8) : ℕ := ofBytesLE (slice off len buffer)

theorem length_serverMsg {data : List UInt8} (h : data.length ≤ serverMsgSize) :
    (serverMsg data).length = serverMsgSize := by
  rw [serverMsg, List.length_append, List.length_replicate]
  exact Nat.add_sub_cancel' h

/-- `recv_server_msg` gets what `send_server_msg` sent, whatever its buffer held. -/
theorem recvServerMsg_serverMsg {data : List UInt8} (h : data.length ≤ serverMsgSize)
    (buffer : List UInt8) : recvServerMsg buffer (serverMsg data) = some (serverMsg data) :=
  recvMsg_of_length_eq (by decide) id buffer (length_serverMsg h)

theorem sendEncServerMsg_eq (key : Block) {data : List UInt8} (h : data.length ≤ serverMsgSize) :
    sendEncServerMsg key data = symmetricEncrypt key (serverMsg data) :=
  onRange_zero _ (length_serverMsg h)

theorem length_sendEncServerMsg (key : Block) {data : List UInt8}
    (h : data.length ≤ serverMsgSize) : (sendEncServerMsg key data).length = serverMsgSize := by
  rw [sendEncServerMsg_eq key h, length_symmetricEncrypt, length_serverMsg h]

/-- `recv_enc_server_msg` gets what `send_enc_server_msg` sent under the same key. -/
theorem recvEncServerMsg_sendEncServerMsg (key : Block) {data : List UInt8}
    (h : data.length ≤ serverMsgSize) (buffer : List UInt8) :
    recvEncServerMsg key buffer (sendEncServerMsg key data) = some (serverMsg data) := by
  have hblocks : (serverMsg data).length % aesBytes = 0 := by
    rw [length_serverMsg h]
    rfl
  rw [recvEncServerMsg, recvMsg_of_length_eq (by decide) _ _ (length_sendEncServerMsg key h),
    onRange_zero _ (length_sendEncServerMsg key h), sendEncServerMsg_eq key h,
    symmetricDecrypt_symmetricEncrypt key hblocks]

/-! ## Fields -/

/-- A number that its bytes have room for is read back. -/
theorem ofBytesLE_numberBytes {n x : ℕ} (h : x < 256 ^ n) : ofBytesLE (numberBytes n x) = x := by
  have hle := length_toBytesLE_le h
  have hpad : numberBytes n x = toBytesLE x ++ List.replicate (n - (toBytesLE x).length) 0 := by
    rw [numberBytes, fieldBytes, List.take_append, List.take_of_length_le hle, List.take_replicate,
      Nat.min_eq_left (Nat.sub_le _ _)]
  rw [hpad, ofBytesLE_pad, ofBytesLE_toBytesLE]

@[simp] theorem length_numberBytes (n x : ℕ) : (numberBytes n x).length = n :=
  length_fieldBytes n _

theorem length_put16 (x : UInt16) : (put16 x).length = 2 := rfl

theorem fieldBytes_of_length_eq {n : ℕ} {field : List UInt8} (h : field.length = n) :
    fieldBytes n field = field := List.take_left' h

/-! ## The handshake -/

/-- `prot_server_user_types_t`, as far as there are such users. -/
inductive UserType
  | client
  | relay
  deriving DecidableEq

/-- The number of a user type on the wire. -/
def UserType.code : UserType → UInt8
  | client => 1
  | relay => 2

/-- A `server_handshake_request_t`. -/
structure HandshakeRequest where
  version : UInt16
  userType : UInt8
  flags : UInt8

/-- A `server_handshake_response_t`. -/
structure HandshakeResponse where
  g : UInt64
  p : List UInt8
  serverPubkey : List UInt8

/-- A `server_handshake_confirmation_t`. -/
structure HandshakeConfirmation where
  magic : List UInt8
  assignedId : UInt32
  timestamp : UInt64

/-- The constant `SERVER_HANDSHAKE_V1_MAGIC`, which is `"M0R1"`. -/
def serverHandshakeV1Magic : List UInt8 := [0x4D, 0x30, 0x52, 0x31]

def HandshakeRequest.bytes (request : HandshakeRequest) : List UInt8 :=
  numberBytes 2 request.version.toNat ++ [request.userType, request.flags]

def HandshakeRequest.ofBytes (buffer : List UInt8) : HandshakeRequest where
  version := UInt16.ofNat (numberAt 0 2 buffer)
  userType := buffer.getD 2 0
  flags := buffer.getD 3 0

def HandshakeResponse.bytes (response : HandshakeResponse) : List UInt8 :=
  numberBytes 8 response.g.toNat ++ fieldBytes asymmetricKeyBytes response.p ++
    fieldBytes asymmetricKeyBytes response.serverPubkey

def HandshakeResponse.ofBytes (buffer : List UInt8) : HandshakeResponse where
  g := UInt64.ofNat (numberAt 0 8 buffer)
  p := slice 8 asymmetricKeyBytes buffer
  serverPubkey := slice 264 asymmetricKeyBytes buffer

def HandshakeConfirmation.bytes (confirmation : HandshakeConfirmation) : List UInt8 :=
  fieldBytes 4 confirmation.magic ++ numberBytes 4 confirmation.assignedId.toNat ++
    numberBytes 8 confirmation.timestamp.toNat

def HandshakeConfirmation.ofBytes (buffer : List UInt8) : HandshakeConfirmation where
  magic := slice 0 4 buffer
  assignedId := UInt32.ofNat (numberAt 4 4 buffer)
  timestamp := UInt64.ofNat (numberAt 8 8 buffer)

/-- The `client_pubkey` of a `server_handshake_client_key_t`. -/
def clientPubkey (buffer : List UInt8) : List UInt8 := slice 0 asymmetricKeyBytes buffer

/-! ## Requests and responses -/

/-- `client_command_t`. -/
inductive ClientCommand
  | getRelayMap
  | exit

/-- The number of a command on the wire. -/
def ClientCommand.code : ClientCommand → UInt16
  | getRelayMap => 1
  | exit => 2

/-- The number of a response on the wire. -/
def ServerResponse.code : ServerResponse → ℕ
  | success => 0
  | baseError => 1

/-- A `server_relay_request_signup_t`. -/
def signupRequest (relayAddr : List UInt8) : List UInt8 :=
  put16 RelayCommand.signup.code ++ fieldBytes sockAddrSize relayAddr

/-- A `server_relay_request_signout_t`. -/
def signoutRequest (assignedId : ℕ) : List UInt8 :=
  put16 RelayCommand.signout.code ++ numberBytes 4 assignedId

/-- A `server_relay_response_base_t`, or a `server_client_response_base_t`. -/
def responseBase (timestamp : UInt64) (response : ServerResponse) (command : UInt16) : List UInt8 :=
  numberBytes 8 timestamp.toNat ++ numberBytes 4 response.code ++ numberBytes 2 command.toNat

/-- A `server_relay_response_signup_t`. -/
def signupResponse (timestamp : UInt64) (response : ServerResponse) (id : ℕ) : List UInt8 :=
  responseBase timestamp response RelayCommand.signup.code ++ numberBytes 8 id

/-- The `id` of a `server_relay_response_signup_t`, as far as it fits the `uint32_t` that it is
    stored to. -/
def responseId (buffer : List UInt8) : ℕ := numberAt 14 8 buffer % 2 ^ 32

/-- The `relay_amount` of a `server_client_response_map_t`. -/
def responseRelayAmount (buffer : List UInt8) : ℕ := numberAt 14 2 buffer

def RelayDescriptor.ofBytes (bytes : List UInt8) : RelayDescriptor where
  sockAddr := slice 0 sockAddrSize bytes
  publicKey := slice sockAddrSize asymmetricKeyBytes bytes

/-- The first `amount` of the `relays` of a `server_client_response_map_t`. -/
def responseRelays (buffer : List UInt8) (amount : ℕ) : List RelayDescriptor :=
  (List.range amount).map fun i =>
    .ofBytes (slice (16 + i * relayDescriptorSize) relayDescriptorSize buffer)

/-! ## What is read -/

theorem HandshakeRequest.length_bytes (request : HandshakeRequest) : request.bytes.length = 4 := by
  rw [bytes, List.length_append, length_numberBytes]
  rfl

theorem HandshakeResponse.length_bytes (response : HandshakeResponse) :
    response.bytes.length = 520 := by
  simp only [bytes, List.length_append, length_numberBytes, length_fieldBytes]
  rfl

theorem HandshakeConfirmation.length_bytes (confirmation : HandshakeConfirmation) :
    confirmation.bytes.length = 16 := by
  simp only [bytes, List.length_append, length_numberBytes, length_fieldBytes]

theorem length_signupRequest (relayAddr : List UInt8) : (signupRequest relayAddr).length = 22 := by
  rw [signupRequest, List.length_append, length_fieldBytes]
  rfl

theorem length_signoutRequest (id : ℕ) : (signoutRequest id).length = 6 := by
  rw [signoutRequest, List.length_append, length_numberBytes]
  rfl

theorem length_responseBase (timestamp : UInt64) (response : ServerResponse) (command : UInt16) :
    (responseBase timestamp response command).length = 14 := by
  simp only [responseBase, List.length_append, length_numberBytes]

theorem length_signupResponse (timestamp : UInt64) (response : ServerResponse) (id : ℕ) :
    (signupResponse timestamp response id).length = 22 := by
  rw [signupResponse, List.length_append, length_responseBase, length_numberBytes]

/-- The field in front of a message. -/
theorem slice_serverMsg_zero {a b : List UInt8} {len : ℕ} (h : a.length = len) :
    slice 0 len (serverMsg (a ++ b)) = a := by
  rw [serverMsg, List.append_assoc, slice_zero_append h]

/-- A field in the middle of a message. -/
theorem slice_serverMsg {a b c : List UInt8} {off len : ℕ} (ha : a.length = off)
    (hb : b.length = len) : slice off len (serverMsg (a ++ b ++ c)) = b := by
  rw [serverMsg, List.append_assoc, List.append_assoc, slice_append_of_le ha.le, ha, Nat.sub_self,
    slice_zero_append hb]

/-- The last field of a message. -/
theorem slice_serverMsg_last {a b : List UInt8} {off len : ℕ} (ha : a.length = off)
    (hb : b.length = len) : slice off len (serverMsg (a ++ b)) = b := by
  have h := slice_serverMsg (c := []) ha hb
  rwa [List.append_nil] at h

theorem HandshakeRequest.ofBytes_serverMsg (request : HandshakeRequest) :
    ofBytes (serverMsg request.bytes) = request := by
  have hversion : numberAt 0 2 (serverMsg request.bytes) = request.version.toNat := by
    rw [numberAt, bytes, slice_serverMsg_zero (length_numberBytes 2 _),
      ofBytesLE_numberBytes request.version.toNat_lt]
  have hget : ∀ i, (serverMsg request.bytes)[2 + i]? =
      (request.userType :: request.flags :: List.replicate 4092 0)[i]? := by
    intro i
    rw [serverMsg, length_bytes, bytes, List.append_assoc, List.getElem?_append_right
      (by rw [length_numberBytes]; exact Nat.le_add_right 2 i), length_numberBytes,
      Nat.add_sub_cancel_left]
    rfl
  rw [ofBytes, hversion, UInt16.ofNat_toNat, List.getD_eq_getElem?_getD,
    List.getD_eq_getElem?_getD, hget 0, hget 1]
  rfl

theorem HandshakeResponse.ofBytes_serverMsg {response : HandshakeResponse}
    (hp : response.p.length = asymmetricKeyBytes)
    (hkey : response.serverPubkey.length = asymmetricKeyBytes) :
    ofBytes (serverMsg response.bytes) = response := by
  have hfields : response.bytes =
      numberBytes 8 response.g.toNat ++ response.p ++ response.serverPubkey := by
    rw [bytes, fieldBytes_of_length_eq hp, fieldBytes_of_length_eq hkey]
  have hg : numberAt 0 8 (serverMsg response.bytes) = response.g.toNat := by
    rw [numberAt, hfields, List.append_assoc, slice_serverMsg_zero (length_numberBytes 8 _),
      ofBytesLE_numberBytes response.g.toNat_lt]
  have hp' : slice 8 asymmetricKeyBytes (serverMsg response.bytes) = response.p := by
    rw [hfields, slice_serverMsg (length_numberBytes 8 _) hp]
  have hkey' : slice 264 asymmetricKeyBytes (serverMsg response.bytes) = response.serverPubkey := by
    have hfront : (numberBytes 8 response.g.toNat ++ response.p).length = 264 := by
      rw [List.length_append, length_numberBytes, hp]
      rfl
    rw [hfields, slice_serverMsg_last hfront hkey]
  rw [ofBytes, hg, hp', hkey', UInt64.ofNat_toNat]

theorem HandshakeConfirmation.ofBytes_serverMsg {confirmation : HandshakeConfirmation}
    (hmagic : confirmation.magic.length = 4) :
    ofBytes (serverMsg confirmation.bytes) = confirmation := by
  have hfields : confirmation.bytes = confirmation.magic ++
      numberBytes 4 confirmation.assignedId.toNat ++ numberBytes 8 confirmation.timestamp.toNat := by
    rw [bytes, fieldBytes_of_length_eq hmagic]
  have hmagic' : slice 0 4 (serverMsg confirmation.bytes) = confirmation.magic := by
    rw [hfields, List.append_assoc, slice_serverMsg_zero hmagic]
  have hid : numberAt 4 4 (serverMsg confirmation.bytes) = confirmation.assignedId.toNat := by
    rw [numberAt, hfields, slice_serverMsg hmagic (length_numberBytes 4 _),
      ofBytesLE_numberBytes confirmation.assignedId.toNat_lt]
  have htimestamp : numberAt 8 8 (serverMsg confirmation.bytes) = confirmation.timestamp.toNat := by
    have hfront : (confirmation.magic ++ numberBytes 4 confirmation.assignedId.toNat).length = 8 := by
      rw [List.length_append, length_numberBytes, hmagic]
    rw [numberAt, hfields, slice_serverMsg_last hfront (length_numberBytes 8 _),
      ofBytesLE_numberBytes confirmation.timestamp.toNat_lt]
  rw [ofBytes, hmagic', hid, htimestamp, UInt32.ofNat_toNat, UInt64.ofNat_toNat]

theorem clientPubkey_serverMsg {key : List UInt8} (h : key.length = asymmetricKeyBytes) :
    clientPubkey (serverMsg key) = key := by
  have hslice := slice_serverMsg_zero (b := []) h
  rwa [List.append_nil] at hslice

/-- The command of a request. -/
theorem command_serverMsg (code : UInt16) (rest : List UInt8) :
    command (ofCell (serverMsg (put16 code ++ rest))) = code :=
  get16_of_put16 rfl rfl

/-- What is read of a buffer from an offset on. -/
theorem read_ofCell {l : List UInt8} {off len : ℕ} (h : off + len ≤ l.length) :
    (ofCell l).read off len = slice off len l := by
  refine List.ext_getElem ?_ fun i hi hi' => ?_
  · rw [length_read, length_slice h]
  · rw [length_read] at hi
    rw [getElem_read, ofCell, List.getD_eq_getElem?_getD, List.getElem?_eq_getElem (by omega),
      Option.getD_some]
    simp only [slice, List.getElem_take, List.getElem_drop]

theorem relayAddr_serverMsg {relayAddr : List UInt8} (h : relayAddr.length = sockAddrSize) :
    Directory.relayAddr (ofCell (serverMsg (signupRequest relayAddr))) = relayAddr := by
  have hsize : (serverMsg (signupRequest relayAddr)).length = serverMsgSize :=
    length_serverMsg ((length_signupRequest relayAddr).trans_le (by decide))
  rw [Directory.relayAddr, read_ofCell (by rw [hsize]; decide), signupRequest,
    fieldBytes_of_length_eq h, slice_serverMsg_last (length_put16 _) h]

theorem assignedId_serverMsg {id : ℕ} (h : id < 2 ^ 32) :
    assignedId (ofCell (serverMsg (signoutRequest id))) = id := by
  have hsize : (serverMsg (signoutRequest id)).length = serverMsgSize :=
    length_serverMsg ((length_signoutRequest id).trans_le (by decide))
  rw [assignedId, read_ofCell (by rw [hsize]; decide), signoutRequest,
    slice_serverMsg_last (length_put16 _) (length_numberBytes 4 _), ofBytesLE_numberBytes h]

theorem responseId_serverMsg (timestamp : UInt64) (response : ServerResponse) {id : ℕ}
    (h : id < 2 ^ 32) : responseId (serverMsg (signupResponse timestamp response id)) = id := by
  rw [responseId, numberAt, signupResponse, slice_serverMsg_last (length_responseBase _ _ _)
    (length_numberBytes 8 _), ofBytesLE_numberBytes (h.trans (by decide)), Nat.mod_eq_of_lt h]

/-! ## The list of relays -/

/-- A descriptor whose fields fill the bytes that they have. -/
structure RelayDescriptor.WellFormed (d : RelayDescriptor) : Prop where
  sockAddr : d.sockAddr.length = sockAddrSize
  publicKey : d.publicKey.length = asymmetricKeyBytes

theorem RelayDescriptor.ofBytes_bytes {d : RelayDescriptor} (h : d.WellFormed) :
    ofBytes d.bytes = d := by
  rw [bytes, fieldBytes_of_length_eq h.sockAddr, fieldBytes_of_length_eq h.publicKey, ofBytes,
    slice_zero_append h.sockAddr, slice_append_of_le h.sockAddr.le, h.sockAddr, Nat.sub_self, slice,
    List.drop_zero, List.take_of_length_le h.publicKey.le]

/-- Every relay of a batch is where the client reads it. By induction on the relays. -/
theorem read_relayStores (relays : List RelayData) (found : ℕ) (list : Memory UInt8) {i : ℕ}
    (hi : i < relays.length) :
    ((relayStores found relays).write list).read
      (relaysOffset + (found + i) * relayDescriptorSize) relayDescriptorSize =
        relays[i].descriptor.bytes := by
  induction relays generalizing found list i with
  | nil => cases hi
  | cons data relays ih =>
    rw [relayStores, Stores.write_cons]
    cases i with
    | zero =>
      -- The relays behind it are written elsewhere.
      have hkeep : ∀ m : Memory UInt8, ((relayStores (found + 1) relays).write m).read
          (relaysOffset + found * relayDescriptorSize) relayDescriptorSize =
            m.read (relaysOffset + found * relayDescriptorSize) relayDescriptorSize := by
        intro m
        refine read_congr _ _ _ fun j hj => Stores.write_of_not_writesTo ?_ m
        rw [writesTo_relayStores, Nat.succ_mul]
        omega
      exact (hkeep _).trans (read_write_of_length_eq _ _ _ (RelayDescriptor.length_bytes _))
    | succ i =>
      rw [show found + (i + 1) = found + 1 + i by omega]
      exact ih (found + 1) _ (Nat.lt_of_succ_lt_succ hi)

section List

variable {relays : List RelayData} (timestamp : UInt64) (list : Memory UInt8)

/-- The number of relays is written last. -/
theorem write_relayListStores (relays : List RelayData) (list : Memory UInt8) :
    (relayListStores relays).write list =
      ((relayStores 0 relays).write list).write 0 (put16 (UInt16.ofNat relays.length)) := by
  rw [relayListStores, Stores.write, List.foldl_append]
  rfl

/-- The number of relays is read back, as it has 16 bits. -/
theorem responseRelayAmount_relayMap (h : relays.length ≤ serverRelaysMapAmount) :
    responseRelayAmount (serverMsg (responseMap timestamp ((relayListStores relays).write list))) =
      relays.length := by
  have hlt : relays.length < 2 ^ 16 := h.trans_lt (by decide)
  have hstored : ((relayListStores relays).write list).read 0 relaysOffset =
      put16 (UInt16.ofNat relays.length) := by
    rw [write_relayListStores]
    exact read_write_of_length_eq _ _ _ (length_put16 _)
  have hfront : (numberBytes 8 timestamp.toNat ++ numberBytes 4 serverResponseSuccess ++
      numberBytes 2 clientCommandGetRelayMap).length = 14 := by
    simp only [List.length_append, length_numberBytes]
  rw [responseRelayAmount, numberAt, responseMap, hstored, slice_serverMsg hfront (length_put16 _),
    put16, ofBytesLE_cons, ofBytesLE_cons, ofBytesLE_nil, UInt16.toNat_ofNat_of_lt' hlt,
    UInt8.toNat_ofNat', UInt8.toNat_ofNat']
  omega

/-- The client reads as many descriptors as it wants, if there are as many. -/
theorem descriptors_relayMap (h : relays.length ≤ serverRelaysMapAmount)
    (hformed : ∀ data ∈ relays, data.descriptor.WellFormed) {amount : ℕ}
    (hamount : amount ≤ relays.length) :
    responseRelays (serverMsg (responseMap timestamp ((relayListStores relays).write list)))
      amount = (relays.take amount).map RelayData.descriptor := by
  refine List.ext_getElem ?_ fun i hi hi' => ?_
  · rw [responseRelays, List.length_map, List.length_range, List.length_map, List.length_take,
      Nat.min_eq_left hamount]
  · rw [responseRelays, List.length_map, List.length_range] at hi
    have hlt : i < relays.length := hi.trans_le hamount
    have hroom : (i + 1) * relayDescriptorSize ≤ serverRelaysMapAmount * relayDescriptorSize :=
      Nat.mul_le_mul_right _ (Nat.succ_le_of_lt (hlt.trans_le h))
    have hsucc : (i + 1) * relayDescriptorSize = i * relayDescriptorSize + relayDescriptorSize :=
      Nat.succ_mul _ _
    have hoffset : relaysOffset = 2 := rfl
    have hfront : (numberBytes 8 timestamp.toNat ++ numberBytes 4 serverResponseSuccess ++
        numberBytes 2 clientCommandGetRelayMap ++
          ((relayListStores relays).write list).read 0 relaysOffset).length = 16 := by
      simp only [List.length_append, length_numberBytes, length_read, hoffset]
    -- The relay in the response, in the list, and among those that were copied.
    have hresponse : slice (16 + i * relayDescriptorSize) relayDescriptorSize
        (serverMsg (responseMap timestamp ((relayListStores relays).write list))) =
          ((relayListStores relays).write list).read (relaysOffset + i * relayDescriptorSize)
            relayDescriptorSize := by
      rw [serverMsg, responseMap, slice_append_left, slice_append_of_le, hfront,
        Nat.add_sub_cancel_left]
      · refine List.ext_getElem ?_ fun j hj hj' => ?_
        · rw [length_slice (by rw [length_read]; omega), length_read]
        · simp only [slice, List.getElem_take, List.getElem_drop, getElem_read]
          congr 1
          omega
      · rw [hfront]
        omega
      · rw [List.length_append, hfront, length_read]
        omega
    have hlist : ((relayListStores relays).write list).read
        (relaysOffset + i * relayDescriptorSize) relayDescriptorSize =
          relays[i].descriptor.bytes := by
      have hstore := read_relayStores relays 0 list hlt
      rw [Nat.zero_add] at hstore
      rw [write_relayListStores, ← hstore]
      refine read_write_of_disjoint _ _ _ (.inr ?_)
      rw [length_put16]
      omega
    simp only [responseRelays, List.getElem_map, List.getElem_range, hresponse, hlist,
      RelayDescriptor.ofBytes_bytes (hformed _ (List.getElem_mem hlt)), List.getElem_take]

end List

end OnionRouter.Directory
