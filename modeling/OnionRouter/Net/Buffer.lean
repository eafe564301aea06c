import OnionRouter.Crypto.Encryptions

/-!
# Sending and receiving buffers

The `net` directories of the client, the relay and the server: what `read` leaves
in a buffer, and what is decrypted or encrypted in place before and after. A
buffer is the list of its bytes.

All receivers are one function (`recvMsg`), with the size they ask `read` for and
what they do to the buffer afterwards. A receiver fails when `read` returns no
byte, and is content with any other count.
-/

namespace OnionRouter.Net

open Crypto

/-- The constant `TOR_MSG_SIZE`. -/
def torMsgSize : ℕ := 512

/-- The constant `SERVER_MSG_SIZE`. -/
def serverMsgSize : ℕ := 4096

/-- The constant `ASYMMETRIC_KEY_BYTES`, the size of a `tls_key_buffer_t`. -/
def asymmetricKeyBytes : ℕ := 256

/-- Where the onion layers of a cell start: they leave `circ_id` and `cmd` in
    the clear. -/
def onionOffset : ℕ := 3

/-- Applying `f` in place to the `len` bytes from `data + off` on. -/
def onRange (off len : ℕ) (f : List UInt8 → List UInt8) (data : List UInt8) : List UInt8 :=
  data.take off ++ f ((data.drop off).take len) ++ data.drop (off + len)

/-! ## Receiving -/

/-- A `read` of up to `size` bytes into the buffer `data`, which got `got`, and
    what the receiver does to the buffer next; `none` when it returns `false`. -/
def recvMsg (size : ℕ) (decode : List UInt8 → List UInt8) (data got : List UInt8) :
    Option (List UInt8) :=
  if got.length = 0 then none
  else some (decode ((got ++ data.drop got.length).take size))

/-- `recv_tls_msg`. -/
def recvTlsMsg (data got : List UInt8) : Option (List UInt8) :=
  recvMsg asymmetricKeyBytes id data got

/-- `recv_server_msg`. -/
def recvServerMsg (data got : List UInt8) : Option (List UInt8) :=
  recvMsg serverMsgSize id data got

/-- `recv_enc_server_msg`. -/
def recvEncServerMsg (key : Block) (data got : List UInt8) : Option (List UInt8) :=
  recvMsg serverMsgSize (onRange 0 serverMsgSize (symmetricDecrypt key)) data got

/-- Decrypting the whole cell under the link key, if there is one. -/
def decryptLink (tlsKey : Option Block) (data : List UInt8) : List UInt8 :=
  match tlsKey with
  | some key => onRange 0 torMsgSize (symmetricDecrypt key) data
  | none => data

/-- Encrypting the whole cell under the link key, if there is one. -/
def encryptLink (tlsKey : Option Block) (data : List UInt8) : List UInt8 :=
  match tlsKey with
  | some key => onRange 0 torMsgSize (symmetricEncrypt key) data
  | none => data

/-- Taking one onion layer off a cell. -/
def decryptOnion (key : Block) (data : List UInt8) : List UInt8 :=
  onRange onionOffset (torMsgSize - onionOffset) (symmetricDecrypt key) data

/-- Putting one onion layer on a cell. -/
def encryptOnion (key : Block) (data : List UInt8) : List UInt8 :=
  onRange onionOffset (torMsgSize - onionOffset) (symmetricEncrypt key) data

namespace Client

/-- `recv_tor_buffer` of the client; `onionKey` are the first `onion_amount`
    keys, whose layers come off from the first to the last. -/
def recvTorBuffer (tlsKey : Option Block) (onionKey : List Block) (data got : List UInt8) :
    Option (List UInt8) :=
  recvMsg torMsgSize (fun data => Lib.unwrap decryptOnion onionKey (decryptLink tlsKey data))
    data got

/-- `send_tor_buffer` of the client: what it leaves in the buffer and hands to
    `send`. The onion layers are put on from the last key to the first. -/
def sendTorBuffer (tlsKey : Option Block) (onionKey : List Block) (data : List UInt8) :
    List UInt8 :=
  encryptLink tlsKey (Lib.wrap encryptOnion onionKey data)

end Client

namespace Relay

/-- `recv_tor_buffer` of the relay. -/
def recvTorBuffer (tlsKey onionKey : Option Block) (fromClient : Bool) (data got : List UInt8) :
    Option (List UInt8) :=
  recvMsg torMsgSize (fun data =>
    match onionKey, fromClient with
    | some key, true => decryptOnion key (decryptLink tlsKey data)
    | _, _ => decryptLink tlsKey data) data got

/-- `send_tor_buffer` of the relay: what it leaves in the buffer and hands to
    `send`. -/
def sendTorBuffer (tlsKey onionKey : Option Block) (toClient : Bool) (data : List UInt8) :
    List UInt8 :=
  match onionKey, toClient with
  | some key, true => encryptLink tlsKey (encryptOnion key data)
  | _, _ => encryptLink tlsKey data

end Relay

/-- `send_enc_server_msg`: the message in a zeroed buffer, encrypted. -/
def sendEncServerMsg (key : Block) (data : List UInt8) : List UInt8 :=
  onRange 0 serverMsgSize (symmetricEncrypt key)
    (data ++ List.replicate (serverMsgSize - data.length) 0)

/-! ## Whole messages -/

theorem recvMsg_of_length_eq {size : ℕ} (hsize : 0 < size) (decode : List UInt8 → List UInt8)
    (data : List UInt8) {got : List UInt8} (hgot : got.length = size) :
    recvMsg size decode data got = some (decode got) := by
  rw [recvMsg, if_neg (by omega), List.take_left' hgot]

theorem onRange_zero {len : ℕ} (f : List UInt8 → List UInt8) {data : List UInt8}
    (hdata : data.length = len) : onRange 0 len f data = f data := by
  simp [onRange, ← hdata]

theorem onRange_onion (f : List UInt8 → List UInt8) {data : List UInt8}
    (hdata : data.length = torMsgSize) : onRange onionOffset (torMsgSize - onionOffset) f data =
      data.take onionOffset ++ f (data.drop onionOffset) := by
  have hall : (data.drop onionOffset).length ≤ torMsgSize - onionOffset := by
    rw [List.length_drop, hdata]
  have hnone : data.drop (onionOffset + (torMsgSize - onionOffset)) = [] :=
    List.drop_eq_nil_of_le hdata.le
  rw [onRange, List.take_of_length_le hall, hnone, List.append_nil]

end OnionRouter.Net
