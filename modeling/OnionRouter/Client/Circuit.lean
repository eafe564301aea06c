import OnionRouter.Crypto.DiffieHellman
import OnionRouter.Directory.RelayManager
import OnionRouter.Protocol.Cell

/-!
# How the client builds a circuit

`run_client` from where it is connected to the first relay, and `process_client_session`
to the end of `create_relay_circuit`. As in the relays, what the client does from one
`read` to the next is a function of what was read (`ClientSession.recv`).
-/

namespace OnionRouter.Client

open Crypto Directory Net Protocol

/-- The constant `MAX_RELAYS`. -/
def maxRelays : ℕ := 5

/-- A `circuit_relay_list_t`; its `relay_amount` is the length of the list. -/
structure CircuitRelayList where
  relays : List RelayDescriptor
  length_relays : relays.length ≤ maxRelays

/-- `client_code_t`, as far as the client returns it. -/
inductive ClientCode
  | success
  | error
  | tlsError

/-- Where the client is. -/
inductive Waiting
  /-- In `handle_tls_sender`, for the public key of the first relay. -/
  | tlsKey
  /-- In `handle_create_message`. -/
  | created
  /-- In `create_relay_circuit`. -/
  | extended
  /-- The circuit was built, or it was not. -/
  | returned (code : ClientCode)
  | aborted

/-- A `client_session_t`, with `client_vars.id_key`, and the buffer of
    `process_client_session`. -/
structure ClientSession where
  waiting : Waiting
  idKey : IdentityKey
  onionKeys : List KeyData
  tlsKey : KeyData
  relays : CircuitRelayList
  curRelays : ℕ
  buffer : List UInt8

/-- The symmetric keys of the first `onion_amount` onion keys. -/
def ClientSession.layers (session : ClientSession) : List Block :=
  (session.onionKeys.take session.curRelays).map KeyData.symmetricKey

section Steps

variable (gmp : Gmp) (dh : DhGlobals)

/-- `init_session`, with the `relays` that `run_client` sets after it; `none` when it
    aborts. -/
def initSession (arrays : DeriveArrays) (idKey : IdentityKey) (relays : CircuitRelayList) :
    Option ClientSession := do
  let onionKeys ← relays.relays.mapM fun relay =>
    deriveSymmetricKeyFromPublic gmp dh arrays (initKey idKey) relay.publicKey
  return {
    waiting := .tlsKey
    idKey := idKey
    onionKeys := onionKeys
    tlsKey := initKey idKey
    relays := relays
    curRelays := 0
    buffer := List.replicate torMsgSize 0 }

variable (locals : Locals) (session : ClientSession)

/-- `create_relay_circuit`, from the condition of its loop to where it receives; what
    is sent. -/
def createRelayCircuit : ClientSession × List (List UInt8) :=
  match session.relays.relays[session.curRelays]? with
  | none => ({ session with waiting := .returned .success }, [])
  | some relay =>
    -- `tor_send_extend_msg`
    let publicKey := getPublicIdentityKey gmp session.idKey locals.res
    let sent := Client.sendTorBuffer (some session.tlsKey.symmetricKey) session.layers
      ((torSendExtendMsg publicKey relay.sockAddr).onCell session.buffer)
    ({ session with waiting := .extended, buffer := sent }, [sent])

/-- The rest of `handle_tls_sender`, and `handle_create_message` to where it receives. -/
def recvTlsKey (got : List UInt8) : ClientSession × List (List UInt8) :=
  match handleTlsSender gmp dh locals.arrays locals.res (recvTlsMsg locals.buffer got) true
    session.tlsKey with
  | none => ({ session with waiting := .aborted }, [])
  | some result =>
    if result.returned then
      -- `tor_send_create_msg`
      let publicKey := getPublicIdentityKey gmp session.idKey locals.res
      let sent := Client.sendTorBuffer (some result.key.symmetricKey) []
        ((torSendCreateMsg publicKey).onCell session.buffer)
      ({ session with waiting := .created, tlsKey := result.key, buffer := sent },
        result.sent.toList ++ [sent])
    else ({ session with waiting := .returned .tlsError }, [])

/-- The rest of `handle_create_message`, which does not look at what `recv_tor_buffer`
    returns, and `process_client_session` on to the loop of `create_relay_circuit`. -/
def recvCreated (got : List UInt8) : ClientSession × List (List UInt8) :=
  let buffer := (Client.recvTorBuffer (some session.tlsKey.symmetricKey) [] session.buffer got).getD
    session.buffer
  let session := { session with buffer }
  if ofCell buffer cmdOffset = TorCommand.torCreated.code then
    createRelayCircuit gmp locals { session with curRelays := 1 }
  else ({ session with waiting := .returned .error }, [])

/-- The rest of an iteration of `create_relay_circuit`, and on from its condition. -/
def recvExtended (got : List UInt8) : ClientSession × List (List UInt8) :=
  match Client.recvTorBuffer (some session.tlsKey.symmetricKey) session.layers session.buffer got with
  | none => ({ session with waiting := .returned .error }, [])
  | some buffer =>
    let session := { session with buffer }
    if ofCell buffer relayCmdOffset = RelayCommand.relayExtended.code then
      createRelayCircuit gmp locals { session with curRelays := session.curRelays + 1 }
    else ({ session with waiting := .returned .error }, [])

/-- What the client does when it reads a message, if it waits for one. -/
def ClientSession.recv (got : List UInt8) : Option (ClientSession × List (List UInt8)) :=
  match session.waiting with
  | .tlsKey => some (recvTlsKey gmp dh locals session got)
  | .created => some (recvCreated gmp locals session got)
  | .extended => some (recvExtended gmp locals session got)
  | _ => none

end Steps

end OnionRouter.Client
