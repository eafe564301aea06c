import OnionRouter.Crypto.DiffieHellman
import OnionRouter.Net.Onion
import OnionRouter.Protocol.Cell

/-!
# The session of a relay

The thread that serves a connection to a relay, up to where it takes a role:
`client_callback`, `process_relay_session`, and `process_middle_relay_session`. A thread
runs from one `read` to the next; what it does in between is a function of what was
read (`RelaySession.fromLast`, `RelaySession.fromNext`).

* `effect_fromLast`, `effect_fromNext`: only a session without a role connects, and it does
  so once.
-/

namespace OnionRouter.Relay

open Crypto Lib Net Protocol

/-- `relay_code_t`, as far as a session returns it. -/
inductive RelayCode
  | success
  | error

/-- The `sockaddr_storage` that `sockaddr_to_unix` fills in. -/
inductive SockaddrStorage
  | inet (port addr : List UInt8)
  | inet6 (port addr : List UInt8)
  | unsupported
  deriving DecidableEq

/-- `sockaddr_to_unix`, on the bytes of a `sock_addr_t`: the family, the protocol,
    the address, and the port. -/
def sockaddrToUnix (sockAddr : List UInt8) : SockaddrStorage :=
  let family := sockAddr.getD 0 0
  let addr := (sockAddr.drop 2).take 16
  let port := (sockAddr.drop 18).take 2
  -- `AF_INET` and `AF_INET6`
  if family = 2 then .inet port (addr.take 4)
  else if family = 10 then .inet6 port addr
  else .unsupported

/-- Where the thread of a session is. -/
inductive Waiting
  /-- The connection is accepted, `client_callback` has not begun. -/
  | accept
  /-- In `handle_tls_recviever`, for the other public key. -/
  | tlsKey
  /-- In `handle_create_message`. -/
  | create
  /-- In `process_relay_session`, for the message that gives it a role. -/
  | role
  /-- In `extend_relay`, for the public key of the next relay. -/
  | nextTlsKey
  /-- In `extend_relay`, for the answer of the next relay. -/
  | nextCreated
  /-- In the loop of `process_middle_relay_session`. -/
  | middle
  /-- In `process_end_relay_session`. -/
  | endRelay
  | returned (code : RelayCode)
  | aborted

/-- A `relay_session_t`, with the buffer of `process_relay_session`. -/
structure RelaySession where
  waiting : Waiting
  onionKey : KeyData
  tlsLastKey : KeyData
  tlsNextKey : KeyData
  /-- Where `next_fd` is connected to. -/
  next : Option SockaddrStorage
  buffer : List UInt8

/-- What a thread does until it waits again: the messages that it sends, and the
    address that it connects to. -/
structure Reaction where
  session : RelaySession
  toLast : List (List UInt8)
  toNext : List (List UInt8)
  connect : Option SockaddrStorage

/-- The thread goes on to `waiting` and does nothing else. -/
def RelaySession.goto (session : RelaySession) (waiting : Waiting) : Reaction where
  session := { session with waiting }
  toLast := []
  toNext := []
  connect := none

/-- `init_relay_session`. -/
def initRelaySession (key : IdentityKey) (buffer : List UInt8) : RelaySession where
  waiting := .accept
  onionKey := initKey key
  tlsLastKey := initKey key
  tlsNextKey := initKey key
  next := none
  buffer := buffer

section Steps

variable (gmp : Gmp) (dh : DhGlobals) (locals : Locals) (session : RelaySession)

/-- `client_callback`, to where `handle_tls_recviever` receives. -/
def clientCallback : Reaction where
  session := { session with waiting := .tlsKey }
  toLast := [getPublicIdentityKey gmp session.tlsLastKey.identity locals.res]
  toNext := []
  connect := none

/-- The rest of `handle_tls_recviever`. -/
def recvTlsKey (got : List UInt8) : Reaction :=
  match handleTlsRecviever gmp dh locals.arrays locals.res (recvTlsMsg locals.buffer got) true
    session.tlsLastKey with
  | none => session.goto .aborted
  | some result =>
    if result.returned then { session with tlsLastKey := result.key }.goto .create
    else session.goto (.returned .error)

/-- `handle_create_message`. -/
def handleCreateMessage (got : List UInt8) : Reaction :=
  match Relay.recvTorBuffer (some session.tlsLastKey.symmetricKey) none true session.buffer got with
  | none => session.goto (.returned .error)
  | some buffer =>
    if ofCell buffer cmdOffset = TorCommand.torCreate.code then
      match deriveSymmetricKeyFromPublic gmp dh locals.arrays session.onionKey
        ((ofCell buffer).read createKeyOffset asymmetricKeyBytes) with
      | none => session.goto .aborted
      | some onionKey =>
        let sent := Relay.sendTorBuffer (some session.tlsLastKey.symmetricKey) none true
          (createdMsg.onCell buffer)
        { session := { session with waiting := .role, onionKey := onionKey, buffer := sent }
          toLast := [sent]
          toNext := []
          connect := none }
    else { session with buffer := buffer }.goto (.returned .error)

/-- The rest of `process_relay_session`, with `extend_relay` to where
    `handle_tls_sender` receives. `connects` says which connections succeed. -/
def processRelaySession (connects : SockaddrStorage → Bool) (got : List UInt8) : Reaction :=
  match Relay.recvTorBuffer (some session.tlsLastKey.symmetricKey)
    (some session.onionKey.symmetricKey) true session.buffer got with
  | none => session.goto (.returned .success)
  | some buffer =>
    if ofCell buffer cmdOffset = TorCommand.torRelay.code ∧
        ofCell buffer relayCmdOffset = RelayCommand.relayExtend.code then
      let addr := sockaddrToUnix ((ofCell buffer).read relayDataOffset sockAddrSize)
      if connects addr then
        { session := { session with waiting := .nextTlsKey, next := some addr, buffer := buffer }
          toLast := []
          toNext := []
          connect := some addr }
      -- `next_fd` is -1, from which `handle_tls_sender` receives nothing.
      else { session with buffer := buffer }.goto (.returned .error)
    else { session with buffer := buffer }.goto .endRelay

/-- `extend_relay`: the rest of `handle_tls_sender`, and
    `tor_send_middle_relay_create`. -/
def recvNextTlsKey (got : List UInt8) : Reaction :=
  match handleTlsSender gmp dh locals.arrays locals.res (recvTlsMsg locals.buffer got) true
    session.tlsNextKey with
  | none => session.goto .aborted
  | some result =>
    if result.returned then
      let clientPublicKey := (ofCell session.buffer).read extendKeyOffset asymmetricKeyBytes
      let sent := Relay.sendTorBuffer (some result.key.symmetricKey) none false
        ((torSendMiddleRelayCreate clientPublicKey).onCell session.buffer)
      { session := { session with waiting := .nextCreated, tlsNextKey := result.key, buffer := sent }
        toLast := []
        toNext := result.sent.toList ++ [sent]
        connect := none }
    else session.goto (.returned .error)

/-- The rest of `extend_relay`. -/
def recvNextCreated (got : List UInt8) : Reaction :=
  match Relay.recvTorBuffer (some session.tlsNextKey.symmetricKey) none false session.buffer got with
  | none => session.goto (.returned .error)
  | some buffer =>
    if ofCell buffer cmdOffset = TorCommand.torCreated.code then
      let sent := Relay.sendTorBuffer (some session.tlsLastKey.symmetricKey)
        (some session.onionKey.symmetricKey) true (torSendMiddleRelayExtended.onCell buffer)
      { session := { session with waiting := .middle, buffer := sent }
        toLast := [sent]
        toNext := []
        connect := none }
    else { session with buffer := buffer }.goto (.returned .error)

/-- The symmetric keys of a session. -/
def RelaySession.keys : SessionKeys where
  onionKey := session.onionKey.symmetricKey
  tlsLastKey := session.tlsLastKey.symmetricKey
  tlsNextKey := session.tlsNextKey.symmetricKey

/-- `handle_last_fd`. -/
def handleLastFd (got : List UInt8) : Reaction :=
  match handleFdCommon session.keys true locals.buffer got with
  | none => session.goto (.returned .error)
  | some (recv, sent) =>
    let waiting :=
      if ofCell recv cmdOffset = TorCommand.torDestroy.code then .returned .success else .middle
    { session := { session with waiting }
      toLast := []
      toNext := [sent]
      connect := none }

/-- `handle_next_fd`. -/
def handleNextFd (got : List UInt8) : Reaction :=
  match handleFdCommon session.keys false locals.buffer got with
  | none => session.goto (.returned .error)
  | some (_, sent) =>
    { session := session
      toLast := [sent]
      toNext := []
      connect := none }

/-- What the thread does when it reads a message from `last_fd`, if it waits for one. -/
def RelaySession.fromLast (connects : SockaddrStorage → Bool) (got : List UInt8) :
    Option Reaction :=
  match session.waiting with
  | .tlsKey => some (recvTlsKey gmp dh locals session got)
  | .create => some (handleCreateMessage gmp dh locals session got)
  | .role => some (processRelaySession session connects got)
  | .middle => some (handleLastFd locals session got)
  | _ => none

/-- What the thread does when it reads a message from `next_fd`, if it waits for one. -/
def RelaySession.fromNext (got : List UInt8) : Option Reaction :=
  match session.waiting with
  | .nextTlsKey => some (recvNextTlsKey gmp dh locals session got)
  | .nextCreated => some (recvNextCreated session got)
  | .middle => some (handleNextFd locals session got)
  | _ => none

end Steps

/-! ## Connecting -/

/-- The session has no role yet. -/
def Waiting.NoRole : Waiting → Prop
  | accept | tlsKey | create | role => True
  | _ => False

/-- What a reaction does to the connection of a session: nothing, or it makes one, for a
    session that had no role. -/
inductive Effect (connects : SockaddrStorage → Bool) (session : RelaySession) (r : Reaction) : Prop
  | stay (hconnect : r.connect = none) (hnext : r.session.next = session.next)
      (hrole : r.session.waiting.NoRole → session.waiting.NoRole)
  | connect (addr : SockaddrStorage) (hrole : session.waiting.NoRole) (haddr : connects addr)
      (hconnect : r.connect = some addr) (hnext : r.session.next = some addr)
      (hrole' : ¬ r.session.waiting.NoRole)

section Effects

variable {gmp : Gmp} {dh : DhGlobals} {locals : Locals} {session : RelaySession}
  {connects : SockaddrStorage → Bool} {got : List UInt8} {r : Reaction}

/-- A session that goes on to somewhere makes no connection. -/
theorem effect_goto (session' : RelaySession) {waiting : Waiting}
    (hnext : session'.next = session.next)
    (hrole : waiting.NoRole → session.waiting.NoRole) :
    Effect connects session (session'.goto waiting) := .stay rfl hnext hrole

theorem effect_clientCallback (hwaiting : session.waiting = .accept) :
    Effect connects session (clientCallback gmp locals session) :=
  .stay rfl rfl fun _ => by rw [hwaiting]; trivial

theorem effect_processRelaySession (hwaiting : session.waiting = .role) :
    Effect connects session (processRelaySession session connects got) := by
  have hrole : session.waiting.NoRole := by rw [hwaiting]; trivial
  rw [processRelaySession]
  split
  · exact effect_goto session rfl nofun
  · rename_i buffer _
    by_cases hextend : ofCell buffer cmdOffset = TorCommand.torRelay.code ∧
        ofCell buffer relayCmdOffset = RelayCommand.relayExtend.code
    · rw [if_pos hextend]
      by_cases haddr : connects
          (sockaddrToUnix ((ofCell buffer).read relayDataOffset sockAddrSize)) = true
      · simp only [if_pos haddr]
        exact .connect _ hrole haddr rfl rfl nofun
      · simp only [if_neg haddr]
        exact effect_goto _ rfl nofun
    · rw [if_neg hextend]
      exact effect_goto _ rfl nofun

theorem effect_fromLast
    (h : session.fromLast gmp dh locals connects got = some r) : Effect connects session r := by
  rw [RelaySession.fromLast] at h
  -- One case for each message that the relay may wait for.
  split at h
  next hwaiting =>
    have hrole : session.waiting.NoRole := by rw [hwaiting]; trivial
    rw [← Option.some.inj h, recvTlsKey]
    split
    · exact effect_goto session rfl nofun
    · split
      · exact effect_goto _ rfl fun _ => hrole
      · exact effect_goto _ rfl nofun
  next hwaiting =>
    have hrole : session.waiting.NoRole := by rw [hwaiting]; trivial
    rw [← Option.some.inj h, handleCreateMessage]
    split
    · exact effect_goto session rfl nofun
    · split
      · split
        · exact effect_goto _ rfl nofun
        · exact .stay rfl rfl fun _ => hrole
      · exact effect_goto _ rfl nofun
  next hwaiting =>
    rw [← Option.some.inj h]
    exact effect_processRelaySession hwaiting
  next hwaiting =>
    rw [← Option.some.inj h, handleLastFd]
    split
    · exact effect_goto session rfl nofun
    · refine .stay rfl rfl fun hrole => ?_
      dsimp only at hrole
      split at hrole <;> exact hrole.elim
  next => cases h

theorem effect_fromNext
    (h : session.fromNext gmp dh locals got = some r) : Effect connects session r := by
  rw [RelaySession.fromNext] at h
  split at h
  next hwaiting =>
    rw [← Option.some.inj h, recvNextTlsKey]
    split
    · exact effect_goto session rfl nofun
    · split
      · exact .stay rfl rfl nofun
      · exact effect_goto _ rfl nofun
  next hwaiting =>
    rw [← Option.some.inj h, recvNextCreated]
    split
    · exact effect_goto session rfl nofun
    · split
      · exact .stay rfl rfl nofun
      · exact effect_goto _ rfl nofun
  next hwaiting =>
    rw [← Option.some.inj h, handleNextFd]
    split
    · exact effect_goto session rfl nofun
    · exact .stay rfl rfl id
  next => cases h

end Effects

end OnionRouter.Relay
