import OnionRouter.Crypto.DiffieHellman
import OnionRouter.Directory.SocketMap
import OnionRouter.Directory.Wire

/-!
# The threads of the server

`client_callback` of the server, which serves a connection: the handshake, and then
`process_client` or `process_relay`. A thread runs from one `read` to the next; what it does
in between is a function of what was read (`ServerThread.recv`). The threads share the relay
manager, the keys of the sockets, and the descriptors.

So `handle_signup` is one step here, although it writes the descriptor of the new entry after
`gen_relay` has unlocked the manager: the runs are those in which no other thread comes between.
What may come between is in `OnionRouter.Directory.Registration`, where the three are steps apart.
-/

namespace OnionRouter.Directory

open Crypto Lib Memory Net Protocol RelayManager

/-! ## The server -/

/-- The variables that `run_server` sets: those of `dh.c`, `encryption_globals` and
    `server_id_key`. -/
structure ServerVars where
  dh : DhGlobals
  encryptionGlobals : UInt64 × List UInt8
  serverIdKey : IdentityKey

/-- `run_server`, from `init_encryption` to `init_id_key`; `prime` is what
    `generate_prime_low_p` draws. -/
def initServerVars (gmp : Gmp) (dh : DhGlobals) (prime : ℕ) (res : Memory UInt8) : ServerVars where
  dh := dh
  encryptionGlobals := getGlobals gmp dh res
  serverIdKey := genDhPrimeIdentityKey gmp dh prime

/-- What the threads share. Descriptors that were accepted are open until they are closed. -/
structure Server where
  manager : RelayManager
  keyList : KeyList KeyData
  openFds : Finset SockFd

/-- Where a thread is. -/
inductive ServerWaiting
  /-- In `recv_handshake_request`. -/
  | request
  /-- In `recv_handshake_client_key`. -/
  | clientKey (userType : UInt8)
  /-- In the loop of `process_client`, with its pointer `key`. -/
  | client (key : KeyRef) (relayStart : ℕ)
  /-- In the loop of `process_relay`, with its pointers `key` and `relay`. -/
  | relay (key : KeyRef) (relayData : Option ℕ)
  | returned
  deriving DecidableEq

/-- The thread of a connection, with the buffer of `client_callback`. -/
structure ServerThread where
  fd : SockFd
  waiting : ServerWaiting
  buffer : List UInt8

/-- What a thread finds while it runs: what its local variables hold before, whether all is
    sent, the time, the address that `calloc` returns, whether `realloc` moves the keys, and
    what a `relay_list` holds before. -/
structure ServerEnv where
  locals : Locals
  sent : Bool
  timestamp : UInt64
  addr : ℕ
  moved : Bool
  relayList : Memory UInt8
  deriving Inhabited

/-- What a thread does until it waits again. -/
structure ServerReaction where
  server : Server
  thread : ServerThread
  toUser : List (List UInt8)

/-- `close`. -/
def Server.close (s : Server) (fd : SockFd) : Server := { s with openFds := s.openFds.erase fd }

/-- `free_key`, as far as it can be seen. -/
def Server.freeKey (key : KeyData) : KeyData :=
  { key with symmetricKey := .ofBytes (List.replicate aesBytes 0) }

/-- `free_socket`, with `NULL` for `free_data`. -/
def Server.freeSocket (s : Server) (fd : SockFd) : Server :=
  { s with keyList := s.keyList.freeSocket freeKey fd }

/-- The key that a pointer leads to; `none` when the block was moved since. -/
def Server.keyAt (s : Server) (key : KeyRef) : Option KeyData :=
  if key.block = s.keyList.block then some (s.keyList.arr key.index).keyData else none

section Steps

variable (gmp : Gmp) (vars : ServerVars) (env : ServerEnv) (s : Server) (thread : ServerThread)

/-- The thread goes on to `waiting`, after it sent `msg`, which is in its buffer. -/
def ServerThread.goto (waiting : ServerWaiting) (msg : List UInt8) : ServerReaction where
  server := s
  thread := { thread with waiting := waiting, buffer := msg }
  toUser := [msg]

/-- The thread closes its descriptor and ends. -/
def ServerThread.closed : ServerReaction where
  server := s.close thread.fd
  thread := { thread with waiting := .returned }
  toUser := []

/-! ## The handshake -/

/-- `recv_handshake_request`. -/
def recvHandshakeRequest (buffer got : List UInt8) : Option (List UInt8 × HandshakeRequest) := do
  let buffer ← recvServerMsg buffer got
  let request := HandshakeRequest.ofBytes buffer
  if request.version = 1 ∧
      (request.userType = UserType.client.code ∨ request.userType = UserType.relay.code) then
    return (buffer, request)
  else none

/-- `recv_handshake_client_key`. -/
def recvHandshakeClientKey (buffer got : List UInt8) : Option (List UInt8) :=
  (recvServerMsg buffer got).map clientPubkey

/-- `send_handshake_response`. -/
def sendHandshakeResponse : List UInt8 :=
  serverMsg (HandshakeResponse.bytes ⟨vars.encryptionGlobals.1, vars.encryptionGlobals.2,
    getPublicIdentityKey gmp vars.serverIdKey env.locals.res⟩)

/-- `send_handshake_confirmation`. -/
def sendHandshakeConfirmation (sessionKey : KeyData) (id : UInt32) : List UInt8 :=
  sendEncServerMsg sessionKey.symmetricKey
    (HandshakeConfirmation.bytes ⟨serverHandshakeV1Magic, id, env.timestamp⟩)

/-- `client_callback`, from the request to where it waits for the key. -/
def ServerThread.recvRequest (got : List UInt8) : ServerReaction :=
  match recvHandshakeRequest thread.buffer got with
  | none => thread.closed s
  | some (_, request) =>
    if env.sent then
      thread.goto s (.clientKey request.userType) (sendHandshakeResponse gmp vars env)
    else thread.closed s

/-- The thread of a user that has no key ends without closing its descriptor, and so does
    that of another user. -/
def ServerThread.processUser (userType : UInt8) (msg : List UInt8) : ServerReaction :=
  match s.keyList.getSockKey thread.fd with
  | none => thread.goto s .returned msg
  | some key =>
    if userType = UserType.client.code then thread.goto s (.client key 0) msg
    else if userType = UserType.relay.code then thread.goto s (.relay key none) msg
    else thread.goto s .returned msg

/-- `client_callback`, from the key to where `process_client` or `process_relay` waits;
    `none` when it aborts. -/
def ServerThread.recvClientKey (userType : UInt8) (got : List UInt8) : Option ServerReaction :=
  match recvHandshakeClientKey thread.buffer got with
  | none => some (thread.closed s)
  | some clientPubkey => do
    let sessionKey ← deriveSymmetricKeyFromPublic gmp vars.dh env.locals.arrays
      (initKey vars.serverIdKey) clientPubkey
    let msg := sendHandshakeConfirmation env sessionKey (UInt32.ofNat thread.fd.val)
    if env.sent then
      -- What `add_socket` returns is not looked at.
      let (_, keyList) ← s.keyList.addSocket thread.fd sessionKey null env.moved
      return thread.processUser { s with keyList := keyList } userType msg
    else return thread.closed s

/-! ## The handlers -/

/-- What `handle_message` returns, the session after it, and the answer, if it sends one. -/
structure Handled where
  returned : Bool
  running : Bool
  manager : RelayManager
  waiting : ServerWaiting
  answer : Option (List UInt8)

/-- The rest of an iteration of `process_client` or `process_relay`. An answer that is not
    sent makes `handle_message` return `false`. -/
def ServerThread.handled (o : Handled) : ServerReaction :=
  let s := { s with manager := o.manager }
  let msg := o.answer.getD thread.buffer
  if o.returned && o.running then thread.goto s o.waiting msg
  else
    { server := (s.freeSocket thread.fd).close thread.fd
      thread := { thread with waiting := .returned, buffer := msg }
      toUser := if o.returned then o.answer.toList else [] }

/-- `handle_message` of `client_handler.c`. -/
def clientHandleMessage (ref : KeyRef) (relayStart : ℕ) (key : KeyData) (got : List UInt8) :
    Option Handled :=
  match recvEncServerMsg key.symmetricKey thread.buffer got with
  | none => some ⟨false, true, s.manager, .client ref relayStart, none⟩
  | some buffer =>
    if command (ofCell buffer) = ClientCommand.getRelayMap.code then do
      let (relays, relayStart) ← handleGetRelayMap s.manager relayStart
      let answer := sendEncServerMsg key.symmetricKey
        (responseMap env.timestamp ((relayListStores relays).write env.relayList))
      return ⟨env.sent, true, s.manager, .client ref relayStart, some answer⟩
    else if command (ofCell buffer) = ClientCommand.exit.code then
      -- The answer is that to a relay.
      let answer := sendEncServerMsg key.symmetricKey
        (responseBase env.timestamp .success RelayCommand.exit.code)
      some ⟨env.sent, false, s.manager, .client ref relayStart, some answer⟩
    else some ⟨false, true, s.manager, .client ref relayStart, none⟩

/-- The answer of `relay_handler.c` to a command, before it is encrypted. -/
def relayAnswer (command : UInt16) (o : Outcome) (response : ServerResponse) : List UInt8 :=
  if command = RelayCommand.signup.code then
    signupResponse env.timestamp response
      (((o.relayData.bind o.manager.heap).map RelayData.relayId).getD 0)
  else responseBase env.timestamp response command

/-- `handle_message` of `relay_handler.c`, with the messages. -/
def relayHandleMessage (ref : KeyRef) (relayData : Option ℕ) (key : KeyData) (got : List UInt8) :
    Option Handled :=
  let received := (recvEncServerMsg key.symmetricKey thread.buffer got).map ofCell
  (handleMessage s.manager relayData (getOtherPublicKey gmp key env.locals.res) env.sent env.addr
    received).map fun o =>
      { returned := o.returned
        running := o.running
        manager := o.manager
        waiting := .relay ref o.relayData
        answer := received.bind fun buffer => o.response.map fun response =>
          sendEncServerMsg key.symmetricKey (relayAnswer env (command buffer) o response) }

/-- What a thread does when `read` gives it `got`, or nothing; `none` when it does not get to
    wait again. -/
def ServerThread.recv (got : List UInt8) : Option ServerReaction :=
  match thread.waiting with
  | .request => some (thread.recvRequest gmp vars env s got)
  | .clientKey userType => thread.recvClientKey gmp vars env s userType got
  | .client ref relayStart => do
    let key ← s.keyAt ref
    (clientHandleMessage env s thread ref relayStart key got).map (thread.handled s)
  | .relay ref relayData => do
    let key ← s.keyAt ref
    (relayHandleMessage gmp env s thread ref relayData key got).map (thread.handled s)
  | .returned => none

end Steps

end OnionRouter.Directory
