import OnionRouter.Client.Circuit
import OnionRouter.Directory.Wire

/-!
# The users of the directory

`server_register.c` of the relay, and `server_query.c` of the client. `signup_server`,
`signout_server` and `gather_relay_map` are exchanges of the same four messages and answers:
the two of `handle_handshake`, a request, and that of `handle_exit`. They differ in the
request and in what they do with its answer (`Exchange`). Between the calls of `read` a user
is in one of the stages of its exchange.
-/

namespace OnionRouter.Directory

open Client Crypto Lib Net Protocol

/-! ## Exchanges -/

/-- The constant `INVALID_RELAY_ID`. -/
def invalidRelayId : ℕ := 2 ^ 32 - 1

/-- The variables of a user: `relay_vars`, or `client_vars` with the `server_key` and the
    `relay_list` of `gather_relay_map`, and those of `dh.c`. -/
structure UserVars where
  isKeyInit : Bool
  dh : DhGlobals
  key : IdentityKey
  serverKey : KeyData
  registerId : ℕ
  relayList : Option CircuitRelayList

/-- What a user does at the directory. -/
inductive Exchange
  /-- `signup_server`, with the address of the relay. -/
  | signup (sockAddr : List UInt8)
  /-- `signout_server`. -/
  | signout
  /-- `gather_relay_map`, with the number of relays that the client wants. -/
  | gather (relays : ℕ) (relays_le : relays ≤ maxRelays)

/-- Where an exchange waits. -/
inductive Stage
  /-- In `recv_server_handshake_res`. -/
  | response
  /-- In `recv_server_handshake_confirmation`. -/
  | confirmation
  /-- In `recv_server_signup_res`, `recv_server_signout_res` or `recv_server_relay_map_res`. -/
  | answer
  /-- In `recv_server_exit_res`. -/
  | exit
  deriving DecidableEq

namespace Exchange

/-- The `user_type` of `send_server_handshake_req`. -/
def userType : Exchange → UserType
  | gather _ _ => .client
  | _ => .relay

/-- What `send_server_signup_req`, `send_server_signout_req` or `send_server_relay_map_req`
    sends, before it is encrypted. -/
def request (vars : UserVars) : Exchange → List UInt8
  | signup sockAddr => signupRequest sockAddr
  | signout => signoutRequest vars.registerId
  | gather _ _ => put16 ClientCommand.getRelayMap.code

/-- What `send_server_exit_req` sends, before it is encrypted. -/
def exitRequest : Exchange → List UInt8
  | gather _ _ => put16 ClientCommand.exit.code
  | _ => put16 RelayCommand.exit.code

theorem length_responseRelays (buffer : List UInt8) (amount : ℕ) :
    (responseRelays buffer amount).length = amount := by
  rw [responseRelays, List.length_map, List.length_range]

/-- What is done with the answer; `none` when it does not list enough relays. Only the id and
    the relays are looked at. -/
def answered (vars : UserVars) (buffer : List UInt8) : Exchange → Option UserVars
  | signup _ => some { vars with registerId := responseId buffer }
  | signout => some { vars with registerId := invalidRelayId }
  | gather relays hrelays =>
    if responseRelayAmount buffer < relays then none
    else some { vars with
      relayList := some ⟨responseRelays buffer relays,
        (length_responseRelays buffer relays).trans_le hrelays⟩ }

/-- Whether the exchange succeeds although `handle_exit` fails: the relay goes on, after
    `close` was called twice. -/
def ignoresExit : Exchange → Bool
  | gather _ _ => false
  | _ => true

/-- Whether the exchange can begin: `signup_server` and `signout_server` look at
    `register_id` first. -/
def allowed (vars : UserVars) : Exchange → Bool
  | signup _ => vars.registerId = invalidRelayId
  | signout => vars.registerId ≠ invalidRelayId
  | gather _ _ => true

end Exchange

/-! ## Users -/

/-- Where a user is. -/
inductive UserWaiting
  | start
  | talking (exchange : Exchange) (stage : Stage)
  /-- A relay that signed up, in `run_relay_cmd`. -/
  | serving
  /-- `run_relay` or `gather_relay_map` returned, with success or with an error. -/
  | returned (success : Bool)
  | aborted

/-- Where a user is after an exchange that succeeded. -/
def Exchange.done : Exchange → UserWaiting
  | signup _ => .serving
  | _ => .returned true

/-- A user, with the buffer of its exchange. -/
structure User where
  waiting : UserWaiting
  vars : UserVars
  buffer : List UInt8

/-- What a step of a user finds: what its local variables hold before, and whether all is
    sent. -/
structure UserEnv where
  locals : Locals
  sent : Bool
  deriving Inhabited

/-- What a user does until it waits again: what it sends, and how often it closes its
    descriptor. -/
structure UserReaction where
  user : User
  toServer : List (List UInt8)
  closed : ℕ

section Steps

variable (gmp : Gmp) (prime : ℕ) (env : UserEnv) (user : User)

/-- The exchange fails, after the descriptor was closed. -/
def User.failed : UserReaction := ⟨{ user with waiting := .returned false }, [], 1⟩

/-- The user does not get to wait again. -/
def User.abort : UserReaction := ⟨{ user with waiting := .aborted }, [], 0⟩

/-- A message is sent, which is left in the buffer, and the exchange goes on to its next
    stage. -/
def User.send (exchange : Exchange) (stage : Stage) (msg : List UInt8) : UserReaction :=
  if env.sent then
    ⟨{ user with waiting := .talking exchange stage, buffer := msg }, [msg], 0⟩
  else user.failed

/-- `signup_server`, `signout_server` or `gather_relay_map`, to where it waits for the
    response; `connected` is whether `connect_server` returns a descriptor. -/
def User.begin (exchange : Exchange) (connected : Bool) (buffer : List UInt8) : UserReaction :=
  if exchange.allowed user.vars && connected then
    { user with buffer := buffer }.send env exchange .response
      (serverMsg (HandshakeRequest.bytes ⟨1, exchange.userType.code, 0⟩))
  else ⟨{ user with waiting := .returned false }, [], 0⟩

/-- The keys that `handle_handshake` sets up, if there are none yet, with the number that
    `generate_prime_low_p` draws; `none` when it aborts. -/
def setupKeys (vars : UserVars) (response : HandshakeResponse) : Option UserVars :=
  if vars.isKeyInit then some vars
  else
    let dh := setGlobals gmp vars.dh response.g response.p
    -- The exponentiation does not return with a modulus of 0.
    if dh.p = 0 then none
    else
      let key := genDhPrimeIdentityKey gmp dh prime
      (deriveSymmetricKeyFromPublic gmp dh env.locals.arrays (initKey key)
        response.serverPubkey).map fun serverKey =>
          { vars with isKeyInit := true, dh := dh, key := key, serverKey := serverKey }

/-- `handle_handshake`, from the response to the confirmation. -/
def User.recvResponse (exchange : Exchange) (got : List UInt8) : UserReaction :=
  match recvServerMsg user.buffer got with
  | none => user.failed
  | some buffer =>
    match setupKeys gmp prime env user.vars (HandshakeResponse.ofBytes buffer) with
    | none => user.abort
    | some vars =>
      { user with vars := vars }.send env exchange .confirmation
        (serverMsg (getPublicIdentityKey gmp vars.key env.locals.res))

/-- The rest of `handle_handshake`, and `handle_signup`, `handle_signout` or
    `fetch_relay_map` to where it receives. -/
def User.recvConfirmation (exchange : Exchange) (got : List UInt8) : UserReaction :=
  match recvEncServerMsg user.vars.serverKey.symmetricKey user.buffer got with
  | none => user.failed
  | some buffer =>
    if (HandshakeConfirmation.ofBytes buffer).magic = serverHandshakeV1Magic then
      user.send env exchange .answer
        (sendEncServerMsg user.vars.serverKey.symmetricKey (exchange.request user.vars))
    else user.failed

/-- `handle_exit` fails. -/
def User.exitFailed (exchange : Exchange) : UserReaction :=
  if exchange.ignoresExit then ⟨{ user with waiting := exchange.done }, [], 2⟩ else user.failed

/-- The rest of `handle_signup`, `handle_signout` or `fetch_relay_map`, and `handle_exit` to
    where it receives. -/
def User.recvAnswer (exchange : Exchange) (got : List UInt8) : UserReaction :=
  match recvEncServerMsg user.vars.serverKey.symmetricKey user.buffer got with
  | none => user.failed
  | some buffer =>
    match exchange.answered user.vars buffer with
    | none => user.failed
    | some vars =>
      let user := { user with vars := vars }
      if env.sent then
        user.send env exchange .exit
          (sendEncServerMsg vars.serverKey.symmetricKey exchange.exitRequest)
      else user.exitFailed exchange

/-- The rest of `handle_exit`, and of the exchange. -/
def User.recvExit (exchange : Exchange) (got : List UInt8) : UserReaction :=
  match recvEncServerMsg user.vars.serverKey.symmetricKey user.buffer got with
  | none => user.exitFailed exchange
  | some buffer => ⟨{ user with waiting := exchange.done, buffer := buffer }, [], 1⟩

/-- What a user does when `read` gives it `got`, or nothing. -/
def User.recv (got : List UInt8) : Option UserReaction :=
  match user.waiting with
  | .talking exchange .response => some (user.recvResponse gmp prime env exchange got)
  | .talking exchange .confirmation => some (user.recvConfirmation env exchange got)
  | .talking exchange .answer => some (user.recvAnswer env exchange got)
  | .talking exchange .exit => some (user.recvExit exchange got)
  | _ => none

end Steps

end OnionRouter.Directory
