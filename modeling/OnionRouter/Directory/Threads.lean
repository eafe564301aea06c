import OnionRouter.Directory.Batch
import OnionRouter.Directory.Resources

/-!
# What the threads do

The numbers of a deployment agree: the server and a user have the same secret, and what the
server reads of a user is what the user published. So every message of a user is handled as
it was meant.

* `recv_request`, `recv_clientKey`: the handshake.
* `clientHandleMessage_request`, `relayHandleMessage_signup`,
  `relayHandleMessage_signout`, ...: the requests.
-/

namespace OnionRouter.Directory

open Client Crypto Lib Memory Net Protocol RelayManager

variable {ι : Type} (D : Deployment ι)

/-! ## Keys -/

namespace Deployment

/-- What a deployment is assumed to be: the modulus and the generator fit the fields that they
    are sent in, and the addresses fill theirs. -/
structure Valid : Prop where
  documented : D.gmp.Documented
  p_pos : 0 < D.dh.p
  p_lt : D.dh.p < 2 ^ 2048
  g_lt : D.dh.g < 2 ^ 64
  length_sockAddr : ∀ i addr, D.role i = .relay addr → addr.length = sockAddrSize

/-- The public number of a user. -/
def publicNumber (i : ι) : ℕ := D.dh.g ^ D.prime i % D.dh.p

/-- The public key of a user, as it is exported. -/
def publicKey (i : ι) : List UInt8 := fixedBytes (D.publicNumber i)

/-- The symmetric key of the server and a user. -/
def secret (i : ι) : Block := symmetricKeyOf (D.dh.g ^ (D.prime i * D.serverPrime) % D.dh.p)

/-- What a user has in the directory, if it is a relay. -/
def descriptor (i : ι) : Option RelayDescriptor :=
  match D.role i with
  | .relay addr => some ⟨addr, D.publicKey i⟩
  | .client _ _ => none

/-- A key that the server derived for a user. -/
structure Agreed (i : ι) (key : KeyData) : Prop where
  symmetricKey : key.symmetricKey = D.secret i
  otherPublic : key.session.otherPublic = D.publicNumber i

/-- A user whose keys are set up. -/
structure Keyed (i : ι) (vars : UserVars) : Prop where
  isKeyInit : vars.isKeyInit = true
  dh : vars.dh = D.dh
  key : vars.key = genDhPrimeIdentityKey D.gmp D.dh (D.prime i)
  symmetricKey : vars.serverKey.symmetricKey = D.secret i

/-- The response of the handshake. -/
def handshakeResponse : HandshakeResponse :=
  ⟨UInt64.ofNat D.dh.g, fixedBytes D.dh.p, fixedBytes (D.dh.g ^ D.serverPrime % D.dh.p)⟩

variable {D} (hD : D.Valid) {i : ι}

include hD

theorem publicNumber_lt (i : ι) : D.publicNumber i < 2 ^ 2048 := (Nat.mod_lt _ hD.p_pos).trans hD.p_lt

theorem length_publicKey (i : ι) : (D.publicKey i).length = asymmetricKeyBytes :=
  length_fixedBytes (publicNumber_lt hD i)

theorem wellFormed_descriptor {d : RelayDescriptor} (h : D.descriptor i = some d) :
    d.WellFormed := by
  rw [descriptor] at h
  split at h
  next addr hrole =>
    obtain rfl := Option.some_inj.1 h
    exact ⟨hD.length_sockAddr i addr hrole, length_publicKey hD i⟩
  next => cases h

/-- The server reads the public key of the user as the user exported it. -/
theorem Agreed.getOtherPublicKey {key : KeyData} (hkey : D.Agreed i key) (res : Memory UInt8) :
    getOtherPublicKey D.gmp key res = D.publicKey i := by
  rw [Crypto.getOtherPublicKey, hkey.otherPublic]
  exact read_exportMpzFixed hD.documented (publicNumber_lt hD i) res

theorem getPublicIdentityKey_user (i : ι) (res : Memory UInt8) :
    getPublicIdentityKey D.gmp (genDhPrimeIdentityKey D.gmp D.dh (D.prime i)) res = D.publicKey i :=
  getPublicIdentityKey_gen hD.documented hD.p_pos hD.p_lt _ res

/-- The server derives the key that it has in common with the user. -/
theorem derive_server (arrays : DeriveArrays) (i : ι) :
    ∃ key, deriveSymmetricKeyFromPublic D.gmp D.vars.dh arrays (initKey D.vars.serverIdKey)
      (D.publicKey i) = some key ∧ D.Agreed i key := by
  obtain ⟨key, hderive, -, hother, hsymmetric⟩ := deriveSymmetricKeyFromPublic_eq hD.documented
    hD.p_pos hD.p_lt arrays (initKey D.vars.serverIdKey) (D.publicKey i)
  refine ⟨key, hderive, ?_, ?_⟩
  · rw [hsymmetric, publicKey, ofBytesLE_fixedBytes, publicNumber, ← Nat.pow_mod, ← pow_mul]
    rfl
  · rw [hother, publicKey, ofBytesLE_fixedBytes]

theorem sendHandshakeResponse_eq (env : ServerEnv) :
    sendHandshakeResponse D.gmp D.vars env = serverMsg D.handshakeResponse.bytes := by
  have hglobals : D.vars.encryptionGlobals = (UInt64.ofNat D.dh.g, fixedBytes D.dh.p) :=
    congrArg (UInt64.ofNat D.dh.g, ·) (read_exportMpzFixed hD.documented hD.p_lt D.res)
  have hkey : getPublicIdentityKey D.gmp D.vars.serverIdKey env.locals.res =
      fixedBytes (D.dh.g ^ D.serverPrime % D.dh.p) :=
    getPublicIdentityKey_gen hD.documented hD.p_pos hD.p_lt D.serverPrime _
  rw [sendHandshakeResponse, hglobals, hkey]
  rfl

theorem ofBytes_handshakeResponse :
    HandshakeResponse.ofBytes (serverMsg D.handshakeResponse.bytes) = D.handshakeResponse :=
  HandshakeResponse.ofBytes_serverMsg (length_fixedBytes hD.p_lt)
    (length_fixedBytes ((Nat.mod_lt _ hD.p_pos).trans hD.p_lt))

end Deployment

/-! ## The handshake -/

open Deployment

section Handshake

variable {D} (hD : D.Valid) {i : ι} (env : ServerEnv) (s : Server) {thread : ServerThread}

include hD

/-- The request of a handshake is answered with the numbers of the server. -/
theorem recv_request (hwaiting : thread.waiting = .request) (user : UserType) :
    thread.recv D.gmp D.vars env s (serverMsg (HandshakeRequest.bytes ⟨1, user.code, 0⟩)) =
      some (if env.sent then
        thread.goto s (.clientKey user.code) (serverMsg D.handshakeResponse.bytes)
      else thread.closed s) := by
  have hrequest : recvHandshakeRequest thread.buffer
      (serverMsg (HandshakeRequest.bytes ⟨1, user.code, 0⟩)) =
        some (serverMsg (HandshakeRequest.bytes ⟨1, user.code, 0⟩), ⟨1, user.code, 0⟩) := by
    rw [recvHandshakeRequest, recvServerMsg_serverMsg
      ((HandshakeRequest.length_bytes _).trans_le (by decide))]
    simp only [Option.bind_eq_bind, Option.bind_some, HandshakeRequest.ofBytes_serverMsg]
    exact if_pos ⟨trivial, by cases user <;> decide⟩
  rw [ServerThread.recv, hwaiting, ServerThread.recvRequest, hrequest]
  simp only [sendHandshakeResponse_eq hD]

/-- Where a thread is behind the handshake. -/
def UserType.processed (fd : SockFd) : UserType → ServerWaiting
  | client => .client ⟨0, fd⟩ 0
  | relay => .relay ⟨0, fd⟩ none

/-- The key of a user is added to the table, and confirmed with it. -/
theorem recv_clientKey (hs : s.Sound) (hmoved : env.moved = false) {user : UserType}
    (hwaiting : thread.waiting = .clientKey user.code)
    (hfd : s.view (.socket thread.fd) = some (.socket none)) :
    ∃ key l, D.Agreed i key ∧
      thread.recv D.gmp D.vars env s (serverMsg (D.publicKey i)) =
        some (if env.sent then
          thread.goto { s with keyList := l } (user.processed thread.fd)
            (sendEncServerMsg (D.secret i) (HandshakeConfirmation.bytes
              ⟨serverHandshakeV1Magic, UInt32.ofNat thread.fd.val, env.timestamp⟩))
        else thread.closed s) ∧
      ({ s with keyList := l } : Server).Sound ∧
      ({ s with keyList := l } : Server).view =
        Function.update s.view (.socket thread.fd) (some (.socket (some key))) := by
  obtain ⟨key, hderive, hkey⟩ := derive_server hD env.locals.arrays i
  obtain ⟨l, hadd, hget, hl, hview⟩ := view_addSocket hs hfd key
  have hclientKey : recvHandshakeClientKey thread.buffer (serverMsg (D.publicKey i)) =
      some (D.publicKey i) := by
    rw [recvHandshakeClientKey, recvServerMsg_serverMsg
      ((length_publicKey hD i).trans_le (by decide)), Option.map_some,
      clientPubkey_serverMsg (length_publicKey hD i)]
  have hprocess : ∀ msg, thread.processUser { s with keyList := l } user.code msg =
      thread.goto { s with keyList := l } (user.processed thread.fd) msg := by
    intro msg
    rw [ServerThread.processUser, hget]
    cases user <;> rfl
  refine ⟨key, l, hkey, ?_, hl, hview⟩
  rw [ServerThread.recv, hwaiting]
  simp only [ServerThread.recvClientKey, hclientKey, hderive, hmoved, hadd, hprocess,
    sendHandshakeConfirmation, hkey.symmetricKey, Option.bind_eq_bind, Option.bind_some]
  split <;> rfl

end Handshake

/-! ## The handlers -/

section Process

variable (env : ServerEnv) {s : Server} {thread : ServerThread} (hs : s.Sound) {key : KeyData}
  (hfd : s.view (.socket thread.fd) = some (.socket (some key)))

include hs hfd

theorem recv_client {relayStart : ℕ} (hwaiting : thread.waiting = .client ⟨0, thread.fd⟩ relayStart)
    (got : List UInt8) : thread.recv D.gmp D.vars env s got =
      (clientHandleMessage env s thread ⟨0, thread.fd⟩ relayStart key got).map (thread.handled s) := by
  rw [ServerThread.recv, hwaiting]
  simp only [keyAt_of_view hs hfd, Option.bind_eq_bind, Option.bind_some]

theorem recv_relay {relayData : Option ℕ}
    (hwaiting : thread.waiting = .relay ⟨0, thread.fd⟩ relayData) (got : List UInt8) :
    thread.recv D.gmp D.vars env s got =
      (relayHandleMessage D.gmp env s thread ⟨0, thread.fd⟩ relayData key got).map
        (thread.handled s) := by
  rw [ServerThread.recv, hwaiting]
  simp only [keyAt_of_view hs hfd, Option.bind_eq_bind, Option.bind_some]

end Process

section Handlers

variable {D} (env : ServerEnv) (s : Server) (thread : ServerThread) (ref : KeyRef)

variable {i : ι} {key : KeyData}

/-- A request of a client, or the end of its session. -/
theorem clientHandleMessage_request (hkey : D.Agreed i key) (relayStart : ℕ)
    (c : ClientCommand) :
    clientHandleMessage env s thread ref relayStart key (sendEncServerMsg (D.secret i) (put16 c.code)) =
      match c with
      | .getRelayMap => (handleGetRelayMap s.manager relayStart).map fun r =>
        ⟨env.sent, true, s.manager, .client ref r.2, some (sendEncServerMsg (D.secret i)
          (responseMap env.timestamp ((relayListStores r.1).write env.relayList)))⟩
      | .exit => some ⟨env.sent, false, s.manager, .client ref relayStart,
        some (sendEncServerMsg (D.secret i)
          (responseBase env.timestamp .success RelayCommand.exit.code))⟩ := by
  have hcommand : command (ofCell (serverMsg (put16 c.code))) = c.code := by
    have h := command_serverMsg c.code []
    rwa [List.append_nil] at h
  rw [clientHandleMessage, hkey.symmetricKey, recvEncServerMsg_sendEncServerMsg _
    (by rw [length_put16]; decide)]
  simp only [hcommand]
  cases c with
  | getRelayMap =>
    rw [if_pos rfl]
    cases handleGetRelayMap s.manager relayStart <;> rfl
  | exit => rfl

section Relay

variable (hD : D.Valid) (hkey : D.Agreed i key)

include hD hkey

/-- The handlers of a relay see the request as it was sent, and the key of the relay. -/
theorem relayHandleMessage_request (relayData : Option ℕ) {request : List UInt8}
    (hrequest : request.length ≤ serverMsgSize) :
    relayHandleMessage D.gmp env s thread ref relayData key (sendEncServerMsg (D.secret i) request) =
      (handleMessage s.manager relayData (D.publicKey i) env.sent env.addr
        (some (ofCell (serverMsg request)))).map fun o =>
          ⟨o.returned, o.running, o.manager, .relay ref o.relayData, o.response.map fun response =>
            sendEncServerMsg (D.secret i)
              (relayAnswer env (command (ofCell (serverMsg request))) o response)⟩ := by
  rw [relayHandleMessage, hkey.symmetricKey, recvEncServerMsg_sendEncServerMsg _ hrequest,
    hkey.getOtherPublicKey hD]
  rfl

theorem relayHandleMessage_signup {addr : List UInt8} (haddr : addr.length = sockAddrSize) :
    relayHandleMessage D.gmp env s thread ref none key
        (sendEncServerMsg (D.secret i) (signupRequest addr)) =
      (s.manager.genRelay env.addr).map fun m =>
        let m := m.describe env.addr ⟨addr, D.publicKey i⟩
        ⟨env.sent, true, m, .relay ref (some env.addr), some (sendEncServerMsg (D.secret i)
          (signupResponse env.timestamp .success
            ((((some env.addr).bind m.heap).map RelayData.relayId).getD 0)))⟩ := by
  have hcommand : command (ofCell (serverMsg (signupRequest addr))) = RelayCommand.signup.code :=
    command_serverMsg _ _
  rw [relayHandleMessage_request env s thread ref hD hkey none
    ((length_signupRequest addr).trans_le (by decide)), handleMessage]
  simp only [hcommand, if_true, handleSignup, relayAddr_serverMsg haddr]
  cases s.manager.genRelay env.addr <;> rfl

/-- The entry that a relay signs out is removed, as its key is that of the session. -/
theorem relayHandleMessage_signout (hs : s.Sound) {id : ℕ} (hlt : id < 2 ^ 32)
    {d : RelayDescriptor} (hid : s.view (.entry id) = some (.entry d))
    (hd : d.publicKey = D.publicKey i) :
    relayHandleMessage D.gmp env s thread ref none key
        (sendEncServerMsg (D.secret i) (signoutRequest id)) =
      some ⟨env.sent, true, (s.manager.removeRelay id).2, .relay ref none,
        some (sendEncServerMsg (D.secret i)
          (responseBase env.timestamp .success RelayCommand.signout.code))⟩ := by
  obtain ⟨hlive, addr, data, hdata, hheap, hrelayId, hdescriptor⟩ := relay_of_view hs hid
  have hcommand : command (ofCell (serverMsg (signoutRequest id))) = RelayCommand.signout.code :=
    command_serverMsg _ _
  have hget : s.manager.getRelay (assignedId (ofCell (serverMsg (signoutRequest id)))) = some addr := by
    rw [assignedId_serverMsg hlt, getRelay_eq, if_pos hlive, hdata]
  have hkeys : data.descriptor.publicKey = D.publicKey i := hdescriptor ▸ hd
  rw [relayHandleMessage_request env s thread ref hD hkey none
    ((length_signoutRequest id).trans_le (by decide)), handleMessage]
  simp only [hcommand]
  rw [if_neg (by decide), if_pos trivial]
  simp only [handleSignout, hget, hheap, Option.bind_eq_bind, Option.bind_some, hkeys, if_true,
    hrelayId]
  rfl

theorem relayHandleMessage_exit (relayData : Option ℕ) :
    relayHandleMessage D.gmp env s thread ref relayData key
        (sendEncServerMsg (D.secret i) (put16 RelayCommand.exit.code)) =
      some ⟨env.sent, false, s.manager, .relay ref none, some (sendEncServerMsg (D.secret i)
        (responseBase env.timestamp .success RelayCommand.exit.code))⟩ := by
  have hcommand : command (ofCell (serverMsg (put16 RelayCommand.exit.code))) =
      RelayCommand.exit.code := by
    have h := command_serverMsg RelayCommand.exit.code []
    rwa [List.append_nil] at h
  rw [relayHandleMessage_request env s thread ref hD hkey relayData
    (by rw [length_put16]; decide), handleMessage]
  simp only [hcommand]
  rfl

end Relay

end Handlers

end OnionRouter.Directory
