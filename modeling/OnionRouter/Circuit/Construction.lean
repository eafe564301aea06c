import OnionRouter.Circuit.System

/-!
# Building a circuit

What the parties of a circuit do when the client builds it over honest relays: the
handshake on every new connection, CREATE, and for every further relay EXTEND, which goes
through the relays that only forward, is taken up by the last one, and comes back as
EXTENDED. Throughout there are messages in one channel only.

* `inevitable_forward`, `inevitable_backward`: a cell goes through the relays in the
  middle, in whatever order the parties go on.
* `inevitable_joined`: a relay that was connected to agrees on its keys.
* `inevitable_extended`: a relay at the end connects to the next one and becomes a relay in
  the middle.
* `inevitable_round`: the client extends the circuit by one relay.
* `circuit_construction`: every run comes to a circuit.
-/

namespace OnionRouter.Circuit

open Client Crypto Directory Lib Net Protocol Relay

variable {ι : Type}

/-- An honest relay as it is in the directory's list: it listens on its address, and its
    public key is what the directory exports. -/
structure Listed (gmp : Gmp) (dh : DhGlobals) (net : Network ι) (relayPrivate : ℕ)
    (descriptor : RelayDescriptor) (relay : ι) : Prop where
  key : net.key relay = genDhPrimeIdentityKey gmp dh relayPrivate
  listen : net.listen (sockaddrToUnix descriptor.sockAddr) = some relay
  published : Published gmp dh (net.key relay) descriptor.publicKey
  length_sockAddr : descriptor.sockAddr.length = sockAddrSize

/-- A client, and honest relays that it chose. -/
structure Setup (ι : Type) where
  gmp : Gmp
  documented : gmp.Documented
  dh : DhGlobals
  p_pos : 0 < dh.p
  p_lt : dh.p < 2 ^ 2048
  net : Network ι
  clientPrivate : ℕ
  relayPrivate : ι → ℕ
  descriptor : ι → RelayDescriptor
  chosen : List ι
  listed : ∀ r ∈ chosen, Listed gmp dh net (relayPrivate r) (descriptor r) r

namespace Setup

variable (C : Setup ι)

/-- The steps of the parties. -/
abbrev machine (init : Set (System ι)) : Machine (System ι) Event :=
  circuitMachine C.gmp C.dh C.net init

/-- The identity key of the client. -/
def clientKey : IdentityKey := genDhPrimeIdentityKey C.gmp C.dh C.clientPrivate

/-- The public key of a private number, as it is exported. -/
def publicBytes (x : ℕ) : List UInt8 := fixedBytes (C.dh.g ^ x % C.dh.p)

/-- The symmetric key of two private numbers. -/
def shared (x y : ℕ) : Block := symmetricKeyOf (C.dh.g ^ (x * y) % C.dh.p)

/-- The private number of the chosen relay `i`. -/
def hopPrivate (i : ℕ) : ℕ := (C.chosen[i]?.map C.relayPrivate).getD 0

/-- The onion key of the chosen relay `i`. -/
def onion (i : ℕ) : Block := C.shared C.clientPrivate (C.hopPrivate i)

/-- The key of the connection to the chosen relay `i`. -/
def link : ℕ → Block
  | 0 => C.shared C.clientPrivate (C.hopPrivate 0)
  | i + 1 => C.shared (C.hopPrivate i) (C.hopPrivate (i + 1))

/-- The first `k` onion keys. -/
def layers (k : ℕ) : List Block := (List.range k).map C.onion

theorem shared_comm (x y : ℕ) : C.shared x y = C.shared y x := by
  rw [shared, shared, Nat.mul_comm]

theorem length_publicBytes (x : ℕ) : (C.publicBytes x).length = asymmetricKeyBytes :=
  length_fixedBytes ((Nat.mod_lt _ C.p_pos).trans C.p_lt)

theorem recvTlsMsg_publicBytes (x : ℕ) (buffer : List UInt8) :
    recvTlsMsg buffer (C.publicBytes x) = some (C.publicBytes x) :=
  recvMsg_of_length_eq (by decide) _ _ (C.length_publicBytes x)

theorem hopPrivate_of_getElem? {i : ℕ} {r : ι} (h : C.chosen[i]? = some r) :
    C.hopPrivate i = C.relayPrivate r := by
  rw [hopPrivate, h]
  rfl

theorem onion_eq {i : ℕ} {r : ι} (h : C.chosen[i]? = some r) :
    C.onion i = C.shared C.clientPrivate (C.relayPrivate r) := by
  rw [onion, C.hopPrivate_of_getElem? h]

theorem link_succ {i : ℕ} {r r' : ι} (h : C.chosen[i]? = some r)
    (h' : C.chosen[i + 1]? = some r') :
    C.link (i + 1) = C.shared (C.relayPrivate r) (C.relayPrivate r') := by
  rw [link, C.hopPrivate_of_getElem? h, C.hopPrivate_of_getElem? h']

theorem getPublicIdentityKey_clientKey (res : Memory UInt8) :
    getPublicIdentityKey C.gmp C.clientKey res = C.publicBytes C.clientPrivate :=
  getPublicIdentityKey_gen C.documented C.p_pos C.p_lt C.clientPrivate res

theorem layers_succ (k : ℕ) : C.layers (k + 1) = C.layers k ++ [C.onion k] := by
  rw [layers, List.range_succ, List.map_append]
  rfl

end Setup

/-! ## The sessions -/

/-- A session of a chosen relay that waits for its role. -/
structure AtRole (C : Setup ι) (link onion : Block) (served : Served ι) : Prop where
  waiting : served.session.waiting = .role
  onionKey : served.session.onionKey.symmetricKey = onion
  tlsLastKey : served.session.tlsLastKey.symmetricKey = link
  tlsNextKey : served.session.tlsNextKey.identity = C.net.key served.relay

/-- A session of the chosen relay `i` that is connected to the next one. -/
structure Connected (C : Setup ι) (i : ℕ) (session : RelaySession) : Prop where
  onionKey : session.onionKey.symmetricKey = C.onion i
  tlsLastKey : session.tlsLastKey.symmetricKey = C.link i
  tlsNextKey : session.tlsNextKey.symmetricKey = C.link (i + 1)
  next : ∃ r, C.chosen[i + 1]? = some r ∧
    session.next = some (sockaddrToUnix (C.descriptor r).sockAddr)

/-- A session in the middle of the circuit. -/
structure AtMiddle (C : Setup ι) (i : ℕ) (served : Served ι) : Prop
    extends Connected C i served.session where
  waiting : served.session.waiting = .middle

theorem AtMiddle.keys {C : Setup ι} {i : ℕ} {served : Served ι} (h : AtMiddle C i served) :
    served.session.keys = ⟨C.onion i, C.link i, C.link (i + 1)⟩ := by
  rw [RelaySession.keys, h.onionKey, h.tlsLastKey, h.tlsNextKey]

theorem getElem?_length_append {α : Type*} (L : List α) (a : α) (R : List α) :
    (L ++ a :: R)[L.length]? = some a := by simp

/-- What a session does that makes no connection, wherever it is in the list. -/
theorem react_append (net : Network ι) (client : ClientSession) (L R : List (Served ι))
    (queues : Queues) (locals : Locals) (served : Served ι) {reaction : Reaction}
    (hconnect : reaction.connect = none) :
    System.react net ⟨client, L ++ served :: R, queues⟩ locals L.length served reaction =
      ⟨client, L ++ { served with session := reaction.session } :: R,
        (queues.send (.fromSession L.length) reaction.toLast).send (.toSession (L.length + 1))
          reaction.toNext⟩ := by
  simp [System.react, hconnect]

/-- A session that changes nothing of itself. -/
theorem react_same (net : Network ι) (client : ClientSession) {sessions : List (Served ι)}
    (queues : Queues) (locals : Locals) {i : ℕ} {served : Served ι} {reaction : Reaction}
    (hserved : sessions[i]? = some served) (hsession : reaction.session = served.session)
    (hconnect : reaction.connect = none) :
    System.react net ⟨client, sessions, queues⟩ locals i served reaction =
      ⟨client, sessions, (queues.send (.fromSession i) reaction.toLast).send (.toSession (i + 1))
        reaction.toNext⟩ := by
  obtain ⟨hi, rfl⟩ := List.getElem?_eq_some_iff.1 hserved
  simp only [System.react, hconnect, hsession, Option.bind_none, Option.toList_none,
    List.append_nil]
  rw [List.set_getElem_self hi]

/-- What a session does that only makes a connection. -/
theorem react_connect (net : Network ι) (client : ClientSession) (L : List (Served ι))
    (queues : Queues) (locals : Locals) (served : Served ι) (session : RelaySession)
    {addr : SockaddrStorage} {next : ι} (hlisten : net.listen addr = some next) :
    System.react net ⟨client, L ++ [served], queues⟩ locals L.length served
        ⟨session, [], [], some addr⟩ =
      ⟨client, L ++ [⟨served.relay, session⟩] ++
        [⟨next, initRelaySession (net.key next) locals.buffer⟩], queues⟩ := by
  simp [System.react, Network.connection, hlisten]

/-! ## Through the relays in the middle -/

section Forwarding

variable (C : Setup ι) {init : Set (System ι)} {P : System ι → Prop} (client : ClientSession)
  {sessions : List (Served ι)} (haccept : NoAccept sessions)

include haccept

/-- A cell goes out through the sessions `j` to `j + m - 1`, which take off their layers.
    By induction on their number. -/
theorem inevitable_forward (m : ℕ) {j : ℕ} {c : List UInt8}
    (hmiddle : ∀ i < j + m, ∃ served, sessions[i]? = some served ∧ AtMiddle C i served)
    (hc : c.length = torMsgSize) (hcmd : ofCell c cmdOffset ≠ TorCommand.torDestroy.code)
    (h : (C.machine init).Inevitable P ⟨client, sessions, .only (.toSession (j + m))
      [encryptLink (some (C.link (j + m)))
        (unwrap decryptOnion ((List.range' j m).map C.onion) c)]⟩) :
    (C.machine init).Inevitable P
      ⟨client, sessions, .only (.toSession j) [encryptLink (some (C.link j)) c]⟩ := by
  induction m generalizing j c with
  | zero => exact h
  | succ m ih =>
    obtain ⟨served, hserved, hforwards⟩ := hmiddle j (by omega)
    refine inevitable_last rfl haccept hserved fun locals => ?_
    have hfd := handleFdCommon_of_client served.session.keys locals.buffer hc
    have hheader : ofCell (decryptOnion (C.onion j) c) cmdOffset = ofCell c cmdOffset :=
      ofCell_of_take (take_onRange_onion _ hc) (by decide)
    rw [hforwards.keys] at hfd
    refine ⟨_, by rw [RelaySession.fromLast, hforwards.waiting], ?_⟩
    have hreaction : handleLastFd locals served.session (encryptLink (some (C.link j)) c) =
        ⟨served.session, [], [encryptLink (some (C.link (j + 1))) (decryptOnion (C.onion j) c)],
          none⟩ := by
      simp only [handleLastFd, hforwards.keys, hfd, hheader, if_neg hcmd]
      rw [← hforwards.waiting]
    rw [hreaction, react_same _ _ _ _ hserved rfl rfl]
    simp only [Queues.send_nil, Queues.send_only_nil]
    refine ih (fun i hi => hmiddle i (by omega)) (length_decryptOnion _ hc) (hheader.trans_ne hcmd) ?_
    rwa [Nat.add_assoc, Nat.add_comm 1 m]

/-- A cell comes back through the sessions `j - 1` to 0, which put on their layers. By
    induction on their number. -/
theorem inevitable_backward {j : ℕ} {c : List UInt8}
    (hmiddle : ∀ i < j, ∃ served, sessions[i]? = some served ∧ AtMiddle C i served)
    (hc : c.length = torMsgSize)
    (h : (C.machine init).Inevitable P ⟨client, sessions, .only (.fromSession 0)
      [encryptLink (some (C.link 0)) (wrap encryptOnion (C.layers j) c)]⟩) :
    (C.machine init).Inevitable P
      ⟨client, sessions, .only (.fromSession j) [encryptLink (some (C.link j)) c]⟩ := by
  induction j generalizing c with
  | zero => exact h
  | succ j ih =>
    obtain ⟨served, hserved, hforwards⟩ := hmiddle j (Nat.lt_succ_self j)
    refine inevitable_next rfl haccept hserved fun locals => ?_
    have hfd := handleFdCommon_of_next served.session.keys locals.buffer hc
    rw [hforwards.keys] at hfd
    refine ⟨_, by rw [RelaySession.fromNext, hforwards.waiting], ?_⟩
    have hreaction : handleNextFd locals served.session (encryptLink (some (C.link (j + 1))) c) =
        ⟨served.session, [encryptLink (some (C.link j)) (encryptOnion (C.onion j) c)], [], none⟩ := by
      simp only [handleNextFd, hforwards.keys, hfd]
    rw [hreaction, react_same _ _ _ _ hserved rfl rfl]
    simp only [Queues.send_nil, Queues.send_only_nil]
    refine ih (fun i hi => hmiddle i (by omega)) (length_encryptOnion _ hc) ?_
    rwa [C.layers_succ, wrap_concat] at h

end Forwarding

/-! ## What an honest relay does -/

section Reactions

variable (C : Setup ι) (locals : Locals) (session : RelaySession) {relay : ι}
  (hrelay : relay ∈ C.chosen) {link : Block} {c : List UInt8} (hc : c.length = torMsgSize)

section Handshakes

include hrelay

theorem recvTlsKey_publicBytes (hkey : session.tlsLastKey.identity = C.net.key relay) (y : ℕ) :
    ∃ key, Relay.recvTlsKey C.gmp C.dh locals session (C.publicBytes y) =
        { session with tlsLastKey := key }.goto .create ∧
      key.symmetricKey = C.shared y (C.relayPrivate relay) := by
  obtain ⟨key, hhandshake, -, hsymmetric⟩ := handleTlsRecviever_published C.documented C.p_pos
    C.p_lt locals.arrays locals.res (hkey.trans (C.listed relay hrelay).key)
    (show C.publicBytes y = _ from rfl)
  refine ⟨key, ?_, hsymmetric⟩
  simp only [Relay.recvTlsKey, C.recvTlsMsg_publicBytes, hhandshake, if_true]

/-- The relay hands on the public key of the client, which it found in its buffer. -/
theorem recvNextTlsKey_publicBytes (hkey : session.tlsNextKey.identity = C.net.key relay) {y : ℕ}
    {addr : List UInt8} (hbuffer : IsExtendCell session.buffer (C.publicBytes C.clientPrivate) addr) :
    ∃ key cell, Relay.recvNextTlsKey C.gmp C.dh locals session (C.publicBytes y) =
        { session := { session with
            waiting := .nextCreated
            tlsNextKey := key
            buffer := encryptLink (some (C.shared (C.relayPrivate relay) y)) cell }
          toLast := []
          toNext := [C.publicBytes (C.relayPrivate relay),
            encryptLink (some (C.shared (C.relayPrivate relay) y)) cell]
          connect := none } ∧
      key.symmetricKey = C.shared (C.relayPrivate relay) y ∧ cell.length = torMsgSize ∧
      IsCreateCell cell (C.publicBytes C.clientPrivate) := by
  obtain ⟨key, hhandshake, -, hsymmetric⟩ := handleTlsSender_published C.documented C.p_pos
    C.p_lt locals.arrays locals.res (hkey.trans (C.listed relay hrelay).key)
    (show C.publicBytes y = _ from rfl)
  have hlink : key.symmetricKey = C.shared (C.relayPrivate relay) y :=
    hsymmetric.trans (C.shared_comm y (C.relayPrivate relay))
  refine ⟨key, _, ?_, hlink, Stores.length_onCell _ _,
    isCreateCell_torSendMiddleRelayCreate session.buffer (C.length_publicBytes _)⟩
  simp only [recvNextTlsKey, C.recvTlsMsg_publicBytes, hhandshake, if_true, hlink,
    hbuffer.publicKey]
  rfl

include hc

theorem handleCreateMessage_create (hkey : session.onionKey.identity = C.net.key relay)
    (hlink : session.tlsLastKey.symmetricKey = link)
    (hcreate : IsCreateCell c (C.publicBytes C.clientPrivate)) :
    ∃ key cell, handleCreateMessage C.gmp C.dh locals session (encryptLink (some link) c) =
        { session := { session with
            waiting := .role
            onionKey := key
            buffer := encryptLink (some link) cell }
          toLast := [encryptLink (some link) cell]
          toNext := []
          connect := none } ∧
      key.symmetricKey = C.shared C.clientPrivate (C.relayPrivate relay) ∧
      cell.length = torMsgSize ∧ ofCell cell cmdOffset = TorCommand.torCreated.code := by
  obtain ⟨key, hderive, -, hsymmetric⟩ := deriveSymmetricKeyFromPublic_published C.documented
    C.p_pos C.p_lt locals.arrays (hkey.trans (C.listed relay hrelay).key)
    (show C.publicBytes C.clientPrivate = _ from rfl)
  have hrecv := recvTorBuffer_of_link link true session.buffer hc
  refine ⟨key, createdMsg.onCell c, ?_, hsymmetric, Stores.length_onCell _ _, cmd_createdMsg c⟩
  simp only [handleCreateMessage, hlink, hrecv, hcreate.cmd, if_true, hcreate.publicKey, hderive]
  rfl

end Handshakes

include hc

/-- The relay connects to the address in the cell, when another relay listens there. -/
theorem processRelaySession_extend {onion : Block} {publicKey addr : List UInt8}
    (hlink : session.tlsLastKey.symmetricKey = link)
    (honion : session.onionKey.symmetricKey = onion)
    (hextend : IsExtendCell (decryptOnion onion c) publicKey addr) {next : ι}
    (hlisten : C.net.listen (sockaddrToUnix addr) = some next) :
    processRelaySession session (fun addr => (C.net.listen addr).isSome)
        (encryptLink (some link) c) =
      { session := { session with
          waiting := .nextTlsKey
          next := some (sockaddrToUnix addr)
          buffer := decryptOnion onion c }
        toLast := []
        toNext := []
        connect := some (sockaddrToUnix addr) } := by
  have hrecv := recvTorBuffer_of_client link onion session.buffer hc
  simp only [processRelaySession, hlink, honion, hrecv, hextend.relay, hextend.cmd, hextend.addr,
    hlisten, and_self, if_true, Option.isSome_some]

theorem recvNextCreated_created {onion nextLink : Block}
    (hlink : session.tlsLastKey.symmetricKey = link)
    (honion : session.onionKey.symmetricKey = onion)
    (hnext : session.tlsNextKey.symmetricKey = nextLink)
    (hcreated : ofCell c cmdOffset = TorCommand.torCreated.code) :
    ∃ cell, recvNextCreated session (encryptLink (some nextLink) c) =
        { session := { session with
            waiting := .middle
            buffer := encryptLink (some link) (encryptOnion onion cell) }
          toLast := [encryptLink (some link) (encryptOnion onion cell)]
          toNext := []
          connect := none } ∧
      cell.length = torMsgSize ∧
      ofCell cell relayCmdOffset = RelayCommand.relayExtended.code := by
  have hrecv := recvTorBuffer_of_link nextLink false session.buffer hc
  refine ⟨torSendMiddleRelayExtended.onCell c, ?_, Stores.length_onCell _ _,
    cmd_torSendMiddleRelayExtended c⟩
  simp only [recvNextCreated, hlink, honion, hnext, hrecv, hcreated, if_true]
  rfl

end Reactions

/-! ## A new connection -/

theorem NoAccept.append {L R : List (Served ι)} (hL : NoAccept L) (hR : NoAccept R) :
    NoAccept (L ++ R) := by
  intro served hserved
  rcases List.mem_append.1 hserved with h | h
  · exact hL served h
  · exact hR served h

theorem noAccept_nil : NoAccept ([] : List (Served ι)) := fun _ h => absurd h List.not_mem_nil

theorem noAccept_singleton {served : Served ι} (h : served.session.waiting ≠ .accept) :
    NoAccept [served] := by
  intro served' hserved'
  rw [List.mem_singleton.1 hserved']
  exact h

theorem AtRole.noAccept {C : Setup ι} {link onion : Block} {served : Served ι}
    (h : AtRole C link onion served) : NoAccept [served] :=
  noAccept_singleton (by simp [h.waiting])

section Joining

variable (C : Setup ι) {init : Set (System ι)} {P : System ι → Prop} (client : ClientSession)
  {L : List (Served ι)} (hL : NoAccept L) {relay : ι} (hrelay : relay ∈ C.chosen)
  (buffer : List UInt8)

/-- The session of a new connection, from where it sent its public key. -/
def greeted (relay : ι) : RelaySession :=
  { initRelaySession (C.net.key relay) buffer with waiting := .tlsKey }

include hL hrelay

/-- A relay takes up the new connection and sends its public key. -/
theorem inevitable_greeted (channel : Channel)
    (h : (C.machine init).Inevitable P ⟨client, L ++ [⟨relay, greeted C buffer relay⟩],
      .only (.fromSession L.length) [C.publicBytes (C.relayPrivate relay)]⟩) :
    (C.machine init).Inevitable P
      ⟨client, L ++ [⟨relay, initRelaySession (C.net.key relay) buffer⟩], .only channel []⟩ := by
  refine inevitable_accept (fun c => by simp only [Queues.only, ite_self])
    (getElem?_length_append _ _ _) rfl ?_ fun locals => ?_
  · intro j served' hserved' hwaiting'
    rcases Nat.lt_trichotomy j L.length with hlt | heq | hgt
    · rw [List.getElem?_append_left hlt] at hserved'
      exact absurd hwaiting' (hL served' (List.mem_of_getElem? hserved'))
    · exact heq
    · rw [List.getElem?_eq_none (by simpa using hgt)] at hserved'
      cases hserved'
  · have hpublic : getPublicIdentityKey C.gmp (C.net.key relay) locals.res =
        C.publicBytes (C.relayPrivate relay) := by
      rw [(C.listed relay hrelay).key]
      exact getPublicIdentityKey_gen C.documented C.p_pos C.p_lt _ _
    rw [react_append _ _ _ _ _ _ _ rfl]
    have hcallback : clientCallback C.gmp locals (initRelaySession (C.net.key relay) buffer) =
        ⟨greeted C buffer relay, [C.publicBytes (C.relayPrivate relay)], [], none⟩ := by
      rw [← hpublic]
      rfl
    simp only [hcallback, Queues.send_only_nil, Queues.send_nil]
    exact h

/-- The relay agrees on the key of the connection with the owner of `y`, and on its onion
    key with the client. -/
theorem inevitable_joined {y : ℕ} {c : List UInt8} (hc : c.length = torMsgSize)
    (hcreate : IsCreateCell c (C.publicBytes C.clientPrivate))
    (h : ∀ session c', AtRole C (C.shared y (C.relayPrivate relay))
        (C.shared C.clientPrivate (C.relayPrivate relay)) ⟨relay, session⟩ →
      c'.length = torMsgSize → ofCell c' cmdOffset = TorCommand.torCreated.code →
      (C.machine init).Inevitable P ⟨client, L ++ [⟨relay, session⟩], .only (.fromSession L.length)
        [encryptLink (some (C.shared y (C.relayPrivate relay))) c']⟩) :
    (C.machine init).Inevitable P ⟨client, L ++ [⟨relay, greeted C buffer relay⟩],
      .only (.toSession L.length)
        [C.publicBytes y, encryptLink (some (C.shared y (C.relayPrivate relay))) c]⟩ := by
  have haccept : ∀ session : RelaySession, session.waiting ≠ .accept →
      NoAccept (L ++ [(⟨relay, session⟩ : Served ι)]) :=
    fun session hsession => hL.append (noAccept_singleton hsession)
  -- The rest of the handshake.
  refine inevitable_last rfl (haccept _ nofun) (getElem?_length_append _ _ _)
    fun locals => ⟨_, rfl, ?_⟩
  obtain ⟨key, hjoin, hlink⟩ :=
    recvTlsKey_publicBytes C locals (greeted C buffer relay) hrelay rfl y
  rw [hjoin, react_append _ _ _ _ _ _ _ rfl]
  simp only [RelaySession.goto, Queues.send_nil]
  -- CREATE, over the connection.
  refine inevitable_last rfl (haccept _ nofun) (getElem?_length_append _ _ _)
    fun locals => ⟨_, rfl, ?_⟩
  obtain ⟨onionKey, cell, hcreated, honion, hlength, hcmd⟩ := handleCreateMessage_create C locals
    { greeted C buffer relay with waiting := .create, tlsLastKey := key } hrelay hc rfl hlink
    hcreate
  rw [hcreated, react_append _ _ _ _ _ _ _ rfl]
  simp only [Queues.send_nil, Queues.send_only_nil]
  exact h _ _ ⟨rfl, honion, hlink, rfl⟩ hlength hcmd

end Joining

/-! ## Extending the circuit -/

section Extending

variable (C : Setup ι) {init : Set (System ι)} {P : System ι → Prop} (client : ClientSession)
  {mids : List (Served ι)} (hmids : NoAccept mids) {served : Served ι} {next : ι}
  (hrelay : C.chosen[mids.length]? = some served.relay)
  (hnext : C.chosen[mids.length + 1]? = some next)

include hmids hrelay hnext

/-- The new relay joins, and the one before it reports to the client. -/
theorem inevitable_reported {session : RelaySession} (hconnected : Connected C mids.length session)
    (hwaiting : session.waiting = .nextCreated) (buffer : List UInt8) {c : List UInt8}
    (hc : c.length = torMsgSize) (hcreate : IsCreateCell c (C.publicBytes C.clientPrivate))
    (h : ∀ session session' c', AtMiddle C mids.length ⟨served.relay, session⟩ →
      AtRole C (C.link (mids.length + 1)) (C.onion (mids.length + 1)) ⟨next, session'⟩ →
      c'.length = torMsgSize → ofCell c' relayCmdOffset = RelayCommand.relayExtended.code →
      (C.machine init).Inevitable P
        ⟨client, mids ++ [⟨served.relay, session⟩, ⟨next, session'⟩],
          .only (.fromSession mids.length) [encryptLink (some (C.link mids.length))
            (encryptOnion (C.onion mids.length) c')]⟩) :
    (C.machine init).Inevitable P
      ⟨client, mids ++ [⟨served.relay, session⟩, ⟨next, greeted C buffer next⟩],
        .only (.toSession (mids.length + 1)) [C.publicBytes (C.relayPrivate served.relay),
          encryptLink (some (C.link (mids.length + 1))) c]⟩ := by
  have hlength : (mids ++ [(⟨served.relay, session⟩ : Served ι)]).length = mids.length + 1 := by
    simp
  have haccept : NoAccept (mids ++ [(⟨served.relay, session⟩ : Served ι)]) :=
    hmids.append (noAccept_singleton (by simp [hwaiting]))
  rw [List.append_cons, C.link_succ hrelay hnext, ← hlength]
  refine inevitable_joined C client haccept (List.mem_of_getElem? hnext) buffer hc hcreate
    fun session' c' hrole hc' hcreated => ?_
  rw [hlength, List.append_assoc, List.singleton_append]
  rw [← C.link_succ hrelay hnext] at hrole ⊢
  rw [← C.onion_eq hnext] at hrole
  -- CREATED comes back.
  refine inevitable_next rfl ?_ (getElem?_length_append _ _ _) fun locals =>
    ⟨_, by rw [RelaySession.fromNext, hwaiting], ?_⟩
  · rw [List.append_cons]
    exact haccept.append hrole.noAccept
  obtain ⟨cell, hextended, hcell, hcmd⟩ := recvNextCreated_created session hc'
    hconnected.tlsLastKey hconnected.onionKey hconnected.tlsNextKey hcreated
  rw [hextended, react_append _ _ _ _ _ _ _ rfl]
  simp only [Queues.send_only_nil, Queues.send_nil]
  exact h _ _ _ ⟨⟨hconnected.onionKey, hconnected.tlsLastKey, hconnected.tlsNextKey,
    hconnected.next⟩, rfl⟩ hrole hcell hcmd

/-- The last relay takes up an EXTEND cell: it connects to the next relay, agrees on the key
    of the connection, hands on the public key of the client, and becomes a relay in the
    middle. -/
theorem inevitable_extended (hrole : AtRole C (C.link mids.length) (C.onion mids.length) served)
    {c : List UInt8} (hc : c.length = torMsgSize)
    (hextend : IsExtendCell (decryptOnion (C.onion mids.length) c)
      (C.publicBytes C.clientPrivate) (C.descriptor next).sockAddr)
    (h : ∀ session session' c', AtMiddle C mids.length ⟨served.relay, session⟩ →
      AtRole C (C.link (mids.length + 1)) (C.onion (mids.length + 1)) ⟨next, session'⟩ →
      c'.length = torMsgSize → ofCell c' relayCmdOffset = RelayCommand.relayExtended.code →
      (C.machine init).Inevitable P
        ⟨client, mids ++ [⟨served.relay, session⟩, ⟨next, session'⟩],
          .only (.fromSession mids.length) [encryptLink (some (C.link mids.length))
            (encryptOnion (C.onion mids.length) c')]⟩) :
    (C.machine init).Inevitable P ⟨client, mids ++ [served], .only (.toSession mids.length)
      [encryptLink (some (C.link mids.length)) c]⟩ := by
  have hnextChosen := List.mem_of_getElem? hnext
  have hlisten := (C.listed next hnextChosen).listen
  have hlength : ∀ a : Served ι, (mids ++ [a]).length = mids.length + 1 := by simp
  have haccept : ∀ (session : RelaySession) R, session.waiting ≠ .accept → NoAccept R →
      NoAccept (mids ++ ⟨served.relay, session⟩ :: R) := fun session R hsession hR =>
    hmids.append ((noAccept_singleton hsession).append hR)
  -- The relay connects to the address in the cell, and the other relay takes that up.
  refine inevitable_last rfl (haccept served.session [] ?_ noAccept_nil) (getElem?_length_append _ _ _)
    fun locals => ⟨_, by rw [RelaySession.fromLast, hrole.waiting], ?_⟩
  · simp [hrole.waiting]
  rw [processRelaySession_extend C served.session hc hrole.tlsLastKey hrole.onionKey hextend hlisten,
    react_connect _ _ _ _ _ _ _ hlisten]
  refine inevitable_greeted C client ?_ hnextChosen _ _ ?_
  · exact haccept _ [] (by simp) noAccept_nil
  rw [hlength, List.append_assoc, List.singleton_append]
  -- It agrees on the key of the connection and hands on the public key of the client.
  refine inevitable_next rfl ?_ (getElem?_length_append _ _ _) fun locals => ⟨_, rfl, ?_⟩
  · exact haccept _ _ (by simp) (noAccept_singleton (by simp [greeted]))
  obtain ⟨key, cell, htold, hkey, hcell, hcreate⟩ := recvNextTlsKey_publicBytes C locals
    { served.session with
      waiting := .nextTlsKey
      next := some (sockaddrToUnix (C.descriptor next).sockAddr)
      buffer := decryptOnion (C.onion mids.length) c }
    (List.mem_of_getElem? hrelay) hrole.tlsNextKey hextend
  rw [htold, react_append _ _ _ _ _ _ _ rfl]
  simp only [Queues.send_only_nil, Queues.send_nil]
  rw [← C.link_succ hrelay hnext] at hkey ⊢
  refine inevitable_reported C client hmids hrelay hnext ?_ rfl _ hcell hcreate h
  exact ⟨hrole.onionKey, hrole.tlsLastKey, hkey, next, hnext, rfl⟩

end Extending

/-! ## The client -/

/-- The client of a circuit of `j` relays. -/
structure Prepared (C : Setup ι) (j : ℕ) (client : ClientSession) : Prop where
  idKey : client.idKey = C.clientKey
  onionKeys : client.onionKeys.map KeyData.symmetricKey = C.layers C.chosen.length
  tlsKey : client.tlsKey.symmetricKey = C.link 0
  relays : client.relays.relays = C.chosen.map C.descriptor
  curRelays : client.curRelays = j

section TheClient

variable (C : Setup ι) (locals : Locals) {j : ℕ} {client : ClientSession}

theorem Prepared.layers (h : Prepared C j client) (hj : j ≤ C.chosen.length) :
    client.layers = C.layers j := by
  rw [ClientSession.layers, List.map_take, h.onionKeys, h.curRelays, Setup.layers, ← List.map_take,
    List.take_range, Nat.min_eq_left hj, Setup.layers]

/-- The client asks the circuit to extend to the next relay of its list. -/
theorem createRelayCircuit_extend (h : Prepared C j client) {next : ι}
    (hnext : C.chosen[j]? = some next) :
    ∃ cell, createRelayCircuit C.gmp locals client =
        ({ client with
            waiting := .extended
            buffer := encryptLink (some (C.link 0)) (wrap encryptOnion (C.layers j) cell) },
          [encryptLink (some (C.link 0)) (wrap encryptOnion (C.layers j) cell)]) ∧
      cell.length = torMsgSize ∧
      IsExtendCell cell (C.publicBytes C.clientPrivate) (C.descriptor next).sockAddr := by
  obtain ⟨hj, -⟩ := List.getElem?_eq_some_iff.1 hnext
  have hrelay : client.relays.relays[client.curRelays]? = some (C.descriptor next) := by
    rw [h.relays, h.curRelays, List.getElem?_map, hnext]
    rfl
  have hlength := (C.listed next (List.mem_of_getElem? hnext)).length_sockAddr
  refine ⟨(torSendExtendMsg (C.publicBytes C.clientPrivate) (C.descriptor next).sockAddr).onCell
    client.buffer, ?_, Stores.length_onCell _ _,
    isExtendCell_torSendExtendMsg client.buffer (C.length_publicBytes _) hlength⟩
  simp only [createRelayCircuit, hrelay, h.idKey, C.getPublicIdentityKey_clientKey, h.tlsKey,
    h.layers C hj.le]
  rfl

/-- The circuit is complete. -/
theorem createRelayCircuit_done (h : Prepared C C.chosen.length client) :
    createRelayCircuit C.gmp locals client =
      ({ client with waiting := .returned .success }, []) := by
  have hnone : client.relays.relays[client.curRelays]? = none := by
    rw [h.relays, h.curRelays, ← List.length_map C.descriptor]
    exact List.getElem?_eq_none le_rfl
  simp only [createRelayCircuit, hnone]

/-- EXTENDED comes through all layers. -/
theorem recvExtended_extended (h : Prepared C j client) (hj : j ≤ C.chosen.length)
    {c : List UInt8} (hc : c.length = torMsgSize)
    (hcmd : ofCell c relayCmdOffset = RelayCommand.relayExtended.code) :
    ∃ client', recvExtended C.gmp locals client
        (encryptLink (some (C.link 0)) (wrap encryptOnion (C.layers j) c)) =
          createRelayCircuit C.gmp locals client' ∧ Prepared C (j + 1) client' := by
  have hrecv := clientRecvTorBuffer_of_link (C.link 0) (C.layers j) client.buffer
    (length_wrap_encryptOnion (C.layers j) hc)
  -- `cmd` lies before the bytes that the layers do not restore.
  have hcmd' := (ofCell_of_take (take_unwrap_wrap_onion (C.layers j) hc)
    (by decide : relayCmdOffset < tailOffset)).trans hcmd
  refine ⟨{ client with
    curRelays := client.curRelays + 1
    buffer := unwrap decryptOnion (C.layers j) (wrap encryptOnion (C.layers j) c) }, ?_, ?_⟩
  · simp only [recvExtended, h.tlsKey, h.layers C hj, hrecv, hcmd', if_true]
  · exact ⟨h.idKey, h.onionKeys, h.tlsKey, h.relays, congrArg (· + 1) h.curRelays⟩

end TheClient

/-! ## The circuit -/

/-- The circuit over the chosen relays is built: `create_relay_circuit` returned success, all
    relays but the last are in the middle, connected to the address of the next one, the last
    one waits for its role, and the client has their onion keys. No message is on its way. -/
structure Constructed (descriptor : ι → RelayDescriptor) (chosen : List ι) (s : System ι) :
    Prop where
  success : s.client.waiting = .returned .success
  curRelays : s.client.curRelays = chosen.length
  relays : s.sessions.map Served.relay = chosen
  middle : ∀ i served next, s.sessions[i]? = some served → chosen[i + 1]? = some next →
    served.session.waiting = .middle ∧
      served.session.next = some (sockaddrToUnix (descriptor next).sockAddr)
  last : ∀ served, s.sessions.getLast? = some served → served.session.waiting = .role
  keys : s.client.onionKeys.map KeyData.symmetricKey =
    s.sessions.map fun served => served.session.onionKey.symmetricKey
  quiet : ∀ channel, s.queues channel = []

/-- The sessions of a circuit: those in the middle, and the last one. -/
structure Chain (C : Setup ι) (mids : List (Served ι)) (last : Served ι) : Prop where
  relays : (mids ++ [last]).map Served.relay = C.chosen.take (mids.length + 1)
  middle : ∀ i served, mids[i]? = some served → AtMiddle C i served
  role : AtRole C (C.link mids.length) (C.onion mids.length) last

section TheCircuit

variable {C : Setup ι} {init : Set (System ι)} {mids : List (Served ι)} {last : Served ι}

namespace Chain

theorem noAccept (h : Chain C mids last) : NoAccept mids := by
  intro served hserved
  obtain ⟨i, hi⟩ := List.mem_iff_getElem?.1 hserved
  simp [(h.middle i served hi).waiting]

/-- The sessions in the middle, with others behind them. -/
theorem exists_middle (h : Chain C mids last) (R : List (Served ι)) (i : ℕ) (hi : i < mids.length) :
    ∃ served, (mids ++ R)[i]? = some served ∧ AtMiddle C i served := by
  have hget := List.getElem?_eq_getElem hi
  exact ⟨mids[i], (List.getElem?_append_left hi).trans hget, h.middle i _ hget⟩

theorem relay_last (h : Chain C mids last) : C.chosen[mids.length]? = some last.relay := by
  have hget := congrArg (·[mids.length]?) h.relays
  simp only [List.map_append, List.map_cons, List.map_nil] at hget
  rw [List.getElem?_take_of_lt (Nat.lt_succ_self _)] at hget
  rw [← hget]
  have hlast := getElem?_length_append (mids.map Served.relay) last.relay []
  rwa [List.length_map] at hlast

/-- The onion keys of the sessions. -/
theorem onionKeys (h : Chain C mids last) :
    (mids ++ [last]).map (fun served => served.session.onionKey.symmetricKey) =
      C.layers (mids.length + 1) := by
  rw [C.layers_succ, List.map_append]
  refine congrArg₂ _ (List.ext_getElem? fun i => ?_) (congrArg (fun key => [key]) h.role.onionKey)
  rw [List.getElem?_map, Setup.layers, List.getElem?_map]
  rcases Nat.lt_or_ge i mids.length with hi | hi
  · rw [List.getElem?_range hi, List.getElem?_eq_getElem hi]
    exact congrArg some (h.middle i _ (List.getElem?_eq_getElem hi)).onionKey
  · rw [List.getElem?_eq_none hi, List.getElem?_eq_none (by rwa [List.length_range])]
    rfl

/-- The chain with one more relay. -/
theorem extend (h : Chain C mids last) {next : ι} (hnext : C.chosen[mids.length + 1]? = some next)
    {session session' : RelaySession} (hmiddle : AtMiddle C mids.length ⟨last.relay, session⟩)
    (hrole : AtRole C (C.link (mids.length + 1)) (C.onion (mids.length + 1)) ⟨next, session'⟩) :
    Chain C (mids ++ [⟨last.relay, session⟩]) ⟨next, session'⟩ := by
  have hlength : (mids ++ [(⟨last.relay, session⟩ : Served ι)]).length = mids.length + 1 := by simp
  refine ⟨?_, fun i served hserved => ?_, hlength.symm ▸ hrole⟩
  · rw [hlength, List.take_add_one, hnext, ← h.relays]
    simp
  · rcases Nat.lt_trichotomy i mids.length with hlt | rfl | hgt
    · rw [List.getElem?_append_left hlt] at hserved
      exact h.middle i served hserved
    · rw [getElem?_length_append] at hserved
      obtain rfl := Option.some.inj hserved
      exact hmiddle
    · rw [List.getElem?_eq_none (by rw [hlength]; exact hgt)] at hserved
      cases hserved

end Chain

/-- A chain of all chosen relays is the circuit. -/
theorem constructed_of_chain {client : ClientSession} (hchain : Chain C mids last)
    (hlength : mids.length + 1 = C.chosen.length) (hclient : Prepared C C.chosen.length client) :
    Constructed C.descriptor C.chosen
      ⟨{ client with waiting := .returned .success }, mids ++ [last], .only (.toSession 0) []⟩ := by
  refine ⟨rfl, hclient.curRelays, ?_, fun i served next hserved hnext => ?_, ?_, ?_, ?_⟩
  · rw [hchain.relays, hlength, List.take_length]
  · have hi : i < mids.length := by
      have hlt := (List.getElem?_eq_some_iff.1 hnext).1
      omega
    rw [List.getElem?_append_left hi] at hserved
    have hmiddle := hchain.middle i served hserved
    obtain ⟨r, hr, haddr⟩ := hmiddle.next
    obtain rfl := Option.some.inj (hr.symm.trans hnext)
    exact ⟨hmiddle.waiting, haddr⟩
  · intro served hserved
    rw [List.getLast?_concat] at hserved
    obtain rfl := Option.some.inj hserved
    exact hchain.role.waiting
  · rw [hclient.onionKeys, ← hlength, ← hchain.onionKeys]
  · intro channel
    simp only [Queues.only, ite_self]

/-- A round of `create_relay_circuit`: EXTEND and EXTENDED go through the circuit, and it has
    one relay more. -/
theorem inevitable_round (locals : Locals) {client : ClientSession} {P : System ι → Prop}
    (hchain : Chain C mids last) (hclient : Prepared C (mids.length + 1) client)
    (hlt : mids.length + 1 < C.chosen.length)
    (h : ∀ locals client' mids' last', mids'.length = mids.length + 1 → Chain C mids' last' →
      Prepared C (mids'.length + 1) client' → (C.machine init).Inevitable P
        ⟨(createRelayCircuit C.gmp locals client').1, mids' ++ [last'],
          .only (.toSession 0) (createRelayCircuit C.gmp locals client').2⟩) :
    (C.machine init).Inevitable P
      ⟨(createRelayCircuit C.gmp locals client).1, mids ++ [last],
        .only (.toSession 0) (createRelayCircuit C.gmp locals client).2⟩ := by
  have hnext := List.getElem?_eq_getElem hlt
  have hlastAccept : NoAccept [last] := hchain.role.noAccept
  obtain ⟨cell, hsent, hcell, hextend⟩ := createRelayCircuit_extend C locals hclient hnext
  rw [hsent]
  have hwrapped := header_wrap_encryptOnion (C.layers (mids.length + 1)) ⟨hcell, rfl⟩
  have hcmd := (ofCell_of_take hwrapped.2 (by decide : cmdOffset < onionOffset)).trans
    hextend.relay
  -- EXTEND goes out to the last relay, which takes off the last layer.
  refine inevitable_forward C _ (hchain.noAccept.append hlastAccept) mids.length
    (fun i hi => hchain.exists_middle _ i (by rwa [Nat.zero_add] at hi)) hwrapped.1
    (by rw [hcmd]; decide) ?_
  rw [Nat.zero_add, ← List.range_eq_range', ← Setup.layers]
  have hunwrapped := header_unwrap_decryptOnion (C.layers mids.length) hwrapped
  have htake : (decryptOnion (C.onion mids.length) (unwrap decryptOnion (C.layers mids.length)
      (wrap encryptOnion (C.layers (mids.length + 1)) cell))).take tailOffset =
        cell.take tailOffset := by
    rw [← unwrap_concat decryptOnion, ← C.layers_succ, take_unwrap_wrap_onion _ hcell]
  refine inevitable_extended C _ hchain.noAccept hchain.relay_last hnext hchain.role
    hunwrapped.1 (hextend.of_take (by decide) htake)
    fun session session' c hmiddle hrole hc hextended => ?_
  -- EXTENDED comes back through the relays before it.
  have hchain' := hchain.extend hnext hmiddle hrole
  have haccept' : NoAccept (mids ++ [⟨last.relay, session⟩,
      ⟨C.chosen[mids.length + 1], session'⟩]) := by
    rw [List.append_cons]
    exact hchain'.noAccept.append hrole.noAccept
  refine inevitable_backward C _ haccept' (hchain.exists_middle _) (length_encryptOnion _ hc) ?_
  rw [← wrap_concat encryptOnion, ← C.layers_succ]
  refine inevitable_client rfl haccept' fun locals => ?_
  have hclient' : Prepared C (mids.length + 1) { client with
      waiting := .extended
      buffer := encryptLink (some (C.link 0))
        (wrap encryptOnion (C.layers (mids.length + 1)) cell) } :=
    ⟨hclient.idKey, hclient.onionKeys, hclient.tlsKey, hclient.relays, hclient.curRelays⟩
  obtain ⟨client', hrecv, hclient'⟩ :=
    recvExtended_extended C locals hclient' hlt.le hc hextended
  have hlength : (mids ++ [(⟨last.relay, session⟩ : Served ι)]).length = mids.length + 1 := by simp
  refine ⟨_, _, congrArg some hrecv, ?_⟩
  rw [Queues.send_only_nil, List.append_cons]
  exact h locals client' _ _ hlength hchain' (hlength.symm ▸ hclient')

/-- From a circuit of some relays, the client comes to one of all that it chose. By induction
    on how many are missing. -/
theorem inevitable_finished (locals : Locals) {client : ClientSession} {P : System ι → Prop}
    (missing : ℕ) (hmissing : mids.length + 1 + missing = C.chosen.length) (hchain : Chain C mids last)
    (hclient : Prepared C (mids.length + 1) client)
    (h : ∀ client mids last, mids.length + 1 = C.chosen.length → Chain C mids last →
      Prepared C C.chosen.length client →
        P ⟨{ client with waiting := .returned .success }, mids ++ [last], .only (.toSession 0) []⟩) :
    (C.machine init).Inevitable P
      ⟨(createRelayCircuit C.gmp locals client).1, mids ++ [last],
        .only (.toSession 0) (createRelayCircuit C.gmp locals client).2⟩ := by
  induction missing generalizing mids last client locals with
  | zero =>
    rw [Nat.add_zero] at hmissing
    rw [hmissing] at hclient
    rw [createRelayCircuit_done C locals hclient]
    exact .now (h client mids last hmissing hchain hclient)
  | succ missing ih =>
    refine inevitable_round locals hchain hclient (by omega)
      fun locals client' mids' last' hlength hchain' hclient' => ?_
    exact ih locals (by omega) hchain' hclient'

/-! ## From the start -/

theorem layers_chosen (C : Setup ι) : C.layers C.chosen.length =
    C.chosen.map fun r => C.shared C.clientPrivate (C.relayPrivate r) := by
  refine List.ext_getElem? fun i => ?_
  rw [Setup.layers, List.getElem?_map, List.getElem?_map]
  rcases Nat.lt_or_ge i C.chosen.length with hi | hi
  · have hget := List.getElem?_eq_getElem hi
    rw [List.getElem?_range hi, hget]
    exact congrArg some (C.onion_eq hget)
  · rw [List.getElem?_eq_none hi, List.getElem?_eq_none (by rwa [List.length_range])]
    rfl

/-- The client derives its onion keys from the list of the directory. By induction on the
    relays. -/
theorem mapM_derive (arrays : DeriveArrays) {chosen : List ι} (hchosen : ∀ r ∈ chosen, r ∈ C.chosen) :
    ∃ keys, (chosen.map C.descriptor).mapM (fun relay => deriveSymmetricKeyFromPublic C.gmp C.dh
        arrays (initKey C.clientKey) relay.publicKey) = some keys ∧
      keys.map KeyData.symmetricKey =
        chosen.map fun r => C.shared C.clientPrivate (C.relayPrivate r) := by
  induction chosen with
  | nil => exact ⟨[], rfl, rfl⟩
  | cons r chosen ih =>
    obtain ⟨keys, hkeys, hsymmetric⟩ := ih fun r hr => hchosen r (List.mem_cons_of_mem _ hr)
    have hlisted := C.listed r (hchosen r List.mem_cons_self)
    have hpublished := hlisted.published
    rw [hlisted.key] at hpublished
    obtain ⟨key, hkey, -, hshared⟩ := deriveSymmetricKeyFromPublic_published C.documented C.p_pos
      C.p_lt arrays (show (initKey C.clientKey).identity = _ from rfl)
      (hpublished.eq_fixedBytes C.documented C.p_pos C.p_lt)
    refine ⟨key :: keys, ?_, ?_⟩
    · rw [List.map_cons, List.mapM_cons, hkey, hkeys]
      rfl
    · rw [List.map_cons, List.map_cons, hsymmetric]
      exact congrArg (· :: _) (hshared.trans (C.shared_comm _ _))

end TheCircuit

/-- The client's part of the handshake with the first relay, and CREATE. -/
theorem recvTlsKey_guard (C : Setup ι) (locals : Locals) {client : ClientSession}
    (hwaiting : client.waiting = .tlsKey) (hidKey : client.idKey = C.clientKey)
    (htlsKey : client.tlsKey.identity = C.clientKey) {r : ι} (hr : C.chosen[0]? = some r) :
    ∃ key cell, client.recv C.gmp C.dh locals (C.publicBytes (C.relayPrivate r)) =
        some ({ client with
            waiting := .created
            tlsKey := key
            buffer := encryptLink (some (C.link 0)) cell },
          [C.publicBytes C.clientPrivate, encryptLink (some (C.link 0)) cell]) ∧
      key.symmetricKey = C.link 0 ∧ cell.length = torMsgSize ∧
      IsCreateCell cell (C.publicBytes C.clientPrivate) := by
  obtain ⟨key, hhandshake, -, hsymmetric⟩ := handleTlsSender_published C.documented C.p_pos
    C.p_lt locals.arrays locals.res (htlsKey.trans (show C.clientKey = _ from rfl))
    (show C.publicBytes (C.relayPrivate r) = _ from rfl)
  have hlink : key.symmetricKey = C.link 0 := by
    rw [Setup.link, C.hopPrivate_of_getElem? hr]
    exact hsymmetric.trans (C.shared_comm (C.relayPrivate r) C.clientPrivate)
  refine ⟨key, (torSendCreateMsg (C.publicBytes C.clientPrivate)).onCell client.buffer, ?_, hlink,
    Stores.length_onCell _ _, isCreateCell_torSendCreateMsg _ (C.length_publicBytes _)⟩
  simp only [ClientSession.recv, hwaiting, Client.recvTlsKey, C.recvTlsMsg_publicBytes, hhandshake,
    if_true, hidKey, C.getPublicIdentityKey_clientKey, hlink]
  rfl

/-- CREATED, at the client. -/
theorem recvCreated_created (C : Setup ι) (locals : Locals) {client : ClientSession}
    {link : Block} (hlink : client.tlsKey.symmetricKey = link) {c : List UInt8}
    (hc : c.length = torMsgSize) (hcmd : ofCell c cmdOffset = TorCommand.torCreated.code) :
    recvCreated C.gmp locals client (encryptLink (some link) c) =
      createRelayCircuit C.gmp locals { client with curRelays := 1, buffer := c } := by
  have hrecv := clientRecvTorBuffer_of_link link [] client.buffer hc
  simp only [recvCreated, hlink, hrecv, Option.getD_some, unwrap_nil, hcmd, if_true]

/-- From the connection to the first relay on. -/
theorem inevitable_connected (C : Setup ι) {init : Set (System ι)} {client : ClientSession}
    {P : System ι → Prop} (hwaiting : client.waiting = .tlsKey) (hidKey : client.idKey = C.clientKey)
    (htlsKey : client.tlsKey.identity = C.clientKey)
    (honionKeys : client.onionKeys.map KeyData.symmetricKey = C.layers C.chosen.length)
    (hrelays : client.relays.relays = C.chosen.map C.descriptor) {r : ι}
    (hr : C.chosen[0]? = some r) (buffer : List UInt8)
    (h : ∀ client mids last, mids.length + 1 = C.chosen.length → Chain C mids last →
      Prepared C C.chosen.length client →
        P ⟨{ client with waiting := .returned .success }, mids ++ [last], .only (.toSession 0) []⟩) :
    (C.machine init).Inevitable P
      ⟨client, [⟨r, initRelaySession (C.net.key r) buffer⟩], .only (.toSession 0) []⟩ := by
  have hchosen := List.mem_of_getElem? hr
  have hlink : C.link 0 = C.shared C.clientPrivate (C.relayPrivate r) := by
    rw [Setup.link, C.hopPrivate_of_getElem? hr]
  refine inevitable_greeted C client noAccept_nil hchosen buffer _ ?_
  refine inevitable_client rfl (noAccept_singleton nofun) fun locals => ?_
  obtain ⟨key, cell, hrecv, hkey, hcell, hcreate⟩ :=
    recvTlsKey_guard C locals hwaiting hidKey htlsKey hr
  refine ⟨_, _, hrecv, ?_⟩
  rw [Queues.send_only_nil, hlink]
  refine inevitable_joined C _ noAccept_nil hchosen buffer hcell hcreate
    fun session c hrole hc hcreated => ?_
  rw [← hlink] at hrole ⊢
  refine inevitable_client rfl hrole.noAccept fun locals => ?_
  refine ⟨_, _, congrArg some (recvCreated_created C locals hkey hc hcreated), ?_⟩
  rw [Queues.send_only_nil]
  have hlength := (List.getElem?_eq_some_iff.1 hr).1
  refine inevitable_finished locals (C.chosen.length - 1) (Nat.add_sub_cancel' hlength)
    ⟨?_, fun _ _ h => absurd h (by simp), hrole⟩ ⟨hidKey, honionKeys, hkey, hrelays, rfl⟩ h
  rw [List.length_nil, List.take_add_one, hr]
  rfl

theorem inevitable_started (C : Setup ι) {init : Set (System ι)} {client : ClientSession}
    (hwaiting : client.waiting = .tlsKey) (hidKey : client.idKey = C.clientKey)
    (htlsKey : client.tlsKey.identity = C.clientKey)
    (honionKeys : client.onionKeys.map KeyData.symmetricKey = C.layers C.chosen.length)
    (hrelays : client.relays.relays = C.chosen.map C.descriptor) {r : ι}
    (hr : C.chosen[0]? = some r) (buffer : List UInt8) :
    (C.machine init).Inevitable (Constructed C.descriptor C.chosen)
      ⟨client, [⟨r, initRelaySession (C.net.key r) buffer⟩], .only (.toSession 0) []⟩ :=
  inevitable_connected C hwaiting hidKey htlsKey honionKeys hrelays hr buffer
    fun _ _ _ hlength hchain hclient => constructed_of_chain hchain hlength hclient

/-- Circuit construction: for every list of one to `MAX_RELAYS` honest relays out of the
    directory's list, the client and the relays come to a complete circuit, in whatever order
    they go on. No party aborts, and the relays need not be distinct. -/
theorem circuit_construction {gmp : Gmp} (hgmp : gmp.Documented) {dh : DhGlobals} (hp : 1 < dh.p)
    (hpBytes : dh.p < 2 ^ 2048) (net : Network ι) (clientPrivate : ℕ) (relayPrivate : ι → ℕ)
    (descriptor : ι → RelayDescriptor) (chosen : List ι) (hne : chosen ≠ [])
    (hlisted : ∀ r ∈ chosen, Listed gmp dh net (relayPrivate r) (descriptor r) r)
    (relays : CircuitRelayList) (hrelays : relays.relays = chosen.map descriptor)
    (arrays : DeriveArrays) (locals : Locals) :
    ∃ s, runClient gmp dh net arrays locals (genDhPrimeIdentityKey gmp dh clientPrivate) relays =
        some s ∧
      (circuitMachine gmp dh net {s}).Inevitable (Constructed descriptor chosen) s := by
  let C : Setup ι := ⟨gmp, hgmp, dh, Nat.zero_lt_of_lt hp, hpBytes, net, clientPrivate,
    relayPrivate, descriptor, chosen, hlisted⟩
  obtain ⟨guard, rest, rfl⟩ := List.exists_cons_of_ne_nil hne
  have hguard := hlisted guard List.mem_cons_self
  obtain ⟨keys, hkeys, hsymmetric⟩ := @mapM_derive ι C arrays (guard :: rest) fun _ hr => hr
  have hfirst : relays.relays[0]? = some (descriptor guard) := by
    rw [hrelays]
    rfl
  refine ⟨⟨⟨.tlsKey, C.clientKey, keys, initKey C.clientKey, relays, 0,
    List.replicate torMsgSize 0⟩, [⟨guard, initRelaySession (net.key guard) locals.buffer⟩],
    .only (.toSession 0) []⟩, ?_, ?_⟩
  · have hempty : Queues.only (.toSession 0) [] = fun _ => [] := funext fun _ => ite_self _
    have hsession : initSession gmp dh arrays C.clientKey relays = some ⟨.tlsKey, C.clientKey, keys,
        initKey C.clientKey, relays, 0, List.replicate torMsgSize 0⟩ := by
      rw [initSession, hrelays, hkeys]
      rfl
    have hconnection : net.connection locals (sockaddrToUnix (descriptor guard).sockAddr) =
        some ⟨guard, initRelaySession (net.key guard) locals.buffer⟩ := by
      rw [Network.connection, hguard.listen]
      rfl
    rw [runClient, hfirst, hempty]
    simp only [Option.bind_eq_bind, Option.bind_some, hconnection]
    exact congrArg (Option.bind · _) hsession
  · exact inevitable_started C rfl rfl rfl (hsymmetric.trans (layers_chosen C).symm) hrelays rfl _

/-- The private numbers of two relays. -/
def relayPrivate : Bool → ℕ
  | false => 6
  | true => 15

/-- Two relays on ports of one host, with the modulus 23 and the generator 5. -/
def twoRelays : Network Bool where
  key relay := genDhPrimeIdentityKey natGmp ⟨23, 5⟩ (relayPrivate relay)
  listen addr :=
    if addr = .inet [0x23, 0x29] [127, 0, 0, 1] then some false
    else if addr = .inet [0x23, 0x2A] [127, 0, 0, 1] then some true
    else none

/-- What the directory lists of them. -/
def twoDescriptors (relay : Bool) : RelayDescriptor where
  sockAddr := [2, 1, 127, 0, 0, 1] ++ List.replicate 12 0 ++ [0x23, if relay then 0x2A else 0x29]
  publicKey := getPublicIdentityKey natGmp (twoRelays.key relay) fun _ => 0

theorem listed_twoRelays (relay : Bool) :
    Listed natGmp ⟨23, 5⟩ twoRelays (relayPrivate relay) (twoDescriptors relay) relay where
  key := rfl
  listen := by cases relay <;> rfl
  published := .exported _
  length_sockAddr := rfl

/-- A circuit over both of them. -/
theorem circuit_construction_twoRelays :
    ∃ s, runClient natGmp ⟨23, 5⟩ twoRelays default default
        (genDhPrimeIdentityKey natGmp ⟨23, 5⟩ 7)
        ⟨[false, true].map twoDescriptors, by decide⟩ = some s ∧
      (circuitMachine natGmp ⟨23, 5⟩ twoRelays {s}).Inevitable
        (Constructed twoDescriptors [false, true]) s := by
  have hpow : ∀ n, n < 2 ^ n := fun n => Nat.lt_two_pow_self
  exact circuit_construction natGmp_documented (by norm_num)
    (lt_trans (show 23 < 2048 by norm_num) (hpow 2048)) twoRelays 7 relayPrivate twoDescriptors
    [false, true] nofun (fun relay _ => listed_twoRelays relay) _ rfl default default

end OnionRouter.Circuit
