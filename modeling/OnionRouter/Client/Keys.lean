import OnionRouter.Client.Circuit
import OnionRouter.Lib.Ledger

/-!
# The keys of the client

`run_client`: it fetches the relays from the directory, builds a circuit and serves it.
`gather_relay_map`, `process_client_session` and `run_client` free the keys, each after some
of the calls that can fail. What the calls yield is given, and the calls of `init_key` and
`free_key` are in a ledger.

* `clean_runClient_iff`: every `free_key` is of a key that is initialised, unless the
  handshake fails before there is a key, or the circuit is not built.
-/

namespace OnionRouter.Client.Keys

open Lib Protocol

/-- The keys of a run. -/
inductive Key
  | server
  | tls
  | onion (i : ℕ)
  deriving DecidableEq

/-! ## The directory -/

/-- What the calls of `gather_relay_map` yield. -/
structure GatherCalls where
  connected : Bool
  requestSent : Bool
  responseReceived : Bool
  /-- Whether the exponentiation returns; with a modulus of 0 it ends the process. -/
  exponentiated : Bool
  keySent : Bool
  /-- The confirmation, and whether its magic is the expected one. -/
  confirmed : Bool
  magicMatches : Bool
  mapRequestSent : Bool
  mapReceived : Bool
  /-- How many relays the directory lists. -/
  relayAmount : ℕ
  exitSent : Bool
  exitReceived : Bool

/-- `handle_handshake`: what it returns, if it does, and the keys after it. -/
def handleHandshake (calls : GatherCalls) (log : Ledger Key) : Option ClientCode × Ledger Key :=
  if calls.requestSent = false then (some .error, log)
  else if calls.responseReceived = false then (some .error, log)
  else if calls.exponentiated = false then (none, log)
  else
    let log := .acquire .server :: log
    if calls.keySent = false then (some .error, log)
    else if calls.confirmed = false then (some .error, log)
    else if calls.magicMatches = false then (some .error, log)
    else (some .success, log)

/-- `fetch_relay_map`. -/
def fetchRelayMap (calls : GatherCalls) : ClientCode :=
  if calls.mapRequestSent = false then .error
  else if calls.mapReceived = false then .error
  else .success

/-- `handle_exit`. -/
def handleExit (calls : GatherCalls) : ClientCode :=
  if calls.exitSent = false then .error
  else if calls.exitReceived = false then .error
  else .success

/-- `gather_relay_map`. -/
def gatherRelayMap (calls : GatherCalls) (relayAmount : ℕ) (log : Ledger Key) :
    Option ClientCode × Ledger Key :=
  if calls.connected = false then (some .error, log)
  else
    match handleHandshake calls log with
    | (none, log) => (none, log)
    | (some .success, log) =>
      match fetchRelayMap calls with
      | .success =>
        if calls.relayAmount < relayAmount then (some .error, .release .server :: log)
        else (some (handleExit calls), .release .server :: log)
      | code => (some code, .release .server :: log)
    | (some code, log) => (some code, .release .server :: log)

/-! ## The session -/

/-- What the calls for one relay yield in `create_relay_circuit`. -/
structure ExtendCalls where
  sent : Bool
  received : Bool
  /-- The `cmd` of the cell in the buffer. -/
  cmd : UInt8

/-- What the calls of `run_client` yield. -/
structure RunCalls where
  /-- The `relays` of the configuration. -/
  relays : ℕ
  relays_le : relays ≤ maxRelays
  gather : GatherCalls
  /-- Nothing is received when the connection to the first relay was not made. -/
  tlsReceived : Bool
  tlsSent : Bool
  createSent : Bool
  /-- The `cmd` of the cell in the buffer, whatever `recv_tor_buffer` returned. -/
  createdCmd : UInt8
  extend : ℕ → ExtendCalls
  /-- What `process_events` returns, which uses the keys only; `none` if it does not. -/
  events : Option ClientCode

/-- The keys of a `client_session_t`, in the order in which `free_session` takes them. -/
def sessionKeys (relays : ℕ) : List Key := .tls :: (List.range relays).map .onion

/-- `init_session`. -/
def initSessionKeys (relays : ℕ) (log : Ledger Key) : Ledger Key :=
  .acquire .tls :: log.acquireAll ((List.range relays).map .onion)

/-- `free_session`. -/
def freeSession (relays : ℕ) (log : Ledger Key) : Ledger Key := log.releaseAll (sessionKeys relays)

/-- The relay `i` is added to the circuit. -/
def ExtendCalls.Extended (calls : ExtendCalls) : Prop :=
  calls.sent = true ∧ calls.received = true ∧ calls.cmd = RelayCommand.relayExtended.code

instance (calls : ExtendCalls) : Decidable calls.Extended :=
  inferInstanceAs (Decidable (_ ∧ _ ∧ _))

/-- The loop of `create_relay_circuit`, from the relay `curRelays` on. -/
def createRelayCircuitLoop (extend : ℕ → ExtendCalls) : ℕ → ℕ → ClientCode
  | 0, _ => .success
  | rounds + 1, curRelays =>
    if (extend curRelays).sent = false then .error
    else if (extend curRelays).received = false then .error
    else if (extend curRelays).cmd ≠ RelayCommand.relayExtended.code then .error
    else createRelayCircuitLoop extend rounds (curRelays + 1)

/-- `handle_create_message`. -/
def handleCreateMessage (calls : RunCalls) : ClientCode :=
  if calls.createSent = false then .error
  else if calls.createdCmd ≠ TorCommand.torCreated.code then .error
  else .success

/-- `process_client_session`. -/
def processClientSession (calls : RunCalls) (log : Ledger Key) : Option ClientCode × Ledger Key :=
  match handleCreateMessage calls with
  | .success =>
    match createRelayCircuitLoop calls.extend (calls.relays - 1) 1 with
    | .success => (calls.events, log)
    | code => (some code, freeSession calls.relays log)
  | code => (some code, freeSession calls.relays log)

/-- `run_client`. -/
def runClient (calls : RunCalls) : Option ClientCode × Ledger Key :=
  match gatherRelayMap calls.gather calls.relays [] with
  | (some .success, log) =>
    let log := initSessionKeys calls.relays log
    if calls.tlsReceived = false ∨ calls.tlsSent = false then
      (some .tlsError, freeSession calls.relays log)
    else
      match processClientSession calls log with
      | (none, log) => (none, log)
      | (some .success, log) => (some .success, freeSession calls.relays log)
      | (some _, log) => (some .error, freeSession calls.relays log)
  | result => result

/-! ## The two ways out -/

/-- The handshake with the directory fails before `server_key` is initialised. -/
def GatherCalls.FailsEarly (calls : GatherCalls) : Prop :=
  calls.connected = true ∧ (calls.requestSent = false ∨ calls.responseReceived = false)

/-- The directory hands out the relays. -/
def GatherCalls.Gathers (calls : GatherCalls) (relays : ℕ) : Prop :=
  calls.connected = true ∧ calls.requestSent = true ∧ calls.responseReceived = true ∧
    calls.exponentiated = true ∧ calls.keySent = true ∧ calls.confirmed = true ∧
    calls.magicMatches = true ∧ calls.mapRequestSent = true ∧ calls.mapReceived = true ∧
    relays ≤ calls.relayAmount ∧ calls.exitSent = true ∧ calls.exitReceived = true

/-- CREATE or one of the EXTENDs fails. -/
def RunCalls.CircuitFails (calls : RunCalls) : Prop :=
  calls.createSent = false ∨ calls.createdCmd ≠ TorCommand.torCreated.code ∨
    ∃ i, 1 ≤ i ∧ i < calls.relays ∧ ¬ (calls.extend i).Extended

/-- The client comes to the circuit, which fails. -/
def RunCalls.FailsLate (calls : RunCalls) : Prop :=
  calls.gather.Gathers calls.relays ∧ calls.tlsReceived = true ∧ calls.tlsSent = true ∧
    calls.CircuitFails

/-! ## What is freed -/

variable {calls : RunCalls} {gather : GatherCalls} {relays : ℕ} {log : Ledger Key}

theorem nodup_sessionKeys (relays : ℕ) : (sessionKeys relays).Nodup := by
  refine List.nodup_cons.2 ⟨?_, List.nodup_range.map fun i j h => Key.onion.inj h⟩
  simp

/-- The keys of a session are freed once. -/
theorem clean_freeSession (hlog : log.Clean) :
    (freeSession relays (initSessionKeys relays log)).Clean := by
  refine Ledger.clean_releaseAll_iff.2 ⟨Ledger.clean_acquireAll_iff.2 hlog, nodup_sessionKeys _, ?_⟩
  intro key hkey
  rw [initSessionKeys, Ledger.held_acquire, Ledger.held_acquireAll]
  rcases List.mem_cons.1 hkey with rfl | hkey
  · exact Finset.mem_insert_self _ _
  · exact Finset.mem_insert_of_mem (Finset.mem_union_right _ (List.mem_toFinset.2 hkey))

/-- And not once more. -/
theorem not_clean_freeSession_twice (log : Ledger Key) :
    ¬ (freeSession relays (freeSession relays log)).Clean := by
  intro hclean
  obtain ⟨-, -, hheld⟩ := Ledger.clean_releaseAll_iff.1 hclean
  have htls : Key.tls ∈ sessionKeys relays := List.mem_cons_self
  have hagain := hheld .tls htls
  rw [freeSession, Ledger.held_releaseAll, Finset.mem_sdiff] at hagain
  exact hagain.2 (List.mem_toFinset.2 htls)

theorem not_failsEarly (hrequest : gather.requestSent = true)
    (hresponse : gather.responseReceived = true) : ¬ gather.FailsEarly := by
  rintro ⟨-, h | h⟩
  · cases h.symm.trans hrequest
  · cases h.symm.trans hresponse

/-- The handshake fails before there is a key, the process ends, or there is a key. -/
theorem handleHandshake_spec (gather : GatherCalls) (log : Ledger Key) :
    ((gather.requestSent = false ∨ gather.responseReceived = false) ∧
        handleHandshake gather log = (some .error, log)) ∨
      (gather.requestSent = true ∧ gather.responseReceived = true ∧ gather.exponentiated = false ∧
        handleHandshake gather log = (none, log)) ∨
      (gather.requestSent = true ∧ gather.responseReceived = true ∧ gather.exponentiated = true ∧
        handleHandshake gather log =
          (some (if gather.keySent = true ∧ gather.confirmed = true ∧ gather.magicMatches = true
            then .success else .error), .acquire .server :: log)) := by
  rw [handleHandshake]
  cases hrequest : gather.requestSent with
  | false => exact .inl ⟨.inl rfl, rfl⟩
  | true =>
    cases hresponse : gather.responseReceived with
    | false => exact .inl ⟨.inr rfl, rfl⟩
    | true =>
      cases hexponentiated : gather.exponentiated with
      | false => exact .inr (.inl ⟨rfl, rfl, rfl, rfl⟩)
      | true =>
        refine .inr (.inr ⟨rfl, rfl, rfl, ?_⟩)
        cases gather.keySent <;> cases gather.confirmed <;> cases gather.magicMatches <;> rfl

theorem fetchRelayMap_eq_success (gather : GatherCalls) :
    fetchRelayMap gather = .success ↔
      gather.mapRequestSent = true ∧ gather.mapReceived = true := by
  rw [fetchRelayMap]
  cases gather.mapRequestSent <;> cases gather.mapReceived <;> simp

theorem handleExit_eq_success (gather : GatherCalls) :
    handleExit gather = .success ↔ gather.exitSent = true ∧ gather.exitReceived = true := by
  rw [handleExit]
  cases gather.exitSent <;> cases gather.exitReceived <;> simp

/-- With a key, `gather_relay_map` frees it once. -/
theorem gatherRelayMap_of_key {code : ClientCode} (hconnected : gather.connected = true)
    (hhandshake : handleHandshake gather [] = (some code, [.acquire .server])) :
    (gatherRelayMap gather relays []).2 = [.release .server, .acquire .server] ∧
      ((gatherRelayMap gather relays []).1 = some .success ↔
        code = .success ∧ fetchRelayMap gather = .success ∧ relays ≤ gather.relayAmount ∧
          handleExit gather = .success) := by
  rw [gatherRelayMap, if_neg (by simp [hconnected]), hhandshake]
  cases code with
  | error => exact ⟨rfl, by simp⟩
  | tlsError => exact ⟨rfl, by simp⟩
  | success =>
    cases hfetch : fetchRelayMap gather with
    | error => exact ⟨rfl, by simp⟩
    | tlsError => exact ⟨rfl, by simp⟩
    | success =>
      rcases Nat.lt_or_ge gather.relayAmount relays with hamount | hamount
      · simp only [if_pos hamount]
        exact ⟨trivial, by simp [hamount]⟩
      · simp only [if_neg (Nat.not_lt.2 hamount)]
        exact ⟨trivial, by simp [hamount]⟩

/-- What `gather_relay_map` returns and frees. -/
theorem gatherRelayMap_spec (gather : GatherCalls) (relays : ℕ) :
    ((gatherRelayMap gather relays []).2.Clean ↔ ¬ gather.FailsEarly) ∧
      ((gatherRelayMap gather relays []).1 = some .success ↔ gather.Gathers relays) := by
  cases hconnected : gather.connected with
  | false =>
    rw [gatherRelayMap, if_pos hconnected]
    simp [GatherCalls.FailsEarly, GatherCalls.Gathers, hconnected, Ledger.Clean]
  | true =>
    rcases handleHandshake_spec gather [] with ⟨hfails, hhandshake⟩ |
      ⟨hrequest, hresponse, hended, hhandshake⟩ | ⟨hrequest, hresponse, hexponentiated, hhandshake⟩
    · -- `server_key` is freed, and was never initialised.
      rw [gatherRelayMap, if_neg (by simp [hconnected]), hhandshake]
      refine ⟨iff_of_false ?_ (not_not.2 ⟨hconnected, hfails⟩), iff_of_false (by simp) ?_⟩
      · exact fun hclean => Finset.notMem_empty _ hclean.1
      · rintro ⟨-, hrequest, hresponse, -⟩
        exact not_failsEarly hrequest hresponse ⟨hconnected, hfails⟩
    · rw [gatherRelayMap, if_neg (by simp [hconnected]), hhandshake]
      refine ⟨iff_of_true trivial (not_failsEarly hrequest hresponse), iff_of_false (by simp) ?_⟩
      rintro ⟨-, -, -, hexponentiated, -⟩
      cases hended.symm.trans hexponentiated
    · obtain ⟨hlog, hcode⟩ := @gatherRelayMap_of_key gather relays _ hconnected hhandshake
      rw [hlog, hcode, fetchRelayMap_eq_success, handleExit_eq_success]
      refine ⟨iff_of_true ⟨Finset.mem_insert_self _ _, trivial⟩
        (not_failsEarly hrequest hresponse), ?_⟩
      simp only [GatherCalls.Gathers, hconnected, hrequest, hresponse, hexponentiated, true_and,
        ite_eq_left_iff, reduceCtorEq, imp_false, not_not, and_assoc]

theorem createRelayCircuitLoop_succ (extend : ℕ → ExtendCalls) (rounds curRelays : ℕ) :
    createRelayCircuitLoop extend (rounds + 1) curRelays =
      if (extend curRelays).Extended then createRelayCircuitLoop extend rounds (curRelays + 1)
      else .error := by
  by_cases hextended : (extend curRelays).Extended
  · obtain ⟨hsent, hreceived, hcmd⟩ := id hextended
    rw [if_pos hextended]
    simp [createRelayCircuitLoop, hsent, hreceived, hcmd]
  · rw [if_neg hextended, createRelayCircuitLoop]
    split_ifs with hsent hreceived hcmd
    · rfl
    · rfl
    · rfl
    · exact absurd ⟨Bool.of_not_eq_false hsent, Bool.of_not_eq_false hreceived, not_not.1 hcmd⟩
        hextended

/-- The circuit is built if none of the calls fails. By induction on the relays to go. -/
theorem createRelayCircuitLoop_spec (extend : ℕ → ExtendCalls) (rounds curRelays : ℕ) :
    ((∀ i, curRelays ≤ i → i < curRelays + rounds → (extend i).Extended) ∧
        createRelayCircuitLoop extend rounds curRelays = .success) ∨
      ((∃ i, curRelays ≤ i ∧ i < curRelays + rounds ∧ ¬ (extend i).Extended) ∧
        createRelayCircuitLoop extend rounds curRelays = .error) := by
  induction rounds generalizing curRelays with
  | zero => exact .inl ⟨fun i hle hlt => absurd hlt (Nat.not_lt.2 hle), rfl⟩
  | succ rounds ih =>
    rw [createRelayCircuitLoop_succ]
    by_cases hextended : (extend curRelays).Extended
    · rw [if_pos hextended]
      rcases ih (curRelays + 1) with ⟨hall, hsuccess⟩ | ⟨⟨i, hle, hlt, hfails⟩, herror⟩
      · refine .inl ⟨fun i hle hlt => ?_, hsuccess⟩
        rcases Nat.eq_or_lt_of_le hle with rfl | hlt'
        · exact hextended
        · exact hall i hlt' (by omega)
      · exact .inr ⟨⟨i, Nat.le_of_succ_le hle, by omega, hfails⟩, herror⟩
    · rw [if_neg hextended]
      exact .inr ⟨⟨curRelays, le_rfl, by omega, hextended⟩, rfl⟩

theorem handleCreateMessage_spec (calls : RunCalls) :
    (calls.createSent = true ∧ calls.createdCmd = TorCommand.torCreated.code ∧
        handleCreateMessage calls = .success) ∨
      ((calls.createSent = false ∨ calls.createdCmd ≠ TorCommand.torCreated.code) ∧
        handleCreateMessage calls = .error) := by
  rw [handleCreateMessage]
  cases calls.createSent with
  | false => exact .inr ⟨.inl rfl, rfl⟩
  | true =>
    by_cases hcmd : calls.createdCmd = TorCommand.torCreated.code
    · exact .inl ⟨rfl, hcmd, by simp [hcmd]⟩
    · exact .inr ⟨.inr hcmd, by simp [hcmd]⟩

/-- Without a circuit, `process_client_session` frees the keys. -/
theorem processClientSession_spec (calls : RunCalls) (log : Ledger Key) :
    (¬ calls.CircuitFails ∧ processClientSession calls log = (calls.events, log)) ∨
      (calls.CircuitFails ∧
        processClientSession calls log = (some .error, freeSession calls.relays log)) := by
  rw [processClientSession]
  rcases handleCreateMessage_spec calls with ⟨hsent, hcmd, hcreate⟩ | ⟨hfails, hcreate⟩
  · rw [hcreate]
    rcases createRelayCircuitLoop_spec calls.extend (calls.relays - 1) 1 with
      ⟨hall, hloop⟩ | ⟨⟨i, hle, hlt, hfails⟩, hloop⟩
    · refine .inl ⟨?_, by simp only [hloop]⟩
      rintro (h | h | ⟨i, hle, hlt, hfails⟩)
      · cases h.symm.trans hsent
      · exact h hcmd
      · exact hfails (hall i hle (by omega))
    · exact .inr ⟨.inr (.inr ⟨i, hle, by omega, hfails⟩), by simp only [hloop]⟩
  · rw [hcreate]
    exact .inr ⟨hfails.imp_right .inl, rfl⟩

/-- The rest of `run_client`, once it has the relays. -/
theorem clean_runClient_of_gathers (hgather : gatherRelayMap calls.gather calls.relays [] =
    (some .success, log)) (hlog : log.Clean) :
    (runClient calls).2.Clean ↔
      ¬ (calls.tlsReceived = true ∧ calls.tlsSent = true ∧ calls.CircuitFails) := by
  have honce := @clean_freeSession calls.relays log hlog
  rw [runClient, hgather]
  dsimp only
  split_ifs with htls
  -- `run_client` frees its session when the TLS keys are not exchanged.
  · refine iff_of_true honce ?_
    rintro ⟨hreceived, hsent, -⟩
    rcases htls with h | h
    · cases h.symm.trans hreceived
    · cases h.symm.trans hsent
  · obtain ⟨hreceived, hsent⟩ := not_or.1 htls
    rw [and_iff_right (Bool.of_not_eq_false hreceived), and_iff_right (Bool.of_not_eq_false hsent)]
    rcases processClientSession_spec calls (initSessionKeys calls.relays log) with
      ⟨hbuilt, hprocess⟩ | ⟨hfails, hprocess⟩
    · rw [hprocess]
      refine iff_of_true ?_ hbuilt
      cases calls.events with
      | none => exact Ledger.clean_acquireAll_iff.2 hlog
      | some code =>
        cases code with
        | success => exact honce
        | error => exact honce
        | tlsError => exact honce
    · -- `process_client_session` has freed the keys, and `run_client` does so again.
      rw [hprocess]
      exact iff_of_false (not_clean_freeSession_twice _) (not_not.2 hfails)

/-- Exactly the runs that come to neither of the two ways out free every key once. -/
theorem clean_runClient_iff (calls : RunCalls) :
    (runClient calls).2.Clean ↔ ¬ calls.gather.FailsEarly ∧ ¬ calls.FailsLate := by
  obtain ⟨hclean, hcode⟩ := gatherRelayMap_spec calls.gather calls.relays
  obtain ⟨code, log, hgather⟩ : ∃ code log,
    gatherRelayMap calls.gather calls.relays [] = (code, log) := ⟨_, _, rfl⟩
  rw [hgather] at hclean hcode
  by_cases hsuccess : calls.gather.Gathers calls.relays
  · obtain rfl : code = some .success := hcode.2 hsuccess
    have hnot := not_failsEarly hsuccess.2.1 hsuccess.2.2.1
    rw [clean_runClient_of_gathers hgather (hclean.2 hnot), and_iff_right hnot, RunCalls.FailsLate,
      and_iff_right hsuccess]
  · have hrun : runClient calls = (code, log) := by
      rw [runClient, hgather]
      cases code with
      | none => rfl
      | some code =>
        cases code with
        | success => exact absurd (hcode.1 rfl) hsuccess
        | error => rfl
        | tlsError => rfl
    rw [hrun, hclean]
    exact (and_iff_left fun hlate => hsuccess hlate.1).symm

/-- Calls that all succeed, for a circuit of three relays. -/
def exampleCalls : RunCalls where
  relays := 3
  relays_le := by decide
  gather := ⟨true, true, true, true, true, true, true, true, true, 14, true, true⟩
  tlsReceived := true
  tlsSent := true
  createSent := true
  createdCmd := TorCommand.torCreated.code
  extend := fun _ => ⟨true, true, RelayCommand.relayExtended.code⟩
  events := some .success

/-- The server is gone before the handshake, and `server_key` is not initialised. -/
theorem not_clean_runClient_early : ¬ (runClient { exampleCalls with
    gather := { exampleCalls.gather with responseReceived := false } }).2.Clean := by
  decide +kernel

/-- The first relay refuses the CREATE, and the keys of the session are freed twice. -/
example : ¬ (runClient { exampleCalls with createdCmd := TorCommand.torDestroy.code }).2.Clean := by
  decide +kernel

end OnionRouter.Client.Keys
