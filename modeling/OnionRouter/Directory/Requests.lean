import OnionRouter.Directory.Conversation

/-!
# What the users do

The other side of an exchange: given the answer to the message of a stage, the user goes on to
the next stage, or the exchange is done (`user_recv_spec`). A relay has its entry from the
answer to SIGNUP on, until the answer to SIGNOUT; a client has a list of relays.
-/

namespace OnionRouter.Directory

open Client Crypto Deployment Lib Memory Net Protocol RelayManager

variable {ι : Type}

/-- What an exchange leads to. -/
def Exchange.Done (D : Deployment ι) (vars : UserVars) (entries : Finset ℕ) : Exchange → Prop
  | signup _ => entries = {vars.registerId} ∧ vars.registerId < 2 ^ 31
  | signout => entries = ∅
  | gather amount _ => ∃ list, vars.relayList = some list ∧ list.relays.length = amount ∧
      D.Listing list.relays

/-- The stage behind a stage. -/
def Stage.next : Stage → Option Stage
  | response => some .confirmation
  | confirmation => some .answer
  | answer => some .exit
  | exit => none

/-- What a user does when it has read the answer of a stage. -/
inductive Replied (D : Deployment ι) (i : ι) (exchange : Exchange) (entries : Finset ℕ)
    (fault : Prop) (user : User) (stage : Stage) (r : UserReaction) : Prop
  | sends {stage' : Stage} (hnext : stage.next = some stage')
      (hwaiting : r.user.waiting = .talking exchange stage')
      (hto : r.toServer = [exchange.message D i r.user.vars stage'])
      (hkeyed : D.Keyed i r.user.vars)
      (hid : stage' ≠ .exit → r.user.vars.registerId = user.vars.registerId)
      (hdone : stage' = .exit → exchange.Done D r.user.vars entries)
  | ends (hwaiting : r.user.waiting = exchange.done) (hto : r.toServer = [])
      (hstage : stage = .exit ∨ fault ∧ stage = .answer)
      (hkeyed : D.Keyed i r.user.vars) (hdone : exchange.Done D r.user.vars entries)
  | fails (hfault : fault) (hwaiting : r.user.waiting = .returned false) (hto : r.toServer = [])
      (hid : r.user.vars.registerId = user.vars.registerId)
      (hkeyed : r.user.vars.isKeyInit = true → D.Keyed i r.user.vars)

section Listing

variable {D : Deployment ι}

theorem Deployment.Listing.take {list : List RelayDescriptor} (h : D.Listing list) (n : ℕ) :
    D.Listing (list.take n) := by
  obtain ⟨relays, hnodup, hrelays⟩ := h
  refine ⟨relays.take n, hnodup.sublist (List.take_sublist _ _), ?_⟩
  rw [List.map_take, List.map_take, hrelays]

theorem Deployment.Listing.wellFormed (hD : D.Valid) {list : List RelayDescriptor}
    (h : D.Listing list) : ∀ d ∈ list, d.WellFormed := by
  intro d hd
  obtain ⟨relays, -, hrelays⟩ := h
  obtain ⟨j, -, hj⟩ := List.mem_map.1 (hrelays ▸ List.mem_map_of_mem hd)
  exact wellFormed_descriptor hD hj

end Listing

section Keys

variable {D : Deployment ι} (hD : D.Valid) {i : ι} {vars : UserVars}

include hD

/-- The handshake sets up the keys of the user. -/
theorem setupKeys_spec (env : UserEnv) (hkeyed : vars.isKeyInit = true → D.Keyed i vars) :
    ∃ vars', setupKeys D.gmp (D.prime i) env vars D.handshakeResponse = some vars' ∧
      D.Keyed i vars' ∧ vars'.registerId = vars.registerId := by
  rw [setupKeys]
  cases hinit : vars.isKeyInit with
  | true => exact ⟨vars, rfl, hkeyed hinit, rfl⟩
  | false =>
    have hglobals : setGlobals D.gmp vars.dh D.handshakeResponse.g D.handshakeResponse.p = D.dh := by
      have h := setGlobals_getGlobals hD.documented hD.p_lt hD.g_lt vars.dh D.res
      rwa [getGlobals, read_exportMpzFixed hD.documented hD.p_lt] at h
    obtain ⟨key, hderive, -, -, hsymmetric⟩ := deriveSymmetricKeyFromPublic_eq hD.documented
      hD.p_pos hD.p_lt env.locals.arrays
      (initKey (genDhPrimeIdentityKey D.gmp D.dh (D.prime i))) D.handshakeResponse.serverPubkey
    rw [if_neg Bool.false_ne_true]
    simp only [hglobals, hD.p_pos.ne', if_false, hderive, Option.map_some]
    refine ⟨_, rfl, ⟨rfl, rfl, rfl, ?_⟩, rfl⟩
    -- Both sides raise the generator to the product of the two numbers.
    rw [hsymmetric, Deployment.handshakeResponse, ofBytesLE_fixedBytes, ← Nat.pow_mod, ← pow_mul,
      Nat.mul_comm]
    rfl

end Keys

/-! ## Reading -/

section Read

variable {D : Deployment ι} (hD : D.Valid) {i : ι} {exchange : Exchange} {entries : Finset ℕ}
  {fault : Prop} {user : User} {stage : Stage} {env : UserEnv}

theorem replied_failed (hfault : fault)
    (hkeyed : user.vars.isKeyInit = true → D.Keyed i user.vars) :
    Replied D i exchange entries fault user stage user.failed :=
  .fails hfault rfl rfl rfl hkeyed

/-- A message is sent, or the exchange fails. -/
theorem replied_send {vars : UserVars} {stage' : Stage} (hsent : env.sent = false → fault)
    (hnext : stage.next = some stage') (hkeyed : D.Keyed i vars)
    (hid : vars.registerId = user.vars.registerId)
    (hdone : stage' = .exit → exchange.Done D vars entries) :
    Replied D i exchange entries fault user stage
      (({ user with vars := vars } : User).send env exchange stage'
        (exchange.message D i vars stage')) := by
  rw [User.send]
  cases henv : env.sent with
  | false => exact .fails (hsent henv) rfl rfl hid fun _ => hkeyed
  | true => exact .sends hnext rfl rfl hkeyed (fun _ => hid) hdone

/-- The last message is sent, or `handle_exit` fails; a relay goes on then. -/
theorem replied_exit {vars : UserVars} (hsent : env.sent = false → fault)
    (hkeyed : D.Keyed i vars) (hdone : exchange.Done D vars entries)
    (hid : exchange.ignoresExit = false → vars.registerId = user.vars.registerId) :
    Replied D i exchange entries fault user .answer
      (if env.sent then ({ user with vars := vars } : User).send env exchange .exit
          (sendEncServerMsg vars.serverKey.symmetricKey exchange.exitRequest)
        else ({ user with vars := vars } : User).exitFailed exchange) := by
  cases henv : env.sent with
  | false =>
    rw [if_neg Bool.false_ne_true, User.exitFailed]
    cases hexit : exchange.ignoresExit with
    | false => exact .fails (hsent henv) rfl rfl (hid hexit) fun _ => hkeyed
    | true => exact .ends rfl rfl (.inr ⟨hsent henv, rfl⟩) hkeyed hdone
  | true =>
    rw [if_pos rfl, User.send, henv, hkeyed.symmetricKey]
    exact .sends rfl rfl rfl hkeyed (fun h => absurd rfl h) fun _ => hdone

/-- A connection that is lost ends the exchange; a relay goes on if only `handle_exit` fails. -/
theorem user_recv_lost (D : Deployment ι) (i : ι) (env : UserEnv)
    (hwaiting : user.waiting = .talking exchange stage) :
    ∃ r, user.recv D.gmp (D.prime i) env [] = some r ∧ r.toServer = [] ∧
      r.user.vars = user.vars ∧ (r.user.waiting = .returned false ∨
        stage = .exit ∧ r.user.waiting = exchange.done) := by
  cases stage with
  | exit =>
    refine ⟨user.exitFailed exchange, by rw [User.recv, hwaiting]; rfl, ?_⟩
    rw [User.exitFailed]
    cases exchange.ignoresExit with
    | false => exact ⟨rfl, rfl, .inl rfl⟩
    | true => exact ⟨rfl, rfl, .inr ⟨rfl, rfl⟩⟩
  | _ => exact ⟨user.failed, by rw [User.recv, hwaiting]; rfl, rfl, rfl, .inl rfl⟩

include hD

/-- What an answer leads to. By cases on the answer. -/
theorem user_recv_spec (hwaiting : user.waiting = .talking exchange stage)
    (hinit : user.vars.isKeyInit = true → D.Keyed i user.vars)
    (hkeyed : stage ≠ .response → D.Keyed i user.vars)
    (hdone : stage = .exit → exchange.Done D user.vars entries) {got : List UInt8}
    (hanswer : Answer D i fault entries exchange stage got) (hsent : env.sent = false → fault) :
    ∃ r, user.recv D.gmp (D.prime i) env got = some r ∧
      Replied D i exchange entries fault user stage r := by
  have hreceived : ∀ data : List UInt8, data.length ≤ serverMsgSize → stage ≠ .response →
      recvEncServerMsg user.vars.serverKey.symmetricKey user.buffer
        (sendEncServerMsg (D.secret i) data) = some (serverMsg data) := by
    intro data hdata hstage
    rw [(hkeyed hstage).symmetricKey, recvEncServerMsg_sendEncServerMsg _ hdata]
  rw [User.recv, hwaiting]
  cases hanswer with
  | response =>
    obtain ⟨vars, hsetup, hkeyed', hid⟩ := setupKeys_spec hD env hinit
    refine ⟨_, rfl, ?_⟩
    rw [User.recvResponse, recvServerMsg_serverMsg
      ((HandshakeResponse.length_bytes _).trans_le (by decide))]
    simp only [ofBytes_handshakeResponse hD, hsetup, hkeyed'.key, getPublicIdentityKey_user hD]
    exact replied_send hsent rfl hkeyed' hid fun h => by cases h
  | confirmation assignedId timestamp =>
    refine ⟨_, rfl, ?_⟩
    rw [User.recvConfirmation, hreceived _ ((HandshakeConfirmation.length_bytes _).trans_le
      (by decide)) (by decide)]
    have hconfirmation := @HandshakeConfirmation.ofBytes_serverMsg
      ⟨serverHandshakeV1Magic, assignedId, timestamp⟩ rfl
    simp only [hconfirmation, if_true, (hkeyed (by decide)).symmetricKey]
    exact replied_send hsent rfl (hkeyed (by decide)) rfl fun h => by cases h
  | signup timestamp hlt hentries =>
    refine ⟨_, rfl, ?_⟩
    rw [User.recvAnswer, hreceived _ ((length_signupResponse _ _ _).trans_le (by decide)) (by decide)]
    have hid := responseId_serverMsg timestamp .success (hlt.trans (by decide))
    simp only [Exchange.answered, hid]
    exact replied_exit hsent { hkeyed (by decide) with } ⟨hentries, hlt⟩ fun h => by cases h
  | signout timestamp hentries =>
    refine ⟨_, rfl, ?_⟩
    rw [User.recvAnswer, hreceived _ ((length_responseBase _ _ _).trans_le (by decide)) (by decide)]
    exact replied_exit hsent { hkeyed (by decide) with } hentries fun h => by cases h
  | gather timestamp list hlength hlisting henough =>
    refine ⟨_, rfl, ?_⟩
    rw [User.recvAnswer, hreceived _ ((length_responseMap _ _).trans_le (by decide)) (by decide)]
    have hamount := responseRelayAmount_relayMap timestamp list hlength
    simp only [Exchange.answered, hamount]
    split
    next hnone =>
      refine replied_failed (henough.resolve_right fun hle => ?_) hinit
      rw [if_neg hle.not_gt] at hnone
      cases hnone
    next vars hsome =>
      obtain ⟨hle, hvars⟩ := Option.ite_none_left_eq_some.1 hsome
      obtain rfl := Option.some_inj.1 hvars
      refine replied_exit hsent { hkeyed (by decide) with } ⟨_, rfl, ?_, ?_⟩ fun _ => rfl
      · exact Exchange.length_responseRelays _ _
      · show D.Listing (responseRelays _ _)
        rw [descriptors_relayMap timestamp list hlength ?_ (Nat.le_of_not_lt hle)]
        · rw [List.map_take]
          exact hlisting.take _
        · intro data hdata
          exact hlisting.wellFormed hD _ (List.mem_map_of_mem hdata)
  | exit timestamp =>
    refine ⟨_, rfl, ?_⟩
    rw [User.recvExit, hreceived _ ((length_responseBase _ _ _).trans_le (by decide)) (by decide)]
    exact .ends rfl rfl (.inl rfl) (hkeyed (by decide)) (hdone rfl)

end Read

end OnionRouter.Directory
