import OnionRouter.Directory.Threads

/-!
# The exchanges

A user and the thread of its connection take turns: the user sends the message of a stage, the
thread waits for it where `At` says, and sends an answer (`Answer`). Whatever a thread reads,
it answers as it should or ends, and touches only its socket and the entries of its user.

* `recv_spec`: what one `read` of a thread leads to.
-/

namespace OnionRouter.Directory

open Client Crypto Deployment Lib Memory Net Protocol RelayManager

variable {ι : Type}

/-! ## Messages -/

section Messages

variable (D : Deployment ι) (i : ι)

/-- What a user has in the directory before its request is handled. -/
def Exchange.before (vars : UserVars) : Exchange → Finset ℕ
  | signout => {vars.registerId}
  | _ => ∅

/-- The exchanges of a user. -/
def Role.Does : Role → Exchange → Prop
  | relay sockAddr, .signup sockAddr' => sockAddr' = sockAddr
  | relay _, .signout => True
  | client relays _, .gather relays' _ => relays' = relays
  | _, _ => False

/-- The message of a stage. -/
def Exchange.message (vars : UserVars) (exchange : Exchange) : Stage → List UInt8
  | .response => serverMsg (HandshakeRequest.bytes ⟨1, exchange.userType.code, 0⟩)
  | .confirmation => serverMsg (D.publicKey i)
  | .answer => sendEncServerMsg (D.secret i) (exchange.request vars)
  | .exit => sendEncServerMsg (D.secret i) exchange.exitRequest

/-- The relays of a list are different relays of the deployment. -/
def Deployment.Listing (list : List RelayDescriptor) : Prop :=
  ∃ relays : List ι, relays.Nodup ∧ list.map some = relays.map D.descriptor

/-- The answer to the message of a stage, after which the user has the entries `entries`. There
    are as many relays as the user wants, if nothing is at fault. -/
inductive Answer (fault : Prop) (entries : Finset ℕ) : Exchange → Stage → List UInt8 → Prop
  | response {exchange : Exchange} :
      Answer fault entries exchange .response (serverMsg D.handshakeResponse.bytes)
  | confirmation {exchange : Exchange} (assignedId : UInt32) (timestamp : UInt64) :
      Answer fault entries exchange .confirmation (sendEncServerMsg (D.secret i)
        (HandshakeConfirmation.bytes ⟨serverHandshakeV1Magic, assignedId, timestamp⟩))
  | signup {addr : List UInt8} {id : ℕ} (timestamp : UInt64) (hlt : id < 2 ^ 31)
      (hentries : entries = {id}) :
      Answer fault entries (.signup addr) .answer
        (sendEncServerMsg (D.secret i) (signupResponse timestamp .success id))
  | signout (timestamp : UInt64) (hentries : entries = ∅) :
      Answer fault entries .signout .answer (sendEncServerMsg (D.secret i)
        (responseBase timestamp .success RelayCommand.signout.code))
  | gather {amount : ℕ} {hamount : amount ≤ maxRelays} {relays : List RelayData}
      (timestamp : UInt64) (list : Memory UInt8) (hlength : relays.length ≤ serverRelaysMapAmount)
      (hlisting : D.Listing (relays.map RelayData.descriptor))
      (henough : fault ∨ amount ≤ relays.length) :
      Answer fault entries (.gather amount hamount) .answer (sendEncServerMsg (D.secret i)
        (responseMap timestamp ((relayListStores relays).write list)))
  | exit {exchange : Exchange} (timestamp : UInt64) :
      Answer fault entries exchange .exit (sendEncServerMsg (D.secret i)
        (responseBase timestamp .success RelayCommand.exit.code))

/-- Where a thread waits for the message of a stage; `socket` is what its socket has for a
    key, and `before` what its user has in the directory before its request. -/
inductive At (exchange : Exchange) (before entries : Finset ℕ) (fd : SockFd)
    (socket : Option KeyData → Prop) : Stage → ServerWaiting → Prop
  | request (hsocket : socket none) (hentries : entries = before) :
      At exchange before entries fd socket .response .request
  | clientKey (hsocket : socket none) (hentries : entries = before) :
      At exchange before entries fd socket .confirmation (.clientKey exchange.userType.code)
  | processed {key : KeyData} (hkey : D.Agreed i key) (hsocket : socket (some key))
      (hentries : entries = before) :
      At exchange before entries fd socket .answer (exchange.userType.processed fd)
  | client {key : KeyData} (relayStart : ℕ) (huser : exchange.userType = .client)
      (hkey : D.Agreed i key) (hsocket : socket (some key)) :
      At exchange before entries fd socket .exit (.client ⟨0, fd⟩ relayStart)
  | relay {key : KeyData} (relayData : Option ℕ) (huser : exchange.userType = .relay)
      (hkey : D.Agreed i key) (hsocket : socket (some key)) :
      At exchange before entries fd socket .exit (.relay ⟨0, fd⟩ relayData)

/-- Where a thread is after it answered the message of a stage. -/
def Answered (exchange : Exchange) (before entries : Finset ℕ) (fd : SockFd)
    (socket : Option KeyData → Prop) (waiting : ServerWaiting) : Stage → Prop
  | .response => At D i exchange before entries fd socket .confirmation waiting
  | .confirmation => At D i exchange before entries fd socket .answer waiting
  | .answer => At D i exchange before entries fd socket .exit waiting
  | .exit => waiting = .returned

/-- The entries of a user, of which there is at most one, are its descriptor. -/
structure HasEntries (entries : Finset ℕ) (holds : Resource → Content → Prop) : Prop where
  descriptor : ∀ id ∈ entries, ∃ d, D.descriptor i = some d ∧ holds (.entry id) (.entry d)
  unique : ∀ id ∈ entries, ∀ id' ∈ entries, id = id'

/-- The directory has every relay at most once, with its descriptor, and nothing else. -/
def Deployment.Tracks (s : Server) : Prop :=
  ∃ owner : s.manager.liveIds → ι, Function.Injective owner ∧
    ∀ id, ∃ d, D.descriptor (owner id) = some d ∧ s.view (.entry id) = some (.entry d)

end Messages

section At

variable {D : Deployment ι} {i : ι} {exchange : Exchange} {before entries : Finset ℕ} {fd : SockFd}
  {socket socket' : Option KeyData → Prop} {stage : Stage} {waiting : ServerWaiting}

theorem At.mono (h : At D i exchange before entries fd socket stage waiting)
    (hsocket : ∀ key, socket key → socket' key) :
    At D i exchange before entries fd socket' stage waiting := by
  cases h with
  | request h hentries => exact .request (hsocket _ h) hentries
  | clientKey h hentries => exact .clientKey (hsocket _ h) hentries
  | processed hkey h hentries => exact .processed hkey (hsocket _ h) hentries
  | client relayStart huser hkey h => exact .client relayStart huser hkey (hsocket _ h)
  | relay relayData huser hkey h => exact .relay relayData huser hkey (hsocket _ h)

/-- Behind its request the entries of the user do not matter. -/
theorem At.exit (h : At D i exchange before entries fd socket .exit waiting)
    (before' entries' : Finset ℕ) : At D i exchange before' entries' fd socket .exit waiting := by
  cases h with
  | client relayStart huser hkey h => exact .client relayStart huser hkey h
  | relay relayData huser hkey h => exact .relay relayData huser hkey h

theorem ServerWaiting.client_ne (key : KeyRef) (relayStart : ℕ) :
    client key relayStart ≠ returned := nofun

theorem ServerWaiting.relay_ne (key : KeyRef) (relayData : Option ℕ) :
    relay key relayData ≠ returned := nofun

theorem UserType.processed_ne (userType : UserType) (fd : SockFd) :
    userType.processed fd ≠ .returned := by
  cases userType with
  | client => exact ServerWaiting.client_ne _ _
  | relay => exact ServerWaiting.relay_ne _ _

theorem At.ne_returned (h : At D i exchange before entries fd socket stage waiting) :
    waiting ≠ .returned := by
  cases h with
  | processed => exact exchange.userType.processed_ne fd
  | client => exact ServerWaiting.client_ne _ _
  | relay => exact ServerWaiting.relay_ne _ _
  | _ => exact nofun

end At

/-! ## The resources of a thread -/

/-- A thread has its socket until it ends, and here also the entries of its user. -/
def ServerThread.owns (thread : ServerThread) (entries : Finset ℕ) : Set Resource
  | .entry id => id ∈ entries
  | .socket fd => thread.waiting ≠ .returned ∧ thread.fd = fd

/-- What a thread has. -/
def threadOwnership : Ownership Server (ServerThread × Finset ℕ) Resource Content :=
  ⟨Server.view, fun t => t.1.owns t.2⟩

section Ownership

variable {thread thread' : ServerThread} {entries : Finset ℕ}

theorem owns_eq (hfd : thread'.fd = thread.fd)
    (hwaiting : thread'.waiting ≠ .returned ↔ thread.waiting ≠ .returned) (entries : Finset ℕ) :
    thread'.owns entries = thread.owns entries := by
  ext r
  cases r with
  | entry id => exact Iff.rfl
  | socket fd => exact and_congr hwaiting (by rw [hfd])

theorem owns_returned (hwaiting : thread'.waiting = .returned) :
    thread'.owns entries = thread.owns entries \ {.socket thread.fd} := by
  ext r
  cases r with
  | entry id => exact (and_iff_left nofun).symm
  | socket fd =>
    refine iff_of_false (fun h => h.1 hwaiting) fun h => h.2 ?_
    rw [h.1.2]
    rfl

theorem owns_insert (id : ℕ) :
    thread.owns (insert id entries) = insert (.entry id) (thread.owns entries) := by
  ext r
  cases r with
  | entry id' =>
    refine Finset.mem_insert.trans (or_congr_left ?_)
    exact ⟨fun h => h ▸ rfl, fun h => Resource.entry.inj h⟩
  | socket fd => exact (or_iff_right nofun).symm

theorem owns_erase (id : ℕ) :
    thread.owns (entries.erase id) = thread.owns entries \ {.entry id} := by
  ext r
  cases r with
  | entry id' =>
    refine Finset.mem_erase.trans (and_comm.trans (and_congr_right fun _ => not_congr ?_))
    exact ⟨fun h => h ▸ rfl, fun h => Resource.entry.inj h⟩
  | socket fd => exact (and_iff_left nofun).symm

end Ownership

section EntriesAfter

variable {m m' : RelayManager} {entries : Finset ℕ} (hlive : ∀ id ∈ entries, id ∈ m.liveIds)

include hlive

theorem entriesAfter_self (m' : RelayManager) (hm' : m'.liveIds = m.liveIds) :
    entriesAfter m m' entries = entries := by
  ext id
  rw [entriesAfter, Finset.mem_filter, hm']
  refine ⟨fun h => h.2.resolve_right (absurd h.1), fun h => ⟨hlive id h, .inl h⟩⟩

theorem entriesAfter_insert {id : ℕ} (hid : id ∉ m.liveIds) (hm' : m'.liveIds = insert id m.liveIds) :
    entriesAfter m m' entries = insert id entries := by
  ext id'
  rw [entriesAfter, Finset.mem_filter, hm', Finset.mem_insert, Finset.mem_insert]
  constructor
  · rintro ⟨heq | hold, hmem | hnew⟩
    · exact .inl heq
    · exact .inl heq
    · exact .inr hmem
    · exact absurd hold hnew
  · rintro (rfl | hmem)
    · exact ⟨.inl rfl, .inr hid⟩
    · exact ⟨.inr (hlive id' hmem), .inl hmem⟩

theorem entriesAfter_erase {id : ℕ} (hm' : m'.liveIds = m.liveIds.erase id) :
    entriesAfter m m' entries = entries.erase id := by
  ext id'
  rw [entriesAfter, Finset.mem_filter, hm', Finset.mem_erase, Finset.mem_erase]
  constructor
  · rintro ⟨⟨hne, hold⟩, hmem | hnew⟩
    · exact ⟨hne, hmem⟩
    · exact absurd hold hnew
  · rintro ⟨hne, hmem⟩
    exact ⟨⟨hne, hlive id' hmem⟩, .inl hmem⟩

end EntriesAfter

/-! ## Reading -/

/-- A resource is there, with what is given. -/
abbrev Server.Has (s : Server) (r : Resource) (x : Content) : Prop := s.view r = some x

/-- What every `read` of a thread keeps: it touches its socket and the entries of its user
    only, which are its descriptor, or none. -/
structure Moved (D : Deployment ι) (i : ι) (entries entries' : Finset ℕ) (s : Server)
    (thread : ServerThread) (r : ServerReaction) : Prop where
  sound : r.server.Sound
  framed : threadOwnership.Framed s r.server (thread, entries) (r.thread, entries')
  fd : r.thread.fd = thread.fd
  after : entriesAfter s.manager r.server.manager entries = entries'
  hasEntries : HasEntries D i entries' r.server.Has

/-- What a thread does when it has read the message of a stage, or nothing: it answers as it
    should, or ends after a fault. -/
structure Reacted (D : Deployment ι) (i : ι) (exchange : Exchange) (before entries entries' : Finset ℕ)
    (fault : Prop) (s : Server) (thread : ServerThread) (stage : Stage) (r : ServerReaction) : Prop
    extends Moved D i entries entries' s thread r where
  answered : (∃ answer, Answer D i fault entries' exchange stage answer ∧ r.toUser = [answer] ∧
      Answered D i exchange before entries' thread.fd
        (fun key => r.server.Has (.socket thread.fd) (.socket key)) r.thread.waiting stage) ∨
    fault ∧ r.thread.waiting = .returned ∧ r.toUser = []

section Read

variable {D : Deployment ι} {i : ι} {exchange : Exchange} {before entries entries' : Finset ℕ}
  {fault : Prop} {s : Server} {thread : ServerThread} {stage : Stage}

theorem HasEntries.mono {holds holds' : Resource → Content → Prop} (h : HasEntries D i entries holds)
    (hholds : ∀ id ∈ entries, ∀ d, holds (.entry id) (.entry d) → holds' (.entry id) (.entry d)) :
    HasEntries D i entries holds' where
  descriptor id hid := by
    obtain ⟨d, hd, hentry⟩ := h.descriptor id hid
    exact ⟨d, hd, hholds id hid d hentry⟩
  unique := h.unique

theorem HasEntries.update {s' : Server} {fd : SockFd} {x : Option Content}
    (h : HasEntries D i entries s.Has) (hview : s'.view = Function.update s.view (.socket fd) x) :
    HasEntries D i entries s'.Has :=
  h.mono fun id _ d hd => by
    have hne : Resource.entry id ≠ .socket fd := nofun
    rw [Server.Has, hview, Function.update_of_ne hne, hd]

theorem HasEntries.mem_liveIds (h : HasEntries D i entries s.Has) :
    ∀ id ∈ entries, id ∈ s.manager.liveIds := by
  intro id hid
  obtain ⟨d, -, hentry⟩ := h.descriptor id hid
  exact (Option.ite_none_right_eq_some.1 hentry).1

/-- What a thread that waits owns is there. -/
theorem owns_live {socket : Option KeyData} (hentries : HasEntries D i entries s.Has)
    (hsocket : s.Has (.socket thread.fd) (.socket socket)) :
    ∀ r ∈ threadOwnership.owns (thread, entries), (threadOwnership.view s r).isSome := by
  rintro (id | fd) hr
  · obtain ⟨d, -, hentry⟩ := hentries.descriptor id hr
    exact Option.isSome_of_eq_some hentry
  · obtain ⟨-, rfl⟩ := hr
    exact Option.isSome_of_eq_some hsocket

/-- A thread ends and closes its descriptor. -/
theorem Moved.ended {s' s'' : Server} {thread' : ServerThread} {toUser : List (List UInt8)}
    {socket : Option KeyData} (hopen : thread.waiting ≠ .returned)
    (hframed : threadOwnership.Framed s s' (thread, entries) (thread, entries'))
    (hentries : HasEntries D i entries' s'.Has)
    (hsocket : s'.Has (.socket thread.fd) (.socket socket)) (hs : s''.Sound)
    (hview : s''.view = Function.update s'.view (.socket thread.fd) none)
    (hfd : thread'.fd = thread.fd) (hwaiting : thread'.waiting = .returned)
    (hafter : entriesAfter s.manager s''.manager entries = entries') :
    Moved D i entries entries' s thread ⟨s'', thread', toUser⟩ where
  sound := hs
  framed := hframed.trans
    (.drop (owns_live hentries hsocket) hview (owns_returned hwaiting) ⟨hopen, rfl⟩)
  fd := hfd
  after := hafter
  hasEntries := hentries.update hview

/-- A thread answers and goes on. -/
theorem Reacted.goto {s' : Server} {waiting : ServerWaiting} {answer : List UInt8}
    {socket : Option KeyData} (hopen : thread.waiting ≠ .returned) (hs : s'.Sound)
    (hframed : threadOwnership.Framed s s' (thread, entries) (thread, entries'))
    (hentries : HasEntries D i entries' s'.Has)
    (hsocket : s'.Has (.socket thread.fd) (.socket socket))
    (hafter : entriesAfter s.manager s'.manager entries = entries') (hwaiting : waiting ≠ .returned)
    (hanswer : Answer D i fault entries' exchange stage answer)
    (hanswered : Answered D i exchange before entries' thread.fd
      (fun key => s'.Has (.socket thread.fd) (.socket key)) waiting stage) :
    Reacted D i exchange before entries entries' fault s thread stage
      (thread.goto s' waiting answer) where
  sound := hs
  framed := by
    refine hframed.trans (.of_eq (owns_live hentries hsocket) rfl ?_)
    show ServerThread.owns _ entries' = thread.owns entries'
    refine owns_eq ?_ ?_ entries'
    · rfl
    · exact iff_of_true hwaiting hopen
  fd := rfl
  after := hafter
  hasEntries := hentries
  answered := .inl ⟨answer, hanswer, rfl, hanswered⟩

/-- A thread handles a message: its handler changes the entries of the user only. -/
theorem reacted_handled {key : KeyData} {o : Handled} (hopen : thread.waiting ≠ .returned)
    (hsocket : s.Has (.socket thread.fd) (.socket (some key)))
    (hs : ({ s with manager := o.manager } : Server).Sound)
    (hframed : threadOwnership.Framed s { s with manager := o.manager } (thread, entries)
      (thread, entries'))
    (hentries : HasEntries D i entries' ({ s with manager := o.manager } : Server).Has)
    (hafter : entriesAfter s.manager o.manager entries = entries')
    (hfault : o.returned = false → fault)
    (hanswer : o.returned = true → ∃ answer, o.answer = some answer ∧
      Answer D i fault entries' exchange stage answer ∧
      if o.running then o.waiting ≠ .returned ∧ Answered D i exchange before entries' thread.fd
        (fun key => s.Has (.socket thread.fd) (.socket key)) o.waiting stage
      else stage = .exit) :
    Reacted D i exchange before entries entries' fault s thread stage (thread.handled s o) := by
  obtain ⟨hclosed, hview⟩ := view_freeSocket hs hsocket
  rw [ServerThread.handled]
  cases hreturned : o.returned with
  | false =>
    exact ⟨.ended hopen hframed hentries hsocket hclosed hview rfl rfl hafter,
      .inr ⟨hfault hreturned, rfl, rfl⟩⟩
  | true =>
    obtain ⟨answer, ho, hanswer, hnext⟩ := hanswer hreturned
    cases hrunning : o.running with
    | false =>
      rw [if_neg (by decide)]
      rw [hrunning, if_neg (by decide)] at hnext
      refine ⟨.ended hopen hframed hentries hsocket hclosed hview rfl rfl hafter,
        .inl ⟨answer, hanswer, by rw [ho]; rfl, ?_⟩⟩
      rw [hnext]
      rfl
    | true =>
      rw [if_pos (by decide), ho]
      rw [hrunning, if_pos rfl] at hnext
      exact .goto hopen hs hframed hentries hsocket hafter hnext.1 hanswer hnext.2

/-- A connection that is lost ends the thread. -/
theorem moved_lost (D : Deployment ι) (env : ServerEnv) (hs : s.Sound)
    (hat : At D i exchange before entries thread.fd
      (fun key => s.Has (.socket thread.fd) (.socket key)) stage thread.waiting)
    (hentries : HasEntries D i entries s.Has) :
    ∃ r, thread.recv D.gmp D.vars env s [] = some r ∧ Moved D i entries entries s thread r ∧
      r.thread.waiting = .returned ∧ r.toUser = [] := by
  have hopen := hat.ne_returned
  have hafter := entriesAfter_self hentries.mem_liveIds s.manager rfl
  have hclosed : s.Has (.socket thread.fd) (.socket none) →
      Moved D i entries entries s thread (thread.closed s) := by
    intro hsocket
    obtain ⟨hs', hview⟩ := view_close hs hsocket
    exact .ended hopen (.of_eq (owns_live hentries hsocket) rfl rfl) hentries hsocket hs' hview rfl
      rfl hafter
  have hhandled : ∀ (key : KeyData) (waiting : ServerWaiting),
      s.Has (.socket thread.fd) (.socket (some key)) → Moved D i entries entries s thread
        (thread.handled s ⟨false, true, s.manager, waiting, none⟩) := by
    intro key waiting hsocket
    obtain ⟨hs', hview⟩ := view_freeSocket hs hsocket
    exact .ended hopen (.of_eq (owns_live hentries hsocket) rfl rfl) hentries hsocket hs' hview rfl
      rfl hafter
  generalize hwaiting : thread.waiting = waiting at hat
  cases hat with
  | request hsocket =>
    refine ⟨_, ?_, hclosed hsocket, rfl, rfl⟩
    rw [ServerThread.recv, hwaiting]
    rfl
  | clientKey hsocket =>
    refine ⟨_, ?_, hclosed hsocket, rfl, rfl⟩
    rw [ServerThread.recv, hwaiting]
    rfl
  | processed hkey hsocket =>
    cases huser : exchange.userType with
    | client =>
      exact ⟨_, recv_client D env hs hsocket (hwaiting.trans (congrArg _ huser)) [],
        hhandled _ _ hsocket, rfl, rfl⟩
    | relay =>
      exact ⟨_, recv_relay D env hs hsocket (hwaiting.trans (congrArg _ huser)) [],
        hhandled _ _ hsocket, rfl, rfl⟩
  | client relayStart _ hkey hsocket =>
    exact ⟨_, recv_client D env hs hsocket hwaiting [], hhandled _ _ hsocket, rfl, rfl⟩
  | relay relayData _ hkey hsocket =>
    exact ⟨_, recv_relay D env hs hsocket hwaiting [], hhandled _ _ hsocket, rfl, rfl⟩

section Messages

variable (hD : D.Valid) (env : ServerEnv) (hs : s.Sound) (hentries : HasEntries D i entries s.Has)
  (hsent : env.sent = false → fault) (vars : UserVars)

include hD hs hentries hsent

/-- The request of the handshake. -/
theorem reacted_request (hwaiting : thread.waiting = .request)
    (hsocket : s.Has (.socket thread.fd) (.socket none)) (hbefore : entries = before) :
    ∃ r, thread.recv D.gmp D.vars env s (exchange.message D i vars .response) = some r ∧
      Reacted D i exchange before entries entries fault s thread .response r := by
  have hopen : thread.waiting ≠ .returned := fun h => nomatch hwaiting.symm.trans h
  have hlive := owns_live hentries hsocket
  have hafter := entriesAfter_self hentries.mem_liveIds s.manager rfl
  refine ⟨_, recv_request hD env s hwaiting exchange.userType, ?_⟩
  cases henv : env.sent with
  | false =>
    obtain ⟨hs', hview⟩ := view_close hs hsocket
    exact ⟨.ended hopen (.of_eq hlive rfl rfl) hentries hsocket hs' hview rfl rfl hafter,
      .inr ⟨hsent henv, rfl, rfl⟩⟩
  | true =>
    exact .goto hopen hs (.of_eq hlive rfl rfl) hentries hsocket hafter nofun .response
      (.clientKey hsocket hbefore)

/-- The public key of the user. -/
theorem reacted_clientKey (hmoved : env.moved = false)
    (hwaiting : thread.waiting = .clientKey exchange.userType.code)
    (hsocket : s.Has (.socket thread.fd) (.socket none)) (hbefore : entries = before) :
    ∃ r, thread.recv D.gmp D.vars env s (exchange.message D i vars .confirmation) = some r ∧
      Reacted D i exchange before entries entries fault s thread .confirmation r := by
  have hopen : thread.waiting ≠ .returned := fun h => nomatch hwaiting.symm.trans h
  have hlive := owns_live hentries hsocket
  have hafter := entriesAfter_self hentries.mem_liveIds s.manager rfl
  obtain ⟨key, l, hkey, hrecv, hl, hview⟩ := recv_clientKey hD env s hs hmoved hwaiting hsocket
  refine ⟨_, hrecv, ?_⟩
  cases henv : env.sent with
  | false =>
    obtain ⟨hs', hview⟩ := view_close hs hsocket
    exact ⟨.ended hopen (.of_eq hlive rfl rfl) hentries hsocket hs' hview rfl rfl hafter,
      .inr ⟨hsent henv, rfl, rfl⟩⟩
  | true =>
    have hsocket' : ({ s with keyList := l } : Server).Has (.socket thread.fd) (.socket (some key)) := by
      rw [Server.Has, hview, Function.update_self]
    exact .goto hopen hl (.change hlive hview rfl ⟨hopen, rfl⟩) (hentries.update hview) hsocket'
      hafter (exchange.userType.processed_ne _) (.confirmation _ _) (.processed hkey hsocket' hbefore)

section Process

variable {key : KeyData} (hkey : D.Agreed i key)
  (hsocket : s.Has (.socket thread.fd) (.socket (some key)))

include hkey hsocket

/-- The request of a relay that signs up. -/
theorem reacted_signup {addr : List UInt8} (hrole : D.role i = .relay addr)
    (hwaiting : thread.waiting = .relay ⟨0, thread.fd⟩ none) (hbefore : entries = ∅) {r : ServerReaction}
    (h : thread.recv D.gmp D.vars env s ((Exchange.signup addr).message D i vars .answer) = some r) :
    ∃ entries', Reacted D i (.signup addr) before entries entries' fault s thread
      .answer r := by
  have hopen : thread.waiting ≠ .returned := fun h => nomatch hwaiting.symm.trans h
  rw [recv_relay D env hs hsocket hwaiting, Exchange.message, Exchange.request,
    relayHandleMessage_signup env s thread _ hD hkey (hD.length_sockAddr i addr hrole),
    Option.map_map, Option.map_eq_some_iff] at h
  obtain ⟨m, hgen, rfl⟩ := h
  obtain ⟨id, hfree, hid, hlive, hs', hview⟩ := view_signup hs hgen ⟨addr, D.publicKey i⟩
  have hd : D.descriptor i = some ⟨addr, D.publicKey i⟩ := by rw [Deployment.descriptor, hrole]
  have hnew : ({ s with manager := m.describe env.addr ⟨addr, D.publicKey i⟩ } : Server).Has
      (.entry id) (.entry ⟨addr, D.publicKey i⟩) := by
    rw [Server.Has, hview, Function.update_self]
  have hmem : id ∈ (m.describe env.addr ⟨addr, D.publicKey i⟩).liveIds :=
    hlive ▸ Finset.mem_insert_self id _
  have hlt : id < 2 ^ 31 := (mem_liveIds.1 hmem).1.trans_le hs'.consistent.itemsLength_le
  have hnot : id ∉ s.manager.liveIds := by
    intro hold
    obtain ⟨data, hdata, -⟩ := relayId_of_consistent hs.consistent hold
    rw [Server.view, if_pos hold, hdata] at hfree
    cases hfree
  have hentries' : HasEntries D i {id}
      ({ s with manager := m.describe env.addr ⟨addr, D.publicKey i⟩ } : Server).Has := by
    refine ⟨fun id' hid' => ?_, fun a ha b hb => ?_⟩
    · exact Finset.mem_singleton.1 hid' ▸ ⟨_, hd, hnew⟩
    · rw [Finset.mem_singleton.1 ha, Finset.mem_singleton.1 hb]
  have hafter : entriesAfter s.manager (m.describe env.addr ⟨addr, D.publicKey i⟩) entries = {id} := by
    rw [entriesAfter_insert hentries.mem_liveIds hnot hlive, hbefore, insert_empty_eq]
  refine ⟨{id}, reacted_handled hopen hsocket hs' (.take (owns_live hentries hsocket) hview ?_ hfree)
    hentries' hafter hsent fun _ =>
      ⟨_, rfl, ?_, ServerWaiting.relay_ne _ _, .relay _ rfl hkey hsocket⟩⟩
  · rw [hbefore, ← insert_empty_eq id]
    exact owns_insert id
  · rw [hid, Option.getD_some]
    exact .signup _ hlt rfl

/-- The request of a relay that signs out: its entry is the one that it names, and its key is
    that of the session. -/
theorem reacted_signout (hwaiting : thread.waiting = .relay ⟨0, thread.fd⟩ none)
    (hbefore : entries = {vars.registerId}) : ∃ r,
    thread.recv D.gmp D.vars env s (Exchange.signout.message D i vars .answer) = some r ∧
      Reacted D i .signout before entries ∅ fault s thread .answer r := by
  have hopen : thread.waiting ≠ .returned := fun h => nomatch hwaiting.symm.trans h
  obtain ⟨d, hd, hentry⟩ := hentries.descriptor vars.registerId
    (hbefore ▸ Finset.mem_singleton_self _)
  have hlive : vars.registerId ∈ s.manager.liveIds :=
    hentries.mem_liveIds _ (hbefore ▸ Finset.mem_singleton_self _)
  have hlt : vars.registerId < 2 ^ 32 :=
    (mem_liveIds.1 hlive).1.trans_le (hs.consistent.itemsLength_le.trans (by decide))
  have hpublicKey : d.publicKey = D.publicKey i := by
    rw [Deployment.descriptor] at hd
    split at hd
    next => exact Option.some_inj.1 hd ▸ rfl
    next => cases hd
  obtain ⟨hlive', hs', hview⟩ := view_signedOut hs hlive
  have hempty : entries.erase vars.registerId = ∅ := by rw [hbefore, Finset.erase_singleton]
  have hafter : entriesAfter s.manager (s.manager.removeRelay vars.registerId).2 entries = ∅ := by
    rw [entriesAfter_erase hentries.mem_liveIds hlive', hempty]
  have hrecv := recv_relay D env hs hsocket hwaiting (Exchange.signout.message D i vars .answer)
  rw [Exchange.message, Exchange.request,
    relayHandleMessage_signout env s thread _ hD hkey hs hlt hentry hpublicKey, Option.map_some] at hrecv
  refine ⟨_, hrecv, reacted_handled hopen hsocket hs' (.drop (owns_live hentries hsocket) hview ?_ ?_)
    ⟨fun _ h => (Finset.notMem_empty _ h).elim, fun _ h => (Finset.notMem_empty _ h).elim⟩ hafter
    hsent fun _ =>
      ⟨_, rfl, .signout env.timestamp rfl, ServerWaiting.relay_ne _ _, .relay none rfl hkey hsocket⟩⟩
  · rw [← hempty]
    exact owns_erase _
  · show vars.registerId ∈ entries
    rw [hbefore]
    exact Finset.mem_singleton_self _

omit hD hentries hsent hkey hsocket in
/-- The relays of a batch are different relays of the deployment. -/
theorem listing_of_objects (htracks : D.Tracks s) {ids : List ℕ} {relays : List RelayData}
    (hnodup : ids.Nodup) (hids : ∀ id ∈ ids, id ∈ s.manager.liveIds)
    (hobjects : s.manager.Objects ids relays) : D.Listing (relays.map RelayData.descriptor) := by
  obtain ⟨owner, hinjective, howner⟩ := htracks
  have hdescriptor : ∀ id (h : id ∈ s.manager.liveIds),
      (s.manager.relay id).map RelayData.descriptor = D.descriptor (owner ⟨id, h⟩) := by
    intro id h
    obtain ⟨d, hd, hentry⟩ := howner ⟨id, h⟩
    obtain ⟨data, hdata, -⟩ := relayId_of_consistent hs.consistent h
    rw [Server.view, if_pos h, hdata] at hentry
    rw [hdata, hd]
    exact congrArg some (Content.entry.inj (Option.some_inj.1 hentry))
  refine ⟨ids.pmap (fun id h => owner ⟨id, h⟩) hids, ?_, ?_⟩
  · exact hnodup.pmap fun a ha b hb hab => congrArg Subtype.val (hinjective hab)
  · calc (relays.map RelayData.descriptor).map some
        = (relays.map some).map (Option.map RelayData.descriptor) := by
          rw [List.map_map, List.map_map]
          rfl
      _ = ids.pmap (fun id _ => (s.manager.relay id).map RelayData.descriptor) hids := by
          rw [hobjects.relay, List.map_map, List.pmap_eq_map]
          rfl
      _ = (ids.pmap (fun id h => owner ⟨id, h⟩) hids).map D.descriptor := by
          rw [List.map_pmap]
          exact List.pmap_congr_left _ fun id _ h _ => hdescriptor id h

omit hD in
/-- The request of a client: the server has relays only, with their descriptors. -/
theorem reacted_gather (htracks : D.Tracks s) {amount : ℕ} (hamount : amount ≤ maxRelays)
    (hfew : s.manager.liveIds.card < amount → fault)
    (hwaiting : thread.waiting = .client ⟨0, thread.fd⟩ 0) : ∃ r,
    thread.recv D.gmp D.vars env s ((Exchange.gather amount hamount).message D i vars .answer) =
        some r ∧
      Reacted D i (.gather amount hamount) before entries entries fault s thread
        .answer r := by
  have hopen : thread.waiting ≠ .returned := fun h => nomatch hwaiting.symm.trans h
  obtain ⟨relays, hbatch, hobjects⟩ :=
    getRelayBatch_spec hs.consistent 0 serverRelaysMapAmount
  obtain ⟨relayStart, hmap⟩ : ∃ relayStart,
      handleGetRelayMap s.manager 0 = some (relays, relayStart) := by
    rw [handleGetRelayMap, hbatch]
    exact ⟨_, rfl⟩
  have hlisting : D.Listing (relays.map RelayData.descriptor) := by
    refine listing_of_objects hs htracks ?_ (fun id hid => ?_) hobjects
    · exact (nodup_relaysFrom hs.consistent 0).sublist (List.take_sublist _ _)
    · exact (mem_relaysFrom hs.consistent 0).1 (List.mem_of_mem_take hid)
  have hlength : relays.length ≤ serverRelaysMapAmount := by
    rw [hobjects.length]
    exact List.length_take_le _ _
  have henough : fault ∨ amount ≤ relays.length := by
    refine or_iff_not_imp_left.2 fun hfault => ?_
    rw [hobjects.length, List.length_take, length_relaysFrom hs.consistent]
    exact le_min (hamount.trans (by decide)) (Nat.le_of_not_lt (mt hfew hfault))
  have hrecv := recv_client D env hs hsocket hwaiting
    ((Exchange.gather amount hamount).message D i vars .answer)
  rw [Exchange.message, Exchange.request,
    clientHandleMessage_request env s thread _ hkey 0 .getRelayMap, hmap] at hrecv
  have hlive := owns_live hentries hsocket
  exact ⟨_, hrecv, reacted_handled hopen hsocket hs (.of_eq hlive rfl rfl) hentries
    (entriesAfter_self hentries.mem_liveIds s.manager rfl) hsent fun _ =>
      ⟨_, rfl, .gather _ _ hlength hlisting henough, ServerWaiting.client_ne _ _,
        .client _ rfl hkey hsocket⟩⟩

end Process

/-- The end of a session. -/
theorem reacted_exit
    (hat : At D i exchange before entries thread.fd
      (fun key => s.Has (.socket thread.fd) (.socket key)) .exit thread.waiting) : ∃ r,
    thread.recv D.gmp D.vars env s (exchange.message D i vars .exit) = some r ∧
      Reacted D i exchange before entries entries fault s thread .exit r := by
  have hopen := hat.ne_returned
  have hafter := entriesAfter_self hentries.mem_liveIds s.manager rfl
  have hhandled : ∀ (key : KeyData) (waiting : ServerWaiting),
      s.Has (.socket thread.fd) (.socket (some key)) →
        Reacted D i exchange before entries entries fault s thread .exit
          (thread.handled s ⟨env.sent, false, s.manager, waiting,
            some (sendEncServerMsg (D.secret i)
              (responseBase env.timestamp .success RelayCommand.exit.code))⟩) := by
    intro key waiting hsocket
    exact reacted_handled hopen hsocket hs (.of_eq (owns_live hentries hsocket) rfl rfl) hentries
      hafter hsent fun _ => ⟨_, rfl, .exit env.timestamp, rfl⟩
  generalize hwaiting : thread.waiting = waiting at hat
  cases hat with
  | client relayStart huser hkey hsocket =>
    have hmessage : exchange.message D i vars .exit =
        sendEncServerMsg (D.secret i) (put16 ClientCommand.exit.code) := by
      cases exchange with
      | gather => rfl
      | _ => cases huser
    refine ⟨_, ?_, hhandled _ (.client ⟨0, thread.fd⟩ relayStart) hsocket⟩
    rw [recv_client D env hs hsocket hwaiting, hmessage,
      clientHandleMessage_request env s thread _ hkey relayStart .exit]
    rfl
  | relay relayData huser hkey hsocket =>
    have hmessage : exchange.message D i vars .exit =
        sendEncServerMsg (D.secret i) (put16 RelayCommand.exit.code) := by
      cases exchange with
      | gather => cases huser
      | _ => rfl
    refine ⟨_, ?_, hhandled _ (.relay ⟨0, thread.fd⟩ none) hsocket⟩
    rw [recv_relay D env hs hsocket hwaiting, hmessage,
      relayHandleMessage_exit env s thread _ hD hkey relayData]
    rfl

end Messages

theorem Role.Does.relay_eq {role : Role} {addr : List UInt8} (h : role.Does (.signup addr)) :
    role = .relay addr := by
  cases role with
  | relay addr' => rw [show addr = addr' from h]
  | client => exact h.elim

section Spec

variable (hD : D.Valid) {env : ServerEnv} (hs : s.Sound) (hmoved : env.moved = false)
  (htracks : D.Tracks s) (hentries : HasEntries D i entries s.Has)
  (hdoes : (D.role i).Does exchange) {vars : UserVars}
  (hat : At D i exchange (exchange.before vars) entries thread.fd
    (fun key => s.Has (.socket thread.fd) (.socket key)) stage thread.waiting)

include hD hs hmoved htracks hentries hdoes hat

/-- What a message leads to. By cases on the stage. -/
theorem recv_spec (hsent : env.sent = false → fault)
    (hfew : ∀ amount hamount, exchange = .gather amount hamount →
      s.manager.liveIds.card < amount → fault) {r : ServerReaction}
    (h : thread.recv D.gmp D.vars env s (exchange.message D i vars stage) = some r) :
    ∃ entries',
      Reacted D i exchange (exchange.before vars) entries entries' fault s thread stage r := by
  have hsame : ∀ entries', (∃ r, thread.recv D.gmp D.vars env s (exchange.message D i vars stage) =
      some r ∧ Reacted D i exchange (exchange.before vars) entries entries' fault s thread stage r) →
        ∃ entries',
          Reacted D i exchange (exchange.before vars) entries entries' fault s thread stage r := by
    rintro entries' ⟨r', hr', hreacted⟩
    exact ⟨entries', Option.some_inj.1 (hr'.symm.trans h) ▸ hreacted⟩
  cases stage with
  | response =>
    generalize hwaiting : thread.waiting = waiting at hat
    cases hat with
    | request hsocket hbefore =>
      exact hsame _ (reacted_request hD env hs hentries hsent vars hwaiting hsocket hbefore)
  | confirmation =>
    generalize hwaiting : thread.waiting = waiting at hat
    cases hat with
    | clientKey hsocket hbefore =>
      exact hsame _
        (reacted_clientKey hD env hs hentries hsent vars hmoved hwaiting hsocket hbefore)
  | answer =>
    generalize hwaiting : thread.waiting = waiting at hat
    cases hat with
    | processed hkey hsocket hbefore =>
      cases exchange with
      | signup addr =>
        exact reacted_signup hD env hs hentries hsent vars hkey hsocket hdoes.relay_eq hwaiting
          hbefore h
      | signout =>
        exact hsame _
          (reacted_signout hD env hs hentries hsent vars hkey hsocket hwaiting hbefore)
      | gather amount hamount =>
        exact hsame _ (reacted_gather env hs hentries hsent vars hkey hsocket htracks hamount
          (hfew amount hamount rfl) hwaiting)
  | exit => exact hsame _ (reacted_exit hD env hs hentries hsent vars hat)

/-- A message is read, if there is room for what it asks for. -/
theorem exists_recv (hgen : (s.manager.genRelay env.addr).isSome) :
    ∃ r, thread.recv D.gmp D.vars env s (exchange.message D i vars stage) = some r := by
  have htrivial : env.sent = false → True := fun _ => trivial
  cases stage with
  | response =>
    generalize hwaiting : thread.waiting = waiting at hat
    cases hat with
    | request hsocket =>
      exact (reacted_request hD env hs hentries htrivial vars hwaiting hsocket rfl).imp
        fun _ h => h.1
  | confirmation =>
    generalize hwaiting : thread.waiting = waiting at hat
    cases hat with
    | clientKey hsocket =>
      exact (reacted_clientKey hD env hs hentries htrivial vars hmoved hwaiting hsocket rfl).imp
        fun _ h => h.1
  | answer =>
    generalize hwaiting : thread.waiting = waiting at hat
    cases hat with
    | processed hkey hsocket hbefore =>
      cases exchange with
      | signup addr =>
        obtain ⟨m, hm⟩ := Option.isSome_iff_exists.1 hgen
        have hrecv := recv_relay D env hs hsocket hwaiting
          ((Exchange.signup addr).message D i vars .answer)
        rw [Exchange.message, Exchange.request, relayHandleMessage_signup env s thread _ hD hkey
          (hD.length_sockAddr i addr hdoes.relay_eq), hm] at hrecv
        exact ⟨_, hrecv⟩
      | signout =>
        obtain ⟨r, hr, -⟩ : ∃ r, _ ∧ Reacted D i .signout ∅ entries ∅ True s thread .answer r :=
          reacted_signout hD env hs hentries htrivial vars hkey hsocket hwaiting hbefore
        exact ⟨r, hr⟩
      | gather amount hamount =>
        obtain ⟨r, hr, -⟩ : ∃ r, _ ∧ Reacted D i (.gather amount hamount) ∅ entries entries True s
            thread .answer r :=
          reacted_gather env hs hentries htrivial vars hkey hsocket htracks hamount
            (fun _ => trivial) hwaiting
        exact ⟨r, hr⟩
  | exit => exact (reacted_exit hD env hs hentries htrivial vars hat).imp fun _ h => h.1

end Spec

end Read

end OnionRouter.Directory
