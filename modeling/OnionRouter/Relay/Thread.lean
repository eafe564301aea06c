import OnionRouter.Relay.Exit

/-!
# The connections of a relay

`client_callback`: the thread that a relay runs for a connection, with its descriptors. The
connection that was accepted, and the one that `extend_relay` makes, are in a ledger beside
the session. What the calls of a step yield is part of its event; a cell is what
`recv_tor_buffer` leaves in the buffer.

* `closedOnce_of_reachable`: where nothing fails after the TLS handshake, both connections
  are closed once when the thread returns.
* `Thread.step_role_destroy`, `Thread.step_middle_destroy`, `EndSession.step_destroy`: what
  becomes of a DESTROY, wherever the thread waits for a cell.
-/

namespace OnionRouter.Relay

open Lib Protocol Streams

/-- Where `client_callback` is. -/
inductive Stage
  /-- In `handle_tls_recviever`. -/
  | tls
  /-- In `handle_create_message`. -/
  | create
  /-- In `process_relay_session`, for the message that gives it a role. -/
  | role
  /-- In `extend_relay`. -/
  | extend
  /-- Before the loop of `process_middle_relay_session`. -/
  | watch
  /-- In the loop. -/
  | middle
  /-- In `process_end_relay_session`. -/
  | endRelay (s : EndSession)
  | returned

/-- A thread, with the descriptors of its `relay_session_t`, which are -1 without a
    connection. -/
structure Thread where
  stage : Stage
  lastFd : Option ℕ
  nextFd : Option ℕ
  links : Ledger ℕ

/-- What the calls of `extend_relay` yield. -/
structure ExtendCalls where
  connected : Option ℕ
  tlsReceived : Bool
  tlsSent : Bool
  createSent : Bool
  /-- The cell that is received, if one is. -/
  created : Option (Memory UInt8)
  extendedSent : Bool

/-- A step of a thread, with what its calls yield. -/
inductive ThreadEvent
  | tls (sent received : Bool)
  | create (received : Option (Memory UInt8))
  | role (received : Option (Memory UInt8))
  | extend (calls : ExtendCalls)
  /-- The two calls of `epoll_ctl`. -/
  | watch (lastAdded nextAdded : Bool)
  | waitFailed
  | last (received : Option (Memory UInt8)) (sent : Bool)
  | next (received : Option (Memory UInt8)) (sent : Bool)
  | endRelay (event : EndEvent)

/-- `close`; -1 is no descriptor. -/
def closeFd (fd : Option ℕ) (links : Ledger ℕ) : Ledger ℕ :=
  match fd with
  | none => links
  | some fd => .release fd :: links

namespace Thread

variable (t : Thread)

/-- `free_relay_session`, and the end of `client_callback`. -/
def freeRelaySession : Thread :=
  ⟨.returned, none, none, closeFd t.nextFd (closeFd t.lastFd t.links)⟩

/-- `client_callback`, when `process_relay_session` has returned. -/
def finish : RelayCode → Thread
  | .success => t.freeRelaySession
  | .error => { t with stage := .returned }

/-- `handle_tls_recviever`, which closes the descriptor when it fails. -/
def handleTlsRecviever (sent received : Bool) : Thread :=
  if sent = true ∧ received = true then { t with stage := .create }
  else freeRelaySession { t with lastFd := none, links := closeFd t.lastFd t.links }

/-- `handle_create_message`, which does not look at whether CREATED is sent. -/
def handleCreateMessage (received : Option (Memory UInt8)) : Thread :=
  match received with
  | none => t.finish .error
  | some buffer =>
    if buffer cmdOffset = TorCommand.torCreate.code then { t with stage := .role }
    else t.finish .error

/-- The rest of `process_relay_session`. -/
def processRelaySession (received : Option (Memory UInt8)) : Thread :=
  match received with
  | none => t.finish .success
  | some buffer =>
    if buffer cmdOffset = TorCommand.torRelay.code ∧
        buffer relayCmdOffset = RelayCommand.relayExtend.code then { t with stage := .extend }
    else { t with stage := .endRelay (processEndRelaySession buffer) }

/-- `extend_relay`; `none` when the descriptor is open already, so that `connect` does not
    return it. -/
def extendRelay (calls : ExtendCalls) : Option Thread :=
  match calls.connected with
  -- `handle_tls_sender` receives nothing from -1.
  | none => some (finish { t with nextFd := none } .error)
  | some fd =>
    if fd ∈ t.links.held then none
    else
      let t := { t with nextFd := some fd, links := .acquire fd :: t.links }
      if calls.tlsReceived = false ∨ calls.tlsSent = false then
        some (finish { t with links := closeFd t.nextFd t.links } .error)
      else if calls.createSent = false then some (t.finish .error)
      else
        match calls.created with
        | none => some (t.finish .error)
        | some buffer =>
          if buffer cmdOffset ≠ TorCommand.torCreated.code then some (t.finish .error)
          else if calls.extendedSent = false then some (t.finish .error)
          else some { t with stage := .watch }

/-- `handle_fd_common`, and `handle_last_fd` or `handle_next_fd` around it: a DESTROY that is
    passed on ends the session, if it came from the client. -/
def handleFd (fromClient : Bool) (received : Option (Memory UInt8)) (sent : Bool) : Thread :=
  match received with
  | none => t.finish .error
  | some buffer =>
    if sent = false then t.finish .error
    else if fromClient = true ∧ buffer cmdOffset = TorCommand.torDestroy.code then t.finish .success
    else t

/-- What follows an event of `process_end_relay_session`. -/
def endRelay (s : EndSession) : Thread :=
  match s.stage with
  | .returned code => t.finish code
  | _ => { t with stage := .endRelay s }

/-- A step, if the thread waits for what its calls yield. -/
def step (event : ThreadEvent) : Option Thread :=
  match t.stage, event with
  | .tls, .tls sent received => some (t.handleTlsRecviever sent received)
  | .create, .create received => some (t.handleCreateMessage received)
  | .role, .role received => some (t.processRelaySession received)
  | .extend, .extend calls => t.extendRelay calls
  | .watch, .watch lastAdded nextAdded =>
    if lastAdded = true ∧ nextAdded = true then some { t with stage := .middle }
    else some (t.finish .error)
  | .middle, .waitFailed => some (t.finish .error)
  | .middle, .last received sent => some (t.handleFd true received sent)
  | .middle, .next received sent => some (t.handleFd false received sent)
  | .endRelay s, .endRelay event => (s.step event).map t.endRelay
  | _, _ => none

end Thread

/-- A thread for a connection that was accepted. -/
def clientCallbackThread (fd : ℕ) : Thread := ⟨.tls, some fd, none, [.acquire fd]⟩

/-- The runs of `client_callback`. -/
def threadMachine : Machine Thread ThreadEvent :=
  .ofFun {t | ∃ fd, t = clientCallbackThread fd} Thread.step

/-! ## Who closes the connections -/

/-- When the thread has returned, every connection was closed, and once. -/
def ClosedOnce (t : Thread) : Prop :=
  t.stage = .returned → ∀ fd, .acquire fd ∈ t.links → t.links.count (.release fd) = 1

/-- Nothing fails in `extend_relay`. -/
structure ExtendCalls.Succeed (calls : ExtendCalls) : Prop where
  connected : calls.connected.isSome = true
  tlsReceived : calls.tlsReceived = true
  tlsSent : calls.tlsSent = true
  createSent : calls.createSent = true
  created : ∃ buffer ∈ calls.created, buffer cmdOffset = TorCommand.torCreated.code
  extendedSent : calls.extendedSent = true

/-- Nothing fails in an event of the end relay. -/
def EndEvent.Succeeds (s : EndSession) : EndEvent → Prop
  | .first calls => calls.replied = true
  | .interrupted => True
  | .failed => False
  | .message _ calls => calls.replied = true
  | .internet _ streamId _ replied => socketHashmapFind s.map streamId ≠ none ∧ replied = true

/-- Nothing fails after the TLS handshake, but for receiving the message that gives the relay
    its role. -/
def Succeeds : Machine.Guard Thread ThreadEvent
  | _, .tls _ _ => True
  | _, .create received => ∃ buffer ∈ received, buffer cmdOffset = TorCommand.torCreate.code
  | _, .role _ => True
  | _, .extend calls => calls.Succeed
  | _, .watch lastAdded nextAdded => lastAdded = true ∧ nextAdded = true
  | _, .waitFailed => False
  | _, .last received sent => received.isSome = true ∧ sent = true
  | _, .next received sent => received.isSome = true ∧ sent = true
  | t, .endRelay event => ∀ s, t.stage = .endRelay s → event.Succeeds s

/-! ## The runs -/

/-- What the runs keep. -/
inductive ThreadInvariant : Thread → Prop
  /-- Only the connection that was accepted is open. -/
  | one {stage : Stage} {last : ℕ} (hstage : stage ≠ .watch ∧ stage ≠ .middle ∧ stage ≠ .returned) :
      ThreadInvariant ⟨stage, some last, none, [.acquire last]⟩
  /-- Both are. -/
  | two {stage : Stage} {last next : ℕ} (hstage : stage = .watch ∨ stage = .middle)
      (hne : next ≠ last) : ThreadInvariant ⟨stage, some last, some next, [.acquire next, .acquire last]⟩
  | returned {t : Thread} (hstage : t.stage = .returned)
      (hclosed : ∀ fd, .acquire fd ∈ t.links → t.links.count (.release fd) = 1) : ThreadInvariant t

variable {last next : ℕ}

/-- Freeing the session closes what is open. -/
theorem threadInvariant_freeRelaySession_one (stage : Stage) :
    ThreadInvariant (Thread.freeRelaySession ⟨stage, some last, none, [.acquire last]⟩) := by
  refine .returned rfl fun fd hfd => ?_
  obtain rfl : fd = last := by simpa [Thread.freeRelaySession, closeFd] using hfd
  simp [Thread.freeRelaySession, closeFd]

theorem threadInvariant_freeRelaySession_two (stage : Stage) (hne : next ≠ last) :
    ThreadInvariant (Thread.freeRelaySession
      ⟨stage, some last, some next, [.acquire next, .acquire last]⟩) := by
  refine .returned rfl fun fd hfd => ?_
  have hfd : fd = next ∨ fd = last := by simpa [Thread.freeRelaySession, closeFd] using hfd
  rcases hfd with rfl | rfl
  · simp [Thread.freeRelaySession, closeFd, Ne.symm hne]
  · simp [Thread.freeRelaySession, closeFd, hne]

/-- With the replies sent, a handler ends the session by a DESTROY only. -/
theorem code_ne_error (o : Outcome) : o.code true ≠ some .error := by
  rw [Outcome.code]
  split_ifs with hreturned hreply
  · simp
  · exact absurd hreply.2 (by decide)
  · simp

theorem stage_handled_ne (o : Outcome) (sockets : Ledger ℕ) :
    (EndSession.handled o true sockets).stage ≠ .returned .error := by
  have hcode := code_ne_error o
  rw [EndSession.handled]
  split
  · simp
  next code h =>
    rw [h] at hcode
    exact fun hstage => hcode (congrArg some (EndStage.returned.inj hstage))

/-- The two ways to go on differ in the table only. -/
theorem stage_handledFirst (o : Outcome) (replied : Bool) (sockets : Ledger ℕ) :
    (EndSession.handledFirst o replied sockets).stage =
      (EndSession.handled o replied sockets).stage := by
  rw [EndSession.handledFirst, EndSession.handled]
  cases o.code replied <;> rfl

/-- The end relay returns no error when nothing fails. -/
theorem stage_ne_of_succeeds {s s' : EndSession} {event : EndEvent} (hsucceeds : event.Succeeds s)
    (hstep : s.step event = some s') : s'.stage ≠ .returned .error := by
  cases hstage : s.stage with
  | first buffer =>
    cases event with
    | first calls =>
      rw [EndSession.step_first hstage] at hstep
      obtain ⟨sockets, -, rfl⟩ := Option.map_eq_some_iff.1 hstep
      rw [show calls.replied = true from hsucceeds]
      rw [stage_handledFirst]
      exact stage_handled_ne _ _
    | interrupted => simp [EndSession.step, hstage] at hstep
    | failed => exact hsucceeds.elim
    | message => simp [EndSession.step, hstage] at hstep
    | internet => simp [EndSession.step, hstage] at hstep
  | loop =>
    rw [EndSession.step_loop hstage] at hstep
    cases event with
    | first => cases hstep
    | interrupted =>
      rw [← Option.some_inj.1 hstep, hstage]
      simp
    | failed => exact hsucceeds.elim
    | message buffer calls =>
      obtain ⟨sockets, -, rfl⟩ := Option.map_eq_some_iff.1 hstep
      rw [show calls.replied = true from hsucceeds]
      exact stage_handled_ne _ _
    | internet buffer streamId data replied =>
      obtain ⟨hfind, hreplied⟩ := hsucceeds
      -- Success includes that the socket still has its entry.
      obtain ⟨entry, hentry⟩ := Option.ne_none_iff_exists'.1 hfind
      simp only [EndSession.handleEpollEvent, hentry, hreplied, Option.some_inj] at hstep
      exact hstep ▸ stage_handled_ne _ _
  | returned => simp [EndSession.step, hstage] at hstep

namespace ThreadInvariant

variable {t t' : Thread}

theorem handleTlsRecviever (last : ℕ) (sent received : Bool) :
    ThreadInvariant ((clientCallbackThread last).handleTlsRecviever sent received) := by
  rw [Thread.handleTlsRecviever]
  split_ifs
  · exact .one ⟨nofun, nofun, nofun⟩
  · -- It is closed before the session is freed, which makes no difference to the ledger.
    exact threadInvariant_freeRelaySession_one .tls

/-- Not receiving the message that gives the relay its role ends the session as well. -/
theorem processRelaySession (last : ℕ) (received : Option (Memory UInt8)) :
    ThreadInvariant (Thread.processRelaySession ⟨.role, some last, none, [.acquire last]⟩ received) := by
  cases received with
  | none => exact threadInvariant_freeRelaySession_one _
  | some buffer =>
    unfold Thread.processRelaySession
    dsimp only
    split_ifs
    · exact .one ⟨nofun, nofun, nofun⟩
    · exact .one ⟨nofun, nofun, nofun⟩

theorem extendRelay {calls : ExtendCalls} (hsucceed : calls.Succeed)
    (hstep : Thread.extendRelay ⟨.extend, some last, none, [.acquire last]⟩ calls = some t') :
    ThreadInvariant t' := by
  obtain ⟨next, hnext⟩ := Option.isSome_iff_exists.1 hsucceed.connected
  obtain ⟨buffer, hcreated, hcmd⟩ := hsucceed.created
  rw [Thread.extendRelay] at hstep
  simp only [hnext, hsucceed.tlsReceived, hsucceed.tlsSent, hsucceed.createSent,
    show calls.created = some buffer from hcreated, hcmd, hsucceed.extendedSent] at hstep
  -- What `connect` returns is not the connection that is open.
  have hfresh : next ∉ Ledger.held [.acquire last] := by
    intro hheld
    rw [if_pos hheld] at hstep
    cases hstep
  rw [if_neg hfresh] at hstep
  have hne : next ≠ last := fun heq => hfresh (heq ▸ Finset.mem_insert_self _ _)
  simp only [Bool.true_eq_false, or_self, if_false, ne_eq, not_true_eq_false, Option.some_inj]
    at hstep
  exact hstep ▸ .two (.inl rfl) hne

theorem endRelay {s : EndSession} (hsuccess : s.stage ≠ .returned .error) (stage : Stage) :
    ThreadInvariant (Thread.endRelay ⟨stage, some last, none, [.acquire last]⟩ s) := by
  rw [Thread.endRelay]
  split
  next code hcode =>
    -- An error would leave the connection open.
    cases code with
    | success => exact threadInvariant_freeRelaySession_one _
    | error => exact absurd hcode hsuccess
  next => exact .one ⟨nofun, nofun, nofun⟩

theorem eq_one (h : ThreadInvariant t) {stage : Stage} (hstage : t.stage = stage)
    (hother : stage ≠ .watch ∧ stage ≠ .middle ∧ stage ≠ .returned) :
    ∃ last, t = ⟨stage, some last, none, [.acquire last]⟩ := by
  cases h with
  | one =>
    obtain rfl := hstage
    exact ⟨_, rfl⟩
  | two htwo =>
    rcases htwo with h | h
    · exact absurd (hstage.symm.trans h) hother.1
    · exact absurd (hstage.symm.trans h) hother.2.1
  | returned hreturned => exact absurd (hstage.symm.trans hreturned) hother.2.2

theorem eq_two (h : ThreadInvariant t) {stage : Stage} (hstage : t.stage = stage)
    (htwo : stage = .watch ∨ stage = .middle) :
    ∃ last next, next ≠ last ∧ t = ⟨stage, some last, some next, [.acquire next, .acquire last]⟩ := by
  cases h with
  | one hone =>
    obtain rfl := hstage
    rcases htwo with h | h
    · exact absurd h hone.1
    · exact absurd h hone.2.1
  | two _ hne =>
    obtain rfl := hstage
    exact ⟨_, _, hne, rfl⟩
  | returned hreturned => rcases htwo with rfl | rfl <;> cases hstage.symm.trans hreturned

theorem handleFd {fromClient sent : Bool} {received : Option (Memory UInt8)} (hne : next ≠ last)
    (hsucceeds : received.isSome = true ∧ sent = true) :
    ThreadInvariant (Thread.handleFd
      ⟨.middle, some last, some next, [.acquire next, .acquire last]⟩ fromClient received sent) := by
  obtain ⟨hreceived, rfl⟩ := hsucceeds
  obtain ⟨buffer, rfl⟩ := Option.isSome_iff_exists.1 hreceived
  simp only [Thread.handleFd, Bool.true_eq_false, if_false]
  split_ifs
  · exact threadInvariant_freeRelaySession_two _ hne
  · exact .two (.inr rfl) hne

theorem step (h : ThreadInvariant t) {event : ThreadEvent} (hsucceeds : Succeeds t event)
    (hstep : t.step event = some t') : ThreadInvariant t' := by
  unfold Thread.step at hstep
  split at hstep
  -- The stage tells how many descriptors the thread has.
  next sent received hstage =>
    obtain ⟨last, rfl⟩ := h.eq_one hstage ⟨nofun, nofun, nofun⟩
    exact Option.some_inj.1 hstep ▸ handleTlsRecviever last sent received
  next received hstage =>
    obtain ⟨last, rfl⟩ := h.eq_one hstage ⟨nofun, nofun, nofun⟩
    obtain ⟨buffer, hreceived, hcmd⟩ := hsucceeds
    rw [← Option.some_inj.1 hstep, show received = some buffer from hreceived,
      Thread.handleCreateMessage]
    simp only [hcmd, if_true]
    exact .one ⟨nofun, nofun, nofun⟩
  next received hstage =>
    obtain ⟨last, rfl⟩ := h.eq_one hstage ⟨nofun, nofun, nofun⟩
    exact Option.some_inj.1 hstep ▸ processRelaySession last received
  next calls hstage =>
    obtain ⟨last, rfl⟩ := h.eq_one hstage ⟨nofun, nofun, nofun⟩
    exact extendRelay hsucceeds hstep
  next lastAdded nextAdded hstage =>
    obtain ⟨last, next, hne, rfl⟩ := h.eq_two hstage (.inl rfl)
    rw [if_pos (show lastAdded = true ∧ nextAdded = true from hsucceeds)] at hstep
    exact Option.some_inj.1 hstep ▸ .two (.inr rfl) hne
  next => exact hsucceeds.elim
  next received sent hstage =>
    obtain ⟨last, next, hne, rfl⟩ := h.eq_two hstage (.inr rfl)
    exact Option.some_inj.1 hstep ▸ handleFd hne hsucceeds
  next received sent hstage =>
    obtain ⟨last, next, hne, rfl⟩ := h.eq_two hstage (.inr rfl)
    exact Option.some_inj.1 hstep ▸ handleFd hne hsucceeds
  next s event hstage =>
    obtain ⟨last, rfl⟩ := h.eq_one hstage ⟨nofun, nofun, nofun⟩
    obtain ⟨s', hs', rfl⟩ := Option.map_eq_some_iff.1 hstep
    exact endRelay (stage_ne_of_succeeds (hsucceeds s rfl) hs') _
  next => cases hstep

theorem closedOnce (h : ThreadInvariant t) : ClosedOnce t := by
  intro hstage
  cases h with
  | one hother => exact absurd hstage hother.2.2
  | two hother => rcases hother with h | h <;> cases h.symm.trans hstage
  | returned _ hclosed => exact hclosed

end ThreadInvariant

/-- A session that is freed closes what is open. -/
theorem ThreadInvariant.closedOnce_freeRelaySession {t : Thread} (h : ThreadInvariant t)
    (hrunning : t.stage ≠ .returned) : ClosedOnce t.freeRelaySession := by
  cases h with
  | one => exact (threadInvariant_freeRelaySession_one _).closedOnce
  | two _ hne => exact (threadInvariant_freeRelaySession_two _ hne).closedOnce
  | returned hreturned => exact absurd hreturned hrunning

/-- In a run in which nothing fails after the TLS handshake, the connections are closed once
    when the thread has returned. -/
theorem closedOnce_of_reachable {t : Thread} (ht : threadMachine.Reachable Succeeds t) :
    ClosedOnce t := by
  have hinv : ThreadInvariant t := by
    refine ht.invariant ?_ ?_
    · rintro _ ⟨fd, rfl⟩
      exact .one ⟨nofun, nofun, nofun⟩
    · intro t event t' hinv hsucceeds hstep
      exact hinv.step hsucceeds hstep
  exact hinv.closedOnce

/-- A cell with its two commands. -/
def exampleMessage (cmd : TorCommand) (relayCmd : UInt8) : Memory UInt8 :=
  Stores.write [(cmdOffset, [cmd.code]), (relayCmdOffset, [relayCmd])] fun _ => 0

/-- The circuit is extended, and torn down by a DESTROY. -/
theorem closedOnce_of_reachable_middle : ∃ t : Thread, t.stage = .returned ∧ ClosedOnce t ∧
    t.links = [.release 4, .release 3, .acquire 4, .acquire 3] := by
  have haccepted : threadMachine.Reachable Succeeds (clientCallbackThread 3) := .init ⟨3, rfl⟩
  have htls : threadMachine.Reachable Succeeds ⟨.create, some 3, none, [.acquire 3]⟩ :=
    haccepted.step (a := .tls true true) trivial rfl
  have hcreate : threadMachine.Reachable Succeeds ⟨.role, some 3, none, [.acquire 3]⟩ :=
    htls.step (a := .create (some (exampleMessage .torCreate 0))) ⟨_, rfl, rfl⟩ rfl
  have hrole : threadMachine.Reachable Succeeds ⟨.extend, some 3, none, [.acquire 3]⟩ :=
    hcreate.step (a := .role (some (exampleMessage .torRelay RelayCommand.relayExtend.code)))
      trivial rfl
  have hextend : threadMachine.Reachable Succeeds
      ⟨.watch, some 3, some 4, [.acquire 4, .acquire 3]⟩ :=
    hrole.step (a := .extend ⟨some 4, true, true, true, some (exampleMessage .torCreated 0), true⟩)
      ⟨rfl, rfl, rfl, rfl, ⟨_, rfl, rfl⟩, rfl⟩ rfl
  have hwatch : threadMachine.Reachable Succeeds
      ⟨.middle, some 3, some 4, [.acquire 4, .acquire 3]⟩ :=
    hextend.step (a := .watch true true) ⟨rfl, rfl⟩ rfl
  have hdestroy : threadMachine.Reachable Succeeds
      ⟨.returned, none, none, [.release 4, .release 3, .acquire 4, .acquire 3]⟩ :=
    hwatch.step (a := .last (some (exampleMessage .torDestroy 0)) true) ⟨rfl, rfl⟩ rfl
  exact ⟨_, rfl, closedOnce_of_reachable hdestroy, rfl⟩

/-- When no CREATE arrives, the connection that was accepted stays open. -/
theorem not_closedOnce_of_reachable :
    ¬ ∀ t : Thread, threadMachine.Reachable Machine.anyStep t → ClosedOnce t := by
  intro hclosed
  have haccepted : threadMachine.Reachable Machine.anyStep (clientCallbackThread 3) := .init ⟨3, rfl⟩
  have htls : threadMachine.Reachable Machine.anyStep ⟨.create, some 3, none, [.acquire 3]⟩ :=
    haccepted.step (a := .tls true true) trivial rfl
  have hcreate : threadMachine.Reachable Machine.anyStep ⟨.returned, some 3, none, [.acquire 3]⟩ :=
    htls.step (a := .create none) trivial rfl
  exact absurd (hclosed _ hcreate rfl 3 (List.mem_singleton.2 rfl)) (by decide)

/-! ## A DESTROY -/

section Destroy

variable {t : Thread} {buffer : Memory UInt8} (hcmd : buffer cmdOffset = TorCommand.torDestroy.code)

include hcmd

/-- It is no EXTEND: the relay becomes an end relay, which handles it. -/
theorem Thread.step_role_destroy (hstage : t.stage = .role) :
    t.step (.role (some buffer)) =
      some { t with stage := .endRelay (processEndRelaySession buffer) } := by
  simp only [Thread.step, hstage, Thread.processRelaySession, hcmd]
  rfl

theorem Thread.step_middle_destroy (hstage : t.stage = .middle) :
    t.step (.last (some buffer) true) = some t.freeRelaySession := by
  simp only [Thread.step, hstage, Thread.handleFd, hcmd]
  rfl

theorem EndSession.step_destroy {s : EndSession} (hloop : s.stage = .loop) (calls : Calls) :
    s.step (.message buffer calls) =
      some ⟨.returned .success, s.map, socketHashmapFree s.map s.sockets⟩ := by
  simp only [EndSession.step_loop hloop, EndSession.handleEpollEvent, clientMsgSockets,
    handleClientMsg, hcmd]
  rfl

/-- There are no sockets yet. -/
theorem EndSession.step_first_destroy (calls : Calls) :
    (processEndRelaySession buffer).step (.first calls) =
      some ⟨.returned .success, socketHashmapInit, []⟩ := by
  simp only [EndSession.step, processEndRelaySession, clientMsgSockets, handleClientMsg, hcmd]
  rfl

end Destroy

/-- When the end relay returns, so does the thread. -/
theorem Thread.step_endRelay_success {t : Thread} {s s' : EndSession} {event : EndEvent}
    (hstage : t.stage = .endRelay s) (hstep : s.step event = some s')
    (hsuccess : s'.stage = .returned .success) :
    t.step (.endRelay event) = some t.freeRelaySession := by
  simp only [Thread.step, hstage, hstep, Option.map_some, Thread.endRelay, hsuccess]
  rfl

end OnionRouter.Relay
