import OnionRouter.Client.Circuit
import OnionRouter.Lib.Fairness
import OnionRouter.Relay.Thread

/-!
# Tearing down a circuit

The relays of a circuit that was built, and the DESTROY of the client. A relay has its
session, for what it makes of the bytes that it reads, and its thread, for its descriptors;
they go on together. What a relay hands to `send` arrives whole at the next one. Meanwhile
there are cells on the way back, and the sockets of the end relay have data or come to their
end, in any order.

* `Falling`: how far the DESTROY has come; every step keeps it.
* `tornDown_of_fair`: in every run that lets the relays read their cells, the circuit is torn
  down.
-/

namespace OnionRouter.Circuit

open Client Crypto Lib Net Protocol Relay Streams

/-! ## The relays -/

/-- A relay of a circuit. -/
structure CircuitRelay where
  session : RelaySession
  thread : Thread
  /-- What the client, or the relay before, handed to `send`. -/
  arrived : List (List UInt8)
  /-- What was read of it, as `recv_tor_buffer` left it. -/
  decoded : List (List UInt8)
  /-- What the last event has made of the session of the end relay. -/
  exit : Option EndSession

/-- A step of a relay. -/
inductive RelayEvent
  /-- It reads a cell from `last_fd`. -/
  | last (locals : Locals) (calls : Calls)
  /-- It reads a cell from `next_fd`. -/
  | next (locals : Locals) (got : List UInt8)
  /-- An event of the end relay that is no message. -/
  | endRelay (event : EndEvent)

namespace CircuitRelay

variable (connects : SockaddrStorage → Bool) (relay : CircuitRelay)

/-- `recv_tor_buffer` from `last_fd`. -/
def recvLast (buffer got : List UInt8) : Option (List UInt8) :=
  Relay.recvTorBuffer (some relay.session.tlsLastKey.symmetricKey)
    (some relay.session.onionKey.symmetricKey) true buffer got

/-- `recv_tor_buffer` from `next_fd`. -/
def recvNext (buffer got : List UInt8) : Option (List UInt8) :=
  Relay.recvTorBuffer (some relay.session.tlsNextKey.symmetricKey)
    (some relay.session.onionKey.symmetricKey) false buffer got

/-- An event of `process_end_relay_session`. -/
def fromEnd (event : EndEvent) : Option CircuitRelay :=
  match relay.thread.stage with
  | .endRelay s => (relay.thread.step (.endRelay event)).map fun thread =>
      { relay with thread, exit := s.step event }
  | _ => none

/-- The relay reads `got` from `last_fd`; also what it hands on. -/
def fromLast (locals : Locals) (calls : Calls) (got : List UInt8) :
    Option (CircuitRelay × List (List UInt8)) :=
  match relay.thread.stage with
  | .role =>
    let cell := relay.recvLast relay.session.buffer got
    (relay.thread.step (.role (cell.map ofCell))).map fun thread =>
      ({ relay with
        session := (processRelaySession relay.session connects got).session
        thread
        decoded := relay.decoded ++ cell.toList }, [])
  | .middle =>
    let cell := relay.recvLast locals.buffer got
    let reaction := handleLastFd locals relay.session got
    (relay.thread.step (.last (cell.map ofCell) true)).map fun thread =>
      ({ relay with
        session := reaction.session
        thread
        decoded := relay.decoded ++ cell.toList }, reaction.toNext)
  | .endRelay _ =>
    -- The replies are built in this buffer as well; a whole cell overwrites them.
    let cell := relay.recvLast relay.session.buffer got
    (relay.fromEnd (cell.elim .failed fun cell => .message (ofCell cell) calls)).map fun relay' =>
      ({ relay' with
        session := { relay.session with buffer := cell.getD relay.session.buffer }
        decoded := relay.decoded ++ cell.toList }, [])
  | _ => none

/-- A step, if the relay waits for the event; what goes back to the client is left out. -/
def step : RelayEvent → Option (CircuitRelay × List (List UInt8))
  | .last locals calls =>
    (relay.arrived[relay.decoded.length]?).bind (relay.fromLast connects locals calls)
  | .next locals got =>
    (relay.thread.step (.next ((relay.recvNext locals.buffer got).map ofCell) true)).map fun thread =>
      ({ relay with session := (handleNextFd locals relay.session got).session, thread }, [])
  | .endRelay (.message _ _) => none
  | .endRelay event => (relay.fromEnd event).map fun relay => (relay, [])

/-- The links deliver whole cells, and everything that the relay sends is accepted. -/
def Delivers : RelayEvent → Prop
  | .last _ _ => True
  | .next _ got => got.length = torMsgSize
  | .endRelay event => ∀ s, relay.thread.stage = .endRelay s → event.Succeeds s

end CircuitRelay

/-- The relay reads a cell of the client, or handles the one that it read first. -/
def RelayEvent.IsHandling : RelayEvent → Prop
  | .last _ _ | .endRelay (.first _) => True
  | _ => False

/-- Cells arrive at the first of the relays. -/
def deliver (cells : List (List UInt8)) : List CircuitRelay → List CircuitRelay
  | [] => []
  | relay :: rest => { relay with arrived := relay.arrived ++ cells } :: rest

/-- Relay `i` takes a step, and what it hands on arrives at the next one. -/
def stepAt (connects : SockaddrStorage → Bool) :
    List CircuitRelay → ℕ × RelayEvent → Option (List CircuitRelay)
  | [], _ => none
  | relay :: rest, (0, event) =>
    (relay.step connects event).map fun r => r.1 :: deliver r.2 rest
  | relay :: rest, (i + 1, event) => (stepAt connects rest (i, event)).map (relay :: ·)

/-- What the client sends by `tor_send_destroy_msg`. -/
def torSendDestroy (client : ClientSession) (buffer : List UInt8) : List UInt8 :=
  Client.sendTorBuffer (some client.tlsKey.symmetricKey) client.layers
    (torSendDestroyMsg.onCell buffer)

/-- The runs of the relays, after the client has sent a DESTROY. -/
def teardownMachine (connects : SockaddrStorage → Bool) (relays : List CircuitRelay)
    (client : ClientSession) (buffer : List UInt8) : Machine (List CircuitRelay) (ℕ × RelayEvent) :=
  .ofFun {deliver [torSendDestroy client buffer] relays} (stepAt connects)

/-- Nothing fails. -/
def Delivers : Machine.Guard (List CircuitRelay) (ℕ × RelayEvent) :=
  fun relays a => ∀ relay ∈ relays[a.1]?, relay.Delivers a.2

/-- The steps that a run must not put off forever. -/
def handling : Set (ℕ × RelayEvent) := {a | a.2.IsHandling}

/-! ## Circuits -/

/-- A relay in the middle, with the keys of its two links, that has read nothing. -/
structure InMiddle (link nextLink : Block) (relay : CircuitRelay) : Prop where
  waiting : relay.session.waiting = .middle
  tlsLastKey : relay.session.tlsLastKey.symmetricKey = link
  tlsNextKey : relay.session.tlsNextKey.symmetricKey = nextLink
  stage : relay.thread.stage = .middle
  thread : ThreadInvariant relay.thread
  decoded : relay.decoded = []

/-- A relay at the end: it has no role yet, or it is in its loop, with any streams. -/
structure AtEnd (link : Block) (relay : CircuitRelay) : Prop where
  tlsLastKey : relay.session.tlsLastKey.symmetricKey = link
  stage : relay.thread.stage = .role ∨
    ∃ s, relay.thread.stage = .endRelay s ∧ s.stage = .loop ∧ Recorded s.map s.sockets
  thread : ThreadInvariant relay.thread
  decoded : relay.decoded = []

/-- A circuit of one or more relays, with the key of the link to the first one and the cells
    that have arrived there. -/
inductive Built : Block → List (List UInt8) → List CircuitRelay → Prop
  | last {link : Block} {arrived : List (List UInt8)} {relay : CircuitRelay}
      (h : AtEnd link relay) (harrived : relay.arrived = arrived) : Built link arrived [relay]
  | cons {link nextLink : Block} {arrived : List (List UInt8)} {relay : CircuitRelay}
      {rest : List CircuitRelay} (h : InMiddle link nextLink relay) (harrived : relay.arrived = arrived)
      (hrest : Built nextLink [] rest) : Built link arrived (relay :: rest)

/-- The relay has read one cell, a DESTROY, and closed its connections. -/
structure Ended (relay : CircuitRelay) : Prop where
  arrived : relay.arrived.length = 1
  decoded : ∃ cell, relay.decoded = [cell] ∧ ofCell cell cmdOffset = TorCommand.torDestroy.code
  returned : relay.thread.stage = .returned
  closed : ClosedOnce relay.thread

/-- The end relay has ended with `relay_success`, and closed its sockets. -/
def ExitClosed (relay : CircuitRelay) : Prop :=
  ∃ s ∈ relay.exit, s.stage = .returned .success ∧ s.sockets.Clean ∧ s.sockets.held = ∅

/-- What is left of a circuit after a DESTROY. What has arrived at a relay is what the one
    before it handed on. -/
structure TornDown (relays : List CircuitRelay) : Prop where
  ended : ∀ relay ∈ relays, Ended relay
  middle : ∀ relay ∈ relays.dropLast, relay.session.waiting = .returned .success
  exit : ∀ relay ∈ relays.getLast?, ExitClosed relay

/-! ## What a relay does -/

section Relays

variable {connects : SockaddrStorage → Bool} {relay relay' : CircuitRelay} {link nextLink : Block}
  {c : List UInt8} (locals : Locals) (calls : Calls)

/-- A cell that is a DESTROY. -/
structure IsDestroyCell (c : List UInt8) : Prop where
  length : c.length = torMsgSize
  cmd : ofCell c cmdOffset = TorCommand.torDestroy.code

/-- The command is outside of the layers. -/
theorem IsDestroyCell.decryptOnion (h : IsDestroyCell c) (key : Block) :
    IsDestroyCell (decryptOnion key c) where
  length := length_decryptOnion key h.length
  cmd := (ofCell_of_take (take_onRange_onion _ h.length) (by decide)).trans h.cmd

theorem IsDestroyCell.wrap (h : IsDestroyCell c) (keys : List Block) :
    IsDestroyCell (wrap encryptOnion keys c) := by
  obtain ⟨hlength, htake⟩ := header_wrap_encryptOnion keys ⟨h.length, rfl⟩
  exact ⟨hlength, (ofCell_of_take htake (by decide)).trans h.cmd⟩

theorem recvLast_of_link (hlink : relay.session.tlsLastKey.symmetricKey = link)
    (buffer : List UInt8) (hc : c.length = torMsgSize) :
    relay.recvLast buffer (encryptLink (some link) c) =
      some (Net.decryptOnion relay.session.onionKey.symmetricKey c) := by
  rw [CircuitRelay.recvLast, hlink]
  exact recvTorBuffer_of_client link _ buffer hc

theorem handleLastFd_destroy (hnext : relay.session.tlsNextKey.symmetricKey = nextLink)
    (hlink : relay.session.tlsLastKey.symmetricKey = link) (hc : IsDestroyCell c) :
    handleLastFd locals relay.session (encryptLink (some link) c) =
      ⟨{ relay.session with waiting := .returned .success }, [], [encryptLink (some nextLink)
        (Net.decryptOnion relay.session.onionKey.symmetricKey c)], none⟩ := by
  have hdestroy := hc.decryptOnion relay.session.onionKey.symmetricKey
  have hkeys : relay.session.keys = ⟨relay.session.onionKey.symmetricKey, link, nextLink⟩ := by
    rw [RelaySession.keys, hlink, hnext]
  have hfd := handleFdCommon_of_client relay.session.keys locals.buffer hc.length
  rw [hkeys] at hfd
  simp only [handleLastFd, hkeys, hfd, hdestroy.cmd, if_true]

/-- The first cell that has arrived is the one that is read. -/
theorem step_last (hdecoded : relay.decoded = []) (harrived : relay.arrived = [encryptLink (some link) c]) :
    relay.step connects (.last locals calls) =
      relay.fromLast connects locals calls (encryptLink (some link) c) := by
  rw [CircuitRelay.step, hdecoded, harrived]
  rfl

/-- A relay that has read a DESTROY, and nothing before, and freed its session. -/
theorem ended_freeRelaySession {got cell : List UInt8} (hthread : ThreadInvariant relay.thread)
    (hrunning : relay.thread.stage ≠ .returned) (hdecoded : relay.decoded = [])
    (harrived : relay.arrived = [got])
    (hcmd : ofCell cell cmdOffset = TorCommand.torDestroy.code) (session : RelaySession)
    (exit : Option EndSession) :
    Ended ⟨session, relay.thread.freeRelaySession, relay.arrived, relay.decoded ++ [cell], exit⟩ where
  arrived := congrArg List.length harrived
  decoded := ⟨cell, congrArg (· ++ [cell]) hdecoded, hcmd⟩
  returned := rfl
  closed := hthread.closedOnce_freeRelaySession hrunning

/-- A relay in the middle hands the DESTROY on and ends. -/
theorem InMiddle.last (h : InMiddle link nextLink relay)
    (harrived : relay.arrived = [encryptLink (some link) c]) (hc : IsDestroyCell c) :
    ∃ relay' c', relay.step connects (.last locals calls) =
        some (relay', [encryptLink (some nextLink) c']) ∧ IsDestroyCell c' ∧ Ended relay' ∧
      relay'.session.waiting = .returned .success := by
  have hdestroy := hc.decryptOnion relay.session.onionKey.symmetricKey
  have hrecv := recvLast_of_link h.tlsLastKey locals.buffer hc.length
  have hthread := Thread.step_middle_destroy hdestroy.cmd h.stage
  have hrunning : relay.thread.stage ≠ .returned := by rw [h.stage]; nofun
  rw [step_last locals calls h.decoded harrived, CircuitRelay.fromLast, h.stage]
  simp only [hrecv, handleLastFd_destroy locals h.tlsNextKey h.tlsLastKey hc, Option.map_some, hthread]
  refine ⟨_, _, rfl, hdestroy, ?_, rfl⟩
  exact ended_freeRelaySession h.thread hrunning h.decoded harrived hdestroy.cmd _ _

/-- A relay without a role takes the DESTROY for its first message. -/
structure AtFirst (relay : CircuitRelay) : Prop where
  arrived : relay.arrived.length = 1
  decoded : ∃ cell, relay.decoded = [cell] ∧ ofCell cell cmdOffset = TorCommand.torDestroy.code ∧
    relay.thread.stage = .endRelay (processEndRelaySession (ofCell cell))
  thread : ThreadInvariant relay.thread

theorem role_last (hlink : relay.session.tlsLastKey.symmetricKey = link)
    (hthread : ThreadInvariant relay.thread) (hdecoded : relay.decoded = [])
    (hrole : relay.thread.stage = .role)
    (harrived : relay.arrived = [encryptLink (some link) c]) (hc : IsDestroyCell c) :
    ∃ relay', relay.step connects (.last locals calls) = some (relay', []) ∧ AtFirst relay' := by
  -- A layer comes off, which the command is outside of.
  have hdestroy := hc.decryptOnion relay.session.onionKey.symmetricKey
  have hrecv := recvLast_of_link hlink relay.session.buffer hc.length
  have hstep := Thread.step_role_destroy hdestroy.cmd hrole
  have hinv := hthread.step (by exact trivial) hstep
  rw [step_last locals calls hdecoded harrived, CircuitRelay.fromLast, hrole]
  simp only [hrecv, Option.map_some, hstep]
  exact ⟨_, rfl, congrArg List.length harrived,
    ⟨_, congrArg (· ++ [_]) hdecoded, hdestroy.cmd, rfl⟩, hinv⟩

theorem loop_last {s : EndSession} (hlink : relay.session.tlsLastKey.symmetricKey = link)
    (hthread : ThreadInvariant relay.thread) (hdecoded : relay.decoded = [])
    (hstage : relay.thread.stage = .endRelay s) (hloop : s.stage = .loop)
    (hrecorded : Recorded s.map s.sockets)
    (harrived : relay.arrived = [encryptLink (some link) c]) (hc : IsDestroyCell c) :
    ∃ relay', relay.step connects (.last locals calls) = some (relay', []) ∧ Ended relay' ∧
      ExitClosed relay' := by
  have hdestroy := hc.decryptOnion relay.session.onionKey.symmetricKey
  have hrecv := recvLast_of_link hlink relay.session.buffer hc.length
  have hexit := EndSession.step_destroy hdestroy.cmd hloop calls
  have hstep := Thread.step_endRelay_success hstage hexit rfl
  have hrunning : relay.thread.stage ≠ .returned := by rw [hstage]; nofun
  rw [step_last locals calls hdecoded harrived, CircuitRelay.fromLast, hstage]
  simp only [hrecv, Option.elim_some, CircuitRelay.fromEnd, hstage, hstep, Option.map_some, hexit]
  refine ⟨_, rfl, ?_, _, rfl, rfl, hrecorded.free⟩
  exact ended_freeRelaySession hthread hrunning hdecoded harrived hdestroy.cmd _ _

theorem AtFirst.first (h : AtFirst relay) :
    ∃ relay', relay.step connects (.endRelay (.first calls)) = some (relay', []) ∧ Ended relay' ∧
      ExitClosed relay' := by
  obtain ⟨cell, hdecoded, hcmd, hstage⟩ := h.decoded
  have hexit := EndSession.step_first_destroy hcmd calls
  have hstep := Thread.step_endRelay_success hstage hexit rfl
  have hclosed := h.thread.closedOnce_freeRelaySession (by rw [hstage]; nofun)
  simp only [CircuitRelay.step, CircuitRelay.fromEnd, hstage, hstep, Option.map_some, hexit]
  exact ⟨_, rfl, ⟨h.arrived, ⟨cell, hdecoded, hcmd⟩, rfl, hclosed⟩, _, rfl, rfl, trivial, rfl⟩

/-- A relay that has returned does nothing. -/
theorem Ended.step_eq_none (h : Ended relay) (event : RelayEvent) :
    relay.step connects event = none := by
  have hfrom : ∀ e, relay.fromEnd e = none := fun e => by rw [CircuitRelay.fromEnd, h.returned]
  cases event with
  | last locals calls =>
    rw [CircuitRelay.step]
    refine Option.bind_eq_none_iff.2 fun got _ => ?_
    rw [CircuitRelay.fromLast, h.returned]
  | next locals got => simp only [CircuitRelay.step, Thread.step, h.returned, Option.map_none]
  | endRelay event => cases event <;> simp only [CircuitRelay.step, hfrom, Option.map_none]

/-- A cell of the right length is received, whatever it is. -/
theorem exists_recvTorBuffer (tlsKey onionKey : Option Block) (fromClient : Bool)
    (buffer : List UInt8) {got : List UInt8} (hgot : got.length = torMsgSize) :
    ∃ cell, Relay.recvTorBuffer tlsKey onionKey fromClient buffer got = some cell :=
  ⟨_, recvMsg_of_length_eq (by decide) _ _ hgot⟩

/-- A cell on the way back changes nothing. -/
theorem InMiddle.next {got : List UInt8} (h : InMiddle link nextLink relay)
    (hgot : got.length = torMsgSize) :
    relay.step connects (.next locals got) = some (relay, []) := by
  obtain ⟨cell, hrecv⟩ := exists_recvTorBuffer (some relay.session.tlsNextKey.symmetricKey)
    (some relay.session.onionKey.symmetricKey) false locals.buffer hgot
  have hnext : relay.recvNext locals.buffer got = some cell := hrecv
  have hsession : (handleNextFd locals relay.session got).session = relay.session := by
    have hfd : ∃ sent, handleFdCommon relay.session.keys false locals.buffer got =
        some (cell, sent) := by
      simp only [handleFdCommon, Bool.false_eq_true, if_false, RelaySession.keys, hrecv]
      exact ⟨_, rfl⟩
    obtain ⟨sent, hfd⟩ := hfd
    simp only [handleNextFd, hfd]
  have hthread : relay.thread.step (.next (some (ofCell cell)) true) = some relay.thread := by
    simp [Thread.step, h.stage, Thread.handleFd]
  simp only [CircuitRelay.step, hnext, Option.map_some, hthread, hsession]

/-- What an event of the loop that is no message leaves of the table. -/
theorem recorded_of_step {s s' : EndSession} {event : EndEvent} (hloop : s.stage = .loop)
    (hrecorded : Recorded s.map s.sockets) (hsucceeds : event.Succeeds s)
    (hmessage : ∀ buffer calls, event ≠ .message buffer calls) (hstep : s.step event = some s') :
    s'.stage = .loop ∧ Recorded s'.map s'.sockets := by
  have hkeeps : KeepsTrack s event := by
    cases event with
    | first calls =>
      intro buffer _ hfirst
      cases hloop.symm.trans hfirst
    | message buffer calls => exact absurd rfl (hmessage buffer calls)
    | interrupted => trivial
    | failed => trivial
    | internet => trivial
  rw [EndSession.step_loop hloop] at hstep
  have hinv := hrecorded.handleEpollEvent hloop hkeeps hstep
  have hstage : s'.stage = .loop := by
    cases event with
    | first => cases hstep
    | message buffer calls => exact absurd rfl (hmessage buffer calls)
    | interrupted => rwa [← Option.some_inj.1 hstep]
    | failed => exact hsucceeds.elim
    | internet buffer streamId data replied =>
      obtain ⟨hfind, rfl⟩ := hsucceeds
      obtain ⟨entry, hentry⟩ := Option.ne_none_iff_exists'.1 hfind
      have hcode : (handleInternetEvent s.map buffer streamId data).code true = none := by
        rw [handleInternetEvent]
        split_ifs <;> simp [Outcome.code, replyEnd]
      simp only [EndSession.handleEpollEvent, hentry, EndSession.handled, hcode] at hstep
      rw [← Option.some_inj.1 hstep]
  cases hinv with
  | first => cases hstage
  | loop h => exact ⟨rfl, h⟩
  | returned => cases hstage

/-- What an event of the end relay does to it. -/
theorem fromEnd_eq_some {s : EndSession} {event : EndEvent} (hstage : relay.thread.stage = .endRelay s)
    (h : relay.fromEnd event = some relay') : ∃ s', s.step event = some s' ∧
      relay' = { relay with thread := relay.thread.endRelay s', exit := some s' } := by
  rw [CircuitRelay.fromEnd, hstage] at h
  obtain ⟨thread, hthread, rfl⟩ := Option.map_eq_some_iff.1 h
  simp only [Thread.step, hstage] at hthread
  obtain ⟨s', hs', rfl⟩ := Option.map_eq_some_iff.1 hthread
  exact ⟨s', hs', by rw [hs']⟩

/-- An event of a socket leaves the relay in its loop. -/
theorem AtEnd.fromEnd {event : EndEvent} (h : AtEnd link relay)
    (hsucceeds : ∀ s, relay.thread.stage = .endRelay s → event.Succeeds s)
    (hmessage : ∀ buffer calls, event ≠ .message buffer calls)
    (hstep : relay.fromEnd event = some relay') :
    (∀ calls, event ≠ .first calls) ∧ AtEnd link relay' ∧ relay'.arrived = relay.arrived := by
  rcases h.stage with hrole | ⟨s, hstage, hloop, hrecorded⟩
  · rw [CircuitRelay.fromEnd, hrole] at hstep
    cases hstep
  · obtain ⟨s', hs', rfl⟩ := fromEnd_eq_some hstage hstep
    obtain ⟨hloop', hrecorded'⟩ := recorded_of_step hloop hrecorded (hsucceeds s hstage) hmessage hs'
    have hthread : relay.thread.endRelay s' = { relay.thread with stage := .endRelay s' } := by
      rw [Thread.endRelay, hloop']
    have hinv : ThreadInvariant (relay.thread.endRelay s') := by
      have hnothing : Succeeds relay.thread (.endRelay event) := hsucceeds
      refine h.thread.step hnothing ?_
      simp only [Thread.step, hstage, hs', Option.map_some]
    refine ⟨?_, ⟨h.tlsLastKey, .inr ⟨s', ?_, hloop', hrecorded'⟩, hinv, h.decoded⟩, rfl⟩
    · rintro calls rfl
      rw [EndSession.step_loop hloop] at hs'
      cases hs'
    · exact congrArg Thread.stage hthread

section Others

variable {event : RelayEvent} {cells : List (List UInt8)} (hdelivers : relay.Delivers event)
  (hstep : relay.step connects event = some (relay', cells))

include hdelivers hstep

/-- A relay in the middle that reads nothing from `last_fd` stays as it is. -/
theorem InMiddle.other (h : InMiddle link nextLink relay)
    (hlast : ∀ locals calls, event ≠ .last locals calls) :
    ¬ event.IsHandling ∧ cells = [] ∧ relay' = relay := by
  cases event with
  | last locals calls => exact absurd rfl (hlast locals calls)
  | next locals got =>
    obtain ⟨rfl, rfl⟩ := Prod.ext_iff.1 (Option.some_inj.1 ((h.next locals hdelivers).symm.trans hstep))
    exact ⟨id, rfl, rfl⟩
  | endRelay event =>
    have hfrom : relay.fromEnd event = none := by rw [CircuitRelay.fromEnd, h.stage]
    cases event <;> simp [CircuitRelay.step, hfrom] at hstep

/-- And the one at the end only turns to its streams. -/
theorem AtEnd.other (h : AtEnd link relay) (hlast : ∀ locals calls, event ≠ .last locals calls) :
    ¬ event.IsHandling ∧ cells = [] ∧ AtEnd link relay' ∧ relay'.arrived = relay.arrived := by
  cases event with
  | last locals calls => exact absurd rfl (hlast locals calls)
  | next locals got =>
    have hnone : ∀ received, relay.thread.step (.next received true) = none := by
      intro received
      rcases h.stage with hrole | ⟨s, hstage, -⟩
      · simp only [Thread.step, hrole]
      · simp only [Thread.step, hstage]
    simp [CircuitRelay.step, hnone] at hstep
  | endRelay event =>
    have hmessage : ∀ buffer calls, event ≠ .message buffer calls := by
      rintro buffer calls rfl
      cases hstep
    obtain ⟨relay'', hfrom, heq⟩ : ∃ relay'', relay.fromEnd event = some relay'' ∧
        (relay'', []) = (relay', cells) := by
      cases event with
      | message buffer calls => exact absurd rfl (hmessage buffer calls)
      | first => exact Option.map_eq_some_iff.1 hstep
      | interrupted => exact Option.map_eq_some_iff.1 hstep
      | failed => exact Option.map_eq_some_iff.1 hstep
      | internet => exact Option.map_eq_some_iff.1 hstep
    obtain ⟨rfl, rfl⟩ := Prod.ext_iff.1 heq
    obtain ⟨hfirst, hend, harrived⟩ := h.fromEnd hdelivers hmessage hfrom
    refine ⟨fun hhandling => ?_, rfl, hend, harrived⟩
    cases event with
    | first calls => exact hfirst calls rfl
    | _ => exact hhandling

end Others

/-- A relay that has read the DESTROY only handles it. -/
theorem AtFirst.eq_first {event : RelayEvent} (h : AtFirst relay)
    (hstep : relay.step connects event ≠ none) : ∃ calls, event = .endRelay (.first calls) := by
  obtain ⟨cell, hdecoded, -, hstage⟩ := h.decoded
  cases event with
  | last locals calls =>
    have hread : relay.arrived[relay.decoded.length]? = none := by
      rw [hdecoded]
      exact List.getElem?_eq_none h.arrived.le
    rw [CircuitRelay.step, hread] at hstep
    exact absurd rfl hstep
  | next locals got => simp [CircuitRelay.step, Thread.step, hstage] at hstep
  | endRelay event =>
    cases event with
    | first calls => exact ⟨calls, rfl⟩
    | _ => simp [CircuitRelay.step, CircuitRelay.fromEnd, Thread.step, hstage, EndSession.step,
        processEndRelaySession] at hstep

end Relays

/-! ## How far the DESTROY has come -/

/-- The DESTROY is somewhere in the circuit, or it has come through. -/
inductive Falling : List CircuitRelay → Prop
  /-- It has arrived at the first of the relays. -/
  | arrived {link : Block} {c : List UInt8} {relays : List CircuitRelay} (hc : IsDestroyCell c)
      (h : Built link [encryptLink (some link) c] relays) : Falling relays
  | first {relay : CircuitRelay} (h : AtFirst relay) : Falling [relay]
  | last {relay : CircuitRelay} (h : Ended relay) (hexit : ExitClosed relay) : Falling [relay]
  | cons {relay : CircuitRelay} {rest : List CircuitRelay} (h : Ended relay)
      (hwaiting : relay.session.waiting = .returned .success) (hrest : Falling rest) :
      Falling (relay :: rest)

/-- How many more steps a relay needs. -/
def CircuitRelay.left (relay : CircuitRelay) : ℕ :=
  match relay.thread.stage with
  | .returned => 0
  | .endRelay s => if s.stage matches .first _ then 1 else 2
  | _ => 2

/-- How many more steps the relays need. -/
def left (relays : List CircuitRelay) : ℕ := (relays.map CircuitRelay.left).sum

section Runs

variable {connects : SockaddrStorage → Bool} {relay : CircuitRelay} {link : Block}
  {relays relays' : List CircuitRelay} {a : ℕ × RelayEvent}

theorem left_cons (relay : CircuitRelay) (rest : List CircuitRelay) :
    left (relay :: rest) = relay.left + left rest := by
  rw [left, List.map_cons, List.sum_cons, ← left]

theorem Ended.left_eq (h : Ended relay) : relay.left = 0 := by
  rw [CircuitRelay.left, h.returned]

theorem AtFirst.left_eq (h : AtFirst relay) : relay.left = 1 := by
  obtain ⟨cell, -, -, hstage⟩ := h.decoded
  rw [CircuitRelay.left, hstage]
  rfl

theorem Built.delivered {cells : List (List UInt8)} (h : Built link [] relays) :
    Built link cells (deliver cells relays) := by
  cases h with
  | last h harrived =>
    refine .last ⟨h.tlsLastKey, h.stage, h.thread, h.decoded⟩ ?_
    rw [harrived, List.nil_append]
  | cons h harrived hrest =>
    refine .cons ⟨h.waiting, h.tlsLastKey, h.tlsNextKey, h.stage, h.thread, h.decoded⟩ ?_ hrest
    rw [harrived, List.nil_append]

theorem left_deliver (cells : List (List UInt8)) (relays : List CircuitRelay) :
    left (deliver cells relays) = left relays := by
  cases relays <;> rfl

theorem Built.left_eq {arrived : List (List UInt8)} (h : Built link arrived relays) :
    left relays = 2 * relays.length := by
  induction h with
  | last h =>
    rw [left_cons, CircuitRelay.left]
    rcases h.stage with hrole | ⟨s, hstage, hloop, -⟩
    · rw [hrole]
      rfl
    · simp only [hstage, hloop]
      rfl
  | cons h _ _ ih =>
    rw [left_cons, CircuitRelay.left, h.stage, ih, List.length_cons]
    exact (Nat.add_comm _ _).trans (Nat.mul_succ _ _).symm

/-- Nothing is lost of the circuit. -/
theorem length_stepAt (h : stepAt connects relays a = some relays') :
    relays'.length = relays.length := by
  obtain ⟨i, event⟩ := a
  induction relays generalizing i relays' with
  | nil => cases h
  | cons relay rest ih =>
    cases i with
    | zero =>
      obtain ⟨r, -, rfl⟩ := Option.map_eq_some_iff.1 h
      cases rest <;> rfl
    | succ i =>
      obtain ⟨rest', hrest', rfl⟩ := Option.map_eq_some_iff.1 h
      rw [List.length_cons, List.length_cons, ih i hrest']

@[simp] theorem deliver_nil (relays : List CircuitRelay) :
    deliver [] relays = relays := by
  cases relays with
  | nil => rfl
  | cons relay rest => rw [deliver, List.append_nil]

/-- Where nothing has arrived, nothing is read. -/
theorem ne_last_of_step {event : RelayEvent} (harrived : relay.arrived = [])
    (hstep : relay.step connects event ≠ none) (locals : Locals) (calls : Calls) :
    event ≠ .last locals calls := by
  rintro rfl
  rw [CircuitRelay.step, harrived] at hstep
  exact hstep rfl

/-- A circuit stays as it is, unless its first relay reads what has arrived. By induction on
    the relays. -/
theorem Built.other {arrived : List (List UInt8)} (h : Built link arrived relays)
    (hdelivers : Delivers relays a) (hstep : stepAt connects relays a = some relays')
    (hlast : a.1 = 0 → arrived ≠ [] → ∀ locals calls, a.2 ≠ .last locals calls) :
    ¬ a.2.IsHandling ∧ Built link arrived relays' := by
  obtain ⟨i, event⟩ := a
  -- The first relay reads nothing, or nothing has arrived.
  have hfirst : ∀ {relay : CircuitRelay} {r}, relay.arrived = arrived → i = 0 →
      relay.step connects event = some r → ∀ locals calls, event ≠ .last locals calls := by
    intro relay r harrived hi hr
    by_cases hnil : arrived = []
    · exact ne_last_of_step (harrived.trans hnil) (hr ▸ Option.some_ne_none r)
    · exact hlast hi hnil
  induction h generalizing i relays' with
  | last h harrived =>
    cases i with
    | succ i => cases hstep
    | zero =>
      obtain ⟨⟨relay', cells⟩, hr, rfl⟩ := Option.map_eq_some_iff.1 hstep
      -- There is no relay after it.
      obtain ⟨hhandling, rfl, hend, hsame⟩ := h.other (hdelivers _ rfl) hr (hfirst harrived rfl hr)
      exact ⟨hhandling, .last hend (hsame.trans harrived)⟩
  | cons h harrived hrest ih =>
    cases i with
    | zero =>
      obtain ⟨⟨relay', cells⟩, hr, rfl⟩ := Option.map_eq_some_iff.1 hstep
      obtain ⟨hhandling, rfl, rfl⟩ := h.other (hdelivers _ rfl) hr (hfirst harrived rfl hr)
      refine ⟨hhandling, .cons h harrived ?_⟩
      rwa [deliver_nil]
    | succ i =>
      obtain ⟨rest', hrest', rfl⟩ := Option.map_eq_some_iff.1 hstep
      obtain ⟨hhandling, hbuilt⟩ := ih i (fun relay hrelay => hdelivers relay hrelay) hrest'
        (fun _ hne => absurd rfl hne) fun hnil _ hr =>
          ne_last_of_step hnil (ne_of_eq_of_ne hr (Option.some_ne_none _))
      exact ⟨hhandling, .cons h harrived hbuilt⟩

/-- The first relay reads the DESTROY. -/
theorem Built.last_step {c : List UInt8} (h : Built link [encryptLink (some link) c] relays)
    (hc : IsDestroyCell c) (locals : Locals) (calls : Calls) :
    ∃ relays', stepAt connects relays (0, .last locals calls) = some relays' ∧ Falling relays' ∧
      left relays' < left relays := by
  have hleft := h.left_eq
  cases h with
  | last h harrived =>
    rcases h.stage with hrole | ⟨s, hstage, hloop, hrecorded⟩
    · obtain ⟨relay', hstep, hfirst⟩ :=
        role_last locals calls h.tlsLastKey h.thread h.decoded hrole harrived hc
      refine ⟨_, congrArg (Option.map _) hstep, .first hfirst, ?_⟩
      rw [hleft, left_cons, hfirst.left_eq, left_deliver]
      exact Nat.one_lt_two
    · obtain ⟨relay', hstep, hended, hexit⟩ :=
        loop_last locals calls h.tlsLastKey h.thread h.decoded hstage hloop hrecorded harrived hc
      refine ⟨_, congrArg (Option.map _) hstep, .last hended hexit, ?_⟩
      rw [hleft, left_cons, hended.left_eq, left_deliver]
      exact Nat.zero_lt_two
  | cons h harrived hrest =>
    obtain ⟨relay', c', hstep, hc', hended, hwaiting⟩ := h.last locals calls harrived hc
    refine ⟨_, congrArg (Option.map _) hstep,
      .cons hended hwaiting (.arrived hc' hrest.delivered), ?_⟩
    rw [hleft, left_cons, hended.left_eq, left_deliver, hrest.left_eq, List.length_cons,
      Nat.zero_add]
    exact Nat.mul_lt_mul_of_pos_left (Nat.lt_succ_self _) Nat.zero_lt_two

/-- Every step keeps it, and what handles the DESTROY brings it on. By induction on the
    relays that it has passed. -/
theorem Falling.step (h : Falling relays) (hdelivers : Delivers relays a)
    (hstep : stepAt connects relays a = some relays') :
    Falling relays' ∧ left relays' ≤ left relays ∧
      (a.2.IsHandling → left relays' < left relays) := by
  obtain ⟨i, event⟩ := a
  induction h generalizing i relays' with
  | arrived hc h =>
    -- The first relay reads it, or something else happens.
    by_cases hlast : i = 0 ∧ ∃ locals calls, event = .last locals calls
    · obtain ⟨rfl, locals, calls, rfl⟩ := hlast
      obtain ⟨relays'', hstep', hfalling, hlt⟩ := h.last_step hc locals calls
      obtain rfl := Option.some_inj.1 (hstep'.symm.trans hstep)
      exact ⟨hfalling, hlt.le, fun _ => hlt⟩
    · obtain ⟨hhandling, hbuilt⟩ := h.other hdelivers hstep fun hi _ locals calls heq =>
        hlast ⟨hi, locals, calls, heq⟩
      refine ⟨.arrived hc hbuilt, ?_, fun h => absurd h hhandling⟩
      rw [hbuilt.left_eq, h.left_eq, length_stepAt hstep]
  | @first relay h =>
    cases i with
    | succ i => cases hstep
    | zero =>
      obtain ⟨r, hr, rfl⟩ := Option.map_eq_some_iff.1 hstep
      obtain ⟨calls, rfl⟩ := h.eq_first (ne_of_eq_of_ne hr (Option.some_ne_none r))
      obtain ⟨relay', hstep', hended, hexit⟩ := h.first calls
      obtain rfl := Option.some_inj.1 (hstep'.symm.trans hr)
      have hlt : left [relay'] < left [relay] := by
        rw [left_cons, hended.left_eq, left_cons, h.left_eq]
        exact Nat.zero_lt_one
      exact ⟨.last hended hexit, hlt.le, fun _ => hlt⟩
  | last h =>
    cases i with
    | succ i => cases hstep
    | zero =>
      obtain ⟨r, hr, -⟩ := Option.map_eq_some_iff.1 hstep
      cases (h.step_eq_none event).symm.trans hr
  | cons h hwaiting hrest ih =>
    -- A relay that has ended takes no step, so it is one of those after it.
    cases i with
    | zero =>
      obtain ⟨r, hr, -⟩ := Option.map_eq_some_iff.1 hstep
      cases (h.step_eq_none event).symm.trans hr
    | succ i =>
      obtain ⟨rest', hrest', rfl⟩ := Option.map_eq_some_iff.1 hstep
      obtain ⟨hfalling, hle, hlt⟩ := ih i (fun relay hrelay => hdelivers relay hrelay) hrest'
      rw [left_cons, left_cons]
      exact ⟨.cons h hwaiting hfalling, Nat.add_le_add_left hle _,
        fun hhandling => Nat.add_lt_add_left (hlt hhandling) _⟩

theorem Ended.isDestroy (h : Ended relay) :
    ∀ cell ∈ relay.decoded, ofCell cell cmdOffset = TorCommand.torDestroy.code := by
  obtain ⟨cell, hdecoded, hcmd⟩ := h.decoded
  rw [hdecoded]
  exact List.forall_mem_singleton.2 hcmd

theorem Built.decoded {arrived : List (List UInt8)} (h : Built link arrived relays) :
    ∀ relay ∈ relays, relay.decoded = [] := by
  induction h with
  | last h => exact List.forall_mem_singleton.2 h.decoded
  | cons h _ _ ih => exact List.forall_mem_cons.2 ⟨h.decoded, ih⟩

/-- What the relays have read is a DESTROY. -/
theorem Falling.isDestroy (h : Falling relays) :
    ∀ relay ∈ relays, ∀ cell ∈ relay.decoded,
      ofCell cell cmdOffset = TorCommand.torDestroy.code := by
  induction h with
  | arrived _ h =>
    intro relay hrelay cell hcell
    rw [h.decoded relay hrelay] at hcell
    cases hcell
  | first h =>
    obtain ⟨cell, hdecoded, hcmd, -⟩ := h.decoded
    refine List.forall_mem_singleton.2 ?_
    rw [hdecoded]
    exact List.forall_mem_singleton.2 hcmd
  | last h => exact List.forall_mem_singleton.2 h.isDestroy
  | cons h _ _ ih => exact List.forall_mem_cons.2 ⟨h.isDestroy, ih⟩

theorem Falling.ne_nil (h : Falling relays) : relays ≠ [] := by
  cases h with
  | arrived _ h => cases h <;> exact List.cons_ne_nil _ _
  | _ => exact List.cons_ne_nil _ _

theorem TornDown.cons (hended : Ended relay) (hwaiting : relay.session.waiting = .returned .success)
    (hne : relays ≠ []) (h : TornDown relays) : TornDown (relay :: relays) where
  ended := List.forall_mem_cons.2 ⟨hended, h.ended⟩
  middle := by
    rw [List.dropLast_cons_of_ne_nil hne]
    exact List.forall_mem_cons.2 ⟨hwaiting, h.middle⟩
  exit := by
    obtain ⟨relay', rest, rfl⟩ := List.exists_cons_of_ne_nil hne
    exact h.exit

/-- As long as the circuit is not torn down, there is a relay that the DESTROY is at. By
    induction on those that it has passed. -/
theorem Falling.enabled (h : Falling relays) : TornDown relays ∨
    ∃ a : ℕ × RelayEvent, a.2.IsHandling ∧ Delivers relays a ∧
      ∃ relays', stepAt connects relays a = some relays' := by
  induction h with
  | arrived hc h =>
    obtain ⟨relays', hstep, -⟩ := h.last_step hc default ⟨fun _ => none, true, true⟩
    exact .inr ⟨(0, .last default ⟨fun _ => none, true, true⟩), trivial, fun _ _ => trivial,
      relays', hstep⟩
  | @first relay h =>
    obtain ⟨relay', hstep, -⟩ := h.first ⟨fun _ => none, true, true⟩
    refine .inr ⟨(0, .endRelay (.first ⟨fun _ => none, true, true⟩)), trivial, ?_, [relay'], ?_⟩
    · exact fun _ _ _ _ => rfl
    · rw [stepAt, hstep]
      rfl
  | last h hexit =>
    refine .inl ⟨List.forall_mem_singleton.2 h, fun _ hmem => absurd hmem List.not_mem_nil, ?_⟩
    rintro _ ⟨⟩
    exact hexit
  | @cons relay rest h hwaiting hrest ih =>
    rcases ih with htorn | ⟨⟨i, event⟩, hhandling, hdelivers, rest', hstep⟩
    · exact .inl (htorn.cons h hwaiting hrest.ne_nil)
    · refine .inr ⟨(i + 1, event), hhandling, hdelivers, relay :: rest', ?_⟩
      rw [stepAt, hstep]
      rfl

/-- Nothing happens any more. -/
theorem TornDown.stepAt_eq_none (h : TornDown relays) : stepAt connects relays a = none := by
  obtain ⟨hended, -, -⟩ := h
  obtain ⟨i, event⟩ := a
  induction relays generalizing i with
  | nil => rfl
  | cons relay rest ih =>
    obtain ⟨hfirst, hrest⟩ := List.forall_mem_cons.1 hended
    cases i with
    | zero => rw [stepAt, hfirst.step_eq_none, Option.map_none]
    | succ i => rw [stepAt, ih hrest, Option.map_none]

/-- The cell that the client sends is a DESTROY, under its layers. -/
theorem exists_torSendDestroy (client : ClientSession) (buffer : List UInt8) :
    ∃ c, IsDestroyCell c ∧
      torSendDestroy client buffer = encryptLink (some client.tlsKey.symmetricKey) c :=
  ⟨_, IsDestroyCell.wrap ⟨Stores.length_onCell _ _, cmd_torSendDestroyMsg buffer⟩ client.layers, rfl⟩

end Runs

/-- A DESTROY of the client tears down the whole circuit, whatever its keys, its streams and
    the rest of the cell are, in every run that does not put off the reading of a cell forever:
    at last every relay has got one cell and closed its connections, those in the middle and
    the one at the end have returned `relay_success`, and the sockets of the streams are closed.
    No relay reads anything but a DESTROY. -/
theorem tornDown_of_fair {connects : SockaddrStorage → Bool} {relays : List CircuitRelay}
    {client : ClientSession} (hbuilt : Built client.tlsKey.symmetricKey [] relays)
    (buffer : List UInt8)
    (run : (teardownMachine connects relays client buffer).Run Delivers)
    (hfair : run.Fair handling) :
    (∀ k, (run.state k).length = relays.length ∧ ∀ relay ∈ run.state k, ∀ cell ∈ relay.decoded,
        ofCell cell cmdOffset = TorCommand.torDestroy.code) ∧
      ∃ k, ∀ j ≥ k, TornDown (run.state j) := by
  obtain ⟨c, hc, hsent⟩ := exists_torSendDestroy client buffer
  have hinv : ∀ s, (teardownMachine connects relays client buffer).Reachable Delivers s →
      s.length = relays.length ∧ Falling s := by
    intro s hs
    refine Machine.Reachable.invariant (I := fun s => s.length = relays.length ∧ Falling s)
      (fun s hs => ?_) (fun s a s' h hdelivers hstep => ?_) hs
    · obtain rfl := Set.mem_singleton_iff.1 hs
      rw [hsent]
      exact ⟨by cases relays <;> rfl, .arrived hc hbuilt.delivered⟩
    · exact ⟨(length_stepAt hstep).trans h.1, (h.2.step hdelivers hstep).1⟩
  refine ⟨fun k => ⟨(hinv _ (run.reachable k)).1, (hinv _ (run.reachable k)).2.isDestroy⟩, ?_⟩
  have hleft : ∀ s a s', (teardownMachine connects relays client buffer).Reachable Delivers s →
      Delivers s a → (teardownMachine connects relays client buffer).step s a s' →
      left s' ≤ left s ∧ (a ∈ handling → left s' < left s) :=
    fun s a s' hs hdelivers hstep => ((hinv s hs).2.step hdelivers hstep).2
  have henabled : ∀ s, (teardownMachine connects relays client buffer).Reachable Delivers s →
      ¬ TornDown s → (teardownMachine connects relays client buffer).Enabled Delivers handling s := by
    intro s hs htorn
    obtain ⟨a, hhandling, hdelivers, hstep⟩ := (hinv s hs).2.enabled.resolve_left htorn
    exact ⟨a, hhandling, hdelivers, hstep⟩
  obtain ⟨k, hk⟩ := Machine.Run.eventually hleft hfair henabled
  refine ⟨k, run.always (fun s a s' htorn _ hstep => ?_) hk⟩
  cases htorn.stepAt_eq_none.symm.trans hstep

/-- A relay with keys of zeros. -/
def exampleRelay (waiting : Relay.Waiting) (thread : Thread) : CircuitRelay where
  session := ⟨waiting, initKey ⟨0, 0⟩, initKey ⟨0, 0⟩, initKey ⟨0, 0⟩, none, []⟩
  thread := thread
  arrived := []
  decoded := []
  exit := none

/-- A client with keys of zeros. -/
def exampleClient : ClientSession where
  waiting := .returned .success
  idKey := ⟨0, 0⟩
  onionKeys := [initKey ⟨0, 0⟩, initKey ⟨0, 0⟩]
  tlsKey := initKey ⟨0, 0⟩
  relays := ⟨[], Nat.zero_le _⟩
  curRelays := 2
  buffer := []

/-- Two relays, with a stream at the second one. -/
theorem tornDown_of_fair_two : ∃ relays : List CircuitRelay, relays.length = 2 ∧
    ∃ run : (teardownMachine (fun _ => true) relays exampleClient []).Run Delivers,
      ∃ k, TornDown (run.state k) := by
  obtain ⟨map, hmap⟩ := Option.ne_none_iff_exists'.1 (insert_socketHashmapInit 5 7)
  have hrecorded : Recorded map [.acquire 7] :=
    recorded_socketHashmapInit.insert (Finset.notMem_empty 7) hmap
  let middle := exampleRelay .middle ⟨.middle, some 3, some 4, [.acquire 4, .acquire 3]⟩
  let atEnd := exampleRelay .endRelay
    ⟨.endRelay ⟨.loop, map, [.acquire 7]⟩, some 3, none, [.acquire 3]⟩
  have hmiddle : InMiddle (initKey ⟨0, 0⟩).symmetricKey (initKey ⟨0, 0⟩).symmetricKey middle :=
    ⟨rfl, rfl, rfl, rfl, .two (.inr rfl) (by decide), rfl⟩
  have hend : AtEnd (initKey ⟨0, 0⟩).symmetricKey atEnd :=
    ⟨rfl, .inr ⟨_, rfl, rfl, hrecorded⟩, .one ⟨nofun, nofun, nofun⟩, rfl⟩
  have hbuilt : Built exampleClient.tlsKey.symmetricKey [] [middle, atEnd] :=
    .cons hmiddle rfl (.last hend rfl)
  obtain ⟨run, -, hfair⟩ := Machine.exists_fair
    (M := teardownMachine (fun _ => true) [middle, atEnd] exampleClient [])
    (Set.mem_singleton _) Delivers handling
  obtain ⟨-, k, hk⟩ := tornDown_of_fair hbuilt [] run hfair
  exact ⟨_, rfl, run, k, hk k le_rfl⟩

end OnionRouter.Circuit
