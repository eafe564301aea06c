import OnionRouter.Client.Circuit
import OnionRouter.Lib.Transition
import OnionRouter.Relay.Session

/-!
# The parties of a circuit

A client and the relays, with the connections that the client causes: its own to the
first relay, and those that the relays make when they are told to extend the circuit. A
connection is served by a session of the relay that listens on the address, and a session
makes at most one, so that the sessions are numbered in their order, and what session `i`
connects to is session `i + 1`.

Messages wait on their way, in order. A step is a party going on with the message that it
waits for, or a relay taking up a new connection; any of them may be next.

* `numbered_of_reachable`: in every run the sessions are numbered as said.
* `inevitable_client`, `inevitable_last`, `inevitable_next`, `inevitable_accept`: who goes on
  when there are messages in one channel only.
-/

namespace OnionRouter.Circuit

open Client Crypto Directory Net Protocol Relay

/-- The two directions of the connection that session `i` serves. -/
inductive Channel
  | toSession (i : ℕ)
  | fromSession (i : ℕ)
  deriving DecidableEq

/-- The messages that wait in the channels. -/
abbrev Queues := Channel → List (List UInt8)

namespace Queues

/-- The messages `msgs` in one channel, and none in the others. -/
def only (channel : Channel) (msgs : List (List UInt8)) : Queues :=
  fun c => if c = channel then msgs else []

/-- Putting messages into a channel. -/
def send (queues : Queues) (channel : Channel) (msgs : List (List UInt8)) : Queues :=
  fun c => if c = channel then queues c ++ msgs else queues c

/-- Taking the first message out of a channel. -/
def pop (queues : Queues) (channel : Channel) : Queues :=
  fun c => if c = channel then (queues c).tail else queues c

variable (channel : Channel) (msgs : List (List UInt8))

@[simp] theorem only_self : only channel msgs channel = msgs := if_pos rfl

theorem only_of_ne {c : Channel} (h : c ≠ channel) : only channel msgs c = [] := if_neg h

@[simp] theorem send_nil (queues : Queues) : queues.send channel [] = queues := by
  funext c
  simp only [send, List.append_nil, ite_self]

theorem send_self (queues : Queues) : queues.send channel msgs channel = queues channel ++ msgs :=
  if_pos rfl

theorem send_of_ne (queues : Queues) {c : Channel} (h : c ≠ channel) :
    queues.send channel msgs c = queues c := if_neg h

theorem pop_self (queues : Queues) : queues.pop channel channel = (queues channel).tail := if_pos rfl

theorem pop_of_ne (queues : Queues) {c : Channel} (h : c ≠ channel) :
    queues.pop channel c = queues c := if_neg h

@[simp] theorem pop_only (got : List UInt8) :
    (only channel (got :: msgs)).pop channel = only channel msgs := by
  funext c
  by_cases h : c = channel
  · simp [pop, only, h]
  · simp [pop, only, h]

/-- When nothing is left, what is sent next is all there is. -/
@[simp] theorem send_only_nil (old : Channel) :
    (only old []).send channel msgs = only channel msgs := by
  funext c
  by_cases h : c = channel
  · simp [send, only, h]
  · simp [send, only, h]

end Queues

/-- A session, and the relay that it is of. -/
structure Served (ι : Type) where
  relay : ι
  session : RelaySession

/-- The client, the sessions, and the messages between them. -/
structure System (ι : Type) where
  client : ClientSession
  sessions : List (Served ι)
  queues : Queues

/-- The relays: their identity keys, and which of them listens on an address. -/
structure Network (ι : Type) where
  key : ι → IdentityKey
  listen : SockaddrStorage → Option ι

/-- What goes on next. -/
inductive Event
  /-- The client reads a message. -/
  | client (locals : Locals)
  /-- A relay takes up the connection of a session. -/
  | accept (i : ℕ) (locals : Locals)
  /-- A session reads a message from `last_fd`. -/
  | last (i : ℕ) (locals : Locals)
  /-- A session reads a message from `next_fd`. -/
  | next (i : ℕ) (locals : Locals)

section Steps

variable {ι : Type} (gmp : Gmp) (dh : DhGlobals) (net : Network ι)

namespace Network

/-- The session for a new connection to an address. -/
def connection (locals : Locals) (addr : SockaddrStorage) : Option (Served ι) :=
  (net.listen addr).map fun relay => ⟨relay, initRelaySession (net.key relay) locals.buffer⟩

end Network

namespace System

/-- Session `i` does what `reaction` says. -/
def react (s : System ι) (locals : Locals) (i : ℕ) (served : Served ι) (reaction : Reaction) :
    System ι :=
  { s with
    sessions := s.sessions.set i { served with session := reaction.session } ++
      (reaction.connect.bind (net.connection locals)).toList
    queues := (s.queues.send (.fromSession i) reaction.toLast).send (.toSession (i + 1))
      reaction.toNext }

/-- A message is taken out of a channel. -/
def popped (s : System ι) (channel : Channel) : System ι :=
  { s with queues := s.queues.pop channel }

/-- A step. -/
def step (s : System ι) : Event → Option (System ι)
  | .client locals => do
    let got ← (s.queues (.fromSession 0)).head?
    let (client, sent) ← s.client.recv gmp dh locals got
    return { s with
      client := client
      queues := (s.queues.pop (.fromSession 0)).send (.toSession 0) sent }
  | .accept i locals => do
    let served ← s.sessions[i]?
    match served.session.waiting with
    | .accept => some (s.react net locals i served (clientCallback gmp locals served.session))
    | _ => none
  | .last i locals => do
    let got ← (s.queues (.toSession i)).head?
    let served ← s.sessions[i]?
    let reaction ← served.session.fromLast gmp dh locals (fun addr => (net.listen addr).isSome) got
    return (s.popped (.toSession i)).react net locals i served reaction
  | .next i locals => do
    let got ← (s.queues (.fromSession (i + 1))).head?
    let served ← s.sessions[i]?
    let reaction ← served.session.fromNext gmp dh locals got
    return (s.popped (.fromSession (i + 1))).react net locals i served reaction

end System

/-- `run_client` to where it receives in `handle_tls_sender`. -/
def runClient (arrays : DeriveArrays) (locals : Locals) (idKey : IdentityKey)
    (relays : CircuitRelayList) : Option (System ι) := do
  let guard ← relays.relays[0]?
  let served ← net.connection locals (sockaddrToUnix guard.sockAddr)
  let client ← initSession gmp dh arrays idKey relays
  return ⟨client, [served], fun _ => []⟩

/-- The runs of the parties from some states on. -/
def circuitMachine (init : Set (System ι)) : Lib.Machine (System ι) Event :=
  .ofFun init (System.step gmp dh net)

/-! ## The numbers of the sessions -/

section Numbers

variable {gmp dh net} {s s' : System ι}

theorem accept_of_step {i : ℕ} {locals : Locals} {s' : System ι}
    (h : s.step gmp dh net (.accept i locals) = some s') :
    ∃ served, s.sessions[i]? = some served ∧ served.session.waiting = .accept ∧
      s' = s.react net locals i served (clientCallback gmp locals served.session) := by
  simp only [System.step, Option.bind_eq_bind] at h
  obtain ⟨served, hserved, h⟩ := Option.bind_eq_some_iff.1 h
  cases hwaiting : served.session.waiting <;> rw [hwaiting] at h <;>
    first
    | exact ⟨served, hserved, hwaiting, (Option.some.inj h).symm⟩
    | cases h

/-- All sessions but the last are connected to the one after them, and none that has no
    role. -/
def Numbered (s : System ι) : Prop :=
  ∀ i served, s.sessions[i]? = some served →
    (served.session.next.isSome ↔ i + 1 < s.sessions.length) ∧
      (served.session.waiting.NoRole → served.session.next = none)

theorem Numbered.react (h : Numbered s) (locals : Locals) {i : ℕ} {served : Served ι}
    (hserved : s.sessions[i]? = some served) {reaction : Reaction}
    (heffect : Effect (fun addr => (net.listen addr).isSome) served.session reaction) :
    Numbered (s.react net locals i served reaction) := by
  obtain ⟨hi, -⟩ := List.getElem?_eq_some_iff.1 hserved
  obtain ⟨hnext, hnone⟩ := h i served hserved
  intro j other hother
  cases heffect with
  | stay hconnect hsame hrole =>
    have hsessions : (s.react net locals i served reaction).sessions =
        s.sessions.set i { served with session := reaction.session } := by
      simp [System.react, hconnect]
    rw [hsessions] at hother ⊢
    rw [List.length_set]
    by_cases hj : j = i
    · subst hj
      rw [List.getElem?_set_self hi] at hother
      obtain rfl := Option.some.inj hother
      exact ⟨hsame ▸ hnext, fun h => hsame ▸ hnone (hrole h)⟩
    · rw [List.getElem?_set_ne (Ne.symm hj)] at hother
      exact h j other hother
  | connect addr hrole haddr hconnect hconnected hrole' =>
    obtain ⟨relay, hrelay⟩ := Option.isSome_iff_exists.1 haddr
    have hsessions : (s.react net locals i served reaction).sessions =
        s.sessions.set i { served with session := reaction.session } ++
          [⟨relay, initRelaySession (net.key relay) locals.buffer⟩] := by
      simp [System.react, hconnect, Network.connection, hrelay]
    -- A session without a role is the last one.
    have hlast : i + 1 = s.sessions.length := by
      rw [hnone hrole] at hnext
      have hle : ¬ i + 1 < s.sessions.length := fun hlt => absurd (hnext.2 hlt) nofun
      omega
    rw [hsessions] at hother ⊢
    rw [List.length_append, List.length_set, List.length_singleton]
    rcases Nat.lt_trichotomy j i with hlt | rfl | hgt
    · rw [List.getElem?_append_left (by rw [List.length_set]; omega),
        List.getElem?_set_ne (by omega)] at hother
      obtain ⟨hnext', hnone'⟩ := h j other hother
      exact ⟨hnext'.trans (by omega), hnone'⟩
    · rw [List.getElem?_append_left (by rwa [List.length_set]),
        List.getElem?_set_self hi] at hother
      obtain rfl := Option.some.inj hother
      refine ⟨iff_of_true ?_ (by omega), fun h => absurd h hrole'⟩
      rw [hconnected]
      rfl
    · rw [List.getElem?_append_right (by rw [List.length_set]; omega), List.length_set] at hother
      rcases Nat.eq_zero_or_pos (j - s.sessions.length) with hj | hj
      · rw [hj] at hother
        obtain rfl := Option.some.inj hother
        exact ⟨iff_of_false nofun (by omega), fun _ => rfl⟩
      · rw [List.getElem?_eq_none hj] at hother
        cases hother

theorem Numbered.step (h : Numbered s) {e : Event} (hs : s.step gmp dh net e = some s') :
    Numbered s' := by
  cases e with
  | client locals =>
    obtain ⟨got, -, hs⟩ := Option.bind_eq_some_iff.1 hs
    obtain ⟨sent, -, hs⟩ := Option.bind_eq_some_iff.1 hs
    obtain rfl := Option.some.inj hs
    exact h
  | accept i locals =>
    obtain ⟨served, hserved, hwaiting, rfl⟩ := accept_of_step hs
    exact h.react locals hserved (effect_clientCallback hwaiting)
  | last i locals =>
    obtain ⟨got, -, hs⟩ := Option.bind_eq_some_iff.1 hs
    obtain ⟨served, hserved, hs⟩ := Option.bind_eq_some_iff.1 hs
    obtain ⟨reaction, hreaction, hs⟩ := Option.bind_eq_some_iff.1 hs
    obtain rfl := Option.some.inj hs
    exact Numbered.react (s := s.popped _) h locals hserved (effect_fromLast hreaction)
  | next i locals =>
    obtain ⟨got, -, hs⟩ := Option.bind_eq_some_iff.1 hs
    obtain ⟨served, hserved, hs⟩ := Option.bind_eq_some_iff.1 hs
    obtain ⟨reaction, hreaction, hs⟩ := Option.bind_eq_some_iff.1 hs
    obtain rfl := Option.some.inj hs
    exact Numbered.react (s := s.popped _) h locals hserved (effect_fromNext hreaction)

/-- In every run, session `i` is connected to something exactly when there is a session
    `i + 1`, the last one made. -/
theorem numbered_of_reachable {arrays : DeriveArrays} {locals : Locals} {idKey : IdentityKey}
    {relays : CircuitRelayList} {start : System ι}
    (hstart : runClient gmp dh net arrays locals idKey relays = some start)
    (hs : (circuitMachine gmp dh net {start}).Reachable Lib.Machine.anyStep s) : Numbered s := by
  refine hs.invariant (I := Numbered) (fun s₀ hs₀ => ?_) fun s₁ e s₂ h _ hstep => h.step hstep
  obtain rfl := Set.mem_singleton_iff.1 hs₀
  obtain ⟨guard, -, hstart⟩ := Option.bind_eq_some_iff.1 hstart
  obtain ⟨served, hserved, hstart⟩ := Option.bind_eq_some_iff.1 hstart
  obtain ⟨client, -, hstart⟩ := Option.bind_eq_some_iff.1 hstart
  obtain rfl := Option.some.inj hstart
  obtain ⟨relay, -, rfl⟩ := Option.map_eq_some_iff.1 hserved
  intro i other hother
  rcases Nat.eq_zero_or_pos i with rfl | hi
  · obtain rfl := Option.some.inj hother
    exact ⟨iff_of_false nofun (by simp), fun _ => rfl⟩
  · rw [List.getElem?_eq_none hi] at hother
    cases hother

end Numbers

/-! ## One message at a time

When there are messages in a single channel, and no connection to take up, only the party
that reads from it can go on. -/

section Progress

variable {gmp dh net} {init : Set (System ι)} {P : System ι → Prop} {s : System ι}

/-- The channel that a party reads from. -/
def Event.channel : Event → Option Channel
  | client _ => some (.fromSession 0)
  | accept _ _ => none
  | last i _ => some (.toSession i)
  | next i _ => some (.fromSession (i + 1))

/-- No relay has a connection to take up. -/
def NoAccept (sessions : List (Served ι)) : Prop :=
  ∀ served ∈ sessions, served.session.waiting ≠ .accept

theorem queue_ne_nil_of_step {e : Event} {s' : System ι} (h : s.step gmp dh net e = some s')
    {channel : Channel} (he : e.channel = some channel) : s.queues channel ≠ [] := by
  intro hnil
  cases e with
  | client locals =>
    obtain rfl := Option.some.inj he
    simp [System.step, hnil] at h
  | accept i locals => cases he
  | last i locals =>
    obtain rfl := Option.some.inj he
    simp [System.step, hnil] at h
  | next i locals =>
    obtain rfl := Option.some.inj he
    simp [System.step, hnil] at h

/-- What goes on next is the reading of the only message. -/
theorem channel_eq_of_step {channel : Channel} {msgs : List (List UInt8)}
    (hqueues : s.queues = .only channel msgs) (haccept : NoAccept s.sessions) {e : Event}
    {s' : System ι} (h : s.step gmp dh net e = some s') : e.channel = some channel := by
  cases he : e.channel with
  | none =>
    cases e with
    | accept i locals =>
      obtain ⟨served, hserved, hwaiting, -⟩ := accept_of_step h
      exact absurd hwaiting (haccept served (List.mem_of_getElem? hserved))
    | _ => cases he
  | some c =>
    have hne := queue_ne_nil_of_step h he
    rw [hqueues] at hne
    by_contra hc
    exact hne (Queues.only_of_ne _ _ fun heq => hc (congrArg some heq))

variable {got : List UInt8} {rest : List (List UInt8)} {i : ℕ} {served : Served ι}

/-- The client is next. -/
theorem inevitable_client (hqueues : s.queues = .only (.fromSession 0) (got :: rest))
    (haccept : NoAccept s.sessions)
    (h : ∀ locals, ∃ client sent, s.client.recv gmp dh locals got = some (client, sent) ∧
      (circuitMachine gmp dh net init).Inevitable P
        ⟨client, s.sessions, (Queues.only (.fromSession 0) rest).send (.toSession 0) sent⟩) :
    (circuitMachine gmp dh net init).Inevitable P s := by
  have hstep : ∀ locals client sent, s.client.recv gmp dh locals got = some (client, sent) →
      s.step gmp dh net (.client locals) = some
        ⟨client, s.sessions, (Queues.only (.fromSession 0) rest).send (.toSession 0) sent⟩ := by
    intro locals client sent hrecv
    simp [System.step, hqueues, hrecv]
  refine .next ?_ fun e s' hs' => ?_
  · obtain ⟨client, sent, hrecv, -⟩ := h default
    exact ⟨.client default, _, hstep _ _ _ hrecv⟩
  · have hchannel := channel_eq_of_step hqueues haccept hs'
    cases e with
    | client locals =>
      obtain ⟨client, sent, hrecv, hP⟩ := h locals
      obtain rfl := Option.some.inj ((hstep _ _ _ hrecv).symm.trans hs')
      exact hP
    | _ => cases hchannel

/-- Session `i` is next, with a message from the party before it. -/
theorem inevitable_last (hqueues : s.queues = .only (.toSession i) (got :: rest))
    (haccept : NoAccept s.sessions) (hserved : s.sessions[i]? = some served)
    (h : ∀ locals, ∃ reaction, served.session.fromLast gmp dh locals
        (fun addr => (net.listen addr).isSome) got = some reaction ∧
      (circuitMachine gmp dh net init).Inevitable P
        (System.react net ⟨s.client, s.sessions, .only (.toSession i) rest⟩ locals i served
          reaction)) :
    (circuitMachine gmp dh net init).Inevitable P s := by
  have hstep : ∀ locals reaction, served.session.fromLast gmp dh locals
        (fun addr => (net.listen addr).isSome) got = some reaction →
      s.step gmp dh net (.last i locals) = some
        (System.react net ⟨s.client, s.sessions, .only (.toSession i) rest⟩ locals i served
          reaction) := by
    intro locals reaction hreaction
    simp [System.step, System.popped, hqueues, hserved, hreaction]
  refine .next ?_ fun e s' hs' => ?_
  · obtain ⟨reaction, hreaction, -⟩ := h default
    exact ⟨.last i default, _, hstep _ _ hreaction⟩
  · have hchannel := channel_eq_of_step hqueues haccept hs'
    cases e with
    | last j locals =>
      obtain rfl : j = i := Channel.toSession.inj (Option.some.inj hchannel)
      obtain ⟨reaction, hreaction, hP⟩ := h locals
      obtain rfl := Option.some.inj ((hstep _ _ hreaction).symm.trans hs')
      exact hP
    | _ => cases hchannel

/-- Session `i` is next, with a message from the session after it. -/
theorem inevitable_next (hqueues : s.queues = .only (.fromSession (i + 1)) (got :: rest))
    (haccept : NoAccept s.sessions) (hserved : s.sessions[i]? = some served)
    (h : ∀ locals, ∃ reaction, served.session.fromNext gmp dh locals got = some reaction ∧
      (circuitMachine gmp dh net init).Inevitable P
        (System.react net ⟨s.client, s.sessions, .only (.fromSession (i + 1)) rest⟩ locals i served
          reaction)) :
    (circuitMachine gmp dh net init).Inevitable P s := by
  have hstep : ∀ locals reaction, served.session.fromNext gmp dh locals got = some reaction →
      s.step gmp dh net (.next i locals) = some
        (System.react net ⟨s.client, s.sessions, .only (.fromSession (i + 1)) rest⟩ locals i served
          reaction) := by
    intro locals reaction hreaction
    simp [System.step, System.popped, hqueues, hserved, hreaction]
  refine .next ?_ fun e s' hs' => ?_
  · obtain ⟨reaction, hreaction, -⟩ := h default
    exact ⟨.next i default, _, hstep _ _ hreaction⟩
  · have hchannel := channel_eq_of_step hqueues haccept hs'
    cases e with
    | next j locals =>
      obtain rfl : j = i := Nat.succ.inj (Channel.fromSession.inj (Option.some.inj hchannel))
      obtain ⟨reaction, hreaction, hP⟩ := h locals
      obtain rfl := Option.some.inj ((hstep _ _ hreaction).symm.trans hs')
      exact hP
    | client locals => cases hchannel
    | _ => cases hchannel

/-- With no message on its way, the only relay with a connection to take up is next. -/
theorem inevitable_accept (hqueues : ∀ channel, s.queues channel = [])
    (hserved : s.sessions[i]? = some served) (hwaiting : served.session.waiting = .accept)
    (honly : ∀ j served', s.sessions[j]? = some served' → served'.session.waiting = .accept → j = i)
    (h : ∀ locals, (circuitMachine gmp dh net init).Inevitable P
      (s.react net locals i served (clientCallback gmp locals served.session))) :
    (circuitMachine gmp dh net init).Inevitable P s := by
  have hstep : s.step gmp dh net (.accept i default) =
      some (s.react net default i served (clientCallback gmp default served.session)) := by
    simp [System.step, hserved, hwaiting]
  refine .next ⟨.accept i default, _, hstep⟩ fun e s' hs' => ?_
  cases he : e.channel with
  | none =>
    cases e with
    | accept j locals =>
      obtain ⟨served', hserved', hwaiting', rfl⟩ := accept_of_step hs'
      obtain rfl := honly j served' hserved' hwaiting'
      obtain rfl := Option.some.inj (hserved.symm.trans hserved')
      exact h locals
    | _ => cases he
  | some channel => exact absurd (hqueues channel) (queue_ne_nil_of_step hs' he)

end Progress

end Steps

end OnionRouter.Circuit
