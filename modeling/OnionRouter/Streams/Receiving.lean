import OnionRouter.Streams.Resembling

/-!
# What streams receive

Everything that is read from the sockets of the end relay, in its order. It goes to the streams
of the client through one queue, and as long as the client goes on, what is not on its way has
been received (`receives_of_noted`).

* `Step.transit`: what was received and what is on its way grows by what is read, and by
  nothing else.
-/

namespace OnionRouter.Streams

open Lib Net Protocol

/-! ## The two ends -/

section Ends

variable {ι κ β : Type*}

/-- The data of messages, with the connections that it comes from. -/
def dataOf (l : List (ToClient ι κ β)) : List (κ × β) :=
  l.filterMap fun
    | .data _ source payload => some (source, payload)
    | _ => none

/-- What streams have received, and from which connections. -/
def Ends.received (s : Ends ι κ β) : List (κ × β) := s.pushes.map Prod.snd

/-- What streams have received, and what is on its way to them. -/
def Ends.transit (s : Ends ι κ β) : List (κ × β) := s.received ++ dataOf s.toClient

variable {l l' : List (ToClient ι κ β)} {m : ToClient ι κ β}

theorem dataOf_append : dataOf (l ++ l') = dataOf l ++ dataOf l' := List.filterMap_append

theorem transit_append (s : Ends ι κ β) (m : ToClient ι κ β) :
    ({ s with toClient := s.toClient ++ [m] } : Ends ι κ β).transit = s.transit ++ dataOf [m] := by
  show _ ++ dataOf (s.toClient ++ [m]) = _
  rw [dataOf_append, ← List.append_assoc]
  rfl

variable [DecidableEq ι] {s s' : Ends ι κ β} {e : Event ι κ β}

/-- A stream receives only what was the next message. -/
theorem Step.received (h : Step s e s') :
    s'.received = s.received ∨ e = .receive ∧ s'.transit = s.transit := by
  cases h with
  | pushed hqueue =>
    refine .inr ⟨rfl, ?_⟩
    simp [Ends.transit, Ends.received, hqueue, dataOf]
  | _ => exact .inl rfl

/-- As long as the client goes on, nothing is lost, and only data that is read is added. -/
theorem Step.transit (h : Step s e s') (hrunning : s'.running = true) :
    s.running = true ∧
      (s'.transit = s.transit ∧ (∀ id payload, e ≠ .socketData id payload) ∨
        ∃ id name payload, e = .socketData id payload ∧
          s'.toClient = s.toClient ++ [.data id name payload] ∧
          s'.transit = s.transit ++ [(name, payload)]) := by
  cases h with
  | lost => cases hrunning
  | socketData => exact ⟨hrunning, .inr ⟨_, _, _, rfl, rfl, transit_append s _⟩⟩
  | pushed hqueue =>
    exact ⟨hrunning, .inl ⟨by simp [Ends.transit, Ends.received, hqueue, dataOf], nofun⟩⟩
  | dropped hqueue | noted hqueue =>
    exact ⟨hrunning, .inl ⟨by simp [Ends.transit, Ends.received, hqueue, dataOf], nofun⟩⟩
  | opened | refused | unsent | closed | echoed | socketEof =>
    refine ⟨hrunning, .inl ⟨?_, nofun⟩⟩
    exact (transit_append s _).trans (List.append_nil _)
  | _ => exact ⟨hrunning, .inl ⟨rfl, nofun⟩⟩

end Ends

/-! ## The system -/

variable {s s₁ s' : System} {a : Action} {history : List (ℕ × List UInt8)}

/-- What is read from a socket, with the connect command that it was opened for. -/
def reads (s : System) : Action → List (ℕ × List UInt8)
  | .internetEvent id data _ =>
    match socketHashmapFind s.exit id with
    | some (_, socket) => if data = [] then [] else [(socket, data)]
    | none => []
  | _ => []

/-- What was pushed to a stream is what comes of data that was read from its socket: as many
    bytes; and behind one that was not read, as far as they are certain, those that were, but for
    the last one. -/
structure ComesOf (push : Push) (read : ℕ × List UInt8) : Prop where
  stream : push.stream = read.1
  length : push.bytes.length = read.2.length
  bytes : (push.bytes.take certainSize).tail = read.2.dropLast.take (certainSize - 1)

/-- What is pushed to the streams comes of what was read from the sockets that were opened for
    them, in its order, and once. -/
structure Receives (s : System) (history : List (ℕ × List UInt8)) : Prop where
  received : ∃ l, l <+: history ∧ List.Forall₂ ComesOf s.pushes l
  all : s.clientRunning = true → s.toClient = [] → List.Forall₂ ComesOf s.pushes history

/-- What streams have received, by the sockets that it was read from. -/
def System.received (s : System) : List (ℕ × List UInt8) :=
  s.pushes.map fun push => (push.socket, push.read)

/-- What streams have received, and what is on its way to them. -/
def System.transit (s : System) : List (ℕ × List UInt8) :=
  (abs s).transit.map fun data => (data.1, data.2.2)

theorem System.received_eq (s : System) :
    (abs s).received.map (fun data => (data.1, data.2.2)) = s.received := by
  show List.map _ (List.map _ (List.map _ s.pushes)) = _
  rw [List.map_map, List.map_map]
  rfl

/-- What was read is seen of data. -/
theorem System.transit_eq (s : System) :
    (seen s).transit.map (fun data => (data.1, data.2.2.2)) = s.transit := by
  have hdata : dataOf (seen s).toClient =
      (dataOf (abs s).toClient).map fun data => (data.1, view data.2) := by
    show dataOf ((abs s).toClient.map _) = _
    rw [dataOf, dataOf, List.filterMap_map, List.map_filterMap]
    congr 1
    funext m
    cases m <;> rfl
  have hreceived : (seen s).received = (abs s).received.map fun data => (data.1, view data.2) := by
    show List.map _ (List.map _ (abs s).pushes) = _
    rw [Ends.received, List.map_map, List.map_map]
    rfl
  rw [System.transit, Ends.transit, Ends.transit, hdata, hreceived, ← List.map_append, List.map_map]
  rfl

theorem System.received_isPrefix (s : System) : s.received <+: s.transit := by
  rw [← s.received_eq, System.transit, Ends.transit, List.map_append]
  exact List.prefix_append _ _

theorem Takes.reads_eq (h : Takes s a s₁) : reads s₁ a = reads s a := by
  cases a with
  | internetEvent id data buffer => exact congrArg (reads · _) (h : s₁ = s)
  | _ => rfl

theorem Resembles.reads_eq (h : Resembles s s') : reads s' a = reads s a := by
  obtain ⟨l, l', -, -, rfl⟩ := h.queues
  cases a <;> rfl

/-- A message with data carries the number of its packet, and what was read. -/
theorem source_toClientMessage {m : Memory UInt8} {connect source : ℕ} {read : List UInt8}
    {id : UInt16} {payload : List UInt8 × List UInt8}
    (h : toClientMessage m connect read = .data id source payload) :
    source = connect ∧ payload.2 = read := by
  rw [toClientMessage] at h
  split_ifs at h with hrelay hdata hend
  obtain ⟨-, rfl, rfl⟩ := ToClient.data.inj h
  exact ⟨rfl, rfl⟩

/-- Data that is added was read from the socket in the table. -/
theorem reads_of_step {id id' : UInt16} {data : List UInt8} {buffer : Memory UInt8} {source : ℕ}
    {payload : List UInt8 × List UInt8} (hs : s.step (.internetEvent id data buffer) = some s')
    (hne : data ≠ []) (h : (abs s').toClient = (abs s).toClient ++ [.data id' source payload]) :
    reads s (.internetEvent id data buffer) = [(source, payload.2)] := by
  obtain ⟨-, hs⟩ := Option.ite_none_right_eq_some.1 hs
  obtain ⟨found, -, hfind, rfl⟩ := System.exitStep_internetEvent hs
  have hreply : (Relay.handleInternetEvent s.exit buffer id data).reply =
      some ((torSendEndRelayData id data).write buffer) := by
    rw [Relay.handleInternetEvent, if_neg (mt List.length_eq_zero_iff.1 hne)]
  have hnew : (abs (s.exitDoes (Relay.handleInternetEvent s.exit buffer id data) found.2
      data)).toClient = (abs s).toClient ++
        [(Packet.ofBuffer ((torSendEndRelayData id data).write buffer) found.2 data).toClient] := by
    show List.map _ (_ ++ Option.toList (Option.map _ _)) = _
    rw [hreply, List.map_append]
    rfl
  have hlast := List.append_inj_right' (hnew.symm.trans h) rfl
  obtain ⟨rfl, hread⟩ := source_toClientMessage (List.singleton_inj.1 hlast)
  rw [reads, hfind, hread]
  exact if_neg hne

/-- What is in transit grows by what is read. -/
theorem transit_of_step (hwf : WellFormed s) (hs : s.step a = some s')
    (hrunning : s'.clientRunning = true) :
    s.clientRunning = true ∧ s'.transit = s.transit ++ reads s a := by
  have hquiet : ∀ e, Step (abs s) e (abs s') → (∀ id payload, e ≠ .socketData id payload) →
      s.clientRunning = true ∧ s'.transit = s.transit := by
    intro e hstep he
    obtain ⟨hbefore, ⟨htransit, -⟩ | ⟨id, name, payload, heq, -⟩⟩ := hstep.transit hrunning
    · exact ⟨hbefore, congrArg (List.map _) htransit⟩
    · exact absurd heq (he id payload)
  cases a with
  | internetEvent id data buffer =>
    have hstep := (Option.ite_none_right_eq_some.1 hs).2
    obtain ⟨-, e, he, hstep⟩ := simulates_internetEvent hwf id data buffer hstep
    cases he with
    | socketEof =>
      have hreads : reads s (.internetEvent id [] buffer) = [] := by
        rw [reads]
        split <;> rfl
      rw [hreads, List.append_nil]
      exact hquiet _ hstep nofun
    | socketData hne hdata =>
      obtain ⟨hbefore, ⟨-, hother⟩ | ⟨id', name, payload, -, htoClient, htransit⟩⟩ :=
        hstep.transit hrunning
      · exact absurd rfl (hother _ _)
      · rw [reads_of_step hs hne htoClient, System.transit, htransit, List.map_append]
        exact ⟨hbefore, rfl⟩
  | _ =>
    rw [show reads s _ = [] from rfl, List.append_nil]
    rcases (step_simulates hwf hs).2 with heq | ⟨e, he, hstep⟩
    · rw [System.transit, System.transit, heq]
      exact ⟨(congrArg Ends.running heq).symm.trans hrunning, rfl⟩
    · refine hquiet e hstep ?_
      rintro id payload rfl
      cases he

/-- A stream receives only what was in transit, while the client goes on. -/
theorem received_of_step (hwf : WellFormed s) (hs : s.step a = some s') :
    s'.received = s.received ∨
      s.clientRunning = true ∧ reads s a = [] ∧ s'.transit = s.transit := by
  rw [← System.received_eq, ← System.received_eq]
  rcases (step_simulates hwf hs).2 with heq | ⟨e, he, hstep⟩
  · exact .inl (by rw [heq])
  · obtain heq | ⟨rfl, htransit⟩ := hstep.received
    · exact .inl (congrArg (List.map _) heq)
    · cases he with
      | receive =>
        obtain ⟨hrunning, -⟩ := Option.ite_none_right_eq_some.1 hs
        exact .inr ⟨hrunning, rfl, congrArg (List.map _) htransit⟩

/-- What was received, and what is on its way, is what was read. -/
structure Accounted (s : System) (history : List (ℕ × List UInt8)) : Prop where
  received : s.received <+: history
  transit : s.clientRunning = true → s.transit = history

theorem Accounted.step (h : Accounted s history) (hwf : WellFormed s) (htakes : Takes s a s₁)
    (hs : s₁.step a = some s') : Accounted s' (history ++ reads s a) := by
  obtain ⟨hwf₁, hseen, -⟩ := htakes.seen_eq hwf
  have htransit : s₁.transit = s.transit := by
    rw [← s₁.transit_eq, ← s.transit_eq, hseen]
  have hrunning : s₁.clientRunning = s.clientRunning := congrArg Ends.running hseen
  have hreceived : s₁.received = s.received := by
    rw [htakes.eq_queues]
    rfl
  rw [← htakes.reads_eq]
  constructor
  · rcases received_of_step hwf₁ hs with heq | ⟨hbefore, hreads, heq⟩
    · rw [heq, hreceived]
      exact h.received.trans (List.prefix_append _ _)
    · rw [hreads, List.append_nil, ← h.transit (hrunning ▸ hbefore), ← htransit, ← heq]
      exact s'.received_isPrefix
  · intro hafter
    obtain ⟨hbefore, heq⟩ := transit_of_step hwf₁ hs hafter
    rw [heq, htransit, h.transit (hrunning ▸ hbefore)]

/-- In every run, streams have received what comes of a first part of what was read from their own
    sockets, in the order in which it was read; and of all of it when nothing is on its way,
    unless the client has stopped. -/
theorem receives_of_noted (hs : tailMachine.Noted DrawsApart reads s history) :
    Receives s history := by
  have haccounted : Accounted s history := by
    refine hs.invariant (I := Accounted) ?_ ?_
    · rintro _ rfl
      exact ⟨List.nil_prefix, fun _ => rfl⟩
    · rintro s a s' history hs h - ⟨s₁, htakes, hstep⟩
      exact h.step (wellFormed_of_tailMachine hs) htakes hstep
  have hcomes : List.Forall₂ ComesOf s.pushes s.received := by
    rw [System.received, List.forall₂_map_right_iff, List.forall₂_same]
    intro push hpush
    obtain ⟨hsocket, hlength, hbytes⟩ := separated_of_reachable hs.reachable push hpush
    exact ⟨hsocket.symm, hlength, hbytes⟩
  refine ⟨⟨_, haccounted.received, hcomes⟩, fun hrunning hempty => ?_⟩
  have hnone : dataOf (abs s).toClient = [] := by
    show dataOf (s.toClient.map _) = _
    rw [hempty]
    rfl
  rwa [← haccounted.transit hrunning, System.transit, Ends.transit, hnone, List.append_nil,
    System.received_eq]

end OnionRouter.Streams
