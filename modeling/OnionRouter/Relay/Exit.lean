import OnionRouter.Lib.Ledger
import OnionRouter.Lib.Transition
import OnionRouter.Relay.End
import OnionRouter.Relay.Session

/-!
# The sockets of the end relay

`process_end_relay_session`: one event after the other, until a handler returns `false`.
The sockets that `connect` returned and those that were given to `close` are in a ledger
beside the session. As a descriptor is given out again after it was closed, `connect` may
return any that is not open.

* `Recorded`: the table has the open sockets, every one once; the handlers keep it.
* `owned_of_reachable`: in a run in which every socket gets into the table, every one is
  closed once.
-/

namespace OnionRouter.Relay

open Lib Protocol Streams

/-! ## The events -/

/-- What the calls in a handler yield. -/
structure Calls where
  connectServer : List UInt8 → Option ℕ
  /-- Whether `send` accepts the data. -/
  sent : Bool
  /-- Whether `send_tor_buffer` does. -/
  replied : Bool

/-- `socket_hashmap_free`. -/
def socketHashmapFree (map : SocketHashmap) (sockets : Ledger ℕ) : Ledger ℕ :=
  sockets.releaseAll (map.contents hashmapAmount)

/-- The sockets after `handle_relay_begin`; `none` when the descriptor is open already, so
    that `connect` does not return it. -/
def relayBeginSockets (buffer : Memory UInt8) (calls : Calls) (sockets : Ledger ℕ) :
    Option (Ledger ℕ) :=
  match calls.connectServer (buffer.read relayDataOffset sockAddrSize) with
  | none => some sockets
  | some sockFd => if sockFd ∈ sockets.held then none else some (.acquire sockFd :: sockets)

/-- The sockets after `handle_relay_end`. -/
def relayEndSockets (map : SocketHashmap) (buffer : Memory UInt8) (calls : Calls)
    (sockets : Ledger ℕ) : Ledger ℕ :=
  match socketHashmapFind map (get16 buffer streamIdOffset) with
  -- The table is freed when the reply fails, and by the caller again.
  | none => if calls.replied then sockets else socketHashmapFree map sockets
  | some (_, sockFd) => .release sockFd :: sockets

/-- The sockets after `handle_client_msg`. -/
def clientMsgSockets (map : SocketHashmap) (buffer : Memory UInt8) (calls : Calls)
    (sockets : Ledger ℕ) : Option (Ledger ℕ) :=
  if buffer cmdOffset ≠ TorCommand.torRelay.code then some sockets
  else if buffer relayCmdOffset = RelayCommand.relayBegin.code then
    relayBeginSockets buffer calls sockets
  else if buffer relayCmdOffset = RelayCommand.relayEnd.code then
    some (relayEndSockets map buffer calls sockets)
  else some sockets

/-- The sockets after `handle_internet_event`, for a socket of the table. -/
def internetEventSockets (sockFd : ℕ) (data : List UInt8) (sockets : Ledger ℕ) : Ledger ℕ :=
  if data.length = 0 then .release sockFd :: sockets else sockets

/-- What a handler returns through `response`, when it returns `false`. -/
def Outcome.code (o : Outcome) (replied : Bool) : Option RelayCode :=
  if o.returned = false then some .success
  else if o.reply.isSome ∧ replied = false then some .error
  else none

/-- Where `process_end_relay_session` is. -/
inductive EndStage
  | first (buffer : Memory UInt8)
  | loop
  | returned (code : RelayCode)

/-- A session of the end relay. -/
structure EndSession where
  stage : EndStage
  map : SocketHashmap
  sockets : Ledger ℕ

/-- An event of the session, with what the calls yield. -/
inductive EndEvent
  /-- The message that gave the relay its role is handled. -/
  | first (calls : Calls)
  /-- `epoll_wait` is interrupted. -/
  | interrupted
  /-- `epoll_wait` or `recv_tor_buffer` fails. -/
  | failed
  | message (buffer : Memory UInt8) (calls : Calls)
  /-- A socket has data, or is at its end. -/
  | internet (buffer : Memory UInt8) (streamId : UInt16) (data : List UInt8) (replied : Bool)

/-- `process_end_relay_session`, up to its first call of a handler. -/
def processEndRelaySession (buffer : Memory UInt8) : EndSession :=
  ⟨.first buffer, socketHashmapInit, []⟩

/-- What follows a handler in the loop. -/
def EndSession.handled (o : Outcome) (replied : Bool) (sockets : Ledger ℕ) : EndSession :=
  match o.code replied with
  | none => ⟨.loop, o.map, sockets⟩
  | some code => ⟨.returned code, o.map, socketHashmapFree o.map sockets⟩

/-- What follows the handler of the first message: the table is not freed. -/
def EndSession.handledFirst (o : Outcome) (replied : Bool) (sockets : Ledger ℕ) : EndSession :=
  match o.code replied with
  | none => ⟨.loop, o.map, sockets⟩
  | some code => ⟨.returned code, o.map, sockets⟩

/-- The end of the session by an error. -/
def EndSession.fail (s : EndSession) : EndSession :=
  ⟨.returned .error, s.map, socketHashmapFree s.map s.sockets⟩

/-- `handle_epoll_event`, if the event is one of the loop. -/
def EndSession.handleEpollEvent (s : EndSession) : EndEvent → Option EndSession
  | .first _ => none
  | .interrupted => some s
  | .failed => some s.fail
  | .message buffer calls => (clientMsgSockets s.map buffer calls s.sockets).map
      (EndSession.handled (handleClientMsg s.map buffer calls.connectServer calls.sent) calls.replied)
  | .internet buffer streamId data replied =>
    match socketHashmapFind s.map streamId with
    | none => some s.fail
    | some (_, sockFd) => some (.handled (handleInternetEvent s.map buffer streamId data) replied
        (internetEventSockets sockFd data s.sockets))

/-- An event, if the session waits for it. -/
def EndSession.step (s : EndSession) (event : EndEvent) : Option EndSession :=
  match s.stage, event with
  | .first buffer, .first calls => (clientMsgSockets s.map buffer calls s.sockets).map
      (EndSession.handledFirst (handleClientMsg s.map buffer calls.connectServer calls.sent)
        calls.replied)
  | .loop, event => s.handleEpollEvent event
  | _, _ => none

theorem EndSession.step_first {s : EndSession} {buffer : Memory UInt8}
    (hfirst : s.stage = .first buffer) (calls : Calls) :
    s.step (.first calls) = (clientMsgSockets s.map buffer calls s.sockets).map
      (EndSession.handledFirst (handleClientMsg s.map buffer calls.connectServer calls.sent)
        calls.replied) := by
  simp only [EndSession.step, hfirst]

theorem EndSession.step_loop {s : EndSession} (hloop : s.stage = .loop) (event : EndEvent) :
    s.step event = s.handleEpollEvent event := by
  simp only [EndSession.step, hloop]

/-- The runs of `process_end_relay_session`. -/
def endMachine : Machine EndSession EndEvent :=
  .ofFun {s | ∃ buffer, s = processEndRelaySession buffer} EndSession.step

/-! ## Who closes the sockets -/

/-- The open sockets are in the table, every one in one slot, and nothing was closed that
    was not open. When the function has returned, they are closed. -/
structure Owned (s : EndSession) : Prop where
  clean : s.sockets.Clean
  recorded : (∀ code, s.stage ≠ .returned code) → ∀ sockFd ∈ s.sockets.held,
    ∃! i, i < hashmapAmount ∧ ∃ streamId, s.map i = .filled streamId sockFd
  closed : ∀ code, s.stage = .returned code → s.sockets.held = ∅

variable (map : SocketHashmap) (buffer : Memory UInt8) (calls : Calls)

/-- A BEGIN opens a socket. -/
def Opens (sockFd : ℕ) : Prop :=
  IsRelayCell buffer .relayBegin (get16 buffer streamIdOffset) ∧
    calls.connectServer (buffer.read relayDataOffset sockAddrSize) = some sockFd

/-- The table does not take the socket of a BEGIN. -/
def Unrecorded : Prop :=
  ∃ sockFd, Opens buffer calls sockFd ∧
    socketHashmapInsert map (get16 buffer streamIdOffset) sockFd = none

/-- An END for no stream cannot be answered, while there are others. -/
def FreedTwice : Prop :=
  IsRelayCell buffer .relayEnd (get16 buffer streamIdOffset) ∧
    socketHashmapFind map (get16 buffer streamIdOffset) = none ∧ calls.replied = false ∧
    map.contents hashmapAmount ≠ []

/-- The three ways to lose track of the sockets are not taken: a BEGIN whose socket does not
    get into the table, a first BEGIN that cannot be answered, and an END that cannot be
    answered. -/
def KeepsTrack : Machine.Guard EndSession EndEvent
  | s, .first calls => ∀ buffer sockFd, s.stage = .first buffer → Opens buffer calls sockFd →
      calls.replied = true
  | s, .message buffer calls => ¬ Unrecorded s.map buffer calls ∧ ¬ FreedTwice s.map buffer calls
  | _, _ => True

/-! ## What the handlers keep -/

/-- The table has the open sockets, every one once. -/
structure Recorded (map : SocketHashmap) (sockets : Ledger ℕ) : Prop where
  clean : sockets.Clean
  nodup : (map.contents hashmapAmount).Nodup
  held : (map.contents hashmapAmount).toFinset = sockets.held

variable {map map' : SocketHashmap} {sockets sockets' : Ledger ℕ} {streamId : UInt16} {sockFd : ℕ}

theorem Recorded.insert (h : Recorded map sockets) (hfresh : sockFd ∉ sockets.held)
    (hinsert : socketHashmapInsert map streamId sockFd = some map') :
    Recorded map' (.acquire sockFd :: sockets) := by
  have hperm := Table.contents_insert hashmapAmount_pos hinsert
  refine ⟨h.clean, hperm.nodup_iff.2 (List.nodup_cons.2 ⟨?_, h.nodup⟩), ?_⟩
  · rwa [← List.mem_toFinset, h.held]
  · rw [List.toFinset_eq_of_perm _ _ hperm, List.toFinset_cons, h.held, Ledger.held_acquire]

theorem Recorded.remove (h : Recorded map sockets) {i : ℕ}
    (hfind : socketHashmapFind map streamId = some (i, sockFd)) :
    Recorded (socketHashmapRemove map streamId) (.release sockFd :: sockets) := by
  have hslot : map.find hashmapAmount home streamId = some (i, sockFd) := hfind
  have herase : map.erase hashmapAmount home streamId =
      some (socketHashmapRemove map streamId) := by
    rw [socketHashmapRemove, Table.erase, hslot]
    rfl
  have hperm := Table.contents_erase hashmapAmount_pos hslot herase
  have hheld := h.held
  rw [List.toFinset_eq_of_perm _ _ hperm, List.toFinset_cons] at hheld
  obtain ⟨hnot, hnodup⟩ := List.nodup_cons.1 (hperm.nodup_iff.1 h.nodup)
  refine ⟨⟨hheld ▸ Finset.mem_insert_self _ _, h.clean⟩, hnodup, ?_⟩
  rw [Ledger.held_release, ← hheld, Finset.erase_insert (mt List.mem_toFinset.1 hnot)]

theorem Recorded.free (h : Recorded map sockets) :
    (socketHashmapFree map sockets).Clean ∧ (socketHashmapFree map sockets).held = ∅ := by
  rw [socketHashmapFree, Ledger.held_releaseAll, Ledger.clean_releaseAll_iff, h.held]
  refine ⟨⟨h.clean, h.nodup, fun sockFd hsock => ?_⟩, Finset.sdiff_self _⟩
  rwa [← h.held, List.mem_toFinset]

theorem contents_socketHashmapInit :
    (socketHashmapInit : SocketHashmap).contents hashmapAmount = [] := by
  rw [Table.contents]
  exact List.filterMap_eq_nil_iff.2 fun _ _ => rfl

theorem recorded_socketHashmapInit : Recorded socketHashmapInit [] := by
  refine ⟨trivial, ?_, ?_⟩
  · rw [contents_socketHashmapInit]
    exact List.nodup_nil
  · rw [contents_socketHashmapInit]
    rfl

/-- What a message does to the table and the sockets. -/
inductive MessageEffect (map : SocketHashmap) (buffer : Memory UInt8) (calls : Calls)
    (sockets : Ledger ℕ) : SocketHashmap → Ledger ℕ → Prop
  | same : MessageEffect map buffer calls sockets map sockets
  | insert {map' : SocketHashmap} {sockFd : ℕ} (hopens : Opens buffer calls sockFd)
      (hfresh : sockFd ∉ sockets.held)
      (hinsert : socketHashmapInsert map (get16 buffer streamIdOffset) sockFd = some map') :
      MessageEffect map buffer calls sockets map' (.acquire sockFd :: sockets)
  | lose {sockFd : ℕ} (hopens : Opens buffer calls sockFd)
      (hinsert : socketHashmapInsert map (get16 buffer streamIdOffset) sockFd = none) :
      MessageEffect map buffer calls sockets map (.acquire sockFd :: sockets)
  | remove {i sockFd : ℕ}
      (hfind : socketHashmapFind map (get16 buffer streamIdOffset) = some (i, sockFd)) :
      MessageEffect map buffer calls sockets
        (socketHashmapRemove map (get16 buffer streamIdOffset)) (.release sockFd :: sockets)
  | free (hend : IsRelayCell buffer .relayEnd (get16 buffer streamIdOffset))
      (hfind : socketHashmapFind map (get16 buffer streamIdOffset) = none)
      (hreplied : calls.replied = false) :
      MessageEffect map buffer calls sockets map (socketHashmapFree map sockets)

section Messages

variable {buffer : Memory UInt8} {calls : Calls}

theorem effect_begin (hbegin : IsRelayCell buffer .relayBegin (get16 buffer streamIdOffset))
    (h : relayBeginSockets buffer calls sockets = some sockets') :
    MessageEffect map buffer calls sockets
      (handleRelayBegin map buffer calls.connectServer).map sockets' := by
  rw [relayBeginSockets] at h
  rw [handleRelayBegin]
  cases hconnect : calls.connectServer (buffer.read relayDataOffset sockAddrSize) with
  | none =>
    simp only [hconnect] at h ⊢
    exact Option.some_inj.1 h ▸ .same
  | some sockFd =>
    simp only [hconnect] at h ⊢
    obtain ⟨hfresh, h⟩ := Option.ite_none_left_eq_some.1 h
    obtain rfl := Option.some_inj.1 h
    cases hinsert : socketHashmapInsert map (get16 buffer streamIdOffset) sockFd with
    | none => exact .lose ⟨hbegin, hconnect⟩ hinsert
    | some map' => exact .insert ⟨hbegin, hconnect⟩ hfresh hinsert

theorem effect_end (hend : IsRelayCell buffer .relayEnd (get16 buffer streamIdOffset)) :
    MessageEffect map buffer calls sockets (handleRelayEnd map buffer).map
      (relayEndSockets map buffer calls sockets) := by
  rw [handleRelayEnd, relayEndSockets]
  cases hfind : socketHashmapFind map (get16 buffer streamIdOffset) with
  | none =>
    cases hreplied : calls.replied with
    | true => exact .same
    | false => exact .free hend hfind hreplied
  | some entry => exact .remove hfind

/-- DATA, and what is no relay cell, leaves the table alone. -/
theorem effect_message (h : clientMsgSockets map buffer calls sockets = some sockets') :
    MessageEffect map buffer calls sockets
      (handleClientMsg map buffer calls.connectServer calls.sent).map sockets' := by
  rw [clientMsgSockets] at h
  split_ifs at h with hrelay hbegin hend
  · -- DESTROY, PADDING, and what is not handled.
    have hmap : (handleClientMsg map buffer calls.connectServer calls.sent).map = map := by
      rw [handleClientMsg]
      split_ifs <;> rfl
    rw [hmap]
    exact Option.some_inj.1 h ▸ .same
  · have hcell : IsRelayCell buffer .relayBegin (get16 buffer streamIdOffset) :=
      ⟨not_not.1 hrelay, hbegin, rfl⟩
    rw [handleClientMsg_begin _ _ _ hcell]
    exact effect_begin hcell h
  · have hcell : IsRelayCell buffer .relayEnd (get16 buffer streamIdOffset) :=
      ⟨not_not.1 hrelay, hend, rfl⟩
    have hhandle : handleClientMsg map buffer calls.connectServer calls.sent =
        handleRelayEnd map buffer := by
      rw [handleClientMsg, not_not.1 hrelay, hend]
      rfl
    rw [hhandle]
    exact Option.some_inj.1 h ▸ effect_end hcell
  · -- DATA, and what is not supported.
    have hmap : (handleClientMsg map buffer calls.connectServer calls.sent).map = map := by
      rw [handleClientMsg, if_neg hbegin, if_neg hend]
      split_ifs
      · rfl
      · rfl
      · rw [handleRelayData]
        split
        · rfl
        · split_ifs <;> rfl
      · rfl
    rw [hmap]
    exact Option.some_inj.1 h ▸ .same

theorem Recorded.message (h : Recorded map sockets) (hunrecorded : ¬ Unrecorded map buffer calls)
    (hfreed : ¬ FreedTwice map buffer calls)
    (hmessage : MessageEffect map buffer calls sockets map' sockets') : Recorded map' sockets' := by
  cases hmessage with
  | same => exact h
  | insert hopens hfresh hinsert => exact h.insert hfresh hinsert
  | lose hopens hinsert => exact absurd ⟨_, hopens, hinsert⟩ hunrecorded
  | remove hfind => exact h.remove hfind
  | free hend hfind hreplied =>
    -- Freeing an empty table twice is harmless.
    have hempty : map.contents hashmapAmount = [] := by
      by_contra hne
      exact hfreed ⟨hend, hfind, hreplied, hne⟩
    rw [socketHashmapFree, hempty]
    exact h

/-! ## The runs -/

/-- There is room in the table for a first socket. -/
theorem insert_socketHashmapInit (streamId : UInt16) (sockFd : ℕ) :
    socketHashmapInsert (socketHashmapInit : SocketHashmap) streamId sockFd ≠ none := by
  intro hnone
  rcases Table.insert_eq_none hashmapAmount_pos hnone with ⟨_, _, _, hslot⟩ | hfull
  · cases hslot
  · exact Bool.false_ne_true (hfull 0 hashmapAmount_pos)

theorem find_socketHashmapInit (streamId : UInt16) :
    socketHashmapFind (socketHashmapInit : SocketHashmap) streamId = none :=
  (find_eq_none_iff sound_socketHashmapInit).2 held_socketHashmapInit

theorem code_begin (hbegin : IsRelayCell buffer .relayBegin (get16 buffer streamIdOffset)) :
    (handleClientMsg map buffer calls.connectServer calls.sent).code true = none := by
  have hreturned : (handleRelayBegin map buffer calls.connectServer).returned = true := by
    rw [handleRelayBegin]
    split
    · rfl
    · split <;> rfl
  rw [handleClientMsg_begin _ _ _ hbegin, Outcome.code, hreturned]
  simp

/-- What the runs keep. -/
inductive EndInvariant : EndSession → Prop
  | first (buffer : Memory UInt8) : EndInvariant (processEndRelaySession buffer)
  | loop {map : SocketHashmap} {sockets : Ledger ℕ} (h : Recorded map sockets) :
      EndInvariant ⟨.loop, map, sockets⟩
  | returned {code : RelayCode} {map : SocketHashmap} {sockets : Ledger ℕ} (hclean : sockets.Clean)
      (hheld : sockets.held = ∅) : EndInvariant ⟨.returned code, map, sockets⟩

theorem endInvariant_handled {o : Outcome} (h : Recorded o.map sockets) (replied : Bool) :
    EndInvariant (.handled o replied sockets) := by
  obtain ⟨hclean, hheld⟩ := h.free
  rw [EndSession.handled]
  split
  · exact .loop h
  · exact .returned hclean hheld

theorem endInvariant_handledFirst
    (h : clientMsgSockets socketHashmapInit buffer calls [] = some sockets')
    (hreplied : ∀ sockFd, Opens buffer calls sockFd → calls.replied = true) :
    EndInvariant (.handledFirst
      (handleClientMsg socketHashmapInit buffer calls.connectServer calls.sent) calls.replied
      sockets') := by
  have heffect := effect_message h
  rw [EndSession.handledFirst]
  split
  · refine .loop (recorded_socketHashmapInit.message ?_ ?_ heffect)
    · rintro ⟨sockFd, -, hinsert⟩
      exact insert_socketHashmapInit _ _ hinsert
    · rintro ⟨-, -, -, hcontents⟩
      exact hcontents contents_socketHashmapInit
  next code hcode =>
    have hopens : ∀ sockFd, ¬ Opens buffer calls sockFd := by
      intro sockFd hopens
      rw [hreplied sockFd hopens, code_begin hopens.1] at hcode
      cases hcode
    -- Without a socket there is nothing to close.
    have hsockets : sockets' = [] := by
      generalize (handleClientMsg _ buffer _ _).map = map' at heffect
      rcases heffect with _ | hopens' | hopens' | hfind | _
      · rfl
      · exact absurd hopens' (hopens _)
      · exact absurd hopens' (hopens _)
      · cases (find_socketHashmapInit _).symm.trans hfind
      · rw [socketHashmapFree, contents_socketHashmapInit]
        rfl
    rw [hsockets]
    exact .returned trivial rfl

end Messages

theorem Recorded.handleEpollEvent {s s' : EndSession} {event : EndEvent}
    (h : Recorded s.map s.sockets) (hloop : s.stage = .loop) (hkeeps : KeepsTrack s event)
    (hstep : s.handleEpollEvent event = some s') : EndInvariant s' := by
  obtain ⟨hclean, hheld⟩ := h.free
  have hfail : EndInvariant s.fail := .returned hclean hheld
  cases event with
  | first calls => cases hstep
  | interrupted =>
    obtain rfl := Option.some_inj.1 hstep
    obtain ⟨stage, map, sockets⟩ := s
    obtain rfl : stage = .loop := hloop
    exact .loop h
  | failed =>
    exact Option.some_inj.1 hstep ▸ hfail
  | message buffer calls =>
    obtain ⟨sockets, hsockets, rfl⟩ := Option.map_eq_some_iff.1 hstep
    exact endInvariant_handled (h.message hkeeps.1 hkeeps.2 (effect_message hsockets)) _
  | internet buffer streamId data replied =>
    rw [EndSession.handleEpollEvent] at hstep
    cases hfind : socketHashmapFind s.map streamId with
    | none =>
      simp only [hfind] at hstep
      exact Option.some_inj.1 hstep ▸ hfail
    | some entry =>
      simp only [hfind] at hstep
      obtain rfl := Option.some_inj.1 hstep
      refine endInvariant_handled ?_ _
      rw [handleInternetEvent, internetEventSockets]
      -- Only a read of no bytes removes the stream.
      split_ifs
      · exact h.remove hfind
      · exact h

theorem EndInvariant.step {s s' : EndSession} {event : EndEvent} (h : EndInvariant s)
    (hkeeps : KeepsTrack s event) (hstep : s.step event = some s') : EndInvariant s' := by
  cases h with
  | first buffer =>
    cases event with
    | first calls =>
      obtain ⟨sockets, hsockets, rfl⟩ := Option.map_eq_some_iff.1 hstep
      exact endInvariant_handledFirst hsockets (hkeeps buffer · rfl)
    | interrupted => cases hstep
    | failed => cases hstep
    | message => cases hstep
    | internet => cases hstep
  | loop h => exact Recorded.handleEpollEvent (s := ⟨.loop, _, _⟩) h rfl hkeeps hstep
  | returned => cases hstep

theorem EndInvariant.owned {s : EndSession} (h : EndInvariant s) : Owned s := by
  cases h with
  | first buffer =>
    exact ⟨trivial, fun _ sockFd hheld => absurd hheld (Finset.notMem_empty sockFd),
      fun code hcode => by cases hcode⟩
  | loop h =>
    refine ⟨h.clean, fun _ sockFd hheld => ?_, fun code hcode => by cases hcode⟩
    rw [← h.held, List.mem_toFinset, Table.mem_contents] at hheld
    obtain ⟨i, hi, streamId, hslot⟩ := hheld
    refine ⟨i, ⟨hi, streamId, hslot⟩, ?_⟩
    rintro j ⟨hj, streamId', hslot'⟩
    exact Table.slot_inj h.nodup hj hi hslot' hslot
  | returned hclean hheld =>
    exact ⟨hclean, fun hrunning => absurd rfl (hrunning _), fun _ _ => hheld⟩

/-- In a run that keeps track of the sockets, every one is in the table until it is closed,
    and all are closed in the end. -/
theorem owned_of_reachable {s : EndSession} (hs : endMachine.Reachable KeepsTrack s) : Owned s := by
  have hinv : EndInvariant s := by
    refine hs.invariant ?_ ?_
    · rintro _ ⟨buffer, rfl⟩
      exact .first buffer
    · intro s event s' hinv hkeeps hstep
      exact hinv.step hkeeps hstep
  exact hinv.owned

/-- A BEGIN for stream 5. -/
def exampleBegin : Memory UInt8 := (torSendBeginMsg 5 (List.replicate 20 0)).write fun _ => 0

/-- A socket is opened and comes to its end. -/
theorem owned_of_reachable_one :
    ∃ s : EndSession, Owned s ∧ s.sockets = [.release 7, .acquire 7] := by
  have hrun : (((processEndRelaySession exampleBegin).step
      (.first ⟨fun _ => some 7, true, true⟩)).bind fun s =>
        s.step (.internet exampleBegin 5 [] true)).any
      (fun s => s.sockets = [.release 7, .acquire 7]) = true := by
    decide +kernel
  obtain ⟨s', hs', hsockets⟩ := (Option.any_eq_true _ _).1 hrun
  obtain ⟨s, hs, hs'⟩ := Option.bind_eq_some_iff.1 hs'
  have hreplied : KeepsTrack (processEndRelaySession exampleBegin)
      (.first ⟨fun _ => some 7, true, true⟩) := fun _ _ _ _ => rfl
  have hinternet : KeepsTrack s (.internet exampleBegin 5 [] true) := trivial
  exact ⟨s', owned_of_reachable (.step (.step (.init ⟨exampleBegin, rfl⟩) hreplied hs) hinternet hs'),
    of_decide_eq_true hsockets⟩

/-- The first message connects, and cannot be answered. -/
theorem not_owned_of_reachable :
    ∃ s : EndSession, endMachine.Reachable Machine.anyStep s ∧ ¬ Owned s := by
  have hrun : ((processEndRelaySession exampleBegin).step
      (.first ⟨fun _ => some 7, true, false⟩)).any
      (fun s => s.stage matches .returned _ && s.sockets = [.acquire 7]) = true := by
    decide +kernel
  obtain ⟨s, hs, hend⟩ := (Option.any_eq_true _ _).1 hrun
  refine ⟨s, .step (.init ⟨exampleBegin, rfl⟩) trivial hs, fun howned => ?_⟩
  obtain ⟨hreturned, hsockets⟩ := Bool.and_eq_true_iff.1 hend
  cases hstage : s.stage with
  | first => simp [hstage] at hreturned
  | loop => simp [hstage] at hreturned
  | returned code =>
    have hclosed := howned.closed code hstage
    rw [of_decide_eq_true hsockets] at hclosed
    exact absurd hclosed (Finset.insert_ne_empty _ _)

end OnionRouter.Relay
