import OnionRouter.Streams.Agreement
import OnionRouter.Streams.Payload
import OnionRouter.Streams.Refinement

/-!
# Runs of the two ends

What a run of the client and the end relay promises about streams, and what it takes
for granted of its steps. The properties fail in other runs, as the client draws an
id again while cells of its last stream are on their way, as both ends answer cells
for streams that they do not know, and as data that is one byte off is pushed.

* `isolated_of_reachable`: a stream receives what was read from its own socket.
* `filledIds_of_reachable`: at rest the two ends have streams under the same ids.
* `survives_of_reachable`: the client deals with all cells that it receives.
-/

namespace OnionRouter.Streams

open Lib Memory Net Protocol

/-! ## Cells on their way -/

/-- The `stream_id` of a relay cell. -/
def Packet.streamId (p : Packet) : UInt16 := get16 (p.receive fun _ => 0) streamIdOffset

/-- A relay cell of a stream with a command. -/
def Packet.Is (p : Packet) (cmd : RelayCommand) (id : UInt16) : Prop :=
  IsRelayCell (p.receive fun _ => 0) cmd id

/-- A relay cell of a stream. -/
def Packet.Of (p : Packet) (id : UInt16) : Prop :=
  (p.receive fun _ => 0) cmdOffset = TorCommand.torRelay.code ∧ p.streamId = id

instance (p : Packet) (cmd : RelayCommand) (id : UInt16) : Decidable (p.Is cmd id) :=
  inferInstanceAs (Decidable (IsRelayCell _ _ _))

instance (p : Packet) (id : UInt16) : Decidable (p.Of id) :=
  inferInstanceAs (Decidable (_ ∧ _))

theorem Packet.Is.of {p : Packet} {cmd : RelayCommand} {id : UInt16} (h : p.Is cmd id) :
    p.Of id := ⟨h.relay, h.streamId⟩

section Messages

variable {p : Packet} {id : UInt16}

theorem is_of_toExit_connect {name : ℕ} (h : p.toExit = .connect id name) :
    p.Is .relayBegin id := by
  rw [Packet.toExit, toExitMessage] at h
  split_ifs at h with hrelay hcmd
  cases h
  exact ⟨not_not.1 hrelay, hcmd, rfl⟩

theorem is_of_toExit_data (h : p.toExit = .data id) : p.Is .relayData id := by
  rw [Packet.toExit, toExitMessage] at h
  split_ifs at h with hrelay _ hcmd
  cases h
  exact ⟨not_not.1 hrelay, hcmd, rfl⟩

theorem is_of_toExit_close (h : p.toExit = .close id) : p.Is .relayEnd id := by
  rw [Packet.toExit, toExitMessage] at h
  split_ifs at h with hrelay _ _ hcmd
  cases h
  exact ⟨not_not.1 hrelay, hcmd, rfl⟩

theorem is_of_toClient_data {name : ℕ} {payload : List UInt8 × List UInt8}
    (h : p.toClient = .data id name payload) : p.Is .relayData id := by
  rw [Packet.toClient, toClientMessage] at h
  split_ifs at h with hrelay hcmd
  cases h
  exact ⟨not_not.1 hrelay, hcmd, rfl⟩

theorem is_of_toClient_close (h : p.toClient = .close id) : p.Is .relayEnd id := by
  rw [Packet.toClient, toClientMessage] at h
  split_ifs at h with hrelay _ hcmd
  cases h
  exact ⟨not_not.1 hrelay, hcmd, rfl⟩

end Messages

variable {s s' : System}

/-- The client has no stream under an id that it does not find. -/
theorem client_eq_zero_iff (hwf : WellFormed s) (id : UInt16) :
    (abs s).client id = 0 ↔ socketHashmapFind s.client id = none := by
  rw [find_eq_none_iff hwf.client.sound, abs_client, Multiset.map_eq_zero]

theorem exit_eq_zero_iff (hwf : WellFormed s) (id : UInt16) :
    (abs s).exit id = 0 ↔ socketHashmapFind s.exit id = none :=
  (find_eq_none_iff hwf.exit).symm

/-! ## Isolation -/

/-- A stream id is drawn only when no BEGIN of it is on its way, the relay has no
    socket under it, and no DATA of it is on its way back. What is read from a socket
    consists of the byte that the relay's buffer holds at the data field. -/
def KeepsApart : Machine.Guard System Action
  | s, .connect _ _ _ => ∀ drawn ∈ genStreamId s.client s.counter,
      (∀ p ∈ s.toExit, ¬ p.Is .relayBegin drawn.toUInt16) ∧
        socketHashmapFind s.exit drawn.toUInt16 = none ∧
          ∀ p ∈ s.toClient, ¬ p.Is .relayData drawn.toUInt16
  | _, .internetEvent _ data buffer => ∀ b ∈ data, b = buffer relayDataOffset
  | _, _ => True

instance : ∀ s a, Decidable (KeepsApart s a)
  | _, .connect _ _ _ => Option.decidableForallMem _
  | _, .internetEvent _ _ _ => List.decidableBAll _ _
  | _, .close _ _ | _, .send _ _ _ | _, .recv _ _ | _, .ping _ | _, .exitRecv _ _ _
  | _, .clientRecv _ => .isTrue trivial

/-- What was pushed to a stream was read from the socket that was opened for it. -/
def Isolated (s : System) : Prop :=
  ∀ push ∈ s.pushes, push.socket = push.stream ∧ push.bytes = push.read

theorem freshIds_of_keepsApart {a : Action} {e : Event UInt16 ℕ (List UInt8 × List UInt8)}
    (hwf : WellFormed s) (hguard : KeepsApart s a) (he : Event.Of s a e) :
    Isolation.FreshIds (abs s) e := by
  cases he with
  | connect hdrawn =>
    obtain ⟨hbegin, hexit, hdata⟩ := hguard _ hdrawn
    rintro name (hmem | hmem | ⟨payload, hmem⟩)
    · obtain ⟨p, hp, hmessage⟩ := List.mem_map.1 hmem
      exact hbegin p hp (is_of_toExit_connect hmessage)
    · rw [(exit_eq_zero_iff hwf _).2 hexit] at hmem
      exact Multiset.notMem_zero name hmem
    · obtain ⟨p, hp, hmessage⟩ := List.mem_map.1 hmem
      exact hdata p hp (is_of_toClient_data hmessage)
  | _ => trivial

theorem sends_of_keepsApart {a : Action} {e : Event UInt16 ℕ (List UInt8 × List UInt8)}
    (hguard : KeepsApart s a) (he : Event.Of s a e) :
    Payloads.Sends (fun payload => payload.1 = payload.2) (abs s) e := by
  cases he with
  | socketData hne hdata => exact (cons_dropLast_eq_iff hne).2 hguard
  | _ => trivial

/-- In every run that draws ids and reads data like this, the streams are isolated. -/
theorem isolated_of_reachable (hs : streamMachine.Reachable KeepsApart s) : Isolated s := by
  have hfresh : (endsMachine _ _ _).Reachable Isolation.FreshIds (abs s) :=
    abs_of_reachable (fun _ _ _ => freshIds_of_keepsApart) hs
  have hsends : (endsMachine _ _ _).Reachable (Payloads.Sends fun payload => payload.1 = payload.2)
      (abs s) :=
    abs_of_reachable (fun _ _ _ _ => sends_of_keepsApart) hs
  intro push hpush
  have hmem : (push.stream, push.socket, push.bytes, push.read) ∈ (abs s).pushes :=
    List.mem_map_of_mem hpush
  exact ⟨(Isolation.invariant_of_reachable hfresh).pushes _ hmem,
    (Payloads.invariant_of_reachable hsends).pushes _ hmem⟩

/-- A buffer of zeros. -/
def zeros : Memory UInt8 := fun _ => 0

theorem isolated_oneByte :
    ∃ s, Isolated s ∧ s.pushes.length = 1 := by
  have hrun : (Machine.run (Machine.checked KeepsApart System.step) System.start
      [.connect [] zeros zeros, .exitRecv zeros true true, .internetEvent 0 [0] zeros,
        .clientRecv zeros, .clientRecv zeros]).any (·.pushes.length = 1) = true := by
    decide +kernel
  obtain ⟨s, hs, hpushes⟩ := Machine.exists_of_run (Set.mem_singleton System.start) hrun
  exact ⟨s, isolated_of_reachable hs, of_decide_eq_true hpushes⟩

/-- A stream is closed while a byte is on its way to it, and its id is drawn again: the
    byte is pushed to the new stream. -/
theorem not_isolated_reuse :
    ∃ s, streamMachine.Reachable Machine.anyStep s ∧ ¬ Isolated s := by
  have hrun : (Machine.run (Machine.checked Machine.anyStep System.step) System.start
      [.connect [] zeros zeros, .exitRecv zeros true true, .internetEvent 0 [0] zeros,
        .close 0 zeros, .connect [] zeros zeros, .clientRecv zeros, .clientRecv zeros]).any
      (·.pushes.any fun push => push.socket ≠ push.stream) = true := by
    decide +kernel
  obtain ⟨s, hs, hpush⟩ := Machine.exists_of_run (Set.mem_singleton System.start) hrun
  obtain ⟨push, hmem, hne⟩ := List.any_eq_true.1 hpush
  exact ⟨s, hs, fun hisolated => of_decide_eq_true hne (hisolated push hmem).1⟩

/-! ## Agreement -/

/-- A stream id is drawn only when no cell of it is on its way to the relay, the relay
    has no socket under it, and no END of it is on its way back. Sending to a socket
    does not fail while the client has its stream. -/
def Calm : Machine.Guard System Action
  | s, .connect _ _ _ => ∀ drawn ∈ genStreamId s.client s.counter,
      (∀ p ∈ s.toExit, ¬ p.Of drawn.toUInt16) ∧
        socketHashmapFind s.exit drawn.toUInt16 = none ∧
          ∀ p ∈ s.toClient, ¬ p.Is .relayEnd drawn.toUInt16
  | s, .exitRecv _ _ sent => sent = false → ∀ p ∈ s.toExit.head?,
      p.Is .relayData p.streamId → (socketHashmapFind s.exit p.streamId).isSome →
        (socketHashmapFind s.client p.streamId).isNone
  | _, _ => True

instance : ∀ s a, Decidable (Calm s a)
  | _, .connect _ _ _ => Option.decidableForallMem _
  | _, .exitRecv _ _ _ => inferInstanceAs (Decidable (_ = false → _))
  | _, .close _ _ | _, .send _ _ _ | _, .recv _ _ | _, .ping _ | _, .internetEvent _ _ _
  | _, .clientRecv _ => .isTrue trivial

/-- The ids that are `FILLED` in a table. -/
def filledIds {α : Type*} (map : Table UInt16 α) : Set UInt16 :=
  {id | ∃ i < hashmapAmount, ∃ data, map i = .filled id data}

theorem mem_filledIds {α : Type*} {map : Table UInt16 α} {id : UInt16} :
    id ∈ filledIds map ↔ held map id ≠ 0 := by
  constructor
  · rintro ⟨i, hi, data, hslot⟩ hzero
    have hmem : data ∈ held map id := Table.mem_held.2 ⟨i, hi, hslot⟩
    exact Multiset.notMem_zero data (hzero ▸ hmem)
  · intro hne
    obtain ⟨data, hmem⟩ := Multiset.exists_mem_of_ne_zero hne
    obtain ⟨i, hi, hslot⟩ := Table.mem_held.1 hmem
    exact ⟨i, hi, data, hslot⟩

/-- With no cells on their way, the same ids are `FILLED` in the two tables. -/
def Agrees (s : System) : Prop :=
  s.toExit = [] → s.toClient = [] → filledIds s.client = filledIds s.exit

theorem calm_of_calm {a : Action} {e : Event UInt16 ℕ (List UInt8 × List UInt8)}
    (hwf : WellFormed s) (hguard : Calm s a) (he : Event.Of s a e) :
    Agreement.Calm (abs s) e := by
  cases he with
  | connect hdrawn =>
    obtain ⟨hexit, hsocket, hend⟩ := hguard _ hdrawn
    have hlane : ∀ m ∈ (abs s).toExit, ∃ p ∈ s.toExit, p.toExit = m :=
      fun m hm => List.mem_map.1 hm
    refine ⟨Agreement.lane_eq_nil (fun name hm => ?_) (fun hm => ?_) (fun hm => ?_),
      (exit_eq_zero_iff hwf _).2 hsocket, fun hm => ?_⟩
    · obtain ⟨p, hp, hmessage⟩ := hlane _ hm
      exact hexit p hp (is_of_toExit_connect hmessage).of
    · obtain ⟨p, hp, hmessage⟩ := hlane _ hm
      exact hexit p hp (is_of_toExit_data hmessage).of
    · obtain ⟨p, hp, hmessage⟩ := hlane _ hm
      exact hexit p hp (is_of_toExit_close hmessage).of
    · obtain ⟨p, hp, hmessage⟩ := List.mem_map.1 hm
      exact hend p hp (is_of_toClient_close hmessage)
  | @deliver buffer connected sent succeeds hfails =>
    cases succeeds with
    | true => trivial
    | false =>
      intro id l hhead hheld
      cases sent with
      -- A write that succeeds fails to deliver only where no stream is held.
      | true => exact absurd (hfails rfl rfl id l hhead) hheld
      | false =>
        obtain ⟨p, toExit, hqueue, hmessage, -⟩ := List.map_eq_cons_iff.1 hhead
        have hp := is_of_toExit_data hmessage
        have hfind := hguard rfl p (hqueue ▸ rfl)
        rw [show p.streamId = id from hp.streamId] at hfind
        rw [Ne, exit_eq_zero_iff hwf, ← Ne, Option.ne_none_iff_isSome] at hheld
        rw [client_eq_zero_iff hwf]
        exact Option.isNone_iff_eq_none.1 (hfind hp hheld)
  | _ => trivial

/-- In every run that draws ids like this, and in which sending to the sockets of the
    client's streams does not fail, the tables agree at rest. -/
theorem filledIds_of_reachable (hs : streamMachine.Reachable Calm s) : Agrees s := by
  have hcalm : (endsMachine _ _ _).Reachable Agreement.Calm (abs s) :=
    abs_of_reachable (fun _ _ _ => calm_of_calm) hs
  intro htoExit htoClient
  ext id
  have hiff := Agreement.client_eq_zero_iff hcalm (congrArg (List.map Packet.toExit) htoExit)
    (congrArg (List.map Packet.toClient) htoClient) id
  rw [abs_client, Multiset.map_eq_zero] at hiff
  rw [mem_filledIds, mem_filledIds]
  exact not_congr hiff

theorem filledIds_oneStream :
    ∃ s, Agrees s ∧ s.toExit.isEmpty ∧ s.toClient.isEmpty ∧
      (socketHashmapFind s.client 0).isSome := by
  have hrun : (Machine.run (Machine.checked Calm System.step) System.start
      [.connect [] zeros zeros, .send 0 [5] fun _ => zeros, .exitRecv zeros true true,
        .exitRecv zeros true true, .clientRecv zeros]).any
      (fun s => s.toExit.isEmpty && s.toClient.isEmpty && (socketHashmapFind s.client 0).isSome) =
        true := by
    decide +kernel
  obtain ⟨s, hs, hrest⟩ := Machine.exists_of_run (Set.mem_singleton System.start) hrun
  simp only [Bool.and_eq_true] at hrest
  exact ⟨s, filledIds_of_reachable hs, hrest.1.1, hrest.1.2, hrest.2⟩

/-- A stream is closed and its id drawn again: the END that answers the close takes
    the new stream away from the client, but not its socket from the relay. -/
theorem not_agrees_crossing :
    ∃ s, streamMachine.Reachable Machine.anyStep s ∧ ¬ Agrees s := by
  have hrun : (Machine.run (Machine.checked Machine.anyStep System.step) System.start
      [.connect [] zeros zeros, .exitRecv zeros true true, .clientRecv zeros, .close 0 zeros,
        .connect [] zeros zeros, .exitRecv zeros true true, .exitRecv zeros true true,
        .clientRecv zeros, .clientRecv zeros]).any
      (fun s => s.toExit.isEmpty && s.toClient.isEmpty && (socketHashmapFind s.client 0).isNone &&
        (socketHashmapFind s.exit 0).isSome) = true := by
    decide +kernel
  obtain ⟨s, hs, hrest⟩ := Machine.exists_of_run (Set.mem_singleton System.start) hrun
  simp only [Bool.and_eq_true] at hrest
  obtain ⟨⟨⟨htoExit, htoClient⟩, hclient⟩, hexit⟩ := hrest
  refine ⟨s, hs, fun hagrees => ?_⟩
  have hwf := wellFormed_of_reachable hs
  have hsets := hagrees (List.isEmpty_iff.1 htoExit) (List.isEmpty_iff.1 htoClient)
  have hzero : held s.client 0 = 0 :=
    (find_eq_none_iff hwf.client.sound).1 (Option.isNone_iff_eq_none.1 hclient)
  have hmem : (0 : UInt16) ∈ filledIds s.exit := by
    rw [mem_filledIds, Ne, ← find_eq_none_iff hwf.exit, ← Ne, Option.ne_none_iff_isSome]
    exact hexit
  rw [← hsets, mem_filledIds] at hmem
  exact hmem hzero

/-! ## Survival -/

/-- The data of a DATA cell leaves at most `2 ^ 31` bytes stored in its stream. -/
def HasRoom (map : StreamHashmap) (m : Memory UInt8) : Prop :=
  IsRelayCell m .relayData (get16 m streamIdOffset) →
    ∀ found ∈ socketHashmapFind map (get16 m streamIdOffset),
      found.2.recvBuffer.size + (get16 m lengthOffset).toNat ≤ 2 ^ 31

instance (map : StreamHashmap) (m : Memory UInt8) : Decidable (HasRoom map m) :=
  inferInstanceAs (Decidable (IsRelayCell _ _ _ → _))

/-- A stream is closed only when no DATA of it is on its way to the client. Data is
    read from a socket only when the client has its stream, and no END of it is on its
    way. A DATA cell is received only when there is room for its data. -/
def Timely : Machine.Guard System Action
  | s, .close id _ => ∀ p ∈ s.toClient, ¬ p.Is .relayData id
  | s, .internetEvent id data _ => data ≠ [] →
      (socketHashmapFind s.client id).isSome ∧ ∀ p ∈ s.toClient, ¬ p.Is .relayEnd id
  | s, .clientRecv buffer => ∀ p ∈ s.toClient.head?, HasRoom s.client (p.receive buffer)
  | _, _ => True

instance : ∀ s a, Decidable (Timely s a)
  | _, .close _ _ => inferInstanceAs (Decidable (∀ p ∈ _, _))
  | _, .internetEvent _ _ _ => inferInstanceAs (Decidable (_ ≠ _ → _))
  | _, .clientRecv _ => inferInstanceAs (Decidable (∀ p ∈ List.head? _, _))
  | _, .connect _ _ _ | _, .send _ _ _ | _, .recv _ _ | _, .ping _
  | _, .exitRecv _ _ _ => .isTrue trivial

/-- The event loop of the client runs, and goes on after the next cell, for which there
    is room. -/
def Survives (s : System) : Prop :=
  s.clientRunning = true ∧ ∀ p ∈ s.toClient.head?, ∀ buffer, HasRoom s.client (p.receive buffer) →
    (Client.handleRelayMsg s.client (p.receive buffer)).returned = true ∧
      (Client.handleRelayMsg s.client (p.receive buffer)).map.isSome

/-- The buffers of all streams have the sizes that the operations keep. -/
def SizedStreams (map : StreamHashmap) : Prop :=
  Table.ForAll hashmapAmount (fun data => Client.Sized data.recvBuffer) map

/-- A cell for whose data there is room leaves sized buffers. -/
theorem sizedStreams_handleRelayMsg {map map' : StreamHashmap} (hmap : SizedStreams map)
    {m : Memory UInt8} (hroom : HasRoom map m)
    (h : (Client.handleRelayMsg map m).map = some map') : SizedStreams map' := by
  refine Client.allBuffers_handleRelayMsg hmap (fun found hcell hfind buffer hpush => ?_) h
  have hsize := hroom hcell found hfind
  rw [← length_read m relayDataOffset (get16 m lengthOffset).toNat] at hsize
  obtain ⟨buffer', hpush', hsized⟩ := (allBuffers_of_find hmap hfind).streamPushData hsize
  obtain rfl := Option.some_inj.1 (hpush'.symm.trans hpush)
  exact hsized

theorem sizedStreams_step (hmap : SizedStreams s.client) {a : Action} (hguard : Timely s a) (h : s.step a = some s') : SizedStreams s'.client := by
  cases a with
  | connect addr memory msg =>
    obtain ⟨-, h⟩ := Option.ite_none_right_eq_some.1 h
    obtain ⟨⟨streamId, map, cell⟩, hconnect, h⟩ := Option.bind_eq_some_iff.1 h
    obtain rfl := Option.some_inj.1 h
    exact Client.allBuffers_handleInputConnect hmap (Client.sized_initStreamBuffer memory) hconnect
  | close id msg =>
    obtain ⟨-, h⟩ := Option.ite_none_right_eq_some.1 h
    obtain rfl := Option.some_inj.1 h
    exact allBuffers_remove hmap id
  | send id data msg =>
    obtain ⟨-, h⟩ := Option.ite_none_right_eq_some.1 h
    exact Option.some_inj.1 h ▸ hmap
  | recv id length =>
    obtain ⟨-, h⟩ := Option.ite_none_right_eq_some.1 h
    obtain rfl := Option.some_inj.1 h
    -- A buffer of the client shrinks here, and grows only when a cell is received.
    refine Client.allBuffers_handleInputRecv hmap (fun buffer hbuffer => ?_) id
    exact Client.sized_recvLoop hbuffer length length
  | ping msg =>
    obtain ⟨-, h⟩ := Option.ite_none_right_eq_some.1 h
    exact Option.some_inj.1 h ▸ hmap
  | exitRecv buffer connected sent =>
    obtain ⟨-, h⟩ := Option.ite_none_right_eq_some.1 h
    obtain ⟨p, toExit, -, rfl⟩ := System.exitStep_exitRecv h
    exact hmap
  | internetEvent id data buffer =>
    obtain ⟨-, h⟩ := Option.ite_none_right_eq_some.1 h
    obtain ⟨found, -, -, rfl⟩ := System.exitStep_internetEvent h
    exact hmap
  | clientRecv buffer =>
    obtain ⟨-, h⟩ := Option.ite_none_right_eq_some.1 h
    obtain ⟨p, toClient, map, hhead, hmap', rfl⟩ := System.clientStep_clientRecv h
    exact sizedStreams_handleRelayMsg hmap (hguard p (hhead ▸ rfl)) hmap'

theorem sizedStreams_of_reachable (hs : streamMachine.Reachable Timely s) :
    SizedStreams s.client := by
  refine hs.invariant (I := fun s => SizedStreams s.client) ?_ fun _ _ _ hmap hguard h =>
    sizedStreams_step hmap hguard h
  rintro _ rfl i - key d hslot
  cases hslot

theorem timely_of_timely {a : Action} {e : Event UInt16 ℕ (List UInt8 × List UInt8)}
    (hwf : WellFormed s) (hguard : Timely s a) (he : Event.Of s a e) :
    Survival.Timely (abs s) e := by
  cases he with
  | close =>
    intro source payload hmem
    obtain ⟨p, hp, hmessage⟩ := List.mem_map.1 hmem
    exact hguard p hp (is_of_toClient_data hmessage)
  | socketData hne hdata =>
    obtain ⟨hfind, hend⟩ := hguard hne
    refine ⟨?_, fun hmem => ?_⟩
    · rwa [Ne, client_eq_zero_iff hwf, ← Ne, Option.ne_none_iff_isSome]
    · obtain ⟨p, hp, hmessage⟩ := List.mem_map.1 hmem
      exact hend p hp (is_of_toClient_close hmessage)
  | _ => trivial

/-- In every run that closes streams and reads data like this, no cell ends the
    session of the client. -/
theorem survives_of_reachable (hs : streamMachine.Reachable Timely s) : Survives s := by
  have hends : (endsMachine _ _ _).Reachable Survival.Timely (abs s) :=
    abs_of_reachable (fun _ _ _ => timely_of_timely) hs
  have hinv := Survival.invariant_of_reachable hends
  have hwf := wellFormed_of_reachable hs
  refine ⟨hinv.running, fun p hp buffer hroom => ?_⟩
  have hmem := List.mem_of_mem_head? hp
  have hsame := p.sameCell buffer fun _ => 0
  have hcell := hwf.toClient p hmem
  have hmessage := hcell.toClientMessage_congr p.connect p.read hsame
  generalize p.receive buffer = m at *
  cases hcell.congr hsame with
  | connected id hcell =>
    rw [Client.handleRelayMsg_connected _ hcell]
    exact ⟨rfl, rfl⟩
  | data id hcell =>
    rw [toClientMessage_data _ _ hcell] at hmessage
    -- DATA for an id that is not held would end the session; the invariant of the two
    -- ends excludes it.
    have hknown := hinv.known id _ _ (List.mem_map.2 ⟨p, hmem, hmessage.symm⟩)
    rw [Ne, client_eq_zero_iff hwf, ← Ne, Option.ne_none_iff_exists'] at hknown
    obtain ⟨found, hfind⟩ := hknown
    have hsize := hroom (hcell.streamId.symm ▸ hcell) found (hcell.streamId.symm ▸ hfind)
    rw [← length_read m relayDataOffset (get16 m lengthOffset).toNat] at hsize
    have hsized := allBuffers_of_find (sizedStreams_of_reachable hs) hfind
    obtain ⟨buffer', hpush, -⟩ := hsized.streamPushData hsize
    rw [Client.handleRelayMsg_data _ hcell, hfind]
    refine ⟨rfl, ?_⟩
    simp only [dataSpan, Span.bytes, hpush, Option.map_some, Option.isSome_some]
  | close id hcell =>
    rw [Client.handleRelayMsg_end _ hcell]
    exact ⟨rfl, rfl⟩
  | padding hcmd =>
    rw [Client.handleRelayMsg_padding _ hcmd]
    exact ⟨rfl, rfl⟩

theorem survives_oneByte :
    ∃ s, Survives s ∧ s.toClient.length = 1 := by
  have hrun : (Machine.run (Machine.checked Timely System.step) System.start
      [.connect [] zeros zeros, .exitRecv zeros true true, .clientRecv zeros,
        .internetEvent 0 [1] zeros]).any (·.toClient.length = 1) = true := by
    decide +kernel
  obtain ⟨s, hs, hlength⟩ := Machine.exists_of_run (Set.mem_singleton System.start) hrun
  exact ⟨s, survives_of_reachable hs, of_decide_eq_true hlength⟩

/-- A stream is closed while data is on its way to it. -/
theorem not_survives_late :
    ∃ s, streamMachine.Reachable Machine.anyStep s ∧ ¬ Survives s := by
  have hrun : (Machine.run (Machine.checked Machine.anyStep System.step) System.start
      [.connect [] zeros zeros, .exitRecv zeros true true, .internetEvent 0 [7] zeros,
        .close 0 zeros, .clientRecv zeros, .clientRecv zeros]).any (·.clientRunning = false) =
        true := by
    decide +kernel
  obtain ⟨s, hs, hstopped⟩ := Machine.exists_of_run (Set.mem_singleton System.start) hrun
  refine ⟨s, hs, fun hsurvives => ?_⟩
  cases (of_decide_eq_true hstopped).symm.trans hsurvives.1

end OnionRouter.Streams
