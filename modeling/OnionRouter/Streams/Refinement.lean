import OnionRouter.Streams.Protocol
import OnionRouter.Streams.System

/-!
# Cells as messages

The system of the client and the end relay is the machine of two ends
(`Streams.Protocol`): its tables are what the ends have under every id, and a cell
is the message that its header says (`abs`). Every step of the system is a step of
the two ends, or none (`step_simulates`), and which one is fixed by the action
(`Event.Of`), so that a guard on the actions of the system can be one on the events.

What is needed of the cells on their way is that they come from the senders
(`ClientCell`, `ExitCell`).
-/

namespace OnionRouter.Streams

open Lib Memory Net Protocol

/-! ## The meaning of a cell -/

/-- The message that a cell to the exit is. -/
def toExitMessage (m : Memory UInt8) (connect : ℕ) : ToExit UInt16 ℕ :=
  if m cmdOffset ≠ TorCommand.torRelay.code then .other
  else if m relayCmdOffset = RelayCommand.relayBegin.code then
    .connect (get16 m streamIdOffset) connect
  else if m relayCmdOffset = RelayCommand.relayData.code then .data (get16 m streamIdOffset)
  else if m relayCmdOffset = RelayCommand.relayEnd.code then .close (get16 m streamIdOffset)
  else .other

/-- The message that a cell to the client is: data with its bytes, and with those
    that were read from the socket. -/
def toClientMessage (m : Memory UInt8) (connect : ℕ) (read : List UInt8) :
    ToClient UInt16 ℕ (List UInt8 × List UInt8) :=
  if m cmdOffset ≠ TorCommand.torRelay.code then .other
  else if m relayCmdOffset = RelayCommand.relayData.code then
    .data (get16 m streamIdOffset) connect ((dataSpan m).bytes m, read)
  else if m relayCmdOffset = RelayCommand.relayEnd.code then .close (get16 m streamIdOffset)
  else .other

/-- The cells that the client sends. -/
inductive ClientCell (m : Memory UInt8) : Prop
  | connect (id : UInt16) : IsRelayCell m .relayBegin id → ClientCell m
  | data (id : UInt16) : IsRelayCell m .relayData id → ClientCell m
  | close (id : UInt16) : IsRelayCell m .relayEnd id → ClientCell m
  | padding : m cmdOffset = TorCommand.torPadding.code → ClientCell m

/-- The cells that the relay sends. -/
inductive ExitCell (m : Memory UInt8) : Prop
  | connected (id : UInt16) : IsRelayCell m .relayConnected id → ExitCell m
  | data (id : UInt16) : IsRelayCell m .relayData id →
      (get16 m lengthOffset).toNat ≤ relayDataMsgSize → ExitCell m
  | close (id : UInt16) : IsRelayCell m .relayEnd id → ExitCell m
  | padding : m cmdOffset = TorCommand.torPadding.code → ExitCell m

section Messages

variable {m m' : Memory UInt8} {id : UInt16} (connect : ℕ) (read : List UInt8)

theorem toExitMessage_begin (h : IsRelayCell m .relayBegin id) :
    toExitMessage m connect = .connect id connect := by
  rw [toExitMessage, h.relay, h.cmd, h.streamId]
  rfl

theorem toExitMessage_data (h : IsRelayCell m .relayData id) :
    toExitMessage m connect = .data id := by
  rw [toExitMessage, h.relay, h.cmd, h.streamId]
  rfl

theorem toExitMessage_end (h : IsRelayCell m .relayEnd id) :
    toExitMessage m connect = .close id := by
  rw [toExitMessage, h.relay, h.cmd, h.streamId]
  rfl

theorem toExitMessage_padding (h : m cmdOffset = TorCommand.torPadding.code) :
    toExitMessage m connect = .other := by
  rw [toExitMessage, h]
  rfl

theorem toClientMessage_data (h : IsRelayCell m .relayData id) :
    toClientMessage m connect read = .data id connect ((dataSpan m).bytes m, read) := by
  rw [toClientMessage, h.relay, h.cmd, h.streamId]
  rfl

theorem toClientMessage_end (h : IsRelayCell m .relayEnd id) :
    toClientMessage m connect read = .close id := by
  rw [toClientMessage, h.relay, h.cmd, h.streamId]
  rfl

theorem toClientMessage_connected (h : IsRelayCell m .relayConnected id) :
    toClientMessage m connect read = .other := by
  rw [toClientMessage, h.relay, h.cmd, h.streamId]
  rfl

theorem toClientMessage_padding (h : m cmdOffset = TorCommand.torPadding.code) :
    toClientMessage m connect read = .other := by
  rw [toClientMessage, h]
  rfl

/-- The kind of a cell is the same in all buffers that hold it. -/
theorem ClientCell.congr (h : ClientCell m) (hsame : SameCell m' m) : ClientCell m' := by
  cases h with
  | connect id h => exact .connect id (hsame.isRelayCell h)
  | data id h => exact .data id (hsame.isRelayCell h)
  | close id h => exact .close id (hsame.isRelayCell h)
  | padding h => exact .padding ((hsame _ (by decide)).trans h)

theorem ExitCell.congr (h : ExitCell m) (hsame : SameCell m' m) : ExitCell m' := by
  cases h with
  | connected id h => exact .connected id (hsame.isRelayCell h)
  | data id h hlength =>
    refine .data id (hsame.isRelayCell h) ?_
    rwa [hsame.get16 (show lengthOffset + 1 < torMsgSize by decide)]
  | close id h => exact .close id (hsame.isRelayCell h)
  | padding h => exact .padding ((hsame _ (by decide)).trans h)

theorem ClientCell.toExitMessage_congr (h : ClientCell m) (hsame : SameCell m' m) :
    toExitMessage m' connect = toExitMessage m connect := by
  cases h with
  | connect id h => rw [toExitMessage_begin _ h, toExitMessage_begin _ (hsame.isRelayCell h)]
  | data id h => rw [toExitMessage_data _ h, toExitMessage_data _ (hsame.isRelayCell h)]
  | close id h => rw [toExitMessage_end _ h, toExitMessage_end _ (hsame.isRelayCell h)]
  | padding h =>
    rw [toExitMessage_padding _ h, toExitMessage_padding _ ((hsame _ (by decide)).trans h)]

theorem ExitCell.toClientMessage_congr (h : ExitCell m) (hsame : SameCell m' m) :
    toClientMessage m' connect read = toClientMessage m connect read := by
  cases h with
  | connected id h =>
    rw [toClientMessage_connected _ _ h, toClientMessage_connected _ _ (hsame.isRelayCell h)]
  | data id h hlength =>
    rw [toClientMessage_data _ _ h, toClientMessage_data _ _ (hsame.isRelayCell h),
      hsame.bytes_dataSpan hlength]
  | close id h => rw [toClientMessage_end _ _ h, toClientMessage_end _ _ (hsame.isRelayCell h)]
  | padding h =>
    rw [toClientMessage_padding _ _ h,
      toClientMessage_padding _ _ ((hsame _ (by decide)).trans h)]

end Messages

/-! ## The system as two ends -/

/-- The message that a packet to the exit is. -/
def Packet.toExit (p : Packet) : ToExit UInt16 ℕ :=
  toExitMessage (p.receive fun _ => 0) p.connect

/-- The message that a packet to the client is. -/
def Packet.toClient (p : Packet) : ToClient UInt16 ℕ (List UInt8 × List UInt8) :=
  toClientMessage (p.receive fun _ => 0) p.connect p.read

/-- The two ends that a system is. -/
def abs (s : System) : Ends UInt16 ℕ (List UInt8 × List UInt8) where
  client id := (held s.client id).map StreamData.connect
  exit := held s.exit
  toExit := s.toExit.map Packet.toExit
  toClient := s.toClient.map Packet.toClient
  pushes := s.pushes.map fun push => (push.stream, push.socket, push.bytes, push.read)
  running := s.clientRunning

theorem abs_client (s : System) (id : UInt16) :
    (abs s).client id = (held s.client id).map StreamData.connect := rfl

/-- The systems of runs: the tables are sound, and cells come from the senders. -/
structure WellFormed (s : System) : Prop where
  client : InPlace s.client
  exit : Sound s.exit
  toExit : ∀ p ∈ s.toExit, ClientCell (p.receive fun _ => 0)
  toClient : ∀ p ∈ s.toClient, ExitCell (p.receive fun _ => 0)

/-- The event that an action is. A cell with data is dealt with successfully unless
    `send` fails, or there is no socket. -/
inductive Event.Of (s : System) : Action → Event UInt16 ℕ (List UInt8 × List UInt8) → Prop
  | connect {addr memory msg drawn} : genStreamId s.client s.counter = some drawn →
      Event.Of s (.connect addr memory msg) (.connect drawn.toUInt16 s.connects)
  | close {id msg} : Event.Of s (.close id msg) (.close id)
  | send {id data msg n} : Event.Of s (.send id data msg) (.send id n)
  | ping {msg} : Event.Of s (.ping msg) .ping
  | deliver {buffer connected sent succeeds} :
      (succeeds = false → sent = true → ∀ id l, (abs s).toExit = .data id :: l →
        (abs s).exit id = 0) →
      Event.Of s (.exitRecv buffer connected sent) (.deliver succeeds)
  | socketData {id data buffer} : data ≠ [] → data.length ≤ relayDataMsgSize →
      Event.Of s (.internetEvent id data buffer)
        (.socketData id (buffer relayDataOffset :: data.dropLast, data))
  | socketEof {id buffer} : Event.Of s (.internetEvent id [] buffer) (.socketEof id)
  | receive {buffer} : Event.Of s (.clientRecv buffer) .receive

variable {s s' : System}

theorem toExit_ofBuffer {m : Memory UInt8} (h : ClientCell m) (connect : ℕ) (read : List UInt8) :
    (Packet.ofBuffer m connect read).toExit = toExitMessage m connect :=
  h.toExitMessage_congr connect (Packet.sameCell_ofBuffer m connect read _)

theorem toClient_ofBuffer {m : Memory UInt8} (h : ExitCell m) (connect : ℕ) (read : List UInt8) :
    (Packet.ofBuffer m connect read).toClient = toClientMessage m connect read :=
  h.toClientMessage_congr connect read (Packet.sameCell_ofBuffer m connect read _)

/-- The messages on their way after the client has sent cells. -/
theorem toExit_sendToExit {cells : List (Memory UInt8)} (hcells : ∀ m ∈ cells, ClientCell m) :
    ((s.sendToExit cells).toExit).map Packet.toExit =
      s.toExit.map Packet.toExit ++ cells.map fun m => toExitMessage m s.connects := by
  rw [System.sendToExit, List.map_append, List.map_map]
  congr 1
  exact List.map_congr_left fun m hm => toExit_ofBuffer (hcells m hm) _ _

theorem clientCell_sendToExit (hwf : WellFormed s) {cells : List (Memory UInt8)}
    (hcells : ∀ m ∈ cells, ClientCell m) :
    ∀ p ∈ (s.sendToExit cells).toExit, ClientCell (p.receive fun _ => 0) := by
  intro p hp
  rcases List.mem_append.1 hp with hold | hnew
  · exact hwf.toExit p hold
  · obtain ⟨m, hm, rfl⟩ := List.mem_map.1 hnew
    exact (hcells m hm).congr (Packet.sameCell_ofBuffer m _ _ _)

/-- Removing a stream from a table. -/
theorem erased_remove {α : Type*} {map : Table UInt16 α} (hmap : Sound map) (id : UInt16) :
    Erased (held map id) (held (socketHashmapRemove map id) id) ∧
      held (socketHashmapRemove map id) =
        Function.update (held map) id (held (socketHashmapRemove map id) id) := by
  obtain ⟨hother, hheld⟩ := held_remove hmap id
  exact ⟨hheld, (Function.eq_update_iff).2 ⟨rfl, fun k hk => hother k hk⟩⟩

/-! ## Steps of the client -/

/-- Changing what the client has under an id. -/
theorem map_held_update {map map' : StreamHashmap} {id : UInt16} {rest : Multiset ℕ}
    (hid : (held map' id).map StreamData.connect = rest)
    (hother : ∀ k, k ≠ id →
      (held map' k).map StreamData.connect = (held map k).map StreamData.connect) :
    (fun k => (held map' k).map StreamData.connect) =
      Function.update (fun k => (held map k).map StreamData.connect) id rest :=
  Function.eq_update_iff.2 ⟨hid, hother⟩

/-- Removing a stream from the client's table. -/
theorem client_remove (hmap : InPlace s.client) (id : UInt16) :
    ∃ rest, Erased ((abs s).client id) rest ∧
      (fun k => (held (socketHashmapRemove s.client id) k).map StreamData.connect) =
        Function.update (abs s).client id rest := by
  obtain ⟨hother, hheld⟩ := held_remove hmap.sound id
  refine ⟨_, ?_, map_held_update rfl fun k hk => by rw [hother k hk]⟩
  rcases hheld with ⟨hnone, hnone'⟩ | ⟨d, hd⟩
  · exact .inl ⟨by rw [abs_client, hnone, Multiset.map_zero], by rw [hnone', Multiset.map_zero]⟩
  · exact .inr ⟨d.connect, by rw [abs_client, hd, Multiset.map_cons]⟩

theorem simulates_connect (hwf : WellFormed s) {addr : List UInt8} {memory msg : Memory UInt8}
    (h : s.clientStep (.connect addr memory msg) = some s') :
    WellFormed s' ∧ ∃ drawn, genStreamId s.client s.counter = some drawn ∧
      Step (abs s) (.connect drawn.toUInt16 s.connects) (abs s') := by
  obtain ⟨⟨streamId, map, cell⟩, hconnect, h⟩ := Option.bind_eq_some_iff.1 h
  obtain ⟨drawn, hdrawn, hconnect⟩ := Option.bind_eq_some_iff.1 hconnect
  obtain ⟨map', hinsert, hplace, hheld⟩ :=
    streamHashmapInsert_spec hwf.client hdrawn memory s.connects
  rw [hinsert] at hconnect
  obtain ⟨rfl, rfl, rfl⟩ : drawn = streamId ∧ map' = map ∧ _ = cell := by
    simpa using hconnect
  obtain rfl := Option.some_inj.1 h
  have hnone := held_of_genStreamId hwf.client hdrawn
  have hcell := isRelayCell_torSendBeginMsg msg drawn.toUInt16 addr
  have hcells : ∀ m ∈ [(torSendBeginMsg drawn.toUInt16 addr).write msg], ClientCell m :=
    List.forall_mem_singleton.2 (.connect _ hcell)
  refine ⟨⟨hplace, hwf.exit, clientCell_sendToExit hwf hcells, hwf.toClient⟩, drawn, hdrawn, ?_⟩
  have hclient : (fun k => (held map' k).map StreamData.connect) =
      Function.update (abs s).client drawn.toUInt16 {s.connects} :=
    map_held_update (by rw [hheld, if_pos rfl, hnone]; rfl) fun k hk => by rw [hheld, if_neg hk]
  have htoExit := toExit_sendToExit (s := s) hcells
  rw [List.map_singleton, toExitMessage_begin _ hcell] at htoExit
  have hstep : Step (abs s) (.connect drawn.toUInt16 s.connects) _ :=
    Step.connect (by rw [abs_client, hnone, Multiset.map_zero])
  convert hstep using 1
  exact Ends.ext hclient rfl htoExit rfl rfl rfl

theorem simulates_close (hwf : WellFormed s) (id : UInt16) (msg : Memory UInt8)
    (h : s.clientStep (.close id msg) = some s') :
    WellFormed s' ∧ Step (abs s) (.close id) (abs s') := by
  obtain rfl := Option.some_inj.1 h
  have hcell := isRelayCell_torSendEndMsg msg id
  have hcells : ∀ m ∈ [(torSendEndMsg id).write msg], ClientCell m :=
    List.forall_mem_singleton.2 (.close _ hcell)
  refine ⟨⟨inPlace_remove hwf.client id, hwf.exit, clientCell_sendToExit hwf hcells,
    hwf.toClient⟩, ?_⟩
  obtain ⟨rest, herased, hclient⟩ := client_remove hwf.client id
  have htoExit := toExit_sendToExit (s := s) hcells
  rw [List.map_singleton, toExitMessage_end _ hcell] at htoExit
  have hstep : Step (abs s) (.close id) _ := Step.close herased
  convert hstep using 1
  exact Ends.ext hclient rfl htoExit rfl rfl rfl

theorem simulates_send (hwf : WellFormed s) (id : UInt16) (data : List UInt8)
    (msg : ℕ → Memory UInt8) (h : s.clientStep (.send id data msg) = some s') :
    WellFormed s' ∧ (abs s' = abs s ∨ ∃ n, Step (abs s) (.send id n) (abs s')) := by
  obtain rfl := Option.some_inj.1 h
  rw [Client.handleInputSend]
  cases hfind : socketHashmapFind s.client id with
  | none =>
    have hcells : ∀ m ∈ ([] : List (Memory UInt8)), ClientCell m := List.forall_mem_nil _
    refine ⟨⟨hwf.client, hwf.exit, clientCell_sendToExit hwf hcells, hwf.toClient⟩, .inl ?_⟩
    have htoExit := toExit_sendToExit (s := s) hcells
    exact Ends.ext rfl rfl (htoExit.trans (List.append_nil _)) rfl rfl rfl
  | some entry =>
    have hdata := Client.mem_sendLoop id msg data.length data
    have hcells : ∀ m ∈ Client.sendLoop id msg data.length data, ClientCell m :=
      fun m hm => .data id (hdata m hm)
    refine ⟨⟨hwf.client, hwf.exit, clientCell_sendToExit hwf hcells, hwf.toClient⟩,
      .inr ⟨(Client.sendLoop id msg data.length data).length, ?_⟩⟩
    have htoExit := toExit_sendToExit (s := s) hcells
    rw [List.map_congr_left fun m hm => toExitMessage_data s.connects (hdata m hm),
      List.map_const'] at htoExit
    have hheld : (abs s).client id ≠ 0 := by
      have hmem : entry.2 ∈ held s.client id := mem_held_of_find hfind
      have hmem' := Multiset.mem_map_of_mem StreamData.connect hmem
      exact fun hzero => Multiset.notMem_zero _ (hzero ▸ hmem' : entry.2.connect ∈ (0 : Multiset ℕ))
    have hstep : Step (abs s) (.send id (Client.sendLoop id msg data.length data).length) _ :=
      Step.send hheld
    convert hstep using 1
    exact Ends.ext rfl rfl htoExit rfl rfl rfl

theorem simulates_recv (hwf : WellFormed s) (id : UInt16) (length : ℕ)
    (h : s.clientStep (.recv id length) = some s') : WellFormed s' ∧ abs s' = abs s := by
  obtain rfl := Option.some_inj.1 h
  rw [Client.handleInputRecv]
  cases hfind : socketHashmapFind s.client id with
  | none => exact ⟨hwf, rfl⟩
  | some entry =>
    obtain ⟨hplace, hheld⟩ := setBuffer_spec hwf.client hfind
      (Client.recvLoop length length entry.2.recvBuffer).2
    exact ⟨⟨hplace, hwf.exit, hwf.toExit, hwf.toClient⟩,
      Ends.ext (funext hheld) rfl rfl rfl rfl rfl⟩

theorem simulates_ping (hwf : WellFormed s) (msg : Memory UInt8)
    (h : s.clientStep (.ping msg) = some s') :
    WellFormed s' ∧ Step (abs s) .ping (abs s') := by
  obtain rfl := Option.some_inj.1 h
  have hcell : torSendPingMsg.write msg cmdOffset = TorCommand.torPadding.code := rfl
  have hcells : ∀ m ∈ [torSendPingMsg.write msg], ClientCell m :=
    List.forall_mem_singleton.2 (.padding hcell)
  refine ⟨⟨hwf.client, hwf.exit, clientCell_sendToExit hwf hcells, hwf.toClient⟩, ?_⟩
  have htoExit := toExit_sendToExit (s := s) hcells
  rw [List.map_singleton, toExitMessage_padding _ hcell] at htoExit
  have hstep : Step (abs s) .ping _ := Step.ping
  convert hstep using 1
  exact Ends.ext rfl rfl htoExit rfl rfl rfl

/-- What the client does with a cell is told by its kind. -/
theorem simulates_clientRecv (hwf : WellFormed s) (hrunning : s.clientRunning = true)
    (buffer : Memory UInt8) (h : s.clientStep (.clientRecv buffer) = some s') :
    WellFormed s' ∧ Step (abs s) .receive (abs s') := by
  obtain ⟨p, toClient, map, hhead, hmap, rfl⟩ := System.clientStep_clientRecv h
  have hp := hwf.toClient p (hhead ▸ List.mem_cons_self)
  have hrest : ∀ p' ∈ toClient, ExitCell (p'.receive fun _ => 0) :=
    fun p' hp' => hwf.toClient p' (hhead ▸ List.mem_cons_of_mem p hp')
  have hsame := p.sameCell buffer fun _ => 0
  have hmessage := hp.toClientMessage_congr p.connect p.read hsame
  have hqueue : (abs s).toClient = p.toClient :: toClient.map Packet.toClient :=
    congrArg (List.map Packet.toClient) hhead
  rw [Packet.toClient, ← hmessage] at hqueue
  -- From here on only the bytes in the buffer matter, not how the packet was received.
  generalize p.receive buffer = m at *
  cases hp.congr hsame with
  | connected id hcell =>
    rw [toClientMessage_connected _ _ hcell] at hqueue
    rw [Client.handleRelayMsg_connected _ hcell] at hmap ⊢
    obtain rfl := Option.some_inj.1 hmap
    refine ⟨⟨hwf.client, hwf.exit, hwf.toExit, hrest⟩, ?_⟩
    convert Step.noted hqueue using 1
    exact Ends.ext rfl rfl rfl rfl (by simp [abs]) hrunning.symm
  | data id hcell hlength =>
    rw [toClientMessage_data _ _ hcell] at hqueue
    rw [Client.handleRelayMsg_data _ hcell] at hmap ⊢
    cases hfind : socketHashmapFind s.client id with
    | none =>
      rw [hfind] at hmap
      obtain rfl := Option.some_inj.1 hmap
      have hnone : (abs s).client id = 0 := by
        rw [abs_client, (find_eq_none_iff hwf.client.sound).1 hfind, Multiset.map_zero]
      refine ⟨⟨hwf.client, hwf.exit, hwf.toExit, hrest⟩, ?_⟩
      convert Step.lost hqueue hnone using 1
      exact Ends.ext rfl rfl rfl rfl (by simp [abs]) rfl
    | some entry =>
      rw [hfind] at hmap
      obtain ⟨buffer', -, rfl⟩ := Option.map_eq_some_iff.1 hmap
      obtain ⟨hplace, hheld⟩ := setBuffer_spec hwf.client hfind buffer'
      have hmem : entry.2.connect ∈ (abs s).client id :=
        Multiset.mem_map_of_mem _ (mem_held_of_find hfind)
      refine ⟨⟨hplace, hwf.exit, hwf.toExit, hrest⟩, ?_⟩
      convert Step.pushed hqueue hmem using 1
      exact Ends.ext (funext hheld) rfl rfl rfl (by simp [abs]) hrunning.symm
  | close id hcell =>
    rw [toClientMessage_end _ _ hcell] at hqueue
    rw [Client.handleRelayMsg_end _ hcell] at hmap ⊢
    obtain rfl := Option.some_inj.1 hmap
    obtain ⟨rest, herased, hclient⟩ := client_remove hwf.client id
    refine ⟨⟨inPlace_remove hwf.client id, hwf.exit, hwf.toExit, hrest⟩, ?_⟩
    convert Step.dropped hqueue herased using 1
    exact Ends.ext hclient rfl rfl rfl (by simp [abs]) hrunning.symm
  | padding hcmd =>
    rw [toClientMessage_padding _ _ hcmd] at hqueue
    rw [Client.handleRelayMsg_padding _ hcmd] at hmap ⊢
    obtain rfl := Option.some_inj.1 hmap
    refine ⟨⟨hwf.client, hwf.exit, hwf.toExit, hrest⟩, ?_⟩
    convert Step.noted hqueue using 1
    exact Ends.ext rfl rfl rfl rfl (by simp [abs]) hrunning.symm

/-! ## Steps of the relay -/

/-- What the relay does is seen in its table and in the messages to the client. -/
theorem wellFormed_exitDoes (hwf : WellFormed s) {out : Relay.Outcome} (hmap : Sound out.map)
    (hreply : ∀ m ∈ out.reply, ExitCell m) (socket : ℕ) (read : List UInt8) :
    WellFormed (s.exitDoes out socket read) := by
  refine ⟨hwf.client, hmap, hwf.toExit, fun p hp => ?_⟩
  rcases List.mem_append.1 hp with hold | hnew
  · exact hwf.toClient p hold
  · obtain ⟨m, hm, rfl⟩ := Option.map_eq_some_iff.1 (Option.mem_toList.1 hnew)
    exact (hreply m hm).congr (Packet.sameCell_ofBuffer m _ _ _)

theorem abs_exitDoes {out : Relay.Outcome} (hreply : ∀ m ∈ out.reply, ExitCell m) (socket : ℕ)
    (read : List UInt8) :
    abs (s.exitDoes out socket read) =
      { abs s with
        exit := held out.map
        toClient := (abs s).toClient ++
          (out.reply.map fun m => toClientMessage m socket read).toList } := by
  refine Ends.ext rfl rfl rfl ?_ rfl rfl
  show List.map _ (_ ++ _) = _
  rw [List.map_append]
  congr 1
  cases hout : out.reply with
  | none => rfl
  | some m => exact congrArg (fun m => [m]) (toClient_ofBuffer (hreply m hout) socket read)

/-- The one cell of an answer. -/
theorem exitCell_some {m : Memory UInt8} (h : ExitCell m) : ∀ m' ∈ some m, ExitCell m' := by
  rintro _ hm
  obtain rfl := Option.some_inj.1 hm
  exact h

theorem exitCell_replyEnd (map : SocketHashmap) (buffer : Memory UInt8) (id : UInt16)
    (reason : EndReason) : ∀ m ∈ (Relay.replyEnd map buffer id reason).reply, ExitCell m :=
  exitCell_some (.close id (isRelayCell_torSendEndRelayEnd buffer id reason))

/-- An answer with an END, after which the table is `map`. -/
theorem simulates_replyEnd (hwf : WellFormed s) {map : SocketHashmap} (hmap : Sound map)
    (buffer : Memory UInt8) (id : UInt16) (reason : EndReason) (socket : ℕ) (read : List UInt8)
    (offered : Option (ℕ × Span)) :
    WellFormed (s.exitDoes { Relay.replyEnd map buffer id reason with offered := offered } socket
      read) ∧
    abs (s.exitDoes { Relay.replyEnd map buffer id reason with offered := offered } socket read) =
      { abs s with exit := held map, toClient := (abs s).toClient ++ [.close id] } := by
  have hreply := exitCell_replyEnd map buffer id reason
  refine ⟨wellFormed_exitDoes hwf hmap hreply socket read, ?_⟩
  refine (abs_exitDoes hreply socket read).trans ?_
  exact Ends.ext rfl rfl rfl (congrArg ((abs s).toClient ++ [·])
    (toClientMessage_end _ _ (isRelayCell_torSendEndRelayEnd buffer id reason))) rfl rfl

theorem simulates_begin {m : Memory UInt8} {id : UInt16} (hwf : WellFormed s)
    (hcell : IsRelayCell m .relayBegin id) (socket : ℕ) (connected : Bool) :
    let out := Relay.handleRelayBegin s.exit m fun _ => if connected then some socket else none
    WellFormed (s.exitDoes out 0 []) ∧
      (abs (s.exitDoes out 0 []) =
          { abs s with
            exit := Function.update (abs s).exit id (socket ::ₘ (abs s).exit id)
            toClient := (abs s).toClient ++ [.other] } ∨
        abs (s.exitDoes out 0 []) =
          { abs s with toClient := (abs s).toClient ++ [.close id] }) := by
  have hrefused := simulates_replyEnd hwf hwf.exit m id .failInit 0 [] none
  -- No connection and no entry in the table are answered alike.
  rw [Relay.handleRelayBegin, hcell.streamId]
  cases connected with
  | false => exact ⟨hrefused.1, .inr hrefused.2⟩
  | true =>
    cases hinsert : socketHashmapInsert s.exit id socket with
    | none =>
      simp only [if_true, hinsert]
      exact ⟨hrefused.1, .inr hrefused.2⟩
    | some map' =>
      simp only [if_true, hinsert]
      have hconnected := isRelayCell_torSendEndRelayConnected m id
      have hreply := exitCell_some (.connected id hconnected)
      refine ⟨wellFormed_exitDoes hwf (sound_insert hwf.exit hinsert) hreply 0 [], .inl ?_⟩
      refine (abs_exitDoes hreply 0 []).trans (Ends.ext rfl ?_ rfl ?_ rfl rfl)
      · refine Function.eq_update_iff.2 ⟨?_, fun k hk => ?_⟩
        · exact (held_insert hinsert id).trans (if_pos rfl)
        · exact (held_insert hinsert k).trans (if_neg hk)
      · exact congrArg ((abs s).toClient ++ [·]) (toClientMessage_connected _ _ hconnected)

theorem simulates_data {m : Memory UInt8} {id : UInt16} (hwf : WellFormed s)
    (hcell : IsRelayCell m .relayData id) (sent : Bool) :
    let out := Relay.handleRelayData s.exit m sent
    WellFormed (s.exitDoes out 0 []) ∧
      ((abs s).exit id ≠ 0 ∧ abs (s.exitDoes out 0 []) = abs s ∨
        (sent = true → (abs s).exit id = 0) ∧
          abs (s.exitDoes out 0 []) =
            { abs s with toClient := (abs s).toClient ++ [.close id] }) := by
  rw [Relay.handleRelayData, hcell.streamId]
  cases hfind : socketHashmapFind s.exit id with
  | none =>
    obtain ⟨hwf', habs⟩ := simulates_replyEnd hwf hwf.exit m id .absent 0 [] none
    exact ⟨hwf', .inr ⟨fun _ => (find_eq_none_iff hwf.exit).1 hfind, habs⟩⟩
  | some entry =>
    have hheld : (abs s).exit id ≠ 0 := by
      have hmem : entry.2 ∈ (abs s).exit id := mem_held_of_find hfind
      exact fun hzero => Multiset.notMem_zero _ (hzero ▸ hmem)
    cases sent with
    | true =>
      have hreply : ∀ m' ∈ (none : Option (Memory UInt8)), ExitCell m' := nofun
      refine ⟨wellFormed_exitDoes hwf hwf.exit hreply 0 [], .inl ⟨hheld, ?_⟩⟩
      refine (abs_exitDoes hreply 0 []).trans ?_
      exact Ends.ext rfl rfl rfl (List.append_nil _) rfl rfl
    | false =>
      obtain ⟨hwf', habs⟩ := simulates_replyEnd hwf hwf.exit m id .eof 0 []
        (some (entry.2, dataSpan m))
      exact ⟨hwf', .inr ⟨nofun, habs⟩⟩

theorem simulates_echo {m : Memory UInt8} (hwf : WellFormed s)
    (hcmd : m cmdOffset = TorCommand.torPadding.code) :
    let out : Relay.Outcome :=
      { returned := true, map := s.exit, reply := some m, offered := none }
    WellFormed (s.exitDoes out 0 []) ∧
      abs (s.exitDoes out 0 []) = { abs s with toClient := (abs s).toClient ++ [.other] } := by
  have hreply := exitCell_some (.padding hcmd)
  refine ⟨wellFormed_exitDoes hwf hwf.exit hreply 0 [], (abs_exitDoes hreply 0 []).trans ?_⟩
  exact Ends.ext rfl rfl rfl (congrArg ((abs s).toClient ++ [·])
    (toClientMessage_padding _ _ hcmd)) rfl rfl

/-- What the relay does with a cell is told by its kind, and by what the system calls
    return. -/
theorem simulates_exitRecv (hwf : WellFormed s) (buffer : Memory UInt8) (connected sent : Bool)
    (h : s.exitStep (.exitRecv buffer connected sent) = some s') :
    WellFormed s' ∧ ∃ e, Event.Of s (.exitRecv buffer connected sent) e ∧
      Step (abs s) e (abs s') := by
  obtain ⟨p, toExit, hhead, rfl⟩ := System.exitStep_exitRecv h
  have hp := hwf.toExit p (hhead ▸ List.mem_cons_self)
  have hwf₁ : WellFormed { s with toExit := toExit } :=
    ⟨hwf.client, hwf.exit, fun p' hp' => hwf.toExit p' (hhead ▸ List.mem_cons_of_mem p hp'),
      hwf.toClient⟩
  have hsame := p.sameCell buffer fun _ => 0
  have hmessage := hp.toExitMessage_congr p.connect hsame
  have hqueue : (abs s).toExit = p.toExit :: toExit.map Packet.toExit :=
    congrArg (List.map Packet.toExit) hhead
  rw [Packet.toExit, ← hmessage] at hqueue
  clear h
  generalize p.receive buffer = m at *
  cases hp.congr hsame with
  | connect id hcell =>
    rw [toExitMessage_begin _ hcell] at hqueue
    rw [Relay.handleClientMsg_begin _ _ _ hcell]
    obtain ⟨hwf', habs | habs⟩ := simulates_begin hwf₁ hcell p.connect connected
    · refine ⟨hwf', .deliver true, .deliver nofun, ?_⟩
      rw [habs]
      exact Step.opened hqueue
    -- The server refused, or the table took no entry.
    · refine ⟨hwf', .deliver false, .deliver fun _ _ id' l heq => ?_, ?_⟩
      · cases hqueue.symm.trans heq
      · rw [habs]
        exact Step.refused hqueue
  | data id hcell =>
    rw [toExitMessage_data _ hcell] at hqueue
    rw [Relay.handleClientMsg_data _ _ _ hcell]
    obtain ⟨hwf', ⟨hheld, habs⟩ | ⟨hnone, habs⟩⟩ := simulates_data hwf₁ hcell sent
    · refine ⟨hwf', .deliver true, .deliver nofun, ?_⟩
      rw [habs]
      exact Step.sent hqueue hheld
    -- The stream is not held, or the write to its socket failed.
    · refine ⟨hwf', .deliver false, .deliver fun _ hsent id' l heq => ?_, ?_⟩
      · cases hqueue.symm.trans heq
        exact hnone hsent
      · rw [habs]
        exact Step.unsent hqueue
  | close id hcell =>
    rw [toExitMessage_end _ hcell] at hqueue
    obtain ⟨reason, hout⟩ := Relay.handleClientMsg_end s.exit
      (fun _ => if connected then some p.connect else none) sent hcell
    rw [hout]
    obtain ⟨hwf', habs⟩ :=
      simulates_replyEnd hwf₁ (sound_remove hwf.exit id) m id reason 0 [] none
    obtain ⟨herased, hupdate⟩ := erased_remove hwf.exit id
    refine ⟨hwf', .deliver true, .deliver nofun, ?_⟩
    convert Step.closed hqueue herased using 1
    exact habs.trans (Ends.ext rfl hupdate rfl rfl rfl rfl)
  | padding hcmd =>
    rw [toExitMessage_padding _ hcmd] at hqueue
    rw [Relay.handleClientMsg_padding _ _ _ hcmd]
    obtain ⟨hwf', habs⟩ := simulates_echo hwf₁ hcmd
    refine ⟨hwf', .deliver true, .deliver nofun, ?_⟩
    rw [habs]
    exact Step.echoed hqueue

theorem simulates_internetEvent (hwf : WellFormed s) (id : UInt16) (data : List UInt8)
    (buffer : Memory UInt8) (h : s.exitStep (.internetEvent id data buffer) = some s') :
    WellFormed s' ∧ ∃ e, Event.Of s (.internetEvent id data buffer) e ∧
      Step (abs s) e (abs s') := by
  obtain ⟨entry, hdata, hfind, rfl⟩ := System.exitStep_internetEvent h
  have hmem : entry.2 ∈ (abs s).exit id := mem_held_of_find hfind
  rw [Relay.handleInternetEvent]
  cases data with
  | nil =>
    obtain ⟨hwf', habs⟩ :=
      simulates_replyEnd hwf (sound_remove hwf.exit id) buffer id .eof entry.2 [] none
    obtain ⟨herased, hupdate⟩ := erased_remove hwf.exit id
    refine ⟨hwf', .socketEof id, .socketEof, ?_⟩
    -- The socket was found, so its stream was there to remove.
    rcases herased with ⟨hnone, -⟩ | ⟨name, hcons⟩
    · have hzero : (abs s).exit id = 0 := hnone
      rw [hzero] at hmem
      cases Multiset.notMem_zero _ hmem
    · have hexit : (abs s).exit id = _ := hcons
      convert Step.socketEof hexit using 1
      exact habs.trans (Ends.ext rfl hupdate rfl rfl rfl rfl)
  | cons b data =>
    have hcell := isRelayCell_torSendEndRelayData buffer id (b :: data)
    have hlt : (b :: data).length < 2 ^ 16 := lt_of_le_of_lt hdata (by decide)
    have hlength : (get16 ((torSendEndRelayData id (b :: data)).write buffer) lengthOffset).toNat ≤
        relayDataMsgSize := by
      rwa [length_torSendEndRelayData, UInt16.toNat_ofNat_of_lt' hlt]
    have hreply := exitCell_some (.data id hcell hlength)
    refine ⟨wellFormed_exitDoes hwf hwf.exit hreply entry.2 _, _,
      .socketData (List.cons_ne_nil b data) hdata, ?_⟩
    convert Step.socketData hmem using 1
    refine (abs_exitDoes hreply entry.2 _).trans ?_
    refine Ends.ext rfl rfl rfl (congrArg ((abs s).toClient ++ [·]) ?_) rfl rfl
    rw [← bytes_torSendEndRelayData buffer id _ hlt (List.cons_ne_nil b data)]
    exact toClientMessage_data entry.2 (b :: data) hcell

/-! ## Every step -/

/-- A step of the system is a step of the two ends, or none. -/
theorem step_simulates (hwf : WellFormed s) {a : Action} (h : s.step a = some s') :
    WellFormed s' ∧ (abs s' = abs s ∨ ∃ e, Event.Of s a e ∧ Step (abs s) e (abs s')) := by
  cases a with
  | connect addr memory msg =>
    obtain ⟨-, h⟩ := Option.ite_none_right_eq_some.1 h
    obtain ⟨hwf', drawn, hdrawn, hstep⟩ := simulates_connect hwf h
    exact ⟨hwf', .inr ⟨_, .connect hdrawn, hstep⟩⟩
  | close id msg =>
    obtain ⟨-, h⟩ := Option.ite_none_right_eq_some.1 h
    exact (simulates_close hwf id msg h).imp_right fun hstep => .inr ⟨_, .close, hstep⟩
  | send id data msg =>
    obtain ⟨-, h⟩ := Option.ite_none_right_eq_some.1 h
    obtain ⟨hwf', hsame | ⟨n, hstep⟩⟩ := simulates_send hwf id data msg h
    · exact ⟨hwf', .inl hsame⟩
    · exact ⟨hwf', .inr ⟨_, .send, hstep⟩⟩
  | recv id length =>
    obtain ⟨-, h⟩ := Option.ite_none_right_eq_some.1 h
    exact (simulates_recv hwf id length h).imp_right .inl
  | ping msg =>
    obtain ⟨-, h⟩ := Option.ite_none_right_eq_some.1 h
    exact (simulates_ping hwf msg h).imp_right fun hstep => .inr ⟨_, .ping, hstep⟩
  | exitRecv buffer connected sent =>
    obtain ⟨-, h⟩ := Option.ite_none_right_eq_some.1 h
    exact (simulates_exitRecv hwf buffer connected sent h).imp_right .inr
  | internetEvent id data buffer =>
    obtain ⟨-, h⟩ := Option.ite_none_right_eq_some.1 h
    exact (simulates_internetEvent hwf id data buffer h).imp_right .inr
  | clientRecv buffer =>
    obtain ⟨hrunning, h⟩ := Option.ite_none_right_eq_some.1 h
    exact (simulates_clientRecv hwf hrunning buffer h).imp_right fun hstep =>
      .inr ⟨_, .receive, hstep⟩

theorem wellFormed_start : WellFormed .start where
  client := inPlace_socketHashmapInit
  exit := sound_socketHashmapInit
  toExit := List.forall_mem_nil _
  toClient := List.forall_mem_nil _

theorem wellFormed_of_reachable {G : Machine.Guard System Action}
    (hs : streamMachine.Reachable G s) : WellFormed s := by
  refine hs.invariant ?_ ?_
  · rintro _ rfl
    exact wellFormed_start
  · intro s a s' hwf _ h
    exact (step_simulates hwf h).1

theorem abs_start :
    abs .start ∈ (endsMachine UInt16 ℕ (List UInt8 × List UInt8)).init := by
  refine Set.mem_singleton_iff.2 (Ends.ext ?_ ?_ rfl rfl rfl rfl)
  · funext id
    exact (congrArg _ held_socketHashmapInit).trans (Multiset.map_zero _)
  · funext id
    exact held_socketHashmapInit

/-- The runs of the system are runs of the two ends, under a guard that its own guard
    implies for the events of its actions. -/
theorem abs_of_reachable {G : Machine.Guard System Action}
    {H : Machine.Guard (Ends UInt16 ℕ (List UInt8 × List UInt8))
      (Event UInt16 ℕ (List UInt8 × List UInt8))}
    (hguard : ∀ s a e, WellFormed s → G s a → Event.Of s a e → H (abs s) e)
    (hs : streamMachine.Reachable G s) : (endsMachine _ _ _).Reachable H (abs s) := by
  refine hs.simulation abs (fun _ => wellFormed_of_reachable) ?_ ?_
  · rintro _ rfl
    exact abs_start
  · intro s a s' hwf hG h
    rcases (step_simulates hwf h).2 with heq | ⟨e, he, hstep⟩
    · exact .inl heq
    · exact .inr ⟨e, hguard s a e hwf hG he, hstep⟩

end OnionRouter.Streams
