import OnionRouter.Client.Input
import OnionRouter.Lib.History
import OnionRouter.Streams.Flow
import OnionRouter.Streams.Payload
import OnionRouter.Streams.Resembling

/-!
# What sockets are handed

The data that the client sends on its streams, cell by cell, and what the end relay hands to
`send` for their sockets. The system with what was noted of it is a flow of the two ends
(`Streams.Flow`), whose messages have the data of the cells (`Represents`).

* `Represents.step`: every step of the system is a step of such a flow, or none.
* `forwards_of_noted`: the socket of a stream is handed what was sent on the stream.
-/

namespace OnionRouter.Streams

open Lib Memory Net Protocol

/-! ## What is noted -/

/-- Of some data, its length and what is certain of it. -/
def certain (data : List UInt8) : ℕ × List UInt8 := (data.length, data.take certainSize)

/-- The data of a cell. -/
def cellData (m : Memory UInt8) : ℕ × List UInt8 := certain ((dataSpan m).bytes m)

/-- The pieces of some data that are sent in a cell each, with the rounds that are left. -/
def pieces : ℕ → List UInt8 → List (List UInt8)
  | 0, _ => []
  | rounds + 1, data =>
    if data.length = 0 then []
    else data.take relayDataMsgSize :: pieces rounds (data.drop relayDataMsgSize)

/-- A cell of data is sent on a stream, or the data of one is handed to a socket; both have the
    number of their connect command. -/
inductive Transfer
  | sent (stream : ℕ) (data : ℕ × List UInt8)
  | offered (socket : ℕ) (data : ℕ × List UInt8)

/-- What was sent on streams. -/
def sentOf (history : List Transfer) : List (ℕ × ℕ × List UInt8) :=
  history.filterMap fun
    | .sent stream data => some (stream, data)
    | .offered _ _ => none

/-- What was handed to sockets. -/
def offeredOf (history : List Transfer) : List (ℕ × ℕ × List UInt8) :=
  history.filterMap fun
    | .sent _ _ => none
    | .offered socket data => some (socket, data)

/-- What the end relay hands to a socket when it receives a packet. -/
def offers (s : System) (p : Packet) (buffer : Memory UInt8) (connected sent : Bool) :
    List Transfer :=
  let m := p.receive buffer
  ((Relay.handleClientMsg s.exit m (fun _ => if connected then some p.connect else none)
    sent).offered.map fun offered => .offered offered.1 (certain (offered.2.bytes m))).toList

/-- What the user sends on a stream, cell by cell, or the end relay hands to a socket. -/
def transfers (s : System) : Action → List Transfer
  | .send id data _ =>
    match socketHashmapFind s.client id with
    | none => []
    | some (_, entry) =>
      (pieces data.length data).map fun piece => .sent entry.connect (certain piece)
  | .exitRecv buffer connected sent =>
    match s.toExit with
    | [] => []
    | p :: _ => offers s p buffer connected sent
  | _ => []

variable {history history' : List Transfer}

theorem sentOf_append : sentOf (history ++ history') = sentOf history ++ sentOf history' :=
  List.filterMap_append

theorem offeredOf_append :
    offeredOf (history ++ history') = offeredOf history ++ offeredOf history' :=
  List.filterMap_append

theorem sentOf_map (stream : ℕ) (l : List (ℕ × List UInt8)) :
    sentOf (l.map (.sent stream)) = l.map fun data => (stream, data) := by
  rw [sentOf, List.filterMap_map]
  exact congrFun List.filterMap_eq_map' l

theorem offeredOf_map (stream : ℕ) (l : List (ℕ × List UInt8)) :
    offeredOf (l.map (.sent stream)) = [] := by
  rw [offeredOf, List.filterMap_map]
  exact List.filterMap_eq_nil_iff.2 fun _ _ => rfl

/-! ## The data of cells -/

theorem SameHead.cellData_eq {m m' : Memory UInt8} (h : SameHead m m') :
    cellData m = cellData m' := Prod.ext h.data_eq.1 h.data_eq.2

/-- The cells of a command have the pieces of its data. -/
theorem cellData_sendLoop (id : UInt16) (msg : ℕ → Memory UInt8) (rounds : ℕ) (data : List UInt8) :
    (Client.sendLoop id msg rounds data).map cellData = (pieces rounds data).map certain := by
  induction rounds generalizing data with
  | zero => rfl
  | succ rounds ih =>
    rw [Client.sendLoop, pieces]
    split_ifs with hempty
    · rfl
    · rw [List.map_cons, List.map_cons, ih, cellData, bytes_torSendDataMsg _ _ _
        ((Client.length_take_min data).trans_lt (Client.min_lt data)), ← List.take_eq_take_min,
        ← List.drop_eq_drop_min]

theorem sameHead_of_sameCell {m m' : Memory UInt8} (h : SameCell m m') : SameHead m m' :=
  fun a ha => h a (ha.trans (by decide))

/-- The data of a packet to the exit, if it has any. -/
def Packet.payload (p : Packet) : Option (ℕ × List UInt8) :=
  match p.toExit with
  | .data _ => some (cellData (p.receive fun _ => 0))
  | _ => none

theorem Packet.payload_eq_none {p : Packet} (h : ∀ id, p.toExit ≠ .data id) : p.payload = none := by
  rw [Packet.payload]
  split
  next id heq => exact absurd heq (h id)
  next => rfl

theorem Packet.payload_of_data {p : Packet} {id : UInt16} (h : p.toExit = .data id)
    (buffer : Memory UInt8) : p.payload = some (cellData (p.receive buffer)) := by
  rw [Packet.payload, h]
  exact congrArg some (sameHead_of_sameCell (p.sameCell _ _)).cellData_eq

theorem payload_ofBuffer {m : Memory UInt8} {id : UInt16} (h : IsRelayCell m .relayData id)
    (connect : ℕ) (read : List UInt8) :
    (Packet.ofBuffer m connect read).payload = some (cellData m) := by
  have htoExit : (Packet.ofBuffer m connect read).toExit = .data id := by
    rw [toExit_ofBuffer (.data id h), toExitMessage_data _ h]
  rw [Packet.payload_of_data htoExit fun _ => 0]
  exact congrArg some (sameHead_of_sameCell (Packet.sameCell_ofBuffer m _ _ _)).cellData_eq

/-- A cell that loses its tail has the same data, as far as it is certain. -/
theorem Arrived.payload_eq {p p' : Packet} (h : Arrived p p')
    (hp : ClientCell (p.receive fun _ => 0)) : p'.payload = p.payload := by
  have hhead := h.sameHead fun _ => 0
  have hmessage : p'.toExit = p.toExit := by
    rw [Packet.toExit, h.connect]
    exact hhead.toExitMessage_eq hp _
  rw [Packet.payload, Packet.payload, hmessage, hhead.cellData_eq]

/-- Only data is handed to a socket. -/
theorem offered_handleClientMsg {m : Memory UInt8} (hcell : ClientCell m) (map : SocketHashmap)
    (connect : ℕ) (connectServer : List UInt8 → Option ℕ) (sent : Bool) :
    (Relay.handleClientMsg map m connectServer sent).offered =
      match toExitMessage m connect with
      | .data id => (socketHashmapFind map id).map fun entry => (entry.2, dataSpan m)
      | _ => none := by
  cases hcell with
  | connect id hcell =>
    rw [Relay.handleClientMsg_begin _ _ _ hcell, toExitMessage_begin _ hcell,
      Relay.handleRelayBegin]
    split
    · rfl
    · split <;> rfl
  | data id hcell =>
    rw [Relay.handleClientMsg_data _ _ _ hcell, toExitMessage_data _ hcell]
    exact offered_handleRelayData map hcell.streamId sent
  | close id hcell =>
    obtain ⟨reason, hout⟩ := Relay.handleClientMsg_end map connectServer sent hcell
    rw [hout, toExitMessage_end _ hcell]
    rfl
  | padding hcell => rw [Relay.handleClientMsg_padding _ _ _ hcell, toExitMessage_padding _ hcell]

/-! ## The system as a flow -/

variable {s s₁ s' : System} {a : Action}
  {f : Flow UInt16 ℕ (ℕ × List UInt8 × List UInt8) (ℕ × List UInt8)}

/-- A flow of the two ends that a system is, with what was noted of it. -/
structure Represents (f : Flow UInt16 ℕ (ℕ × List UInt8 × List UInt8) (ℕ × List UInt8))
    (s : System) (history : List Transfer) : Prop where
  ends : f.ends = seen s
  message : f.outbound.map Outbound.message = f.ends.toExit
  payloads : (outboundData f.outbound).map Prod.snd = s.toExit.filterMap Packet.payload
  sent : f.sent = sentOf history
  offered : f.offered = offeredOf history
  fresh : ∀ n, f.names n ≠ none → n < s.connects

theorem Represents.takes (h : Represents f s history) (hwf : WellFormed s) (htakes : Takes s a s₁) :
    Represents f s₁ history := by
  obtain ⟨-, hseen, -⟩ := htakes.seen_eq hwf
  have hpayloads : s₁.toExit.filterMap Packet.payload = s.toExit.filterMap Packet.payload := by
    cases a with
    | exitRecv buffer connected sent =>
      obtain ⟨p, p', l, hqueue, harrived, rfl⟩ := htakes
      have hpayload := harrived.payload_eq (hwf.toExit p (hqueue ▸ List.mem_cons_self))
      rw [hqueue, List.filterMap_cons, List.filterMap_cons, hpayload]
    | clientRecv buffer =>
      obtain ⟨p, p', l, -, -, rfl⟩ := htakes
      rfl
    | _ => exact congrArg _ (congrArg System.toExit (htakes : s₁ = s))
  have hconnects : s₁.connects = s.connects := by rw [htakes.eq_queues]
  exact ⟨h.ends.trans hseen.symm, h.message, h.payloads.trans hpayloads.symm, h.sent, h.offered,
    fun n hn => hconnects ▸ h.fresh n hn⟩

theorem connects_of_step (h : s.step a = some s') : s.connects ≤ s'.connects := by
  cases a with
  | exitRecv buffer connected sent =>
    obtain ⟨-, h⟩ := Option.ite_none_right_eq_some.1 h
    obtain ⟨p, toExit, -, rfl⟩ := System.exitStep_exitRecv h
    exact le_rfl
  | internetEvent id data buffer =>
    obtain ⟨-, h⟩ := Option.ite_none_right_eq_some.1 h
    obtain ⟨found, -, -, rfl⟩ := System.exitStep_internetEvent h
    exact le_rfl
  | clientRecv buffer =>
    obtain ⟨-, h⟩ := Option.ite_none_right_eq_some.1 h
    obtain ⟨p, toClient, map, -, -, rfl⟩ := System.clientStep_clientRecv h
    exact le_rfl
  | connect addr memory msg =>
    obtain ⟨-, h⟩ := Option.ite_none_right_eq_some.1 h
    obtain ⟨drawn, -, h⟩ := Option.bind_eq_some_iff.1 h
    obtain rfl := Option.some_inj.1 h
    exact Nat.le_succ _
  | _ =>
    obtain ⟨-, h⟩ := Option.ite_none_right_eq_some.1 h
    obtain rfl := Option.some_inj.1 h
    exact le_rfl

/-- An event without data leaves the data on its way to the exit. -/
theorem payloads_of_quiet {new : List Packet} {l : List (ToExit UInt16 ℕ)}
    (hqueue : s'.toExit = s.toExit ++ new) (h : (abs s').toExit = (abs s).toExit ++ l)
    (hl : ∀ id, .data id ∉ l) :
    s'.toExit.filterMap Packet.payload = s.toExit.filterMap Packet.payload := by
  have hnew : new.map Packet.toExit = l := by
    have hmap : (abs s').toExit = (abs s).toExit ++ new.map Packet.toExit := by
      show List.map _ s'.toExit = List.map _ s.toExit ++ _
      rw [hqueue, List.map_append]
    exact List.append_cancel_left (hmap.symm.trans h)
  have hnone : new.filterMap Packet.payload = [] := by
    refine List.filterMap_eq_nil_iff.2 fun p hp => Packet.payload_eq_none fun id heq => hl id ?_
    exact hnew ▸ heq ▸ List.mem_map_of_mem hp
  rw [hqueue, List.filterMap_append, hnone, List.append_nil]

/-- A step of the system is one of the ends of the flow. -/
theorem Represents.ends_step (h : Represents f s history)
    {e : Event UInt16 ℕ (List UInt8 × List UInt8)} (hends : Streams.Step (abs s) e (abs s')) :
    Streams.Step f.ends (e.mapPayload view) (seen s') := by
  rw [h.ends]
  exact hends.mapPayload

/-- A flow after a step in which no data is sent or handed on. -/
theorem Represents.of_quiet (h : Represents f s history) (hs : s.step a = some s')
    {f' : Flow UInt16 ℕ (ℕ × List UInt8 × List UInt8) (ℕ × List UInt8)}
    {l : List (ToExit UInt16 ℕ)} (hqueue : a.leavesToExit s.toExit = s.toExit)
    (hnote : transfers s a = []) (hends : f'.ends = seen s')
    (hmessage : f'.outbound.map Outbound.message = f'.ends.toExit)
    (hdata : outboundData f'.outbound = outboundData f.outbound)
    (habs : (abs s').toExit = (abs s).toExit ++ l) (hl : ∀ id, .data id ∉ l)
    (hsent : f'.sent = f.sent) (hoffered : f'.offered = f.offered)
    (hnames : ∀ n, f'.names n ≠ none → f.names n ≠ none ∨ n < s'.connects) :
    Represents f' s' (history ++ transfers s a) where
  ends := hends
  message := hmessage
  payloads := by
    rw [hdata, h.payloads, payloads_of_quiet (hqueue ▸ toExit_of_step hs) habs hl]
  sent := by rw [hsent, h.sent, hnote, List.append_nil]
  offered := by rw [hoffered, h.offered, hnote, List.append_nil]
  fresh n hn := (hnames n hn).elim
    (fun hold => (h.fresh n hold).trans_le (connects_of_step hs)) fun hlt => hlt

/-- A command that sends data, on a stream of the client. -/
theorem Represents.send (h : Represents f s history) {id : UInt16} {data : List UInt8}
    {msg : ℕ → Memory UInt8} (hs : s.step (.send id data msg) = some s') :
    ∃ f', Represents f' s' (history ++ transfers s (.send id data msg)) ∧
      (f' = f ∨ ∃ n, Flow.Step f (.send id n) f') := by
  have hclient := (Option.ite_none_right_eq_some.1 hs).2
  obtain rfl := Option.some_inj.1 hclient
  cases hfind : socketHashmapFind s.client id with
  | none =>
    have hcells : Client.handleInputSend s.client msg id data = [] := by
      rw [Client.handleInputSend, hfind]
    have hnote : transfers s (.send id data msg) = [] := by rw [transfers, hfind]
    have hsame : s.sendToExit [] = s := by
      rw [System.sendToExit, List.map_nil, List.append_nil]
    rw [hcells, hsame, hnote, List.append_nil]
    exact ⟨f, h, .inl rfl⟩
  | some entry =>
    have hcells : ∀ m ∈ Client.handleInputSend s.client msg id data,
        IsRelayCell m .relayData id := by
      rw [Client.handleInputSend, hfind]
      exact Client.mem_sendLoop id msg data.length data
    have hnote : transfers s (.send id data msg) =
        ((Client.handleInputSend s.client msg id data).map cellData).map
          (.sent entry.2.connect) := by
      rw [transfers, Client.handleInputSend, hfind, cellData_sendLoop, List.map_map]
      rfl
    have htoExit := toExit_sendToExit (s := s) fun m hm => .data id (hcells m hm)
    rw [List.map_congr_left fun m hm => toExitMessage_data s.connects (hcells m hm),
      List.map_const'] at htoExit
    rw [hnote]
    clear hnote hs
    generalize Client.handleInputSend s.client msg id data = cells at *
    have hname : entry.2.connect ∈ (seen s).client id :=
      Multiset.mem_map_of_mem _ (mem_held_of_find hfind)
    have hends : seen (s.sendToExit cells) = { seen s with
        toExit := (seen s).toExit ++ List.replicate (cells.map cellData).length (.data id) } := by
      refine Ends.ext rfl rfl (htoExit.trans ?_) rfl rfl rfl
      rw [List.length_map]
      rfl
    have hstep : Streams.Step f.ends (.send id (cells.map cellData).length)
        (seen (s.sendToExit cells)) := by
      rw [h.ends, hends]
      exact .send fun hzero => Multiset.notMem_zero _ (hzero ▸ hname)
    have hflow := Flow.Step.send hstep (h.ends.symm ▸ hname)
    refine ⟨_, ⟨rfl, hflow.message h.message, ?_, ?_, ?_, h.fresh⟩, .inr ⟨_, hflow⟩⟩
    · show List.map Prod.snd (outboundData (f.outbound ++ _)) = List.filterMap _ (_ ++ _)
      have hpayloads : (cells.map fun m => Packet.ofBuffer m s.connects []).filterMap
          Packet.payload = cells.map cellData := by
        rw [List.filterMap_map]
        exact (List.filterMap_congr fun m hm => payload_ofBuffer (hcells m hm) _ _).trans
          (congrFun List.filterMap_eq_map' cells)
      rw [outboundData_append, outboundData_map, List.map_append, h.payloads, List.filterMap_append,
        hpayloads, List.map_map]
      exact congrArg _ (List.map_id _)
    · show f.sent ++ _ = _
      rw [sentOf_append, sentOf_map, h.sent]
    · show f.offered = _
      rw [offeredOf_append, offeredOf_map, List.append_nil, h.offered]

/-- The first message has the data of the first cell. -/
theorem payloads_cons {m : Outbound UInt16 ℕ (ℕ × List UInt8)} {p : Packet}
    {outbound : List (Outbound UInt16 ℕ (ℕ × List UInt8))} {toExit : List Packet}
    (hm : m.message = p.toExit)
    (h : (outboundData (m :: outbound)).map Prod.snd = (p :: toExit).filterMap Packet.payload) :
    (outboundData outbound).map Prod.snd = toExit.filterMap Packet.payload ∧
      ∀ id name payload, m = .data id name payload → p.payload = some payload := by
  cases m with
  | data id name payload =>
    have hp := Packet.payload_of_data hm.symm fun _ => 0
    rw [List.filterMap_cons, hp] at h
    obtain ⟨hfirst, hrest⟩ := List.cons.inj h
    refine ⟨hrest, fun _ _ payload' heq => ?_⟩
    rw [hp, ← hfirst]
    exact congrArg some (Outbound.data.inj heq).2.2
  | _ =>
    have hp : p.payload = none := Packet.payload_eq_none fun id heq => by cases hm.trans heq
    rw [List.filterMap_cons, hp] at h
    exact ⟨h, nofun⟩

theorem sentOf_offers (s : System) (p : Packet) (buffer : Memory UInt8) (connected sent : Bool) :
    sentOf (offers s p buffer connected sent) = [] := by
  rw [offers]
  cases (Relay.handleClientMsg s.exit (p.receive buffer) _ sent).offered <;> rfl

/-- What is handed to a socket is the data of the cell, under the id of the cell. -/
theorem offers_of_head {p : Packet} (hexit : Sound s.exit)
    (hp : ClientCell (p.receive fun _ => 0)) {m : Outbound UInt16 ℕ (ℕ × List UInt8)}
    (hm : m.message = p.toExit)
    (hpayload : ∀ id name payload, m = .data id name payload → p.payload = some payload)
    (buffer : Memory UInt8) (connected sent : Bool) :
    Offers (held s.exit) m (offeredOf (offers s p buffer connected sent)) := by
  have hsame := p.sameCell buffer fun _ => 0
  have hmessage : toExitMessage (p.receive buffer) p.connect = p.toExit :=
    hp.toExitMessage_congr p.connect hsame
  have hoffered := offered_handleClientMsg (hp.congr hsame) s.exit p.connect
    (fun _ => if connected then some p.connect else none) sent
  rw [hmessage] at hoffered
  cases m with
  | data id name payload =>
    have hid : p.toExit = .data id := hm.symm
    have hdata := (Packet.payload_of_data hid buffer).symm.trans (hpayload id name payload rfl)
    rw [hid] at hoffered
    replace hoffered : _ = (socketHashmapFind s.exit id).map _ := hoffered
    rw [offers, hoffered, ← Option.some_inj.1 hdata]
    show (held s.exit id = 0 ∧ _) ∨ _
    cases hfind : socketHashmapFind s.exit id with
    | none => exact .inl ⟨(find_eq_none_iff hexit).1 hfind, rfl⟩
    | some entry => exact .inr ⟨entry.2, mem_held_of_find hfind, rfl⟩
  | _ =>
    rw [← hm] at hoffered
    rw [offers, hoffered]
    rfl

/-- The end relay takes a cell. -/
theorem Represents.deliver (h : Represents f s history) (hwf : WellFormed s)
    {buffer : Memory UInt8} {connected sent : Bool}
    (hs : s.step (.exitRecv buffer connected sent) = some s') :
    ∃ f' e, Event.Of s (.exitRecv buffer connected sent) e ∧ Flow.Step f (e.mapPayload view) f' ∧
      Represents f' s' (history ++ transfers s (.exitRecv buffer connected sent)) := by
  have hexit := (Option.ite_none_right_eq_some.1 hs).2
  obtain ⟨-, e, he, hends⟩ := simulates_exitRecv hwf buffer connected sent hexit
  obtain ⟨p, toExit, hqueue, rfl⟩ := System.exitStep_exitRecv hexit
  have hmessage : f.outbound.map Outbound.message = p.toExit :: toExit.map Packet.toExit := by
    rw [h.message, h.ends]
    exact congrArg (List.map Packet.toExit) hqueue
  obtain ⟨m, outbound, hcons, hm, -⟩ := List.map_eq_cons_iff.1 hmessage
  have hpayloads := h.payloads
  rw [hcons, hqueue] at hpayloads
  obtain ⟨hrest, hfirst⟩ := payloads_cons hm hpayloads
  have hnote : transfers s (.exitRecv buffer connected sent) =
      offers s p buffer connected sent := by
    rw [transfers, hqueue]
  cases he with
  | @deliver _ _ _ succeeds hfails =>
    have hoffers : Offers f.ends.exit m (offeredOf (offers s p buffer connected sent)) := by
      rw [h.ends]
      exact offers_of_head hwf.exit (hwf.toExit p (hqueue ▸ List.mem_cons_self)) hm hfirst _ _ _
    have hflow := Flow.Step.deliver (h.ends_step hends) hcons hoffers
    refine ⟨_, _, .deliver hfails, hflow, rfl, hflow.message h.message, hrest, ?_, ?_, h.fresh⟩
    · show f.sent = _
      rw [hnote, sentOf_append, sentOf_offers, List.append_nil, h.sent]
    · show f.offered ++ _ = _
      rw [hnote, offeredOf_append, h.offered]

/-- Every step of the system is a step of the flow, or none. -/
theorem Represents.step (h : Represents f s history) (hwf : WellFormed s)
    (hs : s.step a = some s') :
    ∃ f', Represents f' s' (history ++ transfers s a) ∧
      (f' = f ∨ ∃ e, Event.Of s a e ∧ Flow.Step f (e.mapPayload view) f') := by
  have hnames : ∀ n, f.names n ≠ none → f.names n ≠ none ∨ n < s'.connects := fun _ => .inl
  cases a with
  | connect addr memory msg =>
    have hconnect := (Option.ite_none_right_eq_some.1 hs).2
    obtain ⟨-, drawn, hdrawn, hends⟩ := simulates_connect hwf hconnect
    obtain ⟨⟨streamId, map, cell⟩, -, hconnect⟩ := Option.bind_eq_some_iff.1 hconnect
    have hconnects : s'.connects = s.connects + 1 := by
      obtain rfl := Option.some_inj.1 hconnect
      rfl
    have hnone : f.names s.connects = none :=
      not_not.1 fun hne => lt_irrefl _ (h.fresh s.connects hne)
    have hflow := Flow.Step.connect (h.ends_step hends) hnone
    refine ⟨_, h.of_quiet hs rfl rfl rfl (hflow.message h.message) ?_ (hends.toExit_eq nofun)
      (by simp [Event.adds]) rfl rfl fun n hn => ?_, .inr ⟨_, .connect hdrawn, hflow⟩⟩
    · exact (outboundData_append _ _).trans (List.append_nil _)
    · by_cases heq : n = s.connects
      · exact .inr (heq ▸ hconnects ▸ Nat.lt_succ_self _)
      · exact .inl ((Function.update_of_ne heq _ _).symm.trans_ne hn)
  | close id msg =>
    obtain ⟨-, hends⟩ := simulates_close hwf id msg (Option.ite_none_right_eq_some.1 hs).2
    have hflow := Flow.Step.close (h.ends_step hends)
    refine ⟨_, h.of_quiet hs rfl rfl rfl (hflow.message h.message) ?_ (hends.toExit_eq nofun)
      (by simp [Event.adds]) rfl rfl hnames, .inr ⟨_, .close, hflow⟩⟩
    exact (outboundData_append _ _).trans (List.append_nil _)
  | ping msg =>
    obtain ⟨-, hends⟩ := simulates_ping hwf msg (Option.ite_none_right_eq_some.1 hs).2
    have hflow := Flow.Step.ping (h.ends_step hends)
    refine ⟨_, h.of_quiet hs rfl rfl rfl (hflow.message h.message) ?_ (hends.toExit_eq nofun)
      (by simp [Event.adds]) rfl rfl hnames, .inr ⟨_, .ping, hflow⟩⟩
    exact (outboundData_append _ _).trans (List.append_nil _)
  | send id data msg =>
    obtain ⟨f', hf', rfl | ⟨n, hflow⟩⟩ := h.send hs
    · exact ⟨f', hf', .inl rfl⟩
    · exact ⟨f', hf', .inr ⟨_, .send, hflow⟩⟩
  | recv id length =>
    obtain ⟨-, heq⟩ := simulates_recv hwf id length (Option.ite_none_right_eq_some.1 hs).2
    have hends : f.ends = seen s' := h.ends.trans (congrArg (Ends.mapPayload view) heq.symm)
    refine ⟨f, h.of_quiet hs (l := []) rfl rfl hends h.message rfl ?_ (fun _ => List.not_mem_nil)
      rfl rfl hnames, .inl rfl⟩
    rw [heq, List.append_nil]
  | exitRecv buffer connected sent =>
    obtain ⟨f', e, he, hflow, hf'⟩ := h.deliver hwf hs
    exact ⟨f', hf', .inr ⟨e, he, hflow⟩⟩
  | internetEvent id data buffer =>
    obtain ⟨-, e, he, hends⟩ := simulates_internetEvent hwf id data buffer
      (Option.ite_none_right_eq_some.1 hs).2
    cases he with
    | socketData hne hdata =>
      have hflow := Flow.Step.socketData (h.ends_step hends)
      exact ⟨_, h.of_quiet hs rfl rfl rfl (hflow.message h.message) rfl (hends.toExit_eq nofun)
        (fun _ => List.not_mem_nil) rfl rfl hnames, .inr ⟨_, .socketData hne hdata, hflow⟩⟩
    | socketEof =>
      have hflow := Flow.Step.socketEof (h.ends_step hends)
      exact ⟨_, h.of_quiet hs rfl rfl rfl (hflow.message h.message) rfl (hends.toExit_eq nofun)
        (fun _ => List.not_mem_nil) rfl rfl hnames, .inr ⟨_, .socketEof, hflow⟩⟩
  | clientRecv buffer =>
    obtain ⟨hrunning, hclient⟩ := Option.ite_none_right_eq_some.1 hs
    obtain ⟨-, hends⟩ := simulates_clientRecv hwf hrunning buffer hclient
    have hflow := Flow.Step.receive (h.ends_step hends)
    exact ⟨_, h.of_quiet hs rfl rfl rfl (hflow.message h.message) rfl (hends.toExit_eq nofun)
      (fun _ => List.not_mem_nil) rfl rfl hnames, .inr ⟨_, .receive, hflow⟩⟩

/-! ## Runs -/

/-- What is noted does not depend on the tails of cells. -/
theorem Takes.transfers_eq (hwf : WellFormed s) (h : Takes s a s₁) :
    transfers s₁ a = transfers s a := by
  cases a with
  | exitRecv buffer connected sent =>
    obtain ⟨p, p', l, hqueue, harrived, rfl⟩ := h
    have hp := hwf.toExit p (hqueue ▸ List.mem_cons_self)
    have hcell := hp.congr (p.sameCell buffer fun _ => 0)
    have hhead := harrived.sameHead buffer
    rw [transfers, transfers, hqueue]
    show offers _ p' _ _ _ = offers _ p _ _ _
    rw [offers, offers, offered_handleClientMsg (hhead.clientCell hcell) _ 0,
      offered_handleClientMsg hcell _ 0, hhead.toExitMessage_eq hcell]
    cases toExitMessage (p.receive buffer) 0 with
    | data id =>
      show Option.toList (Option.map _ (Option.map _ _)) =
        Option.toList (Option.map _ (Option.map _ _))
      rw [Option.map_map, Option.map_map]
      refine congrArg Option.toList (Option.map_congr fun entry _ => ?_)
      exact congrArg (Transfer.offered entry.2) hhead.cellData_eq
    | _ => rfl
  | clientRecv buffer =>
    obtain ⟨p, p', l, -, -, rfl⟩ := h
    rfl
  | _ => exact congrArg (transfers · _) (h : s₁ = s)

theorem Resembles.transfers_eq (hwf : WellFormed s) (h : Resembles s s') :
    transfers s' a = transfers s a := by
  obtain ⟨l, l', hl, -, rfl⟩ := h.queues
  cases a with
  | exitRecv buffer connected sent =>
    cases hqueue : s.toExit with
    | nil =>
      rw [hqueue] at hl
      obtain rfl := List.forall₂_nil_left_iff.1 hl
      rw [transfers, transfers, hqueue]
    | cons p u =>
      rw [hqueue] at hl
      obtain ⟨p', u', harrived, -, rfl⟩ := List.forall₂_cons_left_iff.1 hl
      have htakes : Takes s (.exitRecv buffer connected sent) { s with toExit := p' :: u } :=
        ⟨p, p', u, hqueue, harrived, rfl⟩
      have hsame := htakes.transfers_eq hwf
      exact hsame
  | _ => rfl

/-- At the start there is nothing. -/
theorem labelled_start : (⟨seen .start, [], fun _ => none, [], []⟩ :
    Flow UInt16 ℕ (ℕ × List UInt8 × List UInt8) (ℕ × List UInt8)).Labelled where
  message := rfl
  isolated := Isolation.invariant_of_reachable
    (seen_of_reachable (fun _ _ _ => freshIds_of_drawsApart) (.init rfl))
  named id name := by
    rintro (hmem | ⟨payload, hmem⟩ | hexit | hclient)
    · cases hmem
    · cases hmem
    · have hzero : (seen .start).exit id = 0 := held_socketHashmapInit
      cases Multiset.notMem_zero name (hzero ▸ hexit)
    · have hzero : (seen .start).client id = 0 :=
        (congrArg _ held_socketHashmapInit).trans (Multiset.map_zero _)
      cases Multiset.notMem_zero name (hzero ▸ hclient)
  order := .nil
  own _ _ _ hmem := by cases hmem

/-- The socket of a stream is handed the cells of data that were sent on the stream: a first
    part of them, in their order, and all of them when none is on its way, unless it is closed. -/
structure Forwards (s : System) (history : List Transfer) : Prop where
  offered : ∀ stream, along stream (offeredOf history) <+: along stream (sentOf history)
  all : s.toExit = [] → ∀ id, ∀ stream ∈ held s.exit id,
    along stream (offeredOf history) = along stream (sentOf history)

theorem forwards_of_noted (hs : tailMachine.Noted DrawsApart transfers s history) :
    Forwards s history := by
  have hflow : ∃ f, Represents f s history ∧ f.Labelled ∧ f.Prefixed := by
    refine hs.invariant
      (I := fun s history => ∃ f, Represents f s history ∧ f.Labelled ∧ f.Prefixed) ?_ ?_
    · rintro _ rfl
      refine ⟨_, ⟨rfl, rfl, rfl, rfl, rfl, fun n hn => absurd rfl hn⟩, labelled_start, ?_⟩
      exact ⟨fun _ => List.nil_prefix, fun _ _ => rfl, fun _ _ => rfl⟩
    · rintro s a s' history hs ⟨f, hf, hlabelled, hprefixed⟩ hG ⟨s₁, htakes, hstep⟩
      have hwf := wellFormed_of_tailMachine hs
      obtain ⟨hwf₁, hseen, hof⟩ := htakes.seen_eq hwf
      obtain ⟨f', hf', rfl | ⟨e, he, hflow⟩⟩ := (hf.takes hwf htakes).step hwf₁ hstep
      · exact ⟨f', htakes.transfers_eq hwf ▸ hf', hlabelled, hprefixed⟩
      · have hfresh := freshIds_of_drawsApart hwf hG (hof e he)
        rw [← hf.ends] at hfresh
        exact ⟨f', htakes.transfers_eq hwf ▸ hf', hlabelled.step hfresh hflow,
          hprefixed.step hlabelled hflow⟩
  obtain ⟨f, hf, -, hprefixed⟩ := hflow
  refine ⟨fun stream => hf.sent ▸ hf.offered ▸ hprefixed.offered stream,
    fun hempty id stream hstream => ?_⟩
  have hrest := hprefixed.rest stream ⟨id, .inr (hf.ends ▸ hstream)⟩
  have hnone : f.outbound = [] := by
    refine List.map_eq_nil_iff.1 (hf.message.trans ?_)
    rw [hf.ends]
    exact congrArg (List.map Packet.toExit) hempty
  rw [hnone] at hrest
  rw [← hf.offered, ← hf.sent, ← hrest]
  exact (List.append_nil _).symm

end OnionRouter.Streams
