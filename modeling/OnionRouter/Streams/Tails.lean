import OnionRouter.Net.Onion
import OnionRouter.Streams.Runs

/-!
# Cells that lose their tails

The client and the end relay, joined by queues that keep the cells in order, but of every cell
perhaps not its last 13 bytes, those of the partial block under the onion layers. This is what
a circuit is to its ends.

The header of a cell is never lost, so that the two ends are those of `Streams.Protocol` still,
with the data as far as it is certain (`view`).

* `separated_of_reachable`: a stream receives what was read from its own socket, as far as the
  cells carry it.
* `agrees_of_reachable`: at rest the two ends have streams under the same ids.
* `running_of_reachable`: no cell ends the session of the client.
-/

namespace OnionRouter.Streams

open Lib Memory Net Protocol

/-! ## Cells that arrive -/

/-- What arrives of a cell. -/
structure Arrived (p p' : Packet) : Prop where
  cell : p'.cell.take tailOffset = p.cell.take tailOffset
  connect : p'.connect = p.connect
  read : p'.read = p.read

/-- The ends when an action takes the next cell as it arrives. -/
def Takes : System → Action → System → Prop
  | s, .exitRecv _ _ _, s₁ =>
    ∃ p p' l, s.toExit = p :: l ∧ Arrived p p' ∧ s₁ = { s with toExit := p' :: l }
  | s, .clientRecv _, s₁ =>
    ∃ p p' l, s.toClient = p :: l ∧ Arrived p p' ∧ s₁ = { s with toClient := p' :: l }
  | s, _, s₁ => s₁ = s

/-- The runs of the two ends over such queues. -/
def tailMachine : Machine System Action where
  init := {.start}
  step s a s' := ∃ s₁, Takes s a s₁ ∧ s₁.step a = some s'

/-- Two buffers that agree on a cell without its tail. -/
def SameHead (m m' : Memory UInt8) : Prop := ∀ a < tailOffset, m a = m' a

theorem Packet.receive_apply (p : Packet) (buffer : Memory UInt8) {a : ℕ} (ha : a < torMsgSize) :
    p.receive buffer a = ofCell p.cell a := by
  have hlen : a < p.cell.length := by rwa [p.length_cell]
  have hmem := write_of_mem buffer 0 p.cell hlen
  rw [Nat.zero_add] at hmem
  rw [ofCell, List.getD_eq_getElem _ _ hlen]
  exact hmem

theorem Arrived.sameHead {p p' : Packet} (h : Arrived p p') (buffer : Memory UInt8) :
    SameHead (p'.receive buffer) (p.receive buffer) := by
  intro a ha
  have hcell : a < torMsgSize := ha.trans (by decide)
  rw [p.receive_apply buffer hcell, p'.receive_apply buffer hcell]
  exact ofCell_of_take h.cell ha

namespace SameHead

variable {m m' : Memory UInt8} {id : UInt16}

theorem get16 (h : SameHead m m') {off : ℕ} (hoff : off + 1 < tailOffset) :
    get16 m off = Protocol.get16 m' off := by
  rw [Protocol.get16, Protocol.get16, h off (Nat.lt_of_succ_lt hoff), h (off + 1) hoff]

theorem isRelayCell (h : SameHead m m') {cmd : RelayCommand} (hcell : IsRelayCell m' cmd id) :
    IsRelayCell m cmd id where
  relay := (h _ (by decide)).trans hcell.relay
  cmd := (h _ (by decide)).trans hcell.cmd
  streamId := (h.get16 (by decide)).trans hcell.streamId

/-- The cells keep their kinds. -/
theorem clientCell (h : SameHead m m') (hcell : ClientCell m') : ClientCell m := by
  cases hcell with
  | connect id hcell => exact .connect id (h.isRelayCell hcell)
  | data id hcell => exact .data id (h.isRelayCell hcell)
  | close id hcell => exact .close id (h.isRelayCell hcell)
  | padding hcell => exact .padding ((h _ (by decide)).trans hcell)

theorem exitCell (h : SameHead m m') (hcell : ExitCell m') : ExitCell m := by
  cases hcell with
  | connected id hcell => exact .connected id (h.isRelayCell hcell)
  | data id hcell hlength =>
    refine .data id (h.isRelayCell hcell) ?_
    rwa [h.get16 (show lengthOffset + 1 < tailOffset by decide)]
  | close id hcell => exact .close id (h.isRelayCell hcell)
  | padding hcell => exact .padding ((h _ (by decide)).trans hcell)

theorem toExitMessage_eq (h : SameHead m m') (hcell : ClientCell m') (connect : ℕ) :
    toExitMessage m connect = toExitMessage m' connect := by
  cases hcell with
  | connect id hcell => rw [toExitMessage_begin _ hcell, toExitMessage_begin _ (h.isRelayCell hcell)]
  | data id hcell => rw [toExitMessage_data _ hcell, toExitMessage_data _ (h.isRelayCell hcell)]
  | close id hcell => rw [toExitMessage_end _ hcell, toExitMessage_end _ (h.isRelayCell hcell)]
  | padding hcell =>
    rw [toExitMessage_padding _ hcell, toExitMessage_padding _ ((h _ (by decide)).trans hcell)]

end SameHead

/-- The commands of the cells that the client sends. -/
theorem ClientCell.cmd_or {m : Memory UInt8} (h : ClientCell m) :
    m cmdOffset = TorCommand.torPadding.code ∨ m cmdOffset = TorCommand.torRelay.code ∧
      m relayCmdOffset ≠ RelayCommand.relayExtend.code := by
  cases h with
  | connect id h => exact .inr ⟨h.relay, h.cmd.trans_ne (by decide)⟩
  | data id h => exact .inr ⟨h.relay, h.cmd.trans_ne (by decide)⟩
  | close id h => exact .inr ⟨h.relay, h.cmd.trans_ne (by decide)⟩
  | padding h => exact .inl h

/-! ## Queues -/

/-- The cells to the relay that an action does not take. -/
def Action.leavesToExit : Action → List Packet → List Packet
  | .exitRecv _ _ _, l => l.tail
  | _, l => l

/-- The cells to the client that an action does not take. -/
def Action.leavesToClient : Action → List Packet → List Packet
  | .clientRecv _, l => l.tail
  | _, l => l

theorem append_drop_length {α : Type*} {l l' new : List α} (h : l' = l ++ new) :
    l' = l ++ l'.drop l.length := by
  rw [h, List.drop_left]

theorem drop_length_tail {α : Type*} {l l' : List α} (h : l' = l.tail) :
    l' = l.tail ++ l'.drop l.length := by
  have hle : l.tail.length ≤ l.length := by
    rw [List.length_tail]
    exact Nat.sub_le _ _
  rw [h, List.drop_eq_nil_of_le hle, List.append_nil]

/-- Behind the cells that an action does not take are those that are sent. -/
theorem toExit_of_step {s s' : System} {a : Action} (h : s.step a = some s') :
    s'.toExit = a.leavesToExit s.toExit ++ s'.toExit.drop s.toExit.length := by
  cases a with
  | connect addr memory msg =>
    obtain ⟨-, h⟩ := Option.ite_none_right_eq_some.1 h
    obtain ⟨drawn, -, h⟩ := Option.bind_eq_some_iff.1 h
    obtain rfl := Option.some_inj.1 h
    exact append_drop_length rfl
  | recv id length =>
    obtain ⟨-, h⟩ := Option.ite_none_right_eq_some.1 h
    obtain rfl := Option.some_inj.1 h
    exact append_drop_length (List.append_nil _).symm
  | exitRecv buffer connected sent =>
    obtain ⟨-, h⟩ := Option.ite_none_right_eq_some.1 h
    obtain ⟨p, toExit, hqueue, rfl⟩ := System.exitStep_exitRecv h
    exact drop_length_tail (by rw [hqueue]; rfl)
  | internetEvent id data buffer =>
    obtain ⟨-, h⟩ := Option.ite_none_right_eq_some.1 h
    obtain ⟨found, -, -, rfl⟩ := System.exitStep_internetEvent h
    exact append_drop_length (List.append_nil _).symm
  | clientRecv buffer =>
    obtain ⟨-, h⟩ := Option.ite_none_right_eq_some.1 h
    obtain ⟨p, toClient, map, -, -, rfl⟩ := System.clientStep_clientRecv h
    exact append_drop_length (List.append_nil _).symm
  | _ =>
    obtain ⟨-, h⟩ := Option.ite_none_right_eq_some.1 h
    obtain rfl := Option.some_inj.1 h
    exact append_drop_length rfl

theorem toClient_of_step {s s' : System} {a : Action} (h : s.step a = some s') :
    s'.toClient = a.leavesToClient s.toClient ++ s'.toClient.drop s.toClient.length := by
  cases a with
  | exitRecv buffer connected sent =>
    obtain ⟨-, h⟩ := Option.ite_none_right_eq_some.1 h
    obtain ⟨p, toExit, -, rfl⟩ := System.exitStep_exitRecv h
    exact append_drop_length rfl
  | internetEvent id data buffer =>
    obtain ⟨-, h⟩ := Option.ite_none_right_eq_some.1 h
    obtain ⟨found, -, -, rfl⟩ := System.exitStep_internetEvent h
    exact append_drop_length rfl
  | clientRecv buffer =>
    obtain ⟨-, h⟩ := Option.ite_none_right_eq_some.1 h
    obtain ⟨p, toClient, map, hqueue, -, rfl⟩ := System.clientStep_clientRecv h
    exact drop_length_tail (by rw [hqueue]; rfl)
  | connect addr memory msg =>
    obtain ⟨-, h⟩ := Option.ite_none_right_eq_some.1 h
    obtain ⟨drawn, -, h⟩ := Option.bind_eq_some_iff.1 h
    obtain rfl := Option.some_inj.1 h
    exact append_drop_length (List.append_nil _).symm
  | _ =>
    obtain ⟨-, h⟩ := Option.ite_none_right_eq_some.1 h
    obtain rfl := Option.some_inj.1 h
    exact append_drop_length (List.append_nil _).symm

/-! ## Data as far as it is certain -/

/-- How much of the data of a cell is not in its tail. -/
def certainSize : ℕ := tailOffset - relayDataOffset

/-- Of some data, its length, what is certain of it, and what was read from the socket. -/
def view (payload : List UInt8 × List UInt8) : ℕ × List UInt8 × List UInt8 :=
  (payload.1.length, payload.1.take certainSize, payload.2)

section Payload

variable {ι κ β γ : Type*} (f : β → γ)

/-- A message with less known of its data. -/
def ToClient.mapPayload : ToClient ι κ β → ToClient ι κ γ
  | .data id source payload => .data id source (f payload)
  | .close id => .close id
  | .other => .other

/-- An event with less known of its data. -/
def Event.mapPayload : Event ι κ β → Event ι κ γ
  | .connect id name => .connect id name
  | .close id => .close id
  | .send id n => .send id n
  | .ping => .ping
  | .deliver succeeds => .deliver succeeds
  | .socketData id payload => .socketData id (f payload)
  | .socketEof id => .socketEof id
  | .receive => .receive

/-- The ends with less known of the data. -/
def Ends.mapPayload (s : Ends ι κ β) : Ends ι κ γ where
  client := s.client
  exit := s.exit
  toExit := s.toExit
  toClient := s.toClient.map (ToClient.mapPayload f)
  pushes := s.pushes.map fun push => (push.1, push.2.1, f push.2.2)
  running := s.running

variable {f} {s s' : Ends ι κ β}

theorem data_mem_mapPayload {l : List (ToClient ι κ β)} {id : ι} {source : κ} {payload : γ}
    (h : .data id source payload ∈ l.map (ToClient.mapPayload f)) :
    ∃ payload', .data id source payload' ∈ l := by
  obtain ⟨m, hm, heq⟩ := List.mem_map.1 h
  cases m with
  | data id' source' payload' =>
    obtain ⟨rfl, rfl, -⟩ := ToClient.data.inj heq
    exact ⟨payload', hm⟩
  | close id' => cases heq
  | other => cases heq

theorem close_mem_mapPayload {l : List (ToClient ι κ β)} {id : ι}
    (h : .close id ∈ l.map (ToClient.mapPayload f)) : .close id ∈ l := by
  obtain ⟨m, hm, heq⟩ := List.mem_map.1 h
  cases m with
  | close id' => exact ToClient.close.inj heq ▸ hm
  | data id' source' payload' => cases heq
  | other => cases heq

variable [DecidableEq ι]

/-- What the ends do does not depend on the data. -/
theorem Step.mapPayload {e : Event ι κ β} (h : Step s e s') :
    Step (s.mapPayload f) (e.mapPayload f) (s'.mapPayload f) := by
  have hhead : ∀ {m l}, s.toClient = m :: l →
      (s.mapPayload f).toClient = m.mapPayload f :: l.map (ToClient.mapPayload f) :=
    fun h => (congrArg (List.map _) h).trans List.map_cons
  cases h with
  | connect hnone => exact .connect hnone
  | close herased => exact .close herased
  | send hheld => exact .send hheld
  | ping => exact .ping
  | opened hqueue =>
    simpa [Ends.mapPayload, ToClient.mapPayload, Event.mapPayload] using
      Step.opened (s := s.mapPayload f) hqueue
  | refused hqueue =>
    simpa [Ends.mapPayload, ToClient.mapPayload, Event.mapPayload] using
      Step.refused (s := s.mapPayload f) hqueue
  | sent hqueue hheld => exact .sent hqueue hheld
  | unsent hqueue =>
    simpa [Ends.mapPayload, ToClient.mapPayload, Event.mapPayload] using
      Step.unsent (s := s.mapPayload f) hqueue
  | closed hqueue herased =>
    simpa [Ends.mapPayload, ToClient.mapPayload, Event.mapPayload] using
      Step.closed (s := s.mapPayload f) hqueue herased
  | echoed hqueue =>
    simpa [Ends.mapPayload, ToClient.mapPayload, Event.mapPayload] using
      Step.echoed (s := s.mapPayload f) hqueue
  | socketData hname =>
    simpa [Ends.mapPayload, ToClient.mapPayload, Event.mapPayload] using
      Step.socketData (s := s.mapPayload f) hname
  | socketEof hexit =>
    simpa [Ends.mapPayload, ToClient.mapPayload, Event.mapPayload] using
      Step.socketEof (s := s.mapPayload f) hexit
  | pushed hqueue hname =>
    simpa [Ends.mapPayload, Event.mapPayload] using
      Step.pushed (s := s.mapPayload f) (hhead hqueue) hname
  | lost hqueue hnone => exact .lost (hhead hqueue) hnone
  | dropped hqueue herased => exact .dropped (hhead hqueue) herased
  | noted hqueue => exact .noted (hhead hqueue)

end Payload

/-- The data of a cell, as far as it is certain. -/
theorem SameHead.data_eq {m m' : Memory UInt8} (h : SameHead m m') :
    ((dataSpan m).bytes m).length = ((dataSpan m').bytes m').length ∧
      ((dataSpan m).bytes m).take certainSize = ((dataSpan m').bytes m').take certainSize := by
  have hspan : dataSpan m = dataSpan m' := by
    rw [dataSpan, dataSpan, h.get16 (show lengthOffset + 1 < tailOffset by decide)]
  rw [hspan]
  refine ⟨(length_read _ _ _).trans (length_read _ _ _).symm, ?_⟩
  show (m.read _ _).take certainSize = (m'.read _ _).take certainSize
  rw [take_read_min, take_read_min]
  refine read_congr _ _ _ fun i hi => h _ ?_
  exact Nat.add_lt_of_lt_sub' (hi.trans_le (Nat.min_le_left _ _))

/-- The message of a cell, with what is certain of its data. -/
theorem SameHead.toClientMessage_eq {m m' : Memory UInt8} (h : SameHead m m')
    (hcell : ExitCell m') (connect : ℕ) (read : List UInt8) :
    (toClientMessage m connect read).mapPayload view =
      (toClientMessage m' connect read).mapPayload view := by
  cases hcell with
  | connected id hcell =>
    rw [toClientMessage_connected _ _ hcell, toClientMessage_connected _ _ (h.isRelayCell hcell)]
  | data id hcell hlength =>
    have hview : view ((dataSpan m).bytes m, read) = view ((dataSpan m').bytes m', read) :=
      Prod.ext h.data_eq.1 (Prod.ext h.data_eq.2 rfl)
    rw [toClientMessage_data _ _ hcell, toClientMessage_data _ _ (h.isRelayCell hcell)]
    exact congrArg (ToClient.data id connect) hview
  | close id hcell =>
    rw [toClientMessage_end _ _ hcell, toClientMessage_end _ _ (h.isRelayCell hcell)]
  | padding hcell =>
    rw [toClientMessage_padding _ _ hcell, toClientMessage_padding _ _ ((h _ (by decide)).trans hcell)]

/-! ## The two ends -/

/-- The two ends that a system is, with what is certain of the data. -/
def seen (s : System) : Ends UInt16 ℕ (ℕ × List UInt8 × List UInt8) := (abs s).mapPayload view

variable {s s₁ s' : System} {a : Action}

/-- With the next cell as it arrives, a system is as it was. -/
theorem Takes.seen_eq (hwf : WellFormed s) (h : Takes s a s₁) :
    WellFormed s₁ ∧ seen s₁ = seen s ∧ ∀ e, Event.Of s₁ a e → Event.Of s a e := by
  cases a with
  | exitRecv buffer connected sent =>
    obtain ⟨p, p', l, hqueue, harrived, rfl⟩ := h
    have hp := hwf.toExit p (hqueue ▸ List.mem_cons_self)
    have hhead := harrived.sameHead fun _ => 0
    have hmessage : p'.toExit = p.toExit := by
      rw [Packet.toExit, harrived.connect]
      exact hhead.toExitMessage_eq hp _
    have habs : abs { s with toExit := p' :: l } = abs s := by
      refine Ends.ext rfl rfl ?_ rfl rfl rfl
      show p'.toExit :: _ = s.toExit.map Packet.toExit
      rw [hqueue, hmessage]
      rfl
    refine ⟨⟨hwf.client, hwf.exit, ?_, hwf.toClient⟩, congrArg (Ends.mapPayload view) habs,
      fun e he => ?_⟩
    · refine List.forall_mem_cons.2 ⟨hhead.clientCell hp, fun q hq => ?_⟩
      exact hwf.toExit q (hqueue ▸ List.mem_cons_of_mem p hq)
    · cases he with
      | deliver hfails =>
        rw [habs] at hfails
        exact .deliver hfails
  | clientRecv buffer =>
    obtain ⟨p, p', l, hqueue, harrived, rfl⟩ := h
    have hp := hwf.toClient p (hqueue ▸ List.mem_cons_self)
    have hhead := harrived.sameHead fun _ => 0
    have hmessage : p'.toClient.mapPayload view = p.toClient.mapPayload view := by
      rw [Packet.toClient, harrived.connect, harrived.read]
      exact hhead.toClientMessage_eq hp _ _
    refine ⟨⟨hwf.client, hwf.exit, hwf.toExit, ?_⟩, Ends.ext rfl rfl rfl ?_ rfl rfl, fun e he => ?_⟩
    · refine List.forall_mem_cons.2 ⟨hhead.exitCell hp, fun q hq => ?_⟩
      exact hwf.toClient q (hqueue ▸ List.mem_cons_of_mem p hq)
    · show p'.toClient.mapPayload view :: _ = (s.toClient.map Packet.toClient).map _
      rw [hqueue, hmessage]
      rfl
    · cases he with
      | receive => exact .receive
  | _ =>
    obtain rfl : s₁ = s := h
    exact ⟨hwf, rfl, fun _ he => he⟩

/-- Only a queue is another. -/
theorem Takes.eq_queues (h : Takes s a s₁) :
    s₁ = { s with toExit := s₁.toExit, toClient := s₁.toClient } := by
  cases a with
  | exitRecv buffer connected sent =>
    obtain ⟨p, p', l, -, -, rfl⟩ := h
    rfl
  | clientRecv buffer =>
    obtain ⟨p, p', l, -, -, rfl⟩ := h
    rfl
  | _ =>
    obtain rfl : s₁ = s := h
    rfl

theorem Takes.exitRunning (h : Takes s a s₁) : s₁.exitRunning = s.exitRunning := by
  rw [h.eq_queues]

section Runs

variable {G : Machine.Guard System Action}

theorem wellFormed_of_tailMachine (hs : tailMachine.Reachable G s) : WellFormed s := by
  refine hs.invariant ?_ ?_
  · rintro _ rfl
    exact wellFormed_start
  · rintro s a s' hwf - ⟨s₁, htakes, hstep⟩
    exact (step_simulates (htakes.seen_eq hwf).1 hstep).1

/-- The runs over such queues are runs of the two ends, under a guard that the guard of the
    actions implies for their events. -/
theorem seen_of_reachable {H : Machine.Guard (Ends UInt16 ℕ (ℕ × List UInt8 × List UInt8))
      (Event UInt16 ℕ (ℕ × List UInt8 × List UInt8))}
    (hguard : ∀ s a e, WellFormed s → G s a → Event.Of s a e → H (seen s) (e.mapPayload view))
    (hs : tailMachine.Reachable G s) : (endsMachine _ _ _).Reachable H (seen s) := by
  refine hs.simulation seen (fun _ => wellFormed_of_tailMachine) ?_ ?_
  · rintro _ rfl
    have hstart : abs .start = _ := Set.mem_singleton_iff.1 abs_start
    exact Set.mem_singleton_iff.2 (by rw [seen, hstart]; rfl)
  · rintro s a s' hwf hG ⟨s₁, htakes, hstep⟩
    obtain ⟨hwf₁, hseen, hof⟩ := htakes.seen_eq hwf
    rcases (step_simulates hwf₁ hstep).2 with heq | ⟨e, he, hends⟩
    · exact .inl ((congrArg _ heq).trans hseen)
    · refine .inr ⟨e.mapPayload view, hguard s a e hwf hG (hof e he), ?_⟩
      rw [← hseen]
      exact hends.mapPayload

end Runs

/-! ### The end relay -/

/-- No cell of the client ends the session of the end relay. -/
theorem returned_handleClientMsg {m : Memory UInt8} (hcell : ClientCell m) (map : SocketHashmap)
    (connectServer : List UInt8 → Option ℕ) (sent : Bool) :
    (Relay.handleClientMsg map m connectServer sent).returned = true := by
  cases hcell with
  | connect id hcell =>
    rw [Relay.handleClientMsg_begin _ _ _ hcell, Relay.handleRelayBegin]
    split
    · rfl
    · split <;> rfl
  | data id hcell =>
    rw [Relay.handleClientMsg_data _ _ _ hcell, Relay.handleRelayData]
    split
    · rfl
    · split_ifs <;> rfl
  | close id hcell =>
    obtain ⟨reason, hout⟩ := Relay.handleClientMsg_end map connectServer sent hcell
    rw [hout]
    rfl
  | padding hcell =>
    rw [Relay.handleClientMsg_padding _ _ _ hcell]

theorem exitRunning_step (hwf : WellFormed s) (hrunning : s.exitRunning = true)
    (h : s.step a = some s') : s'.exitRunning = true := by
  cases a with
  | exitRecv buffer connected sent =>
    obtain ⟨-, h⟩ := Option.ite_none_right_eq_some.1 h
    obtain ⟨p, toExit, hqueue, rfl⟩ := System.exitStep_exitRecv h
    have hp := hwf.toExit p (hqueue ▸ List.mem_cons_self)
    exact returned_handleClientMsg (hp.congr (p.sameCell _ _)) _ _ _
  | internetEvent id data buffer =>
    obtain ⟨-, h⟩ := Option.ite_none_right_eq_some.1 h
    obtain ⟨found, -, -, rfl⟩ := System.exitStep_internetEvent h
    show (Relay.handleInternetEvent _ _ _ _).returned = true
    rw [Relay.handleInternetEvent]
    split_ifs <;> rfl
  | clientRecv buffer =>
    obtain ⟨-, h⟩ := Option.ite_none_right_eq_some.1 h
    obtain ⟨p, toClient, map, -, -, rfl⟩ := System.clientStep_clientRecv h
    exact hrunning
  | connect addr memory msg =>
    obtain ⟨-, h⟩ := Option.ite_none_right_eq_some.1 h
    obtain ⟨drawn, -, h⟩ := Option.bind_eq_some_iff.1 h
    exact Option.some_inj.1 h ▸ hrunning
  | _ =>
    obtain ⟨-, h⟩ := Option.ite_none_right_eq_some.1 h
    exact Option.some_inj.1 h ▸ hrunning

theorem exitRunning_of_tailMachine {G : Machine.Guard System Action}
    (hs : tailMachine.Reachable G s) : s.exitRunning = true := by
  refine (hs.invariant (I := fun s => WellFormed s ∧ s.exitRunning = true) ?_ ?_).2
  · rintro _ rfl
    exact ⟨wellFormed_start, rfl⟩
  · rintro s a s' ⟨hwf, hrunning⟩ - ⟨s₁, htakes, hstep⟩
    have hwf₁ := (htakes.seen_eq hwf).1
    exact ⟨(step_simulates hwf₁ hstep).1, exitRunning_step hwf₁ (htakes.exitRunning ▸ hrunning) hstep⟩

/-! ### Isolation -/

/-- A stream id is drawn only when no BEGIN of it is on its way, the relay has no socket under
    it, and no DATA of it is on its way back. -/
def DrawsApart : Machine.Guard System Action
  | s, .connect addr memory msg => KeepsApart s (.connect addr memory msg)
  | _, _ => True

/-- What was pushed to a stream comes from the socket that was opened for it, as many bytes as
    were read from it. The end relay writes them one byte too far, so that the first one is not
    one of them. -/
def Separated (s : System) : Prop :=
  ∀ push ∈ s.pushes, push.socket = push.stream ∧ push.bytes.length = push.read.length ∧
    (push.bytes.take certainSize).tail = push.read.dropLast.take (certainSize - 1)

/-- What is seen of data, when it is what the end relay makes of what it has read. -/
def IsShifted (payload : ℕ × List UInt8 × List UInt8) : Prop :=
  payload.1 = payload.2.2.length ∧
    payload.2.1.tail = payload.2.2.dropLast.take (certainSize - 1)

theorem isShifted_view {b : UInt8} {data : List UInt8} (hne : data ≠ []) :
    IsShifted (view (b :: data.dropLast, data)) := by
  refine ⟨?_, rfl⟩
  show (b :: data.dropLast).length = data.length
  rw [List.length_cons, List.length_dropLast, Nat.sub_add_cancel (List.length_pos_iff.2 hne)]

theorem freshIds_of_drawsApart {e : Event UInt16 ℕ (List UInt8 × List UInt8)}
    (hwf : WellFormed s) (hguard : DrawsApart s a) (he : Event.Of s a e) :
    Isolation.FreshIds (seen s) (e.mapPayload view) := by
  cases he with
  | @connect addr memory msg drawn hdrawn =>
    have hkeeps : KeepsApart s (.connect addr memory msg) := hguard
    have hfresh := freshIds_of_keepsApart hwf hkeeps (.connect hdrawn)
    rintro name (hmem | hmem | ⟨payload, hmem⟩)
    · exact hfresh name (.inl hmem)
    · exact hfresh name (.inr (.inl hmem))
    · exact hfresh name (.inr (.inr (data_mem_mapPayload hmem)))
  | _ => trivial

theorem sends_isShifted {e : Event UInt16 ℕ (List UInt8 × List UInt8)} (he : Event.Of s a e) :
    Payloads.Sends IsShifted (seen s) (e.mapPayload view) := by
  cases he with
  | socketData hne hdata => exact isShifted_view hne
  | _ => trivial

theorem separated_of_reachable (hs : tailMachine.Reachable DrawsApart s) : Separated s := by
  have hfresh := seen_of_reachable (fun _ _ _ => freshIds_of_drawsApart) hs
  have hsends := seen_of_reachable (H := Payloads.Sends IsShifted)
    (fun _ _ _ _ _ => sends_isShifted) hs
  intro push hpush
  have hmem : (push.stream, push.socket, view (push.bytes, push.read)) ∈ (seen s).pushes := by
    exact List.mem_map.2 ⟨_, List.mem_map.2 ⟨push, hpush, rfl⟩, rfl⟩
  exact ⟨(Isolation.invariant_of_reachable hfresh).pushes _ hmem,
    (Payloads.invariant_of_reachable hsends).pushes _ hmem⟩

/-! ### Agreement -/

theorem calm_seen {e : Event UInt16 ℕ (List UInt8 × List UInt8)} (hwf : WellFormed s)
    (hguard : Calm s a) (he : Event.Of s a e) : Agreement.Calm (seen s) (e.mapPayload view) := by
  have hcalm := calm_of_calm hwf hguard he
  cases he with
  | connect hdrawn =>
    obtain ⟨hlane, hexit, hclose⟩ := hcalm
    exact ⟨hlane, hexit, fun hmem => hclose (close_mem_mapPayload hmem)⟩
  | @deliver _ _ _ succeeds _ =>
    cases succeeds with
    | true => trivial
    | false => exact hcalm
  | _ => trivial

theorem agrees_of_reachable (hs : tailMachine.Reachable Calm s) : Agrees s := by
  have hcalm := seen_of_reachable (fun _ _ _ => calm_seen) hs
  intro htoExit htoClient
  ext id
  have hiff := Agreement.client_eq_zero_iff hcalm (congrArg (List.map Packet.toExit) htoExit)
    (congrArg (fun l => (List.map Packet.toClient l).map _) htoClient) id
  rw [show (seen s).client id = _ from abs_client s id, Multiset.map_eq_zero] at hiff
  rw [mem_filledIds, mem_filledIds]
  exact not_congr hiff

/-! ### Survival -/

/-- A stream is closed only when no DATA of it is on its way to the client. Data is read from a
    socket only when the client has its stream, and no END of it is on its way. -/
def ClosesInTime : Machine.Guard System Action
  | s, .close id msg => Timely s (.close id msg)
  | s, .internetEvent id data buffer => Timely s (.internetEvent id data buffer)
  | _, _ => True

theorem timely_seen {e : Event UInt16 ℕ (List UInt8 × List UInt8)} (hwf : WellFormed s)
    (hguard : ClosesInTime s a) (he : Event.Of s a e) :
    Survival.Timely (seen s) (e.mapPayload view) := by
  cases he with
  | @close id msg =>
    have hclose : Timely s (.close id msg) := hguard
    have htimely := timely_of_timely hwf hclose .close
    intro source payload hmem
    obtain ⟨payload', hmem'⟩ := data_mem_mapPayload hmem
    exact htimely source payload' hmem'
  | @socketData id data buffer hne hdata =>
    have hread : Timely s (.internetEvent id data buffer) := hguard
    have htimely := timely_of_timely hwf hread (.socketData hne hdata)
    exact ⟨htimely.1, fun hmem => htimely.2 (close_mem_mapPayload hmem)⟩
  | _ => trivial

theorem running_of_reachable (hs : tailMachine.Reachable ClosesInTime s) :
    s.clientRunning = true :=
  (Survival.invariant_of_reachable (seen_of_reachable (fun _ _ _ => timely_seen) hs)).running

end OnionRouter.Streams
