import OnionRouter.Lib.History
import OnionRouter.Streams.Tails

/-!
# Cells with other tails

Systems of a client and an end relay that differ only in the tails of the cells on their way. As
long as the data of the cells stays in front of the tails, the two ends do the same in both.

* `Resembles.step`: a step of one system is a step of the other.
* `IgnoresTails`: the guards that allow the same steps in both.
-/

namespace OnionRouter.Streams

open Lib Memory Net Protocol

/-! ## Handlers -/

/-- What the end relay does with a cell, but for the tail of its reply. -/
structure Alike (o o' : Relay.Outcome) : Prop where
  returned : o'.returned = o.returned
  map : o'.map = o.map
  reply : Option.Rel SameHead o.reply o'.reply
  offered : o'.offered = o.offered

/-- What is pushed to a stream is the data of the cell. -/
theorem pushed_handleRelayMsg (map : StreamHashmap) (m : Memory UInt8) :
    ∀ pushed ∈ (Client.handleRelayMsg map m).pushed, pushed.2 = dataSpan m := by
  intro pushed hpushed
  rw [Client.handleRelayMsg] at hpushed
  split_ifs at hpushed
  · rw [Client.handleRelayRelayMsg] at hpushed
    split_ifs at hpushed
    · cases hpushed
    · cases hpushed
    · cases hfind : socketHashmapFind map (get16 m streamIdOffset) with
      | none =>
        simp only [hfind] at hpushed
        cases hpushed
      | some found =>
        simp only [hfind] at hpushed
        exact Option.some_inj.1 hpushed ▸ rfl
    · cases hpushed
  · cases hpushed

namespace SameHead

variable {m m' : Memory UInt8} {id : UInt16}

theorem write (h : SameHead m m') (stores : Stores) :
    SameHead (stores.write m) (stores.write m') := by
  induction stores generalizing m m' with
  | nil => exact h
  | cons store stores ih =>
    refine ih fun a ha => ?_
    show (if _ then _ else _) = if _ then _ else _
    rw [h a ha]

/-- The client does not look at the tail, if there is no data in it. -/
theorem handleRelayMsg_eq (h : SameHead m m') (hshort : (dataSpan m').length ≤ certainSize)
    (map : StreamHashmap) : Client.handleRelayMsg map m = Client.handleRelayMsg map m' ∧
      (dataSpan m').bytes m = (dataSpan m').bytes m' := by
  have hspan : dataSpan m = dataSpan m' := by
    rw [dataSpan, dataSpan, h.get16 (show lengthOffset + 1 < tailOffset by decide)]
  have hlength : ∀ m'' : Memory UInt8, ((dataSpan m').bytes m'').length ≤ certainSize :=
    fun _ => (length_read _ _ _).trans_le hshort
  have hbytes : (dataSpan m').bytes m = (dataSpan m').bytes m' := by
    have htake := h.data_eq.2
    rwa [hspan, List.take_of_length_le (hlength m), List.take_of_length_le (hlength m')] at htake
  refine ⟨?_, hbytes⟩
  rw [Client.handleRelayMsg, Client.handleRelayMsg, Client.handleRelayRelayMsg,
    Client.handleRelayRelayMsg, h cmdOffset (by decide), h relayCmdOffset (by decide),
    h.get16 (show streamIdOffset + 1 < tailOffset by decide), hspan, hbytes]

theorem alike_replyEnd (h : SameHead m m') (map : SocketHashmap) (reason : EndReason) :
    Alike (Relay.replyEnd map m id reason) (Relay.replyEnd map m' id reason) :=
  ⟨rfl, rfl, .some (h.write _), rfl⟩

/-- Nor does the end relay, which sends it back. -/
theorem handleClientMsg_alike (h : SameHead m m') (map : SocketHashmap)
    (connectServer : List UInt8 → Option ℕ) (sent : Bool) :
    Alike (Relay.handleClientMsg map m connectServer sent)
      (Relay.handleClientMsg map m' connectServer sent) := by
  have hid := h.get16 (show streamIdOffset + 1 < tailOffset by decide)
  have hspan : dataSpan m = dataSpan m' := by
    rw [dataSpan, dataSpan, h.get16 (show lengthOffset + 1 < tailOffset by decide)]
  rw [Relay.handleClientMsg, Relay.handleClientMsg, h cmdOffset (by decide),
    h relayCmdOffset (by decide)]
  split_ifs
  · exact ⟨rfl, rfl, .none, rfl⟩
  · exact ⟨rfl, rfl, .some h, rfl⟩
  · exact ⟨rfl, rfl, .none, rfl⟩
  · have haddr : m.read relayDataOffset sockAddrSize = m'.read relayDataOffset sockAddrSize :=
      read_congr _ _ _ fun i hi => h _ ((Nat.add_lt_add_left hi _).trans (by decide))
    rw [Relay.handleRelayBegin, Relay.handleRelayBegin, hid, haddr]
    cases connectServer (m'.read relayDataOffset sockAddrSize) with
    | none => exact h.alike_replyEnd map _
    | some sockFd =>
      cases hinsert : socketHashmapInsert map (Protocol.get16 m' streamIdOffset) sockFd with
      | none =>
        simp only [hinsert]
        exact h.alike_replyEnd map _
      | some map' =>
        simp only [hinsert]
        exact ⟨rfl, rfl, .some (h.write _), rfl⟩
  · rw [Relay.handleRelayEnd, Relay.handleRelayEnd, hid]
    cases socketHashmapFind map (Protocol.get16 m' streamIdOffset) with
    | none => exact h.alike_replyEnd map _
    | some found => exact h.alike_replyEnd _ _
  · rw [Relay.handleRelayData, Relay.handleRelayData, hid, hspan]
    cases socketHashmapFind map (Protocol.get16 m' streamIdOffset) with
    | none => exact h.alike_replyEnd map _
    | some found =>
      cases sent with
      | true => exact ⟨rfl, rfl, .none, rfl⟩
      | false => exact ⟨rfl, rfl, .some (h.write _), rfl⟩
  · exact ⟨rfl, rfl, .none, rfl⟩

end SameHead

/-! ## Packets -/

namespace Arrived

variable {p p' p'' : Packet}

theorem refl (p : Packet) : Arrived p p := ⟨rfl, rfl, rfl⟩

theorem trans (h : Arrived p p') (h' : Arrived p' p'') : Arrived p p'' :=
  ⟨h'.cell.trans h.cell, h'.connect.trans h.connect, h'.read.trans h.read⟩

theorem ofBuffer {m m' : Memory UInt8} (h : SameHead m m') (connect : ℕ) (read : List UInt8) :
    Arrived (.ofBuffer m connect read) (.ofBuffer m' connect read) := by
  refine ⟨?_, rfl, rfl⟩
  show (m'.read 0 torMsgSize).take tailOffset = (m.read 0 torMsgSize).take tailOffset
  rw [take_read_min, take_read_min]
  refine read_congr _ _ _ fun i hi => ?_
  rw [Nat.zero_add]
  exact (h i (hi.trans_le (Nat.min_le_left _ _))).symm

theorem is_iff (h : Arrived p p') {cmd : RelayCommand} {id : UInt16} :
    p'.Is cmd id ↔ p.Is cmd id := by
  have hhead := h.sameHead fun _ => 0
  exact ⟨fun hcell => SameHead.isRelayCell (fun a ha => (hhead a ha).symm) hcell, hhead.isRelayCell⟩

theorem streamId_eq (h : Arrived p p') : p'.streamId = p.streamId :=
  (h.sameHead fun _ => 0).get16 (by decide)

theorem of_iff (h : Arrived p p') {id : UInt16} : p'.Of id ↔ p.Of id := by
  rw [Packet.Of, Packet.Of, h.streamId_eq, h.sameHead (fun _ => 0) cmdOffset (by decide)]

end Arrived

/-! ## Systems -/

/-- Two systems that differ only in the tails of the cells on their way. -/
structure Resembles (s s' : System) : Prop where
  toExit : List.Forall₂ Arrived s.toExit s'.toExit
  toClient : List.Forall₂ Arrived s.toClient s'.toClient
  rest : s' = { s with toExit := s'.toExit, toClient := s'.toClient }

/-- The data of a cell that the client receives is not in the tail. -/
def Short : Machine.Guard System Action
  | s, .clientRecv buffer =>
    ∀ p ∈ s.toClient.head?, (dataSpan (p.receive buffer)).length ≤ certainSize
  | _, _ => True

instance : ∀ s a, Decidable (Short s a)
  | _, .clientRecv _ => inferInstanceAs (Decidable (∀ p ∈ List.head? _, _))
  | _, .connect _ _ _ | _, .close _ _ | _, .send _ _ _ | _, .recv _ _ | _, .ping _
  | _, .exitRecv _ _ _ | _, .internetEvent _ _ _ => .isTrue trivial

namespace Resembles

variable {s s' s'' s₁ : System} {a : Action}

theorem refl (s : System) : Resembles s s :=
  ⟨List.forall₂_same.2 fun p _ => .refl p, List.forall₂_same.2 fun p _ => .refl p, rfl⟩

theorem queues (h : Resembles s s') : ∃ l l', List.Forall₂ Arrived s.toExit l ∧
    List.Forall₂ Arrived s.toClient l' ∧ s' = { s with toExit := l, toClient := l' } :=
  ⟨_, _, h.toExit, h.toClient, h.rest⟩

theorem client_eq (h : Resembles s s') : s'.client = s.client := by
  rw [h.rest]

theorem pushes_eq (h : Resembles s s') : s'.pushes = s.pushes := by
  rw [h.rest]

theorem takes (h : Resembles s s') (htakes : Takes s' a s'') : Resembles s s'' := by
  cases a with
  | exitRecv buffer connected sent =>
    obtain ⟨p, p', l, hqueue, harrived, rfl⟩ := htakes
    have htoExit := h.toExit
    rw [hqueue] at htoExit
    obtain ⟨q, u, hq, hu, heq⟩ := List.forall₂_cons_right_iff.1 htoExit
    refine ⟨?_, h.toClient, congrArg (fun s : System => { s with toExit := p' :: l }) h.rest⟩
    rw [heq]
    exact .cons (hq.trans harrived) hu
  | clientRecv buffer =>
    obtain ⟨p, p', l, hqueue, harrived, rfl⟩ := htakes
    have htoClient := h.toClient
    rw [hqueue] at htoClient
    obtain ⟨q, u, hq, hu, heq⟩ := List.forall₂_cons_right_iff.1 htoClient
    refine ⟨h.toExit, ?_, congrArg (fun s : System => { s with toClient := p' :: l }) h.rest⟩
    rw [heq]
    exact .cons (hq.trans harrived) hu
  | _ =>
    obtain rfl : s'' = s' := htakes
    exact h

theorem exitDoes (h : Resembles s s') {o o' : Relay.Outcome} (ho : Alike o o') (socket : ℕ)
    (read : List UInt8) : Resembles (s.exitDoes o socket read) (s'.exitDoes o' socket read) := by
  obtain ⟨l, l', hl, hl', rfl⟩ := h.queues
  have hreplies : List.Forall₂ Arrived (o.reply.map fun m => Packet.ofBuffer m socket read).toList
      (o'.reply.map fun m => Packet.ofBuffer m socket read).toList := by
    have hreply := ho.reply
    generalize o.reply = reply at hreply
    generalize o'.reply = reply' at hreply
    cases hreply with
    | none => exact .nil
    | some hreply => exact .cons (.ofBuffer hreply _ _) .nil
  refine ⟨hl, List.rel_append hl' hreplies, ?_⟩
  rw [System.exitDoes, System.exitDoes, ho.map, ho.returned]

/-- The two ends do the same. By cases on the action. -/
theorem step (h : Resembles s s') (hshort : Short s a) (hstep : s.step a = some s₁) :
    ∃ s₁', s'.step a = some s₁' ∧ Resembles s₁ s₁' := by
  obtain ⟨l, l', hl, hl', rfl⟩ := h.queues
  have hsent : ∀ new : List Packet, List.Forall₂ Arrived (s.toExit ++ new) (l ++ new) :=
    fun new => List.rel_append hl (List.forall₂_same.2 fun p _ => .refl p)
  cases a with
  | connect addr memory msg =>
    obtain ⟨hrunning, hstep⟩ := Option.ite_none_right_eq_some.1 hstep
    obtain ⟨drawn, hdrawn, hstep⟩ := Option.bind_eq_some_iff.1 hstep
    obtain rfl := Option.some_inj.1 hstep
    exact ⟨_, (if_pos hrunning).trans (Option.bind_eq_some_iff.2 ⟨drawn, hdrawn, rfl⟩),
      hsent _, hl', rfl⟩
  | exitRecv buffer connected sent =>
    obtain ⟨hrunning, hstep⟩ := Option.ite_none_right_eq_some.1 hstep
    obtain ⟨p, toExit, hqueue, rfl⟩ := System.exitStep_exitRecv hstep
    rw [hqueue] at hl
    obtain ⟨p', u, hp, hu, rfl⟩ := List.forall₂_cons_left_iff.1 hl
    refine ⟨_, (if_pos hrunning).trans rfl, ?_⟩
    rw [hp.connect]
    have hrest : Resembles { s with toExit := toExit } { s with toExit := u, toClient := l' } :=
      ⟨hu, hl', rfl⟩
    refine hrest.exitDoes (SameHead.handleClientMsg_alike (fun a ha => ?_) _ _ _) _ _
    exact (hp.sameHead buffer a ha).symm
  | internetEvent id data buffer =>
    obtain ⟨hrunning, hstep⟩ := Option.ite_none_right_eq_some.1 hstep
    obtain ⟨found, hdata, hfind, rfl⟩ := System.exitStep_internetEvent hstep
    refine ⟨_, (if_pos hrunning).trans ?_, h.exitDoes ⟨rfl, rfl, ?_, rfl⟩ _ _⟩
    · simp only [System.exitStep, if_pos hdata, hfind]
    · cases (Relay.handleInternetEvent s.exit buffer id data).reply with
      | none => exact .none
      | some m => exact .some fun _ _ => rfl
  | clientRecv buffer =>
    obtain ⟨hrunning, hstep⟩ := Option.ite_none_right_eq_some.1 hstep
    obtain ⟨p, toClient, map, hqueue, hmap, rfl⟩ := System.clientStep_clientRecv hstep
    have hlength := hshort p (hqueue ▸ rfl)
    rw [hqueue] at hl'
    obtain ⟨p', u, hp, hu, rfl⟩ := List.forall₂_cons_left_iff.1 hl'
    obtain ⟨hsame, hbytes⟩ := (hp.sameHead buffer).handleRelayMsg_eq hlength s.client
    refine ⟨_, (if_pos hrunning).trans
      (Option.bind_eq_some_iff.2 ⟨map, (congrArg _ hsame).trans hmap, rfl⟩), hl, hu, ?_⟩
    have hpushed : ∀ pushed ∈ (Client.handleRelayMsg s.client (p.receive buffer)).pushed,
        pushed.2.bytes (p'.receive buffer) = pushed.2.bytes (p.receive buffer) :=
      fun pushed hmem => pushed_handleRelayMsg s.client _ pushed hmem ▸ hbytes
    have hpushes : ((Client.handleRelayMsg s.client (p'.receive buffer)).pushed.map fun pushed =>
        (⟨pushed.1.connect, p'.connect, pushed.2.bytes (p'.receive buffer), p'.read⟩ : Push)) =
        (Client.handleRelayMsg s.client (p.receive buffer)).pushed.map fun pushed =>
          ⟨pushed.1.connect, p.connect, pushed.2.bytes (p.receive buffer), p.read⟩ := by
      rw [hsame, hp.connect, hp.read]
      exact Option.map_congr fun pushed hmem => by rw [hpushed pushed hmem]
    rw [hpushes, hsame]
  | recv id length =>
    obtain ⟨hrunning, hstep⟩ := Option.ite_none_right_eq_some.1 hstep
    obtain rfl := Option.some_inj.1 hstep
    exact ⟨_, (if_pos hrunning).trans rfl, hl, hl', rfl⟩
  | _ =>
    obtain ⟨hrunning, hstep⟩ := Option.ite_none_right_eq_some.1 hstep
    obtain rfl := Option.some_inj.1 hstep
    exact ⟨_, (if_pos hrunning).trans rfl, hsent _, hl', rfl⟩

theorem mem_toExit (h : Resembles s s') {p' : Packet} (hp' : p' ∈ s'.toExit) :
    ∃ p ∈ s.toExit, Arrived p p' := by
  obtain ⟨i, hi, rfl⟩ := List.getElem_of_mem hp'
  have hi' : i < s.toExit.length := h.toExit.length_eq ▸ hi
  exact ⟨_, List.getElem_mem hi', h.toExit.get hi' hi⟩

theorem mem_toClient (h : Resembles s s') {p' : Packet} (hp' : p' ∈ s'.toClient) :
    ∃ p ∈ s.toClient, Arrived p p' := by
  obtain ⟨i, hi, rfl⟩ := List.getElem_of_mem hp'
  have hi' : i < s.toClient.length := h.toClient.length_eq ▸ hi
  exact ⟨_, List.getElem_mem hi', h.toClient.get hi' hi⟩

end Resembles

/-! ## Guards -/

/-- A guard that does not look at the tails of cells. -/
def IgnoresTails (G : Machine.Guard System Action) : Prop :=
  ∀ s s' a, Resembles s s' → G s a → G s' a

/-- The actions that a guard allows, with short data. -/
def WithShort (G : Machine.Guard System Action) : Machine.Guard System Action :=
  fun s a => G s a ∧ Short s a

instance {G : Machine.Guard System Action} [∀ s a, Decidable (G s a)] :
    ∀ s a, Decidable (WithShort G s a) :=
  fun _ _ => inferInstanceAs (Decidable (_ ∧ _))

instance : ∀ s a, Decidable (DrawsApart s a)
  | s, .connect addr memory msg =>
    inferInstanceAs (Decidable (KeepsApart s (.connect addr memory msg)))
  | _, .close _ _ | _, .send _ _ _ | _, .recv _ _ | _, .ping _ | _, .exitRecv _ _ _
  | _, .internetEvent _ _ _ | _, .clientRecv _ => .isTrue trivial

instance : ∀ s a, Decidable (ClosesInTime s a)
  | s, .close id msg => inferInstanceAs (Decidable (Timely s (.close id msg)))
  | s, .internetEvent id data buffer =>
    inferInstanceAs (Decidable (Timely s (.internetEvent id data buffer)))
  | _, .connect _ _ _ | _, .send _ _ _ | _, .recv _ _ | _, .ping _ | _, .exitRecv _ _ _
  | _, .clientRecv _ => .isTrue trivial

theorem ignoresTails_drawsApart : IgnoresTails DrawsApart := by
  intro s s' a h hguard
  cases a with
  | connect addr memory msg =>
    obtain ⟨l, l', -, -, heq⟩ := h.queues
    intro drawn hdrawn
    rw [heq] at hdrawn ⊢
    obtain ⟨hbegin, hexit, hdata⟩ := hguard drawn hdrawn
    refine ⟨fun p' hp' his => ?_, hexit, fun p' hp' his => ?_⟩
    · obtain ⟨p, hp, harrived⟩ := h.mem_toExit (heq ▸ hp')
      exact hbegin p hp (harrived.is_iff.1 his)
    · obtain ⟨p, hp, harrived⟩ := h.mem_toClient (heq ▸ hp')
      exact hdata p hp (harrived.is_iff.1 his)
  | _ => trivial

theorem ignoresTails_calm : IgnoresTails Calm := by
  intro s s' a h hguard
  obtain ⟨l, l', hl, -, heq⟩ := h.queues
  cases a with
  | connect addr memory msg =>
    intro drawn hdrawn
    rw [heq] at hdrawn ⊢
    obtain ⟨htoExit, hexit, hend⟩ := hguard drawn hdrawn
    refine ⟨fun p' hp' hof => ?_, hexit, fun p' hp' his => ?_⟩
    · obtain ⟨p, hp, harrived⟩ := h.mem_toExit (heq ▸ hp')
      exact htoExit p hp (harrived.of_iff.1 hof)
    · obtain ⟨p, hp, harrived⟩ := h.mem_toClient (heq ▸ hp')
      exact hend p hp (harrived.is_iff.1 his)
  | exitRecv buffer connected sent =>
    intro hsent p' hp' hdata hexit
    rw [heq] at hp' hexit ⊢
    obtain ⟨u, rfl⟩ := List.head?_eq_some_iff.1 hp'
    obtain ⟨p, v, harrived, -, hqueue⟩ := List.forall₂_cons_right_iff.1 hl
    rw [harrived.streamId_eq] at hdata hexit ⊢
    exact hguard hsent p (hqueue ▸ rfl) (harrived.is_iff.1 hdata) hexit
  | _ => trivial

theorem ignoresTails_closesInTime : IgnoresTails ClosesInTime := by
  intro s s' a h hguard
  obtain ⟨l, l', -, -, heq⟩ := h.queues
  cases a with
  | close id msg =>
    intro p' hp' his
    obtain ⟨p, hp, harrived⟩ := h.mem_toClient hp'
    exact hguard p hp (harrived.is_iff.1 his)
  | internetEvent id data buffer =>
    intro hne
    obtain ⟨hfind, hend⟩ := hguard hne
    refine ⟨heq ▸ hfind, fun p' hp' his => ?_⟩
    obtain ⟨p, hp, harrived⟩ := h.mem_toClient hp'
    exact hend p hp (harrived.is_iff.1 his)
  | _ => trivial

end OnionRouter.Streams
