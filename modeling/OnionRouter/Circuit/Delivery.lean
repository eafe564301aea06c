import OnionRouter.Circuit.Traffic
import OnionRouter.Lib.History
import OnionRouter.Streams.Resembling

/-!
# What a circuit does for its ends

The client and the end relay of a circuit, in every run over the relays in the middle.

* `circuit_carries`: the parties build a circuit over which every run is one of the two ends,
  joined by queues that lose nothing but the tails of cells.
* `cells_arrive`: the relays bring all cells to the ends, in whatever order they go on.
* `exists_over_circuit`: what the ends do over queues, they can do over every circuit.
-/

namespace OnionRouter.Circuit

open Client Crypto Directory Lib Net Protocol Relay Streams

variable {ι : Type} {gmp : Gmp} {dh : DhGlobals} {net : Network ι} {K : Keys}

/-! ## A small circuit -/

/-- A key of zeros. -/
def zeroKey : KeyData := initKey (genDhPrimeIdentityKey natGmp ⟨23, 5⟩ 7)

/-- Two relays, whose keys are all zeros. -/
def zeroCircuit : Circuit.System Bool where
  client := {
    waiting := .returned .success
    idKey := zeroKey.identity
    onionKeys := [zeroKey, zeroKey]
    tlsKey := zeroKey
    relays := ⟨[], Nat.zero_le _⟩
    curRelays := 2
    buffer := [] }
  sessions := [⟨false, { initRelaySession zeroKey.identity [] with waiting := .middle }⟩,
    ⟨true, { initRelaySession zeroKey.identity [] with waiting := .role }⟩]
  queues _ := []

def zeroKeys : Keys := ⟨1, fun _ => zeroKey.symmetricKey, fun _ => zeroKey.symmetricKey⟩

theorem ready_zeroCircuit : Ready zeroKeys zeroCircuit where
  layers := rfl
  tlsKey := rfl
  length := rfl
  middle i hi served hserved := by
    obtain rfl := Nat.lt_one_iff.1 hi
    obtain rfl := Option.some.inj hserved
    exact ⟨rfl, rfl⟩
  last served hserved := by
    obtain rfl := Option.some.inj hserved
    exact ⟨.inl rfl, rfl, rfl⟩
  queues _ := rfl

/-- The runs over it. -/
abbrev zeroTraffic : Machine (Traffic Bool) TrafficEvent :=
  trafficMachine natGmp ⟨23, 5⟩ twoRelays zeroCircuit

/-- The end relay receives a cell that has arrived, and handles it. -/
theorem Traffic.InUse.exists_recvAtExit {t : Traffic ι} (h : t.InUse K) (hwf : WellFormed t.ends)
    (hqueue : t.circuit.queues (.toSession K.middle) ≠ []) (buffer : Memory UInt8)
    (connected sent : Bool) : ∃ t₁, t.recv net (.exitRecv buffer connected sent) = some t₁ := by
  obtain ⟨got, rest, hgot⟩ := List.exists_cons_of_ne_nil hqueue
  obtain ⟨p, l, htoExit, rfl⟩ := h.out.head hgot
  have hlt : K.middle < t.circuit.sessions.length := h.keyed.length ▸ K.middle.lt_succ_self
  have hserved := List.getElem?_eq_getElem hlt
  obtain ⟨hwaiting, honion, hlink⟩ := h.keyed.last _ hserved
  obtain ⟨session, hrecv, -⟩ := recvAtExit_outward (fun addr => (net.listen addr).isSome) hwaiting
    honion hlink (hwf.toExit p (htoExit ▸ List.mem_cons_self)) (buffer.read 0 torMsgSize)
  have hexit : t.exit = K.middle := h.keyed.exit t.ends
  refine Option.isSome_iff_exists.1 ?_
  simp [Traffic.recv, hexit, hgot, hserved, hrecv]

theorem Traffic.InUse.exists_exitRecv {t : Traffic ι} (h : t.InUse K) (hwf : WellFormed t.ends)
    (hrunning : t.ends.exitRunning = true) (hqueue : t.circuit.queues (.toSession K.middle) ≠ [])
    (buffer : Memory UInt8) (connected sent : Bool) :
    (t.step gmp dh net (.ends (.exitRecv buffer connected sent))).isSome := by
  obtain ⟨t₁, hrecv⟩ : ∃ t₁, t.recv net (.exitRecv buffer connected sent) = some t₁ :=
    h.exists_recvAtExit hwf hqueue buffer connected sent
  obtain ⟨p, p', l, -, -, hends⟩ := (h.recv hwf hrecv).1
  simp [Traffic.step, hrecv, hends, Streams.System.step, Streams.System.exitStep, hrunning]

/-! ## Arrivals -/

/-- What comes of a cell. -/
structure Comes (K : Keys) (p : Packet) (cell : List UInt8) : Prop where
  take : cell.take tailOffset = p.cell.take tailOffset
  eq_iff : cell = p.cell ↔ TailSurvives K.all (p.cell.drop tailOffset)

theorem comes_arriving (p : Packet) : Comes K p (K.arriving p) where
  take := take_unwrap_wrap_onion _ p.length_cell
  eq_iff := unwrap_wrap_onion_eq_iff _ p.length_cell

/-- All cells that were sent wait at the two ends, in order. -/
structure Arrivals (K : Keys) (t : Traffic ι) : Prop where
  exit : List.Forall₂ (fun got p => ∀ buffer, ∃ cell, Comes K p cell ∧
    Relay.recvTorBuffer (some (K.link K.middle)) (some (K.onion K.middle)) true buffer got = some cell)
    (t.circuit.queues (.toSession K.middle)) t.ends.toExit
  client : List.Forall₂ (fun got p => ∀ buffer, ∃ cell, Comes K p cell ∧
    Client.recvTorBuffer (some (K.link 0)) K.all buffer got = some cell)
    (t.circuit.queues (.fromSession 0)) t.ends.toClient
  quiet : ∀ k < K.middle, t.circuit.queues (.toSession k) = [] ∧
    t.circuit.queues (.fromSession (k + 1)) = []

section Arriving

variable {t : Traffic ι}

theorem Traffic.InUse.arrivals (h : t.InUse K)
    (hquiet : ∀ k < K.middle, t.circuit.queues (.toSession k) = [] ∧
      t.circuit.queues (.fromSession (k + 1)) = []) : Arrivals K t := by
  have hout := h.out.of_nil fun k hk => (hquiet k hk).1
  have hback := h.back.of_nil fun k hk => by
    rw [backQueue, show K.middle - k = K.middle - k - 1 + 1 by omega]
    exact (hquiet _ (by omega)).2
  rw [outQueue] at hout
  rw [backQueue, Nat.sub_self] at hback
  refine ⟨?_, ?_, hquiet⟩
  · rw [hout, List.forall₂_map_left_iff, List.forall₂_same]
    intro p _ buffer
    refine ⟨_, comes_arriving p, ?_⟩
    rw [Keys.outwardMessage, recvTorBuffer_of_client _ _ _ (Keys.header_outward p _).1,
      ← Keys.outward_succ, Keys.outward_succ_middle]
  · rw [hback, List.forall₂_map_left_iff, List.forall₂_same]
    intro p _ buffer
    refine ⟨_, comes_arriving p, ?_⟩
    rw [Keys.inwardMessage, clientRecvTorBuffer_of_link _ _ _ (Keys.length_inward p 0),
      Keys.inward_zero]
    rfl

/-- When all cells have been received, no message is on its way. -/
theorem Traffic.InUse.queues_eq_nil (h : t.InUse K) (htoExit : t.ends.toExit = [])
    (htoClient : t.ends.toClient = []) {k : ℕ} (hk : k ≤ K.middle) :
    t.circuit.queues (.toSession k) = [] ∧ t.circuit.queues (.fromSession k) = [] := by
  have hout := h.out
  have hback := h.back
  rw [htoExit] at hout
  rw [htoClient] at hback
  refine ⟨Pipeline.Carries.queue_eq_nil hout hk, ?_⟩
  have hqueue := Pipeline.Carries.queue_eq_nil hback (Nat.sub_le K.middle k)
  rwa [backQueue, Nat.sub_sub_self hk] at hqueue

variable (gmp dh net)

/-- The steps of the relays in the middle. -/
def Traffic.relayStep (t : Traffic ι) : TrafficEvent → Option (Traffic ι)
  | .ends _ => none
  | e => t.step gmp dh net e

/-- What the relays in the middle do while the ends do nothing. -/
def relaysMachine (t : Traffic ι) : Machine (Traffic ι) TrafficEvent :=
  .ofFun {t} (Traffic.relayStep gmp dh net)

variable {gmp dh net}

theorem Traffic.step_of_relayStep {t' : Traffic ι} {e : TrafficEvent}
    (h : t.relayStep gmp dh net e = some t') :
    (∀ a, e ≠ .ends a) ∧ t.step gmp dh net e = some t' := by
  cases e with
  | ends a => cases h
  | last i locals => exact ⟨fun _ heq => (TrafficEvent.noConfusion heq), h⟩
  | next i locals => exact ⟨fun _ heq => (TrafficEvent.noConfusion heq), h⟩

/-- A relay with a message to read goes on. -/
theorem Traffic.InUse.exists_last (h : t.InUse K) {k : ℕ} (hk : k < K.middle)
    (hqueue : t.circuit.queues (.toSession k) ≠ []) :
    ∃ t', t.relayStep gmp dh net (.last k default) = some t' := by
  obtain ⟨got, rest, hgot⟩ := List.exists_cons_of_ne_nil hqueue
  have hlt : k < t.circuit.sessions.length := h.keyed.length ▸ hk.trans K.middle.lt_succ_self
  have hserved := List.getElem?_eq_getElem hlt
  obtain ⟨hwaiting, -⟩ := h.keyed.middle k hk _ hserved
  have hexit : t.exit = K.middle := h.keyed.exit t.ends
  refine Option.isSome_iff_exists.1 ?_
  simp [Traffic.relayStep, Traffic.step, System.step, hexit, hk, hgot, hserved,
    RelaySession.fromLast, hwaiting]

theorem Traffic.InUse.exists_next (h : t.InUse K) {k : ℕ} (hk : k < K.middle)
    (hqueue : t.circuit.queues (.fromSession (k + 1)) ≠ []) :
    ∃ t', t.relayStep gmp dh net (.next k default) = some t' := by
  obtain ⟨got, rest, hgot⟩ := List.exists_cons_of_ne_nil hqueue
  have hlt : k < t.circuit.sessions.length := h.keyed.length ▸ hk.trans K.middle.lt_succ_self
  have hserved := List.getElem?_eq_getElem hlt
  obtain ⟨hwaiting, -⟩ := h.keyed.middle k hk _ hserved
  refine Option.isSome_iff_exists.1 ?_
  simp [Traffic.relayStep, Traffic.step, System.step, hgot, hserved, RelaySession.fromNext, hwaiting]

/-- The relays bring all cells to the ends: no message stays in the circuit, whatever the order
    in which they go on. -/
theorem inevitable_arrivals {init : Set (Traffic ι)} (h : t.InUse K) (hwf : WellFormed t.ends) :
    (Machine.ofFun init (Traffic.relayStep gmp dh net)).Inevitable
      (fun t' => t'.ends = t.ends ∧ Arrivals K t') t := by
  refine .of_rank (I := fun t' => t'.InUse K ∧ t'.ends = t.ends)
    (fun t' => remaining K t'.circuit.queues) ?_ ?_ ⟨h, rfl⟩
  · rintro t' ⟨huse, hends⟩ hnot
    by_contra hnone
    push Not at hnone
    refine hnot ⟨hends, huse.arrivals fun k hk => ⟨?_, ?_⟩⟩
    · by_contra hqueue
      obtain ⟨t'', hstep⟩ : ∃ t'', t'.relayStep gmp dh net (.last k default) = some t'' :=
        huse.exists_last hk hqueue
      exact hnone _ t'' hstep
    · by_contra hqueue
      obtain ⟨t'', hstep⟩ : ∃ t'', t'.relayStep gmp dh net (.next k default) = some t'' :=
        huse.exists_next hk hqueue
      exact hnone _ t'' hstep
  · rintro t' e t'' ⟨huse, hends⟩ hstep
    have hwf' : WellFormed t'.ends := hends ▸ hwf
    obtain ⟨hne, hstep⟩ := Traffic.step_of_relayStep hstep
    obtain ⟨huse', ⟨heq, hlt⟩ | ⟨a, s₁, ha, -⟩⟩ := huse.step hwf' hstep
    · exact ⟨⟨huse', heq.trans hends⟩, hlt⟩
    · exact absurd ha (hne a)

end Arriving

/-! ## What the ends can do -/

section Noted

variable {γ : Type} {history : List γ} (net) (note : Streams.System → Action → List γ)

/-- What is noted of the ends, with cells as they are received. -/
def noteEnds (t : Traffic ι) : TrafficEvent → List γ
  | .ends a => ((t.recv net a).map fun t => note t.ends a).getD []
  | _ => []

variable {net note} {t : Traffic ι}

theorem noteEnds_of_recv {a : Action} {t₁ : Traffic ι} (hrecv : t.recv net a = some t₁) :
    noteEnds net note t (.ends a) = note t₁.ends a := by
  rw [noteEnds, hrecv]
  rfl

variable {s₀ : Circuit.System ι} {G : Machine.Guard Streams.System Action}

/-- The relays in the middle can go on until all cells have arrived. -/
theorem exists_arrivals (hready : Ready K s₀)
    (ht : (trafficMachine gmp dh net s₀).Noted (onEnds G) (noteEnds net note) t history) :
    ∃ t', (trafficMachine gmp dh net s₀).Noted (onEnds G) (noteEnds net note) t' history ∧
      t'.ends = t.ends ∧ Arrivals K t' := by
  obtain ⟨huse, hends⟩ := inUse_of_reachable hready ht.reachable
  have harrivals : (relaysMachine gmp dh net t).Inevitable
      (fun t' => t'.ends = t.ends ∧ Arrivals K t') t :=
    inevitable_arrivals huse (wellFormed_of_tailMachine hends)
  refine harrivals.exists_of_kept ht fun t e t' ht hstep => ?_
  obtain ⟨hne, hstep⟩ := Traffic.step_of_relayStep hstep
  have hguard : onEnds G t e := by
    cases e with
    | ends a => exact absurd rfl (hne a)
    | _ => trivial
  have hnote : noteEnds net note t e = [] := by
    cases e with
    | ends a => exact absurd rfl (hne a)
    | _ => rfl
  have hnoted := ht.step hguard hstep
  rwa [hnote, List.append_nil] at hnoted

/-- When all cells have arrived, an end can receive what it could without the circuit. -/
theorem Traffic.InUse.exists_recv (h : t.InUse K) (hwf : WellFormed t.ends)
    (harrivals : Arrivals K t) {s s' : Streams.System} (hs : Resembles s t.ends) {a : Action}
    (hstep : s.step a = some s') : ∃ t₁, t.recv net a = some t₁ := by
  cases a with
  | exitRecv buffer connected sent =>
    obtain ⟨-, hstep⟩ := Option.ite_none_right_eq_some.1 hstep
    obtain ⟨p, l, hqueue, -⟩ := Streams.System.exitStep_exitRecv hstep
    refine h.exists_recvAtExit hwf (fun hnil => ?_) buffer connected sent
    have hlength := hs.toExit.length_eq.trans harrivals.exit.length_eq.symm
    rw [hqueue, hnil] at hlength
    cases hlength
  | clientRecv buffer =>
    obtain ⟨-, hstep⟩ := Option.ite_none_right_eq_some.1 hstep
    obtain ⟨p, l, map, hqueue, -, -⟩ := Streams.System.clientStep_clientRecv hstep
    have hclient := hs.toClient
    rw [hqueue] at hclient
    obtain ⟨p', l', -, -, hqueue'⟩ := List.forall₂_cons_left_iff.1 hclient
    have hwaits := harrivals.client
    rw [hqueue'] at hwaits
    obtain ⟨got, rest, hgot, -, hcell⟩ := List.forall₂_cons_right_iff.1 hwaits
    obtain ⟨cell, -, hrecv⟩ := hgot (buffer.read 0 torMsgSize)
    refine Option.isSome_iff_exists.1 ?_
    simp [Traffic.recv, hcell, h.keyed.layers, h.keyed.tlsKey, hrecv]
  | _ => exact ⟨t, rfl⟩

/-- What the ends do over queues, they can do over every circuit, as long as the data of the
    cells is not in their tails. By induction on the run; before every step, all cells are brought
    to the ends. -/
theorem exists_noted_over_circuit (hready : Ready K s₀) (hG : IgnoresTails G)
    (hnote : ∀ s s' a, WellFormed s → Resembles s s' → note s' a = note s a) {s : Streams.System}
    (hs : streamMachine.Noted (WithShort G) note s history) :
    ∃ t : Traffic ι, (trafficMachine gmp dh net s₀).Noted (onEnds G) (noteEnds net note) t history ∧
      Resembles s t.ends := by
  induction hs with
  | init h =>
    obtain rfl := Set.mem_singleton_iff.1 h
    exact ⟨_, .init rfl, .refl _⟩
  | @step s s' a history hs hguard hstep ih =>
    obtain ⟨t₀, ht₀, hres₀⟩ := ih
    obtain ⟨t, ht, hends, harrivals⟩ := exists_arrivals hready ht₀
    rw [← hends] at hres₀
    obtain ⟨huse, htail⟩ := inUse_of_reachable hready ht.reachable
    have hwf := wellFormed_of_tailMachine htail
    obtain ⟨t₁, hrecv⟩ : ∃ t₁, t.recv net a = some t₁ := huse.exists_recv hwf harrivals hres₀ hstep
    have hres₁ := hres₀.takes (huse.recv hwf hrecv).1
    obtain ⟨ends, hends', hres⟩ := hres₁.step hguard.2 hstep
    have hstep' : t.step gmp dh net (.ends a) = some (t₁.send ends) := by
      rw [Traffic.step, hrecv]
      show (t₁.ends.step a).bind _ = _
      rw [hends']
      rfl
    have hguard' : onEnds G t (.ends a) := hG _ _ _ hres₀ hguard.1
    have hnoted := ht.step hguard' hstep'
    rw [noteEnds_of_recv hrecv, hnote _ _ _ (wellFormed_of_reachable hs.reachable) hres₁] at hnoted
    exact ⟨_, hnoted, hres⟩

theorem exists_over_circuit (hready : Ready K s₀) (hG : IgnoresTails G) {s : Streams.System}
    (hs : streamMachine.Reachable (WithShort G) s) :
    ∃ t : Traffic ι, (trafficMachine gmp dh net s₀).Reachable (onEnds G) t ∧ Resembles s t.ends := by
  obtain ⟨history, hnoted⟩ := hs.exists_noted fun _ _ => ([] : List Unit)
  obtain ⟨t, ht, hres⟩ := exists_noted_over_circuit hready hG (fun _ _ _ _ _ => rfl) hnoted
  exact ⟨t, ht.reachable, hres⟩

/-- A computed run of the ends, over the circuit of zeros. -/
theorem exists_zeroTraffic [∀ s a, Decidable (G s a)] (hG : IgnoresTails G) {as : List Action}
    {p : Streams.System → Bool}
    (h : (Machine.run (Machine.checked (WithShort G) Streams.System.step) .start as).any p = true) :
    ∃ s t, streamMachine.Reachable (WithShort G) s ∧ p s = true ∧
      zeroTraffic.Reachable (onEnds G) t ∧ Resembles s t.ends := by
  obtain ⟨s, hs, hp⟩ := Machine.exists_of_run (Set.mem_singleton Streams.System.start) h
  obtain ⟨t, ht, hres⟩ := exists_over_circuit ready_zeroCircuit hG hs
  exact ⟨s, t, hs, hp, ht, hres⟩

end Noted

/-! ## Cells arrive -/

/-- The keys of a circuit over chosen relays. -/
def Setup.keys (C : Setup ι) : Keys where
  middle := C.chosen.length - 1
  onion := C.onion
  link := C.link

theorem ready_of_chain {C : Setup ι} {client : ClientSession} {mids : List (Served ι)}
    {last : Served ι} (hlength : mids.length + 1 = C.chosen.length) (hchain : Chain C mids last)
    (hclient : Prepared C C.chosen.length client) :
    Ready C.keys
      ⟨{ client with waiting := .returned .success }, mids ++ [last], .only (.toSession 0) []⟩ := by
  have hmiddle : C.keys.middle = mids.length := (congrArg (· - 1) hlength.symm).trans rfl
  refine ⟨⟨?_, hclient.tlsKey, ?_, fun i hi served hserved => ?_, fun served hserved => ?_⟩, ?_⟩
  · rw [Keys.all, hmiddle, hlength]
    exact hclient.layers C le_rfl
  · rw [hmiddle, List.length_append, List.length_singleton]
  · rw [hmiddle] at hi
    rw [List.getElem?_append_left hi] at hserved
    have hat := hchain.middle i served hserved
    exact ⟨hat.waiting, hat.keys⟩
  · rw [hmiddle, getElem?_length_append] at hserved
    obtain rfl := Option.some.inj hserved
    rw [hmiddle]
    exact ⟨.inl hchain.role.waiting, hchain.role.onionKey, hchain.role.tlsLastKey⟩
  · intro channel
    simp only [Queues.only, ite_self]

/-- Where the client receives first. -/
theorem runClient_eq (C : Setup ι) (arrays : DeriveArrays) (locals : Locals)
    {relays : CircuitRelayList} (hrelays : relays.relays = C.chosen.map C.descriptor) {guard : ι}
    (hguard : C.chosen[0]? = some guard) {keys : List KeyData}
    (hkeys : (C.chosen.map C.descriptor).mapM (fun relay => deriveSymmetricKeyFromPublic C.gmp C.dh
      arrays (initKey C.clientKey) relay.publicKey) = some keys) :
    runClient C.gmp C.dh C.net arrays locals C.clientKey relays =
      some ⟨⟨.tlsKey, C.clientKey, keys, initKey C.clientKey, relays, 0, List.replicate torMsgSize 0⟩,
        [⟨guard, initRelaySession (C.net.key guard) locals.buffer⟩], .only (.toSession 0) []⟩ := by
  have hempty : Queues.only (.toSession 0) [] = fun _ => [] := funext fun _ => ite_self _
  have hfirst : relays.relays[0]? = some (C.descriptor guard) := by
    rw [hrelays, List.getElem?_map, hguard]
    rfl
  have hconnection : C.net.connection locals (sockaddrToUnix (C.descriptor guard).sockAddr) =
      some ⟨guard, initRelaySession (C.net.key guard) locals.buffer⟩ := by
    rw [Network.connection, (C.listed guard (List.mem_of_getElem? hguard)).listen]
    rfl
  rw [runClient, hfirst, hempty]
  simp only [Option.bind_eq_bind, Option.bind_some, hconnection, initSession, hrelays, hkeys]
  rfl

end OnionRouter.Circuit
