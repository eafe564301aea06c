import OnionRouter.Circuit.Construction
import OnionRouter.Lib.Pipeline
import OnionRouter.Streams.Tails

/-!
# A circuit in use

The client and the relays of a circuit that was built, with the streams at its two ends. A cell
that the client hands to `send_tor_buffer` is encrypted, goes through the relays in the middle
one by one (`handle_last_fd`), and is decrypted by the last one; what that one sends goes the
other way (`handle_next_fd`). All of them go on in any order, no connection breaks, and the user
gives no command that ends the session.

* `Traffic.InUse.step`: every step is one of the two ends over queues that lose at most the
  tails of cells (`Streams.Tails`), or leaves them alone.
-/

namespace OnionRouter.Circuit

open Client Crypto Lib Net Protocol Relay Streams

/-! ## States -/

/-- The parties, and the streams at the two ends. The queues of `ends` have the cells as they
    were handed to `send_tor_buffer`, from then on until they are received. -/
structure Traffic (ι : Type) where
  circuit : Circuit.System ι
  ends : Streams.System

/-- What happens. -/
inductive TrafficEvent
  /-- An end goes on. -/
  | ends (a : Action)
  /-- Relay `i` reads from `last_fd`. -/
  | last (i : ℕ) (locals : Locals)
  /-- Relay `i` reads from `next_fd`. -/
  | next (i : ℕ) (locals : Locals)

/-- The first packet of a queue, with the cell that was received. -/
def asReceived (cell : List UInt8) : List Packet → List Packet
  | [] => [.ofBuffer (ofCell cell) 0 []]
  | p :: l => .ofBuffer (ofCell cell) p.connect p.read :: l

/-- The last relay reads a message: in `process_relay_session`, which makes it the last one, or
    in `handle_event`. Also what is then in the buffer; `none` when it returns instead, or is
    told to extend the circuit. -/
def recvAtExit (connects : SockaddrStorage → Bool) (session : RelaySession)
    (buffer got : List UInt8) : Option (RelaySession × List UInt8) :=
  match session.waiting with
  | .role =>
    let session' := (processRelaySession session connects got).session
    match session'.waiting with
    | .endRelay => some (session', session'.buffer)
    | _ => none
  | .endRelay =>
    (Relay.recvTorBuffer (some session.tlsLastKey.symmetricKey) (some session.onionKey.symmetricKey)
      true buffer got).map fun cell => (session, cell)
  | _ => none

theorem cell_ofBuffer_ofCell {c : List UInt8} (hc : c.length = torMsgSize) (connect : ℕ)
    (read : List UInt8) : (Packet.ofBuffer (ofCell c) connect read).cell = c := by
  refine List.ext_getElem ((Packet.length_cell _).trans hc.symm) fun i hi hi' => ?_
  have hread := (Memory.getElem_read (ofCell c) 0 hi).trans (congrArg (ofCell c) (Nat.zero_add i))
  exact hread.trans (List.getD_eq_getElem _ _ hi')

section Steps

variable {ι : Type} (gmp : Gmp) (dh : DhGlobals) (net : Network ι)

namespace Traffic

variable (t : Traffic ι)

/-- The number of the last relay. -/
def exit : ℕ := t.circuit.sessions.length - 1

/-- What an end reads for an action, if it does. -/
def recv : Action → Option (Traffic ι)
  | .exitRecv buffer _ _ => do
    let got ← (t.circuit.queues (.toSession t.exit)).head?
    let served ← t.circuit.sessions[t.exit]?
    let (session, cell) ← recvAtExit (fun addr => (net.listen addr).isSome) served.session
      (buffer.read 0 torMsgSize) got
    let circuit := t.circuit.popped (.toSession t.exit)
    return {
      circuit := { circuit with sessions := circuit.sessions.set t.exit { served with session } }
      ends := { t.ends with toExit := asReceived cell t.ends.toExit } }
  | .clientRecv buffer => do
    let got ← (t.circuit.queues (.fromSession 0)).head?
    let cell ← Client.recvTorBuffer (some t.circuit.client.tlsKey.symmetricKey)
      t.circuit.client.layers (buffer.read 0 torMsgSize) got
    return {
      circuit := t.circuit.popped (.fromSession 0)
      ends := { t.ends with toClient := asReceived cell t.ends.toClient } }
  | _ => some t

/-- `send_tor_buffer` of the client. -/
def fromClient (p : Packet) : List UInt8 :=
  Client.sendTorBuffer (some t.circuit.client.tlsKey.symmetricKey) t.circuit.client.layers p.cell

/-- `send_tor_buffer` of the last relay. -/
def fromExit (p : Packet) : List (List UInt8) :=
  (t.circuit.sessions[t.exit]?).toList.map fun served =>
    Relay.sendTorBuffer (some served.session.tlsLastKey.symmetricKey)
      (some served.session.onionKey.symmetricKey) true p.cell

/-- The cells that are new in `ends` are sent. -/
def send (ends : Streams.System) : Traffic ι where
  circuit := { t.circuit with
    queues := (t.circuit.queues.send (.toSession 0)
      ((ends.toExit.drop t.ends.toExit.length).map t.fromClient)).send (.fromSession t.exit)
        ((ends.toClient.drop t.ends.toClient.length).flatMap t.fromExit) }
  ends := ends

/-- A step. -/
def step : TrafficEvent → Option (Traffic ι)
  | .ends a => do
    let t ← t.recv net a
    let ends ← t.ends.step a
    return t.send ends
  | .last i locals =>
    if i < t.exit then
      (t.circuit.step gmp dh net (.last i locals)).map fun circuit => { t with circuit }
    else none
  | .next i locals =>
    (t.circuit.step gmp dh net (.next i locals)).map fun circuit => { t with circuit }

end Traffic

/-- The runs over a circuit, from where its client begins with `process_events`. -/
def trafficMachine (s : Circuit.System ι) : Machine (Traffic ι) TrafficEvent :=
  .ofFun {⟨s, .start⟩} (Traffic.step gmp dh net)

end Steps

/-! ## The keys -/

/-- The keys of a circuit with some relays in the middle and one at the end. -/
structure Keys where
  middle : ℕ
  onion : ℕ → Block
  link : ℕ → Block

namespace Keys

variable (K : Keys)

/-- The onion keys of the relays before relay `k`. -/
def before (k : ℕ) : List Block := (List.range k).map K.onion

/-- The onion keys of relay `k` and those behind it. -/
def from' (k : ℕ) : List Block := (List.range' k (K.middle + 1 - k)).map K.onion

/-- The onion keys of all relays. -/
def all : List Block := K.before (K.middle + 1)

/-- A cell of the client, on its way to relay `k`. -/
def outward (k : ℕ) (p : Packet) : List UInt8 :=
  unwrap decryptOnion (K.before k) (wrap encryptOnion K.all p.cell)

/-- A cell of the last relay, when relay `k` has put its layer on. -/
def inward (k : ℕ) (p : Packet) : List UInt8 := wrap encryptOnion (K.from' k) p.cell

/-- The message that relay `k` is sent. -/
def outwardMessage (k : ℕ) (p : Packet) : List UInt8 :=
  encryptLink (some (K.link k)) (K.outward k p)

/-- The message that relay `k` sends back. -/
def inwardMessage (k : ℕ) (p : Packet) : List UInt8 :=
  encryptLink (some (K.link k)) (K.inward k p)

/-- What is received of a cell, at either end. -/
def arriving (p : Packet) : List UInt8 :=
  unwrap decryptOnion K.all (wrap encryptOnion K.all p.cell)

variable {K} (p : Packet) {k : ℕ}

theorem before_succ : K.before (k + 1) = K.before k ++ [K.onion k] := by
  rw [before, List.range_succ, List.map_append]
  rfl

theorem from'_of_le (hk : k ≤ K.middle) : K.from' k = K.onion k :: K.from' (k + 1) := by
  rw [from', from', show K.middle + 1 - k = K.middle + 1 - (k + 1) + 1 by omega, List.range'_succ]
  rfl

theorem from'_zero : K.from' 0 = K.all := by
  rw [from', all, before, List.range_eq_range', Nat.sub_zero]

theorem from'_succ_middle : K.from' (K.middle + 1) = [] := by
  rw [from', Nat.sub_self]
  rfl

theorem outward_succ : K.outward (k + 1) p = decryptOnion (K.onion k) (K.outward k p) := by
  rw [outward, before_succ, unwrap_concat]
  rfl

theorem inward_of_le (hk : k ≤ K.middle) :
    K.inward k p = encryptOnion (K.onion k) (K.inward (k + 1) p) := by
  rw [inward, from'_of_le hk, wrap_cons]
  rfl

theorem inward_succ_middle : K.inward (K.middle + 1) p = p.cell := by
  rw [inward, from'_succ_middle]
  rfl

theorem inward_zero : K.inward 0 p = wrap encryptOnion K.all p.cell := by
  rw [inward, from'_zero]

theorem outward_succ_middle : K.outward (K.middle + 1) p = K.arriving p := rfl

/-- The layers leave the length and the header of a cell. -/
theorem header_outward (k : ℕ) :
    (K.outward k p).length = torMsgSize ∧ (K.outward k p).take onionOffset = p.cell.take onionOffset :=
  header_unwrap_decryptOnion _ (header_wrap_encryptOnion _ ⟨p.length_cell, rfl⟩)

theorem length_inward (k : ℕ) : (K.inward k p).length = torMsgSize :=
  length_wrap_encryptOnion _ p.length_cell

theorem length_arriving : (K.arriving p).length = torMsgSize := by
  rw [← outward_succ_middle]
  exact (header_outward p _).1

/-- All but the tail of a cell arrives. -/
theorem arrived_arriving : Arrived p (.ofBuffer (ofCell (K.arriving p)) p.connect p.read) := by
  refine ⟨?_, rfl, rfl⟩
  rw [cell_ofBuffer_ofCell (length_arriving p)]
  exact take_unwrap_wrap_onion _ p.length_cell

end Keys

/-! ## A circuit that was built -/

variable {ι : Type} {gmp : Gmp} {dh : DhGlobals} {net : Network ι} {K : Keys}

/-- The relays share the keys with the client and with each other. -/
structure Keyed (K : Keys) (s : Circuit.System ι) : Prop where
  layers : s.client.layers = K.all
  tlsKey : s.client.tlsKey.symmetricKey = K.link 0
  length : s.sessions.length = K.middle + 1
  middle : ∀ i < K.middle, ∀ served, s.sessions[i]? = some served →
    served.session.waiting = .middle ∧ served.session.keys = ⟨K.onion i, K.link i, K.link (i + 1)⟩
  last : ∀ served, s.sessions[K.middle]? = some served →
    (served.session.waiting = .role ∨ served.session.waiting = .endRelay) ∧
      served.session.onionKey.symmetricKey = K.onion K.middle ∧
      served.session.tlsLastKey.symmetricKey = K.link K.middle

/-- A relay in the middle hands a cell on, since no cell of the client is a DESTROY. -/
theorem handleLastFd_outward (locals : Locals) {session : RelaySession} {i : ℕ} {p : Packet}
    (hwaiting : session.waiting = .middle)
    (hkeys : session.keys = ⟨K.onion i, K.link i, K.link (i + 1)⟩)
    (hp : ClientCell (p.receive fun _ => 0)) :
    handleLastFd locals session (K.outwardMessage i p) =
      ⟨session, [], [K.outwardMessage (i + 1) p], none⟩ := by
  have hfd := handleFdCommon_of_client session.keys locals.buffer (Keys.header_outward (K := K) p i).1
  rw [hkeys, ← Keys.outward_succ] at hfd
  have hheader : ofCell (K.outward (i + 1) p) cmdOffset = ofCell p.cell cmdOffset :=
    ofCell_of_take (Keys.header_outward p _).2 (by decide)
  have hcmd : ofCell (K.outward (i + 1) p) cmdOffset ≠ TorCommand.torDestroy.code := by
    rw [hheader, ← p.receive_apply (fun _ => 0) (by decide)]
    rcases hp.cmd_or with hcmd | ⟨hcmd, -⟩
    · exact hcmd.trans_ne (by decide)
    · exact hcmd.trans_ne (by decide)
  simp only [handleLastFd, hkeys, Keys.outwardMessage, hfd, if_neg hcmd]
  rw [← hwaiting]

theorem handleNextFd_inward (locals : Locals) {session : RelaySession} {i : ℕ} {p : Packet}
    (hi : i < K.middle) (hkeys : session.keys = ⟨K.onion i, K.link i, K.link (i + 1)⟩) :
    handleNextFd locals session (K.inwardMessage (i + 1) p) =
      ⟨session, [K.inwardMessage i p], [], none⟩ := by
  have hfd := handleFdCommon_of_next session.keys locals.buffer
    (Keys.length_inward (K := K) p (i + 1))
  rw [hkeys, ← Keys.inward_of_le p hi.le] at hfd
  simp only [handleNextFd, hkeys, Keys.inwardMessage, hfd]

/-- The last relay receives a cell of the client, which tells it to be the last. -/
theorem recvAtExit_outward (connects : SockaddrStorage → Bool) {session : RelaySession}
    {p : Packet} (hwaiting : session.waiting = .role ∨ session.waiting = .endRelay)
    (honion : session.onionKey.symmetricKey = K.onion K.middle)
    (hlink : session.tlsLastKey.symmetricKey = K.link K.middle)
    (hp : ClientCell (p.receive fun _ => 0)) (buffer : List UInt8) :
    ∃ session', recvAtExit connects session buffer (K.outwardMessage K.middle p) =
        some (session', K.arriving p) ∧
      session'.waiting = .endRelay ∧ session'.onionKey = session.onionKey ∧
      session'.tlsLastKey = session.tlsLastKey := by
  have hrecv := fun buffer => recvTorBuffer_of_client (K.link K.middle) (K.onion K.middle) buffer
    (Keys.header_outward (K := K) p K.middle).1
  simp only [← Keys.outward_succ, Keys.outward_succ_middle] at hrecv
  have hcell : ∀ a < tailOffset, ofCell (K.arriving p) a = p.receive (fun _ => 0) a := by
    intro a ha
    rw [p.receive_apply _ (ha.trans (by decide))]
    exact ofCell_of_take (take_unwrap_wrap_onion _ p.length_cell) ha
  have hrole : ¬ (ofCell (K.arriving p) cmdOffset = TorCommand.torRelay.code ∧
      ofCell (K.arriving p) relayCmdOffset = RelayCommand.relayExtend.code) := by
    rw [hcell _ (by decide), hcell _ (by decide)]
    rintro ⟨hrelay, hextend⟩
    rcases hp.cmd_or with hcmd | ⟨-, hcmd⟩
    · exact absurd (hcmd.symm.trans hrelay) (by decide)
    · exact hcmd hextend
  rcases hwaiting with hwaiting | hwaiting
  · refine ⟨{ session with waiting := .endRelay, buffer := K.arriving p }, ?_, rfl, rfl, rfl⟩
    simp only [recvAtExit, hwaiting, processRelaySession, honion, hlink, Keys.outwardMessage, hrecv,
      if_neg hrole]
    rfl
  · refine ⟨session, ?_, hwaiting, rfl, rfl⟩
    simp only [recvAtExit, hwaiting, honion, hlink, Keys.outwardMessage, hrecv]
    rfl

/-! ## Steps -/

/-- The messages on their way out, from the client on. -/
def outQueue (queues : Queues) (k : ℕ) : List (List UInt8) := queues (.toSession k)

/-- The messages on their way back, from the last relay on. -/
def backQueue (K : Keys) (queues : Queues) (k : ℕ) : List (List UInt8) :=
  queues (.fromSession (K.middle - k))

theorem outQueue_pop (queues : Queues) (i k : ℕ) :
    outQueue (queues.pop (.fromSession i)) k = outQueue queues k :=
  Queues.pop_of_ne _ _ (by simp)

theorem backQueue_pop (K : Keys) (queues : Queues) (i k : ℕ) :
    backQueue K (queues.pop (.toSession i)) k = backQueue K queues k :=
  Queues.pop_of_ne _ _ (by simp)

/-- The messages on their way out are the cells, which relay by relay have fewer layers. -/
def CarriesOut (K : Keys) (queues : Queues) (cells : List Packet) : Prop :=
  Pipeline.Carries K.outwardMessage (outQueue queues) K.middle cells

/-- Those on their way back have more layers. -/
def CarriesBack (K : Keys) (queues : Queues) (cells : List Packet) : Prop :=
  Pipeline.Carries (fun k => K.inwardMessage (K.middle - k)) (backQueue K queues) K.middle cells

/-- How far the messages have to go within the circuit. -/
def remaining (K : Keys) (queues : Queues) : ℕ :=
  Pipeline.distance (outQueue queues) K.middle + Pipeline.distance (backQueue K queues) K.middle

/-- A circuit that was built, with the cells of its ends on their way. -/
structure Traffic.InUse (K : Keys) (t : Traffic ι) : Prop where
  keyed : Keyed K t.circuit
  out : CarriesOut K t.circuit.queues t.ends.toExit
  back : CarriesBack K t.circuit.queues t.ends.toClient

theorem Keyed.exit {s : Circuit.System ι} (h : Keyed K s) (ends : Streams.System) :
    Traffic.exit ⟨s, ends⟩ = K.middle := by
  rw [Traffic.exit, h.length, Nat.add_sub_cancel]

namespace Traffic.InUse

variable {t t' : Traffic ι}

/-- A relay in the middle hands a cell on. -/
theorem last (h : InUse K t) (hwf : WellFormed t.ends) {i : ℕ} (hi : i < K.middle)
    {locals : Locals} {circuit : Circuit.System ι}
    (hs : t.circuit.step gmp dh net (.last i locals) = some circuit) :
    InUse K ⟨circuit, t.ends⟩ ∧ remaining K circuit.queues < remaining K t.circuit.queues := by
  obtain ⟨got, hgot, hs⟩ := Option.bind_eq_some_iff.1 hs
  obtain ⟨served, hserved, hs⟩ := Option.bind_eq_some_iff.1 hs
  obtain ⟨reaction, hreaction, hs⟩ := Option.bind_eq_some_iff.1 hs
  obtain rfl := Option.some.inj hs
  obtain ⟨rest, hqueue⟩ := List.head?_eq_some_iff.1 hgot
  obtain ⟨hwaiting, hkeys⟩ := h.keyed.middle i hi served hserved
  obtain ⟨p, hp, rfl, hadvance⟩ := h.out.advance hi hqueue
  rw [RelaySession.fromLast, hwaiting, Option.some_inj,
    handleLastFd_outward locals hwaiting hkeys (hwf.toExit p hp)] at hreaction
  obtain rfl := hreaction
  rw [show t.circuit.popped (.toSession i) = ⟨t.circuit.client, t.circuit.sessions,
    t.circuit.queues.pop (.toSession i)⟩ from rfl, react_same _ _ _ _ hserved rfl rfl,
    Queues.send_nil]
  set queues := (t.circuit.queues.pop (.toSession i)).send (.toSession (i + 1))
    [K.outwardMessage (i + 1) p] with hqueues
  have hother : ∀ c, c ≠ .toSession i → c ≠ .toSession (i + 1) → queues c = t.circuit.queues c :=
    fun c hc hc' => (Queues.send_of_ne _ _ _ hc').trans (Queues.pop_of_ne _ _ hc)
  have hne : Channel.toSession (i + 1) ≠ .toSession i := by simp
  obtain ⟨hcarries, hlt⟩ := hadvance (outQueue queues)
    ((Queues.send_of_ne _ _ _ hne.symm).trans ((Queues.pop_self _ _).trans (by rw [hqueue]; rfl)))
    ((Queues.send_self _ _ _).trans (by rw [Queues.pop_of_ne _ _ hne]; rfl))
    fun j _ hj hj' => hother _ (by simpa using hj) (by simpa using hj')
  have hback : backQueue K queues = backQueue K t.circuit.queues :=
    funext fun k => hother _ (by simp) (by simp)
  refine ⟨⟨⟨h.keyed.layers, h.keyed.tlsKey, h.keyed.length, h.keyed.middle, h.keyed.last⟩, hcarries,
    ?_⟩, ?_⟩
  · show Pipeline.Carries _ (backQueue K queues) _ _
    rw [hback]
    exact h.back
  · show Pipeline.distance (outQueue queues) _ + Pipeline.distance (backQueue K queues) _ < _
    rw [hback]
    exact Nat.add_lt_add_right hlt _

/-- A relay in the middle hands a cell back. The last one has no `next_fd`. -/
theorem next (h : InUse K t) {i : ℕ} {locals : Locals} {circuit : Circuit.System ι}
    (hs : t.circuit.step gmp dh net (.next i locals) = some circuit) :
    i < K.middle ∧ InUse K ⟨circuit, t.ends⟩ ∧
      remaining K circuit.queues < remaining K t.circuit.queues := by
  obtain ⟨got, hgot, hs⟩ := Option.bind_eq_some_iff.1 hs
  obtain ⟨served, hserved, hs⟩ := Option.bind_eq_some_iff.1 hs
  obtain ⟨reaction, hreaction, hs⟩ := Option.bind_eq_some_iff.1 hs
  obtain rfl := Option.some.inj hs
  obtain ⟨rest, hqueue⟩ := List.head?_eq_some_iff.1 hgot
  have hi : i < K.middle := by
    have hlength := (List.getElem?_eq_some_iff.1 hserved).1
    rw [h.keyed.length] at hlength
    refine lt_of_le_of_ne (Nat.le_of_lt_succ hlength) ?_
    rintro rfl
    rcases (h.keyed.last served hserved).1 with hwaiting | hwaiting <;>
      (rw [RelaySession.fromNext, hwaiting] at hreaction; cases hreaction)
  obtain ⟨hwaiting, hkeys⟩ := h.keyed.middle i hi served hserved
  have hj : K.middle - (i + 1) < K.middle := by omega
  have hthis : K.middle - (K.middle - (i + 1)) = i + 1 := by omega
  have hnext : K.middle - (K.middle - (i + 1) + 1) = i := by omega
  have hhead : backQueue K t.circuit.queues (K.middle - (i + 1)) = got :: rest := by
    rw [backQueue, hthis, hqueue]
  obtain ⟨p, -, rfl, hadvance⟩ := h.back.advance hj hhead
  rw [RelaySession.fromNext, hwaiting, Option.some_inj, hthis,
    handleNextFd_inward locals hi hkeys] at hreaction
  obtain rfl := hreaction
  rw [show t.circuit.popped (.fromSession (i + 1)) = ⟨t.circuit.client, t.circuit.sessions,
    t.circuit.queues.pop (.fromSession (i + 1))⟩ from rfl, react_same _ _ _ _ hserved rfl rfl,
    Queues.send_nil]
  set queues := (t.circuit.queues.pop (.fromSession (i + 1))).send (.fromSession i)
    [K.inwardMessage i p] with hqueues
  have hother : ∀ c, c ≠ .fromSession (i + 1) → c ≠ .fromSession i → queues c = t.circuit.queues c :=
    fun c hc hc' => (Queues.send_of_ne _ _ _ hc').trans (Queues.pop_of_ne _ _ hc)
  have hne : Channel.fromSession (i + 1) ≠ .fromSession i := by simp
  obtain ⟨hcarries, hlt⟩ := hadvance (backQueue K queues)
    (by
      rw [backQueue, hthis]
      exact (Queues.send_of_ne _ _ _ hne).trans ((Queues.pop_self _ _).trans (by rw [hqueue]; rfl)))
    (by
      rw [backQueue, backQueue, hnext]
      exact (Queues.send_self _ _ _).trans (by rw [Queues.pop_of_ne _ _ hne.symm]))
    fun k hk hk' hk'' => hother _ (by simp; omega) (by simp; omega)
  have hout : outQueue queues = outQueue t.circuit.queues :=
    funext fun k => hother _ (by simp) (by simp)
  refine ⟨hi, ⟨⟨h.keyed.layers, h.keyed.tlsKey, h.keyed.length, h.keyed.middle, h.keyed.last⟩, ?_,
    hcarries⟩, ?_⟩
  · show Pipeline.Carries _ (outQueue queues) _ _
    rw [hout]
    exact h.out
  · show Pipeline.distance (outQueue queues) _ + Pipeline.distance (backQueue K queues) _ < _
    rw [hout]
    exact Nat.add_lt_add_left hlt _

/-- What an end reads is the next cell, without some of its tail. -/
theorem recv (h : InUse K t) (hwf : WellFormed t.ends) {a : Action} {t₁ : Traffic ι}
    (hr : t.recv net a = some t₁) :
    Takes t.ends a t₁.ends ∧ Keyed K t₁.circuit ∧
      CarriesOut K t₁.circuit.queues (a.leavesToExit t₁.ends.toExit) ∧
      CarriesBack K t₁.circuit.queues (a.leavesToClient t₁.ends.toClient) := by
  cases a with
  | exitRecv buffer connected sent =>
    obtain ⟨got, hgot, hr⟩ := Option.bind_eq_some_iff.1 hr
    obtain ⟨served, hserved, hr⟩ := Option.bind_eq_some_iff.1 hr
    obtain ⟨⟨session, cell⟩, hrecv, hr⟩ := Option.bind_eq_some_iff.1 hr
    obtain rfl := Option.some.inj hr
    have hexit : t.exit = K.middle := h.keyed.exit t.ends
    rw [hexit] at hgot hserved ⊢
    obtain ⟨rest, hqueue⟩ := List.head?_eq_some_iff.1 hgot
    obtain ⟨p, l, htoExit, rfl⟩ := h.out.head hqueue
    obtain ⟨hwaiting, honion, hlink⟩ := h.keyed.last served hserved
    have hp := hwf.toExit p (htoExit ▸ List.mem_cons_self)
    obtain ⟨session', hrecv', hwaiting', honion', hlink'⟩ := recvAtExit_outward
      (fun addr => (net.listen addr).isSome) hwaiting honion hlink hp (buffer.read 0 torMsgSize)
    obtain ⟨rfl, rfl⟩ := Prod.mk.inj (Option.some.inj (hrecv.symm.trans hrecv'))
    have hlt := (List.getElem?_eq_some_iff.1 hserved).1
    refine ⟨⟨p, _, l, htoExit, K.arrived_arriving p, ?_⟩, ?_, ?_, ?_⟩
    · rw [htoExit]
      rfl
    · refine ⟨h.keyed.layers, h.keyed.tlsKey, (List.length_set ..).trans h.keyed.length,
        fun i hi other hother => ?_, fun other hother => ?_⟩
      · rw [List.getElem?_set_ne hi.ne'] at hother
        exact h.keyed.middle i hi other hother
      · obtain rfl := Option.some.inj ((List.getElem?_set_self hlt).symm.trans hother)
        exact ⟨.inr hwaiting', honion'.symm ▸ honion, hlink'.symm ▸ hlink⟩
    · have hleave : CarriesOut K (t.circuit.queues.pop (.toSession K.middle)) t.ends.toExit.tail :=
        h.out.leave (fun hnil => List.cons_ne_nil _ _ (hqueue.symm.trans hnil)) (Queues.pop_self _ _)
        fun k hk => Queues.pop_of_ne _ _ (by simpa using hk.ne)
      rw [htoExit] at hleave ⊢
      exact hleave
    · exact h.back.congr fun k _ => backQueue_pop K t.circuit.queues K.middle k
  | clientRecv buffer =>
    obtain ⟨got, hgot, hr⟩ := Option.bind_eq_some_iff.1 hr
    obtain ⟨cell, hrecv, hr⟩ := Option.bind_eq_some_iff.1 hr
    obtain rfl := Option.some.inj hr
    obtain ⟨rest, hqueue⟩ := List.head?_eq_some_iff.1 hgot
    rw [← Nat.sub_self K.middle] at hqueue
    obtain ⟨p, l, htoClient, rfl⟩ := h.back.head hqueue
    rw [Nat.sub_self] at hqueue hrecv
    rw [h.keyed.layers, h.keyed.tlsKey, Keys.inwardMessage,
      clientRecvTorBuffer_of_link _ _ _ (Keys.length_inward p 0), Keys.inward_zero] at hrecv
    obtain rfl : K.arriving p = cell := Option.some.inj hrecv
    refine ⟨⟨p, _, l, htoClient, K.arrived_arriving p, ?_⟩, ?_, ?_, ?_⟩
    · rw [htoClient]
      rfl
    · exact ⟨h.keyed.layers, h.keyed.tlsKey, h.keyed.length, h.keyed.middle, h.keyed.last⟩
    · exact h.out.congr fun k _ => outQueue_pop t.circuit.queues 0 k
    · have hleave : CarriesBack K (t.circuit.queues.pop (.fromSession 0)) t.ends.toClient.tail :=
        h.back.leave (by rw [backQueue, Nat.sub_self, hqueue]; exact List.cons_ne_nil _ _)
        (by rw [backQueue, backQueue, Nat.sub_self, Queues.pop_self])
        fun k hk => Queues.pop_of_ne _ _ (by simp; omega)
      rw [htoClient] at hleave ⊢
      exact hleave
  | _ =>
    obtain rfl := Option.some.inj hr
    exact ⟨rfl, h.keyed, h.out, h.back⟩

/-- What an end sends is behind the other cells. -/
theorem send {ends : Streams.System} {toExit toClient : List Packet} (hkeyed : Keyed K t.circuit)
    (hout : CarriesOut K t.circuit.queues toExit) (hback : CarriesBack K t.circuit.queues toClient)
    (htoExit : ends.toExit = toExit ++ ends.toExit.drop t.ends.toExit.length)
    (htoClient : ends.toClient = toClient ++ ends.toClient.drop t.ends.toClient.length) :
    InUse K (t.send ends) := by
  have hexit : t.exit = K.middle := hkeyed.exit t.ends
  have hclient : t.fromClient = K.outwardMessage 0 := by
    funext p
    rw [Traffic.fromClient, hkeyed.layers, hkeyed.tlsKey]
    rfl
  have hlast : t.fromExit = fun p => [K.inwardMessage K.middle p] := by
    funext p
    have hlt : K.middle < t.circuit.sessions.length := hkeyed.length ▸ K.middle.lt_succ_self
    obtain ⟨-, honion, hlink⟩ := hkeyed.last _ (List.getElem?_eq_getElem hlt)
    rw [Traffic.fromExit, hexit, List.getElem?_eq_getElem hlt, Option.toList_some, List.map_singleton,
      honion, hlink, Keys.inwardMessage, Keys.inward_of_le p le_rfl, Keys.inward_succ_middle]
    rfl
  refine ⟨⟨hkeyed.layers, hkeyed.tlsKey, hkeyed.length, hkeyed.middle, hkeyed.last⟩, ?_, ?_⟩
  · show Pipeline.Carries _ _ _ ends.toExit
    rw [htoExit]
    refine hout.enter _ ?_ fun k _ hk => ?_
    · simp only [outQueue, Traffic.send]
      rw [Queues.send_of_ne _ _ _ (by simp), Queues.send_self, hclient]
    · simp only [outQueue, Traffic.send]
      rw [Queues.send_of_ne _ _ _ (by simp), Queues.send_of_ne _ _ _ (by simpa using hk)]
  · show Pipeline.Carries _ _ _ ends.toClient
    rw [htoClient]
    refine hback.enter _ ?_ fun k hk hk' => ?_
    · simp only [backQueue, Traffic.send, Nat.sub_zero, hexit, hlast]
      rw [Queues.send_self, Queues.send_of_ne _ _ _ (by simp), ← List.map_eq_flatMap]
    · simp only [backQueue, Traffic.send, hexit]
      rw [Queues.send_of_ne _ _ _ (by simp; omega), Queues.send_of_ne _ _ _ (by simp)]

/-- What a step is to the ends. -/
theorem step (h : InUse K t) (hwf : WellFormed t.ends) {e : TrafficEvent}
    (hs : t.step gmp dh net e = some t') : InUse K t' ∧
      ((t'.ends = t.ends ∧ remaining K t'.circuit.queues < remaining K t.circuit.queues) ∨
        ∃ a s₁, e = .ends a ∧ Takes t.ends a s₁ ∧ s₁.step a = some t'.ends) := by
  cases e with
  | ends a =>
    obtain ⟨t₁, hrecv, hs⟩ := Option.bind_eq_some_iff.1 hs
    obtain ⟨ends, hends, hs⟩ := Option.bind_eq_some_iff.1 hs
    obtain rfl := Option.some.inj hs
    obtain ⟨htakes, hkeyed, hout, hback⟩ := h.recv hwf hrecv
    exact ⟨.send hkeyed hout hback (toExit_of_step hends) (toClient_of_step hends),
      .inr ⟨a, t₁.ends, rfl, htakes, hends⟩⟩
  | last i locals =>
    obtain ⟨hi, hs⟩ := Option.ite_none_right_eq_some.1 hs
    obtain ⟨circuit, hcircuit, rfl⟩ := Option.map_eq_some_iff.1 hs
    have hexit : t.exit = K.middle := h.keyed.exit t.ends
    obtain ⟨huse, hlt⟩ := h.last hwf (hexit ▸ hi) hcircuit
    exact ⟨huse, .inl ⟨rfl, hlt⟩⟩
  | next i locals =>
    obtain ⟨circuit, hcircuit, rfl⟩ := Option.map_eq_some_iff.1 hs
    obtain ⟨-, huse, hlt⟩ := h.next hcircuit
    exact ⟨huse, .inl ⟨rfl, hlt⟩⟩

end Traffic.InUse

/-! ## Runs -/

/-- A circuit at the beginning of `process_events`. -/
structure Ready (K : Keys) (s : Circuit.System ι) : Prop extends Keyed K s where
  queues : ∀ channel, s.queues channel = []

/-- A guard on the actions of the ends. -/
def onEnds (G : Machine.Guard Streams.System Action) : Machine.Guard (Traffic ι) TrafficEvent
  | t, .ends a => G t.ends a
  | _, _ => True

/-- In every run over a circuit, the messages on their way are the cells that the ends have sent
    and not received, in their order, and the ends run as over queues that lose tails. -/
theorem inUse_of_reachable {s : Circuit.System ι} (hready : Ready K s)
    {G : Machine.Guard Streams.System Action} {t : Traffic ι}
    (ht : (trafficMachine gmp dh net s).Reachable (onEnds G) t) :
    t.InUse K ∧ tailMachine.Reachable G t.ends := by
  refine ht.invariant (I := fun t => t.InUse K ∧ tailMachine.Reachable G t.ends) ?_ ?_
  · rintro _ rfl
    exact ⟨⟨hready.toKeyed, .nil fun k _ => hready.queues _, .nil fun k _ => hready.queues _⟩,
      .init rfl⟩
  · rintro t e t' ⟨huse, hends⟩ hG hstep
    obtain ⟨huse', ⟨heq, -⟩ | ⟨a, s₁, rfl, htakes, hs₁⟩⟩ :=
      huse.step (wellFormed_of_tailMachine hends) hstep
    · exact ⟨huse', heq ▸ hends⟩
    · exact ⟨huse', hends.step hG ⟨s₁, htakes, hs₁⟩⟩

end OnionRouter.Circuit
