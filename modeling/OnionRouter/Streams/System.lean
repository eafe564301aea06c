import OnionRouter.Client.Session
import OnionRouter.Lib.Transition
import OnionRouter.Relay.End

/-!
# A client and an end relay

One client and one end relay, joined by two queues of cells, as they are once the
layers of encryption are taken off. An action is a command of the user, the arrival
of a cell at either end, or something to read from a socket of the relay; it fixes
what the system calls return, and what the buffers that are filled in or read into
held before.

The model keeps track of what belongs together: connect commands are numbered, and a
packet has the number of the connect command, or of the socket, that it comes from,
and the data that was read from the socket. No handler sees these.
-/

namespace OnionRouter.Streams

open Lib Memory Net Protocol

/-! ## States -/

/-- A cell on its way. -/
structure Packet where
  cell : List UInt8
  length_cell : cell.length = torMsgSize
  /-- The connect command that a BEGIN was sent by, or the socket of data. -/
  connect : ℕ
  /-- What was read from the socket. -/
  read : List UInt8

/-- The packet with the cell that a buffer holds. -/
def Packet.ofBuffer (m : Memory UInt8) (connect : ℕ) (read : List UInt8) : Packet where
  cell := m.read 0 torMsgSize
  length_cell := m.length_read 0 torMsgSize
  connect := connect
  read := read

/-- The buffer that a cell is received in. -/
def Packet.receive (p : Packet) (buffer : Memory UInt8) : Memory UInt8 := buffer.write 0 p.cell

/-- Data that was pushed to the receive buffer of a stream. -/
structure Push where
  /-- The connect command that the stream belongs to. -/
  stream : ℕ
  /-- The connect command whose BEGIN the socket was opened for. -/
  socket : ℕ
  /-- What was pushed. -/
  bytes : List UInt8
  /-- What was read from the socket. -/
  read : List UInt8

/-- The client, the end relay, and the cells between them. -/
structure System where
  /-- The static counter of `gen_stream_id`. -/
  counter : UInt32
  /-- How many connect commands there were. -/
  connects : ℕ
  client : StreamHashmap
  /-- Whether the event loop of the client runs. -/
  clientRunning : Bool
  exit : SocketHashmap
  /-- Whether the event loop of the relay runs. -/
  exitRunning : Bool
  toExit : List Packet
  toClient : List Packet
  /-- All that was pushed to a stream. -/
  pushes : List Push

/-- The start of the system. -/
def System.start : System where
  counter := 0
  connects := 0
  client := socketHashmapInit
  clientRunning := true
  exit := socketHashmapInit
  exitRunning := true
  toExit := []
  toClient := []
  pushes := []

/-! ## Steps -/

/-- What happens to the system. -/
inductive Action
  | connect (addr : List UInt8) (memory msg : Memory UInt8)
  | close (streamId : UInt16) (msg : Memory UInt8)
  | send (streamId : UInt16) (data : List UInt8) (msg : ℕ → Memory UInt8)
  | recv (streamId : UInt16) (length : ℕ)
  | ping (msg : Memory UInt8)
  /-- The relay receives a cell. A connection is made and `send` accepts data, if it
      comes to that, or not. -/
  | exitRecv (buffer : Memory UInt8) (connected sent : Bool)
  /-- The socket of a stream is readable, and `data` is read from it. -/
  | internetEvent (streamId : UInt16) (data : List UInt8) (buffer : Memory UInt8)
  /-- The client receives a cell. -/
  | clientRecv (buffer : Memory UInt8)

namespace System

/-- The client hands cells to `send_tor_buffer`. -/
def sendToExit (s : System) (cells : List (Memory UInt8)) : System :=
  { s with toExit := s.toExit ++ cells.map fun m => .ofBuffer m s.connects [] }

/-- What the relay does when it handles an event. -/
def exitDoes (s : System) (out : Relay.Outcome) (socket : ℕ) (read : List UInt8) : System :=
  { s with
    exit := out.map
    exitRunning := out.returned
    toClient := s.toClient ++ (out.reply.map fun m => Packet.ofBuffer m socket read).toList }

/-- A command of the user, or a cell that the client receives. -/
def clientStep (s : System) : Action → Option System
  | .connect addr memory msg => do
    let (streamId, map, cell) ← Client.handleInputConnect s.client s.counter s.connects memory msg addr
    let s := s.sendToExit [cell]
    return { s with counter := streamId, connects := s.connects + 1, client := map }
  | .close streamId msg =>
    let (map, cell) := Client.handleInputClose s.client msg streamId
    let s := s.sendToExit [cell]
    some { s with client := map }
  | .send streamId data msg => some (s.sendToExit (Client.handleInputSend s.client msg streamId data))
  | .recv streamId length =>
    some { s with client := (Client.handleInputRecv s.client streamId length).2 }
  | .ping msg => some (s.sendToExit [torSendPingMsg.write msg])
  | .clientRecv buffer =>
    match s.toClient with
    | [] => none
    | p :: toClient => do
      let out := Client.handleRelayMsg s.client (p.receive buffer)
      let map ← out.map
      return { s with
        client := map
        clientRunning := out.returned
        toClient := toClient
        pushes := s.pushes ++ (out.pushed.map fun pushed =>
          ⟨pushed.1.connect, p.connect, pushed.2.bytes (p.receive buffer), p.read⟩).toList }
  | _ => none

/-- A cell that the relay receives, or an event of one of its sockets. -/
def exitStep (s : System) : Action → Option System
  | .exitRecv buffer connected sent =>
    match s.toExit with
    | [] => none
    | p :: toExit =>
      let connectServer := fun _ => if connected then some p.connect else none
      let out := Relay.handleClientMsg s.exit (p.receive buffer) connectServer sent
      some ({ s with toExit := toExit }.exitDoes out 0 [])
  | .internetEvent streamId data buffer =>
    if data.length ≤ relayDataMsgSize then
      match socketHashmapFind s.exit streamId with
      | none => none
      | some (_, socket) =>
        some (s.exitDoes (Relay.handleInternetEvent s.exit buffer streamId data) socket data)
    else none
  | _ => none

/-- A step of the system: each end takes part as long as its event loop runs. -/
def step (s : System) (a : Action) : Option System :=
  match a with
  | .exitRecv _ _ _ | .internetEvent _ _ _ => if s.exitRunning then s.exitStep a else none
  | _ => if s.clientRunning then s.clientStep a else none

/-! ### What a step can do -/

variable {s s' : System} {buffer : Memory UInt8}

theorem clientStep_clientRecv (h : s.clientStep (.clientRecv buffer) = some s') :
    ∃ p toClient map, s.toClient = p :: toClient ∧
      (Client.handleRelayMsg s.client (p.receive buffer)).map = some map ∧
      s' = { s with
        client := map
        clientRunning := (Client.handleRelayMsg s.client (p.receive buffer)).returned
        toClient := toClient
        pushes := s.pushes ++
          ((Client.handleRelayMsg s.client (p.receive buffer)).pushed.map fun pushed =>
            ⟨pushed.1.connect, p.connect, pushed.2.bytes (p.receive buffer), p.read⟩).toList } := by
  rw [clientStep] at h
  cases hhead : s.toClient with
  | nil =>
    rw [hhead] at h
    cases h
  | cons p toClient =>
    rw [hhead] at h
    obtain ⟨map, hmap, h⟩ := Option.bind_eq_some_iff.1 h
    exact ⟨p, toClient, map, rfl, hmap, (Option.some_inj.1 h).symm⟩

theorem exitStep_exitRecv {connected sent : Bool}
    (h : s.exitStep (.exitRecv buffer connected sent) = some s') :
    ∃ p toExit, s.toExit = p :: toExit ∧
      s' = { s with toExit := toExit }.exitDoes
        (Relay.handleClientMsg s.exit (p.receive buffer)
          (fun _ => if connected then some p.connect else none) sent) 0 [] := by
  rw [exitStep] at h
  cases hhead : s.toExit with
  | nil =>
    rw [hhead] at h
    cases h
  | cons p toExit =>
    rw [hhead] at h
    exact ⟨p, toExit, rfl, (Option.some_inj.1 h).symm⟩

theorem exitStep_internetEvent {streamId : UInt16} {data : List UInt8}
    (h : s.exitStep (.internetEvent streamId data buffer) = some s') :
    ∃ found, data.length ≤ relayDataMsgSize ∧ socketHashmapFind s.exit streamId = some found ∧
      s' = s.exitDoes (Relay.handleInternetEvent s.exit buffer streamId data) found.2 data := by
  rw [exitStep] at h
  split_ifs at h with hdata
  cases hfind : socketHashmapFind s.exit streamId with
  | none =>
    rw [hfind] at h
    cases h
  | some found =>
    rw [hfind] at h
    exact ⟨found, hdata, rfl, (Option.some_inj.1 h).symm⟩

end System

/-- The runs of a client and an end relay from the start, with empty tables. -/
def streamMachine : Machine System Action := .ofFun {.start} System.step

/-! ## Packets -/

/-- A cell is the same in all buffers that it is received in. -/
theorem Packet.sameCell (p : Packet) (buffer buffer' : Memory UInt8) :
    SameCell (p.receive buffer) (p.receive buffer') := by
  intro a ha
  have hlen : a < p.cell.length := by rwa [p.length_cell]
  have hmem := write_of_mem buffer 0 p.cell hlen
  have hmem' := write_of_mem buffer' 0 p.cell hlen
  rw [Nat.zero_add] at hmem hmem'
  exact hmem.trans hmem'.symm

/-- The cell of a buffer is what is received. -/
theorem Packet.sameCell_ofBuffer (m : Memory UInt8) (connect : ℕ) (read : List UInt8)
    (buffer : Memory UInt8) : SameCell ((Packet.ofBuffer m connect read).receive buffer) m := by
  rw [Packet.receive, Packet.ofBuffer, ← received]
  exact sameCell_received m buffer

end OnionRouter.Streams
