import OnionRouter.Protocol.Cell
import OnionRouter.Streams.Hashmap

/-!
# The client session

The event loop of `client_session.c`: cells from the circuit, and the commands of
the user. A command hands cells to `send_tor_buffer`, each filled in over whatever
its buffer held before. The loop goes on as long as the handlers return `true`.

* `handleRelayMsg_cases`: what a cell can do to the table of the streams.
* `mem_sendLoop`: the cells that a command sends for the data of a stream.
-/

namespace OnionRouter.Client

open Lib Protocol Streams

/-! ## Cells from the circuit -/

/-- What handling a cell does. -/
structure Outcome where
  /-- The return value: whether the event loop goes on. -/
  returned : Bool
  /-- The table after it; `none` when `stream_push_data` does not return. -/
  map : Option StreamHashmap
  /-- The entry whose buffer data is pushed to, and the data, if any is. -/
  pushed : Option (StreamData × Span)

/-- `handle_relay_relay_msg`. -/
def handleRelayRelayMsg (map : StreamHashmap) (buffer : Memory UInt8) : Outcome :=
  let streamId := get16 buffer streamIdOffset
  if buffer relayCmdOffset = RelayCommand.relayConnected.code then
    { returned := true, map := some map, pushed := none }
  else if buffer relayCmdOffset = RelayCommand.relayEnd.code then
    { returned := true, map := some (socketHashmapRemove map streamId), pushed := none }
  else if buffer relayCmdOffset = RelayCommand.relayData.code then
    match socketHashmapFind map streamId with
    | none => { returned := false, map := some map, pushed := none }
    | some (index, entry) =>
      { returned := true
        map := (streamPushData entry.recvBuffer ((dataSpan buffer).bytes buffer)).map
          (setBuffer map index streamId entry)
        pushed := some (entry, dataSpan buffer) }
  else { returned := true, map := some map, pushed := none }

/-- `handle_relay_msg`. -/
def handleRelayMsg (map : StreamHashmap) (buffer : Memory UInt8) : Outcome :=
  if buffer cmdOffset = TorCommand.torRelay.code then handleRelayRelayMsg map buffer
  else { returned := true, map := some map, pushed := none }

section Kinds

variable (map : StreamHashmap) {buffer : Memory UInt8} {streamId : UInt16}

theorem handleRelayMsg_connected (h : IsRelayCell buffer .relayConnected streamId) :
    handleRelayMsg map buffer = { returned := true, map := some map, pushed := none } := by
  rw [handleRelayMsg, if_pos h.relay, handleRelayRelayMsg, if_pos h.cmd]

theorem handleRelayMsg_end (h : IsRelayCell buffer .relayEnd streamId) :
    handleRelayMsg map buffer =
      { returned := true, map := some (socketHashmapRemove map streamId), pushed := none } := by
  rw [handleRelayMsg, if_pos h.relay, handleRelayRelayMsg, h.cmd, h.streamId]
  rfl

theorem handleRelayMsg_data (h : IsRelayCell buffer .relayData streamId) :
    handleRelayMsg map buffer =
      match socketHashmapFind map streamId with
      | none => { returned := false, map := some map, pushed := none }
      | some (index, entry) =>
        { returned := true
          map := (streamPushData entry.recvBuffer ((dataSpan buffer).bytes buffer)).map
            (setBuffer map index streamId entry)
          pushed := some (entry, dataSpan buffer) } := by
  rw [handleRelayMsg, if_pos h.relay, handleRelayRelayMsg, h.cmd, h.streamId]
  rfl

theorem handleRelayMsg_padding (h : buffer cmdOffset = TorCommand.torPadding.code) :
    handleRelayMsg map buffer = { returned := true, map := some map, pushed := none } := by
  rw [handleRelayMsg, h]
  rfl

end Kinds

section Inversion

variable {map map' : StreamHashmap} {m : Memory UInt8}

/-- What a cell can do to the table: nothing, remove a stream, or push the data of a DATA
    cell to the buffer of its stream. -/
theorem handleRelayMsg_cases (h : (handleRelayMsg map m).map = some map') :
    map' = map ∨ map' = socketHashmapRemove map (get16 m streamIdOffset) ∨
      ∃ found buffer, IsRelayCell m .relayData (get16 m streamIdOffset) ∧
        socketHashmapFind map (get16 m streamIdOffset) = some found ∧
        streamPushData found.2.recvBuffer ((dataSpan m).bytes m) = some buffer ∧
        map' = setBuffer map found.1 (get16 m streamIdOffset) found.2 buffer := by
  rw [handleRelayMsg] at h
  split_ifs at h with hrelay
  · rw [handleRelayRelayMsg] at h
    split_ifs at h with hconnected hend hdata
    · exact .inl (Option.some_inj.1 h).symm
    · exact .inr (.inl (Option.some_inj.1 h).symm)
    · cases hfind : socketHashmapFind map (get16 m streamIdOffset) with
      | none =>
        rw [hfind] at h
        exact .inl (Option.some_inj.1 h).symm
      | some found =>
        rw [hfind] at h
        obtain ⟨buffer, hpush, rfl⟩ := Option.map_eq_some_iff.1 h
        exact .inr (.inr ⟨found, buffer, ⟨hrelay, hdata, rfl⟩, rfl, hpush, rfl⟩)
    · exact .inl (Option.some_inj.1 h).symm
  · exact .inl (Option.some_inj.1 h).symm

theorem allBuffers_handleRelayMsg {P : CircularBuffer → Prop} (hmap : AllBuffers P map)
    (hpush : ∀ found, IsRelayCell m .relayData (get16 m streamIdOffset) →
      socketHashmapFind map (get16 m streamIdOffset) = some found →
        ∀ buffer, streamPushData found.2.recvBuffer ((dataSpan m).bytes m) = some buffer → P buffer)
    (h : (handleRelayMsg map m).map = some map') : AllBuffers P map' := by
  obtain rfl | rfl | ⟨found, buffer, hcell, hfind, hbuffer, rfl⟩ := handleRelayMsg_cases h
  · exact hmap
  · exact allBuffers_remove hmap _
  · exact allBuffers_setBuffer hmap (hpush found hcell hfind buffer hbuffer) _ _ _

end Inversion

/-! ## Commands -/

/-- `handle_input_connect`: the id that is drawn, the table, and the cell that is
    sent; `none` when `gen_stream_id` does not return. -/
def handleInputConnect (map : StreamHashmap) (counter : UInt32) (connect : ℕ)
    (memory msg : Memory UInt8) (addr : List UInt8) :
    Option (UInt32 × StreamHashmap × Memory UInt8) := do
  let streamId ← genStreamId map counter
  let map := (streamHashmapInsert map streamId.toUInt16 memory connect).getD map
  return (streamId, map, (torSendBeginMsg streamId.toUInt16 addr).write msg)

theorem allBuffers_handleInputConnect {P : CircularBuffer → Prop} {map map' : StreamHashmap}
    {counter streamId : UInt32} {connect : ℕ} {memory msg cell : Memory UInt8} {addr : List UInt8}
    (hmap : AllBuffers P map) (hinit : P (initStreamBuffer memory))
    (h : handleInputConnect map counter connect memory msg addr = some (streamId, map', cell)) :
    AllBuffers P map' := by
  obtain ⟨drawn, -, h⟩ := Option.bind_eq_some_iff.1 h
  cases hinsert : streamHashmapInsert map drawn.toUInt16 memory connect with
  | none =>
    rw [hinsert] at h
    cases h
    exact hmap
  | some inserted =>
    rw [hinsert] at h
    cases h
    exact hmap.insert hinit hinsert

/-- `handle_input_close`: the table, and the cell that is sent. -/
def handleInputClose (map : StreamHashmap) (msg : Memory UInt8) (streamId : UInt16) :
    StreamHashmap × Memory UInt8 :=
  (socketHashmapRemove map streamId, (torSendEndMsg streamId).write msg)

/-- The loop of `handle_input_send`: the cells that are sent for the data that is
    left, filled in over what `msg` held before each. -/
def sendLoop (streamId : UInt16) (msg : ℕ → Memory UInt8) : ℕ → List UInt8 → List (Memory UInt8)
  | 0, _ => []
  | rounds + 1, data =>
    if data.length = 0 then []
    else
      let curDataLength := min relayDataMsgSize data.length
      (torSendDataMsg streamId (data.take curDataLength)).write (msg rounds) ::
        sendLoop streamId msg rounds (data.drop curDataLength)

/-- `handle_input_send`: the cells that are sent. Every round sends a byte at least. -/
def handleInputSend (map : StreamHashmap) (msg : ℕ → Memory UInt8) (streamId : UInt16)
    (data : List UInt8) : List (Memory UInt8) :=
  match socketHashmapFind map streamId with
  | none => []
  | some _ => sendLoop streamId msg data.length data

/-- The cells of the loop all have data of its stream. -/
theorem mem_sendLoop (streamId : UInt16) (msg : ℕ → Memory UInt8) (rounds : ℕ)
    (data : List UInt8) :
    ∀ cell ∈ sendLoop streamId msg rounds data, IsRelayCell cell .relayData streamId := by
  induction rounds generalizing data with
  | zero => exact fun cell hcell => absurd hcell List.not_mem_nil
  | succ rounds ih =>
    intro cell hcell
    rw [sendLoop] at hcell
    split_ifs at hcell with hlength
    · exact absurd hcell List.not_mem_nil
    · rcases List.mem_cons.1 hcell with rfl | hrest
      · exact isRelayCell_torSendDataMsg _ _ _
      · exact ih _ cell hrest

/-- The constant `TOR_DATA_BUF_SIZE`. -/
def torDataBufSize : ℕ := 16

/-- The loop of `handle_input_recv`: what is taken from the buffer of the `length`
    bytes that the user asks for, and the buffer after it. -/
def recvLoop : ℕ → ℕ → CircularBuffer → List UInt8 × CircularBuffer
  | 0, _, buffer => ([], buffer)
  | rounds + 1, length, buffer =>
    if length = 0 then ([], buffer)
    else
      let (amount, data, buffer) := streamPopData buffer (min torDataBufSize length)
      if amount = 0 then ([], buffer)
      else
        let (rest, buffer) := recvLoop rounds (length - amount) buffer
        (data ++ rest, buffer)

theorem sized_recvLoop {buffer : CircularBuffer} (hbuffer : Sized buffer) (rounds length : ℕ) :
    Sized (recvLoop rounds length buffer).2 := by
  induction rounds generalizing length buffer with
  | zero => exact hbuffer
  | succ rounds ih =>
    have hpop := hbuffer.streamPopData (min torDataBufSize length)
    rcases hresult : streamPopData buffer (min torDataBufSize length) with ⟨amount, data, buffer'⟩
    rw [hresult] at hpop
    simp only [recvLoop, hresult]
    split_ifs
    · exact hbuffer
    · exact hpop
    · exact ih hpop _

/-- `handle_input_recv`: what is taken from the buffer, and the table. Every round takes a byte at
    least from what is asked for. -/
def handleInputRecv (map : StreamHashmap) (streamId : UInt16) (length : ℕ) :
    List UInt8 × StreamHashmap :=
  match socketHashmapFind map streamId with
  | none => ([], map)
  | some (index, entry) =>
    let (data, buffer) := recvLoop length length entry.recvBuffer
    (data, setBuffer map index streamId entry buffer)

theorem allBuffers_handleInputRecv {P : CircularBuffer → Prop} {map : StreamHashmap} {length : ℕ}
    (hmap : AllBuffers P map) (hloop : ∀ buffer, P buffer → P (recvLoop length length buffer).2)
    (streamId : UInt16) : AllBuffers P (handleInputRecv map streamId length).2 := by
  rw [handleInputRecv]
  cases hfind : socketHashmapFind map streamId with
  | none => exact hmap
  | some found =>
    exact allBuffers_setBuffer hmap (hloop _ (allBuffers_of_find hmap hfind)) _ _ _

end OnionRouter.Client
