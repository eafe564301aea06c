import OnionRouter.Protocol.Cell
import OnionRouter.Streams.Hashmap

/-!
# The end relay

`relay_end.c`: the last relay of a circuit opens a socket for every stream and hands
the data of the client to it, and what the socket returns to the client. The
functions get what the system calls in them return: the socket of a new connection,
if there is one, whether `send` accepted the data, and what `read` returned. What is
given to `send_tor_buffer` and to `send` is part of what they return (`Outcome`).
-/

namespace OnionRouter.Relay

open Lib Protocol Streams

/-- What handling an event does, besides the calls that set up and take down a
    socket. -/
structure Outcome where
  /-- The return value: whether the session goes on. -/
  returned : Bool
  map : SocketHashmap
  /-- The buffer that is given to `send_tor_buffer`, if one is. -/
  reply : Option (Memory UInt8)
  /-- The socket and the bytes that are given to `send`, if any are. -/
  offered : Option (ℕ × Span)

/-- `tor_send_end_relay_end` in reply to a cell, in the buffer of the cell. -/
def replyEnd (map : SocketHashmap) (buffer : Memory UInt8) (streamId : UInt16)
    (reason : EndReason) : Outcome where
  returned := true
  map := map
  reply := some ((torSendEndRelayEnd streamId reason).write buffer)
  offered := none

/-- `handle_relay_begin`. -/
def handleRelayBegin (map : SocketHashmap) (buffer : Memory UInt8)
    (connectServer : List UInt8 → Option ℕ) : Outcome :=
  let streamId := get16 buffer streamIdOffset
  match connectServer (buffer.read relayDataOffset sockAddrSize) with
  | none => replyEnd map buffer streamId .failInit
  | some sockFd =>
    match socketHashmapInsert map streamId sockFd with
    | none => replyEnd map buffer streamId .failInit
    | some map =>
      { returned := true
        map := map
        reply := some ((torSendEndRelayConnected streamId).write buffer)
        offered := none }

/-- `handle_relay_data`; `sent` is whether `send` returned more than zero. -/
def handleRelayData (map : SocketHashmap) (buffer : Memory UInt8) (sent : Bool) : Outcome :=
  let streamId := get16 buffer streamIdOffset
  match socketHashmapFind map streamId with
  | none => replyEnd map buffer streamId .absent
  | some (_, sockFd) =>
    let offered := some (sockFd, dataSpan buffer)
    if sent then { returned := true, map := map, reply := none, offered := offered }
    else { replyEnd map buffer streamId .eof with offered := offered }

/-- `handle_relay_end`. -/
def handleRelayEnd (map : SocketHashmap) (buffer : Memory UInt8) : Outcome :=
  let streamId := get16 buffer streamIdOffset
  match socketHashmapFind map streamId with
  | none => replyEnd map buffer streamId .absent
  | some _ => replyEnd (socketHashmapRemove map streamId) buffer streamId .done

/-- `handle_client_msg`. -/
def handleClientMsg (map : SocketHashmap) (buffer : Memory UInt8)
    (connectServer : List UInt8 → Option ℕ) (sent : Bool) : Outcome :=
  let ignored : Outcome := { returned := true, map := map, reply := none, offered := none }
  if buffer cmdOffset = TorCommand.torDestroy.code then { ignored with returned := false }
  else if buffer cmdOffset = TorCommand.torPadding.code then { ignored with reply := some buffer }
  else if buffer cmdOffset ≠ TorCommand.torRelay.code then ignored
  else if buffer relayCmdOffset = RelayCommand.relayBegin.code then
    handleRelayBegin map buffer connectServer
  else if buffer relayCmdOffset = RelayCommand.relayEnd.code then handleRelayEnd map buffer
  else if buffer relayCmdOffset = RelayCommand.relayData.code then
    handleRelayData map buffer sent
  else ignored

section Kinds

variable (map : SocketHashmap) {buffer : Memory UInt8} {streamId : UInt16}
  (connectServer : List UInt8 → Option ℕ) (sent : Bool)

theorem handleClientMsg_begin (h : IsRelayCell buffer .relayBegin streamId) :
    handleClientMsg map buffer connectServer sent = handleRelayBegin map buffer connectServer := by
  rw [handleClientMsg, h.relay, h.cmd]
  rfl

theorem handleClientMsg_data (h : IsRelayCell buffer .relayData streamId) :
    handleClientMsg map buffer connectServer sent = handleRelayData map buffer sent := by
  rw [handleClientMsg, h.relay, h.cmd]
  rfl

/-- An END takes away the socket of its id, if there is one, and is answered. -/
theorem handleClientMsg_end (h : IsRelayCell buffer .relayEnd streamId) :
    ∃ reason, handleClientMsg map buffer connectServer sent =
      replyEnd (socketHashmapRemove map streamId) buffer streamId reason := by
  have hend : handleClientMsg map buffer connectServer sent = handleRelayEnd map buffer := by
    rw [handleClientMsg, h.relay, h.cmd]
    rfl
  rw [hend, handleRelayEnd, h.streamId]
  cases hfind : socketHashmapFind map streamId with
  | none => exact ⟨.absent, by rw [socketHashmapRemove_of_find hfind]⟩
  | some entry => exact ⟨.done, rfl⟩

theorem handleClientMsg_padding (h : buffer cmdOffset = TorCommand.torPadding.code) :
    handleClientMsg map buffer connectServer sent =
      { returned := true, map := map, reply := some buffer, offered := none } := by
  rw [handleClientMsg, h]
  rfl

end Kinds

/-- `handle_internet_event`, for the socket of an id; `data` is what `read_buffer`
    returned, nothing at the end of the file and after an error. -/
def handleInternetEvent (map : SocketHashmap) (buffer : Memory UInt8) (streamId : UInt16)
    (data : List UInt8) : Outcome :=
  if data.length = 0 then replyEnd (socketHashmapRemove map streamId) buffer streamId .eof
  else
    { returned := true
      map := map
      reply := some ((torSendEndRelayData streamId data).write buffer)
      offered := none }

end OnionRouter.Relay
