import OnionRouter.Client.Session
import OnionRouter.Relay.End

/-!
# The data of a relay cell

Data travels in the `data` field of a relay cell, which has room for 498 bytes, and
its 16-bit `length` tells how many of them there are.

* `inData_iff`: neither end compares the length with the room, so that a cell for a
  stream that is known is read beyond its end when its length says so.
* `carried_iff`: data that the client sends is what the end relay offers to the
  socket. In the other direction the data is written one byte too far, and arrives
  only if every byte of it is the one that the buffer held before.
-/

namespace OnionRouter.Streams

open Lib Memory Net Protocol

/-! ## Bounds -/

/-- What the end relay gives to `send` lies in the cell's data field. -/
def OffersFromCell (map : SocketHashmap) (buffer : Memory UInt8) (sent : Bool) : Prop :=
  ∀ offered ∈ (Relay.handleRelayData map buffer sent).offered, offered.2.InData

/-- What the client pushes lies in the cell's data field. -/
def PushesFromCell (map : StreamHashmap) (buffer : Memory UInt8) : Prop :=
  ∀ pushed ∈ (Client.handleRelayRelayMsg map buffer).pushed, pushed.2.InData

variable {buffer : Memory UInt8} {streamId : UInt16}

theorem offered_handleRelayData (map : SocketHashmap) (hcell : get16 buffer streamIdOffset = streamId)
    (sent : Bool) :
    (Relay.handleRelayData map buffer sent).offered =
      (socketHashmapFind map streamId).map fun entry => (entry.2, dataSpan buffer) := by
  rw [Relay.handleRelayData, hcell]
  cases socketHashmapFind map streamId with
  | none => rfl
  | some entry => cases sent <;> rfl

theorem pushed_handleRelayRelayMsg (map : StreamHashmap)
    (hcell : IsRelayCell buffer .relayData streamId) :
    (Client.handleRelayRelayMsg map buffer).pushed =
      (socketHashmapFind map streamId).map fun entry => (entry.2, dataSpan buffer) := by
  rw [Client.handleRelayRelayMsg, hcell.cmd, hcell.streamId, if_neg (by decide),
    if_neg (by decide), if_pos rfl]
  cases socketHashmapFind map streamId <;> rfl

theorem offersFromCell_iff (map : SocketHashmap) (hcell : get16 buffer streamIdOffset = streamId)
    (sent : Bool) :
    OffersFromCell map buffer sent ↔
      (get16 buffer lengthOffset).toNat ≤ relayDataMsgSize ∨
        socketHashmapFind map streamId = none := by
  rw [OffersFromCell, offered_handleRelayData map hcell]
  cases socketHashmapFind map streamId with
  | none => simp
  | some entry => simp [inData_dataSpan_iff]

theorem pushesFromCell_iff (map : StreamHashmap) (hcell : IsRelayCell buffer .relayData streamId) :
    PushesFromCell map buffer ↔
      (get16 buffer lengthOffset).toNat ≤ relayDataMsgSize ∨
        socketHashmapFind map streamId = none := by
  rw [PushesFromCell, pushed_handleRelayRelayMsg map hcell]
  cases socketHashmapFind map streamId with
  | none => simp
  | some entry => simp [inData_dataSpan_iff]

/-- Of a cell with data, either end reads its data field only, exactly when its
    length is within the room for data or its stream is not known. -/
theorem inData_iff (exitMap : SocketHashmap) (clientMap : StreamHashmap) (buffer : Memory UInt8)
    (streamId : UInt16) (sent : Bool) (hcell : IsRelayCell buffer .relayData streamId) :
    (OffersFromCell exitMap buffer sent ↔
        (get16 buffer lengthOffset).toNat ≤ relayDataMsgSize ∨
          socketHashmapFind exitMap streamId = none) ∧
      (PushesFromCell clientMap buffer ↔
        (get16 buffer lengthOffset).toNat ≤ relayDataMsgSize ∨
          socketHashmapFind clientMap streamId = none) :=
  ⟨offersFromCell_iff exitMap hcell.streamId sent, pushesFromCell_iff clientMap hcell⟩

/-- The tables of the two ends with one stream, of id 0. -/
def oneStream : StreamHashmap :=
  socketHashmapInit.set 0 (.filled 0 ⟨Client.initStreamBuffer fun _ => 0, 0⟩)

def oneSocket : SocketHashmap := socketHashmapInit.set 0 (.filled 0 5)

theorem find_oneStream :
    socketHashmapFind oneStream 0 = some (0, ⟨Client.initStreamBuffer fun _ => 0, 0⟩) := rfl

theorem find_oneSocket : socketHashmapFind oneSocket 0 = some (0, 5) := rfl

/-- A cell of the stream 0 that announces 65535 bytes. -/
def longCell : Memory UInt8 :=
  Stores.write [(cmdOffset, [TorCommand.torRelay.code]), (relayCmdOffset, [RelayCommand.relayData.code]),
    (lengthOffset, put16 65535)] fun _ => 0

theorem isRelayCell_longCell : IsRelayCell longCell .relayData 0 where
  relay := rfl
  cmd := rfl
  streamId := get16_of_put16 rfl rfl

theorem inData_iff_longCell :
    (OffersFromCell oneSocket longCell true ↔
        (get16 longCell lengthOffset).toNat ≤ relayDataMsgSize ∨
          socketHashmapFind oneSocket 0 = none) ∧
      (PushesFromCell oneStream longCell ↔
        (get16 longCell lengthOffset).toNat ≤ relayDataMsgSize ∨
          socketHashmapFind oneStream 0 = none) :=
  inData_iff oneSocket oneStream longCell 0 true isRelayCell_longCell

/-- Both ends read 65535 bytes from it, if they know the stream. -/
theorem not_inData_longCell :
    ¬ OffersFromCell oneSocket longCell true ∧ ¬ PushesFromCell oneStream longCell := by
  have hlong : ¬ (get16 longCell lengthOffset).toNat ≤ relayDataMsgSize := by decide
  rw [offersFromCell_iff oneSocket isRelayCell_longCell.streamId true,
    pushesFromCell_iff oneStream isRelayCell_longCell, find_oneSocket, find_oneStream]
  exact ⟨not_or.2 ⟨hlong, Option.some_ne_none _⟩, not_or.2 ⟨hlong, Option.some_ne_none _⟩⟩

/-! ## Cells that are built and read -/

/-- The cell that the end relay builds in the buffer `prior` stays in it, and makes
    the client push the data to the stream. -/
structure ArrivesAtClient (map : StreamHashmap) (prior buffer : Memory UInt8) (streamId : UInt16)
    (data : List UInt8) : Prop where
  inCell : (torSendEndRelayData streamId data).InCell
  pushed : ∃ index entry span,
    socketHashmapFind map streamId = some (index, entry) ∧
    (Client.handleRelayRelayMsg map
      (received ((torSendEndRelayData streamId data).write prior) buffer)).pushed =
        some (entry, span) ∧
    span.bytes (received ((torSendEndRelayData streamId data).write prior) buffer) = data

/-- The cell that the client builds in the buffer `prior` makes the end relay offer
    the data to the socket of the stream. -/
def ArrivesAtSocket (map : SocketHashmap) (prior buffer : Memory UInt8) (streamId : UInt16)
    (data : List UInt8) : Prop :=
  ∀ sent, ∃ index sockFd span,
    socketHashmapFind map streamId = some (index, sockFd) ∧
    (Relay.handleRelayData map
      (received ((torSendDataMsg streamId data).write prior) buffer) sent).offered =
        some (sockFd, span) ∧
    span.bytes (received ((torSendDataMsg streamId data).write prior) buffer) = data

theorem length_lt_of_le {data : List UInt8} (h : data.length ≤ relayDataMsgSize) :
    data.length < 2 ^ 16 :=
  lt_of_le_of_lt h (by decide)

theorem arrivesAtSocket {map : SocketHashmap} {data : List UInt8} {index sockFd : ℕ}
    (hfind : socketHashmapFind map streamId = some (index, sockFd))
    (hdata : data.length ≤ relayDataMsgSize) (prior buffer : Memory UInt8) :
    ArrivesAtSocket map prior buffer streamId data := by
  intro sent
  have hcell := (sameCell_received _ buffer).isRelayCell
    (isRelayCell_torSendDataMsg prior streamId data)
  have hlength : (get16 ((torSendDataMsg streamId data).write prior) lengthOffset).toNat ≤
      relayDataMsgSize := by
    rwa [length_torSendDataMsg, UInt16.toNat_ofNat_of_lt' (length_lt_of_le hdata)]
  have hoffered := offered_handleRelayData map hcell.streamId sent
  have hbytes := ((sameCell_received _ buffer).bytes_dataSpan hlength).trans
    (bytes_torSendDataMsg prior streamId data (length_lt_of_le hdata))
  rw [hfind, Option.map_some] at hoffered
  exact ⟨index, sockFd, _, hfind, hoffered, hbytes⟩

theorem inCell_torSendEndRelayData_iff (streamId : UInt16) (data : List UInt8) :
    (torSendEndRelayData streamId data).InCell ↔ data.length ≤ 497 := by
  simp only [Stores.InCell, torSendEndRelayData, List.forall_mem_cons, put16, List.length_cons,
    List.length_nil, cmdOffset, streamIdOffset, relayCmdOffset, lengthOffset, relayEndDataOffset,
    torMsgSize]
  constructor
  · rintro ⟨-, -, -, -, hdata, -⟩
    omega
  · intro hdata
    refine ⟨by decide, by decide, by decide, by decide, by omega, fun _ h => by cases h⟩

/-- A string is itself moved on by one, behind `a`, exactly when it consists of `a`. -/
theorem cons_dropLast_eq_iff {α : Type*} {a : α} {data : List α} (hne : data ≠ []) :
    a :: data.dropLast = data ↔ ∀ b ∈ data, b = a := by
  induction data generalizing a with
  | nil => exact absurd rfl hne
  | cons x data ih =>
    cases data with
    | nil => simp [eq_comm]
    | cons y data =>
      rw [List.dropLast_cons_of_ne_nil (List.cons_ne_nil y data), List.cons.injEq,
        ih (List.cons_ne_nil y data)]
      constructor
      · rintro ⟨rfl, h⟩
        exact List.forall_mem_cons.2 ⟨rfl, h⟩
      · intro h
        obtain ⟨rfl, h⟩ := List.forall_mem_cons.1 h
        exact ⟨rfl, h⟩

theorem arrivesAtClient_iff {map : StreamHashmap} {data : List UInt8} {index : ℕ}
    {entry : StreamData} (hfind : socketHashmapFind map streamId = some (index, entry))
    (hne : data ≠ []) (hdata : data.length ≤ relayDataMsgSize) (prior buffer : Memory UInt8) :
    ArrivesAtClient map prior buffer streamId data ↔
      data.length ≤ 497 ∧ ∀ b ∈ data, b = prior relayDataOffset := by
  have hcell := (sameCell_received _ buffer).isRelayCell
    (isRelayCell_torSendEndRelayData prior streamId data)
  have hlength : (get16 ((torSendEndRelayData streamId data).write prior) lengthOffset).toNat ≤
      relayDataMsgSize := by
    rwa [length_torSendEndRelayData, UInt16.toNat_ofNat_of_lt' (length_lt_of_le hdata)]
  have hpushed := pushed_handleRelayRelayMsg map hcell
  have hbytes := ((sameCell_received _ buffer).bytes_dataSpan hlength).trans
    (bytes_torSendEndRelayData prior streamId data (length_lt_of_le hdata) hne)
  rw [hfind, Option.map_some] at hpushed
  constructor
  · rintro ⟨hin, _, _, span, -, hspan, hdata'⟩
    obtain rfl : dataSpan _ = span :=
      (Prod.mk.inj (Option.some_inj.1 (hpushed.symm.trans hspan))).2
    exact ⟨(inCell_torSendEndRelayData_iff streamId data).1 hin,
      (cons_dropLast_eq_iff hne).1 (hbytes.symm.trans hdata')⟩
  · rintro ⟨hlen, hall⟩
    exact ⟨(inCell_torSendEndRelayData_iff streamId data).2 hlen, index, entry, _, hfind, hpushed,
      hbytes.trans ((cons_dropLast_eq_iff hne).2 hall)⟩

/-- Data arrives in both directions exactly when it is at most 497 bytes long and all
    of them are the byte that the end relay's buffer holds at the data field. -/
theorem carried_iff (clientMap : StreamHashmap) (exitMap : SocketHashmap) (streamId : UInt16)
    (data : List UInt8) (prior buffer : Memory UInt8) (i j : ℕ) (entry : StreamData)
    (sockFd : ℕ) (hclient : socketHashmapFind clientMap streamId = some (i, entry))
    (hexit : socketHashmapFind exitMap streamId = some (j, sockFd)) (hne : 1 ≤ data.length)
    (hdata : data.length ≤ relayDataMsgSize) :
    (ArrivesAtClient clientMap prior buffer streamId data ∧
        ArrivesAtSocket exitMap prior buffer streamId data) ↔
      data.length ≤ 497 ∧ ∀ b ∈ data, b = prior relayDataOffset := by
  rw [and_iff_left (arrivesAtSocket hexit hdata prior buffer)]
  exact arrivesAtClient_iff hclient (List.ne_nil_of_length_pos hne) hdata prior buffer

theorem carried_iff_oneStream :
    (ArrivesAtClient oneStream (fun _ => 7) (fun _ => 0) 0 [7, 7] ∧
        ArrivesAtSocket oneSocket (fun _ => 7) (fun _ => 0) 0 [7, 7]) ↔
      [7, 7].length ≤ 497 ∧ ∀ b ∈ ([7, 7] : List UInt8), b = 7 :=
  carried_iff oneStream oneSocket 0 [7, 7] (fun _ => 7) (fun _ => 0) 0 0 _ 5 find_oneStream
    find_oneSocket (by decide) (by decide)

/-- One byte that is sent to the client over a buffer of zeros arrives as a zero. -/
theorem not_arrivesAtClient_oneStream :
    ¬ ArrivesAtClient oneStream (fun _ => 0) (fun _ => 0) 0 [1] := by
  rw [arrivesAtClient_iff find_oneStream (by decide) (by decide)]
  decide

end OnionRouter.Streams
