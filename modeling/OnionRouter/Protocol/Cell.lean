import OnionRouter.Lib.Memory
import OnionRouter.Net.Buffer

/-!
# Cells

The packed structures of `tor_structs.h`, by the offsets of their fields in a
`msg_tor_buffer_t`, and the functions that fill in a cell before it is sent. A
function is the list of the assignments and copies that it makes (`Stores`), so
that one can ask what it writes to, and what is then in the buffer.

* `IsRelayCell`: what a receiver finds in the header of a relay cell; every sender
  of one fills it in (`isRelayCell_torSendBeginMsg` and so on).
* `bytes_torSendDataMsg`, `bytes_torSendEndRelayData`: what is found where the data
  of a relay cell is. The end relay writes it one byte too far.
-/

namespace OnionRouter.Protocol

open Lib Memory Net

/-! ## Fields -/

/-- `tor_commands_t`. -/
inductive TorCommand
  | torPadding
  | torCreate
  | torCreated
  | torRelay
  | torDestroy
  deriving DecidableEq

/-- `tor_relay_commands_t`. -/
inductive RelayCommand
  | relayBegin
  | relayData
  | relayEnd
  | relayConnected
  | relaySendme
  | relayExtend
  | relayExtended
  deriving DecidableEq

/-- `tor_relay_end_reasons_t`. -/
inductive EndReason
  | eof
  | done
  | destroy
  | failInit
  | absent

def TorCommand.code : TorCommand → UInt8
  | torPadding => 0
  | torCreate => 1
  | torCreated => 2
  | torRelay => 3
  | torDestroy => 4

def RelayCommand.code : RelayCommand → UInt8
  | relayBegin => 1
  | relayData => 2
  | relayEnd => 3
  | relayConnected => 4
  | relaySendme => 5
  | relayExtend => 6
  | relayExtended => 7

def EndReason.code : EndReason → UInt8
  | eof => 1
  | done => 2
  | destroy => 3
  | failInit => 4
  | absent => 4

/-- The offset of `cmd` in every cell, which is `relay` in a relay cell. -/
def cmdOffset : ℕ := 2

/-- The offset of `stream_id` in a relay cell. -/
def streamIdOffset : ℕ := 3

/-- The offset of `length` in a relay cell, behind `digest[6]`. -/
def lengthOffset : ℕ := 11

/-- The offset of `cmd` in a relay cell. -/
def relayCmdOffset : ℕ := 13

/-- The offset of `data` in `msg_tor_relay_t` and `msg_tor_relay_data_t`, of
    `sock_addr` in `msg_tor_relay_begin_t` and of `reason` in `msg_tor_relay_end_t`. -/
def relayDataOffset : ℕ := 14

/-- The offset of `data` in `msg_tor_relay_end_t`, behind `reason`. -/
def relayEndDataOffset : ℕ := 15

/-- The offset of `public_client_key` in `msg_tor_create_t` and of `data` in
    `msg_tor_created_t`. -/
def createKeyOffset : ℕ := 3

/-- The offset of `client_public_key` in `msg_tor_relay_extend_t`, behind
    `relay_addr`. -/
def extendKeyOffset : ℕ := 34

/-- The size of a `sock_addr_t`. -/
def sockAddrSize : ℕ := 20

/-- The constant `RELAY_DATA_MSG_SIZE`. -/
def relayDataMsgSize : ℕ := 498

/-- The bytes of a `uint16_t`. -/
def put16 (x : UInt16) : List UInt8 := [UInt8.ofNat x.toNat, UInt8.ofNat (x.toNat / 256)]

/-- The `uint16_t` at an offset. -/
def get16 (m : Memory UInt8) (off : ℕ) : UInt16 :=
  UInt16.ofNat ((m off).toNat + 256 * (m (off + 1)).toNat)

/-- Reading a `uint16_t` that was written. -/
theorem get16_of_put16 {m : Memory UInt8} {off : ℕ} {x : UInt16}
    (h0 : m off = UInt8.ofNat x.toNat) (h1 : m (off + 1) = UInt8.ofNat (x.toNat / 256)) :
    get16 m off = x := by
  have hx := x.toNat_lt
  have hval : (m off).toNat + 256 * (m (off + 1)).toNat = x.toNat := by
    rw [h0, h1, UInt8.toNat_ofNat', UInt8.toNat_ofNat']
    omega
  rw [get16, hval, UInt16.ofNat_toNat]

/-- A pointer into the buffer and a length, as they are handed to `send` or
    `stream_push_data`. -/
structure Span where
  off : ℕ
  length : ℕ

/-- The bytes of a span. -/
def Span.bytes (span : Span) (m : Memory UInt8) : List UInt8 := m.read span.off span.length

/-- The span lies in the data field of a relay cell. -/
def Span.InData (span : Span) : Prop :=
  relayDataOffset ≤ span.off ∧ span.off + span.length ≤ torMsgSize

/-- The `data` of a relay cell, as long as its `length` says. -/
def dataSpan (m : Memory UInt8) : Span := ⟨relayDataOffset, (get16 m lengthOffset).toNat⟩

/-- The data that a cell announces stays in its data field. -/
theorem inData_dataSpan_iff (m : Memory UInt8) :
    (dataSpan m).InData ↔ (get16 m lengthOffset).toNat ≤ relayDataMsgSize := by
  show 14 ≤ 14 ∧ 14 + (get16 m lengthOffset).toNat ≤ 512 ↔ (get16 m lengthOffset).toNat ≤ 498
  omega

/-! ## Senders -/

/-- The writes of a function, in order: their offsets and bytes. -/
abbrev Stores := List (ℕ × List UInt8)

namespace Stores

/-- The buffer after the writes. -/
def write (stores : Stores) (m : Memory UInt8) : Memory UInt8 :=
  stores.foldl (fun m store => m.write store.1 store.2) m

/-- The writes stay inside the cell. -/
def InCell (stores : Stores) : Prop := ∀ store ∈ stores, store.1 + store.2.length ≤ torMsgSize

end Stores

/-- `tor_send_begin_msg`. -/
def torSendBeginMsg (streamId : UInt16) (addr : List UInt8) : Stores :=
  [(cmdOffset, [TorCommand.torRelay.code]), (relayCmdOffset, [RelayCommand.relayBegin.code]),
    (streamIdOffset, put16 streamId), (relayDataOffset, addr)]

/-- `tor_send_data_msg`. -/
def torSendDataMsg (streamId : UInt16) (data : List UInt8) : Stores :=
  [(cmdOffset, [TorCommand.torRelay.code]), (relayCmdOffset, [RelayCommand.relayData.code]),
    (streamIdOffset, put16 streamId), (lengthOffset, put16 (UInt16.ofNat data.length)),
    (relayDataOffset, data)]

/-- `tor_send_end_msg`. -/
def torSendEndMsg (streamId : UInt16) : Stores :=
  [(cmdOffset, [TorCommand.torRelay.code]), (relayCmdOffset, [RelayCommand.relayEnd.code]),
    (relayDataOffset, [EndReason.done.code]), (streamIdOffset, put16 streamId)]

/-- `tor_send_ping_msg`. -/
def torSendPingMsg : Stores := [(cmdOffset, [TorCommand.torPadding.code])]

/-- `tor_send_destroy_msg`. -/
def torSendDestroyMsg : Stores := [(cmdOffset, [TorCommand.torDestroy.code])]

/-- `tor_send_end_relay_end`. -/
def torSendEndRelayEnd (streamId : UInt16) (reason : EndReason) : Stores :=
  [(cmdOffset, [TorCommand.torRelay.code]), (streamIdOffset, put16 streamId),
    (relayCmdOffset, [RelayCommand.relayEnd.code]), (relayDataOffset, [reason.code])]

/-- `tor_send_end_relay_data`, whose `msg_data` is a `msg_tor_relay_end_t`. -/
def torSendEndRelayData (streamId : UInt16) (data : List UInt8) : Stores :=
  [(cmdOffset, [TorCommand.torRelay.code]), (streamIdOffset, put16 streamId),
    (relayCmdOffset, [RelayCommand.relayData.code]),
    (lengthOffset, put16 (UInt16.ofNat data.length)), (relayEndDataOffset, data)]

/-- `tor_send_end_relay_connected`. -/
def torSendEndRelayConnected (streamId : UInt16) : Stores :=
  [(cmdOffset, [TorCommand.torRelay.code]), (streamIdOffset, put16 streamId),
    (relayCmdOffset, [RelayCommand.relayConnected.code])]

/-- `tor_send_create_msg`, with the public key that it exports. -/
def torSendCreateMsg (publicKey : List UInt8) : Stores :=
  [(cmdOffset, [TorCommand.torCreate.code]), (createKeyOffset, publicKey)]

/-- `tor_send_extend_msg`, with the public key that it exports and the address of the
    descriptor. -/
def torSendExtendMsg (publicKey addr : List UInt8) : Stores :=
  [(cmdOffset, [TorCommand.torRelay.code]), (relayCmdOffset, [RelayCommand.relayExtend.code]),
    (extendKeyOffset, publicKey), (relayDataOffset, addr)]

/-- What `handle_create_message` of the relay fills in before it sends. -/
def createdMsg : Stores :=
  [(cmdOffset, [TorCommand.torCreated.code]),
    (createKeyOffset, List.replicate asymmetricKeyBytes 0)]

/-- `tor_send_middle_relay_create`. -/
def torSendMiddleRelayCreate (clientPublicKey : List UInt8) : Stores :=
  [(cmdOffset, [TorCommand.torCreate.code]), (createKeyOffset, clientPublicKey)]

/-- `tor_send_middle_relay_extended`. -/
def torSendMiddleRelayExtended : Stores :=
  [(cmdOffset, [TorCommand.torRelay.code]), (relayCmdOffset, [RelayCommand.relayExtended.code])]

/-! ## What the senders leave in the buffer -/

/-- A relay cell with its command and stream id. -/
structure IsRelayCell (m : Memory UInt8) (cmd : RelayCommand) (streamId : UInt16) : Prop where
  relay : m cmdOffset = TorCommand.torRelay.code
  cmd : m relayCmdOffset = cmd.code
  streamId : get16 m streamIdOffset = streamId

theorem isRelayCell_iff {m : Memory UInt8} {cmd : RelayCommand} {streamId : UInt16} :
    IsRelayCell m cmd streamId ↔ m cmdOffset = TorCommand.torRelay.code ∧
      m relayCmdOffset = cmd.code ∧ get16 m streamIdOffset = streamId :=
  ⟨fun h => ⟨h.relay, h.cmd, h.streamId⟩, fun h => ⟨h.1, h.2.1, h.2.2⟩⟩

instance (m : Memory UInt8) (cmd : RelayCommand) (streamId : UInt16) :
    Decidable (IsRelayCell m cmd streamId) := decidable_of_iff' _ isRelayCell_iff

variable (m : Memory UInt8) (streamId : UInt16) (data : List UInt8)

theorem isRelayCell_torSendBeginMsg (addr : List UInt8) :
    IsRelayCell ((torSendBeginMsg streamId addr).write m) .relayBegin streamId where
  relay := rfl
  cmd := rfl
  streamId := get16_of_put16 rfl rfl

theorem isRelayCell_torSendDataMsg :
    IsRelayCell ((torSendDataMsg streamId data).write m) .relayData streamId where
  relay := rfl
  cmd := rfl
  streamId := get16_of_put16 rfl rfl

theorem isRelayCell_torSendEndMsg :
    IsRelayCell ((torSendEndMsg streamId).write m) .relayEnd streamId where
  relay := rfl
  cmd := rfl
  streamId := get16_of_put16 rfl rfl

theorem isRelayCell_torSendEndRelayEnd (reason : EndReason) :
    IsRelayCell ((torSendEndRelayEnd streamId reason).write m) .relayEnd streamId where
  relay := rfl
  cmd := rfl
  streamId := get16_of_put16 rfl rfl

theorem isRelayCell_torSendEndRelayData :
    IsRelayCell ((torSendEndRelayData streamId data).write m) .relayData streamId where
  relay := rfl
  cmd := rfl
  streamId := get16_of_put16 rfl rfl

theorem isRelayCell_torSendEndRelayConnected :
    IsRelayCell ((torSendEndRelayConnected streamId).write m) .relayConnected streamId where
  relay := rfl
  cmd := rfl
  streamId := get16_of_put16 rfl rfl

theorem length_torSendDataMsg :
    get16 ((torSendDataMsg streamId data).write m) lengthOffset = UInt16.ofNat data.length :=
  get16_of_put16 rfl rfl

theorem length_torSendEndRelayData :
    get16 ((torSendEndRelayData streamId data).write m) lengthOffset =
      UInt16.ofNat data.length :=
  get16_of_put16 rfl rfl

/-- The client writes the data to the data field. -/
theorem bytes_torSendDataMsg (hdata : data.length < 2 ^ 16) :
    (dataSpan ((torSendDataMsg streamId data).write m)).bytes
      ((torSendDataMsg streamId data).write m) = data := by
  rw [Span.bytes, dataSpan, length_torSendDataMsg, UInt16.toNat_ofNat_of_lt' hdata]
  exact read_write _ _ _

/-- The end relay writes the data one byte further on: what is found in the data
    field starts with a byte that was there before and lacks the last one. -/
theorem bytes_torSendEndRelayData (hdata : data.length < 2 ^ 16) (hne : data ≠ []) :
    (dataSpan ((torSendEndRelayData streamId data).write m)).bytes
      ((torSendEndRelayData streamId data).write m) = m relayDataOffset :: data.dropLast := by
  obtain ⟨n, hn⟩ := Nat.exists_eq_succ_of_ne_zero (mt List.length_eq_zero_iff.1 hne)
  set built := (torSendEndRelayData streamId data).write m with hbuilt
  have hdataRead : built.read relayEndDataOffset data.length = data := read_write _ _ _
  have hinit : built.read relayEndDataOffset n = data.dropLast := by
    rw [List.dropLast_eq_take, ← hdataRead, length_read, hn, Nat.succ_sub_one,
      Nat.succ_eq_add_one, read_add, List.take_left' (length_read _ _ _)]
  rw [Span.bytes, dataSpan, length_torSendEndRelayData, UInt16.toNat_ofNat_of_lt' hdata, hn,
    Nat.succ_eq_one_add, read_add, read_one]
  exact congrArg₂ List.cons rfl hinit

/-! ## Buffers that hold the same cell -/

/-- Two buffers that agree on a cell, and may differ behind it. -/
def SameCell (m m' : Memory UInt8) : Prop := ∀ a < torMsgSize, m a = m' a

/-- The buffer of a receiver of the cell in `built`, which held `buffer` before. -/
def received (built buffer : Memory UInt8) : Memory UInt8 :=
  buffer.write 0 (built.read 0 torMsgSize)

theorem sameCell_received (built buffer : Memory UInt8) :
    SameCell (received built buffer) built := by
  intro a ha
  have hlen : a < (built.read 0 torMsgSize).length := by rwa [length_read]
  have hmem := buffer.write_of_mem 0 (built.read 0 torMsgSize) hlen
  rwa [Nat.zero_add, getElem_read, Nat.zero_add] at hmem

namespace SameCell

variable {m m' : Memory UInt8}

theorem get16 (h : SameCell m m') {off : ℕ} (hoff : off + 1 < torMsgSize) :
    get16 m off = Protocol.get16 m' off := by
  rw [Protocol.get16, Protocol.get16, h off (Nat.lt_of_succ_lt hoff), h (off + 1) hoff]

theorem isRelayCell (h : SameCell m m') {cmd : RelayCommand} {streamId : UInt16}
    (hcell : IsRelayCell m' cmd streamId) : IsRelayCell m cmd streamId where
  relay := (h _ (by decide)).trans hcell.relay
  cmd := (h _ (by decide)).trans hcell.cmd
  streamId := (h.get16 (by decide)).trans hcell.streamId

/-- Data that stays in the cell is found in both. -/
theorem bytes_dataSpan (h : SameCell m m')
    (hlength : (Protocol.get16 m' lengthOffset).toNat ≤ relayDataMsgSize) :
    (dataSpan m).bytes m = (dataSpan m').bytes m' := by
  have hspan : dataSpan m = dataSpan m' := by rw [dataSpan, dataSpan, h.get16 (by decide)]
  rw [hspan]
  refine read_congr _ _ _ fun i hi => h _ ?_
  have hin := ((inData_dataSpan_iff m').2 hlength).2
  omega

end SameCell

/-! ## Cells as lists of bytes -/

/-- The memory of a buffer that holds a cell. -/
def ofCell (cell : List UInt8) : Memory UInt8 := fun a => cell.getD a 0

/-- The cell in a buffer after the writes. -/
def Stores.onCell (stores : Stores) (cell : List UInt8) : List UInt8 :=
  (stores.write (ofCell cell)).read 0 torMsgSize

@[simp] theorem Stores.length_onCell (stores : Stores) (cell : List UInt8) :
    (stores.onCell cell).length = torMsgSize := length_read _ _ _

theorem Stores.sameCell_onCell (stores : Stores) (cell : List UInt8) :
    SameCell (ofCell (stores.onCell cell)) (stores.write (ofCell cell)) := by
  intro a ha
  have hlen : a < (stores.onCell cell).length := by rwa [length_onCell]
  rw [ofCell, List.getD_eq_getElem?_getD, List.getElem?_eq_getElem hlen, Option.getD_some]
  have hread := getElem_read (stores.write (ofCell cell)) 0 hlen
  rwa [Nat.zero_add] at hread

theorem SameCell.read {m m' : Memory UInt8} (h : SameCell m m') {off n : ℕ}
    (hn : off + n ≤ torMsgSize) : m.read off n = m'.read off n :=
  read_congr _ _ _ fun i hi => h _ (by omega)

/-- Cells that begin alike hold the same fields there. -/
theorem ofCell_of_take {n : ℕ} {c c' : List UInt8} (h : c.take n = c'.take n) {a : ℕ}
    (ha : a < n) : ofCell c a = ofCell c' a := by
  have hget := congrArg (·[a]?) h
  simp only [List.getElem?_take_of_lt ha] at hget
  rw [ofCell, ofCell, List.getD_eq_getElem?_getD, List.getD_eq_getElem?_getD, hget]

theorem read_ofCell_of_take {n : ℕ} {c c' : List UInt8} (h : c.take n = c'.take n) {off k : ℕ}
    (hk : off + k ≤ n) : (ofCell c).read off k = (ofCell c').read off k :=
  read_congr _ _ _ fun i hi => ofCell_of_take h (by omega)

/-! ## Building a circuit -/

/-- A cell that asks for a circuit with the public key. -/
structure IsCreateCell (c publicKey : List UInt8) : Prop where
  cmd : ofCell c cmdOffset = TorCommand.torCreate.code
  publicKey : (ofCell c).read createKeyOffset asymmetricKeyBytes = publicKey

/-- A cell that asks the last relay to extend the circuit to an address, with the public
    key. -/
structure IsExtendCell (c publicKey addr : List UInt8) : Prop where
  relay : ofCell c cmdOffset = TorCommand.torRelay.code
  cmd : ofCell c relayCmdOffset = RelayCommand.relayExtend.code
  publicKey : (ofCell c).read extendKeyOffset asymmetricKeyBytes = publicKey
  addr : (ofCell c).read relayDataOffset sockAddrSize = addr

/-- What is read of an EXTEND cell lies in its first bytes. -/
theorem IsExtendCell.of_take {n : ℕ} (hn : extendKeyOffset + asymmetricKeyBytes ≤ n)
    {c c' publicKey addr : List UInt8} (h : c.take n = c'.take n)
    (hcell : IsExtendCell c' publicKey addr) : IsExtendCell c publicKey addr where
  relay := (ofCell_of_take h (lt_of_lt_of_le (by decide) hn)).trans hcell.relay
  cmd := (ofCell_of_take h (lt_of_lt_of_le (by decide) hn)).trans hcell.cmd
  publicKey := (read_ofCell_of_take h hn).trans hcell.publicKey
  addr := (read_ofCell_of_take h (le_trans (by decide) hn)).trans hcell.addr

section Build

variable (cell : List UInt8) {publicKey addr : List UInt8}
  (hkey : publicKey.length = asymmetricKeyBytes)

include hkey

theorem isCreateCell_torSendCreateMsg :
    IsCreateCell ((torSendCreateMsg publicKey).onCell cell) publicKey where
  cmd := Stores.sameCell_onCell _ _ cmdOffset (by decide)
  publicKey := by
    rw [(Stores.sameCell_onCell _ _).read (by decide), ← hkey]
    exact read_write _ _ _

theorem isCreateCell_torSendMiddleRelayCreate :
    IsCreateCell ((torSendMiddleRelayCreate publicKey).onCell cell) publicKey :=
  isCreateCell_torSendCreateMsg cell hkey

theorem isExtendCell_torSendExtendMsg (haddr : addr.length = sockAddrSize) :
    IsExtendCell ((torSendExtendMsg publicKey addr).onCell cell) publicKey addr where
  relay := Stores.sameCell_onCell _ _ cmdOffset (by decide)
  cmd := Stores.sameCell_onCell _ _ relayCmdOffset (by decide)
  publicKey := by
    rw [(Stores.sameCell_onCell _ _).read (by decide)]
    refine (read_write_of_disjoint _ _ _ (.inr ?_)).trans ?_
    · rw [haddr]
      exact le_rfl
    · rw [← hkey]
      exact read_write _ _ _
  addr := by
    rw [(Stores.sameCell_onCell _ _).read (by decide), ← haddr]
    exact read_write _ _ _

end Build

theorem cmd_createdMsg (cell : List UInt8) :
    ofCell (createdMsg.onCell cell) cmdOffset = TorCommand.torCreated.code :=
  Stores.sameCell_onCell _ _ cmdOffset (by decide)

theorem cmd_torSendDestroyMsg (cell : List UInt8) :
    ofCell (torSendDestroyMsg.onCell cell) cmdOffset = TorCommand.torDestroy.code :=
  Stores.sameCell_onCell _ _ cmdOffset (by decide)

theorem cmd_torSendMiddleRelayExtended (cell : List UInt8) :
    ofCell (torSendMiddleRelayExtended.onCell cell) relayCmdOffset =
      RelayCommand.relayExtended.code :=
  Stores.sameCell_onCell _ _ relayCmdOffset (by decide)

end OnionRouter.Protocol
