import OnionRouter.Client.Session
import OnionRouter.Directory.RelayMap

/-!
# The bytes of a message

What the client and the directory send, before it is encrypted, over the memory of the
stack that it is built in. Nothing clears this memory: a cell always has bytes of it, and
the response of a directory unless it fills its list (`noStaleMemory_iff`).
-/

namespace OnionRouter.Protocol

open Lib Memory Net Directory RelayManager

/-- The messages: a cell for each command of the user, of which `send` makes several, and the
    relay map of a directory. -/
inductive Message
  | connect (streamId : UInt16) (addr : List UInt8)
  | close (streamId : UInt16)
  | send (streamId : UInt16) (data : List UInt8)
  | ping
  | destroy
  | relayMap (m : RelayManager) (consistent : Consistent m) (relayStart : ℕ) (timestamp : UInt64)

/-- The plaintext of a message, built in a local variable that held `prior` before: `msg` of
    `handle_input` and `relay_list` of `handle_get_relay_map`. -/
def Message.plaintext : Message → Memory UInt8 → Option (List UInt8)
  | connect streamId addr, prior =>
    some (((torSendBeginMsg streamId addr).write prior).read 0 torMsgSize)
  | close streamId, prior => some (((torSendEndMsg streamId).write prior).read 0 torMsgSize)
  | send streamId data, prior =>
    some (((torSendDataMsg streamId data).write prior).read 0 torMsgSize)
  | ping, prior => some ((torSendPingMsg.write prior).read 0 torMsgSize)
  | destroy, prior => some ((torSendDestroyMsg.write prior).read 0 torMsgSize)
  | relayMap m _ relayStart timestamp, prior => relayMapMsg m relayStart timestamp prior

/-- The bytes of a message do not depend on what its memory held before. -/
def NoStaleMemory (message : Message) : Prop :=
  ∀ prior prior', message.plaintext prior = message.plaintext prior'

/-- A relay map of a directory with as many relays as the list has room for. -/
def FillsList : Message → Prop
  | .relayMap m _ _ _ => serverRelaysMapAmount ≤ m.liveIds.card
  | _ => False

/-- A cell has bytes of its buffer, as no sender writes to `circ_id`. -/
theorem not_forall_cell_eq {stores : Stores} (h : ∀ store ∈ stores, cmdOffset ≤ store.1) :
    ¬ ∀ prior prior' : Memory UInt8, some ((stores.write prior).read 0 torMsgSize) =
      some ((stores.write prior').read 0 torMsgSize) := by
  simp only [Option.some_inj, Stores.forall_read_eq_iff]
  exact Stores.not_covers_of_cmdOffset_le h

section Offsets

variable (streamId : UInt16)

theorem cmdOffset_le_torSendBeginMsg (addr : List UInt8) :
    ∀ store ∈ torSendBeginMsg streamId addr, cmdOffset ≤ store.1 := by
  simp [torSendBeginMsg, cmdOffset, relayCmdOffset, streamIdOffset, relayDataOffset]

theorem cmdOffset_le_torSendEndMsg :
    ∀ store ∈ torSendEndMsg streamId, cmdOffset ≤ store.1 := by
  simp [torSendEndMsg, cmdOffset, relayCmdOffset, streamIdOffset, relayDataOffset]

theorem cmdOffset_le_torSendDataMsg (data : List UInt8) :
    ∀ store ∈ torSendDataMsg streamId data, cmdOffset ≤ store.1 := by
  simp [torSendDataMsg, cmdOffset, relayCmdOffset, streamIdOffset, relayDataOffset, lengthOffset]

end Offsets

/-- Only a relay map that fills its list has no byte of what was there before. -/
theorem noStaleMemory_iff (message : Message) : NoStaleMemory message ↔ FillsList message := by
  cases message with
  | connect streamId addr =>
    exact iff_of_false (not_forall_cell_eq (cmdOffset_le_torSendBeginMsg streamId addr)) id
  | close streamId =>
    exact iff_of_false (not_forall_cell_eq (cmdOffset_le_torSendEndMsg streamId)) id
  | send streamId data =>
    exact iff_of_false (not_forall_cell_eq (cmdOffset_le_torSendDataMsg streamId data)) id
  | ping => exact iff_of_false (not_forall_cell_eq (by decide)) id
  | destroy => exact iff_of_false (not_forall_cell_eq (by decide)) id
  | relayMap m consistent relayStart timestamp =>
    exact forall_relayMapMsg_eq_iff consistent relayStart timestamp

/-- A ping has 511 bytes of the stack, and the relay map of an empty directory 3864. -/
theorem not_noStaleMemory_ping : ¬ NoStaleMemory .ping ∧
    ¬ NoStaleMemory (.relayMap (initRelayManager fun _ => 0) (.initRelayManager _) 0 0) := by
  constructor
  · intro h
    have hread := apply_of_read_eq _ _ _ (Option.some_inj.1 (h (fun _ => 0) fun _ => 1))
      (show 0 < torMsgSize by decide)
    exact absurd hread (by decide)
  · intro h
    have hfills := (forall_relayMapMsg_eq_iff (.initRelayManager _) 0 0).1 h
    exact absurd hfills (by decide)

end OnionRouter.Protocol
