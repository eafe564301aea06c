import OnionRouter.Directory.Allocation
import OnionRouter.Lib.Bytes
import OnionRouter.Protocol.Cell

/-!
# The commands of the relays

`relay_handler.c`: a session of `process_relay` handles the commands of one relay, and
keeps the pointer `relay_data` from one to the next. The sessions run at the same time,
every command as a whole.

* `Effect`: what a command can do (`effect_handleMessage`).
* `sessionMachine`: the runs of any number of sessions, from any directory. The
  registration for which a pointer was obtained, and those that a session made, are
  recorded beside the session.
-/

namespace OnionRouter.Directory

open Lib Memory Protocol RelayManager

/-! ## The handlers -/

/-- `relay_command_t`. -/
inductive RelayCommand
  | signup
  | signout
  | exit

/-- The number of a command on the wire. -/
def RelayCommand.code : RelayCommand → UInt16
  | signup => 1
  | signout => 2
  | exit => 3

/-- `server_responses_t`. -/
inductive ServerResponse
  | success
  | baseError
  deriving DecidableEq

/-- `request->command`. -/
def command (buffer : Memory UInt8) : UInt16 := get16 buffer 0

/-- `request.relay_addr`. -/
def relayAddr (buffer : Memory UInt8) : List UInt8 := buffer.read 2 sockAddrSize

/-- `request->assigned_id`, a number of 32 bits. -/
def assignedId (buffer : Memory UInt8) : ℕ := ofBytesLE (buffer.read 2 4)

/-- What a handler returns, and what it leaves. -/
structure Outcome where
  returned : Bool
  /-- Whether `*running` is still true. -/
  running : Bool
  manager : RelayManager
  /-- The pointer `*relay_data`. -/
  relayData : Option ℕ
  /-- The answer that it sends. -/
  response : Option ServerResponse
  /-- The object that `remove_relay` frees. -/
  removed : Option RelayData

/-- A handler that returns `false` before it does anything. -/
def refused (m : RelayManager) (relayData : Option ℕ) : Outcome :=
  ⟨false, true, m, relayData, none, none⟩

/-- The answer to a SIGNOUT that removes the relay `id`; then `*relay_data` is `NULL`. -/
def signedOut (m : RelayManager) (id : ℕ) (sent : Bool) : Outcome where
  returned := sent
  running := true
  manager := (m.removeRelay id).2
  relayData := none
  response := some .success
  removed := if (m.removeRelay id).1 then m.relay id else none

variable (m : RelayManager) (relayData : Option ℕ) (key : List UInt8) (buffer : Memory UInt8)
  (sent : Bool) (addr : ℕ)

/-- `handle_signup`; `key` is what `get_other_public_key` writes, `sent` whether the answer
    can be sent, and `addr` where `gen_relay` puts the object. -/
def handleSignup : Option Outcome :=
  match relayData with
  | some _ => some (refused m relayData)
  | none => do
    let m ← m.genRelay addr
    return ⟨sent, true, m.describe addr ⟨relayAddr buffer, key⟩, some addr, some .success, none⟩

/-- `handle_signout`; `none` when it reads through a pointer to an object that was freed. -/
def handleSignout : Option Outcome :=
  match relayData with
  | some addr => do
    let data ← m.heap addr
    return signedOut m data.relayId sent
  | none =>
    match m.getRelay (assignedId buffer) with
    | none => some ⟨sent, true, m, none, some .baseError, none⟩
    | some addr => do
      let data ← m.heap addr
      -- Both keys are 256 bytes long: `memcmp` compares all of them.
      if data.descriptor.publicKey = key then return signedOut m data.relayId sent
      else return ⟨sent, true, m, some addr, some .baseError, none⟩

/-- `handle_exit`. -/
def handleExit : Outcome := ⟨sent, false, m, none, some .success, none⟩

/-- `handle_message`; `received` is the message, if `recv_enc_server_msg` returns one. -/
def handleMessage (received : Option (Memory UInt8)) : Option Outcome :=
  match received with
  | none => some (refused m relayData)
  | some buffer =>
    if command buffer = RelayCommand.signup.code then
      handleSignup m relayData key buffer sent addr
    else if command buffer = RelayCommand.signout.code then
      handleSignout m relayData key buffer sent
    else if command buffer = RelayCommand.exit.code then some (handleExit m sent)
    else some (refused m relayData)

/-! ## What a command does -/

/-- The id that a SIGNOUT removes. -/
def signoutId : Option ℕ :=
  match relayData with
  | some addr => (m.heap addr).map RelayData.relayId
  | none => do
    let addr ← m.getRelay (assignedId buffer)
    let data ← m.heap addr
    if data.descriptor.publicKey = key then return data.relayId else none

/-- The id that a message removes, if it is a SIGNOUT. -/
def removedId (received : Option (Memory UInt8)) : Option ℕ :=
  received.bind fun buffer =>
    if command buffer = RelayCommand.signout.code then signoutId m relayData key buffer else none

/-- The relay of another key that a SIGNOUT names, while `relay_data` is `NULL`. -/
def foreignId (received : Option (Memory UInt8)) : Option ℕ :=
  match relayData with
  | some _ => none
  | none => do
    let buffer ← received
    let addr ← m.getRelay (assignedId buffer)
    let data ← m.heap addr
    if command buffer = RelayCommand.signout.code ∧ data.descriptor.publicKey ≠ key then
      return data.relayId
    else none

variable {m relayData key buffer sent addr} {received : Option (Memory UInt8)}

/-- What a command can do. -/
inductive Effect (m : RelayManager) (relayData : Option ℕ) (key : List UInt8) (addr : ℕ)
    (received : Option (Memory UInt8)) : Outcome → Prop
  | refuse : Effect m relayData key addr received (refused m relayData)
  | signup {m' : RelayManager} (descriptor : RelayDescriptor) (sent : Bool)
      (hnull : relayData = none) (hgen : m.genRelay addr = some m') :
      Effect m relayData key addr received
        ⟨sent, true, m'.describe addr descriptor, some addr, some .success, none⟩
  | signout {id : ℕ} (sent : Bool) (hid : removedId m relayData key received = some id) :
      Effect m relayData key addr received (signedOut m id sent)
  | absent (sent : Bool) (hnull : relayData = none) :
      Effect m relayData key addr received ⟨sent, true, m, none, some .baseError, none⟩
  | foreign {id a : ℕ} {data : RelayData} (sent : Bool)
      (hid : foreignId m relayData key received = some data.relayId)
      (hget : m.getRelay id = some a) (hdata : m.heap a = some data) :
      Effect m relayData key addr received ⟨sent, true, m, some a, some .baseError, none⟩
  | exit (sent : Bool) : Effect m relayData key addr received (handleExit m sent)

theorem effect_handleSignup {o : Outcome}
    (h : handleSignup m relayData key buffer sent addr = some o) :
    Effect m relayData key addr received o := by
  cases relayData with
  | some a => exact Option.some_inj.1 h ▸ .refuse
  | none =>
    obtain ⟨m', hgen, h⟩ := Option.bind_eq_some_iff.1 h
    exact Option.some_inj.1 h ▸ .signup _ sent rfl hgen

theorem effect_handleSignout {o : Outcome} (hcommand : command buffer = RelayCommand.signout.code)
    (h : handleSignout m relayData key buffer sent = some o) :
    Effect m relayData key addr (some buffer) o := by
  have hremoved : removedId m relayData key (some buffer) = signoutId m relayData key buffer :=
    if_pos hcommand
  cases relayData with
  | some a =>
    obtain ⟨data, hdata, h⟩ := Option.bind_eq_some_iff.1 h
    obtain rfl := Option.some_inj.1 h
    refine .signout sent (hremoved.trans ?_)
    rw [signoutId, hdata, Option.map_some]
  -- A session without a relay of its own signs out the id it sends, if the keys agree.
  | none =>
    rw [handleSignout] at h
    cases hget : m.getRelay (assignedId buffer) with
    | none =>
      simp only [hget] at h
      exact Option.some_inj.1 h ▸ .absent sent rfl
    | some a =>
      simp only [hget] at h
      obtain ⟨data, hdata, h⟩ := Option.bind_eq_some_iff.1 h
      split_ifs at h with hkey
      · obtain rfl := Option.some_inj.1 h
        refine .signout sent (hremoved.trans ?_)
        simp [signoutId, hget, hdata, hkey]
      · obtain rfl := Option.some_inj.1 h
        refine .foreign sent ?_ hget hdata
        simp [foreignId, hget, hdata, hkey, hcommand]

theorem effect_handleMessage {o : Outcome}
    (h : handleMessage m relayData key sent addr received = some o) :
    Effect m relayData key addr received o := by
  cases received with
  | none => exact Option.some_inj.1 h ▸ .refuse
  | some buffer =>
    rw [handleMessage] at h
    split_ifs at h with hsignup hsignout hexit
    · exact effect_handleSignup h
    · exact effect_handleSignout hsignout h
    · exact Option.some_inj.1 h ▸ .exit sent
    · exact Option.some_inj.1 h ▸ .refuse

/-! ## The sessions -/

/-- A session of `process_relay`. -/
structure Session where
  running : Bool
  /-- The pointer `relay`. -/
  relayData : Option ℕ
  /-- The registration for which the pointer was obtained. -/
  obtained : Option ℕ
  /-- The registrations that the session made by SIGNUP. -/
  registered : List ℕ

/-- A session before its first command. -/
def Session.start : Session := ⟨true, none, none, []⟩

/-- A command that was handled: what there was before, and the outcome. -/
structure Event (ι : Type*) where
  sender : ι
  manager : RelayManager
  session : Session
  outcome : Outcome

/-- The directory, its sessions, and the commands they handled so far. -/
structure Sessions (ι : Type*) where
  manager : RelayManager
  session : ι → Session
  events : List (Event ι)

/-- A session after a command. The pointer is obtained when it was `NULL` before. -/
def Session.next (session : Session) (o : Outcome) : Session where
  running := o.returned && o.running
  relayData := o.relayData
  obtained :=
    match session.relayData, o.relayData with
    | none, some addr => (o.manager.heap addr).map RelayData.registration
    | some _, some _ => session.obtained
    | _, none => none
  registered :=
    match session.relayData, o.relayData, o.response with
    | none, some addr, some .success =>
      ((o.manager.heap addr).map RelayData.registration).toList ++ session.registered
    | _, _, _ => session.registered

/-- A command of a session: the message, whether the answer can be sent, and the address
    that `calloc` returns if there is a new object. -/
structure SessionCommand (ι : Type*) where
  sender : ι
  received : Option (Memory UInt8)
  sent : Bool
  addr : ℕ

variable {ι : Type*} [DecidableEq ι] (keys : ι → List UInt8)

/-- Handling a command, if its session runs and the handler returns. -/
def Sessions.step (s : Sessions ι) (c : SessionCommand ι) : Option (Sessions ι) :=
  let session := s.session c.sender
  if session.running then
    (handleMessage s.manager session.relayData (keys c.sender) c.sent c.addr c.received).map
      fun o => ⟨o.manager, fun i => if i = c.sender then session.next o else s.session i,
        ⟨c.sender, s.manager, session, o⟩ :: s.events⟩
  else none

/-- The runs of the sessions, from any directory; `keys` are the public keys that the
    peers gave. -/
def sessionMachine : Machine (Sessions ι) (SessionCommand ι) :=
  .ofFun {s | ∃ r, relayMachine.Reachable Machine.anyStep r ∧
    s = ⟨r.manager, fun _ => .start, []⟩} (Sessions.step keys)

end OnionRouter.Directory
