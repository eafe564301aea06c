import OnionRouter.Directory.RelayHandler

/-!
# The pointers of the sessions

What the pointer `relay_data` of a session leads to.

* `pointersValid_of_reachable`: it is an entry, and the one that the session obtained, as
  long as no SIGNOUT removes an entry that another session points to.
* `authorised_of_reachable`: a session removes only what it registered, or what has its
  key, as long as its SIGNOUTs name no relay of another key.
-/

namespace OnionRouter.Directory

open Lib RelayManager

variable {m m' : RelayManager} {session : Session} {id addr : ℕ}

/-! ## One pointer -/

/-- The pointer of a session leads to the object of an entry, and to the registration that
    the session obtained. -/
def ValidPointer (m : RelayManager) (session : Session) : Prop :=
  ∀ a, session.relayData = some a → ∃ data, m.heap a = some data ∧ data.relayId ∈ m.liveIds ∧
    (m.items data.relayId).data = some a ∧ session.obtained = some data.registration

theorem validPointer_of_null (h : session.relayData = none) : ValidPointer m session := by
  intro a ha
  cases h.symm.trans ha

theorem ValidPointer.of_generated (hvalid : ValidPointer m session)
    (hgen : Generated m m' id addr) : ValidPointer m' session := by
  intro a ha
  obtain ⟨data, hdata, hlive, hitem, hobtained⟩ := hvalid a ha
  have hne : a ≠ addr := by
    rintro rfl
    cases hdata.symm.trans hgen.fresh
  refine ⟨data, (hgen.heap a hne).trans hdata, ?_, ?_, hobtained⟩
  · rw [hgen.liveIds]
    exact Finset.mem_insert_of_mem hlive
  · rw [hgen.items _ hlive, hitem]

theorem ValidPointer.describe (hvalid : ValidPointer m session) (addr : ℕ)
    (descriptor : RelayDescriptor) : ValidPointer (m.describe addr descriptor) session := by
  intro a ha
  obtain ⟨data, hdata, hlive, hitem, hobtained⟩ := hvalid a ha
  by_cases haddr : a = addr
  · subst haddr
    refine ⟨{ data with descriptor := descriptor }, ?_, hlive, hitem, hobtained⟩
    rw [describe_heap, Memory.set_self, hdata, Option.map_some]
  · exact ⟨data, (Memory.set_of_ne _ haddr _).trans hdata, hlive, hitem, hobtained⟩

/-- Another entry than the one that the session points to is removed. -/
theorem ValidPointer.removeRelay (hm : Consistent m) (hvalid : ValidPointer m session)
    (hother : ∀ a, session.relayData = some a → (m.items id).data ≠ some a) :
    ValidPointer (m.removeRelay id).2 session := by
  by_cases hid : id ∈ m.liveIds
  · obtain ⟨addr, hremoved⟩ := removed_removeRelay hm hid
    intro a ha
    obtain ⟨data, hdata, hlive, hitem, hobtained⟩ := hvalid a ha
    have hne : data.relayId ≠ id := by
      rintro rfl
      exact hother a ha hitem
    refine ⟨data, ?_, ?_, ?_, hobtained⟩
    · rw [hremoved.heap a (hremoved.ne hm hlive hne hitem), hdata]
    · rw [hremoved.liveIds]
      exact Finset.mem_erase_of_ne_of_mem hne hlive
    · rw [hremoved.items _ hne, hitem]
  · rw [removeRelay_of_notMem hid]
    exact hvalid

/-- A pointer to the object of an entry, obtained now. -/
theorem validPointer_of_mem (hm : Consistent m) (hid : id ∈ m.liveIds)
    (hrelay : session.relayData = (m.items id).data)
    (hobtained : session.obtained = (m.relay id).map RelayData.registration) :
    ValidPointer m session := by
  obtain ⟨addr, data, hitem, hdata, rfl⟩ := hm.relay id hid
  intro a ha
  obtain rfl := Option.some_inj.1 (hitem.symm.trans (hrelay.symm.trans ha))
  refine ⟨data, hdata, hid, hitem, hobtained.trans ?_⟩
  rw [relay, hitem, Option.bind_some, hdata, Option.map_some]

/-! ## One command -/

variable {relayData : Option ℕ} {key : List UInt8} {received : Option (Memory UInt8)}
  {o : Outcome}

theorem Effect.consistent (he : Effect m relayData key addr received o) (hm : Consistent m) :
    Consistent o.manager := by
  cases he with
  | refuse => exact hm
  | signup descriptor sent hnull hgen => exact (genRelay_spec hm hgen).1.describe _ _
  | signout sent hid => exact hm.removeRelay _
  | absent sent hnull => exact hm
  | foreign sent hid hget hdata => exact hm
  | exit sent => exact hm

/-- A command leaves the pointer of another session valid, if it does not remove the entry
    it leads to. -/
theorem Effect.validPointer (he : Effect m relayData key addr received o) (hm : Consistent m)
    (hvalid : ValidPointer m session)
    (hother : ∀ a ∈ session.relayData, ∀ id ∈ removedId m relayData key received,
      (m.items id).data ≠ some a) : ValidPointer o.manager session := by
  cases he with
  | refuse => exact hvalid
  | signup descriptor sent hnull hgen =>
    obtain ⟨-, id, hgenerated⟩ := genRelay_spec hm hgen
    exact (hvalid.of_generated hgenerated).describe _ _
  | signout sent hid => exact hvalid.removeRelay hm fun a ha => hother a ha _ hid
  | absent sent hnull => exact hvalid
  | foreign sent hid hget hdata => exact hvalid
  | exit sent => exact hvalid

/-- The relay of another key is looked up only while the pointer is `NULL`. -/
theorem null_of_foreignId (h : foreignId m relayData key received = some id) :
    relayData = none := by
  cases relayData with
  | none => rfl
  | some a => cases h

theorem getRelay_eq_some {a : ℕ} (h : m.getRelay id = some a) :
    id ∈ m.liveIds ∧ (m.items id).data = some a := by
  rw [getRelay_eq] at h
  exact Option.ite_none_right_eq_some.1 h

/-- The pointer that a command leaves to its own session is valid, if the session goes on. -/
theorem Effect.validPointer_next (he : Effect m session.relayData key addr received o)
    (hm : Consistent m) (hnext : (session.next o).running = true) :
    ValidPointer o.manager (session.next o) := by
  cases he with
  | refuse => cases hnext
  | signup descriptor sent hnull hgen =>
    obtain ⟨hm', id, hgenerated⟩ := genRelay_spec hm hgen
    have hlive : id ∈ (RelayManager.describe _ addr descriptor).liveIds :=
      hgenerated.liveIds ▸ Finset.mem_insert_self id m.liveIds
    refine validPointer_of_mem (hm'.describe _ _) hlive hgenerated.data.symm ?_
    rw [Session.next, hnull, relay]
    exact (congrArg (fun p => (Option.bind p _).map _) hgenerated.data).symm
  | signout sent hid => exact validPointer_of_null rfl
  | absent sent hnull => exact validPointer_of_null rfl
  | foreign sent hid hget hdata =>
    obtain ⟨hlive, hitem⟩ := getRelay_eq_some hget
    refine validPointer_of_mem hm hlive hitem.symm ?_
    rw [Session.next, null_of_foreignId hid, relay, hitem, Option.bind_some]
  | exit sent => exact validPointer_of_null rfl

/-! ## All pointers -/

variable {ι : Type*} [DecidableEq ι] (keys : ι → List UInt8)

/-- The pointers of the sessions that run are valid. -/
def PointersValid (s : Sessions ι) : Prop :=
  ∀ i, (s.session i).running = true → ValidPointer s.manager (s.session i)

/-- No SIGNOUT removes an entry that another session points to. -/
def KeepsOthers : Machine.Guard (Sessions ι) (SessionCommand ι) := fun s c =>
  ∀ i, i ≠ c.sender → (s.session i).running = true → ∀ a ∈ (s.session i).relayData,
    ∀ id ∈ removedId s.manager (s.session c.sender).relayData (keys c.sender) c.received,
      (s.manager.items id).data ≠ some a

/-- What the commands keep. -/
structure SessionsInvariant (s : Sessions ι) : Prop where
  consistent : Consistent s.manager
  valid : PointersValid s

variable {keys} {s s' : Sessions ι} {c : SessionCommand ι}

/-- A step is the effect of a command of a session that runs. -/
theorem effect_of_step (h : s.step keys c = some s') :
    (s.session c.sender).running = true ∧ ∃ o,
      Effect s.manager (s.session c.sender).relayData (keys c.sender) c.addr c.received o ∧
      s' = ⟨o.manager,
        fun i => if i = c.sender then (s.session c.sender).next o else s.session i,
        ⟨c.sender, s.manager, s.session c.sender, o⟩ :: s.events⟩ := by
  obtain ⟨hrunning, h⟩ := Option.ite_none_right_eq_some.1 h
  obtain ⟨o, ho, rfl⟩ := Option.map_eq_some_iff.1 h
  exact ⟨hrunning, o, effect_handleMessage ho, rfl⟩

theorem SessionsInvariant.step (hinv : SessionsInvariant s) (hguard : KeepsOthers keys s c)
    (h : s.step keys c = some s') : SessionsInvariant s' := by
  obtain ⟨-, o, he, rfl⟩ := effect_of_step h
  refine ⟨he.consistent hinv.consistent, fun i hi => ?_⟩
  by_cases hsender : i = c.sender
  · subst hsender
    dsimp only at hi ⊢
    rw [if_pos rfl] at hi ⊢
    exact he.validPointer_next hinv.consistent hi
  · dsimp only at hi ⊢
    rw [if_neg hsender] at hi ⊢
    exact he.validPointer hinv.consistent (hinv.valid i hi) (hguard i hsender hi)

theorem sessionsInvariant_of_init (hs : s ∈ (sessionMachine keys).init) : SessionsInvariant s := by
  obtain ⟨r, hr, rfl⟩ := hs
  exact ⟨(relayInvariant_of_reachable hr).consistent, fun _ _ => validPointer_of_null rfl⟩

/-- In every run in which no SIGNOUT removes an entry that another session points to, the
    pointers are valid. -/
theorem pointersValid_of_reachable
    (hs : (sessionMachine keys).Reachable (KeepsOthers keys) s) : PointersValid s := by
  refine (hs.invariant (I := SessionsInvariant) ?_ ?_).valid
  · intro s hs
    exact sessionsInvariant_of_init hs
  · intro s c s' hinv hguard h
    exact hinv.step hguard h

instance [Fintype ι] : ∀ s c, Decidable (KeepsOthers keys s c) := fun _ _ =>
  inferInstanceAs (Decidable (∀ _, _ → _ → ∀ _ ∈ _, ∀ _ ∈ _, _))

/-- A SIGNUP with an address of zeros. -/
def signupMessage : Memory UInt8 := fun a => if a = 0 then 1 else 0

/-- A SIGNOUT of the relay 0. -/
def signoutMessage : Memory UInt8 := fun a => if a = 0 then 2 else 0

/-- The key of 256 times the same byte. -/
def flatKey (b : UInt8) : List UInt8 := List.replicate 256 b

/-- Two relays of different keys. -/
def twoKeys (b : Bool) : List UInt8 := flatKey b.toUInt8

/-- An empty directory, before the first command. -/
def freshSessions (ι : Type*) : Sessions ι :=
  ⟨initRelayManager fun _ => 0, fun _ => .start, []⟩

theorem freshSessions_mem (keys : ι → List UInt8) : freshSessions ι ∈ (sessionMachine keys).init :=
  ⟨_, .init ⟨_, rfl⟩, rfl⟩

theorem pointersValid_twoRelays : ∃ s : Sessions Bool, PointersValid s ∧
    (s.session true).relayData = some 11 ∧ s.manager.liveIds = {1} := by
  have hrun : (Machine.run (Machine.checked (KeepsOthers twoKeys) (Sessions.step twoKeys))
      (freshSessions Bool)
      [⟨false, signupMessage, true, 10⟩, ⟨true, signupMessage, true, 11⟩,
        ⟨false, signoutMessage, true, 0⟩]).any
      (fun s => (s.session true).relayData = some 11 ∧ s.manager.liveIds = {1}) = true := by
    decide +kernel
  obtain ⟨s, hs, hrest⟩ := Machine.exists_of_run (freshSessions_mem twoKeys) hrun
  exact ⟨s, pointersValid_of_reachable hs, of_decide_eq_true hrest⟩

/-- A relay that signed up, and a second session with the same key that signs it out: the
    pointer of the first one leads to memory that was freed. -/
theorem not_pointersValid_freed : ∃ s : Sessions Bool,
    (sessionMachine fun _ => flatKey 1).Reachable Machine.anyStep s ∧ ¬ PointersValid s := by
  have hrun : (Machine.run (Machine.checked Machine.anyStep (Sessions.step fun _ => flatKey 1))
      (freshSessions Bool)
      [⟨false, signupMessage, true, 10⟩, ⟨true, signoutMessage, true, 0⟩]).any
      (fun s => (s.session false).running = true ∧ (s.session false).relayData = some 10 ∧
        (s.manager.heap 10).isSome = false) = true := by
    decide +kernel
  obtain ⟨s, hs, hrest⟩ := Machine.exists_of_run (freshSessions_mem fun _ => flatKey 1) hrun
  obtain ⟨hrunning, hpointer, hfreed⟩ := of_decide_eq_true hrest
  refine ⟨s, hs, fun hvalid => ?_⟩
  obtain ⟨data, hdata, -⟩ := hvalid false hrunning 10 hpointer
  rw [hdata] at hfreed
  cases hfreed

/-! ## Removals -/

/-- The command removes only what its session registered, or what has its key; and when it
    is answered with an error, it leaves the directory and the pointer as they were. -/
structure Event.Authorised (key : List UInt8) (e : Event ι) : Prop where
  removed : ∀ data ∈ e.outcome.removed,
    data.registration ∈ e.session.registered ∨ data.descriptor.publicKey = key
  baseError : e.outcome.response = some .baseError →
    e.outcome.manager = e.manager ∧ e.outcome.relayData = e.session.relayData

/-- All commands so far were authorised. -/
def Authorised (keys : ι → List UInt8) (s : Sessions ι) : Prop :=
  ∀ e ∈ s.events, e.Authorised (keys e.sender)

/-- No SIGNOUT names a relay of another key while the pointer is `NULL`. -/
def NamesNoForeign (keys : ι → List UInt8) : Machine.Guard (Sessions ι) (SessionCommand ι) :=
  fun s c =>
    foreignId s.manager (s.session c.sender).relayData (keys c.sender) c.received = none

/-- A session points only to what it registered. -/
def OwnPointer (session : Session) : Prop :=
  ∀ registration ∈ session.obtained, registration ∈ session.registered

/-- The relay that a SIGNOUT removes was registered by its session, or has its key. -/
theorem own_of_removedId (hm : Consistent m) (hvalid : ValidPointer m session)
    (hown : OwnPointer session) (h : removedId m session.relayData key received = some id) :
    ∀ data ∈ m.relay id, data.registration ∈ session.registered ∨
      data.descriptor.publicKey = key := by
  obtain ⟨buffer, -, h⟩ := Option.bind_eq_some_iff.1 h
  obtain ⟨-, h⟩ := Option.ite_none_right_eq_some.1 h
  intro data hdata
  rw [relay] at hdata
  cases hrelay : session.relayData with
  | some a =>
    -- The pointer was kept from an earlier command.
    obtain ⟨data', hdata', -, hitem, hobtained⟩ := hvalid a hrelay
    rw [hrelay, signoutId, hdata', Option.map_some] at h
    obtain rfl := Option.some_inj.1 h
    rw [hitem, Option.bind_some, hdata'] at hdata
    obtain rfl := Option.some_inj.1 hdata
    exact .inl (hown _ hobtained)
  | none =>
    rw [hrelay] at h
    obtain ⟨a, hget, h⟩ := Option.bind_eq_some_iff.1 h
    obtain ⟨data', hdata', h⟩ := Option.bind_eq_some_iff.1 h
    obtain ⟨hkey, h⟩ := Option.ite_none_right_eq_some.1 h
    obtain ⟨hlive, hitem⟩ := getRelay_eq_some hget
    obtain ⟨a', data'', hitem', hdata'', hid⟩ := hm.relay _ hlive
    obtain rfl := Option.some_inj.1 (hitem.symm.trans hitem')
    obtain rfl := Option.some_inj.1 (hdata'.symm.trans hdata'')
    obtain rfl := Option.some_inj.1 h
    rw [hid, hitem, Option.bind_some, hdata'] at hdata
    obtain rfl := Option.some_inj.1 hdata
    exact .inr hkey

omit [DecidableEq ι] in
theorem Effect.authorised {i : ι} (he : Effect m session.relayData key addr received o)
    (hm : Consistent m) (hvalid : ValidPointer m session) (hown : OwnPointer session)
    (hforeign : foreignId m session.relayData key received = none) :
    Event.Authorised key (⟨i, m, session, o⟩ : Event ι) := by
  cases he with
  | refuse => exact ⟨nofun, nofun⟩
  | signup descriptor sent hnull hgen => exact ⟨nofun, nofun⟩
  | signout sent hid =>
    refine ⟨fun data hdata => ?_, nofun⟩
    obtain ⟨-, hdata⟩ := Option.ite_none_right_eq_some.1 hdata
    exact own_of_removedId hm hvalid hown hid data hdata
  | absent sent hnull => exact ⟨nofun, fun _ => ⟨rfl, hnull.symm⟩⟩
  | foreign sent hid hget hdata => cases hid.symm.trans hforeign
  | exit sent => exact ⟨nofun, nofun⟩

theorem Effect.ownPointer (he : Effect m session.relayData key addr received o)
    (hown : OwnPointer session)
    (hforeign : foreignId m session.relayData key received = none) :
    OwnPointer (session.next o) := by
  intro registration hobtained
  cases he with
  | refuse =>
    rw [Session.next] at hobtained ⊢
    cases hrelay : session.relayData with
    | none =>
      simp only [refused, hrelay] at hobtained
      cases hobtained
    | some a =>
      simp only [refused, hrelay] at hobtained ⊢
      exact hown registration hobtained
  | signup descriptor sent hnull hgen =>
    rw [Session.next] at hobtained ⊢
    simp only [hnull] at hobtained ⊢
    -- The pointer is to the relay that this command registered.
    exact List.mem_append_left _ (Option.mem_toList.2 hobtained)
  | signout sent hid =>
    simp only [Session.next, signedOut] at hobtained
    cases hobtained
  | absent sent hnull =>
    simp only [Session.next] at hobtained
    cases hobtained
  | foreign sent hid hget hdata => cases hid.symm.trans hforeign
  | exit sent =>
    simp only [Session.next, handleExit] at hobtained
    cases hobtained

/-- What the commands of authorised sessions keep. -/
structure AuthorisedInvariant (keys : ι → List UInt8) (s : Sessions ι) : Prop where
  sessions : SessionsInvariant s
  own : ∀ i, OwnPointer (s.session i)
  authorised : Authorised keys s

theorem AuthorisedInvariant.step (hinv : AuthorisedInvariant keys s)
    (hkeeps : KeepsOthers keys s c) (hforeign : NamesNoForeign keys s c)
    (h : s.step keys c = some s') : AuthorisedInvariant keys s' := by
  refine ⟨hinv.sessions.step hkeeps h, ?_, ?_⟩
  · obtain ⟨-, o, he, rfl⟩ := effect_of_step h
    intro i
    dsimp only
    split_ifs with hsender
    · exact he.ownPointer (hinv.own c.sender) hforeign
    · exact hinv.own i
  · obtain ⟨hrunning, o, he, rfl⟩ := effect_of_step h
    refine List.forall_mem_cons.2 ⟨?_, hinv.authorised⟩
    exact he.authorised hinv.sessions.consistent (hinv.sessions.valid _ hrunning)
      (hinv.own c.sender) hforeign

/-- In every run of one session in which no SIGNOUT names a relay of another key while the
    pointer is `NULL`, the removals are authorised. -/
theorem authorised_of_reachable {keys : Unit → List UInt8} {s : Sessions Unit}
    (hs : (sessionMachine keys).Reachable (NamesNoForeign keys) s) : Authorised keys s := by
  refine (hs.invariant (I := AuthorisedInvariant keys) ?_ ?_).authorised
  · intro s hs
    have hsessions := sessionsInvariant_of_init hs
    obtain ⟨r, -, rfl⟩ := hs
    exact ⟨hsessions, nofun, nofun⟩
  · intro s c s' hinv hforeign h
    exact hinv.step (fun _ hne => absurd rfl hne) hforeign h

instance : ∀ s c, Decidable (NamesNoForeign keys s c) := fun _ _ =>
  inferInstanceAs (Decidable (_ = none))

theorem authorised_signout : ∃ s : Sessions Unit,
    Authorised (fun _ => flatKey 1) s ∧ s.events.length = 2 ∧ s.manager.liveIds = ∅ := by
  have hrun : (Machine.run (Machine.checked (NamesNoForeign fun _ => flatKey 1)
      (Sessions.step fun _ => flatKey 1)) (freshSessions Unit)
      [⟨(), signupMessage, true, 10⟩, ⟨(), signoutMessage, true, 0⟩]).any
      (fun s => s.events.length = 2 ∧ s.manager.liveIds = ∅) = true := by
    decide +kernel
  obtain ⟨s, hs, hrest⟩ := Machine.exists_of_run (freshSessions_mem fun _ => flatKey 1) hrun
  exact ⟨s, authorised_of_reachable hs, of_decide_eq_true hrest⟩

/-- A relay that signs out the relay of another key: the second time it is removed, through
    the pointer that the error of the first time left behind. -/
theorem not_authorised_twice : ∃ s : Sessions Unit,
    (sessionMachine fun _ => flatKey 1).Reachable Machine.anyStep s ∧
      ¬ Authorised (fun _ => flatKey 1) s := by
  have hrun : (Machine.run (Machine.checked Machine.anyStep RelayRun.step)
      ⟨initRelayManager fun _ => 0, 0⟩
      [.gen 10, .describe 10 ⟨List.replicate 20 0, flatKey 2⟩]).any
      (fun r => (Machine.run (Machine.checked Machine.anyStep (Sessions.step fun _ => flatKey 1))
        ⟨r.manager, fun _ : Unit => .start, []⟩
        [⟨(), signoutMessage, true, 0⟩, ⟨(), signoutMessage, true, 0⟩]).any
        fun s => ∃ e ∈ s.events, ∃ data ∈ e.outcome.removed,
          data.registration ∉ e.session.registered ∧ data.descriptor.publicKey ≠ flatKey 1) =
      true := by
    decide +kernel
  have hinit : ⟨initRelayManager fun _ => 0, 0⟩ ∈ relayMachine.init := ⟨_, rfl⟩
  obtain ⟨r, hr, hrun⟩ := Machine.exists_of_run hinit hrun
  have hsessions : ⟨r.manager, fun _ : Unit => .start, []⟩ ∈
      (sessionMachine fun _ => flatKey 1).init := ⟨r, hr, rfl⟩
  obtain ⟨s, hs, hremoved⟩ := Machine.exists_of_run hsessions hrun
  obtain ⟨e, he, data, hdata, hregistered, hkey⟩ := of_decide_eq_true hremoved
  refine ⟨s, hs, fun hauthorised => ?_⟩
  rcases (hauthorised e he).removed data hdata with hown | hsame
  · exact hregistered hown
  · exact hkey hsame

end OnionRouter.Directory
