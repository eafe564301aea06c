import OnionRouter.Streams.Protocol
import Mathlib.Data.List.Infix

/-!
# What streams send

The two ends of a circuit (`Streams.Protocol`), with the data that was sent to the exit and what
it handed to its connections. Data has the name of the stream that it was sent on; the exit only
sees the id.

* `Labelled.step`: if an id is drawn only when nothing is left of its last stream, data is handed
  to the connection of its own stream.
* `Prefixed.step`: a stream's connection is handed a first part of what was sent on it, and all of
  it but what is on its way, as long as it is there.
-/

namespace OnionRouter.Streams

open Lib

/-! ## Entries of one stream -/

section Along

variable {κ γ δ : Type*} [DecidableEq κ]

/-- The entries of a list that belong to `name`. -/
def along (name : κ) (l : List (κ × γ)) : List γ :=
  (l.filter fun entry => entry.1 = name).map Prod.snd

variable {name name' : κ} {payload : γ} {l : List (κ × γ)}

@[simp] theorem along_nil : along name ([] : List (κ × γ)) = [] := rfl

@[simp] theorem along_append (l l' : List (κ × γ)) :
    along name (l ++ l') = along name l ++ along name l' := by
  rw [along, List.filter_append, List.map_append]
  rfl

@[simp] theorem along_cons_self : along name ((name, payload) :: l) = payload :: along name l := by
  simp [along]

theorem along_cons_of_ne (h : name' ≠ name) :
    along name ((name', payload) :: l) = along name l := by
  simp [along, h]

theorem along_of_forall_ne (h : ∀ entry ∈ l, entry.1 ≠ name) : along name l = [] := by
  rw [along, List.filter_eq_nil_iff.2 fun entry hentry => by simpa using h entry hentry]
  rfl

@[simp] theorem along_map_self (payloads : List γ) :
    along name (payloads.map fun payload => (name, payload)) = payloads := by
  simp [along, List.filter_map, Function.comp_def]

theorem along_map_of_ne (h : name' ≠ name) (payloads : List γ) :
    along name (payloads.map fun payload => (name', payload)) = [] :=
  along_of_forall_ne fun entry hentry => by
    obtain ⟨payload, -, rfl⟩ := List.mem_map.1 hentry
    exact h

end Along

variable {ι κ β γ : Type*}

/-! ## What the ends do -/

/-- A stream that the exit has, or will have once its connect arrives. -/
def Opening (s : Ends ι κ β) (name : κ) : Prop :=
  ∃ id, .connect id name ∈ s.toExit ∨ name ∈ s.exit id

section Steps

variable [DecidableEq ι] {s s' : Ends ι κ β} {e : Event ι κ β} {id : ι} {name : κ}

/-- What an event adds to the messages to the exit. -/
def Event.adds : Event ι κ β → List (ToExit ι κ)
  | .connect id name => [.connect id name]
  | .close id => [.close id]
  | .send id n => List.replicate n (.data id)
  | .ping => [.other]
  | _ => []

theorem Step.toExit_eq (h : Streams.Step s e s') (he : ∀ succeeds, e ≠ .deliver succeeds) :
    s'.toExit = s.toExit ++ e.adds := by
  cases h with
  | connect | close | send | ping => rfl
  | socketData | socketEof | pushed | lost | dropped | noted => exact (List.append_nil _).symm
  | _ => exact absurd rfl (he _)

theorem Step.toExit_deliver {succeeds : Bool} (h : Streams.Step s (.deliver succeeds) s') :
    ∃ m, s.toExit = m :: s'.toExit := by
  cases h with
  | opened hqueue | refused hqueue | unsent hqueue | echoed hqueue => exact ⟨_, hqueue⟩
  | sent hqueue _ | closed hqueue _ => exact ⟨_, hqueue⟩

/-- The exit has a new connection only when a connect arrives. -/
theorem Step.exit (h : Streams.Step s e s') (hname : name ∈ s'.exit id) :
    name ∈ s.exit id ∨ ∃ succeeds, e = .deliver succeeds ∧
      s.toExit = .connect id name :: s'.toExit := by
  cases h with
  | opened hqueue => grind
  | closed hqueue herased => grind [Erased.subset]
  | socketEof hexit => grind
  | _ => exact .inl hname

/-- Only a connect makes a stream that the exit will have. -/
theorem Step.opening (h : Streams.Step s e s') (hname : Opening s' name) :
    Opening s name ∨ ∃ id, e = .connect id name := by
  obtain ⟨id, hconnect | hexit⟩ := hname
  · by_cases he : ∃ succeeds, e = .deliver succeeds
    · obtain ⟨succeeds, rfl⟩ := he
      obtain ⟨m, hqueue⟩ := h.toExit_deliver
      exact .inl ⟨id, .inl (hqueue ▸ List.mem_cons_of_mem m hconnect)⟩
    · rw [h.toExit_eq fun succeeds heq => he ⟨succeeds, heq⟩] at hconnect
      rcases List.mem_append.1 hconnect with hold | hnew
      · exact .inl ⟨id, .inl hold⟩
      · cases e with
        | connect id' name' =>
          obtain ⟨rfl, rfl⟩ := ToExit.connect.inj (List.mem_singleton.1 hnew)
          exact .inr ⟨_, rfl⟩
        | send id' n => cases List.eq_of_mem_replicate hnew
        | close id' => cases List.mem_singleton.1 hnew
        | ping => cases List.mem_singleton.1 hnew
        | _ => cases hnew
  · rcases h.exit hexit with hold | ⟨-, -, hqueue⟩
    · exact .inl ⟨id, .inr hold⟩
    · exact .inl ⟨id, .inl (hqueue ▸ List.mem_cons_self)⟩

end Steps

/-! ## The machine -/

/-- A message to the exit, with the stream that data belongs to. -/
inductive Outbound (ι κ γ : Type*)
  | connect (id : ι) (name : κ)
  | data (id : ι) (name : κ) (payload : γ)
  | close (id : ι)
  | other

/-- The message without the data. -/
def Outbound.message : Outbound ι κ γ → ToExit ι κ
  | connect id name => .connect id name
  | data id _ _ => .data id
  | close id => .close id
  | other => .other

/-- The data of messages, with its streams. -/
def outboundData (l : List (Outbound ι κ γ)) : List (κ × γ) :=
  l.filterMap fun
    | .data _ name payload => some (name, payload)
    | _ => none

theorem outboundData_append (l l' : List (Outbound ι κ γ)) :
    outboundData (l ++ l') = outboundData l ++ outboundData l' := List.filterMap_append

theorem outboundData_map (id : ι) (name : κ) (payloads : List γ) :
    outboundData (payloads.map (Outbound.data id name)) =
      payloads.map fun payload => (name, payload) := by
  rw [outboundData, List.filterMap_map]
  exact congrFun List.filterMap_eq_map' payloads

/-- The ends, with what was sent on streams. -/
structure Flow (ι κ β γ : Type*) where
  ends : Ends ι κ β
  /-- The messages to the exit, with their data. -/
  outbound : List (Outbound ι κ γ)
  /-- The id of every stream that there was. -/
  names : κ → Option ι
  /-- What the client has sent. -/
  sent : List (κ × γ)
  /-- What the exit has handed to its connections. -/
  offered : List (κ × γ)

theorem Flow.connect_mem_outbound {f : Flow ι κ β γ} {id : ι} {name : κ}
    (hmessage : f.outbound.map Outbound.message = f.ends.toExit) :
    .connect id name ∈ f.outbound ↔ .connect id name ∈ f.ends.toExit := by
  rw [← hmessage, List.mem_map]
  constructor
  · exact fun h => ⟨_, h, rfl⟩
  · rintro ⟨m, hm, heq⟩
    cases m with
    | connect id' name' =>
      obtain ⟨rfl, rfl⟩ := ToExit.connect.inj heq
      exact hm
    | _ => cases heq

variable [DecidableEq ι] [DecidableEq κ]

/-- What the exit hands to its connections of a message: data, if it knows the id. -/
def Offers (exit : ι → Multiset κ) : Outbound ι κ γ → List (κ × γ) → Prop
  | .data id _ payload, new => (exit id = 0 ∧ new = []) ∨ ∃ name ∈ exit id, new = [(name, payload)]
  | _, new => new = []

/-- What the ends do, and what goes through the streams then. -/
inductive Flow.Step : Flow ι κ β γ → Event ι κ β → Flow ι κ β γ → Prop
  | connect {f : Flow ι κ β γ} {id name ends} :
      Streams.Step f.ends (.connect id name) ends → f.names name = none →
      Flow.Step f (.connect id name)
        { f with
          ends := ends
          outbound := f.outbound ++ [.connect id name]
          names := Function.update f.names name (some id) }
  | close {f id ends} : Streams.Step f.ends (.close id) ends →
      Flow.Step f (.close id) { f with ends := ends, outbound := f.outbound ++ [.close id] }
  | send {f id name ends} {payloads : List γ} :
      Streams.Step f.ends (.send id payloads.length) ends → name ∈ f.ends.client id →
      Flow.Step f (.send id payloads.length)
        { f with
          ends := ends
          outbound := f.outbound ++ payloads.map (.data id name)
          sent := f.sent ++ payloads.map fun payload => (name, payload) }
  | ping {f ends} : Streams.Step f.ends .ping ends →
      Flow.Step f .ping { f with ends := ends, outbound := f.outbound ++ [.other] }
  | deliver {f m outbound new succeeds ends} : Streams.Step f.ends (.deliver succeeds) ends →
      f.outbound = m :: outbound → Offers f.ends.exit m new →
      Flow.Step f (.deliver succeeds)
        { f with ends := ends, outbound := outbound, offered := f.offered ++ new }
  | socketData {f id payload ends} : Streams.Step f.ends (.socketData id payload) ends →
      Flow.Step f (.socketData id payload) { f with ends := ends }
  | socketEof {f id ends} : Streams.Step f.ends (.socketEof id) ends →
      Flow.Step f (.socketEof id) { f with ends := ends }
  | receive {f ends} : Streams.Step f.ends .receive ends →
      Flow.Step f .receive { f with ends := ends }

namespace Flow

variable {f f' : Flow ι κ β γ} {e : Event ι κ β} {id : ι} {name : κ}

/-! ## Where data goes -/

/-- Of two messages that follow each other: data behind a connect for its id belongs to that
    stream, and no data comes before the connect of its stream. -/
def Orderly : Outbound ι κ γ → Outbound ι κ γ → Prop
  | .connect id name, .data id' name' _ => id' = id → name' = name
  | .data _ name _, .connect _ name' => name ≠ name'
  | _, _ => True

/-- Where a stream is seen under an id. -/
def Occurs (f : Flow ι κ β γ) (id : ι) (name : κ) : Prop :=
  .connect id name ∈ f.outbound ∨ (∃ payload, .data id name payload ∈ f.outbound) ∨
    name ∈ f.ends.exit id ∨ name ∈ f.ends.client id

/-- The labels of the messages say which streams they belong to. -/
structure Labelled (f : Flow ι κ β γ) : Prop where
  message : f.outbound.map Outbound.message = f.ends.toExit
  isolated : Isolation.Invariant f.ends
  named : ∀ id name, Occurs f id name → f.names name = some id
  order : f.outbound.Pairwise Orderly
  own : ∀ id name payload, .data id name payload ∈ f.outbound → ∀ name' ∈ f.ends.exit id,
    name = name'

/-- A flow step is one of the two ends. -/
theorem Step.ends (h : Flow.Step f e f') : Streams.Step f.ends e f'.ends := by
  cases h with
  | connect h _ | close h | send h _ | ping h | deliver h _ _ => exact h
  | socketData h | socketEof h | receive h => exact h

theorem Step.message (hmessage : f.outbound.map Outbound.message = f.ends.toExit)
    (h : Flow.Step f e f') : f'.outbound.map Outbound.message = f'.ends.toExit := by
  have hends := h.ends
  cases h with
  | deliver h hqueue _ =>
    obtain ⟨m', htoExit⟩ := h.toExit_deliver
    rw [hqueue, htoExit, List.map_cons] at hmessage
    exact (List.cons.inj hmessage).2
  | send h _ =>
    rw [List.map_append, hmessage, hends.toExit_eq (by simp), List.map_map]
    exact congrArg _ List.map_const'
  | connect h _ | close h | ping h =>
    rw [List.map_append, hmessage, hends.toExit_eq (by simp)]
    rfl
  | socketData | socketEof | receive =>
    rw [hends.toExit_eq (by simp), ← hmessage]
    exact (List.append_nil _).symm

/-- What a step adds to the messages, and that it takes at most the next one. -/
theorem Step.mem_outbound (h : Flow.Step f e f') {m : Outbound ι κ γ} (hm : m ∈ f'.outbound) :
    m ∈ f.outbound ∨ (∃ id name, e = .connect id name ∧ m = .connect id name) ∨
      (∃ id name payload, m = .data id name payload ∧ name ∈ f.ends.client id) ∨
        (∃ id, m = .close id) ∨ m = .other := by
  cases h with
  | connect => grind
  | close => grind
  | send _ hname => grind
  | ping => grind
  | deliver _ hqueue _ => exact .inl (hqueue ▸ List.mem_cons_of_mem _ hm)
  | _ => exact .inl hm

theorem Labelled.occurs (hf : Labelled f) (h : Flow.Step f e f') (hoccurs : Occurs f' id name) :
    Occurs f id name ∨ e = .connect id name := by
  rcases hoccurs with hconnect | ⟨payload, hdata⟩ | hexit | hclient
  · rcases h.mem_outbound hconnect with hold | ⟨id', name', rfl, heq⟩ | ⟨_, _, _, heq, -⟩ |
      ⟨_, heq⟩ | heq
    · exact .inl (.inl hold)
    · obtain ⟨rfl, rfl⟩ := Outbound.connect.inj heq
      exact .inr rfl
    all_goals cases heq
  · rcases h.mem_outbound hdata with hold | ⟨_, _, -, heq⟩ | ⟨id', name', payload', heq, hclient⟩ |
      ⟨_, heq⟩ | heq
    · exact .inl (.inr (.inl ⟨payload, hold⟩))
    · cases heq
    · obtain ⟨rfl, rfl, rfl⟩ := Outbound.data.inj heq
      exact .inl (.inr (.inr (.inr hclient)))
    all_goals cases heq
  · rcases h.ends.exit hexit with hold | ⟨-, -, hqueue⟩
    · exact .inl (.inr (.inr (.inl hold)))
    · have hmem : ToExit.connect id name ∈ f.ends.toExit := hqueue ▸ List.mem_cons_self
      exact .inl (.inl ((connect_mem_outbound hf.message).2 hmem))
  · rcases h.ends.client hclient with hold | ⟨rfl, -⟩
    · exact .inl (.inr (.inr (.inr hold)))
    · exact .inr rfl

omit [DecidableEq ι] [DecidableEq κ] in
/-- A stream of the client is the one that is attached under its id. -/
theorem Labelled.eq_of_attached (hf : Labelled f) {name' : κ} (hclient : name ∈ f.ends.client id)
    (h : .connect id name' ∈ f.outbound ∨ name' ∈ f.ends.exit id) : name = name' := by
  refine (hf.isolated.attached id name' ?_ name hclient).symm
  rcases h with hconnect | hexit
  · exact .inl ((connect_mem_outbound hf.message).1 hconnect)
  · exact .inr (.inl hexit)

theorem Labelled.order_step (hf : Labelled f) (h : Flow.Step f e f') :
    f'.outbound.Pairwise Orderly := by
  cases h with
  | @connect id name _ _ hnone =>
    refine List.pairwise_append.2 ⟨hf.order, List.pairwise_singleton _ _, fun m hm m' hm' => ?_⟩
    obtain rfl := List.mem_singleton.1 hm'
    cases m with
    | data id' name' payload =>
      rintro rfl
      cases hnone.symm.trans (hf.named id' _ (.inr (.inl ⟨payload, hm⟩)))
    | _ => trivial
  | send _ hname =>
    refine List.pairwise_append.2 ⟨hf.order, ?_, fun m hm m' hm' => ?_⟩
    · exact List.pairwise_map.2 (List.pairwise_of_forall fun _ _ => trivial)
    · obtain ⟨payload, -, rfl⟩ := List.mem_map.1 hm'
      cases m with
      | connect id' name' =>
        rintro rfl
        exact hf.eq_of_attached hname (.inl hm)
      | _ => trivial
  | close | ping =>
    refine List.pairwise_append.2 ⟨hf.order, List.pairwise_singleton _ _, fun m hm m' hm' => ?_⟩
    obtain rfl := List.mem_singleton.1 hm'
    cases m <;> trivial
  | deliver _ hqueue _ =>
    have horder := hf.order
    rw [hqueue] at horder
    exact (List.pairwise_cons.1 horder).2
  | _ => exact hf.order

theorem Labelled.own_step (hf : Labelled f) (h : Flow.Step f e f') (id : ι) (name : κ) (payload : γ)
    (hdata : .data id name payload ∈ f'.outbound) (name' : κ) (hname' : name' ∈ f'.ends.exit id) :
    name = name' := by
  rcases h.ends.exit hname' with hold | ⟨succeeds, rfl, htoExit⟩
  · rcases h.mem_outbound hdata with hdata | ⟨_, _, -, heq⟩ |
      ⟨id', name'', payload', heq, hclient⟩ | ⟨_, heq⟩ | heq
    · exact hf.own id name payload hdata name' hold
    · cases heq
    · obtain ⟨rfl, rfl, rfl⟩ := Outbound.data.inj heq
      exact hf.eq_of_attached hclient (.inr hold)
    all_goals cases heq
  -- The connection is new, and the data was behind its connect.
  · cases h with
    | @deliver m _ _ _ _ _ hqueue _ =>
      have hmessage := hf.message
      have horder := hf.order
      rw [htoExit, hqueue, List.map_cons] at hmessage
      rw [hqueue] at horder
      have hfirst := (List.cons.inj hmessage).1
      cases m with
      | connect id' name'' =>
        obtain ⟨rfl, rfl⟩ := ToExit.connect.inj hfirst
        exact (List.pairwise_cons.1 horder).1 _ hdata rfl
      | _ => cases hfirst

theorem Labelled.step (hf : Labelled f) (hfresh : Isolation.FreshIds f.ends e)
    (h : Flow.Step f e f') : Labelled f' where
  message := h.message hf.message
  isolated := hf.isolated.step hfresh h.ends
  named := by
    intro id name hoccurs
    have hbefore := hf.occurs h hoccurs
    cases h with
    | @connect id' name' _ _ hnone =>
      rcases hbefore with hold | heq
      · have hne : name ≠ name' := by
          rintro rfl
          cases hnone.symm.trans (hf.named id _ hold)
        exact (Function.update_of_ne hne _ _).trans (hf.named id name hold)
      · obtain ⟨rfl, rfl⟩ := Event.connect.inj heq
        exact Function.update_self _ _ _
    | _ =>
      rcases hbefore with hold | heq
      · exact hf.named id name hold
      · cases heq
  order := hf.order_step h
  own := hf.own_step h

/-! ## What arrives of a stream -/

/-- What was handed to the connection of a stream is the first part of what was sent on it, and
    all of it but what is on its way, unless the stream has been closed at the exit. -/
structure Prefixed (f : Flow ι κ β γ) : Prop where
  offered : ∀ name, along name f.offered <+: along name f.sent
  rest : ∀ name, Opening f.ends name →
    along name f.offered ++ along name (outboundData f.outbound) = along name f.sent
  unnamed : ∀ name, f.names name = none → along name f.sent = []

omit [DecidableEq ι] in
/-- Data on its way is data of a stream that there was. -/
theorem Labelled.along_eq_nil (hf : Labelled f) (hnone : f.names name = none) :
    along name (outboundData f.outbound) = [] := by
  refine along_of_forall_ne fun entry hentry => ?_
  obtain ⟨m, hm, heq⟩ := List.mem_filterMap.1 hentry
  cases m with
  | data id name' payload =>
    obtain rfl := Option.some_inj.1 heq
    rintro rfl
    cases hnone.symm.trans (hf.named id _ (.inr (.inl ⟨payload, hm⟩)))
  | _ => cases heq

omit [DecidableEq ι] [DecidableEq κ] in
/-- A stream whose data finds no connection has been closed. -/
theorem Labelled.not_opening (hf : Labelled f) {payload : γ} {outbound : List (Outbound ι κ γ)}
    (hqueue : f.outbound = .data id name payload :: outbound) (hnone : f.ends.exit id = 0) :
    ¬ Opening f.ends name := by
  have hnamed := hf.named id name (.inr (.inl ⟨payload, hqueue ▸ List.mem_cons_self⟩))
  rintro ⟨id', hconnect | hexit⟩
  · have hmem : .connect id' name ∈ f.outbound := (connect_mem_outbound hf.message).2 hconnect
    have horder := hf.order
    rw [hqueue] at hmem horder
    rcases List.mem_cons.1 hmem with heq | hmem
    · cases heq
    · exact (List.pairwise_cons.1 horder).1 _ hmem rfl
  · have hnamed' := hf.named id' name (.inr (.inr (.inl hexit)))
    obtain rfl := Option.some_inj.1 (hnamed.symm.trans hnamed')
    rw [hnone] at hexit
    cases Multiset.notMem_zero _ hexit

theorem Prefixed.step (hp : Prefixed f) (hf : Labelled f) (h : Flow.Step f e f') :
    Prefixed f' := by
  have hopening : ∀ name, Opening f'.ends name →
      Opening f.ends name ∨ ∃ id, e = .connect id name := fun _ => h.ends.opening
  cases h with
  | @connect id name ends _ hnone =>
    have hdata : outboundData (f.outbound ++ [.connect id name]) = outboundData f.outbound := by
      rw [outboundData_append]
      exact List.append_nil _
    refine ⟨hp.offered, fun name' hname' => ?_, fun name' hname' => ?_⟩
    · rw [hdata]
      rcases hopening name' hname' with hold | ⟨id', heq⟩
      · exact hp.rest name' hold
      · obtain ⟨-, rfl⟩ := Event.connect.inj heq
        have hsent := hp.unnamed name hnone
        have hoffered := hp.offered name
        rw [hsent] at hoffered
        rw [hsent, hf.along_eq_nil hnone, List.prefix_nil.1 hoffered]
        rfl
    · refine hp.unnamed name' ?_
      by_cases heq : name' = name
      · rw [heq]
        exact hnone
      · exact (Function.update_of_ne heq _ _).symm.trans hname'
  | close | ping =>
    refine ⟨hp.offered, fun name hname => ?_, hp.unnamed⟩
    rcases hopening name hname with hold | ⟨id, heq⟩
    · rw [outboundData_append]
      exact (congrArg _ (congrArg _ (List.append_nil _))).trans (hp.rest name hold)
    · cases heq
  | @send id name ends payloads _ hclient =>
    refine ⟨fun name' => ?_, fun name' hname' => ?_, fun name' hname' => ?_⟩
    · rw [along_append]
      exact (hp.offered name').trans (List.prefix_append _ _)
    · rcases hopening name' hname' with hold | ⟨id, heq⟩
      · rw [outboundData_append, outboundData_map, along_append, along_append, ← List.append_assoc,
          hp.rest name' hold]
      · cases heq
    · have hne : name ≠ name' := by
        rintro rfl
        cases hname'.symm.trans (hf.named id name (.inr (.inr (.inr hclient))))
      rw [along_append, along_map_of_ne hne, hp.unnamed name' hname']
      rfl
  | @deliver m outbound new succeeds ends _ hqueue hoffers =>
    have hrest := hp.rest
    rw [hqueue] at hrest
    cases m with
    | data id name payload =>
      have hcons : outboundData (.data id name payload :: outbound) =
          (name, payload) :: outboundData outbound := rfl
      rw [hcons] at hrest
      rcases hoffers with ⟨hnone, rfl⟩ | ⟨name', hexit, rfl⟩
      -- The stream has been closed, so that only others go on.
      · have hclosed := hf.not_opening hqueue hnone
        rw [List.append_nil]
        refine ⟨hp.offered, fun name' hname' => ?_, hp.unnamed⟩
        rcases hopening name' hname' with hold | ⟨id', heq⟩
        · have hne : name ≠ name' := fun heq => hclosed (heq ▸ hold)
          rw [← hrest name' hold, along_cons_of_ne hne]
        · cases heq
      · obtain rfl := hf.own id name payload (hqueue ▸ List.mem_cons_self) name' hexit
        have hmoved : ∀ name', along name' (f.offered ++ [(name, payload)]) ++
            along name' (outboundData outbound) =
              along name' f.offered ++ along name' ((name, payload) :: outboundData outbound) := by
          intro name'
          rw [along_append, List.append_assoc, ← along_append]
          rfl
        refine ⟨fun name' => ?_, fun name' hname' => ?_, hp.unnamed⟩
        · by_cases heq : name = name'
          · obtain rfl := heq
            rw [← hrest name ⟨id, .inr hexit⟩, ← hmoved]
            exact List.prefix_append _ _
          · rw [along_append, along_cons_of_ne heq, along_nil, List.append_nil]
            exact hp.offered name'
        · rcases hopening name' hname' with hold | ⟨id', heq⟩
          · rw [hmoved, hrest name' hold]
          · cases heq
    | _ =>
      obtain rfl : new = [] := hoffers
      rw [List.append_nil]
      refine ⟨hp.offered, fun name hname => ?_, hp.unnamed⟩
      rcases hopening name hname with hold | ⟨id, heq⟩
      · exact hrest name hold
      · cases heq
  | _ =>
    refine ⟨hp.offered, fun name hname => ?_, hp.unnamed⟩
    rcases hopening name hname with hold | ⟨id, heq⟩
    · exact hp.rest name hold
    · cases heq

end Flow

end OnionRouter.Streams
