import OnionRouter.Lib.Transition
import Mathlib.Data.Multiset.AddSub
import Mathlib.Logic.Function.Basic

/-!
# Streams between two ends

What the two ends of a circuit do with their streams, over any ids and without
cells: the client opens and closes streams under ids of its own choice, the exit
opens a connection for every stream and passes on what it reads from it, and the
messages travel in two queues. Every connection has the name of the connect that it
was opened for.

An end answers a message for an id that it does not know, and both may close a
stream, so that a message for an id may arrive when the id means another stream
already. What the machine promises depends on what the client and the connections
are allowed to do.

* `Step.attached`, `Step.client`, `Step.pushes`, `Step.toClient`,
  `Step.client_ne_zero`, `Step.running`: what a step can do.
* `Isolation.Invariant.step`: if an id is drawn only when nothing is left of its last
  stream, data reaches the stream that its connection was opened for.
* `Payloads.Invariant.step`: data arrives as it was sent.
* `Survival.Invariant.step`: if the client closes no stream, and no connection sends,
  at the wrong time, the client knows the id of all data.
-/

namespace OnionRouter.Streams

open Lib

variable {ι κ β : Type*} [DecidableEq ι]

/-! ## The machine -/

/-- A message to the exit. -/
inductive ToExit (ι κ : Type*)
  | connect (id : ι) (name : κ)
  | data (id : ι)
  | close (id : ι)
  | other

/-- A message to the client. -/
inductive ToClient (ι κ β : Type*)
  | data (id : ι) (source : κ) (payload : β)
  | close (id : ι)
  | other

/-- The two ends and the messages between them. -/
@[ext] structure Ends (ι κ β : Type*) where
  /-- The streams of the client under every id. -/
  client : ι → Multiset κ
  /-- The connections of the exit under every id. -/
  exit : ι → Multiset κ
  toExit : List (ToExit ι κ)
  toClient : List (ToClient ι κ β)
  /-- The data that streams have received, with the stream and the connection. -/
  pushes : List (κ × κ × β)
  /-- Whether the client has known the id of all data that arrived. -/
  running : Bool

/-- The events; a message is dealt with successfully or not. -/
inductive Event (ι κ β : Type*)
  | connect (id : ι) (name : κ)
  | close (id : ι)
  | send (id : ι) (n : ℕ)
  | ping
  | deliver (succeeds : Bool)
  | socketData (id : ι) (payload : β)
  | socketEof (id : ι)
  | receive

/-- One entry less, if there is one. -/
def Erased (before after : Multiset κ) : Prop :=
  (before = 0 ∧ after = 0) ∨ ∃ name, before = name ::ₘ after

theorem Erased.subset {before after : Multiset κ} (h : Erased before after) {name : κ}
    (hname : name ∈ after) : name ∈ before := by
  rcases h with ⟨-, rfl⟩ | ⟨name', rfl⟩
  · cases Multiset.notMem_zero name hname
  · exact Multiset.mem_cons_of_mem hname

/-- What the two ends do. -/
inductive Step : Ends ι κ β → Event ι κ β → Ends ι κ β → Prop
  | connect {s id name} : s.client id = 0 →
      Step s (.connect id name)
        { s with
          client := Function.update s.client id {name}
          toExit := s.toExit ++ [.connect id name] }
  | close {s id rest} : Erased (s.client id) rest →
      Step s (.close id)
        { s with client := Function.update s.client id rest, toExit := s.toExit ++ [.close id] }
  | send {s id n} : s.client id ≠ 0 →
      Step s (.send id n) { s with toExit := s.toExit ++ List.replicate n (.data id) }
  | ping {s} : Step s .ping { s with toExit := s.toExit ++ [.other] }
  | opened {s id name l} : s.toExit = .connect id name :: l →
      Step s (.deliver true)
        { s with
          exit := Function.update s.exit id (name ::ₘ s.exit id)
          toExit := l
          toClient := s.toClient ++ [.other] }
  | refused {s id name l} : s.toExit = .connect id name :: l →
      Step s (.deliver false) { s with toExit := l, toClient := s.toClient ++ [.close id] }
  | sent {s id l} : s.toExit = .data id :: l → s.exit id ≠ 0 →
      Step s (.deliver true) { s with toExit := l }
  | unsent {s id l} : s.toExit = .data id :: l →
      Step s (.deliver false) { s with toExit := l, toClient := s.toClient ++ [.close id] }
  | closed {s id l rest} : s.toExit = .close id :: l → Erased (s.exit id) rest →
      Step s (.deliver true)
        { s with
          exit := Function.update s.exit id rest
          toExit := l
          toClient := s.toClient ++ [.close id] }
  | echoed {s l} : s.toExit = .other :: l →
      Step s (.deliver true) { s with toExit := l, toClient := s.toClient ++ [.other] }
  | socketData {s id name payload} : name ∈ s.exit id →
      Step s (.socketData id payload)
        { s with toClient := s.toClient ++ [.data id name payload] }
  | socketEof {s id name rest} : s.exit id = name ::ₘ rest →
      Step s (.socketEof id)
        { s with exit := Function.update s.exit id rest, toClient := s.toClient ++ [.close id] }
  | pushed {s id source payload l name} : s.toClient = .data id source payload :: l →
      name ∈ s.client id →
      Step s .receive { s with toClient := l, pushes := s.pushes ++ [(name, source, payload)] }
  | lost {s id source payload l} : s.toClient = .data id source payload :: l → s.client id = 0 →
      Step s .receive { s with toClient := l, running := false }
  | dropped {s id l rest} : s.toClient = .close id :: l → Erased (s.client id) rest →
      Step s .receive { s with client := Function.update s.client id rest, toClient := l }
  | noted {s l} : s.toClient = .other :: l → Step s .receive { s with toClient := l }

/-- The machine starts without streams and messages. -/
def endsMachine (ι κ β : Type*) [DecidableEq ι] : Machine (Ends ι κ β) (Event ι κ β) where
  init := {⟨fun _ => 0, fun _ => 0, [], [], [], true⟩}
  step := Step

/-! ## What a step can do -/

variable {s s' : Ends ι κ β} {e : Event ι κ β}

/-- What is left of a stream outside the client: its connect on the way, its
    connection, or data from it on the way back. -/
def Attached (s : Ends ι κ β) (id : ι) (name : κ) : Prop :=
  .connect id name ∈ s.toExit ∨ name ∈ s.exit id ∨ ∃ payload, .data id name payload ∈ s.toClient

/-- Only a connect attaches anything. -/
theorem Step.attached (h : Step s e s') {id : ι} {name : κ} (hs' : Attached s' id name) :
    Attached s id name ∨ e = .connect id name := by
  unfold Attached at *
  cases h with
  | closed hhead herased => grind [Erased.subset]
  | _ => grind

/-- Only a connect gives the client a stream. -/
theorem Step.client (h : Step s e s') {id : ι} {name : κ} (hs' : name ∈ s'.client id) :
    name ∈ s.client id ∨ (e = .connect id name ∧ s'.client id = {name}) := by
  cases h with
  | connect hnone => grind [Multiset.mem_singleton]
  | close herased => grind [Erased.subset]
  | dropped hhead herased => grind [Erased.subset]
  | _ => grind

/-- A stream receives data that is on its way to its id. -/
theorem Step.pushes (h : Step s e s') {push : κ × κ × β} (hs' : push ∈ s'.pushes) :
    push ∈ s.pushes ∨ ∃ id, push.1 ∈ s.client id ∧ .data id push.2.1 push.2.2 ∈ s.toClient := by
  cases h with
  | pushed hhead hname => grind
  | _ => grind

/-- A step takes the next message to the client, or adds one, which is data only if
    a connection has sent it. -/
theorem Step.toClient (h : Step s e s') :
    s'.toClient = s.toClient ∨
      (∃ m, s'.toClient = s.toClient ++ [m] ∧
        ∀ id source payload, m = .data id source payload → e = .socketData id payload) ∨
      ∃ m, s.toClient = m :: s'.toClient ∧ e = .receive := by
  cases h with
  | opened => exact .inr (.inl ⟨_, rfl, fun _ _ _ heq => by cases heq⟩)
  | refused => exact .inr (.inl ⟨_, rfl, fun _ _ _ heq => by cases heq⟩)
  | unsent => exact .inr (.inl ⟨_, rfl, fun _ _ _ heq => by cases heq⟩)
  | closed => exact .inr (.inl ⟨_, rfl, fun _ _ _ heq => by cases heq⟩)
  | echoed => exact .inr (.inl ⟨_, rfl, fun _ _ _ heq => by cases heq⟩)
  | socketEof => exact .inr (.inl ⟨_, rfl, fun _ _ _ heq => by cases heq⟩)
  | socketData => exact .inr (.inl ⟨_, rfl, fun _ _ _ heq => by cases heq; rfl⟩)
  | pushed hhead => exact .inr (.inr ⟨_, hhead, rfl⟩)
  | lost hhead => exact .inr (.inr ⟨_, hhead, rfl⟩)
  | dropped hhead => exact .inr (.inr ⟨_, hhead, rfl⟩)
  | noted hhead => exact .inr (.inr ⟨_, hhead, rfl⟩)
  | _ => exact .inl rfl

/-- The client loses a stream by closing it, or by a close that arrives. -/
theorem Step.client_ne_zero (h : Step s e s') {id : ι} (hid : s.client id ≠ 0) :
    s'.client id ≠ 0 ∨ e = .close id ∨ s.toClient = .close id :: s'.toClient := by
  cases h with
  | connect hnone => grind
  | close herased => grind
  | dropped hhead herased => grind
  | _ => exact .inl hid

/-- The client stops at data for an id that it does not know. -/
theorem Step.running (h : Step s e s') :
    s'.running = s.running ∨
      ∃ id source payload, .data id source payload ∈ s.toClient ∧ s.client id = 0 := by
  cases h with
  | lost hhead hnone => exact .inr ⟨_, _, _, hhead ▸ List.mem_cons_self, hnone⟩
  | _ => exact .inl rfl

/-! ## Isolation -/

namespace Isolation

/-- An id is drawn only when nothing is left of its last stream. -/
def FreshIds : Machine.Guard (Ends ι κ β) (Event ι κ β)
  | s, .connect id _ => ∀ name, ¬ Attached s id name
  | _, _ => True

/-- What is left of a stream of the client belongs to it. -/
structure Invariant (s : Ends ι κ β) : Prop where
  attached : ∀ id name, Attached s id name → ∀ name' ∈ s.client id, name = name'
  pushes : ∀ push ∈ s.pushes, push.2.1 = push.1

theorem Invariant.step (hinv : Invariant s) (hfresh : FreshIds s e) (h : Step s e s') :
    Invariant s' where
  attached := by
    intro id name hname name' hname'
    rcases h.attached hname with hold | rfl
    · rcases h.client hname' with hold' | ⟨rfl, -⟩
      · exact hinv.attached id name hold name' hold'
      · exact absurd hold (hfresh name)
    · rcases h.client hname' with hold' | ⟨heq, -⟩
      · cases h with
        | connect hnone =>
          rw [hnone] at hold'
          cases Multiset.notMem_zero name' hold'
      · exact (Event.connect.inj heq).2
  pushes := by
    intro push hpush
    rcases h.pushes hpush with hold | ⟨id, hclient, hdata⟩
    · exact hinv.pushes push hold
    · exact hinv.attached id _ (.inr (.inr ⟨_, hdata⟩)) _ hclient

/-- A stream receives data from the connection that was opened for it. -/
theorem invariant_of_reachable (hs : (endsMachine ι κ β).Reachable FreshIds s) : Invariant s := by
  refine hs.invariant ?_ fun _ _ _ hinv hfresh h => hinv.step hfresh h
  rintro _ rfl
  exact ⟨fun _ _ _ _ h => absurd h (Multiset.notMem_zero _), fun _ h => absurd h List.not_mem_nil⟩

end Isolation

/-! ## Payloads -/

namespace Payloads

/-- What connections send has a property. -/
def Sends (P : β → Prop) : Machine.Guard (Ends ι κ β) (Event ι κ β)
  | _, .socketData _ payload => P payload
  | _, _ => True

/-- All data has the property. -/
structure Invariant (P : β → Prop) (s : Ends ι κ β) : Prop where
  toClient : ∀ id source payload, .data id source payload ∈ s.toClient → P payload
  pushes : ∀ push ∈ s.pushes, P push.2.2

theorem Invariant.step {P : β → Prop} (hinv : Invariant P s) (hsends : Sends P s e)
    (h : Step s e s') : Invariant P s' where
  toClient := by
    intro id source payload hdata
    rcases h.toClient with heq | ⟨m, heq, hm⟩ | ⟨m, heq, -⟩
    · exact hinv.toClient id source payload (heq ▸ hdata)
    · rcases List.mem_append.1 (heq ▸ hdata) with hold | hnew
      · exact hinv.toClient id source payload hold
      · obtain rfl := hm id source payload (List.mem_singleton.1 hnew).symm
        exact hsends
    · exact hinv.toClient id source payload (heq ▸ List.mem_cons_of_mem m hdata)
  pushes := by
    intro push hpush
    rcases h.pushes hpush with hold | ⟨id, -, hdata⟩
    · exact hinv.pushes push hold
    · exact hinv.toClient id _ _ hdata

theorem invariant_of_reachable {P : β → Prop} (hs : (endsMachine ι κ β).Reachable (Sends P) s) :
    Invariant P s := by
  refine hs.invariant ?_ fun _ _ _ hinv hsends h => hinv.step hsends h
  rintro _ rfl
  exact ⟨fun _ _ _ h => absurd h List.not_mem_nil, fun _ h => absurd h List.not_mem_nil⟩

end Payloads

/-! ## Survival -/

namespace Survival

/-- The client closes a stream only when no data is on its way to it, and a
    connection sends only to a stream that the client has, and that is not being
    closed. -/
def Timely : Machine.Guard (Ends ι κ β) (Event ι κ β)
  | s, .close id => ∀ source payload, .data id source payload ∉ s.toClient
  | s, .socketData id _ => s.client id ≠ 0 ∧ .close id ∉ s.toClient
  | _, _ => True

/-- No data for an id comes after a close of it. -/
def NoneAfterClose (l : List (ToClient ι κ β)) : Prop :=
  l.Pairwise fun m m' => ∀ id, m = .close id → ∀ source payload, m' ≠ .data id source payload

omit [DecidableEq ι] in
theorem NoneAfterClose.append {l : List (ToClient ι κ β)} (h : NoneAfterClose l)
    {m : ToClient ι κ β} (hm : ∀ id source payload, m = .data id source payload → .close id ∉ l) :
    NoneAfterClose (l ++ [m]) := by
  refine List.pairwise_append.2 ⟨h, List.pairwise_singleton _ _, ?_⟩
  rintro _ hclose _ hdata id rfl source payload rfl
  exact hm id source payload (List.mem_singleton.1 hdata).symm hclose

/-- The client has the stream of all data that is on its way to it. -/
structure Invariant (s : Ends ι κ β) : Prop where
  known : ∀ id source payload, .data id source payload ∈ s.toClient → s.client id ≠ 0
  order : NoneAfterClose s.toClient
  running : s.running = true

theorem Invariant.step (hinv : Invariant s) (htimely : Timely s e) (h : Step s e s') :
    Invariant s' where
  known := by
    intro id source payload hdata
    -- Data on the way was there before, or was read from its socket just now.
    have hbefore : .data id source payload ∈ s.toClient ∨ e = .socketData id payload := by
      rcases h.toClient with heq | ⟨m, heq, hm⟩ | ⟨m, heq, -⟩
      · exact .inl (heq ▸ hdata)
      · rcases List.mem_append.1 (heq ▸ hdata) with hold | hnew
        · exact .inl hold
        · exact .inr (hm id source payload (List.mem_singleton.1 hnew).symm)
      · exact .inl (heq ▸ List.mem_cons_of_mem m hdata)
    have hclient : s.client id ≠ 0 := by
      rcases hbefore with hold | rfl
      · exact hinv.known id source payload hold
      · exact htimely.1
    rcases h.client_ne_zero hclient with hkept | rfl | hhead
    · exact hkept
    · rcases hbefore with hold | heq
      · exact absurd hold (htimely source payload)
      · cases heq
    · -- The close that arrives has no data behind it.
      have horder := hinv.order
      rw [NoneAfterClose, hhead] at horder
      exact absurd rfl ((List.pairwise_cons.1 horder).1 _ hdata id rfl source payload)
  order := by
    rcases h.toClient with heq | ⟨m, heq, hm⟩ | ⟨m, heq, -⟩
    · exact heq ▸ hinv.order
    · rw [heq]
      refine hinv.order.append fun id source payload hdata => ?_
      obtain rfl := hm id source payload hdata
      exact htimely.2
    · have horder := hinv.order
      rw [NoneAfterClose, heq] at horder
      exact (List.pairwise_cons.1 horder).2
  running := by
    rcases h.running with heq | ⟨id, source, payload, hdata, hnone⟩
    · exact heq.trans hinv.running
    · exact absurd hnone (hinv.known id source payload hdata)

theorem invariant_of_reachable (hs : (endsMachine ι κ β).Reachable Timely s) : Invariant s := by
  refine hs.invariant ?_ fun _ _ _ hinv htimely h => hinv.step htimely h
  rintro _ rfl
  exact ⟨fun _ _ _ h => absurd h List.not_mem_nil, List.Pairwise.nil, rfl⟩

end Survival

end OnionRouter.Streams
