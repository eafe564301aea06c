import OnionRouter.Directory.System

/-!
# The resources of the server

What the threads of the server own: the entries of the relay manager, with their descriptors,
and the descriptors that are open, with their session keys. Every operation of the threads is
an update of one resource (`Server.view`).

* `view_accept`, `view_addSocket`, `view_close`, `view_freeSocket`: descriptors.
* `view_signup`, `view_signedOut`: entries.
-/

namespace OnionRouter.Directory

open Crypto Lib Memory Protocol RelayManager

/-- What a thread may own. -/
inductive Resource
  | entry (id : ℕ)
  | socket (fd : SockFd)
  deriving DecidableEq

/-- What a resource is: an entry with its descriptor, or an open descriptor with the key of
    its session, if there is one. -/
inductive Content
  | entry (descriptor : RelayDescriptor)
  | socket (key : Option KeyData)

/-- The resources of the server. -/
def Server.view (s : Server) : Resource → Option Content
  | .entry id =>
    if id ∈ s.manager.liveIds then (s.manager.relay id).map fun data => .entry data.descriptor
    else none
  | .socket fd =>
    if fd ∈ s.openFds then some (.socket ((s.keyList.entries fd).map Prod.fst)) else none

/-- The resources of a party: its entries, and the descriptors of its threads. -/
def Party.owns (party : Party) : Set Resource
  | .entry id => id ∈ party.entries
  | .socket fd => ∃ line ∈ party.openLines, line.thread.fd = fd

/-- Who owns what. -/
def ownership : Ownership Server Party Resource Content := ⟨Server.view, Party.owns⟩

/-- What the operations keep: every object that is allocated is that of an entry, and a
    descriptor that is not open has no key. -/
structure Server.Sound (s : Server) : Prop where
  consistent : Consistent s.manager
  heap : ∀ addr, (s.manager.heap addr).isSome →
    ∃ id ∈ s.manager.liveIds, (s.manager.items id).data = some addr
  counted : Counted s.keyList
  block : s.keyList.block = 0
  closed : ∀ fd ∉ s.openFds, s.keyList.entries fd = none

/-! ## Initially -/

theorem Server.Started.sound {s : Server} (h : s.Started) : s.Sound := by
  obtain ⟨stack, hmanager⟩ := h.manager
  obtain ⟨memory, hkeyList⟩ := h.keyList
  obtain ⟨hcounted, hentries⟩ := counted_initSocketContext memory
  refine ⟨hmanager ▸ .initRelayManager stack, fun addr haddr => ?_, hkeyList ▸ hcounted, ?_,
    fun fd _ => ?_⟩
  · rw [hmanager] at haddr
    cases haddr
  · rw [hkeyList]
    rfl
  · rw [hkeyList, hentries]

theorem Server.Started.view {s : Server} (h : s.Started) (r : Resource) : s.view r = none := by
  cases r with
  | entry id =>
    obtain ⟨stack, hmanager⟩ := h.manager
    refine if_neg fun hlive => ?_
    rw [hmanager] at hlive
    cases (mem_liveIds.1 hlive).2
  | socket fd =>
    refine if_neg fun hopen => ?_
    rw [h.openFds] at hopen
    exact Finset.notMem_empty fd hopen

/-! ## Descriptors -/

section Sockets

variable {s : Server} (hs : s.Sound) {fd : SockFd}

/-- The keys of the other descriptors stay. -/
theorem view_sockets (s s' : Server) (fd : SockFd) (hmanager : s'.manager = s.manager)
    (hopen : ∀ fd' ≠ fd, fd' ∈ s'.openFds ↔ fd' ∈ s.openFds)
    (hentries : ∀ fd' ≠ fd, s'.keyList.entries fd' = s.keyList.entries fd') :
    s'.view = Function.update s.view (.socket fd) (s'.view (.socket fd)) := by
  funext r
  by_cases hr : r = .socket fd
  · rw [hr, Function.update_self]
  · rw [Function.update_of_ne hr]
    cases r with
    | entry id => rw [Server.view, Server.view, hmanager]
    | socket fd' =>
      have hne : fd' ≠ fd := fun heq => hr (heq ▸ rfl)
      rw [Server.view, Server.view, hentries fd' hne]
      exact if_congr (hopen fd' hne) rfl rfl

include hs

/-- A connection is accepted. -/
theorem view_accept (hfd : fd ∉ s.openFds) :
    ({ s with openFds := insert fd s.openFds } : Server).Sound ∧
      ({ s with openFds := insert fd s.openFds } : Server).view =
        Function.update s.view (.socket fd) (some (.socket none)) := by
  have hview := view_sockets s { s with openFds := insert fd s.openFds } fd
    rfl (fun fd' hne => by rw [Finset.mem_insert, or_iff_right hne]) fun _ _ => rfl
  refine ⟨⟨hs.consistent, hs.heap, hs.counted, hs.block, fun fd' hfd' => ?_⟩, hview.trans ?_⟩
  · exact hs.closed fd' fun h => hfd' (Finset.mem_insert_of_mem h)
  · congr 1
    rw [Server.view, if_pos (Finset.mem_insert_self _ _), hs.closed fd hfd, Option.map_none]

/-- `add_socket`, for an open descriptor that has no key. -/
theorem view_addSocket (hfd : s.view (.socket fd) = some (.socket none)) (key : KeyData) :
    ∃ l, s.keyList.addSocket fd key null false = some (true, l) ∧
      l.getSockKey fd = some ⟨0, fd⟩ ∧ ({ s with keyList := l } : Server).Sound ∧
      ({ s with keyList := l } : Server).view =
        Function.update s.view (.socket fd) (some (.socket (some key))) := by
  obtain ⟨hopen, hentry⟩ := Option.ite_none_right_eq_some.1 hfd
  have hnone : s.keyList.entries fd = none := by
    rw [← Option.map_eq_none_iff (f := Prod.fst)]
    exact Content.socket.inj (Option.some_inj.1 hentry)
  have hinvalid : s.keyList.isValidSocket fd = false := by
    rw [isValidSocket_eq, hnone]
    rfl
  obtain ⟨l, hadd, hadded⟩ := addSocket_spec key null false hs.counted.sized hinvalid
  obtain ⟨l', hcall, hcounted, hentries⟩ :=
    KeyList.call_spec hs.counted Server.freeKey (.addSocket fd key null false)
  rw [KeyList.call, hadd] at hcall
  obtain rfl : l = l' := congrArg Prod.snd (Option.some_inj.1 hcall)
  have hentries : l.entries = Function.update s.keyList.entries fd (some (key, null)) := by
    rw [SocketMap.call, hnone] at hentries
    exact hentries
  have hblock : l.block = 0 := (hadded.block.resolve_right fun h => absurd h.1 (by decide)).trans hs.block
  have hview := view_sockets s { s with keyList := l } fd rfl
    (fun _ _ => Iff.rfl) fun fd' hne => by rw [hentries]; exact Function.update_of_ne hne _ _
  refine ⟨l, hadd, ?_, ⟨hs.consistent, hs.heap, hcounted, hblock, fun fd' hfd' => ?_⟩, hview.trans ?_⟩
  · rw [KeyList.getSockKey, if_pos (isValidSocket_iff.2 ⟨hadded.lt, hadded.sockExists⟩), hblock]
  · have hne : fd' ≠ fd := fun heq => hfd' (heq ▸ hopen)
    rw [hentries]
    exact (Function.update_of_ne hne _ _).trans (hs.closed fd' hfd')
  · congr 1
    rw [Server.view, if_pos hopen, hentries, Function.update_self]
    rfl

/-- `close`, for a descriptor that has no key. -/
theorem view_close (hfd : s.view (.socket fd) = some (.socket none)) :
    (s.close fd).Sound ∧ (s.close fd).view = Function.update s.view (.socket fd) none := by
  obtain ⟨-, hentry⟩ := Option.ite_none_right_eq_some.1 hfd
  have hnone : s.keyList.entries fd = none := by
    rw [← Option.map_eq_none_iff (f := Prod.fst)]
    exact Content.socket.inj (Option.some_inj.1 hentry)
  have hview := view_sockets s (s.close fd) fd rfl
    (fun fd' hne => by rw [Server.close, Finset.mem_erase, and_iff_right hne]) fun _ _ => rfl
  refine ⟨⟨hs.consistent, hs.heap, hs.counted, hs.block, fun fd' hfd' => ?_⟩, hview.trans ?_⟩
  · by_cases hne : fd' = fd
    · exact hne ▸ hnone
    · exact hs.closed fd' fun h => hfd' (Finset.mem_erase.2 ⟨hne, h⟩)
  · congr 1
    exact if_neg (Finset.notMem_erase _ _)

/-- `free_socket` and `close`, for a descriptor that has a key. -/
theorem view_freeSocket {key : KeyData} (hfd : s.view (.socket fd) = some (.socket (some key))) :
    ((s.freeSocket fd).close fd).Sound ∧
      ((s.freeSocket fd).close fd).view = Function.update s.view (.socket fd) none := by
  obtain ⟨-, hentry⟩ := Option.ite_none_right_eq_some.1 hfd
  obtain ⟨⟨key', data⟩, hsome, -⟩ :=
    Option.map_eq_some_iff.1 (Content.socket.inj (Option.some_inj.1 hentry))
  obtain ⟨l, hcall, hcounted, hentries⟩ :=
    KeyList.call_spec hs.counted Server.freeKey (.freeSocket fd false)
  obtain rfl : s.keyList.freeSocket Server.freeKey fd = l :=
    congrArg Prod.snd (Option.some_inj.1 hcall)
  rw [SocketMap.call, hsome] at hentries
  have hview := view_sockets s ((s.freeSocket fd).close fd) fd rfl
    (fun fd' hne => by
      rw [Server.close, Finset.mem_erase, and_iff_right hne]
      rfl)
    fun fd' hne => by
      show (s.keyList.freeSocket Server.freeKey fd).entries fd' = _
      rw [hentries]
      exact Function.update_of_ne hne _ _
  refine ⟨⟨hs.consistent, hs.heap, hcounted, freeSocket_block.trans hs.block, fun fd' hfd' => ?_⟩,
    hview.trans ?_⟩
  · show (s.keyList.freeSocket Server.freeKey fd).entries fd' = none
    rw [hentries]
    by_cases hne : fd' = fd
    · rw [hne]
      exact Function.update_self _ _ _
    · exact (Function.update_of_ne hne _ _).trans
        (hs.closed fd' fun h => hfd' (Finset.mem_erase.2 ⟨hne, h⟩))
  · congr 1
    exact if_neg (Finset.notMem_erase _ _)

/-- The key that the pointer of a session leads to. -/
theorem keyAt_of_view {key : KeyData} (hfd : s.view (.socket fd) = some (.socket (some key))) :
    s.keyAt ⟨0, fd⟩ = some key := by
  obtain ⟨-, hentry⟩ := Option.ite_none_right_eq_some.1 hfd
  obtain ⟨⟨key', data⟩, hsome, hkey⟩ :=
    Option.map_eq_some_iff.1 (Content.socket.inj (Option.some_inj.1 hentry))
  obtain ⟨-, -, hkeyData, -⟩ := entries_eq_some.1 hsome
  rw [Server.keyAt, if_pos hs.block.symm, hkeyData, ← hkey]

end Sockets

/-! ## Entries -/

section Entries

variable {s : Server} (hs : s.Sound)

/-- The other entries stay. -/
theorem view_entries (s s' : Server) (id : ℕ) (hopen : s'.openFds = s.openFds)
    (hkeyList : s'.keyList = s.keyList)
    (hlive : ∀ i ≠ id, i ∈ s'.manager.liveIds ↔ i ∈ s.manager.liveIds)
    (hrelay : ∀ i ≠ id, i ∈ s.manager.liveIds → s'.manager.relay i = s.manager.relay i) :
    s'.view = Function.update s.view (.entry id) (s'.view (.entry id)) := by
  funext r
  by_cases hr : r = .entry id
  · rw [hr, Function.update_self]
  · rw [Function.update_of_ne hr]
    cases r with
    | entry i =>
      have hne : i ≠ id := fun heq => hr (heq ▸ rfl)
      rw [Server.view, Server.view]
      by_cases hi : i ∈ s.manager.liveIds
      · rw [if_pos hi, if_pos ((hlive i hne).2 hi), hrelay i hne hi]
      · rw [if_neg hi, if_neg (mt (hlive i hne).1 hi)]
    | socket fd => rw [Server.view, Server.view, hopen, hkeyList]

include hs

/-- A relay signs up: there is a new entry, with its descriptor. -/
theorem view_signup {m : RelayManager} {addr : ℕ} (hgen : s.manager.genRelay addr = some m)
    (descriptor : RelayDescriptor) :
    ∃ id, s.view (.entry id) = none ∧
      ((some addr).bind (m.describe addr descriptor).heap).map RelayData.relayId = some id ∧
      (m.describe addr descriptor).liveIds = insert id s.manager.liveIds ∧
      ({ s with manager := m.describe addr descriptor } : Server).Sound ∧
      ({ s with manager := m.describe addr descriptor } : Server).view =
        Function.update s.view (.entry id) (some (.entry descriptor)) := by
  obtain ⟨hm, id, hgenerated⟩ := genRelay_spec hs.consistent hgen
  have hheap : (m.describe addr descriptor).heap addr =
      some ⟨descriptor, id, s.manager.registrations⟩ := by
    rw [describe_heap, set_self, hgenerated.new]
    rfl
  have hlive : (m.describe addr descriptor).liveIds = insert id s.manager.liveIds :=
    hgenerated.liveIds
  have hother : ∀ i ∈ s.manager.liveIds, (m.describe addr descriptor).relay i = s.manager.relay i := by
    intro i hi
    obtain ⟨a, d, hdata, hd, -⟩ := hs.consistent.relay i hi
    have hne := hs.consistent.ne_of_fresh hgenerated.fresh hi hdata
    have hitem : ((m.describe addr descriptor).items i).data = some a :=
      (congrArg Item.data (hgenerated.items i hi)).trans hdata
    rw [RelayManager.relay, RelayManager.relay, hitem, hdata, Option.bind_some, Option.bind_some,
      describe_heap, set_of_ne _ hne, hgenerated.heap a hne]
  have hview := view_entries s { s with manager := m.describe addr descriptor } id rfl rfl
    (fun i hne => by
      show i ∈ (m.describe addr descriptor).liveIds ↔ _
      rw [hlive, Finset.mem_insert, or_iff_right hne])
    fun i _ hi => hother i hi
  refine ⟨id, if_neg hgenerated.notMem, ?_, hlive,
    ⟨hm.describe addr descriptor, fun a ha => ?_, hs.counted, hs.block, hs.closed⟩, hview.trans ?_⟩
  · rw [Option.bind_some, hheap]
    rfl
  · show ∃ i ∈ (m.describe addr descriptor).liveIds, (m.items i).data = some a
    rw [hlive]
    by_cases hne : a = addr
    · exact ⟨id, Finset.mem_insert_self _ _, hne ▸ hgenerated.data⟩
    · replace ha : ((m.describe addr descriptor).heap a).isSome := ha
      rw [describe_heap, set_of_ne _ hne, hgenerated.heap a hne] at ha
      obtain ⟨i, hi, hdata⟩ := hs.heap a ha
      exact ⟨i, Finset.mem_insert_of_mem hi, hgenerated.items i hi ▸ hdata⟩
  · have hrelay : (m.describe addr descriptor).relay id =
        some ⟨descriptor, id, s.manager.registrations⟩ := by
      have hitem : ((m.describe addr descriptor).items id).data = some addr := hgenerated.data
      rw [RelayManager.relay, hitem, Option.bind_some, hheap]
    congr 1
    show (if id ∈ (m.describe addr descriptor).liveIds then _ else none) = _
    rw [hlive, if_pos (Finset.mem_insert_self _ _), hrelay]
    rfl

/-- A relay signs out: its entry is gone. -/
theorem view_signedOut {id : ℕ} (hid : id ∈ s.manager.liveIds) :
    (s.manager.removeRelay id).2.liveIds = s.manager.liveIds.erase id ∧
      ({ s with manager := (s.manager.removeRelay id).2 } : Server).Sound ∧
      ({ s with manager := (s.manager.removeRelay id).2 } : Server).view =
        Function.update s.view (.entry id) none := by
  obtain ⟨addr, hremoved⟩ := removed_removeRelay hs.consistent hid
  have hview := view_entries s { s with manager := (s.manager.removeRelay id).2 } id rfl rfl
    (fun i hne => by rw [hremoved.liveIds, Finset.mem_erase, and_iff_right hne])
    fun i hne hi => hremoved.relay hs.consistent hi hne
  refine ⟨hremoved.liveIds, ⟨hs.consistent.removeRelay id, fun a ha => ?_, hs.counted, hs.block,
    hs.closed⟩, hview.trans ?_⟩
  · have hne : a ≠ addr := by
      rintro rfl
      replace ha : ((s.manager.removeRelay id).2.heap a).isSome := ha
      rw [hremoved.freed] at ha
      cases ha
    obtain ⟨i, hi, hdata⟩ := hs.heap a (hremoved.heap a hne ▸ ha)
    have hi' : i ≠ id := by
      rintro rfl
      exact hne (Option.some_inj.1 (hdata.symm.trans hremoved.data))
    refine ⟨i, ?_, (congrArg Item.data (hremoved.items i hi')).trans hdata⟩
    show i ∈ (s.manager.removeRelay id).2.liveIds
    rw [hremoved.liveIds]
    exact Finset.mem_erase.2 ⟨hi', hi⟩
  · congr 1
    refine if_neg ?_
    show id ∉ (s.manager.removeRelay id).2.liveIds
    rw [hremoved.liveIds]
    exact Finset.notMem_erase _ _

/-- There is an address for the next object. -/
theorem exists_free : ∃ addr, s.manager.heap addr = none := by
  by_contra hnone
  push Not at hnone
  have hall : ∀ addr, ∃ id ∈ s.manager.liveIds, (s.manager.items id).data = some addr :=
    fun addr => hs.heap addr (Option.isSome_iff_ne_none.2 (hnone addr))
  choose id hid hdata using hall
  refine not_injective_infinite_finite (fun addr => (⟨id addr, hid addr⟩ : s.manager.liveIds))
    fun a b hab => ?_
  have heq : id a = id b := congrArg Subtype.val hab
  exact Option.some_inj.1 ((hdata a).symm.trans (heq ▸ hdata b))

omit hs in
/-- An entry, with its object. -/
theorem relay_of_view {id : ℕ} {descriptor : RelayDescriptor} (hs : s.Sound)
    (hid : s.view (.entry id) = some (.entry descriptor)) :
    id ∈ s.manager.liveIds ∧ ∃ addr data, (s.manager.items id).data = some addr ∧
      s.manager.heap addr = some data ∧ data.relayId = id ∧ data.descriptor = descriptor := by
  obtain ⟨hlive, hentry⟩ := Option.ite_none_right_eq_some.1 hid
  obtain ⟨addr, data, hdata, hheap, hrelayId⟩ := hs.consistent.relay id hlive
  rw [RelayManager.relay, hdata, Option.bind_some, hheap] at hentry
  exact ⟨hlive, addr, data, hdata, hheap, hrelayId, Content.entry.inj (Option.some_inj.1 hentry)⟩

end Entries

end OnionRouter.Directory
