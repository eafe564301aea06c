import OnionRouter.Directory.Follows
import OnionRouter.Lib.Fairness

/-!
# Runs of the directory

What the parties know of themselves holds in every run (`kept_of_reachable`). Without faults
every step brings an exchange nearer to its end (`rank_lt`), and there is always a next one
(`exists_step`).
-/

namespace OnionRouter.Directory

open Client Crypto Deployment Lib Memory Net Protocol RelayManager

variable {ι : Type}

/-! ## Runs -/

/-- What is at fault in a step: something is lost or cannot be sent, or there are fewer relays
    than a client wants. -/
def Faultless (D : Deployment ι) (s : Joint ι Server Party) : ι → PartyEvent → Prop
  | _, .begin env connected _ _ _ => connected = true ∧ env.sent = true
  | _, .user env lost => lost = false ∧ env.sent = true
  | i, .server env lost => lost = false ∧ env.sent = true ∧
    ∀ amount hamount, (D.role i).Does (.gather amount hamount) →
      amount ≤ s.shared.manager.liveIds.card
  | _, .oldServer _ _ _ => True

/-- The runs without faults, unless there may be some. -/
def Steps (D : Deployment ι) (fault : Prop) : Machine.Guard (Joint ι Server Party) (ι × PartyEvent) :=
  fun s a => InPlace s a ∧ (fault ∨ Faultless D s a.1 a.2)

section Runs

variable {D : Deployment ι} {fault : Prop} {s : Joint ι Server Party}

/-- What every party knows of itself and of what it owns. -/
abbrev Kept (D : Deployment ι) (fault : Prop) (s : Joint ι Server Party) : Prop :=
  Parties.Owned ownership Server.Sound (fun i party holds => Follows D i fault holds party) s

/-- Every entry is that of one party. -/
theorem exists_owner (h : Kept D fault s) :
    ∃ owner : s.shared.manager.liveIds → ι, ∀ id, id.1 ∈ (s.party (owner id)).entries := by
  have howner : ∀ id : s.shared.manager.liveIds, ∃ i, id.1 ∈ (s.party i).entries := by
    rintro ⟨id, hid⟩
    obtain ⟨data, hdata, -⟩ := relayId_of_consistent h.shared.consistent hid
    refine h.sharedOut.owner (.entry id) ?_
    show (s.shared.view (.entry id)).isSome
    rw [Server.view, if_pos hid, hdata]
    rfl
  choose owner howner using howner
  exact ⟨owner, howner⟩

/-- A party has at most one entry, which is its descriptor. -/
theorem tracks_of_owner (h : Kept D fault s) {owner : s.shared.manager.liveIds → ι}
    (howner : ∀ id, id.1 ∈ (s.party (owner id)).entries) : Function.Injective owner ∧
      ∀ id, ∃ d, D.descriptor (owner id) = some d ∧ s.shared.view (.entry id) = some (.entry d) := by
  refine ⟨fun id id' heq => Subtype.ext ?_, fun id => ?_⟩
  · exact (h.party (owner id)).hasEntries.unique id (howner id) id' (heq ▸ howner id')
  · obtain ⟨d, hd, hentry⟩ := (h.party (owner id)).hasEntries.descriptor id (howner id)
    exact ⟨d, hd, hentry.2⟩

theorem tracks_of_kept (h : Kept D fault s) : D.Tracks s.shared := by
  obtain ⟨owner, howner⟩ := exists_owner h
  exact ⟨owner, tracks_of_owner h howner⟩

theorem kept_init {s : Joint ι Server Party} (hs : s ∈ D.parties.init) : Kept D fault s := by
  obtain ⟨hserver, hparty⟩ := hs
  have hopen : ∀ i, (s.party i).openLines = [] := by
    intro i
    rw [Party.openLines, (hparty i).line, (hparty i).oldLines]
    rfl
  have hnone : ∀ i, ∀ r, r ∉ (s.party i).owns := by
    rintro i (id | fd) hr
    · have hmem : id ∈ (s.party i).entries := hr
      rw [(hparty i).entries] at hmem
      exact Finset.notMem_empty id hmem
    · obtain ⟨line, hline, -⟩ := hr
      rw [hopen] at hline
      cases hline
  refine ⟨⟨fun i r hr => absurd hr (hnone i r), fun i j r hr => absurd hr (hnone i r), fun r hr => ?_⟩,
    hserver.sound, fun i => ⟨?_, ⟨fun id hid => ?_, fun id hid => ?_⟩, fun hinit => ?_, fun l hl => ?_,
      fun l hl => ?_, ?_⟩⟩
  · replace hr : (s.shared.view r).isSome := hr
    rw [hserver.view] at hr
    cases hr
  · rw [Party.fds, hopen]
    exact List.nodup_nil
  · exact absurd hid (hnone i (.entry id))
  · exact absurd hid (hnone i (.entry id))
  · rw [(hparty i).isKeyInit] at hinit
    cases hinit
  · rw [(hparty i).oldLines] at hl
    cases hl
  · rw [(hparty i).oldLines] at hl
    cases hl
  · rw [(hparty i).waiting]
    exact .start (hparty i).line (hparty i).entries (hparty i).registerId

variable [DecidableEq ι]

/-- Every party keeps what it knows. By cases on its step. -/
theorem kept_of_reachable (hD : D.Valid) (hs : D.machine.Reachable (Steps D fault) s) :
    Kept D fault s := by
  refine Parties.owned_reachable (fun s hs => kept_init hs) ?_ hs
  intro s i event s' party' h hG hstep
  have hlive := h.sharedOut.live i
  have hfollows := h.party i
  have hfault : ∀ {p : Prop}, (Faultless D s i event → ¬ p) → p → fault := fun hnot hp =>
    hG.2.resolve_right fun hfaultless => hnot hfaultless hp
  cases event with
  | «begin» env connected fd buffer threadBuffer =>
    exact follows_begin h.shared hlive hfollows (hfault fun h => by rw [h.1]; exact nofun)
      (hfault fun h => by rw [h.2]; exact nofun) hstep
  | user env lost =>
    obtain ⟨party, hread, heq⟩ := Option.map_eq_some_iff.1 hstep
    obtain ⟨rfl, rfl⟩ := Prod.mk.inj heq
    obtain ⟨hframed, hparty⟩ := follows_read hD hlive hfollows
      (hfault fun h => by rw [h.1]; exact nofun) (hfault fun h => by rw [h.2]; exact nofun) hread
    exact ⟨hframed, h.shared, hparty⟩
  | server env lost =>
    exact follows_serve hD h.shared (tracks_of_kept h) hlive hfollows hG.1
      (hfault fun h => by rw [h.1]; exact nofun) (hfault fun h => by rw [h.2.1]; exact nofun)
      (fun amount hamount hdoes => hfault fun h => (h.2.2 amount hamount hdoes).not_gt) hstep
  | oldServer n env lost =>
    exact follows_serveOld hD h.shared (tracks_of_kept h) hlive hfollows hG.1 hstep

end Runs

/-! ## Progress -/

/-- How many of its messages a user has not exchanged yet, from a stage on. -/
def Stage.left : Stage → ℕ
  | response => 4
  | confirmation => 3
  | answer => 2
  | exit => 1

/-- The exchanges of a relay behind SIGNUP. -/
def Exchange.behind : Exchange → ℕ
  | signup _ => 9
  | _ => 0

/-- How many steps a user has to take, and its thread, at most. -/
def UserWaiting.rank : Role → UserWaiting → ℕ
  | .relay _, .start => 18
  | .client _ _, .start => 9
  | _, .talking exchange stage => exchange.behind + 2 * stage.left - 1
  | _, .serving => 9
  | _, _ => 0

/-- How many steps a party has to take at most. -/
def Party.rank (role : Role) (party : Party) : ℕ :=
  party.user.waiting.rank role + party.line.elim 0 fun line => line.toServer.length

section Progress

variable {D : Deployment ι} {i : ι} {holds : Resource → Content → Prop} {s s' : Server}
  {party party' : Party}

theorem rank_begin (h : Follows D i False holds party) {env : UserEnv} {fd : SockFd}
    {buffer threadBuffer : List UInt8} (hsent : env.sent = true)
    (hbegin : party.begin D i s env true fd buffer threadBuffer = some (s', party')) :
    party'.rank (D.role i) < party.rank (D.role i) := by
  obtain ⟨exchange, hnext, hbegin⟩ := Option.bind_eq_some_iff.1 hbegin
  obtain ⟨-, hallowed, -, -⟩ := next_spec h hnext
  simp only [User.begin, hallowed, Bool.and_true, if_true, User.send, hsent] at hbegin
  split at hbegin
  next => cases hbegin
  next =>
    obtain ⟨-, rfl⟩ := Prod.mk.inj (Option.some_inj.1 hbegin)
    have hrank : exchange.behind + 9 ≤ party.user.waiting.rank (D.role i) := by
      generalize D.role i = role at hnext
      generalize party.user.waiting = waiting at hnext
      cases role <;> cases waiting <;> cases hnext <;> exact le_rfl
    have hnew : ∀ role : Role, UserWaiting.rank role (.talking exchange .response) =
        exchange.behind + 7 := by
      intro role
      cases role <;> rfl
    show UserWaiting.rank (D.role i) (.talking exchange .response) + 1 < party.rank (D.role i)
    rw [hnew, Party.rank]
    omega

theorem rank_read (hD : D.Valid) (h : Follows D i False holds party) {env : UserEnv}
    (hsent : env.sent = true) (hread : party.read D i env false = some party') :
    party'.rank (D.role i) < party.rank (D.role i) := by
  obtain ⟨exchange, stage, line, r, hwaiting, hline, -, -, -, -, rfl, hreads⟩ :=
    read_spec hD h (fun h => absurd h (by decide)) (fun h => absurd (hsent.symm.trans h) (by decide)) hread
  have htalking : ∀ stage', UserWaiting.rank (D.role i) (.talking exchange stage') =
      exchange.behind + 2 * stage'.left - 1 := by
    intro stage'
    cases D.role i <;> rfl
  cases hreads with
  | lost hfault => exact hfault.elim
  | answered hto hfrom _ hreplied =>
    rw [Party.rank, Party.rank, hwaiting, hline, htalking]
    show r.user.waiting.rank (D.role i) + (line.toServer ++ r.toServer).length < _
    rw [hto, List.nil_append]
    cases hreplied with
    | @sends stage' hnext hwaiting' hsent' =>
      rw [hwaiting', hsent', htalking]
      have hleft : stage'.left + 1 = stage.left := by
        cases stage <;> cases hnext <;> rfl
      have hpos : 0 < stage'.left := by cases stage' <;> decide
      simp only [List.length_singleton, Option.elim_some, hto, List.length_nil]
      omega
    | ends hwaiting' hsent' hstage =>
      obtain rfl := hstage.resolve_right fun h => h.1
      rw [hwaiting', hsent']
      cases exchange <;> cases D.role i <;> simp [Exchange.done, UserWaiting.rank, Exchange.behind,
        Stage.left, hto]
    | fails hfault => exact hfault.elim

/-- A thread reads the message that is on its way. -/
theorem rank_serve {env : ServerEnv} (hserve : party.serve D s env false = some (s', party')) :
    party'.rank (D.role i) < party.rank (D.role i) := by
  obtain ⟨line, hline, hserve⟩ := Option.bind_eq_some_iff.1 hserve
  obtain ⟨⟨s₁, line'⟩, hserved, hserve⟩ := Option.bind_eq_some_iff.1 hserve
  obtain ⟨-, rfl⟩ := Prod.mk.inj (Option.some_inj.1 hserve)
  obtain ⟨got, r, hgot, -, -, rfl⟩ := serve_eq_some hserved
  have hhead : line.toServer.head? = some got := hgot
  show party.user.waiting.rank (D.role i) + line.toServer.tail.length < party.rank (D.role i)
  rw [Party.rank, hline]
  cases hto : line.toServer with
  | nil =>
    rw [hto] at hhead
    cases hhead
  | cons msg msgs => simp [hto]

/-- Without faults no connection is left behind. -/
theorem fds_length_le (h : Follows D i False holds party) : party.fds.length ≤ 1 := by
  have hold : party.oldLines = [] := by
    refine List.eq_nil_iff_forall_not_mem.2 fun line hline => ?_
    obtain ⟨_, -, hdrained⟩ := h.oldLines line hline
    cases hdrained with
    | waits hfault => exact hfault
    | ended hended => exact h.openOld line hline hended
  rw [Party.fds, Party.openLines, hold, List.append_nil, List.length_map, Option.length_toList]
  split <;> decide

end Progress

section Machine

variable {D : Deployment ι} {s s' : Joint ι Server Party} {i : ι} {event : PartyEvent}

/-- An exchange of the user is over, or none is needed. -/
def Settled (i : ι) (s : Joint ι Server Party) : Prop :=
  (s.party i).user.waiting = .serving ∨ (s.party i).user.waiting = .returned true

variable [DecidableEq ι]

theorem step_party (h : D.machine.step s (i, event) s') : ∃ shared party,
    (s.party i).step D i s.shared event = some (shared, party) ∧ s' = s.update i shared party := by
  obtain ⟨⟨shared, party⟩, hstep, heq⟩ := Option.map_eq_some_iff.1 h
  exact ⟨shared, party, hstep, heq.symm⟩

theorem step_of_party {shared : Server} {party : Party}
    (h : (s.party i).step D i s.shared event = some (shared, party)) :
    D.machine.step s (i, event) (s.update i shared party) :=
  Option.map_eq_some_iff.2 ⟨_, h, rfl⟩

/-- Every step of a party brings it nearer to its end. -/
theorem rank_lt (hD : D.Valid) (h : Kept D False s) (hG : Steps D False s (i, event))
    (hstep : D.machine.step s (i, event) s') :
    (s'.party i).rank (D.role i) < (s.party i).rank (D.role i) := by
  obtain ⟨shared, party, hevent, rfl⟩ := step_party hstep
  rw [Joint.update_party_self]
  have hfollows := h.party i
  have hfaultless := hG.2.resolve_left not_false
  cases event with
  | «begin» env connected fd buffer threadBuffer =>
    obtain ⟨rfl, hsent⟩ := hfaultless
    exact rank_begin hfollows hsent hevent
  | user env lost =>
    obtain ⟨rfl, hsent⟩ := hfaultless
    obtain ⟨party, hread, heq⟩ := Option.map_eq_some_iff.1 hevent
    obtain ⟨rfl, rfl⟩ := Prod.mk.inj heq
    exact rank_read hD hfollows hsent hread
  | server env lost =>
    obtain ⟨rfl, -⟩ := hfaultless
    exact rank_serve hevent
  | oldServer n env lost =>
    obtain ⟨line, hline, hserve⟩ := Option.bind_eq_some_iff.1 hevent
    have hmem := List.mem_of_getElem? hline
    obtain ⟨_, -, hdrained⟩ := hfollows.oldLines line hmem
    cases hdrained with
    | waits hfault => exact hfault.elim
    | ended hended => exact absurd hended (hfollows.openOld line hmem)

/-- Without faults a user goes from one stage to the next. -/
theorem step_waiting (hD : D.Valid) (h : Kept D False s) (hG : Steps D False s (i, event))
    (hstep : D.machine.step s (i, event) s') :
    (s'.party i).user.waiting = (s.party i).user.waiting ∨
    (∃ exchange, (D.role i).next (s.party i).user.waiting = some exchange ∧
      (s'.party i).user.waiting = .talking exchange .response) ∨
    ∃ exchange stage, (s.party i).user.waiting = .talking exchange stage ∧
      ((s'.party i).user.waiting = exchange.done ∨
        ∃ stage', (s'.party i).user.waiting = .talking exchange stage') := by
  obtain ⟨shared, party, hevent, rfl⟩ := step_party hstep
  rw [Joint.update_party_self]
  have hfollows := h.party i
  have hfaultless := hG.2.resolve_left not_false
  cases event with
  | «begin» env connected fd buffer threadBuffer =>
    obtain ⟨rfl, hsent⟩ := hfaultless
    obtain ⟨exchange, hnext, hbegin⟩ := Option.bind_eq_some_iff.1 hevent
    obtain ⟨-, hallowed, -, -⟩ := next_spec hfollows hnext
    simp only [User.begin, hallowed, Bool.and_true, if_true, User.send, hsent] at hbegin
    split at hbegin
    next => cases hbegin
    next =>
      obtain ⟨-, rfl⟩ := Prod.mk.inj (Option.some_inj.1 hbegin)
      exact .inr (.inl ⟨exchange, hnext, rfl⟩)
  | user env lost =>
    obtain ⟨rfl, hsent⟩ := hfaultless
    obtain ⟨party, hread, heq⟩ := Option.map_eq_some_iff.1 hevent
    obtain ⟨rfl, rfl⟩ := Prod.mk.inj heq
    obtain ⟨exchange, stage, line, r, hwaiting, -, -, -, -, -, rfl, hreads⟩ :=
      read_spec hD hfollows (fun h => absurd h (by decide))
        (fun h => absurd (hsent.symm.trans h) (by decide)) hread
    refine .inr (.inr ⟨exchange, stage, hwaiting, ?_⟩)
    cases hreads with
    | lost hfault => exact hfault.elim
    | answered _ _ _ hreplied =>
      cases hreplied with
      | sends _ hwaiting' => exact .inr ⟨_, hwaiting'⟩
      | ends hwaiting' => exact .inl hwaiting'
      | fails hfault => exact hfault.elim
  | server env lost =>
    obtain ⟨line, -, hserve⟩ := Option.bind_eq_some_iff.1 hevent
    obtain ⟨_, -, hserve⟩ := Option.bind_eq_some_iff.1 hserve
    obtain ⟨-, rfl⟩ := Prod.mk.inj (Option.some_inj.1 hserve)
    exact .inl rfl
  | oldServer n env lost =>
    obtain ⟨line, -, hserve⟩ := Option.bind_eq_some_iff.1 hevent
    obtain ⟨_, -, hserve⟩ := Option.bind_eq_some_iff.1 hserve
    obtain ⟨-, rfl⟩ := Prod.mk.inj (Option.some_inj.1 hserve)
    exact .inl rfl

variable [Fintype ι]

omit [DecidableEq ι] in
/-- There is a descriptor for the next connection. -/
theorem exists_fd (h : Kept D False s) (hcard : Fintype.card ι < 2 ^ 31) :
    ∃ fd, fd ∉ s.shared.openFds := by
  by_contra hall
  push Not at hall
  have howner : ∀ fd : SockFd, ∃ i, fd ∈ (s.party i).fds := by
    intro fd
    have hview : (s.shared.view (.socket fd)).isSome := by
      rw [Server.view, if_pos (hall fd)]
      rfl
    obtain ⟨i, hi⟩ := h.sharedOut.owner (.socket fd) hview
    exact ⟨i, List.mem_map.2 hi⟩
  choose owner howner using howner
  have hinjective : Function.Injective owner := by
    intro fd fd' heq
    have hle := fds_length_le (h.party (owner fd))
    obtain ⟨x, hx⟩ := List.length_eq_one_iff.1
      (le_antisymm hle (List.length_pos_of_mem (howner fd)))
    have hmem := howner fd
    have hmem' := heq ▸ howner fd'
    rw [hx] at hmem hmem'
    exact (List.mem_singleton.1 hmem).trans (List.mem_singleton.1 hmem').symm
  have hle := Fintype.card_le_of_injective owner hinjective
  rw [Fintype.card_fin] at hle
  exact hle.not_gt hcard

omit [DecidableEq ι] in
theorem card_liveIds_le (h : Kept D False s) : s.shared.manager.liveIds.card ≤ Fintype.card ι := by
  obtain ⟨owner, hinjective, -⟩ := tracks_of_kept h
  have hle := Fintype.card_le_of_injective owner hinjective
  rwa [Fintype.card_coe] at hle

/-- As long as its exchange is not over there is a next step of a party, if there are as many
    relays as it wants. -/
theorem exists_step (hD : D.Valid) (h : Kept D False s) (hcard : Fintype.card ι + 1 < 2 ^ 31)
    (hbusy : ¬ Settled i s) (henough : ∀ amount hamount,
      (D.role i).Does (.gather amount hamount) → amount ≤ s.shared.manager.liveIds.card) :
    ∃ event s', Steps D False s (i, event) ∧ D.machine.step s (i, event) s' := by
  suffices hevent : ∃ event, Steps D False s (i, event) ∧
      ((s.party i).step D i s.shared event).isSome by
    obtain ⟨event, hG, hsome⟩ := hevent
    obtain ⟨⟨shared, party⟩, hstep⟩ := Option.isSome_iff_exists.1 hsome
    exact ⟨event, _, hG, step_of_party hstep⟩
  have hfollows := h.party i
  have hplace := hfollows.place
  let userEnv : UserEnv := { (default : UserEnv) with sent := true }
  generalize hwaiting : (s.party i).user.waiting = waiting at hplace
  cases hplace with
  | start hline =>
    obtain ⟨fd, hfd⟩ := exists_fd h (Nat.lt_of_succ_lt hcard)
    obtain ⟨exchange, hnext⟩ : ∃ exchange, (D.role i).next .start = some exchange := by
      cases D.role i <;> exact ⟨_, rfl⟩
    rw [← hwaiting] at hnext
    obtain ⟨-, hallowed, -, -⟩ := next_spec hfollows hnext
    refine ⟨.begin userEnv true fd [] [], ⟨trivial, .inr ⟨rfl, rfl⟩⟩, ?_⟩
    rw [Party.step, Party.begin, hnext]
    simp only [Option.bind_eq_bind, Option.bind_some, hallowed, Bool.and_true, if_true, if_neg hfd]
    rfl
  | @talking exchange stage line hline hdoes htalk hkeyed hdone =>
    cases htalk with
    | asked hwaits hto hfrom =>
      obtain ⟨addr, haddr⟩ := exists_free h.shared
      let env : ServerEnv := { (default : ServerEnv) with sent := true, addr := addr, moved := false }
      have hgen : (s.shared.manager.genRelay env.addr).isSome :=
        genRelay_isSome h.shared.consistent haddr
          (Nat.lt_of_le_of_lt (Nat.succ_le_succ (card_liveIds_le h)) hcard)
      obtain ⟨r, hr⟩ := exists_recv hD h.shared (show env.moved = false from rfl) (tracks_of_kept h)
        (hfollows.hasEntries.mono fun _ _ _ h => h.2) hdoes (At.mono hwaits fun _ h => h.2) hgen
      refine ⟨.server env false, ⟨rfl, .inr ⟨rfl, rfl, henough⟩⟩, ?_⟩
      rw [Party.step, Party.serve, hline]
      simp only [Line.serve, nextMessage, hto, List.head?_cons, Option.bind_eq_bind, Option.bind_some,
        hr, Bool.false_eq_true, if_false]
      rfl
    | answered hanswer hto hfrom hthread =>
      obtain ⟨r, hr, -⟩ := user_recv_spec hD hwaiting hfollows.keyed hkeyed hdone hanswer
        (fun h : userEnv.sent = false => nomatch h)
      refine ⟨.user userEnv false, ⟨trivial, .inr ⟨rfl, rfl⟩⟩, ?_⟩
      rw [Party.step, Party.read, hline]
      simp only [nextMessage, hfrom, List.head?_cons, Option.bind_eq_bind, Option.bind_some, hr,
        Bool.false_eq_true, if_false]
      rfl
    | ended hfault => exact hfault.elim
  | @done exchange hline =>
    refine absurd ?_ hbusy
    rw [Settled, hwaiting]
    cases exchange with
    | signup => exact .inl rfl
    | _ => exact .inr rfl
  | failed hfault => exact hfault.elim

/-- A party that has not begun can take steps until its first exchange is over, while the
    others wait. -/
theorem exists_done (hD : D.Valid) (hcard : Fintype.card ι + 1 < 2 ^ 31)
    {Q : Joint ι Server Party → Prop}
    (hkeep : ∀ s s' : Joint ι Server Party, Q s → (∀ j ≠ i, s'.party j = s.party j) → Q s')
    (henough : ∀ s, Kept D False s → Q s → ∀ amount hamount,
      (D.role i).Does (.gather amount hamount) → amount ≤ s.shared.manager.liveIds.card)
    (hs : D.machine.Reachable (Steps D False) s) (hQ : Q s)
    (hstart : (s.party i).user.waiting = .start) {exchange : Exchange}
    (hnext : (D.role i).next .start = some exchange) :
    ∃ s', D.machine.Reachable (Steps D False) s' ∧ Q s' ∧
      (s'.party i).user.waiting = exchange.done := by
  -- Where the user may be until then.
  let On (s : Joint ι Server Party) : Prop := Q s ∧ ((s.party i).user.waiting = .start ∨
    (∃ stage, (s.party i).user.waiting = .talking exchange stage) ∨
      (s.party i).user.waiting = exchange.done)
  suffices hstep : ∀ s, D.machine.Reachable (Steps D False) s → On s →
      (s.party i).user.waiting ≠ exchange.done → ∃ a s', Steps D False s a ∧
        D.machine.step s a s' ∧ On s' ∧
        (s'.party i).rank (D.role i) < (s.party i).rank (D.role i) by
    obtain ⟨s', hs', hon, hdone⟩ := hs.exists_of_rank
      (fun s => (s.party i).rank (D.role i)) hstep ⟨hQ, .inl hstart⟩
    exact ⟨s', hs', hon.1, hdone⟩
  rintro s hs ⟨hQ, hon⟩ hbusy
  have hkept := kept_of_reachable hD hs
  have hunsettled : ¬ Settled i s := by
    rintro (hserving | hreturned) <;> rcases hon with hstart | ⟨stage, htalking⟩ | hdone
    · exact nomatch hserving.symm.trans hstart
    · exact nomatch hserving.symm.trans htalking
    · exact hbusy hdone
    · exact nomatch hreturned.symm.trans hstart
    · exact nomatch hreturned.symm.trans htalking
    · exact hbusy hdone
  obtain ⟨event, s', hG, hstep⟩ := exists_step hD hkept hcard hunsettled (henough s hkept hQ)
  refine ⟨_, s', hG, hstep, ⟨hkeep s s' hQ fun j hj => ?_, ?_⟩, rank_lt hD hkept hG hstep⟩
  · obtain ⟨shared, party, -, rfl⟩ := step_party hstep
    exact Joint.update_party_of_ne _ hj _ _
  · rcases step_waiting hD hkept hG hstep with hsame | ⟨exchange', hnext', hbegun⟩ |
      ⟨exchange', stage, htalking', hthen⟩
    · rw [hsame]
      exact hon
    · rcases hon with hstart | ⟨stage, htalking⟩ | hdone
      · rw [hstart, hnext] at hnext'
        exact .inr (.inl ⟨_, Option.some_inj.1 hnext' ▸ hbegun⟩)
      · rw [htalking] at hnext'
        generalize D.role i = role at hnext'
        cases role <;> cases hnext'
      · exact absurd hdone hbusy
    · obtain rfl : exchange' = exchange := by
        rcases hon with hstart | ⟨stage, htalking⟩ | hdone
        · exact nomatch htalking'.symm.trans hstart
        · exact (UserWaiting.talking.inj (htalking'.symm.trans htalking)).1
        · exact absurd hdone hbusy
      exact .inr (hthen.symm)

end Machine

end OnionRouter.Directory
