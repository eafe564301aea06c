import OnionRouter.Directory.Lines

/-!
# The parties

What a party knows of itself and of what it owns in every run (`Follows`): where its user is,
there its connection is too, and its entries are as its exchanges have left them.

* `lift`: a `read` of one of its threads leaves its other connections as they are.
* `follows_read`, `follows_serve`, `follows_serveOld`, `follows_begin`: the steps.
-/

namespace OnionRouter.Directory

open Client Crypto Deployment Lib Memory Net Protocol RelayManager

variable {ι : Type}

/-! ## What a party knows -/

/-- The descriptors of the threads of a party. -/
def Party.fds (party : Party) : List SockFd := party.openLines.map (·.thread.fd)

section Follows

variable (D : Deployment ι) (i : ι) (fault : Prop) (holds : Resource → Content → Prop)

/-- Where a user is, its connection is, and its entries. -/
inductive Place (party : Party) : UserWaiting → Prop
  | start (hline : party.line = none) (hentries : party.entries = ∅)
      (hid : party.user.vars.registerId = invalidRelayId) : Place party .start
  | talking {exchange : Exchange} {stage : Stage} {line : Line} (hline : party.line = some line)
      (hdoes : (D.role i).Does exchange)
      (htalk : Talk D i fault holds exchange party.user.vars party.entries stage line)
      (hkeyed : stage ≠ .response → D.Keyed i party.user.vars)
      (hdone : stage = .exit → exchange.Done D party.user.vars party.entries) :
      Place party (.talking exchange stage)
  | done {exchange : Exchange} {line : Line} (hline : party.line = some line)
      (hdoes : (D.role i).Does exchange)
      (hdrained : Drained D i fault holds exchange party.user.vars party.entries line)
      (hkeyed : D.Keyed i party.user.vars)
      (hdone : exchange.Done D party.user.vars party.entries) : Place party exchange.done
  | failed (hfault : fault) (hline : ∀ line ∈ party.line, ∃ exchange, (D.role i).Does exchange ∧
      Served D i holds exchange party.user.vars party.entries line) : Place party (.returned false)

/-- What a party knows. Its earlier connections have served their purpose. -/
structure Follows (party : Party) : Prop where
  nodup : party.fds.Nodup
  hasEntries : HasEntries D i party.entries holds
  keyed : party.user.vars.isKeyInit = true → D.Keyed i party.user.vars
  openOld : ∀ line ∈ party.oldLines, line.Open
  oldLines : ∀ line ∈ party.oldLines, ∃ exchange, (D.role i).Does exchange ∧
    Drained D i fault holds exchange party.user.vars party.entries line
  place : Place D i fault holds party party.user.waiting

end Follows

section Mono

variable {D : Deployment ι} {i : ι} {fault : Prop} {holds holds' : Resource → Content → Prop}
  {party : Party}

theorem Place.mono {waiting : UserWaiting} (h : Place D i fault holds party waiting)
    (hkeeps : ∀ line ∈ party.line, Keeps holds holds' line) :
    Place D i fault holds' party waiting := by
  cases h with
  | start hline hentries hid => exact .start hline hentries hid
  | talking hline hdoes htalk hkeyed hdone =>
    exact .talking hline hdoes (htalk.mono (hkeeps _ hline)) hkeyed hdone
  | done hline hdoes hdrained hkeyed hdone =>
    exact .done hline hdoes (hdrained.mono (hkeeps _ hline)) hkeyed hdone
  | failed hfault hline =>
    refine .failed hfault fun line hmem => ?_
    obtain ⟨exchange, hdoes, hserved⟩ := hline line hmem
    exact ⟨exchange, hdoes, hserved.mono (hkeeps line hmem)⟩

theorem Place.ofOldLines {waiting : UserWaiting} (h : Place D i fault holds party waiting)
    (oldLines : List Line) : Place D i fault holds { party with oldLines := oldLines } waiting := by
  cases h with
  | start hline hentries hid => exact .start hline hentries hid
  | talking hline hdoes htalk hkeyed hdone => exact .talking hline hdoes htalk hkeyed hdone
  | done hline hdoes hdrained hkeyed hdone => exact .done hline hdoes hdrained hkeyed hdone
  | failed hfault hline => exact .failed hfault hline

end Mono

/-! ## One thread of a party -/

/-- The sockets of connections. -/
def socketsOf (lines : List Line) : Set Resource := {r | ∃ line ∈ lines, r = .socket line.thread.fd}

/-- A connection, while its thread has not ended. -/
def Line.toOpen (line : Line) : List Line := if line.Open then [line] else []

/-- A party has the resources of one of its threads, and the sockets of the others. -/
theorem owns_of_perm {party : Party} {line : Line} {rest : List Line}
    (h : party.openLines.Perm (line.toOpen ++ rest)) :
    party.owns = line.thread.owns party.entries ∪ socketsOf rest := by
  ext r
  cases r with
  | entry id =>
    have hnot : Resource.entry id ∉ socketsOf rest := fun ⟨_, _, heq⟩ => nomatch heq
    exact (or_iff_left hnot).symm
  | socket fd =>
    have hopen : ∀ l, l ∈ line.toOpen ↔ line.Open ∧ l = line := by
      intro l
      rw [Line.toOpen]
      split
      next h => rw [List.mem_singleton, and_iff_right h]
      next h => exact iff_of_false List.not_mem_nil fun h' => h h'.1
    show (∃ l ∈ party.openLines, l.thread.fd = fd) ↔ (line.Open ∧ line.thread.fd = fd) ∨ _
    simp only [h.mem_iff, List.mem_append, hopen]
    constructor
    · rintro ⟨l, ⟨hline, rfl⟩ | hl, rfl⟩
      · exact .inl ⟨hline, rfl⟩
      · exact .inr ⟨l, hl, rfl⟩
    · rintro (⟨hline, rfl⟩ | ⟨l, hl, hfd⟩)
      · exact ⟨line, .inl ⟨hline, rfl⟩, rfl⟩
      · exact ⟨l, .inr hl, (Resource.socket.inj hfd).symm⟩

section Lift

variable {D : Deployment ι} {i : ι} {s : Server} {party party' : Party} {line line' : Line}
  {rest : List Line} {r : ServerReaction}

/-- What a `read` of one thread of a party leads to, for the party as a whole. -/
structure Lifted (D : Deployment ι) (i : ι) (s s' : Server) (party party' : Party) (line' : Line)
    (rest : List Line) : Prop where
  framed : ownership.Framed s s' party party'
  nodup : party'.fds.Nodup
  hasEntries : HasEntries D i party'.entries (ownership.Holds s' party')
  keeps : ∀ l ∈ rest, Keeps (ownership.Holds s party) (ownership.Holds s' party') l
  line : Keeps s'.Has (ownership.Holds s' party') line'

theorem lift (hline : line.Open) (hperm : party.openLines.Perm (line :: rest))
    (hperm' : party'.openLines.Perm (line'.toOpen ++ rest)) (hthread : line'.thread = r.thread)
    (hnodup : party.fds.Nodup) (hlive : ∀ r ∈ party.owns, (s.view r).isSome)
    (hmoved : Moved D i party.entries party'.entries s line.thread r) :
    Lifted D i s r.server party party' line' rest := by
  have howns : party.owns = line.thread.owns party.entries ∪ socketsOf rest :=
    owns_of_perm (by rwa [Line.toOpen, if_pos hline])
  have howns' : party'.owns = r.thread.owns party'.entries ∪ socketsOf rest :=
    hthread ▸ owns_of_perm hperm'
  have hfds : (line.thread.fd :: rest.map (·.thread.fd)).Nodup :=
    (hperm.map fun l : Line => l.thread.fd).nodup_iff.1 hnodup
  have hdisjoint : ∀ x ∈ socketsOf rest, x ∉ line.thread.owns party.entries := by
    rintro _ ⟨l, hl, rfl⟩ ⟨-, hfd⟩
    exact (List.nodup_cons.1 hfds).1 (hfd ▸ List.mem_map_of_mem hl)
  have hrest : ∀ x ∈ socketsOf rest, (s.view x).isSome := fun x hx => hlive x (howns ▸ .inr hx)
  refine ⟨hmoved.framed.add rfl howns howns' hdisjoint hrest, ?_, ?_, ?_, ?_⟩
  · refine ((hperm'.map _).nodup_iff).2 ?_
    rw [Line.toOpen]
    split
    · rw [List.singleton_append, List.map_cons, hthread, hmoved.fd]
      exact hfds
    · exact (List.nodup_cons.1 hfds).2
  · exact hmoved.hasEntries.mono fun id hid d hd => ⟨hid, hd⟩
  · intro l hl _ key hkey
    have hmem : Resource.socket l.thread.fd ∈ socketsOf rest := ⟨l, hl, rfl⟩
    have howned : Resource.socket l.thread.fd ∈ party'.owns := howns' ▸ .inr hmem
    refine ⟨howned, ?_⟩
    exact (hmoved.framed.view_eq (hdisjoint _ hmem) (hrest _ hmem)).trans hkey.2
  · intro hopen key hkey
    have howned : Resource.socket line'.thread.fd ∈ party'.owns := by
      rw [howns', ← hthread]
      exact .inl ⟨hopen, rfl⟩
    exact ⟨howned, hkey⟩

end Lift

/-! ## Steps -/

section Steps

variable {D : Deployment ι} (hD : D.Valid) {i : ι} {fault : Prop} {s s' : Server}
  {party party' : Party}

/-- The thread of the latest connection is one of the party. -/
theorem openLines_eq (party : Party) {line : Line} (hline : party.line = some line) :
    party.openLines = line.toOpen ++ party.oldLines := by
  rw [Party.openLines, hline, Line.toOpen, Option.filter]
  by_cases hopen : line.Open <;> simp [hopen]

/-- What a party owns is in its connections' threads and its entries. -/
theorem owns_congr (hfds : party'.fds = party.fds) (hentries : party'.entries = party.entries) :
    party'.owns = party.owns := by
  ext r
  cases r with
  | entry id =>
    show id ∈ party'.entries ↔ id ∈ party.entries
    rw [hentries]
  | socket fd =>
    have hmem : ∀ p : Party, Resource.socket fd ∈ p.owns ↔ fd ∈ p.fds := fun p => List.mem_map.symm
    rw [hmem, hmem, hfds]

/-- A party whose user has read. -/
def Party.replied (party : Party) (line : Line) (r : UserReaction) : Party :=
  { party with
    user := r.user
    line := some { line with
      toServer := line.toServer ++ r.toServer
      toUser := line.toUser.tail } }

/-- What a user reads: an answer, or nothing when the connection is lost. -/
inductive Reads (D : Deployment ι) (i : ι) (fault : Prop) (holds : Resource → Content → Prop)
    (party : Party) (exchange : Exchange) (stage : Stage) (line : Line) (r : UserReaction) : Prop
  | lost (hfault : fault) (hsent : r.toServer = []) (hvars : r.user.vars = party.user.vars)
      (hwaiting : r.user.waiting = .returned false ∨ stage = .exit ∧ r.user.waiting = exchange.done)
  | answered {answer : List UInt8} (hto : line.toServer = []) (hfrom : line.toUser = [answer])
      (hline : HasAnswered D i holds exchange party.user.vars party.entries line stage ∨
        fault ∧ line.thread.waiting = .returned)
      (hreplied : Replied D i exchange party.entries fault party.user stage r)

/-- The connection of a user that reads, after it sent something or not. -/
theorem place_replied {exchange : Exchange} {stage : Stage} {line : Line} {r : UserReaction}
    {holds : Resource → Content → Prop} {answer : List UInt8}
    (hdoes : (D.role i).Does exchange)
    (hto : line.toServer = []) (hfrom : line.toUser = [answer])
    (hline : HasAnswered D i holds exchange party.user.vars party.entries line stage ∨
      fault ∧ line.thread.waiting = .returned)
    (h : Replied D i exchange party.entries fault party.user stage r) :
    (r.user.vars.isKeyInit = true → D.Keyed i r.user.vars) ∧
      Place D i fault holds (party.replied line r) r.user.waiting := by
  rw [Party.replied, hto, hfrom]
  cases h with
  | sends hnext hwaiting hsent hkeyed hid hdone =>
    rw [hwaiting, hsent]
    refine ⟨fun _ => hkeyed, .talking rfl hdoes ?_ (fun _ => hkeyed) hdone⟩
    rcases hline with hline | ⟨hfault, hended⟩
    · refine .asked ?_ rfl rfl
      cases stage with
      | response =>
        obtain rfl := Option.some_inj.1 hnext
        exact WaitsFor.congr hline (hid nofun)
      | confirmation =>
        obtain rfl := Option.some_inj.1 hnext
        exact WaitsFor.congr hline (hid nofun)
      | answer =>
        obtain rfl := Option.some_inj.1 hnext
        exact At.exit hline _ _
      | exit => cases hnext
    · exact .ended hfault hended rfl
  | ends hwaiting hsent hstage hkeyed hdone =>
    rw [hwaiting, hsent]
    refine ⟨fun _ => hkeyed, .done rfl hdoes ?_ hkeyed hdone⟩
    rcases hline with hline | ⟨hfault, hended⟩
    · rcases hstage with rfl | ⟨hfault, rfl⟩
      · exact .ended hline
      · exact .waits hfault (At.exit hline _ _) (.inl rfl)
    · exact .ended hended
  | fails hfault hwaiting hsent hid hkeyed =>
    rw [hwaiting, hsent]
    refine ⟨hkeyed, .failed hfault ?_⟩
    rintro _ ⟨⟩
    refine ⟨exchange, hdoes, ?_⟩
    rcases hline with hline | ⟨-, hended⟩
    · have hline' : HasAnswered D i holds exchange party.user.vars party.entries
          ⟨line.thread, [], []⟩ stage := hline
      exact (hline'.served rfl).congr hid
    · exact .ended hended

/-- The connection of a user for which it is lost. -/
theorem place_lost {exchange : Exchange} {stage : Stage} {line : Line} {r : UserReaction}
    {holds : Resource → Content → Prop} (hfault : fault) (hdoes : (D.role i).Does exchange)
    (htalk : Talk D i fault holds exchange party.user.vars party.entries stage line)
    (hkeyed : stage ≠ .response → D.Keyed i party.user.vars)
    (hdone : stage = .exit → exchange.Done D party.user.vars party.entries)
    (hsent : r.toServer = []) (hvars : r.user.vars = party.user.vars)
    (hwaiting : r.user.waiting = .returned false ∨ stage = .exit ∧ r.user.waiting = exchange.done) :
    Place D i fault holds (party.replied line r) r.user.waiting := by
  rw [Party.replied, hsent, List.append_nil]
  have hserved : Served D i holds exchange r.user.vars party.entries
      { line with toUser := line.toUser.tail } := by
    rw [hvars]
    cases htalk.served with
    | waits hwaits hto => exact .waits hwaits hto
    | ended hended => exact .ended hended
  rcases hwaiting with hwaiting | ⟨rfl, hwaiting⟩
  · rw [hwaiting]
    refine .failed hfault ?_
    rintro _ ⟨⟩
    exact ⟨exchange, hdoes, hserved⟩
  · rw [hwaiting]
    refine .done rfl hdoes ?_ (hvars ▸ hkeyed nofun) (hvars ▸ hdone rfl)
    cases htalk with
    | asked hwaits hto => exact .waits hfault (At.exit hwaits _ _) (.inr hto)
    | answered _ _ _ hline =>
      rcases hline with hended | ⟨-, hended⟩
      · exact .ended hended
      · exact .ended hended
    | ended _ hended => exact .ended hended

include hD

/-- When a user reads, its exchange is on. -/
theorem read_spec {holds : Resource → Content → Prop} (h : Follows D i fault holds party)
    {env : UserEnv} {lost : Bool} (hlost : lost = true → fault) (hsent : env.sent = false → fault)
    (hread : party.read D i env lost = some party') :
    ∃ exchange stage line r, party.user.waiting = .talking exchange stage ∧
      party.line = some line ∧ (D.role i).Does exchange ∧
      Talk D i fault holds exchange party.user.vars party.entries stage line ∧
      (stage ≠ .response → D.Keyed i party.user.vars) ∧
      (stage = .exit → exchange.Done D party.user.vars party.entries) ∧
      party' = party.replied line r ∧ Reads D i fault holds party exchange stage line r := by
  obtain ⟨line, hline, hread⟩ := Option.bind_eq_some_iff.1 hread
  obtain ⟨got, hgot, hread⟩ := Option.bind_eq_some_iff.1 hread
  obtain ⟨r, hr, hread⟩ := Option.bind_eq_some_iff.1 hread
  obtain rfl := Option.some_inj.1 hread
  have hplace := h.place
  generalize hwaiting : party.user.waiting = waiting at hplace
  cases hplace with
  | start hnone => cases hnone.symm.trans hline
  | @talking exchange stage _ hline' hdoes htalk hkeyed hdone =>
    obtain rfl := Option.some_inj.1 (hline.symm.trans hline')
    refine ⟨exchange, stage, line, r, rfl, hline, hdoes, htalk, hkeyed, hdone, rfl, ?_⟩
    cases lost with
    | true =>
      obtain rfl : [] = got := Option.some_inj.1 hgot
      obtain ⟨r', hr', hto, hvars, hthen⟩ := user_recv_lost D i env hwaiting
      obtain rfl := Option.some_inj.1 (hr.symm.trans hr')
      exact .lost (hlost rfl) hto hvars hthen
    | false =>
      have hhead : line.toUser.head? = some got := hgot
      cases htalk with
      | asked _ _ hfrom =>
        rw [hfrom] at hhead
        cases hhead
      | ended _ _ hfrom =>
        rw [hfrom] at hhead
        cases hhead
      | answered hanswer hto hfrom hthread =>
        rw [hfrom] at hhead
        obtain rfl := Option.some_inj.1 hhead
        obtain ⟨r', hr', hreplied⟩ :=
          user_recv_spec hD hwaiting h.keyed hkeyed hdone hanswer hsent
        obtain rfl := Option.some_inj.1 (hr.symm.trans hr')
        exact .answered hto hfrom hthread hreplied
  | @done exchange =>
    rw [User.recv, hwaiting] at hr
    cases exchange <;> cases hr
  | failed =>
    rw [User.recv, hwaiting] at hr
    cases hr

/-- A user reads: nothing happens to the resources. -/
theorem follows_read (hlive : ∀ r ∈ party.owns, (s.view r).isSome)
    (h : Follows D i fault (ownership.Holds s party) party) {env : UserEnv} {lost : Bool}
    (hlost : lost = true → fault) (hsent : env.sent = false → fault)
    (hread : party.read D i env lost = some party') :
    ownership.Framed s s party party' ∧ Follows D i fault (ownership.Holds s party') party' := by
  obtain ⟨exchange, stage, line, r, -, hline, hdoes, htalk, hkeyed, hdone, rfl, hreads⟩ :=
    read_spec hD h hlost hsent hread
  have hfds : (party.replied line r).fds = party.fds := by
    rw [Party.fds, Party.fds, openLines_eq party hline, openLines_eq (party.replied line r) rfl,
      List.map_append, List.map_append]
    congr 1
    by_cases hopen : line.Open <;> simp [Line.toOpen, Line.Open] at hopen ⊢ <;> simp [hopen]
  have howns : (party.replied line r).owns = party.owns := owns_congr hfds rfl
  have hholds : ownership.Holds s (party.replied line r) = ownership.Holds s party := by
    funext x c
    exact congrArg (fun R : Set Resource => x ∈ R ∧ s.view x = some c) howns
  have hplace : (r.user.vars.isKeyInit = true → D.Keyed i r.user.vars) ∧
      Place D i fault (ownership.Holds s party) (party.replied line r) r.user.waiting := by
    cases hreads with
    | lost hfault hto hvars hthen =>
      exact ⟨hvars ▸ h.keyed, place_lost hfault hdoes htalk hkeyed hdone hto hvars hthen⟩
    | answered hto hfrom hthread hreplied => exact place_replied hdoes hto hfrom hthread hreplied
  refine ⟨.of_eq hlive rfl howns, ?_⟩
  rw [hholds]
  refine ⟨hfds ▸ h.nodup, h.hasEntries, hplace.1, h.openOld, fun l hl => ?_, hplace.2⟩
  obtain ⟨exchange, hdoes, hdrained⟩ := h.oldLines l hl
  exact ⟨exchange, hdoes, hdrained.congr _ _⟩

section Serve

variable (hs : s.Sound) (htracks : D.Tracks s) (hlive : ∀ r ∈ party.owns, (s.view r).isSome)
  (h : Follows D i fault (ownership.Holds s party) party) {env : ServerEnv} {lost : Bool}
  (hmoved : env.moved = false) (hlost : lost = true → fault) (hsent : env.sent = false → fault)
  (hfew : ∀ amount hamount, (D.role i).Does (.gather amount hamount) →
    s.manager.liveIds.card < amount → fault)

include hs htracks hlive h hmoved hlost hsent hfew

/-- One of the threads of a party reads, which waits for the message of a stage. -/
theorem serve_lifted {line line' : Line} {rest : List Line} {exchange : Exchange} {stage : Stage}
    (hdoes : (D.role i).Does exchange)
    (hwaits : WaitsFor D i (ownership.Holds s party) exchange party.user.vars party.entries line stage)
    (hto : line.toServer = [] ∨ line.toServer = [exchange.message D i party.user.vars stage])
    (hperm : party.openLines.Perm (line :: rest))
    (hperm' : party'.openLines.Perm (line'.toOpen ++ rest))
    (hentries : party'.entries = entriesAfter s.manager s'.manager party.entries)
    (hserve : line.serve D env lost s = some (s', line')) :
    ∃ r, s' = r.server ∧ line' = ⟨r.thread, [], line.toUser ++ r.toUser⟩ ∧
      Reacted D i exchange (exchange.before party.user.vars) party.entries party'.entries fault s
        line.thread stage r ∧
      (line.toServer = [] ∨ stage = .exit →
        party'.entries = party.entries ∧ r.thread.waiting = .returned) ∧
      (line.toServer = [] → r.toUser = []) ∧ Lifted D i s s' party party' line' rest := by
  have hwaits' : WaitsFor D i s.Has exchange party.user.vars party.entries line stage :=
    hwaits.mono fun _ _ h => h.2
  obtain ⟨entries', r, rfl, rfl, hreacted, hkeep, hnil⟩ := serve_spec hD hs hmoved htracks
    (h.hasEntries.mono fun _ _ _ h => h.2) hdoes hwaits' hto hlost hsent
    (fun amount hamount heq => hfew amount hamount (heq ▸ hdoes)) hserve
  obtain rfl : entries' = party'.entries := hreacted.after.symm.trans hentries.symm
  exact ⟨r, rfl, rfl, hreacted, hkeep, hnil,
    lift hwaits.ne_returned hperm hperm' rfl h.nodup hlive hreacted.toMoved⟩

/-- The thread of the latest connection reads. -/
theorem follows_serve (hserve : party.serve D s env lost = some (s', party')) :
    ownership.Framed s s' party party' ∧ s'.Sound ∧
      Follows D i fault (ownership.Holds s' party') party' := by
  obtain ⟨line, hline, hserve⟩ := Option.bind_eq_some_iff.1 hserve
  obtain ⟨⟨s₁, line'⟩, hserved, hserve⟩ := Option.bind_eq_some_iff.1 hserve
  obtain ⟨rfl, rfl⟩ := Prod.mk.inj (Option.some_inj.1 hserve)
  set party' : Party := { party with
    line := some line'
    entries := entriesAfter s.manager s₁.manager party.entries } with hparty'
  have hperm' : party'.openLines.Perm (line'.toOpen ++ party.oldLines) := by
    rw [openLines_eq party' rfl]
  have hperm : line.Open → party.openLines.Perm (line :: party.oldLines) := by
    intro hopen
    rw [openLines_eq party hline, Line.toOpen, if_pos hopen]
    exact .refl _
  -- What is left to show in every case is where the user is.
  have hfollows : ∀ hlifted : Lifted D i s s₁ party party' line' party.oldLines, s₁.Sound →
      Place D i fault (ownership.Holds s₁ party') party' party.user.waiting →
        ownership.Framed s s₁ party party' ∧ s₁.Sound ∧
          Follows D i fault (ownership.Holds s₁ party') party' := by
    intro hlifted hs₁ hplace
    refine ⟨hlifted.framed, hs₁, hlifted.nodup, hlifted.hasEntries, h.keyed, h.openOld,
      fun l hl => ?_, hplace⟩
    obtain ⟨exchange, hdoes, hdrained⟩ := h.oldLines l hl
    exact ⟨exchange, hdoes, (hdrained.mono (hlifted.keeps l hl)).congr _ _⟩
  have hopen : ∀ {p : Prop}, line.thread.waiting = .returned → p := by
    intro p hended
    rw [serve_returned hended] at hserved
    cases hserved
  have hplace := h.place
  generalize hwaiting : party.user.waiting = waiting at hplace hfollows
  cases hplace with
  | start hnone => cases hnone.symm.trans hline
  | @talking exchange stage _ hline' hdoes htalk hkeyed hdone =>
    obtain rfl := Option.some_inj.1 (hline.symm.trans hline')
    cases htalk with
    | asked hwaits hto hfrom =>
      obtain ⟨r, rfl, rfl, hreacted, hkeep, -, hlifted⟩ := serve_lifted hD hs htracks hlive h hmoved
        hlost hsent hfew hdoes hwaits (.inr hto) (hperm hwaits.ne_returned) hperm' rfl hserved
      refine hfollows hlifted hreacted.sound (.talking rfl hdoes ?_ hkeyed fun hstage => ?_)
      · rw [hfrom]
        exact hreacted.talk.mono (hfrom ▸ hlifted.line)
      · have hsame := (hkeep (.inr hstage)).1
        show exchange.Done D party.user.vars party'.entries
        exact hsame ▸ hdone hstage
    | answered hanswer hto hfrom hthread =>
      -- Nothing is on its way: the thread finds the connection lost.
      have hlast : ∀ stage', WaitsFor D i (ownership.Holds s party) exchange party.user.vars
          party.entries line stage' → ownership.Framed s s₁ party party' ∧ s₁.Sound ∧
            Follows D i fault (ownership.Holds s₁ party') party' := by
        intro stage' hwaits
        obtain ⟨r, rfl, rfl, hreacted, hkeep, hnil, hlifted⟩ := serve_lifted hD hs htracks hlive h
          hmoved hlost hsent hfew hdoes hwaits (.inl hto) (hperm hwaits.ne_returned) hperm' rfl hserved
        obtain ⟨hsame, hended⟩ := hkeep (.inl hto)
        have hfault : fault := by
          rcases hreacted.answered with ⟨_, -, hsome, -⟩ | ⟨hfault, -⟩
          · exact absurd ((hnil hto).symm.trans hsome) nofun
          · exact hfault
        refine hfollows hlifted hreacted.sound (.talking rfl hdoes ?_ hkeyed fun hstage => ?_)
        · refine .answered (hsame.symm ▸ hanswer) rfl ?_ (.inr ⟨hfault, hended⟩)
          rw [hfrom, hnil hto]
          rfl
        · show exchange.Done D party.user.vars party'.entries
          exact hsame ▸ hdone hstage
      rcases hthread with hanswered | ⟨-, hended⟩
      · cases stage with
        | exit => exact hopen hanswered
        | _ => exact hlast _ hanswered
      · exact hopen hended
    | ended _ hended => exact hopen hended
  | @done exchange _ hline' hdoes hdrained hkeyed hdone =>
    obtain rfl := Option.some_inj.1 (hline.symm.trans hline')
    cases hdrained with
    | waits hfault hwaits hto =>
      obtain ⟨r, rfl, rfl, hreacted, hkeep, -, hlifted⟩ := serve_lifted hD hs htracks hlive h hmoved
        hlost hsent hfew hdoes hwaits hto (hperm hwaits.ne_returned) hperm' rfl hserved
      obtain ⟨hsame, hended⟩ := hkeep (.inr rfl)
      refine hfollows hlifted hreacted.sound (.done rfl hdoes (.ended hended) hkeyed ?_)
      show exchange.Done D party.user.vars party'.entries
      exact hsame ▸ hdone
    | ended hended => exact hopen hended
  | failed hfault hlines =>
    obtain ⟨exchange, hdoes, hserved'⟩ := hlines line hline
    cases hserved' with
    | waits hwaits hto =>
      obtain ⟨r, rfl, rfl, hreacted, -, -, hlifted⟩ := serve_lifted hD hs htracks hlive h hmoved
        hlost hsent hfew hdoes hwaits hto (hperm hwaits.ne_returned) hperm' rfl hserved
      refine hfollows hlifted hreacted.sound (.failed hfault ?_)
      rintro _ ⟨⟩
      exact ⟨exchange, hdoes, hreacted.served.mono hlifted.line⟩
    | ended hended => exact hopen hended

omit hlost hsent hfew in
/-- The thread of an earlier connection reads, which ends it. -/
theorem follows_serveOld {n : ℕ} (hserve : party.serveOld D s n env lost = some (s', party')) :
    ownership.Framed s s' party party' ∧ s'.Sound ∧
      Follows D i fault (ownership.Holds s' party') party' := by
  obtain ⟨line, hline, hserve⟩ := Option.bind_eq_some_iff.1 hserve
  obtain ⟨⟨s₁, line'⟩, hserved, hserve⟩ := Option.bind_eq_some_iff.1 hserve
  obtain ⟨rfl, rfl⟩ := Prod.mk.inj (Option.some_inj.1 hserve)
  obtain ⟨exchange, hdoes, hdrained⟩ := h.oldLines line (List.mem_of_getElem? hline)
  cases hdrained with
  | ended hended =>
    rw [serve_returned hended] at hserved
    cases hserved
  | waits hfault hwaits hto =>
    set party' : Party := { party with
      oldLines := if line'.Open then party.oldLines.set n line' else party.oldLines.eraseIdx n
      entries := entriesAfter s.manager s₁.manager party.entries } with hparty'
    set latest : List Line := (party.line.filter (·.Open)).toList with hlatest
    obtain ⟨hn, hget⟩ := List.getElem?_eq_some_iff.1 hline
    have hperm : party.openLines.Perm (line :: (latest ++ party.oldLines.eraseIdx n)) := by
      have herase := List.getElem_cons_eraseIdx_perm hn
      rw [hget] at herase
      exact (herase.symm.append_left latest).trans List.perm_middle
    have hperm' : party'.openLines.Perm (line'.toOpen ++ (latest ++ party.oldLines.eraseIdx n)) := by
      show (latest ++ if line'.Open then party.oldLines.set n line' else _).Perm _
      rw [Line.toOpen]
      split
      · exact ((List.set_perm_cons_eraseIdx hn line').append_left latest).trans List.perm_middle
      · exact .refl _
    obtain ⟨r, rfl, rfl, hreacted, hkeep, -, hlifted⟩ := serve_lifted hD hs htracks hlive h hmoved
      (fun _ => hfault) (fun _ => hfault) (fun _ _ _ _ => hfault) hdoes hwaits hto hperm hperm' rfl
      hserved
    obtain ⟨hsame, hended⟩ := hkeep (.inr rfl)
    have hlatest' : ∀ l ∈ party.line, Keeps (ownership.Holds s party)
        (ownership.Holds r.server party') l := by
      intro l hl hopen
      refine hlifted.keeps l (List.mem_append_left _ ?_) hopen
      rw [hlatest, Option.mem_def.1 hl, Option.filter_some_pos (by simpa using hopen)]
      exact List.mem_singleton_self l
    have herased : ∀ l ∈ party'.oldLines, l ∈ party.oldLines.eraseIdx n := by
      intro l hl
      rw [hparty', if_neg (fun hopen => hopen hended)] at hl
      exact hl
    refine ⟨hlifted.framed, hreacted.sound, hlifted.nodup, hlifted.hasEntries, h.keyed,
      fun l hl => h.openOld l (List.mem_of_mem_eraseIdx (herased l hl)), fun l hl => ?_, ?_⟩
    · have hl' := herased l hl
      obtain ⟨exchange, hdoes, hdrained⟩ := h.oldLines l (List.mem_of_mem_eraseIdx hl')
      exact ⟨exchange, hdoes,
        (hdrained.mono (hlifted.keeps l (List.mem_append_right _ hl'))).congr _ _⟩
    · have hplace := (h.place.mono hlatest').ofOldLines party'.oldLines
      rw [← hsame] at hplace
      exact hplace

end Serve

omit hD in
/-- What there is when a user begins its next exchange. -/
theorem next_spec {holds : Resource → Content → Prop} (h : Follows D i fault holds party)
    {exchange : Exchange} (hnext : (D.role i).next party.user.waiting = some exchange) :
    (D.role i).Does exchange ∧ exchange.allowed party.user.vars = true ∧
      party.entries = exchange.before party.user.vars ∧ ∀ line ∈ party.line, ∃ exchange',
        (D.role i).Does exchange' ∧
          Drained D i fault holds exchange' party.user.vars party.entries line := by
  have hplace := h.place
  generalize hwaiting : party.user.waiting = waiting at hplace hnext
  generalize hrole : D.role i = role at hnext
  cases hplace with
  | start hline hentries hid =>
    have hnone : ∀ line ∈ party.line, ∃ exchange', role.Does exchange' ∧
        Drained D i fault holds exchange' party.user.vars party.entries line :=
      fun line hmem => nomatch (hline ▸ hmem : line ∈ none)
    cases role with
    | relay sockAddr =>
      obtain rfl := Option.some_inj.1 hnext
      exact ⟨rfl, decide_eq_true hid, hentries, hnone⟩
    | client relays hrelays =>
      obtain rfl := Option.some_inj.1 hnext
      exact ⟨rfl, rfl, hentries, hnone⟩
  | talking => cases role <;> cases hnext
  | @done exchange' line hline hdoes hdrained hkeyed hdone =>
    have hlines : ∀ line ∈ party.line, ∃ exchange', role.Does exchange' ∧
        Drained D i fault holds exchange' party.user.vars party.entries line := by
      intro l hl
      obtain rfl := Option.some_inj.1 (hline.symm.trans hl)
      exact ⟨exchange', hrole ▸ hdoes, hdrained⟩
    cases exchange' with
    | signup sockAddr =>
      cases role with
      | relay sockAddr' =>
        obtain rfl := Option.some_inj.1 hnext
        refine ⟨trivial, decide_eq_true ?_, hdone.1, hlines⟩
        exact ((hdone.2.trans (by decide)).ne : party.user.vars.registerId ≠ invalidRelayId)
      | client => cases hnext
    | signout => cases role <;> cases hnext
    | gather => cases role <;> cases hnext
  | failed => cases role <;> cases hnext

omit hD in
/-- A user begins its next exchange. -/
theorem follows_begin (hs : s.Sound) (hlive : ∀ r ∈ party.owns, (s.view r).isSome)
    (h : Follows D i fault (ownership.Holds s party) party) {env : UserEnv} {connected : Bool}
    (hconnected : connected = false → fault) (hsent : env.sent = false → fault) {fd : SockFd}
    {buffer threadBuffer : List UInt8}
    (hbegin : party.begin D i s env connected fd buffer threadBuffer = some (s', party')) :
    ownership.Framed s s' party party' ∧ s'.Sound ∧
      Follows D i fault (ownership.Holds s' party') party' := by
  obtain ⟨exchange, hnext, hbegin⟩ := Option.bind_eq_some_iff.1 hbegin
  obtain ⟨hdoes, hallowed, hentries, hlines⟩ := next_spec h hnext
  simp only [User.begin, hallowed, Bool.true_and] at hbegin
  cases connected with
  | false =>
    obtain ⟨rfl, rfl⟩ := Prod.mk.inj (Option.some_inj.1 hbegin)
    refine ⟨.of_eq hlive rfl rfl, hs, h.nodup, h.hasEntries, h.keyed, h.openOld, h.oldLines,
      .failed (hconnected rfl) fun line hline => ?_⟩
    obtain ⟨exchange', hdoes', hdrained⟩ := hlines line hline
    exact ⟨exchange', hdoes', hdrained.served⟩
  | true =>
    simp only [if_true] at hbegin
    split at hbegin
    next => cases hbegin
    next hfd =>
    obtain ⟨rfl, hparty'⟩ := Prod.mk.inj (Option.some_inj.1 hbegin)
    obtain ⟨hs', hview⟩ := view_accept hs hfd
    set s' : Server := { s with openFds := insert fd s.openFds } with hs'_eq
    have hclosed : s.view (.socket fd) = none := if_neg hfd
    have howns : party'.owns = insert (.socket fd) party.owns := by
      rw [← hparty']
      ext r
      cases r with
      | entry id => exact (or_iff_right nofun).symm
      | socket fd' =>
        show (∃ l ∈ _ :: party.openLines, l.thread.fd = fd') ↔ _ ∨ ∃ l ∈ party.openLines, _
        simp only [List.mem_cons, exists_eq_or_imp]
        exact or_congr_left ⟨fun h => h ▸ rfl, fun h => (Resource.socket.inj h).symm⟩
    have hframed : ownership.Framed s s' party party' := .take hlive hview howns hclosed
    have hkeeps : ∀ x ∈ party.owns, ∀ c, s.Has x c → ownership.Holds s' party' x c := by
      intro x hx c hc
      have hmem : x ∈ party'.owns := howns ▸ .inr hx
      refine ⟨hmem, ?_⟩
      have hne : x ≠ .socket fd := by
        rintro rfl
        rw [Server.Has, hclosed] at hc
        cases hc
      show s'.view x = some c
      rw [hview, Function.update_of_ne hne]
      exact hc
    have hsocket : ownership.Holds s' party' (.socket fd) (.socket none) := by
      have hmem : Resource.socket fd ∈ party'.owns := howns ▸ .inl rfl
      refine ⟨hmem, ?_⟩
      show s'.view (.socket fd) = _
      rw [hview, Function.update_self]
    have hnodup : party'.fds.Nodup := by
      rw [← hparty']
      refine List.nodup_cons.2 ⟨fun hmem => ?_, h.nodup⟩
      have hsome := hlive (.socket fd) (List.mem_map.1 hmem)
      rw [hclosed] at hsome
      cases hsome
    have hold : ∀ line ∈ party.openLines, ∃ exchange', (D.role i).Does exchange' ∧
        Drained D i fault (ownership.Holds s' party') exchange' party.user.vars party.entries line := by
      intro line hline
      have hmono : Keeps (ownership.Holds s party) (ownership.Holds s' party') line :=
        fun _ key hkey => hkeeps _ hkey.1 _ hkey.2
      rcases List.mem_append.1 hline with hline | hline
      · obtain ⟨exchange', hdoes', hdrained⟩ := hlines line
          (Option.filter_eq_some_iff.1 (Option.mem_toList.1 hline)).1
        exact ⟨exchange', hdoes', hdrained.mono hmono⟩
      · obtain ⟨exchange', hdoes', hdrained⟩ := h.oldLines line hline
        exact ⟨exchange', hdoes', hdrained.mono hmono⟩
    have hopenOld : ∀ line ∈ party.openLines, line.Open := by
      intro line hline
      rcases List.mem_append.1 hline with hline | hline
      · exact of_decide_eq_true (Option.filter_eq_some_iff.1 (Option.mem_toList.1 hline)).2
      · exact h.openOld line hline
    have hhasEntries : HasEntries D i party.entries (ownership.Holds s' party') :=
      h.hasEntries.mono fun id _ d hd => hkeeps _ hd.1 _ hd.2
    refine ⟨hframed, hs', ?_⟩
    rw [User.send] at hparty'
    cases henv : env.sent with
    | false =>
      rw [henv, if_neg Bool.false_ne_true] at hparty'
      subst hparty'
      refine ⟨hnodup, hhasEntries, h.keyed, hopenOld, hold, .failed (hsent henv) ?_⟩
      rintro _ ⟨⟩
      exact ⟨exchange, hdoes, .waits (.request hsocket hentries) (.inl rfl)⟩
    | true =>
      rw [henv, if_pos rfl] at hparty'
      subst hparty'
      refine ⟨hnodup, hhasEntries, h.keyed, hopenOld, hold, .talking rfl hdoes ?_ (absurd rfl) fun h => by cases h⟩
      exact .asked (.request hsocket hentries) rfl rfl

omit hD in
/-- A thread that has not ended waits for the message of a stage. -/
theorem line_waits {holds : Resource → Content → Prop} (h : Follows D i fault holds party)
    {line : Line} (hline : line ∈ party.openLines) : ∃ exchange stage, (D.role i).Does exchange ∧
      WaitsFor D i holds exchange party.user.vars party.entries line stage := by
  have hserved : ∃ exchange, (D.role i).Does exchange ∧
      Served D i holds exchange party.user.vars party.entries line := by
    rcases List.mem_append.1 hline with hlatest | hold
    · have hlatest := (Option.filter_eq_some_iff.1 (Option.mem_toList.1 hlatest)).1
      have hplace := h.place
      generalize party.user.waiting = waiting at hplace
      cases hplace with
      | start hnone => cases hnone.symm.trans hlatest
      | talking hline' hdoes htalk =>
        obtain rfl := Option.some_inj.1 (hline'.symm.trans hlatest)
        exact ⟨_, hdoes, htalk.served⟩
      | done hline' hdoes hdrained =>
        obtain rfl := Option.some_inj.1 (hline'.symm.trans hlatest)
        exact ⟨_, hdoes, hdrained.served⟩
      | failed _ hlines => exact hlines line hlatest
    · obtain ⟨exchange, hdoes, hdrained⟩ := h.oldLines line hold
      exact ⟨exchange, hdoes, hdrained.served⟩
  have hopen : line.Open := by
    rcases List.mem_append.1 hline with hlatest | hold
    · exact of_decide_eq_true (Option.filter_eq_some_iff.1 (Option.mem_toList.1 hlatest)).2
    · exact h.openOld line hold
  obtain ⟨exchange, hdoes, hserved⟩ := hserved
  cases hserved with
  | waits hwaits => exact ⟨exchange, _, hdoes, hwaits⟩
  | ended hended => exact absurd hended hopen

end Steps

end OnionRouter.Directory
