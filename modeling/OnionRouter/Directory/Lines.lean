import OnionRouter.Directory.Requests

/-!
# Connections

What is known of a connection in every state of a run, whatever happens to it: in an exchange
the message of the stage is on its way to the thread, or its answer to the user, or the thread
has ended (`Talk`); one that the user does not look at any more is served to its end
(`Served`), and nothing comes of one whose exchange was done (`Drained`).

* `serve_spec`: what one `read` of its thread leads to.
-/

namespace OnionRouter.Directory

open Client Crypto Deployment Lib Memory Net Protocol RelayManager

variable {ι : Type}

section Lines

variable (D : Deployment ι) (i : ι) (fault : Prop) (holds : Resource → Content → Prop)
  (exchange : Exchange) (vars : UserVars) (entries : Finset ℕ)

/-- The thread of a connection waits for the message of a stage. -/
def WaitsFor (line : Line) (stage : Stage) : Prop :=
  At D i exchange (exchange.before vars) entries line.thread.fd
    (fun key => holds (.socket line.thread.fd) (.socket key)) stage line.thread.waiting

/-- The thread of a connection has answered the message of a stage. -/
def HasAnswered (line : Line) (stage : Stage) : Prop :=
  Answered D i exchange (exchange.before vars) entries line.thread.fd
    (fun key => holds (.socket line.thread.fd) (.socket key)) line.thread.waiting stage

/-- A connection whose thread waits, or has ended. -/
inductive Served (line : Line) : Prop
  | waits {stage : Stage} (hwaits : WaitsFor D i holds exchange vars entries line stage)
      (hto : line.toServer = [] ∨ line.toServer = [exchange.message D i vars stage])
  | ended (hended : line.thread.waiting = .returned)

/-- A connection whose exchange was done: its thread ends when it reads, if it has not after a
    fault. -/
inductive Drained (line : Line) : Prop
  | waits (hfault : fault) (hwaits : WaitsFor D i holds exchange vars entries line .exit)
      (hto : line.toServer = [] ∨ line.toServer = [exchange.message D i vars .exit])
  | ended (hended : line.thread.waiting = .returned)

/-- A connection whose user waits for the answer of a stage. -/
inductive Talk (stage : Stage) (line : Line) : Prop
  | asked (hwaits : WaitsFor D i holds exchange vars entries line stage)
      (hto : line.toServer = [exchange.message D i vars stage]) (hfrom : line.toUser = [])
  | answered {answer : List UInt8} (hanswer : Answer D i fault entries exchange stage answer)
      (hto : line.toServer = []) (hfrom : line.toUser = [answer])
      (hline : HasAnswered D i holds exchange vars entries line stage ∨
        fault ∧ line.thread.waiting = .returned)
  | ended (hfault : fault) (hended : line.thread.waiting = .returned) (hfrom : line.toUser = [])

end Lines

section Mono

variable {D : Deployment ι} {i : ι} {fault : Prop} {holds holds' : Resource → Content → Prop}
  {exchange : Exchange} {vars vars' : UserVars} {entries entries' : Finset ℕ} {line line' : Line}
  {stage : Stage}

/-- What a connection knows of the resources is about its own socket. -/
def Keeps (holds holds' : Resource → Content → Prop) (line : Line) : Prop :=
  line.Open → ∀ key, holds (.socket line.thread.fd) (.socket key) →
    holds' (.socket line.thread.fd) (.socket key)

theorem WaitsFor.mono (h : WaitsFor D i holds exchange vars entries line stage)
    (hkeeps : Keeps holds holds' line) : WaitsFor D i holds' exchange vars entries line stage :=
  At.mono h (hkeeps h.ne_returned)

theorem HasAnswered.mono (h : HasAnswered D i holds exchange vars entries line stage)
    (hkeeps : Keeps holds holds' line) : HasAnswered D i holds' exchange vars entries line stage := by
  cases stage with
  | exit => exact h
  | _ => exact WaitsFor.mono h hkeeps

theorem Served.mono (h : Served D i holds exchange vars entries line)
    (hkeeps : Keeps holds holds' line) : Served D i holds' exchange vars entries line := by
  cases h with
  | waits hwaits hto => exact .waits (hwaits.mono hkeeps) hto
  | ended hended => exact .ended hended

theorem Drained.mono (h : Drained D i fault holds exchange vars entries line)
    (hkeeps : Keeps holds holds' line) : Drained D i fault holds' exchange vars entries line := by
  cases h with
  | waits hfault hwaits hto => exact .waits hfault (hwaits.mono hkeeps) hto
  | ended hended => exact .ended hended

theorem Talk.mono (h : Talk D i fault holds exchange vars entries stage line)
    (hkeeps : Keeps holds holds' line) : Talk D i fault holds' exchange vars entries stage line := by
  cases h with
  | asked hwaits hto hfrom => exact .asked (hwaits.mono hkeeps) hto hfrom
  | answered hanswer hto hfrom hline =>
    exact .answered hanswer hto hfrom (hline.imp_left fun h => h.mono hkeeps)
  | ended hfault hended hfrom => exact .ended hfault hended hfrom

theorem Drained.served (h : Drained D i fault holds exchange vars entries line) :
    Served D i holds exchange vars entries line := by
  cases h with
  | waits _ hwaits hto => exact .waits hwaits hto
  | ended hended => exact .ended hended

/-- The messages of a stage behind the request do not depend on what the user has. -/
theorem Drained.congr (h : Drained D i fault holds exchange vars entries line)
    (vars' : UserVars) (entries' : Finset ℕ) :
    Drained D i fault holds exchange vars' entries' line := by
  cases h with
  | waits hfault hwaits hto => exact .waits hfault (hwaits.exit _ _) hto
  | ended hended => exact .ended hended

theorem HasAnswered.served (h : HasAnswered D i holds exchange vars entries line stage)
    (hto : line.toServer = []) : Served D i holds exchange vars entries line := by
  cases stage with
  | exit => exact .ended h
  | _ => exact .waits h (.inl hto)

theorem Talk.served (h : Talk D i fault holds exchange vars entries stage line) :
    Served D i holds exchange vars entries line := by
  cases h with
  | asked hwaits hto => exact .waits hwaits (.inr hto)
  | answered hanswer hto hfrom hline =>
    rcases hline with hline | ⟨-, hended⟩
    · exact hline.served hto
    · exact .ended hended
  | ended _ hended => exact .ended hended

/-- Of its variables only the id matters. -/
theorem WaitsFor.congr (h : WaitsFor D i holds exchange vars entries line stage)
    (hid : vars'.registerId = vars.registerId) :
    WaitsFor D i holds exchange vars' entries line stage := by
  have hbefore : exchange.before vars' = exchange.before vars := by
    cases exchange with
    | signout => exact congrArg (fun id => ({id} : Finset ℕ)) hid
    | _ => rfl
  rw [WaitsFor, hbefore]
  exact h

theorem message_congr (hid : vars'.registerId = vars.registerId) :
    exchange.message D i vars' stage = exchange.message D i vars stage := by
  cases stage with
  | answer =>
    cases exchange with
    | signout => exact congrArg (fun id => sendEncServerMsg (D.secret i) (signoutRequest id)) hid
    | _ => rfl
  | _ => rfl

theorem Served.congr (h : Served D i holds exchange vars entries line)
    (hid : vars'.registerId = vars.registerId) : Served D i holds exchange vars' entries line := by
  cases h with
  | waits hwaits hto => exact .waits (hwaits.congr hid) (by rwa [message_congr hid])
  | ended hended => exact .ended hended

end Mono

/-! ## Serving -/

section Serve

variable {D : Deployment ι} {i : ι} {fault : Prop} {exchange : Exchange} {vars : UserVars}
  {entries : Finset ℕ} {s s' : Server} {line line' : Line} {stage : Stage} {env : ServerEnv}
  {lost : Bool}

theorem serve_eq_some (h : line.serve D env lost s = some (s', line')) :
    ∃ got r, nextMessage line.toServer lost = some got ∧
      line.thread.recv D.gmp D.vars env s got = some r ∧ s' = r.server ∧
      line' = ⟨r.thread, line.toServer.tail, line.toUser ++ r.toUser⟩ := by
  obtain ⟨got, hgot, h⟩ := Option.bind_eq_some_iff.1 h
  obtain ⟨r, hr, h⟩ := Option.bind_eq_some_iff.1 h
  obtain ⟨rfl, rfl⟩ := Prod.mk.inj (Option.some_inj.1 h)
  exact ⟨got, r, hgot, hr, rfl, rfl⟩

/-- A thread that has ended reads nothing. -/
theorem serve_returned (h : line.thread.waiting = .returned) :
    line.serve D env lost s = none := by
  refine Option.eq_none_iff_forall_ne_some.2 fun ⟨s', line'⟩ hserve => ?_
  obtain ⟨got, r, -, hr, -⟩ := serve_eq_some hserve
  rw [ServerThread.recv, h] at hr
  cases hr

/-- What one `read` of a thread that waits leads to; when nothing is on its way, the
    connection is lost. -/
theorem serve_spec (hD : D.Valid) (hs : s.Sound) (hmoved : env.moved = false)
    (htracks : D.Tracks s) (hentries : HasEntries D i entries s.Has)
    (hdoes : (D.role i).Does exchange)
    (hwaits : WaitsFor D i s.Has exchange vars entries line stage)
    (hto : line.toServer = [] ∨ line.toServer = [exchange.message D i vars stage])
    (hlost : lost = true → fault) (hsent : env.sent = false → fault)
    (hfew : ∀ amount hamount, exchange = .gather amount hamount →
      s.manager.liveIds.card < amount → fault)
    (h : line.serve D env lost s = some (s', line')) :
    ∃ entries' r, s' = r.server ∧ line' = ⟨r.thread, [], line.toUser ++ r.toUser⟩ ∧
      Reacted D i exchange (exchange.before vars) entries entries' fault s line.thread stage r ∧
      (line.toServer = [] ∨ stage = .exit → entries' = entries ∧ r.thread.waiting = .returned) ∧
      (line.toServer = [] → r.toUser = []) := by
  obtain ⟨got, r, hgot, hr, rfl, rfl⟩ := serve_eq_some h
  have htail : line.toServer.tail = [] := by
    rcases hto with hto | hto <;> rw [hto] <;> rfl
  rw [htail]
  cases lost with
  | true =>
    obtain ⟨r', hr', hmoved, hended, hfrom⟩ := moved_lost D env hs hwaits hentries
    obtain rfl : [] = got := Option.some_inj.1 hgot
    obtain rfl := Option.some_inj.1 (hr.symm.trans hr')
    exact ⟨entries, r, rfl, rfl, ⟨hmoved, .inr ⟨hlost rfl, hended, hfrom⟩⟩,
      fun _ => ⟨rfl, hended⟩, fun _ => hfrom⟩
  | false =>
    have hhead : line.toServer.head? = some got := hgot
    have hmessage : line.toServer = [exchange.message D i vars stage] :=
      hto.resolve_left fun hnil => by rw [hnil] at hhead; cases hhead
    rw [hmessage] at hhead
    obtain rfl : exchange.message D i vars stage = got := Option.some_inj.1 hhead
    have hcons : line.toServer ≠ [] := by
      rw [hmessage]
      exact List.cons_ne_nil _ _
    by_cases hstage : stage = .exit
    · subst hstage
      obtain ⟨r', hr', hreacted⟩ := reacted_exit hD env hs hentries hsent vars hwaits
      obtain rfl := Option.some_inj.1 (hr.symm.trans hr')
      refine ⟨entries, r, rfl, rfl, hreacted, fun _ => ⟨rfl, ?_⟩, fun h => absurd h hcons⟩
      rcases hreacted.answered with ⟨_, -, -, hended⟩ | ⟨-, hended, -⟩
      · exact hended
      · exact hended
    · obtain ⟨entries', hreacted⟩ :=
        recv_spec hD hs hmoved htracks hentries hdoes hwaits hsent hfew hr
      exact ⟨entries', r, rfl, rfl, hreacted, fun h => (h.elim hcons hstage).elim,
        fun h => absurd h hcons⟩

/-- What the connection is after it: its user has the answer, or the thread has ended. -/
theorem Reacted.hasAnswered {entries' : Finset ℕ} {r : ServerReaction} {toUser : List (List UInt8)}
    (h : Reacted D i exchange (exchange.before vars) entries entries' fault s line.thread stage r) :
    (∃ answer, Answer D i fault entries' exchange stage answer ∧ r.toUser = [answer] ∧
      HasAnswered D i r.server.Has exchange vars entries' ⟨r.thread, [], toUser⟩ stage) ∨
        fault ∧ r.thread.waiting = .returned ∧ r.toUser = [] := by
  refine h.answered.imp_left ?_
  rintro ⟨answer, hanswer, hfrom, hanswered⟩
  refine ⟨answer, hanswer, hfrom, ?_⟩
  rw [HasAnswered]
  simp only [h.fd]
  exact hanswered

/-- A connection that is served stays one. -/
theorem Reacted.served {entries' : Finset ℕ} {r : ServerReaction} {toUser : List (List UInt8)}
    (h : Reacted D i exchange (exchange.before vars) entries entries' fault s line.thread stage r) :
    Served D i r.server.Has exchange vars entries' ⟨r.thread, [], toUser⟩ := by
  rcases h.hasAnswered with ⟨_, -, -, hanswered⟩ | ⟨-, hended, -⟩
  · exact hanswered.served rfl
  · exact .ended hended

/-- The user of a connection has its answer, or the thread has ended. -/
theorem Reacted.talk {entries' : Finset ℕ} {r : ServerReaction}
    (h : Reacted D i exchange (exchange.before vars) entries entries' fault s line.thread stage r) :
    Talk D i fault r.server.Has exchange vars entries' stage ⟨r.thread, [], [] ++ r.toUser⟩ := by
  rcases h.hasAnswered with ⟨_, hanswer, hfrom, hanswered⟩ | ⟨hfault, hended, hfrom⟩
  · exact .answered hanswer rfl hfrom (.inl hanswered)
  · exact .ended hfault hended hfrom

end Serve

end OnionRouter.Directory
