import OnionRouter.Relay.Exit

/-!
# Data for a destination

The DATA of the client that arrives for one stream, cell after cell, and what `send` makes
of it: it fails, or it accepts some of the bytes that it is given, and
`handle_relay_data` does not look at how many.

* `deliver_spec`: the table and the sockets stay what they are, whatever `send` returns.
* `writesOrEnds_iff`: so nothing may be left over.
-/

namespace OnionRouter.Relay

open Lib Protocol Streams

/-- A DATA cell, and what `send` returns for it: how many bytes it accepted, or nothing
    when it fails. -/
structure DataCell where
  buffer : Memory UInt8
  result : Option ℕ

/-- The data of the cell. -/
def DataCell.payload (cell : DataCell) : List UInt8 := (dataSpan cell.buffer).bytes cell.buffer

/-- What the calls yield while the cell is handled. -/
def DataCell.calls (cell : DataCell) : Calls := ⟨fun _ => none, cell.result.isSome, true⟩

/-- The bytes that a socket accepts from the cell. -/
def DataCell.acceptedBy (cell : DataCell) (o : Outcome) (sockFd : ℕ) : List UInt8 :=
  match o.offered, cell.result with
  | some (fd, span), some accepted =>
    if fd = sockFd then (span.bytes cell.buffer).take accepted else []
  | _, _ => []

/-- The session after cells, the bytes that the socket accepted, and the replies. -/
structure Delivered where
  session : EndSession
  accepted : List UInt8
  replies : List (Memory UInt8)

/-- The handling of cells, one after the other. -/
def deliver (sockFd : ℕ) (s : EndSession) : List DataCell → Option Delivered
  | [] => some ⟨s, [], []⟩
  | cell :: cells => do
    let o := handleClientMsg s.map cell.buffer cell.calls.connectServer cell.calls.sent
    let s ← s.step (.message cell.buffer cell.calls)
    let rest ← deliver sockFd s cells
    return ⟨rest.session, cell.acceptedBy o sockFd ++ rest.accepted, o.reply.toList ++ rest.replies⟩

/-- A cell for the stream, with a result that `send` can have. -/
structure DataCell.ForStream (cell : DataCell) (streamId : UInt16) : Prop where
  data : IsRelayCell cell.buffer .relayData streamId
  pos : 1 ≤ cell.payload.length
  le : cell.payload.length ≤ relayDataMsgSize
  accepts : ∀ accepted ∈ cell.result, 1 ≤ accepted ∧ accepted ≤ cell.payload.length

/-- The socket gets the data from the start on, and where not all of it, the stream is
    ended. -/
structure WritesOrEnds (cells : List DataCell) (streamId : UInt16) (sockFd : ℕ) (d : Delivered) :
    Prop where
  accepted : d.accepted <+: (cells.map DataCell.payload).flatten
  ended : d.accepted.length < (cells.map DataCell.payload).flatten.length →
    socketHashmapFind d.session.map streamId = none ∧ sockFd ∉ d.session.sockets.held ∧
      ∃ reply ∈ d.replies, IsRelayCell reply .relayEnd streamId

variable {s : EndSession} {cell : DataCell} {cells : List DataCell} {streamId : UInt16}
  {index sockFd : ℕ}

/-- The handler for a stream that is open. -/
theorem handleClientMsg_forStream
    (hfind : socketHashmapFind s.map streamId = some (index, sockFd))
    (hcell : cell.ForStream streamId) :
    (handleClientMsg s.map cell.buffer cell.calls.connectServer cell.calls.sent).returned = true ∧
      (handleClientMsg s.map cell.buffer cell.calls.connectServer cell.calls.sent).map = s.map ∧
      (handleClientMsg s.map cell.buffer cell.calls.connectServer cell.calls.sent).offered =
        some (sockFd, dataSpan cell.buffer) := by
  rw [handleClientMsg_data _ _ _ hcell.data, handleRelayData, hcell.data.streamId]
  simp only [hfind]
  split_ifs
  · exact ⟨rfl, rfl, rfl⟩
  · exact ⟨rfl, rfl, rfl⟩

/-- A cell changes nothing about the session, also when `send` fails. -/
theorem step_data (hloop : s.stage = .loop)
    (hfind : socketHashmapFind s.map streamId = some (index, sockFd))
    (hcell : cell.ForStream streamId) : s.step (.message cell.buffer cell.calls) = some s := by
  obtain ⟨hreturned, hmap, -⟩ := handleClientMsg_forStream hfind hcell
  have hsockets : clientMsgSockets s.map cell.buffer cell.calls s.sockets = some s.sockets := by
    rw [clientMsgSockets, hcell.data.relay, hcell.data.cmd]
    rfl
  have hcode : (handleClientMsg s.map cell.buffer cell.calls.connectServer
      cell.calls.sent).code cell.calls.replied = none := by
    rw [Outcome.code, hreturned]
    simp [DataCell.calls]
  rw [EndSession.step_loop hloop, EndSession.handleEpollEvent, hsockets, Option.map_some, EndSession.handled, hcode]
  simp only [hmap, ← hloop]

/-- What the socket accepts. By induction on the cells. -/
theorem deliver_spec (hloop : s.stage = .loop)
    (hfind : socketHashmapFind s.map streamId = some (index, sockFd))
    (hcells : ∀ cell ∈ cells, cell.ForStream streamId) :
    ∃ d, deliver sockFd s cells = some d ∧ d.session = s ∧
      d.accepted = (cells.map fun cell => cell.payload.take (cell.result.getD 0)).flatten := by
  induction cells with
  | nil => exact ⟨⟨s, [], []⟩, rfl, rfl, rfl⟩
  | cons cell cells ih =>
    have hcell := hcells cell List.mem_cons_self
    obtain ⟨d, hd, hsession, haccepted⟩ := ih fun cell h => hcells cell (List.mem_cons_of_mem _ h)
    obtain ⟨-, -, hoffered⟩ := handleClientMsg_forStream hfind hcell
    have htake : cell.acceptedBy (handleClientMsg s.map cell.buffer cell.calls.connectServer
        cell.calls.sent) sockFd = cell.payload.take (cell.result.getD 0) := by
      rw [DataCell.acceptedBy, hoffered]
      cases hresult : cell.result with
      | none => simp
      | some accepted => simp [DataCell.payload]
    have hdeliver : deliver sockFd s (cell :: cells) = some ⟨d.session,
        cell.payload.take (cell.result.getD 0) ++ d.accepted,
        (handleClientMsg s.map cell.buffer cell.calls.connectServer cell.calls.sent).reply.toList ++
          d.replies⟩ := by
      rw [deliver, step_data hloop hfind hcell, Option.bind_eq_bind, Option.bind_some, hd, htake]
      rfl
    refine ⟨_, hdeliver, hsession, ?_⟩
    rw [haccepted, List.map_cons, List.flatten_cons]

/-- Nothing is left over of the cells exactly if nothing is of any. By induction on the
    cells. -/
theorem length_take_flatten (hcells : ∀ cell ∈ cells, cell.ForStream streamId) :
    (cells.map fun cell => cell.payload.take (cell.result.getD 0)).flatten.length ≤
        (cells.map DataCell.payload).flatten.length ∧
      ((cells.map fun cell => cell.payload.take (cell.result.getD 0)).flatten.length =
          (cells.map DataCell.payload).flatten.length ↔
        ∀ cell ∈ cells, cell.result = some cell.payload.length) := by
  induction cells with
  | nil => simp
  | cons cell cells ih =>
    have hcell := hcells cell List.mem_cons_self
    obtain ⟨hle, heq⟩ := ih fun cell h => hcells cell (List.mem_cons_of_mem _ h)
    have hfirst : (cell.payload.take (cell.result.getD 0)).length ≤ cell.payload.length := by
      rw [List.length_take]
      exact Nat.min_le_right _ _
    have hwhole : (cell.payload.take (cell.result.getD 0)).length = cell.payload.length ↔
        cell.result = some cell.payload.length := by
      have hpos := hcell.pos
      have haccepts := hcell.accepts
      rw [List.length_take]
      cases hresult : cell.result with
      | none =>
        refine iff_of_false ?_ (by simp)
        rw [Option.getD_none, Nat.zero_min]
        omega
      | some accepted =>
        have hbound := (haccepts accepted hresult).2
        rw [Option.getD_some, Nat.min_eq_left hbound, Option.some_inj]
    -- Neither part is too long, so the sums are the same only if the parts are.
    rw [List.map_cons, List.map_cons, List.flatten_cons, List.flatten_cons, List.length_append,
      List.length_append, List.forall_mem_cons, ← heq, ← hwhole]
    omega

/-- The socket gets everything, or the stream is ended, exactly if `send` always accepts
    all that it is given. -/
theorem writesOrEnds_iff (hloop : s.stage = .loop)
    (hfind : socketHashmapFind s.map streamId = some (index, sockFd))
    (hcells : ∀ cell ∈ cells, cell.ForStream streamId) :
    ∃ d, deliver sockFd s cells = some d ∧
      (WritesOrEnds cells streamId sockFd d ↔
        ∀ cell ∈ cells, cell.result = some cell.payload.length) := by
  obtain ⟨d, hd, hsession, haccepted⟩ := deliver_spec hloop hfind hcells
  obtain ⟨hle, heq⟩ := length_take_flatten hcells
  refine ⟨d, hd, fun h => ?_, fun hall => ?_⟩
  · -- Otherwise something is missing, and the stream is still there.
    by_contra hnot
    have hshort : d.accepted.length < (cells.map DataCell.payload).flatten.length := by
      rw [haccepted]
      exact lt_of_le_of_ne hle (mt heq.1 hnot)
    have hnone := (h.ended hshort).1
    rw [hsession] at hnone
    cases hnone.symm.trans hfind
  · have hwhole : d.accepted = (cells.map DataCell.payload).flatten := by
      rw [haccepted]
      refine congrArg List.flatten (List.map_congr_left fun cell hcell => ?_)
      rw [hall cell hcell, Option.getD_some, List.take_length]
    refine ⟨hwhole ▸ List.prefix_rfl, fun hshort => ?_⟩
    rw [hwhole] at hshort
    exact absurd hshort (Nat.lt_irrefl _)

/-- A session with one stream, number 5, of the socket 7. -/
def exampleSession : EndSession :=
  ⟨.loop, Table.set socketHashmapInit 5 (.filled 5 7), [.acquire 7]⟩

/-- A cell for it, with three bytes. -/
def exampleCell (result : Option ℕ) : DataCell :=
  ⟨(torSendDataMsg 5 [1, 2, 3]).write fun _ => 0, result⟩

theorem forStream_exampleCell {accepted : ℕ} (hpos : 1 ≤ accepted) (hle : accepted ≤ 3) :
    (exampleCell (some accepted)).ForStream 5 := by
  have hpayload : (exampleCell (some accepted)).payload = [1, 2, 3] :=
    bytes_torSendDataMsg _ _ _ (by decide)
  refine ⟨isRelayCell_torSendDataMsg _ _ _, ?_, ?_, fun n hn => ?_⟩
  · rw [hpayload]
    decide
  · rw [hpayload]
    decide
  · obtain rfl := Option.some_inj.1 hn
    rw [hpayload]
    exact ⟨hpos, hle⟩

/-- Two cells, the second one written in part. -/
theorem writesOrEnds_iff_part : ∃ d,
    deliver 7 exampleSession [exampleCell (some 3), exampleCell (some 1)] = some d ∧
      (WritesOrEnds [exampleCell (some 3), exampleCell (some 1)] 5 7 d ↔
        ∀ cell ∈ [exampleCell (some 3), exampleCell (some 1)],
          cell.result = some cell.payload.length) := by
  refine writesOrEnds_iff rfl rfl (List.forall_mem_cons.2 ⟨?_, List.forall_mem_singleton.2 ?_⟩)
  · exact forStream_exampleCell (by decide) (by decide)
  · exact forStream_exampleCell (by decide) (by decide)

/-- Of two cells, the first one is written in part and the second one after the gap. -/
theorem not_writesOrEnds : ∃ d,
    deliver 7 exampleSession [exampleCell (some 1), exampleCell (some 3)] = some d ∧
      d.accepted = [1, 1, 2, 3] ∧
      ¬ WritesOrEnds [exampleCell (some 1), exampleCell (some 3)] 5 7 d := by
  have hrun : (deliver 7 exampleSession [exampleCell (some 1), exampleCell (some 3)]).any
      (fun d => d.accepted = [1, 1, 2, 3]) = true := by
    decide +kernel
  obtain ⟨d, hd, haccepted⟩ := (Option.any_eq_true _ _).1 hrun
  refine ⟨d, hd, of_decide_eq_true haccepted, fun h => ?_⟩
  have hprefix := h.accepted
  rw [of_decide_eq_true haccepted] at hprefix
  exact absurd hprefix (by decide +kernel)

end OnionRouter.Relay
