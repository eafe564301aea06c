import OnionRouter.Client.Growth
import OnionRouter.Client.Input
import OnionRouter.Lib.CString
import OnionRouter.Streams.Ids

/-!
# What the user sees

`handle_input_recv` takes up to the length that the user asks for from the buffer of a
stream, in pieces of at most 16 bytes, and prints every piece as a string. It ends, and
takes what was asked for, whatever is stored; but of a piece with a zero byte it prints
only what comes before that byte.

* `recvOutputLoop_spec`: the loop prints what it takes exactly when no zero byte is taken.
* `inBoundsStreams_of_reachable`: in every run of the client the buffers have their positions
  in bounds, so that this is about all streams.
-/

namespace OnionRouter.Client

open Lib Memory Protocol Streams

/-! ## The command -/

/-- `printf` with `"%s"`, of the string in a buffer of `size` bytes. -/
def printString (buffer : Memory UInt8) (size : ℕ) : List UInt8 :=
  (buffer.read 0 size).takeWhile (· ≠ 0)

/-- The loop of `handle_input_recv`, with the rounds that are left and its local `buffer`:
    what it prints, and the receive buffer after it; `none` when it has not ended. -/
def recvOutputLoop :
    ℕ → ℕ → Memory UInt8 → CircularBuffer → Option (List UInt8 × CircularBuffer)
  | 0, _, _, _ => none
  | rounds + 1, length, buffer, recvBuffer =>
    if length = 0 then some ([], recvBuffer)
    else
      let (amount, data, recvBuffer) := streamPopData recvBuffer (min torDataBufSize length)
      let buffer := buffer.write 0 data
      if amount = 0 then some ([], recvBuffer)
      else if amount ≤ length then do
        let buffer := buffer.set amount 0
        let (rest, recvBuffer) ← recvOutputLoop rounds (length - amount) buffer recvBuffer
        return (printString buffer (torDataBufSize + 1) ++ rest, recvBuffer)
      else recvOutputLoop rounds length buffer recvBuffer

/-- What `handle_input_recv` prints when there is no such stream. -/
def streamNotFound : List UInt8 := "Couldn't find stream ID.\n".toUTF8.toList

/-- `handle_input_recv`, with its local `buffer`: what it prints, and the table. A round that
    goes on takes a byte at least, so `length + 1` rounds are enough. -/
def handleInputRecvOutput (map : StreamHashmap) (streamId : UInt16) (length : UInt32)
    (buffer : Memory UInt8) : Option (List UInt8 × StreamHashmap) :=
  match socketHashmapFind map streamId with
  | none => some (streamNotFound, map)
  | some (index, entry) => do
    let (output, recvBuffer) ← recvOutputLoop (length.toNat + 1) length.toNat buffer entry.recvBuffer
    return (output ++ [newline], setBuffer map index streamId entry recvBuffer)

/-- The command takes the first `length` bytes of an open stream, or all there are, and
    prints them and a newline. -/
def ShowsTaken (map : StreamHashmap) (streamId : UInt16) (index : ℕ) (entry : StreamData)
    (length : UInt32) (buffer : Memory UInt8) : Prop :=
  ∃ recvBuffer, handleInputRecvOutput map streamId length buffer =
      some ((contents entry.recvBuffer).take length.toNat ++ [newline],
        setBuffer map index streamId entry recvBuffer) ∧
    contents recvBuffer = (contents entry.recvBuffer).drop length.toNat

/-! ## The loop -/

variable {b : CircularBuffer} {rounds length : ℕ}

/-- A round of the loop takes a piece that fits in the local buffer, and none only when
    nothing is stored. -/
theorem exists_piece (hb : InBounds b) (hlength : length ≠ 0) :
    ∃ amount b', streamPopData b (min torDataBufSize length) =
        (amount, (contents b).take amount, b') ∧
      amount ≤ torDataBufSize ∧ amount ≤ length ∧ amount ≤ (contents b).length ∧
        (amount = 0 → contents b = []) ∧ InBounds b' ∧ contents b' = (contents b).drop amount := by
  have hpiece : 0 < min torDataBufSize length :=
    Nat.lt_min.2 ⟨by decide, Nat.pos_of_ne_zero hlength⟩
  refine ⟨min (min torDataBufSize length) b.size, afterPop b (min torDataBufSize length), ?_,
    (Nat.min_le_left _ _).trans (Nat.min_le_left _ _),
    (Nat.min_le_left _ _).trans (Nat.min_le_right _ _), ?_, fun hnone => ?_, hb.afterPop _, ?_⟩
  · rw [hb.streamPopData, List.take_eq_take_min, length_contents]
  · rw [length_contents]
    exact Nat.min_le_right _ _
  · rw [← List.length_eq_zero_iff, length_contents]
    omega
  · rw [contents_afterPop, List.drop_eq_drop_min, length_contents]

/-- What is taken of the stored bytes, and what is left of them. By induction on the rounds. -/
theorem recvLoop_spec (hb : InBounds b) (hlength : length ≤ rounds) :
    (recvLoop rounds length b).1 = (contents b).take length ∧
      InBounds (recvLoop rounds length b).2 ∧
      contents (recvLoop rounds length b).2 = (contents b).drop length := by
  induction rounds generalizing length b with
  | zero =>
    obtain rfl := Nat.le_zero.1 hlength
    exact ⟨rfl, hb, rfl⟩
  | succ rounds ih =>
    rw [recvLoop]
    split_ifs with hzero
    · subst hzero
      exact ⟨rfl, hb, rfl⟩
    · obtain ⟨amount, b', hpop, -, hle, -, hnone, hb', hcontents⟩ := exists_piece hb hzero
      rw [hpop]
      by_cases hamount : amount = 0
      · simp only [if_pos hamount]
        rw [hnone hamount, List.drop_nil] at hcontents
        rw [hnone hamount, List.take_nil, List.drop_nil]
        exact ⟨rfl, hb', hcontents⟩
      · have hrounds : length - amount ≤ rounds := by omega
        obtain ⟨htaken, hbounds, hleft⟩ := ih hb' hrounds
        simp only [if_neg hamount]
        refine ⟨?_, hbounds, ?_⟩
        · rw [htaken, hcontents, ← List.take_add, Nat.add_sub_cancel' hle]
        · rw [hleft, hcontents, List.drop_drop, Nat.add_sub_cancel' hle]

/-- A piece is printed up to its first zero byte. -/
theorem printString_write (buffer : Memory UInt8) {data : List UInt8} {size : ℕ}
    (hdata : data.length ≤ size) :
    printString ((buffer.write 0 data).set data.length 0) (size + 1) =
      data.takeWhile (· ≠ 0) := by
  obtain ⟨rest, rfl⟩ := Nat.exists_eq_add_of_le hdata
  rw [printString, Nat.add_right_comm, read_add, read_set_succ, read_write, List.append_assoc,
    List.singleton_append, takeWhile_ne_zero_append]

/-- Two pieces that are printed in part are not printed as a whole. -/
theorem append_eq_append_iff_of_le {xs xs' ys ys' : List UInt8} (hx : xs.length ≤ xs'.length)
    (hy : ys.length ≤ ys'.length) : xs ++ ys = xs' ++ ys' ↔ xs = xs' ∧ ys = ys' := by
  constructor
  · intro h
    have hlength := congrArg List.length h
    rw [List.length_append, List.length_append] at hlength
    exact List.append_inj h (by omega)
  · rintro ⟨rfl, rfl⟩
    rfl

/-- The loop ends, with the buffer as `recvLoop` has it, and prints what it takes exactly
    when no zero byte is taken. By induction on the rounds: a piece is followed by less than
    what follows it in the buffer, if that is printed in part. -/
theorem recvOutputLoop_spec (hb : InBounds b) (hlength : length ≤ rounds)
    (buffer : Memory UInt8) :
    ∃ output, recvOutputLoop (rounds + 1) length buffer b =
        some (output, (recvLoop rounds length b).2) ∧
      output.length ≤ ((contents b).take length).length ∧
        (output = (contents b).take length ↔ 0 ∉ (contents b).take length) := by
  induction rounds generalizing length b buffer with
  | zero =>
    obtain rfl := Nat.le_zero.1 hlength
    exact ⟨[], rfl, Nat.zero_le _, by simp⟩
  | succ rounds ih =>
    rw [recvOutputLoop, recvLoop]
    split_ifs with hzero
    · subst hzero
      exact ⟨[], rfl, Nat.zero_le _, by simp⟩
    · obtain ⟨amount, b', hpop, hfits, hle, hstored, hnone, hb', hcontents⟩ := exists_piece hb hzero
      rw [hpop]
      by_cases hamount : amount = 0
      · simp only [if_pos hamount]
        rw [hnone hamount, List.take_nil]
        exact ⟨[], rfl, le_rfl, by simp⟩
      · have hpiece : ((contents b).take amount).length = amount :=
          List.length_take_of_le hstored
        have hprinted : printString ((buffer.write 0 ((contents b).take amount)).set amount 0)
            (torDataBufSize + 1) = ((contents b).take amount).takeWhile (· ≠ 0) := by
          have := printString_write buffer (hpiece.trans_le hfits)
          rwa [hpiece] at this
        have hrounds : length - amount ≤ rounds := by omega
        obtain ⟨rest, hloop, hrest, hiff⟩ := ih hb' hrounds
          ((buffer.write 0 ((contents b).take amount)).set amount 0)
        have hsplit : (contents b).take length =
            (contents b).take amount ++ (contents b').take (length - amount) := by
          rw [hcontents, ← List.take_add, Nat.add_sub_cancel' hle]
        simp only [if_neg hamount, if_pos hle, hloop, hprinted]
        refine ⟨((contents b).take amount).takeWhile (· ≠ 0) ++ rest, rfl, ?_, ?_⟩
        · rw [hsplit, List.length_append, List.length_append]
          exact Nat.add_le_add (List.takeWhile_prefix _).length_le hrest
        · rw [hsplit, append_eq_append_iff_of_le (List.takeWhile_prefix _).length_le hrest, hiff,
            takeWhile_ne_zero_eq_self_iff, List.mem_append, not_or]

/-! ## The streams of the client -/

/-- The buffers of all streams have their positions in bounds. -/
def InBoundsStreams (map : StreamHashmap) : Prop :=
  Table.ForAll hashmapAmount (fun data => InBounds data.recvBuffer) map

variable {map map' : StreamHashmap} {streamId : UInt16}

/-- A cell with any content: a push of its data, whose length has 16 bits, returns only if
    there is room. -/
theorem inBoundsStreams_handleRelayMsg (hmap : InBoundsStreams map) {m : Memory UInt8}
    (h : (handleRelayMsg map m).map = some map') : InBoundsStreams map' := by
  refine allBuffers_handleRelayMsg hmap (fun found _ hfind buffer hpush => ?_) h
  have hdata : ((dataSpan m).bytes m).length ≤ 65535 := by
    rw [Span.bytes, length_read]
    exact Nat.le_of_lt_succ (UInt16.toNat_lt _)
  have hfound : InBounds found.2.recvBuffer := allBuffers_of_find hmap hfind
  obtain ⟨hroom, hchecked⟩ := (hfound.streamPushData_eq_some_iff hdata).1 hpush
  obtain ⟨buffer', hchecked', hbuffer, -⟩ := hfound.streamPushDataChecked hdata hroom
  obtain rfl := Except.ok.inj (hchecked'.symm.trans hchecked)
  exact hbuffer

theorem inBoundsStreams_step {s s' : ClientTable} {call : ClientCall}
    (hmap : InBoundsStreams s.map) (h : s.step call = some s') : InBoundsStreams s'.map := by
  cases call with
  | connect addr memory msg =>
    obtain ⟨⟨streamId, map, cell⟩, hconnect, h⟩ := Option.bind_eq_some_iff.1 h
    obtain rfl := Option.some_inj.1 h
    exact allBuffers_handleInputConnect hmap (valid_initStreamBuffer memory).inBounds hconnect
  | close streamId msg =>
    obtain rfl := Option.some_inj.1 h
    exact allBuffers_remove hmap streamId
  | recv streamId length =>
    obtain rfl := Option.some_inj.1 h
    refine allBuffers_handleInputRecv hmap (fun buffer hbuffer => ?_) streamId
    exact (recvLoop_spec hbuffer (le_refl length)).2.1
  | cell buffer =>
    obtain ⟨map, hmap', rfl⟩ := Option.map_eq_some_iff.1 h
    exact inBoundsStreams_handleRelayMsg hmap hmap'

theorem inBoundsStreams_of_reachable {s : ClientTable}
    (hs : clientMachine.Reachable Machine.anyStep s) : InBoundsStreams s.map := by
  refine hs.invariant (I := fun s => InBoundsStreams s.map) ?_ fun _ _ _ hmap _ h =>
    inBoundsStreams_step hmap h
  rintro _ rfl i - key d hslot
  cases hslot

/-! ## What the command shows -/

variable {index : ℕ} {entry : StreamData}

/-- The command on an open stream ends, and leaves the table as `handleInputRecv` has it. -/
theorem handleInputRecvOutput_spec (hentry : InBounds entry.recvBuffer)
    (hfind : socketHashmapFind map streamId = some (index, entry)) (length : UInt32)
    (buffer : Memory UInt8) :
    ∃ output, handleInputRecvOutput map streamId length buffer =
        some (output ++ [newline], (handleInputRecv map streamId length.toNat).2) ∧
      (output = (contents entry.recvBuffer).take length.toNat ↔
        0 ∉ (contents entry.recvBuffer).take length.toNat) := by
  obtain ⟨output, hloop, -, hiff⟩ := recvOutputLoop_spec hentry (le_refl length.toNat) buffer
  refine ⟨output, ?_, hiff⟩
  simp only [handleInputRecvOutput, handleInputRecv, hfind, hloop]
  rfl

theorem showsTaken_iff (hentry : InBounds entry.recvBuffer)
    (hfind : socketHashmapFind map streamId = some (index, entry)) (length : UInt32)
    (buffer : Memory UInt8) :
    ShowsTaken map streamId index entry length buffer ↔
      0 ∉ (contents entry.recvBuffer).take length.toNat := by
  obtain ⟨output, hresult, hiff⟩ := handleInputRecvOutput_spec hentry hfind length buffer
  rw [← hiff, ShowsTaken, hresult]
  constructor
  · rintro ⟨recvBuffer, heq, -⟩
    exact List.append_cancel_right (Prod.mk.inj (Option.some_inj.1 heq)).1
  · rintro rfl
    refine ⟨_, ?_, (recvLoop_spec hentry (le_refl length.toNat)).2.2⟩
    simp only [handleInputRecv, hfind]

/-- In every run of the client the command shows what it takes of an open stream exactly
    when no zero byte is taken. -/
theorem showsTaken_iff_of_reachable {s : ClientTable}
    (hs : clientMachine.Reachable Machine.anyStep s)
    (hfind : socketHashmapFind s.map streamId = some (index, entry)) (length : UInt32)
    (buffer : Memory UInt8) :
    ShowsTaken s.map streamId index entry length buffer ↔
      0 ∉ (contents entry.recvBuffer).take length.toNat :=
  showsTaken_iff (allBuffers_of_find (inBoundsStreams_of_reachable hs) hfind) hfind length buffer

/-- A client with a stream that stores three bytes, the second of them zero. -/
theorem reachable_stored : ∃ (s : ClientTable) (index : ℕ) (entry : StreamData),
    clientMachine.Reachable Machine.anyStep s ∧ socketHashmapFind s.map 0 = some (index, entry) ∧
      contents entry.recvBuffer = [65, 0, 66] := by
  have hrun : (Machine.run (Machine.checked Machine.anyStep ClientTable.step)
      ⟨socketHashmapInit, 0, 0⟩
      [.connect [] (fun _ => 0) (fun _ => 0),
        .cell ((torSendDataMsg 0 [65, 0, 66]).write fun _ => 0)]).any
      (fun s => (socketHashmapFind s.map 0).any fun found =>
        contents found.2.recvBuffer = [65, 0, 66]) = true := by
    decide +kernel
  obtain ⟨s, hs, hrest⟩ := Machine.exists_of_run (Set.mem_singleton _) hrun
  obtain ⟨⟨index, entry⟩, hfind, hcontents⟩ := (Option.any_eq_true _ _).1 hrest
  exact ⟨s, index, entry, hs, hfind, of_decide_eq_true hcontents⟩

theorem showsTaken_one : ∃ (s : ClientTable) (index : ℕ) (entry : StreamData),
    socketHashmapFind s.map 0 = some (index, entry) ∧
      ShowsTaken s.map 0 index entry 1 fun _ => 0 := by
  obtain ⟨s, index, entry, hs, hfind, hcontents⟩ := reachable_stored
  refine ⟨s, index, entry, hfind, (showsTaken_iff_of_reachable hs hfind 1 _).2 ?_⟩
  rw [hcontents]
  decide

/-- Of three bytes that are taken, one is shown. -/
theorem not_showsTaken_three : ∃ (s : ClientTable) (index : ℕ) (entry : StreamData),
    clientMachine.Reachable Machine.anyStep s ∧ socketHashmapFind s.map 0 = some (index, entry) ∧
      ¬ ShowsTaken s.map 0 index entry 3 fun _ => 0 := by
  obtain ⟨s, index, entry, hs, hfind, hcontents⟩ := reachable_stored
  have hentry : InBounds entry.recvBuffer := allBuffers_of_find (inBoundsStreams_of_reachable hs) hfind
  refine ⟨s, index, entry, hs, hfind, fun h => ?_⟩
  have hzero := (showsTaken_iff hentry hfind 3 _).1 h
  rw [hcontents] at hzero
  exact hzero (by decide)

end OnionRouter.Client
