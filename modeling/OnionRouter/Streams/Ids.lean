import OnionRouter.Client.Session
import OnionRouter.Lib.Transition

/-!
# The stream ids of the client

The table of the client and the counter of `gen_stream_id` in every run of the client:
commands of the user, and cells with any content from the circuit. Entries stay in
their home slots, so that an id whose home slot is free is not in the table
(`freshIds_of_reachable`). What the counter was does not matter.

The loop of `gen_stream_id` looks for such a slot, and ends exactly when there is one
(`connectEnds_iff`). Nothing bounds the number of streams that are open.
-/

namespace OnionRouter.Streams

open Lib Client Protocol

/-- The table of the client, with the static counter of `gen_stream_id`. -/
structure ClientTable where
  map : StreamHashmap
  counter : UInt32
  /-- How many connect commands there were. -/
  connects : ℕ

/-- What the client does with its table: commands, and cells that it receives. -/
inductive ClientCall
  | connect (addr : List UInt8) (memory msg : Memory UInt8)
  | close (streamId : UInt16) (msg : Memory UInt8)
  | recv (streamId : UInt16) (length : ℕ)
  | cell (buffer : Memory UInt8)

/-- A command or a cell, if its handler returns. -/
def ClientTable.step (s : ClientTable) : ClientCall → Option ClientTable
  | .connect addr memory msg => do
    let (streamId, map, _) ← handleInputConnect s.map s.counter s.connects memory msg addr
    return ⟨map, streamId, s.connects + 1⟩
  | .close streamId msg => some { s with map := (handleInputClose s.map msg streamId).1 }
  | .recv streamId length => some { s with map := (handleInputRecv s.map streamId length).2 }
  | .cell buffer => (handleRelayMsg s.map buffer).map.map fun map => { s with map := map }

/-- The runs of the client from an empty table. -/
def clientMachine : Machine ClientTable ClientCall :=
  .ofFun {⟨socketHashmapInit, 0, 0⟩} ClientTable.step

/-- Every entry is in its home slot; an id that is drawn, whatever the counter was, is
    not in the table as a `stream_id`, and its entry is put in its home slot, which was
    not filled. -/
structure FreshIds (map : StreamHashmap) : Prop where
  home : ∀ i < hashmapAmount, ∀ streamId data, map i = .filled streamId data →
    streamId.toNat % hashmapAmount = i
  fresh : ∀ counter drawn, genStreamId map counter = some drawn →
    ∀ i < hashmapAmount, ∀ data, map i ≠ .filled drawn.toUInt16 data
  insert : ∀ counter drawn, genStreamId map counter = some drawn → ∀ memory connect,
    (map (drawn.toNat % hashmapAmount)).isFilled = false ∧
      streamHashmapInsert map drawn.toUInt16 memory connect =
        some (map.set (drawn.toNat % hashmapAmount)
          (.filled drawn.toUInt16 ⟨initStreamBuffer memory, connect⟩))

/-- The home slot of the id that goes on the wire is the one of the number drawn. -/
theorem start_toUInt16 (drawn : UInt32) :
    Table.start hashmapAmount Streams.home drawn.toUInt16 = drawn.toNat % hashmapAmount := by
  rw [Table.start, Streams.home, UInt32.toNat_toUInt16]
  exact Nat.mod_mod_of_dvd _ (by decide)

theorem freshIds_of_inPlace {map : StreamHashmap} (hmap : InPlace map) : FreshIds map where
  home i hi streamId data hslot := (hmap i hi streamId data hslot).symm
  fresh counter drawn hdrawn i hi data hslot := by
    have hmem : data ∈ held map drawn.toUInt16 := Table.mem_held.2 ⟨i, hi, hslot⟩
    rw [held_of_genStreamId hmap hdrawn] at hmem
    exact Multiset.notMem_zero data hmem
  insert counter drawn hdrawn memory connect := by
    have hfree := genStreamId_spec hdrawn
    have hinsert := Table.insert_of_free hashmapAmount_pos hfree
      (⟨initStreamBuffer memory, connect⟩ : StreamData)
    rw [start_toUInt16] at hfree hinsert
    exact ⟨hfree, hinsert⟩

/-- A cell with any content leaves the entries in place. -/
theorem inPlace_handleRelayMsg {map map' : StreamHashmap} (hmap : InPlace map)
    {buffer : Memory UInt8} (h : (handleRelayMsg map buffer).map = some map') :
    InPlace map' := by
  obtain rfl | rfl | ⟨found, buffer', -, hfind, -, rfl⟩ := handleRelayMsg_cases h
  · exact hmap
  · exact inPlace_remove hmap _
  · exact (setBuffer_spec hmap hfind buffer').1

theorem inPlace_step {s s' : ClientTable} {call : ClientCall} (hmap : InPlace s.map)
    (h : s.step call = some s') : InPlace s'.map := by
  cases call with
  | connect addr memory msg =>
    obtain ⟨⟨streamId, map, cell⟩, hconnect, h⟩ := Option.bind_eq_some_iff.1 h
    obtain ⟨drawn, hdrawn, hconnect⟩ := Option.bind_eq_some_iff.1 hconnect
    obtain ⟨map', hinsert, hplace, -⟩ := streamHashmapInsert_spec hmap hdrawn memory s.connects
    rw [hinsert] at hconnect
    cases hconnect
    exact Option.some_inj.1 h ▸ hplace
  | close streamId msg => exact Option.some_inj.1 h ▸ inPlace_remove hmap streamId
  | recv streamId length =>
    obtain rfl := Option.some_inj.1 h
    rw [handleInputRecv]
    cases hfind : socketHashmapFind s.map streamId with
    | none => exact hmap
    | some found => exact (setBuffer_spec hmap hfind _).1
  | cell buffer =>
    obtain ⟨map, hmap', rfl⟩ := Option.map_eq_some_iff.1 h
    exact inPlace_handleRelayMsg hmap hmap'

/-- In every run of the client, the ids that it draws are fresh. -/
theorem freshIds_of_reachable {s : ClientTable} (hs : clientMachine.Reachable Machine.anyStep s) :
    FreshIds s.map := by
  refine freshIds_of_inPlace (hs.invariant (I := fun s => InPlace s.map) ?_ ?_)
  · rintro _ rfl
    exact inPlace_socketHashmapInit
  · intro s a s' hmap _ h
    exact inPlace_step hmap h

theorem freshIds_twoStreams :
    ∃ s : ClientTable, FreshIds s.map ∧ s.connects = 2 ∧ genStreamId s.map 65536 = some 65538 := by
  have hrun : (Machine.run (Machine.checked Machine.anyStep ClientTable.step)
      ⟨socketHashmapInit, 0, 0⟩
      [.connect [] (fun _ => 0) (fun _ => 0), .connect [] (fun _ => 0) (fun _ => 0)]).any
      (fun s => s.connects = 2 ∧ genStreamId s.map 65536 = some 65538) = true := by
    decide +kernel
  obtain ⟨s, hs, hrest⟩ := Machine.exists_of_run (Set.mem_singleton _) hrun
  exact ⟨s, freshIds_of_reachable hs, of_decide_eq_true hrest⟩

/-! ## The loop of `gen_stream_id` -/

/-- The loop ends, after some number of rounds, so that the connect command goes on. -/
def ConnectEnds (s : ClientTable) : Prop := ∃ rounds, (genLoop s.map rounds s.counter).isSome

/-- The number of streams that are open, which are the filled slots. -/
def openStreams (map : StreamHashmap) : ℕ := (Table.contents hashmapAmount map).length

variable {map : StreamHashmap}

/-- A slot is free exactly when fewer streams are open than there are slots. -/
theorem openStreams_lt_iff :
    openStreams map < hashmapAmount ↔ ∃ i < hashmapAmount, (map i).isFilled = false := by
  have hfilled : ∀ s : Slot UInt16 StreamData, s.data?.isSome = s.isFilled := fun s => by
    cases s <;> rfl
  have hcount : openStreams map =
      (List.range hashmapAmount).countP fun i => (map i).isFilled := by
    rw [openStreams, Table.contents, List.length_filterMap_eq_countP]
    simp only [hfilled]
  have hle : openStreams map ≤ hashmapAmount :=
    hcount.trans_le (List.countP_le_length.trans_eq List.length_range)
  have hall : openStreams map = hashmapAmount ↔ ∀ i < hashmapAmount, (map i).isFilled := by
    simpa [hcount] using List.countP_eq_length (l := List.range hashmapAmount)
  rw [Nat.lt_iff_le_and_ne, and_iff_right hle, Ne, hall]
  simp

/-- The loop ends when it comes to a free slot. By induction on the way to it. -/
theorem genLoop_isSome {rounds j : ℕ} {counter : UInt32} (hj : j < rounds)
    (hfree : (map ((counter.toNat + j) % hashmapAmount)).isFilled = false) :
    (genLoop map rounds counter).isSome := by
  induction j generalizing rounds counter with
  | zero =>
    obtain ⟨rounds, rfl⟩ := Nat.exists_eq_add_of_lt hj
    rw [Nat.add_zero] at hfree
    rw [Nat.zero_add, genLoop, hfree]
    rfl
  | succ j ih =>
    obtain ⟨rounds, rfl⟩ := Nat.exists_eq_add_of_lt hj
    rw [genLoop]
    split_ifs
    · refine ih (by omega) ?_
      -- The counter wraps to zero, and the number of slots divides `2 ^ 32`.
      have hnext : ((counter + 1).toNat + j) % hashmapAmount =
          (counter.toNat + (j + 1)) % hashmapAmount := by
        rw [UInt32.toNat_add, UInt32.toNat_one, hashmapAmount]
        omega
      rw [hnext, hfree]
    · rfl

/-- From any counter on, the rounds that `genStreamId` has are enough to find a free slot. -/
theorem genStreamId_isSome {i : ℕ} (hi : i < hashmapAmount) (hfree : (map i).isFilled = false)
    (counter : UInt32) : (genStreamId map counter).isSome := by
  have hslot : (counter.toNat + (i + (hashmapAmount - counter.toNat % hashmapAmount)) %
      hashmapAmount) % hashmapAmount = i := by
    rw [hashmapAmount] at hi ⊢
    omega
  exact genLoop_isSome (Nat.mod_lt _ hashmapAmount_pos) (hslot.symm ▸ hfree)

/-- The loop ends exactly when fewer streams are open than there are slots. -/
theorem connectEnds_iff (s : ClientTable) :
    ConnectEnds s ↔ openStreams s.map < hashmapAmount := by
  rw [openStreams_lt_iff]
  constructor
  · rintro ⟨rounds, hends⟩
    obtain ⟨drawn, hdrawn⟩ := Option.isSome_iff_exists.1 hends
    exact ⟨_, Nat.mod_lt _ hashmapAmount_pos, genLoop_spec hdrawn⟩
  · rintro ⟨i, hi, hfree⟩
    exact ⟨hashmapAmount, genStreamId_isSome hi hfree s.counter⟩

/-- The runs that only connect. By induction on the number of streams. -/
theorem reachable_openStreams {n : ℕ} (hn : n ≤ hashmapAmount) :
    ∃ s, clientMachine.Reachable Machine.anyStep s ∧ openStreams s.map = n := by
  induction n with
  | zero =>
    refine ⟨⟨socketHashmapInit, 0, 0⟩, .init rfl, ?_⟩
    rw [openStreams, List.length_eq_zero_iff, List.eq_nil_iff_forall_not_mem]
    intro data hmem
    obtain ⟨i, -, key, hslot⟩ := Table.mem_contents.1 hmem
    cases hslot
  | succ n ih =>
    obtain ⟨s, hs, hopen⟩ := ih (Nat.le_of_succ_le hn)
    obtain ⟨i, hi, hfree⟩ := openStreams_lt_iff.1 (hopen.trans_lt hn)
    obtain ⟨drawn, hdrawn⟩ := Option.isSome_iff_exists.1 (genStreamId_isSome hi hfree s.counter)
    obtain ⟨-, hinsert⟩ := (freshIds_of_reachable hs).insert _ _ hdrawn (fun _ => 0) s.connects
    have hperm := Table.contents_insert hashmapAmount_pos hinsert
    set map' := s.map.set (drawn.toNat % hashmapAmount)
      (.filled drawn.toUInt16 ⟨initStreamBuffer fun _ => 0, s.connects⟩)
    have hstep : s.step (.connect [] (fun _ => 0) fun _ => 0) =
        some ⟨map', drawn, s.connects + 1⟩ := by
      simp only [ClientTable.step, handleInputConnect, hdrawn, Option.bind_eq_bind,
        Option.bind_some, hinsert]
      rfl
    exact ⟨_, hs.step trivial hstep, hperm.length_eq.trans (congrArg (· + 1) hopen)⟩

/-- With all slots filled, the loop does not end. -/
theorem not_connectEnds_full : ∃ s, clientMachine.Reachable Machine.anyStep s ∧ ¬ ConnectEnds s := by
  obtain ⟨s, hs, hopen⟩ := reachable_openStreams le_rfl
  refine ⟨s, hs, ?_⟩
  rintro ⟨rounds, hends⟩
  obtain ⟨drawn, hdrawn⟩ := Option.isSome_iff_exists.1 hends
  have hlt := openStreams_lt_iff.2 ⟨_, Nat.mod_lt _ hashmapAmount_pos, genLoop_spec hdrawn⟩
  exact hlt.ne hopen

end OnionRouter.Streams
