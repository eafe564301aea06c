import OnionRouter.Streams.Protocol

/-!
# Agreement

When all messages have arrived, the two ends have streams under the same ids,
provided that an id is drawn only when the exit has none under it and no close of it
is left on either way, and that the exit does not give up a stream, on an error in
sending to it, that the client still has (`Calm`).

The proof looks at one id at a time (`LaneInvariant`): what the two ends have under
it, the messages about it that are on their way to the exit, and whether a close of
it is on its way back. A stream is *open* at the exit when it has a connection, or
when the connect is on its way.

* Without a stream at the client, one that is open at the exit is about to be
  closed.
* With a stream at the client, no close is on its way to the exit, and the stream is
  open there unless a close is on its way back.
-/

namespace OnionRouter.Streams.Agreement

open Lib

variable {ι κ β : Type*} [DecidableEq ι]

/-! ## One id -/

/-- What a message to the exit is to an id that it is about. -/
inductive Kind
  | connect
  | data
  | close
  deriving DecidableEq

/-- The messages to the exit that are about an id. -/
def lane (id : ι) : List (ToExit ι κ) → List Kind
  | [] => []
  | .connect id' _ :: l => if id' = id then .connect :: lane id l else lane id l
  | .data id' :: l => if id' = id then .data :: lane id l else lane id l
  | .close id' :: l => if id' = id then .close :: lane id l else lane id l
  | .other :: l => lane id l

theorem lane_append (id : ι) (l l' : List (ToExit ι κ)) :
    lane id (l ++ l') = lane id l ++ lane id l' := by
  induction l with
  | nil => rfl
  | cons m l ih =>
    cases m with
    | other => exact ih
    | _ => simp only [List.cons_append, lane, ih]; split_ifs <;> rfl

theorem lane_replicate (id id' : ι) (n : ℕ) :
    lane id (List.replicate n (.data id' : ToExit ι κ)) =
      if id' = id then List.replicate n .data else [] := by
  induction n with
  | zero => simp [lane]
  | succ n ih => simp only [List.replicate_succ, lane, ih]; split_ifs <;> rfl

/-- No message is about an id of which none of the three is on its way. -/
theorem lane_eq_nil {id : ι} {l : List (ToExit ι κ)} (hconnect : ∀ name, .connect id name ∉ l)
    (hdata : .data id ∉ l) (hclose : .close id ∉ l) : lane id l = [] := by
  induction l with
  | nil => rfl
  | cons m l ih =>
    have hl := ih (fun name h => hconnect name (List.mem_cons_of_mem m h))
      (fun h => hdata (List.mem_cons_of_mem m h)) (fun h => hclose (List.mem_cons_of_mem m h))
    cases m with
    | connect id' name =>
      rw [lane, if_neg (by rintro rfl; exact hconnect name List.mem_cons_self), hl]
    | data id' => rw [lane, if_neg (by rintro rfl; exact hdata List.mem_cons_self), hl]
    | close id' => rw [lane, if_neg (by rintro rfl; exact hclose List.mem_cons_self), hl]
    | other => exact hl

/-- The exit has a connection, or will have one. -/
def Open (exit : Multiset κ) (toExit : List Kind) : Prop := exit ≠ 0 ∨ .connect ∈ toExit

/-- What holds of one id: its streams at the two ends, the messages about it to the
    exit, and whether a close of it is on its way back. -/
structure LaneInvariant (client exit : Multiset κ) (toExit : List Kind) (closing : Prop) :
    Prop where
  client_le : client.card ≤ 1
  exit_le : exit.card ≤ 1
  /-- A connect that is on its way comes first, and finds no connection. -/
  opening : .connect ∈ toExit → exit = 0 ∧ ∃ l, toExit = .connect :: l ∧ .connect ∉ l
  gone : client = 0 → Open exit toExit → .close ∈ toExit
  live : client ≠ 0 → .close ∉ toExit ∧ (Open exit toExit ↔ ¬ closing)

namespace LaneInvariant

variable {client exit rest : Multiset κ} {l : List Kind} {closing : Prop} {name : κ}

theorem eq_zero_of_erased {before : Multiset κ} (hle : before.card ≤ 1)
    (h : Erased before rest) : rest = 0 := by
  rcases h with ⟨-, rfl⟩ | ⟨name, rfl⟩
  · rfl
  · rw [Multiset.card_cons] at hle
    exact Multiset.card_eq_zero.1 (Nat.le_zero.1 (Nat.le_of_succ_le_succ hle))

theorem zero : LaneInvariant (0 : Multiset κ) (0 : Multiset κ) [] False where
  client_le := Nat.zero_le _
  exit_le := Nat.zero_le _
  opening h := absurd h List.not_mem_nil
  gone _ h := h.elim (absurd rfl) fun h => absurd h List.not_mem_nil
  live h := absurd rfl h

/-- A new stream, under an id of which nothing is left. -/
theorem connect : LaneInvariant {name} (0 : Multiset κ) [.connect] False where
  client_le := (Multiset.card_singleton name).le
  exit_le := Nat.zero_le _
  opening _ := ⟨rfl, [], rfl, List.not_mem_nil⟩
  gone h := absurd h (Multiset.singleton_ne_zero name)
  live _ := ⟨by decide, iff_of_true (.inr List.mem_cons_self) not_false⟩

theorem close (h : LaneInvariant client exit l closing) (hrest : Erased client rest) :
    LaneInvariant rest exit (l ++ [.close]) closing := by
  obtain rfl := eq_zero_of_erased h.client_le hrest
  refine ⟨Nat.zero_le _, h.exit_le, fun hconnect => ?_, fun _ _ => ?_, absurd rfl⟩
  · obtain ⟨hexit, l', rfl, hl'⟩ := h.opening (by simpa using hconnect)
    exact ⟨hexit, l' ++ [.close], rfl, by simpa using hl'⟩
  · exact List.mem_append_right _ List.mem_cons_self

theorem send (h : LaneInvariant client exit l closing) (n : ℕ) :
    LaneInvariant client exit (l ++ List.replicate n .data) closing := by
  have hmem : ∀ k, k ≠ .data → (k ∈ l ++ List.replicate n .data ↔ k ∈ l) := by
    intro k hk
    rw [List.mem_append, or_iff_left fun hrep => hk (List.eq_of_mem_replicate hrep)]
  have hopen : Open exit (l ++ List.replicate n .data) ↔ Open exit l :=
    or_congr_right (hmem _ (by decide))
  refine ⟨h.client_le, h.exit_le, fun hconnect => ?_, fun hc ho => ?_, fun hc => ?_⟩
  · obtain ⟨hexit, l', rfl, hl'⟩ := h.opening ((hmem _ (by decide)).1 hconnect)
    refine ⟨hexit, l' ++ List.replicate n .data, rfl, fun hmem' => ?_⟩
    rcases List.mem_append.1 hmem' with hl | hrep
    · exact hl' hl
    · cases List.eq_of_mem_replicate hrep
  · exact (hmem _ (by decide)).2 (h.gone hc (hopen.1 ho))
  · rw [hmem _ (by decide), hopen]
    exact h.live hc

/-- The connect comes first, so that none is left behind it. -/
theorem of_connect (h : LaneInvariant client exit (.connect :: l) closing) :
    exit = 0 ∧ .connect ∉ l := by
  obtain ⟨hexit, l', heq, hl'⟩ := h.opening List.mem_cons_self
  exact ⟨hexit, (List.cons.inj heq).2 ▸ hl'⟩

theorem opened (h : LaneInvariant client exit (.connect :: l) closing) :
    LaneInvariant client (name ::ₘ exit) l closing := by
  obtain ⟨rfl, hl⟩ := h.of_connect
  have hopen : Open (name ::ₘ (0 : Multiset κ)) l := .inl (Multiset.cons_ne_zero)
  have hopen' : Open (0 : Multiset κ) (.connect :: l) := .inr List.mem_cons_self
  refine ⟨h.client_le, ?_, fun hconnect => absurd hconnect hl, fun hc _ => ?_, fun hc => ?_⟩
  · rw [Multiset.card_cons, Multiset.card_zero]
  · simpa using h.gone hc hopen'
  · obtain ⟨hclose, hiff⟩ := h.live hc
    exact ⟨fun hmem => hclose (List.mem_cons_of_mem _ hmem), iff_of_true hopen (hiff.1 hopen')⟩

/-- Behind a message that is no connect there is none. -/
theorem connect_notMem {k : Kind} (h : LaneInvariant client exit (k :: l) closing)
    (hk : k ≠ .connect) : .connect ∉ l := by
  intro hmem
  obtain ⟨-, l', heq, -⟩ := h.opening (List.mem_cons_of_mem k hmem)
  exact hk (List.cons.inj heq).1

/-- A close goes back for a stream that is not open. -/
theorem notOpen (hclient : client.card ≤ 1) (hconnect : .connect ∉ l)
    (hclose : client ≠ 0 → .close ∉ l) : LaneInvariant client (0 : Multiset κ) l True := by
  have hopen : ¬ Open (0 : Multiset κ) l := not_or.2 ⟨not_not.2 rfl, hconnect⟩
  exact
    { client_le := hclient
      exit_le := Nat.zero_le _
      opening := fun h => absurd h hconnect
      gone := fun _ h => absurd h hopen
      live := fun hc => ⟨hclose hc, iff_of_false hopen (not_not.2 trivial)⟩ }

theorem refused (h : LaneInvariant client exit (.connect :: l) closing) :
    LaneInvariant client exit l True := by
  obtain ⟨rfl, hl⟩ := h.of_connect
  exact notOpen h.client_le hl fun hc hmem => (h.live hc).1 (List.mem_cons_of_mem _ hmem)

theorem sent (h : LaneInvariant client exit (.data :: l) closing) :
    LaneInvariant client exit l closing := by
  have hl := h.connect_notMem (by decide)
  have hopen : Open exit l ↔ Open exit (.data :: l) := by simp [Open]
  refine ⟨h.client_le, h.exit_le, fun hmem => absurd hmem hl, fun hc ho => ?_, fun hc => ?_⟩
  · simpa using h.gone hc (hopen.1 ho)
  · rw [hopen]
    exact ⟨fun hmem => (h.live hc).1 (List.mem_cons_of_mem _ hmem), (h.live hc).2⟩

/-- Data that the exit cannot pass on is answered by a close: its stream is unknown,
    or the client does not have it any more. -/
theorem unsent (h : LaneInvariant client exit (.data :: l) closing)
    (hcalm : exit ≠ 0 → client = 0) : LaneInvariant client exit l True := by
  have hl := h.connect_notMem (by decide)
  by_cases hexit : exit = 0
  · subst hexit
    exact notOpen h.client_le hl fun hc hmem => (h.live hc).1 (List.mem_cons_of_mem _ hmem)
  · obtain rfl := hcalm hexit
    refine ⟨h.client_le, h.exit_le, fun hmem => absurd hmem hl, fun hc _ => ?_, absurd rfl⟩
    simpa using h.gone hc (.inl hexit)

theorem closed (h : LaneInvariant client exit (.close :: l) closing) (hrest : Erased exit rest) :
    LaneInvariant client rest l True := by
  obtain rfl := eq_zero_of_erased h.exit_le hrest
  refine notOpen h.client_le (h.connect_notMem (by decide)) fun hc => ?_
  exact absurd List.mem_cons_self (h.live hc).1

theorem eof (h : LaneInvariant client (name ::ₘ rest) l closing) :
    LaneInvariant client rest l True := by
  obtain rfl := eq_zero_of_erased h.exit_le (.inr ⟨name, rfl⟩)
  refine notOpen h.client_le (fun hmem => ?_) fun hc => (h.live hc).1
  exact Multiset.cons_ne_zero (h.opening hmem).1

/-- A close that arrives at the client finds no stream that is open. -/
theorem dropped (h : LaneInvariant client exit l True) (hrest : Erased client rest)
    (closing : Prop) : LaneInvariant rest exit l closing := by
  obtain rfl := eq_zero_of_erased h.client_le hrest
  refine ⟨Nat.zero_le _, h.exit_le, h.opening, fun _ ho => ?_, absurd rfl⟩
  by_cases hc : client = 0
  · exact h.gone hc ho
  · exact absurd trivial ((h.live hc).2.1 ho)

theorem congr_closing {closing' : Prop} (h : LaneInvariant client exit l closing)
    (hiff : closing' ↔ closing) : LaneInvariant client exit l closing' :=
  propext hiff ▸ h

end LaneInvariant

/-! ## All ids -/

/-- An id is drawn only when the exit has no connection under it, no message about
    it is on its way to the exit, and no close of it on its way back. The exit does
    not answer data by a close when it has the connection and the client the
    stream. -/
def Calm : Machine.Guard (Ends ι κ β) (Event ι κ β)
  | s, .connect id _ => lane id s.toExit = [] ∧ s.exit id = 0 ∧ .close id ∉ s.toClient
  | s, .deliver false => ∀ id l, s.toExit = .data id :: l → s.exit id ≠ 0 → s.client id = 0
  | _, _ => True

/-- The invariant of an id. -/
def InvariantAt (s : Ends ι κ β) (id : ι) : Prop :=
  LaneInvariant (s.client id) (s.exit id) (lane id s.toExit) (.close id ∈ s.toClient)

variable {s s' : Ends ι κ β} {e : Event ι κ β}

/-- Every step keeps the invariant of every id: of the one that it is about, by one
    of the lemmas above, and of the others, of which it changes nothing. -/
theorem InvariantAt.step {id : ι} (hinv : InvariantAt s id) (hcalm : Calm s e)
    (h : Step s e s') : InvariantAt s' id := by
  unfold InvariantAt at *
  -- Other ids share the queue but not the lane: their messages are filtered out.
  cases h with
  | @connect id' name hnone =>
    obtain ⟨hlane, hexit, hclose⟩ := hcalm
    by_cases hid : id' = id
    · subst hid
      simpa [lane_append, lane, hlane, hexit, hclose] using LaneInvariant.connect
    · simpa [lane_append, lane, hid, Ne.symm hid] using hinv
  | @close id' rest herased =>
    by_cases hid : id' = id
    · subst hid
      simpa [lane_append, lane] using hinv.close herased
    · simpa [lane_append, lane, hid, Ne.symm hid] using hinv
  | @send id' n hheld =>
    by_cases hid : id' = id
    · subst hid
      simpa [lane_append, lane_replicate] using hinv.send n
    · simpa [lane_append, lane_replicate, hid] using hinv
  | ping => simpa [lane_append, lane] using hinv
  | @opened id' name l hhead =>
    rw [hhead] at hinv
    by_cases hid : id' = id
    · subst hid
      rw [lane, if_pos rfl] at hinv
      simpa using hinv.opened
    · simpa [lane, hid, Ne.symm hid] using hinv
  | @refused id' name l hhead =>
    rw [hhead] at hinv
    by_cases hid : id' = id
    · subst hid
      rw [lane, if_pos rfl] at hinv
      simpa using hinv.refused
    · simpa [lane, hid, Ne.symm hid] using hinv
  | @sent id' l hhead _ =>
    rw [hhead] at hinv
    by_cases hid : id' = id
    · subst hid
      rw [lane, if_pos rfl] at hinv
      exact hinv.sent
    · simpa [lane, hid] using hinv
  | @unsent id' l hhead =>
    -- The exit answers with a close also when it has the stream; the guard says that the
    -- client has then dropped it already.
    have hgone := hcalm id' l hhead
    rw [hhead] at hinv
    by_cases hid : id' = id
    · subst hid
      rw [lane, if_pos rfl] at hinv
      simpa using hinv.unsent hgone
    · simpa [lane, hid, Ne.symm hid] using hinv
  | @closed id' l rest hhead herased =>
    rw [hhead] at hinv
    by_cases hid : id' = id
    · subst hid
      rw [lane, if_pos rfl] at hinv
      simpa using hinv.closed herased
    · simpa [lane, hid, Ne.symm hid] using hinv
  | @echoed l hhead =>
    rw [hhead] at hinv
    simpa [lane] using hinv
  | @socketData id' name payload hname => simpa using hinv
  | @socketEof id' name rest hexit =>
    by_cases hid : id' = id
    · subst hid
      rw [hexit] at hinv
      simpa using hinv.eof
    · simpa [hid, Ne.symm hid] using hinv
  | @pushed id' source payload l name hhead hname =>
    rw [hhead] at hinv
    simpa using hinv
  | @lost id' source payload l hhead hnone =>
    rw [hhead] at hinv
    simpa using hinv
  | @dropped id' l rest hhead herased =>
    rw [hhead] at hinv
    by_cases hid : id' = id
    · subst hid
      have hclosing := hinv.congr_closing (iff_of_true trivial List.mem_cons_self)
      simpa using hclosing.dropped herased _
    · simpa [hid, Ne.symm hid] using hinv
  | @noted l hhead =>
    rw [hhead] at hinv
    simpa using hinv

theorem invariantAt_of_reachable (hs : (endsMachine ι κ β).Reachable Calm s) (id : ι) :
    InvariantAt s id := by
  refine hs.invariant (I := fun s => InvariantAt s id) ?_
    fun _ _ _ hinv hcalm h => hinv.step hcalm h
  rintro _ rfl
  exact LaneInvariant.zero.congr_closing (iff_of_false List.not_mem_nil not_false)

/-- When no message is on its way, the two ends have streams under the same ids. -/
theorem client_eq_zero_iff (hs : (endsMachine ι κ β).Reachable Calm s) (htoExit : s.toExit = [])
    (htoClient : s.toClient = []) (id : ι) : s.client id = 0 ↔ s.exit id = 0 := by
  have hinv := invariantAt_of_reachable hs id
  rw [InvariantAt, htoExit, htoClient] at hinv
  constructor
  · intro hc
    by_contra hexit
    exact List.not_mem_nil (hinv.gone hc (.inl hexit))
  · intro hexit
    by_contra hc
    rcases (hinv.live hc).2.2 List.not_mem_nil with hopen | hmem
    · exact hopen hexit
    · exact List.not_mem_nil hmem

end OnionRouter.Streams.Agreement
