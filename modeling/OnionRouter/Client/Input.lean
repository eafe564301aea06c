import OnionRouter.Client.Session
import Mathlib.Data.List.TakeWhile

/-!
# What the user types

`handle_input_send` asks for a length and reads a line into a buffer of that many bytes.
`fgets` leaves room for the terminator, so one character less than the user asks for gets
into the buffer.

* `payload_sendLoop`: the cells carry the characters that were read.
* `sends_allButLast`: these are all but the last one that was asked for.
-/

namespace OnionRouter.Client

open Lib Memory Protocol Streams

/-! ## Reading a line -/

/-- The newline. -/
def newline : UInt8 := 10

/-- At most `n` characters of the input, up to the first newline. -/
def readLine : ℕ → List UInt8 → List UInt8
  | 0, _ => []
  | _, [] => []
  | n + 1, c :: cs => if c = newline then [c] else c :: readLine n cs

/-- The conversion of a `size_t` to an `int`. -/
def toInt (size : ℕ) : ℤ :=
  let low : ℕ := size % 2 ^ 32
  if low < 2 ^ 31 then low else low - 2 ^ 32

/-- `fgets`, whose `size` is an `int`: the buffer, unless it returns `NULL`. -/
def fgets (buffer : Memory UInt8) (size : ℤ) (stdin : List UInt8) : Option (Memory UInt8) :=
  if size ≤ 0 then none
  else if size = 1 then some (buffer.write 0 [0])
  else
    let chars := readLine (size - 1).toNat stdin
    if chars = [] then none else some (buffer.write 0 (chars ++ [0]))

/-- `strcspn` for the newline, of the string in a buffer of `size` bytes. -/
def strcspn (buffer : Memory UInt8) (size : ℕ) : ℕ :=
  ((buffer.read 0 size).takeWhile fun c => c ≠ 0 ∧ c ≠ newline).length

/-- `read_input`: the buffer, and the length that it returns. -/
def readInput (buffer : Memory UInt8) (size : ℕ) (stdin : List UInt8) : Memory UInt8 × ℕ :=
  match fgets buffer (toInt size) stdin with
  | none => (buffer.set 0 0, 0)
  | some buffer => (buffer.set (strcspn buffer size) 0, strcspn buffer size)

/-- `handle_input_send`, after it has asked for `streamId` and `length`; `buffer` is what
    `malloc` returns. The input buffer, and the cells that are sent. -/
def handleInputSendLine (map : StreamHashmap) (msg : ℕ → Memory UInt8) (streamId : UInt16)
    (length : UInt32) (buffer : Memory UInt8) (stdin : List UInt8) :
    Memory UInt8 × List (Memory UInt8) :=
  let input := readInput buffer length.toNat stdin
  (input.1, handleInputSend map msg streamId (input.1.read 0 input.2))

/-- `data` is sent, in cells of the stream, and nothing is written outside of the input
    buffer. -/
structure Sends (streamId : UInt16) (length : UInt32) (buffer : Memory UInt8) (data : List UInt8)
    (result : Memory UInt8 × List (Memory UInt8)) : Prop where
  stream : ∀ cell ∈ result.2, IsRelayCell cell .relayData streamId
  chunk : ∀ cell ∈ result.2,
    1 ≤ (dataSpan cell).length ∧ (dataSpan cell).length ≤ relayDataMsgSize
  payload : (result.2.map fun cell => (dataSpan cell).bytes cell).flatten = data
  inBuffer : ∀ a, length.toNat ≤ a → result.1 a = buffer a

/-! ## The loop -/

variable {streamId : UInt16} {msg : ℕ → Memory UInt8} {map : StreamHashmap}

/-- What the loop cuts off fits in a cell. -/
theorem length_take_min (data : List UInt8) :
    (data.take (min relayDataMsgSize data.length)).length = min relayDataMsgSize data.length := by
  rw [List.length_take]
  exact Nat.min_eq_left (Nat.min_le_right _ _)

theorem min_lt (data : List UInt8) : min relayDataMsgSize data.length < 2 ^ 16 :=
  (Nat.min_le_left _ _).trans_lt (by decide)

/-- A cell of the loop has data, and not too much. -/
theorem length_sendLoop (rounds : ℕ) (data : List UInt8) :
    ∀ cell ∈ sendLoop streamId msg rounds data,
      1 ≤ (dataSpan cell).length ∧ (dataSpan cell).length ≤ relayDataMsgSize := by
  induction rounds generalizing data with
  | zero => exact fun cell hcell => absurd hcell List.not_mem_nil
  | succ rounds ih =>
    intro cell hcell
    rw [sendLoop] at hcell
    split_ifs at hcell with hempty
    · exact absurd hcell List.not_mem_nil
    · rcases List.mem_cons.1 hcell with rfl | hrest
      · rw [dataSpan, length_torSendDataMsg, length_take_min, UInt16.toNat_ofNat_of_lt' (min_lt data)]
        exact ⟨Nat.le_min.2 ⟨by decide, Nat.pos_of_ne_zero hempty⟩, Nat.min_le_left _ _⟩
      · exact ih _ cell hrest

/-- The cells carry all of the data. By induction on the rounds, of which there are
    enough. -/
theorem payload_sendLoop {rounds : ℕ} {data : List UInt8} (hrounds : data.length ≤ rounds) :
    ((sendLoop streamId msg rounds data).map fun cell => (dataSpan cell).bytes cell).flatten =
      data := by
  induction rounds generalizing data with
  | zero =>
    rw [List.length_eq_zero_iff.1 (Nat.le_zero.1 hrounds)]
    rfl
  | succ rounds ih =>
    rw [sendLoop]
    split_ifs with hempty
    · rw [List.length_eq_zero_iff.1 hempty]
      rfl
    · have hpos : 1 ≤ min relayDataMsgSize data.length :=
        Nat.le_min.2 ⟨by decide, Nat.pos_of_ne_zero hempty⟩
      have hrest : (data.drop (min relayDataMsgSize data.length)).length ≤ rounds := by
        rw [List.length_drop]
        omega
      rw [List.map_cons, List.flatten_cons, ih hrest,
        bytes_torSendDataMsg _ _ _ ((length_take_min data).trans_lt (min_lt data)),
        List.take_append_drop]

/-! ## The line -/

variable {buffer buffer' : Memory UInt8} {size : ℕ} {stdin : List UInt8}

theorem length_readLine_le (n : ℕ) (stdin : List UInt8) : (readLine n stdin).length ≤ n := by
  induction n generalizing stdin with
  | zero => rw [readLine]; rfl
  | succ n ih =>
    cases stdin with
    | nil => exact Nat.zero_le _
    | cons c cs =>
      rw [readLine]
      split_ifs
      · exact Nat.succ_le_succ (Nat.zero_le n)
      · exact Nat.succ_le_succ (ih cs)

/-- Before the newline all characters are read. -/
theorem readLine_eq_take {n : ℕ} {typed : List UInt8} (hnewline : newline ∉ typed)
    (hn : n ≤ typed.length) (rest : List UInt8) : readLine n (typed ++ rest) = typed.take n := by
  induction n generalizing typed with
  | zero => rw [readLine, List.take_zero]
  | succ n ih =>
    cases typed with
    | nil => cases hn
    | cons c cs =>
      obtain ⟨hc, hcs⟩ := not_or.1 (mt List.mem_cons.2 hnewline)
      rw [List.cons_append, readLine, if_neg (Ne.symm hc), ih hcs (Nat.le_of_succ_le_succ hn),
        List.take_succ_cons]

theorem strcspn_le {i : ℕ} (hzero : buffer i = 0) : strcspn buffer size ≤ i := by
  rw [strcspn]
  by_contra hlt
  have hlt := Nat.lt_of_not_le hlt
  have hp := List.mem_takeWhile_imp (List.getElem_mem hlt)
  have hget : ((buffer.read 0 size).takeWhile fun c => c ≠ 0 ∧ c ≠ newline)[i] = buffer i := by
    rw [(List.takeWhile_prefix _).getElem hlt, getElem_read, Nat.zero_add]
  rw [hget, hzero] at hp
  simp at hp

theorem toInt_le (size : ℕ) : toInt size ≤ size := by
  rw [toInt]
  omega

theorem toInt_of_lt (h : size < 2 ^ 31) : toInt size = size := by
  rw [toInt]
  omega

/-- The string that `fgets` leaves ends in the buffer. -/
theorem exists_zero_of_fgets (hsize : 0 < size)
    (h : fgets buffer (toInt size) stdin = some buffer') :
    ∃ i < size, buffer' i = 0 := by
  have hle := toInt_le size
  rw [fgets] at h
  split_ifs at h with hneg hone
  · exact ⟨0, hsize, Option.some_inj.1 h ▸ write_of_mem buffer 0 [0] Nat.zero_lt_one⟩
  · obtain ⟨-, h⟩ := Option.ite_none_left_eq_some.1 h
    have hlength := length_readLine_le (toInt size - 1).toNat stdin
    refine ⟨(readLine (toInt size - 1).toNat stdin).length, by omega, ?_⟩
    rw [← Option.some_inj.1 h, ← Nat.zero_add (List.length _), write_of_mem _ _ _ (by simp)]
    simp

/-- The length that is returned leaves room for the terminator. -/
theorem readInput_lt (hsize : 0 < size) : (readInput buffer size stdin).2 < size := by
  rw [readInput]
  cases hfgets : fgets buffer (toInt size) stdin with
  | none => exact hsize
  | some buffer' =>
    obtain ⟨i, hi, hzero⟩ := exists_zero_of_fgets hsize hfgets
    exact (strcspn_le hzero).trans_lt hi

/-- What `fgets` leaves of a line that is longer than the buffer. -/
theorem fgets_of_lt {typed rest : List UInt8} (hsize : 0 < size) (hint : size < 2 ^ 31)
    (htyped : size ≤ typed.length) (hnewline : newline ∉ typed) :
    fgets buffer (toInt size) (typed ++ rest) = some (buffer.write 0 (typed.take (size - 1) ++ [0])) := by
  rw [toInt_of_lt hint, fgets, if_neg (by omega)]
  have hnat : ((size : ℤ) - 1).toNat = size - 1 := by omega
  split_ifs with hone
  · obtain rfl : size = 1 := by omega
    rfl
  · have hread : readLine (size - 1) (typed ++ rest) = typed.take (size - 1) :=
      readLine_eq_take hnewline (by omega) rest
    have hne : typed.take (size - 1) ≠ [] := by
      rw [← List.length_pos_iff, List.length_take]
      omega
    simp only [hnat, hread, if_neg hne]

/-- The characters before a terminator. -/
theorem takeWhile_terminated {chars : List UInt8} (hnewline : newline ∉ chars) :
    ((chars ++ [0]).takeWhile fun c => c ≠ 0 ∧ c ≠ newline) = chars.takeWhile (· ≠ 0) := by
  induction chars with
  | nil => simp
  | cons c chars ih =>
    obtain ⟨hc, hchars⟩ := not_or.1 (mt List.mem_cons.2 hnewline)
    rw [List.cons_append, List.takeWhile_cons, List.takeWhile_cons, ih hchars]
    simp [Ne.symm hc]

/-- The line is read up to the last character that was asked for, or to the first zero
    byte. -/
theorem readInput_spec {typed rest : List UInt8} (hsize : 0 < size) (hint : size < 2 ^ 31)
    (htyped : size ≤ typed.length) (hnewline : newline ∉ typed) :
    (readInput buffer size (typed ++ rest)).1.read 0 (readInput buffer size (typed ++ rest)).2 =
        (typed.take (size - 1)).takeWhile (· ≠ 0) ∧
      ∀ a, size ≤ a → (readInput buffer size (typed ++ rest)).1 a = buffer a := by
  have hlt : (readInput buffer size (typed ++ rest)).2 < size := readInput_lt hsize
  rw [readInput, fgets_of_lt hsize hint htyped hnewline] at hlt ⊢
  set filled := buffer.write 0 (typed.take (size - 1) ++ [0]) with hfilled
  have hlength : (typed.take (size - 1) ++ [0]).length = size := by
    rw [List.length_append, List.length_take, List.length_singleton]
    omega
  have hstring : filled.read 0 size = typed.take (size - 1) ++ [0] :=
    read_write_of_length_eq _ _ _ hlength
  have hprefix : (filled.read 0 size).takeWhile (fun c => c ≠ 0 ∧ c ≠ newline) =
      (typed.take (size - 1)).takeWhile (· ≠ 0) := by
    rw [hstring, takeWhile_terminated fun hmem => hnewline (List.mem_of_mem_take hmem)]
  refine ⟨?_, fun a ha => ?_⟩
  -- The terminator goes to the end of what `strcspn` counted.
  · have hread : (filled.set (strcspn filled size) 0).read 0 (strcspn filled size) =
        filled.read 0 (strcspn filled size) :=
      read_congr _ _ _ fun i hi => set_of_ne _ (by omega) _
    have htake : filled.read 0 (strcspn filled size) =
        (filled.read 0 size).take (strcspn filled size) :=
      (take_read _ _ hlt.le).symm
    show (filled.set (strcspn filled size) 0).read 0 (strcspn filled size) = _
    rw [hread, htake, ← hprefix, strcspn]
    exact (List.prefix_iff_eq_take.1 (List.takeWhile_prefix _)).symm
  · have ha' : a ≠ strcspn filled size := (hlt.trans_le ha).ne'
    show filled.set (strcspn filled size) 0 a = buffer a
    rw [set_of_ne _ ha', hfilled, write_of_ge _ _ _ (by omega)]

/-! ## The command -/

theorem handleInputSendLine_of_find {entry : ℕ × StreamData}
    (hfind : socketHashmapFind map streamId = some entry) (length : UInt32)
    (buffer : Memory UInt8) (stdin : List UInt8) :
    handleInputSendLine map msg streamId length buffer stdin =
      let input := readInput buffer length.toNat stdin
      (input.1, sendLoop streamId msg (input.1.read 0 input.2).length (input.1.read 0 input.2)) := by
  simp only [handleInputSendLine, handleInputSend, hfind]

/-- All but the last character that was asked for are sent, up to the first zero byte. -/
theorem sends_allButLast {length : UInt32} {typed rest : List UInt8} {entry : ℕ × StreamData}
    (hfind : socketHashmapFind map streamId = some entry) (hpos : 1 ≤ length.toNat)
    (hint : length.toNat < 2 ^ 31) (htyped : length.toNat ≤ typed.length)
    (hnewline : newline ∉ typed) :
    Sends streamId length buffer ((typed.take (length.toNat - 1)).takeWhile (· ≠ 0))
      (handleInputSendLine map msg streamId length buffer (typed ++ rest)) := by
  obtain ⟨hdata, hbuffer⟩ := @readInput_spec buffer _ typed rest hpos hint htyped hnewline
  rw [handleInputSendLine_of_find hfind]
  refine ⟨mem_sendLoop _ _ _ _, length_sendLoop _ _, ?_, hbuffer⟩
  exact (payload_sendLoop le_rfl).trans hdata

/-- What was asked for is never sent. -/
theorem not_sends_of_typed {length : UInt32} {typed : List UInt8} {entry : ℕ × StreamData}
    (hfind : socketHashmapFind map streamId = some entry) (hpos : 1 ≤ length.toNat)
    (htyped : length.toNat ≤ typed.length) (rest : List UInt8) :
    ¬ Sends streamId length buffer (typed.take length.toNat)
      (handleInputSendLine map msg streamId length buffer (typed ++ rest)) := by
  intro h
  have hpayload := h.payload
  rw [handleInputSendLine_of_find hfind] at hpayload
  have hsent := congrArg List.length ((payload_sendLoop le_rfl).symm.trans hpayload)
  rw [length_read, List.length_take, Nat.min_eq_left htyped] at hsent
  exact absurd hsent (readInput_lt hpos).ne

/-- A table with the stream 5. -/
def exampleMap : StreamHashmap :=
  Table.set socketHashmapInit 5 (.filled 5 ⟨initStreamBuffer fun _ => 0, 0⟩)

/-- The user asks for 500 characters of a line of 600. -/
theorem not_sends_of_typed_long :
    ¬ Sends 5 500 (fun _ => 0) ((List.replicate 600 65).take 500)
      (handleInputSendLine exampleMap (fun _ _ => 0) 5 500 (fun _ => 0)
        (List.replicate 600 65 ++ [newline])) := by
  have hlength : (500 : UInt32).toNat ≤ (List.replicate 600 (65 : UInt8)).length := by
    rw [List.length_replicate]
    decide
  exact @not_sends_of_typed 5 (fun _ _ => 0) exampleMap (fun _ => 0) 500 (List.replicate 600 65) _
    rfl (by decide) hlength [newline]

/-- Of the three characters that are typed and asked for, two are sent. -/
theorem not_sends_three : ¬ Sends 5 3 (fun _ => 0) [65, 66, 67]
    (handleInputSendLine exampleMap (fun _ _ => 0) 5 3 (fun _ => 0) [65, 66, 67, newline]) := by
  intro h
  have hsent : ((handleInputSendLine exampleMap (fun _ _ => 0) 5 3 (fun _ => 0)
      [65, 66, 67, newline]).2.map fun cell => (dataSpan cell).bytes cell).flatten = [65, 66] := by
    decide +kernel
  exact absurd (hsent.symm.trans h.payload) (by decide)

end OnionRouter.Client
