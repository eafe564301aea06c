import OnionRouter.Lib.Circular
import OnionRouter.Lib.Transition
import Mathlib.Data.Nat.Bitwise

/-!
# The receive buffer of a stream

`stream_buffers.c`: a circular buffer, to which `stream_push_data` appends the bytes
that arrive for a stream, and from which `stream_pop_data` takes those that the user
asks for. The capacity is doubled until a push fits (`growBuffer`), and a doubling
moves the piece of the contents that lies behind `tail`, provided that `head` lies
before it.

The contents also go around when `head` and `tail` are equal in a full buffer, and
a buffer that is drained after it was filled exactly up to its end has its `head` at
the end and its `tail` at the start. A push that grows the buffer from one of these
positions (`Misplaced`) leaves the contents torn apart.

* `streamPushData_spec`, `streamPopData_spec`: the operations append to and take
  from the contents.
* `Sized.streamPushData`: a push returns, whatever the layout.
* `isFifo_of_reachable`: in every run none of whose pushes grows a misplaced buffer,
  the bytes come out as they went in.
-/

namespace OnionRouter.Client

open Lib Memory

/-! ## The buffer -/

/-- A `circular_buffer_t`. What `realloc` adds to the buffer is the part of the
    memory behind its old capacity. -/
structure CircularBuffer where
  buffer : Memory UInt8
  head : ℕ
  tail : ℕ
  size : ℕ
  capacity : ℕ

/-- The constant `INITIAL_BUFFER_CAPACITY`. -/
def initialBufferCapacity : ℕ := 64

/-- An addition of two `uint32_t`. -/
def add32 (a b : ℕ) : ℕ := (a + b) % 2 ^ 32

/-- A subtraction of two `uint32_t`. -/
def sub32 (a b : ℕ) : ℕ := (a + (2 ^ 32 - b)) % 2 ^ 32

/-- `init_stream_buffer`, in memory that holds anything. -/
def initStreamBuffer (memory : Memory UInt8) : CircularBuffer where
  buffer := memory
  head := 0
  tail := 0
  size := 0
  capacity := initialBufferCapacity

/-- `grow_buffer`. -/
def growBuffer (b : CircularBuffer) : CircularBuffer :=
  let capacity := b.capacity * 2 % 2 ^ 32
  if b.head < b.tail then
    let tailToEndLength := sub32 b.capacity b.tail
    { b with
      buffer := b.buffer.write (capacity - tailToEndLength) (b.buffer.read b.tail tailToEndLength)
      tail := add32 b.tail b.capacity
      capacity := capacity }
  else { b with capacity := capacity }

/-- The loop of `stream_push_data`, with the rounds that are left. -/
def growLoop (size : ℕ) : ℕ → CircularBuffer → Option CircularBuffer
  | 0, _ => none
  | rounds + 1, b =>
    if add32 b.size size > b.capacity then growLoop size rounds (growBuffer b) else some b

/-- `stream_push_data`; `none` when the loop does not end, which after 32 rounds,
    with the capacity doubled to zero, it never does. -/
def streamPushData (b : CircularBuffer) (data : List UInt8) : Option CircularBuffer := do
  let size := data.length
  let b ← growLoop size 33 b
  if add32 b.head size > b.capacity then
    let circularOffset := sub32 b.capacity b.head
    let circularDataSize := sub32 size circularOffset
    return { b with
      buffer := (b.buffer.write b.head (data.take circularOffset)).write 0
        ((data.drop circularOffset).take circularDataSize)
      head := circularDataSize
      size := add32 b.size size }
  else
    return { b with
      buffer := b.buffer.write b.head data
      head := add32 b.head size
      size := add32 b.size size }

/-- `stream_pop_data`: what it returns, what it copies to `data`, and the buffer
    after it. -/
def streamPopData (b : CircularBuffer) (size : ℕ) : ℕ × List UInt8 × CircularBuffer :=
  if size = 0 ∨ b.size = 0 then (0, [], b)
  else
    let readSize := if size > b.size then b.size else size
    let data :=
      if add32 b.tail readSize > b.capacity then
        let circularSize := sub32 b.capacity b.tail
        b.buffer.read b.tail circularSize ++ b.buffer.read 0 (sub32 readSize circularSize)
      else b.buffer.read b.tail readSize
    (readSize, data,
      { b with
        tail := add32 b.tail readSize &&& sub32 b.capacity 1
        size := sub32 b.size readSize })

/-! ## Its contents -/

/-- The bytes that are stored, the oldest first. -/
def contents (b : CircularBuffer) : List UInt8 := b.buffer.window b.capacity b.tail b.size

@[simp] theorem length_contents (b : CircularBuffer) : (contents b).length = b.size :=
  length_window _ _ _

/-- The buffers that the operations keep. -/
structure Valid (b : CircularBuffer) : Prop where
  capacity : ∃ k ≤ 25, b.capacity = initialBufferCapacity * 2 ^ k
  size_le : b.size ≤ b.capacity
  head_le : b.head ≤ b.capacity
  tail_lt : b.tail < b.capacity
  position : (b.tail + b.size) % b.capacity = b.head % b.capacity

/-- Buffers whose positions are in bounds, wherever their contents lie. -/
structure InBounds (b : CircularBuffer) : Prop where
  capacity : ∃ k ≤ 25, b.capacity = initialBufferCapacity * 2 ^ k
  size_le : b.size ≤ b.capacity
  head_le : b.head ≤ b.capacity
  tail_lt : b.tail < b.capacity

/-- Positions of a buffer from which it must not grow: full with `head` at `tail`,
    or empty with `head` at the end. -/
def Misplaced (b : CircularBuffer) : Prop :=
  (b.size = b.capacity ∧ b.head = b.tail) ∨ (b.size = 0 ∧ b.head = b.capacity)

/-- The two layouts that `grow_buffer` tells apart. -/
def GrowsWell (b : CircularBuffer) : Prop :=
  b.head < b.tail ∨ b.tail + b.size = b.head

theorem add32_of_lt {a b : ℕ} (h : a + b < 2 ^ 32) : add32 a b = a + b := Nat.mod_eq_of_lt h

theorem sub32_of_le {a b : ℕ} (ha : a < 2 ^ 32) (h : b ≤ a) : sub32 a b = a - b := by
  rw [sub32, show a + (2 ^ 32 - b) = a - b + 2 ^ 32 by omega, Nat.add_mod_right,
    Nat.mod_eq_of_lt (by omega)]

namespace InBounds

variable {b : CircularBuffer}

theorem capacity_le (hb : InBounds b) : b.capacity ≤ 2 ^ 31 := by
  obtain ⟨k, hk, hcap⟩ := hb.capacity
  have hpow : 2 ^ k ≤ 2 ^ 25 := Nat.pow_le_pow_right (by decide) hk
  rw [hcap, initialBufferCapacity]
  omega

theorem capacity_pos (hb : InBounds b) : 0 < b.capacity := Nat.zero_lt_of_lt hb.tail_lt

end InBounds

namespace Valid

variable {b : CircularBuffer}

theorem inBounds (hb : Valid b) : InBounds b := ⟨hb.capacity, hb.size_le, hb.head_le, hb.tail_lt⟩

theorem capacity_le (hb : Valid b) : b.capacity ≤ 2 ^ 31 := hb.inBounds.capacity_le

theorem capacity_pos (hb : Valid b) : 0 < b.capacity := Nat.zero_lt_of_lt hb.tail_lt

/-- A buffer that is not misplaced has one of the two layouts. -/
theorem growsWell (hb : Valid b) (h : ¬ Misplaced b) : GrowsWell b := by
  have ht := hb.tail_lt
  have hh := hb.head_le
  have hs := hb.size_le
  by_contra hnot
  rcases not_or.1 hnot with ⟨hlt, hne⟩
  rcases eq_of_mod_eq ht hh hs hb.position with hpos | hpos | hpos
  · exact hne hpos
  · exact h (.inl ⟨by omega, by omega⟩)
  · exact h (.inr ⟨by omega, by omega⟩)

end Valid

/-! ## Growing -/

variable {b : CircularBuffer}

/-- Twice a capacity, up to `2 ^ 31`. -/
theorem double_capacity {c : ℕ} (hc : ∃ k ≤ 25, c = initialBufferCapacity * 2 ^ k)
    (hsmall : c < 2 ^ 31) : ∃ k ≤ 25, c * 2 = initialBufferCapacity * 2 ^ k := by
  obtain ⟨k, -, rfl⟩ := hc
  refine ⟨k + 1, ?_, by rw [pow_succ, Nat.mul_assoc]⟩
  have hlt : 2 ^ k < 2 ^ 25 := by
    rw [initialBufferCapacity] at hsmall
    omega
  exact (Nat.pow_lt_pow_iff_right (by decide)).1 hlt

/-- A doubling keeps the contents of a buffer with one of the two layouts. -/
theorem growBuffer_spec (hb : Valid b) (hgrow : GrowsWell b) (hsmall : b.capacity < 2 ^ 31) :
    Valid (growBuffer b) ∧ GrowsWell (growBuffer b) ∧ (growBuffer b).size = b.size ∧
      (growBuffer b).capacity = b.capacity * 2 ∧ contents (growBuffer b) = contents b := by
  have ht := hb.tail_lt
  have hs := hb.size_le
  have hpow := double_capacity hb.capacity hsmall
  have hdouble : b.capacity * 2 % 2 ^ 32 = b.capacity * 2 := Nat.mod_eq_of_lt (by omega)
  by_cases hlt : b.head < b.tail
  · -- The contents go around: their first piece moves to the new end.
    have hpos : b.tail + b.size = b.head + b.capacity := by
      rcases eq_of_mod_eq ht hb.head_le hs hb.position with h | h | h <;> omega
    have hgrown : growBuffer b =
        { b with
          buffer := b.buffer.write (b.capacity * 2 - (b.capacity - b.tail))
            (b.buffer.read b.tail (b.capacity - b.tail))
          tail := b.tail + b.capacity
          capacity := b.capacity * 2 } := by
      rw [growBuffer, if_pos hlt, sub32_of_le (by omega) ht.le, add32_of_lt (by omega), hdouble]
    rw [hgrown]
    refine ⟨⟨hpow, ?_, ?_, ?_, ?_⟩, ?_, rfl, rfl, ?_⟩
    · exact hs.trans (Nat.le_mul_of_pos_right _ (by decide))
    · exact hb.head_le.trans (Nat.le_mul_of_pos_right _ (by decide))
    · show b.tail + b.capacity < b.capacity * 2
      omega
    · show (b.tail + b.capacity + b.size) % (b.capacity * 2) = b.head % (b.capacity * 2)
      rw [show b.tail + b.capacity + b.size = b.head + b.capacity * 2 by omega, Nat.add_mod_right]
    · exact .inl (Nat.lt_add_right _ hlt)
    · exact window_double_of_wrapped (n := b.size) _ ht hs (by omega)
  · -- The contents do not go around, and stay where they are.
    have hpos : b.tail + b.size = b.head := hgrow.resolve_left hlt
    have hgrown : growBuffer b = { b with capacity := b.capacity * 2 } := by
      rw [growBuffer, if_neg hlt, hdouble]
    rw [hgrown]
    refine ⟨⟨hpow, ?_, ?_, ?_, ?_⟩, .inr hpos, rfl, rfl, ?_⟩
    · exact hs.trans (Nat.le_mul_of_pos_right _ (by decide))
    · exact hb.head_le.trans (Nat.le_mul_of_pos_right _ (by decide))
    · exact ht.trans_le (Nat.le_mul_of_pos_right _ (by decide))
    · exact congrArg (· % (b.capacity * 2)) hpos
    · exact window_double_of_le _ (hpos.trans_le hb.head_le)

/-- The loop makes room and keeps the contents. By induction on the rounds: there
    are at most 25 doublings up to `2 ^ 31`. -/
theorem growLoop_spec {size rounds : ℕ} (hb : Valid b) (hsize : b.size + size < 2 ^ 31)
    (hgrow : b.capacity < b.size + size → GrowsWell b)
    (hrounds : 2 ^ 31 < b.capacity * 2 ^ rounds) :
    ∃ b', growLoop size rounds b = some b' ∧ Valid b' ∧ b'.size = b.size ∧
      b.size + size ≤ b'.capacity ∧ contents b' = contents b := by
  induction rounds generalizing b with
  | zero => exact absurd hrounds (Nat.not_lt.2 (by rw [pow_zero, Nat.mul_one]; exact hb.capacity_le))
  | succ rounds ih =>
    rw [growLoop, add32_of_lt (by omega)]
    split_ifs with hmore
    · obtain ⟨hb', hgrow', hsize', hcap', hcontents'⟩ :=
        growBuffer_spec hb (hgrow hmore) (Nat.lt_trans hmore hsize)
      obtain ⟨b', hb''⟩ := ih hb' (by rw [hsize']; exact hsize) (fun _ => hgrow')
        (by rwa [hcap', Nat.mul_assoc, ← pow_succ'])
      rw [hsize', hcontents'] at hb''
      exact ⟨b', hb''⟩
    · exact ⟨b, rfl, hb, rfl, Nat.not_lt.1 hmore, rfl⟩

/-! ## Pushing and popping -/

/-- The two branches of a push, once there is room, are one write around the
    circle. -/
theorem streamPushData_of_room {b' : CircularBuffer} {data : List UInt8}
    (hloop : growLoop data.length 33 b = some b') (hb : Valid b')
    (hroom : b'.size + data.length ≤ b'.capacity) (hsize : b'.size + data.length < 2 ^ 31) :
    ∃ head ≤ b'.capacity, (b'.head + data.length) % b'.capacity = head % b'.capacity ∧
      streamPushData b data = some { b' with
        buffer := b'.buffer.writeWindow b'.capacity b'.head data
        head := head
        size := b'.size + data.length } := by
  have hh := hb.head_le
  have hcap := hb.capacity_le
  have hpos := hb.capacity_pos
  rw [streamPushData, hloop, writeWindow]
  simp only [Option.bind_eq_bind, Option.bind_some]
  rw [add32_of_lt (by omega), add32_of_lt (a := b'.size) (by omega)]
  split_ifs with hwrap
  -- The data go around the end: the second branch of the source.
  · have hoff : sub32 b'.capacity b'.head = b'.capacity - b'.head := sub32_of_le (by omega) hh
    have hrest : sub32 data.length (b'.capacity - b'.head) =
        data.length - (b'.capacity - b'.head) := sub32_of_le (by omega) (by omega)
    have hall : (data.drop (b'.capacity - b'.head)).length ≤
        data.length - (b'.capacity - b'.head) := by rw [List.length_drop]
    refine ⟨data.length - (b'.capacity - b'.head), by omega, ?_, ?_⟩
    · rw [show b'.head + data.length = data.length - (b'.capacity - b'.head) + b'.capacity by omega,
        Nat.add_mod_right]
    · rw [hoff, hrest, List.take_of_length_le hall]
      rfl
  · exact ⟨b'.head + data.length, Nat.not_lt.1 hwrap, rfl, rfl⟩

/-- A push appends to the contents, unless it grows a misplaced buffer. -/
theorem streamPushData_spec {data : List UInt8} (hb : Valid b)
    (hsize : b.size + data.length < 2 ^ 31)
    (hgrow : b.capacity < b.size + data.length → ¬ Misplaced b) :
    ∃ b', streamPushData b data = some b' ∧ Valid b' ∧ contents b' = contents b ++ data := by
  have hrounds : 2 ^ 31 < b.capacity * 2 ^ 33 := by
    have := hb.capacity_pos
    omega
  obtain ⟨b', hloop, hb', hsize', hroom, hcontents⟩ :=
    growLoop_spec hb hsize (fun h => hb.growsWell (hgrow h)) hrounds
  rw [← hsize'] at hroom hsize
  obtain ⟨head, hhead, hpos, hpush⟩ := streamPushData_of_room hloop hb' hroom hsize
  -- `head` may be the capacity itself, so the positions agree only around the circle.
  refine ⟨_, hpush, ⟨hb'.capacity, hroom, hhead, hb'.tail_lt, ?_⟩, ?_⟩
  · calc (b'.tail + (b'.size + data.length)) % b'.capacity
        = ((b'.tail + b'.size) % b'.capacity + data.length) % b'.capacity := by
          rw [Nat.mod_add_mod, Nat.add_assoc]
      _ = (b'.head + data.length) % b'.capacity := by rw [hb'.position, Nat.mod_add_mod]
      _ = head % b'.capacity := hpos
  · have hbefore := window_writeWindow_of_before b'.buffer hb'.tail_lt hb'.head_le hb'.position hroom
    have hwritten : (b'.buffer.writeWindow b'.capacity b'.head data).window b'.capacity
        (b'.tail + b'.size) data.length = data := by
      rw [← window_mod, hb'.position, window_mod, window_writeWindow _ hb'.head_le (by omega)]
    calc (b'.buffer.writeWindow b'.capacity b'.head data).window b'.capacity b'.tail
          (b'.size + data.length)
        = b'.buffer.window b'.capacity b'.tail b'.size ++ data := by
          rw [window_add, hbefore, hwritten]
      _ = contents b ++ data := by rw [← hcontents]; rfl

/-- The buffer after a pop. -/
def afterPop (b : CircularBuffer) (size : ℕ) : CircularBuffer :=
  { b with tail := (b.tail + min size b.size) % b.capacity, size := b.size - min size b.size }

theorem InBounds.afterPop (hb : InBounds b) (size : ℕ) : InBounds (afterPop b size) :=
  ⟨hb.capacity, (Nat.sub_le _ _).trans hb.size_le, hb.head_le, Nat.mod_lt _ hb.capacity_pos⟩

theorem contents_split (b : CircularBuffer) (size : ℕ) :
    contents b = b.buffer.window b.capacity b.tail (min size b.size) ++
      b.buffer.window b.capacity (b.tail + min size b.size) (b.size - min size b.size) := by
  rw [← window_add, Nat.add_sub_cancel' (Nat.min_le_right _ _)]
  rfl

/-- What a pop leaves. -/
theorem contents_afterPop (b : CircularBuffer) (size : ℕ) :
    contents (afterPop b size) = (contents b).drop size := by
  rw [List.drop_eq_drop_min, length_contents, contents_split b size,
    List.drop_left' (length_window _ _ _)]
  exact window_mod _ _ _

/-- A pop takes the first bytes from the contents, as many as were asked for or as
    there are, wherever they lie. -/
theorem InBounds.streamPopData (hb : InBounds b) (size : ℕ) :
    streamPopData b size = (min size b.size, (contents b).take size, Client.afterPop b size) := by
  have ht := hb.tail_lt
  have hs := hb.size_le
  have hcap := hb.capacity_le
  by_cases hnone : size = 0 ∨ b.size = 0
  · have hmin : min size b.size = 0 := by omega
    rw [Client.streamPopData, if_pos hnone, Client.afterPop, hmin, Nat.add_zero, Nat.mod_eq_of_lt ht,
      List.take_eq_take_min, length_contents, hmin]
    rfl
  · obtain ⟨k, -, hk⟩ := hb.capacity
    set n := min size b.size with hn
    have hmin : (if size > b.size then b.size else size) = n := by split_ifs <;> omega
    -- The capacity is a power of two, so the mask is a remainder.
    have hmask : add32 b.tail n &&& sub32 b.capacity 1 = (b.tail + n) % b.capacity := by
      rw [add32_of_lt (by omega), sub32_of_le (by omega) (by omega), hk, initialBufferCapacity,
        show 64 * 2 ^ k = 2 ^ (6 + k) by rw [pow_add]; rfl, Nat.and_two_pow_sub_one_eq_mod]
    have htake : (contents b).take size = b.buffer.window b.capacity b.tail n := by
      rw [List.take_eq_take_min, length_contents, ← hn, contents_split b size,
        List.take_left' (length_window _ _ _)]
    have hread : (if add32 b.tail n > b.capacity then
          b.buffer.read b.tail (sub32 b.capacity b.tail) ++
            b.buffer.read 0 (sub32 n (sub32 b.capacity b.tail))
        else b.buffer.read b.tail n) = b.buffer.readWindow b.capacity b.tail n := by
      rw [readWindow, add32_of_lt (by omega), sub32_of_le (by omega) ht.le]
      split_ifs with h
      · rw [sub32_of_le (by omega) (by omega)]
      · rfl
    rw [Client.streamPopData, if_neg hnone, Client.afterPop]
    simp only [hmin, hread, hmask]
    rw [readWindow_eq _ ht.le (by omega), htake, sub32_of_le (by omega) (by omega)]

/-- A pop keeps the layout. -/
theorem streamPopData_spec (hb : Valid b) (size : ℕ) :
    ∃ b', streamPopData b size = (min size b.size, (contents b).take size, b') ∧ Valid b' ∧
      contents b' = (contents b).drop size := by
  have hafter := hb.inBounds.afterPop size
  refine ⟨_, hb.inBounds.streamPopData size, ⟨hafter.capacity, hafter.size_le, hafter.head_le,
    hafter.tail_lt, ?_⟩, contents_afterPop b size⟩
  show ((b.tail + min size b.size) % b.capacity + (b.size - min size b.size)) % b.capacity =
    b.head % b.capacity
  rw [Nat.mod_add_mod, Nat.add_assoc, Nat.add_sub_cancel' (Nat.min_le_right _ _), hb.position]

/-! ## Whatever the layout -/

/-- The sizes that the operations keep, wherever the contents lie. -/
structure Sized (b : CircularBuffer) : Prop where
  capacity : ∃ k ≤ 25, b.capacity = initialBufferCapacity * 2 ^ k
  size_le : b.size ≤ 2 ^ 31

theorem sized_initStreamBuffer (memory : Memory UInt8) : Sized (initStreamBuffer memory) where
  capacity := ⟨0, by decide, rfl⟩
  size_le := Nat.zero_le _

theorem growBuffer_size (b : CircularBuffer) : (growBuffer b).size = b.size := by
  rw [growBuffer]
  split_ifs <;> rfl

theorem growBuffer_capacity (b : CircularBuffer) :
    (growBuffer b).capacity = b.capacity * 2 % 2 ^ 32 := by
  rw [growBuffer]
  split_ifs <;> rfl

theorem Sized.growBuffer (hb : Sized b) (hsmall : b.capacity < 2 ^ 31) :
    Sized (growBuffer b) ∧ (Client.growBuffer b).capacity = b.capacity * 2 := by
  have hdouble : (Client.growBuffer b).capacity = b.capacity * 2 := by
    rw [growBuffer_capacity, Nat.mod_eq_of_lt (by omega)]
  refine ⟨⟨?_, (growBuffer_size b).trans_le hb.size_le⟩, hdouble⟩
  rw [hdouble]
  exact double_capacity hb.capacity hsmall

/-- The loop ends, as a capacity of `2 ^ 31` is enough. By induction on the rounds. -/
theorem Sized.growLoop {size rounds : ℕ} (hb : Sized b) (hsize : b.size + size ≤ 2 ^ 31)
    (hrounds : 2 ^ 31 < b.capacity * 2 ^ rounds) :
    ∃ b', growLoop size rounds b = some b' ∧ Sized b' ∧ b'.size = b.size := by
  induction rounds generalizing b with
  | zero =>
    obtain ⟨k, hk, hcap⟩ := hb.capacity
    have hpow : 2 ^ k ≤ 2 ^ 25 := Nat.pow_le_pow_right (by decide) hk
    rw [hcap, initialBufferCapacity] at hrounds
    omega
  | succ rounds ih =>
    rw [Client.growLoop, add32_of_lt (by omega)]
    split_ifs with hmore
    · obtain ⟨hb', hcap'⟩ := hb.growBuffer (Nat.lt_of_lt_of_le hmore hsize)
      have hsize' := growBuffer_size b
      obtain ⟨b', hloop, hb'', heq⟩ := ih hb' (by rwa [hsize'])
        (by rwa [hcap', Nat.mul_assoc, ← pow_succ'])
      exact ⟨b', hloop, hb'', heq.trans hsize'⟩
    · exact ⟨b, rfl, hb, rfl⟩

/-- A push returns as long as at most `2 ^ 31` bytes are stored with it. -/
theorem Sized.streamPushData (hb : Sized b) {data : List UInt8}
    (hsize : b.size + data.length ≤ 2 ^ 31) :
    ∃ b', streamPushData b data = some b' ∧ Sized b' := by
  obtain ⟨k, -, hcap⟩ := hb.capacity
  have hrounds : 2 ^ 31 < b.capacity * 2 ^ 33 := by
    have hpos : 0 < 2 ^ k := Nat.two_pow_pos k
    rw [hcap, initialBufferCapacity]
    omega
  obtain ⟨b', hloop, hb', hsize'⟩ := hb.growLoop hsize hrounds
  have hadd : add32 b'.size data.length ≤ 2 ^ 31 := by
    rwa [hsize', add32_of_lt (by omega)]
  rw [Client.streamPushData, hloop]
  simp only [Option.bind_eq_bind, Option.bind_some]
  split_ifs
  · exact ⟨_, rfl, hb'.capacity, hadd⟩
  · exact ⟨_, rfl, hb'.capacity, hadd⟩

theorem Sized.streamPopData (hb : Sized b) (size : ℕ) : Sized (streamPopData b size).2.2 := by
  have hle := hb.size_le
  by_cases hnone : size = 0 ∨ b.size = 0
  · rw [Client.streamPopData, if_pos hnone]
    exact hb
  · have hread : (if size > b.size then b.size else size) ≤ b.size := by
      split_ifs with hmore
      · exact le_rfl
      · exact Nat.not_lt.1 hmore
    rw [Client.streamPopData, if_neg hnone]
    refine ⟨hb.capacity, ?_⟩
    show sub32 b.size (if size > b.size then b.size else size) ≤ 2 ^ 31
    rw [sub32_of_le (by omega) hread]
    exact (Nat.sub_le _ _).trans hle

/-! ## Runs -/

/-- A buffer, with all that was pushed to it and popped from it. -/
structure History where
  buffer : CircularBuffer
  pushed : List UInt8
  popped : List UInt8

/-- The calls of a user of the buffer. -/
inductive Call
  | push (data : List UInt8)
  | pop (size : ℕ)

/-- A call. -/
def History.step (h : History) : Call → Option History
  | .push data => (streamPushData h.buffer data).map fun b => ⟨b, h.pushed ++ data, h.popped⟩
  | .pop size =>
    let (_, data, b) := streamPopData h.buffer size
    some ⟨b, h.pushed, h.popped ++ data⟩

/-- The calls on a buffer from `init_stream_buffer`, one after the other. -/
def bufferMachine : Machine History Call :=
  .ofFun {h | ∃ memory, h = ⟨initStreamBuffer memory, [], []⟩} History.step

/-- A push keeps less than `2 ^ 31` bytes stored, and does not grow a misplaced
    buffer. -/
def KeepsOrder : Machine.Guard History Call
  | h, .push data => h.buffer.size + data.length < 2 ^ 31 ∧
      (h.buffer.capacity < h.buffer.size + data.length → ¬ Misplaced h.buffer)
  | _, .pop _ => True

/-- The buffer is a queue: what went in has come out, in order, or is stored; a pop
    returns as many bytes as there are of those it asks for; a push returns. -/
structure IsFifo (h : History) : Prop where
  order : h.popped ++ contents h.buffer = h.pushed
  pop : ∀ size, (streamPopData h.buffer size).1 = min size (contents h.buffer).length ∧
    (streamPopData h.buffer size).2.1.length = min size (contents h.buffer).length
  push : ∀ data, KeepsOrder h (.push data) → (streamPushData h.buffer data).isSome

/-- What the calls of a run keep. -/
structure FifoInvariant (h : History) : Prop where
  valid : Valid h.buffer
  order : h.popped ++ contents h.buffer = h.pushed

theorem valid_initStreamBuffer (memory : Memory UInt8) : Valid (initStreamBuffer memory) where
  capacity := ⟨0, by decide, rfl⟩
  size_le := Nat.zero_le _
  head_le := Nat.zero_le _
  tail_lt := Nat.succ_pos 63
  position := rfl

theorem FifoInvariant.step {h h' : History} {call : Call} (hinv : FifoInvariant h)
    (hkeeps : KeepsOrder h call) (hstep : h.step call = some h') :
    FifoInvariant h' := by
  cases call with
  | push data =>
    obtain ⟨b, hpush, hvalid, hcontents⟩ := streamPushData_spec hinv.valid hkeeps.1 hkeeps.2
    obtain ⟨b', hb', rfl⟩ := Option.map_eq_some_iff.1 hstep
    obtain rfl := Option.some_inj.1 (hpush.symm.trans hb')
    exact ⟨hvalid, by rw [hcontents, ← List.append_assoc, hinv.order]⟩
  | pop size =>
    obtain ⟨b, hpop, hvalid, hcontents⟩ := streamPopData_spec hinv.valid size
    simp only [History.step, hpop, Option.some_inj] at hstep
    subst hstep
    exact ⟨hvalid, by rw [hcontents, List.append_assoc, List.take_append_drop, hinv.order]⟩

/-- In every run whose pushes do not grow a misplaced buffer, the buffer is a
    queue. -/
theorem isFifo_of_reachable {h : History} (hh : bufferMachine.Reachable KeepsOrder h) :
    IsFifo h := by
  have hinv : FifoInvariant h := by
    refine hh.invariant ?_ fun _ _ _ hinv hkeeps hstep => hinv.step hkeeps hstep
    rintro _ ⟨memory, rfl⟩
    exact ⟨valid_initStreamBuffer memory, rfl⟩
  refine ⟨hinv.order, fun size => ?_, fun data hkeeps => ?_⟩
  · obtain ⟨b, hpop, -⟩ := streamPopData_spec hinv.valid size
    rw [hpop, List.length_take, length_contents]
    exact ⟨rfl, rfl⟩
  · obtain ⟨b, hpush, -⟩ := streamPushData_spec hinv.valid hkeeps.1 hkeeps.2
    rw [hpush]
    rfl

/-- A fresh buffer in memory of zeros. -/
def freshHistory : History := ⟨initStreamBuffer fun _ => 0, [], []⟩

instance (b : CircularBuffer) : Decidable (Misplaced b) := inferInstanceAs (Decidable (_ ∨ _))

instance : ∀ h call, Decidable (KeepsOrder h call)
  | _, .push _ => inferInstanceAs (Decidable (_ ∧ _))
  | _, .pop _ => .isTrue trivial

/-- A buffer that grows while its bytes go around the end. -/
theorem isFifo_wrapped :
    ∃ h, IsFifo h ∧ h.buffer.capacity = 128 ∧ h.buffer.size = 70 ∧ h.popped.length = 30 := by
  have hrun : (Machine.run (Machine.checked KeepsOrder History.step) freshHistory
      [.push (List.replicate 40 1), .pop 30, .push (List.replicate 40 2),
        .push (List.replicate 20 3)]).any
      (fun h => h.buffer.capacity = 128 ∧ h.buffer.size = 70 ∧ h.popped.length = 30) = true := by
    decide +kernel
  have hinit : freshHistory ∈ bufferMachine.init := ⟨_, rfl⟩
  obtain ⟨h, hh, hrest⟩ := Machine.exists_of_run hinit hrun
  exact ⟨h, isFifo_of_reachable hh, of_decide_eq_true hrest⟩

/-- 64 bytes are pushed and popped, then 65 are pushed: they are stored in
    another order. -/
theorem not_isFifo_drained :
    ∃ h, Machine.run History.step freshHistory
        [.push (List.replicate 64 0), .pop 64, .push (List.replicate 65 1)] = some h ∧
      ¬ IsFifo h := by
  have hany : (Machine.run History.step freshHistory
      [.push (List.replicate 64 0), .pop 64, .push (List.replicate 65 1)]).any
        (fun h => h.popped ++ contents h.buffer ≠ h.pushed) = true := by
    decide +kernel
  obtain ⟨h, hrun, hne⟩ := (Option.any_eq_true _ _).1 hany
  exact ⟨h, hrun, fun hfifo => of_decide_eq_true hne hfifo.order⟩

end OnionRouter.Client
