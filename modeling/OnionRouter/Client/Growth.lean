import OnionRouter.Client.StreamBuffers
import OnionRouter.Lib.Checked

/-!
# The arithmetic of the receive buffer

`stream_push_data` and `grow_buffer` again, with every computation on `uint32_t` checked
(`streamPushDataChecked`). The capacity is 64 times a power of two, so `2 ^ 31` is the
largest one; nothing bounds what the other side sends, and a push that needs more doubles
the capacity to zero.

* `streamPushData_of_checked`: a push that wraps nowhere is a push.
* `InBounds.streamPushDataChecked`: this is so up to `2 ^ 31` stored bytes.
* `growsSafely_iff_of_reachable`: and not beyond.
-/

namespace OnionRouter.Client

open Lib Memory

/-! ## Checked pushes -/

/-- `grow_buffer`. -/
def growBufferChecked (b : CircularBuffer) : Checked CircularBuffer := do
  let capacity ← Checked.mul 32 b.capacity 2
  if b.head < b.tail then
    let tailToEndLength ← Checked.sub b.capacity b.tail
    let off ← Checked.sub capacity tailToEndLength
    let tail ← Checked.add 32 b.tail b.capacity
    return { b with
      buffer := b.buffer.write off (b.buffer.read b.tail tailToEndLength)
      tail := tail
      capacity := capacity }
  else return { b with capacity := capacity }

/-- The loop of `stream_push_data`, with the rounds that are left. -/
def growLoopChecked (size : ℕ) : ℕ → CircularBuffer → Checked CircularBuffer
  | 0, _ => .error .unfinished
  | rounds + 1, b => do
    let stored ← Checked.add 32 b.size size
    if stored > b.capacity then
      let b ← growBufferChecked b
      growLoopChecked size rounds b
    else return b

/-- `stream_push_data`. -/
def streamPushDataChecked (b : CircularBuffer) (data : List UInt8) : Checked CircularBuffer := do
  let size := data.length
  let b ← growLoopChecked size 33 b
  let last ← Checked.add 32 b.head size
  if last > b.capacity then
    let circularOffset ← Checked.sub b.capacity b.head
    let circularDataSize ← Checked.sub size circularOffset
    let stored ← Checked.add 32 b.size size
    return { b with
      buffer := (b.buffer.write b.head (data.take circularOffset)).write 0
        ((data.drop circularOffset).take circularDataSize)
      head := circularDataSize
      size := stored }
  else
    let stored ← Checked.add 32 b.size size
    return { b with
      buffer := b.buffer.write b.head data
      head := last
      size := stored }

/-! ## What wraps nowhere -/

variable {b b' : CircularBuffer}

theorem add32_of_checked {x y z : ℕ} (h : Checked.add 32 x y = .ok z) : add32 x y = z := by
  obtain ⟨hlt, rfl⟩ := Checked.add_eq_ok.1 h
  exact add32_of_lt hlt

theorem sub32_of_checked {x y z : ℕ} (hx : x < 2 ^ 32) (h : Checked.sub x y = .ok z) :
    sub32 x y = z := by
  obtain ⟨hle, rfl⟩ := Checked.sub_eq_ok.1 h
  exact sub32_of_le hx hle

theorem growBuffer_of_checked (hcap : b.capacity < 2 ^ 32) (h : growBufferChecked b = .ok b') :
    growBuffer b = b' ∧ b'.capacity = b.capacity * 2 ∧ b'.capacity < 2 ^ 32 := by
  obtain ⟨capacity, hmul, h⟩ := Checked.bind_eq_ok.1 h
  obtain ⟨hlt, rfl⟩ := Checked.mul_eq_ok.1 hmul
  have hmod : b.capacity * 2 % 2 ^ 32 = b.capacity * 2 := Nat.mod_eq_of_lt hlt
  rw [growBuffer, hmod]
  split_ifs at h ⊢ with hhead
  · obtain ⟨length, hlength, h⟩ := Checked.bind_eq_ok.1 h
    obtain ⟨off, hoff, h⟩ := Checked.bind_eq_ok.1 h
    obtain ⟨tail, htail, h⟩ := Checked.bind_eq_ok.1 h
    obtain rfl := Except.ok.inj h
    rw [sub32_of_checked hcap hlength, add32_of_checked htail]
    obtain ⟨-, rfl⟩ := Checked.sub_eq_ok.1 hoff
    exact ⟨rfl, rfl, hlt⟩
  · obtain rfl := Except.ok.inj h
    exact ⟨rfl, rfl, hlt⟩

/-- By induction on the rounds. -/
theorem growLoop_of_checked {size rounds : ℕ} (hcap : b.capacity < 2 ^ 32)
    (h : growLoopChecked size rounds b = .ok b') :
    growLoop size rounds b = some b' ∧ b'.capacity < 2 ^ 32 := by
  induction rounds generalizing b with
  | zero => cases h
  | succ rounds ih =>
    obtain ⟨stored, hadd, h⟩ := Checked.bind_eq_ok.1 h
    rw [growLoop, add32_of_checked hadd]
    split_ifs at h ⊢ with hmore
    · obtain ⟨b₁, hgrow, h⟩ := Checked.bind_eq_ok.1 h
      obtain ⟨hgrow', -, hcap'⟩ := growBuffer_of_checked hcap hgrow
      rw [hgrow']
      exact ih hcap' h
    · obtain rfl := Except.ok.inj h
      exact ⟨rfl, hcap⟩

/-- A push that wraps nowhere is a push. -/
theorem streamPushData_of_checked {data : List UInt8} (hcap : b.capacity < 2 ^ 32)
    (hdata : data.length < 2 ^ 32) (h : streamPushDataChecked b data = .ok b') :
    streamPushData b data = some b' := by
  obtain ⟨b₁, hloop, h⟩ := Checked.bind_eq_ok.1 h
  obtain ⟨last, hlast, h⟩ := Checked.bind_eq_ok.1 h
  obtain ⟨hloop', hcap'⟩ := growLoop_of_checked hcap hloop
  rw [streamPushData, hloop']
  simp only [Option.bind_eq_bind, Option.bind_some, add32_of_checked hlast]
  split_ifs at h ⊢ with hwrap
  · obtain ⟨off, hoff, h⟩ := Checked.bind_eq_ok.1 h
    obtain ⟨rest, hrest, h⟩ := Checked.bind_eq_ok.1 h
    obtain ⟨stored, hstored, h⟩ := Checked.bind_eq_ok.1 h
    obtain rfl := Except.ok.inj h
    rw [sub32_of_checked hcap' hoff, sub32_of_checked hdata hrest, add32_of_checked hstored]
    rfl
  · obtain ⟨stored, hstored, h⟩ := Checked.bind_eq_ok.1 h
    obtain rfl := Except.ok.inj h
    rw [add32_of_checked hstored]
    rfl

/-! ## Up to `2 ^ 31` stored bytes -/

theorem InBounds.growBufferChecked (hb : InBounds b) (hsmall : b.capacity < 2 ^ 31) :
    ∃ b', growBufferChecked b = .ok b' ∧ InBounds b' ∧ b'.size = b.size ∧
      b'.capacity = b.capacity * 2 := by
  have ht := hb.tail_lt
  have hs := hb.size_le
  have hh := hb.head_le
  have hpow := double_capacity hb.capacity hsmall
  rw [Client.growBufferChecked, Checked.mul_eq_ok.2 ⟨by omega, rfl⟩, Checked.ok_bind]
  split_ifs with hhead
  · rw [Checked.sub_eq_ok.2 ⟨ht.le, rfl⟩, Checked.ok_bind, Checked.sub_eq_ok.2 ⟨by omega, rfl⟩,
      Checked.ok_bind, Checked.add_eq_ok.2 ⟨by omega, rfl⟩, Checked.ok_bind]
    refine ⟨_, rfl, ⟨hpow, ?_, ?_, ?_⟩, rfl, rfl⟩
    · exact hs.trans (Nat.le_mul_of_pos_right _ (by decide))
    · exact hh.trans (Nat.le_mul_of_pos_right _ (by decide))
    · show b.tail + b.capacity < b.capacity * 2
      omega
  · refine ⟨_, rfl, ⟨hpow, ?_, ?_, ?_⟩, rfl, rfl⟩
    · exact hs.trans (Nat.le_mul_of_pos_right _ (by decide))
    · exact hh.trans (Nat.le_mul_of_pos_right _ (by decide))
    · exact ht.trans_le (Nat.le_mul_of_pos_right _ (by decide))

/-- The loop makes room. By induction on the rounds: there are at most 25 doublings up
    to `2 ^ 31`. -/
theorem InBounds.growLoopChecked {size rounds : ℕ} (hb : InBounds b)
    (hsize : b.size + size ≤ 2 ^ 31) (hrounds : 2 ^ 31 < b.capacity * 2 ^ rounds) :
    ∃ b', growLoopChecked size rounds b = .ok b' ∧ InBounds b' ∧ b'.size = b.size ∧
      b.size + size ≤ b'.capacity := by
  induction rounds generalizing b with
  | zero => exact absurd hrounds (Nat.not_lt.2 (by rw [pow_zero, Nat.mul_one]; exact hb.capacity_le))
  | succ rounds ih =>
    rw [Client.growLoopChecked, Checked.add_eq_ok.2 ⟨by omega, rfl⟩, Checked.ok_bind]
    split_ifs with hmore
    · obtain ⟨b₁, hgrow, hb₁, hsize₁, hcap₁⟩ :=
        hb.growBufferChecked (Nat.lt_of_lt_of_le hmore hsize)
      obtain ⟨b', hloop, hb', hsize', hroom⟩ := ih hb₁ (by rwa [hsize₁])
        (by rwa [hcap₁, Nat.mul_assoc, ← pow_succ'])
      rw [hgrow, Checked.ok_bind]
      exact ⟨b', hloop, hb', hsize'.trans hsize₁, hsize₁ ▸ hroom⟩
    · exact ⟨b, rfl, hb, rfl, Nat.not_lt.1 hmore⟩

/-- A push wraps nowhere as long as at most `2 ^ 31` bytes are stored with it. -/
theorem InBounds.streamPushDataChecked (hb : InBounds b) {data : List UInt8}
    (hdata : data.length ≤ 65535) (hsize : b.size + data.length ≤ 2 ^ 31) :
    ∃ b', streamPushDataChecked b data = .ok b' ∧ InBounds b' ∧
      b'.size = b.size + data.length := by
  have hpos := hb.capacity_pos
  have hrounds : 2 ^ 31 < b.capacity * 2 ^ 33 := by omega
  obtain ⟨b₁, hloop, hb₁, hsize₁, hroom⟩ := hb.growLoopChecked hsize hrounds
  have hcap := hb₁.capacity_le
  have hh := hb₁.head_le
  rw [← hsize₁] at hroom hsize
  rw [Client.streamPushDataChecked, hloop, Checked.ok_bind,
    Checked.add_eq_ok.2 ⟨by omega, rfl⟩, Checked.ok_bind]
  split_ifs with hwrap
  · rw [Checked.sub_eq_ok.2 ⟨hh, rfl⟩, Checked.ok_bind, Checked.sub_eq_ok.2 ⟨by omega, rfl⟩,
      Checked.ok_bind, Checked.add_eq_ok.2 ⟨by omega, rfl⟩, Checked.ok_bind]
    refine ⟨_, rfl, ⟨hb₁.capacity, hroom, ?_, hb₁.tail_lt⟩, by rw [← hsize₁]⟩
    show data.length - (b₁.capacity - b₁.head) ≤ b₁.capacity
    omega
  · rw [Checked.add_eq_ok.2 ⟨by omega, rfl⟩, Checked.ok_bind]
    exact ⟨_, rfl, ⟨hb₁.capacity, hroom, Nat.not_lt.1 hwrap, hb₁.tail_lt⟩, by rw [← hsize₁]⟩

/-! ## Beyond -/

/-- The capacities of the loop: after `2 ^ 31` comes zero. -/
theorem double_capacity_mod {c : ℕ} (hc : c = 0 ∨ ∃ k ≤ 25, c = initialBufferCapacity * 2 ^ k) :
    c * 2 % 2 ^ 32 = 0 ∨ ∃ k ≤ 25, c * 2 % 2 ^ 32 = initialBufferCapacity * 2 ^ k := by
  rcases hc with rfl | ⟨k, hk, rfl⟩
  · exact .inl rfl
  · rcases Nat.eq_or_lt_of_le hk with rfl | hlt
    · exact .inl rfl
    · refine .inr ⟨k + 1, hlt, ?_⟩
      have hpow : 2 ^ (k + 1) ≤ 2 ^ 25 := Nat.pow_le_pow_right (by decide) hlt
      have hdouble : initialBufferCapacity * 2 ^ k * 2 = initialBufferCapacity * 2 ^ (k + 1) := by
        rw [pow_succ, Nat.mul_assoc]
      rw [hdouble, Nat.mod_eq_of_lt]
      rw [initialBufferCapacity]
      omega

/-- The loop does not end before there is room. By induction on the rounds. -/
theorem add32_le_of_growLoop {size rounds : ℕ}
    (hcap : b.capacity = 0 ∨ ∃ k ≤ 25, b.capacity = initialBufferCapacity * 2 ^ k)
    (h : growLoop size rounds b = some b') : add32 b.size size ≤ 2 ^ 31 := by
  induction rounds generalizing b with
  | zero => cases h
  | succ rounds ih =>
    rw [growLoop] at h
    split_ifs at h with hmore
    · rw [← growBuffer_size b]
      exact ih (growBuffer_capacity b ▸ double_capacity_mod hcap) h
    · refine (Nat.not_lt.1 hmore).trans ?_
      rcases hcap with hzero | ⟨k, hk, hcap⟩
      · exact hzero ▸ Nat.zero_le _
      · have hpow : 2 ^ k ≤ 2 ^ 25 := Nat.pow_le_pow_right (by decide) hk
        rw [hcap, initialBufferCapacity]
        omega

/-- A push that returns leaves at most `2 ^ 31` bytes stored. -/
theorem InBounds.le_of_streamPushData (hb : InBounds b) {data : List UInt8}
    (hdata : data.length ≤ 65535) (h : streamPushData b data = some b') :
    b.size + data.length ≤ 2 ^ 31 := by
  have hs := hb.size_le
  have hc := hb.capacity_le
  obtain ⟨b₁, hloop, -⟩ := Option.bind_eq_some_iff.1 h
  have hle := add32_le_of_growLoop (.inr hb.capacity) hloop
  rwa [add32_of_lt (by omega)] at hle

/-! ## Runs -/

/-- The pushes of `handle_relay_relay_msg`, whose payload has a length of 16 bits. -/
def ShortPushes : Machine.Guard History Call
  | _, .push data => data.length ≤ 65535
  | _, .pop _ => True

/-- A push returns and wraps nowhere. Afterwards the buffer stores what was pushed and is
    not popped yet, and its capacity, 64 times a power of two, is enough for it. -/
def GrowsSafely (h : History) (data : List UInt8) : Prop :=
  ∃ b, streamPushDataChecked h.buffer data = .ok b ∧ streamPushData h.buffer data = some b ∧
    (∃ k, b.capacity = initialBufferCapacity * 2 ^ k) ∧
    b.size + h.popped.length = h.pushed.length + data.length ∧ b.size ≤ b.capacity

/-- What the calls of a run keep: the size counts the bytes that are not popped yet. -/
structure CountInvariant (h : History) : Prop where
  inBounds : InBounds h.buffer
  count : h.buffer.size + h.popped.length = h.pushed.length

/-- A push of a run returns exactly when there is room for it, and then wraps nowhere. -/
theorem InBounds.streamPushData_eq_some_iff (hb : InBounds b) {data : List UInt8}
    (hdata : data.length ≤ 65535) : streamPushData b data = some b' ↔
      b.size + data.length ≤ 2 ^ 31 ∧ Client.streamPushDataChecked b data = .ok b' := by
  have hcap : b.capacity < 2 ^ 32 := hb.capacity_le.trans_lt (by decide)
  have hlen : data.length < 2 ^ 32 := hdata.trans_lt (by decide)
  constructor
  · intro hpush
    have hsize := hb.le_of_streamPushData hdata hpush
    obtain ⟨b₁, hchecked, -⟩ := hb.streamPushDataChecked hdata hsize
    obtain rfl := Option.some_inj.1 ((streamPushData_of_checked hcap hlen hchecked).symm.trans hpush)
    exact ⟨hsize, hchecked⟩
  · rintro ⟨-, hchecked⟩
    exact streamPushData_of_checked hcap hlen hchecked

theorem CountInvariant.step {h h' : History} {call : Call} (hinv : CountInvariant h)
    (hshort : ShortPushes h call) (hstep : h.step call = some h') : CountInvariant h' := by
  have hcount := hinv.count
  cases call with
  | push data =>
    obtain ⟨b, hpush, rfl⟩ := Option.map_eq_some_iff.1 hstep
    obtain ⟨hsize, hchecked⟩ := (hinv.inBounds.streamPushData_eq_some_iff hshort).1 hpush
    obtain ⟨b₁, hchecked₁, hb₁, hsize₁⟩ := hinv.inBounds.streamPushDataChecked hshort hsize
    obtain rfl := Except.ok.inj (hchecked₁.symm.trans hchecked)
    refine ⟨hb₁, ?_⟩
    rw [hsize₁, List.length_append, ← hcount, Nat.add_right_comm]
  | pop size =>
    simp only [History.step, hinv.inBounds.streamPopData, Option.some_inj] at hstep
    subst hstep
    refine ⟨hinv.inBounds.afterPop size, ?_⟩
    rw [List.length_append, List.length_take, length_contents]
    show h.buffer.size - min size h.buffer.size + (h.popped.length + min size h.buffer.size) =
      h.pushed.length
    omega

theorem countInvariant_of_reachable {h : History} (hh : bufferMachine.Reachable ShortPushes h) :
    CountInvariant h := by
  refine hh.invariant ?_ fun _ _ _ hinv hshort hstep => hinv.step hshort hstep
  rintro _ ⟨memory, rfl⟩
  exact ⟨(valid_initStreamBuffer memory).inBounds, rfl⟩

/-- In every run, a push is safe exactly when at most `2 ^ 31` bytes are stored with it. -/
theorem growsSafely_iff_of_reachable {h : History} {data : List UInt8}
    (hh : bufferMachine.Reachable ShortPushes h) (hdata : data.length ≤ 65535) :
    GrowsSafely h data ↔ h.buffer.size + data.length ≤ 2 ^ 31 := by
  obtain ⟨hb, hcount⟩ := countInvariant_of_reachable hh
  constructor
  · rintro ⟨b, -, hpush, -⟩
    exact hb.le_of_streamPushData hdata hpush
  · intro hsize
    obtain ⟨b, hchecked, hb', hsize'⟩ := hb.streamPushDataChecked hdata hsize
    obtain ⟨k, -, hcap⟩ := hb'.capacity
    refine ⟨b, hchecked, (hb.streamPushData_eq_some_iff hdata).2 ⟨hsize, hchecked⟩, ⟨k, hcap⟩, ?_,
      hb'.size_le⟩
    rw [hsize']
    omega

/-- With 60 bytes stored, ten more double the capacity. -/
theorem growsSafely_doubled : ∃ h, h.buffer.size = 60 ∧ h.buffer.capacity = 64 ∧
    GrowsSafely h (List.replicate 10 2) := by
  have hinit : bufferMachine.Reachable ShortPushes freshHistory := .init ⟨_, rfl⟩
  have hpush : ShortPushes freshHistory (.push (List.replicate 60 1)) :=
    show (List.replicate 60 (1 : UInt8)).length ≤ 65535 by decide
  have hh := hinit.step hpush rfl
  exact ⟨_, rfl, rfl, (growsSafely_iff_of_reachable hh (by decide)).2 (by decide)⟩

/-- Pushes of 65535 bytes, none of them popped. By induction on their number. -/
theorem reachable_size {data : List UInt8} (hlength : data.length = 65535) {n : ℕ}
    (hn : n ≤ 32768) :
    ∃ h, bufferMachine.Reachable ShortPushes h ∧ h.buffer.size = n * 65535 := by
  induction n with
  | zero => exact ⟨freshHistory, .init ⟨_, rfl⟩, rfl⟩
  | succ n ih =>
    obtain ⟨h, hh, hsize⟩ := ih (Nat.le_of_succ_le hn)
    have hb := (countInvariant_of_reachable hh).inBounds
    have hroom : h.buffer.size + data.length ≤ 2 ^ 31 := by
      rw [hlength, hsize]
      omega
    obtain ⟨b, hchecked, -, hsize'⟩ := hb.streamPushDataChecked hlength.le hroom
    have hpush := (hb.streamPushData_eq_some_iff hlength.le).2 ⟨hroom, hchecked⟩
    refine ⟨⟨b, h.pushed ++ data, h.popped⟩, hh.step (a := .push data) hlength.le ?_, ?_⟩
    · exact Option.map_eq_some_iff.2 ⟨b, hpush, rfl⟩
    · rw [hsize', hlength, hsize, Nat.succ_mul]

/-- After 32768 pushes of 65535 bytes, one more doubles the capacity to zero. -/
theorem not_growsSafely_reachable : ∃ h data, bufferMachine.Reachable ShortPushes h ∧
    data.length ≤ 65535 ∧ ¬ GrowsSafely h data := by
  obtain ⟨data, hlength⟩ : ∃ data : List UInt8, data.length = 65535 :=
    ⟨List.replicate 65535 0, List.length_replicate⟩
  obtain ⟨h, hh, hsize⟩ := reachable_size hlength le_rfl
  refine ⟨h, data, hh, hlength.le, ?_⟩
  rintro ⟨b, -, hpush, -⟩
  have hle := (countInvariant_of_reachable hh).inBounds.le_of_streamPushData hlength.le hpush
  rw [hlength, hsize] at hle
  omega

end OnionRouter.Client
