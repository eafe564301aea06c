import OnionRouter.Net.Buffer
import Mathlib.Algebra.Order.BigOperators.Group.List
import Mathlib.Data.List.SplitLengths
import Mathlib.Tactic.Linarith

/-!
# Messages on a byte stream

A connection carries fixed-size messages one after the other, and the transport is
free to cut the stream of their bytes anywhere: every `read` returns some bytes, at
most as many as were asked for. The receivers take what one `read` returns for a
message.

* `countP_receiveAll`: a receiver returns `true` once for every `read`.
* `reassembles_iff`: the messages arrive as they were sent exactly when no `read`
  is short.
-/

namespace OnionRouter.Net

open Crypto

/-- The receivers, with the keys they are called with. -/
inductive Receiver
  | recvTlsMsg
  | clientRecvTorBuffer (tlsKey : Option Block) (onionKey : List Block)
  | relayRecvTorBuffer (tlsKey onionKey : Option Block) (fromClient : Bool)
  | recvServerMsg
  | recvEncServerMsg (key : Block)

theorem isSome_recvMsg {size : ℕ} {decode : List UInt8 → List UInt8} {data got : List UInt8}
    (hgot : got.length ≠ 0) : (recvMsg size decode data got).isSome := by
  rw [recvMsg, if_neg hgot]
  rfl

namespace Receiver

/-- The size of the messages, which is what `read` is asked for. -/
def size : Receiver → ℕ
  | recvTlsMsg => asymmetricKeyBytes
  | clientRecvTorBuffer _ _ => torMsgSize
  | relayRecvTorBuffer _ _ _ => torMsgSize
  | recvServerMsg => serverMsgSize
  | recvEncServerMsg _ => serverMsgSize

/-- A call of the receiver, with `data` in its buffer, whose `read` returns `got`. -/
def recv : Receiver → List UInt8 → List UInt8 → Option (List UInt8)
  | recvTlsMsg => Net.recvTlsMsg
  | clientRecvTorBuffer tlsKey onionKey => Client.recvTorBuffer tlsKey onionKey
  | relayRecvTorBuffer tlsKey onionKey fromClient => Relay.recvTorBuffer tlsKey onionKey fromClient
  | recvServerMsg => Net.recvServerMsg
  | recvEncServerMsg key => Net.recvEncServerMsg key

theorem size_pos (r : Receiver) : 0 < r.size := by
  cases r <;> exact Nat.succ_pos _

/-- A receiver returns `true` whenever `read` returns anything. -/
theorem isSome_recv (r : Receiver) (data : List UInt8) {got : List UInt8} (hgot : got ≠ []) :
    (r.recv data got).isSome := by
  have hpos : got.length ≠ 0 := mt List.length_eq_zero_iff.1 hgot
  cases r with
  | recvTlsMsg => exact isSome_recvMsg hpos
  | clientRecvTorBuffer tlsKey onionKey =>
    rw [recv, Client.recvTorBuffer]
    exact isSome_recvMsg hpos
  | relayRecvTorBuffer tlsKey onionKey fromClient =>
    rw [recv, Relay.recvTorBuffer]
    exact isSome_recvMsg hpos
  | recvServerMsg => exact isSome_recvMsg hpos
  | recvEncServerMsg key => exact isSome_recvMsg hpos

end Receiver

/-- The calls of a receiver on a stream that the transport cuts into the counts
    `cuts`, the `i`-th call with `prior i` in its buffer. -/
def receiveAll (r : Receiver) (prior : ℕ → List UInt8) (stream : List UInt8) (cuts : List ℕ) :
    List (Option (List UInt8)) :=
  (cuts.splitLengths stream).mapIdx fun i got => r.recv (prior i) got

/-- The counts that the transport may return for messages of `size` bytes. -/
structure IsCut (size n : ℕ) (cuts : List ℕ) : Prop where
  pos : ∀ c ∈ cuts, 1 ≤ c
  le : ∀ c ∈ cuts, c ≤ size
  sum : cuts.sum = n * size

/-- The receiver returns `true` once for every message, and delivers what it
    delivers when every `read` returns a full message. -/
structure Reassembles (r : Receiver) (prior : ℕ → List UInt8) (messages : List (List UInt8))
    (cuts : List ℕ) : Prop where
  once : (receiveAll r prior messages.flatten cuts).countP Option.isSome = messages.length
  same : (receiveAll r prior messages.flatten cuts).reduceOption =
    (receiveAll r prior messages.flatten (List.replicate messages.length r.size)).reduceOption

variable {r : Receiver} {prior : ℕ → List UInt8} {cuts : List ℕ}

/-- Every `read` makes a call that returns `true`. -/
theorem countP_receiveAll (r : Receiver) (prior : ℕ → List UInt8) {stream : List UInt8} (hpos : ∀ c ∈ cuts, 1 ≤ c)
    (hsum : cuts.sum = stream.length) :
    (receiveAll r prior stream cuts).countP Option.isSome = cuts.length := by
  have hsome : ∀ a ∈ receiveAll r prior stream cuts, a.isSome := by
    intro a ha
    obtain ⟨i, hi, rfl⟩ := List.mem_mapIdx.1 ha
    refine r.isSome_recv _ (List.ne_nil_of_length_pos ?_)
    rw [List.splitLengths_length_getElem _ _ hsum.le]
    exact hpos _ (List.getElem_mem _)
  rw [List.countP_eq_length.2 hsome, receiveAll, List.length_mapIdx, List.length_splitLengths]

/-- Counts that never exceed `n` and reach it on average all reach it. -/
theorem eq_of_sum_eq {n : ℕ} (hle : ∀ c ∈ cuts, c ≤ n) (hsum : cuts.sum = cuts.length * n) :
    ∀ c ∈ cuts, c = n := by
  induction cuts with
  | nil => intro c hc; cases hc
  | cons a cuts ih =>
    have ha := hle a List.mem_cons_self
    have hcuts := List.sum_le_card_nsmul cuts n fun c hc => hle c (List.mem_cons_of_mem _ hc)
    rw [List.sum_cons, List.length_cons, Nat.succ_mul] at hsum
    rw [Nat.nsmul_eq_mul] at hcuts
    intro c hc
    rcases List.mem_cons.1 hc with rfl | hc
    · linarith
    · exact ih (fun c hc => hle c (List.mem_cons_of_mem _ hc)) (by linarith) c hc

/-- The messages of a stream arrive once each, as they were sent, exactly when
    every `read` returns a full message. -/
theorem reassembles_iff (r : Receiver) (prior : ℕ → List UInt8) (messages : List (List UInt8))
    (cuts : List ℕ) (hmessages : ∀ m ∈ messages, m.length = r.size)
    (hcuts : IsCut r.size messages.length cuts) :
    Reassembles r prior messages cuts ↔ ∀ c ∈ cuts, c = r.size := by
  have hstream : messages.flatten.length = messages.length * r.size := by
    rw [List.length_flatten, List.eq_replicate_of_mem (a := r.size) (l := messages.map List.length),
      List.length_map, List.sum_replicate, Nat.nsmul_eq_mul]
    intro n hn
    obtain ⟨m, hm, rfl⟩ := List.mem_map.1 hn
    exact hmessages m hm
  have hcount := countP_receiveAll r prior hcuts.pos (hcuts.sum.trans hstream.symm)
  constructor
  · -- As many reads as messages: none of them is short.
    intro h
    refine eq_of_sum_eq hcuts.le ?_
    rw [hcuts.sum, ← h.once, hcount]
  · intro h
    have hrep : cuts = List.replicate cuts.length r.size := List.eq_replicate_of_mem h
    have hlen : cuts.length = messages.length := by
      have hsum := hcuts.sum
      rw [hrep, List.sum_replicate, Nat.nsmul_eq_mul] at hsum
      exact Nat.eq_of_mul_eq_mul_right r.size_pos hsum
    refine ⟨hcount.trans hlen, ?_⟩
    rw [hrep, hlen]

theorem reassembles_iff_tlsMsg :
    Reassembles .recvTlsMsg (fun _ => []) [List.replicate 256 7] [100, 156] ↔
      ∀ c ∈ [100, 156], c = Receiver.recvTlsMsg.size :=
  reassembles_iff .recvTlsMsg (fun _ => []) [List.replicate 256 7] [100, 156] (by decide +kernel)
    ⟨by decide, by decide, by decide⟩

/-- A link key that two reads return in parts is taken for two keys. -/
theorem not_reassembles_tlsMsg :
    ¬ Reassembles .recvTlsMsg (fun _ => []) [List.replicate 256 7] [100, 156] := by
  intro h
  have honce := h.once
  rw [countP_receiveAll _ _ (by decide) (by decide +kernel)] at honce
  exact absurd honce (by decide)

end OnionRouter.Net
