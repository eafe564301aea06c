import OnionRouter.Net.Buffer

/-!
# A cell along a circuit

The client and the relays of a circuit, each handing a cell to the next. Between
two neighbours the cell is encrypted under the key of their link. On top of that
the client puts on one onion layer for every relay, which the relays take off on
the way out, and the relays put on one layer each, which the client takes off, on
the way back (`handleFdCommon`).

The onion layers cover 509 bytes, 31 whole blocks and 13 bytes more. The last 13
bytes go through `truncated` in every layer:

* `unwrap_wrap_onion`: what `n` layers put on and taken off leave of a cell.
* `transparent_iff_tailSurvives`: a cell comes through a circuit unchanged, in
  either direction, exactly when its last 13 bytes do (`TailSurvives`).
-/

namespace OnionRouter.Net

open Crypto Lib

/-! ## Layers on the parts of a cell -/

/-- The whole blocks under the onion layers of a cell. -/
def onionBlocks : ℕ := 31

/-- Where the partial block at the end of a cell starts. -/
def tailOffset : ℕ := 499

/-- One onion layer put on the last 13 bytes. -/
def tailEncrypt (key : Block) (t : List UInt8) : List UInt8 :=
  truncated aesBytes 0 (onBytes (aesEncrypt128 · key)) t

/-- One onion layer taken off the last 13 bytes. -/
def tailDecrypt (key : Block) (t : List UInt8) : List UInt8 :=
  truncated aesBytes 0 (onBytes (aesDecrypt128 · key)) t

/-- The bytes of a partial block at the end of a cell come back from all layers:
    cutting each padded AES block to their length loses nothing. -/
def TailSurvives (keys : List Block) (t : List UInt8) : Prop :=
  unwrap tailDecrypt keys (wrap tailEncrypt keys t) = t

instance (keys : List Block) (t : List UInt8) : Decidable (TailSurvives keys t) :=
  inferInstanceAs (Decidable (_ = _))

/-- The header, the whole blocks and the partial block of a cell. -/
structure IsParts (h b t : List UInt8) : Prop where
  header : h.length = onionOffset
  blocks : b.length = aesBytes * onionBlocks
  tail : t.length = torMsgSize - tailOffset

/-- The onion layers touch neither the header nor each other's blocks. -/
theorem onRange_parts (crypt : Block → Block) {h b t : List UInt8} (hp : IsParts h b t) :
    onRange onionOffset (torMsgSize - onionOffset) (symmetricCrypt crypt) (h ++ (b ++ t)) =
      h ++ (mapBlocks aesBytes (onBytes crypt) onionBlocks b ++
        truncated aesBytes 0 (onBytes crypt) t) := by
  obtain ⟨hh, hb, ht⟩ := hp
  have hlen : (h ++ (b ++ t)).length = torMsgSize := by
    rw [List.length_append, List.length_append, hh, hb, ht]; rfl
  have hne : t ≠ [] := List.ne_nil_of_length_pos (ht ▸ by decide)
  have hle : t.length ≤ aesBytes := ht ▸ by decide
  rw [onRange_onion _ hlen, List.take_left' hh, List.drop_left' hh,
    symmetricCrypt_append crypt onionBlocks hb hne hle]

theorem isParts_crypt (crypt : Block → Block) {h b t : List UInt8} (hp : IsParts h b t) :
    IsParts h (mapBlocks aesBytes (onBytes crypt) onionBlocks b)
      (truncated aesBytes 0 (onBytes crypt) t) where
  header := hp.header
  blocks := length_mapBlocks (fun l _ => length_onBytes crypt l) _ hp.blocks
  tail := (length_truncated (fun l _ => length_onBytes crypt l) (hp.tail ▸ by decide)).trans hp.tail

/-- The layers of a cell, put on part by part. -/
theorem wrap_encryptOnion (keys : List Block) {h b t : List UInt8} (hp : IsParts h b t) :
    wrap encryptOnion keys (h ++ (b ++ t)) =
        h ++ (wrap (fun key => mapBlocks aesBytes (onBytes (aesEncrypt128 · key)) onionBlocks) keys b
          ++ wrap tailEncrypt keys t) ∧
      IsParts h (wrap (fun key => mapBlocks aesBytes (onBytes (aesEncrypt128 · key)) onionBlocks)
        keys b) (wrap tailEncrypt keys t) := by
  induction keys with
  | nil => exact ⟨rfl, hp⟩
  | cons key keys ih =>
    obtain ⟨heq, hparts⟩ := ih
    refine ⟨?_, isParts_crypt _ hparts⟩
    rw [wrap_cons, heq]
    exact onRange_parts _ hparts

/-- The layers of a cell, taken off part by part. -/
theorem unwrap_decryptOnion (keys : List Block) {h b t : List UInt8} (hp : IsParts h b t) :
    unwrap decryptOnion keys (h ++ (b ++ t)) =
      h ++ (unwrap (fun key => mapBlocks aesBytes (onBytes (aesDecrypt128 · key)) onionBlocks) keys b
        ++ unwrap tailDecrypt keys t) := by
  induction keys generalizing b t with
  | nil => rfl
  | cons key keys ih =>
    exact (congrArg (unwrap decryptOnion keys) (onRange_parts (aesDecrypt128 · key) hp)).trans
      (ih (isParts_crypt (aesDecrypt128 · key) hp))

/-- The parts of a whole cell. -/
theorem exists_isParts {c : List UInt8} (hc : c.length = torMsgSize) :
    ∃ h b, IsParts h b (c.drop tailOffset) ∧ c = h ++ (b ++ c.drop tailOffset) := by
  refine ⟨c.take onionOffset, (c.drop onionOffset).take (aesBytes * onionBlocks),
    ⟨?_, ?_, ?_⟩, ?_⟩
  · rw [List.length_take, hc]; rfl
  · rw [List.length_take, List.length_drop, hc]; rfl
  · rw [List.length_drop, hc]
  · have hdrop : c.drop tailOffset = (c.drop onionOffset).drop (aesBytes * onionBlocks) := by
      rw [List.drop_drop]; rfl
    rw [hdrop, List.take_append_drop, List.take_append_drop]

/-- Onion layers put on a cell and taken off again restore all but its last 13
    bytes. -/
theorem unwrap_wrap_onion (keys : List Block) {c : List UInt8} (hc : c.length = torMsgSize) :
    unwrap decryptOnion keys (wrap encryptOnion keys c) =
      c.take tailOffset ++ unwrap tailDecrypt keys (wrap tailEncrypt keys (c.drop tailOffset)) := by
  obtain ⟨h, b, hp, hcell⟩ := exists_isParts hc
  obtain ⟨hwrap, hparts⟩ := wrap_encryptOnion keys hp
  have hblocks : unwrap (fun key => mapBlocks aesBytes (onBytes (aesDecrypt128 · key)) onionBlocks)
      keys (wrap (fun key => mapBlocks aesBytes (onBytes (aesEncrypt128 · key)) onionBlocks)
        keys b) = b := by
    refine unwrap_wrap (P := fun b => b.length = aesBytes * onionBlocks) _ _ ?_ ?_ keys hp.blocks
    · exact fun key b hb => length_mapBlocks (fun l _ => length_onBytes _ l) _ hb
    · exact fun key b hb => mapBlocks_mapBlocks (fun l _ => length_onBytes _ l)
        (fun l hl => onBytes_onBytes (fun x => aesDecrypt128_aesEncrypt128 x key) hl) _ hb
  have htake : c.take tailOffset = h ++ b := by
    have hlen : (h ++ b).length = tailOffset := by
      rw [List.length_append, hp.header, hp.blocks]; rfl
    conv_lhs => rw [hcell, ← List.append_assoc]
    exact List.take_left' hlen
  conv_lhs => rw [hcell, hwrap, unwrap_decryptOnion keys hparts, hblocks]
  rw [htake, List.append_assoc]

/-- All but the last 13 bytes come through the layers. -/
theorem take_unwrap_wrap_onion (keys : List Block) {c : List UInt8} (hc : c.length = torMsgSize) :
    (unwrap decryptOnion keys (wrap encryptOnion keys c)).take tailOffset = c.take tailOffset := by
  rw [unwrap_wrap_onion keys hc]
  refine List.take_left' ?_
  rw [List.length_take, hc]
  rfl

theorem unwrap_wrap_onion_eq_iff (keys : List Block) {c : List UInt8}
    (hc : c.length = torMsgSize) :
    unwrap decryptOnion keys (wrap encryptOnion keys c) = c ↔
      TailSurvives keys (c.drop tailOffset) := by
  rw [unwrap_wrap_onion keys hc]
  constructor
  · intro h
    conv_rhs at h => rw [← List.take_append_drop tailOffset c]
    exact List.append_cancel_left h
  · intro h
    rw [show unwrap tailDecrypt keys (wrap tailEncrypt keys (c.drop tailOffset)) = _ from h,
      List.take_append_drop]

/-! ## The relays of a circuit -/

/-- The keys of a `relay_session_t` in the middle of a circuit. -/
structure SessionKeys where
  onionKey : Block
  tlsLastKey : Block
  tlsNextKey : Block

/-- `handle_fd_common`: what the relay holds after `recv_tor_buffer`, and what it
    hands on. -/
def handleFdCommon (session : SessionKeys) (fromClient : Bool) (recvMsg got : List UInt8) :
    Option (List UInt8 × List UInt8) := do
  let recvTlsKey := if fromClient then session.tlsLastKey else session.tlsNextKey
  let recvMsg ← Relay.recvTorBuffer (some recvTlsKey) (some session.onionKey) fromClient recvMsg got
  let sendTlsKey := if fromClient then session.tlsNextKey else session.tlsLastKey
  return (recvMsg,
    Relay.sendTorBuffer (some sendTlsKey) (some session.onionKey) (!fromClient) recvMsg)

/-- A relay of a circuit: its onion key, the key of the link towards the client,
    and what its receive buffer holds before. -/
structure Hop where
  onionKey : Block
  linkKey : Block
  buffer : List UInt8

/-- The session of a relay whose next hop is `next`. -/
def Hop.session (hop next : Hop) : SessionKeys where
  onionKey := hop.onionKey
  tlsLastKey := hop.linkKey
  tlsNextKey := next.linkKey

/-- The cell that the last relay holds when the first one receives `got`. -/
def forward : Hop → List Hop → List UInt8 → Option (List UInt8)
  | hop, [], got =>
    Relay.recvTorBuffer (some hop.linkKey) (some hop.onionKey) true hop.buffer got
  | hop, next :: hops, got => do
    let (_, sent) ← handleFdCommon (hop.session next) true hop.buffer got
    forward next hops sent

/-- What the first relay hands to the client when the last one sends `c`. -/
def backward : Hop → List Hop → List UInt8 → Option (List UInt8)
  | hop, [], c => some (Relay.sendTorBuffer (some hop.linkKey) (some hop.onionKey) true c)
  | hop, next :: hops, c => do
    let got ← backward next hops c
    let (_, sent) ← handleFdCommon (hop.session next) false hop.buffer got
    return sent

/-- The onion keys of a circuit, the first relay's first. -/
def onionKeys (hop : Hop) (hops : List Hop) : List Block :=
  (hop :: hops).map Hop.onionKey

/-- The cell that the last relay of a circuit holds when the client sends `c`. -/
def clientToExit (hop : Hop) (hops : List Hop) (c : List UInt8) : Option (List UInt8) :=
  forward hop hops (Client.sendTorBuffer (some hop.linkKey) (onionKeys hop hops) c)

/-- The cell that the client of a circuit holds when the last relay sends `c`. -/
def exitToClient (hop : Hop) (hops : List Hop) (buffer c : List UInt8) : Option (List UInt8) := do
  let got ← backward hop hops c
  Client.recvTorBuffer (some hop.linkKey) (onionKeys hop hops) buffer got

/-! ## Through the circuit -/

theorem length_encryptLink (key : Block) {c : List UInt8} (hc : c.length = torMsgSize) :
    (encryptLink (some key) c).length = torMsgSize := by
  rw [encryptLink, onRange_zero _ hc, length_symmetricEncrypt, hc]

/-- A link is transparent. -/
theorem decryptLink_encryptLink (key : Block) {c : List UInt8} (hc : c.length = torMsgSize) :
    decryptLink (some key) (encryptLink (some key) c) = c := by
  rw [decryptLink, onRange_zero _ (length_encryptLink key hc), encryptLink, onRange_zero _ hc,
    symmetricDecrypt_symmetricEncrypt key (hc ▸ rfl)]

theorem length_encryptOnion (key : Block) {c : List UInt8} (hc : c.length = torMsgSize) :
    (encryptOnion key c).length = torMsgSize := by
  rw [encryptOnion, onRange_onion _ hc, List.length_append, length_symmetricEncrypt,
    ← List.length_append, List.take_append_drop, hc]

theorem length_wrap_encryptOnion (keys : List Block) {c : List UInt8}
    (hc : c.length = torMsgSize) : (wrap encryptOnion keys c).length = torMsgSize :=
  wrap_induction (P := fun c : List UInt8 => c.length = torMsgSize) _
    (fun key _ _ hx => length_encryptOnion key hx) hc

theorem length_decryptOnion (key : Block) {c : List UInt8} (hc : c.length = torMsgSize) :
    (decryptOnion key c).length = torMsgSize := by
  rw [decryptOnion, onRange_onion _ hc, List.length_append, length_symmetricDecrypt,
    ← List.length_append, List.take_append_drop, hc]

theorem take_onRange_onion (f : List UInt8 → List UInt8) {c : List UInt8}
    (hc : c.length = torMsgSize) :
    (onRange onionOffset (torMsgSize - onionOffset) f c).take onionOffset = c.take onionOffset := by
  rw [onRange_onion f hc]
  refine List.take_left' ?_
  rw [List.length_take, hc]
  rfl

/-- The layers leave the header of a cell as it is. By induction on them. -/
theorem header_wrap_encryptOnion (keys : List Block) {c h : List UInt8}
    (hc : c.length = torMsgSize ∧ c.take onionOffset = h) :
    (wrap encryptOnion keys c).length = torMsgSize ∧
      (wrap encryptOnion keys c).take onionOffset = h :=
  wrap_induction (P := fun c : List UInt8 => c.length = torMsgSize ∧ c.take onionOffset = h) _
    (fun key _ _ hx => ⟨length_encryptOnion key hx.1, (take_onRange_onion _ hx.1).trans hx.2⟩) hc

theorem header_unwrap_decryptOnion (keys : List Block) {c h : List UInt8}
    (hc : c.length = torMsgSize ∧ c.take onionOffset = h) :
    (unwrap decryptOnion keys c).length = torMsgSize ∧
      (unwrap decryptOnion keys c).take onionOffset = h :=
  unwrap_induction (P := fun c : List UInt8 => c.length = torMsgSize ∧ c.take onionOffset = h) _
    (fun key _ _ hx => ⟨length_decryptOnion key hx.1, (take_onRange_onion _ hx.1).trans hx.2⟩) hc

/-- A cell that comes in over a link, to a relay that takes off no layer. -/
theorem recvTorBuffer_of_link (link : Block) (fromClient : Bool) (buffer : List UInt8)
    {c : List UInt8} (hc : c.length = torMsgSize) :
    Relay.recvTorBuffer (some link) none fromClient buffer (encryptLink (some link) c) = some c := by
  rw [Relay.recvTorBuffer, recvMsg_of_length_eq (by decide) _ _ (length_encryptLink link hc),
    decryptLink_encryptLink link hc]

/-- A cell that comes in over a link, from the client. -/
theorem recvTorBuffer_of_client (link key : Block) (buffer : List UInt8) {c : List UInt8}
    (hc : c.length = torMsgSize) :
    Relay.recvTorBuffer (some link) (some key) true buffer (encryptLink (some link) c) =
      some (decryptOnion key c) := by
  rw [Relay.recvTorBuffer, recvMsg_of_length_eq (by decide) _ _ (length_encryptLink link hc),
    decryptLink_encryptLink link hc]

/-- A cell that comes in over a link, from the next relay. -/
theorem recvTorBuffer_of_next (link key : Block) (buffer : List UInt8) {c : List UInt8}
    (hc : c.length = torMsgSize) :
    Relay.recvTorBuffer (some link) (some key) false buffer (encryptLink (some link) c) =
      some c := by
  rw [Relay.recvTorBuffer, recvMsg_of_length_eq (by decide) _ _ (length_encryptLink link hc),
    decryptLink_encryptLink link hc]

/-- A cell that comes in over a link, to the client. -/
theorem clientRecvTorBuffer_of_link (link : Block) (keys : List Block) (buffer : List UInt8)
    {c : List UInt8} (hc : c.length = torMsgSize) :
    Client.recvTorBuffer (some link) keys buffer (encryptLink (some link) c) =
      some (unwrap decryptOnion keys c) := by
  rw [Client.recvTorBuffer, recvMsg_of_length_eq (by decide) _ _ (length_encryptLink link hc),
    decryptLink_encryptLink link hc]

/-- A relay in the middle hands a cell on without its layer. -/
theorem handleFdCommon_of_client (session : SessionKeys) (buffer : List UInt8) {c : List UInt8}
    (hc : c.length = torMsgSize) :
    handleFdCommon session true buffer (encryptLink (some session.tlsLastKey) c) =
      some (decryptOnion session.onionKey c,
        encryptLink (some session.tlsNextKey) (decryptOnion session.onionKey c)) := by
  have hrecv := recvTorBuffer_of_client session.tlsLastKey session.onionKey buffer hc
  simp only [handleFdCommon, if_true, hrecv]
  rfl

/-- A relay in the middle hands a cell back with its layer. -/
theorem handleFdCommon_of_next (session : SessionKeys) (buffer : List UInt8) {c : List UInt8}
    (hc : c.length = torMsgSize) :
    handleFdCommon session false buffer (encryptLink (some session.tlsNextKey) c) =
      some (c, encryptLink (some session.tlsLastKey) (encryptOnion session.onionKey c)) := by
  have hrecv := recvTorBuffer_of_next session.tlsNextKey session.onionKey buffer hc
  simp only [handleFdCommon, Bool.false_eq_true, if_false, hrecv]
  rfl

/-- On the way out every relay takes off its layer. By induction on the relays. -/
theorem forward_encryptLink (hop : Hop) (hops : List Hop) {c : List UInt8}
    (hc : c.length = torMsgSize) :
    forward hop hops (encryptLink (some hop.linkKey) c) =
      some (unwrap decryptOnion (onionKeys hop hops) c) := by
  induction hops generalizing hop c with
  | nil => exact recvTorBuffer_of_client hop.linkKey hop.onionKey hop.buffer hc
  | cons next hops ih =>
    have hfd := handleFdCommon_of_client (hop.session next) hop.buffer hc
    have hrest := ih next (length_decryptOnion hop.onionKey hc)
    have hkeys : onionKeys hop (next :: hops) = hop.onionKey :: onionKeys next hops := rfl
    simp only [Hop.session] at hfd
    simp only [forward, Hop.session, hfd, Option.bind_eq_bind, Option.bind_some, hrest]
    rw [hkeys, unwrap_cons]

/-- On the way back every relay puts on its layer. By induction on the relays. -/
theorem backward_eq (hop : Hop) (hops : List Hop) {c : List UInt8} (hc : c.length = torMsgSize) :
    backward hop hops c =
      some (encryptLink (some hop.linkKey) (wrap encryptOnion (onionKeys hop hops) c)) := by
  induction hops generalizing hop with
  | nil => rfl
  | cons next hops ih =>
    have hlen := length_wrap_encryptOnion (onionKeys next hops) hc
    have hfd := handleFdCommon_of_next (hop.session next) hop.buffer hlen
    simp only [Hop.session] at hfd
    simp only [backward, ih next, Option.bind_eq_bind, Option.bind_some, Hop.session, hfd]
    rfl

theorem clientToExit_eq_some_iff (hop : Hop) (hops : List Hop) {c : List UInt8}
    (hc : c.length = torMsgSize) :
    clientToExit hop hops c = some c ↔ TailSurvives (onionKeys hop hops) (c.drop tailOffset) := by
  have hlen := length_wrap_encryptOnion (onionKeys hop hops) hc
  rw [clientToExit, Client.sendTorBuffer, forward_encryptLink hop hops hlen, Option.some_inj,
    unwrap_wrap_onion_eq_iff _ hc]

theorem exitToClient_eq_some_iff (hop : Hop) (hops : List Hop) (buffer : List UInt8)
    {c : List UInt8} (hc : c.length = torMsgSize) :
    exitToClient hop hops buffer c = some c ↔
      TailSurvives (onionKeys hop hops) (c.drop tailOffset) := by
  have hlen := length_wrap_encryptOnion (onionKeys hop hops) hc
  rw [exitToClient, backward_eq hop hops hc, Option.bind_eq_bind, Option.bind_some,
    clientRecvTorBuffer_of_link _ _ _ hlen, Option.some_inj, unwrap_wrap_onion_eq_iff _ hc]

/-- A cell comes through a circuit of any length unchanged, in either direction,
    exactly when its last 13 bytes survive the onion layers. -/
theorem transparent_iff_tailSurvives (hop : Hop) (hops : List Hop) (buffer c : List UInt8)
    (hc : c.length = torMsgSize) :
    (clientToExit hop hops c = some c ↔
        TailSurvives (onionKeys hop hops) (c.drop tailOffset)) ∧
      (exitToClient hop hops buffer c = some c ↔
        TailSurvives (onionKeys hop hops) (c.drop tailOffset)) :=
  ⟨clientToExit_eq_some_iff hop hops hc, exitToClient_eq_some_iff hop hops buffer hc⟩

/-- A relay with keys of zeros. -/
def zeroHop : Hop where
  onionKey := Block.ofBytes []
  linkKey := Block.ofBytes []
  buffer := []

/-- A cell of zeros. -/
def zeroCell : List UInt8 := List.replicate torMsgSize 0

theorem length_zeroCell : zeroCell.length = torMsgSize := List.length_replicate

theorem transparent_iff_tailSurvives_zeroHop :
    (clientToExit zeroHop [zeroHop] zeroCell = some zeroCell ↔
        TailSurvives (onionKeys zeroHop [zeroHop]) (zeroCell.drop tailOffset)) ∧
      (exitToClient zeroHop [zeroHop] [] zeroCell = some zeroCell ↔
        TailSurvives (onionKeys zeroHop [zeroHop]) (zeroCell.drop tailOffset)) :=
  transparent_iff_tailSurvives zeroHop [zeroHop] [] zeroCell length_zeroCell

theorem not_tailSurvives_zero :
    ¬ TailSurvives (onionKeys zeroHop []) (zeroCell.drop tailOffset) := by
  decide +kernel

/-- With one relay and keys of zeros, a cell of zeros arrives changed. -/
theorem not_transparent_zeroHop :
    clientToExit zeroHop [] zeroCell ≠ some zeroCell ∧
      exitToClient zeroHop [] [] zeroCell ≠ some zeroCell :=
  ⟨mt (clientToExit_eq_some_iff zeroHop [] length_zeroCell).1 not_tailSurvives_zero,
    mt (exitToClient_eq_some_iff zeroHop [] [] length_zeroCell).1 not_tailSurvives_zero⟩

end OnionRouter.Net
