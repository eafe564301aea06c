import OnionRouter.Crypto.Aes
import OnionRouter.Lib.Ecb
import OnionRouter.Lib.Memory

/-!
# Encrypting a buffer

`symmetric_encrypt` and `symmetric_decrypt` of `encryptions/source`. Both run a
block function along the buffer, sixteen bytes at a time, as long as more than
sixteen are left. The last block goes through a zeroed `aes_block128_t`, of which
only as many bytes are copied back as the buffer has left.

* `symmetricCrypt_append`: a buffer of `n` whole blocks and a last one of 1 to 16
  bytes is crypted block by block, the last one cut to its length.
* `symmetricDecrypt_symmetricEncrypt`: whole blocks are restored.
* `symmetricDecrypt_symmetricEncrypt_append`: of a last block shorter than 16
  bytes only what `truncated` gives comes back.
* `cryptsBlocks_symmetricAt`: in memory, whole blocks are crypted where they are, each
  of them once (`whole_blocks_restored`).
-/

namespace OnionRouter.Crypto

open Lib

/-- The constant `AES_BYTES`. -/
def aesBytes : ℕ := 16

/-- The loop of `symmetric_encrypt` and `symmetric_decrypt`, with its remainder
    path, on the bytes from `data + index` on. Every round takes 16 bytes away,
    so that a fuel above their number never runs out. -/
def symmetricLoop (crypt : Block → Block) : ℕ → List UInt8 → List UInt8
  | 0, data => data
  | fuel + 1, data =>
    if aesBytes < data.length then
      (crypt (.ofBytes (data.take aesBytes))).toBytes ++
        symmetricLoop crypt fuel (data.drop aesBytes)
    else
      -- `uint16_t remainder = length - index`
      let remainder := data.length % 65536
      if remainder = 0 then data
      else
        let aesData := data.take remainder ++ List.replicate (aesBytes - remainder) 0
        (crypt (.ofBytes aesData)).toBytes.take remainder ++ data.drop remainder

theorem length_symmetricLoop (crypt : Block → Block) (fuel : ℕ) (data : List UInt8) :
    (symmetricLoop crypt fuel data).length = data.length := by
  induction fuel generalizing data with
  | zero => rfl
  | succ fuel ih =>
    have h16 : aesBytes = 16 := rfl
    by_cases hmore : aesBytes < data.length
    · rw [symmetricLoop, if_pos hmore, List.length_append, ih, List.length_drop,
        Block.length_toBytes]
      omega
    · simp only [symmetricLoop, if_neg hmore]
      split
      · rfl
      · rw [List.length_append, List.length_take, List.length_drop, Block.length_toBytes]
        omega

/-- Running a block function along a buffer. -/
def symmetricCrypt (crypt : Block → Block) (data : List UInt8) : List UInt8 :=
  symmetricLoop crypt (data.length + 1) data

/-- `symmetric_encrypt`, under the key's `symmetric_key`. -/
def symmetricEncrypt (key : Block) (data : List UInt8) : List UInt8 :=
  symmetricCrypt (aesEncrypt128 · key) data

/-- `symmetric_decrypt`, under the key's `symmetric_key`. -/
def symmetricDecrypt (key : Block) (data : List UInt8) : List UInt8 :=
  symmetricCrypt (aesDecrypt128 · key) data

/-! ## Block by block -/

/-- A block function on 16 bytes. -/
def onBytes (crypt : Block → Block) (l : List UInt8) : List UInt8 :=
  (crypt (.ofBytes l)).toBytes

theorem length_onBytes (crypt : Block → Block) (l : List UInt8) :
    (onBytes crypt l).length = aesBytes := rfl

theorem onBytes_onBytes {enc dec : Block → Block} (h : ∀ b, dec (enc b) = b) {l : List UInt8}
    (hl : l.length = aesBytes) : onBytes dec (onBytes enc l) = l := by
  rw [onBytes, onBytes, Block.ofBytes_toBytes, h, Block.toBytes_ofBytes hl]

theorem symmetricLoop_short (crypt : Block → Block) (fuel : ℕ) {t : List UInt8} (ht : t ≠ [])
    (hlen : t.length ≤ aesBytes) :
    symmetricLoop crypt (fuel + 1) t = truncated aesBytes 0 (onBytes crypt) t := by
  have hpos := List.length_pos_of_ne_nil ht
  have hlen' : t.length ≤ 16 := hlen
  have hmod : t.length % 65536 = t.length := Nat.mod_eq_of_lt (by omega)
  simp only [symmetricLoop, hmod, Nat.not_lt.2 hlen, hpos.ne', if_false, List.take_length,
    List.drop_length, List.append_nil]
  rfl

/-- The loop crypts the whole blocks and leaves the last one, whole or not, to
    the remainder path. By induction on the blocks. -/
theorem symmetricLoop_append (crypt : Block → Block) (n fuel : ℕ) (hfuel : n < fuel)
    {b t : List UInt8} (hb : b.length = aesBytes * n) (ht : t ≠ []) (hlen : t.length ≤ aesBytes) :
    symmetricLoop crypt fuel (b ++ t) =
      mapBlocks aesBytes (onBytes crypt) n b ++ truncated aesBytes 0 (onBytes crypt) t := by
  induction n generalizing fuel b with
  | zero =>
    obtain ⟨fuel, rfl⟩ := Nat.exists_eq_succ_of_ne_zero hfuel.ne'
    rw [List.length_eq_zero_iff.1 hb, List.nil_append, symmetricLoop_short crypt fuel ht hlen]
    rfl
  | succ n ih =>
    obtain ⟨fuel, rfl⟩ := Nat.exists_eq_succ_of_ne_zero (Nat.ne_of_gt (Nat.zero_lt_of_lt hfuel))
    have hpos := List.length_pos_of_ne_nil ht
    rw [Nat.mul_succ] at hb
    have htake : (b ++ t).take aesBytes = b.take aesBytes :=
      List.take_append_of_le_length (by omega)
    have hdrop : (b ++ t).drop aesBytes = b.drop aesBytes ++ t :=
      List.drop_append_of_le_length (by omega)
    have hmore : aesBytes < (b ++ t).length := by rw [List.length_append]; omega
    rw [symmetricLoop, if_pos hmore, htake, hdrop,
      ih fuel (by omega) (by rw [List.length_drop]; omega), mapBlocks, List.append_assoc]
    rfl

/-- A buffer of whole blocks and a last one is crypted block by block, the last
    one cut to its length. -/
theorem symmetricCrypt_append (crypt : Block → Block) (n : ℕ) {b t : List UInt8}
    (hb : b.length = aesBytes * n) (ht : t ≠ []) (hlen : t.length ≤ aesBytes) :
    symmetricCrypt crypt (b ++ t) =
      mapBlocks aesBytes (onBytes crypt) n b ++ truncated aesBytes 0 (onBytes crypt) t := by
  refine symmetricLoop_append crypt n _ ?_ hb ht hlen
  have h16 : aesBytes = 16 := rfl
  rw [List.length_append, hb, h16]
  omega

/-- Crypting keeps the length. -/
theorem length_symmetricCrypt (crypt : Block → Block) (data : List UInt8) :
    (symmetricCrypt crypt data).length = data.length :=
  length_symmetricLoop crypt _ data

theorem length_symmetricEncrypt (key : Block) (data : List UInt8) :
    (symmetricEncrypt key data).length = data.length :=
  length_symmetricCrypt _ data

theorem length_symmetricDecrypt (key : Block) (data : List UInt8) :
    (symmetricDecrypt key data).length = data.length :=
  length_symmetricCrypt _ data

/-! ## Decrypting what was encrypted -/

/-- Encrypting and decrypting a buffer with a last, partial block: the whole
    blocks come back, the last one goes through `truncated` twice. -/
theorem symmetricDecrypt_symmetricEncrypt_append (key : Block) (n : ℕ) {b t : List UInt8}
    (hb : b.length = aesBytes * n) (ht : t ≠ []) (hlen : t.length ≤ aesBytes) :
    symmetricDecrypt key (symmetricEncrypt key (b ++ t)) =
      b ++ truncated aesBytes 0 (onBytes (aesDecrypt128 · key))
        (truncated aesBytes 0 (onBytes (aesEncrypt128 · key)) t) := by
  have hf (crypt) : ∀ l : List UInt8, l.length = aesBytes → (onBytes crypt l).length = aesBytes :=
    fun l _ => length_onBytes crypt l
  have htlen := length_truncated (z := 0) (hf (aesEncrypt128 · key)) hlen
  rw [symmetricEncrypt, symmetricCrypt_append _ n hb ht hlen, symmetricDecrypt,
    symmetricCrypt_append _ n (length_mapBlocks (hf _) n hb)
      (List.ne_nil_of_length_pos (htlen ▸ List.length_pos_of_ne_nil ht)) (htlen ▸ hlen),
    mapBlocks_mapBlocks (hf _) (fun l hl => onBytes_onBytes
      (fun b => aesDecrypt128_aesEncrypt128 b key) hl) n hb]

/-- A buffer of whole blocks is restored. -/
theorem symmetricDecrypt_symmetricEncrypt (key : Block) {data : List UInt8}
    (hdata : data.length % aesBytes = 0) : symmetricDecrypt key (symmetricEncrypt key data) = data := by
  by_cases hnil : data = []
  · subst hnil; rfl
  -- The last block is a whole one, and goes through the remainder path all the same.
  obtain ⟨n, hn⟩ : ∃ n, data.length = aesBytes * n + aesBytes := by
    have hpos := List.length_pos_of_ne_nil hnil
    have h16 : aesBytes = 16 := rfl
    rw [h16] at hdata ⊢
    exact ⟨data.length / 16 - 1, by omega⟩
  have hb : (data.take (aesBytes * n)).length = aesBytes * n := by rw [List.length_take]; omega
  have ht : (data.drop (aesBytes * n)).length = aesBytes := by rw [List.length_drop]; omega
  have hne : data.drop (aesBytes * n) ≠ [] := List.ne_nil_of_length_pos (by rw [ht]; decide)
  have happ := symmetricDecrypt_symmetricEncrypt_append key n hb hne ht.le
  have hf (crypt) : ∀ l : List UInt8, l.length = aesBytes → (onBytes crypt l).length = aesBytes :=
    fun l _ => length_onBytes crypt l
  rwa [truncated_of_length_eq (hf _) ht, truncated_of_length_eq (hf _) (hf _ _ ht),
    onBytes_onBytes (fun b => aesDecrypt128_aesEncrypt128 b key) ht, List.take_append_drop] at happ

/-! ## In memory

The same loop with its index, a number of 64 bits, on the memory from `data` on. -/

open Memory

/-- The memory after a call, and the ranges that it wrote, by their start and length. -/
structure Crypted where
  memory : Memory UInt8
  touched : List (ℕ × ℕ)

/-- A round of the loop, or the remainder path: `n` bytes at `index` go through a zeroed
    block. -/
def cryptRange (crypt : Block → Block) (m : Memory UInt8) (index n : ℕ) : Memory UInt8 :=
  let aesData := m.read index n ++ List.replicate (aesBytes - n) 0
  m.write index ((onBytes crypt aesData).take n)

/-- The loop of `symmetric_encrypt` and `symmetric_decrypt`, from `index` on. -/
def symmetricAt (crypt : Block → Block) (length : ℕ) : ℕ → ℕ → Memory UInt8 → Crypted
  | 0, _, m => ⟨m, []⟩
  | fuel + 1, index, m =>
    if (index + aesBytes) % 2 ^ 64 < length then
      let rest := symmetricAt crypt length fuel ((index + aesBytes) % 2 ^ 64)
        (cryptRange crypt m index aesBytes)
      ⟨rest.memory, (index, aesBytes) :: rest.touched⟩
    else
      -- `uint16_t remainder = length - index`
      let remainder := (length - index) % 65536
      if remainder = 0 then ⟨m, []⟩
      else ⟨cryptRange crypt m index remainder, [(index, remainder)]⟩

/-- `symmetric_encrypt`, on the `length` bytes from `data` on. -/
def symmetricEncryptAt (key : Block) (length : ℕ) (m : Memory UInt8) : Crypted :=
  symmetricAt (aesEncrypt128 · key) length (length + 1) 0 m

/-- `symmetric_decrypt`, on the `length` bytes from `data` on. -/
def symmetricDecryptAt (key : Block) (length : ℕ) (m : Memory UInt8) : Crypted :=
  symmetricAt (aesDecrypt128 · key) length (length + 1) 0 m

theorem cryptRange_aesBytes (crypt : Block → Block) (m : Memory UInt8) (index : ℕ) :
    cryptRange crypt m index aesBytes =
      m.write index (crypt (.ofBytes (m.read index aesBytes))).toBytes := by
  rw [cryptRange, Nat.sub_self, List.replicate_zero, List.append_nil,
    List.take_of_length_le (length_onBytes crypt _).le]
  rfl

theorem length_take_onBytes (crypt : Block → Block) (l : List UInt8) {n : ℕ} (hn : n ≤ aesBytes) :
    ((onBytes crypt l).take n).length = n := by
  rw [List.length_take, length_onBytes, Nat.min_eq_left hn]

theorem read_cryptRange (crypt : Block → Block) (m : Memory UInt8) (index : ℕ) {n : ℕ}
    (hn : n ≤ aesBytes) : (cryptRange crypt m index n).read index n =
      (onBytes crypt (m.read index n ++ List.replicate (aesBytes - n) 0)).take n :=
  m.read_write_of_length_eq _ _ (length_take_onBytes crypt _ hn)

theorem cryptRange_of_lt (crypt : Block → Block) (m : Memory UInt8) {index a : ℕ} (n : ℕ)
    (ha : a < index) : cryptRange crypt m index n a = m a := m.write_of_lt _ _ ha

theorem cryptRange_of_ge (crypt : Block → Block) (m : Memory UInt8) {index n a : ℕ}
    (hn : n ≤ aesBytes) (ha : index + n ≤ a) : cryptRange crypt m index n a = m a :=
  m.write_of_ge _ _ (by rwa [length_take_onBytes crypt _ hn])

/-- In memory the loop does what it does to the list of the bytes. By induction on the
    fuel. -/
theorem read_symmetricAt (crypt : Block → Block) {length : ℕ} (hlength : length + aesBytes < 2 ^ 64)
    (fuel : ℕ) {index : ℕ} (hindex : index ≤ length) (m : Memory UInt8) :
    (symmetricAt crypt length fuel index m).memory.read index (length - index) =
        symmetricLoop crypt fuel (m.read index (length - index)) ∧
      ∀ a < index, (symmetricAt crypt length fuel index m).memory a = m a := by
  have h16 : aesBytes = 16 := rfl
  induction fuel generalizing index m with
  | zero => exact ⟨rfl, fun _ _ => rfl⟩
  | succ fuel ih =>
    -- The sum of the index cannot wrap, since `length + 16` fits into 64 bits.
    have hmod : (index + aesBytes) % 2 ^ 64 < length ↔ index + aesBytes < length := by omega
    have hdata : (m.read index (length - index)).length = length - index := m.length_read _ _
    by_cases hmore : index + aesBytes < length
    · have hsplit : length - index = aesBytes + (length - (index + aesBytes)) := by omega
      obtain ⟨hread, hframe⟩ := ih hmore.le (cryptRange crypt m index aesBytes)
      rw [symmetricAt, if_pos (hmod.2 hmore), Nat.mod_eq_of_lt (by omega), symmetricLoop,
        if_pos (by omega)]
      refine ⟨?_, fun a ha => ?_⟩
      · -- The first round is the one to write the first block, and leaves the rest alone.
        have hfirst : (m.read index (length - index)).take aesBytes = m.read index aesBytes := by
          rw [hsplit, read_add]
          exact List.take_left' (m.length_read _ _)
        have hrest : (m.read index (length - index)).drop aesBytes =
            m.read (index + aesBytes) (length - (index + aesBytes)) := by
          rw [hsplit, read_add]
          exact List.drop_left' (m.length_read _ _)
        have hhead : (symmetricAt crypt length fuel (index + aesBytes)
            (cryptRange crypt m index aesBytes)).memory.read index aesBytes =
              (crypt (.ofBytes (m.read index aesBytes))).toBytes := by
          rw [read_congr _ (cryptRange crypt m index aesBytes) index fun b hb =>
            hframe _ (Nat.add_lt_add_left hb index), cryptRange_aesBytes]
          exact m.read_write_of_length_eq _ _ (Block.length_toBytes _)
        have htail : (cryptRange crypt m index aesBytes).read (index + aesBytes)
            (length - (index + aesBytes)) =
              m.read (index + aesBytes) (length - (index + aesBytes)) :=
          read_congr _ _ _ fun b _ => cryptRange_of_ge crypt m le_rfl (Nat.le_add_right _ b)
        rw [hfirst, hrest, hsplit, read_add, hread, hhead, htail]
      · exact (hframe a (by omega)).trans (cryptRange_of_lt crypt m _ ha)
    · -- The remainder path; at most one block is left, so its 16 bits do not matter.
      have hle : length - index ≤ aesBytes := by omega
      have hremainder : (length - index) % 65536 = length - index := Nat.mod_eq_of_lt (by omega)
      simp only [symmetricAt, if_neg (mt hmod.1 hmore), symmetricLoop, hdata, hremainder,
        if_neg (Nat.not_lt.2 hle)]
      by_cases hzero : length - index = 0
      · rw [if_pos hzero, if_pos hzero]
        exact ⟨rfl, fun _ _ => rfl⟩
      · rw [if_neg hzero, if_neg hzero, List.take_of_length_le hdata.le,
          List.drop_eq_nil_of_le hdata.le, List.append_nil]
        exact ⟨read_cryptRange crypt m index hle, fun a ha => cryptRange_of_lt crypt m _ ha⟩

/-- The functions in memory are the ones on lists. -/
theorem read_symmetricEncryptAt (key : Block) {length : ℕ} (hlength : length + aesBytes < 2 ^ 64)
    (m : Memory UInt8) : (symmetricEncryptAt key length m).memory.read 0 length =
      symmetricEncrypt key (m.read 0 length) := by
  rw [symmetricEncrypt, symmetricCrypt, length_read]
  exact (read_symmetricAt _ hlength _ (Nat.zero_le _) m).1

theorem read_symmetricDecryptAt (key : Block) {length : ℕ} (hlength : length + aesBytes < 2 ^ 64)
    (m : Memory UInt8) : (symmetricDecryptAt key length m).memory.read 0 length =
      symmetricDecrypt key (m.read 0 length) := by
  rw [symmetricDecrypt, symmetricCrypt, length_read]
  exact (read_symmetricAt _ hlength _ (Nat.zero_le _) m).1

/-- The blocks from `i` on to the end, the block `n`, are crypted, in their order and each
    once, and nothing else changes. -/
structure CryptsBlocks (crypt : Block → Block) (i n : ℕ) (m : Memory UInt8) (result : Crypted) :
    Prop where
  blocks : ∀ j, i ≤ j → j < n → result.memory.read (aesBytes * j) aesBytes =
    (crypt (.ofBytes (m.read (aesBytes * j) aesBytes))).toBytes
  rest : ∀ a, a < aesBytes * i ∨ aesBytes * n ≤ a → result.memory a = m a
  touched : result.touched = (List.range' i (n - i)).map fun j => (aesBytes * j, aesBytes)

/-- One block, of which nothing is left of the others. -/
theorem cryptsBlocks_cryptRange (crypt : Block → Block) (i : ℕ) (m : Memory UInt8) :
    CryptsBlocks crypt i (i + 1) m
      ⟨cryptRange crypt m (aesBytes * i) aesBytes, [(aesBytes * i, aesBytes)]⟩ := by
  refine ⟨fun j hij hji => ?_, fun a ha => ?_, by simp⟩
  · obtain rfl := le_antisymm hij (Nat.le_of_lt_succ hji)
    dsimp only
    rw [cryptRange_aesBytes]
    exact m.read_write_of_length_eq _ _ (Block.length_toBytes _)
  · rcases ha with ha | ha
    · exact cryptRange_of_lt crypt m _ ha
    · exact cryptRange_of_ge crypt m le_rfl ha

/-- A block, and then the ones behind it. -/
theorem CryptsBlocks.cons {crypt : Block → Block} {i n : ℕ} {m : Memory UInt8} {result : Crypted}
    (hin : i < n)
    (h : CryptsBlocks crypt (i + 1) n (cryptRange crypt m (aesBytes * i) aesBytes) result) :
    CryptsBlocks crypt i n m ⟨result.memory, (aesBytes * i, aesBytes) :: result.touched⟩ := by
  have hfirst := cryptsBlocks_cryptRange crypt i m
  have hstart : aesBytes * i ≤ aesBytes * (i + 1) := Nat.mul_le_mul_left _ (Nat.le_succ i)
  have hend : aesBytes * (i + 1) ≤ aesBytes * n := Nat.mul_le_mul_left _ hin
  refine ⟨fun j hij hjn => ?_, fun a ha => ?_, ?_⟩
  · rcases Nat.eq_or_lt_of_le hij with rfl | hlt
    · -- The first block stays as it is when the ones behind it are crypted.
      rw [← hfirst.blocks i le_rfl (Nat.lt_succ_self i)]
      refine read_congr _ _ _ fun b hb => h.rest _ (.inl ?_)
      rw [Nat.mul_succ]
      exact Nat.add_lt_add_left hb _
    · refine (h.blocks j hlt hjn).trans ?_
      congr 3
      have hle : aesBytes * (i + 1) ≤ aesBytes * j := Nat.mul_le_mul_left _ hlt
      exact read_congr _ _ _ fun b _ => hfirst.rest _ (.inr (Nat.le_add_right_of_le hle))
  · rcases ha with ha | ha
    · exact (h.rest a (.inl (ha.trans_le hstart))).trans (hfirst.rest a (.inl ha))
    · exact (h.rest a (.inr ha)).trans (hfirst.rest a (.inr (hend.trans ha)))
  · rw [h.touched, show n - i = (n - (i + 1)) + 1 by omega, List.range'_succ, List.map_cons]

/-- The loop crypts all blocks but the last, which goes through the remainder path. By
    induction on the fuel. -/
theorem cryptsBlocks_symmetricAt (crypt : Block → Block) {n : ℕ} (hn : aesBytes * n < 2 ^ 64)
    {fuel i : ℕ} (hin : i < n) (hfuel : n ≤ i + fuel) (m : Memory UInt8) :
    CryptsBlocks crypt i n m (symmetricAt crypt (aesBytes * n) fuel (aesBytes * i) m) := by
  induction fuel generalizing i m with
  | zero => omega
  | succ fuel ih =>
    by_cases hmore : i + 1 < n
    · have hlt : aesBytes * (i + 1) < aesBytes * n := Nat.mul_lt_mul_of_pos_left hmore (by decide)
      rw [symmetricAt, ← Nat.mul_succ, Nat.mod_eq_of_lt (hlt.trans hn), if_pos hlt]
      exact .cons hin (ih hmore (by omega) _)
    · obtain rfl : n = i + 1 := by omega
      have hremainder : (aesBytes * (i + 1) - aesBytes * i) % 65536 = aesBytes := by
        rw [Nat.mul_succ, Nat.add_sub_cancel_left]
        rfl
      rw [symmetricAt, ← Nat.mul_succ, Nat.mod_eq_of_lt hn, if_neg (lt_irrefl _)]
      simp only [hremainder, if_neg (show aesBytes ≠ 0 by decide)]
      exact cryptsBlocks_cryptRange crypt i m

/-- A buffer of whole blocks, from its start. -/
theorem cryptsBlocks_zero (crypt : Block → Block) {length : ℕ} (hlength : length < 2 ^ 64)
    (hblocks : length % aesBytes = 0) (m : Memory UInt8) :
    CryptsBlocks crypt 0 (length / aesBytes) m (symmetricAt crypt length (length + 1) 0 m) := by
  obtain ⟨n, rfl⟩ := Nat.dvd_of_mod_eq_zero hblocks
  rw [Nat.mul_div_cancel_left n (by decide)]
  rcases Nat.eq_zero_or_pos n with rfl | hn
  · exact ⟨fun j _ hj => absurd hj (Nat.not_lt_zero j), fun _ _ => rfl, rfl⟩
  · have hle : n ≤ aesBytes * n := Nat.le_mul_of_pos_left n (by decide)
    exact cryptsBlocks_symmetricAt crypt hlength hn (by omega) m

/-- Crypting the blocks back restores the memory. -/
theorem CryptsBlocks.restored {enc dec : Block → Block} (hdec : ∀ b, dec (enc b) = b) {n : ℕ}
    {m : Memory UInt8} {result result' : Crypted} (h : CryptsBlocks enc 0 n m result)
    (h' : CryptsBlocks dec 0 n result.memory result') : result'.memory = m := by
  funext a
  rcases Nat.lt_or_ge a (aesBytes * n) with ha | ha
  · have hj : a / aesBytes < n := Nat.div_lt_of_lt_mul ha
    have hblock := h'.blocks _ (Nat.zero_le _) hj
    rw [h.blocks _ (Nat.zero_le _) hj, Block.ofBytes_toBytes, hdec,
      Block.toBytes_ofBytes (length_read m _ aesBytes)] at hblock
    have hbyte := apply_of_read_eq _ _ _ hblock (Nat.mod_lt a (show 0 < aesBytes by decide))
    rwa [Nat.div_add_mod] at hbyte
  · rw [h'.rest a (.inr ha), h.rest a (.inr ha)]

/-- A buffer of whole blocks: both functions crypt every block, once, and each restores what
    the other did. -/
theorem whole_blocks_restored (key : Block) {length : ℕ} (hlength : length < 2 ^ 64)
    (hblocks : length % aesBytes = 0) (m : Memory UInt8) :
    CryptsBlocks (aesEncrypt128 · key) 0 (length / aesBytes) m (symmetricEncryptAt key length m) ∧
      CryptsBlocks (aesDecrypt128 · key) 0 (length / aesBytes) m
        (symmetricDecryptAt key length m) ∧
      (symmetricDecryptAt key length (symmetricEncryptAt key length m).memory).memory = m ∧
      (symmetricEncryptAt key length (symmetricDecryptAt key length m).memory).memory = m := by
  have henc := cryptsBlocks_zero (aesEncrypt128 · key) hlength hblocks
  have hdec := cryptsBlocks_zero (aesDecrypt128 · key) hlength hblocks
  exact ⟨henc m, hdec m, (henc m).restored (aesDecrypt128_aesEncrypt128 · key) (hdec _),
    (hdec m).restored (aesEncrypt128_aesDecrypt128 · key) (henc _)⟩

/-- Two blocks of zeros. -/
theorem whole_blocks_restored_twoBlocks :
    let key := Block.ofBytes (List.replicate 16 0)
    CryptsBlocks (aesEncrypt128 · key) 0 2 (fun _ => 0) (symmetricEncryptAt key 32 fun _ => 0) ∧
      CryptsBlocks (aesDecrypt128 · key) 0 2 (fun _ => 0) (symmetricDecryptAt key 32 fun _ => 0) ∧
      (symmetricDecryptAt key 32 (symmetricEncryptAt key 32 fun _ => 0).memory).memory =
        (fun _ => 0) ∧
      (symmetricEncryptAt key 32 (symmetricDecryptAt key 32 fun _ => 0).memory).memory =
        fun _ => 0 :=
  @whole_blocks_restored _ 32 (by decide) (by decide) _

end OnionRouter.Crypto
