import OnionRouter.Lib.Bytes

/-!
# AES-128

The block cipher of `encryptions/aes`: the byte tables, the four layers of a
round and their inverses, the key schedule on little-endian words, and the two
block functions. A block is an `aes_block128_t`, four columns of four bytes.

* `aes128_inverse`: under every key, decrypting and encrypting are inverse. Each layer
  is undone by its inverse. Only the columns need an argument, one side multiplying
  with `mul2` and `mul3`, the other with the shift-and-add loop `mul`: both sides are
  additive, so that it is enough to look at columns with one byte that is not zero
  (`invMixColumn_mixColumn`).
-/

namespace OnionRouter.Crypto

/-! ## Byte tables -/

/-- The table `sbox`, in its 16 rows of 16. -/
def sboxTable : List (List UInt8) :=
  [[0x63, 0x7C, 0x77, 0x7B, 0xF2, 0x6B, 0x6F, 0xC5, 0x30, 0x01, 0x67, 0x2B, 0xFE, 0xD7, 0xAB, 0x76],
   [0xCA, 0x82, 0xC9, 0x7D, 0xFA, 0x59, 0x47, 0xF0, 0xAD, 0xD4, 0xA2, 0xAF, 0x9C, 0xA4, 0x72, 0xC0],
   [0xB7, 0xFD, 0x93, 0x26, 0x36, 0x3F, 0xF7, 0xCC, 0x34, 0xA5, 0xE5, 0xF1, 0x71, 0xD8, 0x31, 0x15],
   [0x04, 0xC7, 0x23, 0xC3, 0x18, 0x96, 0x05, 0x9A, 0x07, 0x12, 0x80, 0xE2, 0xEB, 0x27, 0xB2, 0x75],
   [0x09, 0x83, 0x2C, 0x1A, 0x1B, 0x6E, 0x5A, 0xA0, 0x52, 0x3B, 0xD6, 0xB3, 0x29, 0xE3, 0x2F, 0x84],
   [0x53, 0xD1, 0x00, 0xED, 0x20, 0xFC, 0xB1, 0x5B, 0x6A, 0xCB, 0xBE, 0x39, 0x4A, 0x4C, 0x58, 0xCF],
   [0xD0, 0xEF, 0xAA, 0xFB, 0x43, 0x4D, 0x33, 0x85, 0x45, 0xF9, 0x02, 0x7F, 0x50, 0x3C, 0x9F, 0xA8],
   [0x51, 0xA3, 0x40, 0x8F, 0x92, 0x9D, 0x38, 0xF5, 0xBC, 0xB6, 0xDA, 0x21, 0x10, 0xFF, 0xF3, 0xD2],
   [0xCD, 0x0C, 0x13, 0xEC, 0x5F, 0x97, 0x44, 0x17, 0xC4, 0xA7, 0x7E, 0x3D, 0x64, 0x5D, 0x19, 0x73],
   [0x60, 0x81, 0x4F, 0xDC, 0x22, 0x2A, 0x90, 0x88, 0x46, 0xEE, 0xB8, 0x14, 0xDE, 0x5E, 0x0B, 0xDB],
   [0xE0, 0x32, 0x3A, 0x0A, 0x49, 0x06, 0x24, 0x5C, 0xC2, 0xD3, 0xAC, 0x62, 0x91, 0x95, 0xE4, 0x79],
   [0xE7, 0xC8, 0x37, 0x6D, 0x8D, 0xD5, 0x4E, 0xA9, 0x6C, 0x56, 0xF4, 0xEA, 0x65, 0x7A, 0xAE, 0x08],
   [0xBA, 0x78, 0x25, 0x2E, 0x1C, 0xA6, 0xB4, 0xC6, 0xE8, 0xDD, 0x74, 0x1F, 0x4B, 0xBD, 0x8B, 0x8A],
   [0x70, 0x3E, 0xB5, 0x66, 0x48, 0x03, 0xF6, 0x0E, 0x61, 0x35, 0x57, 0xB9, 0x86, 0xC1, 0x1D, 0x9E],
   [0xE1, 0xF8, 0x98, 0x11, 0x69, 0xD9, 0x8E, 0x94, 0x9B, 0x1E, 0x87, 0xE9, 0xCE, 0x55, 0x28, 0xDF],
   [0x8C, 0xA1, 0x89, 0x0D, 0xBF, 0xE6, 0x42, 0x68, 0x41, 0x99, 0x2D, 0x0F, 0xB0, 0x54, 0xBB, 0x16]]

/-- The table `inv_sbox`, in its 16 rows of 16. -/
def invSboxTable : List (List UInt8) :=
  [[0x52, 0x09, 0x6A, 0xD5, 0x30, 0x36, 0xA5, 0x38, 0xBF, 0x40, 0xA3, 0x9E, 0x81, 0xF3, 0xD7, 0xFB],
   [0x7C, 0xE3, 0x39, 0x82, 0x9B, 0x2F, 0xFF, 0x87, 0x34, 0x8E, 0x43, 0x44, 0xC4, 0xDE, 0xE9, 0xCB],
   [0x54, 0x7B, 0x94, 0x32, 0xA6, 0xC2, 0x23, 0x3D, 0xEE, 0x4C, 0x95, 0x0B, 0x42, 0xFA, 0xC3, 0x4E],
   [0x08, 0x2E, 0xA1, 0x66, 0x28, 0xD9, 0x24, 0xB2, 0x76, 0x5B, 0xA2, 0x49, 0x6D, 0x8B, 0xD1, 0x25],
   [0x72, 0xF8, 0xF6, 0x64, 0x86, 0x68, 0x98, 0x16, 0xD4, 0xA4, 0x5C, 0xCC, 0x5D, 0x65, 0xB6, 0x92],
   [0x6C, 0x70, 0x48, 0x50, 0xFD, 0xED, 0xB9, 0xDA, 0x5E, 0x15, 0x46, 0x57, 0xA7, 0x8D, 0x9D, 0x84],
   [0x90, 0xD8, 0xAB, 0x00, 0x8C, 0xBC, 0xD3, 0x0A, 0xF7, 0xE4, 0x58, 0x05, 0xB8, 0xB3, 0x45, 0x06],
   [0xD0, 0x2C, 0x1E, 0x8F, 0xCA, 0x3F, 0x0F, 0x02, 0xC1, 0xAF, 0xBD, 0x03, 0x01, 0x13, 0x8A, 0x6B],
   [0x3A, 0x91, 0x11, 0x41, 0x4F, 0x67, 0xDC, 0xEA, 0x97, 0xF2, 0xCF, 0xCE, 0xF0, 0xB4, 0xE6, 0x73],
   [0x96, 0xAC, 0x74, 0x22, 0xE7, 0xAD, 0x35, 0x85, 0xE2, 0xF9, 0x37, 0xE8, 0x1C, 0x75, 0xDF, 0x6E],
   [0x47, 0xF1, 0x1A, 0x71, 0x1D, 0x29, 0xC5, 0x89, 0x6F, 0xB7, 0x62, 0x0E, 0xAA, 0x18, 0xBE, 0x1B],
   [0xFC, 0x56, 0x3E, 0x4B, 0xC6, 0xD2, 0x79, 0x20, 0x9A, 0xDB, 0xC0, 0xFE, 0x78, 0xCD, 0x5A, 0xF4],
   [0x1F, 0xDD, 0xA8, 0x33, 0x88, 0x07, 0xC7, 0x31, 0xB1, 0x12, 0x10, 0x59, 0x27, 0x80, 0xEC, 0x5F],
   [0x60, 0x51, 0x7F, 0xA9, 0x19, 0xB5, 0x4A, 0x0D, 0x2D, 0xE5, 0x7A, 0x9F, 0x93, 0xC9, 0x9C, 0xEF],
   [0xA0, 0xE0, 0x3B, 0x4D, 0xAE, 0x2A, 0xF5, 0xB0, 0xC8, 0xEB, 0xBB, 0x3C, 0x83, 0x53, 0x99, 0x61],
   [0x17, 0x2B, 0x04, 0x7E, 0xBA, 0x77, 0xD6, 0x26, 0xE1, 0x69, 0x14, 0x63, 0x55, 0x21, 0x0C, 0x7D]]

/-- The entry `x` of a table of 16 rows of 16. -/
def lookup (table : List (List UInt8)) (x : UInt8) : UInt8 :=
  (table.getD (x.toNat / 16) []).getD (x.toNat % 16) 0

/-- `sbox[x]`. -/
def sbox (x : UInt8) : UInt8 := lookup sboxTable x

/-- `inv_sbox[x]`. -/
def invSbox (x : UInt8) : UInt8 := lookup invSboxTable x

/-- The two tables are inverse to each other. -/
theorem invSbox_sbox : ∀ x, invSbox (sbox x) = x := Lib.forall_byte (by decide +kernel)

theorem sbox_invSbox : ∀ x, sbox (invSbox x) = x := Lib.forall_byte (by decide +kernel)

/-! ## Blocks -/

/-- A column of a block, from row 0 to row 3. -/
structure Column where
  r0 : UInt8
  r1 : UInt8
  r2 : UInt8
  r3 : UInt8
  deriving DecidableEq, Repr

/-- An `aes_block128_t`: `bytes[col][row]`, column by column. -/
structure Block where
  c0 : Column
  c1 : Column
  c2 : Column
  c3 : Column
  deriving DecidableEq, Repr

/-- Applying a function to every byte of a column. -/
def Column.map (f : UInt8 → UInt8) (c : Column) : Column :=
  ⟨f c.r0, f c.r1, f c.r2, f c.r3⟩

/-- The bytewise sum of two columns. -/
def Column.xor (a b : Column) : Column :=
  ⟨a.r0 ^^^ b.r0, a.r1 ^^^ b.r1, a.r2 ^^^ b.r2, a.r3 ^^^ b.r3⟩

/-- Applying a function to every byte of a block. -/
def Block.map (f : UInt8 → UInt8) (b : Block) : Block :=
  ⟨b.c0.map f, b.c1.map f, b.c2.map f, b.c3.map f⟩

/-- Applying a function to every column of a block. -/
def Block.mapColumns (f : Column → Column) (b : Block) : Block :=
  ⟨f b.c0, f b.c1, f b.c2, f b.c3⟩

/-- The 16 bytes of a block in memory order. -/
def Block.toBytes (b : Block) : List UInt8 :=
  [b.c0.r0, b.c0.r1, b.c0.r2, b.c0.r3, b.c1.r0, b.c1.r1, b.c1.r2, b.c1.r3,
   b.c2.r0, b.c2.r1, b.c2.r2, b.c2.r3, b.c3.r0, b.c3.r1, b.c3.r2, b.c3.r3]

/-- The block that 16 bytes of memory make. -/
def Block.ofBytes (l : List UInt8) : Block :=
  ⟨⟨l.getD 0 0, l.getD 1 0, l.getD 2 0, l.getD 3 0⟩,
   ⟨l.getD 4 0, l.getD 5 0, l.getD 6 0, l.getD 7 0⟩,
   ⟨l.getD 8 0, l.getD 9 0, l.getD 10 0, l.getD 11 0⟩,
   ⟨l.getD 12 0, l.getD 13 0, l.getD 14 0, l.getD 15 0⟩⟩

@[simp] theorem Block.length_toBytes (b : Block) : b.toBytes.length = 16 := rfl

@[simp] theorem Block.ofBytes_toBytes (b : Block) : Block.ofBytes b.toBytes = b := rfl

theorem Block.toBytes_ofBytes {l : List UInt8} (h : l.length = 16) :
    (Block.ofBytes l).toBytes = l := by
  obtain ⟨a0, a1, a2, a3, a4, a5, a6, a7, a8, a9, a10, a11, a12, a13, a14, a15, rfl⟩ :
      ∃ a0 a1 a2 a3 a4 a5 a6 a7 a8 a9 a10 a11 a12 a13 a14 a15, l =
        [a0, a1, a2, a3, a4, a5, a6, a7, a8, a9, a10, a11, a12, a13, a14, a15] := by
    match l, h with
    | [a0, a1, a2, a3, a4, a5, a6, a7, a8, a9, a10, a11, a12, a13, a14, a15], _ =>
      exact ⟨a0, a1, a2, a3, a4, a5, a6, a7, a8, a9, a10, a11, a12, a13, a14, a15, rfl⟩
  rfl

/-! ## The layers of a round -/

/-- `xor_block128`. -/
def xorBlock128 (value operand : Block) : Block :=
  ⟨value.c0.xor operand.c0, value.c1.xor operand.c1, value.c2.xor operand.c2,
   value.c3.xor operand.c3⟩

/-- `sub_bytes_block128`. -/
def subBytesBlock128 (value : Block) : Block := value.map sbox

/-- `inv_sub_bytes_block128`. -/
def invSubBytesBlock128 (value : Block) : Block := value.map invSbox

/-- `shift_rows_block128`: row `r` moves left by `r`. -/
def shiftRowsBlock128 (v : Block) : Block :=
  ⟨⟨v.c0.r0, v.c1.r1, v.c2.r2, v.c3.r3⟩, ⟨v.c1.r0, v.c2.r1, v.c3.r2, v.c0.r3⟩,
   ⟨v.c2.r0, v.c3.r1, v.c0.r2, v.c1.r3⟩, ⟨v.c3.r0, v.c0.r1, v.c1.r2, v.c2.r3⟩⟩

/-- `inv_shift_rows_block128`: row `r` moves right by `r`. -/
def invShiftRowsBlock128 (v : Block) : Block :=
  ⟨⟨v.c0.r0, v.c3.r1, v.c2.r2, v.c1.r3⟩, ⟨v.c1.r0, v.c0.r1, v.c3.r2, v.c2.r3⟩,
   ⟨v.c2.r0, v.c1.r1, v.c0.r2, v.c3.r3⟩, ⟨v.c3.r0, v.c2.r1, v.c1.r2, v.c0.r3⟩⟩

/-- `mul2`: multiplication by 2 in GF(2^8). -/
def mul2 (x : UInt8) : UInt8 := (x <<< (1 : UInt8)) ^^^ ((x >>> (7 : UInt8)) * 0x1B)

/-- `mul3`: multiplication by 3 in GF(2^8). -/
def mul3 (x : UInt8) : UInt8 := mul2 x ^^^ x

/-- The body of `mix_columns_block128` for one column. -/
def mixColumn (c : Column) : Column :=
  ⟨mul2 c.r0 ^^^ mul3 c.r1 ^^^ c.r2 ^^^ c.r3, c.r0 ^^^ mul2 c.r1 ^^^ mul3 c.r2 ^^^ c.r3,
   c.r0 ^^^ c.r1 ^^^ mul2 c.r2 ^^^ mul3 c.r3, mul3 c.r0 ^^^ c.r1 ^^^ c.r2 ^^^ mul2 c.r3⟩

/-- `mix_columns_block128`. -/
def mixColumnsBlock128 (block : Block) : Block := block.mapColumns mixColumn

/-- The loop of `mul`, on `res`, `x` and `factor`. A factor has 8 bits, so it is
    zero after 8 rounds. -/
def mulLoop : ℕ → UInt8 → UInt8 → UInt8 → UInt8
  | 0, res, _, _ => res
  | fuel + 1, res, x, factor =>
    if factor = 0 then res
    else mulLoop fuel (if factor &&& 1 = 1 then res ^^^ x else res) (mul2 x) (factor >>> (1 : UInt8))

/-- `mul`: multiplication in GF(2^8), by shifting and adding. -/
def mul (x factor : UInt8) : UInt8 := mulLoop 8 0 x factor

/-- The body of `inv_mix_columns_block128` for one column. -/
def invMixColumn (c : Column) : Column :=
  ⟨mul c.r0 0x0E ^^^ mul c.r1 0x0B ^^^ mul c.r2 0x0D ^^^ mul c.r3 0x09,
   mul c.r0 0x09 ^^^ mul c.r1 0x0E ^^^ mul c.r2 0x0B ^^^ mul c.r3 0x0D,
   mul c.r0 0x0D ^^^ mul c.r1 0x09 ^^^ mul c.r2 0x0E ^^^ mul c.r3 0x0B,
   mul c.r0 0x0B ^^^ mul c.r1 0x0D ^^^ mul c.r2 0x09 ^^^ mul c.r3 0x0E⟩

/-- `inv_mix_columns_block128`. -/
def invMixColumnsBlock128 (block : Block) : Block := block.mapColumns invMixColumn

/-! ## The layers are undone by their inverses -/

theorem Column.xor_xor (a b : Column) : (a.xor b).xor b = a := by
  simp only [Column.xor, UInt8.xor_assoc, UInt8.xor_self, UInt8.xor_zero]

theorem xorBlock128_xorBlock128 (v k : Block) : xorBlock128 (xorBlock128 v k) k = v := by
  simp only [xorBlock128, Column.xor_xor]

theorem invSubBytes_subBytes (v : Block) : invSubBytesBlock128 (subBytesBlock128 v) = v := by
  simp only [invSubBytesBlock128, subBytesBlock128, Block.map, Column.map, invSbox_sbox]

theorem subBytes_invSubBytes (v : Block) : subBytesBlock128 (invSubBytesBlock128 v) = v := by
  simp only [invSubBytesBlock128, subBytesBlock128, Block.map, Column.map, sbox_invSbox]

theorem invShiftRows_shiftRows (v : Block) : invShiftRowsBlock128 (shiftRowsBlock128 v) = v := rfl

theorem shiftRows_invShiftRows (v : Block) : shiftRowsBlock128 (invShiftRowsBlock128 v) = v := rfl

theorem reduce_eq_ofNat : ∀ n < 2, UInt8.ofNat n * (0x1B : UInt8) =
    UInt8.ofNat n ^^^ UInt8.ofNat n <<< (1 : UInt8) ^^^ UInt8.ofNat n <<< (3 : UInt8) ^^^
      UInt8.ofNat n <<< (4 : UInt8) := by
  decide

/-- Doubling written with shifts only: the reduction, `0x1B` times the bit
    shifted out, is a sum of shifts of that bit. -/
theorem mul2_eq (x : UInt8) : mul2 x = x <<< (1 : UInt8) ^^^
    (x >>> (7 : UInt8) ^^^ (x >>> (7 : UInt8)) <<< (1 : UInt8) ^^^
      (x >>> (7 : UInt8)) <<< (3 : UInt8) ^^^ (x >>> (7 : UInt8)) <<< (4 : UInt8)) := by
  have hx : (x >>> (7 : UInt8)).toNat < 2 := by
    have := x.toNat_lt
    rw [UInt8.toNat_shiftRight, Nat.shiftRight_eq_div_pow]
    simp only [UInt8.reduceToNat, Nat.reduceMod]
    omega
  have h := reduce_eq_ofNat _ hx
  rw [UInt8.ofNat_toNat] at h
  rw [mul2, h]

/-- `mul2` is additive. -/
theorem mul2_xor (a b : UInt8) : mul2 (a ^^^ b) = mul2 a ^^^ mul2 b := by
  simp only [mul2_eq, UInt8.shiftLeft_xor, UInt8.shiftRight_xor]
  ac_rfl

theorem mul3_xor (a b : UInt8) : mul3 (a ^^^ b) = mul3 a ^^^ mul3 b := by
  simp only [mul3, mul2_xor]
  ac_rfl

theorem mulLoop_xor (factor : UInt8) (n : ℕ) (r s x y : UInt8) :
    mulLoop n (r ^^^ s) (x ^^^ y) factor = mulLoop n r x factor ^^^ mulLoop n s y factor := by
  induction n generalizing r s x y factor with
  | zero => rfl
  | succ n ih =>
    simp only [mulLoop]
    split_ifs
    · rfl
    · rw [mul2_xor, ← ih]
      congr 1
      ac_rfl
    · rw [mul2_xor, ih]

/-- `mul` is additive, whatever the factor. -/
theorem mul_xor (a b factor : UInt8) : mul (a ^^^ b) factor = mul a factor ^^^ mul b factor :=
  mulLoop_xor factor 8 0 0 a b

theorem mixColumn_xor (a b : Column) : mixColumn (a.xor b) = (mixColumn a).xor (mixColumn b) := by
  simp only [mixColumn, Column.xor, mul2_xor, mul3_xor, Column.mk.injEq]
  refine ⟨?_, ?_, ?_, ?_⟩ <;> ac_rfl

theorem invMixColumn_xor (a b : Column) :
    invMixColumn (a.xor b) = (invMixColumn a).xor (invMixColumn b) := by
  simp only [invMixColumn, Column.xor, mul_xor, Column.mk.injEq]
  refine ⟨?_, ?_, ?_, ?_⟩ <;> ac_rfl

theorem Column.eq_xor (c : Column) : c = (Column.mk c.r0 0 0 0).xor ((Column.mk 0 c.r1 0 0).xor
    ((Column.mk 0 0 c.r2 0).xor (Column.mk 0 0 0 c.r3))) := by
  simp [Column.xor]

/-! The factors of the inverse matrix, on iterates of `mul2`. -/

theorem mul_0E (x : UInt8) : mul x 0x0E = mul2 x ^^^ mul2 (mul2 x) ^^^ mul2 (mul2 (mul2 x)) := by
  have h : mul x 0x0E = 0 ^^^ mul2 x ^^^ mul2 (mul2 x) ^^^ mul2 (mul2 (mul2 x)) := rfl
  rw [h, UInt8.zero_xor]

theorem mul_0B (x : UInt8) : mul x 0x0B = x ^^^ mul2 x ^^^ mul2 (mul2 (mul2 x)) := by
  have h : mul x 0x0B = 0 ^^^ x ^^^ mul2 x ^^^ mul2 (mul2 (mul2 x)) := rfl
  rw [h, UInt8.zero_xor]

theorem mul_0D (x : UInt8) : mul x 0x0D = x ^^^ mul2 (mul2 x) ^^^ mul2 (mul2 (mul2 x)) := by
  have h : mul x 0x0D = 0 ^^^ x ^^^ mul2 (mul2 x) ^^^ mul2 (mul2 (mul2 x)) := rfl
  rw [h, UInt8.zero_xor]

theorem mul_09 (x : UInt8) : mul x 0x09 = x ^^^ mul2 (mul2 (mul2 x)) := by
  have h : mul x 0x09 = 0 ^^^ x ^^^ mul2 (mul2 (mul2 x)) := rfl
  rw [h, UInt8.zero_xor]

theorem mul2_zero : mul2 0 = 0 := rfl

theorem xor_cancel_left (a b : UInt8) : a ^^^ (a ^^^ b) = b := by
  rw [← UInt8.xor_assoc, UInt8.xor_self, UInt8.zero_xor]

theorem xor_left_comm (a b c : UInt8) : a ^^^ (b ^^^ c) = b ^^^ (a ^^^ c) := by
  rw [← UInt8.xor_assoc, UInt8.xor_comm a, UInt8.xor_assoc]

/-- The product of the two matrices, on the columns with one byte that is not
    zero: in every entry, the iterates of `mul2` cancel but for the identity on
    the diagonal. -/
theorem invMixColumn_mixColumn_single (x : UInt8) :
    invMixColumn (mixColumn ⟨x, 0, 0, 0⟩) = ⟨x, 0, 0, 0⟩ ∧
    invMixColumn (mixColumn ⟨0, x, 0, 0⟩) = ⟨0, x, 0, 0⟩ ∧
    invMixColumn (mixColumn ⟨0, 0, x, 0⟩) = ⟨0, 0, x, 0⟩ ∧
    invMixColumn (mixColumn ⟨0, 0, 0, x⟩) = ⟨0, 0, 0, x⟩ := by
  simp only [invMixColumn, mixColumn, mul3, mul_0E, mul_0B, mul_0D, mul_09, mul2_xor, mul2_zero,
    UInt8.xor_zero, UInt8.zero_xor, UInt8.xor_assoc, xor_left_comm, UInt8.xor_comm, UInt8.xor_self,
    xor_cancel_left, and_self]

theorem invMixColumn_mixColumn (c : Column) : invMixColumn (mixColumn c) = c := by
  rw [c.eq_xor]
  simp only [mixColumn_xor, invMixColumn_xor]
  rw [(invMixColumn_mixColumn_single c.r0).1, (invMixColumn_mixColumn_single c.r1).2.1,
    (invMixColumn_mixColumn_single c.r2).2.2.1, (invMixColumn_mixColumn_single c.r3).2.2.2]

theorem invMixColumns_mixColumns (v : Block) :
    invMixColumnsBlock128 (mixColumnsBlock128 v) = v := by
  simp only [invMixColumnsBlock128, mixColumnsBlock128, Block.mapColumns, invMixColumn_mixColumn]

/-- The product of the two matrices the other way round. -/
theorem mixColumn_invMixColumn_single (x : UInt8) :
    mixColumn (invMixColumn ⟨x, 0, 0, 0⟩) = ⟨x, 0, 0, 0⟩ ∧
    mixColumn (invMixColumn ⟨0, x, 0, 0⟩) = ⟨0, x, 0, 0⟩ ∧
    mixColumn (invMixColumn ⟨0, 0, x, 0⟩) = ⟨0, 0, x, 0⟩ ∧
    mixColumn (invMixColumn ⟨0, 0, 0, x⟩) = ⟨0, 0, 0, x⟩ := by
  simp only [invMixColumn, mixColumn, mul3, mul_0E, mul_0B, mul_0D, mul_09, mul2_xor, mul2_zero,
    UInt8.xor_zero, UInt8.zero_xor, UInt8.xor_assoc, xor_left_comm, UInt8.xor_comm, UInt8.xor_self,
    xor_cancel_left, and_self]

theorem mixColumn_invMixColumn (c : Column) : mixColumn (invMixColumn c) = c := by
  rw [c.eq_xor]
  simp only [mixColumn_xor, invMixColumn_xor]
  rw [(mixColumn_invMixColumn_single c.r0).1, (mixColumn_invMixColumn_single c.r1).2.1,
    (mixColumn_invMixColumn_single c.r2).2.2.1, (mixColumn_invMixColumn_single c.r3).2.2.2]

theorem mixColumns_invMixColumns (v : Block) :
    mixColumnsBlock128 (invMixColumnsBlock128 v) = v := by
  simp only [invMixColumnsBlock128, mixColumnsBlock128, Block.mapColumns, mixColumn_invMixColumn]

/-! ## The key schedule -/

/-- The table `round_constants`. -/
def roundConstants : List UInt32 :=
  [0x01, 0x02, 0x04, 0x08, 0x10, 0x20, 0x40, 0x80, 0x1B, 0x36]

/-- A column read as a little-endian `uint32_t`. -/
def Column.toWord (c : Column) : UInt32 :=
  c.r0.toUInt32 ||| c.r1.toUInt32 <<< (8 : UInt32) ||| c.r2.toUInt32 <<< (16 : UInt32) |||
    c.r3.toUInt32 <<< (24 : UInt32)

/-- The column that a `uint32_t` makes in memory. -/
def Column.ofWord (w : UInt32) : Column :=
  ⟨w.toUInt8, (w >>> (8 : UInt32)).toUInt8, (w >>> (16 : UInt32)).toUInt8,
   (w >>> (24 : UInt32)).toUInt8⟩

/-- `sub_word`. -/
def subWord (word : UInt32) : UInt32 := ((Column.ofWord word).map sbox).toWord

/-- `rot_word`. -/
def rotWord (word : UInt32) : UInt32 := word >>> (8 : UInt32) ||| word <<< (24 : UInt32)

/-- The body of the loop of `aes_generate_keys128`: the next round key. -/
def nextKey (prev : Block) (roundConstant : UInt32) : Block :=
  let gPrev := subWord (rotWord prev.c3.toWord) ^^^ roundConstant
  let curr0 := prev.c0.toWord ^^^ gPrev
  let curr1 := prev.c1.toWord ^^^ curr0
  let curr2 := prev.c2.toWord ^^^ curr1
  let curr3 := prev.c3.toWord ^^^ curr2
  ⟨.ofWord curr0, .ofWord curr1, .ofWord curr2, .ofWord curr3⟩

/-- `aes_generate_keys128`: `keys[round]`, for `round` up to 10. -/
def aesGenerateKeys128 (baseKey : Block) : ℕ → Block
  | 0 => baseKey
  | round + 1 => nextKey (aesGenerateKeys128 baseKey round) (roundConstants.getD round 0)

/-! ## The block functions -/

/-- The rounds 1 to `n` of `aes_encrypt128`. -/
def encryptRounds (keys : ℕ → Block) : ℕ → Block → Block
  | 0, result => result
  | n + 1, result => xorBlock128 (mixColumnsBlock128 (shiftRowsBlock128 (subBytesBlock128
      (encryptRounds keys n result)))) (keys (n + 1))

/-- `aes_encrypt128`. -/
def aesEncrypt128 (data key : Block) : Block :=
  let keys := aesGenerateKeys128 key
  xorBlock128 (shiftRowsBlock128 (subBytesBlock128
    (encryptRounds keys 9 (xorBlock128 data (keys 0))))) (keys 10)

/-- The rounds `n` down to 1 of `aes_decrypt128`. -/
def decryptRounds (keys : ℕ → Block) : ℕ → Block → Block
  | 0, result => result
  | n + 1, result => decryptRounds keys n (invSubBytesBlock128 (invShiftRowsBlock128
      (invMixColumnsBlock128 (xorBlock128 result (keys (n + 1))))))

/-- `aes_decrypt128`. -/
def aesDecrypt128 (encrypt key : Block) : Block :=
  let keys := aesGenerateKeys128 key
  xorBlock128 (decryptRounds keys 9 (invSubBytesBlock128 (invShiftRowsBlock128
    (xorBlock128 encrypt (keys 10))))) (keys 0)

theorem decryptRounds_encryptRounds (keys : ℕ → Block) (n : ℕ) (v : Block) :
    decryptRounds keys n (encryptRounds keys n v) = v := by
  induction n with
  | zero => rfl
  | succ n ih =>
    rw [encryptRounds, decryptRounds, xorBlock128_xorBlock128, invMixColumns_mixColumns,
      invShiftRows_shiftRows, invSubBytes_subBytes, ih]

/-- Decrypting undoes encrypting. -/
theorem aesDecrypt128_aesEncrypt128 (b k : Block) : aesDecrypt128 (aesEncrypt128 b k) k = b := by
  simp only [aesDecrypt128, aesEncrypt128]
  rw [xorBlock128_xorBlock128, invShiftRows_shiftRows, invSubBytes_subBytes,
    decryptRounds_encryptRounds, xorBlock128_xorBlock128]

theorem encryptRounds_decryptRounds (keys : ℕ → Block) (n : ℕ) (v : Block) :
    encryptRounds keys n (decryptRounds keys n v) = v := by
  induction n generalizing v with
  | zero => rfl
  | succ n ih =>
    rw [decryptRounds, encryptRounds, ih, subBytes_invSubBytes, shiftRows_invShiftRows,
      mixColumns_invMixColumns, xorBlock128_xorBlock128]

/-- Encrypting undoes decrypting. -/
theorem aesEncrypt128_aesDecrypt128 (b k : Block) : aesEncrypt128 (aesDecrypt128 b k) k = b := by
  simp only [aesDecrypt128, aesEncrypt128]
  rw [xorBlock128_xorBlock128, encryptRounds_decryptRounds, subBytes_invSubBytes,
    shiftRows_invShiftRows, xorBlock128_xorBlock128]

/-- Under every key, encrypting and decrypting are inverse to each other. -/
theorem aes128_inverse (b k : Block) :
    aesDecrypt128 (aesEncrypt128 b k) k = b ∧ aesEncrypt128 (aesDecrypt128 b k) k = b :=
  ⟨aesDecrypt128_aesEncrypt128 b k, aesEncrypt128_aesDecrypt128 b k⟩

end OnionRouter.Crypto
