import OnionRouter.Crypto.Aes
import OnionRouter.Lib.Gf256
import Mathlib.Data.Fin.VecNotation
import Mathlib.Tactic.FinCases

/-!
# The cipher of FIPS 197

AES-128 as the standard defines it, without tables: the S-box from the inverse in the
field of 256 elements, MixColumns as a product of polynomials, and the key expansion on
words of four bytes. The model of the code computes it (`aesEncrypt128_eq_cipher`).

* `toState`: the state that a block is, row by row and column by column; every layer of
  the code is the layer of the standard on states.
* `word_aesGenerateKeys128`: the round keys, which the code computes on `uint32_t`.
-/

namespace OnionRouter.Crypto

open Lib

/-! ## The standard -/

namespace Fips197

/-- Four bytes, in the order of the standard. -/
abbrev Word := Fin 4 → UInt8

/-- The state: `s r c` is the byte in row `r` and column `c`. -/
abbrev State := Fin 4 → Fin 4 → UInt8

/-- 16 bytes of input, output or key. -/
abbrev Bytes := Fin 16 → UInt8

/-- Where the byte in row `r` and column `c` stands in the input. -/
def index (r c : Fin 4) : Fin 16 := ⟨r + 4 * c, by omega⟩

/-- A bit of a byte; the places are taken modulo 8. -/
def bit (b : UInt8) (i : ℕ) : Bool := b.toNat.testBit (i % 8)

/-- The affine transformation of the S-box. -/
def affine (b : UInt8) : UInt8 :=
  UInt8.ofNat (Nat.ofDigits 2 ((List.range 8).map fun i =>
    (bit b i ^^ bit b (i + 4) ^^ bit b (i + 5) ^^ bit b (i + 6) ^^ bit b (i + 7) ^^
      bit 0x63 i).toNat))

/-- The S-box: the inverse in the field, and the affine transformation. -/
def sBox (b : UInt8) : UInt8 := affine (Gf256.inv b)

/-- SubBytes. -/
def subBytes (s : State) : State := fun r c => sBox (s r c)

/-- ShiftRows: row `r` is shifted by `r`, cyclically. -/
def shiftRows (s : State) : State := fun r c => s r (c + r)

/-- The product of two polynomials over the field modulo `x ^ 4 + 1`. -/
def modProduct (a b : Word) : Word := fun i =>
  Gf256.mul (a i) (b 0) ^^^ Gf256.mul (a (i - 1)) (b 1) ^^^ Gf256.mul (a (i - 2)) (b 2) ^^^
    Gf256.mul (a (i - 3)) (b 3)

/-- The polynomial `03 x ^ 3 + 01 x ^ 2 + 01 x + 02`. -/
def mixPolynomial : Word := ![0x02, 0x01, 0x01, 0x03]

/-- MixColumns: every column is multiplied with the polynomial. -/
def mixColumns (s : State) : State := fun r c => modProduct mixPolynomial (fun i => s i c) r

/-- AddRoundKey, with four words of the key schedule. -/
def addRoundKey (s : State) (w : ℕ → Word) (round : ℕ) : State :=
  fun r c => s r c ^^^ w (4 * round + c) r

/-- RotWord. -/
def rotWord (a : Word) : Word := fun i => a (i + 1)

/-- SubWord. -/
def subWord (a : Word) : Word := fun i => sBox (a i)

/-- The power `x ^ n` in the field. -/
def xPower : ℕ → UInt8
  | 0 => 0x01
  | n + 1 => Gf256.mul 0x02 (xPower n)

/-- The round constants. -/
def rcon (i : ℕ) : Word := ![xPower (i - 1), 0, 0, 0]

/-- KeyExpansion. The first four words are the key. -/
def keyExpansion (key : Bytes) : ℕ → Word
  | 0 => fun j => key (index j 0)
  | 1 => fun j => key (index j 1)
  | 2 => fun j => key (index j 2)
  | 3 => fun j => key (index j 3)
  | i + 4 => fun j => keyExpansion key i j ^^^
    if (i + 4) % 4 = 0 then subWord (rotWord (keyExpansion key (i + 3))) j ^^^ rcon ((i + 4) / 4) j
    else keyExpansion key (i + 3) j

/-- The state after round `n`, from 1 to 9. -/
def rounds (w : ℕ → Word) (s : State) : ℕ → State
  | 0 => addRoundKey s w 0
  | n + 1 => addRoundKey (mixColumns (shiftRows (subBytes (rounds w s n)))) w (n + 1)

/-- Cipher, for a key of 128 bits. -/
def cipher (input key : Bytes) : Bytes :=
  let w := keyExpansion key
  let s := rounds w (fun r c => input (index r c)) 9
  let s := addRoundKey (shiftRows (subBytes s)) w 10
  fun i => s ⟨i % 4, by omega⟩ ⟨i / 4, by omega⟩

end Fips197

open Fips197

/-! ## Blocks as states -/

/-- A byte of a column. -/
def Column.word (c : Column) : Word := ![c.r0, c.r1, c.r2, c.r3]

/-- The columns of a block. -/
def Block.column (b : Block) : Fin 4 → Column := ![b.c0, b.c1, b.c2, b.c3]

/-- The state that a block is. -/
def toState (b : Block) : State := fun r c => (b.column c).word r

/-- The bytes of a block, as they are in memory. -/
def Block.bytes (b : Block) : Bytes := fun i => b.toBytes.get (i.cast b.length_toBytes.symm)

theorem bytes_index (b : Block) (r c : Fin 4) : b.bytes (index r c) = toState b r c := by
  fin_cases r <;> fin_cases c <;> rfl

theorem toState_bytes (b : Block) (i : Fin 16) :
    toState b ⟨i % 4, by omega⟩ ⟨i / 4, by omega⟩ = b.bytes i := by
  fin_cases i <;> rfl

/-! ## The layers -/

/-- The table holds the S-box. -/
theorem sbox_eq : ∀ b, sbox b = sBox b := forall_byte (by decide +kernel)

theorem toState_subBytes (b : Block) : toState (subBytesBlock128 b) = subBytes (toState b) := by
  funext r c
  rw [subBytes, ← sbox_eq]
  fin_cases r <;> fin_cases c <;> rfl

theorem toState_shiftRows (b : Block) : toState (shiftRowsBlock128 b) = shiftRows (toState b) := by
  funext r c
  fin_cases r <;> fin_cases c <;> rfl

/-- The factors of MixColumns. -/
theorem mul_eq : ∀ b,
    Gf256.mul 0x01 b = b ∧ Gf256.mul 0x02 b = mul2 b ∧ Gf256.mul 0x03 b = mul3 b :=
  forall_byte (by decide +kernel)

theorem word_mixColumn (c : Column) : (mixColumn c).word = modProduct mixPolynomial c.word := by
  have hone := fun b => (mul_eq b).1
  have htwo := fun b => (mul_eq b).2.1
  have hthree := fun b => (mul_eq b).2.2
  funext r
  fin_cases r <;> simp [modProduct, mixPolynomial, mixColumn, Column.word, hone, htwo, hthree]

theorem toState_mixColumns (b : Block) :
    toState (mixColumnsBlock128 b) = mixColumns (toState b) := by
  funext r c
  have hcolumn : (mixColumnsBlock128 b).column c = mixColumn (b.column c) := by
    fin_cases c <;> rfl
  rw [toState, hcolumn, word_mixColumn]
  rfl

theorem toState_xor (b k : Block) (w : ℕ → Word) (round : ℕ)
    (hw : ∀ c : Fin 4, (k.column c).word = w (4 * round + c)) :
    toState (xorBlock128 b k) = addRoundKey (toState b) w round := by
  funext r c
  rw [addRoundKey, ← hw]
  fin_cases r <;> fin_cases c <;> rfl

/-! ## The key schedule -/

/-- A column is made of the bytes of its word. -/
theorem ofWord_toWord (c : Column) : Column.ofWord c.toWord = c := by
  obtain ⟨a, b, c, d⟩ := c
  simp only [Column.ofWord, Column.toWord, Column.mk.injEq]
  refine ⟨?_, ?_, ?_, ?_⟩
  all_goals
    apply UInt8.toBitVec_inj.1
    ext i hi
    simp <;> grind

theorem ofWord_xor (v w : UInt32) :
    Column.ofWord (v ^^^ w) = (Column.ofWord v).xor (Column.ofWord w) := by
  simp [Column.ofWord, Column.xor, UInt32.shiftRight_xor]

/-- Rotating a word of the code to the right rotates its column up: the first byte is the
    lowest one. -/
theorem ofWord_rotWord (w : UInt32) : Column.ofWord (rotWord w) =
    ⟨(Column.ofWord w).r1, (Column.ofWord w).r2, (Column.ofWord w).r3, (Column.ofWord w).r0⟩ := by
  simp only [Column.ofWord, rotWord, Column.mk.injEq]
  refine ⟨?_, ?_, ?_, ?_⟩
  all_goals
    apply UInt8.toBitVec_inj.1
    ext i hi
    simp <;> grind

theorem word_xor (c d : Column) : (c.xor d).word = fun j => c.word j ^^^ d.word j := by
  funext j
  fin_cases j <;> rfl

theorem word_ofWord_xor (c : Column) (w : UInt32) :
    (Column.ofWord (c.toWord ^^^ w)).word = fun j => c.word j ^^^ (Column.ofWord w).word j := by
  rw [ofWord_xor, ofWord_toWord, word_xor]

theorem word_subWord_rotWord (c : Column) :
    (Column.ofWord (subWord (rotWord c.toWord))).word = Fips197.subWord (Fips197.rotWord c.word) := by
  rw [subWord, ofWord_toWord, ofWord_rotWord, ofWord_toWord]
  funext j
  rw [Fips197.subWord, ← sbox_eq]
  fin_cases j <;> rfl

theorem word_roundConstants : ∀ i < 10,
    (Column.ofWord (roundConstants.getD i 0)).word = rcon (i + 1) := by
  decide +kernel

theorem keyExpansion_add_four (key : Bytes) {i : ℕ} (hi : (i + 4) % 4 ≠ 0) :
    keyExpansion key (i + 4) = fun j => keyExpansion key i j ^^^ keyExpansion key (i + 3) j := by
  funext j
  rw [keyExpansion]
  exact congrArg (keyExpansion key i j ^^^ ·) (if_neg hi)

theorem keyExpansion_round (key : Bytes) (i : ℕ) :
    keyExpansion key (4 * i + 4) = fun j => keyExpansion key (4 * i) j ^^^
      (Fips197.subWord (Fips197.rotWord (keyExpansion key (4 * i + 3))) j ^^^ rcon (i + 1) j) := by
  funext j
  have hround : (4 * i + 4) / 4 = i + 1 := by omega
  rw [keyExpansion, ← hround]
  exact congrArg (keyExpansion key (4 * i) j ^^^ ·) (if_pos (by omega))

/-- The round keys of the code are the words of the standard. -/
theorem word_aesGenerateKeys128 (k : Block) {round : ℕ} (hround : round ≤ 10) (c : Fin 4) :
    ((aesGenerateKeys128 k round).column c).word = keyExpansion k.bytes (4 * round + c) := by
  induction round generalizing c with
  | zero =>
    funext r
    have hbyte := bytes_index k r c
    fin_cases c <;> exact hbyte.symm
  | succ i ih =>
    have hkey := fun c => ih (Nat.le_of_succ_le hround) c
    generalize hprev : aesGenerateKeys128 k i = prev at hkey
    rw [aesGenerateKeys128, hprev]
    -- Every word of the new key uses the one before it, so that they come in order.
    have h0 : ((nextKey prev (roundConstants.getD i 0)).column 0).word =
        keyExpansion k.bytes (4 * (i + 1)) := by
      refine (word_ofWord_xor _ _).trans ?_
      rw [ofWord_xor, word_xor, word_subWord_rotWord, word_roundConstants i hround]
      exact hkey 0 ▸ hkey 3 ▸ (keyExpansion_round k.bytes i).symm
    have h1 : ((nextKey prev (roundConstants.getD i 0)).column 1).word =
        keyExpansion k.bytes (4 * (i + 1) + 1) := by
      refine (word_ofWord_xor _ _).trans ?_
      exact hkey 1 ▸ h0 ▸ (keyExpansion_add_four k.bytes (by omega)).symm
    have h2 : ((nextKey prev (roundConstants.getD i 0)).column 2).word =
        keyExpansion k.bytes (4 * (i + 1) + 2) := by
      refine (word_ofWord_xor _ _).trans ?_
      exact hkey 2 ▸ h1 ▸ (keyExpansion_add_four k.bytes (by omega)).symm
    have h3 : ((nextKey prev (roundConstants.getD i 0)).column 3).word =
        keyExpansion k.bytes (4 * (i + 1) + 3) := by
      refine (word_ofWord_xor _ _).trans ?_
      exact hkey 3 ▸ h2 ▸ (keyExpansion_add_four k.bytes (by omega)).symm
    fin_cases c
    · exact h0
    · exact h1
    · exact h2
    · exact h3

/-! ## The cipher -/

theorem toState_encryptRounds (b k : Block) {n : ℕ} (hn : n ≤ 9) :
    toState (encryptRounds (aesGenerateKeys128 k) n
        (xorBlock128 b (aesGenerateKeys128 k 0))) =
      rounds (keyExpansion k.bytes) (toState b) n := by
  induction n with
  | zero => exact toState_xor b _ _ 0 (word_aesGenerateKeys128 k (Nat.zero_le 10))
  | succ n ih =>
    have hround : n + 1 ≤ 10 := hn.trans (by decide)
    rw [encryptRounds, toState_xor _ _ _ (n + 1) (word_aesGenerateKeys128 k hround),
      toState_mixColumns, toState_shiftRows, toState_subBytes, ih (Nat.le_of_succ_le hn), rounds]

/-- The code computes the cipher of the standard, for every key and every block. -/
theorem aesEncrypt128_eq_cipher (data key : Block) :
    (aesEncrypt128 data key).bytes = cipher data.bytes key.bytes := by
  have hinput : (fun r c => data.bytes (index r c)) = toState data := by
    funext r c
    exact bytes_index data r c
  funext i
  rw [cipher, hinput, ← toState_encryptRounds data key le_rfl, ← toState_subBytes,
    ← toState_shiftRows, ← toState_xor _ _ _ 10 (word_aesGenerateKeys128 key le_rfl)]
  exact (toState_bytes _ i).symm

end OnionRouter.Crypto
