import OnionRouter.Lib.Memory

/-!
# SHA-256

`encryptions/sha/sha256.c`: the padding of a message in its buffer, and the hash of a
buffer that was padded.
-/

namespace OnionRouter.Crypto

open Lib Memory

/-- The table `round_constants` of SHA-256. -/
def shaRoundConstants : List UInt32 :=
  [0x428a2f98, 0x71374491, 0xb5c0fbcf, 0xe9b5dba5, 0x3956c25b, 0x59f111f1, 0x923f82a4, 0xab1c5ed5,
   0xd807aa98, 0x12835b01, 0x243185be, 0x550c7dc3, 0x72be5d74, 0x80deb1fe, 0x9bdc06a7, 0xc19bf174,
   0xe49b69c1, 0xefbe4786, 0x0fc19dc6, 0x240ca1cc, 0x2de92c6f, 0x4a7484aa, 0x5cb0a9dc, 0x76f988da,
   0x983e5152, 0xa831c66d, 0xb00327c8, 0xbf597fc7, 0xc6e00bf3, 0xd5a79147, 0x06ca6351, 0x14292967,
   0x27b70a85, 0x2e1b2138, 0x4d2c6dfc, 0x53380d13, 0x650a7354, 0x766a0abb, 0x81c2c92e, 0x92722c85,
   0xa2bfe8a1, 0xa81a664b, 0xc24b8b70, 0xc76c51a3, 0xd192e819, 0xd6990624, 0xf40e3585, 0x106aa070,
   0x19a4c116, 0x1e376c08, 0x2748774c, 0x34b0bcb5, 0x391c0cb3, 0x4ed8aa4a, 0x5b9cca4f, 0x682e6ff3,
   0x748f82ee, 0x78a5636f, 0x84c87814, 0x8cc70208, 0x90befffa, 0xa4506ceb, 0xbef9a3f7, 0xc67178f2]

/-! ## Padding -/

/-- `BLOCK_SIZE_BYTES`. -/
def blockSizeBytes : UInt64 := 64

/-- The byte `i` of the length in bits, the highest one first. -/
def bitlenByte (bitlen : UInt64) (i : ℕ) : UInt8 :=
  ((bitlen >>> UInt64.ofNat (8 * (7 - i))) &&& 0xFF).toUInt8

/-- `hash_prepare_data_sha256`: what it returns, and the buffer after it. -/
def hashPrepareDataSha256 (data : Memory UInt8) (length maxLen : UInt64) :
    UInt64 × Memory UInt8 :=
  let totalLen := length + 1 + 8
  let padLen := (blockSizeBytes - totalLen % blockSizeBytes) % blockSizeBytes
  let totalLen := totalLen + padLen
  if totalLen > maxLen then (0, data)
  else
    let data := data.write length.toNat [0x80]
    let data := data.write (length + 1).toNat (List.replicate padLen.toNat 0)
    let bitlen := length * 8
    let data := data.write (totalLen - 8).toNat ((List.range 8).map (bitlenByte bitlen))
    (totalLen, data)

/-! ## Words -/

/-- `rotr`. -/
def rotr (x n : UInt32) : UInt32 := (x >>> n) ||| (x <<< (32 - n))

/-- `ch`. -/
def ch (x y z : UInt32) : UInt32 := (x &&& y) ^^^ (~~~x &&& z)

/-- `maj`. -/
def maj (x y z : UInt32) : UInt32 := (x &&& y) ^^^ (x &&& z) ^^^ (y &&& z)

/-- `bsig0`. -/
def bsig0 (x : UInt32) : UInt32 := rotr x 2 ^^^ rotr x 13 ^^^ rotr x 22

/-- `bsig1`. -/
def bsig1 (x : UInt32) : UInt32 := rotr x 6 ^^^ rotr x 11 ^^^ rotr x 25

/-- `ssig0`. -/
def ssig0 (x : UInt32) : UInt32 := rotr x 7 ^^^ rotr x 18 ^^^ (x >>> 3)

/-- `ssig1`. -/
def ssig1 (x : UInt32) : UInt32 := rotr x 17 ^^^ rotr x 19 ^^^ (x >>> 10)

/-! ## The hash -/

/-- A word of a block, from four bytes. -/
def blockWord (block : Memory UInt8) (i : ℕ) : UInt32 :=
  ((block (i * 4)).toUInt32 <<< 24) ||| ((block (i * 4 + 1)).toUInt32 <<< 16) |||
    ((block (i * 4 + 2)).toUInt32 <<< 8) ||| (block (i * 4 + 3)).toUInt32

/-- The first `n` rounds of the loop that loads a block into the array `w`. -/
def loadWords (block : Memory UInt8) (w : Memory UInt32) : ℕ → Memory UInt32
  | 0 => w
  | i + 1 => (loadWords block w i).set i (blockWord block i)

/-- The first `n` rounds of the loop that extends the array, from `w[16]` on. -/
def extendWords (w : Memory UInt32) : ℕ → Memory UInt32
  | 0 => w
  | n + 1 =>
    let i := 16 + n
    let w := extendWords w n
    w.set i (ssig1 (w (i - 2)) + w (i - 7) + ssig0 (w (i - 15)) + w (i - 16))

/-- The variables `a` to `h` of an iteration, or the hash values `h0` to `h7`. -/
structure HashVars where
  a : UInt32
  b : UInt32
  c : UInt32
  d : UInt32
  e : UInt32
  f : UInt32
  g : UInt32
  h : UInt32

/-- The hash values before the first block. -/
def initialHash : HashVars where
  a := 0x6a09e667
  b := 0xbb67ae85
  c := 0x3c6ef372
  d := 0xa54ff53a
  e := 0x510e527f
  f := 0x9b05688c
  g := 0x1f83d9ab
  h := 0x5be0cd19

/-- The body of the compression loop. -/
def compressionStep (w : Memory UInt32) (i : ℕ) (v : HashVars) : HashVars :=
  let T1 := v.h + bsig1 v.e + ch v.e v.f v.g + shaRoundConstants.getD i 0 + w i
  let T2 := bsig0 v.a + maj v.a v.b v.c
  ⟨T1 + T2, v.a, v.b, v.c, v.d + T1, v.e, v.f, v.g⟩

/-- The first `n` rounds of the compression loop. -/
def compressionLoop (w : Memory UInt32) (v : HashVars) : ℕ → HashVars
  | 0 => v
  | i + 1 => compressionStep w i (compressionLoop w v i)

/-- The hash values after a block. -/
def hashBlock (block : Memory UInt8) (v : HashVars) : HashVars :=
  -- What `w` holds before is not read.
  let w := extendWords (loadWords block (fun _ => 0) 16) 48
  let u := compressionLoop w v 64
  ⟨v.a + u.a, v.b + u.b, v.c + u.c, v.d + u.d, v.e + u.e, v.f + u.f, v.g + u.g, v.h + u.h⟩

/-- The hash values after the first `n` blocks. -/
def hashBlocks (data : Memory UInt8) : ℕ → HashVars
  | 0 => initialHash
  | n + 1 => hashBlock (fun i => data (n * 64 + i)) (hashBlocks data n)

/-- The four bytes of a hash value, the highest one first. -/
def outBytes (x : UInt32) : List UInt8 :=
  [((x >>> 24) &&& 0xFF).toUInt8, ((x >>> 16) &&& 0xFF).toUInt8, ((x >>> 8) &&& 0xFF).toUInt8,
   (x &&& 0xFF).toUInt8]

/-- The array `h_values`. -/
def HashVars.values (v : HashVars) : List UInt32 := [v.a, v.b, v.c, v.d, v.e, v.f, v.g, v.h]

/-- `hash_sha256`: the bytes of `out_hash`; `none` when the assertion fails. -/
def hashSha256 (data : Memory UInt8) (length : UInt64) : Option (List UInt8) :=
  if length % blockSizeBytes = 0 then
    some ((hashBlocks data (length / blockSizeBytes).toNat).values.flatMap outBytes)
  else none

end OnionRouter.Crypto
