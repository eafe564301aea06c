import OnionRouter.Crypto.Encryptions
import OnionRouter.Crypto.Fips180
import OnionRouter.Lib.Bytes

/-!
# Key agreement

`encryptions/dh/dh.c`, and of `encryptions.c` the functions that derive a symmetric
key. The arithmetic is that of GMP, of which only the documentation is known
(`Gmp.Documented`).

* `exportMpzFixed_eq`: a number below `2 ^ 2048` is exported to 256 bytes, also when
  GMP gives fewer, or none, and nothing is written behind them.
* `mpzImport_fixedBytes`: importing them gives the number back.
* `deriveSymmetricKeyFromPublic_eq`: the key is a digest of the common number, and the
  padded buffer always fits.
* `key_agreement`: both parties derive the same key.
-/

namespace OnionRouter.Crypto

open Lib Memory

/-! ## GMP -/

/-- What the code calls of GMP: `mpz_import` and `mpz_export` with the order `ENDIAN_MPZ`
    and words of one byte, and `mpz_powm`. -/
structure Gmp where
  mpzImport : List UInt8 → ℕ
  mpzExport : ℕ → List UInt8
  mpzPowm : ℕ → ℕ → ℕ → ℕ

/-- What the documentation says of them. The lowest byte comes first, and no zeros are
    written behind the highest one: zero has no bytes. -/
structure Gmp.Documented (gmp : Gmp) : Prop where
  mpzImport_eq : ∀ l, gmp.mpzImport l = ofBytesLE l
  mpzExport_eq : ∀ n, gmp.mpzExport n = toBytesLE n
  mpzPowm_eq : ∀ base exp mod, 0 < mod → gmp.mpzPowm base exp mod = base ^ exp % mod

/-! ## Numbers in 256 bytes -/

/-- The constant `DH_KEY_BYTES`, which is also `ASYMMETRIC_KEY_BYTES`. -/
def dhKeyBytes : ℕ := 256

/-- `export_mpz_fixed`: what the memory at `out` holds afterwards. -/
def exportMpzFixed (gmp : Gmp) (out : Memory UInt8) (val size : ℕ) : Memory UInt8 :=
  let bytes := gmp.mpzExport val
  let count := bytes.length
  let out := out.write 0 bytes
  -- `ENDIAN_MPZ` is -1: the branch that moves the bytes is never taken.
  if count < size then out.write count (List.replicate (size - count) 0) else out

/-- A number as `DH_KEY_BYTES` bytes, the lowest one first. -/
def fixedBytes (n : ℕ) : List UInt8 :=
  toBytesLE n ++ List.replicate (dhKeyBytes - (toBytesLE n).length) 0

section Numbers

variable {gmp : Gmp} (hgmp : gmp.Documented) {n : ℕ}

theorem length_toBytesLE_le_dhKeyBytes (hn : n < 2 ^ 2048) : (toBytesLE n).length ≤ dhKeyBytes := by
  rw [show 2048 = 8 * 256 from rfl, pow_mul] at hn
  exact length_toBytesLE_le hn

theorem length_fixedBytes (hn : n < 2 ^ 2048) : (fixedBytes n).length = dhKeyBytes := by
  rw [fixedBytes, List.length_append, List.length_replicate]
  exact Nat.add_sub_cancel' (length_toBytesLE_le_dhKeyBytes hn)

theorem ofBytesLE_fixedBytes (n : ℕ) : ofBytesLE (fixedBytes n) = n := by
  rw [fixedBytes, ofBytesLE_pad, ofBytesLE_toBytesLE]

include hgmp

theorem mpzImport_fixedBytes (n : ℕ) : gmp.mpzImport (fixedBytes n) = n := by
  rw [hgmp.mpzImport_eq, ofBytesLE_fixedBytes]

/-- A number below `2 ^ 2048` fills exactly the bytes given for it, whatever they held. -/
theorem exportMpzFixed_eq (hn : n < 2 ^ 2048) (out : Memory UInt8) :
    exportMpzFixed gmp out n dhKeyBytes = out.write 0 (fixedBytes n) := by
  have hle := length_toBytesLE_le_dhKeyBytes hn
  -- The zeros are written behind what was exported; a full export has none.
  have happend := write_append out 0 (toBytesLE n)
    (List.replicate (dhKeyBytes - (toBytesLE n).length) 0)
  rw [Nat.zero_add] at happend
  simp only [exportMpzFixed, hgmp.mpzExport_eq]
  rcases hle.lt_or_eq with hshort | hfull
  · rw [if_pos hshort, happend]
    rfl
  · rw [if_neg hfull.not_lt, fixedBytes, hfull, Nat.sub_self, List.replicate_zero, List.append_nil]

theorem read_exportMpzFixed (hn : n < 2 ^ 2048) (out : Memory UInt8) :
    (exportMpzFixed gmp out n dhKeyBytes).read 0 dhKeyBytes = fixedBytes n := by
  have hread := read_write out 0 (fixedBytes n)
  rwa [length_fixedBytes hn, ← exportMpzFixed_eq hgmp hn out] at hread

end Numbers

/-! ## Keys -/

/-- The variables `p` and `g` of `dh.c`. -/
structure DhGlobals where
  p : ℕ
  g : ℕ

/-- `get_globals`: the generator, and the modulus as it is read from `res`. -/
def getGlobals (gmp : Gmp) (dh : DhGlobals) (res : Memory UInt8) : UInt64 × List UInt8 :=
  (UInt64.ofNat dh.g, (exportMpzFixed gmp res dh.p dhKeyBytes).read 0 dhKeyBytes)

/-- `set_globals`: the modulus by `set_prime_dh`, the generator by `set_generator_dh`. -/
def setGlobals (gmp : Gmp) (dh : DhGlobals) (g : UInt64) (p : List UInt8) : DhGlobals :=
  { { dh with p := gmp.mpzImport p } with g := g.toNat }

/-- `dh_identity_key_t`. -/
structure IdentityKey where
  thisPrivate : ℕ
  thisPublic : ℕ

/-- `gen_dh_prime_identity_key`, with the number that `generate_prime_low_p` draws. -/
def genDhPrimeIdentityKey (gmp : Gmp) (dh : DhGlobals) (prime : ℕ) : IdentityKey :=
  ⟨prime, gmp.mpzPowm dh.g prime dh.p⟩

/-- `get_public_identity_key`: what is read from `res`. -/
def getPublicIdentityKey (gmp : Gmp) (key : IdentityKey) (res : Memory UInt8) : List UInt8 :=
  (exportMpzFixed gmp res key.thisPublic dhKeyBytes).read 0 dhKeyBytes

/-- `dh_session_key_t`. -/
structure SessionKey where
  identity : IdentityKey
  otherPublic : ℕ
  commonKey : ℕ

/-- `set_dh_key_other_public`. -/
def setDhKeyOtherPublic (gmp : Gmp) (dh : DhGlobals) (key : SessionKey) (val : List UInt8) :
    SessionKey :=
  let otherPublic := gmp.mpzImport val
  { key with otherPublic, commonKey := gmp.mpzPowm otherPublic key.identity.thisPrivate dh.p }

/-- `get_dh_common_key`: what is read from `res`. -/
def getDhCommonKey (gmp : Gmp) (key : SessionKey) (res : Memory UInt8) : List UInt8 :=
  (exportMpzFixed gmp res key.commonKey dhKeyBytes).read 0 dhKeyBytes

/-- `key_data_t`. Both pointers are to one identity key. -/
structure KeyData where
  identity : IdentityKey
  session : SessionKey
  symmetricKey : Block
  session_identity : session.identity = identity

/-- `init_key`. -/
def initKey (identity : IdentityKey) : KeyData where
  identity := identity
  session := ⟨identity, 0, 0⟩
  symmetricKey := .ofBytes (List.replicate aesBytes 0)
  session_identity := rfl

/-- `get_other_public_key`: what is read from `res`. -/
def getOtherPublicKey (gmp : Gmp) (key : KeyData) (res : Memory UInt8) : List UInt8 :=
  (exportMpzFixed gmp res key.session.otherPublic dhKeyBytes).read 0 dhKeyBytes

/-- What the two arrays of `derive_symmetric_key_from_public` hold before. -/
structure DeriveArrays where
  commonKey : Memory UInt8
  commonKeyShaBuffer : Memory UInt8
  deriving Inhabited

/-- `derive_symmetric_key_from_public`; `none` when it aborts. -/
def deriveSymmetricKeyFromPublic (gmp : Gmp) (dh : DhGlobals) (arrays : DeriveArrays)
    (key : KeyData) (data : List UInt8) : Option KeyData :=
  let session := setDhKeyOtherPublic gmp dh key.session data
  let commonKey := getDhCommonKey gmp session arrays.commonKey
  let buffer := arrays.commonKeyShaBuffer.write 0 commonKey
  -- `sizeof(common_key_sha_buffer)` is 256 + `SHA_PADDING`.
  let (length, buffer) := hashPrepareDataSha256 buffer 256 320
  if length = 0 ∨ 320 < length then none
  else (hashSha256 buffer length).map fun shaBuffer =>
    { key with
      session := session
      symmetricKey := .ofBytes (shaBuffer.take aesBytes)
      session_identity := key.session_identity }

/-! ## What is derived -/

/-- The symmetric key made of a common key. -/
def symmetricKeyOf (common : ℕ) : Block :=
  .ofBytes ((Fips180.sha256 (fixedBytes common)).take aesBytes)

section Derive

variable {gmp : Gmp} (hgmp : gmp.Documented) {dh : DhGlobals} (hp : 0 < dh.p)
  (hpBytes : dh.p < 2 ^ 2048)

include hgmp

theorem setGlobals_getGlobals (hpBytes : dh.p < 2 ^ 2048) (hg : dh.g < 2 ^ 64)
    (old : DhGlobals) (res : Memory UInt8) :
    setGlobals gmp old (getGlobals gmp dh res).1 (getGlobals gmp dh res).2 = dh := by
  have hgen : (UInt64.ofNat dh.g).toNat = dh.g := UInt64.toNat_ofNat_of_lt' hg
  simp only [setGlobals, getGlobals, read_exportMpzFixed hgmp hpBytes,
    mpzImport_fixedBytes hgmp, hgen]

include hp hpBytes

/-- The public number is below the modulus, so that it fills its 256 bytes. -/
theorem getPublicIdentityKey_gen (x : ℕ) (res : Memory UInt8) :
    getPublicIdentityKey gmp (genDhPrimeIdentityKey gmp dh x) res = fixedBytes (dh.g ^ x % dh.p) :=
  by
    simp only [getPublicIdentityKey, genDhPrimeIdentityKey, hgmp.mpzPowm_eq _ _ _ hp]
    exact read_exportMpzFixed hgmp ((Nat.mod_lt _ hp).trans hpBytes) res

/-- Deriving a key never aborts: 256 bytes are padded to 320, which is what the buffer
    has. -/
theorem deriveSymmetricKeyFromPublic_eq (arrays : DeriveArrays) (key : KeyData)
    (data : List UInt8) : ∃ key', deriveSymmetricKeyFromPublic gmp dh arrays key data = some key' ∧
      key'.identity = key.identity ∧ key'.session.otherPublic = ofBytesLE data ∧
      key'.symmetricKey =
        symmetricKeyOf (ofBytesLE data ^ key.identity.thisPrivate % dh.p) := by
  set session := setDhKeyOtherPublic gmp dh key.session data with hsession
  have hcommon : session.commonKey = ofBytesLE data ^ key.identity.thisPrivate % dh.p := by
    simp only [hsession, setDhKeyOtherPublic, hgmp.mpzImport_eq, hgmp.mpzPowm_eq _ _ _ hp,
      key.session_identity]
  have hlt : session.commonKey < 2 ^ 2048 := by
    rw [hcommon]
    exact (Nat.mod_lt _ hp).trans hpBytes
  have hbytes : getDhCommonKey gmp session arrays.commonKey = fixedBytes session.commonKey :=
    read_exportMpzFixed hgmp hlt arrays.commonKey
  -- The exported key fills its 256 bytes whatever its leading bytes are.
  have hlength : (fixedBytes session.commonKey).length = 256 := length_fixedBytes hlt
  have hpad : (Fips180.pad (fixedBytes session.commonKey)).length = 320 := by
    rw [Fips180.length_pad, hlength]
    rfl
  obtain ⟨length, buffer, hprepare, -, -, htotal, -, hhash⟩ :=
    (sha256_spec (hlength.trans_lt (by decide))
      (read_write arrays.commonKeyShaBuffer 0 (fixedBytes session.commonKey)) 320).2 hpad.le
  rw [hlength] at hprepare
  rw [hpad] at htotal
  obtain rfl : length = 320 := UInt64.toNat_inj.1 htotal
  have hprepare' : hashPrepareDataSha256
      (arrays.commonKeyShaBuffer.write 0 (getDhCommonKey gmp session arrays.commonKey)) 256 320 =
        (320, buffer) := by
    rw [hbytes]
    exact hprepare
  refine ⟨⟨key.identity, session,
    .ofBytes ((Fips180.sha256 (fixedBytes session.commonKey)).take aesBytes),
    key.session_identity⟩, ?_, rfl, hgmp.mpzImport_eq data, ?_⟩
  · simp only [deriveSymmetricKeyFromPublic, ← hsession, hprepare', hhash]
    rfl
  · rw [← hcommon]
    rfl

end Derive

/-! ## The exchange -/

/-- The bytes in which the public key of an identity reaches others: as it is exported,
    or after a directory that derived a key from them has exported them again. -/
inductive Published (gmp : Gmp) (directory : DhGlobals) (identity : IdentityKey) :
    List UInt8 → Prop
  | exported (res : Memory UInt8) :
      Published gmp directory identity (getPublicIdentityKey gmp identity res)
  | reexported (arrays : DeriveArrays) (key key' : KeyData) (data : List UInt8)
      (res : Memory UInt8) :
      Published gmp directory identity data →
      deriveSymmetricKeyFromPublic gmp directory arrays key data = some key' →
      Published gmp directory identity (getOtherPublicKey gmp key' res)

/-- What a handshake returns, the bytes it hands to `send_tls_msg`, and the key after
    it. -/
structure TlsResult where
  returned : Bool
  sent : Option (List UInt8)
  key : KeyData

/-- `handle_tls_sender`, with the bytes that `recv_tls_msg` gives (`none` when it fails),
    whether `send_tls_msg` succeeds, and what the buffers hold before. -/
def handleTlsSender (gmp : Gmp) (dh : DhGlobals) (arrays : DeriveArrays) (res : Memory UInt8)
    (received : Option (List UInt8)) (sendOk : Bool) (this : KeyData) : Option TlsResult :=
  match received with
  | none => some ⟨false, none, this⟩
  | some other => (deriveSymmetricKeyFromPublic gmp dh arrays this other).map fun this =>
      ⟨sendOk, some (getPublicIdentityKey gmp this.identity res), this⟩

/-- `handle_tls_recviever`, likewise. -/
def handleTlsRecviever (gmp : Gmp) (dh : DhGlobals) (arrays : DeriveArrays) (res : Memory UInt8)
    (received : Option (List UInt8)) (sendOk : Bool) (this : KeyData) : Option TlsResult :=
  let sent := some (getPublicIdentityKey gmp this.identity res)
  match sendOk, received with
  | false, _ => some ⟨false, sent, this⟩
  | true, none => some ⟨false, sent, this⟩
  | true, some other => (deriveSymmetricKeyFromPublic gmp dh arrays this other).map fun this =>
      ⟨true, sent, this⟩

/-- What the local variables of a handshake hold before, or of another step of a party. -/
structure Locals where
  arrays : DeriveArrays
  res : Memory UInt8
  buffer : List UInt8
  deriving Inhabited

section Exchange

variable {gmp : Gmp} (hgmp : gmp.Documented) {dh : DhGlobals} (hp : 0 < dh.p)
  (hpBytes : dh.p < 2 ^ 2048)

include hgmp hp hpBytes

/-- However often they are exported again, the bytes are those of the public number. By
    induction on the way they took. -/
theorem Published.eq_fixedBytes {x : ℕ} {data : List UInt8}
    (h : Published gmp dh (genDhPrimeIdentityKey gmp dh x) data) :
    data = fixedBytes (dh.g ^ x % dh.p) := by
  induction h with
  | exported res => exact getPublicIdentityKey_gen hgmp hp hpBytes x res
  | reexported arrays key key' data res _ hderive ih =>
    obtain ⟨key'', hderive', -, hother, -⟩ :=
      deriveSymmetricKeyFromPublic_eq hgmp hp hpBytes arrays key data
    obtain rfl : key' = key'' := Option.some.inj (hderive.symm.trans hderive')
    rw [ih, ofBytesLE_fixedBytes] at hother
    rw [getOtherPublicKey, hother]
    exact read_exportMpzFixed hgmp ((Nat.mod_lt _ hp).trans hpBytes) res

/-- What is derived from the public key of the private number `y` by the owner of `x`. -/
theorem deriveSymmetricKeyFromPublic_published {x y : ℕ} (arrays : DeriveArrays) {key : KeyData}
    (hkey : key.identity = genDhPrimeIdentityKey gmp dh x) {data : List UInt8}
    (hdata : data = fixedBytes (dh.g ^ y % dh.p)) :
    ∃ key', deriveSymmetricKeyFromPublic gmp dh arrays key data = some key' ∧
      key'.identity = key.identity ∧
      key'.symmetricKey = symmetricKeyOf (dh.g ^ (y * x) % dh.p) := by
  obtain ⟨key', hderive, hidentity, -, hsymmetric⟩ :=
    deriveSymmetricKeyFromPublic_eq hgmp hp hpBytes arrays key data
  refine ⟨key', hderive, hidentity, ?_⟩
  rw [hsymmetric, hkey, hdata, ofBytesLE_fixedBytes, ← Nat.pow_mod, ← pow_mul]
  rfl

/-- A handshake on the side that receives first. -/
theorem handleTlsSender_published {x y : ℕ} (arrays : DeriveArrays) (res : Memory UInt8)
    {this : KeyData} (hthis : this.identity = genDhPrimeIdentityKey gmp dh x)
    {data : List UInt8} (hdata : data = fixedBytes (dh.g ^ y % dh.p)) :
    ∃ key, handleTlsSender gmp dh arrays res (some data) true this =
        some ⟨true, some (fixedBytes (dh.g ^ x % dh.p)), key⟩ ∧
      key.identity = this.identity ∧
      key.symmetricKey = symmetricKeyOf (dh.g ^ (y * x) % dh.p) := by
  obtain ⟨key, hderive, hidentity, hsymmetric⟩ :=
    deriveSymmetricKeyFromPublic_published hgmp hp hpBytes arrays hthis hdata
  refine ⟨key, ?_, hidentity, hsymmetric⟩
  simp only [handleTlsSender, hderive, Option.map_some, hidentity, hthis,
    getPublicIdentityKey_gen hgmp hp hpBytes]

/-- A handshake on the side that sends first. -/
theorem handleTlsRecviever_published {x y : ℕ} (arrays : DeriveArrays) (res : Memory UInt8)
    {this : KeyData} (hthis : this.identity = genDhPrimeIdentityKey gmp dh x)
    {data : List UInt8} (hdata : data = fixedBytes (dh.g ^ y % dh.p)) :
    ∃ key, handleTlsRecviever gmp dh arrays res (some data) true this =
        some ⟨true, some (fixedBytes (dh.g ^ x % dh.p)), key⟩ ∧
      key.identity = this.identity ∧
      key.symmetricKey = symmetricKeyOf (dh.g ^ (y * x) % dh.p) := by
  obtain ⟨key, hderive, hidentity, hsymmetric⟩ :=
    deriveSymmetricKeyFromPublic_published hgmp hp hpBytes arrays hthis hdata
  refine ⟨key, ?_, hidentity, hsymmetric⟩
  simp only [handleTlsRecviever, hderive, Option.map_some, hthis,
    getPublicIdentityKey_gen hgmp hp hpBytes]

end Exchange

/-- Both parties derive the same key and none aborts, from bytes of the other's public
    key that came by whatever way, and in a handshake whose two messages arrive. The
    globals are those that the directory gave to both. -/
theorem key_agreement {gmp : Gmp} (hgmp : gmp.Documented) {directory : DhGlobals}
    (hp : 1 < directory.p) (hpBytes : directory.p < 2 ^ 2048) (hg : directory.g < 2 ^ 64)
    (primeRes : Memory UInt8) (oldA oldB : DhGlobals) (x y : ℕ) :
    let globals := getGlobals gmp directory primeRes
    let dhA := setGlobals gmp oldA globals.1 globals.2
    let dhB := setGlobals gmp oldB globals.1 globals.2
    ∀ (keyA keyB : KeyData) (arraysA arraysB : DeriveArrays),
      keyA.identity = genDhPrimeIdentityKey gmp dhA x →
      keyB.identity = genDhPrimeIdentityKey gmp dhB y →
      (∀ publicA publicB, Published gmp directory keyA.identity publicA →
        Published gmp directory keyB.identity publicB →
        publicA.length = 256 ∧ publicB.length = 256 ∧ ∃ keyA' keyB',
          deriveSymmetricKeyFromPublic gmp dhA arraysA keyA publicB = some keyA' ∧
          deriveSymmetricKeyFromPublic gmp dhB arraysB keyB publicA = some keyB' ∧
          keyA'.symmetricKey = keyB'.symmetricKey) ∧
      ∀ resA resB, ∃ publicA publicB keyA' keyB',
        handleTlsRecviever gmp dhA arraysA resA (some publicB) true keyA =
          some ⟨true, some publicA, keyA'⟩ ∧
        handleTlsSender gmp dhB arraysB resB (some publicA) true keyB =
          some ⟨true, some publicB, keyB'⟩ ∧
        keyA'.symmetricKey = keyB'.symmetricKey := by
  have hp0 : 0 < directory.p := Nat.zero_lt_of_lt hp
  simp only [setGlobals_getGlobals hgmp hpBytes hg]
  intro keyA keyB arraysA arraysB hA hB
  constructor
  · intro publicA publicB hpublishedA hpublishedB
    rw [hA] at hpublishedA
    rw [hB] at hpublishedB
    have hpublicA := hpublishedA.eq_fixedBytes hgmp hp0 hpBytes
    have hpublicB := hpublishedB.eq_fixedBytes hgmp hp0 hpBytes
    obtain ⟨keyA', hderiveA, -, hsymmetricA⟩ :=
      deriveSymmetricKeyFromPublic_published hgmp hp0 hpBytes arraysA hA hpublicB
    obtain ⟨keyB', hderiveB, -, hsymmetricB⟩ :=
      deriveSymmetricKeyFromPublic_published hgmp hp0 hpBytes arraysB hB hpublicA
    refine ⟨?_, ?_, keyA', keyB', hderiveA, hderiveB, ?_⟩
    · rw [hpublicA]
      exact length_fixedBytes ((Nat.mod_lt _ hp0).trans hpBytes)
    · rw [hpublicB]
      exact length_fixedBytes ((Nat.mod_lt _ hp0).trans hpBytes)
    -- Both sides raise `g` to the product of the two exponents.
    · rw [hsymmetricA, hsymmetricB, Nat.mul_comm]
  · intro resA resB
    obtain ⟨keyA', hreceiver, -, hsymmetricA⟩ :=
      handleTlsRecviever_published hgmp hp0 hpBytes arraysA resA hA (y := y) rfl
    obtain ⟨keyB', hsender, -, hsymmetricB⟩ :=
      handleTlsSender_published hgmp hp0 hpBytes arraysB resB hB (y := x) rfl
    refine ⟨_, _, keyA', keyB', hreceiver, hsender, ?_⟩
    rw [hsymmetricA, hsymmetricB, Nat.mul_comm]

/-- GMP on the natural numbers. -/
def natGmp : Gmp := ⟨ofBytesLE, toBytesLE, fun base exp mod => base ^ exp % mod⟩

theorem natGmp_documented : natGmp.Documented := ⟨fun _ => rfl, fun _ => rfl, fun _ _ _ _ => rfl⟩

/-- The modulus 23, the generator 5, and the private numbers 6 and 15. -/
theorem key_agreement_small : ∃ publicA publicB keyA keyB,
    handleTlsRecviever natGmp ⟨23, 5⟩ ⟨fun _ => 0, fun _ => 0⟩ (fun _ => 0) (some publicB) true
      (initKey (genDhPrimeIdentityKey natGmp ⟨23, 5⟩ 6)) = some ⟨true, some publicA, keyA⟩ ∧
    handleTlsSender natGmp ⟨23, 5⟩ ⟨fun _ => 0, fun _ => 0⟩ (fun _ => 0) (some publicA) true
      (initKey (genDhPrimeIdentityKey natGmp ⟨23, 5⟩ 15)) = some ⟨true, some publicB, keyB⟩ ∧
    keyA.symmetricKey = keyB.symmetricKey := by
  have hsmall : 23 < 2 ^ 2048 := by
    have hpow : ∀ n, n < 2 ^ n := fun n => Nat.lt_two_pow_self
    exact lt_trans (show 23 < 2048 by norm_num) (hpow 2048)
  have hglobals : setGlobals natGmp ⟨0, 0⟩ (getGlobals natGmp ⟨23, 5⟩ fun _ => 0).1
      (getGlobals natGmp ⟨23, 5⟩ fun _ => 0).2 = ⟨23, 5⟩ :=
    setGlobals_getGlobals natGmp_documented hsmall (by norm_num) _ _
  have hagree := @key_agreement natGmp natGmp_documented ⟨23, 5⟩ (by norm_num) hsmall
    (by norm_num) (fun _ => 0) ⟨0, 0⟩ ⟨0, 0⟩ 6 15
  simp only [hglobals] at hagree
  exact (hagree (initKey _) (initKey _) _ _ rfl rfl).2 _ _

end OnionRouter.Crypto
