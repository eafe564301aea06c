import Mathlib.NumberTheory.Bertrand
import OnionRouter.Crypto.DiffieHellman
import OnionRouter.Lib.Lucas

/-!
# The parameters of the key agreement

`init_dh`, `generate_prime` and `generate_prime_low_p` of `encryptions/dh/dh.c`: the directory
draws the modulus, and everyone a private number.

* `initDh_spec`: whatever is read from `/dev/urandom`, the modulus is an odd prime of exactly
  2048 bits. That the next prime does not have one more is seen from a prime behind all of the
  numbers that can be drawn.
* `drawn_agreement`: the private numbers are primes below the modulus, found when one of the
  draws is small enough, and lead to keys that agree.
-/

namespace OnionRouter.Crypto

open Lib Memory

/-! ## GMP -/

/-- What `init_dh` and `gen_dh_prime_identity_key` call of GMP besides: `mpz_nextprime`. -/
structure GmpPrimes extends Gmp where
  mpzNextprime : ℕ → ℕ

/-- It gives the next prime. -/
structure GmpPrimes.Documented (gmp : GmpPrimes) : Prop extends gmp.toGmp.Documented where
  lt_mpzNextprime : ∀ n, n < gmp.mpzNextprime n
  prime_mpzNextprime : ∀ n, (gmp.mpzNextprime n).Prime
  mpzNextprime_le : ∀ n q, q.Prime → n < q → gmp.mpzNextprime n ≤ q

/-! ## Drawing -/

/-- The constant `G_GLOBAL`. -/
def gGlobal : ℕ := 5

section Draw

variable (gmp : GmpPrimes)

/-- `random_mpz_from_urandom`, with what it reads. -/
def randomMpzFromUrandom (buffer : List UInt8) : ℕ := gmp.mpzImport buffer

/-- `generate_prime`, with what is read. `mpz_setbit` sets the bit. -/
def generatePrime (buffer : List UInt8) (bytes : ℕ) : ℕ :=
  let res := randomMpzFromUrandom gmp buffer
  let res := res ||| 2 ^ (bytes * 8 - 1)
  let res := res ||| 2 ^ 0
  gmp.mpzNextprime res

/-- `generate_prime_low_p`, with what is read in each round; `none` while it goes on. -/
def generatePrimeLowP (p : ℕ) : List (List UInt8) → Option ℕ
  | [] => none
  | buffer :: buffers =>
    let res := gmp.mpzNextprime (randomMpzFromUrandom gmp buffer)
    if res < p then some res else generatePrimeLowP p buffers

/-- `init_dh`, with the 255 bytes that are read. -/
def initDh (buffer : List UInt8) : DhGlobals := ⟨generatePrime gmp buffer dhKeyBytes, gGlobal⟩

end Draw

/-! ## A prime of 2048 bits -/

/-- A prime behind all the numbers that `generate_prime` starts from. -/
def bound : ℕ := 1281 * 2 ^ (2036 + 1) + 1

theorem prime_bound : bound.Prime :=
  prime_of_squarings 5 [3, 7, 61] (by decide) rfl (by decide +kernel) (by decide +kernel)
    (by decide +kernel)

theorem lt_bound : 2 ^ (dhKeyBytes * 8 - 1) + 2 ^ (8 * (dhKeyBytes - 1)) < bound := by decide +kernel

theorem bound_lt : bound < 2 ^ 2048 := by decide +kernel

theorem ofBytesLE_lt (l : List UInt8) : ofBytesLE l < 2 ^ (8 * l.length) := by
  induction l with
  | nil => exact Nat.one_pos
  | cons b l ih =>
    have hb := b.toNat_lt
    rw [ofBytesLE_cons, List.length_cons, Nat.mul_succ, pow_add]
    omega

/-! ## The modulus -/

/-- The group of the key agreement: a prime modulus that fills its 256 bytes and no fewer, and a
    generator that is not zero in it. -/
structure DhGlobals.Sound (dh : DhGlobals) : Prop where
  prime : dh.p.Prime
  le_p : 2 ^ 2047 < dh.p
  p_lt : dh.p < 2 ^ 2048
  g_pos : 0 < dh.g
  g_lt : dh.g < 2 ^ 64

namespace DhGlobals.Sound

variable {dh : DhGlobals} (h : dh.Sound)

include h

theorem g_lt_p : dh.g < dh.p :=
  h.g_lt.trans ((Nat.pow_lt_pow_right (by decide) (by decide)).trans h.le_p)

/-- No public number is zero, and no common one. -/
theorem pow_mod_pos (x : ℕ) : 0 < dh.g ^ x % dh.p := by
  refine Nat.pos_of_ne_zero fun hzero => ?_
  have hdvd := h.prime.dvd_of_dvd_pow (Nat.dvd_of_mod_eq_zero hzero)
  exact (Nat.le_of_dvd h.g_pos hdvd).not_gt h.g_lt_p

end DhGlobals.Sound

section Init

variable {gmp : GmpPrimes} (hgmp : gmp.Documented)

include hgmp

/-- Where `generate_prime` starts from. -/
theorem generatePrime_start {buffer : List UInt8} {bytes : ℕ} (hbytes : 2 ≤ bytes)
    (hbuffer : buffer.length = bytes - 1) :
    ∃ n, 2 ^ (bytes * 8 - 1) ≤ n ∧ n < 2 ^ (bytes * 8 - 1) + 2 ^ (8 * (bytes - 1)) ∧
      generatePrime gmp buffer bytes = gmp.mpzNextprime n := by
  have hlt : randomMpzFromUrandom gmp buffer < 2 ^ (8 * (bytes - 1)) := by
    rw [randomMpzFromUrandom, hgmp.mpzImport_eq, ← hbuffer]
    exact ofBytesLE_lt buffer
  refine ⟨_, Nat.right_le_or.trans Nat.left_le_or, ?_, rfl⟩
  have hlow : randomMpzFromUrandom gmp buffer ||| 2 ^ 0 < 2 ^ (8 * (bytes - 1)) :=
    Nat.or_lt_two_pow hlt (Nat.pow_lt_pow_right one_lt_two (by omega))
  have hle : 8 * (bytes - 1) ≤ bytes * 8 - 1 := by omega
  have hor := Nat.two_pow_add_eq_or_of_lt (hlow.trans_le (Nat.pow_le_pow_right two_pos hle)) 1
  rw [mul_one] at hor
  rw [Nat.or_comm _ (2 ^ (bytes * 8 - 1)), Nat.or_assoc, ← hor]
  exact Nat.add_lt_add_left hlow _

/-- Whatever is drawn, `init_dh` makes a group: the directory exports it to 256 bytes and writes
    nothing behind them, and everyone who gets these has the same one. -/
theorem initDh_spec {buffer : List UInt8} (hbuffer : buffer.length = dhKeyBytes - 1) :
    (initDh gmp buffer).Sound ∧ (initDh gmp buffer).p % 2 = 1 ∧
      ∀ (old : DhGlobals) (res : Memory UInt8),
        exportMpzFixed gmp.toGmp res (initDh gmp buffer).p dhKeyBytes =
            res.write 0 (fixedBytes (initDh gmp buffer).p) ∧
        (getGlobals gmp.toGmp (initDh gmp buffer) res).2 = fixedBytes (initDh gmp buffer).p ∧
        (fixedBytes (initDh gmp buffer).p).length = dhKeyBytes ∧
        setGlobals gmp.toGmp old (getGlobals gmp.toGmp (initDh gmp buffer) res).1
          (getGlobals gmp.toGmp (initDh gmp buffer) res).2 = initDh gmp buffer := by
  obtain ⟨n, hle, hlt, hprime⟩ := generatePrime_start hgmp (by decide) hbuffer
  have hbound := hlt.trans lt_bound
  rw [show dhKeyBytes * 8 - 1 = 2047 from rfl] at hle
  have hsound : (initDh gmp buffer).Sound := by
    refine ⟨?_, ?_, ?_, show 0 < gGlobal by decide, show gGlobal < 2 ^ 64 by decide⟩
    · show (generatePrime gmp buffer dhKeyBytes).Prime
      rw [hprime]
      exact hgmp.prime_mpzNextprime n
    · show 2 ^ 2047 < generatePrime gmp buffer dhKeyBytes
      rw [hprime]
      exact hle.trans_lt (hgmp.lt_mpzNextprime n)
    · show generatePrime gmp buffer dhKeyBytes < 2 ^ 2048
      rw [hprime]
      exact (hgmp.mpzNextprime_le n bound prime_bound hbound).trans_lt bound_lt
  have hodd : (initDh gmp buffer).p % 2 = 1 := by
    refine (hsound.prime.eq_two_or_odd).resolve_left fun htwo => ?_
    have hg := hsound.g_lt_p
    rw [htwo] at hg
    exact absurd hg (show ¬ gGlobal < 2 by decide)
  refine ⟨hsound, hodd, fun old res => ⟨exportMpzFixed_eq hgmp.toDocumented hsound.p_lt res,
    read_exportMpzFixed hgmp.toDocumented hsound.p_lt res, length_fixedBytes hsound.p_lt, ?_⟩⟩
  exact setGlobals_getGlobals hgmp.toDocumented hsound.p_lt hsound.g_lt old res

/-! ## The private numbers -/

/-- A private number is a prime below the modulus. By induction on the draws. -/
theorem generatePrimeLowP_eq_some {p x : ℕ} {buffers : List (List UInt8)}
    (h : generatePrimeLowP gmp p buffers = some x) : x.Prime ∧ x < p := by
  induction buffers with
  | nil => cases h
  | cons buffer buffers ih =>
    rw [generatePrimeLowP] at h
    by_cases hlt : gmp.mpzNextprime (randomMpzFromUrandom gmp buffer) < p
    · obtain rfl := Option.some_inj.1 ((if_pos hlt).symm.trans h)
      exact ⟨hgmp.prime_mpzNextprime _, hlt⟩
    · exact ih ((if_neg hlt).symm.trans h)

/-- A draw of two bits less than the modulus ends the loop: there is a prime between. -/
theorem generatePrimeLowP_isSome {p m n : ℕ} (hm : m = n + 1) (hp : 2 ^ m < p)
    {buffers : List (List UInt8)} {drawn : List UInt8} (hmem : drawn ∈ buffers)
    (hdrawn : ofBytesLE drawn < 2 ^ n) : (generatePrimeLowP gmp p buffers).isSome := by
  obtain rfl := hm
  induction buffers with
  | nil => cases hmem
  | cons buffer buffers ih =>
    rw [generatePrimeLowP, randomMpzFromUrandom, hgmp.mpzImport_eq]
    by_cases hlt : gmp.mpzNextprime (ofBytesLE buffer) < p
    · rw [if_pos hlt]
      rfl
    · rw [if_neg hlt]
      refine ih ((List.mem_cons.1 hmem).resolve_left fun heq => hlt ?_)
      obtain ⟨q, hq, hgt, hle⟩ :=
        Nat.exists_prime_lt_and_le_two_mul (2 ^ n) (Nat.two_pow_pos n).ne'
      rw [← heq]
      refine (hgmp.mpzNextprime_le _ q hq (hdrawn.trans hgt)).trans_lt (hle.trans_lt ?_)
      rwa [← pow_succ']

/-- The numbers of two parties, one of which has the group from the other: they are found if one
    draw of each has its two upper bits clear, they are primes below the modulus, neither public
    number is zero, and both derive the same key. -/
theorem drawn_agreement {buffer : List UInt8} (hbuffer : buffer.length = dhKeyBytes - 1)
    (old : DhGlobals) (globalsRes : Memory UInt8) (buffers buffers' : List (List UInt8)) :
    let dh := initDh gmp buffer
    let globals := getGlobals gmp.toGmp dh globalsRes
    let dh' := setGlobals gmp.toGmp old globals.1 globals.2
    ((∃ drawn ∈ buffers, ofBytesLE drawn < 2 ^ 2046) → (generatePrimeLowP gmp dh.p buffers).isSome) ∧
    ((∃ drawn ∈ buffers', ofBytesLE drawn < 2 ^ 2046) →
      (generatePrimeLowP gmp dh'.p buffers').isSome) ∧
    ∀ x ∈ generatePrimeLowP gmp dh.p buffers, ∀ y ∈ generatePrimeLowP gmp dh'.p buffers',
      let id := genDhPrimeIdentityKey gmp.toGmp dh x
      let id' := genDhPrimeIdentityKey gmp.toGmp dh' y
      (x.Prime ∧ x < dh.p ∧ 0 < id.thisPublic ∧ id.thisPublic < dh.p) ∧
      (y.Prime ∧ y < dh.p ∧ 0 < id'.thisPublic ∧ id'.thisPublic < dh.p) ∧
      ∀ (arrays arrays' : DeriveArrays) (res res' : Memory UInt8), ∃ key key',
        deriveSymmetricKeyFromPublic gmp.toGmp dh arrays (initKey id)
          (getPublicIdentityKey gmp.toGmp id' res') = some key ∧
        deriveSymmetricKeyFromPublic gmp.toGmp dh' arrays' (initKey id')
          (getPublicIdentityKey gmp.toGmp id res) = some key' ∧
        key.symmetricKey = key'.symmetricKey := by
  obtain ⟨hsound, -, hexport⟩ := initDh_spec hgmp hbuffer
  simp only [(hexport old globalsRes).2.2.2]
  have hdrawn : ∀ buffers, (∃ drawn ∈ buffers, ofBytesLE drawn < 2 ^ 2046) →
      (generatePrimeLowP gmp (initDh gmp buffer).p buffers).isSome := by
    rintro buffers ⟨drawn, hmem, hlt⟩
    exact generatePrimeLowP_isSome (m := 2047) (n := 2046) hgmp rfl hsound.le_p hmem hlt
  generalize initDh gmp buffer = dh at hsound hdrawn ⊢
  have hp : 0 < dh.p := hsound.prime.pos
  have hparty : ∀ {buffers x}, x ∈ generatePrimeLowP gmp dh.p buffers → x.Prime ∧ x < dh.p ∧
      0 < (genDhPrimeIdentityKey gmp.toGmp dh x).thisPublic ∧
      (genDhPrimeIdentityKey gmp.toGmp dh x).thisPublic < dh.p := by
    intro buffers x hx
    obtain ⟨hprime, hlt⟩ := generatePrimeLowP_eq_some hgmp hx
    rw [genDhPrimeIdentityKey, hgmp.mpzPowm_eq _ _ _ hp]
    exact ⟨hprime, hlt, hsound.pow_mod_pos x, Nat.mod_lt _ hp⟩
  refine ⟨hdrawn buffers, hdrawn buffers', fun x hx y hy => ⟨hparty hx, hparty hy, ?_⟩⟩
  intro arrays arrays' res res'
  have hpublic := getPublicIdentityKey_gen hgmp.toDocumented hp hsound.p_lt
  have hinit : ∀ x, (initKey (genDhPrimeIdentityKey gmp.toGmp dh x)).identity =
      genDhPrimeIdentityKey gmp.toGmp dh x := fun _ => rfl
  obtain ⟨key, hkey, -, hsymmetric⟩ := deriveSymmetricKeyFromPublic_published hgmp.toDocumented hp
    hsound.p_lt arrays (hinit x) (hpublic y res')
  obtain ⟨key', hkey', -, hsymmetric'⟩ := deriveSymmetricKeyFromPublic_published hgmp.toDocumented hp
    hsound.p_lt arrays' (hinit y) (hpublic x res)
  refine ⟨key, key', hkey, hkey', ?_⟩
  rw [hsymmetric, hsymmetric', mul_comm]

end Init

/-- GMP by the numbers of Lean. -/
def natPrimes : GmpPrimes where
  toGmp := natGmp
  mpzNextprime n := Nat.find (Nat.exists_infinite_primes (n + 1))

theorem natPrimes_documented : natPrimes.Documented where
  toDocumented := natGmp_documented
  lt_mpzNextprime n := (Nat.find_spec (Nat.exists_infinite_primes (n + 1))).1
  prime_mpzNextprime n := (Nat.find_spec (Nat.exists_infinite_primes (n + 1))).2
  mpzNextprime_le _ _ hq hlt := Nat.find_min' _ ⟨hlt, hq⟩

/-- The group of 255 zeros. -/
theorem initDh_spec_zeros : (initDh natPrimes (List.replicate 255 0)).Sound :=
  (initDh_spec natPrimes_documented List.length_replicate).1

/-- Two parties that draw zeros. -/
theorem drawn_agreement_zeros :
    let dh := initDh natPrimes (List.replicate 255 0)
    ∃ x y key key', generatePrimeLowP natPrimes dh.p [List.replicate 256 0] = some x ∧ x.Prime ∧
      deriveSymmetricKeyFromPublic natGmp dh default (initKey (genDhPrimeIdentityKey natGmp dh x))
        (getPublicIdentityKey natGmp (genDhPrimeIdentityKey natGmp dh y) fun _ => 0) = some key ∧
      deriveSymmetricKeyFromPublic natGmp dh default (initKey (genDhPrimeIdentityKey natGmp dh y))
        (getPublicIdentityKey natGmp (genDhPrimeIdentityKey natGmp dh x) fun _ => 0) = some key' ∧
      key.symmetricKey = key'.symmetricKey := by
  intro dh
  have hlength : (List.replicate 255 (0 : UInt8)).length = dhKeyBytes - 1 := List.length_replicate
  have hexport := (initDh_spec natPrimes_documented hlength).2.2 dh fun _ => 0
  have hzeros : ofBytesLE (List.replicate 256 0) < 2 ^ 2046 := by
    rw [show List.replicate 256 (0 : UInt8) = [] ++ List.replicate 256 0 from rfl, ofBytesLE_pad,
      ofBytesLE_nil]
    positivity
  have hagree := drawn_agreement natPrimes_documented hlength dh (fun _ => 0)
    [List.replicate 256 0] [List.replicate 256 0]
  simp only [hexport.2.2.2] at hagree
  obtain ⟨hsome, -, hkeys⟩ := hagree
  obtain ⟨x, hx⟩ := Option.isSome_iff_exists.1 (hsome ⟨_, List.mem_cons_self, hzeros⟩)
  obtain ⟨⟨hprime, -⟩, -, hderive⟩ := hkeys x hx x hx
  obtain ⟨key, key', hkey, hkey', hagree⟩ := hderive default default (fun _ => 0) fun _ => 0
  exact ⟨x, x, key, key', hx, hprime, hkey, hkey', hagree⟩

end OnionRouter.Crypto
