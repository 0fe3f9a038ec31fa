import KmControl.Sha256
import Mathlib.FieldTheory.Finite.Basic
import Mathlib.NumberTheory.LucasPrimality

/-!
Signatures with RSA: the hash of a message is padded to the length of the modulus and
raised to a secret power, and whoever knows the other power can take it back. The moduli
are products of two primes, of which those that exceed by one a number without prime
factors but two and three are recognized by a generator.
-/
namespace KmControl.Rsa

section Powers

/-- The power of so many bits, by squaring. -/
def powBits (n : ℕ) : (bits base exponent : ℕ) → ℕ
  | 0, _, _ => 1 % n
  | bits + 1, base, exponent =>
    let half := powBits n bits (base * base % n) (exponent / 2)
    if exponent % 2 = 0 then half else base * half % n

def powMod (n base exponent : ℕ) : ℕ := powBits n (exponent.log2 + 1) base exponent

theorem powBits_eq (n : ℕ) {bits base exponent : ℕ} (h : exponent < 2 ^ bits) :
    powBits n bits base exponent = base ^ exponent % n := by
  induction bits generalizing base exponent with
  | zero =>
    obtain rfl : exponent = 0 := by omega
    rfl
  | succ bits ih =>
    have hhalf : exponent / 2 < 2 ^ bits := by
      rw [Nat.pow_succ] at h
      omega
    have hsquare : (base * base % n) ^ (exponent / 2) % n = base ^ (2 * (exponent / 2)) % n := by
      rw [← Nat.pow_mod, Nat.pow_mul, Nat.pow_two]
    have hexponent := Nat.div_add_mod exponent 2
    unfold powBits
    dsimp only
    rw [ih hhalf, hsquare]
    split
    · rename_i heven
      rw [heven, Nat.add_zero] at hexponent
      rw [hexponent]
    · rename_i hodd
      rw [Nat.mod_two_ne_zero.mp hodd] at hexponent
      rw [Nat.mul_mod_mod, ← pow_succ', hexponent]

theorem powMod_eq (n base exponent : ℕ) : powMod n base exponent = base ^ exponent % n :=
  powBits_eq n Nat.lt_log2_self

end Powers

section Primes

theorem pow_eq_one_iff {p : ℕ} (hp : 1 < p) (g k : ℕ) :
    (g : ZMod p) ^ k = 1 ↔ powMod p g k = 1 := by
  rw [powMod_eq, ← Nat.cast_pow, ← Nat.cast_one, ZMod.natCast_eq_natCast_iff', Nat.mod_eq_of_lt hp]

/-- A number above a product of powers of two and of three is prime if it has a generator. -/
theorem prime_of_generator {p a b : ℕ} (g : ℕ) (hp : p = 2 ^ a * 3 ^ b + 1)
    (h : powMod p g (p - 1) = 1 ∧ powMod p g ((p - 1) / 2) ≠ 1 ∧ powMod p g ((p - 1) / 3) ≠ 1) :
    p.Prime := by
  have hlarge : 1 < p := by
    have hpos : 0 < 2 ^ a * 3 ^ b := by positivity
    omega
  refine lucas_primality p g ((pow_eq_one_iff hlarge g _).mpr h.1) fun q hq hdvd => ?_
  have hfactor : q = 2 ∨ q = 3 := by
    rw [hp, Nat.add_sub_cancel] at hdvd
    rcases hq.dvd_mul.mp hdvd with htwo | hthree
    · exact Or.inl ((Nat.prime_dvd_prime_iff_eq hq Nat.prime_two).mp (hq.dvd_of_dvd_pow htwo))
    · exact Or.inr ((Nat.prime_dvd_prime_iff_eq hq Nat.prime_three).mp (hq.dvd_of_dvd_pow hthree))
  rw [Ne, pow_eq_one_iff hlarge]
  rcases hfactor with rfl | rfl
  · exact h.2.1
  · exact h.2.2

/-- Two primes and two powers that take each other back. -/
structure Factors (n e d : ℕ) where
  p : ℕ
  q : ℕ
  prime_p : p.Prime
  prime_q : q.Prime
  ne : p ≠ q
  modulus : n = p * q
  inverse_p : e * d % (p - 1) = 1
  inverse_q : e * d % (q - 1) = 1

theorem pow_modEq {p k : ℕ} (hp : p.Prime) (hk : k % (p - 1) = 1) (m : ℕ) :
    m ^ k ≡ m [MOD p] := by
  have : Fact p.Prime := ⟨hp⟩
  have hk' : k = (p - 1) * (k / (p - 1)) + 1 := by
    have hdiv := Nat.div_add_mod k (p - 1)
    rw [hk] at hdiv
    exact hdiv.symm
  rw [← ZMod.natCast_eq_natCast_iff, Nat.cast_pow]
  by_cases hm : (m : ZMod p) = 0
  · rw [hm, hk', pow_succ, mul_zero]
  · rw [hk', pow_succ, pow_mul, ZMod.pow_card_sub_one_eq_one hm, one_pow, one_mul]

/-- The two powers take each other back. -/
theorem Factors.powMod_powMod {n e d : ℕ} (f : Factors n e d) {m : ℕ} (hm : m < n) :
    powMod n (powMod n m d) e = m := by
  have hcoprime : Nat.Coprime f.p f.q := (Nat.coprime_primes f.prime_p f.prime_q).mpr f.ne
  have hboth : m ^ (e * d) ≡ m [MOD f.p * f.q] := (Nat.modEq_and_modEq_iff_modEq_mul hcoprime).mp
    ⟨pow_modEq f.prime_p f.inverse_p m, pow_modEq f.prime_q f.inverse_q m⟩
  rw [powMod_eq, powMod_eq, ← Nat.pow_mod, ← Nat.pow_mul, Nat.mul_comm d e]
  rw [← f.modulus] at hboth
  exact Eq.trans hboth (Nat.mod_eq_of_lt hm)

end Primes

section Bytes

/-- A number in so many bytes, the most significant first. -/
def toBytes : ℕ → ℕ → Bytes
  | 0, _ => []
  | k + 1, m => toBytes k (m / 256) ++ [UInt8.ofNat m]

def ofBytes (l : Bytes) : ℕ := l.foldl (fun m b => 256 * m + b.toNat) 0

@[simp] theorem length_toBytes (k m : ℕ) : (toBytes k m).length = k := by
  induction k generalizing m with
  | zero => rfl
  | succ k ih => rw [toBytes, List.length_append, ih, List.length_singleton]

theorem ofBytes_concat (l : Bytes) (b : UInt8) : ofBytes (l ++ [b]) = 256 * ofBytes l + b.toNat := by
  simp [ofBytes]

theorem ofBytes_lt (l : Bytes) : ofBytes l < 256 ^ l.length := by
  induction l using List.reverseRecOn with
  | nil => decide
  | append_singleton l b ih =>
    have hb := b.toNat_lt
    rw [ofBytes_concat, List.length_append, List.length_singleton, Nat.pow_succ]
    omega

theorem ofBytes_toBytes {k m : ℕ} (h : m < 256 ^ k) : ofBytes (toBytes k m) = m := by
  induction k generalizing m with
  | zero =>
    obtain rfl : m = 0 := by omega
    rfl
  | succ k ih =>
    have hrest : m / 256 < 256 ^ k := by
      rw [Nat.pow_succ] at h
      omega
    rw [toBytes, ofBytes_concat, ih hrest, UInt8.toNat_ofNat']
    omega

theorem toBytes_ofBytes (l : Bytes) : toBytes l.length (ofBytes l) = l := by
  induction l using List.reverseRecOn with
  | nil => rfl
  | append_singleton l b ih =>
    have hb := b.toNat_lt
    have hrest : (256 * ofBytes l + b.toNat) / 256 = ofBytes l := by omega
    have hlast : UInt8.ofNat (256 * ofBytes l + b.toNat) = b := by
      apply UInt8.toNat_inj.mp
      rw [UInt8.toNat_ofNat']
      omega
    rw [ofBytes_concat, List.length_append, List.length_singleton, toBytes, hrest, ih, hlast]

end Bytes

section Signatures

structure PublicKey where
  n : ℕ
  e : ℕ
deriving DecidableEq

structure PrivateKey where
  n : ℕ
  d : ℕ
deriving DecidableEq

/-- The bytes of a modulus. -/
def size (n : ℕ) : ℕ := n.log2 / 8 + 1

/-- What says that the hash is SHA-256. -/
def digestInfo : Bytes :=
  [0x30, 0x31, 0x30, 0x0d, 0x06, 0x09, 0x60, 0x86, 0x48, 0x01, 0x65, 0x03, 0x04, 0x02, 0x01, 0x05,
    0x00, 0x04, 0x20]

/-- The hash of a message, padded to the length of the modulus. -/
def encode (n : ℕ) (data : Bytes) : Option Bytes :=
  if 62 ≤ size n then
    some (0 :: 1 :: List.replicate (size n - 54) 0xff ++ 0 :: digestInfo ++ Sha256.digest data)
  else none

def PrivateKey.sign (key : PrivateKey) (data : Bytes) : Option Bytes :=
  (encode key.n data).map fun em => toBytes (size key.n) (powMod key.n (ofBytes em) key.d)

def PublicKey.verify (key : PublicKey) (data signature : Bytes) : Bool :=
  decide (signature.length = size key.n) && decide (ofBytes signature < key.n) &&
    decide (encode key.n data = some (toBytes (size key.n) (powMod key.n (ofBytes signature) key.e)))

theorem pow_size_le {n : ℕ} (hn : n ≠ 0) : 256 ^ (size n - 1) ≤ n := by
  have hlog := Nat.log2_self_le hn
  calc 256 ^ (size n - 1) = 2 ^ (8 * (n.log2 / 8)) := by
        rw [size, Nat.add_sub_cancel, Nat.pow_mul]
    _ ≤ 2 ^ n.log2 := Nat.pow_le_pow_right (by decide) (Nat.mul_div_le _ _)
    _ ≤ n := hlog

theorem lt_pow_size (n : ℕ) : n < 256 ^ size n := by
  calc n < 2 ^ (n.log2 + 1) := Nat.lt_log2_self
    _ ≤ 2 ^ (8 * size n) := Nat.pow_le_pow_right (by decide) (by unfold size; omega)
    _ = 256 ^ size n := by rw [Nat.pow_mul]

theorem encode_spec {n : ℕ} (hn : n ≠ 0) {data em : Bytes} (h : encode n data = some em) :
    em.length = size n ∧ ofBytes em < n := by
  unfold encode at h
  split at h
  · rename_i hsize
    obtain rfl := Option.some.inj h
    have hlength : (List.replicate (size n - 54) 0xff ++ 0 :: digestInfo ++
        Sha256.digest data).length + 2 = size n := by
      simp only [List.length_append, List.length_cons, List.length_replicate, Sha256.length_digest]
      have hinfo : digestInfo.length = 19 := rfl
      omega
    refine ⟨hlength, ?_⟩
    have hlt := ofBytes_lt (1 :: (List.replicate (size n - 54) 0xff ++ 0 :: digestInfo ++
      Sha256.digest data))
    rw [List.length_cons] at hlt
    refine lt_of_lt_of_le hlt (le_trans ?_ (pow_size_le hn))
    exact Nat.pow_le_pow_right (by decide) (by omega)
  · cases h

/-- What is signed with the one power is verified with the other. -/
theorem verify_sign {n e d : ℕ} (f : Factors n e d) (hsize : 62 ≤ size n) (data : Bytes) :
    ∃ signature, PrivateKey.sign ⟨n, d⟩ data = some signature ∧
      PublicKey.verify ⟨n, e⟩ data signature = true := by
  have hn : n ≠ 0 := by
    rw [f.modulus]
    exact Nat.mul_ne_zero f.prime_p.ne_zero f.prime_q.ne_zero
  obtain ⟨em, hem⟩ : ∃ em, encode n data = some em := ⟨_, if_pos hsize⟩
  obtain ⟨hlength, hlt⟩ := encode_spec hn hem
  have hpower : powMod n (ofBytes em) d < n := by
    rw [powMod_eq]
    exact Nat.mod_lt _ (Nat.pos_of_ne_zero hn)
  refine ⟨toBytes (size n) (powMod n (ofBytes em) d), by rw [PrivateKey.sign, hem]; rfl, ?_⟩
  have hback : ofBytes (toBytes (size n) (powMod n (ofBytes em) d)) = powMod n (ofBytes em) d :=
    ofBytes_toBytes (hpower.trans (lt_pow_size n))
  have hem' : toBytes (size n) (ofBytes em) = em := by
    rw [← hlength, toBytes_ofBytes]
  unfold PublicKey.verify
  rw [hback, length_toBytes, f.powMod_powMod hlt, hem', hem]
  simp [hpower]

end Signatures

end KmControl.Rsa
