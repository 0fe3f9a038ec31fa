import KmControl.AesDecrypt
import KmControl.Pairing
import KmControl.Pem
import KmControl.Rsa

/-!
The primitives of the pairing as they are: SHA-256, AES with keys of sixteen bytes, and RSA
with keys and certificates that are read from their texts.
-/
namespace KmControl.Certificates

open Pairing Pem Rsa

section Items

/-- A value with its tag. -/
abbrev Item := UInt8 × Bytes

def itemLength : Bytes → Option (ℕ × Bytes)
  | [] => none
  | b :: rest =>
    if b < 128 then some (b.toNat, rest)
    else
      let count := b.toNat - 128
      if count ≤ rest.length then some (ofBytes (rest.take count), rest.drop count) else none

/-- The first value of some bytes, and the bytes behind it. -/
def item : Bytes → Option (Item × Bytes)
  | [] => none
  | tag :: rest => do
    let (n, rest) ← itemLength rest
    if n ≤ rest.length then some ((tag, rest.take n), rest.drop n) else none

/-- The values of some bytes, at most so many. -/
def items : ℕ → Bytes → Option (List Item)
  | _, [] => some []
  | 0, _ => none
  | fuel + 1, data => do
    let (first, rest) ← item data
    some (first :: (← items fuel rest))

def elements (i : Item) : Option (List Item) :=
  if i.1 = 0x30 then items i.2.length i.2 else none

/-- The sequence that some bytes begin with. -/
def sequence (data : Bytes) : Option (List Item) := do
  let (whole, _) ← item data
  elements whole

end Items

section Keys

structure Certificate where
  key : PublicKey
  signature : Bytes

/-- The key comes behind the name of the subject, which is the fifth of the fields; there can
be a version before them. -/
def certificate (der : Bytes) : Option Certificate := do
  let [body, _, signature] ← sequence der | none
  let fields := (← elements body).dropWhile fun i => i.1 = 0xa0
  let [_, bits] ← elements (← fields[5]?) | none
  let [n, e] ← sequence (bits.2.drop 1) | none
  some ⟨⟨ofBytes n.2, ofBytes e.2⟩, signature.2.drop 1⟩

def privateKey (der : Bytes) : Option PrivateKey := do
  let _ :: _ :: key :: _ ← sequence der | none
  let _ :: n :: _ :: d :: _ ← sequence key.2 | none
  some ⟨ofBytes n.2, ofBytes d.2⟩

def crypto : Crypto where
  sha256 := Sha256.digest
  encryptBlock := Aes.encryptBlock
  decryptBlock := Aes.decryptBlock
  rsaSign keyPem data :=
    ((pemContents "PRIVATE KEY" keyPem).bind privateKey).bind fun key => key.sign data
  rsaVerify certPem data signature :=
    ((pemContents "CERTIFICATE" certPem).bind certificate).any fun cert =>
      cert.key.verify data signature
  certSignature certPem :=
    ((pemContents "CERTIFICATE" certPem).bind certificate).map Certificate.signature
  certFingerprint certPem :=
    (pemContents "CERTIFICATE" certPem).map fun der => hexEncode (Sha256.digest der)

theorem crypto_lawful : crypto.Lawful where
  length_sha256 := Sha256.length_digest
  length_encryptBlock _ _ _ := Aes.length_rounds 9 1 _ _
  length_decryptBlock key block _ := Aes.length_decryptBlock key block
  decrypt_encrypt key _ _ hblock := Aes.decryptBlock_encryptBlock key hblock
  encrypt_decrypt key _ _ hblock := Aes.encryptBlock_decryptBlock key hblock

/-- A certificate and a key belong together if their powers take each other back. -/
theorem crypto_keyPair {certDer keyDer : Bytes} {n e d : ℕ}
    (hcert : (certificate certDer).map Certificate.key = some ⟨n, e⟩)
    (hkey : privateKey keyDer = some ⟨n, d⟩) (f : Factors n e d) (hsize : 62 ≤ size n) :
    crypto.KeyPair (pem "CERTIFICATE" certDer) (pem "PRIVATE KEY" keyDer) := by
  obtain ⟨cert, hparse, hpublic⟩ := Option.map_eq_some_iff.mp hcert
  have hcontents := pemContents_pem "CERTIFICATE" certDer
  refine ⟨fun hempty => ?_, ⟨cert.signature, ?_⟩, ⟨hexEncode (Sha256.digest certDer), ?_⟩,
    fun data => ?_⟩
  · rw [hempty] at hcontents
    exact nomatch hcontents
  · change ((pemContents _ _).bind certificate).map _ = _
    rw [hcontents, Option.bind_some, hparse, Option.map_some]
  · change (pemContents _ _).map _ = _
    rw [hcontents, Option.map_some]
  · obtain ⟨signature, hsigned, hverify⟩ := verify_sign f hsize data
    refine ⟨signature, ?_, ?_⟩
    · change ((pemContents _ _).bind privateKey).bind _ = _
      rw [pemContents_pem, Option.bind_some, hkey]
      exact hsigned
    · change ((pemContents _ _).bind certificate).any _ = _
      rw [hcontents, Option.bind_some, hparse, Option.any_some, hpublic]
      exact hverify

end Keys

section Pairs

def hostCert : Bytes :=
  [0x308201193081c4020101300d06092a864886f70d01010b050030183116301406,
    0x035504030c0d4b6d6353747265616d686f7374301e170d323631313139313234,
    0x3435315a170d3336313131363132343435315a30183116301406035504030c0d,
    0x4b6d6353747265616d686f7374305c300d06092a864886f70d0101010500034b,
    0x003048024100a48daf8a94c02a6e295d4d359fcc000000000000000000000000,
    0x0000000000019cc4883148c7b8ecd5ad80000000000000000000000000000000,
    0x0000000000010203010001300d06092a864886f70d01010b050003410002b0a1,
    0x125cacba0c6414c78d9b4567947e277c2708f10b47a4371db1f2106a34b003ec].flatMap (toBytes 32) ++
      toBytes 29 0x87e26e222ba4990f94be44ac33971bee4b48c69d1d431e3e68ab5e77a3

def hostKey : Bytes :=
  [0x30820153020100300d06092a864886f70d01010105000482013d308201390201,
    0x00024100a48daf8a94c02a6e295d4d359fcc0000000000000000000000000000,
    0x000000019cc4883148c7b8ecd5ad800000000000000000000000000000000000,
    0x0000000102030100010240244a0edd7c028918f44c5c3ba83b0000ffff0000ff,
    0xff0000ffff0000ffff0000ffff0000ffff0000ffff0000ffff0000ffff0000ff,
    0xff0000ffff0000ffff0001022100b8bc8a480000000000000000000000000000,
    0x0000000000000000000000000001022100e407fde948c7b8ecd5ad8000000000,
    0x00000000000000000000000000000000010220690f5878ffff0000ffff0000ff,
    0xff0000ffff0000ffff0000ffff0000ffff000102206313a1dc097655bff97b80,
    0x00ffff0000ffff0000ffff0000ffff0000ffff000102205a83483a004d0797f0].flatMap (toBytes 32) ++
      toBytes 23 0x35281aa218b4b66785e2a9e6793f24eb9f77a41cddb389

def clientCert : Bytes :=
  [0x308201113081bc020101300d06092a864886f70d01010b050030143112301006,
    0x035504030c094b6d63436c69656e74301e170d3236313131393132343435315a,
    0x170d3336313131363132343435315a30143112301006035504030c094b6d6343,
    0x6c69656e74305c300d06092a864886f70d0101010500034b003048024100b7c7,
    0x53df7db7b794fdf8b669f33d8c0360614c31ae12bf57ed5bcfcd4b77e7fbfa2c,
    0x3501ece1a3998dde52abbd07de27ca01cde0f11e1f5e69528fd8000000010203,
    0x010001300d06092a864886f70d01010b05000341004d3106797c7abf9c5b3785,
    0x81237d09ae2f65c80c3b1c94e9f6b9f4e7752fa97b07ccadc864ba2975887b87].flatMap (toBytes 32) ++
      toBytes 21 0x415834dd3c7d83792c3887f227fefdd2bcc9c46127

def clientKey : Bytes :=
  [0x30820155020100300d06092a864886f70d01010105000482013f3082013b0201,
    0x00024100b7c753df7db7b794fdf8b669f33d8c0360614c31ae12bf57ed5bcfcd,
    0x4b77e7fbfa2c3501ece1a3998dde52abbd07de27ca01cde0f11e1f5e69528fd8,
    0x00000001020301000102403d253fbdb34965f6578de1bb5ca7d4a6e6f158758b,
    0x1247c18c82a8a008850b94ce53b134f3a5310c24ddfd40ffff0000ffff0000ff,
    0xff0000ffff0000ffff00010221012887da7ec841b1f5f7c643ec4bef8b580000,
    0x00000000000000000000000000010221009ea8c2fe986b3ea6faf4547f711852,
    0xcfca01cde0f11e1f5e69528fd800000001022101263a46aeedfd619b7213246a,
    0x5e9e7d60ffff0000ffff0000ffff0000ffff0001022044fdb99d2006327e45ce,
    0x0d1845c37fef1f365da21cf72e48cd9fbb30ffff0001022100ec54530ce93210].flatMap (toBytes 32) ++
      toBytes 25 0x2d7923088d725526753c75ca249b851e9b48828da010d935e3

def hostPrime : ℕ × ℕ := (2 ^ 227 * 3 ^ 18 + 1, 2 ^ 175 * 3 ^ 51 + 1)

def hostSecret : ℕ :=
  0x244a0edd7c028918f44c5c3ba83b0000ffff0000ffff0000ffff0000ffff0000 * 2 ^ 256 +
    0xffff0000ffff0000ffff0000ffff0000ffff0000ffff0000ffff0000ffff0001

def clientPrime : ℕ × ℕ := (2 ^ 131 * 3 ^ 79 + 1, 2 ^ 35 * 3 ^ 139 + 1)

def clientSecret : ℕ :=
  0x3d253fbdb34965f6578de1bb5ca7d4a6e6f158758b1247c18c82a8a008850b94 * 2 ^ 256 +
    0xce53b134f3a5310c24ddfd40ffff0000ffff0000ffff0000ffff0000ffff0001

def hostFactors : Factors (hostPrime.1 * hostPrime.2) 65537 hostSecret where
  p := hostPrime.1
  q := hostPrime.2
  prime_p := prime_of_generator 5 rfl (by decide +kernel)
  prime_q := prime_of_generator 15 rfl (by decide +kernel)
  ne := by decide +kernel
  modulus := rfl
  inverse_p := by decide +kernel
  inverse_q := by decide +kernel

def clientFactors : Factors (clientPrime.1 * clientPrime.2) 65537 clientSecret where
  p := clientPrime.1
  q := clientPrime.2
  prime_p := prime_of_generator 7 rfl (by decide +kernel)
  prime_q := prime_of_generator 5 rfl (by decide +kernel)
  ne := by decide +kernel
  modulus := rfl
  inverse_p := by decide +kernel
  inverse_q := by decide +kernel

theorem keyPair_host :
    crypto.KeyPair (pem "CERTIFICATE" hostCert) (pem "PRIVATE KEY" hostKey) :=
  crypto_keyPair (by decide +kernel) (by decide +kernel) hostFactors (by decide +kernel)

theorem keyPair_client :
    crypto.KeyPair (pem "CERTIFICATE" clientCert) (pem "PRIVATE KEY" clientKey) :=
  crypto_keyPair (by decide +kernel) (by decide +kernel) clientFactors (by decide +kernel)

end Pairs

end KmControl.Certificates
