import KmControl.ByteFields
import KmControl.Decimal
import Mathlib.Tactic.IntervalCases

/-!
What both sides of the pairing are made of: bytes as hexadecimal digits, the key that a PIN
gives, the cipher block by block, and the documents of the replies. The primitives of
cryptography and the parser of documents are parameters.
-/
namespace KmControl.Pairing

section Hex

def hexByte (b : UInt8) : List Char := [Nat.digitChar (b.toNat / 16), Nat.digitChar (b.toNat % 16)]

def hexEncode (l : Bytes) : String := String.ofList (l.flatMap hexByte)

/-- The value of a digit, of which the letters can be large. -/
def hexValue (c : Char) : Option ℕ :=
  if 48 ≤ c.toNat ∧ c.toNat ≤ 57 then some (c.toNat - 48)
  else if 97 ≤ c.toNat ∧ c.toNat ≤ 102 then some (c.toNat - 87)
  else if 65 ≤ c.toNat ∧ c.toNat ≤ 70 then some (c.toNat - 55)
  else none

def hexPairs : List Char → Option Bytes
  | [] => some []
  | [_] => none
  | high :: low :: rest =>
    match hexValue high, hexValue low, hexPairs rest with
    | some h, some l, some bytes => some (UInt8.ofNat (16 * h + l) :: bytes)
    | _, _, _ => none

def hexDecode (s : String) : Option Bytes := hexPairs s.toList

theorem hexValue_digitChar {n : ℕ} (h : n < 16) :
    hexValue (Nat.digitChar n) = some n ∧ Decimal.isWhitespace (Nat.digitChar n) = false := by
  interval_cases n <;> decide

theorem hexPairs_flatMap (l : Bytes) : hexPairs (l.flatMap hexByte) = some l := by
  induction l with
  | nil => rfl
  | cons b l ih =>
    have hlt := b.toNat_lt
    have hbyte : UInt8.ofNat (16 * (b.toNat / 16) + b.toNat % 16) = b := by
      rw [Nat.div_add_mod, UInt8.ofNat_toNat]
    have hhigh := (hexValue_digitChar (show b.toNat / 16 < 16 by omega)).1
    have hlow := (hexValue_digitChar (show b.toNat % 16 < 16 by omega)).1
    rw [List.flatMap_cons]
    change hexPairs (Nat.digitChar (b.toNat / 16) :: Nat.digitChar (b.toNat % 16) ::
      l.flatMap hexByte) = _
    rw [hexPairs, hhigh, hlow, ih]
    dsimp only
    rw [hbyte]

/-- What is written in digits is read. -/
@[simp] theorem hexDecode_hexEncode (l : Bytes) : hexDecode (hexEncode l) = some l := by
  unfold hexDecode hexEncode
  rw [String.toList_ofList, hexPairs_flatMap]

theorem not_isWhitespace_of_mem_hexEncode {l : Bytes} {c : Char} (h : c ∈ (hexEncode l).toList) :
    Decimal.isWhitespace c = false := by
  unfold hexEncode at h
  rw [String.toList_ofList] at h
  obtain ⟨b, -, hc⟩ := List.mem_flatMap.mp h
  have hlt := b.toNat_lt
  rcases List.mem_cons.mp hc with rfl | hc
  · exact (hexValue_digitChar (by omega)).2
  · rw [List.mem_singleton.mp hc]
    exact (hexValue_digitChar (by omega)).2

def utf8 (s : String) : Bytes := s.toByteArray.data.toList

def fromUtf8 (l : Bytes) : Option String := String.fromUTF8? ⟨l.toArray⟩

@[simp] theorem fromUtf8_utf8 (s : String) : fromUtf8 (utf8 s) = some s := by
  unfold fromUtf8 utf8
  rw [Array.toArray_toList]
  exact dif_pos s.isValidUTF8

end Hex

section Primitives

/-- The hash, the block cipher, and the keys and certificates of signatures. -/
structure Crypto where
  sha256 : Bytes → Bytes
  encryptBlock : (key block : Bytes) → Bytes
  decryptBlock : (key block : Bytes) → Bytes
  rsaSign : (keyPem : String) → (data : Bytes) → Option Bytes
  rsaVerify : (certPem : String) → (data signature : Bytes) → Bool
  /-- The signature that a certificate carries itself. -/
  certSignature : (certPem : String) → Option Bytes
  certFingerprint : (certPem : String) → Option String

variable (c : Crypto)

/-- The hash has 32 bytes, and under each key the cipher is a permutation of the blocks. -/
structure Crypto.Lawful : Prop where
  length_sha256 : ∀ data, (c.sha256 data).length = 32
  length_encryptBlock : ∀ key block, block.length = 16 → (c.encryptBlock key block).length = 16
  length_decryptBlock : ∀ key block, block.length = 16 → (c.decryptBlock key block).length = 16
  decrypt_encrypt : ∀ key block, key.length = 16 → block.length = 16 →
    c.decryptBlock key (c.encryptBlock key block) = block
  encrypt_decrypt : ∀ key block, key.length = 16 → block.length = 16 →
    c.encryptBlock key (c.decryptBlock key block) = block

/-- A certificate that can be parsed, and the key that belongs to it. -/
structure Crypto.KeyPair (certPem keyPem : String) : Prop where
  named : certPem ≠ ""
  signature : ∃ sig, c.certSignature certPem = some sig
  fingerprint : ∃ f, c.certFingerprint certPem = some f
  signed : ∀ data, ∃ sig, c.rsaSign keyPem data = some sig ∧ c.rsaVerify certPem data sig = true

def deriveKey (salt : Bytes) (pin : String) : Bytes := (c.sha256 (salt ++ utf8 pin)).take 16

/-- A function of blocks in so many blocks. -/
def eachBlock (f : Bytes → Bytes) : ℕ → Bytes → Bytes
  | 0, _ => []
  | n + 1, data => f (data.take 16) ++ eachBlock f n (data.drop 16)

def ecb (f : Bytes → Bytes) (data : Bytes) : Option Bytes :=
  if data.length % 16 = 0 then some (eachBlock f (data.length / 16) data) else none

def aesEcbEncrypt (data key : Bytes) : Option Bytes := ecb (c.encryptBlock key) data

def aesEcbDecrypt (data key : Bytes) : Option Bytes := ecb (c.decryptBlock key) data

variable {c}

theorem length_deriveKey (h : c.Lawful) (salt : Bytes) (pin : String) :
    (deriveKey c salt pin).length = 16 :=
  List.length_take_of_le (by rw [h.length_sha256]; decide)

theorem length_eachBlock {f : Bytes → Bytes} (hf : ∀ b, b.length = 16 → (f b).length = 16)
    {n : ℕ} {data : Bytes} (h : data.length = 16 * n) : (eachBlock f n data).length = 16 * n := by
  induction n generalizing data with
  | zero => rfl
  | succ n ih =>
    have hblock : (data.take 16).length = 16 := List.length_take_of_le (by omega)
    have hrest : (data.drop 16).length = 16 * n := by
      rw [List.length_drop]
      omega
    rw [eachBlock, List.length_append, hf _ hblock, ih hrest]
    omega

theorem eachBlock_eachBlock {f g : Bytes → Bytes} (hf : ∀ b, b.length = 16 → (f b).length = 16)
    (hg : ∀ b, b.length = 16 → g (f b) = b) {n : ℕ} {data : Bytes} (h : data.length = 16 * n) :
    eachBlock g n (eachBlock f n data) = data := by
  induction n generalizing data with
  | zero => exact (List.length_eq_zero_iff.mp h).symm
  | succ n ih =>
    have hblock : (data.take 16).length = 16 := List.length_take_of_le (by omega)
    have hrest : (data.drop 16).length = 16 * n := by
      rw [List.length_drop]
      omega
    have hfirst := hf _ hblock
    rw [eachBlock, eachBlock, List.take_left' hfirst, List.drop_left' hfirst, hg _ hblock, ih hrest,
      List.take_append_drop]

/-- Functions that undo each other on blocks do so on whole texts. -/
theorem ecb_ecb {f g : Bytes → Bytes} (hf : ∀ b, b.length = 16 → (f b).length = 16)
    (hg : ∀ b, b.length = 16 → g (f b) = b) {data : Bytes} (h : data.length % 16 = 0) :
    ∃ out, ecb f data = some out ∧ out.length = data.length ∧ ecb g out = some data := by
  have hdata : data.length = 16 * (data.length / 16) := by omega
  have hlen := length_eachBlock hf hdata
  refine ⟨_, if_pos h, hlen.trans hdata.symm, ?_⟩
  unfold ecb
  rw [hlen, if_pos (Nat.mul_mod_right 16 _), Nat.mul_div_cancel_left _ (by decide),
    eachBlock_eachBlock hf hg hdata]

/-- What is encrypted is decrypted. -/
theorem aesEcbDecrypt_aesEcbEncrypt (h : c.Lawful) {data key : Bytes} (hkey : key.length = 16)
    (hdata : data.length % 16 = 0) :
    ∃ out, aesEcbEncrypt c data key = some out ∧ aesEcbDecrypt c out key = some data := by
  obtain ⟨out, hout, -, hback⟩ := ecb_ecb (h.length_encryptBlock key)
    (fun b hb => h.decrypt_encrypt key b hkey hb) hdata
  exact ⟨out, hout, hback⟩

theorem decrypt_of_encrypt (h : c.Lawful) {data key out : Bytes} (hkey : key.length = 16)
    (hout : aesEcbEncrypt c data key = some out) : aesEcbDecrypt c out key = some data := by
  have hdata : data.length % 16 = 0 := by
    by_contra hne
    exact nomatch (if_neg hne).symm.trans hout
  obtain ⟨out', hout', hback⟩ := aesEcbDecrypt_aesEcbEncrypt h hkey hdata
  obtain rfl := Option.some.inj (hout'.symm.trans hout)
  exact hback

end Primitives

section Documents

/-- The elements of a document in their order, each with its text. -/
abbrev Doc := List (String × Option String)

structure XmlTypes where
  parse : String → Option Doc

def xmlText (doc : Doc) (tag : String) : Option String :=
  ((doc.find? fun n => n.1 = tag).bind Prod.snd).map fun s => String.ofList (Decimal.trim s.toList)

def element (e : String × String) : String := "<" ++ e.1 ++ ">" ++ e.2 ++ "</" ++ e.1 ++ ">"

/-- The document of a reply that confirms. -/
def pairedXml (inner : String) : String :=
  "<root status_code=\"200\"><paired>1</paired>" ++ inner ++ "</root>"

/-- The document of a reply that refuses. -/
def badRequest : String := "<root status_code=\"400\"><paired>0</paired></root>"

/-- A document with no element but `paired` and at most another, whose text is hexadecimal. -/
structure XmlTypes.Lawful (xml : XmlTypes) : Prop where
  paired : ∃ text, xml.parse (pairedXml "") = some [("root", text), ("paired", some "1")]
  element : ∀ tag ∈ ["plaincert", "challengeresponse", "pairingsecret"], ∀ l : Bytes, l ≠ [] →
    ∃ text, xml.parse (pairedXml (element (tag, hexEncode l))) =
      some [("root", text), ("paired", some "1"), (tag, some (hexEncode l))]

end Documents

end KmControl.Pairing
