import KmControl.Aes
import KmControl.GsProto

/-!
What both ends of the control channel have in common: the message types, the
header, the cipher and the layout of an encrypted message,
`0x0001 | length | seq | tag | ciphertext`.
-/
namespace KmControl.ControlWire

open ByteFields

def msgEncrypted : UInt16 := 0x0001
def msgTerminationExt : UInt16 := 0x0109
def msgPing : UInt16 := 0x0200
def msgInputData : UInt16 := 0x0206
def msgInvalidateRef : UInt16 := 0x0301
def msgRequestIdr : UInt16 := 0x0302
def msgStartB : UInt16 := 0x0307
def msgFrameFecStatus : UInt16 := 0x5502

def tagLen : ℕ := 16

/-- An AES-128 key. -/
structure Key where
  bytes : Bytes
  length_bytes : bytes.length = 16

/-- AES-128-GCM with a detached tag, for messages of the sizes that occur here. -/
structure AesGcm where
  encrypt : (key : Key) → (iv plaintext : Bytes) → Bytes × Bytes
  decrypt : (key : Key) → (iv ciphertext tag : Bytes) → Option Bytes
  length_ciphertext : ∀ key iv plaintext, (encrypt key iv plaintext).1.length = plaintext.length
  length_tag : ∀ key iv plaintext, (encrypt key iv plaintext).2.length = tagLen
  decrypt_encrypt : ∀ key iv plaintext,
    decrypt key iv (encrypt key iv plaintext).1 (encrypt key iv plaintext).2 = some plaintext

/-- The cipher itself. -/
def aes128Gcm : AesGcm where
  encrypt key := Gcm.encrypt (Aes.aes128 key.bytes)
  decrypt key := Gcm.decrypt (Aes.aes128 key.bytes)
  length_ciphertext _ := Gcm.length_encrypt
  length_tag _ := Gcm.length_tag
  decrypt_encrypt _ := Gcm.decrypt_encrypt

/-- `type | length | body`; the length is not checked. -/
def parseHeader (buf : Bytes) : Option (UInt16 × Bytes) :=
  if buf.length < 4 then none
  else some (u16OfLe (byteAt buf 0) (byteAt buf 1), buf.drop 4)

/-- The IV of one direction: the sequence number and two letters. -/
def ivOf (seq : UInt32) (origin : UInt8) : Bytes :=
  u32le seq ++ List.replicate 6 0 ++ [origin, 0x43]

def clientIv (seq : UInt32) : Bytes := ivOf seq 0x43

def hostIv (seq : UInt32) : Bytes := ivOf seq 0x48

/-- The parts of an encrypted message: sequence number, tag and ciphertext, the last
bounded by the length field. -/
def sealedParts (buf : Bytes) : Option (UInt32 × Bytes × Bytes) :=
  if buf.length < 4 + 4 + tagLen then none
  else
    let length := (u16OfLe (byteAt buf 2) (byteAt buf 3)).toNat
    let seq := u32OfLe (byteAt buf 4) (byteAt buf 5) (byteAt buf 6) (byteAt buf 7)
    let ctStart := 8 + tagLen
    let ctEnd := min (ctStart + (length - (4 + tagLen))) buf.length
    some (seq, (buf.drop 8).take tagLen, (buf.take ctEnd).drop ctStart)

/-- The wire form of an encrypted message. -/
def sealedMessage (seq : UInt32) (tag ciphertext : Bytes) : Bytes :=
  u16le msgEncrypted ++ u16le (UInt16.ofNat (4 + tagLen + ciphertext.length)) ++ u32le seq ++
    tag ++ ciphertext

theorem parseHeader_append (t n : UInt16) (body : Bytes) :
    parseHeader (u16le t ++ u16le n ++ body) = some (t, body) := by
  unfold parseHeader
  rw [if_neg (by simp; omega)]
  exact congrArg some (Prod.ext (u16OfLe_u16le t) rfl)

theorem parseHeader_sealedMessage (seq : UInt32) (tag ciphertext : Bytes) :
    ∃ body, parseHeader (sealedMessage seq tag ciphertext) = some (msgEncrypted, body) := by
  refine ⟨u32le seq ++ tag ++ ciphertext, ?_⟩
  unfold sealedMessage
  rw [List.append_assoc, List.append_assoc, ← List.append_assoc (u32le seq)]
  exact parseHeader_append msgEncrypted _ _

/-- A sealed message comes apart into what it was made of, as long as its length
fits the length field. -/
theorem sealedParts_sealedMessage (seq : UInt32) {tag ciphertext : Bytes} (htag : tag.length = tagLen)
    (hsize : ciphertext.length ≤ 65515) :
    sealedParts (sealedMessage seq tag ciphertext) = some (seq, tag, ciphertext) := by
  have hlen : (sealedMessage seq tag ciphertext).length = 24 + ciphertext.length := by
    simp only [sealedMessage, List.length_append, length_u16le, length_u32le, htag]
    rfl
  have hfield : (u16OfLe (byteAt (sealedMessage seq tag ciphertext) 2)
      (byteAt (sealedMessage seq tag ciphertext) 3)).toNat = 20 + ciphertext.length := by
    have hread : u16OfLe (byteAt (sealedMessage seq tag ciphertext) 2)
        (byteAt (sealedMessage seq tag ciphertext) 3) =
          UInt16.ofNat (4 + tagLen + ciphertext.length) := u16OfLe_u16le _
    rw [hread, UInt16.toNat_ofNat']
    change (20 + ciphertext.length) % 2 ^ 16 = _
    omega
  have hseq : u32OfLe (byteAt (sealedMessage seq tag ciphertext) 4) (byteAt (sealedMessage seq tag ciphertext) 5)
      (byteAt (sealedMessage seq tag ciphertext) 6) (byteAt (sealedMessage seq tag ciphertext) 7) = seq :=
    u32OfLe_u32le seq
  have hend : min (8 + tagLen + (20 + ciphertext.length - (4 + tagLen)))
      (sealedMessage seq tag ciphertext).length = (sealedMessage seq tag ciphertext).length := by
    rw [hlen]
    change min (24 + (20 + ciphertext.length - 20)) _ = _
    omega
  have hdrop : (sealedMessage seq tag ciphertext).drop 8 = tag ++ ciphertext := rfl
  unfold sealedParts
  rw [if_neg (by rw [hlen]; change ¬ _ < 24; omega)]
  simp only [hfield, hseq, hend, List.take_length, hdrop]
  have hct : (sealedMessage seq tag ciphertext).drop (8 + tagLen) = ciphertext := by
    rw [← List.drop_drop, hdrop, ← htag, List.drop_left]
  rw [hct, ← htag, List.take_left]

end KmControl.ControlWire
