import Mathlib.Data.List.Basic
import Mathlib.Data.Nat.Bitwise

/-!
Galois/counter mode over a block cipher of any kind, for initialization vectors of
twelve bytes and without associated data. The tag is detached.
-/
namespace KmControl.Gcm

/-- A cipher on blocks of sixteen bytes, under a key that is fixed. -/
structure BlockCipher where
  encrypt : List UInt8 → List UInt8
  length_encrypt : ∀ block, (encrypt block).length = 16

/-- Big-endian. -/
def natOfBytes (bytes : List UInt8) : ℕ := bytes.foldl (fun n b => n * 256 + b.toNat) 0

/-- The last `k` digits of a number to base 256, big-endian. -/
def bytesOfNat (k n : ℕ) : List UInt8 :=
  (List.range k).map fun i => UInt8.ofNat (n / 256 ^ (k - 1 - i))

@[simp] theorem length_bytesOfNat (k n : ℕ) : (bytesOfNat k n).length = k := by
  simp [bytesOfNat]

/-- Multiplication by the indeterminate; the most significant bit is the constant term. -/
def shift (v : ℕ) : ℕ := if v % 2 = 1 then v / 2 ^^^ 0xe1 <<< 120 else v / 2

/-- The product in the field of `2 ^ 128` elements of the last `n` bits of `x` and `v`,
added to `z`. -/
def mulAdd : (n x v z : ℕ) → ℕ
  | 0, _, _, z => z
  | n + 1, x, v, z => mulAdd n x (shift v) (if x.testBit n then z ^^^ v else z)

def mul (x y : ℕ) : ℕ := mulAdd 128 x y 0

/-- The blocks of a message, the last one padded with zeros. -/
def blocks (data : List UInt8) : List ℕ :=
  (List.range ((data.length + 15) / 16)).map fun i =>
    natOfBytes (((data.drop (16 * i)).take 16 ++ List.replicate 15 0).take 16)

def ghash (h : ℕ) (ciphertext : List UInt8) : ℕ :=
  (blocks ciphertext ++ [8 * ciphertext.length]).foldl (fun y block => mul (y ^^^ block) h) 0

variable (cipher : BlockCipher)

def counterBlock (iv : List UInt8) (n : ℕ) : List UInt8 := cipher.encrypt (iv ++ bytesOfNat 4 n)

/-- Enough key stream for `n` bytes; the first counter belongs to the tag. -/
def keyStream (iv : List UInt8) (n : ℕ) : List UInt8 :=
  (List.range ((n + 15) / 16)).flatMap fun i => counterBlock cipher iv (i + 2)

def applyKeyStream (iv text : List UInt8) : List UInt8 :=
  List.zipWith (· ^^^ ·) text (keyStream cipher iv text.length)

def tag (iv ciphertext : List UInt8) : List UInt8 :=
  let h := natOfBytes (cipher.encrypt (List.replicate 16 0))
  bytesOfNat 16 (ghash h ciphertext ^^^ natOfBytes (counterBlock cipher iv 1))

def encrypt (iv plaintext : List UInt8) : List UInt8 × List UInt8 :=
  let ciphertext := applyKeyStream cipher iv plaintext
  (ciphertext, tag cipher iv ciphertext)

def decrypt (iv ciphertext received : List UInt8) : Option (List UInt8) :=
  if tag cipher iv ciphertext = received then some (applyKeyStream cipher iv ciphertext) else none

variable {cipher}

theorem length_keyStream (iv : List UInt8) (n : ℕ) :
    (keyStream cipher iv n).length = (n + 15) / 16 * 16 := by
  simp [keyStream, counterBlock, List.length_flatMap, cipher.length_encrypt]

theorem length_applyKeyStream (iv text : List UInt8) :
    (applyKeyStream cipher iv text).length = text.length := by
  simp only [applyKeyStream, List.length_zipWith, length_keyStream]
  omega

theorem zipWith_xor_cancel {text stream : List UInt8} (h : text.length ≤ stream.length) :
    List.zipWith (· ^^^ ·) (List.zipWith (· ^^^ ·) text stream) stream = text := by
  induction text generalizing stream with
  | nil => rfl
  | cons b text ih =>
    cases stream with
    | nil => simp at h
    | cons k stream =>
      simp only [List.zipWith_cons_cons, UInt8.xor_assoc, UInt8.xor_self, UInt8.xor_zero]
      rw [ih (Nat.le_of_succ_le_succ h)]

/-- The key stream comes off the way it went on. -/
theorem applyKeyStream_applyKeyStream (iv text : List UInt8) :
    applyKeyStream cipher iv (applyKeyStream cipher iv text) = text := by
  unfold applyKeyStream
  rw [show (List.zipWith (· ^^^ ·) text (keyStream cipher iv text.length)).length = text.length from
    length_applyKeyStream iv text]
  apply zipWith_xor_cancel
  rw [length_keyStream]
  omega

theorem length_encrypt (iv plaintext : List UInt8) :
    (encrypt cipher iv plaintext).1.length = plaintext.length :=
  length_applyKeyStream iv plaintext

theorem length_tag (iv plaintext : List UInt8) : (encrypt cipher iv plaintext).2.length = 16 :=
  length_bytesOfNat 16 _

theorem decrypt_encrypt (iv plaintext : List UInt8) :
    decrypt cipher iv (encrypt cipher iv plaintext).1 (encrypt cipher iv plaintext).2 =
      some plaintext := by
  unfold decrypt encrypt
  rw [if_pos rfl, applyKeyStream_applyKeyStream]

end KmControl.Gcm
