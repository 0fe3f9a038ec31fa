import KmControl.ByteFields

/-!
The hash SHA-256 of bytes. The message is padded to whole chunks of 64 bytes, and each
chunk goes through 64 rounds, for which its words are extended as they are used.
-/
namespace KmControl.Sha256

open ByteFields

def rotateRight (x : UInt32) (n : UInt32) : UInt32 := (x >>> n) ||| (x <<< (32 - n))

/-- The constants of the rounds, by rows of eight words. -/
def constantRows : List ℕ :=
  [0x428a2f9871374491b5c0fbcfe9b5dba53956c25b59f111f1923f82a4ab1c5ed5,
    0xd807aa9812835b01243185be550c7dc372be5d7480deb1fe9bdc06a7c19bf174,
    0xe49b69c1efbe47860fc19dc6240ca1cc2de92c6f4a7484aa5cb0a9dc76f988da,
    0x983e5152a831c66db00327c8bf597fc7c6e00bf3d5a7914706ca635114292967,
    0x27b70a852e1b21384d2c6dfc53380d13650a7354766a0abb81c2c92e92722c85,
    0xa2bfe8a1a81a664bc24b8b70c76c51a3d192e819d6990624f40e3585106aa070,
    0x19a4c1161e376c082748774c34b0bcb5391c0cb34ed8aa4a5b9cca4f682e6ff3,
    0x748f82ee78a5636f84c878148cc7020890befffaa4506cebbef9a3f7c67178f2]

/-- The words of a row. -/
def rowWords (row : ℕ) : List UInt32 :=
  (List.range 8).map fun i => UInt32.ofNat (row >>> (32 * (7 - i)))

def constants : List UInt32 := constantRows.flatMap rowWords

/-- The eight words that the rounds work on. -/
structure State where
  a : UInt32
  b : UInt32
  c : UInt32
  d : UInt32
  e : UInt32
  f : UInt32
  g : UInt32
  h : UInt32

def State.init : State :=
  ⟨0x6a09e667, 0xbb67ae85, 0x3c6ef372, 0xa54ff53a, 0x510e527f, 0x9b05688c, 0x1f83d9ab, 0x5be0cd19⟩

def State.add (s t : State) : State :=
  ⟨s.a + t.a, s.b + t.b, s.c + t.c, s.d + t.d, s.e + t.e, s.f + t.f, s.g + t.g, s.h + t.h⟩

def State.bytes (s : State) : Bytes := [s.a, s.b, s.c, s.d, s.e, s.f, s.g, s.h].flatMap u32be

def round (s : State) (k w : UInt32) : State :=
  let s1 := rotateRight s.e 6 ^^^ rotateRight s.e 11 ^^^ rotateRight s.e 25
  let ch := (s.e &&& s.f) ^^^ (~~~s.e &&& s.g)
  let temp1 := s.h + s1 + ch + k + w
  let s0 := rotateRight s.a 2 ^^^ rotateRight s.a 13 ^^^ rotateRight s.a 22
  let maj := (s.a &&& s.b) ^^^ (s.a &&& s.c) ^^^ (s.b &&& s.c)
  ⟨temp1 + (s0 + maj), s.a, s.b, s.c, s.d + temp1, s.e, s.f, s.g⟩

/-- The word that comes sixteen places after the first of these. -/
def nextWord (words : List UInt32) : UInt32 :=
  let w (i : ℕ) := words.getD i 0
  let s0 := rotateRight (w 1) 7 ^^^ rotateRight (w 1) 18 ^^^ (w 1 >>> 3)
  let s1 := rotateRight (w 14) 17 ^^^ rotateRight (w 14) 19 ^^^ (w 14 >>> 10)
  w 0 + s0 + w 9 + s1

/-- A round for each constant; the words are the next sixteen. -/
def rounds (s : State) (words : List UInt32) : List UInt32 → State
  | [] => s
  | k :: ks => rounds (round s k (words.getD 0 0)) (words.tail ++ [nextWord words]) ks

def wordsOf : Bytes → List UInt32
  | a :: b :: c :: d :: rest => u32OfBe a b c d :: wordsOf rest
  | _ => []

/-- So many chunks. -/
def chunks : ℕ → State → Bytes → State
  | 0, s, _ => s
  | n + 1, s, data => chunks n (s.add (rounds s (wordsOf (data.take 64)) constants)) (data.drop 64)

def pad (data : Bytes) : Bytes :=
  let bits := 8 * data.length
  data ++ 0x80 :: List.replicate ((119 - data.length % 64) % 64) 0 ++
    u32be (UInt32.ofNat (bits / 2 ^ 32)) ++ u32be (UInt32.ofNat bits)

def digest (data : Bytes) : Bytes :=
  (chunks ((pad data).length / 64) .init (pad data)).bytes

@[simp] theorem length_digest (data : Bytes) : (digest data).length = 32 := rfl

/-- The padding completes the last chunk. -/
theorem length_pad (data : Bytes) : (pad data).length % 64 = 0 := by
  simp only [pad, List.length_append, List.length_cons, List.length_replicate, length_u32be]
  omega

example : digest [0x61, 0x62, 0x63] =
    [0xba, 0x78, 0x16, 0xbf, 0x8f, 0x01, 0xcf, 0xea, 0x41, 0x41, 0x40, 0xde, 0x5d, 0xae, 0x22, 0x23,
      0xb0, 0x03, 0x61, 0xa3, 0x96, 0x17, 0x7a, 0x9c, 0xb4, 0x10, 0xff, 0x61, 0xf2, 0x00, 0x15, 0xad] := by
  decide +kernel

end KmControl.Sha256
