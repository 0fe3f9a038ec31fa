import KmControl.Gcm

/-!
The AES block cipher with keys of sixteen bytes. The state is the block itself, column
by column.
-/
namespace KmControl.Aes

/-- Multiplication by the indeterminate in the field of 256 elements. -/
def xtime (a : UInt8) : UInt8 := if 128 ≤ a then (a <<< 1) ^^^ 0x1b else a <<< 1

/-- The S-box, by rows of sixteen bytes. -/
def sboxRows : List ℕ :=
  [0x637c777bf26b6fc53001672bfed7ab76, 0xca82c97dfa5947f0add4a2af9ca472c0,
    0xb7fd9326363ff7cc34a5e5f171d83115, 0x04c723c31896059a071280e2eb27b275,
    0x09832c1a1b6e5aa0523bd6b329e32f84, 0x53d100ed20fcb15b6acbbe394a4c58cf,
    0xd0efaafb434d338545f9027f503c9fa8, 0x51a3408f929d38f5bcb6da2110fff3d2,
    0xcd0c13ec5f974417c4a77e3d645d1973, 0x60814fdc222a908846eeb814de5e0bdb,
    0xe0323a0a4906245cc2d3ac629195e479, 0xe7c8376d8dd54ea96c56f4ea657aae08,
    0xba78252e1ca6b4c6e8dd741f4bbd8b8a, 0x703eb5664803f60e613557b986c11d9e,
    0xe1f8981169d98e949b1e87e9ce5528df, 0x8ca1890dbfe6426841992d0fb054bb16]

def subByte (a : UInt8) : UInt8 :=
  UInt8.ofNat (sboxRows.getD (a.toNat / 16) 0 >>> (8 * (15 - a.toNat % 16)))

/-- A block, given by its bytes. -/
def block (f : ℕ → UInt8) : List UInt8 := (List.range 16).map f

def shiftRows (s : List UInt8) : List UInt8 := block fun i => s.getD ((i + 4 * (i % 4)) % 16) 0

def mixColumns (s : List UInt8) : List UInt8 :=
  block fun i =>
    let entry (k : ℕ) : UInt8 := s.getD (i / 4 * 4 + (i + k) % 4) 0
    xtime (entry 0) ^^^ xtime (entry 1) ^^^ entry 1 ^^^ entry 2 ^^^ entry 3

def addRoundKey (s key : List UInt8) : List UInt8 := block fun i => s.getD i 0 ^^^ key.getD i 0

/-- The key of the next round. -/
def nextKey (rcon : UInt8) (key : List UInt8) : List UInt8 :=
  block fun i =>
    let start := subByte (key.getD (12 + (i + 1) % 4) 0) ^^^ if i % 4 = 0 then rcon else 0
    (List.range (i / 4 + 1)).foldl (fun b j => b ^^^ key.getD (4 * j + i % 4) 0) start

/-- So many rounds with mixing of columns, and a last one without. -/
def rounds : ℕ → UInt8 → (key s : List UInt8) → List UInt8
  | 0, rcon, key, s => addRoundKey (shiftRows (s.map subByte)) (nextKey rcon key)
  | n + 1, rcon, key, s =>
    let key' := nextKey rcon key
    rounds n (xtime rcon) key' (addRoundKey (mixColumns (shiftRows (s.map subByte))) key')

def encryptBlock (key s : List UInt8) : List UInt8 := rounds 9 1 key (addRoundKey s key)

theorem length_rounds (n : ℕ) (rcon : UInt8) (key s : List UInt8) :
    (rounds n rcon key s).length = 16 := by
  induction n generalizing rcon key s with
  | zero => rfl
  | succ n ih => exact ih _ _ _

/-- The cipher under one key. -/
def aes128 (key : List UInt8) : Gcm.BlockCipher where
  encrypt := encryptBlock key
  length_encrypt _ := length_rounds 9 1 key _

example : Gcm.encrypt (aes128 (List.replicate 16 0)) (List.replicate 12 0) (List.replicate 16 0) =
    ([0x03, 0x88, 0xda, 0xce, 0x60, 0xb6, 0xa3, 0x92, 0xf3, 0x28, 0xc2, 0xb9, 0x71, 0xb2, 0xfe, 0x78],
      [0xab, 0x6e, 0x47, 0xd4, 0x2c, 0xec, 0x13, 0xbd, 0xf5, 0x3a, 0x67, 0xb2, 0x12, 0x57, 0xbd,
        0xdf]) := by
  decide +kernel

end KmControl.Aes
