import KmControl.Aes

/-!
The decryption of a block. Each step of a round is undone by a step of its own, and the
rounds are undone from the last to the first. The matrix that mixes a column has order
four, so that the cube of it is its inverse.
-/
namespace KmControl.Aes

section Inverses

/-- The inverse of the S-box, by rows of sixteen bytes. -/
def invSboxRows : List ℕ :=
  [0x52096ad53036a538bf40a39e81f3d7fb, 0x7ce339829b2fff87348e4344c4dee9cb,
    0x547b9432a6c2233dee4c950b42fac34e, 0x082ea16628d924b2765ba2496d8bd125,
    0x72f8f66486689816d4a45ccc5d65b692, 0x6c704850fdedb9da5e154657a78d9d84,
    0x90d8ab008cbcd30af7e45805b8b34506, 0xd02c1e8fca3f0f02c1afbd0301138a6b,
    0x3a9111414f67dcea97f2cfcef0b4e673, 0x96ac7422e7ad3585e2f937e81c75df6e,
    0x47f11a711d29c5896fb7620eaa18be1b, 0xfc563e4bc6d279209adbc0fe78cd5af4,
    0x1fdda8338807c731b11210592780ec5f, 0x60517fa919b54a0d2de57a9f93c99cef,
    0xa0e03b4dae2af5b0c8ebbb3c83539961, 0x172b047eba77d626e169146355210c7d]

def invSubByte (a : UInt8) : UInt8 :=
  UInt8.ofNat (invSboxRows.getD (a.toNat / 16) 0 >>> (8 * (15 - a.toNat % 16)))

def invShiftRows (s : List UInt8) : List UInt8 :=
  block fun i => s.getD ((i + 12 * (i % 4)) % 16) 0

def invMixColumns (s : List UInt8) : List UInt8 := mixColumns (mixColumns (mixColumns s))

/-- The rounds of `rounds`, the last of them first. -/
def invRounds : ℕ → UInt8 → (key s : List UInt8) → List UInt8
  | 0, rcon, key, s => (invShiftRows (addRoundKey s (nextKey rcon key))).map invSubByte
  | n + 1, rcon, key, s =>
    let key' := nextKey rcon key
    (invShiftRows (invMixColumns (addRoundKey (invRounds n (xtime rcon) key' s) key'))).map
      invSubByte

def decryptBlock (key s : List UInt8) : List UInt8 := addRoundKey (invRounds 9 1 key s) key

end Inverses

section Blocks

variable {s : List UInt8} {f : ℕ → UInt8}

theorem getD_block {i : ℕ} (h : i < 16) : (block f).getD i 0 = f i := by
  simp [block, h]

/-- A block is given by its bytes. -/
theorem block_eq (hs : s.length = 16) (h : ∀ i < 16, f i = s.getD i 0) : block f = s := by
  refine List.ext_getElem (by simp [block, hs]) fun i hi hi' => ?_
  have hlt : i < 16 := hs ▸ hi'
  rw [← List.getD_eq_getElem _ 0 hi, ← List.getD_eq_getElem _ 0 hi', getD_block hlt, h i hlt]

theorem length_block (f : ℕ → UInt8) : (block f).length = 16 := by
  simp [block]

@[simp] theorem length_addRoundKey (s key : List UInt8) : (addRoundKey s key).length = 16 :=
  length_block _

@[simp] theorem length_shiftRows (s : List UInt8) : (shiftRows s).length = 16 := length_block _

@[simp] theorem length_mixColumns (s : List UInt8) : (mixColumns s).length = 16 := length_block _

@[simp] theorem length_invShiftRows (s : List UInt8) : (invShiftRows s).length = 16 :=
  length_block _

@[simp] theorem length_invMixColumns (s : List UInt8) : (invMixColumns s).length = 16 :=
  length_block _

theorem xor_left_comm (a b c : UInt8) : a ^^^ (b ^^^ c) = b ^^^ (a ^^^ c) := by
  rw [← UInt8.xor_assoc, UInt8.xor_comm a b, UInt8.xor_assoc]

theorem xor_xor_cancel (a b : UInt8) : a ^^^ (a ^^^ b) = b := by
  rw [← UInt8.xor_assoc, UInt8.xor_self, UInt8.zero_xor]

theorem addRoundKey_addRoundKey (hs : s.length = 16) (key : List UInt8) :
    addRoundKey (addRoundKey s key) key = s := by
  refine block_eq hs fun i hi => ?_
  rw [addRoundKey, getD_block hi, UInt8.xor_assoc, UInt8.xor_self, UInt8.xor_zero]

theorem invShiftRows_shiftRows (hs : s.length = 16) : invShiftRows (shiftRows s) = s := by
  refine block_eq hs fun i hi => ?_
  rw [shiftRows, getD_block (Nat.mod_lt _ (by decide))]
  congr 1
  omega

theorem shiftRows_invShiftRows (hs : s.length = 16) : shiftRows (invShiftRows s) = s := by
  refine block_eq hs fun i hi => ?_
  rw [invShiftRows, getD_block (Nat.mod_lt _ (by decide))]
  congr 1
  omega

end Blocks

section Columns

variable {s : List UInt8}

/-- The highest bit decides about the reduction. -/
theorem highBit (a : UInt8) : 128 ≤ a ∧ a >>> 7 = 1 ∨ ¬ 128 ≤ a ∧ a >>> 7 = 0 := by
  have h : ∀ n < 256, 128 ≤ UInt8.ofNat n ∧ UInt8.ofNat n >>> 7 = 1 ∨
      ¬ 128 ≤ UInt8.ofNat n ∧ UInt8.ofNat n >>> 7 = 0 := by decide +kernel
  rw [← UInt8.ofNat_toNat (x := a)]
  exact h _ a.toNat_lt

theorem xtime_xor (a b : UInt8) : xtime (a ^^^ b) = xtime a ^^^ xtime b := by
  unfold xtime
  rw [UInt8.shiftLeft_xor]
  have hab := UInt8.shiftRight_xor (a := a) (b := b) (c := 7)
  rcases highBit a with ⟨ha, ha'⟩ | ⟨ha, ha'⟩ <;> rcases highBit b with ⟨hb, hb'⟩ | ⟨hb, hb'⟩ <;>
    rcases highBit (a ^^^ b) with ⟨h, h'⟩ | ⟨h, h'⟩ <;> rw [ha', hb', h'] at hab <;>
    first
    | exact absurd hab (by decide)
    | simp only [ha, hb, h, if_true, if_false, UInt8.xor_assoc, UInt8.xor_comm, xor_left_comm,
        UInt8.xor_self, UInt8.zero_xor, UInt8.xor_zero]

/-- The byte of a column that comes `k` places after the `i`-th, around the column. -/
def around (i k : ℕ) : ℕ := i / 4 * 4 + (i + k) % 4

theorem around_lt {i : ℕ} (h : i < 16) (k : ℕ) : around i k < 16 := by
  unfold around
  omega

theorem around_around (i k l : ℕ) : around (around i k) l = around i (k + l) := by
  unfold around
  omega

theorem around_zero (i : ℕ) : around i 0 = i := by
  unfold around
  omega

theorem around_four (i k : ℕ) : around i (k + 4) = around i k := by
  unfold around
  omega

/-- A row of the matrix. -/
def mixed (a b c d : UInt8) : UInt8 := xtime a ^^^ xtime b ^^^ b ^^^ c ^^^ d

/-- The square of the matrix has two entries in a row. -/
theorem mixed_mixed (a b c d : UInt8) :
    mixed (mixed a b c d) (mixed b c d a) (mixed c d a b) (mixed d a b c) =
      xtime (xtime a) ^^^ xtime (xtime c) ^^^ a := by
  simp only [mixed, xtime_xor]
  generalize xtime (xtime a) = p, xtime (xtime b) = q, xtime (xtime c) = r, xtime a = e,
    xtime b = f, xtime c = g, xtime d = h
  simp only [UInt8.xor_assoc, UInt8.xor_comm, xor_left_comm, xor_xor_cancel, UInt8.xor_self,
    UInt8.xor_zero, UInt8.zero_xor]

theorem getD_mixColumns {i : ℕ} (h : i < 16) : (mixColumns s).getD i 0 =
    mixed (s.getD (around i 0) 0) (s.getD (around i 1) 0) (s.getD (around i 2) 0)
      (s.getD (around i 3) 0) :=
  getD_block h

theorem getD_mixColumns_two {i : ℕ} (h : i < 16) : (mixColumns (mixColumns s)).getD i 0 =
    xtime (xtime (s.getD i 0)) ^^^ xtime (xtime (s.getD (around i 2) 0)) ^^^ s.getD i 0 := by
  rw [getD_mixColumns h]
  simp only [getD_mixColumns (around_lt h _), around_around, Nat.reduceAdd, around_four i 0,
    around_four i 1, around_four i 2]
  rw [mixed_mixed, around_zero]

/-- The matrix has order four. -/
theorem mixColumns_four (hs : s.length = 16) :
    mixColumns (mixColumns (mixColumns (mixColumns s))) = s := by
  refine List.ext_getElem (by rw [hs, length_mixColumns]) fun i hi hi' => ?_
  have hlt : i < 16 := hs ▸ hi'
  rw [← List.getD_eq_getElem _ 0 hi, ← List.getD_eq_getElem _ 0 hi', getD_mixColumns_two hlt,
    getD_mixColumns_two hlt, getD_mixColumns_two (around_lt hlt 2), around_around,
    around_four i 0, around_zero]
  simp only [xtime_xor]
  generalize xtime (xtime (xtime (xtime (s.getD i 0)))) = p,
    xtime (xtime (xtime (xtime (s.getD (around i 2) 0)))) = q, xtime (xtime (s.getD i 0)) = e,
    xtime (xtime (s.getD (around i 2) 0)) = f, s.getD i 0 = a
  simp only [UInt8.xor_assoc, UInt8.xor_comm, xor_left_comm, xor_xor_cancel, UInt8.xor_self,
    UInt8.xor_zero, UInt8.zero_xor]

theorem invMixColumns_mixColumns (hs : s.length = 16) : invMixColumns (mixColumns s) = s :=
  mixColumns_four hs

theorem mixColumns_invMixColumns (hs : s.length = 16) : mixColumns (invMixColumns s) = s :=
  mixColumns_four hs

end Columns

section Rounds

variable {key s : List UInt8}

theorem subByte_invSubByte (a : UInt8) :
    invSubByte (subByte a) = a ∧ subByte (invSubByte a) = a := by
  have h : ∀ n < 256, invSubByte (subByte (UInt8.ofNat n)) = UInt8.ofNat n ∧
      subByte (invSubByte (UInt8.ofNat n)) = UInt8.ofNat n := by decide +kernel
  rw [← UInt8.ofNat_toNat (x := a)]
  exact h _ a.toNat_lt

theorem map_invSubByte_map (s : List UInt8) : (s.map subByte).map invSubByte = s := by
  rw [List.map_map]
  exact (List.map_congr_left fun a _ => (subByte_invSubByte a).1).trans (List.map_id' s)

theorem map_map_invSubByte (s : List UInt8) : (s.map invSubByte).map subByte = s := by
  rw [List.map_map]
  exact (List.map_congr_left fun a _ => (subByte_invSubByte a).2).trans (List.map_id' s)

@[simp] theorem length_invRounds (n : ℕ) (rcon : UInt8) (key s : List UInt8) :
    (invRounds n rcon key s).length = 16 := by
  cases n <;> simp [invRounds]

theorem invRounds_rounds (n : ℕ) (rcon : UInt8) (key : List UInt8) (hs : s.length = 16) :
    invRounds n rcon key (rounds n rcon key s) = s := by
  induction n generalizing rcon key s with
  | zero =>
    rw [invRounds, rounds, addRoundKey_addRoundKey (length_shiftRows _),
      invShiftRows_shiftRows (by rw [List.length_map, hs]), map_invSubByte_map]
  | succ n ih =>
    rw [invRounds, rounds, ih _ _ (length_addRoundKey _ _),
      addRoundKey_addRoundKey (length_mixColumns _), invMixColumns_mixColumns (length_shiftRows _),
      invShiftRows_shiftRows (by rw [List.length_map, hs]), map_invSubByte_map]

theorem rounds_invRounds (n : ℕ) (rcon : UInt8) (key : List UInt8) (hs : s.length = 16) :
    rounds n rcon key (invRounds n rcon key s) = s := by
  induction n generalizing rcon key s with
  | zero =>
    rw [invRounds, rounds, map_map_invSubByte, shiftRows_invShiftRows (length_addRoundKey _ _),
      addRoundKey_addRoundKey hs]
  | succ n ih =>
    rw [invRounds, rounds, map_map_invSubByte, shiftRows_invShiftRows (length_invMixColumns _),
      mixColumns_invMixColumns (length_addRoundKey _ _),
      addRoundKey_addRoundKey (length_invRounds _ _ _ _), ih _ _ hs]

/-- What is encrypted is decrypted. -/
theorem decryptBlock_encryptBlock (key : List UInt8) (hs : s.length = 16) :
    decryptBlock key (encryptBlock key s) = s := by
  rw [decryptBlock, encryptBlock, invRounds_rounds _ _ _ (length_addRoundKey _ _),
    addRoundKey_addRoundKey hs]

theorem encryptBlock_decryptBlock (key : List UInt8) (hs : s.length = 16) :
    encryptBlock key (decryptBlock key s) = s := by
  rw [decryptBlock, encryptBlock, addRoundKey_addRoundKey (length_invRounds _ _ _ _),
    rounds_invRounds _ _ _ hs]

theorem length_decryptBlock (key s : List UInt8) : (decryptBlock key s).length = 16 :=
  length_addRoundKey _ _

end Rounds

end KmControl.Aes
