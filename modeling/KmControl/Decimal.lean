import Mathlib.Data.Int.Notation
import Mathlib.Data.List.DropRight
import Mathlib.Data.List.TakeWhile
import Mathlib.Data.Nat.Notation

/-!
Text with decimal numerals: how integers are written and read, and how a line is
divided into its words.
-/
namespace KmControl.Decimal

section Numerals

def numeral (n : ℕ) : List Char := Nat.toDigits 10 n

/-- An integer with its sign, if that is a minus. -/
def signed (x : ℤ) : List Char := if x < 0 then '-' :: numeral x.natAbs else numeral x.natAbs

/-- At least `width` digits. -/
def padded (width n : ℕ) : List Char := (numeral n).leftpad width '0'

def parseDigits (l : List Char) : Option ℕ :=
  if l ≠ [] ∧ l.all Char.isDigit = true then some (Nat.ofDigitChars 10 l 0) else none

/-- The value of a numeral with or without sign; a minus counts only for a type that has
negative values. -/
def parseValue (lo : ℤ) : List Char → Option ℤ
  | '+' :: rest => (parseDigits rest).map fun n : ℕ => (n : ℤ)
  | '-' :: rest => if lo < 0 then (parseDigits rest).map fun n : ℕ => -(n : ℤ) else none
  | l => (parseDigits l).map fun n : ℕ => (n : ℤ)

/-- Read an integer of a type with these bounds. -/
def parse (lo hi : ℤ) (l : List Char) : Option ℤ :=
  (parseValue lo l).filter fun x => decide (lo ≤ x ∧ x ≤ hi)

theorem isDigit_numeral {n : ℕ} {c : Char} (h : c ∈ numeral n) : c.isDigit = true :=
  Nat.isDigit_of_mem_toDigits (by decide) (by decide) h

theorem parseDigits_numeral (n : ℕ) : parseDigits (numeral n) = some n := by
  unfold parseDigits
  rw [if_pos ⟨Nat.toDigits_ne_nil, List.all_eq_true.mpr fun c h => isDigit_numeral h⟩]
  exact congrArg some Nat.ofDigitChars_ten_toDigits

theorem parseValue_numeral (lo : ℤ) (n : ℕ) : parseValue lo (numeral n) = some (n : ℤ) := by
  have hdigits := parseDigits_numeral n
  unfold parseValue
  split
  · rename_i rest hplus
    have hdigit := isDigit_numeral (hplus ▸ List.mem_cons_self : '+' ∈ numeral n)
    exact absurd hdigit (by decide)
  · rename_i rest hminus
    have hdigit := isDigit_numeral (hminus ▸ List.mem_cons_self : '-' ∈ numeral n)
    exact absurd hdigit (by decide)
  · rw [hdigits]
    rfl

/-- What is written is read. -/
theorem parse_signed {lo hi x : ℤ} (hlo : lo ≤ x) (hhi : x ≤ hi) : parse lo hi (signed x) = some x := by
  have hvalue : parseValue lo (signed x) = some x := by
    unfold signed
    split <;> rename_i hsign
    · have hneg : -(x.natAbs : ℤ) = x := by omega
      have hminus : parseValue lo ('-' :: numeral x.natAbs) = if lo < 0
        then (parseDigits (numeral x.natAbs)).map fun n : ℕ => -(n : ℤ) else none := rfl
      rw [hminus, if_pos (Int.lt_of_le_of_lt hlo hsign), parseDigits_numeral]
      exact congrArg some hneg
    · rw [parseValue_numeral]
      exact congrArg some (by omega)
  unfold parse
  rw [hvalue]
  exact if_pos (decide_eq_true ⟨hlo, hhi⟩)

theorem ofDigitChars_padded (width n : ℕ) : Nat.ofDigitChars 10 (padded width n) 0 = n := by
  unfold padded List.leftpad
  rw [Nat.ofDigitChars_append, Nat.ofDigitChars_replicate_zero, Nat.mul_zero]
  exact Nat.ofDigitChars_ten_toDigits

theorem padded_injective (width : ℕ) : Function.Injective (padded width) := fun n m h => by
  rw [← ofDigitChars_padded width n, h, ofDigitChars_padded]

end Numerals

section Words

/-- The white space of Unicode. -/
def isWhitespace (c : Char) : Bool :=
  decide (9 ≤ c.toNat ∧ c.toNat ≤ 13) || decide (0x2000 ≤ c.toNat ∧ c.toNat ≤ 0x200A) ||
    [0x20, 0x85, 0xA0, 0x1680, 0x2028, 0x2029, 0x202F, 0x205F, 0x3000].contains c.toNat

def splitWhitespace (l : List Char) : List (List Char) :=
  (l.splitOnP isWhitespace).filter fun w => !w.isEmpty

/-- The text without the white space at its ends. -/
def trim (l : List Char) : List Char := (l.dropWhile isWhitespace).rdropWhile isWhitespace

theorem trim_of_not_isWhitespace {l : List Char} (h : ∀ c ∈ l, isWhitespace c = false) :
    trim l = l := by
  have hleft : l.dropWhile isWhitespace = l := by
    rw [List.dropWhile_eq_self_iff]
    intro hlen
    rw [h _ (List.getElem_mem hlen)]
    exact Bool.false_ne_true
  unfold trim
  rw [hleft, List.rdropWhile_eq_self_iff]
  intro hne
  rw [h _ (List.getLast_mem hne)]
  exact Bool.false_ne_true

def IsWord (w : List Char) : Prop := w ≠ [] ∧ ∀ c ∈ w, isWhitespace c = false

theorem isWhitespace_of_isDigit {c : Char} (h : c.isDigit = true) : isWhitespace c = false := by
  rw [Char.isDigit_iff_toNat] at h
  change 48 ≤ c.toNat ∧ c.toNat ≤ 57 at h
  unfold isWhitespace
  simp only [List.contains_cons, List.contains_nil, Bool.or_eq_false_iff, decide_eq_false_iff_not,
    beq_eq_false_iff_ne, and_true]
  omega

theorem isWord_numeral (n : ℕ) : IsWord (numeral n) :=
  ⟨Nat.toDigits_ne_nil, fun _ h => isWhitespace_of_isDigit (isDigit_numeral h)⟩

theorem isWord_signed (x : ℤ) : IsWord (signed x) := by
  unfold signed
  split
  · refine ⟨List.cons_ne_nil _ _, fun c h => ?_⟩
    rcases List.mem_cons.mp h with rfl | h
    · decide
    · exact (isWord_numeral _).2 c h
  · exact isWord_numeral _

/-- Words with single blanks between them are found again. -/
theorem splitWhitespace_intercalate {ws : List (List Char)} (h : ∀ w ∈ ws, IsWord w) :
    splitWhitespace ([' '].intercalate ws) = ws := by
  have hkeep : ∀ (w : List Char) (l : List (List Char)), IsWord w →
      (w :: l).filter (fun w => !w.isEmpty) = w :: l.filter fun w => !w.isEmpty := by
    intro w l hw
    refine List.filter_cons_of_pos ?_
    rw [Bool.not_eq_true', List.isEmpty_eq_false_iff]
    exact hw.1
  induction ws with
  | nil => rfl
  | cons w ws ih =>
    have hw := h w List.mem_cons_self
    unfold splitWhitespace at ih ⊢
    cases ws with
    | nil =>
      rw [List.intercalate_singleton, List.splitOnP_eq_singleton hw.2, hkeep w _ hw,
        List.filter_nil]
    | cons w' ws =>
      rw [List.intercalate_cons_cons, List.append_assoc, List.singleton_append,
        List.splitOnP_append_cons_of_forall_mem hw.2 ' ' (by decide),
        hkeep w _ hw, ih fun v hv => h v (List.mem_cons_of_mem _ hv)]

end Words

end KmControl.Decimal
