import Mathlib.Data.List.Basic
import Mathlib.Data.Nat.Bitwise
import Mathlib.Tactic.Ring

/-!
Byte buffers and fixed-width integer fields. Slicing and copying are checked:
`none` is the out-of-range access that stops the program. Field codecs are
given by their positional value, so round trips are linear arithmetic.
-/
namespace KmControl

abbrev Bytes := List UInt8

namespace ByteFields

/-- The byte at an index that a preceding length check has put in range. -/
def byteAt (buf : Bytes) (i : ℕ) : UInt8 := buf.getD i 0

/-- `buf[lo..hi]`. -/
def slice (buf : Bytes) (lo hi : ℕ) : Option Bytes :=
  if lo ≤ hi ∧ hi ≤ buf.length then some ((buf.take hi).drop lo) else none

def splice (buf : Bytes) (off : ℕ) (src : Bytes) : Bytes :=
  buf.take off ++ src ++ buf.drop (off + src.length)

/-- `buf[off..off + src.len()].copy_from_slice(src)`. -/
def copyFromSlice (buf : Bytes) (off : ℕ) (src : Bytes) : Option Bytes :=
  if off + src.length ≤ buf.length then some (splice buf off src) else none

def u16le (x : UInt16) : Bytes := [UInt8.ofNat x.toNat, UInt8.ofNat (x.toNat / 2 ^ 8)]

def u16be (x : UInt16) : Bytes := (u16le x).reverse

def u32le (x : UInt32) : Bytes :=
  [UInt8.ofNat x.toNat, UInt8.ofNat (x.toNat / 2 ^ 8),
    UInt8.ofNat (x.toNat / 2 ^ 16), UInt8.ofNat (x.toNat / 2 ^ 24)]

def u32be (x : UInt32) : Bytes := (u32le x).reverse

def u16OfLe (a b : UInt8) : UInt16 := UInt16.ofNat (a.toNat + 2 ^ 8 * b.toNat)

def u16OfBe (a b : UInt8) : UInt16 := u16OfLe b a

def u32OfLe (a b c d : UInt8) : UInt32 :=
  UInt32.ofNat (a.toNat + 2 ^ 8 * b.toNat + 2 ^ 16 * c.toNat + 2 ^ 24 * d.toNat)

def u32OfBe (a b c d : UInt8) : UInt32 := u32OfLe d c b a

@[simp] theorem length_u16le (x : UInt16) : (u16le x).length = 2 := rfl

@[simp] theorem length_u16be (x : UInt16) : (u16be x).length = 2 := rfl

@[simp] theorem length_u32le (x : UInt32) : (u32le x).length = 4 := rfl

@[simp] theorem length_u32be (x : UInt32) : (u32be x).length = 4 := rfl

/-- The little-endian bytes of a word read back as the word. -/
theorem u32OfLe_u32le (x : UInt32) :
    u32OfLe (byteAt (u32le x) 0) (byteAt (u32le x) 1) (byteAt (u32le x) 2)
      (byteAt (u32le x) 3) = x := by
  apply UInt32.toNat_inj.mp
  have hx := x.toNat_lt
  simp only [byteAt, u32le, u32OfLe, List.getD_cons_zero, List.getD_cons_succ,
    UInt32.toNat_ofNat', UInt8.toNat_ofNat']
  omega

theorem u16OfLe_u16le (x : UInt16) :
    u16OfLe (byteAt (u16le x) 0) (byteAt (u16le x) 1) = x := by
  apply UInt16.toNat_inj.mp
  have hx := x.toNat_lt
  simp only [byteAt, u16le, u16OfLe, List.getD_cons_zero, List.getD_cons_succ,
    UInt16.toNat_ofNat', UInt8.toNat_ofNat']
  omega

theorem slice_eq_some {buf : Bytes} {lo hi : ℕ} (hlo : lo ≤ hi) (hhi : hi ≤ buf.length) :
    slice buf lo hi = some ((buf.take hi).drop lo) :=
  if_pos ⟨hlo, hhi⟩

theorem copyFromSlice_eq_some {buf src : Bytes} {off : ℕ}
    (h : off + src.length ≤ buf.length) :
    copyFromSlice buf off src = some (splice buf off src) :=
  if_pos h

@[simp] theorem length_splice {buf src : Bytes} {off : ℕ}
    (h : off + src.length ≤ buf.length) : (splice buf off src).length = buf.length := by
  simp only [splice, List.length_append, List.length_take, List.length_drop]
  omega

/-- Outside the copied range a splice keeps the buffer's bytes. -/
theorem byteAt_splice {buf src : Bytes} {off : ℕ} (h : off + src.length ≤ buf.length)
    (i : ℕ) : byteAt (splice buf off src) i =
      if off ≤ i ∧ i < off + src.length then byteAt src (i - off) else byteAt buf i := by
  simp only [byteAt, splice, List.getD_eq_getElem?_getD, List.append_assoc]
  by_cases hlow : i < off
  · rw [List.getElem?_append_left (by simp only [List.length_take]; omega),
      List.getElem?_take_of_lt hlow, if_neg (by omega)]
  · have htake : (buf.take off).length = off := by
      simp only [List.length_take]
      omega
    rw [List.getElem?_append_right (by omega), htake]
    by_cases hmid : i - off < src.length
    · rw [List.getElem?_append_left hmid, if_pos (by omega)]
    · rw [List.getElem?_append_right (by omega), List.getElem?_drop, if_neg (by omega)]
      have hindex : off + src.length + (i - off - src.length) = i := by omega
      rw [hindex]

theorem byteAt_drop (buf : Bytes) (n i : ℕ) : byteAt (buf.drop n) i = byteAt buf (n + i) := by
  simp only [byteAt, List.getD_eq_getElem?_getD, List.getElem?_drop]

/-- Past the copied range the suffix of a splice is the buffer's own. -/
theorem drop_splice {buf src : Bytes} {off n : ℕ} (h : off + src.length ≤ buf.length)
    (hn : off + src.length ≤ n) : (splice buf off src).drop n = buf.drop n := by
  have htake : (buf.take off).length = off := by
    simp only [List.length_take]
    omega
  have hfront : (buf.take off ++ src).length = off + src.length := by
    simp only [List.length_append, htake]
  have hindex : off + src.length + (n - (off + src.length)) = n := by omega
  rw [splice, List.drop_append, List.drop_drop, hfront, hindex,
    List.drop_eq_nil_of_le (by omega), List.nil_append]

/-- Copies made one after the other. -/
def spliceAll (buf : Bytes) (copies : List (ℕ × Bytes)) : Bytes :=
  copies.foldl (fun b c => splice b c.1 c.2) buf

theorem length_spliceAll {buf : Bytes} {copies : List (ℕ × Bytes)}
    (h : ∀ c ∈ copies, c.1 + c.2.length ≤ buf.length) :
    (spliceAll buf copies).length = buf.length := by
  induction copies generalizing buf with
  | nil => rfl
  | cons c rest ih =>
    have hlen := length_splice (h c List.mem_cons_self)
    have hrest : ∀ c' ∈ rest, c'.1 + c'.2.length ≤ (splice buf c.1 c.2).length := by
      intro c' hc'
      rw [hlen]
      exact h c' (List.mem_cons_of_mem _ hc')
    exact (ih hrest).trans hlen

/-- Checked copies that all are in range succeed. -/
theorem foldlM_copyFromSlice {buf : Bytes} {copies : List (ℕ × Bytes)}
    (h : ∀ c ∈ copies, c.1 + c.2.length ≤ buf.length) :
    copies.foldlM (fun b c => copyFromSlice b c.1 c.2) buf = some (spliceAll buf copies) := by
  induction copies generalizing buf with
  | nil => rfl
  | cons c rest ih =>
    have hc := h c List.mem_cons_self
    have hrest : ∀ c' ∈ rest, c'.1 + c'.2.length ≤ (splice buf c.1 c.2).length := by
      intro c' hc'
      rw [length_splice hc]
      exact h c' (List.mem_cons_of_mem _ hc')
    rw [List.foldlM_cons, copyFromSlice_eq_some hc]
    exact ih hrest

/-- Behind every copied range the suffix of the buffer is kept. -/
theorem drop_spliceAll {buf : Bytes} {copies : List (ℕ × Bytes)} {n : ℕ}
    (h : ∀ c ∈ copies, c.1 + c.2.length ≤ n) (hn : n ≤ buf.length) :
    (spliceAll buf copies).drop n = buf.drop n := by
  induction copies generalizing buf with
  | nil => rfl
  | cons c rest ih =>
    have hc := h c List.mem_cons_self
    have hrest : ∀ c' ∈ rest, c'.1 + c'.2.length ≤ n :=
      fun c' hc' => h c' (List.mem_cons_of_mem _ hc')
    have hlen : n ≤ (splice buf c.1 c.2).length := by
      rw [length_splice (hc.trans hn)]
      exact hn
    exact (ih hrest hlen).trans (drop_splice (hc.trans hn) hc)

theorem byteAt_spliceAll_of_lt {buf : Bytes} {copies : List (ℕ × Bytes)} {k : ℕ}
    (h : ∀ c ∈ copies, c.1 + c.2.length ≤ buf.length) (hk : ∀ c ∈ copies, k < c.1) :
    byteAt (spliceAll buf copies) k = byteAt buf k := by
  induction copies generalizing buf with
  | nil => rfl
  | cons c rest ih =>
    have hc := h c List.mem_cons_self
    have hbefore := hk c List.mem_cons_self
    have hrest : ∀ c' ∈ rest, c'.1 + c'.2.length ≤ (splice buf c.1 c.2).length := by
      intro c' hc'
      rw [length_splice hc]
      exact h c' (List.mem_cons_of_mem _ hc')
    have hkeep := ih hrest fun c' hc' => hk c' (List.mem_cons_of_mem _ hc')
    exact hkeep.trans (by rw [byteAt_splice hc, if_neg (by omega)])

/-- Copies to ascending disjoint ranges are all read back. -/
theorem byteAt_spliceAll {buf : Bytes} {copies : List (ℕ × Bytes)}
    (hpair : copies.Pairwise (fun a b => a.1 + a.2.length ≤ b.1))
    (h : ∀ c ∈ copies, c.1 + c.2.length ≤ buf.length) {c : ℕ × Bytes} (hc : c ∈ copies)
    {i : ℕ} (hi : i < c.2.length) :
    byteAt (spliceAll buf copies) (c.1 + i) = byteAt c.2 i := by
  induction copies generalizing buf with
  | nil => cases hc
  | cons a rest ih =>
    have ha := h a List.mem_cons_self
    have hrest : ∀ c' ∈ rest, c'.1 + c'.2.length ≤ (splice buf a.1 a.2).length := by
      intro c' hc'
      rw [length_splice ha]
      exact h c' (List.mem_cons_of_mem _ hc')
    obtain ⟨hfirst, hpair⟩ := List.pairwise_cons.mp hpair
    rcases List.mem_cons.mp hc with rfl | hc
    · have hlater : ∀ c' ∈ rest, c.1 + i < c'.1 := by
        intro c' hc'
        have hdisjoint := hfirst c' hc'
        omega
      refine (byteAt_spliceAll_of_lt hrest hlater).trans ?_
      rw [byteAt_splice ha, if_pos (by omega), Nat.add_sub_cancel_left]
    · exact ih hpair hrest hc

/-- Two adjacent copies are one copy. -/
theorem splice_splice {buf a b : Bytes} {off : ℕ} (h : off + a.length + b.length ≤ buf.length) :
    splice (splice buf off a) (off + a.length) b = splice buf off (a ++ b) := by
  have htake : (buf.take off).length = off := by
    simp only [List.length_take]
    omega
  have hfront : (buf.take off ++ a).length = off + a.length := by
    simp only [List.length_append, htake]
  have hlow : (splice buf off a).take (off + a.length) = buf.take off ++ a := by
    rw [splice, ← hfront, List.take_left]
  have hhigh : (splice buf off a).drop (off + a.length + b.length) =
      buf.drop (off + (a ++ b).length) := by
    rw [drop_splice (by omega) (by omega), List.length_append, Nat.add_assoc]
  rw [splice, hlow, hhigh, splice, ← List.append_assoc]

/-- Two buffers of one length with the same bytes are equal. -/
theorem ext_byteAt {a b : Bytes} (hlen : a.length = b.length)
    (h : ∀ i, i < a.length → byteAt a i = byteAt b i) : a = b := by
  apply List.ext_getElem hlen
  intro i ha hb
  have hi := h i ha
  simpa only [byteAt, List.getD_eq_getElem?_getD, List.getElem?_eq_getElem ha,
    List.getElem?_eq_getElem hb, Option.getD_some] using hi

/-- Disjoint shifted fields add up. -/
theorem shifted_fields (d i p : ℕ) (hi : i < 2 ^ 10) (hp : p < 2 ^ 8) :
    (i <<< 12 ||| d <<< 22 ||| p <<< 4) = d * 2 ^ 22 + i * 2 ^ 12 + p * 2 ^ 4 := by
  have hhigh := Nat.two_pow_add_eq_or_of_lt (i := 22) (b := i * 2 ^ 12) (by omega) d
  have hlow := Nat.two_pow_add_eq_or_of_lt (i := 12) (b := p * 2 ^ 4) (by omega)
    (d * 2 ^ 10 + i)
  have hmerge : 2 ^ 22 * d + i * 2 ^ 12 = 2 ^ 12 * (d * 2 ^ 10 + i) := by ring
  simp only [Nat.shiftLeft_eq]
  rw [Nat.or_comm (i * 2 ^ 12), Nat.mul_comm d, ← hhigh, hmerge, ← hlow]

end ByteFields

end KmControl
