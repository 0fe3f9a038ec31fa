import KmControl.ByteFields
import Mathlib.Data.List.Infix

/-!
The admin's search for the codec in an Annex B stream. A start code can begin only
where the stream has one: inside a unit there is none, and none reaches over its end,
because the last byte is not zero. So the search walks over a unit as over nothing.
-/
namespace KmControl.SpsScan

open ByteFields

section Search

/-- Two hexadecimal digits. -/
def hex (x : UInt8) : List Char := (Nat.toDigits 16 x.toNat).leftpad 2 '0'

def avc1 (profile constraints level : UInt8) : List Char :=
  "avc1.".toList ++ hex profile ++ hex constraints ++ hex level

example : avc1 0x64 0x00 0x1f = "avc1.64001f".toList := by decide

def nalType (header : UInt8) : UInt8 := header &&& 0x1f

/-- The search from the index `i` on. -/
def codecFrom (annexb : Bytes) (i : ℕ) : Option (List Char) :=
  if i + 4 < annexb.length then
    if byteAt annexb i = 0 ∧ byteAt annexb (i + 1) = 0 ∧ byteAt annexb (i + 2) = 1 then
      let nalStart := i + 3
      if nalType (byteAt annexb nalStart) = 7 ∧ nalStart + 3 < annexb.length then
        some (avc1 (byteAt annexb (nalStart + 1)) (byteAt annexb (nalStart + 2))
          (byteAt annexb (nalStart + 3)))
      else codecFrom annexb nalStart
    else codecFrom annexb (i + 1)
  else none
termination_by annexb.length - i

def codecFromSps (annexb : Bytes) : Option (List Char) := codecFrom annexb 0

end Search

section Walk

theorem byteAt_append (pre rest : Bytes) (i : ℕ) :
    byteAt (pre ++ rest) (pre.length + i) = byteAt rest i := by
  unfold byteAt
  rw [List.getD_append_right _ _ _ _ (Nat.le_add_right _ _), Nat.add_sub_cancel_left]

/-- What lies behind the index does not matter. -/
theorem codecFrom_append (pre rest : Bytes) (i : ℕ) :
    codecFrom (pre ++ rest) (pre.length + i) = codecFrom rest i := by
  induction i using codecFrom.induct rest with
  | case1 i hin hcode nalStart hsps =>
    rw [codecFrom.eq_def (pre ++ rest), codecFrom.eq_def rest]
    simp only [Nat.add_assoc, byteAt_append, List.length_append, Nat.add_lt_add_iff_left,
      if_pos hin, if_pos hcode]
    rw [if_pos hsps, if_pos hsps]
  | case2 i hin hcode nalStart hsps ih =>
    rw [codecFrom.eq_def (pre ++ rest), codecFrom.eq_def rest]
    simp only [Nat.add_assoc, byteAt_append, List.length_append, Nat.add_lt_add_iff_left,
      if_pos hin, if_pos hcode]
    rw [if_neg hsps, if_neg hsps]
    exact ih
  | case3 i hin hcode ih =>
    rw [codecFrom.eq_def (pre ++ rest), codecFrom.eq_def rest]
    simp only [Nat.add_assoc, byteAt_append, List.length_append, Nat.add_lt_add_iff_left,
      if_pos hin, if_neg hcode]
    exact ih
  | case4 i hin =>
    rw [codecFrom.eq_def (pre ++ rest), codecFrom.eq_def rest]
    simp only [Nat.add_assoc, List.length_append, Nat.add_lt_add_iff_left, if_neg hin]

theorem codecFrom_of_end {annexb : Bytes} {i : ℕ} (h : annexb.length ≤ i + 4) :
    codecFrom annexb i = none := by
  rw [codecFrom, if_neg (Nat.not_lt.mpr h)]

/-- Where no start code begins, the search goes on with the next byte. -/
theorem codecFromSps_cons {b : UInt8} {rest : Bytes} (h : ¬ [0, 0, 1] <+: b :: rest) :
    codecFromSps (b :: rest) = codecFromSps rest := by
  have hshift : codecFrom (b :: rest) 1 = codecFromSps rest := codecFrom_append [b] rest 0
  unfold codecFromSps
  by_cases hend : (b :: rest).length ≤ 4
  · rw [codecFrom_of_end hend, codecFrom_of_end (Nat.le_of_succ_le hend)]
  · have hcode : ¬ (byteAt (b :: rest) 0 = 0 ∧ byteAt (b :: rest) 1 = 0 ∧
        byteAt (b :: rest) 2 = 1) := by
      rintro ⟨h0, h1, h2⟩
      apply h
      match rest, hend with
      | c :: d :: rest, _ =>
        obtain rfl : b = 0 := h0
        obtain rfl : c = 0 := h1
        obtain rfl : d = 1 := h2
        exact ⟨rest, rfl⟩
    rw [codecFrom, if_pos (Nat.not_le.mp hend), if_neg hcode]
    exact hshift

/-- A start code with what follows: an SPS of four bytes or more ends the search. -/
theorem codecFromSps_code (header : UInt8) (rest : Bytes) :
    codecFromSps (0 :: 0 :: 1 :: header :: rest) =
      if nalType header = 7 ∧ 3 ≤ rest.length then
        some (avc1 (byteAt rest 0) (byteAt rest 1) (byteAt rest 2))
      else codecFromSps (header :: rest) := by
  have hshift : codecFrom (0 :: 0 :: 1 :: header :: rest) 3 = codecFromSps (header :: rest) :=
    codecFrom_append [0, 0, 1] (header :: rest) 0
  by_cases hend : rest = []
  · subst hend
    rw [if_neg fun h => absurd h.2 (by decide)]
    have hone : [header].length ≤ 4 := Nat.le_of_ble_eq_true rfl
    exact (codecFrom_of_end (Nat.le_refl _)).trans (codecFrom_of_end hone).symm
  · have hlen : 0 < rest.length := List.length_pos_iff.mpr hend
    unfold codecFromSps at hshift ⊢
    rw [codecFrom, if_pos (by simpa using hlen), if_pos ⟨rfl, rfl, rfl⟩]
    by_cases hsps : nalType header = 7 ∧ 3 ≤ rest.length
    · rw [if_pos hsps]
      exact if_pos ⟨hsps.1, Nat.add_le_add_right hsps.2 4⟩
    · rw [if_neg hsps]
      exact (if_neg fun h => hsps ⟨h.1, Nat.le_of_add_le_add_right (b := 4) h.2⟩).trans hshift

/-- The search passes over what has no start code in it and does not end in a zero. -/
theorem codecFromSps_append {nal : Bytes} (hcode : ¬ [0, 0, 1] <:+: nal)
    (hlast : nal.getLast? ≠ some 0) (rest : Bytes) :
    codecFromSps (nal ++ rest) = codecFromSps rest := by
  induction nal with
  | nil => rfl
  | cons b nal ih =>
    have hnot : ¬ [0, 0, 1] <+: b :: (nal ++ rest) := by
      intro hpre
      obtain ⟨rfl, hsecond⟩ := List.cons_prefix_cons.mp hpre
      match nal with
      | [] => exact hlast rfl
      | [c] =>
        obtain rfl : 0 = c := (List.cons_prefix_cons.mp hsecond).1
        exact hlast rfl
      | c :: d :: nal =>
        obtain ⟨hc, hthird⟩ := List.cons_prefix_cons.mp hsecond
        obtain rfl : 1 = d := (List.cons_prefix_cons.mp hthird).1
        exact hcode ⟨[], nal, by rw [← hc]; rfl⟩
    rw [List.cons_append, codecFromSps_cons hnot]
    cases nal with
    | nil => rfl
    | cons c nal =>
      exact ih (fun hinside => hcode (hinside.trans (List.infix_cons (List.infix_refl _))))
        (by rwa [List.getLast?_cons_cons] at hlast)

end Walk

section Units

/-- A NAL unit as Annex B has it: not empty, without a start code in it, not ending in a
zero byte; a sequence parameter set has at least its profile and its level. -/
structure NalUnit where
  header : UInt8
  payload : Bytes
  noStartCode : ¬ [0, 0, 1] <:+: header :: payload
  lastByte : (header :: payload).getLast? ≠ some 0
  complete : nalType header = 7 → 3 ≤ payload.length

def NalUnit.isSps (nal : NalUnit) : Bool := nalType nal.header = 7

def NalUnit.codec (nal : NalUnit) : List Char :=
  avc1 (byteAt nal.payload 0) (byteAt nal.payload 1) (byteAt nal.payload 2)

/-- A start code of four bytes or of three. -/
def startCode (long : Bool) : Bytes := if long then [0, 0, 0, 1] else [0, 0, 1]

def stream (units : List (Bool × NalUnit)) : Bytes :=
  units.flatMap fun unit => startCode unit.1 ++ unit.2.header :: unit.2.payload

theorem codecFromSps_startCode (long : Bool) (rest : Bytes) :
    codecFromSps (startCode long ++ rest) = codecFromSps (0 :: 0 :: 1 :: rest) := by
  cases long with
  | false => rfl
  | true =>
    refine codecFromSps_cons fun hpre => ?_
    have hthird := (List.cons_prefix_cons.mp (List.cons_prefix_cons.mp hpre).2).2
    exact absurd (List.cons_prefix_cons.mp hthird).1 (by decide)

/-- The codec is that of the first SPS, wherever it stands, and there is none exactly
when there is no SPS. -/
theorem codecFromSps_stream (units : List (Bool × NalUnit)) :
    codecFromSps (stream units) = ((units.map Prod.snd).find? NalUnit.isSps).map NalUnit.codec ∧
      (codecFromSps (stream units) = none ↔ ∀ unit ∈ units, nalType unit.2.header ≠ 7) := by
  have hfirst : codecFromSps (stream units) =
      ((units.map Prod.snd).find? NalUnit.isSps).map NalUnit.codec := by
    induction units with
    | nil => exact codecFrom_of_end (Nat.zero_le _)
    | cons unit units ih =>
      obtain ⟨long, nal⟩ := unit
      change codecFromSps (startCode long ++ nal.header :: nal.payload ++ stream units) = _
      rw [List.append_assoc, codecFromSps_startCode, List.cons_append, codecFromSps_code,
        List.map_cons, List.find?_cons]
      by_cases hsps : nalType nal.header = 7
      · have hlen := nal.complete hsps
        have hbyte : ∀ i < 3, byteAt (nal.payload ++ stream units) i = byteAt nal.payload i :=
          fun i hi => List.getD_append _ _ _ _ (by omega)
        rw [if_pos ⟨hsps, by rw [List.length_append]; omega⟩, hbyte 0 (by decide),
          hbyte 1 (by decide), hbyte 2 (by decide)]
        have htrue : nal.isSps = true := decide_eq_true hsps
        rw [htrue]
        rfl
      · have hfalse : nal.isSps = false := decide_eq_false hsps
        rw [if_neg fun h => hsps h.1, hfalse, ← List.cons_append,
          codecFromSps_append nal.noStartCode nal.lastByte, ih]
  refine ⟨hfirst, ?_⟩
  rw [hfirst, Option.map_eq_none_iff, List.find?_eq_none]
  simp only [List.forall_mem_map, NalUnit.isSps, decide_eq_true_eq]

end Units

end KmControl.SpsScan
