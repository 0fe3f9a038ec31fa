import KmControl.Decimal
import Mathlib.Data.List.Basic

/-!
IP addresses in text, as the standard library reads them: four octets between dots, or
eight groups of hexadecimal digits between colons, of which a double colon leaves some out
and the last two can be written as octets.
-/
namespace KmControl.IpLiteral

open Decimal

inductive IpVersion where
  | v4
  | v6
deriving DecidableEq

section Forms

/-- At most three digits, the first of them zero only if it is the only one. -/
def isOctet (w : List Char) : Bool :=
  match parseDigits w with
  | none => false
  | some n => decide (w.length ≤ 3 ∧ (w.length = 1 ∨ w.head? ≠ some '0') ∧ n ≤ 255)

def isV4 (t : List Char) : Bool := (t.splitOn '.').length = 4 && (t.splitOn '.').all isOctet

def isHexDigit (c : Char) : Bool :=
  c.isDigit || decide (97 ≤ c.toNat ∧ c.toNat ≤ 102) || decide (65 ≤ c.toNat ∧ c.toNat ≤ 70)

def isGroup (w : List Char) : Bool := decide (1 ≤ w.length ∧ w.length ≤ 4) && w.all isHexDigit

/-- How many groups stand between these colons; the last can be an address of octets. -/
def countGroups (octets : Bool) : List (List Char) → Option ℕ
  | [] => some 0
  | [w] => if octets && isV4 w then some 2 else if isGroup w then some 1 else none
  | w :: ws => if isGroup w then (countGroups octets ws).map (· + 1) else none

def groups (octets : Bool) (t : List Char) : Option ℕ :=
  if t = [] then some 0 else countGroups octets (t.splitOn ':')

/-- The text before the first double colon and the text after it. -/
def splitDouble : List Char → Option (List Char × List Char)
  | [] => none
  | c :: t =>
    if [':', ':'] <+: c :: t then some ([], t.drop 1)
    else (splitDouble t).map fun p => (c :: p.1, p.2)

def isV6 (t : List Char) : Bool :=
  match splitDouble t with
  | none => groups true t = some 8
  | some (head, tail) =>
    match groups false head, groups true tail with
    | some n, some m => decide (n + m ≤ 7)
    | _, _ => false

/-- `host.parse::<IpAddr>()`, as far as it says which kind of address it is. -/
def parseIpAddr (t : List Char) : Option IpVersion :=
  if isV4 t then some .v4 else if isV6 t then some .v6 else none

example : parseIpAddr "192.168.0.7".toList = some .v4 := by decide

example : parseIpAddr "fe80::1:192.168.0.7".toList = some .v6 := by decide

end Forms

section Characters

/-- The characters of which addresses are made. -/
def IsIpChar (c : Char) : Prop := isHexDigit c = true ∨ c = '.' ∨ c = ':'

variable {t : List Char}

theorem mem_splitOn (sep : Char) {c : Char} (h : c ∈ t) : c = sep ∨ ∃ w ∈ t.splitOn sep, c ∈ w := by
  have hjoin : [sep].intercalate (t.splitOn sep) = t := List.intercalate_splitOn sep
  rw [← hjoin] at h
  generalize t.splitOn sep = ws at h ⊢
  induction ws with
  | nil => exact absurd h List.not_mem_nil
  | cons w ws ih =>
    cases ws with
    | nil =>
      rw [List.intercalate_singleton] at h
      exact Or.inr ⟨w, List.mem_cons_self, h⟩
    | cons w' ws =>
      rw [List.intercalate_cons_cons] at h
      rcases List.mem_append.mp h with h | h
      · rcases List.mem_append.mp h with h | h
        · exact Or.inr ⟨w, List.mem_cons_self, h⟩
        · exact Or.inl (List.mem_singleton.mp h)
      · rcases ih h with heq | ⟨v, hv, hc⟩
        · exact Or.inl heq
        · exact Or.inr ⟨v, List.mem_cons_of_mem _ hv, hc⟩

theorem isIpChar_of_isOctet (h : isOctet t = true) : ∀ c ∈ t, IsIpChar c := by
  intro c hc
  unfold isOctet parseDigits at h
  split at h
  · cases h
  · rename_i n hdigits
    split at hdigits
    · rename_i hall
      have hdigit := List.all_eq_true.mp hall.2 c hc
      exact Or.inl (by simp [isHexDigit, hdigit])
    · cases hdigits

theorem isIpChar_of_isV4 (h : isV4 t = true) : ∀ c ∈ t, IsIpChar c := by
  intro c hc
  rcases mem_splitOn '.' hc with heq | ⟨w, hw, hcw⟩
  · exact Or.inr (Or.inl heq)
  · exact isIpChar_of_isOctet (List.all_eq_true.mp (Bool.and_eq_true_iff.mp h).2 w hw) c hcw

theorem isIpChar_of_isGroup (h : isGroup t = true) : ∀ c ∈ t, IsIpChar c := fun c hc =>
  Or.inl (List.all_eq_true.mp (Bool.and_eq_true_iff.mp h).2 c hc)

theorem isIpChar_of_countGroups {octets : Bool} {ws : List (List Char)} {n : ℕ}
    (h : countGroups octets ws = some n) : ∀ w ∈ ws, ∀ c ∈ w, IsIpChar c := by
  fun_induction countGroups octets ws generalizing n with
  | case1 => exact fun w hw => absurd hw List.not_mem_nil
  | case2 w hocts =>
    intro v hv
    rw [List.mem_singleton.mp hv]
    exact isIpChar_of_isV4 (Bool.and_eq_true_iff.mp hocts).2
  | case3 w _ hgroup =>
    intro v hv
    rw [List.mem_singleton.mp hv]
    exact isIpChar_of_isGroup hgroup
  | case4 => cases h
  | case5 w ws _ hgroup ih =>
    obtain ⟨m, hm, -⟩ := Option.map_eq_some_iff.mp h
    intro v hv
    rcases List.mem_cons.mp hv with rfl | hv
    · exact isIpChar_of_isGroup hgroup
    · exact ih hm v hv
  | case6 => cases h

theorem isIpChar_of_groups {octets : Bool} {n : ℕ} (h : groups octets t = some n) :
    ∀ c ∈ t, IsIpChar c := by
  intro c hc
  unfold groups at h
  rw [if_neg (List.ne_nil_of_mem hc)] at h
  rcases mem_splitOn ':' hc with heq | ⟨w, hw, hcw⟩
  · exact Or.inr (Or.inr heq)
  · exact isIpChar_of_countGroups h w hw c hcw

theorem mem_splitDouble {head tail : List Char} (h : splitDouble t = some (head, tail)) {c : Char}
    (hc : c ∈ t) : c ∈ head ∨ c = ':' ∨ c ∈ tail := by
  induction t generalizing head with
  | nil => cases h
  | cons d t ih =>
    unfold splitDouble at h
    split at h
    · rename_i hpre
      obtain ⟨rfl, rfl⟩ := Prod.mk.inj (Option.some.inj h)
      obtain ⟨rest, hrest⟩ := hpre
      obtain ⟨rfl, rfl⟩ := List.cons.inj hrest
      rcases List.mem_cons.mp hc with hc | hc
      · exact Or.inr (Or.inl hc)
      · rcases List.mem_cons.mp hc with hc | hc
        · exact Or.inr (Or.inl hc)
        · exact Or.inr (Or.inr hc)
    · obtain ⟨⟨head', tail'⟩, hsplit, hpair⟩ := Option.map_eq_some_iff.mp h
      obtain ⟨rfl, rfl⟩ := Prod.mk.inj hpair
      rcases List.mem_cons.mp hc with rfl | hc
      · exact Or.inl List.mem_cons_self
      · exact (ih hsplit hc).imp_left (List.mem_cons_of_mem _)

theorem isIpChar_of_isV6 (h : isV6 t = true) : ∀ c ∈ t, IsIpChar c := by
  intro c hc
  unfold isV6 at h
  split at h
  · exact isIpChar_of_groups (of_decide_eq_true h) c hc
  · rename_i head tail hsplit
    split at h
    · rename_i n m hhead htail
      rcases mem_splitDouble hsplit hc with hc | heq | hc
      · exact isIpChar_of_groups hhead c hc
      · exact Or.inr (Or.inr heq)
      · exact isIpChar_of_groups htail c hc
    · cases h

/-- An address is not empty and has only such characters. -/
theorem isIpChar_of_parseIpAddr {v : IpVersion} (h : parseIpAddr t = some v) :
    t ≠ [] ∧ ∀ c ∈ t, IsIpChar c := by
  refine ⟨?_, ?_⟩
  · rintro rfl
    have hnone : parseIpAddr [] = none := by decide
    rw [hnone] at h
    cases h
  · unfold parseIpAddr at h
    split at h
    · rename_i hv4
      exact isIpChar_of_isV4 hv4
    · split at h
      · rename_i hv6
        exact isIpChar_of_isV6 hv6
      · cases h

end Characters

end KmControl.IpLiteral
