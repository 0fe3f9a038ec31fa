import KmControl.ByteFields
import KmControl.Decimal

/-!
Bytes as text: in base 64, in lines of 64 characters between two lines with a label. What
is written so is read.
-/
namespace KmControl.Pem


section Digits

/-- A digit in base 64. -/
def sextetChar (n : ℕ) : Char :=
  if n < 26 then Char.ofNat (n + 65)
  else if n < 52 then Char.ofNat (n + 71)
  else if n < 62 then Char.ofNat (n - 4)
  else if n = 62 then '+'
  else '/'

/-- The value of a digit in base 64. -/
def sextet (c : Char) : Option ℕ :=
  if 65 ≤ c.toNat ∧ c.toNat ≤ 90 then some (c.toNat - 65)
  else if 97 ≤ c.toNat ∧ c.toNat ≤ 122 then some (c.toNat - 71)
  else if 48 ≤ c.toNat ∧ c.toNat ≤ 57 then some (c.toNat + 4)
  else if c = '+' then some 62
  else if c = '/' then some 63
  else none

/-- Three bytes as four digits; the last group is padded. -/
def encode64 : Bytes → List Char
  | [] => []
  | [a] => [sextetChar (a.toNat / 4), sextetChar (a.toNat % 4 * 16), '=', '=']
  | [a, b] => [sextetChar (a.toNat / 4), sextetChar (a.toNat % 4 * 16 + b.toNat / 16),
      sextetChar (b.toNat % 16 * 4), '=']
  | a :: b :: c :: rest =>
    sextetChar (a.toNat / 4) :: sextetChar (a.toNat % 4 * 16 + b.toNat / 16) ::
      sextetChar (b.toNat % 16 * 4 + c.toNat / 64) :: sextetChar (c.toNat % 64) :: encode64 rest

/-- The bytes of four digits; padding counts as zeros. -/
def group (a b c d : Char) : Option Bytes :=
  match sextet a, sextet b, sextet c, sextet d with
  | some w, some x, some y, some z =>
    some [UInt8.ofNat (w * 4 + x / 16), UInt8.ofNat (x % 16 * 16 + y / 4), UInt8.ofNat (y % 4 * 64 + z)]
  | some w, some x, some y, none =>
    if d = '=' then some [UInt8.ofNat (w * 4 + x / 16), UInt8.ofNat (x % 16 * 16 + y / 4)] else none
  | some w, some x, none, none =>
    if c = '=' ∧ d = '=' then some [UInt8.ofNat (w * 4 + x / 16)] else none
  | _, _, _, _ => none

/-- Only the last group can be padded. -/
def decode64 : List Char → Option Bytes
  | [] => some []
  | a :: b :: c :: d :: rest =>
    match group a b c d, decode64 rest with
    | some bytes, some more => if bytes.length = 3 ∨ rest = [] then some (bytes ++ more) else none
    | _, _ => none
  | _ => none

theorem sextet_sextetChar {n : ℕ} (h : n < 64) : sextet (sextetChar n) = some n ∧
    sextetChar n ≠ '-' ∧ Decimal.isWhitespace (sextetChar n) = false := by
  have hall : ∀ n < 64, sextet (sextetChar n) = some n ∧ sextetChar n ≠ '-' ∧
      Decimal.isWhitespace (sextetChar n) = false := by decide +kernel
  exact hall n h

theorem ofNat_eq {a : UInt8} {n : ℕ} (h : n % 256 = a.toNat) : UInt8.ofNat n = a := by
  apply UInt8.toNat_inj.mp
  rw [UInt8.toNat_ofNat']
  exact h

theorem sextet_pad : sextet '=' = none := by decide

theorem decode64_encode64 (l : Bytes) : decode64 (encode64 l) = some l := by
  fun_induction encode64 l with
  | case1 => rfl
  | case2 a =>
    have ha := a.toNat_lt
    have hw := (sextet_sextetChar (show a.toNat / 4 < 64 by omega)).1
    have hx := (sextet_sextetChar (show a.toNat % 4 * 16 < 64 by omega)).1
    have hbyte : UInt8.ofNat (a.toNat / 4 * 4 + a.toNat % 4 * 16 / 16) = a := ofNat_eq (by omega)
    simp only [decode64, group, hw, hx, sextet_pad, hbyte]
    rfl
  | case3 a b =>
    have ha := a.toNat_lt
    have hb := b.toNat_lt
    have hw := (sextet_sextetChar (show a.toNat / 4 < 64 by omega)).1
    have hx := (sextet_sextetChar (show a.toNat % 4 * 16 + b.toNat / 16 < 64 by omega)).1
    have hy := (sextet_sextetChar (show b.toNat % 16 * 4 < 64 by omega)).1
    have hfirst : UInt8.ofNat (a.toNat / 4 * 4 + (a.toNat % 4 * 16 + b.toNat / 16) / 16) = a :=
      ofNat_eq (by omega)
    have hsecond : UInt8.ofNat ((a.toNat % 4 * 16 + b.toNat / 16) % 16 * 16 +
      b.toNat % 16 * 4 / 4) = b := ofNat_eq (by omega)
    simp only [decode64, group, hw, hx, hy, sextet_pad, hfirst, hsecond]
    rfl
  | case4 a b c rest ih =>
    have ha := a.toNat_lt
    have hb := b.toNat_lt
    have hc := c.toNat_lt
    have hw := (sextet_sextetChar (show a.toNat / 4 < 64 by omega)).1
    have hx := (sextet_sextetChar (show a.toNat % 4 * 16 + b.toNat / 16 < 64 by omega)).1
    have hy := (sextet_sextetChar (show b.toNat % 16 * 4 + c.toNat / 64 < 64 by omega)).1
    have hz := (sextet_sextetChar (show c.toNat % 64 < 64 by omega)).1
    have hfirst : UInt8.ofNat (a.toNat / 4 * 4 + (a.toNat % 4 * 16 + b.toNat / 16) / 16) = a :=
      ofNat_eq (by omega)
    have hsecond : UInt8.ofNat ((a.toNat % 4 * 16 + b.toNat / 16) % 16 * 16 +
      (b.toNat % 16 * 4 + c.toNat / 64) / 4) = b := ofNat_eq (by omega)
    have hthird : UInt8.ofNat ((b.toNat % 16 * 4 + c.toNat / 64) % 4 * 64 + c.toNat % 64) = c :=
      ofNat_eq (by omega)
    simp only [decode64, group, hw, hx, hy, hz, ih, hfirst, hsecond, hthird]
    rfl

theorem mem_encode64 {l : Bytes} {ch : Char} (h : ch ∈ encode64 l) :
    ch ≠ '-' ∧ Decimal.isWhitespace ch = false := by
  have hpad : '=' ≠ '-' ∧ Decimal.isWhitespace '=' = false := by decide
  have hdigit {n : ℕ} (hn : n < 64) := (sextet_sextetChar hn).2
  fun_induction encode64 l with
  | case1 => cases h
  | case2 a =>
    have ha := a.toNat_lt
    simp only [List.mem_cons, List.not_mem_nil, or_false] at h
    rcases h with rfl | rfl | rfl | rfl
    · exact hdigit (by omega)
    · exact hdigit (by omega)
    · exact hpad
    · exact hpad
  | case3 a b =>
    have ha := a.toNat_lt
    have hb := b.toNat_lt
    simp only [List.mem_cons, List.not_mem_nil, or_false] at h
    rcases h with rfl | rfl | rfl | rfl
    · exact hdigit (by omega)
    · exact hdigit (by omega)
    · exact hdigit (by omega)
    · exact hpad
  | case4 a b c rest ih =>
    have ha := a.toNat_lt
    have hb := b.toNat_lt
    have hc := c.toNat_lt
    simp only [List.mem_cons] at h
    rcases h with rfl | rfl | rfl | rfl | h
    · exact hdigit (by omega)
    · exact hdigit (by omega)
    · exact hdigit (by omega)
    · exact hdigit (by omega)
    · exact ih h

theorem length_encode64 (l : Bytes) : (encode64 l).length ≤ 4 * (l.length / 3 + 1) := by
  fun_induction encode64 l with
  | case1 => simp
  | case2 => simp
  | case3 => simp
  | case4 a b c rest ih =>
    simp only [List.length_cons]
    omega

end Digits

section Lines

/-- Lines of 64 characters, so many at most. -/
def lines : ℕ → List Char → List Char
  | 0, _ => []
  | n + 1, l => if l = [] then [] else l.take 64 ++ '\n' :: lines n (l.drop 64)

def beginLine (label : String) : List Char := ("-----BEGIN " ++ label ++ "-----").toList

def endLine (label : String) : List Char := ("-----END " ++ label ++ "-----").toList

/-- Bytes between two lines with a label. -/
def pem (label : String) (contents : Bytes) : String :=
  String.ofList (beginLine label ++ '\n' :: lines (contents.length + 1) (encode64 contents) ++
    endLine label ++ ['\n'])

def pemContents (label pem : String) : Option Bytes :=
  let rest := pem.toList.drop (beginLine label).length
  let body := rest.takeWhile (· ≠ '-')
  if beginLine label <+: pem.toList ∧ endLine label <+: rest.drop body.length then
    decode64 (body.filter fun c => !Decimal.isWhitespace c)
  else none

theorem filter_lines {l : List Char} (h : ∀ ch ∈ l, Decimal.isWhitespace ch = false) {n : ℕ}
    (hn : l.length ≤ 64 * n) : (lines n l).filter (fun ch => !Decimal.isWhitespace ch) = l := by
  induction n generalizing l with
  | zero => exact (List.length_eq_zero_iff.mp (by omega)).symm
  | succ n ih =>
    unfold lines
    split
    · rename_i hnil
      exact hnil.symm
    · have hfirst : (l.take 64).filter (fun ch => !Decimal.isWhitespace ch) = l.take 64 :=
        List.filter_eq_self.mpr fun ch hch => by rw [h ch (List.mem_of_mem_take hch)]; rfl
      have hrest := ih (l := l.drop 64) (fun ch hch => h ch (List.mem_of_mem_drop hch))
        (by rw [List.length_drop]; omega)
      rw [List.filter_append, hfirst, List.filter_cons_of_neg (by decide), hrest,
        List.take_append_drop]

theorem mem_lines {l : List Char} {n : ℕ} {ch : Char} (h : ch ∈ lines n l) : ch = '\n' ∨ ch ∈ l := by
  induction n generalizing l with
  | zero => cases h
  | succ n ih =>
    unfold lines at h
    split at h
    · cases h
    · rcases List.mem_append.mp h with h | h
      · exact Or.inr (List.mem_of_mem_take h)
      · rcases List.mem_cons.mp h with rfl | h
        · exact Or.inl rfl
        · exact (ih h).imp_right List.mem_of_mem_drop

/-- What is written between the lines is read. -/
@[simp] theorem pemContents_pem (label : String) (contents : Bytes) :
    pemContents label (pem label contents) = some contents := by
  have hlines : (lines (contents.length + 1) (encode64 contents)).filter
      (fun ch => !Decimal.isWhitespace ch) = encode64 contents :=
    filter_lines (fun ch h => (mem_encode64 h).2) (by
      have hlength := length_encode64 contents
      omega)
  have hdash : ∀ ch ∈ '\n' :: lines (contents.length + 1) (encode64 contents), ch ≠ '-' := by
    intro ch hch
    rcases List.mem_cons.mp hch with rfl | hch
    · decide
    · rcases mem_lines hch with rfl | hch
      · decide
      · exact (mem_encode64 hch).1
  obtain ⟨last, hend⟩ : ∃ last, endLine label = '-' :: last :=
    ⟨_, by rw [endLine, String.toList_append, String.toList_append]; rfl⟩
  have hbody : ('\n' :: lines (contents.length + 1) (encode64 contents) ++ endLine label ++
      ['\n']).takeWhile (· ≠ '-') = '\n' :: lines (contents.length + 1) (encode64 contents) := by
    rw [hend, List.append_assoc, List.takeWhile_append_of_pos fun ch hch =>
      decide_eq_true (hdash ch hch)]
    simp
  have htext : (pem label contents).toList = beginLine label ++ ('\n' ::
      lines (contents.length + 1) (encode64 contents) ++ endLine label ++ ['\n']) := by
    rw [pem, String.toList_ofList]
    simp only [List.append_assoc, List.cons_append]
  unfold pemContents
  dsimp only
  rw [htext, List.drop_left, hbody, List.append_assoc, List.drop_left, if_pos
    ⟨List.prefix_append _ _, List.prefix_append _ _⟩, List.filter_cons_of_neg (by decide), hlines,
    decode64_encode64]

end Lines

end KmControl.Pem
