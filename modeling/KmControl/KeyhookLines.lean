import KmControl.Decimal
import KmControl.Keyhook
import KmControl.MoonControl

/-!
The lines between the hook process and the admin as text: what the hook process writes,
and what the admin does with a line that it reads.
-/
namespace KmControl.KeyhookLines

open Decimal Keyhook MoonControl

section Writing

def flag (on : Bool) : List Char := [if on then '1' else '0']

def fields : Line → List (List Char)
  | .key code down => [['k'], numeral code.toNat, flag down]
  | .mouseMove x y w h =>
    [['m', 'm'], signed x.toInt, signed y.toInt, signed w.toInt, signed h.toInt]
  | .button number down => [['m', 'b'], numeral number.toNat, flag down]
  | .scroll amount => [['m', 's'], signed amount.toInt]
  | .hover on => [['h'], flag on]

def text (line : Line) : List Char := [' '].intercalate (fields line)

end Writing

section Reading

def parseI32 (l : List Char) : Option Int32 := (parse (-2147483648) 2147483647 l).map Int32.ofInt
def parseI16 (l : List Char) : Option Int16 := (parse (-32768) 32767 l).map Int16.ofInt
def parseU8 (l : List Char) : Option UInt8 := (parse 0 255 l).map fun x => UInt8.ofNat x.toNat

/-- What a line sets off at the admin. -/
inductive Handled where
  | input (ev : InputEvent)
  | hover (on : Bool)
deriving DecidableEq

def handleKey : List (List Char) → Option Handled
  | vk :: d :: _ => do
    let vk ← parseI32 vk
    let d ← parseU8 d
    some (.input (.key vk.toInt16 (d = 1) 0))
  | _ => none

/-- The four numbers among the words; others are passed over. -/
def handleMove (args : List (List Char)) : Option Handled :=
  match args.filterMap parseI32 with
  | [x, y, w, h] => some (.input (.mousePosition x.toInt16 y.toInt16 w.toInt16 h.toInt16))
  | _ => none

def handleButton : List (List Char) → Option Handled
  | b :: d :: _ => do
    let b ← parseU8 b
    let d ← parseU8 d
    some (.input (.mouseButton b (d = 1)))
  | _ => none

def handleScroll : List (List Char) → Option Handled
  | a :: _ => (parseI16 a).map fun amount => .input (.scroll amount)
  | _ => none

def handleHover : List (List Char) → Option Handled
  | v :: _ => some (.hover (v = ['1']))
  | _ => none

def handleLine (line : List Char) : Option Handled :=
  match splitWhitespace line with
  | kind :: args =>
    if kind = ['k'] then handleKey args
    else if kind = ['m', 'm'] then handleMove args
    else if kind = ['m', 'b'] then handleButton args
    else if kind = ['m', 's'] then handleScroll args
    else if kind = ['h'] then handleHover args
    else none
  | [] => none

end Reading

section RoundTrip

theorem parseI32_signed (x : Int32) : parseI32 (signed x.toInt) = some x := by
  have hlo : -2147483648 ≤ x.toInt := x.le_toInt
  have hhi : x.toInt < 2147483648 := x.toInt_lt
  unfold parseI32
  rw [parse_signed hlo (by omega)]
  exact congrArg some (Int32.ofInt_toInt x)

theorem parseI16_signed (x : Int16) : parseI16 (signed x.toInt) = some x := by
  have hlo : -32768 ≤ x.toInt := x.le_toInt
  have hhi : x.toInt < 32768 := x.toInt_lt
  unfold parseI16
  rw [parse_signed hlo (by omega)]
  exact congrArg some (Int16.ofInt_toInt x)

theorem signed_natCast (n : ℕ) : signed n = numeral n := if_neg (by omega)

theorem parseU8_numeral (x : UInt8) : parseU8 (numeral x.toNat) = some x := by
  have hlt := x.toNat_lt
  unfold parseU8
  rw [← signed_natCast, parse_signed (by omega) (by omega)]
  exact congrArg some (UInt8.ofNat_toNat)

theorem parseU8_flag (on : Bool) : parseU8 (flag on) = some (if on then 1 else 0) := by
  cases on <;> rfl

theorem isWord_fields (line : Line) : ∀ w ∈ fields line, IsWord w := by
  have hone : ∀ c, isWhitespace c = false → IsWord [c] := fun c hc =>
    ⟨List.cons_ne_nil _ _, fun d hd => List.mem_singleton.mp hd ▸ hc⟩
  have hflag : ∀ on, IsWord (flag on) := fun on => by
    cases on with
    | false => exact hone '0' (by decide)
    | true => exact hone '1' (by decide)
  have htwo : ∀ c, isWhitespace c = false → IsWord ['m', c] := fun c hc => by
    refine ⟨List.cons_ne_nil _ _, fun d hd => ?_⟩
    rcases List.mem_cons.mp hd with rfl | hd
    · decide
    · exact List.mem_singleton.mp hd ▸ hc
  cases line with
  | key code down =>
    simp only [fields, List.forall_mem_cons]
    exact ⟨hone 'k' (by decide), isWord_numeral _, hflag down, nofun⟩
  | mouseMove x y w h =>
    simp only [fields, List.forall_mem_cons]
    exact ⟨htwo 'm' (by decide), isWord_signed _, isWord_signed _, isWord_signed _, isWord_signed _,
      nofun⟩
  | button number down =>
    simp only [fields, List.forall_mem_cons]
    exact ⟨htwo 'b' (by decide), isWord_numeral _, hflag down, nofun⟩
  | scroll amount =>
    simp only [fields, List.forall_mem_cons]
    exact ⟨htwo 's' (by decide), isWord_signed _, nofun⟩
  | hover on =>
    simp only [fields, List.forall_mem_cons]
    exact ⟨hone 'h' (by decide), hflag on, nofun⟩

/-- What a line of the hook process means to the admin. -/
def meaning : Line → Handled
  | .key code down => .input (.key (Int32.ofInt code.toNat).toInt16 down 0)
  | .mouseMove x y w h => .input (.mousePosition x.toInt16 y.toInt16 w.toInt16 h.toInt16)
  | .button number down => .input (.mouseButton number down)
  | .scroll amount => .input (.scroll amount)
  | .hover on => .hover on

/-- The admin understands every line, as long as a key's code is a positive `i32`. -/
theorem handleLine_text {line : Line}
    (hkey : ∀ code down, line = .key code down → code.toNat ≤ 2147483647) :
    handleLine (text line) = some (meaning line) := by
  unfold handleLine text
  rw [splitWhitespace_intercalate (isWord_fields line)]
  cases line with
  | key code down =>
    have hcode : parseI32 (numeral code.toNat) = some (Int32.ofInt code.toNat) := by
      unfold parseI32
      rw [← signed_natCast, parse_signed (by omega) (by exact_mod_cast hkey code down rfl)]
      rfl
    change ((parseI32 (numeral code.toNat)).bind fun vk => (parseU8 (flag down)).bind fun d =>
      some (Handled.input (.key vk.toInt16 (d = 1) 0))) = _
    rw [hcode, parseU8_flag]
    cases down <;> rfl
  | mouseMove x y w h =>
    change handleMove [signed x.toInt, signed y.toInt, signed w.toInt, signed h.toInt] = _
    unfold handleMove
    rw [List.filterMap_cons_some (parseI32_signed x), List.filterMap_cons_some (parseI32_signed y),
      List.filterMap_cons_some (parseI32_signed w), List.filterMap_cons_some (parseI32_signed h)]
    rfl
  | button number down =>
    change ((parseU8 (numeral number.toNat)).bind fun b => (parseU8 (flag down)).bind fun d =>
      some (Handled.input (.mouseButton b (d = 1)))) = _
    rw [parseU8_numeral, parseU8_flag]
    cases down <;> rfl
  | scroll amount =>
    change (parseI16 (signed amount.toInt)).map _ = _
    rw [parseI16_signed]
    rfl
  | hover on => cases on <;> rfl

example : text (.scroll (-120)) = ['m', 's', ' ', '-', '1', '2', '0'] := rfl

end RoundTrip

end KmControl.KeyhookLines
