import KmControl.KeyhookLines

/-!
What the admin sets at the hook process: the lines that it writes to the process's standard
input, and what the process makes of a line that it reads there.
-/
namespace KmControl.KeyhookSettings

open Decimal Keyhook KeyhookLines

inductive Setting where
  | streaming (on : Bool)
  | focused (on : Bool)
  | canvasRect (l t r b : Int32)
deriving DecidableEq, Repr

namespace Setting

/-- The line that `set_streaming`, `set_focused` or `set_canvas_rect` writes. -/
def text : Setting → List Char
  | streaming on => if on then ['s', '1'] else ['s', '0']
  | focused on => if on then ['f', '1'] else ['f', '0']
  | canvasRect l t r b =>
    'r' :: ' ' :: [' '].intercalate
      [signed l.toInt, signed t.toInt, signed r.toInt, signed b.toInt]

/-- What it is to do. -/
def command : Setting → Command
  | streaming on => .streaming on
  | focused on => .focused on
  | canvasRect l t r b => .rect l t r b

end Setting

/-- The four numbers among the words; others are passed over. -/
def readRect (rest : List Char) : Command :=
  match (splitWhitespace rest).filterMap parseI32 with
  | [l, t, r, b] => .rect l t r b
  | _ => .other

def readCommand (line : List Char) : Command :=
  let line := trim line
  if line = ['s', '1'] then .streaming true
  else if line = ['s', '0'] then .streaming false
  else if line = ['f', '1'] then .focused true
  else if line = ['f', '0'] then .focused false
  else match line with
    | 'r' :: ' ' :: rest => readRect rest
    | _ => .other

theorem readRect_intercalate (l t r b : Int32) : readRect ([' '].intercalate
    [signed l.toInt, signed t.toInt, signed r.toInt, signed b.toInt]) = .rect l t r b := by
  have hwords : ∀ w ∈ [signed l.toInt, signed t.toInt, signed r.toInt, signed b.toInt],
      IsWord w := by
    simp only [List.forall_mem_cons]
    exact ⟨isWord_signed _, isWord_signed _, isWord_signed _, isWord_signed _, nofun⟩
  unfold readRect
  rw [splitWhitespace_intercalate hwords, List.filterMap_cons_some (parseI32_signed l),
    List.filterMap_cons_some (parseI32_signed t), List.filterMap_cons_some (parseI32_signed r),
    List.filterMap_cons_some (parseI32_signed b)]
  rfl

/-- A text between two characters that are no white space is left as it is. -/
theorem trim_eq_self {first : Char} {mid last : List Char} (hfirst : isWhitespace first = false)
    (hlast : IsWord last) : trim (first :: (mid ++ last)) = first :: (mid ++ last) := by
  have hleft : (first :: (mid ++ last)).dropWhile isWhitespace = first :: (mid ++ last) := by
    rw [List.dropWhile_cons, hfirst]
    rfl
  unfold trim
  rw [hleft, List.rdropWhile_eq_self_iff]
  intro hne
  have hend : (first :: (mid ++ last)).getLast hne = last.getLast hlast.1 := by
    rw [List.getLast_cons (List.append_ne_nil_of_right_ne_nil mid hlast.1),
      List.getLast_append_of_ne_nil _ hlast.1]
  rw [hend, hlast.2 _ (List.getLast_mem hlast.1)]
  exact Bool.false_ne_true

/-- The process does what the admin has set. -/
theorem readCommand_text (setting : Setting) : readCommand setting.text = setting.command := by
  cases setting with
  | streaming on => cases on <;> rfl
  | focused on => cases on <;> rfl
  | canvasRect l t r b =>
    have htext : (Setting.canvasRect l t r b).text = 'r' :: (' ' :: (signed l.toInt ++ ' ' ::
        (signed t.toInt ++ ' ' :: (signed r.toInt ++ [' ']))) ++ signed b.toInt) := by
      simp only [Setting.text, List.intercalate_cons_cons, List.intercalate_singleton,
        List.append_assoc, List.cons_append, List.nil_append]
    have htrim : trim (Setting.canvasRect l t r b).text = (Setting.canvasRect l t r b).text := by
      rw [htext]
      exact trim_eq_self (by decide) (isWord_signed b.toInt)
    unfold readCommand
    rw [htrim]
    exact readRect_intercalate l t r b

end KmControl.KeyhookSettings
