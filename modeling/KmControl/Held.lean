import Mathlib.Data.List.Induction

/-!
Logs of strokes: downs and ups of controls of any kind. A control is held at the
end of a log if its last stroke there is a down.
-/
namespace KmControl.Held

structure Stroke (α : Type*) where
  control : α
  down : Bool
deriving DecidableEq, Repr

variable {α β : Type*} [DecidableEq α] [DecidableEq β]

/-- Read one stroke: it decides about its own control only. -/
def hold (c : α) (before : Bool) (s : Stroke α) : Bool :=
  if s.control = c then s.down else before

def held (strokes : List (Stroke α)) (c : α) : Bool := strokes.foldl (hold c) false

@[simp] theorem held_nil (c : α) : held [] c = false := rfl

theorem held_concat (strokes : List (Stroke α)) (s : Stroke α) (c : α) :
    held (strokes ++ [s]) c = if s.control = c then s.down else held strokes c := by
  unfold held
  rw [List.foldl_append]
  rfl

@[simp] theorem held_concat_self (strokes : List (Stroke α)) (c : α) (down : Bool) :
    held (strokes ++ [⟨c, down⟩]) c = down := by
  rw [held_concat, if_pos rfl]

theorem held_concat_of_ne {strokes : List (Stroke α)} {s : Stroke α} {c : α}
    (h : s.control ≠ c) : held (strokes ++ [s]) c = held strokes c := by
  rw [held_concat, if_neg h]

/-- Ups appended to a log release the controls they name and no other. -/
theorem held_append_ups {strokes ups : List (Stroke α)} (hups : ∀ s ∈ ups, s.down = false) (c : α) :
    held (strokes ++ ups) c = true ↔ held strokes c = true ∧ ∀ s ∈ ups, s.control ≠ c := by
  induction ups using List.reverseRecOn with
  | nil => simp
  | append_singleton ups s ih =>
    have hsup := hups s (List.mem_append_right _ List.mem_cons_self)
    have hrest := ih fun x hx => hups x (List.mem_append_left _ hx)
    rw [← List.append_assoc, held_concat]
    by_cases hs : s.control = c
    · rw [if_pos hs, hsup]
      constructor
      · intro h
        cases h
      · rintro ⟨-, hne⟩
        exact absurd hs (hne s (List.mem_append_right _ List.mem_cons_self))
    · rw [if_neg hs, hrest]
      constructor
      · rintro ⟨hheld, hne⟩
        refine ⟨hheld, fun x hx => ?_⟩
        rcases List.mem_append.mp hx with hx | hx
        · exact hne x hx
        · rw [List.mem_singleton.mp hx]
          exact hs
      · rintro ⟨hheld, hne⟩
        exact ⟨hheld, fun x hx => hne x (List.mem_append_left _ hx)⟩

/-- What is held after a renaming of the controls was held before it. -/
theorem exists_held_of_map (f : α → β) {strokes : List (Stroke α)} {c : β}
    (h : held (strokes.map fun s => ⟨f s.control, s.down⟩) c = true) :
    ∃ c', f c' = c ∧ held strokes c' = true := by
  induction strokes using List.reverseRecOn with
  | nil => cases h
  | append_singleton strokes s ih =>
    rw [List.map_append, List.map_singleton, held_concat] at h
    by_cases hs : f s.control = c
    · rw [if_pos hs] at h
      refine ⟨s.control, hs, ?_⟩
      rw [held_concat, if_pos rfl]
      exact h
    · rw [if_neg hs] at h
      obtain ⟨c', hc', hheld⟩ := ih h
      refine ⟨c', hc', ?_⟩
      rw [held_concat_of_ne fun heq => hs (heq ▸ hc')]
      exact hheld

/-- What is held was once put down. -/
theorem mem_of_held {strokes : List (Stroke α)} {c : α} (h : held strokes c = true) :
    ∃ s ∈ strokes, s.control = c := by
  by_contra hnone
  push Not at hnone
  have hfalse : held strokes c = false := by
    induction strokes using List.reverseRecOn with
    | nil => rfl
    | append_singleton strokes s ih =>
      have hs : s.control ≠ c := hnone s (List.mem_append_right _ List.mem_cons_self)
      rw [held_concat_of_ne hs] at h ⊢
      exact ih h fun x hx => hnone x (List.mem_append_left _ hx)
  rw [h] at hfalse
  cases hfalse

/-- To see that nothing is held it is enough to look at the controls in the log. -/
theorem forall_held_iff {strokes : List (Stroke α)} :
    (∀ c, held strokes c = false) ↔ ∀ s ∈ strokes, held strokes s.control = false := by
  constructor
  · intro h s _
    exact h s.control
  · intro h c
    by_contra hheld
    rw [Bool.not_eq_false] at hheld
    obtain ⟨s, hs, rfl⟩ := mem_of_held hheld
    rw [h s hs] at hheld
    cases hheld

end KmControl.Held
