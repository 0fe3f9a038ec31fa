import Mathlib.Data.List.Infix
import Mathlib.Data.Nat.Notation

/-!
Replacing a pattern in a list, from left to right and without overlaps. The places where
a list is cut matter only if the cut goes through an occurrence; for a pattern that no
proper part of it both begins and ends, that can happen in one way only.
-/
namespace KmControl.Replace

variable {α : Type}

/-- Drop `skip` elements of an occurrence that has been replaced, then go on. -/
def replaceFrom [DecidableEq α] (pat new : List α) : (skip : ℕ) → List α → List α
  | _, [] => []
  | skip + 1, _ :: l => replaceFrom pat new skip l
  | 0, x :: l =>
    if pat <+: x :: l then new ++ replaceFrom pat new (pat.length - 1) l
    else x :: replaceFrom pat new 0 l

def replaceAll [DecidableEq α] (pat new l : List α) : List α := replaceFrom pat new 0 l

/-- An occurrence lies across the cut between `a` and `b`: `s` on the left of it and `t`
on the right. -/
structure Straddles (pat a b s t : List α) : Prop where
  left : s ≠ []
  right : t ≠ []
  split : pat = s ++ t
  suffix : s <:+ a
  follows : t <+: b

/-- No proper part of the pattern is at both ends of it. -/
def Unbordered (pat : List α) : Prop := ∀ s, s ≠ [] → s ≠ pat → s <+: pat → ¬ s <:+ pat

variable {pat new : List α}

/-- A pattern whose first element does not come again in it. -/
theorem unbordered_of_head {x : α} {rest : List α} (h : x ∉ rest) : Unbordered (x :: rest) := by
  intro s hs hne hpre hsuf
  obtain ⟨y, s, rfl⟩ := List.exists_cons_of_ne_nil hs
  obtain rfl : y = x := (List.cons_prefix_cons.mp hpre).1
  rcases List.suffix_cons_iff.mp hsuf with heq | hrest
  · exact hne heq
  · exact h (hrest.subset List.mem_cons_self)

section Rules

variable [DecidableEq α]

@[simp] theorem replaceAll_nil : replaceAll pat new [] = [] := rfl

theorem replaceFrom_eq_drop (skip : ℕ) (l : List α) :
    replaceFrom pat new skip l = replaceAll pat new (l.drop skip) := by
  induction skip generalizing l with
  | zero => rfl
  | succ skip ih =>
    cases l with
    | nil => rfl
    | cons x l => exact ih l

theorem replaceAll_cons {x : α} {l : List α} (h : ¬ pat <+: x :: l) :
    replaceAll pat new (x :: l) = x :: replaceAll pat new l := by
  unfold replaceAll
  rw [replaceFrom, if_neg h]

theorem mem_replaceFrom {x : α} {skip : ℕ} {l : List α} (h : x ∈ replaceFrom pat new skip l) :
    x ∈ new ∨ x ∈ l := by
  induction l generalizing skip with
  | nil =>
    cases skip <;> exact absurd h List.not_mem_nil
  | cons y l ih =>
    cases skip with
    | zero =>
      unfold replaceFrom at h
      split at h
      · rcases List.mem_append.mp h with hnew | hrest
        · exact Or.inl hnew
        · exact (ih hrest).imp_right (List.mem_cons_of_mem y)
      · rcases List.mem_cons.mp h with rfl | hrest
        · exact Or.inr List.mem_cons_self
        · exact (ih hrest).imp_right (List.mem_cons_of_mem y)
    | succ skip => exact (ih h).imp_right (List.mem_cons_of_mem y)

/-- Nothing comes in but what the pattern is replaced by. -/
theorem mem_replaceAll {x : α} {l : List α} (h : x ∈ replaceAll pat new l) : x ∈ new ∨ x ∈ l :=
  mem_replaceFrom h

theorem replaceAll_pat_append (hpat : pat ≠ []) (l : List α) :
    replaceAll pat new (pat ++ l) = new ++ replaceAll pat new l := by
  obtain ⟨x, rest, rfl⟩ := List.exists_cons_of_ne_nil hpat
  unfold replaceAll
  rw [List.cons_append, replaceFrom, if_pos ⟨l, rfl⟩, replaceFrom_eq_drop]
  simp [replaceAll]

theorem replaceAll_of_free {l : List α} (h : ¬ pat <:+: l) : replaceAll pat new l = l := by
  induction l with
  | nil => rfl
  | cons x l ih =>
    rw [replaceAll_cons fun hpre => h hpre.isInfix,
      ih fun hinside => h (hinside.trans (List.infix_cons (List.infix_refl _)))]

/-- A cut that goes through no occurrence can be made before or after replacing. -/
theorem replaceAll_append (hpat : pat ≠ []) {a b : List α} (h : ∀ s t, ¬ Straddles pat a b s t) :
    replaceAll pat new (a ++ b) = replaceAll pat new a ++ replaceAll pat new b := by
  induction hn : a.length using Nat.strong_induction_on generalizing a with
  | _ n ih =>
    cases a with
    | nil => rfl
    | cons x a =>
      by_cases hpre : pat <+: x :: a
      · obtain ⟨rest, hrest⟩ := hpre
        have hlen : rest.length < n := by
          have := congrArg List.length hrest
          have := List.length_pos_iff.mpr hpat
          rw [List.length_append] at *
          omega
        have hkeep : ∀ s t, ¬ Straddles pat rest b s t := fun s t hs =>
          h s t ⟨hs.left, hs.right, hs.split,
            hs.suffix.trans (hrest ▸ List.suffix_append pat rest), hs.follows⟩
        rw [← hrest, List.append_assoc, replaceAll_pat_append hpat, replaceAll_pat_append hpat,
          ih _ hlen hkeep rfl, List.append_assoc]
      · have hover : ¬ pat <+: x :: (a ++ b) := by
          intro hover
          rw [← List.cons_append] at hover
          rcases List.prefix_or_prefix_of_prefix hover (List.prefix_append _ _) with hin | ⟨t, ht⟩
          · exact hpre hin
          · have hright : t ≠ [] := by
              rintro rfl
              exact hpre ⟨[], by rw [← ht, List.append_nil, List.append_nil]⟩
            rw [← ht, List.prefix_append_right_inj] at hover
            exact h (x :: a) t ⟨List.cons_ne_nil x a, hright, ht.symm, List.suffix_refl _, hover⟩
        have hkeep : ∀ s t, ¬ Straddles pat a b s t := fun s t hs =>
          h s t ⟨hs.left, hs.right, hs.split, hs.suffix.trans (List.suffix_cons x a), hs.follows⟩
        rw [List.cons_append, replaceAll_cons hover, replaceAll_cons hpre,
          ih a.length (by rw [← hn]; exact Nat.lt_succ_self _) hkeep rfl, List.cons_append]

/-- What a cut through an occurrence leaves on the left is not replaced. -/
theorem replaceAll_append_part (hpat : Unbordered pat) (a : List α) {s t : List α} (ht : t ≠ [])
    (hsplit : pat = s ++ t) : replaceAll pat new (a ++ s) = replaceAll pat new a ++ s := by
  have hlen : s.length < pat.length := by
    have := List.length_pos_iff.mpr ht
    rw [hsplit, List.length_append]
    omega
  have hne : pat ≠ [] := List.ne_nil_of_length_pos (Nat.zero_lt_of_lt hlen)
  have hpart : replaceAll pat new s = s := replaceAll_of_free fun hinside =>
    Nat.not_lt.mpr hinside.length_le hlen
  have hcut : ∀ s' t', ¬ Straddles pat a s s' t' := by
    intro s' t' hs
    have hshort : t' ≠ pat := by
      intro heq
      have hfollow := hs.follows.length_le
      rw [heq] at hfollow
      omega
    exact hpat t' hs.right hshort (hs.follows.trans ⟨t, hsplit.symm⟩) ⟨s', hs.split.symm⟩
  rw [replaceAll_append hne hcut, hpart]

/-- An occurrence is replaced, whatever stands before it. -/
theorem replaceAll_append_pat (hpat : Unbordered pat) (hne : pat ≠ []) (a b : List α) :
    replaceAll pat new (a ++ (pat ++ b)) =
      replaceAll pat new a ++ (new ++ replaceAll pat new b) := by
  have hcut : ∀ s t, ¬ Straddles pat a (pat ++ b) s t := by
    intro s t hs
    have hlen : t.length < pat.length := by
      have hsplit := congrArg List.length hs.split
      have := List.length_pos_iff.mpr hs.left
      rw [List.length_append] at hsplit
      omega
    have hpre : t <+: pat :=
      List.prefix_of_prefix_length_le hs.follows (List.prefix_append _ _) hlen.le
    exact hpat t hs.right (fun heq => by rw [heq] at hlen; exact hlen.false) hpre
      ⟨s, hs.split.symm⟩
  rw [replaceAll_append hne hcut, replaceAll_pat_append hne]

end Rules

section Free

variable {a b : List α}

theorem not_straddles_of_last {x : α} (hlast : a.getLast? = some x) (hx : x ∉ pat) (s t : List α) :
    ¬ Straddles pat a b s t := by
  intro h
  obtain ⟨pre, rfl⟩ := h.suffix
  rw [List.getLast?_append_of_ne_nil _ h.left] at hlast
  exact hx (h.split ▸ List.mem_append_left _ (List.mem_of_getLast? hlast))

theorem not_straddles_of_first {x : α} (hx : x ∉ pat) (s t : List α) :
    ¬ Straddles pat a (x :: b) s t := by
  intro h
  obtain ⟨y, t, rfl⟩ := List.exists_cons_of_ne_nil h.right
  obtain rfl := (List.cons_prefix_cons.mp h.follows).1
  exact hx (h.split ▸ List.mem_append_right _ List.mem_cons_self)

theorem free_append (ha : ¬ pat <:+: a) (hb : ¬ pat <:+: b) (hcut : ∀ s t, ¬ Straddles pat a b s t) :
    ¬ pat <:+: a ++ b := fun h => by
  rcases List.infix_append_iff_ne_nil.mp h with hin | hin | ⟨s, t, hs, ht, hsplit, hsuf, hpre⟩
  · exact ha hin
  · exact hb hin
  · exact hcut s t ⟨hs, ht, hsplit, hsuf, hpre⟩

theorem free_of_not_mem {x : α} {l : List α} (hx : x ∈ pat) (h : x ∉ l) : ¬ pat <:+: l :=
  fun hinside => h (hinside.subset hx)

end Free

end KmControl.Replace
