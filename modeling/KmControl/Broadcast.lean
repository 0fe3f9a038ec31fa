import Mathlib.Data.List.Induction
import Mathlib.Data.Nat.Notation

/-!
A broadcast channel that keeps so many of the values sent last. Each receiver goes on at a
position of its own; one that has fallen behind is told so once, and goes on with the oldest
value that is still kept. What a receiver meets is written down note by note.
-/
namespace KmControl.Broadcast

variable {α : Type*}

section Receivers

inductive Received (α : Type*) where
  | empty
  | value (a : α)
  | lagged

/-- The position of the oldest value that is still kept. -/
def oldest (capacity : ℕ) (sent : List α) : ℕ := sent.length - capacity

/-- What a receiver meets at its position, and where it goes on. -/
def recv (capacity : ℕ) (sent : List α) (next : ℕ) : Received α × ℕ :=
  if next < oldest capacity sent then (.lagged, oldest capacity sent)
  else match sent[next]? with
    | some a => (.value a, next + 1)
    | none => (.empty, next)

theorem recv_cases (capacity : ℕ) (sent : List α) (next : ℕ) :
    (next + capacity < sent.length ∧
      recv capacity sent next = (.lagged, sent.length - capacity)) ∨
    (∃ a, sent[next]? = some a ∧ recv capacity sent next = (.value a, next + 1)) ∨
    (sent.length ≤ next ∧ recv capacity sent next = (.empty, next)) := by
  unfold recv oldest
  split
  · exact Or.inl ⟨by omega, rfl⟩
  · cases h : sent[next]? with
    | some a => exact Or.inr (Or.inl ⟨a, rfl, rfl⟩)
    | none => exact Or.inr (Or.inr ⟨List.getElem?_eq_none_iff.mp h, rfl⟩)

end Receivers

section Notes

/-- What a receiver got or how many values had been sent when it was told of a lag. -/
inductive Note where
  | got (position : ℕ)
  | lagged (sent : ℕ)
deriving DecidableEq

variable {capacity start next : ℕ} {notes more : List Note}

/-- The notes of a receiver from one position to another, in their order. -/
inductive Follows (capacity start : ℕ) : List Note → ℕ → Prop
  | start : Follows capacity start [] start
  | got {notes : List Note} {next : ℕ} (h : Follows capacity start notes next) :
      Follows capacity start (notes ++ [.got next]) (next + 1)
  | lagged {notes : List Note} {next : ℕ} (sent : ℕ) (h : Follows capacity start notes next)
      (hbehind : next + capacity < sent) :
      Follows capacity start (notes ++ [.lagged sent]) (sent - capacity)

def Note.position : Note → Option ℕ
  | .got position => some position
  | .lagged _ => none

def positions (notes : List Note) : List ℕ := notes.filterMap Note.position

@[simp] theorem positions_append :
    positions (notes ++ more) = positions notes ++ positions more :=
  List.filterMap_append

@[simp] theorem positions_got (position : ℕ) : positions [.got position] = [position] := rfl

@[simp] theorem positions_lagged (sent : ℕ) : positions [.lagged sent] = [] := rfl

theorem Follows.le (h : Follows capacity start notes next) : start ≤ next := by
  induction h with
  | start => exact Nat.le_refl _
  | got _ ih => omega
  | lagged sent _ hbehind ih => omega

theorem Follows.lt_of_mem (h : Follows capacity start notes next) :
    ∀ position ∈ positions notes, start ≤ position ∧ position < next := by
  induction h with
  | start => exact fun _ hmem => absurd hmem List.not_mem_nil
  | @got notes next h ih =>
    intro position hmem
    rw [positions_append, positions_got] at hmem
    rcases List.mem_append.mp hmem with hmem | hmem
    · have := ih position hmem
      omega
    · obtain rfl := List.mem_singleton.mp hmem
      exact ⟨h.le, Nat.lt_succ_self _⟩
  | lagged sent h hbehind ih =>
    intro position hmem
    rw [positions_append, positions_lagged, List.append_nil] at hmem
    have := ih position hmem
    omega

/-- Nothing is got twice, and all in the order in which it was sent. -/
theorem Follows.ascending (h : Follows capacity start notes next) :
    (positions notes).Pairwise (· < ·) := by
  induction h with
  | start => exact List.Pairwise.nil
  | @got notes next h ih =>
    rw [positions_append, positions_got, List.pairwise_append]
    refine ⟨ih, List.pairwise_singleton _ _, fun position hmem last hlast => ?_⟩
    obtain rfl := List.mem_singleton.mp hlast
    exact (h.lt_of_mem position hmem).2
  | lagged sent h hbehind ih =>
    rw [positions_append, positions_lagged, List.append_nil]
    exact ih

theorem Follows.eq_of_nil (h : Follows capacity start [] next) : next = start := by
  generalize hall : ([] : List Note) = all at h
  cases h with
  | start => rfl
  | got h => exact absurd hall.symm (List.append_ne_nil_of_right_ne_nil _ (List.cons_ne_nil _ _))
  | lagged sent h hbehind =>
    exact absurd hall.symm (List.append_ne_nil_of_right_ne_nil _ (List.cons_ne_nil _ _))

theorem Follows.append_cases {note : Note} (h : Follows capacity start (notes ++ [note]) next) :
    ∃ before, Follows capacity start notes before ∧
      ((note = .got before ∧ next = before + 1) ∨
        ∃ sent, note = .lagged sent ∧ before + capacity < sent ∧ next = sent - capacity) := by
  generalize hall : notes ++ [note] = all at h
  cases h with
  | start => exact absurd hall (List.append_ne_nil_of_right_ne_nil _ (List.cons_ne_nil _ _))
  | @got notes' before h =>
    obtain ⟨rfl, hnote⟩ := List.append_inj' hall rfl
    exact ⟨before, h, Or.inl ⟨List.cons.inj hnote |>.1, rfl⟩⟩
  | @lagged notes' before sent h hbehind =>
    obtain ⟨rfl, hnote⟩ := List.append_inj' hall rfl
    exact ⟨before, h, Or.inr ⟨sent, List.cons.inj hnote |>.1, hbehind, rfl⟩⟩

/-- The notes up to some point have led to a position. -/
theorem Follows.split (h : Follows capacity start (notes ++ more) next) :
    ∃ middle, Follows capacity start notes middle ∧ Follows capacity middle more next := by
  induction more using List.reverseRecOn generalizing next with
  | nil =>
    rw [List.append_nil] at h
    exact ⟨next, h, .start⟩
  | append_singleton more note ih =>
    rw [← List.append_assoc] at h
    obtain ⟨before, hbefore, ⟨rfl, rfl⟩ | ⟨sent, rfl, hbehind, rfl⟩⟩ := h.append_cases
    · obtain ⟨middle, hfirst, hsecond⟩ := ih hbefore
      exact ⟨middle, hfirst, hsecond.got⟩
    · obtain ⟨middle, hfirst, hsecond⟩ := ih hbefore
      exact ⟨middle, hfirst, hsecond.lagged sent hbehind⟩

/-- Notes of lags only end at the oldest value that was kept at the last of them. -/
theorem Follows.of_no_got (h : Follows capacity start notes next) (hnone : positions notes = []) :
    (notes = [] ∧ next = start) ∨
      ∃ before sent, notes = before ++ [.lagged sent] ∧ next + capacity = sent ∧ start < next := by
  cases h with
  | start => exact Or.inl ⟨rfl, rfl⟩
  | got h =>
    rw [positions_append, positions_got] at hnone
    exact absurd hnone (List.append_ne_nil_of_right_ne_nil _ (List.cons_ne_nil _ _))
  | @lagged before next sent h hbehind =>
    have := h.le
    exact Or.inr ⟨before, sent, rfl, by omega, by omega⟩

/-- Between two values that a receiver gets one after the other nothing is missing, or the
second is the oldest one that was kept when it was told of a lag. -/
theorem Follows.next_got {p q : ℕ} {before between after : List Note}
    (h : Follows capacity start (before ++ .got p :: (between ++ .got q :: after)) next)
    (hnone : positions between = []) :
    (between = [] ∧ q = p + 1) ∨
      ∃ lags, between = lags ++ [.lagged (q + capacity)] ∧ p + 1 < q := by
  have hsplit : before ++ .got p :: (between ++ .got q :: after) =
      ((before ++ [.got p]) ++ between) ++ ([.got q] ++ after) := by simp
  rw [hsplit] at h
  obtain ⟨atQ, hq, hrest⟩ := h.split
  obtain ⟨afterP, hp, hbetween⟩ := hq.split
  obtain ⟨atP, -, ⟨hposition, rfl⟩ | ⟨sent, hlag, -⟩⟩ := hp.append_cases
  · obtain rfl := Note.got.inj hposition
    obtain ⟨afterQ, hgot, -⟩ := hrest.split
    have hfirst : Follows capacity _ ([] ++ [.got q]) _ := hgot
    obtain ⟨atQ', hsame, ⟨hposition', -⟩ | ⟨sent, hlag, -⟩⟩ := hfirst.append_cases
    · obtain rfl := Note.got.inj hposition'
      obtain rfl := hsame.eq_of_nil
      rcases hbetween.of_no_got hnone with ⟨rfl, rfl⟩ | ⟨lags, sent, rfl, hsent, hlt⟩
      · exact Or.inl ⟨rfl, rfl⟩
      · exact Or.inr ⟨lags, by rw [hsent], hlt⟩
    · cases hlag
  · cases hlag

/-- After a lag, what was sent before it still comes first. -/
theorem Follows.after_lag {sent : ℕ} {before after : List Note}
    (h : Follows capacity start (before ++ .lagged sent :: after) next)
    (hlags : ∀ note ∈ after, ∃ position, note = .got position) :
    positions after = (List.range after.length).map (sent - capacity + ·) := by
  have hsplit : before ++ .lagged sent :: after = (before ++ [.lagged sent]) ++ after := by simp
  rw [hsplit] at h
  obtain ⟨middle, hlag, hrest⟩ := h.split
  obtain ⟨_, -, ⟨hgot, -⟩ | ⟨sent', hsent, -, rfl⟩⟩ := hlag.append_cases
  · cases hgot
  · obtain rfl := Note.lagged.inj hsent
    have hcount : ∀ {rest : List Note} {stop : ℕ}, Follows capacity (sent - capacity) rest stop →
        (∀ note ∈ rest, ∃ position, note = .got position) →
        stop = sent - capacity + rest.length ∧
          positions rest = (List.range rest.length).map (sent - capacity + ·) := by
      intro rest stop hfollows
      induction hfollows with
      | start => exact fun _ => ⟨rfl, rfl⟩
      | @got notes stop hnotes ih =>
        intro hall
        obtain ⟨hstop, hpositions⟩ := ih fun note hmem => hall note (List.mem_append_left _ hmem)
        rw [positions_append, positions_got, hpositions, hstop, List.length_append,
          List.length_singleton, List.range_succ, List.map_append]
        exact ⟨by omega, rfl⟩
      | lagged other _ _ _ =>
        intro hall
        obtain ⟨position, hposition⟩ := hall _ (List.mem_append_right _ (List.mem_singleton_self _))
        cases hposition
    exact (hcount hrest hlags).2

end Notes

end KmControl.Broadcast
