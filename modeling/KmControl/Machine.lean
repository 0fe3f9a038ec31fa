import Mathlib.Data.List.Induction
import Mathlib.Order.Basic

/-!
Deterministic machines driven by a list of inputs. A run is the fold of the
step function; facts about runs are proved by induction on the last input.
`Along` says that every step of a run meets a condition on the state before
it and its input; the conditional invariant rule is the one used wherever a
property holds only for runs that stay clear of a particular branch.
-/
namespace KmControl

structure Machine (σ ι : Type*) where
  init : σ
  step : σ → ι → σ

namespace Machine

variable {σ ι : Type*} (m : Machine σ ι)

def runFrom (s : σ) (ops : List ι) : σ := ops.foldl m.step s

def run (ops : List ι) : σ := m.runFrom m.init ops

/-- Every step of the run meets `C`, a condition on the state before it. -/
def Along (C : σ → ι → Prop) (ops : List ι) : Prop :=
  ∀ pre op, pre ++ [op] <+: ops → C (m.run pre) op

@[simp] theorem runFrom_nil (s : σ) : m.runFrom s [] = s := rfl

@[simp] theorem runFrom_cons (s : σ) (op : ι) (ops : List ι) :
    m.runFrom s (op :: ops) = m.runFrom (m.step s op) ops := rfl

@[simp] theorem run_nil : m.run [] = m.init := rfl

theorem runFrom_append (s : σ) (ops more : List ι) :
    m.runFrom s (ops ++ more) = m.runFrom (m.runFrom s ops) more :=
  List.foldl_append

theorem run_append (ops more : List ι) :
    m.run (ops ++ more) = m.runFrom (m.run ops) more :=
  m.runFrom_append m.init ops more

theorem run_concat (ops : List ι) (op : ι) :
    m.run (ops ++ [op]) = m.step (m.run ops) op := by
  rw [run_append]
  rfl

theorem runFrom_invariant {I : σ → Prop} (hstep : ∀ s op, I s → I (m.step s op))
    (s : σ) (hs : I s) (ops : List ι) : I (m.runFrom s ops) := by
  induction ops generalizing s with
  | nil => exact hs
  | cons op rest ih => exact ih (m.step s op) (hstep s op hs)

/-- What holds initially and is kept by every step holds after every run. -/
theorem run_invariant {I : σ → Prop} (h0 : I m.init)
    (hstep : ∀ s op, I s → I (m.step s op)) (ops : List ι) : I (m.run ops) :=
  m.runFrom_invariant hstep m.init h0 ops

/-- A property kept by every step passes from a run's prefix to the run. -/
theorem run_of_prefix {I : σ → Prop} (hstep : ∀ s op, I s → I (m.step s op))
    {pre ops : List ι} (hpre : pre <+: ops) (h : I (m.run pre)) : I (m.run ops) := by
  obtain ⟨rest, rfl⟩ := hpre
  rw [run_append]
  exact m.runFrom_invariant hstep _ h rest

variable {m}

/-- A condition on every step of a run with one more input. -/
theorem forall_step_concat {C : List ι → ι → Prop} {ops : List ι} {op : ι} :
    (∀ pre o, pre ++ [o] <+: ops ++ [op] → C pre o) ↔
      (∀ pre o, pre ++ [o] <+: ops → C pre o) ∧ C ops op := by
  constructor
  · intro h
    refine ⟨fun pre o hpre => h pre o (hpre.trans (List.prefix_append _ _)), ?_⟩
    exact h ops op (List.prefix_refl _)
  · rintro ⟨hops, hlast⟩ pre o hpre
    rcases List.prefix_concat_iff.mp hpre with heq | hshort
    · obtain ⟨rfl, h⟩ := List.append_inj' heq rfl
      cases List.cons.inj h |>.1
      exact hlast
    · exact hops pre o hshort

theorem forall_step_nil {C : List ι → ι → Prop} : ∀ pre o, pre ++ [o] <+: [] → C pre o :=
  fun pre o hpre => absurd (List.prefix_nil.mp hpre) (List.append_ne_nil_of_right_ne_nil pre
    (List.cons_ne_nil o []))

theorem along_concat {C : σ → ι → Prop} {ops : List ι} {op : ι} :
    m.Along C (ops ++ [op]) ↔ m.Along C ops ∧ C (m.run ops) op :=
  forall_step_concat

theorem Along.of_prefix {C : σ → ι → Prop} {pre ops : List ι}
    (h : m.Along C ops) (hpre : pre <+: ops) : m.Along C pre :=
  fun p o hp => h p o (hp.trans hpre)

variable (m) in
/-- The same condition for a run from any state, by recursion on the inputs. -/
def AlongFrom (C : σ → ι → Prop) : σ → List ι → Prop
  | _, [] => True
  | s, op :: ops => C s op ∧ AlongFrom C (m.step s op) ops

instance decidableAlongFrom {C : σ → ι → Prop} [∀ s op, Decidable (C s op)] :
    ∀ s ops, Decidable (m.AlongFrom C s ops)
  | _, [] => isTrue trivial
  | s, op :: ops =>
    have := decidableAlongFrom (C := C) (m.step s op) ops
    inferInstanceAs (Decidable (C s op ∧ m.AlongFrom C (m.step s op) ops))

theorem forall_of_alongFrom {C : σ → ι → Prop} {s : σ} {ops : List ι}
    (h : m.AlongFrom C s ops) : ∀ pre op, pre ++ [op] <+: ops → C (m.runFrom s pre) op := by
  induction ops generalizing s with
  | nil => exact forall_step_nil
  | cons first ops ih =>
    intro pre op hpre
    cases pre with
    | nil =>
      obtain rfl := (List.cons_prefix_cons.mp hpre).1
      exact h.1
    | cons o pre =>
      obtain ⟨rfl, hrest⟩ := List.cons_prefix_cons.mp hpre
      exact ih h.2 pre op hrest

theorem along_of_alongFrom {C : σ → ι → Prop} {ops : List ι} (h : m.AlongFrom C m.init ops) :
    m.Along C ops :=
  forall_of_alongFrom h

/-- The invariant rule for runs whose steps all meet `C`. -/
theorem run_invariant_along {I : σ → Prop} {C : σ → ι → Prop} (h0 : I m.init)
    (hstep : ∀ s op, I s → C s op → I (m.step s op)) (ops : List ι)
    (hC : m.Along C ops) : I (m.run ops) := by
  induction ops using List.reverseRecOn with
  | nil => exact h0
  | append_singleton ops op ih =>
    obtain ⟨hops, hlast⟩ := along_concat.mp hC
    rw [run_concat]
    exact hstep _ _ (ih hops) hlast

/-- A property that fails after a run and holds after more of it begins at some step. -/
theorem exists_step_between {Q : σ → Prop} {pre : List ι} (more : List ι)
    (hbefore : ¬ Q (m.run pre)) (hafter : Q (m.run (pre ++ more))) :
    ∃ mid op rest, more = mid ++ op :: rest ∧ ¬ Q (m.run (pre ++ mid)) ∧
      Q (m.step (m.run (pre ++ mid)) op) := by
  classical
  induction more using List.reverseRecOn with
  | nil =>
    rw [List.append_nil] at hafter
    exact absurd hafter hbefore
  | append_singleton more last ih =>
    by_cases hQ : Q (m.run (pre ++ more))
    · obtain ⟨mid, op, rest, rfl, hno, hyes⟩ := ih hQ
      exact ⟨mid, op, rest ++ [last], by simp, hno, hyes⟩
    · rw [← List.append_assoc, run_concat] at hafter
      exact ⟨more, last, [], rfl, hQ, hafter⟩

/-- A property that fails at the start and holds at the end begins at some step. -/
theorem exists_first_step {Q : σ → Prop} (ops : List ι) (h0 : ¬ Q m.init)
    (hend : Q (m.run ops)) :
    ∃ pre op, pre ++ [op] <+: ops ∧ ¬ Q (m.run pre) ∧ Q (m.run (pre ++ [op])) := by
  classical
  induction ops using List.reverseRecOn with
  | nil => exact absurd hend h0
  | append_singleton ops op ih =>
    by_cases hQ : Q (m.run ops)
    · obtain ⟨pre, o, hpre, hbefore, hafter⟩ := ih hQ
      exact ⟨pre, o, hpre.trans (List.prefix_append _ _), hbefore, hafter⟩
    · exact ⟨ops, op, List.prefix_refl _, hQ, hend⟩

section Logs

variable {ε : Type*} (m : Machine σ ι) (event : σ → ι → Option ε)

/-- The machine with the events of its steps beside the state, the latest first. -/
def logged : Machine (σ × List ε) ι where
  init := (m.init, [])
  step s op := (m.step s.1 op, (event s.1 op).toList ++ s.2)

/-- The events of a run, the latest first. -/
def log (ops : List ι) : List ε := ((m.logged event).run ops).2

theorem fst_run_logged (ops : List ι) : ((m.logged event).run ops).1 = m.run ops := by
  induction ops using List.reverseRecOn with
  | nil => rfl
  | append_singleton ops op ih =>
    rw [run_concat, run_concat, ← ih]
    rfl

/-- What every step keeps of a state and the events before it holds after every run. -/
theorem log_invariant {I : σ → List ε → Prop} (h0 : I m.init [])
    (hstep : ∀ s log op, I s log → I (m.step s op) ((event s op).toList ++ log)) (ops : List ι) :
    I (m.run ops) (m.log event ops) := by
  rw [← m.fst_run_logged event]
  exact (m.logged event).run_invariant (I := fun s => I s.1 s.2) h0
    (fun s op h => hstep s.1 s.2 op h) ops

end Logs

end Machine

end KmControl
