import KmControl.Machine
import Mathlib.Logic.Function.Basic

/-!
Calls on shared memory. The memory has registers, which are loaded and stored one at
a time, and data behind a lock. A call is given by what it does next; it runs either
alone, as if it were one step, or step by step between the steps of other calls.
-/
namespace KmControl.Atomics

/-- What a call on registers `R` and locked data `D` does until it returns. -/
inductive Prog (R D α : Type) where
  | ret (a : α)
  | load (r : R) (next : ℕ → Prog R D α)
  | store (r : R) (v : ℕ) (next : Prog R D α)
  | clock (next : ℕ → Prog R D α)
  | lock (next : D → Prog R D α)
  | unlock (d : D) (next : Prog R D α)

namespace Prog

variable {R D α β : Type}

def bind : Prog R D α → (α → Prog R D β) → Prog R D β
  | ret a, f => f a
  | load r next, f => load r fun v => (next v).bind f
  | store r v next, f => store r v (next.bind f)
  | clock next, f => clock fun now => (next now).bind f
  | lock next, f => lock fun d => (next d).bind f
  | unlock d next, f => unlock d (next.bind f)

instance : Monad (Prog R D) where
  pure := ret
  bind := bind

/-- The call has returned. -/
def Returned : Prog R D α → Prop
  | ret _ => True
  | _ => False

instance (p : Prog R D α) : Decidable p.Returned := by
  cases p <;> unfold Returned <;> infer_instance

/-- The next step waits for the lock. -/
def Waiting : Prog R D α → Prop
  | lock _ => True
  | _ => False

instance (p : Prog R D α) : Decidable p.Waiting := by
  cases p <;> unfold Waiting <;> infer_instance

/-- The register that the next step stores. -/
def storing : Prog R D α → Option R
  | store r _ _ => some r
  | _ => none

@[simp] theorem returned_pure (a : α) : (pure a : Prog R D α).Returned := trivial

/-- A call that has returned and is followed by one that has. -/
theorem Returned.bind {p : Prog R D α} (h : p.Returned) {f : α → Prog R D β}
    (hf : ∀ a, (f a).Returned) : (p >>= f).Returned := by
  cases p with
  | ret a => exact hf a
  | load | store | clock | lock | unlock => exact h.elim

end Prog

section Actions

variable {R D : Type}

def load (r : R) : Prog R D ℕ := .load r .ret

def store (r : R) (v : ℕ) : Prog R D Unit := .store r v (.ret ())

def clock : Prog R D ℕ := .clock .ret

def lock : Prog R D D := .lock .ret

def unlock (d : D) : Prog R D Unit := .unlock d (.ret ())

end Actions

structure Memory (R D : Type) where
  regs : R → ℕ
  data : D

variable {R D α : Type} [DecidableEq R]

def Memory.store (m : Memory R D) (r : R) (v : ℕ) : Memory R D :=
  { m with regs := Function.update m.regs r v }

/-- The call without interruption, all at one time. -/
def exec (now : ℕ) : Prog R D α → Memory R D → α × Memory R D
  | .ret a, m => (a, m)
  | .load r next, m => exec now (next (m.regs r)) m
  | .store r v next, m => exec now next (m.store r v)
  | .clock next, m => exec now (next now) m
  | .lock next, m => exec now (next m.data) m
  | .unlock d next, m => exec now next { m with data := d }

section Exec

variable {β : Type} (now : ℕ) (m : Memory R D)

@[simp] theorem exec_pure (a : α) : exec now (pure a : Prog R D α) m = (a, m) := rfl

@[simp] theorem exec_load (r : R) (f : ℕ → Prog R D β) :
    exec now (load r >>= f) m = exec now (f (m.regs r)) m := rfl

@[simp] theorem exec_store (r : R) (v : ℕ) (f : Unit → Prog R D β) :
    exec now (store r v >>= f) m = exec now (f ()) (m.store r v) := rfl

@[simp] theorem exec_clock (f : ℕ → Prog R D β) :
    exec now (clock >>= f) m = exec now (f now) m := rfl

@[simp] theorem exec_lock (f : D → Prog R D β) :
    exec now (lock >>= f) m = exec now (f m.data) m := rfl

@[simp] theorem exec_unlock (d : D) :
    exec now (unlock d : Prog R D Unit) m = ((), { m with data := d }) := rfl

@[simp] theorem exec_unlock_bind (d : D) (f : Unit → Prog R D β) :
    exec now (unlock d >>= f) m = exec now (f ()) { m with data := d } := rfl

/-- The value that a call returns may be thrown away. -/
theorem exec_bind_unit (p : Prog R D β) :
    (exec now (p >>= fun _ => pure () : Prog R D Unit) m).2 = (exec now p m).2 := by
  induction p generalizing m with
  | ret b => rfl
  | load r next ih => exact ih (m.regs r) m
  | store r v next ih => exact ih (m.store r v)
  | clock next ih => exact ih now m
  | lock next ih => exact ih m.data m
  | unlock d next ih => exact ih { m with data := d }

end Exec

/-- Inside the lock: every store keeps `I` as long as nobody else stores anything, and
the lock is given back in the end. -/
def Critical (I : (R → ℕ) → Prop) (regs : R → ℕ) : Prog R D α → Prop
  | .ret _ => False
  | .load r next => Critical I regs (next (regs r))
  | .store r v next => I (Function.update regs r v) ∧ Critical I (Function.update regs r v) next
  | .clock next => ∀ now, Critical I regs (next now)
  | .lock _ => False
  | .unlock _ next => next.Returned

/-- Outside the lock: nothing is stored. The registers may have any possible values when
they are read; what has been read last of each is carried along, and `Inside` must hold
once the lock is taken. -/
def Entering (Possible : R → ℕ → Prop) (Inside : (R → ℕ) → Prog R D α → Prop) :
    (reads : R → ℕ) → Prog R D α → Prop
  | _, .ret _ => True
  | reads, .load r next =>
    ∀ v, Possible r v → Entering Possible Inside (Function.update reads r v) (next v)
  | _, .store _ _ _ => False
  | reads, .clock next => ∀ now, Entering Possible Inside reads (next now)
  | reads, .lock next => ∀ d, Inside reads (next d)
  | _, .unlock _ _ => False

/-- Inside the lock, while others may store: whatever is read, every store is allowed by
what has been read, and the lock is given back in the end. -/
def Exposed (Possible : R → ℕ → Prop) (Allowed : (R → ℕ) → R → ℕ → Prop) :
    (reads : R → ℕ) → Prog R D α → Prop
  | _, .ret _ => False
  | reads, .load r next =>
    ∀ v, Possible r v → Exposed Possible Allowed (Function.update reads r v) (next v)
  | reads, .store r v next => Allowed reads r v ∧ Exposed Possible Allowed reads next
  | reads, .clock next => ∀ now, Exposed Possible Allowed reads (next now)
  | _, .lock _ => False
  | _, .unlock _ next => next.Returned

/-- Inside the lock, alone: every store keeps `I`, and `J` holds when the lock is given
back. -/
def Finishing (I J : (R → ℕ) → Prop) (regs : R → ℕ) : Prog R D α → Prop
  | .ret _ => False
  | .load r next => Finishing I J regs (next (regs r))
  | .store r v next =>
    I (Function.update regs r v) ∧ Finishing I J (Function.update regs r v) next
  | .clock next => ∀ now, Finishing I J regs (next now)
  | .lock _ => False
  | .unlock _ next => J regs ∧ next.Returned

theorem entering_of_returned {Possible : R → ℕ → Prop} {Inside : (R → ℕ) → Prog R D α → Prop}
    {p : Prog R D α} (h : p.Returned) (reads : R → ℕ) : Entering Possible Inside reads p := by
  cases p with
  | ret => trivial
  | load | store | clock | lock | unlock => exact h.elim

section Returned

variable {I J : (R → ℕ) → Prop} {regs reads : R → ℕ} {Possible : R → ℕ → Prop}
  {Allowed : (R → ℕ) → R → ℕ → Prop} {p : Prog R D α}

/-- Nobody returns from inside the lock. -/
theorem Critical.not_returned (h : Critical I regs p) : ¬ p.Returned := by
  cases p with
  | ret => exact h.elim
  | load | store | clock | lock | unlock => exact id

theorem Exposed.not_returned (h : Exposed Possible Allowed reads p) : ¬ p.Returned := by
  cases p with
  | ret => exact h.elim
  | load | store | clock | lock | unlock => exact id

theorem Finishing.not_returned (h : Finishing I J regs p) : ¬ p.Returned := by
  cases p with
  | ret => exact h.elim
  | load | store | clock | lock | unlock => exact id

end Returned

section Rules

variable {β : Type} {I : (R → ℕ) → Prop} {regs reads : R → ℕ} {Possible : R → ℕ → Prop}
  {Inside : (R → ℕ) → Prog R D β → Prop} {Allowed : (R → ℕ) → R → ℕ → Prop}

@[simp] theorem critical_load (r : R) (f : ℕ → Prog R D β) :
    Critical I regs (load r >>= f) ↔ Critical I regs (f (regs r)) := Iff.rfl

@[simp] theorem critical_store (r : R) (v : ℕ) (f : Unit → Prog R D β) :
    Critical I regs (store r v >>= f) ↔
      I (Function.update regs r v) ∧ Critical I (Function.update regs r v) (f ()) := Iff.rfl

@[simp] theorem critical_clock (f : ℕ → Prog R D β) :
    Critical I regs (clock >>= f) ↔ ∀ now, Critical I regs (f now) := Iff.rfl

@[simp] theorem critical_unlock (d : D) : Critical I regs (unlock d : Prog R D Unit) := trivial

@[simp] theorem critical_unlock_bind (d : D) (f : Unit → Prog R D β) :
    Critical I regs (unlock d >>= f) ↔ (f ()).Returned := Iff.rfl

@[simp] theorem exposed_load (r : R) (f : ℕ → Prog R D β) :
    Exposed Possible Allowed reads (load r >>= f) ↔
      ∀ v, Possible r v → Exposed Possible Allowed (Function.update reads r v) (f v) := Iff.rfl

@[simp] theorem exposed_store (r : R) (v : ℕ) (f : Unit → Prog R D β) :
    Exposed Possible Allowed reads (store r v >>= f) ↔
      Allowed reads r v ∧ Exposed Possible Allowed reads (f ()) := Iff.rfl

@[simp] theorem exposed_clock (f : ℕ → Prog R D β) :
    Exposed Possible Allowed reads (clock >>= f) ↔
      ∀ now, Exposed Possible Allowed reads (f now) := Iff.rfl

@[simp] theorem exposed_unlock (d : D) :
    Exposed Possible Allowed reads (unlock d : Prog R D Unit) := trivial

@[simp] theorem exposed_unlock_bind (d : D) (f : Unit → Prog R D β) :
    Exposed Possible Allowed reads (unlock d >>= f) ↔ (f ()).Returned := Iff.rfl

@[simp] theorem entering_pure (b : β) :
    Entering Possible Inside reads (pure b : Prog R D β) := trivial

@[simp] theorem entering_load (r : R) (f : ℕ → Prog R D β) :
    Entering Possible Inside reads (load r >>= f) ↔
      ∀ v, Possible r v → Entering Possible Inside (Function.update reads r v) (f v) := Iff.rfl

@[simp] theorem entering_clock (f : ℕ → Prog R D β) :
    Entering Possible Inside reads (clock >>= f) ↔
      ∀ now, Entering Possible Inside reads (f now) := Iff.rfl

@[simp] theorem entering_lock (f : D → Prog R D β) :
    Entering Possible Inside reads (lock >>= f) ↔ ∀ d, Inside reads (f d) := Iff.rfl

theorem Critical.bind {γ : Type} {p : Prog R D β} (h : Critical I regs p) {f : β → Prog R D γ}
    (hf : ∀ b, (f b).Returned) : Critical I regs (p >>= f) := by
  induction p generalizing regs with
  | ret | lock => exact h.elim
  | load r next ih => exact ih _ h
  | store r v next ih => exact ⟨h.1, ih h.2⟩
  | clock next ih => exact fun now => ih now (h now)
  | unlock d next => exact Prog.Returned.bind h hf

theorem Exposed.bind {γ : Type} {p : Prog R D β} (h : Exposed Possible Allowed reads p)
    {f : β → Prog R D γ} (hf : ∀ b, (f b).Returned) :
    Exposed Possible Allowed reads (p >>= f) := by
  induction p generalizing reads with
  | ret | lock => exact h.elim
  | load r next ih => exact fun v hv => ih v (h v hv)
  | store r v next ih => exact ⟨h.1, ih h.2⟩
  | clock next ih => exact fun now => ih now (h now)
  | unlock d next => exact Prog.Returned.bind h hf

theorem Entering.bind {γ : Type} {Inside' : (R → ℕ) → Prog R D γ → Prop} {p : Prog R D β}
    (h : Entering Possible Inside reads p) {f : β → Prog R D γ} (hf : ∀ b, (f b).Returned)
    (hinside : ∀ reads q, Inside reads q → Inside' reads (q >>= f)) :
    Entering Possible Inside' reads (p >>= f) := by
  induction p generalizing reads with
  | ret b =>
    change Entering Possible Inside' reads (f b)
    cases hb : f b with
    | ret => trivial
    | load | store | clock | lock | unlock =>
      have hreturned := hf b
      rw [hb] at hreturned
      exact hreturned.elim
  | store | unlock => exact h.elim
  | load r next ih => exact fun v hv => ih v (h v hv)
  | clock next ih => exact fun now => ih now (h now)
  | lock next => exact fun d => hinside _ _ (h d)

section Branches

variable {c : Prop} [Decidable c] {p q : Prog R D β}

theorem Critical.ite (hp : c → Critical I regs p) (hq : ¬ c → Critical I regs q) :
    Critical I regs (if c then p else q) := by
  split <;> rename_i hc
  · exact hp hc
  · exact hq hc

theorem Exposed.ite (hp : c → Exposed Possible Allowed reads p)
    (hq : ¬ c → Exposed Possible Allowed reads q) :
    Exposed Possible Allowed reads (if c then p else q) := by
  split <;> rename_i hc
  · exact hp hc
  · exact hq hc

theorem Entering.ite (hp : c → Entering Possible Inside reads p)
    (hq : ¬ c → Entering Possible Inside reads q) :
    Entering Possible Inside reads (if c then p else q) := by
  split <;> rename_i hc
  · exact hp hc
  · exact hq hc

end Branches

end Rules

variable {I : (R → ℕ) → Prop}

theorem exec_of_returned {p : Prog R D α} (h : p.Returned) (now : ℕ) (m : Memory R D) :
    (exec now p m).2 = m := by
  cases p with
  | ret => rfl
  | load | store | clock | lock | unlock => exact h.elim

/-- A critical section that runs to its end keeps the invariant. -/
theorem exec_of_critical {p : Prog R D α} {m : Memory R D} (hI : I m.regs)
    (h : Critical I m.regs p) (now : ℕ) : I (exec now p m).2.regs := by
  induction p generalizing m with
  | ret | lock => exact h.elim
  | load r next ih => exact ih (m.regs r) hI h
  | store r v next ih => exact ih (m := m.store r v) h.1 h.2
  | clock next ih => exact ih now hI (h now)
  | unlock d next =>
    change I (exec now next { m with data := d }).2.regs
    rw [exec_of_returned h]
    exact hI

/-- A call that is safe to interrupt keeps the invariant when it is not interrupted. -/
theorem exec_of_entering {Possible : R → ℕ → Prop} {Inside : (R → ℕ) → Prog R D α → Prop}
    {p : Prog R D α} {m : Memory R D} {reads : R → ℕ} (hI : I m.regs)
    (hpossible : ∀ r, Possible r (m.regs r))
    (hinside : ∀ reads q, Inside reads q → Critical I m.regs q)
    (h : Entering Possible Inside reads p) (now : ℕ) : I (exec now p m).2.regs := by
  induction p generalizing reads with
  | ret => exact hI
  | store | unlock => exact h.elim
  | load r next ih => exact ih (m.regs r) (h _ (hpossible r))
  | clock next ih => exact ih now (h now)
  | lock next => exact exec_of_critical hI (hinside reads _ (h m.data)) now

end KmControl.Atomics
