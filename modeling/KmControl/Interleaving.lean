import KmControl.Atomics

/-!
Calls of several tasks on one shared memory, interleaved step by step. A step that
needs the lock while another task has it does nothing.
-/
namespace KmControl.Interleaving

open Atomics

variable {T R D : Type}

/-- What a task still has to do, and what it has read last of each register. -/
structure Task (R D : Type) where
  prog : Prog R D Unit
  reads : R → ℕ

structure World (T R D : Type) where
  mem : Memory R D
  holder : Option T
  task : T → Task R D

variable [DecidableEq T] [DecidableEq R]

namespace World

def setTask (w : World T R D) (t : T) (x : Task R D) : World T R D :=
  { w with task := Function.update w.task t x }

/-- A task that is idle makes a call. -/
def start (w : World T R D) (t : T) (p : Prog R D Unit) : World T R D :=
  if (w.task t).prog.Returned then w.setTask t ⟨p, fun _ => 0⟩ else w

/-- The next step of a task, at some time. -/
def step (w : World T R D) (t : T) (now : ℕ) : World T R D :=
  let reads := (w.task t).reads
  match (w.task t).prog with
  | .ret _ => w
  | .load r next =>
    w.setTask t ⟨next (w.mem.regs r), Function.update reads r (w.mem.regs r)⟩
  | .store r v next => { w with mem := w.mem.store r v }.setTask t ⟨next, reads⟩
  | .clock next => w.setTask t ⟨next now, reads⟩
  | .lock next =>
    if w.holder = none then { w with holder := some t }.setTask t ⟨next w.mem.data, reads⟩ else w
  | .unlock d next =>
    { w with mem := { w.mem with data := d }, holder := none }.setTask t ⟨next, reads⟩

variable (w : World T R D) (t : T) (x : Task R D)

section SetTask

omit [DecidableEq R]

@[simp] theorem setTask_mem : (w.setTask t x).mem = w.mem := rfl

@[simp] theorem setTask_holder : (w.setTask t x).holder = w.holder := rfl

@[simp] theorem setTask_task_self : (w.setTask t x).task t = x := Function.update_self _ _ _

theorem setTask_task_of_ne {u : T} (h : u ≠ t) : (w.setTask t x).task u = w.task u :=
  Function.update_of_ne h _ _

theorem start_task_of_ne {u : T} (h : u ≠ t) (p : Prog R D Unit) :
    (w.start t p).task u = w.task u := by
  unfold start
  split
  · exact setTask_task_of_ne _ _ _ h
  · rfl

end SetTask

/-- A step moves no other task. -/
theorem step_task_of_ne {u : T} (h : u ≠ t) (now : ℕ) : (w.step t now).task u = w.task u := by
  unfold step
  split
  · rfl
  · exact setTask_task_of_ne _ _ _ h
  · exact setTask_task_of_ne _ _ _ h
  · exact setTask_task_of_ne _ _ _ h
  · split
    · exact setTask_task_of_ne _ _ _ h
    · rfl
  · exact setTask_task_of_ne _ _ _ h

section Steps

variable {w t} {r : R} {v : ℕ} {d : D} {next : Prog R D Unit} {nextOf : ℕ → Prog R D Unit}
  {nextIn : D → Prog R D Unit}

theorem step_of_returned (h : (w.task t).prog.Returned) (now : ℕ) : w.step t now = w := by
  unfold step
  cases hprog : (w.task t).prog with
  | ret => rfl
  | load | store | clock | lock | unlock =>
    rw [hprog] at h
    exact h.elim

theorem step_of_load (h : (w.task t).prog = .load r nextOf) (now : ℕ) : w.step t now =
    w.setTask t ⟨nextOf (w.mem.regs r),
      Function.update (w.task t).reads r (w.mem.regs r)⟩ := by
  unfold step
  rw [h]

theorem step_of_store (h : (w.task t).prog = .store r v next) (now : ℕ) : w.step t now =
    { w with mem := w.mem.store r v }.setTask t ⟨next, (w.task t).reads⟩ := by
  unfold step
  rw [h]

theorem step_of_clock (h : (w.task t).prog = .clock nextOf) (now : ℕ) :
    w.step t now = w.setTask t ⟨nextOf now, (w.task t).reads⟩ := by
  unfold step
  rw [h]

theorem step_of_lock (h : (w.task t).prog = .lock nextIn) (hfree : w.holder = none) (now : ℕ) :
    w.step t now =
      { w with holder := some t }.setTask t ⟨nextIn w.mem.data, (w.task t).reads⟩ := by
  unfold step
  rw [h]
  exact if_pos hfree

theorem step_of_locked (h : (w.task t).prog = .lock nextIn) (hheld : w.holder ≠ none) (now : ℕ) :
    w.step t now = w := by
  unfold step
  rw [h]
  exact if_neg hheld

theorem step_of_unlock (h : (w.task t).prog = .unlock d next) (now : ℕ) : w.step t now =
    { w with mem := { w.mem with data := d }, holder := none }.setTask t
      ⟨next, (w.task t).reads⟩ := by
  unfold step
  rw [h]

end Steps

end World

end KmControl.Interleaving
