import KmControl.Atomics

/-!
What calls keep of the data behind the lock. A call can change the data only where it
gives the lock back; so a property that holds there whenever it held when the lock was
taken is kept by the call.
-/
namespace KmControl.Atomics

section Rules

variable {R D β : Type} {now : ℕ} {J : D → Prop}

/-- At the time `now`, `J` holds of the data whenever the lock is given back, if it did
when the lock was taken. -/
def Unlocks (now : ℕ) (J : D → Prop) : Prog R D β → Prop
  | .ret _ => True
  | .load _ next => ∀ v, Unlocks now J (next v)
  | .store _ _ next => Unlocks now J next
  | .clock next => Unlocks now J (next now)
  | .lock next => ∀ d, J d → Unlocks now J (next d)
  | .unlock d next => J d ∧ Unlocks now J next

@[simp] theorem unlocks_load (r : R) (f : ℕ → Prog R D β) :
    Unlocks now J (load r >>= f) ↔ ∀ v, Unlocks now J (f v) := Iff.rfl

@[simp] theorem unlocks_store (r : R) (v : ℕ) (f : Unit → Prog R D β) :
    Unlocks now J (store r v >>= f) ↔ Unlocks now J (f ()) := Iff.rfl

@[simp] theorem unlocks_clock (f : ℕ → Prog R D β) :
    Unlocks now J (clock >>= f) ↔ Unlocks now J (f now) := Iff.rfl

@[simp] theorem unlocks_lock (f : D → Prog R D β) :
    Unlocks now J (lock >>= f) ↔ ∀ d, J d → Unlocks now J (f d) := Iff.rfl

theorem unlocks_unlock {d : D} (h : J d) : Unlocks now J (unlock d : Prog R D Unit) :=
  ⟨h, trivial⟩

theorem unlocks_unlock_bind {d : D} (h : J d) {f : Unit → Prog R D β}
    (hf : Unlocks now J (f ())) : Unlocks now J (unlock d >>= f) := ⟨h, hf⟩

theorem Unlocks.ite {c : Prop} [Decidable c] {p q : Prog R D β} (hp : c → Unlocks now J p)
    (hq : ¬ c → Unlocks now J q) : Unlocks now J (if c then p else q) := by
  split <;> rename_i hc
  · exact hp hc
  · exact hq hc

theorem Unlocks.bind_unit {p : Prog R D β} (h : Unlocks now J p) :
    Unlocks now J (p >>= fun _ => pure () : Prog R D Unit) := by
  induction p with
  | ret b => trivial
  | load r next ih => exact fun v => ih v (h v)
  | store r v next ih => exact ih h
  | clock next ih => exact ih now h
  | lock next ih => exact fun d hd => ih d (h d hd)
  | unlock d next ih => exact ⟨h.1, ih h.2⟩

end Rules

variable {R D β : Type} [DecidableEq R]

/-- A call that runs alone keeps what each of its sections keeps of the data. -/
theorem exec_of_unlocks {now : ℕ} {J : D → Prop} {p : Prog R D β} (h : Unlocks now J p)
    {m : Memory R D} (hJ : J m.data) : J (exec now p m).2.data := by
  induction p generalizing m with
  | ret b => exact hJ
  | load r next ih => exact ih (m.regs r) (h _) hJ
  | store r v next ih => exact ih (m := m.store r v) h hJ
  | clock next ih => exact ih now h hJ
  | lock next ih => exact ih m.data (h _ hJ) hJ
  | unlock d next ih => exact ih (m := { m with data := d }) h.2 h.1

end KmControl.Atomics
