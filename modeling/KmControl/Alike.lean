import KmControl.Atomics

/-!
Two calls that do alike. They load and store the same registers, and as long as the data
behind the lock are related, whatever they take and give back there is related too. So they
cannot be told apart by the registers.
-/
namespace KmControl.Atomics

variable {R D β : Type} {now : ℕ} {Q : D → D → Prop}

section Rules

/-- At the time `now`, the calls go the same way from data related by `Q`, and leave such. -/
inductive Alike (now : ℕ) (Q : D → D → Prop) : Prog R D β → Prog R D β → Prop where
  | ret (b : β) : Alike now Q (.ret b) (.ret b)
  | load (r : R) {f g : ℕ → Prog R D β} (h : ∀ v, Alike now Q (f v) (g v)) :
      Alike now Q (.load r f) (.load r g)
  | store (r : R) (v : ℕ) {p q : Prog R D β} (h : Alike now Q p q) :
      Alike now Q (.store r v p) (.store r v q)
  | clock {f g : ℕ → Prog R D β} (h : Alike now Q (f now) (g now)) :
      Alike now Q (.clock f) (.clock g)
  | lock {f g : D → Prog R D β} (h : ∀ d d', Q d d' → Alike now Q (f d) (g d')) :
      Alike now Q (.lock f) (.lock g)
  | unlock {d d' : D} {p q : Prog R D β} (hd : Q d d') (h : Alike now Q p q) :
      Alike now Q (.unlock d p) (.unlock d' q)

variable {p q p' q' : Prog R D β}

theorem Alike.ite {c : Prop} [Decidable c] (hp : c → Alike now Q p p')
    (hq : ¬ c → Alike now Q q q') : Alike now Q (if c then p else q) (if c then p' else q') := by
  split <;> rename_i hc
  · exact hp hc
  · exact hq hc

theorem Alike.bind_unit (h : Alike now Q p q) :
    Alike now Q (p >>= fun _ => pure () : Prog R D Unit) (q >>= fun _ => pure ()) := by
  induction h with
  | ret b => exact .ret ()
  | load r _ ih => exact .load r ih
  | store r v _ ih => exact .store r v ih
  | clock _ ih => exact .clock ih
  | lock _ ih => exact .lock ih
  | unlock hd _ ih => exact .unlock hd ih

end Rules

variable [DecidableEq R]

/-- Two memories that agree on the registers and have related data. -/
structure Level (Q : D → D → Prop) (m m' : Memory R D) : Prop where
  regs_eq : m.regs = m'.regs
  data : Q m.data m'.data

/-- Calls that do alike leave such memories as they were related. -/
theorem Level.exec {p q : Prog R D β} (h : Alike now Q p q) {m m' : Memory R D}
    (hlevel : Level Q m m') : Level Q (exec now p m).2 (exec now q m').2 := by
  induction h generalizing m m' with
  | ret b => exact hlevel
  | @load r f g _ ih =>
    show Level Q (Atomics.exec now (f (m.regs r)) m).2 (Atomics.exec now (g (m'.regs r)) m').2
    rw [congrFun hlevel.regs_eq r]
    exact ih (m'.regs r) hlevel
  | store r v _ ih =>
    refine ih ⟨?_, hlevel.data⟩
    exact congrArg (Function.update · r v) hlevel.regs_eq
  | clock _ ih => exact ih hlevel
  | lock _ ih => exact ih m.data m'.data hlevel.data hlevel
  | unlock hd _ ih => exact ih ⟨hlevel.regs_eq, hd⟩

end KmControl.Atomics
