import KmControl.Interleaving

/-!
Calls that only look. They store nothing and give the data back as they took them, but they do
take the lock, so they hold up the others. Whatever a run with such calls leaves in the memory,
a run without them can leave too: it is the same run without the steps of these calls, and
without the steps that waited for them.
-/
namespace KmControl.Observers

open Atomics Interleaving

section Calls

variable {R D β : Type}

/-- The call takes the lock and gives it back in turn; `has` tells whether it has it. -/
def Bracketed : Prog R D β → Bool → Prop
  | .ret _, has => has = false
  | .load _ next, has => ∀ v, Bracketed (next v) has
  | .store _ _ next, has => Bracketed next has
  | .clock next, has => ∀ now, Bracketed (next now) has
  | .lock next, has => has = false ∧ ∀ d, Bracketed (next d) true
  | .unlock _ next, has => has = true ∧ Bracketed next false

/-- The call stores nothing and gives back the data that it holds. -/
def ReadOnly : Prog R D β → Option D → Prop
  | .ret _, held => held = none
  | .load _ next, held => ∀ v, ReadOnly (next v) held
  | .store _ _ _, _ => False
  | .clock next, held => ∀ now, ReadOnly (next now) held
  | .lock next, held => held = none ∧ ∀ d, ReadOnly (next d) (some d)
  | .unlock d next, held => held = some d ∧ ReadOnly next none

theorem Bracketed.ite {c : Prop} [Decidable c] {p q : Prog R D β} {has : Bool}
    (hp : Bracketed p has) (hq : Bracketed q has) : Bracketed (if c then p else q) has := by
  split
  · exact hp
  · exact hq

theorem ReadOnly.ite {c : Prop} [Decidable c] {p q : Prog R D β} {held : Option D}
    (hp : ReadOnly p held) (hq : ReadOnly q held) : ReadOnly (if c then p else q) held := by
  split
  · exact hp
  · exact hq

theorem Bracketed.bind_unit {p : Prog R D β} {has : Bool} (h : Bracketed p has) :
    Bracketed (p >>= fun _ => pure () : Prog R D Unit) has := by
  induction p generalizing has with
  | ret b => exact h
  | load r next ih => exact fun v => ih v (h v)
  | store r v next ih => exact ih h
  | clock next ih => exact fun now => ih now (h now)
  | lock next ih => exact ⟨h.1, fun d => ih d (h.2 d)⟩
  | unlock d next ih => exact ⟨h.1, ih h.2⟩

theorem ReadOnly.bind_unit {p : Prog R D β} {held : Option D} (h : ReadOnly p held) :
    ReadOnly (p >>= fun _ => pure () : Prog R D Unit) held := by
  induction p generalizing held with
  | ret b => exact h
  | load r next ih => exact fun v => ih v (h v)
  | store r v next => exact h.elim
  | clock next ih => exact fun now => ih now (h now)
  | lock next ih => exact ⟨h.1, fun d => ih d (h.2 d)⟩
  | unlock d next ih => exact ⟨h.1, ih h.2⟩

end Calls

section Worlds

variable {T R D C : Type} [DecidableEq T] [DecidableEq R]

/-- A task begins a call, or goes on with the one it is in. -/
inductive Move (T C : Type) where
  | start (t : T) (c : C)
  | step (t : T) (now : ℕ)

/-- Tasks that make calls on a memory; at first all are idle. -/
def machine (prog : C → Prog R D Unit) (m : Memory R D) : Machine (World T R D) (Move T C) where
  init := { mem := m, holder := none, task := fun _ => ⟨.ret (), fun _ => 0⟩ }
  step w
    | .start t c => w.start t (prog c)
    | .step t now => w.step t now

/-- The data that a task has locked. -/
def held (w : World T R D) (t : T) : Option D :=
  if w.holder = some t then some w.mem.data else none

/-- A task against the same one in the run without the calls that look. It looks, or it does
the same there. -/
def Follows (w w' : World T R D) (t : T) : Prop :=
  (ReadOnly (w.task t).prog (held w t) ∧ (w'.task t).prog.Returned ∧ held w' t = none) ∨
    (w'.task t = w.task t ∧ held w' t = held w t ∧
      Bracketed (w.task t).prog (held w t).isSome)

structure Shadows (w w' : World T R D) : Prop where
  mem_eq : w'.mem = w.mem
  holder : w'.holder ≠ none → w'.holder = w.holder
  follows : ∀ t, Follows w w' t

variable {w w' v v' : World T R D} {t : T}

omit [DecidableEq R] in
theorem held_of_holder (h : w.holder = some t) : held w t = some w.mem.data := if_pos h

omit [DecidableEq R] in
theorem held_of_other {u : T} (h : w.holder ≠ some u) : held w u = none := if_neg h

omit [DecidableEq R] in
/-- What happens to the others leaves a task where it was. -/
theorem Follows.frame (h : Follows w w' t) (htask : v.task t = w.task t)
    (htask' : v'.task t = w'.task t) (hheld : held v t = held w t)
    (hheld' : held v' t = held w' t) : Follows v v' t := by
  unfold Follows
  rw [htask, htask', hheld, hheld']
  exact h

omit [DecidableEq R] in
/-- A step of a call that looks, which leaves the memory and changes the holder at most. -/
theorem Shadows.look (h : Shadows w w') (hmem : v.mem = w.mem)
    (htasks : ∀ u, u ≠ t → v.task u = w.task u) (hothers : ∀ u, u ≠ t → held v u = held w u)
    (hidle : (w'.task t).prog.Returned) (hfree : held w' t = none)
    (hholder : w'.holder ≠ none → w'.holder = v.holder)
    (hlooks : ReadOnly (v.task t).prog (held v t)) : Shadows v w' where
  mem_eq := h.mem_eq.trans hmem.symm
  holder := hholder
  follows := by
    intro u
    by_cases hu : u = t
    · rw [hu]
      exact Or.inl ⟨hlooks, hidle, hfree⟩
    · exact (h.follows u).frame (htasks u hu) rfl (hothers u hu) rfl

omit [DecidableEq R] in
/-- A step of another call, made in both runs. -/
theorem Shadows.both (h : Shadows w w') (hmem : v'.mem = v.mem)
    (htasks : ∀ u, u ≠ t → v.task u = w.task u) (htasks' : ∀ u, u ≠ t → v'.task u = w'.task u)
    (hothers : ∀ u, u ≠ t → held v u = held w u) (hothers' : ∀ u, u ≠ t → held v' u = held w' u)
    (hholder : v'.holder ≠ none → v'.holder = v.holder) (hsame : v'.task t = v.task t)
    (hheld : held v' t = held v t) (hbracketed : Bracketed (v.task t).prog (held v t).isSome) :
    Shadows v v' where
  mem_eq := hmem
  holder := hholder
  follows := by
    intro u
    by_cases hu : u = t
    · rw [hu]
      exact Or.inr ⟨hsame, hheld, hbracketed⟩
    · exact (h.follows u).frame (htasks u hu) (htasks' u hu) (hothers u hu) (hothers' u hu)

omit [DecidableEq R] in
theorem holder_of_isSome (h : (held w t).isSome = true) : w.holder = some t := by
  by_contra hother
  rw [held_of_other hother] at h
  cases h

omit [DecidableEq R] in
theorem Shadows.free (h : Shadows w w') (hfree : w.holder = none) : w'.holder = none := by
  by_contra htaken
  exact htaken ((h.holder htaken).trans hfree)

/-- A call that looks takes a step; the other run stays where it is. -/
theorem Shadows.look_step (h : Shadows w w') (hlooks : ReadOnly (w.task t).prog (held w t))
    (hidle : (w'.task t).prog.Returned) (hfree : held w' t = none) (now : ℕ) :
    Shadows (w.step t now) w' := by
  cases hprog : (w.task t).prog with
  | ret u =>
    rw [World.step_of_returned (hprog ▸ trivial)]
    exact h
  | load r next =>
    rw [hprog] at hlooks
    rw [World.step_of_load hprog]
    refine h.look rfl (fun u hu => World.setTask_task_of_ne _ _ _ hu) (fun _ _ => rfl) hidle hfree
      h.holder ?_
    rw [World.setTask_task_self]
    exact hlooks _
  | store r x next =>
    rw [hprog] at hlooks
    exact hlooks.elim
  | clock next =>
    rw [hprog] at hlooks
    rw [World.step_of_clock hprog]
    refine h.look rfl (fun u hu => World.setTask_task_of_ne _ _ _ hu) (fun _ _ => rfl) hidle hfree
      h.holder ?_
    rw [World.setTask_task_self]
    exact hlooks now
  | lock next =>
    rw [hprog] at hlooks
    by_cases hlock : w.holder = none
    · rw [World.step_of_lock hprog hlock]
      refine h.look rfl (fun u hu => World.setTask_task_of_ne _ _ _ hu) (fun u hu => ?_) hidle hfree
        (fun htaken => absurd (h.free hlock) htaken) ?_
      · have hbefore : held w u = none := held_of_other (by rw [hlock]; exact nofun)
        exact (held_of_other fun heq => hu (Option.some.inj heq).symm).trans hbefore.symm
      · rw [World.setTask_task_self, held_of_holder rfl]
        exact hlooks.2 w.mem.data
    · rw [World.step_of_locked hprog hlock]
      exact h
  | unlock d next =>
    rw [hprog] at hlooks
    obtain ⟨hheld, hnext⟩ := hlooks
    have hholder : w.holder = some t := holder_of_isSome (by rw [hheld]; rfl)
    rw [held_of_holder hholder, Option.some.injEq] at hheld
    rw [World.step_of_unlock hprog, ← hheld]
    refine h.look rfl (fun u hu => World.setTask_task_of_ne _ _ _ hu) (fun u hu => ?_) hidle hfree
      (fun htaken => ?_) ?_
    · have hother : w.holder ≠ some u := fun heq => hu (Option.some.inj (heq.symm.trans hholder))
      rw [held_of_other hother]
      rfl
    · have hself := (h.holder htaken).trans hholder
      rw [held_of_holder hself] at hfree
      cases hfree
    · rw [World.setTask_task_self]
      exact hnext

/-- Another call takes a step in both runs, unless it has to wait in the first. -/
theorem Shadows.other_step (h : Shadows w w') (hsame : w'.task t = w.task t)
    (hheld : held w' t = held w t) (hbracketed : Bracketed (w.task t).prog (held w t).isSome)
    (now : ℕ) : Shadows (w.step t now) w' ∨ Shadows (w.step t now) (w'.step t now) := by
  cases hprog : (w.task t).prog with
  | ret u =>
    rw [World.step_of_returned (hprog ▸ trivial)]
    exact Or.inl h
  | load r next =>
    rw [hprog] at hbracketed
    rw [World.step_of_load hprog, World.step_of_load (hsame ▸ hprog), hsame, h.mem_eq]
    refine Or.inr (h.both h.mem_eq (fun u hu => World.setTask_task_of_ne _ _ _ hu)
      (fun u hu => World.setTask_task_of_ne _ _ _ hu) (fun _ _ => rfl) (fun _ _ => rfl) h.holder ?_
      hheld ?_)
    · rw [World.setTask_task_self, World.setTask_task_self]
    · rw [World.setTask_task_self]
      exact hbracketed _
  | store r x next =>
    rw [hprog] at hbracketed
    rw [World.step_of_store hprog, World.step_of_store (hsame ▸ hprog), hsame]
    refine Or.inr (h.both (congrArg (·.store r x) h.mem_eq)
      (fun u hu => World.setTask_task_of_ne _ _ _ hu)
      (fun u hu => World.setTask_task_of_ne _ _ _ hu) (fun _ _ => rfl) (fun _ _ => rfl) h.holder ?_
      hheld ?_)
    · rw [World.setTask_task_self, World.setTask_task_self]
    · rw [World.setTask_task_self]
      exact hbracketed
  | clock next =>
    rw [hprog] at hbracketed
    rw [World.step_of_clock hprog, World.step_of_clock (hsame ▸ hprog), hsame]
    refine Or.inr (h.both h.mem_eq (fun u hu => World.setTask_task_of_ne _ _ _ hu)
      (fun u hu => World.setTask_task_of_ne _ _ _ hu) (fun _ _ => rfl) (fun _ _ => rfl) h.holder ?_
      hheld ?_)
    · rw [World.setTask_task_self, World.setTask_task_self]
    · rw [World.setTask_task_self]
      exact hbracketed now
  | lock next =>
    rw [hprog] at hbracketed
    by_cases hlock : w.holder = none
    · have hlock' := h.free hlock
      rw [World.step_of_lock hprog hlock, World.step_of_lock (hsame ▸ hprog) hlock', hsame, h.mem_eq]
      refine Or.inr (h.both rfl (fun u hu => World.setTask_task_of_ne _ _ _ hu)
        (fun u hu => World.setTask_task_of_ne _ _ _ hu) (fun u hu => ?_) (fun u hu => ?_)
        (fun _ => rfl) ?_ ?_ ?_)
      · have hbefore : held w u = none := held_of_other (by rw [hlock]; exact nofun)
        exact (held_of_other fun heq => hu (Option.some.inj heq).symm).trans hbefore.symm
      · have hbefore : held w' u = none := held_of_other (by rw [hlock']; exact nofun)
        exact (held_of_other fun heq => hu (Option.some.inj heq).symm).trans hbefore.symm
      · rw [World.setTask_task_self, World.setTask_task_self]
      · rw [held_of_holder rfl, held_of_holder rfl]
        rfl
      · rw [World.setTask_task_self, held_of_holder rfl]
        exact hbracketed.2 w.mem.data
    · rw [World.step_of_locked hprog hlock]
      exact Or.inl h
  | unlock d next =>
    rw [hprog] at hbracketed
    have hholder := holder_of_isSome hbracketed.1
    have hholder' : w'.holder = some t := holder_of_isSome (hheld ▸ hbracketed.1)
    rw [World.step_of_unlock hprog, World.step_of_unlock (hsame ▸ hprog), hsame, h.mem_eq]
    refine Or.inr (h.both rfl (fun u hu => World.setTask_task_of_ne _ _ _ hu)
      (fun u hu => World.setTask_task_of_ne _ _ _ hu) (fun u hu => ?_) (fun u hu => ?_)
      (fun htaken => absurd rfl htaken) ?_ rfl ?_)
    · have hother : w.holder ≠ some u := fun heq => hu (Option.some.inj (heq.symm.trans hholder))
      rw [held_of_other hother]
      rfl
    · have hother : w'.holder ≠ some u := fun heq => hu (Option.some.inj (heq.symm.trans hholder'))
      rw [held_of_other hother]
      rfl
    · rw [World.setTask_task_self, World.setTask_task_self]
    · rw [World.setTask_task_self]
      exact hbracketed.2

omit [DecidableEq R] in
/-- A task that has returned has given the lock back, in both runs. -/
theorem Follows.idle (h : Follows w w' t) (hidle : (w.task t).prog.Returned) :
    held w t = none ∧ (w'.task t).prog.Returned ∧ held w' t = none := by
  rcases h with ⟨hlooks, hidle', hfree'⟩ | ⟨hsame, hheld, hbracketed⟩
  · refine ⟨?_, hidle', hfree'⟩
    cases hprog : (w.task t).prog with
    | ret u =>
      rw [hprog] at hlooks
      exact hlooks
    | load | store | clock | lock | unlock =>
      rw [hprog] at hidle
      exact hidle.elim
  · have hfree : held w t = none := by
      cases hprog : (w.task t).prog with
      | ret u =>
        rw [hprog] at hbracketed
        simpa [Bracketed] using hbracketed
      | load | store | clock | lock | unlock =>
        rw [hprog] at hidle
        exact hidle.elim
    exact ⟨hfree, hsame ▸ hidle, hheld.trans hfree⟩

omit [DecidableEq R] in
theorem Shadows.look_start (h : Shadows w w') {p : Prog R D Unit} (hp : ReadOnly p none) (t : T) :
    Shadows (w.start t p) w' := by
  unfold World.start
  split
  · rename_i hidle
    obtain ⟨hfree, hidle', hfree'⟩ := (h.follows t).idle hidle
    refine h.look rfl (fun u hu => World.setTask_task_of_ne _ _ _ hu) (fun _ _ => rfl) hidle' hfree'
      h.holder ?_
    rw [World.setTask_task_self]
    exact hfree.symm ▸ hp
  · exact h

omit [DecidableEq R] in
theorem Shadows.other_start (h : Shadows w w') {p : Prog R D Unit} (hp : Bracketed p false)
    (t : T) : Shadows (w.start t p) w' ∨ Shadows (w.start t p) (w'.start t p) := by
  unfold World.start
  split
  · rename_i hidle
    obtain ⟨hfree, hidle', hfree'⟩ := (h.follows t).idle hidle
    rw [if_pos hidle']
    refine Or.inr (h.both h.mem_eq (fun u hu => World.setTask_task_of_ne _ _ _ hu)
      (fun u hu => World.setTask_task_of_ne _ _ _ hu) (fun _ _ => rfl) (fun _ _ => rfl) h.holder ?_
      (hfree'.trans hfree.symm) ?_)
    · rw [World.setTask_task_self, World.setTask_task_self]
    · rw [World.setTask_task_self]
      have hnone : held (w.setTask t ⟨p, fun _ => 0⟩) t = none := hfree
      rw [hnone]
      exact hp
  · exact Or.inl h

section Runs

variable {prog : C → Prog R D Unit} {looks : C → Prop}
  (hlooks : ∀ c, looks c → ReadOnly (prog c) none)
  (hothers : ∀ c, ¬ looks c → Bracketed (prog c) false)

include hlooks hothers

/-- One move is left out, or made as it is. -/
theorem Shadows.move {m : Memory R D} (h : Shadows w w') (mv : Move T C) :
    Shadows ((machine prog m).step w mv) w' ∨
      (∀ t c, mv = Move.start t c → ¬ looks c) ∧
        Shadows ((machine prog m).step w mv) ((machine prog m).step w' mv) := by
  cases mv with
  | start t c =>
    by_cases hc : looks c
    · exact Or.inl (h.look_start (hlooks c hc) t)
    · refine (h.other_start (hothers c hc) t).imp_right fun hboth => ⟨fun u d heq => ?_, hboth⟩
      cases heq
      exact hc
  | step t now =>
    rcases h.follows t with ⟨hreads, hidle, hfree⟩ | ⟨hsame, hheld, hbracketed⟩
    · exact Or.inl (h.look_step hreads hidle hfree now)
    · exact (h.other_step hsame hheld hbracketed now).imp_right
        fun hboth => ⟨fun _ _ heq => (nomatch heq), hboth⟩

/-- A run with calls that look is the shadow of a run without: some of its moves, none of which
begins such a call. -/
theorem exists_run_without (m : Memory R D) (moves : List (Move T C)) :
    ∃ others : List (Move T C), others.Sublist moves ∧
      (∀ t c, Move.start t c ∈ others → ¬ looks c) ∧
        Shadows ((machine prog m).run moves) ((machine prog m).run others) := by
  induction moves using List.reverseRecOn with
  | nil =>
    refine ⟨[], List.Sublist.refl _, fun _ _ h => absurd h List.not_mem_nil, rfl, fun _ => rfl, ?_⟩
    exact fun t => Or.inr ⟨rfl, rfl, rfl⟩
  | append_singleton moves mv ih =>
    obtain ⟨others, hsub, hstarts, hshadows⟩ := ih
    rw [Machine.run_concat]
    rcases hshadows.move hlooks hothers mv with hleft | ⟨hmv, hboth⟩
    · exact ⟨others, hsub.trans (List.sublist_append_left _ _), hstarts, hleft⟩
    · refine ⟨others ++ [mv], hsub.append (List.Sublist.refl _), fun t c h => ?_, ?_⟩
      · rcases List.mem_append.mp h with hold | hnew
        · exact hstarts t c hold
        · exact hmv t c (List.mem_singleton.mp hnew).symm
      · rw [Machine.run_concat]
        exact hboth

end Runs

end Worlds

end KmControl.Observers
