import KmControl.Machine
import Mathlib.Data.Nat.Notation
import Mathlib.Logic.Function.Basic

/-!
The loop of the host that keeps a capture pipeline while a client is watching. It
looks at the flag of the client and then acts on the two flags of the current
pipeline: it sets the stop flag, and the pipeline's supervisor sets the done flag
when its threads have ended, for whatever reason.
-/
namespace KmControl.PipelineLifecycle

/-- The flags of a pipeline. -/
structure Pipeline where
  stop : Bool
  done : Bool
deriving DecidableEq, Repr

/-- The pipelines are numbered in the order in which they were started. -/
structure State where
  clientActive : Bool
  /-- What this iteration has seen of the client, between its look and its act. -/
  want : Option Bool
  running : Option ℕ
  pipelines : ℕ → Pipeline
  started : ℕ
  iterations : ℕ

inductive Event where
  | setActive (active : Bool)
  /-- Both threads of a pipeline have ended. -/
  | done (i : ℕ)
  | look
  | act
deriving DecidableEq, Repr

namespace State

def start (s : State) : State :=
  { s with
    pipelines := Function.update s.pipelines s.started ⟨false, false⟩
    running := some s.started
    started := s.started + 1 }

def signal (s : State) (i : ℕ) : State :=
  { s with pipelines := Function.update s.pipelines i { s.pipelines i with stop := true } }

/-- Empty the slot of a pipeline that was told to stop and has ended. -/
def clear (s : State) : State :=
  match s.running with
  | some i =>
    if (s.pipelines i).stop && (s.pipelines i).done then { s with running := none } else s
  | none => s

def alive (s : State) : Bool := s.running.any fun i => !(s.pipelines i).stop

/-- The rest of an iteration that has seen `want`. -/
def settle (s : State) (want : Bool) : State :=
  let s := s.clear
  match want, s.alive, s.running with
  | true, false, none => s.start
  | false, true, some i => s.signal i
  | _, _, _ => s

def step (s : State) : Event → State
  | .setActive active => { s with clientActive := active }
  | .done i =>
    if i < s.started then
      { s with pipelines := Function.update s.pipelines i { s.pipelines i with done := true } }
    else s
  | .look => if s.want = none then { s with want := some s.clientActive } else s
  | .act =>
    match s.want with
    | some want => { s.settle want with want := none, iterations := s.iterations + 1 }
    | none => s

end State

def machine : Machine State Event where
  init :=
    { clientActive := false, want := none, running := none, pipelines := fun _ => ⟨false, false⟩,
      started := 0, iterations := 0 }
  step := State.step

section Settle

variable {s : State} {i : ℕ}

/-- What the rest of an iteration can do. -/
theorem settle_cases (s : State) (want : Bool) :
    (want = true ∧ (∀ i, s.running = some i → (s.pipelines i).stop = true ∧
        (s.pipelines i).done = true) ∧ s.settle want = { s with running := none }.start) ∨
      (∃ i, want = false ∧ s.running = some i ∧ (s.pipelines i).stop = true ∧
        (s.pipelines i).done = true ∧ s.settle want = { s with running := none }) ∨
      (∃ i, want = false ∧ s.running = some i ∧ (s.pipelines i).stop = false ∧
        s.settle want = s.signal i) ∨
      (s.settle want = s ∧ (want = true → ∃ i, s.running = some i ∧
        ¬ ((s.pipelines i).stop = true ∧ (s.pipelines i).done = true)) ∧
        (want = false → ∀ i, s.running = some i → (s.pipelines i).stop = true)) := by
  unfold State.settle State.clear State.alive
  cases hrunning : s.running with
  | none =>
    cases want with
    | true => exact Or.inl ⟨rfl, nofun, by simp [hrunning, State.start]⟩
    | false => exact Or.inr (Or.inr (Or.inr ⟨by simp [hrunning], nofun, nofun⟩))
  | some i =>
    by_cases hover : (s.pipelines i).stop = true ∧ (s.pipelines i).done = true
    · cases want with
      | true =>
        refine Or.inl ⟨rfl, ?_, by simp [hover]⟩
        intro j hj
        cases hj
        exact hover
      | false => exact Or.inr (Or.inl ⟨i, rfl, rfl, hover.1, hover.2, by simp [hover]⟩)
    · have hkeep : ((s.pipelines i).stop && (s.pipelines i).done) = false := by
        rw [← Bool.not_eq_true, Bool.and_eq_true]
        exact hover
      cases want with
      | true =>
        refine Or.inr (Or.inr (Or.inr ⟨?_, fun _ => ⟨i, rfl, hover⟩, nofun⟩))
        simp [hkeep, hrunning]
      | false =>
        cases hstop : (s.pipelines i).stop with
        | false =>
          exact Or.inr (Or.inr (Or.inl ⟨i, rfl, rfl, hstop, by simp [hrunning, hstop]⟩))
        | true =>
          refine Or.inr (Or.inr (Or.inr ⟨?_, nofun, ?_⟩))
          · have hdone : (s.pipelines i).done = false := by simpa [hstop] using hkeep
            simp [hrunning, hstop, hdone]
          · intro _ j hj
            cases hj
            exact hstop

theorem iterations_settle (want : Bool) : (s.settle want).iterations = s.iterations := by
  rcases settle_cases s want with ⟨-, -, heq⟩ | ⟨_, -, -, -, -, heq⟩ | ⟨_, -, -, -, heq⟩ |
    ⟨heq, -, -⟩ <;> rw [heq]
  · rfl
  · rfl

theorem started_le_settle (want : Bool) : s.started ≤ (s.settle want).started := by
  rcases settle_cases s want with ⟨-, -, heq⟩ | ⟨_, -, -, -, -, heq⟩ | ⟨_, -, -, -, heq⟩ |
    ⟨heq, -, -⟩
  · exact (Nat.le_succ _).trans_eq (congrArg State.started heq).symm
  · exact Nat.le_of_eq (congrArg State.started heq).symm
  · exact Nat.le_of_eq (congrArg State.started heq).symm
  · exact Nat.le_of_eq (congrArg State.started heq).symm

end Settle

/-- What an event can make of a state. -/
theorem step_rule {I : State → Prop} {s : State} (hsame : I s)
    (hactive : ∀ active, I { s with clientActive := active })
    (hdone : ∀ i, I { s with
      pipelines := Function.update s.pipelines i { s.pipelines i with done := true } })
    (hlook : s.want = none → I { s with want := some s.clientActive })
    (hact : ∀ want, s.want = some want →
      I { s.settle want with want := none, iterations := s.iterations + 1 }) (ev : Event) :
    I (s.step ev) := by
  cases ev with
  | setActive active => exact hactive active
  | done i =>
    simp only [State.step]
    split
    · exact hdone i
    · exact hsame
  | look =>
    simp only [State.step]
    split
    · rename_i hnone
      exact hlook hnone
    · exact hsame
  | act =>
    simp only [State.step]
    split
    · rename_i want hwant
      exact hact want hwant
    · exact hsame

/-- All pipelines but the current one were told to stop and have ended, and the current
one is the last. -/
structure Sound (s : State) : Prop where
  past : ∀ i, i < s.started → s.running ≠ some i →
    (s.pipelines i).stop = true ∧ (s.pipelines i).done = true
  current : ∀ i, s.running = some i → i + 1 = s.started

theorem Sound.settle {s : State} (h : Sound s) (want : Bool) : Sound (s.settle want) := by
  rcases settle_cases s want with ⟨-, hover, heq⟩ | ⟨i, -, hrunning, hstop, hdone, heq⟩ |
    ⟨i, -, hrunning, -, heq⟩ | ⟨heq, -, -⟩
  · rw [heq]
    refine ⟨fun j hj hne => ?_, fun j hj => ?_⟩
    · have hne : j ≠ s.started := fun h => hne (congrArg some h.symm)
      have hlt : j < s.started := by
        simp only [State.start] at hj
        omega
      simp only [State.start, Function.update_of_ne hne]
      by_cases hcurrent : s.running = some j
      · exact hover j hcurrent
      · exact h.past j hlt hcurrent
    · cases hj
      rfl
  · rw [heq]
    refine ⟨fun j hj _ => ?_, nofun⟩
    by_cases hcurrent : s.running = some j
    · obtain rfl : i = j := Option.some.inj (hrunning.symm.trans hcurrent)
      exact ⟨hstop, hdone⟩
    · exact h.past j hj hcurrent
  · rw [heq]
    refine ⟨fun j hj hne => ?_, h.current⟩
    have hother : j ≠ i := by
      rintro rfl
      exact hne hrunning
    simp only [State.signal, Function.update_of_ne hother]
    exact h.past j hj hne
  · rwa [heq]

theorem Sound.step {s : State} (h : Sound s) (ev : Event) : Sound (s.step ev) := by
  apply step_rule h
  · exact fun _ => ⟨h.past, h.current⟩
  · refine fun i => ⟨fun j hj hne => ?_, h.current⟩
    have hpast := h.past j hj hne
    by_cases heq : j = i
    · subst heq
      simpa using hpast.1
    · simp only [Function.update_of_ne heq]
      exact hpast
  · exact fun _ => ⟨h.past, h.current⟩
  · exact fun want _ => ⟨(h.settle want).past, (h.settle want).current⟩

theorem sound_run (evs : List Event) : Sound (machine.run evs) :=
  machine.run_invariant ⟨fun _ hi => absurd hi (Nat.not_lt_zero _), nofun⟩
    (fun _ ev h => h.step ev) evs

/-- No two pipelines have both not ended. -/
def AtMostOne (s : State) : Prop :=
  ∀ i j, i < s.started → j < s.started → (s.pipelines i).done = false →
    (s.pipelines j).done = false → i = j

theorem Sound.atMostOne {s : State} (h : Sound s) : AtMostOne s := by
  have hcurrent : ∀ i, i < s.started → (s.pipelines i).done = false → s.running = some i := by
    intro i hi hdone
    by_contra hne
    have hover := (h.past i hi hne).2
    rw [hdone] at hover
    cases hover
  intro i j hi hj hdone hdone'
  exact Option.some.inj ((hcurrent i hi hdone).symm.trans (hcurrent j hj hdone'))

/-- An iteration begins and sees a client while the current pipeline has ended. -/
def SeesFinished (s : State) : Prop :=
  s.want = none ∧ s.clientActive = true ∧ 0 < s.started ∧
    (s.pipelines (s.started - 1)).done = true

/-- The current pipeline was told to stop. -/
def Told (s : State) : Prop := (s.pipelines (s.started - 1)).stop = true

section Restart

variable {i k : ℕ}

/-- Pipeline `i` was told to stop and has ended, and the iteration after `k` acts has seen a
client: the act of that iteration starts another pipeline. -/
structure Restarting (i k : ℕ) (s : State) : Prop where
  before : s.iterations = k → s.started = i + 1 ∧ s.want = some true ∧
    (s.running = none ∨ s.running = some i) ∧ s.pipelines i = ⟨true, true⟩
  begun : k ≤ s.iterations
  after : k < s.iterations → i + 1 < s.started

/-- Pipeline `i` has ended without being told to stop: for two acts it stays the current
one. -/
structure Stuck (i k : ℕ) (s : State) : Prop where
  begun : k ≤ s.iterations
  kept : s.iterations ≤ k + 2 → s.started = i + 1
  held : s.iterations ≤ k + 1 → s.running = some i ∧ (s.pipelines i).stop = false
  seen : s.iterations = k → s.want = some true

theorem Restarting.step {s : State} (h : Restarting i k s) (ev : Event) :
    Restarting i k (s.step ev) := by
  apply step_rule h
  · exact fun _ => ⟨h.before, h.begun, h.after⟩
  · refine fun j => ⟨fun hk => ?_, h.begun, h.after⟩
    obtain ⟨hstarted, hwant, hrunning, hflags⟩ := h.before hk
    refine ⟨hstarted, hwant, hrunning, ?_⟩
    by_cases heq : i = j
    · subst heq
      simp [hflags]
    · simp only [Function.update_of_ne heq]
      exact hflags
  · intro hnone
    refine ⟨fun hk => ?_, h.begun, h.after⟩
    have hwant := (h.before hk).2.1
    rw [hnone] at hwant
    cases hwant
  · intro want hwant
    have hbegun := h.begun
    have hiterations := @iterations_settle s want
    have hstarted : i + 1 < (s.settle want).started := by
      by_cases hk : s.iterations = k
      · obtain ⟨hstarted, htrue, hrunning, hflags⟩ := h.before hk
        obtain rfl : want = true := Option.some.inj (hwant.symm.trans htrue)
        rcases settle_cases s true with ⟨-, -, heq⟩ | ⟨_, hfalse, -⟩ | ⟨_, hfalse, -⟩ |
          ⟨-, hstay, -⟩
        · rw [heq]
          simp only [State.start]
          omega
        · cases hfalse
        · cases hfalse
        · obtain ⟨j, hj, hflag⟩ := hstay rfl
          rcases hrunning with hnone | hsome
          · rw [hnone] at hj
            cases hj
          · obtain rfl : i = j := Option.some.inj (hsome.symm.trans hj)
            exact absurd ⟨by rw [hflags], by rw [hflags]⟩ hflag
      · have hlt := h.after (by omega)
        have hle := @started_le_settle s want
        omega
    exact ⟨fun hk => by simp only at hk; omega, by simp only; omega, fun _ => hstarted⟩

/-- While a pipeline is held, an iteration can only tell it to stop. -/
theorem Stuck.settle {s : State} (h : Stuck i k s) (want : Bool) (hk : s.iterations ≤ k + 1) :
    (s.settle want).started = s.started ∧ (want = true → s.settle want = s) := by
  obtain ⟨hrunning, hstop⟩ := h.held hk
  rcases settle_cases s want with ⟨-, hover, -⟩ | ⟨j, -, hj, hover, -⟩ |
    ⟨_, hfalse, -, -, heq⟩ | ⟨heq, -, -⟩
  · have hflag := (hover i hrunning).1
    rw [hstop] at hflag
    cases hflag
  · obtain rfl : i = j := Option.some.inj (hrunning.symm.trans hj)
    rw [hstop] at hover
    cases hover
  · rw [heq]
    refine ⟨rfl, fun htrue => ?_⟩
    rw [hfalse] at htrue
    cases htrue
  · exact ⟨by rw [heq], fun _ => heq⟩

theorem Stuck.step {s : State} (h : Stuck i k s) (ev : Event) : Stuck i k (s.step ev) := by
  apply step_rule h
  · exact fun _ => ⟨h.begun, h.kept, h.held, h.seen⟩
  · refine fun j => ⟨h.begun, h.kept, fun hk => ?_, h.seen⟩
    obtain ⟨hrunning, hstop⟩ := h.held hk
    refine ⟨hrunning, ?_⟩
    by_cases heq : i = j
    · subst heq
      simpa using hstop
    · simp only [Function.update_of_ne heq]
      exact hstop
  · intro hnone
    refine ⟨h.begun, h.kept, h.held, fun hk => ?_⟩
    have hwant := h.seen hk
    rw [hnone] at hwant
    cases hwant
  · intro want hwant
    have hbegun := h.begun
    have hiterations := @iterations_settle s want
    refine ⟨by simp only; omega, fun hk => ?_, fun hk => ?_, fun hk => ?_⟩
    · simp only at hk ⊢
      rw [(h.settle want (by omega)).1]
      exact h.kept (by omega)
    · simp only at hk ⊢
      have hseen := h.seen (by omega)
      obtain rfl : want = true := Option.some.inj (hwant.symm.trans hseen)
      rw [(h.settle true (by omega)).2 rfl]
      exact h.held (by omega)
    · simp only at hk
      omega

/-- Two iterations after it was seen that the current pipeline has ended, there is a new one
precisely if the old one was told to stop. -/
theorem restarted_iff {s : State} (hs : Sound s) (hsees : SeesFinished s) (later : List Event)
    (htwo : (machine.runFrom s (.look :: later)).iterations = s.iterations + 2) :
    s.started < (machine.runFrom s (.look :: later)).started ↔ Told s := by
  obtain ⟨hwant, hactive, hpos, hdone⟩ := hsees
  obtain ⟨i, hi⟩ : ∃ i, s.started = i + 1 := ⟨s.started - 1, by omega⟩
  have hlook : machine.runFrom s (.look :: later) =
      machine.runFrom { s with want := some true } later := by
    have hstep : s.step .look = { s with want := some s.clientActive } := if_pos hwant
    rw [Machine.runFrom_cons]
    change machine.runFrom (s.step .look) later = _
    rw [hstep, hactive]
  have hindex : s.started - 1 = i := by omega
  rw [hindex] at hdone
  have hcurrent : ∀ j, s.running = some j → j = i := by
    intro j hj
    have := hs.current j hj
    omega
  unfold Told
  rw [hindex, hlook]
  rw [hlook] at htwo
  cases hstop : (s.pipelines i).stop with
  | true =>
    refine iff_of_true ?_ rfl
    have hend : Restarting i s.iterations (machine.runFrom { s with want := some true } later) := by
      refine machine.runFrom_invariant (fun _ ev h => h.step ev) _ ⟨fun _ => ?_, ?_, ?_⟩ later
      · refine ⟨hi, rfl, ?_, ?_⟩
        · cases hrunning : s.running with
          | none => exact Or.inl rfl
          | some j => exact Or.inr (congrArg some (hcurrent j hrunning))
        · cases hflags : s.pipelines i with
          | mk stop done =>
            rw [hflags] at hstop hdone
            simp only at hstop hdone
            rw [hstop, hdone]
      · exact Nat.le_refl _
      · exact fun h => absurd h (Nat.lt_irrefl _)
    have := hend.after (by omega)
    omega
  | false =>
    refine iff_of_false ?_ nofun
    have hrunning : s.running = some i := by
      by_contra hne
      have hover := (hs.past i (by omega) hne).1
      rw [hstop] at hover
      cases hover
    have hend : Stuck i s.iterations (machine.runFrom { s with want := some true } later) :=
      machine.runFrom_invariant (fun _ ev h => h.step ev) _
        ⟨Nat.le_refl _, fun _ => hi, fun _ => ⟨hrunning, hstop⟩, fun _ => rfl⟩ later
    have := hend.kept (by omega)
    omega

end Restart

/-- In a run, at no time are there two pipelines that have not ended, and an iteration that
sees a client while the current pipeline has ended starts a new one, it or the next. -/
structure Supervised (evs : List Event) : Prop where
  single : ∀ pre, pre <+: evs → AtMostOne (machine.run pre)
  restarted : ∀ pre later, pre ++ .look :: later <+: evs → SeesFinished (machine.run pre) →
    (machine.run (pre ++ .look :: later)).iterations = (machine.run pre).iterations + 2 →
    (machine.run pre).started < (machine.run (pre ++ .look :: later)).started

/-- A pipeline that has ended by itself is not replaced while the client keeps watching. -/
theorem supervised_iff (evs : List Event) : Supervised evs ↔
    ∀ pre later, pre ++ .look :: later <+: evs → SeesFinished (machine.run pre) →
      (machine.run (pre ++ .look :: later)).iterations = (machine.run pre).iterations + 2 →
      Told (machine.run pre) := by
  have hiff : ∀ pre later, SeesFinished (machine.run pre) →
      (machine.run (pre ++ .look :: later)).iterations = (machine.run pre).iterations + 2 →
      ((machine.run pre).started < (machine.run (pre ++ .look :: later)).started ↔
        Told (machine.run pre)) := by
    intro pre later hsees htwo
    rw [machine.run_append] at htwo ⊢
    exact restarted_iff (sound_run pre) hsees later htwo
  constructor
  · intro h pre later hpre hsees htwo
    exact (hiff pre later hsees htwo).mp (h.restarted pre later hpre hsees htwo)
  · intro h
    refine ⟨fun pre _ => (sound_run pre).atMostOne, fun pre later hpre hsees htwo => ?_⟩
    exact (hiff pre later hsees htwo).mpr (h pre later hpre hsees htwo)

/-- The capture ends by itself, and the client sees nothing more. -/
theorem ended_not_restarted : ¬ Supervised [.setActive true, .look, .act, .done 0, .look, .act,
    .look, .act] := by
  intro h
  have hlt := h.restarted [.setActive true, .look, .act, .done 0] [.act, .look, .act]
    (List.prefix_refl _) ⟨rfl, rfl, by decide, rfl⟩ rfl
  exact absurd hlt (by decide)

end KmControl.PipelineLifecycle
