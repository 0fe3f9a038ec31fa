import KmControl.StartUp

/-!
Whether the client's only StartB starts the stream. It does if and only if the waiter
waits when the control task handles it: before that the signal wakes nobody and is gone,
and the tasks of later PLAYs leave the pipeline as it is.
-/
namespace KmControl.StartSignal

open StartUp

variable {floor : Context → ℕ}

def Started (s : State) : Prop := ∃ ctx, s.waiter = Waiter.running ctx

/-- The waiter has been woken, and may have reached its loop. -/
def Woken (s : State) : Prop := ∃ ctx, s.waiter = Waiter.woken ctx ∨ s.waiter = Waiter.running ctx

/-- The StartB has been handled, and the host will not start its stream by itself. -/
def Lost (s : State) : Prop := s.startB = true ∧ AtRest s ∧ ¬ Started s

/-- When the control task handles the StartB, the waiter waits for it. -/
def Timely (s : State) (op : Op) : Prop :=
  op = Op.startB → s.hooks ≠ [] → s.startB = false → ∃ ctx, s.waiter = Waiter.waiting ctx

theorem woken_congr {s t : State} (h : t.waiter = s.waiter) : Woken t ↔ Woken s := by
  unfold Woken
  rw [h]

variable (floor) in
/-- No step but the one that handles the StartB wakes the waiter, or undoes that. -/
theorem woken_step_of_not_handled {s : State} (hs : Single s) (op : Op)
    (hop : op = Op.startB → s.hooks = [] ∨ s.startB = true) :
    (step floor s op).startB = s.startB ∧ (Woken (step floor s op) ↔ Woken s) := by
  cases op with
  | play ctx => exact ⟨rfl, woken_congr rfl⟩
  | hook i =>
    change (s.hook i).startB = _ ∧ (Woken (s.hook i) ↔ _)
    obtain ⟨hstart, hw | ⟨hstarting, ctx, hw⟩⟩ := hook_cases s i
    · exact ⟨hstart, woken_congr hw⟩
    · have habsent : s.waiter = Waiter.absent := by
        by_contra hne
        exact hs.after hne i hstarting
      refine ⟨hstart, ?_⟩
      unfold Woken
      rw [hw, habsent]
      simp
  | wait =>
    change (s.wait floor).startB = _ ∧ (Woken (s.wait floor) ↔ _)
    rcases wait_cases floor s with heq | ⟨ctx, hw, heq⟩ | ⟨ctx, hw, hrun, -, -, hstart⟩
    · rw [heq]
      exact ⟨rfl, Iff.rfl⟩
    · rw [heq]
      refine ⟨rfl, ?_⟩
      unfold Woken
      rw [hw]
      simp
    · refine ⟨hstart, ?_⟩
      unfold Woken
      rw [hrun, hw]
      simp
  | startB =>
    change s.handleStartB.startB = _ ∧ (Woken s.handleStartB ↔ _)
    rcases handleStartB_cases s with ⟨heq, -⟩ | ⟨-, hhooks, hstart⟩
    · rw [heq]
      exact ⟨rfl, Iff.rfl⟩
    · rcases hop rfl with hnone | hdone
      · exact absurd hnone hhooks
      · rw [hstart] at hdone
        cases hdone

/-- The StartB wakes the waiter only if it waits. -/
theorem woken_handleStartB {s : State} (hhooks : s.hooks ≠ []) (hstart : s.startB = false) :
    s.handleStartB.startB = true ∧
      (Woken s.handleStartB ↔ Woken s ∨ ∃ ctx, s.waiter = Waiter.waiting ctx) := by
  rcases handleStartB_cases s with ⟨-, hnone | hdone⟩ | ⟨heq, -⟩
  · exact absurd hnone hhooks
  · rw [hstart] at hdone
    cases hdone
  · rw [heq]
    refine ⟨rfl, ?_⟩
    rcases trigger_cases s with ⟨ctx, hw, ht⟩ | ⟨hno, ht⟩
    · rw [ht]
      exact ⟨fun _ => Or.inr ⟨ctx, hw⟩, fun _ => ⟨ctx, Or.inl rfl⟩⟩
    · rw [ht]
      constructor
      · exact Or.inl
      · intro h
        rcases h with hwoken | ⟨ctx, hw⟩
        · exact hwoken
        · exact absurd hw (hno ctx)

/-- Before the StartB is handled the waiter is not woken; afterwards it has been woken if
and only if it was waiting then. -/
theorem woken_run (ops : List Op) :
    (((machine floor).run ops).startB = false →
      (machine floor).Along Timely ops ∧ ¬ Woken ((machine floor).run ops)) ∧
    (((machine floor).run ops).startB = true →
      (Woken ((machine floor).run ops) ↔ (machine floor).Along Timely ops)) := by
  induction ops using List.reverseRecOn with
  | nil =>
    refine ⟨fun _ => ⟨Machine.forall_step_nil, fun h => ?_⟩, fun h => by cases h⟩
    obtain ⟨ctx, h | h⟩ := h <;> cases h
  | append_singleton ops op ih =>
    rw [Machine.run_concat, Machine.along_concat]
    change ((step floor _ op).startB = false → _ ∧ ¬ Woken (step floor _ op)) ∧
      ((step floor _ op).startB = true → (Woken (step floor _ op) ↔ _))
    have hsingle : Single ((machine floor).run ops) := single_run ops
    generalize (machine floor).run ops = s at ih hsingle ⊢
    by_cases hhandled : op = Op.startB ∧ s.hooks ≠ [] ∧ s.startB = false
    · obtain ⟨rfl, hhooks, hstart⟩ := hhandled
      obtain ⟨hdone, hwoken⟩ := woken_handleStartB hhooks hstart
      obtain ⟨halong, hbefore⟩ := ih.1 hstart
      change (s.handleStartB.startB = false → _) ∧
        (s.handleStartB.startB = true → (Woken s.handleStartB ↔ _))
      rw [hdone, hwoken]
      refine ⟨fun h => absurd h Bool.noConfusion, fun _ => ⟨fun h => ⟨halong, fun _ _ _ => ?_⟩, ?_⟩⟩
      · exact h.resolve_left hbefore
      · exact fun h => Or.inr (h.2 rfl hhooks hstart)
    · have hop : op = Op.startB → s.hooks = [] ∨ s.startB = true := by
        intro heq
        by_contra hneither
        obtain ⟨hhooks, hstart⟩ := not_or.mp hneither
        exact hhandled ⟨heq, hhooks, by simpa using hstart⟩
      have htimely : Timely s op := fun heq hhooks hstart =>
        absurd ⟨heq, hhooks, hstart⟩ hhandled
      obtain ⟨hstart, hwoken⟩ := woken_step_of_not_handled floor hsingle op hop
      rw [hstart, hwoken, and_iff_left htimely]
      exact ih

/-- Along a run that goes on after the StartB, it stays as timely as it was. -/
theorem along_append_iff {ops : List Op} (h : ((machine floor).run ops).startB = true)
    (more : List Op) : (machine floor).Along Timely (ops ++ more) ↔
      (machine floor).Along Timely ops := by
  induction more using List.reverseRecOn with
  | nil => rw [List.append_nil]
  | append_singleton more op ih =>
    rw [← List.append_assoc, Machine.along_concat, ih, and_iff_left]
    intro _ _ hstart
    have hdone := startB_runFrom floor h more
    rw [← Machine.run_append, hstart] at hdone
    cases hdone

/-- A host at rest that has handled the StartB runs the capture loop if and only if the
waiter was waiting when the StartB was handled. -/
theorem started_iff_timely (ops : List Op) (hstartB : ((machine floor).run ops).startB = true)
    (hrest : AtRest ((machine floor).run ops)) :
    Started ((machine floor).run ops) ↔ (machine floor).Along Timely ops := by
  rw [← (woken_run ops).2 hstartB]
  constructor
  · intro h
    obtain ⟨ctx, hrunning⟩ := h
    exact ⟨ctx, Or.inr hrunning⟩
  · intro h
    obtain ⟨ctx, hwoken | hrunning⟩ := h
    · exact absurd hwoken (hrest.waiter ctx).2
    · exact ⟨ctx, hrunning⟩

/-- No state from the StartB on is lost if and only if the waiter was waiting when the
StartB was handled. -/
theorem never_lost_iff (ops : List Op) (hstartB : ((machine floor).run ops).startB = true) :
    (∀ more, ¬ Lost ((machine floor).run (ops ++ more))) ↔ (machine floor).Along Timely ops := by
  have hdone : ∀ more, ((machine floor).run (ops ++ more)).startB = true := by
    intro more
    rw [Machine.run_append]
    exact startB_runFrom floor hstartB more
  constructor
  · intro h
    obtain ⟨more, hrest⟩ := exists_atRest floor ((machine floor).run ops)
    rw [← Machine.run_append] at hrest
    by_contra htimely
    apply h more
    refine ⟨hdone more, hrest, ?_⟩
    rwa [started_iff_timely _ (hdone more) hrest, along_append_iff hstartB]
  · intro htimely more hlost
    obtain ⟨-, hrest, hstarted⟩ := hlost
    apply hstarted
    rwa [started_iff_timely _ (hdone more) hrest, along_append_iff hstartB]

/-- A session of 1024-byte packets whose StartB comes as soon as its waiter waits. -/
def startBAfterWaiter : List Op :=
  [.play ⟨1024, 0⟩, .hook 0, .hook 0, .hook 0, .hook 0, .wait, .startB]

theorem never_lost_after_waiter :
    ¬ Lost ((machine fun _ => 0).run (startBAfterWaiter ++ [.wait])) := by
  refine (never_lost_iff startBAfterWaiter (by decide)).mpr ?_ [.wait]
  apply Machine.along_of_alongFrom
  have hother : ∀ s op, op ≠ Op.startB → Timely s op := fun s op hne heq => absurd heq hne
  exact ⟨hother _ _ (by decide), hother _ _ (by decide), hother _ _ (by decide),
    hother _ _ (by decide), hother _ _ (by decide), hother _ _ (by decide),
    fun _ _ _ => ⟨⟨1024, 0⟩, rfl⟩, trivial⟩

/-- The StartB comes while the audio starts; the waiter then waits for another. -/
def startBBeforeWaiter : List Op :=
  [.play ⟨1024, 0⟩, .hook 0, .hook 0, .startB, .hook 0, .hook 0, .wait]

theorem startB_lost : Lost ((machine fun _ => 0).run startBBeforeWaiter) := by
  refine ⟨rfl, ⟨?_, ?_⟩, ?_⟩
  · decide
  · exact fun _ => ⟨Waiter.noConfusion, Waiter.noConfusion⟩
  · intro h
    obtain ⟨ctx, hrunning⟩ := h
    exact Waiter.noConfusion hrunning

end KmControl.StartSignal
