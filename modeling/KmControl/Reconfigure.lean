import KmControl.BitrateSteps
import KmControl.Interleaving

/-!
A reset of the bitrate controller while the tasks of the pipeline go on calling it.
The reset stores the new ceiling, floor and target before it takes the lock, so a call
that is inside the lock then may put a target of the session before over the new one.
-/
namespace KmControl.Reconfigure

open Atomics Bitrate BitrateSteps Interleaving

/-- The task of the second PLAY, and any number of others. -/
inductive Party where
  | configurer
  | caller (i : ℕ)
deriving DecidableEq, Repr

structure State where
  world : World Party Reg Timing
  /-- The call that each caller has made last. -/
  call : ℕ → Call

inductive Op where
  | call (i : ℕ) (c : Call)
  | step (p : Party) (now : ℕ)

/-- The party that an operation is about. -/
def Op.party : Op → Party
  | .call i _ => .caller i
  | .step p _ => p

def startCall (half : ℕ → ℚ) (s : State) (i : ℕ) (c : Call) : State :=
  if (s.world.task (.caller i)).prog.Returned then
    { world := s.world.start (.caller i) (c.prog half), call := Function.update s.call i c }
  else s

/-- The first session has been configured, the callers are idle, and the reset for the
second one is about to begin. -/
def machine (half : ℕ → ℚ) (firstBps ceilingBps : UInt32) (start : ℕ) : Machine State Op where
  init :=
    { world :=
        { mem := (exec start (configure firstBps) (new start)).2, holder := none
          task := fun
            | .configurer => ⟨configure ceilingBps, fun _ => 0⟩
            | .caller _ => ⟨.ret (), fun _ => 0⟩ }
      call := fun _ => .pollTarget }
  step s
    | .call i c => startCall half s i c
    | .step p now => { s with world := s.world.step p now }

def regs (s : State) : Reg → ℕ := s.world.mem.regs

def prog (s : State) (p : Party) : Prog Reg Timing Unit := (s.world.task p).prog

/-- The reset and every call that has begun have returned. -/
def Quiet (s : State) : Prop := ∀ p, (prog s p).Returned

/-- `min <= target <= learned_ceiling <= probe_cap <= max`, and the maximum is the new one. -/
def Fresh (ceilingBps : UInt32) (s : State) : Prop :=
  regs s .min ≤ regs s .target ∧ regs s .target ≤ regs s .learnedCeiling ∧
    regs s .learnedCeiling ≤ regs s .probeCap ∧ regs s .probeCap ≤ regs s .max ∧
      regs s .max = Nat.max ceilingBps.toNat 1000000

/-- A call that stores a target while the reset has stored its own and waits for the lock has
not read more than the new ceiling: a poll as the maximum, any other call as the target. -/
def Timely (s : State) : Op → Prop
  | .step (.caller i) _ => (prog s (.caller i)).storing = some Reg.target →
    (prog s .configurer).Waiting →
      (s.world.task (.caller i)).reads (limit (s.call i)) ≤ regs s .max
  | _ => True

instance (s : State) (op : Op) : Decidable (Timely s op) := by
  cases op with
  | call => exact isTrue trivial
  | step p now =>
    cases p with
    | configurer => exact isTrue trivial
    | caller i => exact inferInstanceAs (Decidable (_ → _ → _))

/-- The registers between the reset's first stores and its end. -/
structure Under (ceiling : ℕ) (regs : Reg → ℕ) : Prop where
  min_eq : regs .min = floorBps
  le_target : floorBps ≤ regs .target
  target_le : regs .target ≤ ceiling
  max_eq : regs .max = ceiling

/-- How far the reset has come. -/
inductive Stage (ceiling : ℕ) (w : World Party Reg Timing) : Prop
  | begun (hfree : w.holder ≠ some .configurer)
      (hprog : (w.task .configurer).prog = .store .max ceiling (.store .min (Nat.min floorBps ceiling)
        (.store .target (startOf ceiling) (.lock fun _ => resetInside ceiling))))
  | maxStored (hfree : w.holder ≠ some .configurer)
      (hprog : (w.task .configurer).prog = .store .min (Nat.min floorBps ceiling)
        (.store .target (startOf ceiling) (.lock fun _ => resetInside ceiling)))
      (hmax : w.mem.regs .max = ceiling)
  | minStored (hfree : w.holder ≠ some .configurer)
      (hprog : (w.task .configurer).prog =
        .store .target (startOf ceiling) (.lock fun _ => resetInside ceiling))
      (hmax : w.mem.regs .max = ceiling)
  | waiting (hfree : w.holder ≠ some .configurer)
      (hprog : (w.task .configurer).prog = .lock fun _ => resetInside ceiling)
      (hunder : Under ceiling w.mem.regs)
  | inside (hheld : w.holder = some .configurer) (hunder : Under ceiling w.mem.regs)
      (hprog : Finishing (Under ceiling) (Bounded ceiling ceiling) w.mem.regs
        (w.task .configurer).prog)
  | done (hfree : w.holder ≠ some .configurer) (hprog : (w.task .configurer).prog.Returned)
      (hbounded : Bounded ceiling ceiling w.mem.regs)

/-- Where a caller stands: outside the lock, or inside it after or before the reset. -/
structure CallerOk (ceiling : ℕ) (w : World Party Reg Timing) (r : Reg) (i : ℕ) : Prop where
  outside : w.holder ≠ some (.caller i) →
    Entering Possible (Inside r) (w.task (.caller i)).reads (w.task (.caller i)).prog
  after : w.holder = some (.caller i) → (w.task .configurer).prog.Returned →
    Critical (Bounded ceiling ceiling) w.mem.regs (w.task (.caller i)).prog
  before : w.holder = some (.caller i) → ¬ (w.task .configurer).prog.Returned →
    Exposed Possible (Allowed r) (w.task (.caller i)).reads (w.task (.caller i)).prog

structure Inv (ceiling : ℕ) (w : World Party Reg Timing) (call : ℕ → Call) : Prop where
  min_eq : w.mem.regs .min = floorBps
  le_target : floorBps ≤ w.mem.regs .target
  stage : Stage ceiling w
  callers : ∀ i, CallerOk ceiling w (limit (call i)) i

theorem Inv.possible {ceiling : ℕ} {w : World Party Reg Timing} {call : ℕ → Call}
    (h : Inv ceiling w call) (r : Reg) : Possible r (w.mem.regs r) := by
  constructor
  · rintro rfl
    exact h.min_eq
  · rintro rfl
    exact h.le_target

/-- A caller that stands outside stays there if nobody gives it the lock; one that is
inside depends on the registers only once the reset is over. -/
theorem CallerOk.frame {ceiling : ℕ} {w w' : World Party Reg Timing} {r : Reg} {i : ℕ}
    (h : CallerOk ceiling w r i) (htask : w'.task (.caller i) = w.task (.caller i))
    (hholder : w'.holder = some (.caller i) ↔ w.holder = some (.caller i))
    (hinside : w.holder = some (.caller i) →
      ((w'.task .configurer).prog.Returned ↔ (w.task .configurer).prog.Returned) ∧
        ((w.task .configurer).prog.Returned → w'.mem.regs = w.mem.regs)) :
    CallerOk ceiling w' r i := by
  refine ⟨fun hfree => ?_, fun hheld hdone => ?_, fun hheld hdone => ?_⟩
  · rw [htask]
    exact h.outside fun hheld => hfree (hholder.mpr hheld)
  · obtain ⟨hreturned, hregs⟩ := hinside (hholder.mp hheld)
    rw [htask, hregs (hreturned.mp hdone)]
    exact h.after (hholder.mp hheld) (hreturned.mp hdone)
  · obtain ⟨hreturned, -⟩ := hinside (hholder.mp hheld)
    rw [htask]
    exact h.before (hholder.mp hheld) fun hback => hdone (hreturned.mpr hback)

theorem finishing_resetInside {ceiling : ℕ} {regs : Reg → ℕ} (h : Under ceiling regs)
    (htop : ceiling ≤ u32Max) :
    Finishing (Under ceiling) (Bounded ceiling ceiling) regs (resetInside ceiling) := by
  refine fun _ _ _ _ => ⟨?_, ?_, ?_, ?_, trivial⟩
  · exact ⟨h.min_eq, h.le_target, h.target_le, h.max_eq⟩
  · exact ⟨h.min_eq, h.le_target, h.target_le, h.max_eq⟩
  · exact ⟨h.min_eq, h.le_target, h.target_le, h.max_eq⟩
  · exact ⟨h.min_eq, h.min_eq.trans_le h.le_target, h.target_le, Nat.le_refl _, h.max_eq.ge,
      h.max_eq, htop, Nat.le_refl _⟩

/-- Before the reset has the lock it only stores, and the callers do not mind. -/
theorem callers_of_store {ceiling : ℕ} {w : World Party Reg Timing} {call : ℕ → Call}
    (h : Inv ceiling w call) {r : Reg} {v : ℕ} {next : Prog Reg Timing Unit}
    (hprog : (w.task .configurer).prog = .store r v next) (hnext : ¬ next.Returned) (i : ℕ) :
    CallerOk ceiling ({ w with mem := w.mem.store r v }.setTask .configurer
      ⟨next, (w.task .configurer).reads⟩) (limit (call i)) i := by
  refine (h.callers i).frame (World.setTask_task_of_ne _ _ _ (by rintro ⟨⟩)) Iff.rfl fun _ => ?_
  rw [World.setTask_task_self, hprog]
  exact ⟨iff_of_false hnext id, fun hreturned => hreturned.elim⟩

/-- Around a step of the reset that has or takes or gives back the lock all callers are
outside. -/
theorem callers_of_free {ceiling : ℕ} {w w' : World Party Reg Timing} {call : ℕ → Call}
    (h : Inv ceiling w call) (htask : ∀ i, w'.task (.caller i) = w.task (.caller i))
    (hbefore : w.holder = none ∨ w.holder = some .configurer)
    (hafter : w'.holder = none ∨ w'.holder = some .configurer) (i : ℕ) :
    CallerOk ceiling w' (limit (call i)) i := by
  have hout : ∀ holder : Option Party, holder = none ∨ holder = some .configurer →
      holder ≠ some (.caller i) := by
    rintro holder (rfl | rfl) <;> rintro ⟨⟩
  refine (h.callers i).frame (htask i) (iff_of_false (hout _ hafter) (hout _ hbefore)) fun hheld => ?_
  exact absurd hheld (hout _ hbefore)

theorem Inv.step_inside {ceiling : ℕ} {w : World Party Reg Timing} {call : ℕ → Call}
    (h : Inv ceiling w call) (hheld : w.holder = some .configurer)
    (hunder : Under ceiling w.mem.regs)
    (hfinishing : Finishing (Under ceiling) (Bounded ceiling ceiling) w.mem.regs
      (w.task .configurer).prog) (now : ℕ) : Inv ceiling (w.step .configurer now) call := by
  have hothers : ∀ (x : Task Reg Timing) (u : World Party Reg Timing), u.task = w.task → ∀ i,
      (u.setTask .configurer x).task (.caller i) = w.task (.caller i) := by
    intro x u hu i
    rw [World.setTask_task_of_ne _ _ _ (by rintro ⟨⟩), hu]
  have hcallers : ∀ (x : Task Reg Timing) (u : World Party Reg Timing), u.task = w.task →
      u.holder = none ∨ u.holder = some .configurer → ∀ i,
        CallerOk ceiling (u.setTask .configurer x) (limit (call i)) i := fun x u hu hholder i =>
    callers_of_free h (hothers x u hu) (Or.inr hheld) hholder i
  cases hprog : (w.task .configurer).prog with
  | ret | lock =>
    rw [hprog] at hfinishing
    exact hfinishing.elim
  | load r next =>
    rw [hprog] at hfinishing
    rw [World.step_of_load hprog]
    refine ⟨h.min_eq, h.le_target, .inside hheld hunder ?_, hcallers _ _ rfl (Or.inr hheld)⟩
    rw [World.setTask_task_self]
    exact hfinishing
  | store r v next =>
    rw [hprog] at hfinishing
    rw [World.step_of_store hprog]
    obtain ⟨hstored, hrest⟩ := hfinishing
    refine ⟨hstored.min_eq, hstored.le_target, .inside hheld hstored ?_,
      hcallers _ _ rfl (Or.inr hheld)⟩
    rw [World.setTask_task_self]
    exact hrest
  | clock next =>
    rw [hprog] at hfinishing
    rw [World.step_of_clock hprog]
    refine ⟨h.min_eq, h.le_target, .inside hheld hunder ?_, hcallers _ _ rfl (Or.inr hheld)⟩
    rw [World.setTask_task_self]
    exact hfinishing now
  | unlock d next =>
    rw [hprog] at hfinishing
    rw [World.step_of_unlock hprog]
    obtain ⟨hbounded, hreturned⟩ := hfinishing
    refine ⟨h.min_eq, h.le_target, .done (by rintro ⟨⟩) ?_ hbounded, hcallers _ _ rfl (Or.inl rfl)⟩
    rw [World.setTask_task_self]
    exact hreturned

theorem Inv.step_configurer {ceiling : ℕ} {w : World Party Reg Timing} {call : ℕ → Call}
    (h : Inv ceiling w call) (hfloor : floorBps ≤ ceiling) (htop : ceiling ≤ u32Max) (now : ℕ) :
    Inv ceiling (w.step .configurer now) call := by
  cases h.stage with
  | begun hfree hprog =>
    rw [World.step_of_store hprog]
    refine ⟨h.min_eq, h.le_target, .maxStored hfree ?_ rfl, callers_of_store h hprog id⟩
    rw [World.setTask_task_self]
  | maxStored hfree hprog hmax =>
    rw [World.step_of_store hprog]
    refine ⟨Nat.min_eq_left hfloor, h.le_target, .minStored hfree ?_ hmax,
      callers_of_store h hprog id⟩
    rw [World.setTask_task_self]
  | minStored hfree hprog hmax =>
    rw [World.step_of_store hprog]
    have hstart := floorBps_le_startOf hfloor
    refine ⟨h.min_eq, hstart, .waiting hfree ?_ ⟨h.min_eq, hstart, ?_, hmax⟩,
      callers_of_store h hprog id⟩
    · rw [World.setTask_task_self]
    · exact Nat.min_le_right _ _
  | waiting hfree hprog hunder =>
    by_cases hlock : w.holder = none
    · rw [World.step_of_lock hprog hlock]
      refine ⟨h.min_eq, h.le_target, .inside rfl hunder ?_, callers_of_free h ?_ (Or.inl hlock)
        (Or.inr rfl)⟩
      · rw [World.setTask_task_self]
        exact finishing_resetInside hunder htop
      · exact fun i => World.setTask_task_of_ne _ _ _ (by rintro ⟨⟩)
    · rw [World.step_of_locked hprog hlock]
      exact h
  | inside hheld hunder hprog => exact h.step_inside hheld hunder hprog now
  | done hfree hprog hbounded =>
    rw [World.step_of_returned hprog]
    exact h

/-- The stage of the reset does not depend on the callers. -/
theorem Stage.of_eq {ceiling : ℕ} {w w' : World Party Reg Timing} (h : Stage ceiling w)
    (htask : w'.task .configurer = w.task .configurer) (hregs : w'.mem.regs = w.mem.regs)
    (hholder : w'.holder = some .configurer ↔ w.holder = some .configurer) : Stage ceiling w' := by
  cases h with
  | begun hfree hprog => exact .begun (fun hheld => hfree (hholder.mp hheld)) (htask ▸ hprog)
  | maxStored hfree hprog hmax =>
    exact .maxStored (fun hheld => hfree (hholder.mp hheld)) (htask ▸ hprog) (hregs ▸ hmax)
  | minStored hfree hprog hmax =>
    exact .minStored (fun hheld => hfree (hholder.mp hheld)) (htask ▸ hprog) (hregs ▸ hmax)
  | waiting hfree hprog hunder =>
    exact .waiting (fun hheld => hfree (hholder.mp hheld)) (htask ▸ hprog) (hregs ▸ hunder)
  | inside hheld hunder hprog =>
    refine .inside (hholder.mpr hheld) (hregs ▸ hunder) ?_
    rw [htask, hregs]
    exact hprog
  | done hfree hprog hbounded =>
    exact .done (fun hheld => hfree (hholder.mp hheld)) (htask ▸ hprog) (hregs ▸ hbounded)

/-- A step of a caller that stores nothing: the caller gets a new place, perhaps by taking
the lock or giving it back. -/
theorem Inv.advance {ceiling : ℕ} {w w' : World Party Reg Timing} {call call' : ℕ → Call}
    (h : Inv ceiling w call) (i : ℕ) (hregs : w'.mem.regs = w.mem.regs)
    (htask : ∀ p, p ≠ Party.caller i → w'.task p = w.task p)
    (hholder : ∀ p, p ≠ Party.caller i → (w'.holder = some p ↔ w.holder = some p))
    (hcall : ∀ j, j ≠ i → call' j = call j)
    (hown : CallerOk ceiling w' (limit (call' i)) i) : Inv ceiling w' call' := by
  have hreset := htask .configurer (by rintro ⟨⟩)
  refine ⟨hregs ▸ h.min_eq, hregs ▸ h.le_target,
    h.stage.of_eq hreset hregs (hholder _ (by rintro ⟨⟩)), fun j => ?_⟩
  by_cases hj : j = i
  · exact hj ▸ hown
  · have hne : Party.caller j ≠ Party.caller i := fun heq => hj (Party.caller.inj heq)
    rw [hcall j hj]
    refine (h.callers j).frame (htask _ hne) (hholder _ hne) fun _ => ?_
    rw [hreset]
    exact ⟨Iff.rfl, fun _ => hregs⟩

theorem update_target_mem {regs : Reg → ℕ} {r : Reg} {v : ℕ} {Q : ℕ → Prop}
    (hold : Q (regs .target)) (hnew : r = Reg.target → Q v) :
    Q (Function.update regs r v .target) := by
  by_cases hr : r = Reg.target
  · subst hr
    rw [Function.update_self]
    exact hnew rfl
  · rw [Function.update_of_ne fun heq => hr heq.symm]
    exact hold

/-- A store that is allowed and in time leaves the stage as it is. -/
theorem Stage.store {ceiling : ℕ} {w w' : World Party Reg Timing} (h : Stage ceiling w)
    (hnot : w.holder ≠ some .configurer) (hdone : ¬ (w.task .configurer).prog.Returned)
    {reads : Reg → ℕ} {q r : Reg} {v : ℕ} (hallowed : Allowed q reads r v)
    (htimely : r = Reg.target → (w.task .configurer).prog.Waiting → reads q ≤ w.mem.regs .max)
    (htask : w'.task .configurer = w.task .configurer) (hholder : w'.holder = w.holder)
    (hregs : w'.mem.regs = Function.update w.mem.regs r v) : Stage ceiling w' := by
  obtain ⟨hmin, hmax, htarget⟩ := hallowed
  have hkeep : w'.mem.regs .max = w.mem.regs .max := by
    rw [hregs, Function.update_of_ne fun heq => hmax heq.symm]
  cases h with
  | begun hfree hprog => exact .begun (hholder ▸ hfree) (htask ▸ hprog)
  | maxStored hfree hprog htop =>
    exact .maxStored (hholder ▸ hfree) (htask ▸ hprog) (hkeep.trans htop)
  | minStored hfree hprog htop =>
    exact .minStored (hholder ▸ hfree) (htask ▸ hprog) (hkeep.trans htop)
  | waiting hfree hprog hunder =>
    refine .waiting (hholder ▸ hfree) (htask ▸ hprog) ⟨?_, ?_, ?_, hkeep.trans hunder.max_eq⟩
    · rw [hregs, Function.update_of_ne fun heq => hmin heq.symm]
      exact hunder.min_eq
    · rw [hregs]
      exact update_target_mem hunder.le_target fun hr => (htarget hr).1
    · rw [hregs]
      refine update_target_mem (Q := (· ≤ ceiling)) hunder.target_le fun hr => ?_
      refine (htarget hr).2 ceiling (hunder.le_target.trans hunder.target_le) ?_
      have hread := htimely hr (by rw [hprog]; trivial)
      exact hread.trans_eq hunder.max_eq
  | inside hheld => exact absurd hheld hnot
  | done _ hprog => exact absurd hprog hdone

/-- A caller that stores has the lock, so the reset is over or has not yet got it. -/
theorem Inv.store {ceiling : ℕ} {w : World Party Reg Timing} {call : ℕ → Call}
    (h : Inv ceiling w call) {i : ℕ} (hheld : w.holder = some (.caller i)) {r : Reg} {v : ℕ}
    {next : Prog Reg Timing Unit} (hprog : (w.task (.caller i)).prog = .store r v next)
    (htimely : r = Reg.target → (w.task .configurer).prog.Waiting →
      (w.task (.caller i)).reads (limit (call i)) ≤ w.mem.regs .max) :
    Inv ceiling ({ w with mem := w.mem.store r v }.setTask (.caller i)
      ⟨next, (w.task (.caller i)).reads⟩) call := by
  have hnot : w.holder ≠ some .configurer := by
    rw [hheld]
    rintro ⟨⟩
  have hreset := World.setTask_task_of_ne { w with mem := w.mem.store r v } (.caller i)
    ⟨next, (w.task (.caller i)).reads⟩ (u := Party.configurer) (by rintro ⟨⟩)
  have hcallers : ∀ hown : CallerOk ceiling ({ w with mem := w.mem.store r v }.setTask
      (.caller i) ⟨next, (w.task (.caller i)).reads⟩) (limit (call i)) i, ∀ j,
        CallerOk ceiling ({ w with mem := w.mem.store r v }.setTask
          (.caller i) ⟨next, (w.task (.caller i)).reads⟩) (limit (call j)) j := by
    intro hown j
    by_cases hj : j = i
    · exact hj ▸ hown
    · have hne : Party.caller j ≠ Party.caller i := fun heq => hj (Party.caller.inj heq)
      refine (h.callers j).frame (World.setTask_task_of_ne _ _ _ hne) Iff.rfl fun hheld' => ?_
      rw [hheld] at hheld'
      exact absurd (Option.some.inj hheld').symm hne
  by_cases hdone : (w.task .configurer).prog.Returned
  · have hafter := (h.callers i).after hheld hdone
    rw [hprog] at hafter
    obtain ⟨hstored, hrest⟩ := hafter
    refine ⟨hstored.min_eq, hstored.min_eq.ge.trans hstored.min_le,
      .done hnot (hreset ▸ hdone) hstored, hcallers ⟨fun hout => absurd hheld hout, fun _ _ => ?_,
        fun _ hback => absurd (hreset ▸ hdone) hback⟩⟩
    rw [World.setTask_task_self]
    exact hrest
  · have hbefore := (h.callers i).before hheld hdone
    rw [hprog] at hbefore
    obtain ⟨hallowed, hrest⟩ := hbefore
    refine ⟨?_, ?_, h.stage.store hnot hdone hallowed htimely hreset rfl rfl,
      hcallers ⟨fun hout => absurd hheld hout, fun _ hback => ?_, fun _ _ => ?_⟩⟩
    · exact (Function.update_of_ne (fun heq => hallowed.1 heq.symm) _ _).trans h.min_eq
    · exact update_target_mem h.le_target fun hr => (hallowed.2.2 hr).1
    · rw [hreset] at hback
      exact absurd hback hdone
    · rw [World.setTask_task_self]
      exact hrest

/-- The others see nothing of a step that changes only the caller's own place. -/
theorem Inv.setTask {ceiling : ℕ} {w : World Party Reg Timing} {call : ℕ → Call}
    (h : Inv ceiling w call) (i : ℕ) {x : Task Reg Timing}
    (hown : CallerOk ceiling (w.setTask (.caller i) x) (limit (call i)) i) :
    Inv ceiling (w.setTask (.caller i) x) call :=
  h.advance i rfl (fun _ hp => World.setTask_task_of_ne _ _ _ hp) (fun _ _ => Iff.rfl)
    (fun _ _ => rfl) hown

theorem Inv.step_caller {ceiling : ℕ} {w : World Party Reg Timing} {call : ℕ → Call}
    (h : Inv ceiling w call) (i now : ℕ)
    (htimely : (w.task (.caller i)).prog.storing = some Reg.target →
      (w.task .configurer).prog.Waiting →
        (w.task (.caller i)).reads (limit (call i)) ≤ w.mem.regs .max) :
    Inv ceiling (w.step (.caller i) now) call := by
  have hreset : ∀ (u : World Party Reg Timing) (x : Task Reg Timing),
      (u.setTask (.caller i) x).task .configurer = u.task .configurer := fun u x =>
    World.setTask_task_of_ne u _ x (by rintro ⟨⟩)
  obtain ⟨houtside, hafter, hbefore⟩ := h.callers i
  cases hprog : (w.task (.caller i)).prog with
  | ret =>
    rw [World.step_of_returned (by rw [hprog]; trivial)]
    exact h
  | load r next =>
    rw [hprog] at houtside hafter hbefore
    rw [World.step_of_load hprog]
    refine h.setTask i ⟨?_, ?_, ?_⟩ <;> simp only [World.setTask_task_self, hreset,
      World.setTask_holder, World.setTask_mem]
    · exact fun hfree => houtside hfree _ (h.possible r)
    · exact fun hheld hdone => hafter hheld hdone
    · exact fun hheld hdone => hbefore hheld hdone _ (h.possible r)
  | store r v next =>
    rw [World.step_of_store hprog]
    rw [hprog] at houtside htimely
    by_cases hheld : w.holder = some (.caller i)
    · exact h.store hheld hprog fun hr => htimely (congrArg some hr)
    · exact (houtside hheld).elim
  | clock next =>
    rw [hprog] at houtside hafter hbefore
    rw [World.step_of_clock hprog]
    refine h.setTask i ⟨?_, ?_, ?_⟩ <;> simp only [World.setTask_task_self, hreset,
      World.setTask_holder, World.setTask_mem]
    · exact fun hfree => houtside hfree now
    · exact fun hheld hdone => hafter hheld hdone now
    · exact fun hheld hdone => hbefore hheld hdone now
  | lock next =>
    by_cases hlock : w.holder = none
    · rw [hprog] at houtside
      rw [World.step_of_lock hprog hlock]
      have hinside := houtside (by rw [hlock]; rintro ⟨⟩) w.mem.data
      refine h.advance i rfl (fun _ hp => World.setTask_task_of_ne _ _ _ hp) ?_ (fun _ _ => rfl)
        ⟨fun hfree => absurd rfl hfree, ?_, ?_⟩
      · intro p hp
        rw [hlock]
        exact iff_of_false (fun heq => hp (Option.some.inj heq).symm) (by rintro ⟨⟩)
      · intro _ hdone
        rw [hreset] at hdone
        rw [World.setTask_task_self]
        cases h.stage with
        | begun _ hprog' | maxStored _ hprog' | minStored _ hprog' | waiting _ hprog' =>
          rw [hprog'] at hdone
          exact hdone.elim
        | inside hheld => exact absurd (hlock.symm.trans hheld) (by rintro ⟨⟩)
        | done _ _ hbounded => exact hinside.critical _ _ _ hbounded
      · intro _ _
        rw [World.setTask_task_self]
        exact hinside.exposed
    · rw [World.step_of_locked hprog hlock]
      exact h
  | unlock d next =>
    rw [hprog] at houtside hafter hbefore
    rw [World.step_of_unlock hprog]
    by_cases hheld : w.holder = some (.caller i)
    · have hreturned : next.Returned := by
        by_cases hdone : (w.task .configurer).prog.Returned
        · exact hafter hheld hdone
        · exact hbefore hheld hdone
      refine h.advance i rfl (fun _ hp => World.setTask_task_of_ne _ _ _ hp) ?_ (fun _ _ => rfl)
        ⟨fun _ => ?_, by rintro ⟨⟩, by rintro ⟨⟩⟩
      · intro p hp
        rw [hheld]
        exact iff_of_false (by rintro ⟨⟩) fun heq => hp (Option.some.inj heq).symm
      · rw [World.setTask_task_self]
        exact entering_of_returned hreturned _
    · exact (houtside hheld).elim

theorem Inv.startCall {half : ℕ → ℚ} {ceiling : ℕ} {s : State}
    (h : Inv ceiling s.world s.call) (i : ℕ) (c : Call) :
    Inv ceiling (startCall half s i c).world (startCall half s i c).call := by
  unfold Reconfigure.startCall
  split
  · rename_i hreturned
    have hfree : s.world.holder ≠ some (.caller i) := by
      intro hheld
      by_cases hdone : (s.world.task .configurer).prog.Returned
      · exact ((h.callers i).after hheld hdone).not_returned hreturned
      · exact ((h.callers i).before hheld hdone).not_returned hreturned
    unfold World.start
    rw [if_pos hreturned]
    refine h.advance i rfl (fun _ hp => World.setTask_task_of_ne _ _ _ hp) (fun _ _ => Iff.rfl)
      (fun _ hj => Function.update_of_ne hj _ _)
      ⟨fun _ => ?_, fun hheld => absurd hheld hfree, fun hheld => absurd hheld hfree⟩
    rw [World.setTask_task_self]
    dsimp only
    rw [Function.update_self]
    exact entering_prog half c _
  · exact h

section Runs

variable (half : ℕ → ℚ) (firstBps ceilingBps : UInt32) (start : ℕ)

theorem inv_init : Inv (ceilingOf ceilingBps)
    (machine half firstBps ceilingBps start).init.world
      (machine half firstBps ceilingBps start).init.call := by
  have hfirst := exec_configure firstBps start (new start)
  refine ⟨hfirst.min_eq, hfirst.min_eq.ge.trans hfirst.min_le, .begun (by rintro ⟨⟩) rfl,
    fun i => ⟨fun _ => trivial, by rintro ⟨⟩, by rintro ⟨⟩⟩⟩

theorem run_inv (ops : List Op) (h : (machine half firstBps ceilingBps start).Along Timely ops) :
    Inv (ceilingOf ceilingBps) ((machine half firstBps ceilingBps start).run ops).world
      ((machine half firstBps ceilingBps start).run ops).call := by
  refine Machine.run_invariant_along (I := fun s : State => Inv (ceilingOf ceilingBps) s.world s.call)
    (inv_init half firstBps ceilingBps start) (fun s op hinv htimely => ?_) ops h
  cases op with
  | call i c => exact hinv.startCall i c
  | step p now =>
    cases p with
    | configurer =>
      exact hinv.step_configurer (floorBps_le_ceilingOf ceilingBps) (ceilingOf_le ceilingBps) now
    | caller i => exact hinv.step_caller i now htimely

/-- Once the reset and all calls have returned, nothing of the session before is left. -/
theorem fresh_of_timely (ops : List Op)
    (h : (machine half firstBps ceilingBps start).Along Timely ops)
    (hquiet : Quiet ((machine half firstBps ceilingBps start).run ops)) :
    Fresh ceilingBps ((machine half firstBps ceilingBps start).run ops) := by
  have hinv := run_inv half firstBps ceilingBps start ops h
  generalize (machine half firstBps ceilingBps start).run ops = s at hinv hquiet
  have hreturned := hquiet .configurer
  unfold prog at hreturned
  cases hinv.stage with
  | begun _ hprog | maxStored _ hprog | minStored _ hprog | waiting _ hprog =>
    rw [hprog] at hreturned
    exact hreturned.elim
  | inside _ _ hprog => exact absurd hreturned hprog.not_returned
  | done _ _ hbounded =>
    exact ⟨hbounded.min_le, hbounded.target_le, hbounded.learned_le, hbounded.probe_le,
      hbounded.max_eq⟩

end Runs

/-- So many steps of a party, three seconds into the first session. -/
def steps (p : Party) (n : ℕ) : List Op := List.replicate n (.step p 8000000000)

/-- A poll reads the limits of the first session; it goes on when the reset is over. -/
def timelyReset : List Op :=
  [.call 0 .pollTarget] ++ steps (.caller 0) 3 ++ steps .configurer 12 ++ steps (.caller 0) 9

/-- A poll has decided on a new target when the reset begins; it stores it when the reset
has stored its own. -/
def hastyReset : List Op :=
  [.call 0 .pollTarget] ++ steps (.caller 0) 7 ++ steps .configurer 3 ++ steps (.caller 0) 2 ++
    steps .configurer 9

theorem run_task_of_ne {half : ℕ → ℚ} {firstBps ceilingBps : UInt32} {start : ℕ} {ops : List Op}
    {p : Party} (h : ∀ op ∈ ops, op.party ≠ p) :
    prog ((machine half firstBps ceilingBps start).run ops) p =
      prog (machine half firstBps ceilingBps start).init p := by
  induction ops using List.reverseRecOn with
  | nil => rfl
  | append_singleton ops op ih =>
    have hop := h op (List.mem_append_right _ List.mem_cons_self)
    rw [Machine.run_concat, ← ih fun o ho => h o (List.mem_append_left _ ho)]
    refine congrArg Task.prog ?_
    cases op with
    | call i c =>
      change (startCall _ _ _ _).world.task p = _
      unfold startCall
      split
      · exact World.start_task_of_ne _ _ (fun heq => hop heq.symm) _
      · rfl
    | step q now => exact World.step_task_of_ne _ _ (fun heq => hop heq.symm) now

/-- With one caller it is enough to look at two parties. -/
theorem quiet_of_one_caller {half : ℕ → ℚ} {firstBps ceilingBps : UInt32} {start : ℕ}
    {ops : List Op} (h : ∀ op ∈ ops, op.party = .configurer ∨ op.party = .caller 0)
    (hreset : (prog ((machine half firstBps ceilingBps start).run ops) .configurer).Returned)
    (hcaller : (prog ((machine half firstBps ceilingBps start).run ops) (.caller 0)).Returned) :
    Quiet ((machine half firstBps ceilingBps start).run ops) := by
  intro p
  cases p with
  | configurer => exact hreset
  | caller i =>
    cases i with
    | zero => exact hcaller
    | succ i =>
      rw [run_task_of_ne fun op hop => ?_]
      · trivial
      · rcases h op hop with heq | heq <;> rw [heq] <;> rintro ⟨⟩

theorem fresh_after_timelyReset :
    Fresh 1000000 ((machine halvings 20000000 1000000 5000000000).run timelyReset) :=
  fresh_of_timely halvings 20000000 1000000 5000000000 timelyReset
    (Machine.along_of_alongFrom (by decide +kernel))
    (quiet_of_one_caller (by decide +kernel) (by decide +kernel) (by decide +kernel))

theorem stale_after_hastyReset : ¬ ∀ half firstBps ceilingBps start ops,
    Quiet ((machine half firstBps ceilingBps start).run ops) →
      Fresh ceilingBps ((machine half firstBps ceilingBps start).run ops) := by
  intro h
  have hfresh := h halvings 20000000 1000000 5000000000 hastyReset
    (quiet_of_one_caller (by decide +kernel) (by decide +kernel) (by decide +kernel))
  have hle := hfresh.2.1
  revert hle
  decide +kernel

end KmControl.Reconfigure
