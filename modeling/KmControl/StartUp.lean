import KmControl.Machine
import Mathlib.Algebra.GroupWithZero.Nat
import Mathlib.Data.Nat.Notation

/-!
How the host starts its stream. Every PLAY spawns a task; the first of them to run
binds the video socket, starts the audio, and spawns a waiter for the client's StartB,
which the control task passes on by waking whoever waits at that moment. Binding and
audio succeed, and the dummy generator is off.
-/
namespace KmControl.StartUp

/-- What the start-up reads of a session's negotiated parameters. -/
structure Context where
  packetSize : ℕ
  bitrateBps : ℕ
deriving DecidableEq, Repr

/-- Where the task of a PLAY stands: not run yet, or about to bind the video socket, to
start the audio, or to spawn the waiter. -/
inductive Phase where
  | spawned
  | binding
  | audio
  | spawning
  | returned
deriving DecidableEq, Repr

structure Hook where
  ctx : Context
  phase : Phase
deriving DecidableEq, Repr

/-- Where the waiter stands. It is `waiting` from when it has made its `Notified`, and
`running` in the loop that starts and stops the capture. -/
inductive Waiter where
  | absent
  | spawned (ctx : Context)
  | waiting (ctx : Context)
  | woken (ctx : Context)
  | running (ctx : Context)
deriving DecidableEq, Repr

structure State where
  /-- The tasks of all PLAYs so far. -/
  hooks : List Hook
  pipelineStarted : Bool
  sessionReset : Bool
  idrReq : Bool
  /-- The packet size that the video socket was set up with. -/
  video : Option ℕ
  audio : Bool
  /-- The ceilings that the bitrate controller was configured with. -/
  ceilings : List ℕ
  waiter : Waiter
  /-- The control task has handled the StartB of the session. -/
  startB : Bool
deriving DecidableEq

inductive Op where
  | play (ctx : Context)
  /-- The next step of the task of a PLAY. -/
  | hook (i : ℕ)
  | wait
  | startB
deriving DecidableEq

/-- A bitrate of 0 has not been negotiated. -/
def negotiated (ctx : Context) : ℕ := if ctx.bitrateBps = 0 then 15000000 else ctx.bitrateBps

namespace State

def new : State where
  hooks := []
  pipelineStarted := false
  sessionReset := false
  idrReq := false
  video := none
  audio := false
  ceilings := []
  waiter := Waiter.absent
  startB := false

def setPhase (s : State) (i : ℕ) (h : Hook) (phase : Phase) : State :=
  { s with hooks := s.hooks.set i { h with phase := phase } }

/-- Only the first task to run finds no pipeline; any other treats its PLAY as a change
of sessions. -/
def hook (s : State) (i : ℕ) : State :=
  match s.hooks[i]? with
  | none => s
  | some h =>
    match h.phase with
    | .spawned =>
      if s.pipelineStarted then
        { s with
          sessionReset := true
          idrReq := true
          ceilings := s.ceilings ++ [negotiated h.ctx] }.setPhase i h .returned
      else { s with pipelineStarted := true }.setPhase i h .binding
    | .binding =>
      { s with
        video := some (if h.ctx.packetSize = 0 then 1024 else h.ctx.packetSize) }.setPhase i h .audio
    | .audio => { s with audio := true }.setPhase i h .spawning
    | .spawning => { s with waiter := .spawned h.ctx }.setPhase i h .returned
    | .returned => s

/-- The waiter; `floor` is the least bitrate for the size of the picture. -/
def wait (floor : Context → ℕ) (s : State) : State :=
  match s.waiter with
  | .spawned ctx => { s with waiter := .waiting ctx }
  | .woken ctx =>
    { s with waiter := .running ctx, ceilings := s.ceilings ++ [max (negotiated ctx) (floor ctx)] }
  | .absent | .waiting _ | .running _ => s

/-- `notify_waiters` wakes who waits now, and leaves nothing for who comes later. -/
def trigger (s : State) : State :=
  match s.waiter with
  | .waiting ctx => { s with waiter := .woken ctx }
  | .absent | .spawned _ | .woken _ | .running _ => s

/-- The client sends StartB once in its session, after its PLAY. -/
def handleStartB (s : State) : State :=
  if s.hooks = [] ∨ s.startB = true then s else { s.trigger with startB := true }

end State

def step (floor : Context → ℕ) (s : State) : Op → State
  | .play ctx => { s with hooks := s.hooks ++ [⟨ctx, .spawned⟩] }
  | .hook i => s.hook i
  | .wait => s.wait floor
  | .startB => s.handleStartB

def machine (floor : Context → ℕ) : Machine State Op where
  init := State.new
  step := step floor

/-- The task of a PLAY that is between its look at the pipeline and its return, having
found none. -/
def Starting (s : State) (i : ℕ) : Prop :=
  ∃ h, s.hooks[i]? = some h ∧ h.phase ≠ Phase.spawned ∧ h.phase ≠ Phase.returned

/-- At most one task starts the pipeline, and none does once there is a waiter. -/
structure Single (s : State) : Prop where
  before : s.pipelineStarted = false → (∀ i, ¬ Starting s i) ∧ s.waiter = Waiter.absent
  unique : ∀ i j, Starting s i → Starting s j → i = j
  after : s.waiter ≠ Waiter.absent → ∀ i, ¬ Starting s i

theorem starting_setPhase {s : State} {i j : ℕ} {h : Hook} {phase : Phase}
    (hi : s.hooks[i]? = some h) : Starting (s.setPhase i h phase) j ↔
      if i = j then phase ≠ Phase.spawned ∧ phase ≠ Phase.returned else Starting s j := by
  have hlt : i < s.hooks.length := (List.getElem?_eq_some_iff.mp hi).1
  unfold Starting State.setPhase
  rw [List.getElem?_set]
  by_cases hij : i = j
  · subst hij
    simp [hlt]
  · simp [hij]

/-- A step within the start-up: the task goes on and all else that counts stays. -/
theorem Single.goOn {s t : State} (hs : Single s) {i : ℕ} {h : Hook} {phase : Phase}
    (hi : s.hooks[i]? = some h) (hstarting : Starting s i)
    (ht : t.hooks = (s.setPhase i h phase).hooks) (hpipeline : t.pipelineStarted = s.pipelineStarted)
    (hwaiter : t.waiter = s.waiter) : Single t := by
  have hiff : ∀ j, Starting t j → Starting s j := by
    intro j hj
    have hset : Starting (s.setPhase i h phase) j := by
      unfold Starting at hj ⊢
      rw [← ht]
      exact hj
    rw [starting_setPhase hi] at hset
    split at hset
    · rename_i hij
      exact hij ▸ hstarting
    · exact hset
  refine ⟨fun hno => ?_, fun j k hj hk => hs.unique j k (hiff j hj) (hiff k hk), fun hw j hj => ?_⟩
  · rw [hpipeline] at hno
    exact absurd hstarting ((hs.before hno).1 i)
  · rw [hwaiter] at hw
    exact hs.after hw j (hiff j hj)

theorem Single.hook {s : State} (hs : Single s) (i : ℕ) : Single (s.hook i) := by
  unfold State.hook
  cases hi : s.hooks[i]? with
  | none => exact hs
  | some h =>
    have hstart : h.phase ≠ Phase.spawned → h.phase ≠ Phase.returned → Starting s i :=
      fun hspawned hreturned => ⟨h, hi, hspawned, hreturned⟩
    dsimp only
    cases hphase : h.phase with
    | spawned =>
      dsimp only
      by_cases hstarted : s.pipelineStarted = true
      · rw [if_pos hstarted]
        have hsame : ∀ j, Starting (s.setPhase i h Phase.returned) j → Starting s j := by
          intro j hj
          rw [starting_setPhase hi] at hj
          split at hj
          · exact absurd rfl hj.2
          · exact hj
        refine ⟨fun hno => ?_, fun j k hj hk => hs.unique j k (hsame j hj) (hsame k hk),
          fun hw j hj => hs.after hw j (hsame j hj)⟩
        rw [show s.pipelineStarted = false from hno] at hstarted
        cases hstarted
      · rw [if_neg hstarted]
        obtain ⟨hnone, habsent⟩ := hs.before (by simpa using hstarted)
        have honly : ∀ j, Starting (s.setPhase i h Phase.binding) j → i = j := by
          intro j hj
          rw [starting_setPhase hi] at hj
          by_contra hij
          rw [if_neg hij] at hj
          exact hnone j hj
        refine ⟨fun hno => ?_, fun j k hj hk => (honly j hj).symm.trans (honly k hk),
          fun hw => absurd habsent hw⟩
        cases hno
    | binding =>
      exact hs.goOn hi (hstart (by rw [hphase]; decide) (by rw [hphase]; decide)) rfl rfl rfl
    | audio =>
      exact hs.goOn hi (hstart (by rw [hphase]; decide) (by rw [hphase]; decide)) rfl rfl rfl
    | spawning =>
      have hstarting : Starting s i := hstart (by rw [hphase]; decide) (by rw [hphase]; decide)
      have hnone : ∀ j, ¬ Starting (s.setPhase i h Phase.returned) j := by
        intro j hj
        rw [starting_setPhase hi] at hj
        split at hj
        · exact absurd rfl hj.2
        · rename_i hij
          exact hij (hs.unique i j hstarting hj)
      refine ⟨fun hno => absurd hstarting ((hs.before hno).1 i),
        fun j k hj _ => absurd hj (hnone j), fun _ j hj => hnone j hj⟩
    | returned => exact hs

theorem Single.play {s : State} (hs : Single s) (ctx : Context) :
    Single { s with hooks := s.hooks ++ [⟨ctx, .spawned⟩] } := by
  have hsame : ∀ j, Starting { s with hooks := s.hooks ++ [⟨ctx, .spawned⟩] } j → Starting s j := by
    intro j hj
    obtain ⟨h, hget, hspawned, hreturned⟩ := hj
    refine ⟨h, ?_, hspawned, hreturned⟩
    rcases Nat.lt_or_ge j s.hooks.length with hlt | hge
    · rwa [List.getElem?_append_left hlt] at hget
    · rw [List.getElem?_append_right hge] at hget
      obtain ⟨hlt, rfl⟩ := List.getElem?_eq_some_iff.mp hget
      simp at hspawned
  exact ⟨fun hno => ⟨fun j hj => (hs.before hno).1 j (hsame j hj), (hs.before hno).2⟩,
    fun j k hj hk => hs.unique j k (hsame j hj) (hsame k hk),
    fun hw j hj => hs.after hw j (hsame j hj)⟩

/-- Steps of the waiter and of the control task leave the start-up alone. -/
theorem Single.of_same {s t : State} (hs : Single s) (hhooks : t.hooks = s.hooks)
    (hpipeline : t.pipelineStarted = s.pipelineStarted)
    (habsent : t.waiter = Waiter.absent ↔ s.waiter = Waiter.absent) : Single t := by
  have hiff : ∀ j, Starting t j ↔ Starting s j := by
    intro j
    unfold Starting
    rw [hhooks]
  refine ⟨fun hno => ?_, fun j k hj hk => hs.unique j k ((hiff j).mp hj) ((hiff k).mp hk),
    fun hw j hj => hs.after (fun h => hw (habsent.mpr h)) j ((hiff j).mp hj)⟩
  rw [hpipeline] at hno
  obtain ⟨hnone, hw⟩ := hs.before hno
  exact ⟨fun j hj => hnone j ((hiff j).mp hj), habsent.mpr hw⟩

/-- What the control task does with a StartB, unless it is too early or has been done. -/
theorem handleStartB_cases (s : State) :
    s.handleStartB = s ∧ (s.hooks = [] ∨ s.startB = true) ∨
      s.handleStartB = { s.trigger with startB := true } ∧ s.hooks ≠ [] ∧ s.startB = false := by
  unfold State.handleStartB
  split
  · rename_i h
    exact Or.inl ⟨rfl, h⟩
  · rename_i h
    obtain ⟨hhooks, hstart⟩ := not_or.mp h
    exact Or.inr ⟨rfl, hhooks, by simpa using hstart⟩

theorem trigger_cases (s : State) :
    (∃ ctx, s.waiter = Waiter.waiting ctx ∧ s.trigger = { s with waiter := .woken ctx }) ∨
      (∀ ctx, s.waiter ≠ Waiter.waiting ctx) ∧ s.trigger = s := by
  unfold State.trigger
  cases hw : s.waiter with
  | waiting ctx => exact Or.inl ⟨ctx, rfl, rfl⟩
  | absent | spawned | woken | running => exact Or.inr ⟨fun _ h => Waiter.noConfusion h, rfl⟩

/-- The waiter goes from one of its places to the next. -/
theorem wait_cases (floor : Context → ℕ) (s : State) :
    s.wait floor = s ∨
      (∃ ctx, s.waiter = Waiter.spawned ctx ∧ s.wait floor = { s with waiter := .waiting ctx }) ∨
      ∃ ctx, s.waiter = Waiter.woken ctx ∧ (s.wait floor).waiter = Waiter.running ctx ∧
        (s.wait floor).hooks = s.hooks ∧ (s.wait floor).pipelineStarted = s.pipelineStarted ∧
        (s.wait floor).startB = s.startB := by
  unfold State.wait
  cases hw : s.waiter with
  | spawned ctx => exact Or.inr (Or.inl ⟨ctx, rfl, rfl⟩)
  | woken ctx => exact Or.inr (Or.inr ⟨ctx, rfl, rfl, rfl, rfl, rfl⟩)
  | absent | waiting | running => exact Or.inl rfl

/-- Of the tasks of the PLAYs only the one that starts the pipeline makes a waiter. -/
theorem hook_cases (s : State) (i : ℕ) : (s.hook i).startB = s.startB ∧
    ((s.hook i).waiter = s.waiter ∨
      Starting s i ∧ ∃ ctx, (s.hook i).waiter = Waiter.spawned ctx) := by
  unfold State.hook
  cases hi : s.hooks[i]? with
  | none => exact ⟨rfl, Or.inl rfl⟩
  | some h =>
    dsimp only
    cases hphase : h.phase with
    | spawned =>
      dsimp only
      split
      · exact ⟨rfl, Or.inl rfl⟩
      · exact ⟨rfl, Or.inl rfl⟩
    | binding | audio | returned => exact ⟨rfl, Or.inl rfl⟩
    | spawning =>
      refine ⟨rfl, Or.inr ⟨⟨h, hi, ?_, ?_⟩, h.ctx, rfl⟩⟩
      · rw [hphase]
        apply Phase.noConfusion
      · rw [hphase]
        apply Phase.noConfusion

variable {floor : Context → ℕ}

theorem Single.step {s : State} (hs : Single s) (op : Op) : Single (step floor s op) := by
  cases op with
  | play ctx => exact hs.play ctx
  | hook i => exact hs.hook i
  | wait =>
    change Single (s.wait floor)
    rcases wait_cases floor s with heq | ⟨ctx, hw, heq⟩ | ⟨ctx, hw, hrun, hhooks, hpipeline, -⟩
    · rwa [heq]
    · rw [heq]
      refine hs.of_same (t := { s with waiter := .waiting ctx }) rfl rfl ?_
      rw [hw]
      simp
    · apply hs.of_same hhooks hpipeline
      rw [hw, hrun]
      simp
  | startB =>
    change Single s.handleStartB
    rcases handleStartB_cases s with ⟨heq, -⟩ | ⟨heq, -⟩
    · rwa [heq]
    · rw [heq]
      rcases trigger_cases s with ⟨ctx, hw, ht⟩ | ⟨-, ht⟩
      · rw [ht]
        refine hs.of_same (t := { s with waiter := .woken ctx, startB := true }) rfl rfl ?_
        rw [hw]
        simp
      · rw [ht]
        exact hs.of_same (t := { s with startB := true }) rfl rfl Iff.rfl

theorem single_run (ops : List Op) : Single ((machine floor).run ops) := by
  apply (machine floor).run_invariant
  · refine ⟨fun _ => ⟨fun i hi => ?_, rfl⟩, fun i j hi => ?_, fun hw => absurd rfl hw⟩
    · obtain ⟨h, hget, -⟩ := hi
      cases hget
    · obtain ⟨h, hget, -⟩ := hi
      cases hget
  · exact fun s op hs => hs.step op

/-- No task of the host has a step left but to wait for the client. -/
structure AtRest (s : State) : Prop where
  hooks : ∀ h ∈ s.hooks, h.phase = Phase.returned
  waiter : ∀ ctx, s.waiter ≠ Waiter.spawned ctx ∧ s.waiter ≠ Waiter.woken ctx

/-- How many steps a task has left at most, its waiter's included. -/
def Phase.left : Phase → ℕ
  | .spawned => 5
  | .binding => 4
  | .audio => 3
  | .spawning => 2
  | .returned => 0

def Waiter.left : Waiter → ℕ
  | .spawned _ | .woken _ => 1
  | .absent | .waiting _ | .running _ => 0

def left (s : State) : ℕ := (s.hooks.map fun h => h.phase.left).sum + s.waiter.left

/-- A task goes on, and the rest of the start-up with it, by fewer steps than it had left. -/
theorem left_lt_of_setPhase {s t : State} {i : ℕ} {h : Hook} {phase : Phase}
    (hi : s.hooks[i]? = some h) (ht : t.hooks = (s.setPhase i h phase).hooks)
    (hlt : phase.left + t.waiter.left < h.phase.left + s.waiter.left) : left t < left s := by
  obtain ⟨hi', hget⟩ := List.getElem?_eq_some_iff.mp hi
  have hsplit : s.hooks = s.hooks.take i ++ h :: s.hooks.drop (i + 1) := by
    rw [← hget, List.getElem_cons_drop, List.take_append_drop]
  have hset : t.hooks = s.hooks.take i ++ { h with phase := phase } :: s.hooks.drop (i + 1) := by
    rw [ht]
    exact List.set_eq_take_append_cons_drop.trans (if_pos hi')
  unfold left
  rw [hset, hsplit]
  simp only [List.map_append, List.map_cons, List.sum_append, List.sum_cons]
  rw [← hsplit]
  omega

theorem left_hook_lt {s : State} {i : ℕ} {h : Hook} (hi : s.hooks[i]? = some h)
    (hphase : h.phase ≠ Phase.returned) : left (s.hook i) < left s := by
  unfold State.hook
  rw [hi]
  dsimp only
  cases hp : h.phase with
  | spawned =>
    dsimp only
    split
    · apply left_lt_of_setPhase hi rfl
      rw [hp]
      exact Nat.add_lt_add_right (by decide) _
    · apply left_lt_of_setPhase hi rfl
      rw [hp]
      exact Nat.add_lt_add_right (by decide) _
  | binding | audio =>
    apply left_lt_of_setPhase hi rfl
    rw [hp]
    exact Nat.add_lt_add_right (by decide) _
  | spawning =>
    refine left_lt_of_setPhase (t := { s with waiter := .spawned h.ctx }.setPhase i h .returned) hi rfl ?_
    rw [hp]
    change 0 + 1 < 2 + s.waiter.left
    omega
  | returned => exact absurd hp hphase

theorem left_wait_lt {s : State} {ctx : Context}
    (hw : s.waiter = Waiter.spawned ctx ∨ s.waiter = Waiter.woken ctx) :
    left (s.wait floor) < left s := by
  unfold State.wait
  rcases hw with hw | hw
  · rw [hw]
    unfold left
    rw [hw]
    exact Nat.lt_succ_self _
  · rw [hw]
    unfold left
    rw [hw]
    exact Nat.lt_succ_self _

variable (floor)

/-- Left to itself, the host comes to rest. -/
theorem exists_atRest (s : State) : ∃ more, AtRest ((machine floor).runFrom s more) := by
  by_cases hhooks : ∀ h ∈ s.hooks, h.phase = Phase.returned
  · by_cases hw : ∀ ctx, s.waiter ≠ Waiter.spawned ctx ∧ s.waiter ≠ Waiter.woken ctx
    · exact ⟨[], hhooks, hw⟩
    · obtain ⟨ctx, hctx⟩ := not_forall.mp hw
      rw [not_and_or, not_not, not_not] at hctx
      have hlt : left (s.wait floor) < left s := left_wait_lt hctx
      obtain ⟨more, hrest⟩ := exists_atRest (s.wait floor)
      exact ⟨Op.wait :: more, hrest⟩
  · push Not at hhooks
    obtain ⟨h, hmem, hphase⟩ := hhooks
    obtain ⟨i, hi⟩ := List.getElem?_of_mem hmem
    have hlt : left (s.hook i) < left s := left_hook_lt hi hphase
    obtain ⟨more, hrest⟩ := exists_atRest (s.hook i)
    exact ⟨Op.hook i :: more, hrest⟩
termination_by left s

/-- A StartB stays handled. -/
theorem startB_runFrom {s : State} (h : s.startB = true) (more : List Op) :
    ((machine floor).runFrom s more).startB = true := by
  apply (machine floor).runFrom_invariant (I := fun s => s.startB = true) ?_ s h
  intro s op hs
  cases op with
  | play => exact hs
  | hook i => exact (hook_cases s i).1.trans hs
  | wait =>
    change (s.wait floor).startB = true
    rcases wait_cases floor s with heq | ⟨ctx, -, heq⟩ | ⟨ctx, -, -, -, -, hstart⟩
    · rwa [heq]
    · rwa [heq]
    · rwa [hstart]
  | startB =>
    change s.handleStartB.startB = true
    rcases handleStartB_cases s with ⟨heq, -⟩ | ⟨heq, -⟩
    · rwa [heq]
    · rw [heq]

end KmControl.StartUp
