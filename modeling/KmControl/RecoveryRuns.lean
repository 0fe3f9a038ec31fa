import KmControl.LockedData
import KmControl.Recovery

/-!
Runs without loss. From a state whose loss gates are open, polls that come two seconds
apart or later and samples that are not inflated let both values climb, until the
target meets the learned ceiling and, once probing has begun, both meet its cap.
-/
namespace KmControl.RecoveryRuns

open Atomics Bitrate BitrateSteps BitrateBounds Recovery

section Timing

/-- No time of the controller's timers is later than `s`. -/
def Past (s : ℕ) (t : Timing) : Prop :=
  t.lastRecover ≤ s ∧ ∀ rtt at_, t.lastRtt = some (rtt, at_) → at_ ≤ s

variable {s now : ℕ} (half : ℕ → ℚ)

theorem Past.observe {t : Timing} (h : Past s t) (hnow : now ≤ s) (rttMs : ℕ) :
    Past s (t.observe rttMs now) := by
  have hrecover : (t.observe rttMs now).lastRecover = t.lastRecover := by
    unfold Timing.observe
    dsimp only
    split <;> rfl
  refine ⟨hrecover ▸ h.1, fun rtt at_ hsample => ?_⟩
  have hlast : (t.observe rttMs now).lastRtt = some (rttMs, now) := rfl
  rw [hlast, Option.some.injEq, Prod.mk.injEq] at hsample
  exact hsample.2 ▸ hnow

/-- What the calls at the time `now` may write to the timers, samples apart, keeps `J`. -/
structure Stable (now : ℕ) (J : Timing → Prop) : Prop where
  recover : ∀ t, J t → J { t with lastRecover := now }
  loss : ∀ t, J t → J { t with lastLoss := some now }
  decrease : ∀ t, J t → J { t with lastDecrease := now }
  streak : ∀ t n, J t → J { t with rttStreak := n }
  rttDecrease : ∀ t, J t → J { t with lastRttDecrease := now }

/-- A call keeps what its writes keep. -/
theorem unlocks_call {J : Timing → Prop} (hJ : Stable now J) (call : Call)
    (hsample : ∀ rttMs, call = .onRtt rttMs → ∀ t, J t → J (t.observe rttMs now)) :
    Unlocks now J (call.prog half) := by
  cases call with
  | pollTarget =>
    refine Unlocks.bind_unit ((unlocks_load _ _).mpr fun max => .ite (fun _ => trivial) fun _ => ?_)
    refine (unlocks_load _ _).mpr fun cur => (unlocks_clock _).mpr ((unlocks_lock _).mpr ?_)
    intro t ht
    have hclimb : ∀ lc, Unlocks now J (climb t now max cur lc) := fun lc =>
      .ite (fun _ => unlocks_unlock_bind ht trivial) fun _ =>
        (unlocks_store _ _ _).mpr (unlocks_unlock_bind (hJ.recover t ht) trivial)
    refine .ite (fun _ => unlocks_unlock_bind ht trivial) fun _ => (unlocks_load _ _).mpr fun _ => ?_
    refine .ite (fun _ => unlocks_unlock_bind ht trivial) fun _ => ?_
    refine .ite (fun _ => unlocks_unlock_bind ht trivial) fun _ => ?_
    refine .ite (fun _ => unlocks_unlock_bind ht trivial) fun _ => (unlocks_load _ _).mpr fun _ => ?_
    refine (unlocks_load _ _).mpr fun lc => .ite (fun _ => ?_) fun _ => hclimb lc
    exact (unlocks_store _ _ _).mpr (hclimb _)
  | onLoss lossFraction =>
    refine (unlocks_load _ _).mpr fun max => .ite (fun _ => trivial) fun _ => ?_
    refine (unlocks_load _ _).mpr fun min => (unlocks_lock _).mpr fun t ht => ?_
    refine (unlocks_clock _).mpr ((unlocks_load _ _).mpr fun ppm => (unlocks_store _ _ _).mpr ?_)
    have hloss := hJ.loss t ht
    have hdecrease := hJ.decrease _ hloss
    refine .ite (fun _ => unlocks_unlock hloss) fun _ => (unlocks_load _ _).mpr fun cur => ?_
    refine (unlocks_store _ _ _).mpr (.ite (fun _ => ?_) fun _ => unlocks_unlock hdecrease)
    refine (unlocks_load _ _).mpr fun lc => (unlocks_store _ _ _).mpr ?_
    exact (unlocks_load _ _).mpr fun pc => (unlocks_store _ _ _).mpr (unlocks_unlock hdecrease)
  | onRtt rttMs =>
    refine (unlocks_load _ _).mpr fun max => .ite (fun _ => trivial) fun _ => ?_
    refine (unlocks_clock _).mpr ((unlocks_lock _).mpr fun t ht => ?_)
    have hseen := fun n => hJ.streak _ n (hsample rttMs rfl t ht)
    refine .ite (fun _ => unlocks_unlock (hseen 0)) fun _ => ?_
    refine .ite (fun _ => unlocks_unlock (hseen _)) fun _ => ?_
    refine .ite (fun _ => unlocks_unlock (hseen _)) fun _ => (unlocks_load _ _).mpr fun cur => ?_
    refine (unlocks_load _ _).mpr fun min => (unlocks_store _ _ _).mpr (unlocks_unlock ?_)
    exact hJ.rttDecrease _ (hseen 0)

theorem stable_past (hnow : now ≤ s) : Stable now (Past s) where
  recover _ h := ⟨hnow, h.2⟩
  loss _ h := h
  decrease _ h := h
  streak _ _ h := h
  rttDecrease _ h := h

theorem past_run (m : Controller) (ceilingBps : UInt32) {start : ℕ} (hstart : start ≤ s)
    {ops : List (Call × ℕ)} (hops : ∀ op ∈ ops, op.2 ≤ s) :
    Past s ((machine half m ceilingBps start).run ops).data := by
  induction ops using List.reverseRecOn with
  | nil => exact ⟨hstart, nofun⟩
  | append_singleton ops op ih =>
    rw [Machine.run_concat]
    have hnow : op.2 ≤ s := hops op (List.mem_append_right _ List.mem_cons_self)
    refine exec_of_unlocks (unlocks_call half (stable_past hnow) op.1 ?_) (ih fun o ho => hops o ?_)
    · exact fun rttMs _ t ht => ht.observe hnow rttMs
    · exact List.mem_append_left _ ho

end Timing

section Samples

/-- The sample is not above the base line that it leaves by as much as counts. -/
def Calm (t : Timing) (rttMs now : ℕ) : Prop :=
  rttMs - (t.observe rttMs now).minRttMs < rttTriggerMs (t.observe rttMs now).minRttMs

/-- The last sample, if there is one, was not. -/
def Settled (t : Timing) : Prop :=
  ∀ rtt at_, t.lastRtt = some (rtt, at_) → rtt - t.minRttMs < rttTriggerMs t.minRttMs

theorem Settled.not_inflated {t : Timing} (h : Settled t) (now : ℕ) : t.inflated now = false := by
  unfold Timing.inflated
  cases hlast : t.lastRtt with
  | none => rfl
  | some sample =>
    have hcalm := h sample.1 sample.2 hlast
    simp only [Option.any_some, Bool.and_eq_false_iff, decide_eq_false_iff_not]
    exact Or.inr (by omega)

theorem Calm.settled {t : Timing} {rttMs now : ℕ} (h : Calm t rttMs now) :
    Settled { t.observe rttMs now with rttStreak := 0 } := by
  intro rtt at_ hsample
  have hlast : (t.observe rttMs now).lastRtt = some (rttMs, now) := rfl
  have heq : (rttMs, now) = (rtt, at_) := Option.some.inj (hlast.symm.trans hsample)
  cases heq
  exact h

/-- A calm sample is taken in and changes nothing else. -/
theorem exec_onRtt {m : Controller} (hmax : m.regs .max ≠ 0) {rttMs now : ℕ}
    (h : Calm m.data rttMs now) (half : ℕ → ℚ) :
    (exec now ((Call.onRtt rttMs).prog half) m).2 =
      { m with data := { m.data.observe rttMs now with rttStreak := 0 } } := by
  unfold Calm at h
  unfold Call.prog onRtt rttInside
  simp only [exec_load, if_neg hmax, exec_clock, exec_lock]
  rw [if_pos h]
  rfl

end Samples

section Continuation

variable (half : ℕ → ℚ)

/-- Two seconds in nanoseconds. -/
def pollSpacing : ℕ := 2000000000

def proceed (m : Controller) (ops : List (Call × ℕ)) : Controller :=
  ops.foldl (fun m op => (exec op.2 (op.1.prog half) m).2) m

@[simp] theorem proceed_cons (m : Controller) (op : Call × ℕ) (ops : List (Call × ℕ)) :
    proceed half m (op :: ops) = proceed half (exec op.2 (op.1.prog half) m).2 ops := rfl

/-- No loss, no inflated sample, and polls at least two seconds apart, at times that do not
go back; `last` is the time of the last poll, if there was one. -/
def Quiet : Controller → ℕ → Option ℕ → List (Call × ℕ) → Prop
  | _, _, _, [] => True
  | m, now, last, (.pollTarget, at_) :: ops =>
    (now ≤ at_ ∧ ∀ p, last = some p → p + pollSpacing ≤ at_) ∧
      Quiet (poll half m at_) at_ (some at_) ops
  | m, now, last, (.onRtt rttMs, at_) :: ops =>
    (now ≤ at_ ∧ Calm m.data rttMs at_) ∧
      Quiet (exec at_ ((Call.onRtt rttMs).prog half) m).2 at_ last ops
  | _, _, _, (.onLoss _, _) :: _ => False

/-- The polls of a run that raise the target. -/
def raises : Controller → List (Call × ℕ) → ℕ
  | _, [] => 0
  | m, op :: ops =>
    (if m.regs .target < (exec op.2 (op.1.prog half) m).2.regs .target then 1 else 0) +
      raises (exec op.2 (op.1.prog half) m).2 ops

def polls (ops : List (Call × ℕ)) : ℕ := ops.countP fun op => op.1 = .pollTarget

/-- The polls that come when probing has begun. -/
def latePolls (lastLoss : Option ℕ) (ops : List (Call × ℕ)) : ℕ :=
  ops.countP fun op => op.1 = .pollTarget ∧ reprobeAfterMs ≤ sinceLoss lastLoss op.2

end Continuation

section Gates

variable {half : ℕ → ℚ} {m : Controller} {now later : ℕ}

theorem millisSince_mono (earlier : ℕ) (h : now ≤ later) :
    millisSince earlier now ≤ millisSince earlier later :=
  Nat.div_le_div_right (Nat.sub_le_sub_right h earlier)

theorem sinceLoss_mono (lastLoss : Option ℕ) (h : now ≤ later) :
    sinceLoss lastLoss now ≤ sinceLoss lastLoss later := by
  cases lastLoss with
  | none => exact le_rfl
  | some l => exact millisSince_mono l h

/-- What is left of a loss only shrinks. -/
theorem lossOf_anti (hhalf : Antitone half) {ppm : ℕ} {t : Timing} (h : now ≤ later)
    (hdelay : recoverDelayMs ≤ sinceLoss t.lastLoss now) :
    lossOf half ppm t later ≤ lossOf half ppm t now := by
  unfold lossOf decayedLoss
  cases hlast : t.lastLoss with
  | none => exact le_rfl
  | some l =>
    have hsince := millisSince_mono l h
    rw [hlast] at hdelay
    change 5000 ≤ millisSince l now at hdelay
    simp only [Option.map_some]
    by_cases hraw : (ppm / 1000000 : ℚ) ≤ 0
    · rw [if_pos hraw, if_pos hraw]
    · rw [if_neg hraw, if_neg hraw, if_neg (by unfold lossDecayGraceMs; omega),
        if_neg (by unfold lossDecayGraceMs; omega)]
      exact mul_le_mul_of_nonneg_left (hhalf (by omega)) (not_le.mp hraw).le

/-- Once the gates of the loss are open, they stay open. -/
theorem lossGatesOpen_mono (hhalf : Antitone half) (h : LossGatesOpen half m now)
    (hlater : now ≤ later) : LossGatesOpen half m later where
  delay := h.delay.trans (sinceLoss_mono _ hlater)
  ewma := (lossOf_anti hhalf hlater h.delay).trans_lt h.ewma

end Gates

end KmControl.RecoveryRuns
