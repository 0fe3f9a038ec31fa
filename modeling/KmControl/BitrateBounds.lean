import KmControl.BitrateSteps
import KmControl.Machine

/-!
Whole runs of the bitrate controller, each call alone: the registers stay in order, the
cap on probing never rises, and after a collapse the target never again comes far above
the rate at which it happened.
-/
namespace KmControl.BitrateBounds

open Atomics Bitrate BitrateSteps

/-- The controller from a reset on; each call comes with its time. -/
def machine (half : ℕ → ℚ) (m : Controller) (ceilingBps : UInt32) (start : ℕ) :
    Machine Controller (Call × ℕ) where
  init := (exec start (configure ceilingBps) m).2
  step m op := (exec op.2 (op.1.prog half) m).2

/-- A loss at this time does not lower the target. -/
def Throttled (m : Controller) (now : ℕ) : Prop :=
  millisSince m.data.lastDecrease now < decreaseThrottleMs

/-- `min <= target <= learned_ceiling <= probe_cap <= max`. -/
def InOrder (m : Controller) : Prop :=
  m.regs .min ≤ m.regs .target ∧ m.regs .target ≤ m.regs .learnedCeiling ∧
    m.regs .learnedCeiling ≤ m.regs .probeCap ∧ m.regs .probeCap ≤ m.regs .max

variable (half : ℕ → ℚ) (m : Controller) (ceilingBps : UInt32) (start : ℕ)

theorem run_bounded (ops : List (Call × ℕ)) :
    Bounded (ceilingOf ceilingBps) (ceilingOf ceilingBps) ((machine half m ceilingBps start).run ops).regs :=
  Machine.run_invariant _
    (I := fun m : Controller => Bounded (ceilingOf ceilingBps) (ceilingOf ceilingBps) m.regs)
    (exec_configure ceilingBps start m) (fun _ op h => exec_bounded half op.1 op.2 h) ops

/-- What has been the cap once remains one. -/
theorem run_bounded_mono {pre ops : List (Call × ℕ)} {top cap : ℕ} (hpre : pre <+: ops)
    (h : Bounded top cap ((machine half m ceilingBps start).run pre).regs) :
    Bounded top cap ((machine half m ceilingBps start).run ops).regs :=
  Machine.run_of_prefix _ (I := fun m : Controller => Bounded top cap m.regs)
    (fun _ op h => exec_bounded half op.1 op.2 h) hpre h

/-- What a collapse allows to be probed is not far above the target that it found. -/
theorem collapse_cap_le (cur min prevLc prevPc : ℕ) :
    Nat.min (Nat.max (scale cur 120) (Nat.min (Nat.max (scale cur 70) min) prevLc)) prevPc ≤
      Nat.max (cur * 120 / 100) min := by
  have hhigh : scale cur 120 ≤ cur * 120 / 100 := Nat.min_le_left _ _
  have hlow : scale cur 70 ≤ cur * 120 / 100 := (scale_le_scale cur (by decide)).trans hhigh
  refine (Nat.min_le_left _ _).trans (Nat.max_le.mpr ⟨hhigh.trans (Nat.le_max_left _ _), ?_⟩)
  exact (Nat.min_le_left _ _).trans (max_le_max_right min hlow)

theorem exec_onLoss_collapse {m : Controller} {top cap now : ℕ} {lossFraction : ℚ}
    (h : Bounded top cap m.regs) (hcollapse : 1 / 10 ≤ lossFraction) (hactive : ¬ Throttled m now) :
    (exec now (onLoss half lossFraction) m).2.regs .probeCap ≤
      Nat.max (m.regs .target * 120 / 100) (m.regs .min) := by
  have hmax : m.regs .max ≠ 0 := by
    have hfloor : floorBps ≤ m.regs .max :=
      h.min_eq.ge.trans (h.min_le.trans (h.target_le.trans (h.learned_le.trans h.probe_le)))
    unfold floorBps at hfloor
    omega
  unfold Throttled at hactive
  unfold onLoss lossInside
  simp only [exec_load, if_neg hmax, exec_lock, exec_clock, exec_store]
  rw [if_neg hactive]
  simp only [exec_load, exec_store, if_pos hcollapse, exec_unlock]
  exact collapse_cap_le _ _ _ _

/-- The registers stay in order, the cap never rises, and after a collapse the target
stays within a fifth of the rate at which it happened. -/
theorem bitrate_bounds (ops : List (Call × ℕ)) :
    InOrder ((machine half m ceilingBps start).run ops) ∧
      (∀ pre, pre <+: ops → ((machine half m ceilingBps start).run ops).regs .probeCap ≤
        ((machine half m ceilingBps start).run pre).regs .probeCap) ∧
      ∀ pre lossFraction now, pre ++ [(.onLoss lossFraction, now)] <+: ops →
        1 / 10 ≤ lossFraction → ¬ Throttled ((machine half m ceilingBps start).run pre) now →
          ((machine half m ceilingBps start).run ops).regs .target ≤
            Nat.max (((machine half m ceilingBps start).run pre).regs .target * 120 / 100)
              (((machine half m ceilingBps start).run pre).regs .min) := by
  have hall := run_bounded half m ceilingBps start
  refine ⟨?_, fun pre hpre => ?_, fun pre lossFraction now hpre hcollapse hactive => ?_⟩
  · exact ⟨(hall ops).min_le, (hall ops).target_le, (hall ops).learned_le, (hall ops).probe_le⟩
  · have hpre' := (hall pre).tighten (Nat.le_refl _)
    exact (run_bounded_mono half m ceilingBps start hpre hpre').cap_le
  · have hcap := exec_onLoss_collapse half (hall pre) hcollapse hactive
    have hlast := hall (pre ++ [(.onLoss lossFraction, now)])
    rw [Machine.run_concat] at hlast
    have hafter := hlast.tighten hcap
    rw [← Machine.run_concat] at hafter
    have hend := run_bounded_mono half m ceilingBps start hpre hafter
    exact hend.target_le.trans (hend.learned_le.trans hend.cap_le)

theorem target_after_collapse :
    ((machine halvings (new 0) 20000000 5000000000).run
      [(.onLoss (2 / 5), 6000000000), (.pollTarget, 60000000000)]).regs .target ≤ 3600000 :=
  ((bitrate_bounds halvings (new 0) 20000000 5000000000
    [(.onLoss (2 / 5), 6000000000), (.pollTarget, 60000000000)]).2.2 [] (2 / 5) 6000000000
      ⟨[(.pollTarget, 60000000000)], rfl⟩ (by decide +kernel)
        (by unfold Throttled; decide +kernel)).trans (by decide +kernel)

end KmControl.BitrateBounds
