import KmControl.RecoveryRuns

/-!
Bounded jitter. As long as all samples since the reset lie within thirty milliseconds of
each other, both minima lie in the same band, whichever of them is the base line after
a window; so no sample counts as inflated.
-/
namespace KmControl.Jitter

open Atomics Bitrate BitrateSteps BitrateBounds RecoveryRuns

/-- A sample of the band that begins at `base`. -/
def InBand (base rttMs : ℕ) : Prop := base ≤ rttMs ∧ rttMs ≤ base + 29 ∧ rttMs ≤ u32Max

/-- Both minima lie above the beginning of the band, or are those of an empty window. -/
structure Banded (base : ℕ) (t : Timing) : Prop where
  min : base ≤ t.minRttMs ∨ t.minRttMs = u32Max
  winMin : base ≤ t.winMinRttMs ∨ t.winMinRttMs = u32Max
  last : ∀ rtt at_, t.lastRtt = some (rtt, at_) → InBand base rtt

section Samples

variable {base rttMs now : ℕ} {t : Timing}

/-- The minimum of such a value and a sample of the band lies in the band. -/
theorem le_min_of_inBand {v : ℕ} (hv : base ≤ v ∨ v = u32Max) (h : InBand base rttMs) :
    base ≤ Nat.min v rttMs := by
  rcases hv with hlow | rfl
  · exact Nat.le_min.mpr ⟨hlow, h.1⟩
  · exact Nat.le_min.mpr ⟨h.1.trans h.2.2, h.1⟩

theorem Banded.observe (h : Banded base t) (hsample : InBand base rttMs) :
    Banded base (t.observe rttMs now) := by
  have hlast : ∀ rtt at_, (t.observe rttMs now).lastRtt = some (rtt, at_) → InBand base rtt := by
    intro rtt at_ heq
    have hsame : (t.observe rttMs now).lastRtt = some (rttMs, now) := rfl
    rw [hsame, Option.some.injEq, Prod.mk.injEq] at heq
    exact heq.1 ▸ hsample
  refine ⟨Or.inl ?_, Or.inl ?_, hlast⟩
  · unfold Timing.observe
    dsimp only
    split
    · exact le_min_of_inBand h.winMin hsample
    · exact le_min_of_inBand h.min hsample
  · unfold Timing.observe
    dsimp only
    split
    · exact le_min_of_inBand (Or.inr rfl) hsample
    · exact le_min_of_inBand h.winMin hsample

/-- A sample of the band is not inflated over a base line in the band. -/
theorem sub_lt_trigger {min : ℕ} (hmin : base ≤ min ∨ min = u32Max) (h : InBand base rttMs) :
    rttMs - min < rttTriggerMs min := by
  have htrigger : 30 ≤ rttTriggerMs min := Nat.le_max_left _ _
  obtain ⟨-, hhigh, hword⟩ := h
  omega

theorem Banded.settled (h : Banded base t) : Settled t :=
  fun rtt at_ heq => sub_lt_trigger h.min (h.last rtt at_ heq)

theorem stable_banded : Stable now (Banded base) where
  recover _ h := ⟨h.min, h.winMin, h.last⟩
  loss _ h := ⟨h.min, h.winMin, h.last⟩
  decrease _ h := ⟨h.min, h.winMin, h.last⟩
  streak _ _ h := ⟨h.min, h.winMin, h.last⟩
  rttDecrease _ h := ⟨h.min, h.winMin, h.last⟩

end Samples

section Runs

variable (half : ℕ → ℚ) (m : Controller) (ceilingBps : UInt32) (start : ℕ) {base : ℕ}
  {ops : List (Call × ℕ)}

theorem banded_run (hops : ∀ rttMs at_, (.onRtt rttMs, at_) ∈ ops → InBand base rttMs) :
    Banded base ((machine half m ceilingBps start).run ops).data := by
  induction ops using List.reverseRecOn with
  | nil => exact ⟨Or.inr rfl, Or.inr rfl, nofun⟩
  | append_singleton ops op ih =>
    rw [Machine.run_concat]
    refine exec_of_unlocks (unlocks_call half stable_banded op.1 fun rttMs hcall t ht => ?_)
      (ih fun rttMs at_ hmem => hops rttMs at_ (List.mem_append_left _ hmem))
    exact ht.observe (hops rttMs op.2 (List.mem_append_right _ (List.mem_singleton.mpr
      (Prod.ext hcall.symm rfl))))

/-- With all samples in a band of thirty milliseconds no sample lowers the target, and the
delay gate holds no poll back. -/
theorem jitter_never_throttles (hops : ∀ rttMs at_, (.onRtt rttMs, at_) ∈ ops → InBand base rttMs) :
    (∀ pre rttMs at_, pre ++ [(.onRtt rttMs, at_)] <+: ops →
      ((machine half m ceilingBps start).run (pre ++ [(.onRtt rttMs, at_)])).regs =
        ((machine half m ceilingBps start).run pre).regs) ∧
      ∀ pre now, pre <+: ops → ((machine half m ceilingBps start).run pre).data.inflated now = false := by
  refine ⟨fun pre rttMs at_ hpre => ?_, fun pre now hpre => ?_⟩
  · have hmem : ∀ op ∈ pre, op ∈ ops := fun op hop => hpre.subset (List.mem_append_left _ hop)
    have hsample := hops rttMs at_ (hpre.subset (List.mem_append_right _ List.mem_cons_self))
    have hbanded := banded_run half m ceilingBps start fun rttMs at_ h => hops rttMs at_ (hmem _ h)
    have hmax : ((machine half m ceilingBps start).run pre).regs .max ≠ 0 := by
      have hfloor := floorBps_le_ceilingOf ceilingBps
      rw [(run_bounded half m ceilingBps start pre).max_eq]
      unfold floorBps at hfloor
      omega
    have hexec := exec_onRtt hmax (sub_lt_trigger (@Banded.observe base rttMs at_ _ hbanded hsample).min
      hsample) half
    rw [Machine.run_concat]
    exact (congrArg Memory.regs hexec :)
  · have hbanded := banded_run half m ceilingBps start fun rttMs at_ h =>
      hops rttMs at_ (hpre.subset h)
    exact hbanded.settled.not_inflated now

theorem no_throttle_after_rollover :
    ((machine halvings (new 0) 20000000 5000000000).run
      [(.onRtt 20, 6000000000), (.pollTarget, 9000000000), (.onRtt 49, 40000000000)]).data.inflated
        41000000000 = false :=
  (@jitter_never_throttles halvings (new 0) 20000000 5000000000 20
    [(.onRtt 20, 6000000000), (.pollTarget, 9000000000), (.onRtt 49, 40000000000)]
    (fun rttMs at_ h => by
      rw [List.mem_cons, List.mem_cons, List.mem_singleton, Prod.mk.injEq, Prod.mk.injEq, Prod.mk.injEq,
        Call.onRtt.injEq, Call.onRtt.injEq] at h
      unfold InBand u32Max
      rcases h with ⟨rfl, -⟩ | ⟨h, -⟩ | ⟨rfl, -⟩
      · decide
      · exact nomatch h
      · decide)).2 _ _ (List.prefix_refl _)

end Runs

end KmControl.Jitter
