import KmControl.RecoveryRuns

/-!
Convergence of the recovery. At most the first two polls of a quiet continuation are
held, by a sample or a raise from before. Each later one raises what is left to raise,
so that the values reach their bounds after finitely many polls and stay there.
-/
namespace KmControl.RecoveryConverges

open Atomics Bitrate BitrateSteps BitrateBounds Recovery RecoveryRuns

section Steps

/-- What a quiet continuation leaves alone. -/
structure Frame (m m' : Controller) : Prop where
  lastLoss : m'.data.lastLoss = m.data.lastLoss
  max : m'.regs .max = m.regs .max
  probeCap : m'.regs .probeCap = m.regs .probeCap

theorem Frame.trans {m₁ m₂ m₃ : Controller} (h : Frame m₁ m₂) (h' : Frame m₂ m₃) :
    Frame m₁ m₃ :=
  ⟨h'.lastLoss.trans h.lastLoss, h'.max.trans h.max, h'.probeCap.trans h.probeCap⟩

/-- After `n` polls of a continuation that began at `s`. -/
structure Ready (half : ℕ → ℚ) (s n : ℕ) (last : Option ℕ) (m : Controller) (now : ℕ) : Prop where
  fits : (levels m).Fits (m.regs .max) (m.regs .probeCap)
  opened : LossGatesOpen half m now
  recovered : m.data.lastRecover ≤ last.getD now
  sampled : Settled m.data ∨ ∀ rtt at_, m.data.lastRtt = some (rtt, at_) → at_ ≤ s
  begun : s ≤ last.getD now
  spaced : 1 ≤ n → ∃ p, last = some p ∧ (2 ≤ n → s + pollSpacing ≤ p)

variable {half : ℕ → ℚ} {s n now at_ : ℕ} {last : Option ℕ} {m : Controller}

theorem Ready.max_ne_zero (h : Ready half s n last m now) : m.regs .max ≠ 0 := by
  have hfloor := h.fits.floor.trans (h.fits.target_le.trans (h.fits.learned_le.trans h.fits.probe_le))
  unfold floorBps at hfloor
  omega

/-- A sample from long ago holds nothing back. -/
theorem not_inflated_of_old {t : Timing} (h : ∀ rtt a, t.lastRtt = some (rtt, a) → a ≤ s)
    (hat : s + 2 * pollSpacing ≤ at_) : t.inflated at_ = false := by
  unfold Timing.inflated
  cases hlast : t.lastRtt with
  | none => rfl
  | some sample =>
    have hold := h sample.1 sample.2 hlast
    have hstale : ¬ millisSince sample.2 at_ < rttStaleMs := by
      unfold pollSpacing at hat
      unfold millisSince rttStaleMs
      omega
    simp only [Option.any_some, hstale, decide_false, Bool.false_and]

theorem le_of_spaced (hnow : now ≤ at_) (hspace : ∀ p, last = some p → p + pollSpacing ≤ at_) :
    last.getD now ≤ at_ := by
  cases last with
  | none => exact hnow
  | some p => exact (Nat.le_add_right p _).trans (hspace p rfl)

/-- From the third poll on nothing is held. -/
theorem Ready.not_held (h : Ready half s n last m now)
    (hspace : ∀ p, last = some p → p + pollSpacing ≤ at_) (hn : 2 ≤ n) : ¬ Held m at_ := by
  obtain ⟨p, rfl, hp⟩ := h.spaced (by omega)
  have hat := hspace p rfl
  have hsecond := hp hn
  rintro (hrtt | hrecover)
  · have hfalse : m.data.inflated at_ = false := by
      rcases h.sampled with hsettled | hold
      · exact hsettled.not_inflated at_
      · exact not_inflated_of_old hold (by omega)
    rw [hfalse] at hrtt
    exact Bool.noConfusion hrtt
  · have hrecovered : m.data.lastRecover ≤ p := h.recovered
    unfold pollSpacing at hat
    unfold millisSince recoverIntervalMs at hrecover
    omega

/-- One call of a continuation: a sample changes no level; one of the first two polls may be
held; any other raises what it may. -/
inductive Move (m m' : Controller) (n : ℕ) : Call × ℕ → ℕ → Prop
  | sample (rttMs at_ : ℕ) (hlevels : levels m' = levels m) : Move m m' n (.onRtt rttMs, at_) n
  | held (at_ : ℕ) (hn : n < 2) (hlevels : levels m' = levels m) :
    Move m m' n (.pollTarget, at_) (n + 1)
  | raised (at_ : ℕ)
    (hlevels : levels m' = (levels m).raise (m.regs .max) (m.regs .probeCap) (late m at_)) :
    Move m m' n (.pollTarget, at_) (n + 1)

theorem Ready.poll (hhalf : Antitone half) (h : Ready half s n last m now) (hnow : now ≤ at_)
    (hspace : ∀ p, last = some p → p + pollSpacing ≤ at_) :
    Ready half s (n + 1) (some at_) (poll half m at_) at_ ∧ Frame m (poll half m at_) ∧
      Move m (poll half m at_) n (.pollTarget, at_) (n + 1) := by
  have hopen := lossGatesOpen_mono hhalf h.opened hnow
  have hlast := le_of_spaced hnow hspace
  have hspaced : ∃ p, some at_ = some p ∧ (2 ≤ n + 1 → s + pollSpacing ≤ p) := by
    refine ⟨at_, rfl, fun hn => ?_⟩
    obtain ⟨p, rfl, -⟩ := h.spaced (by omega)
    exact (Nat.add_le_add_right h.begun _).trans (hspace p rfl)
  have hbegun := h.begun.trans hlast
  rcases poll_cases half h.max_ne_zero hopen with ⟨hheld, heq⟩ | ⟨hfree, hpolled⟩
  · rw [heq]
    have hn : n < 2 := Nat.lt_of_not_le fun hn => h.not_held hspace hn hheld
    exact ⟨⟨h.fits, hopen, h.recovered.trans hlast, h.sampled, hbegun, fun _ => hspaced⟩,
      ⟨rfl, rfl, rfl⟩, .held at_ hn rfl⟩
  · have hlastLoss := congrArg Timing.lastLoss hpolled.data
    have hlastRtt := congrArg Timing.lastRtt hpolled.data
    have hminRtt := congrArg Timing.minRttMs hpolled.data
    have hmax := hpolled.regs .max (by decide) (by decide)
    have hcap := hpolled.regs .probeCap (by decide) (by decide)
    have hewma := hpolled.regs .lossEwmaPpm (by decide) (by decide)
    refine ⟨⟨?_, ⟨?_, ?_⟩, ?_, ?_, hbegun, fun _ => hspaced⟩, ⟨hlastLoss, hmax, hcap⟩,
      .raised at_ hpolled.levels⟩
    · rw [hpolled.levels, hmax, hcap]
      exact Levels.fits_raise _ h.fits
    · rw [hlastLoss]
      exact hopen.delay
    · have hsame : lossOf half ((Recovery.poll half m at_).regs .lossEwmaPpm)
          (Recovery.poll half m at_).data at_ = lossOf half (m.regs .lossEwmaPpm) m.data at_ := by
        unfold lossOf
        rw [hewma, hlastLoss]
      exact hsame.trans_lt hopen.ewma
    · rcases hpolled.lastRecover with hold | hnew
      · exact hold.trans_le (h.recovered.trans hlast)
      · exact hnew.le
    · unfold Settled
      rw [hlastRtt, hminRtt]
      exact h.sampled

theorem observe_timers (t : Timing) (rttMs : ℕ) :
    (t.observe rttMs now).lastLoss = t.lastLoss ∧
      (t.observe rttMs now).lastRecover = t.lastRecover := by
  unfold Timing.observe
  dsimp only
  split <;> exact ⟨rfl, rfl⟩

theorem Ready.onRtt (hhalf : Antitone half) (h : Ready half s n last m now) (hnow : now ≤ at_)
    {rttMs : ℕ} (hcalm : Calm m.data rttMs at_) :
    Ready half s n last (exec at_ ((Call.onRtt rttMs).prog half) m).2 at_ ∧
      Frame m (exec at_ ((Call.onRtt rttMs).prog half) m).2 ∧
      Move m (exec at_ ((Call.onRtt rttMs).prog half) m).2 n (.onRtt rttMs, at_) n := by
  have hopen := lossGatesOpen_mono hhalf h.opened hnow
  obtain ⟨hlastLoss, hlastRecover⟩ := @observe_timers at_ m.data rttMs
  have hlater : last.getD now ≤ last.getD at_ := by
    cases last with
    | none => exact hnow
    | some p => exact le_rfl
  rw [exec_onRtt h.max_ne_zero hcalm half]
  refine ⟨⟨h.fits, ⟨?_, ?_⟩, ?_, Or.inl hcalm.settled, h.begun.trans hlater, h.spaced⟩,
    ⟨hlastLoss, rfl, rfl⟩, .sample rttMs at_ rfl⟩
  · change recoverDelayMs ≤ sinceLoss (m.data.observe rttMs at_).lastLoss at_
    rw [hlastLoss]
    exact hopen.delay
  · change decayedLoss half _ ((m.data.observe rttMs at_).lastLoss.map _) < _
    rw [hlastLoss]
    exact hopen.ewma
  · exact hlastRecover.trans_le (h.recovered.trans hlater)

/-- One call of a continuation, and what is left of it. -/
theorem Ready.step (hhalf : Antitone half) (h : Ready half s n last m now) {op : Call × ℕ}
    {ops : List (Call × ℕ)} (hquiet : Quiet half m now last (op :: ops)) :
    ∃ n' last', Ready half s n' last' (exec op.2 (op.1.prog half) m).2 op.2 ∧
      Quiet half (exec op.2 (op.1.prog half) m).2 op.2 last' ops ∧
      Frame m (exec op.2 (op.1.prog half) m).2 ∧ Move m (exec op.2 (op.1.prog half) m).2 n op n' := by
  obtain ⟨call, at_⟩ := op
  cases call with
  | pollTarget =>
    obtain ⟨⟨hnow, hspace⟩, hrest⟩ := hquiet
    obtain ⟨hready, hframe, hmove⟩ := h.poll hhalf hnow hspace
    exact ⟨n + 1, some at_, hready, hrest, hframe, hmove⟩
  | onRtt rttMs =>
    obtain ⟨⟨hnow, hcalm⟩, hrest⟩ := hquiet
    obtain ⟨hready, hframe, hmove⟩ := h.onRtt hhalf hnow hcalm
    exact ⟨n, last, hready, hrest, hframe, hmove⟩
  | onLoss lossFraction => exact hquiet.elim

theorem Move.le {m' : Controller} {op : Call × ℕ} {n' : ℕ} (hmove : Move m m' n op n')
    (hfits : (levels m).Fits (m.regs .max) (m.regs .probeCap)) :
    m.regs .learnedCeiling ≤ m'.regs .learnedCeiling ∧ m.regs .target ≤ m'.regs .target := by
  change (levels m).learned ≤ (levels m').learned ∧ (levels m).target ≤ (levels m').target
  cases hmove with
  | sample rttMs at_ hlevels | held at_ hn hlevels =>
    rw [hlevels]
    exact ⟨le_rfl, le_rfl⟩
  | raised at_ hlevels =>
    rw [hlevels]
    exact ⟨(Levels.learned_raise _ hfits).1, (Levels.target_raise _ hfits).1⟩

end Steps

end KmControl.RecoveryConverges
