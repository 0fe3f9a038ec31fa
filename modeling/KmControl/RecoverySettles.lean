import KmControl.RecoveryConverges

/-!
The recovery settles. While the last loss is recent the target climbs to the learned
ceiling and no further; afterwards both climb to the cap on probing, in at most as many
polls as there is room below it, and two that may be held.
-/
namespace KmControl.RecoverySettles

open Atomics Bitrate BitrateSteps BitrateBounds Recovery RecoveryRuns RecoveryConverges

section Moves

variable {m m' : Controller} {n n' : ℕ} {op : Call × ℕ}

/-- One for a call that raises the target. -/
def raise (m m' : Controller) : ℕ := if m.regs .target < m'.regs .target then 1 else 0

theorem polls_cons (op : Call × ℕ) (ops : List (Call × ℕ)) :
    polls (op :: ops) = polls [op] + polls ops :=
  @List.countP_append _ _ [op] ops

theorem latePolls_cons (lastLoss : Option ℕ) (op : Call × ℕ) (ops : List (Call × ℕ)) :
    latePolls lastLoss (op :: ops) = latePolls lastLoss [op] + latePolls lastLoss ops :=
  @List.countP_append _ _ [op] ops

theorem late_of_latePolls {at_ : ℕ} :
    latePolls m.data.lastLoss [(.pollTarget, at_)] = if late m at_ = true then 1 else 0 := by
  unfold latePolls late
  rw [List.countP_singleton]
  simp only [true_and]

/-- A call before probing has begun leaves the learned ceiling. A poll is held, or raises the
target by a step, or has brought it to the ceiling. -/
theorem move_early (hmove : Move m m' n op n') (hfits : (levels m).Fits (m.regs .max) (m.regs .probeCap))
    (hearly : latePolls m.data.lastLoss [op] = 0) :
    m'.regs .learnedCeiling = m.regs .learnedCeiling ∧
      (m.regs .learnedCeiling ≤ m'.regs .target ∨
        m.regs .target + 250000 * raise m m' ≤ m'.regs .target) ∧
      (m'.regs .target = m.regs .learnedCeiling ∨ polls [op] + (2 - n') ≤ raise m m' + (2 - n)) := by
  change (levels m').learned = (levels m).learned ∧
    ((levels m).learned ≤ (levels m').target ∨
      (levels m).target + 250000 * raise m m' ≤ (levels m').target) ∧
      ((levels m').target = (levels m).learned ∨ polls [op] + (2 - n') ≤ raise m m' + (2 - n))
  have hraise : raise m m' = if (levels m).target < (levels m').target then 1 else 0 := rfl
  cases hmove with
  | sample rttMs at_ hlevels =>
    rw [hraise, hlevels, if_neg (lt_irrefl _)]
    exact ⟨rfl, Or.inr le_rfl, Or.inr le_rfl⟩
  | held at_ hn hlevels =>
    have hpolls : polls [(.pollTarget, at_)] = 1 := rfl
    rw [hraise, hlevels, if_neg (lt_irrefl _), hpolls]
    exact ⟨rfl, Or.inr le_rfl, Or.inr (by omega)⟩
  | raised at_ hlevels =>
    have hpolls : polls [(.pollTarget, at_)] = 1 := rfl
    have hlate : late m at_ = false := by
      rw [late_of_latePolls] at hearly
      by_contra hlate
      rw [if_pos (Bool.eq_true_of_not_eq_false hlate)] at hearly
      exact Nat.one_ne_zero hearly
    obtain ⟨hup, -, hstep⟩ := Levels.target_raise (late m at_) hfits
    rw [← hlevels] at hup hstep
    have hlearned : (levels m').learned = (levels m).learned := by
      rw [hlevels, hlate]
      exact Levels.learned_raise_early
    rw [hlearned] at hstep
    have hstep := min_le_iff.mp hstep
    rw [hraise, hpolls]
    refine ⟨hlearned, ?_⟩
    by_cases hrise : (levels m).target < (levels m').target
    · rw [if_pos hrise]
      exact ⟨hstep, Or.inr (by omega)⟩
    · have htarget := hfits.target_le
      have htop : (levels m).learned ≤ (levels m').target := by omega
      exact ⟨Or.inl htop, Or.inl (by omega)⟩

/-- Each late poll that is not held narrows the room, unless there is none. -/
theorem move_late (hmove : Move m m' n op n') (hfits : (levels m).Fits (m.regs .max) (m.regs .probeCap)) :
    (levels m).room (m.regs .probeCap) = 0 ∨
      latePolls m.data.lastLoss [op] + (levels m').room (m.regs .probeCap) + (2 - n') ≤
        (levels m).room (m.regs .probeCap) + (2 - n) := by
  cases hmove with
  | sample rttMs at_ hlevels =>
    have hnone : latePolls m.data.lastLoss [(.onRtt rttMs, at_)] = 0 := rfl
    rw [hlevels, hnone]
    exact Or.inr (by omega)
  | held at_ hn hlevels =>
    have hone : latePolls m.data.lastLoss [(.pollTarget, at_)] ≤ 1 := List.countP_le_length
    rw [hlevels]
    exact Or.inr (by omega)
  | raised at_ hlevels =>
    rw [hlevels, late_of_latePolls]
    cases hlate : late m at_ with
    | true =>
      rw [if_pos rfl]
      exact (Levels.room_raise hfits).imp_right fun hless => by omega
    | false =>
      have hle := Levels.room_raise_le false hfits
      rw [if_neg Bool.false_ne_true]
      exact Or.inr (by omega)

end Moves

section Runs

variable {half : ℕ → ℚ} {s n now : ℕ} {last : Option ℕ} {m : Controller}

/-- Any part of a continuation keeps the bounds, and the levels only rise. -/
theorem ready_run (hhalf : Antitone half) {a b : List (Call × ℕ)} (h : Ready half s n last m now)
    (hquiet : Quiet half m now last (a ++ b)) :
    ∃ n' last' now', Ready half s n' last' (proceed half m a) now' ∧
      Quiet half (proceed half m a) now' last' b ∧ Frame m (proceed half m a) ∧
      m.regs .learnedCeiling ≤ (proceed half m a).regs .learnedCeiling ∧
      m.regs .target ≤ (proceed half m a).regs .target := by
  induction a generalizing n last m now with
  | nil => exact ⟨n, last, now, h, hquiet, ⟨rfl, rfl, rfl⟩, le_rfl, le_rfl⟩
  | cons op a ih =>
    obtain ⟨n₁, last₁, hready, hrest, hframe, hmove⟩ := h.step hhalf hquiet
    obtain ⟨hlearned, htarget⟩ := hmove.le h.fits
    obtain ⟨n', last', now', hend, hquiet', hframe', hlearned', htarget'⟩ := ih hready hrest
    exact ⟨n', last', now', hend, hquiet', hframe.trans hframe', hlearned.trans hlearned',
      htarget.trans htarget'⟩

theorem fits_proceed (hhalf : Antitone half) {ops : List (Call × ℕ)} (h : Ready half s n last m now)
    (hquiet : Quiet half m now last ops) :
    (levels (proceed half m ops)).Fits (m.regs .max) (m.regs .probeCap) := by
  obtain ⟨n', last', now', hend, -, hframe, -, -⟩ :=
    ready_run hhalf h (b := []) (ops.append_nil.symm ▸ hquiet)
  have hfits := hend.fits
  rwa [hframe.max, hframe.probeCap] at hfits

/-- While no poll is late, the target climbs towards a ceiling that stays. -/
theorem early_run (hhalf : Antitone half) {ops : List (Call × ℕ)} (h : Ready half s n last m now)
    (hquiet : Quiet half m now last ops) (hearly : latePolls m.data.lastLoss ops = 0) :
    (proceed half m ops).regs .learnedCeiling = m.regs .learnedCeiling ∧
      (m.regs .learnedCeiling ≤ (proceed half m ops).regs .target ∨
        m.regs .target + 250000 * raises half m ops ≤ (proceed half m ops).regs .target) ∧
      ((proceed half m ops).regs .target = m.regs .learnedCeiling ∨
        polls ops ≤ raises half m ops + (2 - n)) := by
  induction ops generalizing n last m now with
  | nil => exact ⟨rfl, Or.inr le_rfl, Or.inr (Nat.zero_le _)⟩
  | cons op ops ih =>
    obtain ⟨n', last', hready, hrest, hframe, hmove⟩ := h.step hhalf hquiet
    rw [latePolls_cons, Nat.add_eq_zero_iff] at hearly
    obtain ⟨hlearned, hclimb, hcount⟩ := move_early hmove h.fits hearly.1
    obtain ⟨hlearned', hclimb', hcount'⟩ := ih hready hrest (by rw [hframe.lastLoss]; exact hearly.2)
    have htop := (fits_proceed hhalf hready hrest).target_le
    change (proceed half m (op :: ops)).regs .target ≤ (proceed half m (op :: ops)).regs .learnedCeiling
      at htop
    rw [← proceed_cons] at hlearned' hclimb' hcount'
    have hraises : raises half m (op :: ops) = raise m (exec op.2 (op.1.prog half) m).2 +
        raises half (exec op.2 (op.1.prog half) m).2 ops := rfl
    rw [hlearned'] at htop
    rw [hlearned] at hlearned' hclimb' hcount' htop
    rw [hraises, polls_cons]
    refine ⟨hlearned', by omega, ?_⟩
    rcases hcount with hdone | hmore
    · exact Or.inl (by omega)
    · exact hcount'.imp_right fun hrest => by omega

/-- Late polls use up the room, two of them apart. -/
theorem late_run (hhalf : Antitone half) {ops : List (Call × ℕ)} (h : Ready half s n last m now)
    (hquiet : Quiet half m now last ops) :
    (levels (proceed half m ops)).room (m.regs .probeCap) = 0 ∨
      latePolls m.data.lastLoss ops + (levels (proceed half m ops)).room (m.regs .probeCap) ≤
        (levels m).room (m.regs .probeCap) + (2 - n) := by
  induction ops generalizing n last m now with
  | nil =>
    have hnone : latePolls m.data.lastLoss [] = 0 := rfl
    rw [hnone, Nat.zero_add]
    exact Or.inr (Nat.le_add_right _ _)
  | cons op ops ih =>
    obtain ⟨n', last', hready, hrest, hframe, hmove⟩ := h.step hhalf hquiet
    obtain ⟨-, -, -, -, -, -, hlearned, htarget⟩ :=
      ready_run hhalf h (b := []) ((op :: ops).append_nil.symm ▸ hquiet)
    have hih := ih hready hrest
    rw [hframe.probeCap, hframe.lastLoss, ← proceed_cons] at hih
    rw [latePolls_cons]
    rcases move_late hmove h.fits with hnone | hless
    · refine Or.inl ?_
      unfold Levels.room levels at hnone ⊢
      dsimp only at hnone ⊢
      omega
    · exact hih.imp_right fun hrest => by omega

end Runs

section Recovery

variable (half : ℕ → ℚ)

/-- A quiet continuation from `m` recovers the rate. -/
structure Recovers (m : Controller) (ops : List (Call × ℕ)) : Prop where
  rises : ∀ a op b, ops = a ++ op :: b →
    (proceed half m a).regs .target ≤ (proceed half m (a ++ [op])).regs .target
  early : latePolls m.data.lastLoss ops = 0 →
    (proceed half m ops).regs .learnedCeiling = m.regs .learnedCeiling ∧
      ((m.regs .learnedCeiling - m.regs .target + 249999) / 250000 ≤ raises half m ops →
        (proceed half m ops).regs .target = m.regs .learnedCeiling) ∧
      ((proceed half m ops).regs .target = m.regs .learnedCeiling ∨
        polls ops ≤ raises half m ops + 2)
  cap : (proceed half m ops).regs .probeCap = m.regs .probeCap ∧ m.regs .probeCap ≤ m.regs .max
  settles : (levels m).room (m.regs .probeCap) + 2 ≤ latePolls m.data.lastLoss ops →
    (proceed half m ops).regs .learnedCeiling = m.regs .probeCap ∧
      (proceed half m ops).regs .target = m.regs .probeCap

variable {half} {s : ℕ} {m : Controller} {ops : List (Call × ℕ)}

theorem recovers_of_ready (hhalf : Antitone half) (h : Ready half s 0 none m s)
    (hquiet : Quiet half m s none ops) : Recovers half m ops := by
  have hfits := fits_proceed hhalf h hquiet
  obtain ⟨n', last', now', -, -, hframe, -, -⟩ :=
    ready_run hhalf h (b := []) (ops.append_nil.symm ▸ hquiet)
  refine ⟨fun a op b hops => ?_, fun hearly => ?_, ⟨hframe.probeCap, h.fits.probe_le⟩, fun hmany => ?_⟩
  · obtain ⟨n₁, last₁, now₁, hready, hrest, -, -, -⟩ := ready_run hhalf h (hops ▸ hquiet)
    obtain ⟨n₂, last₂, -, -, -, hmove⟩ := hready.step hhalf hrest
    have hconcat : proceed half m (a ++ [op]) =
        (exec op.2 (op.1.prog half) (proceed half m a)).2 := List.foldl_concat _ _ _ _
    rw [hconcat]
    exact (hmove.le hready.fits).2
  · obtain ⟨hlearned, hclimb, hcount⟩ := early_run hhalf h hquiet hearly
    have htop : (proceed half m ops).regs .target ≤ (proceed half m ops).regs .learnedCeiling :=
      hfits.target_le
    refine ⟨hlearned, fun hraises => ?_, hcount⟩
    omega
  · have hlearned : (proceed half m ops).regs .learnedCeiling ≤ m.regs .probeCap := hfits.learned_le
    have htop : (proceed half m ops).regs .target ≤ (proceed half m ops).regs .learnedCeiling :=
      hfits.target_le
    have hroom : (levels (proceed half m ops)).room (m.regs .probeCap) = 0 := by
      rcases late_run hhalf h hquiet with hnone | hless
      · exact hnone
      · omega
    unfold Levels.room levels at hroom
    dsimp only at hroom
    omega

/-- From any reached state whose loss gates are open, the recovery converges. -/
theorem recovery_converges (hhalf : Antitone half) (m₀ : Controller) (ceilingBps : UInt32)
    {start : ℕ} (hstart : start ≤ s) {pre : List (Call × ℕ)} (hpre : ∀ op ∈ pre, op.2 ≤ s)
    (hopen : LossGatesOpen half ((machine half m₀ ceilingBps start).run pre) s)
    (hquiet : Quiet half ((machine half m₀ ceilingBps start).run pre) s none ops) :
    Recovers half ((machine half m₀ ceilingBps start).run pre) ops := by
  have hbounded := run_bounded half m₀ ceilingBps start pre
  have hpast := past_run half m₀ ceilingBps hstart hpre
  refine recovers_of_ready hhalf ⟨?_, hopen, hpast.1, Or.inr hpast.2, le_rfl, fun hn => ?_⟩ hquiet
  · exact ⟨hbounded.min_eq ▸ hbounded.min_le, hbounded.target_le, hbounded.learned_le,
      hbounded.probe_le, hbounded.max_eq ▸ hbounded.top_le⟩
  · exact absurd hn (by decide)

theorem antitone_halvings : Antitone halvings := fun _ _ h =>
  pow_le_pow_of_le_one (by decide +kernel) (by decide +kernel) (Nat.div_le_div_right h)

theorem recovery_after_collapse :
    Recovers halvings ((machine halvings (new 0) 20000000 5000000000).run
      [(.onLoss (2 / 5), 6000000000)])
      [(.pollTarget, 13000000000), (.onRtt 20, 14000000000), (.pollTarget, 15000000000)] :=
  recovery_converges (s := 13000000000) antitone_halvings (new 0) 20000000 (by decide)
    (fun op hop => by rw [List.mem_singleton.mp hop]; decide)
    ⟨by decide +kernel, by decide +kernel⟩
    ⟨⟨le_rfl, nofun⟩, ⟨by decide, by unfold Calm; decide +kernel⟩,
      ⟨by decide, fun p hp => by cases hp; decide⟩, trivial⟩

end Recovery

end KmControl.RecoverySettles
