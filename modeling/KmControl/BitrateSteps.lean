import KmControl.Bitrate

/-!
What the calls of the bitrate controller do to its registers. Inside the lock every
store keeps the registers in order, whatever was read outside; and as long as a reset
may come in between, a call that has not read more than the new ceiling does not store
more.
-/
namespace KmControl.BitrateSteps

open Atomics Bitrate

def floorBps : ℕ := 1000000

/-- The registers are in order below the ceiling `top`, and nothing is probed above `cap`. -/
structure Bounded (top cap : ℕ) (regs : Reg → ℕ) : Prop where
  min_eq : regs .min = floorBps
  min_le : regs .min ≤ regs .target
  target_le : regs .target ≤ regs .learnedCeiling
  learned_le : regs .learnedCeiling ≤ regs .probeCap
  probe_le : regs .probeCap ≤ regs .max
  max_eq : regs .max = top
  top_le : top ≤ u32Max
  cap_le : regs .probeCap ≤ cap

/-- What a register of a running controller may hold. -/
def Possible (r : Reg) (v : ℕ) : Prop :=
  (r = Reg.min → v = floorBps) ∧ (r = Reg.target → floorBps ≤ v)

theorem Bounded.possible {top cap : ℕ} {regs : Reg → ℕ} (h : Bounded top cap regs) (r : Reg) :
    Possible r (regs r) := by
  constructor
  · rintro rfl
    exact h.min_eq
  · rintro rfl
    exact h.min_eq ▸ h.min_le

theorem Bounded.tighten {top cap cap' : ℕ} {regs : Reg → ℕ} (h : Bounded top cap regs)
    (hcap : regs .probeCap ≤ cap') : Bounded top cap' regs :=
  { h with cap_le := hcap }

theorem scale_le {x percent : ℕ} (h : percent ≤ 100) : scale x percent ≤ x := by
  unfold scale
  refine (Nat.min_le_left _ _).trans (Nat.div_le_of_le_mul ?_)
  rw [Nat.mul_comm 100]
  exact Nat.mul_le_mul_left x h

theorem le_scale {x percent : ℕ} (hx : x ≤ u32Max) (h : 100 ≤ percent) : x ≤ scale x percent := by
  unfold scale
  refine Nat.le_min.mpr ⟨(Nat.le_div_iff_mul_le (by decide)).mpr ?_, hx⟩
  exact Nat.mul_le_mul_left x h

theorem scale_le_scale (x : ℕ) {p q : ℕ} (h : p ≤ q) : scale x p ≤ scale x q := by
  unfold scale
  exact min_le_min_right _ (Nat.div_le_div_right (Nat.mul_le_mul_left x h))

theorem decreaseFactor_le (lossFraction : ℚ) : decreaseFactor lossFraction ≤ 100 := by
  unfold decreaseFactor
  split
  · decide
  · split <;> decide

/-- A loss that counts as a collapse leaves less of the target than of the ceiling. -/
theorem decreaseFactor_of_collapse {lossFraction : ℚ} (h : 1 / 10 ≤ lossFraction) :
    decreaseFactor lossFraction ≤ 70 := by
  unfold decreaseFactor
  split
  · decide
  · rw [if_neg]
    · decide
    · intro hsmall
      have hten : (1 / 10 : ℚ) ≤ 5 / 100 := h.trans hsmall
      norm_num at hten

section Stores

variable {top cap : ℕ} {regs : Reg → ℕ} {v : ℕ}

theorem Bounded.store_ewma (h : Bounded top cap regs) :
    Bounded top cap (Function.update regs .lossEwmaPpm v) :=
  ⟨h.min_eq, h.min_le, h.target_le, h.learned_le, h.probe_le, h.max_eq, h.top_le, h.cap_le⟩

theorem Bounded.store_target (h : Bounded top cap regs) (hmin : floorBps ≤ v)
    (hlc : v ≤ regs .learnedCeiling) : Bounded top cap (Function.update regs .target v) :=
  ⟨h.min_eq, h.min_eq.trans_le hmin, hlc, h.learned_le, h.probe_le, h.max_eq, h.top_le, h.cap_le⟩

theorem Bounded.store_learnedCeiling (h : Bounded top cap regs) (htarget : regs .target ≤ v)
    (hprobe : v ≤ regs .probeCap) : Bounded top cap (Function.update regs .learnedCeiling v) :=
  ⟨h.min_eq, h.min_le, htarget, hprobe, h.probe_le, h.max_eq, h.top_le, h.cap_le⟩

/-- The cap may only come down. -/
theorem Bounded.store_probeCap (h : Bounded top cap regs) (hlc : regs .learnedCeiling ≤ v)
    (hprobe : v ≤ regs .probeCap) : Bounded top cap (Function.update regs .probeCap v) :=
  ⟨h.min_eq, h.min_le, h.target_le, hlc, hprobe.trans h.probe_le, h.max_eq, h.top_le,
    hprobe.trans h.cap_le⟩

end Stores

section Critical

variable {top cap : ℕ} {regs : Reg → ℕ}

/-- The step up stays between the target that was read and the learned ceiling. -/
theorem le_next {max cur lc : ℕ} (hcur : floorBps ≤ cur) (hroom : cur < Nat.min lc max) :
    floorBps ≤ Nat.min (Nat.min (cur + recoverStep max cur) u32Max) (Nat.min lc max) := by
  have hbound : floorBps ≤ u32Max := by decide
  exact Nat.le_min.mpr ⟨Nat.le_min.mpr ⟨by omega, hbound⟩, by omega⟩

theorem critical_climb (h : Bounded top cap regs) (t : Timing) (now max : ℕ) {cur : ℕ}
    (hcur : floorBps ≤ cur) :
    Critical (Bounded top cap) regs (climb t now max cur (regs .learnedCeiling)) := by
  unfold climb
  refine .ite (fun _ => trivial) fun hroom => ⟨?_, trivial⟩
  refine h.store_target (le_next hcur (Nat.not_le.mp hroom)) ?_
  exact (Nat.min_le_right _ _).trans (Nat.min_le_left _ _)

theorem critical_pollInside (half : ℕ → ℚ) (h : Bounded top cap regs) (t : Timing) (now max : ℕ)
    {cur : ℕ} (hcur : floorBps ≤ cur) :
    Critical (Bounded top cap) regs (pollInside half t now max cur) := by
  unfold pollInside
  refine .ite (fun _ => trivial) fun _ => (critical_load _ _).mpr ?_
  refine .ite (fun _ => trivial) fun _ => .ite (fun _ => trivial) fun _ => ?_
  refine .ite (fun _ => trivial) fun _ => (critical_load _ _).mpr ((critical_load _ _).mpr ?_)
  refine .ite (fun hreprobe => ?_) fun _ => critical_climb h t now max hcur
  have hlc : regs .learnedCeiling ≤ Nat.min (scale (regs .learnedCeiling) 102) (regs .probeCap) :=
    Nat.le_min.mpr ⟨le_scale (h.learned_le.trans (h.probe_le.trans (h.max_eq.trans_le h.top_le))) (by decide),
      h.learned_le⟩
  have hraised := h.store_learnedCeiling (h.target_le.trans hlc) (Nat.min_le_right _ _)
  exact ⟨hraised, critical_climb hraised t now max hcur⟩

theorem critical_rttInside (h : Bounded top cap regs) (rttMs now : ℕ) (t : Timing) :
    Critical (Bounded top cap) regs (rttInside rttMs now t) := by
  unfold rttInside
  refine .ite (fun _ => trivial) fun _ => .ite (fun _ => trivial) fun _ => ?_
  refine .ite (fun _ => trivial) fun _ => (critical_load _ _).mpr ((critical_load _ _).mpr ?_)
  refine ⟨h.store_target ?_ ?_, trivial⟩
  · exact h.min_eq.ge.trans (Nat.le_max_right _ _)
  · exact (Nat.max_le.mpr ⟨scale_le (by decide), h.min_le⟩).trans h.target_le

theorem critical_lossInside (half : ℕ → ℚ) (h : Bounded top cap regs) (lossFraction lf : ℚ)
    (t : Timing) : Critical (Bounded top cap) regs (lossInside half lossFraction lf floorBps t) := by
  unfold lossInside
  refine (critical_clock _).mpr fun now => (critical_load _ _).mpr ⟨h.store_ewma, ?_⟩
  generalize hregs : Function.update regs Reg.lossEwmaPpm _ = regs₁
  replace h : Bounded top cap regs₁ := hregs ▸ h.store_ewma
  refine .ite (fun _ => trivial) fun _ => (critical_load _ _).mpr ?_
  have hnext : Nat.max (scale (regs₁ .target) (decreaseFactor lossFraction)) floorBps ≤
      regs₁ .target :=
    Nat.max_le.mpr ⟨scale_le (decreaseFactor_le lossFraction), h.min_eq ▸ h.min_le⟩
  have htarget := h.store_target (Nat.le_max_right _ _) (hnext.trans h.target_le)
  refine ⟨htarget, .ite (fun hcollapse => ?_) fun _ => trivial⟩
  refine (critical_load _ _).mpr ?_
  have hlearned := htarget.store_learnedCeiling
    (v := Nat.min (Nat.max (scale (regs₁ .target) 70) floorBps) (regs₁ .learnedCeiling))
    (Nat.le_min.mpr ⟨?_, htarget.target_le⟩) ((Nat.min_le_right _ _).trans h.learned_le)
  · refine ⟨hlearned, (critical_load _ _).mpr ⟨hlearned.store_probeCap ?_ ?_, trivial⟩⟩
    · exact Nat.le_min.mpr ⟨Nat.le_max_right _ _, hlearned.learned_le⟩
    · exact Nat.min_le_right _ _
  · exact max_le_max_right _ (scale_le_scale _ (decreaseFactor_of_collapse hcollapse))

end Critical

section Exposed

/-- The register that limits what a call stores into the target. -/
def limit : Call → Reg
  | .pollTarget => Reg.max
  | .onLoss _ => Reg.target
  | .onRtt _ => Reg.target

/-- A call may store a target that is not above what it has read. -/
def Allowed (r : Reg) (reads : Reg → ℕ) (stored : Reg) (v : ℕ) : Prop :=
  stored ≠ Reg.min ∧ stored ≠ Reg.max ∧
    (stored = Reg.target → floorBps ≤ v ∧
      ∀ ceiling, floorBps ≤ ceiling → reads r ≤ ceiling → v ≤ ceiling)

theorem allowed_of_ne {r stored : Reg} {reads : Reg → ℕ} {v : ℕ} (hmin : stored ≠ Reg.min)
    (hmax : stored ≠ Reg.max) (htarget : stored ≠ Reg.target) : Allowed r reads stored v :=
  ⟨hmin, hmax, fun h => absurd h htarget⟩

theorem exposed_climb (t : Timing) (now : ℕ) {max cur : ℕ} (lc : ℕ) {reads : Reg → ℕ}
    (hmax : reads .max = max) (hcur : floorBps ≤ cur) :
    Exposed Possible (Allowed .max) reads (climb t now max cur lc) := by
  unfold climb
  refine .ite (fun _ => trivial) fun hroom => ⟨⟨?_, ?_, fun _ => ⟨?_, ?_⟩⟩, trivial⟩
  · rintro ⟨⟩
  · rintro ⟨⟩
  · exact le_next hcur (Nat.not_le.mp hroom)
  · intro ceiling _ hceiling
    exact ((Nat.min_le_right _ _).trans (Nat.min_le_right _ _)).trans (hmax ▸ hceiling)

theorem exposed_pollInside (half : ℕ → ℚ) (t : Timing) (now : ℕ) {max cur : ℕ}
    {reads : Reg → ℕ} (hmax : reads .max = max) (hcur : floorBps ≤ cur) :
    Exposed Possible (Allowed .max) reads (pollInside half t now max cur) := by
  unfold pollInside
  refine .ite (fun _ => trivial) fun _ => (exposed_load _ _).mpr fun ppm _ => ?_
  refine .ite (fun _ => trivial) fun _ => .ite (fun _ => trivial) fun _ => ?_
  refine .ite (fun _ => trivial) fun _ => (exposed_load _ _).mpr fun probeCap _ => ?_
  refine (exposed_load _ _).mpr fun lc _ => .ite (fun _ => ⟨?_, ?_⟩) fun _ => ?_
  · exact allowed_of_ne (by rintro ⟨⟩) (by rintro ⟨⟩) (by rintro ⟨⟩)
  · exact exposed_climb t now _ hmax hcur
  · exact exposed_climb t now lc hmax hcur

theorem exposed_rttInside (rttMs now : ℕ) (t : Timing) (reads : Reg → ℕ) :
    Exposed Possible (Allowed .target) reads (rttInside rttMs now t) := by
  unfold rttInside
  refine .ite (fun _ => trivial) fun _ => .ite (fun _ => trivial) fun _ => ?_
  refine .ite (fun _ => trivial) fun _ => (exposed_load _ _).mpr fun cur hcur => ?_
  refine (exposed_load _ _).mpr fun min hmin => ⟨⟨?_, ?_, fun _ => ⟨?_, ?_⟩⟩, trivial⟩
  · rintro ⟨⟩
  · rintro ⟨⟩
  · exact (hmin.1 rfl).ge.trans (Nat.le_max_right _ _)
  · intro ceiling hfloor hceiling
    exact Nat.max_le.mpr ⟨(scale_le (by decide)).trans hceiling, (hmin.1 rfl).trans_le hfloor⟩

theorem exposed_lossInside (half : ℕ → ℚ) (lossFraction lf : ℚ) (t : Timing) (reads : Reg → ℕ) :
    Exposed Possible (Allowed .target) reads (lossInside half lossFraction lf floorBps t) := by
  unfold lossInside
  refine (exposed_clock _).mpr fun now => (exposed_load _ _).mpr fun ppm _ => ⟨?_, ?_⟩
  · exact allowed_of_ne (by rintro ⟨⟩) (by rintro ⟨⟩) (by rintro ⟨⟩)
  · refine .ite (fun _ => trivial) fun _ => (exposed_load _ _).mpr fun cur hcur => ?_
    refine ⟨⟨?_, ?_, fun _ => ⟨Nat.le_max_right _ _, ?_⟩⟩, .ite (fun _ => ?_) fun _ => trivial⟩
    · rintro ⟨⟩
    · rintro ⟨⟩
    · intro ceiling hfloor hceiling
      exact Nat.max_le.mpr ⟨(scale_le (decreaseFactor_le _)).trans hceiling, hfloor⟩
    · refine (exposed_load _ _).mpr fun lc _ => ⟨?_, (exposed_load _ _).mpr fun pc _ => ⟨?_, ?_⟩⟩
      · exact allowed_of_ne (by rintro ⟨⟩) (by rintro ⟨⟩) (by rintro ⟨⟩)
      · exact allowed_of_ne (by rintro ⟨⟩) (by rintro ⟨⟩) (by rintro ⟨⟩)
      · trivial

end Exposed

/-- What holds of a call once it has the lock: alone it keeps the registers in order,
and with others about it stores what it may. -/
structure Inside {α : Type} (r : Reg) (reads : Reg → ℕ) (p : Prog Reg Timing α) : Prop where
  critical : ∀ top cap regs, Bounded top cap regs → Critical (Bounded top cap) regs p
  exposed : Exposed Possible (Allowed r) reads p

theorem entering_pollTarget (half : ℕ → ℚ) (reads : Reg → ℕ) :
    Entering Possible (Inside .max) reads (pollTarget half) := by
  refine (entering_load _ _).mpr fun max _ => .ite (fun _ => trivial) fun _ => ?_
  refine (entering_load _ _).mpr fun cur hcur => (entering_clock _).mpr fun now => ?_
  refine (entering_lock _).mpr fun t => ⟨fun _ _ _ h => ?_, ?_⟩
  · exact critical_pollInside half h t now max (hcur.2 rfl)
  · exact exposed_pollInside half t now rfl (hcur.2 rfl)

/-- Every call is safe from its start, whatever it reads before it takes the lock. -/
theorem entering_prog (half : ℕ → ℚ) (call : Call) (reads : Reg → ℕ) :
    Entering Possible (Inside (limit call)) reads (call.prog half) := by
  cases call with
  | pollTarget =>
    refine (entering_pollTarget half reads).bind (fun _ => trivial) fun reads q hq => ⟨?_, ?_⟩
    · exact fun top cap regs h => (hq.critical top cap regs h).bind fun _ => trivial
    · exact hq.exposed.bind fun _ => trivial
  | onLoss lossFraction =>
    refine (entering_load _ _).mpr fun max _ => .ite (fun _ => trivial) fun _ => ?_
    refine (entering_load _ _).mpr fun min hmin => (entering_lock _).mpr fun t => ?_
    obtain rfl := hmin.1 rfl
    exact ⟨fun _ _ _ h => critical_lossInside half h _ _ t, exposed_lossInside half _ _ t _⟩
  | onRtt rttMs =>
    refine (entering_load _ _).mpr fun max _ => .ite (fun _ => trivial) fun _ => ?_
    refine (entering_clock _).mpr fun now => (entering_lock _).mpr fun t => ?_
    exact ⟨fun _ _ _ h => critical_rttInside h rttMs now t, exposed_rttInside rttMs now t _⟩

/-- A call that runs alone keeps the registers in order. -/
theorem exec_bounded (half : ℕ → ℚ) (call : Call) (now : ℕ) {top cap : ℕ} {m : Controller}
    (h : Bounded top cap m.regs) : Bounded top cap (exec now (call.prog half) m).2.regs :=
  exec_of_entering h h.possible (fun _ _ hq => hq.critical top cap m.regs h)
    (entering_prog half call fun _ => 0) now

/-- The ceiling that a reset stores. -/
def ceilingOf (ceilingBps : UInt32) : ℕ := Nat.max ceilingBps.toNat floorBps

/-- The target that a reset stores. -/
def startOf (ceiling : ℕ) : ℕ :=
  Nat.min (Nat.max (Nat.min 3000000 (ceiling / 4)) (Nat.min floorBps ceiling)) ceiling

theorem floorBps_le_ceilingOf (ceilingBps : UInt32) : floorBps ≤ ceilingOf ceilingBps :=
  Nat.le_max_right _ _

theorem ceilingOf_le (ceilingBps : UInt32) : ceilingOf ceilingBps ≤ u32Max := by
  have hc := ceilingBps.toNat_lt
  refine Nat.max_le.mpr ⟨?_, by decide⟩
  unfold u32Max
  omega

theorem floorBps_le_startOf {ceiling : ℕ} (h : floorBps ≤ ceiling) : floorBps ≤ startOf ceiling :=
  Nat.le_min.mpr ⟨(Nat.le_min.mpr ⟨Nat.le_refl _, h⟩).trans (Nat.le_max_right _ _), h⟩

/-- After a reset the registers are in order below the new ceiling. -/
theorem exec_configure (ceilingBps : UInt32) (now : ℕ) (m : Controller) :
    Bounded (ceilingOf ceilingBps) (ceilingOf ceilingBps)
      (exec now (configure ceilingBps) m).2.regs := by
  have hfloor := floorBps_le_ceilingOf ceilingBps
  have hmin : (exec now (configure ceilingBps) m).2.regs .min = floorBps := Nat.min_eq_left hfloor
  refine ⟨hmin, hmin.trans_le (floorBps_le_startOf hfloor), ?_, ?_, ?_, rfl, ?_, ?_⟩
  · exact Nat.min_le_right _ _
  · exact Nat.le_refl _
  · exact Nat.le_refl _
  · exact ceilingOf_le ceilingBps
  · exact Nat.le_refl _

end KmControl.BitrateSteps
