import KmControl.BitrateBounds

/-!
How the target climbs back. A poll that no gate holds back raises two values: the
learned ceiling, once the last loss is long ago, and the target below it. Each such
poll narrows the room below the cap on probing until there is none.
-/
namespace KmControl.Recovery

open Atomics Bitrate BitrateSteps

/-- The two values that climb. -/
structure Levels where
  learned : ℕ
  target : ℕ

namespace Levels

section Climb

variable (max probeCap : ℕ)

/-- One poll. The learned ceiling follows only if the last loss is long ago. -/
def raise (late : Bool) (v : Levels) : Levels :=
  let learned :=
    if v.learned < probeCap ∧ late = true then Nat.min (scale v.learned 102) probeCap
    else v.learned
  let cap := Nat.min learned max
  { learned := learned
    target :=
      if cap ≤ v.target then v.target
      else Nat.min (Nat.min (v.target + recoverStep max v.target) u32Max) cap }

/-- The values are in order. -/
structure Fits (v : Levels) : Prop where
  floor : floorBps ≤ v.target
  target_le : v.target ≤ v.learned
  learned_le : v.learned ≤ probeCap
  probe_le : probeCap ≤ max
  max_le : max ≤ u32Max

/-- What is left to climb. -/
def room (v : Levels) : ℕ := probeCap - v.learned + (probeCap - v.target)

variable {max probeCap} {v : Levels}

theorem learned_raise (late : Bool) (h : v.Fits max probeCap) :
    v.learned ≤ (v.raise max probeCap late).learned ∧
      (v.raise max probeCap late).learned ≤ probeCap := by
  have hle := le_scale (h.learned_le.trans (h.probe_le.trans h.max_le)) (by decide : 100 ≤ 102)
  unfold raise
  dsimp only
  split
  · exact ⟨Nat.le_min.mpr ⟨hle, h.learned_le⟩, Nat.min_le_right _ _⟩
  · exact ⟨le_rfl, h.learned_le⟩

/-- The learned ceiling rises by two percent, which is more than nothing. -/
theorem lt_learned_raise (h : v.Fits max probeCap) (hlt : v.learned < probeCap) :
    v.learned < (v.raise max probeCap true).learned := by
  have hfloor : floorBps ≤ v.learned := h.floor.trans h.target_le
  have hmax : probeCap ≤ u32Max := h.probe_le.trans h.max_le
  have hscale : v.learned < scale v.learned 102 := by
    unfold floorBps at hfloor
    unfold scale
    exact Nat.lt_min.mpr ⟨by omega, by omega⟩
  unfold raise
  dsimp only
  rw [if_pos ⟨hlt, rfl⟩]
  exact Nat.lt_min.mpr ⟨hscale, hlt⟩

/-- The target rises by a step or up to the learned ceiling. -/
theorem target_raise (late : Bool) (h : v.Fits max probeCap) :
    v.target ≤ (v.raise max probeCap late).target ∧
      (v.raise max probeCap late).target ≤ (v.raise max probeCap late).learned ∧
      Nat.min (v.raise max probeCap late).learned (v.target + 250000) ≤
        (v.raise max probeCap late).target := by
  obtain ⟨hlow, hhigh⟩ := learned_raise late h
  have htarget : (v.raise max probeCap late).target =
      if Nat.min (v.raise max probeCap late).learned max ≤ v.target then v.target
      else Nat.min (Nat.min (v.target + recoverStep max v.target) u32Max)
        (Nat.min (v.raise max probeCap late).learned max) := rfl
  have hstep : 250000 ≤ recoverStep max v.target := Nat.le_max_right _ _
  have hcap : Nat.min (v.raise max probeCap late).learned max =
      (v.raise max probeCap late).learned := Nat.min_eq_left (hhigh.trans h.probe_le)
  have hword := hhigh.trans (h.probe_le.trans h.max_le)
  have htop := h.target_le.trans hlow
  rw [htarget, hcap]
  generalize (v.raise max probeCap late).learned = learned at *
  split
  · exact ⟨le_rfl, htop, (Nat.min_le_left _ _).trans (by omega)⟩
  · refine ⟨?_, Nat.min_le_right _ _, ?_⟩
    · exact Nat.le_min.mpr ⟨Nat.le_min.mpr ⟨by omega, by omega⟩, by omega⟩
    · refine Nat.le_min.mpr ⟨Nat.le_min.mpr ⟨?_, ?_⟩, Nat.min_le_left _ _⟩
      · exact (Nat.min_le_right _ _).trans (by omega)
      · exact (Nat.min_le_left _ _).trans hword

theorem fits_raise (late : Bool) (h : v.Fits max probeCap) :
    (v.raise max probeCap late).Fits max probeCap where
  floor := h.floor.trans (target_raise late h).1
  target_le := (target_raise late h).2.1
  learned_le := (learned_raise late h).2
  probe_le := h.probe_le
  max_le := h.max_le

theorem learned_raise_early : (v.raise max probeCap false).learned = v.learned :=
  if_neg fun h => Bool.noConfusion h.2

/-- A late poll narrows the room, unless there is none. -/
theorem room_raise (h : v.Fits max probeCap) :
    v.room probeCap = 0 ∨ (v.raise max probeCap true).room probeCap < v.room probeCap := by
  obtain ⟨hlow, hhigh⟩ := learned_raise true h
  obtain ⟨hup, htop, hstep⟩ := target_raise true h
  have htarget := h.target_le
  have hlearned := h.learned_le
  unfold room
  by_cases hlt : v.learned < probeCap
  · have hrise := lt_learned_raise h hlt
    omega
  · by_cases hroom : v.target < probeCap
    · have hmin : v.target < Nat.min (v.raise max probeCap true).learned (v.target + 250000) :=
        Nat.lt_min.mpr ⟨by omega, by omega⟩
      omega
    · omega

theorem room_raise_le (late : Bool) (h : v.Fits max probeCap) :
    (v.raise max probeCap late).room probeCap ≤ v.room probeCap := by
  have hlow := (learned_raise late h).1
  have hup := (target_raise late h).1
  unfold room
  omega

end Climb

end Levels

section Poll

/-- Milliseconds since the last loss; a time beyond all others if there was none. -/
def sinceLoss (lastLoss : Option ℕ) (now : ℕ) : ℕ :=
  (lastLoss.map (millisSince · now)).getD u128Max

variable (half : ℕ → ℚ)

/-- The gates of the loss are open: the last one is some time ago, and what is left of the
average is small. -/
structure LossGatesOpen (m : Controller) (now : ℕ) : Prop where
  delay : recoverDelayMs ≤ sinceLoss m.data.lastLoss now
  ewma : lossOf half (m.regs .lossEwmaPpm) m.data now < recoverLossGate

/-- The last loss is long enough ago for probing. -/
def late (m : Controller) (now : ℕ) : Bool :=
  decide (reprobeAfterMs ≤ sinceLoss m.data.lastLoss now)

/-- The other two gates of a poll: an inflated sample, and the interval between raises. -/
def Held (m : Controller) (now : ℕ) : Prop :=
  m.data.inflated now = true ∨ millisSince m.data.lastRecover now < recoverIntervalMs

def levels (m : Controller) : Levels := ⟨m.regs .learnedCeiling, m.regs .target⟩

def poll (m : Controller) (now : ℕ) : Controller := (exec now (Call.pollTarget.prog half) m).2

/-- What a poll does once its gates are open. -/
structure Polled (m m' : Controller) (now : ℕ) : Prop where
  levels : levels m' = (levels m).raise (m.regs .max) (m.regs .probeCap) (late m now)
  regs : ∀ r, r ≠ .learnedCeiling → r ≠ .target → m'.regs r = m.regs r
  data : m'.data = { m.data with lastRecover := m'.data.lastRecover }
  lastRecover : m'.data.lastRecover = m.data.lastRecover ∨ m'.data.lastRecover = now

/-- The end of a poll: the target follows the ceiling that the registers hold by then. -/
theorem exec_climb (m : Controller) (now max : ℕ) :
    let m' := (exec now (climb m.data now max (m.regs .target) (m.regs .learnedCeiling)) m).2
    (∀ r, r ≠ .target → m'.regs r = m.regs r) ∧
      m'.regs .target = (if Nat.min (m.regs .learnedCeiling) max ≤ m.regs .target
        then m.regs .target
        else Nat.min (Nat.min (m.regs .target + recoverStep max (m.regs .target)) u32Max)
          (Nat.min (m.regs .learnedCeiling) max)) ∧
      m'.data = { m.data with lastRecover := m'.data.lastRecover } ∧
      (m'.data.lastRecover = m.data.lastRecover ∨ m'.data.lastRecover = now) := by
  unfold climb
  dsimp only
  by_cases hroom : Nat.min (m.regs .learnedCeiling) max ≤ m.regs .target
  · rw [if_pos hroom, if_pos hroom]
    exact ⟨fun _ _ => rfl, rfl, rfl, Or.inl rfl⟩
  · rw [if_neg hroom, if_neg hroom]
    exact ⟨fun r hr => Function.update_of_ne hr _ _, rfl, rfl, Or.inr rfl⟩

/-- A poll with the loss gates open: it is held, or it raises what it may. -/
theorem poll_cases {m : Controller} {now : ℕ} (hmax : m.regs .max ≠ 0)
    (hopen : LossGatesOpen half m now) :
    (Held m now ∧ poll half m now = m) ∨ (¬ Held m now ∧ Polled m (poll half m now) now) := by
  have hdelay : ¬ (m.data.lastLoss.map (millisSince · now)).getD u128Max < recoverDelayMs :=
    Nat.not_lt.mpr hopen.delay
  have hewma : ¬ recoverLossGate ≤ lossOf half (m.regs .lossEwmaPpm) m.data now :=
    not_le.mpr hopen.ewma
  have hpoll : poll half m now = (exec now (pollTarget half) m).2 := exec_bind_unit now m _
  rw [hpoll]
  unfold pollTarget pollInside
  simp only [exec_load, if_neg hmax, exec_clock, exec_lock, if_neg hdelay, if_neg hewma]
  by_cases hrtt : m.data.inflated now = true
  · rw [if_pos hrtt]
    exact Or.inl ⟨Or.inl hrtt, rfl⟩
  rw [if_neg hrtt]
  by_cases hrecover : millisSince m.data.lastRecover now < recoverIntervalMs
  · rw [if_pos hrecover]
    exact Or.inl ⟨Or.inr hrecover, rfl⟩
  rw [if_neg hrecover]
  refine Or.inr ⟨not_or.mpr ⟨hrtt, hrecover⟩, ?_⟩
  simp only [exec_load]
  by_cases hprobe : m.regs .learnedCeiling < m.regs .probeCap ∧
      reprobeAfterMs ≤ (m.data.lastLoss.map (millisSince · now)).getD u128Max
  · rw [if_pos hprobe]
    simp only [exec_store]
    generalize hraised :
      m.store .learnedCeiling (Nat.min (scale (m.regs .learnedCeiling) 102) (m.regs .probeCap)) = m₁
    have hlearned : m₁.regs .learnedCeiling =
        Nat.min (scale (m.regs .learnedCeiling) 102) (m.regs .probeCap) := by rw [← hraised]; rfl
    have hother : ∀ r, r ≠ .learnedCeiling → m₁.regs r = m.regs r := by
      intro r hr
      rw [← hraised]
      exact Function.update_of_ne hr _ _
    have hdata : m₁.data = m.data := by rw [← hraised]; rfl
    have hclimb := exec_climb m₁ now (m.regs .max)
    rw [hdata, hother .target (by decide), hlearned] at hclimb
    obtain ⟨hregs, htarget, hsame, hwhen⟩ := hclimb
    refine ⟨?_, fun r hr hr' => (hregs r hr').trans (hother r hr), hsame, hwhen⟩
    have hlate : late m now = true := decide_eq_true hprobe.2
    unfold levels Levels.raise
    simp only [htarget, hregs .learnedCeiling (by decide), hlearned, hlate, hprobe.1, and_self,
      if_true]
  · rw [if_neg hprobe]
    obtain ⟨hregs, htarget, hsame, hwhen⟩ := exec_climb m now (m.regs .max)
    refine ⟨?_, fun r _ hr' => hregs r hr', hsame, hwhen⟩
    have hlate : ¬ (m.regs .learnedCeiling < m.regs .probeCap ∧ late m now = true) :=
      fun h => hprobe ⟨h.1, of_decide_eq_true h.2⟩
    unfold levels Levels.raise
    simp only [htarget, hregs .learnedCeiling (by decide), if_neg hlate]

end Poll

end KmControl.Recovery
