import KmControl.Bitrate
import KmControl.Encoders
import KmControl.Negotiation

/-!
The decision of the two encoders to take over a new bitrate. It compares two
products in 32-bit words. At the bitrates of the host both can wrap, and then
the comparison is right only if the words that are cut off order the products
as the words that are left do.
-/
namespace KmControl.BitrateDecision

open Encoders

/-- The words above the lowest order two numbers as the lowest words do, unless they are
equal and decide nothing. -/
def WordsAgree (x y : ℕ) : Prop :=
  x / 2 ^ 32 = y / 2 ^ 32 ∨ (x / 2 ^ 32 < y / 2 ^ 32 ↔ x % 2 ^ 32 ≤ y % 2 ^ 32)

theorem mod_le_mod_iff (x y : ℕ) :
    (x % 2 ^ 32 ≤ y % 2 ^ 32 ↔ x ≤ y) ↔ WordsAgree x y := by
  have hx := Nat.div_add_mod x (2 ^ 32)
  have hy := Nat.div_add_mod y (2 ^ 32)
  unfold WordsAgree
  omega

theorem wordsAgree_of_lt {x y : ℕ} (hx : x < 2 ^ 32) (hy : y < 2 ^ 32) : WordsAgree x y :=
  Or.inl ((Nat.div_eq_of_lt hx).trans (Nat.div_eq_of_lt hy).symm)

section Decision

variable (cur b : UInt32)

/-- The exact distance of two bitrates. -/
def distance : ℕ := ((b.toNat : ℤ) - cur.toNat).natAbs

/-- The threshold in exact arithmetic. -/
def EnoughExactly : Prop := cur.toNat * (thresholdPct cur b).toNat ≤ distance cur b * 100

/-- What the rule for new bitrates is for. -/
structure DecidesExactly : Prop where
  changed : changedEnough cur b = true ↔ EnoughExactly cur b
  lowered : b < cur → cur.toNat * 15 ≤ (cur.toNat - b.toNat) * 100 →
    ∀ (z : ZeroCopyEncoder) (q : QsvEncoder) (now : ℕ), z.bitrate = cur → q.bitrate = cur →
      z.lastReconfig + 2000 ≤ now → q.lastReconfig + 2000 ≤ now →
        (z.setBitrate b now true).bitrate = b ∧ (q.setBitrate b now true).bitrate = b
  same : ∀ (z : ZeroCopyEncoder) (q : QsvEncoder) (now : ℕ) (built : Bool), z.bitrate = cur →
    q.bitrate = cur → z.lastReconfig = q.lastReconfig →
      (z.setBitrate b now built).bitrate = (q.setBitrate b now built).bitrate ∧
        (z.setBitrate b now built).lastReconfig = (q.setBitrate b now built).lastReconfig

theorem toNat_absDiff : (absDiff b cur).toNat = distance cur b := by
  unfold absDiff distance
  split
  · rename_i hlt
    have hle : b ≤ cur := by
      rw [UInt32.le_iff_toNat_le]
      exact (UInt32.lt_iff_toNat_lt.mp hlt).le
    rw [UInt32.toNat_sub_of_le _ _ hle]
    have := UInt32.lt_iff_toNat_lt.mp hlt
    omega
  · rename_i hlt
    have hle : cur ≤ b := by
      rw [UInt32.le_iff_toNat_le]
      rw [UInt32.lt_iff_toNat_lt] at hlt
      exact Nat.le_of_not_lt hlt
    rw [UInt32.toNat_sub_of_le _ _ hle]
    have := UInt32.le_iff_toNat_le.mp hle
    omega

/-- The comparison of the code is one of remainders. -/
theorem changedEnough_eq_true : changedEnough cur b = true ↔
    cur.toNat * (thresholdPct cur b).toNat % 2 ^ 32 ≤ distance cur b * 100 % 2 ^ 32 := by
  unfold changedEnough
  rw [decide_eq_true_iff, UInt32.le_iff_toNat_le, UInt32.toNat_mul, UInt32.toNat_mul,
    toNat_absDiff]
  rfl

theorem changedEnough_exact : (changedEnough cur b = true ↔ EnoughExactly cur b) ↔
    WordsAgree (cur.toNat * (thresholdPct cur b).toNat) (distance cur b * 100) := by
  rw [changedEnough_eq_true]
  exact mod_le_mod_iff _ _

/-- With the interval elapsed a change that is large enough is applied. -/
theorem reconfigures_of_changedEnough {elapsed : ℕ} (h : changedEnough cur b = true)
    (helapsed : minInterval cur b ≤ elapsed) : reconfigures cur b elapsed = true := by
  have hlate : decide (elapsed < minInterval cur b) = false :=
    decide_eq_false (Nat.not_lt.mpr helapsed)
  simp only [reconfigures, h, hlate, Bool.not_true, Bool.false_and, Bool.and_false,
    Bool.false_eq_true, if_false]

theorem lowering_applied (hexact : changedEnough cur b = true ↔ EnoughExactly cur b)
    (hlower : b < cur) (hpct : cur.toNat * 15 ≤ (cur.toNat - b.toNat) * 100) {elapsed : ℕ}
    (helapsed : 2000 ≤ elapsed) : reconfigures cur b elapsed = true := by
  have hdown : goingDown cur b = true := decide_eq_true hlower
  have hpercent : thresholdPct cur b = 15 := by simp [thresholdPct, hdown]
  have hinterval : minInterval cur b = 2000 := by simp [minInterval, hdown]
  have hlt := UInt32.lt_iff_toNat_lt.mp hlower
  refine reconfigures_of_changedEnough cur b (hexact.mpr ?_) (hinterval ▸ helapsed)
  have hdistance : distance cur b = cur.toNat - b.toNat := by
    unfold distance
    omega
  rw [EnoughExactly, hpercent, hdistance]
  exact hpct

/-- The encoders decide as exact arithmetic does precisely where the words of the two
products agree. -/
theorem decidesExactly_iff : DecidesExactly cur b ↔
    WordsAgree (cur.toNat * (thresholdPct cur b).toNat) (distance cur b * 100) := by
  rw [← changedEnough_exact]
  refine ⟨DecidesExactly.changed, fun hexact => ⟨hexact, ?_, ?_⟩⟩
  · intro hlower hpct z q now hz hq hztime hqtime
    have happlied : ∀ last, last + 2000 ≤ now → reconfigures cur b (now - last) = true :=
      fun last hlast => lowering_applied cur b hexact hlower hpct (by omega)
    constructor
    · simp [ZeroCopyEncoder.setBitrate, hz, happlied _ hztime]
    · simp [QsvEncoder.setBitrate, hq, happlied _ hqtime]
  · intro z q now built hz hq hlast
    unfold ZeroCopyEncoder.setBitrate QsvEncoder.setBitrate
    rw [hz, hq, hlast]
    split
    · exact ⟨rfl, rfl⟩
    · exact ⟨hz.trans hq.symm, hlast⟩

/-- Two losses of a half each lower the largest floor to a bitrate that the encoders
ignore. -/
theorem lowering_ignored :
    let ctx : Negotiation.StreamContext := ⟨2560, 1440, 165, 1024, 10000000, 0⟩
    let cur := ctx.encoderBitrate 2560 1440
    let b := Bitrate.scale (Bitrate.scale cur.toNat 50) 50
    cur.toNat = 60000000 ∧ b = 15000000 ∧ ¬ DecidesExactly cur (UInt32.ofNat b) := by
  refine ⟨by decide, by decide, fun h => ?_⟩
  have hwrapped : changedEnough 60000000 15000000 = false := by decide
  have hexact : EnoughExactly 60000000 15000000 := by
    unfold EnoughExactly
    decide
  exact Bool.noConfusion (hwrapped.symm.trans (h.changed.mpr hexact))

end Decision

end KmControl.BitrateDecision
