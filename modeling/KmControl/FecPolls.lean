import KmControl.Bitrate
import KmControl.Observers

/-!
The share of parity, asked for with every frame. The loss that it depends on decays with the
time since the last loss and is not written back, so it does not matter to the controller how
many frames there are.
-/
namespace KmControl.FecPolls

open Atomics Bitrate Interleaving Observers

def fecMinPct : ℕ := 15

def fecMaxPct : ℕ := 25

def fecSaturationLoss : ℚ := 10 / 100

section Poll

variable (half : ℕ → ℚ)

/-- The clock is read only if there has been a loss. -/
def sinceLossMs (t : Timing) : Prog Reg Timing (Option ℕ) :=
  match t.lastLoss with
  | none => return none
  | some at_ => do
    let now ← clock
    return some (millisSince at_ now)

/-- Without room above the floor the loss is a sign of congestion, and more parity would only
make it worse. -/
def fecPercentage (sinceLossMs : Option ℕ) (ppm target min : ℕ) : ℕ :=
  let ewma := decayedLoss half (ppm / 1000000) sinceLossMs
  if min = 0 ∨ target ≤ min * 3 % 2 ^ 32 / 2 then fecMinPct
  else
    let frac := Max.max 0 (Min.min (ewma / fecSaturationLoss) 1)
    fecMinPct + (((fecMaxPct - fecMinPct : ℕ) : ℚ) * frac).floor.toNat

def pollFecPercentage : Prog Reg Timing ℕ := do
  let t ← lock
  let since ← sinceLossMs t
  unlock t
  let ppm ← load .lossEwmaPpm
  let target ← load .target
  let min ← load .min
  return fecPercentage half since ppm target min

/-- Every poll gives a percentage in the range of the source. -/
theorem fecPercentage_mem (sinceLossMs : Option ℕ) (ppm target min : ℕ) :
    fecMinPct ≤ fecPercentage half sinceLossMs ppm target min ∧
      fecPercentage half sinceLossMs ppm target min ≤ fecMaxPct := by
  unfold fecPercentage
  dsimp only
  split
  · exact ⟨le_refl _, by decide⟩
  · refine ⟨Nat.le_add_right _ _, ?_⟩
    generalize decayedLoss half (ppm / 1000000) sinceLossMs / fecSaturationLoss = ratio
    have hfrac : Max.max 0 (Min.min ratio 1) ≤ 1 := max_le zero_le_one (min_le_right _ _)
    have hscaled : ((fecMaxPct - fecMinPct : ℕ) : ℚ) * Max.max 0 (Min.min ratio 1) ≤
        ((fecMaxPct - fecMinPct : ℕ) : ℚ) := mul_le_of_le_one_right (Nat.cast_nonneg _) hfrac
    have hfloor : (((fecMaxPct - fecMinPct : ℕ) : ℚ) * Max.max 0 (Min.min ratio 1)).floor ≤
        ((fecMaxPct - fecMinPct : ℕ) : ℤ) := by
      exact_mod_cast (Rat.floor_le _).trans hscaled
    have hnat := Int.toNat_le.mpr hfloor
    have hsum : fecMinPct + (fecMaxPct - fecMinPct) = fecMaxPct := by decide
    omega

theorem readOnly_sinceLossMs (t : Timing) {rest : Option ℕ → Prog Reg Timing ℕ}
    (h : ∀ since, ReadOnly (rest since) (some t)) : ReadOnly (sinceLossMs t >>= rest) (some t) := by
  unfold sinceLossMs
  cases t.lastLoss with
  | none => exact h none
  | some at_ => exact fun now => h (some (millisSince at_ now))

/-- A poll only looks. -/
theorem readOnly_pollFecPercentage : ReadOnly (pollFecPercentage half) none :=
  ⟨rfl, fun t => readOnly_sinceLossMs t fun _ => ⟨rfl, fun _ _ _ => rfl⟩⟩

end Poll

section Requests

variable (half : ℕ → ℚ)

/-- All that the tasks of the host ask of the controller. -/
inductive Request where
  | configure (ceilingBps : UInt32)
  | call (c : Call)
  | fec

def Request.prog : Request → Prog Reg Timing Unit
  | .configure ceilingBps => Bitrate.configure ceilingBps
  | .call c => c.prog half
  | .fec => do let _ ← pollFecPercentage half

theorem bracketed_configure (ceilingBps : UInt32) :
    Bracketed (Bitrate.configure ceilingBps) false :=
  ⟨rfl, fun _ _ _ _ _ => ⟨rfl, rfl⟩⟩

theorem bracketed_pollTarget : Bracketed (Bitrate.pollTarget half) false := by
  refine fun max => .ite rfl fun cur now => ⟨rfl, fun t => ?_⟩
  have hclimb : ∀ lc, Bracketed (climb t now max cur lc) true := fun lc =>
    .ite ⟨rfl, rfl⟩ ⟨rfl, rfl⟩
  refine .ite ⟨rfl, rfl⟩ fun ppm => .ite ⟨rfl, rfl⟩ (.ite ⟨rfl, rfl⟩ (.ite ⟨rfl, rfl⟩ ?_))
  exact fun probeCap lc => .ite (hclimb _) (hclimb lc)

theorem bracketed_onLoss (lossFraction : ℚ) : Bracketed (Bitrate.onLoss half lossFraction) false := by
  refine fun max => .ite rfl fun min => ⟨rfl, fun t now ppm => ?_⟩
  refine .ite ⟨rfl, rfl⟩ fun cur => .ite ?_ ⟨rfl, rfl⟩
  exact fun lc pc => ⟨rfl, rfl⟩

theorem bracketed_onRtt (rttMs : ℕ) : Bracketed (Bitrate.onRtt rttMs) false := by
  refine fun max => .ite rfl fun now => ⟨rfl, fun t => ?_⟩
  refine .ite ⟨rfl, rfl⟩ (.ite ⟨rfl, rfl⟩ (.ite ⟨rfl, rfl⟩ ?_))
  exact fun cur min => ⟨rfl, rfl⟩

theorem bracketed_request {r : Request} (h : r ≠ .fec) : Bracketed (r.prog half) false := by
  cases r with
  | configure ceilingBps => exact bracketed_configure ceilingBps
  | fec => exact absurd rfl h
  | call c =>
    cases c with
    | pollTarget => exact (bracketed_pollTarget half).bind_unit
    | onLoss lossFraction => exact bracketed_onLoss half lossFraction
    | onRtt rttMs => exact bracketed_onRtt rttMs

/-- In every interleaving of all the calls, the polls for the share of parity leave no trace:
some run without them leaves the same memory, with every task that is not just polling at the
same point of the same call. -/
theorem fec_polls_unseen {T : Type} [DecidableEq T] (m : Controller) (moves : List (Move T Request)) :
    ∃ others : List (Move T Request), others.Sublist moves ∧ (∀ t, .start t .fec ∉ others) ∧
      ((machine (Request.prog half) m).run others).mem =
        ((machine (Request.prog half) m).run moves).mem ∧
      ∀ t, ((machine (Request.prog half) m).run others).task t =
          ((machine (Request.prog half) m).run moves).task t ∨
        ReadOnly (((machine (Request.prog half) m).run moves).task t).prog
          (held ((machine (Request.prog half) m).run moves) t) := by
  have hlooks : ∀ r, r = Request.fec → ReadOnly (r.prog half) none := by
    rintro r rfl
    exact (readOnly_pollFecPercentage half).bind_unit
  have hothers : ∀ r, ¬ r = Request.fec → Bracketed (r.prog half) false :=
    fun r hr => bracketed_request half hr
  obtain ⟨others, hsub, hstarts, hshadows⟩ := exists_run_without hlooks hothers m moves
  refine ⟨others, hsub, fun t h => hstarts t .fec h rfl, hshadows.mem_eq, fun t => ?_⟩
  exact (hshadows.follows t).symm.imp (fun h => h.1) fun h => h.1

end Requests

end KmControl.FecPolls
