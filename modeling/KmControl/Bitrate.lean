import KmControl.Atomics
import Mathlib.Algebra.Order.Ring.Rat
import Mathlib.Data.Rat.Floor

/-!
The bitrate controller of the host. Its values are registers that several tasks load
and store, and its timers are behind a lock. Times are in nanoseconds. Products with
the decimal factors of the source are taken exactly and cut to integers; the power of
one half that makes the loss decay is a parameter.
-/
namespace KmControl.Bitrate

open Atomics

inductive Reg where
  | target
  | min
  | max
  | lossEwmaPpm
  | learnedCeiling
  | probeCap
deriving DecidableEq, Repr

structure Timing where
  lastLoss : Option ℕ
  lastDecrease : ℕ
  lastRecover : ℕ
  minRttMs : ℕ
  winMinRttMs : ℕ
  minRttEpoch : ℕ
  lastRtt : Option (ℕ × ℕ)
  rttStreak : ℕ
  lastRttDecrease : ℕ

abbrev Controller := Memory Reg Timing

def u32Max : ℕ := 2 ^ 32 - 1
def u128Max : ℕ := 2 ^ 128 - 1

def decreaseThrottleMs : ℕ := 400
def recoverDelayMs : ℕ := 5000
def recoverIntervalMs : ℕ := 2000
def recoverLossGate : ℚ := 2 / 100
def reprobeAfterMs : ℕ := 30000
def lossEwmaAlpha : ℚ := 3 / 10
def lossDecayGraceMs : ℕ := 500
def rttInflationMs : ℕ := 30
def rttTriggerSamples : ℕ := 3
def rttDecreaseThrottleMs : ℕ := 1000
def minRttWindowMs : ℕ := 30000
def rttStaleMs : ℕ := 3000

/-- `(x as f64 * percent / 100) as u32`. -/
def scale (x percent : ℕ) : ℕ := Nat.min (x * percent / 100) u32Max

/-- `now.duration_since(earlier).as_millis()`; it is 0 if `earlier` is later. -/
def millisSince (earlier now : ℕ) : ℕ := (now - earlier) / 1000000

def rttTriggerMs (minRttMs : ℕ) : ℕ := Nat.max rttInflationMs (minRttMs / 2)

/-- A time an hour ago, or now where the clock does not go back that far. -/
def staleInstant : Prog Reg Timing ℕ := do
  let now ← clock
  return if 3600 * 1000000000 ≤ now then now - 3600 * 1000000000 else now

/-- A reset once it has the lock. -/
def resetInside (ceiling : ℕ) : Prog Reg Timing Unit := do
  let lastDecrease ← staleInstant
  let lastRecover ← clock
  let minRttEpoch ← clock
  let lastRttDecrease ← staleInstant
  store .lossEwmaPpm 0
  store .learnedCeiling ceiling
  store .probeCap ceiling
  unlock
    { lastLoss := none, lastDecrease := lastDecrease, lastRecover := lastRecover,
      minRttMs := u32Max, winMinRttMs := u32Max, minRttEpoch := minRttEpoch, lastRtt := none,
      rttStreak := 0, lastRttDecrease := lastRttDecrease }

def configure (ceilingBps : UInt32) : Prog Reg Timing Unit := do
  let ceiling := Nat.max ceilingBps.toNat 1000000
  let floor := Nat.min 1000000 ceiling
  let start := Nat.min (Nat.max (Nat.min 3000000 (ceiling / 4)) floor) ceiling
  store .max ceiling
  store .min floor
  store .target start
  let _ ← lock
  resetInside ceiling

section Decay

variable (half : ℕ → ℚ)

/-- The loss that is left of `raw` after so many milliseconds; `half` gives the power of
one half for the time after the grace period. -/
def decayedLoss (raw : ℚ) (sinceLossMs : Option ℕ) : ℚ :=
  match sinceLossMs with
  | none => 0
  | some since =>
    if raw ≤ 0 then 0
    else if since < lossDecayGraceMs then raw else raw * half (since - lossDecayGraceMs)

def lossOf (ppm : ℕ) (t : Timing) (now : ℕ) : ℚ :=
  decayedLoss half (ppm / 1000000) (t.lastLoss.map (millisSince · now))

/-- The percentage that a loss leaves of the target. -/
def decreaseFactor (lossFraction : ℚ) : ℕ :=
  if 3 / 10 ≤ lossFraction then 50 else if lossFraction ≤ 5 / 100 then 75 else 60

/-- A loss signal once it has the lock. -/
def lossInside (lossFraction lf : ℚ) (min : ℕ) (t : Timing) : Prog Reg Timing Unit := do
  let now ← clock
  let ppm ← load .lossEwmaPpm
  let ewma := lossEwmaAlpha * lf + (1 - lossEwmaAlpha) * lossOf half ppm t now
  store .lossEwmaPpm (Nat.min (ewma * 1000000).floor.toNat u32Max)
  let t := { t with lastLoss := some now }
  if millisSince t.lastDecrease now < decreaseThrottleMs then unlock t else
  let cur ← load .target
  let next := Nat.max (scale cur (decreaseFactor lossFraction)) min
  store .target next
  let t := { t with lastDecrease := now }
  if 1 / 10 ≤ lossFraction then
    let collapse := scale cur 70
    let prevLc ← load .learnedCeiling
    let newLc := Nat.min (Nat.max collapse min) prevLc
    store .learnedCeiling newLc
    let prevPc ← load .probeCap
    store .probeCap (Nat.min (Nat.max (scale cur 120) newLc) prevPc)
    unlock t
  else unlock t

def onLoss (lossFraction : ℚ) : Prog Reg Timing Unit := do
  let max ← load .max
  if max = 0 then return () else
  let lf := Max.max 0 (Min.min lossFraction 1)
  let min ← load .min
  let t ← lock
  lossInside half lossFraction lf min t

/-- Take a sample into both minima; the window's minimum becomes the base line when the
window is over. -/
def Timing.observe (t : Timing) (rttMs now : ℕ) : Timing :=
  let t := if minRttWindowMs ≤ millisSince t.minRttEpoch now then
    { t with minRttMs := t.winMinRttMs, winMinRttMs := u32Max, minRttEpoch := now } else t
  { t with
    minRttMs := Nat.min t.minRttMs rttMs, winMinRttMs := Nat.min t.winMinRttMs rttMs,
    lastRtt := some (rttMs, now) }

/-- A round-trip sample once it has the lock. -/
def rttInside (rttMs now : ℕ) (t : Timing) : Prog Reg Timing Unit := do
  let t := t.observe rttMs now
  if rttMs - t.minRttMs < rttTriggerMs t.minRttMs then unlock { t with rttStreak := 0 } else
  let t := { t with rttStreak := (t.rttStreak + 1) % 2 ^ 32 }
  if t.rttStreak < rttTriggerSamples then unlock t else
  if millisSince t.lastRttDecrease now < rttDecreaseThrottleMs then unlock t else
  let cur ← load .target
  let min ← load .min
  store .target (Nat.max (scale cur 85) min)
  unlock { t with lastRttDecrease := now, rttStreak := 0 }

def onRtt (rttMs : ℕ) : Prog Reg Timing Unit := do
  let max ← load .max
  if max = 0 then return () else
  let now ← clock
  let t ← lock
  rttInside rttMs now t

/-- The delay gate: a recent sample is well above the base line. -/
def Timing.inflated (t : Timing) (now : ℕ) : Bool :=
  t.lastRtt.any fun (rtt, at_) => decide (millisSince at_ now < rttStaleMs) &&
    decide (t.minRttMs ≠ u32Max) && decide (rttTriggerMs t.minRttMs ≤ rtt - t.minRttMs)

/-- The increase of one recovery step. -/
def recoverStep (max cur : ℕ) : ℕ := Nat.max (Nat.max (scale max 3) (scale cur 10)) 250000

/-- The last part of a poll: one step up, if there is room below the learned ceiling. -/
def climb (t : Timing) (now max cur lc : ℕ) : Prog Reg Timing ℕ := do
  let cap := Nat.min lc max
  if cap ≤ cur then do unlock t; return cur else
  let next := Nat.min (Nat.min (cur + recoverStep max cur) u32Max) cap
  store .target next
  unlock { t with lastRecover := now }
  return next

/-- A poll once it has the lock. -/
def pollInside (t : Timing) (now max cur : ℕ) : Prog Reg Timing ℕ := do
  let sinceLoss := (t.lastLoss.map (millisSince · now)).getD u128Max
  if sinceLoss < recoverDelayMs then do unlock t; return cur else
  let ppm ← load .lossEwmaPpm
  if recoverLossGate ≤ lossOf half ppm t now then do unlock t; return cur else
  if t.inflated now then do unlock t; return cur else
  if millisSince t.lastRecover now < recoverIntervalMs then do unlock t; return cur else
  let probeCap ← load .probeCap
  let lc ← load .learnedCeiling
  if lc < probeCap ∧ reprobeAfterMs ≤ sinceLoss then
    let raised := Nat.min (scale lc 102) probeCap
    store .learnedCeiling raised
    climb t now max cur raised
  else climb t now max cur lc

def pollTarget : Prog Reg Timing ℕ := do
  let max ← load .max
  if max = 0 then return 0 else
  let cur ← load .target
  let now ← clock
  let t ← lock
  pollInside half t now max cur

end Decay

/-- A decay by halves every two seconds, for whole steps. -/
def halvings (ms : ℕ) : ℚ := (1 / 2) ^ (ms / 2000)

/-- The calls of the tasks of a running pipeline. -/
inductive Call where
  | pollTarget
  | onLoss (lossFraction : ℚ)
  | onRtt (rttMs : ℕ)
deriving DecidableEq

def Call.prog (half : ℕ → ℚ) : Call → Prog Reg Timing Unit
  | .pollTarget => do let _ ← Bitrate.pollTarget half
  | .onLoss lossFraction => Bitrate.onLoss half lossFraction
  | .onRtt rttMs => Bitrate.onRtt rttMs

/-- `Default`: nothing is negotiated yet. -/
def new (now : ℕ) : Controller where
  regs := fun _ => 0
  data :=
    { lastLoss := none, lastDecrease := now, lastRecover := now, minRttMs := u32Max,
      winMinRttMs := u32Max, minRttEpoch := now, lastRtt := none, rttStreak := 0,
      lastRttDecrease := now }

end KmControl.Bitrate
