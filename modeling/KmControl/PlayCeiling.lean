import KmControl.Negotiation

/-!
The bitrate ceiling that a PLAY request sets. The first request of a process derives it
from the picture and the negotiated bitrate; a later one, which finds the pipeline
running, takes the negotiated bitrate alone.
-/
namespace KmControl.PlayCeiling

open Negotiation

/-- What asking for the primary monitor and its two dimensions gives. -/
abbrev Monitor := Option (UInt32 × UInt32)

def atLeast (lo x : UInt32) : UInt32 := if x < lo then lo else x

section Ceiling

variable (ctx : StreamContext) (monitor : Monitor)

/-- The size of the desktop, or of the viewport where that is not known. -/
def nativeSize : UInt32 × UInt32 :=
  let (w, h) := monitor.getD (ctx.width, ctx.height)
  (atLeast 2 w, atLeast 2 h)

/-- The size of the picture: the desktop shrunk into the viewport, with even sides. -/
def outputSize : UInt32 × UInt32 :=
  let (nw, nh) := nativeSize ctx monitor
  let (bw, bh) := (ctx.width, ctx.height)
  let (w, h) :=
    if bw = 0 ∨ bh = 0 ∨ (nw ≤ bw ∧ nh ≤ bh) then (nw, nh)
    else
      let s := min (bw.toFloat / nw.toFloat) (bh.toFloat / nh.toFloat)
      (atLeast 2 (nw.toFloat * s).toUInt32, atLeast 2 (nh.toFloat * s).toUInt32)
  (w &&& ~~~1, h &&& ~~~1)

/-- The floor under the bitrate of the first request. -/
def pictureFloor : UInt32 :=
  let (w, h) := outputSize ctx monitor
  ctx.bitrateFloor w.toNat h.toNat

/-- What the hook of a PLAY request hands to `BitrateController::configure`. -/
def playCeiling (pipelineStarted : Bool) : UInt32 :=
  if pipelineStarted then ctx.negotiatedBitrate
  else
    let (w, h) := outputSize ctx monitor
    ctx.encoderBitrate w.toNat h.toNat

theorem encoderBitrate_eq_negotiated (w h : ℕ) :
    ctx.encoderBitrate w h = ctx.negotiatedBitrate ↔
      ctx.bitrateFloor w h ≤ ctx.negotiatedBitrate := by
  unfold StreamContext.encoderBitrate
  by_cases hlt : ctx.negotiatedBitrate < ctx.bitrateFloor w h
  · refine iff_of_false (fun heq => ?_) (UInt32.not_le.mpr hlt)
    simp only [hlt, if_true] at heq
    rw [heq] at hlt
    exact UInt32.lt_irrefl _ hlt
  · refine iff_of_true ?_ (UInt32.not_lt.mp hlt)
    simp only [hlt, if_false]

/-- A later request sets the ceiling of the first precisely where the negotiated bitrate
reaches the floor. -/
theorem same_ceiling_iff : playCeiling ctx monitor true = playCeiling ctx monitor false ↔
    pictureFloor ctx monitor ≤ ctx.negotiatedBitrate := by
  rw [eq_comm]
  exact encoderBitrate_eq_negotiated ctx _ _

end Ceiling

/-- A viewer that reconnects at full high definition with the default bitrate is held below
the ceiling that it had. -/
theorem reconnect_lowers_ceiling :
    let ctx : StreamContext := ⟨1920, 1080, 60, 1024, 10000000, 0⟩
    playCeiling ctx (some (1920, 1080)) false = 12441600 ∧
      playCeiling ctx (some (1920, 1080)) true = 10000000 := by
  decide

end KmControl.PlayCeiling
