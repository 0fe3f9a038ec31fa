import KmControl.Alike
import KmControl.Jitter
import KmControl.RttProbes

/-!
A steady link. If the time of a datagram in the network varies by no more than fourteen
milliseconds each way, all round trips lie within thirty milliseconds of each other, and then
the controller does what it would do if it never got one.
-/
namespace KmControl.SteadyLink

open Atomics Bitrate BitrateBounds BitrateSteps Jitter RecoveryRuns RttProbes VideoLink

section Timers

/-- Timers that differ in what the samples have left, where those of the second have none. -/
structure SameBut (base : ℕ) (t t' : Timing) : Prop where
  banded : Banded base t
  unsampled : t'.lastRtt = none
  lastLoss : t.lastLoss = t'.lastLoss
  lastDecrease : t.lastDecrease = t'.lastDecrease
  lastRecover : t.lastRecover = t'.lastRecover

variable {base now : ℕ} {t t' : Timing} (half : ℕ → ℚ)

theorem SameBut.inflated (h : SameBut base t t') : t.inflated now = t'.inflated now := by
  rw [h.banded.settled.not_inflated now]
  unfold Timing.inflated
  rw [h.unsampled]
  rfl

theorem SameBut.loss (h : SameBut base t t') :
    SameBut base { t with lastLoss := some now } { t' with lastLoss := some now } :=
  ⟨stable_banded.loss t h.banded, h.unsampled, rfl, h.lastDecrease, h.lastRecover⟩

theorem SameBut.decrease (h : SameBut base t t') :
    SameBut base { t with lastDecrease := now } { t' with lastDecrease := now } :=
  ⟨stable_banded.decrease t h.banded, h.unsampled, h.lastLoss, rfl, h.lastRecover⟩

theorem SameBut.recover (h : SameBut base t t') :
    SameBut base { t with lastRecover := now } { t' with lastRecover := now } :=
  ⟨stable_banded.recover t h.banded, h.unsampled, h.lastLoss, h.lastDecrease, rfl⟩

/-- A sample of the band leaves its marks on one side only. -/
theorem SameBut.observe (h : SameBut base t t') {rttMs : ℕ} (hsample : InBand base rttMs) :
    SameBut base { t.observe rttMs now with rttStreak := 0 } t' := by
  have hbanded : Banded base { t.observe rttMs now with rttStreak := 0 } :=
    (@stable_banded base now).streak _ 0 (h.banded.observe hsample)
  refine ⟨hbanded, h.unsampled, ?_, ?_, ?_⟩
  · rw [← h.lastLoss]
    unfold Timing.observe
    dsimp only
    split <;> rfl
  · rw [← h.lastDecrease]
    unfold Timing.observe
    dsimp only
    split <;> rfl
  · rw [← h.lastRecover]
    unfold Timing.observe
    dsimp only
    split <;> rfl

theorem alike_climb (h : SameBut base t t') (max cur lc : ℕ) :
    Alike now (SameBut base) (climb t now max cur lc) (climb t' now max cur lc) :=
  .ite (fun _ => .unlock h (.ret cur)) fun _ => .store _ _ (.unlock h.recover (.ret _))

theorem alike_pollInside (h : SameBut base t t') (max cur : ℕ) :
    Alike now (SameBut base) (pollInside half t now max cur) (pollInside half t' now max cur) := by
  unfold pollInside lossOf
  rw [h.lastLoss, h.lastRecover, h.inflated]
  refine .ite (fun _ => .unlock h (.ret cur)) fun _ => .load _ fun ppm => ?_
  refine .ite (fun _ => .unlock h (.ret cur)) fun _ => ?_
  refine .ite (fun _ => .unlock h (.ret cur)) fun _ => ?_
  refine .ite (fun _ => .unlock h (.ret cur)) fun _ => .load _ fun probeCap => .load _ fun lc => ?_
  exact .ite (fun _ => .store _ _ (alike_climb h max cur _)) fun _ => alike_climb h max cur lc

theorem alike_lossInside (h : SameBut base t t') (lossFraction lf : ℚ) (min : ℕ) :
    Alike now (SameBut base) (lossInside half lossFraction lf min t)
      (lossInside half lossFraction lf min t') := by
  have hloss : SameBut base { t with lastLoss := some now } { t' with lastLoss := some now } :=
    h.loss
  have hdecreased : SameBut base { t with lastLoss := some now, lastDecrease := now }
      { t' with lastLoss := some now, lastDecrease := now } := hloss.decrease
  unfold lossInside lossOf
  rw [h.lastLoss, h.lastDecrease]
  rw [h.lastDecrease] at hloss
  refine .clock (.load _ fun ppm => .store _ _ ?_)
  refine .ite (fun _ => .unlock hloss (.ret ())) fun _ => .load _ fun cur => .store _ _ ?_
  refine .ite (fun _ => .load _ fun lc => .store _ _ ?_) fun _ => .unlock hdecreased (.ret ())
  exact .load _ fun pc => .store _ _ (.unlock hdecreased (.ret ()))

/-- Polls and losses cannot tell such timers apart. -/
theorem alike_call {call : Call} (hcall : ∀ rttMs, call ≠ .onRtt rttMs) :
    Alike now (SameBut base) (call.prog half) (call.prog half) := by
  cases call with
  | onRtt rttMs => exact absurd rfl (hcall rttMs)
  | pollTarget =>
    refine Alike.bind_unit (.load _ fun max => .ite (fun _ => .ret 0) fun _ => ?_)
    exact .load _ fun cur => .clock (.lock fun _ _ h => alike_pollInside half h max cur)
  | onLoss lossFraction =>
    refine .load _ fun max => .ite (fun _ => .ret ()) fun _ => .load _ fun min => ?_
    exact .lock fun _ _ h => alike_lossInside half h lossFraction _ min

end Timers

section Runs

variable (half : ℕ → ℚ) (m : Controller) (ceilingBps : UInt32) (start : ℕ) {base : ℕ}
  {ops : List (Call × ℕ)}

/-- A call that is not a sample. -/
def unsampled : Call × ℕ → Bool
  | (.onRtt _, _) => false
  | _ => true

/-- With all samples in a band of thirty milliseconds the controller is level with one that
gets none. -/
theorem level_run (hops : ∀ rttMs at_, (.onRtt rttMs, at_) ∈ ops → InBand base rttMs) :
    Level (SameBut base) ((machine half m ceilingBps start).run ops)
      ((machine half m ceilingBps start).run (ops.filter unsampled)) := by
  induction ops using List.reverseRecOn with
  | nil => exact ⟨rfl, ⟨Or.inr rfl, Or.inr rfl, nofun⟩, rfl, rfl, rfl, rfl⟩
  | append_singleton ops op ih =>
    have hlevel := ih fun rttMs at_ hmem => hops rttMs at_ (List.mem_append_left _ hmem)
    rw [Machine.run_concat, List.filter_append]
    obtain ⟨call, now⟩ := op
    cases call with
    | pollTarget =>
      have hall : [(Call.pollTarget, now)].filter unsampled = [(Call.pollTarget, now)] := rfl
      rw [hall, Machine.run_concat]
      exact hlevel.exec (alike_call half fun _ heq => by cases heq)
    | onLoss lossFraction =>
      have hall : [(Call.onLoss lossFraction, now)].filter unsampled =
          [(Call.onLoss lossFraction, now)] := rfl
      rw [hall, Machine.run_concat]
      exact hlevel.exec (alike_call half fun _ heq => by cases heq)
    | onRtt rttMs =>
      have hnone : [(Call.onRtt rttMs, now)].filter unsampled = [] := rfl
      rw [hnone, List.append_nil]
      have hsample := hops rttMs now (List.mem_append_right _ List.mem_cons_self)
      have hmax : ((machine half m ceilingBps start).run ops).regs .max ≠ 0 := by
        have hfloor := floorBps_le_ceilingOf ceilingBps
        rw [(run_bounded half m ceilingBps start ops).max_eq]
        unfold floorBps at hfloor
        omega
      have hcalm : Calm ((machine half m ceilingBps start).run ops).data rttMs now :=
        sub_lt_trigger (hlevel.data.banded.observe hsample).min hsample
      have hexec := exec_onRtt hmax hcalm half
      show Level (SameBut base) (exec now ((Call.onRtt rttMs).prog half)
        ((machine half m ceilingBps start).run ops)).2 _
      rw [hexec]
      exact ⟨hlevel.regs_eq, hlevel.data.observe hsample⟩

end Runs

section Links

variable {rs : FecRs} {Addr : Type} {packetSize δ L : ℕ} {a : Addr}

/-- Ages that differ by so little lie in a band. -/
theorem inBand_of_isAge {down : List (Addr × Datagram)} {x : Sample Addr}
    (h : IsAge δ L a down x) (hjitter : 2 * L ≤ 2 * δ + 28 * 10 ^ 6) : InBand (2 * δ / 10 ^ 6) x.rttMs := by
  obtain ⟨t, -, ⟨hlow, hhigh⟩, hrtt, hsane⟩ := h
  have hword : maxSaneRttMs ≤ u32Max := by decide
  exact ⟨by omega, by omega, hsane.trans hword⟩

variable [DecidableEq Addr]

/-- As long as the controller gets the samples of the client of a steady link, and whatever
polls and losses come in between, its registers are those of a controller that gets none. -/
theorem steady_link (hrs : rs.Lawful) (hL : 2 * L < (2 ^ 32 - 1) * 10 ^ 6)
    (hjitter : 2 * L ≤ 2 * δ + 28 * 10 ^ 6) {linkOps : List (VideoLink.Op Addr)}
    (hpaced : (VideoLink.machine rs Addr packetSize a).Along (Paced δ L a) linkOps)
    (half : ℕ → ℚ) (m : Controller) (ceilingBps : UInt32) (start : ℕ) {ops : List (Call × ℕ)}
    (hops : ∀ rttMs at_, (.onRtt rttMs, at_) ∈ ops →
      ⟨a, at_, rttMs⟩ ∈ ((VideoLink.machine rs Addr packetSize a).run linkOps).samples) :
    ((machine half m ceilingBps start).run ops).regs =
      ((machine half m ceilingBps start).run (ops.filter unsampled)).regs :=
  (level_run half m ceilingBps start fun rttMs at_ hmem => inBand_of_isAge
    ((probing_run hrs hL hpaced).samples _ (hops rttMs at_ hmem) rfl) hjitter).regs_eq

theorem steady_one_probe :
    ((machine halvings (new 0) 20000000 0).run
      [(.onRtt 10, 15000000), (.pollTarget, 9000000000)]).regs =
      ((machine halvings (new 0) 20000000 0).run [(.pollTarget, 9000000000)]).regs := by
  obtain ⟨rs, hrs⟩ := FecRs.exists_lawful
  refine steady_link hrs (by decide) (by decide) (paced_probe rs) halvings (new 0) 20000000 0
    fun rttMs at_ hmem => ?_
  have hsamples : ((VideoLink.machine rs ℕ 1024 1).run probeOps).samples =
      [⟨1, 15000000, 10⟩] := rfl
  rw [List.mem_cons, List.mem_singleton, Prod.mk.injEq, Prod.mk.injEq, Call.onRtt.injEq] at hmem
  rw [hsamples]
  rcases hmem with ⟨rfl, rfl⟩ | ⟨hpoll, -⟩
  · exact List.mem_singleton.mpr rfl
  · cases hpoll

end Links

end KmControl.SteadyLink
