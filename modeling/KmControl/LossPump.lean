import KmControl.Machine
import Mathlib.Algebra.Group.Nat.Defs
import Mathlib.Data.List.Chain

/-!
The client's pump of reported losses: a loss is answered by a request for a key
frame, unless the last request is more recent than a fixed interval. Nothing is
scheduled for later. Times are nanoseconds.
-/
namespace KmControl.LossPump

/-- `IDR_MIN_INTERVAL`, 300 ms. -/
def idrMinInterval : ℕ := 300 * 10 ^ 6

/-- A frame reported as unrecoverable, and when the pump takes it from its queue. -/
structure Loss where
  frameIndex : UInt32
  now : ℕ
deriving DecidableEq, Repr

structure Pump where
  last : Option ℕ
  /-- The times of the requests made so far. -/
  requests : List ℕ
deriving DecidableEq, Repr

/-- The interval since the last request has not passed. -/
def Pump.suppresses (s : Pump) (now : ℕ) : Bool :=
  s.last.any fun t => decide (now - t < idrMinInterval)

theorem Pump.suppresses_iff {s : Pump} {now : ℕ} :
    s.suppresses now = true ↔ ∃ r, s.last = some r ∧ now - r < idrMinInterval := by
  unfold Pump.suppresses
  cases s.last <;> simp

def step (s : Pump) (loss : Loss) : Pump :=
  if s.suppresses loss.now then s
  else ⟨some loss.now, s.requests ++ [loss.now]⟩

def machine : Machine Pump Loss where
  init := ⟨none, []⟩
  step := step

/-- A request is in force at this time: it is no later and less than an interval old. -/
def Covers (r now : ℕ) : Prop := r ≤ now ∧ now < r + idrMinInterval

/-- The pump remembers its last request, and requests are an interval apart. -/
structure Paced (s : Pump) : Prop where
  last : s.last = s.requests.getLast?
  spaced : s.requests.IsChain fun r r' => r + idrMinInterval ≤ r'

theorem step_paced {s : Pump} (h : Paced s) (loss : Loss) : Paced (step s loss) := by
  unfold step
  split
  · exact h
  · rename_i hsuppresses
    refine ⟨(List.getLast?_concat).symm, ?_⟩
    refine List.isChain_append.mpr ⟨h.spaced, List.isChain_singleton _, ?_⟩
    intro r hr r' hr'
    rw [List.head?_singleton] at hr'
    cases hr'
    rw [Pump.suppresses_iff] at hsuppresses
    push Not at hsuppresses
    have hpassed := hsuppresses r (h.last.trans hr)
    have hpos : 0 < idrMinInterval := by decide
    omega

theorem run_paced (losses : List Loss) : Paced (machine.run losses) :=
  Machine.run_invariant machine (I := Paced) ⟨rfl, List.isChain_nil⟩
    (fun _ loss hs => step_paced hs loss) losses

/-- The losses come in the order of time. -/
def Ascending (losses : List Loss) : Prop := losses.Pairwise fun a b => a.now ≤ b.now

theorem requests_step (s : Pump) (loss : Loss) : s.requests <+: (step s loss).requests := by
  unfold step
  split
  · exact List.prefix_refl _
  · exact List.prefix_append _ _

theorem exists_loss_of_request (losses : List Loss) {r : ℕ}
    (hr : r ∈ (machine.run losses).requests) : ∃ loss ∈ losses, loss.now = r := by
  induction losses using List.reverseRecOn with
  | nil => cases hr
  | append_singleton losses loss ih =>
    rw [Machine.run_concat] at hr
    change r ∈ (step _ _).requests at hr
    unfold step at hr
    split at hr
    · obtain ⟨l, hl, hnow⟩ := ih hr
      exact ⟨l, List.mem_append_left _ hl, hnow⟩
    · rcases List.mem_append.mp hr with hold | hnew
      · obtain ⟨l, hl, hnow⟩ := ih hold
        exact ⟨l, List.mem_append_left _ hl, hnow⟩
      · exact ⟨loss, List.mem_append_right _ List.mem_cons_self, (List.mem_singleton.mp hnew).symm⟩

/-- The last request is in force when the last loss is handled. -/
theorem last_covered (losses : List Loss) (loss : Loss) (hlosses : Ascending (losses ++ [loss])) :
    ∃ r ∈ (machine.run (losses ++ [loss])).requests.getLast?, Covers r loss.now := by
  have hpaced := run_paced losses
  have hearlier : ∀ r ∈ (machine.run losses).requests, r ≤ loss.now := by
    intro r hr
    obtain ⟨l, hl, rfl⟩ := exists_loss_of_request losses hr
    exact (List.pairwise_append.mp hlosses).2.2 l hl loss List.mem_cons_self
  rw [Machine.run_concat]
  change ∃ r ∈ (step _ _).requests.getLast?, _
  generalize machine.run losses = s at hpaced hearlier
  unfold step
  split
  · rename_i hsuppresses
    obtain ⟨r, hr, hrecent⟩ := Pump.suppresses_iff.mp hsuppresses
    have hlast : r ∈ s.requests.getLast? := hpaced.last.symm.trans hr
    refine ⟨r, hlast, hearlier r (List.mem_of_getLast? hlast), ?_⟩
    omega
  · refine ⟨loss.now, List.getLast?_concat, le_rfl, ?_⟩
    exact Nat.lt_add_of_pos_right (by decide)

/-- Every loss is covered by a request that is less than an interval old, and after
the last loss this is the last request. -/
theorem covered_by_recent_request (losses : List Loss) (hlosses : Ascending losses) :
    (∀ loss ∈ losses, ∃ r ∈ (machine.run losses).requests, Covers r loss.now) ∧
      ∀ loss ∈ losses.getLast?,
        ∃ r ∈ (machine.run losses).requests.getLast?, Covers r loss.now := by
  induction losses using List.reverseRecOn with
  | nil => exact ⟨fun _ h => absurd h List.not_mem_nil, fun _ h => nomatch h⟩
  | append_singleton losses loss ih =>
    have hlast := last_covered losses loss hlosses
    refine ⟨fun l hl => ?_, fun l hl => ?_⟩
    · rcases List.mem_append.mp hl with hold | hnew
      · obtain ⟨r, hr, hcovers⟩ := (ih (List.pairwise_append.mp hlosses).1).1 l hold
        rw [Machine.run_concat]
        exact ⟨r, (requests_step _ loss).subset hr, hcovers⟩
      · obtain ⟨r, hr, hcovers⟩ := hlast
        rw [List.mem_singleton.mp hnew]
        exact ⟨r, List.mem_of_getLast? hr, hcovers⟩
    · rw [List.getLast?_concat] at hl
      cases hl
      exact hlast

def twoLosses : List Loss := [⟨1, 0⟩, ⟨2, 100 * 10 ^ 6⟩]

theorem covered_two_losses : Ascending twoLosses ∧
    ∀ loss ∈ twoLosses.getLast?,
      ∃ r ∈ (machine.run twoLosses).requests.getLast?, Covers r loss.now :=
  have hascending : Ascending twoLosses := by simp [Ascending, twoLosses]
  ⟨hascending, (covered_by_recent_request twoLosses hascending).2⟩

/-- The second of two losses within an interval is left with the earlier request. -/
theorem second_loss_unrequested : Ascending twoLosses ∧
    ¬ ∀ loss ∈ twoLosses.getLast?,
      ∃ r ∈ (machine.run twoLosses).requests.getLast?, loss.now ≤ r := by
  refine ⟨by simp [Ascending, twoLosses], fun h => ?_⟩
  obtain ⟨r, hr, hle⟩ := h ⟨2, 100 * 10 ^ 6⟩ rfl
  have hrun : machine.run twoLosses = ⟨some 0, [0]⟩ := by decide
  rw [hrun] at hr
  cases hr
  exact absurd hle (by decide)

end KmControl.LossPump
