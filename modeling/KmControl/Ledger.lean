import Mathlib.Data.List.Count
import Mathlib.Logic.Relation
import Mathlib.Order.WithBot

/-!
An account of items that pass through slots in some order. An item is opened at
most once, is delivered or not while its slot is open, and its slot is closed
at some time; a mark, the highest index closed so far, keeps closed items from
being opened again. Delivery is only possible when no lower slot is open. The
account reaches exactly one outcome for every item ever opened. If moreover no
item is opened behind a delivered one, deliveries are in ascending order.
-/
namespace KmControl

inductive Outcome (ι : Type*) where
  | sent (i : ι)
  | lost (i : ι)
deriving DecidableEq

namespace Outcome

variable {ι : Type*}

def index : Outcome ι → ι
  | sent i => i
  | lost i => i

def sent? : Outcome ι → Option ι
  | sent i => some i
  | lost _ => none

end Outcome

/-- A slot is absent, or open and delivered or not. -/
structure Ledger (ι : Type*) where
  slots : ι → Option Bool
  mark : WithBot ι
  outcomes : List (Outcome ι)

namespace Ledger

variable {ι : Type*} [LinearOrder ι]

def Retired (s : Ledger ι) (i : ι) : Prop := (i : WithBot ι) ≤ s.mark

/-- The number of outcomes of an item. -/
def count (s : Ledger ι) (i : ι) : ℕ := s.outcomes.countP fun o => decide (o.index = i)

/-- The delivered items in order. -/
def sent (s : Ledger ι) : List ι := s.outcomes.filterMap Outcome.sent?

def opened (s : Ledger ι) (i : ι) : Ledger ι :=
  { s with slots := Function.update s.slots i (some false) }

def completed (s : Ledger ι) (o : Outcome ι) : Ledger ι :=
  { s with slots := Function.update s.slots o.index (some true), outcomes := s.outcomes ++ [o] }

def closed (s : Ledger ι) (i : ι) (delivered : Bool) : Ledger ι where
  slots := Function.update s.slots i none
  mark := max s.mark i
  outcomes := s.outcomes ++ if delivered then [] else [Outcome.lost i]

/-- One step; `G` is a condition on opening a slot. -/
inductive Step (G : Ledger ι → ι → Prop) : Ledger ι → Ledger ι → Prop
  | opens (s : Ledger ι) (i : ι) (hslot : s.slots i = none) (hmark : ¬ s.Retired i)
      (hguard : G s i) : Step G s (s.opened i)
  | completes (s : Ledger ι) (o : Outcome ι) (hslot : s.slots o.index = some false)
      (hbelow : ∀ k, k < o.index → s.slots k = none) : Step G s (s.completed o)
  | closes (s : Ledger ι) (i : ι) (delivered : Bool) (hslot : s.slots i = some delivered) :
      Step G s (s.closed i delivered)

abbrev Steps (G : Ledger ι → ι → Prop) : Ledger ι → Ledger ι → Prop :=
  Relation.ReflTransGen (Step G)

theorem slots_opened (s : Ledger ι) (i k : ι) :
    (s.opened i).slots k = if k = i then some false else s.slots k :=
  Function.update_apply _ _ _ _

theorem slots_completed (s : Ledger ι) (o : Outcome ι) (k : ι) :
    (s.completed o).slots k = if k = o.index then some true else s.slots k :=
  Function.update_apply _ _ _ _

theorem slots_closed (s : Ledger ι) (i : ι) (delivered : Bool) (k : ι) :
    (s.closed i delivered).slots k = if k = i then none else s.slots k :=
  Function.update_apply _ _ _ _

section Counting

theorem count_snoc (s : Ledger ι) (slots : ι → Option Bool) (mark : WithBot ι) (o : Outcome ι)
    (i : ι) : count ⟨slots, mark, s.outcomes ++ [o]⟩ i =
      s.count i + if o.index = i then 1 else 0 := by
  unfold count
  rw [List.countP_append, List.countP_singleton]
  simp only [decide_eq_true_eq]

theorem count_completed (s : Ledger ι) (o : Outcome ι) (i : ι) :
    (s.completed o).count i = s.count i + if o.index = i then 1 else 0 :=
  count_snoc s _ _ o i

theorem count_closed (s : Ledger ι) (k : ι) (delivered : Bool) (i : ι) :
    (s.closed k delivered).count i =
      s.count i + if k = i ∧ delivered = false then 1 else 0 := by
  cases delivered with
  | true => simp [closed, count]
  | false =>
    refine (count_snoc s _ _ (Outcome.lost k) i).trans ?_
    by_cases hk : k = i
    · rw [if_pos (show (Outcome.lost k).index = i from hk), if_pos ⟨hk, rfl⟩]
    · rw [if_neg (show ¬ (Outcome.lost k).index = i from hk), if_neg fun h => hk h.1]

end Counting

/-- Every open slot has the outcomes that its state says, and what is closed has
had its one outcome and lies below the mark. -/
structure Sound (s : Ledger ι) : Prop where
  undelivered : ∀ i, s.slots i = some false → s.count i = 0
  delivered : ∀ i, s.slots i = some true → s.count i = 1
  absent : ∀ i, s.slots i = none → s.count i = 0 ∨ (s.count i = 1 ∧ s.Retired i)

/-- An item that has had its outcome and can never be opened again. -/
structure Settled (s : Ledger ι) (i : ι) : Prop where
  slot : s.slots i = none
  count_eq : s.count i = 1
  retired : s.Retired i

/-- An item that has been opened at some time. -/
def Live (s : Ledger ι) (i : ι) : Prop := s.slots i ≠ none ∨ s.Settled i

variable {G : Ledger ι → ι → Prop} {s t : Ledger ι}

theorem Retired.closed {i : ι} (h : s.Retired i) (k : ι) (delivered : Bool) :
    (s.closed k delivered).Retired i :=
  le_trans h (le_max_left _ _)

/-- One step keeps every item at its stage. -/
theorem Sound.step (h : s.Sound) (hstep : Step G s t) : t.Sound := by
  cases hstep with
  | opens i hslot hmark _ =>
    have hzero : s.count i = 0 := by
      rcases h.absent i hslot with hzero | ⟨-, hretired⟩
      · exact hzero
      · exact absurd hretired hmark
    refine ⟨fun k hk => ?_, fun k hk => ?_, fun k hk => ?_⟩
    all_goals
      rw [slots_opened] at hk
      split at hk
    · rename_i heq
      exact heq ▸ hzero
    · exact h.undelivered k hk
    · cases hk
    · exact h.delivered k hk
    · cases hk
    · exact h.absent k hk
  | completes o hslot _ =>
    have hzero := h.undelivered o.index hslot
    have hother : ∀ k, k ≠ o.index → (s.completed o).count k = s.count k := by
      intro k hne
      rw [count_completed, if_neg (Ne.symm hne), Nat.add_zero]
    refine ⟨fun k hk => ?_, fun k hk => ?_, fun k hk => ?_⟩
    all_goals
      rw [slots_completed] at hk
      split at hk
    · cases hk
    · rename_i hne
      rw [hother k hne]
      exact h.undelivered k hk
    · rename_i heq
      rw [heq, count_completed, if_pos rfl, hzero]
    · rename_i hne
      rw [hother k hne]
      exact h.delivered k hk
    · cases hk
    · rename_i hne
      rw [hother k hne]
      exact h.absent k hk
  | closes i delivered hslot =>
    have hother : ∀ k, k ≠ i → (s.closed i delivered).count k = s.count k := by
      intro k hne
      rw [count_closed, if_neg fun hboth => hne hboth.1.symm, Nat.add_zero]
    have hone : (s.closed i delivered).count i = 1 := by
      rw [count_closed]
      cases delivered with
      | true => rw [if_neg (by simp), h.delivered i hslot]
      | false => rw [if_pos ⟨rfl, rfl⟩, h.undelivered i hslot]
    refine ⟨fun k hk => ?_, fun k hk => ?_, fun k hk => ?_⟩
    all_goals
      rw [slots_closed] at hk
      split at hk
    · cases hk
    · rename_i hne
      rw [hother k hne]
      exact h.undelivered k hk
    · cases hk
    · rename_i hne
      rw [hother k hne]
      exact h.delivered k hk
    · rename_i heq
      rw [heq]
      exact Or.inr ⟨hone, le_max_right _ _⟩
    · rename_i hne
      rw [hother k hne]
      rcases h.absent k hk with hzero | hclosed
      · exact Or.inl hzero
      · exact Or.inr ⟨hclosed.1, hclosed.2.closed i delivered⟩

theorem Settled.step {k : ι} (h : s.Settled k) (hstep : Step G s t) : t.Settled k := by
  obtain ⟨hslot, hcount, hretired⟩ := h
  cases hstep with
  | opens i _ hmark _ =>
    have hne : k ≠ i := by
      intro heq
      exact hmark (heq ▸ hretired)
    exact ⟨by rw [slots_opened, if_neg hne, hslot], hcount, hretired⟩
  | completes o hopen _ =>
    have hne : k ≠ o.index := by
      intro heq
      rw [heq, hopen] at hslot
      cases hslot
    refine ⟨by rw [slots_completed, if_neg hne, hslot], ?_, hretired⟩
    rw [count_completed, if_neg (Ne.symm hne), hcount]
  | closes i delivered hopen =>
    have hne : k ≠ i := by
      intro heq
      rw [heq, hopen] at hslot
      cases hslot
    refine ⟨by rw [slots_closed, if_neg hne, hslot], ?_, hretired.closed i delivered⟩
    rw [count_closed, if_neg fun hboth => hne hboth.1.symm, hcount]

/-- A slot is emptied by closing it only. -/
theorem Step.emptied {k : ι} (hstep : Step G s t) (hopen : s.slots k ≠ none)
    (hslot : t.slots k = none) :
    ∃ delivered, s.slots k = some delivered ∧ t = s.closed k delivered := by
  cases hstep with
  | opens i _ _ _ =>
    rw [slots_opened] at hslot
    split at hslot
    · cases hslot
    · exact absurd hslot hopen
  | completes o _ _ =>
    rw [slots_completed] at hslot
    split at hslot
    · cases hslot
    · exact absurd hslot hopen
  | closes i delivered hi =>
    rw [slots_closed] at hslot
    split at hslot
    · rename_i heq
      subst heq
      exact ⟨delivered, hi, rfl⟩
    · exact absurd hslot hopen

/-- What has been opened stays opened or gets settled. -/
theorem Live.step {k : ι} (hs : s.Sound) (h : s.Live k) (hstep : Step G s t) : t.Live k := by
  rcases h with hopen | hsettled
  · by_cases hslot : t.slots k = none
    · right
      obtain ⟨delivered, hk, rfl⟩ := hstep.emptied hopen hslot
      refine ⟨hslot, ?_, le_max_right _ _⟩
      rw [count_closed]
      cases delivered with
      | true => rw [if_neg (by simp), hs.delivered k hk]
      | false => rw [if_pos ⟨rfl, rfl⟩, hs.undelivered k hk]
    · exact Or.inl hslot
  · exact Or.inr (hsettled.step hstep)

theorem Sound.steps (h : s.Sound) (hsteps : Steps G s t) : t.Sound := by
  induction hsteps with
  | refl => exact h
  | tail _ hstep ih => exact ih.step hstep

theorem Settled.steps {k : ι} (h : s.Settled k) (hsteps : Steps G s t) : t.Settled k := by
  induction hsteps with
  | refl => exact h
  | tail _ hstep ih => exact ih.step hstep

theorem Live.steps {k : ι} (hs : s.Sound) (h : s.Live k) (hsteps : Steps G s t) : t.Live k := by
  have hboth : t.Sound ∧ t.Live k := by
    induction hsteps with
    | refl => exact ⟨hs, h⟩
    | tail _ hstep ih => exact ⟨ih.1.step hstep, ih.2.step ih.1 hstep⟩
  exact hboth.2

theorem Sound.count_le_one (h : s.Sound) (i : ι) : s.count i ≤ 1 := by
  cases hslot : s.slots i with
  | none =>
    have habsent := h.absent i hslot
    omega
  | some d =>
    cases d with
    | false =>
      have hzero := h.undelivered i hslot
      omega
    | true => exact (h.delivered i hslot).le

/-- The outcome of an item that is no longer open: lost, unless it was delivered. -/
theorem Sound.lost_iff (h : s.Sound) {k : ι} (hslot : s.slots k = none) :
    Outcome.lost k ∈ s.outcomes ↔ s.Live k ∧ Outcome.sent k ∉ s.outcomes := by
  have hpos : ∀ o ∈ s.outcomes, o.index = k → 0 < s.count k := by
    intro o ho hk
    exact List.countP_pos_iff.mpr ⟨o, ho, decide_eq_true hk⟩
  constructor
  · intro hlost
    have hcount := hpos _ hlost rfl
    have hsettled : s.Settled k := by
      rcases h.absent k hslot with hzero | hclosed
      · omega
      · exact ⟨hslot, hclosed.1, hclosed.2⟩
    refine ⟨Or.inr hsettled, fun hsent => ?_⟩
    have htwo : 2 ≤ s.count k := by
      have hsub : [Outcome.lost k, Outcome.sent k].Subperm s.outcomes := by
        apply List.subperm_of_subset
        · simp
        · intro o ho
          simp only [List.mem_cons, List.not_mem_nil, or_false] at ho
          rcases ho with rfl | rfl
          · exact hlost
          · exact hsent
      have hle := hsub.countP_le fun o => decide (o.index = k)
      have hpair : ([Outcome.lost k, Outcome.sent k].countP fun o => decide (o.index = k)) = 2 := by
        simp [Outcome.index]
      rw [hpair] at hle
      exact hle
    have hone := hsettled.count_eq
    omega
  · rintro ⟨hlive, hsent⟩
    have hsettled := hlive.resolve_left (not_not.mpr hslot)
    have hcount : 0 < s.count k := by
      rw [hsettled.count_eq]
      exact Nat.one_pos
    obtain ⟨o, ho, hk⟩ := List.countP_pos_iff.mp hcount
    have hindex : o.index = k := of_decide_eq_true hk
    cases o with
    | sent i =>
      change i = k at hindex
      exact absurd (hindex ▸ ho) hsent
    | lost i =>
      change i = k at hindex
      exact hindex ▸ ho

section Order

/-- No delivered item above `i` is open. -/
def NotBehind (s : Ledger ι) (i : ι) : Prop := ∀ j, i < j → s.slots j ≠ some true

/-- Deliveries ascend, and what is open and undelivered lies above them. -/
structure Ordered (s : Ledger ι) : Prop where
  ascending : s.sent.Pairwise (· < ·)
  above : ∀ j ∈ s.sent, ∀ i, s.slots i = some false → j < i

omit [LinearOrder ι] in
theorem mem_sent {j : ι} : j ∈ s.sent ↔ Outcome.sent j ∈ s.outcomes := by
  unfold sent
  rw [List.mem_filterMap]
  constructor
  · rintro ⟨o, ho, hj⟩
    cases o with
    | sent i =>
      cases hj
      exact ho
    | lost i => cases hj
  · intro h
    exact ⟨_, h, rfl⟩

/-- A delivered item is still open or below the mark. -/
theorem Sound.open_or_retired (h : s.Sound) {j : ι} (hj : j ∈ s.sent) :
    s.slots j = some true ∨ s.Retired j := by
  have hcount : 0 < s.count j :=
    List.countP_pos_iff.mpr ⟨_, mem_sent.mp hj, decide_eq_true rfl⟩
  cases hslot : s.slots j with
  | none =>
    rcases h.absent j hslot with hzero | ⟨-, hretired⟩
    · omega
    · exact Or.inr hretired
  | some d =>
    cases d with
    | false =>
      have hzero := h.undelivered j hslot
      omega
    | true => exact Or.inl rfl

theorem sent_completed (s : Ledger ι) (o : Outcome ι) :
    (s.completed o).sent = s.sent ++ o.sent?.toList := by
  unfold sent completed
  rw [List.filterMap_append]
  cases o <;> rfl

theorem sent_closed (s : Ledger ι) (i : ι) (delivered : Bool) :
    (s.closed i delivered).sent = s.sent := by
  unfold sent closed
  rw [List.filterMap_append]
  cases delivered <;> simp [Outcome.sent?]

/-- As long as nothing is opened behind a delivered item, deliveries ascend. -/
theorem Ordered.step (hs : s.Sound) (h : s.Ordered) (hstep : Step NotBehind s t) :
    t.Ordered := by
  cases hstep with
  | opens i hslot hmark hguard =>
    refine ⟨h.ascending, fun j hj k hk => ?_⟩
    rw [slots_opened] at hk
    split at hk
    · rename_i heq
      subst heq
      rcases hs.open_or_retired hj with hopen | hretired
      · have hne : j ≠ k := by
          intro heq
          rw [heq, hslot] at hopen
          cases hopen
        exact lt_of_le_of_ne (not_lt.mp fun hlt => hguard j hlt hopen) hne
      · by_contra hle
        exact hmark (le_trans (WithBot.coe_le_coe.mpr (not_lt.mp hle)) hretired)
    · exact h.above j hj k hk
  | completes o hslot hbelow =>
    have hlast : ∀ j ∈ s.sent, j < o.index := fun j hj => h.above j hj o.index hslot
    have hrest : ∀ i, (s.completed o).slots i = some false →
        s.slots i = some false ∧ o.index < i := by
      intro i hi
      rw [slots_completed] at hi
      split at hi
      · cases hi
      · rename_i hne
        refine ⟨hi, lt_of_le_of_ne (not_lt.mp fun hlt => ?_) (Ne.symm hne)⟩
        rw [hbelow i hlt] at hi
        cases hi
    have hlists := sent_completed s o
    cases o with
    | lost k =>
      rw [show (Outcome.lost k).sent?.toList = [] from rfl, List.append_nil] at hlists
      refine ⟨by rw [hlists]; exact h.ascending, fun j hj i hi => ?_⟩
      rw [hlists] at hj
      exact h.above j hj i (hrest i hi).1
    | sent k =>
      rw [show (Outcome.sent k).sent?.toList = [k] from rfl] at hlists
      refine ⟨?_, fun j hj i hi => ?_⟩
      · rw [hlists]
        refine List.pairwise_append.mpr ⟨h.ascending, List.pairwise_singleton _ _, ?_⟩
        intro j hj i hi
        rw [List.mem_singleton.mp hi]
        exact hlast j hj
      · rw [hlists] at hj
        obtain ⟨hold, hlt⟩ := hrest i hi
        rcases List.mem_append.mp hj with hj | hj
        · exact h.above j hj i hold
        · rw [List.mem_singleton.mp hj]
          exact hlt
  | closes i delivered hslot =>
    refine ⟨by rw [sent_closed]; exact h.ascending, fun j hj k hk => ?_⟩
    rw [sent_closed] at hj
    rw [slots_closed] at hk
    split at hk
    · cases hk
    · exact h.above j hj k hk

theorem Ordered.steps (hs : s.Sound) (h : s.Ordered) (hsteps : Steps NotBehind s t) :
    t.Sound ∧ t.Ordered := by
  induction hsteps with
  | refl => exact ⟨hs, h⟩
  | tail _ hstep ih => exact ⟨ih.1.step hstep, ih.2.step ih.1 hstep⟩

end Order

end Ledger

end KmControl
