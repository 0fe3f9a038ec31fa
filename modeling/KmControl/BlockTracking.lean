import Mathlib.Order.Interval.Finset.Fin
import KmControl.MoonVideoSteps

/-!
One FEC block while its shards arrive. `Tracks` ties the slots of a block to
the set of shard indices received so far: every slot holds the payload that the
sender computed for it, and the data is complete exactly when as many distinct
shards have arrived as the block has data shards.
-/
namespace KmControl.BlockTracking

open ByteFields GsProto MoonVideo

/-- The payloads of a block as the sender computed them. -/
structure CodeBlock (rs : FecRs) (payloads : ℕ → Bytes) (len d p : ℕ) : Prop where
  len_pos : 0 < len
  length_eq : ∀ i, i < d + p → (payloads i).length = len
  coded : 0 < p → ∃ c : SystematicCode UInt8 d p, c.MDS ∧ rs.CodesWith d p c ∧
    ∀ (i : Fin (d + p)) (j : ℕ), j < len → byteAt (payloads i) j =
      c.codeword (FecRs.column (fun k : Fin d => payloads k) j) i

section Slots

variable {payloads : ℕ → Bytes} {R : Finset ℕ} {d p : ℕ}

/-- The slots of a block hold the payloads received so far. -/
structure Stored (payloads : ℕ → Bytes) (R : Finset ℕ) (slots : Fin (d + p) → Option Bytes)
    (received : Fin (d + p) → Bool) : Prop where
  bounded : ∀ i ∈ R, i < d + p
  received_iff : ∀ i, received i = true ↔ i.val ∈ R
  slot_eq : ∀ i s, slots i = some s → s = payloads i
  slot_some : ∀ i, i.val ∈ R → (slots i).isSome = true

/-- Nothing has been recovered: the other slots are empty. -/
def Gap (R : Finset ℕ) (slots : Fin (d + p) → Option Bytes) : Prop :=
  ∀ i, i.val ∉ R → slots i = none

def DataComplete (slots : Fin (d + p) → Option Bytes) : Prop :=
  ∀ k : Fin d, (slots (Fin.castAdd p k)).isSome = true

variable {slots : Fin (d + p) → Option Bytes} {received : Fin (d + p) → Bool}

/-- With nothing recovered, completeness needs as many shards as data shards. -/
theorem card_of_complete (hgap : Gap R slots) (hcomplete : DataComplete slots) : d ≤ R.card := by
  have hsubset : Finset.range d ⊆ R := by
    intro k hk
    have hslot := hcomplete ⟨k, Finset.mem_range.mp hk⟩
    by_contra hmissing
    rw [hgap _ hmissing] at hslot
    cases hslot
  have hcard := Finset.card_le_card hsubset
  rwa [Finset.card_range] at hcard

theorem Stored.update (h : Stored payloads R slots received) (i : Fin (d + p)) :
    Stored payloads (insert i.val R) (Function.update slots i (some (payloads i)))
      (Function.update received i true) where
  bounded := by
    intro k hk
    rcases Finset.mem_insert.mp hk with rfl | hk
    · exact i.isLt
    · exact h.bounded k hk
  received_iff := by
    intro k
    by_cases hk : k = i
    · rw [hk, Function.update_self]
      exact iff_of_true rfl (Finset.mem_insert_self _ _)
    · have hne : k.val ≠ i.val := fun heq => hk (Fin.ext heq)
      rw [Function.update_of_ne hk, h.received_iff, Finset.mem_insert]
      exact (or_iff_right hne).symm
  slot_eq := by
    intro k s hs
    by_cases hk : k = i
    · rw [hk, Function.update_self, Option.some.injEq] at hs
      rw [hk, ← hs]
    · rw [Function.update_of_ne hk] at hs
      exact h.slot_eq k s hs
  slot_some := by
    intro k hk
    by_cases heq : k = i
    · rw [heq, Function.update_self]
      rfl
    · have hne : k.val ≠ i.val := fun h' => heq (Fin.ext h')
      rw [Function.update_of_ne heq]
      exact h.slot_some k ((Finset.mem_insert.mp hk).resolve_left hne)

theorem Gap.update (hgap : Gap R slots) (i : Fin (d + p)) (s : Option Bytes) :
    Gap (insert i.val R) (Function.update slots i s) := by
  intro k hk
  have hne : k ≠ i := by
    intro heq
    exact hk (heq ▸ Finset.mem_insert_self _ _)
  rw [Function.update_of_ne hne]
  exact hgap k fun hmem => hk (Finset.mem_insert_of_mem hmem)

/-- Recording never empties a slot. -/
theorem DataComplete.update (h : DataComplete slots) (i : Fin (d + p)) (s : Bytes) :
    DataComplete (Function.update slots i (some s)) := by
  intro k
  by_cases hk : Fin.castAdd p k = i
  · rw [hk, Function.update_self]
    rfl
  · rw [Function.update_of_ne hk]
    exact h k

theorem card_present (h : Stored payloads R slots received) (hgap : Gap R slots) :
    (FecRs.present slots).card = R.card := by
  have heq : FecRs.present slots = R.attachFin h.bounded := by
    ext i
    rw [Finset.mem_attachFin, FecRs.present, Finset.mem_filter]
    constructor
    · intro hi
      by_contra hmissing
      rw [hgap i hmissing] at hi
      cases hi.2
    · intro hi
      exact ⟨Finset.mem_univ i, h.slot_some i hi⟩
  rw [heq, Finset.card_attachFin]

/-- Without parity, enough shards are all the data shards. -/
theorem complete_of_card {slots : Fin (d + 0) → Option Bytes} {received : Fin (d + 0) → Bool}
    (h : Stored payloads R slots received) (hcard : d ≤ R.card) : DataComplete slots := by
  have hsubset : R ⊆ Finset.range d := fun i hi => Finset.mem_range.mpr (h.bounded i hi)
  have heq := Finset.eq_of_subset_of_card_le hsubset (by rwa [Finset.card_range])
  intro k
  exact h.slot_some _ (heq ▸ Finset.mem_range.mpr k.isLt)

variable {rs : FecRs} {len : ℕ}

/-- Enough received shards are completed by the code, with the sender's payloads. -/
theorem Stored.reconstruct (hcode : CodeBlock rs payloads len d p) (hp : 0 < p)
    (h : Stored payloads R slots received) (hcard : d ≤ (FecRs.present slots).card) :
    ∃ out, rs.reconstructData d p slots = some out ∧ Stored payloads R out received ∧
      DataComplete out := by
  obtain ⟨c, hmds, hcodes, hcolumns⟩ := hcode.coded hp
  have hagrees : FecRs.Agrees c len (fun k : Fin d => payloads k) slots := by
    refine ⟨fun k => hcode.length_eq k (by omega), fun i s hs => ?_⟩
    rw [h.slot_eq i s hs]
    exact ⟨hcode.length_eq i i.isLt, hcolumns i⟩
  obtain ⟨msg, out, hmsg, hout, hdata, hrest⟩ :=
    hcodes.reconstruct_eq len slots hcode.len_pos hcard ⟨_, hagrees⟩
  have hunique := FecRs.Agrees.unique hmds hcard hmsg hagrees
  refine ⟨out, hout, ⟨h.bounded, h.received_iff, ?_, ?_⟩, ?_⟩
  · intro i
    refine Fin.addCases (fun k s hs => ?_) (fun k s hs => ?_) i
    · rw [hdata k, hunique, Option.some.injEq] at hs
      exact hs.symm
    · rw [hrest k] at hs
      exact h.slot_eq _ s hs
  · intro i
    refine Fin.addCases (fun k _ => ?_) (fun k hi => ?_) i
    · rw [hdata k]
      rfl
    · rw [hrest k]
      exact h.slot_some _ hi
  · intro k
    rw [hdata k]
    rfl

end Slots

variable {payloads : ℕ → Bytes} {R : Finset ℕ} {blk : BlockAsm}

/-- A block that has received exactly the shards with an index in `R`. -/
structure Tracks (payloads : ℕ → Bytes) (R : Finset ℕ) (blk : BlockAsm) : Prop where
  stored : Stored payloads R blk.slots blk.received
  progress : (blk.dataShards ≤ R.card ∧ DataComplete blk.slots) ∨
    (R.card < blk.dataShards ∧ Gap R blk.slots)

theorem dataComplete_iff : blk.dataComplete = true ↔ DataComplete blk.slots := by
  unfold BlockAsm.dataComplete DataComplete
  exact decide_eq_true_iff

theorem Tracks.dataComplete_iff_card (h : Tracks payloads R blk) :
    blk.dataComplete = true ↔ blk.dataShards ≤ R.card := by
  rw [dataComplete_iff]
  rcases h.progress with ⟨hcard, hcomplete⟩ | ⟨hcard, hgap⟩
  · exact iff_of_true hcomplete hcard
  · refine iff_of_false (fun hcomplete => ?_) (by omega)
    have hle := card_of_complete hgap hcomplete
    omega

/-- A new block has received nothing. -/
theorem tracks_new (d pct : ℕ) (hpos : 0 < d) (hle : d ≤ maxShards) :
    Tracks payloads ∅ (BlockAsm.new d pct hpos hle) where
  stored := by
    refine ⟨by simp, fun i => ?_, fun i s hs => ?_, by simp⟩
    · simp [BlockAsm.new]
    · cases hs
  progress := Or.inr ⟨hpos, fun _ _ => rfl⟩

/-- A late shard of a complete block. -/
theorem Tracks.record (h : Tracks payloads R blk)
    (i : Fin (blk.dataShards + blk.paritySlots)) (seq : UInt16)
    (hcomplete : blk.dataComplete = true) :
    Tracks payloads (insert i.val R) (blk.record i seq (payloads i)) where
  stored := h.stored.update i
  progress := by
    refine Or.inl ⟨?_, (dataComplete_iff.mp hcomplete).update i _⟩
    exact (h.dataComplete_iff_card.mp hcomplete).trans
      (Finset.card_le_card (Finset.subset_insert _ _))

/-- Recovery completes a block as soon as enough of its shards have arrived. -/
theorem tracks_tryRecover {rs : FecRs} {len : ℕ} (hrs : rs.Lawful)
    (hcode : CodeBlock rs payloads len blk.dataShards blk.paritySlots)
    (h : Stored payloads R blk.slots blk.received) (hgap : Gap R blk.slots) :
    Tracks payloads R (blk.tryRecover rs).2 := by
  have htotal : blk.dataShards + blk.paritySlots ≤ 256 := blk.total_le.trans (Nat.le_succ 255)
  unfold BlockAsm.tryRecover
  by_cases hcomplete : blk.dataComplete = true
  · rw [if_pos hcomplete]
    have hdata := dataComplete_iff.mp hcomplete
    exact ⟨h, Or.inl ⟨card_of_complete hgap hdata, hdata⟩⟩
  rw [if_neg hcomplete]
  by_cases hparity : blk.paritySlots = 0
  · rw [if_pos hparity]
    refine ⟨h, Or.inr ⟨?_, hgap⟩⟩
    by_contra hcard
    apply hcomplete
    obtain ⟨d, p, pct, slots, received, nd, np, stats, hpos, hle⟩ := blk
    subst hparity
    exact dataComplete_iff.mpr (complete_of_card h (not_lt.mp hcard))
  rw [if_neg hparity, card_present h hgap]
  by_cases hcard : R.card < blk.dataShards
  · rw [if_pos hcard]
    exact ⟨h, Or.inr ⟨hcard, hgap⟩⟩
  have hp := Nat.pos_of_ne_zero hparity
  have hpresent : blk.dataShards ≤ (FecRs.present blk.slots).card := by
    rw [card_present h hgap]
    exact not_lt.mp hcard
  obtain ⟨out, hout, hstored, hdata⟩ := h.reconstruct hcode hp hpresent
  rw [if_neg hcard, if_pos (hrs.new_ok _ _ blk.data_pos hp htotal), hout]
  exact ⟨hstored, Or.inl ⟨not_lt.mp hcard, hdata⟩⟩

end KmControl.BlockTracking
