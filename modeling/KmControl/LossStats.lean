import KmControl.FrameTracking

/-!
The loss statistics of a block against the set of shard indices it has received.
The counters are kept from shard to shard; whatever the order of arrival, and
also where the sequence numbers wrap, they are functions of that set.
-/
namespace KmControl.LossStats

open GsProto MoonVideo

section Words

variable (base : UInt16) {i j : ℕ}

theorem toNat_sub_shifted (hi : i < 2 ^ 15) (hj : j < 2 ^ 15) :
    ((base + UInt16.ofNat i) - (base + UInt16.ofNat j)).toNat = (i + 2 ^ 16 - j) % 2 ^ 16 := by
  have hbase := base.toNat_lt
  rw [UInt16.toNat_sub, UInt16.toNat_add, UInt16.toNat_add, UInt16.toNat_ofNat',
    UInt16.toNat_ofNat']
  omega

/-- Near each other, the wrapping order of the numbers is that of their offsets. -/
theorem isBefore16_shifted (hi : i < 2 ^ 15) (hj : j < 2 ^ 15) :
    isBefore16 (base + UInt16.ofNat i) (base + UInt16.ofNat j) = true ↔ i < j := by
  unfold isBefore16
  rw [decide_eq_true_iff, toNat_sub_shifted base hi hj]
  omega

end Words

section Stats

variable {base : UInt16} {R : Finset ℕ} {st : SeqStats} {i : ℕ}

/-- The statistics of the shards with an index in `R`, numbered from `base` on. -/
structure Noted (base : UInt16) (R : Finset ℕ) (st : SeqStats) : Prop where
  seen_iff : st.seenFirst = true ↔ R.Nonempty
  highest : R.Nonempty → st.highestSeq = base + UInt16.ofNat (R.sup id)
  missing : R.Nonempty → st.missingBeforeHighest.toNat + R.card = R.sup id + 1

theorem noted_new (base : UInt16) : Noted base ∅ SeqStats.new where
  seen_iff := iff_of_false Bool.false_ne_true Finset.not_nonempty_empty
  highest := fun h => absurd h Finset.not_nonempty_empty
  missing := fun h => absurd h Finset.not_nonempty_empty

theorem noteContiguous_fields (st : SeqStats) (seq : UInt16) :
    (st.noteContiguous seq).seenFirst = st.seenFirst ∧
      (st.noteContiguous seq).highestSeq = st.highestSeq ∧
      (st.noteContiguous seq).missingBeforeHighest = st.missingBeforeHighest := by
  unfold SeqStats.noteContiguous
  split
  · exact ⟨rfl, rfl, rfl⟩
  split
  · exact ⟨rfl, rfl, rfl⟩
  · exact ⟨rfl, rfl, rfl⟩

theorem Noted.contiguous (h : Noted base R st) (seq : UInt16) :
    Noted base R (st.noteContiguous seq) := by
  obtain ⟨hseen, hhighest, hmissing⟩ := noteContiguous_fields st seq
  refine ⟨?_, ?_, ?_⟩
  · rw [hseen]
    exact h.seen_iff
  · rw [hhighest]
    exact h.highest
  · rw [hmissing]
    exact h.missing

theorem sup_mem (h : R.Nonempty) : R.sup id ∈ R := by
  obtain ⟨j, hj, heq⟩ := Finset.exists_mem_eq_sup R h id
  rw [heq]
  exact hj

/-- Indices below the highest one leave it no more than itself. -/
theorem card_le_sup (R : Finset ℕ) : R.card ≤ R.sup id + 1 := by
  have hsubset : R ⊆ Finset.range (R.sup id + 1) := by
    intro j hj
    exact Finset.mem_range.mpr (Nat.lt_succ_of_le (Finset.le_sup (f := id) hj))
  have hcard := Finset.card_le_card hsubset
  rwa [Finset.card_range] at hcard

/-- A shard not received before. The cases are those of the code: the first
shard of all, one beyond the highest, and one that fills a gap. -/
theorem Noted.highestStep (h : Noted base R st) (hR : ∀ j ∈ R, j < maxShards) (hi : i < maxShards)
    (hnew : i ∉ R) : Noted base (insert i R) (st.noteHighest (base + UInt16.ofNat i) i) := by
  have hcard : (insert i R).card = R.card + 1 := Finset.card_insert_of_notMem hnew
  have hsup : (insert i R).sup id = max i (R.sup id) := Finset.sup_insert
  unfold maxShards at hR hi
  unfold SeqStats.noteHighest
  by_cases hseen : st.seenFirst = true
  · have hne := h.seen_iff.mp hseen
    have hmem := sup_mem hne
    have htop := hR _ hmem
    have hmissing := h.missing hne
    have hhighest := h.highest hne
    have hbefore := isBefore16_shifted base (i := R.sup id) (j := i) (by omega) (by omega)
    rw [if_neg (not_not.mpr hseen), hhighest]
    by_cases hlt : R.sup id < i
    · have hgap := toNat_sub_shifted base (i := i) (j := R.sup id) (by omega) (by omega)
      rw [if_pos (hbefore.mpr hlt)]
      refine ⟨iff_of_true hseen (Finset.insert_nonempty i R), fun _ => ?_, fun _ => ?_⟩
      · rw [hsup, Nat.max_eq_left hlt.le]
      · change (st.missingBeforeHighest + (_ - _ - 1)).toNat + _ = _
        rw [hcard, hsup, UInt16.toNat_add, UInt16.toNat_sub, hgap]
        change (st.missingBeforeHighest.toNat + (2 ^ 16 - 1 + _) % 2 ^ 16) % 2 ^ 16 + _ = _
        omega
    · have hle : i ≤ R.sup id := not_lt.mp hlt
      have hlt' : i < R.sup id := by
        refine lt_of_le_of_ne hle fun heq => hnew ?_
        rw [heq]
        exact hmem
      -- The gap that the shard fills has been counted as missing.
      have hpos : R.card ≤ R.sup id := by
        have hbound := card_le_sup (insert i R)
        rw [hcard, hsup, Nat.max_eq_right hle] at hbound
        omega
      have hnonzero : st.missingBeforeHighest ≠ 0 := by
        intro hzero
        rw [hzero] at hmissing
        change 0 + R.card = _ at hmissing
        omega
      rw [if_neg (fun hlt' => hlt (hbefore.mp hlt')), if_neg hnonzero]
      refine ⟨iff_of_true hseen (Finset.insert_nonempty i R), fun _ => ?_, fun _ => ?_⟩
      · rw [hsup, Nat.max_eq_right hle]
      · change (st.missingBeforeHighest - 1).toNat + _ = _
        rw [hcard, hsup, Nat.max_eq_right hle, UInt16.toNat_sub]
        change (2 ^ 16 - 1 + _) % 2 ^ 16 + _ = _
        have hword := st.missingBeforeHighest.toNat_lt
        omega
  · have hempty : R = ∅ := Finset.not_nonempty_iff_eq_empty.mp fun hne => hseen (h.seen_iff.mpr hne)
    subst hempty
    have hsingle : ({i} : Finset ℕ).sup id = i := Finset.sup_singleton
    have hlowest : base + UInt16.ofNat i - UInt16.ofNat i = base := UInt16.add_sub_cancel _ _
    rw [if_pos hseen, hlowest]
    refine ⟨iff_of_true rfl (Finset.insert_nonempty i ∅), fun _ => ?_, fun _ => ?_⟩
    · rw [insert_empty_eq, hsingle]
    · change (base + UInt16.ofNat i - base).toNat + _ = _
      rw [insert_empty_eq, hsingle, Finset.card_singleton, UInt16.add_comm, UInt16.add_sub_cancel,
        UInt16.toNat_ofNat']
      omega

theorem Noted.noteSeq (h : Noted base R st) (hR : ∀ j ∈ R, j < maxShards) (hi : i < maxShards)
    (hnew : i ∉ R) : Noted base (insert i R) (st.noteSeq (base + UInt16.ofNat i) i) :=
  (h.highestStep hR hi hnew).contiguous _

end Stats

section Block

variable {base : UInt16} {R : Finset ℕ} {blk : BlockAsm}

/-- A block whose counters are those of the shards with an index in `R`. -/
structure Counted (base : UInt16) (R : Finset ℕ) (blk : BlockAsm) : Prop where
  bounded : ∀ i ∈ R, i < blk.dataShards + blk.paritySlots
  received_iff : ∀ i, blk.received i = true ↔ i.val ∈ R
  data : blk.receivedData.toNat = (R.filter (· < blk.dataShards)).card
  parity : blk.receivedParity.toNat = (R.filter (¬ · < blk.dataShards)).card
  noted : Noted base R blk.stats

theorem counted_new (base : UInt16) (d pct : ℕ) (hpos : 0 < d) (hle : d ≤ maxShards) :
    Counted base ∅ (BlockAsm.new d pct hpos hle) where
  bounded := fun _ hi => absurd hi (Finset.notMem_empty _)
  received_iff := fun _ => iff_of_false Bool.false_ne_true (Finset.notMem_empty _)
  data := rfl
  parity := rfl
  noted := noted_new base

/-- A shard recovered by the code is not counted as received. -/
theorem Counted.tryRecover (rs : FecRs) (h : Counted base R blk) :
    Counted base R (blk.tryRecover rs).2 := by
  unfold BlockAsm.tryRecover
  split
  · exact h
  split
  · exact h
  split
  · exact h
  split
  · split
    · exact ⟨h.bounded, h.received_iff, h.data, h.parity, h.noted⟩
    · exact h
  · exact h

theorem Counted.le_maxShards (h : Counted base R blk) : ∀ i ∈ R, i < maxShards :=
  fun i hi => (h.bounded i hi).trans_le blk.total_le

/-- A counter of indices goes up by one with a new index of its kind. -/
private theorem card_filter_insert {p : ℕ → Prop} [DecidablePred p] {i : ℕ} (hnew : i ∉ R) :
    ((insert i R).filter p).card = (R.filter p).card + if p i then 1 else 0 := by
  rw [Finset.filter_insert]
  split
  · exact Finset.card_insert_of_notMem fun h => hnew (Finset.mem_of_mem_filter i h)
  · rfl

theorem Counted.record (h : Counted base R blk) (i : Fin (blk.dataShards + blk.paritySlots))
    (hnew : i.val ∉ R) (payload : Bytes) :
    Counted base (insert i.val R) (blk.record i (base + UInt16.ofNat i) payload) := by
  have htotal := blk.total_le
  have hcard : R.card ≤ maxShards := by
    have hsubset : R ⊆ Finset.range maxShards := fun j hj =>
      Finset.mem_range.mpr (h.le_maxShards j hj)
    have hle := Finset.card_le_card hsubset
    rwa [Finset.card_range] at hle
  have hdata := (Finset.card_filter_le R (· < blk.dataShards)).trans hcard
  have hparity := (Finset.card_filter_le R (¬ · < blk.dataShards)).trans hcard
  unfold maxShards at hdata hparity
  have hreceived : ∀ j : Fin (blk.dataShards + blk.paritySlots),
      Function.update blk.received i true j = true ↔ j.val ∈ insert i.val R := by
    intro j
    by_cases hj : j = i
    · rw [hj, Function.update_self]
      exact iff_of_true rfl (Finset.mem_insert_self _ _)
    · have hne : j.val ≠ i.val := fun heq => hj (Fin.ext heq)
      rw [Function.update_of_ne hj, h.received_iff, Finset.mem_insert]
      exact (or_iff_right hne).symm
  refine ⟨?_, hreceived, ?_, ?_, ?_⟩
  · intro j hj
    rcases Finset.mem_insert.mp hj with rfl | hj
    · exact i.isLt
    · exact h.bounded j hj
  · change (if i.val < blk.dataShards then _ else _ : UInt16).toNat =
      ((insert i.val R).filter (· < blk.dataShards)).card
    rw [card_filter_insert hnew, ← h.data]
    rw [← h.data] at hdata
    split
    · rw [UInt16.toNat_add]
      change (_ + 1) % 2 ^ 16 = _
      omega
    · rfl
  · change (if i.val < blk.dataShards then _ else _ : UInt16).toNat =
      ((insert i.val R).filter (¬ · < blk.dataShards)).card
    rw [card_filter_insert hnew, ← h.parity]
    rw [← h.parity] at hparity
    by_cases hi : i.val < blk.dataShards
    · rw [if_pos hi, if_neg (not_not.mpr hi)]
      rfl
    · rw [if_neg hi, if_pos hi, UInt16.toNat_add]
      change (_ + 1) % 2 ^ 16 = _
      omega
  · exact h.noted.noteSeq h.le_maxShards (i.isLt.trans_le htotal) hnew

end Block

end KmControl.LossStats
