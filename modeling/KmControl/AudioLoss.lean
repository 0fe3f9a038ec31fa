import KmControl.MoonAudio
import Mathlib.Data.Finset.Card
import Mathlib.Data.Finset.Range
import Mathlib.Tactic.Linarith

/-!
The loss estimate of the audio receiver over a restart of the numbers. Packets
are given by their indices at the host, counted without wrapping from the
restart; the receiver sees only the last 16 bits and compares them with the last
number from before. A wrong verdict on one packet is never made good by a later
one, so the estimate is right only if every verdict is.
-/
namespace KmControl.AudioLoss

open ByteFields HostAudio MoonAudio

section Verdict

/-- Expected less received; the reported loss is this, or zero if it is negative. -/
def balance (rx : AudioDepacketizer) : ℤ := rx.stats.expected - rx.stats.received

/-- The last number is that of the packet with index `p`, which may be negative. -/
def At (rx : AudioDepacketizer) (p : ℤ) : Prop :=
  ∃ last, rx.tracker.last = some last ∧ (last.toNat : ℤ) = p % 65536

def Carries (datagram : Bytes) (k : ℕ) : Prop :=
  ∃ timestamp frame, frame ≠ [] ∧ datagram = packet (UInt16.ofNat k) timestamp frame

theorem toInt_toInt16 (x : UInt16) :
    x.toInt16.toInt = if x.toNat < 32768 then (x.toNat : ℤ) else x.toNat - 65536 := by
  have h := BitVec.toInt_eq_toNat_cond x.toBitVec
  have htwo : 2 * x.toBitVec.toNat < 2 ^ 16 ↔ x.toNat < 32768 := by
    change 2 * x.toNat < 65536 ↔ _
    omega
  simp only [htwo] at h
  exact h

theorem toNat_sub_eq {last seq : UInt16} {p k : ℤ} (hp : (last.toNat : ℤ) = p % 65536)
    (hk : (seq.toNat : ℤ) = k % 65536) : ((seq - last).toNat : ℤ) = (k - p) % 65536 := by
  have hlast := last.toNat_lt
  rw [UInt16.toNat_sub]
  omega

/-- The three verdicts by the distance of the indices modulo `2 ^ 16`. -/
theorem verdict_cases {last seq : UInt16} {p k : ℤ} (hp : (last.toNat : ℤ) = p % 65536)
    (hk : (seq.toNat : ℤ) = k % 65536) :
    (0 < (k - p) % 65536 ∧ (k - p) % 65536 < 32768 ∧ ∃ gap, verdict last seq = .forward gap ∧
      (gap.toNat : ℤ) = (k - p) % 65536 - 1) ∨
    (32768 ≤ (k - p) % 65536 ∧ (k - p) % 65536 ≤ 64512 ∧ verdict last seq = .resync) ∨
    (((k - p) % 65536 = 0 ∨ 64512 < (k - p) % 65536) ∧ verdict last seq = .stale) := by
  have hdiff := toNat_sub_eq hp hk
  have hint := toInt_toInt16 (seq - last)
  have hpos : 0 < (seq - last).toInt16 ↔ 0 < (seq - last).toInt16.toInt := Int16.lt_iff_toInt_lt
  have hneg : (seq - last).toInt16 ≤ -resyncThreshold ↔ (seq - last).toInt16.toInt ≤ -1024 :=
    Int16.le_iff_toInt_le
  have hlt := (seq - last).toNat_lt
  unfold verdict
  simp only [hpos, hneg]
  by_cases hforward : 0 < (seq - last).toInt16.toInt
  · rw [if_pos hforward]
    refine Or.inl ⟨by omega, by omega, _, rfl, ?_⟩
    have hone : 1 ≤ seq - last := by
      rw [UInt16.le_iff_toNat_le]
      have : (1 : UInt16).toNat = 1 := rfl
      omega
    change (((seq - last) - 1).toNat : ℤ) = _
    rw [UInt16.toNat_sub_of_le _ _ hone]
    have : (1 : UInt16).toNat = 1 := rfl
    omega
  · rw [if_neg hforward]
    by_cases hback : (seq - last).toInt16.toInt ≤ -1024
    · rw [if_pos hback]
      exact Or.inr (Or.inl ⟨by omega, by omega, rfl⟩)
    · rw [if_neg hback]
      exact Or.inr (Or.inr ⟨by omega, rfl⟩)

/-- What one packet does to the estimate. -/
theorem ingest_cases {rx : AudioDepacketizer} {p : ℤ} {d : Bytes} {k : ℕ} (hrx : At rx p)
    (hd : Carries d k) :
    (0 < (k - p) % 65536 ∧ (k - p) % 65536 < 32768 ∧ At (rx.ingest d).1 k ∧
      balance (rx.ingest d).1 = balance rx + ((k - p) % 65536 - 1)) ∨
    (32768 ≤ (k - p) % 65536 ∧ (k - p) % 65536 ≤ 64512 ∧ At (rx.ingest d).1 k ∧
      balance (rx.ingest d).1 = balance rx) ∨
    (((k - p) % 65536 = 0 ∨ 64512 < (k - p) % 65536) ∧ At (rx.ingest d).1 p ∧
      balance (rx.ingest d).1 = balance rx - 1) := by
  obtain ⟨last, hlast, hp⟩ := hrx
  obtain ⟨timestamp, frame, hframe, rfl⟩ := hd
  have hk : ((UInt16.ofNat k).toNat : ℤ) = (k : ℤ) % 65536 := by
    rw [UInt16.toNat_ofNat']
    omega
  have hingest : (rx.ingest (packet (UInt16.ofNat k) timestamp frame)).1 =
      rx.accept ⟨UInt16.ofNat k, timestamp, 0⟩ frame := by
    unfold AudioDepacketizer.ingest
    rw [parseRtpAudio_packet _ _ hframe]
  rw [hingest]
  rcases verdict_cases hp hk with ⟨hlow, hhigh, gap, hv, hgap⟩ | ⟨hlow, hhigh, hv⟩ | ⟨hm, hv⟩
  · refine Or.inl ⟨hlow, hhigh, ⟨UInt16.ofNat k, ?_, hk⟩, ?_⟩
    · simp only [AudioDepacketizer.accept, SeqTracker.advance, hlast, hv]
    · simp only [AudioDepacketizer.accept, SeqTracker.advance, hlast, hv, balance,
        SeqStep.expected]
      omega
  · refine Or.inr (Or.inl ⟨hlow, hhigh, ⟨UInt16.ofNat k, ?_, hk⟩, ?_⟩)
    · simp only [AudioDepacketizer.accept, SeqTracker.advance, hlast, hv]
    · simp only [AudioDepacketizer.accept, SeqTracker.advance, hlast, hv, balance,
        SeqStep.expected]
      omega
  · refine Or.inr (Or.inr ⟨hm, ⟨last, ?_, hp⟩, ?_⟩)
    · simp only [AudioDepacketizer.accept, SeqTracker.advance, hlast, hv]
    · simp only [AudioDepacketizer.accept, SeqTracker.advance, hlast, hv, balance,
        SeqStep.expected]
      omega

end Verdict

section Runs

/-- The packets passed over on the way from index `p` through the given indices. -/
def skipped : ℤ → List ℕ → ℤ
  | _, [] => 0
  | p, k :: ks => (k - p - 1) + skipped k ks

/-- Nowhere are 32767 packets or more passed over in a row. -/
def ShortGaps : ℤ → List ℕ → Prop
  | _, [] => True
  | p, k :: ks => k - p < 32768 ∧ ShortGaps k ks

/-- The indices ascend, from above `p`. -/
def Ascends : ℤ → List ℕ → Prop
  | _, [] => True
  | p, k :: ks => p < k ∧ Ascends k ks

theorem skipped_eq (p q : ℤ) {ks : List ℕ} (h : ks ≠ []) :
    skipped p ks = skipped q ks + (q - p) := by
  cases ks with
  | nil => exact absurd rfl h
  | cons k ks =>
    simp only [skipped]
    omega

theorem skipped_le {p q : ℤ} (h : p ≤ q) (ks : List ℕ) : skipped p ks ≤ skipped q ks + (q - p) := by
  by_cases hnil : ks = []
  · subst hnil
    simp only [skipped]
    omega
  · exact (skipped_eq p q hnil).le

theorem Ascends.mono {p q : ℤ} (hpq : p ≤ q) {ks : List ℕ} (h : Ascends q ks) : Ascends p ks := by
  cases ks with
  | nil => trivial
  | cons k ks => exact ⟨hpq.trans_lt h.1, h.2⟩

variable {rx : AudioDepacketizer} {p : ℤ} {ds : List Bytes} {ks : List ℕ}

/-- The estimate never exceeds what was passed over. -/
theorem balance_le (hrx : At rx p) (hds : List.Forall₂ Carries ds ks) (hks : Ascends p ks) :
    balance (rx.ingestAll ds) ≤ balance rx + skipped p ks := by
  induction hds generalizing rx p with
  | nil => simp [AudioDepacketizer.ingestAll, skipped]
  | @cons d k ds ks hd hds ih =>
    have hlt : p < k := hks.1
    change balance ((rx.ingest d).1.ingestAll ds) ≤ balance rx + ((k - p - 1) + skipped k ks)
    rcases ingest_cases hrx hd with ⟨-, -, hat, hb⟩ | ⟨hlow, -, hat, hb⟩ | ⟨hm, hat, hb⟩
    · have := ih hat hks.2
      omega
    · have := ih hat hks.2
      omega
    · have hrest := ih hat (hks.2.mono hlt.le)
      have hskip := skipped_le hlt.le ks
      omega

/-- A gap that is too long is never made good. -/
theorem balance_lt_of_jump {k : ℕ} (hrx : At rx p) (hds : List.Forall₂ Carries ds (k :: ks))
    (hks : Ascends p (k :: ks)) (hjump : p + 32768 ≤ k) :
    balance (rx.ingestAll ds) + 32767 ≤ balance rx + skipped p (k :: ks) := by
  induction ks generalizing rx ds k with
  | nil =>
    obtain ⟨d, rest, hd, htail, rfl⟩ := List.forall₂_cons_right_iff.mp hds
    obtain rfl := List.forall₂_nil_right_iff.mp htail
    change balance (rx.ingest d).1 + 32767 ≤ balance rx + ((k - p - 1) + 0)
    rcases ingest_cases hrx hd with ⟨hlow, hhigh, -, hb⟩ | ⟨hlow, hhigh, -, hb⟩ | ⟨hm, -, hb⟩
    · omega
    · omega
    · omega
  | cons k' ks ih =>
    obtain ⟨d, rest, hd, htail, rfl⟩ := List.forall₂_cons_right_iff.mp hds
    have hnext : (k : ℤ) < k' := hks.2.1
    change balance ((rx.ingest d).1.ingestAll rest) + 32767 ≤
      balance rx + ((k - p - 1) + skipped k (k' :: ks))
    rcases ingest_cases hrx hd with ⟨hlow, hhigh, hat, hb⟩ | ⟨hlow, hhigh, hat, hb⟩ | ⟨hm, hat, hb⟩
    · have := balance_le hat htail hks.2
      omega
    · have := balance_le hat htail hks.2
      omega
    · have hrest := ih hat htail (hks.2.mono hks.1.le) (by omega)
      have hskip := skipped_eq p k (List.cons_ne_nil k' ks)
      omega

/-- Once the receiver follows the numbers it counts what is passed over, precisely where
no gap is too long. -/
theorem balance_eq_or_lt (hrx : At rx p) (hds : List.Forall₂ Carries ds ks) (hks : Ascends p ks) :
    (ShortGaps p ks ∧ balance (rx.ingestAll ds) = balance rx + skipped p ks) ∨
      (¬ ShortGaps p ks ∧ balance (rx.ingestAll ds) + 32767 ≤ balance rx + skipped p ks) := by
  induction hds generalizing rx p with
  | nil => exact Or.inl ⟨trivial, by simp [AudioDepacketizer.ingestAll, skipped]⟩
  | @cons d k ds ks hd hds ih =>
    have hlt : p < k := hks.1
    by_cases hshort : (k : ℤ) - p < 32768
    · have hforward : At (rx.ingest d).1 k ∧
          balance (rx.ingest d).1 = balance rx + (k - p - 1) := by
        rcases ingest_cases hrx hd with ⟨-, -, hat, hb⟩ | ⟨hlow, -, -, -⟩ | ⟨hm, -, -⟩
        · exact ⟨hat, by omega⟩
        · omega
        · omega
      obtain ⟨hat, hb⟩ := hforward
      change (ShortGaps p (k :: ks) ∧
        balance ((rx.ingest d).1.ingestAll ds) = balance rx + ((k - p - 1) + skipped k ks)) ∨
          (¬ ShortGaps p (k :: ks) ∧ balance ((rx.ingest d).1.ingestAll ds) + 32767 ≤
            balance rx + ((k - p - 1) + skipped k ks))
      rcases ih hat hks.2 with ⟨hgaps, heq⟩ | ⟨hgaps, hle⟩
      · exact Or.inl ⟨⟨hshort, hgaps⟩, by omega⟩
      · exact Or.inr ⟨fun h => hgaps h.2, by omega⟩
    · refine Or.inr ⟨fun h => hshort h.1, ?_⟩
      exact balance_lt_of_jump hrx (List.Forall₂.cons hd hds) hks (by omega)

/-- A restart from a number in the lower half: the receiver follows it at once if the
first packet is a step back of at least the threshold, and otherwise counts too little. -/
theorem restart_low {L : ℕ} {k : ℕ} (hL : L ≤ 32768) (hrx : At rx L)
    (hds : List.Forall₂ Carries ds (k :: ks)) (hks : Ascends (-1) (k :: ks))
    (hfirst : 1024 ≤ L → 1 ≤ k) :
    balance (rx.ingestAll ds) + 1 ≤ balance rx + skipped (-1) (k :: ks) := by
  induction ks generalizing rx ds k with
  | nil =>
    obtain ⟨d, rest, hd, htail, rfl⟩ := List.forall₂_cons_right_iff.mp hds
    obtain rfl := List.forall₂_nil_right_iff.mp htail
    change balance (rx.ingest d).1 + 1 ≤ balance rx + ((k - -1 - 1) + 0)
    rcases ingest_cases hrx hd with ⟨hlow, hhigh, -, hb⟩ | ⟨hlow, hhigh, -, hb⟩ | ⟨hm, -, hb⟩
    · omega
    · omega
    · omega
  | cons k' ks ih =>
    obtain ⟨d, rest, hd, htail, rfl⟩ := List.forall₂_cons_right_iff.mp hds
    have hnext : (k : ℤ) < k' := hks.2.1
    change balance ((rx.ingest d).1.ingestAll rest) + 1 ≤
      balance rx + ((k - -1 - 1) + skipped k (k' :: ks))
    rcases ingest_cases hrx hd with ⟨hlow, hhigh, hat, hb⟩ | ⟨hlow, hhigh, hat, hb⟩ | ⟨hm, hat, hb⟩
    · have := balance_le hat htail hks.2
      omega
    · have := balance_le hat htail hks.2
      omega
    · have hrest := ih hat htail (hks.2.mono (by omega)) (by omega)
      have hskip := skipped_eq (-1) k (List.cons_ne_nil k' ks)
      omega

end Runs

end KmControl.AudioLoss
