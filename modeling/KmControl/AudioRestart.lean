import KmControl.AudioLoss

/-!
The host registers a client anew and its numbers start at zero. From then on the
packets come in order, and some may be missing. Whether the loss is counted
depends on the last number from before and on the first packet that comes.
-/
namespace KmControl.AudioRestart

open ByteFields HostAudio MoonAudio AudioLoss

/-- How many packets up to the last one that came are missing. -/
def missed (ks : List ℕ) : ℕ := (Finset.range (ks.getLastD 0 + 1) \ ks.toFinset).card

theorem le_getLastD {k : ℕ} {ks : List ℕ} (h : (k :: ks).Pairwise (· < ·)) :
    ∀ j ∈ k :: ks, j ≤ (k :: ks).getLastD 0 := by
  induction ks generalizing k with
  | nil => simp
  | cons k' ks ih =>
    obtain ⟨hfirst, hrest⟩ := List.pairwise_cons.mp h
    have hle := ih hrest
    intro j hj
    rcases List.mem_cons.mp hj with rfl | hj
    · exact (hfirst k' List.mem_cons_self).le.trans (hle k' List.mem_cons_self)
    · exact hle j hj

theorem skipped_eq_last (p : ℤ) (k : ℕ) (ks : List ℕ) :
    skipped p (k :: ks) = (k :: ks).getLastD 0 - p - (ks.length + 1) := by
  induction ks generalizing p k with
  | nil =>
    simp only [skipped, List.getLastD_cons, List.getLastD_nil, List.length_nil]
    omega
  | cons k' ks ih =>
    have hlast : (k :: k' :: ks).getLastD 0 = (k' :: ks).getLastD 0 := by
      simp only [List.getLastD_cons]
    rw [skipped, ih, hlast, List.length_cons]
    push_cast
    omega

theorem missed_eq_skipped {ks : List ℕ} (hne : ks ≠ []) (h : ks.Pairwise (· < ·)) :
    (missed ks : ℤ) = skipped (-1) ks := by
  cases ks with
  | nil => exact absurd rfl hne
  | cons k ks =>
    have hsub : (k :: ks).toFinset ⊆ Finset.range ((k :: ks).getLastD 0 + 1) := by
      intro j hj
      have hle := le_getLastD h j (List.mem_toFinset.mp hj)
      exact Finset.mem_range.mpr (by omega)
    have hcard : (k :: ks).toFinset.card = ks.length + 1 :=
      List.toFinset_card_of_nodup (h.imp fun hlt => hlt.ne)
    have hle := Finset.card_le_card hsub
    rw [Finset.card_range, hcard] at hle
    unfold missed
    rw [Finset.card_sdiff_of_subset hsub, Finset.card_range, hcard, skipped_eq_last]
    omega

theorem ascends_of_pairwise {p : ℤ} {ks : List ℕ} (h : ks.Pairwise (· < ·))
    (hp : ∀ k ∈ ks, p < k) : Ascends p ks := by
  induction ks generalizing p with
  | nil => trivial
  | cons k ks ih =>
    obtain ⟨hfirst, hrest⟩ := List.pairwise_cons.mp h
    exact ⟨hp k List.mem_cons_self, ih hrest fun j hj => by exact_mod_cast hfirst j hj⟩

/-- Without loss the indices are all there, one after the other. -/
theorem shortGaps_of_skipped {p : ℤ} {ks : List ℕ} (hks : Ascends p ks)
    (h : skipped p ks ≤ 0) : ShortGaps p ks ∧ 0 ≤ skipped p ks := by
  induction ks generalizing p with
  | nil => exact ⟨trivial, le_rfl⟩
  | cons k ks ih =>
    have hlt : p < k := hks.1
    have hnonneg : 0 ≤ skipped k ks := by
      by_cases hrest : skipped k ks ≤ 0
      · exact (ih hks.2 hrest).2
      · omega
    simp only [skipped] at h ⊢
    refine ⟨⟨by omega, (ih hks.2 (by omega)).1⟩, by omega⟩

/-- A restart is no loss, and what is lost after it is counted. -/
structure CountsLosses (before after : LossStats) (ks : List ℕ) : Prop where
  lossless : missed ks = 0 → after.lost ≤ before.lost
  counted : missed ks ≠ 0 → (after.expected : ℤ) - after.received =
    before.expected - before.received + missed ks

/-- When the verdict on the restart is right. Without loss it must not look like a gap, unless
late packets from before make up for it; with loss the receiver must follow the numbers from
the first packet on. -/
def FollowsRestart (before : LossStats) (L : UInt16) (ks : List ℕ) : Prop :=
  if missed ks = 0 then
    L.toNat ≤ 32768 ∨ L.toNat = 65535 ∨ before.expected + (65535 - L.toNat) ≤ before.received
  else ShortGaps (-1) ks ∧
    (L.toNat = 65535 ∨ (1024 ≤ L.toNat ∧ L.toNat ≤ 32768 ∧ ks.head? = some 0))

section Restart

variable {rx : AudioDepacketizer} {L : UInt16} {ds : List Bytes} {ks : List ℕ}

/-- A restart from a number in the upper half looks like a gap. -/
theorem restart_high (hlast : rx.tracker.last = some L) (hlow : 32768 < L.toNat)
    (hds : List.Forall₂ Carries ds ks) (hks : Ascends (-1) ks) (hne : ks ≠ []) :
    balance (rx.ingestAll ds) = balance rx + skipped (-1) ks + (65535 - L.toNat) ∨
      (¬ ShortGaps (L.toNat - 65536) ks ∧
        balance (rx.ingestAll ds) + 1 ≤ balance rx + skipped (-1) ks) := by
  have hat : At rx (L.toNat - 65536) := ⟨L, hlast, by have := L.toNat_lt; omega⟩
  have hskip := skipped_eq (L.toNat - 65536) (-1) hne
  have hlt := L.toNat_lt
  rcases balance_eq_or_lt hat hds (hks.mono (by omega)) with ⟨-, heq⟩ | ⟨hgaps, hle⟩
  · exact Or.inl (by omega)
  · exact Or.inr ⟨hgaps, by omega⟩

/-- A restart that the receiver takes for one, with its first packet. -/
theorem restart_seen (hlast : rx.tracker.last = some L) (hlow : 1024 ≤ L.toNat)
    (hhigh : L.toNat ≤ 32768) (hds : List.Forall₂ Carries ds ks) (hks : Ascends (-1) ks)
    (hfirst : ks.head? = some 0) :
    (ShortGaps (-1) ks ∧ balance (rx.ingestAll ds) = balance rx + skipped (-1) ks) ∨
      (¬ ShortGaps (-1) ks ∧ balance (rx.ingestAll ds) + 32767 ≤ balance rx + skipped (-1) ks) := by
  obtain ⟨rest, rfl⟩ := List.head?_eq_some_iff.mp hfirst
  obtain ⟨d, tail, hd, htail, rfl⟩ := List.forall₂_cons_right_iff.mp hds
  have hat : At rx L.toNat := ⟨L, hlast, by omega⟩
  have hresync : At (rx.ingest d).1 (0 : ℕ) ∧ balance (rx.ingest d).1 = balance rx := by
    rcases ingest_cases hat hd with ⟨-, hm, -, -⟩ | ⟨-, -, hseen, hb⟩ | ⟨hm, -, -⟩
    · omega
    · exact ⟨hseen, hb⟩
    · omega
  change (ShortGaps (-1) (0 :: rest) ∧ balance ((rx.ingest d).1.ingestAll tail) =
      balance rx + (((0 : ℕ) - -1 - 1) + skipped (0 : ℕ) rest)) ∨
    (¬ ShortGaps (-1) (0 :: rest) ∧ balance ((rx.ingest d).1.ingestAll tail) + 32767 ≤
      balance rx + (((0 : ℕ) - -1 - 1) + skipped (0 : ℕ) rest))
  rcases balance_eq_or_lt hresync.1 htail hks.2 with ⟨hgaps, heq⟩ | ⟨hgaps, hle⟩
  · exact Or.inl ⟨⟨by omega, hgaps⟩, by omega⟩
  · exact Or.inr ⟨fun h => hgaps h.2, by omega⟩

/-- A restart from the lower half that is taken for late packets, or whose first packet
does not come. -/
theorem restart_unseen (hlast : rx.tracker.last = some L) (hhalf : L.toNat ≤ 32768)
    (hds : List.Forall₂ Carries ds ks) (hks : Ascends (-1) ks) (hne : ks ≠ [])
    (hseen : ¬ (1024 ≤ L.toNat ∧ ks.head? = some 0)) :
    balance (rx.ingestAll ds) + 1 ≤ balance rx + skipped (-1) ks := by
  cases ks with
  | nil => exact absurd rfl hne
  | cons k ks =>
    have hat : At rx L.toNat := ⟨L, hlast, by omega⟩
    refine restart_low hhalf hat hds hks fun hL => ?_
    by_contra hk
    exact hseen ⟨hL, by simp only [List.head?_cons, Option.some.injEq]; omega⟩

/-- Without loss a restart from the upper half is taken for a gap. -/
theorem shortGaps_high {p : ℤ} (hp : -32768 < p) (hlow : p ≤ -1) (hks : Ascends (-1) ks)
    (h : skipped (-1) ks = 0) : ShortGaps p ks := by
  cases ks with
  | nil => trivial
  | cons k ks =>
    obtain ⟨⟨-, hrest⟩, -⟩ := shortGaps_of_skipped hks h.le
    have hnonneg : 0 ≤ skipped k ks := by
      by_cases hle : skipped k ks ≤ 0
      · exact (shortGaps_of_skipped hks.2 hle).2
      · omega
    simp only [skipped] at h
    exact ⟨by omega, hrest⟩

theorem lossless_iff (hlast : rx.tracker.last = some L) (hds : List.Forall₂ Carries ds ks)
    (hks : Ascends (-1) ks) (hne : ks ≠ []) (h : skipped (-1) ks = 0) :
    (rx.ingestAll ds).stats.lost ≤ rx.stats.lost ↔
      L.toNat ≤ 32768 ∨ L.toNat = 65535 ∨
        rx.stats.expected + (65535 - L.toNat) ≤ rx.stats.received := by
  have hlt := L.toNat_lt
  have hlost : (rx.ingestAll ds).stats.lost ≤ rx.stats.lost ↔
      balance (rx.ingestAll ds) ≤ max 0 (balance rx) := by
    unfold LossStats.lost balance
    omega
  rw [hlost]
  by_cases hhalf : L.toNat ≤ 32768
  · refine iff_of_true ?_ (Or.inl hhalf)
    have hle : balance (rx.ingestAll ds) ≤ balance rx := by
      by_cases hseen : 1024 ≤ L.toNat ∧ ks.head? = some 0
      · rcases restart_seen hlast hseen.1 hhalf hds hks hseen.2 with ⟨-, heq⟩ | ⟨-, hle⟩
        · omega
        · omega
      · have := restart_unseen hlast hhalf hds hks hne hseen
        omega
    omega
  · have heq : balance (rx.ingestAll ds) = balance rx + (65535 - L.toNat) := by
      rcases restart_high hlast (by omega) hds hks hne with heq | ⟨hgaps, -⟩
      · omega
      · exact absurd (shortGaps_high (by omega) (by omega) hks h) hgaps
    unfold balance at *
    omega

theorem counted_iff (hlast : rx.tracker.last = some L) (hds : List.Forall₂ Carries ds ks)
    (hks : Ascends (-1) ks) (hne : ks ≠ []) :
    balance (rx.ingestAll ds) = balance rx + skipped (-1) ks ↔
      ShortGaps (-1) ks ∧
        (L.toNat = 65535 ∨ (1024 ≤ L.toNat ∧ L.toNat ≤ 32768 ∧ ks.head? = some 0)) := by
  have hlt := L.toNat_lt
  by_cases hlargest : L.toNat = 65535
  · have hat : At rx (-1) := ⟨L, hlast, by omega⟩
    rcases balance_eq_or_lt hat hds hks with ⟨hgaps, heq⟩ | ⟨hgaps, hle⟩
    · exact iff_of_true heq ⟨hgaps, Or.inl hlargest⟩
    · exact iff_of_false (by omega) fun h => hgaps h.1
  by_cases hhalf : L.toNat ≤ 32768
  · by_cases hseen : 1024 ≤ L.toNat ∧ ks.head? = some 0
    · rcases restart_seen hlast hseen.1 hhalf hds hks hseen.2 with ⟨hgaps, heq⟩ | ⟨hgaps, hle⟩
      · exact iff_of_true heq ⟨hgaps, Or.inr ⟨hseen.1, hhalf, hseen.2⟩⟩
      · exact iff_of_false (by omega) fun h => hgaps h.1
    · refine iff_of_false ?_ fun h => ?_
      · have := restart_unseen hlast hhalf hds hks hne hseen
        omega
      · rcases h.2 with heq | ⟨hL, -, hhead⟩
        · exact hlargest heq
        · exact hseen ⟨hL, hhead⟩
  · refine iff_of_false ?_ fun h => by omega
    rcases restart_high hlast (by omega) hds hks hne with heq | ⟨-, hle⟩
    · omega
    · omega

end Restart

section Host

variable {Addr : Type} [DecidableEq Addr] (r : Registration Addr)

/-- The datagram of a packet that was sent. -/
def datagram (k : ℕ) : Bytes := ((r.packets[k]?).map Prod.snd).getD []

theorem carries_datagram {k : ℕ} (h : k < r.packets.length) : Carries (datagram r k) k := by
  have hget : r.packets[k]? = some r.packets[k] := List.getElem?_eq_getElem h
  obtain ⟨-, timestamp, frame, hframe, hpacket⟩ := r.each_packet hget
  refine ⟨timestamp, frame, hframe, ?_⟩
  rw [datagram, hget]
  exact hpacket

theorem forall_carries {ks : List ℕ} (h : ∀ k ∈ ks, k < r.packets.length) :
    List.Forall₂ Carries (ks.map (datagram r)) ks := by
  induction ks with
  | nil => exact List.Forall₂.nil
  | cons k ks ih =>
    exact List.Forall₂.cons (carries_datagram r (h k List.mem_cons_self))
      (ih fun j hj => h j (List.mem_cons_of_mem k hj))

end Host

/-- A client that registers and is sent three frames. -/
def threeFrames : Registration ℕ where
  before := []
  addr := 7
  now := 0
  after := [.frame (some [1]), .frame (some [2]), .frame (some [3])]
  running := rfl
  fresh := by decide
  free := rfl
  stays := by decide
  encoded := by simp [Encoded]

/-- A receiver that has counted three packets up to the given number. -/
def listening (L : UInt16) : AudioDepacketizer where
  stats := ⟨3, 3, 0⟩
  tracker := ⟨some L⟩
  sinkOpen := true
  delivered := []

end KmControl.AudioRestart
