import KmControl.FrameTraffic
import KmControl.WireNumbering

/-!
The loss reports of a frame over a whole run. Whatever else the run does, once
the frame is closed the report about one of its blocks is a function of the set
of its shards that were taken, and there is one exactly when data was missing.
-/
namespace KmControl.FecReports

open DeliveryOrder FrameCounting FrameLedger FrameTracking FrameTraffic GsProto LossStats MoonVideo
  MoonVideoSteps Packetizer PacketizerShards ShardReadings WireNumbering

section Standing

variable {rs : FecRs} {f : Frame} {c : Counters} {ops : List Op} {op : Op}

/-- Where a frame and its reports stand after a run. -/
inductive Standing (rs : FecRs) (f : Frame) (c : Counters) (ops : List Op) : Prop
  | absent (hnone : ((machine rs).run ops).frames.find? f.frameNumber = none)
      (htaken : taken rs ops f.frameNumber = [])
      (hreports : ∀ b, reportsOf f.frameNumber b ((machine rs).run ops).events = [])
  | inFlight (fr : FrameAsm) (hfr : ((machine rs).run ops).frames.find? f.frameNumber = some fr)
      (hcounted : FrameCounted f c (indicesOf (taken rs ops f.frameNumber)) fr)
      (hreports : ∀ b, reportsOf f.frameNumber b ((machine rs).run ops).events = [])
  | closed (fr : FrameAsm) (hnone : ((machine rs).run ops).frames.find? f.frameNumber = none)
      (htaken : TakenIn rs ops f.frameNumber) (hkey : fr.frameIndex = f.frameNumber)
      (hcounted : FrameCounted f c (indicesOf (taken rs ops f.frameNumber)) fr)
      (hreports : ∀ b, reportsOf f.frameNumber b ((machine rs).run ops).events =
        reportsOf f.frameNumber b (closingEvents fr))

/-- The pushed datagrams of the frame are its own shards. -/
def OwnOnly (f : Frame) (shards : List Bytes) (ops : List Op) : Prop :=
  ∀ datagram now sh, Op.push datagram now ∈ ops → parseShard datagram = some sh →
    sh.nv.frameIndex = f.frameNumber → datagram ∈ shards

/-- Nothing of a frame is taken any more once it is closed. -/
theorem not_accepted_of_closed {k : UInt32} (htaken : TakenIn rs ops k)
    (hnone : ((machine rs).run ops).frames.find? k = none) :
    accepted ((machine rs).run ops) op ≠ some k := by
  intro haccepted
  have hsettled := (live_of_taken htaken).resolve_left (not_not.mpr (slots_eq_none_iff.mpr hnone))
  rcases step_cases rs ((machine rs).run ops) op with ⟨hno, -⟩ | ⟨sh, now, s', fr, hyes, hretired, -⟩
  · rw [haccepted] at hno
    cases hno
  · rw [haccepted, Option.some.injEq] at hyes
    have hmark := (isRetired_iff _ k).mpr hsettled.retired
    rw [hyes, hretired] at hmark
    cases hmark

/-- Traffic of other frames leaves the frame where it is, or closes it. -/
theorem Standing.aside (h : Standing rs f c ops)
    (hno : accepted ((machine rs).run ops) op ≠ some f.frameNumber)
    (haside : Aside f.frameNumber ((machine rs).run ops) ((machine rs).run (ops ++ [op]))) :
    Standing rs f c (ops ++ [op]) := by
  have hkeys := (run_sound rs ops).1
  have hsame := taken_concat_ne hno
  rcases haside with ⟨hfind, hreports⟩ | ⟨fr, hbefore, hafter, hreports⟩
  · cases h with
    | absent hnone htaken hold =>
      exact .absent (hfind.trans hnone) (hsame.trans htaken) fun b => (hreports b).trans (hold b)
    | inFlight fr hfr hcounted hold =>
      rw [← hsame] at hcounted
      exact .inFlight fr (hfind.trans hfr) hcounted fun b => (hreports b).trans (hold b)
    | closed fr hnone htaken hkey hcounted hold =>
      rw [← hsame] at hcounted
      exact .closed fr (hfind.trans hnone) (htaken.mono (List.prefix_append _ _)) hkey hcounted
        fun b => (hreports b).trans (hold b)
  · cases h with
    | absent hnone _ _ =>
      rw [hnone] at hbefore
      cases hbefore
    | inFlight fr' hfr hcounted hold =>
      rw [hfr, Option.some.injEq] at hbefore
      subst hbefore
      rw [← hsame] at hcounted
      refine .closed fr' hafter ((taken_of_frame hfr).mono (List.prefix_append _ _))
        (hkeys _ _ hfr) hcounted fun b => ?_
      rw [hreports, hold, List.nil_append]
    | closed fr' hnone _ _ _ _ =>
      rw [hnone] at hbefore
      cases hbefore

/-- A shard of the frame that is taken is counted. -/
theorem Standing.absorbed (h : Standing rs f c ops) {datagram : Bytes} {now : Instant} {sh : Shard}
    {b i : ℕ} (hyes : accepted ((machine rs).run ops) (Op.push datagram now) = some f.frameNumber)
    (hown : OwnShard f c b i sh) (hplace : place datagram = some (b, i))
    (habsorbed : Absorbed rs f.frameNumber ((machine rs).run ops)
      ((machine rs).run (ops ++ [Op.push datagram now])) sh) :
    Standing rs f c (ops ++ [Op.push datagram now]) := by
  obtain ⟨⟨fr, now', d, hfrom, hafter⟩, hreports⟩ := habsorbed
  have hmore := taken_concat_push hyes
  have hcounts : ∀ {R}, R = indicesOf (taken rs ops f.frameNumber) → FrameCounted f c R fr →
      FrameCounted f c (indicesOf (taken rs (ops ++ [Op.push datagram now]) f.frameNumber))
        { (fr.absorb rs sh).1 with delivered := d } := by
    intro R hR hcounted
    rw [hmore, indicesOf_concat hplace, ← hR]
    exact (hcounted.absorb rs hown).delivered d
  cases h with
  | absent hnone htaken hold =>
    rcases hfrom with hfr | ⟨-, rfl⟩
    · rw [hnone] at hfr
      cases hfr
    · have hempty : (fun _ => ∅) = indicesOf (taken rs ops f.frameNumber) := by
        rw [htaken]
        rfl
      exact .inFlight _ hafter (hcounts hempty (frameCounted_fresh hown now'))
        fun b => (hreports b).trans (hold b)
  | inFlight fr' hfr hcounted hold =>
    rcases hfrom with hfr' | ⟨hnone, -⟩
    · rw [hfr, Option.some.injEq] at hfr'
      subst hfr'
      exact .inFlight _ hafter (hcounts rfl hcounted) fun b => (hreports b).trans (hold b)
    · rw [hfr] at hnone
      cases hnone
  | closed fr' hnone htaken _ _ _ => exact absurd hyes (not_accepted_of_closed htaken hnone)

theorem standing_run (hfit : Fits f) (hsize : 0 < f.shardPayloadSize) {shards : ℕ → ℕ → Bytes}
    (hspec : ∀ b, b < f.nrBlocks → BlockShards rs f b (countersAt f c b) (shards b))
    (ops : List Op) (hops : OwnOnly f (inOrder f shards f.nrBlocks) ops) :
    Standing rs f c ops := by
  induction ops using List.reverseRecOn with
  | nil => exact .absent rfl rfl fun _ => rfl
  | append_singleton ops op ih =>
    have hstanding := ih fun datagram now sh hmem =>
      hops datagram now sh (List.mem_append_left _ hmem)
    have hstep := frame_step rs (run_sound rs ops).1 op f.frameNumber
    change (_ ∧ Aside _ _ ((machine rs).step _ op)) ∨ ∃ _ _ _, _ ∧ _ ∧ _ ∧ _ ∧
      Absorbed _ _ _ ((machine rs).step _ op) _ at hstep
    rw [← Machine.run_concat] at hstep
    rcases hstep with ⟨hno, haside⟩ | ⟨datagram, now, sh, rfl, hparse, hk, hyes, habsorbed⟩
    · exact hstanding.aside hno haside
    · have hmem := hops datagram now sh (by simp) hparse hk
      obtain ⟨b, i, sh', hparse', hown, hplace⟩ := ownShard hfit hsize hspec hmem
      rw [hparse, Option.some.injEq] at hparse'
      subst hparse'
      exact hstanding.absorbed hyes hown hplace habsorbed

end Standing

section Exact

variable {rs : FecRs} {f : Frame} {c : Counters}

/-- The report about block `b` of a frame of which the shards with an index in `A`
were taken. -/
structure ExactReport (f : Frame) (shards : List Bytes) (b : ℕ) (A : Finset ℕ)
    (st : FrameFecStatus) : Prop where
  frame : st.frameIndex = f.frameNumber
  block : st.blockIndex.toNat = b ∧ st.blockCount.toNat = f.nrBlocks
  receivedData : st.receivedDataShards.toNat = (A.filter (· < f.blockDataShards b)).card
  receivedParity : st.receivedParityShards.toNat = (A.filter (¬ · < f.blockDataShards b)).card
  totalData : st.totalDataShards.toNat = f.blockDataShards b
  totalParity : st.totalParityShards.toNat = f.blockParity b
  highest : ∃ s ∈ shards, place s = some (b, A.sup id) ∧
    rtpSequence s = some st.highestReceivedSeq.toNat
  missing : st.missingBeforeHighest.toNat = A.sup id + 1 - A.card
  parsed : FrameFecStatus.parse st.bytes = some st

theorem exactReport (hfit : Fits f) {shards : ℕ → ℕ → Bytes}
    (hspec : ∀ b, b < f.nrBlocks → BlockShards rs f b (countersAt f c b) (shards b)) {b : ℕ}
    (hb : b < f.nrBlocks) {A : Finset ℕ} (hA : A.Nonempty) {blk : BlockAsm}
    (hdata : blk.dataShards = f.blockDataShards b) (hparity : blk.paritySlots = f.blockParity b)
    (hcounted : Counted (seqBase f c b) A blk) :
    ExactReport f (inOrder f shards f.nrBlocks) b A (blk.fecStatus f.frameNumber b f.nrBlocks) := by
  have hblocks := nrBlocks_le f
  have htotal := blk.total_le
  have hbound := hcounted.bounded _ (sup_mem hA)
  unfold maxFecBlocks at hblocks
  unfold maxShards at htotal
  refine ⟨rfl, ⟨?_, ?_⟩, ?_, ?_, ?_, ?_, ?_, ?_, FrameFecStatus.parse_bytes _⟩
  · change (UInt8.ofNat b).toNat = b
    rw [UInt8.toNat_ofNat', Nat.mod_eq_of_lt (by omega)]
  · change (UInt8.ofNat f.nrBlocks).toNat = f.nrBlocks
    rw [UInt8.toNat_ofNat', Nat.mod_eq_of_lt (by omega)]
  · rw [← hdata]
    exact hcounted.data
  · rw [← hdata]
    exact hcounted.parity
  · change (UInt16.ofNat blk.dataShards).toNat = _
    rw [UInt16.toNat_ofNat', Nat.mod_eq_of_lt (by omega), hdata]
  · change (UInt16.ofNat blk.paritySlots).toNat = _
    rw [UInt16.toNat_ofNat', Nat.mod_eq_of_lt (by omega), hparity]
  · have hlt : A.sup id < f.blockTotal b := by
      rw [hdata, hparity] at hbound
      exact hbound
    have hhead := (hspec b hb).header _ hlt
    refine ⟨shards b (A.sup id), (mem_inOrder f).mpr ⟨b, hb, _, hlt, rfl⟩,
      place_eq hb (blockDataShards_le hfit hb) hlt hhead, ?_⟩
    change _ = some blk.stats.highestSeq.toNat
    rw [rtpSequence_eq f b _ hhead, hcounted.noted.highest hA, seqBase, UInt16.toNat_add,
      UInt32.toNat_toUInt16, UInt16.toNat_ofNat']
    congr 1
    omega
  · have hmissing := hcounted.noted.missing hA
    change blk.stats.missingBeforeHighest.toNat = _
    omega

/-- Blocks that fit the code, as the frame's size puts it. -/
theorem fits_of_blocks (f : Frame)
    (h : ∀ block, block < f.nrBlocks → f.blockDataShards block ≤ maxShards) : Fits f := by
  have hpos := nrBlocks_pos f
  have hlast := h (f.nrBlocks - 1) (by omega)
  have hadd := blockStart_add f (f.nrBlocks - 1) (by omega)
  rw [if_pos (by omega)] at hadd
  unfold Frame.blockStart at hadd
  unfold Fits
  omega

/-- In every run whose datagrams of the frame are its own shards: while the frame
is in flight nothing is reported of it; once it is closed, the only report about
a block of which shards were taken is the exact one, if data was missing. -/
theorem loss_reports_exact (hrs : rs.Lawful) (f : Frame) (c : Counters)
    (hmin : 24 ≤ f.requestedPacketSize)
    (hblocks : ∀ block, block < f.nrBlocks → f.blockDataShards block ≤ maxShards) :
    ∃ shards c', packetizeFrame rs f c = some (shards, c') ∧
      ∀ ops, OwnOnly f shards ops →
        let k := f.frameNumber
        let A := indicesOf (taken rs ops k)
        let s := (machine rs).run ops
        (s.frames.find? k ≠ none → ∀ b, reportsOf k b s.events = []) ∧
          (s.frames.find? k = none → ∀ b, b < f.nrBlocks → (A b).Nonempty →
            ∃ st, ExactReport f shards b (A b) st ∧ reportsOf k b s.events =
              if ((A b).filter (· < f.blockDataShards b)).card < f.blockDataShards b then [st]
              else []) := by
  have hsize : nvVideoPacketSize < f.requestedPacketSize := by
    unfold nvVideoPacketSize
    omega
  obtain ⟨shards, hpacketize, hspec⟩ := packetizeFrame_eq f hrs c hsize
  have hfit := fits_of_blocks f hblocks
  refine ⟨_, _, hpacketize, fun ops hops => ?_⟩
  have hstanding := standing_run hfit (Nat.sub_pos_of_lt hsize) hspec ops hops
  refine ⟨fun hflight b => ?_, fun hgone b hb hA => ?_⟩
  · cases hstanding with
    | absent hnone _ hreports => exact hreports b
    | inFlight fr _ _ hreports => exact hreports b
    | closed fr hnone _ _ _ _ => exact absurd hnone hflight
  · cases hstanding with
    | absent _ htaken _ =>
      rw [htaken] at hA
      exact absurd hA Finset.not_nonempty_empty
    | inFlight fr hfr _ _ =>
      rw [hgone] at hfr
      cases hfr
    | closed fr _ _ hkey hcounted hreports =>
      cases hblk : fr.block b with
      | none =>
        rw [hcounted.block_none b hb hblk] at hA
        exact absurd hA Finset.not_nonempty_empty
      | some blk =>
        obtain ⟨hdata, hparity, hcounts⟩ := hcounted.block_some b blk hb hblk
        refine ⟨_, exactReport hfit hspec hb hA hdata hparity hcounts, ?_⟩
        have hcount := hcounted.blockCount_eq
        rw [hreports, reportsOf_closing hkey (hcount ▸ nrBlocks_le f) (hcount ▸ hb) hblk, hcount,
          hcounts.data, hdata]

/-- The second of two data shards; its sequence number has wrapped. -/
def secondShard : Bytes := dataShardBytes twoShards 0 65535 1 1

theorem loss_reports_wrapped : ∃ (rs : FecRs) (shards : List Bytes) (c' : Counters),
    packetizeFrame rs twoShards ⟨65535, 0⟩ = some (shards, c') ∧
      ∃ st, reportsOf 7 0 ((machine rs).run
          [Op.push secondShard 0, Op.expire 200000000]).events = [st] ∧
        st.receivedDataShards.toNat = 1 ∧ st.receivedParityShards.toNat = 0 ∧
          st.missingBeforeHighest.toNat = 1 := by
  obtain ⟨rs, hrs⟩ := FecRs.exists_lawful
  obtain ⟨shards', hpacketize', hspec⟩ := packetizeFrame_eq twoShards hrs ⟨65535, 0⟩ (by decide)
  obtain ⟨shards, c', hpacketize, hreports⟩ := loss_reports_exact hrs twoShards ⟨65535, 0⟩
    (by decide) (by decide)
  have hown : OwnOnly twoShards shards [Op.push secondShard 0, Op.expire 200000000] := by
    intro datagram now sh hmem _ _
    have heq : datagram = secondShard := by
      rcases List.mem_cons.mp hmem with h | h
      · exact (Op.push.inj h).1
      · cases List.mem_singleton.mp h
    rw [hpacketize', Option.some.injEq, Prod.mk.injEq] at hpacketize
    rw [heq, ← hpacketize.1]
    exact (mem_inOrder twoShards).mpr ⟨0, by decide, 1, by decide,
      (hspec 0 (by decide)).data 1 (by decide)⟩
  have htaken : taken rs [Op.push secondShard 0, Op.expire 200000000] 7 = [secondShard] := rfl
  have hindices : indicesOf [secondShard] 0 = {1} := by decide
  obtain ⟨-, hclosed⟩ := hreports _ hown
  have hA : indicesOf (taken rs [Op.push secondShard 0, Op.expire 200000000]
      twoShards.frameNumber) 0 = {1} := (congrArg (indicesOf · 0) htaken).trans hindices
  obtain ⟨st, hexact, hevents⟩ := hclosed rfl 0 (by decide) (hA ▸ Finset.singleton_nonempty 1)
  rw [hA] at hexact hevents
  exact ⟨rs, shards, c', hpacketize, st, hevents, hexact.receivedData, hexact.receivedParity,
    hexact.missing⟩

end Exact

end KmControl.FecReports
