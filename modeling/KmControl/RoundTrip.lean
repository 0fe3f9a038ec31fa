import KmControl.FrameDelivery

/-!
From one packetized frame back to its encoded bytes. As long as no FEC block has
more than 255 data shards, any arrival of enough shards of every block delivers
the frame; beyond that size the receiver never sees the whole frame again.
-/
namespace KmControl.RoundTrip

open ByteFields FrameDelivery FrameTracking GsProto MoonVideo MoonVideoSteps Packetizer
  PacketizerShards

section Arrivals

variable {rs : FecRs} {f : Frame} {c : Counters} {shards : ℕ → ℕ → Bytes}

/-- Enough shards of every block deliver the frame, exactly once and as it was. -/
theorem events_of_enough (hrs : rs.Lawful) (hencoded : f.encodedData ≠ [])
    (hmin : 24 ≤ f.requestedPacketSize) (hmax : f.requestedPacketSize < 2 ^ 32) (hfit : Fits f)
    (hshards : ∀ b, b < f.nrBlocks → BlockShards rs f b (countersAt f c b) (shards b))
    (arrivals : List (Bytes × Instant))
    (hsent : ∀ a ∈ arrivals, a.1 ∈ inOrder f shards f.nrBlocks)
    (henough : EnoughShards f (arrivals.map Prod.fst)) :
    ((machine rs).run (pushes arrivals)).events =
      [VideoEvent.frame f.frameNumber (accessUnit f)] := by
  cases arrivals with
  | nil =>
    have hpos := blockDataShards_pos f (nrBlocks_pos f)
    exact absurd (henough 0 (nrBlocks_pos f)) (not_le.mpr hpos)
  | cons a rest =>
    have hrest : ∀ op ∈ pushes rest, During f shards Depacketizer.new a.2 op := by
      intro op hop
      obtain ⟨a', ha', rfl⟩ := List.mem_map.mp hop
      exact hsent a' (List.mem_cons_of_mem _ ha')
    rw [List.map_cons, ← pushed_pushes rest] at henough
    obtain ⟨R, fr, hcovered, hflight⟩ := deliver hrs hfit
      (deliverable hencoded hmin hmax hshards) hshards (ready_new f)
      (hsent a List.mem_cons_self) hrest henough
    exact (hflight.done hcovered).eq_of_empty fun _ => rfl

end Arrivals

section Oversized

variable {rs : FecRs} {f : Frame} {c : Counters} {shards : ℕ → ℕ → Bytes}

/-- What a datagram of the frame, of any size, says about its place. -/
structure FromFrame (f : Frame) (sh : Shard) : Prop where
  payload_length : sh.payload.length = f.shardPayloadSize
  blockCount : sh.nv.blockCount = f.nrBlocks
  full : sh.nv.blockIndex + 1 < f.nrBlocks → sh.nv.dataShards = f.nrDataPerBlock

/-- A frame in assembly with as many data shards as the first blocks have. -/
structure Bounded (f : Frame) (fr : FrameAsm) : Prop where
  payloadLen_eq : fr.shardPayloadLen = f.shardPayloadSize
  blockCount_eq : fr.blockCount = f.nrBlocks
  full : ∀ b blk, b + 1 < f.nrBlocks → fr.block b = some blk →
    blk.dataShards = f.nrDataPerBlock

theorem fromFrame_of_parse {b i : ℕ} {seq : UInt32} {datagram : Bytes} {sh : Shard}
    (hb : b < f.nrBlocks) (hi : i < f.blockTotal b) (hhead : HasHeader f b seq i datagram)
    (hparse : parseShard datagram = some sh) : FromFrame f sh := by
  obtain ⟨nv, hread, -, hindex, hcount, -⟩ := hhead.fields hb
  have hsh : sh.nv = nv ∧ sh.payload = datagram.drop payloadOffset := by
    unfold parseShard at hparse
    rw [hread] at hparse
    split at hparse
    · split at hparse
      · cases hparse
      · split at hparse
        · rename_i heq
          split at hparse
          · cases hparse
            cases heq
            exact ⟨rfl, rfl⟩
          · cases hparse
        · cases hparse
    · cases hparse
  rw [← hsh.1] at hread hindex hcount
  refine ⟨?_, hcount, ?_⟩
  · rw [hsh.2, List.length_drop, hhead.length_eq, Frame.shardSize, Nat.add_sub_cancel_left]
  · intro hfull
    rw [hindex] at hfull
    have hdata := blockDataShards_eq f hfull
    have hfit : f.blockDataShards b ≤ maxShards := hdata ▸ nrDataPerBlock_le f
    obtain ⟨nv', hread', -, -, -, -, hshards, -⟩ := hhead.decoded hb hfit hi
    rw [hread, Option.some.injEq] at hread'
    subst hread'
    exact hshards.trans hdata

private theorem bounded_rule (f : Frame) :
    FrameRule rs (fun _ => Bounded f) (FromFrame f) where
  new := by
    intro sh now hok
    refine ⟨hok.payload_length, hok.blockCount, fun b blk _ hblk => ?_⟩
    unfold FrameAsm.block at hblk
    split at hblk <;> cases hblk
  absorb := by
    intro sh fr hok hfr
    rcases absorb_cases rs fr sh with hsame | ⟨blk, hset, hdata, -⟩
    · exact hsame.symm ▸ hfr
    · rw [hset]
      refine ⟨hfr.payloadLen_eq, hfr.blockCount_eq, fun b blk' hb hblk' => ?_⟩
      rw [block_setBlock] at hblk'
      split at hblk'
      · rename_i heq
        cases hblk'
        rw [heq] at hb
        rw [hdata, target]
        cases hold : fr.blocks sh.block with
        | none => exact hok.full hb
        | some old => exact hfr.full sh.block.val old hb (by rw [block_val, hold])
      · exact hfr.full b blk' hb hblk'
  deliver := fun _ _ hfr => ⟨hfr.payloadLen_eq, hfr.blockCount_eq, hfr.full⟩

/-- What a frame assembles to is no longer than its shards together. -/
theorem assemble_length {fr : FrameAsm} {au : AuFrame} (h : fr.assemble = some au) :
    ∃ blocks, (List.range fr.blockCount).mapM fr.block = some blocks ∧
      au.data.length + 7 ≤ (blocks.map BlockAsm.dataShards).sum * fr.shardPayloadLen := by
  unfold FrameAsm.assemble at h
  simp only [Option.bind_eq_bind] at h
  split at h
  · cases h
  obtain ⟨blocks, hblocks, h⟩ := Option.bind_eq_some_iff.mp h
  refine ⟨blocks, hblocks, ?_⟩
  split at h
  · cases h
  rename_i htotal
  obtain ⟨first, -, h⟩ := Option.bind_eq_some_iff.mp h
  obtain ⟨slot, -, h⟩ := Option.bind_eq_some_iff.mp h
  obtain ⟨hdr, -, h⟩ := Option.bind_eq_some_iff.mp h
  split at h
  · cases h
  rename_i hlast
  split at h
  · cases h
  rename_i hlong
  obtain ⟨pieces, -, h⟩ := Option.bind_eq_some_iff.mp h
  cases h
  have hclip : (Chunks.clip videoFrameHeaderSize
      (((blocks.map BlockAsm.dataShards).sum - 1) * fr.shardPayloadLen +
        hdr.lastPayloadLen.toNat) 0 pieces).length ≤
      ((blocks.map BlockAsm.dataShards).sum - 1) * fr.shardPayloadLen +
        hdr.lastPayloadLen.toNat - videoFrameHeaderSize := by
    rw [Chunks.clip_eq, List.length_drop, List.length_take]
    omega
  obtain ⟨n, hn⟩ : ∃ n, (blocks.map BlockAsm.dataShards).sum = n + 1 :=
    ⟨_, (Nat.succ_pred htotal).symm⟩
  rw [hn, Nat.add_sub_cancel] at hclip hlong
  rw [List.length_cons, hn, Nat.add_sub_cancel, Nat.add_one_mul]
  unfold videoFrameHeaderSize at *
  omega

/-- The receiver counts at most 255 data shards in the last block. -/
theorem Bounded.sum_le {fr : FrameAsm} (h : Bounded f fr) {blocks : List BlockAsm}
    (hblocks : (List.range fr.blockCount).mapM fr.block = some blocks) :
    (blocks.map BlockAsm.dataShards).sum ≤ (f.nrBlocks - 1) * f.nrDataPerBlock + maxShards := by
  obtain ⟨n, hn⟩ : ∃ n, f.nrBlocks = n + 1 := ⟨f.nrBlocks - 1, by
    have := nrBlocks_pos f
    omega⟩
  rw [h.blockCount_eq, hn, List.range_succ, List.mapM_append] at hblocks
  obtain ⟨full, hfull, hblocks⟩ := Option.bind_eq_some_iff.mp hblocks
  obtain ⟨last, hlast, hblocks⟩ := Option.bind_eq_some_iff.mp hblocks
  cases hblocks
  obtain ⟨hlen, hmem⟩ := Chunks.of_mapM_eq_some hfull
  obtain ⟨hlen', -⟩ := Chunks.of_mapM_eq_some hlast
  obtain ⟨blk, rfl⟩ := List.length_eq_one_iff.mp hlen'
  have hsum : (full.map BlockAsm.dataShards).sum ≤ n * f.nrDataPerBlock := by
    have hle : ∀ d ∈ full.map BlockAsm.dataShards, d ≤ f.nrDataPerBlock := by
      intro d hd
      obtain ⟨blk', hblk', rfl⟩ := List.mem_map.mp hd
      obtain ⟨b, hb, hblock⟩ := hmem blk' hblk'
      have hlt := List.mem_range.mp hb
      exact (h.full b blk' (by omega) hblock).le
    have hcard := List.sum_le_card_nsmul _ _ hle
    rwa [List.length_map, hlen, List.length_range, smul_eq_mul] at hcard
  have hbound := blk.total_le
  rw [List.map_append, List.sum_append, hn, Nat.add_sub_cancel]
  simp only [List.map_cons, List.map_nil, List.sum_cons, List.sum_nil]
  omega

/-- A frame too large for its blocks never comes out whole. -/
theorem not_delivered (hmin : 24 ≤ f.requestedPacketSize) (hlarge : ¬ Fits f)
    (hshards : ∀ b, b < f.nrBlocks → BlockShards rs f b (countersAt f c b) (shards b))
    (arrivals : List (Bytes × Instant))
    (hsent : ∀ a ∈ arrivals, a.1 ∈ inOrder f shards f.nrBlocks) (k : UInt32) (au : AuFrame)
    (hmem : VideoEvent.frame k au ∈ ((machine rs).run (pushes arrivals)).events) :
    au.data.length < 1 + f.encodedData.length := by
  have hok : ∀ datagram now, Op.push datagram now ∈ pushes arrivals →
      ∀ sh, parseShard datagram = some sh → FromFrame f sh := by
    intro datagram now hpush sh hparse
    obtain ⟨a, ha, heq⟩ := List.mem_map.mp hpush
    cases heq
    obtain ⟨b, hb, i, hi, hs⟩ := (mem_inOrder f).mp (hsent a ha)
    have hhead := (hshards b hb).header i hi
    rw [hs] at hhead
    exact fromFrame_of_parse hb hi hhead hparse
  obtain ⟨fr, hbounded, hassemble⟩ := (run_frames (bounded_rule f) (pushes arrivals) hok).2 k au hmem
  obtain ⟨blocks, hblocks, hlen⟩ := assemble_length hassemble
  have hsum := hbounded.sum_le hblocks
  have hsize : 0 < f.shardPayloadSize := by
    unfold Frame.shardPayloadSize nvVideoPacketSize
    omega
  obtain ⟨hlow, -⟩ := packetDataLen_bounds f hsize
  have htotal : (f.nrBlocks - 1) * f.nrDataPerBlock + maxShards ≤ f.totalDataShards - 1 := by
    unfold Fits at hlarge
    omega
  have hchain : au.data.length + 7 < f.packetDataLen := by
    calc au.data.length + 7
        ≤ (blocks.map BlockAsm.dataShards).sum * f.shardPayloadSize := by
          rw [← hbounded.payloadLen_eq]
          exact hlen
      _ ≤ (f.totalDataShards - 1) * f.shardPayloadSize :=
          Nat.mul_le_mul_right _ (hsum.trans htotal)
      _ < f.packetDataLen := hlow
  unfold Frame.packetDataLen videoFrameHeaderSize at hchain
  omega

end Oversized

/-- The bound on the size of a frame, in bytes. -/
theorem fits_iff (f : Frame) (hsize : 0 < f.shardPayloadSize) : Fits f ↔
    f.packetDataLen ≤ ((maxFecBlocks - 1) * f.nrDataPerBlock + maxShards) * f.shardPayloadSize := by
  obtain ⟨hlow, hhigh⟩ := packetDataLen_bounds f hsize
  have hblocks := nrBlocks_le f
  constructor
  · intro hfit
    refine hhigh.trans (Nat.mul_le_mul_right _ (hfit.trans ?_))
    exact Nat.add_le_add_right (Nat.mul_le_mul_right _ (by omega)) _
  · intro hlen
    have htotal : f.totalDataShards - 1 < (maxFecBlocks - 1) * f.nrDataPerBlock + maxShards :=
      Nat.lt_of_mul_lt_mul_right (hlow.trans_le hlen)
    have hper := nrDataPerBlock_le f
    unfold Fits
    by_cases hfour : f.nrBlocks = maxFecBlocks
    · rw [hfour]
      omega
    · -- Fewer than four blocks: none of them is larger than the others.
      have hquot : (f.totalDataShards - 1) / f.nrDataPerBlock = f.nrBlocks - 1 := by
        have hnonneg := Nat.zero_le ((f.totalDataShards - 1) / f.nrDataPerBlock)
        unfold Frame.nrBlocks at hfour hblocks ⊢
        omega
      have hmod := Nat.lt_mul_div_succ (f.totalDataShards - 1) (nrDataPerBlock_pos f)
      rw [hquot, Nat.mul_add_one, Nat.mul_comm] at hmod
      omega

/-- The whole path of one frame: whatever is lost, repeated or reordered on the
way, enough shards of every block bring its encoded bytes back. -/
theorem round_trip_under_erasure (rs : FecRs) (hrs : rs.Lawful) (f : Frame) (c : Counters)
    (hencoded : f.encodedData ≠ []) (hmin : 24 ≤ f.requestedPacketSize)
    (hmax : f.requestedPacketSize < 2 ^ 32)
    (hfit : f.totalDataShards ≤ (f.nrBlocks - 1) * f.nrDataPerBlock + maxShards) :
    ∃ shards c', packetizeFrame rs f c = some (shards, c') ∧
      ∀ arrivals : List (Bytes × Instant), (∀ a ∈ arrivals, a.1 ∈ shards) →
        EnoughShards f (arrivals.map Prod.fst) →
          ((machine rs).run (pushes arrivals)).events =
            [VideoEvent.frame f.frameNumber
              ⟨f.isKeyFrame, (if f.isKeyFrame then 1 else 0) :: f.encodedData⟩] := by
  have hsize : nvVideoPacketSize < f.requestedPacketSize := by
    unfold nvVideoPacketSize
    omega
  obtain ⟨shards, hpacketize, hshards⟩ := packetizeFrame_eq f hrs c hsize
  exact ⟨_, _, hpacketize, events_of_enough hrs hencoded hmin hmax hfit hshards⟩

def smallFrame : Frame where
  encodedData := [7]
  isKeyFrame := true
  requestedPacketSize := 40
  frameNumber := 5
  rtpTimestamp := 0
  fecPercentage := 20

/-- Of a frame of one data and one parity shard the parity alone is enough. -/
theorem round_trip_from_parity : ∃ (rs : FecRs) (shards : List Bytes) (c : Counters),
    rs.Lawful ∧ packetizeFrame rs smallFrame ⟨0, 0⟩ = some (shards, c) ∧
      ((machine rs).run (pushes ((shards.drop 1).map fun s => (s, 0)))).events =
        [VideoEvent.frame 5 ⟨true, [1, 7]⟩] := by
  obtain ⟨rs, hrs⟩ := FecRs.exists_lawful
  obtain ⟨S, hS, hspec⟩ := packetizeFrame_eq smallFrame hrs ⟨0, 0⟩ (by decide)
  obtain ⟨shards, c, hshards, hevents⟩ := round_trip_under_erasure rs hrs smallFrame ⟨0, 0⟩
    (by decide) (by decide) (by decide) (by decide)
  have hlist : shards = [S 0 0, S 0 1] := by
    rw [hS, Option.some.injEq, Prod.mk.injEq] at hshards
    exact hshards.1.symm
  have hheader : headerBlock (S 0 1) = some 0 :=
    headerBlock_eq ((hspec 0 (by decide)).header 1 (by decide)) (by decide)
  refine ⟨rs, shards, c, hrs, hshards, hevents _ ?_ ?_⟩
  · intro a ha
    obtain ⟨s, hs, rfl⟩ := List.mem_map.mp ha
    exact List.mem_of_mem_drop hs
  · intro b hb
    have hzero : b = 0 := Nat.lt_one_iff.mp hb
    subst hzero
    rw [hlist, List.map_map]
    change smallFrame.blockDataShards 0 ≤
      ([S 0 1].filter fun s => decide (headerBlock s = some 0)).dedup.length
    have hkept : ([S 0 1].filter fun s => decide (headerBlock s = some 0)) = [S 0 1] := by
      simp only [List.filter_cons, hheader, decide_true, if_true, List.filter_nil]
    rw [hkept, List.dedup_eq_self.mpr (List.nodup_singleton _)]
    change smallFrame.blockDataShards 0 ≤ 1
    decide

/-- Without any loss a frame comes out whole exactly up to a size that depends on
the percentage: then the fourth block has at most 255 data shards. -/
theorem lossless_delivery_iff (rs : FecRs) (hrs : rs.Lawful) (f : Frame) (c : Counters)
    (hencoded : f.encodedData ≠ []) (hmin : 24 ≤ f.requestedPacketSize)
    (hmax : f.requestedPacketSize < 2 ^ 32) :
    ∃ shards c', packetizeFrame rs f c = some (shards, c') ∧
      ∀ arrivals : List (Bytes × Instant), arrivals.map Prod.fst = shards →
        (VideoEvent.frame f.frameNumber
            ⟨f.isKeyFrame, (if f.isKeyFrame then 1 else 0) :: f.encodedData⟩ ∈
              ((machine rs).run (pushes arrivals)).events ↔
          f.packetDataLen ≤
            ((maxFecBlocks - 1) * f.nrDataPerBlock + maxShards) * f.shardPayloadSize) := by
  have hsize : nvVideoPacketSize < f.requestedPacketSize := by
    unfold nvVideoPacketSize
    omega
  obtain ⟨shards, hpacketize, hshards⟩ := packetizeFrame_eq f hrs c hsize
  refine ⟨_, _, hpacketize, fun arrivals harrivals => ?_⟩
  have hsent : ∀ a ∈ arrivals, a.1 ∈ inOrder f shards f.nrBlocks := by
    intro a ha
    rw [← harrivals]
    exact List.mem_map_of_mem ha
  rw [← fits_iff f (Nat.sub_pos_of_lt hsize)]
  constructor
  · intro hmem
    by_contra hlarge
    have hshort := not_delivered hmin hlarge hshards arrivals hsent _ _ hmem
    rw [List.length_cons] at hshort
    omega
  · intro hfit
    have henough := enough_of_all hfit hshards
    rw [← harrivals] at henough
    rw [events_of_enough hrs hencoded hmin hmax hfit hshards arrivals hsent henough]
    exact List.mem_singleton_self _

theorem lossless_delivery_small : ∃ (rs : FecRs) (shards : List Bytes) (c : Counters),
    packetizeFrame rs smallFrame ⟨0, 0⟩ = some (shards, c) ∧
      VideoEvent.frame 5 ⟨true, [1, 7]⟩ ∈
        ((machine rs).run (pushes (shards.map fun s => (s, 0)))).events := by
  obtain ⟨rs, hrs⟩ := FecRs.exists_lawful
  obtain ⟨shards, c, hshards, hiff⟩ := lossless_delivery_iff rs hrs smallFrame ⟨0, 0⟩
    (by decide) (by decide) (by decide)
  refine ⟨rs, shards, c, hshards, (hiff _ ?_).mpr (by decide)⟩
  rw [List.map_map]
  exact List.map_id _

/-- What is too large for the blocks does not come out, although all of it arrives. -/
theorem oversized_not_delivered (rs : FecRs) (hrs : rs.Lawful) (f : Frame) (c : Counters)
    (hmin : 24 ≤ f.requestedPacketSize) (hlarge :
      ((maxFecBlocks - 1) * f.nrDataPerBlock + maxShards) * f.shardPayloadSize <
        f.packetDataLen) :
    ∃ shards c', packetizeFrame rs f c = some (shards, c') ∧ ∀ k,
      VideoEvent.frame k (accessUnit f) ∉
        ((machine rs).run (pushes (shards.map fun s => (s, 0)))).events := by
  have hsize : nvVideoPacketSize < f.requestedPacketSize := by
    unfold nvVideoPacketSize
    omega
  obtain ⟨shards, hpacketize, hshards⟩ := packetizeFrame_eq f hrs c hsize
  have hfit : ¬ Fits f := by
    rw [fits_iff f (Nat.sub_pos_of_lt hsize)]
    exact not_le.mpr hlarge
  refine ⟨_, _, hpacketize, fun k hmem => ?_⟩
  have hshort := not_delivered hmin hfit hshards _ (fun a ha => ?_) _ _ hmem
  · rw [accessUnit, List.length_cons] at hshort
    omega
  · obtain ⟨s, hs, rfl⟩ := List.mem_map.mp ha
    exact hs

/-- A key frame in packets of 1024 bytes, at 20 percent. -/
def largeFrame (encodedData : Bytes) : Frame where
  encodedData := encodedData
  isKeyFrame := true
  requestedPacketSize := 1024
  frameNumber := 1
  rtpTimestamp := 0
  fecPercentage := 20

/-- The fourth block of a key frame of a million bytes has more data shards than
the receiver accepts. -/
theorem large_frame_not_delivered : ∃ (rs : FecRs) (shards : List Bytes) (c : Counters),
    rs.Lawful ∧ packetizeFrame rs (largeFrame (List.replicate 1000000 0)) ⟨0, 0⟩ =
      some (shards, c) ∧
        VideoEvent.frame 1 (accessUnit (largeFrame (List.replicate 1000000 0))) ∉
          ((machine rs).run (pushes (shards.map fun s => (s, 0)))).events := by
  obtain ⟨rs, hrs⟩ := FecRs.exists_lawful
  have hlarge : ∀ data : Bytes, data.length = 1000000 →
      ((maxFecBlocks - 1) * (largeFrame data).nrDataPerBlock + maxShards) *
        (largeFrame data).shardPayloadSize < (largeFrame data).packetDataLen := by
    intro data hdata
    have hlen : (largeFrame data).packetDataLen = videoFrameHeaderSize + 1000000 :=
      congrArg (videoFrameHeaderSize + ·) hdata
    rw [hlen]
    simp only [Frame.nrDataPerBlock, Frame.nrParityPerBlock, Frame.percentage,
      Frame.shardPayloadSize, largeFrame, maxFecBlocks, maxShards, nvVideoPacketSize]
    decide
  obtain ⟨shards, c, hshards, hevents⟩ := oversized_not_delivered rs hrs
    (largeFrame (List.replicate 1000000 0)) ⟨0, 0⟩ (show 24 ≤ 1024 by omega)
    (hlarge _ List.length_replicate)
  exact ⟨rs, shards, c, hrs, hshards, hevents 1⟩

end KmControl.RoundTrip
