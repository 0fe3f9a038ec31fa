import KmControl.BlockTracking
import KmControl.PacketizerShards

/-!
One frame while the shards that the packetizer made of it arrive. The header of
a shard leads it to its place; a frame whose blocks have received enough shards
assembles to the encoded bytes it was made of.
-/
namespace KmControl.FrameTracking

open BlockTracking ByteFields Chunks GsProto MoonVideo MoonVideoSteps Packetizer
  PacketizerShards

/-- A frame none of whose blocks has more than `maxShards` data shards. -/
def Fits (f : Frame) : Prop :=
  f.totalDataShards ≤ (f.nrBlocks - 1) * f.nrDataPerBlock + maxShards

instance (f : Frame) : Decidable (Fits f) := inferInstanceAs (Decidable (_ ≤ _))

theorem blockDataShards_le {f : Frame} (hfit : Fits f) {block : ℕ} (hblock : block < f.nrBlocks) :
    f.blockDataShards block ≤ maxShards := by
  by_cases hlast : block + 1 = f.nrBlocks
  · have hadd := blockStart_add f block hblock
    rw [if_pos hlast] at hadd
    have hindex : f.nrBlocks - 1 = block := by omega
    unfold Fits at hfit
    rw [hindex] at hfit
    unfold Frame.blockStart at hadd
    omega
  · rw [blockDataShards_eq f (by omega)]
    exact nrDataPerBlock_le f

theorem blockTotal_le {f : Frame} (hfit : Fits f) {block : ℕ} (hblock : block < f.nrBlocks) :
    f.blockTotal block ≤ maxShards :=
  add_parityShardCount_le (blockDataShards_le hfit hblock) f.percentage

/-- The shard that a datagram of the frame parses to. -/
structure SentShard (f : Frame) (block i : ℕ) (payload : Bytes) (sh : Shard) : Prop where
  frameIndex : sh.nv.frameIndex = f.frameNumber
  blockIndex : sh.nv.blockIndex = block
  blockCount : sh.nv.blockCount = f.nrBlocks
  dataShards : sh.nv.dataShards = f.blockDataShards block
  shardIndex : sh.nv.shardIndex = i
  fecPercentage : sh.nv.fecPercentage = f.percentage
  payload_eq : sh.payload = payload

section Parse

variable {f : Frame} {block i : ℕ} {seq : UInt32} {s : Bytes}

/-- The block index that a datagram's header carries. -/
def headerBlock (datagram : Bytes) : Option ℕ :=
  (NvVideoPacket.readFromShard datagram).map NvVideoPacket.blockIndex

theorem headerBlock_eq (hhead : HasHeader f block seq i s) (hblock : block < f.nrBlocks) :
    headerBlock s = some block := by
  obtain ⟨nv, hread, -, hindex, -⟩ := hhead.fields hblock
  rw [headerBlock, hread, Option.map_some, hindex]

/-- Every datagram of a fitting frame is accepted and names its place. -/
theorem parseShard_eq (hfit : Fits f) (hsize : 0 < f.shardPayloadSize)
    (hblock : block < f.nrBlocks) (hi : i < f.blockTotal block)
    (hhead : HasHeader f block seq i s) :
    ∃ sh, parseShard s = some sh ∧ SentShard f block i (s.drop payloadOffset) sh := by
  have hdata := blockDataShards_le hfit hblock
  have htotal := blockTotal_le hfit hblock
  obtain ⟨nv, hread, hframe, hindex, hcount, hshard, hdatas, hpercent⟩ :=
    hhead.decoded hblock hdata hi
  obtain ⟨rtp, hrtp, -⟩ := hhead.rtp
  have hlen : payloadOffset < s.length := by
    rw [hhead.length_eq]
    exact Nat.lt_add_of_pos_right hsize
  have hchecks : nv.blockIndex < nv.blockCount ∧ 0 < nv.dataShards ∧
      nv.dataShards ≤ maxShards ∧ nv.shardIndex < maxShards := by
    rw [hindex, hcount, hdatas, hshard]
    exact ⟨hblock, blockDataShards_pos f hblock, hdata, hi.trans_le htotal⟩
  have hpayload : 0 < (s.drop payloadOffset).length := by
    rw [List.length_drop]
    omega
  let sh : Shard := ⟨rtp, nv, s.drop payloadOffset, hpayload, hchecks.1, hchecks.2.1,
    hchecks.2.2.1, hchecks.2.2.2⟩
  refine ⟨sh, ?_, hframe, hindex, hcount, hdatas, hshard, hpercent, rfl⟩
  unfold parseShard
  rw [dif_pos hlen, if_neg (not_not.mpr hhead.version), hrtp, hread]
  exact dif_pos hchecks

/-- The header tells the shards of a block apart. -/
theorem index_unique (hfit : Fits f) (hblock : block < f.nrBlocks) {i' : ℕ} {seq' : UInt32}
    (hi : i < f.blockTotal block) (hi' : i' < f.blockTotal block)
    (hhead : HasHeader f block seq i s) (hhead' : HasHeader f block seq' i' s) : i = i' := by
  have hdata := blockDataShards_le hfit hblock
  obtain ⟨nv, hread, -, -, -, hshard, -⟩ := hhead.decoded hblock hdata hi
  obtain ⟨nv', hread', -, -, -, hshard', -⟩ := hhead'.decoded hblock hdata hi'
  rw [hread, Option.some.injEq] at hread'
  subst hread'
  exact hshard.symm.trans hshard'

end Parse

section Blocks

variable (fr : FrameAsm) (b : Fin maxFecBlocks) (blk : BlockAsm)

theorem block_val : fr.block b.val = fr.blocks b := dif_pos b.isLt

theorem block_setBlock (k : ℕ) :
    (fr.setBlock b blk).block k = if k = b.val then some blk else fr.block k := by
  unfold FrameAsm.block FrameAsm.setBlock
  by_cases hk : k < maxFecBlocks
  · rw [dif_pos hk, dif_pos hk]
    by_cases heq : k = b.val
    · rw [if_pos heq, show (⟨k, hk⟩ : Fin maxFecBlocks) = b from Fin.ext heq]
      exact Function.update_self _ _ _
    · rw [if_neg heq]
      exact Function.update_of_ne (fun h => heq (congrArg Fin.val h)) _ _
  · have hne : k ≠ b.val := fun h => hk (h ▸ b.isLt)
    rw [dif_neg hk, dif_neg hk, if_neg hne]

section Tables

variable {fr b blk} {n : ℕ} {R : ℕ → Finset ℕ}

/-- What absent blocks say of a table `R` stays true when a block is put in. -/
theorem setBlock_none (h : ∀ k, k < n → fr.block k = none → R k = ∅) (Rb : Finset ℕ) (k : ℕ)
    (hk : k < n) (hnone : (fr.setBlock b blk).block k = none) :
    Function.update R b.val Rb k = ∅ := by
  rw [block_setBlock] at hnone
  split at hnone
  · cases hnone
  · rename_i hne
    rw [Function.update_of_ne hne]
    exact h k hk hnone

/-- So does what the present ones say of it, with the new block's own entry. -/
theorem setBlock_some {T : ℕ → Finset ℕ → BlockAsm → Prop} {Rb : Finset ℕ}
    (h : ∀ k blk, k < n → fr.block k = some blk → T k (R k) blk) (hblk : T b Rb blk) (k : ℕ)
    (blk' : BlockAsm) (hk : k < n) (hsome : (fr.setBlock b blk).block k = some blk') :
    T k (Function.update R b.val Rb k) blk' := by
  rw [block_setBlock] at hsome
  split at hsome
  · rename_i heq
    cases hsome
    subst heq
    rwa [Function.update_self]
  · rename_i hne
    rw [Function.update_of_ne hne]
    exact h k blk' hk hsome

/-- The block that a shard of a frame goes to is the frame's, or a new one. -/
theorem target_of {f : Frame} {sh : Shard} {block i : ℕ} {payload : Bytes}
    (hsh : SentShard f block i payload sh) {T : BlockAsm → Prop}
    (hnone : fr.block block = none → T sh.newBlock)
    (hsome : ∀ blk, fr.block block = some blk → T blk) : T (target fr sh) := by
  have hblock : fr.block block = fr.blocks sh.block := by
    rw [← block_val]
    exact congrArg fr.block hsh.blockIndex.symm
  unfold target
  cases hblk : fr.blocks sh.block with
  | none => exact hnone (hblock.trans hblk)
  | some blk => exact hsome blk (hblock.trans hblk)

theorem newBlock_dims {f : Frame} {sh : Shard} {block i : ℕ} {payload : Bytes}
    (hsh : SentShard f block i payload sh) : sh.newBlock.dataShards = f.blockDataShards block ∧
      sh.newBlock.paritySlots = f.blockParity block := by
  refine ⟨hsh.dataShards, ?_⟩
  change parityShardCount sh.nv.dataShards sh.nv.fecPercentage = _
  rw [hsh.dataShards, hsh.fecPercentage]
  rfl

end Tables

/-- What absorbing a shard does once the shard agrees with its frame and block. -/
theorem absorb_eq (rs : FecRs) (sh : Shard) (hlen : fr.shardPayloadLen = sh.payload.length)
    (hcount : fr.blockCount = sh.nv.blockCount)
    (hblk : (fr.blocks sh.block).getD sh.newBlock = blk)
    (hdata : blk.dataShards = sh.nv.dataShards)
    (i : Fin (blk.dataShards + blk.paritySlots)) (hi : i.val = sh.nv.shardIndex) :
    fr.absorb rs sh =
      if blk.received i then (fr.setBlock sh.block blk, false)
      else
        let blk' := blk.record i sh.rtp.sequenceNumber sh.payload
        if fr.delivered then ((fr.setBlock sh.block blk).setBlock sh.block blk', false)
        else if blk'.dataComplete then ((fr.setBlock sh.block blk).setBlock sh.block blk', true)
        else ((fr.setBlock sh.block blk).setBlock sh.block (blk'.tryRecover rs).2, true) := by
  have hfields : ¬ (fr.shardPayloadLen ≠ sh.payload.length ∨ fr.blockCount ≠ sh.nv.blockCount) := by
    rw [not_or]
    exact ⟨not_not.mpr hlen, not_not.mpr hcount⟩
  have hindex : sh.nv.shardIndex < blk.dataShards + blk.paritySlots := hi ▸ i.isLt
  have heq : (⟨sh.nv.shardIndex, hindex⟩ : Fin (blk.dataShards + blk.paritySlots)) = i :=
    Fin.ext hi.symm
  subst hblk
  unfold FrameAsm.absorb
  rw [if_neg hfields]
  simp only [if_neg (not_not.mpr hdata), dif_pos hindex, heq]
  rfl

end Blocks

/-- A frame that has received the shards in `R`, block by block. -/
structure FrameTracks (f : Frame) (payloads : ℕ → ℕ → Bytes) (R : ℕ → Finset ℕ)
    (fr : FrameAsm) : Prop where
  blockCount_eq : fr.blockCount = f.nrBlocks
  payloadLen_eq : fr.shardPayloadLen = f.shardPayloadSize
  block_none : ∀ b, b < f.nrBlocks → fr.block b = none → R b = ∅
  block_some : ∀ b blk, b < f.nrBlocks → fr.block b = some blk →
    blk.dataShards = f.blockDataShards b ∧ blk.paritySlots = f.blockParity b ∧
      Tracks (payloads b) (R b) blk

/-- Every block has received as many shards as it has data shards. -/
def Covered (f : Frame) (R : ℕ → Finset ℕ) : Prop :=
  ∀ b, b < f.nrBlocks → f.blockDataShards b ≤ (R b).card

/-- One more shard received. -/
def receive (R : ℕ → Finset ℕ) (b i : ℕ) : ℕ → Finset ℕ :=
  Function.update R b (insert i (R b))

theorem subset_receive (R : ℕ → Finset ℕ) (b i k : ℕ) : R k ⊆ receive R b i k := by
  unfold receive
  by_cases hk : k = b
  · rw [hk, Function.update_self]
    exact Finset.subset_insert _ _
  · rw [Function.update_of_ne hk]

theorem mem_receive (R : ℕ → Finset ℕ) (b i : ℕ) : i ∈ receive R b i b := by
  rw [receive, Function.update_self]
  exact Finset.mem_insert_self _ _

theorem receive_of_mem {R : ℕ → Finset ℕ} {b i : ℕ} (h : i ∈ R b) : receive R b i = R := by
  rw [receive, Finset.insert_eq_of_mem h, Function.update_eq_self]

theorem Covered.mono {f : Frame} {R R' : ℕ → Finset ℕ} (h : Covered f R)
    (hsub : ∀ b, R b ⊆ R' b) : Covered f R' :=
  fun b hb => (h b hb).trans (Finset.card_le_card (hsub b))

section Tracks

variable {f : Frame} {payloads : ℕ → ℕ → Bytes} {R : ℕ → Finset ℕ} {fr : FrameAsm}

theorem frameTracks_new (now : Instant) : FrameTracks f payloads (fun _ => ∅)
    (FrameAsm.new f.frameNumber f.nrBlocks f.shardPayloadSize now) where
  blockCount_eq := rfl
  payloadLen_eq := rfl
  block_none := fun _ _ _ => rfl
  block_some := by
    intro b blk _ hblk
    have hnone : (FrameAsm.new f.frameNumber f.nrBlocks f.shardPayloadSize now).block b = none := by
      unfold FrameAsm.block
      split <;> rfl
    rw [hnone] at hblk
    cases hblk

theorem FrameTracks.setBlock (h : FrameTracks f payloads R fr) (b : Fin maxFecBlocks)
    (blk : BlockAsm) {Rb : Finset ℕ} (hdata : blk.dataShards = f.blockDataShards b)
    (hparity : blk.paritySlots = f.blockParity b) (htracks : Tracks (payloads b) Rb blk) :
    FrameTracks f payloads (Function.update R b.val Rb) (fr.setBlock b blk) where
  blockCount_eq := h.blockCount_eq
  payloadLen_eq := h.payloadLen_eq
  block_none := setBlock_none h.block_none Rb
  block_some := setBlock_some (T := fun b Rb blk => blk.dataShards = f.blockDataShards b ∧
    blk.paritySlots = f.blockParity b ∧ Tracks (payloads b) Rb blk) h.block_some
      ⟨hdata, hparity, htracks⟩

/-- A frame is complete exactly when it is covered. -/
theorem FrameTracks.complete_iff (h : FrameTracks f payloads R fr) :
    fr.complete = true ↔ Covered f R := by
  unfold FrameAsm.complete Covered
  rw [List.all_eq_true, h.blockCount_eq]
  simp only [List.mem_range]
  refine forall_congr' fun b => forall_congr' fun hb => ?_
  cases hblk : fr.block b with
  | none =>
    have hpos := blockDataShards_pos f hb
    rw [h.block_none b hb hblk, Finset.card_empty]
    exact iff_of_false (by simp) (by omega)
  | some blk =>
    obtain ⟨hdata, -, htracks⟩ := h.block_some b blk hb hblk
    rw [← hdata, ← htracks.dataComplete_iff_card]
    rfl

/-- The block a shard goes to, created if it is the first one of its block. -/
private theorem tracks_target (h : FrameTracks f payloads R fr) {b i : ℕ} {payload : Bytes}
    (hb : b < f.nrBlocks) {sh : Shard} (hsh : SentShard f b i payload sh) :
    ∃ blk, (fr.blocks sh.block).getD sh.newBlock = blk ∧
      blk.dataShards = f.blockDataShards b ∧ blk.paritySlots = f.blockParity b ∧
      Tracks (payloads b) (R b) blk := by
  refine ⟨target fr sh, rfl, ?_⟩
  refine target_of hsh (T := fun blk => blk.dataShards = f.blockDataShards b ∧
    blk.paritySlots = f.blockParity b ∧ Tracks (payloads b) (R b) blk) (fun hnone => ?_)
      (fun blk hsome => h.block_some b blk hb hsome)
  obtain ⟨hdata, hparity⟩ := newBlock_dims hsh
  refine ⟨hdata, hparity, ?_⟩
  rw [h.block_none b hb hnone]
  exact tracks_new _ _ _ _

/-- Absorbing a shard of the frame adds it to the received set. A shard that is
new to an undelivered frame is flagged. -/
theorem FrameTracks.absorb {rs : FecRs} (hrs : rs.Lawful) (h : FrameTracks f payloads R fr)
    (hdelivered : fr.delivered = true → Covered f R) {b i : ℕ} (hb : b < f.nrBlocks)
    (hi : i < f.blockTotal b) (hcode : CodeBlock rs (payloads b) f.shardPayloadSize
      (f.blockDataShards b) (f.blockParity b)) {sh : Shard}
    (hsh : SentShard f b i (payloads b i) sh) :
    FrameTracks f payloads (receive R b i) (fr.absorb rs sh).1 ∧
      (fr.absorb rs sh).1.delivered = fr.delivered ∧
      ((fr.absorb rs sh).2 = true → fr.delivered = false) ∧
      ((fr.absorb rs sh).2 = false → fr.delivered = true ∨ receive R b i = R) := by
  obtain ⟨blk, hblk, hdata, hparity, htracks⟩ := tracks_target h hb hsh
  have hlen : fr.shardPayloadLen = sh.payload.length := by
    rw [h.payloadLen_eq, hsh.payload_eq, hcode.length_eq i hi]
  have hindex : i < blk.dataShards + blk.paritySlots := by
    rw [hdata, hparity]
    exact hi
  let slot : Fin (blk.dataShards + blk.paritySlots) := ⟨i, hindex⟩
  have habsorb := absorb_eq fr blk rs sh hlen (h.blockCount_eq.trans hsh.blockCount.symm) hblk
    (hdata.trans hsh.dataShards.symm) slot hsh.shardIndex.symm
  rw [hsh.payload_eq] at habsorb
  have hbv : sh.block.val = b := hsh.blockIndex
  have hset : ∀ {Rb : Finset ℕ} {fr' : FrameAsm} {R' : ℕ → Finset ℕ} (blk' : BlockAsm),
      FrameTracks f payloads R' fr' → blk'.dataShards = blk.dataShards →
      blk'.paritySlots = blk.paritySlots → Tracks (payloads b) Rb blk' →
      FrameTracks f payloads (Function.update R' b Rb) (fr'.setBlock sh.block blk') := by
    intro Rb fr' R' blk' hfr' hd hp ht
    rw [← hbv] at ht hdata hparity ⊢
    exact hfr'.setBlock sh.block blk' (hd.trans hdata) (hp.trans hparity) ht
  have hopened : FrameTracks f payloads R (fr.setBlock sh.block blk) := by
    have hfirst := hset blk h rfl rfl htracks
    rwa [Function.update_eq_self] at hfirst
  rw [habsorb]
  by_cases hreceived : blk.received slot = true
  · -- A duplicate changes nothing.
    have hmem : i ∈ R b := (htracks.stored.received_iff slot).mp hreceived
    rw [if_pos hreceived, receive_of_mem hmem]
    exact ⟨hopened, rfl, fun hflag => (Bool.false_ne_true hflag).elim, fun _ => Or.inr rfl⟩
  have hstored := htracks.stored.update slot
  rw [if_neg hreceived]
  cases hdel : fr.delivered with
  | true =>
    -- A late shard of a delivered frame only adds to the received set.
    have hcomplete : blk.dataComplete = true := by
      rw [htracks.dataComplete_iff_card, hdata]
      exact hdelivered hdel b hb
    have hrecord := htracks.record slot sh.rtp.sequenceNumber hcomplete
    refine ⟨hset _ hopened rfl rfl hrecord, hdel, ?_, fun _ => Or.inl rfl⟩
    intro hflag
    cases hflag
  | false =>
    let blk' := blk.record slot sh.rtp.sequenceNumber (payloads b i)
    have hkeep : blk'.dataComplete = true → (blk'.tryRecover rs).2 = blk' := by
      intro hcomplete
      unfold BlockAsm.tryRecover
      rw [if_pos hcomplete]
    have hrecover : Tracks (payloads b) (insert i (R b)) (blk'.tryRecover rs).2 := by
      rcases htracks.progress with ⟨-, hfull⟩ | ⟨-, hgap⟩
      · have hcomplete := dataComplete_iff.mpr hfull
        rw [hkeep (dataComplete_iff.mpr (hfull.update slot (payloads b i)))]
        exact htracks.record slot sh.rtp.sequenceNumber hcomplete
      · have hblock : CodeBlock rs (payloads b) f.shardPayloadSize blk'.dataShards
            blk'.paritySlots := by
          change CodeBlock rs (payloads b) f.shardPayloadSize blk.dataShards blk.paritySlots
          rwa [hdata, hparity]
        exact tracks_tryRecover hrs hblock hstored (hgap.update slot (some (payloads b i)))
    have hdims := tryRecover_dims rs blk'
    have hbranch : (if blk'.dataComplete then
        ((fr.setBlock sh.block blk).setBlock sh.block blk', true)
      else ((fr.setBlock sh.block blk).setBlock sh.block (blk'.tryRecover rs).2, true)) =
        ((fr.setBlock sh.block blk).setBlock sh.block (blk'.tryRecover rs).2, true) := by
      by_cases hcomplete : blk'.dataComplete = true
      · rw [if_pos hcomplete, hkeep hcomplete]
      · rw [if_neg hcomplete]
    simp only [Bool.false_eq_true, if_false]
    rw [hbranch]
    refine ⟨hset _ hopened hdims.1 hdims.2 hrecover, hdel, fun _ => trivial, ?_⟩
    intro hflag
    cases hflag

end Tracks

section Assemble

variable {f : Frame} {payloads : ℕ → ℕ → Bytes} {R : ℕ → Finset ℕ} {fr : FrameAsm}

/-- The access unit that a frame carries. -/
def accessUnit (f : Frame) : AuFrame where
  keyframe := f.isKeyFrame
  data := (if f.isKeyFrame then 1 else 0) :: f.encodedData

/-- The last shard ends where the stream ends. -/
theorem packetDataLen_eq (f : Frame) (hsize : 0 < f.shardPayloadSize) :
    (f.totalDataShards - 1) * f.shardPayloadSize + f.lastShardSize = f.packetDataLen ∧
      0 < f.lastShardSize ∧ f.lastShardSize ≤ f.shardPayloadSize := by
  obtain ⟨hlow, hhigh⟩ := packetDataLen_bounds f hsize
  have hpos := totalDataShards_pos f
  obtain ⟨n, hn⟩ : ∃ n, f.totalDataShards = n + 1 := ⟨f.totalDataShards - 1, by omega⟩
  rw [hn, Nat.add_sub_cancel] at hlow
  rw [hn, Nat.add_one_mul] at hhigh
  have hmod : f.packetDataLen % f.shardPayloadSize =
      (f.packetDataLen - n * f.shardPayloadSize) % f.shardPayloadSize := by
    conv_lhs => rw [← Nat.sub_add_cancel hlow.le, Nat.add_mul_mod_self_right]
  unfold Frame.lastShardSize
  rw [hn, Nat.add_sub_cancel, hmod]
  by_cases hfull : f.packetDataLen - n * f.shardPayloadSize = f.shardPayloadSize
  · rw [hfull, Nat.mod_self, if_pos rfl]
    omega
  · rw [Nat.mod_eq_of_lt (by omega), if_neg (by omega)]
    omega

theorem dataSlots_eq {blk : BlockAsm} {P : ℕ → Bytes} {Rb : Finset ℕ}
    (htracks : Tracks P Rb blk) (hcomplete : blk.dataComplete = true) :
    blk.dataSlots = some ((List.range blk.dataShards).map P) := by
  have hslots : ∀ k ∈ List.finRange blk.dataShards,
      blk.slots (Fin.castAdd blk.paritySlots k) = some (P k.val) := by
    intro k _
    obtain ⟨s, hs⟩ := Option.isSome_iff_exists.mp (dataComplete_iff.mp hcomplete k)
    rw [hs, htracks.stored.slot_eq _ s hs]
    rfl
  have hrange : (List.finRange blk.dataShards).map (fun k => P k.val) =
      (List.range blk.dataShards).map P := by
    rw [← List.map_coe_finRange_eq_range, List.map_map]
    rfl
  rw [BlockAsm.dataSlots, mapM_eq_some_map hslots, hrange]

theorem firstSlot_eq {blk : BlockAsm} {P : ℕ → Bytes} {Rb : Finset ℕ}
    (htracks : Tracks P Rb blk) (hcomplete : blk.dataComplete = true) :
    blk.firstSlot = some (P 0) := by
  obtain ⟨s, hs⟩ := Option.isSome_iff_exists.mp
    (dataComplete_iff.mp hcomplete ⟨0, blk.data_pos⟩)
  have heq := htracks.stored.slot_eq _ s hs
  rw [heq] at hs
  exact hs

/-- The blocks of a covered frame. -/
theorem FrameTracks.blocks_eq (h : FrameTracks f payloads R fr) (hcovered : Covered f R) :
    ∃ blks : ℕ → BlockAsm, ∀ b, b < f.nrBlocks → fr.block b = some (blks b) ∧
      (blks b).dataShards = f.blockDataShards b ∧ (blks b).firstSlot = some (payloads b 0) ∧
      (blks b).dataSlots = some ((List.range (f.blockDataShards b)).map (payloads b)) := by
  have hblock : ∀ b, ∃ blk : BlockAsm, b < f.nrBlocks → fr.block b = some blk ∧
      blk.dataShards = f.blockDataShards b ∧ blk.firstSlot = some (payloads b 0) ∧
      blk.dataSlots = some ((List.range (f.blockDataShards b)).map (payloads b)) := by
    intro b
    by_cases hb : b < f.nrBlocks
    · cases hblk : fr.block b with
      | none =>
        have hpos := blockDataShards_pos f hb
        have hcard := hcovered b hb
        rw [h.block_none b hb hblk, Finset.card_empty] at hcard
        omega
      | some blk =>
        obtain ⟨hdata, -, htracks⟩ := h.block_some b blk hb hblk
        have hcomplete := htracks.dataComplete_iff_card.mpr (hdata ▸ hcovered b hb)
        have hslots := dataSlots_eq htracks hcomplete
        exact ⟨blk, fun _ => ⟨rfl, hdata, firstSlot_eq htracks hcomplete, by rw [hslots, hdata]⟩⟩
    · exact ⟨BlockAsm.new 1 0 Nat.one_pos (by decide), fun hlt => absurd hlt hb⟩
  choose blks hblks using hblock
  exact ⟨blks, hblks⟩

/-- Clipping the data payloads of a frame leaves its encoded bytes. -/
theorem clip_payloads (f : Frame) (hsize : 0 < f.shardPayloadSize) :
    clip videoFrameHeaderSize f.packetDataLen 0 ((List.range f.totalDataShards).map (payload f)) =
      f.encodedData := by
  have hjoin : ((List.range f.totalDataShards).map (payload f)).flatten =
      padded (f.totalDataShards * f.shardPayloadSize) 0 (stream f) := by
    have hpieces := flatMap_padded_piece f.shardPayloadSize f.totalDataShards 0 (stream f)
    have hlen := (packetDataLen_bounds f hsize).2
    rw [← length_stream] at hlen
    rw [List.take_of_length_le hlen] at hpieces
    rw [← hpieces, List.flatMap_def]
    rfl
  rw [clip_eq, hjoin, Nat.sub_zero, Nat.sub_zero, padded,
    List.take_left' (length_stream f), stream]
  exact List.drop_left' rfl

/-- A frame with the sender's data in its blocks assembles to what it was made of. -/
theorem assemble_of_blocks {blks : ℕ → BlockAsm} (hcount : fr.blockCount = f.nrBlocks)
    (hlen : fr.shardPayloadLen = f.shardPayloadSize)
    (hblks : ∀ b, b < f.nrBlocks → fr.block b = some (blks b) ∧
      (blks b).dataShards = f.blockDataShards b ∧ (blks b).firstSlot = some (payloads b 0) ∧
      (blks b).dataSlots = some ((List.range (f.blockDataShards b)).map (payloads b)))
    (hencoded : f.encodedData ≠ []) (hmin : 24 ≤ f.requestedPacketSize)
    (hmax : f.requestedPacketSize < 2 ^ 32)
    (hpayload : ∀ b k, b < f.nrBlocks → k < f.blockDataShards b →
      payloads b k = payload f (f.blockStart b + k)) :
    fr.assemble = some (accessUnit f) := by
  have hroom : videoFrameHeaderSize ≤ f.shardPayloadSize := by
    unfold videoFrameHeaderSize Frame.shardPayloadSize nvVideoPacketSize
    omega
  have hsize : 0 < f.shardPayloadSize := lt_of_lt_of_le (Nat.succ_pos 7) hroom
  obtain ⟨hlogical, hlast, hlast'⟩ := packetDataLen_eq f hsize
  have hblocks : (List.range fr.blockCount).mapM fr.block =
      some ((List.range f.nrBlocks).map blks) := by
    rw [hcount]
    exact mapM_eq_some_map fun b hb => (hblks b (List.mem_range.mp hb)).1
  have hdata : ((List.range f.nrBlocks).map blks).map BlockAsm.dataShards =
      (List.range f.nrBlocks).map f.blockDataShards := by
    rw [List.map_map]
    exact List.map_congr_left fun b hb => (hblks b (List.mem_range.mp hb)).2.1
  have htotal : ((List.range f.nrBlocks).map f.blockDataShards).sum = f.totalDataShards := by
    have hlen := congrArg List.length (flatMap_blocks f)
    simpa [List.length_flatMap] using hlen
  have hslots : ((List.range f.nrBlocks).map blks).mapM BlockAsm.dataSlots =
      some ((List.range f.nrBlocks).map fun b =>
        (List.range (f.blockDataShards b)).map fun k => payload f (f.blockStart b + k)) := by
    rw [List.mapM_map]
    apply mapM_eq_some_map
    intro b hb
    have hlt := List.mem_range.mp hb
    rw [Function.comp_apply, (hblks b hlt).2.2.2, Option.some.injEq]
    exact List.map_congr_left fun k hk => hpayload b k hlt (List.mem_range.mp hk)
  have hpieces : fr.pieces = some ((List.range f.totalDataShards).map (payload f)) := by
    unfold FrameAsm.pieces
    rw [hblocks, Option.bind_eq_bind, Option.bind_some, hslots, Option.bind_eq_bind,
      Option.bind_some, ← flatMap_blocks f, List.map_flatMap, List.flatMap_def]
    simp only [List.map_map]
    rfl
  have hfirst : (blks 0).firstSlot = some (payload f 0) := by
    have hpos := nrBlocks_pos f
    have h0 := hpayload 0 0 hpos (blockDataShards_pos f hpos)
    rw [Frame.blockStart, Nat.zero_mul] at h0
    rw [(hblks 0 hpos).2.2.1, h0]
  have hread : VideoFrameHeader.read (payload f 0) = some f.header := by
    have hpiece : payload f 0 = f.header.bytes ++
        (f.encodedData.take (f.shardPayloadSize - f.header.bytes.length) ++
          List.replicate (f.shardPayloadSize - (piece f.shardPayloadSize (stream f) 0).length) 0) := by
      unfold payload padded
      rw [← List.append_assoc]
      congr 1
      unfold piece stream
      rw [Nat.zero_mul, List.drop_zero, List.take_append,
        List.take_of_length_le (show f.header.bytes.length ≤ f.shardPayloadSize from hroom)]
    rw [hpiece]
    exact VideoFrameHeader.read_bytes_append _ _
  have hlastLen : f.header.lastPayloadLen.toNat = f.lastShardSize := by
    have hsmall : f.lastShardSize < 2 ^ 32 := by
      unfold Frame.shardPayloadSize at hlast'
      omega
    exact UInt32.toNat_ofNat_of_lt' hsmall
  have hlong : ¬ f.packetDataLen ≤ videoFrameHeaderSize := by
    have hpos := List.length_pos_iff.mpr hencoded
    unfold Frame.packetDataLen
    omega
  unfold FrameAsm.assemble
  simp only [hlen, if_neg (not_lt.mpr hroom), hblocks, Option.bind_eq_bind,
    Option.bind_some, hdata, htotal, if_neg (totalDataShards_pos f).ne',
    (hblks 0 (nrBlocks_pos f)).1, hfirst, hread, hlastLen]
  rw [if_neg (by omega), hlogical, if_neg hlong, hpieces, Option.bind_some, clip_payloads f hsize]
  rfl

/-- A covered frame assembles to what it was made of. -/
theorem FrameTracks.assemble_eq (h : FrameTracks f payloads R fr) (hcovered : Covered f R)
    (hencoded : f.encodedData ≠ []) (hmin : 24 ≤ f.requestedPacketSize)
    (hmax : f.requestedPacketSize < 2 ^ 32)
    (hpayload : ∀ b k, b < f.nrBlocks → k < f.blockDataShards b →
      payloads b k = payload f (f.blockStart b + k)) :
    fr.assemble = some (accessUnit f) := by
  obtain ⟨blks, hblks⟩ := h.blocks_eq hcovered
  exact assemble_of_blocks h.blockCount_eq h.payloadLen_eq hblks hencoded hmin hmax hpayload

end Assemble

end KmControl.FrameTracking
