import KmControl.DeliveryOrder
import KmControl.LossStats
import KmControl.ShardReadings

/-!
The counters of one frame while the shards that the packetizer made of it
arrive, and the reports that they lead to when the frame is closed.
-/
namespace KmControl.FrameCounting

open FrameTracking GsProto LossStats MoonVideo MoonVideoSteps Packetizer PacketizerShards
  ShardReadings

/-- The wire sequence number of the first shard of a block. -/
def seqBase (f : Frame) (c : Counters) (block : ℕ) : UInt16 :=
  (countersAt f c block).sequenceNumber.toUInt16

theorem toUInt16_add_ofNat (w : UInt32) (i : ℕ) :
    (w + UInt32.ofNat i).toUInt16 = w.toUInt16 + UInt16.ofNat i := by
  apply UInt16.toNat_inj.mp
  rw [UInt32.toNat_toUInt16, UInt32.toNat_add, UInt32.toNat_ofNat', UInt16.toNat_add,
    UInt32.toNat_toUInt16, UInt16.toNat_ofNat']
  omega

theorem reads_of_parseShard {datagram : Bytes} {sh : Shard}
    (h : parseShard datagram = some sh) : RtpHeader.read datagram = some sh.rtp ∧
      NvVideoPacket.readFromShard datagram = some sh.nv := by
  unfold parseShard at h
  split at h
  · split at h
    · cases h
    · split at h
      · rename_i rtp nv hrtp hnv
        split at h
        · cases h
          exact ⟨hrtp, hnv⟩
        · cases h
      · cases h
  · cases h

/-- A shard of the frame in its place, with the number that the place has. -/
structure OwnShard (f : Frame) (c : Counters) (block i : ℕ) (sh : Shard) : Prop where
  block_lt : block < f.nrBlocks
  index_lt : i < f.blockTotal block
  sent : SentShard f block i sh.payload sh
  length_eq : sh.payload.length = f.shardPayloadSize
  seq_eq : sh.rtp.sequenceNumber = seqBase f c block + UInt16.ofNat i

section Parse

variable {rs : FecRs} {f : Frame} {c : Counters} {shards : ℕ → ℕ → Bytes}

/-- Every datagram of the frame parses to its own shard, and its header names the
place of it. -/
theorem ownShard (hfit : Fits f) (hsize : 0 < f.shardPayloadSize)
    (hspec : ∀ block, block < f.nrBlocks →
      BlockShards rs f block (countersAt f c block) (shards block)) {datagram : Bytes}
    (hmem : datagram ∈ inOrder f shards f.nrBlocks) : ∃ block i sh,
      parseShard datagram = some sh ∧ OwnShard f c block i sh ∧
        place datagram = some (block, i) := by
  obtain ⟨block, hblock, i, hi, rfl⟩ := (mem_inOrder f).mp hmem
  have hhead := (hspec block hblock).header i hi
  obtain ⟨sh, hparse, hsent⟩ := parseShard_eq hfit hsize hblock hi hhead
  obtain ⟨hrtp, hnv⟩ := reads_of_parseShard hparse
  refine ⟨block, i, sh, hparse, ⟨hblock, hi, hsent.payload_eq ▸ hsent, ?_, ?_⟩, ?_⟩
  · rw [hsent.payload_eq, List.length_drop, hhead.length_eq, Frame.shardSize,
      Nat.add_sub_cancel_left]
  · obtain ⟨rtp, hread, hseq⟩ := hhead.rtp
    rw [hrtp, Option.some.injEq] at hread
    rw [hread, hseq, toUInt16_add_ofNat]
    rfl
  · rw [place, hnv, Option.map_some, hsent.blockIndex, hsent.shardIndex]

end Parse

/-- A frame whose blocks have counted the shards in `R`. -/
structure FrameCounted (f : Frame) (c : Counters) (R : ℕ → Finset ℕ) (fr : FrameAsm) : Prop where
  blockCount_eq : fr.blockCount = f.nrBlocks
  payloadLen_eq : fr.shardPayloadLen = f.shardPayloadSize
  block_none : ∀ b, b < f.nrBlocks → fr.block b = none → R b = ∅
  block_some : ∀ b blk, b < f.nrBlocks → fr.block b = some blk →
    blk.dataShards = f.blockDataShards b ∧ blk.paritySlots = f.blockParity b ∧
      Counted (seqBase f c b) (R b) blk

section Absorb

variable {f : Frame} {c : Counters} {R : ℕ → Finset ℕ} {fr : FrameAsm} {b i : ℕ} {sh : Shard}

theorem block_new (k : UInt32) (n len : ℕ) (now : Instant) (b : ℕ) :
    (FrameAsm.new k n len now).block b = none := by
  unfold FrameAsm.block
  split <;> rfl

/-- The frame that one of its shards opens has counted nothing. -/
theorem frameCounted_fresh (hsh : OwnShard f c b i sh) (now : Instant) :
    FrameCounted f c (fun _ => ∅) (freshFrame sh now) where
  blockCount_eq := hsh.sent.blockCount
  payloadLen_eq := hsh.length_eq
  block_none := fun _ _ _ => rfl
  block_some := by
    intro k blk _ hblk
    rw [freshFrame, block_new] at hblk
    cases hblk

theorem FrameCounted.delivered (h : FrameCounted f c R fr) (d : Bool) :
    FrameCounted f c R { fr with delivered := d } :=
  ⟨h.blockCount_eq, h.payloadLen_eq, h.block_none, h.block_some⟩

theorem FrameCounted.setBlock (h : FrameCounted f c R fr) (b : Fin maxFecBlocks)
    {blk : BlockAsm} {Rb : Finset ℕ} (hdata : blk.dataShards = f.blockDataShards b)
    (hparity : blk.paritySlots = f.blockParity b) (hcounted : Counted (seqBase f c b) Rb blk) :
    FrameCounted f c (Function.update R b.val Rb) (fr.setBlock b blk) where
  blockCount_eq := h.blockCount_eq
  payloadLen_eq := h.payloadLen_eq
  block_none := setBlock_none h.block_none Rb
  block_some := setBlock_some (T := fun b Rb blk => blk.dataShards = f.blockDataShards b ∧
    blk.paritySlots = f.blockParity b ∧ Counted (seqBase f c b) Rb blk) h.block_some
      ⟨hdata, hparity, hcounted⟩

/-- The block that a shard of the frame goes to. -/
private theorem counted_target (h : FrameCounted f c R fr) (hsh : OwnShard f c b i sh) :
    (target fr sh).dataShards = f.blockDataShards b ∧
      (target fr sh).paritySlots = f.blockParity b ∧
      Counted (seqBase f c b) (R b) (target fr sh) := by
  refine target_of hsh.sent (T := fun blk => blk.dataShards = f.blockDataShards b ∧
    blk.paritySlots = f.blockParity b ∧ Counted (seqBase f c b) (R b) blk) (fun hnone => ?_)
      (fun blk hsome => h.block_some b blk hsh.block_lt hsome)
  obtain ⟨hdata, hparity⟩ := newBlock_dims hsh.sent
  refine ⟨hdata, hparity, ?_⟩
  rw [h.block_none b hsh.block_lt hnone]
  exact counted_new _ _ _ sh.data_pos sh.data_le

/-- Absorbing a shard of the frame adds its index to the set of its block. -/
theorem FrameCounted.absorb (rs : FecRs) (h : FrameCounted f c R fr)
    (hsh : OwnShard f c b i sh) : FrameCounted f c (receive R b i) (fr.absorb rs sh).1 := by
  obtain ⟨hdata, hparity, hcounted⟩ := counted_target h hsh
  have hindex : i < (target fr sh).dataShards + (target fr sh).paritySlots := by
    rw [hdata, hparity]
    exact hsh.index_lt
  let slot : Fin ((target fr sh).dataShards + (target fr sh).paritySlots) := ⟨i, hindex⟩
  have habsorb := absorb_eq fr (target fr sh) rs sh (h.payloadLen_eq.trans hsh.length_eq.symm)
    (h.blockCount_eq.trans hsh.sent.blockCount.symm) rfl
    (hdata.trans hsh.sent.dataShards.symm) slot hsh.sent.shardIndex.symm
  have hbv : sh.block.val = b := hsh.sent.blockIndex
  have hset : ∀ {Rb : Finset ℕ} {fr' : FrameAsm} {R' : ℕ → Finset ℕ} {blk' : BlockAsm},
      FrameCounted f c R' fr' → blk'.dataShards = (target fr sh).dataShards →
      blk'.paritySlots = (target fr sh).paritySlots → Counted (seqBase f c b) Rb blk' →
      FrameCounted f c (Function.update R' b Rb) (fr'.setBlock sh.block blk') := by
    intro Rb fr' R' blk' hfr' hd hp hc
    rw [← hbv] at hc hdata hparity ⊢
    exact hfr'.setBlock sh.block (hd.trans hdata) (hp.trans hparity) hc
  have hopened : FrameCounted f c R (fr.setBlock sh.block (target fr sh)) := by
    have hfirst := hset h rfl rfl hcounted
    rwa [Function.update_eq_self] at hfirst
  rw [habsorb]
  by_cases hreceived : (target fr sh).received slot = true
  · -- A duplicate changes nothing.
    have hmem : i ∈ R b := (hcounted.received_iff slot).mp hreceived
    rw [if_pos hreceived, receive_of_mem hmem]
    exact hopened
  have hnew : i ∉ R b := fun hmem => hreceived ((hcounted.received_iff slot).mpr hmem)
  have hrecord := hcounted.record slot hnew sh.payload
  rw [if_neg hreceived, hsh.seq_eq]
  dsimp only
  split
  · exact hset hopened rfl rfl hrecord
  split
  · exact hset hopened rfl rfl hrecord
  · obtain ⟨hd, hp⟩ := tryRecover_dims rs ((target fr sh).record slot
      (seqBase f c b + UInt16.ofNat i) sh.payload)
    exact hset hopened hd hp (hrecord.tryRecover rs)

end Absorb

section Reports

variable {k : UInt32} {b : ℕ}

/-- The reports about a block of frame `k`, in the order of the events. -/
def reportsOf (k : UInt32) (b : ℕ) (evs : List VideoEvent) : List FrameFecStatus :=
  evs.filterMap fun
    | .fec st => if st.frameIndex = k ∧ st.blockIndex.toNat = b then some st else none
    | _ => none

theorem reportsOf_append (evs more : List VideoEvent) :
    reportsOf k b (evs ++ more) = reportsOf k b evs ++ reportsOf k b more :=
  List.filterMap_append

theorem reportsOf_flatMap (n : ℕ) (g : ℕ → List VideoEvent) :
    reportsOf k b ((List.range n).flatMap g) =
      (List.range n).flatMap fun b' => reportsOf k b (g b') :=
  List.filterMap_flatMap

theorem reportsOf_fec (st : FrameFecStatus) : reportsOf k b [VideoEvent.fec st] =
    if st.frameIndex = k ∧ st.blockIndex.toNat = b then [st] else [] := by
  unfold reportsOf
  split <;> simp [*]

/-- A list made of one part only. -/
theorem flatMap_single {α : Type*} {n : ℕ} {part : ℕ → List α} (hb : b < n)
    (h : ∀ b', b' < n → b' ≠ b → part b' = []) : (List.range n).flatMap part = part b := by
  have hbefore : (List.range b).flatMap part = [] := by
    rw [List.flatMap_eq_nil_iff]
    intro b' hb'
    have hlt := List.mem_range.mp hb'
    exact h b' (hlt.trans hb) hlt.ne
  have hafter : ((List.range (n - (b + 1))).map (b + 1 + ·)).flatMap part = [] := by
    rw [List.flatMap_eq_nil_iff]
    intro b' hb'
    obtain ⟨j, hj, rfl⟩ := List.mem_map.mp hb'
    have hlt := List.mem_range.mp hj
    exact h _ (by omega) (by omega)
  obtain ⟨m, rfl⟩ : ∃ m, n = b + 1 + m := ⟨n - (b + 1), by omega⟩
  rw [Nat.add_sub_cancel_left] at hafter
  rw [List.range_add, List.flatMap_append, hafter, List.range_succ, List.flatMap_append, hbefore,
    List.flatMap_singleton, List.nil_append, List.append_nil]

/-- Closing a frame reports on a block of which something has arrived exactly when
its data is short; on the others it says nothing under the block's index. -/
theorem reportsOf_closing {fr : FrameAsm} {blk : BlockAsm} (hkey : fr.frameIndex = k)
    (hcount : fr.blockCount ≤ maxFecBlocks) (hb : b < fr.blockCount)
    (hblk : fr.block b = some blk) : reportsOf k b (closingEvents fr) =
      if blk.receivedData.toNat < blk.dataShards then [blk.fecStatus k b fr.blockCount]
      else [] := by
  have hindex : ∀ b', b' < fr.blockCount → (UInt8.ofNat b').toNat = b' := by
    intro b' hb'
    unfold maxFecBlocks at hcount
    rw [UInt8.toNat_ofNat', Nat.mod_eq_of_lt (by omega)]
  have hlost : reportsOf k b (if fr.delivered then [] else [VideoEvent.lost fr.frameIndex]) = [] := by
    split <;> rfl
  rw [closingEvents, reportsOf_append, hlost, List.append_nil, Depacketizer.reportFec,
    reportsOf_flatMap, flatMap_single hb]
  · simp only [hblk]
    split
    · rw [reportsOf_fec, hkey]
      exact if_pos ⟨rfl, hindex b hb⟩
    · rfl
  · intro b' hb' hne
    have hother : ¬ (fr.frameIndex = k ∧ (UInt8.ofNat b').toNat = b) := by
      rintro ⟨-, heq⟩
      rw [hindex b' hb'] at heq
      exact hne heq
    split
    · split
      · rw [reportsOf_fec]
        exact if_neg hother
      · rfl
    · split
      · split
        · rw [reportsOf_fec]
          exact if_neg hother
        · rfl
      · rfl

/-- Closing another frame reports nothing of frame `k`. -/
theorem reportsOf_other {fr : FrameAsm} (hne : fr.frameIndex ≠ k) :
    reportsOf k b (closingEvents fr) = [] := by
  refine List.filterMap_eq_nil_iff.mpr fun ev hev => ?_
  have hindex := DeliveryOrder.eventIndex_of_closing hev
  cases ev with
  | frame j au => rfl
  | lost j => rfl
  | fec st => exact if_neg fun h => hne (hindex.symm.trans h.1)

end Reports

end KmControl.FrameCounting
