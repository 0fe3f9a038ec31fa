import KmControl.ReceiverLoop
import KmControl.Renumbering

/-!
Whatever the network does with the datagrams of a stream, the frames that come out are frames
that went in. A block may have received any of its shards; what its slots hold, received or
recovered, is what the sender has computed for them.
-/
namespace KmControl.StreamIntegrity

open BlockTracking Chunks FrameDelivery FrameTracking GsProto MoonVideo MoonVideoSteps Packetizer
  PacketizerShards StreamDelivery

section Blocks

variable {rs : FecRs} {payloads : ℕ → Bytes} {blk : BlockAsm} {len : ℕ}

/-- The slots hold nothing but the sender's payloads. -/
def Holds (payloads : ℕ → Bytes) (blk : BlockAsm) : Prop :=
  ∀ i s, blk.slots i = some s → s = payloads i

theorem Holds.record (h : Holds payloads blk) (i : Fin (blk.dataShards + blk.paritySlots))
    (seq : UInt16) : Holds payloads (blk.record i seq (payloads i)) := by
  intro (k : Fin (blk.dataShards + blk.paritySlots)) s hs
  change Function.update blk.slots i (some (payloads i)) k = some s at hs
  by_cases hk : k = i
  · rw [hk, Function.update_self, Option.some.injEq] at hs
    rw [hk, ← hs]
  · rw [Function.update_of_ne hk] at hs
    exact h k s hs

/-- The filled slots as if each had been received. -/
theorem Holds.stored (h : Holds payloads blk) :
    Stored payloads ((FecRs.present blk.slots).map Fin.valEmbedding) blk.slots
      fun i => (blk.slots i).isSome where
  bounded := by
    intro k hk
    obtain ⟨i, -, rfl⟩ := Finset.mem_map.mp hk
    exact i.isLt
  received_iff := by
    intro i
    rw [← Fin.valEmbedding_apply, Finset.mem_map', FecRs.present, Finset.mem_filter]
    exact (and_iff_right (Finset.mem_univ i)).symm
  slot_eq := h
  slot_some := by
    intro i hi
    rw [← Fin.valEmbedding_apply, Finset.mem_map', FecRs.present, Finset.mem_filter] at hi
    exact hi.2

/-- Recovery adds only what the sender has computed, whatever the slots are that it had. -/
theorem Holds.tryRecover
    (hcode : CodeBlock rs payloads len blk.dataShards blk.paritySlots) (h : Holds payloads blk) :
    Holds payloads (blk.tryRecover rs).2 := by
  unfold BlockAsm.tryRecover
  split
  · exact h
  split
  · exact h
  · rename_i hparity
    split
    · exact h
    · rename_i hcard
      split
      · obtain ⟨out, hout, hstored, -⟩ :=
          h.stored.reconstruct hcode (Nat.pos_of_ne_zero hparity) (not_lt.mp hcard)
        rw [hout]
        exact hstored.slot_eq
      · exact h

end Blocks

section Frames

variable {rs : FecRs} {f : Frame} {payloads : ℕ → ℕ → Bytes} {fr : FrameAsm}

/-- A frame in assembly that holds nothing but payloads of `f`. -/
structure FrameHolds (f : Frame) (payloads : ℕ → ℕ → Bytes) (fr : FrameAsm) : Prop where
  blockCount_eq : fr.blockCount = f.nrBlocks
  payloadLen_eq : fr.shardPayloadLen = f.shardPayloadSize
  block_some : ∀ b blk, b < f.nrBlocks → fr.block b = some blk →
    blk.dataShards = f.blockDataShards b ∧ blk.paritySlots = f.blockParity b ∧
      Holds (payloads b) blk

theorem frameHolds_new (now : Instant) : FrameHolds f payloads
    (FrameAsm.new f.frameNumber f.nrBlocks f.shardPayloadSize now) where
  blockCount_eq := rfl
  payloadLen_eq := rfl
  block_some := by
    intro b blk _ hblk
    unfold FrameAsm.block at hblk
    split at hblk <;> cases hblk

theorem FrameHolds.setBlock (h : FrameHolds f payloads fr) (b : Fin maxFecBlocks) (blk : BlockAsm)
    (hdata : blk.dataShards = f.blockDataShards b) (hparity : blk.paritySlots = f.blockParity b)
    (hblk : Holds (payloads b) blk) : FrameHolds f payloads (fr.setBlock b blk) where
  blockCount_eq := h.blockCount_eq
  payloadLen_eq := h.payloadLen_eq
  block_some := by
    intro k blk' hk hsome
    rw [block_setBlock] at hsome
    split at hsome
    · rename_i heq
      cases hsome
      exact heq ▸ ⟨hdata, hparity, hblk⟩
    · exact h.block_some k blk' hk hsome

/-- Absorbing a shard of the frame. -/
theorem FrameHolds.absorb (h : FrameHolds f payloads fr) {b i : ℕ} (hb : b < f.nrBlocks)
    (hi : i < f.blockTotal b) (hcode : CodeBlock rs (payloads b) f.shardPayloadSize
      (f.blockDataShards b) (f.blockParity b)) {sh : Shard}
    (hsh : SentShard f b i (payloads b i) sh) : FrameHolds f payloads (fr.absorb rs sh).1 := by
  have htarget : (target fr sh).dataShards = f.blockDataShards b ∧
      (target fr sh).paritySlots = f.blockParity b ∧ Holds (payloads b) (target fr sh) := by
    refine target_of hsh (T := fun blk => blk.dataShards = f.blockDataShards b ∧
      blk.paritySlots = f.blockParity b ∧ Holds (payloads b) blk) (fun _ => ?_)
        fun blk hsome => h.block_some b blk hb hsome
    obtain ⟨hdata, hparity⟩ := newBlock_dims hsh
    exact ⟨hdata, hparity, fun _ _ hs => by cases hs⟩
  obtain ⟨hdata, hparity, hholds⟩ := htarget
  generalize hblk : target fr sh = blk at hdata hparity hholds
  have hlen : fr.shardPayloadLen = sh.payload.length := by
    rw [h.payloadLen_eq, hsh.payload_eq, hcode.length_eq i hi]
  have hindex : i < blk.dataShards + blk.paritySlots := by
    rw [hdata, hparity]
    exact hi
  let slot : Fin (blk.dataShards + blk.paritySlots) := ⟨i, hindex⟩
  have habsorb := absorb_eq fr blk rs sh hlen (h.blockCount_eq.trans hsh.blockCount.symm) hblk
    (hdata.trans hsh.dataShards.symm) slot hsh.shardIndex.symm
  simp only [setBlock_setBlock, hsh.payload_eq] at habsorb
  have hset : ∀ blk' : BlockAsm, blk'.dataShards = blk.dataShards →
      blk'.paritySlots = blk.paritySlots → Holds (payloads b) blk' →
        FrameHolds f payloads (fr.setBlock sh.block blk') := by
    intro blk' hd hp hholds'
    have hbv : sh.block.val = b := hsh.blockIndex
    rw [← hbv] at hdata hparity hholds'
    exact h.setBlock sh.block blk' (hd.trans hdata) (hp.trans hparity) hholds'
  have hrecord := hholds.record slot sh.rtp.sequenceNumber
  rw [habsorb]
  split
  · exact hset blk rfl rfl hholds
  split
  · exact hset _ rfl rfl hrecord
  split
  · exact hset _ rfl rfl hrecord
  · obtain ⟨hd, hp⟩ := tryRecover_dims rs (blk.record slot sh.rtp.sequenceNumber (payloads b i))
    have hblock : CodeBlock rs (payloads b) f.shardPayloadSize blk.dataShards blk.paritySlots := by
      rwa [hdata, hparity]
    exact hset _ hd hp (Holds.tryRecover hblock hrecord)

/-- The data slots of a block, if none is missing. -/
theorem Holds.dataSlots {P : ℕ → Bytes} {blk : BlockAsm} (h : Holds P blk) {slots : List Bytes}
    (hslots : blk.dataSlots = some slots) :
    blk.dataSlots = some ((List.range blk.dataShards).map P) ∧ blk.firstSlot = some (P 0) := by
  have hslot : ∀ k : Fin blk.dataShards,
      blk.slots (Fin.castAdd blk.paritySlots k) = some (P k.val) := by
    intro k
    obtain ⟨s, -, hs⟩ := mem_of_mapM_eq_some hslots (List.mem_finRange k)
    rw [hs, h _ s hs]
    rfl
  have hrange : (List.finRange blk.dataShards).map (fun k => P k.val) =
      (List.range blk.dataShards).map P := by
    rw [← List.map_coe_finRange_eq_range, List.map_map]
    rfl
  refine ⟨?_, hslot ⟨0, blk.data_pos⟩⟩
  rw [BlockAsm.dataSlots, mapM_eq_some_map fun k _ => hslot k, hrange]

/-- If such a frame can be assembled at all, then to what it was made of. -/
theorem FrameHolds.assemble_eq (h : FrameHolds f payloads fr) (hf : Deliverable rs f payloads)
    {au : AuFrame} (hau : fr.assemble = some au) : au = accessUnit f := by
  have hpieces : ∃ pieces, fr.pieces = some pieces := by
    unfold FrameAsm.assemble at hau
    simp only [Option.bind_eq_bind] at hau
    split at hau
    · cases hau
    obtain ⟨blocks, -, hau⟩ := Option.bind_eq_some_iff.mp hau
    split at hau
    · cases hau
    obtain ⟨first, -, hau⟩ := Option.bind_eq_some_iff.mp hau
    obtain ⟨slot, -, hau⟩ := Option.bind_eq_some_iff.mp hau
    obtain ⟨hdr, -, hau⟩ := Option.bind_eq_some_iff.mp hau
    split at hau
    · cases hau
    split at hau
    · cases hau
    obtain ⟨pieces, hpieces, -⟩ := Option.bind_eq_some_iff.mp hau
    exact ⟨pieces, hpieces⟩
  obtain ⟨pieces, hpieces⟩ := hpieces
  obtain ⟨blocks, hblocks, hpieces⟩ := Option.bind_eq_some_iff.mp hpieces
  obtain ⟨slots, hslots, -⟩ := Option.bind_eq_some_iff.mp hpieces
  have hblk : ∀ b, ∃ blk : BlockAsm, b < f.nrBlocks → fr.block b = some blk ∧
      blk.dataShards = f.blockDataShards b ∧ blk.firstSlot = some (payloads b 0) ∧
      blk.dataSlots = some ((List.range (f.blockDataShards b)).map (payloads b)) := by
    intro b
    by_cases hb : b < f.nrBlocks
    · obtain ⟨blk, hmem, hsome⟩ := mem_of_mapM_eq_some hblocks
        (List.mem_range.mpr (h.blockCount_eq ▸ hb))
      obtain ⟨list, -, hlist⟩ := mem_of_mapM_eq_some hslots hmem
      obtain ⟨hdata, -, hholds⟩ := h.block_some b blk hb hsome
      obtain ⟨hdatas, hfirst⟩ := hholds.dataSlots hlist
      exact ⟨blk, fun _ => ⟨hsome, hdata, hfirst, hdata ▸ hdatas⟩⟩
    · exact ⟨BlockAsm.new 1 0 Nat.one_pos (by decide), fun hlt => absurd hlt hb⟩
  choose blks hblks using hblk
  rw [assemble_of_blocks h.blockCount_eq h.payloadLen_eq hblks hf.encoded hf.min_size hf.max_size
    hf.data, Option.some.injEq] at hau
  exact hau.symm

end Frames

section Streams

variable {rs : FecRs}

/-- The datagrams that the packetizer has made of a frame, by block and index. -/
structure CutInto (x : Packetized rs) (shards : ℕ → ℕ → Bytes) : Prop where
  list_eq : x.shards = inOrder x.frame shards x.frame.nrBlocks
  blocks : ∃ c, ∀ b, b < x.frame.nrBlocks →
    BlockShards rs x.frame b (countersAt x.frame c b) (shards b)

theorem exists_cutInto (hrs : rs.Lawful) (x : Packetized rs)
    (hsize : nvVideoPacketSize < x.frame.requestedPacketSize) : ∃ shards, CutInto x shards := by
  obtain ⟨c, c', hpacketized⟩ := x.packetized
  obtain ⟨shards, heq, hblocks⟩ := packetizeFrame_eq x.frame hrs c hsize
  rw [hpacketized, Option.some.injEq, Prod.mk.injEq] at heq
  exact ⟨shards, heq.1, c, hblocks⟩

/-- A shard of one of the frames, with its payload. -/
def FromStream (stream : List (Packetized rs)) (shards : Packetized rs → ℕ → ℕ → Bytes)
    (sh : Shard) : Prop :=
  ∃ x ∈ stream, ∃ b i, b < x.frame.nrBlocks ∧ i < x.frame.blockTotal b ∧
    SentShard x.frame b i (payloadsOf (shards x) b i) sh

/-- A frame in assembly that is one of the frames, as far as it has arrived. -/
def OfStream (stream : List (Packetized rs)) (shards : Packetized rs → ℕ → ℕ → Bytes)
    (k : UInt32) (fr : FrameAsm) : Prop :=
  ∃ x ∈ stream, x.frame.frameNumber = k ∧ FrameHolds x.frame (payloadsOf (shards x)) fr

variable {stream : List (Packetized rs)} {shards : Packetized rs → ℕ → ℕ → Bytes}

theorem CutInto.deliverable {x : Packetized rs} {cut : ℕ → ℕ → Bytes} (h : CutInto x cut)
    (hx : Sendable x.frame) : Deliverable rs x.frame (payloadsOf cut) := by
  obtain ⟨c, hblocks⟩ := h.blocks
  exact FrameDelivery.deliverable hx.encoded hx.min_size hx.max_size hblocks

/-- A datagram of a frame parses to a shard of it. -/
theorem CutInto.fromStream (hok : ∀ x ∈ stream, Sendable x.frame)
    (hcut : ∀ x ∈ stream, CutInto x (shards x)) {x : Packetized rs} (hx : x ∈ stream)
    {datagram : Bytes} (hmem : datagram ∈ x.shards) {sh : Shard}
    (hparse : parseShard datagram = some sh) : FromStream stream shards sh := by
  have hsendable := hok x hx
  have hsize : 0 < x.frame.shardPayloadSize :=
    Nat.sub_pos_of_lt (lt_of_lt_of_le (by decide) hsendable.min_size)
  obtain ⟨c, hblocks⟩ := (hcut x hx).blocks
  rw [(hcut x hx).list_eq] at hmem
  obtain ⟨b, hb, i, hi, rfl⟩ := (mem_inOrder x.frame).mp hmem
  obtain ⟨sh', hparse', hsh⟩ := parseShard_eq hsendable.fits hsize hb hi ((hblocks b hb).header i hi)
  rw [hparse, Option.some.injEq] at hparse'
  exact ⟨x, hx, b, i, hb, hi, hparse' ▸ hsh⟩

/-- Creation, absorbing and delivery keep a frame one of the frames, as no two of these have
the same number. -/
theorem stream_rule (hok : ∀ x ∈ stream, Sendable x.frame)
    (hcut : ∀ x ∈ stream, CutInto x (shards x))
    (hdistinct : (stream.map fun x => x.frame.frameNumber).Nodup) :
    FrameRule rs (OfStream stream shards) (FromStream stream shards) where
  new := by
    rintro sh now ⟨x, hx, b, i, hb, hi, hsh⟩
    refine ⟨x, hx, hsh.frameIndex.symm, ?_⟩
    have hlen := (((hcut x hx).deliverable (hok x hx)).code b hb).length_eq i hi
    unfold freshFrame
    rw [hsh.frameIndex, hsh.blockCount, hsh.payload_eq, hlen]
    exact frameHolds_new now
  absorb := by
    rintro sh fr ⟨x, hx, b, i, hb, hi, hsh⟩ ⟨y, hy, hnumber, hholds⟩
    obtain rfl : y = x :=
      List.inj_on_of_nodup_map hdistinct hy hx (hnumber.trans hsh.frameIndex)
    have hcode := ((hcut y hy).deliverable (hok y hy)).code b hb
    exact ⟨y, hy, hnumber, hholds.absorb hb hi hcode hsh⟩
  deliver := by
    rintro k fr ⟨x, hx, hnumber, hholds⟩
    exact ⟨x, hx, hnumber, hholds.blockCount_eq, hholds.payloadLen_eq, hholds.block_some⟩

/-- No frame is sent out twice. -/
theorem nodup_sentIndices (rs : FecRs) (ops : List Op) :
    (sentIndices ((machine rs).run ops).events).Nodup := by
  refine List.nodup_iff_count_le_one.mpr fun k => ?_
  refine le_trans ?_ (FrameOutcomes.outcomeCount_le_one rs ops k)
  unfold sentIndices sentFrames DeliveryOrder.outcomeCount
  rw [List.count, List.countP_map, List.countP_filterMap]
  refine List.countP_mono_left fun ev _ hev => ?_
  cases ev with
  | frame i au => exact decide_eq_true (eq_of_beq hev)
  | lost i => cases hev
  | fec status => cases hev

/-- Of a stream whose numbers do not repeat, whatever arrives of its datagrams, in any order
and any number of times, only whole frames of it come out, and none of them twice. -/
theorem delivered_intact (hrs : rs.Lawful) (hok : ∀ x ∈ stream, Sendable x.frame)
    (hdistinct : (stream.map fun x => x.frame.frameNumber).Nodup) {ops : List Op}
    (hops : ∀ datagram now, Op.push datagram now ∈ ops → ∃ x ∈ stream, datagram ∈ x.shards) :
    ∃ xs : List (Packetized rs), (xs.map fun x => x.frame.frameNumber).Nodup ∧
      (∀ x ∈ xs, x ∈ stream) ∧ sentFrames ((machine rs).run ops).events =
        xs.map fun x => (x.frame.frameNumber, accessUnit x.frame) := by
  have hcuts : ∀ x : Packetized rs, ∃ cut, x ∈ stream → CutInto x cut := by
    intro x
    by_cases hx : x ∈ stream
    · obtain ⟨cut, hcut⟩ := exists_cutInto hrs x (lt_of_lt_of_le (by decide) (hok x hx).min_size)
      exact ⟨cut, fun _ => hcut⟩
    · exact ⟨fun _ _ => [], fun h => absurd h hx⟩
  choose shards hcut using hcuts
  have hevents := (run_frames (stream_rule hok hcut hdistinct) ops
    fun datagram now hmem sh hparse => by
      obtain ⟨x, hx, hshard⟩ := hops datagram now hmem
      exact CutInto.fromStream hok hcut hx hshard hparse).2
  have hnodup := nodup_sentIndices rs ops
  have hframe : ∀ p ∈ sentFrames ((machine rs).run ops).events,
      ∃ x ∈ stream, (x.frame.frameNumber, accessUnit x.frame) = p := by
    rintro ⟨k, au⟩ hp
    obtain ⟨ev, hev, heq⟩ := List.mem_filterMap.mp hp
    cases ev with
    | frame i au' =>
      cases heq
      obtain ⟨fr, ⟨x, hx, hnumber, hholds⟩, hassemble⟩ := hevents k au hev
      rw [hholds.assemble_eq ((hcut x hx).deliverable (hok x hx)) hassemble, ← hnumber]
      exact ⟨x, hx, rfl⟩
    | lost i => cases heq
    | fec status => cases heq
  obtain ⟨xs, hmem, hxs⟩ := exists_map_eq hframe
  refine ⟨xs, ?_, hmem, hxs.symm⟩
  unfold sentIndices at hnodup
  rw [← hxs, List.map_map] at hnodup
  exact hnodup

end Streams

end KmControl.StreamIntegrity
