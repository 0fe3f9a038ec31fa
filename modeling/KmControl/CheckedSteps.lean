import KmControl.CheckedFrames

/-!
The checked reassembler absorbs a shard as the typed one does. The frames of
the typed one carry the facts that this needs: blocks below the block count,
whose counters count their flags and whose slots hold payloads of one length.
-/
namespace KmControl.CheckedSteps

open ByteFields CheckedBlocks CheckedFrames CheckedVideo GsProto MoonVideo MoonVideoSteps

/-- A frame with no block beyond its block count and no count beyond the array. -/
structure FrameOk (f : FrameAsm) : Prop where
  count_le : f.blockCount ≤ maxFecBlocks
  blocks : ∀ b blk, f.blocks b = some blk → b.val < f.blockCount ∧ BlockOk f.shardPayloadLen blk

section Absorb

variable (f : FrameAsm) (sh : Shard) (rs : FecRs)

theorem setAt_raw (b : Fin maxFecBlocks) (blk : BlockAsm) :
    setAt (rawFrame f).blocks b.val (some (rawBlock blk)) =
      some (rawFrame (f.setBlock b blk)).blocks := by
  have hsame : Function.update (fun c => (f.blocks c).map rawBlock) b (some (rawBlock blk)) =
      fun c => ((f.setBlock b blk).blocks c).map rawBlock := by
    funext c
    by_cases hc : c = b
    · rw [hc, Function.update_self]
      exact (congrArg (Option.map rawBlock) (Function.update_self b (some blk) f.blocks)).symm
    · rw [Function.update_of_ne hc]
      exact (congrArg (Option.map rawBlock) (Function.update_of_ne hc (some blk) f.blocks)).symm
  refine (setAt_ofFn (fun c => (f.blocks c).map rawBlock) b (some (rawBlock blk))).trans ?_
  rw [hsame]
  rfl

/-- The block that a shard finds or opens. -/
theorem target_raw :
    ((f.blocks sh.block).map rawBlock).getD
      (Block.new sh.nv.dataShards sh.nv.parityShards sh.nv.fecPercentage) =
      rawBlock (target f sh) := by
  unfold target
  cases f.blocks sh.block with
  | some blk => rfl
  | none => exact rawBlock_new _ _ sh.data_pos sh.data_le

/-- What becomes of a frame whose shard has found its block. -/
def absorbInto (blk : BlockAsm) : FrameAsm × Bool :=
  if blk.dataShards ≠ sh.nv.dataShards then (f, false)
  else if h : sh.nv.shardIndex < blk.dataShards + blk.paritySlots then
    let i : Fin (blk.dataShards + blk.paritySlots) := ⟨sh.nv.shardIndex, h⟩
    if blk.received i then (f, false)
    else
      let blk := blk.record i sh.rtp.sequenceNumber sh.payload
      if f.delivered then (f.setBlock sh.block blk, false)
      else if blk.dataComplete then (f.setBlock sh.block blk, true)
      else (f.setBlock sh.block (blk.tryRecover rs).2, true)
  else (f, false)

theorem absorb_of_agree (h : ¬(f.shardPayloadLen ≠ sh.payload.length ∨ f.blockCount ≠ sh.nv.blockCount)) :
    f.absorb rs sh = absorbInto (f.setBlock sh.block (target f sh)) sh rs (target f sh) := by
  unfold FrameAsm.absorb
  rw [if_neg h]
  rfl

section Kept

variable {f sh rs}

theorem frameOk_new (now : Instant) : FrameOk (freshFrame sh now) where
  count_le := sh.nv.blockCount_le
  blocks := nofun

theorem FrameOk.target (h : FrameOk f) : BlockOk f.shardPayloadLen (target f sh) := by
  unfold MoonVideoSteps.target
  cases hblk : f.blocks sh.block with
  | some blk => exact (h.blocks sh.block blk hblk).2
  | none => exact blockOk_new _ _ _ sh.data_pos sh.data_le

theorem FrameOk.setBlock (h : FrameOk f) {b : Fin maxFecBlocks} (hb : b.val < f.blockCount)
    {blk : BlockAsm} (hblk : BlockOk f.shardPayloadLen blk) : FrameOk (f.setBlock b blk) where
  count_le := h.count_le
  blocks := by
    intro c other hother
    change Function.update f.blocks b (some blk) c = some other at hother
    by_cases hc : c = b
    · rw [hc, Function.update_self, Option.some.injEq] at hother
      exact ⟨hc ▸ hb, hother ▸ hblk⟩
    · rw [Function.update_of_ne hc] at hother
      exact h.blocks c other hother

theorem FrameOk.absorbInto (hrs : rs.KeepsLengths) (h : FrameOk f)
    (hb : sh.nv.blockIndex < f.blockCount) (hpayload : sh.payload.length = f.shardPayloadLen)
    {blk : BlockAsm} (hblk : BlockOk f.shardPayloadLen blk) :
    FrameOk (absorbInto f sh rs blk).1 := by
  have hput : ∀ new, BlockOk f.shardPayloadLen new → FrameOk (f.setBlock sh.block new) :=
    fun new hnew => h.setBlock hb hnew
  unfold CheckedSteps.absorbInto
  split
  · exact h
  split
  · rename_i hi
    dsimp only
    split
    · exact h
    rename_i hnew
    have hrecord := hblk.record ⟨sh.nv.shardIndex, hi⟩ (eq_false_of_ne_true hnew)
      sh.rtp.sequenceNumber hpayload
    split
    · exact hput _ hrecord
    split
    · exact hput _ hrecord
    · exact hput _ (hrecord.tryRecover hrs)
  · exact h

theorem FrameOk.absorb (hrs : rs.KeepsLengths) (h : FrameOk f) :
    FrameOk (f.absorb rs sh).1 := by
  by_cases hodd : f.shardPayloadLen ≠ sh.payload.length ∨ f.blockCount ≠ sh.nv.blockCount
  · unfold FrameAsm.absorb
    rw [if_pos hodd]
    exact h
  · obtain ⟨hlen, hcount⟩ := not_or.mp hodd
    have hb : sh.nv.blockIndex < f.blockCount := by
      rw [not_not.mp hcount]
      exact sh.block_lt
    rw [absorb_of_agree f sh rs hodd]
    exact FrameOk.absorbInto hrs (h.setBlock hb h.target) hb (not_not.mp hlen).symm h.target

/-- The frames of a run are kept in order, whatever arrives. -/
theorem frameRule (hrs : rs.KeepsLengths) :
    FrameRule rs (fun _ f => FrameOk f) fun _ => True where
  new := fun _ now _ => frameOk_new now
  absorb := fun _ _ _ h => h.absorb hrs
  deliver := fun _ _ h => ⟨h.count_le, h.blocks⟩

end Kept

def rawResult (r : FrameAsm × Bool) : Frame × Bool := (rawFrame r.1, r.2)

variable {f sh}

theorem absorbInto_raw {blk : BlockAsm} {datagram : Bytes}
    (hslice : slice datagram payloadOffset datagram.length = some sh.payload)
    (hdata : blk.receivedData.toNat ≤ maxShards) (hparity : blk.receivedParity.toNat ≤ maxShards) :
    State.absorbInto rs (rawFrame f) sh.rtp sh.nv datagram (rawBlock blk) =
      some (rawResult (absorbInto f sh rs blk)) := by
  have hset := setAt_raw f sh.block
  unfold State.absorbInto absorbInto
  by_cases hdims : blk.dataShards ≠ sh.nv.dataShards
  · rw [if_pos hdims]
    exact if_pos (Or.inl hdims)
  rw [if_neg hdims]
  by_cases hi : sh.nv.shardIndex < blk.dataShards + blk.paritySlots
  · have hother : ¬((rawBlock blk).dataShards ≠ sh.nv.dataShards ∨
        (rawBlock blk).slots.length ≤ sh.nv.shardIndex) := by
      rw [length_slots]
      exact fun h => h.elim hdims (not_le.mpr hi)
    have hflag : (rawBlock blk).received[sh.nv.shardIndex]? =
        some (blk.received ⟨sh.nv.shardIndex, hi⟩) := getElem?_ofFn_lt blk.received hi
    have hrecord := record_raw blk ⟨sh.nv.shardIndex, hi⟩ sh.rtp.sequenceNumber sh.payload hdata
      hparity
    rw [dif_pos hi, if_neg hother, hflag]
    simp only [Option.bind_eq_bind, Option.bind_some]
    by_cases hdup : blk.received ⟨sh.nv.shardIndex, hi⟩ = true
    · rw [if_pos hdup, if_pos hdup]
      rfl
    rw [if_neg hdup, if_neg hdup, hslice, Option.bind_some]
    refine (congrArg (Option.bind · _) hrecord).trans ?_
    generalize blk.record ⟨sh.nv.shardIndex, hi⟩ sh.rtp.sequenceNumber sh.payload = new
    rw [Option.bind_some]
    by_cases hdelivered : f.delivered = true
    · rw [if_pos hdelivered]
      refine (if_pos hdelivered).trans ?_
      exact congrArg (Option.bind · _) (hset new)
    rw [if_neg hdelivered]
    refine (if_neg hdelivered).trans ?_
    rw [dataComplete_raw, Option.bind_some]
    by_cases hcomplete : new.dataComplete = true
    · rw [if_pos hcomplete, if_pos hcomplete]
      exact congrArg (Option.bind · _) (hset new)
    · rw [if_neg hcomplete, if_neg hcomplete, tryRecover_raw]
      exact congrArg (Option.bind · _) (hset (new.tryRecover rs).2)
  · have hother : (rawBlock blk).slots.length ≤ sh.nv.shardIndex := by
      rw [length_slots]
      exact not_lt.mp hi
    rw [dif_neg hi]
    exact if_pos (Or.inr hother)

theorem absorb_raw {datagram : Bytes} (hlen : payloadOffset ≤ datagram.length)
    (hpayload : sh.payload = datagram.drop payloadOffset)
    (hok : FrameOk f) : State.absorb rs (rawFrame f) sh.rtp sh.nv datagram sh.payload.length =
      some (rawResult (f.absorb rs sh)) := by
  have hblock : (rawFrame f).blocks[sh.nv.blockIndex]? =
      some ((f.blocks sh.block).map rawBlock) :=
    getElem?_ofFn_lt (fun b => (f.blocks b).map rawBlock) sh.nv.blockIndex_lt
  have hslice : slice datagram payloadOffset datagram.length = some sh.payload := by
    rw [slice_eq_some hlen le_rfl, List.take_length, hpayload]
  by_cases hodd : f.shardPayloadLen ≠ sh.payload.length ∨ f.blockCount ≠ sh.nv.blockCount
  · unfold State.absorb FrameAsm.absorb
    rw [if_pos hodd]
    exact if_pos hodd
  · unfold State.absorb
    rw [absorb_of_agree f sh rs hodd]
    refine (if_neg hodd).trans ?_
    rw [hblock]
    simp only [Option.bind_eq_bind, Option.bind_some, target_raw]
    refine (congrArg (Option.bind · _) (setAt_raw f sh.block (target f sh))).trans ?_
    have htarget : BlockOk f.shardPayloadLen (target f sh) := hok.target
    exact absorbInto_raw (f := f.setBlock sh.block (target f sh)) rs hslice htarget.data_le
      htarget.parity_le
end Absorb

end KmControl.CheckedSteps
