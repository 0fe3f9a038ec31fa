import KmControl.CheckedBlocks
import KmControl.FrameTracking

/-!
The checked reassembler on the lists of a typed frame does what the typed one
does, as long as the frame has no more blocks than the array has places.
-/
namespace KmControl.CheckedFrames

open ByteFields CheckedBlocks CheckedVideo Chunks FrameTracking GsProto MoonVideo MoonVideoSteps

/-- The lists of a typed frame. -/
def rawFrame (f : FrameAsm) : CheckedVideo.Frame where
  frameIndex := f.frameIndex
  firstSeen := f.firstSeen
  blockCount := f.blockCount
  blocks := List.ofFn fun b => (f.blocks b).map rawBlock
  shardPayloadLen := f.shardPayloadLen
  delivered := f.delivered

section Reads

variable (f : FrameAsm)

theorem block_raw {b : ℕ} (hb : b < maxFecBlocks) :
    (rawFrame f).blocks[b]? = some ((f.block b).map rawBlock) := by
  have hblock : f.block b = f.blocks ⟨b, hb⟩ := dif_pos hb
  rw [hblock]
  exact getElem?_ofFn_lt (fun b => (f.blocks b).map rawBlock) hb

theorem completeFrom_raw (n b : ℕ) (h : b + n ≤ maxFecBlocks) :
    (rawFrame f).completeFrom n b =
      some ((List.range' b n).all fun b => (f.block b).any BlockAsm.dataComplete) := by
  induction n generalizing b with
  | zero => rfl
  | succ n ih =>
    rw [CheckedVideo.Frame.completeFrom, block_raw f (by omega), List.range'_succ, List.all_cons]
    cases hblk : f.block b with
    | none => rfl
    | some blk =>
      simp only [Option.bind_eq_bind, Option.bind_some, Option.map_some, dataComplete_raw,
        ih (b + 1) (by omega), Option.any_some]
      cases blk.dataComplete <;> rfl

theorem complete_raw (h : f.blockCount ≤ maxFecBlocks) :
    (rawFrame f).complete = some f.complete := by
  have hall := completeFrom_raw f f.blockCount 0 (by omega)
  rwa [← List.range_eq_range'] at hall

theorem totalDataFrom_raw (n b : ℕ) (h : b + n ≤ maxFecBlocks) :
    (rawFrame f).totalDataFrom n b = some (((List.range' b n).mapM f.block).map
      fun blocks => (blocks.map BlockAsm.dataShards).sum) := by
  induction n generalizing b with
  | zero => rfl
  | succ n ih =>
    rw [CheckedVideo.Frame.totalDataFrom, block_raw f (by omega), List.range'_succ, List.mapM_cons]
    cases hblk : f.block b with
    | none => rfl
    | some blk =>
      simp only [Option.bind_eq_bind, Option.bind_some, Option.map_some, ih (b + 1) (by omega)]
      cases (List.range' (b + 1) n).mapM f.block with
      | none => rfl
      | some blocks => rfl

theorem clip_append (lo hi off : ℕ) (ps qs : List Bytes) : clip lo hi off (ps ++ qs) =
    clip lo hi off ps ++ clip lo hi (off + (ps.map List.length).sum) qs := by
  induction ps generalizing off with
  | nil => rfl
  | cons p rest ih =>
    rw [List.cons_append, clip, clip, ih, List.map_cons, List.sum_cons, Nat.add_assoc,
      List.append_assoc]

/-- Copying the slots one by one; a missing one ends it without a result. -/
theorem copySlots_eq (logical : ℕ) (slots : List (Option Bytes)) (off : ℕ) (data : Bytes) :
    CheckedVideo.Frame.copySlots logical slots off data = some ((slots.mapM id).map fun ps =>
      (data ++ clip videoFrameHeaderSize logical off ps, off + (ps.map List.length).sum)) := by
  induction slots generalizing off data with
  | nil =>
    rw [CheckedVideo.Frame.copySlots]
    simp [clip]
  | cons slot rest ih =>
    cases slot with
    | none => rfl
    | some p =>
      have hparts : ∀ part, part = (if max off videoFrameHeaderSize < min (off + p.length) logical
          then (p.take (min (off + p.length) logical - off)).drop
            (max off videoFrameHeaderSize - off) else []) →
          CheckedVideo.Frame.copySlots logical rest (off + p.length) (data ++ part) =
            some (((some p :: rest).mapM id).map fun ps =>
              (data ++ clip videoFrameHeaderSize logical off ps,
                off + (ps.map List.length).sum)) := by
        rintro part rfl
        rw [ih, List.mapM_cons]
        cases rest.mapM id with
        | none => rfl
        | some ps =>
          simp only [id, Option.bind_eq_bind, Option.bind_some, Option.map_some, Option.pure_def,
            clip, List.map_cons, List.sum_cons, List.append_assoc, Nat.add_assoc]
      rw [CheckedVideo.Frame.copySlots]
      by_cases hcut : max off videoFrameHeaderSize < min (off + p.length) logical
      · have hlo : checkedSub (max off videoFrameHeaderSize) off =
            some (max off videoFrameHeaderSize - off) := checkedSub_eq (Nat.le_max_left _ _)
        have hhi : checkedSub (min (off + p.length) logical) off =
            some (min (off + p.length) logical - off) := checkedSub_eq (by omega)
        rw [if_pos hcut, hlo, hhi]
        simp only [Option.bind_eq_bind, Option.bind_some]
        rw [slice_eq_some (by omega) (by omega), Option.bind_some]
        exact hparts _ (if_pos hcut).symm
      · rw [if_neg hcut]
        have hnone := hparts [] (if_neg hcut).symm
        rwa [List.append_nil] at hnone

theorem dataSlots_raw (blk : BlockAsm) :
    (List.ofFn fun k => blk.slots (Fin.castAdd blk.paritySlots k)).mapM id = blk.dataSlots := by
  rw [List.ofFn_eq_map, List.mapM_map]
  rfl

theorem copyBlocks_raw (logical n b off : ℕ) (data : Bytes) (h : b + n ≤ maxFecBlocks) :
    (rawFrame f).copyBlocks logical n b off data =
      some ((((List.range' b n).mapM f.block).bind fun blocks =>
        blocks.mapM BlockAsm.dataSlots).map fun slots =>
          data ++ clip videoFrameHeaderSize logical off slots.flatten) := by
  induction n generalizing b off data with
  | zero =>
    rw [CheckedVideo.Frame.copyBlocks]
    simp [clip]
  | succ n ih =>
    rw [CheckedVideo.Frame.copyBlocks, block_raw f (by omega), List.range'_succ, List.mapM_cons]
    cases hblk : f.block b with
    | none => rfl
    | some blk =>
      simp only [Option.bind_eq_bind, Option.bind_some, Option.map_some, headOf_slots,
        copySlots_eq, dataSlots_raw]
      cases hslots : blk.dataSlots with
      | none =>
        cases (List.range' (b + 1) n).mapM f.block with
        | none => rfl
        | some blocks => simp [List.mapM_cons, hslots]
      | some ps =>
        simp only [Option.map_some, ih (b + 1) _ _ (by omega)]
        cases (List.range' (b + 1) n).mapM f.block with
        | none => rfl
        | some blocks =>
          cases hrest : blocks.mapM BlockAsm.dataSlots with
          | none => simp [List.mapM_cons, hslots, hrest]
          | some rest => simp [List.mapM_cons, hslots, hrest, clip_append]

theorem firstSlot_raw (blk : BlockAsm) : (rawBlock blk).slots[0]? = some blk.firstSlot :=
  getElem?_ofFn_lt blk.slots (Nat.add_pos_left blk.data_pos _)

theorem assemble_raw (h : f.blockCount ≤ maxFecBlocks) :
    (rawFrame f).assemble = some f.assemble := by
  have htotal := totalDataFrom_raw f f.blockCount 0 (by omega)
  have hcopy := fun logical data => copyBlocks_raw f logical f.blockCount 0 0 data (by omega)
  rw [← List.range_eq_range'] at htotal
  simp only [← List.range_eq_range'] at hcopy
  have hfields : (rawFrame f).blockCount = f.blockCount ∧
      (rawFrame f).shardPayloadLen = f.shardPayloadLen := ⟨rfl, rfl⟩
  unfold CheckedVideo.Frame.assemble FrameAsm.assemble FrameAsm.pieces
  simp only [hfields.1, hfields.2, htotal, hcopy, Option.bind_eq_bind, Option.bind_some]
  by_cases hshort : f.shardPayloadLen < videoFrameHeaderSize
  · rw [if_pos hshort, if_pos hshort]
  rw [if_neg hshort, if_neg hshort]
  cases hblocks : (List.range f.blockCount).mapM f.block with
  | none => rfl
  | some blocks =>
    simp only [Option.map_some, Option.bind_some]
    by_cases hzero : (blocks.map BlockAsm.dataShards).sum = 0
    · rw [if_pos hzero, if_pos hzero]
    rw [if_neg hzero, if_neg hzero, block_raw f (by decide)]
    cases hfirst : f.block 0 with
    | none => rfl
    | some first =>
      simp only [Option.map_some, Option.bind_some, firstSlot_raw]
      cases hslot : first.firstSlot with
      | none => rfl
      | some slot =>
        simp only [Option.bind_some, readFrameHeader_eq]
        cases hhdr : VideoFrameHeader.read slot with
        | none => rfl
        | some hdr =>
          simp only [Option.bind_some]
          by_cases hlast : hdr.lastPayloadLen.toNat = 0 ∨
              f.shardPayloadLen < hdr.lastPayloadLen.toNat
          · rw [if_pos hlast, if_pos hlast]
          rw [if_neg hlast, if_neg hlast, checkedSub_eq (Nat.one_le_iff_ne_zero.mpr hzero)]
          simp only [Option.bind_some]
          split
          · rfl
          · cases blocks.mapM BlockAsm.dataSlots with
            | none => rfl
            | some slots => rfl

end Reads

section Reports

variable (f : FrameAsm)

theorem templateFrom_raw (n b : ℕ) (h : b + n ≤ maxFecBlocks) :
    State.templateFrom (rawFrame f) n b =
      some (((List.range' b n).findSome? f.block).map rawBlock) := by
  induction n generalizing b with
  | zero => rfl
  | succ n ih =>
    rw [State.templateFrom, block_raw f (by omega), List.range'_succ, List.findSome?_cons]
    cases f.block b with
    | none => exact ih (b + 1) (by omega)
    | some blk => rfl

/-- What a typed frame reports of one block. -/
def reportOf (lost : Bool) (template : Option BlockAsm) (b : ℕ) : List VideoEvent :=
  match f.block b with
  | some blk =>
    if blk.receivedData.toNat < blk.dataShards then
      [VideoEvent.fec (blk.fecStatus f.frameIndex b f.blockCount)]
    else []
  | none =>
    if lost then
      match template with
      | some t =>
        let st := t.fecStatus f.frameIndex b f.blockCount
        [VideoEvent.fec { st with
          receivedDataShards := 0, receivedParityShards := 0, highestReceivedSeq := 0,
          nextContiguousSeq := 0,
          missingBeforeHighest := st.totalDataShards + st.totalParityShards }]
      | none => []
    else []

theorem totals_add (t : BlockAsm) (k : UInt32) (b n : ℕ) :
    checkedAdd (t.fecStatus k b n).totalDataShards (t.fecStatus k b n).totalParityShards =
      some ((t.fecStatus k b n).totalDataShards + (t.fecStatus k b n).totalParityShards) := by
  have htotal := t.total_le
  unfold maxShards at htotal
  apply checkedAdd_eq
  change (UInt16.ofNat t.dataShards).toNat + (UInt16.ofNat t.paritySlots).toNat < 2 ^ 16
  rw [UInt16.toNat_ofNat', UInt16.toNat_ofNat']
  omega

theorem reportFrom_raw (lost : Bool) (template : Option BlockAsm) (n b : ℕ)
    (h : b + n ≤ maxFecBlocks) :
    State.reportFrom (rawFrame f) lost (template.map rawBlock) n b =
      some ((List.range' b n).flatMap (reportOf f lost template)) := by
  induction n generalizing b with
  | zero => rfl
  | succ n ih =>
    rw [State.reportFrom, block_raw f (by omega), List.range'_succ, List.flatMap_cons,
      ih (b + 1) (by omega)]
    generalize (List.range' (b + 1) n).flatMap (reportOf f lost template) = rest
    unfold reportOf
    cases f.block b with
    | none =>
      cases lost with
      | false => rfl
      | true =>
        cases template with
        | none => rfl
        | some t =>
          have hstatus := fecStatus_raw t f.frameIndex b f.blockCount
          have hsum := totals_add t f.frameIndex b f.blockCount
          simp only [Option.bind_eq_bind, Option.bind_some, Option.map_none, Option.map_some]
          refine (congrArg (Option.bind · _) hstatus).trans ?_
          exact congrArg (Option.bind · _) hsum
    | some blk =>
      have hstatus := fecStatus_raw blk f.frameIndex b f.blockCount
      simp only [Option.bind_eq_bind, Option.bind_some, Option.map_some]
      by_cases hshort : blk.receivedData.toNat < blk.dataShards
      · rw [if_pos hshort]
        exact (if_pos hshort).trans (congrArg (Option.bind · _) hstatus)
      · rw [if_neg hshort]
        exact if_neg hshort

theorem reportFec_raw (lost : Bool) (h : f.blockCount ≤ maxFecBlocks) :
    State.reportFec (rawFrame f) lost = some (Depacketizer.reportFec f lost) := by
  have htemplate := templateFrom_raw f f.blockCount 0 (by omega)
  have hreport := reportFrom_raw f lost ((List.range f.blockCount).findSome? f.block)
    f.blockCount 0 (by omega)
  rw [← List.range_eq_range'] at htemplate hreport
  exact (congrArg (Option.bind · _) htemplate).trans hreport

end Reports

end KmControl.CheckedFrames
