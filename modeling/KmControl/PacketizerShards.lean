import KmControl.Packetizer

/-!
What `packetizeFrame` produces. Every block is a sequence of shards indexed
from zero, data first; the header of a shard names its frame, block and index,
and the payloads of a block that fits the code form a codeword in each byte
column. No step of the loops faults once a payload byte fits into a shard.
-/
namespace KmControl.PacketizerShards

open ByteFields Chunks GsProto Packetizer

section Stream

variable (f : Frame)

/-- The logical stream: the frame header, then the encoded bytes. -/
def stream : Bytes := f.header.bytes ++ f.encodedData

/-- The payload of the data shard with global index `k`. -/
def payload (k : ℕ) : Bytes := padded f.shardPayloadSize 0 (piece f.shardPayloadSize (stream f) k)

@[simp] theorem length_stream : (stream f).length = f.packetDataLen := by
  simp [stream, Frame.packetDataLen, videoFrameHeaderSize]

@[simp] theorem length_payload (k : ℕ) : (payload f k).length = f.shardPayloadSize :=
  length_padded 0 (length_piece_le _ _ _)

end Stream

/-- Copying from the header and then from the data is copying from the stream. -/
theorem copyHeaderAndData_eq (dst header enc : Bytes) (offset len : ℕ)
    (hheader : header.length = videoFrameHeaderSize)
    (hend : offset + len ≤ videoFrameHeaderSize + enc.length) (hlen : len ≤ dst.length) :
    copyHeaderAndData dst header enc offset len =
      some (splice dst 0 (((header ++ enc).drop offset).take len)) := by
  have hstop : min (offset + len) (videoFrameHeaderSize + enc.length) = offset + len := by omega
  unfold copyHeaderAndData
  simp only [hstop]
  by_cases hoffset : offset < videoFrameHeaderSize
  · rw [if_pos hoffset]
    by_cases hlast : videoFrameHeaderSize < offset + len
    · have hmin : min videoFrameHeaderSize (offset + len) = videoFrameHeaderSize := by omega
      have hcount : len - (header.drop offset).length = offset + len - videoFrameHeaderSize := by
        rw [List.length_drop, hheader]
        omega
      have hparts : ((header ++ enc).drop offset).take len =
          header.drop offset ++ enc.take (offset + len - videoFrameHeaderSize) := by
        rw [List.drop_append, List.take_append, hcount, hheader,
          Nat.sub_eq_zero_of_le hoffset.le, List.drop_zero,
          List.take_of_length_le (by rw [List.length_drop, hheader]; omega)]
      have hfirst : (header.take videoFrameHeaderSize).drop offset = header.drop offset := by
        rw [List.take_of_length_le hheader.le]
      have hn : videoFrameHeaderSize - offset = (header.drop offset).length := by
        rw [List.length_drop, hheader]
      have henc : (enc.take (offset + len - videoFrameHeaderSize)).length =
          offset + len - videoFrameHeaderSize := by
        rw [List.length_take]
        omega
      have hroom : 0 + (header.drop offset).length ≤ dst.length := by omega
      rw [hmin, slice_eq_some hoffset.le hheader.ge, hfirst]
      simp only [Option.bind_eq_bind, Option.bind_some, copyFromSlice_eq_some hroom, if_pos hlast]
      rw [slice_eq_some (Nat.zero_le _) (by omega)]
      simp only [Option.bind_some, List.drop_zero]
      rw [copyFromSlice_eq_some (by rw [length_splice hroom, henc]; omega), hparts, hn,
        ← Nat.zero_add (header.drop offset).length, splice_splice (by omega)]
    · have hmin : min videoFrameHeaderSize (offset + len) = offset + len := by omega
      have hparts : ((header ++ enc).drop offset).take len =
          (header.take (offset + len)).drop offset := by
        rw [List.drop_append_of_le_length (by omega), List.drop_take, Nat.add_sub_cancel_left,
          List.take_append_of_le_length (by rw [List.length_drop]; omega)]
      have hroom : 0 + ((header.take (offset + len)).drop offset).length ≤ dst.length := by
        simp only [List.length_drop, List.length_take]
        omega
      rw [hmin, slice_eq_some (by omega) (by omega)]
      simp only [Option.bind_eq_bind, Option.bind_some, copyFromSlice_eq_some hroom, if_neg hlast]
      rw [hparts]
  · have hparts : ((header ++ enc).drop offset).take len =
        (enc.take (offset + len - videoFrameHeaderSize)).drop (offset - videoFrameHeaderSize) := by
      have hcount : offset + len - videoFrameHeaderSize - (offset - videoFrameHeaderSize) = len := by
        omega
      rw [List.drop_append, List.drop_eq_nil_of_le (by omega), List.nil_append, hheader,
        List.drop_take, hcount]
    have hroom : 0 + ((enc.take (offset + len - videoFrameHeaderSize)).drop
        (offset - videoFrameHeaderSize)).length ≤ dst.length := by
      simp only [List.length_drop, List.length_take]
      omega
    rw [if_neg hoffset, slice_eq_some (by omega) (by omega)]
    simp only [Option.bind_eq_bind, Option.bind_some, copyFromSlice_eq_some hroom]
    rw [hparts]

section DataShards

variable (f : Frame) (block : ℕ) (seq : UInt32)

def dataNv (spi : UInt32) (i : ℕ) : NvVideoPacket where
  streamPacketIndex := spi
  frameIndex := f.frameNumber
  flags := f.flags (f.blockStart block + i)
  multiFecBlocks := f.multiFecBlocks block
  fecInfo := f.fecInfo block i

def dataRtp (i : ℕ) : RtpHeader where
  sequenceNumber := (seq + UInt32.ofNat i).toUInt16
  timestamp := f.rtpTimestamp
  ssrc := 0

/-- The bytes of a data shard: both headers around the padding, then the payload. -/
def dataShardBytes (spi : UInt32) (i : ℕ) : Bytes :=
  (dataRtp f seq i).bytes ++ List.replicate paddingSize 0 ++ (dataNv f block spi i).bytes ++
    payload f (f.blockStart block + i)

/-- The two headers and the padding between them fill the space before the payload. -/
private theorem length_headers (rtp : RtpHeader) (nv : NvVideoPacket) :
    (rtp.bytes ++ List.replicate paddingSize (0 : UInt8) ++ nv.bytes).length = payloadOffset := by
  simp only [List.length_append, List.length_replicate, RtpHeader.length_bytes,
    NvVideoPacket.length_bytes]
  rfl

@[simp] theorem length_dataShardBytes (spi : UInt32) (i : ℕ) :
    (dataShardBytes f block seq spi i).length = f.shardSize := by
  rw [dataShardBytes, List.length_append, length_headers, length_payload, Frame.shardSize]

private theorem write_headers (rtp : RtpHeader) (nv : NvVideoPacket) (n : ℕ) :
    ∃ shard, rtp.write (List.replicate (payloadOffset + n) 0) = some shard ∧
      nv.write shard nvPacketOffset =
        some (rtp.bytes ++ List.replicate paddingSize 0 ++ nv.bytes ++ List.replicate n 0) := by
  have hsize : payloadOffset + n = rtpHeaderSize + (paddingSize + (nvVideoPacketSize + n)) := by
    simp only [payloadOffset, nvPacketOffset]
    omega
  have hrtp : rtp.bytes.length = rtpHeaderSize := rfl
  have hnv : nv.bytes.length = nvVideoPacketSize := rfl
  have hroom : 0 + rtp.bytes.length ≤ (List.replicate (payloadOffset + n) (0 : UInt8)).length := by
    rw [List.length_replicate, hrtp]
    omega
  have hzeros : splice (List.replicate (payloadOffset + n) 0) 0 rtp.bytes =
      (rtp.bytes ++ List.replicate paddingSize 0) ++ List.replicate (nvVideoPacketSize + n) 0 := by
    rw [splice, List.take_zero, List.nil_append, List.drop_replicate, hrtp, hsize, Nat.zero_add,
      Nat.add_sub_cancel_left, List.replicate_add, List.append_assoc]
  have hfront : (rtp.bytes ++ List.replicate paddingSize (0 : UInt8)).length = nvPacketOffset := by
    rw [List.length_append, List.length_replicate, hrtp]
    rfl
  have hroom' : nvPacketOffset + nv.bytes.length ≤
      ((rtp.bytes ++ List.replicate paddingSize (0 : UInt8)) ++
        List.replicate (nvVideoPacketSize + n) 0).length := by
    rw [List.length_append, hfront, hnv, List.length_replicate]
    omega
  refine ⟨_, copyFromSlice_eq_some hroom, ?_⟩
  rw [hzeros, NvVideoPacket.write, copyFromSlice_eq_some hroom', splice,
    List.take_append_of_le_length hfront.ge, List.take_of_length_le hfront.le, List.drop_append,
    List.drop_eq_nil_of_le (by rw [hfront]; omega), List.nil_append, hfront, List.drop_replicate,
    hnv, Nat.add_sub_cancel_left, Nat.add_sub_cancel_left]

/-- Copying into zeros at the start of a shard's payload pads the piece. -/
private theorem splice_zeros (index : ℕ) :
    splice (List.replicate f.shardPayloadSize 0) 0
      (((f.header.bytes ++ f.encodedData).drop (index * f.shardPayloadSize)).take
        (min f.shardPayloadSize (f.packetDataLen - index * f.shardPayloadSize))) =
      payload f index := by
  have hpiece : ((f.header.bytes ++ f.encodedData).drop (index * f.shardPayloadSize)).take
      (min f.shardPayloadSize (f.packetDataLen - index * f.shardPayloadSize)) =
      piece f.shardPayloadSize (stream f) index := by
    have hlen : (f.header.bytes ++ f.encodedData).length = f.packetDataLen := length_stream f
    unfold piece stream
    apply List.take_eq_take_iff.mpr
    rw [List.length_drop, hlen]
    omega
  rw [hpiece, payload, padded, splice, List.take_zero, List.nil_append, List.drop_replicate,
    Nat.zero_add]

/-- Writing a data shard of the frame never faults. -/
theorem dataShard_eq (spi : UInt32) (i : ℕ)
    (hindex : (f.blockStart block + i) * f.shardPayloadSize ≤ f.packetDataLen) :
    dataShard f block seq spi i = some (dataShardBytes f block seq spi i) := by
  obtain ⟨shard, hrtp, hnv⟩ :=
    write_headers (dataRtp f seq i) (dataNv f block spi i) f.shardPayloadSize
  have hfront := length_headers (dataRtp f seq i) (dataNv f block spi i)
  have hcopy := copyHeaderAndData_eq (List.replicate f.shardPayloadSize 0) f.header.bytes
    f.encodedData ((f.blockStart block + i) * f.shardPayloadSize)
    (min f.shardPayloadSize (f.packetDataLen - (f.blockStart block + i) * f.shardPayloadSize))
    rfl (by unfold Frame.packetDataLen at *; omega) (by simp)
  rw [splice_zeros] at hcopy
  unfold dataShard
  simp only [if_neg (Nat.not_lt.mpr hindex), Option.bind_eq_bind]
  change ((dataRtp f seq i).write (List.replicate (payloadOffset + f.shardPayloadSize) 0)).bind
    (fun shard => ((dataNv f block spi i).write shard nvPacketOffset).bind _) = _
  rw [hrtp, Option.bind_some, hnv, Option.bind_some, List.drop_left' hfront, hcopy,
    Option.bind_some, List.take_left' hfront]
  rfl

/-- The loop over the data shards of a block. -/
theorem dataShards_eq (n i : ℕ) (spi : UInt32)
    (hindex : ∀ k, k < n →
      (f.blockStart block + (i + k)) * f.shardPayloadSize ≤ f.packetDataLen) :
    dataShards f block seq n i spi =
      some ((List.range n).map (fun k =>
        dataShardBytes f block seq (spi + UInt32.ofNat k) (i + k)), spi + UInt32.ofNat n) := by
  induction n generalizing i spi with
  | zero => simp [dataShards]
  | succ n ih =>
    have hhead := dataShard_eq f block seq spi i (by simpa using hindex 0 (Nat.succ_pos n))
    have hrest := ih (i + 1) (spi + 1) (by
      intro k hk
      have h := hindex (k + 1) (Nat.succ_lt_succ hk)
      rwa [show i + (k + 1) = i + 1 + k by omega] at h)
    have hcast : ∀ k : ℕ, spi + 1 + UInt32.ofNat k = spi + UInt32.ofNat (k + 1) := by
      intro k
      rw [UInt32.ofNat_add, UInt32.add_assoc, UInt32.add_comm 1]
      rfl
    simp only [dataShards, hhead, hrest, Option.bind_eq_bind, Option.bind_some,
      List.range_succ_eq_map, List.map_cons, List.map_map, Option.some.injEq, Prod.mk.injEq,
      List.cons.injEq, hcast]
    refine ⟨⟨by simp, ?_⟩, trivial⟩
    apply List.map_congr_left
    intro k _
    simp only [Function.comp_apply, Nat.succ_eq_add_one]
    rw [show i + 1 + k = i + (k + 1) by omega]

end DataShards

section Parity

variable (f : Frame) (block : ℕ) (seq : UInt32)

/-- The header bytes of a parity shard that are overwritten. -/
def parityPatches (i : ℕ) : List (ℕ × Bytes) :=
  [(0, [rtpVersionFlags]), (1, [0]), (2, u16be (seq + UInt32.ofNat i).toUInt16),
    (nvPacketOffset + 4, u32le f.frameNumber), (nvPacketOffset + 11, [f.multiFecBlocks block]),
    (nvPacketOffset + 12, u32le (f.fecInfo block i))]

def patched (i : ℕ) (shard : Bytes) : Bytes := spliceAll shard (parityPatches f block seq i)

private theorem parityPatches_le (i : ℕ) :
    ∀ c ∈ parityPatches f block seq i, c.1 + c.2.length ≤ payloadOffset := by
  intro c hc
  simp only [parityPatches, List.mem_cons, List.not_mem_nil, or_false] at hc
  rcases hc with rfl | rfl | rfl | rfl | rfl | rfl <;>
    simp [payloadOffset, nvPacketOffset, rtpHeaderSize, paddingSize, nvVideoPacketSize]

theorem patchParity_eq (i : ℕ) {shard : Bytes} (h : payloadOffset ≤ shard.length) :
    patchParity f block seq i shard = some (patched f block seq i shard) := by
  have hcopies := foldlM_copyFromSlice
    (fun c hc => (parityPatches_le f block seq i c hc).trans h)
  rw [patched, ← hcopies]
  unfold patchParity parityPatches
  simp only [List.foldlM_cons, List.foldlM_nil, Option.bind_eq_bind, Option.pure_def,
    Option.bind_fun_some]

theorem patchParityFrom_eq (n i : ℕ) (shards : ℕ → Bytes)
    (h : ∀ k, k < n → payloadOffset ≤ (shards k).length) :
    patchParityFrom f block seq i ((List.range n).map shards) =
      some ((List.range n).map fun k => patched f block seq (i + k) (shards k)) := by
  induction n generalizing i shards with
  | zero => rfl
  | succ n ih =>
    have hhead := patchParity_eq f block seq i (h 0 (Nat.succ_pos n))
    have hrest := ih (i + 1) (fun k => shards (k + 1)) fun k hk => h (k + 1) (Nat.succ_lt_succ hk)
    have hshift : ∀ k, i + 1 + k = i + (k + 1) := fun k => by omega
    simp only [hshift] at hrest
    simp only [List.range_succ_eq_map, List.map_cons, List.map_map, Function.comp_def,
      Nat.succ_eq_add_one, Nat.add_zero]
    change (do
      let shard ← patchParity f block seq i (shards 0)
      let rest ← patchParityFrom f block seq (i + 1) ((List.range n).map fun k => shards (k + 1))
      some (shard :: rest)) = _
    rw [hhead, hrest]
    rfl

theorem length_patched (i : ℕ) {shard : Bytes} (h : payloadOffset ≤ shard.length) :
    (patched f block seq i shard).length = shard.length :=
  length_spliceAll fun c hc => (parityPatches_le f block seq i c hc).trans h

theorem drop_patched (i : ℕ) {shard : Bytes} (h : payloadOffset ≤ shard.length) :
    (patched f block seq i shard).drop payloadOffset = shard.drop payloadOffset :=
  drop_spliceAll (parityPatches_le f block seq i) h

/-- What the receiver reads from the header of shard `i` of a block. -/
structure HasHeader (i : ℕ) (shard : Bytes) : Prop where
  length_eq : shard.length = f.shardSize
  version : byteAt shard 0 = rtpVersionFlags
  rtp : ∃ h, RtpHeader.read shard = some h ∧
    h.sequenceNumber = (seq + UInt32.ofNat i).toUInt16
  nv : ∃ nv, NvVideoPacket.readFromShard shard = some nv ∧ nv.frameIndex = f.frameNumber ∧
    nv.multiFecBlocks = f.multiFecBlocks block ∧ nv.fecInfo = f.fecInfo block i

private theorem payloadOffset_le_shardSize : payloadOffset ≤ f.shardSize := Nat.le_add_right _ _

/-- The patched bytes are read back from a parity shard. -/
private theorem byteAt_patched (i : ℕ) {shard : Bytes} (h : payloadOffset ≤ shard.length)
    {c : ℕ × Bytes} (hc : c ∈ parityPatches f block seq i) {j : ℕ} (hj : j < c.2.length) :
    byteAt (patched f block seq i shard) (c.1 + j) = byteAt c.2 j := by
  have hpair : (parityPatches f block seq i).Pairwise (fun a b => a.1 + a.2.length ≤ b.1) := by
    simp [parityPatches, nvPacketOffset, rtpHeaderSize, paddingSize]
  exact byteAt_spliceAll hpair (fun c hc => (parityPatches_le f block seq i c hc).trans h) hc hj

theorem hasHeader_patched (i : ℕ) {shard : Bytes} (h : shard.length = f.shardSize) :
    HasHeader f block seq i (patched f block seq i shard) := by
  have hroom : payloadOffset ≤ shard.length := h ▸ payloadOffset_le_shardSize f
  have hlen := length_patched f block seq i hroom
  have hseq := fun j => byteAt_patched f block seq i hroom
    (c := (2, u16be (seq + UInt32.ofNat i).toUInt16)) (by simp [parityPatches]) (j := j)
  have hframe := fun j => byteAt_patched f block seq i hroom
    (c := (nvPacketOffset + 4, u32le f.frameNumber)) (by simp [parityPatches]) (j := j)
  have hblocks := byteAt_patched f block seq i hroom
    (c := (nvPacketOffset + 11, [f.multiFecBlocks block])) (by simp [parityPatches])
    (j := 0) (by simp)
  have hfec := fun j => byteAt_patched f block seq i hroom
    (c := (nvPacketOffset + 12, u32le (f.fecInfo block i))) (by simp [parityPatches]) (j := j)
  have hlong : nvPacketOffset + nvVideoPacketSize ≤ (patched f block seq i shard).length := by
    rw [hlen]
    exact hroom
  refine ⟨hlen.trans h, ?_, ?_, ?_⟩
  · exact byteAt_patched f block seq i hroom (c := (0, [rtpVersionFlags]))
      (by simp [parityPatches]) (j := 0) (by simp)
  · have hread : rtpHeaderSize ≤ (patched f block seq i shard).length := by
      simp only [nvPacketOffset] at hlong
      omega
    refine ⟨_, if_pos hread, ?_⟩
    change u16OfBe (byteAt _ (2 + 0)) (byteAt _ (2 + 1)) = _
    rw [hseq 0 (by simp), hseq 1 (by simp)]
    exact u16OfLe_u16le _
  · have hread : nvVideoPacketSize ≤ ((patched f block seq i shard).drop nvPacketOffset).length := by
      rw [List.length_drop]
      omega
    refine ⟨_, (if_pos (by omega)).trans (if_pos hread), ?_, ?_, ?_⟩
    · simp only [byteAt_drop]
      change u32OfLe (byteAt _ (nvPacketOffset + 4 + 0)) (byteAt _ (nvPacketOffset + 4 + 1))
        (byteAt _ (nvPacketOffset + 4 + 2)) (byteAt _ (nvPacketOffset + 4 + 3)) = _
      rw [hframe 0 (by simp), hframe 1 (by simp), hframe 2 (by simp), hframe 3 (by simp)]
      exact u32OfLe_u32le _
    · simp only [byteAt_drop]
      exact hblocks
    · simp only [byteAt_drop]
      change u32OfLe (byteAt _ (nvPacketOffset + 12 + 0)) (byteAt _ (nvPacketOffset + 12 + 1))
        (byteAt _ (nvPacketOffset + 12 + 2)) (byteAt _ (nvPacketOffset + 12 + 3)) = _
      rw [hfec 0 (by simp), hfec 1 (by simp), hfec 2 (by simp), hfec 3 (by simp)]
      exact u32OfLe_u32le _

theorem hasHeader_dataShardBytes (spi : UInt32) (i : ℕ) :
    HasHeader f block seq i (dataShardBytes f block seq spi i) := by
  have hlen := length_dataShardBytes f block seq spi i
  have hlong : nvPacketOffset + nvVideoPacketSize ≤
      (dataShardBytes f block seq spi i).length := by
    rw [hlen]
    exact payloadOffset_le_shardSize f
  have hdrop : (dataShardBytes f block seq spi i).drop nvPacketOffset =
      (dataNv f block spi i).bytes ++ payload f (f.blockStart block + i) := by
    rw [dataShardBytes, List.append_assoc]
    exact List.drop_left' rfl
  refine ⟨hlen, rfl, ?_, ?_⟩
  · have hread : rtpHeaderSize ≤ (dataShardBytes f block seq spi i).length := by
      simp only [nvPacketOffset] at hlong
      omega
    exact ⟨_, if_pos hread, u16OfLe_u16le _⟩
  · have hread : nvVideoPacketSize ≤
        ((dataShardBytes f block seq spi i).drop nvPacketOffset).length := by
      rw [List.length_drop]
      omega
    refine ⟨_, (if_pos (by omega)).trans (if_pos hread), ?_, ?_, ?_⟩
    · rw [hdrop]
      exact u32OfLe_u32le _
    · rw [hdrop]
      rfl
    · rw [hdrop]
      exact u32OfLe_u32le _

end Parity

section Encode

variable {rs : FecRs} {d p len : ℕ}

private theorem getD_block (written : ℕ → Bytes) (k : ℕ) (hk : k < d + p) :
    ((List.range d).map written ++ List.replicate p (List.replicate len (0 : UInt8))).getD k [] =
      if k < d then written k else List.replicate len 0 := by
  rw [List.getD_eq_getElem?_getD]
  by_cases hdata : k < d
  · rw [List.getElem?_append_left (by simpa using hdata), if_pos hdata]
    simp [hdata]
  · rw [List.getElem?_append_right (by simpa using hdata), if_neg hdata, List.length_map,
      List.length_range, List.getElem?_replicate, if_pos (by omega), Option.getD_some]

/-- Encoding in place keeps the data shards and makes every byte column a codeword. -/
theorem encodeParity_eq (hrs : rs.Lawful) (hd : 1 ≤ d) (hp : 1 ≤ p) (hdp : d + p ≤ 256)
    (hlen : 0 < len) (written : ℕ → Bytes) (hwritten : ∀ k, k < d → (written k).length = len) :
    ∃ (c : SystematicCode UInt8 d p) (out : ℕ → Bytes), c.MDS ∧ rs.CodesWith d p c ∧
      encodeParity rs d p ((List.range d).map written ++
        List.replicate p (List.replicate len 0)) = (List.range (d + p)).map out ∧
      (∀ k, k < d → out k = written k) ∧
      ∀ i : Fin (d + p), (out i).length = len ∧ ∀ j, j < len → byteAt (out i) j =
        c.codeword (FecRs.column (fun k : Fin d => written k) j) i := by
  obtain ⟨c, hmds, hcodes⟩ := hrs.codes d p hd hp hdp
  let shards : Fin (d + p) → Bytes := fun k =>
    ((List.range d).map written ++ List.replicate p (List.replicate len 0)).getD k []
  have hshards : ∀ k : Fin (d + p), shards k =
      if k.val < d then written k else List.replicate len 0 := fun k => getD_block written k k.isLt
  have hlens : ∀ k, (shards k).length = len := by
    intro k
    rw [hshards]
    split
    · exact hwritten k ‹_›
    · exact List.length_replicate
  have hmessage : (fun k : Fin d => shards (Fin.castAdd p k)) = fun k : Fin d => written k := by
    funext k
    rw [hshards]
    exact if_pos k.isLt
  obtain ⟨out, hout, hcolumns⟩ := hcodes.encode_eq len shards hlen hlens
  rw [hmessage] at hcolumns
  refine ⟨c, fun k => if h : k < d + p then out ⟨k, h⟩ else [], hmds, hcodes, ?_, ?_, ?_⟩
  · unfold encodeParity
    rw [if_neg (by omega), if_pos (hrs.new_ok d p hd hp hdp), hout]
    apply List.ext_getElem
    · simp
    · intro k hk _
      simp only [List.length_ofFn] at hk
      simp [hk]
  · intro k hk
    have hk' : k < d + p := by omega
    obtain ⟨hklen, hkcolumn⟩ := hcolumns ⟨k, hk'⟩
    simp only [dif_pos hk']
    apply ext_byteAt (hklen.trans (hwritten k hk).symm)
    intro j hj
    rw [hkcolumn j (hklen ▸ hj)]
    exact c.codeword_castAdd _ ⟨k, hk⟩
  · intro i
    simp only [dif_pos i.isLt]
    exact hcolumns i

end Encode

section Blocks

variable (rs : FecRs) (f : Frame)

/-- The payloads of a block form a codeword in every byte column. -/
def Coded (block : ℕ) (shards : ℕ → Bytes) : Prop :=
  ∃ c : SystematicCode UInt8 (f.blockDataShards block) (f.blockParity block),
    c.MDS ∧ rs.CodesWith _ _ c ∧
      ∀ (i : Fin (f.blockDataShards block + f.blockParity block)) (j : ℕ),
        j < f.shardPayloadSize → byteAt ((shards i).drop payloadOffset) j =
          c.codeword (FecRs.column (fun k : Fin (f.blockDataShards block) =>
            payload f (f.blockStart block + k)) j) i

/-- The shards of one block, by their index in the block. -/
structure BlockShards (block : ℕ) (c : Counters) (shards : ℕ → Bytes) : Prop where
  data : ∀ i, i < f.blockDataShards block → shards i =
    dataShardBytes f block c.sequenceNumber (c.streamPacketIndex + UInt32.ofNat i) i
  header : ∀ i, i < f.blockTotal block → HasHeader f block c.sequenceNumber i (shards i)
  coded : 0 < f.blockParity block → Coded rs f block shards

/-- The counters after a block. -/
def advance (block : ℕ) (c : Counters) : Counters where
  sequenceNumber := c.sequenceNumber + UInt32.ofNat (f.blockTotal block)
  streamPacketIndex := c.streamPacketIndex + UInt32.ofNat (f.blockDataShards block)

variable {rs}

theorem drop_dataShardBytes (block : ℕ) (seq spi : UInt32) (i : ℕ) :
    (dataShardBytes f block seq spi i).drop payloadOffset = payload f (f.blockStart block + i) :=
  List.drop_left' (length_headers _ _)

/-- The block after the code has run, before the parity headers are patched. -/
private theorem encodedBlock (hrs : rs.Lawful) (block : ℕ) (hd : 1 ≤ f.blockDataShards block)
    (data : ℕ → Bytes) (hdata : ∀ i, i < f.blockDataShards block → (data i).length = f.shardSize ∧
      (data i).drop payloadOffset = payload f (f.blockStart block + i)) :
    ∃ out : ℕ → Bytes, encodeParity rs (f.blockDataShards block) (f.blockParity block)
      ((List.range (f.blockDataShards block)).map data ++ List.replicate (f.blockParity block)
        (List.replicate f.shardSize 0)) = (List.range (f.blockTotal block)).map out ∧
      (∀ i, i < f.blockDataShards block → out i = data i) ∧
      (∀ i, i < f.blockTotal block → (out i).length = f.shardSize) ∧
      (0 < f.blockParity block → Coded rs f block out) := by
  by_cases hp : f.blockParity block = 0
  · refine ⟨data, ?_, fun _ _ => rfl, ?_, fun h => absurd hp h.ne'⟩
    · simp only [encodeParity, hp, if_true, List.replicate_zero, List.append_nil,
        Frame.blockTotal, Nat.add_zero]
    · intro i hi
      rw [Frame.blockTotal, hp, Nat.add_zero] at hi
      exact (hdata i hi).1
  · have hle := parityShardCount_le (f.blockDataShards block) f.percentage
    have hsum : f.blockDataShards block + f.blockParity block ≤ 256 := by
      unfold Frame.blockParity maxShards at *
      omega
    have hpos : 0 < f.shardSize := (Nat.succ_pos 31).trans_le (payloadOffset_le_shardSize f)
    obtain ⟨c, out, hmds, hcodes, hencode, hkeep, hcolumns⟩ := encodeParity_eq hrs hd
      (Nat.pos_of_ne_zero hp) hsum hpos data fun i hi => (hdata i hi).1
    refine ⟨out, hencode, hkeep, fun i hi => (hcolumns ⟨i, hi⟩).1, fun _ => ?_⟩
    refine ⟨c, hmds, hcodes, fun i j hj => ?_⟩
    have hcolumn : FecRs.column (fun k : Fin (f.blockDataShards block) => data k)
        (payloadOffset + j) = FecRs.column (fun k : Fin (f.blockDataShards block) =>
          payload f (f.blockStart block + k)) j := by
      funext k
      simp only [FecRs.column, ← (hdata k k.isLt).2, byteAt_drop]
    rw [byteAt_drop, (hcolumns i).2 _ (by unfold Frame.shardSize; omega), hcolumn]

theorem packetizeBlock_eq (hrs : rs.Lawful) (block : ℕ) (c : Counters)
    (hd : 1 ≤ f.blockDataShards block)
    (hindex : ∀ i, i < f.blockDataShards block →
      (f.blockStart block + i) * f.shardPayloadSize ≤ f.packetDataLen) :
    ∃ shards : ℕ → Bytes, packetizeBlock rs f block c =
      some ((List.range (f.blockTotal block)).map shards, advance f block c) ∧
        BlockShards rs f block c shards := by
  have hwritten := dataShards_eq f block c.sequenceNumber (f.blockDataShards block) 0
    c.streamPacketIndex (by simpa using hindex)
  simp only [Nat.zero_add] at hwritten
  let data : ℕ → Bytes := fun i => dataShardBytes f block c.sequenceNumber
    (c.streamPacketIndex + UInt32.ofNat i) i
  obtain ⟨out, hencode, hkeep, hlen, hcoded⟩ := encodedBlock f hrs block hd data fun i _ =>
    ⟨length_dataShardBytes _ _ _ _ _, drop_dataShardBytes _ _ _ _ _⟩
  let shards : ℕ → Bytes := fun i => if i < f.blockDataShards block then data i
    else patched f block c.sequenceNumber i (out i)
  have hparity : ∀ k, k < f.blockParity block →
      (out (f.blockDataShards block + k)).length = f.shardSize := by
    intro k hk
    exact hlen _ (Nat.add_lt_add_left hk _)
  have hsplit : (List.range (f.blockTotal block)).map out =
      (List.range (f.blockDataShards block)).map data ++
        (List.range (f.blockParity block)).map
          (fun k => out (f.blockDataShards block + k)) := by
    rw [Frame.blockTotal, List.range_add, List.map_append, List.map_map]
    congr 1
    exact List.map_congr_left fun i hi => hkeep i (List.mem_range.mp hi)
  have hlength : ((List.range (f.blockDataShards block)).map data).length =
      f.blockDataShards block := by simp
  have hpatch := patchParityFrom_eq f block c.sequenceNumber (f.blockParity block)
    (f.blockDataShards block) (fun k => out (f.blockDataShards block + k)) fun k hk => by
      rw [hparity k hk]
      exact payloadOffset_le_shardSize f
  refine ⟨shards, ?_, ?_, ?_, ?_⟩
  · have hjoin : (List.range (f.blockDataShards block)).map data ++
        (List.range (f.blockParity block)).map (fun k => patched f block c.sequenceNumber
          (f.blockDataShards block + k) (out (f.blockDataShards block + k))) =
        (List.range (f.blockTotal block)).map shards := by
      rw [Frame.blockTotal, List.range_add, List.map_append, List.map_map]
      congr 1
      · apply List.map_congr_left
        intro i hi
        exact (if_pos (List.mem_range.mp hi)).symm
      · apply List.map_congr_left
        intro k _
        have hge : ¬ f.blockDataShards block + k < f.blockDataShards block := by omega
        exact (if_neg hge).symm
    unfold packetizeBlock
    simp only [hwritten, Option.bind_eq_bind, Option.bind_some]
    change (patchParityFrom f block c.sequenceNumber (f.blockDataShards block)
      ((encodeParity rs _ _ ((List.range (f.blockDataShards block)).map data ++ _)).drop
        (f.blockDataShards block))).bind (fun patched => some
          ((encodeParity rs _ _ ((List.range (f.blockDataShards block)).map data ++ _)).take
            (f.blockDataShards block) ++ patched, _)) = _
    rw [hencode, hsplit, List.drop_left' hlength, List.take_left' hlength, hpatch,
      Option.bind_some, hjoin]
    rfl
  · intro i hi
    exact if_pos hi
  · intro i hi
    by_cases hdata : i < f.blockDataShards block
    · rw [show shards i = data i from if_pos hdata]
      exact hasHeader_dataShardBytes f block _ _ i
    · rw [show shards i = patched f block c.sequenceNumber i (out i) from if_neg hdata]
      exact hasHeader_patched f block _ i (hlen i hi)
  · intro hp
    obtain ⟨code, hmds, hcodes, hcolumns⟩ := hcoded hp
    refine ⟨code, hmds, hcodes, fun i j hj => ?_⟩
    rw [← hcolumns i j hj]
    by_cases hdata : i.val < f.blockDataShards block
    · rw [show shards i = data i from if_pos hdata, hkeep i hdata]
    · rw [show shards i = patched f block c.sequenceNumber i (out i) from if_neg hdata,
        drop_patched f block _ i ((hlen i i.isLt).symm ▸ payloadOffset_le_shardSize f)]

end Blocks

section Geometry

variable (f : Frame)

theorem percentage_bounds : 10 ≤ f.percentage ∧ f.percentage ≤ 60 := by
  unfold Frame.percentage
  omega

theorem nrDataPerBlock_pos : 0 < f.nrDataPerBlock := by
  have hpct := percentage_bounds f
  have hlt : f.nrParityPerBlock < maxShards := by
    unfold Frame.nrParityPerBlock maxShards
    rw [Nat.div_lt_iff_lt_mul (by omega)]
    omega
  unfold Frame.nrDataPerBlock
  omega

theorem nrDataPerBlock_le : f.nrDataPerBlock ≤ maxShards := Nat.sub_le _ _

theorem nrBlocks_pos : 0 < f.nrBlocks :=
  Nat.lt_min.mpr ⟨Nat.succ_pos _, Nat.succ_pos _⟩

theorem nrBlocks_le : f.nrBlocks ≤ maxFecBlocks := Nat.min_le_right _ _

theorem totalDataShards_pos : 0 < f.totalDataShards := by
  unfold Frame.totalDataShards
  omega

/-- All but the last shard are full, and the last one is not empty. -/
theorem packetDataLen_bounds (hsize : 0 < f.shardPayloadSize) :
    (f.totalDataShards - 1) * f.shardPayloadSize < f.packetDataLen ∧
      f.packetDataLen ≤ f.totalDataShards * f.shardPayloadSize := by
  have hlen : 0 < f.packetDataLen := by
    unfold Frame.packetDataLen videoFrameHeaderSize
    omega
  have hceil : f.totalDataShards = (f.packetDataLen - 1) / f.shardPayloadSize + 1 := by
    have hsplit : f.packetDataLen + f.shardPayloadSize - 1 =
        f.packetDataLen - 1 + f.shardPayloadSize := by omega
    unfold Frame.totalDataShards divCeil
    rw [hsplit, Nat.add_div_right _ hsize]
    exact Nat.max_eq_left (Nat.succ_le_succ (Nat.zero_le _))
  have hdiv := Nat.div_add_mod (f.packetDataLen - 1) f.shardPayloadSize
  have hmod := Nat.mod_lt (f.packetDataLen - 1) hsize
  rw [hceil, Nat.add_sub_cancel, Nat.add_one_mul, Nat.mul_comm]
  omega

/-- Before the last block there is always a data shard left for it. -/
theorem blockStart_lt {block : ℕ} (hblock : block < f.nrBlocks) :
    f.blockStart block < f.totalDataShards := by
  have hquot : block ≤ (f.totalDataShards - 1) / f.nrDataPerBlock := by
    unfold Frame.nrBlocks at hblock
    omega
  have hmul := (Nat.le_div_iff_mul_le (nrDataPerBlock_pos f)).mp hquot
  have htotal := totalDataShards_pos f
  unfold Frame.blockStart
  omega

theorem blockEnd_eq {block : ℕ} (hblock : block < f.nrBlocks) :
    f.blockEnd block =
      if block + 1 = f.nrBlocks then f.totalDataShards else f.blockStart (block + 1) := by
  unfold Frame.blockEnd
  by_cases hlast : block + 1 = f.nrBlocks
  · rw [if_pos (by omega), if_pos hlast]
  · have hnext := blockStart_lt f (show block + 1 < f.nrBlocks by omega)
    unfold Frame.blockStart at *
    rw [if_neg (by omega), if_neg hlast, Nat.min_eq_left hnext.le]

theorem blockDataShards_pos {block : ℕ} (hblock : block < f.nrBlocks) :
    0 < f.blockDataShards block := by
  have hstart := blockStart_lt f hblock
  have hper := nrDataPerBlock_pos f
  have hend := blockEnd_eq f hblock
  unfold Frame.blockDataShards
  split at hend
  · omega
  · unfold Frame.blockStart at *
    rw [Nat.add_one_mul] at hend
    omega

theorem blockStart_add (block : ℕ) (hblock : block < f.nrBlocks) :
    f.blockStart block + f.blockDataShards block =
      if block + 1 = f.nrBlocks then f.totalDataShards else f.blockStart (block + 1) := by
  have hpos := blockDataShards_pos f hblock
  rw [← blockEnd_eq f hblock]
  unfold Frame.blockDataShards at *
  omega

theorem blockStart_add_le {block : ℕ} (hblock : block < f.nrBlocks) :
    f.blockStart block + f.blockDataShards block ≤ f.totalDataShards := by
  rw [blockStart_add f block hblock]
  split
  · exact le_rfl
  · exact (blockStart_lt f (by omega)).le

theorem blockDataShards_eq {block : ℕ} (hblock : block + 1 < f.nrBlocks) :
    f.blockDataShards block = f.nrDataPerBlock := by
  have h := blockStart_add f block (by omega)
  rw [if_neg (by omega)] at h
  unfold Frame.blockStart at h
  rw [Nat.add_one_mul] at h
  omega

/-- The blocks list the global indices of the data shards in order. -/
theorem flatMap_blocks : (List.range f.nrBlocks).flatMap (fun block =>
    (List.range (f.blockDataShards block)).map (f.blockStart block + ·)) =
      List.range f.totalDataShards := by
  have hprefix : ∀ n, n < f.nrBlocks → (List.range (n + 1)).flatMap (fun block =>
      (List.range (f.blockDataShards block)).map (f.blockStart block + ·)) =
        List.range (f.blockStart n + f.blockDataShards n) := by
    intro n
    induction n with
    | zero =>
      intro _
      simp [Frame.blockStart]
    | succ n ih =>
      intro hn
      have hstart := blockStart_add f n (by omega)
      rw [if_neg (by omega)] at hstart
      rw [List.range_succ, List.flatMap_append, ih (by omega), hstart, List.flatMap_singleton,
        List.range_add]
  have hpos := nrBlocks_pos f
  have hlast : f.nrBlocks - 1 + 1 = f.nrBlocks := by omega
  have h := hprefix (f.nrBlocks - 1) (by omega)
  rwa [blockStart_add f _ (by omega), if_pos hlast, hlast] at h

end Geometry

section Frames

variable {rs : FecRs} (f : Frame)

/-- The counters at the start of a block. -/
def countersAt (c : Counters) : ℕ → Counters
  | 0 => c
  | block + 1 => advance f block (countersAt c block)

/-- The shards of a frame in sending order. -/
def inOrder (shards : ℕ → ℕ → Bytes) (blocks : ℕ) : List Bytes :=
  (List.range blocks).flatMap fun block => (List.range (f.blockTotal block)).map (shards block)

theorem mem_inOrder {shards : ℕ → ℕ → Bytes} {blocks : ℕ} {s : Bytes} :
    s ∈ inOrder f shards blocks ↔
      ∃ block, block < blocks ∧ ∃ i, i < f.blockTotal block ∧ shards block i = s := by
  simp [inOrder]

private theorem packetizeBlocks_eq (c : Counters) (shards : ℕ → ℕ → Bytes)
    (hblocks : ∀ block, block < f.nrBlocks →
      packetizeBlock rs f block (countersAt f c block) =
        some ((List.range (f.blockTotal block)).map (shards block), countersAt f c (block + 1)))
    (n block : ℕ) (hn : block + n = f.nrBlocks) :
    packetizeBlocks rs f n block (countersAt f c block) =
      some ((List.range' block n).flatMap (fun b =>
        (List.range (f.blockTotal b)).map (shards b)), countersAt f c f.nrBlocks) := by
  induction n generalizing block with
  | zero =>
    rw [← hn]
    rfl
  | succ n ih =>
    have hlt : block < f.nrBlocks := by omega
    have hpos := blockDataShards_pos f hlt
    have hle : f.blockStart block ≤ f.blockEnd block := by
      unfold Frame.blockDataShards at hpos
      omega
    simp only [packetizeBlocks, if_neg (Nat.not_lt.mpr hle), if_neg hpos.ne', hblocks block hlt,
      Option.bind_eq_bind, Option.bind_some, ih (block + 1) (by omega), List.range'_succ,
      List.flatMap_cons]

/-- Packetizing a frame never faults once a shard has room for payload, and its
output lists the shards of the blocks in order. -/
theorem packetizeFrame_eq (hrs : rs.Lawful) (c : Counters)
    (hsize : nvVideoPacketSize < f.requestedPacketSize) :
    ∃ shards : ℕ → ℕ → Bytes, packetizeFrame rs f c =
      some (inOrder f shards f.nrBlocks, countersAt f c f.nrBlocks) ∧
        ∀ block, block < f.nrBlocks →
          BlockShards rs f block (countersAt f c block) (shards block) := by
  have hpayload : 0 < f.shardPayloadSize := Nat.sub_pos_of_lt hsize
  have hblock : ∀ block, block < f.nrBlocks → ∃ shards : ℕ → Bytes,
      packetizeBlock rs f block (countersAt f c block) =
        some ((List.range (f.blockTotal block)).map shards, countersAt f c (block + 1)) ∧
        BlockShards rs f block (countersAt f c block) shards := by
    intro block hblock
    refine packetizeBlock_eq f hrs block _ (blockDataShards_pos f hblock) fun i hi => ?_
    have hend := blockStart_add_le f hblock
    have hindex : f.blockStart block + i ≤ f.totalDataShards - 1 := by omega
    exact (Nat.mul_le_mul_right _ hindex).trans (packetDataLen_bounds f hpayload).1.le
  choose shards hshards hspec using hblock
  let all : ℕ → ℕ → Bytes := fun block =>
    if h : block < f.nrBlocks then shards block h else fun _ => []
  have hall : ∀ block (h : block < f.nrBlocks), all block = shards block h :=
    fun _ h => dif_pos h
  refine ⟨all, ?_, fun block h => hall block h ▸ hspec block h⟩
  have hloop := packetizeBlocks_eq f c all
    (fun block h => by rw [hall block h]; exact hshards block h) f.nrBlocks 0 (Nat.zero_add _)
  rw [← List.range_eq_range'] at hloop
  unfold packetizeFrame
  rw [if_neg (by omega), if_neg hpayload.ne']
  exact hloop

end Frames

section Headers

variable {f : Frame} {block i : ℕ} {seq : UInt32} {s : Bytes}

theorem HasHeader.fields (hhead : HasHeader f block seq i s) (hblock : block < f.nrBlocks) :
    ∃ nv, NvVideoPacket.readFromShard s = some nv ∧ nv.frameIndex = f.frameNumber ∧
      nv.blockIndex = block ∧ nv.blockCount = f.nrBlocks ∧ nv.fecInfo = f.fecInfo block i := by
  obtain ⟨nv, hread, hframe, hblocks, hfec⟩ := hhead.nv
  obtain ⟨hindex, hcount⟩ := NvVideoPacket.multiFecBlocks_fields nv block f.nrBlocks
    (hblock.trans_le (nrBlocks_le f)) (nrBlocks_pos f) (nrBlocks_le f) hblocks
  exact ⟨nv, hread, hframe, hindex, hcount, hfec⟩

/-- In a block that fits the code the header tells every number of its shard. -/
theorem HasHeader.decoded (hhead : HasHeader f block seq i s) (hblock : block < f.nrBlocks)
    (hfit : f.blockDataShards block ≤ maxShards) (hi : i < f.blockTotal block) :
    ∃ nv, NvVideoPacket.readFromShard s = some nv ∧ nv.frameIndex = f.frameNumber ∧
      nv.blockIndex = block ∧ nv.blockCount = f.nrBlocks ∧ nv.shardIndex = i ∧
        nv.dataShards = f.blockDataShards block ∧ nv.fecPercentage = f.percentage := by
  obtain ⟨nv, hread, hframe, hindex, hcount, hfec⟩ := hhead.fields hblock
  have hpct := percentage_bounds f
  have htotal : f.blockTotal block ≤ maxShards := add_parityShardCount_le hfit f.percentage
  unfold maxShards at hfit htotal
  obtain ⟨hshard, hdata, hpercent⟩ := NvVideoPacket.fecInfo_fields nv i
    (f.blockDataShards block) f.percentage (by omega) (by omega) (by omega) hfec
  exact ⟨nv, hread, hframe, hindex, hcount, hshard, hdata, hpercent⟩

end Headers

end KmControl.PacketizerShards
