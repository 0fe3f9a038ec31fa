import KmControl.PacketizerShards

/-!
What a receiver reads of the numbers on a shard, and what it means that the
readings of a list of shards count up modulo some power of two.
-/
namespace KmControl.ShardReadings

open ByteFields GsProto Packetizer PacketizerShards

section Counts

variable {m a b c : ℕ} {l l' : List (Option ℕ)}

/-- The readings count up from `start` modulo `m`, and `stop` comes after them. -/
structure Counts (m start stop : ℕ) (readings : List (Option ℕ)) : Prop where
  eq_map : readings = (List.range readings.length).map fun k => some ((start + k) % m)
  stop_mod : stop % m = (start + readings.length) % m

theorem Counts.nil (m a : ℕ) : Counts m a a [] := ⟨rfl, rfl⟩

theorem Counts.append (h : Counts m a b l) (h' : Counts m b c l') : Counts m a c (l ++ l') := by
  have hshift : ∀ k, (b + k) % m = (a + (l.length + k)) % m := by
    intro k
    rw [Nat.add_mod, h.stop_mod, ← Nat.add_mod, Nat.add_assoc]
  refine ⟨?_, ?_⟩
  · rw [List.length_append, List.range_add, List.map_append, List.map_map]
    conv_lhs => rw [h.eq_map, h'.eq_map]
    congr 1
    apply List.map_congr_left
    intro k _
    rw [Function.comp_apply, hshift]
  · rw [h'.stop_mod, hshift, List.length_append]

/-- Readings of a 32-bit counter that advances by one for each of them. -/
theorem Counts.of_word (w : UInt32) (n : ℕ) {r : ℕ → Option ℕ} (hm : m ∣ 2 ^ 32)
    (h : ∀ i, i < n → r i = some ((w.toNat + i) % m)) :
    Counts m w.toNat (w + UInt32.ofNat n).toNat ((List.range n).map r) := by
  refine ⟨?_, ?_⟩
  · rw [List.length_map, List.length_range]
    exact List.map_congr_left fun i hi => h i (List.mem_range.mp hi)
  · rw [List.length_map, List.length_range, UInt32.toNat_add, UInt32.toNat_ofNat',
      Nat.mod_mod_of_dvd _ hm, Nat.add_mod, Nat.mod_mod_of_dvd _ hm, ← Nat.add_mod]

theorem Counts.flatMap (start : ℕ → ℕ) {readings : ℕ → List (Option ℕ)} (n : ℕ)
    (h : ∀ k, k < n → Counts m (start k) (start (k + 1)) (readings k)) :
    Counts m (start 0) (start n) ((List.range n).flatMap readings) := by
  induction n with
  | zero => exact Counts.nil m _
  | succ n ih =>
    rw [List.range_succ, List.flatMap_append, List.flatMap_singleton]
    exact (ih fun k hk => h k (Nat.lt_succ_of_lt hk)).append (h n (Nat.lt_succ_self n))

end Counts

section Readings

/-- What a receiver reads of a shard's numbers. -/
def rtpSequence (shard : Bytes) : Option ℕ :=
  (RtpHeader.read shard).map fun h => h.sequenceNumber.toNat

def packetIndex (shard : Bytes) : Option ℕ :=
  (NvVideoPacket.readFromShard shard).map fun nv => nv.streamPacketIndex.toNat

/-- Whether the flags say that a frame starts and that it ends with the shard. -/
def frameMarks (shard : Bytes) : Option (Bool × Bool) :=
  (NvVideoPacket.readFromShard shard).map fun nv =>
    (nv.flags &&& RtpFlag.startOfFrame != 0, nv.flags &&& RtpFlag.endOfFrame != 0)

def place (shard : Bytes) : Option (ℕ × ℕ) :=
  (NvVideoPacket.readFromShard shard).map fun nv => (nv.blockIndex, nv.shardIndex)

/-- The data shards among the shards of the blocks from `block` on. -/
def dataOfBlocks (f : Frame) : (remaining block : ℕ) → List Bytes → List Bytes
  | 0, _, _ => []
  | remaining + 1, block, shards =>
    shards.take (f.blockDataShards block) ++
      dataOfBlocks f remaining (block + 1) (shards.drop (f.blockTotal block))

/-- The data shards of a frame: every block has its data shards before its parity. -/
def dataOf (f : Frame) (shards : List Bytes) : List Bytes := dataOfBlocks f f.nrBlocks 0 shards

variable (f : Frame) (block : ℕ) (seq spi : UInt32)

theorem rtpSequence_eq {i : ℕ} {shard : Bytes} (h : HasHeader f block seq i shard) :
    rtpSequence shard = some ((seq.toNat + i) % 2 ^ 16) := by
  obtain ⟨rtp, hread, hseq⟩ := h.rtp
  rw [rtpSequence, hread, Option.map_some, hseq, UInt32.toNat_toUInt16, UInt32.toNat_add,
    UInt32.toNat_ofNat']
  congr 1
  omega

/-- The packet index keeps its lower 24 bits on the wire. -/
theorem readFromShard_dataShardBytes (i : ℕ) :
    NvVideoPacket.readFromShard (dataShardBytes f block seq spi i) =
      some { dataNv f block spi i with streamPacketIndex := (spi <<< 8) >>> 8 } := by
  have hlen := length_dataShardBytes f block seq spi i
  have hdrop : (dataShardBytes f block seq spi i).drop nvPacketOffset =
      (dataNv f block spi i).bytes ++ payload f (f.blockStart block + i) := by
    rw [dataShardBytes, List.append_assoc]
    exact List.drop_left' rfl
  have hlong : nvPacketOffset ≤ (dataShardBytes f block seq spi i).length := by
    rw [hlen, Frame.shardSize, payloadOffset]
    omega
  have hread : nvVideoPacketSize ≤
      ((dataNv f block spi i).bytes ++ payload f (f.blockStart block + i)).length := by
    rw [List.length_append, NvVideoPacket.length_bytes]
    exact Nat.le_add_right _ _
  rw [NvVideoPacket.readFromShard, if_pos hlong, hdrop, NvVideoPacket.read, if_pos hread,
    Option.some.injEq, NvVideoPacket.mk.injEq]
  refine ⟨?_, u32OfLe_u32le _, rfl, rfl, u32OfLe_u32le _⟩
  exact congrArg (fun w : UInt32 => w >>> 8) (u32OfLe_u32le (spi <<< 8))

theorem packetIndex_dataShardBytes (i : ℕ) :
    packetIndex (dataShardBytes f block seq spi i) = some (spi.toNat % 2 ^ 24) := by
  rw [packetIndex, readFromShard_dataShardBytes, Option.map_some, UInt32.toNat_shiftRight,
    UInt32.toNat_shiftLeft]
  change some ((spi.toNat <<< 8 % 2 ^ 32) >>> 8) = _
  rw [Nat.shiftRight_eq_div_pow, Nat.shiftLeft_eq]
  congr 1
  omega

private theorem marks_of_flags (first last : Prop) [Decidable first] [Decidable last] :
    let flags := RtpFlag.containsPicData
    let flags := if first then flags ||| RtpFlag.startOfFrame else flags
    let flags := if last then flags ||| RtpFlag.endOfFrame else flags
    (flags &&& RtpFlag.startOfFrame != 0) = decide first ∧
      (flags &&& RtpFlag.endOfFrame != 0) = decide last := by
  by_cases hfirst : first <;> by_cases hlast : last <;>
    simp only [hfirst, hlast, if_true, if_false, decide_true, decide_false] <;> decide

/-- The flags of a data shard name exactly the two ends of its frame. -/
theorem flags_marks (k : ℕ) :
    (f.flags k &&& RtpFlag.startOfFrame != 0) = decide (k = 0) ∧
      (f.flags k &&& RtpFlag.endOfFrame != 0) = decide (k = f.totalDataShards - 1) :=
  marks_of_flags (k = 0) (k = f.totalDataShards - 1)

theorem frameMarks_dataShardBytes (i : ℕ) :
    frameMarks (dataShardBytes f block seq spi i) =
      some (decide (f.blockStart block + i = 0),
        decide (f.blockStart block + i + 1 = f.totalDataShards)) := by
  have hpos := totalDataShards_pos f
  obtain ⟨hfirst, hlast⟩ := flags_marks f (f.blockStart block + i)
  rw [frameMarks, readFromShard_dataShardBytes, Option.map_some]
  change some (f.flags _ &&& _ != 0, f.flags _ &&& _ != 0) = _
  rw [hfirst, hlast]
  congr 2
  exact decide_eq_decide.mpr (by omega)

end Readings

end KmControl.ShardReadings
