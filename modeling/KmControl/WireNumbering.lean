import KmControl.ShardReadings
import Mathlib.Data.List.Forall2
import Mathlib.Data.List.Nodup

/-!
The numbers on the wire over many frames. The RTP sequence number counts every
shard and the packet index counts the data shards; both go on across blocks and
frames, also where a counter wraps. Inside a frame the flags mark its first and
its last data shard, and the header places a shard in its block.
-/
namespace KmControl.WireNumbering

open ByteFields GsProto Packetizer PacketizerShards ShardReadings

section Frames

variable (f : Frame)

theorem dataOfBlocks_eq (shards : ℕ → ℕ → Bytes) (n block : ℕ) :
    dataOfBlocks f n block ((List.range' block n).flatMap fun b =>
      (List.range (f.blockTotal b)).map (shards b)) =
        (List.range' block n).flatMap fun b =>
          (List.range (f.blockDataShards b)).map (shards b) := by
  induction n generalizing block with
  | zero => rfl
  | succ n ih =>
    have htotal : ((List.range (f.blockTotal block)).map (shards block)).length =
        f.blockTotal block := by rw [List.length_map, List.length_range]
    have hdata : min (f.blockDataShards block) (f.blockTotal block) = f.blockDataShards block :=
      Nat.min_eq_left (Nat.le_add_right _ _)
    rw [List.range'_succ, List.flatMap_cons, List.flatMap_cons, dataOfBlocks,
      List.drop_left' htotal, ih, List.take_append_of_le_length (by rw [htotal]; omega),
      ← List.map_take, List.take_range, hdata]

theorem dataOf_inOrder (shards : ℕ → ℕ → Bytes) : dataOf f (inOrder f shards f.nrBlocks) =
    (List.range f.nrBlocks).flatMap fun b =>
      (List.range (f.blockDataShards b)).map (shards b) := by
  have h := dataOfBlocks_eq f shards f.nrBlocks 0
  rwa [← List.range_eq_range'] at h

/-- How the header places the shards of a frame whose blocks fit the code. -/
structure Placed (shards : List Bytes) : Prop where
  data : (dataOf f shards).map place = (List.range f.nrBlocks).flatMap fun block =>
    (List.range (f.blockDataShards block)).map fun i => some (block, i)
  nodup : (shards.map place).Nodup
  decoded : ∀ s ∈ shards, ∃ nv, NvVideoPacket.readFromShard s = some nv ∧
    nv.blockIndex < f.nrBlocks ∧ nv.blockCount = f.nrBlocks ∧
      nv.dataShards = f.blockDataShards nv.blockIndex ∧
        (s ∈ dataOf f shards ↔ nv.shardIndex < nv.dataShards)

/-- What the shards of a frame say of their positions in it. -/
structure Framed (shards : List Bytes) : Prop where
  marks : (dataOf f shards).map frameMarks =
    (List.range f.totalDataShards).map fun k =>
      some (decide (k = 0), decide (k + 1 = f.totalDataShards))
  placed : (∀ block, block < f.nrBlocks → f.blockDataShards block ≤ maxShards) → Placed f shards

/-- The numbers of one packetized frame, between the counters around it. -/
structure FrameNumbered (c c' : Counters) (shards : List Bytes) : Prop where
  rtp : Counts (2 ^ 16) c.sequenceNumber.toNat c'.sequenceNumber.toNat (shards.map rtpSequence)
  data : Counts (2 ^ 24) c.streamPacketIndex.toNat c'.streamPacketIndex.toNat
    ((dataOf f shards).map packetIndex)
  framed : Framed f shards

variable {rs : FecRs} {f : Frame} {c : Counters} {shards : ℕ → ℕ → Bytes}

theorem counts_rtp (hspec : ∀ block, block < f.nrBlocks →
    BlockShards rs f block (countersAt f c block) (shards block)) :
    Counts (2 ^ 16) c.sequenceNumber.toNat (countersAt f c f.nrBlocks).sequenceNumber.toNat
      ((inOrder f shards f.nrBlocks).map rtpSequence) := by
  rw [inOrder, List.map_flatMap]
  refine Counts.flatMap (fun b => (countersAt f c b).sequenceNumber.toNat) f.nrBlocks ?_
  intro block hblock
  rw [List.map_map]
  refine Counts.of_word _ _ (by decide) fun i hi => ?_
  exact rtpSequence_eq f block _ ((hspec block hblock).header i hi)

theorem counts_data (hspec : ∀ block, block < f.nrBlocks →
    BlockShards rs f block (countersAt f c block) (shards block)) :
    Counts (2 ^ 24) c.streamPacketIndex.toNat
      (countersAt f c f.nrBlocks).streamPacketIndex.toNat
        ((dataOf f (inOrder f shards f.nrBlocks)).map packetIndex) := by
  rw [dataOf_inOrder, List.map_flatMap]
  refine Counts.flatMap (fun b => (countersAt f c b).streamPacketIndex.toNat) f.nrBlocks ?_
  intro block hblock
  rw [List.map_map]
  refine Counts.of_word _ _ (by decide) fun i hi => ?_
  rw [Function.comp_apply, (hspec block hblock).data i hi, packetIndex_dataShardBytes,
    UInt32.toNat_add, UInt32.toNat_ofNat']
  congr 1
  omega

theorem marks_inOrder (hspec : ∀ block, block < f.nrBlocks →
    BlockShards rs f block (countersAt f c block) (shards block)) :
    (dataOf f (inOrder f shards f.nrBlocks)).map frameMarks =
      (List.range f.totalDataShards).map fun k =>
        some (decide (k = 0), decide (k + 1 = f.totalDataShards)) := by
  rw [← flatMap_blocks, dataOf_inOrder, List.map_flatMap, List.map_flatMap]
  apply List.flatMap_congr
  intro block hblock
  rw [List.map_map, List.map_map]
  apply List.map_congr_left
  intro i hi
  rw [Function.comp_apply, (hspec block (List.mem_range.mp hblock)).data i (List.mem_range.mp hi),
    frameMarks_dataShardBytes, Function.comp_apply]

theorem place_eq {block seq i} {s : Bytes} (hblock : block < f.nrBlocks)
    (hfit : f.blockDataShards block ≤ maxShards) (hi : i < f.blockTotal block)
    (h : HasHeader f block seq i s) : place s = some (block, i) := by
  obtain ⟨nv, hread, -, hindex, -, hshard, -⟩ := h.decoded hblock hfit hi
  rw [place, hread, Option.map_some, hindex, hshard]

/-- The places of a frame's shards are all different. -/
theorem nodup_places (n : ℕ) (len : ℕ → ℕ) : ((List.range n).flatMap fun block =>
    (List.range (len block)).map fun i => some (block, i)).Nodup := by
  rw [List.nodup_flatMap]
  refine ⟨fun block _ => List.nodup_range.map ?_, ?_⟩
  · intro i j hij
    exact (Prod.mk.inj (Option.some.inj hij)).2
  · refine List.nodup_range.imp fun {b b'} hne => ?_
    intro p hp hp'
    obtain ⟨i, -, rfl⟩ := List.mem_map.mp hp
    obtain ⟨j, -, hj⟩ := List.mem_map.mp hp'
    exact hne (Prod.mk.inj (Option.some.inj hj)).1.symm

theorem placed_inOrder (hspec : ∀ block, block < f.nrBlocks →
    BlockShards rs f block (countersAt f c block) (shards block))
    (hfit : ∀ block, block < f.nrBlocks → f.blockDataShards block ≤ maxShards) :
    Placed f (inOrder f shards f.nrBlocks) := by
  have hplace : ∀ block, block < f.nrBlocks → ∀ i, i < f.blockTotal block →
      place (shards block i) = some (block, i) := fun block hblock i hi =>
    place_eq hblock (hfit block hblock) hi ((hspec block hblock).header i hi)
  have hdata : ∀ block, f.blockDataShards block ≤ f.blockTotal block :=
    fun _ => Nat.le_add_right _ _
  refine ⟨?_, ?_, ?_⟩
  · rw [dataOf_inOrder, List.map_flatMap]
    apply List.flatMap_congr
    intro block hblock
    rw [List.map_map]
    apply List.map_congr_left
    intro i hi
    exact hplace block (List.mem_range.mp hblock) i ((List.mem_range.mp hi).trans_le (hdata block))
  · have hall : (inOrder f shards f.nrBlocks).map place = (List.range f.nrBlocks).flatMap
        fun block => (List.range (f.blockTotal block)).map fun i => some (block, i) := by
      rw [inOrder, List.map_flatMap]
      apply List.flatMap_congr
      intro block hblock
      rw [List.map_map]
      apply List.map_congr_left
      intro i hi
      exact hplace block (List.mem_range.mp hblock) i (List.mem_range.mp hi)
    rw [hall]
    exact nodup_places _ _
  · intro s hs
    obtain ⟨block, hblock, i, hi, rfl⟩ := (mem_inOrder f).mp hs
    obtain ⟨nv, hread, -, hindex, hcount, hshard, hshards, -⟩ :=
      ((hspec block hblock).header i hi).decoded hblock (hfit block hblock) hi
    refine ⟨nv, hread, hindex ▸ hblock, hcount, hindex ▸ hshards, ?_⟩
    rw [hshard, hshards, dataOf_inOrder, List.mem_flatMap]
    constructor
    · rintro ⟨block', hblock', hmem⟩
      obtain ⟨j, hj, heq⟩ := List.mem_map.mp hmem
      have hj' := List.mem_range.mp hj
      have hsame := hplace block' (List.mem_range.mp hblock') j (hj'.trans_le (hdata block'))
      rw [heq, hplace block hblock i hi] at hsame
      obtain ⟨rfl, rfl⟩ := Prod.mk.inj (Option.some.inj hsame)
      exact hj'
    · intro hlt
      exact ⟨block, List.mem_range.mpr hblock, List.mem_map_of_mem (List.mem_range.mpr hlt)⟩

/-- One call: from its counters to the ones that it leaves. -/
theorem frameNumbered (hrs : rs.Lawful) (f : Frame) (c : Counters)
    (hsize : nvVideoPacketSize < f.requestedPacketSize) :
    ∃ shards c', packetizeFrame rs f c = some (shards, c') ∧ FrameNumbered f c c' shards := by
  obtain ⟨shards, hpacketize, hspec⟩ := packetizeFrame_eq f hrs c hsize
  exact ⟨_, _, hpacketize, counts_rtp hspec, counts_data hspec, marks_inOrder hspec,
    placed_inOrder hspec⟩

end Frames

section Runs

variable {rs : FecRs}

/-- Successive calls, each with the counters that the one before left. -/
def packetizeFrames (rs : FecRs) : List Frame → Counters → Option (List (List Bytes) × Counters)
  | [], c => some ([], c)
  | f :: fs, c => do
    let (shards, c) ← packetizeFrame rs f c
    let (rest, c) ← packetizeFrames rs fs c
    some (shards :: rest, c)

/-- The data shards of all the frames, in sending order. -/
def dataOfAll (fs : List Frame) (out : List (List Bytes)) : List Bytes :=
  (List.zipWith dataOf fs out).flatten

theorem frames_numbered (hrs : rs.Lawful) (fs : List Frame) (c : Counters)
    (hsize : ∀ f ∈ fs, nvVideoPacketSize < f.requestedPacketSize) :
    ∃ out c', packetizeFrames rs fs c = some (out, c') ∧
      Counts (2 ^ 16) c.sequenceNumber.toNat c'.sequenceNumber.toNat
        (out.flatten.map rtpSequence) ∧
      Counts (2 ^ 24) c.streamPacketIndex.toNat c'.streamPacketIndex.toNat
        ((dataOfAll fs out).map packetIndex) ∧
      List.Forall₂ Framed fs out := by
  induction fs generalizing c with
  | nil => exact ⟨[], c, rfl, Counts.nil _ _, Counts.nil _ _, .nil⟩
  | cons f fs ih =>
    obtain ⟨shards, c₁, hfirst, hnumbered⟩ := frameNumbered hrs f c (hsize f List.mem_cons_self)
    obtain ⟨out, c', hrest, hrtp, hdata, hframed⟩ :=
      ih c₁ fun g hg => hsize g (List.mem_cons_of_mem f hg)
    refine ⟨shards :: out, c', ?_, ?_, ?_, .cons hnumbered.framed hframed⟩
    · simp only [packetizeFrames, hfirst, hrest, Option.bind_eq_bind, Option.bind_some]
    · rw [List.flatten_cons, List.map_append]
      exact hnumbered.rtp.append hrtp
    · rw [dataOfAll, List.zipWith_cons_cons, List.flatten_cons, List.map_append]
      exact hnumbered.data.append hdata

/-- Over any frames the RTP sequence numbers and the packet indices are each
consecutive, and every frame is framed by its own flags and headers. -/
theorem numbering_across_frames (hrs : rs.Lawful) (fs : List Frame) (c : Counters)
    (hsize : ∀ f ∈ fs, nvVideoPacketSize < f.requestedPacketSize) :
    ∃ out c', packetizeFrames rs fs c = some (out, c') ∧
      out.flatten.map rtpSequence = (List.range out.flatten.length).map (fun k =>
        some ((c.sequenceNumber.toNat + k) % 2 ^ 16)) ∧
      (dataOfAll fs out).map packetIndex = (List.range (dataOfAll fs out).length).map (fun k =>
        some ((c.streamPacketIndex.toNat + k) % 2 ^ 24)) ∧
      List.Forall₂ Framed fs out := by
  obtain ⟨out, c', hrun, hrtp, hdata, hframed⟩ := frames_numbered hrs fs c hsize
  refine ⟨out, c', hrun, ?_, ?_, hframed⟩
  · have h := hrtp.eq_map
    rwa [List.length_map] at h
  · have h := hdata.eq_map
    rwa [List.length_map] at h

/-- A frame of two data shards. -/
def twoShards : Frame where
  encodedData := [1, 2, 3, 4]
  isKeyFrame := false
  requestedPacketSize := 24
  frameNumber := 7
  rtpTimestamp := 0
  fecPercentage := 20

theorem numbering_wraps : ∃ (rs : FecRs) (out : List (List Bytes)) (c : Counters),
    packetizeFrames rs [twoShards, twoShards] ⟨65534, 16777215⟩ = some (out, c) ∧
      (dataOfAll [twoShards, twoShards] out).map packetIndex =
        [some 16777215, some 0, some 1, some 2] ∧
      List.Forall₂ Framed [twoShards, twoShards] out := by
  obtain ⟨rs, hrs⟩ := FecRs.exists_lawful
  obtain ⟨out, c, hrun, -, hdata, hframed⟩ := numbering_across_frames hrs [twoShards, twoShards]
    ⟨65534, 16777215⟩ (List.forall_mem_cons.mpr ⟨by decide, List.forall_mem_singleton.mpr (by decide)⟩)
  refine ⟨rs, out, c, hrun, ?_, hframed⟩
  have hlength : (dataOfAll [twoShards, twoShards] out).length = 4 := by
    obtain ⟨first, rest, hfirst, hrest, rfl⟩ := List.forall₂_cons_left_iff.mp hframed
    obtain ⟨second, rest', hsecond, hnil, rfl⟩ := List.forall₂_cons_left_iff.mp hrest
    obtain rfl := List.forall₂_nil_left_iff.mp hnil
    have hmarks := congrArg List.length hfirst.marks
    have hmarks' := congrArg List.length hsecond.marks
    rw [List.length_map, List.length_map, List.length_range] at hmarks hmarks'
    change (dataOf twoShards first ++ (dataOf twoShards second ++ [])).length = 4
    rw [List.append_nil, List.length_append, hmarks, hmarks']
    decide
  rw [hdata, hlength]
  decide

end Runs

end KmControl.WireNumbering
