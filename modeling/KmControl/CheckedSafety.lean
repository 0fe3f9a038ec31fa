import KmControl.CheckedRuns

/-!
What the reassembler keeps, whatever it is fed: no access fails, few frames are
in flight, and the lists and counters of every block fit each other.
-/
namespace KmControl.CheckedSafety

open ByteFields CheckedBlocks CheckedFrames CheckedRuns CheckedSteps CheckedVideo GsProto
  MoonVideo MoonVideoSteps

section WellFormed

/-- A block whose lists have the lengths of its header, whose slots hold payloads
of one length, and whose counters count the flags of each part. -/
structure BlockWf (len : ℕ) (blk : Block) : Prop where
  data_pos : 1 ≤ blk.dataShards
  length_slots : blk.slots.length =
    blk.dataShards + parityShardCount blk.dataShards blk.fecPercentage
  length_received : blk.received.length =
    blk.dataShards + parityShardCount blk.dataShards blk.fecPercentage
  total_le : blk.dataShards + parityShardCount blk.dataShards blk.fecPercentage ≤ maxShards
  filled : ∀ (i : ℕ) (payload : Bytes), blk.slots[i]? = some (some payload) → payload.length = len
  data : blk.receivedData.toNat = (blk.received.take blk.dataShards).count true
  parity : blk.receivedParity.toNat = (blk.received.drop blk.dataShards).count true

structure FrameWf (f : CheckedVideo.Frame) : Prop where
  places : f.blocks.length = maxFecBlocks
  blocks : ∀ (b : ℕ) (blk : Block), f.blocks[b]? = some (some blk) →
    b < f.blockCount ∧ BlockWf f.shardPayloadLen blk

structure Wf (s : State) : Prop where
  size_le : s.frames.size ≤ maxInflightFrames
  frames : ∀ k f, s.frames.find? k = some f → FrameWf f

theorem blockWf_raw {len : ℕ} {blk : BlockAsm} (h : BlockOk len blk) :
    BlockWf len (rawBlock blk) where
  data_pos := blk.data_pos
  length_slots := (length_slots blk).trans (congrArg _ h.parity_eq)
  length_received := List.length_ofFn.trans (congrArg _ h.parity_eq)
  total_le := (congrArg (blk.dataShards + ·) h.parity_eq).symm.trans_le blk.total_le
  filled := by
    intro i payload hi
    obtain ⟨hlt, hslot⟩ := List.getElem?_eq_some_iff.mp hi
    refine h.filled ⟨i, ?_⟩ payload ?_
    · exact hlt.trans_eq (length_slots blk)
    · exact (List.getElem_ofFn hlt).symm.trans hslot
  data := h.data
  parity := h.parity

theorem frameWf_raw {f : FrameAsm} (h : FrameOk f) : FrameWf (rawFrame f) where
  places := List.length_ofFn
  blocks := by
    intro b blk hblk
    obtain ⟨hlt, hplace⟩ := List.getElem?_eq_some_iff.mp hblk
    have hb : b < maxFecBlocks := hlt.trans_eq List.length_ofFn
    have hmap : (f.blocks ⟨b, hb⟩).map rawBlock = some blk :=
      (List.getElem_ofFn hlt).symm.trans hplace
    obtain ⟨typed, htyped, rfl⟩ := Option.map_eq_some_iff.mp hmap
    obtain ⟨hcount, hok⟩ := h.blocks _ typed htyped
    exact ⟨hcount, blockWf_raw hok⟩

end WellFormed

section InFlight

variable {rs : FecRs} {s : Depacketizer}

theorem size_retireAll (ks : List UInt32) :
    (ks.foldl Depacketizer.retireKey s).frames.size ≤ s.frames.size := by
  refine SortedMap.size_le_size _ _ fun k f hf => ?_
  rw [find?_retireAll] at hf
  split at hf
  · cases hf
  · exact ⟨f, hf⟩

theorem size_openSlot {sh : Shard} {now : Instant} {s' : Depacketizer}
    (hopen : s.openSlot sh now = some s') (h : s.frames.size ≤ maxInflightFrames) :
    s'.frames.size ≤ maxInflightFrames := by
  rcases openSlot_cases s hopen with ⟨-, rfl⟩ | ⟨-, hroom, rfl⟩ | ⟨-, oldest, f, hfirst, -, rfl⟩
  · exact h
  · exact (SortedMap.size_insert_le _ _ _).trans hroom
  · have hless := SortedMap.size_erase_lt (SortedMap.find?_of_first? hfirst)
    exact (SortedMap.size_insert_le _ _ _).trans (Nat.succ_le_of_lt (hless.trans_le h))

/-- Storing a shard adds no frame. -/
theorem size_store {sh : Shard} {f : FrameAsm} (hf : s.frames.find? sh.nv.frameIndex = some f) :
    (s.store rs sh).frames.size ≤ s.frames.size := by
  have hstored : (stored s rs sh f).frames.size ≤ s.frames.size := by
    refine SortedMap.size_le_size _ _ fun k g hg => ?_
    rw [find?_stored] at hg
    split at hg
    · rename_i heq
      exact ⟨f, heq ▸ hf⟩
    · exact ⟨g, hg⟩
  have hin := find?_stored_self s rs sh f
  rw [store_eq s rs hf]
  split
  · refine le_trans (SortedMap.size_le_size _ _ fun k g hg => ?_) hstored
    rw [find?_emitCompleted _ hin] at hg
    split at hg
    · rename_i heq
      exact ⟨_, heq ▸ hin⟩
    · split at hg
      · cases hg
      · exact ⟨g, hg⟩
  · exact hstored

theorem size_step (op : Op) (h : s.frames.size ≤ maxInflightFrames) :
    (MoonVideo.step rs s op).frames.size ≤ maxInflightFrames := by
  cases op with
  | push datagram now =>
    rcases push_cases s rs datagram now with hsame | ⟨sh, s', -, -, hopen, hpush⟩
    · exact (congrArg (fun s => s.frames.size) hsame).trans_le h
    · obtain ⟨f, hf⟩ := find?_of_openSlot s hopen
      refine (congrArg (fun s => s.frames.size) hpush).trans_le ?_
      exact (size_store hf).trans (size_openSlot hopen h)
  | expire now => exact (size_retireAll _).trans h

theorem size_run (ops : List Op) : ((machine rs).run ops).frames.size ≤ maxInflightFrames :=
  (machine rs).run_invariant (I := fun s => s.frames.size ≤ maxInflightFrames) (Nat.zero_le _)
    (fun _ op h => size_step op h) ops

end InFlight

/-- Whatever datagrams arrive at whatever times, no access fails and the state is
well formed. Of the code of the shards only the lengths matter. -/
theorem reassembly_safe {rs : FecRs} (hrs : rs.KeepsLengths) (ops : List Op) :
    ∃ s, State.run rs ops = some s ∧ Wf s := by
  refine ⟨_, run_raw hrs ops, (SortedMap.size_map _ _).trans_le (size_run ops), ?_⟩
  intro k f hf
  have hmap : (((machine rs).run ops).frames.find? k).map rawFrame = some f :=
    (SortedMap.find?_map rawFrame _ k).symm.trans hf
  obtain ⟨typed, htyped, rfl⟩ := Option.map_eq_some_iff.mp hmap
  exact frameWf_raw (allOk_run hrs ops k typed htyped)

/-- The first of two data shards of a frame with one parity shard. -/
def firstShard : Bytes :=
  [0x90, 0, 0, 7, 0, 0, 0, 0, 0, 0, 0, 0] ++ [0, 0, 0, 0] ++
    [0, 0, 0, 0, 5, 0, 0, 0, 0, 0, 0x10, 0, 0x20, 0x03, 0x80, 0] ++ [1, 0, 0, 1, 9, 0, 0, 0, 42]

/-- Stray bytes, a shard, and a cut copy of it that does not fit its frame. -/
def mixedTraffic : List Op :=
  [.push [] 0, .push [0x90, 1] 3, .push firstShard 5, .push (firstShard.take 40) 4, .expire 6]

theorem reassembly_safe_mixed : ∃ rs : FecRs, rs.KeepsLengths ∧
    ((machine rs).run mixedTraffic).frames.size = 1 ∧
      ∃ s, State.run rs mixedTraffic = some s ∧ Wf s := by
  obtain ⟨rs, -, hrs⟩ := FecRs.exists_lawful_keepsLengths
  exact ⟨rs, hrs, rfl, reassembly_safe hrs mixedTraffic⟩

end KmControl.CheckedSafety
