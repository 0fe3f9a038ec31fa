import KmControl.CheckedSteps

/-!
Runs of the checked reassembler. Every operation finds what it looks up, so a
run goes through, and its state is that of the typed reassembler in lists.
-/
namespace KmControl.CheckedRuns

open ByteFields CheckedBlocks CheckedFrames CheckedSteps CheckedVideo GsProto MoonVideo
  MoonVideoSteps

/-- The lists of a typed reassembler. -/
def rawState (s : Depacketizer) : State where
  frames := s.frames.map rawFrame
  lastRetired := s.lastRetired
  events := s.events

def AllOk (s : Depacketizer) : Prop := FramesAll s fun _ f => FrameOk f

section Closing

variable {s : Depacketizer} {f : FrameAsm} {k : UInt32}

theorem find?_raw (h : s.frames.find? k = some f) :
    (rawState s).frames.find? k = some (rawFrame f) := by
  refine (SortedMap.find?_map rawFrame s.frames k).trans ?_
  rw [h]
  rfl

theorem retire_raw (h : FrameOk f) :
    State.retire (rawState s) (rawFrame f) = some (rawState (s.retire f)) := by
  have hreport := reportFec_raw f (!f.delivered) h.count_le
  rw [retire_eq]
  refine (congrArg (Option.bind · _) hreport).trans ?_
  rw [Option.bind_some, closingEvents, ← List.append_assoc]
  rfl

theorem retireKey_raw (h : s.frames.find? k = some f) (hok : FrameOk f) :
    State.retireKey (rawState s) k = some (rawState (s.retireKey k)) := by
  have herase : (rawState s).frames.erase k = (s.frames.erase k).map rawFrame :=
    (SortedMap.map_erase rawFrame s.frames k).symm
  unfold State.retireKey Depacketizer.retireKey
  rw [find?_raw h, h, herase]
  exact retire_raw (s := { s with frames := s.frames.erase k }) hok

/-- Closing several frames, each of them in flight. -/
theorem retireAll_raw {ks : List UInt32} (hnodup : ks.Nodup)
    (hin : ∀ k ∈ ks, ∃ f, s.frames.find? k = some f) (hok : AllOk s) :
    ks.foldlM State.retireKey (rawState s) =
      some (rawState (ks.foldl Depacketizer.retireKey s)) := by
  induction ks generalizing s with
  | nil => rfl
  | cons k rest ih =>
    obtain ⟨hk, hrest⟩ := List.nodup_cons.mp hnodup
    obtain ⟨f, hf⟩ := hin k List.mem_cons_self
    have hlater : ∀ k' ∈ rest, ∃ f, (s.retireKey k).frames.find? k' = some f := by
      intro k' hk'
      have hne : k' ≠ k := fun heq => hk (heq ▸ hk')
      rw [find?_retireKey, if_neg hne]
      exact hin k' (List.mem_cons_of_mem _ hk')
    rw [List.foldlM_cons, retireKey_raw hf (hok k f hf), List.foldl_cons]
    exact ih hrest hlater (FramesAll.retireAll hok [k])

theorem emitCompleted_raw (h : s.frames.find? k = some f) (hok : AllOk s) :
    State.emitCompleted (rawState s) k = some (rawState (s.emitCompleted k)) := by
  have hbelow : (rawState s).frames.below k = s.frames.below k :=
    SortedMap.below_map rawFrame s.frames k
  have hclosed := retireAll_raw (s.frames.nodup_below k)
    (fun k' hk' => ((SortedMap.mem_below_iff _ _ _).mp hk').2) hok
  have hkept : ((s.frames.below k).foldl Depacketizer.retireKey s).frames.find? k = some f := by
    rw [find?_retireBelow, if_neg (lt_irrefl k), h]
  have hassemble : (rawFrame { f with delivered := true }).assemble = some f.assemble :=
    assemble_raw { f with delivered := true } (hok k f h).count_le
  have hinsert : (((s.frames.below k).foldl Depacketizer.retireKey s).frames.map rawFrame).insert k
      (rawFrame { f with delivered := true }) = _ := (SortedMap.map_insert rawFrame _ k _).symm
  rw [emitCompleted_eq s h]
  unfold State.emitCompleted
  rw [hbelow, hclosed]
  simp only [Option.bind_eq_bind, Option.bind_some]
  rw [find?_raw hkept, Option.bind_some]
  refine (congrArg (Option.bind · _) hassemble).trans ?_
  rw [Option.bind_some, completionEvent]
  cases f.assemble with
  | none => exact congrArg (fun frames => some (State.mk frames _ _)) hinsert
  | some au => exact congrArg (fun frames => some (State.mk frames _ _)) hinsert

end Closing

section Arrival

variable {rs : FecRs} {s : Depacketizer} {sh : Shard}

theorem insert_raw (f : FrameAsm) (k : UInt32) :
    { rawState s with frames := (rawState s).frames.insert k (rawFrame f) } =
      rawState { s with frames := s.frames.insert k f } := by
  have hinsert := SortedMap.map_insert rawFrame s.frames k f
  exact congrArg (fun frames => State.mk frames s.lastRetired s.events) hinsert.symm

theorem openSlot_raw (now : Instant) (hok : AllOk s) :
    State.openSlot (rawState s) sh.nv sh.payload.length now =
      some ((s.openSlot sh now).map rawState) := by
  have hfresh : Frame.new sh.nv.frameIndex sh.nv.blockCount sh.payload.length now =
      rawFrame (freshFrame sh now) := by
    unfold Frame.new rawFrame freshFrame FrameAsm.new
    rw [← List.ofFn_const]
    rfl
  have hfind : ((rawState s).frames.find? sh.nv.frameIndex).isSome =
      (s.frames.find? sh.nv.frameIndex).isSome := by
    refine (congrArg Option.isSome (SortedMap.find?_map rawFrame s.frames _)).trans ?_
    exact Option.isSome_map
  have hsize : (rawState s).frames.size = s.frames.size := SortedMap.size_map rawFrame s.frames
  have hfirst : (rawState s).frames.first? = s.frames.first?.map fun e => (e.1, rawFrame e.2) :=
    SortedMap.first?_map rawFrame s.frames
  unfold State.openSlot Depacketizer.openSlot
  simp only [hfresh, hfind, hsize, hfirst]
  by_cases hheld : (s.frames.find? sh.nv.frameIndex).isSome = true
  · rw [if_pos hheld, if_pos hheld]
    rfl
  rw [if_neg hheld, if_neg hheld]
  by_cases hfull : maxInflightFrames ≤ s.frames.size
  · rw [if_pos hfull, if_pos hfull]
    cases holdest : s.frames.first? with
    | none =>
      have hzero := (SortedMap.first?_eq_none_iff s.frames).mp holdest
      rw [hzero] at hfull
      exact absurd hfull (by decide)
    | some entry =>
      obtain ⟨oldest, f⟩ := entry
      have hin := SortedMap.find?_of_first? holdest
      simp only [Option.map_some, Option.bind_eq_bind, Option.bind_some]
      by_cases holder : sh.nv.frameIndex < oldest
      · rw [if_pos holder, if_pos holder]
        rfl
      rw [if_neg holder, if_neg holder, retireKey_raw hin (hok oldest f hin), Option.bind_some]
      refine congrArg (some ∘ some) ?_
      rw [insert_raw]
      unfold Depacketizer.retireKey
      rw [hin]
      rfl
  · rw [if_neg hfull, if_neg hfull]
    exact congrArg (some ∘ some) (insert_raw _ _)

theorem store_raw {datagram : Bytes} (hlen : payloadOffset ≤ datagram.length)
    (hpayload : sh.payload = datagram.drop payloadOffset) (hrs : rs.KeepsLengths) (hok : AllOk s)
    {f : FrameAsm} (hf : s.frames.find? sh.nv.frameIndex = some f) :
    State.store rs (rawState s) sh.rtp sh.nv datagram sh.payload.length =
      some (rawState (s.store rs sh)) := by
  have hf' := hok _ f hf
  have habsorb := absorb_raw rs hlen hpayload hf'
  have hstored : AllOk (stored s rs sh f) := FramesAll.stored (frameRule hrs) hok trivial hf
  have hin := find?_stored_self s rs sh f
  have hcomplete := complete_raw (f.absorb rs sh).1 (hf'.absorb hrs).count_le
  rw [store_eq s rs hf]
  unfold State.store
  rw [find?_raw hf]
  simp only [Option.bind_eq_bind, Option.bind_some, habsorb, rawResult, insert_raw]
  by_cases hfresh : (f.absorb rs sh).2 = true
  · rw [if_pos hfresh, hcomplete, Option.bind_some]
    by_cases hdone : (f.absorb rs sh).1.complete = true
    · rw [if_pos hdone, if_pos ⟨hfresh, hdone⟩]
      exact emitCompleted_raw hin hstored
    · rw [if_neg hdone, if_neg fun h => hdone h.2]
      rfl
  · rw [if_neg hfresh, if_neg fun h => hfresh h.1]
    rfl

theorem accept_raw {datagram : Bytes} (hlen : payloadOffset ≤ datagram.length)
    (hpayload : sh.payload = datagram.drop payloadOffset) (hrs : rs.KeepsLengths) (hok : AllOk s)
    (now : Instant) :
    State.accept rs (rawState s) sh.rtp sh.nv datagram sh.payload.length now =
      some (rawState (if s.isRetired sh.nv.frameIndex then s
        else match s.openSlot sh now with
          | some s => s.store rs sh
          | none => s)) := by
  unfold State.accept
  by_cases hretired : s.isRetired sh.nv.frameIndex = true
  · rw [if_pos hretired]
    exact if_pos hretired
  rw [if_neg hretired]
  refine (if_neg hretired).trans ?_
  rw [openSlot_raw now hok]
  cases hopen : s.openSlot sh now with
  | none => rfl
  | some s' =>
    obtain ⟨f, hf⟩ := find?_of_openSlot s hopen
    exact store_raw hlen hpayload hrs (FramesAll.openSlot (frameRule hrs) hok trivial hopen) hf

/-- The header checks of the two reassemblers agree. -/
theorem push_raw (hrs : rs.KeepsLengths) (hok : AllOk s) (datagram : Bytes) (now : Instant) :
    State.push rs (rawState s) datagram now = some (rawState (s.push rs datagram now)) := by
  unfold State.push Depacketizer.push parseShard shardPayloadLen
  by_cases hlong : payloadOffset < datagram.length
  · have hbyte : datagram[0]? = some (byteAt datagram 0) :=
      getElem?_byteAt ((Nat.zero_le _).trans_lt hlong)
    rw [if_pos hlong, dif_pos hlong]
    simp only [Option.bind_eq_bind, hbyte, Option.bind_some, readRtp_eq, readNvFromShard_eq]
    by_cases hversion : byteAt datagram 0 ≠ rtpVersionFlags
    · rw [if_pos hversion, if_pos hversion]
    rw [if_neg hversion, if_neg hversion]
    cases hrtp : RtpHeader.read datagram with
    | none => rfl
    | some rtp =>
      cases hnv : NvVideoPacket.readFromShard datagram with
      | none => rfl
      | some nv =>
        have hlen : datagram.length - payloadOffset = (datagram.drop payloadOffset).length :=
          List.length_drop.symm
        have hpos : 0 < (datagram.drop payloadOffset).length := by omega
        simp only
        by_cases hchecks : nv.blockIndex < nv.blockCount ∧ 0 < nv.dataShards ∧
            nv.dataShards ≤ maxShards ∧ nv.shardIndex < maxShards
        · have hpass : ¬(nv.blockCount ≤ nv.blockIndex ∨ nv.dataShards = 0 ∨
              maxShards < nv.dataShards ∨ maxShards ≤ nv.shardIndex) := by omega
          rw [if_neg hpass, dif_pos hchecks, hlen]
          exact @accept_raw rs s ⟨rtp, nv, _, hpos, hchecks.1, hchecks.2.1, hchecks.2.2.1,
            hchecks.2.2.2⟩ datagram hlong.le rfl hrs hok now
        · have hfail : nv.blockCount ≤ nv.blockIndex ∨ nv.dataShards = 0 ∨
              maxShards < nv.dataShards ∨ maxShards ≤ nv.shardIndex := by omega
          rw [if_pos hfail, dif_neg hchecks]
  · rw [if_neg hlong, dif_neg hlong]

theorem expire_raw (hok : AllOk s) (now : Instant) :
    State.expire (rawState s) now = some (rawState (s.expire now)) := by
  have hstale := SortedMap.keysWhere_map rawFrame s.frames
    fun f => decide (assemblyBudget < now - f.firstSeen)
  unfold State.expire
  refine (congrArg (List.foldlM State.retireKey (rawState s) ·) hstale).trans ?_
  refine retireAll_raw (s.frames.nodup_keysWhere _) (fun k hk => ?_) hok
  obtain ⟨f, hf, -⟩ := (SortedMap.mem_keysWhere_iff _ _ _).mp hk
  exact ⟨f, hf⟩

theorem step_raw (hrs : rs.KeepsLengths) (hok : AllOk s) (op : Op) :
    State.step rs (rawState s) op = some (rawState (MoonVideo.step rs s op)) := by
  cases op with
  | push datagram now => exact push_raw hrs hok datagram now
  | expire now => exact expire_raw hok now

theorem allOk_run (hrs : rs.KeepsLengths) (ops : List Op) : AllOk ((machine rs).run ops) :=
  (run_frames (frameRule hrs) ops fun _ _ _ _ _ => trivial).1

/-- No run faults, and each ends with the typed reassembler's state. -/
theorem run_raw (hrs : rs.KeepsLengths) (ops : List Op) :
    State.run rs ops = some (rawState ((machine rs).run ops)) := by
  induction ops using List.reverseRecOn with
  | nil => rfl
  | append_singleton ops op ih =>
    unfold State.run at ih ⊢
    rw [List.foldlM_append, ih, Machine.run_concat]
    refine (Option.bind_some _ _).trans ?_
    rw [List.foldlM_cons, step_raw hrs (allOk_run hrs ops) op]
    rfl

end Arrival

end KmControl.CheckedRuns
