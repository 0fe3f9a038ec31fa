import KmControl.FrameDelivery

/-!
A stream of frames over a channel that keeps order and loses nothing. As long
as the frame numbers ascend, the receiver sends out every frame of the stream.
-/
namespace KmControl.StreamDelivery

open FrameDelivery FrameTracking GsProto MoonVideo MoonVideoSteps Packetizer PacketizerShards

/-- What the receiver does while the datagrams of some frames arrive in order. It
expires frames at any time between two frames and within the time budget of a
frame while that one is arriving. -/
inductive Arrives : List (List Bytes) → List Op → Prop
  | start : Arrives [] []
  | idle {frames : List (List Bytes)} {ops : List Op} (now : Instant) (h : Arrives frames ops) :
      Arrives frames (ops ++ [Op.expire now])
  | frame {frames : List (List Bytes)} {ops : List Op} (first : Bytes) (t₀ : Instant)
      (burst : List Op) (h : Arrives frames ops)
      (htimely : ∀ now, Op.expire now ∈ burst → now ≤ t₀ + assemblyBudget) :
      Arrives (frames ++ [first :: pushed burst]) (ops ++ Op.push first t₀ :: burst)

/-- A frame that the packetizer and the receiver can handle. -/
structure Sendable (f : Frame) : Prop where
  encoded : f.encodedData ≠ []
  min_size : 24 ≤ f.requestedPacketSize
  max_size : f.requestedPacketSize < 2 ^ 32
  fits : Fits f

/-- Between two frames: all in flight or retired belongs to the frames so far. -/
structure Between (numbers : List UInt32) (s : Depacketizer) : Prop where
  keyed : Keyed s
  known : ∀ k g, s.frames.find? k = some g → k ∈ numbers
  retired : ∀ j, s.isRetired j = true → ∃ k ∈ numbers, j ≤ k

variable {rs : FecRs} {numbers : List UInt32} {s : Depacketizer} {f : Frame}

theorem between_new : Between [] Depacketizer.new where
  keyed := framesAll_new
  known := fun _ _ h => by cases h
  retired := fun _ h => by cases h

theorem Between.expire (h : Between numbers s) (now : Instant) :
    Between numbers (s.expire now) ∧ sentFrames (s.expire now).events = sentFrames s.events := by
  unfold Depacketizer.expire
  refine ⟨⟨h.keyed.retireAll _, fun k g hg => ?_, fun j hj => ?_⟩, ?_⟩
  · rw [find?_retireAll] at hg
    split at hg
    · cases hg
    · exact h.known k g hg
  · rcases isRetired_retireAll s hj with hold | ⟨k, -, g, hg, hle⟩
    · exact h.retired j hold
    · rw [h.keyed k g hg] at hle
      exact ⟨k, h.known k g hg, hle⟩
  · rw [events_retireAll s (s.frames.nodup_keysWhere _), sentFrames_append]
    have hclosed : ∀ k au, VideoEvent.frame k au ∉ closings s
        (s.frames.keysWhere fun f => decide (assemblyBudget < now - f.firstSeen)) := by
      intro k au hmem
      obtain ⟨-, -, g, -, hclosing⟩ := mem_closings s hmem
      exact frame_not_mem_closingEvents g k au hclosing
    rw [sentFrames_eq_nil hclosed, List.append_nil]

/-- A newer frame whose datagrams all arrive is sent out. -/
theorem Between.frame (hrs : rs.Lawful) (h : Between numbers s) (hf : Sendable f)
    (hnewer : ∀ k ∈ numbers, k < f.frameNumber) {first : Bytes} {t₀ : Instant} {burst : List Op}
    {c c' : Counters} (hshards : packetizeFrame rs f c = some (first :: pushed burst, c'))
    (htimely : ∀ now, Op.expire now ∈ burst → now ≤ t₀ + assemblyBudget) :
    Between (numbers ++ [f.frameNumber]) ((machine rs).runFrom s (Op.push first t₀ :: burst)) ∧
      sentFrames ((machine rs).runFrom s (Op.push first t₀ :: burst)).events =
        sentFrames s.events ++ [(f.frameNumber, accessUnit f)] := by
  have hsize : nvVideoPacketSize < f.requestedPacketSize := lt_of_lt_of_le (by decide) hf.min_size
  obtain ⟨shards, hpacketize, hspec⟩ := packetizeFrame_eq f hrs c hsize
  rw [hshards, Option.some.injEq, Prod.mk.injEq] at hpacketize
  have hlist : first :: pushed burst = inOrder f shards f.nrBlocks := hpacketize.1
  have hbelow : ∀ k g, s.frames.find? k = some g → k < f.frameNumber :=
    fun k g hg => hnewer k (h.known k g hg)
  have hready : Ready f s := by
    refine ready_of_newer h.keyed hbelow (eq_false_of_ne_true fun hmark => ?_)
    obtain ⟨k, hk, hle⟩ := h.retired _ hmark
    exact absurd (hnewer k hk) (not_lt.mpr hle)
  have hduring : ∀ op ∈ burst, During f shards s t₀ op := by
    intro op hop
    cases op with
    | push datagram now =>
      change datagram ∈ inOrder f shards f.nrBlocks
      rw [← hlist]
      refine List.mem_cons_of_mem _ (List.mem_filterMap.mpr ⟨_, hop, rfl⟩)
    | expire now => exact ⟨htimely now hop, hbelow⟩
  have hfirst : first ∈ inOrder f shards f.nrBlocks := hlist ▸ List.mem_cons_self
  have henough : EnoughShards f (first :: pushed burst) := hlist ▸ enough_of_all hf.fits hspec
  obtain ⟨R, fr, hcovered, hflight⟩ := deliver hrs hf.fits
    (deliverable hf.encoded hf.min_size hf.max_size hspec) hspec hready hfirst hduring henough
  refine ⟨⟨hflight.keyed, fun k g hg => ?_, fun j hj => ?_⟩, ?_⟩
  · by_cases hk : k = f.frameNumber
    · simp [hk]
    · exact List.mem_append_left _ (h.known k g (hflight.others k g hk hg))
  · rcases hflight.retired j hj with hold | ⟨k, g, hg, -, hle⟩
    · obtain ⟨k, hk, hle⟩ := h.retired j hold
      exact ⟨k, List.mem_append_left _ hk, hle⟩
    · exact ⟨k, List.mem_append_left _ (h.known k g hg), hle⟩
  · exact (hflight.done hcovered).sentFrames_eq

/-- Every frame of an ascending stream is sent out. -/
theorem stream_delivered (hrs : rs.Lawful) (stream : List (Packetized rs))
    (hok : ∀ x ∈ stream, Sendable x.frame)
    (hascending : (stream.map fun x => x.frame.frameNumber).Pairwise (· < ·)) (ops : List Op)
    (harrives : Arrives (stream.map Packetized.shards) ops) :
    sentFrames ((machine rs).run ops).events =
      stream.map fun x => (x.frame.frameNumber, accessUnit x.frame) := by
  have hboth : Between (stream.map fun x => x.frame.frameNumber) ((machine rs).run ops) ∧
      sentFrames ((machine rs).run ops).events =
        stream.map fun x => (x.frame.frameNumber, accessUnit x.frame) := by
    generalize hframes : stream.map Packetized.shards = frames at harrives
    induction harrives generalizing stream with
    | start =>
      rw [List.map_eq_nil_iff.mp hframes]
      exact ⟨between_new, rfl⟩
    | idle now _ ih =>
      obtain ⟨hbetween, hsent⟩ := ih stream hok hascending hframes
      rw [Machine.run_concat]
      obtain ⟨hnext, hsame⟩ := hbetween.expire now
      exact ⟨hnext, hsame.trans hsent⟩
    | frame first t₀ burst _ htimely ih =>
      obtain ⟨earlier, last, rfl, hearlier, hlast⟩ := List.map_eq_append_iff.mp hframes
      obtain ⟨x, rfl, hx⟩ := List.map_eq_singleton_iff.mp hlast
      rw [List.map_append] at hascending
      obtain ⟨hbefore, -, hless⟩ := List.pairwise_append.mp hascending
      obtain ⟨hbetween, hsent⟩ := ih earlier
        (fun y hy => hok y (List.mem_append_left _ hy)) hbefore hearlier
      obtain ⟨c, c', hpacketized⟩ := x.packetized
      rw [hx] at hpacketized
      obtain ⟨hnext, hnew⟩ := hbetween.frame hrs (hok x (by simp))
        (fun k hk => hless k hk _ (by simp)) hpacketized htimely
      rw [Machine.run_append, List.map_append, List.map_append]
      exact ⟨hnext, hnew.trans (congrArg (· ++ _) hsent)⟩
  exact hboth.2

/-- The datagrams of a stream can arrive in order. -/
theorem exists_arrives (hrs : rs.Lawful) (stream : List (Packetized rs))
    (hsize : ∀ x ∈ stream, nvVideoPacketSize < x.frame.requestedPacketSize) :
    ∃ ops, Arrives (stream.map Packetized.shards) ops := by
  induction stream using List.reverseRecOn with
  | nil => exact ⟨[], Arrives.start⟩
  | append_singleton stream x ih =>
    obtain ⟨ops, hops⟩ := ih fun y hy => hsize y (List.mem_append_left _ hy)
    obtain ⟨c, c', hpacketized⟩ := x.packetized
    obtain ⟨shards, hpacketize, -⟩ := packetizeFrame_eq x.frame hrs c (hsize x (by simp))
    rw [hpacketized, Option.some.injEq, Prod.mk.injEq] at hpacketize
    have hmem : shards 0 0 ∈ x.shards := by
      rw [hpacketize.1]
      have hpos := blockDataShards_pos x.frame (nrBlocks_pos x.frame)
      exact (mem_inOrder x.frame).mpr
        ⟨0, nrBlocks_pos x.frame, 0, Nat.add_pos_left hpos _, rfl⟩
    cases hshards : x.shards with
    | nil =>
      rw [hshards] at hmem
      cases hmem
    | cons first rest =>
      have hpushed : pushed (pushes (rest.map fun s => (s, 0))) = rest := by
        rw [pushed_pushes, List.map_map]
        exact List.map_id _
      have harrives := Arrives.frame first 0 (pushes (rest.map fun s => (s, 0))) hops
        fun now hnow => by
          obtain ⟨a, -, ha⟩ := List.mem_map.mp hnow
          cases ha
      rw [hpushed, ← hshards] at harrives
      rw [List.map_append, List.map_singleton]
      exact ⟨_, harrives⟩

end KmControl.StreamDelivery
