import KmControl.FrameTracking
import KmControl.MoonVideoSteps

/-!
What a reassembler does with the shards of one frame, from any state in which
the frame can get its slot. Frames already in flight may be closed meanwhile;
the frame itself is sent out once, when enough shards of every block are there.
-/
namespace KmControl.FrameDelivery

open BlockTracking ByteFields FrameTracking GsProto MoonVideo MoonVideoSteps Packetizer
  PacketizerShards

/-- The payload of shard `i` of a block. -/
def payloadsOf (shards : ℕ → ℕ → Bytes) (b i : ℕ) : Bytes := (shards b i).drop payloadOffset

/-- The shards of a frame as its receiver needs them. -/
structure Deliverable (rs : FecRs) (f : Frame) (payloads : ℕ → ℕ → Bytes) : Prop where
  encoded : f.encodedData ≠ []
  min_size : 24 ≤ f.requestedPacketSize
  max_size : f.requestedPacketSize < 2 ^ 32
  code : ∀ b, b < f.nrBlocks → CodeBlock rs (payloads b) f.shardPayloadSize
    (f.blockDataShards b) (f.blockParity b)
  data : ∀ b k, b < f.nrBlocks → k < f.blockDataShards b →
    payloads b k = payload f (f.blockStart b + k)

/-- Events that close frames in flight in the state `base`. -/
def ClosesOnly (base : Depacketizer) (evs : List VideoEvent) : Prop :=
  ∀ ev ∈ evs, ∃ k g, base.frames.find? k = some g ∧ ev ∈ closingEvents g

/-- The queue has grown by `sent` and by closing events of earlier frames. -/
def Queue (base : Depacketizer) (sent evs : List VideoEvent) : Prop :=
  ∃ pre post, ClosesOnly base pre ∧ ClosesOnly base post ∧
    evs = base.events ++ pre ++ sent ++ post

/-- A state in which the first shard of the frame opens its slot. -/
structure Ready (f : Frame) (base : Depacketizer) : Prop where
  keyed : Keyed base
  absent : base.frames.find? f.frameNumber = none
  admitted : admits base f.frameNumber = true

/-- The frame is in flight since `t₀` and has received the shards in `R`. -/
structure InFlight (f : Frame) (payloads : ℕ → ℕ → Bytes) (base : Depacketizer) (t₀ : Instant)
    (R : ℕ → Finset ℕ) (fr : FrameAsm) (s : Depacketizer) : Prop where
  keyed : Keyed s
  found : s.frames.find? f.frameNumber = some fr
  others : ∀ k g, k ≠ f.frameNumber → s.frames.find? k = some g →
    base.frames.find? k = some g
  fresh : base.isRetired f.frameNumber = false
  retired : ∀ j, s.isRetired j = true → base.isRetired j = true ∨
    ∃ k g, base.frames.find? k = some g ∧ k < f.frameNumber ∧ j ≤ k
  seen : fr.firstSeen = t₀
  tracks : FrameTracks f payloads R fr
  delivered_iff : fr.delivered = true ↔ Covered f R
  done : Covered f R → Queue base [VideoEvent.frame f.frameNumber (accessUnit f)] s.events
  pending : ¬ Covered f R → Queue base [] s.events

theorem ready_new (f : Frame) : Ready f Depacketizer.new where
  keyed := framesAll_new
  absent := rfl
  admitted := rfl

/-- A frame newer than all that are in flight can get its slot. -/
theorem ready_of_newer {f : Frame} {base : Depacketizer} (hkeyed : Keyed base)
    (hnewer : ∀ k g, base.frames.find? k = some g → k < f.frameNumber)
    (hretired : base.isRetired f.frameNumber = false) : Ready f base := by
  refine ⟨hkeyed, ?_, ?_⟩
  · refine Option.eq_none_iff_forall_ne_some.mpr fun g hg => ?_
    exact lt_irrefl _ (hnewer _ g hg)
  · unfold admits
    rw [hretired]
    by_cases hsize : base.frames.size < maxInflightFrames
    · simp [hsize]
    · cases hfirst : base.frames.first? with
      | none =>
        have hzero := (SortedMap.first?_eq_none_iff _).mp hfirst
        rw [hzero] at hsize
        exact absurd (by decide) hsize
      | some oldest =>
        have hlt := hnewer oldest.1 oldest.2 (SortedMap.find?_of_first? hfirst)
        simp [hlt.le]

section Queue

variable {base : Depacketizer} {sent evs more : List VideoEvent}

theorem ClosesOnly.append (h : ClosesOnly base evs) (hmore : ClosesOnly base more) :
    ClosesOnly base (evs ++ more) := by
  intro ev hev
  rcases List.mem_append.mp hev with hold | hnew
  · exact h ev hold
  · exact hmore ev hnew

theorem queue_nil (base : Depacketizer) : Queue base [] base.events :=
  ⟨[], [], fun _ hev => absurd hev List.not_mem_nil, fun _ hev => absurd hev List.not_mem_nil,
    by simp⟩

theorem queue_start (h : ClosesOnly base more) : Queue base [] (base.events ++ more) :=
  ⟨more, [], h, fun _ hev => absurd hev List.not_mem_nil, by simp⟩

theorem Queue.close (h : Queue base sent evs) (hmore : ClosesOnly base more) :
    Queue base sent (evs ++ more) := by
  obtain ⟨pre, post, hpre, hpost, rfl⟩ := h
  exact ⟨pre, post ++ more, hpre, hpost.append hmore, List.append_assoc _ _ _⟩

theorem Queue.send (h : Queue base [] evs) (ev : VideoEvent) : Queue base [ev] (evs ++ [ev]) := by
  obtain ⟨pre, post, hpre, hpost, rfl⟩ := h
  refine ⟨pre ++ post, [], hpre.append hpost, fun _ hev => absurd hev List.not_mem_nil, ?_⟩
  simp

theorem ClosesOnly.sentFrames_eq (h : ClosesOnly base evs) : sentFrames evs = [] := by
  refine sentFrames_eq_nil fun k au hmem => ?_
  obtain ⟨_, g, -, hclosing⟩ := h _ hmem
  exact frame_not_mem_closingEvents g k au hclosing

/-- Closing earlier frames sends nothing out. -/
theorem Queue.sentFrames_eq (h : Queue base sent evs) :
    sentFrames evs = sentFrames base.events ++ sentFrames sent := by
  obtain ⟨pre, post, hpre, hpost, rfl⟩ := h
  simp only [sentFrames_append, hpre.sentFrames_eq, hpost.sentFrames_eq, List.append_nil]

/-- Without earlier frames nothing but `sent` has been added. -/
theorem Queue.eq_of_empty (h : Queue base sent evs) (hempty : ∀ k, base.frames.find? k = none) :
    evs = base.events ++ sent := by
  have hnil : ∀ l, ClosesOnly base l → l = [] := by
    intro l hl
    refine List.eq_nil_iff_forall_not_mem.mpr fun ev hev => ?_
    obtain ⟨k, g, hg, -⟩ := hl ev hev
    rw [hempty k] at hg
    cases hg
  obtain ⟨pre, post, hpre, hpost, rfl⟩ := h
  rw [hnil pre hpre, hnil post hpost, List.append_nil, List.append_nil]

end Queue

section Push

variable {rs : FecRs} {f : Frame} {payloads : ℕ → ℕ → Bytes} {base : Depacketizer}
  {t₀ : Instant} {R : ℕ → Finset ℕ} {s : Depacketizer} {fr : FrameAsm}

theorem not_covered_empty (f : Frame) : ¬ Covered f fun _ => ∅ := by
  intro h
  have hpos := blockDataShards_pos f (nrBlocks_pos f)
  have hcard := h 0 (nrBlocks_pos f)
  rw [Finset.card_empty] at hcard
  omega

/-- Closing other frames than this one is closing frames of `base`. -/
theorem InFlight.closesOnly (h : InFlight f payloads base t₀ R fr s) {ks : List UInt32}
    (hks : f.frameNumber ∉ ks) : ClosesOnly base (closings s ks) := by
  intro ev hev
  obtain ⟨k, hk, g, hg, hmem⟩ := mem_closings s hev
  have hne : k ≠ f.frameNumber := fun heq => hks (heq ▸ hk)
  exact ⟨k, g, h.others k g hne hg, hmem⟩

theorem InFlight.unretired (h : InFlight f payloads base t₀ R fr s) :
    s.isRetired f.frameNumber = false := by
  refine eq_false_of_ne_true fun hmark => ?_
  rcases h.retired _ hmark with hold | ⟨k, g, -, hlt, hle⟩
  · exact Bool.false_ne_true (h.fresh.symm.trans hold)
  · exact absurd hlt (not_lt.mpr hle)

/-- Closing older frames retires nothing above them. -/
theorem InFlight.retired_closed (h : InFlight f payloads base t₀ R fr s) {ks : List UInt32}
    (hks : ∀ k ∈ ks, ∀ g, s.frames.find? k = some g → k < f.frameNumber) {j : UInt32}
    (hj : (ks.foldl Depacketizer.retireKey s).isRetired j = true) : base.isRetired j = true ∨
      ∃ k g, base.frames.find? k = some g ∧ k < f.frameNumber ∧ j ≤ k := by
  rcases isRetired_retireAll s hj with hold | ⟨k, hk, g, hg, hle⟩
  · exact h.retired j hold
  · have hlt := hks k hk g hg
    rw [h.keyed k g hg] at hle
    exact Or.inr ⟨k, g, h.others k g hlt.ne hg, hlt, hle⟩

/-- The first shard opens the frame's slot. -/
theorem openSlot_inFlight (rs : FecRs) (hready : Ready f base) {sh : Shard} {b i : ℕ} {p : Bytes}
    (hsh : SentShard f b i p sh) (hp : p.length = f.shardPayloadSize) (now : Instant) :
    ∃ s' fr, base.openSlot sh now = some s' ∧
      InFlight f payloads base now (fun _ => ∅) fr s' := by
  obtain ⟨hkeyed, habsent, hadmitted⟩ := hready
  have hindex := hsh.frameIndex
  rw [← hindex] at hadmitted
  obtain ⟨hretired, s', hopen⟩ := (admits_iff base sh now).mp hadmitted
  have hfresh : freshFrame sh now =
      FrameAsm.new f.frameNumber f.nrBlocks f.shardPayloadSize now := by
    unfold freshFrame
    rw [hindex, hsh.blockCount, hsh.payload_eq, hp]
  have hkeyed' := FramesAll.openSlot (keyRule rs) hkeyed trivial hopen
  refine ⟨s', freshFrame sh now, hopen, ?_⟩
  have htracks : FrameTracks f payloads (fun _ => ∅) (freshFrame sh now) :=
    hfresh ▸ frameTracks_new now
  have hundelivered : (freshFrame sh now).delivered = true ↔ Covered f fun _ => ∅ :=
    iff_of_false Bool.false_ne_true (not_covered_empty f)
  have hdone : Covered f (fun _ => ∅) →
      Queue base [VideoEvent.frame f.frameNumber (accessUnit f)] s'.events :=
    fun hcovered => absurd hcovered (not_covered_empty f)
  have hothers : ∀ k g, k ≠ f.frameNumber → s'.frames.find? k = some g →
      base.frames.find? k = some g := by
    rw [← hindex]
    exact fun k g hne hg => find?_of_openSlot_ne base hopen hne hg
  rcases openSlot_cases base hopen with
    ⟨⟨g, hg⟩, -⟩ | ⟨-, -, rfl⟩ | ⟨-, oldest, g, hfirst, hlt, rfl⟩
  · rw [hindex, habsent] at hg
    cases hg
  · refine ⟨hkeyed', ?_, hothers, hindex ▸ hretired, fun _ => Or.inl, rfl, htracks,
      hundelivered, hdone, fun _ => ?_⟩
    · rw [SortedMap.find?_insert, hindex, if_pos rfl]
    · exact queue_nil base
  · have hold := SortedMap.find?_of_first? hfirst
    refine ⟨hkeyed', ?_, hothers, hindex ▸ hretired, ?_, rfl, htracks, hundelivered, hdone,
      fun _ => ?_⟩
    · rw [SortedMap.find?_insert, hindex, if_pos rfl]
    · intro j hmark
      rcases (any_raise _ _ _).mp hmark with hmark | hle
      · exact Or.inl hmark
      · rw [hkeyed oldest g hold] at hle
        exact Or.inr ⟨oldest, g, hold, hindex ▸ hlt, hle⟩
    · exact queue_start fun ev hev => ⟨oldest, g, hold, hev⟩

/-- Storing a shard of the frame adds it; the frame goes out when it gets covered. -/
theorem store_inFlight (hrs : rs.Lawful) (hdel : Deliverable rs f payloads)
    (h : InFlight f payloads base t₀ R fr s) {b i : ℕ} (hb : b < f.nrBlocks)
    (hi : i < f.blockTotal b) {sh : Shard} (hsh : SentShard f b i (payloads b i) sh) :
    ∃ fr', InFlight f payloads base t₀ (receive R b i) fr' (s.store rs sh) := by
  have hindex := hsh.frameIndex
  have hfind : s.frames.find? sh.nv.frameIndex = some fr := by
    rw [hindex, h.found]
  obtain ⟨htracks, hkept, hfresh, hstale⟩ := h.tracks.absorb hrs h.delivered_iff.mp hb hi
    (hdel.code b hb) hsh
  have hmono : Covered f R → Covered f (receive R b i) :=
    fun hcovered => hcovered.mono (subset_receive R b i)
  have hseen : (fr.absorb rs sh).1.firstSeen = t₀ := (absorb_firstSeen rs fr sh).trans h.seen
  have hkeyed' := FramesAll.store (keyRule rs) h.keyed trivial hfind
  have hself : (stored s rs sh fr).frames.find? f.frameNumber = some (fr.absorb rs sh).1 := by
    rw [find?_stored, hindex, if_pos rfl]
  have hother : ∀ k, k ≠ f.frameNumber →
      (stored s rs sh fr).frames.find? k = s.frames.find? k := by
    intro k hne
    rw [find?_stored, hindex, if_neg hne]
  rw [store_eq s rs hfind] at hkeyed' ⊢
  by_cases hout : (fr.absorb rs sh).2 = true ∧ (fr.absorb rs sh).1.complete = true
  · -- The shard completes the frame: it is delivered now and was not before.
    have hcovered := htracks.complete_iff.mp hout.2
    have hbefore : ¬ Covered f R := by
      rw [← h.delivered_iff, hfresh hout.1]
      exact Bool.false_ne_true
    have hassemble := htracks.assemble_eq hcovered hdel.encoded hdel.min_size hdel.max_size
      hdel.data
    have hbelow : f.frameNumber ∉ (stored s rs sh fr).frames.below f.frameNumber :=
      fun hmem => lt_irrefl _ ((SortedMap.mem_below_iff _ _ _).mp hmem).1
    have hclosings : closings (stored s rs sh fr)
        ((stored s rs sh fr).frames.below f.frameNumber) =
          closings s ((stored s rs sh fr).frames.below f.frameNumber) := by
      refine List.flatMap_congr fun k hk => ?_
      have hne : k ≠ f.frameNumber := fun heq => hbelow (heq ▸ hk)
      rw [hother k hne]
    rw [if_pos hout, hindex] at hkeyed' ⊢
    have hslots := find?_emitCompleted _ hself
    refine ⟨{ (fr.absorb rs sh).1 with delivered := true },
      ⟨hkeyed', ?_, ?_, h.fresh, ?_, hseen, ?_, ?_, fun _ => ?_, ?_⟩⟩
    · rw [hslots, if_pos rfl]
    · intro k g hne hg
      rw [hslots, if_neg hne] at hg
      split at hg
      · cases hg
      · rw [hother k hne] at hg
        exact h.others k g hne hg
    · intro j hmark
      rw [emitCompleted_eq _ hself] at hmark
      rcases isRetired_retireAll _ hmark with hold | ⟨k, hk, g, hg, hle⟩
      · exact h.retired j hold
      · obtain ⟨hlt, -⟩ := (SortedMap.mem_below_iff _ _ _).mp hk
        rw [hother k hlt.ne] at hg
        rw [h.keyed k g hg] at hle
        exact Or.inr ⟨k, g, h.others k g hlt.ne hg, hlt, hle⟩
    · exact ⟨htracks.blockCount_eq, htracks.payloadLen_eq, htracks.block_none,
        htracks.block_some⟩
    · exact iff_of_true rfl hcovered
    · have hevent : completionEvent f.frameNumber (fr.absorb rs sh).1 =
          VideoEvent.frame f.frameNumber (accessUnit f) := by
        unfold completionEvent
        rw [hassemble]
      rw [events_emitCompleted _ hself, hclosings, hevent]
      exact ((h.pending hbefore).close (h.closesOnly hbelow)).send _
    · exact fun hnot => absurd hcovered hnot
  · -- Otherwise coverage has not changed and nothing is sent out.
    have hsame : Covered f (receive R b i) → Covered f R := by
      intro hcovered
      cases hflag : (fr.absorb rs sh).2 with
      | true => exact absurd ⟨hflag, htracks.complete_iff.mpr hcovered⟩ hout
      | false =>
        rcases hstale hflag with hdelivered | heq
        · exact h.delivered_iff.mp hdelivered
        · rwa [heq] at hcovered
    rw [if_neg hout] at hkeyed' ⊢
    refine ⟨(fr.absorb rs sh).1, ⟨hkeyed', hself, ?_, h.fresh, h.retired, hseen, htracks,
      ?_, ?_, ?_⟩⟩
    · intro k g hne hg
      rw [hother k hne] at hg
      exact h.others k g hne hg
    · rw [hkept, h.delivered_iff]
      exact ⟨hmono, hsame⟩
    · exact fun hcovered => h.done (hsame hcovered)
    · exact fun hnot => h.pending fun hcovered => hnot (hmono hcovered)

/-- The first datagram of the frame. -/
theorem first_inFlight (hrs : rs.Lawful) (hdel : Deliverable rs f payloads)
    (hready : Ready f base) {b i : ℕ} (hb : b < f.nrBlocks) (hi : i < f.blockTotal b)
    {datagram : Bytes} {sh : Shard} (hparse : parseShard datagram = some sh)
    (hsh : SentShard f b i (payloads b i) sh) (now : Instant) :
    ∃ fr, InFlight f payloads base now (receive (fun _ => ∅) b i) fr
      (base.push rs datagram now) := by
  have hlen := (hdel.code b hb).length_eq i hi
  obtain ⟨s', fr, hopen, hflight⟩ := openSlot_inFlight rs hready hsh hlen now
  have hadmitted : admits base sh.nv.frameIndex = true := hsh.frameIndex ▸ hready.admitted
  have hretired := ((admits_iff base sh now).mp hadmitted).1
  rw [push_eq_store base rs hparse hretired hopen]
  exact store_inFlight hrs hdel hflight hb hi hsh

/-- Every further datagram of the frame adds its shard to the received set. -/
theorem InFlight.push (hrs : rs.Lawful) (hdel : Deliverable rs f payloads)
    (h : InFlight f payloads base t₀ R fr s) {b i : ℕ} (hb : b < f.nrBlocks)
    (hi : i < f.blockTotal b) {datagram : Bytes} {sh : Shard}
    (hparse : parseShard datagram = some sh) (hsh : SentShard f b i (payloads b i) sh)
    (now : Instant) :
    ∃ fr', InFlight f payloads base t₀ (receive R b i) fr' (s.push rs datagram now) := by
  have hopen : s.openSlot sh now = some s := by
    unfold Depacketizer.openSlot
    rw [hsh.frameIndex, h.found]
    rfl
  have hretired : s.isRetired sh.nv.frameIndex = false := hsh.frameIndex ▸ h.unretired
  rw [push_eq_store s rs hparse hretired hopen]
  exact store_inFlight hrs hdel h hb hi hsh

/-- Within the time budget the frame stays in flight; others may be closed. -/
theorem InFlight.expire (hbelow : ∀ k g, base.frames.find? k = some g → k < f.frameNumber)
    (h : InFlight f payloads base t₀ R fr s) {now : Instant} (hnow : now ≤ t₀ + assemblyBudget) :
    InFlight f payloads base t₀ R fr (s.expire now) := by
  have hfresh : ∀ k g, s.frames.find? k = some g → k ∈ s.frames.keysWhere
      (fun g => decide (assemblyBudget < now - g.firstSeen)) →
        assemblyBudget < now - g.firstSeen := by
    intro k g hg hk
    obtain ⟨g', hg', hlate⟩ := (SortedMap.mem_keysWhere_iff _ _ _).mp hk
    rw [hg] at hg'
    cases hg'
    exact of_decide_eq_true hlate
  have hkept : f.frameNumber ∉ s.frames.keysWhere
      (fun g => decide (assemblyBudget < now - g.firstSeen)) := by
    intro hmem
    have hlate := hfresh _ _ h.found hmem
    rw [h.seen] at hlate
    exact absurd hlate (not_lt.mpr (Nat.sub_le_iff_le_add'.mpr hnow))
  have hevents := events_retireAll s
    (s.frames.nodup_keysWhere fun g => decide (assemblyBudget < now - g.firstSeen))
  have hclosed := h.closesOnly hkept
  unfold Depacketizer.expire
  refine ⟨h.keyed.retireAll _, ?_, ?_, h.fresh, ?_, h.seen, h.tracks, h.delivered_iff, ?_, ?_⟩
  · rw [find?_retireAll, if_neg hkept, h.found]
  · intro k g hne hg
    rw [find?_retireAll] at hg
    split at hg
    · cases hg
    · exact h.others k g hne hg
  · intro j hmark
    refine h.retired_closed (fun k hk g hg => ?_) hmark
    have hne : k ≠ f.frameNumber := fun heq => hkept (heq ▸ hk)
    exact hbelow k g (h.others k g hne hg)
  · intro hcovered
    rw [hevents]
    exact (h.done hcovered).close hclosed
  · intro hnot
    rw [hevents]
    exact (h.pending hnot).close hclosed

end Push

/-- After the first frame of all, any other frame can get its slot. -/
theorem InFlight.ready_other {f : Frame} {payloads : ℕ → ℕ → Bytes} {t₀ : Instant}
    {R : ℕ → Finset ℕ} {fr : FrameAsm} {s : Depacketizer}
    (h : InFlight f payloads Depacketizer.new t₀ R fr s) (f' : Frame)
    (hne : f'.frameNumber ≠ f.frameNumber) : Ready f' s := by
  have honly : ∀ k g, s.frames.find? k = some g → k ∈ [f.frameNumber] := by
    intro k g hg
    by_contra hk
    cases h.others k g (fun heq => hk (heq ▸ List.mem_singleton_self _)) hg
  have hretired : s.isRetired f'.frameNumber = false := by
    refine eq_false_of_ne_true fun hmark => ?_
    rcases h.retired _ hmark with hold | ⟨k, g, hg, -⟩
    · cases hold
    · cases hg
  have hsize := s.frames.size_le _ honly
  refine ⟨h.keyed, Option.eq_none_iff_forall_ne_some.mpr fun g hg => ?_, ?_⟩
  · exact hne (List.mem_singleton.mp (honly _ g hg))
  · unfold admits
    rw [hretired]
    have hroom : s.frames.size < maxInflightFrames := hsize.trans_lt (show 1 < 4 by omega)
    simp [hroom]

section Arrivals

variable {rs : FecRs} {f : Frame} {c : Counters} {shards : ℕ → ℕ → Bytes}

/-- Of every block at least as many distinct datagrams arrive as it has data shards. -/
def EnoughShards (f : Frame) (datagrams : List Bytes) : Prop :=
  ∀ b, b < f.nrBlocks → f.blockDataShards b ≤
    (datagrams.filter fun s => decide (headerBlock s = some b)).dedup.length

def pushes (arrivals : List (Bytes × Instant)) : List Op :=
  arrivals.map fun a => Op.push a.1 a.2

theorem pushes_append (sent more : List Bytes) (t₀ : Instant) :
    pushes ((sent ++ more).map fun s => (s, t₀)) =
      pushes (sent.map fun s => (s, t₀)) ++ pushes (more.map fun s => (s, t₀)) := by
  simp only [pushes, List.map_append]

/-- The datagrams that operations push. -/
def pushed (ops : List Op) : List Bytes :=
  ops.filterMap fun
    | .push datagram _ => some datagram
    | .expire _ => none

theorem pushed_pushes (arrivals : List (Bytes × Instant)) :
    pushed (pushes arrivals) = arrivals.map Prod.fst := by
  induction arrivals with
  | nil => rfl
  | cons a rest ih => exact congrArg (a.1 :: ·) ih

/-- An operation while the frame is arriving: a push of one of its shards, or an
expiry within the time budget of the frame, with no newer frame in flight. -/
def During (f : Frame) (shards : ℕ → ℕ → Bytes) (base : Depacketizer) (t₀ : Instant) : Op → Prop
  | .push datagram _ => datagram ∈ inOrder f shards f.nrBlocks
  | .expire now => now ≤ t₀ + assemblyBudget ∧
      ∀ k g, base.frames.find? k = some g → k < f.frameNumber

/-- The datagram has been received: its index is in the set of its block. -/
def Received (f : Frame) (shards : ℕ → ℕ → Bytes) (R : ℕ → Finset ℕ) (datagram : Bytes) : Prop :=
  ∃ b, b < f.nrBlocks ∧ ∃ i ∈ R b, i < f.blockTotal b ∧ shards b i = datagram

theorem Received.mono {R R' : ℕ → Finset ℕ} {datagram : Bytes} (h : Received f shards R datagram)
    (hsub : ∀ b, R b ⊆ R' b) : Received f shards R' datagram := by
  obtain ⟨b, hb, i, hi, hlt, heq⟩ := h
  exact ⟨b, hb, i, hsub b hi, hlt, heq⟩

/-- The shards of the packetizer are what the receiver needs. -/
theorem deliverable (hencoded : f.encodedData ≠ []) (hmin : 24 ≤ f.requestedPacketSize)
    (hmax : f.requestedPacketSize < 2 ^ 32)
    (hshards : ∀ b, b < f.nrBlocks → BlockShards rs f b (countersAt f c b) (shards b)) :
    Deliverable rs f (payloadsOf shards) := by
  have hdata : ∀ b k, b < f.nrBlocks → k < f.blockDataShards b →
      payloadsOf shards b k = payload f (f.blockStart b + k) := by
    intro b k hb hk
    rw [payloadsOf, (hshards b hb).data k hk]
    exact drop_dataShardBytes f b _ _ k
  refine ⟨hencoded, hmin, hmax, fun b hb => ⟨?_, ?_, ?_⟩, hdata⟩
  · unfold Frame.shardPayloadSize nvVideoPacketSize
    omega
  · intro i hi
    rw [payloadsOf, List.length_drop, ((hshards b hb).header i hi).length_eq, Frame.shardSize,
      Nat.add_sub_cancel_left]
  · intro hp
    obtain ⟨code, hmds, hcodes, hcolumns⟩ := (hshards b hb).coded hp
    refine ⟨code, hmds, hcodes, fun i j hj => ?_⟩
    have hmessage : (fun k : Fin (f.blockDataShards b) => payloadsOf shards b k) =
        fun k : Fin (f.blockDataShards b) => payload f (f.blockStart b + k) :=
      funext fun k => hdata b k hb k.isLt
    rw [hmessage]
    exact hcolumns i j hj

/-- While the frame arrives it stays in flight and collects its shards. -/
theorem InFlight.run (hrs : rs.Lawful) (hfit : Fits f)
    (hdel : Deliverable rs f (payloadsOf shards))
    (hshards : ∀ b, b < f.nrBlocks → BlockShards rs f b (countersAt f c b) (shards b))
    {base s : Depacketizer} {t₀ : Instant} {R : ℕ → Finset ℕ} {fr : FrameAsm}
    (h : InFlight f (payloadsOf shards) base t₀ R fr s) (ops : List Op)
    (hops : ∀ op ∈ ops, During f shards base t₀ op) :
    ∃ R' fr', InFlight f (payloadsOf shards) base t₀ R' fr' ((machine rs).runFrom s ops) ∧
      (∀ b, R b ⊆ R' b) ∧ ∀ datagram ∈ pushed ops, Received f shards R' datagram := by
  induction ops generalizing s R fr with
  | nil =>
    refine ⟨R, fr, h, fun _ => Finset.Subset.refl _, ?_⟩
    exact fun _ hd => absurd hd List.not_mem_nil
  | cons op rest ih =>
    have hop := hops op List.mem_cons_self
    have hrest : ∀ op' ∈ rest, During f shards base t₀ op' :=
      fun op' hmem => hops op' (List.mem_cons_of_mem _ hmem)
    cases op with
    | push datagram now =>
      obtain ⟨b, hb, i, hi, heq⟩ := (mem_inOrder f).mp hop
      have hsize : 0 < f.shardPayloadSize := (hdel.code b hb).len_pos
      obtain ⟨sh, hparse, hsh⟩ := parseShard_eq hfit hsize hb hi ((hshards b hb).header i hi)
      rw [heq] at hparse
      obtain ⟨fr', hflight⟩ := h.push hrs hdel hb hi hparse hsh now
      obtain ⟨R', fr'', hrun, hsub, hreceived⟩ := ih hflight hrest
      refine ⟨R', fr'', hrun, fun b' => (subset_receive R b i b').trans (hsub b'), ?_⟩
      intro d hd
      rcases List.mem_cons.mp hd with rfl | hd
      · exact ⟨b, hb, i, hsub b (mem_receive R b i), hi, heq⟩
      · exact hreceived d hd
    | expire now =>
      obtain ⟨hnow, hbelow⟩ := hop
      exact ih (h.expire hbelow hnow) hrest

/-- Distinct datagrams of a block are distinct received indices. -/
theorem covered_of_enough
    (hshards : ∀ b, b < f.nrBlocks → BlockShards rs f b (countersAt f c b) (shards b))
    {R : ℕ → Finset ℕ} {datagrams : List Bytes}
    (hreceived : ∀ s ∈ datagrams, ∃ b, b < f.nrBlocks ∧
      ∃ i ∈ R b, i < f.blockTotal b ∧ shards b i = s)
    (henough : EnoughShards f datagrams) : Covered f R := by
  intro b hb
  refine (henough b hb).trans ?_
  rw [← List.card_toFinset]
  have hsubset : (datagrams.filter fun s => decide (headerBlock s = some b)).toFinset ⊆
      (R b).image (shards b) := by
    intro s hs
    obtain ⟨hmem, hheader⟩ := List.mem_filter.mp (List.mem_toFinset.mp hs)
    obtain ⟨b', hb', i, hi, hlt, rfl⟩ := hreceived s hmem
    have hblock := headerBlock_eq ((hshards b' hb').header i hlt) hb'
    rw [decide_eq_true_iff, hblock, Option.some.injEq] at hheader
    subst hheader
    exact Finset.mem_image_of_mem _ hi
  exact (Finset.card_le_card hsubset).trans Finset.card_image_le

/-- Enough shards of every block deliver the frame exactly once. -/
theorem deliver (hrs : rs.Lawful) (hfit : Fits f) (hdel : Deliverable rs f (payloadsOf shards))
    (hshards : ∀ b, b < f.nrBlocks → BlockShards rs f b (countersAt f c b) (shards b))
    {base : Depacketizer} (hready : Ready f base) {first : Bytes} {t₀ : Instant} {rest : List Op}
    (hfirst : first ∈ inOrder f shards f.nrBlocks)
    (hrest : ∀ op ∈ rest, During f shards base t₀ op)
    (henough : EnoughShards f (first :: pushed rest)) :
    ∃ R fr, Covered f R ∧ InFlight f (payloadsOf shards) base t₀ R fr
      ((machine rs).runFrom base (Op.push first t₀ :: rest)) := by
  obtain ⟨b, hb, i, hi, heq⟩ := (mem_inOrder f).mp hfirst
  have hsize : 0 < f.shardPayloadSize := (hdel.code b hb).len_pos
  obtain ⟨sh, hparse, hsh⟩ := parseShard_eq hfit hsize hb hi ((hshards b hb).header i hi)
  rw [heq] at hparse
  obtain ⟨fr, hflight⟩ := first_inFlight hrs hdel hready hb hi hparse hsh t₀
  obtain ⟨R, fr', hrun, hsub, hreceived⟩ := hflight.run hrs hfit hdel hshards rest hrest
  refine ⟨R, fr', covered_of_enough hshards (fun d hd => ?_) henough, hrun⟩
  rcases List.mem_cons.mp hd with rfl | hd
  · exact ⟨b, hb, i, hsub b (mem_receive _ b i), hi, heq⟩
  · exact hreceived d hd

/-- All shards of a fitting frame are enough of them. -/
theorem enough_of_all (hfit : Fits f)
    (hshards : ∀ b, b < f.nrBlocks → BlockShards rs f b (countersAt f c b) (shards b)) :
    EnoughShards f (inOrder f shards f.nrBlocks) := by
  intro b hb
  have hinjective : Set.InjOn (shards b) (Finset.range (f.blockDataShards b)) := by
    intro i hi i' hi' heq
    have hlt : i < f.blockTotal b := (Finset.mem_range.mp hi).trans_le (Nat.le_add_right _ _)
    have hlt' : i' < f.blockTotal b := (Finset.mem_range.mp hi').trans_le (Nat.le_add_right _ _)
    have hhead := (hshards b hb).header i' hlt'
    rw [← heq] at hhead
    exact index_unique hfit hb hlt hlt' ((hshards b hb).header i hlt) hhead
  have hsubset : (Finset.range (f.blockDataShards b)).image (shards b) ⊆
      ((inOrder f shards f.nrBlocks).filter
        fun s => decide (headerBlock s = some b)).toFinset := by
    intro s hs
    obtain ⟨i, hi, rfl⟩ := Finset.mem_image.mp hs
    have hlt : i < f.blockTotal b := (Finset.mem_range.mp hi).trans_le (Nat.le_add_right _ _)
    refine List.mem_toFinset.mpr (List.mem_filter.mpr ⟨?_, ?_⟩)
    · exact (mem_inOrder f).mpr ⟨b, hb, i, hlt, rfl⟩
    · exact decide_eq_true (headerBlock_eq ((hshards b hb).header i hlt) hb)
  have hcard := Finset.card_le_card hsubset
  rwa [Finset.card_image_of_injOn hinjective, Finset.card_range, List.card_toFinset] at hcard

/-- All shards of a frame, pushed at one time, deliver it. -/
theorem deliver_all (hrs : rs.Lawful) (hencoded : f.encodedData ≠ [])
    (hmin : 24 ≤ f.requestedPacketSize) (hmax : f.requestedPacketSize < 2 ^ 32) (hfit : Fits f)
    (hshards : ∀ b, b < f.nrBlocks → BlockShards rs f b (countersAt f c b) (shards b))
    {base : Depacketizer} (hready : Ready f base) (t₀ : Instant) :
    ∃ R fr, Covered f R ∧ InFlight f (payloadsOf shards) base t₀ R fr ((machine rs).runFrom base
      (pushes ((inOrder f shards f.nrBlocks).map fun s => (s, t₀)))) := by
  have henough := enough_of_all hfit hshards
  generalize hlist : inOrder f shards f.nrBlocks = list at henough ⊢
  cases list with
  | nil =>
    have hpos := blockDataShards_pos f (nrBlocks_pos f)
    exact absurd (henough 0 (nrBlocks_pos f)) (not_le.mpr hpos)
  | cons first rest =>
    have hpushed : pushed (pushes (rest.map fun s => (s, t₀))) = rest := by
      rw [pushed_pushes, List.map_map]
      exact List.map_id _
    refine deliver hrs hfit (deliverable hencoded hmin hmax hshards) hshards hready ?_ ?_ ?_
    · rw [hlist]
      exact List.mem_cons_self
    · intro op hop
      obtain ⟨a, ha, rfl⟩ := List.mem_map.mp hop
      obtain ⟨s, hs, rfl⟩ := List.mem_map.mp ha
      change s ∈ inOrder f shards f.nrBlocks
      rw [hlist]
      exact List.mem_cons_of_mem _ hs
    · rw [← hpushed] at henough
      exact henough

end Arrivals

end KmControl.FrameDelivery
