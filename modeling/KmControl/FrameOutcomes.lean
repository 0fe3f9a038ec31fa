import KmControl.DeliveryOrder
import KmControl.FrameDelivery

/-!
What a reassembler promises about its frames. Every frame that ever had a slot
gets exactly one outcome. Frames go out in ascending order as long as no slot is
opened behind a frame already sent out. Of the frames missing between two that
are sent out, exactly those are reported of which a shard had been taken.
-/
namespace KmControl.FrameOutcomes

open DeliveryOrder FrameDelivery FrameLedger FrameTracking MoonVideo MoonVideoSteps Packetizer
  PacketizerShards

/-- A frame of one data and one parity shard. -/
def deltaFrame (n : UInt32) : Frame where
  encodedData := [7]
  isKeyFrame := false
  requestedPacketSize := 40
  frameNumber := n
  rtpTimestamp := 0
  fecPercentage := 20

/-- The data shard of such a frame; with it no recovery is tried. -/
def dataShardOf (n : UInt32) : Bytes := dataShardBytes (deltaFrame n) 0 0 0 0

def noRecovery : FecRs where
  new _ _ := false
  encode _ _ _ := none
  reconstructData _ _ _ := none

section Outcome

variable {rs : FecRs} {s : Depacketizer} {k : UInt32}

/-- Of a settled frame no operation says anything more. -/
theorem events_of_settled (hkeys : Keyed s) (h : (ledger s).Settled k) (op : Op) :
    (step rs s op).events.filter (fun ev => decide (eventIndex ev = k)) =
      s.events.filter fun ev => decide (eventIndex ev = k) := by
  obtain ⟨new, hnew, hindex⟩ := events_step rs hkeys op
  have hnone : new.filter (fun ev => decide (eventIndex ev = k)) = [] := by
    refine List.filter_eq_nil_iff.mpr fun ev hev hk => ?_
    have hk : eventIndex ev = k := of_decide_eq_true hk
    rcases hindex ev hev with ⟨g, hg⟩ | htaken
    · rw [hk, slots_eq_none_iff.mp h.slot] at hg
      cases hg
    · rw [hk] at htaken
      rcases step_cases rs s op with ⟨hno, -⟩ | ⟨sh, now, s', f, haccepted, hretired, -⟩
      · rw [htaken] at hno
        cases hno
      · rw [htaken, Option.some.injEq] at haccepted
        have hmark := (isRetired_iff s k).mpr h.retired
        rw [haccepted, hretired] at hmark
        cases hmark
  rw [hnew, List.filter_append, hnone, List.append_nil]

theorem outcomeCount_le_one (rs : FecRs) (ops : List Op) (k : UInt32) :
    outcomeCount ((machine rs).run ops) k ≤ 1 := by
  rw [outcomeCount_eq]
  exact (run_sound rs ops).2.count_le_one k

/-- Under one index at most one frame is sent out. -/
theorem sentFrames_unique (rs : FecRs) (ops : List Op) {k : UInt32} {au au' : AuFrame}
    (h : (k, au) ∈ sentFrames ((machine rs).run ops).events)
    (h' : (k, au') ∈ sentFrames ((machine rs).run ops).events) : au = au' := by
  have hevent : ∀ a, (k, a) ∈ sentFrames ((machine rs).run ops).events →
      VideoEvent.frame k a ∈ ((machine rs).run ops).events.filter (isOutcome k) := by
    intro a ha
    obtain ⟨ev, hev, heq⟩ := List.mem_filterMap.mp ha
    cases ev <;> cases heq
    exact List.mem_filter.mpr ⟨hev, decide_eq_true rfl⟩
  have hone := outcomeCount_le_one rs ops k
  rw [outcomeCount, List.countP_eq_length_filter] at hone
  have hau := hevent au h
  have hau' := hevent au' h'
  generalize ((machine rs).run ops).events.filter (isOutcome k) = evs at hone hau hau'
  match evs, hone with
  | [], _ => cases hau
  | [ev], _ =>
    have heq := (List.mem_singleton.mp hau).trans (List.mem_singleton.mp hau').symm
    exact (VideoEvent.frame.inj heq).2

/-- Every frame gets at most one outcome. A frame that had a slot and has none any
more has had exactly one, and nothing about it happens again. -/
theorem one_outcome_per_frame (rs : FecRs) (ops : List Op) (k : UInt32) :
    outcomeCount ((machine rs).run ops) k ≤ 1 ∧
      ∀ pre, pre <+: ops → ((machine rs).run pre).frames.find? k ≠ none →
        ((machine rs).run ops).frames.find? k = none →
          outcomeCount ((machine rs).run ops) k = 1 ∧ ∀ more,
            ((machine rs).run (ops ++ more)).frames.find? k = none ∧
              ((machine rs).run (ops ++ more)).events.filter
                  (fun ev => decide (eventIndex ev = k)) =
                ((machine rs).run ops).events.filter fun ev => decide (eventIndex ev = k) := by
  obtain ⟨hkeys, hsound⟩ := run_sound rs ops
  refine ⟨outcomeCount_le_one rs ops k, fun pre hpre hslot hnone => ?_⟩
  obtain ⟨g, hg⟩ := Option.ne_none_iff_exists'.mp hslot
  have hlive := live_of_taken ((taken_of_frame hg).mono hpre)
  have hsettled := hlive.resolve_left (not_not.mpr (slots_eq_none_iff.mpr hnone))
  refine ⟨(outcomeCount_eq _ k).trans hsettled.count_eq, fun more => ?_⟩
  have hlater : ∀ more, (ledger ((machine rs).run (ops ++ more))).Settled k := by
    intro more
    rw [Machine.run_append]
    exact hsettled.steps (steps_runFrom rs hkeys more)
  refine ⟨slots_eq_none_iff.mp (hlater more).slot, ?_⟩
  induction more using List.reverseRecOn with
  | nil => rw [List.append_nil]
  | append_singleton rest op ih =>
    rw [← ih, ← List.append_assoc, Machine.run_concat]
    exact events_of_settled (run_sound rs (ops ++ rest)).1 (hlater rest) op

/-- A frame sent out and then expired. -/
theorem one_outcome_after_expiry : outcomeCount ((machine noRecovery).run
    [Op.push (dataShardOf 1) 0, Op.expire 200000000]) 1 = 1 := by
  have hresult := one_outcome_per_frame noRecovery
    [Op.push (dataShardOf 1) 0, Op.expire 200000000] 1
  refine (hresult.2 [Op.push (dataShardOf 1) 0] (List.prefix_append _ [_]) ?_ ?_).1
  · exact Option.isSome_iff_ne_none.mp (by decide)
  · exact Option.isNone_iff_eq_none.mp (by decide)

end Outcome

section Order

/-- The operation opens a slot behind a frame that was already sent out. -/
def opensBehind (s : Depacketizer) (op : Op) : Bool :=
  (accepted s op).any fun k => (s.frames.find? k).isNone &&
    (s.frames.keysWhere FrameAsm.delivered).any fun j => decide (k < j)

theorem sent_ledger (s : Depacketizer) : (ledger s).sent = sentIndices s.events := by
  unfold Ledger.sent ledger sentIndices sentFrames
  rw [List.filterMap_filterMap, List.map_filterMap]
  refine List.filterMap_congr fun ev _ => ?_
  cases ev <;> rfl

theorem guard_of_not_behind {s : Depacketizer} {op : Op} (h : opensBehind s op = false)
    {k : UInt32} (htaken : accepted s op = some k) (hslot : s.frames.find? k = none) :
    GuardAt Ledger.NotBehind s k := by
  intro t ht j hlt hj
  rcases ht j with heq | hnone
  · rw [heq] at hj
    obtain ⟨g, hg, hdelivered⟩ := Option.map_eq_some_iff.mp hj
    have hmem : j ∈ s.frames.keysWhere FrameAsm.delivered :=
      (SortedMap.mem_keysWhere_iff _ _ _).mpr ⟨g, hg, hdelivered⟩
    have hbehind : opensBehind s op = true := by
      unfold opensBehind
      rw [htaken, Option.any_some, hslot]
      exact List.any_eq_true.mpr ⟨j, hmem, decide_eq_true hlt⟩
    rw [h] at hbehind
    cases hbehind
  · rw [hnone] at hj
    cases hj

/-- Frames go out in ascending order in every run that opens no slot behind a
frame already sent out. -/
theorem ascending_of_not_behind (rs : FecRs) (ops : List Op)
    (h : (machine rs).Along (fun s op => opensBehind s op = false) ops) :
    (sentIndices ((machine rs).run ops).events).Pairwise (· < ·) := by
  have hinv := Machine.run_invariant_along (m := machine rs)
    (I := fun s => Keyed s ∧ (ledger s).Sound ∧ (ledger s).Ordered)
    (C := fun s op => opensBehind s op = false) ?_ ?_ ops h
  · rw [← sent_ledger]
    exact hinv.2.2.ascending
  · obtain ⟨hkeys, hsound⟩ := run_sound rs []
    exact ⟨hkeys, hsound, ⟨List.Pairwise.nil, fun _ h => absurd h List.not_mem_nil⟩⟩
  · rintro s op ⟨hkeys, hsound, hordered⟩ hop
    have hsteps : Ledger.Steps Ledger.NotBehind (ledger s) (ledger (step rs s op)) := by
      refine steps_step rs hkeys op fun datagram now sh heq hparse hretired hopen hslot => ?_
      obtain ⟨s', hs'⟩ := Option.isSome_iff_exists.mp hopen
      subst heq
      exact guard_of_not_behind hop
        (accepted_push hparse ((admits_iff s sh now).mpr ⟨hretired, s', hs'⟩)) hslot
    exact ⟨keyed_step rs hkeys op, hordered.steps hsound hsteps⟩

theorem ascending_one_two : (sentIndices ((machine noRecovery).run
    [Op.push (dataShardOf 1) 0, Op.push (dataShardOf 2) 0]).events).Pairwise (· < ·) := by
  refine ascending_of_not_behind noRecovery _ ?_
  change (machine noRecovery).Along _ ([] ++ [Op.push (dataShardOf 1) 0] ++ [_])
  refine Machine.along_concat.mpr ⟨Machine.along_concat.mpr ⟨fun pre op hpre => ?_, ?_⟩, ?_⟩
  · exact absurd (List.prefix_nil.mp hpre) (by simp)
  · decide
  · decide

/-- Two frames whose datagrams arrive in the wrong order go out in that order. -/
theorem newer_before_older : ∃ (rs : FecRs) (first second : List Bytes) (c c' : Counters),
    rs.Lawful ∧ packetizeFrame rs (deltaFrame 1) ⟨0, 0⟩ = some (first, c) ∧
      packetizeFrame rs (deltaFrame 2) c = some (second, c') ∧
        ¬ (sentIndices ((machine rs).run
          (pushes ((second ++ first).map fun s => (s, 0)))).events).Pairwise (· < ·) := by
  obtain ⟨rs, hrs⟩ := FecRs.exists_lawful
  obtain ⟨shards₁, hfirst, hspec₁⟩ := packetizeFrame_eq (deltaFrame 1) hrs ⟨0, 0⟩ (by decide)
  obtain ⟨shards₂, hsecond, hspec₂⟩ := packetizeFrame_eq (deltaFrame 2) hrs
    (countersAt (deltaFrame 1) ⟨0, 0⟩ (deltaFrame 1).nrBlocks) (by decide)
  refine ⟨rs, _, _, _, _, hrs, hfirst, hsecond, ?_⟩
  obtain ⟨R₂, fr₂, hcovered₂, hflight₂⟩ := deliver_all hrs (by decide) (by decide) (by decide)
    (by decide) hspec₂ (ready_new (deltaFrame 2)) 0
  obtain ⟨R₁, fr₁, hcovered₁, hflight₁⟩ := deliver_all hrs (by decide) (by decide) (by decide)
    (by decide) hspec₁ (hflight₂.ready_other (deltaFrame 1) (by decide)) 0
  have hsent := (hflight₁.done hcovered₁).sentFrames_eq
  rw [(hflight₂.done hcovered₂).sentFrames_eq] at hsent
  intro hascending
  rw [pushes_append, Machine.run_append] at hascending
  have hindices : ([2, 1] : List UInt32).Pairwise (· < ·) :=
    Eq.mp (congrArg (List.Pairwise (· < ·)) (congrArg (List.map Prod.fst) hsent)) hascending
  exact absurd hindices (by decide)

end Order

section Gap

variable {rs : FecRs} {ops : List Op}

/-- A shard of frame `k` is taken before frame `j` is sent out. -/
def TakenBefore (rs : FecRs) (ops : List Op) (k j : UInt32) : Prop :=
  ∃ pre op, pre ++ [op] <+: ops ∧ accepted ((machine rs).run pre) op = some k ∧
    ∀ au, VideoEvent.frame j au ∉ ((machine rs).run pre).events

/-- Where an event occurs that the list holds only once. -/
private theorem split_unique {p : VideoEvent → Bool} {a b : VideoEvent}
    {l₁ r₁ l₂ r₂ : List VideoEvent} (ha : p a = true) (hb : p b = true)
    (heq : l₁ ++ a :: r₁ = l₂ ++ b :: r₂) (hone : (l₁ ++ a :: r₁).countP p ≤ 1) : l₁ = l₂ := by
  have hcount : ∀ (l r : List VideoEvent) (x : VideoEvent), p x = true →
      (l ++ x :: r).countP p = l.countP p + (r.countP p + 1) := by
    intro l r x hx
    rw [List.countP_append, List.countP_cons_of_pos hx]
  rcases List.append_eq_append_iff.mp heq with ⟨c, hl, hr⟩ | ⟨c, hl, hr⟩
  · cases c with
    | nil => exact (hl.trans (List.append_nil _)).symm
    | cons x c =>
      obtain ⟨rfl, -⟩ := List.cons.inj hr
      have htwo := hcount l₂ r₂ b hb
      rw [hl, hcount l₁ c a ha, ← hl, ← heq] at htwo
      omega
  · cases c with
    | nil => exact hl.trans (List.append_nil _)
    | cons x c =>
      obtain ⟨rfl, -⟩ := List.cons.inj hr
      have htwo := hcount l₁ r₁ a ha
      rw [hl, hcount l₂ c b hb, ← hl] at htwo
      omega

/-- The state in which a frame of the run is sent out: what had been taken before
is settled there, and its events are all that precede the frame. -/
private theorem sending_state {j : UInt32} {aj : AuFrame} {earlier after : List VideoEvent}
    (hevents : ((machine rs).run ops).events = earlier ++ VideoEvent.frame j aj :: after) :
    ∃ t : Depacketizer, t.events = earlier ∧ (ledger t).Sound ∧
      (∀ k, k < j → (ledger t).slots k = none) ∧
        ∀ k, k < j → ((ledger t).Live k ↔ TakenBefore rs ops k j) := by
  obtain ⟨pre, op, hpre, hbefore, hafter⟩ := (machine rs).exists_first_step
    (Q := fun s => ∃ au, VideoEvent.frame j au ∈ s.events) ops (fun h => by
      obtain ⟨au, hau⟩ := h
      cases hau) ⟨aj, by rw [hevents]; simp⟩
  rw [not_exists] at hbefore
  obtain ⟨au, hau⟩ := hafter
  rw [Machine.run_concat] at hau
  obtain ⟨hkeys, hsound⟩ := run_sound rs pre
  obtain ⟨htaken, t, hsteps, hempty, au', hlast⟩ := sends_frame
    (G := fun _ _ => True) hkeys (fun _ _ _ => trivial) hbefore hau
  have hrun : ((machine rs).run (pre ++ [op])).events = t.events ++ [VideoEvent.frame j au'] := by
    rw [Machine.run_concat]
    exact hlast
  have hsplit : t.events = earlier := by
    obtain ⟨rest, hrest⟩ := events_mono rs hpre
    rw [hrun, hevents, List.append_assoc] at hrest
    have hone := outcomeCount_le_one rs ops j
    unfold outcomeCount at hone
    rw [hevents, ← hrest] at hone
    have hself : ∀ au, isOutcome j (VideoEvent.frame j au) = true :=
      fun _ => decide_eq_true rfl
    exact split_unique (hself au') (hself aj) hrest hone
  have hnone : ∀ k, k < j → (ledger t).slots k = none :=
    fun k hk => slots_eq_none_iff.mpr (hempty k hk)
  refine ⟨t, hsplit, hsound.steps hsteps, hnone, fun k hk => ⟨fun hlive => ?_, ?_⟩⟩
  · -- The frame had its outcome, so the run has an event about it.
    have hcount := (hlive.resolve_left (not_not.mpr (hnone k hk))).count_eq
    rw [← outcomeCount_eq] at hcount
    obtain ⟨ev, hev, hout⟩ := List.countP_pos_iff.mp (hcount ▸ Nat.one_pos)
    have hindex : eventIndex ev = k := by
      cases ev with
      | frame i au => exact of_decide_eq_true hout
      | lost i => exact of_decide_eq_true hout
      | fec status => cases hout
    have hmem : ev ∈ ((machine rs).run (pre ++ [op])).events := by
      rw [hrun]
      exact List.mem_append_left _ hev
    have hsome := taken_of_event hmem
    rw [hindex] at hsome
    rcases takenIn_concat.mp hsome with ⟨pre', op', hpre', htaken'⟩ | hsame
    · refine ⟨pre', op', (hpre'.trans (List.prefix_append _ _)).trans hpre, htaken', ?_⟩
      intro a ha
      have hshort := (List.prefix_append pre' [op']).trans hpre'
      exact hbefore a ((events_mono rs hshort).subset ha)
    · rw [htaken, Option.some.injEq] at hsame
      exact absurd hsame hk.ne'
  · rintro ⟨pre', op', hpre', htaken', hunsent⟩
    have hshort : pre' ++ [op'] <+: pre := by
      have hdiffer : pre' ++ [op'] ≠ pre ++ [op] := by
        intro heq
        obtain ⟨rfl, hop⟩ := List.append_inj' heq rfl
        cases List.cons.inj hop |>.1
        rw [htaken, Option.some.injEq] at htaken'
        exact hk.ne' htaken'
      rcases List.prefix_or_prefix_of_prefix hpre' hpre with hle | hle
      · exact (List.prefix_concat_iff.mp hle).resolve_left hdiffer
      · have hlong := (List.prefix_concat_iff.mp hle).resolve_left hdiffer.symm
        have hmem : VideoEvent.frame j au' ∈ ((machine rs).run (pre ++ [op])).events := by
          rw [hrun]
          simp
        exact absurd ((events_mono rs hlong).subset hmem) (hunsent au')
    exact Ledger.Live.steps hsound (live_of_taken ⟨pre', op', hshort, htaken'⟩) hsteps

/-- Between two frames sent out one after the other, the missing frames are all
reported exactly if a shard of each had been taken before the later frame went
out, and none of them had gone out before. -/
theorem gap_reported_iff (rs : FecRs) (ops : List Op) (before mid after : List VideoEvent)
    (i j : UInt32) (ai aj : AuFrame) (hevents : ((machine rs).run ops).events =
      before ++ VideoEvent.frame i ai :: mid ++ VideoEvent.frame j aj :: after)
    (hmid : sentFrames mid = []) :
    (∀ k, i < k → k < j → VideoEvent.lost k ∈ before ++ VideoEvent.frame i ai :: mid) ↔
      ∀ k, i < k → k < j → TakenBefore rs ops k j ∧ ∀ au, VideoEvent.frame k au ∉ before := by
  obtain ⟨t, hsplit, hsound, hnone, hlive⟩ := sending_state hevents
  refine forall_congr' fun k => forall_congr' fun hik => forall_congr' fun hkj => ?_
  have hlost : VideoEvent.lost k ∈ t.events ↔ Outcome.lost k ∈ (ledger t).outcomes := by
    change _ ↔ _ ∈ t.events.filterMap outcome
    rw [List.mem_filterMap]
    constructor
    · exact fun h => ⟨_, h, rfl⟩
    · rintro ⟨ev, hev, hout⟩
      cases ev <;> cases hout
      exact hev
  have hsent : Outcome.sent k ∉ (ledger t).outcomes ↔ ∀ au, VideoEvent.frame k au ∉ before := by
    change (_ ∉ t.events.filterMap outcome) ↔ _
    rw [List.mem_filterMap, hsplit]
    constructor
    · intro h au hmem
      exact h ⟨_, List.mem_append_left _ hmem, rfl⟩
    · rintro h ⟨ev, hev, hout⟩
      cases ev with
      | frame i' au =>
        cases hout
        rcases List.mem_append.mp hev with hmem | hmem
        · exact h au hmem
        · rcases List.mem_cons.mp hmem with heq | hmem
          · cases heq
            exact lt_irrefl _ hik
          · have hin : (k, au) ∈ sentFrames mid := List.mem_filterMap.mpr ⟨_, hmem, rfl⟩
            rw [hmid] at hin
            cases hin
      | lost i' => cases hout
      | fec status => cases hout
  rw [← hsplit, hlost, hsound.lost_iff (hnone k hkj), hlive k hkj, hsent]

/-- Frames one and three go out, and no shard of the second has been taken. -/
theorem second_never_taken : ¬ ∀ k, 1 < k → k < 3 →
    TakenBefore noRecovery [Op.push (dataShardOf 1) 0, Op.push (dataShardOf 3) 0] k 3 ∧
      ∀ au, VideoEvent.frame k au ∉ [] := by
  intro htaken
  have hreported := (gap_reported_iff noRecovery _ [] [] [] 1 3 ⟨false, [0, 7]⟩ ⟨false, [0, 7]⟩
    (by decide) rfl).mpr htaken
  exact absurd (hreported 2 (by decide) (by decide)) (by decide)

/-- A frame of which nothing arrives is missing without a report. -/
theorem lost_frame_unreported : ∃ (rs : FecRs) (first second third : List Bytes)
    (c c' c'' : Counters), rs.Lawful ∧
      packetizeFrame rs (deltaFrame 1) ⟨0, 0⟩ = some (first, c) ∧
      packetizeFrame rs (deltaFrame 2) c = some (second, c') ∧
      packetizeFrame rs (deltaFrame 3) c' = some (third, c'') ∧
      ∃ before mid after a₁ a₃, ((machine rs).run
          (pushes ((first ++ third).map fun s => (s, 0)))).events =
            before ++ VideoEvent.frame 1 a₁ :: mid ++ VideoEvent.frame 3 a₃ :: after ∧
          sentFrames mid = [] ∧
            VideoEvent.lost 2 ∉ before ++ VideoEvent.frame 1 a₁ :: mid := by
  obtain ⟨rs, hrs⟩ := FecRs.exists_lawful
  obtain ⟨shards₁, hfirst, hspec₁⟩ := packetizeFrame_eq (deltaFrame 1) hrs ⟨0, 0⟩ (by decide)
  obtain ⟨shards₂, hsecond, -⟩ := packetizeFrame_eq (deltaFrame 2) hrs
    (countersAt (deltaFrame 1) ⟨0, 0⟩ (deltaFrame 1).nrBlocks) (by decide)
  obtain ⟨shards₃, hthird, hspec₃⟩ := packetizeFrame_eq (deltaFrame 3) hrs
    (countersAt (deltaFrame 2) (countersAt (deltaFrame 1) ⟨0, 0⟩ (deltaFrame 1).nrBlocks)
      (deltaFrame 2).nrBlocks) (by decide)
  obtain ⟨R₁, fr₁, hcovered₁, hflight₁⟩ := deliver_all hrs (by decide) (by decide) (by decide)
    (by decide) hspec₁ (ready_new (deltaFrame 1)) 0
  obtain ⟨R₃, fr₃, hcovered₃, hflight₃⟩ := deliver_all hrs (by decide) (by decide) (by decide)
    (by decide) hspec₃ (hflight₁.ready_other (deltaFrame 3) (by decide)) 0
  have hevents₁ := (hflight₁.done hcovered₁).eq_of_empty fun _ => rfl
  obtain ⟨pre, post, hpre, -, hevents₃⟩ := hflight₃.done hcovered₃
  rw [hevents₁] at hevents₃
  refine ⟨rs, _, _, _, _, _, _, hrs, hfirst, hsecond, hthird, [], pre, post,
    accessUnit (deltaFrame 1), accessUnit (deltaFrame 3), ?_, hpre.sentFrames_eq, ?_⟩
  · rw [pushes_append, Machine.run_append]
    refine Eq.trans hevents₃ ?_
    simp [deltaFrame, Depacketizer.new]
  · intro hlost
    rcases List.mem_cons.mp hlost with heq | hlost
    · cases heq
    · obtain ⟨k, g, hg, hclosing⟩ := hpre _ hlost
      have hindex := eventIndex_of_closing hclosing
      rw [hflight₁.keyed k g hg] at hindex
      by_cases hk : k = 1
      · rw [hk] at hindex
        exact absurd hindex (by decide)
      · cases hflight₁.others k g hk hg

end Gap

end KmControl.FrameOutcomes
