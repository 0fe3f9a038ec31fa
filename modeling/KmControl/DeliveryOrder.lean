import KmControl.FrameLedger

/-!
What one operation of the reassembler can do to the frames in flight and to the
queue, by the frame its shard belongs to. Over a run: the invariants of the
account, and where in the run a frame got its slot and was sent out.
-/
namespace KmControl.DeliveryOrder

open FrameLedger MoonVideo MoonVideoSteps Depacketizer

/-- The frame that an event is about. -/
def eventIndex : VideoEvent → UInt32
  | .frame k _ => k
  | .lost k => k
  | .fec status => status.frameIndex

/-- Whether an event is an outcome of frame `k`. -/
def isOutcome (k : UInt32) : VideoEvent → Bool
  | .frame i _ => i = k
  | .lost i => i = k
  | .fec _ => false

def outcomeCount (s : Depacketizer) (k : UInt32) : ℕ := s.events.countP (isOutcome k)

/-- The frame whose shard is taken by an operation. -/
def accepted (s : Depacketizer) : Op → Option UInt32
  | .push datagram _ => (parseShard datagram).bind fun sh =>
      if admits s sh.nv.frameIndex then some sh.nv.frameIndex else none
  | .expire _ => none

theorem accepted_push {s : Depacketizer} {datagram : Bytes} {now : Instant} {sh : Shard}
    (hparse : parseShard datagram = some sh) (hadmits : admits s sh.nv.frameIndex = true) :
    accepted s (Op.push datagram now) = some sh.nv.frameIndex := by
  simp [accepted, hparse, hadmits]

section Step

variable {rs : FecRs} {s : Depacketizer} {op : Op}

theorem eventIndex_of_closing {f : FrameAsm} {ev : VideoEvent} (h : ev ∈ closingEvents f) :
    eventIndex ev = f.frameIndex := by
  rcases List.mem_append.mp h with h | h
  · unfold reportFec at h
    obtain ⟨b, -, hb⟩ := List.mem_flatMap.mp h
    split at hb
    · split at hb
      · rw [List.mem_singleton.mp hb]
        rfl
      · cases hb
    · split at hb
      · split at hb
        · rw [List.mem_singleton.mp hb]
          rfl
        · cases hb
      · cases hb
  · split at h
    · cases h
    · rw [List.mem_singleton.mp h]
      rfl

theorem eventIndex_completionEvent (k : UInt32) (f : FrameAsm) :
    eventIndex (completionEvent k f) = k := by
  unfold completionEvent
  split <;> rfl

/-- An operation either takes no shard and at most closes frames, or it stores the
shard of a frame that has its slot now. -/
theorem step_cases (rs : FecRs) (s : Depacketizer) (op : Op) :
    (accepted s op = none ∧ ∃ ks : List UInt32, ks.Nodup ∧ step rs s op = ks.foldl retireKey s) ∨
    ∃ sh now s' f, accepted s op = some sh.nv.frameIndex ∧
      s.isRetired sh.nv.frameIndex = false ∧ s.openSlot sh now = some s' ∧
      s'.frames.find? sh.nv.frameIndex = some f ∧ step rs s op = s'.store rs sh := by
  cases op with
  | expire now => exact Or.inl ⟨rfl, _, s.frames.nodup_keysWhere _, rfl⟩
  | push datagram now =>
    cases hparse : parseShard datagram with
    | none =>
      refine Or.inl ⟨?_, [], List.nodup_nil, ?_⟩
      · simp [accepted, hparse]
      · simp [step, Depacketizer.push, hparse]
    | some sh =>
      by_cases hadmits : admits s sh.nv.frameIndex = true
      · obtain ⟨hretired, s', hopen⟩ := (admits_iff s sh now).mp hadmits
        obtain ⟨f, hf⟩ := find?_of_openSlot s hopen
        exact Or.inr ⟨sh, now, s', f, accepted_push hparse hadmits, hretired, hopen, hf,
          push_eq_store s rs hparse hretired hopen⟩
      · refine Or.inl ⟨?_, [], List.nodup_nil, ?_⟩
        · simp [accepted, hparse, hadmits]
        · rcases push_cases s rs datagram now with hsame | ⟨sh', s', hparse', hretired, hopen, -⟩
          · exact hsame
          · rw [hparse, Option.some.injEq] at hparse'
            subst hparse'
            exact absurd ((admits_iff s sh now).mpr ⟨hretired, s', hopen⟩) hadmits

/-- What is in flight after an operation was so before, or its shard was taken. -/
theorem frames_step {k : UInt32} {g : FrameAsm} (h : (step rs s op).frames.find? k = some g) :
    (∃ g', s.frames.find? k = some g') ∨ accepted s op = some k := by
  rcases step_cases rs s op with
    ⟨-, ks, -, hstep⟩ | ⟨sh, now, s', f, haccepted, -, hopen, hf, hstep⟩
  · rw [hstep, find?_retireAll] at h
    split at h
    · cases h
    · exact Or.inl ⟨g, h⟩
  · by_cases hk : k = sh.nv.frameIndex
    · exact Or.inr (hk ▸ haccepted)
    left
    have hstored : ∀ g', (stored s' rs sh f).frames.find? k = some g' →
        ∃ g', s.frames.find? k = some g' := by
      intro g' hg'
      rw [find?_stored, if_neg hk] at hg'
      exact ⟨g', find?_of_openSlot_ne s hopen hk hg'⟩
    rw [hstep, store_eq s' rs hf] at h
    split at h
    · rw [find?_emitCompleted _ (find?_stored_self s' rs sh f), if_neg hk] at h
      split at h
      · cases h
      · exact hstored g h
    · exact hstored g h

/-- A frame whose shard has been taken is in flight. -/
theorem frames_of_accepted (rs : FecRs) {k : UInt32} (h : accepted s op = some k) :
    ∃ g, (step rs s op).frames.find? k = some g := by
  rcases step_cases rs s op with
    ⟨hnone, -⟩ | ⟨sh, now, s', f, haccepted, -, -, hf, hstep⟩
  · rw [h] at hnone
    cases hnone
  · rw [h, Option.some.injEq] at haccepted
    subst haccepted
    have hself := find?_stored_self s' rs sh f
    rw [hstep, store_eq s' rs hf]
    split
    · rw [find?_emitCompleted _ hself, if_pos rfl]
      exact ⟨_, rfl⟩
    · exact ⟨_, hself⟩

/-- The events of opening a slot close a frame in flight. -/
theorem events_openSlot {sh : Shard} {now : Instant} {s' : Depacketizer}
    (hopen : s.openSlot sh now = some s') : ∃ new, s'.events = s.events ++ new ∧
      ∀ ev ∈ new, ∃ k f, s.frames.find? k = some f ∧ ev ∈ closingEvents f := by
  rcases openSlot_cases s hopen with ⟨-, rfl⟩ | ⟨-, -, rfl⟩ | ⟨-, oldest, f, hfirst, -, rfl⟩
  · exact ⟨[], (List.append_nil _).symm, fun _ h => absurd h List.not_mem_nil⟩
  · exact ⟨[], (List.append_nil _).symm, fun _ h => absurd h List.not_mem_nil⟩
  · exact ⟨_, rfl, fun ev hev => ⟨oldest, f, SortedMap.find?_of_first? hfirst, hev⟩⟩

/-- Every new event is about a frame that was in flight or whose shard was taken. -/
theorem events_step (rs : FecRs) (hkeys : Keyed s) (op : Op) :
    ∃ new, (step rs s op).events = s.events ++ new ∧ ∀ ev ∈ new,
      (∃ g, s.frames.find? (eventIndex ev) = some g) ∨ accepted s op = some (eventIndex ev) := by
  rcases step_cases rs s op with
    ⟨-, ks, hnodup, hstep⟩ | ⟨sh, now, s', f, haccepted, -, hopen, hf, hstep⟩
  · refine ⟨closings s ks, hstep ▸ events_retireAll s hnodup, fun ev hev => ?_⟩
    obtain ⟨k, -, g, hg, hmem⟩ := mem_closings s hev
    rw [eventIndex_of_closing hmem, hkeys k g hg]
    exact Or.inl ⟨g, hg⟩
  · obtain ⟨opened, hopened, hfrom⟩ := events_openSlot hopen
    have hopenedIndex : ∀ ev ∈ opened, ∃ g, s.frames.find? (eventIndex ev) = some g := by
      intro ev hev
      obtain ⟨k, g, hg, hmem⟩ := hfrom ev hev
      rw [eventIndex_of_closing hmem, hkeys k g hg]
      exact ⟨g, hg⟩
    have hself := find?_stored_self s' rs sh f
    rw [hstep, store_eq s' rs hf]
    split
    · let older := (stored s' rs sh f).frames.below sh.nv.frameIndex
      let last := completionEvent sh.nv.frameIndex (f.absorb rs sh).1
      refine ⟨opened ++ closings (stored s' rs sh f) older ++ [last], ?_, ?_⟩
      · have hevents : (stored s' rs sh f).events = s.events ++ opened := hopened
        rw [events_emitCompleted _ hself, hevents, List.append_assoc, List.append_assoc,
          List.append_assoc]
      · intro ev hev
        rcases List.mem_append.mp hev with hev | hlast
        · rcases List.mem_append.mp hev with hev | hev
          · exact Or.inl (hopenedIndex ev hev)
          · obtain ⟨k, hk, g, hg, hmem⟩ := mem_closings _ hev
            have hne := ((SortedMap.mem_below_iff _ _ _).mp hk).1.ne
            rw [find?_stored, if_neg hne] at hg
            have hg := find?_of_openSlot_ne s hopen hne hg
            rw [eventIndex_of_closing hmem, hkeys k g hg]
            exact Or.inl ⟨g, hg⟩
        · rw [List.mem_singleton.mp hlast, eventIndex_completionEvent]
          exact Or.inr haccepted
    · exact ⟨opened, hopened, fun ev hev => Or.inl (hopenedIndex ev hev)⟩

/-- When a frame is sent out, its shard has been taken and no older frame is left;
the event is the last one of the operation. -/
theorem sends_frame {G : Ledger UInt32 → UInt32 → Prop} (hkeys : Keyed s)
    (hguard : ∀ k, GuardAt G s k) {j : UInt32} {au : AuFrame}
    (hbefore : ∀ au', VideoEvent.frame j au' ∉ s.events)
    (hafter : VideoEvent.frame j au ∈ (step rs s op).events) :
    accepted s op = some j ∧ ∃ t : Depacketizer, Ledger.Steps G (ledger s) (ledger t) ∧
      (∀ k, k < j → t.frames.find? k = none) ∧
        ∃ au', (step rs s op).events = t.events ++ [VideoEvent.frame j au'] := by
  have hclosed : ∀ (t : Depacketizer) (ks : List UInt32),
      VideoEvent.frame j au ∉ closings t ks := by
    intro t ks hmem
    obtain ⟨k, -, g, -, hclosing⟩ := mem_closings t hmem
    exact frame_not_mem_closingEvents g j au hclosing
  rcases step_cases rs s op with
    ⟨-, ks, hnodup, hstep⟩ | ⟨sh, now, s', f, haccepted, hretired, hopen, hf, hstep⟩
  · rw [hstep, events_retireAll s hnodup] at hafter
    rcases List.mem_append.mp hafter with hold | hnew
    · exact absurd hold (hbefore au)
    · exact absurd hnew (hclosed s ks)
  · obtain ⟨opened, hopened, hfrom⟩ := events_openSlot hopen
    have hunsent : VideoEvent.frame j au ∉ (stored s' rs sh f).events := by
      intro hmem
      rcases List.mem_append.mp (hopened ▸ hmem) with hold | hnew
      · exact hbefore au hold
      · obtain ⟨k, g, -, hclosing⟩ := hfrom _ hnew
        exact frame_not_mem_closingEvents g j au hclosing
    rw [hstep, store_eq s' rs hf] at hafter ⊢
    split at hafter
    · rename_i hout
      have hself := find?_stored_self s' rs sh f
      obtain ⟨hsteps, hkeyed⟩ := steps_stored rs hkeys hretired hopen hf fun _ => hguard _
      rw [events_emitCompleted _ hself] at hafter
      have hlast : VideoEvent.frame j au =
          completionEvent sh.nv.frameIndex (f.absorb rs sh).1 := by
        rcases List.mem_append.mp hafter with hmem | hmem
        · rcases List.mem_append.mp hmem with hmem | hmem
          · exact absurd hmem hunsent
          · exact absurd hmem (hclosed _ _)
        · exact List.mem_singleton.mp hmem
      have hindex : sh.nv.frameIndex = j := by
        have heq := congrArg eventIndex hlast
        rw [eventIndex_completionEvent] at heq
        exact heq.symm
      rw [if_pos hout]
      refine ⟨hindex ▸ haccepted, _, hsteps.trans (steps_retireAll hkeyed
        ((stored s' rs sh f).frames.below sh.nv.frameIndex)), fun k hk => ?_, au, ?_⟩
      · rw [find?_retireBelow, hindex, if_pos hk]
      · rw [events_emitCompleted _ hself, ← hlast,
          events_retireAll _ (SortedMap.nodup_below _ _)]
    · exact absurd hafter hunsent

end Step

section Run

variable {rs : FecRs} {ops : List Op} {k : UInt32}

/-- The account of a run is sound, and its frames are filed under their indices. -/
theorem run_sound (rs : FecRs) (ops : List Op) :
    Keyed ((machine rs).run ops) ∧ (ledger ((machine rs).run ops)).Sound := by
  refine (machine rs).run_invariant (I := fun s => Keyed s ∧ (ledger s).Sound) ?_ ?_ ops
  · refine ⟨framesAll_new, ⟨fun _ h => ?_, fun _ h => ?_, fun _ _ => Or.inl rfl⟩⟩
    · cases h
    · cases h
  · intro s op hs
    refine ⟨keyed_step rs hs.1 op, hs.2.steps (G := fun _ _ => True) ?_⟩
    exact steps_step rs hs.1 op fun _ _ _ _ _ _ _ _ _ _ => trivial

/-- The later part of a run is a sequence of ledger steps. -/
theorem steps_runFrom (rs : FecRs) {s : Depacketizer} (hkeys : Keyed s) (more : List Op) :
    Ledger.Steps (fun _ _ => True) (ledger s) (ledger ((machine rs).runFrom s more)) := by
  induction more generalizing s with
  | nil => exact Relation.ReflTransGen.refl
  | cons op rest ih =>
    have hstep := steps_step rs (G := fun _ _ => True) hkeys op
      fun _ _ _ _ _ _ _ _ _ _ => trivial
    exact hstep.trans (ih (keyed_step rs hkeys op))

theorem events_mono (rs : FecRs) {pre : List Op} (hpre : pre <+: ops) :
    ((machine rs).run pre).events <+: ((machine rs).run ops).events := by
  obtain ⟨more, rfl⟩ := hpre
  induction more using List.reverseRecOn with
  | nil => rw [List.append_nil]
  | append_singleton rest op ih =>
    rw [← List.append_assoc, Machine.run_concat]
    obtain ⟨new, hnew, -⟩ := events_step rs (run_sound rs (pre ++ rest)).1 op
    exact ih.trans ⟨new, hnew.symm⟩

/-- Some operation of the run has taken a shard of the frame. -/
def TakenIn (rs : FecRs) (ops : List Op) (k : UInt32) : Prop :=
  ∃ pre op, pre ++ [op] <+: ops ∧ accepted ((machine rs).run pre) op = some k

theorem TakenIn.mono {more : List Op} (h : TakenIn rs ops k) (hpre : ops <+: more) :
    TakenIn rs more k := by
  obtain ⟨pre, op, hop, htaken⟩ := h
  exact ⟨pre, op, hop.trans hpre, htaken⟩

theorem taken_last {op : Op} (h : accepted ((machine rs).run ops) op = some k) :
    TakenIn rs (ops ++ [op]) k :=
  ⟨ops, op, List.prefix_refl _, h⟩

theorem takenIn_concat {op : Op} : TakenIn rs (ops ++ [op]) k ↔
    TakenIn rs ops k ∨ accepted ((machine rs).run ops) op = some k := by
  constructor
  · rintro ⟨pre, op', hpre, htaken⟩
    rcases List.prefix_concat_iff.mp hpre with heq | hshort
    · obtain ⟨rfl, hop⟩ := List.append_inj' heq rfl
      cases List.cons.inj hop |>.1
      exact Or.inr htaken
    · exact Or.inl ⟨pre, op', hshort, htaken⟩
  · rintro (h | h)
    · exact h.mono (List.prefix_append _ _)
    · exact taken_last h

/-- What is in flight has had a shard taken. -/
theorem taken_of_frame {g : FrameAsm} (h : ((machine rs).run ops).frames.find? k = some g) :
    TakenIn rs ops k := by
  induction ops using List.reverseRecOn generalizing g with
  | nil => cases h
  | append_singleton ops op ih =>
    rw [Machine.run_concat] at h
    rcases frames_step h with ⟨g', hg'⟩ | htaken
    · exact takenIn_concat.mpr (Or.inl (ih hg'))
    · exact taken_last htaken

/-- What an event is about has had a shard taken. -/
theorem taken_of_event {ev : VideoEvent} (h : ev ∈ ((machine rs).run ops).events) :
    TakenIn rs ops (eventIndex ev) := by
  induction ops using List.reverseRecOn with
  | nil => cases h
  | append_singleton ops op ih =>
    rw [Machine.run_concat] at h
    obtain ⟨new, hnew, hindex⟩ := events_step rs (run_sound rs ops).1 op
    change ev ∈ (step rs ((machine rs).run ops) op).events at h
    rw [hnew] at h
    rcases List.mem_append.mp h with hold | hev
    · exact takenIn_concat.mpr (Or.inl (ih hold))
    · rcases hindex ev hev with ⟨g, hg⟩ | htaken
      · exact takenIn_concat.mpr (Or.inl (taken_of_frame hg))
      · exact taken_last htaken

/-- A frame of which a shard has been taken is in flight or has had its outcome. -/
theorem live_of_taken (h : TakenIn rs ops k) : (ledger ((machine rs).run ops)).Live k := by
  obtain ⟨pre, op, ⟨more, rfl⟩, htaken⟩ := h
  obtain ⟨g, hg⟩ := frames_of_accepted rs htaken
  obtain ⟨hkeys, hsound⟩ := run_sound rs (pre ++ [op])
  have hslot : (ledger ((machine rs).run (pre ++ [op]))).slots k ≠ none := by
    rw [Machine.run_concat]
    change (ledger (step rs ((machine rs).run pre) op)).slots k ≠ none
    rw [slots_eq_some hg]
    exact Option.some_ne_none _
  rw [Machine.run_append]
  exact Ledger.Live.steps hsound (Or.inl hslot) (steps_runFrom rs hkeys more)

theorem outcomeCount_eq (s : Depacketizer) (k : UInt32) :
    outcomeCount s k = (ledger s).count k := by
  unfold outcomeCount Ledger.count ledger
  rw [List.countP_filterMap]
  refine List.countP_congr fun ev _ => ?_
  cases ev with
  | frame i au => exact decide_eq_true_iff.trans decide_eq_true_iff.symm
  | lost i => exact decide_eq_true_iff.trans decide_eq_true_iff.symm
  | fec status => simp [isOutcome, outcome]

end Run

end KmControl.DeliveryOrder
