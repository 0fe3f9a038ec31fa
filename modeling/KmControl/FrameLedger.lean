import KmControl.Ledger
import KmControl.MoonVideoSteps

/-!
The reassembler as an account of frames. Forgetting the contents of frames and
the loss reports maps every state to a ledger, and every operation to steps of
the ledger; its laws then hold of every run.
-/
namespace KmControl.FrameLedger

open GsProto MoonVideo MoonVideoSteps Depacketizer

def outcome : VideoEvent → Option (Outcome UInt32)
  | .frame k _ => some (Outcome.sent k)
  | .lost k => some (Outcome.lost k)
  | .fec _ => none

def markOf (lastRetired : Option UInt32) : WithBot UInt32 := lastRetired.elim ⊥ fun k => ↑k

def ledger (s : Depacketizer) : Ledger UInt32 where
  slots k := (s.frames.find? k).map FrameAsm.delivered
  mark := markOf s.lastRetired
  outcomes := s.events.filterMap outcome

variable {s : Depacketizer} {G : Ledger UInt32 → UInt32 → Prop}

theorem slots_eq_some {k : UInt32} {f : FrameAsm} (h : s.frames.find? k = some f) :
    (ledger s).slots k = some f.delivered :=
  congrArg (Option.map FrameAsm.delivered) h

theorem slots_eq_none_iff {k : UInt32} : (ledger s).slots k = none ↔ s.frames.find? k = none :=
  Option.map_eq_none_iff

theorem isRetired_iff (s : Depacketizer) (k : UInt32) :
    s.isRetired k = true ↔ (ledger s).Retired k := by
  unfold isRetired ledger Ledger.Retired markOf
  cases s.lastRetired with
  | none => simp
  | some c => simp

theorem markOf_raise (lastRetired : Option UInt32) (k : UInt32) :
    markOf (raise lastRetired k) = max (markOf lastRetired) k := by
  cases lastRetired with
  | none => simp [raise, markOf]
  | some c =>
    unfold raise markOf
    by_cases hlt : k < c
    · simp only [if_pos hlt, Option.elim_some]
      exact (max_eq_left (WithBot.coe_le_coe.mpr hlt.le)).symm
    · simp only [if_neg hlt, Option.elim_some]
      exact (max_eq_right (WithBot.coe_le_coe.mpr (not_lt.mp hlt))).symm

theorem outcomes_closing (f : FrameAsm) : (closingEvents f).filterMap outcome =
    if f.delivered then [] else [Outcome.lost f.frameIndex] := by
  have hreport : (reportFec f (!f.delivered)).filterMap outcome = [] := by
    rw [List.filterMap_eq_nil_iff]
    intro ev hev
    unfold reportFec at hev
    obtain ⟨b, -, hb⟩ := List.mem_flatMap.mp hev
    split at hb
    · split at hb
      · rw [List.mem_singleton.mp hb]
        rfl
      · cases hb
    · split at hb
      · split at hb
        · rw [List.mem_singleton.mp hb]
          rfl
        · cases hb
      · cases hb
  rw [closingEvents, List.filterMap_append, hreport, List.nil_append]
  cases f.delivered <;> rfl

/-- Closing a frame closes its item. -/
theorem ledger_closed {frames : SortedMap UInt32 FrameAsm} {k : UInt32} {f : FrameAsm}
    (hkey : f.frameIndex = k)
    (hfind : ∀ k', frames.find? k' = if k' = k then none else s.frames.find? k') :
    ledger ⟨frames, raise s.lastRetired f.frameIndex, s.events ++ closingEvents f⟩ =
      (ledger s).closed k f.delivered := by
  unfold ledger Ledger.closed
  rw [Ledger.mk.injEq]
  refine ⟨?_, ?_, ?_⟩
  · funext k'
    rw [Function.update_apply]
    simp only [hfind]
    split <;> rfl
  · rw [← hkey]
    exact markOf_raise _ _
  · rw [List.filterMap_append, outcomes_closing, hkey]

theorem ledger_retireKey (hkeys : Keyed s) {k : UInt32} {f : FrameAsm}
    (h : s.frames.find? k = some f) :
    ledger (s.retireKey k) = (ledger s).closed k f.delivered := by
  rw [retireKey_of_some s h]
  exact ledger_closed (hkeys k f h) fun k' => s.frames.find?_erase k k'

theorem steps_retireAll (hkeys : Keyed s) (ks : List UInt32) :
    Ledger.Steps G (ledger s) (ledger (ks.foldl retireKey s)) := by
  induction ks generalizing s with
  | nil => exact Relation.ReflTransGen.refl
  | cons k rest ih =>
    have hrest := ih (s := s.retireKey k) (FramesAll.retireAll hkeys [k])
    cases hfind : s.frames.find? k with
    | none =>
      rw [retireKey_of_none s hfind] at hrest
      rw [List.foldl_cons, retireKey_of_none s hfind]
      exact hrest
    | some f =>
      refine Relation.ReflTransGen.head ?_ hrest
      rw [ledger_retireKey hkeys hfind]
      exact Ledger.Step.closes _ k f.delivered (slots_eq_some hfind)

/-- What the guard may rely on when a slot is opened: the other slots are those
of the state before, some of them perhaps closed. -/
def GuardAt (G : Ledger UInt32 → UInt32 → Prop) (s : Depacketizer) (k : UInt32) : Prop :=
  ∀ t : Ledger UInt32, (∀ j, t.slots j = (ledger s).slots j ∨ t.slots j = none) → G t k

theorem ledger_insert_fresh (sh : Shard) (now : Instant) (s : Depacketizer) :
    ledger { s with frames := s.frames.insert sh.nv.frameIndex (freshFrame sh now) } =
      (ledger s).opened sh.nv.frameIndex := by
  unfold ledger Ledger.opened
  rw [Ledger.mk.injEq]
  refine ⟨?_, rfl, rfl⟩
  funext k
  rw [Function.update_apply]
  simp only [SortedMap.find?_insert]
  split <;> rfl

theorem steps_openSlot (hkeys : Keyed s) {sh : Shard} {now : Instant} {s' : Depacketizer}
    (hretired : s.isRetired sh.nv.frameIndex = false) (hopen : s.openSlot sh now = some s')
    (hguard : s.frames.find? sh.nv.frameIndex = none → GuardAt G s sh.nv.frameIndex) :
    Ledger.Steps G (ledger s) (ledger s') := by
  have hlive : ¬ (ledger s).Retired sh.nv.frameIndex := by
    rw [← isRetired_iff, hretired]
    exact Bool.false_ne_true
  rcases openSlot_cases s hopen with
    ⟨-, rfl⟩ | ⟨hfind, -, rfl⟩ | ⟨hfind, oldest, f, hfirst, hlt, rfl⟩
  · exact Relation.ReflTransGen.refl
  · rw [ledger_insert_fresh]
    refine Relation.ReflTransGen.single (Ledger.Step.opens _ _ ?_ hlive ?_)
    · exact slots_eq_none_iff.mpr hfind
    · exact hguard hfind _ fun j => Or.inl rfl
  · have hold := SortedMap.find?_of_first? hfirst
    let t : Depacketizer := ⟨s.frames.erase oldest, raise s.lastRetired f.frameIndex,
      s.events ++ closingEvents f⟩
    have hclosed : ledger t = (ledger s).closed oldest f.delivered :=
      ledger_closed (hkeys oldest f hold) fun k' => s.frames.find?_erase oldest k'
    have hopened := ledger_insert_fresh sh now t
    have hslots : ∀ j, (ledger t).slots j = (ledger s).slots j ∨ (ledger t).slots j = none := by
      intro j
      rw [hclosed, Ledger.slots_closed]
      split
      · exact Or.inr rfl
      · exact Or.inl rfl
    refine Relation.ReflTransGen.head (b := ledger t) ?_ (Relation.ReflTransGen.single ?_)
    · rw [hclosed]
      exact Ledger.Step.closes _ oldest f.delivered (slots_eq_some hold)
    · change Ledger.Step G (ledger t) (ledger { t with
        frames := t.frames.insert sh.nv.frameIndex (freshFrame sh now) })
      rw [hopened]
      refine Ledger.Step.opens _ _ ?_ ?_ (hguard hfind _ hslots)
      · rw [hclosed, Ledger.slots_closed, if_neg hlt.ne']
        exact slots_eq_none_iff.mpr hfind
      · rw [hclosed]
        intro hmark
        rcases le_max_iff.mp hmark with hmark | hmark
        · exact hlive hmark
        · exact absurd (WithBot.coe_le_coe.mp hmark) (not_le.mpr hlt)

theorem ledger_stored (rs : FecRs) {sh : Shard} {f : FrameAsm}
    (h : s.frames.find? sh.nv.frameIndex = some f) : ledger (stored s rs sh f) = ledger s := by
  unfold ledger
  rw [Ledger.mk.injEq]
  refine ⟨?_, rfl, rfl⟩
  funext k
  rw [find?_stored]
  split
  · rename_i heq
    rw [heq, h, Option.map_some, Option.map_some, (absorb_kept rs f sh).2]
  · rfl

/-- The outcome of sending a frame out. -/
def completion (k : UInt32) (f : FrameAsm) : Outcome UInt32 :=
  if f.assemble.isSome then Outcome.sent k else Outcome.lost k

theorem outcome_completionEvent (k : UInt32) (f : FrameAsm) :
    outcome (completionEvent k f) = some (completion k f) := by
  unfold completionEvent completion
  cases f.assemble <;> rfl

theorem index_completion (k : UInt32) (f : FrameAsm) : (completion k f).index = k := by
  unfold completion
  split <;> rfl

/-- Just before a frame is sent out every older slot is closed. -/
theorem slots_retireBelow (s : Depacketizer) (k k' : UInt32) :
    (ledger ((s.frames.below k).foldl retireKey s)).slots k' =
      if k' < k then none else (ledger s).slots k' := by
  change (((s.frames.below k).foldl retireKey s).frames.find? k').map FrameAsm.delivered = _
  rw [find?_retireBelow]
  split <;> rfl

theorem ledger_emitCompleted {k : UInt32} {f : FrameAsm} (h : s.frames.find? k = some f) :
    ledger (s.emitCompleted k) =
      (ledger ((s.frames.below k).foldl retireKey s)).completed (completion k f) := by
  rw [emitCompleted_eq s h]
  unfold Ledger.completed
  rw [ledger, Ledger.mk.injEq]
  refine ⟨?_, rfl, ?_⟩
  · funext k'
    rw [Function.update_apply, index_completion]
    simp only [SortedMap.find?_insert]
    split <;> rfl
  · rw [List.filterMap_append, List.filterMap_cons, outcome_completionEvent]
    rfl

theorem step_completes {k : UInt32} {f : FrameAsm} (h : s.frames.find? k = some f)
    (hopen : f.delivered = false) :
    Ledger.Step G (ledger ((s.frames.below k).foldl retireKey s)) (ledger (s.emitCompleted k)) := by
  rw [ledger_emitCompleted h]
  refine Ledger.Step.completes _ _ ?_ ?_
  · rw [index_completion, slots_retireBelow, if_neg (lt_irrefl k)]
    rw [slots_eq_some h, hopen]
  · intro k' hlt
    rw [index_completion] at hlt
    rw [slots_retireBelow, if_pos hlt]

/-- Up to the shard being stored, a push is a sequence of ledger steps. -/
theorem steps_stored (rs : FecRs) (hkeys : Keyed s) {sh : Shard} {now : Instant}
    {s' : Depacketizer} {f : FrameAsm} (hretired : s.isRetired sh.nv.frameIndex = false)
    (hopen : s.openSlot sh now = some s') (hf : s'.frames.find? sh.nv.frameIndex = some f)
    (hguard : s.frames.find? sh.nv.frameIndex = none → GuardAt G s sh.nv.frameIndex) :
    Ledger.Steps G (ledger s) (ledger (stored s' rs sh f)) ∧ Keyed (stored s' rs sh f) := by
  have hkeys' := FramesAll.openSlot (keyRule rs) hkeys trivial hopen
  rw [ledger_stored rs hf]
  exact ⟨steps_openSlot hkeys hretired hopen hguard, FramesAll.stored (keyRule rs) hkeys' trivial hf⟩

/-- A stored shard that completes its frame sends it out. -/
theorem steps_completed (rs : FecRs) (hkeys : Keyed s) {sh : Shard} {f : FrameAsm}
    (hself : s.frames.find? sh.nv.frameIndex = some (f.absorb rs sh).1)
    (hfresh : (f.absorb rs sh).2 = true) :
    Ledger.Steps G (ledger s) (ledger (s.emitCompleted sh.nv.frameIndex)) := by
  have hundelivered : (f.absorb rs sh).1.delivered = false :=
    (absorb_kept rs f sh).2.trans (absorb_fresh hfresh)
  exact (steps_retireAll hkeys _).tail (step_completes hself hundelivered)

/-- Every operation is a sequence of ledger steps; it opens at most the frame of
its own shard. -/
theorem steps_step (rs : FecRs) (hkeys : Keyed s) (op : Op)
    (hguard : ∀ datagram now sh, op = Op.push datagram now → parseShard datagram = some sh →
      s.isRetired sh.nv.frameIndex = false → (s.openSlot sh now).isSome = true →
      s.frames.find? sh.nv.frameIndex = none → GuardAt G s sh.nv.frameIndex) :
    Ledger.Steps G (ledger s) (ledger (step rs s op)) := by
  cases op with
  | push datagram now =>
    rcases push_cases s rs datagram now with hsame | ⟨sh, s', hparse, hretired, hopen, hpush⟩
    · rw [step, hsame]
    · obtain ⟨f, hf⟩ := find?_of_openSlot s hopen
      obtain ⟨hsteps, hkeyed⟩ := steps_stored rs hkeys hretired hopen hf
        (hguard datagram now sh rfl hparse hretired (by rw [hopen]; rfl))
      rw [step, hpush, store_eq s' rs hf]
      split
      · rename_i hout
        exact hsteps.trans (steps_completed rs hkeyed (find?_stored_self s' rs sh f) hout.1)
      · exact hsteps
  | expire now => exact steps_retireAll hkeys _

end KmControl.FrameLedger
