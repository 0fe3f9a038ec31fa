import KmControl.FrameCounting

/-!
What the traffic of a run does to one frame and to the reports about it. Other
frames' datagrams touch the frame at most by closing it, and reports about it
come from its closing alone. The datagrams of the frame that a run takes are
listed; the indices in their headers say which shards have arrived.
-/
namespace KmControl.FrameTraffic

open DeliveryOrder FrameCounting FrameTracking GsProto LossStats MoonVideo MoonVideoSteps Packetizer
  PacketizerShards ShardReadings
open Depacketizer (retireKey)

section Aside

variable {s t u : Depacketizer} {k : UInt32}

/-- From `s` to `t` frame `k` is left alone. -/
structure Untouched (k : UInt32) (s t : Depacketizer) : Prop where
  find_eq : t.frames.find? k = s.frames.find? k
  reports_eq : ∀ b, reportsOf k b t.events = reportsOf k b s.events

/-- From `s` to `t` frame `k` is closed. -/
structure ClosedIn (k : UInt32) (fr : FrameAsm) (s t : Depacketizer) : Prop where
  before : s.frames.find? k = some fr
  after : t.frames.find? k = none
  reports_eq : ∀ b, reportsOf k b t.events =
    reportsOf k b s.events ++ reportsOf k b (closingEvents fr)

/-- What traffic of other frames does to frame `k`. -/
def Aside (k : UInt32) (s t : Depacketizer) : Prop :=
  Untouched k s t ∨ ∃ fr, ClosedIn k fr s t

theorem Untouched.refl (k : UInt32) (s : Depacketizer) : Untouched k s s := ⟨rfl, fun _ => rfl⟩

theorem Untouched.trans (h : Untouched k s t) (h' : Untouched k t u) : Untouched k s u :=
  ⟨h'.find_eq.trans h.find_eq, fun b => (h'.reports_eq b).trans (h.reports_eq b)⟩

theorem Aside.trans (h : Aside k s t) (h' : Aside k t u) : Aside k s u := by
  rcases h with h | ⟨fr, h⟩
  · rcases h' with h' | ⟨fr, h'⟩
    · exact Or.inl (h.trans h')
    · refine Or.inr ⟨fr, h.find_eq.symm.trans h'.before, h'.after, fun b => ?_⟩
      rw [h'.reports_eq, h.reports_eq]
  · rcases h' with h' | ⟨fr', h'⟩
    · refine Or.inr ⟨fr, h.before, h'.find_eq.trans h.after, fun b => ?_⟩
      rw [h'.reports_eq, h.reports_eq]
    · have hnone := h.after
      rw [h'.before] at hnone
      cases hnone

/-- A frame that is still there has been left alone. -/
theorem Aside.untouched {fr : FrameAsm} (h : Aside k s t) (hfr : t.frames.find? k = some fr) :
    Untouched k s t := by
  rcases h with h | ⟨fr', h⟩
  · exact h
  · have hnone := h.after
    rw [hfr] at hnone
    cases hnone

theorem aside_closing {j : UInt32} {fr : FrameAsm} (hkeys : Keyed s)
    (hj : s.frames.find? j = some fr) (frames : SortedMap UInt32 FrameAsm) (mark : Option UInt32)
    (hfind : frames.find? k = if k = j then none else s.frames.find? k) :
    Aside k s ⟨frames, mark, s.events ++ closingEvents fr⟩ := by
  by_cases hk : k = j
  · subst hk
    exact Or.inr ⟨fr, hj, hfind.trans (if_pos rfl), fun b => reportsOf_append _ _⟩
  · refine Or.inl ⟨hfind.trans (if_neg hk), fun b => ?_⟩
    rw [reportsOf_append, reportsOf_other (fun heq => hk (heq.symm.trans (hkeys j fr hj))),
      List.append_nil]

theorem aside_retireKey (hkeys : Keyed s) (j : UInt32) : Aside k s (s.retireKey j) := by
  cases hj : s.frames.find? j with
  | none =>
    rw [retireKey_of_none s hj]
    exact Or.inl (Untouched.refl k s)
  | some fr =>
    rw [retireKey_of_some s hj]
    exact aside_closing hkeys hj _ _ (s.frames.find?_erase j k)

theorem aside_retireAll (hkeys : Keyed s) (ks : List UInt32) :
    Aside k s (ks.foldl retireKey s) := by
  induction ks generalizing s with
  | nil => exact Or.inl (Untouched.refl k s)
  | cons j rest ih =>
    exact (aside_retireKey hkeys j).trans (ih (FramesAll.retireAll hkeys [j]))

theorem reportsOf_completion (j : UInt32) (fr : FrameAsm) (b : ℕ) :
    reportsOf k b [completionEvent j fr] = [] := by
  unfold completionEvent
  cases fr.assemble <;> rfl

/-- Sending out a frame closes older ones; the frame itself gets no report. -/
theorem aside_emitCompleted (hkeys : Keyed s) {j : UInt32} {fr : FrameAsm}
    (hj : s.frames.find? j = some fr) (hne : k ≠ j) : Aside k s (s.emitCompleted j) := by
  refine (aside_retireAll hkeys (s.frames.below j)).trans (Or.inl ⟨?_, fun b => ?_⟩)
  · rw [emitCompleted_eq s hj]
    change (SortedMap.insert _ j _).find? k = _
    rw [SortedMap.find?_insert, if_neg hne]
  · rw [emitCompleted_eq s hj]
    change reportsOf k b (_ ++ [completionEvent j fr]) = _
    rw [reportsOf_append, reportsOf_completion, List.append_nil]

theorem reports_emitCompleted (hkeys : Keyed s) {fr : FrameAsm}
    (hk : s.frames.find? k = some fr) (b : ℕ) :
    reportsOf k b (s.emitCompleted k).events = reportsOf k b s.events := by
  have hkept : ((s.frames.below k).foldl retireKey s).frames.find? k = some fr := by
    rw [find?_retireBelow, if_neg (lt_irrefl k), hk]
  have hsame := (aside_retireAll hkeys (s.frames.below k)).untouched hkept
  rw [emitCompleted_eq s hk]
  change reportsOf k b (_ ++ [completionEvent k fr]) = _
  rw [reportsOf_append, reportsOf_completion, List.append_nil, hsame.reports_eq]

theorem aside_openSlot (hkeys : Keyed s) {sh : Shard} {now : Instant}
    (hopen : s.openSlot sh now = some t) (hne : k ≠ sh.nv.frameIndex) : Aside k s t := by
  rcases openSlot_cases s hopen with ⟨-, rfl⟩ | ⟨-, -, rfl⟩ | ⟨-, oldest, fr, hfirst, -, rfl⟩
  · exact Or.inl (Untouched.refl k _)
  · refine Or.inl ⟨?_, fun _ => rfl⟩
    change (SortedMap.insert _ _ _).find? k = _
    rw [SortedMap.find?_insert, if_neg hne]
  · refine aside_closing hkeys (SortedMap.find?_of_first? hfirst) _ _ ?_
    rw [SortedMap.find?_insert, if_neg hne, SortedMap.find?_erase]

/-- Getting its own slot closes at most another frame. -/
theorem openSlot_own (hkeys : Keyed s) {sh : Shard} {now : Instant}
    (hopen : s.openSlot sh now = some t) (hk : sh.nv.frameIndex = k) :
    (∀ b, reportsOf k b t.events = reportsOf k b s.events) ∧ ∃ fr, t.frames.find? k = some fr ∧
      (s.frames.find? k = some fr ∨ s.frames.find? k = none ∧ fr = freshFrame sh now) := by
  subst hk
  rcases openSlot_cases s hopen with
    ⟨⟨fr, hfr⟩, rfl⟩ | ⟨hnone, -, rfl⟩ | ⟨hnone, oldest, fr, hfirst, hlt, rfl⟩
  · exact ⟨fun _ => rfl, fr, hfr, Or.inl hfr⟩
  · refine ⟨fun _ => rfl, freshFrame sh now, ?_, Or.inr ⟨hnone, rfl⟩⟩
    exact (SortedMap.find?_insert _ _ _ _).trans (if_pos rfl)
  · have hold := hkeys oldest fr (SortedMap.find?_of_first? hfirst)
    refine ⟨fun b => ?_, freshFrame sh now, ?_, Or.inr ⟨hnone, rfl⟩⟩
    · change reportsOf _ b (_ ++ closingEvents fr) = _
      rw [reportsOf_append, reportsOf_other (fun heq => hlt.ne (hold.symm.trans heq)),
        List.append_nil]
    · exact (SortedMap.find?_insert _ _ _ _).trans (if_pos rfl)

end Aside

section Step

variable {s : Depacketizer} {k : UInt32}

/-- The frame of a shard that is taken absorbs it and reports nothing. -/
structure Absorbed (rs : FecRs) (k : UInt32) (s t : Depacketizer) (sh : Shard) : Prop where
  absorbed : ∃ fr now d, (s.frames.find? k = some fr ∨
    s.frames.find? k = none ∧ fr = freshFrame sh now) ∧
      t.frames.find? k = some { (fr.absorb rs sh).1 with delivered := d }
  reports_eq : ∀ b, reportsOf k b t.events = reportsOf k b s.events

theorem absorbed_store {rs : FecRs} (hkeys : Keyed s) {sh : Shard} {now : Instant}
    {s' : Depacketizer} (hopen : s.openSlot sh now = some s') (hk : sh.nv.frameIndex = k) :
    Absorbed rs k s (s'.store rs sh) sh := by
  obtain ⟨hreports, fr, hfr, hfrom⟩ := openSlot_own hkeys hopen hk
  subst hk
  have hself := find?_stored_self s' rs sh fr
  have hkeyed := FramesAll.stored (keyRule rs)
    (FramesAll.openSlot (keyRule rs) hkeys trivial hopen) trivial hfr
  rw [store_eq s' rs hfr]
  split
  · refine ⟨⟨fr, now, true, hfrom, ?_⟩, fun b => ?_⟩
    · rw [find?_emitCompleted _ hself, if_pos rfl]
    · rw [reports_emitCompleted hkeyed hself]
      exact hreports b
  · exact ⟨⟨fr, now, (fr.absorb rs sh).1.delivered, hfrom, hself⟩, hreports⟩

theorem aside_store {rs : FecRs} (hkeys : Keyed s) {sh : Shard} {now : Instant}
    {s' : Depacketizer} (hopen : s.openSlot sh now = some s') (hne : k ≠ sh.nv.frameIndex) :
    Aside k s (s'.store rs sh) := by
  obtain ⟨fr, hfr⟩ := find?_of_openSlot s hopen
  have hself := find?_stored_self s' rs sh fr
  have hkeyed := FramesAll.stored (keyRule rs)
    (FramesAll.openSlot (keyRule rs) hkeys trivial hopen) trivial hfr
  have hstored : Aside k s (stored s' rs sh fr) := by
    refine (aside_openSlot hkeys hopen hne).trans (Or.inl ⟨?_, fun _ => rfl⟩)
    rw [find?_stored, if_neg hne]
  rw [store_eq s' rs hfr]
  split
  · exact hstored.trans (aside_emitCompleted hkeyed hself hne)
  · exact hstored

/-- What one operation does to frame `k`: its shard is taken, or it is at most closed. -/
theorem frame_step (rs : FecRs) (hkeys : Keyed s) (op : Op) (k : UInt32) :
    (accepted s op ≠ some k ∧ Aside k s (step rs s op)) ∨
    ∃ datagram now sh, op = Op.push datagram now ∧ parseShard datagram = some sh ∧
      sh.nv.frameIndex = k ∧ accepted s op = some k ∧ Absorbed rs k s (step rs s op) sh := by
  cases op with
  | expire now => exact Or.inl ⟨nofun, aside_retireAll hkeys _⟩
  | push datagram now =>
    cases hparse : parseShard datagram with
    | none =>
      refine Or.inl ⟨by simp [accepted, hparse], Or.inl ?_⟩
      simp only [step, Depacketizer.push, hparse]
      exact Untouched.refl k s
    | some sh =>
      by_cases hadmits : admits s sh.nv.frameIndex = true
      · obtain ⟨hretired, s', hopen⟩ := (admits_iff s sh now).mp hadmits
        have htaken := @accepted_push s datagram now sh hparse hadmits
        rw [step, push_eq_store s rs hparse hretired hopen]
        by_cases hk : sh.nv.frameIndex = k
        · exact Or.inr ⟨datagram, now, sh, rfl, hparse, hk, hk ▸ htaken,
            absorbed_store hkeys hopen hk⟩
        · refine Or.inl ⟨fun h => hk ?_, aside_store hkeys hopen (Ne.symm hk)⟩
          exact Option.some.inj (htaken.symm.trans h)
      · refine Or.inl ⟨by simp [accepted, hparse, hadmits], Or.inl ?_⟩
        rcases push_cases s rs datagram now with hsame | ⟨sh', s', hparse', hretired, hopen, -⟩
        · rw [step, hsame]
          exact Untouched.refl k s
        · rw [hparse, Option.some.injEq] at hparse'
          subst hparse'
          exact absurd ((admits_iff s sh now).mpr ⟨hretired, s', hopen⟩) hadmits

end Step

section Taken

variable {rs : FecRs} {k : UInt32}

/-- The datagram of frame `k` that an operation takes. -/
def takenNow (k : UInt32) (s : Depacketizer) : Op → List Bytes
  | .push datagram now => if accepted s (Op.push datagram now) = some k then [datagram] else []
  | .expire _ => []

/-- The datagrams of frame `k` that a run from `s` takes. -/
def takenFrom (rs : FecRs) (k : UInt32) : Depacketizer → List Op → List Bytes
  | _, [] => []
  | s, op :: ops => takenNow k s op ++ takenFrom rs k (step rs s op) ops

def taken (rs : FecRs) (ops : List Op) (k : UInt32) : List Bytes :=
  takenFrom rs k Depacketizer.new ops

/-- The indices in block `b` that the headers of some datagrams name. -/
def indicesOf (datagrams : List Bytes) (b : ℕ) : Finset ℕ :=
  (((datagrams.filterMap place).filter fun p => decide (p.1 = b)).map Prod.snd).toFinset

theorem mem_indicesOf {datagrams : List Bytes} {b i : ℕ} :
    i ∈ indicesOf datagrams b ↔ ∃ s ∈ datagrams, place s = some (b, i) := by
  unfold indicesOf
  rw [List.mem_toFinset, List.mem_map]
  constructor
  · rintro ⟨⟨b', i'⟩, hmem, rfl⟩
    obtain ⟨hmem, hb⟩ := List.mem_filter.mp hmem
    obtain ⟨s, hs, hplace⟩ := List.mem_filterMap.mp hmem
    have hb' : b' = b := of_decide_eq_true hb
    exact ⟨s, hs, hb' ▸ hplace⟩
  · rintro ⟨s, hs, hplace⟩
    exact ⟨(b, i), List.mem_filter.mpr ⟨List.mem_filterMap.mpr ⟨s, hs, hplace⟩,
      decide_eq_true rfl⟩, rfl⟩

theorem indicesOf_concat {datagrams : List Bytes} {datagram : Bytes} {b i : ℕ}
    (h : place datagram = some (b, i)) :
    indicesOf (datagrams ++ [datagram]) = receive (indicesOf datagrams) b i := by
  funext b'
  ext i'
  rw [mem_indicesOf]
  have hlast : place datagram = some (b', i') ↔ b' = b ∧ i' = i := by
    rw [h, Option.some.injEq, Prod.mk.injEq]
    exact and_congr eq_comm eq_comm
  simp only [List.mem_append, List.mem_singleton, or_and_right, exists_or, exists_eq_left, hlast,
    ← mem_indicesOf]
  unfold receive
  by_cases hb : b' = b
  · rw [hb, Function.update_self, Finset.mem_insert, or_comm]
    exact or_congr_left (and_iff_right rfl)
  · rw [Function.update_of_ne hb]
    exact or_iff_left fun heq => hb heq.1

theorem takenFrom_concat (s : Depacketizer) (ops : List Op) (op : Op) :
    takenFrom rs k s (ops ++ [op]) =
      takenFrom rs k s ops ++ takenNow k ((machine rs).runFrom s ops) op := by
  induction ops generalizing s with
  | nil => exact List.append_nil _
  | cons first rest ih =>
    rw [List.cons_append, takenFrom, takenFrom, ih, List.append_assoc]
    rfl

theorem taken_concat_ne {ops : List Op} {op : Op}
    (h : accepted ((machine rs).run ops) op ≠ some k) : taken rs (ops ++ [op]) k = taken rs ops k := by
  have hnone : takenNow k ((machine rs).run ops) op = [] := by
    cases op with
    | push datagram now => exact if_neg h
    | expire now => rfl
  rw [taken, takenFrom_concat]
  exact (congrArg _ hnone).trans (List.append_nil _)

theorem taken_concat_push {ops : List Op} {datagram : Bytes} {now : Instant}
    (h : accepted ((machine rs).run ops) (Op.push datagram now) = some k) :
    taken rs (ops ++ [Op.push datagram now]) k = taken rs ops k ++ [datagram] := by
  have hone : takenNow k ((machine rs).run ops) (Op.push datagram now) = [datagram] := if_pos h
  rw [taken, takenFrom_concat]
  exact congrArg _ hone

end Taken

end KmControl.FrameTraffic
