import KmControl.MoonVideo

/-!
What each operation of the reassembler does to the frames in flight, to the
retirement mark and to the events, stated once. A property of single frames
that creation, absorbing a shard and delivery keep holds of all frames in
flight after every run.
-/
namespace KmControl.MoonVideoSteps

open GsProto MoonVideo Depacketizer

/-- Recovery keeps the dimensions of a block. -/
theorem tryRecover_dims (rs : FecRs) (blk : BlockAsm) :
    (blk.tryRecover rs).2.dataShards = blk.dataShards ∧
      (blk.tryRecover rs).2.paritySlots = blk.paritySlots := by
  unfold BlockAsm.tryRecover
  split
  · exact ⟨rfl, rfl⟩
  split
  · exact ⟨rfl, rfl⟩
  split
  · exact ⟨rfl, rfl⟩
  split
  · split
    · exact ⟨rfl, rfl⟩
    · exact ⟨rfl, rfl⟩
  · exact ⟨rfl, rfl⟩

theorem setBlock_setBlock (f : FrameAsm) (b : Fin maxFecBlocks) (blk blk' : BlockAsm) :
    (f.setBlock b blk).setBlock b blk' = f.setBlock b blk' := by
  unfold FrameAsm.setBlock
  simp only [Function.update_idem]

/-- The block that a shard of a frame goes to. -/
def target (f : FrameAsm) (sh : Shard) : BlockAsm := (f.blocks sh.block).getD sh.newBlock

/-- Absorbing a shard changes at most its block, and no dimension of it. -/
theorem absorb_cases (rs : FecRs) (f : FrameAsm) (sh : Shard) :
    (f.absorb rs sh).1 = f ∨ ∃ blk, (f.absorb rs sh).1 = f.setBlock sh.block blk ∧
      blk.dataShards = (target f sh).dataShards ∧
      blk.paritySlots = (target f sh).paritySlots := by
  unfold FrameAsm.absorb
  split
  · exact Or.inl rfl
  right
  simp only [setBlock_setBlock]
  split
  · exact ⟨target f sh, rfl, rfl, rfl⟩
  split
  · split
    · exact ⟨target f sh, rfl, rfl, rfl⟩
    split
    · exact ⟨_, rfl, rfl, rfl⟩
    split
    · exact ⟨_, rfl, rfl, rfl⟩
    · obtain ⟨hdata, hparity⟩ := tryRecover_dims rs (BlockAsm.record (target f sh) _ _ _)
      exact ⟨_, rfl, hdata, hparity⟩
  · exact ⟨target f sh, rfl, rfl, rfl⟩

theorem absorb_kept (rs : FecRs) (f : FrameAsm) (sh : Shard) :
    (f.absorb rs sh).1.frameIndex = f.frameIndex ∧ (f.absorb rs sh).1.delivered = f.delivered := by
  rcases absorb_cases rs f sh with hsame | ⟨blk, hset, -⟩
  · rw [hsame]
    exact ⟨rfl, rfl⟩
  · rw [hset]
    exact ⟨rfl, rfl⟩

theorem absorb_firstSeen (rs : FecRs) (f : FrameAsm) (sh : Shard) :
    (f.absorb rs sh).1.firstSeen = f.firstSeen := by
  rcases absorb_cases rs f sh with hsame | ⟨blk, hset, -⟩
  · rw [hsame]
  · rw [hset]
    rfl

/-- Only a shard of an undelivered frame is flagged. -/
theorem absorb_fresh {rs : FecRs} {f : FrameAsm} {sh : Shard} (h : (f.absorb rs sh).2 = true) :
    f.delivered = false := by
  unfold FrameAsm.absorb at h
  split at h
  · cases h
  dsimp only at h
  split at h
  · cases h
  split at h
  · split at h
    · cases h
    split at h
    · cases h
    · rename_i hdelivered
      exact eq_false_of_ne_true hdelivered
  · cases h

variable (s : Depacketizer)

/-- The event that ends a frame when it is sent out. -/
def completionEvent (k : UInt32) (f : FrameAsm) : VideoEvent :=
  match f.assemble with
  | some au => VideoEvent.frame k au
  | none => VideoEvent.lost k

/-- The events of closing a frame. -/
def closingEvents (f : FrameAsm) : List VideoEvent :=
  reportFec f (!f.delivered) ++ if f.delivered then [] else [VideoEvent.lost f.frameIndex]

theorem frame_not_mem_closingEvents (f : FrameAsm) (k : UInt32) (au : AuFrame) :
    VideoEvent.frame k au ∉ closingEvents f := by
  intro h
  rcases List.mem_append.mp h with h | h
  · unfold reportFec at h
    obtain ⟨b, -, hb⟩ := List.mem_flatMap.mp h
    split at hb
    · split at hb <;> simp at hb
    · split at hb
      · split at hb <;> simp at hb
      · simp at hb
  · split at h <;> simp at h

/-- The frames that were sent out, in the order of the events. -/
def sentFrames (evs : List VideoEvent) : List (UInt32 × AuFrame) :=
  evs.filterMap fun
    | .frame k au => some (k, au)
    | _ => none

def sentIndices (evs : List VideoEvent) : List UInt32 := (sentFrames evs).map Prod.fst

theorem sentFrames_append (evs more : List VideoEvent) :
    sentFrames (evs ++ more) = sentFrames evs ++ sentFrames more :=
  List.filterMap_append

theorem sentFrames_eq_nil {evs : List VideoEvent}
    (h : ∀ k au, VideoEvent.frame k au ∉ evs) : sentFrames evs = [] := by
  refine List.filterMap_eq_nil_iff.mpr fun ev hev => ?_
  cases ev with
  | frame k au => exact absurd hev (h k au)
  | lost k => rfl
  | fec status => rfl

theorem retire_eq (f : FrameAsm) :
    s.retire f = { frames := s.frames, lastRetired := raise s.lastRetired f.frameIndex,
                   events := s.events ++ closingEvents f } := by
  unfold retire closingEvents emit
  cases f.delivered <;> simp

theorem retireKey_of_some {k : UInt32} {f : FrameAsm} (h : s.frames.find? k = some f) :
    s.retireKey k = { frames := s.frames.erase k, lastRetired := raise s.lastRetired f.frameIndex,
                      events := s.events ++ closingEvents f } := by
  unfold retireKey
  rw [h]
  exact retire_eq _ f

theorem retireKey_of_none {k : UInt32} (h : s.frames.find? k = none) : s.retireKey k = s := by
  unfold retireKey
  rw [h]

theorem find?_retireKey (k k' : UInt32) :
    (s.retireKey k).frames.find? k' = if k' = k then none else s.frames.find? k' := by
  cases h : s.frames.find? k with
  | none =>
    rw [retireKey_of_none s h]
    split
    · rename_i heq
      rw [heq, h]
    · rfl
  | some f =>
    rw [retireKey_of_some s h]
    exact s.frames.find?_erase k k'

theorem find?_retireAll (ks : List UInt32) (k' : UInt32) :
    (ks.foldl retireKey s).frames.find? k' = if k' ∈ ks then none else s.frames.find? k' := by
  induction ks generalizing s with
  | nil => simp
  | cons k rest ih =>
    rw [List.foldl_cons, ih, find?_retireKey]
    by_cases hrest : k' ∈ rest
    · rw [if_pos hrest, if_pos (List.mem_cons_of_mem _ hrest)]
    · rw [if_neg hrest]
      by_cases hk : k' = k
      · rw [if_pos hk, if_pos (hk ▸ List.mem_cons_self)]
      · rw [if_neg hk, if_neg (by simp [hk, hrest])]

/-- Closing the frames older than `k` leaves exactly those from `k` on. -/
theorem find?_retireBelow (k k' : UInt32) :
    ((s.frames.below k).foldl retireKey s).frames.find? k' =
      if k' < k then none else s.frames.find? k' := by
  rw [find?_retireAll]
  by_cases hlt : k' < k
  · rw [if_pos hlt]
    cases h : s.frames.find? k' with
    | none => simp
    | some f => rw [if_pos ((SortedMap.mem_below_iff _ _ _).mpr ⟨hlt, f, h⟩)]
  · rw [if_neg hlt, if_neg fun hmem => hlt ((SortedMap.mem_below_iff _ _ _).mp hmem).1]

theorem emitCompleted_eq {k : UInt32} {f : FrameAsm} (h : s.frames.find? k = some f) :
    s.emitCompleted k =
      { frames := ((s.frames.below k).foldl retireKey s).frames.insert k
          { f with delivered := true }
        lastRetired := ((s.frames.below k).foldl retireKey s).lastRetired
        events := ((s.frames.below k).foldl retireKey s).events ++ [completionEvent k f] } := by
  have hkept : ((s.frames.below k).foldl retireKey s).frames.find? k = some f := by
    rw [find?_retireBelow, if_neg (lt_irrefl k), h]
  unfold emitCompleted completionEvent
  simp only [hkept]
  cases f.assemble <;> rfl

theorem find?_emitCompleted {k : UInt32} {f : FrameAsm} (h : s.frames.find? k = some f)
    (k' : UInt32) : (s.emitCompleted k).frames.find? k' =
      if k' = k then some { f with delivered := true }
      else if k' < k then none else s.frames.find? k' := by
  rw [emitCompleted_eq s h]
  simp only [SortedMap.find?_insert, find?_retireBelow]

/-- The closing events of several frames, one frame after the other. -/
def closings (ks : List UInt32) : List VideoEvent :=
  ks.flatMap fun k => (s.frames.find? k).elim [] closingEvents

theorem mem_closings {ks : List UInt32} {ev : VideoEvent} (h : ev ∈ closings s ks) :
    ∃ k ∈ ks, ∃ f, s.frames.find? k = some f ∧ ev ∈ closingEvents f := by
  obtain ⟨k, hk, hev⟩ := List.mem_flatMap.mp h
  cases hfind : s.frames.find? k with
  | none =>
    rw [hfind] at hev
    cases hev
  | some f =>
    rw [hfind] at hev
    exact ⟨k, hk, f, hfind, hev⟩

theorem events_retireAll {ks : List UInt32} (hnodup : ks.Nodup) :
    (ks.foldl retireKey s).events = s.events ++ closings s ks := by
  induction ks generalizing s with
  | nil => exact (List.append_nil _).symm
  | cons k rest ih =>
    obtain ⟨hk, hrest⟩ := List.nodup_cons.mp hnodup
    have hsame : closings (s.retireKey k) rest = closings s rest := by
      unfold closings
      refine List.flatMap_congr fun k' hk' => ?_
      have hne : k' ≠ k := fun heq => hk (heq ▸ hk')
      rw [find?_retireKey, if_neg hne]
    have hcons : closings s (k :: rest) =
        (s.frames.find? k).elim [] closingEvents ++ closings s rest := rfl
    rw [List.foldl_cons, ih _ hrest, hsame, hcons]
    cases hfind : s.frames.find? k with
    | none =>
      rw [retireKey_of_none s hfind]
      rfl
    | some f =>
      rw [retireKey_of_some s hfind]
      exact List.append_assoc _ _ _

theorem events_emitCompleted {k : UInt32} {f : FrameAsm} (h : s.frames.find? k = some f) :
    (s.emitCompleted k).events =
      s.events ++ closings s (s.frames.below k) ++ [completionEvent k f] := by
  rw [emitCompleted_eq s h]
  exact congrArg (· ++ _) (events_retireAll s (s.frames.nodup_below k))

/-- Raising the mark retires what lies at or below the new index. -/
theorem any_raise (lastRetired : Option UInt32) (k j : UInt32) :
    ((raise lastRetired k).any fun c => decide (j ≤ c)) = true ↔
      (lastRetired.any fun c => decide (j ≤ c)) = true ∨ j ≤ k := by
  cases lastRetired with
  | none => simp [raise]
  | some c =>
    unfold raise
    by_cases hlt : k < c
    · simp only [if_pos hlt, Option.any_some, decide_eq_true_eq]
      exact ⟨Or.inl, fun h => h.elim id fun hle => hle.trans hlt.le⟩
    · simp only [if_neg hlt, Option.any_some, decide_eq_true_eq]
      exact ⟨Or.inr, fun h => h.elim (fun hle => hle.trans (not_lt.mp hlt)) id⟩

/-- What several closings retire lies at or below one of the closed frames. -/
theorem isRetired_retireAll {ks : List UInt32} {j : UInt32}
    (h : (ks.foldl retireKey s).isRetired j = true) :
    s.isRetired j = true ∨ ∃ k ∈ ks, ∃ f, s.frames.find? k = some f ∧ j ≤ f.frameIndex := by
  induction ks generalizing s with
  | nil => exact Or.inl h
  | cons k rest ih =>
    rcases ih (s.retireKey k) h with hmark | ⟨k', hk', f, hf, hle⟩
    · cases hfind : s.frames.find? k with
      | none =>
        rw [retireKey_of_none s hfind] at hmark
        exact Or.inl hmark
      | some f =>
        rw [retireKey_of_some s hfind] at hmark
        rcases (any_raise _ _ _).mp hmark with hold | hle
        · exact Or.inl hold
        · exact Or.inr ⟨k, List.mem_cons_self, f, hfind, hle⟩
    · rw [find?_retireKey] at hf
      split at hf
      · cases hf
      · exact Or.inr ⟨k', List.mem_cons_of_mem _ hk', f, hf, hle⟩

/-- The frame that a shard opens. -/
def freshFrame (sh : Shard) (now : Instant) : FrameAsm :=
  FrameAsm.new sh.nv.frameIndex sh.nv.blockCount sh.payload.length now

/-- How a frame gets its slot: it has one, or there is room, or the oldest leaves. -/
theorem openSlot_cases {sh : Shard} {now : Instant} {s' : Depacketizer}
    (h : s.openSlot sh now = some s') :
    ((∃ f, s.frames.find? sh.nv.frameIndex = some f) ∧ s' = s) ∨
    (s.frames.find? sh.nv.frameIndex = none ∧ s.frames.size < maxInflightFrames ∧
      s' = { s with frames := s.frames.insert sh.nv.frameIndex (freshFrame sh now) }) ∨
    (s.frames.find? sh.nv.frameIndex = none ∧ ∃ oldest f,
      s.frames.first? = some (oldest, f) ∧ oldest < sh.nv.frameIndex ∧
      s' = { frames := (s.frames.erase oldest).insert sh.nv.frameIndex (freshFrame sh now)
             lastRetired := raise s.lastRetired f.frameIndex
             events := s.events ++ closingEvents f }) := by
  unfold openSlot at h
  cases hfind : s.frames.find? sh.nv.frameIndex with
  | some f =>
    simp only [hfind, Option.isSome_some, if_true, Option.some.injEq] at h
    exact Or.inl ⟨⟨f, rfl⟩, h.symm⟩
  | none =>
    right
    simp only [hfind, Option.isSome_none, Bool.false_eq_true, if_false] at h
    by_cases hsize : maxInflightFrames ≤ s.frames.size
    · right
      rw [if_pos hsize] at h
      cases hfirst : s.frames.first? with
      | none => simp [hfirst] at h
      | some entry =>
        obtain ⟨oldest, f⟩ := entry
        simp only [hfirst, retire_eq] at h
        by_cases hlt : sh.nv.frameIndex < oldest
        · simp [hlt] at h
        · rw [if_neg hlt, Option.some.injEq] at h
          have hne : oldest ≠ sh.nv.frameIndex := by
            intro heq
            rw [← heq, SortedMap.find?_of_first? hfirst] at hfind
            cases hfind
          exact ⟨rfl, oldest, f, rfl, lt_of_le_of_ne (not_lt.mp hlt) hne, h.symm⟩
    · left
      rw [if_neg hsize, Option.some.injEq] at h
      exact ⟨rfl, not_le.mp hsize, h.symm⟩

/-- After a slot has been opened the frame has one. -/
theorem find?_of_openSlot {sh : Shard} {now : Instant} {s' : Depacketizer}
    (h : s.openSlot sh now = some s') :
    ∃ f, s'.frames.find? sh.nv.frameIndex = some f := by
  rcases openSlot_cases s h with ⟨hold, rfl⟩ | ⟨-, -, rfl⟩ | ⟨-, oldest, f, -, -, rfl⟩
  · exact hold
  · exact ⟨freshFrame sh now, by simp⟩
  · exact ⟨freshFrame sh now, by simp⟩

/-- Opening a slot adds no frame but the one of the shard. -/
theorem find?_of_openSlot_ne {sh : Shard} {now : Instant} {s' : Depacketizer}
    (h : s.openSlot sh now = some s') {k : UInt32} (hk : k ≠ sh.nv.frameIndex) {g : FrameAsm}
    (hg : s'.frames.find? k = some g) : s.frames.find? k = some g := by
  rcases openSlot_cases s h with ⟨-, rfl⟩ | ⟨-, -, rfl⟩ | ⟨-, oldest, f, -, -, rfl⟩
  · exact hg
  · rwa [SortedMap.find?_insert, if_neg hk] at hg
  · rw [SortedMap.find?_insert, if_neg hk, SortedMap.find?_erase] at hg
    split at hg
    · cases hg
    · exact hg

/-- Whether a shard of a frame is taken: the frame is not retired and it has a
slot, there is room, or it is not older than the oldest frame in flight. -/
def admits (k : UInt32) : Bool :=
  !s.isRetired k && ((s.frames.find? k).isSome || decide (s.frames.size < maxInflightFrames) ||
    s.frames.first?.any fun oldest => decide (oldest.1 ≤ k))

theorem admits_iff (sh : Shard) (now : Instant) : admits s sh.nv.frameIndex = true ↔
    s.isRetired sh.nv.frameIndex = false ∧ ∃ s', s.openSlot sh now = some s' := by
  unfold admits openSlot
  cases s.isRetired sh.nv.frameIndex with
  | true => simp
  | false =>
    cases hfind : s.frames.find? sh.nv.frameIndex with
    | some f => simp
    | none =>
      by_cases hsize : maxInflightFrames ≤ s.frames.size
      · cases hfirst : s.frames.first? with
        | none =>
          have hzero := (SortedMap.first?_eq_none_iff _).mp hfirst
          rw [hzero] at hsize
          exact absurd hsize (by decide)
        | some oldest =>
          by_cases hlt : sh.nv.frameIndex < oldest.1
          · simp [hlt, hsize]
          · simp [hlt, hsize, not_lt.mp hlt]
      · simp [hsize, not_le.mp hsize]

variable (rs : FecRs)

/-- A push changes nothing, or stores a shard of a frame that is not retired. -/
theorem push_cases (datagram : Bytes) (now : Instant) :
    s.push rs datagram now = s ∨ ∃ sh s', parseShard datagram = some sh ∧
      s.isRetired sh.nv.frameIndex = false ∧ s.openSlot sh now = some s' ∧
      s.push rs datagram now = s'.store rs sh := by
  unfold push
  cases hparse : parseShard datagram with
  | none => exact Or.inl rfl
  | some sh =>
    cases hretired : s.isRetired sh.nv.frameIndex with
    | true => exact Or.inl (by simp [hretired])
    | false =>
      cases hopen : s.openSlot sh now with
      | none => exact Or.inl (by simp [hretired, hopen])
      | some s' => exact Or.inr ⟨sh, s', rfl, hretired, hopen, by simp [hretired, hopen]⟩

theorem push_eq_store {datagram : Bytes} {now : Instant} {sh : Shard} {s' : Depacketizer}
    (hparse : parseShard datagram = some sh) (hretired : s.isRetired sh.nv.frameIndex = false)
    (hopen : s.openSlot sh now = some s') : s.push rs datagram now = s'.store rs sh := by
  simp [push, hparse, hretired, hopen]

/-- The state after a shard has been put into its block. -/
def stored (sh : Shard) (f : FrameAsm) : Depacketizer :=
  { s with frames := s.frames.insert sh.nv.frameIndex (f.absorb rs sh).1 }

theorem store_eq {sh : Shard} {f : FrameAsm} (h : s.frames.find? sh.nv.frameIndex = some f) :
    s.store rs sh = if (f.absorb rs sh).2 ∧ (f.absorb rs sh).1.complete
      then (stored s rs sh f).emitCompleted sh.nv.frameIndex else stored s rs sh f := by
  unfold store stored
  simp only [h]

theorem find?_stored (sh : Shard) (f : FrameAsm) (k : UInt32) :
    (stored s rs sh f).frames.find? k =
      if k = sh.nv.frameIndex then some (f.absorb rs sh).1 else s.frames.find? k :=
  s.frames.find?_insert _ _ _

theorem find?_stored_self (sh : Shard) (f : FrameAsm) :
    (stored s rs sh f).frames.find? sh.nv.frameIndex = some (f.absorb rs sh).1 :=
  (find?_stored s rs sh f _).trans (if_pos rfl)

/-- All frames in flight satisfy `P`. -/
def FramesAll (P : UInt32 → FrameAsm → Prop) : Prop :=
  ∀ k f, s.frames.find? k = some f → P k f

/-- What keeps a property of single frames: creation and absorbing for the shards
that may arrive, and delivery. -/
structure FrameRule (P : UInt32 → FrameAsm → Prop) (ok : Shard → Prop) : Prop where
  new : ∀ sh now, ok sh → P sh.nv.frameIndex (freshFrame sh now)
  absorb : ∀ sh f, ok sh → P sh.nv.frameIndex f → P sh.nv.frameIndex (f.absorb rs sh).1
  deliver : ∀ k f, P k f → P k { f with delivered := true }

section FrameRule

variable {s rs} {P : UInt32 → FrameAsm → Prop} {ok : Shard → Prop}

theorem framesAll_new : FramesAll Depacketizer.new P := by
  intro k f h
  cases h

theorem FramesAll.retireAll (h : FramesAll s P) (ks : List UInt32) :
    FramesAll (ks.foldl retireKey s) P := by
  intro k f hf
  rw [find?_retireAll] at hf
  split at hf
  · cases hf
  · exact h k f hf

theorem FramesAll.openSlot (hrule : FrameRule rs P ok) (h : FramesAll s P) {sh : Shard}
    (hok : ok sh) {now : Instant} {s' : Depacketizer} (hopen : s.openSlot sh now = some s') :
    FramesAll s' P := by
  intro k f hf
  rcases openSlot_cases s hopen with ⟨-, rfl⟩ | ⟨-, -, rfl⟩ | ⟨-, oldest, g, -, -, rfl⟩
  · exact h k f hf
  · simp only [SortedMap.find?_insert] at hf
    split at hf
    · rename_i heq
      cases hf
      exact heq ▸ hrule.new sh now hok
    · exact h k f hf
  · simp only [SortedMap.find?_insert, SortedMap.find?_erase] at hf
    split at hf
    · rename_i heq
      cases hf
      exact heq ▸ hrule.new sh now hok
    · split at hf
      · cases hf
      · exact h k f hf

theorem FramesAll.stored (hrule : FrameRule rs P ok) (h : FramesAll s P) {sh : Shard}
    (hok : ok sh) {f : FrameAsm} (hf : s.frames.find? sh.nv.frameIndex = some f) :
    FramesAll (stored s rs sh f) P := by
  intro k g hg
  rw [find?_stored] at hg
  split at hg
  · rename_i heq
    cases hg
    exact heq ▸ hrule.absorb sh f hok (h _ f hf)
  · exact h k g hg

theorem FramesAll.emitCompleted (hrule : FrameRule rs P ok) (h : FramesAll s P) {k : UInt32}
    {f : FrameAsm} (hf : s.frames.find? k = some f) : FramesAll (s.emitCompleted k) P := by
  intro k' g hg
  rw [find?_emitCompleted s hf] at hg
  split at hg
  · rename_i heq
    cases hg
    exact heq ▸ hrule.deliver k f (h k f hf)
  · split at hg
    · cases hg
    · exact h k' g hg

theorem FramesAll.store (hrule : FrameRule rs P ok) (h : FramesAll s P) {sh : Shard}
    (hok : ok sh) {f : FrameAsm} (hf : s.frames.find? sh.nv.frameIndex = some f) :
    FramesAll (s.store rs sh) P := by
  have hstored := FramesAll.stored hrule h hok hf
  rw [store_eq s rs hf]
  split
  · exact FramesAll.emitCompleted hrule hstored (find?_stored_self s rs sh f)
  · exact hstored

/-- One operation keeps a property of all frames. -/
theorem FramesAll.step (hrule : FrameRule rs P ok) (h : FramesAll s P) (op : Op)
    (hok : ∀ datagram now, op = Op.push datagram now →
      ∀ sh, parseShard datagram = some sh → ok sh) : FramesAll (step rs s op) P := by
  cases op with
  | push datagram now =>
    rcases push_cases s rs datagram now with hsame | ⟨sh, s', hparse, -, hopen, hpush⟩
    · exact (congrArg (FramesAll · P) hsame).mpr h
    · obtain ⟨f, hf⟩ := find?_of_openSlot s hopen
      have hsh := hok datagram now rfl sh hparse
      have hs' := FramesAll.openSlot hrule h hsh hopen
      exact (congrArg (FramesAll · P) hpush).mpr (FramesAll.store hrule hs' hsh hf)
  | expire now => exact h.retireAll _

/-- Every delivered frame was assembled from a frame in flight with `P`. -/
def FrameEvents (s : Depacketizer) (P : UInt32 → FrameAsm → Prop) : Prop :=
  ∀ k au, VideoEvent.frame k au ∈ s.events → ∃ f, P k f ∧ f.assemble = some au

/-- Closing frames delivers nothing. -/
theorem FrameEvents.retireKey (h : FrameEvents s P) (k : UInt32) :
    FrameEvents (s.retireKey k) P := by
  intro k' au hmem
  cases hfind : s.frames.find? k with
  | none =>
    rw [retireKey_of_none s hfind] at hmem
    exact h k' au hmem
  | some f =>
    rw [retireKey_of_some s hfind] at hmem
    rcases List.mem_append.mp hmem with hold | hclose
    · exact h k' au hold
    · exact absurd hclose (frame_not_mem_closingEvents f k' au)

theorem FrameEvents.retireAll (h : FrameEvents s P) (ks : List UInt32) :
    FrameEvents (ks.foldl Depacketizer.retireKey s) P := by
  induction ks generalizing s with
  | nil => exact h
  | cons k rest ih => exact ih (h.retireKey k)

theorem FrameEvents.openSlot (h : FrameEvents s P) {sh : Shard} {now : Instant}
    {s' : Depacketizer} (hopen : s.openSlot sh now = some s') : FrameEvents s' P := by
  rcases openSlot_cases s hopen with ⟨-, rfl⟩ | ⟨-, -, rfl⟩ | ⟨-, oldest, f, -, -, rfl⟩
  · exact h
  · exact h
  · intro k au hmem
    rcases List.mem_append.mp hmem with hold | hclose
    · exact h k au hold
    · exact absurd hclose (frame_not_mem_closingEvents f k au)

theorem FrameEvents.emitCompleted (h : FrameEvents s P) (hframes : FramesAll s P) {k : UInt32}
    {f : FrameAsm} (hf : s.frames.find? k = some f) : FrameEvents (s.emitCompleted k) P := by
  intro k' au hmem
  rw [emitCompleted_eq s hf] at hmem
  rcases List.mem_append.mp hmem with hold | hnew
  · exact h.retireAll _ k' au hold
  · rw [List.mem_singleton, completionEvent] at hnew
    split at hnew
    · rename_i hassemble
      cases hnew
      exact ⟨f, hframes k f hf, hassemble⟩
    · cases hnew

theorem FrameEvents.step (hrule : FrameRule rs P ok) (h : FrameEvents s P)
    (hframes : FramesAll s P) (op : Op) (hok : ∀ datagram now, op = Op.push datagram now →
      ∀ sh, parseShard datagram = some sh → ok sh) : FrameEvents (step rs s op) P := by
  cases op with
  | push datagram now =>
    rcases push_cases s rs datagram now with hsame | ⟨sh, s', hparse, -, hopen, hpush⟩
    · exact (congrArg (FrameEvents · P) hsame).mpr h
    · obtain ⟨f, hf⟩ := find?_of_openSlot s hopen
      have hsh := hok datagram now rfl sh hparse
      have hstored := FramesAll.stored hrule (FramesAll.openSlot hrule hframes hsh hopen) hsh hf
      have hopened : FrameEvents s' P := h.openSlot hopen
      have hevents : FrameEvents (stored s' rs sh f) P := hopened
      refine (congrArg (FrameEvents · P) hpush).mpr ?_
      rw [store_eq s' rs hf]
      split
      · exact hevents.emitCompleted hstored (find?_stored_self s' rs sh f)
      · exact hevents
  | expire now => exact h.retireAll _

/-- The rule over a run: all frames in flight, and all that were delivered. -/
theorem run_frames (hrule : FrameRule rs P ok) (ops : List Op)
    (hok : ∀ datagram now, Op.push datagram now ∈ ops →
      ∀ sh, parseShard datagram = some sh → ok sh) :
    FramesAll ((machine rs).run ops) P ∧ FrameEvents ((machine rs).run ops) P := by
  induction ops using List.reverseRecOn with
  | nil =>
    refine ⟨framesAll_new, ?_⟩
    intro k au h
    cases h
  | append_singleton ops op ih =>
    obtain ⟨hframes, hevents⟩ := ih fun datagram now hmem =>
      hok datagram now (List.mem_append_left _ hmem)
    have hop : ∀ datagram now, op = Op.push datagram now →
        ∀ sh, parseShard datagram = some sh → ok sh := by
      intro datagram now heq
      exact hok datagram now (by simp [heq])
    rw [Machine.run_concat]
    exact ⟨hframes.step hrule op hop, hevents.step hrule hframes op hop⟩

/-- Every frame is filed under its own index. -/
def Keyed (s : Depacketizer) : Prop := FramesAll s fun k f => f.frameIndex = k

theorem keyRule (rs : FecRs) : FrameRule rs (fun k f => f.frameIndex = k) fun _ => True where
  new := fun _ _ _ => rfl
  absorb := fun sh f _ h => (absorb_kept rs f sh).1.trans h
  deliver := fun _ _ h => h

theorem keyed_step (rs : FecRs) {s : Depacketizer} (h : Keyed s) (op : Op) :
    Keyed (step rs s op) :=
  FramesAll.step (keyRule rs) h op fun _ _ _ _ _ => trivial

end FrameRule

end KmControl.MoonVideoSteps
