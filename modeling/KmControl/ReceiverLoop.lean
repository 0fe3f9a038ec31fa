import KmControl.VideoLink

/-!
The client's loop empties the queue after every turn, and the reassembler does not look at
the queue. So the frames handed on over a run are those that a reassembler sends out whose
queue is never read, up to the turn in which the loop ends.
-/
namespace KmControl.ReceiverLoop

open GsProto MoonVideo MoonVideoSteps VideoLink
open Depacketizer (retireKey)

section Queue

variable (pre : List VideoEvent) (s : Depacketizer)

/-- The same reassembler with earlier events still in its queue. -/
def behind : Depacketizer := { s with events := pre ++ s.events }

theorem retireKey_behind (k : UInt32) : (behind pre s).retireKey k = behind pre (s.retireKey k) := by
  cases hfind : s.frames.find? k with
  | none => rw [retireKey_of_none s hfind, retireKey_of_none (behind pre s) hfind]
  | some f =>
    rw [retireKey_of_some s hfind, retireKey_of_some (behind pre s) hfind]
    simp [behind]

theorem retireAll_behind (ks : List UInt32) :
    ks.foldl retireKey (behind pre s) = behind pre (ks.foldl retireKey s) := by
  induction ks generalizing s with
  | nil => rfl
  | cons k rest ih => rw [List.foldl_cons, List.foldl_cons, retireKey_behind, ih]

theorem emitCompleted_behind {k : UInt32} {f : FrameAsm} (h : s.frames.find? k = some f) :
    (behind pre s).emitCompleted k = behind pre (s.emitCompleted k) := by
  have hbelow : ((behind pre s).frames.below k).foldl retireKey (behind pre s) =
      behind pre ((s.frames.below k).foldl retireKey s) := retireAll_behind pre s _
  rw [emitCompleted_eq s h, emitCompleted_eq (behind pre s) h, hbelow]
  simp [behind]

theorem openSlot_behind (sh : Shard) (now : Instant) :
    (behind pre s).openSlot sh now = (s.openSlot sh now).map (behind pre) := by
  unfold Depacketizer.openSlot
  cases hfind : s.frames.find? sh.nv.frameIndex with
  | some f => simp [behind, hfind]
  | none =>
    by_cases hsize : maxInflightFrames ≤ s.frames.size
    · cases hfirst : s.frames.first? with
      | none => simp [behind, hfind, hsize, hfirst]
      | some oldest =>
        by_cases hlt : sh.nv.frameIndex < oldest.1
        · simp [behind, hfind, hsize, hfirst, hlt]
        · simp [behind, hfind, hsize, hfirst, hlt, retire_eq]
    · simp [behind, hfind, hsize]

theorem store_behind (rs : FecRs) {sh : Shard} {f : FrameAsm}
    (h : s.frames.find? sh.nv.frameIndex = some f) :
    (behind pre s).store rs sh = behind pre (s.store rs sh) := by
  rw [store_eq s rs h, store_eq (behind pre s) rs h]
  split
  · exact emitCompleted_behind pre (stored s rs sh f) (find?_stored_self s rs sh f)
  · rfl

/-- No operation looks at the queue. -/
theorem step_behind (rs : FecRs) (op : MoonVideo.Op) :
    MoonVideo.step rs (behind pre s) op = behind pre (MoonVideo.step rs s op) := by
  cases op with
  | expire now => exact retireAll_behind pre s _
  | push datagram now =>
    change (behind pre s).push rs datagram now = behind pre (s.push rs datagram now)
    unfold Depacketizer.push
    cases hparse : parseShard datagram with
    | none => rfl
    | some sh =>
      have hretired : (behind pre s).isRetired sh.nv.frameIndex = s.isRetired sh.nv.frameIndex :=
        rfl
      simp only [hretired, openSlot_behind]
      cases s.isRetired sh.nv.frameIndex with
      | true => rfl
      | false =>
        cases hopen : s.openSlot sh now with
        | none => rfl
        | some s' =>
          obtain ⟨f, hf⟩ := find?_of_openSlot s hopen
          exact store_behind pre s' rs hf

end Queue

section Turns

/-- The frames among some events, as they are handed on. -/
def ausOf (evs : List VideoEvent) : List AuFrame := (sentFrames evs).map Prod.snd

theorem ausOf_append (evs more : List VideoEvent) :
    ausOf (evs ++ more) = ausOf evs ++ ausOf more := by
  rw [ausOf, sentFrames_append, List.map_append]
  rfl

theorem hand_of_stopped {c : Receiver} (h : c.running = false) (ev : VideoEvent) :
    c.hand ev = c := by
  unfold Receiver.hand
  rw [h]
  rfl

/-- What handing on some events leaves: all of it, or part of it if the loop has ended. -/
structure HandedOn (c c' : Receiver) (aus : List AuFrame) : Prop where
  dp_eq : c'.dp = c.dp
  aus_initial : c'.aus <+: c.aus ++ aus
  aus_eq : c'.running = true → c'.aus = c.aus ++ aus

theorem handedOn_hand {c : Receiver} (h : c.running = true) (ev : VideoEvent) :
    HandedOn c (c.hand ev) (ausOf [ev]) := by
  unfold Receiver.hand
  rw [if_pos h]
  cases ev with
  | frame k au =>
    dsimp only
    split
    · exact ⟨rfl, List.prefix_refl _, fun _ => rfl⟩
    · exact ⟨rfl, List.prefix_append _ _, fun hrunning => absurd hrunning Bool.false_ne_true⟩
  | fec status =>
    have hnone : ausOf [VideoEvent.fec status] = [] := rfl
    rw [hnone]
    exact ⟨rfl, by simp, fun _ => (List.append_nil _).symm⟩
  | lost k =>
    have hnone : ausOf [VideoEvent.lost k] = [] := rfl
    rw [hnone]
    exact ⟨rfl, by simp, fun _ => (List.append_nil _).symm⟩

theorem foldl_of_stopped {c : Receiver} (h : c.running = false) (evs : List VideoEvent) :
    evs.foldl Receiver.hand c = c := by
  induction evs with
  | nil => rfl
  | cons ev rest ih => rw [List.foldl_cons, hand_of_stopped h, ih]

theorem handedOn_foldl {c : Receiver} (h : c.running = true) (evs : List VideoEvent) :
    HandedOn c (evs.foldl Receiver.hand c) (ausOf evs) := by
  induction evs generalizing c with
  | nil => exact ⟨rfl, by simp [ausOf, sentFrames], fun _ => (List.append_nil _).symm⟩
  | cons ev rest ih =>
    have hfirst := handedOn_hand h ev
    have hsplit : ausOf (ev :: rest) = ausOf [ev] ++ ausOf rest := ausOf_append [ev] rest
    rw [List.foldl_cons, hsplit]
    cases hrunning : (c.hand ev).running with
    | false =>
      rw [foldl_of_stopped hrunning]
      refine ⟨hfirst.dp_eq, ?_, fun h' => ?_⟩
      · rw [← List.append_assoc]
        exact hfirst.aus_initial.trans (List.prefix_append _ _)
      · rw [hrunning] at h'
        cases h'
    | true =>
      have hrest := ih hrunning
      have hsum : c.aus ++ (ausOf [ev] ++ ausOf rest) = (c.hand ev).aus ++ ausOf rest := by
        rw [← List.append_assoc, ← hfirst.aus_eq hrunning]
      refine ⟨hrest.dp_eq.trans hfirst.dp_eq, ?_, ?_⟩
      · rw [hsum]
        exact hrest.aus_initial
      · rw [hsum]
        exact hrest.aus_eq

/-- The loop against a reassembler that has been fed the same and is not read. -/
structure Reads (c : Receiver) (full : Depacketizer) : Prop where
  aus_initial : c.aus <+: ausOf full.events
  going : c.running = true → full = behind full.events c.dp ∧ c.dp.events = [] ∧
    c.aus = ausOf full.events

theorem reads_new : Reads Receiver.new Depacketizer.new :=
  ⟨List.prefix_refl _, fun _ => ⟨rfl, rfl, rfl⟩⟩

variable {c : Receiver} {full : Depacketizer}

theorem Reads.of_stopped (h : Reads c full) {c' : Receiver} (haus : c'.aus = c.aus)
    (hstopped : c'.running = false) : Reads c' full :=
  ⟨haus ▸ h.aus_initial, fun hrunning => by rw [hstopped] at hrunning; cases hrunning⟩

/-- What does not concern the reassembler. -/
theorem Reads.same (h : Reads c full) {c' : Receiver} (hdp : c'.dp = c.dp)
    (haus : c'.aus = c.aus) (hrunning : c'.running = true → c.running = true) : Reads c' full := by
  refine ⟨haus ▸ h.aus_initial, fun h' => ?_⟩
  rw [hdp, haus]
  exact h.going (hrunning h')

theorem Reads.next (h : Reads c full) : Reads c.next full :=
  h.same rfl rfl fun hrunning => (Bool.and_eq_true _ _ ▸ hrunning).1

/-- A turn with an operation of the reassembler. -/
theorem Reads.feed (h : Reads c full) (hrunning : c.running = true) (rs : FecRs)
    (op : MoonVideo.Op) : Reads (c.feed rs op) (MoonVideo.step rs full op) := by
  obtain ⟨hfull, hempty, haus⟩ := h.going hrunning
  generalize hevents : full.events = before at hfull haus
  have hstep : MoonVideo.step rs full op = behind before (MoonVideo.step rs c.dp op) := by
    rw [hfull]
    exact step_behind before c.dp rs op
  let start : Receiver := { c with dp := { MoonVideo.step rs c.dp op with events := [] } }
  have hhanded : HandedOn start (Receiver.drain { c with dp := MoonVideo.step rs c.dp op })
      (ausOf (MoonVideo.step rs c.dp op).events) :=
    handedOn_foldl (show start.running = true from hrunning) _
  have hevents : (MoonVideo.step rs full op).events =
      before ++ (MoonVideo.step rs c.dp op).events := congrArg Depacketizer.events hstep
  refine Reads.next ⟨?_, fun hgoing => ⟨?_, ?_, ?_⟩⟩
  · rw [hevents, ausOf_append, ← haus]
    exact hhanded.aus_initial
  · rw [hhanded.dp_eq, hstep]
    simp [behind, start]
  · rw [hhanded.dp_eq]
  · rw [hevents, ausOf_append, ← haus]
    exact hhanded.aus_eq hgoing

end Turns

end KmControl.ReceiverLoop
