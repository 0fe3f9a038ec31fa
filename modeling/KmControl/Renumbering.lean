import KmControl.FrameOutcomes
import KmControl.StreamDelivery
import KmControl.VideoTaskSteps

/-!
The numbering of the host against the watermark of a client that stays. As long
as the host does not start its numbers over after a client got a frame, every
frame sent to that client comes out of its reassembler. A number used a second
time is dropped.
-/
namespace KmControl.Renumbering

open DeliveryOrder FrameOutcomes FrameTracking GsProto MoonVideo MoonVideoSteps Packetizer
  PacketizerShards StreamDelivery VideoTask VideoTaskSteps

section Numbering

variable {rs : FecRs} {Addr : Type} [DecidableEq Addr] {packetSize : ℕ} {a : Addr}
  {s : Task rs Addr}

/-- The frames sent to one client, in order. -/
def sentTo (a : Addr) (s : Task rs Addr) : List (Sent rs Addr) :=
  s.sent.filter fun x => decide (x.dst = a)

/-- An event does not start the numbers over once the client got a frame, and the
frame it sends to the client, if any, is within the limits of the packetizer. -/
def KeepsNumbers (packetSize : ℕ) (a : Addr) (s : Task rs Addr) (ev : Event Addr) : Prop :=
  (sentTo a s ≠ [] → resets s ev = false) ∧
    ∀ pct now first rest, ev = Event.takeFrame pct now → s.queue = first :: rest →
      s.clientAddr = some a →
        Sendable (s.takeReset.frameOf packetSize pct (rest.getLastD first).frame)

/-- The frames sent to the client have ascending numbers up to the current one. -/
structure Numbered (a : Addr) (s : Task rs Addr) : Prop where
  sendable : ∀ x ∈ sentTo a s, Sendable x.frame
  le : ∀ x ∈ sentTo a s, x.frame.frameNumber ≤ s.frameNumber
  ascending : ((sentTo a s).map fun x => x.frame.frameNumber).Pairwise (· < ·)

/-- A frame takes the next number, unless the numbers start over. -/
theorem number_of_not_resets {pct now : ℕ} {first : Queued}
    {rest : List Queued} {dst : Addr} (hqueue : s.queue = first :: rest)
    (hclient : s.clientAddr = some dst) (h : resets s (Event.takeFrame pct now) = false) :
    s.frameNumber < s.takeReset.frameNumber + 1 := by
  have hflags : s.sessionReset = false ∧ s.frameNumber + 1 ≠ 0 := by
    simpa [resets, hqueue, hclient] using h
  rw [takeReset_of_not_resets hflags.1]
  exact lt_add_one hflags.2

/-- Sending one more frame under the current number. -/
theorem Numbered.send (h : Numbered a s) {s' : Task rs Addr} {x : Sent rs Addr}
    (hsent : s'.sent = s.sent ++ [x]) (hnumber : x.frame.frameNumber = s'.frameNumber)
    (hgrown : ∀ y ∈ sentTo a s, y.frame.frameNumber < s'.frameNumber)
    (hsendable : x.dst = a → Sendable x.frame) : Numbered a s' := by
  by_cases hdst : x.dst = a
  · have hlist : sentTo a s' = sentTo a s ++ [x] := by
      unfold sentTo
      rw [hsent, List.filter_append, List.filter_singleton, decide_eq_true hdst]
      rfl
    refine ⟨?_, ?_, ?_⟩
    · intro y hy
      rw [hlist] at hy
      rcases List.mem_append.mp hy with hold | hnew
      · exact h.sendable y hold
      · rw [List.mem_singleton.mp hnew]
        exact hsendable hdst
    · intro y hy
      rw [hlist] at hy
      rcases List.mem_append.mp hy with hold | hnew
      · exact (hgrown y hold).le
      · rw [List.mem_singleton.mp hnew]
        exact hnumber.le
    · rw [hlist, List.map_append]
      refine List.pairwise_append.mpr ⟨h.ascending, List.pairwise_singleton _ _, ?_⟩
      intro n hn m hm
      obtain ⟨y, hy, rfl⟩ := List.mem_map.mp hn
      rw [List.mem_singleton.mp hm]
      change y.frame.frameNumber < x.frame.frameNumber
      exact hnumber ▸ hgrown y hy
  · have hlist : sentTo a s' = sentTo a s := by
      unfold sentTo
      rw [hsent, List.filter_append, List.filter_singleton, decide_eq_false hdst]
      exact List.append_nil _
    refine ⟨hlist ▸ h.sendable, ?_, hlist ▸ h.ascending⟩
    rw [hlist]
    exact fun y hy => (hgrown y hy).le

theorem Numbered.step (h : Numbered a s) {ev : Event Addr}
    (hkeeps : KeepsNumbers packetSize a s ev) : Numbered a (VideoTask.step packetSize s ev) := by
  have hsame : ∀ s' : Task rs Addr, s'.sent = s.sent →
      (s'.frameNumber = s.frameNumber ∨ resets s ev = true) → Numbered a s' := by
    intro s' hsent hnumber
    have hlist : sentTo a s' = sentTo a s := congrArg (List.filter _) hsent
    refine ⟨hlist ▸ h.sendable, fun x hx => ?_, hlist ▸ h.ascending⟩
    rw [hlist] at hx
    rcases hnumber with heq | hreset
    · exact heq ▸ h.le x hx
    · rw [hkeeps.1 (List.ne_nil_of_mem hx)] at hreset
      cases hreset
  rcases effect_step packetSize s ev with ⟨-, heffect⟩ | ⟨-, hstopped⟩
  · generalize VideoTask.step packetSize s ev = s' at heffect ⊢
    cases heffect with
    | other _ _ _ _ hsent hnumber _ => exact hsame s' hsent hnumber
    | encodes frame => exact hsame _ rfl (Or.inl rfl)
    | drops pct now first rest _ _ => exact hsame _ rfl (Or.inl rfl)
    | sends pct now first rest dst p counters hqueue hclient hpacketize =>
      have hframe := frame_of_packetize hpacketize
      refine h.send rfl ?_ (fun y hy => ?_) fun hdst => ?_
      · change p.frame.frameNumber = _
        rw [hframe]
        rfl
      · have hkept := hkeeps.1 (List.ne_nil_of_mem hy)
        exact (h.le y hy).trans_lt (number_of_not_resets hqueue hclient hkept)
      · change Sendable p.frame
        rw [hframe]
        exact hkeeps.2 pct now first rest rfl hqueue (hclient.trans (congrArg some hdst))
  · rw [hstopped]
    exact h

/-- Every frame sent to a client is sent out by its reassembler, in every run of
the host that keeps its numbers. -/
theorem delivered_without_renumbering (rs : FecRs) (hrs : rs.Lawful) (Addr : Type)
    [DecidableEq Addr] (packetSize : ℕ) (a : Addr) (evs : List (Event Addr))
    (h : (VideoTask.machine rs Addr packetSize).Along (KeepsNumbers packetSize a) evs)
    (ops : List Op) (harrives : Arrives
      ((sentTo a ((VideoTask.machine rs Addr packetSize).run evs)).map fun x => x.shards) ops) :
    sentFrames ((MoonVideo.machine rs).run ops).events =
      (sentTo a ((VideoTask.machine rs Addr packetSize).run evs)).map fun x =>
        (x.frame.frameNumber, accessUnit x.frame) := by
  have hnumbered := Machine.run_invariant_along (m := VideoTask.machine rs Addr packetSize)
    (I := Numbered a) ⟨fun _ hx => absurd hx List.not_mem_nil,
      fun _ hx => absurd hx List.not_mem_nil, List.Pairwise.nil⟩
    (fun s ev hs hev => hs.step hev) evs h
  generalize (VideoTask.machine rs Addr packetSize).run evs = s at hnumbered harrives ⊢
  have hstream := stream_delivered hrs ((sentTo a s).map Sent.toPacketized)
    (fun x hx => ?_) ?_ ops ?_
  · rw [hstream, List.map_map]
    rfl
  · obtain ⟨y, hy, rfl⟩ := List.mem_map.mp hx
    exact hnumbered.sendable y hy
  · rw [List.map_map]
    exact hnumbered.ascending
  · rw [List.map_map]
    exact harrives

end Numbering

section Reconnect

variable {rs : FecRs} {Addr : Type} [DecidableEq Addr] {packetSize : ℕ}

/-- A single waiting frame is sent under the next number. -/
theorem takeFrame_single (hrs : rs.Lawful) (hsize : nvVideoPacketSize < packetSize)
    (s : Task rs Addr) (hrunning : s.running = true) (q : Queued) (hqueue : s.queue = [q])
    (dst : Addr) (hclient : s.clientAddr = some dst) (hreset : s.sessionReset = false)
    (pct now : ℕ) : ∃ (p : Packetized rs) (counters : Counters),
      p.frame = s.frameOf packetSize pct q.frame ∧
      VideoTask.step packetSize s (Event.takeFrame pct now) =
        { s with
          queue := [], frameNumber := s.frameNumber + 1, counters := counters,
          sent := s.sent ++ [{ p with dst := dst, order := q.order }], waitingSince := now } := by
  obtain ⟨shards, hpacketize, -⟩ := packetizeFrame_eq (s.frameOf packetSize pct q.frame) hrs
    s.counters hsize
  obtain ⟨p, counters, hsome⟩ : ∃ p counters,
      packetize rs (s.frameOf packetSize pct q.frame) s.counters = some (p, counters) :=
    ⟨_, _, packetize_eq_some hpacketize⟩
  have htake := takeReset_of_not_resets hreset
  refine ⟨p, counters, frame_of_packetize hsome, ?_⟩
  have hframe : s.onFrame packetSize pct = _ :=
    onFrame_packetized hqueue hclient (by rw [htake]; exact hsome)
  rw [step_takeFrame hrunning (hqueue ▸ List.cons_ne_nil q []), hframe, htake]
  rfl

def keyOutput : EncodedFrame := ⟨[7], true, 0⟩

def deltaOutput : EncodedFrame := ⟨[8], false, 0⟩

/-- One frame, a reset of the connection, a new PING and another frame. -/
def reconnectEvents : List (Event ℕ) :=
  [Event.datagram 1 pingPayload 0, Event.encoded keyOutput, Event.takeFrame 20 1,
    Event.recvError true 2, Event.datagram 1 pingPayload 3, Event.encoded deltaOutput,
    Event.takeFrame 20 4]

/-- What the packetizer gets for the first of these frames. -/
def firstFrame : Frame where
  encodedData := [7]
  isKeyFrame := true
  requestedPacketSize := 1024
  frameNumber := 1
  rtpTimestamp := 0
  fecPercentage := 20

theorem sendable_firstFrame : Sendable firstFrame :=
  ⟨by decide, by decide, by decide, by decide⟩

/-- Before the reconnection nothing is wrong. -/
theorem delivered_before_reconnect : ∃ (rs : FecRs) (ops : List Op), rs.Lawful ∧
    sentFrames ((MoonVideo.machine rs).run ops).events = [(1, ⟨true, [1, 7]⟩)] := by
  obtain ⟨rs, hrs⟩ := FecRs.exists_lawful
  have hsize : nvVideoPacketSize < 1024 := by decide
  let s₁ : Task rs ℕ := (VideoTask.machine rs ℕ 1024).run (reconnectEvents.take 2)
  obtain ⟨p, c, hframe, hsent⟩ :=
    takeFrame_single hrs hsize s₁ rfl ⟨0, keyOutput⟩ rfl 1 rfl rfl 20 1
  have hrun : sentTo 1 ((VideoTask.machine rs ℕ 1024).run (reconnectEvents.take 3)) =
      [{ p with dst := 1, order := 0 }] := by
    change sentTo 1 (VideoTask.step 1024 s₁ (Event.takeFrame 20 1)) = _
    rw [hsent]
    rfl
  obtain ⟨ops, harrives⟩ := exists_arrives hrs [p] fun x hx => by
    rw [List.mem_singleton.mp hx, hframe]
    exact hsize
  have hkeeps : (VideoTask.machine rs ℕ 1024).Along (KeepsNumbers 1024 1)
      ([] ++ [Event.datagram 1 pingPayload 0] ++ [Event.encoded keyOutput] ++
        [Event.takeFrame 20 1]) := by
    refine Machine.along_concat.mpr ⟨Machine.along_concat.mpr ⟨Machine.along_concat.mpr
      ⟨Machine.forall_step_nil, ?_⟩, ?_⟩, ?_⟩
    · exact ⟨fun hne => absurd rfl hne, fun _ _ _ _ heq => by cases heq⟩
    · exact ⟨fun hne => absurd rfl hne, fun _ _ _ _ heq => by cases heq⟩
    · refine ⟨fun hne => absurd rfl hne, fun pct now first rest heq hqueue _ => ?_⟩
      cases heq
      have hparts : first = ⟨0, keyOutput⟩ ∧ rest = [] :=
        ⟨(List.cons.inj hqueue).1.symm, (List.cons.inj hqueue).2.symm⟩
      rw [hparts.1, hparts.2]
      exact sendable_firstFrame
  have hdelivered := delivered_without_renumbering rs hrs ℕ 1024 1 (reconnectEvents.take 3)
    hkeeps ops (by rw [hrun]; exact harrives)
  refine ⟨rs, ops, hrs, hdelivered.trans ?_⟩
  rw [hrun]
  change [(p.frame.frameNumber, accessUnit p.frame)] = _
  rw [hframe]
  rfl

/-- After a reconnection the second frame has the number of the first and is lost. -/
theorem lost_after_reconnect : ∃ rs : FecRs, rs.Lawful ∧
    ∃ ops, Arrives ((sentTo 1 ((VideoTask.machine rs ℕ 1024).run reconnectEvents)).map
        fun x => x.shards) ops ∧
      ∃ x ∈ sentTo 1 ((VideoTask.machine rs ℕ 1024).run reconnectEvents),
        (x.frame.frameNumber, accessUnit x.frame) ∉
          sentFrames ((MoonVideo.machine rs).run ops).events := by
  obtain ⟨rs, hrs⟩ := FecRs.exists_lawful
  let s₁ : Task rs ℕ := (VideoTask.machine rs ℕ 1024).run (reconnectEvents.take 2)
  have hsize : nvVideoPacketSize < 1024 := by decide
  obtain ⟨p₁, c₁, hframe₁, hsent₁⟩ :=
    takeFrame_single hrs hsize s₁ rfl ⟨0, keyOutput⟩ rfl 1 rfl rfl 20 1
  let s₂ : Task rs ℕ := { s₁ with
    queue := [], frameNumber := s₁.frameNumber + 1, counters := c₁,
    sent := s₁.sent ++ [{ p₁ with dst := 1, order := 0 }], waitingSince := 1 }
  let s₃ : Task rs ℕ := (VideoTask.machine rs ℕ 1024).runFrom s₂
    [Event.recvError true 2, Event.datagram 1 pingPayload 3, Event.encoded deltaOutput]
  obtain ⟨p₂, c₂, hframe₂, hsent₂⟩ :=
    takeFrame_single hrs hsize s₃ rfl ⟨1, deltaOutput⟩ rfl 1 rfl rfl 20 4
  have hrun : sentTo 1 ((VideoTask.machine rs ℕ 1024).run reconnectEvents) =
      [{ p₁ with dst := 1, order := 0 }, { p₂ with dst := 1, order := 1 }] := by
    have hlast : (VideoTask.machine rs ℕ 1024).run reconnectEvents =
        VideoTask.step 1024 ((VideoTask.machine rs ℕ 1024).runFrom
          (VideoTask.step 1024 s₁ (Event.takeFrame 20 1)) [Event.recvError true 2,
            Event.datagram 1 pingPayload 3, Event.encoded deltaOutput])
              (Event.takeFrame 20 4) := rfl
    rw [hlast, hsent₁]
    change sentTo 1 (VideoTask.step 1024 s₃ (Event.takeFrame 20 4)) = _
    rw [hsent₂]
    rfl
  obtain ⟨ops, harrives⟩ := exists_arrives hrs [p₁, p₂] fun x hx => by
    rcases List.mem_cons.mp hx with rfl | hx
    · rw [hframe₁]
      exact hsize
    · rw [List.mem_singleton.mp hx, hframe₂]
      exact hsize
  refine ⟨rs, hrs, ops, ?_, ?_⟩
  · rw [hrun]
    exact harrives
  rw [hrun]
  by_contra hall
  push Not at hall
  have hfirst := hall _ List.mem_cons_self
  have hsecond := hall _ (List.mem_cons_of_mem _ List.mem_cons_self)
  change (p₁.frame.frameNumber, accessUnit p₁.frame) ∈ _ at hfirst
  change (p₂.frame.frameNumber, accessUnit p₂.frame) ∈ _ at hsecond
  rw [hframe₁] at hfirst
  rw [hframe₂] at hsecond
  have hsame : (⟨true, [1, 7]⟩ : AuFrame) = ⟨false, [0, 8]⟩ :=
    sentFrames_unique rs ops hfirst hsecond
  exact absurd hsame (by decide)

end Reconnect

end KmControl.Renumbering
