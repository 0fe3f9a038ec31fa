import KmControl.Backlog
import KmControl.StreamIntegrity

/-!
The frames that the client hands on to the admin are outputs of the encoder, whole and none
of them twice, whatever the network does: as long as the host does not start its numbers over
for this client and its frames are within the limits of the packetizer.
-/
namespace KmControl.LinkIntegrity

open ByteFields FrameTracking GsProto MoonVideo MoonVideoSteps Packetizer ReceiverLoop Renumbering
  StreamDelivery StreamIntegrity VideoLink VideoTask VideoTaskSteps

variable {rs : FecRs} {Addr : Type} [DecidableEq Addr] {packetSize : ℕ} {a : Addr}

section Tasks

variable {s : Task rs Addr} {ev : Event Addr}

theorem sent_grows (packetSize : ℕ) (s : Task rs Addr) (ev : Event Addr) :
    s.sent <+: (VideoTask.step packetSize s ev).sent := by
  rcases effect_step packetSize s ev with ⟨-, heffect⟩ | ⟨-, hstopped⟩
  · generalize VideoTask.step packetSize s ev = s' at heffect ⊢
    cases heffect with
    | other _ _ _ _ hsent _ _ => exact hsent ▸ List.prefix_refl _
    | encodes | drops => exact List.prefix_refl _
    | sends => exact List.prefix_append _ _
  · rw [hstopped]

theorem sentTo_mono {x : Sent rs Addr} (h : x ∈ sentTo a s) :
    x ∈ sentTo a (VideoTask.step packetSize s ev) :=
  ((sent_grows packetSize s ev).sublist.filter _).subset h

/-- What waits in the channel and what has been sent comes from the encoder. -/
structure Made (M : EncodedFrame → Prop) (s : Task rs Addr) : Prop where
  queued : ∀ q ∈ s.queue, M q.frame
  sent : ∀ x ∈ s.sent, ∃ frame, M frame ∧ x.frame.encodedData = frame.data ∧
    x.frame.isKeyFrame = frame.isKeyFrame

theorem Made.step {M : EncodedFrame → Prop} (h : Made M s)
    (hev : ∀ frame, ev = Event.encoded frame → M frame) :
    Made M (VideoTask.step packetSize s ev) := by
  rcases effect_step packetSize s ev with ⟨-, heffect⟩ | ⟨-, hstopped⟩
  · generalize VideoTask.step packetSize s ev = s' at heffect ⊢
    cases heffect with
    | other _ _ hqueue _ hsent _ _ => exact ⟨hqueue ▸ h.queued, hsent ▸ h.sent⟩
    | encodes frame =>
      refine ⟨fun q hq => ?_, h.sent⟩
      rcases List.mem_append.mp hq with hold | hnew
      · exact h.queued q hold
      · rw [List.mem_singleton.mp hnew]
        exact hev frame rfl
    | drops pct now first rest hqueue _ =>
      exact ⟨fun q hq => h.queued q (hqueue ▸ List.mem_cons_of_mem _ hq), h.sent⟩
    | sends pct now first rest dst p counters hqueue _ hpacketize =>
      refine ⟨fun q hq => absurd hq List.not_mem_nil, fun x hx => ?_⟩
      rcases List.mem_append.mp hx with hold | hnew
      · exact h.sent x hold
      · have hlast : rest.getLastD first ∈ s.queue := hqueue ▸ Backlog.newest_mem first rest
        rw [List.mem_singleton.mp hnew]
        refine ⟨(rest.getLastD first).frame, h.queued _ hlast, ?_⟩
        change p.frame.encodedData = _ ∧ p.frame.isKeyFrame = _
        rw [frame_of_packetize hpacketize]
        exact ⟨rfl, rfl⟩
  · rw [hstopped]
    exact h

/-- Whatever a run of the task sends has been put into the channel in that run. -/
theorem made_run (rs : FecRs) (packetSize : ℕ) (evs : List (Event Addr)) :
    Made (fun frame => Event.encoded frame ∈ evs) ((VideoTask.machine rs Addr packetSize).run evs) :=
  Machine.run_invariant_along (C := fun _ ev => ev ∈ evs)
    ⟨fun _ hq => absurd hq List.not_mem_nil, fun _ hx => absurd hx List.not_mem_nil⟩
    (fun _ _ hmade hmem => hmade.step fun _ heq => heq ▸ hmem) evs
    fun _ _ hpre => hpre.subset (List.mem_append_right _ List.mem_cons_self)

end Tasks

section Links

/-- The host goes on with its numbers once the client has got a frame, and what it sends to
the client is within the limits of the packetizer. -/
def Keeps (packetSize : ℕ) (a : Addr) (s : Link rs Addr) (op : VideoLink.Op Addr) : Prop :=
  ∀ ev, s.event a op = some ev → KeepsNumbers packetSize a s.task ev

variable {s : Link rs Addr}

/-- What is on its way to the client, and what its reassembler has been fed. -/
structure Carries (a : Addr) (s : Link rs Addr) : Prop where
  numbered : Numbered a s.task
  down : ∀ p ∈ s.down, p.1 = a → (parseRttProbe p.2.payload).isSome = true ∨
    ∃ x ∈ sentTo a s.task, p.2.payload ∈ x.shards
  reads : ∃ ops, Reads s.receiver ((MoonVideo.machine rs).run ops) ∧
    ∀ datagram now, MoonVideo.Op.push datagram now ∈ ops →
      ∃ x ∈ sentTo a s.task, datagram ∈ x.shards

theorem carries_new : Carries a (Link.new : Link rs Addr) where
  numbered := ⟨fun _ hx => absurd hx List.not_mem_nil, fun _ hx => absurd hx List.not_mem_nil,
    List.Pairwise.nil⟩
  down := fun _ hp => absurd hp List.not_mem_nil
  reads := ⟨[], reads_new, fun _ _ h => absurd h List.not_mem_nil⟩

/-- The time in a probe can be read back. -/
theorem parseRttProbe_rttProbe (micros : UInt64) : parseRttProbe (rttProbe micros) = some micros := by
  have hbyte : ∀ k, k < 8 → (byteAt (rttProbe micros) (4 + k)).toNat =
      micros.toNat / 2 ^ (8 * k) % 256 := by
    intro k hk
    have hread : byteAt (rttProbe micros) (4 + k) = UInt8.ofNat (micros.toNat / 2 ^ (8 * k)) := by
      interval_cases k <;> rfl
    rw [hread, UInt8.toNat_ofNat']
  have hsum : ((List.range 8).map fun k =>
      (byteAt (rttProbe micros) (4 + k)).toNat * 2 ^ (8 * k)).sum = micros.toNat := by
    have hlt := micros.toNat_lt
    rw [List.map_congr_left fun k hk => by rw [hbyte k (List.mem_range.mp hk)]]
    simp only [List.range_succ, List.range_zero, List.nil_append, List.map_append, List.map_cons,
      List.map_nil, List.sum_append, List.sum_cons, List.sum_nil]
    omega
  unfold parseRttProbe
  rw [if_neg (by rw [not_or, not_not, not_not]; exact ⟨rfl, rfl⟩), hsum, UInt64.ofNat_toNat]

/-- The host sends probes and the datagrams of frames. -/
theorem Carries.hostStep (h : Carries a s) {ev : Event Addr}
    (hkeeps : KeepsNumbers packetSize a s.task ev) : Carries a (s.hostStep packetSize ev) := by
  cases hrunning : s.task.running with
  | false =>
    unfold Link.hostStep
    rw [hrunning]
    exact h
  | true =>
    have hold : ∀ p ∈ s.down, p.1 = a → (parseRttProbe p.2.payload).isSome = true ∨
        ∃ x ∈ sentTo a (VideoTask.step packetSize s.task ev), p.2.payload ∈ x.shards := by
      intro p hp hdst
      refine (h.down p hp hdst).imp_right ?_
      rintro ⟨x, hx, hmem⟩
      exact ⟨x, sentTo_mono hx, hmem⟩
    have hreads : ∃ ops, Reads s.receiver ((MoonVideo.machine rs).run ops) ∧
        ∀ datagram now, MoonVideo.Op.push datagram now ∈ ops →
          ∃ x ∈ sentTo a (VideoTask.step packetSize s.task ev), datagram ∈ x.shards := by
      obtain ⟨ops, hreads, hops⟩ := h.reads
      refine ⟨ops, hreads, fun datagram now hmem => ?_⟩
      obtain ⟨x, hx, hshard⟩ := hops datagram now hmem
      exact ⟨x, sentTo_mono hx, hshard⟩
    have hnumbered := h.numbered.step hkeeps
    unfold Link.hostStep
    rw [hrunning, if_pos rfl]
    cases ev with
    | datagram addr payload now =>
      refine ⟨hnumbered, fun p hp hdst => ?_, hreads⟩
      rcases List.mem_append.mp hp with hp | hp
      · exact hold p hp hdst
      · left
        unfold probe at hp
        split at hp
        · rw [List.mem_singleton.mp hp, parseRttProbe_rttProbe]
          rfl
        · cases hp
    | takeFrame pct now =>
      refine ⟨hnumbered, fun p hp hdst => ?_, hreads⟩
      rcases List.mem_append.mp hp with hp | hp
      · exact hold p hp hdst
      · right
        obtain ⟨x, hx, hp⟩ := List.mem_flatMap.mp hp
        obtain ⟨shard, hshard, rfl⟩ := List.mem_map.mp hp
        exact ⟨x, List.mem_filter.mpr ⟨List.mem_of_mem_drop hx, decide_eq_true hdst⟩, hshard⟩
    | recvError | tick | encoded | play | requestIdr | takeIdr => exact ⟨hnumbered, hold, hreads⟩

/-- A turn of the client's loop that keeps `Reads` with what was fed. -/
theorem Carries.turn (h : Carries a s) (now : ℕ) {f : Receiver → Receiver × Option Bytes}
    (hf : s.receiver.running = true → ∀ ops, Reads s.receiver ((MoonVideo.machine rs).run ops) →
      ∃ more, Reads (f s.receiver).1 ((MoonVideo.machine rs).run (ops ++ more)) ∧
        ∀ datagram here, MoonVideo.Op.push datagram here ∈ more →
          ∃ x ∈ sentTo a s.task, datagram ∈ x.shards) : Carries a (s.turn now f) := by
  unfold Link.turn
  split
  · rename_i hrunning
    have hreads : ∃ ops, Reads (f s.receiver).1 ((MoonVideo.machine rs).run ops) ∧
        ∀ datagram here, MoonVideo.Op.push datagram here ∈ ops →
          ∃ x ∈ sentTo a s.task, datagram ∈ x.shards := by
      obtain ⟨ops, hops, hpushes⟩ := h.reads
      obtain ⟨more, hmore, hnew⟩ := hf hrunning ops hops
      refine ⟨ops ++ more, hmore, fun datagram here hmem => ?_⟩
      rcases List.mem_append.mp hmem with hmem | hmem
      · exact hpushes datagram here hmem
      · exact hnew datagram here hmem
    split <;> rename_i heq <;> rw [heq] at hreads <;> exact ⟨h.numbered, h.down, hreads⟩
  · exact h

/-- A turn that feeds the reassembler nothing. -/
theorem Carries.idle (h : Carries a s) (now : ℕ) {f : Receiver → Receiver × Option Bytes}
    (hf : ∀ full, Reads s.receiver full → Reads (f s.receiver).1 full) :
    Carries a (s.turn now f) :=
  h.turn now fun _ ops hops => ⟨[], by rw [List.append_nil]; exact hf _ hops,
    fun _ _ hmem => absurd hmem List.not_mem_nil⟩

theorem Carries.clientStep (h : Carries a s) (op : VideoLink.Op Addr) :
    Carries a (s.clientStep a op) := by
  cases op with
  | host | reaches => exact h
  | stray =>
    change Carries a (s.turn 0 fun c => (c.next, none))
    exact h.idle 0 fun _ hreads => hreads.next
  | ping now here =>
    change Carries a (s.turn now fun c => (c.feed rs (.expire here), some pingPayload))
    refine h.turn now fun hrunning ops hops => ⟨[.expire here], ?_, ?_⟩
    · rw [Machine.run_concat]
      exact hops.feed hrunning rs _
    · intro datagram now hmem
      cases List.mem_singleton.mp hmem
  | recvError connReset =>
    change Carries a
      (s.turn 0 fun c => (if connReset then c.next else { c with running := false }, none))
    refine h.idle 0 fun full hreads => ?_
    cases connReset with
    | true => exact hreads.next
    | false => exact hreads.of_stopped rfl rfl
  | shutdown | closeSink =>
    obtain ⟨ops, hops, hpushes⟩ := h.reads
    exact ⟨h.numbered, h.down, ops, hops.same rfl rfl id, hpushes⟩
  | arrives n now here =>
    unfold Link.clientStep
    dsimp only
    split
    · rename_i d hd
      obtain ⟨p, hp, hdst⟩ := Option.bind_eq_some_iff.mp hd
      split at hdst
      · rename_i ha
        cases hdst
        have hdown := h.down p (List.mem_of_getElem? hp) ha
        refine h.turn now fun hrunning ops hops => ?_
        unfold Receiver.receive
        split
        · exact ⟨[], by rw [List.append_nil]; exact hops.next,
            fun _ _ hmem => absurd hmem List.not_mem_nil⟩
        · rename_i hprobe
          refine ⟨[.push p.2.payload here], ?_, fun datagram now hmem => ?_⟩
          · rw [Machine.run_concat]
            exact hops.feed hrunning rs _
          · cases List.mem_singleton.mp hmem
            exact hdown.resolve_left hprobe
      · cases hdst
    · exact h

theorem Carries.step (h : Carries a s) {op : VideoLink.Op Addr} (hkeeps : Keeps packetSize a s op) :
    Carries a (s.step packetSize a op) := by
  unfold Link.step
  cases hev : s.event a op with
  | some ev => exact h.hostStep (hkeeps ev hev)
  | none => exact h.clientStep op

/-- The task of the host, within the link, does what it does by itself. -/
theorem task_step (packetSize : ℕ) (a : Addr) (s : Link rs Addr) (op : VideoLink.Op Addr) :
    (s.step packetSize a op).task = match s.event a op with
      | some ev => VideoTask.step packetSize s.task ev
      | none => s.task := by
  unfold Link.step
  cases hev : s.event a op with
  | some ev =>
    dsimp only
    unfold Link.hostStep
    cases hrunning : s.task.running with
    | true =>
      rw [if_pos rfl]
      cases ev <;> rfl
    | false =>
      unfold VideoTask.step
      rw [hrunning]
      rfl
  | none =>
    dsimp only
    have hturn : ∀ now f, (s.turn now f).task = s.task := by
      intro now f
      unfold Link.turn
      split
      · split <;> rfl
      · rfl
    cases op with
    | host | reaches | shutdown | closeSink => rfl
    | stray | ping | recvError => exact hturn _ _
    | arrives n now here =>
      unfold Link.clientStep
      dsimp only
      split
      · exact hturn _ _
      · rfl

/-- A run of the link is, for the task of the host, a run over its own events. -/
theorem task_run (rs : FecRs) (packetSize : ℕ) (a : Addr) (ops : List (VideoLink.Op Addr)) :
    ∃ evs,
    ((VideoLink.machine rs Addr packetSize a).run ops).task =
      (VideoTask.machine rs Addr packetSize).run evs ∧
    ∀ frame, Event.encoded frame ∈ evs → VideoLink.Op.host (Event.encoded frame) ∈ ops := by
  induction ops using List.reverseRecOn with
  | nil => exact ⟨[], rfl, fun _ h => absurd h List.not_mem_nil⟩
  | append_singleton ops op ih =>
    obtain ⟨evs, htask, hencoded⟩ := ih
    rw [Machine.run_concat]
    have hstep := task_step packetSize a ((VideoLink.machine rs Addr packetSize a).run ops) op
    cases hev : ((VideoLink.machine rs Addr packetSize a).run ops).event a op with
    | none =>
      rw [hev] at hstep
      exact ⟨evs, hstep.trans htask, fun frame h => List.mem_append_left _ (hencoded frame h)⟩
    | some ev =>
      rw [hev, htask] at hstep
      refine ⟨evs ++ [ev], hstep.trans
        ((VideoTask.machine rs Addr packetSize).run_concat evs ev).symm, fun frame h => ?_⟩
      rcases List.mem_append.mp h with hold | hnew
      · exact List.mem_append_left _ (hencoded frame hold)
      · obtain rfl := List.mem_singleton.mp hnew
        refine List.mem_append_right _ ?_
        cases op with
        | host ev =>
          cases hev
          exact List.mem_cons_self
        | reaches n now =>
          obtain ⟨d, -, hd⟩ := Option.map_eq_some_iff.mp hev
          cases hd
        | arrives | stray | ping | recvError | shutdown | closeSink => cases hev

/-- Every frame that the admin gets is what one encoder output was sent as, to this client,
and no output gets there twice. -/
theorem handed_intact (hrs : rs.Lawful) {ops : List (VideoLink.Op Addr)}
    (h : (VideoLink.machine rs Addr packetSize a).Along (Keeps packetSize a) ops) :
    ∃ xs : List (Sent rs Addr), (xs.map Sent.order).Nodup ∧
      (∀ x ∈ xs, x ∈ sentTo a ((VideoLink.machine rs Addr packetSize a).run ops).task ∧
        ∃ frame, VideoLink.Op.host (Event.encoded frame) ∈ ops ∧
          x.frame.encodedData = frame.data ∧ x.frame.isKeyFrame = frame.isKeyFrame) ∧
      ((VideoLink.machine rs Addr packetSize a).run ops).receiver.aus =
        xs.map fun x => accessUnit x.frame := by
  have hcarries := Machine.run_invariant_along (I := Carries a) carries_new
    (fun s op hs hop => hs.step hop) ops h
  obtain ⟨evs, htask, hencoded⟩ := task_run rs packetSize a ops
  have hmade := htask ▸ made_run rs packetSize evs
  have horders := htask ▸ Backlog.run_sequenced rs packetSize evs
  generalize (VideoLink.machine rs Addr packetSize a).run ops = s at hcarries hmade horders
  obtain ⟨fed, hreads, hfed⟩ := hcarries.reads
  have hok : ∀ p ∈ (sentTo a s.task).map Sent.toPacketized, Sendable p.frame := by
    intro p hp
    obtain ⟨x, hx, rfl⟩ := List.mem_map.mp hp
    exact hcarries.numbered.sendable x hx
  have hdistinct : (((sentTo a s.task).map Sent.toPacketized).map
      fun p => p.frame.frameNumber).Nodup := by
    rw [List.map_map]
    exact hcarries.numbered.ascending.imp fun hlt => hlt.ne
  obtain ⟨ps, hnodup, hmem, hsent⟩ := delivered_intact hrs hok hdistinct
    fun datagram now hpush => by
      obtain ⟨x, hx, hshard⟩ := hfed datagram now hpush
      exact ⟨x.toPacketized, List.mem_map_of_mem hx, hshard⟩
  obtain ⟨all, hall, rfl⟩ := Chunks.exists_map_eq fun p hp => List.mem_map.mp (hmem p hp)
  have haus : ausOf ((MoonVideo.machine rs).run fed).events =
      all.map fun x => accessUnit x.frame := by
    rw [ausOf, hsent, List.map_map, List.map_map]
    rfl
  have hcut := List.prefix_iff_eq_take.mp (haus ▸ hreads.aus_initial)
  rw [← List.map_take] at hcut
  refine ⟨all.take s.receiver.aus.length, ?_, fun x hx => ?_, hcut⟩
  · rw [List.map_map] at hnodup
    have hdistinct : all.Nodup := List.Nodup.of_map _ hnodup
    refine (hdistinct.sublist (List.take_sublist _ _)).map_on fun x hx y hy heq => ?_
    have hplaces : (s.task.sent.map Sent.order).Nodup :=
      ((List.pairwise_append.mp horders.ascending).1).imp fun hlt => hlt.ne
    exact List.inj_on_of_nodup_map hplaces
      (List.mem_of_mem_filter (hall x (List.mem_of_mem_take hx)))
      (List.mem_of_mem_filter (hall y (List.mem_of_mem_take hy))) heq
  · have hto := hall x (List.mem_of_mem_take hx)
    obtain ⟨frame, hframe, hsame⟩ := hmade.sent x (List.mem_of_mem_filter hto)
    exact ⟨hto, frame, hencoded frame hframe, hsame⟩

/-- The client registers, and the first datagram of a key frame arrives. -/
def keyFrameOps : List (VideoLink.Op ℕ) :=
  [.ping 0 0, .reaches 0 1, .host (.encoded keyOutput), .host (.takeFrame 20 2), .arrives 1 3 0]

theorem keeps_keyFrame (rs : FecRs) :
    (VideoLink.machine rs ℕ 1024 1).Along (Keeps 1024 1) keyFrameOps := by
  change (VideoLink.machine rs ℕ 1024 1).Along (Keeps 1024 1) ([] ++ [.ping 0 0] ++
    [.reaches 0 1] ++ [.host (.encoded keyOutput)] ++ [.host (.takeFrame 20 2)] ++
      [.arrives 1 3 0])
  refine Machine.along_concat.mpr ⟨Machine.along_concat.mpr ⟨Machine.along_concat.mpr
    ⟨Machine.along_concat.mpr ⟨Machine.along_concat.mpr
      ⟨Machine.forall_step_nil, ?_⟩, ?_⟩, ?_⟩, ?_⟩, ?_⟩
  · intro ev hev
    cases hev
  · intro ev hev
    cases hev
    exact ⟨fun hne => absurd rfl hne, fun _ _ _ _ heq => by cases heq⟩
  · intro ev hev
    cases hev
    exact ⟨fun hne => absurd rfl hne, fun _ _ _ _ heq => by cases heq⟩
  · intro ev hev
    cases hev
    refine ⟨fun hne => absurd rfl hne, fun pct now first rest heq hqueue _ => ?_⟩
    cases heq
    have hparts : first = ⟨0, keyOutput⟩ ∧ rest = [] :=
      ⟨(List.cons.inj hqueue).1.symm, (List.cons.inj hqueue).2.symm⟩
    rw [hparts.1, hparts.2]
    exact sendable_firstFrame
  · intro ev hev
    cases hev

theorem intact_keyFrame : ∃ rs : FecRs, rs.Lawful ∧
    ∀ au ∈ ((VideoLink.machine rs ℕ 1024 1).run keyFrameOps).receiver.aus,
      au = ⟨true, [1, 7]⟩ := by
  obtain ⟨rs, hrs⟩ := FecRs.exists_lawful
  obtain ⟨xs, -, hxs, haus⟩ := handed_intact hrs (keeps_keyFrame rs)
  refine ⟨rs, hrs, fun au hau => ?_⟩
  rw [haus] at hau
  obtain ⟨x, hx, rfl⟩ := List.mem_map.mp hau
  obtain ⟨-, frame, hframe, hdata, hkey⟩ := hxs x hx
  have hkeyOutput : frame = keyOutput := by
    simpa [keyFrameOps] using hframe
  unfold accessUnit
  rw [hdata, hkey, hkeyOutput]
  rfl

end Links

end KmControl.LinkIntegrity
