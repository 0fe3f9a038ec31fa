import KmControl.LinkIntegrity

/-!
The round trips that the bitrate controller gets. A probe carries the time of the host and
comes back as it is, so every sample is the age of a probe that the host has sent to this
client. It is never less than what the network needs for both ways.
-/
namespace KmControl.RttProbes

open FrameDelivery GsProto LinkIntegrity MoonVideo Packetizer PacketizerShards StreamIntegrity
  VideoLink VideoTask

variable {rs : FecRs} {Addr : Type} {δ L : ℕ} {a : Addr}

section Probes

/-- A shard is longer than a probe. -/
theorem parseRttProbe_shard (hrs : rs.Lawful) (x : Packetized rs) {shard : Bytes}
    (h : shard ∈ x.shards) : parseRttProbe shard = none := by
  have hsize : nvVideoPacketSize < x.frame.requestedPacketSize := by
    obtain ⟨c, c', hpacketized⟩ := x.packetized
    by_contra hsmall
    have hempty : x.frame.shardPayloadSize = 0 := Nat.sub_eq_zero_of_le (not_lt.mp hsmall)
    unfold packetizeFrame at hpacketized
    rw [if_pos hempty] at hpacketized
    split at hpacketized <;> cases hpacketized
  obtain ⟨shards, hcut⟩ := exists_cutInto hrs x hsize
  obtain ⟨c, hblocks⟩ := hcut.blocks
  rw [hcut.list_eq] at h
  obtain ⟨b, hb, i, hi, rfl⟩ := (mem_inOrder x.frame).mp h
  have hlen := ((hblocks b hb).header i hi).length_eq
  have hlong : payloadOffset ≤ (shards b i).length := by
    rw [hlen]
    exact Nat.le_add_right _ _
  have hsizes : rttProbeSize < payloadOffset := by decide
  unfold parseRttProbe
  rw [if_pos (Or.inl (Nat.ne_of_gt (lt_of_lt_of_le hsizes hlong)))]

theorem toNat_micros {now : ℕ} (h : now / 1000 < 2 ^ 64) : (micros now).toNat = now / 1000 := by
  unfold micros
  rw [UInt64.toNat_ofNat']
  exact Nat.mod_eq_of_lt h

/-- The network takes at least `δ` and at most `L` for a datagram. -/
def Timely (δ L sentAt now : ℕ) : Prop := sentAt + δ ≤ now ∧ now ≤ sentAt + L

/-- The probe that the host has sent to `a` at the time `t`. -/
def probeTo (a : Addr) (t : ℕ) : Addr × Datagram := (a, ⟨rttProbe (micros t), t⟩)

end Probes

section Samples

/-- A sample is the age in milliseconds of a probe that the host has sent to the client. -/
def IsAge (δ L : ℕ) (a : Addr) (down : List (Addr × Datagram)) (x : Sample Addr) : Prop :=
  ∃ t, probeTo a t ∈ down ∧ Timely (2 * δ) (2 * L) t x.takenAt ∧
    x.rttMs = (x.takenAt / 1000 - t / 1000) / 1000 ∧ x.rttMs ≤ maxSaneRttMs

/-- What the client sends at the time `now`: a PING or a probe as it came. -/
def FromClient (δ L : ℕ) (a : Addr) (down : List (Addr × Datagram)) (payload : Bytes) (now : ℕ) :
    Prop :=
  payload = pingPayload ∨
    ∃ t, probeTo a t ∈ down ∧ payload = rttProbe (micros t) ∧ Timely δ L t now

structure Probing (δ L : ℕ) (a : Addr) (s : Link rs Addr) : Prop where
  down : ∀ p ∈ s.down, p.1 = a → (parseRttProbe p.2.payload).isSome = true →
    p = probeTo a p.2.sentAt
  up : ∀ d ∈ s.up, FromClient δ L a s.down d.payload d.sentAt
  samples : ∀ x ∈ s.samples, x.addr = a → IsAge δ L a s.down x

theorem probing_new : Probing δ L a (Link.new : Link rs Addr) :=
  ⟨fun _ hp => absurd hp List.not_mem_nil, fun _ hd => absurd hd List.not_mem_nil,
    fun _ hx => absurd hx List.not_mem_nil⟩

variable {down more : List (Addr × Datagram)}

theorem FromClient.mono {payload : Bytes} {now : ℕ} (h : FromClient δ L a down payload now) :
    FromClient δ L a (down ++ more) payload now := by
  refine h.imp_right ?_
  rintro ⟨t, hsent, hrest⟩
  exact ⟨t, List.mem_append_left _ hsent, hrest⟩

theorem IsAge.mono {x : Sample Addr} (h : IsAge δ L a down x) : IsAge δ L a (down ++ more) x := by
  obtain ⟨t, hsent, hrest⟩ := h
  exact ⟨t, List.mem_append_left _ hsent, hrest⟩

variable {s : Link rs Addr}

theorem Probing.turn (h : Probing δ L a s) {now : ℕ} {f : Receiver → Receiver × Option Bytes}
    (hf : ∀ payload, (f s.receiver).2 = some payload → FromClient δ L a s.down payload now) :
    Probing δ L a (s.turn now f) := by
  unfold Link.turn
  split
  · split
    · rename_i receiver payload heq
      refine ⟨h.down, fun d hd => ?_, h.samples⟩
      rcases List.mem_append.mp hd with hd | hd
      · exact h.up d hd
      · obtain rfl := List.mem_singleton.mp hd
        exact hf payload (by rw [heq])
    · exact ⟨h.down, h.up, h.samples⟩
  · exact h

variable [DecidableEq Addr]

/-- All that a sample is. -/
theorem mem_sample {s : Task rs Addr} {addr : Addr} {payload : Bytes} {now : ℕ} {x : Sample Addr}
    (h : x ∈ sample s addr payload now) : payload ≠ pingPayload ∧ x.addr = addr ∧ x.takenAt = now ∧
      ∃ sentUs, parseRttProbe payload = some sentUs ∧ x.rttMs ≤ maxSaneRttMs ∧
        x.rttMs = ((micros now).toNat - sentUs.toNat) / 1000 % 2 ^ 32 := by
  unfold sample at h
  split at h
  · cases h
  · rename_i hpayload
    split at h
    · rename_i sentUs hparse
      dsimp only at h
      split at h
      · rename_i hsane
        obtain rfl := List.mem_singleton.mp h
        exact ⟨fun heq => hpayload (Or.inl heq), rfl, rfl, sentUs, hparse, hsane, rfl⟩
      · cases h
    · cases h

/-- What the host makes of a datagram of the client: both ways together take between `2 * δ`
and `2 * L`. -/
theorem isAge_sample (hL : 2 * L < (2 ^ 32 - 1) * 10 ^ 6) (s : Task rs Addr) {payload : Bytes}
    {sentAt now : ℕ} (hclock : now / 1000 < 2 ^ 64) (hclient : FromClient δ L a down payload sentAt)
    (htimely : Timely δ L sentAt now) {x : Sample Addr} (hx : x ∈ sample s a payload now) :
    IsAge δ L a down x := by
  obtain ⟨hpayload, -, rfl, sentUs, hparse, hsane, hrtt⟩ := mem_sample hx
  obtain ⟨t, hsent, rfl, hlow, hhigh⟩ := hclient.resolve_left hpayload
  obtain ⟨hlow', hhigh'⟩ := htimely
  rw [parseRttProbe_rttProbe, Option.some.injEq] at hparse
  have hthen : t / 1000 < 2 ^ 64 := by omega
  rw [← hparse, toNat_micros hclock, toNat_micros hthen] at hrtt
  have hword : (x.takenAt / 1000 - t / 1000) / 1000 < 2 ^ 32 := by omega
  rw [Nat.mod_eq_of_lt hword] at hrtt
  exact ⟨t, hsent, ⟨by omega, by omega⟩, hrtt, hsane⟩

end Samples

section Runs

variable [DecidableEq Addr] {packetSize : ℕ} {s : Link rs Addr}

/-- The network is timely both ways, and nobody else uses the address of the client. -/
def Paced (δ L : ℕ) (a : Addr) (s : Link rs Addr) : VideoLink.Op Addr → Prop
  | .host (.datagram addr _ _) => addr ≠ a
  | .reaches n now => now / 1000 < 2 ^ 64 ∧ ∀ d ∈ s.up[n]?, Timely δ L d.sentAt now
  | .arrives n now _ => ∀ d ∈ s.arriving a n, Timely δ L d.sentAt now
  | _ => True

theorem Probing.hostStep (hrs : rs.Lawful) (h : Probing δ L a s) {ev : Event Addr}
    (hev : ∀ addr payload now, ev = .datagram addr payload now → ∀ x ∈ sample s.task addr payload now,
      x.addr = a → IsAge δ L a s.down x) : Probing δ L a (s.hostStep packetSize ev) := by
  unfold Link.hostStep
  split
  · cases ev with
    | datagram addr payload now =>
      refine ⟨fun p hp hdst hparse => ?_, fun d hd => (h.up d hd).mono, fun x hx haddr => ?_⟩
      · rcases List.mem_append.mp hp with hp | hp
        · exact h.down p hp hdst hparse
        · unfold probe at hp
          split at hp
          · obtain rfl := List.mem_singleton.mp hp
            cases hdst
            rfl
          · cases hp
      · rcases List.mem_append.mp hx with hx | hx
        · exact (h.samples x hx haddr).mono
        · exact (hev addr payload now rfl x hx haddr).mono
    | takeFrame pct now =>
      refine ⟨fun p hp hdst hparse => ?_, fun d hd => (h.up d hd).mono,
        fun x hx haddr => (h.samples x hx haddr).mono⟩
      rcases List.mem_append.mp hp with hp | hp
      · exact h.down p hp hdst hparse
      · obtain ⟨x, -, hp⟩ := List.mem_flatMap.mp hp
        obtain ⟨shard, hshard, rfl⟩ := List.mem_map.mp hp
        rw [parseRttProbe_shard hrs x.toPacketized hshard] at hparse
        cases hparse
    | recvError | tick | encoded | play | requestIdr | takeIdr =>
      exact ⟨h.down, h.up, h.samples⟩
  · exact h

theorem Probing.clientStep (h : Probing δ L a s) {op : VideoLink.Op Addr} (hop : Paced δ L a s op) :
    Probing δ L a (s.clientStep a op) := by
  cases op with
  | host | reaches => exact h
  | stray =>
    change Probing δ L a (s.turn 0 fun c => (c.next, none))
    exact h.turn fun _ hnone => nomatch hnone
  | ping now here =>
    change Probing δ L a (s.turn now fun c => (c.feed rs (.expire here), some pingPayload))
    exact h.turn fun payload hsome => Or.inl (Option.some.inj hsome).symm
  | recvError connReset =>
    change Probing δ L a
      (s.turn 0 fun c => (if connReset then c.next else { c with running := false }, none))
    exact h.turn fun _ hnone => nomatch hnone
  | shutdown | closeSink => exact ⟨h.down, h.up, h.samples⟩
  | arrives n now here =>
    unfold Link.clientStep
    dsimp only
    split
    · rename_i d hd
      have htimely : Timely δ L d.sentAt now := hop d hd
      obtain ⟨p, hp, hdst⟩ := Option.bind_eq_some_iff.mp hd
      split at hdst
      · rename_i ha
        cases hdst
        have hmem := List.mem_of_getElem? hp
        refine h.turn fun payload hsome => ?_
        unfold Receiver.receive at hsome
        split at hsome
        · rename_i hprobe
          obtain rfl := Option.some.inj hsome
          have hsent := h.down p hmem ha hprobe
          refine Or.inr ⟨p.2.sentAt, hsent ▸ hmem, ?_, htimely⟩
          exact congrArg (fun p => p.2.payload) hsent
        · cases hsome
      · cases hdst
    · exact h

theorem Probing.step (hrs : rs.Lawful) (hL : 2 * L < (2 ^ 32 - 1) * 10 ^ 6) (h : Probing δ L a s)
    {op : VideoLink.Op Addr} (hop : Paced δ L a s op) : Probing δ L a (s.step packetSize a op) := by
  unfold Link.step
  cases hev : s.event a op with
  | none => exact h.clientStep hop
  | some ev =>
    refine h.hostStep hrs fun addr payload now heq x hx haddr => ?_
    subst heq
    have hfrom := (mem_sample hx).2.1
    obtain rfl : addr = a := hfrom.symm.trans haddr
    cases op with
    | host ev =>
      cases hev
      exact absurd rfl hop
    | reaches n here =>
      obtain ⟨d, hd, hevent⟩ := Option.map_eq_some_iff.mp hev
      cases hevent
      exact isAge_sample hL s.task hop.1 (h.up d (List.mem_of_getElem? hd)) (hop.2 d hd) hx
    | arrives | stray | ping | recvError | shutdown | closeSink => cases hev

theorem probing_run (hrs : rs.Lawful) (hL : 2 * L < (2 ^ 32 - 1) * 10 ^ 6)
    {ops : List (VideoLink.Op Addr)}
    (h : (VideoLink.machine rs Addr packetSize a).Along (Paced δ L a) ops) :
    Probing δ L a ((VideoLink.machine rs Addr packetSize a).run ops) :=
  Machine.run_invariant_along probing_new (fun _ _ hs hop => hs.step hrs hL hop) ops h

/-- Every sample of the client is the age of a probe that the host has sent to it, and no less
than both ways through the network take. -/
theorem sampled_age (hrs : rs.Lawful) (hL : 2 * L < (2 ^ 32 - 1) * 10 ^ 6)
    {ops : List (VideoLink.Op Addr)}
    (h : (VideoLink.machine rs Addr packetSize a).Along (Paced δ L a) ops) :
    ∀ x ∈ ((VideoLink.machine rs Addr packetSize a).run ops).samples, x.addr = a →
      IsAge δ L a ((VideoLink.machine rs Addr packetSize a).run ops).down x :=
  (probing_run hrs hL h).samples

/-- A PING, the probe that answers it and its echo, five milliseconds each. -/
def probeOps : List (VideoLink.Op ℕ) :=
  [.ping 0 0, .reaches 0 5000000, .arrives 0 10000000 0, .reaches 1 15000000]

theorem paced_probe (rs : FecRs) :
    (VideoLink.machine rs ℕ 1024 1).Along (Paced 5000000 6000000 1) probeOps := by
  refine Machine.along_of_alongFrom ⟨trivial, ⟨by decide, ?_⟩, ?_, ⟨by decide, ?_⟩, trivial⟩
  all_goals
    intro d hd
    cases hd
    exact ⟨by decide, by decide⟩

theorem sampled_ten_ms : ∃ rs : FecRs, rs.Lawful ∧
    ((VideoLink.machine rs ℕ 1024 1).run probeOps).samples = [⟨1, 15000000, 10⟩] ∧
    IsAge 5000000 6000000 1 ((VideoLink.machine rs ℕ 1024 1).run probeOps).down
      ⟨1, 15000000, 10⟩ := by
  obtain ⟨rs, hrs⟩ := FecRs.exists_lawful
  have hsamples : ((VideoLink.machine rs ℕ 1024 1).run probeOps).samples =
      [⟨1, 15000000, 10⟩] := rfl
  refine ⟨rs, hrs, hsamples, sampled_age hrs (by decide) (paced_probe rs) _ ?_ rfl⟩
  rw [hsamples]
  exact List.mem_singleton.mpr rfl

end Runs

end KmControl.RttProbes
