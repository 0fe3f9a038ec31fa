import KmControl.PacketSize
import KmControl.VideoTaskSteps

/-!
Sending to a client that has fallen silent. The loop looks for the last PING only after
a whole second without another event, so frames that keep coming keep it from
looking, and it goes on sending.
-/
namespace KmControl.SilentClient

open GsProto Packetizer VideoTask VideoTaskSteps

/-- The limit of the silence and the period of the check. -/
def silenceLimit : ℕ := quietLimit + tickPeriod

variable {rs : FecRs} {Addr : Type}

/-- The time at which the loop handles an event. -/
def time : Event Addr → Option ℕ
  | .datagram _ _ now | .recvError _ now | .takeFrame _ now | .tick now => some now
  | .encoded _ | .play | .requestIdr | .takeIdr => none

/-- A frame is in the channel and can be packetized. -/
def Ready (packetSize : ℕ) (s : Task rs Addr) (fecPercentage : ℕ) : Prop :=
  s.running = true ∧ ∃ first rest p counters, s.queue = first :: rest ∧
    packetize rs (s.takeReset.frameOf packetSize fecPercentage (rest.getLastD first).frame)
      s.takeReset.counters = some (p, counters)

/-- The check comes after a whole second without an event, and more than three seconds
after the last PING; or the client's socket is found to be closed. -/
def Drops (s : Task rs Addr) (ev : Event Addr) : Prop :=
  s.running = true ∧ ((∃ now, ev = .tick now ∧ s.waitingSince + tickPeriod ≤ now ∧
    s.lastPing + quietLimit < now) ∨ ∃ now, ev = .recvError true now)

variable [DecidableEq Addr]

/-- A PING that is accepted. -/
def Heard (s : Task rs Addr) (ev : Event Addr) : Prop :=
  s.running = true ∧ ∃ addr now, ev = .datagram addr pingPayload now ∧
    s.ownerActive addr now = false

def Sends (packetSize : ℕ) (s : Task rs Addr) (ev : Event Addr) : Prop :=
  (step packetSize s ev).sent ≠ s.sent

variable {packetSize : ℕ}

theorem clientAddr_of_heard {s : Task rs Addr} {ev : Event Addr} (h : Heard s ev) :
    (step packetSize s ev).clientAddr.isSome = true := by
  obtain ⟨hrunning, addr, now, rfl, howner⟩ := h
  simp [step, hrunning, handle, Task.onDatagram, Task.onPing, howner]

theorem clientAddr_of_drops {s : Task rs Addr} {ev : Event Addr} (h : Drops s ev) :
    (step packetSize s ev).clientAddr = none := by
  obtain ⟨hrunning, ⟨now, rfl, hfires, hquiet⟩ | ⟨now, rfl⟩⟩ := h
  · have hsilent : quietLimit < now - s.lastPing := by omega
    cases hclient : s.clientAddr with
    | none => simp [step, hrunning, handle, hfires, Task.onTick, hclient]
    | some addr =>
      simp [step, hrunning, handle, hfires, Task.onTick, hclient, hsilent, Task.dropClient]
  · cases hclient : s.clientAddr with
    | none => simp [step, hrunning, handle, Task.onRecvError, hclient]
    | some addr => simp [step, hrunning, handle, Task.onRecvError, hclient, Task.dropClient]

omit [DecidableEq Addr] in
theorem clientAddr_onFrame (s : Task rs Addr) (fecPercentage : ℕ) :
    (s.onFrame packetSize fecPercentage).clientAddr = s.clientAddr := by
  have hreset : s.takeReset.clientAddr = s.clientAddr := by
    unfold Task.takeReset
    split <;> rfl
  unfold Task.onFrame
  split
  · rfl
  · split
    · rfl
    · dsimp only
      split <;> exact hreset

/-- Nothing else registers or drops a client. -/
theorem clientAddr_of_not {s : Task rs Addr} {ev : Event Addr} (hheard : ¬ Heard s ev)
    (hdrops : ¬ Drops s ev) : (step packetSize s ev).clientAddr = s.clientAddr := by
  unfold step
  split
  · rename_i hrunning
    cases ev with
    | datagram addr payload now =>
      change (s.onDatagram addr payload now).clientAddr = s.clientAddr
      unfold Task.onDatagram
      split
      · rename_i hping
        have howner : s.ownerActive addr now = true := by
          by_contra hfalse
          exact hheard ⟨hrunning, addr, now, by rw [hping], by simpa using hfalse⟩
        rw [Task.onPing, if_pos howner]
      · rfl
    | recvError connReset now =>
      cases connReset with
      | false => simp [handle, Task.onRecvError]
      | true => exact absurd ⟨hrunning, Or.inr ⟨now, rfl⟩⟩ hdrops
    | takeFrame fecPercentage now =>
      simp only [handle]
      split
      · rfl
      · exact clientAddr_onFrame s fecPercentage
    | tick now =>
      simp only [handle]
      split
      · rename_i hfires
        have hquiet : ¬ quietLimit < now - s.lastPing := fun hlt =>
          hdrops ⟨hrunning, Or.inl ⟨now, rfl, hfires, by omega⟩⟩
        simp [Task.onTick, hquiet]
      · rfl
    | encoded frame =>
      simp only [handle, Task.onEncoded]
      split <;> rfl
    | play | requestIdr | takeIdr => rfl
  · rfl

/-- A PING has been accepted, and no drop has come since. -/
def Watched (rs : FecRs) (packetSize : ℕ) (evs : List (Event Addr)) : Prop :=
  ∃ before ping after, evs = before ++ ping :: after ∧
    Heard ((machine rs Addr packetSize).run before) ping ∧
    ∀ mid ev, mid ++ [ev] <+: after →
      ¬ Drops ((machine rs Addr packetSize).run (before ++ ping :: mid)) ev

/-- A client is registered precisely from an accepted PING to the next drop. -/
theorem registered_iff (evs : List (Event Addr)) :
    ((machine rs Addr packetSize).run evs).clientAddr.isSome = true ↔
      Watched rs packetSize evs := by
  induction evs using List.reverseRecOn with
  | nil =>
    refine iff_of_false nofun ?_
    rintro ⟨before, ping, after, heq, -⟩
    cases before <;> cases heq
  | append_singleton evs ev ih =>
    rw [(machine rs Addr packetSize).run_concat]
    change (step packetSize _ ev).clientAddr.isSome = true ↔ _
    constructor
    · intro hsome
      by_cases hheard : Heard ((machine rs Addr packetSize).run evs) ev
      · exact ⟨evs, ev, [], rfl, hheard, Machine.forall_step_nil⟩
      · have hdrops : ¬ Drops ((machine rs Addr packetSize).run evs) ev := by
          intro h
          rw [clientAddr_of_drops h] at hsome
          cases hsome
        rw [clientAddr_of_not hheard hdrops] at hsome
        obtain ⟨before, ping, after, rfl, hping, hquiet⟩ := ih.mp hsome
        refine ⟨before, ping, after ++ [ev], by simp, hping, ?_⟩
        exact Machine.forall_step_concat.mpr ⟨hquiet, hdrops⟩
    · rintro ⟨before, ping, after, heq, hping, hquiet⟩
      rcases List.eq_nil_or_concat after with rfl | ⟨after, last, rfl⟩
      · obtain ⟨rfl, hlast⟩ := List.append_inj' heq rfl
        cases hlast
        exact clientAddr_of_heard hping
      · rw [List.concat_eq_append] at heq hquiet
        have hsplit : evs ++ [ev] = (before ++ ping :: after) ++ [last] := by
          rw [heq, List.append_assoc, List.cons_append]
        obtain ⟨rfl, hlast⟩ := List.append_inj' hsplit rfl
        cases hlast
        obtain ⟨hquiet, hdrops⟩ := Machine.forall_step_concat.mp hquiet
        have hsome := ih.mpr ⟨before, ping, after, rfl, hping, hquiet⟩
        by_cases hheard : Heard ((machine rs Addr packetSize).run (before ++ ping :: after)) ev
        · exact clientAddr_of_heard hheard
        · rwa [clientAddr_of_not hheard hdrops]

/-- A frame is sent when one is ready and a client is registered, and only then. -/
theorem sends_iff {s : Task rs Addr} {ev : Event Addr} : Sends packetSize s ev ↔
    ∃ fecPercentage now, ev = .takeFrame fecPercentage now ∧ s.clientAddr.isSome = true ∧
      Ready packetSize s fecPercentage := by
  constructor
  · intro hsent
    obtain ⟨hrunning, heffect⟩ | ⟨-, hstopped⟩ := effect_step packetSize s ev
    · unfold Sends at hsent
      generalize step packetSize s ev = s' at heffect hsent
      cases heffect with
      | other _ _ _ _ hsame => exact absurd hsame hsent
      | encodes | drops => exact absurd rfl hsent
      | sends pct now first rest dst p counters hqueue hclient hpacketize =>
        exact ⟨pct, now, rfl, by rw [hclient]; rfl, hrunning, first, rest, p, counters, hqueue,
          hpacketize⟩
    · rw [Sends, hstopped] at hsent
      exact absurd rfl hsent
  · rintro ⟨pct, now, rfl, hsome, hrunning, first, rest, p, counters, hqueue, hpacketize⟩
    obtain ⟨dst, hclient⟩ := Option.isSome_iff_exists.mp hsome
    have hne : s.queue ≠ [] := by
      rw [hqueue]
      exact List.cons_ne_nil _ _
    rw [Sends, step_takeFrame hrunning hne, onFrame_packetized hqueue hclient hpacketize]
    exact fun heq => absurd (congrArg List.length heq) (by simp)

/-- In a run, no shard is sent later than four seconds after the last accepted PING. -/
def QuietToSilent (rs : FecRs) (packetSize : ℕ) (evs : List (Event Addr)) : Prop :=
  ∀ pre ev, pre ++ [ev] <+: evs → Sends packetSize ((machine rs Addr packetSize).run pre) ev →
    ∃ now, time ev = some now ∧
      now ≤ ((machine rs Addr packetSize).run pre).lastPing + silenceLimit

/-- The silence is noticed before the first frame that comes too late: since every PING that
was accepted the loop has had an idle second after the first three, or found the client's
socket closed. -/
def Noticed (rs : FecRs) (packetSize : ℕ) (evs : List (Event Addr)) : Prop :=
  ∀ pre fecPercentage now, pre ++ [.takeFrame fecPercentage now] <+: evs →
    Ready packetSize ((machine rs Addr packetSize).run pre) fecPercentage →
    ((machine rs Addr packetSize).run pre).lastPing + silenceLimit < now →
    ∀ before ping after, pre = before ++ ping :: after →
      Heard ((machine rs Addr packetSize).run before) ping →
      ∃ mid ev, mid ++ [ev] <+: after ∧
        Drops ((machine rs Addr packetSize).run (before ++ ping :: mid)) ev

theorem quietToSilent_iff (evs : List (Event Addr)) :
    QuietToSilent rs packetSize evs ↔ Noticed rs packetSize evs := by
  constructor
  · intro hquiet pre pct now hpre hready hlate before ping after heq hping
    by_contra hno
    have hwatched : Watched rs packetSize pre := ⟨before, ping, after, heq, hping,
      fun mid ev hmid hdrops => hno ⟨mid, ev, hmid, hdrops⟩⟩
    have hsends := sends_iff.mpr ⟨pct, now, rfl, (registered_iff pre).mpr hwatched, hready⟩
    obtain ⟨t, ht, hle⟩ := hquiet pre _ hpre hsends
    cases ht
    omega
  · intro hnoticed pre ev hpre hsends
    obtain ⟨pct, now, rfl, hsome, hready⟩ := sends_iff.mp hsends
    refine ⟨now, rfl, ?_⟩
    by_contra hlate
    obtain ⟨before, ping, after, heq, hping, hquiet⟩ := (registered_iff pre).mp hsome
    obtain ⟨mid, drop, hmid, hdrops⟩ :=
      hnoticed pre pct now hpre hready (Nat.not_le.mp hlate) before ping after heq hping
    exact hquiet mid drop hmid hdrops

/-- A client that has sent one PING, and then a datagram or a frame for every nine tenths of
a second. -/
def busyLoop : List (Event ℕ) :=
  [.datagram 7 pingPayload 0, .datagram 7 [] 900000000, .datagram 7 [] 1800000000,
    .datagram 7 [] 2700000000, .datagram 7 [] 3600000000, .encoded ⟨[1, 2, 3], true, 0⟩]

theorem busy_sends_late : ∃ rs : FecRs, rs.Lawful ∧
    ¬ QuietToSilent rs 1024 (busyLoop ++ [.takeFrame 20 4500000000]) := by
  obtain ⟨rs, hrs⟩ := FecRs.exists_lawful
  refine ⟨rs, hrs, fun hquiet => ?_⟩
  let s := (machine rs ℕ 1024).run busyLoop
  have hok := (PacketSize.isSome_packetizeFrame hrs
    (s.takeReset.frameOf 1024 20 ⟨[1, 2, 3], true, 0⟩) s.takeReset.counters).mpr
      (show nvVideoPacketSize < 1024 by decide)
  obtain ⟨⟨shards, counters⟩, hpacketized⟩ := Option.isSome_iff_exists.mp hok
  have hready : Ready 1024 s 20 :=
    ⟨rfl, _, _, _, counters, rfl, packetize_eq_some hpacketized⟩
  have hsends : Sends 1024 s (.takeFrame 20 4500000000) :=
    sends_iff.mpr ⟨20, 4500000000, rfl, rfl, hready⟩
  obtain ⟨now, hnow, hle⟩ := hquiet busyLoop _ (List.prefix_refl _) hsends
  cases hnow
  have hping : s.lastPing = 0 := rfl
  change 4500000000 ≤ s.lastPing + silenceLimit at hle
  rw [hping] at hle
  exact absurd hle (by decide)

end KmControl.SilentClient
