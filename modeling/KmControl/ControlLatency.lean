import KmControl.ControlLink

/-!
How long a request stays in the queue of the control channel. The task empties the queue
before it calls ENet's service, so a request waits for one call at most.
-/
namespace KmControl.ControlLatency

open ByteFields ControlWire HostControl ControlRoundTrip ControlTraffic ControlLink
open ControlChannel (Channel Peer Service)

variable {gcm : AesGcm} {key : Key} {s : Link}

@[simp] theorem phase_send (r : Request) : (s.send gcm key r).channel.phase = s.channel.phase := by
  change (if s.channel.hasHandle then s.channel.enqueue r.msg else s.channel).phase = _
  unfold Channel.enqueue
  split
  · split <;> rfl
  · rfl

variable (gcm key s) in
/-- Only the task goes from one phase to another. -/
theorem phase_step (op : Op) : (step gcm key s op).channel.phase = s.channel.phase ∨
    ∃ now peer service, op = .task now peer service := by
  have hchange := change_step gcm key s op
  generalize step gcm key s op = s' at hchange ⊢
  cases hchange with
  | task now peer service => exact .inr ⟨now, peer, service, rfl⟩
  | idle | event | set | command | skip | deliver | deliverLoose => exact .inl rfl
  | input => exact .inl (phase_send (s := { s with read := s.read + 1 }) _)
  | ask r => exact .inl (phase_send r)
  | shutdown =>
    refine .inl ?_
    change (if s.channel.hasHandle then s.channel.shutdown else s.channel).phase = _
    split <;> rfl
  | drop =>
    refine .inl ?_
    change (if s.channel.hasHandle then { s.channel with dropped := true } else s.channel).phase = _
    split <;> rfl

variable (gcm key) in
theorem phase_step_of_draining (hphase : s.channel.phase = .draining) (op : Op) :
    (step gcm key s op).channel.phase = .draining ∨
      (step gcm key s op).channel.phase = .stopped ∨ s.channel.queue = [] := by
  rcases phase_step gcm key s op with hsame | ⟨now, peer, service, rfl⟩
  · exact .inl (hsame.trans hphase)
  · have htask : s.channel.task gcm key now peer service = s.channel.drain gcm key peer := by
      unfold Channel.task
      rw [hphase]
    change (s.channel.task gcm key now peer service).phase = _ ∨
      (s.channel.task gcm key now peer service).phase = _ ∨ _
    rw [htask]
    exact drain_phase hphase peer

theorem phase_step_of_stopped (hphase : s.channel.phase = .stopped) (op : Op) :
    (step gcm key s op).channel.phase = .stopped := by
  rcases phase_step gcm key s op with hsame | ⟨now, peer, service, rfl⟩
  · exact hsame.trans hphase
  · change (s.channel.task gcm key now peer service).phase = _
    unfold Channel.task
    rw [hphase]
    exact hphase

/-- What was asked for at some time is carried, or the queue is still being emptied. -/
def Draining (gcm : AesGcm) (key : Key) (asked : List Request) (s : Link) : Prop :=
  ∃ taken waiting, Carried gcm key s.channel taken waiting ∧ taken ++ waiting = s.asked ∧
    asked <+: s.asked ∧
      (asked <+: taken ∨ s.channel.phase = .draining ∨ s.channel.phase = .stopped)

theorem Draining.step {asked : List Request} (h : Draining gcm key asked s) {op : Op}
    (htakes : op.Takes) : Draining gcm key asked (step gcm key s op) := by
  obtain ⟨taken, waiting, hcarried, hkept, hasked, hphase⟩ := h
  obtain ⟨taken', waiting', added, hcarried', hasked', hprogress⟩ := accounted_step hcarried op
  refine ⟨taken', waiting', hcarried', ?_, ?_, ?_⟩
  · rw [hprogress.eq_of_takes htakes, hasked', ← hkept, List.append_assoc]
  · rw [hasked']
    exact hasked.trans (List.prefix_append _ _)
  · rcases hphase with htaken | hdraining | hstopped
    · exact .inl (htaken.trans hprogress.taken_grows)
    · rcases phase_step_of_draining gcm key hdraining op with hd | hs | hempty
      · exact .inr (.inl hd)
      · exact .inr (.inr hs)
      · -- with nothing in the queue, all that was asked for has been taken
        have hall : taken = s.asked := by
          rw [← hkept, hcarried.waiting_of_empty hempty, List.append_nil]
        exact .inl ((hall ▸ hasked).trans hprogress.taken_grows)
    · exact .inr (.inr (phase_step_of_stopped hstopped op))

variable (gcm key)

/-- After a call of the service the queue is emptied before the next one. -/
theorem draining_run (ops more : List Op) (now : ℕ) (peer : Peer) (service : Service)
    (hserving : ((machine gcm key).run ops).channel.phase = .serving)
    (htakes : ∀ op ∈ ops ++ [.task now peer service] ++ more, op.Takes) :
    Draining gcm key ((machine gcm key).run ops).asked
      ((machine gcm key).run (ops ++ [.task now peer service] ++ more)) := by
  induction more using List.reverseRecOn with
  | nil =>
    rw [List.append_nil] at htakes ⊢
    obtain ⟨hops, htask⟩ := List.forall_mem_append.mp htakes
    obtain ⟨taken, waiting, hcarried, hkept⟩ := exists_carried_all gcm key ops
      fun pre op hpre =>
        hops op (hpre.subset (List.mem_append_right pre (List.mem_singleton_self op)))
    rw [Machine.run_concat]
    generalize (machine gcm key).run ops = s at *
    have hafter : (s.channel.task gcm key now peer service).phase = .draining ∨
        (s.channel.task gcm key now peer service).phase = .stopped := by
      unfold Channel.task
      rw [hserving]
      exact serve_phase s.channel service
    obtain ⟨taken', waiting', hcarried', hprogress⟩ := hcarried.task now peer service
    refine ⟨taken', waiting', hcarried', ?_, List.prefix_refl _, .inr hafter⟩
    exact (hprogress.eq_of_takes (htask _ (List.mem_singleton_self _))).trans hkept
  | append_singleton more op ih =>
    rw [← List.append_assoc] at htakes ⊢
    obtain ⟨hbefore, hlast⟩ := List.forall_mem_append.mp htakes
    rw [Machine.run_concat]
    exact (ih hbefore).step (hlast op (List.mem_singleton_self op))

/-- A step of the task that meets nothing in particular. -/
def quietly : Op := .task 0 (.connected true) .nothing

end KmControl.ControlLatency
