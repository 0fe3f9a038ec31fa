import KmControl.SortedMap
import KmControl.VideoTask

/-!
The effects of one event on the video task, stated once: on the channel, on the
frames sent and on the numbering.
-/
namespace KmControl.VideoTaskSteps

open GsProto Packetizer VideoTask

variable {rs : FecRs} {Addr : Type}

@[simp] theorem sent_takeReset (s : Task rs Addr) : s.takeReset.sent = s.sent := by
  unfold Task.takeReset
  split <;> rfl

@[simp] theorem queue_takeReset (s : Task rs Addr) : s.takeReset.queue = s.queue := by
  unfold Task.takeReset
  split <;> rfl

@[simp] theorem idrReq_takeReset (s : Task rs Addr) : s.takeReset.idrReq = s.idrReq := by
  unfold Task.takeReset
  split <;> rfl

@[simp] theorem produced_takeReset (s : Task rs Addr) : s.takeReset.produced = s.produced := by
  unfold Task.takeReset
  split <;> rfl

theorem takeReset_of_not_resets {s : Task rs Addr} (h : s.sessionReset = false) :
    s.takeReset = s := by
  unfold Task.takeReset
  rw [h]
  rfl

/-- Two states with the same channel, frames sent and numbering. -/
structure SameStream (s s' : Task rs Addr) : Prop where
  queue : s'.queue = s.queue
  produced : s'.produced = s.produced
  sent : s'.sent = s.sent
  frameNumber : s'.frameNumber = s.frameNumber

theorem sameStream_onRecvError (s : Task rs Addr) (connReset : Bool) :
    SameStream s (s.onRecvError connReset) := by
  unfold Task.onRecvError
  split <;> exact ⟨rfl, rfl, rfl, rfl⟩

theorem sameStream_onTick (s : Task rs Addr) (now : ℕ) : SameStream s (s.onTick now) := by
  unfold Task.onTick
  split <;> exact ⟨rfl, rfl, rfl, rfl⟩

section OnFrame

variable {packetSize pct : ℕ} {s : Task rs Addr} {first : Queued} {rest : List Queued} {dst : Addr}

theorem onFrame_unregistered (hqueue : s.queue = first :: rest) (hclient : s.clientAddr = none) :
    s.onFrame packetSize pct = { s with queue := rest } := by
  unfold Task.onFrame
  simp only [hqueue, hclient]

theorem onFrame_packetized (hqueue : s.queue = first :: rest) (hclient : s.clientAddr = some dst)
    {p : Packetized rs} {counters : Counters} (hpacketize : packetize rs
      (s.takeReset.frameOf packetSize pct (rest.getLastD first).frame)
        s.takeReset.counters = some (p, counters)) :
    s.onFrame packetSize pct = { s.takeReset with
      queue := [], frameNumber := s.takeReset.frameNumber + 1, counters := counters,
      sent := s.sent ++ [{ p with dst := dst, order := (rest.getLastD first).order }] } := by
  unfold Task.onFrame
  simp only [hqueue, hclient, hpacketize, sent_takeReset]

theorem onFrame_fault (hqueue : s.queue = first :: rest) (hclient : s.clientAddr = some dst)
    (hpacketize : packetize rs (s.takeReset.frameOf packetSize pct (rest.getLastD first).frame)
      s.takeReset.counters = none) :
    s.onFrame packetSize pct = { s.takeReset with running := false } := by
  unfold Task.onFrame
  simp only [hqueue, hclient, hpacketize]

end OnFrame

variable [DecidableEq Addr]

/-- Whether the numbering of frames starts over with this event: a new client is
registered, a PLAY has asked for it, or the number wraps. -/
def resets (s : Task rs Addr) : Event Addr → Bool
  | .datagram addr payload now => decide (payload = pingPayload) && !s.ownerActive addr now &&
      decide (s.clientAddr ≠ some addr)
  | .takeFrame _ _ => !s.queue.isEmpty && s.clientAddr.isSome &&
      (s.sessionReset || decide (s.frameNumber + 1 = 0))
  | _ => false

/-- What an event does: it adds a frame to the channel, takes one without a client
being registered, sends the newest one, or leaves the channel alone. -/
inductive Effect (packetSize : ℕ) (s : Task rs Addr) : Event Addr → Task rs Addr → Prop
  | other (ev : Event Addr) (s' : Task rs Addr) (hqueue : s'.queue = s.queue)
      (hproduced : s'.produced = s.produced) (hsent : s'.sent = s.sent)
      (hnumber : s'.frameNumber = s.frameNumber ∨ resets s ev = true)
      (hidle : ∀ pct now first rest, ev = Event.takeFrame pct now → s.queue = first :: rest →
        ∃ dst, s.clientAddr = some dst ∧ packetize rs
          (s.takeReset.frameOf packetSize pct (rest.getLastD first).frame)
            s.takeReset.counters = none) : Effect packetSize s ev s'
  | encodes (frame : EncodedFrame) : Effect packetSize s (Event.encoded frame)
      { s with queue := s.queue ++ [⟨s.produced, frame⟩], produced := s.produced + 1 }
  | drops (pct now : ℕ) (first : Queued) (rest : List Queued) (hqueue : s.queue = first :: rest)
      (hclient : s.clientAddr = none) : Effect packetSize s (Event.takeFrame pct now)
        { s with queue := rest, waitingSince := now }
  | sends (pct now : ℕ) (first : Queued) (rest : List Queued) (dst : Addr) (p : Packetized rs)
      (counters : Counters) (hqueue : s.queue = first :: rest) (hclient : s.clientAddr = some dst)
      (hpacketize : packetize rs
        (s.takeReset.frameOf packetSize pct (rest.getLastD first).frame)
          s.takeReset.counters = some (p, counters)) :
      Effect packetSize s (Event.takeFrame pct now)
        { s.takeReset with
          queue := [], frameNumber := s.takeReset.frameNumber + 1, counters := counters,
          sent := s.sent ++ [{ p with dst := dst, order := (rest.getLastD first).order }],
          waitingSince := now }

/-- A registration leaves the channel alone and resets the counters only for a new client. -/
theorem onDatagram_cases (s : Task rs Addr) (addr : Addr) (payload : Bytes) (now : ℕ) :
    (s.onDatagram addr payload now).queue = s.queue ∧
      (s.onDatagram addr payload now).produced = s.produced ∧
      (s.onDatagram addr payload now).sent = s.sent ∧
      ((s.onDatagram addr payload now).frameNumber = s.frameNumber ∨
        resets s (Event.datagram addr payload now) = true) := by
  unfold Task.onDatagram Task.onPing
  by_cases hping : payload = pingPayload
  · rw [if_pos hping]
    cases howner : s.ownerActive addr now with
    | true => exact ⟨rfl, rfl, rfl, Or.inl rfl⟩
    | false =>
      by_cases hnew : s.clientAddr ≠ some addr
      · rw [if_neg Bool.false_ne_true, if_pos hnew]
        refine ⟨rfl, rfl, rfl, Or.inr ?_⟩
        simp [resets, hping, howner, hnew]
      · rw [if_neg Bool.false_ne_true, if_neg hnew]
        exact ⟨rfl, rfl, rfl, Or.inl rfl⟩
  · rw [if_neg hping]
    exact ⟨rfl, rfl, rfl, Or.inl rfl⟩

theorem step_takeFrame {packetSize : ℕ} {s : Task rs Addr} (hrunning : s.running = true)
    (hqueue : s.queue ≠ []) (pct now : ℕ) : step packetSize s (Event.takeFrame pct now) =
      { s.onFrame packetSize pct with waitingSince := now } :=
  (if_pos hrunning).trans (if_neg hqueue)

/-- Taking a frame from the channel. -/
theorem effect_takeFrame (packetSize : ℕ) (s : Task rs Addr) (pct now : ℕ) :
    Effect packetSize s (Event.takeFrame pct now)
      (handle packetSize s (Event.takeFrame pct now)) := by
  have hhandle : handle packetSize s (Event.takeFrame pct now) = if s.queue = [] then s
      else { s.onFrame packetSize pct with waitingSince := now } := rfl
  rw [hhandle]
  cases hqueue : s.queue with
  | nil =>
    refine Effect.other _ s rfl rfl rfl (Or.inl rfl) fun _ _ _ _ _ hcons => ?_
    rw [hqueue] at hcons
    cases hcons
  | cons first rest =>
    rw [if_neg (List.cons_ne_nil _ _)]
    cases hclient : s.clientAddr with
    | none =>
      rw [onFrame_unregistered hqueue hclient]
      exact Effect.drops pct now first rest hqueue hclient
    | some dst =>
      cases hpacketize : packetize rs
          (s.takeReset.frameOf packetSize pct (rest.getLastD first).frame)
            s.takeReset.counters with
      | some result =>
        rw [onFrame_packetized hqueue hclient hpacketize]
        exact Effect.sends pct now first rest dst result.1 result.2 hqueue hclient hpacketize
      | none =>
        rw [onFrame_fault hqueue hclient hpacketize]
        refine Effect.other _ _ (queue_takeReset s) (produced_takeReset s) (sent_takeReset s)
          ?_ fun pct' now' first' rest' heq hcons => ?_
        · cases hreset : s.sessionReset with
          | true =>
            right
            simp [resets, hqueue, hclient, hreset]
          | false =>
            left
            change s.takeReset.frameNumber = s.frameNumber
            rw [takeReset_of_not_resets hreset]
        · cases heq
          rw [hqueue] at hcons
          cases hcons
          exact ⟨dst, hclient, hpacketize⟩

/-- Every event of a running task has one of the effects. -/
theorem effect_handle (packetSize : ℕ) (s : Task rs Addr) (ev : Event Addr) :
    Effect packetSize s ev (handle packetSize s ev) := by
  have hskip : ∀ s' : Task rs Addr, SameStream s s' →
      (∀ pct now, ev ≠ Event.takeFrame pct now) → Effect packetSize s ev s' := by
    intro s' hsame hev
    exact Effect.other ev s' hsame.queue hsame.produced hsame.sent (Or.inl hsame.frameNumber)
      fun pct now _ _ heq => absurd heq (hev pct now)
  cases ev with
  | datagram addr payload now =>
    obtain ⟨hqueue, hproduced, hsent, hnumber⟩ := onDatagram_cases s addr payload now
    refine Effect.other _ _ hqueue hproduced hsent hnumber fun _ _ _ _ heq => ?_
    cases heq
  | recvError connReset now =>
    obtain ⟨hqueue, hproduced, hsent, hnumber⟩ := sameStream_onRecvError s connReset
    exact hskip _ ⟨hqueue, hproduced, hsent, hnumber⟩ fun _ _ heq => by cases heq
  | takeFrame pct now => exact effect_takeFrame packetSize s pct now
  | tick now =>
    change Effect packetSize s _ (if s.waitingSince + tickPeriod ≤ now then _ else s)
    split
    · obtain ⟨hqueue, hproduced, hsent, hnumber⟩ := sameStream_onTick s now
      exact hskip _ ⟨hqueue, hproduced, hsent, hnumber⟩ fun _ _ heq => by cases heq
    · exact hskip s ⟨rfl, rfl, rfl, rfl⟩ fun _ _ heq => by cases heq
  | encoded frame =>
    change Effect packetSize s _ (s.onEncoded frame)
    unfold Task.onEncoded
    split
    · exact Effect.encodes frame
    · exact hskip s ⟨rfl, rfl, rfl, rfl⟩ fun _ _ heq => by cases heq
  | play => exact hskip _ ⟨rfl, rfl, rfl, rfl⟩ fun _ _ heq => by cases heq
  | requestIdr => exact hskip _ ⟨rfl, rfl, rfl, rfl⟩ fun _ _ heq => by cases heq
  | takeIdr => exact hskip _ ⟨rfl, rfl, rfl, rfl⟩ fun _ _ heq => by cases heq

/-- A task that has stopped does nothing. -/
theorem effect_step (packetSize : ℕ) (s : Task rs Addr) (ev : Event Addr) :
    (s.running = true ∧ Effect packetSize s ev (step packetSize s ev)) ∨
      (s.running = false ∧ step packetSize s ev = s) := by
  unfold step
  cases s.running with
  | false => exact Or.inr ⟨rfl, rfl⟩
  | true => exact Or.inl ⟨rfl, effect_handle packetSize s ev⟩

/-- A frame number that does not wrap grows. -/
theorem lt_add_one {n : UInt32} (h : n + 1 ≠ 0) : n < n + 1 := by
  have hne : (n + 1).toNat ≠ 0 := fun hzero => h (UInt32.toNat_inj.mp hzero)
  have hadd := UInt32.toNat_add n 1
  have hone : (1 : UInt32).toNat = 1 := rfl
  have hbound := n.toNat_lt
  rw [UInt32.lt_iff_toNat_lt]
  omega

end KmControl.VideoTaskSteps
