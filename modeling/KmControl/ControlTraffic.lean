import KmControl.ControlChannel
import KmControl.ControlRoundTrip

/-!
The requests that the admin makes of the control channel, and what becomes of them there.
A request waits in the queue until the task seals it and hands it to ENet; where ENet does
not take it, it is lost. What ENet has been handed has at the host the effects of the
requests that it carries, in their order and after the start of the stream.
-/
namespace KmControl.ControlTraffic

open ByteFields ControlWire GsProto HostControl MoonControl ControlChannel ControlRoundTrip

section Requests

/-- What the admin asks the channel to send. -/
inductive Request where
  | idr
  | input (ev : InputEvent)
  | fecStatus (st : FrameFecStatus)

namespace Request

/-- The messages of `request_idr`, `send_input` and `send_fec_status`. -/
def msg : Request → OutMsg
  | idr => ⟨msgRequestIdr, .reliableSequenced, requestIdrPayload⟩
  | input ev => ⟨msgInputData, .reliableSequenced, encodeInput ev⟩
  | fecStatus st => ⟨msgFrameFecStatus, .unsequenced, fecStatusPayload st⟩

/-- What a request that goes in order is to do at the host. -/
def effects : Request → List Effect
  | idr => [Effect.requestIdr]
  | input ev => [Effect.inject (encodeInput ev)]
  | fecStatus _ => []

/-- What a report is to do there, whenever it comes. -/
def report : Request → List Effect
  | fecStatus st => (st.lossFraction.map Effect.onLoss).toList
  | _ => []

theorem length_payload_le (r : Request) : r.msg.payload.length ≤ maxPayload := by
  cases r with
  | idr => exact Nat.le_of_ble_eq_true rfl
  | input ev => exact length_encodeInput_le ev
  | fecStatus st => exact Nat.le_of_ble_eq_true rfl

end Request

end Requests

variable (gcm : AesGcm) (key : Key)

section Packets

/-- What a packet sets off at a host that has the key of the session. -/
def atHost (packet : Bytes) : List Effect := handlePacket gcm (some ⟨key.bytes⟩) packet

theorem atHost_msg (seq : UInt32) (r : Request) :
    atHost gcm key (encodeEncrypted gcm key seq r.msg.ty r.msg.payload) =
      r.effects ++ r.report := by
  unfold atHost
  rw [handlePacket_encodeEncrypted gcm key seq r.msg.ty r.length_payload_le]
  cases r with
  | idr => rfl
  | input ev => rfl
  | fecStatus st =>
    have hput : fecStatusPayload st = st.bytes := put_eq (Nat.le_of_ble_eq_true rfl)
    change dispatch msgFrameFecStatus (fecStatusPayload st) = (Request.fecStatus st).report
    rw [hput, dispatch_frameFecStatus, FrameFecStatus.parse_bytes, Option.bind_some]
    rfl

theorem atHost_startB (seq : UInt32) :
    atHost gcm key (encodeEncrypted gcm key seq startB.ty startB.payload) = [Effect.trigger] :=
  handlePacket_encodeEncrypted gcm key seq msgStartB (by decide)

theorem atHost_ping (seq : UInt32) :
    atHost gcm key (encodeEncrypted gcm key seq ping.ty ping.payload) = [] :=
  handlePacket_encodeEncrypted gcm key seq msgPing (by decide)

/-- The packets that ENet sends in this mode. -/
def packets (mode : PacketMode) (sent : List (Bytes × PacketMode)) : List Bytes :=
  (sent.filter fun packet => packet.2 = mode).map Prod.fst

theorem packets_concat (mode : PacketMode) (sent : List (Bytes × PacketMode)) (bytes : Bytes)
    (used : PacketMode) : packets mode (sent ++ [(bytes, used)]) =
      packets mode sent ++ if used = mode then [bytes] else [] := by
  unfold packets
  rw [List.filter_append, List.map_append]
  by_cases h : used = mode <;> simp [h]

theorem packets_mono (mode : PacketMode) {sent more : List (Bytes × PacketMode)}
    (h : sent <+: more) : packets mode sent <+: packets mode more :=
  (h.filter _).map _

/-- What the packets that come in order set off. -/
def orderly (sent : List (Bytes × PacketMode)) : List Effect :=
  (packets .reliableSequenced sent).flatMap (atHost gcm key)

theorem orderly_concat (sent : List (Bytes × PacketMode)) (bytes : Bytes) (used : PacketMode) :
    orderly gcm key (sent ++ [(bytes, used)]) = orderly gcm key sent ++
      if used = .reliableSequenced then atHost gcm key bytes else [] := by
  unfold orderly
  rw [packets_concat, List.flatMap_append]
  by_cases h : used = .reliableSequenced <;> simp [h]

theorem orderly_msg (sent : List (Bytes × PacketMode)) (seq : UInt32) (r : Request) :
    orderly gcm key (sent ++ [(encodeEncrypted gcm key seq r.msg.ty r.msg.payload, r.msg.mode)]) =
      orderly gcm key sent ++ r.effects := by
  rw [orderly_concat, atHost_msg]
  cases r with
  | idr | input | fecStatus => rfl

theorem orderly_startB (seq : UInt32) : orderly gcm key
    [(encodeEncrypted gcm key seq startB.ty startB.payload, startB.mode)] = [Effect.trigger] :=
  (List.flatMap_singleton _ _).trans (atHost_startB gcm key seq)

theorem orderly_ping (sent : List (Bytes × PacketMode)) (seq : UInt32) :
    orderly gcm key (sent ++ [(encodeEncrypted gcm key seq ping.ty ping.payload, ping.mode)]) =
      orderly gcm key sent := by
  rw [orderly_concat, atHost_ping, ite_self, List.append_nil]

end Packets

section Queueing

variable (c : Channel) (peer : Peer) (msg : OutMsg)

@[simp] theorem queueMsg_phase : (c.queueMsg gcm key peer msg).1.phase = c.phase := by
  unfold Channel.queueMsg
  rcases peer with _ | _ | _ | _ <;> rfl

@[simp] theorem queueMsg_queue : (c.queueMsg gcm key peer msg).1.queue = c.queue := by
  unfold Channel.queueMsg
  rcases peer with _ | _ | _ | _ <;> rfl

@[simp] theorem queueMsg_ok :
    (c.queueMsg gcm key peer msg).2 = decide (peer = .connected true) := by
  unfold Channel.queueMsg
  rcases peer with _ | _ | _ | _ <;> rfl

theorem queueMsg_sent : (c.queueMsg gcm key peer msg).1.sent =
    if peer = .connected true then
      c.sent ++ [(encodeEncrypted gcm key c.seq msg.ty msg.payload, msg.mode)]
    else c.sent := by
  unfold Channel.queueMsg
  rcases peer with _ | _ | _ | _ <;> rfl

theorem sent_queueMsg : c.sent <+: (c.queueMsg gcm key peer msg).1.sent := by
  rw [queueMsg_sent]
  split
  · exact List.prefix_append _ _
  · exact List.prefix_refl _

end Queueing

section Carrying

/-- The messages among the commands of a queue. -/
def messages (queue : List Cmd) : List OutMsg :=
  queue.filterMap fun
    | .msg msg => some msg
    | .shutdown => none

@[simp] theorem messages_cons_msg (msg : OutMsg) (queue : List Cmd) :
    messages (.msg msg :: queue) = msg :: messages queue := rfl

@[simp] theorem messages_append (queue more : List Cmd) :
    messages (queue ++ more) = messages queue ++ messages more := List.filterMap_append

/-- ENet has been handed nothing yet, or `StartB` and the requests of the first list, pings
aside; those of the second are in the queue. -/
inductive Carried (c : Channel) : List Request → List Request → Prop
  | unopened (hphase : c.phase = .handshake ∨ c.phase = .failed) (hsent : c.sent = [])
      (hqueue : c.queue = []) : Carried c [] []
  | opened {taken waiting : List Request} (hphase : c.phase ≠ .handshake)
      (horderly : orderly gcm key c.sent = Effect.trigger :: taken.flatMap Request.effects)
      (hreports : ∀ packet ∈ packets .unsequenced c.sent, ∃ st, Request.fecStatus st ∈ taken ∧
        atHost gcm key packet = (Request.fecStatus st).report)
      (hqueue : messages c.queue = waiting.map Request.msg) : Carried c taken waiting

/-- What a step makes of the requests taken and those waiting, where ENet takes messages or
may not. -/
inductive Progress (takes : Prop) (taken waiting : List Request) :
    List Request → List Request → Prop
  | stay : Progress takes taken waiting taken waiting
  | take (r : Request) (rest : List Request) (h : waiting = r :: rest) :
      Progress takes taken waiting (taken ++ [r]) rest
  | lose (r : Request) (rest : List Request) (h : waiting = r :: rest) (hnot : ¬ takes) :
      Progress takes taken waiting taken rest

theorem Progress.sublist {takes : Prop} {taken waiting taken' waiting' : List Request}
    (h : Progress takes taken waiting taken' waiting') :
    (taken' ++ waiting').Sublist (taken ++ waiting) := by
  cases h with
  | stay => exact List.Sublist.refl _
  | take r rest h =>
    rw [h, List.append_assoc]
    exact List.Sublist.refl _
  | lose r rest h _ =>
    rw [h]
    exact (List.sublist_cons_self r _).append_left taken

theorem Progress.eq_of_takes {takes : Prop} {taken waiting taken' waiting' : List Request}
    (h : Progress takes taken waiting taken' waiting') (htakes : takes) :
    taken' ++ waiting' = taken ++ waiting := by
  cases h with
  | stay => rfl
  | take r rest h => rw [h, List.append_assoc, List.singleton_append]
  | lose r rest _ hnot => exact absurd htakes hnot

theorem Progress.taken_grows {takes : Prop} {taken waiting taken' waiting' : List Request}
    (h : Progress takes taken waiting taken' waiting') : taken <+: taken' := by
  cases h with
  | stay | lose => exact List.prefix_refl _
  | take r rest h => exact List.prefix_append _ _

variable {gcm key}

/-- A state that differs in other things only. -/
theorem Carried.congr {c c' : Channel} {taken waiting : List Request}
    (h : Carried gcm key c taken waiting) (hphase : c'.phase = c.phase) (hsent : c'.sent = c.sent)
    (hqueue : c'.queue = c.queue) : Carried gcm key c' taken waiting := by
  cases h with
  | unopened hp hs hq =>
    exact .unopened (hphase ▸ hp) (hsent.trans hs) (hqueue.trans hq)
  | opened hp ho hr hq =>
    exact .opened (hphase ▸ hp) (hsent ▸ ho) (hsent ▸ hr) (hqueue ▸ hq)

/-- An open channel goes on, in whatever phase but the first. -/
theorem Carried.advance {c c' : Channel} {taken waiting : List Request}
    (h : Carried gcm key c taken waiting) (hopen : c.phase ≠ .handshake) (hlive : c.phase ≠ .failed)
    (hphase : c'.phase ≠ .handshake) (hsent : c'.sent = c.sent)
    (hqueue : messages c'.queue = messages c.queue) : Carried gcm key c' taken waiting := by
  cases h with
  | unopened hp _ _ => exact absurd hp (not_or.mpr ⟨hopen, hlive⟩)
  | opened _ ho hr hq => exact .opened hphase (hsent ▸ ho) (hsent ▸ hr) (hqueue.trans hq)

theorem Carried.unopened_of_handshake {c : Channel} {taken waiting : List Request}
    (h : Carried gcm key c taken waiting) (hphase : c.phase = .handshake) :
    taken = [] ∧ waiting = [] ∧ c.sent = [] ∧ c.queue = [] := by
  cases h with
  | unopened _ hsent hqueue => exact ⟨rfl, rfl, hsent, hqueue⟩
  | opened hp _ _ _ => exact absurd hphase hp

theorem Carried.waiting_of_empty {c : Channel} {taken waiting : List Request}
    (h : Carried gcm key c taken waiting) (hempty : c.queue = []) : waiting = [] := by
  cases h with
  | unopened _ _ _ => rfl
  | opened _ _ _ hqueue =>
    rw [hempty] at hqueue
    exact List.map_eq_nil_iff.mp hqueue.symm

/-- The handshake ends with `StartB` at ENet, or fails. -/
theorem Carried.shake {c : Channel} {taken waiting : List Request}
    (h : Carried gcm key c taken waiting) (hphase : c.phase = .handshake) (now : ℕ) (peer : Peer)
    (service : Service) : Carried gcm key (c.shake gcm key now peer service) taken waiting := by
  obtain ⟨rfl, rfl, hsent, hqueue⟩ := h.unopened_of_handshake hphase
  have hfailed : ∀ c' : Channel, c'.sent = c.sent → c'.queue = c.queue →
      Carried gcm key { c' with phase := .failed } [] [] := fun c' hs hq =>
    .unopened (.inr rfl) (hs.trans hsent) (hq.trans hqueue)
  unfold Channel.shake
  split
  · exact hfailed c rfl rfl
  · cases service with
    | disconnected => exact hfailed c rfl rfl
    | error => exact hfailed c rfl rfl
    | nothing => exact h
    | received buf => exact h.congr rfl rfl rfl
    | connected =>
      change Carried gcm key { (c.queueMsg gcm key peer startB).1 with
        phase := if (c.queueMsg gcm key peer startB).2 then .flushing else .failed } [] []
      by_cases hpeer : peer = .connected true
      · rw [queueMsg_ok, decide_eq_true hpeer]
        have hout := queueMsg_sent gcm key c peer startB
        rw [if_pos hpeer, hsent, List.nil_append] at hout
        refine .opened (by rintro ⟨⟩) ?_ ?_ ?_
        · change orderly gcm key (c.queueMsg gcm key peer startB).1.sent = _
          rw [hout, orderly_startB]
          rfl
        · change ∀ packet ∈ packets .unsequenced (c.queueMsg gcm key peer startB).1.sent, _
          rw [hout]
          exact nofun
        · change messages (c.queueMsg gcm key peer startB).1.queue = _
          rw [queueMsg_queue, hqueue]
          rfl
      · rw [queueMsg_ok, decide_eq_false hpeer]
        have hout := queueMsg_sent gcm key c peer startB
        rw [if_neg hpeer] at hout
        exact hfailed _ hout (queueMsg_queue gcm key c peer startB)

theorem Carried.flush {c : Channel} {taken waiting : List Request}
    (h : Carried gcm key c taken waiting) (hphase : c.phase = .flushing) (now : ℕ)
    (service : Service) : Carried gcm key (c.flush now service) taken waiting := by
  obtain ⟨hopen, hlive⟩ : c.phase ≠ .handshake ∧ c.phase ≠ .failed := by rw [hphase]; decide
  unfold Channel.flush
  split
  · exact h.advance hopen hlive (by rintro ⟨⟩) rfl rfl
  · exact h.advance hopen hlive (by rintro ⟨⟩) rfl rfl

/-- A ping has no effect at the host. -/
theorem Carried.pingIfDue {c : Channel} {taken waiting : List Request}
    (h : Carried gcm key c taken waiting) (hphase : c.phase = .pinging) (now : ℕ) (peer : Peer) :
    Carried gcm key (c.pingIfDue gcm key now peer) taken waiting := by
  obtain ⟨hopen, hlive⟩ : c.phase ≠ .handshake ∧ c.phase ≠ .failed := by rw [hphase]; decide
  unfold Channel.pingIfDue
  split
  · cases h with
    | unopened hp _ _ => exact absurd hp (not_or.mpr ⟨hopen, hlive⟩)
    | opened _ horderly hreports hqueue =>
      refine .opened (by rintro ⟨⟩) ?_ ?_ ?_
      · change orderly gcm key (c.queueMsg gcm key peer ping).1.sent = _
        rw [queueMsg_sent]
        split
        · rw [orderly_ping, horderly]
        · exact horderly
      · change ∀ packet ∈ packets .unsequenced (c.queueMsg gcm key peer ping).1.sent, _
        rw [queueMsg_sent]
        split
        · rw [packets_concat, if_neg (by rintro ⟨⟩), List.append_nil]
          exact hreports
        · exact hreports
      · change messages (c.queueMsg gcm key peer ping).1.queue = _
        rw [queueMsg_queue]
        exact hqueue
  · exact h.advance hopen hlive (by rintro ⟨⟩) rfl rfl

theorem Carried.serve {c : Channel} {taken waiting : List Request}
    (h : Carried gcm key c taken waiting) (hphase : c.phase = .serving) (service : Service) :
    Carried gcm key (c.serve gcm key service) taken waiting := by
  obtain ⟨hopen, hlive⟩ : c.phase ≠ .handshake ∧ c.phase ≠ .failed := by rw [hphase]; decide
  have hserved : ∀ c' : Channel, c'.sent = c.sent → c'.queue = c.queue →
      Carried gcm key (if service = .disconnected ∨ c'.shared.termCode.isSome then c'.stop
        else { c' with phase := .draining }) taken waiting := by
    intro c' hsent hqueue
    split
    · exact h.advance hopen hlive (by rintro ⟨⟩) hsent (congrArg messages hqueue)
    · exact h.advance hopen hlive (by rintro ⟨⟩) hsent (congrArg messages hqueue)
  unfold Channel.serve
  cases service with
  | received buf => exact hserved _ rfl rfl
  | connected => exact hserved c rfl rfl
  | disconnected => exact hserved c rfl rfl
  | nothing => exact hserved c rfl rfl
  | error => exact hserved c rfl rfl

/-- Every packet that is out of order is one of the reports. -/
theorem reports_concat {sent : List (Bytes × PacketMode)} {taken : List Request}
    (hreports : ∀ packet ∈ packets .unsequenced sent, ∃ st, Request.fecStatus st ∈ taken ∧
      atHost gcm key packet = (Request.fecStatus st).report) (seq : UInt32) (r : Request) :
    ∀ packet ∈ packets .unsequenced
        (sent ++ [(encodeEncrypted gcm key seq r.msg.ty r.msg.payload, r.msg.mode)]),
      ∃ st, Request.fecStatus st ∈ taken ++ [r] ∧
        atHost gcm key packet = (Request.fecStatus st).report := by
  intro packet hpacket
  rw [packets_concat] at hpacket
  rcases List.mem_append.mp hpacket with hold | hnew
  · obtain ⟨st, hst, heffects⟩ := hreports packet hold
    exact ⟨st, List.mem_append_left _ hst, heffects⟩
  · cases r with
    | idr => exact absurd hnew List.not_mem_nil
    | input ev => exact absurd hnew List.not_mem_nil
    | fecStatus st =>
      obtain rfl := List.mem_singleton.mp hnew
      exact ⟨st, List.mem_append_right _ (List.mem_singleton_self _), atHost_msg gcm key seq _⟩

/-- The first message of the queue is sealed, and goes to ENet or is lost. -/
theorem Carried.drain {c : Channel} {taken waiting : List Request}
    (h : Carried gcm key c taken waiting) (hphase : c.phase = .draining) (peer : Peer) :
    ∃ taken' waiting', Carried gcm key (c.drain gcm key peer) taken' waiting' ∧
      Progress (peer = .connected true) taken waiting taken' waiting' := by
  obtain ⟨hopen, hlive⟩ : c.phase ≠ .handshake ∧ c.phase ≠ .failed := by rw [hphase]; decide
  unfold Channel.drain
  cases hqueue : c.queue with
  | nil =>
    have hstay : ∀ c' : Channel, c'.phase ≠ .handshake → c'.sent = c.sent → c'.queue = c.queue →
        ∃ taken' waiting', Carried gcm key c' taken' waiting' ∧
          Progress (peer = .connected true) taken waiting taken' waiting' :=
      fun c' hp hs hq => ⟨taken, waiting, h.advance hopen hlive hp hs (congrArg messages hq), .stay⟩
    dsimp only
    split
    · exact hstay c.stop (by rintro ⟨⟩) rfl rfl
    · exact hstay _ (by rintro ⟨⟩) rfl hqueue.symm
  | cons cmd rest =>
    cases cmd with
    | shutdown =>
      exact ⟨taken, waiting, h.advance hopen hlive (by rintro ⟨⟩) rfl (by rw [hqueue]; rfl), .stay⟩
    | msg msg =>
      cases h with
      | unopened hp _ _ => exact absurd hp (not_or.mpr ⟨hopen, hlive⟩)
      | opened hp horderly hreports hmessages =>
        rw [hqueue, messages_cons_msg] at hmessages
        obtain ⟨r, waiting, rfl, rfl, hrest⟩ := List.map_eq_cons_iff.mp hmessages.symm
        have hphase' := (queueMsg_phase gcm key { c with queue := rest } peer r.msg).trans_ne hp
        have hqueue' := queueMsg_queue gcm key { c with queue := rest } peer r.msg
        have hsent' := queueMsg_sent gcm key { c with queue := rest } peer r.msg
        by_cases hpeer : peer = .connected true
        · rw [if_pos hpeer] at hsent'
          refine ⟨taken ++ [r], waiting, .opened hphase' ?_ ?_ ?_, .take r waiting rfl⟩
          · rw [hsent', orderly_msg, horderly, List.flatMap_append, List.flatMap_singleton]
            rfl
          · rw [hsent']
            exact reports_concat hreports c.seq r
          · rw [hqueue']
            exact hrest.symm
        · rw [if_neg hpeer] at hsent'
          refine ⟨taken, waiting, .opened hphase' ?_ ?_ ?_, .lose r waiting rfl hpeer⟩
          · rw [hsent', horderly]
          · rw [hsent']
            exact hreports
          · rw [hqueue']
            exact hrest.symm

/-- The task goes on to the ping only with an empty queue. -/
theorem drain_phase {c : Channel} (hphase : c.phase = .draining) (peer : Peer) :
    (c.drain gcm key peer).phase = .draining ∨ (c.drain gcm key peer).phase = .stopped ∨
      c.queue = [] := by
  unfold Channel.drain
  cases hqueue : c.queue with
  | nil => exact .inr (.inr rfl)
  | cons cmd rest =>
    cases cmd with
    | msg msg =>
      exact .inl ((queueMsg_phase gcm key { c with queue := rest } peer msg).trans hphase)
    | shutdown => exact .inr (.inl rfl)

/-- After the service the queue is emptied, unless the task ends. -/
theorem serve_phase (c : Channel) (service : Service) :
    (c.serve gcm key service).phase = .draining ∨ (c.serve gcm key service).phase = .stopped := by
  have hend : ∀ c' : Channel, (if service = .disconnected ∨ c'.shared.termCode.isSome then c'.stop
      else { c' with phase := .draining }).phase = .draining ∨
        (if service = .disconnected ∨ c'.shared.termCode.isSome then c'.stop
          else { c' with phase := .draining }).phase = .stopped := by
    intro c'
    split
    · exact .inr rfl
    · exact .inl rfl
  unfold Channel.serve
  cases service with
  | received buf => exact hend _
  | connected | disconnected | nothing | error => exact hend c

/-- One step of the task. -/
theorem Carried.task {c : Channel} {taken waiting : List Request}
    (h : Carried gcm key c taken waiting) (now : ℕ) (peer : Peer) (service : Service) :
    ∃ taken' waiting', Carried gcm key (c.task gcm key now peer service) taken' waiting' ∧
      Progress (peer = .connected true) taken waiting taken' waiting' := by
  unfold Channel.task
  cases hphase : c.phase with
  | handshake => exact ⟨taken, waiting, h.shake hphase now peer service, .stay⟩
  | flushing => exact ⟨taken, waiting, h.flush hphase now service, .stay⟩
  | draining => exact h.drain hphase peer
  | pinging => exact ⟨taken, waiting, h.pingIfDue hphase now peer, .stay⟩
  | serving => exact ⟨taken, waiting, h.serve hphase service, .stay⟩
  | stopped => exact ⟨taken, waiting, h, .stay⟩
  | failed => exact ⟨taken, waiting, h, .stay⟩

/-- There is a handle only to a channel that has been opened. -/
theorem phase_of_hasHandle {c : Channel} (hhandle : c.hasHandle = true) :
    c.phase ≠ .handshake ∧ c.phase ≠ .failed := by
  simp only [Channel.hasHandle, Bool.and_eq_true, decide_eq_true_eq, List.mem_cons,
    List.not_mem_nil, or_false, not_or] at hhandle
  exact ⟨hhandle.2.1, hhandle.2.2.2⟩

theorem Carried.enqueue {c : Channel} {taken waiting : List Request}
    (h : Carried gcm key c taken waiting) (hhandle : c.hasHandle = true)
    (halive : c.shared.alive = true) (r : Request) :
    Carried gcm key (c.enqueue r.msg) taken (waiting ++ [r]) := by
  unfold Channel.enqueue
  rw [if_pos halive]
  obtain ⟨hopen, hlive⟩ := phase_of_hasHandle hhandle
  cases h with
  | unopened hp _ _ => exact absurd hp (not_or.mpr ⟨hopen, hlive⟩)
  | opened hp horderly hreports hqueue =>
    refine .opened hp horderly hreports ?_
    rw [messages_append, hqueue, List.map_append]
    rfl

theorem Carried.shutdown {c : Channel} {taken waiting : List Request}
    (h : Carried gcm key c taken waiting) (hhandle : c.hasHandle = true) :
    Carried gcm key c.shutdown taken waiting := by
  obtain ⟨hopen, hlive⟩ := phase_of_hasHandle hhandle
  refine h.advance hopen hlive hopen rfl ?_
  change messages (c.queue ++ [Cmd.shutdown]) = _
  rw [messages_append]
  exact List.append_nil _

end Carrying

section Growing

variable (c : Channel)

/-- What ENet has been handed stays handed over. -/
theorem sent_task (now : ℕ) (peer : Peer) (service : Service) :
    c.sent <+: (c.task gcm key now peer service).sent := by
  unfold Channel.task
  cases c.phase with
  | handshake =>
    change c.sent <+: (c.shake gcm key now peer service).sent
    unfold Channel.shake
    split
    · exact List.prefix_refl _
    · cases service with
      | connected => exact sent_queueMsg gcm key c peer startB
      | disconnected | received | nothing | error => exact List.prefix_refl _
  | flushing =>
    change c.sent <+: (c.flush now service).sent
    unfold Channel.flush
    split <;> exact List.prefix_refl _
  | draining =>
    change c.sent <+: (c.drain gcm key peer).sent
    unfold Channel.drain
    split
    · rename_i msg rest _
      exact sent_queueMsg gcm key { c with queue := rest } peer msg
    · exact List.prefix_refl _
    · split <;> exact List.prefix_refl _
  | pinging =>
    change c.sent <+: (c.pingIfDue gcm key now peer).sent
    unfold Channel.pingIfDue
    split
    · exact sent_queueMsg gcm key c peer ping
    · exact List.prefix_refl _
  | serving =>
    change c.sent <+: (c.serve gcm key service).sent
    unfold Channel.serve
    cases service with
    | connected | disconnected | received | nothing | error =>
      dsimp only
      split <;> exact List.prefix_refl _
  | stopped | failed => exact List.prefix_refl _

theorem sent_step (op : ControlChannel.Input) :
    c.sent <+: (ControlChannel.step gcm key c op).sent := by
  cases op with
  | task now peer service => exact sent_task gcm key c now peer service
  | enqueue msg =>
    unfold ControlChannel.step Channel.enqueue
    dsimp only
    split
    · split <;> exact List.prefix_refl _
    · exact List.prefix_refl _
  | shutdown | drop =>
    unfold ControlChannel.step
    dsimp only
    split <;> exact List.prefix_refl _

end Growing

end KmControl.ControlTraffic
