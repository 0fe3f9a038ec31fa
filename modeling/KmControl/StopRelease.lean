import KmControl.KeyOwnership
import KmControl.StopStream

/-!
Which stops release what the stream has pressed. What the host will have injected
in the end is settled when `Shutdown` goes into the queue: nothing behind it gets
through, and nothing ahead of it is lost.
-/
namespace KmControl.StopRelease

open ControlRoundTrip Held HostControl KeyOwnership KeyhookSteps MoonControl StopStream
open Keyhook hiding step machine

theorem beforeShutdown_concat_shutdown (queue : List Cmd) :
    beforeShutdown (queue ++ [Cmd.shutdown]) = beforeShutdown queue := by
  induction queue with
  | nil => rfl
  | cons cmd queue ih =>
    cases cmd with
    | msg ev => exact congrArg (ev :: ·) ih
    | shutdown => rfl

theorem beforeShutdown_append {queue : List Cmd} (h : Cmd.shutdown ∈ queue) (more : List Cmd) :
    beforeShutdown (queue ++ more) = beforeShutdown queue := by
  induction queue with
  | nil => simp at h
  | cons cmd queue ih =>
    cases cmd with
    | msg ev =>
      have hrest : Cmd.shutdown ∈ queue := by simpa using h
      exact congrArg (ev :: ·) (ih hrest)
    | shutdown => rfl

/-- `Shutdown` is in the queue exactly between its sending and the end of the task. -/
structure Ordered (s : State) : Prop where
  before : s.stop ≠ Stop.returned → s.running = true ∧ Cmd.shutdown ∉ s.queue
  after : s.stop = Stop.returned → s.running = true → Cmd.shutdown ∈ s.queue

/-- Where nothing is sent and the queue and the task stay as they are, so does the order. -/
theorem Ordered.of_eq {s s' : State} (h : Ordered s) (hstop : s'.stop = s.stop)
    (hrunning : s'.running = s.running) (hqueue : s'.queue = s.queue) : Ordered s' := by
  constructor
  · rw [hstop, hrunning, hqueue]
    exact h.before
  · rw [hstop, hrunning, hqueue]
    exact h.after

theorem Ordered.send_msg {s : State} (h : Ordered s) (ev : InputEvent) :
    Ordered (s.send (.msg ev)) := by
  unfold State.send
  split
  · constructor
    · intro hstop
      obtain ⟨hrunning, hqueue⟩ := h.before hstop
      exact ⟨hrunning, by simpa using hqueue⟩
    · intro hstop hrunning
      exact List.mem_append_left _ (h.after hstop hrunning)
  · exact h

theorem Ordered.readLine {s : State} (h : Ordered s) : Ordered s.readLine := by
  unfold State.readLine
  split
  · exact h.of_eq rfl rfl rfl
  · exact h

theorem Ordered.handleCommand {s : State} (h : Ordered s) : Ordered s.handleCommand := by
  unfold State.handleCommand
  split
  · exact h
  · exact h.of_eq rfl rfl rfl

theorem Ordered.stopStream {s : State} (h : Ordered s) : Ordered s.stopStream := by
  unfold State.stopStream
  cases hstop : s.stop with
  | idle =>
    have hbefore := h.before (by rw [hstop]; rintro ⟨⟩)
    exact ⟨fun _ => hbefore, fun hret => by cases hret⟩
  | written =>
    have hbefore := h.before (by rw [hstop]; rintro ⟨⟩)
    exact ⟨fun _ => hbefore, fun hret => by cases hret⟩
  | dead =>
    obtain ⟨hrunning, -⟩ := h.before (by rw [hstop]; rintro ⟨⟩)
    simp only [State.send, if_pos hrunning]
    exact ⟨fun hne => absurd rfl hne, fun _ _ => by simp⟩
  | returned => exact h

theorem Ordered.drain {s : State} (h : Ordered s) : Ordered s.drain := by
  unfold State.drain
  cases hqueue : s.queue with
  | nil => exact h
  | cons cmd rest =>
    have hbefore := h.before
    have hafter := h.after
    rw [hqueue] at hbefore hafter
    cases cmd with
    | msg ev =>
      constructor
      · intro hstop
        obtain ⟨hrunning, hnot⟩ := hbefore hstop
        exact ⟨hrunning, fun hmem => hnot (List.mem_cons_of_mem _ hmem)⟩
      · intro hstop hrunning
        simpa using hafter hstop hrunning
    | shutdown =>
      constructor
      · intro hstop
        exact absurd List.mem_cons_self (hbefore hstop).2
      · intro _ hrunning
        cases hrunning

theorem Ordered.step {s : State} (h : Ordered s) (op : Op) : Ordered (step s op) := by
  cases op with
  | key | mouse | write => exact h.of_eq rfl rfl rfl
  | handleCommand => exact h.handleCommand
  | readLine => exact h.readLine
  | enqueue =>
    change Ordered s.enqueue
    unfold State.enqueue
    split
    · have hclear : Ordered { s with pending := none } := h.of_eq rfl rfl rfl
      exact hclear.send_msg _
    · exact h
  | stopStream => exact h.stopStream
  | drain => exact h.drain
  | deliver =>
    change Ordered s.deliver
    unfold State.deliver
    split
    · exact h
    · exact h.of_eq rfl rfl rfl

theorem run_ordered (ops : List Op) : Ordered (machine.run ops) :=
  Machine.run_invariant machine (I := Ordered)
    ⟨fun _ => ⟨rfl, List.not_mem_nil⟩, fun h => by cases h⟩ (fun _ op h => h.step op) ops

theorem accepted_drain (s : State) : accepted s.drain = accepted s := by
  unfold State.drain
  cases hqueue : s.queue with
  | nil => rfl
  | cons cmd rest =>
    cases cmd with
    | msg ev =>
      simp only [accepted, hqueue, beforeShutdown, List.filterMap_append, List.map_cons,
        List.filterMap_cons, parseInput_encodeInput, List.filterMap_nil, List.append_assoc,
        List.cons_append, List.nil_append]
    | shutdown => simp only [accepted, hqueue, beforeShutdown]

theorem accepted_deliver (s : State) : accepted s.deliver = accepted s := by
  unfold State.deliver
  cases hlink : s.link with
  | nil => rfl
  | cons payload rest =>
    simp only [accepted, hlink, List.append_assoc]
    cases hparse : parseInput payload with
    | none => rw [List.filterMap_cons_none hparse]; rfl
    | some action => rw [List.filterMap_cons_some hparse]; rfl

theorem accepted_stopStream (s : State) : accepted s.stopStream = accepted s := by
  unfold State.stopStream
  cases s.stop with
  | idle | written | returned => rfl
  | dead =>
    simp only [State.send]
    split
    · simp only [accepted, beforeShutdown_concat_shutdown]
    · rfl

/-- A message adds to what is accepted only if it comes ahead of `Shutdown`. -/
theorem accepted_send_of_returned {s : State} (h : Ordered s) (hstop : s.stop = Stop.returned)
    (cmd : Cmd) : accepted (s.send cmd) = accepted s := by
  unfold State.send
  split
  · rename_i hrunning
    simp only [accepted, beforeShutdown_append (h.after hstop hrunning)]
  · rfl

theorem accepted_readLine (s : State) : accepted s.readLine = accepted s := by
  unfold State.readLine
  split <;> rfl

theorem accepted_handleCommand (s : State) : accepted s.handleCommand = accepted s := by
  unfold State.handleCommand
  split <;> rfl

/-- What is accepted stays as it is once `Shutdown` has been sent. -/
theorem accepted_step_of_returned {s : State} (h : Ordered s) (hstop : s.stop = Stop.returned)
    (op : Op) : accepted (step s op) = accepted s := by
  cases op with
  | key | mouse | write => rfl
  | handleCommand => exact accepted_handleCommand s
  | readLine => exact accepted_readLine s
  | enqueue =>
    change accepted s.enqueue = accepted s
    unfold State.enqueue
    split
    · have hclear : Ordered { s with pending := none } := h.of_eq rfl rfl rfl
      exact accepted_send_of_returned hclear hstop _
    · rfl
  | stopStream => exact accepted_stopStream s
  | drain => exact accepted_drain s
  | deliver => exact accepted_deliver s

/-- `stop_stream` returns only by sending `Shutdown`, and never comes back. -/
theorem returned_step_iff (s : State) (op : Op) : (step s op).stop = Stop.returned ↔
    s.stop = Stop.returned ∨ (op = Op.stopStream ∧ s.stop = Stop.dead) := by
  have hkeep : ∀ s' : State, s'.stop = s.stop → op ≠ Op.stopStream →
      (s'.stop = Stop.returned ↔ s.stop = Stop.returned ∨ (op = Op.stopStream ∧ s.stop = Stop.dead)) := by
    intro s' hs' hop
    rw [hs', or_iff_left fun h => hop h.1]
  cases op with
  | key | mouse | write => exact hkeep _ rfl (by rintro ⟨⟩)
  | handleCommand =>
    refine hkeep s.handleCommand ?_ (by rintro ⟨⟩)
    unfold State.handleCommand
    split <;> rfl
  | readLine =>
    refine hkeep s.readLine ?_ (by rintro ⟨⟩)
    unfold State.readLine
    split <;> rfl
  | enqueue =>
    refine hkeep s.enqueue ?_ (by rintro ⟨⟩)
    unfold State.enqueue
    split
    · exact State.send_stop _ _
    · rfl
  | stopStream =>
    change s.stopStream.stop = _ ↔ _
    unfold State.stopStream
    cases hstop : s.stop with
    | idle | written | dead => simp
    | returned => simp [hstop]
  | drain =>
    refine hkeep s.drain ?_ (by rintro ⟨⟩)
    unfold State.drain
    split <;> rfl
  | deliver =>
    refine hkeep s.deliver ?_ (by rintro ⟨⟩)
    unfold State.deliver
    split <;> rfl

/-- Before the return no step is held to anything, and after it what was required is
read off from what is accepted. -/
theorem along_settled_iff (ops : List Op) : machine.Along Settled ops ↔
    ((machine.run ops).stop = Stop.returned → AllUp (accepted (machine.run ops))) := by
  induction ops using List.reverseRecOn with
  | nil => exact iff_of_true Machine.forall_step_nil fun h => by cases h
  | append_singleton ops op ih =>
    rw [Machine.along_concat, ih, Machine.run_concat]
    have hordered := run_ordered ops
    generalize machine.run ops = s at hordered
    change (_ ∧ Settled s op) ↔ ((step s op).stop = Stop.returned → AllUp (accepted (step s op)))
    rw [returned_step_iff]
    by_cases hstop : s.stop = Stop.returned
    · have hsettled : Settled s op := fun _ hdead => by rw [hstop] at hdead; cases hdead
      rw [accepted_step_of_returned hordered hstop, and_iff_left hsettled]
      exact ⟨fun h _ => h hstop, fun h _ => h (Or.inl hstop)⟩
    · rw [and_iff_right fun h => absurd h hstop, or_iff_right hstop]
      by_cases hlast : op = Op.stopStream ∧ s.stop = Stop.dead
      · obtain ⟨rfl, hdead⟩ := hlast
        change _ ↔ (_ → AllUp (accepted s.stopStream))
        rw [accepted_stopStream]
        exact ⟨fun h _ => h rfl hdead, fun h _ _ => h ⟨rfl, hdead⟩⟩
      · exact iff_of_true (fun hop hdead => absurd ⟨hop, hdead⟩ hlast) fun h => absurd h hlast

/-- The stream is set up, and `A` goes down on the host; the first two lines that the
reader takes are no strokes. -/
def pressing : List Op :=
  [.write (.streaming true), .write (.focused true), .write (.rect 0 0 100 100),
    .handleCommand, .handleCommand, .handleCommand, .mouse .move 0 10 10, .key keyA true,
    .readLine, .readLine, .enqueue, .readLine, .enqueue, .drain, .drain, .deliver, .deliver]

/-- The reader forwards the release before the channel is marked dead. -/
def releasingStop : List Op :=
  pressing ++ [.stopStream, .handleCommand, .readLine, .enqueue, .stopStream, .stopStream, .drain,
    .drain, .deliver]

/-- The channel is marked dead before the reader has taken the release. -/
def hastyStop : List Op :=
  pressing ++ [.stopStream, .stopStream, .handleCommand, .readLine, .stopStream, .drain]

end KmControl.StopRelease
