import KmControl.StopRelease

/-!
How the releases get into the queue in time: if `stop_stream` marks the channel dead
only after the hook process has handled `s0` and the reader has passed on what came
of it, nothing stays down on the host.
-/
namespace KmControl.StopForwarding

open ControlRoundTrip Held HostControl KeyhookSteps MoonControl StopStream StopRelease
open Keyhook hiding step machine

/-- The channel is marked dead only after the hook process has released everything and
the reader has passed on all strokes. -/
def Forwarded (s : State) (op : Op) : Prop :=
  op = Op.stopStream → s.stop = Stop.written →
    (∀ c, Known c → owned s.hook c = false) ∧ strokes (s.hook.out.drop s.read) = [] ∧
      s.pending.bind (strokeOfAction ∘ meant) = none

/-- The name of a control in the messages to the host. -/
def rename : Control → Control
  | .key code => Control.key code.toUInt16.toUInt32
  | .button number => Control.button number

/-- A line and the event made of it are the same stroke. -/
theorem strokeOf_handleLine (line : Line) :
    (handleLine line).bind (strokeOfAction ∘ meant) =
      (strokeOf line).map fun s => ⟨rename s.control, s.down⟩ := by
  cases line with
  | key code down =>
    change some (Stroke.mk (Control.key code.toUInt16.toInt16.toUInt16.toUInt32) down) = _
    rw [UInt16.toUInt16_toInt16]
    rfl
  | mouseMove | button | scroll | hover => rfl

/-- The strokes accepted so far, and the one that the reader is about to add. -/
def forwarded (s : State) : List (Stroke Control) :=
  (accepted s).filterMap strokeOfAction ++ (s.pending.bind (strokeOfAction ∘ meant)).toList

/-- While the channel is alive the reader passes on every stroke; when it is marked dead
nothing is down. -/
structure Faithful (s : State) : Prop where
  marked : Marked s.hook
  read_le : s.read ≤ s.hook.out.length
  alive : s.stop = Stop.idle ∨ s.stop = Stop.written → s.alive = true ∧ forwarded s =
    (strokes (s.hook.out.take s.read)).map fun s => ⟨rename s.control, s.down⟩
  dead : s.stop = Stop.dead → s.alive = false ∧ AllUp (accepted s) ∧
    s.pending.bind (strokeOfAction ∘ meant) = none

/-- Nothing is down when all that was put out has been passed on and no control is marked. -/
theorem allUp_accepted {s : State} (h : Faithful s) (hstop : s.stop = Stop.written)
    (hforwarded : Forwarded s Op.stopStream) : AllUp (accepted s) := by
  obtain ⟨howned, hread, hpending⟩ := hforwarded rfl hstop
  obtain ⟨-, hall⟩ := h.alive (Or.inr hstop)
  have hout : strokes (s.hook.out.take s.read) = strokes s.hook.out := by
    conv_rhs => rw [← List.take_append_drop s.read s.hook.out, strokes_append, hread]
    exact (List.append_nil _).symm
  unfold forwarded at hall
  rw [hpending, hout] at hall
  intro c
  by_contra hheld
  rw [Bool.not_eq_false, ← List.append_nil (List.filterMap _ _)] at hheld
  rw [show ([] : List (Stroke Control)) = (none : Option (Stroke Control)).toList from rfl,
    hall] at hheld
  obtain ⟨c', -, hc'⟩ := exists_held_of_map rename hheld
  obtain ⟨hknown, hmarked⟩ := h.marked c' hc'
  rw [howned c' hknown] at hmarked
  cases hmarked

/-- What the hook process has put out stays there. -/
theorem out_prefix_step (hook : Sidecar) (ev : Event) :
    hook.out <+: (Keyhook.step hook ev).out := by
  cases effect_step hook ev with
  | quiet lines hout | press _ lines _ _ hout | lift _ lines hout | release lines hout =>
    exact ⟨lines, hout.symm⟩

/-- A step of the hook process alone. -/
theorem Faithful.hook {s : State} (h : Faithful s) (ev : Event) (stdin : List Command) :
    Faithful { s with hook := Keyhook.step s.hook ev, stdin := stdin } := by
  have hprefix := out_prefix_step s.hook ev
  refine ⟨h.marked.step (effect_step s.hook ev), h.read_le.trans hprefix.length_le, ?_, h.dead⟩
  intro hstop
  obtain ⟨halive, hall⟩ := h.alive hstop
  refine ⟨halive, hall.trans ?_⟩
  obtain ⟨lines, hout⟩ := hprefix
  change _ = (strokes ((Keyhook.step s.hook ev).out.take s.read)).map _
  rw [← hout, List.take_append_of_le_length h.read_le]

theorem Faithful.readLine {s : State} (h : Faithful s) : Faithful s.readLine := by
  unfold State.readLine
  split
  · rename_i line hpending hline
    have hlt : s.read < s.hook.out.length := (List.getElem?_eq_some_iff.mp hline).1
    refine ⟨h.marked, hlt, fun hstop => ?_, fun hstop => ?_⟩
    · obtain ⟨halive, hall⟩ := h.alive hstop
      refine ⟨halive, ?_⟩
      have htake : s.hook.out.take (s.read + 1) = s.hook.out.take s.read ++ [line] := by
        rw [List.take_add_one, hline]
        rfl
      unfold forwarded at hall ⊢
      rw [hpending, Option.bind_none, Option.toList_none, List.append_nil] at hall
      rw [htake, strokes_append, List.map_append, ← hall, if_pos halive, strokeOf_handleLine]
      refine congrArg (_ ++ ·) ?_
      unfold strokes
      cases hstroke : strokeOf line with
      | none => rw [List.filterMap_cons_none hstroke]; rfl
      | some stroke => rw [List.filterMap_cons_some hstroke]; rfl
    · obtain ⟨halive, hup, -⟩ := h.dead hstop
      refine ⟨halive, (accepted_readLine s) ▸ hup, ?_⟩
      change (if s.alive = true then handleLine line else none).bind _ = none
      rw [halive]
      rfl
  · exact h

/-- The pending event goes into the queue, which takes it, as the task is running. -/
theorem accepted_enqueue {s : State} (hordered : Ordered s) (hstop : s.stop ≠ Stop.returned)
    {ev : InputEvent} (hpending : s.pending = some ev) :
    accepted s.enqueue = accepted s ++ [meant ev] := by
  obtain ⟨hrunning, hopen⟩ := hordered.before hstop
  have hconcat : ∀ queue : List Cmd, Cmd.shutdown ∉ queue →
      beforeShutdown (queue ++ [.msg ev]) = beforeShutdown queue ++ [ev] := by
    intro queue hqueue
    induction queue with
    | nil => rfl
    | cons cmd queue ih =>
      cases cmd with
      | msg first => exact congrArg (first :: ·) (ih fun h => hqueue (List.mem_cons_of_mem _ h))
      | shutdown => exact absurd List.mem_cons_self hqueue
  unfold State.enqueue State.send
  rw [hpending]
  simp only [if_pos hrunning, accepted, hconcat _ hopen, List.map_append, List.append_assoc,
    List.map_cons, List.map_nil]

theorem Faithful.enqueue {s : State} (h : Faithful s) (hordered : Ordered s) :
    Faithful s.enqueue := by
  cases hpending : s.pending with
  | none =>
    unfold State.enqueue
    rw [hpending]
    exact h
  | some ev =>
    have hhook : s.enqueue.hook = s.hook ∧ s.enqueue.read = s.read ∧ s.enqueue.alive = s.alive ∧
        s.enqueue.stop = s.stop ∧ s.enqueue.pending = none := by
      unfold State.enqueue State.send
      rw [hpending]
      dsimp only
      split <;> exact ⟨rfl, rfl, rfl, rfl, rfl⟩
    obtain ⟨hhook, hread, halive, hstop, hnone⟩ := hhook
    have hstrokes : s.stop ≠ Stop.returned → (accepted s.enqueue).filterMap strokeOfAction =
        forwarded s := by
      intro hne
      rw [accepted_enqueue hordered hne hpending, List.filterMap_append]
      unfold forwarded
      rw [hpending]
      refine congrArg (_ ++ ·) ?_
      cases hstroke : strokeOfAction (meant ev) with
      | none => rw [List.filterMap_cons_none hstroke, Option.bind_some]; simp [hstroke]
      | some stroke => rw [List.filterMap_cons_some hstroke, Option.bind_some]; simp [hstroke]
    refine ⟨hhook ▸ h.marked, by rw [hread, hhook]; exact h.read_le, fun hopen => ?_, fun hdead => ?_⟩
    · rw [hstop] at hopen
      obtain ⟨hlive, hall⟩ := h.alive hopen
      have hne : s.stop ≠ Stop.returned := by
        rcases hopen with hopen | hopen <;> rw [hopen] <;> rintro ⟨⟩
      rw [halive, hread, hhook, ← hall]
      refine ⟨hlive, ?_⟩
      unfold forwarded
      rw [hstrokes hne, hnone]
      exact List.append_nil _
    · rw [hstop] at hdead
      obtain ⟨hdown, hup, hstroke⟩ := h.dead hdead
      have hne : s.stop ≠ Stop.returned := by
        rw [hdead]
        rintro ⟨⟩
      refine ⟨halive.trans hdown, ?_, by rw [hnone]; rfl⟩
      unfold AllUp
      rw [hstrokes hne]
      unfold forwarded
      rw [hstroke, Option.toList_none, List.append_nil]
      exact hup

/-- A step that concerns neither the hook process nor the reader. -/
theorem Faithful.of_eq {s s' : State} (h : Faithful s) (hhook : s'.hook = s.hook)
    (hread : s'.read = s.read) (hpending : s'.pending = s.pending) (halive : s'.alive = s.alive)
    (haccepted : accepted s' = accepted s) (hstop : s'.stop = s.stop) : Faithful s' := by
  refine ⟨hhook ▸ h.marked, by rw [hread, hhook]; exact h.read_le, ?_, ?_⟩
  · unfold forwarded
    rw [hstop, halive, hread, hhook, hpending, haccepted]
    exact h.alive
  · rw [hstop, halive, haccepted, hpending]
    exact h.dead

/-- After the return only the hook process and the reader's place in its lines count. -/
theorem Faithful.of_returned {s s' : State} (h : Faithful s) (hhook : s'.hook = s.hook)
    (hread : s'.read = s.read) (hstop : s'.stop = Stop.returned) : Faithful s' := by
  refine ⟨hhook ▸ h.marked, by rw [hread, hhook]; exact h.read_le, ?_, ?_⟩
  · rw [hstop]
    rintro (h | h) <;> cases h
  · rw [hstop]
    rintro ⟨⟩

theorem Faithful.stopStream {s : State} (h : Faithful s)
    (hforwarded : Forwarded s Op.stopStream) : Faithful s.stopStream := by
  have hlast := allUp_accepted h
  unfold State.stopStream
  cases hstop : s.stop with
  | idle =>
    refine ⟨h.marked, h.read_le, fun _ => h.alive (Or.inl hstop), ?_⟩
    rintro ⟨⟩
  | written =>
    refine ⟨h.marked, h.read_le, ?_, fun _ => ⟨rfl, hlast hstop hforwarded, ?_⟩⟩
    · rintro (h | h) <;> cases h
    · exact (hforwarded rfl hstop).2.2
  | dead =>
    refine h.of_returned ?_ ?_ (State.send_stop _ _)
    all_goals
      unfold State.send
      dsimp only
      split <;> rfl
  | returned => exact h

theorem Faithful.drain {s : State} (h : Faithful s) (hordered : Ordered s) : Faithful s.drain := by
  by_cases hstop : s.stop = Stop.returned
  · refine h.of_returned ?_ ?_ ?_
    all_goals
      unfold State.drain
      split <;> first | rfl | exact hstop
  · have hopen := (hordered.before hstop).2
    have haccepted := accepted_drain s
    unfold State.drain at haccepted ⊢
    cases hqueue : s.queue with
    | nil => exact h
    | cons cmd rest =>
      rw [hqueue] at hopen haccepted
      cases cmd with
      | msg ev => exact h.of_eq rfl rfl rfl rfl haccepted rfl
      | shutdown => exact absurd List.mem_cons_self hopen

theorem Faithful.step {s : State} (h : Faithful s) (hordered : Ordered s) (op : Op)
    (hforwarded : Forwarded s op) : Faithful (step s op) := by
  cases op with
  | key vk down => exact h.hook (.key vk down) s.stdin
  | mouse message mouseData px py => exact h.hook (.mouse message mouseData px py) s.stdin
  | write c => exact h.of_eq rfl rfl rfl rfl rfl rfl
  | handleCommand =>
    change Faithful s.handleCommand
    unfold State.handleCommand
    split
    · exact h
    · exact h.hook _ _
  | readLine => exact h.readLine
  | enqueue => exact h.enqueue hordered
  | stopStream => exact h.stopStream hforwarded
  | drain => exact h.drain hordered
  | deliver =>
    have haccepted := accepted_deliver s
    change Faithful s.deliver
    unfold State.deliver at haccepted ⊢
    split at haccepted
    · exact h
    · exact h.of_eq rfl rfl rfl rfl haccepted rfl

theorem run_faithful (ops : List Op) (h : machine.Along Forwarded ops) :
    Faithful (machine.run ops) := by
  have hboth : Ordered (machine.run ops) ∧ Faithful (machine.run ops) := by
    refine machine.run_invariant_along (I := fun s => Ordered s ∧ Faithful s) ?_ ?_ ops h
    · refine ⟨run_ordered [], fun _ h => (by cases h), Nat.zero_le _, fun _ => ⟨rfl, rfl⟩, ?_⟩
      rintro ⟨⟩
    · rintro s op ⟨hordered, hfaithful⟩ hforwarded
      exact ⟨hordered.step op, hfaithful.step hordered op hforwarded⟩
  exact hboth.2

/-- A stop that waits until the releases have been forwarded is settled in time. -/
theorem settled_of_forwarded (ops : List Op) (h : machine.Along Forwarded ops) :
    machine.Along Settled ops := by
  rintro pre op hpre hop hdead
  exact ((run_faithful pre (h.of_prefix ((List.prefix_append _ _).trans hpre))).dead hdead).2.1

end KmControl.StopForwarding
