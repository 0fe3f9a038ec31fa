import KmControl.ControlLink
import KmControl.KeyOwnership

/-!
What the desktop of the host gets is, in order, what the hooks of the admin have caught, and
nothing twice. Something is missing only where a line found no live channel or ENet did not
take a message; elsewhere the desktop holds down in the end what the hook process has marked
as its own.
-/
namespace KmControl.InputOrder

open ByteFields ControlWire HostControl MoonControl ControlRoundTrip ControlTraffic ControlLink Held
open KeyOwnership (keyA)
open KeyhookSteps (Control Known owned strokeOf strokes)
open Keyhook (Line Sidecar)
open ControlChannel (Channel)

variable (gcm : AesGcm) (key : Key)

section Results

/-- What has happened at the host is what the admin's side has asked for. -/
structure InOrder (s : Link) : Prop where
  /-- The stream is started first; then come the requests, without repetition. -/
  started : s.ordered = [] ∨ ∃ rest, s.ordered = Effect.trigger :: rest ∧
    rest.Sublist (s.asked.flatMap Request.effects)
  /-- The desktop gets what the lines of the hook process say, in their order. -/
  performed : (s.ordered.flatMap performs).Sublist (s.hook.out.flatMap wanted)
  reported : ∀ e ∈ s.loose, ∃ st, Request.fecStatus st ∈ s.asked ∧
    e ∈ (Request.fecStatus st).report

variable {gcm key} {s : Link} {taken waiting : List Request}

/-- What is carried in order, after the start. -/
theorem ordered_cases (hcarried : Carried gcm key s.channel taken waiting)
    (hdelivered : Delivered gcm key s) : s.ordered = [] ∨
      ∃ rest, s.ordered = Effect.trigger :: rest ∧ rest <+: taken.flatMap Request.effects := by
  have hinitial := hdelivered.ordered_initial
  cases hcarried with
  | unopened _ hsent _ =>
    rw [hsent] at hinitial
    exact .inl (List.prefix_nil.mp hinitial)
  | opened _ horderly _ _ =>
    rw [horderly] at hinitial
    rcases List.prefix_cons_iff.mp hinitial with hnone | ⟨rest, hrest, hpre⟩
    · exact .inl hnone
    · exact .inr ⟨rest, hrest, hpre⟩

theorem inOrder_of_carried (hcarried : Carried gcm key s.channel taken waiting)
    (hkept : (taken ++ waiting).Sublist s.asked) (hdelivered : Delivered gcm key s)
    (hheard : (s.asked.flatMap actions).Sublist (s.lines.flatMap wanted)) : InOrder s := by
  have htaken : taken.Sublist s.asked := (List.sublist_append_left taken waiting).trans hkept
  have hcases := ordered_cases hcarried hdelivered
  refine ⟨?_, ?_, ?_⟩
  · rcases hcases with hnone | ⟨rest, hrest, hpre⟩
    · exact .inl hnone
    · exact .inr ⟨rest, hrest, hpre.sublist.trans (htaken.flatMap _)⟩
  · have hactions : (s.ordered.flatMap performs).Sublist (s.asked.flatMap actions) := by
      rcases hcases with hnone | ⟨rest, hrest, hpre⟩
      · rw [hnone]
        exact List.nil_sublist _
      · have hasked : s.asked.flatMap actions =
            (s.asked.flatMap Request.effects).flatMap performs := List.flatMap_assoc.symm
        rw [hrest, hasked]
        exact (hpre.sublist.trans (htaken.flatMap _)).flatMap performs
    have hlines := List.Sublist.flatMap (List.take_sublist s.read s.hook.out) wanted
    exact (hactions.trans hheard).trans hlines
  · intro e he
    obtain ⟨packet, hpacket, heffect⟩ := hdelivered.loose e he
    cases hcarried with
    | unopened _ hsent _ =>
      rw [hsent] at hpacket
      exact absurd hpacket List.not_mem_nil
    | opened _ _ hreports _ =>
      obtain ⟨st, hst, hreport⟩ := hreports packet hpacket
      exact ⟨st, htaken.subset hst, hreport ▸ heffect⟩

variable (gcm key)

/-- What has happened at the host, what is on its way there and what waits in the queue are
together the start of the stream and all that was asked for, and in inputs all that the
lines say. -/
structure Complete (s : Link) (waiting : List Request) : Prop where
  queue : messages s.channel.queue = waiting.map Request.msg
  requests : s.ordered ++ (s.inTransit.flatMap (atHost gcm key) ++
    waiting.flatMap Request.effects) = Effect.trigger :: s.asked.flatMap Request.effects
  inputs : (s.ordered ++ (s.inTransit.flatMap (atHost gcm key) ++
    waiting.flatMap Request.effects)).flatMap performs = s.lines.flatMap wanted

variable {gcm key} in
theorem complete_of_carried (hcarried : Carried gcm key s.channel taken waiting)
    (hkept : taken ++ waiting = s.asked) (hdelivered : Delivered gcm key s)
    (hheard : s.asked.flatMap actions = s.lines.flatMap wanted) (hopen : s.channel.sent ≠ []) :
    Complete gcm key s waiting := by
  cases hcarried with
  | unopened _ hsent _ => exact absurd hsent hopen
  | opened _ horderly _ hqueue =>
    have hsplit : s.ordered ++ s.inTransit.flatMap (atHost gcm key) =
        orderly gcm key s.channel.sent := by
      unfold Link.inTransit orderly
      rw [hdelivered.ordered, ← List.flatMap_append, List.take_append_drop]
    have hrequests : s.ordered ++ (s.inTransit.flatMap (atHost gcm key) ++
        waiting.flatMap Request.effects) = Effect.trigger :: s.asked.flatMap Request.effects := by
      rw [← List.append_assoc, hsplit, horderly, ← hkept, List.flatMap_append]
      rfl
    refine ⟨hqueue, hrequests, ?_⟩
    rw [hrequests, ← hheard]
    exact List.flatMap_assoc

/-- The channel is opened, and `A` goes down over the canvas; the host has the start of the
stream, and the key is on its way to it. -/
def typing : List Op :=
  [.task 0 (.connected true) .connected, .task 0 (.connected true) .nothing,
    .set (.streaming true), .set (.focused true), .set (.canvasRect 0 0 100 100), .handleCommand,
    .handleCommand, .handleCommand, .mouse .move 0 10 10, .key keyA true, .readLine,
    .readLine, .readLine, .task 0 (.connected true) .nothing, .task 0 (.connected true) .nothing,
    .deliver]

end Results

section Desktop

/-- What an input with this flag does to a button. -/
def pressed (data : Int32) : MouseFlag → Option (Stroke Control)
  | .leftDown => some ⟨Control.button 1, true⟩
  | .leftUp => some ⟨Control.button 1, false⟩
  | .middleDown => some ⟨Control.button 2, true⟩
  | .middleUp => some ⟨Control.button 2, false⟩
  | .rightDown => some ⟨Control.button 3, true⟩
  | .rightUp => some ⟨Control.button 3, false⟩
  | .xDown => some ⟨Control.button (if data = 1 then 4 else 5), true⟩
  | .xUp => some ⟨Control.button (if data = 1 then 4 else 5), false⟩
  | .move | .absolute | .wheel | .hWheel => none

/-- What an input presses or lifts on the desktop. -/
def strokeOfInput : Input → Option (Stroke Control)
  | .keyboard vk _ keyUp => some ⟨Control.key vk.toUInt32, !keyUp⟩
  | .mouse flags _ _ mouseData => flags.head?.bind (pressed mouseData)

/-- The strokes that the desktop has got. -/
def desktop (s : Link) : List (Stroke Control) :=
  (s.ordered.flatMap performs).filterMap strokeOfInput

/-- A line presses on the desktop what it names. -/
theorem strokes_wanted {line : Line} (hcoded : Coded line) :
    (wanted line).filterMap strokeOfInput = (strokeOf line).toList := by
  cases line with
  | key code down =>
    have hcode : code.toUInt16.toUInt32 = code := by
      have hbound : code.toNat ≤ 255 := hcoded
      refine UInt32.toNat_inj.mp ?_
      rw [UInt16.toNat_toUInt32, UInt32.toNat_toUInt16]
      omega
    change [Stroke.mk (Control.key code.toUInt16.toUInt32) (!!down)] = _
    rw [hcode, Bool.not_not]
    rfl
  | mouseMove x y w h =>
    change (mouseMoveAbs _ _ _ _).filterMap strokeOfInput = []
    unfold mouseMoveAbs
    split <;> rfl
  | button number down =>
    have hnumber : number ∈ [1, 2, 3, 4, 5] := hcoded
    simp only [List.mem_cons, List.not_mem_nil, or_false] at hnumber
    rcases hnumber with rfl | rfl | rfl | rfl | rfl <;> cases down <;> rfl
  | scroll | hover => rfl

theorem strokes_flatMap_wanted {lines : List Line} (h : ∀ line ∈ lines, Coded line) :
    (lines.flatMap wanted).filterMap strokeOfInput = strokes lines := by
  induction lines with
  | nil => rfl
  | cons line lines ih =>
    have hrest := ih fun other hother => h other (List.mem_cons_of_mem _ hother)
    have hline := strokes_wanted (h line List.mem_cons_self)
    rw [List.flatMap_cons, List.filterMap_append, hline, hrest]
    unfold strokes
    cases hstroke : strokeOf line with
    | none => rw [List.filterMap_cons_none hstroke]; rfl
    | some stroke => rw [List.filterMap_cons_some hstroke]; rfl

/-- Every line has been read, every message handed over and every packet delivered. -/
structure Settled (s : Link) : Prop where
  read : s.read = s.hook.out.length
  queue : messages s.channel.queue = []
  transit : s.inTransit = []

/-- With nothing under way the desktop has got the strokes of all lines. -/
theorem desktop_of_complete {gcm : AesGcm} {key : Key} {s : Link} {waiting : List Request}
    (hcomplete : Complete gcm key s waiting) (hsettled : Settled s) (hcoded : AllCoded s.hook) :
    desktop s = strokes s.hook.out := by
  have hwaiting : waiting = [] := by
    have hqueue := hcomplete.queue
    rw [hsettled.queue] at hqueue
    exact List.map_eq_nil_iff.mp hqueue.symm
  have hinputs := hcomplete.inputs
  rw [hwaiting, hsettled.transit, List.flatMap_nil, List.flatMap_nil, List.append_nil,
    List.append_nil, Link.lines, hsettled.read, List.take_length] at hinputs
  unfold desktop
  rw [hinputs]
  exact strokes_flatMap_wanted hcoded

/-- What the desktop of the host holds down, the hook process has marked as its own. -/
def DesktopMarked (s : Link) : Prop :=
  ∀ c, held (desktop s) c = true → Known c ∧ owned s.hook c = true

/-- In a smooth run, once nothing is under way, no key and no button is down at the host that
the hook process does not know of. -/
theorem desktop_marked (ops : List Op) (h : (machine gcm key).Along Smooth ops)
    (hsettled : Settled ((machine gcm key).run ops)) :
    DesktopMarked ((machine gcm key).run ops) := by
  have hdelivered := delivered_run gcm key ops
  obtain ⟨evs, hhook, -⟩ := follows_run gcm key ops
  have hcoded := (heard_run gcm key ops).1.coded
  have hheard := heard_all gcm key ops h
  obtain ⟨taken, waiting, hcarried, hkept⟩ :=
    exists_carried_all gcm key ops fun pre op hpre => (h pre op hpre).takes
  generalize (machine gcm key).run ops = s at *
  intro c hheld
  by_cases hsent : s.channel.sent = []
  · have hnone : s.ordered = [] := by
      have hinitial := hdelivered.ordered_initial
      rw [hsent] at hinitial
      exact List.prefix_nil.mp hinitial
    unfold desktop at hheld
    rw [hnone] at hheld
    cases hheld
  · have hcomplete := complete_of_carried hcarried hkept hdelivered hheard hsent
    rw [desktop_of_complete hcomplete hsettled hcoded, hhook] at hheld
    rw [hhook]
    exact KeyhookSteps.run_marked evs c hheld

/-- `A` has come up again, and the host has got both strokes. -/
def typed : List Op :=
  typing ++ [.key keyA false, .readLine, .task 0 (.connected true) .nothing,
    .task 0 (.connected true) .nothing, .task 0 (.connected true) .nothing,
    .task 0 (.connected true) .nothing, .task 0 (.connected true) .nothing, .deliver, .deliver,
    .deliver]

theorem desktop_marked_typed : DesktopMarked ((machine aes128Gcm zeroKey).run typed) :=
  desktop_marked aes128Gcm zeroKey typed (Machine.along_of_alongFrom (by decide)) ⟨rfl, rfl, rfl⟩

end Desktop

end KmControl.InputOrder
