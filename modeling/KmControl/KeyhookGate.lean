import KmControl.Keyhook

/-!
The gate of the hook process and the place of the pointer. The process looks at the
pointer when it moves, not when the rectangle of the canvas changes. So the gate stays
open over a canvas that has been taken away, until the next event of the mouse.
-/
namespace KmControl.KeyhookGate

open Held Keyhook

section Scene

structure Rect where
  l : Int32
  t : Int32
  r : Int32
  b : Int32
deriving DecidableEq, Repr

/-- The rectangle has an inside. -/
def Rect.isSet (rect : Rect) : Bool := decide (rect.l < rect.r) && decide (rect.t < rect.b)

def Rect.contains (rect : Rect) (pos : Int32 × Int32) : Bool :=
  decide (rect.l ≤ pos.1) && decide (pos.1 < rect.r) && decide (rect.t ≤ pos.2) &&
    decide (pos.2 < rect.b)

/-- What the inputs say, whatever the process makes of them. -/
structure Scene where
  streaming : Bool
  focused : Bool
  rect : Rect
  pointer : Option (Int32 × Int32)
  /-- The pointer was on the canvas when it was last seen. -/
  entered : Bool
deriving DecidableEq, Repr

def Scene.new : Scene where
  streaming := false
  focused := false
  rect := ⟨0, 0, 0, 0⟩
  pointer := none
  entered := false

def Scene.see (sc : Scene) : Event → Scene
  | .key _ _ => sc
  | .mouse _ _ px py =>
    { sc with pointer := some (px, py), entered := sc.rect.contains (px, py) }
  | .command (.streaming on) => { sc with streaming := on }
  | .command (.focused on) => { sc with focused := on }
  | .command (.rect l t r b) => { sc with rect := ⟨l, t, r, b⟩ }
  | .command .other => sc

def scene (evs : List Event) : Scene := evs.foldl Scene.see Scene.new

theorem scene_concat (evs : List Event) (ev : Event) : scene (evs ++ [ev]) = (scene evs).see ev :=
  List.foldl_append

/-- The rectangle is unset, or the pointer is known to be outside it. -/
def Scene.Uncovered (sc : Scene) : Prop :=
  sc.rect.isSet = false ∨ ∃ pos, sc.pointer = some pos ∧ sc.rect.contains pos = false

/-- The stream has the focus, the pointer was on the canvas when it was last seen, and the
canvas has since been taken away. -/
structure Scene.Stranded (sc : Scene) : Prop where
  streaming : sc.streaming = true
  focused : sc.focused = true
  entered : sc.entered = true
  uncovered : sc.Uncovered

theorem contains_of_not_isSet {rect : Rect} (h : rect.isSet = false) (pos : Int32 × Int32) :
    rect.contains pos = false := by
  by_contra hin
  rw [Bool.not_eq_false] at hin
  simp only [Rect.contains, Bool.and_eq_true, decide_eq_true_eq] at hin
  obtain ⟨⟨⟨hl, hr⟩, ht⟩, hb⟩ := hin
  have hset : rect.isSet = true := by
    simp only [Rect.isSet, Bool.and_eq_true, decide_eq_true_eq]
    exact ⟨Int32.lt_of_le_of_lt hl hr, Int32.lt_of_le_of_lt ht hb⟩
  rw [h] at hset
  exact Bool.noConfusion hset

end Scene

section Gate

/-- The part of the state that the gate depends on. -/
structure Gate where
  streaming : Bool
  focused : Bool
  hovering : Bool
  rectSet : Bool
  rect : Rect
deriving DecidableEq, Repr

def gate (s : Sidecar) : Gate :=
  ⟨s.streaming, s.focused, s.hovering, s.rectSet, ⟨s.rectL, s.rectT, s.rectR, s.rectB⟩⟩

/-- The state that the inputs lead to. -/
def Scene.gate (sc : Scene) : Gate :=
  ⟨sc.streaming, sc.focused, sc.entered, sc.rect.isSet, sc.rect⟩

theorem gate_kbdProc (s : Sidecar) (vk : VkCode) (down : Bool) :
    gate (s.kbdProc vk down) = gate s := by
  unfold Sidecar.kbdProc
  split
  · split
    · rfl
    · rfl
  · split
    · rfl
    · rfl

theorem gate_onButton (s : Sidecar) (number : UInt8) (down : Bool) :
    gate (s.onButton number down) = gate s := by
  unfold Sidecar.onButton
  split
  · split
    · rfl
    · rfl
  · split
    · rfl
    · rfl

theorem gate_onMotion (s : Sidecar) (message : MouseMessage) (mouseData : UInt32)
    (mapped : Option (Int32 × Int32 × Int32 × Int32)) :
    gate (s.onMotion message mouseData mapped) = gate s := by
  unfold Sidecar.onMotion
  split
  · rfl
  · split
    · rfl
    · rfl
    · rfl

theorem gate_setHovering (s : Sidecar) (inside : Bool) :
    gate (s.setHovering inside) = { gate s with hovering := inside } := by
  unfold Sidecar.setHovering
  split
  · rename_i h
    rw [h]
    rfl
  · rfl

/-- A look at the pointer sets the flag to whether it is on the canvas. -/
theorem gate_updateHover {s s' : Sidecar} {px py : Int32}
    {mapped : Option (Int32 × Int32 × Int32 × Int32)}
    (hset : s.rectSet = (gate s).rect.isSet) (h : s.updateHover px py = some (s', mapped)) :
    gate s' = { gate s with hovering := (gate s).rect.contains (px, py) } := by
  unfold Sidecar.updateHover at h
  split at h
  · rename_i hunset
    cases h
    rw [Bool.not_eq_true', hset] at hunset
    rw [gate_setHovering, contains_of_not_isSet hunset]
  · have hs' : s' = s.setHovering ((gate s).rect.contains (px, py)) := by
      dsimp only at h
      split at h
      · cases h
        rfl
      · simp only [Option.bind_eq_bind, Option.bind_eq_some_iff, Option.some.injEq,
          Prod.mk.injEq] at h
        obtain ⟨-, -, -, -, hs', -⟩ := h
        exact hs'.symm
    rw [hs', gate_setHovering]

/-- One event, if the process survives it. -/
theorem gate_handle {s : Sidecar} {sc : Scene} (h : gate s = sc.gate) {ev : Event}
    (hrunning : (handle s ev).running = true) : gate (handle s ev) = (sc.see ev).gate := by
  cases ev with
  | key vk down => exact (gate_kbdProc s vk down).trans h
  | mouse message mouseData px py =>
    change (s.mouseProc message mouseData px py).running = true at hrunning
    change gate (s.mouseProc message mouseData px py) = _
    unfold Sidecar.mouseProc at hrunning ⊢
    have hset : s.rectSet = (gate s).rect.isSet := by
      change (gate s).rectSet = _
      rw [h]
      rfl
    cases hhover : s.updateHover px py with
    | none =>
      rw [hhover] at hrunning
      exact Bool.noConfusion hrunning
    | some found =>
      obtain ⟨s', mapped⟩ := found
      have hgate : gate s' = (sc.see (.mouse message mouseData px py)).gate := by
        rw [gate_updateHover hset hhover, h]
        rfl
      dsimp only
      split
      · exact (gate_onButton s' _ _).trans hgate
      · exact (gate_onMotion s' _ _ _).trans hgate
  | command c =>
    obtain ⟨streaming, focused, rect, pointer, entered⟩ := sc
    cases c with
    | streaming on =>
      have hon : gate (handle s (.command (.streaming on))) = { gate s with streaming := on } := by
        cases on with
        | true => rfl
        | false => rfl
      rw [hon, h]
      rfl
    | focused on =>
      have hon : gate (handle s (.command (.focused on))) = { gate s with focused := on } := rfl
      rw [hon, h]
      rfl
    | rect l t r b =>
      have hon : gate (handle s (.command (.rect l t r b))) =
          { gate s with rectSet := (Rect.mk l t r b).isSet, rect := ⟨l, t, r, b⟩ } := rfl
      rw [hon, h]
      rfl
    | other => exact h

/-- While the process runs its gate is what the inputs lead to. -/
theorem gate_run (evs : List Event) (h : (machine.run evs).running = true) :
    gate (machine.run evs) = (scene evs).gate := by
  induction evs using List.reverseRecOn with
  | nil => rfl
  | append_singleton evs ev ih =>
    rw [Machine.run_concat] at h ⊢
    rw [scene_concat]
    change (step (machine.run evs) ev).running = true at h
    change gate (step (machine.run evs) ev) = _
    by_cases hbefore : (machine.run evs).running = true
    · have hstep : step (machine.run evs) ev = handle (machine.run evs) ev := if_pos hbefore
      rw [hstep] at h ⊢
      exact gate_handle (ih hbefore) h
    · have hstep : step (machine.run evs) ev = machine.run evs := if_neg hbefore
      rw [hstep] at h
      exact absurd h hbefore

/-- Without a canvas under the pointer the gate is closed, and no key goes to the remote
side or is kept from the desktop. -/
structure Closed (s : Sidecar) : Prop where
  inactive : s.active = false
  passes : ∀ vk, s.kbdProc vk true = s.passOn vk true

theorem closed_iff (s : Sidecar) : Closed s ↔ s.active = false := by
  refine ⟨Closed.inactive, fun h => ⟨h, fun vk => ?_⟩⟩
  unfold Sidecar.kbdProc
  rw [h]
  rfl

/-- After any inputs the gate is closed where it should be, precisely unless the canvas has
been taken from under the pointer while the stream had the focus. -/
theorem closed_iff_not_stranded (evs : List Event) (h : (machine.run evs).running = true) :
    ((scene evs).Uncovered → Closed (machine.run evs)) ↔ ¬ (scene evs).Stranded := by
  have hgate := gate_run evs h
  have hactive : (machine.run evs).active =
      ((scene evs).streaming && (scene evs).focused && (scene evs).entered) := by
    have hstreaming := congrArg Gate.streaming hgate
    have hfocused := congrArg Gate.focused hgate
    have hhovering := congrArg Gate.hovering hgate
    unfold Sidecar.active
    exact congrArg₂ and (congrArg₂ and hstreaming hfocused) hhovering
  rw [closed_iff, hactive]
  constructor
  · intro hclosed hstranded
    have hfalse := hclosed hstranded.uncovered
    rw [hstranded.streaming, hstranded.focused, hstranded.entered] at hfalse
    exact Bool.noConfusion hfalse
  · intro hnot huncovered
    by_contra hopen
    rw [Bool.not_eq_false, Bool.and_eq_true, Bool.and_eq_true] at hopen
    exact hnot ⟨hopen.1.1, hopen.1.2, hopen.2, huncovered⟩

/-- The canvas is moved away from the pointer, and then the pointer moves. -/
def movedAway : List Event :=
  [.command (.streaming true), .command (.focused true), .command (.rect 0 0 100 100),
    .mouse .move 0 5 5, .command (.rect 200 200 300 300), .mouse .move 0 6 5]

theorem closed_after_move : Closed (machine.run movedAway) := by
  have hnot : ¬ (scene movedAway).Stranded := fun h => Bool.noConfusion h.entered
  exact (closed_iff_not_stranded movedAway (by decide)).mpr hnot
    (Or.inr ⟨(6, 5), by decide, by decide⟩)

/-- The canvas is cleared under the pointer. -/
def cleared : List Event :=
  [.command (.streaming true), .command (.focused true), .command (.rect 0 0 100 100),
    .mouse .move 0 5 5, .command (.rect 0 0 0 0)]

/-- The next key is sent to the remote side and kept from the desktop. -/
theorem key_captured_without_canvas : (scene cleared).Uncovered ∧
    ¬ Closed (machine.run cleared) ∧
      (machine.run (cleared ++ [.key ⟨65, by decide⟩ true])).out =
        (machine.run cleared).out ++ [Line.key 65 true] ∧
          (machine.run (cleared ++ [.key ⟨65, by decide⟩ true])).desktop = [] := by
  have hopen : (machine.run cleared).active = true := by decide
  refine ⟨Or.inl (by decide), fun h => ?_, by decide, rfl⟩
  rw [h.inactive] at hopen
  exact Bool.noConfusion hopen

end Gate

end KmControl.KeyhookGate
