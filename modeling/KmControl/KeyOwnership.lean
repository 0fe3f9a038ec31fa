import KmControl.KeyhookSteps

/-!
Keys that stay down. Which side gets the up of a key is one bit, set by the last
down that went to the remote side; but auto-repeat downs are judged by the gate
anew, so both sides may have got a down when the one up comes.
-/
namespace KmControl.KeyOwnership

open Held Keyhook KeyhookSteps

/-- Neither the local desktop nor the remote side holds the key. -/
def Released (s : Sidecar) (vk : VkCode) : Prop :=
  held s.desktop vk.val = false ∧ held (strokes s.out) (Control.key vk.val) = false

/-- The downs of the key have gone to both sides: it is marked as remote while the
desktop holds it. -/
def Crossed (s : Sidecar) (vk : VkCode) : Prop :=
  s.keyRemote vk.slot = true ∧ held s.desktop vk.val = true

instance (s : Sidecar) (vk : VkCode) : Decidable (Released s vk) :=
  inferInstanceAs (Decidable (_ ∧ _))

theorem kbdProc_up_remote {s : Sidecar} {vk : VkCode} (h : s.keyRemote vk.slot = true) :
    s.kbdProc vk false = (s.setKeyRemote vk.slot false).emit (Line.key vk.val false) := by
  unfold Sidecar.kbdProc
  rw [if_neg Bool.false_ne_true, if_pos h]

theorem kbdProc_up_local {s : Sidecar} {vk : VkCode} (h : s.keyRemote vk.slot = false) :
    s.kbdProc vk false = s.passOn vk false := by
  unfold Sidecar.kbdProc
  rw [if_neg Bool.false_ne_true, if_neg (by rw [h]; exact Bool.false_ne_true)]

/-- When the up of a key has been handled, both sides are free of it, exactly if its
downs had not gone to both. -/
theorem released_iff_not_crossed (evs : List Event) (vk : VkCode)
    (hrunning : (machine.run evs).running = true) :
    Released (machine.run (evs ++ [Event.key vk false])) vk ↔
      ¬ Crossed (machine.run evs) vk := by
  have hmarked := run_marked evs
  have hup : machine.run (evs ++ [Event.key vk false]) =
      (machine.run evs).kbdProc vk false := by
    rw [Machine.run_concat]
    exact if_pos hrunning
  rw [hup]
  generalize machine.run evs = s at hmarked
  unfold Released Crossed
  cases howner : s.keyRemote vk.slot with
  | true =>
    rw [kbdProc_up_remote howner]
    have hout : strokes ((s.setKeyRemote vk.slot false).emit (Line.key vk.val false)).out =
        strokes s.out ++ [⟨Control.key vk.val, false⟩] := strokes_append _ _
    rw [hout, held_concat_self]
    change held s.desktop vk.val = false ∧ false = false ↔
      ¬ (true = true ∧ held s.desktop vk.val = true)
    rw [and_iff_left rfl, and_iff_right rfl, Bool.not_eq_true]
  | false =>
    rw [kbdProc_up_local howner]
    have hfree : held (strokes s.out) (Control.key vk.val) = false := by
      by_contra hheld
      rw [Bool.not_eq_false] at hheld
      have hremote := (hmarked _ hheld).2
      change s.keyRemote vk.slot = true at hremote
      rw [howner] at hremote
      cases hremote
    refine iff_of_true ⟨held_concat_self _ _ _, hfree⟩ ?_
    rintro ⟨hremote, -⟩
    cases hremote

def keyA : VkCode := ⟨65, by decide⟩

/-- The gate opens: a stream, the focus, a canvas and the pointer on it. -/
def opening : List Event :=
  [.command (.streaming true), .command (.focused true), .command (.rect 0 0 100 100),
    .mouse .move 0 10 10]

theorem released_after_gate_closes :
    Released (machine.run (opening ++ [.key keyA true, .command (.focused false)] ++
      [.key keyA false])) keyA :=
  (released_iff_not_crossed _ keyA (by decide)).mpr (by unfold Crossed; decide)

/-- A repeated down crosses the gate, in either direction. -/
theorem not_released_after_crossing :
    ((machine.run ([.key keyA true] ++ opening ++ [.key keyA true])).running = true ∧
      ¬ Released (machine.run ([.key keyA true] ++ opening ++ [.key keyA true] ++
        [.key keyA false])) keyA) ∧
    (machine.run (opening ++ [.key keyA true, .command (.focused false), .key keyA true])).running =
        true ∧
      ¬ Released (machine.run (opening ++ [.key keyA true, .command (.focused false),
        .key keyA true] ++ [.key keyA false])) keyA := by
  decide

end KmControl.KeyOwnership
