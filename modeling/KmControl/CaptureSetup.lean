import KmControl.Machine
import Mathlib.Data.Int.Notation

/-!
The capture thread and the encode thread of a pipeline agree on a path. The first
frame offers a shared texture to the encode thread and waits for its answer; both
waits can expire, and a message to a thread that no longer waits is lost. How long
anything takes is left open.
-/
namespace KmControl.CaptureSetup

/-- Where the capture callback is. -/
inductive Capture where
  /-- The first frame has not arrived. -/
  | noFrame
  | waitMode
  /-- The memory path is chosen and its converter being built. -/
  | choosing
  | zeroCopy
  | ramSlot
  /-- The callback has ended with an error. -/
  | failed
  /-- The capture was stopped before its first frame. -/
  | closed
deriving DecidableEq, Repr

inductive Encode where
  | waitSetup
  /-- The device, the converter and the encoder are being set up. -/
  | building
  | zerocopyLoop
  | encodeLoop
  | exited
deriving DecidableEq, Repr

/-- The two threads and the two channels between them. The setup message is the handle
of the texture, zero if there is none. -/
structure Handshake where
  capture : Capture
  encode : Encode
  setup : Option ℤ
  mode : Option Bool
deriving DecidableEq, Repr

/-- The callback holds the sender of the setup until its initialisation is over. -/
def Capture.holdsSender : Capture → Bool
  | .noFrame | .waitMode => true
  | .choosing | .zeroCopy | .ramSlot | .failed | .closed => false

inductive Event where
  /-- The first frame; `texture` is the handle if it was created. -/
  | firstFrame (texture : Option ℤ)
  | captureCloses
  /-- The callback looks at the mode channel; its wait may have expired. -/
  | modeWakes (expired : Bool)
  | converter (ok : Bool)
  /-- The encode thread looks at the setup channel; its wait may have expired. -/
  | setupWakes (expired : Bool)
  /-- The encode side is set up, or has failed to be. -/
  | built (ok : Bool)
deriving DecidableEq, Repr

namespace Handshake

/-- A message to a thread that has ended is dropped. -/
def sendSetup (s : Handshake) (handle : ℤ) : Handshake :=
  if s.encode = .exited then s else { s with setup := some handle }

def firstFrame (s : Handshake) (texture : Option ℤ) : Handshake :=
  match s.capture with
  | .noFrame =>
    match texture with
    | some handle => { s.sendSetup handle with capture := .waitMode }
    | none => { s.sendSetup 0 with capture := .choosing }
  | _ => s

/-- A message that is there is taken even if the time is over. -/
def modeWakes (s : Handshake) (expired : Bool) : Handshake :=
  match s.capture with
  | .waitMode =>
    match s.mode with
    | some true => { s with capture := .zeroCopy, mode := none }
    | some false => { s with capture := .choosing, mode := none }
    | none => if s.encode = .exited || expired then { s with capture := .choosing } else s
  | _ => s

def converter (s : Handshake) (ok : Bool) : Handshake :=
  match s.capture with
  | .choosing => { s with capture := if ok then .ramSlot else .failed }
  | _ => s

def setupWakes (s : Handshake) (expired : Bool) : Handshake :=
  match s.encode with
  | .waitSetup =>
    match s.setup with
    | some handle =>
      { s with encode := if handle = 0 then .encodeLoop else .building, setup := none }
    | none => if !s.capture.holdsSender || expired then { s with encode := .exited } else s
  | _ => s

/-- The answer goes out before the loop begins; nobody may be waiting for it. -/
def built (s : Handshake) (ok : Bool) : Handshake :=
  match s.encode with
  | .building =>
    { s with
      encode := if ok then .zerocopyLoop else .encodeLoop
      mode := if s.capture = .waitMode then some ok else s.mode }
  | _ => s

def step (s : Handshake) : Event → Handshake
  | .firstFrame texture => s.firstFrame texture
  | .captureCloses => if s.capture = .noFrame then { s with capture := .closed } else s
  | .modeWakes expired => s.modeWakes expired
  | .converter ok => s.converter ok
  | .setupWakes expired => s.setupWakes expired
  | .built ok => s.built ok

/-- Neither thread is in its setup any more. -/
def Left (s : Handshake) : Prop :=
  (s.capture = .zeroCopy ∨ s.capture = .ramSlot ∨ s.capture = .failed) ∧
    (s.encode = .zerocopyLoop ∨ s.encode = .encodeLoop ∨ s.encode = .exited)

/-- Both threads are on one path. -/
def Agree (s : Handshake) : Prop :=
  (s.capture = .zeroCopy ∧ s.encode = .zerocopyLoop) ∨
    (s.capture = .ramSlot ∧ s.encode = .encodeLoop)

end Handshake

def machine : Machine Handshake Event where
  init := ⟨.noFrame, .waitSetup, none, none⟩
  step := Handshake.step

/-- The wait for the first frame does not expire, an encode side that is set up finds the
callback still waiting, and the converter of the memory path can be built. -/
def InTime (s : Handshake) : Event → Prop
  | .setupWakes expired =>
    expired = true → s.encode = .waitSetup → s.setup = none → s.capture.holdsSender = false
  | .built ok => ok = true → s.encode = .building → s.capture = .waitMode
  | .converter ok => ok = false → s.capture ≠ .choosing
  | .firstFrame _ | .captureCloses | .modeWakes _ => True

/-- The states of a setup that is in time. -/
inductive Sound : Handshake → Prop
  | start : Sound ⟨.noFrame, .waitSetup, none, none⟩
  | offered (handle : ℤ) : Sound ⟨.waitMode, .waitSetup, some handle, none⟩
  | opening : Sound ⟨.waitMode, .building, none, none⟩
  | accepted : Sound ⟨.waitMode, .zerocopyLoop, none, some true⟩
  | refused (mode : Option Bool) (h : mode ≠ some true) : Sound ⟨.waitMode, .encodeLoop, none, mode⟩
  | zeroCopy : Sound ⟨.zeroCopy, .zerocopyLoop, none, none⟩
  /-- The memory path is chosen; the encode thread will find that it is. -/
  | memory (c : Capture) (e : Encode) (setup : Option ℤ) (mode : Option Bool)
    (hc : c = .choosing ∨ c = .ramSlot)
    (he : (e = .waitSetup ∧ setup.isSome = true) ∨ e = .building ∨ e = .encodeLoop) :
    Sound ⟨c, e, setup, mode⟩
  | closed (e : Encode) (he : e = .waitSetup ∨ e = .exited) : Sound ⟨.closed, e, none, none⟩

/-- One thread has ended in its setup, or the encode thread works on a texture that
nobody fills. -/
def Broken (s : Handshake) : Prop :=
  s.encode = .exited ∨ s.capture = .failed ∨
    (s.encode = .zerocopyLoop ∧ (s.capture = .choosing ∨ s.capture = .ramSlot))

theorem Sound.agree {s : Handshake} (h : Sound s) (hleft : s.Left) : s.Agree := by
  obtain ⟨hcapture, hencode⟩ := hleft
  cases h with
  | start | offered | opening | accepted | refused | closed => simp at hcapture
  | zeroCopy => exact Or.inl ⟨rfl, rfl⟩
  | memory c e setup mode hc he =>
    simp only at hcapture hencode
    rcases hc with rfl | rfl
    · simp at hcapture
    · rcases he with ⟨rfl, -⟩ | rfl | rfl
      · simp at hencode
      · simp at hencode
      · exact Or.inr ⟨rfl, rfl⟩

theorem Broken.not_agree {s : Handshake} (h : Broken s) : ¬ s.Agree := by
  unfold Handshake.Agree
  rcases h with h | h | ⟨he, hc⟩
  · simp [h]
  · simp [h]
  · rcases hc with hc | hc <;> simp [he, hc]

section Steps

variable {s : Handshake}

theorem firstFrame_of_ne (h : s.capture ≠ .noFrame) (texture : Option ℤ) :
    s.firstFrame texture = s := by
  unfold Handshake.firstFrame
  split
  · contradiction
  · rfl

theorem modeWakes_of_ne (h : s.capture ≠ .waitMode) (expired : Bool) :
    s.modeWakes expired = s := by
  unfold Handshake.modeWakes
  split
  · contradiction
  · rfl

theorem converter_of_ne (h : s.capture ≠ .choosing) (ok : Bool) : s.converter ok = s := by
  unfold Handshake.converter
  split
  · contradiction
  · rfl

theorem setupWakes_of_ne (h : s.encode ≠ .waitSetup) (expired : Bool) :
    s.setupWakes expired = s := by
  unfold Handshake.setupWakes
  split
  · contradiction
  · rfl

theorem built_of_ne (h : s.encode ≠ .building) (ok : Bool) : s.built ok = s := by
  unfold Handshake.built
  split
  · contradiction
  · rfl

theorem encode_firstFrame (texture : Option ℤ) : (s.firstFrame texture).encode = s.encode := by
  unfold Handshake.firstFrame Handshake.sendSetup
  split
  · split <;> dsimp only <;> split <;> rfl
  · rfl

theorem encode_modeWakes (expired : Bool) : (s.modeWakes expired).encode = s.encode := by
  unfold Handshake.modeWakes
  split
  · split
    · rfl
    · rfl
    · split <;> rfl
  · rfl

theorem encode_converter (ok : Bool) : (s.converter ok).encode = s.encode := by
  unfold Handshake.converter
  split <;> rfl

theorem capture_setupWakes (expired : Bool) : (s.setupWakes expired).capture = s.capture := by
  unfold Handshake.setupWakes
  split
  · split
    · rfl
    · split <;> rfl
  · rfl

theorem capture_built (ok : Bool) : (s.built ok).capture = s.capture := by
  unfold Handshake.built
  split <;> rfl

/-- A thread that has ended stays so. -/
theorem step_exited (h : s.encode = .exited) (ev : Event) : (s.step ev).encode = .exited := by
  cases ev with
  | firstFrame texture => exact (encode_firstFrame texture).trans h
  | captureCloses =>
    change (if s.capture = .noFrame then { s with capture := .closed } else s).encode = _
    split <;> exact h
  | modeWakes expired => exact (encode_modeWakes expired).trans h
  | converter ok => exact (encode_converter ok).trans h
  | setupWakes expired =>
    change (s.setupWakes expired).encode = _
    rw [setupWakes_of_ne (by rw [h]; exact nofun), h]
  | built ok =>
    change (s.built ok).encode = _
    rw [built_of_ne (by rw [h]; exact nofun), h]

/-- The callback changes only at its own events. -/
theorem step_failed (h : s.capture = .failed) (ev : Event) : (s.step ev).capture = .failed := by
  cases ev with
  | firstFrame texture =>
    change (s.firstFrame texture).capture = _
    rw [firstFrame_of_ne (by rw [h]; exact nofun), h]
  | captureCloses =>
    change (if s.capture = .noFrame then { s with capture := .closed } else s).capture = _
    rw [if_neg (by rw [h]; exact nofun), h]
  | modeWakes expired =>
    change (s.modeWakes expired).capture = _
    rw [modeWakes_of_ne (by rw [h]; exact nofun), h]
  | converter ok =>
    change (s.converter ok).capture = _
    rw [converter_of_ne (by rw [h]; exact nofun), h]
  | setupWakes expired => exact (capture_setupWakes expired).trans h
  | built ok => exact (capture_built ok).trans h

theorem Broken.step (h : Broken s) (ev : Event) : Broken (s.step ev) := by
  rcases h with h | h | ⟨he, hc⟩
  · exact Or.inl (step_exited h ev)
  · exact Or.inr (Or.inl (step_failed h ev))
  · -- The texture is worked on; only the converter is still to come.
    obtain ⟨capture, encode, setup, mode⟩ := s
    simp only at he hc
    subst he
    cases ev with
    | converter ok =>
      rcases hc with rfl | rfl
      · cases ok with
        | true => exact Or.inr (Or.inr ⟨rfl, Or.inr rfl⟩)
        | false => exact Or.inr (Or.inl rfl)
      · exact Or.inr (Or.inr ⟨rfl, Or.inr rfl⟩)
    | firstFrame | captureCloses | modeWakes | setupWakes | built =>
      rcases hc with rfl | rfl
      · exact Or.inr (Or.inr ⟨rfl, Or.inl rfl⟩)
      · exact Or.inr (Or.inr ⟨rfl, Or.inr rfl⟩)

/-- Before the first frame the encode thread waits, or has ended with the capture. -/
theorem Sound.noFrame (h : Sound s) (hc : s.capture = .noFrame) :
    s = ⟨.noFrame, .waitSetup, none, none⟩ := by
  cases h with
  | start => rfl
  | offered | opening | accepted | refused | zeroCopy | closed => cases hc
  | memory c e setup mode hmemory =>
    simp only at hc
    subst hc
    rcases hmemory with h | h <;> cases h

theorem Sound.firstFrame (h : Sound s) (texture : Option ℤ) : Sound (s.firstFrame texture) := by
  by_cases hc : s.capture = .noFrame
  · rw [h.noFrame hc]
    cases texture with
    | some handle => exact .offered handle
    | none => exact .memory _ _ _ _ (Or.inl rfl) (Or.inl ⟨rfl, rfl⟩)
  · rwa [firstFrame_of_ne hc]

theorem Sound.captureCloses (h : Sound s) : Sound (s.step .captureCloses) := by
  change Sound (if s.capture = .noFrame then { s with capture := .closed } else s)
  split
  · rename_i hc
    rw [h.noFrame hc]
    exact .closed _ (Or.inl rfl)
  · exact h

/-- Whatever the callback finds, the encode thread is or will be on the same path. -/
theorem Sound.modeWakes (h : Sound s) (expired : Bool) : Sound (s.modeWakes expired) := by
  by_cases hc : s.capture = .waitMode
  · cases h with
    | offered handle =>
      cases expired with
      | true => exact .memory _ _ _ _ (Or.inl rfl) (Or.inl ⟨rfl, rfl⟩)
      | false => exact .offered handle
    | opening =>
      cases expired with
      | true => exact .memory _ _ _ _ (Or.inl rfl) (Or.inr (Or.inl rfl))
      | false => exact .opening
    | accepted => exact .zeroCopy
    | refused mode hmode =>
      cases mode with
      | none =>
        cases expired with
        | true => exact .memory _ _ _ _ (Or.inl rfl) (Or.inr (Or.inr rfl))
        | false => exact .refused none nofun
      | some answer =>
        cases answer with
        | true => exact absurd rfl hmode
        | false => exact .memory _ _ _ _ (Or.inl rfl) (Or.inr (Or.inr rfl))
    | start | zeroCopy | closed => cases hc
    | memory c e setup mode hmemory =>
      simp only at hc
      subst hc
      rcases hmemory with h | h <;> cases h
  · rwa [modeWakes_of_ne hc]

theorem Sound.converter (h : Sound s) {ok : Bool} (hok : ok = false → s.capture ≠ .choosing) :
    Sound (s.converter ok) := by
  by_cases hc : s.capture = .choosing
  · cases h with
    | memory c e setup mode hmemory he =>
      simp only at hc
      subst hc
      cases ok with
      | true => exact .memory _ _ _ _ (Or.inr rfl) he
      | false => exact absurd rfl (hok rfl)
    | start | offered | opening | accepted | refused | zeroCopy | closed => cases hc
  · rwa [converter_of_ne hc]

theorem Sound.setupWakes (h : Sound s) {expired : Bool} (hexpired : expired = true →
    s.encode = .waitSetup → s.setup = none → s.capture.holdsSender = false) :
    Sound (s.setupWakes expired) := by
  by_cases hencode : s.encode = .waitSetup
  · cases h with
    | start =>
      cases expired with
      | true => exact Bool.noConfusion (hexpired rfl rfl rfl)
      | false => exact .start
    | offered handle =>
      by_cases hzero : handle = 0
      · simp only [Handshake.setupWakes, if_pos hzero]
        exact .refused none nofun
      · simp only [Handshake.setupWakes, if_neg hzero]
        exact .opening
    | memory c e setup mode hc he =>
      simp only at hencode
      subst hencode
      have hsetup : setup.isSome = true := by
        rcases he with ⟨-, h⟩ | h | h
        · exact h
        · cases h
        · cases h
      obtain ⟨handle, rfl⟩ := Option.isSome_iff_exists.mp hsetup
      by_cases hzero : handle = 0
      · simp only [Handshake.setupWakes, if_pos hzero]
        exact .memory _ _ _ _ hc (Or.inr (Or.inr rfl))
      · simp only [Handshake.setupWakes, if_neg hzero]
        exact .memory _ _ _ _ hc (Or.inr (Or.inl rfl))
    | opening | accepted | refused | zeroCopy => cases hencode
    | closed e he =>
      simp only at hencode
      subst hencode
      exact .closed _ (Or.inr rfl)
  · rwa [setupWakes_of_ne hencode]

theorem Sound.built (h : Sound s) {ok : Bool}
    (hok : ok = true → s.encode = .building → s.capture = .waitMode) : Sound (s.built ok) := by
  by_cases hencode : s.encode = .building
  · cases h with
    | opening =>
      cases ok with
      | true => exact .accepted
      | false => exact .refused _ (by decide)
    | memory c e setup mode hc he =>
      simp only at hencode
      subst hencode
      cases ok with
      | true =>
        have hwait := hok rfl rfl
        simp only at hwait
        subst hwait
        rcases hc with h | h <;> cases h
      | false => exact .memory _ _ _ _ hc (Or.inr (Or.inr rfl))
    | start | offered | accepted | refused | zeroCopy => cases hencode
    | closed e he =>
      simp only at hencode
      subst hencode
      rcases he with h | h <;> cases h
  · rwa [built_of_ne hencode]

/-- A step that is in time keeps the setup sound. -/
theorem Sound.step (h : Sound s) {ev : Event} (hev : InTime s ev) : Sound (s.step ev) := by
  cases ev with
  | firstFrame texture => exact h.firstFrame texture
  | captureCloses => exact h.captureCloses
  | modeWakes expired => exact h.modeWakes expired
  | converter ok => exact h.converter hev
  | setupWakes expired => exact h.setupWakes hev
  | built ok => exact h.built hev

/-- A step that is not breaks it. -/
theorem Sound.broken (h : Sound s) {ev : Event} (hev : ¬ InTime s ev) : Broken (s.step ev) := by
  cases ev with
  | firstFrame | captureCloses | modeWakes => exact absurd trivial hev
  | setupWakes expired =>
    simp only [InTime, Classical.not_imp] at hev
    obtain ⟨rfl, hencode, hsetup, -⟩ := hev
    refine Or.inl ?_
    simp [Handshake.step, Handshake.setupWakes, hencode, hsetup]
  | converter ok =>
    simp only [InTime, Classical.not_imp, not_not] at hev
    obtain ⟨rfl, hcapture⟩ := hev
    refine Or.inr (Or.inl ?_)
    simp [Handshake.step, Handshake.converter, hcapture]
  | built ok =>
    simp only [InTime, Classical.not_imp] at hev
    obtain ⟨rfl, hencode, hwait⟩ := hev
    cases h with
    | opening => exact absurd rfl hwait
    | memory c e setup mode hc he =>
      simp only at hencode
      subst hencode
      exact Or.inr (Or.inr ⟨rfl, hc⟩)
    | start | offered | accepted | refused | zeroCopy => cases hencode
    | closed e he =>
      rcases he with rfl | rfl <;> cases hencode

end Steps

theorem sound_or_broken (evs : List Event) :
    (machine.Along InTime evs ∧ Sound (machine.run evs)) ∨
      (¬ machine.Along InTime evs ∧ Broken (machine.run evs)) := by
  induction evs using List.reverseRecOn with
  | nil => exact Or.inl ⟨Machine.forall_step_nil, .start⟩
  | append_singleton evs ev ih =>
    rw [Machine.along_concat, machine.run_concat]
    rcases ih with ⟨halong, hsound⟩ | ⟨halong, hbroken⟩
    · by_cases hev : InTime (machine.run evs) ev
      · exact Or.inl ⟨⟨halong, hev⟩, hsound.step hev⟩
      · exact Or.inr ⟨fun h => hev h.2, hsound.broken hev⟩
    · exact Or.inr ⟨fun h => halong h.1, hbroken.step ev⟩

end KmControl.CaptureSetup
