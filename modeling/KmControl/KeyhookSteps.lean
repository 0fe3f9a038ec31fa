import KmControl.Keyhook

/-!
What one event of the hook process does to the remote side: it presses a control
there, lifts one, lifts all, or leaves it alone. Whatever is held on the remote
side is marked as its own.
-/
namespace KmControl.KeyhookSteps

open Held Keyhook

/-- What can be pressed on the remote side. -/
inductive Control where
  | key (code : UInt32)
  | button (number : UInt8)
deriving DecidableEq, Repr

def strokeOf : Line → Option (Stroke Control)
  | .key code down => some ⟨Control.key code, down⟩
  | .button number down => some ⟨Control.button number, down⟩
  | _ => none

def strokes (lines : List Line) : List (Stroke Control) := lines.filterMap strokeOf

@[simp] theorem strokes_append (lines more : List Line) :
    strokes (lines ++ more) = strokes lines ++ strokes more := List.filterMap_append

/-- The controls that the tables have room for. -/
def Known : Control → Prop
  | .key code => code.toUInt8.toUInt32 = code
  | .button number => number ∈ Sidecar.buttons

/-- The entry of a control in its table. -/
def owned (s : Sidecar) : Control → Bool
  | .key code => s.keyRemote code.toUInt8
  | .button number => s.btnRemote number

theorem known_vkCode (vk : VkCode) : Known (Control.key vk.val) := by
  have hbound := UInt32.le_iff_toNat_le.mp vk.valid.2
  have h254 : (254 : UInt32).toNat = 254 := rfl
  refine UInt32.toNat_inj.mp ?_
  rw [UInt8.toNat_toUInt32, UInt32.toNat_toUInt8]
  omega

/-- One event and the remote side. -/
inductive Effect (s s' : Sidecar) : Prop
  | quiet (lines : List Line) (hout : s'.out = s.out ++ lines) (hlines : strokes lines = [])
      (howned : ∀ c, owned s' c = owned s c)
  | press (c : Control) (lines : List Line) (hknown : Known c) (hstreaming : s.streaming = true)
      (hout : s'.out = s.out ++ lines) (hlines : strokes lines = [⟨c, true⟩])
      (howned : ∀ c', Known c' → owned s' c' = (owned s c' || decide (c' = c)))
  | lift (c : Control) (lines : List Line) (hout : s'.out = s.out ++ lines)
      (hlines : strokes lines = [⟨c, false⟩])
      (howned : ∀ c', Known c' → owned s' c' = (owned s c' && !decide (c' = c)))
  | release (lines : List Line) (hout : s'.out = s.out ++ lines)
      (hlines : strokes lines = strokes s.releases) (howned : ∀ c, Known c → owned s' c = false)

/-- A key line together with the entry of the key. -/
theorem effect_key {s s' : Sidecar} (vk : VkCode) (down : Bool)
    (hstreaming : down = true → s.streaming = true) (hbtn : s'.btnRemote = s.btnRemote)
    (hkey : s'.keyRemote = fun i => if i = vk.slot then down else s.keyRemote i)
    (hout : s'.out = s.out ++ [Line.key vk.val down]) : Effect s s' := by
  have howned : ∀ c', Known c' → owned s' c' =
      if c' = Control.key vk.val then down else owned s c' := by
    intro c' hknown
    cases c' with
    | button number =>
      rw [if_neg (by rintro ⟨⟩)]
      exact congrFun hbtn number
    | key code =>
      change s'.keyRemote code.toUInt8 = _
      rw [hkey]
      by_cases hcode : code = vk.val
      · subst hcode
        rw [if_pos rfl]
        exact if_pos rfl
      · rw [if_neg fun heq => hcode (Control.key.inj heq)]
        refine if_neg fun hslot => hcode ?_
        rw [← show code.toUInt8.toUInt32 = code from hknown, hslot]
        exact known_vkCode vk
  cases down with
  | true =>
    refine Effect.press (Control.key vk.val) _ (known_vkCode vk) (hstreaming rfl) hout rfl ?_
    intro c' hknown
    rw [howned c' hknown]
    by_cases hc : c' = Control.key vk.val <;> simp [hc]
  | false =>
    refine Effect.lift (Control.key vk.val) _ hout rfl ?_
    intro c' hknown
    rw [howned c' hknown]
    by_cases hc : c' = Control.key vk.val <;> simp [hc]

theorem streaming_of_active {s : Sidecar} (h : s.active = true) : s.streaming = true := by
  unfold Sidecar.active at h
  rw [Bool.and_eq_true, Bool.and_eq_true] at h
  exact h.1.1

theorem effect_kbdProc (s : Sidecar) (vk : VkCode) (down : Bool) :
    Effect s (s.kbdProc vk down) := by
  have hpass : ∀ down, Effect s (s.passOn vk down) := fun down =>
    Effect.quiet [] (List.append_nil _).symm rfl fun c => by cases c <;> rfl
  unfold Sidecar.kbdProc
  split
  · rename_i hdown
    split
    · rename_i hactive
      exact effect_key vk true (fun _ => streaming_of_active hactive) rfl rfl rfl
    · exact hpass true
  · split
    · exact effect_key vk false (fun h => by cases h) rfl rfl rfl
    · exact hpass false

/-- Setting the hover flag leaves the tables and the gate's other flags alone. -/
theorem setHovering_cases (s : Sidecar) (inside : Bool) :
    ∃ lines, (s.setHovering inside).out = s.out ++ lines ∧ strokes lines = [] ∧
      (s.setHovering inside).keyRemote = s.keyRemote ∧
      (s.setHovering inside).btnRemote = s.btnRemote ∧
      (s.setHovering inside).streaming = s.streaming := by
  unfold Sidecar.setHovering
  split
  · exact ⟨[], (List.append_nil _).symm, rfl, rfl, rfl, rfl⟩
  · exact ⟨[Line.hover inside], rfl, rfl, rfl, rfl, rfl⟩

theorem updateHover_cases {s s' : Sidecar} {px py : Int32}
    {mapped : Option (Int32 × Int32 × Int32 × Int32)}
    (h : s.updateHover px py = some (s', mapped)) : ∃ inside, s' = s.setHovering inside := by
  unfold Sidecar.updateHover at h
  split at h
  · cases h
    exact ⟨false, rfl⟩
  · dsimp only at h
    split at h
    · cases h
      exact ⟨_, rfl⟩
    · simp only [Option.bind_eq_bind, Option.bind_eq_some_iff, Option.some.injEq,
        Prod.mk.injEq] at h
      obtain ⟨-, -, -, -, hs', -⟩ := h
      exact ⟨_, hs'.symm⟩

/-- Lines that are no strokes may come before the effect proper. -/
theorem Effect.after {s s₁ s' : Sidecar} (h : Effect s₁ s') {first : List Line}
    (hout₁ : s₁.out = s.out ++ first) (hfirst : strokes first = [])
    (hkey : s₁.keyRemote = s.keyRemote) (hbtn : s₁.btnRemote = s.btnRemote)
    (hstreaming₁ : s₁.streaming = s.streaming) : Effect s s' := by
  have howned₁ : ∀ c, owned s₁ c = owned s c := by
    intro c
    cases c with
    | key code => exact congrFun hkey _
    | button number => exact congrFun hbtn _
  have hall : ∀ lines, s'.out = s₁.out ++ lines → s'.out = s.out ++ (first ++ lines) := by
    intro lines hout
    rw [hout, hout₁, List.append_assoc]
  have hstrokes : ∀ lines, strokes (first ++ lines) = strokes lines := by
    intro lines
    rw [strokes_append, hfirst, List.nil_append]
  cases h with
  | quiet lines hout hlines howned =>
    exact .quiet _ (hall lines hout) ((hstrokes lines).trans hlines)
      fun c => (howned c).trans (howned₁ c)
  | press c lines hknown hstreaming hout hlines howned =>
    refine .press c _ hknown (hstreaming₁ ▸ hstreaming) (hall lines hout)
      ((hstrokes lines).trans hlines) fun c' hc' => ?_
    rw [howned c' hc', howned₁]
  | lift c lines hout hlines howned =>
    refine .lift c _ (hall lines hout) ((hstrokes lines).trans hlines) fun c' hc' => ?_
    rw [howned c' hc', howned₁]
  | release lines hout hlines howned =>
    refine .release _ (hall lines hout) ((hstrokes lines).trans (hlines.trans ?_)) howned
    unfold Sidecar.releases
    rw [hkey, hbtn]

theorem effect_onButton (s : Sidecar) {number : UInt8} (hnumber : number ∈ Sidecar.buttons)
    (down : Bool) : Effect s (s.onButton number down) := by
  have hnone : Effect s s := .quiet [] (List.append_nil _).symm rfl fun _ => rfl
  have howned : ∀ on line c', owned ((s.setBtnRemote number on).emit line) c' =
      if c' = Control.button number then on else owned s c' := by
    intro on line c'
    cases c' with
    | key code =>
      rw [if_neg (by rintro ⟨⟩)]
      rfl
    | button n =>
      change (if n = number then on else s.btnRemote n) = _
      exact if_congr (Control.button.injEq n number).symm.to_iff rfl rfl
  unfold Sidecar.onButton
  split
  · split
    · rename_i hactive
      refine .press (Control.button number) [_] hnumber (streaming_of_active hactive) rfl rfl ?_
      intro c' _
      rw [howned]
      by_cases hc : c' = Control.button number <;> simp [hc]
    · exact hnone
  · split
    · refine .lift (Control.button number) [_] rfl rfl ?_
      intro c' _
      rw [howned]
      by_cases hc : c' = Control.button number <;> simp [hc]
    · exact hnone

theorem effect_onMotion (s : Sidecar) (message : MouseMessage) (mouseData : UInt32)
    (mapped : Option (Int32 × Int32 × Int32 × Int32)) :
    Effect s (s.onMotion message mouseData mapped) := by
  have hemit : ∀ line, strokeOf line = none → Effect s (s.emit line) := by
    intro line hline
    refine .quiet [line] rfl ?_ fun c => by cases c <;> rfl
    unfold strokes
    rw [List.filterMap_cons_none hline, List.filterMap_nil]
  have hnone : Effect s s := .quiet [] (List.append_nil _).symm rfl fun _ => rfl
  unfold Sidecar.onMotion
  split
  · exact hnone
  · split
    · exact hemit _ rfl
    · exact hemit _ rfl
    · exact hnone

theorem mem_buttons_of_button {message : MouseMessage} {mouseData : UInt32} {number : UInt8}
    {down : Bool} (h : Sidecar.button message mouseData = some (number, down)) :
    number ∈ Sidecar.buttons := by
  cases message with
  | lButton | rButton | mButton =>
    cases h
    decide
  | xButton =>
    cases h
    split <;> decide
  | move | wheel | hWheel | other => cases h

theorem effect_mouseProc (s : Sidecar) (message : MouseMessage) (mouseData : UInt32)
    (px py : Int32) : Effect s (s.mouseProc message mouseData px py) := by
  unfold Sidecar.mouseProc
  cases hhover : s.updateHover px py with
  | none => exact .quiet [] (List.append_nil _).symm rfl fun c => by cases c <;> rfl
  | some result =>
    obtain ⟨s₁, mapped⟩ := result
    obtain ⟨inside, rfl⟩ := updateHover_cases hhover
    obtain ⟨lines, hout, hlines, hkey, hbtn, hstreaming⟩ := setHovering_cases s inside
    refine Effect.after ?_ hout hlines hkey hbtn hstreaming
    cases hbutton : Sidecar.button message mouseData with
    | some press => exact effect_onButton _ (mem_buttons_of_button hbutton) press.2
    | none => exact effect_onMotion _ message mouseData mapped

theorem effect_onCommand (s : Sidecar) (c : Command) : Effect s (s.onCommand c) := by
  have hflags : ∀ s' : Sidecar, s'.out = s.out → s'.keyRemote = s.keyRemote →
      s'.btnRemote = s.btnRemote → Effect s s' := by
    intro s' hout hkey hbtn
    refine .quiet [] (hout.trans (List.append_nil _).symm) rfl fun c => ?_
    cases c with
    | key code => exact congrFun hkey _
    | button number => exact congrFun hbtn _
  cases c with
  | streaming on =>
    cases on with
    | true => exact hflags _ rfl rfl rfl
    | false =>
      refine .release _ rfl rfl fun c hknown => ?_
      cases c with
      | key code => rfl
      | button number =>
        have hcontains : Sidecar.buttons.contains number = true := List.contains_iff_mem.mpr hknown
        change (s.btnRemote number && !Sidecar.buttons.contains number) = false
        rw [hcontains, Bool.not_true, Bool.and_false]
  | focused on => exact hflags _ rfl rfl rfl
  | rect l t r b => exact hflags _ rfl rfl rfl
  | other => exact hflags _ rfl rfl rfl

theorem effect_step (s : Sidecar) (ev : Event) : Effect s (step s ev) := by
  unfold step
  split
  · cases ev with
    | key vk down => exact effect_kbdProc s vk down
    | mouse message mouseData px py => exact effect_mouseProc s message mouseData px py
    | command c => exact effect_onCommand s c
  · exact .quiet [] (List.append_nil _).symm rfl fun _ => rfl

/-- Whatever is held on the remote side is in the tables and marked there. -/
def Marked (s : Sidecar) : Prop :=
  ∀ c, held (strokes s.out) c = true → Known c ∧ owned s c = true

/-- The lines of a release are ups, one for each marked control. -/
theorem strokes_releases (s : Sidecar) : (∀ x ∈ strokes s.releases, x.down = false) ∧
    ∀ c, Known c → owned s c = true → ∃ x ∈ strokes s.releases, x.control = c := by
  have hstrokes : strokes s.releases =
      (Sidecar.slots.filter s.keyRemote).map (fun slot => ⟨Control.key slot.toUInt32, false⟩) ++
        (Sidecar.buttons.filter s.btnRemote).map fun number => ⟨Control.button number, false⟩ := by
    unfold Sidecar.releases
    rw [strokes_append]
    unfold strokes
    rw [List.filterMap_map, List.filterMap_map]
    congr 1 <;> exact congrFun List.filterMap_eq_map _
  rw [hstrokes]
  constructor
  · intro x hx
    rcases List.mem_append.mp hx with hx | hx <;> obtain ⟨_, -, rfl⟩ := List.mem_map.mp hx <;> rfl
  · intro c hknown howned
    cases c with
    | key code =>
      refine ⟨⟨Control.key code.toUInt8.toUInt32, false⟩, List.mem_append_left _ ?_,
        congrArg Control.key hknown⟩
      refine List.mem_map.mpr ⟨code.toUInt8, List.mem_filter.mpr ⟨?_, howned⟩, rfl⟩
      refine List.mem_map.mpr ⟨code.toUInt8.toNat, List.mem_range.mpr code.toUInt8.toNat_lt, ?_⟩
      exact UInt8.ofNat_toNat
    | button number =>
      exact ⟨⟨Control.button number, false⟩, List.mem_append_right _
        (List.mem_map.mpr ⟨number, List.mem_filter.mpr ⟨hknown, howned⟩, rfl⟩), rfl⟩

theorem Marked.step {s s' : Sidecar} (h : Marked s) (heffect : Effect s s') : Marked s' := by
  intro c hheld
  cases heffect with
  | quiet lines hout hlines howned =>
    rw [hout, strokes_append, hlines, List.append_nil] at hheld
    rw [howned]
    exact h c hheld
  | press c' lines hknown _ hout hlines howned =>
    rw [hout, strokes_append, hlines] at hheld
    by_cases hc : c = c'
    · subst hc
      refine ⟨hknown, ?_⟩
      rw [howned c hknown, decide_eq_true rfl, Bool.or_true]
    · rw [held_concat_of_ne fun heq => hc heq.symm] at hheld
      obtain ⟨hknown', hbefore⟩ := h c hheld
      refine ⟨hknown', ?_⟩
      rw [howned c hknown', hbefore, Bool.true_or]
  | lift c' lines hout hlines howned =>
    rw [hout, strokes_append, hlines] at hheld
    by_cases hc : c = c'
    · subst hc
      rw [held_concat_self] at hheld
      cases hheld
    · rw [held_concat_of_ne fun heq => hc heq.symm] at hheld
      obtain ⟨hknown', hbefore⟩ := h c hheld
      refine ⟨hknown', ?_⟩
      rw [howned c hknown', hbefore, decide_eq_false hc]
      rfl
  | release lines hout hlines howned =>
    rw [hout, strokes_append, hlines] at hheld
    obtain ⟨hups, hnamed⟩ := strokes_releases s
    obtain ⟨hbefore, hunnamed⟩ := (held_append_ups hups c).mp hheld
    obtain ⟨hknown, hmarked⟩ := h c hbefore
    obtain ⟨x, hx, hcontrol⟩ := hnamed c hknown hmarked
    exact absurd hcontrol (hunnamed x hx)

theorem run_marked (evs : List Event) : Marked (machine.run evs) :=
  Machine.run_invariant machine (I := Marked) (fun _ h => by cases h)
    (fun s ev h => h.step (effect_step s ev)) evs

end KmControl.KeyhookSteps
