import KmControl.ControlTraffic
import KmControl.KeyhookSettings
import KmControl.KeyhookSteps
import Mathlib.Data.List.Flatten
import Mathlib.Data.List.Infix

/-!
From the hooks of the admin to the desktop of the host. The hook process takes settings from
its standard input and puts out lines; a thread of the admin reads these and asks the control
channel to send what they say, and other threads ask for key frames and report losses. The
task of the channel seals the messages and hands them to ENet, which delivers its reliable
packets in order and the others at any time, and the host handles each as it comes.
-/
namespace KmControl.ControlLink

open ByteFields ControlWire GsProto HostControl MoonControl ControlRoundTrip ControlTraffic
open KeyhookSettings
open ControlChannel (Channel Cmd Peer Phase Service)
open Keyhook (Command Event Line MouseMessage Sidecar VkCode)
open KeyhookLines (Handled handleLine handleLine_text meaning text)

section Wanted

/-- The line names a key of the table or one of the buttons. -/
def Coded : Line → Prop
  | .key code _ => code.toNat ≤ 255
  | .button number _ => number ∈ Sidecar.buttons
  | _ => True

/-- What a line is to do to the desktop of the host. -/
def wanted : Line → List Input
  | .key code down =>
    [Input.keyboard code.toUInt16 (isExtended code.toUInt16) (!down)]
  | .mouseMove x y w h =>
    mouseMoveAbs x.toInt16.toInt32 y.toInt16.toInt32 w.toInt16.toInt32 h.toInt16.toInt32
  | .button number down => mouseButton number down
  | .scroll amount => [Input.mouse [.wheel] 0 0 amount.toInt32]
  | .hover _ => []

/-- What an effect at the host does to its desktop. -/
def performs : Effect → List Input
  | .inject payload => inject payload
  | _ => []

/-- What a request is to do to the desktop. -/
def actions (r : Request) : List Input := r.effects.flatMap performs

theorem actions_input (ev : InputEvent) : actions (.input ev) = perform (meant ev) := by
  change [Effect.inject (encodeInput ev)].flatMap performs = _
  rw [List.flatMap_singleton]
  change inject (encodeInput ev) = _
  unfold inject
  rw [parseInput_encodeInput]
  rfl

theorem toUInt16_ofInt (code : UInt32) :
    (Int32.ofInt code.toNat).toInt16.toUInt16 = code.toUInt16 := by
  have hbits : BitVec.ofNat 16 code.toNat = code.toBitVec.setWidth 16 :=
    BitVec.ofNat_toNat 16 code.toBitVec
  exact UInt16.eq_of_toBitVec_eq (by simpa using hbits)

theorem handleLine_coded {line : Line} (hcoded : Coded line) :
    handleLine (text line) = some (meaning line) := by
  refine handleLine_text fun code down heq => ?_
  subst heq
  exact Nat.le_trans hcoded (by decide)

/-- The event that the admin reads from a line does what the line is to do. -/
theorem actions_of_handleLine {line : Line} (hcoded : Coded line) {ev : InputEvent}
    (h : handleLine (text line) = some (.input ev)) : actions (.input ev) = wanted line := by
  rw [handleLine_coded hcoded] at h
  rw [actions_input]
  cases line with
  | key code down =>
    cases h
    change [Input.keyboard (Int32.ofInt code.toNat).toInt16.toUInt16 _ _] = _
    rw [toUInt16_ofInt]
    rfl
  | mouseMove | button | scroll =>
    cases h
    rfl
  | hover on => cases h

/-- Any other line does nothing to the desktop. -/
theorem wanted_of_handleLine {line : Line} (hcoded : Coded line)
    (h : ∀ ev, handleLine (text line) = some (.input ev) → False) : wanted line = [] := by
  rw [handleLine_coded hcoded] at h
  cases line with
  | key | mouseMove | button | scroll => exact absurd rfl (h _)
  | hover on => rfl

end Wanted

section Codes

/-- The hook process puts out keys of the table only. -/
def AllCoded (s : Sidecar) : Prop := ∀ line ∈ s.out, Coded line

theorem AllCoded.emit {s : Sidecar} (h : AllCoded s) {line : Line} (hline : Coded line) :
    AllCoded (s.emit line) :=
  List.forall_mem_append.mpr ⟨h, List.forall_mem_singleton.mpr hline⟩

theorem AllCoded.kbdProc {s : Sidecar} (h : AllCoded s) (vk : VkCode) (down : Bool) :
    AllCoded (s.kbdProc vk down) := by
  have hvk : ∀ down, Coded (.key vk.val down) := fun _ =>
    (UInt32.le_iff_toNat_le.mp vk.valid.2).trans (by decide)
  unfold Sidecar.kbdProc
  split
  · split
    · exact AllCoded.emit (s := s.setKeyRemote vk.slot true) h (hvk true)
    · exact h
  · split
    · exact AllCoded.emit (s := s.setKeyRemote vk.slot false) h (hvk false)
    · exact h

theorem AllCoded.mouseProc {s : Sidecar} (h : AllCoded s) (message : MouseMessage)
    (mouseData : UInt32) (px py : Int32) : AllCoded (s.mouseProc message mouseData px py) := by
  have hhovering : ∀ inside, AllCoded (s.setHovering inside) := by
    intro inside
    unfold Sidecar.setHovering
    split
    · exact h
    · exact AllCoded.emit (s := { s with hovering := inside }) h trivial
  unfold Sidecar.mouseProc
  cases hhover : s.updateHover px py with
  | none => exact h
  | some result =>
    obtain ⟨s₁, mapped⟩ := result
    obtain ⟨inside, rfl⟩ := KeyhookSteps.updateHover_cases hhover
    have hs := hhovering inside
    generalize s.setHovering inside = s₁ at hs
    dsimp only
    split
    · rename_i number down hbutton
      have hnumber := KeyhookSteps.mem_buttons_of_button hbutton
      unfold Sidecar.onButton
      split
      · split
        · exact AllCoded.emit (s := s₁.setBtnRemote number true) hs hnumber
        · exact hs
      · split
        · exact AllCoded.emit (s := s₁.setBtnRemote number false) hs hnumber
        · exact hs
    · unfold Sidecar.onMotion
      split
      · exact hs
      · split
        · exact hs.emit trivial
        · exact hs.emit trivial
        · exact hs

theorem AllCoded.onCommand {s : Sidecar} (h : AllCoded s) (c : Command) :
    AllCoded (s.onCommand c) := by
  cases c with
  | streaming on =>
    cases on with
    | true => exact h
    | false =>
      refine List.forall_mem_append.mpr ⟨h, List.forall_mem_append.mpr ⟨?_, ?_⟩⟩
      · refine List.forall_mem_map.mpr fun slot _ => ?_
        change slot.toUInt32.toNat ≤ 255
        rw [UInt8.toNat_toUInt32]
        exact Nat.le_of_lt_succ slot.toNat_lt
      · exact List.forall_mem_map.mpr fun number hnumber => List.mem_of_mem_filter hnumber
  | focused | rect | other => exact h

theorem AllCoded.step {s : Sidecar} (h : AllCoded s) (ev : Event) :
    AllCoded (Keyhook.step s ev) := by
  unfold Keyhook.step
  split
  · cases ev with
    | key vk down => exact h.kbdProc vk down
    | mouse message mouseData px py => exact h.mouseProc message mouseData px py
    | command c => exact h.onCommand c
  · exact h

/-- The hook process takes no line back. -/
theorem out_step (s : Sidecar) (ev : Event) : s.out <+: (Keyhook.step s ev).out := by
  cases KeyhookSteps.effect_step s ev with
  | quiet lines hout | press _ lines _ _ hout | lift _ lines hout | release lines hout =>
    exact ⟨lines, hout.symm⟩

end Codes

structure Link where
  hook : Sidecar
  /-- What the admin has set. -/
  settings : List Setting
  /-- The lines that the hook process has not read. -/
  stdin : List (List Char)
  /-- How many lines the reader has taken. -/
  read : ℕ
  channel : Channel
  /-- The requests that have gone into the queue. -/
  asked : List Request
  /-- How many packets have been delivered in order. -/
  delivered : ℕ
  /-- What these have set off at the host. -/
  ordered : List Effect
  /-- What the packets that may come at any time have set off there. -/
  loose : List Effect

inductive Op where
  | key (vk : VkCode) (down : Bool)
  | mouse (message : MouseMessage) (mouseData : UInt32) (px py : Int32)
  | set (setting : Setting)
  | handleCommand
  | readLine
  | requestIdr
  | sendFecStatus (st : FrameFecStatus)
  | shutdown
  | drop
  | task (now : ℕ) (peer : Peer) (service : Service)
  | deliver
  | deliverLoose (i : ℕ)

/-- If the task seals a message, ENet takes it. -/
def Op.Takes : Op → Prop
  | .task _ peer _ => peer = .connected true
  | _ => True

instance : (op : Op) → Decidable op.Takes
  | .task _ peer _ => inferInstanceAs (Decidable (peer = .connected true))
  | .key _ _ | .mouse _ _ _ _ | .set _ | .handleCommand | .readLine | .requestIdr
  | .sendFecStatus _ | .shutdown | .drop | .deliver | .deliverLoose _ => isTrue trivial

variable (gcm : AesGcm) (key : Key)

namespace Link

/-- What has been handed over in order and not yet delivered. -/
def inTransit (s : Link) : List Bytes :=
  (packets .reliableSequenced s.channel.sent).drop s.delivered

/-- The hook process takes a line from its standard input. -/
def handleCommand (s : Link) : Link :=
  match s.stdin with
  | line :: rest =>
    { s with hook := Keyhook.step s.hook (.command (readCommand line)), stdin := rest }
  | [] => s

def control (s : Link) (op : ControlChannel.Input) : Link :=
  { s with channel := ControlChannel.step gcm key s.channel op }

def send (s : Link) (r : Request) : Link :=
  { s.control gcm key (.enqueue r.msg) with
    asked := if s.channel.hasHandle && s.channel.shared.alive then s.asked ++ [r] else s.asked }

/-- The reader's thread takes the next line. -/
def readLine (s : Link) : Link :=
  match s.hook.out[s.read]? with
  | some line =>
    match handleLine (text line) with
    | some (.input ev) => { s with read := s.read + 1 }.send gcm key (.input ev)
    | _ => { s with read := s.read + 1 }
  | none => s

def deliver (s : Link) : Link :=
  match (packets .reliableSequenced s.channel.sent)[s.delivered]? with
  | some packet =>
    { s with delivered := s.delivered + 1, ordered := s.ordered ++ atHost gcm key packet }
  | none => s

/-- Any packet of the other mode, once more or for the first time. -/
def deliverLoose (s : Link) (i : ℕ) : Link :=
  match (packets .unsequenced s.channel.sent)[i]? with
  | some packet => { s with loose := s.loose ++ atHost gcm key packet }
  | none => s

end Link

def step (s : Link) : Op → Link
  | .key vk down => { s with hook := Keyhook.step s.hook (.key vk down) }
  | .mouse message mouseData px py =>
    { s with hook := Keyhook.step s.hook (.mouse message mouseData px py) }
  | .set setting =>
    { s with settings := s.settings ++ [setting], stdin := s.stdin ++ [setting.text] }
  | .handleCommand => s.handleCommand
  | .readLine => s.readLine gcm key
  | .requestIdr => s.send gcm key .idr
  | .sendFecStatus st => s.send gcm key (.fecStatus st)
  | .shutdown => s.control gcm key .shutdown
  | .drop => s.control gcm key .drop
  | .task now peer service => s.control gcm key (.task now peer service)
  | .deliver => s.deliver gcm key
  | .deliverLoose i => s.deliverLoose gcm key i

def machine : Machine Link Op where
  init :=
    { hook := Sidecar.new, settings := [], stdin := [], read := 0,
      channel := (ControlChannel.machine gcm key).init, asked := [], delivered := 0, ordered := [],
      loose := [] }
  step := step gcm key

section Steps

/-- The commands among the events of the hook process. -/
def commands (evs : List Event) : List Command :=
  evs.filterMap fun
    | .command c => some c
    | _ => none

/-- What one step does to the link. Where there is nothing to take, it does nothing. -/
inductive Change (s : Link) : Op → Link → Prop
  | idle (op : Op) : Change s op s
  | event {op : Op} (ev : Event) (hev : commands [ev] = []) :
      Change s op { s with hook := Keyhook.step s.hook ev }
  | set (setting : Setting) : Change s (.set setting)
      { s with settings := s.settings ++ [setting], stdin := s.stdin ++ [setting.text] }
  | command {line : List Char} {rest : List (List Char)} (hstdin : s.stdin = line :: rest) :
      Change s .handleCommand
        { s with hook := Keyhook.step s.hook (.command (readCommand line)), stdin := rest }
  | skip {line : Line} (hline : s.hook.out[s.read]? = some line)
      (hread : ∀ ev, handleLine (text line) = some (.input ev) → False) :
      Change s .readLine { s with read := s.read + 1 }
  | input {line : Line} {ev : InputEvent} (hline : s.hook.out[s.read]? = some line)
      (hread : handleLine (text line) = some (.input ev)) :
      Change s .readLine ({ s with read := s.read + 1 }.send gcm key (.input ev))
  | ask {op : Op} (r : Request) (hr : actions r = []) : Change s op (s.send gcm key r)
  | shutdown : Change s .shutdown (s.control gcm key .shutdown)
  | drop : Change s .drop (s.control gcm key .drop)
  | task (now : ℕ) (peer : Peer) (service : Service) :
      Change s (.task now peer service) (s.control gcm key (.task now peer service))
  | deliver {packet : Bytes}
      (hpacket : (packets .reliableSequenced s.channel.sent)[s.delivered]? = some packet) :
      Change s .deliver
        { s with delivered := s.delivered + 1, ordered := s.ordered ++ atHost gcm key packet }
  | deliverLoose {i : ℕ} {packet : Bytes}
      (hpacket : (packets .unsequenced s.channel.sent)[i]? = some packet) :
      Change s (.deliverLoose i) { s with loose := s.loose ++ atHost gcm key packet }

theorem change_step (s : Link) (op : Op) : Change gcm key s op (step gcm key s op) := by
  cases op with
  | key vk down => exact .event _ rfl
  | mouse message mouseData px py => exact .event _ rfl
  | set setting => exact .set setting
  | handleCommand =>
    change Change gcm key s .handleCommand s.handleCommand
    unfold Link.handleCommand
    split
    · exact .command ‹_›
    · exact .idle _
  | readLine =>
    change Change gcm key s .readLine (s.readLine gcm key)
    unfold Link.readLine
    split
    · split
      · exact .input ‹_› ‹_›
      · exact .skip ‹_› ‹_›
    · exact .idle _
  | requestIdr => exact .ask .idr rfl
  | sendFecStatus st => exact .ask (.fecStatus st) rfl
  | shutdown => exact .shutdown
  | drop => exact .drop
  | task now peer service => exact .task now peer service
  | deliver =>
    change Change gcm key s .deliver (s.deliver gcm key)
    unfold Link.deliver
    split
    · exact .deliver ‹_›
    · exact .idle _
  | deliverLoose i =>
    change Change gcm key s (.deliverLoose i) (s.deliverLoose gcm key i)
    unfold Link.deliverLoose
    split
    · exact .deliverLoose ‹_›
    · exact .idle _

end Steps

section Accounts

/-- What a step makes of the requests that ENet has taken and of those that wait. -/
def Accounted (takes : Prop) (taken waiting : List Request) (s s' : Link) : Prop :=
  ∃ taken' waiting' added, Carried gcm key s'.channel taken' waiting' ∧
    s'.asked = s.asked ++ added ∧ Progress takes taken (waiting ++ added) taken' waiting'

variable {gcm key} {taken waiting : List Request}

theorem Accounted.of_eq {takes : Prop} {s s' : Link}
    (h : Carried gcm key s.channel taken waiting) (hchannel : s'.channel = s.channel)
    (hasked : s'.asked = s.asked) : Accounted gcm key takes taken waiting s s' :=
  ⟨taken, waiting, [], hchannel ▸ h, hasked.trans (List.append_nil _).symm,
    (List.append_nil waiting).symm ▸ .stay⟩

theorem accounted_send {takes : Prop} {s : Link} (h : Carried gcm key s.channel taken waiting)
    (r : Request) : Accounted gcm key takes taken waiting s (s.send gcm key r) := by
  by_cases hopen : (s.channel.hasHandle && s.channel.shared.alive) = true
  · obtain ⟨hhandle, halive⟩ := Bool.and_eq_true_iff.mp hopen
    refine ⟨taken, waiting ++ [r], [r], ?_, if_pos hopen, .stay⟩
    change Carried gcm key (if s.channel.hasHandle then s.channel.enqueue r.msg else s.channel) _ _
    rw [if_pos hhandle]
    exact h.enqueue hhandle halive r
  · refine Accounted.of_eq h ?_ (if_neg hopen)
    change (if s.channel.hasHandle then s.channel.enqueue r.msg else s.channel) = s.channel
    split
    · rename_i hhandle
      have halive : ¬ s.channel.shared.alive = true := fun halive =>
        hopen (Bool.and_eq_true_iff.mpr ⟨hhandle, halive⟩)
      unfold Channel.enqueue
      rw [if_neg halive]
    · rfl

theorem Change.accounted {s s' : Link} {op : Op} (hchange : Change gcm key s op s')
    (h : Carried gcm key s.channel taken waiting) :
    Accounted gcm key op.Takes taken waiting s s' := by
  cases hchange with
  | idle | event | set | command | skip | deliver | deliverLoose => exact .of_eq h rfl rfl
  | input hline hread => exact accounted_send (s := { s with read := s.read + 1 }) h _
  | ask r hr => exact accounted_send h r
  | shutdown =>
    refine ⟨taken, waiting, [], ?_, (List.append_nil _).symm,
      (List.append_nil waiting).symm ▸ .stay⟩
    change Carried gcm key (if s.channel.hasHandle then s.channel.shutdown else s.channel) _ _
    split
    · exact h.shutdown ‹_›
    · exact h
  | drop =>
    refine ⟨taken, waiting, [], ?_, (List.append_nil _).symm,
      (List.append_nil waiting).symm ▸ .stay⟩
    change Carried gcm key
      (if s.channel.hasHandle then { s.channel with dropped := true } else s.channel) _ _
    split
    · exact h.congr rfl rfl rfl
    · exact h
  | task now peer service =>
    obtain ⟨taken', waiting', hcarried, hprogress⟩ := h.task now peer service
    exact ⟨taken', waiting', [], hcarried, (List.append_nil _).symm,
      (List.append_nil waiting).symm ▸ hprogress⟩

theorem accounted_step {s : Link} (h : Carried gcm key s.channel taken waiting) (op : Op) :
    Accounted gcm key op.Takes taken waiting s (step gcm key s op) :=
  (change_step gcm key s op).accounted h

theorem carried_init : Carried gcm key (machine gcm key).init.channel [] [] :=
  .unopened (.inl rfl) rfl rfl

variable (gcm key)

/-- Whatever ENet takes and whatever it refuses, nothing is carried but what was asked for,
in that order. -/
theorem exists_carried (ops : List Op) : ∃ taken waiting,
    Carried gcm key ((machine gcm key).run ops).channel taken waiting ∧
      (taken ++ waiting).Sublist ((machine gcm key).run ops).asked := by
  refine (machine gcm key).run_invariant (I := fun s => ∃ taken waiting,
    Carried gcm key s.channel taken waiting ∧ (taken ++ waiting).Sublist s.asked)
    ⟨[], [], carried_init, List.Sublist.refl _⟩ ?_ ops
  rintro s op ⟨taken, waiting, hcarried, hkept⟩
  obtain ⟨taken', waiting', added, hcarried', hasked, hprogress⟩ := accounted_step hcarried op
  refine ⟨taken', waiting', hcarried', ?_⟩
  have hall : (taken ++ (waiting ++ added)).Sublist (s.asked ++ added) := by
    rw [← List.append_assoc]
    exact hkept.append_right added
  exact hasked ▸ hprogress.sublist.trans hall

/-- Where ENet takes every message, all that was asked for is carried or waits. -/
theorem exists_carried_all (ops : List Op)
    (h : (machine gcm key).Along (fun _ op => op.Takes) ops) : ∃ taken waiting,
      Carried gcm key ((machine gcm key).run ops).channel taken waiting ∧
        taken ++ waiting = ((machine gcm key).run ops).asked := by
  refine Machine.run_invariant_along (m := machine gcm key) (I := fun s => ∃ taken waiting,
    Carried gcm key s.channel taken waiting ∧ taken ++ waiting = s.asked)
    ⟨[], [], carried_init, rfl⟩ ?_ ops h
  rintro s op ⟨taken, waiting, hcarried, hkept⟩ htakes
  obtain ⟨taken', waiting', added, hcarried', hasked, hprogress⟩ := accounted_step hcarried op
  refine ⟨taken', waiting', hcarried', ?_⟩
  change _ = (step gcm key s op).asked
  rw [hprogress.eq_of_takes htakes, hasked, ← hkept, List.append_assoc]

end Accounts

section Delivery

/-- What has happened at the host comes from packets that ENet has been handed. -/
structure Delivered (s : Link) : Prop where
  bound : s.delivered ≤ (packets .reliableSequenced s.channel.sent).length
  ordered : s.ordered =
    ((packets .reliableSequenced s.channel.sent).take s.delivered).flatMap (atHost gcm key)
  loose : ∀ e ∈ s.loose, ∃ packet ∈ packets .unsequenced s.channel.sent, e ∈ atHost gcm key packet

variable {gcm key}

/-- More may be handed over. -/
theorem Delivered.grow {s s' : Link} (h : Delivered gcm key s)
    (hsent : s.channel.sent <+: s'.channel.sent) (hdelivered : s'.delivered = s.delivered)
    (hordered : s'.ordered = s.ordered) (hloose : s'.loose = s.loose) : Delivered gcm key s' := by
  obtain ⟨more, hmore⟩ := packets_mono .reliableSequenced hsent
  have hbound := h.bound
  refine ⟨?_, ?_, ?_⟩
  · rw [hdelivered, ← hmore, List.length_append]
    omega
  · rw [hordered, hdelivered, ← hmore, List.take_append_of_le_length hbound, h.ordered]
  · intro e he
    obtain ⟨packet, hpacket, heffect⟩ := h.loose e (hloose ▸ he)
    exact ⟨packet, (packets_mono .unsequenced hsent).subset hpacket, heffect⟩

theorem Delivered.change {s s' : Link} {op : Op} (h : Delivered gcm key s)
    (hchange : Change gcm key s op s') : Delivered gcm key s' := by
  cases hchange with
  | idle => exact h
  | event | set | command | skip => exact h.grow (List.prefix_refl _) rfl rfl rfl
  | input | ask | shutdown | drop | task =>
    exact h.grow (sent_step gcm key s.channel _) rfl rfl rfl
  | @deliver packet hpacket =>
    have hlt := (List.getElem?_eq_some_iff.mp hpacket).1
    refine ⟨hlt, ?_, h.loose⟩
    change s.ordered ++ atHost gcm key packet = _
    rw [List.take_add_one, hpacket, List.flatMap_append, ← h.ordered]
    exact congrArg (s.ordered ++ ·) (List.flatMap_singleton _ _).symm
  | @deliverLoose i packet hpacket =>
    refine ⟨h.bound, h.ordered, fun e he => ?_⟩
    rcases List.mem_append.mp he with hold | hnew
    · exact h.loose e hold
    · exact ⟨packet, List.mem_of_getElem? hpacket, hnew⟩

variable (gcm key) in
theorem delivered_run (ops : List Op) : Delivered gcm key ((machine gcm key).run ops) :=
  (machine gcm key).run_invariant ⟨Nat.zero_le _, rfl, nofun⟩
    (fun s op h => h.change (change_step gcm key s op)) ops

/-- What has been delivered in order is the beginning of what has been handed over. -/
theorem Delivered.ordered_initial {s : Link} (h : Delivered gcm key s) :
    s.ordered <+: orderly gcm key s.channel.sent := by
  rw [h.ordered]
  exact List.IsPrefix.flatMap (List.take_prefix _ _) _

end Delivery

section Lines

/-- ENet takes every message, and the reader has a live channel for every line. -/
def Smooth (s : Link) : Op → Prop
  | .task _ peer _ => peer = .connected true
  | .readLine => s.channel.hasHandle = true ∧ s.channel.shared.alive = true
  | _ => True

instance (s : Link) : (op : Op) → Decidable (Smooth s op)
  | .task _ peer _ => inferInstanceAs (Decidable (peer = .connected true))
  | .readLine => inferInstanceAs (Decidable (_ = true ∧ _ = true))
  | .key _ _ | .mouse _ _ _ _ | .set _ | .handleCommand | .requestIdr | .sendFecStatus _
  | .shutdown | .drop | .deliver | .deliverLoose _ => isTrue trivial

theorem Smooth.takes {s : Link} {op : Op} (h : Smooth s op) : op.Takes := by
  cases op with
  | task now peer service => exact h
  | key | mouse | set | handleCommand | readLine | requestIdr | sendFecStatus | shutdown | drop
  | deliver | deliverLoose => exact trivial

/-- The lines are those of the hook process, and some have been read. -/
structure Reading (s : Link) : Prop where
  coded : AllCoded s.hook
  read_le : s.read ≤ s.hook.out.length

/-- What has been read of the lines. -/
def Link.lines (s : Link) : List Line := s.hook.out.take s.read

/-- A step reads some lines and asks for inputs. These are what the lines say, or nothing
where the channel is not live. -/
def Passes (op : Op) (s s' : Link) : Prop :=
  ∃ lines got, s'.lines = s.lines ++ lines ∧
    s'.asked.flatMap actions = s.asked.flatMap actions ++ got ∧
      got.Sublist (lines.flatMap wanted) ∧ (Smooth s op → got = lines.flatMap wanted)

variable {gcm key} {s : Link}

theorem Passes.quiet {op : Op} {s s' : Link} (hlines : s'.lines = s.lines)
    (hasked : s'.asked.flatMap actions = s.asked.flatMap actions) : Passes op s s' :=
  ⟨[], [], hlines.trans (List.append_nil _).symm, hasked.trans (List.append_nil _).symm,
    List.Sublist.refl _, fun _ => rfl⟩

/-- A request that does nothing to the desktop. -/
theorem passes_send {op : Op} {r : Request} (hr : actions r = []) :
    Passes op s (s.send gcm key r) := by
  refine .quiet rfl ?_
  change (if _ then s.asked ++ [r] else s.asked).flatMap actions = _
  split
  · rw [List.flatMap_append, List.flatMap_singleton, hr, List.append_nil]
  · rfl

theorem Change.passes {op : Op} {s' : Link} (hchange : Change gcm key s op s') (h : Reading s) :
    Passes op s s' := by
  -- more lines do not change what has been read
  have hhook : ∀ ev, (Keyhook.step s.hook ev).out.take s.read = s.lines := by
    intro ev
    obtain ⟨more, hmore⟩ := out_step s.hook ev
    rw [← hmore, List.take_append_of_le_length h.read_le]
    rfl
  have htake : ∀ line, s.hook.out[s.read]? = some line →
      s.hook.out.take (s.read + 1) = s.lines ++ [line] := by
    intro line hline
    rw [List.take_add_one, hline]
    rfl
  cases hchange with
  | event ev => exact .quiet (hhook ev) rfl
  | command => exact .quiet (hhook _) rfl
  | idle | set | shutdown | drop | task | deliver | deliverLoose => exact .quiet rfl rfl
  | ask r hr => exact passes_send hr
  | @skip line hline hread =>
    have hcoded := h.coded line (List.mem_of_getElem? hline)
    refine ⟨[line], [], htake line hline, (List.append_nil _).symm, List.nil_sublist _, fun _ => ?_⟩
    rw [List.flatMap_singleton, wanted_of_handleLine hcoded hread]
  | @input line ev hline hread =>
    have hactions := actions_of_handleLine (h.coded line (List.mem_of_getElem? hline)) hread
    by_cases hlive : (s.channel.hasHandle && s.channel.shared.alive) = true
    · refine ⟨[line], wanted line, htake line hline, ?_, ?_, fun _ => ?_⟩
      · change (if _ then s.asked ++ [Request.input ev] else s.asked).flatMap actions = _
        rw [if_pos hlive, List.flatMap_append, List.flatMap_singleton, hactions]
      · rw [List.flatMap_singleton]
      · exact (List.flatMap_singleton _ _).symm
    · refine ⟨[line], [], htake line hline, ?_, List.nil_sublist _, fun hsmooth => ?_⟩
      · change (if _ then s.asked ++ [Request.input ev] else s.asked).flatMap actions = _
        rw [if_neg hlive, List.append_nil]
      · exact absurd (Bool.and_eq_true_iff.mpr hsmooth) hlive

theorem Reading.change {op : Op} {s' : Link} (h : Reading s) (hchange : Change gcm key s op s') :
    Reading s' := by
  have hhook : ∀ ev, s.read ≤ (Keyhook.step s.hook ev).out.length := fun ev =>
    h.read_le.trans (out_step s.hook ev).length_le
  cases hchange with
  | event ev => exact ⟨h.coded.step ev, hhook ev⟩
  | command => exact ⟨h.coded.step _, hhook _⟩
  | skip hline => exact ⟨h.coded, (List.getElem?_eq_some_iff.mp hline).1⟩
  | input hline => exact ⟨h.coded, (List.getElem?_eq_some_iff.mp hline).1⟩
  | idle | set | ask | shutdown | drop | task | deliver | deliverLoose =>
    exact ⟨h.coded, h.read_le⟩

variable (gcm key)

/-- The inputs that have been asked for come from the lines that were read. -/
theorem heard_run (ops : List Op) : Reading ((machine gcm key).run ops) ∧
    (((machine gcm key).run ops).asked.flatMap actions).Sublist
      (((machine gcm key).run ops).lines.flatMap wanted) := by
  refine (machine gcm key).run_invariant
    (I := fun s => Reading s ∧ (s.asked.flatMap actions).Sublist (s.lines.flatMap wanted))
    ⟨⟨nofun, Nat.zero_le _⟩, List.Sublist.refl _⟩ ?_ ops
  rintro s op ⟨hreading, hheard⟩
  have hchange := change_step gcm key s op
  obtain ⟨lines, got, hlines, hasked, hgot, -⟩ := hchange.passes hreading
  refine ⟨hreading.change hchange, ?_⟩
  change ((step gcm key s op).asked.flatMap actions).Sublist _
  rw [hasked]
  change List.Sublist _ ((step gcm key s op).lines.flatMap wanted)
  rw [hlines, List.flatMap_append]
  exact hheard.append hgot

/-- In a smooth run they are all that the lines say. -/
theorem heard_all (ops : List Op) (h : (machine gcm key).Along Smooth ops) :
    ((machine gcm key).run ops).asked.flatMap actions =
      ((machine gcm key).run ops).lines.flatMap wanted := by
  refine (Machine.run_invariant_along (m := machine gcm key) (C := Smooth)
    (I := fun s => Reading s ∧ s.asked.flatMap actions = s.lines.flatMap wanted)
    ⟨⟨nofun, Nat.zero_le _⟩, rfl⟩ ?_ ops h).2
  rintro s op ⟨hreading, hheard⟩ hsmooth
  have hchange := change_step gcm key s op
  obtain ⟨lines, got, hlines, hasked, -, hgot⟩ := hchange.passes hreading
  refine ⟨hreading.change hchange, ?_⟩
  change (step gcm key s op).asked.flatMap actions = (step gcm key s op).lines.flatMap wanted
  rw [hasked, hlines, List.flatMap_append, hheard, hgot hsmooth]

end Lines

section Settings

/-- The hook process is in a run of its own, and the commands of it are the settings of the
admin, as far as they have been read. -/
def Follows (s : Link) : Prop :=
  ∃ evs, s.hook = Keyhook.machine.run evs ∧
    commands evs ++ s.stdin.map readCommand = s.settings.map Setting.command

variable {gcm key} {s : Link}

theorem Follows.change {op : Op} {s' : Link} (h : Follows s) (hchange : Change gcm key s op s') :
    Follows s' := by
  obtain ⟨evs, hhook, hcommands⟩ := h
  have hstep : ∀ ev, Keyhook.step s.hook ev = Keyhook.machine.run (evs ++ [ev]) := by
    intro ev
    rw [Machine.run_concat, ← hhook]
    rfl
  have hlast : ∀ ev, commands (evs ++ [ev]) = commands evs ++ commands [ev] := fun ev =>
    List.filterMap_append
  cases hchange with
  | event ev hev =>
    refine ⟨evs ++ [ev], hstep ev, ?_⟩
    rw [hlast, hev, List.append_nil]
    exact hcommands
  | @command line rest hstdin =>
    refine ⟨evs ++ [.command (readCommand line)], hstep _, ?_⟩
    rw [hstdin, List.map_cons] at hcommands
    rw [hlast, ← hcommands, List.append_assoc]
    rfl
  | set setting =>
    refine ⟨evs, hhook, ?_⟩
    change commands evs ++ (s.stdin ++ [setting.text]).map readCommand =
      (s.settings ++ [setting]).map Setting.command
    rw [List.map_append, List.map_append, ← hcommands, ← List.append_assoc, List.map_singleton,
      readCommand_text, List.map_singleton]
  | idle | skip | input | ask | shutdown | drop | task | deliver | deliverLoose =>
    exact ⟨evs, hhook, hcommands⟩

variable (gcm key) in
theorem follows_run (ops : List Op) : Follows ((machine gcm key).run ops) :=
  (machine gcm key).run_invariant ⟨[], rfl, rfl⟩
    (fun s op h => h.change (change_step gcm key s op)) ops

end Settings

end KmControl.ControlLink
