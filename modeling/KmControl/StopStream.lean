import KmControl.ControlRoundTrip
import KmControl.KeyhookSteps

/-!
The end of a stream. A release that the hook process makes on the admin's command
travels through a pipe to the reader thread, through the control queue to the
control task, and over the link to the host; the admin tears this path down right
after the command. The link neither loses nor reorders input, and the host stays
connected until the control task ends.
-/
namespace KmControl.StopStream

open ByteFields ControlRoundTrip Held HostControl Keyhook KeyhookSteps MoonControl

/-- The input event that a line of the hook process stands for; hover lines are for
the window only. -/
def handleLine : Line → Option InputEvent
  | .key code down => some (.key code.toUInt16.toInt16 down 0)
  | .mouseMove x y w h => some (.mousePosition x.toInt16 y.toInt16 w.toInt16 h.toInt16)
  | .button number down => some (.mouseButton number down)
  | .scroll amount => some (.scroll amount)
  | .hover _ => none

inductive Cmd where
  | msg (ev : InputEvent)
  | shutdown
deriving DecidableEq, Repr

/-- How far `stop_stream` has come: not called, `s0` written, the channel marked dead,
and `Shutdown` sent, after which it returns. -/
inductive Stop where
  | idle
  | written
  | dead
  | returned
deriving DecidableEq, Repr

structure State where
  hook : Sidecar
  /-- The lines of the hook process that it has not read. -/
  stdin : List Command
  /-- How many lines of the hook process the reader has taken. -/
  read : ℕ
  /-- What the reader is about to send, having found the channel alive. -/
  pending : Option InputEvent
  alive : Bool
  queue : List Cmd
  /-- The control task is in its loop. -/
  running : Bool
  link : List Bytes
  /-- What the host has injected. -/
  injected : List Action
  stop : Stop

inductive Op where
  | key (vk : VkCode) (down : Bool)
  | mouse (message : MouseMessage) (mouseData : UInt32) (px py : Int32)
  /-- Some part of the admin writes to the hook process. -/
  | write (c : Command)
  | handleCommand
  | readLine
  | enqueue
  /-- The next step of `stop_stream`. -/
  | stopStream
  | drain
  | deliver

namespace State

def new : State where
  hook := Sidecar.new
  stdin := []
  read := 0
  pending := none
  alive := true
  queue := []
  running := true
  link := []
  injected := []
  stop := Stop.idle

def handleCommand (s : State) : State :=
  match s.stdin with
  | [] => s
  | c :: rest => { s with hook := Keyhook.step s.hook (.command c), stdin := rest }

/-- The reader takes a line and looks whether the channel is alive; on a dead channel the
event is dropped. -/
def readLine (s : State) : State :=
  match s.pending, s.hook.out[s.read]? with
  | none, some line =>
    { s with read := s.read + 1, pending := if s.alive then handleLine line else none }
  | _, _ => s

/-- Sending fails without notice once the task has dropped its end of the queue. -/
def send (s : State) (cmd : Cmd) : State :=
  if s.running then { s with queue := s.queue ++ [cmd] } else s

@[simp] theorem send_stop (s : State) (cmd : Cmd) : (s.send cmd).stop = s.stop := by
  unfold send
  split <;> rfl

def enqueue (s : State) : State :=
  match s.pending with
  | some ev => { s with pending := none }.send (.msg ev)
  | none => s

def stopStream (s : State) : State :=
  match s.stop with
  | .idle => { s with stdin := s.stdin ++ [.streaming false], stop := .written }
  | .written => { s with alive := false, stop := .dead }
  | .dead => { s with stop := .returned }.send .shutdown
  | .returned => s

/-- On `Shutdown` the task leaves its loop, and what is behind it in the queue is lost. -/
def drain (s : State) : State :=
  match s.queue with
  | [] => s
  | .msg ev :: rest => { s with queue := rest, link := s.link ++ [encodeInput ev] }
  | .shutdown :: _ => { s with queue := [], running := false, alive := false }

def deliver (s : State) : State :=
  match s.link with
  | [] => s
  | payload :: rest =>
    { s with link := rest, injected := s.injected ++ (parseInput payload).toList }

end State

def step (s : State) : Op → State
  | .key vk down => { s with hook := Keyhook.step s.hook (.key vk down) }
  | .mouse message mouseData px py =>
    { s with hook := Keyhook.step s.hook (.mouse message mouseData px py) }
  | .write c => { s with stdin := s.stdin ++ [c] }
  | .handleCommand => s.handleCommand
  | .readLine => s.readLine
  | .enqueue => s.enqueue
  | .stopStream => s.stopStream
  | .drain => s.drain
  | .deliver => s.deliver

def machine : Machine State Op where
  init := State.new
  step := step

/-- What an action presses or lifts on the host. -/
def strokeOfAction : Action → Option (Stroke Control)
  | .key vk down => some ⟨Control.key vk.toUInt32, down⟩
  | .mouseButton button down => some ⟨Control.button button, down⟩
  | _ => none

/-- The actions leave no key or button down. -/
def AllUp (actions : List Action) : Prop :=
  ∀ c, held (actions.filterMap strokeOfAction) c = false

instance (actions : List Action) : Decidable (AllUp actions) :=
  decidable_of_iff _ forall_held_iff.symm

/-- `stop_stream` has returned, and every pipe and queue is empty. -/
structure Finished (s : State) : Prop where
  returned : s.stop = Stop.returned
  stdin : s.stdin = []
  read : s.read = s.hook.out.length
  pending : s.pending = none
  queue : s.queue = []
  link : s.link = []

def beforeShutdown : List Cmd → List InputEvent
  | [] => []
  | .msg ev :: rest => ev :: beforeShutdown rest
  | .shutdown :: _ => []

/-- What the host has injected and what it will inject for the messages that have gone
into the queue ahead of `Shutdown`. -/
def accepted (s : State) : List Action :=
  s.injected ++ (s.link.filterMap parseInput ++ (beforeShutdown s.queue).map meant)

/-- When `stop_stream` sends `Shutdown`, the ups of all controls whose downs are in the
queue or past it are there too. -/
def Settled (s : State) (op : Op) : Prop :=
  op = Op.stopStream → s.stop = Stop.dead → AllUp (accepted s)

end KmControl.StopStream
