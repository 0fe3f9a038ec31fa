import KmControl.Broadcast
import KmControl.Machine
import KmControl.SpsScan

/-!
The viewers of a stream: the local server that passes the access units on, with one task for
each WebSocket, and the page at its other end. A task that has fallen behind asks for a key
frame and goes on with the oldest access unit that the channel still holds.
-/
namespace KmControl.Viewers

open Broadcast

section Page

/-- What is handed to the decoder. -/
structure Chunk where
  key : Bool
  timestamp : ℕ
  data : Bytes
deriving DecidableEq

structure Page where
  alive : Bool := true
  /-- The codec that the decoder is configured with. -/
  codec : Option (List Char) := none
  ts : ℕ := 0
  /-- The chunks that `decode` was called with. -/
  given : List Chunk := []

def hevcCodec : List Char := "hvc1.1.6.L153.B0".toList

/-- The name of the codec by the first key frame. -/
def codecOf (hevc : Bool) (data : Bytes) : List Char :=
  if hevc then hevcCodec else (SpsScan.codecFromSps data).getD "avc1.42E01F".toList

/-- The first byte of a message is the type of the frame. -/
def isKey (message : Bytes) : Bool := decide (message.head? = some 1)

/-- The time goes on unless `decode` throws. -/
def Page.decode (page : Page) (message : Bytes) (decoded : Bool) : Page :=
  { page with
    given := page.given ++ [⟨isKey message, page.ts, message.drop 1⟩]
    ts := if decoded then page.ts + 16666 else page.ts }

/-- Deltas before the first key frame are dropped; the decoder is configured by that frame,
unless `configure` throws. -/
def Page.onMessage (hevc : Bool) (page : Page) (message : Bytes) (configured decoded : Bool) :
    Page :=
  match page.codec with
  | some _ => page.decode message decoded
  | none =>
    if isKey message && configured then
      { page with codec := some (codecOf hevc (message.drop 1)) }.decode message decoded
    else page

end Page

section Server

def capacity : ℕ := 512

inductive Phase where
  /-- Subscribed, and not yet a WebSocket. -/
  | upgrading
  | serving
  | closed
deriving DecidableEq

structure Viewer where
  phase : Phase := .upgrading
  /-- The next access unit to receive. -/
  next : ℕ
  /-- The messages sent so far. -/
  passed : List Bytes := []
  /-- How many of them the page has handled. -/
  handled : ℕ := 0
  page : Page := {}

structure State where
  /-- What the channel has taken. -/
  sent : List Bytes := []
  /-- In the order in which they came. -/
  viewers : List Viewer := []
  /-- The requests for a key frame: for which viewer, and how many access units the channel
  had taken. -/
  requests : List (ℕ × ℕ) := []

inductive Op where
  /-- An access unit of the stream. -/
  | broadcast (frame : Bytes)
  | accept
  | upgrade (v : ℕ) (ok : Bool)
  /-- The task of a viewer receives, and sends if there is something to send. -/
  | receive (v : ℕ) (ok : Bool)
  /-- The other end closes the WebSocket or breaks off. -/
  | hangUp (v : ℕ)
  | message (v : ℕ) (configured decoded : Bool)
  | leave (v : ℕ)

namespace State

def set (s : State) (v : ℕ) (viewer : Viewer) : State :=
  { s with viewers := s.viewers.set v viewer }

def requestIdr (s : State) (v : ℕ) (idr : Bool) : State :=
  if idr then { s with requests := s.requests ++ [(v, s.sent.length)] } else s

/-- What nobody is subscribed to is not kept. -/
def broadcast (s : State) (frame : Bytes) : State :=
  if s.viewers.any fun viewer => decide (viewer.phase ≠ .closed) then
    { s with sent := s.sent ++ [frame] }
  else s

/-- The task of a viewer after `accept_async`. -/
def upgrade (idrOnConnect : Bool) (s : State) (v : ℕ) (viewer : Viewer) (ok : Bool) : State :=
  if viewer.phase ≠ .upgrading then s
  else if ok then (s.set v { viewer with phase := .serving }).requestIdr v idrOnConnect
  else s.set v { viewer with phase := .closed }

def receive (idrOnConnect : Bool) (s : State) (v : ℕ) (viewer : Viewer) (ok : Bool) : State :=
  if viewer.phase ≠ .serving then s
  else match recv capacity s.sent viewer.next with
    | (.empty, _) => s
    | (.value frame, next) =>
      if ok then s.set v { viewer with next := next, passed := viewer.passed ++ [frame] }
      else s.set v { viewer with next := next, phase := .closed }
    | (.lagged, next) => (s.set v { viewer with next := next }).requestIdr v idrOnConnect

/-- The page handles the next message, as long as it is there. -/
def message (hevc : Bool) (s : State) (v : ℕ) (viewer : Viewer) (configured decoded : Bool) :
    State :=
  match viewer.passed[viewer.handled]? with
  | some message =>
    if viewer.page.alive then
      s.set v { viewer with
        handled := viewer.handled + 1
        page := viewer.page.onMessage hevc message configured decoded }
    else s
  | none => s

def step (idrOnConnect hevc : Bool) (s : State) : Op → State
  | .broadcast frame => s.broadcast frame
  | .accept => { s with viewers := s.viewers ++ [{ next := s.sent.length }] }
  | .upgrade v ok => (s.viewers[v]?).elim s fun viewer => s.upgrade idrOnConnect v viewer ok
  | .receive v ok => (s.viewers[v]?).elim s fun viewer => s.receive idrOnConnect v viewer ok
  | .hangUp v => (s.viewers[v]?).elim s fun viewer => s.set v { viewer with phase := .closed }
  | .message v configured decoded =>
    (s.viewers[v]?).elim s fun viewer => s.message hevc v viewer configured decoded
  | .leave v => (s.viewers[v]?).elim s fun viewer =>
      s.set v { viewer with page := { viewer.page with alive := false } }

end State

def machine (idrOnConnect hevc : Bool) : Machine State Op := ⟨{}, State.step idrOnConnect hevc⟩

def State.received (s : State) (v : ℕ) (viewer : Viewer) (ok : Bool) : Option (ℕ × Note) :=
  if viewer.phase ≠ .serving then none
  else match recv capacity s.sent viewer.next with
    | (.empty, _) => none
    | (.value _, _) => if ok then some (v, .got viewer.next) else none
    | (.lagged, _) => some (v, .lagged s.sent.length)

/-- What a viewer's task notes about the channel. -/
def note (s : State) : Op → Option (ℕ × Note)
  | .receive v ok => (s.viewers[v]?).bind fun viewer => s.received v viewer ok
  | _ => none

def notesOf (v : ℕ) (log : List (ℕ × Note)) : List Note :=
  (log.filterMap fun e => if e.1 = v then some e.2 else none).reverse

/-- The notes of a viewer's task in a run. -/
def notes (idrOnConnect hevc : Bool) (v : ℕ) (ops : List Op) : List Note :=
  notesOf v ((machine idrOnConnect hevc).log note ops)

end Server

section Steps

variable {idrOnConnect hevc : Bool} {s : State} {op : Op} {v : ℕ} {viewer : Viewer}

/-- What can become of one viewer: what its task notes, and whether it asks for a key frame. -/
inductive Move (idrOnConnect hevc : Bool) (s : State) (viewer : Viewer) :
    Viewer → Option Note → Bool → Prop
  | opened (h : viewer.phase = .upgrading) :
      Move idrOnConnect hevc s viewer { viewer with phase := .serving } none idrOnConnect
  | closed : Move idrOnConnect hevc s viewer { viewer with phase := .closed } none false
  | got (frame : Bytes) (h : viewer.phase = .serving) (hframe : s.sent[viewer.next]? = some frame) :
      Move idrOnConnect hevc s viewer
        { viewer with next := viewer.next + 1, passed := viewer.passed ++ [frame] }
        (some (.got viewer.next)) false
  | failed (next : ℕ) :
      Move idrOnConnect hevc s viewer { viewer with next := next, phase := .closed } none false
  | lagged (h : viewer.phase = .serving) (hbehind : viewer.next + capacity < s.sent.length) :
      Move idrOnConnect hevc s viewer { viewer with next := s.sent.length - capacity }
        (some (.lagged s.sent.length)) idrOnConnect
  | message (message : Bytes) (configured decoded : Bool)
      (h : viewer.passed[viewer.handled]? = some message) :
      Move idrOnConnect hevc s viewer
        { viewer with
          handled := viewer.handled + 1
          page := viewer.page.onMessage hevc message configured decoded } none false
  | left : Move idrOnConnect hevc s viewer
      { viewer with page := { viewer.page with alive := false } } none false

/-- What a step can do to the server. -/
inductive Effect (idrOnConnect hevc : Bool) (s : State) : State → Option (ℕ × Note) → Prop
  | same : Effect idrOnConnect hevc s s none
  | sent (frame : Bytes) : Effect idrOnConnect hevc s { s with sent := s.sent ++ [frame] } none
  | accepted : Effect idrOnConnect hevc s
      { s with viewers := s.viewers ++ [{ next := s.sent.length }] } none
  | moved (v : ℕ) {viewer viewer' : Viewer} {note : Option Note} {asks : Bool}
      (h : s.viewers[v]? = some viewer)
      (hmove : Move idrOnConnect hevc s viewer viewer' note asks) :
      Effect idrOnConnect hevc s ((s.set v viewer').requestIdr v asks)
        (note.map fun note => (v, note))

theorem effect_receive (h : s.viewers[v]? = some viewer) (ok : Bool) :
    Effect idrOnConnect hevc s (s.receive idrOnConnect v viewer ok) (s.received v viewer ok) := by
  unfold State.receive State.received
  by_cases hserving : viewer.phase = .serving
  · rw [if_neg (not_not.mpr hserving), if_neg (not_not.mpr hserving)]
    rcases recv_cases capacity s.sent viewer.next with ⟨hbehind, hrecv⟩ | ⟨frame, hframe, hrecv⟩ |
      ⟨-, hrecv⟩
    · rw [hrecv]
      exact .moved v h (.lagged hserving hbehind)
    · rw [hrecv]
      cases ok with
      | true => exact .moved v h (.got frame hserving hframe)
      | false => exact .moved v h (.failed _)
    · rw [hrecv]
      exact .same
  · rw [if_pos hserving, if_pos hserving]
    exact .same

theorem effect_upgrade (h : s.viewers[v]? = some viewer) (ok : Bool) :
    Effect idrOnConnect hevc s (s.upgrade idrOnConnect v viewer ok) none := by
  unfold State.upgrade
  by_cases hphase : viewer.phase = .upgrading
  · rw [if_neg (not_not.mpr hphase)]
    cases ok with
    | true => exact .moved v h (.opened hphase)
    | false => exact .moved v h .closed
  · rw [if_pos hphase]
    exact .same

theorem effect_message (h : s.viewers[v]? = some viewer) (configured decoded : Bool) :
    Effect idrOnConnect hevc s (s.message hevc v viewer configured decoded) none := by
  unfold State.message
  split
  · rename_i message hmessage
    split
    · exact .moved v h (.message message configured decoded hmessage)
    · exact .same
  · exact .same

/-- A step of a viewer that there is. -/
theorem effect_elim {f : Viewer → State}
    (h : ∀ viewer, s.viewers[v]? = some viewer → Effect idrOnConnect hevc s (f viewer) none) :
    Effect idrOnConnect hevc s ((s.viewers[v]?).elim s f) none := by
  cases hv : s.viewers[v]? with
  | none => exact .same
  | some viewer => exact h viewer hv

theorem effect_step (idrOnConnect hevc : Bool) (s : State) (op : Op) :
    Effect idrOnConnect hevc s (s.step idrOnConnect hevc op) (note s op) := by
  cases op with
  | broadcast frame =>
    change Effect idrOnConnect hevc s (s.broadcast frame) none
    unfold State.broadcast
    split
    · exact .sent frame
    · exact .same
  | accept => exact .accepted
  | upgrade v ok => exact effect_elim fun viewer h => effect_upgrade h ok
  | receive v ok =>
    change Effect idrOnConnect hevc s ((s.viewers[v]?).elim s _) ((s.viewers[v]?).bind _)
    cases h : s.viewers[v]? with
    | none => exact .same
    | some viewer => exact effect_receive h ok
  | hangUp v => exact effect_elim fun viewer h => .moved v h .closed
  | message v configured decoded =>
    exact effect_elim fun viewer h => effect_message h configured decoded
  | leave v => exact effect_elim fun viewer h => .moved v h .left

end Steps

end KmControl.Viewers
