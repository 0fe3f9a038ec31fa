import KmControl.Machine
import KmControl.Packetizer

/-!
The video task of the host: one loop over the datagrams of its socket, the
channel of encoded frames and a periodic tick, with the flags it shares with
other tasks. Times are nanoseconds. A send always succeeds here; what the
network does to the datagrams is not the task's business. Encoder outputs carry
their place in the order of outputs, and the frames handed to the socket are
listed, so that statements can refer to them; the loop reads neither.
-/
namespace KmControl.VideoTask

open GsProto Packetizer

structure EncodedFrame where
  data : Bytes
  isKeyFrame : Bool
  rtpTimestamp : UInt32
deriving DecidableEq, Repr

/-- A competing client is turned away this long after the last PING of the owner. -/
def ownerTimeout : ℕ := 2 * 10 ^ 9

/-- Without a PING for this long nothing is sent any more. -/
def quietLimit : ℕ := 3 * 10 ^ 9

/-- The tick comes after this long without another event. -/
def tickPeriod : ℕ := 10 ^ 9

/-- The capacity of the channel; a sender waits as long as it is full. -/
def channelCapacity : ℕ := 128

/-- An encoder output in the channel. -/
structure Queued where
  order : ℕ
  frame : EncodedFrame
deriving DecidableEq, Repr

/-- A frame handed to the socket. -/
structure Sent (rs : FecRs) (Addr : Type) extends Packetized rs where
  dst : Addr
  order : ℕ

structure Task (rs : FecRs) (Addr : Type) where
  clientAddr : Option Addr
  lastPing : ℕ
  frameNumber : UInt32
  counters : Counters
  /-- When the loop began to wait for its next event. -/
  waitingSince : ℕ
  /-- A fault of the packetizer ends the task. -/
  running : Bool
  queue : List Queued
  produced : ℕ
  sent : List (Sent rs Addr)
  /-- Flags shared with the encoder, the control channel and the PLAY handler. -/
  clientActive : Bool
  sessionReset : Bool
  idrReq : Bool

inductive Event (Addr : Type) where
  | datagram (addr : Addr) (payload : Bytes) (now : ℕ)
  | recvError (connReset : Bool) (now : ℕ)
  | takeFrame (fecPercentage : ℕ) (now : ℕ)
  | tick (now : ℕ)
  | encoded (frame : EncodedFrame)
  | play
  | requestIdr
  | takeIdr

namespace Task

variable {rs : FecRs} {Addr : Type} [DecidableEq Addr]

def new : Task rs Addr where
  clientAddr := none
  lastPing := 0
  frameNumber := 0
  counters := ⟨0, 0⟩
  waitingSince := 0
  running := true
  queue := []
  produced := 0
  sent := []
  clientActive := false
  sessionReset := false
  idrReq := false

def resetCounters (s : Task rs Addr) : Task rs Addr :=
  { s with frameNumber := 0, counters := ⟨0, 0⟩ }

def ownerActive (s : Task rs Addr) (addr : Addr) (now : ℕ) : Bool :=
  s.clientAddr.isSome && decide (s.clientAddr ≠ some addr) &&
    decide (now - s.lastPing < ownerTimeout)

/-- A PING registers its sender, unless another client is active. -/
def onPing (s : Task rs Addr) (addr : Addr) (now : ℕ) : Task rs Addr :=
  if s.ownerActive addr now then s
  else
    let s := if s.clientAddr ≠ some addr then s.resetCounters else s
    { s with clientAddr := some addr, lastPing := now, clientActive := true }

/-- Echoed probes only feed the bitrate controller; other datagrams are ignored. -/
def onDatagram (s : Task rs Addr) (addr : Addr) (payload : Bytes) (now : ℕ) : Task rs Addr :=
  if payload = pingPayload then s.onPing addr now else s

def dropClient (s : Task rs Addr) : Task rs Addr :=
  { s with clientAddr := none, clientActive := false }

/-- Only a reset connection drops the client, other errors are logged. -/
def onRecvError (s : Task rs Addr) (connReset : Bool) : Task rs Addr :=
  if connReset ∧ s.clientAddr.isSome then s.dropClient else s

/-- What the packetizer is called with for an encoder output. -/
def frameOf (s : Task rs Addr) (packetSize fecPercentage : ℕ) (frame : EncodedFrame) : Frame where
  encodedData := frame.data
  isKeyFrame := frame.isKeyFrame
  requestedPacketSize := packetSize
  frameNumber := s.frameNumber + 1
  rtpTimestamp := frame.rtpTimestamp
  fecPercentage := fecPercentage

/-- The counters start over if a new PLAY asked for it. -/
def takeReset (s : Task rs Addr) : Task rs Addr :=
  if s.sessionReset then { s.resetCounters with sessionReset := false } else s

/-- Take the next frame; if more are waiting, only the newest one is sent. -/
def onFrame (packetSize : ℕ) (s : Task rs Addr) (fecPercentage : ℕ) : Task rs Addr :=
  match s.queue with
  | [] => s
  | first :: rest =>
    match s.clientAddr with
    | none => { s with queue := rest }
    | some dst =>
      let s := s.takeReset
      let newest := rest.getLastD first
      let f := s.frameOf packetSize fecPercentage newest.frame
      match packetize rs f s.counters with
      | some (p, counters) =>
        { s with
          queue := [], frameNumber := s.frameNumber + 1, counters := counters,
          sent := s.sent ++ [{ p with dst := dst, order := newest.order }] }
      | none => { s with running := false }

def onTick (s : Task rs Addr) (now : ℕ) : Task rs Addr :=
  if s.clientAddr.isSome ∧ quietLimit < now - s.lastPing then s.dropClient else s

/-- The encoder puts a frame into the channel; it waits while that is full. -/
def onEncoded (s : Task rs Addr) (frame : EncodedFrame) : Task rs Addr :=
  if s.queue.length < channelCapacity then
    { s with queue := s.queue ++ [⟨s.produced, frame⟩], produced := s.produced + 1 }
  else s

end Task

variable {rs : FecRs} {Addr : Type} [DecidableEq Addr]

/-- What a running task does with an event. -/
def handle (packetSize : ℕ) (s : Task rs Addr) : Event Addr → Task rs Addr
  | .datagram addr payload now => { s.onDatagram addr payload now with waitingSince := now }
  | .recvError connReset now => { s.onRecvError connReset with waitingSince := now }
  | .takeFrame fecPercentage now =>
    if s.queue = [] then s else { s.onFrame packetSize fecPercentage with waitingSince := now }
  | .tick now =>
    if s.waitingSince + tickPeriod ≤ now then { s.onTick now with waitingSince := now } else s
  | .encoded frame => s.onEncoded frame
  | .play => { s with sessionReset := true, idrReq := true }
  | .requestIdr => { s with idrReq := true }
  | .takeIdr => { s with idrReq := false }

def step (packetSize : ℕ) (s : Task rs Addr) (ev : Event Addr) : Task rs Addr :=
  if s.running then handle packetSize s ev else s

def machine (rs : FecRs) (Addr : Type) [DecidableEq Addr] (packetSize : ℕ) :
    Machine (Task rs Addr) (Event Addr) where
  init := Task.new
  step := step packetSize

end KmControl.VideoTask
