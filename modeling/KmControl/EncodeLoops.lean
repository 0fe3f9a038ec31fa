import KmControl.Encoders
import KmControl.Machine

/-!
The two encode loops of the capture module. Other tasks may set the flag `idr_req`
between any two of a loop's calls, so each call that can fail or wait is an event
of its own that brings its result; an event that does not fit the phase of the
loop changes nothing. `submitted` lists the frames taken by the encoder, `true`
for a forced IDR; the loops do not read it.
-/
namespace KmControl.EncodeLoops

open Encoders

/-- The target bitrate is looked at once in so many frames. -/
def pollEvery : ℕ := 30

/-- What a loop reads at its head: the flags, the target bitrate and whether a codec
could be built. -/
structure Head where
  stop : Bool
  clientActive : Bool
  target : UInt32
  now : ℕ
  built : Bool
deriving DecidableEq, Repr

namespace ZeroCopy

/-- The phases of one pass; from the acquisition on they carry the flag that was taken. -/
inductive Phase where
  | head
  | acquire (idr : Bool)
  | convert (idr : Bool)
  | stage (idr : Bool)
  | submit (idr : Bool)
  | stopped
deriving DecidableEq, Repr

structure Loop where
  encoder : ZeroCopyEncoder
  frames : ℕ
  phase : Phase
  idrReq : Bool
  submitted : List Bool
deriving DecidableEq, Repr

inductive Event where
  | requestIdr
  | start (head : Head)
  /-- `some true`: acquired, `some false`: timed out, `none`: an error. -/
  | acquired (result : Option Bool)
  | converted (ok : Bool)
  | staged (ok : Bool)
  | submitted (sendFrame receivePacket channelClosed : Bool)
deriving DecidableEq, Repr

def Loop.new (encoder : ZeroCopyEncoder) : Loop where
  encoder := encoder
  frames := 0
  phase := Phase.head
  idrReq := false
  submitted := []

/-- The flag is taken before the loop waits for a picture. -/
def Loop.begin (s : Loop) (h : Head) : Loop :=
  if h.stop then { s with phase := Phase.stopped }
  else if !h.clientActive then s
  else
    let encoder := if s.frames % pollEvery = 0 ∧ h.target ≠ 0 then
      s.encoder.setBitrate h.target h.now h.built else s.encoder
    { s with encoder := encoder, phase := Phase.acquire s.idrReq, idrReq := false }

/-- Packets go into the channel; if it is closed the loop ends. -/
def Loop.submit (s : Loop) (idr sendFrame receivePacket channelClosed : Bool) : Loop :=
  match s.encoder.submit idr sendFrame receivePacket with
  | (encoder, some forced) =>
    if channelClosed then
      { s with encoder := encoder, phase := Phase.stopped, submitted := s.submitted ++ [forced] }
    else
      { s with
        encoder := encoder, frames := s.frames + 1, phase := Phase.head,
        submitted := s.submitted ++ [forced] }
  | (encoder, none) =>
    { s with encoder := encoder, frames := s.frames + 1, phase := Phase.head }

def step (s : Loop) (ev : Event) : Loop :=
  match s.phase, ev with
  | _, .requestIdr => { s with idrReq := true }
  | .head, .start h => s.begin h
  | .acquire idr, .acquired (some true) => { s with phase := Phase.convert idr }
  | .acquire _, .acquired _ => { s with phase := Phase.head }
  | .convert idr, .converted true => { s with phase := Phase.stage idr }
  | .convert _, .converted false => { s with phase := Phase.head }
  | .stage idr, .staged true =>
    { s with encoder := s.encoder.stage, phase := Phase.submit idr }
  | .stage _, .staged false => { s with encoder := s.encoder.stage, phase := Phase.head }
  | .submit idr, .submitted sendFrame receivePacket channelClosed =>
    s.submit idr sendFrame receivePacket channelClosed
  | _, _ => s

def machine (encoder : ZeroCopyEncoder) : Machine Loop Event where
  init := Loop.new encoder
  step := step

end ZeroCopy

namespace Ram

inductive Phase where
  /-- Waiting for the first picture. -/
  | first
  | head
  | encode
  | stopped
deriving DecidableEq, Repr

structure Loop where
  encoder : QsvEncoder
  /-- The bytes of the picture in the buffer. -/
  size : ℕ
  frames : ℕ
  phase : Phase
  idrReq : Bool
  submitted : List Bool
deriving DecidableEq, Repr

inductive Event where
  | requestIdr
  | load (stop : Bool) (picture : Option ℕ)
  | start (head : Head) (picture : Option ℕ)
  | encoded (sendFrame channelClosed : Bool)
deriving DecidableEq, Repr

/-- The first frame is a forced IDR. -/
def Loop.new (encoder : QsvEncoder) : Loop where
  encoder := encoder.requestIdr
  size := 0
  frames := 0
  phase := Phase.first
  idrReq := false
  submitted := []

def Loop.load (s : Loop) (stop : Bool) (picture : Option ℕ) : Loop :=
  if stop then { s with phase := Phase.stopped }
  else match picture with
    | some size => { s with size := size, phase := Phase.head }
    | none => s

/-- A picture is awaited before the flag is taken; without a new one the last one
is encoded again. -/
def Loop.begin (s : Loop) (h : Head) (picture : Option ℕ) : Loop :=
  if h.stop then { s with phase := Phase.stopped }
  else if !h.clientActive then s
  else
    let encoder := if s.frames % pollEvery = 0 ∧ h.target ≠ 0 then
      s.encoder.setBitrate h.target h.now h.built else s.encoder
    { s with
      encoder := if s.idrReq then encoder.requestIdr else encoder,
      size := picture.getD s.size, phase := Phase.encode, idrReq := false }

def Loop.encode (s : Loop) (sendFrame channelClosed : Bool) : Loop :=
  match s.encoder.encode s.size sendFrame with
  | (encoder, some forced) =>
    if channelClosed then
      { s with encoder := encoder, phase := Phase.stopped, submitted := s.submitted ++ [forced] }
    else
      { s with
        encoder := encoder, frames := s.frames + 1, phase := Phase.head,
        submitted := s.submitted ++ [forced] }
  | (encoder, none) =>
    { s with encoder := encoder, frames := s.frames + 1, phase := Phase.head }

def step (s : Loop) (ev : Event) : Loop :=
  match s.phase, ev with
  | _, .requestIdr => { s with idrReq := true }
  | .first, .load stop picture => s.load stop picture
  | .head, .start h picture => s.begin h picture
  | .encode, .encoded sendFrame channelClosed => s.encode sendFrame channelClosed
  | _, _ => s

def machine (encoder : QsvEncoder) : Machine Loop Event where
  init := Loop.new encoder
  step := step

end Ram

end KmControl.EncodeLoops
