import Mathlib.Algebra.Group.Nat.Defs
import Mathlib.Data.Nat.Notation

/-!
What a client negotiates for its stream. The session description names the
parameters; the hook that a PLAY request runs puts defaults in the place of
zeros and derives the bitrate of the encoder from them. Reading an attribute
(the parser of the description and of numbers) is an argument.
-/
namespace KmControl.Negotiation

/-- The attributes of the session description that are read. -/
inductive Attribute where
  | clientViewportWd
  | clientViewportHt
  | maxFPS
  | packetSize
  | configuredBitrateKbps
  | bitStreamFormat
deriving DecidableEq, Repr

structure StreamContext where
  width : UInt32
  height : UInt32
  fps : UInt32
  packetSize : UInt32
  bitrateBps : UInt32
  videoFormat : UInt32
deriving DecidableEq, Repr

def saturatingMul (a b : UInt32) : UInt32 := UInt32.ofNat (Nat.min (a.toNat * b.toNat) (2 ^ 32 - 1))

/-- The context that a description negotiates; `sdpAttr` gives the attributes that are
there and hold a number. -/
def negotiate (sdpAttr : Attribute → Option UInt32) : StreamContext where
  width := (sdpAttr .clientViewportWd).getD 0
  height := (sdpAttr .clientViewportHt).getD 0
  fps := (sdpAttr .maxFPS).getD 60
  packetSize := (sdpAttr .packetSize).getD 1024
  bitrateBps := saturatingMul ((sdpAttr .configuredBitrateKbps).getD 10000) 1000
  videoFormat := (sdpAttr .bitStreamFormat).getD 0

/-- ANNOUNCE; a description that cannot be parsed is refused. -/
def announce (context : Option StreamContext) (sdp : Option (Attribute → Option UInt32)) :
    Option StreamContext :=
  match sdp with
  | none => context
  | some sdpAttr => some (negotiate sdpAttr)

/-- The context that a PLAY request hands to its hook. -/
def play (context : Option StreamContext) : StreamContext :=
  context.getD ⟨0, 0, 0, 0, 0, 0⟩

namespace StreamContext

variable (ctx : StreamContext)

/-- The packet size the video task is started with. -/
def requestedPacketSize : ℕ := if ctx.packetSize = 0 then 1024 else ctx.packetSize.toNat

def frameRate : ℕ := if ctx.fps = 0 then 120 else ctx.fps.toNat

/-- Pixels for each second, in a 64-bit word. -/
def pxRate (w h : ℕ) : ℕ := w * h * ctx.frameRate % 2 ^ 64

/-- A tenth of a bit for every pixel, at most 60 Mbit/s. -/
def bitrateFloor (w h : ℕ) : UInt32 := UInt32.ofNat (Nat.min (ctx.pxRate w h / 10) 60000000)

/-- The bitrate that a client asks for. -/
def negotiatedBitrate : UInt32 := if ctx.bitrateBps = 0 then 15000000 else ctx.bitrateBps

/-- The bitrate of the encoder for pictures of `w` by `h`. -/
def encoderBitrate (w h : ℕ) : UInt32 :=
  let negotiated := ctx.negotiatedBitrate
  if negotiated < ctx.bitrateFloor w h then ctx.bitrateFloor w h else negotiated

end StreamContext

/-- Any size can be negotiated. -/
theorem packetSize_negotiate (size : UInt32) (sdpAttr : Attribute → Option UInt32)
    (h : sdpAttr .packetSize = some size) : (negotiate sdpAttr).packetSize = size := by
  simp only [negotiate, h, Option.getD_some]

end KmControl.Negotiation
