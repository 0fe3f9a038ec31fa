import Mathlib.Data.Nat.Notation

/-!
The two hardware encoders of the host: `QsvEncoder`, fed from memory, and
`ZeroCopyEncoder`, fed from textures. What the codec library answers is an
argument of the calls. Both rebuild their codec for a new bitrate by the same
rule. Times are milliseconds.
-/
namespace KmControl.Encoders

/-- A bitrate this low is taken over at once. -/
def urgentBitrate : UInt32 := 1_200_000

def absDiff (a b : UInt32) : UInt32 := if a < b then b - a else a - b

section Rule

variable (cur bitrateBps : UInt32)

def goingDown : Bool := decide (bitrateBps < cur)

def urgentDown : Bool := goingDown cur bitrateBps && decide (bitrateBps ≤ urgentBitrate)

def thresholdPct : UInt32 := if goingDown cur bitrateBps then 15 else 40

/-- The comparison in `u32`, which wraps. -/
def changedEnough : Bool :=
  decide (cur * thresholdPct cur bitrateBps ≤ absDiff bitrateBps cur * 100)

def minInterval : ℕ := if goingDown cur bitrateBps then 2000 else 8000

/-- Whether `set_bitrate` builds a new codec. -/
def reconfigures (elapsed : ℕ) : Bool :=
  if !changedEnough cur bitrateBps && !urgentDown cur bitrateBps then false
  else if !urgentDown cur bitrateBps && decide (elapsed < minInterval cur bitrateBps) then false
  else true

end Rule

structure QsvEncoder where
  width : ℕ
  height : ℕ
  bitrate : UInt32
  pts : ℕ
  forceIdr : Bool
  lastReconfig : ℕ
deriving DecidableEq, Repr

namespace QsvEncoder

def newCodec (width height : ℕ) (bitrateBps : UInt32) (now : ℕ) : QsvEncoder where
  width := width
  height := height
  bitrate := bitrateBps
  pts := 0
  forceIdr := false
  lastReconfig := now

/-- The first frame of a new codec is forced to be a key frame; if the codec cannot
be built the old one stays. -/
def setBitrate (e : QsvEncoder) (bitrateBps : UInt32) (now : ℕ) (built : Bool) : QsvEncoder :=
  if reconfigures e.bitrate bitrateBps (now - e.lastReconfig) && built then
    { e with bitrate := bitrateBps, pts := 0, forceIdr := true, lastReconfig := now }
  else e

def requestIdr (e : QsvEncoder) : QsvEncoder := { e with forceIdr := true }

/-- The bytes of one picture. -/
def expected (e : QsvEncoder) : ℕ := e.width * e.height * 3 / 2

/-- Encode a buffer of `size` bytes. The result says whether the frame was sent as
a forced IDR, or is `none` if the call failed. -/
def encode (e : QsvEncoder) (size : ℕ) (sendFrame : Bool) : QsvEncoder × Option Bool :=
  if size < e.expected then (e, none)
  else
    ({ e with forceIdr := false, pts := e.pts + 1 },
      if sendFrame then some e.forceIdr else none)

end QsvEncoder

/-- The number of mapped slots that `stage` uses in turn. -/
def ringSize : ℕ := 6

structure ZeroCopyEncoder where
  bitrate : UInt32
  pts : ℕ
  ringPos : ℕ
  staged : ℕ
  lastReconfig : ℕ
deriving DecidableEq, Repr

namespace ZeroCopyEncoder

def new (bitrateBps : UInt32) (now : ℕ) : ZeroCopyEncoder where
  bitrate := bitrateBps
  pts := 0
  ringPos := 0
  staged := 0
  lastReconfig := now

def setBitrate (e : ZeroCopyEncoder) (bitrateBps : UInt32) (now : ℕ) (built : Bool) :
    ZeroCopyEncoder :=
  if reconfigures e.bitrate bitrateBps (now - e.lastReconfig) && built then
    { e with bitrate := bitrateBps, lastReconfig := now }
  else e

/-- Choose the next slot; copying the texture into it may fail. -/
def stage (e : ZeroCopyEncoder) : ZeroCopyEncoder :=
  { e with ringPos := (e.ringPos + 1) % ringSize, staged := e.ringPos }

/-- Send the staged slot. The result says whether it was sent as a forced IDR, or is
`none` if sending it or receiving packets failed. -/
def submit (e : ZeroCopyEncoder) (forceIdr sendFrame receivePacket : Bool) :
    ZeroCopyEncoder × Option Bool :=
  ({ e with pts := e.pts + 1 }, if sendFrame && receivePacket then some forceIdr else none)

end ZeroCopyEncoder

end KmControl.Encoders
