import KmControl.Chunks
import KmControl.FecRs
import KmControl.GsProto

/-!
Splitting one encoded frame into shards. The logical stream is the frame
header followed by the encoded bytes; it is cut into data shards, the data
shards into at most four FEC blocks, and every block gets its parity. Result
`none` is the fault that stops the program: a subtraction below zero, a modulo
by zero or an access out of range. Counters are 32-bit words and wrap.
-/
namespace KmControl.Packetizer

open ByteFields GsProto

/-- Copy `[offset, offset + len)` of the logical stream to the start of `dst`. -/
def copyHeaderAndData (dst header encodedData : Bytes) (offset len : ℕ) : Option Bytes :=
  let total := videoFrameHeaderSize + encodedData.length
  let stop := min (offset + len) total
  if offset < videoFrameHeaderSize then do
    let headerEnd := min videoFrameHeaderSize stop
    let n := headerEnd - offset
    let dst ← copyFromSlice dst 0 (← slice header offset headerEnd)
    if videoFrameHeaderSize < stop then
      copyFromSlice dst n (← slice encodedData 0 (stop - videoFrameHeaderSize))
    else
      some dst
  else do
    copyFromSlice dst 0
      (← slice encodedData (offset - videoFrameHeaderSize) (stop - videoFrameHeaderSize))

/-- What one call packetizes. -/
structure Frame where
  encodedData : Bytes
  isKeyFrame : Bool
  requestedPacketSize : ℕ
  frameNumber : UInt32
  rtpTimestamp : UInt32
  fecPercentage : ℕ

/-- The counters a caller threads through its calls. -/
structure Counters where
  sequenceNumber : UInt32
  streamPacketIndex : UInt32
deriving DecidableEq, Repr

namespace Frame

variable (f : Frame)

/-- The requested percentage clamped to its safe range. -/
def percentage : ℕ := max 10 (min 60 f.fecPercentage)

def shardPayloadSize : ℕ := f.requestedPacketSize - nvVideoPacketSize

def packetDataLen : ℕ := videoFrameHeaderSize + f.encodedData.length

def lastShardSize : ℕ :=
  if f.packetDataLen % f.shardPayloadSize = 0 then f.shardPayloadSize
  else f.packetDataLen % f.shardPayloadSize

def header : VideoFrameHeader where
  isKeyFrame := f.isKeyFrame
  frameProcessingLatency := 0
  lastPayloadLen := UInt32.ofNat f.lastShardSize

def totalDataShards : ℕ := max (divCeil f.packetDataLen f.shardPayloadSize) 1

def shardSize : ℕ := payloadOffset + f.shardPayloadSize

def nrParityPerBlock : ℕ := maxShards * f.percentage / (100 + f.percentage)

def nrDataPerBlock : ℕ := maxShards - f.nrParityPerBlock

def nrBlocks : ℕ := min ((f.totalDataShards - 1) / f.nrDataPerBlock + 1) maxFecBlocks

def blockStart (block : ℕ) : ℕ := block * f.nrDataPerBlock

/-- The last block takes all that is left, also beyond the limit of blocks. -/
def blockEnd (block : ℕ) : ℕ :=
  if block = f.nrBlocks - 1 then f.totalDataShards
  else min ((block + 1) * f.nrDataPerBlock) f.totalDataShards

def blockDataShards (block : ℕ) : ℕ := f.blockEnd block - f.blockStart block

def blockParity (block : ℕ) : ℕ := parityShardCount (f.blockDataShards block) f.percentage

def blockTotal (block : ℕ) : ℕ := f.blockDataShards block + f.blockParity block

def multiFecBlocks (block : ℕ) : UInt8 := NvVideoPacket.packMultiFecBlocks block f.nrBlocks

def fecInfo (block shardIndex : ℕ) : UInt32 :=
  NvVideoPacket.packFecInfo shardIndex (f.blockDataShards block) f.percentage

def flags (globalDataIndex : ℕ) : UInt8 :=
  let flags := RtpFlag.containsPicData
  let flags := if globalDataIndex = 0 then flags ||| RtpFlag.startOfFrame else flags
  if globalDataIndex = f.totalDataShards - 1 then flags ||| RtpFlag.endOfFrame else flags

end Frame

/-- Data shard `i` of a block, its headers complete before the parity is computed. -/
def dataShard (f : Frame) (block : ℕ) (seq spi : UInt32) (i : ℕ) : Option Bytes := do
  let globalDataIndex := f.blockStart block + i
  let payloadStart := globalDataIndex * f.shardPayloadSize
  if f.packetDataLen < payloadStart then none
  else
    let payloadLen := min f.shardPayloadSize (f.packetDataLen - payloadStart)
    let rtp : RtpHeader := {
      sequenceNumber := (seq + UInt32.ofNat i).toUInt16
      timestamp := f.rtpTimestamp
      ssrc := 0 }
    let nv : NvVideoPacket := {
      streamPacketIndex := spi
      frameIndex := f.frameNumber
      flags := f.flags globalDataIndex
      multiFecBlocks := f.multiFecBlocks block
      fecInfo := f.fecInfo block i }
    let shard ← rtp.write (List.replicate f.shardSize 0)
    let shard ← nv.write shard nvPacketOffset
    let payload ← copyHeaderAndData (shard.drop payloadOffset) f.header.bytes f.encodedData
      payloadStart payloadLen
    some (shard.take payloadOffset ++ payload)

/-- The data shards of a block from the `i`-th on; only they advance the packet index. -/
def dataShards (f : Frame) (block : ℕ) (seq : UInt32) :
    (remaining i : ℕ) → UInt32 → Option (List Bytes × UInt32)
  | 0, _, spi => some ([], spi)
  | remaining + 1, i, spi => do
    let shard ← dataShard f block seq spi i
    let (rest, spi') ← dataShards f block seq remaining (i + 1) (spi + 1)
    some (shard :: rest, spi')

/-- Fill in the parity of a block in place. A codec error leaves the zeroed parity. -/
def encodeParity (rs : FecRs) (data parity : ℕ) (shards : List Bytes) : List Bytes :=
  if parity = 0 then shards
  else if rs.new data parity then
    match rs.encode data parity (fun k => shards.getD k []) with
    | some out => List.ofFn out
    | none => shards
  else shards

/-- Overwrite the header bytes of a parity shard that the receiver reads. The
other header bytes keep the values the code computed for them. -/
def patchParity (f : Frame) (block : ℕ) (seq : UInt32) (shardIndex : ℕ) (shard : Bytes) :
    Option Bytes := do
  let shard ← copyFromSlice shard 0 [rtpVersionFlags]
  let shard ← copyFromSlice shard 1 [0]
  let shard ← copyFromSlice shard 2 (u16be (seq + UInt32.ofNat shardIndex).toUInt16)
  let shard ← copyFromSlice shard (nvPacketOffset + 4) (u32le f.frameNumber)
  let shard ← copyFromSlice shard (nvPacketOffset + 11) [f.multiFecBlocks block]
  copyFromSlice shard (nvPacketOffset + 12) (u32le (f.fecInfo block shardIndex))

def patchParityFrom (f : Frame) (block : ℕ) (seq : UInt32) : ℕ → List Bytes → Option (List Bytes)
  | _, [] => some []
  | shardIndex, shard :: rest => do
    let shard ← patchParity f block seq shardIndex shard
    let rest ← patchParityFrom f block seq (shardIndex + 1) rest
    some (shard :: rest)

/-- The shards of one block, data first. -/
def packetizeBlock (rs : FecRs) (f : Frame) (block : ℕ) (c : Counters) :
    Option (List Bytes × Counters) := do
  let data := f.blockDataShards block
  let parity := f.blockParity block
  let (written, spi) ← dataShards f block c.sequenceNumber data 0 c.streamPacketIndex
  let shards := encodeParity rs data parity
    (written ++ List.replicate parity (List.replicate f.shardSize 0))
  let patched ← patchParityFrom f block c.sequenceNumber data (shards.drop data)
  some (shards.take data ++ patched,
    ⟨c.sequenceNumber + UInt32.ofNat (f.blockTotal block), spi⟩)

/-- The blocks from `block` on. -/
def packetizeBlocks (rs : FecRs) (f : Frame) :
    (remaining block : ℕ) → Counters → Option (List Bytes × Counters)
  | 0, _, c => some ([], c)
  | remaining + 1, block, c => do
    if f.blockEnd block < f.blockStart block then none
    else if f.blockDataShards block = 0 then some ([], c)
    else
      let (shards, c) ← packetizeBlock rs f block c
      let (rest, c) ← packetizeBlocks rs f remaining (block + 1) c
      some (shards ++ rest, c)

def packetizeFrame (rs : FecRs) (f : Frame) (c : Counters) : Option (List Bytes × Counters) :=
  -- `requested_packet_size - NV_VIDEO_PACKET_SIZE`, then the modulo by it.
  if f.requestedPacketSize < nvVideoPacketSize then none
  else if f.shardPayloadSize = 0 then none
  else packetizeBlocks rs f f.nrBlocks 0 c

/-- A frame together with the shards that the packetizer made of it. -/
structure Packetized (rs : FecRs) where
  frame : Frame
  shards : List Bytes
  packetized : ∃ c c', packetizeFrame rs frame c = some (shards, c')

def packetize (rs : FecRs) (f : Frame) (c : Counters) : Option (Packetized rs × Counters) :=
  match h : packetizeFrame rs f c with
  | some (shards, c') => some (⟨f, shards, c, c', h⟩, c')
  | none => none

theorem packetize_eq_some {rs : FecRs} {f : Frame} {c c' : Counters} {shards : List Bytes}
    (h : packetizeFrame rs f c = some (shards, c')) :
    packetize rs f c = some (⟨f, shards, c, c', h⟩, c') := by
  unfold packetize
  split
  · rename_i shards' c'' heq
    rw [h] at heq
    cases heq
    rfl
  · rename_i heq
    rw [h] at heq
    cases heq

theorem frame_of_packetize {rs : FecRs} {f : Frame} {c c' : Counters} {p : Packetized rs}
    (h : packetize rs f c = some (p, c')) : p.frame = f := by
  unfold packetize at h
  split at h
  · cases h
    rfl
  · cases h

end KmControl.Packetizer
