import KmControl.Chunks
import KmControl.FecRs
import KmControl.GsProto
import KmControl.Machine
import KmControl.SortedMap

/-!
Reassembly of video frames from datagrams. A frame in flight holds its FEC
blocks; a block holds the payloads of the shards received so far and recovers
the missing ones. Delivery of a frame and its retirement are separate: a frame
is delivered as soon as it is complete and stays until a newer frame completes,
it runs out of time or it is evicted. Times are nanoseconds.
-/
namespace KmControl.MoonVideo

open ByteFields Chunks GsProto

abbrev Instant := ℕ

/-- Frames that may be in flight at once. -/
def maxInflightFrames : ℕ := 4

/-- A frame not complete this long after its first shard is given up. -/
def assemblyBudget : ℕ := 100 * 10 ^ 6

structure AuFrame where
  keyframe : Bool
  data : Bytes
deriving DecidableEq, Repr

/-- The events of the queue. A frame event carries the index of its frame, which
the program does not send along; it is here to state the order of events. -/
inductive VideoEvent where
  | frame (frameIndex : UInt32) (au : AuFrame)
  | lost (frameIndex : UInt32)
  | fec (status : FrameFecStatus)
deriving DecidableEq, Repr

/-- Whether `x` precedes `y` among wrapping 16-bit numbers. -/
def isBefore16 (x y : UInt16) : Bool := 2 ^ 15 ≤ (x - y).toNat

/-- Loss statistics of a block, from the sequence numbers of its shards. -/
structure SeqStats where
  seenFirst : Bool
  lowestSeq : UInt16
  highestSeq : UInt16
  nextContiguousSeq : UInt16
  missingBeforeHighest : UInt16
  fastPath : Bool
deriving DecidableEq, Repr

namespace SeqStats

def new : SeqStats where
  seenFirst := false
  lowestSeq := 0
  highestSeq := 0
  nextContiguousSeq := 0
  missingBeforeHighest := 0
  fastPath := true

def noteHighest (st : SeqStats) (seq : UInt16) (shardIndex : ℕ) : SeqStats :=
  if ¬ st.seenFirst then
    let lowest := seq - UInt16.ofNat shardIndex
    { st with
      seenFirst := true, lowestSeq := lowest, nextContiguousSeq := lowest, highestSeq := seq,
      missingBeforeHighest := seq - lowest }
  else if isBefore16 st.highestSeq seq then
    { st with
      missingBeforeHighest := st.missingBeforeHighest + (seq - st.highestSeq - 1),
      highestSeq := seq }
  else
    -- A shard behind the highest one fills a gap; the subtraction saturates.
    { st with
      missingBeforeHighest :=
        if st.missingBeforeHighest = 0 then 0 else st.missingBeforeHighest - 1 }

def noteContiguous (st : SeqStats) (seq : UInt16) : SeqStats :=
  if st.fastPath ∧ seq = st.nextContiguousSeq then
    { st with nextContiguousSeq := st.nextContiguousSeq + 1 }
  else if seq ≠ st.nextContiguousSeq then
    { st with fastPath := false }
  else st

def noteSeq (st : SeqStats) (seq : UInt16) (shardIndex : ℕ) : SeqStats :=
  (st.noteHighest seq shardIndex).noteContiguous seq

end SeqStats

/-- A datagram that passed the checks of its length and headers. -/
structure Shard where
  rtp : RtpHeader
  nv : NvVideoPacket
  payload : Bytes
  payload_pos : 0 < payload.length
  block_lt : nv.blockIndex < nv.blockCount
  data_pos : 0 < nv.dataShards
  data_le : nv.dataShards ≤ maxShards
  index_lt : nv.shardIndex < maxShards

theorem payload_pos_of_lt {datagram : Bytes} (h : payloadOffset < datagram.length) :
    0 < (datagram.drop payloadOffset).length := by
  rw [List.length_drop]
  exact Nat.sub_pos_of_lt h

def parseShard (datagram : Bytes) : Option Shard :=
  if hlen : payloadOffset < datagram.length then
    if byteAt datagram 0 ≠ rtpVersionFlags then none
    else
      match RtpHeader.read datagram, NvVideoPacket.readFromShard datagram with
      | some rtp, some nv =>
        if h : nv.blockIndex < nv.blockCount ∧ 0 < nv.dataShards ∧ nv.dataShards ≤ maxShards ∧
            nv.shardIndex < maxShards then
          some {
            rtp := rtp, nv := nv, payload := datagram.drop payloadOffset
            payload_pos := payload_pos_of_lt hlen
            block_lt := h.1, data_pos := h.2.1, data_le := h.2.2.1, index_lt := h.2.2.2 }
        else none
      | _, _ => none
  else none

/-- One FEC block in assembly. A slot holds a payload, received or recovered. -/
structure BlockAsm where
  dataShards : ℕ
  paritySlots : ℕ
  fecPercentage : ℕ
  slots : Fin (dataShards + paritySlots) → Option Bytes
  received : Fin (dataShards + paritySlots) → Bool
  receivedData : UInt16
  receivedParity : UInt16
  stats : SeqStats
  data_pos : 0 < dataShards
  total_le : dataShards + paritySlots ≤ maxShards

namespace BlockAsm

def new (dataShards fecPercentage : ℕ) (hpos : 0 < dataShards) (hle : dataShards ≤ maxShards) :
    BlockAsm where
  dataShards := dataShards
  paritySlots := parityShardCount dataShards fecPercentage
  fecPercentage := fecPercentage
  slots := fun _ => none
  received := fun _ => false
  receivedData := 0
  receivedParity := 0
  stats := SeqStats.new
  data_pos := hpos
  total_le := add_parityShardCount_le hle fecPercentage

def dataComplete (blk : BlockAsm) : Bool :=
  decide (∀ k : Fin blk.dataShards, (blk.slots (Fin.castAdd blk.paritySlots k)).isSome)

/-- The payloads of the data slots, if none is missing. -/
def dataSlots (blk : BlockAsm) : Option (List Bytes) :=
  (List.finRange blk.dataShards).mapM fun k => blk.slots (Fin.castAdd blk.paritySlots k)

def firstSlot (blk : BlockAsm) : Option Bytes :=
  blk.slots ⟨0, Nat.add_pos_left blk.data_pos _⟩

def tryRecover (rs : FecRs) (blk : BlockAsm) : Bool × BlockAsm :=
  if blk.dataComplete then (true, blk)
  else if blk.paritySlots = 0 then (false, blk)
  else if (FecRs.present blk.slots).card < blk.dataShards then (false, blk)
  else if rs.new blk.dataShards blk.paritySlots then
    match rs.reconstructData blk.dataShards blk.paritySlots blk.slots with
    | some slots =>
      let blk := { blk with slots := slots }
      (blk.dataComplete, blk)
    | none => (false, blk)
  else (false, blk)

def fecStatus (blk : BlockAsm) (frameIndex : UInt32) (blockIndex blockCount : ℕ) :
    FrameFecStatus where
  frameIndex := frameIndex
  highestReceivedSeq := blk.stats.highestSeq
  nextContiguousSeq := blk.stats.nextContiguousSeq
  missingBeforeHighest := blk.stats.missingBeforeHighest
  totalDataShards := UInt16.ofNat blk.dataShards
  totalParityShards := UInt16.ofNat blk.paritySlots
  receivedDataShards := blk.receivedData
  receivedParityShards := blk.receivedParity
  fecPercentage := UInt8.ofNat (min blk.fecPercentage 255)
  blockIndex := UInt8.ofNat blockIndex
  blockCount := UInt8.ofNat blockCount

/-- Record a shard received for the first time. -/
def record (blk : BlockAsm) (i : Fin (blk.dataShards + blk.paritySlots)) (seq : UInt16)
    (payload : Bytes) : BlockAsm :=
  { blk with
    received := Function.update blk.received i true
    stats := blk.stats.noteSeq seq i
    receivedData := if i.val < blk.dataShards then blk.receivedData + 1 else blk.receivedData
    receivedParity :=
      if i.val < blk.dataShards then blk.receivedParity else blk.receivedParity + 1
    slots := Function.update blk.slots i (some payload) }

end BlockAsm

/-- One frame in assembly. -/
structure FrameAsm where
  frameIndex : UInt32
  firstSeen : Instant
  blockCount : ℕ
  blocks : Fin maxFecBlocks → Option BlockAsm
  shardPayloadLen : ℕ
  delivered : Bool

namespace FrameAsm

def new (frameIndex : UInt32) (blockCount shardPayloadLen : ℕ) (now : Instant) : FrameAsm where
  frameIndex := frameIndex
  firstSeen := now
  blockCount := blockCount
  blocks := fun _ => none
  shardPayloadLen := shardPayloadLen
  delivered := false

def block (f : FrameAsm) (b : ℕ) : Option BlockAsm :=
  if h : b < maxFecBlocks then f.blocks ⟨b, h⟩ else none

def complete (f : FrameAsm) : Bool :=
  (List.range f.blockCount).all fun b => (f.block b).any BlockAsm.dataComplete

/-- The data payloads of the frame in the order of the logical stream. -/
def pieces (f : FrameAsm) : Option (List Bytes) := do
  let blocks ← (List.range f.blockCount).mapM f.block
  let slots ← blocks.mapM BlockAsm.dataSlots
  some slots.flatten

/-- Join the payloads, skip the frame header and trim the padding of the last shard. -/
def assemble (f : FrameAsm) : Option AuFrame := do
  let plen := f.shardPayloadLen
  if plen < videoFrameHeaderSize then none
  else
    let blocks ← (List.range f.blockCount).mapM f.block
    let totalData := (blocks.map BlockAsm.dataShards).sum
    if totalData = 0 then none
    else
      let first ← f.block 0
      let hdr ← VideoFrameHeader.read (← first.firstSlot)
      let last := hdr.lastPayloadLen.toNat
      if last = 0 ∨ plen < last then none
      else
        let logical := (totalData - 1) * plen + last
        if logical ≤ videoFrameHeaderSize then none
        else
          let pieces ← f.pieces
          some {
            keyframe := hdr.isKeyFrame
            data := (if hdr.isKeyFrame then 1 else 0) ::
              clip videoFrameHeaderSize logical 0 pieces }

def setBlock (f : FrameAsm) (b : Fin maxFecBlocks) (blk : BlockAsm) : FrameAsm :=
  { f with blocks := Function.update f.blocks b (some blk) }

end FrameAsm

namespace Shard

def block (sh : Shard) : Fin maxFecBlocks := ⟨sh.nv.blockIndex, sh.nv.blockIndex_lt⟩

def newBlock (sh : Shard) : BlockAsm :=
  BlockAsm.new sh.nv.dataShards sh.nv.fecPercentage sh.data_pos sh.data_le

end Shard

namespace FrameAsm

/-- Put a shard into its block, which is created if need be. The flag says that
an undelivered frame has received a shard it did not have. -/
def absorb (rs : FecRs) (f : FrameAsm) (sh : Shard) : FrameAsm × Bool :=
  if f.shardPayloadLen ≠ sh.payload.length ∨ f.blockCount ≠ sh.nv.blockCount then (f, false)
  else
    let blk := (f.blocks sh.block).getD sh.newBlock
    let f := f.setBlock sh.block blk
    if blk.dataShards ≠ sh.nv.dataShards then (f, false)
    else if h : sh.nv.shardIndex < blk.dataShards + blk.paritySlots then
      let i : Fin (blk.dataShards + blk.paritySlots) := ⟨sh.nv.shardIndex, h⟩
      if blk.received i then (f, false)
      else
        let blk := blk.record i sh.rtp.sequenceNumber sh.payload
        if f.delivered then (f.setBlock sh.block blk, false)
        else if blk.dataComplete then (f.setBlock sh.block blk, true)
        else (f.setBlock sh.block (blk.tryRecover rs).2, true)
    else (f, false)

end FrameAsm

/-- The reassembler. `events` lists the queue from its first event on. -/
structure Depacketizer where
  frames : SortedMap UInt32 FrameAsm
  lastRetired : Option UInt32
  events : List VideoEvent

namespace Depacketizer

def new : Depacketizer where
  frames := SortedMap.empty
  lastRetired := none
  events := []

def emit (s : Depacketizer) (evs : List VideoEvent) : Depacketizer :=
  { s with events := s.events ++ evs }

/-- The reports of the blocks that missed data shards. A block of a lost frame
of which nothing arrived borrows the totals of a sibling. -/
def reportFec (f : FrameAsm) (lost : Bool) : List VideoEvent :=
  let template := (List.range f.blockCount).findSome? f.block
  (List.range f.blockCount).flatMap fun b =>
    match f.block b with
    | some blk =>
      if blk.receivedData.toNat < blk.dataShards then
        [VideoEvent.fec (blk.fecStatus f.frameIndex b f.blockCount)]
      else []
    | none =>
      if lost then
        match template with
        | some t =>
          let st := t.fecStatus f.frameIndex b f.blockCount
          [VideoEvent.fec { st with
            receivedDataShards := 0, receivedParityShards := 0, highestReceivedSeq := 0,
            nextContiguousSeq := 0,
            missingBeforeHighest := st.totalDataShards + st.totalParityShards }]
        | none => []
      else []

def raise (lastRetired : Option UInt32) (frameIndex : UInt32) : Option UInt32 :=
  match lastRetired with
  | some c => if frameIndex < c then some c else some frameIndex
  | none => some frameIndex

/-- Close a frame that has left the map. -/
def retire (s : Depacketizer) (f : FrameAsm) : Depacketizer :=
  let s := s.emit (reportFec f (!f.delivered))
  let s := if f.delivered then s else s.emit [VideoEvent.lost f.frameIndex]
  { s with lastRetired := raise s.lastRetired f.frameIndex }

def retireKey (s : Depacketizer) (k : UInt32) : Depacketizer :=
  match s.frames.find? k with
  | some f => retire { s with frames := s.frames.erase k } f
  | none => s

/-- Send out a complete frame; every older frame is closed. -/
def emitCompleted (s : Depacketizer) (frameIndex : UInt32) : Depacketizer :=
  let s := (s.frames.below frameIndex).foldl retireKey s
  match s.frames.find? frameIndex with
  | some f =>
    let s := { s with frames := s.frames.insert frameIndex { f with delivered := true } }
    match f.assemble with
    | some au => s.emit [VideoEvent.frame frameIndex au]
    | none => s.emit [VideoEvent.lost frameIndex]
  | none => s

/-- Whether a frame is at or below the highest index retired so far. -/
def isRetired (s : Depacketizer) (frameIndex : UInt32) : Bool :=
  s.lastRetired.any fun c => frameIndex ≤ c

/-- Make sure that a frame has its slot; a full map gives up its oldest frame
unless the new one is older still. -/
def openSlot (s : Depacketizer) (sh : Shard) (now : Instant) : Option Depacketizer :=
  let fresh := FrameAsm.new sh.nv.frameIndex sh.nv.blockCount sh.payload.length now
  if (s.frames.find? sh.nv.frameIndex).isSome then some s
  else if maxInflightFrames ≤ s.frames.size then
    match s.frames.first? with
    | some (oldest, f) =>
      if sh.nv.frameIndex < oldest then none
      else
        let s := retire { s with frames := s.frames.erase oldest } f
        some { s with frames := s.frames.insert sh.nv.frameIndex fresh }
    | none => none
  else some { s with frames := s.frames.insert sh.nv.frameIndex fresh }

/-- Put a shard into the slot of its frame. -/
def store (rs : FecRs) (s : Depacketizer) (sh : Shard) : Depacketizer :=
  match s.frames.find? sh.nv.frameIndex with
  | some f =>
    let (f, fresh) := f.absorb rs sh
    let s := { s with frames := s.frames.insert sh.nv.frameIndex f }
    if fresh ∧ f.complete then s.emitCompleted sh.nv.frameIndex else s
  | none => s

def push (rs : FecRs) (s : Depacketizer) (datagram : Bytes) (now : Instant) : Depacketizer :=
  match parseShard datagram with
  | some sh =>
    if s.isRetired sh.nv.frameIndex then s
    else
      match s.openSlot sh now with
      | some s => s.store rs sh
      | none => s
  | none => s

/-- Close the frames that have run out of time. -/
def expire (s : Depacketizer) (now : Instant) : Depacketizer :=
  (s.frames.keysWhere fun f => decide (assemblyBudget < now - f.firstSeen)).foldl retireKey s

def popEvent (s : Depacketizer) : Option VideoEvent × Depacketizer :=
  (s.events.head?, { s with events := s.events.tail })

end Depacketizer

/-- What the receive loop feeds to the reassembler. -/
inductive Op where
  | push (datagram : Bytes) (now : Instant)
  | expire (now : Instant)

def step (rs : FecRs) (s : Depacketizer) : Op → Depacketizer
  | .push datagram now => s.push rs datagram now
  | .expire now => s.expire now

/-- A reassembler from its start; the queue is read out elsewhere. -/
def machine (rs : FecRs) : Machine Depacketizer Op where
  init := Depacketizer.new
  step := step rs

end KmControl.MoonVideo
