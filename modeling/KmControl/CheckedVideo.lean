import KmControl.MoonVideo

/-!
The reassembler once more, with every access that can stop the program. Slots
are lists as long as the code made them, indices and slices are looked up in
them, an `expect` and a sum of 16-bit counters can fail. Result `none` is the
fault; a function that may return nothing in the code has an option inside.
Sums of buffer lengths are natural numbers: four blocks of 255 datagrams stay far
below a machine word.
-/
namespace KmControl.CheckedVideo

open ByteFields GsProto MoonVideo

section Access

variable {α : Type*}

/-- `xs[..n]` -/
def headOf (xs : List α) (n : ℕ) : Option (List α) :=
  if n ≤ xs.length then some (xs.take n) else none

/-- `xs[i] = v` -/
def setAt (xs : List α) (i : ℕ) (v : α) : Option (List α) :=
  if i < xs.length then some (xs.set i v) else none

/-- A difference of machine words that must not go below zero. -/
def checkedSub (a b : ℕ) : Option ℕ := if b ≤ a then some (a - b) else none

/-- A sum of 16-bit words that must not overflow. -/
def checkedAdd (a b : UInt16) : Option UInt16 :=
  if a.toNat + b.toNat < 2 ^ 16 then some (a + b) else none

end Access

section Headers

def be16At (buf : Bytes) (o : ℕ) : Option UInt16 := do
  some (u16OfBe (← buf[o]?) (← buf[o + 1]?))

def le16At (buf : Bytes) (o : ℕ) : Option UInt16 := do
  some (u16OfLe (← buf[o]?) (← buf[o + 1]?))

def be32At (buf : Bytes) (o : ℕ) : Option UInt32 := do
  some (u32OfBe (← buf[o]?) (← buf[o + 1]?) (← buf[o + 2]?) (← buf[o + 3]?))

def le32At (buf : Bytes) (o : ℕ) : Option UInt32 := do
  some (u32OfLe (← buf[o]?) (← buf[o + 1]?) (← buf[o + 2]?) (← buf[o + 3]?))

/-- The three reads cut their header off with `get`, then index into the cut. -/
def readRtp (buf : Bytes) : Option (Option RtpHeader) :=
  if rtpHeaderSize ≤ buf.length then do
    let buf := buf.take rtpHeaderSize
    some (some {
      sequenceNumber := ← be16At buf 2, timestamp := ← be32At buf 4, ssrc := ← be32At buf 8 })
  else some none

def readNv (buf : Bytes) : Option (Option NvVideoPacket) :=
  if nvVideoPacketSize ≤ buf.length then do
    let buf := buf.take nvVideoPacketSize
    some (some {
      streamPacketIndex := (← le32At buf 0) >>> 8, frameIndex := ← le32At buf 4
      flags := ← buf[8]?, multiFecBlocks := ← buf[11]?, fecInfo := ← le32At buf 12 })
  else some none

def readNvFromShard (shard : Bytes) : Option (Option NvVideoPacket) :=
  if nvPacketOffset ≤ shard.length then readNv (shard.drop nvPacketOffset) else some none

def readFrameHeader (buf : Bytes) : Option (Option VideoFrameHeader) :=
  if videoFrameHeaderSize ≤ buf.length then do
    let buf := buf.take videoFrameHeaderSize
    some (some {
      isKeyFrame := (← buf[3]?) == frameTypeKey
      frameProcessingLatency := ← le16At buf 1, lastPayloadLen := ← le32At buf 4 })
  else some none

end Headers

structure Block where
  dataShards : ℕ
  fecPercentage : ℕ
  slots : List (Option Bytes)
  received : List Bool
  receivedData : UInt16
  receivedParity : UInt16
  stats : SeqStats
deriving DecidableEq

namespace Block

def new (dataShards paritySlots fecPercentage : ℕ) : Block where
  dataShards := dataShards
  fecPercentage := fecPercentage
  slots := List.replicate (dataShards + paritySlots) none
  received := List.replicate (dataShards + paritySlots) false
  receivedData := 0
  receivedParity := 0
  stats := SeqStats.new

variable (blk : Block)

def paritySlots : Option ℕ := checkedSub blk.slots.length blk.dataShards

def dataComplete : Option Bool := do
  some ((← headOf blk.slots blk.dataShards).all Option.isSome)

def tryRecover (rs : FecRs) : Option (Bool × Block) := do
  if ← blk.dataComplete then some (true, blk)
  else
    let parity ← blk.paritySlots
    if parity = 0 then some (false, blk)
    else if (blk.slots.filter Option.isSome).length < blk.dataShards then some (false, blk)
    else if rs.new blk.dataShards parity then
      match rs.reconstructData blk.dataShards parity (fun k => blk.slots.getD k none) with
      | some slots =>
        let blk := { blk with slots := List.ofFn slots }
        some (← blk.dataComplete, blk)
      | none => some (false, blk)
    else some (false, blk)

def fecStatus (frameIndex : UInt32) (blockIndex blockCount : ℕ) : Option FrameFecStatus := do
  some {
    frameIndex := frameIndex
    highestReceivedSeq := blk.stats.highestSeq
    nextContiguousSeq := blk.stats.nextContiguousSeq
    missingBeforeHighest := blk.stats.missingBeforeHighest
    totalDataShards := UInt16.ofNat blk.dataShards
    totalParityShards := UInt16.ofNat (← blk.paritySlots)
    receivedDataShards := blk.receivedData
    receivedParityShards := blk.receivedParity
    fecPercentage := UInt8.ofNat (min blk.fecPercentage 255)
    blockIndex := UInt8.ofNat blockIndex
    blockCount := UInt8.ofNat blockCount }

/-- The accounting of a shard received for the first time, in the order of the code. -/
def record (shardIndex : ℕ) (seq : UInt16) (payload : Bytes) : Option Block := do
  let received ← setAt blk.received shardIndex true
  let blk := { blk with received := received, stats := blk.stats.noteSeq seq shardIndex }
  let blk ← if shardIndex < blk.dataShards
    then (checkedAdd blk.receivedData 1).map fun n => { blk with receivedData := n }
    else (checkedAdd blk.receivedParity 1).map fun n => { blk with receivedParity := n }
  some { blk with slots := ← setAt blk.slots shardIndex (some payload) }

end Block

/-- `blocks` is an array of `maxFecBlocks` places. -/
structure Frame where
  frameIndex : UInt32
  firstSeen : Instant
  blockCount : ℕ
  blocks : List (Option Block)
  shardPayloadLen : ℕ
  delivered : Bool
deriving DecidableEq

namespace Frame

def new (frameIndex : UInt32) (blockCount shardPayloadLen : ℕ) (now : Instant) : Frame where
  frameIndex := frameIndex
  firstSeen := now
  blockCount := blockCount
  blocks := List.replicate maxFecBlocks none
  shardPayloadLen := shardPayloadLen
  delivered := false

variable (f : Frame)

def completeFrom : (remaining b : ℕ) → Option Bool
  | 0, _ => some true
  | remaining + 1, b => do
    match ← f.blocks[b]? with
    | some blk => if ← blk.dataComplete then completeFrom remaining (b + 1) else some false
    | none => some false

def complete : Option Bool := f.completeFrom f.blockCount 0

def totalDataFrom : (remaining b : ℕ) → Option (Option ℕ)
  | 0, _ => some (some 0)
  | remaining + 1, b => do
    match ← f.blocks[b]? with
    | some blk => some ((← totalDataFrom remaining (b + 1)).map (blk.dataShards + ·))
    | none => some none

/-- Append the part of each slot that lies between the frame header and the end
of the logical stream; also the offset behind the last slot. -/
def copySlots (logical : ℕ) :
    List (Option Bytes) → ℕ → Bytes → Option (Option (Bytes × ℕ))
  | [], off, data => some (some (data, off))
  | none :: _, _, _ => some none
  | some p :: rest, off, data => do
    let stop := off + p.length
    let lo := max off videoFrameHeaderSize
    let hi := min stop logical
    if lo < hi then
      let part ← slice p (← checkedSub lo off) (← checkedSub hi off)
      copySlots logical rest stop (data ++ part)
    else copySlots logical rest stop data

def copyBlocks (logical : ℕ) :
    (remaining b : ℕ) → ℕ → Bytes → Option (Option Bytes)
  | 0, _, _, data => some (some data)
  | remaining + 1, b, off, data => do
    match ← f.blocks[b]? with
    | some blk =>
      match ← copySlots logical (← headOf blk.slots blk.dataShards) off data with
      | some (data, off) => copyBlocks logical remaining (b + 1) off data
      | none => some none
    | none => some none

def assemble : Option (Option AuFrame) := do
  let plen := f.shardPayloadLen
  if plen < videoFrameHeaderSize then some none
  else
    match ← f.totalDataFrom f.blockCount 0 with
    | none => some none
    | some totalData =>
      if totalData = 0 then some none
      else
        match ← f.blocks[0]? with
        | none => some none
        | some first =>
          match ← first.slots[0]? with
          | none => some none
          | some slot =>
            match ← readFrameHeader slot with
            | none => some none
            | some hdr =>
              let last := hdr.lastPayloadLen.toNat
              if last = 0 ∨ plen < last then some none
              else
                let logical := (← checkedSub totalData 1) * plen + last
                if logical ≤ videoFrameHeaderSize then some none
                else
                  match ← f.copyBlocks logical f.blockCount 0 0
                      [if hdr.isKeyFrame then 1 else 0] with
                  | some data => some (some { keyframe := hdr.isKeyFrame, data := data })
                  | none => some none

end Frame

structure State where
  frames : SortedMap UInt32 Frame
  lastRetired : Option UInt32
  events : List VideoEvent

namespace State

def new : State where
  frames := SortedMap.empty
  lastRetired := none
  events := []

def templateFrom (f : Frame) : (remaining b : ℕ) → Option (Option Block)
  | 0, _ => some none
  | remaining + 1, b => do
    match ← f.blocks[b]? with
    | some blk => some (some blk)
    | none => templateFrom f remaining (b + 1)

def reportFrom (f : Frame) (lost : Bool) (template : Option Block) :
    (remaining b : ℕ) → Option (List VideoEvent)
  | 0, _ => some []
  | remaining + 1, b => do
    let here ← match ← f.blocks[b]? with
      | some blk =>
        if blk.receivedData.toNat < blk.dataShards then do
          some [VideoEvent.fec (← blk.fecStatus f.frameIndex b f.blockCount)]
        else some []
      | none =>
        match lost, template with
        | true, some t => do
          let st ← t.fecStatus f.frameIndex b f.blockCount
          some [VideoEvent.fec { st with
            receivedDataShards := 0, receivedParityShards := 0, highestReceivedSeq := 0,
            nextContiguousSeq := 0,
            missingBeforeHighest := ← checkedAdd st.totalDataShards st.totalParityShards }]
        | _, _ => some []
    some (here ++ (← reportFrom f lost template remaining (b + 1)))

def reportFec (f : Frame) (lost : Bool) : Option (List VideoEvent) := do
  reportFrom f lost (← templateFrom f f.blockCount 0) f.blockCount 0

def retire (s : State) (f : Frame) : Option State := do
  let report ← reportFec f (!f.delivered)
  some {
    frames := s.frames
    lastRetired := Depacketizer.raise s.lastRetired f.frameIndex
    events := s.events ++ report ++ if f.delivered then [] else [VideoEvent.lost f.frameIndex] }

/-- `frames.remove(&k).expect(..)`, then retire. -/
def retireKey (s : State) (k : UInt32) : Option State := do
  retire { s with frames := s.frames.erase k } (← s.frames.find? k)

def emitCompleted (s : State) (frameIndex : UInt32) : Option State := do
  let s ← (s.frames.below frameIndex).foldlM retireKey s
  let f := { ← s.frames.find? frameIndex with delivered := true }
  let ending := match ← f.assemble with
    | some au => VideoEvent.frame frameIndex au
    | none => VideoEvent.lost frameIndex
  some { s with frames := s.frames.insert frameIndex f, events := s.events ++ [ending] }

/-- The inner result says whether the push goes on. -/
def openSlot (s : State) (nv : NvVideoPacket) (plen : ℕ) (now : Instant) :
    Option (Option State) :=
  let fresh := Frame.new nv.frameIndex nv.blockCount plen now
  if (s.frames.find? nv.frameIndex).isSome then some (some s)
  else if maxInflightFrames ≤ s.frames.size then do
    let (oldest, _) ← s.frames.first?
    if nv.frameIndex < oldest then some none
    else
      let s ← s.retireKey oldest
      some (some { s with frames := s.frames.insert nv.frameIndex fresh })
  else some (some { s with frames := s.frames.insert nv.frameIndex fresh })

/-- A shard for a block that the frame has. -/
def absorbInto (rs : FecRs) (f : Frame) (rtp : RtpHeader) (nv : NvVideoPacket) (datagram : Bytes)
    (blk : Block) : Option (Frame × Bool) := do
  if blk.dataShards ≠ nv.dataShards ∨ blk.slots.length ≤ nv.shardIndex then some (f, false)
  else if ← blk.received[nv.shardIndex]? then some (f, false)
  else
    let payload ← slice datagram payloadOffset datagram.length
    let blk ← blk.record nv.shardIndex rtp.sequenceNumber payload
    if f.delivered then
      some ({ f with blocks := ← setAt f.blocks nv.blockIndex (some blk) }, false)
    else
      let blk ← if ← blk.dataComplete then some blk
        else (blk.tryRecover rs).map Prod.snd
      some ({ f with blocks := ← setAt f.blocks nv.blockIndex (some blk) }, true)

/-- The frame after its shard: the block first, then whether the frame goes on to
be completed. -/
def absorb (rs : FecRs) (f : Frame) (rtp : RtpHeader) (nv : NvVideoPacket) (datagram : Bytes)
    (plen : ℕ) : Option (Frame × Bool) := do
  if f.shardPayloadLen ≠ plen ∨ f.blockCount ≠ nv.blockCount then some (f, false)
  else
    let blk := (← f.blocks[nv.blockIndex]?).getD
      (Block.new nv.dataShards nv.parityShards nv.fecPercentage)
    let blocks ← setAt f.blocks nv.blockIndex (some blk)
    absorbInto rs { f with blocks := blocks } rtp nv datagram blk

def store (rs : FecRs) (s : State) (rtp : RtpHeader) (nv : NvVideoPacket) (datagram : Bytes)
    (plen : ℕ) : Option State := do
  let (f, fresh) ← absorb rs (← s.frames.find? nv.frameIndex) rtp nv datagram plen
  let s := { s with frames := s.frames.insert nv.frameIndex f }
  if fresh then
    if ← f.complete then s.emitCompleted nv.frameIndex else some s
  else some s

/-- A shard whose headers have passed: late ones are dropped. -/
def accept (rs : FecRs) (s : State) (rtp : RtpHeader) (nv : NvVideoPacket) (datagram : Bytes)
    (plen : ℕ) (now : Instant) : Option State := do
  if s.lastRetired.any fun c => decide (nv.frameIndex ≤ c) then some s
  else
    match ← s.openSlot nv plen now with
    | some s => s.store rs rtp nv datagram plen
    | none => some s

def push (rs : FecRs) (s : State) (datagram : Bytes) (now : Instant) : Option State := do
  match shardPayloadLen datagram.length with
  | none => some s
  | some plen =>
    if (← datagram[0]?) ≠ rtpVersionFlags then some s
    else
      match ← readRtp datagram, ← readNvFromShard datagram with
      | some rtp, some nv =>
        if nv.blockCount ≤ nv.blockIndex ∨ nv.dataShards = 0 ∨ maxShards < nv.dataShards ∨
            maxShards ≤ nv.shardIndex then some s
        else s.accept rs rtp nv datagram plen now
      | _, _ => some s

def expire (s : State) (now : Instant) : Option State :=
  (s.frames.keysWhere fun f => decide (assemblyBudget < now - f.firstSeen)).foldlM retireKey s

def step (rs : FecRs) (s : State) : Op → Option State
  | .push datagram now => s.push rs datagram now
  | .expire now => s.expire now

/-- A run from its start; it stops at the first fault. -/
def run (rs : FecRs) (ops : List Op) : Option State := ops.foldlM (step rs) new

end State

end KmControl.CheckedVideo
