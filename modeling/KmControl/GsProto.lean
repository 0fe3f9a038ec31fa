import KmControl.ByteFields
import Mathlib.Data.Rat.Defs

/-!
The video wire format shared by the streaming host and the client. A shard is
an RTP header, four bytes of padding, a video packet header and the payload;
the RTP header is big-endian and the other two headers are little-endian.
-/
namespace KmControl.GsProto

open ByteFields

def nvVideoPacketSize : ℕ := 16
def rtpHeaderSize : ℕ := 12
def paddingSize : ℕ := 4
def nvPacketOffset : ℕ := rtpHeaderSize + paddingSize
def payloadOffset : ℕ := nvPacketOffset + nvVideoPacketSize
def videoFrameHeaderSize : ℕ := 8

def rtpVersionFlags : UInt8 := 0x90
def multiFecFlags : UInt8 := 0x10
/-- The block index field of `multi_fec_blocks` has two bits. -/
def maxFecBlocks : ℕ := 4
/-- Reed-Solomon bound over a field of 256 elements. -/
def maxShards : ℕ := 255

def frameTypeDelta : UInt8 := 1
def frameTypeKey : UInt8 := 2
def frameHeaderType : UInt8 := 0x01

namespace RtpFlag

def containsPicData : UInt8 := 0x1
def endOfFrame : UInt8 := 0x2
def startOfFrame : UInt8 := 0x4

end RtpFlag

/-- The shard payload length behind a datagram length; `none` for one that is
not longer than the headers. -/
def shardPayloadLen (datagramLen : ℕ) : Option ℕ :=
  if payloadOffset < datagramLen then some (datagramLen - payloadOffset) else none

def divCeil (n d : ℕ) : ℕ := (n + d - 1) / d

/-- Parity shards of one FEC block; both sides compute it from the wire fields. -/
def parityShardCount (dataShards fecPercentage : ℕ) : ℕ :=
  if dataShards = 0 ∨ fecPercentage = 0 then 0
  else min (max (divCeil (dataShards * fecPercentage) 100) 1) (maxShards - dataShards)

theorem parityShardCount_le (dataShards fecPercentage : ℕ) :
    parityShardCount dataShards fecPercentage ≤ maxShards - dataShards := by
  unfold parityShardCount
  split
  · exact Nat.zero_le _
  · exact Nat.min_le_right _ _

/-- A block of at most `maxShards` data shards stays within the bound. -/
theorem add_parityShardCount_le {dataShards : ℕ} (h : dataShards ≤ maxShards)
    (fecPercentage : ℕ) : dataShards + parityShardCount dataShards fecPercentage ≤ maxShards := by
  have hp := parityShardCount_le dataShards fecPercentage
  omega

structure RtpHeader where
  sequenceNumber : UInt16
  timestamp : UInt32
  ssrc : UInt32
deriving DecidableEq, Repr

namespace RtpHeader

def bytes (h : RtpHeader) : Bytes :=
  [rtpVersionFlags, 0] ++ u16be h.sequenceNumber ++ u32be h.timestamp ++ u32be h.ssrc

def write (h : RtpHeader) (buf : Bytes) : Option Bytes := copyFromSlice buf 0 h.bytes

def read (buf : Bytes) : Option RtpHeader :=
  if rtpHeaderSize ≤ buf.length then some {
    sequenceNumber := u16OfBe (byteAt buf 2) (byteAt buf 3)
    timestamp := u32OfBe (byteAt buf 4) (byteAt buf 5) (byteAt buf 6) (byteAt buf 7)
    ssrc := u32OfBe (byteAt buf 8) (byteAt buf 9) (byteAt buf 10) (byteAt buf 11) }
  else none

@[simp] theorem length_bytes (h : RtpHeader) : h.bytes.length = 12 := rfl

end RtpHeader

structure NvVideoPacket where
  streamPacketIndex : UInt32
  frameIndex : UInt32
  flags : UInt8
  multiFecBlocks : UInt8
  fecInfo : UInt32
deriving DecidableEq, Repr

namespace NvVideoPacket

/-- The packet index occupies the upper 24 bits of its field. -/
def bytes (p : NvVideoPacket) : Bytes :=
  u32le (p.streamPacketIndex <<< 8) ++ u32le p.frameIndex ++
    [p.flags, 0, multiFecFlags, p.multiFecBlocks] ++ u32le p.fecInfo

/-- Write the header at the start of `buf[off..]`. -/
def write (p : NvVideoPacket) (buf : Bytes) (off : ℕ) : Option Bytes :=
  copyFromSlice buf off p.bytes

def read (buf : Bytes) : Option NvVideoPacket :=
  if nvVideoPacketSize ≤ buf.length then some {
    streamPacketIndex :=
      u32OfLe (byteAt buf 0) (byteAt buf 1) (byteAt buf 2) (byteAt buf 3) >>> 8
    frameIndex := u32OfLe (byteAt buf 4) (byteAt buf 5) (byteAt buf 6) (byteAt buf 7)
    flags := byteAt buf 8
    multiFecBlocks := byteAt buf 11
    fecInfo := u32OfLe (byteAt buf 12) (byteAt buf 13) (byteAt buf 14) (byteAt buf 15) }
  else none

def readFromShard (shard : Bytes) : Option NvVideoPacket :=
  if nvPacketOffset ≤ shard.length then read (shard.drop nvPacketOffset) else none

def blockIndex (p : NvVideoPacket) : ℕ := ((p.multiFecBlocks >>> 4) &&& 0x3).toNat

def blockCount (p : NvVideoPacket) : ℕ := (((p.multiFecBlocks >>> 6) &&& 0x3) + 1).toNat

def shardIndex (p : NvVideoPacket) : ℕ := ((p.fecInfo >>> 12) &&& 0x3FF).toNat

def dataShards (p : NvVideoPacket) : ℕ := ((p.fecInfo >>> 22) &&& 0x3FF).toNat

def fecPercentage (p : NvVideoPacket) : ℕ := ((p.fecInfo >>> 4) &&& 0xFF).toNat

def parityShards (p : NvVideoPacket) : ℕ := parityShardCount p.dataShards p.fecPercentage

/-- Assembled in machine words and truncated to 32 bits. -/
def packFecInfo (shardIndex dataShards fecPercentage : ℕ) : UInt32 :=
  UInt32.ofNat (shardIndex <<< 12 ||| dataShards <<< 22 ||| fecPercentage <<< 4)

def packMultiFecBlocks (blockIndex blockCount : ℕ) : UInt8 :=
  (UInt8.ofNat blockIndex <<< 4) ||| ((UInt8.ofNat blockCount - 1) <<< 6)

@[simp] theorem length_bytes (p : NvVideoPacket) : p.bytes.length = 16 := rfl

theorem blockCount_le (p : NvVideoPacket) : p.blockCount ≤ maxFecBlocks := by
  have h : ((p.multiFecBlocks >>> 6) &&& 0x3).toNat ≤ 3 := by
    rw [UInt8.toNat_and]
    exact Nat.and_le_right
  rw [blockCount, UInt8.toNat_add]
  exact (Nat.mod_le _ _).trans (Nat.succ_le_succ h)

theorem blockIndex_lt (p : NvVideoPacket) : p.blockIndex < maxFecBlocks := by
  rw [blockIndex, UInt8.toNat_and]
  exact Nat.lt_succ_of_le Nat.and_le_right

/-- The three fields of `fec_info` read back what was packed into them. -/
theorem fecInfo_fields (p : NvVideoPacket) (i d pct : ℕ) (hi : i < 2 ^ 10) (hd : d < 2 ^ 10)
    (hpct : pct < 2 ^ 8) (hinfo : p.fecInfo = packFecInfo i d pct) :
    p.shardIndex = i ∧ p.dataShards = d ∧ p.fecPercentage = pct := by
  have hvalue : p.fecInfo.toNat = d * 2 ^ 22 + i * 2 ^ 12 + pct * 2 ^ 4 := by
    rw [hinfo, packFecInfo, shifted_fields d i pct hi hpct, UInt32.toNat_ofNat']
    omega
  have hten : (0x3FF : ℕ) = 2 ^ 10 - 1 := rfl
  have height : (0xFF : ℕ) = 2 ^ 8 - 1 := rfl
  refine ⟨?_, ?_, ?_⟩
  · rw [shardIndex, UInt32.toNat_and, UInt32.toNat_shiftRight, hvalue]
    change (_ >>> 12 &&& 0x3FF) = _
    rw [hten, Nat.and_two_pow_sub_one_eq_mod, Nat.shiftRight_eq_div_pow]
    omega
  · rw [dataShards, UInt32.toNat_and, UInt32.toNat_shiftRight, hvalue]
    change (_ >>> 22 &&& 0x3FF) = _
    rw [hten, Nat.and_two_pow_sub_one_eq_mod, Nat.shiftRight_eq_div_pow]
    omega
  · rw [fecPercentage, UInt32.toNat_and, UInt32.toNat_shiftRight, hvalue]
    change (_ >>> 4 &&& 0xFF) = _
    rw [height, Nat.and_two_pow_sub_one_eq_mod, Nat.shiftRight_eq_div_pow]
    omega

private theorem packMultiFecBlocks_fields : ∀ b n : Fin 4,
    ((packMultiFecBlocks b.val (n.val + 1) >>> 4) &&& 0x3).toNat = b.val ∧
      (((packMultiFecBlocks b.val (n.val + 1) >>> 6) &&& 0x3) + 1).toNat = n.val + 1 := by
  decide

theorem multiFecBlocks_fields (p : NvVideoPacket) (b n : ℕ) (hb : b < maxFecBlocks)
    (hn : 1 ≤ n) (hn' : n ≤ maxFecBlocks) (h : p.multiFecBlocks = packMultiFecBlocks b n) :
    p.blockIndex = b ∧ p.blockCount = n := by
  obtain ⟨k, rfl⟩ : ∃ k, n = k + 1 := ⟨n - 1, by omega⟩
  have hfields := packMultiFecBlocks_fields ⟨b, hb⟩ ⟨k, hn'⟩
  simpa only [blockIndex, blockCount, h] using hfields

end NvVideoPacket

structure VideoFrameHeader where
  isKeyFrame : Bool
  frameProcessingLatency : UInt16
  lastPayloadLen : UInt32
deriving DecidableEq, Repr

namespace VideoFrameHeader

def bytes (h : VideoFrameHeader) : Bytes :=
  [frameHeaderType] ++ u16le h.frameProcessingLatency ++
    [if h.isKeyFrame then frameTypeKey else frameTypeDelta] ++ u32le h.lastPayloadLen

def read (buf : Bytes) : Option VideoFrameHeader :=
  if videoFrameHeaderSize ≤ buf.length then some {
    isKeyFrame := byteAt buf 3 == frameTypeKey
    frameProcessingLatency := u16OfLe (byteAt buf 1) (byteAt buf 2)
    lastPayloadLen := u32OfLe (byteAt buf 4) (byteAt buf 5) (byteAt buf 6) (byteAt buf 7) }
  else none

@[simp] theorem length_bytes (h : VideoFrameHeader) : h.bytes.length = 8 := rfl

/-- A buffer that starts with a written header reads that header. -/
theorem read_bytes_append (h : VideoFrameHeader) (rest : Bytes) :
    read (h.bytes ++ rest) = some h := by
  have hlen : videoFrameHeaderSize ≤ (h.bytes ++ rest).length := by
    simp [videoFrameHeaderSize]
  obtain ⟨key, latency, last⟩ := h
  rw [read, if_pos hlen, Option.some.injEq, mk.injEq]
  refine ⟨?_, u16OfLe_u16le latency, u32OfLe_u32le last⟩
  cases key <;> rfl

end VideoFrameHeader

/-- The body of a frame FEC status report. -/
structure FrameFecStatus where
  frameIndex : UInt32
  highestReceivedSeq : UInt16
  nextContiguousSeq : UInt16
  missingBeforeHighest : UInt16
  totalDataShards : UInt16
  totalParityShards : UInt16
  receivedDataShards : UInt16
  receivedParityShards : UInt16
  fecPercentage : UInt8
  blockIndex : UInt8
  blockCount : UInt8
deriving DecidableEq, Repr

namespace FrameFecStatus

def size : ℕ := 21

def bytes (st : FrameFecStatus) : Bytes :=
  u32be st.frameIndex ++ u16be st.highestReceivedSeq ++ u16be st.nextContiguousSeq ++
    u16be st.missingBeforeHighest ++ u16be st.totalDataShards ++ u16be st.totalParityShards ++
    u16be st.receivedDataShards ++ u16be st.receivedParityShards ++
    [st.fecPercentage, st.blockIndex, st.blockCount]

def parse (buf : Bytes) : Option FrameFecStatus :=
  if buf.length < size then none
  else
    let be16 := fun o => u16OfBe (byteAt buf o) (byteAt buf (o + 1))
    some {
      frameIndex := u32OfBe (byteAt buf 0) (byteAt buf 1) (byteAt buf 2) (byteAt buf 3)
      highestReceivedSeq := be16 4
      nextContiguousSeq := be16 6
      missingBeforeHighest := be16 8
      totalDataShards := be16 10
      totalParityShards := be16 12
      receivedDataShards := be16 14
      receivedParityShards := be16 16
      fecPercentage := byteAt buf 18
      blockIndex := byteAt buf 19
      blockCount := byteAt buf 20 }

/-- The exact quotient that the source rounds to an `f32`. -/
def lossFraction (st : FrameFecStatus) : Option ℚ :=
  let total := st.totalDataShards.toNat + st.totalParityShards.toNat
  if total = 0 then none
  else
    let recv := min (st.receivedDataShards.toNat + st.receivedParityShards.toNat) total
    some ((total - recv : ℕ) / (total : ℚ))

@[simp] theorem length_bytes (st : FrameFecStatus) : st.bytes.length = 21 := rfl

/-- A written report reads back. -/
theorem parse_bytes (st : FrameFecStatus) : parse st.bytes = some st := by
  have hlen : ¬ st.bytes.length < size := Nat.lt_irrefl 21
  rw [parse, if_neg hlen]
  simp only [bytes, u32be, u16be, u32le, u16le, List.reverse_cons, List.reverse_nil,
    List.nil_append, List.cons_append, byteAt, List.getD_cons_succ, List.getD_cons_zero]
  rw [Option.some.injEq, mk.injEq]
  exact ⟨u32OfLe_u32le _, u16OfLe_u16le _, u16OfLe_u16le _, u16OfLe_u16le _, u16OfLe_u16le _,
    u16OfLe_u16le _, u16OfLe_u16le _, u16OfLe_u16le _, rfl, rfl, rfl⟩

end FrameFecStatus

/-- The four bytes of `PING`. -/
def pingPayload : Bytes := [0x50, 0x49, 0x4E, 0x47]

/-- The four bytes of `PONG`. -/
def pongTag : Bytes := [0x50, 0x4F, 0x4E, 0x47]

def rttProbeSize : ℕ := 12

def rttProbe (micros : UInt64) : Bytes :=
  pongTag ++ (List.range 8).map fun k => UInt8.ofNat (micros.toNat / 2 ^ (8 * k))

def parseRttProbe (buf : Bytes) : Option UInt64 :=
  if buf.length ≠ rttProbeSize ∨ buf.take 4 ≠ pongTag then none
  else some (UInt64.ofNat (((List.range 8).map fun k =>
    (byteAt buf (4 + k)).toNat * 2 ^ (8 * k)).sum))

end KmControl.GsProto
