import KmControl.HostAudio

/-!
The audio receiver of the client. Packets are told apart by the signed
difference of their numbers: forward, far back (the host has started anew) or a
little back (late or twice). The counters estimate the loss.
-/
namespace KmControl.MoonAudio

open ByteFields HostAudio

/-- A step back this far is a restart of the stream. -/
def resyncThreshold : Int16 := 1024

inductive AudioParseError where
  | tooShort (len : ℕ)
  | badVersion (byte : UInt8)
  | unsupportedHeader (byte : UInt8)
  | wrongPayloadType (payloadType : UInt8)
  | emptyPayload
deriving DecidableEq, Repr

structure AudioRtpHeader where
  sequence : UInt16
  timestamp : UInt32
  ssrc : UInt32
deriving DecidableEq, Repr

def parseRtpAudio (datagram : Bytes) : Except AudioParseError (AudioRtpHeader × Bytes) :=
  if datagram.length < rtpHeaderLen then .error (.tooShort datagram.length)
  else
    let b0 := byteAt datagram 0
    if b0 >>> 6 ≠ 2 then .error (.badVersion b0)
    else if b0 &&& 0x1F ≠ 0 then .error (.unsupportedHeader b0)
    else
      let payloadType := byteAt datagram 1 &&& 0x7F
      if payloadType ≠ audioPayloadType then .error (.wrongPayloadType payloadType)
      else
        let payload := datagram.drop rtpHeaderLen
        if payload = [] then .error .emptyPayload
        else .ok ({
          sequence := u16OfBe (byteAt datagram 2) (byteAt datagram 3)
          timestamp := u32OfBe (byteAt datagram 4) (byteAt datagram 5) (byteAt datagram 6)
            (byteAt datagram 7)
          ssrc := u32OfBe (byteAt datagram 8) (byteAt datagram 9) (byteAt datagram 10)
            (byteAt datagram 11) }, payload)

structure LossStats where
  received : ℕ
  expected : ℕ
  rejected : ℕ
deriving DecidableEq, Repr

/-- An estimate; late packets may make more received than expected. -/
def LossStats.lost (s : LossStats) : ℕ := s.expected - s.received

/-- The last number, if there was one. -/
structure SeqTracker where
  last : Option UInt16
deriving DecidableEq, Repr

inductive SeqStep where
  | resync
  | forward (gap : UInt16)
  | stale
deriving DecidableEq, Repr

/-- The verdict on a packet, given the last number. -/
def verdict (last seq : UInt16) : SeqStep :=
  let diff := (seq - last).toInt16
  if 0 < diff then .forward (diff.toUInt16 - 1)
  else if diff ≤ -resyncThreshold then .resync
  else .stale

def SeqTracker.advance (t : SeqTracker) (seq : UInt16) : SeqTracker × SeqStep :=
  match t.last with
  | none => (⟨some seq⟩, .resync)
  | some last =>
    match verdict last seq with
    | .stale => (t, .stale)
    | step => (⟨some seq⟩, step)

/-- What a verdict adds to the number of packets that are expected. -/
def SeqStep.expected : SeqStep → ℕ
  | .resync => 1
  | .forward gap => gap.toNat + 1
  | .stale => 0

/-- The receiver with its counters; the sink may be closed. -/
structure AudioDepacketizer where
  stats : LossStats
  tracker : SeqTracker
  sinkOpen : Bool
  delivered : List Bytes
deriving DecidableEq, Repr

namespace AudioDepacketizer

def new : AudioDepacketizer where
  stats := ⟨0, 0, 0⟩
  tracker := ⟨none⟩
  sinkOpen := true
  delivered := []

/-- Count a packet whatever its verdict, and pass its frame on. -/
def accept (rx : AudioDepacketizer) (header : AudioRtpHeader) (payload : Bytes) :
    AudioDepacketizer :=
  let (tracker, step) := rx.tracker.advance header.sequence
  { rx with
    tracker := tracker
    stats := { rx.stats with
      expected := rx.stats.expected + step.expected
      received := rx.stats.received + 1 }
    delivered := if rx.sinkOpen then rx.delivered ++ [payload] else rx.delivered }

def ingest (rx : AudioDepacketizer) (datagram : Bytes) :
    AudioDepacketizer × Except AudioParseError Bool :=
  match parseRtpAudio datagram with
  | .error e => ({ rx with stats := { rx.stats with rejected := rx.stats.rejected + 1 } }, .error e)
  | .ok (header, payload) => (rx.accept header payload, .ok rx.sinkOpen)

def ingestAll (rx : AudioDepacketizer) (datagrams : List Bytes) : AudioDepacketizer :=
  datagrams.foldl (fun rx datagram => (rx.ingest datagram).1) rx

end AudioDepacketizer

/-- The receiver reads back what the host has put into a packet. -/
theorem parseRtpAudio_packet (seq : UInt16) (timestamp : UInt32) {frame : Bytes}
    (h : frame ≠ []) :
    parseRtpAudio (packet seq timestamp frame) = .ok (⟨seq, timestamp, 0⟩, frame) := by
  have hlen : ¬ (packet seq timestamp frame).length < rtpHeaderLen := by
    simp only [packet, rtpHeaderLen, List.length_append, List.length_cons, List.length_nil,
      length_u16be, length_u32be]
    omega
  have hdrop : (packet seq timestamp frame).drop rtpHeaderLen = frame := rfl
  have hseq : u16OfBe (byteAt (packet seq timestamp frame) 2)
      (byteAt (packet seq timestamp frame) 3) = seq := u16OfLe_u16le seq
  have htime : u32OfBe (byteAt (packet seq timestamp frame) 4)
      (byteAt (packet seq timestamp frame) 5) (byteAt (packet seq timestamp frame) 6)
      (byteAt (packet seq timestamp frame) 7) = timestamp := u32OfLe_u32le timestamp
  have hssrc : u32OfBe (byteAt (packet seq timestamp frame) 8)
      (byteAt (packet seq timestamp frame) 9) (byteAt (packet seq timestamp frame) 10)
      (byteAt (packet seq timestamp frame) 11) = 0 := u32OfLe_u32le 0
  have hversion : byteAt (packet seq timestamp frame) 0 = 0x80 := rfl
  have htype : byteAt (packet seq timestamp frame) 1 = audioPayloadType := rfl
  unfold parseRtpAudio
  rw [if_neg hlen, hseq, htime, hssrc, hdrop, hversion, htype]
  simp only [h, if_false]
  rfl

end KmControl.MoonAudio
