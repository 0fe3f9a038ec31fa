import KmControl.Negotiation
import KmControl.PacketizerShards

/-!
The packet size on its way from the session description to the packetizer. The
hook replaces only the size zero, but a shard needs room for more than the
packet header: smaller sizes stop the packetizer on its first line.
-/
namespace KmControl.PacketSize

open ByteFields GsProto Negotiation Packetizer

/-- The frame that the video task packetizes for the negotiated parameters. -/
def frameFor (ctx : StreamContext) (encodedData : Bytes) (isKeyFrame : Bool)
    (frameNumber rtpTimestamp : UInt32) (fecPercentage : ℕ) : Frame where
  encodedData := encodedData
  isKeyFrame := isKeyFrame
  requestedPacketSize := ctx.requestedPacketSize
  frameNumber := frameNumber
  rtpTimestamp := rtpTimestamp
  fecPercentage := fecPercentage

theorem packetizeFrame_eq_none (rs : FecRs) {f : Frame} (c : Counters)
    (h : f.requestedPacketSize ≤ nvVideoPacketSize) : packetizeFrame rs f c = none := by
  unfold packetizeFrame
  split
  · rfl
  · have hzero : f.shardPayloadSize = 0 := Nat.sub_eq_zero_of_le h
    rw [if_pos hzero]

theorem isSome_packetizeFrame {rs : FecRs} (hrs : rs.Lawful) (f : Frame) (c : Counters) :
    (packetizeFrame rs f c).isSome = true ↔ nvVideoPacketSize < f.requestedPacketSize := by
  constructor
  · intro h
    by_contra hsize
    rw [packetizeFrame_eq_none rs c (Nat.le_of_not_lt hsize)] at h
    exact Bool.noConfusion h
  · intro hsize
    obtain ⟨shards, hshards, -⟩ := PacketizerShards.packetizeFrame_eq f hrs c hsize
    rw [hshards]
    rfl

theorem lt_requestedPacketSize (ctx : StreamContext) :
    nvVideoPacketSize < ctx.requestedPacketSize ↔
      ctx.packetSize = 0 ∨ nvVideoPacketSize < ctx.packetSize.toNat := by
  unfold StreamContext.requestedPacketSize
  by_cases hzero : ctx.packetSize = 0
  · simp [hzero, nvVideoPacketSize]
  · simp [hzero]

/-- After any announcements, packetizing succeeds on every frame exactly for the
sizes that leave room for payload. -/
theorem packetizes_iff {rs : FecRs} (hrs : rs.Lawful)
    (announced : List (Option (Attribute → Option UInt32))) (encodedData : Bytes)
    (isKeyFrame : Bool) (frameNumber rtpTimestamp : UInt32) (fecPercentage : ℕ) (c : Counters) :
    let ctx := play (announced.foldl announce none)
    (packetizeFrame rs (frameFor ctx encodedData isKeyFrame frameNumber rtpTimestamp
      fecPercentage) c).isSome = true ↔
      ctx.packetSize = 0 ∨ nvVideoPacketSize < ctx.packetSize.toNat :=
  (isSome_packetizeFrame hrs _ c).trans (lt_requestedPacketSize _)

theorem packetizes_unannounced : ∃ rs : FecRs, rs.Lawful ∧
    (packetizeFrame rs (frameFor (play none) [1, 2, 3] true 0 0 20) ⟨0, 0⟩).isSome = true := by
  obtain ⟨rs, hrs⟩ := FecRs.exists_lawful
  exact ⟨rs, hrs, (packetizes_iff hrs [] [1, 2, 3] true 0 0 20 ⟨0, 0⟩).mpr (Or.inl rfl)⟩

/-- A client may ask for packets that hold only the packet header. -/
theorem faults_at_header_size :
    let ctx := play (announce none (some fun _ => some 16))
    ∃ rs : FecRs, rs.Lawful ∧
      packetizeFrame rs (frameFor ctx [1, 2, 3] true 0 0 20) ⟨0, 0⟩ = none := by
  obtain ⟨rs, hrs⟩ := FecRs.exists_lawful
  exact ⟨rs, hrs, packetizeFrame_eq_none rs ⟨0, 0⟩ (by decide)⟩

end KmControl.PacketSize
