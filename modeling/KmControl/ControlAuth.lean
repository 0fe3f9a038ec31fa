import KmControl.HostControl

/-!
What the host does on packets that nobody has authenticated. A packet of the
encrypted type has an effect only through a message that its tag vouches for, but
a packet of any other type is taken as it comes.
-/
namespace KmControl.ControlAuth

open ByteFields ControlWire HostControl

/-- The packet is an encrypted message that the key of the current session opens. -/
structure Verified (gcm : AesGcm) (session : Option LaunchSession) (buf plain : Bytes) : Prop where
  encrypted : ∃ body, parseHeader buf = some (msgEncrypted, body)
  opened : ∃ s key seq tag ciphertext, session = some s ∧ s.remoteInputKey = key.bytes ∧
    sealedParts buf = some (seq, tag, ciphertext) ∧
      gcm.decrypt key (clientIv seq) ciphertext tag = some plain

/-- If the packet has an effect, it is verified, and the effect is that of its content. -/
def OnlyAuthenticated (gcm : AesGcm) (session : Option LaunchSession) (buf : Bytes) : Prop :=
  handlePacket gcm session buf ≠ [] → ∃ plain, Verified gcm session buf plain ∧
    ∃ innerType payload, parseHeader plain = some (innerType, payload) ∧
      handlePacket gcm session buf = dispatch innerType payload

/-- The packet is of another than the encrypted type and asks for something itself. -/
def InTheClear (buf : Bytes) : Prop :=
  ∃ msgType body, parseHeader buf = some (msgType, body) ∧ msgType ≠ msgEncrypted ∧
    dispatch msgType body ≠ []

variable {gcm : AesGcm} {session : Option LaunchSession} {buf plain : Bytes}

theorem opened_of_decryptMessage (h : decryptMessage gcm session buf = some plain) :
    ∃ s key seq tag ciphertext, session = some s ∧ s.remoteInputKey = key.bytes ∧
      sealedParts buf = some (seq, tag, ciphertext) ∧
        gcm.decrypt key (clientIv seq) ciphertext tag = some plain := by
  unfold decryptMessage at h
  obtain ⟨⟨seq, tag, ciphertext⟩, hparts, h⟩ := Option.bind_eq_some_iff.mp h
  obtain ⟨s, hsession, h⟩ := Option.bind_eq_some_iff.mp h
  by_cases hlen : s.remoteInputKey.length = 16
  · rw [dif_pos hlen] at h
    exact ⟨s, ⟨s.remoteInputKey, hlen⟩, seq, tag, ciphertext, hsession, rfl, hparts, h⟩
  · rw [dif_neg hlen] at h
    cases h

/-- A packet of the encrypted type has an effect only if it is verified. -/
theorem onlyAuthenticated_of_encrypted {body : Bytes}
    (h : parseHeader buf = some (msgEncrypted, body)) : OnlyAuthenticated gcm session buf := by
  intro heffect
  have heffective : effective gcm session buf = _ := effective_of_encrypted h
  cases hplain : decryptMessage gcm session buf with
  | none =>
    rw [hplain] at heffective
    exact absurd (handlePacket_of_none heffective) heffect
  | some plain =>
    rw [hplain] at heffective
    cases hinner : parseHeader plain with
    | none => exact absurd (handlePacket_of_none (heffective.trans hinner)) heffect
    | some inner =>
      refine ⟨plain, ⟨⟨body, h⟩, opened_of_decryptMessage hplain⟩, inner.1, inner.2, hinner, ?_⟩
      exact handlePacket_of_effective (heffective.trans hinner)

/-- What a packet asks for in the clear it gets without being verified. -/
theorem not_onlyAuthenticated_of_inTheClear (h : InTheClear buf) :
    ¬ OnlyAuthenticated gcm session buf := by
  obtain ⟨msgType, body, hheader, hclear, hasks⟩ := h
  intro hauth
  have hhandle : handlePacket gcm session buf = dispatch msgType body :=
    handlePacket_of_effective (effective_of_clear hheader hclear)
  obtain ⟨plain, hverified, -⟩ := hauth (hhandle ▸ hasks)
  obtain ⟨body', hencrypted⟩ := hverified.encrypted
  rw [hheader] at hencrypted
  cases hencrypted
  exact hclear rfl

/-- A packet has effects on authority alone exactly if it does not ask for something
in the clear. -/
theorem onlyAuthenticated_iff (gcm : AesGcm) (session : Option LaunchSession) (buf : Bytes) :
    OnlyAuthenticated gcm session buf ↔ ¬ InTheClear buf := by
  constructor
  · intro hauth hclear
    exact not_onlyAuthenticated_of_inTheClear hclear hauth
  · intro hquiet
    cases hheader : parseHeader buf with
    | none =>
      have hnone : effective gcm session buf = none := by
        unfold effective
        rw [hheader]
        rfl
      exact fun heffect => absurd (handlePacket_of_none hnone) heffect
    | some header =>
      obtain ⟨msgType, body⟩ := header
      by_cases hencrypted : msgType = msgEncrypted
      · subst hencrypted
        exact onlyAuthenticated_of_encrypted hheader
      · intro heffect
        rw [handlePacket_of_effective (effective_of_clear hheader hencrypted)] at heffect
        exact absurd ⟨msgType, body, hheader, hencrypted, heffect⟩ hquiet

/-- The press of a key, sent without encryption. -/
def clearKeyPress : Bytes :=
  u16le msgInputData ++ u16le 14 ++ (u32be 10 ++ u32le magicKeyDown ++ [0, 65, 0, 0, 0, 0])

theorem unauthenticated_input_injected :
    ¬ ∀ gcm session buf, OnlyAuthenticated gcm session buf := by
  intro h
  refine not_onlyAuthenticated_of_inTheClear ?_ (h aes128Gcm none clearKeyPress)
  exact ⟨msgInputData, _, rfl, by decide, by decide⟩

end KmControl.ControlAuth
