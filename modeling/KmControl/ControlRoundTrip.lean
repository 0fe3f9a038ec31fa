import KmControl.HostControl
import KmControl.MoonControl

/-!
The control channel from end to end: what the client seals has at the host exactly
the effect that the client meant, and what the host seals the client opens.
-/
namespace KmControl.ControlRoundTrip

open ByteFields ControlWire GsProto HostControl MoonControl

/-- What an input event means at the host. -/
def meant : InputEvent → Action
  | .mousePosition x y refW refH =>
    Action.mouseMoveAbs x.toInt32 y.toInt32 refW.toInt32 refH.toInt32
  | .mouseButton button down => Action.mouseButton button down
  | .key keyCode down _ => Action.key keyCode.toUInt16 down
  | .scroll amount => Action.scroll amount.toInt32 false

theorem i16OfBe_u16be (x : Int16) :
    i16OfBe (byteAt (u16be x.toUInt16) 0) (byteAt (u16be x.toUInt16) 1) = x := by
  unfold i16OfBe
  rw [show u16OfBe (byteAt (u16be x.toUInt16) 0) (byteAt (u16be x.toUInt16) 1) = x.toUInt16 from
    u16OfLe_u16le x.toUInt16]
  exact Int16.toInt16_toUInt16 x

theorem put_eq {p s : Bytes} (h : p.length + s.length ≤ maxPayload) : put p s = p ++ s := by
  unfold put
  rw [List.take_of_length_le (by omega)]

/-- Header and body of an input message. -/
theorem parseInput_append (n magic : UInt32) (body : Bytes) :
    parseInput (u32be n ++ u32le magic ++ body) = actionOf magic body := by
  unfold parseInput
  rw [if_neg (by simp; omega)]
  exact congrArg (actionOf · body) (u32OfLe_u32le magic)

/-- The host reads from a payload the action that the client has put into it. -/
theorem parseInput_encodeInput (ev : InputEvent) :
    parseInput (encodeInput ev) = some (meant ev) := by
  cases ev with
  | mousePosition x y refW refH =>
    have hbytes : encodeInput (.mousePosition x y refW refH) = u32be 14 ++
        u32le inMagicMouseMoveAbs ++ (u16be x.toUInt16 ++ u16be y.toUInt16 ++ u16be 0 ++
          u16be refW.toUInt16 ++ u16be refH.toUInt16) := by
      simp (disch := exact Nat.le_of_ble_eq_true rfl) only [encodeInput, put_eq, List.nil_append,
        List.append_assoc]
    rw [hbytes, parseInput_append]
    change some (Action.mouseMoveAbs
      (i16OfBe (byteAt (u16be x.toUInt16) 0) (byteAt (u16be x.toUInt16) 1)).toInt32
      (i16OfBe (byteAt (u16be y.toUInt16) 0) (byteAt (u16be y.toUInt16) 1)).toInt32
      (i16OfBe (byteAt (u16be refW.toUInt16) 0) (byteAt (u16be refW.toUInt16) 1)).toInt32
      (i16OfBe (byteAt (u16be refH.toUInt16) 0) (byteAt (u16be refH.toUInt16) 1)).toInt32) = _
    rw [i16OfBe_u16be, i16OfBe_u16be, i16OfBe_u16be, i16OfBe_u16be]
    rfl
  | mouseButton button down =>
    have hbytes : encodeInput (.mouseButton button down) = u32be 5 ++
        u32le (if down then inMagicMouseBtnDown else inMagicMouseBtnUp) ++ [button] := by
      simp (disch := exact Nat.le_of_ble_eq_true rfl) only [encodeInput, put_eq, List.nil_append,
        List.append_assoc]
    rw [hbytes, parseInput_append]
    cases down <;> rfl
  | key keyCode down modifiers =>
    have hbytes : encodeInput (.key keyCode down modifiers) = u32be 10 ++
        u32le (if down then inMagicKeyDown else inMagicKeyUp) ++
          ([0] ++ u16le keyCode.toUInt16 ++ [modifiers] ++ u16le 0) := by
      simp (disch := exact Nat.le_of_ble_eq_true rfl) only [encodeInput, put_eq, List.nil_append,
        List.append_assoc]
    have hbody : keyFromBody ([0] ++ u16le keyCode.toUInt16 ++ [modifiers] ++ u16le 0) down =
        some (Action.key keyCode.toUInt16 down) :=
      congrArg (fun vk => some (Action.key vk down)) (u16OfLe_u16le keyCode.toUInt16)
    rw [hbytes, parseInput_append]
    cases down <;> exact hbody
  | scroll amount =>
    have hbytes : encodeInput (.scroll amount) = u32be 10 ++ u32le inMagicScroll ++
        (u16be amount.toUInt16 ++ u16be amount.toUInt16 ++ u16be 0) := by
      simp (disch := exact Nat.le_of_ble_eq_true rfl) only [encodeInput, put_eq, List.nil_append,
        List.append_assoc]
    rw [hbytes, parseInput_append]
    exact congrArg (fun x : Int16 => some (Action.scroll x.toInt32 false)) (i16OfBe_u16be amount)

theorem length_put_le (p s : Bytes) (h : p.length ≤ maxPayload) :
    (put p s).length ≤ maxPayload := by
  unfold put
  rw [List.length_append, List.length_take]
  omega

theorem length_encodeInput_le (ev : InputEvent) : (encodeInput ev).length ≤ maxPayload := by
  cases ev with
  | mousePosition | mouseButton | key | scroll =>
    repeat apply length_put_le
    exact Nat.zero_le _

variable (gcm : AesGcm) (key : Key) (seq : UInt32)

/-- The host opens what the client has sealed. -/
theorem handlePacket_encodeEncrypted (innerType : UInt16) {payload : Bytes}
    (hsize : payload.length ≤ maxPayload) :
    handlePacket gcm (some ⟨key.bytes⟩) (encodeEncrypted gcm key seq innerType payload) =
      dispatch innerType payload := by
  let plaintext := u16le innerType ++ u16le (UInt16.ofNat payload.length) ++ payload
  have hplain : plaintext.length = 4 + payload.length := by
    simp only [plaintext, List.length_append, length_u16le]
  have hbound : (gcm.encrypt key (clientIv seq) plaintext).1.length ≤ 65515 := by
    rw [gcm.length_ciphertext, hplain]
    exact (Nat.add_le_add_left hsize 4).trans (by decide)
  have hparts := sealedParts_sealedMessage seq (gcm.length_tag key (clientIv seq) plaintext) hbound
  obtain ⟨body, hheader⟩ : ∃ body, parseHeader (encodeEncrypted gcm key seq innerType payload) =
      some (msgEncrypted, body) := parseHeader_sealedMessage _ _ _
  have hdecrypt : HostControl.decryptMessage gcm (some ⟨key.bytes⟩)
      (encodeEncrypted gcm key seq innerType payload) = some plaintext := by
    unfold HostControl.decryptMessage
    change (sealedParts (sealedMessage seq _ _)).bind _ = _
    rw [hparts, Option.bind_some]
    change (if h : key.bytes.length = 16 then gcm.decrypt ⟨key.bytes, h⟩ (clientIv seq) _ _
      else none) = _
    rw [dif_pos key.length_bytes]
    exact gcm.decrypt_encrypt key (clientIv seq) plaintext
  refine handlePacket_of_effective ?_
  rw [effective_of_encrypted hheader, hdecrypt]
  exact parseHeader_append innerType _ payload

/-- The client opens what the host has sealed. -/
theorem decryptMessage_encodeControlMessage {plaintext : Bytes} (hsize : plaintext.length ≤ 65515) :
    MoonControl.decryptMessage gcm key (encodeControlMessage gcm key seq plaintext) =
      some plaintext := by
  have hbound : (gcm.encrypt key (hostIv seq) plaintext).1.length ≤ 65515 :=
    (gcm.length_ciphertext key (hostIv seq) plaintext).trans_le hsize
  have hparts := sealedParts_sealedMessage seq (gcm.length_tag key (hostIv seq) plaintext) hbound
  unfold MoonControl.decryptMessage
  change (sealedParts (sealedMessage seq _ _)).bind _ = _
  rw [hparts, Option.bind_some]
  exact gcm.decrypt_encrypt key (hostIv seq) plaintext

/-- The control channel from end to end, for every key and sequence number. -/
theorem control_end_to_end :
    (∀ ev : InputEvent, handlePacket gcm (some ⟨key.bytes⟩)
        (encodeEncrypted gcm key seq msgInputData (encodeInput ev)) =
          [Effect.inject (encodeInput ev)] ∧ parseInput (encodeInput ev) = some (meant ev) ∧
            inject (encodeInput ev) = perform (meant ev)) ∧
      (∀ st : FrameFecStatus, handlePacket gcm (some ⟨key.bytes⟩)
        (encodeEncrypted gcm key seq msgFrameFecStatus (fecStatusPayload st)) =
          (st.lossFraction.map Effect.onLoss).toList) ∧
      handlePacket gcm (some ⟨key.bytes⟩)
        (encodeEncrypted gcm key seq msgRequestIdr requestIdrPayload) = [Effect.requestIdr] ∧
      handlePacket gcm (some ⟨key.bytes⟩)
        (encodeEncrypted gcm key seq msgStartB startBPayload) = [Effect.trigger] ∧
      handlePacket gcm (some ⟨key.bytes⟩)
        (encodeEncrypted gcm key seq msgPing MoonControl.pingPayload) = [] ∧
      ∀ plaintext : Bytes, plaintext.length ≤ 65515 →
        MoonControl.decryptMessage gcm key (encodeControlMessage gcm key seq plaintext) =
          some plaintext := by
  refine ⟨fun ev => ⟨?_, parseInput_encodeInput ev, ?_⟩, fun st => ?_, ?_, ?_, ?_, fun plaintext hsize => ?_⟩
  · exact handlePacket_encodeEncrypted gcm key seq msgInputData (length_encodeInput_le ev)
  · unfold inject
    rw [parseInput_encodeInput]
    rfl
  · have hput : fecStatusPayload st = st.bytes := put_eq (Nat.le_of_ble_eq_true rfl)
    rw [hput, handlePacket_encodeEncrypted gcm key seq msgFrameFecStatus
      (Nat.le_of_ble_eq_true rfl), dispatch_frameFecStatus, FrameFecStatus.parse_bytes,
      Option.bind_some]
  · exact handlePacket_encodeEncrypted gcm key seq msgRequestIdr (by decide)
  · exact handlePacket_encodeEncrypted gcm key seq msgStartB (by decide)
  · exact handlePacket_encodeEncrypted gcm key seq msgPing (by decide)
  · exact decryptMessage_encodeControlMessage gcm key seq hsize

def zeroKey : Key := ⟨List.replicate 16 0, rfl⟩

theorem control_end_to_end_termination :
    MoonControl.decryptMessage aes128Gcm zeroKey
      (encodeControlMessage aes128Gcm zeroKey 7 [0x09, 0x01, 0x04, 0x00, 0x80, 0x03, 0x00, 0x23]) =
        some [0x09, 0x01, 0x04, 0x00, 0x80, 0x03, 0x00, 0x23] :=
  (control_end_to_end aes128Gcm zeroKey 7).2.2.2.2.2 _ (by decide)

end KmControl.ControlRoundTrip
