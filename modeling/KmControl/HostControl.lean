import KmControl.ControlWire

/-!
The host's end of the control channel: one handler for every packet, and the
injector that turns an input message into input for the desktop.
-/
namespace KmControl.HostControl

open ByteFields ControlWire GsProto

/-- The parameters of the session that was launched, as far as the channel uses them. -/
structure LaunchSession where
  remoteInputKey : Bytes

/-- What a packet may set off. -/
inductive Effect where
  | trigger
  | requestIdr
  | inject (payload : Bytes)
  | onLoss (fraction : ℚ)
deriving DecidableEq

/-- Opens a sealed message under the key of the current session. -/
def decryptMessage (gcm : AesGcm) (session : Option LaunchSession) (buf : Bytes) :
    Option Bytes := do
  let (seq, tag, ciphertext) ← sealedParts buf
  let s ← session
  if h : s.remoteInputKey.length = 16 then
    gcm.decrypt ⟨s.remoteInputKey, h⟩ (clientIv seq) ciphertext tag
  else none

/-- What a message of this type and payload sets off. -/
def dispatch (effectiveType : UInt16) (payload : Bytes) : List Effect :=
  if effectiveType = msgStartB then [Effect.trigger]
  else if effectiveType = msgPing then []
  else if effectiveType = msgRequestIdr ∨ effectiveType = msgInvalidateRef then
    [Effect.requestIdr]
  else if effectiveType = msgInputData then [Effect.inject payload]
  else if effectiveType = msgFrameFecStatus then
    (((FrameFecStatus.parse payload).bind FrameFecStatus.lossFraction).map Effect.onLoss).toList
  else []

theorem dispatch_frameFecStatus (payload : Bytes) : dispatch msgFrameFecStatus payload =
    (((FrameFecStatus.parse payload).bind FrameFecStatus.lossFraction).map Effect.onLoss).toList :=
  rfl

/-- The type and the payload that count: those inside a sealed message, or those of
the packet itself. -/
def effective (gcm : AesGcm) (session : Option LaunchSession) (buf : Bytes) :
    Option (UInt16 × Bytes) := do
  let (msgType, body) ← parseHeader buf
  if msgType = msgEncrypted then
    let plain ← decryptMessage gcm session buf
    parseHeader plain
  else some (msgType, body)

def handlePacket (gcm : AesGcm) (session : Option LaunchSession) (buf : Bytes) : List Effect :=
  match effective gcm session buf with
  | some (effectiveType, payload) => dispatch effectiveType payload
  | none => []

section Packets

variable {gcm : AesGcm} {session : Option LaunchSession} {buf : Bytes}

theorem effective_of_encrypted {body : Bytes} (h : parseHeader buf = some (msgEncrypted, body)) :
    effective gcm session buf = (decryptMessage gcm session buf).bind parseHeader := by
  unfold effective
  rw [h, Option.bind_eq_bind, Option.bind_some]
  exact if_pos rfl

theorem effective_of_clear {msgType : UInt16} {body : Bytes}
    (h : parseHeader buf = some (msgType, body)) (hclear : msgType ≠ msgEncrypted) :
    effective gcm session buf = some (msgType, body) := by
  unfold effective
  rw [h, Option.bind_eq_bind, Option.bind_some]
  exact if_neg hclear

theorem handlePacket_of_effective {innerType : UInt16} {payload : Bytes}
    (h : effective gcm session buf = some (innerType, payload)) :
    handlePacket gcm session buf = dispatch innerType payload := by
  unfold handlePacket
  rw [h]

theorem handlePacket_of_none (h : effective gcm session buf = none) :
    handlePacket gcm session buf = [] := by
  unfold handlePacket
  rw [h]

end Packets

def encodeControlMessage (gcm : AesGcm) (key : Key) (seq : UInt32) (payload : Bytes) : Bytes :=
  let (ciphertext, tag) := gcm.encrypt key (hostIv seq) payload
  sealedMessage seq tag ciphertext

/-- The flags of `MOUSEINPUT`. -/
inductive MouseFlag where
  | move
  | absolute
  | leftDown
  | leftUp
  | middleDown
  | middleUp
  | rightDown
  | rightUp
  | xDown
  | xUp
  | wheel
  | hWheel
deriving DecidableEq, Repr

/-- What is handed to `SendInput`. -/
inductive Input where
  | mouse (flags : List MouseFlag) (dx dy mouseData : Int32)
  | keyboard (vk : UInt16) (extended keyUp : Bool)
deriving DecidableEq, Repr

def magicKeyDown : UInt32 := 0x3
def magicKeyUp : UInt32 := 0x4
def magicMouseMoveAbs : UInt32 := 0x5
def magicMouseMoveRel : UInt32 := 0x6
def magicMouseMoveRelGen5 : UInt32 := 0x7
def magicMouseBtnDownGen5 : UInt32 := 0x8
def magicMouseBtnUpGen5 : UInt32 := 0x9
def magicScrollGen5 : UInt32 := 0xA
def magicHscroll : UInt32 := 0x55000001

def i16OfBe (a b : UInt8) : Int16 := (u16OfBe a b).toInt16

/-- What a well-formed payload asks for. -/
inductive Action where
  | mouseMoveRel (dx dy : Int32)
  | mouseMoveAbs (x y w h : Int32)
  | mouseButton (button : UInt8) (down : Bool)
  | key (vk : UInt16) (down : Bool)
  | scroll (amount : Int32) (horizontal : Bool)
deriving DecidableEq, Repr

def buttonBody (body : Bytes) (down : Bool) : Option Action :=
  body.head?.map fun button => Action.mouseButton button down

def keyFromBody (body : Bytes) (down : Bool) : Option Action :=
  if 3 ≤ body.length then some (Action.key (u16OfLe (byteAt body 1) (byteAt body 2)) down)
  else none

def scrollBody (body : Bytes) (horizontal : Bool) : Option Action :=
  if 2 ≤ body.length then
    some (Action.scroll (i16OfBe (byteAt body 0) (byteAt body 1)).toInt32 horizontal)
  else none

def moveRelBody (body : Bytes) : Option Action :=
  if 4 ≤ body.length then
    some (Action.mouseMoveRel (i16OfBe (byteAt body 0) (byteAt body 1)).toInt32
      (i16OfBe (byteAt body 2) (byteAt body 3)).toInt32)
  else none

def moveAbsBody (body : Bytes) : Option Action :=
  if 10 ≤ body.length then
    some (Action.mouseMoveAbs (i16OfBe (byteAt body 0) (byteAt body 1)).toInt32
      (i16OfBe (byteAt body 2) (byteAt body 3)).toInt32
      (i16OfBe (byteAt body 6) (byteAt body 7)).toInt32
      (i16OfBe (byteAt body 8) (byteAt body 9)).toInt32)
  else none

/-- The action that a payload of this kind asks for; anything else is ignored. -/
def actionOf (magic : UInt32) (body : Bytes) : Option Action :=
  if magic = magicMouseMoveRel ∨ magic = magicMouseMoveRelGen5 then moveRelBody body
  else if magic = magicMouseMoveAbs then moveAbsBody body
  else if magic = magicMouseBtnDownGen5 then buttonBody body true
  else if magic = magicMouseBtnUpGen5 then buttonBody body false
  else if magic = magicKeyDown then keyFromBody body true
  else if magic = magicKeyUp then keyFromBody body false
  else if magic = magicScrollGen5 then scrollBody body false
  else if magic = magicHscroll then scrollBody body true
  else none

def parseInput (payload : Bytes) : Option Action :=
  if payload.length < 8 then none
  else actionOf (u32OfLe (byteAt payload 4) (byteAt payload 5) (byteAt payload 6)
    (byteAt payload 7)) (payload.drop 8)

/-- The position in the absolute coordinates 0 to 65535; the division truncates. -/
def mouseMoveAbs (x y w h : Int32) : List Input :=
  if w ≤ 0 ∨ h ≤ 0 then []
  else
    let nx := (x.toInt64 * 65535 / w.toInt64).toInt32
    let ny := (y.toInt64 * 65535 / h.toInt64).toInt32
    [Input.mouse [.move, .absolute] nx ny 0]

def mouseButton (button : UInt8) (down : Bool) : List Input :=
  if button = 1 then [Input.mouse [if down then .leftDown else .leftUp] 0 0 0]
  else if button = 2 then [Input.mouse [if down then .middleDown else .middleUp] 0 0 0]
  else if button = 3 then [Input.mouse [if down then .rightDown else .rightUp] 0 0 0]
  else if button = 4 then [Input.mouse [if down then .xDown else .xUp] 0 0 1]
  else if button = 5 then [Input.mouse [if down then .xDown else .xUp] 0 0 2]
  else []

def isExtended (vk : UInt16) : Bool :=
  (decide (0x21 ≤ vk) && decide (vk ≤ 0x28)) ||
    [0x2D, 0x2E, 0xA3, 0xA5, 0x5B, 0x5C, 0x6F, 0x90].contains vk

def perform : Action → List Input
  | .mouseMoveRel dx dy => [Input.mouse [.move] dx dy 0]
  | .mouseMoveAbs x y w h => mouseMoveAbs x y w h
  | .mouseButton button down => mouseButton button down
  | .key vk down => [Input.keyboard vk (isExtended vk) (!down)]
  | .scroll amount horizontal => [Input.mouse [if horizontal then .hWheel else .wheel] 0 0 amount]

/-- The input that a payload leads to. -/
def inject (payload : Bytes) : List Input := (parseInput payload).elim [] perform

end KmControl.HostControl
