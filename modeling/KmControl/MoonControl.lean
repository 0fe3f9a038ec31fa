import KmControl.ControlWire

/-!
The client's end of the control channel: the messages it builds, and how it opens
what the host has sealed.
-/
namespace KmControl.MoonControl

open ByteFields ControlWire GsProto

/-- An input of the admin that is to be replayed at the host. -/
inductive InputEvent where
  | mousePosition (x y refW refH : Int16)
  | mouseButton (button : UInt8) (down : Bool)
  | key (keyCode : Int16) (down : Bool) (modifiers : UInt8)
  | scroll (amount : Int16)
deriving DecidableEq, Repr

def inMagicKeyDown : UInt32 := 0x3
def inMagicKeyUp : UInt32 := 0x4
def inMagicMouseMoveAbs : UInt32 := 0x5
def inMagicMouseBtnDown : UInt32 := 0x8
def inMagicMouseBtnUp : UInt32 := 0x9
def inMagicScroll : UInt32 := 0xA

/-- The longest payload of a message. -/
def maxPayload : ℕ := 24

/-- `PayloadBuf::put`, which cuts off what does not fit. -/
def put (p s : Bytes) : Bytes := p ++ s.take (maxPayload - p.length)

def startBPayload : Bytes := put [] [0]

def pingPayload : Bytes := put (put (put [] (u16le 4)) (u32le 0)) (u16le 0)

def requestIdrPayload : Bytes := put [] [0, 0]

def fecStatusPayload (st : FrameFecStatus) : Bytes := put [] st.bytes

/-- Size (without itself) and kind, then the fields, whose byte order differs from
kind to kind. -/
def encodeInput : InputEvent → Bytes
  | .mousePosition x y refW refH =>
    put (put (put (put (put (put (put [] (u32be 14)) (u32le inMagicMouseMoveAbs))
      (u16be x.toUInt16)) (u16be y.toUInt16)) (u16be 0)) (u16be refW.toUInt16))
        (u16be refH.toUInt16)
  | .mouseButton button down =>
    put (put (put [] (u32be 5))
      (u32le (if down then inMagicMouseBtnDown else inMagicMouseBtnUp))) [button]
  | .key keyCode down modifiers =>
    put (put (put (put (put (put [] (u32be 10))
      (u32le (if down then inMagicKeyDown else inMagicKeyUp))) [0])
        (u16le keyCode.toUInt16)) [modifiers]) (u16le 0)
  | .scroll amount =>
    put (put (put (put (put [] (u32be 10)) (u32le inMagicScroll)) (u16be amount.toUInt16))
      (u16be amount.toUInt16)) (u16be 0)

/-- The inner header and the payload, sealed under the client's IV. -/
def encodeEncrypted (gcm : AesGcm) (key : Key) (seq : UInt32) (innerType : UInt16)
    (payload : Bytes) : Bytes :=
  let plaintext := u16le innerType ++ u16le (UInt16.ofNat payload.length) ++ payload
  let (ciphertext, tag) := gcm.encrypt key (clientIv seq) plaintext
  sealedMessage seq tag ciphertext

def decryptMessage (gcm : AesGcm) (key : Key) (buf : Bytes) : Option Bytes := do
  let (seq, tag, ciphertext) ← sealedParts buf
  gcm.decrypt key (hostIv seq) ciphertext tag

end KmControl.MoonControl
