import KmControl.MoonControl
import KmControl.Machine

/-!
The client's task for the control channel. It connects, says that streaming may begin,
and then takes messages from a queue, pings and serves ENet in turn, until it is told
to stop. All messages go through one function, which numbers and seals them. Times are
milliseconds.
-/
namespace KmControl.ControlChannel

open ByteFields ControlWire MoonControl

def pingInterval : ℕ := 100
def connectTimeout : ℕ := 10000

inductive PacketMode where
  | reliableSequenced
  | unsequenced
deriving DecidableEq, Repr

structure OutMsg where
  ty : UInt16
  mode : PacketMode
  payload : Bytes
deriving DecidableEq, Repr

inductive Cmd where
  | msg (msg : OutMsg)
  | shutdown
deriving DecidableEq, Repr

/-- What a message meets at ENet: no peer, one that is not connected, or one that takes
the packet or fails to. -/
inductive Peer where
  | missing
  | notConnected
  | connected (takes : Bool)
deriving DecidableEq, Repr

/-- What a call of the ENet service returns. -/
inductive Service where
  | connected
  | disconnected
  | received (buf : Bytes)
  | nothing
  | error
deriving DecidableEq, Repr

structure Shared where
  alive : Bool
  termCode : Option Int32
deriving DecidableEq, Repr

/-- Where the task is in its code. -/
inductive Phase where
  | handshake
  | flushing
  | draining
  | pinging
  | serving
  | stopped
  | failed
deriving DecidableEq, Repr

structure Channel where
  phase : Phase
  seq : UInt32
  queue : List Cmd
  /-- The handle is gone. -/
  dropped : Bool
  shared : Shared
  nextPing : ℕ
  /-- The IVs that messages have been sealed under. -/
  ivs : List Bytes
  /-- What ENet has taken. -/
  sent : List (Bytes × PacketMode)
deriving DecidableEq, Repr

def startB : OutMsg := ⟨msgStartB, .reliableSequenced, startBPayload⟩

def ping : OutMsg := ⟨msgPing, .reliableSequenced, MoonControl.pingPayload⟩

/-- The reason for the end of a session, in a long or a short form. -/
def terminationCode (payload : Bytes) : Int32 :=
  if 4 ≤ payload.length then
    (u32OfBe (byteAt payload 0) (byteAt payload 1) (byteAt payload 2) (byteAt payload 3)).toInt32
  else if 2 ≤ payload.length then
    Int32.ofNat (u16OfLe (byteAt payload 0) (byteAt payload 1)).toNat
  else 0

variable (gcm : AesGcm) (key : Key)

/-- The type and the payload of a packet, once decrypted if it has to be. -/
def effective (buf : Bytes) : Option (UInt16 × Bytes) := do
  let (msgType, body) ← parseHeader buf
  if msgType = msgEncrypted then parseHeader (← decryptMessage gcm key buf)
  else return (msgType, body)

def handleInbound (sh : Shared) (buf : Bytes) : Shared :=
  match effective gcm key buf with
  | some (effectiveType, payload) =>
    if effectiveType = msgTerminationExt then
      { alive := false, termCode := some (terminationCode payload) }
    else sh
  | none => sh

namespace Channel

/-- Seal a message and hand it to ENet. The number is used up whatever becomes of it. -/
def queueMsg (c : Channel) (peer : Peer) (msg : OutMsg) : Channel × Bool :=
  let bytes := encodeEncrypted gcm key c.seq msg.ty msg.payload
  let c := { c with seq := c.seq + 1, ivs := c.ivs ++ [clientIv c.seq] }
  match peer with
  | .connected true => ({ c with sent := c.sent ++ [(bytes, msg.mode)] }, true)
  | _ => (c, false)

def stop (c : Channel) : Channel :=
  { c with phase := .stopped, shared := { c.shared with alive := false } }

/-- One turn of the handshake in `connect`. -/
def shake (c : Channel) (now : ℕ) (peer : Peer) (service : Service) : Channel :=
  if connectTimeout ≤ now then { c with phase := .failed }
  else
    match service with
    | .connected =>
      let (c, ok) := c.queueMsg gcm key peer startB
      { c with phase := if ok then .flushing else .failed }
    | .disconnected => { c with phase := .failed }
    | .received buf => { c with shared := handleInbound gcm key c.shared buf }
    | .nothing => c
    | .error => { c with phase := .failed }

/-- The packets are pushed out; only then `connect` returns and the task begins. -/
def flush (c : Channel) (now : ℕ) (service : Service) : Channel :=
  if service = .error then { c with phase := .failed }
  else { c with phase := .draining, nextPing := now + pingInterval }

def drain (c : Channel) (peer : Peer) : Channel :=
  match c.queue with
  | .msg msg :: rest => ({ c with queue := rest }.queueMsg gcm key peer msg).1
  | .shutdown :: rest => stop { c with queue := rest }
  | [] => if c.dropped then c.stop else { c with phase := .pinging }

def pingIfDue (c : Channel) (now : ℕ) (peer : Peer) : Channel :=
  if c.nextPing ≤ now then
    { (c.queueMsg gcm key peer ping).1 with nextPing := now + pingInterval, phase := .serving }
  else { c with phase := .serving }

def serve (c : Channel) (service : Service) : Channel :=
  let c :=
    match service with
    | .received buf => { c with shared := handleInbound gcm key c.shared buf }
    | _ => c
  if service = .disconnected ∨ c.shared.termCode.isSome then c.stop
  else { c with phase := .draining }

/-- What the task does next, with what it meets there. -/
def task (c : Channel) (now : ℕ) (peer : Peer) (service : Service) : Channel :=
  match c.phase with
  | .handshake => c.shake gcm key now peer service
  | .flushing => c.flush now service
  | .draining => c.drain gcm key peer
  | .pinging => c.pingIfDue gcm key now peer
  | .serving => c.serve gcm key service
  | .stopped | .failed => c

/-- There is a handle once `connect` has returned it. -/
def hasHandle (c : Channel) : Bool :=
  !c.dropped && decide (c.phase ∉ [.handshake, .flushing, .failed])

/-- `request_idr`, `send_input` and `send_fec_status` all come to this. -/
def enqueue (c : Channel) (msg : OutMsg) : Channel :=
  if c.shared.alive then { c with queue := c.queue ++ [.msg msg] } else c

def shutdown (c : Channel) : Channel :=
  { c with shared := { c.shared with alive := false }, queue := c.queue ++ [.shutdown] }

end Channel

inductive Input where
  | enqueue (msg : OutMsg)
  | shutdown
  | drop
  | task (now : ℕ) (peer : Peer) (service : Service)
deriving DecidableEq, Repr

def step (c : Channel) : Input → Channel
  | .enqueue msg => if c.hasHandle then c.enqueue msg else c
  | .shutdown => if c.hasHandle then c.shutdown else c
  | .drop => if c.hasHandle then { c with dropped := true } else c
  | .task now peer service => c.task gcm key now peer service

/-- A channel under one key, from the start of `connect` on. -/
def machine : Machine Channel Input where
  init :=
    { phase := .handshake, seq := 0, queue := [], dropped := false,
      shared := { alive := true, termCode := none }, nextPing := 0, ivs := [], sent := [] }
  step := step gcm key

end KmControl.ControlChannel
