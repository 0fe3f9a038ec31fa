import KmControl.MoonVideoSteps
import KmControl.VideoTask

/-!
The video link from end to end: the task of the host, the network, and the client's loop
that receives. The network loses, delays, doubles and reorders what is sent. With every PING
the host sends the time by its clock, and the client sends that back as it is; other
datagrams of the host go to the reassembler.
-/
namespace KmControl.VideoLink

open GsProto MoonVideo VideoTask

/-- A datagram in the network. -/
structure Datagram where
  payload : Bytes
  sentAt : ℕ
deriving DecidableEq, Repr

/-- A round trip in milliseconds, as the bitrate controller gets it. -/
structure Sample (Addr : Type) where
  addr : Addr
  takenAt : ℕ
  rttMs : ℕ
deriving DecidableEq, Repr

section Host

/-- A round trip that takes longer is thrown away. -/
def maxSaneRttMs : ℕ := 5000

/-- The clock of the probes; times are nanoseconds since the task began. -/
def micros (now : ℕ) : UInt64 := UInt64.ofNat (now / 1000)

variable {rs : FecRs} {Addr : Type} [DecidableEq Addr] (s : Task rs Addr)

/-- What the host sends when it accepts a PING. -/
def probe (addr : Addr) (payload : Bytes) (now : ℕ) : List (Addr × Datagram) :=
  if payload = pingPayload ∧ s.ownerActive addr now = false then
    [(addr, ⟨rttProbe (micros now), now⟩)]
  else []

/-- The round trip that an echo of the registered client gives. -/
def sample (addr : Addr) (payload : Bytes) (now : ℕ) : List (Sample Addr) :=
  if payload = pingPayload ∨ s.clientAddr ≠ some addr then []
  else match parseRttProbe payload with
    | some sentUs =>
      let rttMs := ((micros now).toNat - sentUs.toNat) / 1000 % 2 ^ 32
      if rttMs ≤ maxSaneRttMs then [⟨addr, now, rttMs⟩] else []
    | none => []

/-- The datagrams of the frames that a step of the task has sent. -/
def shardsSent (s' : Task rs Addr) (now : ℕ) : List (Addr × Datagram) :=
  (s'.sent.drop s.sent.length).flatMap fun x => x.shards.map fun shard => (x.dst, ⟨shard, now⟩)

end Host

/-- The client's loop, with what it has handed on: frames to the admin, the reports and the
numbers of lost frames to the control channel. -/
structure Receiver where
  dp : Depacketizer
  aus : List AuFrame
  reports : List FrameFecStatus
  lost : List UInt32
  /-- The admin takes frames. -/
  sinkOpen : Bool
  shutdown : Bool
  running : Bool

namespace Receiver

def new : Receiver where
  dp := Depacketizer.new
  aus := []
  reports := []
  lost := []
  sinkOpen := true
  shutdown := false
  running := true

/-- The loop ends when nobody takes a frame any more. -/
def hand (c : Receiver) (ev : VideoEvent) : Receiver :=
  if c.running then
    match ev with
    | .frame _ au =>
      if c.sinkOpen then { c with aus := c.aus ++ [au] } else { c with running := false }
    | .fec status => { c with reports := c.reports ++ [status] }
    | .lost k => { c with lost := c.lost ++ [k] }
  else c

/-- Hand on all that is in the queue of the reassembler. -/
def drain (c : Receiver) : Receiver :=
  c.dp.events.foldl hand { c with dp := { c.dp with events := [] } }

/-- The condition of the loop, once a turn is over. -/
def next (c : Receiver) : Receiver := { c with running := c.running && !c.shutdown }

/-- A turn in which the reassembler does something. -/
def feed (rs : FecRs) (c : Receiver) (op : MoonVideo.Op) : Receiver :=
  { c with dp := MoonVideo.step rs c.dp op }.drain.next

/-- A datagram from the host's address, and what goes back. -/
def receive (rs : FecRs) (c : Receiver) (payload : Bytes) (here : Instant) :
    Receiver × Option Bytes :=
  if (parseRttProbe payload).isSome then (c.next, some payload)
  else (c.feed rs (.push payload here), none)

end Receiver

structure Link (rs : FecRs) (Addr : Type) where
  task : Task rs Addr
  /-- What the host has sent, and to whom. -/
  down : List (Addr × Datagram)
  samples : List (Sample Addr)
  receiver : Receiver
  /-- What the client has sent. -/
  up : List Datagram

inductive Op (Addr : Type) where
  /-- What happens at the host, and datagrams of others that reach it. -/
  | host (ev : Event Addr)
  /-- The n-th datagram of the client reaches the host. -/
  | reaches (n now : ℕ)
  /-- The n-th datagram of the host reaches the client, which has a clock of its own. -/
  | arrives (n now : ℕ) (here : Instant)
  /-- A datagram that is not from the host's address. -/
  | stray
  | ping (now : ℕ) (here : Instant)
  | recvError (connReset : Bool)
  | shutdown
  | closeSink

namespace Link

variable {rs : FecRs} {Addr : Type} [DecidableEq Addr]

def new : Link rs Addr where
  task := Task.new
  down := []
  samples := []
  receiver := Receiver.new
  up := []

/-- A datagram that cannot be sent is as good as lost. -/
def hostStep (packetSize : ℕ) (s : Link rs Addr) (ev : Event Addr) : Link rs Addr :=
  let task := VideoTask.step packetSize s.task ev
  if s.task.running then
    match ev with
    | .datagram addr payload now =>
      { s with
        task := task
        down := s.down ++ probe s.task addr payload now
        samples := s.samples ++ sample s.task addr payload now }
    | .takeFrame _ now => { s with task := task, down := s.down ++ shardsSent s.task task now }
    | _ => { s with task := task }
  else s

/-- A turn of the client's loop, unless it has ended. -/
def turn (s : Link rs Addr) (now : ℕ) (f : Receiver → Receiver × Option Bytes) : Link rs Addr :=
  if s.receiver.running then
    match f s.receiver with
    | (receiver, some payload) =>
      { s with receiver := receiver, up := s.up ++ [⟨payload, now⟩] }
    | (receiver, none) => { s with receiver := receiver }
  else s

/-- What an operation is for the task of the host. -/
def event (a : Addr) (s : Link rs Addr) : Op Addr → Option (Event Addr)
  | .host ev => some ev
  | .reaches n now => s.up[n]?.map fun d => .datagram a d.payload now
  | _ => none

/-- The datagram that arrives at the client at `a`. -/
def arriving (a : Addr) (s : Link rs Addr) (n : ℕ) : Option Datagram :=
  s.down[n]?.bind fun p => if p.1 = a then some p.2 else none

/-- The first PING is sent before the loop, when there is nothing to expire. -/
def clientStep (a : Addr) (s : Link rs Addr) : Op Addr → Link rs Addr
  | .arrives n now here =>
    match s.arriving a n with
    | some d => s.turn now fun c => c.receive rs d.payload here
    | none => s
  | .stray => s.turn 0 fun c => (c.next, none)
  | .ping now here => s.turn now fun c => (c.feed rs (.expire here), some pingPayload)
  | .recvError connReset =>
    s.turn 0 fun c => (if connReset then c.next else { c with running := false }, none)
  | .shutdown => { s with receiver := { s.receiver with shutdown := true } }
  | .closeSink => { s with receiver := { s.receiver with sinkOpen := false } }
  | .host _ | .reaches _ _ => s

def step (packetSize : ℕ) (a : Addr) (s : Link rs Addr) (op : Op Addr) : Link rs Addr :=
  match s.event a op with
  | some ev => s.hostStep packetSize ev
  | none => s.clientStep a op

end Link

/-- A host and the client at the address `a`. -/
def machine (rs : FecRs) (Addr : Type) [DecidableEq Addr] (packetSize : ℕ) (a : Addr) :
    Machine (Link rs Addr) (Op Addr) where
  init := Link.new
  step := Link.step packetSize a

end KmControl.VideoLink
