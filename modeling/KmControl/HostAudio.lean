import KmControl.ByteFields
import KmControl.Machine
import Mathlib.Data.List.Infix

/-!
The audio task of the host. A client registers with a ping; from then on every
encoded frame is sent to it in one packet. A new client starts at number zero,
and so does a client that had to register again. Times are milliseconds.
-/
namespace KmControl.HostAudio

open ByteFields

def samplesPerFrame : UInt32 := 240
def rtpHeaderLen : ℕ := 12
def audioPayloadType : UInt8 := 97
def ownerTimeout : ℕ := 2000

/-- `b"PING"`. -/
def pingPayload : Bytes := [0x50, 0x49, 0x4e, 0x47]

/-- One frame on the wire. -/
def packet (seq : UInt16) (timestamp : UInt32) (frame : Bytes) : Bytes :=
  [0x80, audioPayloadType] ++ u16be seq ++ u32be timestamp ++ u32be 0 ++ frame

structure Task (Addr : Type) where
  clientAddr : Option Addr
  seq : UInt16
  timestamp : UInt32
  lastPing : ℕ
  stopped : Bool
  /-- What has been sent, and to whom. -/
  sent : List (Addr × Bytes)

/-- One turn of the loop: a datagram or a receive error, which may be a reset by the
client, or a frame of the encoder, whose channel may be closed. -/
inductive Event (Addr : Type) where
  | datagram (payload : Bytes) (addr : Addr) (now : ℕ)
  | recvError (connReset : Bool)
  | frame (frame : Option Bytes)

variable {Addr : Type} [DecidableEq Addr]

namespace Task

def ownerActive (s : Task Addr) (addr : Addr) (now : ℕ) : Bool :=
  s.clientAddr.isSome && decide (s.clientAddr ≠ some addr) &&
    decide (now - s.lastPing < ownerTimeout)

def ping (s : Task Addr) (addr : Addr) (now : ℕ) : Task Addr :=
  if s.ownerActive addr now then s
  else
    let s := if s.clientAddr ≠ some addr then { s with seq := 0, timestamp := 0 } else s
    { s with clientAddr := some addr, lastPing := now }

def send (s : Task Addr) (frame : Bytes) : Task Addr :=
  let s := { s with timestamp := s.timestamp + samplesPerFrame }
  match s.clientAddr with
  | none => s
  | some dst =>
    { s with seq := s.seq + 1, sent := s.sent ++ [(dst, packet s.seq s.timestamp frame)] }

def step (s : Task Addr) (ev : Event Addr) : Task Addr :=
  if s.stopped then s
  else
    match ev with
    | .datagram payload addr now => if payload = pingPayload then s.ping addr now else s
    | .recvError connReset => if connReset then { s with clientAddr := none } else s
    | .frame none => { s with stopped := true }
    | .frame (some frame) => s.send frame

end Task

def machine (Addr : Type) [DecidableEq Addr] : Machine (Task Addr) (Event Addr) where
  init :=
    { clientAddr := none, seq := 0, timestamp := 0, lastPing := 0, stopped := false, sent := [] }
  step := Task.step

/-- The events that carry no empty frame; the codec makes none. -/
def Encoded (evs : List (Event Addr)) : Prop := Event.frame (some []) ∉ evs

/-- The packets sent since a client was registered: they are all for it, and they are
numbered from zero. -/
structure Numbered (addr : Addr) (s : Task Addr) (packets : List (Addr × Bytes)) : Prop where
  next : s.seq = UInt16.ofNat packets.length
  each : ∀ i x, packets[i]? = some x → x.1 = addr ∧
    ∃ timestamp frame, frame ≠ [] ∧ x.2 = packet (UInt16.ofNat i) timestamp frame

namespace Numbered

variable {addr : Addr} {s : Task Addr} {packets : List (Addr × Bytes)}

theorem ofNat_add_one (n : ℕ) : UInt16.ofNat n + 1 = UInt16.ofNat (n + 1) := by
  rw [UInt16.ofNat_add]
  rfl

omit [DecidableEq Addr] in
theorem concat (h : Numbered addr s packets) {timestamp : UInt32} {frame : Bytes}
    (hframe : frame ≠ []) {s' : Task Addr} (hseq : s'.seq = s.seq + 1) :
    Numbered addr s' (packets ++ [(addr, packet s.seq timestamp frame)]) where
  next := by
    rw [hseq, h.next, List.length_append, ofNat_add_one]
    rfl
  each := by
    intro i x hx
    by_cases hi : i < packets.length
    · rw [List.getElem?_append_left hi] at hx
      exact h.each i x hx
    · rw [List.getElem?_append_right (by omega)] at hx
      obtain ⟨hlt, hx⟩ := List.getElem?_eq_some_iff.mp hx
      have hi : i = packets.length := by
        simp only [List.length_cons, List.length_nil] at hlt
        omega
      subst hi
      simp only [Nat.sub_self, List.getElem_cons_zero] at hx
      subst hx
      exact ⟨rfl, timestamp, frame, hframe, by rw [h.next]⟩

/-- A ping that leaves the client registered does not restart the numbers. -/
theorem ping_eq {a : Addr} {now : ℕ} (hclient : s.clientAddr = some addr)
    (hstays : (s.ping a now).clientAddr = some addr) :
    (s.ping a now).seq = s.seq ∧ (s.ping a now).sent = s.sent := by
  unfold Task.ping at hstays ⊢
  by_cases howner : s.ownerActive a now = true
  · rw [if_pos howner]
    exact ⟨rfl, rfl⟩
  · rw [if_neg howner] at hstays ⊢
    have hsame : ¬ s.clientAddr ≠ some a := by
      rw [hclient, not_not]
      exact hstays.symm
    rw [if_neg hsame]
    exact ⟨rfl, rfl⟩

/-- One step of the task while the client stays registered. -/
theorem step (h : Numbered addr s packets) (hclient : s.clientAddr = some addr)
    {ev : Event Addr} (hencoded : ev ≠ .frame (some []))
    (hstays : (s.step ev).clientAddr = some addr) :
    ∃ more, (s.step ev).sent = s.sent ++ more ∧
      Numbered addr (s.step ev) (packets ++ more) := by
  have hkeep : ∀ s' : Task Addr, s'.seq = s.seq ∧ s'.sent = s.sent →
      ∃ more, s'.sent = s.sent ++ more ∧ Numbered addr s' (packets ++ more) := by
    intro s' hsame
    refine ⟨[], by rw [hsame.2, List.append_nil], ?_⟩
    rw [List.append_nil]
    exact ⟨hsame.1.trans h.next, h.each⟩
  by_cases hstopped : s.stopped = true
  · have hstep : s.step ev = s := if_pos hstopped
    rw [hstep]
    exact hkeep s ⟨rfl, rfl⟩
  cases ev with
  | datagram payload a now =>
    have hstep : s.step (.datagram payload a now) =
        if payload = pingPayload then s.ping a now else s := if_neg hstopped
    rw [hstep] at hstays ⊢
    by_cases hping : payload = pingPayload
    · rw [if_pos hping] at hstays ⊢
      exact hkeep _ (ping_eq hclient hstays)
    · rw [if_neg hping]
      exact hkeep s ⟨rfl, rfl⟩
  | recvError connReset =>
    have hstep : s.step (.recvError connReset) =
        if connReset then { s with clientAddr := none } else s := if_neg hstopped
    rw [hstep]
    cases connReset with
    | false => exact hkeep s ⟨rfl, rfl⟩
    | true => exact hkeep _ ⟨rfl, rfl⟩
  | frame frame =>
    cases frame with
    | none =>
      have hstep : s.step (.frame none) = { s with stopped := true } := if_neg hstopped
      rw [hstep]
      exact hkeep _ ⟨rfl, rfl⟩
    | some frame =>
      have hframe : frame ≠ [] := fun hnil => hencoded (by rw [hnil])
      have hstep : s.step (.frame (some frame)) = s.send frame := if_neg hstopped
      rw [hstep]
      refine ⟨[(addr, packet s.seq (s.timestamp + samplesPerFrame) frame)], ?_, ?_⟩
      · simp only [Task.send, hclient]
      · exact h.concat hframe (by simp only [Task.send, hclient])

end Numbered

/-- A run in which a client is registered anew and then stays registered. -/
structure Registration (Addr : Type) [DecidableEq Addr] where
  before : List (Event Addr)
  addr : Addr
  now : ℕ
  after : List (Event Addr)
  running : ((machine Addr).run before).stopped = false
  fresh : ((machine Addr).run before).clientAddr ≠ some addr
  free : ((machine Addr).run before).ownerActive addr now = false
  stays : ∀ mid ∈ after.inits, ((machine Addr).run
    (before ++ [.datagram pingPayload addr now] ++ mid)).clientAddr = some addr
  encoded : Encoded after

namespace Registration

variable (r : Registration Addr)

/-- The run up to the ping. -/
def upToPing : List (Event Addr) := r.before ++ [.datagram pingPayload r.addr r.now]

/-- What is sent after the registration. -/
def packets : List (Addr × Bytes) :=
  ((machine Addr).run (r.upToPing ++ r.after)).sent.drop
    ((machine Addr).run r.upToPing).sent.length

theorem seq_upToPing : ((machine Addr).run r.upToPing).seq = 0 := by
  have hstep : (machine Addr).run r.upToPing =
      ((machine Addr).run r.before).step (.datagram pingPayload r.addr r.now) :=
    (machine Addr).run_concat _ _
  rw [hstep]
  simp [Task.step, r.running, Task.ping, r.free, r.fresh]

theorem numbered_of_prefix {mid : List (Event Addr)} (h : mid <+: r.after) :
    ∃ packets, ((machine Addr).run (r.upToPing ++ mid)).sent =
      ((machine Addr).run r.upToPing).sent ++ packets ∧
        Numbered r.addr ((machine Addr).run (r.upToPing ++ mid)) packets := by
  induction mid using List.reverseRecOn with
  | nil =>
    refine ⟨[], by simp, ?_, ?_⟩
    · rw [List.append_nil, seq_upToPing]
      rfl
    · intro i x hx
      simp at hx
  | append_singleton mid ev ih =>
    have hmid : mid <+: r.after := (List.prefix_append mid [ev]).trans h
    obtain ⟨packets, hsent, hnumbered⟩ := ih hmid
    have hrun : (machine Addr).run (r.upToPing ++ (mid ++ [ev])) =
        ((machine Addr).run (r.upToPing ++ mid)).step ev := by
      rw [← List.append_assoc]
      exact (machine Addr).run_concat _ _
    have hbefore := r.stays mid ((List.mem_inits _ _).mpr hmid)
    have hafter := r.stays (mid ++ [ev]) ((List.mem_inits _ _).mpr h)
    rw [← upToPing] at hbefore hafter
    rw [hrun] at hafter ⊢
    have hencoded : ev ≠ .frame (some []) := by
      intro hev
      have hmem : ev ∈ mid ++ [ev] := List.mem_append_right _ List.mem_cons_self
      exact r.encoded (hev ▸ h.subset hmem)
    obtain ⟨more, hmore, hstep⟩ := hnumbered.step hbefore hencoded hafter
    exact ⟨packets ++ more, by rw [hmore, hsent, List.append_assoc], hstep⟩

/-- The packets after a registration are numbered from zero. -/
theorem each_packet {i : ℕ} {x : Addr × Bytes} (h : r.packets[i]? = some x) :
    x.1 = r.addr ∧
      ∃ timestamp frame, frame ≠ [] ∧ x.2 = packet (UInt16.ofNat i) timestamp frame := by
  obtain ⟨packets, hsent, hnumbered⟩ := r.numbered_of_prefix (List.prefix_refl _)
  have heq : r.packets = packets := by
    unfold Registration.packets
    rw [hsent, List.drop_left]
  exact hnumbered.each i x (heq ▸ h)

end Registration

end KmControl.HostAudio
