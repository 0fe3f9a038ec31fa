import KmControl.AudioRestart
import Mathlib.Order.Interval.Finset.Nat

/-!
The loss estimate of the audio receiver within one run of numbers. Packets may be
missing, late or doubled. What is expected is the span of the numbers that came; what
is received counts arrivals, so that every packet that comes twice makes up for one
that is missing.
-/
namespace KmControl.AudioSpan

open ByteFields HostAudio MoonAudio AudioLoss AudioRestart

section Frames

variable {Addr : Type} [DecidableEq Addr]

/-- The frames that the codec makes until its channel is closed. -/
def framesOf : List (Event Addr) → List Bytes
  | [] => []
  | .frame none :: _ => []
  | .frame (some frame) :: evs => frame :: framesOf evs
  | .datagram _ _ _ :: evs => framesOf evs
  | .recvError _ :: evs => framesOf evs

def payloads (packets : List (Addr × Bytes)) : List Bytes :=
  packets.map fun x => x.2.drop rtpHeaderLen

theorem runFrom_stopped {s : HostAudio.Task Addr} (h : s.stopped = true) (evs : List (Event Addr)) :
    (machine Addr).runFrom s evs = s := by
  induction evs with
  | nil => rfl
  | cons ev evs ih =>
    have hstep : (machine Addr).step s ev = s := if_pos h
    rw [Machine.runFrom_cons, hstep, ih]

/-- A step of the running task that sends nothing, if the client stays registered. -/
theorem step_silent {s : HostAudio.Task Addr} {addr : Addr} (hrunning : s.stopped = false)
    (hclient : s.clientAddr = some addr) {ev : Event Addr} (hev : ∀ frame, ev ≠ .frame frame)
    (hstays : (s.step ev).clientAddr = some addr) :
    (s.step ev).stopped = false ∧ (s.step ev).sent = s.sent := by
  have hgo : ¬ s.stopped = true := by simp [hrunning]
  cases ev with
  | datagram payload a now =>
    have hstep : s.step (.datagram payload a now) =
        if payload = pingPayload then s.ping a now else s := if_neg hgo
    rw [hstep] at hstays ⊢
    split
    · rename_i hping
      rw [if_pos hping] at hstays
      refine ⟨?_, (Numbered.ping_eq hclient hstays).2⟩
      unfold HostAudio.Task.ping
      split
      · exact hrunning
      · split <;> exact hrunning
    · exact ⟨hrunning, rfl⟩
  | recvError connReset =>
    have hstep : s.step (.recvError connReset) =
        if connReset then { s with clientAddr := none } else s := if_neg hgo
    rw [hstep]
    split
    · exact ⟨hrunning, rfl⟩
    · exact ⟨hrunning, rfl⟩
  | frame frame => exact absurd rfl (hev frame)

/-- What is sent to a client that stays registered are the frames of the codec. -/
theorem payloads_runFrom {s : HostAudio.Task Addr} {addr : Addr} {evs : List (Event Addr)}
    (hrunning : s.stopped = false)
    (hstays : ∀ mid, mid <+: evs → ((machine Addr).runFrom s mid).clientAddr = some addr) :
    payloads ((machine Addr).runFrom s evs).sent = payloads s.sent ++ framesOf evs := by
  induction evs generalizing s with
  | nil => simp [framesOf]
  | cons ev evs ih =>
    have hclient : s.clientAddr = some addr := hstays [] List.nil_prefix
    have hnext : ∀ mid, mid <+: evs →
        ((machine Addr).runFrom (s.step ev) mid).clientAddr = some addr := fun mid hmid =>
      hstays (ev :: mid) (List.cons_prefix_cons.mpr ⟨rfl, hmid⟩)
    have hafter : (s.step ev).clientAddr = some addr := hnext [] List.nil_prefix
    have hgo : ¬ s.stopped = true := by simp [hrunning]
    rw [Machine.runFrom_cons]
    change payloads ((machine Addr).runFrom (s.step ev) evs).sent = _
    cases ev with
    | datagram payload a now =>
      obtain ⟨hrunning', hsent⟩ := step_silent hrunning hclient (by simp) hafter
      rw [ih hrunning' hnext, hsent, framesOf]
    | recvError connReset =>
      obtain ⟨hrunning', hsent⟩ := step_silent hrunning hclient (by simp) hafter
      rw [ih hrunning' hnext, hsent, framesOf]
    | frame frame =>
      cases frame with
      | none =>
        have hstep : s.step (.frame none) = { s with stopped := true } := if_neg hgo
        rw [hstep, runFrom_stopped rfl]
        simp [framesOf]
      | some frame =>
        have hstep : s.step (.frame (some frame)) = s.send frame := if_neg hgo
        have hsent : payloads (s.send frame).sent = payloads s.sent ++ [frame] := by
          simp only [HostAudio.Task.send, hclient, payloads, List.map_append]
          rfl
        have hrunning' : (s.send frame).stopped = false := by
          simp only [HostAudio.Task.send, hclient, hrunning]
        rw [hstep] at hnext ⊢
        rw [ih hrunning' hnext, hsent, framesOf, List.append_assoc]
        rfl

variable (r : Registration Addr)

/-- The packets after a registration carry the frames of the codec, one each. -/
theorem payloads_packets : payloads r.packets = framesOf r.after := by
  have hping : ((machine Addr).run r.upToPing).stopped = false := by
    have hstep : (machine Addr).run r.upToPing =
        ((machine Addr).run r.before).step (.datagram pingPayload r.addr r.now) :=
      (machine Addr).run_concat _ _
    rw [hstep]
    simp [HostAudio.Task.step, r.running, HostAudio.Task.ping, r.free, r.fresh]
  have hstays : ∀ mid, mid <+: r.after →
      ((machine Addr).runFrom ((machine Addr).run r.upToPing) mid).clientAddr = some r.addr := by
    intro mid hmid
    rw [← Machine.run_append]
    exact r.stays mid ((List.mem_inits _ _).mpr hmid)
  have hall := payloads_runFrom hping hstays
  rw [← Machine.run_append] at hall
  unfold Registration.packets
  rw [payloads, List.map_drop, ← payloads, hall, List.drop_append_of_le_length]
  · simp [payloads]
  · simp [payloads]

theorem drop_datagram (k : ℕ) :
    (datagram r k).drop rtpHeaderLen = (framesOf r.after).getD k [] := by
  rw [← payloads_packets, datagram, payloads, List.getD_eq_getElem?_getD, List.getElem?_map]
  cases r.packets[k]? with
  | none => rfl
  | some x => rfl

end Frames

section Arrivals

/-- The highest number, `h` or later. -/
def highest (h : ℕ) (ks : List ℕ) : ℕ := ks.foldl max h

/-- No packet comes 1024 or more behind the highest so far, and at most 32767 in a row
are passed over. -/
def Near : ℕ → List ℕ → Prop
  | _, [] => True
  | h, k :: ks => (h < k + 1024 ∧ k ≤ h + 32768) ∧ Near (max h k) ks

/-- Nowhere are precisely 32767 in a row passed over, which looks like a restart. -/
def ShortJumps : ℕ → List ℕ → Prop
  | _, [] => True
  | h, k :: ks => k ≠ h + 32768 ∧ ShortJumps (max h k) ks

/-- Some of `n` packets arrive, `k` before all others and the others after it in the numbers. -/
structure Delivery (n k : ℕ) (ks : List ℕ) : Prop where
  sent : ∀ j ∈ k :: ks, j < n
  lowest : ∀ j ∈ ks, k ≤ j
  near : Near k ks

/-- How many numbers between the first and the highest never came. -/
def missing (k : ℕ) (ks : List ℕ) : ℕ :=
  (Finset.Icc k (highest k ks) \ (k :: ks).toFinset).card

theorem le_highest (h : ℕ) (ks : List ℕ) : h ≤ highest h ks := by
  induction ks generalizing h with
  | nil => exact le_rfl
  | cons k ks ih => exact (le_max_left h k).trans (ih (max h k))

theorem le_highest_of_mem {h j : ℕ} {ks : List ℕ} (hj : j ∈ ks) : j ≤ highest h ks := by
  induction ks generalizing h with
  | nil => exact absurd hj List.not_mem_nil
  | cons k ks ih =>
    rcases List.mem_cons.mp hj with rfl | hj
    · exact (le_max_right h j).trans (le_highest (max h j) ks)
    · exact ih hj

/-- The missing numbers are the span without those that came, each counted once. -/
theorem missing_add_card {k : ℕ} {ks : List ℕ} (hlowest : ∀ j ∈ ks, k ≤ j) :
    missing k ks + (k :: ks).toFinset.card = highest k ks + 1 - k := by
  have hsub : (k :: ks).toFinset ⊆ Finset.Icc k (highest k ks) := by
    intro j hj
    rw [Finset.mem_Icc]
    rcases List.mem_cons.mp (List.mem_toFinset.mp hj) with rfl | hj
    · exact ⟨le_rfl, le_highest j ks⟩
    · exact ⟨hlowest j hj, le_highest_of_mem hj⟩
  have hle := Finset.card_le_card hsub
  rw [Nat.card_Icc] at hle
  unfold missing
  rw [Finset.card_sdiff_of_subset hsub, Nat.card_Icc]
  omega

variable {rx : AudioDepacketizer} {d : Bytes} {h k : ℕ}

/-- Whatever its verdict, a packet is counted and its payload passed on as it is. -/
theorem ingest_passes (hopen : rx.sinkOpen = true) (hd : Carries d k) :
    (rx.ingest d).1.sinkOpen = true ∧ (rx.ingest d).1.stats.received = rx.stats.received + 1 ∧
      (rx.ingest d).1.delivered = rx.delivered ++ [d.drop rtpHeaderLen] := by
  obtain ⟨timestamp, frame, hframe, rfl⟩ := hd
  have hdrop : (packet (UInt16.ofNat k) timestamp frame).drop rtpHeaderLen = frame := rfl
  unfold AudioDepacketizer.ingest
  rw [parseRtpAudio_packet _ _ hframe, hdrop]
  exact ⟨hopen, rfl, if_pos hopen⟩

/-- One arrival brings what is expected up to the highest number, unless precisely 32767
are passed over. -/
theorem ingest_expected (hat : At rx h) (hd : Carries d k) (hlate : h < k + 1024)
    (hearly : k ≤ h + 32768) :
    At (rx.ingest d).1 (max h k : ℕ) ∧ (rx.ingest d).1.stats.expected =
      rx.stats.expected + if k = h + 32768 then 1 else max h k - h := by
  have hreceived : (rx.ingest d).1.stats.received = rx.stats.received + 1 := by
    obtain ⟨timestamp, frame, hframe, rfl⟩ := hd
    unfold AudioDepacketizer.ingest
    rw [parseRtpAudio_packet _ _ hframe]
    rfl
  rcases ingest_cases hat hd with ⟨hlow, hhigh, hnow, hb⟩ | ⟨hlow, hhigh, hnow, hb⟩ | ⟨hm, hnow, hb⟩
  · have hmax : max h k = k := max_eq_right (by omega)
    rw [hmax, if_neg (by omega)]
    unfold balance at hb
    exact ⟨hnow, by omega⟩
  · have hmax : max h k = k := max_eq_right (by omega)
    rw [hmax, if_pos (by omega)]
    unfold balance at hb
    exact ⟨hnow, by omega⟩
  · have hmax : max h k = h := max_eq_left (by omega)
    rw [hmax, if_neg (by omega)]
    unfold balance at hb
    exact ⟨hnow, by omega⟩

variable {ds : List Bytes} {ks : List ℕ}

theorem ingestAll_passes (hopen : rx.sinkOpen = true) (hds : List.Forall₂ Carries ds ks) :
    (rx.ingestAll ds).stats.received = rx.stats.received + ks.length ∧
      (rx.ingestAll ds).delivered = rx.delivered ++ ds.map (·.drop rtpHeaderLen) := by
  induction hds generalizing rx with
  | nil => simp [AudioDepacketizer.ingestAll]
  | @cons d k ds ks hd hds ih =>
    obtain ⟨hopen', hreceived, hdelivered⟩ := ingest_passes hopen hd
    obtain ⟨hcount, hall⟩ := ih hopen'
    change ((rx.ingest d).1.ingestAll ds).stats.received = _ ∧
      ((rx.ingest d).1.ingestAll ds).delivered = _
    rw [hcount, hall, hreceived, hdelivered, List.length_cons, List.map_cons, List.append_assoc]
    exact ⟨by omega, rfl⟩

/-- What is expected after all arrivals reaches the highest number, precisely where no jump
looks like a restart. -/
theorem ingestAll_expected (hat : At rx h) (hds : List.Forall₂ Carries ds ks) (hnear : Near h ks) :
    (ShortJumps h ks ∧
      (rx.ingestAll ds).stats.expected = rx.stats.expected + (highest h ks - h)) ∨
    (¬ ShortJumps h ks ∧
      (rx.ingestAll ds).stats.expected < rx.stats.expected + (highest h ks - h)) := by
  induction hds generalizing rx h with
  | nil => exact Or.inl ⟨trivial, by simp [AudioDepacketizer.ingestAll, highest]⟩
  | @cons d k ds ks hd hds ih =>
    obtain ⟨⟨hlate, hearly⟩, hrest⟩ := hnear
    obtain ⟨hnow, hexpected⟩ := ingest_expected hat hd hlate hearly
    have hhighest : max h k ≤ highest h (k :: ks) := le_highest (max h k) ks
    change (ShortJumps h (k :: ks) ∧ ((rx.ingest d).1.ingestAll ds).stats.expected =
        rx.stats.expected + (highest h (k :: ks) - h)) ∨
      (¬ ShortJumps h (k :: ks) ∧ ((rx.ingest d).1.ingestAll ds).stats.expected <
        rx.stats.expected + (highest h (k :: ks) - h))
    have hsame : highest (max h k) ks = highest h (k :: ks) := rfl
    have hle := le_max_left h k
    by_cases hjump : k = h + 32768
    · rw [if_pos hjump] at hexpected
      have hk := le_max_right h k
      refine Or.inr ⟨fun hshort => hshort.1 hjump, ?_⟩
      rcases ih hnow hrest with ⟨-, heq⟩ | ⟨-, hlt⟩
      · omega
      · omega
    · rw [if_neg hjump] at hexpected
      rcases ih hnow hrest with ⟨hshort, heq⟩ | ⟨hshort, hlt⟩
      · exact Or.inl ⟨⟨hjump, hshort⟩, by omega⟩
      · exact Or.inr ⟨fun hall => hshort hall.2, by omega⟩

end Arrivals

section Accounts

/-- The counters of a receiver are right, and it has passed on what came. -/
structure Accounts (rx : AudioDepacketizer) (frames : List Bytes) (k : ℕ) (ks : List ℕ) :
    Prop where
  expected : rx.stats.expected = highest k ks + 1 - k
  lost : rx.stats.lost = missing k ks
  forwarded : rx.delivered = (k :: ks).map fun j => frames.getD j []

variable {Addr : Type} [DecidableEq Addr] (r : Registration Addr)

/-- What a new receiver makes of the packets of a registration. -/
def receive (ks : List ℕ) : AudioDepacketizer :=
  AudioDepacketizer.new.ingestAll (ks.map (datagram r))

/-- The first packet sets the number and is expected itself. -/
theorem ingest_first {d : Bytes} {k : ℕ} (hd : Carries d k) :
    At (AudioDepacketizer.new.ingest d).1 k ∧
      (AudioDepacketizer.new.ingest d).1.stats.expected = 1 := by
  obtain ⟨timestamp, frame, hframe, rfl⟩ := hd
  unfold AudioDepacketizer.ingest
  rw [parseRtpAudio_packet _ _ hframe]
  refine ⟨⟨UInt16.ofNat k, rfl, ?_⟩, rfl⟩
  rw [UInt16.toNat_ofNat']
  omega

end Accounts

end KmControl.AudioSpan
