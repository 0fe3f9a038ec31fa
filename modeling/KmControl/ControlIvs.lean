import KmControl.ControlChannel
import KmControl.HostControl
import Mathlib.Data.List.Nodup
import Mathlib.Data.List.Range

/-!
The IVs of the control channel. Every message takes the next number, so the IVs are
those of the first numbers, in order. The numbers have 32 bits, and the IVs repeat
when they wrap.
-/
namespace KmControl.ControlIvs

open ByteFields ControlWire MoonControl ControlChannel

section Numbers

theorem u32le_injective {x y : UInt32} (h : u32le x = u32le y) : x = y := by
  rw [← u32OfLe_u32le x, ← u32OfLe_u32le y, h]

theorem clientIv_injective {x y : UInt32} (h : clientIv x = clientIv y) : x = y := by
  unfold clientIv ivOf at h
  rw [List.append_assoc, List.append_assoc] at h
  exact u32le_injective (List.append_inj_left h rfl)

/-- The two ends never use the same IV. -/
theorem clientIv_ne_hostIv (x y : UInt32) : clientIv x ≠ hostIv y := by
  unfold clientIv hostIv ivOf
  intro h
  have hend := List.append_inj_right h rfl
  exact absurd hend (by decide)

/-- The IVs of the first `n` numbers, in order. -/
def firstIvs (n : ℕ) : List Bytes := (List.range n).map fun i => clientIv (UInt32.ofNat i)

theorem firstIvs_succ (n : ℕ) : firstIvs (n + 1) = firstIvs n ++ [clientIv (UInt32.ofNat n)] := by
  unfold firstIvs
  rw [List.range_succ, List.map_append]
  rfl

theorem ofNat_succ (n : ℕ) : UInt32.ofNat n + 1 = UInt32.ofNat (n + 1) := by
  rw [UInt32.ofNat_add]
  rfl

theorem mod_eq_of_ofNat {i j : ℕ} (h : UInt32.ofNat i = UInt32.ofNat j) :
    i % 2 ^ 32 = j % 2 ^ 32 := by
  have hnat := congrArg UInt32.toNat h
  rwa [UInt32.toNat_ofNat', UInt32.toNat_ofNat'] at hnat

/-- As many IVs are distinct as there are numbers. -/
theorem nodup_firstIvs (n : ℕ) : (firstIvs n).Nodup ↔ n ≤ 2 ^ 32 := by
  unfold firstIvs
  rw [List.nodup_map_iff_inj_on List.nodup_range]
  constructor
  · intro hinj
    by_contra hlt
    have hwrap : clientIv (UInt32.ofNat 0) = clientIv (UInt32.ofNat (2 ^ 32)) := by
      refine congrArg clientIv (UInt32.toNat_inj.mp ?_)
      rw [UInt32.toNat_ofNat', UInt32.toNat_ofNat', Nat.mod_self]
    have h := hinj 0 (List.mem_range.mpr (by omega)) (2 ^ 32) (List.mem_range.mpr (by omega)) hwrap
    omega
  · intro hle i hi j hj h
    have hmod := mod_eq_of_ofNat (clientIv_injective h)
    have hi := List.mem_range.mp hi
    have hj := List.mem_range.mp hj
    omega

end Numbers

section Runs

variable (gcm : AesGcm) (key : Key)

/-- The channel has sealed its messages under the first IVs, and the next one is next. -/
structure Counted (c : Channel) : Prop where
  ivs : c.ivs = firstIvs c.ivs.length
  seq : c.seq = UInt32.ofNat c.ivs.length

/-- A state that differs in other things only. -/
theorem Counted.congr {c c' : Channel} (h : Counted c) (hivs : c'.ivs = c.ivs)
    (hseq : c'.seq = c.seq) : Counted c' := by
  refine ⟨?_, ?_⟩
  · rw [hivs]
    exact h.ivs
  · rw [hivs, hseq]
    exact h.seq

theorem queueMsg_fields (c : Channel) (peer : Peer) (msg : OutMsg) :
    (c.queueMsg gcm key peer msg).1.ivs = c.ivs ++ [clientIv c.seq] ∧
      (c.queueMsg gcm key peer msg).1.seq = c.seq + 1 := by
  unfold Channel.queueMsg
  rcases peer with _ | _ | _ | _
  all_goals exact ⟨rfl, rfl⟩

/-- Whatever becomes of a message, it takes the next number. -/
theorem Counted.queueMsg {c : Channel} (h : Counted c) (peer : Peer) (msg : OutMsg) :
    Counted (c.queueMsg gcm key peer msg).1 := by
  obtain ⟨hivs, hseq⟩ := queueMsg_fields gcm key c peer msg
  have hlen : (c.queueMsg gcm key peer msg).1.ivs.length = c.ivs.length + 1 := by
    rw [hivs, List.length_append]
    rfl
  refine ⟨?_, ?_⟩
  · rw [hlen, firstIvs_succ, ← h.ivs, ← h.seq, hivs]
  · rw [hlen, hseq, h.seq, ofNat_succ]

theorem Counted.shake {c : Channel} (h : Counted c) (now : ℕ) (peer : Peer)
    (service : Service) : Counted (c.shake gcm key now peer service) := by
  unfold Channel.shake
  split
  · exact h.congr rfl rfl
  · cases service with
    | connected => exact (h.queueMsg gcm key peer startB).congr rfl rfl
    | nothing => exact h
    | disconnected => exact h.congr rfl rfl
    | received buf => exact h.congr rfl rfl
    | error => exact h.congr rfl rfl

theorem Counted.flush {c : Channel} (h : Counted c) (now : ℕ) (service : Service) :
    Counted (c.flush now service) := by
  unfold Channel.flush
  split
  · exact h.congr rfl rfl
  · exact h.congr rfl rfl

theorem Counted.drain {c : Channel} (h : Counted c) (peer : Peer) :
    Counted (c.drain gcm key peer) := by
  unfold Channel.drain
  split
  · rename_i msg rest hqueue
    have hrest : Counted { c with queue := rest } := h.congr rfl rfl
    exact hrest.queueMsg gcm key peer msg
  · exact h.congr rfl rfl
  · split
    · exact h.congr rfl rfl
    · exact h.congr rfl rfl

theorem Counted.pingIfDue {c : Channel} (h : Counted c) (now : ℕ) (peer : Peer) :
    Counted (c.pingIfDue gcm key now peer) := by
  unfold Channel.pingIfDue
  split
  · exact (h.queueMsg gcm key peer ping).congr rfl rfl
  · exact h.congr rfl rfl

theorem Counted.serve {c : Channel} (h : Counted c) (service : Service) :
    Counted (c.serve gcm key service) := by
  have hserved : ∀ c' : Channel, c'.ivs = c.ivs → c'.seq = c.seq →
      Counted (if service = .disconnected ∨ c'.shared.termCode.isSome then c'.stop
        else { c' with phase := .draining }) := by
    intro c' hivs hseq
    split
    · exact h.congr hivs hseq
    · exact h.congr hivs hseq
  unfold Channel.serve
  cases service with
  | received buf => exact hserved _ rfl rfl
  | connected => exact hserved c rfl rfl
  | disconnected => exact hserved c rfl rfl
  | nothing => exact hserved c rfl rfl
  | error => exact hserved c rfl rfl

theorem Counted.task {c : Channel} (h : Counted c) (now : ℕ) (peer : Peer) (service : Service) :
    Counted (c.task gcm key now peer service) := by
  unfold Channel.task
  split
  · exact h.shake gcm key now peer service
  · exact h.flush now service
  · exact h.drain gcm key peer
  · exact h.pingIfDue gcm key now peer
  · exact h.serve gcm key service
  · exact h
  · exact h

theorem counted_run (ops : List Input) : Counted ((machine gcm key).run ops) := by
  refine (machine gcm key).run_invariant ⟨rfl, rfl⟩ (fun c op h => ?_) ops
  cases op with
  | enqueue msg =>
    change Counted (if c.hasHandle then c.enqueue msg else c)
    unfold Channel.enqueue
    split
    · split
      · exact h.congr rfl rfl
      · exact h
    · exact h
  | shutdown =>
    change Counted (if c.hasHandle then c.shutdown else c)
    split
    · exact h.congr rfl rfl
    · exact h
  | drop =>
    change Counted (if c.hasHandle then { c with dropped := true } else c)
    split
    · exact h.congr rfl rfl
    · exact h
  | task now peer service => exact h.task gcm key now peer service

/-- No IV is used twice, and none is one of the host's. -/
structure FreshIvs (c : Channel) : Prop where
  nodup : c.ivs.Nodup
  apart : ∀ iv ∈ c.ivs, ∀ seq, iv ≠ hostIv seq

theorem fresh_iff_of_counted {c : Channel} (h : Counted c) :
    FreshIvs c ↔ c.ivs.length ≤ 2 ^ 32 := by
  have hnodup : c.ivs.Nodup ↔ c.ivs.length ≤ 2 ^ 32 := by
    have hfirst := nodup_firstIvs c.ivs.length
    rwa [← h.ivs] at hfirst
  refine ⟨fun hfresh => hnodup.mp hfresh.nodup, fun hle => ⟨hnodup.mpr hle, ?_⟩⟩
  intro iv hiv seq
  rw [h.ivs] at hiv
  obtain ⟨i, -, rfl⟩ := List.mem_map.mp hiv
  exact clientIv_ne_hostIv _ _

/-- In any run the IVs are fresh precisely as long as no more messages have been sealed
than there are numbers. -/
theorem freshIvs_iff (ops : List Input) : FreshIvs ((machine gcm key).run ops) ↔
    ((machine gcm key).run ops).ivs.length ≤ 2 ^ 32 :=
  fresh_iff_of_counted (counted_run gcm key ops)

end Runs

section Wrapping

variable (gcm : AesGcm) (key : Key)

/-- A message and the turn that takes it. -/
def press : List Input :=
  [.enqueue ⟨msgRequestIdr, .reliableSequenced, requestIdrPayload⟩,
    .task 0 (.connected true) .nothing]

/-- The channel waits for messages and has none. -/
structure Waiting (c : Channel) : Prop where
  phase : c.phase = .draining
  alive : c.shared.alive = true
  kept : c.dropped = false
  queue : c.queue = []

theorem press_runFrom {c : Channel} (h : Waiting c) :
    Waiting ((machine gcm key).runFrom c press) ∧
      ((machine gcm key).runFrom c press).ivs.length = c.ivs.length + 1 := by
  obtain ⟨phase, seq, queue, dropped, ⟨alive, term⟩, nextPing, ivs, sent⟩ := c
  obtain ⟨rfl, rfl, rfl, rfl⟩ := h
  refine ⟨⟨rfl, rfl, rfl, rfl⟩, ?_⟩
  change (ivs ++ [clientIv seq]).length = _
  rw [List.length_append]
  rfl

theorem presses_runFrom (n : ℕ) {c : Channel} (h : Waiting c) :
    ((machine gcm key).runFrom c (List.replicate n press).flatten).ivs.length =
      c.ivs.length + n := by
  induction n generalizing c with
  | zero => rfl
  | succ n ih =>
    obtain ⟨hwaiting, hlen⟩ := press_runFrom gcm key h
    rw [List.replicate_succ, List.flatten_cons, Machine.runFrom_append, ih hwaiting, hlen]
    omega

/-- The connection is made. -/
def opening : List Input :=
  [.task 0 (.connected true) .connected, .task 0 (.connected true) .nothing]

/-- As many key frames are requested as there are numbers. -/
def wrapping : List Input := opening ++ (List.replicate (2 ^ 32) press).flatten

/-- With `StartB` before them, the last one is sealed under the first IV again. -/
theorem not_freshIvs_wrapping : ¬ FreshIvs ((machine gcm key).run wrapping) := by
  have hwaiting : Waiting ((machine gcm key).run opening) := ⟨rfl, rfl, rfl, rfl⟩
  have hlen := presses_runFrom gcm key (2 ^ 32) hwaiting
  rw [← Machine.run_append] at hlen
  have hone : ((machine gcm key).run opening).ivs.length = 1 := rfl
  rw [fresh_iff_of_counted (counted_run gcm key wrapping), wrapping, hlen, hone]
  omega

theorem iv_reused : ¬ FreshIvs ((machine aes128Gcm ⟨List.replicate 16 0, rfl⟩).run wrapping) :=
  not_freshIvs_wrapping aes128Gcm _

end Wrapping

end KmControl.ControlIvs
